import Decent.Database

/-!
Pushing and popping blocks: the pending transactions around a push, the switch to
a longer fork with its hand-written way back, and the replay of a stored chain.
-/
namespace Decent.Database
open Decent.ObjectDatabase (Exc)
open Decent.Protocol
open Decent.ForkDatabase (Forks Item)
open Decent.BlockDatabase (Blocks)

variable {R O : Type} (E : Env R O)

/-! ### Pending transactions -/

/-- `_pending_tx_session.reset()`. -/
def reset_pending_session : Exec R O Unit := do
  if (← get).pending_session then
    undo_session
    modifyGet fun s => ((),{ s with pending_session := false })

/-- `database::clear_pending`. -/
def clear_pending : Exec R O Unit := do
  modifyGet fun s => ((),{ s with pending_tx := [] })
  reset_pending_session

/-- Starts the session that all pending transactions share. -/
def start_pending_session : Exec R O Unit :=
  modifyGet fun s => ((),if s.pending_session then s
    else { s with undo := Snapshots.start false s.objects s.undo, pending_session := true })

/-- `database::_push_transaction`. -/
def _push_transaction (trx : Transaction O) : Exec R O Unit := do
  start_pending_session
  with_session false .merge do
    _apply_transaction E trx
    modifyGet fun s => ((),{ s with pending_tx := s.pending_tx ++ [trx] })

/-- `database::push_transaction`; the size of a transaction is not modelled. -/
def push_transaction (trx : Transaction O) (skip : Skip) : Exec R O Unit :=
  with_skip_flags skip (_push_transaction E trx)

/-- One round of `~pending_transactions_restorer`. -/
def push_again (trx : Transaction O) : Exec R O Unit :=
  catching (do
    if is_known_transaction (trx_id E trx) (← get).objects = false then _push_transaction E trx) fun _ => pure ()

/-- `~pending_transactions_restorer`. -/
def restore_pending (pending : List (Transaction O)) : Exec R O Unit := do
  each (push_again E) (← get).popped_tx
  modifyGet fun s => ((),{ s with popped_tx := [] })
  each (push_again E) pending

/-- `detail::without_pending_transactions`. -/
def without_pending_transactions {α : Type} (body : Exec R O α) : Exec R O α := do
  let pending := (← get).pending_tx
  clear_pending
  let a ← tryCatch body fun e => do
    restore_pending E pending
    throw e
  restore_pending E pending
  pure a

/-! ### Popping -/

/-- `database::fetch_block_by_id`. -/
def fetch_block_by_id (id : BlockId) (s : Node R O) : Option (Block O) :=
  match ForkDatabase.fetch_block E.digest id s.fork_db with
  | some item => some item.data
  | none => BlockDatabase.fetch_optional E.digest id s.block_db

/-- `object_database::pop_undo`. -/
def pop_undo : Exec R O Unit := do
  let s ← get
  match Snapshots.pop_commit s.undo with
  | some (start,u) => set { s with objects := start, undo := u }
  | none => throw (.assert_exception "!_stack.empty()")

/-- Runs code of the fork database. -/
def onForks (x : Forks O → Except Exc (Forks O)) : Exec R O Unit := do
  let s ← get
  match x s.fork_db with
  | .ok F => set { s with fork_db := F }
  | .error e => throw e

/-- Runs code of the block database. -/
def onBlocks (x : Blocks O → Except Exc (Blocks O)) : Exec R O Unit := do
  let s ← get
  match x s.block_db with
  | .ok B => set { s with block_db := B }
  | .error e => throw e

/-- `database::pop_block`. The caller may hold items of the fork database. -/
def pop_block (held : List (Item O)) : Exec R O Unit := do
  reset_pending_session
  let s ← get
  let head_id := s.objects.head_block_id
  match fetch_block_by_id E head_id s with
  | none => throw .pop_empty_chain
  | some head_block =>
    onForks (ForkDatabase.pop_block held)
    onBlocks (BlockDatabase.remove head_id)
    pop_undo
    modifyGet fun s => ((),{ s with popped_tx := head_block.transactions ++ s.popped_tx })

/-- `while( head_block_id() != target ) pop_block()`. Every round takes a state off
    the undo stack, and none is left to take after as many rounds as it has states. -/
def pop_until (held : List (Item O)) (target : BlockId) : Nat → Exec R O Unit
  | 0 => throw (.undefined "unreachable")
  | fuel + 1 => do
    if (← get).objects.head_block_id ≠ target then
      pop_block E held
      pop_until held target fuel

def pop_to (held : List (Item O)) (target : BlockId) : Exec R O Unit := do
  let s ← get
  pop_until E held target (s.undo.stack.length + 2)

/-! ### Pushing -/

/-- Applies a block in a session of its own and stores it under the id. -/
def apply_and_store (id : BlockId) (b : Block O) (skip : Skip) : Exec R O Unit :=
  with_session false .commit do
    apply_block E b skip
    onBlocks fun B => .ok (BlockDatabase.store E.digest id b B)

/-- The part of `_push_block` for a block on top of the head. The second session is
    the one the listeners run in. -/
def extend (new_block : Block O) (skip : Skip) : Exec R O Unit := do
  catching (apply_and_store E (new_block.id E.digest) new_block skip) fun e => do
    onForks fun F => .ok (ForkDatabase.remove E.digest (new_block.id E.digest) F)
    throw e
  with_session false .merge (pure ())

/-- Applies the blocks of a branch, lowest first. A failure gives the exception and
    the blocks from the failing one on. -/
def push_branch (skip : Skip) : List (Item O) → Exec R O (Option (Exc × List (Item O)))
  | [] => pure none
  | item :: rest => do
    let failure ← catching (do apply_and_store E (item.id E.digest) item.data skip; pure none) fun e => pure (some e)
    match failure with
    | none => push_branch skip rest
    | some e => pure (some (e,item :: rest))

/-- The way back from a branch that failed. -/
def switch_back (skip : Skip) (new_block : Block O) (held failed second : List (Item O)) (target : BlockId)
    (front : Item O) : Exec R O Unit := do
  each (fun item => onForks fun F => .ok (ForkDatabase.remove E.digest (item.data.id E.digest) F)) failed
  onForks fun F => .ok (ForkDatabase.set_head front F)
  pop_to E held target
  each (fun item => apply_and_store E (new_block.id E.digest) item.data skip) second.reverse

/-- Puts the new branch on the chain, or the old one back. -/
def take_branch (skip : Skip) (new_block : Block O) (held first second : List (Item O)) (target : BlockId)
    (front : Item O) : Exec R O Unit := do
  match ← push_branch E skip first.reverse with
  | none => pure ()
  | some (e,failed) =>
    switch_back E skip new_block held failed second target front
    throw e

/-- The part of `_push_block` for a fork that is longer than the applied chain. -/
def switch_forks (skip : Skip) (new_block : Block O) (new_head : Item O) : Exec R O Unit := do
  let s ← get
  match ForkDatabase.fetch_branch_from E.digest (new_head.data.id E.digest) s.objects.head_block_id s.fork_db with
  | .error e => throw e
  | .ok (first,second) =>
    match second.head?, second.getLast? with
    | some front, some back =>
      let held := new_head :: first ++ second
      pop_to E held back.data.previous
      take_branch E skip new_block held first second back.data.previous front
    | _, _ => throw (.undefined "branches.second.back()")

/-- `_fork_db.push_block`. -/
def push_fork (b : Block O) : Exec R O (Item O) := do
  let s ← get
  match ForkDatabase.push_block E.digest b s.fork_db with
  | .ok (item,F) => set { s with fork_db := F }; pure item
  | .error e => throw e

/-- `database::_push_block`. -/
def _push_block (new_block : Block O) : Exec R O Bool := do
  let skip := (← get).skip_flags
  if skip.fork_db then
    extend E new_block skip
    pure false
  else
    let new_head ← push_fork E new_block
    let o := (← get).objects
    if new_head.data.previous = o.head_block_id then
      extend E new_block skip
      pure false
    else if new_head.num > o.head_block_number then
      switch_forks E skip new_block new_head
      pure true
    else pure false

/-- `database::push_block`. -/
def push_block (new_block : Block O) (skip : Skip) : Exec R O Bool :=
  with_skip_flags skip (without_pending_transactions E (_push_block E new_block))

/-! ### Reindexing -/

/-- The flags `reindex` applies blocks with. -/
def reindexFlags : Skip := { Skip.nothing with
  miner_signature := true
  transaction_signatures := true
  transaction_dupe_check := true
  tapos_check := true
  miner_schedule_check := true
  authority_check := true }

/-- The id `block_database::last_id` finds. -/
def last_id (B : Blocks O) : Option BlockId := (B.index.reverse.find? fun e => e.stored).map fun e => e.block_id

/-- Drops the blocks after a gap at `num`. -/
def drop_after (num : Nat) : Nat → Exec R O Unit
  | 0 => pure ()
  | n + 1 => do
    match last_id (← get).block_db with
    | none => pure ()
    | some id =>
      if id.num ≤ num then pure ()
      else do
        onBlocks (BlockDatabase.remove id)
        drop_after num n

/-- The loop of `reindex`: applies the stored blocks from `num` on. -/
def replay_from (num : Nat) : Nat → Exec R O Unit
  | 0 => pure ()
  | n + 1 => do
    let s ← get
    match BlockDatabase.fetch_by_number E.digest num s.block_db with
    | none => drop_after num s.block_db.index.length
    | some b => do
      apply_block E b reindexFlags
      replay_from (num + 1) n

/-- A database opened on the stored blocks, with the objects of the genesis state. -/
def opened (genesis : Objects R O) (B : Blocks O) (checkpoints : List (Nat × BlockId)) : Node R O where
  objects := genesis
  undo := ⟨[],0,false,10⟩
  fork_db := match BlockDatabase.last B with
    | some b => ForkDatabase.start_block E.digest b .empty
    | none => .empty
  block_db := B
  pending_tx := []
  popped_tx := []
  pending_session := false
  skip_flags := .nothing
  checkpoints := checkpoints

/-- `database::reindex`, once the objects are wiped and the database is opened. -/
def reindex : Exec R O Unit := do
  match BlockDatabase.last (← get).block_db with
  | none => pure ()
  | some last => do
    modifyGet fun s => ((),{ s with undo := Snapshots.disable s.undo })
    replay_from E 1 last.block_num
    modifyGet fun s => ((),{ s with undo := { s.undo with disabled := false } })

end Decent.Database

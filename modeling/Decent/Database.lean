import Decent.ForkDatabase
import Decent.BlockDatabase
import Decent.Lib.Snapshots
import Mathlib.Data.List.Sort

/-!
The chain database and the application of a block. Objects that the consensus
code of `db_block.cpp`, `db_update.cpp` and the proposal evaluators reads are
explicit; the tables of the other evaluators are of a type `R`, and an
environment gives the functions that work on them. Undo sessions restore a
snapshot; `Decent.UndoDatabase` has the maps behind them.
-/
namespace Decent.Database
open Decent.ObjectDatabase (Exc)
open Decent.Protocol
open Decent.ForkDatabase (Forks Item)
open Decent.BlockDatabase (Blocks)
open Snapshots (History)

variable {R O : Type}

/-- `GRAPHENE_MAX_UNDO_HISTORY`. -/
def maxUndoHistory : Nat := 10000
/-- `GRAPHENE_100_PERCENT - GRAPHENE_IRREVERSIBLE_THRESHOLD`, in units of
    `GRAPHENE_100_PERCENT`. -/
def reversiblePercent : Nat := 3000
def hundredPercent : Nat := 10000
/-- `GRAPHENE_MINER_ACCOUNT`. -/
def minerAccount : Nat := 0

/-- `validation_steps`: what the node skips. -/
structure Skip where
  miner_signature : Bool
  transaction_signatures : Bool
  transaction_dupe_check : Bool
  fork_db : Bool
  block_size_check : Bool
  tapos_check : Bool
  authority_check : Bool
  merkle_check : Bool
  assert_evaluation : Bool
  undo_history_check : Bool
  miner_schedule_check : Bool
  validate : Bool
deriving DecidableEq, Repr

/-- `skip_nothing`. -/
def Skip.nothing : Skip := ⟨false,false,false,false,false,false,false,false,false,false,false,false⟩
/-- `~0`. -/
def Skip.everything : Skip := ⟨true,true,true,true,true,true,true,true,true,true,true,true⟩

/-- The steps that evaluators ask for. -/
structure EvaluationSkip where
  assert_evaluation : Bool
  undo_history_check : Bool
  validate : Bool
deriving DecidableEq, Repr

def Skip.evaluation (skip : Skip) : EvaluationSkip :=
  ⟨skip.assert_evaluation,skip.undo_history_check,skip.validate⟩

/-- `miner_object`. -/
structure Miner where
  signing_key : Nat
  last_confirmed_block_num : Nat
deriving DecidableEq, Repr

/-- The tables that operations, rewards and maintenance change. -/
structure World (R : Type) where
  miners : Nat → Option Miner
  active_miners : List Nat
  next_maintenance_time : Nat
  rest : R

/-- `proposal_object`. -/
structure Proposal (O : Type) where
  id : Nat
  expiration_time : Nat
  review_period_time : Option Nat
  proposed_ops : List (Operation O)
  required_active_approvals : Finset Nat
  required_owner_approvals : Finset Nat
  available_active_approvals : Finset Nat
  available_owner_approvals : Finset Nat
  available_key_approvals : Finset Nat

/-- `transaction_object`. -/
structure TransactionObject (O : Type) where
  id : Nat
  trx_id : Nat
  trx : Transaction O

/-- The objects of the chain. `applied` is the list of blocks applied so far, the
    latest first; no code reads it, statements about the applied chain do. -/
structure Objects (R O : Type) where
  head_block_number : Nat
  head_block_id : BlockId
  time : Nat
  last_irreversible_block_num : Nat
  world : World R
  proposals : List (Proposal O)
  next_proposal : Nat
  transactions : List (TransactionObject O)
  next_transaction : Nat
  block_summary : Nat → BlockId
  applied : List (Block O)

/-- What evaluators and maintenance read of the dynamic global properties. -/
structure Context where
  head_block_num : Nat
  head_block_time : Nat
deriving DecidableEq, Repr

/-- Of a `content_object`, what `proof_of_custody_evaluator::do_evaluate` reads. -/
structure Content where
  expiration : Nat
  cd : Option Nat
deriving DecidableEq, Repr

/-- The code around the consensus core: hashes and signatures, the other
    evaluators, and the parts of block application that touch their tables only. -/
structure Env (R O : Type) where
  digest : Header → Nat
  validate_signee : Header → Nat → Bool
  trx_hash : TransactionBody O → Nat
  merkle_root : List (Transaction O) → Nat
  /-- The word of a block id that `ref_block_prefix` repeats. -/
  prefix_of : BlockId → Nat
  validate : TransactionBody O → Except Exc Unit
  verify_authority : World R → Transaction O → Except Exc Unit
  /-- The accounts whose active, and whose owner, authority an operation needs, and
      whether it needs any other. -/
  required_authorities : Operation O → Finset Nat × Finset Nat × Bool
  is_authorized_to_execute : World R → Proposal O → Bool
  maximum_time_until_expiration : World R → Nat
  maximum_proposal_lifetime : World R → Nat
  miner_proposal_review_period : World R → Nat
  content : World R → String → Option Content
  verify_by_miner : Nat → CustodyProof → Bool
  /-- `prepare_fee`, the fee check, and `do_evaluate` where it has no case below. -/
  evaluate : EvaluationSkip → Context → Operation O → World R → Except Exc Unit
  /-- `convert_fee` and `pay_fee`. -/
  pay_fee : Context → Operation O → EStateM Exc (World R) Unit
  /-- `do_apply` where it has no case below. -/
  do_apply : EvaluationSkip → Context → Operation O → EStateM Exc (World R) Unit
  /-- Taking the fee from the payer. -/
  charge_fee : Context → Operation O → EStateM Exc (World R) Unit
  temp_account_empty : World R → Bool
  /-- The miner scheduled for the slot of a time after the head, if it has one. -/
  scheduled_miner : Context → World R → Nat → Option Nat
  /-- Missed slots, participation and the absolute slot, given the time and the miner
      of the block. -/
  update_slots : Context → Nat → Nat → EStateM Exc (World R) Unit
  /-- The pay of `update_signing_miner`, given the time and the miner of the block. -/
  pay_miner : Context → Nat → Nat → EStateM Exc (World R) Unit
  perform_chain_maintenance : Context → EStateM Exc (World R) Unit
  /-- Feeds, withdraw permissions, the maintenance flag and the schedule. -/
  finish_block : Context → Bool → EStateM Exc (World R) Unit
  /-- How many evaluators may be active at once before the stack is exhausted. -/
  depth : Nat

/-- `database`, with its fork database, block database and undo database. -/
structure Node (R O : Type) where
  objects : Objects R O
  undo : History (Objects R O)
  fork_db : Forks O
  block_db : Blocks O
  pending_tx : List (Transaction O)
  popped_tx : List (Transaction O)
  /-- Whether `_pending_tx_session` holds a session. -/
  pending_session : Bool
  skip_flags : Skip
  checkpoints : List (Nat × BlockId)

/-- Code of the database. What it changed before an exception stays changed. -/
abbrev Exec (R O : Type) (α : Type) := EStateM Exc (Node R O) α

/-- `catch( const fc::exception& )`: undefined behaviour is not an exception. -/
def Caught : Exc → Prop
  | .undefined _ => False
  | _ => True

instance : DecidablePred Caught := fun e => by cases e <;> simp only [Caught] <;> infer_instance

def catching {α : Type} (x : Exec R O α) (handler : Exc → Exec R O α) : Exec R O α :=
  tryCatch x fun e => if Caught e then handler e else throw e

def fc_assert (p : Prop) [Decidable p] (what : String) : Exec R O Unit :=
  if p then pure () else throw (.assert_exception what)

/-- `if( p ) x;`. -/
def provided (p : Prop) [Decidable p] (x : Exec R O Unit) : Exec R O Unit := if p then x else pure ()

def check (r : Except Exc Unit) : Exec R O Unit :=
  match r with
  | .ok () => pure ()
  | .error e => throw e

/-- Changes to the objects. -/
def update (f : Objects R O → Objects R O) : Exec R O Unit :=
  modifyGet fun s => ((),{ s with objects := f s.objects })

/-- Code that works on the tables of the evaluators. -/
def onWorld (x : Context → EStateM Exc (World R) Unit) : Exec R O Unit := fun s =>
  match (x ⟨s.objects.head_block_number,s.objects.time⟩).run s.objects.world with
  | .ok _ w => .ok () { s with objects := { s.objects with world := w } }
  | .error e w => .error e { s with objects := { s.objects with world := w } }

def each {α : Type} (f : α → Exec R O Unit) : List α → Exec R O Unit
  | [] => pure ()
  | a :: rest => do f a; each f rest

/-! ### Sessions -/

/-- `undo_database::undo` as a session's destructor calls it: an exception there
    ends the process. -/
def undo_session : Exec R O Unit := do
  let s ← get
  match Snapshots.undo s.undo with
  | some (start,u) => set { s with objects := start, undo := u }
  | none => throw (.undefined "terminate called by ~session")

/-- How a session ends when its block of code is done. -/
inductive Ending
  | commit
  | merge

/-- `session::commit` and `session::merge`; a session that forced the undo database
    on commits where it would merge. -/
def close_session (ending : Ending) (disable_on_exit : Bool) : Exec R O Unit := do
  let s ← get
  let closed := match ending, disable_on_exit with
    | .merge, false => Snapshots.merge s.undo
    | _, _ => Snapshots.commit s.undo
  match closed with
  | some u => set { s with undo := u }
  | none => throw (.assert_exception "_active_sessions > 0")

/-- The end of a session's scope. -/
def leave_session (disable_on_exit : Bool) : Exec R O Unit :=
  modifyGet fun s => ((),if disable_on_exit then { s with undo := Snapshots.disable s.undo } else s)

/-- A block of code with a session of its own. An exception undoes it. -/
def with_session (force_enable : Bool) (ending : Ending) (body : Exec R O Unit) : Exec R O Unit := do
  let s ← get
  let disable_on_exit := s.undo.disabled && force_enable
  set { s with undo := Snapshots.start force_enable s.objects s.undo }
  tryCatch (do body; close_session ending disable_on_exit) fun e => do
    undo_session
    leave_session disable_on_exit
    throw e
  leave_session disable_on_exit

/-- `detail::with_skip_flags`. -/
def with_skip_flags {α : Type} (flags : Skip) (body : Exec R O α) : Exec R O α := fun s =>
  match body.run { s with skip_flags := flags } with
  | .ok a s' => .ok a { s' with skip_flags := s.skip_flags }
  | .error e s' => .error e { s' with skip_flags := s.skip_flags }

/-! ### Operations -/

section
variable (E : Env R O)

/-- `database::get_block_id_for_num`. -/
def get_block_id_for_num (num : Nat) : Exec R O BlockId := do
  match BlockDatabase.fetch_block_id num (← get).block_db with
  | .ok id => pure id
  | .error e => throw e

/-- The seed of a proof repeats the id of its reference block, which is not too old. -/
def check_reference (proof : CustodyProof) : Exec R O Unit := do
  let bid ← get_block_id_for_num proof.reference_block
  fc_assert (bid = proof.seed) "Block ID does not match; wrong chain?"
  let head := (← get).objects.head_block_number
  fc_assert (head ≤ (proof.reference_block + 6) % 2 ^ 32) "Block reference is too old"

/-- The last two checks of `proof_of_custody_evaluator::do_evaluate`. -/
def verify_custody (skip_validate : Bool) : Option Nat → Option CustodyProof → Exec R O Unit
  | some cd, some proof =>
    fc_assert (skip_validate = true ∨ E.verify_by_miner cd proof = true) "Invalid proof of custody"
  | none, none => pure ()
  | _, _ => throw (.assert_exception "content->cd.valid() == o.proof.valid()")

/-- `proof_of_custody_evaluator::do_evaluate`. -/
def evaluate_proof_of_custody (URI : String) (proof : Option CustodyProof) : Exec R O Unit := do
  let s ← get
  match E.content s.objects.world URI with
  | none => throw (.assert_exception "content not found")
  | some content => do
    fc_assert (content.expiration > s.objects.time) "content expired"
    proof.elim (pure ()) check_reference
    verify_custody E s.skip_flags.validate content.cd proof

/-- The proposal with the number, if the table has it. -/
def find_proposal (id : Nat) : Exec R O (Proposal O) := do
  match (← get).objects.proposals.find? (fun p => p.id = id) with
  | some p => pure p
  | none => throw (.assert_exception "Unable to find Object")

/-- A proposal that needs the miners' account gives the miners time to review it. -/
def check_review_period (w : World R) : Option Nat → Exec R O Unit
  | none => throw (.assert_exception "Review period not given, but at least $\x7bmin\x7d required")
  | some period =>
    fc_assert (period ≥ E.miner_proposal_review_period w)
      "Review period of $\x7bt\x7d specified, but at least $\x7bmin\x7d required"

/-- `proposal_create_evaluator::do_evaluate`. -/
def evaluate_proposal_create (expiration_time : Nat) (review_period_seconds : Option Nat)
    (proposed_ops : List (Operation O)) : Exec R O Unit := do
  let o := (← get).objects
  fc_assert (expiration_time > o.time) "Proposal has already expired on creation."
  fc_assert (expiration_time ≤ o.time + E.maximum_proposal_lifetime o.world)
    "Proposal expiration time is too far in the future."
  fc_assert (∀ period ∈ review_period_seconds, period < expiration_time - o.time)
    "Proposal review period must be less than its overall lifetime."
  fc_assert (∀ op ∈ proposed_ops, (E.required_authorities op).2.2 = false) "other.size() == 0"
  provided (∃ op ∈ proposed_ops,
      minerAccount ∈ (E.required_authorities op).1 ∨ minerAccount ∈ (E.required_authorities op).2.1)
    (check_review_period E o.world review_period_seconds)
  check (E.validate ⟨0,0,0,proposed_ops⟩)

/-- `proposal_create_evaluator::do_apply`. -/
def apply_proposal_create (expiration_time : Nat) (review_period_seconds : Option Nat)
    (proposed_ops : List (Operation O)) : Exec R O Unit :=
  let owner := proposed_ops.foldl (fun all op => all ∪ (E.required_authorities op).2.1) ∅
  let active := proposed_ops.foldl (fun all op => all ∪ (E.required_authorities op).1) ∅
  update fun o => { o with
    proposals := o.proposals ++ [⟨o.next_proposal,expiration_time,
      review_period_seconds.map fun period => expiration_time - period,proposed_ops,active \ owner,owner,∅,∅,∅⟩]
    next_proposal := o.next_proposal + 1 }

/-- Removes a proposal from its table. -/
def remove_proposal (id : Nat) : Exec R O Unit :=
  update fun o => { o with proposals := o.proposals.filter fun p => p.id ≠ id }

/-- `database::push_proposal`, given how operations are applied. -/
def push_proposal (apply : Operation O → Exec R O Unit) (p : Proposal O) : Exec R O Unit :=
  with_session true .merge do
    each apply p.proposed_ops
    let _ ← find_proposal p.id
    remove_proposal p.id

/-- `do_evaluate` of the operations that have a constructor of their own. -/
def do_evaluate : Operation O → Exec R O Unit
  | .proof_of_custody _ URI proof => evaluate_proof_of_custody E URI proof
  | .proposal_create expiration review ops => evaluate_proposal_create E expiration review ops
  | .proposal_update id activeAdd activeRemove ownerAdd ownerRemove _ _ => do
    let p ← find_proposal id
    let now := (← get).objects.time
    fc_assert ((∃ start ∈ p.review_period_time, now ≥ start) → activeAdd = ∅ ∧ ownerAdd = ∅)
      "This proposal is in its review period. No new approvals may be added."
    fc_assert (activeRemove ⊆ p.available_active_approvals ∧ ownerRemove ⊆ p.available_owner_approvals)
      "_proposal->available_active_approvals"
  | .proposal_delete payer owner id => do
    let p ← find_proposal id
    fc_assert (payer ∈ if owner then p.required_owner_approvals else p.required_active_approvals)
      "Provided authority is not authoritative for this proposal."
  | .other _ => pure ()

/-- Approvals of `proposal_update_evaluator::do_apply`. -/
def approve (id : Nat) (activeAdd activeRemove ownerAdd ownerRemove keyAdd keyRemove : Finset Nat) :
    Exec R O Unit :=
  update fun o => { o with proposals := o.proposals.map fun p =>
    if p.id = id then { p with
      available_active_approvals := (p.available_active_approvals ∪ activeAdd) \ activeRemove
      available_owner_approvals := (p.available_owner_approvals ∪ ownerAdd) \ ownerRemove
      available_key_approvals := (p.available_key_approvals ∪ keyAdd) \ keyRemove }
    else p }

/-- The execution part of `proposal_update_evaluator::do_apply`: an approved proposal
    without a review period runs at once, and its failure is only logged. -/
def execute_approved (apply : Operation O → Exec R O Unit) (id : Nat) : Exec R O Unit := do
  let p ← find_proposal id
  let w := (← get).objects.world
  provided (p.review_period_time = none ∧ E.is_authorized_to_execute w p = true)
    (catching (push_proposal apply p) fun _ => pure ())

/-- `do_apply`, given how the operations of a proposal are applied. -/
def do_apply (apply : Operation O → Exec R O Unit) (skip : EvaluationSkip) (op : Operation O) : Exec R O Unit :=
  match op with
  | .proof_of_custody .. => onWorld fun ctx => E.do_apply skip ctx op
  | .proposal_create expiration review ops => apply_proposal_create E expiration review ops
  | .proposal_update id activeAdd activeRemove ownerAdd ownerRemove keyAdd keyRemove => do
    approve id activeAdd activeRemove ownerAdd ownerRemove keyAdd keyRemove
    execute_approved E apply id
  | .proposal_delete _ _ id => remove_proposal id
  | .other _ => onWorld fun ctx => E.do_apply skip ctx op

/-- `database::apply_operation`: evaluates and applies one operation. -/
def apply_operation : Nat → Operation O → Exec R O Unit
  | 0, _ => throw (.undefined "stack exhausted")
  | depth + 1, op => do
    let s ← get
    check (E.evaluate s.skip_flags.evaluation ⟨s.objects.head_block_number,s.objects.time⟩ op s.objects.world)
    do_evaluate E op
    onWorld fun ctx => E.pay_fee ctx op
    do_apply E (apply_operation depth) s.skip_flags.evaluation op
    onWorld fun ctx => E.charge_fee ctx op

/-! ### Transactions -/

/-- `signed_transaction::id`: signatures do not enter it. -/
def trx_id (trx : Transaction O) : Nat := E.trx_hash trx.toTransactionBody

/-- `database::is_known_transaction`. -/
def is_known_transaction (id : Nat) (o : Objects R O) : Bool := o.transactions.any fun t => t.trx_id = id

/-- The TaPoS and expiration checks of `_apply_transaction`. -/
def check_time (trx : Transaction O) : Exec R O Unit := do
  let s ← get
  let o := s.objects
  fc_assert (s.skip_flags.tapos_check = true ∨ trx.ref_block_prefix = E.prefix_of (o.block_summary trx.ref_block_num))
    "trx.ref_block_prefix == tapos_block_summary.block_id._hash[1]"
  fc_assert (trx.expiration ≤ o.time + E.maximum_time_until_expiration o.world)
    "trx.expiration <= now + chain_parameters.maximum_time_until_expiration"
  fc_assert (o.time ≤ trx.expiration) "now <= trx.expiration"

/-- The checks of `_apply_transaction` before any object changes. -/
def check_transaction (trx : Transaction O) : Exec R O Unit := do
  let s ← get
  let skip := s.skip_flags
  let o := s.objects
  check (E.validate trx.toTransactionBody)
  fc_assert (skip.transaction_dupe_check = true ∨ is_known_transaction (trx_id E trx) o = false)
    "trx_idx.indices().get<by_trx_id>().find(trx_id) == end()"
  provided (¬ (skip.transaction_signatures = true ∨ skip.authority_check = true))
    (check (E.verify_authority o.world trx))
  provided (o.head_block_number > 0) (check_time E trx)

/-- Inserts the transaction into the table of recent transactions. -/
def create_transaction (trx : Transaction O) : Exec R O Unit :=
  update fun o => { o with
    transactions := o.transactions ++ [⟨o.next_transaction,trx_id E trx,trx⟩]
    next_transaction := o.next_transaction + 1 }

/-- `database::_apply_transaction`. -/
def _apply_transaction (trx : Transaction O) : Exec R O Unit := do
  let skip := (← get).skip_flags
  check_transaction E trx
  provided (¬ skip.transaction_dupe_check = true) (create_transaction E trx)
  each (apply_operation E E.depth) trx.operations
  fc_assert (E.temp_account_empty (← get).objects.world = true) "b.balance == 0"

/-- `database::apply_transaction`. -/
def apply_transaction (trx : Transaction O) (skip : Skip) : Exec R O Unit :=
  with_skip_flags skip (_apply_transaction E trx)

/-! ### Blocks -/

/-- `database::validate_block_header`. -/
def validate_block_header (skip : Skip) (b : Block O) : Exec R O Unit := do
  let o := (← get).objects
  fc_assert (o.head_block_id = b.previous) "head_block_id() == next_block.previous"
  fc_assert (o.time < b.timestamp) "head_block_time() < next_block.timestamp"
  match o.world.miners b.miner with
  | none => throw (.assert_exception "Unable to find Object")
  | some miner => do
    fc_assert (skip.miner_signature = true ∨ E.validate_signee b.toHeader miner.signing_key = true)
      "next_block.validate_signee( miner.signing_key )"
    fc_assert (skip.miner_schedule_check = true ∨
        E.scheduled_miner ⟨o.head_block_number,o.time⟩ o.world b.timestamp = some b.miner)
      "Miner produced block at wrong time"

/-- The head of the dynamic global properties after the block. -/
def advance (b : Block O) (o : Objects R O) : Objects R O :=
  { o with
    head_block_number := b.block_num
    head_block_id := b.id E.digest
    time := b.timestamp
    applied := b :: o.applied }

/-- The number of reversible blocks up to the head. -/
def window (o : Objects R O) : Nat := o.head_block_number - o.last_irreversible_block_num

/-- `set_max_size` of the undo database and of the fork database. Neither window is
    an object: no session restores it. -/
def set_windows : Exec R O Unit :=
  modifyGet fun s => ((),{ s with
    undo := Snapshots.set_max_size (window s.objects + 1) s.undo
    fork_db := ForkDatabase.set_max_size (window s.objects + 1) s.fork_db })

/-- `database::update_global_dynamic_data`. -/
def update_global_dynamic_data (b : Block O) : Exec R O Unit := do
  onWorld fun ctx => E.update_slots ctx b.timestamp b.miner
  update (advance E b)
  let s ← get
  provided (¬ s.skip_flags.undo_history_check = true ∧ ¬ window s.objects < maxUndoHistory)
    (throw .undo_database_exception)
  set_windows

/-- `database::update_signing_miner`. -/
def update_signing_miner (b : Block O) : Exec R O Unit := do
  onWorld fun ctx => E.pay_miner ctx b.timestamp b.miner
  update fun o => { o with world := { o.world with
    miners := fun id => if id = b.miner then
        (o.world.miners id).map fun m => { m with last_confirmed_block_num := b.block_num }
      else o.world.miners id } }

/-- The block numbers that the active miners last confirmed, in order. -/
def confirmed (w : World R) : Option (List Nat) :=
  (w.active_miners.mapM fun id => (w.miners id).map (·.last_confirmed_block_num)).map
    fun numbers => numbers.insertionSort (· ≤ ·)

/-- `database::update_last_irreversible_block`. -/
def update_last_irreversible_block : Exec R O Unit := do
  let s ← get
  if s.skip_flags.undo_history_check = true then
    update fun o => { o with last_irreversible_block_num := o.head_block_number }
  else match confirmed s.objects.world with
    | none => throw (.assert_exception "Unable to find Object")
    | some numbers =>
      match numbers[reversiblePercent * numbers.length / hundredPercent]? with
      | none => throw (.undefined "wit_objs[offset]")
      | some new_last =>
        provided (new_last > s.objects.last_irreversible_block_num)
          (update fun o => { o with last_irreversible_block_num := new_last })

/-- The loop of `clear_expired_transactions`. It looks at the latest expiration of
    the index, not at the earliest. -/
def clear_expired (now : Nat) : Nat → List (TransactionObject O) → List (TransactionObject O)
  | 0, table => table
  | n + 1, table =>
    match table.maxOn? (fun t => t.trx.expiration) with
    | none => table
    | some latest =>
      if now > latest.trx.expiration then clear_expired now n (table.filter fun t => t.id ≠ latest.id)
      else table

/-- `database::clear_expired_transactions`. -/
def clear_expired_transactions : Exec R O Unit :=
  update fun o => { o with transactions := clear_expired o.time o.transactions.length o.transactions }

/-- The proposal that expires first. -/
def first_to_expire (proposals : List (Proposal O)) : Option (Proposal O) :=
  proposals.minOn? fun p => p.expiration_time

/-- One round of `clear_expired_proposals`: an approved proposal is run, any other
    is removed, and so is one that fails. -/
def expire_proposal (p : Proposal O) : Exec R O Unit := do
  if E.is_authorized_to_execute (← get).objects.world p = true then
    catching (push_proposal (apply_operation E E.depth) p) fun _ => remove_proposal p.id
  else remove_proposal p.id

/-- `database::clear_expired_proposals`. -/
def clear_expired_proposals : Nat → Exec R O Unit
  | 0 => pure ()
  | n + 1 => do
    let o := (← get).objects
    match first_to_expire o.proposals with
    | none => pure ()
    | some p =>
      provided (p.expiration_time ≤ o.time) do
        expire_proposal E p
        clear_expired_proposals n

/-- `database::create_block_summary`. -/
def create_block_summary (b : Block O) : Exec R O Unit :=
  update fun o => { o with
    block_summary := Function.update o.block_summary (b.block_num % 2 ^ 16) (b.id E.digest) }

/-- What `_apply_block` does after the transactions. -/
def finish_block (b : Block O) (maint_needed : Bool) : Exec R O Unit := do
  update_global_dynamic_data E b
  update_signing_miner E b
  update_last_irreversible_block
  provided (maint_needed = true) (onWorld E.perform_chain_maintenance)
  create_block_summary E b
  clear_expired_transactions
  clear_expired_proposals E (← get).objects.proposals.length
  onWorld fun ctx => E.finish_block ctx maint_needed

/-- `database::_apply_block`. Transactions of a block are applied without their
    signatures being looked at, whatever the flags of the block. -/
def _apply_block (b : Block O) : Exec R O Unit := do
  let s ← get
  let skip := s.skip_flags
  fc_assert (skip.merkle_check = true ∨ b.transaction_merkle_root = E.merkle_root b.transactions)
    "next_block.transaction_merkle_root == next_block.calculate_merkle_root()"
  validate_block_header E skip b
  each (fun trx => apply_transaction E trx { skip with transaction_signatures := true }) b.transactions
  finish_block E b (s.objects.world.next_maintenance_time ≤ b.timestamp)

/-- The flags a block is applied with: before the last checkpoint everything is
    skipped. -/
def checkpointed (checkpoints : List (Nat × BlockId)) (num : Nat) (skip : Skip) : Skip :=
  match checkpoints.getLast? with
  | some (last,id) => if id ≠ .zero ∧ last ≥ num then .everything else skip
  | none => skip

/-- The id a checkpoint asks the block to have. -/
def MatchesCheckpoint (checkpoints : List (Nat × BlockId)) (digest : Header → Nat) (b : Block O) : Prop :=
  ∀ last ∈ checkpoints.getLast?, last.2 ≠ .zero → ∀ c ∈ checkpoints, c.1 = b.block_num → b.id digest = c.2

instance (checkpoints : List (Nat × BlockId)) (digest : Header → Nat) (b : Block O) :
    Decidable (MatchesCheckpoint checkpoints digest b) := by
  unfold MatchesCheckpoint; infer_instance

/-- `database::apply_block`. -/
def apply_block (b : Block O) (skip : Skip) : Exec R O Unit := do
  let s ← get
  fc_assert (MatchesCheckpoint s.checkpoints E.digest b) "Block did not match checkpoint"
  with_skip_flags (checkpointed s.checkpoints b.block_num skip) (_apply_block E b)

end

end Decent.Database

import Decent.Sound

/-!
The pending transactions around a push, and popping a block. Pending transactions
run in a session of their own on top of the undo stack: `PendingOnTop` says that
discarding it leaves the head where it is.
-/
namespace Decent.Database
open Decent.ObjectDatabase (Exc)
open Decent.Protocol
open Decent.ForkDatabase (Forks Item)
open Throwing

variable {R O : Type}

/-- The session of the pending transactions, if there is one, started at the head. -/
def PendingOnTop (s : Node R O) : Prop :=
  s.pending_session = true → ∀ x ∈ s.undo.stack.head?, SameHead x s.objects

/-- What pushing pending transactions keeps. -/
def Shelves (s s' : Node R O) : Prop :=
  s.undo.disabled = false → Still s s' ∧ (PendingOnTop s → PendingOnTop s')

theorem shelves_composes : Composes (Shelves (R := R) (O := O)) where
  refl s := fun _ => ⟨still_composes.refl s,id⟩
  trans := by
    intro a b c first second on
    obtain ⟨still,pending⟩ := first on
    obtain ⟨still',pending'⟩ := second (still.enabled on)
    exact ⟨still_composes.trans still still',pending' ∘ pending⟩

theorem pendingOnTop_still {s s' : Node R O} (still : Still s s') (same : s'.pending_session = s.pending_session)
    (pending : PendingOnTop s) : PendingOnTop s' := by
  intro open' x top
  have back : SameHead s.objects s'.objects :=
    ⟨still.head.applied.symm,still.head.head_block_id.symm,still.head.head_block_number.symm⟩
  rcases covers_head still.stack x top with near | base
  · exact near.trans back
  · exact (pending (same ▸ open') x base).trans back

theorem shelves_start_pending_session : Keeps Shelves (start_pending_session : Exec R O Unit) := by
  refine keeps_modifyGet fun s on => ?_
  cases already : s.pending_session with
  | true => exact ⟨by simpa [already] using still_composes.refl s,by simp⟩
  | false =>
    simp only [Bool.false_eq_true,if_false,Snapshots.start,on,Bool.false_and]
    refine ⟨⟨.refl _,covers_push _ _,fun _ => rfl,pruned_composes.refl _,rfl,rfl⟩,fun _ _ x top => ?_⟩
    obtain rfl : s.objects = x := by simpa using top
    exact .refl _

variable (E : Env R O)

theorem shelves_push_transaction (trx : Transaction O) : Keeps Shelves (_push_transaction E trx) := by
  refine keeps_bind shelves_composes shelves_start_pending_session fun _ => ?_
  intro s on
  have inner : Keeps Still (do
      _apply_transaction E trx
      modifyGet fun s => ((),{ s with pending_tx := s.pending_tx ++ [trx] }) : Exec R O Unit) := by
    refine keeps_bind still_composes (fun s => (quiet_apply_transaction E trx s).toStill) fun _ => ?_
    exact keeps_modifyGet fun s => ⟨.refl _,covers_refl _ _,id,pruned_composes.refl _,rfl,rfl⟩
  have still := still_with_session inner false .merge (.inr on)
  refine ⟨still,pendingOnTop_still still ?_⟩
  have composes : Composes fun s s' : Node R O => s'.pending_session = s.pending_session :=
    ⟨fun _ => rfl,fun first second => second.trans first⟩
  refine keeps_session_of_ignores composes (fun _ _ _ => rfl) ?_ false .merge s
  refine keeps_bind composes (fun s => (quiet_apply_transaction E trx s).pending_session) fun _ => ?_
  exact keeps_modifyGet fun s => rfl

theorem shelves_push_again (trx : Transaction O) : Keeps Shelves (push_again E trx) := by
  refine keeps_catching shelves_composes ?_ fun _ => keeps_pure shelves_composes ()
  refine keeps_bind shelves_composes (keeps_get shelves_composes) fun s => ?_
  exact keeps_ite (shelves_push_transaction E trx) (keeps_pure shelves_composes ())

theorem shelves_restore_pending (pending : List (Transaction O)) : Keeps Shelves (restore_pending E pending) := by
  refine keeps_bind shelves_composes (keeps_get shelves_composes) fun s => ?_
  refine keeps_bind shelves_composes (keeps_each shelves_composes (shelves_push_again E) _) fun _ => ?_
  refine keeps_bind shelves_composes ?_ fun _ => keeps_each shelves_composes (shelves_push_again E) _
  refine keeps_modifyGet fun s on => ?_
  exact ⟨⟨.refl _,covers_refl _ _,id,pruned_composes.refl _,rfl,rfl⟩,id⟩

/-! ### Discarding the pending transactions -/

/-- The undo stack below the session of the pending transactions. -/
def committed_stack (s : Node R O) : List (Objects R O) :=
  match s.pending_session, s.undo.stack with
  | true, x :: rest => if rest.isEmpty then [x] else rest
  | _, stack => stack

/-- What a node is once its pending transactions are gone. -/
structure Cleared (digest : Header → Nat) (s s' : Node R O) : Prop where
  sound : Sound digest s → Sound digest s'
  head : PendingOnTop s → SameHead s'.objects s.objects
  stack : s'.undo.stack = committed_stack s
  enabled : s'.undo.disabled = s.undo.disabled
  fork_db : s'.fork_db = s.fork_db
  block_db : s'.block_db = s.block_db
  checkpoints : s'.checkpoints = s.checkpoints
  pending_session : s'.pending_session = false
  skip_flags : s'.skip_flags = s.skip_flags

omit E in
theorem reset_pending_session_cases (digest : Header → Nat) (s : Node R O) :
    (∃ e, (reset_pending_session : Exec R O Unit).run s = .error e s) ∨
      ∃ s', (reset_pending_session : Exec R O Unit).run s = .ok () s' ∧ Cleared digest s s' ∧
        s'.pending_tx = s.pending_tx := by
  cases opened : s.pending_session with
  | false =>
    refine .inr ⟨s,by simp [reset_pending_session,opened],⟨id,fun _ => .refl _,?_,rfl,rfl,rfl,rfl,opened,rfl⟩,rfl⟩
    simp [committed_stack,opened]
  | true =>
    rcases run_undo_session s with ⟨e,failed⟩ | ⟨x,rest,top,undone⟩
    · exact .inl ⟨e,by simp [reset_pending_session,opened,failed]⟩
    · have ran : (reset_pending_session : Exec R O Unit).run s = .ok () { s with
          objects := x
          undo := { s.undo with
            stack := if rest.isEmpty then [x] else rest
            active_sessions := s.undo.active_sessions - 1 }
          pending_session := false } := by
        simp only [reset_pending_session,opened,EStateM.run_bind,EStateM.run_get,if_true,undone]
        rfl
      refine .inr ⟨_,ran,⟨fun sound => ?_,fun pending => pending opened x (by rw [top]; rfl),?_,rfl,rfl,rfl,rfl,
        rfl,rfl⟩,rfl⟩
      · obtain ⟨chain,consistent⟩ := sound_undone (n := s.undo.active_sessions - 1) sound top
        exact ⟨chain,consistent⟩
      · simp [committed_stack,opened,top]

omit E in
/-- `clear_pending` discards the pending transactions and nothing else. -/
theorem clear_pending_cases (digest : Header → Nat) (s : Node R O) :
    (∃ e s', (clear_pending : Exec R O Unit).run s = .error e s' ∧ s' = { s with pending_tx := [] }) ∨
      ∃ s', (clear_pending : Exec R O Unit).run s = .ok () s' ∧ Cleared digest s s' := by
  have unfolds : (clear_pending : Exec R O Unit).run s =
      (reset_pending_session : Exec R O Unit).run { s with pending_tx := [] } := rfl
  rw [unfolds]
  rcases reset_pending_session_cases digest { s with pending_tx := [] } with ⟨e,failed⟩ | ⟨s',ran,cleared,_⟩
  · exact .inl ⟨e,_,failed,rfl⟩
  · refine .inr ⟨s',ran,⟨fun sound => cleared.sound ⟨sound.chain,sound.consistent⟩,fun pending => cleared.head pending,
      cleared.stack,cleared.enabled,cleared.fork_db,cleared.block_db,cleared.checkpoints,cleared.pending_session,
      cleared.skip_flags⟩⟩

/-! ### Popping -/

/-- The fork database after its head moved down to the item `prev` points to. -/
def HeadDown (held : List (Item O)) (F F' : Forks O) : Prop :=
  ∃ head prev, F.head = some head ∧ ForkDatabase.lock F held head = some prev ∧ F' = { F with head := some prev }

/-- The block database after the entry of the head block was given up. -/
def EntryDown (s : Node R O) (B' : BlockDatabase.Blocks O) : Prop :=
  ∃ id, (PendingOnTop s → id = s.objects.head_block_id) ∧ BlockDatabase.remove id s.block_db = .ok B'

/-- What `pop_block` does when it returns. -/
structure Popped (held : List (Item O)) (s s' : Node R O) : Prop where
  sound : Sound E.digest s → Sound E.digest s'
  objects : ∃ rest, committed_stack s = s'.objects :: rest ∧ s'.undo.stack = rest
  enabled : s'.undo.disabled = false
  fork_db : HeadDown held s.fork_db s'.fork_db
  block_db : EntryDown s s'.block_db
  checkpoints : s'.checkpoints = s.checkpoints
  pending_session : s'.pending_session = false
  skip_flags : s'.skip_flags = s.skip_flags

/-- How far `pop_block` may have come when it throws: the objects are as they were
    without pending transactions, and the block database changes after the fork
    database only. -/
structure PopFailed (held : List (Item O)) (s s' : Node R O) : Prop where
  sound : Sound E.digest s → Sound E.digest s'
  head : PendingOnTop s → SameHead s'.objects s.objects
  enabled : s'.undo.disabled = s.undo.disabled
  stores : s'.block_db = s.block_db ∧ (s'.fork_db = s.fork_db ∨ HeadDown held s.fork_db s'.fork_db) ∨
    HeadDown held s.fork_db s'.fork_db ∧ EntryDown s s'.block_db
  checkpoints : s'.checkpoints = s.checkpoints
  pending_session : s.pending_session = false → s'.pending_session = false
  skip_flags : s'.skip_flags = s.skip_flags

omit E in
private theorem onForks_pop_cases (held : List (Item O)) (s : Node R O) :
    (∃ e, (onForks (ForkDatabase.pop_block held) : Exec R O Unit).run s = .error e s) ∨
      ∃ F, (onForks (ForkDatabase.pop_block held) : Exec R O Unit).run s = .ok () { s with fork_db := F } ∧
        HeadDown held s.fork_db F := by
  cases top : s.fork_db.head with
  | none => exact .inl (by simp [onForks,ForkDatabase.pop_block,top])
  | some head =>
    cases below : ForkDatabase.lock s.fork_db held head with
    | none => exact .inl (by simp [onForks,ForkDatabase.pop_block,top,below])
    | some prev =>
      exact .inr ⟨{ s.fork_db with head := some prev },by simp [onForks,ForkDatabase.pop_block,top,below],
        head,prev,top,below,rfl⟩

omit E in
private theorem onBlocks_remove_cases (id : BlockId) (s : Node R O) :
    (∃ e, (onBlocks (BlockDatabase.remove id) : Exec R O Unit).run s = .error e s) ∨
      ∃ B, (onBlocks (BlockDatabase.remove id) : Exec R O Unit).run s = .ok () { s with block_db := B } ∧
        BlockDatabase.remove id s.block_db = .ok B := by
  cases removed : BlockDatabase.remove id s.block_db with
  | error e => exact .inl ⟨e,by simp [onBlocks,removed]⟩
  | ok B => exact .inr ⟨B,by simp [onBlocks,removed],rfl⟩

omit E in
theorem pop_undo_cases (s : Node R O) :
    (∃ e, (pop_undo : Exec R O Unit).run s = .error e s) ∨
      ∃ x rest, s.undo.stack = x :: rest ∧ (pop_undo : Exec R O Unit).run s =
        .ok () { s with objects := x, undo := { s.undo with stack := rest, disabled := false } } := by
  by_cases active : s.undo.active_sessions = 0
  · cases shape : s.undo.stack with
    | nil => exact .inl (by simp [pop_undo,Snapshots.pop_commit,active,shape])
    | cons x rest => exact .inr ⟨x,rest,rfl,by simp [pop_undo,Snapshots.pop_commit,active,shape]⟩
  · exact .inl (by simp [pop_undo,Snapshots.pop_commit,active])

theorem pop_block_cases (held : List (Item O)) (s : Node R O) :
    (∃ s', (pop_block E held).run s = .ok () s' ∧ Popped E held s s') ∨
      ∃ e s', (pop_block E held).run s = .error e s' ∧ PopFailed E held s s' := by
  rcases reset_pending_session_cases E.digest s with ⟨e,failed⟩ | ⟨s1,reset,cleared,_⟩
  · refine .inr ⟨e,s,by simp [pop_block,failed],id,fun _ => .refl _,rfl,.inl ⟨rfl,.inl rfl⟩,rfl,id,rfl⟩
  have sameId : PendingOnTop s → s1.objects.head_block_id = s.objects.head_block_id :=
    fun pending => (cleared.head pending).head_block_id
  cases known : fetch_block_by_id E s1.objects.head_block_id s1 with
  | none =>
    refine .inr ⟨.pop_empty_chain,s1,by simp [pop_block,reset,known],cleared.sound,cleared.head,cleared.enabled,
      .inl ⟨cleared.block_db,.inl cleared.fork_db⟩,cleared.checkpoints,fun _ => cleared.pending_session,cleared.skip_flags⟩
  | some head_block =>
    rcases onForks_pop_cases held s1 with ⟨e,failed⟩ | ⟨F,moved,down⟩
    · refine .inr ⟨e,s1,by simp [pop_block,reset,known,failed],cleared.sound,cleared.head,cleared.enabled,
        .inl ⟨cleared.block_db,.inl cleared.fork_db⟩,cleared.checkpoints,fun _ => cleared.pending_session,cleared.skip_flags⟩
    rw [cleared.fork_db] at down
    rcases onBlocks_remove_cases s1.objects.head_block_id { s1 with fork_db := F } with ⟨e,failed⟩ | ⟨B,removed,gone⟩
    · refine .inr ⟨e,{ s1 with fork_db := F },by simp [pop_block,reset,known,moved,failed],fun sound => ?_,cleared.head,
        cleared.enabled,.inl ⟨cleared.block_db,.inr down⟩,cleared.checkpoints,fun _ => cleared.pending_session,
        cleared.skip_flags⟩
      exact ⟨(cleared.sound sound).chain,(cleared.sound sound).consistent⟩
    have gone' : EntryDown s B := ⟨s1.objects.head_block_id,sameId,cleared.block_db ▸ gone⟩
    rcases pop_undo_cases { s1 with fork_db := F, block_db := B } with ⟨e,failed⟩ | ⟨x,rest,top,popped⟩
    · refine .inr ⟨e,{ s1 with fork_db := F, block_db := B },by simp [pop_block,reset,known,moved,removed,failed],
        fun sound => ?_,cleared.head,cleared.enabled,.inr ⟨down,gone'⟩,cleared.checkpoints,
        fun _ => cleared.pending_session,cleared.skip_flags⟩
      exact ⟨(cleared.sound sound).chain,(cleared.sound sound).consistent⟩
    · have top' : s1.undo.stack = x :: rest := top
      have ran : (pop_block E held).run s = .ok () { s1 with
          fork_db := F
          block_db := B
          objects := x
          undo := { s1.undo with stack := rest, disabled := false }
          popped_tx := head_block.transactions ++ s1.popped_tx } := by
        simp [pop_block,reset,known,moved,removed,popped]
      refine .inl ⟨_,ran,fun sound => ?_,⟨rest,?_,rfl⟩,rfl,down,gone',cleared.checkpoints,cleared.pending_session,
        cleared.skip_flags⟩
      · obtain ⟨chain,consistent⟩ := sound_popped (cleared.sound sound) top'
        exact ⟨chain,consistent⟩
      · rw [← cleared.stack,top']

/-! ### The three ways of a push -/

/-- Without the fork database a block is put on top of the chain. -/
theorem run_push_block_apart {s : Node R O} (b : Block O) (apart : s.skip_flags.fork_db = true) :
    (_push_block E b).run s = (do extend E b s.skip_flags; pure false : Exec R O Bool).run s := by
  simp [_push_block,apart]

/-- `_push_block` with the fork database in use. -/
theorem run_push_block {s : Node R O} (b : Block O) (uses : s.skip_flags.fork_db = false) :
    (_push_block E b).run s =
      match ForkDatabase.push_block E.digest b s.fork_db with
      | .error e => .error e s
      | .ok (new_head,F) =>
        if new_head.data.previous = s.objects.head_block_id then
          (do extend E b s.skip_flags; pure false : Exec R O Bool).run { s with fork_db := F }
        else if new_head.num > s.objects.head_block_number then
          (do switch_forks E s.skip_flags b new_head; pure true : Exec R O Bool).run { s with fork_db := F }
        else .ok false { s with fork_db := F } := by
  simp only [_push_block,push_fork,EStateM.run_bind,EStateM.run_get,uses,Bool.false_eq_true,if_false]
  cases pushed : ForkDatabase.push_block E.digest b s.fork_db with
  | error e => rfl
  | ok result =>
    obtain ⟨new_head,F⟩ := result
    simp only [EStateM.run_bind,EStateM.run_set,EStateM.run_pure]
    split
    · rfl
    · split
      · rfl
      · rfl

/-- A switch fails to find the branches, or pops down to where they meet. -/
theorem run_switch_forks (skip : Skip) (b : Block O) (new_head : Item O) (s : Node R O) :
    (∃ e, (switch_forks E skip b new_head).run s = .error e s) ∨
      ∃ first second front back, ForkDatabase.fetch_branch_from E.digest (new_head.data.id E.digest)
          s.objects.head_block_id s.fork_db = .ok (first,second) ∧ front ∈ second ∧ back ∈ second ∧
        (switch_forks E skip b new_head).run s = (do
          pop_to E (new_head :: first ++ second) back.data.previous
          take_branch E skip b (new_head :: first ++ second) first second back.data.previous front :
            Exec R O Unit).run s := by
  cases fetched : ForkDatabase.fetch_branch_from E.digest (new_head.data.id E.digest) s.objects.head_block_id
      s.fork_db with
  | error e => exact .inl ⟨e,by simp [switch_forks,fetched]⟩
  | ok branches =>
    obtain ⟨first,second⟩ := branches
    have some' := (ForkDatabase.fetch_branch_from_ok fetched).choose_spec.choose_spec.2.2.2.2
    obtain ⟨front,rest,rfl⟩ := List.exists_cons_of_ne_nil some'
    have last := List.getLast?_eq_some_getLast some'
    refine .inr ⟨first,front :: rest,front,(front :: rest).getLast some',rfl,List.mem_cons_self ..,
      List.getLast_mem some',?_⟩
    simp only [switch_forks,EStateM.run_bind,EStateM.run_get,fetched,List.head?_cons,last]

/-- A push between clearing the pending transactions and pushing them again. -/
theorem push_block_ok {b : Block O} {skip : Skip} {s s' : Node R O} {switched : Bool}
    (ran : (push_block E b skip).run s = .ok switched s') :
    ∃ s1 s2 s3, (clear_pending : Exec R O Unit).run { s with skip_flags := skip } = .ok () s1 ∧
      (_push_block E b).run s1 = .ok switched s2 ∧ (restore_pending E s.pending_tx).run s2 = .ok () s3 ∧
      s' = { s3 with skip_flags := s.skip_flags } := by
  unfold push_block at ran
  rw [run_with_skip_flags] at ran
  cases inner : (without_pending_transactions E (_push_block E b)).run { s with skip_flags := skip } with
  | error e s3 => simp [inner] at ran
  | ok a s3 =>
    rw [inner] at ran
    cases ran
    obtain ⟨_,_,got,rest⟩ := run_bind_ok.mp inner
    cases got
    obtain ⟨⟨⟩,s1,cleared,rest⟩ := run_bind_ok.mp rest
    obtain ⟨a',s2,pushed,rest⟩ := run_bind_ok.mp rest
    obtain ⟨⟨⟩,s3',restored,done⟩ := run_bind_ok.mp rest
    cases done
    refine ⟨s1,s2,s3,cleared,?_,restored,rfl⟩
    rw [run_tryCatch] at pushed
    cases body : (_push_block E b).run s1 with
    | ok a s2' =>
      rw [body] at pushed
      cases pushed
      rfl
    | error e s2' =>
      rw [body] at pushed
      obtain ⟨⟨⟩,_,_,thrown⟩ := run_bind_ok.mp pushed
      cases thrown

/-- Where a push ends, whether it returns or throws. -/
theorem push_block_ends (b : Block O) (skip : Skip) (s : Node R O) :
    endState ((push_block E b skip).run s) = { s with pending_tx := [] } ∨
      ∃ s1, (clear_pending : Exec R O Unit).run { s with skip_flags := skip } = .ok () s1 ∧
        endState ((push_block E b skip).run s) =
          { endState ((restore_pending E s.pending_tx).run (endState ((_push_block E b).run s1))) with
            skip_flags := s.skip_flags } := by
  have flags : endState ((push_block E b skip).run s) =
      { endState ((without_pending_transactions E (_push_block E b)).run { s with skip_flags := skip }) with
        skip_flags := s.skip_flags } := by
    rw [push_block,run_with_skip_flags]
    cases (without_pending_transactions E (_push_block E b)).run { s with skip_flags := skip } <;> rfl
  rw [flags]
  simp only [without_pending_transactions,EStateM.run_bind,EStateM.run_get]
  rcases clear_pending_cases E.digest { s with skip_flags := skip } with ⟨e,_,failed,rfl⟩ | ⟨s1,cleared,_⟩
  · rw [failed]
    exact .inl rfl
  · refine .inr ⟨s1,cleared,?_⟩
    simp only [cleared,run_tryCatch]
    cases (_push_block E b).run s1 with
    | ok a s2 =>
      simp only [endState_ok]
      cases (restore_pending E s.pending_tx).run s2 <;> rfl
    | error e s2 =>
      simp only [EStateM.run_bind,endState_error]
      cases (restore_pending E s.pending_tx).run s2 <;> rfl

end Decent.Database

import Decent.Atomicity

/-!
Properties of single states that hold of the objects and of every state the undo stack
can go back to. Code that goes back to such states keeps them; what is left to show for
a property is that applying a block does.
-/
namespace Decent.Database
open Decent.ObjectDatabase (Exc)
open Decent.Protocol
open Decent.ForkDatabase (Item)
open Throwing

variable {R O : Type}

/-- The objects, and every state the undo stack can go back to, have a property, which
    may ask what checkpoints the node has. -/
def Everywhere (Q : List (Nat × BlockId) → Objects R O → Prop) (s : Node R O) : Prop :=
  ∀ o ∈ s.objects :: s.undo.stack, Q s.checkpoints o

def Stays (Q : List (Nat × BlockId) → Objects R O → Prop) (s s' : Node R O) : Prop := Everywhere Q s → Everywhere Q s'

section
variable {Q : List (Nat × BlockId) → Objects R O → Prop}

theorem stays_composes : Composes (Stays Q) := ⟨fun _ => id,fun first second => second ∘ first⟩

theorem Everywhere.objects {s : Node R O} (everywhere : Everywhere Q s) : Q s.checkpoints s.objects :=
  everywhere s.objects (List.mem_cons_self ..)

theorem everywhere_of_mem {s s' : Node R O} (everywhere : Everywhere Q s) (same : s'.checkpoints = s.checkpoints)
    (inside : ∀ o ∈ s'.objects :: s'.undo.stack, o ∈ s.objects :: s.undo.stack) : Everywhere Q s' := by
  intro o member
  rw [same]
  exact everywhere o (inside o member)

theorem stays_objects {s : Node R O} {o : Objects R O} (step : Q s.checkpoints s.objects → Q s.checkpoints o) :
    Stays Q s { s with objects := o } := by
  intro everywhere x member
  rcases List.mem_cons.mp member with rfl | member
  · exact step everywhere.objects
  · exact everywhere x (List.mem_cons_of_mem _ member)

/-- What code carries through its sessions, it keeps everywhere. -/
theorem stays_of_carries {Rel : Objects R O → Objects R O → Prop} {s s' : Node R O} (carries : Carries Rel s s')
    (same : s'.checkpoints = s.checkpoints) (step : ∀ c o o', Rel o o' → Q c o → Q c o') : Stays Q s s' := by
  intro everywhere o member
  rw [same]
  rcases List.mem_cons.mp member with rfl | member
  · exact step _ _ _ carries.objects everywhere.objects
  rcases Snapshots.grown_mem carries.stack o member with near | old
  · exact step _ _ _ near everywhere.objects
  · exact everywhere o (List.mem_cons_of_mem _ old)

theorem stays_undo_session : Keeps (Stays Q) (undo_session : Exec R O Unit) := by
  intro s everywhere
  rcases run_undo_session s with ⟨e,failed⟩ | ⟨x,rest,top,undone⟩
  · rw [failed]; exact everywhere
  · rw [undone]
    refine everywhere_of_mem everywhere rfl fun o member => ?_
    rw [top]
    cases rest with
    | nil => simp only [endState_ok,List.isEmpty_nil,if_true,List.mem_cons] at member ⊢; tauto
    | cons y rest => exact List.mem_cons_of_mem _ member

theorem stays_insideSession (force : Bool) (s : Node R O) : Stays Q s (insideSession force s) := by
  intro everywhere
  refine everywhere_of_mem everywhere rfl fun o member => ?_
  unfold insideSession Snapshots.start at member
  split at member
  · exact member
  · rcases List.mem_cons.mp member with rfl | member
    · exact List.mem_cons_self ..
    rcases List.mem_cons.mp member with rfl | member
    · exact List.mem_cons_self ..
    · exact List.mem_cons_of_mem _ (List.mem_of_mem_take member)

private theorem stays_close_session (ending : Ending) (off : Bool) :
    Keeps (Stays Q) (close_session ending off : Exec R O Unit) := by
  intro s everywhere
  rcases run_close_session ending off s with ⟨e,failed⟩ | ⟨u,done,how⟩
  · rw [failed]; exact everywhere
  · rw [done]
    have inside : ∀ o ∈ u.stack, o ∈ s.undo.stack := by
      rcases how with merged | committed
      · unfold Snapshots.merge at merged
        split at merged
        · cases merged
        · split at merged
          · next shape => cases merged; rw [shape]; exact fun o member => List.mem_cons_of_mem _ member
          · cases merged
      · unfold Snapshots.commit at committed
        split at committed
        · cases committed
        · cases committed; exact fun o member => member
    refine everywhere_of_mem everywhere rfl fun o member => ?_
    rcases List.mem_cons.mp member with rfl | member
    · exact List.mem_cons_self ..
    · exact List.mem_cons_of_mem _ (inside o member)

/-- Sessions go back to states of the stack only. -/
theorem stays_with_session {body : Exec R O Unit} (inner : Keeps (Stays Q) body) (force : Bool) (ending : Ending) :
    Keeps (Stays Q) (with_session force ending body) := by
  have left : ∀ off (t : Node R O), Everywhere Q t → Everywhere Q (outside off t) := by
    intro off t inside
    cases off with
    | false => exact inside
    | true => exact inside
  intro s everywhere
  have ran := keeps_bind stays_composes inner (fun _ => stays_close_session ending (s.undo.disabled && force))
    (insideSession force s) (stays_insideSession force s everywhere)
  rw [run_with_session]
  generalize (body >>= fun _ => close_session ending (s.undo.disabled && force)).run _ = result at ran ⊢
  cases result with
  | ok a s' => exact left _ _ ran
  | error e s' =>
    have back := stays_undo_session s' ran
    simp only
    generalize (undo_session : Exec R O Unit).run s' = result at back ⊢
    cases result with
    | ok a s'' => exact left _ _ back
    | error e' s'' => exact back

theorem stays_reset_pending_session : Keeps (Stays Q) (reset_pending_session : Exec R O Unit) := by
  refine keeps_bind stays_composes (keeps_get stays_composes) fun s => ?_
  refine keeps_ite ?_ (keeps_pure stays_composes ())
  exact keeps_bind stays_composes stays_undo_session fun _ => keeps_modifyGet fun s everywhere => everywhere

theorem stays_start_pending_session : Keeps (Stays Q) (start_pending_session : Exec R O Unit) := by
  refine keeps_modifyGet fun s everywhere => ?_
  cases s.pending_session with
  | true => exact everywhere
  | false => exact stays_insideSession false s everywhere

variable (E : Env R O)

theorem stays_pop_block (held : List (Item O)) : Keeps (Stays Q) (pop_block E held) := by
  refine keeps_bind stays_composes stays_reset_pending_session fun _ => ?_
  refine keeps_bind stays_composes (keeps_get stays_composes) fun s => ?_
  dsimp only
  split
  · exact keeps_throw stays_composes _
  refine keeps_bind stays_composes (fun s everywhere => ?_) fun _ => ?_
  · simp only [onForks,EStateM.run_bind,EStateM.run_get]
    split <;> exact everywhere
  refine keeps_bind stays_composes (fun s everywhere => ?_) fun _ => ?_
  · simp only [onBlocks,EStateM.run_bind,EStateM.run_get]
    split <;> exact everywhere
  refine keeps_bind stays_composes (fun s everywhere => ?_) fun _ => keeps_modifyGet fun s everywhere => everywhere
  rcases pop_undo_cases s with ⟨e,failed⟩ | ⟨x,rest,top,popped⟩
  · rw [failed]; exact everywhere
  · rw [popped]
    exact everywhere_of_mem everywhere rfl fun o member => List.mem_cons_of_mem _ (by rw [top]; exact member)

/-! ### Pushing -/

section
variable {skip : Skip} (applied : ∀ b, Keeps (Stays Q) (apply_block E b skip))
include applied

theorem stays_apply_and_store (id : BlockId) (b : Block O) : Keeps (Stays Q) (apply_and_store E id b skip) := by
  refine stays_with_session ?_ false .commit
  exact keeps_bind stays_composes (applied b) fun _ => fun s everywhere => everywhere

theorem stays_push (b : Block O) {s : Node R O} (flags : s.skip_flags = skip) :
    Stays Q s (endState ((_push_block E b).run s)) := by
  subst flags
  exact keeps_push E stays_composes (fun _ _ everywhere => everywhere) (fun c d => stays_apply_and_store E applied _ d)
    (stays_with_session (keeps_pure stays_composes ()) false .merge) (stays_pop_block E)

end

/-! ### Pending transactions -/

theorem stays_with_skip_flags {α : Type} {flags : Skip} {body : Exec R O α} {s : Node R O}
    (inner : Stays Q { s with skip_flags := flags } (endState (body.run { s with skip_flags := flags }))) :
    Stays Q s (endState ((with_skip_flags flags body).run s)) := by
  rw [run_with_skip_flags]
  generalize body.run _ = result at inner ⊢
  cases result with
  | ok a s' => exact inner
  | error e s' => exact inner

section
variable (transacted : ∀ t, Keeps (Stays Q) (_apply_transaction E t))
include transacted

theorem stays_push_transaction (t : Transaction O) : Keeps (Stays Q) (_push_transaction E t) := by
  refine keeps_bind stays_composes stays_start_pending_session fun _ => stays_with_session ?_ false .merge
  exact keeps_bind stays_composes (transacted t) fun _ => keeps_modifyGet fun s everywhere => everywhere

theorem stays_restore_pending (pending : List (Transaction O)) : Keeps (Stays Q) (restore_pending E pending) := by
  have again : ∀ t, Keeps (Stays Q) (push_again E t) := by
    intro t
    refine keeps_catching stays_composes ?_ fun _ => keeps_pure stays_composes ()
    refine keeps_bind stays_composes (keeps_get stays_composes) fun s => ?_
    exact keeps_ite (stays_push_transaction E transacted t) (keeps_pure stays_composes ())
  refine keeps_bind stays_composes (keeps_get stays_composes) fun s => ?_
  refine keeps_bind stays_composes (keeps_each stays_composes again _) fun _ => ?_
  exact keeps_bind stays_composes (keeps_modifyGet fun s everywhere => everywhere) fun _ => keeps_each stays_composes again _

theorem stays_push_block {skip : Skip} (applied : ∀ b, Keeps (Stays Q) (apply_block E b skip)) (b : Block O) :
    Keeps (Stays Q) (push_block E b skip) := by
  intro s everywhere
  rcases push_block_ends E b skip s with same | ⟨s₁,ran,ends⟩
  · rw [same]
    exact everywhere
  have cleared : Everywhere Q s₁ := by
    have kept := stays_reset_pending_session { s with skip_flags := skip, pending_tx := [] } everywhere
    have unfolds : (clear_pending : Exec R O Unit).run { s with skip_flags := skip } =
        (reset_pending_session : Exec R O Unit).run { s with skip_flags := skip, pending_tx := [] } := rfl
    rw [← unfolds,ran] at kept
    exact kept
  have flags : s₁.skip_flags = skip := by
    rcases clear_pending_cases E.digest { s with skip_flags := skip } with ⟨e,_,failed,_⟩ | ⟨s₁',ok,gone⟩
    · rw [ran] at failed; cases failed
    · rw [ran] at ok; cases ok; exact gone.skip_flags
  rw [ends]
  exact stays_restore_pending E transacted s.pending_tx _ (stays_push E applied b flags cleared)

end

end

/-! ### Runs -/

/-- What a node is asked to do: to push a block with no check skipped, to push a
    transaction, or to pop a block. -/
inductive Request (O : Type)
  | push_block (b : Block O)
  | push_transaction (t : Transaction O) (skip : Skip)
  | pop_block

def request (E : Env R O) : Request O → Exec R O Unit
  | .push_block b => do let _ ← push_block E b .nothing
  | .push_transaction t skip => push_transaction E t skip
  | .pop_block => pop_block E []

/-- The nodes reached by requests, those that throw included. -/
inductive Served (E : Env R O) (start : Node R O) : Node R O → Prop
  | start : Served E start start
  | step {s : Node R O} (r : Request O) : Served E start s → Served E start (endState ((request E r).run s))

theorem Served.stays {E : Env R O} {Q : List (Nat × BlockId) → Objects R O → Prop} {start s : Node R O}
    (served : Served E start s) (applied : ∀ b, Keeps (Stays Q) (apply_block E b .nothing))
    (transacted : ∀ t, Keeps (Stays Q) (_apply_transaction E t)) : Stays Q start s := by
  induction served with
  | start => exact id
  | step r _ ih =>
    refine stays_composes.trans ih ?_
    cases r with
    | push_block b =>
      exact keeps_bind stays_composes (stays_push_block E transacted applied b) (fun _ => keeps_pure stays_composes _) _
    | push_transaction t skip => exact stays_with_skip_flags (stays_push_transaction E transacted t _)
    | pop_block => exact stays_pop_block E [] _

/-- No request changes the checkpoints. -/
theorem Served.checkpoints {E : Env R O} {start s : Node R O} (served : Served E start s) :
    s.checkpoints = start.checkpoints := by
  have applied : ∀ b, Keeps (Stays fun c _ => c = start.checkpoints) (apply_block E b .nothing) := by
    intro b s everywhere o member
    have same : (endState ((apply_block E b .nothing).run s)).checkpoints = s.checkpoints := by
      rcases apply_block_cases E b .nothing s with ⟨s',ran,_,_,before,after⟩ | ⟨e,s',ran,quiet | ⟨_,_,before,after⟩⟩
      · rw [ran]; exact after.checkpoints.trans before.checkpoints
      · rw [ran]; exact quiet.checkpoints
      · rw [ran]; exact after.checkpoints.trans before.checkpoints
    rw [same]
    exact everywhere.objects
  have transacted : ∀ t, Keeps (Stays fun c _ => c = start.checkpoints) (_apply_transaction E t) := by
    intro t s everywhere o member
    rw [(quiet_apply_transaction E t s).checkpoints]
    exact everywhere.objects
  exact (served.stays applied transacted fun _ _ => rfl).objects

end Decent.Database

import Decent.PushBlock

/-!
Rules for code that opens sessions. A session goes back to the state on top of the
undo stack, and a start may drop states at the other end, so what code inside sessions
keeps is a relation between the objects before it and every state it can go back to.
-/
namespace Decent.Database
open Decent.ObjectDatabase (Exc)
open Decent.Protocol
open Decent.ForkDatabase (Forks Item)
open Snapshots (Grown grown_refl grown_trans grown_push grown_inside)
open Throwing

variable {R O : Type}

/-! ### Parts of programs -/

section
variable {P : Node R O → Node R O → Prop}

theorem keeps_each {α : Type} (composes : Composes P) {f : α → Exec R O Unit} (step : ∀ a, Keeps P (f a))
    (l : List α) : Keeps P (each f l) := by
  induction l with
  | nil => exact keeps_pure composes ()
  | cons a rest ih => exact keeps_bind composes (step a) fun _ => ih

theorem keeps_fc_assert (composes : Composes P) (p : Prop) [Decidable p] (what : String) :
    Keeps P (fc_assert p what) :=
  keeps_ite (keeps_pure composes ()) (keeps_throw composes _)

theorem keeps_provided (composes : Composes P) (p : Prop) [Decidable p] {x : Exec R O Unit} (inner : Keeps P x) :
    Keeps P (provided p x) :=
  keeps_ite inner (keeps_pure composes ())

theorem keeps_check (composes : Composes P) (r : Except Exc Unit) : Keeps P (check r : Exec R O Unit) := by
  unfold check
  split
  · exact keeps_pure composes ()
  · exact keeps_throw composes _

theorem keeps_catching {α : Type} (composes : Composes P) {x : Exec R O α} {handler : Exc → Exec R O α}
    (first : Keeps P x) (handled : ∀ e, Keeps P (handler e)) : Keeps P (catching x handler) :=
  keeps_tryCatch composes first fun e => keeps_ite (handled e) (keeps_throw composes e)

theorem keeps_update {f : Objects R O → Objects R O}
    (step : ∀ s : Node R O, P s { s with objects := f s.objects }) : Keeps P (update f) := step

theorem keeps_onWorld {x : Context → EStateM Exc (World R) Unit}
    (step : ∀ (s : Node R O) w, P s { s with objects := { s.objects with world := w } }) :
    Keeps P (onWorld x : Exec R O Unit) := by
  intro s
  show P s (endState (onWorld x s))
  unfold onWorld
  split
  · exact step s _
  · exact step s _

/-- `update_last_irreversible_block` sets one number. -/
theorem keeps_update_last_irreversible_block (composes : Composes P)
    (step : ∀ (s : Node R O) num, P s { s with objects := { s.objects with last_irreversible_block_num := num } }) :
    Keeps P (update_last_irreversible_block : Exec R O Unit) := by
  refine keeps_bind composes (keeps_get composes) fun s => ?_
  refine keeps_ite (keeps_update fun s => step s _) ?_
  split
  · exact keeps_throw composes _
  split
  · exact keeps_throw composes _
  · exact keeps_provided composes _ (keeps_update fun s => step s _)

end

/-! ### Sessions -/

/-- The node inside a session that has just started. -/
def insideSession (force_enable : Bool) (s : Node R O) : Node R O :=
  { s with undo := Snapshots.start force_enable s.objects s.undo }

/-- The node a session's scope leaves behind. -/
def outside (disable_on_exit : Bool) (s : Node R O) : Node R O :=
  if disable_on_exit then { s with undo := Snapshots.disable s.undo } else s

/-- A session that an exception has ended is undone; an exception of the undo takes its place. -/
def undoing (e : Exc) (disable_on_exit : Bool) (s : Node R O) : EStateM.Result Exc (Node R O) Unit :=
  match (undo_session : Exec R O Unit).run s with
  | .ok _ s' => .error e (outside disable_on_exit s')
  | .error e' s' => .error e' s'

/-- A session step by step: its body, its end, and on an exception the undo. -/
theorem run_with_session (force : Bool) (ending : Ending) (body : Exec R O Unit) (s : Node R O) :
    (with_session force ending body).run s =
      match (body >>= fun _ => close_session ending (s.undo.disabled && force)).run (insideSession force s) with
      | .ok _ s' => .ok () (outside (s.undo.disabled && force) s')
      | .error e s' => match (undo_session : Exec R O Unit).run s' with
        | .ok _ s'' => .error e (outside (s.undo.disabled && force) s'')
        | .error e' s'' => .error e' s'' := by
  simp only [with_session,insideSession,EStateM.run_bind,EStateM.run_get,EStateM.run_set,run_tryCatch]
  generalize body.run _ = result
  cases result with
  | ok a s' =>
    simp only
    generalize (close_session ending (s.undo.disabled && force) : Exec R O Unit).run s' = closed
    cases closed with
    | ok a s' => rfl
    | error e s' =>
      simp only
      cases (undo_session : Exec R O Unit).run s' <;> rfl
  | error e s' =>
    simp only
    cases (undo_session : Exec R O Unit).run s' <;> rfl

/-- A session that returns has run its body and its end. -/
theorem with_session_ok {force : Bool} {ending : Ending} {body : Exec R O Unit} {s s' : Node R O}
    (ran : (with_session force ending body).run s = .ok () s') :
    ∃ m n, body.run (insideSession force s) = .ok () m ∧
      (close_session ending (s.undo.disabled && force)).run m = .ok () n ∧
      s' = outside (s.undo.disabled && force) n := by
  rw [run_with_session] at ran
  cases result : (body >>= fun _ => close_session ending (s.undo.disabled && force)).run (insideSession force s) with
  | ok a n =>
    rw [result] at ran
    obtain ⟨⟨⟩,m,inner,closed⟩ := run_bind_ok.mp result
    cases ran
    exact ⟨m,n,inner,closed,rfl⟩
  | error e n =>
    rw [result] at ran
    simp only at ran
    split at ran <;> cases ran

theorem close_commit_ok {off : Bool} {s s' : Node R O}
    (ran : (close_session .commit off : Exec R O Unit).run s = .ok () s') : s'.undo.stack = s.undo.stack := by
  simp only [close_session,EStateM.run_bind,EStateM.run_get,Snapshots.commit] at ran
  split at ran
  · next closed =>
    split at closed
    · cases closed
    · cases closed; cases ran; rfl
  · cases ran

theorem close_merge_ok {s s' : Node R O} (ran : (close_session .merge false : Exec R O Unit).run s = .ok () s') :
    ∃ x, s.undo.stack = x :: s'.undo.stack ∧ s'.undo.stack ≠ [] := by
  simp only [close_session,EStateM.run_bind,EStateM.run_get,Snapshots.merge] at ran
  split at ran
  · next closed =>
    split at closed
    · cases closed
    · split at closed
      · next shape => cases closed; cases ran; exact ⟨_,shape,by simp⟩
      · cases closed
  · cases ran

/-- What a session leaves alone: whatever does not depend on objects and undo stack. -/
theorem keeps_session_of_ignores {P : Node R O → Node R O → Prop} (composes : Composes P)
    (ignores : ∀ (s : Node R O) o u, P s { s with objects := o, undo := u }) {b : Exec R O Unit}
    (inner : Keeps P b) (force : Bool) (ending : Ending) : Keeps P (with_session force ending b) := by
  have undone : Keeps P (undo_session : Exec R O Unit) := by
    refine fun s => ?_
    simp only [undo_session,EStateM.run_bind,EStateM.run_get]
    split
    · exact ignores s _ _
    · exact composes.refl s
  have closed : ∀ off, Keeps P (close_session ending off : Exec R O Unit) := by
    refine fun off s => ?_
    simp only [close_session,EStateM.run_bind,EStateM.run_get]
    split
    · exact ignores s s.objects _
    · exact composes.refl s
  have left : ∀ off (s : Node R O), P s (outside off s) := by
    intro off s
    unfold outside
    split
    · exact ignores s s.objects _
    · exact composes.refl s
  intro s
  have entered : P s (insideSession force s) := ignores s s.objects _
  have ran := keeps_bind composes inner (fun _ => closed (s.undo.disabled && force)) (insideSession force s)
  rw [run_with_session]
  generalize (b >>= fun _ => close_session ending (s.undo.disabled && force)).run _ = result at ran ⊢
  cases result with
  | ok a s' => exact composes.trans entered (composes.trans ran (left _ _))
  | error e s' =>
    have back := undone s'
    simp only
    generalize (undo_session : Exec R O Unit).run s' = result at back ⊢
    cases result with
    | ok a s'' => exact composes.trans entered (composes.trans ran (composes.trans back (left _ _)))
    | error e' s'' => exact composes.trans entered (composes.trans ran back)

/-- Closing a session either leaves everything as it is or ends it on the stack. -/
theorem run_close_session (ending : Ending) (off : Bool) (s : Node R O) :
    (∃ e, (close_session ending off : Exec R O Unit).run s = .error e s) ∨
      ∃ u, (close_session ending off : Exec R O Unit).run s = .ok () { s with undo := u } ∧
        (Snapshots.merge s.undo = some u ∨ Snapshots.commit s.undo = some u) := by
  simp only [close_session,EStateM.run_bind,EStateM.run_get]
  split
  case h_1 u closed =>
    refine .inr ⟨u,rfl,?_⟩
    split at closed
    · exact .inl closed
    · exact .inr closed
  case h_2 => exact .inl ⟨_,rfl⟩

/-- Undoing a session fails without a trace, or goes back to the top of the stack. -/
theorem run_undo_session (s : Node R O) :
    (∃ e, (undo_session : Exec R O Unit).run s = .error e s) ∨
      ∃ x rest, s.undo.stack = x :: rest ∧ (undo_session : Exec R O Unit).run s = .ok () { s with
        objects := x
        undo := { s.undo with
          stack := if rest.isEmpty then [x] else rest
          active_sessions := s.undo.active_sessions - 1 } } := by
  by_cases refused : s.undo.disabled = true ∨ s.undo.active_sessions = 0
  · exact .inl (by simp [undo_session,Snapshots.undo,refused])
  · cases shape : s.undo.stack with
    | nil => exact .inl (by simp [undo_session,Snapshots.undo,refused,shape])
    | cons x rest => exact .inr ⟨x,rest,rfl,by simp [undo_session,Snapshots.undo,refused,shape]⟩

/-! ### What sessions carry through -/

/-- The objects, and every state that was put on the undo stack, are ones a relation
    allows after the objects at the start. -/
structure Carries (Rel : Objects R O → Objects R O → Prop) (s s' : Node R O) : Prop where
  objects : Rel s.objects s'.objects
  stack : Grown Rel s.objects s.undo.stack s'.undo.stack
  enabled : s.undo.disabled = false → s'.undo.disabled = false

section
variable {Rel : Objects R O → Objects R O → Prop} (composes : Composes Rel)
include composes

theorem carries_composes : Composes (Carries Rel) where
  refl s := ⟨composes.refl _,grown_refl _ _,id⟩
  trans := by
    intro a b c first second
    exact ⟨composes.trans first.objects second.objects,grown_trans composes first.objects first.stack second.stack,
      second.enabled ∘ first.enabled⟩

omit composes in
theorem carries_objects {s : Node R O} {o : Objects R O} (after : Rel s.objects o) :
    Carries Rel s { s with objects := o } := ⟨after,grown_refl _ _,id⟩

/-- What a session's body left, as far as the way out of the session is concerned. -/
structure LeftInside (Rel : Objects R O → Objects R O → Prop) (s s' : Node R O) : Prop where
  objects : Rel s.objects s'.objects
  stack : s'.undo.stack = [] ∨ ∃ x rest, s'.undo.stack = x :: rest ∧ Rel s.objects x ∧
    Grown Rel s.objects s.undo.stack rest
  enabled : s'.undo.disabled = false

omit composes in
theorem started_inside {s : Node R O} {force : Bool} (opens : force = true ∨ s.undo.disabled = false) :
    (insideSession force s).undo.stack = s.objects :: s.undo.stack.take s.undo.max_size ∧
      (insideSession force s).undo.disabled = false := by
  rcases opens with rfl | on
  · simp [insideSession,Snapshots.start]
  · cases force <;> simp [insideSession,Snapshots.start,on]

private theorem leftInside_of_carries {s s' : Node R O} {force : Bool} (opens : force = true ∨ s.undo.disabled = false)
    (carries : Carries Rel (insideSession force s) s') : LeftInside Rel s s' := by
  have grown := carries.stack
  rw [(started_inside opens).1] at grown
  exact ⟨carries.objects,grown_inside composes grown,carries.enabled (started_inside opens).2⟩

omit composes in
private theorem carries_leftInside {s s' : Node R O} (inside : LeftInside Rel s s') : Carries Rel s s' := by
  refine ⟨inside.objects,?_,fun _ => inside.enabled⟩
  rcases inside.stack with empty | ⟨x,rest,shape,after,above,n,grown,near⟩
  · exact ⟨[],0,by simp [empty],by simp⟩
  · refine ⟨x :: above,n,by rw [shape,grown]; rfl,fun y member => ?_⟩
    rcases List.mem_cons.mp member with rfl | member
    · exact after
    · exact near y member

omit composes in
private theorem carries_outside {s s' : Node R O} {off : Bool} (on : s.undo.disabled = false → off = false)
    (carries : Carries Rel s s') : Carries Rel s (outside off s') := by
  cases off with
  | false => exact carries
  | true => exact ⟨carries.objects,carries.stack,fun enabled => by cases on enabled⟩

omit composes in
/-- Undoing what a session's body did goes back to a state the relation allows. -/
private theorem carries_undo {s s' : Node R O} (inside : LeftInside Rel s s') :
    Carries Rel s (endState ((undo_session : Exec R O Unit).run s')) := by
  rcases run_undo_session s' with ⟨e,failed⟩ | ⟨x,rest,top,undone⟩
  · rw [failed]
    exact carries_leftInside inside
  · rw [undone]
    rcases inside.stack with empty | ⟨y,older,shape,after,grown⟩
    · rw [empty] at top; cases top
    rw [shape] at top
    cases top
    refine ⟨after,?_,fun _ => inside.enabled⟩
    show Grown Rel s.objects s.undo.stack (if rest.isEmpty = true then [x] else rest)
    split
    · exact ⟨[x],0,by simp,by simpa using after⟩
    · exact grown

omit composes in
private theorem carries_close {s s' : Node R O} (inside : LeftInside Rel s s') {u : Snapshots.History (Objects R O)}
    (closed : Snapshots.merge s'.undo = some u ∨ Snapshots.commit s'.undo = some u) :
    Carries Rel s { s' with undo := u } := by
  rcases closed with merged | committed
  · unfold Snapshots.merge at merged
    split at merged
    · cases merged
    rcases inside.stack with empty | ⟨x,rest,shape,after,grown⟩
    · rw [empty] at merged; cases merged
    rw [shape] at merged
    cases rest with
    | nil => cases merged
    | cons y older =>
      cases merged
      exact ⟨inside.objects,grown,fun _ => inside.enabled⟩
  · unfold Snapshots.commit at committed
    split at committed
    · cases committed
    cases committed
    have carries := carries_leftInside inside
    exact ⟨carries.objects,carries.stack,carries.enabled⟩

theorem carries_with_session {body : Exec R O Unit} (inner : Keeps (Carries Rel) body) (force : Bool) (ending : Ending)
    {s : Node R O} (opens : force = true ∨ s.undo.disabled = false) :
    Carries Rel s (endState ((with_session force ending body).run s)) := by
  have on : s.undo.disabled = false → (s.undo.disabled && force) = false := by
    intro enabled; rw [enabled]; rfl
  have ran := inner (insideSession force s)
  rw [run_with_session,EStateM.run_bind]
  generalize body.run _ = result at ran ⊢
  have back : ∀ (e : Exc) (s' : Node R O), LeftInside Rel s s' → Carries Rel s (endState (match (undo_session : Exec R O Unit).run s' with
      | .ok _ s'' => EStateM.Result.error e (outside (s.undo.disabled && force) s'')
      | .error e' s'' => .error e' s'' : EStateM.Result Exc (Node R O) Unit)) := by
    intro e s' inside
    have undone := carries_undo inside
    generalize (undo_session : Exec R O Unit).run s' = result at undone ⊢
    cases result with
    | ok a s'' => exact carries_outside on undone
    | error e' s'' => exact undone
  cases result with
  | error e s' => exact back e s' (leftInside_of_carries composes opens ran)
  | ok a s' =>
    have inside := leftInside_of_carries composes opens ran
    simp only
    rcases run_close_session ending (s.undo.disabled && force) s' with ⟨e,failed⟩ | ⟨u,done,closed⟩
    · rw [failed]
      exact back e s' inside
    · rw [done]
      exact carries_outside on (carries_close inside closed)

end

/-! ### Operations and transactions -/

/-- A relation that operations keep: it composes, it allows any change to the tables of
    the evaluators and to the proposals, and sessions keep it when their body does. -/
structure Neutral (P : Node R O → Node R O → Prop) : Prop extends Composes P where
  touch : ∀ (s : Node R O) w ps n,
    P s { s with objects := { s.objects with world := w, proposals := ps, next_proposal := n } }
  session : ∀ {body : Exec R O Unit}, Keeps P body → Keeps P (with_session true .merge body)

theorem neutral_carries {Rel : Objects R O → Objects R O → Prop} (composes : Composes Rel)
    (touch : ∀ o w ps n, Rel o { o with world := w, proposals := ps, next_proposal := n }) : Neutral (Carries Rel) where
  toComposes := carries_composes composes
  touch s w ps n := carries_objects (touch s.objects w ps n)
  session inner _ := carries_with_session composes inner true .merge (.inl rfl)

section
variable {P : Node R O → Node R O → Prop} (composes : Composes P) (E : Env R O)
include composes

theorem keeps_find_proposal (id : Nat) : Keeps P (find_proposal id : Exec R O (Proposal O)) := by
  refine keeps_bind composes (keeps_get composes) fun s => ?_
  split
  · exact keeps_pure composes _
  · exact keeps_throw composes _

theorem keeps_check_reference (proof : CustodyProof) : Keeps P (check_reference proof : Exec R O Unit) := by
  refine keeps_bind composes ?_ fun bid => ?_
  · refine keeps_bind composes (keeps_get composes) fun s => ?_
    split
    · exact keeps_pure composes _
    · exact keeps_throw composes _
  refine keeps_bind composes (keeps_fc_assert composes _ _) fun _ => ?_
  refine keeps_bind composes (keeps_get composes) fun s => ?_
  exact keeps_fc_assert composes _ _

theorem keeps_evaluate_proof_of_custody (URI : String) (proof : Option CustodyProof) :
    Keeps P (evaluate_proof_of_custody E URI proof) := by
  refine keeps_bind composes (keeps_get composes) fun s => ?_
  split
  · exact keeps_throw composes _
  refine keeps_bind composes (keeps_fc_assert composes _ _) fun _ => ?_
  refine keeps_bind composes ?_ fun _ => ?_
  · cases proof with
    | none => exact keeps_pure composes ()
    | some proof => exact keeps_check_reference composes proof
  · unfold verify_custody
    split
    · exact keeps_fc_assert composes _ _
    · exact keeps_pure composes ()
    · exact keeps_throw composes _

theorem keeps_evaluate_proposal_create (expiration : Nat) (review : Option Nat) (ops : List (Operation O)) :
    Keeps P (evaluate_proposal_create E expiration review ops) := by
  refine keeps_bind composes (keeps_get composes) fun s => ?_
  refine keeps_bind composes (keeps_fc_assert composes _ _) fun _ => ?_
  refine keeps_bind composes (keeps_fc_assert composes _ _) fun _ => ?_
  refine keeps_bind composes (keeps_fc_assert composes _ _) fun _ => ?_
  refine keeps_bind composes (keeps_fc_assert composes _ _) fun _ => ?_
  refine keeps_bind composes (keeps_provided composes _ ?_) fun _ => keeps_check composes _
  cases review with
  | none => exact keeps_throw composes _
  | some period => exact keeps_fc_assert composes _ _

theorem keeps_do_evaluate (op : Operation O) : Keeps P (do_evaluate E op) := by
  cases op with
  | proof_of_custody seeder URI proof => exact keeps_evaluate_proof_of_custody composes E URI proof
  | proposal_create expiration review ops => exact keeps_evaluate_proposal_create composes E expiration review ops
  | proposal_update id activeAdd activeRemove ownerAdd ownerRemove keyAdd keyRemove =>
    refine keeps_bind composes (keeps_find_proposal composes id) fun p => ?_
    refine keeps_bind composes (keeps_get composes) fun s => ?_
    refine keeps_bind composes (keeps_fc_assert composes _ _) fun _ => ?_
    exact keeps_fc_assert composes _ _
  | proposal_delete payer owner id =>
    refine keeps_bind composes (keeps_find_proposal composes id) fun p => ?_
    exact keeps_fc_assert composes _ _
  | other op => exact keeps_pure composes ()

theorem keeps_check_transaction (trx : Transaction O) : Keeps P (check_transaction E trx) := by
  refine keeps_bind composes (keeps_get composes) fun s => ?_
  refine keeps_bind composes (keeps_check composes _) fun _ => ?_
  refine keeps_bind composes (keeps_fc_assert composes _ _) fun _ => ?_
  refine keeps_bind composes (keeps_provided composes _ (keeps_check composes _)) fun _ => ?_
  refine keeps_provided composes _ ?_
  refine keeps_bind composes (keeps_get composes) fun s => ?_
  refine keeps_bind composes (keeps_fc_assert composes _ _) fun _ => ?_
  refine keeps_bind composes (keeps_fc_assert composes _ _) fun _ => ?_
  exact keeps_fc_assert composes _ _

end

/-- The code around changes the tables of the evaluators only as the relation allows. -/
structure Minds (W : World R → World R → Prop) (E : Env R O) : Prop extends Composes W where
  pay_fee : ∀ ctx op, Keeps W (E.pay_fee ctx op)
  do_apply : ∀ skip ctx op, Keeps W (E.do_apply skip ctx op)
  charge_fee : ∀ ctx op, Keeps W (E.charge_fee ctx op)
  update_slots : ∀ ctx timestamp miner, Keeps W (E.update_slots ctx timestamp miner)
  pay_miner : ∀ ctx timestamp miner, Keeps W (E.pay_miner ctx timestamp miner)
  perform_chain_maintenance : ∀ ctx, Keeps W (E.perform_chain_maintenance ctx)
  finish_block : ∀ ctx maint_needed, Keeps W (E.finish_block ctx maint_needed)

/-- `Neutral`, of the changes to the tables that a relation allows. -/
structure NeutralUnder (W : World R → World R → Prop) (P : Node R O → Node R O → Prop) : Prop extends Composes P where
  touch : ∀ (s : Node R O) w ps n, W s.objects.world w →
    P s { s with objects := { s.objects with world := w, proposals := ps, next_proposal := n } }
  session : ∀ {body : Exec R O Unit}, Keeps P body → Keeps P (with_session true .merge body)

theorem neutralUnder_carries {W : World R → World R → Prop} {Rel : Objects R O → Objects R O → Prop}
    (composes : Composes Rel)
    (touch : ∀ o w ps n, W o.world w → Rel o { o with world := w, proposals := ps, next_proposal := n }) :
    NeutralUnder W (Carries Rel) where
  toComposes := carries_composes composes
  touch s w ps n allowed := carries_objects (touch s.objects w ps n allowed)
  session inner _ := carries_with_session composes inner true .merge (.inl rfl)

section
variable {W : World R → World R → Prop} {P : Node R O → Node R O → Prop} (neutral : NeutralUnder W P) (E : Env R O)
include neutral

theorem under_onWorld {x : Context → EStateM Exc (World R) Unit} (minded : ∀ ctx, Keeps W (x ctx)) :
    Keeps P (onWorld x : Exec R O Unit) := by
  intro s
  have allowed := minded ⟨s.objects.head_block_number,s.objects.time⟩ s.objects.world
  show P s (endState (onWorld x s))
  unfold onWorld
  split
  next ran =>
    rw [ran] at allowed
    exact neutral.touch s _ s.objects.proposals s.objects.next_proposal allowed
  next ran =>
    rw [ran] at allowed
    exact neutral.touch s _ s.objects.proposals s.objects.next_proposal allowed

variable (minds : Minds W E)
include minds

theorem under_proposals (f : Objects R O → List (Proposal O)) (n : Objects R O → Nat) :
    Keeps P (update fun o => { o with proposals := f o, next_proposal := n o }) :=
  keeps_update fun s => neutral.touch s s.objects.world _ _ (minds.toComposes.refl _)

theorem under_push_proposal {apply : Operation O → Exec R O Unit} (inner : ∀ op, Keeps P (apply op))
    (p : Proposal O) : Keeps P (push_proposal apply p) := by
  refine neutral.session ?_
  refine keeps_bind neutral.toComposes (keeps_each neutral.toComposes inner _) fun _ => ?_
  refine keeps_bind neutral.toComposes (keeps_find_proposal neutral.toComposes _) fun _ => ?_
  exact under_proposals neutral E minds _ fun o => o.next_proposal

theorem under_do_apply {apply : Operation O → Exec R O Unit} (inner : ∀ op, Keeps P (apply op))
    (skip : EvaluationSkip) (op : Operation O) : Keeps P (do_apply E apply skip op) := by
  cases op with
  | proof_of_custody seeder URI proof =>
    unfold do_apply
    exact under_onWorld neutral fun ctx => minds.do_apply skip ctx _
  | proposal_create expiration review ops =>
    unfold do_apply apply_proposal_create
    exact under_proposals neutral E minds _ _
  | proposal_update id activeAdd activeRemove ownerAdd ownerRemove keyAdd keyRemove =>
    refine keeps_bind neutral.toComposes (under_proposals neutral E minds _ fun o => o.next_proposal) fun _ => ?_
    refine keeps_bind neutral.toComposes (keeps_find_proposal neutral.toComposes id) fun p => ?_
    refine keeps_bind neutral.toComposes (keeps_get neutral.toComposes) fun s => ?_
    refine keeps_provided neutral.toComposes _ ?_
    exact keeps_catching neutral.toComposes (under_push_proposal neutral E minds inner p)
      fun _ => keeps_pure neutral.toComposes ()
  | proposal_delete payer owner id =>
    unfold do_apply remove_proposal
    exact under_proposals neutral E minds _ fun o => o.next_proposal
  | other op =>
    unfold do_apply
    exact under_onWorld neutral fun ctx => minds.do_apply skip ctx _

theorem under_apply_operation (depth : Nat) (op : Operation O) : Keeps P (apply_operation E depth op) := by
  induction depth generalizing op with
  | zero => exact keeps_throw neutral.toComposes _
  | succ depth ih =>
    refine keeps_bind neutral.toComposes (keeps_get neutral.toComposes) fun s => ?_
    refine keeps_bind neutral.toComposes (keeps_check neutral.toComposes _) fun _ => ?_
    refine keeps_bind neutral.toComposes (keeps_do_evaluate neutral.toComposes E op) fun _ => ?_
    refine keeps_bind neutral.toComposes (under_onWorld neutral fun ctx => minds.pay_fee ctx op) fun _ => ?_
    refine keeps_bind neutral.toComposes (under_do_apply neutral E minds ih _ op) fun _ => ?_
    exact under_onWorld neutral fun ctx => minds.charge_fee ctx op

/-- A transaction besides enters itself into the index. -/
theorem under_apply_transaction (trx : Transaction O) (created : Keeps P (create_transaction E trx)) :
    Keeps P (_apply_transaction E trx) := by
  refine keeps_bind neutral.toComposes (keeps_get neutral.toComposes) fun s => ?_
  refine keeps_bind neutral.toComposes (keeps_check_transaction neutral.toComposes E trx) fun _ => ?_
  refine keeps_bind neutral.toComposes (keeps_provided neutral.toComposes _ created) fun _ => ?_
  refine keeps_bind neutral.toComposes
    (keeps_each neutral.toComposes (under_apply_operation neutral E minds E.depth) _) fun _ => ?_
  refine keeps_bind neutral.toComposes (keeps_get neutral.toComposes) fun s => ?_
  exact keeps_fc_assert neutral.toComposes _ _

theorem under_expire_proposal (p : Proposal O) : Keeps P (expire_proposal E p) := by
  have removed : Keeps P (remove_proposal p.id : Exec R O Unit) :=
    under_proposals neutral E minds _ fun o => o.next_proposal
  refine keeps_bind neutral.toComposes (keeps_get neutral.toComposes) fun s => ?_
  refine keeps_ite ?_ removed
  exact keeps_catching neutral.toComposes
    (under_push_proposal neutral E minds (under_apply_operation neutral E minds E.depth) p) fun _ => removed

theorem under_clear_expired_proposals (n : Nat) : Keeps P (clear_expired_proposals E n) := by
  induction n with
  | zero => exact keeps_pure neutral.toComposes ()
  | succ n ih =>
    refine keeps_bind neutral.toComposes (keeps_get neutral.toComposes) fun s => ?_
    dsimp only
    split
    · exact keeps_pure neutral.toComposes ()
    · refine keeps_provided neutral.toComposes _ ?_
      exact keeps_bind neutral.toComposes (under_expire_proposal neutral E minds _) fun _ => ih

end

/-! ### Any change to the tables -/

/-- Every environment changes the tables in some way. -/
theorem minds_anything (E : Env R O) : Minds (fun _ _ => True) E where
  refl _ := trivial
  trans _ _ := trivial
  pay_fee _ _ _ := trivial
  do_apply _ _ _ _ := trivial
  charge_fee _ _ _ := trivial
  update_slots _ _ _ _ := trivial
  pay_miner _ _ _ _ := trivial
  perform_chain_maintenance _ _ := trivial
  finish_block _ _ _ := trivial

section
variable {P : Node R O → Node R O → Prop} (neutral : Neutral P) (E : Env R O)

theorem Neutral.under (neutral : Neutral P) : NeutralUnder (fun _ _ => True) P where
  toComposes := neutral.toComposes
  touch s w ps n _ := neutral.touch s w ps n
  session := neutral.session

include neutral

theorem neutral_onWorld (x : Context → EStateM Exc (World R) Unit) : Keeps P (onWorld x : Exec R O Unit) :=
  under_onWorld neutral.under fun _ _ => trivial

theorem neutral_apply_operation (depth : Nat) (op : Operation O) : Keeps P (apply_operation E depth op) :=
  under_apply_operation neutral.under E (minds_anything E) depth op

theorem neutral_apply_transaction (trx : Transaction O) (created : Keeps P (create_transaction E trx)) :
    Keeps P (_apply_transaction E trx) :=
  under_apply_transaction neutral.under E (minds_anything E) trx created

theorem neutral_clear_expired_proposals (n : Nat) : Keeps P (clear_expired_proposals E n) :=
  under_clear_expired_proposals neutral.under E (minds_anything E) n

end

end Decent.Database

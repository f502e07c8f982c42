import Decent.Sound

/-!
Two nodes side by side. What operations and transactions do depends on the objects up
to signatures and ids of the head, and on the block database through the reference
blocks of custody proofs only. Nodes that are alike in this respect run a block alike.
-/
namespace Decent.Database
open Decent.ObjectDatabase (Exc)
open Decent.Protocol
open Decent.BlockDatabase (fetch_block_id)
open Snapshots (Paired)
open Throwing

variable {R O : Type}

/-- Every custody proof of an operation, and of the operations it proposes, refers to a
    number of a set. -/
inductive RefersWithin (P : Nat → Prop) : Operation O → Prop
  | proof_of_custody {seeder URI} {proof : Option CustodyProof} :
      (∀ p ∈ proof, P p.reference_block) → RefersWithin P (.proof_of_custody seeder URI proof)
  | proposal_create {expiration review} {ops : List (Operation O)} :
      (∀ op ∈ ops, RefersWithin P op) → RefersWithin P (.proposal_create expiration review ops)
  | proposal_update {id a b c d e f} : RefersWithin P (.proposal_update id a b c d e f)
  | proposal_delete {payer owner id} : RefersWithin P (.proposal_delete payer owner id)
  | other {op} : RefersWithin P (.other op)

theorem refersWithin_all : ∀ op : Operation O, RefersWithin (fun _ => True) op
  | .proof_of_custody .. => .proof_of_custody fun _ _ => trivial
  | .proposal_create _ _ ops => .proposal_create fun op _ => refersWithin_all op
  | .proposal_update .. => .proposal_update
  | .proposal_delete .. => .proposal_delete
  | .other _ => .other

/-- Entries of the transaction table that differ in signatures at most. -/
structure SameEntry (a b : TransactionObject O) : Prop where
  id : a.id = b.id
  trx_id : a.trx_id = b.trx_id
  expiration : a.trx.expiration = b.trx.expiration

/-- Objects that operations and blocks cannot tell apart. Before the block summary is
    written, `early`, the summaries are the same too. -/
structure Resembles (P : Nat → Prop) (early : Prop) (o o' : Objects R O) : Prop where
  head_block_number : o.head_block_number = o'.head_block_number
  time : o.time = o'.time
  last_irreversible_block_num : o.last_irreversible_block_num = o'.last_irreversible_block_num
  world : o.world = o'.world
  proposals : o.proposals = o'.proposals
  next_proposal : o.next_proposal = o'.next_proposal
  transactions : List.Forall₂ SameEntry o.transactions o'.transactions
  next_transaction : o.next_transaction = o'.next_transaction
  block_summary : early → o.block_summary = o'.block_summary
  within : ∀ p ∈ o.proposals, ∀ op ∈ p.proposed_ops, RefersWithin P op

/-- Nodes that run operations alike, with the given flags and `depth` sessions open. -/
structure Twin (P : Nat → Prop) (early : Prop) (flags : Skip) (depth : Nat) (s t : Node R O) : Prop where
  objects : Resembles P early s.objects t.objects
  left_flags : s.skip_flags = flags
  right_flags : t.skip_flags = flags
  lookups : ∀ n, P n → fetch_block_id n s.block_db = fetch_block_id n t.block_db
  undo : Paired (Resembles P early) depth s.undo t.undo

section
variable {P : Nat → Prop} {early : Prop} {flags : Skip} {depth : Nat}

theorem Twin.same_flags {s t : Node R O} (twin : Twin P early flags depth s t) : s.skip_flags = t.skip_flags :=
  twin.left_flags.trans twin.right_flags.symm

theorem resembles_world {o o' : Objects R O} (same : Resembles P early o o') (w : World R) :
    Resembles P early { o with world := w } { o' with world := w } :=
  ⟨same.head_block_number,same.time,same.last_irreversible_block_num,rfl,same.proposals,same.next_proposal,
    same.transactions,same.next_transaction,same.block_summary,same.within⟩

theorem resembles_proposals {o o' : Objects R O} (same : Resembles P early o o') (ps : List (Proposal O)) (n : Nat)
    (inside : ∀ p ∈ ps, ∀ op ∈ p.proposed_ops, RefersWithin P op) :
    Resembles P early { o with proposals := ps, next_proposal := n }
      { o' with proposals := ps, next_proposal := n } :=
  ⟨same.head_block_number,same.time,same.last_irreversible_block_num,same.world,rfl,rfl,same.transactions,
    same.next_transaction,same.block_summary,inside⟩

theorem twin_objects {s t : Node R O} (twin : Twin P early flags depth s t) {o o' : Objects R O}
    (same : Resembles P early o o') : Twin P early flags depth { s with objects := o } { t with objects := o' } :=
  ⟨same,twin.left_flags,twin.right_flags,twin.lookups,twin.undo⟩

/-! ### Pieces of code -/

theorem alike_fc_assert_iff {Rel : Node R O → Node R O → Prop} {p q : Prop} [Decidable p] [Decidable q]
    (same : p ↔ q) (what : String) : Alike Rel (fc_assert p what) (fc_assert q what) := by
  by_cases holds : p
  · simp only [fc_assert,holds,same.mp holds,if_true]
    exact alike_pure ()
  · have fails : ¬ q := fun right => holds (same.mpr right)
    simp only [fc_assert,holds,fails,if_false]
    exact alike_throw _

theorem alike_fc_assert {Rel : Node R O → Node R O → Prop} (p : Prop) [Decidable p] (what : String) :
    Alike Rel (fc_assert p what) (fc_assert p what) :=
  alike_fc_assert_iff Iff.rfl what

theorem alike_provided {Rel : Node R O → Node R O → Prop} (p : Prop) [Decidable p] {x y : Exec R O Unit}
    (inner : Alike Rel x y) : Alike Rel (provided p x) (provided p y) :=
  alike_ite inner (alike_pure ())

theorem alike_check {Rel : Node R O → Node R O → Prop} (r : Except Exc Unit) : Alike Rel (check r) (check r) := by
  unfold check
  split
  · exact alike_pure ()
  · exact alike_throw _

theorem alike_catching {α : Type} {Rel : Node R O → Node R O → Prop} {x y : Exec R O α} {f g : Exc → Exec R O α}
    (first : Alike Rel x y) (handled : ∀ e, Alike Rel (f e) (g e)) : Alike Rel (catching x f) (catching y g) :=
  alike_tryCatch first fun e => alike_ite (handled e) (alike_throw e)

theorem alike_each {α : Type} {Rel : Node R O → Node R O → Prop} {f g : α → Exec R O Unit} {l : List α}
    (step : ∀ a ∈ l, Alike Rel (f a) (g a)) : Alike Rel (each f l) (each g l) := by
  induction l with
  | nil => exact alike_pure ()
  | cons a rest ih =>
    exact alike_bind (step a (List.mem_cons_self ..)) fun _ => ih fun b member => step b (List.mem_cons_of_mem _ member)

theorem alike_update {f g : Objects R O → Objects R O}
    (step : ∀ o o', Resembles P early o o' → Resembles P early (f o) (g o')) :
    Alike (Twin P early flags depth) (update f) (update g) :=
  alike_modifyGet fun _ _ twin => ⟨rfl,twin_objects twin (step _ _ twin.objects)⟩

theorem alike_onWorld (x : Context → EStateM Exc (World R) Unit) :
    Alike (Twin P early flags depth) (onWorld x : Exec R O Unit) (onWorld x) := by
  intro s t twin
  show Matches _ (onWorld x s) (onWorld x t)
  unfold onWorld
  rw [twin.objects.head_block_number,twin.objects.time,twin.objects.world]
  split
  · exact ⟨rfl,twin_objects twin (resembles_world twin.objects _)⟩
  · exact ⟨rfl,twin_objects twin (resembles_world twin.objects _)⟩

/-- A proposal that is found is one of those whose proofs are looked after. -/
theorem alike_find_proposal {α : Type} (id : Nat) {f g : Proposal O → Exec R O α}
    (rest : ∀ p, (∀ op ∈ p.proposed_ops, RefersWithin P op) → Alike (Twin P early flags depth) (f p) (g p)) :
    Alike (Twin P early flags depth) (find_proposal id >>= f) (find_proposal id >>= g) := by
  intro s t twin
  simp only [find_proposal,EStateM.run_bind,EStateM.run_get]
  rw [← twin.objects.proposals]
  cases found : s.objects.proposals.find? (fun p => p.id = id) with
  | none => exact ⟨rfl,twin⟩
  | some p => exact rest p (twin.objects.within p (List.mem_of_find?_eq_some found)) s t twin

theorem alike_remove_proposal (id : Nat) :
    Alike (Twin P early flags depth) (remove_proposal id : Exec R O Unit) (remove_proposal id) := by
  refine alike_update fun o o' same => ?_
  have shown := resembles_proposals same (o.proposals.filter fun p => p.id ≠ id) o.next_proposal
    fun p member => same.within p (List.mem_of_mem_filter member)
  rw [same.proposals,same.next_proposal] at shown
  rw [same.proposals]
  exact ⟨shown.head_block_number,shown.time,shown.last_irreversible_block_num,shown.world,rfl,same.next_proposal,
    shown.transactions,shown.next_transaction,shown.block_summary,shown.within⟩

/-! ### Sessions -/

theorem matches_undo_session {s t : Node R O} (twin : Twin P early flags (depth + 1) s t) :
    Matches (Twin P early flags depth) ((undo_session : Exec R O Unit).run s) ((undo_session : Exec R O Unit).run t) := by
  simp only [undo_session,EStateM.run_bind,EStateM.run_get]
  rcases Snapshots.paired_undo twin.undo with ⟨left,right⟩ | ⟨a,b,u,v,left,right,same,paired⟩
  · rw [left,right]
    exact ⟨rfl,twin.objects,twin.left_flags,twin.right_flags,twin.lookups,Snapshots.paired_shallower twin.undo⟩
  · rw [left,right]
    exact ⟨rfl,same,twin.left_flags,twin.right_flags,twin.lookups,paired⟩

/-- The end of a session by what it makes of the history. -/
def close_with (f : Snapshots.History (Objects R O) → Option (Snapshots.History (Objects R O))) : Exec R O Unit := do
  let s ← get
  match f s.undo with
  | some u => set { s with undo := u }
  | none => throw (.assert_exception "_active_sessions > 0")

theorem run_close_with_none {f : Snapshots.History (Objects R O) → Option (Snapshots.History (Objects R O))} {s : Node R O}
    (none : f s.undo = none) : (close_with f).run s = .error (.assert_exception "_active_sessions > 0") s := by
  simp only [close_with,EStateM.run_bind,EStateM.run_get,none]
  rfl

theorem run_close_with_some {f : Snapshots.History (Objects R O) → Option (Snapshots.History (Objects R O))} {s : Node R O}
    {u : Snapshots.History (Objects R O)} (some : f s.undo = some u) : (close_with f).run s = .ok () { s with undo := u } := by
  simp only [close_with,EStateM.run_bind,EStateM.run_get,some]
  rfl

/-- Closing a session fails alike without a trace, or succeeds alike. -/
private theorem matches_close_session (ending : Ending) (off : Bool) {s t : Node R O}
    (twin : Twin P early flags (depth + 1) s t) :
    (∃ e, (close_session ending off : Exec R O Unit).run s = .error e s ∧
      (close_session ending off : Exec R O Unit).run t = .error e t) ∨
      ∃ s' t', (close_session ending off : Exec R O Unit).run s = .ok () s' ∧
        (close_session ending off : Exec R O Unit).run t = .ok () t' ∧ Twin P early flags depth s' t' := by
  have either : ∀ (f : Snapshots.History (Objects R O) → Option (Snapshots.History (Objects R O))),
      (f s.undo = none ∧ f t.undo = none ∨ ∃ u v, f s.undo = some u ∧ f t.undo = some v ∧
        Paired (Resembles P early) depth u v) →
      (∃ e, (close_with f : Exec R O Unit).run s = .error e s ∧ (close_with f : Exec R O Unit).run t = .error e t) ∨
      ∃ s' t', (close_with f : Exec R O Unit).run s = .ok () s' ∧ (close_with f : Exec R O Unit).run t = .ok () t' ∧
        Twin P early flags depth s' t' := by
    rintro f (⟨left,right⟩ | ⟨u,v,left,right,paired⟩)
    · exact .inl ⟨_,run_close_with_none left,run_close_with_none right⟩
    · exact .inr ⟨_,_,run_close_with_some left,run_close_with_some right,twin.objects,twin.left_flags,twin.right_flags,
        twin.lookups,paired⟩
  have commits := Snapshots.paired_commit (Snapshots.paired_shallower twin.undo)
  cases ending with
  | commit => exact either Snapshots.commit commits
  | merge =>
    cases off with
    | false => exact either Snapshots.merge (Snapshots.paired_merge twin.undo)
    | true => exact either Snapshots.commit commits

private theorem twin_outside (off : Bool) {s t : Node R O} (twin : Twin P early flags depth s t) :
    Twin P early flags depth (outside off s) (outside off t) := by
  cases off with
  | false => exact twin
  | true => exact ⟨twin.objects,twin.left_flags,twin.right_flags,twin.lookups,Snapshots.paired_disable twin.undo⟩

theorem alike_with_session {x y : Exec R O Unit} (inner : Alike (Twin P early flags (depth + 1)) x y) (ending : Ending) :
    Alike (Twin P early flags depth) (with_session true ending x) (with_session true ending y) := by
  intro s t twin
  have entered : Twin P early flags (depth + 1) (insideSession true s) (insideSession true t) :=
    ⟨twin.objects,twin.left_flags,twin.right_flags,twin.lookups,Snapshots.paired_start twin.objects (.inl rfl) twin.undo⟩
  have off : (s.undo.disabled && true) = (t.undo.disabled && true) := by rw [twin.undo.disabled]
  rw [run_with_session,run_with_session,EStateM.run_bind,EStateM.run_bind,off]
  -- After an exception, in the body or at its end, both sessions are undone.
  have back : ∀ (e : Exc) (s' t' : Node R O), Twin P early flags (depth + 1) s' t' →
      Matches (Twin P early flags depth) (undoing e (t.undo.disabled && true) s')
        (undoing e (t.undo.disabled && true) t') := by
    intro e s' t' both
    unfold undoing
    rcases matches_cases (matches_undo_session both) with ⟨_,s'',t'',left,right,later⟩ | ⟨f,s'',t'',left,right,later⟩
    · rw [left,right]
      exact ⟨rfl,twin_outside _ later⟩
    · rw [left,right]
      exact ⟨rfl,later⟩
  rcases matches_cases (inner _ _ entered) with ⟨_,s',t',left,right,both⟩ | ⟨e,s',t',left,right,both⟩
  · rw [left,right]
    simp only
    rcases matches_close_session ending (t.undo.disabled && true) both with
      ⟨e,failed,failed'⟩ | ⟨s'',t'',done,done',later⟩
    · rw [failed,failed']
      exact back e s' t' both
    · rw [done,done']
      exact ⟨rfl,twin_outside _ later⟩
  · rw [left,right]
    exact back e s' t' both

/-! ### Operations -/

variable (E : Env R O)

theorem alike_check_reference {proof : CustodyProof} (inside : P proof.reference_block) :
    Alike (Twin P early flags depth) (check_reference proof : Exec R O Unit) (check_reference proof) := by
  refine alike_bind (fun s t twin => ?_) fun bid => alike_bind (alike_fc_assert _ _) fun _ => ?_
  · simp only [get_block_id_for_num,EStateM.run_bind,EStateM.run_get]
    rw [twin.lookups _ inside]
    split
    · exact ⟨rfl,twin⟩
    · exact ⟨rfl,twin⟩
  · refine alike_get fun s t twin => ?_
    rw [twin.objects.head_block_number]
    exact alike_fc_assert _ _

theorem alike_evaluate_proof_of_custody (URI : String) {proof : Option CustodyProof}
    (inside : ∀ p ∈ proof, P p.reference_block) :
    Alike (Twin P early flags depth) (evaluate_proof_of_custody E URI proof) (evaluate_proof_of_custody E URI proof) := by
  refine alike_get fun s t twin => ?_
  rw [twin.objects.world,twin.objects.time,twin.same_flags]
  split
  · exact alike_throw _
  refine alike_bind (alike_fc_assert _ _) fun _ => alike_bind ?_ fun _ => ?_
  · cases proof with
    | none => exact alike_pure ()
    | some proof => exact alike_check_reference (inside proof rfl)
  · unfold verify_custody
    split
    · exact alike_fc_assert _ _
    · exact alike_pure ()
    · exact alike_throw _

theorem alike_evaluate_proposal_create (expiration : Nat) (review : Option Nat) (ops : List (Operation O)) :
    Alike (Twin P early flags depth) (evaluate_proposal_create E expiration review ops)
      (evaluate_proposal_create E expiration review ops) := by
  refine alike_get fun s t twin => ?_
  dsimp only
  rw [twin.objects.world,twin.objects.time]
  refine alike_bind (alike_fc_assert _ _) fun _ => alike_bind (alike_fc_assert _ _) fun _ => ?_
  refine alike_bind (alike_fc_assert _ _) fun _ => alike_bind (alike_fc_assert _ _) fun _ => ?_
  refine alike_bind (alike_provided _ ?_) fun _ => alike_check _
  cases review with
  | none => exact alike_throw _
  | some period => exact alike_fc_assert _ _

theorem alike_do_evaluate {op : Operation O} (inside : RefersWithin P op) :
    Alike (Twin P early flags depth) (do_evaluate E op) (do_evaluate E op) := by
  cases inside with
  | proof_of_custody proofs => exact alike_evaluate_proof_of_custody E _ proofs
  | proposal_create => exact alike_evaluate_proposal_create E _ _ _
  | proposal_update =>
    refine alike_find_proposal _ fun p _ => alike_get fun s t twin => ?_
    rw [twin.objects.time]
    exact alike_bind (alike_fc_assert _ _) fun _ => alike_fc_assert _ _
  | proposal_delete => exact alike_find_proposal _ fun p _ => alike_fc_assert _ _
  | other => exact alike_pure ()

theorem alike_apply_proposal_create (expiration : Nat) (review : Option Nat) {ops : List (Operation O)}
    (inside : ∀ op ∈ ops, RefersWithin P op) :
    Alike (Twin P early flags depth) (apply_proposal_create E expiration review ops)
      (apply_proposal_create E expiration review ops) := by
  unfold apply_proposal_create
  refine alike_update fun o o' same => ?_
  rw [← same.proposals,← same.next_proposal]
  refine resembles_proposals same _ _ fun p member => ?_
  rcases List.mem_append.mp member with old | new
  · exact same.within p old
  · obtain rfl := List.mem_singleton.mp new
    exact inside

theorem alike_approve (id : Nat) (a b c d e f : Finset Nat) :
    Alike (Twin P early flags depth) (approve id a b c d e f : Exec R O Unit) (approve id a b c d e f) := by
  refine alike_update fun o o' same => ?_
  rw [← same.proposals]
  have shown := resembles_proposals same (o.proposals.map fun p =>
    if p.id = id then { p with
      available_active_approvals := (p.available_active_approvals ∪ a) \ b
      available_owner_approvals := (p.available_owner_approvals ∪ c) \ d
      available_key_approvals := (p.available_key_approvals ∪ e) \ f }
    else p) o.next_proposal ?_
  · exact ⟨shown.head_block_number,shown.time,shown.last_irreversible_block_num,shown.world,rfl,same.next_proposal,
      shown.transactions,shown.next_transaction,shown.block_summary,shown.within⟩
  · intro p member
    obtain ⟨q,inside,rfl⟩ := List.mem_map.mp member
    split
    · exact same.within q inside
    · exact same.within q inside

theorem alike_push_proposal {apply : Operation O → Exec R O Unit} {p : Proposal O}
    (inner : ∀ op ∈ p.proposed_ops, Alike (Twin P early flags (depth + 1)) (apply op) (apply op)) :
    Alike (Twin P early flags depth) (push_proposal apply p) (push_proposal apply p) := by
  refine alike_with_session ?_ .merge
  exact alike_bind (alike_each inner) fun _ => alike_find_proposal _ fun _ _ => alike_remove_proposal _

theorem alike_do_apply {apply : Operation O → Exec R O Unit}
    (inner : ∀ op, RefersWithin P op → Alike (Twin P early flags (depth + 1)) (apply op) (apply op)) (skip : EvaluationSkip)
    {op : Operation O} (inside : RefersWithin P op) :
    Alike (Twin P early flags depth) (do_apply E apply skip op) (do_apply E apply skip op) := by
  cases inside with
  | proof_of_custody => unfold do_apply; exact alike_onWorld _
  | proposal_create ops => exact alike_apply_proposal_create E _ _ ops
  | proposal_update =>
    refine alike_bind (alike_approve _ _ _ _ _ _ _) fun _ => alike_find_proposal _ fun p within => ?_
    refine alike_get fun s t twin => ?_
    dsimp only
    rw [twin.objects.world]
    refine alike_provided _ (alike_catching (alike_push_proposal fun op member => ?_) fun _ => alike_pure ())
    exact inner op (within op member)
  | proposal_delete => exact alike_remove_proposal _
  | other => unfold do_apply; exact alike_onWorld _

theorem alike_apply_operation (fuel : Nat) {op : Operation O} (inside : RefersWithin P op) :
    Alike (Twin P early flags depth) (apply_operation E fuel op) (apply_operation E fuel op) := by
  induction fuel generalizing op depth with
  | zero => exact alike_throw _
  | succ fuel ih =>
    refine alike_get fun s t twin => ?_
    rw [twin.same_flags,twin.objects.head_block_number,twin.objects.time,twin.objects.world]
    refine alike_bind (alike_check _) fun _ => alike_bind (alike_do_evaluate E inside) fun _ => ?_
    refine alike_bind (alike_onWorld _) fun _ => alike_bind ?_ fun _ => alike_onWorld _
    exact alike_do_apply E (fun op within => ih within) _ inside

/-! ### Transactions and blocks -/

/-- Transactions that differ in signatures at most. -/
def Resigned (trx trx' : Transaction O) : Prop := trx.toTransactionBody = trx'.toTransactionBody

theorem known_resembles {o o' : Objects R O} (same : Resembles P early o o') (id : Nat) :
    is_known_transaction id o = is_known_transaction id o' := by
  have listed : ∀ {l l' : List (TransactionObject O)}, List.Forall₂ SameEntry l l' →
      (l.any fun t => t.trx_id = id) = l'.any fun t => t.trx_id = id := by
    intro l l' related
    induction related with
    | nil => rfl
    | cons one _ ih => rw [List.any_cons,List.any_cons,one.trx_id,ih]
  exact listed same.transactions

theorem alike_create_transaction {trx trx' : Transaction O} (body : Resigned trx trx') :
    Alike (Twin P early flags depth) (create_transaction E trx) (create_transaction E trx') := by
  refine alike_update fun o o' same => ?_
  refine ⟨same.head_block_number,same.time,same.last_irreversible_block_num,same.world,same.proposals,
    same.next_proposal,?_,by rw [same.next_transaction],same.block_summary,same.within⟩
  refine List.rel_append same.transactions (.cons ⟨same.next_transaction,?_,?_⟩ .nil)
  · exact congrArg E.trx_hash body
  · exact congrArg TransactionBody.expiration body

theorem alike_check_time {trx trx' : Transaction O} (body : Resigned trx trx') :
    Alike (Twin P True flags depth) (check_time E trx) (check_time E trx') := by
  refine alike_get fun s t twin => ?_
  dsimp only
  rw [twin.same_flags,twin.objects.block_summary trivial,twin.objects.time,twin.objects.world,body]
  exact alike_bind (alike_fc_assert _ _) fun _ => alike_bind (alike_fc_assert _ _) fun _ => alike_fc_assert _ _

theorem alike_check_transaction {trx trx' : Transaction O} (body : Resigned trx trx')
    (unsigned : flags.transaction_signatures = true) :
    Alike (Twin P True flags depth) (check_transaction E trx) (check_transaction E trx') := by
  refine alike_get fun s t twin => ?_
  dsimp only
  have hashes : trx_id E trx = trx_id E trx' := congrArg E.trx_hash body
  rw [twin.left_flags,twin.right_flags,known_resembles twin.objects,twin.objects.head_block_number,hashes,body]
  refine alike_bind (alike_check _) fun _ => alike_bind (alike_fc_assert _ _) fun _ => alike_bind ?_ fun _ => ?_
  · have skipped : ∀ x : Exec R O Unit,
        provided (¬ (flags.transaction_signatures = true ∨ flags.authority_check = true)) x = pure () :=
      fun x => if_neg (by simp [unsigned])
    rw [skipped,skipped]
    exact alike_pure ()
  · exact alike_provided _ (alike_check_time E body)

/-- Setting flags for a while. -/
theorem alike_with_skip_flags {α : Type} {x y : Exec R O α} (inner : Skip)
    (core : Alike (Twin P early inner depth) x y) :
    Alike (Twin P early flags depth) (with_skip_flags inner x) (with_skip_flags inner y) := by
  intro s t twin
  have ran := core { s with skip_flags := inner } { t with skip_flags := inner }
    ⟨twin.objects,rfl,rfl,twin.lookups,twin.undo⟩
  rw [run_with_skip_flags,run_with_skip_flags]
  rcases matches_cases ran with ⟨a,s',t',left,right,later⟩ | ⟨e,s',t',left,right,later⟩
  · rw [left,right]
    exact ⟨rfl,later.objects,twin.left_flags,twin.right_flags,later.lookups,later.undo⟩
  · rw [left,right]
    exact ⟨rfl,later.objects,twin.left_flags,twin.right_flags,later.lookups,later.undo⟩

/-- Where signatures are not looked at, transactions run alike whatever theirs are. -/
theorem alike_apply_transaction {trx trx' : Transaction O} (body : Resigned trx trx')
    (inside : ∀ op ∈ trx.operations, RefersWithin P op) {inner : Skip} (unsigned : inner.transaction_signatures = true) :
    Alike (Twin P True flags depth) (apply_transaction E trx inner) (apply_transaction E trx' inner) := by
  refine alike_with_skip_flags inner (alike_get fun s t twin => ?_)
  have operations : trx.operations = trx'.operations := congrArg TransactionBody.operations body
  rw [twin.left_flags,twin.right_flags,← operations]
  refine alike_bind (alike_check_transaction E body unsigned) fun _ => ?_
  refine alike_bind (alike_provided _ (alike_create_transaction E body)) fun _ => ?_
  refine alike_bind (alike_each fun op member => alike_apply_operation E E.depth (inside op member)) fun _ => ?_
  refine alike_get fun s t twin => ?_
  rw [twin.objects.world]
  exact alike_fc_assert _ _

/-- The latest of two tables that differ in signatures at most. -/
private theorem maxOn?_sameEntry {l l' : List (TransactionObject O)} (related : List.Forall₂ SameEntry l l') :
    l.maxOn? (fun t => t.trx.expiration) = none ∧ l'.maxOn? (fun t => t.trx.expiration) = none ∨
      ∃ a b, l.maxOn? (fun t => t.trx.expiration) = some a ∧ l'.maxOn? (fun t => t.trx.expiration) = some b ∧
        SameEntry a b := by
  induction related with
  | nil => exact .inl ⟨rfl,rfl⟩
  | @cons x y _ _ one _ ih =>
    refine .inr ?_
    rw [List.maxOn?_cons,List.maxOn?_cons]
    rcases ih with ⟨left,right⟩ | ⟨a,b,left,right,same⟩
    · rw [left,right]
      exact ⟨x,y,rfl,rfl,one⟩
    · rw [left,right]
      refine ⟨_,_,rfl,rfl,?_⟩
      simp only [Option.elim_some,maxOn_eq_if,one.expiration,same.expiration]
      split
      · exact one
      · exact same

private theorem clear_expired_sameEntry (now n : Nat) {l l' : List (TransactionObject O)}
    (related : List.Forall₂ SameEntry l l') : List.Forall₂ SameEntry (clear_expired now n l) (clear_expired now n l') := by
  induction n generalizing l l' with
  | zero => exact related
  | succ n ih =>
    unfold clear_expired
    rcases maxOn?_sameEntry related with ⟨left,right⟩ | ⟨a,b,left,right,same⟩
    · rw [left,right]
      exact related
    · rw [left,right]
      simp only [same.expiration]
      split
      · refine ih ?_
        have kept : ∀ {l l' : List (TransactionObject O)}, List.Forall₂ SameEntry l l' →
            List.Forall₂ SameEntry (l.filter fun t => t.id ≠ a.id) (l'.filter fun t => t.id ≠ b.id) := by
          intro l l' related
          refine List.rel_filter (R := SameEntry) ?_ related
          intro x y one
          show decide (x.id ≠ a.id) = true ↔ decide (y.id ≠ b.id) = true
          rw [one.id,same.id]
        exact kept related
      · exact related

theorem alike_clear_expired_transactions :
    Alike (Twin P early flags depth) (clear_expired_transactions : Exec R O Unit) clear_expired_transactions := by
  refine alike_update fun o o' same => ?_
  have lengths := same.transactions.length_eq
  rw [same.time,lengths]
  exact ⟨same.head_block_number,rfl,same.last_irreversible_block_num,same.world,same.proposals,
    same.next_proposal,clear_expired_sameEntry _ _ same.transactions,same.next_transaction,same.block_summary,
    same.within⟩

theorem alike_expire_proposal {p : Proposal O} (inside : ∀ op ∈ p.proposed_ops, RefersWithin P op) :
    Alike (Twin P early flags depth) (expire_proposal E p) (expire_proposal E p) := by
  refine alike_get fun s t twin => ?_
  rw [twin.objects.world]
  refine alike_ite (alike_catching ?_ fun _ => alike_remove_proposal _) (alike_remove_proposal _)
  exact alike_push_proposal fun op member => alike_apply_operation E E.depth (inside op member)

theorem alike_clear_expired_proposals (n : Nat) :
    Alike (Twin P early flags depth) (clear_expired_proposals E n) (clear_expired_proposals E n) := by
  induction n with
  | zero => exact alike_pure ()
  | succ n ih =>
    refine alike_get fun s t twin => ?_
    dsimp only
    rw [← twin.objects.proposals,twin.objects.time]
    cases first : first_to_expire s.objects.proposals with
    | none => exact alike_pure ()
    | some p =>
      have member : p ∈ s.objects.proposals := List.minOn?_mem first
      refine alike_provided _ (alike_bind ?_ fun _ => ih)
      exact alike_expire_proposal E (twin.objects.within p member)

/-- Blocks that differ in signatures at most, and in what is computed from them. -/
structure SameBlock (b b' : Block O) : Prop where
  previous : b.previous = b'.previous
  timestamp : b.timestamp = b'.timestamp
  miner : b.miner = b'.miner
  transactions : List.Forall₂ Resigned b.transactions b'.transactions

theorem SameBlock.block_num {b b' : Block O} (same : SameBlock b b') : b.block_num = b'.block_num :=
  congrArg (fun id => id.num + 1) same.previous

theorem alike_update_global_dynamic_data {b b' : Block O} (same : SameBlock b b') :
    Alike (Twin P early flags depth) (update_global_dynamic_data E b) (update_global_dynamic_data E b') := by
  unfold update_global_dynamic_data
  rw [same.timestamp,same.miner]
  refine alike_bind (alike_onWorld _) fun _ => alike_bind ?_ fun _ => alike_get fun s t twin => ?_
  · refine alike_update fun o o' near => ?_
    exact ⟨same.block_num,same.timestamp,near.last_irreversible_block_num,near.world,near.proposals,near.next_proposal,
      near.transactions,near.next_transaction,near.block_summary,near.within⟩
  · have windows : window s.objects = window t.objects := by
      unfold window
      rw [twin.objects.head_block_number,twin.objects.last_irreversible_block_num]
    rw [twin.same_flags,windows]
    refine alike_bind (alike_provided _ (alike_throw _)) fun _ => alike_modifyGet fun s t twin => ⟨rfl,?_⟩
    have windows : window s.objects = window t.objects := by
      unfold window
      rw [twin.objects.head_block_number,twin.objects.last_irreversible_block_num]
    rw [windows]
    exact ⟨twin.objects,twin.left_flags,twin.right_flags,twin.lookups,Snapshots.paired_set_max_size _ twin.undo⟩

theorem alike_update_signing_miner {b b' : Block O} (same : SameBlock b b') :
    Alike (Twin P early flags depth) (update_signing_miner E b) (update_signing_miner E b') := by
  unfold update_signing_miner
  rw [same.timestamp,same.miner,same.block_num]
  refine alike_bind (alike_onWorld _) fun _ => alike_update fun o o' near => ?_
  rw [near.world]
  exact resembles_world near _

theorem alike_update_last_irreversible_block :
    Alike (Twin P early flags depth) (update_last_irreversible_block : Exec R O Unit)
      update_last_irreversible_block := by
  have set : ∀ f g : Objects R O → Nat, (∀ o o', Resembles P early o o' → f o = g o') →
      Alike (Twin P early flags depth) (update fun o => { o with last_irreversible_block_num := f o })
        (update fun o => { o with last_irreversible_block_num := g o }) := by
    intro f g agree
    refine alike_update fun o o' near => ?_
    exact ⟨near.head_block_number,near.time,agree o o' near,near.world,near.proposals,near.next_proposal,
      near.transactions,near.next_transaction,near.block_summary,near.within⟩
  refine alike_get fun s t twin => ?_
  rw [twin.same_flags,twin.objects.world,twin.objects.last_irreversible_block_num]
  refine alike_ite ?_ ?_
  · exact set (fun o => o.head_block_number) (fun o => o.head_block_number) fun o o' near => near.head_block_number
  · split
    · exact alike_throw _
    split
    · exact alike_throw _
    · next new_last _ => exact alike_provided _ (set (fun _ => new_last) (fun _ => new_last) fun _ _ _ => rfl)

/-- Nothing after the transactions reads the block summary. -/
theorem alike_finish_block {b b' : Block O} (same : SameBlock b b') (maint_needed : Bool) :
    Alike (Twin P False flags depth) (finish_block E b maint_needed) (finish_block E b' maint_needed) := by
  refine alike_bind (alike_update_global_dynamic_data E same) fun _ => ?_
  refine alike_bind (alike_update_signing_miner E same) fun _ => ?_
  refine alike_bind alike_update_last_irreversible_block fun _ => ?_
  refine alike_bind (alike_provided _ (alike_onWorld _)) fun _ => ?_
  refine alike_bind (alike_update fun o o' near => ?_) fun _ => ?_
  · exact ⟨near.head_block_number,near.time,near.last_irreversible_block_num,near.world,near.proposals,
      near.next_proposal,near.transactions,near.next_transaction,False.elim,near.within⟩
  refine alike_bind alike_clear_expired_transactions fun _ => alike_get fun s t twin => ?_
  rw [twin.objects.proposals]
  exact alike_bind (alike_clear_expired_proposals E _) fun _ => alike_onWorld _

theorem twin_late {s t : Node R O} (twin : Twin P True flags depth s t) : Twin P False flags depth s t := by
  have late : ∀ o o' : Objects R O, Resembles P True o o' → Resembles P False o o' := fun o o' near =>
    ⟨near.head_block_number,near.time,near.last_irreversible_block_num,near.world,near.proposals,near.next_proposal,
      near.transactions,near.next_transaction,False.elim,near.within⟩
  exact ⟨late _ _ twin.objects,twin.left_flags,twin.right_flags,twin.lookups,Snapshots.paired_mono late twin.undo⟩

/-- What is checked of the headers of two blocks, with the given flags, comes out the
    same. -/
structure SameChecks (flags : Skip) (s : Node R O) (b b' : Block O) : Prop where
  root : flags.merkle_check = true ∨ (b.transaction_merkle_root = E.merkle_root b.transactions ↔
    b'.transaction_merkle_root = E.merkle_root b'.transactions)
  signed : flags.miner_signature = true ∨ ∀ m ∈ s.objects.world.miners b.miner,
    E.validate_signee b.toHeader m.signing_key = E.validate_signee b'.toHeader m.signing_key

theorem sameChecks_self (s : Node R O) (b : Block O) : SameChecks E flags s b b :=
  ⟨.inr Iff.rfl,.inr fun _ _ => rfl⟩

private theorem matches_validate_block_header {s t : Node R O} {b b' : Block O} (twin : Twin P early flags depth s t)
    (head : s.objects.head_block_id = t.objects.head_block_id) (same : SameBlock b b')
    (checks : SameChecks E flags s b b') :
    Matches (Twin P early flags depth) ((validate_block_header E flags b).run s)
      ((validate_block_header E flags b').run t) := by
  simp only [validate_block_header,EStateM.run_bind,EStateM.run_get]
  rw [← head,← twin.objects.time,← twin.objects.world,← twin.objects.head_block_number,← same.previous,
    ← same.timestamp,← same.miner]
  cases signer : s.objects.world.miners b.miner with
  | none =>
    exact alike_bind (alike_fc_assert _ _) (fun _ => alike_bind (alike_fc_assert _ _) fun _ => alike_throw _) s t twin
  | some m =>
    have signed : flags.miner_signature = true ∨ E.validate_signee b.toHeader m.signing_key = true ↔
        flags.miner_signature = true ∨ E.validate_signee b'.toHeader m.signing_key = true := by
      rcases checks.signed with skipped | signed
      · simp [skipped]
      · rw [signed m signer]
    refine alike_bind (alike_fc_assert _ _) (fun _ => alike_bind (alike_fc_assert _ _) fun _ => ?_) s t twin
    exact alike_bind (alike_fc_assert_iff signed _) fun _ => alike_fc_assert _ _

private theorem alike_transactions {l l' : List (Transaction O)} (resigned : List.Forall₂ Resigned l l')
    (inside : ∀ trx ∈ l, ∀ op ∈ trx.operations, RefersWithin P op) {inner : Skip}
    (unsigned : inner.transaction_signatures = true) :
    Alike (Twin P True flags depth) (each (fun trx => apply_transaction E trx inner) l)
      (each (fun trx => apply_transaction E trx inner) l') := by
  induction resigned with
  | nil => exact alike_pure ()
  | cons one _ ih =>
    refine alike_bind (alike_apply_transaction E one (inside _ (List.mem_cons_self ..)) unsigned) fun _ => ?_
    exact ih fun trx member => inside trx (List.mem_cons_of_mem _ member)

private theorem matches_apply_unflagged {s t : Node R O} {b b' : Block O} (twin : Twin P True flags depth s t)
    (head : s.objects.head_block_id = t.objects.head_block_id) (same : SameBlock b b')
    (checks : SameChecks E flags s b b')
    (inside : ∀ trx ∈ b.transactions, ∀ op ∈ trx.operations, RefersWithin P op) :
    Matches (Twin P False flags depth) ((_apply_block E b).run s) ((_apply_block E b').run t) := by
  have roots : (flags.merkle_check = true ∨ b.transaction_merkle_root = E.merkle_root b.transactions) ↔
      (flags.merkle_check = true ∨ b'.transaction_merkle_root = E.merkle_root b'.transactions) := by
    rcases checks.root with skipped | same
    · simp [skipped]
    · rw [same]
  by_cases root : flags.merkle_check = true ∨ b.transaction_merkle_root = E.merkle_root b.transactions
  swap
  · have root' : ¬ (flags.merkle_check = true ∨ b'.transaction_merkle_root = E.merkle_root b'.transactions) := by
      rwa [← roots]
    simp only [_apply_block,EStateM.run_bind,EStateM.run_get,twin.left_flags,twin.right_flags,run_fc_assert,root,root',
      if_false]
    exact ⟨rfl,twin_late twin⟩
  have root' : flags.merkle_check = true ∨ b'.transaction_merkle_root = E.merkle_root b'.transactions := by
    rwa [← roots]
  simp only [_apply_block,EStateM.run_bind,EStateM.run_get,twin.left_flags,twin.right_flags,run_fc_assert,root,root',
    if_true]
  rcases matches_cases (matches_validate_block_header E twin head same checks) with
    ⟨_,s1,t1,left,right,valid⟩ | ⟨e,s1,t1,left,right,invalid⟩
  swap
  · rw [left,right]
    exact ⟨rfl,twin_late invalid⟩
  rw [left,right]
  simp only
  have ran := alike_transactions E same.transactions inside
    (show ({ flags with transaction_signatures := true } : Skip).transaction_signatures = true from rfl) s1 t1 valid
  rcases matches_cases ran with ⟨_,s2,t2,left,right,later⟩ | ⟨e,s2,t2,left,right,later⟩
  · rw [left,right]
    simp only
    rw [twin.objects.world,same.timestamp]
    exact alike_finish_block E same _ s2 t2 (twin_late later)
  · rw [left,right]
    exact ⟨rfl,twin_late later⟩

/-- Twins with the same head and the same checkpoints apply blocks that differ in
    signatures at most alike. -/
theorem matches_apply_block {s t : Node R O} {b b' : Block O} (skip : Skip) (twin : Twin P True flags depth s t)
    (head : s.objects.head_block_id = t.objects.head_block_id) (checkpoints : s.checkpoints = t.checkpoints)
    (same : SameBlock b b')
    (matching : MatchesCheckpoint s.checkpoints E.digest b ↔ MatchesCheckpoint s.checkpoints E.digest b')
    (checks : SameChecks E (checkpointed s.checkpoints b.block_num skip) s b b')
    (inside : ∀ trx ∈ b.transactions, ∀ op ∈ trx.operations, RefersWithin P op) :
    Matches (Twin P False flags depth) ((apply_block E b skip).run s) ((apply_block E b' skip).run t) := by
  by_cases met : MatchesCheckpoint s.checkpoints E.digest b
  swap
  · have met' : ¬ MatchesCheckpoint t.checkpoints E.digest b' := by rwa [← checkpoints,← matching]
    simp only [apply_block,EStateM.run_bind,EStateM.run_get,run_fc_assert,met,met',if_false]
    exact ⟨rfl,twin_late twin⟩
  have met' : MatchesCheckpoint t.checkpoints E.digest b' := by rwa [← checkpoints,← matching]
  simp only [apply_block,EStateM.run_bind,EStateM.run_get,run_fc_assert,met,met',if_true]
  rw [← checkpoints,← same.block_num,run_with_skip_flags,run_with_skip_flags]
  generalize checkpointed s.checkpoints b.block_num skip = inner at checks ⊢
  have core : Matches (Twin P False inner depth) ((_apply_block E b).run { s with skip_flags := inner })
      ((_apply_block E b').run { t with skip_flags := inner }) :=
    matches_apply_unflagged E ⟨twin.objects,rfl,rfl,twin.lookups,twin.undo⟩ head same
      ⟨checks.root,checks.signed⟩ inside
  rcases matches_cases core with ⟨a,s',t',left,right,later⟩ | ⟨e,s',t',left,right,later⟩
  · rw [left,right]
    exact ⟨rfl,later.objects,twin.left_flags,twin.right_flags,later.lookups,later.undo⟩
  · rw [left,right]
    exact ⟨rfl,later.objects,twin.left_flags,twin.right_flags,later.lookups,later.undo⟩

end

end Decent.Database

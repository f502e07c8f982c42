import Decent.Unrepeated
import Decent.Irreversible

/-!
Transactions refer to blocks of their own chain. `block_summary_object` repeats the ids of
the last blocks, and a transaction names one of them; a block is refused whose transactions name
another. The summaries lag behind the chain while a block is applied, so what has to be shown is
that a block which fails there is undone.
-/
namespace Decent.Database
open Decent.ObjectDatabase (Exc)
open Decent.Protocol
open Decent.ForkDatabase (Item)
open Throwing

variable {R O : Type}

/-! ### Sessions that can be undone -/

/-- A session has started, and there is a state to go back to. -/
structure Undoable (s : Node R O) : Prop where
  enabled : s.undo.disabled = false
  active : 0 < s.undo.active_sessions
  stack : s.undo.stack ≠ []

/-- The sessions around a piece of code can be undone behind it as they could before it. -/
structure Standby (s s' : Node R O) : Prop where
  enabled : s.undo.disabled = false → s'.undo.disabled = false
  active : s.undo.active_sessions ≤ s'.undo.active_sessions
  stack : s.undo.stack ≠ [] → s'.undo.stack ≠ []

theorem standby_composes : Composes (Standby (R := R) (O := O)) where
  refl _ := ⟨id,Nat.le_refl _,id⟩
  trans first second :=
    ⟨second.enabled ∘ first.enabled,first.active.trans second.active,second.stack ∘ first.stack⟩

theorem Undoable.later {s s' : Node R O} (undoable : Undoable s) (standby : Standby s s') : Undoable s' :=
  ⟨standby.enabled undoable.enabled,Nat.lt_of_lt_of_le undoable.active standby.active,standby.stack undoable.stack⟩

theorem standby_of_undo {s s' : Node R O} (same : s'.undo = s.undo) : Standby s s' := by
  refine ⟨?_,?_,?_⟩ <;> rw [same]
  · exact id
  · exact id

/-- Undoing takes one session away, and goes back to the top of the stack. -/
theorem run_undo_undoable {s : Node R O} (undoable : Undoable s) : ∃ x rest, s.undo.stack = x :: rest ∧
    (undo_session : Exec R O Unit).run s = .ok () { s with
      objects := x
      undo := { s.undo with
        stack := if rest.isEmpty then [x] else rest
        active_sessions := s.undo.active_sessions - 1 } } := by
  obtain ⟨enabled,active,stack⟩ := undoable
  obtain ⟨x,rest,shape⟩ := List.exists_cons_of_ne_nil stack
  refine ⟨x,rest,shape,?_⟩
  simp [undo_session,Snapshots.undo,enabled,Nat.ne_of_gt active,shape]

theorem standby_session {body : Exec R O Unit} (inner : Keeps Standby body) (ending : Ending) :
    Keeps Standby (with_session true ending body) := by
  intro s
  have started : Undoable (insideSession true s) ∧
      (insideSession true s).undo.active_sessions = s.undo.active_sessions + 1 := by
    refine ⟨⟨(started_inside (.inl rfl)).2,?_,?_⟩,?_⟩ <;> simp [insideSession,Snapshots.start]
  -- what is left of the sessions when one of them has ended
  have ended : ∀ m : Node R O, Standby (insideSession true s) m → ∀ m' : Node R O,
      (s.undo.disabled = false → m'.undo.disabled = false) → m.undo.active_sessions - 1 ≤ m'.undo.active_sessions →
      m'.undo.stack ≠ [] → Standby s (outside (s.undo.disabled && true) m') := by
    intro m standby m' enabled active stack
    have count := standby.active
    rw [started.2] at count
    have left : (outside (s.undo.disabled && true) m').undo.active_sessions = m'.undo.active_sessions ∧
        (outside (s.undo.disabled && true) m').undo.stack = m'.undo.stack := by
      unfold outside
      split <;> exact ⟨rfl,rfl⟩
    refine ⟨fun on => ?_,?_,fun _ => ?_⟩
    · rw [on]
      exact enabled on
    · rw [left.1]
      omega
    · rw [left.2]
      exact stack
  have undone : ∀ (e : Exc) (m : Node R O), Standby (insideSession true s) m →
      Standby s (endState (undoing e (s.undo.disabled && true) m)) := by
    intro e m standby
    obtain ⟨x,rest,-,ran⟩ := run_undo_undoable (started.1.later standby)
    unfold undoing
    rw [ran]
    refine ended m standby _ (fun _ => standby.enabled started.1.enabled) (Nat.le_refl _) ?_
    simp only
    split
    · simp
    · rename_i more
      simpa using more
  have ran := inner (insideSession true s)
  rw [run_with_session,EStateM.run_bind]
  generalize body.run _ = result at ran ⊢
  cases result with
  | error e m => exact undone e m ran
  | ok a m =>
    simp only
    rcases run_close_session ending (s.undo.disabled && true) m with ⟨e,failed⟩ | ⟨u,done,how⟩
    · rw [failed]
      exact undone e m ran
    · rw [done]
      have undoable := started.1.later ran
      rcases how with merged | committed
      · unfold Snapshots.merge at merged
        split at merged
        · cases merged
        split at merged
        · cases merged
          exact ended m ran _ (fun _ => undoable.enabled) (Nat.le_refl _) (by simp)
        · cases merged
      · unfold Snapshots.commit at committed
        split at committed
        · cases committed
        · cases committed
          exact ended m ran _ (fun _ => undoable.enabled) (Nat.le_refl _) undoable.stack

theorem standby_neutral : Neutral (Standby (R := R) (O := O)) where
  toComposes := standby_composes
  touch _ _ _ _ := standby_of_undo rfl
  session inner := standby_session inner .merge

/-! ### What a session can go back to -/

section
variable {Q : List (Nat × BlockId) → Objects R O → Prop}

/-- All that an undo can go back to has the property, whatever the objects are. -/
structure Recoverable (Q : List (Nat × BlockId) → Objects R O → Prop) (s : Node R O) : Prop where
  undoable : Undoable s
  stack : ∀ o ∈ s.undo.stack, Q s.checkpoints o

/-- Code that returns leaves the property everywhere; code that throws can be undone. -/
def Attempt {α : Type} (Q : List (Nat × BlockId) → Objects R O → Prop) : EStateM.Result Exc (Node R O) α → Prop
  | .ok _ s => Undoable s ∧ Everywhere Q s
  | .error _ s => Recoverable Q s

theorem Everywhere.recoverable {s : Node R O} (everywhere : Everywhere Q s) (undoable : Undoable s) : Recoverable Q s :=
  ⟨undoable,fun o member => everywhere o (List.mem_cons_of_mem _ member)⟩

/-- Code that keeps the property, however it ends. -/
theorem attempt_of_stays {α : Type} {x : Exec R O α} {s : Node R O} (stays : Stays Q s (endState (x.run s)))
    (standby : Standby s (endState (x.run s))) (undoable : Undoable s) (everywhere : Everywhere Q s) : Attempt Q (x.run s) := by
  generalize x.run s = result at stays standby
  cases result with
  | ok a s' => exact ⟨undoable.later standby,stays everywhere⟩
  | error e s' => exact (stays everywhere).recoverable (undoable.later standby)

theorem attempt_bind {α β : Type} {x : Exec R O α} {f : α → Exec R O β} {s : Node R O}
    (thrown : ∀ e s', x.run s = .error e s' → Recoverable Q s')
    (rest : ∀ a s', x.run s = .ok a s' → Attempt Q ((f a).run s')) : Attempt Q ((x >>= f).run s) := by
  rw [EStateM.run_bind]
  cases ran : x.run s with
  | ok a s' => exact rest a s' ran
  | error e s' => exact thrown e s' ran

theorem attempt_with_skip_flags {α : Type} {flags : Skip} {body : Exec R O α} {s : Node R O}
    (attempt : Attempt Q (body.run { s with skip_flags := flags })) : Attempt Q ((with_skip_flags flags body).run s) := by
  rw [run_with_skip_flags]
  generalize body.run _ = result at attempt ⊢
  cases result with
  | ok a s' => exact ⟨⟨attempt.1.enabled,attempt.1.active,attempt.1.stack⟩,attempt.2⟩
  | error e s' => exact ⟨⟨attempt.undoable.enabled,attempt.undoable.active,attempt.undoable.stack⟩,attempt.stack⟩

/-- A session whose body can be undone keeps the property. -/
theorem everywhere_session {body : Exec R O Unit} {s : Node R O} (on : s.undo.disabled = false) (everywhere : Everywhere Q s)
    (attempt : ∀ s' : Node R O, Undoable s' → Everywhere Q s' → s'.skip_flags = s.skip_flags → Attempt Q (body.run s')) :
    (endState ((with_session false .commit body).run s)).undo.disabled = false ∧
      Everywhere Q (endState ((with_session false .commit body).run s)) := by
  have undoable : Undoable (insideSession false s) := by
    refine ⟨(started_inside (.inr on)).2,?_,?_⟩ <;> simp [insideSession,Snapshots.start,on]
  have undone : ∀ (e : Exc) (m : Node R O), Recoverable Q m → (endState (undoing e false m)).undo.disabled = false ∧
      Everywhere Q (endState (undoing e false m)) := by
    intro e m recoverable
    obtain ⟨x,rest,shape,ran⟩ := run_undo_undoable recoverable.undoable
    unfold undoing
    rw [ran]
    refine ⟨recoverable.undoable.enabled,fun o member => recoverable.stack o ?_⟩
    rw [shape]
    rcases List.mem_cons.mp member with rfl | inside
    · exact List.mem_cons_self
    · simp only [outside,Bool.false_eq_true,if_false] at inside
      split at inside
      · exact List.mem_singleton.mp inside ▸ List.mem_cons_self
      · exact List.mem_cons_of_mem _ inside
  have tried := attempt _ undoable (stays_insideSession false s everywhere) rfl
  rw [run_with_session,on,Bool.false_and,EStateM.run_bind]
  generalize body.run (insideSession false s) = result at tried
  cases result with
  | error e m => exact undone e m tried
  | ok a m =>
    obtain ⟨after,inside⟩ := tried
    have closed : (close_session .commit false : Exec R O Unit).run m =
        .ok () { m with undo := { m.undo with active_sessions := m.undo.active_sessions - 1 } } := by
      simp [close_session,Snapshots.commit,Nat.ne_of_gt after.active]
    simp only [closed]
    exact ⟨after.enabled,inside⟩

end

/-! ### Blocks and their summaries -/

/-- The table of summaries after the blocks of a chain, the latest first. -/
def summaries (digest : Header → Nat) (start : Nat → BlockId) : List (Block O) → Nat → BlockId
  | [] => start
  | b :: rest => Function.update (summaries digest start rest) (b.block_num % 2 ^ 16) (b.id digest)

/-- The transactions of a block refer to the chain below it. -/
def Refers (E : Env R O) (start : Nat → BlockId) (b : Block O) (rest : List (Block O)) : Prop :=
  ∀ t ∈ b.transactions, t.ref_block_prefix = E.prefix_of (summaries E.digest start rest t.ref_block_num)

/-- The summaries are those of the applied chain, and the transactions of all its blocks above the last
    checkpoint refer to what is below them. -/
structure Referring (E : Env R O) (start : Nat → BlockId) (checkpoints : List (Nat × BlockId)) (o : Objects R O) : Prop where
  consistent : Consistent E.digest o
  summary : o.block_summary = summaries E.digest start o.applied
  refers : ∀ later b rest, o.applied = later ++ b :: rest → rest ≠ [] → lastCheckpoint checkpoints < b.block_num →
    Refers E start b rest

/-- The chain and the summaries stay. -/
structure SameSummaries (o o' : Objects R O) : Prop where
  head : SameHead o' o
  summary : o'.block_summary = o.block_summary

theorem sameSummaries_composes : Composes (SameSummaries (R := R) (O := O)) where
  refl o := ⟨.refl o,rfl⟩
  trans first second := ⟨second.head.trans first.head,second.summary.trans first.summary⟩

section
variable {E : Env R O} {start : Nat → BlockId} {c : List (Nat × BlockId)}

theorem Referring.same {o o' : Objects R O} (referring : Referring E start c o) (same : SameSummaries o o') :
    Referring E start c o' where
  consistent := consistent_sameHead same.head referring.consistent
  summary := by rw [same.summary,same.head.applied,referring.summary]
  refers := by
    rw [same.head.applied]
    exact referring.refers

/-- A block whose transactions refer to the chain is put on top, and gets its summary. -/
theorem Referring.extend {o o' : Objects R O} {b : Block O} (referring : Referring E start c o)
    (onTop : b.previous = o.head_block_id) (refers : o.applied ≠ [] → lastCheckpoint c < b.block_num → Refers E start b o.applied)
    (head : SameHead o' (advance E b o))
    (summary : o'.block_summary = Function.update o.block_summary (b.block_num % 2 ^ 16) (b.id E.digest)) :
    Referring E start c o' where
  consistent := consistent_sameHead head (consistent_advance referring.consistent onTop)
  summary := by rw [summary,head.applied,referring.summary]; rfl
  refers later d rest shape below above := by
    rw [head.applied] at shape
    cases later with
    | nil =>
      obtain ⟨rfl,rfl⟩ : b = d ∧ o.applied = rest := by simpa [advance] using shape
      exact refers below above
    | cons x later =>
      obtain ⟨-,shape⟩ : b = x ∧ o.applied = later ++ d :: rest := by simpa [advance] using shape
      exact referring.refers later d rest shape below above

/-! ### Transactions -/

/-- The checks let no transaction through that refers to another chain, once there is a block. -/
theorem check_transaction_refers {t : Transaction O} {s s' : Node R O} (ran : (check_transaction E t).run s = .ok () s')
    (checks : s.skip_flags.tapos_check = false) (positive : 0 < s.objects.head_block_number) :
    t.ref_block_prefix = E.prefix_of (s.objects.block_summary t.ref_block_num) := by
  have composes : Composes fun s s' : Node R O => s' = s := ⟨fun _ => rfl,fun first second => second.trans first⟩
  obtain ⟨_,_,got,ran⟩ := run_bind_ok.mp ran
  cases got
  obtain ⟨_,s₁,valid,ran⟩ := run_bind_ok.mp ran
  have valid' := keeps_check composes (E.validate t.toTransactionBody) s
  rw [valid] at valid'
  obtain rfl : s₁ = s := valid'
  obtain ⟨_,s₂,fresh,ran⟩ := run_bind_ok.mp ran
  rw [run_fc_assert] at fresh
  split at fresh
  swap
  · cases fresh
  cases fresh
  obtain ⟨_,s₂,authorised,ran⟩ := run_bind_ok.mp ran
  have authorised' := keeps_provided composes (¬ (s₁.skip_flags.transaction_signatures = true ∨
    s₁.skip_flags.authority_check = true)) (keeps_check composes (E.verify_authority s₁.objects.world t)) s₁
  rw [authorised] at authorised'
  obtain rfl : s₂ = s₁ := authorised'
  rw [provided,if_pos positive] at ran
  obtain ⟨_,_,got,ran⟩ := run_bind_ok.mp ran
  cases got
  obtain ⟨_,s₃,recent,ran⟩ := run_bind_ok.mp ran
  rw [run_fc_assert] at recent
  split at recent
  · rename_i refers
    exact refers.resolve_left (by simp [checks])
  · cases recent

theorem sameSummaries_neutral : Neutral (Carries (SameSummaries (R := R) (O := O))) :=
  neutral_carries sameSummaries_composes fun _ _ _ _ => ⟨⟨rfl,rfl,rfl⟩,rfl⟩

theorem sameSummaries_apply (t : Transaction O) (flags : Skip) : Keeps (Carries SameSummaries) (apply_transaction E t flags) :=
  carries_with_skip_flags (neutral_apply_transaction sameSummaries_neutral E t
    (keeps_update fun _ => carries_objects ⟨⟨rfl,rfl,rfl⟩,rfl⟩)) flags

theorem standby_with_skip_flags {α : Type} {body : Exec R O α} (inner : Keeps Standby body) (flags : Skip) :
    Keeps Standby (with_skip_flags flags body) := by
  intro s
  have standby := inner { s with skip_flags := flags }
  rw [run_with_skip_flags]
  generalize body.run _ = result at standby ⊢
  cases result with
  | ok a s' => exact ⟨standby.enabled,standby.active,standby.stack⟩
  | error e s' => exact ⟨standby.enabled,standby.active,standby.stack⟩

theorem stays_transaction (t : Transaction O) : Keeps (Stays (Referring E start)) (_apply_transaction E t) := fun s =>
  stays_of_carries (neutral_apply_transaction sameSummaries_neutral E t (keeps_update fun _ => carries_objects ⟨⟨rfl,rfl,rfl⟩,rfl⟩) s)
    (quiet_apply_transaction E t s).checkpoints fun _ _ _ same referring => referring.same same

theorem standby_apply (t : Transaction O) (flags : Skip) : Keeps Standby (apply_transaction E t flags) :=
  standby_with_skip_flags (neutral_apply_transaction standby_neutral E t (keeps_update fun _ => standby_of_undo rfl)) flags

/-- The transactions of a block that is applied with this check refer to the chain. -/
theorem apply_transactions_refer {flags : Skip} (checks : flags.tapos_check = false) (ts : List (Transaction O))
    {s s' : Node R O} (positive : 0 < s.objects.head_block_number)
    (ran : (each (fun t => apply_transaction E t flags) ts).run s = .ok () s') :
    ∀ t ∈ ts, t.ref_block_prefix = E.prefix_of (s.objects.block_summary t.ref_block_num) := by
  induction ts generalizing s with
  | nil => exact fun t none => by cases none
  | cons t ts ih =>
    obtain ⟨_,m,applied,rest⟩ := run_bind_ok.mp ran
    have carries := sameSummaries_apply (E := E) t flags s
    rw [applied] at carries
    have same : SameSummaries s.objects m.objects := carries.objects
    have later := ih (by rw [same.head.head_block_number]; exact positive) rest
    rw [same.summary] at later
    rintro u member
    rcases List.mem_cons.mp member with rfl | inside
    · have applied : (apply_transaction E u flags).run s = .ok _ m := applied
      rw [apply_transaction,run_with_skip_flags] at applied
      split at applied
      swap
      · cases applied
      rename_i inner
      obtain ⟨_,_,got,inner⟩ := run_bind_ok.mp inner
      cases got
      obtain ⟨_,s₁,checked,-⟩ := run_bind_ok.mp inner
      exact check_transaction_refers (s := { s with skip_flags := flags }) checked checks positive
    · exact later u inside

/-! ### The application of a block -/

/-- `_apply_block` between the move of the head and the summary of the block. -/
def moving (E : Env R O) (b : Block O) (maint_needed : Bool) : Exec R O Unit := do
  let s ← get
  provided (¬ s.skip_flags.undo_history_check = true ∧ ¬ window s.objects < maxUndoHistory) (throw .undo_database_exception)
  set_windows
  update_signing_miner E b
  update_last_irreversible_block
  provided (maint_needed = true) (onWorld E.perform_chain_maintenance)

/-- `_apply_block` behind the summary of the block. -/
def settling (E : Env R O) (maint_needed : Bool) : Exec R O Unit := do
  clear_expired_transactions
  clear_expired_proposals E (← get).objects.proposals.length
  onWorld fun ctx => E.finish_block ctx maint_needed

theorem finish_block_eq (b : Block O) (maint_needed : Bool) : finish_block E b maint_needed = (do
    onWorld fun ctx => E.update_slots ctx b.timestamp b.miner
    update (advance E b)
    moving E b maint_needed
    create_block_summary E b
    settling E maint_needed : Exec R O Unit) := by
  simp only [finish_block,update_global_dynamic_data,moving,settling,bind_assoc]

/-- What moving leaves of the chain, the summaries and the undo stack: everything. -/
structure Moves (s s' : Node R O) : Prop where
  objects : SameSummaries s.objects s'.objects
  stack : s'.undo.stack = s.undo.stack
  active : s'.undo.active_sessions = s.undo.active_sessions
  disabled : s'.undo.disabled = s.undo.disabled
  checkpoints : s'.checkpoints = s.checkpoints

theorem moves_composes : Composes (Moves (R := R) (O := O)) where
  refl _ := ⟨sameSummaries_composes.refl _,rfl,rfl,rfl,rfl⟩
  trans first second := ⟨sameSummaries_composes.trans first.objects second.objects,second.stack.trans first.stack,
    second.active.trans first.active,second.disabled.trans first.disabled,second.checkpoints.trans first.checkpoints⟩

theorem moves_moving (b : Block O) (maint_needed : Bool) : Keeps Moves (moving E b maint_needed) := by
  have world (x : Context → EStateM Exc (World R) Unit) : Keeps Moves (onWorld x : Exec R O Unit) :=
    keeps_onWorld fun _ _ => ⟨⟨⟨rfl,rfl,rfl⟩,rfl⟩,rfl,rfl,rfl,rfl⟩
  refine keeps_bind moves_composes (keeps_get moves_composes) fun _ => ?_
  refine keeps_bind moves_composes (keeps_provided moves_composes _ (keeps_throw moves_composes _)) fun _ => ?_
  refine keeps_bind moves_composes (keeps_modifyGet fun _ => ⟨⟨⟨rfl,rfl,rfl⟩,rfl⟩,rfl,rfl,rfl,rfl⟩) fun _ => ?_
  refine keeps_bind moves_composes (keeps_bind moves_composes (world _) fun _ => ?_) fun _ => ?_
  · exact keeps_update fun _ => ⟨⟨⟨rfl,rfl,rfl⟩,rfl⟩,rfl,rfl,rfl,rfl⟩
  refine keeps_bind moves_composes (keeps_update_last_irreversible_block moves_composes fun _ _ => ?_) fun _ => ?_
  · exact ⟨⟨⟨rfl,rfl,rfl⟩,rfl⟩,rfl,rfl,rfl,rfl⟩
  · exact keeps_provided moves_composes _ (world _)

theorem carries_settling (maint_needed : Bool) : Keeps (Carries SameSummaries) (settling E maint_needed) := by
  refine keeps_bind sameSummaries_neutral.toComposes (keeps_update fun _ => carries_objects ⟨⟨rfl,rfl,rfl⟩,rfl⟩) fun _ => ?_
  refine keeps_bind sameSummaries_neutral.toComposes (keeps_get sameSummaries_neutral.toComposes) fun _ => ?_
  exact keeps_bind sameSummaries_neutral.toComposes (neutral_clear_expired_proposals sameSummaries_neutral E _)
    fun _ => neutral_onWorld sameSummaries_neutral _

theorem standby_settling (maint_needed : Bool) : Keeps Standby (settling E maint_needed) := by
  refine keeps_bind standby_composes (keeps_update fun _ => standby_of_undo rfl) fun _ => ?_
  refine keeps_bind standby_composes (keeps_get standby_composes) fun _ => ?_
  exact keeps_bind standby_composes (neutral_clear_expired_proposals standby_neutral E _)
    fun _ => neutral_onWorld standby_neutral _

theorem quiet_settling (maint_needed : Bool) : Keeps Quiet (settling E maint_needed) := by
  refine keeps_bind quiet_composes (quiet_update fun _ => ⟨rfl,rfl,rfl⟩) fun _ => ?_
  refine keeps_bind quiet_composes (keeps_get quiet_composes) fun _ => ?_
  exact keeps_bind quiet_composes (quiet_clear_expired_proposals E _) fun _ => neutral_onWorld quiet_neutral _

/-- Behind the transactions, the block gets on the chain with its summary, or what was done can be undone. -/
theorem attempt_finish_block {b : Block O} {maint_needed : Bool} {s : Node R O} (undoable : Undoable s)
    (everywhere : Everywhere (Referring E start) s) (onTop : b.previous = s.objects.head_block_id)
    (refers : s.objects.applied ≠ [] → lastCheckpoint s.checkpoints < b.block_num → Refers E start b s.objects.applied) :
    Attempt (Referring E start) ((finish_block E b maint_needed).run s) := by
  rw [finish_block_eq]
  have slots : Keeps (fun s s' : Node R O => ∃ w, s' = { s with objects := { s.objects with world := w } })
      (onWorld fun ctx => E.update_slots ctx b.timestamp b.miner : Exec R O Unit) := keeps_onWorld fun s w => ⟨w,rfl⟩
  have same : ∀ w, Everywhere (Referring E start) { s with objects := { s.objects with world := w } } := fun w =>
    stays_objects (s := s) (fun referring => referring.same ⟨⟨rfl,rfl,rfl⟩,rfl⟩) everywhere
  refine attempt_bind (fun e s' ran => ?_) fun _ s' ran => ?_
  · have ends := slots s
    rw [ran] at ends
    obtain ⟨w,rfl⟩ := ends
    exact (same w).recoverable ⟨undoable.enabled,undoable.active,undoable.stack⟩
  have ends := slots s
  rw [ran] at ends
  obtain ⟨w,rfl⟩ := ends
  -- from here on the summaries are behind the chain
  refine attempt_bind (fun _ _ ran => by cases ran) fun _ s' ran => ?_
  obtain rfl : s' = { s with objects := advance E b { s.objects with world := w } } := by
    cases ran
    rfl
  have moved := moves_moving (E := E) b maint_needed { s with objects := advance E b { s.objects with world := w } }
  have still : ∀ m : Node R O, Moves { s with objects := advance E b { s.objects with world := w } } m → Undoable m ∧
      ∀ o ∈ m.undo.stack, Referring E start m.checkpoints o := by
    intro m moves
    refine ⟨⟨?_,?_,?_⟩,?_⟩
    · rw [moves.disabled]; exact undoable.enabled
    · rw [moves.active]; exact undoable.active
    · rw [moves.stack]; exact undoable.stack
    · rw [moves.stack,moves.checkpoints]
      exact fun o member => everywhere o (List.mem_cons_of_mem _ member)
  refine attempt_bind (fun e m ran => ?_) fun _ m ran => ?_
  · rw [ran] at moved
    exact ⟨(still m moved).1,(still m moved).2⟩
  rw [ran] at moved
  have moves : Moves _ m := moved
  obtain ⟨after,below⟩ := still m moves
  refine attempt_bind (fun _ _ ran => by cases ran) fun _ n ran => ?_
  obtain rfl : n = { m with objects := { m.objects with
      block_summary := Function.update m.objects.block_summary (b.block_num % 2 ^ 16) (b.id E.digest) } } := by
    cases ran
    rfl
  have whole : Everywhere (Referring E start) { m with objects := { m.objects with
      block_summary := Function.update m.objects.block_summary (b.block_num % 2 ^ 16) (b.id E.digest) } } := by
    intro o member
    rcases List.mem_cons.mp member with rfl | inside
    · have top : Referring E start s.checkpoints s.objects := everywhere.objects
      show Referring E start m.checkpoints _
      rw [moves.checkpoints]
      refine top.extend onTop refers ⟨?_,?_,?_⟩ ?_
      · exact moves.objects.head.applied
      · exact moves.objects.head.head_block_id
      · exact moves.objects.head.head_block_number
      · show Function.update m.objects.block_summary _ _ = _
        rw [moves.objects.summary]
        rfl
    · exact below o inside
  refine attempt_of_stays ?_ (standby_settling maint_needed _) ⟨after.enabled,after.active,after.stack⟩ whole
  exact stays_of_carries (carries_settling maint_needed _) (quiet_settling (E := E) maint_needed _).checkpoints
    fun _ _ _ same referring => referring.same same

theorem attempt_apply_block (b : Block O) {s : Node R O} (undoable : Undoable s)
    (everywhere : Everywhere (Referring E start) s) : Attempt (Referring E start) ((apply_block E b .nothing).run s) := by
  rcases apply_block_runs E b .nothing s with ⟨e,refused⟩ | ⟨valid,runs⟩
  · rw [refused]
    exact everywhere.recoverable undoable
  rw [runs]
  have isFlags := checkpointed_eq s.checkpoints (block_num_pos b) .nothing
  generalize checkpointed s.checkpoints b.block_num .nothing = flags at valid isFlags ⊢
  refine attempt_with_skip_flags ?_
  have carries := keeps_each sameSummaries_neutral.toComposes (fun t => sameSummaries_apply (E := E) t
    { flags with transaction_signatures := true }) b.transactions { s with skip_flags := flags }
  have standby := keeps_each standby_composes (fun t => standby_apply (E := E) t
    { flags with transaction_signatures := true }) b.transactions { s with skip_flags := flags }
  have quiet := keeps_each quiet_composes (fun t => quiet_apply (E := E) t
    { flags with transaction_signatures := true }) b.transactions { s with skip_flags := flags }
  have stays := stays_of_carries (Q := Referring E start) carries quiet.checkpoints
    (fun _ _ _ same referring => referring.same same) everywhere
  unfold apply_checked
  refine attempt_bind (fun e m ran => ?_) fun _ m ran => ?_
  · rw [ran] at standby stays
    exact Everywhere.recoverable stays (Undoable.later (s := { s with skip_flags := flags })
      ⟨undoable.enabled,undoable.active,undoable.stack⟩ standby)
  rw [ran] at carries standby quiet stays
  have same : SameSummaries s.objects m.objects := carries.objects
  have checkpoints : m.checkpoints = s.checkpoints := quiet.checkpoints
  refine attempt_finish_block (Undoable.later (s := { s with skip_flags := flags })
    ⟨undoable.enabled,undoable.active,undoable.stack⟩ standby) stays ?_ fun below above => ?_
  · rw [same.head.head_block_id]
    exact valid.previous.symm
  rw [checkpoints] at above
  rw [if_neg (Nat.not_le_of_lt above)] at isFlags
  have top : Referring E start s.checkpoints s.objects := everywhere.objects
  have positive : 0 < s.objects.head_block_number := by
    rw [top.consistent.number]
    rw [same.head.applied] at below
    exact List.length_pos_iff.mpr below
  have refer := apply_transactions_refer (by rw [isFlags]; rfl) b.transactions
    (s := { s with skip_flags := flags }) positive ran
  intro t member
  rw [refer t member,same.head.applied]
  show E.prefix_of (s.objects.block_summary _) = _
  rw [top.summary]

end

/-! ### Runs -/

/-- The undo database stays enabled. -/
def StaysEnabled (s s' : Node R O) : Prop := s.undo.disabled = false → s'.undo.disabled = false

theorem staysEnabled_composes : Composes (StaysEnabled (R := R) (O := O)) :=
  ⟨fun _ => id,fun first second => second ∘ first⟩

theorem staysEnabled_undo : Keeps StaysEnabled (undo_session : Exec R O Unit) := by
  intro s on
  rcases run_undo_session s with ⟨e,failed⟩ | ⟨x,rest,-,undone⟩
  · rw [failed]; exact on
  · rw [undone]; exact on

theorem enabled_inside {s : Node R O} (on : s.undo.disabled = false) : (insideSession false s).undo.disabled = false :=
  (started_inside (.inr on)).2

theorem staysEnabled_session {body : Exec R O Unit} (inner : Keeps StaysEnabled body) (ending : Ending) :
    Keeps StaysEnabled (with_session false ending body) := by
  have closed (off : Bool) : Keeps StaysEnabled (close_session ending off : Exec R O Unit) := by
    intro s on
    rcases run_close_session ending off s with ⟨e,failed⟩ | ⟨u,done,how⟩
    · rw [failed]; exact on
    · rw [done]
      rcases how with merged | committed
      · unfold Snapshots.merge at merged
        split at merged
        · cases merged
        split at merged
        · cases merged; exact on
        · cases merged
      · unfold Snapshots.commit at committed
        split at committed
        · cases committed
        · cases committed; exact on
  intro s on
  have ran := keeps_bind staysEnabled_composes inner (fun _ => closed (s.undo.disabled && false)) _
    (enabled_inside on)
  rw [run_with_session,on,Bool.false_and] at *
  generalize (body >>= fun _ => close_session ending false).run _ = result at ran ⊢
  cases result with
  | ok a s' => exact ran
  | error e s' =>
    have back := staysEnabled_undo s' ran
    simp only
    generalize (undo_session : Exec R O Unit).run s' = result at back ⊢
    cases result with
    | ok a s'' => exact back
    | error e' s'' => exact back

theorem staysEnabled_reset : Keeps StaysEnabled (reset_pending_session : Exec R O Unit) := by
  refine keeps_bind staysEnabled_composes (keeps_get staysEnabled_composes) fun s => ?_
  refine keeps_ite ?_ (keeps_pure staysEnabled_composes ())
  exact keeps_bind staysEnabled_composes staysEnabled_undo fun _ => keeps_modifyGet fun _ on => on

section
variable (E : Env R O)

theorem staysEnabled_push_transaction (t : Transaction O) : Keeps StaysEnabled (_push_transaction E t) := by
  refine keeps_bind staysEnabled_composes (keeps_modifyGet fun s on => ?_) fun _ => staysEnabled_session ?_ .merge
  · cases s.pending_session with
    | true => exact on
    | false => exact enabled_inside on
  · refine keeps_bind staysEnabled_composes (fun s => ?_) fun _ => keeps_modifyGet fun _ on => on
    exact (neutral_apply_transaction standby_neutral E t (keeps_update fun _ => standby_of_undo rfl) s).enabled

theorem staysEnabled_restore_pending (pending : List (Transaction O)) : Keeps StaysEnabled (restore_pending E pending) := by
  have again (t : Transaction O) : Keeps StaysEnabled (push_again E t) := by
    refine keeps_catching staysEnabled_composes ?_ fun _ => keeps_pure staysEnabled_composes ()
    refine keeps_bind staysEnabled_composes (keeps_get staysEnabled_composes) fun s => ?_
    exact keeps_ite (staysEnabled_push_transaction E t) (keeps_pure staysEnabled_composes ())
  refine keeps_bind staysEnabled_composes (keeps_get staysEnabled_composes) fun s => ?_
  refine keeps_bind staysEnabled_composes (keeps_each staysEnabled_composes again _) fun _ => ?_
  exact keeps_bind staysEnabled_composes (keeps_modifyGet fun _ on => on) fun _ => keeps_each staysEnabled_composes again _

theorem staysEnabled_pop_block (held : List (Item O)) : Keeps StaysEnabled (pop_block E held) := by
  intro s on
  rcases pop_block_cases E held s with ⟨s',ran,popped⟩ | ⟨e,s',ran,failed⟩
  · rw [ran]; exact popped.enabled
  · rw [ran]; exact failed.enabled.trans on

end

/-- The property holds everywhere, and sessions can be undone. -/
def Secure (Q : List (Nat × BlockId) → Objects R O → Prop) (s s' : Node R O) : Prop :=
  s.undo.disabled = false ∧ Everywhere Q s → s'.undo.disabled = false ∧ Everywhere Q s'

section
variable {Q : List (Nat × BlockId) → Objects R O → Prop}

theorem secure_composes : Composes (Secure Q) := ⟨fun _ => id,fun first second => second ∘ first⟩

theorem secure_of {α : Type} {x : Exec R O α} (stays : Keeps (Stays Q) x) (enabled : Keeps StaysEnabled x) : Keeps (Secure Q) x :=
  fun s before => ⟨enabled s before.1,stays s before.2⟩

variable {E : Env R O} (attempts : ∀ b s, Undoable s → Everywhere Q s → Attempt Q ((apply_block E b .nothing).run s))
  (transacted : ∀ t, Keeps (Stays Q) (_apply_transaction E t))

include attempts in
theorem secure_apply_and_store (id : BlockId) (b : Block O) : Keeps (Secure Q) (apply_and_store E id b .nothing) := by
  rintro s ⟨on,everywhere⟩
  refine everywhere_session on everywhere fun s' undoable inside _ => ?_
  have attempt := attempts b s' undoable inside
  rw [EStateM.run_bind]
  generalize (apply_block E b .nothing).run s' = result at attempt
  cases result with
  | error e m => exact attempt
  | ok a m => exact ⟨⟨attempt.1.enabled,attempt.1.active,attempt.1.stack⟩,attempt.2⟩

include attempts transacted in
theorem secure_push_block (b : Block O) : Keeps (Secure Q) (push_block E b .nothing) := by
  rintro s ⟨on,everywhere⟩
  rcases push_block_ends E b .nothing s with same | ⟨s₁,ran,ends⟩
  · rw [same]
    exact ⟨on,everywhere⟩
  have cleared : s₁.undo.disabled = false ∧ Everywhere Q s₁ := by
    have kept := secure_of stays_reset_pending_session staysEnabled_reset
      { s with skip_flags := .nothing, pending_tx := [] } ⟨on,everywhere⟩
    have unfolds : (clear_pending : Exec R O Unit).run { s with skip_flags := .nothing } =
        (reset_pending_session : Exec R O Unit).run { s with skip_flags := .nothing, pending_tx := [] } := rfl
    rw [← unfolds,ran] at kept
    exact kept
  have flags : s₁.skip_flags = .nothing := by
    rcases clear_pending_cases E.digest { s with skip_flags := .nothing } with ⟨e,_,failed,_⟩ | ⟨s₁',ok,gone⟩
    · rw [ran] at failed; cases failed
    · rw [ran] at ok; cases ok; exact gone.skip_flags
  have pushed : Secure Q s₁ (endState ((_push_block E b).run s₁)) := by
    refine keeps_push E secure_composes (fun _ _ before => before) (fun c d => ?_)
      (secure_of (stays_with_session (keeps_pure stays_composes ()) false .merge)
        (staysEnabled_session (keeps_pure staysEnabled_composes ()) .merge))
      fun held => secure_of (stays_pop_block E held) (staysEnabled_pop_block E held)
    rw [flags]
    exact secure_apply_and_store attempts _ d
  rw [ends]
  exact secure_of (stays_restore_pending E transacted s.pending_tx) (staysEnabled_restore_pending E s.pending_tx) _ (pushed cleared)

include attempts transacted in
/-- What every attempt at a block leaves to be undone holds in every run. -/
theorem Served.secure {start s : Node R O} (served : Served E start s) : Secure Q start s := by
  induction served with
  | start => exact id
  | step r _ ih =>
    refine secure_composes.trans ih ?_
    cases r with
    | push_block b =>
      exact keeps_bind secure_composes (secure_push_block attempts transacted b) (fun _ => keeps_pure secure_composes _) _
    | push_transaction t skip =>
      rintro ⟨on,everywhere⟩
      refine ⟨?_,stays_with_skip_flags (stays_push_transaction E transacted t _) everywhere⟩
      have kept := staysEnabled_push_transaction E t { (_ : Node R O) with skip_flags := skip } on
      rw [request,push_transaction,run_with_skip_flags]
      generalize (_push_transaction E t).run _ = result at kept ⊢
      cases result with
      | ok a s' => exact kept
      | error e s' => exact kept
    | pop_block => exact secure_of (stays_pop_block E []) (staysEnabled_pop_block E []) _

end

/-- The table of summaries has the last block with a number, if it is one of the last 65536. -/
theorem summaries_cases {digest : Header → Nat} (start : Nat → BlockId) {chain : List (Block O)} (linked : Linked digest chain)
    (n : Nat) :
    (∃ r ∈ chain, chain.length < r.block_num + 2 ^ 16 ∧ r.block_num % 2 ^ 16 = n ∧
      summaries digest start chain n = r.id digest) ∨
    (∀ r ∈ chain, r.block_num % 2 ^ 16 ≠ n) ∧ summaries digest start chain n = start n := by
  induction chain with
  | nil => exact .inr ⟨by simp,rfl⟩
  | cons b rest ih =>
    have top : b.block_num = rest.length + 1 := headId_num digest linked
    by_cases here : b.block_num % 2 ^ 16 = n
    · refine .inl ⟨b,List.mem_cons_self,?_,here,?_⟩
      · rw [List.length_cons,top]
        omega
      · rw [summaries,here,Function.update_self]
    · rw [summaries,Function.update_of_ne (Ne.symm here)]
      rcases ih linked.2 with ⟨r,member,recent,named,same⟩ | ⟨other,same⟩
      · refine .inl ⟨r,List.mem_cons_of_mem _ member,?_,named,same⟩
        rw [List.length_cons]
        -- a block with the number of `b` would be named as `b` is
        by_contra old
        refine here ?_
        rw [← named,top,show rest.length + 1 = r.block_num + 2 ^ 16 by omega,Nat.add_mod_right]
      · refine .inr ⟨fun r member => ?_,same⟩
        rcases List.mem_cons.mp member with rfl | below
        · exact here
        · exact other r below

theorem referring_opened {E : Env R O} {genesis : Objects R O} (isGenesis : Genesis genesis) (checkpoints : List (Nat × BlockId)) :
    Everywhere (Referring E genesis.block_summary) (opened E genesis .empty checkpoints) := by
  intro o member
  obtain rfl : o = genesis := List.mem_singleton.mp member
  refine ⟨⟨?_,?_,?_⟩,?_,fun later b rest shape => ?_⟩
  · rw [isGenesis.applied,isGenesis.head_block_id]; rfl
  · rw [isGenesis.applied,isGenesis.head_block_number]; rfl
  · rw [isGenesis.applied]; trivial
  · rw [isGenesis.applied]; rfl
  · rw [isGenesis.applied] at shape
    simp at shape

/-- In every run, forks, pops and refused blocks included, each transaction of a block of the applied chain names one of
    the 65536 blocks below it on the same chain; only where there is no block with such a number yet, it names what the
    table began with. -/
theorem transactions_refer_to_their_chain {E : Env R O} {genesis : Objects R O} (isGenesis : Genesis genesis)
    (checkpoints : List (Nat × BlockId)) {s : Node R O} (served : Served E (opened E genesis .empty checkpoints) s)
    {later rest : List (Block O)} {b : Block O} (applied : s.objects.applied = later ++ b :: rest) (below : rest ≠ [])
    (above : lastCheckpoint checkpoints < b.block_num) {t : Transaction O} (member : t ∈ b.transactions) :
    (∃ r ∈ rest, b.block_num ≤ r.block_num + 2 ^ 16 ∧ r.block_num % 2 ^ 16 = t.ref_block_num ∧
      t.ref_block_prefix = E.prefix_of (r.id E.digest)) ∨
    (∀ r ∈ rest, r.block_num % 2 ^ 16 ≠ t.ref_block_num) ∧
      t.ref_block_prefix = E.prefix_of (genesis.block_summary t.ref_block_num) := by
  have secure := served.secure (Q := Referring E genesis.block_summary) (fun b s => attempt_apply_block b)
    stays_transaction ⟨rfl,referring_opened isGenesis checkpoints⟩
  have now := secure.2.objects
  rw [served.checkpoints] at now
  have linked : Linked E.digest (b :: rest) :=
    linked_suffix now.consistent.linked (applied ▸ List.suffix_append _ _)
  have number : b.block_num = rest.length + 1 := headId_num E.digest linked
  have refers := now.refers later b rest applied below above t member
  rcases summaries_cases genesis.block_summary linked.2 t.ref_block_num with ⟨r,inside,recent,named,same⟩ | ⟨none,same⟩
  · refine .inl ⟨r,inside,?_,named,by rw [refers,same]⟩
    rw [number]
    exact recent
  · exact .inr ⟨none,by rw [refers,same]⟩

/-- The transaction of the second block names the first. -/
def referring2 : Block Unit :=
  ⟨⟨spending1.id pairDigest,2,0,0,0⟩,[⟨⟨1,(spending1.id pairDigest).hash,200,[.other ()]⟩,[3]⟩]⟩

theorem transactions_refer_to_first : ∃ b t r, (afterBlocks [] spending1 referring2).objects.applied = [b,r] ∧ t ∈ b.transactions ∧
    ((∃ r' ∈ [r], b.block_num ≤ r'.block_num + 2 ^ 16 ∧ r'.block_num % 2 ^ 16 = t.ref_block_num ∧
      t.ref_block_prefix = quietEnv.prefix_of (r'.id quietEnv.digest)) ∨
    (∀ r' ∈ [r], r'.block_num % 2 ^ 16 ≠ t.ref_block_num) ∧
      t.ref_block_prefix = quietEnv.prefix_of (quietGenesis.block_summary t.ref_block_num)) := by
  obtain ⟨b,r,two⟩ : ∃ b r, (afterBlocks [] spending1 referring2).objects.applied = [b,r] :=
    List.length_eq_two.mp (by decide +kernel)
  have counts : (afterBlocks [] spending1 referring2).objects.applied.map (fun b => b.transactions.length) = [1,1] := by
    decide +kernel
  rw [two] at counts
  obtain ⟨t,one⟩ : ∃ t, b.transactions = [t] := List.length_eq_one_iff.mp (List.cons.inj counts).1
  have member : t ∈ b.transactions := one ▸ List.mem_singleton.mpr rfl
  refine ⟨b,t,r,two,member,?_⟩
  exact transactions_refer_to_their_chain quietGenesis_isGenesis [] (afterBlocks_served [] spending1 referring2)
    (show _ = [] ++ b :: [r] from two) (by simp) (block_num_pos b) member

end Decent.Database

import Decent.History
import Mathlib.Data.List.Chain

/-!
The invariant of pushing and popping blocks. The objects and every state on the
undo stack agree with the chain that was applied to reach them, and going down the
stack takes at most one block off the chain at a time.
-/
namespace Decent.Database
open Decent.ObjectDatabase (Exc)
open Decent.Protocol
open Decent.ForkDatabase (Forks Item)
open Throwing

variable {R O : Type}

/-! ### Chains -/

/-- The head id of a chain of blocks, the latest first. -/
def headId (digest : Header → Nat) : List (Block O) → BlockId
  | [] => .zero
  | b :: _ => b.id digest

/-- Every block names the one below it, and the first block the zero id. -/
def Linked (digest : Header → Nat) : List (Block O) → Prop
  | [] => True
  | b :: rest => b.previous = headId digest rest ∧ Linked digest rest

theorem headId_num (digest : Header → Nat) {chain : List (Block O)} (linked : Linked digest chain) :
    (headId digest chain).num = chain.length := by
  induction chain with
  | nil => rfl
  | cons b rest ih =>
    have below := ih linked.2
    show b.previous.num + 1 = rest.length + 1
    rw [linked.1,below]

/-- Objects that agree with their applied chain. -/
structure Consistent (digest : Header → Nat) (o : Objects R O) : Prop where
  id : o.head_block_id = headId digest o.applied
  number : o.head_block_number = o.applied.length
  linked : Linked digest o.applied

theorem consistent_sameHead {digest : Header → Nat} {a b : Objects R O} (same : SameHead a b)
    (consistent : Consistent digest b) : Consistent digest a := by
  refine ⟨?_,?_,?_⟩
  · rw [same.head_block_id,same.applied,consistent.id]
  · rw [same.head_block_number,same.applied,consistent.number]
  · rw [same.applied]; exact consistent.linked

theorem consistent_advance {E : Env R O} {o : Objects R O} {b : Block O} (consistent : Consistent E.digest o)
    (onTop : b.previous = o.head_block_id) : Consistent E.digest (advance E b o) := by
  refine ⟨rfl,?_,?_⟩
  · show b.previous.num + 1 = o.applied.length + 1
    rw [onTop,consistent.id,headId_num E.digest consistent.linked]
  · exact ⟨onTop.trans consistent.id,consistent.linked⟩

/-- The second state has the chain of the first, or that chain without its latest
    block. -/
def Below (a b : Objects R O) : Prop := b.applied = a.applied ∨ ∃ x, a.applied = x :: b.applied

/-- The invariant. -/
structure Sound (digest : Header → Nat) (s : Node R O) : Prop where
  chain : (s.objects :: s.undo.stack).IsChain Below
  consistent : ∀ o ∈ s.objects :: s.undo.stack, Consistent digest o

private theorem below_sameHead {a a' b : Objects R O} (same : a'.applied = a.applied) (below : Below a b) :
    Below a' b := by
  unfold Below
  rw [same]
  exact below

private theorem chain_sameHead {a a' : Objects R O} {l : List (Objects R O)} (same : a'.applied = a.applied)
    (chain : (a :: l).IsChain Below) : (a' :: l).IsChain Below := by
  rw [List.isChain_cons] at chain ⊢
  exact ⟨fun y member => below_sameHead same (chain.1 y member),chain.2⟩

private theorem chain_take {a : Objects R O} {l : List (Objects R O)} (n : Nat)
    (chain : (a :: l).IsChain Below) : (a :: l.take n).IsChain Below := by
  have part : (a :: l.take n) = (a :: l).take (n + 1) := rfl
  rw [part]
  exact chain.take _

private theorem chain_covers {a a' : Objects R O} {l l' : List (Objects R O)} (same : SameHead a' a)
    (covers : Covers a l l') (chain : (a :: l).IsChain Below) : (a' :: l').IsChain Below := by
  obtain ⟨above,n,rfl,quiet⟩ := covers
  induction above generalizing a' with
  | nil => exact chain_sameHead same.applied (chain_take n chain)
  | cons x above ih =>
    have xSame := quiet x (List.mem_cons_self ..)
    have rest := ih xSame fun y member => quiet y (List.mem_cons_of_mem _ member)
    rw [List.cons_append,List.isChain_cons_cons]
    exact ⟨.inl (xSame.applied.trans same.applied.symm),rest⟩

theorem sound_covers {digest : Header → Nat} {s t : Node R O} (same : SameHead t.objects s.objects)
    (covers : Covers s.objects s.undo.stack t.undo.stack) (sound : Sound digest s) : Sound digest t := by
  refine ⟨chain_covers same covers sound.chain,?_⟩
  obtain ⟨above,n,shape,quiet⟩ := covers
  have head := sound.consistent s.objects (List.mem_cons_self ..)
  intro o member
  rw [shape] at member
  rcases List.mem_cons.mp member with rfl | member
  · exact consistent_sameHead same head
  rcases List.mem_append.mp member with member | member
  · exact consistent_sameHead (quiet o member) head
  · exact sound.consistent o (List.mem_cons_of_mem _ (List.mem_of_mem_take member))

theorem sound_still {digest : Header → Nat} {s s' : Node R O} (still : Still s s') (sound : Sound digest s) :
    Sound digest s' :=
  sound_covers still.head still.stack sound

/-! ### Applying a block -/

section
variable (E : Env R O)

/-- The block was put on the chain on the way. -/
def Advanced (b : Block O) (s s' : Node R O) : Prop :=
  ∃ m, Quiet s m ∧ Quiet { m with objects := advance E b m.objects } s'

theorem advanced_of_quiet {b : Block O} {s m s' : Node R O} (quiet : Quiet s m) (advanced : Advanced E b m s') :
    Advanced E b s s' := by
  obtain ⟨n,first,second⟩ := advanced
  exact ⟨n,quiet_composes.trans quiet first,second⟩

/-- Code that returns only once it has put the block on the chain. -/
def Advances (b : Block O) (x : Exec R O Unit) : Prop :=
  ∀ s, (∃ s', x.run s = .ok () s' ∧ Advanced E b s s') ∨
    ∃ e s', x.run s = .error e s' ∧ (Quiet s s' ∨ Advanced E b s s')

theorem advances_bind {α : Type} {b : Block O} {x : Exec R O α} {f : α → Exec R O Unit} (first : Keeps Quiet x)
    (rest : ∀ a, Advances E b (f a)) : Advances E b (x >>= f) := by
  intro s
  have quiet := first s
  rw [EStateM.run_bind]
  generalize x.run s = result at quiet ⊢
  cases result with
  | error e s' => exact .inr ⟨e,s',rfl,.inl quiet⟩
  | ok a m =>
    rcases rest a m with ⟨s',ran,advanced⟩ | ⟨e,s',ran,ends⟩
    · exact .inl ⟨s',ran,advanced_of_quiet E quiet advanced⟩
    · refine .inr ⟨e,s',ran,?_⟩
      rcases ends with still | advanced
      · exact .inl (quiet_composes.trans quiet still)
      · exact .inr (advanced_of_quiet E quiet advanced)

theorem advances_then {b : Block O} {x : Exec R O Unit} {f : Unit → Exec R O Unit} (first : Advances E b x)
    (rest : ∀ a, Keeps Quiet (f a)) : Advances E b (x >>= f) := by
  intro s
  rw [EStateM.run_bind]
  rcases first s with ⟨m,ran,n,before,after⟩ | ⟨e,s',ran,ends⟩
  · have quiet := rest () m
    rw [ran]
    simp only
    generalize (f ()).run m = result at quiet ⊢
    cases result with
    | ok a s' => exact .inl ⟨s',rfl,n,before,quiet_composes.trans after quiet⟩
    | error e s' => exact .inr ⟨e,s',rfl,.inr ⟨n,before,quiet_composes.trans after quiet⟩⟩
  · rw [ran]
    exact .inr ⟨e,s',rfl,ends⟩

theorem quiet_set_windows : Keeps Quiet (set_windows : Exec R O Unit) := by
  refine keeps_modifyGet fun s => ?_
  refine ⟨⟨.refl _,covers_refl _ _,id,?_,rfl,rfl⟩,⟨rfl,rfl,rfl,rfl⟩⟩
  unfold ForkDatabase.set_max_size
  split
  · exact ⟨rfl,rfl,.refl _⟩
  · exact ⟨rfl,rfl,List.filter_sublist⟩

theorem quiet_update_last_irreversible_block : Keeps Quiet (update_last_irreversible_block : Exec R O Unit) :=
  keeps_update_last_irreversible_block quiet_composes fun s num =>
    quiet_update (f := fun o => { o with last_irreversible_block_num := num }) (fun _ => ⟨rfl,rfl,rfl⟩) s

theorem quiet_clear_expired_proposals (n : Nat) : Keeps Quiet (clear_expired_proposals E n) :=
  neutral_clear_expired_proposals quiet_neutral E n

theorem advances_update_global_dynamic_data (b : Block O) : Advances E b (update_global_dynamic_data E b) := by
  refine advances_bind E (quiet_onWorld _) fun _ => ?_
  refine advances_then E ?_ fun _ => ?_
  · intro s
    exact .inl ⟨{ s with objects := advance E b s.objects },rfl,s,quiet_composes.refl s,quiet_composes.refl _⟩
  · refine keeps_bind quiet_composes (keeps_get quiet_composes) fun s => ?_
    refine keeps_bind quiet_composes (keeps_provided quiet_composes _ (keeps_throw quiet_composes _)) fun _ => ?_
    exact quiet_set_windows

variable {E} in
/-- Where it returns, the objects are those with the slots updated, moved on to the block. -/
theorem update_global_dynamic_data_ok {b : Block O} {s s' : Node R O}
    (ran : (update_global_dynamic_data E b).run s = .ok () s') :
    ∃ n, (onWorld fun ctx => E.update_slots ctx b.timestamp b.miner).run s = .ok () n ∧
      s'.objects = advance E b n.objects ∧ s'.skip_flags = n.skip_flags := by
  obtain ⟨_,n,slots,ran⟩ := run_bind_ok.mp ran
  obtain ⟨_,n₁,advanced,ran⟩ := run_bind_ok.mp ran
  cases advanced
  obtain ⟨_,_,got,ran⟩ := run_bind_ok.mp ran
  cases got
  obtain ⟨_,n₂,checked,windows⟩ := run_bind_ok.mp ran
  unfold provided at checked
  split at checked
  case isTrue => cases checked
  case isFalse =>
    cases checked
    cases windows
    exact ⟨n,slots,rfl,rfl⟩

theorem advances_finish_block (b : Block O) (maint_needed : Bool) : Advances E b (finish_block E b maint_needed) := by
  refine advances_then E (advances_update_global_dynamic_data E b) fun _ => ?_
  refine keeps_bind quiet_composes ?_ fun _ => ?_
  · refine keeps_bind quiet_composes (quiet_onWorld _) fun _ => quiet_update fun o => ?_
    exact ⟨rfl,rfl,rfl⟩
  refine keeps_bind quiet_composes quiet_update_last_irreversible_block fun _ => ?_
  refine keeps_bind quiet_composes (keeps_provided quiet_composes _ (quiet_onWorld _)) fun _ => ?_
  refine keeps_bind quiet_composes (quiet_update fun _ => ⟨rfl,rfl,rfl⟩) fun _ => ?_
  refine keeps_bind quiet_composes (quiet_update fun _ => ⟨rfl,rfl,rfl⟩) fun _ => ?_
  refine keeps_bind quiet_composes (keeps_get quiet_composes) fun s => ?_
  exact keeps_bind quiet_composes (quiet_clear_expired_proposals E _) fun _ => quiet_onWorld _

/-- Setting flags for a while is not seen from outside. -/
theorem run_with_skip_flags {α : Type} (flags : Skip) (body : Exec R O α) (s : Node R O) :
    (with_skip_flags flags body).run s =
      match body.run { s with skip_flags := flags } with
      | .ok a s' => .ok a { s' with skip_flags := s.skip_flags }
      | .error e s' => .error e { s' with skip_flags := s.skip_flags } := rfl

theorem carries_with_skip_flags {Rel : Objects R O → Objects R O → Prop} {α : Type} {body : Exec R O α}
    (inner : Keeps (Carries Rel) body) (flags : Skip) : Keeps (Carries Rel) (with_skip_flags flags body) := by
  intro s
  have carries := inner { s with skip_flags := flags }
  rw [run_with_skip_flags]
  generalize body.run _ = result at carries ⊢
  cases result with
  | ok a s' => exact ⟨carries.objects,carries.stack,carries.enabled⟩
  | error e s' => exact ⟨carries.objects,carries.stack,carries.enabled⟩

private theorem quiet_flags {s s' : Node R O} {flags : Skip} (quiet : Quiet { s with skip_flags := flags } s') :
    Quiet s { s' with skip_flags := s.skip_flags } :=
  ⟨⟨quiet.head,quiet.stack,quiet.enabled,quiet.fork_db,quiet.block_db,quiet.checkpoints⟩,
    ⟨quiet.popped_tx,quiet.pending_tx,quiet.pending_session,rfl⟩⟩

theorem quiet_with_skip_flags {α : Type} {body : Exec R O α} (inner : Keeps Quiet body) (flags : Skip) :
    Keeps Quiet (with_skip_flags flags body) := by
  intro s
  have quiet := inner { s with skip_flags := flags }
  rw [run_with_skip_flags]
  generalize body.run _ = result at quiet ⊢
  cases result with
  | ok a s' => exact quiet_flags quiet
  | error e s' => exact quiet_flags quiet

private theorem advanced_flags {b : Block O} {s s' : Node R O} {flags : Skip}
    (advanced : Advanced E b { s with skip_flags := flags } s') :
    Advanced E b s { s' with skip_flags := s.skip_flags } := by
  obtain ⟨m,before,after⟩ := advanced
  refine ⟨{ m with skip_flags := s.skip_flags },quiet_flags before,?_⟩
  exact ⟨⟨after.head,after.stack,after.enabled,after.fork_db,after.block_db,after.checkpoints⟩,
    ⟨after.popped_tx,after.pending_tx,after.pending_session,rfl⟩⟩

@[simp] theorem run_fc_assert (p : Prop) [Decidable p] (what : String) (s : Node R O) :
    (fc_assert p what : Exec R O Unit).run s = if p then .ok () s else .error (.assert_exception what) s := by
  unfold fc_assert
  split <;> rfl

/-- `validate_block_header` reads only, and lets no block through that does not name
    the head. -/
theorem run_validate_block_header (skip : Skip) (b : Block O) (s : Node R O) :
    ((validate_block_header E skip b).run s = .ok () s ∧ b.previous = s.objects.head_block_id) ∨
      ∃ e, (validate_block_header E skip b).run s = .error e s := by
  by_cases names : s.objects.head_block_id = b.previous
  · by_cases later : s.objects.time < b.timestamp
    · cases signer : s.objects.world.miners b.miner with
      | none => exact .inr (by simp [validate_block_header,names,later,signer])
      | some miner =>
        by_cases signed : skip.miner_signature = true ∨ E.validate_signee b.toHeader miner.signing_key = true
        · by_cases scheduled : skip.miner_schedule_check = true ∨
              E.scheduled_miner ⟨s.objects.head_block_number,s.objects.time⟩ s.objects.world b.timestamp = some b.miner
          · exact .inl ⟨by simp [validate_block_header,names,later,signer,signed,scheduled],names.symm⟩
          · exact .inr (by simp [validate_block_header,names,later,signer,signed,scheduled])
        · exact .inr (by simp [validate_block_header,names,later,signer,signed])
    · exact .inr (by simp [validate_block_header,names,later])
  · exact .inr (by simp [validate_block_header,names])

/-- What the header of a block has passed when `validate_block_header` returns. -/
structure ValidHeader (skip : Skip) (b : Block O) (o : Objects R O) : Prop where
  previous : o.head_block_id = b.previous
  timestamp : o.time < b.timestamp
  miner : ∃ m, o.world.miners b.miner = some m ∧
    (skip.miner_signature = true ∨ E.validate_signee b.toHeader m.signing_key = true) ∧
    (skip.miner_schedule_check = true ∨
      E.scheduled_miner ⟨o.head_block_number,o.time⟩ o.world b.timestamp = some b.miner)

theorem validate_block_header_ok {skip : Skip} {b : Block O} {s s' : Node R O} :
    (validate_block_header E skip b).run s = .ok () s' ↔ s' = s ∧ ValidHeader E skip b s.objects := by
  constructor
  · intro ran
    simp only [validate_block_header,EStateM.run_bind,EStateM.run_get,run_fc_assert] at ran
    by_cases names : s.objects.head_block_id = b.previous
    swap
    · simp [names] at ran
    by_cases later : s.objects.time < b.timestamp
    swap
    · simp [names,later] at ran
    cases signer : s.objects.world.miners b.miner with
    | none => simp [names,later,signer] at ran
    | some m =>
      by_cases signed : skip.miner_signature = true ∨ E.validate_signee b.toHeader m.signing_key = true
      swap
      · simp [names,later,signer,signed] at ran
      by_cases scheduled : skip.miner_schedule_check = true ∨
          E.scheduled_miner ⟨s.objects.head_block_number,s.objects.time⟩ s.objects.world b.timestamp = some b.miner
      swap
      · simp [names,later,signer,signed,scheduled] at ran
      simp only [names,later,signer,if_true,EStateM.run_bind,run_fc_assert,signed,scheduled] at ran
      cases ran
      exact ⟨rfl,names,later,m,signer,signed,scheduled⟩
  · rintro ⟨rfl,names,later,m,signer,signed,scheduled⟩
    simp [validate_block_header,names,later,signer,signed,scheduled]

/-- What returning from `apply_block` comes to. -/
theorem apply_block_ok {b : Block O} {skip flags : Skip} {s s' : Node R O}
    (isFlags : flags = checkpointed s.checkpoints b.block_num skip) :
    (apply_block E b skip).run s = .ok () s' ↔
      MatchesCheckpoint s.checkpoints E.digest b ∧
      (flags.merkle_check = true ∨ b.transaction_merkle_root = E.merkle_root b.transactions) ∧
      ValidHeader E flags b s.objects ∧
      ∃ m n, (each (fun trx => apply_transaction E trx { flags with transaction_signatures := true })
          b.transactions).run { s with skip_flags := flags } = .ok () m ∧
        (finish_block E b (s.objects.world.next_maintenance_time ≤ b.timestamp)).run m = .ok () n ∧
        s' = { n with skip_flags := s.skip_flags } := by
  subst isFlags
  by_cases matching : MatchesCheckpoint s.checkpoints E.digest b
  swap
  · simp [apply_block,matching]
  simp only [apply_block,EStateM.run_bind,EStateM.run_get,run_fc_assert,matching,if_true,run_with_skip_flags,true_and]
  generalize checkpointed s.checkpoints b.block_num skip = flags
  by_cases root : flags.merkle_check = true ∨ b.transaction_merkle_root = E.merkle_root b.transactions
  swap
  · simp [_apply_block,root]
  simp only [_apply_block,EStateM.run_bind,EStateM.run_get,run_fc_assert,root,if_true,true_and]
  by_cases valid : ValidHeader E flags b s.objects
  · have header := (validate_block_header_ok E (s := { s with skip_flags := flags })).mpr ⟨rfl,valid⟩
    simp only [header,valid,true_and]
    cases (each (fun trx => apply_transaction E trx { flags with transaction_signatures := true })
        b.transactions).run { s with skip_flags := flags } with
    | error e m => simp
    | ok a m =>
      simp only
      cases ended : (finish_block E b (s.objects.world.next_maintenance_time ≤ b.timestamp)).run m with
      | error e n => simp [ended]
      | ok a n => simp [ended,eq_comm]
  · cases header : (validate_block_header E flags b).run { s with skip_flags := flags } with
    | ok a m => exact absurd ((validate_block_header_ok E).mp header).2 valid
    | error e m => simp [valid]

/-- What `_apply_block` does once the header is checked. -/
def apply_checked (flags : Skip) (b : Block O) (maint_needed : Bool) : Exec R O Unit := do
  each (fun t => apply_transaction E t { flags with transaction_signatures := true }) b.transactions
  finish_block E b maint_needed

/-- A block is refused before anything changes, or its header is valid. -/
theorem apply_block_runs (b : Block O) (skip : Skip) (s : Node R O) :
    (∃ e, (apply_block E b skip).run s = .error e s) ∨
      ValidHeader E (checkpointed s.checkpoints b.block_num skip) b s.objects ∧
        (apply_block E b skip).run s = (with_skip_flags (checkpointed s.checkpoints b.block_num skip)
          (apply_checked E (checkpointed s.checkpoints b.block_num skip) b
            (s.objects.world.next_maintenance_time ≤ b.timestamp))).run s := by
  by_cases matching : MatchesCheckpoint s.checkpoints E.digest b
  swap
  · exact .inl (by simp [apply_block,matching])
  have unfolds : (apply_block E b skip).run s =
      (with_skip_flags (checkpointed s.checkpoints b.block_num skip) (_apply_block E b)).run s := by
    simp [apply_block,matching]
  rw [unfolds]
  generalize checkpointed s.checkpoints b.block_num skip = flags
  by_cases root : flags.merkle_check = true ∨ b.transaction_merkle_root = E.merkle_root b.transactions
  swap
  · exact .inl (by simp [run_with_skip_flags,_apply_block,root])
  cases header : (validate_block_header E flags b).run { s with skip_flags := flags } with
  | ok _ m =>
    obtain ⟨rfl,valid⟩ := (validate_block_header_ok E).mp header
    exact .inr ⟨valid,by simp [run_with_skip_flags,_apply_block,apply_checked,root,header]⟩
  | error e m =>
    have same : m = { s with skip_flags := flags } := by
      rcases run_validate_block_header E flags b { s with skip_flags := flags } with ⟨valid,_⟩ | ⟨e',invalid⟩
      · rw [header] at valid; cases valid
      · rw [header] at invalid; cases invalid; rfl
    exact .inl ⟨e,by simp [run_with_skip_flags,_apply_block,root,header,same]⟩

private theorem _apply_block_cases (b : Block O) (s : Node R O) :
    (∃ s', (_apply_block E b).run s = .ok () s' ∧ b.previous = s.objects.head_block_id ∧ Advanced E b s s') ∨
      ∃ e s', (_apply_block E b).run s = .error e s' ∧
        (Quiet s s' ∨ b.previous = s.objects.head_block_id ∧ Advanced E b s s') := by
  by_cases root : s.skip_flags.merkle_check = true ∨ b.transaction_merkle_root = E.merkle_root b.transactions
  swap
  · exact .inr ⟨.assert_exception "next_block.transaction_merkle_root == next_block.calculate_merkle_root()",s,
      by simp [_apply_block,root],.inl (quiet_composes.refl s)⟩
  rcases run_validate_block_header E s.skip_flags b s with ⟨valid,onTop⟩ | ⟨e,invalid⟩
  swap
  · exact .inr ⟨e,s,by simp [_apply_block,root,invalid],.inl (quiet_composes.refl s)⟩
  -- From here on the block names the head, and only `finish_block` moves it.
  have rest : Advances E b (do
      each (fun trx => apply_transaction E trx { s.skip_flags with transaction_signatures := true }) b.transactions
      finish_block E b (s.objects.world.next_maintenance_time ≤ b.timestamp)) := by
    refine advances_bind E (keeps_each quiet_composes (fun trx => ?_) _) fun _ => advances_finish_block E b _
    exact quiet_with_skip_flags (quiet_apply_transaction E trx) _
  have unfolds : (_apply_block E b).run s = EStateM.run (do
      each (fun trx => apply_transaction E trx { s.skip_flags with transaction_signatures := true }) b.transactions
      finish_block E b (s.objects.world.next_maintenance_time ≤ b.timestamp)) s := by
    simp [_apply_block,root,valid]
  rw [unfolds]
  rcases rest s with ⟨s',ran,advanced⟩ | ⟨e,s',ran,quiet | advanced⟩
  · exact .inl ⟨s',ran,onTop,advanced⟩
  · exact .inr ⟨e,s',ran,.inl quiet⟩
  · exact .inr ⟨e,s',ran,.inr ⟨onTop,advanced⟩⟩

/-- What applying a block comes to: the block is on the chain when it returns, and
    an exception leaves the chain alone or comes after the block was put on it. -/
theorem apply_block_cases (b : Block O) (skip : Skip) (s : Node R O) :
    (∃ s', (apply_block E b skip).run s = .ok () s' ∧ b.previous = s.objects.head_block_id ∧ Advanced E b s s') ∨
      ∃ e s', (apply_block E b skip).run s = .error e s' ∧
        (Quiet s s' ∨ b.previous = s.objects.head_block_id ∧ Advanced E b s s') := by
  by_cases matching : MatchesCheckpoint s.checkpoints E.digest b
  swap
  · exact .inr ⟨.assert_exception "Block did not match checkpoint",s,by simp [apply_block,matching],
      .inl (quiet_composes.refl s)⟩
  have unfolds : (apply_block E b skip).run s =
      (with_skip_flags (checkpointed s.checkpoints b.block_num skip) (_apply_block E b)).run s := by
    simp [apply_block,matching]
  rw [unfolds,run_with_skip_flags]
  generalize checkpointed s.checkpoints b.block_num skip = flags
  have core : (∃ s', (_apply_block E b).run { s with skip_flags := flags } = .ok () s' ∧
      b.previous = s.objects.head_block_id ∧ Advanced E b { s with skip_flags := flags } s') ∨
      ∃ e s', (_apply_block E b).run { s with skip_flags := flags } = .error e s' ∧
        (Quiet { s with skip_flags := flags } s' ∨
          b.previous = s.objects.head_block_id ∧ Advanced E b { s with skip_flags := flags } s') :=
    _apply_block_cases E b { s with skip_flags := flags }
  rcases core with ⟨s',ran,onTop,advanced⟩ | ⟨e,s',ran,ends⟩
  · rw [ran]
    exact .inl ⟨_,rfl,onTop,advanced_flags E advanced⟩
  · rw [ran]
    refine .inr ⟨e,_,rfl,?_⟩
    rcases ends with quiet | ⟨onTop,advanced⟩
    · exact .inl (quiet_flags quiet)
    · exact .inr ⟨onTop,advanced_flags E advanced⟩

/-! ### A block in a session of its own -/

omit E in
theorem covers_head {o : Objects R O} {l l' : List (Objects R O)} (covers : Covers o l l') :
    ∀ x ∈ l'.head?, SameHead x o ∨ x ∈ l.head? :=
  Snapshots.grown_head (show Snapshots.Grown (fun a b => SameHead b a) o l l' from covers)

/-- The block on top of the chain, when the state on top of the stack has the chain
    below it. -/
theorem sound_advance {b : Block O} {s : Node R O} (sound : Sound E.digest s)
    (onTop : b.previous = s.objects.head_block_id) (fresh : ∀ x ∈ s.undo.stack.head?, SameHead x s.objects) :
    Sound E.digest { s with objects := advance E b s.objects } := by
  have head := sound.consistent s.objects (List.mem_cons_self ..)
  have chain := sound.chain
  rw [List.isChain_cons] at chain
  refine ⟨?_,?_⟩
  · rw [List.isChain_cons]
    refine ⟨fun x top => .inr ⟨b,?_⟩,chain.2⟩
    show b :: s.objects.applied = b :: x.applied
    rw [(fresh x top).applied]
  · intro o member
    rcases List.mem_cons.mp member with rfl | member
    · exact consistent_advance head onTop
    · exact sound.consistent o (List.mem_cons_of_mem _ member)

omit E in
theorem advance_sameHead (E : Env R O) (b : Block O) {o o' : Objects R O} (same : SameHead o o') :
    SameHead (advance E b o) (advance E b o') :=
  ⟨congrArg (b :: ·) same.applied,rfl,rfl⟩

/-- Where applying a block inside a fresh session leads. -/
structure Within (b : Block O) (s m : Node R O) : Prop where
  sound : Sound E.digest s → Sound E.digest m
  head : SameHead m.objects s.objects ∨
    b.previous = s.objects.head_block_id ∧ SameHead m.objects (advance E b s.objects)
  top : ∀ x ∈ m.undo.stack.head?, SameHead x s.objects ∨
    b.previous = s.objects.head_block_id ∧ SameHead x (advance E b s.objects)
  enabled : m.undo.disabled = false
  fork_db : Pruned s.fork_db m.fork_db
  block_db : m.block_db = s.block_db
  checkpoints : m.checkpoints = s.checkpoints
  pending : SamePending s m

private theorem within_quiet {b : Block O} {s m : Node R O} (on : s.undo.disabled = false)
    (quiet : Quiet (insideSession false s) m) : Within E b s m where
  sound sound := by
    have entered : Sound E.digest (insideSession false s) := by
      refine sound_covers (t := insideSession false s) (.refl s.objects) ?_ sound
      rw [(started_inside (.inr on)).1]
      exact covers_push _ _
    exact sound_still quiet.toStill entered
  head := .inl quiet.head
  top x top := by
    rcases covers_head quiet.stack x top with same | base
    · exact .inl same
    · rw [(started_inside (.inr on)).1] at base
      obtain rfl : s.objects = x := by simpa using base
      exact .inl (.refl _)
  enabled := quiet.enabled (started_inside (.inr on)).2
  fork_db := quiet.fork_db
  block_db := quiet.block_db
  checkpoints := quiet.checkpoints
  pending := ⟨quiet.popped_tx,quiet.pending_tx,quiet.pending_session,quiet.skip_flags⟩

private theorem within_advanced {b : Block O} {s m : Node R O} (on : s.undo.disabled = false)
    (onTop : b.previous = s.objects.head_block_id) (advanced : Advanced E b (insideSession false s) m) :
    Within E b s m ∧ SameHead m.objects (advance E b s.objects) := by
  obtain ⟨n,before,after⟩ := advanced
  have first := within_quiet E (b := b) on before
  have fresh : ∀ x ∈ n.undo.stack.head?, SameHead x s.objects := by
    intro x top
    rcases covers_head before.stack x top with same | base
    · exact same
    · rw [(started_inside (.inr on)).1] at base
      obtain rfl : s.objects = x := by simpa using base
      exact .refl _
  have moved : SameHead m.objects (advance E b s.objects) :=
    after.head.trans (advance_sameHead E b before.head)
  have names : b.previous = n.objects.head_block_id := onTop.trans before.head.head_block_id.symm
  refine ⟨⟨fun sound => ?_,.inr ⟨onTop,moved⟩,fun x top => ?_,after.enabled first.enabled,?_,?_,?_,?_⟩,moved⟩
  · refine sound_still after.toStill (sound_advance E (first.sound sound) names fun x top => ?_)
    exact (fresh x top).trans ⟨before.head.applied.symm,before.head.head_block_id.symm,
      before.head.head_block_number.symm⟩
  · rcases covers_head after.stack x top with same | base
    · exact .inr ⟨onTop,same.trans (advance_sameHead E b before.head)⟩
    · exact .inl (fresh x base)
  · exact pruned_composes.trans before.fork_db after.fork_db
  · exact after.block_db.trans before.block_db
  · exact after.checkpoints.trans before.checkpoints
  · exact pending_composes.trans first.pending ⟨after.popped_tx,after.pending_tx,after.pending_session,after.skip_flags⟩

/-- Where `apply_and_store` leads, however it ends. -/
structure Attempted (id : BlockId) (b : Block O) (s s' : Node R O) : Prop where
  sound : Sound E.digest s → Sound E.digest s'
  head : SameHead s'.objects s.objects ∨
    b.previous = s.objects.head_block_id ∧ SameHead s'.objects (advance E b s.objects)
  enabled : s'.undo.disabled = false
  fork_db : Pruned s.fork_db s'.fork_db
  block_db : s'.block_db = s.block_db ∨ s'.block_db = BlockDatabase.store E.digest id b s.block_db
  checkpoints : s'.checkpoints = s.checkpoints
  pending : SamePending s s'

/-- What returning from `apply_and_store` says besides. -/
structure Accepted (id : BlockId) (b : Block O) (s s' : Node R O) : Prop extends Attempted E id b s s' where
  onTop : b.previous = s.objects.head_block_id
  moved : SameHead s'.objects (advance E b s.objects)
  stored : s'.block_db = BlockDatabase.store E.digest id b s.block_db

omit E in
theorem sound_popped {digest : Header → Nat} {s : Node R O} {x : Objects R O} {rest : List (Objects R O)}
    (sound : Sound digest s) (top : s.undo.stack = x :: rest) :
    (x :: rest).IsChain Below ∧ ∀ o ∈ x :: rest, Consistent digest o := by
  have chain := sound.chain
  rw [top,List.isChain_cons_cons] at chain
  exact ⟨chain.2,fun o member => sound.consistent o (by rw [top]; exact List.mem_cons_of_mem _ member)⟩

omit E in
theorem sound_undone {digest : Header → Nat} {s : Node R O} {x : Objects R O} {rest : List (Objects R O)} {n : Nat}
    (sound : Sound digest s) (top : s.undo.stack = x :: rest) :
    Sound digest { s with
      objects := x
      undo := { s.undo with stack := if rest.isEmpty then [x] else rest, active_sessions := n } } := by
  obtain ⟨chain,consistent⟩ := sound_popped sound top
  cases rest with
  | nil =>
    refine ⟨List.isChain_pair.mpr (.inl rfl),fun o member => ?_⟩
    simp only [List.isEmpty_nil,if_true,List.mem_cons,List.not_mem_nil,or_false,or_self] at member
    subst member
    exact consistent o (List.mem_cons_self ..)
  | cons y rest => exact ⟨chain,consistent⟩

private theorem attempted_of_within {id : BlockId} {b : Block O} {s m : Node R O} (within : Within E b s m)
    {B : BlockDatabase.Blocks O} {u : Snapshots.History (Objects R O)} (stack : u.stack = m.undo.stack)
    (on : u.disabled = false) (stored : B = s.block_db ∨ B = BlockDatabase.store E.digest id b s.block_db) :
    Attempted E id b s { m with block_db := B, undo := u } where
  sound sound := by
    obtain ⟨chain,consistent⟩ := within.sound sound
    refine ⟨?_,?_⟩
    · show (m.objects :: u.stack).IsChain Below
      rw [stack]; exact chain
    · show ∀ o ∈ m.objects :: u.stack, _
      rw [stack]; exact consistent
  head := within.head
  enabled := on
  fork_db := within.fork_db
  block_db := stored
  checkpoints := within.checkpoints
  pending := ⟨within.pending.popped_tx,within.pending.pending_tx,within.pending.pending_session,within.pending.skip_flags⟩

/-- The way out of the session after an exception. -/
private theorem attempted_undo {id : BlockId} {b : Block O} {s m : Node R O} (within : Within E b s m)
    {B : BlockDatabase.Blocks O} (stored : B = s.block_db ∨ B = BlockDatabase.store E.digest id b s.block_db) :
    Attempted E id b s (endState ((undo_session : Exec R O Unit).run { m with block_db := B })) := by
  rcases run_undo_session { m with block_db := B } with ⟨e,failed⟩ | ⟨x,rest,top,undone⟩
  · rw [failed]
    exact attempted_of_within E within rfl within.enabled stored
  · rw [undone]
    refine ⟨fun sound => ?_,?_,within.enabled,within.fork_db,stored,within.checkpoints,
      within.pending.popped_tx,within.pending.pending_tx,within.pending.pending_session,within.pending.skip_flags⟩
    · have inner : Sound E.digest { m with block_db := B } :=
        ⟨(within.sound sound).chain,(within.sound sound).consistent⟩
      exact sound_undone inner top
    · have member : x ∈ m.undo.stack.head? := by
        show x ∈ ({ m with block_db := B } : Node R O).undo.stack.head?
        rw [top]; rfl
      exact within.top x member

omit E in
private theorem run_commit (off : Bool) (s : Node R O) :
    (∃ e, (close_session .commit off : Exec R O Unit).run s = .error e s) ∨
      (close_session .commit off : Exec R O Unit).run s =
        .ok () { s with undo := { s.undo with active_sessions := s.undo.active_sessions - 1 } } := by
  by_cases none : s.undo.active_sessions = 0
  · exact .inl (by simp [close_session,Snapshots.commit,none])
  · exact .inr (by simp [close_session,Snapshots.commit,none])

theorem apply_and_store_cases (id : BlockId) (b : Block O) (skip : Skip) {s : Node R O}
    (on : s.undo.disabled = false) :
    (∃ s', (apply_and_store E id b skip).run s = .ok () s' ∧ Accepted E id b s s') ∨
      ∃ e s', (apply_and_store E id b skip).run s = .error e s' ∧ Attempted E id b s s' := by
  have off : (s.undo.disabled && false) = false := by simp
  unfold apply_and_store
  rw [run_with_session,off]
  have back : ∀ (e : Exc) {m : Node R O} {B : BlockDatabase.Blocks O}, Within E b s m →
      (B = s.block_db ∨ B = BlockDatabase.store E.digest id b s.block_db) →
      ∃ e' s', undoing e false { m with block_db := B } = .error e' s' ∧ Attempted E id b s s' := by
    intro e m B within stored
    have undone := attempted_undo E within stored
    unfold undoing
    generalize (undo_session : Exec R O Unit).run _ = result at undone ⊢
    cases result with
    | ok a s' => exact ⟨e,s',rfl,undone⟩
    | error e' s' => exact ⟨e',s',rfl,undone⟩
  rcases apply_block_cases E b skip (insideSession false s) with ⟨m,ran,onTop,advanced⟩ | ⟨e,m,ran,ends⟩
  · obtain ⟨within,moved⟩ := within_advanced E on onTop advanced
    have body : (do apply_block E b skip; onBlocks fun B => .ok (BlockDatabase.store E.digest id b B) : Exec R O Unit).run
        (insideSession false s) = .ok () { m with block_db := BlockDatabase.store E.digest id b m.block_db } := by
      rw [EStateM.run_bind,ran]
      rfl
    rw [EStateM.run_bind,body]
    simp only
    rcases run_commit false { m with block_db := BlockDatabase.store E.digest id b m.block_db } with
      ⟨e,failed⟩ | done
    · rw [failed]
      refine .inr (back e within (.inr ?_))
      rw [within.block_db]
    · rw [done]
      have stored : BlockDatabase.store E.digest id b m.block_db = BlockDatabase.store E.digest id b s.block_db := by
        rw [within.block_db]
      refine .inl ⟨_,rfl,?_⟩
      exact ⟨attempted_of_within E (u := { m.undo with active_sessions := m.undo.active_sessions - 1 }) within rfl
        within.enabled (.inr stored),onTop,moved,stored⟩
  · have within : Within E b s m := by
      rcases ends with quiet | ⟨onTop,advanced⟩
      · exact within_quiet E on quiet
      · exact (within_advanced E on onTop advanced).1
    have body : (do apply_block E b skip; onBlocks fun B => .ok (BlockDatabase.store E.digest id b B) : Exec R O Unit).run
        (insideSession false s) = .error e m := by
      rw [EStateM.run_bind,ran]
    rw [EStateM.run_bind,body]
    exact .inr (back e (B := m.block_db) within (.inl within.block_db))

end

end Decent.Database

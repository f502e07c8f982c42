import Decent.Unrepeated
import Decent.Agreement

/-!
What stays in the index that finds duplicate transactions. The loop that clears it looks
at the transaction that expires last, so it takes away all transactions or none: an
expired one stays for as long as a later one is there.
-/
namespace Decent.Database
open Decent.ObjectDatabase (Exc)
open Decent.Protocol
open Throwing

variable {R O : Type}

/-! ## The loop -/

/-- All of the transactions have expired, or none has. -/
def Unmixed (now : Nat) (ts : List (Transaction O)) : Prop :=
  (∀ t ∈ ts, t.expiration < now) ∨ ∀ t ∈ ts, now ≤ t.expiration

instance (now : Nat) (ts : List (Transaction O)) : Decidable (Unmixed now ts) := by
  unfold Unmixed; infer_instance

/-- The transactions of the index, in the order they were entered. -/
def indexed (o : Objects R O) : List (Transaction O) := o.transactions.map fun e => e.trx

/-- While one has not expired, the latest has not, and the loop stops at once. -/
theorem clear_expired_stops {now n : Nat} {table : List (TransactionObject O)} {e : TransactionObject O}
    (member : e ∈ table) (current : now ≤ e.trx.expiration) : clear_expired now n table = table := by
  cases n with
  | zero => rfl
  | succ n =>
    unfold clear_expired
    split
    · rfl
    next latest found =>
      have least := List.le_apply_get_maxOn?_of_mem (f := fun e => e.trx.expiration) member
      simp only [found,Option.get_some] at least
      rw [if_neg (by omega)]

/-- When all have expired, each round takes the latest away. -/
theorem clear_expired_empties {now n : Nat} {table : List (TransactionObject O)}
    (expired : ∀ e ∈ table, e.trx.expiration < now) (enough : table.length ≤ n) : clear_expired now n table = [] := by
  induction n generalizing table with
  | zero => simpa [clear_expired] using enough
  | succ n ih =>
    unfold clear_expired
    split
    next none =>
      rw [← Option.not_isSome_iff_eq_none,List.isSome_maxOn?_iff] at none
      exact not_not.mp none
    next latest found =>
      have member := List.maxOn?_mem found
      rw [if_pos (expired latest member)]
      refine ih (fun e inside => expired e (List.mem_of_mem_filter inside)) ?_
      have fewer : (table.filter fun t => decide (t.id ≠ latest.id)).length < table.length :=
        List.length_filter_lt_length_iff_exists.mpr ⟨latest,member,by simp⟩
      omega

theorem clear_expired_eq (now : Nat) (table : List (TransactionObject O)) :
    clear_expired now table.length table = if ∀ e ∈ table, e.trx.expiration < now then [] else table := by
  split
  next expired => exact clear_expired_empties expired (Nat.le_refl _)
  next mixed =>
    simp only [not_forall,Nat.not_lt] at mixed
    obtain ⟨e,member,current⟩ := mixed
    exact clear_expired_stops member current

/-- A call leaves exactly the current transactions unless some have expired and others
    have not. -/
theorem clear_exact_iff (now : Nat) (table : List (TransactionObject O)) :
    (clear_expired now table.length table).map (fun e => e.trx) =
        (table.map fun e => e.trx).filter (fun t => now ≤ t.expiration) ↔
      Unmixed now (table.map fun e => e.trx) := by
  rw [clear_expired_eq]
  by_cases expired : ∀ e ∈ table, e.trx.expiration < now
  · rw [if_pos expired]
    refine ⟨fun _ => .inl (by simpa using expired),fun _ => ?_⟩
    rw [List.map_nil,eq_comm,List.filter_eq_nil_iff]
    simpa using expired
  · rw [if_neg expired,eq_comm,List.filter_eq_self]
    simp only [decide_eq_true_eq]
    refine ⟨.inr,fun unmixed => unmixed.resolve_left fun all => expired ?_⟩
    simpa using all

/-! ## Blocks -/

/-- The head time and the index, which operations leave. -/
structure SameIndex (o o' : Objects R O) : Prop where
  time : o'.time = o.time
  transactions : o'.transactions = o.transactions

theorem sameIndex_composes : Composes (SameIndex : Objects R O → Objects R O → Prop) where
  refl _ := ⟨rfl,rfl⟩
  trans first second := ⟨second.time.trans first.time,second.transactions.trans first.transactions⟩

theorem sameIndex_neutral : Neutral (Carries (SameIndex : Objects R O → Objects R O → Prop)) :=
  neutral_carries sameIndex_composes fun _ _ _ _ => ⟨rfl,rfl⟩

/-- The transactions of a block that its application enters. -/
def entering (s : Node R O) (b : Block O) (skip : Skip) : List (Transaction O) :=
  if (checkpointed s.checkpoints b.block_num skip).transaction_dupe_check then [] else b.transactions

section
variable {E : Env R O}

theorem apply_transaction_entering {t : Transaction O} {flags : Skip} {s s' : Node R O}
    (ran : (apply_transaction E t flags).run s = .ok () s') :
    s'.objects.time = s.objects.time ∧
      indexed s'.objects = indexed s.objects ++ if flags.transaction_dupe_check then [] else [t] := by
  rw [apply_transaction,run_with_skip_flags] at ran
  split at ran
  swap
  · cases ran
  next m inner =>
  cases ran
  obtain ⟨_,_,got,inner⟩ := run_bind_ok.mp inner
  cases got
  obtain ⟨_,s₁,checked,inner⟩ := run_bind_ok.mp inner
  obtain ⟨rfl,-⟩ := check_transaction_ok checked
  obtain ⟨_,s₂,created,inner⟩ := run_bind_ok.mp inner
  obtain ⟨_,s₃,ops,inner⟩ := run_bind_ok.mp inner
  have later := keeps_each sameIndex_neutral.toComposes (neutral_apply_operation sameIndex_neutral E E.depth)
    t.operations s₂
  rw [ops] at later
  have same : SameIndex s₂.objects s₃.objects := later.objects
  have last : m = s₃ := by
    obtain ⟨_,_,got,inner⟩ := run_bind_ok.mp inner
    cases got
    rw [run_fc_assert] at inner
    split at inner
    · cases inner
      rfl
    · cases inner
  subst last
  show m.objects.time = _ ∧ indexed m.objects = _
  unfold provided at created
  cases skipped : flags.transaction_dupe_check with
  | true =>
    rw [if_neg (by simp [skipped])] at created
    cases created
    exact ⟨same.time,by simp [indexed,same.transactions]⟩
  | false =>
    rw [if_pos (by simp [skipped])] at created
    cases created
    exact ⟨same.time,by simp [indexed,same.transactions]⟩

theorem each_entering {flags : Skip} (ts : List (Transaction O)) {s s' : Node R O}
    (ran : (each (fun t => apply_transaction E t flags) ts).run s = .ok () s') :
    s'.objects.time = s.objects.time ∧
      indexed s'.objects = indexed s.objects ++ if flags.transaction_dupe_check then [] else ts := by
  induction ts generalizing s with
  | nil =>
    cases ran
    simp
  | cons t rest ih =>
    obtain ⟨_,m,first,more⟩ := run_bind_ok.mp ran
    obtain ⟨time,one⟩ := apply_transaction_entering first
    obtain ⟨time',others⟩ := ih more
    refine ⟨time'.trans time,?_⟩
    rw [others,one,List.append_assoc]
    cases flags.transaction_dupe_check <;> simp

/-- Up to the call that clears the index the rest of a block leaves it, and so does what
    follows the call. -/
theorem finish_block_index {b : Block O} {maint_needed : Bool} {s s' : Node R O}
    (ran : (finish_block E b maint_needed).run s = .ok () s') :
    s'.objects.time = b.timestamp ∧
      s'.objects.transactions = clear_expired b.timestamp s.objects.transactions.length s.objects.transactions := by
  obtain ⟨_,m₁,global,ran⟩ := run_bind_ok.mp ran
  obtain ⟨_,m₂,signing,ran⟩ := run_bind_ok.mp ran
  obtain ⟨_,m₃,counted,ran⟩ := run_bind_ok.mp ran
  obtain ⟨_,m₄,maintained,ran⟩ := run_bind_ok.mp ran
  obtain ⟨_,m₅,summarised,ran⟩ := run_bind_ok.mp ran
  obtain ⟨_,m₆,cleared,ran⟩ := run_bind_ok.mp ran
  obtain ⟨_,_,got,ran⟩ := run_bind_ok.mp ran
  cases got
  have composes := carries_composes (sameIndex_composes (R := R) (O := O))
  have index {x : Exec R O Unit} (keeps : Keeps (Carries SameIndex) x) {s s' : Node R O} (ran : x.run s = .ok () s') :
      SameIndex s.objects s'.objects := by
    have carries := keeps s
    rw [ran] at carries
    exact carries.objects
  have advanced : m₁.objects.time = b.timestamp ∧ m₁.objects.transactions = s.objects.transactions := by
    obtain ⟨n₁,world,objects,-⟩ := update_global_dynamic_data_ok global
    rw [objects]
    exact ⟨rfl,(index (neutral_onWorld sameIndex_neutral _) world).transactions⟩
  have before : SameIndex m₁.objects m₅.objects := by
    have signed := index (keeps_bind composes (neutral_onWorld sameIndex_neutral _) fun _ =>
      keeps_update fun s => carries_objects ⟨rfl,rfl⟩) signing
    have numbered := index (keeps_update_last_irreversible_block composes fun s _ => carries_objects ⟨rfl,rfl⟩) counted
    have world := index (keeps_provided composes _ (neutral_onWorld sameIndex_neutral _)) maintained
    have summary := index (keeps_update fun s => carries_objects ⟨rfl,rfl⟩) summarised
    exact sameIndex_composes.trans (sameIndex_composes.trans signed numbered) (sameIndex_composes.trans world summary)
  cases cleared
  have after := index (keeps_bind composes (neutral_clear_expired_proposals sameIndex_neutral E _) fun _ =>
    neutral_onWorld sameIndex_neutral _) ran
  refine ⟨after.time.trans (before.time.trans advanced.1),after.transactions.trans ?_⟩
  show clear_expired m₅.objects.time _ _ = _
  rw [before.time,advanced.1,before.transactions,advanced.2]

/-- One block: what it enters joins the index, and then the call decides by all of it. -/
theorem apply_block_index {b : Block O} {skip : Skip} {s s' : Node R O} (ran : (apply_block E b skip).run s = .ok () s') :
    s.objects.time < b.timestamp ∧ s'.objects.time = b.timestamp ∧
      (indexed s'.objects = (indexed s.objects ++ entering s b skip).filter (fun t => b.timestamp ≤ t.expiration) ↔
        Unmixed b.timestamp (indexed s.objects ++ entering s b skip)) := by
  obtain ⟨-,-,valid,m,n,transactions,finished,rfl⟩ := (apply_block_ok E rfl).mp ran
  obtain ⟨-,entered⟩ := each_entering b.transactions transactions
  obtain ⟨time,cleared⟩ := finish_block_index finished
  have whole : indexed m.objects = indexed s.objects ++ entering s b skip := entered
  refine ⟨valid.timestamp,time,?_⟩
  rw [← whole]
  show n.objects.transactions.map _ = _ ↔ _
  rw [cleared]
  exact clear_exact_iff b.timestamp m.objects.transactions

end

/-! ## Runs -/

/-- The index holds exactly the transactions that have not expired at the head. -/
def IndexExact (o : Objects R O) (entered : List (Transaction O)) : Prop :=
  indexed o = entered.filter fun t => o.time ≤ t.expiration

/-- The objects after a run of applied blocks, with all transactions it has entered. In
    each block the index, with what the block enters, meets a condition at the new head
    time. Between two blocks the node around the objects may change in any way. -/
inductive EnteredRun (E : Env R O) (C : Nat → List (Transaction O) → Prop) (genesis : Objects R O) :
    Objects R O → List (Transaction O) → Prop
  | genesis : EnteredRun E C genesis genesis []
  | block {s s' : Node R O} {entered : List (Transaction O)} (b : Block O) (skip : Skip) :
      EnteredRun E C genesis s.objects entered → C b.timestamp (indexed s.objects ++ entering s b skip) →
      (apply_block E b skip).run s = .ok () s' → EnteredRun E C genesis s'.objects (entered ++ entering s b skip)

section
variable {E : Env R O}

theorem filter_later {now later : Nat} (after : now ≤ later) (ts : List (Transaction O)) :
    (ts.filter fun t => now ≤ t.expiration).filter (fun t => later ≤ t.expiration) =
      ts.filter fun t => later ≤ t.expiration := by
  rw [List.filter_filter]
  refine List.filter_congr fun t _ => ?_
  by_cases current : later ≤ t.expiration
  · simp [current,Nat.le_trans after current]
  · simp [current]

/-- A block keeps the index exact if and only if the transactions in it have all expired
    or have all not. -/
theorem block_exact_iff {b : Block O} {skip : Skip} {s s' : Node R O} {entered : List (Transaction O)}
    (exact : IndexExact s.objects entered) (ran : (apply_block E b skip).run s = .ok () s') :
    IndexExact s'.objects (entered ++ entering s b skip) ↔
      Unmixed b.timestamp (indexed s.objects ++ entering s b skip) := by
  obtain ⟨later,time,decided⟩ := apply_block_index ran
  rw [← decided,IndexExact,time,List.filter_append,List.filter_append,exact,
    filter_later (Nat.le_of_lt later)]

/-- With no mixture of expired and current transactions at any of its blocks, a run
    leaves exactly the current ones in the index; a mixture always leaves another. -/
theorem expired_transactions_leave {genesis : Objects R O} (empty : genesis.transactions = []) :
    (∀ o entered, EnteredRun E Unmixed genesis o entered → IndexExact o entered) ∧
      ∀ (s s' : Node R O) (entered : List (Transaction O)) (b : Block O) (skip : Skip), IndexExact s.objects entered →
        (apply_block E b skip).run s = .ok () s' →
        (IndexExact s'.objects (entered ++ entering s b skip) ↔
          Unmixed b.timestamp (indexed s.objects ++ entering s b skip)) := by
  refine ⟨fun o entered run => ?_,fun s s' entered b skip exact ran => block_exact_iff exact ran⟩
  induction run with
  | genesis => simp [IndexExact,indexed,empty]
  | block b skip run unmixed ran ih => exact (block_exact_iff ih ran).mpr unmixed

end

/-! ## Two blocks -/

/-- The node after a block. -/
def afterBlock (s : Node Unit Unit) (b : Block Unit) : Node Unit Unit :=
  endState ((apply_block quietEnv b .nothing).run s)

/-- A transaction that expires at a time. -/
def expiring (expiration : Nat) : Transaction Unit := ⟨⟨0,0,expiration,[.other ()]⟩,[3]⟩

/-- A first block with transactions that expire at the times. -/
def expiringBlock (expirations : List Nat) : Block Unit := ⟨⟨.zero,1,0,0,0⟩,expirations.map expiring⟩

/-- An empty block on top of it, at time 50. -/
def laterBlock (expirations : List Nat) : Block Unit := emptyBlock ((expiringBlock expirations).id pairDigest) 50

theorem expired_transactions_leave_both :
    indexed (afterBlock (afterBlock quietStart (expiringBlock [40,30])) (laterBlock [40,30])).objects = [] := by
  obtain ⟨exact_run,-⟩ := expired_transactions_leave (E := quietEnv) (show quietGenesis.transactions = [] from rfl)
  have first : EnteredRun quietEnv Unmixed quietGenesis (afterBlock quietStart (expiringBlock [40,30])).objects
      ([] ++ entering quietStart (expiringBlock [40,30]) .nothing) :=
    .block (s := quietStart) _ .nothing .genesis (by decide +kernel) (run_of_returned (by decide +kernel))
  have second := exact_run _ _ (.block _ .nothing first (by decide +kernel)
    (run_of_returned (x := apply_block quietEnv (laterBlock [40,30]) .nothing) (by decide +kernel)))
  refine second.trans (List.filter_eq_nil_iff.mpr ?_)
  decide +kernel

/-- The transaction that expired at 40 is still in the index at 50: the other one, which
    expires at 60, keeps it there. -/
theorem expired_transaction_stays :
    ¬ ∀ o entered, EnteredRun quietEnv (fun _ _ => True) quietGenesis o entered → IndexExact o entered := by
  intro all
  have first : EnteredRun quietEnv (fun _ _ => True) quietGenesis (afterBlock quietStart (expiringBlock [40,60])).objects
      ([] ++ entering quietStart (expiringBlock [40,60]) .nothing) :=
    .block (s := quietStart) _ .nothing .genesis trivial (run_of_returned (by decide +kernel))
  have second : IndexExact (afterBlock (afterBlock quietStart (expiringBlock [40,60])) (laterBlock [40,60])).objects _ :=
    all _ _ (.block _ .nothing first trivial
      (run_of_returned (x := apply_block quietEnv (laterBlock [40,60]) .nothing) (by decide +kernel)))
  have kept : ((indexed (afterBlock (afterBlock quietStart (expiringBlock [40,60])) (laterBlock [40,60])).objects).map
      fun t => t.expiration) = [40,60] := by decide +kernel
  have time : (afterBlock (afterBlock quietStart (expiringBlock [40,60])) (laterBlock [40,60])).objects.time = 50 := by
    decide +kernel
  have expired : ∃ t ∈ indexed (afterBlock (afterBlock quietStart (expiringBlock [40,60])) (laterBlock [40,60])).objects,
      t.expiration = 40 := by
    have member : 40 ∈ [40,60] := by decide
    rw [← kept] at member
    exact List.mem_map.mp member
  obtain ⟨t,member,expiration⟩ := expired
  have current := List.mem_filter.mp (second ▸ member)
  rw [time,expiration] at current
  exact absurd current.2 (by decide)

end Decent.Database

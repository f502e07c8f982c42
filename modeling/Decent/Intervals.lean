import Decent.Slots
import Decent.MinerBudget
import Mathlib.Order.Bounds.Basic

/-!
The interval from one maintenance to the next, whose end the source computes twice: in the
housekeeping, for the renewals, and when the next maintenance is scheduled.
-/
namespace Decent.Money
open Throwing

/-! ### The end of the interval -/

/-- What `decent_housekeeping` does before the renewals. -/
def expire : M Unit := do
  reset_seeding_stats
  let L ← get
  let lower := later L.properties.last_budget_time L.parameters.block_interval
  expire_contents (scan Content.expiration lower L.properties.time L.contents.table.rows)
  let L ← get
  expire_buyings (scan Buying.expiration_time lower L.properties.time L.buyings.table.rows)

instance {P : Prop} : Within (Working P) expire := by
  unfold expire
  infer_instance

/-- `next_maintenance_time` as `decent_housekeeping` computes it, from the parameters to come if there
    are any. -/
def next_maintenance_time_ahead (L : Ledger) : Nat :=
  let dpo := L.properties
  let maintenance_interval :=
    match L.pending_parameters with
    | some pending => pending.maintenance_interval
    | none => L.parameters.maintenance_interval
  if dpo.head_block_number = 1 then
    (dpo.time / maintenance_interval + 1) * maintenance_interval % 2^32
  else
    let y := ((dpo.time : Int) - dpo.next_maintenance_time).tdiv maintenance_interval
    ((dpo.next_maintenance_time + (y + 1) * maintenance_interval) % 2^32).toNat

/-- The parameters to come take effect. -/
def Ledger.move_parameters (L : Ledger) : Ledger :=
  { L with parameters := L.pending_parameters.getD L.parameters, pending_parameters := none }

/-- `next_maintenance_time` as `perform_chain_maintenance` computes it for a block, when the
    parameters have been moved. -/
def next_maintenance_time_of_block (timestamp block_num : Nat) (L : Ledger) : Nat :=
  let maintenance_interval := L.parameters.maintenance_interval
  if L.properties.next_maintenance_time ≤ timestamp then
    if block_num = 1 then
      (timestamp / maintenance_interval + 1) * maintenance_interval % 2^32
    else
      let y := ((L.properties.time : Int) - L.properties.next_maintenance_time).tdiv maintenance_interval
      ((L.properties.next_maintenance_time + (y + 1) * maintenance_interval) % 2^32).toNat
  else L.properties.next_maintenance_time

theorem next_maintenance_time_ahead_eq (L : Ledger) :
    next_maintenance_time_ahead L = next_time L.properties (L.pending_parameters.getD L.parameters).maintenance_interval := by
  unfold next_maintenance_time_ahead next_time
  cases L.pending_parameters <;> rfl

/-- The head block is the one that is applied. -/
theorem next_maintenance_time_of_block_eq {L : Ledger} (due : L.properties.next_maintenance_time ≤ L.properties.time) :
    next_maintenance_time_of_block L.properties.time L.properties.head_block_number L =
      next_time L.properties L.parameters.maintenance_interval := by
  unfold next_maintenance_time_of_block next_time
  rw [if_pos due]

theorem decent_housekeeping_eq : decent_housekeeping = (do
    expire
    renew_subscriptions (next_maintenance_time_ahead (← get))) := by
  have ahead (L : Ledger) : renew_subscriptions (next_maintenance_time_ahead L) =
      renew_subscriptions (next_time L.properties (L.pending_parameters.getD L.parameters).maintenance_interval) := by
    rw [next_maintenance_time_ahead_eq]
  simp only [ahead]
  unfold decent_housekeeping expire
  simp only [bind_assoc]

/-- Steps from a time up to now pass now with the one after those that fit. -/
theorem isLeast_steps {start time step : Nat} (positive : 0 < step) (past : start ≤ time) :
    IsLeast {t | time < t ∧ ∃ k, t = start + k * step} (start + ((time - start) / step + 1) * step) := by
  constructor
  · refine ⟨?_,_,rfl⟩
    have := Nat.lt_div_mul_add positive (a := time - start)
    rw [Nat.add_one_mul]
    omega
  · rintro t ⟨ahead,k,rfl⟩
    have more : (time - start) / step < k := (Nat.div_lt_iff_lt_mul positive).mpr (by omega)
    exact Nat.add_le_add_left (Nat.mul_le_mul_right step more) start

/-- The times at which the interval that begins with a maintenance may end. -/
def interval_ends (L : Ledger) (maintenance_interval : Nat) : Set Nat :=
  { t | L.properties.time < t ∧ if L.properties.head_block_number = 1 then maintenance_interval ∣ t
    else ∃ k, t = L.properties.next_maintenance_time + k * maintenance_interval }

/-- The first of them. -/
def interval_end (L : Ledger) (maintenance_interval : Nat) : Nat :=
  if L.properties.head_block_number = 1 then (L.properties.time / maintenance_interval + 1) * maintenance_interval
  else L.properties.next_maintenance_time +
    ((L.properties.time - L.properties.next_maintenance_time) / maintenance_interval + 1) * maintenance_interval

section
variable {L : Ledger} {maintenance_interval : Nat}

/-- However many intervals were missed. -/
theorem isLeast_interval_end (positive : 0 < maintenance_interval)
    (due : L.properties.next_maintenance_time ≤ L.properties.time) :
    IsLeast (interval_ends L maintenance_interval) (interval_end L maintenance_interval) := by
  unfold interval_ends interval_end
  split
  case isTrue first =>
    simpa [first,dvd_iff_exists_eq_mul_left] using isLeast_steps positive (Nat.zero_le L.properties.time)
  case isFalse later =>
    simpa [later] using isLeast_steps positive due

/-- Within 32 bits of seconds the source finds it. -/
theorem next_time_eq (due : L.properties.next_maintenance_time ≤ L.properties.time)
    (below : interval_end L maintenance_interval < 2^32) :
    next_time L.properties maintenance_interval = interval_end L maintenance_interval := by
  unfold next_time
  unfold interval_end at below ⊢
  split at below
  case isTrue first =>
    rw [if_pos first,if_pos first,Nat.mod_eq_of_lt below]
  case isFalse later =>
    have y : ((L.properties.time : Int) - L.properties.next_maintenance_time).tdiv maintenance_interval =
        ((L.properties.time - L.properties.next_maintenance_time) / maintenance_interval : Nat) := by
      rw [← Int.ofNat_sub due]
      rfl
    have sum : (L.properties.next_maintenance_time : Int) + (((L.properties.time : Int) -
        L.properties.next_maintenance_time).tdiv maintenance_interval + 1) * maintenance_interval =
        (L.properties.next_maintenance_time + ((L.properties.time - L.properties.next_maintenance_time) /
          maintenance_interval + 1) * maintenance_interval : Nat) := by
      rw [y]
      push_cast
      rfl
    rw [if_neg later,if_neg later]
    dsimp only
    rw [sum]
    omega

end

/-- A maintenance ends the interval at the first time that is due after the head block, and its
    housekeeping renews the subscriptions up to that same time. -/
theorem next_maintenance_least (L L' : Ledger) (ran : EStateM.run (perform .maintenance) L = .ok () L') (t : Nat)
    (isLeast : IsLeast (interval_ends L (L.pending_parameters.getD L.parameters).maintenance_interval) t)
    (below : t < 2^32) :
    L'.properties.next_maintenance_time = t ∧
      ∃ L₁ L₂, EStateM.run expire L = .ok () L₁ ∧ next_maintenance_time_ahead L₁ = t ∧
        EStateM.run (renew_subscriptions t) L₁ = .ok () L₂ ∧ EStateM.run decent_housekeeping L = .ok () L₂ ∧
        next_maintenance_time_of_block L.properties.time L.properties.head_block_number L₂.move_parameters = t := by
  obtain ⟨_,due,ran⟩ := run_observe_bind.mp (run_get_bind.mp ran)
  have due : L.properties.next_maintenance_time ≤ L.properties.time := fc_assert_ok.mp due
  have positive : 0 < (L.pending_parameters.getD L.parameters).maintenance_interval :=
    Nat.zero_lt_of_lt (L.pending_parameters.getD L.parameters).interval_below
  obtain rfl := isLeast.unique (isLeast_interval_end positive due)
  have least := next_time_eq due below
  obtain ⟨_,_,-,-,-,properties⟩ := maintained_budget due ran
  simp only [perform_chain_maintenance,run_bind_ok,run_observe] at ran
  obtain ⟨_,_,⟨-,rfl⟩,_,L₂,housekept,-⟩ := ran
  have split := housekept
  rw [decent_housekeeping_eq] at split
  obtain ⟨_,L₁,expired,renewed⟩ := run_bind_ok.mp split
  have expiring : Working True L L₁ := Within.ok inferInstance expired
  have keeping : Working True L L₂ := Within.ok inferInstance housekept
  have ahead : next_maintenance_time_ahead L₁ =
      next_time L.properties (L.pending_parameters.getD L.parameters).maintenance_interval := by
    rw [next_maintenance_time_ahead_eq,expiring.properties,expiring.parameters,expiring.pending_parameters trivial]
  have moved : L₂.move_parameters.properties = L.properties := keeping.properties
  have after : next_maintenance_time_of_block L.properties.time L.properties.head_block_number L₂.move_parameters =
      next_time L.properties (L.pending_parameters.getD L.parameters).maintenance_interval := by
    rw [← moved,next_maintenance_time_of_block_eq (by rw [moved]; exact due),Ledger.move_parameters,keeping.parameters,
      keeping.pending_parameters trivial]
  refine ⟨by rw [properties]; exact least,L₁,L₂,expired,ahead.trans least,?_,housekept,after.trans least⟩
  rw [← least,← ahead]
  exact renewed

/-- After a first maintenance others are missed for more than a day, and an interval of fourteen seconds
    is to come. -/
def delayed : List Action := [.header 1530000005,.maintenance,
  .settings (MinerUpdateGlobalParametersOperation.mk ⟨0,core⟩ odd_parameters).change,.header 1530200000]

theorem next_maintenance_delayed : ∃ L', EStateM.run (perform .maintenance) (after_actions delayed) = .ok () L' ∧
    L'.properties.next_maintenance_time = 1530200008 := by
  have ran := run_of_returned (x := perform .maintenance) (s := after_actions delayed) (by decide +kernel)
  have due : (after_actions delayed).properties.next_maintenance_time ≤ (after_actions delayed).properties.time := by
    decide +kernel
  have ends : interval_end (after_actions delayed)
      ((after_actions delayed).pending_parameters.getD (after_actions delayed).parameters).maintenance_interval =
        1530200008 := by decide +kernel
  refine ⟨_,ran,(next_maintenance_least _ _ ran _ (isLeast_interval_end ?_ due) ?_).1.trans ends⟩
  · exact Nat.zero_lt_of_lt (Parameters.interval_below _)
  · rw [ends]
    decide

end Decent.Money

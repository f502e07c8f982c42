import Decent.Vesting

/-!
Linear vesting balances. What was withdrawn already is not kept: it is what the balance lacks of the
one it began with, so each withdrawal relies on what all those before it have left.
-/
namespace Decent.Money

/-- What has vested at `t` of a balance that vests from `start` on. -/
def total_vested (start duration : Nat) (begin_balance : Int) (t : Nat) : Int :=
  if t - start < duration then begin_balance * (t - start : Nat) / duration else begin_balance

/-- A policy of `linear_vesting_policy`, with the fields of their types. -/
structure LinearTerms where
  begin_timestamp : Nat
  vesting_cliff_seconds : Nat
  vesting_duration_seconds : Nat
  begin_balance : Int
  begins : begin_timestamp < 2^32
  cliff : vesting_cliff_seconds < 2^32
  duration : vesting_duration_seconds < 2^32
  positive : 0 < begin_balance
  fits : begin_balance < 2^63

def LinearTerms.initializer (s : LinearTerms) : VestingPolicyInitializer :=
  .linear s.begin_timestamp s.vesting_cliff_seconds s.vesting_duration_seconds

def LinearTerms.vested (s : LinearTerms) (t : Nat) : Int :=
  total_vested s.begin_timestamp s.vesting_duration_seconds s.begin_balance t

/-- The vesting balances of all runs on these terms, with the time they have come to and all that was withdrawn. -/
inductive Withdrawn (s : LinearTerms) : Nat → VestingBalance → Int → Prop
  | create {owner : AccountId} {asset_id : AssetId} {now : Nat} : Withdrawn s now
      ⟨owner,⟨s.begin_balance,asset_id⟩,s.initializer.init s.begin_balance now⟩ 0
  | withdraw {now now' : Nat} {v v' : VestingBalance} {total : Int} {amount : Asset} (before : Withdrawn s now v total)
      (clock : now ≤ now') (fits : now' < 2^32) (some : 0 < amount.amount)
      (done : (VestingAction.withdraw amount).perform now' v = .ok v') : Withdrawn s now' v' (total + amount.amount)

theorem vested_nonneg (s : LinearTerms) (t : Nat) : 0 ≤ s.vested t := by
  have := s.positive
  unfold LinearTerms.vested total_vested
  split
  · exact Int.ediv_nonneg (Int.mul_nonneg (Int.le_of_lt s.positive) (Int.natCast_nonneg _)) (Int.natCast_nonneg _)
  · exact Int.le_of_lt s.positive

theorem vested_le (s : LinearTerms) (t : Nat) : s.vested t ≤ s.begin_balance := by
  unfold LinearTerms.vested total_vested
  split
  case isTrue early =>
    have positive : (0 : Int) < s.vesting_duration_seconds := by omega
    refine Int.ediv_le_of_le_mul positive (Int.mul_le_mul_of_nonneg_left ?_ (Int.le_of_lt s.positive))
    exact_mod_cast Nat.le_of_lt early
  case isFalse => exact Int.le_refl _

/-- What has vested stays vested. -/
theorem vested_mono (s : LinearTerms) {t t' : Nat} (later : t ≤ t') : s.vested t ≤ s.vested t' := by
  by_cases ended : t' - s.begin_timestamp < s.vesting_duration_seconds
  · have early : t - s.begin_timestamp < s.vesting_duration_seconds := by omega
    have positive : (0 : Int) < s.vesting_duration_seconds := by omega
    unfold LinearTerms.vested total_vested
    rw [if_pos ended,if_pos early]
    refine Int.ediv_le_ediv positive (Int.mul_le_mul_of_nonneg_left ?_ (Int.le_of_lt s.positive))
    exact_mod_cast Nat.sub_le_sub_right later _
  · have whole : s.vested t' = s.begin_balance := if_neg ended
    rw [whole]
    exact vested_le s t

/-- When the cliff has passed. -/
def LinearTerms.passed (s : LinearTerms) (t : Nat) : Prop :=
  s.begin_timestamp < t ∧ s.begin_timestamp + s.vesting_cliff_seconds ≤ t

instance (s : LinearTerms) (t : Nat) : Decidable (s.passed t) := inferInstanceAs (Decidable (_ ∧ _))

/-- What may be withdrawn at `t`, of what is left. -/
def LinearTerms.allowed (s : LinearTerms) (total : Int) (t : Nat) : Int := if s.passed t then s.vested t - total else 0

/-- The code's product does not wrap. -/
theorem total_vested_eq (s : LinearTerms) {t : Nat} (fits : t < 2^32) :
    (if t - s.begin_timestamp < s.vesting_duration_seconds then
      uint128 (uint128 s.begin_balance * (t - s.begin_timestamp : Nat)) / s.vesting_duration_seconds
    else s.begin_balance) = s.vested t := by
  have positive := s.positive
  have small := s.fits
  have product := amount_seconds_small (t - s.begin_timestamp) (Int.le_of_lt positive) small (by omega)
  rw [uint128_of_small (v := s.begin_balance) (Int.le_of_lt positive) (by omega),uint128_of_small product.1 (by omega)]
  rfl

/-- The code's amount is that: what was withdrawn already is what the balance lacks. -/
theorem get_allowed_withdraw_eq (s : LinearTerms) (now : Nat) {balance amount : Asset} {total : Int} {t : Nat}
    (left : balance.amount = s.begin_balance - total) (nonneg : 0 ≤ total) (bounded : total ≤ s.begin_balance)
    (fits : t < 2^32) : (s.initializer.init s.begin_balance now).get_allowed_withdraw balance amount t =
      .ok ⟨s.allowed total t,amount.asset_id⟩ := by
  have positive := s.positive
  have small := s.fits
  have vested_nonneg := vested_nonneg s t
  have vested_le := vested_le s t
  have reached : s.begin_timestamp < t ∧ s.vesting_cliff_seconds ≤ t - s.begin_timestamp ↔ s.passed t := by
    unfold LinearTerms.passed
    omega
  have withdrawn_already : checked (s.begin_balance - balance.amount) = .ok total :=
    checked_ok.mpr ⟨⟨by omega,by omega⟩,by omega⟩
  have allowed_withdraw : checked (s.vested t - total) = .ok (s.vested t - total) :=
    checked_ok.mpr ⟨⟨by omega,by omega⟩,rfl⟩
  simp only [LinearTerms.initializer,VestingPolicyInitializer.init,VestingPolicy.get_allowed_withdraw,reached,
    total_vested_eq s fits,LinearTerms.allowed,withdrawn_already]
  split
  · exact bind_ok.mpr ⟨total,rfl,bind_ok.mpr ⟨_,allowed_withdraw,rfl⟩⟩
  · rfl

/-- What a run has left: the balance lacks what was withdrawn, and no more than has vested. -/
inductive Left (s : LinearTerms) (now : Nat) : VestingBalance → Int → Prop
  | rest {owner : AccountId} {balance : Asset} {created : Nat} {total : Int}
      (left : balance.amount = s.begin_balance - total) (nonneg : 0 ≤ total) (within : total ≠ 0 → s.passed now ∧ total ≤ s.vested now) :
      Left s now ⟨owner,balance,s.initializer.init s.begin_balance created⟩ total

theorem Left.le_begin {s : LinearTerms} {now : Nat} {v : VestingBalance} {total : Int} (left : Left s now v total) :
    total ≤ s.begin_balance := by
  obtain ⟨-,-,within⟩ := left
  have := s.positive
  by_cases zero : total = 0
  · omega
  · exact Int.le_trans (within zero).2 (vested_le s now)

theorem Left.withdraw {s : LinearTerms} {now now' : Nat} {v v' : VestingBalance} {total : Int} {amount : Asset}
    (left : Left s now v total) (fits : now' < 2^32) (some : 0 < amount.amount)
    (done : (VestingAction.withdraw amount).perform now' v = .ok v') : Left s now' v' (total + amount.amount) := by
  have bounded := left.le_begin
  obtain @⟨owner,balance,created,_,rest,nonneg,within⟩ := left
  obtain ⟨asked,rfl⟩ := VestingAction.withdraw_ok done
  simp only [VestingBalance.is_withdraw_allowed,LinearTerms.initializer,VestingPolicyInitializer.init] at asked
  split at asked
  case isFalse => cases asked
  case isTrue =>
    obtain ⟨allowed,read,atMost⟩ := bind_ok.mp asked
    cases (get_allowed_withdraw_eq s created rest nonneg bounded fits).symm.trans read
    have allowed_le : amount.amount ≤ s.allowed total now' := (Asset.at_most_true atMost).2
    unfold LinearTerms.allowed at allowed_le
    split at allowed_le
    case isFalse => omega
    case isTrue passed =>
      have less : balance.amount - amount.amount = s.begin_balance - (total + amount.amount) := by omega
      show Left s now' ⟨owner,⟨balance.amount - amount.amount,balance.asset_id⟩,s.initializer.init s.begin_balance created⟩ _
      exact .rest less (by omega) fun _ => ⟨passed,by omega⟩

/-- What is said of a balance at `now`, after `total` was withdrawn; `due` is the time at which all is there. -/
structure Scheduled (due : LinearTerms → Nat → Prop) (s : LinearTerms) (now : Nat) (v : VestingBalance) (total : Int) : Prop where
  within : ∀ t, now ≤ t → total ≤ s.vested t
  cliff : total ≠ 0 → s.begin_timestamp + s.vesting_cliff_seconds ≤ now
  allowed : ∀ t amount, now ≤ t → t < 2^32 → ∃ x, v.policy.get_allowed_withdraw v.balance amount t = .ok x ∧ 0 ≤ x.amount ∧
    (due s t → x.amount = v.balance.amount) ∧ ∀ t', t ≤ t' → t' < 2^32 →
      ∃ x', v.policy.get_allowed_withdraw v.balance amount t' = .ok x' ∧ x.amount ≤ x'.amount

/-- Both the duration and the cliff are over. -/
def run_out (s : LinearTerms) (t : Nat) : Prop :=
  s.begin_timestamp < t ∧ s.begin_timestamp + s.vesting_duration_seconds ≤ t ∧
    s.begin_timestamp + s.vesting_cliff_seconds ≤ t

theorem Withdrawn.left {s : LinearTerms} {now : Nat} {v : VestingBalance} {total : Int} (withdrawn : Withdrawn s now v total) :
    Left s now v total := by
  induction withdrawn with
  | create => exact .rest (Int.sub_zero _).symm (Int.le_refl _) fun some => absurd rfl some
  | withdraw before clock fits some done ih => exact ih.withdraw fits some done

/-- Of a linear vesting balance no more is withdrawn than has vested and nothing before the cliff; what may be
    withdrawn grows with time, and is all there is once duration and cliff are over. -/
theorem linear_vesting_scheduled (s : LinearTerms) (now : Nat) (v : VestingBalance) (total : Int)
    (withdrawn : Withdrawn s now v total) : Scheduled run_out s now v total := by
  have left := withdrawn.left
  have bounded := left.le_begin
  obtain @⟨owner,balance,created,_,rest,nonneg,within⟩ := left
  have paid {t : Nat} (later : now ≤ t) : total ≤ s.vested t := by
    by_cases zero : total = 0
    · rw [zero]
      exact vested_nonneg s t
    · exact Int.le_trans (within zero).2 (vested_mono s later)
  refine ⟨fun t later => paid later,fun some => (within some).1.2,fun t amount later fits => ?_⟩
  refine ⟨_,get_allowed_withdraw_eq s created rest nonneg bounded fits,?_,fun due => ?_,fun t' later' fits' =>
    ⟨_,get_allowed_withdraw_eq s created rest nonneg bounded fits',?_⟩⟩
  · show 0 ≤ s.allowed total t
    have := paid later
    unfold LinearTerms.allowed
    split <;> omega
  · have whole : s.vested t = s.begin_balance := if_neg (by have := due.2.1; omega)
    show s.allowed total t = balance.amount
    rw [LinearTerms.allowed,if_pos ⟨due.1,due.2.2⟩,whole,rest]
  · show s.allowed total t ≤ s.allowed total t'
    have grows := vested_mono s later'
    have := paid (Nat.le_trans later later')
    unfold LinearTerms.allowed
    by_cases passed : s.passed t
    · have passed' : s.passed t' := ⟨Nat.lt_of_lt_of_le passed.1 later',Nat.le_trans passed.2 later'⟩
      rw [if_pos passed,if_pos passed']
      omega
    · rw [if_neg passed]
      split <;> omega

/-- A hundred vest in a hundred seconds, none before ten have passed. -/
def century : LinearTerms := ⟨1530000000,10,100,100,by decide,by decide,by decide,by decide,by decide⟩

/-- Half of it is withdrawn half way. -/
theorem linear_vesting_scheduled_half : ∃ v, Withdrawn century 1530000050 v 50 ∧ Scheduled run_out century 1530000050 v 50 := by
  have created : Withdrawn century 1529999999 ⟨4,⟨100,core⟩,.linear 1530000000 10 100 100⟩ 0 := .create
  have taken : Withdrawn century 1530000050 ⟨4,⟨50,core⟩,.linear 1530000000 10 100 100⟩ (0 + 50) :=
    @Withdrawn.withdraw _ _ _ _ _ _ ⟨50,core⟩ created (by decide) (by decide) (by decide) rfl
  exact ⟨_,taken,linear_vesting_scheduled century _ _ _ taken⟩

/-- With a cliff of two hundred seconds nothing may be withdrawn when the duration is over. -/
theorem linear_vesting_cliff : ¬ ∀ (s : LinearTerms) now v total, Withdrawn s now v total →
    Scheduled (fun s t => s.begin_timestamp + s.vesting_duration_seconds < t) s now v total := by
  intro scheduled
  let steep : LinearTerms := ⟨1530000000,200,100,100,by decide,by decide,by decide,by decide,by decide⟩
  have created : Withdrawn steep 1530000000 ⟨4,⟨100,core⟩,.linear 1530000000 200 100 100⟩ 0 := .create
  obtain ⟨x,read,-,whole,-⟩ := (scheduled steep _ _ _ created).allowed 1530000150 ⟨0,core⟩ (by decide) (by decide)
  cases read
  exact absurd (whole (by decide)) (by decide)

end Decent.Money

import Decent.Evaluators
import Mathlib.Tactic.GCongr
import Mathlib.Tactic.NormNum
import Mathlib.Tactic.Positivity
import Mathlib.Tactic.Ring

/-!
Vesting balances of coin days destroyed. What has vested is kept in coin seconds, brought up to date and capped
each time the balance is touched; deposits that are vested already raise it before the balance grows.
-/
namespace Decent.Money
open Throwing

/-! ### What is done with a vesting balance -/

/-- What an `int64_t` keeps of a product. -/
def int64 (v : Int) : Int := v.bmod (2^64)

/-- `on_deposit_vested` of both policies; of the product of amount and seconds 64 bits are kept. -/
def VestingPolicy.on_deposit_vested (policy : VestingPolicy) (balance amount : Int) (now : Nat) :
    Except Fault VestingPolicy :=
  match policy with
  | .linear .. => .error .assert_exception
  | .cdd vesting_seconds start_claim coin_seconds_earned last_update =>
    let earned := compute_coin_seconds_earned vesting_seconds coin_seconds_earned last_update balance now
    .ok (.cdd vesting_seconds start_claim
      (uint128 (earned + uint128 (int64 (amount * (max vesting_seconds 1 : Nat))))) now)

/-- `vesting_balance_object::deposit` -/
def VestingBalance.deposit (v : VestingBalance) (now : Nat) (amount : Asset) : Except Fault VestingBalance := do
  return { v with policy := v.policy.on_deposit v.balance.amount now, balance := ← v.balance.add amount }

/-- `vesting_balance_object::deposit_vested` -/
def VestingBalance.deposit_vested (v : VestingBalance) (now : Nat) (amount : Asset) : Except Fault VestingBalance := do
  let policy ← v.policy.on_deposit_vested v.balance.amount amount.amount now
  return { v with policy := policy, balance := ← v.balance.add amount }

/-- `vesting_balance_object::withdraw` -/
def VestingBalance.withdraw (v : VestingBalance) (now : Nat) (amount : Asset) : Except Fault VestingBalance := do
  return { v with policy := v.policy.on_withdraw v.balance.amount amount.amount now, balance := ← v.balance.sub amount }

/-- The object that `deposit_lazy_vesting` creates. -/
def lazy_vesting (amount : Int) (req_vesting_seconds : Nat) (req_owner : AccountId) (require_vesting : Bool) (now : Nat) :
    VestingBalance where
  owner := req_owner
  balance := ⟨amount,core⟩
  policy := .cdd req_vesting_seconds 0
    (if require_vesting then 0 else uint128 (int64 (amount * req_vesting_seconds))) now

inductive VestingAction
  | deposit (amount : Asset)
  | deposit_vested (amount : Asset)
  | withdraw (amount : Asset)

def VestingAction.amount : VestingAction → Asset
  | .deposit amount => amount
  | .deposit_vested amount => amount
  | .withdraw amount => amount

/-- A withdrawal is done when it is allowed. -/
def VestingAction.perform (a : VestingAction) (now : Nat) (v : VestingBalance) : Except Fault VestingBalance :=
  match a with
  | .deposit amount => v.deposit now amount
  | .deposit_vested amount => v.deposit_vested now amount
  | .withdraw amount => do
    fc_assert ((← v.is_withdraw_allowed now amount) = true)
    v.withdraw now amount

/-- A withdrawal that is done was allowed. -/
theorem VestingAction.withdraw_ok {v v' : VestingBalance} {now : Nat} {amount : Asset}
    (done : (VestingAction.withdraw amount).perform now v = .ok v') :
    v.is_withdraw_allowed now amount = .ok true ∧ v' = { v with
      policy := v.policy.on_withdraw v.balance.amount amount.amount now
      balance := ⟨v.balance.amount - amount.amount,v.balance.asset_id⟩ } := by
  obtain ⟨answer,asked,done⟩ := bind_ok.mp done
  obtain ⟨_,positive,taken⟩ := bind_ok.mp done
  rw [fc_assert_ok.mp positive] at asked
  obtain ⟨difference,subtracted,same⟩ := bind_ok.mp taken
  cases same
  obtain ⟨-,-,rfl⟩ := Asset.sub_ok.mp subtracted
  exact ⟨asked,rfl⟩

/-- The ledger's `deposit` is that of the object. -/
theorem deposit_ok {L L' : Ledger} {id : Nat} {amount : Asset} (ran : EStateM.run (deposit id amount) L = .ok () L') :
    ∃ v v', L.vestings.find? id = some v ∧ v.deposit L.properties.time amount = .ok v' ∧
      ∀ k, L'.vestings.find? k = if k = id then some v' else L.vestings.find? k := by
  simp only [deposit,run_observe_bind,run_get_bind,get_vesting_ok,reads_lift] at ran
  obtain ⟨v,found,balance,added,stored⟩ := ran
  cases stored
  refine ⟨v,_,found,bind_ok.mpr ⟨balance,added,rfl⟩,fun k => ?_⟩
  rw [Index.find?_update,found]
  rfl

theorem withdraw_ok {L L' : Ledger} {id : Nat} {amount : Asset} (ran : EStateM.run (withdraw id amount) L = .ok () L') :
    ∃ v v', L.vestings.find? id = some v ∧ v.withdraw L.properties.time amount = .ok v' ∧
      ∀ k, L'.vestings.find? k = if k = id then some v' else L.vestings.find? k := by
  simp only [withdraw,run_observe_bind,run_get_bind,get_vesting_ok,reads_lift] at ran
  obtain ⟨v,found,balance,taken,stored⟩ := ran
  cases stored
  refine ⟨v,_,found,bind_ok.mpr ⟨balance,taken,rfl⟩,fun k => ?_⟩
  rw [Index.find?_update,found]
  rfl

/-- What `vesting_balance_withdraw` does to its object: a withdrawal that is allowed. -/
theorem vesting_balance_withdraw_ok {L L₁ L' : Ledger} {o : VestingBalanceWithdrawOperation}
    (evaluated : vesting_balance_withdraw_evaluate o L = .ok ()) (vestings : L₁.vestings = L.vestings)
    (properties : L₁.properties = L.properties) (applied : EStateM.run (vesting_balance_withdraw_apply o) L₁ = .ok () L') :
    ∃ v v', L.vestings.find? o.vesting_balance = some v ∧
      (VestingAction.withdraw o.amount).perform L.properties.time v = .ok v' := by
  simp only [vesting_balance_withdraw_evaluate,reads_bind,get_vesting_ok,reads_lift,fc_assert_ok,head_block_time,
    reads_pure] at evaluated
  obtain ⟨v,found,_,-,_,⟨_,got,rfl⟩,allowed,asked,_,isAllowed,-⟩ := evaluated
  cases got
  obtain ⟨_,L₂,taken,-⟩ := run_bind_ok.mp applied
  obtain ⟨w,v',found',withdrawn,-⟩ := withdraw_ok taken
  rw [vestings,found] at found'
  cases found'
  rw [properties] at withdrawn
  exact ⟨v,v',found,bind_ok.mpr ⟨allowed,asked,bind_ok.mpr ⟨(),fc_assert_ok.mpr isAllowed,withdrawn⟩⟩⟩

/-! ### Exactly -/

/-- The policy's data: the coin seconds are not more than the cap. -/
structure Capped (balance : Int) (vesting_seconds : Nat) (coin_seconds_earned : Int) : Prop where
  nonneg : 0 ≤ balance
  fits : balance < 2^63
  seconds : vesting_seconds < 2^32
  earned_nonneg : 0 ≤ coin_seconds_earned
  earned_le : coin_seconds_earned ≤ balance * (max vesting_seconds 1 : Nat)

theorem uint128_of_small {v : Int} (nonneg : 0 ≤ v) (small : v < 2^128) : uint128 v = v :=
  Int.emod_eq_of_lt nonneg small

theorem int64_of_small {v : Int} (nonneg : 0 ≤ v) (small : v < 2^63) : int64 v = v := by
  rw [int64,Int.bmod]
  omega

/-- An amount times seconds of 32 bits. -/
theorem amount_seconds_small {amount : Int} (seconds : Nat) (nonneg : 0 ≤ amount) (fits : amount < 2^63)
    (short : seconds ≤ 2^32) : 0 ≤ amount * seconds ∧ amount * seconds < 2^95 := by
  refine ⟨by positivity,?_⟩
  calc amount * seconds ≤ amount * 2^32 := by gcongr; exact_mod_cast short
    _ < 2^63 * 2^32 := by gcongr
    _ = 2^95 := by norm_num

/-- The products and sums of `compute_coin_seconds_earned`, each with what bounds it. -/
def compute_products (vesting_seconds : Nat) (coin_seconds_earned : Int) (last_update : Nat) (balance : Int) (now : Nat) :
    List (Int × Int) :=
  [(balance * (now - last_update),2^128),(coin_seconds_earned + balance * (now - last_update),2^128),
    (balance * (max vesting_seconds 1 : Nat),2^128)]

/-- None of them wraps. -/
def Unwrapped (products : List (Int × Int)) : Prop := ∀ p ∈ products, 0 ≤ p.1 ∧ p.1 < p.2

instance (products : List (Int × Int)) : Decidable (Unwrapped products) := inferInstanceAs (Decidable (∀ _ ∈ _, _))

section
variable {balance : Int} {vesting_seconds : Nat} {coin_seconds_earned : Int} {last_update now : Nat}
  (capped : Capped balance vesting_seconds coin_seconds_earned) (clock : last_update ≤ now) (fits : now < 2^32)
include capped clock fits

theorem compute_exact : Unwrapped (compute_products vesting_seconds coin_seconds_earned last_update balance now) := by
  have elapsed := amount_seconds_small (now - last_update) capped.nonneg capped.fits (by omega)
  have cap := amount_seconds_small (max vesting_seconds 1) capped.nonneg capped.fits (by have := capped.seconds; omega)
  have earned := capped.earned_nonneg
  have earned_le := capped.earned_le
  rw [Int.ofNat_sub clock] at elapsed
  simp only [Unwrapped,compute_products,List.forall_mem_cons,List.not_mem_nil,false_imp_iff,implies_true,and_true]
  refine ⟨?_,?_,?_⟩ <;> omega

/-- What has been earned: the same without wrapping, and within the cap. -/
theorem compute_eq : compute_coin_seconds_earned vesting_seconds coin_seconds_earned last_update balance now =
    min (coin_seconds_earned + balance * (now - last_update)) (balance * (max vesting_seconds 1 : Nat)) := by
  have exact_products := compute_exact capped clock fits
  simp only [Unwrapped,compute_products,List.forall_mem_cons,List.not_mem_nil,false_imp_iff,implies_true,and_true] at exact_products
  obtain ⟨elapsed,sum,cap⟩ := exact_products
  have small : uint128 balance = balance :=
    uint128_of_small capped.nonneg (by have := capped.fits; omega)
  have seconds : uint128 ((now : Int) - last_update) = now - last_update :=
    uint128_of_small (by omega) (by omega)
  rw [compute_coin_seconds_earned,small,seconds,uint128_of_small elapsed.1 elapsed.2,uint128_of_small cap.1 cap.2,
    uint128_of_small sum.1 sum.2]

theorem computed_capped : Capped balance vesting_seconds
    (compute_coin_seconds_earned vesting_seconds coin_seconds_earned last_update balance now) := by
  rw [compute_eq capped clock fits]
  have elapsed : 0 ≤ balance * ((now : Int) - last_update) := Int.mul_nonneg capped.nonneg (by omega)
  have cap : 0 ≤ balance * ((max vesting_seconds 1 : Nat) : Int) := Int.mul_nonneg capped.nonneg (Int.natCast_nonneg _)
  refine { capped with earned_nonneg := ?_, earned_le := min_le_right _ _ }
  exact le_min (Int.add_nonneg capped.earned_nonneg elapsed) cap

end

/-- More is in the balance. -/
theorem Capped.deposit {balance amount : Int} {vesting_seconds : Nat} {earned : Int} (capped : Capped balance vesting_seconds earned)
    (nonneg : 0 ≤ amount) (fits : balance + amount < 2^63) : Capped (balance + amount) vesting_seconds earned where
  nonneg := Int.add_nonneg capped.nonneg nonneg
  fits := fits
  seconds := capped.seconds
  earned_nonneg := capped.earned_nonneg
  earned_le := by
    have more : 0 ≤ amount * ((max vesting_seconds 1 : Nat) : Int) := Int.mul_nonneg nonneg (Int.natCast_nonneg _)
    rw [Int.add_mul]
    have := capped.earned_le
    omega

/-- More is in the balance, and has vested. -/
theorem Capped.deposit_vested {balance amount : Int} {vesting_seconds : Nat} {earned : Int}
    (capped : Capped balance vesting_seconds earned) (nonneg : 0 ≤ amount) (fits : balance + amount < 2^63) :
    Capped (balance + amount) vesting_seconds (earned + amount * (max vesting_seconds 1 : Nat)) := by
  have more : 0 ≤ amount * ((max vesting_seconds 1 : Nat) : Int) := Int.mul_nonneg nonneg (Int.natCast_nonneg _)
  refine { capped.deposit nonneg fits with earned_nonneg := Int.add_nonneg capped.earned_nonneg more, earned_le := ?_ }
  rw [Int.add_mul]
  exact Int.add_le_add_right capped.earned_le _

/-- What has vested is taken out of the balance. -/
theorem Capped.withdraw {balance amount : Int} {vesting_seconds : Nat} {earned : Int} (capped : Capped balance vesting_seconds earned)
    (nonneg : 0 ≤ amount) (allowed : amount ≤ earned / (max vesting_seconds 1 : Nat)) :
    amount * (max vesting_seconds 1 : Nat) ≤ earned ∧ amount ≤ balance ∧
      Capped (balance - amount) vesting_seconds (earned - amount * (max vesting_seconds 1 : Nat)) := by
  have positive : (0 : Int) < (max vesting_seconds 1 : Nat) := by exact_mod_cast Nat.lt_of_lt_of_le Nat.one_pos (Nat.le_max_right _ _)
  have needed : amount * (max vesting_seconds 1 : Nat) ≤ earned := (Int.le_ediv_iff_mul_le positive).mp allowed
  have held : amount ≤ balance := by
    have both := Int.le_trans needed capped.earned_le
    exact Int.le_of_mul_le_mul_right both positive
  refine ⟨needed,held,Int.sub_nonneg_of_le held,?_,capped.seconds,Int.sub_nonneg_of_le needed,?_⟩
  · have := capped.fits
    omega
  · rw [Int.sub_mul]
    exact Int.sub_le_sub_right capped.earned_le _

/-! ### Every run -/

/-- What is multiplied and added for an action, with the bounds of the types. -/
def VestingAction.products (a : VestingAction) (now : Nat) (v : VestingBalance) : List (Int × Int) :=
  match v.policy with
  | .linear .. => []
  | .cdd vesting_seconds _ coin_seconds_earned last_update =>
    let earned := compute_coin_seconds_earned vesting_seconds coin_seconds_earned last_update v.balance.amount now
    let seconds : Int := (max vesting_seconds 1 : Nat)
    compute_products vesting_seconds coin_seconds_earned last_update v.balance.amount now ++ match a with
      | .deposit _ => []
      | .deposit_vested amount => [(amount.amount * seconds,2^63),(earned + amount.amount * seconds,2^128)]
      | .withdraw amount => [(amount.amount * seconds,2^128)]

/-- The assertion of `on_withdraw`: `coin_seconds_needed <= coin_seconds_earned`. -/
def VestingAction.asserted (a : VestingAction) (now : Nat) (v : VestingBalance) : Prop :=
  match a,v.policy with
  | .withdraw amount,.cdd vesting_seconds _ coin_seconds_earned last_update =>
    uint128 (uint128 amount.amount * (max vesting_seconds 1 : Nat)) ≤
      compute_coin_seconds_earned vesting_seconds coin_seconds_earned last_update v.balance.amount now
  | _,_ => True

/-- A deposit that is vested already is `allowed` for its amount and the seconds of the policy. -/
def VestingAction.meets (allowed : Int → Nat → Prop) (a : VestingAction) (v : VestingBalance) : Prop :=
  match a,v.policy with
  | .deposit_vested amount,.cdd vesting_seconds .. => allowed amount.amount vesting_seconds
  | _,_ => True

/-- The balances of coin days destroyed of all runs, with the time they have come to. -/
inductive Vests (allowed : Int → Nat → Prop) : Nat → VestingBalance → Prop
  | create {owner : AccountId} {amount : Asset} {start_claim vesting_seconds now : Nat} (some : 0 < amount.amount)
      (bounded : amount.amount ≤ max_share_supply) (fits : vesting_seconds < 2^32) : Vests allowed now
        ⟨owner,amount,(VestingPolicyInitializer.cdd start_claim vesting_seconds).init amount.amount now⟩
  | lazy_create {owner : AccountId} {amount : Int} {vesting_seconds now : Nat} {require_vesting : Bool} (some : 0 < amount)
      (bounded : amount ≤ max_share_supply) (fits : vesting_seconds < 2^32)
      (meets : require_vesting = false → allowed amount vesting_seconds) :
      Vests allowed now (lazy_vesting amount vesting_seconds owner require_vesting now)
  | step {now now' : Nat} {v v' : VestingBalance} {a : VestingAction} (before : Vests allowed now v) (clock : now ≤ now')
      (fits : now' < 2^32) (some : 0 < a.amount.amount) (bounded : a.amount.amount ≤ max_share_supply)
      (meets : a.meets allowed v) (done : a.perform now' v = .ok v') : Vests allowed now' v'

/-- The product of amount and seconds has less than 64 bits. -/
def vested_fits (amount : Int) (vesting_seconds : Nat) : Prop := amount * (max vesting_seconds 1 : Nat) < 2^63

instance (amount : Int) (vesting_seconds : Nat) : Decidable (vested_fits amount vesting_seconds) :=
  inferInstanceAs (Decidable (_ < _))

/-- The balance is one of coin days destroyed that was touched before `now`. -/
inductive Destroyed (now : Nat) : VestingBalance → Prop
  | cdd {owner : AccountId} {balance : Asset} {vesting_seconds start_claim last_update : Nat} {coin_seconds_earned : Int}
      (capped : Capped balance.amount vesting_seconds coin_seconds_earned) (clock : last_update ≤ now) :
      Destroyed now ⟨owner,balance,.cdd vesting_seconds start_claim coin_seconds_earned last_update⟩

section
variable {now now' : Nat} {v v' : VestingBalance} {amount : Asset} (destroyed : Destroyed now v) (clock : now ≤ now')
  (fits : now' < 2^32) (some : 0 < amount.amount) (bounded : amount.amount ≤ max_share_supply)
include destroyed clock fits some

theorem Destroyed.deposit (done : v.deposit now' amount = .ok v') :
    Destroyed now' v' ∧ Unwrapped ((VestingAction.deposit amount).products now' v) := by
  obtain ⟨capped,before⟩ := destroyed
  have last := Nat.le_trans before clock
  obtain ⟨balance,added,same⟩ := bind_ok.mp done
  cases same
  obtain ⟨-,sum,rfl⟩ := Asset.add_ok.mp added
  refine ⟨.cdd ((computed_capped capped last fits).deposit (Int.le_of_lt some) sum.2) (Nat.le_refl _),?_⟩
  exact compute_exact capped last fits

theorem Destroyed.deposit_vested (small : (VestingAction.deposit_vested amount).meets vested_fits v)
    (done : v.deposit_vested now' amount = .ok v') :
    Destroyed now' v' ∧ Unwrapped ((VestingAction.deposit_vested amount).products now' v) := by
  obtain @⟨owner,balance,vesting_seconds,start_claim,last_update,earned,capped,before⟩ := destroyed
  have last := Nat.le_trans before clock
  have computed := computed_capped capped last fits
  obtain ⟨policy,deposited,done⟩ := bind_ok.mp done
  cases deposited
  obtain ⟨sum_balance,added,same⟩ := bind_ok.mp done
  cases same
  obtain ⟨-,sum,rfl⟩ := Asset.add_ok.mp added
  have small : amount.amount * (max vesting_seconds 1 : Nat) < 2^63 := small
  have nonneg : 0 ≤ amount.amount * ((max vesting_seconds 1 : Nat) : Int) :=
    Int.mul_nonneg (Int.le_of_lt some) (Int.natCast_nonneg _)
  have cap := amount_seconds_small (max vesting_seconds 1) capped.nonneg capped.fits (by have := capped.seconds; omega)
  have earned_nonneg := computed.earned_nonneg
  have earned_le := computed.earned_le
  have sum_nonneg := Int.add_nonneg earned_nonneg nonneg
  have sum_small : compute_coin_seconds_earned vesting_seconds earned last_update balance.amount now' +
      amount.amount * (max vesting_seconds 1 : Nat) < 2^128 := by omega
  refine ⟨.cdd ?_ (Nat.le_refl _),?_⟩
  · rw [int64_of_small nonneg small,uint128_of_small nonneg (by omega),uint128_of_small sum_nonneg sum_small]
    exact computed.deposit_vested (Int.le_of_lt some) sum.2
  · refine List.forall_mem_append.mpr ⟨compute_exact capped last fits,?_⟩
    simp only [List.forall_mem_cons,List.not_mem_nil,false_imp_iff,implies_true,and_true]
    exact ⟨⟨nonneg,small⟩,sum_nonneg,sum_small⟩

theorem Destroyed.withdraw (done : (VestingAction.withdraw amount).perform now' v = .ok v') : Destroyed now' v' ∧
    Unwrapped ((VestingAction.withdraw amount).products now' v) ∧ (VestingAction.withdraw amount).asserted now' v := by
  obtain @⟨owner,balance,vesting_seconds,start_claim,last_update,earned,capped,before⟩ := destroyed
  have last := Nat.le_trans before clock
  have computed := computed_capped capped last fits
  obtain ⟨asked,rfl⟩ := VestingAction.withdraw_ok done
  obtain ⟨allowed,read,atMost⟩ := bind_ok.mp asked
  have allowed_le : amount.amount ≤ compute_coin_seconds_earned vesting_seconds earned last_update balance.amount now' /
      (max vesting_seconds 1 : Nat) := by
    have atMost := (Asset.at_most_true atMost).2
    simp only [VestingPolicy.get_allowed_withdraw] at read
    split at read
    case isTrue =>
      cases read
      exact absurd some (Int.not_lt.mpr atMost)
    case isFalse =>
      cases read
      exact atMost
  obtain ⟨needed,held,left⟩ := computed.withdraw (Int.le_of_lt some) allowed_le
  have fits_balance := capped.fits
  have product := amount_seconds_small (max vesting_seconds 1) (Int.le_of_lt some) (by omega)
    (by have := capped.seconds; omega)
  have small : uint128 amount.amount = amount.amount := uint128_of_small (Int.le_of_lt some) (by omega)
  have earned_small := computed.earned_le
  have cap := amount_seconds_small (max vesting_seconds 1) capped.nonneg capped.fits (by have := capped.seconds; omega)
  have exact_product : uint128 (uint128 amount.amount * (max vesting_seconds 1 : Nat)) =
      amount.amount * (max vesting_seconds 1 : Nat) := by
    rw [small,uint128_of_small product.1 (by omega)]
  refine ⟨.cdd ?_ (Nat.le_refl _),?_,?_⟩
  · rw [exact_product,uint128_of_small left.earned_nonneg]
    · exact left
    · show compute_coin_seconds_earned vesting_seconds earned last_update balance.amount now' - _ < _
      omega
  · refine List.forall_mem_append.mpr ⟨compute_exact capped last fits,?_⟩
    simp only [List.forall_mem_cons,List.not_mem_nil,false_imp_iff,implies_true,and_true]
    exact ⟨product.1,by omega⟩
  · show uint128 _ ≤ _
    rw [exact_product]
    exact needed

end

theorem Destroyed.perform {now now' : Nat} {v v' : VestingBalance} {a : VestingAction} (destroyed : Destroyed now v)
    (clock : now ≤ now') (fits : now' < 2^32) (some : 0 < a.amount.amount) (meets : a.meets vested_fits v)
    (done : a.perform now' v = .ok v') : Destroyed now' v' ∧ Unwrapped (a.products now' v) ∧ a.asserted now' v := by
  cases a with
  | deposit amount =>
    obtain ⟨next,exact_products⟩ := destroyed.deposit clock fits some done
    exact ⟨next,exact_products,trivial⟩
  | deposit_vested amount =>
    obtain ⟨next,exact_products⟩ := destroyed.deposit_vested clock fits some meets done
    exact ⟨next,exact_products,trivial⟩
  | withdraw amount => exact destroyed.withdraw clock fits some done

theorem capped_start {amount : Int} {vesting_seconds : Nat} (some : 0 < amount) (bounded : amount ≤ max_share_supply)
    (fits : vesting_seconds < 2^32) : Capped amount vesting_seconds 0 := by
  unfold max_share_supply at bounded
  exact ⟨by omega,by omega,fits,Int.le_refl _,Int.mul_nonneg (by omega) (Int.natCast_nonneg _)⟩

theorem Vests.destroyed {now : Nat} {v : VestingBalance} (vests : Vests vested_fits now v) : Destroyed now v := by
  induction vests with
  | create some bounded fits => exact .cdd (capped_start some bounded fits) (Nat.le_refl _)
  | @lazy_create owner amount vesting_seconds now require_vesting some bounded fits meets =>
    refine .cdd ?_ (Nat.le_refl _)
    have start := capped_start some bounded fits
    cases require_vesting with
    | true => exact start
    | false =>
      have small : amount * (max vesting_seconds 1 : Nat) < 2^63 := meets rfl
      have nonneg : 0 ≤ amount * (vesting_seconds : Int) := Int.mul_nonneg (Int.le_of_lt some) (Int.natCast_nonneg _)
      have less : amount * (vesting_seconds : Int) ≤ amount * (max vesting_seconds 1 : Nat) :=
        Int.mul_le_mul_of_nonneg_left (by exact_mod_cast Nat.le_max_left _ _) (Int.le_of_lt some)
      have earned : uint128 (int64 (amount * vesting_seconds)) = amount * vesting_seconds := by
        rw [int64_of_small nonneg (by omega),uint128_of_small nonneg (by omega)]
      show Capped amount vesting_seconds (uint128 (int64 (amount * vesting_seconds)))
      rw [earned]
      exact { start with earned_nonneg := nonneg, earned_le := less }
  | step before clock fits some bounded meets done ih => exact (ih.perform clock fits some meets done).1

/-- What the code asserts and computes is right of the balance `v` at `now`, and of whatever is done with it next. -/
structure Exactly (allowed : Int → Nat → Prop) (now : Nat) (v : VestingBalance) : Prop where
  earned : ∃ vesting_seconds start_claim coin_seconds_earned last_update,
    v.policy = .cdd vesting_seconds start_claim coin_seconds_earned last_update ∧
      coin_seconds_earned ≤ v.balance.amount * (max vesting_seconds 1 : Nat)
  available : ∀ now' amount, now ≤ now' → now' < 2^32 → ∃ x, v.policy.get_allowed_withdraw v.balance amount now' = .ok x ∧
    0 ≤ x.amount ∧ x.amount ≤ v.balance.amount
  next : ∀ now' (a : VestingAction) v', now ≤ now' → now' < 2^32 → 0 < a.amount.amount → a.amount.amount ≤ max_share_supply →
    a.meets allowed v → a.perform now' v = .ok v' → Unwrapped (a.products now' v) ∧ a.asserted now' v

/-- As long as the products of the vested deposits have less than 64 bits, no balance of coin days destroyed has
    earned more than its cap, none gives more than it has, and no product wraps. -/
theorem cdd_vesting_exact (now : Nat) (v : VestingBalance) (vests : Vests vested_fits now v) : Exactly vested_fits now v where
  earned := by
    obtain ⟨capped,-⟩ := vests.destroyed
    exact ⟨_,_,_,_,rfl,capped.earned_le⟩
  available := by
    intro now' amount clock fits
    obtain @⟨owner,balance,vesting_seconds,start_claim,last_update,earned,capped,before⟩ := vests.destroyed
    have computed := computed_capped capped (Nat.le_trans before clock) fits
    have positive : (0 : Int) < (max vesting_seconds 1 : Nat) := by
      exact_mod_cast Nat.lt_of_lt_of_le Nat.one_pos (Nat.le_max_right _ _)
    simp only [VestingPolicy.get_allowed_withdraw]
    split
    · exact ⟨_,rfl,Int.le_refl _,capped.nonneg⟩
    · refine ⟨_,rfl,Int.ediv_nonneg computed.earned_nonneg (Int.le_of_lt positive),?_⟩
      exact Int.ediv_le_of_le_mul positive computed.earned_le
  next := fun _ _ _ clock fits some _ meets done => (vests.destroyed.perform clock fits some meets done).2

/-- A thousand, vesting in a day, and half a day later seven more that have vested. -/
theorem cdd_vesting_exact_daily : ∃ v, Vests vested_fits 1530043200 v ∧ v.balance = ⟨1007,core⟩ ∧
    Exactly vested_fits 1530043200 v := by
  have created : Vests vested_fits 1530000000 ⟨4,⟨1000,core⟩,.cdd 86400 0 0 1530000000⟩ :=
    .create (by decide) (by decide) (by decide)
  have deposited : Vests vested_fits 1530043200 ⟨4,⟨1007,core⟩,.cdd 86400 0 43804800 1530043200⟩ :=
    created.step (a := .deposit_vested ⟨7,core⟩) (by decide) (by decide) (by decide) (by decide)
      (show vested_fits 7 86400 by decide) rfl
  exact ⟨_,deposited,rfl,cdd_vesting_exact _ _ deposited⟩

/-- Twenty coins that have vested, for a balance that vests in 136 years: their product has 64 bits, is read as
    negative, and everything seems to have been earned many times. -/
theorem cdd_vesting_wraps : ¬ ∀ now v, Vests (fun _ _ => True) now v → Exactly (fun _ _ => True) now v := by
  intro exactly
  have created : Vests (fun _ _ => True) 1530000000 ⟨4,⟨1,core⟩,.cdd 4294967295 0 0 1530000000⟩ :=
    .create (by decide) (by decide) (by decide)
  have deposited : Vests (fun _ _ => True) 1530000000
      ⟨4,⟨2147483650,core⟩,.cdd 4294967295 0 340282366920938463454151235397060919295 1530000000⟩ :=
    created.step (a := .deposit_vested ⟨2147483649,core⟩) (by decide) (by decide) (by decide) (by decide) trivial rfl
  obtain ⟨_,_,_,_,same,earned⟩ := (exactly _ _ deposited).earned
  cases same
  exact absurd earned (by decide)

end Decent.Money

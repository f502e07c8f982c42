import Decent.Fees

/-!
The audit of the core asset. `get_real_supply` looks at the asset of account balances
only; a vesting balance or the escrow of a buying in another asset is added to the sum as
if it were core, and `process_budget` compares the sum with the supply of the core asset.
-/
namespace Decent.Money
open Throwing

/-! ### What there is to count -/

def core_balances (L : Ledger) : Int := L.balances.total fun k b => if k.2 = core then b.balance else 0

def core_vestings (L : Ledger) : Int := L.vestings.total fun v => v.balance.part core

def publishing_escrows (L : Ledger) : Int := L.contents.total fun c => c.publishing_fee_escrow.amount

def core_buyings (L : Ledger) : Int := L.buyings.total fun b => b.price.part core

def core_pools (L : Ledger) : Int := L.assets.total fun a => a.dynamic.core_pool

/-- Everything that holds core. -/
def core_holdings (L : Ledger) : Int :=
  core_balances L + core_vestings L + (publishing_escrows L + core_buyings L) + core_pools L

/-- What an amount counts for that is not core. -/
def Asset.other (x : Asset) : Int := if x.asset_id = core then 0 else x.amount

def other_vestings (L : Ledger) : Int := L.vestings.total fun v => v.balance.other

def other_buyings (L : Ledger) : Int := L.buyings.total fun b => b.price.other

/-- The audit counts the holdings of the core asset. -/
structure Counts (L : Ledger) (r : RealSupply) : Prop where
  account_balances : r.account_balances = core_balances L
  vesting_balances : r.vesting_balances = core_vestings L
  escrows : r.escrows = publishing_escrows L + core_buyings L
  pools : r.pools = core_pools L

/-- No core appeared or went since the supply was last updated, but for the fees and the
    rewards that the budget has still to account for. -/
def Conserved (L : Ledger) : Prop :=
  core_holdings L + (L.dynamic core).asset_pool + L.properties.unspent_fee_budget =
    (L.dynamic core).current_supply + L.properties.mined_rewards + L.properties.miner_budget_from_fees

/-- `assert( _core.current_supply == rec._real_supply.total() )` -/
def AssertionHolds (L : Ledger) (r : RealSupply) : Prop :=
  ∀ L' total, EStateM.run process_budget L = .ok () L' → r.total = .ok total → (L'.dynamic core).current_supply = total

/-! ### What is counted -/

theorem sum_checked_ok {l : List Int} {total sum : Int} (summed : sum_checked l total = .ok sum) : sum = total + l.sum := by
  induction l generalizing total with
  | nil => cases summed; simp
  | cons v rest ih =>
    simp only [sum_checked,bind_ok,checked_ok] at summed
    obtain ⟨_,⟨_,rfl⟩,summed⟩ := summed
    rw [ih summed,List.sum_cons]
    omega

theorem total_ok {r : RealSupply} {total : Int} (summed : r.total = .ok total) :
    total = r.account_balances + r.vesting_balances + r.escrows + r.pools := by
  simp only [RealSupply.total,bind_ok,checked_ok] at summed
  obtain ⟨_,⟨_,rfl⟩,_,⟨_,rfl⟩,_,rfl⟩ := summed
  rfl

/-- An amount is core or it is not. -/
theorem total_split {ν : Type} (i : Index ν) (f : ν → Asset) :
    (i.table.rows.map fun row => (f row.2).amount).sum = i.total (fun v => (f v).part core) + i.total fun v => (f v).other := by
  have both : i.total (fun v => (f v).part core) + i.total (fun v => (f v).other) = i.total fun v => (f v).amount := by
    rw [Index.total,Index.total,← Table.total_add]
    refine Table.total_congr fun k v _ => ?_
    simp only [Asset.part,Asset.other]
    split
    · omega
    · omega
  rw [both]
  rfl

/-- The walk over the balances passes over those that are not core. -/
theorem sum_filter_core (rows : List ((AccountId × AssetId) × AccountBalance)) :
    ((rows.filter fun row => row.1.2 = core).map fun row => row.2.balance).sum =
      (rows.map fun row => if row.1.2 = core then row.2.balance else 0).sum := by
  induction rows with
  | nil => rfl
  | cons row rest ih =>
    by_cases inCore : row.1.2 = core
    · simp [inCore,ih]
    · simp [inCore,ih]

theorem get_real_supply_ok {L : Ledger} {r : RealSupply} (counted : get_real_supply L = .ok r) :
    r.account_balances = core_balances L ∧ r.vesting_balances = core_vestings L + other_vestings L ∧
      r.escrows = publishing_escrows L + core_buyings L + other_buyings L ∧ r.pools = core_pools L := by
  simp only [get_real_supply,reads_bind,reads_lift,reads_pure] at counted
  obtain ⟨_,got,balances,ran₁,vestings,ran₂,publishing,ran₃,escrows,ran₄,pools,ran₅,rfl⟩ := counted
  cases got
  refine ⟨?_,?_,?_,?_⟩
  · have sum := sum_checked_ok ran₁
    rw [sum,Int.zero_add]
    exact sum_filter_core L.balances.rows
  · have sum := sum_checked_ok ran₂
    rw [total_split L.vestings fun v => v.balance] at sum
    rw [sum,Int.zero_add]
    rfl
  · have first := sum_checked_ok ran₃
    have second := sum_checked_ok ran₄
    rw [total_split L.buyings fun b => b.price,first] at second
    rw [second,Int.zero_add]
    show publishing_escrows L + _ = _
    rw [← Int.add_assoc]
    rfl
  · have sum := sum_checked_ok ran₅
    rw [sum,Int.zero_add]
    rfl

/-- The supply that `process_budget` leaves. -/
theorem process_budget_supply {L L' : Ledger} (ran : EStateM.run process_budget L = .ok () L') :
    (L'.dynamic core).current_supply = (L.dynamic core).current_supply + (L.properties.mined_rewards +
      L.properties.miner_budget_from_fees - L.properties.unspent_fee_budget - (L.dynamic core).asset_pool) := by
  simp only [process_budget,run_get_bind,run_observe_bind,reads_lift,checked_ok,get_asset_ok] at ran
  obtain ⟨core_asset,found,_,-,_,-,_,-,_,-,_,-,_,⟨-,rfl⟩,_,⟨-,rfl⟩,_,⟨-,rfl⟩,ran⟩ := ran
  obtain ⟨_,L₁,changed,done⟩ := run_bind_ok.mp ran
  cases done
  have moved := dynamic_modify_dynamic changed
  simp only [bind_ok,checked_ok,pure_ok] at moved
  obtain ⟨_,⟨_,rfl⟩,same⟩ := moved
  have here : L.dynamic core = core_asset.dynamic := by simp [Ledger.dynamic,found]
  show (L₁.dynamic core).current_supply = _
  rw [← same,here]

/-- Without holdings in other assets the audit is exact and the assertion follows from the
    conservation of core; with them the audit is wrong. -/
theorem audit_exact_iff (L : Ledger) (r : RealSupply) (counted : get_real_supply L = .ok r) :
    Counts L r ∧ (Conserved L → AssertionHolds L r) ↔ other_vestings L = 0 ∧ other_buyings L = 0 := by
  obtain ⟨balances,vestings,escrows,pools⟩ := get_real_supply_ok counted
  constructor
  · rintro ⟨counts,_⟩
    have same := counts.vesting_balances
    have same' := counts.escrows
    exact ⟨by omega,by omega⟩
  · rintro ⟨noVestings,noBuyings⟩
    have counts : Counts L r := ⟨balances,by omega,by omega,pools⟩
    refine ⟨counts,fun conserved L' total ran summed => ?_⟩
    rw [process_budget_supply ran,total_ok summed,counts.account_balances,counts.vesting_balances,counts.escrows,
      counts.pools]
    unfold Conserved core_holdings at conserved
    omega

/-- Core in a balance is all there is. -/
theorem audit_exact_one_user : ∃ r, get_real_supply (after_actions one_user) = .ok r ∧ Counts (after_actions one_user) r := by
  have returns : (get_real_supply (after_actions one_user)).isOk = true := by decide +kernel
  cases counted : get_real_supply (after_actions one_user) with
  | error e => rw [counted] at returns; cases returns
  | ok r => exact ⟨r,rfl,((audit_exact_iff _ r counted).mpr (by decide +kernel)).1⟩

/-- The user issues a hundred of his asset and vests fifty of them. -/
def vested_user : List Action := one_user ++ [
  .operation free_env (.asset_create { odd_fee with fee := ⟨0,core⟩ }),
  .operation free_env (.asset_issue ⟨⟨0,core⟩,4,⟨100,2⟩,4⟩),
  .operation free_env (.vesting_balance_create ⟨⟨0,core⟩,4,4,⟨50,2⟩,.cdd 0 0⟩)]

theorem vested_counted_as_core :
    ¬ ∀ L, Reachable small_genesis L → ∀ r, get_real_supply L = .ok r → Counts L r ∧ (Conserved L → AssertionHolds L r) := by
  intro exact
  have reachable : Reachable small_genesis (after_actions vested_user) := reachable_after_actions (by decide +kernel)
  have returns : (get_real_supply (after_actions vested_user)).isOk = true := by decide +kernel
  cases counted : get_real_supply (after_actions vested_user) with
  | error e => rw [counted] at returns; cases returns
  | ok r =>
    have counts := (exact _ reachable r counted).1.vesting_balances
    have vestings := (get_real_supply_ok counted).2.1
    have fifty : other_vestings (after_actions vested_user) = 50 := by decide +kernel
    omega

end Decent.Money

import Decent.Escrow
import Decent.Audit

/-!
What is held of an asset and what its supply says. `excess` is the difference; every
function that writes to the ledger moves it by an amount that can be read off its
arguments, so an operation keeps it exactly when these amounts cancel.
-/
namespace Decent.Money
open Throwing

/-! ### Holdings -/

def balances_in (a : AssetId) (L : Ledger) : Int := L.balances.total fun k b => if k.2 = a then b.balance else 0

def vestings_in (a : AssetId) (L : Ledger) : Int := L.vestings.total fun v => v.balance.part a

/-- The price fields of buyings; those of the buyings that are over hold nothing. -/
def prices_in (a : AssetId) (L : Ledger) : Int := L.buyings.total fun b => b.price.part a

def escrows_in (a : AssetId) (L : Ledger) : Int := L.contents.total fun c => c.publishing_fee_escrow.part a

/-- The core asset is in the core pools, too, and in the budget of the interval. -/
def budget_in (a : AssetId) (L : Ledger) : Int :=
  if a = core then core_pools L + L.properties.unspent_fee_budget - L.properties.mined_rewards -
    L.properties.miner_budget_from_fees else 0

/-- What is held of the asset beyond its supply. -/
def excess (a : AssetId) (L : Ledger) : Int :=
  balances_in a L + vestings_in a L + prices_in a L + escrows_in a L + (L.dynamic a).asset_pool -
    (L.dynamic a).current_supply + budget_in a L

theorem part_negate (x : Asset) (a : AssetId) : (⟨-x.amount,x.asset_id⟩ : Asset).part a = -x.part a := by
  simp only [Asset.part]
  split <;> omega

theorem part_zero {x : Asset} (zero : x.amount = 0) (a : AssetId) : x.part a = 0 := by
  simp [Asset.part,zero]

theorem part_other {x : Asset} {a : AssetId} (other : x.asset_id ≠ a) : x.part a = 0 := if_neg other

theorem part_sub {x y : Asset} (same : x.asset_id = y.asset_id) (a : AssetId) :
    (⟨x.amount - y.amount,x.asset_id⟩ : Asset).part a = x.part a - y.part a := by
  simp only [Asset.part,same]
  split <;> omega

theorem part_add {x y : Asset} (same : x.asset_id = y.asset_id) (a : AssetId) :
    (⟨x.amount + y.amount,x.asset_id⟩ : Asset).part a = x.part a + y.part a := by
  simp only [Asset.part,same]
  split <;> omega

theorem total_update_same {ν : Type} (f : ν → Int) (i : Index ν) (k : Nat) {g : ν → ν} (same : ∀ v, f (g v) = f v) :
    (i.update k g).total f = i.total f := by
  cases found : i.find? k with
  | none =>
    have missing : i.update k g = i := by
      unfold Index.update
      split
      · rfl
      case h_2 v here => exact absurd (found.symm.trans here) (by simp)
    rw [missing]
  | some v =>
    rw [Index.total_update f g found,same]
    omega

/-! ### What moves the excess -/

section
variable {L L' : Ledger} (a : AssetId)

theorem excess_adjust_balance {account : AccountId} {x : Asset} {u : Unit}
    (ran : EStateM.run (adjust_balance account x) L = .ok u L') : excess a L' = excess a L + x.part a := by
  rcases adjust_balance_ok ran with ⟨zero,rfl⟩ | ⟨b,new,rfl⟩
  · rw [part_zero zero]
    omega
  · have moved : balances_in a (L.with_balance account x.asset_id b) = balances_in a L + x.part a := by
      show (L.balances.put (account,x.asset_id) b).total _ = L.balances.total _ + _
      rw [Table.total_put,Table.share,new,Ledger.balance,Asset.part]
      cases L.balances.find? (account,x.asset_id) with
      | none =>
        simp only [Option.elim]
        split <;> omega
      | some c =>
        simp only [Option.elim]
        split <;> omega
    unfold excess
    rw [moved]
    show _ + vestings_in a L + prices_in a L + escrows_in a L + (L.dynamic a).asset_pool - (L.dynamic a).current_supply +
      budget_in a L = _
    omega

theorem excess_negated {account : AccountId} {x y : Asset} {u : Unit} (negated : x.negate = .ok y)
    (ran : EStateM.run (adjust_balance account y) L = .ok u L') : excess a L' = excess a L - x.part a := by
  obtain ⟨-,rfl⟩ := Asset.negate_ok.mp negated
  rw [excess_adjust_balance a ran,part_negate]
  omega

def Ledger.with_dynamic (L : Ledger) (id : AssetId) (d : DynamicData) : Ledger :=
  { L with assets := L.assets.update id fun a => { a with dynamic := d } }

theorem dynamic_with_dynamic {id : AssetId} {ao : AssetObject} (found : L.assets.find? id = some ao) (d : DynamicData) :
    (L.with_dynamic id d).dynamic a = if a = id then d else L.dynamic a := by
  show ((L.assets.update id _).find? a).elim _ _ = _
  rw [Index.find?_update]
  split
  · rw [found]
    rfl
  · rfl

theorem excess_modify_dynamic {id : AssetId} {f : DynamicData → Except Fault DynamicData} {u : Unit}
    (ran : EStateM.run (modify_dynamic id f) L = .ok u L') : excess a L' = excess a L +
      (if a = id then (L'.dynamic id).asset_pool - (L.dynamic id).asset_pool -
        ((L'.dynamic id).current_supply - (L.dynamic id).current_supply) else 0) +
      if a = core then (L'.dynamic id).core_pool - (L.dynamic id).core_pool else 0 := by
  obtain ⟨ao,d,found,changed,rfl⟩ := modify_dynamic_ok ran
  have here (a : AssetId) := dynamic_with_dynamic a found d
  have old : L.dynamic id = ao.dynamic := by simp [Ledger.dynamic,found]
  have pools : core_pools (L.with_dynamic id d) = core_pools L - ao.dynamic.core_pool + d.core_pool :=
    Index.total_update _ _ found
  have budget : budget_in a (L.with_dynamic id d) = budget_in a L + if a = core then d.core_pool - ao.dynamic.core_pool else 0 := by
    unfold budget_in
    rw [pools]
    split
    · show _ + L.properties.unspent_fee_budget - L.properties.mined_rewards - L.properties.miner_budget_from_fees = _
      omega
    · rfl
  show excess a (L.with_dynamic id d) = excess a L + (if a = id then ((L.with_dynamic id d).dynamic id).asset_pool - _ -
    (((L.with_dynamic id d).dynamic id).current_supply - _) else 0) +
    if a = core then ((L.with_dynamic id d).dynamic id).core_pool - _ else 0
  rw [here id,if_pos rfl,old]
  unfold excess
  rw [here a,budget]
  show balances_in a L + vestings_in a L + prices_in a L + escrows_in a L + _ - _ + _ = _
  split
  case isTrue same =>
    rw [same,old]
    omega
  case isFalse => omega

/-- A change of supply and pools by fixed amounts. -/
theorem excess_shift {id : AssetId} {f : DynamicData → Except Fault DynamicData} {s x y : Int} {u : Unit}
    (shift : ∀ old new, f old = .ok new → new.current_supply = old.current_supply + s ∧
      new.asset_pool = old.asset_pool + x ∧ new.core_pool = old.core_pool + y)
    (ran : EStateM.run (modify_dynamic id f) L = .ok u L') :
    excess a L' = excess a L + (⟨x - s,id⟩ : Asset).part a + (⟨y,core⟩ : Asset).part a := by
  obtain ⟨supply,pool,core_pool⟩ := shift _ _ (dynamic_modify_dynamic ran)
  rw [excess_modify_dynamic a ran,supply,pool,core_pool]
  simp only [Asset.part,eq_comm (a := a)]
  split <;> split <;> omega

theorem excess_vestings (t : Index VestingBalance) :
    excess a { L with vestings := t } = excess a L + (t.total (fun v => v.balance.part a) - vestings_in a L) := by
  show balances_in a L + t.total _ + prices_in a L + escrows_in a L + (L.dynamic a).asset_pool -
    (L.dynamic a).current_supply + budget_in a L = _
  unfold excess
  omega

theorem excess_buyings (t : Index Buying) :
    excess a { L with buyings := t } = excess a L + (t.total (fun b => b.price.part a) - prices_in a L) := by
  show balances_in a L + vestings_in a L + t.total _ + escrows_in a L + (L.dynamic a).asset_pool -
    (L.dynamic a).current_supply + budget_in a L = _
  unfold excess
  omega

theorem excess_contents (t : Index Content) :
    excess a { L with contents := t } = excess a L + (t.total (fun c => c.publishing_fee_escrow.part a) - escrows_in a L) := by
  show balances_in a L + vestings_in a L + prices_in a L + t.total _ + (L.dynamic a).asset_pool -
    (L.dynamic a).current_supply + budget_in a L = _
  unfold excess
  omega

theorem excess_create_content (L : Ledger) (c : Content) :
    excess a { L with contents := L.contents.create c } = excess a L + c.publishing_fee_escrow.part a := by
  rw [excess_contents,Index.total_create,escrows_in]
  omega

theorem excess_update_content {id : Nat} {c : Content} (found : L.contents.find? id = some c) (f : Content → Content) :
    excess a { L with contents := L.contents.update id f } =
      excess a L - c.publishing_fee_escrow.part a + (f c).publishing_fee_escrow.part a := by
  rw [excess_contents,Index.total_update _ f found,escrows_in]
  omega

theorem excess_create_buying (L : Ledger) (b : Buying) :
    excess a (L.with_buying b) = excess a L + b.price.part a := by
  rw [Ledger.with_buying,excess_buyings,Index.total_create,prices_in]
  omega

theorem excess_update_buying {id : Nat} {b : Buying} (found : L.buyings.find? id = some b) (f : Buying → Buying) :
    excess a { L with buyings := L.buyings.update id f } = excess a L - b.price.part a + (f b).price.part a := by
  rw [excess_buyings,Index.total_update _ f found,prices_in]
  omega

end

/-! ### What leaves it -/

/-- The excess of every asset is what it was. -/
def Even (L L' : Ledger) : Prop := ∀ a, excess a L' = excess a L

instance even_composes : Composes Even where
  refl _ _ := rfl
  trans first second := fun a => (second a).trans (first a)

theorem even_update_content (L : Ledger) (id : Nat) {f : Content → Content}
    (same : ∀ c, (f c).publishing_fee_escrow = c.publishing_fee_escrow) :
    Even L { L with contents := L.contents.update id f } := by
  intro a
  have total : (L.contents.update id f).total (fun c => c.publishing_fee_escrow.part a) = escrows_in a L :=
    total_update_same _ _ _ fun c => by rw [same]
  rw [excess_contents,total]
  omega

instance : Bookkeeping Even where
  statistics _ _ _ := rfl
  reset _ _ _ _ := rfl
  publishing _ _ _ := rfl
  seeders _ _ _ := rfl
  permissions _ _ _ := rfl
  subscription _ _ _ _ _ := rfl
  content L id _ incidental := even_update_content L id incidental.publishing_fee_escrow
  applied _ _ _ _ := rfl

theorem dynamic_eq (L : Ledger) (a : AssetId) :
    L.dynamic a = ((L.assets.find? a).map (·.dynamic)).getD ⟨0,0,0⟩ := by
  unfold Ledger.dynamic
  cases L.assets.find? a <;> rfl

theorem even_settled {L L' : Ledger} (settled : Settled L L') : Even L L' := by
  intro a
  have dynamic : L'.dynamic a = L.dynamic a := by
    have same := Table.map_find?_of_rows (g := fun ao : AssetObject => (ao.dynamic,ao.is_monitored_asset)) settled.asset_rows a
    have same := congrArg (Option.map Prod.fst) same
    simp only [Option.map_map,Function.comp_def] at same
    rw [dynamic_eq,dynamic_eq]
    exact congrArg (Option.getD · ⟨0,0,0⟩) same
  have pools : core_pools L' = core_pools L := by
    have same := congrArg (List.map fun row : Nat × DynamicData × Bool => row.2.1.core_pool) settled.asset_rows
    simp only [List.map_map,Function.comp_def] at same
    exact congrArg List.sum same
  unfold excess balances_in vestings_in prices_in escrows_in budget_in
  rw [settled.balances,settled.vestings,settled.buyings,settled.contents,settled.properties,dynamic,pools]

/-! ### Vesting balances -/

section
variable {L L' : Ledger} (a : AssetId)

theorem excess_deposit {id : Nat} {amount : Asset} {u : Unit} (ran : EStateM.run (deposit id amount) L = .ok u L') :
    excess a L' = excess a L + amount.part a := by
  simp only [deposit,run_observe_bind,run_get_bind,get_vesting_ok,reads_lift,Asset.add_ok] at ran
  obtain ⟨v,found,balance,⟨same,-,rfl⟩,stored⟩ := ran
  cases stored
  rw [excess_vestings,Index.total_update _ _ found,part_add same,vestings_in]
  omega

theorem excess_withdraw {id : Nat} {amount : Asset} {u : Unit} (ran : EStateM.run (withdraw id amount) L = .ok u L') :
    excess a L' = excess a L - amount.part a := by
  simp only [withdraw,run_observe_bind,run_get_bind,get_vesting_ok,reads_lift,Asset.sub_ok] at ran
  obtain ⟨v,found,balance,⟨same,-,rfl⟩,stored⟩ := ran
  cases stored
  rw [excess_vestings,Index.total_update _ _ found,part_sub same,vestings_in]
  omega

theorem excess_create_vesting {v : VestingBalance} {id : Nat} (ran : EStateM.run (create_vesting v) L = .ok id L') :
    excess a L' = excess a L + v.balance.part a := by
  cases ran
  show excess a { L with vestings := L.vestings.create v } = _
  rw [excess_vestings,Index.total_create]
  unfold vestings_in
  omega

theorem excess_deposit_lazy_vesting {ovbid new : Option Nat} {amount : Int} {seconds : Nat} {owner : AccountId}
    (ran : EStateM.run (deposit_lazy_vesting ovbid amount seconds owner) L = .ok new L') :
    excess a L' = excess a L + (⟨amount,core⟩ : Asset).part a := by
  have fresh {L' : Ledger} {new : Option Nat}
      (ran : EStateM.run (deposit_lazy_vesting.fresh amount seconds owner) L = .ok new L') :
      excess a L' = excess a L + (⟨amount,core⟩ : Asset).part a := by
    obtain ⟨id,_,created,ran⟩ := run_bind_ok.mp (run_get_bind.mp ran)
    cases ran
    exact excess_create_vesting a created
  unfold deposit_lazy_vesting at ran
  split at ran
  case isTrue zero =>
    cases ran
    rw [part_zero zero]
    omega
  case isFalse =>
    cases ovbid with
    | none => exact fresh ran
    | some vbid =>
      simp only [run_observe_bind] at ran
      obtain ⟨vbo,-,ran⟩ := ran
      split at ran
      · obtain ⟨_,_,deposited,ran⟩ := run_bind_ok.mp ran
        cases ran
        exact excess_deposit a deposited
      · exact fresh ran

theorem excess_deposit_miner_pay {miner : Nat} {pay : Int} {u : Unit}
    (ran : EStateM.run (deposit_miner_pay miner pay) L = .ok u L') :
    excess a L' = excess a L + (⟨pay,core⟩ : Asset).part a := by
  unfold deposit_miner_pay at ran
  split at ran
  case isTrue zero =>
    cases ran
    rw [part_zero zero]
    omega
  case isFalse =>
    rw [run_get_bind] at ran
    split at ran
    · cases ran
    · obtain ⟨new,L₁,deposited,ran⟩ := run_bind_ok.mp ran
      rw [← excess_deposit_lazy_vesting a deposited]
      split at ran <;> cases ran <;> rfl

/-! ### Conversions -/

theorem excess_change_pools {id : AssetId} {asset_pool_diff core_pool_diff : Int} {u : Unit}
    (ran : EStateM.run (convert_uia.change_pools id asset_pool_diff core_pool_diff) L = .ok u L') :
    excess a L' = excess a L + (⟨asset_pool_diff,id⟩ : Asset).part a + (⟨core_pool_diff,core⟩ : Asset).part a := by
  have moved := excess_shift a (s := 0) (x := asset_pool_diff) (y := core_pool_diff) ?_ ran
  · rw [moved,Int.sub_zero]
  · intro old new changed
    simp only [bind_ok,checked_ok,fc_assert_ok,pure_ok] at changed
    obtain ⟨_,⟨-,rfl⟩,_,-,_,⟨-,rfl⟩,_,-,rfl⟩ := changed
    exact ⟨(Int.add_zero _).symm,rfl,rfl⟩

/-- What an asset pays for another by the rate of its pools. -/
theorem excess_convert_uia {id : AssetId} {amount converted : Asset}
    (ran : EStateM.run (convert_uia id amount) L = .ok converted L')
    (exchanged : amount.asset_id = id → converted.asset_id = core)
    (returned : amount.asset_id ≠ id → converted.asset_id = id) :
    excess a L' = excess a L + amount.part a - converted.part a := by
  simp only [convert_uia,run_observe_bind] at ran
  obtain ⟨ao,-,_,-,ran⟩ := ran
  split at ran
  case isTrue same =>
    simp only [run_observe_bind,reads_lift,Asset.negate_ok] at ran
    obtain ⟨x,-,_,⟨-,rfl⟩,ran⟩ := ran
    obtain ⟨_,_,changed,last⟩ := run_bind_ok.mp ran
    cases last
    rw [excess_change_pools a changed]
    have inCore := exchanged same
    simp only [Asset.part,same,inCore]
    split <;> split <;> omega
  case isFalse other =>
    simp only [run_observe_bind,reads_lift,fc_assert_ok,Asset.negate_ok] at ran
    obtain ⟨_,inCore,x,-,_,⟨-,rfl⟩,ran⟩ := ran
    obtain ⟨_,_,changed,last⟩ := run_bind_ok.mp ran
    cases last
    rw [excess_change_pools a changed]
    have back := returned other
    simp only [Asset.part,inCore,back]
    split <;> split <;> omega

/-! ### Payouts -/

theorem excess_pay_escrow {id : Nat} {refund : Bool} {entitled : List AccountId} {account : AccountId} {amount : Asset}
    {u : Unit} (ran : EStateM.run (pay_escrow id refund entitled account amount) L = .ok u L') :
    excess a L' = excess a L + amount.part a := by
  obtain ⟨_,_,adjusted,noted⟩ := run_bind_ok.mp ran
  cases noted
  have moved := excess_adjust_balance a adjusted
  exact moved

end

section
variable {pay : AccountId → Asset → M Unit} (a : AssetId)

theorem excess_pay_co_authors (paying : ∀ {account amount L L' u}, EStateM.run (pay account amount) L = .ok u L' →
      excess a L' = excess a L + amount.part a) {amount : Asset} {rows : List (AccountId × Nat)} :
    ∀ {remaining left : Int} {L L' : Ledger}, EStateM.run (pay_co_authors pay amount rows remaining) L = .ok left L' →
      excess a L' + (⟨left,amount.asset_id⟩ : Asset).part a = excess a L + (⟨remaining,amount.asset_id⟩ : Asset).part a := by
  induction rows with
  | nil =>
    intro remaining left L L' ran
    cases ran
    rfl
  | cons row rest ih =>
    intro remaining left L L' ran
    simp only [pay_co_authors,run_bind_ok,run_observe,reads_lift,checked_ok] at ran
    obtain ⟨_,L₁,paid,_,_,⟨⟨-,rfl⟩,rfl⟩,ran⟩ := ran
    have first := paying paid
    have later := ih ran
    by_cases inAsset : amount.asset_id = a
    · simp only [Asset.part,if_pos inAsset] at first later ⊢
      omega
    · simp only [Asset.part,if_neg inAsset] at first later ⊢
      omega

theorem excess_pay_author (paying : ∀ {account amount L L' u}, EStateM.run (pay account amount) L = .ok u L' →
      excess a L' = excess a L + amount.part a) {author : AccountId} {remaining : Asset} {L L' : Ledger} {u : Unit}
    (ran : EStateM.run (pay_author pay author remaining) L = .ok u L') : excess a L' = excess a L + remaining.part a := by
  unfold pay_author at ran
  split at ran
  case isFalse nothing =>
    cases ran
    rw [part_zero (by simpa using nothing)]
    omega
  case isTrue =>
    obtain ⟨_,-,paid⟩ := run_observe_bind.mp ran
    exact paying paid

/-- All of the amount goes to the author and the co-authors. -/
theorem excess_shared (paying : ∀ {account amount L L' u}, EStateM.run (pay account amount) L = .ok u L' →
      excess a L' = excess a L + amount.part a) {amount : Asset} {rows : List (AccountId × Nat)} {author : AccountId}
    {left : Int} {L L₁ L' : Ledger} {u : Unit}
    (shared : EStateM.run (pay_co_authors pay amount rows amount.amount) L = .ok left L₁)
    (ran : EStateM.run (pay_author pay author ⟨left,amount.asset_id⟩) L₁ = .ok u L') :
    excess a L' = excess a L + amount.part a := by
  rw [excess_pay_author a paying ran]
  exact excess_pay_co_authors a paying shared

theorem excess_content_payout {id : Nat} {amount : Asset} {content : Content} {L L' : Ledger} {u : Unit}
    (ran : EStateM.run (content_payout id amount content) L = .ok u L') : excess a L' = excess a L + amount.part a := by
  unfold content_payout at ran
  dsimp only at ran
  split at ran
  case isTrue => exact excess_pay_escrow a ran
  case isFalse =>
    obtain ⟨left,L₁,shared,ran⟩ := run_bind_ok.mp ran
    exact excess_shared a (excess_pay_escrow a) shared ran

end

end Decent.Money

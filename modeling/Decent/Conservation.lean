import Decent.Holdings
import Decent.Terms

/-!
Conservation. Operation by operation and block by block, what is taken from one holding of
an asset is added to another or to its supply. Three places lose or create core: half of
an odd fee of `asset_create`, or of one in another asset; a purchase whose price is in a
monitored asset; a renewal at a negative price that the author cannot pay. User-issued
assets are conserved in every run.
-/
namespace Decent.Money
open Throwing

/-! ### Operations that only move money -/

section
variable {L L' : Ledger} {id : AssetId} {x : Int} {u : Unit} (a : AssetId)

theorem excess_fund_asset_pool (ran : EStateM.run (modify_dynamic id fun d =>
      return { d with asset_pool := ← checked (d.asset_pool + x) }) L = .ok u L') :
    excess a L' = excess a L + (⟨x,id⟩ : Asset).part a := by
  have moved := excess_shift a (s := 0) (x := x) (y := 0) ?_ ran
  · rw [moved,Int.sub_zero,part_zero (x := ⟨0,core⟩) rfl,Int.add_zero]
  · intro old new changed
    simp only [bind_ok,checked_ok,pure_ok] at changed
    obtain ⟨_,⟨-,rfl⟩,rfl⟩ := changed
    exact ⟨(Int.add_zero _).symm,rfl,(Int.add_zero _).symm⟩

theorem excess_claim_asset_pool (ran : EStateM.run (modify_dynamic id fun d =>
      return { d with asset_pool := ← checked (d.asset_pool - x) }) L = .ok u L') :
    excess a L' = excess a L - (⟨x,id⟩ : Asset).part a := by
  have moved := excess_shift a (s := 0) (x := -x) (y := 0) ?_ ran
  · rw [moved,Int.sub_zero,part_zero (x := ⟨0,core⟩) rfl,part_negate ⟨x,id⟩]
    omega
  · intro old new changed
    simp only [bind_ok,checked_ok,pure_ok] at changed
    obtain ⟨_,⟨-,rfl⟩,rfl⟩ := changed
    exact ⟨(Int.add_zero _).symm,Int.sub_eq_add_neg,(Int.add_zero _).symm⟩

theorem excess_fund_core_pool (ran : EStateM.run (modify_dynamic id fun d =>
      return { d with core_pool := ← checked (d.core_pool + x) }) L = .ok u L') :
    excess a L' = excess a L + (⟨x,core⟩ : Asset).part a := by
  have moved := excess_shift a (s := 0) (x := 0) (y := x) ?_ ran
  · rw [moved,part_zero (x := ⟨0 - 0,id⟩) rfl,Int.add_zero]
  · intro old new changed
    simp only [bind_ok,checked_ok,pure_ok] at changed
    obtain ⟨_,⟨-,rfl⟩,rfl⟩ := changed
    exact ⟨(Int.add_zero _).symm,(Int.add_zero _).symm,rfl⟩

theorem excess_claim_core_pool (ran : EStateM.run (modify_dynamic id fun d =>
      return { d with core_pool := ← checked (d.core_pool - x) }) L = .ok u L') :
    excess a L' = excess a L - (⟨x,core⟩ : Asset).part a := by
  have moved := excess_shift a (s := 0) (x := 0) (y := -x) ?_ ran
  · rw [moved,part_zero (x := ⟨0 - 0,id⟩) rfl,part_negate ⟨x,core⟩]
    omega
  · intro old new changed
    simp only [bind_ok,checked_ok,pure_ok] at changed
    obtain ⟨_,⟨-,rfl⟩,rfl⟩ := changed
    exact ⟨(Int.add_zero _).symm,(Int.add_zero _).symm,Int.sub_eq_add_neg⟩

end

section
variable {L L' : Ledger}

theorem even_transfer {o : TransferOperation} (ran : EStateM.run (transfer_apply o) L = .ok () L') : Even L L' := by
  intro a
  simp only [transfer_apply,run_observe_bind,reads_lift] at ran
  obtain ⟨_,negated,ran⟩ := ran
  obtain ⟨_,_,taken,given⟩ := run_bind_ok.mp ran
  rw [excess_adjust_balance a given,excess_negated a negated taken]
  omega

theorem even_transfer2 {o : Transfer2Operation} (ran : EStateM.run (transfer2_apply o) L = .ok () L') : Even L L' := by
  intro a
  simp only [transfer2_apply,run_observe_bind,reads_lift] at ran
  obtain ⟨_,negated,ran⟩ := ran
  obtain ⟨_,L₁,taken,ran⟩ := run_bind_ok.mp ran
  have first := excess_negated a negated taken
  have given : excess a L' = excess a L₁ + o.amount.part a := by
    split at ran
    · exact excess_adjust_balance a ran
    · rw [run_get_bind] at ran
      split at ran
      · cases ran
      · obtain ⟨left,L₂,shared,ran⟩ := run_bind_ok.mp ran
        exact excess_shared a (excess_adjust_balance a) shared ran
  omega

theorem even_asset_issue {o : AssetIssueOperation} (ran : EStateM.run (asset_issue_apply o) L = .ok () L') : Even L L' := by
  intro a
  obtain ⟨_,L₁,given,issued⟩ := run_bind_ok.mp ran
  have moved := excess_shift a (s := o.asset_to_issue.amount) (x := 0) (y := 0) ?_ issued
  · rw [moved,excess_adjust_balance a given,part_zero (x := ⟨0,core⟩) rfl,Int.zero_sub,part_negate]
    omega
  · intro old new changed
    simp only [bind_ok,checked_ok,pure_ok] at changed
    obtain ⟨_,⟨-,rfl⟩,rfl⟩ := changed
    exact ⟨rfl,(Int.add_zero _).symm,(Int.add_zero _).symm⟩

theorem even_asset_reserve {o : AssetReserveOperation} (ran : EStateM.run (asset_reserve_apply o) L = .ok () L') :
    Even L L' := by
  intro a
  simp only [asset_reserve_apply,run_observe_bind,reads_lift] at ran
  obtain ⟨_,negated,ran⟩ := ran
  obtain ⟨_,L₁,taken,reserved⟩ := run_bind_ok.mp ran
  have moved := excess_shift a (s := -o.amount_to_reserve.amount) (x := 0) (y := 0) ?_ reserved
  · rw [moved,excess_negated a negated taken,part_zero (x := ⟨0,core⟩) rfl,Int.zero_sub,Int.neg_neg,Int.add_zero]
    exact Int.sub_add_cancel _ _
  · intro old new changed
    simp only [bind_ok,checked_ok,pure_ok] at changed
    obtain ⟨_,⟨-,rfl⟩,rfl⟩ := changed
    exact ⟨Int.sub_eq_add_neg,(Int.add_zero _).symm,(Int.add_zero _).symm⟩

theorem even_asset_fund_pools {o : AssetFundPoolsOperation} (inCore : o.dct_asset.asset_id = core)
    (ran : EStateM.run (asset_fund_pools_apply o) L = .ok () L') : Even L L' := by
  intro a
  have dct {L L' : Ledger} (ran : EStateM.run (if 0 < o.dct_asset.amount then do
        adjust_balance o.from_account (← observe o.dct_asset.negate)
        modify_dynamic o.uia_asset.asset_id fun data =>
          return { data with core_pool := ← checked (data.core_pool + o.dct_asset.amount) }
      else pure ()) L = .ok () L') : excess a L' = excess a L := by
    split at ran
    · obtain ⟨_,negated,ran⟩ := run_observe_bind.mp ran
      obtain ⟨_,_,taken,funded⟩ := run_bind_ok.mp ran
      rw [excess_fund_core_pool a funded,excess_negated a negated taken,← inCore]
      exact Int.sub_add_cancel _ _
    · cases ran
      rfl
  unfold asset_fund_pools_apply at ran
  dsimp only at ran
  split at ran
  · obtain ⟨_,negated,ran⟩ := run_observe_bind.mp ran
    obtain ⟨_,_,taken,ran⟩ := run_bind_ok.mp ran
    obtain ⟨_,_,funded,ran⟩ := run_bind_ok.mp ran
    rw [dct ran,excess_fund_asset_pool a funded,excess_negated a negated taken]
    exact Int.sub_add_cancel _ _
  · exact dct ran

theorem even_asset_claim_fees {o : AssetClaimFeesOperation} (inCore : o.dct_asset.asset_id = core)
    (ran : EStateM.run (asset_claim_fees_apply o) L = .ok () L') : Even L L' := by
  intro a
  have dct {L L' : Ledger} (ran : EStateM.run (if 0 < o.dct_asset.amount then do
        adjust_balance o.issuer o.dct_asset
        modify_dynamic o.uia_asset.asset_id fun addo =>
          return { addo with core_pool := ← checked (addo.core_pool - o.dct_asset.amount) }
      else pure ()) L = .ok () L') : excess a L' = excess a L := by
    split at ran
    · obtain ⟨_,_,given,claimed⟩ := run_bind_ok.mp ran
      rw [excess_claim_core_pool a claimed,excess_adjust_balance a given,← inCore]
      exact Int.add_sub_cancel _ _
    · cases ran
      rfl
  unfold asset_claim_fees_apply at ran
  dsimp only at ran
  split at ran
  · obtain ⟨_,_,given,ran⟩ := run_bind_ok.mp ran
    obtain ⟨_,_,claimed,ran⟩ := run_bind_ok.mp ran
    rw [dct ran,excess_claim_asset_pool a claimed,excess_adjust_balance a given]
    exact Int.add_sub_cancel _ _
  · exact dct ran

theorem even_withdraw_permission_claim {o : WithdrawPermissionClaimOperation}
    (ran : EStateM.run (withdraw_permission_claim_apply o) L = .ok () L') : Even L L' := by
  intro a
  simp only [withdraw_permission_claim_apply,run_observe_bind,reads_lift] at ran
  obtain ⟨_,-,_,-,_,-,ran⟩ := ran
  obtain ⟨_,_,claimed,ran⟩ := run_bind_ok.mp ran
  cases claimed
  obtain ⟨_,negated,ran⟩ := run_observe_bind.mp ran
  obtain ⟨_,_,taken,given⟩ := run_bind_ok.mp ran
  have first := excess_negated a negated taken
  rw [excess_adjust_balance a given,first]
  show excess a L - _ + _ = _
  omega

theorem even_vesting_balance_create {o : VestingBalanceCreateOperation}
    (ran : EStateM.run (vesting_balance_create_apply o) L = .ok () L') : Even L L' := by
  intro a
  simp only [vesting_balance_create_apply,run_observe_bind,reads_lift] at ran
  obtain ⟨_,-,_,-,_,-,_,negated,ran⟩ := ran
  obtain ⟨_,_,taken,ran⟩ := run_bind_ok.mp ran
  obtain ⟨_,_,created,last⟩ := run_bind_ok.mp ran
  cases last
  rw [excess_create_vesting a created,excess_negated a negated taken]
  exact Int.sub_add_cancel _ _

theorem even_vesting_balance_withdraw {o : VestingBalanceWithdrawOperation}
    (ran : EStateM.run (vesting_balance_withdraw_apply o) L = .ok () L') : Even L L' := by
  intro a
  obtain ⟨_,_,taken,given⟩ := run_bind_ok.mp ran
  rw [excess_adjust_balance a given,excess_withdraw a taken]
  omega

theorem even_content_submit {o : ContentSubmitOperation} {content : Option Nat}
    (ran : EStateM.run (content_submit_apply o content) L = .ok () L') : Even L L' := by
  cases content with
  | some id =>
    have again : Within Even (modify_content id fun co =>
        { co with price := set_prices co.price o.price, co_authors := o.co_authors }) :=
      within_modify_content ⟨fun _ => rfl,fun _ => rfl,fun _ => rfl,fun _ => rfl,fun _ => rfl,fun _ => rfl,fun _ => rfl⟩
    exact again.ok ran
  | none =>
    intro a
    obtain ⟨now,-,ran⟩ := run_observe_bind.mp ran
    obtain ⟨_,_,created,ran⟩ := run_bind_ok.mp (run_get_bind.mp ran)
    cases created
    obtain ⟨_,negated,ran⟩ := run_observe_bind.mp ran
    obtain ⟨_,L₁,charged,ran⟩ := run_bind_ok.mp ran
    obtain ⟨_,_,noted,ran⟩ := run_bind_ok.mp ran
    cases noted
    obtain ⟨_,_,reserved,requested⟩ := run_bind_ok.mp ran
    have entered := excess_create_content a L (new_content o now)
    have first := excess_negated a negated charged
    have last : excess a L' = excess a L₁ :=
      (Within.ok (P := Even) inferInstance requested a).trans (Within.ok (P := Even) inferInstance reserved a)
    rw [last,first,entered]
    exact Int.add_sub_cancel _ _

theorem even_content_cancellation {o : ContentCancellationOperation}
    (ran : EStateM.run (content_cancellation_apply o) L = .ok () L') : Even L L' := by
  simp only [content_cancellation_apply,run_observe_bind] at ran
  obtain ⟨⟨id,content⟩,-,now,-,changed⟩ := ran
  cases changed
  exact even_update_content L id fun _ => rfl

/-- The reward of a seeder comes out of the publishing escrow. -/
theorem even_proof_of_custody {o : ProofOfCustodyOperation} (ran : EStateM.run (proof_of_custody_apply o) L = .ok () L') :
    Even L L' := by
  cases proof_of_custody_ok ran with
  | first id content _ _ found new parts counted =>
    have proved : Even L (L.with_content id (proved_content o.seeder L.properties.time)) :=
      even_update_content L id fun _ => rfl
    exact even_composes.trans proved (Within.ok inferInstance counted)
  | again id content reward L₁ L₂ _ _ counted found old inCore capped rewarded noted =>
    intro a
    have first : excess a L₁ = excess a L := Within.ok (P := Even) inferInstance counted a
    have taken := excess_update_content a found
      (rewarded_content o.seeder L.properties.time ⟨content.publishing_fee_escrow.amount - reward,core⟩)
    dsimp only [rewarded_content] at taken
    rw [← inCore,part_sub (y := ⟨reward,core⟩) inCore] at taken
    have given := excess_adjust_balance a rewarded
    have last : excess a L' = excess a L₂ := by rw [noted]; rfl
    rw [Ledger.with_content,← inCore,taken] at given
    rw [last,given,first,inCore]
    omega

/-! ### The ends of an escrow -/

theorem even_buying_expire {id : Nat} {b : Buying} {u : Unit} (found : L.buyings.find? id = some b)
    (ran : EStateM.run (buying_expire id b) L = .ok u L') : Even L L' := by
  intro a
  obtain ⟨_,L₁,paid,ran⟩ := run_bind_ok.mp ran
  obtain ⟨now,-,ran⟩ := run_observe_bind.mp ran
  obtain ⟨_,_,closed,pushed⟩ := run_bind_ok.mp ran
  have found : L₁.buyings.find? id = some b := by rw [pay_escrow_ok paid]; exact found
  have released := excess_update_buying a found (returned_buying now)
  rw [excess_pay_escrow a paid,part_zero (x := (returned_buying now b).price) rfl] at released
  cases closed
  cases pushed
  refine Eq.trans released ?_
  omega

theorem even_finish_buying {id k : Nat} {b : Buying} {content : Content} {u : Unit} (found : L.buyings.find? id = some b)
    (held : b.price = b.paid_price_after_exchange)
    (ran : EStateM.run (finish_buying id b k content) L = .ok u L') : Even L L' := by
  intro a
  obtain ⟨_,L₁,counted,ran⟩ := run_bind_ok.mp ran
  obtain ⟨_,L₂,paid,ran⟩ := run_bind_ok.mp ran
  obtain ⟨now,-,ran⟩ := run_observe_bind.mp ran
  obtain ⟨_,_,closed,pushed⟩ := run_bind_ok.mp ran
  have first := Within.ok (P := Even) inferInstance counted a
  have found : L₂.buyings.find? id = some b := by
    obtain ⟨new,frame,-,-⟩ := content_payout_ok paid
    cases counted
    rw [frame]
    exact found
  have released := excess_update_buying a found (delivered_buying now)
  rw [excess_content_payout a paid,part_zero (x := (delivered_buying now b).price) rfl,held,first] at released
  cases closed
  cases pushed
  refine Eq.trans released ?_
  omega

theorem even_deliver_keys {o : DeliverKeysOperation} (kept : Kept L) (ran : EStateM.run (deliver_keys_apply o) L = .ok () L') :
    Even L L' := by
  simp only [deliver_keys_apply,run_bind_ok,run_observe,get_buying_ok] at ran
  obtain ⟨seen,_,⟨found,rfl⟩,now,_,⟨-,rfl⟩,⟨k,content⟩,_,⟨read,rfl⟩,_,L₁,noted,b,_,⟨found₁,rfl⟩,ran⟩ := ran
  obtain ⟨kept₁,-,-⟩ := kept.note found noted
  have first : Even L L₁ := by
    intro a
    rcases note_answer_ok noted with rfl | frame
    · rfl
    · have same := excess_update_buying a found (answered_buying o)
      rw [frame]
      refine Eq.trans same ?_
      show _ - seen.price.part a + seen.price.part a = _
      omega
  refine even_composes.trans first ?_
  split at ran
  case isTrue =>
    cases ran
    exact even_composes.refl _
  case isFalse pending =>
    simp only [Bool.or_eq_true,not_or,Bool.not_eq_true] at pending
    split at ran
    case isTrue =>
      cases kept₁.buyings found₁ with
      | waiting _ _ held _ => exact even_finish_buying found₁ held ran
      | delivered delivered => exact absurd (pending.1.symm.trans delivered) Bool.false_ne_true
      | expired _ expired => exact absurd (pending.2.symm.trans expired) Bool.false_ne_true
    case isFalse =>
      split at ran
      · exact even_buying_expire found₁ ran
      · cases ran
        exact even_composes.refl _

/-! ### Subscriptions and accounts -/

theorem even_extend_subscription {from_account to_account : AccountId} : Within Even (extend_subscription from_account to_account) := by
  unfold extend_subscription
  refine .andThen fun L => .andThen fun author => ?_
  dsimp only
  split
  · exact within_modify_subscription fun _ => ⟨rfl,rfl⟩
  · exact .modify fun _ _ => rfl

theorem even_subscribe {o : SubscribeOperation} (ran : EStateM.run (subscribe_apply o) L = .ok () L') : Even L L' := by
  intro a
  obtain ⟨_,L₁,extended,ran⟩ := run_bind_ok.mp ran
  obtain ⟨_,negated,ran⟩ := run_observe_bind.mp ran
  obtain ⟨_,L₂,taken,given⟩ := run_bind_ok.mp ran
  rw [excess_adjust_balance a given,excess_negated a negated taken,even_extend_subscription.ok extended a]
  omega

theorem even_account_update (o : AccountUpdateOperation) : Within Even (account_update_apply o) := by
  unfold account_update_apply
  split
  · infer_instance
  · have stored (options : AccountOptions) : Within Even (modify fun L : Ledger =>
        { L with accounts := L.accounts.update o.account fun a => { a with options := options } } : M Unit) :=
      .modify fun _ _ => rfl
    infer_instance

end

/-! ### Purchases -/

/-- Options and feeds of assets are as they were. -/
def SameRates (L L' : Ledger) : Prop := ∀ id, (L'.assets.find? id).map (fun ao => (ao.options,ao.monitored_asset_opts)) =
  (L.assets.find? id).map fun ao => (ao.options,ao.monitored_asset_opts)

instance : Pooling SameRates where
  refl _ _ := rfl
  trans first second := fun id => (second id).trans (first id)
  dynamic L id _ k := Index.map_find?_update L.assets id k fun _ => rfl

theorem SameRates.find {L L' : Ledger} {id : AssetId} {ao ao' : AssetObject} (rates : SameRates L L')
    (found : L.assets.find? id = some ao) (found' : L'.assets.find? id = some ao') :
    ao'.options = ao.options ∧ ao'.monitored_asset_opts = ao.monitored_asset_opts := by
  have same := rates id
  rw [found,found'] at same
  exact Prod.mk.inj (Option.some.inj same)

/-- What a conversion returns depends on options and feeds alone. -/
inductive Converted (ao : AssetObject) (id : AssetId) (amount converted : Asset) : Prop
  | core (isCore : id = core) (inCore : amount.asset_id = core) (same : converted = amount)
  | monitored (notCore : id ≠ Money.core) (m : MonitoredAssetOptions) (monitored : ao.monitored_asset_opts = some m)
      (exchanged : m.current_feed.times amount = .ok converted)
  | pooled (notCore : id ≠ Money.core) (unmonitored : ao.monitored_asset_opts = none)
      (exchanged : ao.options.core_exchange_rate.times amount = .ok converted)

theorem Converted.unique {ao ao' : AssetObject} {id : AssetId} {amount x y : Asset} (first : Converted ao id amount x)
    (second : Converted ao' id amount y) (same : ao'.options = ao.options ∧ ao'.monitored_asset_opts = ao.monitored_asset_opts) :
    y = x := by
  cases first with
  | core isCore _ here =>
    cases second with
    | core _ _ here' => rw [here,here']
    | monitored notCore => exact absurd isCore notCore
    | pooled notCore => exact absurd isCore notCore
  | monitored notCore m monitored exchanged =>
    cases second with
    | core isCore => exact absurd isCore notCore
    | monitored _ m' monitored' exchanged' =>
      rw [same.2,monitored] at monitored'
      cases monitored'
      exact Except.ok.inj (exchanged'.symm.trans exchanged)
    | pooled _ unmonitored =>
      rw [same.2,monitored] at unmonitored
      cases unmonitored
  | pooled notCore unmonitored exchanged =>
    cases second with
    | core isCore => exact absurd isCore notCore
    | monitored _ m' monitored' =>
      rw [same.2,unmonitored] at monitored'
      cases monitored'
    | pooled _ _ exchanged' =>
      rw [same.1] at exchanged'
      exact Except.ok.inj (exchanged'.symm.trans exchanged)

theorem enough_ok {L : Ledger} {add : DynamicData} {converted x : Asset} {asset_pool_diff core_pool_diff : Int}
    (read : can_convert.enough add converted asset_pool_diff core_pool_diff L = .ok (some x)) : x = converted := by
  simp only [can_convert.enough,reads_bind,reads_lift] at read
  obtain ⟨_,-,read⟩ := read
  split at read
  · cases read
  · simp only [reads_bind,reads_lift,reads_pure] at read
    obtain ⟨_,-,read⟩ := read
    split at read
    · cases read
    · exact (Option.some.inj read).symm

theorem can_convert_ok {L : Ledger} {id : AssetId} {amount x : Asset} (read : can_convert id amount L = .ok (some x)) :
    ∃ ao, L.assets.find? id = some ao ∧ Converted ao id amount x := by
  simp only [can_convert,reads_bind,get_asset_ok] at read
  obtain ⟨ao,found,read⟩ := read
  refine ⟨ao,found,?_⟩
  split at read
  case isTrue isCore =>
    rw [reads_pure] at read
    split at read
    case isTrue inCore =>
      cases read
      exact .core isCore inCore rfl
    case isFalse => cases read
  case isFalse notCore =>
    split at read
    case isTrue =>
      rw [reads_pure] at read
      cases read
    case isFalse =>
      cases monitored : ao.monitored_asset_opts with
      | some m =>
        rw [monitored] at read
        rw [reads_read] at read
        split at read
        · simp only [reads_bind,reads_lift,reads_pure] at read
          obtain ⟨y,exchanged,same⟩ := read
          cases same
          exact .monitored notCore m monitored exchanged
        · rw [reads_pure] at read
          cases read
      | none =>
        rw [monitored] at read
        dsimp only at read
        refine .pooled notCore monitored ?_
        split at read
        · simp only [reads_bind,reads_lift] at read
          obtain ⟨y,exchanged,_,-,enough⟩ := read
          rw [enough_ok enough]
          exact exchanged
        · split at read
          · rw [reads_pure] at read
            cases read
          · simp only [reads_bind,reads_lift] at read
            obtain ⟨y,exchanged,_,-,enough⟩ := read
            rw [enough_ok enough]
            exact exchanged

theorem convert_ok {L L' : Ledger} {id : AssetId} {amount x : Asset} (ran : EStateM.run (convert id amount) L = .ok x L') :
    ∃ ao, L.assets.find? id = some ao ∧ Converted ao id amount x ∧
      ((id = core ∨ ao.is_monitored_asset = true) ∧ L' = L ∨
        id ≠ core ∧ ao.is_monitored_asset = false ∧ EStateM.run (convert_uia id amount) L = .ok x L') := by
  obtain ⟨ao,found,ran⟩ := run_observe_bind.mp ran
  refine ⟨ao,get_asset_ok.mp found,?_⟩
  split at ran
  case isTrue isCore =>
    simp only [run_observe_bind,reads_lift,fc_assert_ok] at ran
    obtain ⟨_,inCore,last⟩ := ran
    cases last
    exact ⟨.core isCore inCore rfl,.inl ⟨.inl isCore,rfl⟩⟩
  case isFalse notCore =>
    split at ran
    case isTrue monitored =>
      obtain ⟨read,rfl⟩ := run_observe.mp ran
      simp only [convert_mia,reads_bind] at read
      obtain ⟨ao',found',read⟩ := read
      cases found.symm.trans found'
      cases feed : ao.monitored_asset_opts with
      | none =>
        rw [feed] at read
        cases read
      | some m =>
        rw [feed] at read
        simp only [reads_bind,reads_lift] at read
        obtain ⟨_,-,_,-,_,-,exchanged⟩ := read
        exact ⟨.monitored notCore m feed exchanged,.inl ⟨.inr monitored,rfl⟩⟩
    case isFalse unmonitored =>
      have none : ao.monitored_asset_opts = none := by simpa [AssetObject.is_monitored_asset] using unmonitored
      refine ⟨.pooled notCore none ?_,.inr ⟨notCore,by simpa using unmonitored,ran⟩⟩
      simp only [convert_uia,run_observe_bind] at ran
      obtain ⟨ao',found',_,-,ran⟩ := ran
      cases found.symm.trans found'
      split at ran
      · simp only [run_observe_bind,reads_lift] at ran
        obtain ⟨y,exchanged,_,-,ran⟩ := ran
        obtain ⟨_,_,-,last⟩ := run_bind_ok.mp ran
        cases last
        exact exchanged
      · simp only [run_observe_bind,reads_lift] at ran
        obtain ⟨_,-,y,exchanged,_,-,ran⟩ := ran
        obtain ⟨_,_,-,last⟩ := run_bind_ok.mp ran
        cases last
        exact exchanged

/-- What a purchase was checked for: the price of the content for the region, and both
    conversions when it is paid in another asset. -/
theorem request_to_buy_evaluate_ok {o : RequestToBuyOperation} {L : Ledger} {ctx : BuyingContext}
    (evaluated : request_to_buy_evaluate o L = .ok ctx) :
    (∃ id content, get_content o.URI L = .ok (id,content) ∧ get_price content.price o.region_code_from = some ctx.content_price ∧
      ctx.is_subscriber = L.is_subscribed o.consumer content.author) ∧
    (ctx.is_subscriber = false → ctx.content_price.asset_id ≠ o.price.asset_id → ∃ payment mid after,
      L.assets.find? o.price.asset_id = some payment ∧ payment.is_monitored_asset = false ∧
      can_convert o.price.asset_id o.price L = .ok (some mid) ∧ mid.asset_id = core ∧
      can_convert ctx.content_price.asset_id mid L = .ok (some after) ∧ after.asset_id = ctx.content_price.asset_id) := by
  rw [request_to_buy_evaluate,reads_read] at evaluated
  simp only [reads_bind,reads_lift,fc_assert_ok] at evaluated
  obtain ⟨⟨id,content⟩,read,_,-,_,-,_,-,evaluated⟩ := evaluated
  dsimp only at evaluated
  cases priced : get_price content.price o.region_code_from with
  | none =>
    rw [priced] at evaluated
    cases evaluated
  | some content_price =>
    rw [priced] at evaluated
    simp only [reads_bind,reads_lift,fc_assert_ok] at evaluated
    obtain ⟨_,-,evaluated⟩ := evaluated
    split at evaluated
    case isTrue subscribed =>
      cases evaluated
      exact ⟨⟨id,content,read,priced,subscribed.symm⟩,fun impossible => Bool.noConfusion impossible⟩
    case isFalse unsubscribed =>
      have unsubscribed : false = L.is_subscribed o.consumer content.author := by simpa using unsubscribed
      simp only [reads_bind,get_asset_ok,reads_lift,fc_assert_ok] at evaluated
      obtain ⟨payment,found,priced_in,-,_,exchangeable,evaluated⟩ := evaluated
      split at evaluated
      case isTrue same =>
        simp only [reads_bind,reads_pure] at evaluated
        obtain ⟨_,-,rfl⟩ := evaluated
        exact ⟨⟨id,content,read,priced,unsubscribed⟩,fun _ apart => absurd same apart⟩
      case isFalse =>
        have unmonitored : payment.is_monitored_asset = false := by
          cases monitored : payment.is_monitored_asset with
          | false => rfl
          | true =>
            rw [are_assets_exchangeable,if_pos monitored] at exchangeable
            cases exchangeable
        obtain ⟨mid,first,evaluated⟩ := reads_bind.mp evaluated
        cases mid with
        | none => cases evaluated
        | some mid =>
          simp only [reads_bind,reads_lift,fc_assert_ok] at evaluated
          obtain ⟨_,inCore,after,second,evaluated⟩ := evaluated
          cases after with
          | none => cases evaluated
          | some after =>
            simp only [reads_bind,reads_lift,fc_assert_ok,reads_pure] at evaluated
            obtain ⟨_,inPrice,_,-,rfl⟩ := evaluated
            exact ⟨⟨id,content,read,priced,unsubscribed⟩,
              fun _ _ => ⟨payment,mid,after,found,unmonitored,first,inCore,second,inPrice⟩⟩

theorem times_zero {p : Price} {amount x : Asset} (zero : amount.amount = 0) (converted : p.times amount = .ok x) :
    x.amount = 0 := by
  unfold Price.times at converted
  rw [zero] at converted
  split at converted
  · simp only [Price.exchange,bind_ok,fc_assert_ok,pure_ok] at converted
    obtain ⟨_,-,_,-,rfl⟩ := converted
    simp [product128]
  · split at converted
    · simp only [Price.exchange,bind_ok,fc_assert_ok,pure_ok] at converted
      obtain ⟨_,-,_,-,rfl⟩ := converted
      simp [product128]
    · cases converted

/-- Nothing is converted into nothing. -/
theorem excess_convert_zero {L L' : Ledger} {id : AssetId} {amount x : Asset} (zero : amount.amount = 0)
    (ran : EStateM.run (convert id amount) L = .ok x L') : x.amount = 0 ∧ Even L L' := by
  obtain ⟨ao,found,converted,end_state⟩ := convert_ok ran
  have nothing : x.amount = 0 := by
    cases converted with
    | core _ _ same => rw [same,zero]
    | monitored _ m _ exchanged => exact times_zero zero exchanged
    | pooled _ _ exchanged => exact times_zero zero exchanged
  refine ⟨nothing,?_⟩
  rcases end_state with ⟨-,rfl⟩ | ⟨-,-,ran⟩
  · exact even_composes.refl _
  · intro a
    simp only [convert_uia,run_observe_bind] at ran
    obtain ⟨ao',-,_,-,ran⟩ := ran
    split at ran
    · simp only [run_observe_bind,reads_lift,Asset.negate_ok] at ran
      obtain ⟨y,-,_,⟨-,rfl⟩,ran⟩ := ran
      obtain ⟨_,_,changed,last⟩ := run_bind_ok.mp ran
      cases last
      rw [excess_change_pools a changed,part_zero (x := ⟨_,id⟩) zero,part_zero (by simp [nothing])]
      omega
    · simp only [run_observe_bind,reads_lift,Asset.negate_ok] at ran
      obtain ⟨_,-,y,-,_,⟨-,rfl⟩,ran⟩ := ran
      obtain ⟨_,_,changed,last⟩ := run_bind_ok.mp ran
      cases last
      rw [excess_change_pools a changed,part_zero (x := ⟨_,core⟩) zero,part_zero (by simp [nothing])]
      omega

/-- A conversion that is not at the rate of a feed moves the amount out of the pool that it
    puts the other into. -/
theorem excess_convert {L L' : Ledger} {id : AssetId} {amount x : Asset} {ao : AssetObject}
    (ran : EStateM.run (convert id amount) L = .ok x L') (found : L.assets.find? id = some ao)
    (unmonitored : id = core ∨ ao.is_monitored_asset = false) (exchanged : amount.asset_id = id → x.asset_id = core)
    (returned : amount.asset_id ≠ id → x.asset_id = id) (a : AssetId) :
    excess a L' = excess a L + amount.part a - x.part a := by
  obtain ⟨ao',found',converted,end_state⟩ := convert_ok ran
  cases found.symm.trans found'
  rcases end_state with ⟨monitored,rfl⟩ | ⟨-,-,ran⟩
  · have isCore : id = core := by
      rcases unmonitored with isCore | unmonitored
      · exact isCore
      · rcases monitored with isCore | monitored
        · exact isCore
        · exact absurd (unmonitored.symm.trans monitored) Bool.false_ne_true
    cases converted with
    | core _ _ same =>
      rw [same]
      omega
    | monitored notCore => exact absurd isCore notCore
    | pooled notCore => exact absurd isCore notCore
  · exact excess_convert_uia a ran exchanged returned

/-- What is paid is converted into a monitored asset. -/
def at_feed_rate (L : Ledger) (o : RequestToBuyOperation) (ctx : BuyingContext) : Prop :=
  ctx.content_price.asset_id ≠ o.price.asset_id ∧ (ctx.paid_price o).amount ≠ 0 ∧
    ∃ ao, L.assets.find? ctx.content_price.asset_id = some ao ∧ ao.is_monitored_asset = true

theorem excess_convert_price {o : RequestToBuyOperation} {ctx : BuyingContext} {L₀ L L' : Ledger} {after : Asset}
    (evaluated : request_to_buy_evaluate o L₀ = .ok ctx) (rates : SameRates L₀ L)
    (ran : EStateM.run (convert_price o ctx.content_price (ctx.paid_price o)) L = .ok after L') {a : AssetId}
    (pooled : a = core ∨ a = ctx.content_price.asset_id → ¬ at_feed_rate L₀ o ctx) :
    excess a L' = excess a L + (ctx.paid_price o).part a - after.part a := by
  unfold convert_price at ran
  split at ran
  case isTrue =>
    cases ran
    omega
  case isFalse apart =>
    obtain ⟨mid,L₁,first,second⟩ := run_bind_ok.mp ran
    by_cases nothing : (ctx.paid_price o).amount = 0
    · obtain ⟨zero,even⟩ := excess_convert_zero nothing first
      obtain ⟨zero',even'⟩ := excess_convert_zero zero second
      rw [even' a,even a,part_zero nothing,part_zero zero']
      omega
    · have subscriber : ctx.is_subscriber = false := by
        cases subscriber : ctx.is_subscriber with
        | false => rfl
        | true => exact absurd (by rw [BuyingContext.paid_price,if_pos subscriber]) nothing
      have paid : ctx.paid_price o = o.price := by rw [BuyingContext.paid_price,if_neg (by simp [subscriber])]
      rw [paid] at first ⊢
      obtain ⟨payment,mid₀,after₀,foundPayment,unmonitored,can,inCore,can',inPrice⟩ :=
        (request_to_buy_evaluate_ok evaluated).2 subscriber apart
      -- The rates are those of the evaluation, so both conversions return what it saw.
      obtain ⟨ao₀,found₀,converted₀⟩ := can_convert_ok can
      obtain ⟨ao,found,converted,-⟩ := convert_ok first
      obtain rfl := converted₀.unique converted (rates.find found₀ found)
      cases foundPayment.symm.trans found₀
      have unmonitored : ao.is_monitored_asset = false := by
        rw [← unmonitored,AssetObject.is_monitored_asset,(rates.find found₀ found).2,AssetObject.is_monitored_asset]
      have rates₁ : SameRates L₀ L₁ := Composes.trans rates (Within.ok inferInstance first)
      obtain ⟨bo₀,foundPrice₀,converted₀⟩ := can_convert_ok can'
      obtain ⟨bo,foundPrice,converted,end_state⟩ := convert_ok second
      obtain rfl := converted₀.unique converted (rates₁.find foundPrice₀ foundPrice)
      have sameFeed : bo.is_monitored_asset = bo₀.is_monitored_asset := by
        rw [AssetObject.is_monitored_asset,(rates₁.find foundPrice₀ foundPrice).2,AssetObject.is_monitored_asset]
      have taken := excess_convert first found (.inr unmonitored) (fun _ => inCore) (fun other => absurd rfl other) a
      cases monitored : bo.is_monitored_asset with
      | false =>
        have given := excess_convert second foundPrice (.inr monitored) (fun same => by rw [inPrice,← same,inCore])
          (fun _ => inPrice) a
        omega
      | true =>
        have fed : at_feed_rate L₀ o ctx := ⟨apart,nothing,bo₀,foundPrice₀,sameFeed ▸ monitored⟩
        have other : core ≠ a := fun same => pooled (.inl same.symm) fed
        have other' : after.asset_id ≠ a := fun same => pooled (.inr (same.symm.trans inPrice)) fed
        rcases end_state with ⟨-,rfl⟩ | ⟨-,unfed,-⟩
        · have noCore : mid.part a = 0 := part_other (by rw [inCore]; exact other)
          have noPrice : after.part a = 0 := part_other other'
          omega
        · exact absurd (unfed.symm.trans monitored) Bool.false_ne_true

/-- A purchase moves what is paid into the escrow or to the authors. -/
theorem excess_request_to_buy {o : RequestToBuyOperation} {ctx : BuyingContext} {L₀ L L' : Ledger}
    (evaluated : request_to_buy_evaluate o L₀ = .ok ctx) (rates : SameRates L₀ L)
    (ran : EStateM.run (request_to_buy_apply o ctx) L = .ok () L') {a : AssetId}
    (pooled : a = core ∨ a = ctx.content_price.asset_id → ¬ at_feed_rate L₀ o ctx) : excess a L' = excess a L := by
  have charge {L₁ L₂ : Ledger} (taken : EStateM.run (adjust_balance o.consumer
      ⟨-(ctx.paid_price o).amount,(ctx.paid_price o).asset_id⟩) L₁ = .ok () L₂) :
      excess a L₂ = excess a L₁ - (ctx.paid_price o).part a := by
    rw [excess_adjust_balance a taken,part_negate]
    omega
  cases request_to_buy_ok ran with
  | waiting k content after L₁ L₂ now clock read converted taken counted =>
    have first := excess_convert_price evaluated rates converted pooled
    have created := excess_create_buying a L₁ (new_buying o false (ctx.paid_price o) after now)
    have last : excess a L' = excess a L₂ := Within.ok (P := Even) inferInstance counted a
    rw [last,charge taken,created,first]
    show _ + after.part a - _ = _
    omega
  | delivered k content after L₁ L₂ L₃ now clock read converted taken paid counted =>
    have first := excess_convert_price evaluated rates converted pooled
    have created := excess_create_buying a L₁ (new_buying o true (ctx.paid_price o) after now)
    rw [part_zero (x := (new_buying o true (ctx.paid_price o) after now).price) rfl] at created
    have pushes : Within Even
        (push_applied_operation (.finish_buying content.author after o.consumer L₁.buyings.next)) := within_push fun _ => rfl
    have last : excess a L' = excess a L₃ := Within.ok (P := Even) inferInstance counted a
    rw [last,excess_content_payout a paid,charge taken,created,first]
    omega

end Decent.Money

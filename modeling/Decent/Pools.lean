import Decent.Holdings

/-!
The pools of the assets. What is taken from a pool is checked against it before; but the
fee of an operation is converted between the check and the withdrawal, and a claim of the
core pool whose fee is paid in the claimed asset meets a pool that its own fee has drawn on.
-/
namespace Decent.Money
open Throwing

/-- No pool is below zero. -/
def Solvent (L : Ledger) : Prop := ∀ id, 0 ≤ (L.dynamic id).asset_pool ∧ 0 ≤ (L.dynamic id).core_pool

def Solvency (L L' : Ledger) : Prop := Solvent L → Solvent L'

theorem solvent_congr {L L' : Ledger} (assets : L'.assets = L.assets) : Solvency L L' := by
  intro solvent id
  rw [Ledger.dynamic,assets]
  exact solvent id

instance : Composes Solvency where
  refl _ := id
  trans first second := second ∘ first

instance : Elsewhere Solvency where
  elsewhere assets _ _ := solvent_congr assets

instance : Crediting Solvency where
  balances _ _ := solvent_congr rfl
  vestings _ _ := solvent_congr rfl
  miners _ _ := solvent_congr rfl

instance : Scheduling Solvency where
  properties _ _ := solvent_congr rfl
  parameters _ _ _ := solvent_congr rfl

theorem Settled.dynamic {L L' : Ledger} (settled : Settled L L') (id : AssetId) : L'.dynamic id = L.dynamic id := by
  have same := Table.map_find?_of_rows (g := fun ao : AssetObject => (ao.dynamic,ao.is_monitored_asset)) settled.asset_rows id
  have same := congrArg (Option.map Prod.fst) same
  simp only [Option.map_map,Function.comp_def] at same
  rw [dynamic_eq,dynamic_eq]
  exact congrArg (·.getD ⟨0,0,0⟩) same

/-- A change of the data of one asset that leaves its pools at or above zero. -/
theorem solvent_modify_dynamic {id : AssetId} {f : DynamicData → Except Fault DynamicData} {L L' : Ledger} {u : Unit}
    (ran : EStateM.run (modify_dynamic id f) L = .ok u L')
    (stays : ∀ d, f (L.dynamic id) = .ok d → 0 ≤ (L.dynamic id).asset_pool → 0 ≤ (L.dynamic id).core_pool →
      0 ≤ d.asset_pool ∧ 0 ≤ d.core_pool) : Solvency L L' := by
  intro solvent other
  by_cases here : other = id
  · subst here
    exact stays _ (dynamic_modify_dynamic ran) (solvent other).1 (solvent other).2
  · obtain ⟨a,d,found,-,rfl⟩ := modify_dynamic_ok ran
    have same : Ledger.dynamic { L with assets := L.assets.update id fun a => { a with dynamic := d } } other = L.dynamic other := by
      simp only [Ledger.dynamic,Index.find?_update,if_neg here]
    rw [same]
    exact solvent other

theorem solvency_modify_dynamic {id : AssetId} {f : DynamicData → Except Fault DynamicData}
    (stays : ∀ {d d'}, f d = .ok d' → 0 ≤ d.asset_pool → 0 ≤ d.core_pool → 0 ≤ d'.asset_pool ∧ 0 ≤ d'.core_pool) :
    Within Solvency (modify_dynamic id f) :=
  within_modify_dynamic fun ran => solvent_modify_dynamic ran fun _ changed => stays changed

/-- A conversion asserts what is left. -/
instance (id : AssetId) (asset_pool_diff core_pool_diff : Int) :
    Within Solvency (convert_uia.change_pools id asset_pool_diff core_pool_diff) := by
  refine solvency_modify_dynamic fun changed _ _ => ?_
  simp only [bind_ok,checked_ok,fc_assert_ok,pure_ok] at changed
  obtain ⟨x,⟨-,rfl⟩,_,assetPool,y,⟨-,rfl⟩,_,corePool,rfl⟩ := changed
  exact ⟨assetPool,corePool⟩

/-! ### Fees -/

theorem dynamic_of_find {L : Ledger} {id : AssetId} {a : AssetObject} (found : L.assets.find? id = some a) :
    L.dynamic id = a.dynamic := by
  rw [Ledger.dynamic,found]
  rfl

/-- A fee in another asset is covered by that asset's core pool. -/
theorem prepare_fee_covered {payer : AccountId} {fee : Asset} {x : Int} {L : Ledger} (notCore : fee.asset_id ≠ core)
    (prepared : prepare_fee payer fee L = .ok x) : x ≤ (L.dynamic fee.asset_id).core_pool := by
  unfold prepare_fee at prepared
  simp only [reads_bind,reads_lift,fc_assert_ok,if_neg notCore,reads_pure,get_asset_ok] at prepared
  obtain ⟨_,_,_,_,a,found,_,_,y,_,_,_,_,covered,rfl⟩ := prepared
  rw [dynamic_of_find found]
  exact covered

theorem solvent_convert_fee {fee : Asset} {x : Int} {L L' : Ledger} (nonneg : 0 ≤ fee.amount)
    (covered : fee.asset_id ≠ core → x ≤ (L.dynamic fee.asset_id).core_pool)
    (ran : EStateM.run (convert_fee fee x) L = .ok () L') : Solvency L L' := by
  by_cases inCore : fee.asset_id = core
  · rw [dynamic_convert_fee_core inCore ran]
    exact Composes.refl (P := Solvency) L
  · rw [convert_fee,if_pos inCore] at ran
    refine solvent_modify_dynamic ran fun d changed assetPool _ => ?_
    simp only [bind_ok,checked_ok,pure_ok] at changed
    obtain ⟨a,⟨-,rfl⟩,c,⟨-,rfl⟩,rfl⟩ := changed
    have covered := covered inCore
    dsimp only
    omega

theorem solvent_pay_fee {x : Int} {L L' : Ledger} (nonneg : 0 ≤ x) (ran : EStateM.run (pay_fee x) L = .ok () L') :
    Solvency L L' := by
  refine solvent_modify_dynamic ran fun d changed assetPool corePool => ?_
  simp only [bind_ok,checked_ok,pure_ok] at changed
  obtain ⟨a,⟨-,rfl⟩,rfl⟩ := changed
  dsimp only
  omega

theorem dynamic_other {id other : AssetId} {f : DynamicData → Except Fault DynamicData} {L L' : Ledger} {u : Unit}
    (ran : EStateM.run (modify_dynamic id f) L = .ok u L') (apart : other ≠ id) : L'.dynamic other = L.dynamic other := by
  obtain ⟨a,d,-,-,rfl⟩ := modify_dynamic_ok ran
  simp only [Ledger.dynamic,Index.find?_update,if_neg apart]

/-- What the conversion of a fee leaves of the pools. -/
structure Drawn (fee : Asset) (x : Int) (L L' : Ledger) : Prop where
  asset_pool : ∀ id, (L.dynamic id).asset_pool ≤ (L'.dynamic id).asset_pool
  core_pool : ∀ id, (L'.dynamic id).core_pool =
    (L.dynamic id).core_pool - if fee.asset_id ≠ core ∧ id = fee.asset_id then x else 0

theorem convert_fee_drawn {fee : Asset} {x : Int} {L L' : Ledger} (nonneg : 0 ≤ fee.amount)
    (ran : EStateM.run (convert_fee fee x) L = .ok () L') : Drawn fee x L L' := by
  by_cases inCore : fee.asset_id = core
  · rw [dynamic_convert_fee_core inCore ran]
    refine ⟨fun _ => le_rfl,fun id => ?_⟩
    rw [if_neg fun drawn => drawn.1 inCore,Int.sub_zero]
  · rw [convert_fee,if_pos inCore] at ran
    have changed := dynamic_modify_dynamic ran
    simp only [bind_ok,checked_ok,pure_ok] at changed
    obtain ⟨_,⟨-,rfl⟩,_,⟨-,rfl⟩,new⟩ := changed
    have pools (id : AssetId) : (L.dynamic id).asset_pool ≤ (L'.dynamic id).asset_pool ∧
        (L'.dynamic id).core_pool = (L.dynamic id).core_pool - if fee.asset_id ≠ core ∧ id = fee.asset_id then x else 0 := by
      by_cases here : id = fee.asset_id
      · subst here
        rw [← new,if_pos ⟨inCore,rfl⟩]
        dsimp only
        omega
      · rw [dynamic_other ran here,if_neg fun drawn => here drawn.2,Int.sub_zero]
        exact ⟨le_rfl,rfl⟩
    exact ⟨fun id => (pools id).1,fun id => (pools id).2⟩

theorem pay_fee_drawn {fee : Asset} {x : Int} {L L₁ L₂ : Ledger} (drawn : Drawn fee x L L₁) (nonneg : 0 ≤ x)
    (ran : EStateM.run (pay_fee x) L₁ = .ok () L₂) : Drawn fee x L L₂ := by
  have changed := dynamic_modify_dynamic ran
  simp only [bind_ok,checked_ok,pure_ok] at changed
  obtain ⟨_,⟨-,rfl⟩,new⟩ := changed
  have pools (id : AssetId) : (L₁.dynamic id).asset_pool ≤ (L₂.dynamic id).asset_pool ∧
      (L₂.dynamic id).core_pool = (L₁.dynamic id).core_pool := by
    by_cases here : id = core
    · subst here
      rw [← new]
      dsimp only
      omega
    · rw [dynamic_other ran here]
      exact ⟨le_rfl,rfl⟩
  exact ⟨fun id => (drawn.asset_pool id).trans (pools id).1,fun id => (pools id).2.trans (drawn.core_pool id)⟩

/-! ### The evaluators -/

theorem solvent_create {L : Ledger} {ao : AssetObject} (assetPool : 0 ≤ ao.dynamic.asset_pool)
    (corePool : 0 ≤ ao.dynamic.core_pool) : Solvency L { L with assets := L.assets.create ao } := by
  intro solvent id
  by_cases here : id = L.assets.next
  · have new : Ledger.dynamic { L with assets := L.assets.create ao } id = ao.dynamic := by
      simp [Ledger.dynamic,Index.find?_create,here]
    rw [new]
    exact ⟨assetPool,corePool⟩
  · have same : Ledger.dynamic { L with assets := L.assets.create ao } id = L.dynamic id := by
      simp [Ledger.dynamic,Index.find?_create,here]
    rw [same]
    exact solvent id

theorem solvent_asset_create {o : AssetCreateOperation} {core_fee_paid : Int} {L L' : Ledger} (paid : 0 ≤ core_fee_paid)
    (ran : EStateM.run (asset_create_apply o core_fee_paid) L = .ok () L') : Solvency L L' := by
  cases ran
  exact solvent_create le_rfl paid

instance (id : AssetId) (supply : DynamicData → Except Fault Int) :
    Within Solvency (modify_dynamic id fun data => return { data with current_supply := ← supply data }) := by
  refine solvency_modify_dynamic fun changed assetPool corePool => ?_
  simp only [bind_ok,pure_ok] at changed
  obtain ⟨_,-,rfl⟩ := changed
  exact ⟨assetPool,corePool⟩

instance (o : AssetIssueOperation) : Within Solvency (asset_issue_apply o) := by
  unfold asset_issue_apply
  infer_instance

instance (o : AssetReserveOperation) : Within Solvency (asset_reserve_apply o) := by
  unfold asset_reserve_apply
  infer_instance

theorem solvency_fund {o : AssetFundPoolsOperation} (valid : (Operation.asset_fund_pools o).validate = true) :
    Within Solvency (asset_fund_pools_apply o) := by
  simp only [Operation.validate,Bool.and_eq_true,decide_eq_true_eq] at valid
  have uia : Within Solvency (modify_dynamic o.uia_asset.asset_id fun data =>
      return { data with asset_pool := ← checked (data.asset_pool + o.uia_asset.amount) }) := by
    refine solvency_modify_dynamic fun changed assetPool corePool => ?_
    simp only [bind_ok,checked_ok,pure_ok] at changed
    obtain ⟨_,⟨-,rfl⟩,rfl⟩ := changed
    dsimp only
    omega
  have dct : Within Solvency (modify_dynamic o.uia_asset.asset_id fun data =>
      return { data with core_pool := ← checked (data.core_pool + o.dct_asset.amount) }) := by
    refine solvency_modify_dynamic fun changed assetPool corePool => ?_
    simp only [bind_ok,checked_ok,pure_ok] at changed
    obtain ⟨_,⟨-,rfl⟩,rfl⟩ := changed
    dsimp only
    omega
  unfold asset_fund_pools_apply
  dsimp only
  split <;> infer_instance

/-- A claim that the pools cover when it is applied. -/
theorem solvent_claim {o : AssetClaimFeesOperation} {L L' : Ledger}
    (assetPool : o.uia_asset.amount ≤ (L.dynamic o.uia_asset.asset_id).asset_pool)
    (corePool : o.dct_asset.amount ≤ (L.dynamic o.uia_asset.asset_id).core_pool)
    (ran : EStateM.run (asset_claim_fees_apply o) L = .ok () L') : Solvency L L' := by
  have dct {L₁ : Ledger} (corePool : o.dct_asset.amount ≤ (L₁.dynamic o.uia_asset.asset_id).core_pool)
      (ran : EStateM.run (if 0 < o.dct_asset.amount then do
        adjust_balance o.issuer o.dct_asset
        modify_dynamic o.uia_asset.asset_id fun addo =>
          return { addo with core_pool := ← checked (addo.core_pool - o.dct_asset.amount) }
      else pure ()) L₁ = .ok () L') : Solvency L₁ L' := by
    split at ran
    · obtain ⟨_,L₂,given,claimed⟩ := run_bind_ok.mp ran
      have same : L₂.assets = L₁.assets := by rw [adjust_balance_frame given]
      refine Composes.trans (solvent_congr same) (solvent_modify_dynamic claimed fun d changed assetPool' _ => ?_)
      simp only [bind_ok,checked_ok,pure_ok] at changed
      obtain ⟨_,⟨-,rfl⟩,rfl⟩ := changed
      rw [Ledger.dynamic,same] at assetPool' ⊢
      exact ⟨assetPool',Int.sub_nonneg_of_le corePool⟩
    · cases ran
      exact Composes.refl (P := Solvency) _
  unfold asset_claim_fees_apply at ran
  dsimp only at ran
  split at ran
  · obtain ⟨_,L₁,given,ran⟩ := run_bind_ok.mp ran
    obtain ⟨_,L₂,claimed,ran⟩ := run_bind_ok.mp ran
    have same : L₁.assets = L.assets := by rw [adjust_balance_frame given]
    have changed := dynamic_modify_dynamic claimed
    simp only [bind_ok,checked_ok,pure_ok] at changed
    obtain ⟨_,⟨-,rfl⟩,new⟩ := changed
    have first : Solvency L₁ L₂ := by
      refine solvent_modify_dynamic claimed fun d changed _ corePool' => ?_
      simp only [bind_ok,checked_ok,pure_ok] at changed
      obtain ⟨_,⟨-,rfl⟩,rfl⟩ := changed
      rw [Ledger.dynamic,same] at corePool' ⊢
      exact ⟨Int.sub_nonneg_of_le assetPool,corePool'⟩
    refine Composes.trans (solvent_congr same) (Composes.trans first (dct ?_ ran))
    rw [← new,Ledger.dynamic,same]
    exact corePool
  · exact dct corePool ran

/-! ### Every step -/

/-- A claim whose fee draws on the pool that is claimed leaves the fee there, too. -/
def claims_covered (op : Operation) (L : Ledger) : Prop :=
  match op with
  | .asset_claim_fees o => o.fee.asset_id = o.uia_asset.asset_id → o.fee.asset_id ≠ core →
      ∀ x, prepare_fee o.issuer o.fee L = .ok x → o.dct_asset.amount + x ≤ (L.dynamic o.uia_asset.asset_id).core_pool
  | _ => True

/-- What an operation pays for its fee is not negative and not more than was prepared. -/
theorem fee_paid_range {env : Env} {executed : M Unit} {op : Operation} {x fee : Int} {act : M Unit} {L : Ledger}
    (nonneg : 0 ≤ x) (evaluated : do_evaluate env executed x op L = .ok (fee,act)) : 0 ≤ fee ∧ fee ≤ x := by
  have left := do_evaluate_fee evaluated
  cases op
  case asset_create o =>
    obtain ⟨halved,-⟩ := left
    rw [Int.tdiv_eq_ediv_of_nonneg nonneg] at halved
    omega
  all_goals
    dsimp only at left
    omega

theorem solvent_claim_fees {env : Env} {executed : M Unit} {o : AssetClaimFeesOperation} {L L₁ L₂ L₃ L₄ : Ledger} {x fee : Int}
    {act : M Unit} (covered : claims_covered (.asset_claim_fees o) L) (prepared : prepare_fee o.issuer o.fee L = .ok x)
    (paid : fee = x) (evaluated : asset_claim_fees_evaluate o L = .ok ())
    (flow : FeeFlow env executed (.asset_claim_fees o) L L₁ L₂ L₃ L₄ fee act)
    (ran : EStateM.run (asset_claim_fees_apply o) L₂ = .ok () L₃) : Solvency L₂ L₃ := by
  subst paid
  simp only [asset_claim_fees_evaluate,reads_bind,get_asset_ok,reads_lift,fc_assert_ok] at evaluated
  obtain ⟨uia,found,_,-,_,-,_,assetPool,corePool⟩ := evaluated
  rw [← dynamic_of_find found] at assetPool corePool
  obtain ⟨nonneg,nonneg'⟩ := prepare_fee_nonneg prepared
  have drawn : Drawn o.fee fee L L₂ := pay_fee_drawn (convert_fee_drawn nonneg flow.converted) nonneg' flow.paid
  refine solvent_claim (assetPool.trans (drawn.asset_pool _)) ?_ ran
  rw [drawn.core_pool]
  split
  case isTrue same =>
    have covered := covered same.2.symm same.1 fee prepared
    omega
  case isFalse =>
    rw [Int.sub_zero]
    exact corePool

theorem solvency_apply_operation {env : Env} {op : Operation} {L L' : Ledger}
    (covered : ∀ op' L', Applies env op L op' L' → claims_covered op' L')
    (ran : EStateM.run (apply_operation env op) L = .ok () L') : Solvency L L' := by
  refine related_apply_operation ?_ op covered ran
  intro executed op L L₁ L₂ L₃ L₄ fee act covered valid _ flow inside
  have evaluated := flow.evaluated
  simp only [evaluate,reads_bind] at evaluated
  obtain ⟨x,prepared,-,-,evaluated⟩ := evaluated
  obtain ⟨nonneg,nonneg'⟩ := prepare_fee_nonneg prepared
  obtain ⟨paid,less⟩ := fee_paid_range nonneg' evaluated
  have converted : Solvency L L₁ :=
    solvent_convert_fee nonneg (fun notCore => less.trans (prepare_fee_covered notCore prepared)) flow.converted
  refine Composes.trans converted (Composes.trans (solvent_pay_fee paid flow.paid) ?_)
  refine Composes.trans ?_ (Within.ok inferInstance flow.charged)
  have applied := flow.applied
  have left := do_evaluate_fee evaluated
  cases do_evaluate_touches evaluated with
  | elsewhere within => exact (within Solvency).ok applied
  | create o _ _ _ =>
    rw [left.2] at applied
    exact solvent_asset_create paid applied
  | issue o _ => exact Within.ok inferInstance applied
  | reserve o _ => exact Within.ok inferInstance applied
  | fund o _ => exact (solvency_fund valid).ok applied
  | claim o claimed => exact solvent_claim_fees covered prepared left claimed flow applied
  | buy o ctx => exact Within.ok inferInstance applied
  | propose payer fee ops => exact inside applied
  | settle payer fee change =>
    obtain ⟨_,settled,ran⟩ := run_observe_bind.mp applied
    cases ran
    exact fun solvent id => by rw [(change.settled settled).dynamic]; exact solvent id

instance : Within Solvency process_budget := by
  have budgeted (supply_delta : Int) : Within Solvency (modify_dynamic core fun d => do
      let current_supply ← checked (d.current_supply + supply_delta)
      return { d with current_supply := current_supply, asset_pool := 0 }) := by
    refine solvency_modify_dynamic fun changed _ corePool => ?_
    simp only [bind_ok,pure_ok] at changed
    obtain ⟨_,-,rfl⟩ := changed
    exact ⟨le_rfl,corePool⟩
  unfold process_budget
  dsimp only
  repeat refine .andThen fun _ => ?_
  exact .modify fun _ => solvent_congr rfl

/-- Every claim of fees, also of those that proposals execute, is covered. -/
def covered_step (L : Ledger) : Action → Prop
  | .operation env op => ∀ op' L', Applies env op L op' L' → claims_covered op' L'
  | _ => True

theorem solvency_perform {action : Action} {L L' : Ledger} (covered : covered_step L action)
    (ran : EStateM.run (perform action) L = .ok () L') : Solvency L L' := by
  cases action with
  | header timestamp => exact Within.ok (x := update_head timestamp) inferInstance ran
  | operation env op => exact solvency_apply_operation covered ran
  | signing_miner miner => exact Within.ok (x := update_signing_miner miner) inferInstance ran
  | maintenance =>
    obtain ⟨_,-,ran⟩ := run_observe_bind.mp (run_get_bind.mp ran)
    exact Within.ok (x := perform_chain_maintenance) inferInstance ran
  | settings change =>
    obtain ⟨_,settled,ran⟩ := run_observe_bind.mp ran
    cases ran
    exact fun solvent id => by rw [(change.settled settled).dynamic]; exact solvent id

theorem solvent_genesis (g : GenesisState) : Solvent (init_genesis g) := by
  intro id
  cases found : (init_genesis g).assets.find? id with
  | none =>
    rw [Ledger.dynamic,found]
    exact ⟨le_rfl,le_rfl⟩
  | some ao =>
    rw [dynamic_of_find found]
    rcases genesis_assets_cases found with ⟨-,rfl⟩ | ⟨_,_,_,rfl⟩ <;> exact ⟨le_rfl,le_rfl⟩

theorem pools_solvent (g : GenesisState) (L : Ledger) (reached : Reached g covered_step L) : Solvent L :=
  reached.invariant (solvent_genesis g) fun solvent covered ran => solvency_perform covered ran solvent

/-- A user who has issued himself an asset and put ten into its core pool. -/
def funded_user : List Action := one_user ++ [
  .operation free_env (.asset_create { odd_fee with fee := ⟨0,core⟩ }),
  .operation free_env (.asset_issue ⟨⟨0,core⟩,4,⟨100,2⟩,4⟩),
  .operation free_env (.asset_fund_pools ⟨⟨0,core⟩,4,⟨0,2⟩,⟨10,core⟩⟩)]

/-- Nothing is proposed, and what is paid is core. -/
def core_fee_step (_ : Ledger) : Action → Prop
  | .operation _ (.proposal_update ..) => False
  | .operation _ op => op.fee.asset_id = core
  | _ => True

instance (L : Ledger) (action : Action) : Decidable (core_fee_step L action) := by
  unfold core_fee_step
  split <;> infer_instance

theorem covered_of_core_fee (L : Ledger) (action : Action) (inCore : core_fee_step L action) : covered_step L action := by
  unfold core_fee_step at inCore
  split at inCore
  case h_1 => exact absurd inCore id
  case h_2 env op unproposed =>
    intro op' L' applies
    cases applies with
    | itself =>
      cases op with
      | asset_claim_fees o => exact fun _ notCore => absurd inCore notCore
      | _ => exact trivial
    | proposed => exact absurd rfl (unproposed _ _ _)
  case h_3 other =>
    cases action with
    | operation env op => exact absurd rfl (other env op)
    | _ => trivial

theorem pools_solvent_claimed : ∃ L, Solvent L ∧ Reached small_genesis covered_step L ∧ (L.dynamic 2).core_pool = 0 := by
  have ran := run_of_returned (x := perform_allowed core_fee_step
    (funded_user ++ [.operation free_env (.asset_claim_fees ⟨⟨3,core⟩,4,⟨0,2⟩,⟨10,core⟩⟩)]))
    (s := init_genesis small_genesis) (by decide +kernel)
  have reached := (reached_perform_allowed .genesis ran).mono covered_of_core_fee
  exact ⟨_,pools_solvent small_genesis _ reached,reached,by decide +kernel⟩

/-- Of ten in the core pool three go for the fee, and then ten are claimed. -/
theorem claimed_pool_negative : ¬ ∀ g L, Reachable g L → Solvent L := by
  intro solvent
  have reachable : Reachable small_genesis (after_actions (funded_user ++
      [.operation free_env (.asset_claim_fees ⟨⟨3,2⟩,4,⟨0,2⟩,⟨10,core⟩⟩)])) := reachable_after_actions (by decide +kernel)
  have drawn : ((after_actions (funded_user ++
      [.operation free_env (.asset_claim_fees ⟨⟨3,2⟩,4,⟨0,2⟩,⟨10,core⟩⟩)])).dynamic 2).core_pool = -3 := by decide +kernel
  have held := (solvent small_genesis _ reachable 2).2
  omega

end Decent.Money

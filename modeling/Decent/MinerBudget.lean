import Decent.Blocks
import Decent.Pools

/-!
The budget of the miners. A maintenance sets aside what was paid in fees, and every miner until
the next one, which is due at a known time, gets the same share of it. There are no more shares
than there are slots until then: as long as the slots after a maintenance are skipped, or the times
of maintenance fit the slots, there are no more blocks either.
-/
namespace Decent.Money
open Throwing

/-! ### What operations leave alone -/

/-- Neither the clock and the budget nor the parameters change, when `P` not even those to come, and
    the pool of fees does not fall below zero. -/
structure Working (P : Prop) (L L' : Ledger) : Prop where
  properties : L'.properties = L.properties
  parameters : L'.parameters = L.parameters
  pending_parameters : P → L'.pending_parameters = L.pending_parameters
  pool : 0 ≤ (L.dynamic core).asset_pool → 0 ≤ (L'.dynamic core).asset_pool

section
variable {P : Prop}

theorem Working.of_eq {L L' : Ledger} (properties : L'.properties = L.properties) (parameters : L'.parameters = L.parameters)
    (pending_parameters : L'.pending_parameters = L.pending_parameters) (assets : L'.assets = L.assets) : Working P L L' :=
  ⟨properties,parameters,fun _ => pending_parameters,by rw [Ledger.dynamic,Ledger.dynamic,assets]; exact id⟩

instance : Composes (Working P) where
  refl _ := .of_eq rfl rfl rfl rfl
  trans first second := ⟨second.properties.trans first.properties,second.parameters.trans first.parameters,
    fun held => (second.pending_parameters held).trans (first.pending_parameters held),second.pool ∘ first.pool⟩

instance : Seeding (Working P) where
  statistics _ _ := .of_eq rfl rfl rfl rfl
  seeders _ _ := .of_eq rfl rfl rfl rfl
  reset _ _ _ := .of_eq rfl rfl rfl rfl

instance : Noting (Working P) where
  permissions _ _ := .of_eq rfl rfl rfl rfl
  subscription _ _ _ _ := .of_eq rfl rfl rfl rfl

instance : Describing (Working P) where
  content _ _ _ _ := .of_eq rfl rfl rfl rfl

instance : Logging (Working P) where
  applied _ _ _ := .of_eq rfl rfl rfl rfl

instance : Accounting (Working P) where
  publishing _ _ := .of_eq rfl rfl rfl rfl

instance : Crediting (Working P) where
  balances _ _ := .of_eq rfl rfl rfl rfl
  vestings _ _ := .of_eq rfl rfl rfl rfl
  miners _ _ := .of_eq rfl rfl rfl rfl

instance : Purchasing (Working P) where
  buyings _ _ := .of_eq rfl rfl rfl rfl
  payments _ _ := .of_eq rfl rfl rfl rfl

instance : Enrolling (Working P) where
  accounts _ _ := .of_eq rfl rfl rfl rfl
  subscriptions _ _ := .of_eq rfl rfl rfl rfl

instance : Publishing (Working P) where
  contents _ _ := .of_eq rfl rfl rfl rfl
  returned _ _ := .of_eq rfl rfl rfl rfl

/-- A change of the data of one asset that leaves its pool of fees at or above zero. -/
theorem working_modify_dynamic {id : AssetId} {f : DynamicData → Except Fault DynamicData} {L L' : Ledger} {u : Unit}
    (ran : EStateM.run (modify_dynamic id f) L = .ok u L')
    (stays : ∀ d, f (L.dynamic id) = .ok d → 0 ≤ (L.dynamic id).asset_pool → 0 ≤ d.asset_pool) : Working P L L' := by
  have pool : 0 ≤ (L.dynamic core).asset_pool → 0 ≤ (L'.dynamic core).asset_pool := by
    by_cases here : core = id
    · subst here
      exact stays _ (dynamic_modify_dynamic ran)
    · rw [dynamic_other ran here]
      exact fun held => held
  obtain ⟨a,d,-,-,rfl⟩ := modify_dynamic_ok ran
  exact ⟨rfl,rfl,fun _ => rfl,pool⟩

theorem within_working {id : AssetId} {f : DynamicData → Except Fault DynamicData}
    (stays : ∀ {d d'}, f d = .ok d' → 0 ≤ d.asset_pool → 0 ≤ d'.asset_pool) : Within (Working P) (modify_dynamic id f) :=
  within_modify_dynamic fun ran => working_modify_dynamic ran fun _ changed => stays changed

instance (id : AssetId) (asset_pool_diff core_pool_diff : Int) :
    Within (Working P) (convert_uia.change_pools id asset_pool_diff core_pool_diff) := by
  refine within_working fun changed _ => ?_
  simp only [bind_ok,checked_ok,fc_assert_ok,pure_ok] at changed
  obtain ⟨x,⟨-,rfl⟩,_,assetPool,y,⟨-,rfl⟩,_,-,rfl⟩ := changed
  exact assetPool

theorem within_convert_fee {fee : Asset} {x : Int} (nonneg : 0 ≤ fee.amount) : Within (Working P) (convert_fee fee x) := by
  have converted : Within (Working P) (modify_dynamic fee.asset_id fun d => do
      let asset_pool ← checked (d.asset_pool + fee.amount)
      let core_pool ← checked (d.core_pool - x)
      return { d with asset_pool := asset_pool, core_pool := core_pool }) := by
    refine within_working fun changed assetPool => ?_
    simp only [bind_ok,checked_ok,pure_ok] at changed
    obtain ⟨_,⟨-,rfl⟩,_,-,rfl⟩ := changed
    exact Int.add_nonneg assetPool nonneg
  unfold convert_fee
  infer_instance

theorem within_pay_fee {x : Int} (nonneg : 0 ≤ x) : Within (Working P) (pay_fee x) := by
  refine within_working fun changed assetPool => ?_
  simp only [bind_ok,checked_ok,pure_ok] at changed
  obtain ⟨_,⟨-,rfl⟩,rfl⟩ := changed
  exact Int.add_nonneg assetPool nonneg

instance (id : AssetId) (supply : DynamicData → Except Fault Int) :
    Within (Working P) (modify_dynamic id fun data => return { data with current_supply := ← supply data }) := by
  refine within_working fun changed assetPool => ?_
  simp only [bind_ok,pure_ok] at changed
  obtain ⟨_,-,rfl⟩ := changed
  exact assetPool

instance (id : AssetId) (core_pool : DynamicData → Except Fault Int) :
    Within (Working P) (modify_dynamic id fun data => return { data with core_pool := ← core_pool data }) := by
  refine within_working fun changed assetPool => ?_
  simp only [bind_ok,pure_ok] at changed
  obtain ⟨_,-,rfl⟩ := changed
  exact assetPool

instance (o : AssetIssueOperation) : Within (Working P) (asset_issue_apply o) := by
  unfold asset_issue_apply
  infer_instance

instance (o : AssetReserveOperation) : Within (Working P) (asset_reserve_apply o) := by
  unfold asset_reserve_apply
  infer_instance

theorem within_fund {o : AssetFundPoolsOperation} (valid : (Operation.asset_fund_pools o).validate = true) :
    Within (Working P) (asset_fund_pools_apply o) := by
  simp only [Operation.validate,Bool.and_eq_true,decide_eq_true_eq] at valid
  have uia : Within (Working P) (modify_dynamic o.uia_asset.asset_id fun data =>
      return { data with asset_pool := ← checked (data.asset_pool + o.uia_asset.amount) }) := by
    refine within_working fun changed assetPool => ?_
    simp only [bind_ok,checked_ok,pure_ok] at changed
    obtain ⟨_,⟨-,rfl⟩,rfl⟩ := changed
    dsimp only
    omega
  unfold asset_fund_pools_apply
  dsimp only
  split <;> infer_instance

theorem working_claim {o : AssetClaimFeesOperation} {L L' : Ledger}
    (assetPool : o.uia_asset.amount ≤ (L.dynamic o.uia_asset.asset_id).asset_pool)
    (ran : EStateM.run (asset_claim_fees_apply o) L = .ok () L') : Working P L L' := by
  unfold asset_claim_fees_apply at ran
  dsimp only at ran
  split at ran
  · obtain ⟨_,L₁,given,ran⟩ := run_bind_ok.mp ran
    obtain ⟨_,L₂,claimed,ran⟩ := run_bind_ok.mp ran
    have same : L₁.assets = L.assets := by rw [adjust_balance_frame given]
    have first : Working P L L₁ := Within.ok inferInstance given
    have second : Working P L₁ L₂ := by
      refine working_modify_dynamic claimed fun d changed _ => ?_
      simp only [bind_ok,checked_ok,pure_ok] at changed
      obtain ⟨_,⟨-,rfl⟩,rfl⟩ := changed
      rw [Ledger.dynamic,same]
      exact Int.sub_nonneg_of_le assetPool
    exact Composes.trans first (Composes.trans second (Within.ok inferInstance ran))
  · exact Within.ok inferInstance ran

end

/-! ### Operations -/

theorem Settled.working {L L' : Ledger} (settled : Settled L L') : Working False L L' :=
  ⟨settled.properties,settled.parameters,False.elim,by rw [settled.dynamic]; exact fun held => held⟩

theorem working_operation {env : Env} {op : Operation} {L L' : Ledger}
    (ran : EStateM.run (apply_operation env op) L = .ok () L') : Working False L L' := by
  let meets : Operation → Ledger → Prop := fun _ _ => True
  have met : ∀ op' L', Applies env op L op' L' → meets op' L' := fun _ _ _ => trivial
  refine related_apply_operation ?_ op met ran
  intro executed op L L₁ L₂ L₃ L₄ fee act met valid whole flow inside
  clear met whole
  have evaluated := flow.evaluated
  simp only [evaluate,reads_bind] at evaluated
  obtain ⟨x,prepared,-,-,evaluated⟩ := evaluated
  obtain ⟨nonneg,nonneg'⟩ := prepare_fee_nonneg prepared
  have paid := (fee_paid_range nonneg' evaluated).1
  have applied := flow.applied
  refine Composes.trans ((within_convert_fee nonneg).ok flow.converted) (Composes.trans ((within_pay_fee paid).ok flow.paid) ?_)
  refine Composes.trans ?_ (Within.ok inferInstance flow.charged)
  cases op <;> simp only [do_evaluate,reads_bind,reads_pure,Prod.mk.injEq] at evaluated
  case asset_create o =>
    obtain ⟨left,-,-,rfl⟩ := evaluated
    cases applied
    refine ⟨rfl,rfl,False.elim,fun held => ?_⟩
    simp only [Ledger.dynamic,Index.find?_create]
    split
    · exact le_rfl
    · exact held
  case asset_fund_pools o =>
    obtain ⟨_,-,-,rfl⟩ := evaluated
    exact (within_fund valid).ok applied
  case asset_claim_fees o =>
    obtain ⟨_,claimed,rfl,rfl⟩ := evaluated
    simp only [asset_claim_fees_evaluate,reads_bind,get_asset_ok,reads_lift,fc_assert_ok] at claimed
    obtain ⟨uia,found,_,-,_,-,_,assetPool,-⟩ := claimed
    rw [← dynamic_of_find found] at assetPool
    have drawn := pay_fee_drawn (convert_fee_drawn nonneg flow.converted) nonneg' flow.paid
    exact working_claim (assetPool.trans (drawn.asset_pool _)) applied
  case proposal_update =>
    obtain ⟨-,rfl⟩ := evaluated
    exact inside applied
  case other payer paid change =>
    obtain ⟨-,rfl⟩ := evaluated
    obtain ⟨_,settled,stored⟩ := run_observe_bind.mp applied
    cases stored
    exact (change.settled settled).working
  all_goals
    obtain ⟨_,-,-,rfl⟩ := evaluated
    exact Within.ok inferInstance applied

theorem working_transactions {operations : List (Env × Operation)} {L L' : Ledger}
    (ran : EStateM.run (apply_transactions operations) L = .ok () L') : Working False L L' := by
  induction operations generalizing L with
  | nil =>
    cases ran
    exact Composes.refl _
  | cons item rest ih =>
    simp only [apply_transactions,run_bind_ok] at ran
    obtain ⟨_,_,applied,ran⟩ := ran
    exact Composes.trans (working_operation applied) (ih ran)

theorem working_changes {changes : List SettingsChange} {L L' : Ledger}
    (ran : EStateM.run (settle_changes changes) L = .ok () L') : Working False L L' := by
  induction changes generalizing L with
  | nil =>
    cases ran
    exact Composes.refl _
  | cons change rest ih =>
    simp only [settle_changes,do_evaluate.settle,run_bind_ok,run_observe] at ran
    obtain ⟨_,_,⟨_,_,⟨settled,rfl⟩,stored⟩,ran⟩ := ran
    cases stored
    exact Composes.trans (change.settled settled).working (ih ran)

/-! ### The pay of one block -/

/-- The miner is paid what the budget allows for every block. -/
theorem update_signing_miner_ok {miner : Nat} {L L' : Ledger} (ran : EStateM.run (update_signing_miner miner) L = .ok () L') :
    (∃ mined_rewards, L'.properties = { L.properties with
        mined_rewards := mined_rewards
        unspent_fee_budget := L.properties.unspent_fee_budget - miner_pay_from_fees L }) ∧
      L'.parameters = L.parameters ∧ (0 ≤ (L.dynamic core).asset_pool → 0 ≤ (L'.dynamic core).asset_pool) := by
  simp only [update_signing_miner,run_get_bind,run_observe_bind,reads_lift,checked_ok] at ran
  obtain ⟨_,⟨-,rfl⟩,_,⟨-,rfl⟩,ran⟩ := ran
  obtain ⟨_,_,counted,ran⟩ := run_bind_ok.mp ran
  cases counted
  obtain ⟨_,-,paid⟩ := run_observe_bind.mp ran
  have working : Working False _ L' := Within.ok inferInstance paid
  exact ⟨⟨_,working.properties⟩,working.parameters,working.pool⟩

theorem miner_pay_from_fees_congr {L L' : Ledger} (parameters : L'.parameters = L.parameters)
    (next_maintenance_time : L'.properties.next_maintenance_time = L.properties.next_maintenance_time)
    (last_budget_time : L'.properties.last_budget_time = L.properties.last_budget_time)
    (budget : L'.properties.miner_budget_from_fees = L.properties.miner_budget_from_fees) :
    miner_pay_from_fees L' = miner_pay_from_fees L := by
  simp only [miner_pay_from_fees,parameters,next_maintenance_time,last_budget_time,budget]

theorem open_block_ok {maintenance_flag maint_needed : Bool} {b : Block} {L L' : Ledger}
    (ran : EStateM.run (open_block maintenance_flag b) L = .ok maint_needed L') :
    validate_block_header maintenance_flag b L = .ok () ∧
      maint_needed = decide (L.properties.next_maintenance_time ≤ b.timestamp) ∧ b.timestamp < 2^32 ∧
      (∃ mined_rewards, L'.properties = { L.properties with
        head_block_number := L.properties.head_block_number + 1
        time := b.timestamp
        mined_rewards := mined_rewards
        unspent_fee_budget := L.properties.unspent_fee_budget - miner_pay_from_fees L }) ∧
      L'.parameters = L.parameters ∧ (0 ≤ (L.dynamic core).asset_pool → 0 ≤ (L'.dynamic core).asset_pool) := by
  simp only [open_block,run_observe_bind,run_get_bind] at ran
  obtain ⟨_,valid,ran⟩ := ran
  obtain ⟨_,L₁,applied,ran⟩ := run_bind_ok.mp ran
  obtain ⟨_,L₂,ahead,ran⟩ := run_bind_ok.mp ran
  obtain ⟨_,L₃,paid,ran⟩ := run_bind_ok.mp ran
  cases ran
  simp only [update_head,run_get_bind,run_observe_bind,reads_lift,fc_assert_ok] at ahead
  obtain ⟨_,⟨-,below⟩,moved⟩ := ahead
  cases moved
  have first := working_transactions applied
  obtain ⟨⟨mined_rewards,properties⟩,parameters,pool⟩ := update_signing_miner_ok paid
  have pay : miner_pay_from_fees { L₁ with properties := { L₁.properties with
      head_block_number := L₁.properties.head_block_number + 1
      time := b.timestamp } } = miner_pay_from_fees L :=
    miner_pay_from_fees_congr first.parameters (by rw [first.properties]) (by rw [first.properties])
      (by rw [first.properties])
  rw [pay] at properties
  dsimp only at properties
  rw [first.properties] at properties
  exact ⟨valid,rfl,below,⟨mined_rewards,properties⟩,parameters.trans first.parameters,pool ∘ first.pool⟩

/-! ### Maintenance -/

theorem process_budget_ok {L L' : Ledger} (ran : EStateM.run process_budget L = .ok () L') :
    (∃ planned_for_mining, L'.properties = { L.properties with
        miner_budget_from_fees := (L.dynamic core).asset_pool + L.properties.unspent_fee_budget
        miner_budget_from_rewards := planned_for_mining
        unspent_fee_budget := (L.dynamic core).asset_pool + L.properties.unspent_fee_budget
        mined_rewards := 0
        last_budget_time := L.properties.time }) ∧
      L'.parameters = L.parameters ∧ (L'.dynamic core).asset_pool = 0 := by
  simp only [process_budget,run_get_bind,run_observe_bind,reads_lift,checked_ok,get_asset_ok] at ran
  obtain ⟨core_asset,found,_,-,_,⟨-,rfl⟩,_,-,planned_for_mining,-,_,-,_,-,_,-,_,-,ran⟩ := ran
  obtain ⟨_,L₁,changed,done⟩ := run_bind_ok.mp ran
  cases done
  have here : L.dynamic core = core_asset.dynamic := by simp [Ledger.dynamic,found]
  have emptied : (L₁.dynamic core).asset_pool = 0 := by
    have moved := dynamic_modify_dynamic changed
    simp only [bind_ok,checked_ok,pure_ok] at moved
    obtain ⟨_,-,same⟩ := moved
    rw [← same]
  obtain ⟨_,_,-,-,rfl⟩ := modify_dynamic_ok changed
  rw [here]
  exact ⟨⟨planned_for_mining,rfl⟩,rfl,emptied⟩

/-- The maintenance of a block that is due moves the time of the next one and makes the fees the
    budget until then. -/
theorem maintained_budget {L L' : Ledger} (due : L.properties.next_maintenance_time ≤ L.properties.time)
    (ran : EStateM.run perform_chain_maintenance L = .ok () L') :
    ∃ budget planned_for_mining,
      (0 ≤ (L.dynamic core).asset_pool → 0 ≤ L.properties.unspent_fee_budget → 0 ≤ budget) ∧
      L'.parameters = L.pending_parameters.getD L.parameters ∧ (L'.dynamic core).asset_pool = 0 ∧
      L'.properties = { L.properties with
        next_maintenance_time := next_time L.properties (L.pending_parameters.getD L.parameters).maintenance_interval
        miner_budget_from_fees := budget
        miner_budget_from_rewards := planned_for_mining
        unspent_fee_budget := budget
        mined_rewards := 0
        last_budget_time := L.properties.time } := by
  simp only [perform_chain_maintenance,run_bind_ok,run_observe] at ran
  obtain ⟨_,_,⟨-,rfl⟩,_,L₁,housekept,_,L₂,settled,_,_,got,ran⟩ := ran
  cases settled
  cases got
  have working : Working True L L₁ := Within.ok inferInstance housekept
  have pending := working.pending_parameters trivial
  dsimp only at ran
  rw [if_pos (by rw [working.properties]; exact due)] at ran
  obtain ⟨_,L₃,scheduled,budgeted⟩ := run_bind_ok.mp ran
  cases scheduled
  obtain ⟨⟨planned_for_mining,properties⟩,parameters,pool⟩ := process_budget_ok budgeted
  dsimp only at properties parameters
  rw [working.properties,working.parameters,pending] at properties
  rw [working.parameters,pending] at parameters
  exact ⟨_,planned_for_mining,fun pool unspent => Int.add_nonneg (working.pool pool) unspent,parameters,pool,properties⟩

/-! ### Slots -/

/-- Between two times there are no more slots than the rounded up length has room for, if some are
    skipped or the end comes early enough in its slot. -/
theorem slots_between {start stop interval skipped : Nat} (positive : 0 < interval)
    (aligned : 0 < skipped ∨ stop % interval = 0 ∨ start % interval < stop % interval) :
    (stop + interval - 1) / interval ≤ (stop - start + interval - 1) / interval + start / interval + skipped := by
  have room : stop - start ≤ (stop - start + interval - 1) / interval * interval := by
    have := Nat.lt_div_mul_add positive (a := stop - start + interval - 1)
    omega
  generalize (stop - start + interval - 1) / interval = room' at room ⊢
  have ofStart := Nat.div_add_mod' start interval
  have ofStop := Nat.div_add_mod' stop interval
  have short := Nat.mod_lt start positive
  generalize start / interval = s at ofStart ⊢
  generalize start % interval = u at ofStart short aligned
  refine Nat.lt_succ_iff.mp ((Nat.div_lt_iff_lt_mul positive).mpr ?_)
  suffices stop ≤ (room' + s + skipped) * interval by
    rw [Nat.succ_mul]
    omega
  have reach : stop ≤ (room' + s) * interval + u := by
    rw [Nat.add_mul]
    omega
  rw [Nat.add_mul]
  rcases aligned with skips | even | early
  · have := Nat.le_mul_of_pos_left interval skips
    omega
  · rw [even,Nat.add_zero] at ofStop
    have : stop / interval < room' + s + 1 := by
      refine Nat.lt_of_mul_lt_mul_right (a := interval) ?_
      rw [Nat.add_one_mul]
      omega
    have := Nat.mul_le_mul_right interval (Nat.lt_succ_iff.mp this)
    omega
  · have : stop / interval < room' + s := by
      refine Nat.lt_of_mul_lt_mul_right (a := interval) ?_
      omega
    have := Nat.mul_le_mul_right interval this
    rw [Nat.succ_mul] at this
    have := Nat.mod_lt stop positive
    omega

/-- The shares that the budget is divided into, for the slots from one maintenance to the next. -/
def shares (L : Ledger) : Nat :=
  (L.properties.next_maintenance_time - L.properties.last_budget_time + L.parameters.block_interval - 1) /
    L.parameters.block_interval

/-- There are shares for all slots until the next maintenance. -/
def SlotsFit (L : Ledger) : Prop :=
  L.properties.last_budget_time < L.properties.next_maintenance_time →
    (L.properties.next_maintenance_time + L.parameters.block_interval - 1) / L.parameters.block_interval ≤
      shares L + L.properties.last_budget_time / L.parameters.block_interval + L.parameters.maintenance_skip_slots

theorem miner_pay_from_fees_range {L : Ledger} (budget : 0 ≤ L.properties.miner_budget_from_fees) :
    0 ≤ miner_pay_from_fees L ∧ miner_pay_from_fees L ≤ L.properties.miner_budget_from_fees := by
  have share (n : Nat) : 0 ≤ L.properties.miner_budget_from_fees.tdiv n ∧
      L.properties.miner_budget_from_fees.tdiv n ≤ L.properties.miner_budget_from_fees :=
    ⟨Int.tdiv_nonneg budget (Int.natCast_nonneg n),Int.tdiv_le_self _ budget⟩
  unfold miner_pay_from_fees
  dsimp only
  split
  · exact ⟨le_rfl,budget⟩
  · split
    · exact ⟨le_rfl,budget⟩
    · exact share _

/-- All shares together are no more than the budget. -/
theorem shares_covered {L : Ledger} {n : Nat} (budget : 0 ≤ L.properties.miner_budget_from_fees)
    (ahead : L.properties.last_budget_time < L.properties.next_maintenance_time)
    (below : L.properties.next_maintenance_time < 2^32) (within : n ≤ shares L) :
    n * miner_pay_from_fees L ≤ L.properties.miner_budget_from_fees := by
  have positive := L.parameters.interval_positive
  have seconds : (((L.properties.next_maintenance_time : Int) - L.properties.last_budget_time) % 2^64).toNat =
      L.properties.next_maintenance_time - L.properties.last_budget_time := by omega
  have few : shares L < 2^32 := by
    refine (Nat.div_lt_iff_lt_mul positive).mpr ?_
    have := Nat.mul_le_mul_left (2^32 - 1) positive
    omega
  have some : 0 < shares L := Nat.div_pos (by omega) positive
  have share : miner_pay_from_fees L = L.properties.miner_budget_from_fees.tdiv (shares L) := by
    have nonneg := Int.tdiv_nonneg budget (Int.natCast_nonneg (shares L))
    have count : (L.properties.next_maintenance_time - L.properties.last_budget_time + L.parameters.block_interval - 1) /
        L.parameters.block_interval % 2^32 = shares L := Nat.mod_eq_of_lt few
    simp only [miner_pay_from_fees,seconds,count,if_neg (Nat.ne_of_gt some),if_neg (Int.not_lt.mpr nonneg)]
  have within' : (n : Int) ≤ shares L := Int.ofNat_le.mpr within
  calc n * miner_pay_from_fees L
      ≤ shares L * miner_pay_from_fees L := Int.mul_le_mul_of_nonneg_right within' (miner_pay_from_fees_range budget).1
    _ = shares L * (L.properties.miner_budget_from_fees / shares L) := by rw [share,Int.tdiv_eq_ediv_of_nonneg budget]
    _ ≤ L.properties.miner_budget_from_fees := Int.mul_ediv_self_le (Int.natCast_ne_zero.mpr (Nat.ne_of_gt some))

/-- One more share is covered as long as the slots that were counted end before maintenance is due. -/
theorem covered_more {L : Ledger} {n time : Nat} (budget : 0 ≤ L.properties.miner_budget_from_fees)
    (below : L.properties.next_maintenance_time < 2^32) (fits : SlotsFit L)
    (counted : n = 0 ∨ time < L.properties.next_maintenance_time ∧
      L.properties.last_budget_time / L.parameters.block_interval + L.parameters.maintenance_skip_slots + n ≤
        time / L.parameters.block_interval) :
    ((n + 1 : Nat) : Int) * miner_pay_from_fees L ≤ L.properties.miner_budget_from_fees := by
  have positive := L.parameters.interval_positive
  rcases Nat.eq_zero_or_pos n with none | more
  · subst none
    simpa using (miner_pay_from_fees_range budget).2
  obtain ⟨early,counted⟩ := counted.resolve_left (Nat.ne_of_gt more)
  have ahead : L.properties.last_budget_time < time := by
    refine Nat.lt_of_not_le fun past => ?_
    have := Nat.div_le_div_right (c := L.parameters.block_interval) past
    omega
  have last : time / L.parameters.block_interval <
      (L.properties.next_maintenance_time + L.parameters.block_interval - 1) / L.parameters.block_interval := by
    refine (Nat.le_div_iff_mul_le positive).mpr ?_
    have := Nat.div_mul_le_self time L.parameters.block_interval
    rw [Nat.succ_mul]
    omega
  refine shares_covered budget (ahead.trans early) below ?_
  have := fits (ahead.trans early)
  omega

/-! ### Runs of blocks -/

/-- The steps that keep the slots in step with the times of maintenance. Before a block, the next
    slot begins within 32 bits. Before a maintenance, the interval from then on is one of 32 bits,
    and slots are skipped after it, or the time it was due at begins a slot, or is later in its slot
    than the block in its own, in slots of the length from then on. -/
def keeps_slots (C : Chain) : Prop :=
  let L := C.ledger
  match C.stage with
  | .between =>
    let skipped := if C.maintenance_flag then L.parameters.maintenance_skip_slots else 0
    L.properties.head_block_number = 0 ∨
      (L.properties.time / L.parameters.block_interval + 1 + skipped) * L.parameters.block_interval < 2^32
  | .paid false => True
  | .paid true =>
    let parameters := L.pending_parameters.getD L.parameters
    let due := L.properties.next_maintenance_time
    parameters.maintenance_interval < 2^32 ∧
      (0 < parameters.maintenance_skip_slots ∨ due % parameters.block_interval = 0 ∨
        L.properties.time % parameters.block_interval < due % parameters.block_interval)

instance (C : Chain) : Decidable (keeps_slots C) := by
  unfold keeps_slots
  dsimp only
  split <;> infer_instance

/-- Since the last maintenance there was a slot for every block, after the skipped ones. -/
def CountsSlots (C : Chain) : Prop :=
  C.ledger.properties.last_budget_time / C.ledger.parameters.block_interval +
    C.ledger.parameters.maintenance_skip_slots + C.paid.length ≤
      C.ledger.properties.time / C.ledger.parameters.block_interval

/-- How far the chain has come since the last maintenance. -/
def InStage (C : Chain) : Prop :=
  let dpo := C.ledger.properties
  match C.stage with
  | .between =>
    (dpo.head_block_number = 0 ∧ dpo.next_maintenance_time = 0 ∧ C.paid = []) ∨
    (0 < dpo.head_block_number ∧ C.maintenance_flag = true ∧ dpo.time = dpo.last_budget_time ∧ C.paid = []) ∨
    (0 < dpo.head_block_number ∧ C.maintenance_flag = false ∧ dpo.time < dpo.next_maintenance_time ∧ CountsSlots C)
  | .paid false => 0 < dpo.head_block_number ∧ dpo.time < dpo.next_maintenance_time ∧ CountsSlots C
  | .paid true => 0 < dpo.head_block_number ∧ dpo.next_maintenance_time ≤ dpo.time ∧ dpo.time < 2^32

/-- What the miners got is a share for each, and what they got is covered. -/
structure Covered (C : Chain) : Prop where
  pool : 0 ≤ (C.ledger.dynamic core).asset_pool
  budget : 0 ≤ C.ledger.properties.miner_budget_from_fees
  paid : C.paid.sum = C.paid.length * miner_pay_from_fees C.ledger
  covered : C.paid.sum ≤ C.ledger.properties.miner_budget_from_fees
  unspent : C.ledger.properties.unspent_fee_budget = C.ledger.properties.miner_budget_from_fees - C.paid.sum
  below : C.ledger.properties.next_maintenance_time < 2^32
  fits : SlotsFit C.ledger
  standing : InStage C

theorem SlotsFit.congr {L L' : Ledger} (parameters : L'.parameters = L.parameters)
    (next_maintenance_time : L'.properties.next_maintenance_time = L.properties.next_maintenance_time)
    (last_budget_time : L'.properties.last_budget_time = L.properties.last_budget_time) (fits : SlotsFit L) :
    SlotsFit L' := by
  unfold SlotsFit shares at *
  rwa [parameters,next_maintenance_time,last_budget_time]

theorem Covered.working {P : Prop} {C : Chain} {L' : Ledger} (working : Working P C.ledger L') (covered : Covered C) :
    Covered { C with ledger := L' } where
  pool := working.pool covered.pool
  budget := by
    show 0 ≤ L'.properties.miner_budget_from_fees
    rw [working.properties]
    exact covered.budget
  paid := by
    rw [miner_pay_from_fees_congr (L := C.ledger) working.parameters (by rw [working.properties])
      (by rw [working.properties]) (by rw [working.properties])]
    exact covered.paid
  covered := by
    show C.paid.sum ≤ L'.properties.miner_budget_from_fees
    rw [working.properties]
    exact covered.covered
  unspent := by
    show L'.properties.unspent_fee_budget = L'.properties.miner_budget_from_fees - C.paid.sum
    rw [working.properties]
    exact covered.unspent
  below := by
    show L'.properties.next_maintenance_time < 2^32
    rw [working.properties]
    exact covered.below
  fits := covered.fits.congr working.parameters (by rw [working.properties]) (by rw [working.properties])
  standing := by
    have standing := covered.standing
    unfold InStage CountsSlots at *
    dsimp only
    rw [working.properties,working.parameters]
    exact standing

/-- A block is in a later slot than the head block, after those that are skipped. -/
theorem block_slot {maintenance_flag : Bool} {b : Block} {L : Ledger}
    (valid : validate_block_header maintenance_flag b L = .ok ()) (started : 0 < L.properties.head_block_number)
    (below : (L.properties.time / L.parameters.block_interval + 1 +
      if maintenance_flag then L.parameters.maintenance_skip_slots else 0) * L.parameters.block_interval < 2^32) :
    L.properties.time / L.parameters.block_interval + 1 +
        (if maintenance_flag then L.parameters.maintenance_skip_slots else 0) ≤
      b.timestamp / L.parameters.block_interval := by
  have positive := L.parameters.interval_positive
  simp only [validate_block_header,reads_bind,reads_lift,fc_assert_ok] at valid
  obtain ⟨_,got,_,-,slot⟩ := valid
  cases got
  have first : get_slot_time L maintenance_flag 1 = (L.properties.time / L.parameters.block_interval + 1 +
      if maintenance_flag then L.parameters.maintenance_skip_slots else 0) * L.parameters.block_interval := by
    have sum : get_slot_time L maintenance_flag 1 = later (L.properties.time / L.parameters.block_interval *
        L.parameters.block_interval) ((1 + if maintenance_flag then L.parameters.maintenance_skip_slots else 0) *
          L.parameters.block_interval) := by
      simp only [get_slot_time,if_neg Nat.one_ne_zero,if_neg (Nat.ne_of_gt started)]
      cases maintenance_flag <;> rfl
    rw [sum,later,← Nat.add_mul,← Nat.add_assoc,Nat.mod_eq_of_lt below]
  refine (Nat.le_div_iff_mul_le positive).mpr ?_
  rw [← first]
  simp only [get_slot_at_time] at slot
  split at slot
  · cases slot
  · omega

theorem covered_genesis {g : GenesisState} {operations : List (Env × Operation)} {L : Ledger}
    (ran : EStateM.run (apply_transactions operations) (init_genesis g) = .ok () L) : Covered ⟨L,false,.between,[]⟩ := by
  have first : Covered ⟨init_genesis g,false,.between,[]⟩ :=
    { pool := (solvent_genesis g core).1
      budget := le_rfl
      paid := (Int.zero_mul _).symm
      covered := le_rfl
      unspent := rfl
      below := Nat.two_pow_pos 32
      fits := fun ahead => absurd ahead (Nat.lt_irrefl 0)
      standing := .inl ⟨rfl,rfl,rfl⟩ }
  exact first.working (working_transactions ran)

/-- The miner of a block that is allowed is paid a share that the budget has room for. -/
theorem covered_opened {C : Chain} {b : Block} {L : Ledger} {maint_needed : Bool} (covered : Covered C)
    (stage : C.stage = .between) (meets : keeps_slots C)
    (ran : EStateM.run (open_block C.maintenance_flag b) C.ledger = .ok maint_needed L) :
    Covered ⟨L,C.maintenance_flag,.paid maint_needed,C.paid ++ [miner_pay_from_fees C.ledger]⟩ := by
  obtain ⟨valid,needed,below,⟨_,properties⟩,parameters,pool⟩ := open_block_ok ran
  have standing := covered.standing
  simp only [InStage,stage] at standing
  simp only [keeps_slots,stage] at meets
  have pay : miner_pay_from_fees L = miner_pay_from_fees C.ledger :=
    miner_pay_from_fees_congr parameters (by rw [properties]) (by rw [properties]) (by rw [properties])
  have sum : (C.paid ++ [miner_pay_from_fees C.ledger]).sum = C.paid.sum + miner_pay_from_fees C.ledger := by simp
  have paid : (C.paid ++ [miner_pay_from_fees C.ledger]).sum =
      ((C.paid.length + 1 : Nat) : Int) * miner_pay_from_fees C.ledger := by
    rw [sum,covered.paid,Nat.cast_add_one,Int.add_mul,Int.one_mul]
  have counted : C.paid.length = 0 ∨ C.ledger.properties.time < C.ledger.properties.next_maintenance_time ∧ CountsSlots C := by
    rcases standing with ⟨-,-,none⟩ | ⟨-,-,-,none⟩ | ⟨-,-,early,counts⟩
    · exact .inl (List.length_eq_zero_iff.mpr none)
    · exact .inl (List.length_eq_zero_iff.mpr none)
    · exact .inr ⟨early,counts⟩
  have share := covered_more covered.budget covered.below covered.fits counted
  exact {
    pool := pool covered.pool
    budget := by
      show 0 ≤ L.properties.miner_budget_from_fees
      rw [properties]
      exact covered.budget
    paid := by
      rw [List.length_append,List.length_singleton,pay]
      exact paid
    covered := by
      show _ ≤ L.properties.miner_budget_from_fees
      rw [paid,properties]
      exact share
    unspent := by
      show L.properties.unspent_fee_budget = L.properties.miner_budget_from_fees - _
      rw [sum,properties]
      dsimp only
      rw [covered.unspent]
      omega
    below := by
      show L.properties.next_maintenance_time < 2^32
      rw [properties]
      exact covered.below
    fits := covered.fits.congr parameters (by rw [properties]) (by rw [properties])
    standing := by
      cases maint_needed
      case true =>
        have due := of_decide_eq_true needed.symm
        unfold InStage
        dsimp only
        rw [properties]
        exact ⟨Nat.succ_pos _,due,below⟩
      case false =>
        have early := Nat.lt_of_not_le (of_decide_eq_false needed.symm)
        have started : 0 < C.ledger.properties.head_block_number := by
          rcases standing with ⟨-,none,-⟩ | ⟨started,-⟩ | ⟨started,-⟩
          · exact absurd (none ▸ early) (Nat.not_lt_zero _)
          · exact started
          · exact started
        have slot := block_slot valid started (meets.resolve_left (Nat.ne_of_gt started))
        unfold InStage CountsSlots
        dsimp only
        rw [properties,parameters,List.length_append,List.length_singleton]
        refine ⟨Nat.succ_pos _,early,?_⟩
        show C.ledger.properties.last_budget_time / _ + _ + (C.paid.length + 1) ≤ b.timestamp / _
        rcases standing with ⟨-,none,-⟩ | ⟨-,flag,same,none⟩ | ⟨-,flag,-,counts⟩
        · exact absurd (none ▸ early) (Nat.not_lt_zero _)
        · rw [flag,if_pos rfl,same] at slot
          rw [none,List.length_nil]
          omega
        · rw [flag,if_neg Bool.false_ne_true] at slot
          have counts : _ ≤ _ := counts
          omega }

/-- The time of the next maintenance is no later than the head block or as many seconds into an
    interval of blocks as the one that was due, or begins one. -/
theorem next_time_mod {dpo : DynamicProperties} {parameters : Parameters} (due : dpo.next_maintenance_time ≤ dpo.time)
    (below : dpo.time < 2^32) (below' : parameters.maintenance_interval < 2^32)
    (ahead : dpo.time < next_time dpo parameters.maintenance_interval) :
    next_time dpo parameters.maintenance_interval % parameters.block_interval = 0 ∨
      next_time dpo parameters.maintenance_interval % parameters.block_interval =
        dpo.next_maintenance_time % parameters.block_interval := by
  have divides : parameters.block_interval ∣ parameters.maintenance_interval :=
    Nat.dvd_of_mod_eq_zero parameters.interval_divides
  generalize parameters.block_interval = interval at divides ⊢
  generalize parameters.maintenance_interval = maintenance_interval at *
  unfold next_time at ahead ⊢
  split at ahead
  · left
    have := Nat.div_mul_le_self dpo.time maintenance_interval
    have short : (dpo.time / maintenance_interval + 1) * maintenance_interval < 2^32 := by
      rw [Nat.add_one_mul] at ahead ⊢
      omega
    rw [if_pos ‹_›,Nat.mod_eq_of_lt short]
    exact Nat.mod_eq_zero_of_dvd (divides.mul_left _)
  · right
    rw [if_neg ‹_›]
    have y : ((dpo.time : Int) - dpo.next_maintenance_time).tdiv maintenance_interval =
        ((dpo.time - dpo.next_maintenance_time) / maintenance_interval : Nat) := by
      rw [← Int.ofNat_sub due]
      rfl
    have sum : ((dpo.next_maintenance_time : Int) + (((dpo.time : Int) - dpo.next_maintenance_time).tdiv
        maintenance_interval + 1) * maintenance_interval) = ((dpo.next_maintenance_time +
          ((dpo.time - dpo.next_maintenance_time) / maintenance_interval + 1) * maintenance_interval : Nat) : Int) := by
      rw [y]
      push_cast
      rfl
    have time : (((dpo.next_maintenance_time : Int) + (((dpo.time : Int) - dpo.next_maintenance_time).tdiv
        maintenance_interval + 1) * maintenance_interval) % 2^32).toNat = (dpo.next_maintenance_time +
          ((dpo.time - dpo.next_maintenance_time) / maintenance_interval + 1) * maintenance_interval) % 2^32 := by
      rw [sum]
      omega
    dsimp only at ahead ⊢
    rw [time] at ahead ⊢
    have := Nat.div_mul_le_self (dpo.time - dpo.next_maintenance_time) maintenance_interval
    have short : dpo.next_maintenance_time +
        ((dpo.time - dpo.next_maintenance_time) / maintenance_interval + 1) * maintenance_interval < 2^32 := by
      rw [Nat.add_one_mul] at ahead ⊢
      omega
    rw [Nat.mod_eq_of_lt short,Nat.add_mod,Nat.mod_eq_zero_of_dvd (divides.mul_left _),Nat.add_zero,Nat.mod_mod]

theorem covered_closed {C : Chain} {b : Block} {L : Ledger} {maint_needed : Bool} (covered : Covered C)
    (stage : C.stage = .paid maint_needed) (meets : keeps_slots C)
    (ran : EStateM.run (close_block maint_needed b) C.ledger = .ok () L) :
    Covered ⟨L,maint_needed,.between,if maint_needed then [] else C.paid⟩ := by
  have standing := covered.standing
  have rest (L₁ : Ledger) (first : Covered ⟨L₁,maint_needed,.between,if maint_needed then [] else C.paid⟩)
      (ran : EStateM.run (do
        apply_transactions b.expired
        settle_changes b.changes) L₁ = .ok () L) : Covered ⟨L,maint_needed,.between,if maint_needed then [] else C.paid⟩ := by
    obtain ⟨_,_,expired,ran⟩ := run_bind_ok.mp ran
    exact (first.working (working_transactions expired)).working (working_changes ran)
  cases maint_needed
  case false =>
    refine rest _ ?_ ran
    simp only [InStage,stage] at standing
    exact { covered with standing := .inr (.inr ⟨standing.1,rfl,standing.2⟩) }
  case true =>
    obtain ⟨_,L₁,maintained,ran⟩ := run_bind_ok.mp ran
    refine rest L₁ ?_ ran
    simp only [InStage,stage] at standing
    simp only [keeps_slots,stage] at meets
    obtain ⟨started,due,below⟩ := standing
    obtain ⟨below',aligned⟩ := meets
    obtain ⟨budget,_,nonneg,parameters,pool,properties⟩ := maintained_budget due maintained
    have nonneg := nonneg covered.pool (by
      rw [covered.unspent]
      exact Int.sub_nonneg_of_le covered.covered)
    exact {
      pool := le_of_eq pool.symm
      budget := by
        show 0 ≤ L₁.properties.miner_budget_from_fees
        rw [properties]
        exact nonneg
      paid := (Int.zero_mul _).symm
      covered := by
        show 0 ≤ L₁.properties.miner_budget_from_fees
        rw [properties]
        exact nonneg
      unspent := by
        show L₁.properties.unspent_fee_budget = L₁.properties.miner_budget_from_fees - 0
        rw [properties]
        exact (Int.sub_zero _).symm
      below := by
        show L₁.properties.next_maintenance_time < 2^32
        rw [properties]
        dsimp only [next_time]
        split <;> omega
      fits := by
        unfold SlotsFit shares
        dsimp only
        rw [properties,parameters]
        dsimp only
        intro ahead
        refine slots_between (C.ledger.pending_parameters.getD C.ledger.parameters).interval_positive ?_
        rcases next_time_mod due below below' ahead with begins | same
        · exact .inr (.inl begins)
        · rw [same]
          exact aligned
      standing := by
        unfold InStage
        dsimp only
        rw [properties]
        exact .inr (.inl ⟨started,rfl,rfl,rfl⟩) }

theorem covered_mined {g : GenesisState} {C : Chain} (mined : Mined g keeps_slots C) : Covered C := by
  induction mined with
  | genesis ran => exact covered_genesis ran
  | opened before stage meets ran ih => exact covered_opened ih stage meets ran
  | closed before stage meets ran ih => exact covered_closed ih stage meets ran

/-- As long as the slots keep in step with maintenance, the miners get no more than the budget since
    it was set, and what is unspent of it is the rest. -/
theorem budget_never_overspent (g : GenesisState) (C : Chain) (mined : Mined g keeps_slots C) :
    C.paid.sum ≤ C.ledger.properties.miner_budget_from_fees ∧
      C.ledger.properties.unspent_fee_budget = C.ledger.properties.miner_budget_from_fees - C.paid.sum ∧
      0 ≤ C.ledger.properties.unspent_fee_budget := by
  have covered := covered_mined mined
  refine ⟨covered.covered,covered.unspent,?_⟩
  rw [covered.unspent]
  exact Int.sub_nonneg_of_le covered.covered

/-- Account 4 becomes a miner and pays a fee. -/
def one_miner (fee : Int) : List (Env × Operation) := [
  (free_env,.account_create ⟨⟨0,core⟩,0,default_account.options⟩),
  (free_env,.transfer ⟨⟨0,core⟩,0,4,⟨100000,core⟩⟩),
  (free_env,(MinerCreateOperation.mk ⟨0,core⟩ 4).operation),
  (free_env,.transfer ⟨⟨fee,core⟩,4,0,⟨1,core⟩⟩)]

/-- The chain of a genesis file with these operations. -/
def entered (operations : List (Env × Operation)) : Chain :=
  ⟨endState (EStateM.run (apply_transactions operations) (init_genesis small_genesis)),false,.between,[]⟩

def empty_block (timestamp : Nat) : Block := ⟨timestamp,0,[],[],[]⟩

/-- Two blocks of maintenance, and one of the day after. -/
theorem budget_never_overspent_one_miner : ∃ C : Chain, C.paid = [2] ∧
    C.ledger.properties.unspent_fee_budget = 39995 ∧ C.paid.sum ≤ C.ledger.properties.miner_budget_from_fees := by
  have genesis : Mined small_genesis keeps_slots (entered (one_miner 40000)) :=
    .genesis (run_of_returned (by decide +kernel))
  have computed : (mine_allowed keeps_slots [empty_block 1530000005,empty_block 1530057600,empty_block 1530057620]
    (entered (one_miner 40000))).map (fun C => (C.paid,C.ledger.properties.unspent_fee_budget)) = some ([2],39995) := by
    decide +kernel
  obtain ⟨C,mined,shown⟩ := Option.map_eq_some_iff.mp computed
  obtain ⟨paid,unspent⟩ := Prod.mk.inj shown
  exact ⟨C,paid,unspent,(budget_never_overspent small_genesis C (mined_mine_allowed genesis mined)).1⟩

/-- Blocks of seven seconds, a maintenance with every second of them, and no slots skipped. -/
def odd_parameters : Parameters := ⟨7,14,0,86400,by decide,by decide,by decide⟩

/-- The first block executes a proposal of them, and the maintenance of the second adopts it. -/
def odd_blocks : List Block := [
  { empty_block 1530000005 with expired := [(free_env,(MinerUpdateGlobalParametersOperation.mk ⟨0,core⟩ odd_parameters).operation)] },
  empty_block 1530057600,
  empty_block 1530057606,
  empty_block 1530057613]

instance decidable_always (C : Chain) : Decidable ((fun _ : Chain => True) C) := .isTrue trivial

/-- Maintenance is due at the second second of a slot of seven. Four are divided among two blocks, and
    three blocks are paid two each. -/
theorem budget_overspent : ∃ C : Chain, Mined small_genesis (fun _ => True) C ∧ C.stage = .paid true ∧
    C.paid = [2,2,2] ∧ C.ledger.properties.miner_budget_from_fees = 4 ∧
    C.ledger.properties.unspent_fee_budget = -2 := by
  have genesis : Mined small_genesis (fun _ => True) (entered (one_miner 4)) :=
    .genesis (run_of_returned (by decide +kernel))
  have computed : (mine_allowed (fun _ => True) odd_blocks (entered (one_miner 4)) >>= fun C =>
      open_allowed (fun _ => True) C (empty_block 1530057620)).map (fun C => (C.stage,C.paid,
        C.ledger.properties.miner_budget_from_fees,C.ledger.properties.unspent_fee_budget)) =
      some (.paid true,[2,2,2],4,-2) := by decide +kernel
  obtain ⟨C,opened,shown⟩ := Option.map_eq_some_iff.mp computed
  obtain ⟨C',mined,opened⟩ := Option.bind_eq_some_iff.mp opened
  obtain ⟨stage,paid,budget,unspent⟩ : C.stage = .paid true ∧ C.paid = [2,2,2] ∧
      C.ledger.properties.miner_budget_from_fees = 4 ∧ C.ledger.properties.unspent_fee_budget = -2 := by
    simpa using shown
  exact ⟨C,mined_open_allowed (mined_mine_allowed genesis mined) opened,stage,paid,budget,unspent⟩

end Decent.Money

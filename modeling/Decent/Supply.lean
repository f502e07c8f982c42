import Decent.Conservation
import Decent.RenewalPass
import Decent.Housekeeping

/-!
The supply over whole runs. What an operation adds to the excess of core is the surplus of
its fee; the blocks and their maintenance add nothing, but for renewals at a negative
price. User-issued assets are conserved in every run.
-/
namespace Decent.Money
open Throwing

/-! ### One operation -/

section
variable {L L' : Ledger} (a : AssetId)

theorem excess_convert_fee {fee : Asset} {core_fee_paid : Int} {u : Unit} (notCore : fee.asset_id ≠ core)
    (ran : EStateM.run (convert_fee fee core_fee_paid) L = .ok u L') :
    excess a L' = excess a L + fee.part a - (⟨core_fee_paid,core⟩ : Asset).part a := by
  rw [convert_fee,if_pos notCore] at ran
  have moved := excess_shift a (s := 0) (x := fee.amount) (y := -core_fee_paid) ?_ ran
  · rw [moved,Int.sub_zero,part_negate ⟨core_fee_paid,core⟩]
    show excess a L + fee.part a + -_ = _
    omega
  · intro old new changed
    simp only [bind_ok,checked_ok,pure_ok] at changed
    obtain ⟨_,⟨-,rfl⟩,_,⟨-,rfl⟩,rfl⟩ := changed
    exact ⟨(Int.add_zero _).symm,rfl,Int.sub_eq_add_neg⟩

theorem excess_charge_fee {payer : AccountId} {fee : Asset} {u : Unit}
    (ran : EStateM.run (charge_fee payer fee) L = .ok u L') : excess a L' = excess a L - fee.part a := by
  obtain ⟨_,negated,ran⟩ := run_observe_bind.mp ran
  exact excess_negated a negated ran

/-- What the fee of an operation leaves: nothing, unless `core_fee_paid` is not the fee. -/
theorem FeeFlow.excess {env : Env} {executed : M Unit} {op : Operation} {L L₁ L₂ L₃ L₄ : Ledger} {fee : Int} {act : M Unit}
    (flow : FeeFlow env executed op L L₁ L₂ L₃ L₄ fee act) :
    excess a L₄ - excess a L₃ + (excess a L₂ - excess a L) =
      if op.fee.asset_id = core then (⟨fee - op.fee.amount,core⟩ : Asset).part a else 0 := by
  have charged := excess_charge_fee a flow.charged
  have paid := excess_fund_asset_pool a flow.paid
  by_cases inCore : op.fee.asset_id = core
  · rw [if_pos inCore]
    rw [dynamic_convert_fee_core inCore flow.converted] at paid
    simp only [Asset.part,inCore] at charged paid ⊢
    split at charged
    case isTrue here =>
      rw [if_pos here] at paid ⊢
      omega
    case isFalse here =>
      rw [if_neg here] at paid ⊢
      omega
  · rw [if_neg inCore]
    have converted := excess_convert_fee a inCore flow.converted
    omega

theorem excess_create_asset (L : Ledger) {ao : AssetObject} {fee : Int} (fresh : ao.dynamic = ⟨0,0,fee⟩) :
    excess a { L with assets := L.assets.create ao } = excess a L + (⟨fee,core⟩ : Asset).part a := by
  have dynamic : (({ L with assets := L.assets.create ao } : Ledger).dynamic a).asset_pool = (L.dynamic a).asset_pool ∧
      (({ L with assets := L.assets.create ao } : Ledger).dynamic a).current_supply = (L.dynamic a).current_supply := by
    show ((((L.assets.create ao).find? a).elim ⟨0,0,0⟩ AssetObject.dynamic).asset_pool = _) ∧
      (((L.assets.create ao).find? a).elim ⟨0,0,0⟩ AssetObject.dynamic).current_supply = _
    rw [Index.find?_create]
    split
    case isTrue here =>
      rw [Ledger.dynamic,here,Index.find?_next]
      simp [fresh]
    case isFalse => exact ⟨rfl,rfl⟩
  have pools : core_pools { L with assets := L.assets.create ao } = core_pools L + fee := by
    show (L.assets.create ao).total _ = L.assets.total _ + fee
    rw [Index.total_create,fresh]
  unfold excess budget_in
  rw [dynamic.1,dynamic.2,pools]
  show balances_in a L + vestings_in a L + prices_in a L + escrows_in a L + _ - _ + _ = _
  simp only [Asset.part,eq_comm (a := core)]
  split
  · show _ + (core_pools L + fee + L.properties.unspent_fee_budget - _ - _) = _
    omega
  · omega

theorem excess_asset_create {o : AssetCreateOperation} {fee : Int}
    (ran : EStateM.run (asset_create_apply o fee) L = .ok () L') :
    excess a L' = excess a L + (⟨fee,core⟩ : Asset).part a := by
  cases ran
  exact excess_create_asset a L rfl

end

/-- Beyond its fee's surplus an operation leaves the excess as it is. -/
theorem excess_evaluate_and_apply {env : Env} {executed : M Unit} {op : Operation} {L L₁ L₂ L₃ L₄ : Ledger} {fee : Int}
    {act : M Unit} (valid : op.validate = true) (flow : FeeFlow env executed op L L₁ L₂ L₃ L₄ fee act) (kept : Kept L)
    {a : AssetId} (pooled : ∀ o ctx, op = .request_to_buy o → request_to_buy_evaluate o L = .ok ctx → at_feed_rate L o ctx →
      a ≠ core ∧ a ≠ ctx.content_price.asset_id)
    (inside : EStateM.run executed L₂ = .ok () L₃ → excess a L₃ = excess a L₂) : ∃ x,
      prepare_fee op.fee_payer op.fee L = .ok x ∧ excess a L₄ = excess a L + (⟨fee_surplus op x,core⟩ : Asset).part a := by
  have evaluated := flow.evaluated
  simp only [evaluate,reads_bind] at evaluated
  obtain ⟨x,prepared,-,-,evaluated⟩ := evaluated
  refine ⟨x,prepared,?_⟩
  have asked := fun inCore => prepare_fee_core inCore prepared
  have left := do_evaluate_fee evaluated
  have around := flow.excess a
  have applied := flow.applied
  have kept₂ : Kept L₂ := kept.untouched (untouched_composes.trans (Within.ok inferInstance flow.converted)
    (Within.ok inferInstance flow.paid))
  have plain (same : fee = x) (even : excess a L₃ = excess a L₂) : excess a L₄ = excess a L := by
    rw [same] at around
    split at around
    case isTrue inCore =>
      rw [part_zero (x := ⟨x - op.fee.amount,core⟩) (by rw [asked inCore]; exact Int.sub_self _)] at around
      omega
    case isFalse => omega
  cases op <;> simp only [do_evaluate,reads_bind,reads_pure,Prod.mk.injEq] at evaluated
  case asset_create o _ =>
    obtain ⟨_,-,rfl,rfl⟩ := evaluated
    have created := excess_asset_create a applied
    obtain ⟨halved,-⟩ := left
    simp only [fee_surplus]
    split
    case isTrue inCore =>
      have worth := asked inCore
      rw [if_pos (show (Operation.asset_create o).fee.asset_id = core from inCore),← worth] at around
      simp only [Asset.part] at around created ⊢
      split at around
      case isTrue here =>
        rw [if_pos here] at created ⊢
        omega
      case isFalse here =>
        rw [if_neg here] at created ⊢
        omega
    case isFalse notCore =>
      rw [if_neg (show ¬ (Operation.asset_create o).fee.asset_id = core from notCore)] at around
      rw [← halved]
      omega
  case request_to_buy =>
    obtain ⟨ctx,found,rfl,rfl⟩ := evaluated
    have rates : SameRates L L₂ := flow.prepared
    have even := excess_request_to_buy found rates applied (a := a) fun touched fed =>
      touched.elim (pooled _ ctx rfl found fed).1 (pooled _ ctx rfl found fed).2
    rw [part_zero rfl,Int.add_zero]
    exact plain left even
  case proposal_update =>
    obtain ⟨rfl,rfl⟩ := evaluated
    rw [part_zero rfl,Int.add_zero]
    exact plain rfl (inside applied)
  all_goals
    rw [part_zero rfl,Int.add_zero]
    refine plain left ?_
  case asset_fund_pools =>
    obtain ⟨_,-,-,rfl⟩ := evaluated
    simp only [Operation.validate,Bool.and_eq_true,decide_eq_true_eq] at valid
    exact even_asset_fund_pools valid.1.1.1.2 applied a
  case asset_claim_fees =>
    obtain ⟨_,-,-,rfl⟩ := evaluated
    simp only [Operation.validate,Bool.and_eq_true,decide_eq_true_eq] at valid
    exact even_asset_claim_fees valid.1.1.1.2 applied a
  case other payer fee change _ =>
    obtain ⟨-,rfl⟩ := evaluated
    obtain ⟨_,settled,applied⟩ := run_observe_bind.mp applied
    cases applied
    exact even_settled (change.settled settled) a
  case content_submit =>
    obtain ⟨content,-,-,rfl⟩ := evaluated
    exact even_content_submit applied a
  all_goals
    obtain ⟨_,-,-,rfl⟩ := evaluated
  case transfer => exact even_transfer applied a
  case transfer2 => exact even_transfer2 applied a
  case asset_issue => exact even_asset_issue applied a
  case asset_reserve => exact even_asset_reserve applied a
  case withdraw_permission_claim => exact even_withdraw_permission_claim applied a
  case vesting_balance_create => exact even_vesting_balance_create applied a
  case vesting_balance_withdraw => exact even_vesting_balance_withdraw applied a
  case content_cancellation => exact even_content_cancellation applied a
  case deliver_keys => exact even_deliver_keys kept₂ applied a
  case proof_of_custody => exact even_proof_of_custody applied a
  case subscribe => exact even_subscribe applied a
  case subscribe_by_author => exact even_extend_subscription.ok applied a
  case automatic_renewal_of_subscription => exact Within.ok (P := Even) inferInstance applied a
  case account_create =>
    cases applied
    rfl
  case account_update => exact (even_account_update _).ok applied a

/-! ### Blocks and maintenance -/

section
variable {L L' : Ledger}

theorem excess_properties (a : AssetId) (L : Ledger) (properties : DynamicProperties) :
    excess a { L with properties := properties } = excess a L + (⟨properties.unspent_fee_budget -
      L.properties.unspent_fee_budget - (properties.mined_rewards - L.properties.mined_rewards) -
      (properties.miner_budget_from_fees - L.properties.miner_budget_from_fees),core⟩ : Asset).part a := by
  show balances_in a L + vestings_in a L + prices_in a L + escrows_in a L + (L.dynamic a).asset_pool -
    (L.dynamic a).current_supply + (if a = core then core_pools L + properties.unspent_fee_budget -
      properties.mined_rewards - properties.miner_budget_from_fees else 0) = _
  unfold excess budget_in
  simp only [Asset.part,eq_comm (a := core)]
  split
  · omega
  · omega

/-- A miner is paid out of the budget and the rewards. -/
theorem even_update_signing_miner {miner : Nat} (ran : EStateM.run (update_signing_miner miner) L = .ok () L') : Even L L' := by
  intro a
  simp only [update_signing_miner,run_get_bind,run_observe_bind,reads_lift,checked_ok] at ran
  obtain ⟨_,⟨-,rfl⟩,_,⟨-,rfl⟩,ran⟩ := ran
  obtain ⟨_,L₁,noted,ran⟩ := run_bind_ok.mp ran
  cases noted
  obtain ⟨pay,sum,paid⟩ := run_observe_bind.mp ran
  obtain ⟨-,rfl⟩ := checked_ok.mp (reads_lift.mp sum)
  rw [excess_deposit_miner_pay a paid,excess_properties]
  simp only [Asset.part]
  split
  · omega
  · omega

/-- The budget of an interval is what the pool and the last budget held. -/
theorem even_process_budget (ran : EStateM.run process_budget L = .ok () L') : Even L L' := by
  intro a
  simp only [process_budget,run_get_bind,run_observe_bind,reads_lift,checked_ok,get_asset_ok] at ran
  obtain ⟨core_asset,found,_,-,_,⟨-,rfl⟩,_,-,planned,-,_,-,_,⟨-,rfl⟩,_,⟨-,rfl⟩,_,⟨-,rfl⟩,ran⟩ := ran
  obtain ⟨_,L₁,changed,done⟩ := run_bind_ok.mp ran
  cases done
  have moved := dynamic_modify_dynamic changed
  simp only [bind_ok,checked_ok,pure_ok] at moved
  obtain ⟨_,⟨-,rfl⟩,new⟩ := moved
  have here : L.dynamic core = core_asset.dynamic := by simp [Ledger.dynamic,found]
  have first := excess_modify_dynamic a changed
  obtain ⟨_,_,-,-,rfl⟩ := modify_dynamic_ok changed
  rw [← new,here] at first
  rw [excess_properties,first]
  simp only [Asset.part,eq_comm (a := core)]
  split
  · omega
  · omega

theorem even_content_expire {id : Nat} {content : Content} {u : Unit} (found : L.contents.find? id = some content)
    (ran : EStateM.run (content_expire id content) L = .ok u L') : Even L L' := by
  intro a
  obtain ⟨account,L₁,L₂,-,taken,forgotten,rfl⟩ := content_expire_ok ran
  have found₁ : L₁.contents.find? id = some content := by rw [adjust_balance_frame taken]; exact found
  have emptied := excess_update_content (L := { L₁ with publishing := _ }) a found₁ emptied_content
  dsimp only [emptied_content] at emptied
  rw [part_zero (x := ⟨0,_⟩) rfl] at emptied
  have before := excess_adjust_balance a taken
  have forgot : excess a L₂ = _ := Within.ok (P := Even) inferInstance forgotten a
  refine forgot.trans (emptied.trans ?_)
  show excess a L₁ - _ + 0 = _
  omega

theorem even_expire_contents (ids : List Nat) : ∀ {L L' : Ledger},
    EStateM.run (expire_contents ids) L = .ok () L' → Even L L' := by
  induction ids with
  | nil =>
    intro L L' ran
    cases ran
    exact even_composes.refl _
  | cons id rest ih =>
    intro L L' ran
    obtain ⟨content,L₁,found,expired,ran⟩ := expire_contents_cons_ok ran
    exact even_composes.trans (even_content_expire found expired) (ih ran)

theorem even_expire_buyings (ids : List Nat) : ∀ {L L' : Ledger},
    EStateM.run (expire_buyings ids) L = .ok () L' → Even L L' := by
  induction ids with
  | nil =>
    intro L L' ran
    cases ran
    exact even_composes.refl _
  | cons id rest ih =>
    intro L L' ran
    obtain ⟨b,found,⟨-,ran⟩ | ⟨-,L₁,expired,ran⟩⟩ := expire_buyings_cons_ok ran
    · exact ih ran
    · exact even_composes.trans (even_buying_expire found expired) (ih ran)

end

/-! ### Renewals -/

/-- Who subscribes to whom, on what terms, and how long it is to the next maintenance. -/
structure Idle (L L' : Ledger) : Prop where
  accounts : L'.accounts = L.accounts
  subscriptions : L'.subscriptions = L.subscriptions
  properties : L'.properties = L.properties
  parameters : L'.parameters = L.parameters
  pending_parameters : L'.pending_parameters = L.pending_parameters

instance idle_composes : Composes Idle where
  refl _ := ⟨rfl,rfl,rfl,rfl,rfl⟩
  trans first second := ⟨second.accounts.trans first.accounts,second.subscriptions.trans first.subscriptions,
    second.properties.trans first.properties,second.parameters.trans first.parameters,
    second.pending_parameters.trans first.pending_parameters⟩

instance : Crediting Idle where
  balances _ _ := ⟨rfl,rfl,rfl,rfl,rfl⟩
  vestings _ _ := ⟨rfl,rfl,rfl,rfl,rfl⟩
  miners _ _ := ⟨rfl,rfl,rfl,rfl,rfl⟩

instance : Seeding Idle where
  statistics _ _ := ⟨rfl,rfl,rfl,rfl,rfl⟩
  seeders _ _ := ⟨rfl,rfl,rfl,rfl,rfl⟩
  reset _ _ _ := ⟨rfl,rfl,rfl,rfl,rfl⟩

instance : Publishing Idle where
  contents _ _ := ⟨rfl,rfl,rfl,rfl,rfl⟩
  returned _ _ := ⟨rfl,rfl,rfl,rfl,rfl⟩

instance : Accounting Idle where
  publishing _ _ := ⟨rfl,rfl,rfl,rfl,rfl⟩

instance : Logging Idle where
  applied _ _ _ := ⟨rfl,rfl,rfl,rfl,rfl⟩

instance : Purchasing Idle where
  buyings _ _ := ⟨rfl,rfl,rfl,rfl,rfl⟩
  payments _ _ := ⟨rfl,rfl,rfl,rfl,rfl⟩

/-- A renewal loses the price only where it takes it from the author and cannot. -/
theorem excess_settle_renewal {a : AssetId} {L L' : Ledger} {s : Subscription} {u : Unit}
    (asked : ∀ author price, L.accounts.find? s.to_account = some author → due_price L author.options price →
      price.asset_id = a → 0 ≤ price.amount)
    (ran : EStateM.run (settle_renewal s) L = .ok u L') : excess a L' = excess a L := by
  obtain ⟨author,found,outcome⟩ := settle_renewal_ok ran
  cases outcome with
  | renewed price pays ran =>
    simp only [renew_subscription,run_bind_ok,run_observe,reads_lift] at ran
    obtain ⟨_,L₁,extended,_,_,⟨negated,rfl⟩,_,L₂,taken,_,L₃,given,pushed⟩ := ran
    cases extended
    cases pushed
    have first := excess_negated a negated taken
    have second := excess_adjust_balance a given
    show excess a L₃ = _
    rw [second,first]
    exact Int.sub_add_cancel ..
  | refused none off =>
    rw [off]
    rfl
  | failed price pays L₁ threw off =>
    obtain ⟨negative,taken⟩ := renew_subscription_credited pays.2 threw
    have other : price.asset_id ≠ a := fun same => Int.not_le.mpr negative (asked author price found pays.1 same)
    have credited := excess_adjust_balance a taken
    rw [part_other (x := ⟨-price.amount,price.asset_id⟩) other,Int.add_zero] at credited
    rw [off]
    exact credited

/-- What settling keeps of each subscription that is due, the pass keeps. -/
theorem related_renewals {R : Ledger → Ledger → Prop} [Composes R] (t : Nat) (todo : List Subscription) :
    ∀ {fuel : Nat} {before : List Subscription} {L L' : Ledger}, L.subscriptions.order = before ++ todo →
      (∀ s ∈ todo, due t s = true → ∀ L₁ L₂, s ∈ L₁.subscriptions.order → L₁.accounts = L.accounts →
        EStateM.run (settle_renewal s) L₁ = .ok () L₂ → R L₁ L₂) →
      EStateM.run (renewals t fuel (todo.head?.map (·.id))) L = .ok () L' → R L L' := by
  induction todo with
  | nil =>
    intro fuel before L L' _ _ ran
    cases fuel <;> cases ran <;> exact Composes.refl _
  | cons s rest ih =>
    intro fuel before L L' split step ran
    have later (u : Subscription) (inside : u ∈ rest) := step u (List.mem_cons_of_mem _ inside)
    have next : ∀ s' : Subscription, (before ++ [s']) ++ rest = before ++ s' :: rest := by simp
    cases fuel with
    | zero =>
      cases ran
      exact Composes.refl _
    | succ fuel =>
      change EStateM.run (renewals t (fuel + 1) (some s.id)) L = _ at ran
      rw [run_renewals_cons t fuel split] at ran
      split at ran
      case isFalse =>
        cases ran
        exact Composes.refl _
      case isTrue renewing =>
        split at ran
        case isFalse => exact ih (split.trans (next s).symm) later ran
        case isTrue inTime =>
          cases settled : EStateM.run (settle_renewal s) L with
          | error e L₁ =>
            rw [settled] at ran
            cases ran
          | ok u L₁ =>
            rw [settled] at ran
            dsimp only at ran
            have member : s ∈ L.subscriptions.order := by rw [split]; simp
            have first : R L L₁ := step s List.mem_cons_self (by simp [due,renewing,inTime]) L L₁ member rfl settled
            obtain ⟨author,-,outcome⟩ := settled_at split renewing settled
            cases outcome with
            | renewed price pays done order others accounts applied =>
              rw [successor_eq (s := { s with expiration := _ }) order] at ran
              refine Composes.trans first (ih (order.trans (next _).symm) ?_ ran)
              intro u inside isDue L₂ L₃ member kept
              exact later u inside isDue L₂ L₃ member (kept.trans accounts)
            | disabled s' equal off order others accounts applied =>
              rw [run_renewals_disabled t fuel split equal off order] at ran
              cases ran
              exact first

/-! ### Every run -/

/-- The asset follows a feed. -/
def monitored (L : Ledger) (a : AssetId) : Prop := ∃ ao, L.assets.find? a = some ao ∧ ao.is_monitored_asset = true

theorem Watched.monitored {L L' : Ledger} {a : AssetId} (watched : Watched L L') (before : monitored L a) : monitored L' a := by
  obtain ⟨ao,found,isMonitored⟩ := before
  obtain ⟨ao',found',same⟩ := watched found
  exact ⟨ao',found',same.trans isMonitored⟩

/-- The operation neither multiplies or loses its fee nor buys at the rate of a feed. -/
def conserving (op : Operation) (L : Ledger) : Prop :=
  fee_kept op L ∧ match op with
    | .request_to_buy o => ∀ ctx, request_to_buy_evaluate o L = .ok ctx → ¬ at_feed_rate L o ctx
    | _ => True

/-- The excess is what it was, unless the asset is one that follows a feed. -/
def Level (a : AssetId) (L L' : Ledger) : Prop :=
  Kept L → Kept L' ∧ Watched L L' ∧ (a = core ∨ ¬ monitored L' a → excess a L' = excess a L)

instance level_composes (a : AssetId) : Composes (Level a) where
  refl L kept := ⟨kept,watched_composes.refl L,fun _ => rfl⟩
  trans first second kept := by
    obtain ⟨kept₁,watched₁,same₁⟩ := first kept
    obtain ⟨kept₂,watched₂,same₂⟩ := second kept₁
    refine ⟨kept₂,watched_composes.trans watched₁ watched₂,fun counted => (same₂ counted).trans (same₁ ?_)⟩
    exact counted.imp_right fun free before => free (watched₂.monitored before)

/-- Whatever operations on the way conserve core, the whole does; other assets need no condition. -/
theorem level_apply_operation {a : AssetId} {env : Env} {op : Operation} {L L' : Ledger}
    (met : ∀ op' L', Applies env op L op' L' → a = core → conserving op' L')
    (ran : EStateM.run (apply_operation env op) L = .ok () L') : Level a L L' := by
  let meets : Operation → Ledger → Prop := fun op L => a = core → conserving op L
  have whole : ∀ op' L', Applies env op L op' L' → meets op' L' := met
  refine related_apply_operation ?_ op whole ran
  intro executed op L L₁ L₂ L₃ L₄ fee act meets valid ran flow inside kept
  have charged : Watched L₃ L₄ := Within.ok inferInstance flow.charged
  have whole : Watched L L₄ := watched_apply_operation env op (watched_composes.refl L) ran
  refine ⟨kept_steady.apply_operation env op kept ran,whole,fun counted => ?_⟩
  have kept₂ : Kept L₂ := kept.untouched (untouched_composes.trans (Within.ok inferInstance flow.converted)
    (Within.ok inferInstance flow.paid))
  have pooled (o : RequestToBuyOperation) (ctx : BuyingContext) (isPurchase : op = .request_to_buy o)
      (evaluated : request_to_buy_evaluate o L = .ok ctx) (fed : at_feed_rate L o ctx) :
      a ≠ core ∧ a ≠ ctx.content_price.asset_id := by
    subst isPurchase
    refine ⟨fun isCore => (meets isCore).2 ctx evaluated fed,fun isPrice => ?_⟩
    rcases counted with isCore | free
    · exact (meets isCore).2 ctx evaluated fed
    · obtain ⟨-,-,ao,found,isMonitored⟩ := fed
      exact free (whole.monitored ⟨ao,isPrice ▸ found,isMonitored⟩)
  obtain ⟨x,prepared,moved⟩ := excess_evaluate_and_apply valid flow kept pooled fun done =>
    ((inside done kept₂).2.2 (counted.imp_right fun free before => free (charged.monitored before)))
  rw [moved]
  by_cases isCore : a = core
  · rw [part_zero (x := ⟨fee_surplus op x,core⟩) ((fee_surplus_zero_iff prepared).mpr (meets isCore).1),Int.add_zero]
  · rw [part_other (x := ⟨fee_surplus op x,core⟩) (Ne.symm isCore),Int.add_zero]

/-- Nothing due asks for a negative amount of core. -/
def renewals_payable (L : Ledger) : Prop :=
  ∀ s ∈ L.subscriptions.order,
    due (next_time L.properties (L.pending_parameters.getD L.parameters).maintenance_interval) s = true →
    ∀ author, L.accounts.find? s.to_account = some author →
      author.options.price_per_subscribe.asset_id = core → 0 ≤ author.options.price_per_subscribe.amount

/-- A price is converted by a feed, and then not negative, or it is what the author asks. -/
theorem due_price_cases {L : Ledger} {options : AccountOptions} {price : Asset} (asked : due_price L options price) :
    0 ≤ price.amount ∨ price = options.price_per_subscribe ∧ ¬ monitored L options.price_per_subscribe.asset_id := by
  obtain ⟨ao,found,priced⟩ := asked
  unfold subscription_price at priced
  split at priced
  case h_1 m isMonitored =>
    obtain ⟨_,-,converted⟩ := bind_ok.mp priced
    exact .inl (Price.times_ok converted).1
  case h_2 unmonitored =>
    cases priced
    refine .inr ⟨rfl,?_⟩
    rintro ⟨ao',found',isMonitored⟩
    cases found.symm.trans found'
    simp [AssetObject.is_monitored_asset,unmonitored] at isMonitored

/-- Renewing takes nothing from an author that is not core. -/
theorem renewal_asks {a : AssetId} {L : Ledger} {s : Subscription} (terms : Terms L) (member : s ∈ L.subscriptions.order)
    (payable : a = core → ∀ author, L.accounts.find? s.to_account = some author →
      author.options.price_per_subscribe.asset_id = core → 0 ≤ author.options.price_per_subscribe.amount)
    {author : Account} {price : Asset} (found : L.accounts.find? s.to_account = some author)
    (asked : due_price L author.options price) (here : price.asset_id = a) : 0 ≤ price.amount := by
  rcases due_price_cases asked with nonneg | ⟨rfl,unmonitored⟩
  · exact nonneg
  · by_cases isCore : a = core
    · exact payable isCore author found (here.trans isCore)
    · obtain ⟨author',found',terms⟩ := terms.subscriptions s member
      cases found.symm.trans found'
      rcases terms with nonneg | inCore | isMonitored
      · exact nonneg
      · exact absurd (here.symm.trans inCore) isCore
      · exact absurd isMonitored unmonitored

/-- The terms stay, and the excess of the asset with them. -/
def Renewing (a : AssetId) (L L' : Ledger) : Prop := Terms L → Terms L' ∧ excess a L' = excess a L

instance renewing_composes (a : AssetId) : Composes (Renewing a) where
  refl _ terms := ⟨terms,rfl⟩
  trans first second terms := by
    obtain ⟨terms₁,same₁⟩ := first terms
    obtain ⟨terms₂,same₂⟩ := second terms₁
    exact ⟨terms₂,same₂.trans same₁⟩

theorem excess_renew_subscriptions {a : AssetId} {L L' : Ledger} {t : Nat} (terms : Terms L)
    (payable : a = core → ∀ s ∈ L.subscriptions.order, due t s = true → ∀ author, L.accounts.find? s.to_account = some author →
      author.options.price_per_subscribe.asset_id = core → 0 ≤ author.options.price_per_subscribe.amount)
    (ran : EStateM.run (renew_subscriptions t) L = .ok () L') : excess a L' = excess a L := by
  have passed : Renewing a L L' := by
    have split : L.subscriptions.order = [] ++ L.subscriptions.order := rfl
    refine related_renewals t L.subscriptions.order split ?_ (run_get_bind.mp ran)
    intro s member isDue L₁ L₂ member₁ accounts settled terms₁
    refine ⟨terms₁.apart (Within.ok inferInstance settled),excess_settle_renewal ?_ settled⟩
    intro author price found
    refine renewal_asks terms₁ member₁ (fun isCore author found => ?_) found
    exact payable isCore s member isDue author (by rw [← accounts]; exact found)
  exact (passed terms).2

theorem excess_housekeeping {a : AssetId} {L L' : Ledger} (terms : Terms L) (payable : a = core → renewals_payable L)
    (ran : EStateM.run decent_housekeeping L = .ok () L') : excess a L' = excess a L := by
  simp only [decent_housekeeping,run_bind_ok] at ran
  obtain ⟨_,L₁,counters,_,_,got,_,L₂,lapsed,_,_,got₁,_,L₃,expired,_,_,got₂,renewed⟩ := ran
  cases got
  cases got₁
  cases got₂
  have reset : excess a L₁ = excess a L := Within.ok (P := Even) inferInstance counters a
  have idle : Idle L L₃ := by
    have idle : Idle L L₁ := by
      cases counters
      exact ⟨rfl,rfl,rfl,rfl,rfl⟩
    exact idle_composes.trans idle (idle_composes.trans (Within.ok inferInstance lapsed) (Within.ok inferInstance expired))
  have terms : Terms L₃ := by
    have apart : Apart L L₁ := Within.ok inferInstance counters
    exact terms.apart (apart_composes.trans apart
      (apart_composes.trans (Within.ok inferInstance lapsed) (Within.ok inferInstance expired)))
  have before : excess a L₃ = excess a L := by
    rw [even_expire_buyings _ expired a,even_expire_contents _ lapsed a,reset]
  rw [← before]
  refine excess_renew_subscriptions terms (fun isCore => ?_) renewed
  rw [idle.subscriptions,idle.accounts,idle.properties,idle.parameters,idle.pending_parameters]
  exact payable isCore

theorem excess_maintenance {a : AssetId} {L L' : Ledger} (terms : Terms L) (payable : a = core → renewals_payable L)
    (ran : EStateM.run perform_chain_maintenance L = .ok () L') : excess a L' = excess a L := by
  simp only [perform_chain_maintenance,run_bind_ok,run_observe] at ran
  obtain ⟨_,_,⟨-,rfl⟩,_,L₁,housekept,_,L₂,settled,_,_,got,ran⟩ := ran
  cases settled
  cases got
  rw [← excess_housekeeping terms payable housekept]
  split at ran
  · obtain ⟨_,L₃,scheduled,budgeted⟩ := run_bind_ok.mp ran
    cases scheduled
    exact even_process_budget budgeted a
  · exact even_process_budget ran a

/-- What steps conserve core: their fees are even or in other assets worth no core, they buy
    nothing at the rate of a feed and renew nothing at a negative price. -/
def conserving_step (L : Ledger) : Action → Prop
  | .operation env op => ∀ op' L', Applies env op L op' L' → conserving op' L'
  | .maintenance => renewals_payable L
  | _ => True

theorem excess_perform {a : AssetId} {L L' : Ledger} {action : Action} (kept : Kept L) (terms : Terms L)
    (meets : a = core → conserving_step L action) (counted : a = core ∨ ¬ monitored L' a)
    (ran : EStateM.run (perform action) L = .ok () L') : excess a L' = excess a L := by
  cases action with
  | header timestamp =>
    obtain ⟨_,-,ran⟩ := run_observe_bind.mp (run_get_bind.mp ran)
    cases ran
    rw [excess_properties]
    simp only [Int.sub_self]
    exact (congrArg (excess a L + ·) (part_zero (x := ⟨0,core⟩) rfl a)).trans (Int.add_zero _)
  | operation env op =>
    exact (level_apply_operation (fun op' L' inner isCore => meets isCore op' L' inner) ran kept).2.2 counted
  | signing_miner miner => exact even_update_signing_miner ran a
  | maintenance =>
    obtain ⟨_,-,ran⟩ := run_observe_bind.mp (run_get_bind.mp ran)
    exact excess_maintenance terms meets ran
  | settings change =>
    obtain ⟨_,settled,ran⟩ := run_observe_bind.mp ran
    cases ran
    exact even_settled (change.settled settled) a

theorem excess_genesis (g : GenesisState) (a : AssetId) : excess a (init_genesis g) = 0 := by
  have entered (items : List (String × Nat × AccountId)) : ∀ i : Index AssetObject,
      excess a { init_genesis g with assets := items.foldl (fun i item => i.create (genesis_asset item.1 item.2.1 item.2.2)) i } =
        excess a { init_genesis g with assets := i } := by
    induction items with
    | nil => exact fun _ => rfl
    | cons item rest ih =>
      intro i
      have created : excess a { init_genesis g with assets := i.create (genesis_asset item.1 item.2.1 item.2.2) } =
          excess a { init_genesis g with assets := i } + (⟨0,core⟩ : Asset).part a :=
        excess_create_asset a { init_genesis g with assets := i } rfl
      rw [part_zero (x := ⟨0,core⟩) rfl,Int.add_zero] at created
      exact (ih _).trans created
  refine (entered g.initial_assets _).trans ?_
  by_cases isCore : a = core
  · subst isCore
    rfl
  · have none : ((Index.empty.create (core_asset g.max_core_supply)).reserve g.num_special_assets).find? a = Option.none := by
      show (Index.empty.create (core_asset g.max_core_supply)).find? a = _
      rw [Index.find?_create]
      exact if_neg isCore
    let L : Ledger := { init_genesis g with
      assets := (Index.empty.create (core_asset g.max_core_supply)).reserve g.num_special_assets }
    have dynamic : L.dynamic a = ⟨0,0,0⟩ := by
      rw [dynamic_eq,show L.assets.find? a = Option.none from none]
      rfl
    have balances : balances_in a L = 0 := (Int.add_zero _).trans (if_neg (Ne.symm isCore))
    have budget : budget_in a L = 0 := if_neg isCore
    show balances_in a L + 0 + 0 + 0 + (L.dynamic a).asset_pool - (L.dynamic a).current_supply + budget_in a L = 0
    rw [dynamic,balances,budget]
    rfl

/-- What is held of an asset is its supply, in every run that conserves core, and for the assets
    that users issue in every run. -/
theorem Reached.excess {g : GenesisState} {allowed : Ledger → Action → Prop} {L : Ledger} {a : AssetId}
    (reached : Reached g allowed L) (conserves : a = core → ∀ L action, allowed L action → conserving_step L action)
    (counted : a = core ∨ ¬ monitored L a) : Money.excess a L = 0 := by
  induction reached with
  | genesis => exact excess_genesis g a
  | step before meets ran ih =>
    have watched := watched_perform ran
    rw [excess_perform before.kept before.terms (fun isCore => conserves isCore _ _ meets) counted ran]
    exact ih (counted.imp_right fun free monitored => free (watched.monitored monitored))

/-! ### What is held and what was issued -/

/-- What the price fields of open buyings hold. -/
def open_prices_in (a : AssetId) (L : Ledger) : Int := L.buyings.total fun b => if b.waits then b.price.part a else 0

theorem prices_in_open {L : Ledger} (kept : Kept L) (a : AssetId) : prices_in a L = open_prices_in a L := by
  unfold prices_in open_prices_in Index.total
  refine Table.total_congr fun id b found => ?_
  cases kept.buyings found with
  | waiting undelivered unexpired => rw [if_pos (by simp [Buying.waits,undelivered,unexpired])]
  | delivered delivered unexpired released =>
    rw [part_zero released]
    split <;> rfl
  | expired undelivered expired released =>
    rw [part_zero released]
    split <;> rfl

theorem escrows_in_terms {L : Ledger} (terms : Terms L) (a : AssetId) :
    escrows_in a L = if a = core then publishing_escrows L else 0 := by
  have inCore : escrows_in a L = L.contents.total fun c => if a = core then c.publishing_fee_escrow.amount else 0 := by
    unfold escrows_in Index.total
    refine Table.total_congr fun id c found => ?_
    rw [Asset.part,terms.escrows found]
    simp only [eq_comm (a := core)]
  rw [inCore]
  split
  · rfl
  · show (L.contents.table.rows.map fun _ => (0 : Int)).sum = 0
    simp

/-- Every unit of core that was issued is in a balance, an escrow, a pool or the budget. -/
def CoreConserved (L : Ledger) : Prop :=
  balances_in core L + vestings_in core L + open_prices_in core L + publishing_escrows L + core_pools L +
      (L.dynamic core).asset_pool + L.properties.unspent_fee_budget =
    (L.dynamic core).current_supply + L.properties.mined_rewards + L.properties.miner_budget_from_fees

theorem core_conserved (g : GenesisState) (L : Ledger) (reached : Reached g conserving_step L) : CoreConserved L := by
  have none := reached.excess (a := core) (fun _ _ _ meets => meets) (.inl rfl)
  rw [excess,prices_in_open reached.kept,escrows_in_terms reached.terms,budget_in,if_pos rfl,if_pos rfl] at none
  unfold CoreConserved
  omega

/-- Accounts are created, core is transferred, and assets are created for an even fee. -/
def plain_step (_ : Ledger) : Action → Prop
  | .operation _ (.account_create _) => True
  | .operation _ (.transfer _) => True
  | .operation _ (.asset_create o) => o.fee.asset_id = core ∧ o.fee.amount % 2 = 0
  | _ => False

instance (L : Ledger) (action : Action) : Decidable (plain_step L action) := by
  unfold plain_step
  split <;> infer_instance

theorem conserving_of_plain (L : Ledger) (action : Action) (plain : plain_step L action) : conserving_step L action := by
  unfold plain_step at plain
  split at plain
  · rintro op' L' ⟨⟩
    exact ⟨trivial,trivial⟩
  · rintro op' L' ⟨⟩
    exact ⟨trivial,trivial⟩
  · rintro op' L' ⟨⟩
    exact ⟨.inl plain,trivial⟩
  · exact absurd plain id

theorem core_conserved_even_fee : ∃ L, CoreConserved L ∧ Reached small_genesis conserving_step L ∧
    (L.dynamic 2).core_pool = 2 := by
  have ran := run_of_returned (x := perform_allowed plain_step
    (one_user ++ [.operation free_env (.asset_create { odd_fee with fee := ⟨4,core⟩ })]))
    (s := init_genesis small_genesis) (by decide +kernel)
  have reached := (reached_perform_allowed .genesis ran).mono conserving_of_plain
  exact ⟨_,core_conserved small_genesis _ reached,reached,by decide +kernel⟩

/-- A fee of five is halved to three, for the pool of the new asset and for the core asset's. -/
theorem odd_fee_unbacked : ¬ ∀ g L, Reachable g L → CoreConserved L := by
  intro conserved
  have broken : ¬ CoreConserved (after_actions (one_user ++ [.operation free_env (.asset_create odd_fee)])) := by
    unfold CoreConserved
    decide +kernel
  exact broken (conserved small_genesis _ (reachable_after_actions (by decide +kernel)))

theorem user_issued_conserved (g : GenesisState) (L : Ledger) (reachable : Reachable g L) (a : AssetId) (ao : AssetObject)
    (found : L.assets.find? a = some ao) (notCore : a ≠ core) (unmonitored : ao.is_monitored_asset = false) :
    ao.dynamic.current_supply = balances_in a L + ao.dynamic.asset_pool + vestings_in a L + open_prices_in a L := by
  have free : ¬ monitored L a := by
    rintro ⟨ao',found',isMonitored⟩
    cases found.symm.trans found'
    exact Bool.false_ne_true (unmonitored.symm.trans isMonitored)
  have none := Reached.excess reachable (fun isCore => absurd isCore notCore) (.inr free)
  have here : L.dynamic a = ao.dynamic := by simp [Ledger.dynamic,found]
  rw [excess,prices_in_open (Reached.kept reachable),escrows_in_terms (Reached.terms reachable),budget_in,if_neg notCore,
    if_neg notCore,here] at none
  omega

theorem user_issued_conserved_vested : ∃ ao, (after_actions vested_user).assets.find? 2 = some ao ∧
    ao.dynamic.current_supply = balances_in 2 (after_actions vested_user) + ao.dynamic.asset_pool +
      vestings_in 2 (after_actions vested_user) + open_prices_in 2 (after_actions vested_user) := by
  have reachable : Reachable small_genesis (after_actions vested_user) := reachable_after_actions (by decide +kernel)
  have unmonitored : ((after_actions vested_user).assets.find? 2).map (·.is_monitored_asset) = some false := by
    decide +kernel
  obtain ⟨ao,found,unmonitored⟩ := Option.map_eq_some_iff.mp unmonitored
  exact ⟨ao,found,user_issued_conserved small_genesis _ reachable 2 ao found (by decide) unmonitored⟩

end Decent.Money

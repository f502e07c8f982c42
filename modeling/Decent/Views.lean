import Decent.Frames

/-!
Relations that leave whole parts of the ledger free, so that an evaluator which writes only
there is within them: new accounts, contents and assets, the clock and the budget.
-/
namespace Decent.Money
open Throwing

variable {R : Ledger → Ledger → Prop}

/-! ### New accounts, contents and assets -/

section
variable [enrolling : Enrolling R]

instance (from_account to_account : AccountId) : Within R (extend_subscription from_account to_account) := by
  have changed (f : Ledger → Subscriptions) : Within R (modify fun L : Ledger =>
      { L with subscriptions := f L } : M Unit) := .modify fun L => enrolling.subscriptions L _
  unfold extend_subscription
  refine .andThen fun L => .andThen fun author => ?_
  dsimp only
  split
  · exact changed _
  · exact changed _

instance [Entering R] (o : SubscribeOperation) : Within R (subscribe_apply o) := by
  unfold subscribe_apply
  infer_instance

instance (o : SubscribeByAuthorOperation) : Within R (subscribe_by_author_apply o) :=
  inferInstanceAs (Within R (extend_subscription o.from_account o.to_account))

instance (o : AccountCreateOperation) : Within R (account_create_apply o) := .modify fun L => enrolling.accounts L _

instance [Noting R] [Logging R] (o : AccountUpdateOperation) : Within R (account_update_apply o) := by
  have stored (options : AccountOptions) : Within R (modify fun L : Ledger =>
      { L with accounts := L.accounts.update o.account fun a => { a with options := options } } : M Unit) :=
    .modify fun L => enrolling.accounts L _
  unfold account_update_apply
  split <;> infer_instance

end

instance [creating : Creating R] (o : AssetCreateOperation) (core_fee_paid : Int) :
    Within R (asset_create_apply o core_fee_paid) := .modify fun L => creating.asset L _

section
variable [publishing : Publishing R]

instance (id : Nat) (f : Content → Content) : Within R (modify_content id f) := .modify fun L => publishing.contents L _

instance (v : VirtualOperation) : Within R (push_applied_operation v) := .modify fun L => publishing.returned L v

instance (o : ContentCancellationOperation) : Within R (content_cancellation_apply o) := by
  unfold content_cancellation_apply
  infer_instance

section
variable [Entering R] [Accounting R]

instance [seeding : Seeding R] (o : ContentSubmitOperation) (content : Option Nat) :
    Within R (content_submit_apply o content) := by
  have created (o : ContentSubmitOperation) (now : Nat) : Within R (modify fun L : Ledger =>
      { L with contents := L.contents.create (new_content o now) } : M Unit) := .modify fun L => publishing.contents L _
  have reserved (id size : Nat) (seeders : List AccountId) : Within R (reserve_seeders id size seeders) := by
    induction seeders with
    | nil => exact inferInstanceAs (Within R (pure ()))
    | cons p rest ih =>
      have stored (so : Seeder) : Within R (modify fun L : Ledger => { L with seeders := L.seeders.put p so } : M Unit) :=
        .modify fun L => seeding.seeders L _
      unfold reserve_seeders
      refine .andThen fun L => ?_
      split <;> infer_instance
  unfold content_submit_apply
  split
  · infer_instance
  · refine .andThen fun now => .andThen fun L => .andThen fun _ => ?_
    infer_instance

instance [Counting R] (o : ProofOfCustodyOperation) : Within R (proof_of_custody_apply o) := by
  unfold proof_of_custody_apply
  refine .andThen fun ⟨id,content⟩ => .andThen fun L => ?_
  dsimp only
  split
  · infer_instance
  · split
    · infer_instance
    · refine .andThen fun _ => .andThen fun reward => .andThen fun escrow => ?_
      infer_instance

instance [Counting R] (id : Nat) (content : Content) : Within R (content_expire id content) := by
  unfold content_expire
  dsimp only
  infer_instance

end

end

instance [Composes R] [∀ id content, Within R (content_expire id content)] (ids : List Nat) :
    Within R (expire_contents ids) := by
  induction ids with
  | nil => exact inferInstanceAs (Within R (pure ()))
  | cons id rest ih =>
    unfold expire_contents
    refine .andThen fun L => ?_
    split <;> infer_instance

instance [Within R reset_seeding_stats] [∀ id content, Within R (content_expire id content)] [Entering R] [Closing R]
    [Noting R] [Logging R] : Within R decent_housekeeping := by
  unfold decent_housekeeping
  dsimp only
  refine .andThen fun _ => .andThen fun L => .andThen fun _ => ?_
  infer_instance

/-! ### The clock -/

instance [scheduling : Scheduling R] : Budgeting R where
  properties L p _ := scheduling.properties L p
  parameters := scheduling.parameters

theorem within_update_head [composes : Composes R] {timestamp : Nat} (advanced : ∀ L, L.properties.time < timestamp →
    R L { L with properties := { L.properties with
      head_block_number := L.properties.head_block_number + 1
      time := timestamp } }) : Within R (update_head timestamp) where
  keeps L := by
    show R L (endState (EStateM.run (observe (fc_assert (L.properties.time < timestamp ∧ timestamp < 2^32)) >>= fun _ =>
      modify _) L))
    rw [EStateM.run_bind]
    cases checked : fc_assert (L.properties.time < timestamp ∧ timestamp < 2^32) with
    | error e => exact composes.refl L
    | ok u => exact advanced L (fc_assert_ok.mp checked).1

instance [scheduling : Scheduling R] (timestamp : Nat) : Within R (update_head timestamp) :=
  within_update_head fun L _ => scheduling.properties L _

section
variable [budgeting : Budgeting R]

instance [Pooling R] : Within R process_budget := by
  unfold process_budget
  dsimp only
  repeat refine .andThen fun _ => ?_
  exact .modify fun L => budgeting.properties L _ rfl

instance [Within R decent_housekeeping] [Within R process_budget] : Within R perform_chain_maintenance := by
  have settled : Within R (modify fun L : Ledger =>
      { L with parameters := L.pending_parameters.getD L.parameters, pending_parameters := none } : M Unit) :=
    .modify fun L => budgeting.parameters L _ _
  have scheduled : Within R (modify fun L : Ledger => { L with properties := { L.properties with
      next_maintenance_time := next_time L.properties L.parameters.maintenance_interval } } : M Unit) :=
    .modify fun L => budgeting.properties L _ rfl
  unfold perform_chain_maintenance
  dsimp only
  refine .andThen fun _ => .andThen fun _ => .andThen fun _ => .andThen fun L => ?_
  split <;> infer_instance

end

/-- The parts of the housekeeping: the counters, the contents that end, the buyings and the
    renewals. -/
theorem related_housekeeping [Within R reset_seeding_stats] [Entering R] [Closing R] [Noting R] [Logging R]
    (expired : ∀ {ids L L'}, EStateM.run (expire_contents ids) L = .ok () L' → R L L') {L L' : Ledger}
    (ran : EStateM.run decent_housekeeping L = .ok () L') : R L L' := by
  simp only [decent_housekeeping,run_bind_ok] at ran
  obtain ⟨_,L₁,counters,_,_,got,_,L₂,lapsed,_,_,got₁,_,L₃,ended,_,_,got₂,renewed⟩ := ran
  cases got
  cases got₁
  cases got₂
  exact Composes.trans (Within.ok inferInstance counters) (Composes.trans (expired lapsed)
    (Composes.trans (Within.ok inferInstance ended) (Within.ok inferInstance renewed)))

theorem related_maintenance [budgeting : Budgeting R] [Within R process_budget]
    (kept : ∀ {L L'}, EStateM.run decent_housekeeping L = .ok () L' → R L L') {L L' : Ledger}
    (ran : EStateM.run perform_chain_maintenance L = .ok () L') : R L L' := by
  simp only [perform_chain_maintenance,run_bind_ok,run_observe] at ran
  obtain ⟨_,_,⟨-,rfl⟩,_,L₁,housekept,_,L₂,settled,_,_,got,ran⟩ := ran
  cases settled
  cases got
  refine Composes.trans (kept housekept) (Composes.trans (budgeting.parameters L₁ (L₁.pending_parameters.getD L₁.parameters) none) ?_)
  split at ran
  · obtain ⟨_,L₃,scheduled,budgeted⟩ := run_bind_ok.mp ran
    cases scheduled
    exact Composes.trans (budgeting.properties _ _ (by rfl)) (Within.ok inferInstance budgeted)
  · exact Within.ok inferInstance ran

/-! ### Outside the assets -/

/-- A relation that allows any change outside the assets, the balances and the clock. -/
class Elsewhere (R : Ledger → Ledger → Prop) : Prop extends Composes R where
  elsewhere : ∀ {L L'}, L'.assets = L.assets → L'.balances = L.balances → L'.properties.time = L.properties.time → R L L'

section
variable [outside : Elsewhere R]

instance : Seeding R where
  statistics _ _ := outside.elsewhere rfl rfl rfl
  seeders _ _ := outside.elsewhere rfl rfl rfl
  reset _ _ _ := outside.elsewhere rfl rfl rfl

instance : Noting R where
  permissions _ _ := outside.elsewhere rfl rfl rfl
  subscription _ _ _ _ := outside.elsewhere rfl rfl rfl

instance : Publishing R where
  contents _ _ := outside.elsewhere rfl rfl rfl
  returned _ _ := outside.elsewhere rfl rfl rfl

instance : Describing R where
  content _ _ _ _ := outside.elsewhere rfl rfl rfl

instance : Logging R where
  applied _ _ _ := outside.elsewhere rfl rfl rfl

instance : Accounting R where
  publishing _ _ := outside.elsewhere rfl rfl rfl

instance : Purchasing R where
  buyings _ _ := outside.elsewhere rfl rfl rfl
  payments _ _ := outside.elsewhere rfl rfl rfl

instance : Enrolling R where
  accounts _ _ := outside.elsewhere rfl rfl rfl
  subscriptions _ _ := outside.elsewhere rfl rfl rfl

instance : Rewarding R where
  rewards _ _ _ := outside.elsewhere rfl rfl rfl

instance : Budgeting R where
  properties _ _ same := outside.elsewhere rfl rfl same
  parameters _ _ _ := outside.elsewhere rfl rfl rfl

end

/-- The operations that write to the assets, the proposals that run others, and the rest. -/
inductive Touches (env : Env) (executed : M Unit) (L : Ledger) : Operation → M Unit → Prop
  | elsewhere {op : Operation} {act : M Unit}
      (within : ∀ (R : Ledger → Ledger → Prop) [Elsewhere R] [Entering R], Within R act) : Touches env executed L op act
  | create (o : AssetCreateOperation) (fee core_fee_paid : Int)
      (evaluated : asset_create_evaluate o fee L = .ok core_fee_paid) :
    Touches env executed L (.asset_create o) (asset_create_apply o core_fee_paid)
  | issue (o : AssetIssueOperation) (evaluated : asset_issue_evaluate o L = .ok ()) :
    Touches env executed L (.asset_issue o) (asset_issue_apply o)
  | reserve (o : AssetReserveOperation) (evaluated : asset_reserve_evaluate o L = .ok ()) :
    Touches env executed L (.asset_reserve o) (asset_reserve_apply o)
  | fund (o : AssetFundPoolsOperation) (evaluated : asset_fund_pools_evaluate o L = .ok ()) :
    Touches env executed L (.asset_fund_pools o) (asset_fund_pools_apply o)
  | claim (o : AssetClaimFeesOperation) (evaluated : asset_claim_fees_evaluate o L = .ok ()) :
    Touches env executed L (.asset_claim_fees o) (asset_claim_fees_apply o)
  | buy (o : RequestToBuyOperation) (ctx : BuyingContext) : Touches env executed L (.request_to_buy o) (request_to_buy_apply o ctx)
  | propose (payer : AccountId) (fee : Asset) (ops : List Operation) :
    Touches env executed L (.proposal_update payer fee ops) executed
  | settle (payer : AccountId) (fee : Asset) (change : SettingsChange) :
    Touches env executed L (.other payer fee change) (do_evaluate.settle change)

theorem do_evaluate_touches {env : Env} {executed : M Unit} {fee fee' : Int} {op : Operation} {act : M Unit} {L : Ledger}
    (evaluated : do_evaluate env executed fee op L = .ok (fee',act)) : Touches env executed L op act := by
  cases op <;> simp only [do_evaluate,reads_bind,reads_pure,Prod.mk.injEq] at evaluated
  case asset_create o =>
    obtain ⟨left,evaluated,-,rfl⟩ := evaluated
    exact .create o fee left evaluated
  case asset_issue o =>
    obtain ⟨_,evaluated,-,rfl⟩ := evaluated
    exact .issue o evaluated
  case asset_reserve o =>
    obtain ⟨_,evaluated,-,rfl⟩ := evaluated
    exact .reserve o evaluated
  case asset_fund_pools o =>
    obtain ⟨_,evaluated,-,rfl⟩ := evaluated
    exact .fund o evaluated
  case asset_claim_fees o =>
    obtain ⟨_,evaluated,-,rfl⟩ := evaluated
    exact .claim o evaluated
  case request_to_buy o =>
    obtain ⟨ctx,-,-,rfl⟩ := evaluated
    exact .buy o ctx
  case proposal_update payer fee ops =>
    obtain ⟨-,rfl⟩ := evaluated
    exact .propose payer fee ops
  case other payer fee change =>
    obtain ⟨-,rfl⟩ := evaluated
    exact .settle payer fee change
  all_goals
    obtain ⟨_,-,-,rfl⟩ := evaluated
    exact .elsewhere fun R _ _ => inferInstance

end Decent.Money

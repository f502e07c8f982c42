import Decent.Fees

/-!
The evaluators and the maintenance write to the ledger through a few functions. A relation
between ledgers that allows what these do holds, by instance search along their text,
between the start and the end of whatever is made of them, whether it returns or throws.
-/
namespace Decent.Money
open Throwing

/-- The return of the publishing escrow of content `id`. -/
def returns (id : Nat) : VirtualOperation → Bool
  | .return_escrow_submission _ _ content => content = id
  | _ => false

/-- A change of a content that leaves its name, author, end and escrow, and what its seeders
have and have shown of it. -/
structure Incidental (f : Content → Content) : Prop where
  URI : ∀ c, (f c).URI = c.URI
  author : ∀ c, (f c).author = c.author
  expiration : ∀ c, (f c).expiration = c.expiration
  publishing_fee_escrow : ∀ c, (f c).publishing_fee_escrow = c.publishing_fee_escrow
  size : ∀ c, (f c).size = c.size
  key_parts : ∀ c, (f c).key_parts = c.key_parts
  last_proof : ∀ c, (f c).last_proof = c.last_proof

/-- A change of a buying that leaves what was asked for, until when, and who answered, and does not
    open it again. -/
structure Settling (f : Buying → Buying) : Prop where
  URI : ∀ b, (f b).URI = b.URI
  expiration_time : ∀ b, (f b).expiration_time = b.expiration_time
  seeders_answered : ∀ b, (f b).seeders_answered = b.seeders_answered
  delivered : ∀ b, b.delivered = true → (f b).delivered = true
  expired : ∀ b, b.expired = true → (f b).expired = true

/-- A relation that allows changes of seeders and their statistics. -/
class Seeding (R : Ledger → Ledger → Prop) : Prop extends Composes R where
  statistics : ∀ L t, R L { L with statistics := t }
  seeders : ∀ L t, R L { L with seeders := t }
  reset : ∀ L t n, R L { L with statistics := t, counted_from := n }

/-- A relation that allows changes of the statistics that are there. -/
class Counting (R : Ledger → Ledger → Prop) : Prop extends Composes R where
  counted : ∀ L p so, (L.statistics.find? p).isSome → R L { L with statistics := L.statistics.put p so }

/-- Of permissions, and of subscriptions that stay between the same accounts. -/
class Noting (R : Ledger → Ledger → Prop) : Prop extends Composes R where
  permissions : ∀ L t, R L { L with permissions := t }
  subscription : ∀ L id f, (∀ s, (f s).from_account = s.from_account ∧ (f s).to_account = s.to_account) →
    R L { L with subscriptions := L.subscriptions.modify id f }

/-- Incidental changes of contents. -/
class Describing (R : Ledger → Ledger → Prop) : Prop extends Composes R where
  content : ∀ L id f, Incidental f → R L { L with contents := L.contents.update id f }

/-- Contents that are counted as bought. -/
class Selling (R : Ledger → Ledger → Prop) : Prop extends Composes R where
  sold : ∀ L id, R L { L with contents := L.contents.update id fun co => { co with times_bought := co.times_bought + 1 } }

/-- Applied operations other than the return of a publishing escrow. -/
class Logging (R : Ledger → Ledger → Prop) : Prop extends Composes R where
  applied : ∀ L v, (∀ id, returns id v = false) → R L { L with applied := v :: L.applied }

/-- Notes on the publishing escrows. -/
class Accounting (R : Ledger → Ledger → Prop) : Prop extends Composes R where
  publishing : ∀ L t, R L { L with publishing := t }

/-- A relation that allows the changes that move no money. -/
class Bookkeeping (R : Ledger → Ledger → Prop) : Prop extends Seeding R, Noting R, Describing R, Logging R, Accounting R

/-- A relation that allows changes of the supply and the pools of an asset. -/
class Pooling (R : Ledger → Ledger → Prop) : Prop extends Composes R where
  dynamic : ∀ L id d, R L { L with assets := L.assets.update id fun a => { a with dynamic := d } }

/-- A relation that allows changes of balances. -/
class Crediting (R : Ledger → Ledger → Prop) : Prop extends Composes R where
  balances : ∀ L t, R L { L with balances := t }
  vestings : ∀ L t, R L { L with vestings := t }
  miners : ∀ L t, R L { L with miners := t }

/-- Of balances that are written or entered, so that none is lost. -/
class Entering (R : Ledger → Ledger → Prop) : Prop extends Composes R where
  balance : ∀ L k b, R L { L with balances := L.balances.put k b }
  vestings : ∀ L t, R L { L with vestings := t }
  miners : ∀ L t, R L { L with miners := t }

/-- A relation that allows changes of money, without escrows. -/
class Paying (R : Ledger → Ledger → Prop) : Prop extends Bookkeeping R, Pooling R, Crediting R

/-- A relation that allows changes of buyings and of what was paid for them. -/
class Purchasing (R : Ledger → Ledger → Prop) : Prop extends Composes R where
  buyings : ∀ L t, R L { L with buyings := t }
  payments : ∀ L t, R L { L with payments := t }

/-- Of buyings that are settled, and of what was paid for them. -/
class Closing (R : Ledger → Ledger → Prop) : Prop extends Composes R where
  buying : ∀ L id f, Settling f → R L { L with buyings := L.buyings.update id f }
  payments : ∀ L t, R L { L with payments := t }

/-- A relation that allows changes of money and of the escrows of buyings. -/
class Trading (R : Ledger → Ledger → Prop) : Prop extends Paying R, Purchasing R

/-- A relation that allows the rewards of the miners. -/
class Rewarding (R : Ledger → Ledger → Prop) : Prop extends Composes R where
  rewards : ∀ L mined_rewards unspent_fee_budget, R L { L with properties := { L.properties with
    mined_rewards := mined_rewards, unspent_fee_budget := unspent_fee_budget } }

/-- A relation that allows new accounts and subscriptions. -/
class Enrolling (R : Ledger → Ledger → Prop) : Prop extends Composes R where
  accounts : ∀ L t, R L { L with accounts := t }
  subscriptions : ∀ L t, R L { L with subscriptions := t }

/-- A relation that allows new assets. -/
class Creating (R : Ledger → Ledger → Prop) : Prop extends Composes R where
  asset : ∀ L ao, R L { L with assets := L.assets.create ao }

/-- A relation that allows any change of contents, and that they are returned. -/
class Publishing (R : Ledger → Ledger → Prop) : Prop extends Composes R where
  contents : ∀ L t, R L { L with contents := t }
  returned : ∀ L v, R L { L with applied := v :: L.applied }

/-- A relation that allows any change of the clock, the budget and the parameters. -/
class Scheduling (R : Ledger → Ledger → Prop) : Prop extends Composes R where
  properties : ∀ L p, R L { L with properties := p }
  parameters : ∀ L p q, R L { L with parameters := p, pending_parameters := q }

/-- Of the budget and the parameters, while the clock stands. -/
class Budgeting (R : Ledger → Ledger → Prop) : Prop extends Composes R where
  properties : ∀ L p, p.time = L.properties.time → R L { L with properties := p }
  parameters : ∀ L p q, R L { L with parameters := p, pending_parameters := q }

/-- And what only the chain and those who govern it change. -/
class Governing (R : Ledger → Ledger → Prop) : Prop extends Paying R, Rewarding R where
  settled : ∀ {L L'}, Settled L L' → R L L'

variable {R : Ledger → Ledger → Prop}

instance {α : Type} [composes : Composes R] (r : Reads α) : Within R (observe r) where
  keeps L := by
    show R L (endState (match r L with | .ok a => .ok a L | .error e => .error e L))
    cases r L <;> exact composes.refl L

instance [Composes R] (pay : AccountId → Asset → M Unit) [∀ account amount, Within R (pay account amount)] (amount : Asset)
    (rows : List (AccountId × Nat)) (remaining : Int) : Within R (pay_co_authors pay amount rows remaining) := by
  induction rows generalizing remaining with
  | nil => exact inferInstanceAs (Within R (pure remaining))
  | cons row rest ih =>
    unfold pay_co_authors
    infer_instance

instance [Composes R] (pay : AccountId → Asset → M Unit) [∀ account amount, Within R (pay account amount)] (author : AccountId)
    (remaining : Asset) : Within R (pay_author pay author remaining) := by
  unfold pay_author
  infer_instance

/-! ### Without money -/

section
variable [noting : Noting R]

theorem within_modify_subscription {id : Nat} {f : Subscription → Subscription}
    (same : ∀ s, (f s).from_account = s.from_account ∧ (f s).to_account = s.to_account) :
    Within R (modify_subscription id f) := .modify fun L => noting.subscription L id f same

instance (o : AutomaticRenewalOperation) : Within R (automatic_renewal_apply o) :=
  within_modify_subscription fun _ => ⟨rfl,rfl⟩

end

theorem within_modify_content [describing : Describing R] {id : Nat} {f : Content → Content} (incidental : Incidental f) :
    Within R (modify_content id f) := .modify fun L => describing.content L id f incidental

instance [describing : Describing R] : Selling R where
  sold L id := describing.content L id _
    ⟨fun _ => rfl,fun _ => rfl,fun _ => rfl,fun _ => rfl,fun _ => rfl,fun _ => rfl,fun _ => rfl⟩

instance [selling : Selling R] (id : Nat) :
    Within R (modify_content id fun co => { co with times_bought := co.times_bought + 1 }) :=
  .modify fun L => selling.sold L id

theorem within_push [logging : Logging R] {v : VirtualOperation} (other : ∀ id, returns id v = false) :
    Within R (push_applied_operation v) := .modify fun L => logging.applied L v other

instance [accounting : Accounting R] (movement : EscrowMovement) : Within R (note_publishing movement) :=
  .modify fun L => accounting.publishing L _

section
variable [Noting R] [Logging R]

instance (id : Nat) : Within R (modify_subscription id fun so => { so with automatic_renewal := false }) :=
  within_modify_subscription fun _ => ⟨rfl,rfl⟩

instance (consumer : AccountId) (id : Nat) :
    Within R (push_applied_operation (.disallow_automatic_renewal_of_subscription consumer id)) := within_push fun _ => rfl

instance (s : Subscription) : Within R (disallow_renewal s) := by
  unfold disallow_renewal
  infer_instance

instance (subscriptions : List Subscription) : Within R (disallow_renewals subscriptions) := by
  induction subscriptions with
  | nil => exact inferInstanceAs (Within R (pure ()))
  | cons s rest ih =>
    unfold disallow_renewals
    infer_instance

end

instance [seeding : Seeding R] : Counting R where
  counted L _ _ _ := seeding.statistics L _

/-- Statistics are only changed where they are. -/
theorem within_modify_statistics [composes : Composes R] {seeder : AccountId} {f : SeedingStatistics → SeedingStatistics}
    (stored : ∀ L so, L.statistics.find? seeder = some so → R L { L with statistics := L.statistics.put seeder (f so) }) :
    Within R (modify_statistics seeder f) where
  keeps L := by
    simp only [modify_statistics,EStateM.run_bind,EStateM.run_get]
    cases found : L.statistics.find? seeder with
    | none => exact composes.refl L
    | some so => exact stored L so found

instance [counting : Counting R] (seeder : AccountId) (f : SeedingStatistics → SeedingStatistics) :
    Within R (modify_statistics seeder f) :=
  within_modify_statistics fun L so found => counting.counted L seeder (f so) (by rw [found]; rfl)

section
variable [Composes R]

instance [∀ p, Within R (modify_statistics p fun so => { so with
      total_content_requested_to_seed := so.total_content_requested_to_seed + 1 })] (seeders : List AccountId) :
    Within R (request_seeding seeders) := by
  induction seeders with
  | nil => exact inferInstanceAs (Within R (pure ()))
  | cons p rest ih =>
    unfold request_seeding
    infer_instance

instance [∀ p, Within R (modify_statistics p fun so => { so with
      missed_delivered_keys := so.missed_delivered_keys + 1 })] (seeders : List AccountId) :
    Within R (count_missed seeders) := by
  induction seeders with
  | nil => exact inferInstanceAs (Within R (pure ()))
  | cons p rest ih =>
    unfold count_missed
    infer_instance

end

instance [Counting R] (content : Content) (seeders : List AccountId) : Within R (forget_seeders content seeders) := by
  induction seeders with
  | nil => exact inferInstanceAs (Within R (pure ()))
  | cons p rest ih =>
    unfold forget_seeders
    infer_instance

section
variable [seeding : Seeding R]

instance (p : AccountId) (so : Seeder) :
    Within R (modify fun L : Ledger => { L with seeders := L.seeders.put p so } : M Unit) :=
  .modify fun L => seeding.seeders L _

instance : Within R reset_seeding_stats := .modify fun L => seeding.reset L _ _

end

instance [Describing R] [∀ p so, Within R (modify fun L : Ledger => { L with seeders := L.seeders.put p so } : M Unit)]
    (content size : Nat) (seeders : List AccountId) : Within R (reserve_seeders content size seeders) := by
  induction seeders with
  | nil => exact inferInstanceAs (Within R (pure ()))
  | cons p rest ih =>
    unfold reserve_seeders
    refine .andThen fun L => ?_
    split
    · infer_instance
    · have noted (price : Int) : Within R (modify_content content fun co =>
          { co with seeder_price := insert_new co.seeder_price p price }) :=
        within_modify_content ⟨fun _ => rfl,fun _ => rfl,fun _ => rfl,fun _ => rfl,fun _ => rfl,fun _ => rfl,fun _ => rfl⟩
      infer_instance

/-! ### Pools -/

section
variable [pooling : Pooling R]

instance (id : AssetId) (f : DynamicData → Except Fault DynamicData) : Within R (modify_dynamic id f) := by
  unfold modify_dynamic
  have stored (d : DynamicData) : Within R (modify fun L : Ledger =>
      { L with assets := L.assets.update id fun a => { a with dynamic := d } } : M Unit) :=
    .modify fun L => pooling.dynamic L id d
  infer_instance

instance (id : AssetId) (asset_pool_diff core_pool_diff : Int) :
    Within R (convert_uia.change_pools id asset_pool_diff core_pool_diff) := by
  unfold convert_uia.change_pools
  infer_instance

instance (fee : Asset) (core_fee_paid : Int) : Within R (convert_fee fee core_fee_paid) := by
  unfold convert_fee
  infer_instance

instance (core_fee_paid : Int) : Within R (pay_fee core_fee_paid) := by
  unfold pay_fee
  infer_instance

end

section
variable [Composes R] [∀ id asset_pool_diff core_pool_diff, Within R (convert_uia.change_pools id asset_pool_diff core_pool_diff)]

instance (id : AssetId) (amount : Asset) : Within R (convert_uia id amount) := by
  unfold convert_uia
  refine .andThen fun ao => .andThen fun _ => ?_
  dsimp only
  split <;> infer_instance

instance (id : AssetId) (amount : Asset) : Within R (convert id amount) := by
  unfold convert
  infer_instance

instance (o : RequestToBuyOperation) (content_price paid_price : Asset) :
    Within R (convert_price o content_price paid_price) := by
  unfold convert_price
  infer_instance

end

/-! ### With money -/

instance [crediting : Crediting R] : Entering R where
  balance L _ _ := crediting.balances L _
  vestings := crediting.vestings
  miners := crediting.miners

section
variable [entering : Entering R]

instance (owner : AccountId) (asset_id : AssetId) (balance : Int) : Within R (store_balance owner asset_id balance) := by
  unfold store_balance
  split
  · exact .modify fun L => entering.balance L _ _
  · infer_instance

instance (account : AccountId) (delta : Asset) : Within R (adjust_balance account delta) := by
  unfold adjust_balance
  split
  · infer_instance
  · refine .andThen fun L => ?_
    split <;> infer_instance

instance (id : Nat) (amount : Asset) : Within R (deposit id amount) := by
  unfold deposit
  have stored (f : VestingBalance → VestingBalance) : Within R (modify fun L : Ledger =>
      { L with vestings := L.vestings.update id f } : M Unit) := .modify fun L => entering.vestings L _
  infer_instance

instance (id : Nat) (amount : Asset) : Within R (withdraw id amount) := by
  unfold withdraw
  have stored (f : VestingBalance → VestingBalance) : Within R (modify fun L : Ledger =>
      { L with vestings := L.vestings.update id f } : M Unit) := .modify fun L => entering.vestings L _
  infer_instance

instance (v : VestingBalance) : Within R (create_vesting v) := by
  unfold create_vesting
  have stored : Within R (modify fun L : Ledger => { L with vestings := L.vestings.create v } : M Unit) :=
    .modify fun L => entering.vestings L _
  infer_instance

instance (ovbid : Option Nat) (amount : Int) (req_vesting_seconds : Nat) (req_owner : AccountId) :
    Within R (deposit_lazy_vesting ovbid amount req_vesting_seconds req_owner) := by
  have fresh : Within R (deposit_lazy_vesting.fresh amount req_vesting_seconds req_owner) := by
    unfold deposit_lazy_vesting.fresh
    infer_instance
  unfold deposit_lazy_vesting
  split
  · infer_instance
  · cases ovbid <;> infer_instance

instance (miner : Nat) (pay : Int) : Within R (deposit_miner_pay miner pay) := by
  have stored (f : Miner → Miner) : Within R (modify fun L : Ledger =>
      { L with miners := L.miners.update miner f } : M Unit) := .modify fun L => entering.miners L _
  unfold deposit_miner_pay
  split
  · infer_instance
  · refine .andThen fun L => ?_
    split <;> infer_instance

instance (fee_payer : AccountId) (fee : Asset) : Within R (charge_fee fee_payer fee) := by
  unfold charge_fee
  infer_instance

instance (o : TransferOperation) : Within R (transfer_apply o) := by
  unfold transfer_apply
  infer_instance

instance (o : Transfer2Operation) : Within R (transfer2_apply o) := by
  unfold transfer2_apply
  refine .andThen fun _ => .andThen fun _ => ?_
  split
  · infer_instance
  · refine .andThen fun L => ?_
    split <;> infer_instance

instance (o : VestingBalanceCreateOperation) : Within R (vesting_balance_create_apply o) := by
  unfold vesting_balance_create_apply
  infer_instance

instance (o : VestingBalanceWithdrawOperation) : Within R (vesting_balance_withdraw_apply o) := by
  unfold vesting_balance_withdraw_apply
  infer_instance

instance [noting : Noting R] (o : WithdrawPermissionClaimOperation) : Within R (withdraw_permission_claim_apply o) := by
  unfold withdraw_permission_claim_apply
  have stored (p : WithdrawPermission) : Within R (modify fun L : Ledger =>
      { L with permissions := L.permissions.update o.withdraw_permission fun _ => p } : M Unit) :=
    .modify fun L => noting.permissions L _
  infer_instance

section
variable [Pooling R]

instance (o : AssetIssueOperation) : Within R (asset_issue_apply o) := by
  unfold asset_issue_apply
  infer_instance

instance (o : AssetReserveOperation) : Within R (asset_reserve_apply o) := by
  unfold asset_reserve_apply
  infer_instance

instance (o : AssetFundPoolsOperation) : Within R (asset_fund_pools_apply o) := by
  unfold asset_fund_pools_apply
  dsimp only
  split <;> infer_instance

instance (o : AssetClaimFeesOperation) : Within R (asset_claim_fees_apply o) := by
  unfold asset_claim_fees_apply
  infer_instance

end

section
variable [Noting R] [Logging R]

instance (s : Subscription) (period : Nat) (price : Asset) : Within R (renew_subscription s period price) := by
  unfold renew_subscription
  have renewed : Within R (modify_subscription s.id fun so =>
      { so with expiration := later so.expiration (period_in_secs period) }) :=
    within_modify_subscription fun _ => ⟨rfl,rfl⟩
  have pushed : Within R (push_applied_operation (.renewal_of_subscription s.from_account s.id)) :=
    within_push fun _ => rfl
  infer_instance

instance (s : Subscription) (options : AccountOptions) : Within R (try_renewal s options) := by
  unfold try_renewal
  infer_instance

instance (s : Subscription) : Within R (settle_renewal s) := by
  unfold settle_renewal
  refine .andThen fun L => ?_
  split <;> infer_instance

instance (t fuel : Nat) (id : Option Nat) : Within R (renewals t fuel id) := by
  induction fuel generalizing id with
  | zero => exact inferInstanceAs (Within R (pure ()))
  | succ fuel ih =>
    cases id with
    | none => exact inferInstanceAs (Within R (pure ()))
    | some id =>
      unfold renewals
      refine .andThen fun L => ?_
      split <;> infer_instance

instance (t : Nat) : Within R (renew_subscriptions t) := by
  unfold renew_subscriptions
  infer_instance

end

end

/-! ### With escrows -/

instance [purchasing : Purchasing R] : Closing R where
  buying L _ _ _ := purchasing.buyings L _
  payments := purchasing.payments

section
variable [purchasing : Purchasing R]

instance (id : Nat) (f : Buying → Buying) : Within R (modify_buying id f) := .modify fun L => purchasing.buyings L _

instance [Counting R] (o : DeliverKeysOperation) (b : Buying) : Within R (note_answer o b) := by
  unfold note_answer
  infer_instance

end

section
variable [closing : Closing R]

theorem within_modify_buying {id : Nat} {f : Buying → Buying} (settling : Settling f) : Within R (modify_buying id f) :=
  .modify fun L => closing.buying L id f settling

section
variable [Entering R]

instance (id : Nat) (refund : Bool) (entitled : List AccountId) (account : AccountId) (amount : Asset) :
    Within R (pay_escrow id refund entitled account amount) := by
  have noted (p : Payment) : Within R (modify fun L : Ledger => { L with payments := p :: L.payments } : M Unit) :=
    .modify fun L => closing.payments L _
  unfold pay_escrow
  infer_instance

instance (id : Nat) (amount : Asset) (content : Content) : Within R (content_payout id amount content) := by
  unfold content_payout
  dsimp only
  split <;> infer_instance

section
variable [Logging R]

instance (id : Nat) (b : Buying) : Within R (buying_expire id b) := by
  have closed (now : Nat) : Within R (modify_buying id fun bo => { bo with
      price := { bo.price with amount := 0 }, expired := true, expiration_or_delivery_time := now }) :=
    within_modify_buying ⟨fun _ => rfl,fun _ => rfl,fun _ => rfl,fun _ here => here,fun _ _ => rfl⟩
  have pushed : Within R (push_applied_operation (.return_escrow_buying b.consumer b.price id)) := within_push fun _ => rfl
  unfold buying_expire
  infer_instance

instance (ids : List Nat) : Within R (expire_buyings ids) := by
  induction ids with
  | nil => exact inferInstanceAs (Within R (pure ()))
  | cons id rest ih =>
    unfold expire_buyings
    refine .andThen fun L => ?_
    split <;> infer_instance

instance [Selling R] (id k : Nat) (b : Buying) (content : Content) : Within R (finish_buying id b k content) := by
  have closed (now : Nat) : Within R (modify_buying id fun bo => { bo with
      price := { bo.price with amount := 0 }, delivered := true, expiration_or_delivery_time := now }) :=
    within_modify_buying ⟨fun _ => rfl,fun _ => rfl,fun _ => rfl,fun _ _ => rfl,fun _ here => here⟩
  have pushed (after : Asset) : Within R (push_applied_operation (.finish_buying content.author after b.consumer id)) :=
    within_push fun _ => rfl
  unfold finish_buying
  infer_instance

instance [Selling R] [∀ o b, Within R (note_answer o b)] (o : DeliverKeysOperation) : Within R (deliver_keys_apply o) := by
  unfold deliver_keys_apply
  dsimp only
  refine .andThen fun seen => .andThen fun now => .andThen fun ⟨k,content⟩ => ?_
  infer_instance

end

end

end

instance [purchasing : Purchasing R] [Entering R] [Logging R] [Selling R] [∀ seeders, Within R (count_missed seeders)]
    (o : RequestToBuyOperation) (ctx : BuyingContext)
    [∀ content_price paid_price, Within R (convert_price o content_price paid_price)] :
    Within R (request_to_buy_apply o ctx) := by
  have created (b : Buying) : Within R (modify fun L : Ledger => { L with buyings := L.buyings.create b } : M Unit) :=
    .modify fun L => purchasing.buyings L _
  have pushed (author : AccountId) (after : Asset) (id : Nat) :
      Within R (push_applied_operation (.finish_buying author after o.consumer id)) := within_push fun _ => rfl
  unfold request_to_buy_apply
  dsimp only
  refine .andThen fun ⟨k,content⟩ => .andThen fun after => .andThen fun now => .andThen fun L => .andThen fun _ => ?_
  refine .andThen fun L => .andThen fun _ => .andThen fun negated => .andThen fun _ => ?_
  split <;> infer_instance

/-! ### By the chain -/

section
variable [governing : Governing R]

instance (change : SettingsChange) : Within R (do_evaluate.settle change) where
  keeps L := by
    unfold do_evaluate.settle
    rw [EStateM.run_bind]
    cases changed : change.do_apply L with
    | error e =>
      rw [run_observe_error changed]
      exact governing.refl L
    | ok L' =>
      rw [run_observe_ok changed]
      exact governing.settled (change.settled changed)

end

instance [rewarding : Rewarding R] [Entering R] (miner : Nat) : Within R (update_signing_miner miner) := by
  unfold update_signing_miner
  have stored (mined_rewards unspent_fee_budget : Int) : Within R (modify fun L : Ledger =>
      { L with properties := { L.properties with
        mined_rewards := mined_rewards
        unspent_fee_budget := unspent_fee_budget } } : M Unit) :=
    .modify fun L => rewarding.rewards L _ _
  dsimp only
  infer_instance

/-! ### Proposals -/

theorem apply_operation_eq (env : Env) (op : Operation) : apply_operation env op =
    evaluate_and_apply env (match op with | .proposal_update _ _ ops => apply_operations env ops | _ => pure ()) op := by
  cases op <;> simp only [apply_operation]

theorem preserves_pure {I : Ledger → Prop} : Preserves I (pure () : M Unit) := by
  intro L L' u holds ran
  cases ran
  exact holds

mutual

/-- What every evaluator preserves when the operations it executes do is preserved by all of
    them, however deep proposals execute others. -/
theorem preserves_apply_operation {I : Ledger → Prop} {env : Env} (step : ∀ executed op, Preserves I executed →
      Preserves I (evaluate_and_apply env executed op)) (op : Operation) : Preserves I (apply_operation env op) := by
  rw [apply_operation_eq]
  refine step _ op ?_
  cases op with
  | proposal_update payer fee ops => exact preserves_apply_operations step ops
  | _ => exact preserves_pure

theorem preserves_apply_operations {I : Ledger → Prop} {env : Env} (step : ∀ executed op, Preserves I executed →
      Preserves I (evaluate_and_apply env executed op)) (ops : List Operation) : Preserves I (apply_operations env ops) := by
  cases ops with
  | nil =>
    unfold Money.apply_operations
    exact preserves_pure
  | cons op rest =>
    unfold Money.apply_operations
    exact preserves_bind (preserves_apply_operation step op) fun _ => preserves_apply_operations step rest

end

/-- On the way of applying `op` to `L`, `op'` is applied to `L'`: it is `op` itself, or among the
    operations of a proposal that is executed there. -/
inductive Applies (env : Env) : Operation → Ledger → Operation → Ledger → Prop
  | itself (op : Operation) (L : Ledger) : Applies env op L op L
  | proposed {payer : AccountId} {fee : Asset} {before after : List Operation} {op op' : Operation} {x : Int}
      {L L₁ L₂ L₃ L' : Ledger} (prepared : prepare_fee payer fee L = .ok x)
      (converted : EStateM.run (convert_fee fee x) L = .ok () L₁) (paid : EStateM.run (pay_fee x) L₁ = .ok () L₂)
      (ran : EStateM.run (apply_operations env before) L₂ = .ok () L₃) (inner : Applies env op L₃ op' L') :
      Applies env (.proposal_update payer fee (before ++ op :: after)) L op' L'

section
variable {env : Env} {meets : Operation → Ledger → Prop} [Composes R]

mutual

/-- What every operation on the way keeps, given what executed ones keep, the whole keeps. -/
theorem related_apply_operation (step : ∀ {executed op L L₁ L₂ L₃ L₄ fee act}, meets op L → op.validate = true →
      EStateM.run (apply_operation env op) L = .ok () L₄ → FeeFlow env executed op L L₁ L₂ L₃ L₄ fee act →
      (EStateM.run executed L₂ = .ok () L₃ → R L₂ L₃) → R L L₄)
    (op : Operation) {L L' : Ledger} (met : ∀ op' L', Applies env op L op' L' → meets op' L')
    (ran : EStateM.run (apply_operation env op) L = .ok () L') : R L L' := by
  have whole := ran
  rw [apply_operation_eq] at ran
  obtain ⟨valid,L₁,L₂,L₃,fee,act,flow⟩ := evaluate_and_apply_ok.mp ran
  refine step (met op L (.itself op L)) valid whole flow fun executed => ?_
  have evaluated := flow.evaluated
  simp only [evaluate,reads_bind] at evaluated
  obtain ⟨x,prepared,-,-,evaluated⟩ := evaluated
  cases op with
  | proposal_update payer paid ops =>
    simp only [do_evaluate,reads_pure,Prod.mk.injEq] at evaluated
    obtain ⟨rfl,-⟩ := evaluated
    refine related_apply_operations step ops ?_ executed
    rintro before op after L₃ op' L' rfl first inner
    exact met op' L' (.proposed prepared flow.converted flow.paid first inner)
  | _ =>
    cases executed
    exact Composes.refl _

theorem related_apply_operations (step : ∀ {executed op L L₁ L₂ L₃ L₄ fee act}, meets op L → op.validate = true →
      EStateM.run (apply_operation env op) L = .ok () L₄ → FeeFlow env executed op L L₁ L₂ L₃ L₄ fee act →
      (EStateM.run executed L₂ = .ok () L₃ → R L₂ L₃) → R L L₄)
    (ops : List Operation) {L L' : Ledger} (met : ∀ before op after L₁ op' L', ops = before ++ op :: after →
      EStateM.run (apply_operations env before) L = .ok () L₁ → Applies env op L₁ op' L' → meets op' L')
    (ran : EStateM.run (apply_operations env ops) L = .ok () L') : R L L' := by
  cases ops with
  | nil =>
    unfold Money.apply_operations at ran
    cases ran
    exact Composes.refl _
  | cons op rest =>
    unfold Money.apply_operations at ran
    obtain ⟨_,L₁,first,ran⟩ := run_bind_ok.mp ran
    refine Composes.trans (related_apply_operation step op ?_ first) (related_apply_operations step rest ?_ ran)
    · refine fun op' L' inner => met [] op rest L op' L' rfl ?_ inner
      unfold Money.apply_operations
      rfl
    · rintro before op₁ after L₂ op' L' rfl later inner
      refine met (op :: before) op₁ after L₂ op' L' rfl ?_ inner
      unfold Money.apply_operations
      exact run_bind_ok.mpr ⟨(),L₁,first,later⟩

end

end

end Decent.Money

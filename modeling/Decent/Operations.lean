import Decent.Funds

/-!
The operations, each with its fields and its `validate`. An operation whose
evaluator changes no money and nothing that the others read money from is an
`other`: what it changes is arbitrary, as long as it is `Settled`.
-/
namespace Decent.Money

/-- `L'` differs from `L` in settings only: options and feeds of assets, permissions,
    seeders, statistics, miners, parameters to come. -/
structure Settled (L L' : Ledger) : Prop where
  accounts : L'.accounts = L.accounts
  asset_rows : L'.assets.table.rows.map (fun r => (r.1,r.2.dynamic,r.2.is_monitored_asset)) =
    L.assets.table.rows.map (fun r => (r.1,r.2.dynamic,r.2.is_monitored_asset))
  next_asset : L'.assets.next = L.assets.next
  balances : L'.balances = L.balances
  vestings : L'.vestings = L.vestings
  contents : L'.contents = L.contents
  buyings : L'.buyings = L.buyings
  subscriptions : L'.subscriptions = L.subscriptions
  properties : L'.properties = L.properties
  parameters : L'.parameters = L.parameters
  applied : L'.applied = L.applied
  payments : L'.payments = L.payments
  publishing : L'.publishing = L.publishing
  counted_from : L'.counted_from = L.counted_from

theorem Settled.refl (L : Ledger) : Settled L L := ⟨rfl,rfl,rfl,rfl,rfl,rfl,rfl,rfl,rfl,rfl,rfl,rfl,rfl,rfl⟩

/-- What the evaluator of an `other` operation does. -/
structure SettingsChange where
  do_apply : Ledger → Except Fault Ledger
  settled : ∀ {L L'}, do_apply L = .ok L' → Settled L L'

structure TransferOperation where
  fee : Asset
  from_account : AccountId
  to_account : AccountId
  amount : Asset

inductive TransferTarget
  | account (id : AccountId)
  | content (id : Nat)
deriving DecidableEq

structure Transfer2Operation where
  fee : Asset
  from_account : AccountId
  target : TransferTarget
  amount : Asset

structure AssetCreateOperation where
  fee : Asset
  issuer : AccountId
  symbol : String
  precision : Nat
  options : AssetOptions
  monitored_asset_opts : Option MonitoredAssetOptions

structure AssetIssueOperation where
  fee : Asset
  issuer : AccountId
  asset_to_issue : Asset
  issue_to_account : AccountId

structure AssetReserveOperation where
  fee : Asset
  payer : AccountId
  amount_to_reserve : Asset

structure AssetFundPoolsOperation where
  fee : Asset
  from_account : AccountId
  uia_asset : Asset
  dct_asset : Asset

structure AssetClaimFeesOperation where
  fee : Asset
  issuer : AccountId
  uia_asset : Asset
  dct_asset : Asset

structure WithdrawPermissionClaimOperation where
  fee : Asset
  withdraw_permission : Nat
  withdraw_from_account : AccountId
  withdraw_to_account : AccountId
  amount_to_withdraw : Asset

inductive VestingPolicyInitializer
  | linear (begin_timestamp vesting_cliff_seconds vesting_duration_seconds : Nat)
  | cdd (start_claim vesting_seconds : Nat)

structure VestingBalanceCreateOperation where
  fee : Asset
  creator : AccountId
  owner : AccountId
  amount : Asset
  policy : VestingPolicyInitializer

structure VestingBalanceWithdrawOperation where
  fee : Asset
  vesting_balance : Nat
  owner : AccountId
  amount : Asset

structure RegionalPrice where
  region : Nat
  price : Asset

/-- `seeders` and `key_parts` belong together, one part for each seeder. -/
structure ContentSubmitOperation where
  fee : Asset
  author : AccountId
  co_authors : Table AccountId Nat
  URI : String
  price : List RegionalPrice
  size : Nat
  hash : Nat
  seeders : List AccountId
  key_parts : List Nat
  quorum : Nat
  expiration : Nat
  publishing_fee : Asset
  cd : Option Nat

structure ContentCancellationOperation where
  fee : Asset
  author : AccountId
  URI : String

structure RequestToBuyOperation where
  fee : Asset
  URI : String
  consumer : AccountId
  price : Asset
  region_code_from : Nat

structure DeliverKeysOperation where
  fee : Asset
  seeder : AccountId
  buying : Nat
  key : Nat
  proof : Nat

structure CustodyProof where
  reference_block : Nat
  seed : List Nat
  mus : List Nat

structure ProofOfCustodyOperation where
  fee : Asset
  seeder : AccountId
  URI : String
  proof : Option CustodyProof

structure SubscribeOperation where
  fee : Asset
  from_account : AccountId
  to_account : AccountId
  price : Asset

structure SubscribeByAuthorOperation where
  fee : Asset
  from_account : AccountId
  to_account : AccountId

structure AutomaticRenewalOperation where
  fee : Asset
  consumer : AccountId
  subscription : Nat
  automatic_renewal : Bool

structure AccountCreateOperation where
  fee : Asset
  registrar : AccountId
  options : AccountOptions

structure AccountUpdateOperation where
  fee : Asset
  account : AccountId
  new_options : Option AccountOptions

/-- A `proposal_update` that completes the approvals of a proposal also runs its
    operations; `executed` lists them, and is empty when it does not or when one of
    them fails. -/
inductive Operation
  | transfer (o : TransferOperation)
  | transfer2 (o : Transfer2Operation)
  | asset_create (o : AssetCreateOperation)
  | asset_issue (o : AssetIssueOperation)
  | asset_reserve (o : AssetReserveOperation)
  | asset_fund_pools (o : AssetFundPoolsOperation)
  | asset_claim_fees (o : AssetClaimFeesOperation)
  | withdraw_permission_claim (o : WithdrawPermissionClaimOperation)
  | vesting_balance_create (o : VestingBalanceCreateOperation)
  | vesting_balance_withdraw (o : VestingBalanceWithdrawOperation)
  | content_submit (o : ContentSubmitOperation)
  | content_cancellation (o : ContentCancellationOperation)
  | request_to_buy (o : RequestToBuyOperation)
  | deliver_keys (o : DeliverKeysOperation)
  | proof_of_custody (o : ProofOfCustodyOperation)
  | subscribe (o : SubscribeOperation)
  | subscribe_by_author (o : SubscribeByAuthorOperation)
  | automatic_renewal_of_subscription (o : AutomaticRenewalOperation)
  | account_create (o : AccountCreateOperation)
  | account_update (o : AccountUpdateOperation)
  | proposal_update (fee_paying_account : AccountId) (fee : Asset) (executed : List Operation)
  | other (fee_payer : AccountId) (fee : Asset) (change : SettingsChange)

namespace Operation

def fee : Operation → Asset
  | transfer o => o.fee
  | transfer2 o => o.fee
  | asset_create o => o.fee
  | asset_issue o => o.fee
  | asset_reserve o => o.fee
  | asset_fund_pools o => o.fee
  | asset_claim_fees o => o.fee
  | withdraw_permission_claim o => o.fee
  | vesting_balance_create o => o.fee
  | vesting_balance_withdraw o => o.fee
  | content_submit o => o.fee
  | content_cancellation o => o.fee
  | request_to_buy o => o.fee
  | deliver_keys o => o.fee
  | proof_of_custody o => o.fee
  | subscribe o => o.fee
  | subscribe_by_author o => o.fee
  | automatic_renewal_of_subscription o => o.fee
  | account_create o => o.fee
  | account_update o => o.fee
  | proposal_update _ fee _ => fee
  | other _ fee _ => fee

/-- A monitored asset is created at the expense of account 0. -/
def fee_payer : Operation → AccountId
  | transfer o => o.from_account
  | transfer2 o => o.from_account
  | asset_create o => if o.monitored_asset_opts.isSome then 0 else o.issuer
  | asset_issue o => o.issuer
  | asset_reserve o => o.payer
  | asset_fund_pools o => o.from_account
  | asset_claim_fees o => o.issuer
  | withdraw_permission_claim o => o.withdraw_to_account
  | vesting_balance_create o => o.creator
  | vesting_balance_withdraw o => o.owner
  | content_submit o => o.author
  | content_cancellation o => o.author
  | request_to_buy o => o.consumer
  | deliver_keys o => o.seeder
  | proof_of_custody o => o.seeder
  | subscribe o => o.from_account
  | subscribe_by_author o => o.from_account
  | automatic_renewal_of_subscription o => o.consumer
  | account_create o => o.registrar
  | account_update o => o.account
  | proposal_update fee_paying_account _ _ => fee_paying_account
  | other fee_payer _ _ => fee_payer

end Operation

/-! ### `validate` -/

/-- `DECENT_MAX_SUBSCRIPTION_PERIOD`, in days. -/
def max_subscription_period : Nat := 365

/-- `account_options::validate`: price and period are looked at only when subscriptions
    are allowed. -/
def AccountOptions.validate (o : AccountOptions) : Bool :=
  !o.allow_subscription ||
    (0 < o.subscription_period && o.subscription_period ≤ max_subscription_period && 0 < o.price_per_subscribe.amount)

def Price.validate (p : Price) : Bool :=
  0 < p.base.amount && 0 < p.quote.amount && p.base.asset_id ≠ p.quote.asset_id

def AssetOptions.validate (o : AssetOptions) : Bool :=
  0 < o.max_supply && o.max_supply ≤ max_share_supply && o.core_exchange_rate.validate &&
    (o.core_exchange_rate.base.asset_id = core || o.core_exchange_rate.quote.asset_id = core)

def MonitoredAssetOptions.validate (m : MonitoredAssetOptions) : Bool :=
  m.current_feed.quote.asset_id = core && 0 < m.feed_lifetime_sec && 0 < m.minimum_feeds

/-- A sum of `uint32_t`. -/
def sum_of_splits (co_authors : Table AccountId Nat) : Nat := (co_authors.rows.map Prod.snd).sum % 2^32

/-- `DECENT_MAX_FILE_SIZE`, in megabytes. -/
def max_file_size : Nat := 10000

def Operation.validate : Operation → Bool
  | transfer o => 0 ≤ o.fee.amount && o.from_account ≠ o.to_account && 0 < o.amount.amount
  | transfer2 o => 0 ≤ o.fee.amount && o.target ≠ .account o.from_account && 0 < o.amount.amount
  | asset_create o => 0 ≤ o.fee.amount && o.precision ≤ 12 &&
      (match o.monitored_asset_opts with
      | some m => m.validate && o.options.max_supply = 0
      | none => o.options.validate)
  | asset_issue o => 0 ≤ o.fee.amount && o.asset_to_issue.amount ≤ max_share_supply && 0 < o.asset_to_issue.amount &&
      o.asset_to_issue.asset_id ≠ core
  | asset_reserve o => 0 ≤ o.fee.amount && o.amount_to_reserve.amount ≤ max_share_supply && 0 < o.amount_to_reserve.amount
  | asset_fund_pools o => 0 ≤ o.fee.amount && o.fee.asset_id = core && o.dct_asset.asset_id = core &&
      0 ≤ o.uia_asset.amount && 0 ≤ o.dct_asset.amount && (0 < o.uia_asset.amount || 0 < o.dct_asset.amount)
  | asset_claim_fees o => 0 ≤ o.fee.amount && o.dct_asset.asset_id = core &&
      0 ≤ o.uia_asset.amount && 0 ≤ o.dct_asset.amount && (0 < o.uia_asset.amount || 0 < o.dct_asset.amount)
  | withdraw_permission_claim o => o.withdraw_to_account ≠ o.withdraw_from_account && 0 < o.amount_to_withdraw.amount &&
      0 ≤ o.fee.amount
  | vesting_balance_create o => 0 ≤ o.fee.amount && 0 < o.amount.amount
  | vesting_balance_withdraw o => 0 ≤ o.fee.amount && 0 < o.amount.amount
  | content_submit o => 0 ≤ o.fee.amount && o.co_authors.rows.length ≤ 10 && sum_of_splits o.co_authors ≤ 10000 &&
      !o.price.isEmpty && o.price.all (fun item => 0 ≤ item.price.amount) && 0 < o.size && o.size ≤ max_file_size &&
      o.seeders.length = o.key_parts.length &&
      (if o.seeders.length = 0 then o.quorum = 0 else 2 ≤ o.quorum && o.quorum ≤ o.seeders.length) &&
      0 ≤ o.publishing_fee.amount
  | request_to_buy o => 0 ≤ o.fee.amount && 0 ≤ o.price.amount
  | subscribe o => 0 ≤ o.fee.amount && 0 ≤ o.price.amount
  | account_create o => 0 ≤ o.fee.amount && o.options.validate
  | account_update o => 0 ≤ o.fee.amount && o.account ≠ 2 && o.account ≠ 0 && o.new_options.all AccountOptions.validate
  | content_cancellation o => o.URI ≠ ""
  | deliver_keys o => 0 ≤ o.fee.amount
  | proof_of_custody o => 0 ≤ o.fee.amount
  | subscribe_by_author o => 0 ≤ o.fee.amount
  | automatic_renewal_of_subscription _ => true
  | proposal_update _ fee _ => 0 ≤ fee.amount
  | other _ fee _ => 0 ≤ fee.amount

end Decent.Money

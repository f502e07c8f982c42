import Decent.Evaluators

/-!
Buying a content: the request, the delivery of the keys and the end of the escrow, by
payout or by return; proofs of custody, which spend the publishing escrow; and
subscriptions.
-/
namespace Decent.Money

/-! ### The end of an escrow -/

/-- Credit a part of the escrow of a buying. -/
def pay_escrow (buying : Nat) (refund : Bool) (entitled : List AccountId) (account : AccountId) (amount : Asset) :
    M Unit := do
  adjust_balance account amount
  modify fun L => { L with payments := ⟨buying,refund,entitled,account,amount⟩ :: L.payments }

/-- The author and the co-authors. -/
def Content.authors (content : Content) : List AccountId := content.author :: content.co_authors.rows.map Prod.fst

/-- `content_payout`: to the author alone, or shared with the co-authors. -/
def content_payout (buying : Nat) (paid_price_after_exchange : Asset) (content : Content) : M Unit :=
  let pay := pay_escrow buying false content.authors
  if content.co_authors.rows.length = 0 then
    pay content.author paid_price_after_exchange
  else do
    let remaining ← pay_co_authors pay paid_price_after_exchange content.co_authors.rows
      paid_price_after_exchange.amount
    pay_author pay content.author ⟨remaining,paid_price_after_exchange.asset_id⟩

/-- `database::buying_expire` -/
def buying_expire (id : Nat) (buying : Buying) : M Unit := do
  pay_escrow id true [buying.consumer] buying.consumer buying.price
  let now ← observe head_block_time
  modify_buying id fun bo => { bo with
    price := { bo.price with amount := 0 }
    expired := true
    expiration_or_delivery_time := now }
  push_applied_operation (.return_escrow_buying buying.consumer buying.price id)

/-! ### Requests -/

/-- What `request_to_buy_evaluator` keeps between `do_evaluate` and `do_apply`. -/
structure BuyingContext where
  content_price : Asset
  is_subscriber : Bool

/-- Whether the consumer has a subscription to the author that has not run out. -/
def Ledger.is_subscribed (L : Ledger) (consumer author : AccountId) : Bool :=
  match L.subscriptions.find_from_to consumer author with
  | none => false
  | some subscription => L.properties.time < subscription.expiration

def request_to_buy_evaluate (o : RequestToBuyOperation) : Reads BuyingContext := do
  let L ← read
  let (_,content) ← get_content o.URI
  assert_at_most o.price (← get_balance o.consumer o.price.asset_id)
  fc_assert (L.properties.time < content.expiration)
  match get_price content.price o.region_code_from with
  | none => throw .assert_exception
  | some content_price =>
    fc_assert (content.is_blocked = false)
    if L.is_subscribed o.consumer content.author then
      return ⟨content_price,true⟩
    let payment ← get_asset o.price.asset_id
    let priced ← get_asset content_price.asset_id
    fc_assert (are_assets_exchangeable o.price.asset_id payment content_price.asset_id priced = true)
    if content_price.asset_id = o.price.asset_id then
      assert_at_least o.price content_price
      return ⟨content_price,false⟩
    match ← can_convert o.price.asset_id o.price with
    | none => throw .assert_exception
    | some paid_price_in_dct =>
      fc_assert (paid_price_in_dct.asset_id = core)
      match ← can_convert content_price.asset_id paid_price_in_dct with
      | none => throw .assert_exception
      | some paid_price_after_conversion =>
        fc_assert (paid_price_after_conversion.asset_id = content_price.asset_id)
        assert_at_least paid_price_after_conversion content_price
        return ⟨content_price,false⟩

/-- Convert the price that is paid into the asset of the content's price. -/
def convert_price (o : RequestToBuyOperation) (content_price paid_price : Asset) : M Asset :=
  if content_price.asset_id = o.price.asset_id then
    pure paid_price
  else do
    let paid_price_in_dct ← convert paid_price.asset_id paid_price
    convert content_price.asset_id paid_price_in_dct

def count_missed : List AccountId → M Unit
  | [] => pure ()
  | seeder :: rest => do
    modify_statistics seeder fun so => { so with missed_delivered_keys := so.missed_delivered_keys + 1 }
    count_missed rest

/-- The buying object of a request; a content without key parts is delivered at once. -/
def new_buying (o : RequestToBuyOperation) (delivered : Bool) (paid_price after_conversion : Asset) (now : Nat) :
    Buying where
  consumer := o.consumer
  URI := o.URI
  expiration_time := later now day
  price := if delivered then ⟨0,core⟩ else after_conversion
  paid_price_before_exchange := paid_price
  paid_price_after_exchange := after_conversion
  seeders_answered := []
  key_particles := []
  expired := false
  delivered := delivered
  expiration_or_delivery_time := now

/-- The index `by_consumer_URI`. -/
def Ledger.find_purchase (L : Ledger) (consumer : AccountId) (URI : String) : Option (Nat × Buying) :=
  L.buyings.table.rows.find? (fun row => row.2.consumer = consumer ∧ row.2.URI = URI)

def request_to_buy_apply (o : RequestToBuyOperation) (ctx : BuyingContext) : M Unit := do
  let (content_id,content) ← observe (get_content o.URI)
  let paid_price : Asset := if ctx.is_subscriber then ⟨0,core⟩ else o.price
  let paid_price_after_conversion ← convert_price o ctx.content_price paid_price
  let delivered := decide (content.key_parts.rows.length = 0)
  let now ← observe head_block_time
  -- The index has room for one buying of a consumer and a content.
  observe (fc_assert (((← get).find_purchase o.consumer o.URI).isNone = true))
  let buying := (← get).buyings.next
  modify fun L => { L with buyings := L.buyings.create (new_buying o delivered paid_price paid_price_after_conversion now) }
  adjust_balance o.consumer (← observe paid_price.negate)
  if delivered then
    content_payout buying paid_price_after_conversion content
    modify_content content_id fun co => { co with times_bought := co.times_bought + 1 }
    push_applied_operation (.finish_buying content.author paid_price_after_conversion o.consumer buying)
  count_missed (content.key_parts.rows.map Prod.fst)

/-! ### Deliveries -/

def deliver_keys_evaluate (env : Env) (o : DeliverKeysOperation) : Reads Unit := do
  let buying ← get_buying o.buying
  let (_,content) ← get_content buying.URI
  match (← read).seeders.find? o.seeder, content.key_parts.find? o.seeder with
  | some _, some firstK =>
    if env.skip_delivery_check = false then
      fc_assert (env.verify_delivery_proof o.proof firstK o.key o.seeder buying.consumer = true)
  | _, _ => throw .end_iterator

/-- Note a key particle that has not been seen before. -/
def note_answer (o : DeliverKeysOperation) (buying : Buying) : M Unit :=
  if buying.seeders_answered.contains o.seeder then
    pure ()
  else do
    modify_buying o.buying fun bo => { bo with
      seeders_answered := bo.seeders_answered ++ [o.seeder]
      key_particles := bo.key_particles ++ [o.key] }
    modify_statistics o.seeder fun so => { so with
      missed_delivered_keys := so.missed_delivered_keys - 1
      total_delivered_keys := so.total_delivered_keys + 1 }

/-- The content was delivered: pay it out. -/
def finish_buying (id : Nat) (buying : Buying) (content_id : Nat) (content : Content) : M Unit := do
  modify_content content_id fun co => { co with times_bought := co.times_bought + 1 }
  content_payout id buying.paid_price_after_exchange content
  let now ← observe head_block_time
  modify_buying id fun bo => { bo with
    price := { bo.price with amount := 0 }
    delivered := true
    expiration_or_delivery_time := now }
  push_applied_operation (.finish_buying content.author buying.paid_price_after_exchange buying.consumer id)

def deliver_keys_apply (o : DeliverKeysOperation) : M Unit := do
  let seen ← observe (get_buying o.buying)
  let now ← observe head_block_time
  let expired := decide (seen.expiration_time < now)
  let (content_id,content) ← observe (get_content seen.URI)
  note_answer o seen
  let buying ← observe (get_buying o.buying)
  let delivered := decide (content.quorum ≤ buying.seeders_answered.length)
  if buying.delivered || buying.expired then
    pure ()
  else if delivered then
    finish_buying o.buying buying content_id content
  else if expired then
    buying_expire o.buying buying
  else
    pure ()

/-! ### Proofs of custody -/

def proof_of_custody_evaluate (env : Env) (o : ProofOfCustodyOperation) : Reads Unit := do
  let (_,content) ← get_content o.URI
  let L ← read
  fc_assert (L.properties.time < content.expiration)
  match o.proof with
  | none => pure ()
  | some proof =>
    fc_assert (env.get_block_id_for_num proof.reference_block = proof.seed)
    fc_assert (L.properties.head_block_number ≤ proof.reference_block + 6)
  fc_assert (content.cd.isSome = o.proof.isSome)
  match content.cd, o.proof with
  | some cd, some proof =>
    if env.skip_validate = false then
      fc_assert (env.verify_by_miner cd proof = true)
  | _, _ => pure ()

/-- The share of a day's reward, in ten thousandths: a proof before its time loses a
    quarter of what is missing to 24 hours. -/
def total_reward_ratio (elapsed : Nat) : Nat :=
  let ratio := 10000 * min elapsed day / day
  let loss := (10000 - ratio) / 4
  ratio * (10000 - loss) / 10000

/-- `itr->second * total_reward_ratio * content->size / 10000`, in checked arithmetic. -/
def custody_reward (price : Int) (ratio size : Nat) : Except Fault Int := do
  let for_ratio ← checked (price * ratio)
  let for_size ← checked (for_ratio * size)
  return for_size.tdiv 10000

/-- The block from which on the reward is bounded by the escrow. -/
def block_halt_fix : Nat := 404727

/-- What one key part of a content counts as seeded; without key parts the source divides by
    zero. -/
def Content.seeded_size (content : Content) : UInt64 :=
  UInt64.ofNat (content.size * 1000 * 1000 / content.key_parts.rows.length)

def proof_of_custody_apply (o : ProofOfCustodyOperation) : M Unit := do
  let (id,content) ← observe (get_content o.URI)
  let L ← get
  match L.seeders.find? o.seeder with
  | none => throw .assert_exception
  | some seeder =>
    let now := L.properties.time
    match content.last_proof.find? o.seeder with
    | none =>
      modify_content id fun co => { co with last_proof := co.last_proof.put o.seeder now }
      if content.key_parts.rows.length = 0 then
        throw .division_by_zero
      else
        modify_statistics o.seeder fun so => { so with
          total_content_seeded := so.total_content_seeded + content.seeded_size
          num_of_content_seeded := so.num_of_content_seeded + 1
          total_content_requested_to_seed :=
            if 0 < so.total_content_requested_to_seed then so.total_content_requested_to_seed - 1
            else so.total_content_requested_to_seed }
    | some last_proof =>
      modify_statistics o.seeder fun so => { so with num_of_pors := so.num_of_pors + 1 }
      let ratio := total_reward_ratio (now - last_proof)
      let reward ← observe (reward_amount L seeder content ratio)
      let escrow ← observe (content.publishing_fee_escrow.sub ⟨reward,core⟩)
      modify_content id fun co => { co with
        last_proof := co.last_proof.put o.seeder now
        publishing_fee_escrow := escrow }
      adjust_balance o.seeder ⟨reward,core⟩
      note_publishing (.reward id o.seeder ⟨reward,core⟩ L.properties.head_block_number)
      push_applied_operation (.pay_seeder content.author o.seeder ⟨reward,core⟩)
where
  reward_amount (L : Ledger) (seeder : Seeder) (content : Content) (ratio : Nat) : Except Fault Int :=
    if block_halt_fix < L.properties.head_block_number then
      match content.seeder_price.find? o.seeder with
      | none => .error .assert_exception
      | some price => do
        let reward ← custody_reward price ratio content.size
        return if content.publishing_fee_escrow.amount < reward then max 0 content.publishing_fee_escrow.amount
          else reward
    else
      custody_reward seeder.price.amount ratio content.size

/-! ### Subscriptions and accounts -/

/-- The price of a subscription in the asset it is paid in: a monitored price at the
    current rate. -/
def subscription_price (price : Asset) (ao : AssetObject) : Except Fault Asset :=
  match ao.monitored_asset_opts with
  | some m => do
    fc_assert (m.current_feed.is_null = false)
    m.current_feed.times price
  | none => .ok price

def subscribe_evaluate (o : SubscribeOperation) : Reads Unit := do
  let _ ← get_account o.from_account
  let author ← get_account o.to_account
  assert_at_most o.price (← get_balance o.from_account o.price.asset_id)
  fc_assert (author.options.allow_subscription = true)
  let price := author.options.price_per_subscribe
  let ao ← get_asset price.asset_id
  fc_assert (price.asset_id = core ∨ ao.is_monitored_asset = true)
  let dct_price ← subscription_price price ao
  assert_at_least o.price dct_price

/-- A period in seconds, in 32 bits. -/
def period_in_secs (subscription_period : Nat) : Nat := subscription_period * 24 * 3600 % 2^32

/-- Extend the subscription, or create it. -/
def extend_subscription (from_account to_account : AccountId) : M Unit := do
  let L ← get
  let author ← observe (get_account to_account)
  let seconds := period_in_secs author.options.subscription_period
  let now := L.properties.time
  match L.subscriptions.find_from_to from_account to_account with
  | some subscription =>
    modify_subscription subscription.id fun so => { so with
      expiration := if so.expiration < now then later now seconds else later so.expiration seconds }
  | none =>
    modify fun L => { L with subscriptions := L.subscriptions.create {
      id := 0
      from_account := from_account
      to_account := to_account
      expiration := later now seconds
      automatic_renewal := false } }

def subscribe_apply (o : SubscribeOperation) : M Unit := do
  extend_subscription o.from_account o.to_account
  adjust_balance o.from_account (← observe o.price.negate)
  adjust_balance o.to_account o.price

def subscribe_by_author_evaluate (o : SubscribeByAuthorOperation) : Reads Unit := do
  let _ ← get_account o.from_account
  let author ← get_account o.to_account
  fc_assert (author.options.allow_subscription = true)

def subscribe_by_author_apply (o : SubscribeByAuthorOperation) : M Unit :=
  extend_subscription o.from_account o.to_account

def automatic_renewal_evaluate (o : AutomaticRenewalOperation) : Reads Unit := do
  let _ ← get_account o.consumer
  match (← read).subscriptions.find? o.subscription with
  | none => throw .assert_exception
  | some subscription =>
    fc_assert (subscription.from_account = o.consumer)
    fc_assert (subscription.automatic_renewal ≠ o.automatic_renewal)
    let _ ← get_account subscription.to_account

def automatic_renewal_apply (o : AutomaticRenewalOperation) : M Unit :=
  modify_subscription o.subscription fun so => { so with automatic_renewal := o.automatic_renewal }

/-- Who votes in place of the account must exist; authorities and the name are outside the
    ledger. -/
def account_create_evaluate (o : AccountCreateOperation) : Reads Unit := do
  fc_assert (((← read).accounts.find? o.options.voting_account).isSome = true)

def account_create_apply (o : AccountCreateOperation) : M Unit :=
  modify fun L => { L with accounts := L.accounts.create ⟨o.options⟩ }

def account_update_evaluate (o : AccountUpdateOperation) : Reads Unit := do
  let _ ← get_account o.account
  match o.new_options with
  | none => pure ()
  | some options =>
    let ao ← get_asset options.price_per_subscribe.asset_id
    fc_assert (options.price_per_subscribe.asset_id = core ∨ ao.is_monitored_asset = true)

def disallow_renewals : List Subscription → M Unit
  | [] => pure ()
  | element :: rest => do
    modify_subscription element.id fun so => { so with automatic_renewal := false }
    push_applied_operation (.disallow_automatic_renewal_of_subscription element.from_account element.id)
    disallow_renewals rest

/-- New terms switch off the automatic renewals of all subscriptions to the account. -/
def account_update_apply (o : AccountUpdateOperation) : M Unit :=
  match o.new_options with
  | none => pure ()
  | some options => do
    let account ← observe (get_account o.account)
    if options.allow_subscription = false ∨ account.options.price_per_subscribe ≠ options.price_per_subscribe ∨
        account.options.subscription_period ≠ options.subscription_period then
      disallow_renewals ((← get).subscriptions.order.filter fun s => s.to_account = o.account ∧ s.automatic_renewal = true)
    modify fun L => { L with accounts := L.accounts.update o.account fun a => { a with options := options } }

end Decent.Money

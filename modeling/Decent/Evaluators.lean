import Decent.Operations

/-!
The evaluators. `evaluate` reads the state and prepares the fee; `apply` converts the
fee, adds it to the core asset's pool, runs `do_apply` and charges the payer. What an
evaluator keeps between the two is in a structure of its own.
-/
namespace Decent.Money

/-- What the evaluators take from outside the ledger: the fee schedule, the two
    cryptographic checks, the block database and the table of regions. -/
structure Env where
  calculate_fee : Operation → Int
  skip_fee_schedule_check : Bool
  skip_delivery_check : Bool
  skip_validate : Bool
  verify_delivery_proof : (proof firstK secondK : Nat) → (seeder consumer : AccountId) → Bool
  verify_by_miner : Nat → CustodyProof → Bool
  get_block_id_for_num : Nat → List Nat
  is_region : Nat → Bool

def HARDFORK_2_TIME : Nat := 1524470400

/-! ### Reading -/

def get_account (id : AccountId) : Reads Account := do
  match (← read).accounts.find? id with
  | some a => return a
  | none => throw .assert_exception

def head_block_time : Reads Nat := return (← read).properties.time

/-- The index `by_URI`. -/
def Ledger.find_content (L : Ledger) (URI : String) : Option (Nat × Content) :=
  L.contents.table.rows.find? (fun row => row.2.URI = URI)

/-- A content that the source looks up with `FC_ASSERT( content != idx.end() )`. -/
def get_content (URI : String) : Reads (Nat × Content) := do
  match (← read).find_content URI with
  | some found => return found
  | none => throw .assert_exception

def get_buying (id : Nat) : Reads Buying := do
  match (← read).buyings.find? id with
  | some b => return b
  | none => throw .assert_exception

/-- `FC_ASSERT( x <= y )` -/
def assert_at_most (x y : Asset) : Except Fault Unit := do fc_assert ((← x.at_most y) = true)

/-- `FC_ASSERT( x >= y )` -/
def assert_at_least (x y : Asset) : Except Fault Unit := do fc_assert ((← x.at_least y) = true)

/-! ### Writing -/

def modify_content (id : Nat) (f : Content → Content) : M Unit :=
  modify fun L => { L with contents := L.contents.update id f }

def modify_buying (id : Nat) (f : Buying → Buying) : M Unit :=
  modify fun L => { L with buyings := L.buyings.update id f }

def modify_subscription (id : Nat) (f : Subscription → Subscription) : M Unit :=
  modify fun L => { L with subscriptions := L.subscriptions.modify id f }

/-- Keep account of a publishing escrow. -/
def note_publishing (movement : EscrowMovement) : M Unit :=
  modify fun L => { L with publishing := movement :: L.publishing }

/-- Change the statistics of a seeder, who has some since the first `ready_to_publish`. -/
def modify_statistics (seeder : AccountId) (f : SeedingStatistics → SeedingStatistics) : M Unit := do
  match (← get).statistics.find? seeder with
  | none => throw .end_iterator
  | some so => modify fun L => { L with statistics := L.statistics.put seeder (f so) }

/-! ### Fees -/

/-- `generic_evaluator::prepare_fee`; the core amount of the fee. -/
def prepare_fee (account_id : AccountId) (fee : Asset) : Reads Int := do
  fc_assert (0 ≤ fee.amount)
  let _ ← get_account account_id
  let fee_asset ← get_asset fee.asset_id
  fc_assert (fee.asset_id = core ∨ fee_asset.options.is_exchangeable = true)
  if fee.asset_id = core then
    return fee.amount
  else
    let fee_from_pool ← fee_asset.options.core_exchange_rate.times fee
    fc_assert (fee_from_pool.asset_id = core)
    fc_assert (fee_from_pool.amount ≤ fee_asset.dynamic.core_pool)
    return fee_from_pool.amount

/-- `generic_evaluator::convert_fee` -/
def convert_fee (fee_from_account : Asset) (core_fee_paid : Int) : M Unit :=
  if fee_from_account.asset_id ≠ core then
    modify_dynamic fee_from_account.asset_id fun d => do
      let asset_pool ← checked (d.asset_pool + fee_from_account.amount)
      let core_pool ← checked (d.core_pool - core_fee_paid)
      return { d with asset_pool := asset_pool, core_pool := core_pool }
  else
    pure ()

/-- `generic_evaluator::pay_fee` -/
def pay_fee (core_fee_paid : Int) : M Unit :=
  modify_dynamic core fun d => return { d with asset_pool := ← checked (d.asset_pool + core_fee_paid) }

/-- `db_adjust_balance( fee_payer, -fee_from_account )` -/
def charge_fee (fee_payer : AccountId) (fee_from_account : Asset) : M Unit := do
  adjust_balance fee_payer (← observe fee_from_account.negate)

/-! ### Transfers -/

/-- The product of an `int64_t` and a `uint32_t`, in 64 bits. -/
def product64 (amount : Int) (basis_points : Nat) : Int := (amount * basis_points).bmod (2^64)

/-- Pay every co-author his share of the amount; what remains is returned. -/
def pay_co_authors (pay : AccountId → Asset → M Unit) (amount : Asset) : List (AccountId × Nat) → Int → M Int
  | [], remaining => return remaining
  | (co_author,basis_points) :: rest, remaining => do
    let share := (product64 amount.amount basis_points).tdiv 10000
    pay co_author ⟨share,amount.asset_id⟩
    pay_co_authors pay amount rest (← observe (checked (remaining - share)))

/-- What remains for the author. -/
def pay_author (pay : AccountId → Asset → M Unit) (author : AccountId) (remaining : Asset) : M Unit :=
  if remaining.amount ≠ 0 then do
    observe (fc_assert (0 < remaining.amount))
    pay author remaining
  else
    pure ()

def transfer_evaluate (o : TransferOperation) : Reads Unit := do
  let _ ← get_account o.from_account
  let _ ← get_account o.to_account
  let _ ← get_asset o.amount.asset_id
  let balance ← get_balance o.from_account o.amount.asset_id
  fc_assert (o.amount.amount ≤ balance.amount)

def transfer_apply (o : TransferOperation) : M Unit := do
  adjust_balance o.from_account (← observe o.amount.negate)
  adjust_balance o.to_account o.amount

def transfer2_evaluate (o : Transfer2Operation) : Reads Unit := do
  fc_assert (HARDFORK_2_TIME < (← head_block_time))
  let _ ← get_account o.from_account
  let _ ← get_asset o.amount.asset_id
  match o.target with
  | .account _ => pure ()
  | .content id => fc_assert (((← read).contents.find? id).isSome = true)
  let balance ← get_balance o.from_account o.amount.asset_id
  fc_assert (o.amount.amount ≤ balance.amount)

def transfer2_apply (o : Transfer2Operation) : M Unit := do
  adjust_balance o.from_account (← observe o.amount.negate)
  match o.target with
  | .account id => adjust_balance id o.amount
  | .content id =>
    match (← get).contents.find? id with
    | none => throw .end_iterator
    | some content =>
      let remaining ← pay_co_authors adjust_balance o.amount content.co_authors.rows o.amount.amount
      pay_author adjust_balance content.author ⟨remaining,o.amount.asset_id⟩

/-! ### Assets -/

/-- What stands before the last dot of a symbol. -/
def parent_symbol (symbol : String) : Option String :=
  match symbol.toList.reverse.dropWhile (· ≠ '.') with
  | [] => none
  | _ :: rest => some (String.ofList rest.reverse)

/-- The index `by_symbol`. -/
def Ledger.find_symbol (L : Ledger) (symbol : String) : Option AssetObject :=
  (L.assets.table.rows.find? (fun row => row.2.symbol = symbol)).map Prod.snd

/-- Below an asset only its issuer may create others. -/
def check_parent_symbol (o : AssetCreateOperation) : Reads Unit := do
  match parent_symbol o.symbol with
  | none => pure ()
  | some symbol =>
    match (← read).find_symbol symbol with
    | none => throw .assert_exception
    | some parent => fc_assert (parent.issuer = o.issuer)

def check_supply_options (o : AssetCreateOperation) : Reads Unit := do
  let L ← read
  match o.monitored_asset_opts with
  | some m =>
    fc_assert (L.parameters.block_interval < m.feed_lifetime_sec)
    fc_assert (o.options.max_supply = 0)
    fc_assert (o.options.fixed_max_supply.isNone = true)
  | none =>
    if HARDFORK_2_TIME < L.properties.time then
      fc_assert (o.options.fixed_max_supply.isSome = true)
    else
      fc_assert (o.options.fixed_max_supply.isNone = true)

/-- `asset_create_evaluator::do_evaluate`; what it leaves of `core_fee_paid`. -/
def asset_create_evaluate (o : AssetCreateOperation) (core_fee_paid : Int) : Reads Int := do
  fc_assert (((← read).find_symbol o.symbol).isNone = true)
  check_parent_symbol o
  let core_fee_paid ← checked (core_fee_paid - core_fee_paid.tdiv 2)
  check_supply_options o
  return core_fee_paid

/-- The rate of a new asset: the side that is not the core asset becomes the new one. -/
def rate_of_new_asset (rate : Price) (id : AssetId) : Price :=
  if rate.base.asset_id = core then
    { rate with quote := { rate.quote with asset_id := id } }
  else
    { rate with base := { rate.base with asset_id := id } }

def asset_create_apply (o : AssetCreateOperation) (core_fee_paid : Int) : M Unit :=
  modify fun L => { L with assets := L.assets.create {
    symbol := o.symbol
    precision := o.precision
    issuer := o.issuer
    options := { o.options with core_exchange_rate := rate_of_new_asset o.options.core_exchange_rate L.assets.next }
    monitored_asset_opts := o.monitored_asset_opts
    dynamic := ⟨0,0,core_fee_paid⟩ } }

def asset_issue_evaluate (o : AssetIssueOperation) : Reads Unit := do
  let a ← get_asset o.asset_to_issue.asset_id
  fc_assert (o.issuer = a.issuer)
  fc_assert (a.is_monitored_asset = false)
  fc_assert ((← checked (a.dynamic.current_supply + o.asset_to_issue.amount)) ≤ a.options.max_supply)

def asset_issue_apply (o : AssetIssueOperation) : M Unit := do
  adjust_balance o.issue_to_account o.asset_to_issue
  modify_dynamic o.asset_to_issue.asset_id fun data =>
    return { data with current_supply := ← checked (data.current_supply + o.asset_to_issue.amount) }

def asset_reserve_evaluate (o : AssetReserveOperation) : Reads Unit := do
  let a ← get_asset o.amount_to_reserve.asset_id
  fc_assert (a.is_monitored_asset = false)
  fc_assert (0 ≤ (← checked (a.dynamic.current_supply - o.amount_to_reserve.amount)))

def asset_reserve_apply (o : AssetReserveOperation) : M Unit := do
  adjust_balance o.payer (← observe o.amount_to_reserve.negate)
  modify_dynamic o.amount_to_reserve.asset_id fun data =>
    return { data with current_supply := ← checked (data.current_supply - o.amount_to_reserve.amount) }

def asset_fund_pools_evaluate (o : AssetFundPoolsOperation) : Reads Unit := do
  let uia_o ← get_asset o.uia_asset.asset_id
  fc_assert (uia_o.is_monitored_asset = false ∧ o.uia_asset.asset_id ≠ core)
  assert_at_most o.uia_asset (← get_balance o.from_account o.uia_asset.asset_id)
  assert_at_most o.dct_asset (← get_balance o.from_account core)

def asset_fund_pools_apply (o : AssetFundPoolsOperation) : M Unit := do
  if 0 < o.uia_asset.amount then
    adjust_balance o.from_account (← observe o.uia_asset.negate)
    modify_dynamic o.uia_asset.asset_id fun data =>
      return { data with asset_pool := ← checked (data.asset_pool + o.uia_asset.amount) }
  if 0 < o.dct_asset.amount then
    adjust_balance o.from_account (← observe o.dct_asset.negate)
    modify_dynamic o.uia_asset.asset_id fun data =>
      return { data with core_pool := ← checked (data.core_pool + o.dct_asset.amount) }

def asset_claim_fees_evaluate (o : AssetClaimFeesOperation) : Reads Unit := do
  let uia_ao ← get_asset o.uia_asset.asset_id
  fc_assert (uia_ao.issuer = o.issuer)
  fc_assert (uia_ao.is_monitored_asset = false)
  fc_assert (o.uia_asset.amount ≤ uia_ao.dynamic.asset_pool)
  fc_assert (o.dct_asset.amount ≤ uia_ao.dynamic.core_pool)

def asset_claim_fees_apply (o : AssetClaimFeesOperation) : M Unit := do
  if 0 < o.uia_asset.amount then
    adjust_balance o.issuer o.uia_asset
    modify_dynamic o.uia_asset.asset_id fun addo =>
      return { addo with asset_pool := ← checked (addo.asset_pool - o.uia_asset.amount) }
  if 0 < o.dct_asset.amount then
    adjust_balance o.issuer o.dct_asset
    modify_dynamic o.uia_asset.asset_id fun addo =>
      return { addo with core_pool := ← checked (addo.core_pool - o.dct_asset.amount) }

/-! ### Withdrawals and vesting -/

def WithdrawPermission.available_this_period (p : WithdrawPermission) (current_time : Nat) : Except Fault Asset :=
  if later p.period_start_time p.withdrawal_period_sec ≤ current_time then
    .ok p.withdrawal_limit
  else if p.claimed_this_period < p.withdrawal_limit.amount then do
    return ⟨← checked (p.withdrawal_limit.amount - p.claimed_this_period),p.withdrawal_limit.asset_id⟩
  else
    .ok ⟨0,p.withdrawal_limit.asset_id⟩

def get_permission (id : Nat) : Reads WithdrawPermission := do
  match (← read).permissions.find? id with
  | some p => return p
  | none => throw .assert_exception

def withdraw_permission_claim_evaluate (o : WithdrawPermissionClaimOperation) : Reads Unit := do
  let permit ← get_permission o.withdraw_permission
  let now ← head_block_time
  fc_assert (now < permit.expiration)
  fc_assert (permit.authorized_account = o.withdraw_to_account)
  fc_assert (permit.withdraw_from_account = o.withdraw_from_account)
  assert_at_most o.amount_to_withdraw (← permit.available_this_period now)
  assert_at_least (← get_balance o.withdraw_from_account o.amount_to_withdraw.asset_id) o.amount_to_withdraw
  let _ ← get_asset o.amount_to_withdraw.asset_id
  let _ ← get_account o.withdraw_to_account
  let _ ← get_account permit.authorized_account

/-- The permission after a claim: the period moves on by whole periods. -/
def WithdrawPermission.claim (p : WithdrawPermission) (amount : Int) (now : Nat) : Except Fault WithdrawPermission := do
  let periods := ((now : Int) - p.period_start_time).tdiv p.withdrawal_period_sec
  let claimed ← if periods = 0 then checked (p.claimed_this_period + amount) else .ok amount
  return { p with
    period_start_time := ((p.period_start_time + periods * p.withdrawal_period_sec) % 2^32).toNat
    claimed_this_period := claimed }

def withdraw_permission_claim_apply (o : WithdrawPermissionClaimOperation) : M Unit := do
  let permit ← observe (get_permission o.withdraw_permission)
  let now ← observe head_block_time
  let claimed ← observe (permit.claim o.amount_to_withdraw.amount now)
  modify fun L => { L with permissions := L.permissions.update o.withdraw_permission fun _ => claimed }
  adjust_balance o.withdraw_from_account (← observe o.amount_to_withdraw.negate)
  adjust_balance o.withdraw_to_account o.amount_to_withdraw

def vesting_balance_create_evaluate (o : VestingBalanceCreateOperation) : Reads Unit := do
  let _ ← get_account o.creator
  let _ ← get_account o.owner
  fc_assert (0 < o.amount.amount)
  assert_at_least (← get_balance o.creator o.amount.asset_id) o.amount

/-- `init_policy_visitor` -/
def VestingPolicyInitializer.init (i : VestingPolicyInitializer) (begin_balance : Int) (now : Nat) : VestingPolicy :=
  match i with
  | .linear begin_timestamp vesting_cliff_seconds vesting_duration_seconds =>
    .linear begin_timestamp vesting_cliff_seconds vesting_duration_seconds begin_balance
  | .cdd start_claim vesting_seconds => .cdd vesting_seconds start_claim 0 now

def vesting_balance_create_apply (o : VestingBalanceCreateOperation) : M Unit := do
  let now ← observe head_block_time
  let balance ← observe (get_balance o.creator o.amount.asset_id)
  observe (assert_at_least balance o.amount)
  adjust_balance o.creator (← observe o.amount.negate)
  let _ ← create_vesting { owner := o.owner, balance := o.amount, policy := o.policy.init o.amount.amount now }

def vesting_balance_withdraw_evaluate (o : VestingBalanceWithdrawOperation) : Reads Unit := do
  let vbo ← get_vesting o.vesting_balance
  fc_assert (o.owner = vbo.owner)
  fc_assert ((← vbo.is_withdraw_allowed (← head_block_time) o.amount) = true)
  let _ ← get_account o.owner

def vesting_balance_withdraw_apply (o : VestingBalanceWithdrawOperation) : M Unit := do
  withdraw o.vesting_balance o.amount
  adjust_balance o.owner o.amount

/-! ### Contents -/

/-- `RegionCodes::OO_none` and `RegionCodes::OO_all` -/
def OO_none : Nat := 1
def OO_all : Nat := 2

/-- `std::map::insert`, which keeps what is there. -/
def insert_new {ν : Type} (t : Table Nat ν) (k : Nat) (v : ν) : Table Nat ν :=
  if (t.find? k).isSome then t else t.put k v

/-- `PriceRegions::GetPrice` -/
def get_price (map_price : Table Nat Asset) (region_code : Nat) : Option Asset :=
  match map_price.find? OO_none with
  | some price => some price
  | none =>
    match map_price.find? region_code with
    | some price => some price
    | none => map_price.find? OO_all

/-- The prices of a submission written over those the content has. -/
def set_prices (old : Table Nat Asset) (price : List RegionalPrice) : Table Nat Asset :=
  let prices := price.foldl (fun t item => t.put item.region item.price) Table.empty
  match prices.find? OO_none with
  | some simple => Table.empty.put OO_none simple
  | none => prices.rows.foldl (fun t item => insert_new t item.1 item.2) old

/-- The parts of the seeders, the first one where a seeder is listed twice. -/
def pair_key_parts : List AccountId → List Nat → Table AccountId Nat → Table AccountId Nat
  | seeder :: seeders, part :: parts, t => pair_key_parts seeders parts (insert_new t seeder part)
  | _, _, t => t

/-- What the seeders ask for a day. -/
def price_per_day (size : Nat) : List AccountId → Asset → Reads Asset
  | [], total => return total
  | p :: rest, total => do
    match (← read).seeders.find? p with
    | none => throw .assert_exception
    | some seeder =>
      fc_assert (size < seeder.free_space)
      let price ← checked (seeder.price.amount * size)
      price_per_day size rest (← total.add ⟨price,core⟩)

/-- `content_submit_evaluator::do_evaluate`; the content that is resubmitted, if it is one. -/
def content_submit_evaluate (env : Env) (o : ContentSubmitOperation) : Reads (Option Nat) := do
  let L ← read
  if o.key_parts.length = 0 then
    fc_assert (HARDFORK_2_TIME < L.properties.time)
  let _ ← get_account o.author
  if o.co_authors.rows.length ≠ 0 then
    fc_assert (o.co_authors.rows.all (fun element => (L.accounts.find? element.1).isSome) = true)
    match o.co_authors.find? o.author with
    | none => fc_assert (sum_of_splits o.co_authors < 10000)
    | some _ => fc_assert (sum_of_splits o.co_authors = 10000)
  fc_assert (o.price.all (fun element => (L.assets.find? element.price.asset_id).isSome && env.is_region element.region) = true)
  fc_assert (L.properties.time ≤ o.expiration)
  let days := (o.expiration - L.properties.time) / 3600 / 24
  fc_assert (days ≠ 0)
  match L.find_content o.URI with
  | some (id,content) =>
    fc_assert (content.author = o.author)
    fc_assert (content.size = o.size)
    fc_assert (content.hash = o.hash)
    fc_assert (content.expiration = o.expiration)
    fc_assert (content.quorum = o.quorum)
    fc_assert (content.key_parts.rows.length = o.seeders.length)
    fc_assert (content.key_parts.rows.all (fun element => o.seeders.contains element.1) = true)
    fc_assert (content.cd.isSome = true → content.cd = o.cd)
    return some id
  | none =>
    let total_price_per_day ← price_per_day o.size o.seeders ⟨0,core⟩
    let price ← checked (total_price_per_day.amount * (days % 2^32 : Nat))
    assert_at_most ⟨price,total_price_per_day.asset_id⟩ o.publishing_fee
    return none

/-- The object of a first submission, before the seeders' prices are noted. -/
def new_content (o : ContentSubmitOperation) (now : Nat) : Content where
  URI := o.URI
  author := o.author
  co_authors := o.co_authors
  expiration := o.expiration
  created := now
  price := set_prices Table.empty o.price
  size := o.size
  hash := o.hash
  quorum := o.quorum
  key_parts := pair_key_parts o.seeders o.key_parts Table.empty
  last_proof := Table.empty
  seeder_price := Table.empty
  is_blocked := false
  times_bought := 0
  publishing_fee_escrow := o.publishing_fee
  cd := o.cd

/-- Reserve the space of the seeders and note their prices. -/
def reserve_seeders (content size : Nat) : List AccountId → M Unit
  | [] => pure ()
  | p :: rest => do
    match (← get).seeders.find? p with
    | none => throw .end_iterator
    | some so =>
      modify fun L => { L with seeders := L.seeders.put p { so with free_space := (so.free_space + 2^64 - size) % 2^64 } }
      modify_content content fun co => { co with seeder_price := insert_new co.seeder_price p so.price.amount }
      reserve_seeders content size rest

def request_seeding : List AccountId → M Unit
  | [] => pure ()
  | p :: rest => do
    modify_statistics p fun so => { so with total_content_requested_to_seed := so.total_content_requested_to_seed + 1 }
    request_seeding rest

def content_submit_apply (o : ContentSubmitOperation) : Option Nat → M Unit
  | some content =>
    modify_content content fun co => { co with price := set_prices co.price o.price, co_authors := o.co_authors }
  | none => do
    let now ← observe head_block_time
    let content := (← get).contents.next
    modify fun L => { L with contents := L.contents.create (new_content o now) }
    adjust_balance o.author (← observe o.publishing_fee.negate)
    note_publishing (.fee content o.author o.publishing_fee)
    reserve_seeders content o.size o.seeders
    request_seeding o.seeders

def content_cancellation_evaluate (o : ContentCancellationOperation) : Reads Unit := do
  let (_,content) ← get_content o.URI
  fc_assert (o.author = content.author)
  fc_assert ((← head_block_time) < content.expiration)
  fc_assert (content.is_blocked = false)

/-- A day, in seconds. -/
def day : Nat := 24 * 60 * 60

def content_cancellation_apply (o : ContentCancellationOperation) : M Unit := do
  let (id,_) ← observe (get_content o.URI)
  let now ← observe head_block_time
  modify_content id fun co => { co with
    is_blocked := true
    expiration := if later now day < co.expiration then later now day else co.expiration }

end Decent.Money

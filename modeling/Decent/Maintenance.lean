import Decent.Purchases
import Mathlib.Data.List.Sort

/-!
What the chain does by itself: the pay of the miner of each block, and the maintenance,
which tallies votes, expires contents and buyings, renews subscriptions and moves the
collected fees into the budget of the next interval.
-/
namespace Decent.Money

/-! ### Rewards and the pay of miners -/

def DECENT_SPLIT_0 : Nat := 100000
def DECENT_SPLIT_1 : Nat := 31653280
def DECENT_SPLIT_2 : Nat := 63206560
def DECENT_SPLIT_3 : Nat := 94777120
def DECENT_SPLIT_4 : Nat := 126330400

def DECENT_BLOCK_REWARD_1 : Int := 37000000
def DECENT_BLOCK_REWARD_2 : Int := DECENT_BLOCK_REWARD_1 / 2
def DECENT_BLOCK_REWARD_3 : Int := DECENT_BLOCK_REWARD_2 / 2
def DECENT_BLOCK_REWARD_4 : Int := DECENT_BLOCK_REWARD_3 / 2

def get_asset_per_block_by_block_num (block_num : Nat) : Int :=
  if block_num < DECENT_SPLIT_0 then 0
  else if block_num < DECENT_SPLIT_1 then DECENT_BLOCK_REWARD_1
  else if block_num < DECENT_SPLIT_2 then DECENT_BLOCK_REWARD_2
  else if block_num < DECENT_SPLIT_3 then DECENT_BLOCK_REWARD_3
  else if block_num < DECENT_SPLIT_4 then DECENT_BLOCK_REWARD_4
  else 0

/-- The next block at which the reward changes, with the reward from there on. -/
def get_next_reward_switch_block (start : Nat) : Nat × Int :=
  if start ≤ DECENT_SPLIT_0 then (DECENT_SPLIT_0,DECENT_BLOCK_REWARD_1)
  else if start ≤ DECENT_SPLIT_1 then (DECENT_SPLIT_1,DECENT_BLOCK_REWARD_2)
  else if start ≤ DECENT_SPLIT_2 then (DECENT_SPLIT_2,DECENT_BLOCK_REWARD_3)
  else if start ≤ DECENT_SPLIT_3 then (DECENT_SPLIT_3,DECENT_BLOCK_REWARD_4)
  else if start ≤ DECENT_SPLIT_4 then (DECENT_SPLIT_4,0)
  else (0,0)

/-- `get_miner_budget`: numbers of blocks have 32 bits, and the way to the switch, which may be one
    block back, has 64. Past the last switch the reward is nothing, before or after. -/
def get_miner_budget (head_block_num blocks_to_maint : Nat) : Except Fault Int :=
  let reward := get_asset_per_block_by_block_num head_block_num
  let (next_switch,next_reward) := get_next_reward_switch_block head_block_num
  if next_switch ≤ (head_block_num + 1 + blocks_to_maint) % 2^32 then
    let to_switch := ((next_switch : Int) - head_block_num - 1).bmod (2^64)
    do checked ((← checked (reward * to_switch)) + (next_reward * (blocks_to_maint - to_switch)).bmod (2^64))
  else
    checked (blocks_to_maint * reward)

/-- The part of `update_signing_miner` that pays. -/
def update_signing_miner (signing_miner : Nat) : M Unit := do
  let L ← get
  let dpo := L.properties
  let time_to_maint : Int := (dpo.next_maintenance_time : Int) - dpo.last_budget_time
  let blocks_in_interval : Nat :=
    ((time_to_maint % 2^64).toNat + L.parameters.block_interval - 1) / L.parameters.block_interval % 2^32
  let from_fees := if blocks_in_interval = 0 then 0 else dpo.miner_budget_from_fees.tdiv blocks_in_interval
  let miner_pay_from_fees := if from_fees < 0 then 0 else from_fees
  let miner_pay_from_reward := get_asset_per_block_by_block_num dpo.head_block_number
  let mined_rewards ← observe (checked (dpo.mined_rewards + miner_pay_from_reward))
  let unspent_fee_budget ← observe (checked (dpo.unspent_fee_budget - miner_pay_from_fees))
  modify fun L => { L with properties := { L.properties with
    mined_rewards := mined_rewards
    unspent_fee_budget := unspent_fee_budget } }
  let pay ← observe (checked (miner_pay_from_fees + miner_pay_from_reward))
  deposit_miner_pay signing_miner pay

/-! ### Contents and buyings run out -/

/-- The account that pays for an escrow below zero. -/
def decent6 : AccountId := 20

/-- The statistics of the seeders when a content is expired. -/
def forget_seeders (content : Content) : List AccountId → M Unit
  | [] => pure ()
  | seeder :: rest => do
    if (content.last_proof.find? seeder).isSome then
      modify_statistics seeder fun so => { so with
        total_content_seeded := so.total_content_seeded - content.seeded_size
        num_of_content_seeded := so.num_of_content_seeded - 1 }
    else
      modify_statistics seeder fun so => { so with
        total_content_requested_to_seed :=
          if 0 < so.total_content_requested_to_seed then so.total_content_requested_to_seed - 1
          else so.total_content_requested_to_seed }
    forget_seeders content rest

/-- `database::content_expire` -/
def content_expire (id : Nat) (content : Content) : M Unit := do
  let account := if 0 ≤ content.publishing_fee_escrow.amount then content.author else decent6
  adjust_balance account content.publishing_fee_escrow
  note_publishing (.refund id account content.publishing_fee_escrow)
  modify_content id fun co => { co with publishing_fee_escrow := { co.publishing_fee_escrow with amount := 0 } }
  forget_seeders content (content.key_parts.rows.map Prod.fst)
  push_applied_operation (.return_escrow_submission content.author content.publishing_fee_escrow id)

/-- What an ordered index holds between `lower_bound` and the last key allowed. -/
def scan {ν : Type} (key : ν → Nat) (lower upper : Nat) (rows : List (Nat × ν)) : List Nat :=
  ((((rows.insertionSort fun r s => key r.2 ≤ key s.2).dropWhile fun r => key r.2 < lower).takeWhile
    fun r => key r.2 ≤ upper).map Prod.fst)

def expire_contents : List Nat → M Unit
  | [] => pure ()
  | id :: rest => do
    match (← get).contents.find? id with
    | none => throw .end_iterator
    | some content => content_expire id content
    expire_contents rest

def expire_buyings : List Nat → M Unit
  | [] => pure ()
  | id :: rest => do
    match (← get).buyings.find? id with
    | none => throw .end_iterator
    | some buying =>
      if buying.delivered = false then
        buying_expire id buying
    expire_buyings rest

section
open Throwing
variable {id : Nat} {rest : List Nat} {L L' : Ledger} {u : Unit}

/-- The scan is at a content, and goes on behind it. -/
theorem expire_contents_cons_ok (ran : EStateM.run (expire_contents (id :: rest)) L = .ok u L') :
    ∃ content L₁, L.contents.find? id = some content ∧ EStateM.run (content_expire id content) L = .ok () L₁ ∧
      EStateM.run (expire_contents rest) L₁ = .ok u L' := by
  unfold expire_contents at ran
  rw [run_get_bind] at ran
  cases found : L.contents.find? id with
  | none =>
    rw [found] at ran
    cases ran
  | some content =>
    rw [found] at ran
    obtain ⟨_,L₁,expired,ran⟩ := run_bind_ok.mp ran
    exact ⟨content,L₁,rfl,expired,ran⟩

/-- A buying that was delivered is passed over. -/
theorem expire_buyings_cons_ok (ran : EStateM.run (expire_buyings (id :: rest)) L = .ok u L') :
    ∃ b, L.buyings.find? id = some b ∧ (b.delivered ≠ false ∧ EStateM.run (expire_buyings rest) L = .ok u L' ∨
      b.delivered = false ∧ ∃ L₁, EStateM.run (buying_expire id b) L = .ok () L₁ ∧
        EStateM.run (expire_buyings rest) L₁ = .ok u L') := by
  unfold expire_buyings at ran
  rw [run_get_bind] at ran
  cases found : L.buyings.find? id with
  | none =>
    rw [found] at ran
    cases ran
  | some b =>
    rw [found] at ran
    dsimp only at ran
    refine ⟨b,rfl,?_⟩
    split at ran
    case isTrue undelivered =>
      obtain ⟨_,L₁,expired,ran⟩ := run_bind_ok.mp ran
      exact .inr ⟨undelivered,L₁,expired,ran⟩
    case isFalse delivered => exact .inl ⟨delivered,ran⟩

end

/-! ### Renewals -/

/-- `database::renew_subscription` -/
def renew_subscription (s : Subscription) (subscription_period : Nat) (price : Asset) : M Unit := do
  modify_subscription s.id fun so => { so with expiration := later so.expiration (period_in_secs subscription_period) }
  adjust_balance s.from_account (← observe price.negate)
  adjust_balance s.to_account price
  push_applied_operation (.renewal_of_subscription s.from_account s.id)

/-- `database::disallow_automatic_renewal_of_subscription` -/
def disallow_renewal (s : Subscription) : M Unit := do
  modify_subscription s.id fun so => { so with automatic_renewal := false }
  push_applied_operation (.disallow_automatic_renewal_of_subscription s.from_account s.id)

/-- The `try` block of the renewal. -/
def try_renewal (s : Subscription) (options : AccountOptions) : M Unit := do
  let ao ← observe (get_asset options.price_per_subscribe.asset_id)
  let dct_price ← observe (subscription_price options.price_per_subscribe ao)
  let balance ← observe (get_balance s.from_account dct_price.asset_id)
  let covered ← observe (dct_price.at_most balance)
  if covered then
    renew_subscription s options.subscription_period dct_price
  else
    disallow_renewal s

/-- One subscription that is due: only a failed assertion is caught. -/
def settle_renewal (s : Subscription) : M Unit := do
  match (← get).accounts.find? s.to_account with
  | none => throw .end_iterator
  | some author =>
    tryCatch (try_renewal s author.options) fun e =>
      if e = .assert_exception then disallow_renewal s else throw e

/-- The element behind `id` in the index. -/
def successor (order : List Subscription) (id : Nat) : Option Nat :=
  (order.dropWhile fun s => s.id ≠ id).tail.head?.map (·.id)

/-- The loop over `by_renewal`; the iterator stands at a subscription or at the end. -/
def renewals (next_maintenance_time : Nat) : Nat → Option Nat → M Unit
  | 0, _ => pure ()
  | _ + 1, none => pure ()
  | fuel + 1, some id => do
    match (← get).subscriptions.find? id with
    | none => pure ()
    | some s =>
      if s.automatic_renewal then
        if s.expiration ≤ next_maintenance_time then
          settle_renewal s
        renewals next_maintenance_time fuel (successor (← get).subscriptions.order id)
      else
        pure ()

/-- Every step of the loop moves the iterator on, so it ends within the length of the
    index. -/
def renew_subscriptions (next_maintenance_time : Nat) : M Unit := do
  let order := (← get).subscriptions.order
  renewals next_maintenance_time order.length (order.head?.map (·.id))

/-! ### Maintenance -/

/-- The end of the interval after the one that ends now. -/
def next_time (dpo : DynamicProperties) (maintenance_interval : Nat) : Nat :=
  if dpo.head_block_number = 1 then
    (dpo.time / maintenance_interval + 1) * maintenance_interval % 2^32
  else
    let y := ((dpo.time : Int) - dpo.next_maintenance_time).tdiv maintenance_interval
    ((dpo.next_maintenance_time + (y + 1) * maintenance_interval) % 2^32).toNat

/-- The counters that `set_and_reset_seeding_stats` starts anew. -/
def reset_seeding_stats : M Unit :=
  modify fun L => { L with
    statistics := L.statistics.mapValues fun so => { so with
      missed_delivered_keys := 0
      total_delivered_keys := 0
      total_content_requested_to_seed := 0
      num_of_pors := 0 }
    counted_from := L.buyings.next }

def decent_housekeeping : M Unit := do
  reset_seeding_stats
  let L ← get
  let lower := later L.properties.last_budget_time L.parameters.block_interval
  expire_contents (scan Content.expiration lower L.properties.time L.contents.table.rows)
  let L ← get
  expire_buyings (scan Buying.expiration_time lower L.properties.time L.buyings.table.rows)
  let L ← get
  let maintenance_interval := (L.pending_parameters.getD L.parameters).maintenance_interval
  renew_subscriptions (next_time L.properties maintenance_interval)

/-- `GRAPHENE_PROXY_TO_SELF_ACCOUNT` -/
def proxy_to_self_account : AccountId := 3

/-- The vote tally reads the account that votes in place of each account. -/
def tally_votes : Reads Unit := do
  let L ← read
  fc_assert (L.accounts.table.rows.all (fun row =>
    row.2.options.voting_account = proxy_to_self_account || (L.accounts.find? row.2.options.voting_account).isSome) = true)

/-- A running sum of `share_type`. -/
def sum_checked : List Int → Int → Except Fault Int
  | [], total => .ok total
  | v :: rest, total => do sum_checked rest (← checked (total + v))

structure RealSupply where
  account_balances : Int
  vesting_balances : Int
  escrows : Int
  pools : Int

def RealSupply.total (r : RealSupply) : Except Fault Int := do
  checked ((← checked ((← checked (r.account_balances + r.vesting_balances)) + r.escrows)) + r.pools)

/-- `database::get_real_supply`; only the first walk looks at the asset. -/
def get_real_supply : Reads RealSupply := do
  let L ← read
  let account_balances ←
    sum_checked ((L.balances.rows.filter fun row => row.1.2 = core).map fun row => row.2.balance) 0
  let vesting_balances ← sum_checked (L.vestings.table.rows.map fun row => row.2.balance.amount) 0
  let publishing ← sum_checked (L.contents.table.rows.map fun row => row.2.publishing_fee_escrow.amount) 0
  let escrows ← sum_checked (L.buyings.table.rows.map fun row => row.2.price.amount) publishing
  let pools ← sum_checked (L.assets.table.rows.map fun row => row.2.dynamic.core_pool) 0
  return ⟨account_balances,vesting_balances,escrows,pools⟩

/-- `database::process_budget`; the supply it computed and the one it counted are compared
    by an `assert` of debug builds only. -/
def process_budget : M Unit := do
  let L ← get
  let dpo := L.properties
  let core_asset ← observe (get_asset core)
  let time_to_maint : Int := (dpo.next_maintenance_time : Int) - dpo.time
  let blocks_to_maint : Nat :=
    ((((time_to_maint % 2^64).toNat + L.parameters.block_interval - 1) / L.parameters.block_interval -
      (L.parameters.maintenance_skip_slots : Int)) % 2^32).toNat
  let _ ← observe (checked (core_asset.options.max_supply - core_asset.dynamic.current_supply))
  let from_accumulated_fees ← observe (checked (core_asset.dynamic.asset_pool + dpo.unspent_fee_budget))
  let _ ← observe get_real_supply
  let planned_for_mining ← observe (get_miner_budget dpo.head_block_number blocks_to_maint)
  let _ ← observe (checked (planned_for_mining + from_accumulated_fees))
  let generated ← observe (checked (dpo.mined_rewards + dpo.miner_budget_from_fees))
  let generated_in_last_interval ← observe (checked (generated - dpo.unspent_fee_budget))
  let supply_delta ← observe (checked (generated_in_last_interval - core_asset.dynamic.asset_pool))
  modify_dynamic core fun d => do
    let current_supply ← checked (d.current_supply + supply_delta)
    return { d with current_supply := current_supply, asset_pool := 0 }
  modify fun L => { L with properties := { L.properties with
    miner_budget_from_fees := from_accumulated_fees
    miner_budget_from_rewards := planned_for_mining
    unspent_fee_budget := from_accumulated_fees
    mined_rewards := 0
    last_budget_time := L.properties.time } }

/-- `database::perform_chain_maintenance`; the miners it elects hold no money. -/
def perform_chain_maintenance : M Unit := do
  observe tally_votes
  decent_housekeeping
  modify fun L => { L with parameters := L.pending_parameters.getD L.parameters, pending_parameters := none }
  let L ← get
  if L.properties.next_maintenance_time ≤ L.properties.time then
    modify fun L => { L with properties := { L.properties with
      next_maintenance_time := next_time L.properties L.parameters.maintenance_interval } }
  process_budget

end Decent.Money

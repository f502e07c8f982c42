import Decent.Ledger

/-!
The functions of the database that move money: balances, the pools of an asset and
the conversions that go through them, vesting deposits. Beside each stands what it
does to the ledger when it returns and, for balances, when it throws.
-/
namespace Decent.Money
open Throwing

/-! ### Balances -/

def get_balance (owner : AccountId) (asset_id : AssetId) : Reads Asset := do
  match (← read).balances.find? (owner,asset_id) with
  | none => return ⟨0,asset_id⟩
  | some b => return ⟨b.balance,asset_id⟩

/-- The balance as a number. -/
def Ledger.balance (L : Ledger) (owner : AccountId) (asset_id : AssetId) : Int :=
  (L.balances.find? (owner,asset_id)).elim 0 (·.balance)

theorem Ledger.balance_range (L : Ledger) (owner : AccountId) (asset_id : AssetId) :
    0 ≤ L.balance owner asset_id ∧ L.balance owner asset_id < 2^63 := by
  unfold Ledger.balance
  cases L.balances.find? (owner,asset_id) with
  | none => decide
  | some b => exact ⟨b.nonneg,b.fits⟩

theorem get_balance_eq (L : Ledger) (owner : AccountId) (asset_id : AssetId) :
    get_balance owner asset_id L = .ok ⟨L.balance owner asset_id,asset_id⟩ := by
  unfold Ledger.balance
  show (match L.balances.find? (owner,asset_id) with
    | none => (pure ⟨0,asset_id⟩ : Reads Asset)
    | some b => pure ⟨b.balance,asset_id⟩) L = _
  cases L.balances.find? (owner,asset_id) <;> rfl

/-- Write a balance. A negative one is refused before this is reached. -/
def store_balance (owner : AccountId) (asset_id : AssetId) (balance : Int) : M Unit :=
  if inRange : 0 ≤ balance ∧ balance < 2^63 then
    modify fun L => { L with balances := L.balances.put (owner,asset_id) ⟨balance,inRange.1,inRange.2⟩ }
  else
    throw .overflow_exception

def adjust_balance (account : AccountId) (delta : Asset) : M Unit := do
  if delta.amount = 0 then
    return
  match (← get).balances.find? (account,delta.asset_id) with
  | none =>
    observe (fc_assert (0 < delta.amount))
    store_balance account delta.asset_id delta.amount
  | some b =>
    if delta.amount < 0 then
      let needed ← observe delta.negate
      let covered ← observe ((⟨b.balance,delta.asset_id⟩ : Asset).at_least needed)
      observe (fc_assert (covered = true))
    store_balance account delta.asset_id (b.balance + delta.amount)

/-- The ledger after a balance was written. -/
def Ledger.with_balance (L : Ledger) (owner : AccountId) (asset_id : AssetId) (b : AccountBalance) : Ledger :=
  { L with balances := L.balances.put (owner,asset_id) b }

theorem run_store_balance (L : Ledger) (owner : AccountId) (asset_id : AssetId) {balance : Int}
    (inRange : 0 ≤ balance ∧ balance < 2^63) :
    EStateM.run (store_balance owner asset_id balance) L =
      .ok () (L.with_balance owner asset_id ⟨balance,inRange.1,inRange.2⟩) := by
  rw [store_balance,dif_pos inRange]
  rfl

theorem run_store_balance_overflow (L : Ledger) (owner : AccountId) (asset_id : AssetId) {balance : Int}
    (outside : ¬ (0 ≤ balance ∧ balance < 2^63)) :
    EStateM.run (store_balance owner asset_id balance) L = .error .overflow_exception L := by
  rw [store_balance,dif_neg outside]
  rfl

/-- `adjust_balance` in one expression. -/
theorem run_adjust_balance (L : Ledger) (account : AccountId) (x : Asset) (fits : -x.amount < 2^63) :
    EStateM.run (adjust_balance account x) L =
      if x.amount = 0 then .ok () L
      else if inRange : 0 ≤ L.balance account x.asset_id + x.amount ∧ L.balance account x.asset_id + x.amount < 2^63 then
        .ok () (L.with_balance account x.asset_id ⟨_,inRange.1,inRange.2⟩)
      else if x.amount < 0 then .error .assert_exception L
      else .error .overflow_exception L := by
  by_cases zero : x.amount = 0
  · simp [adjust_balance,zero]
  rw [if_neg zero]
  cases found : L.balances.find? (account,x.asset_id) with
  | none =>
    have empty : L.balance account x.asset_id = 0 := by simp [Ledger.balance,found]
    simp only [adjust_balance,if_neg zero,EStateM.run_bind,EStateM.run_get,found,empty,Int.zero_add]
    by_cases negative : x.amount < 0
    · rw [run_observe_error (show _ = Except.error Fault.assert_exception from if_neg (by omega)),dif_neg (by omega),
        if_pos negative]
    · rw [run_observe_ok (show _ = Except.ok () from if_pos (by omega))]
      by_cases inRange : 0 ≤ x.amount ∧ x.amount < 2^63
      · rw [dif_pos inRange]
        exact run_store_balance L account x.asset_id inRange
      · rw [dif_neg inRange,if_neg negative]
        exact run_store_balance_overflow L account x.asset_id inRange
  | some b =>
    have held : L.balance account x.asset_id = b.balance := by simp [Ledger.balance,found]
    have least := b.nonneg
    simp only [adjust_balance,if_neg zero,EStateM.run_bind,EStateM.run_get,found,held]
    by_cases negative : x.amount < 0
    · rw [if_pos negative]
      have negated : x.negate = .ok ⟨-x.amount,x.asset_id⟩ := Asset.negate_ok.mpr ⟨⟨by omega,fits⟩,rfl⟩
      have compared := Asset.at_least_same (x := ⟨b.balance,x.asset_id⟩) (y := ⟨-x.amount,x.asset_id⟩) rfl
      rw [EStateM.run_bind,run_observe_ok (show _ = Except.ok _ from negated)]
      dsimp only
      rw [EStateM.run_bind,run_observe_ok (show _ = Except.ok _ from compared)]
      dsimp only
      by_cases covered : -x.amount ≤ b.balance
      · have inRange : 0 ≤ b.balance + x.amount ∧ b.balance + x.amount < 2^63 := ⟨by omega,by have := b.fits; omega⟩
        rw [EStateM.run_bind,run_observe_ok (show _ = Except.ok () from if_pos (decide_eq_true covered)),dif_pos inRange]
        exact run_store_balance L account x.asset_id inRange
      · rw [EStateM.run_bind,run_observe_error (show _ = Except.error Fault.assert_exception from
          if_neg (by simpa using covered)),dif_neg (by omega),if_pos negative]
    · rw [if_neg negative]
      by_cases inRange : 0 ≤ b.balance + x.amount ∧ b.balance + x.amount < 2^63
      · rw [dif_pos inRange]
        exact run_store_balance L account x.asset_id inRange
      · rw [dif_neg inRange,if_neg negative]
        exact run_store_balance_overflow L account x.asset_id inRange

/-- The one amount whose negation is no `int64_t` is never debited. -/
theorem run_adjust_balance_min (L : Ledger) (account : AccountId) (x : Asset) (large : ¬ -x.amount < 2^63) :
    ∃ e, (e = .assert_exception ∨ e = .overflow_exception) ∧ EStateM.run (adjust_balance account x) L = .error e L := by
  have zero : ¬ x.amount = 0 := by omega
  cases found : L.balances.find? (account,x.asset_id) with
  | none =>
    refine ⟨.assert_exception,.inl rfl,?_⟩
    simp only [adjust_balance,if_neg zero,EStateM.run_bind,EStateM.run_get,found]
    rw [run_observe_error (show _ = Except.error Fault.assert_exception from if_neg (by omega))]
  | some b =>
    refine ⟨.overflow_exception,.inr rfl,?_⟩
    have negated : x.negate = .error .overflow_exception := by
      simp only [Asset.negate,checked,if_neg (show ¬ Fits (-x.amount) from fun fits => large fits.2)]
      rfl
    simp only [adjust_balance,if_neg zero,EStateM.run_bind,EStateM.run_get,found,if_pos (show x.amount < 0 by omega)]
    rw [run_observe_error (show _ = Except.error Fault.overflow_exception from negated)]

/-- What `adjust_balance` did when it returned. -/
theorem adjust_balance_ok {L L' : Ledger} {account : AccountId} {x : Asset} {u : Unit}
    (ran : EStateM.run (adjust_balance account x) L = .ok u L') :
    x.amount = 0 ∧ L' = L ∨
      ∃ b : AccountBalance, b.balance = L.balance account x.asset_id + x.amount ∧
        L' = L.with_balance account x.asset_id b := by
  by_cases fits : -x.amount < 2^63
  · rw [run_adjust_balance L account x fits] at ran
    split at ran
    case isTrue zero => cases ran; exact .inl ⟨zero,rfl⟩
    case isFalse =>
      split at ran
      case isTrue inRange => cases ran; exact .inr ⟨_,rfl,rfl⟩
      case isFalse => split at ran <;> cases ran
  · obtain ⟨e,-,threw⟩ := run_adjust_balance_min L account x fits
    rw [threw] at ran
    cases ran

/-- What `adjust_balance` found when it threw; it has not changed anything. -/
theorem adjust_balance_error {L L' : Ledger} {account : AccountId} {x : Asset} {e : Fault} (fits : -x.amount < 2^63)
    (ran : EStateM.run (adjust_balance account x) L = .error e L') :
    L' = L ∧ (e = .assert_exception ∧ L.balance account x.asset_id + x.amount < 0 ∨
      e = .overflow_exception ∧ 2^63 ≤ L.balance account x.asset_id + x.amount) := by
  rw [run_adjust_balance L account x fits] at ran
  split at ran
  case isTrue => cases ran
  case isFalse zero =>
    split at ran
    case isTrue => cases ran
    case isFalse outside =>
      have held : 0 ≤ L.balance account x.asset_id ∧ L.balance account x.asset_id < 2^63 := L.balance_range _ _
      split at ran
      case isTrue negative => cases ran; exact ⟨rfl,.inl ⟨rfl,by omega⟩⟩
      case isFalse => cases ran; exact ⟨rfl,.inr ⟨rfl,by omega⟩⟩

/-- Whatever the amount, it throws nothing else. -/
theorem adjust_balance_throws {L L' : Ledger} {account : AccountId} {x : Asset} {e : Fault}
    (ran : EStateM.run (adjust_balance account x) L = .error e L') : e = .assert_exception ∨ e = .overflow_exception := by
  by_cases fits : -x.amount < 2^63
  · exact (adjust_balance_error fits ran).2.imp And.left And.left
  · obtain ⟨e',mild,threw⟩ := run_adjust_balance_min L account x fits
    rw [threw] at ran
    cases ran
    exact mild

/-- Nothing but balances. -/
theorem adjust_balance_frame {L L' : Ledger} {account : AccountId} {x : Asset} {u : Unit}
    (ran : EStateM.run (adjust_balance account x) L = .ok u L') : L' = { L with balances := L'.balances } := by
  rcases adjust_balance_ok ran with ⟨_,rfl⟩ | ⟨b,_,rfl⟩
  · rfl
  · rfl

theorem balance_with_balance (L : Ledger) (owner account : AccountId) (asset_id a : AssetId) (b : AccountBalance) :
    (L.with_balance owner asset_id b).balance account a =
      if account = owner ∧ a = asset_id then b.balance else L.balance account a := by
  simp only [Ledger.balance,Ledger.with_balance,Table.find?_put,Prod.mk.injEq]
  split <;> rfl

/-- Exactly one balance moves, by exactly the amount. -/
theorem balance_adjust_balance {L L' : Ledger} {account : AccountId} {x : Asset} {u : Unit}
    (ran : EStateM.run (adjust_balance account x) L = .ok u L') (owner : AccountId) (a : AssetId) :
    L'.balance owner a = L.balance owner a + if owner = account then x.part a else 0 := by
  rcases adjust_balance_ok ran with ⟨zero,rfl⟩ | ⟨b,new,rfl⟩
  · simp [Asset.part,zero]
  · rw [balance_with_balance]
    by_cases same : owner = account ∧ a = x.asset_id
    · obtain ⟨rfl,rfl⟩ := same
      simp [Asset.part,new]
    · rw [if_neg same,Asset.part]
      by_cases here : owner = account
      · have other : ¬ x.asset_id = a := fun equal => same ⟨here,equal.symm⟩
        simp [here,other]
      · simp [here]

/-! ### Assets and their pools -/

def get_asset (id : AssetId) : Reads AssetObject := do
  match (← read).assets.find? id with
  | some a => return a
  | none => throw .assert_exception

theorem get_asset_ok {id : AssetId} {a : AssetObject} {L : Ledger} :
    get_asset id L = .ok a ↔ L.assets.find? id = some a := by
  unfold get_asset
  rw [reads_read]
  cases L.assets.find? id with
  | none =>
    constructor
    · intro read; cases read
    · intro found; cases found
  | some b =>
    show (pure b : Reads AssetObject) L = .ok a ↔ _
    rw [reads_pure,Option.some.injEq]

theorem get_asset_none {id : AssetId} {L : Ledger} (missing : L.assets.find? id = none) :
    get_asset id L = .error .assert_exception := by
  unfold get_asset
  rw [read_bind,missing]
  rfl

/-- `modify( dynamic_data, … )` -/
def modify_dynamic (id : AssetId) (f : DynamicData → Except Fault DynamicData) : M Unit := do
  let a ← observe (get_asset id)
  let d ← observe (f a.dynamic)
  modify fun L => { L with assets := L.assets.update id fun a => { a with dynamic := d } }

def convert_uia (id : AssetId) (amount : Asset) : M Asset := do
  let ao ← observe (get_asset id)
  observe (fc_assert (ao.options.is_exchangeable ∧ ao.options.core_exchange_rate.is_null = false))
  let rate := ao.options.core_exchange_rate
  if amount.asset_id = id then
    let converted ← observe (rate.times amount)
    let core_pool_diff ← observe converted.negate
    change_pools id amount.amount core_pool_diff.amount
    return converted
  else
    observe (fc_assert (amount.asset_id = core))
    let converted ← observe (rate.times amount)
    let asset_pool_diff ← observe converted.negate
    change_pools id asset_pool_diff.amount amount.amount
    return converted
where
  change_pools (id : AssetId) (asset_pool_diff core_pool_diff : Int) : M Unit :=
    modify_dynamic id fun add => do
      let asset_pool ← checked (add.asset_pool + asset_pool_diff)
      fc_assert (0 ≤ asset_pool)
      let core_pool ← checked (add.core_pool + core_pool_diff)
      fc_assert (0 ≤ core_pool)
      return { add with asset_pool := asset_pool, core_pool := core_pool }

def convert_mia (id : AssetId) (amount : Asset) : Reads Asset := do
  let ao ← get_asset id
  match ao.monitored_asset_opts with
  | none => throw .assert_exception
  | some m =>
    fc_assert (m.feed_is_valid (← read).properties.time = true)
    fc_assert (amount.asset_id = core ∨ amount.asset_id = id)
    m.current_feed.times amount

/-- `asset_object::convert`: from this asset to the core asset or back. -/
def convert (id : AssetId) (amount : Asset) : M Asset := do
  let ao ← observe (get_asset id)
  if id = core then
    observe (fc_assert (amount.asset_id = core))
    return amount
  else if ao.is_monitored_asset then
    observe (convert_mia id amount)
  else
    convert_uia id amount

/-- `asset_object::can_convert`; the converted amount, if it can. -/
def can_convert (id : AssetId) (amount : Asset) : Reads (Option Asset) := do
  let ao ← get_asset id
  if id = core then
    return if amount.asset_id = core then some amount else none
  if ao.options.is_exchangeable = false ∨ ao.options.core_exchange_rate.is_null = true then
    return none
  match ao.monitored_asset_opts with
  | some m =>
    if m.feed_is_valid (← read).properties.time = true ∧ (amount.asset_id = core ∨ amount.asset_id = id) then
      return some (← m.current_feed.times amount)
    else
      return none
  | none =>
    let rate := ao.options.core_exchange_rate
    if amount.asset_id = id then
      let converted ← rate.times amount
      enough ao.dynamic converted amount.amount (← converted.negate).amount
    else if amount.asset_id ≠ core then
      return none
    else
      let converted ← rate.times amount
      enough ao.dynamic converted (← converted.negate).amount amount.amount
where
  enough (add : DynamicData) (converted : Asset) (asset_pool_diff core_pool_diff : Int) : Reads (Option Asset) := do
    let asset_pool ← checked (add.asset_pool + asset_pool_diff)
    if asset_pool < 0 then
      return none
    let core_pool ← checked (add.core_pool + core_pool_diff)
    return if core_pool < 0 then none else some converted

def are_assets_exchangeable (payment_id : AssetId) (payment : AssetObject) (price_id : AssetId) (price : AssetObject) :
    Bool :=
  if payment.is_monitored_asset then false
  else if payment_id = price_id then true
  else if !price.is_monitored_asset && payment_id ≠ core && price_id ≠ core then false
  else payment.options.is_exchangeable && price.options.is_exchangeable

/-! ### Vesting balances -/

def uint128 (v : Int) : Int := v % 2^128

/-- `cdd_vesting_policy::compute_coin_seconds_earned` -/
def compute_coin_seconds_earned (vesting_seconds : Nat) (coin_seconds_earned : Int) (last_update : Nat)
    (balance : Int) (now : Nat) : Int :=
  let delta_coin_seconds := uint128 (uint128 balance * uint128 (now - last_update))
  let coin_seconds_earned_cap := uint128 (uint128 balance * (max vesting_seconds 1 : Nat))
  min (uint128 (coin_seconds_earned + delta_coin_seconds)) coin_seconds_earned_cap

/-- `get_allowed_withdraw` of both policies. -/
def VestingPolicy.get_allowed_withdraw (policy : VestingPolicy) (balance amount : Asset) (now : Nat) :
    Except Fault Asset :=
  match policy with
  | .linear begin_timestamp vesting_cliff_seconds vesting_duration_seconds begin_balance =>
    if begin_timestamp < now ∧ vesting_cliff_seconds ≤ now - begin_timestamp then do
      let elapsed_seconds : Nat := now - begin_timestamp
      let total_vested :=
        if elapsed_seconds < vesting_duration_seconds then
          uint128 (uint128 begin_balance * elapsed_seconds) / vesting_duration_seconds
        else begin_balance
      let withdrawn_already ← checked (begin_balance - balance.amount)
      let allowed_withdraw ← checked (total_vested - withdrawn_already)
      return ⟨allowed_withdraw,amount.asset_id⟩
    else
      .ok ⟨0,amount.asset_id⟩
  | .cdd vesting_seconds start_claim coin_seconds_earned last_update =>
    if now ≤ start_claim then
      .ok ⟨0,balance.asset_id⟩
    else
      .ok ⟨compute_coin_seconds_earned vesting_seconds coin_seconds_earned last_update balance.amount now /
        (max vesting_seconds 1 : Nat),balance.asset_id⟩

def VestingBalance.is_withdraw_allowed (v : VestingBalance) (now : Nat) (amount : Asset) : Except Fault Bool :=
  match v.policy with
  | .linear .. =>
    if amount.asset_id = v.balance.asset_id then do
      amount.at_most (← v.policy.get_allowed_withdraw v.balance amount now)
    else
      .ok false
  | .cdd .. => do amount.at_most (← v.policy.get_allowed_withdraw v.balance amount now)

def VestingPolicy.on_deposit (policy : VestingPolicy) (balance : Int) (now : Nat) : VestingPolicy :=
  match policy with
  | .linear .. => policy
  | .cdd vesting_seconds start_claim coin_seconds_earned last_update =>
    .cdd vesting_seconds start_claim
      (compute_coin_seconds_earned vesting_seconds coin_seconds_earned last_update balance now) now

def VestingPolicy.on_withdraw (policy : VestingPolicy) (balance amount : Int) (now : Nat) : VestingPolicy :=
  match policy with
  | .linear .. => policy
  | .cdd vesting_seconds start_claim coin_seconds_earned last_update =>
    let earned := compute_coin_seconds_earned vesting_seconds coin_seconds_earned last_update balance now
    .cdd vesting_seconds start_claim (uint128 (earned - uint128 (uint128 amount * (max vesting_seconds 1 : Nat)))) now

def get_vesting (id : Nat) : Reads VestingBalance := do
  match (← read).vestings.find? id with
  | some v => return v
  | none => throw .assert_exception

theorem get_vesting_ok {id : Nat} {L : Ledger} {v : VestingBalance} :
    get_vesting id L = .ok v ↔ L.vestings.find? id = some v := by
  rw [get_vesting,reads_read]
  cases L.vestings.find? id with
  | none => simp [throw,throwThe,MonadExceptOf.throw]
  | some w => simp [pure,ReaderT.pure,Except.pure]

/-- `vesting_balance_object::deposit` -/
def deposit (id : Nat) (amount : Asset) : M Unit := do
  let v ← observe (get_vesting id)
  let balance ← observe (v.balance.add amount)
  let now := (← get).properties.time
  modify fun L => { L with vestings := L.vestings.update id fun v =>
    { v with balance := balance, policy := v.policy.on_deposit v.balance.amount now } }

/-- `vesting_balance_object::withdraw` -/
def withdraw (id : Nat) (amount : Asset) : M Unit := do
  let v ← observe (get_vesting id)
  let balance ← observe (v.balance.sub amount)
  let now := (← get).properties.time
  modify fun L => { L with vestings := L.vestings.update id fun v =>
    { v with balance := balance, policy := v.policy.on_withdraw v.balance.amount amount.amount now } }

/-- Create a vesting balance; its number is returned. -/
def create_vesting (v : VestingBalance) : M Nat := do
  let id := (← get).vestings.next
  modify fun L => { L with vestings := L.vestings.create v }
  return id

/-- Whether `deposit_lazy_vesting` may add to this object. -/
def accepts_deposit (v : VestingBalance) (req_vesting_seconds : Nat) (req_owner : AccountId) : Bool :=
  match v.policy with
  | .linear .. => false
  | .cdd vesting_seconds .. => v.owner = req_owner && vesting_seconds = req_vesting_seconds

/-- `deposit_lazy_vesting` of core, with `require_vesting`; the new object's number, if there
    is one. -/
def deposit_lazy_vesting (ovbid : Option Nat) (amount : Int) (req_vesting_seconds : Nat) (req_owner : AccountId) :
    M (Option Nat) := do
  if amount = 0 then
    return none
  match ovbid with
  | none => fresh
  | some vbid =>
    let vbo ← observe (get_vesting vbid)
    if accepts_deposit vbo req_vesting_seconds req_owner then
      deposit vbid ⟨amount,core⟩
      return none
    else
      fresh
where
  fresh : M (Option Nat) := do
    let now := (← get).properties.time
    let id ← create_vesting {
      owner := req_owner
      balance := ⟨amount,core⟩
      policy := .cdd req_vesting_seconds 0 0 now }
    return some id

def deposit_miner_pay (miner : Nat) (amount : Int) : M Unit := do
  if amount = 0 then
    return
  let L ← get
  match L.miners.find? miner with
  | none => throw .assert_exception
  | some wit =>
    let new_vbid ← deposit_lazy_vesting wit.pay_vb amount L.parameters.miner_pay_vesting_seconds wit.miner_account
    if new_vbid.isSome then
      modify fun L => { L with miners := L.miners.update miner fun w => { w with pay_vb := new_vbid } }

def push_applied_operation (op : VirtualOperation) : M Unit :=
  modify fun L => { L with applied := op :: L.applied }

end Decent.Money

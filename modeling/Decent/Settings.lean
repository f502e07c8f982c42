import Decent.Terms

/-!
The operations that change what others go by: what a seeder offers, the options of an asset,
the feeds of a monitored one. Each is an `other` operation; what it validates and evaluates
reads nothing that paying its fee writes, and stands here before what it applies. Beside them
is what the chain does with the feeds at the end of a block.
-/
namespace Decent.Money
open Throwing

def HARDFORK_1_TIME : Nat := 1510228800
def HARDFORK_3_TIME : Nat := 1536825600

/-! ### Feeds -/

/-- `operator <` of prices -/
def Price.less (a b : Price) : Bool :=
  if a.base.asset_id < b.base.asset_id then true
  else if b.base.asset_id < a.base.asset_id then false
  else if a.quote.asset_id < b.quote.asset_id then true
  else if b.quote.asset_id < a.quote.asset_id then false
  else product128 b.quote.amount a.base.amount < product128 a.quote.amount b.base.amount

/-- `price_feed()` -/
def null_feed : Price := ⟨⟨0,core⟩,⟨0,core⟩⟩

/-- The feeds that take part in the median, with the times of their publication. -/
def MonitoredAssetOptions.unexpired (m : MonitoredAssetOptions) (current_time : Nat) : List (Nat × Price) :=
  (m.feeds.rows.map Prod.snd).filter fun f => (current_time : Int) - f.1 < m.feed_lifetime_sec ∧ f.1 ≠ 0

/-- What `nth_element` leaves at half of the size. -/
def median_of (feeds : List Price) : Price :=
  (feeds.insertionSort fun a b => b.less a = false).getD (feeds.length / 2) null_feed

def MonitoredAssetOptions.update_median_feeds (m : MonitoredAssetOptions) (current_time : Nat) : MonitoredAssetOptions :=
  let current_feeds := m.unexpired current_time
  if current_feeds.length < m.minimum_feeds then
    { m with current_feed_publication_time := current_time, current_feed := null_feed }
  else
    { m with
      current_feed_publication_time := (current_feeds.map Prod.fst).foldl min current_time
      current_feed :=
        match current_feeds with
        | [single] => single.2
        | _ => median_of (current_feeds.map Prod.snd) }

def MonitoredAssetOptions.feed_is_expired (m : MonitoredAssetOptions) (current_time : Nat) : Bool :=
  later m.current_feed_publication_time m.feed_lifetime_sec ≤ current_time

/-! ### The operations -/

/-- `ready_to_publish` and `ready_to_publish2` differ in the region, which nothing here reads. -/
structure ReadyToPublishOperation where
  fee : Asset
  seeder : AccountId
  space : UInt64
  price_per_MByte : UInt32
  ipfs_ID : String

structure UpdateUserIssuedAssetOperation where
  fee : Asset
  issuer : AccountId
  asset_to_update : AssetId
  new_issuer : Option AccountId
  max_supply : UInt64
  core_exchange_rate : Price
  is_exchangeable : Bool

structure UpdateUserIssuedAssetAdvancedOperation where
  fee : Asset
  issuer : AccountId
  asset_to_update : AssetId
  new_precision : Nat
  set_fixed_max_supply : Bool

structure UpdateMonitoredAssetOperation where
  fee : Asset
  issuer : AccountId
  asset_to_update : AssetId
  new_feed_lifetime_sec : Nat
  new_minimum_feeds : Nat

/-- The amounts of the rate are `int64_t`. -/
structure AssetPublishFeedOperation where
  fee : Asset
  publisher : AccountId
  asset_id : AssetId
  core_exchange_rate : Price
  fits : Fits core_exchange_rate.base.amount ∧ Fits core_exchange_rate.quote.amount

/-- `active` are the accounts in the active authority of account 0, which may publish feeds. -/
inductive SettingsOperation
  | ready_to_publish (o : ReadyToPublishOperation)
  | ready_to_publish2 (o : ReadyToPublishOperation)
  | update_user_issued_asset (o : UpdateUserIssuedAssetOperation)
  | update_user_issued_asset_advanced (o : UpdateUserIssuedAssetAdvancedOperation)
  | update_monitored_asset (o : UpdateMonitoredAssetOperation)
  | asset_publish_feed (active : List AccountId) (o : AssetPublishFeedOperation)

/-! ### Seeders -/

def ReadyToPublishOperation.validate (o : ReadyToPublishOperation) : Bool := 0 < o.space && o.ipfs_ID ≠ ""

def ready_to_publish_apply (o : ReadyToPublishOperation) (L : Ledger) : Ledger :=
  let offer : Seeder := ⟨o.space.toNat,⟨o.price_per_MByte.toNat,core⟩⟩
  match L.seeders.find? o.seeder with
  | none => { L with
      statistics := L.statistics.put o.seeder ⟨0,0,0,0,0,0⟩
      seeders := L.seeders.put o.seeder offer }
  | some _ => { L with seeders := L.seeders.put o.seeder offer }

def ready_to_publish2_evaluate : Reads Unit := do
  fc_assert (HARDFORK_1_TIME ≤ (← head_block_time))

/-! ### User issued assets -/

def Ledger.modify_asset (L : Ledger) (id : AssetId) (f : AssetObject → AssetObject) : Ledger :=
  { L with assets := L.assets.update id f }

/-- An `uint64_t` as the `share_type` it is compared with and stored in. -/
def as_share (v : UInt64) : Int := (v.toNat : Int).bmod (2^64)

def UpdateUserIssuedAssetOperation.validate (o : UpdateUserIssuedAssetOperation) : Bool :=
  o.core_exchange_rate.validate && o.new_issuer ≠ some o.issuer &&
    match o.core_exchange_rate.times ⟨1,o.asset_to_update⟩ with
    | .ok dummy => dummy.asset_id = core
    | .error _ => false

def user_issued_asset_update_evaluate (o : UpdateUserIssuedAssetOperation) : Reads Unit := do
  let L ← read
  let a ← get_asset o.asset_to_update
  fc_assert (a.is_monitored_asset = false ∧ o.asset_to_update ≠ core)
  fc_assert (a.dynamic.current_supply ≤ as_share o.max_supply)
  fc_assert (o.new_issuer.all (fun issuer => (L.accounts.find? issuer).isSome) = true)
  fc_assert (a.options.fixed_max_supply = some true → as_share o.max_supply = a.options.max_supply)
  fc_assert (o.issuer = a.issuer)

def UpdateUserIssuedAssetOperation.write (o : UpdateUserIssuedAssetOperation) (a : AssetObject) : AssetObject :=
  { a with
    issuer := o.new_issuer.getD a.issuer
    options := { a.options with
      max_supply := as_share o.max_supply
      core_exchange_rate := o.core_exchange_rate
      is_exchangeable := o.is_exchangeable } }

def UpdateUserIssuedAssetAdvancedOperation.validate (o : UpdateUserIssuedAssetAdvancedOperation) : Bool :=
  o.new_precision ≤ 12

def update_user_issued_asset_advanced_evaluate (o : UpdateUserIssuedAssetAdvancedOperation) : Reads Unit := do
  let a ← get_asset o.asset_to_update
  fc_assert (HARDFORK_3_TIME < (← head_block_time))
  fc_assert (o.issuer = a.issuer)
  fc_assert (a.is_monitored_asset = false ∧ o.asset_to_update ≠ core)
  let set_precision := decide (o.new_precision ≠ a.precision)
  if set_precision then
    fc_assert ((← read).balances.rows.all (fun row => row.1.2 ≠ o.asset_to_update) = true)
  fc_assert (a.options.fixed_max_supply ≠ some true ∨ o.set_fixed_max_supply = false)
  fc_assert (set_precision = true ∨ o.set_fixed_max_supply = true)

/-- The extension is entered if there is none, and otherwise only ever set. -/
def UpdateUserIssuedAssetAdvancedOperation.write (o : UpdateUserIssuedAssetAdvancedOperation) (a : AssetObject) : AssetObject :=
  { a with
    precision := if o.new_precision ≠ a.precision then o.new_precision else a.precision
    options := { a.options with
      fixed_max_supply :=
        match a.options.fixed_max_supply with
        | none => some o.set_fixed_max_supply
        | some is_fixed => if o.set_fixed_max_supply then some true else some is_fixed } }

/-! ### Monitored assets -/

def monitored_asset_update_evaluate (o : UpdateMonitoredAssetOperation) : Reads Unit := do
  let a ← get_asset o.asset_to_update
  fc_assert (a.is_monitored_asset = true)
  fc_assert (o.issuer = a.issuer)

/-- A zero leaves the option; the feeds are not looked at. -/
def UpdateMonitoredAssetOperation.write (o : UpdateMonitoredAssetOperation) (m : MonitoredAssetOptions) :
    MonitoredAssetOptions :=
  { m with
    feed_lifetime_sec := if o.new_feed_lifetime_sec ≠ 0 then o.new_feed_lifetime_sec else m.feed_lifetime_sec
    minimum_feeds := if o.new_minimum_feeds ≠ 0 then o.new_minimum_feeds else m.minimum_feeds }

def AssetPublishFeedOperation.validate (o : AssetPublishFeedOperation) : Bool :=
  o.core_exchange_rate.quote.asset_id = core && !o.core_exchange_rate.is_null && o.core_exchange_rate.validate &&
    o.core_exchange_rate.base.asset_id = o.asset_id

def asset_publish_feeds_evaluate (active : List AccountId) (o : AssetPublishFeedOperation) : Reads Unit := do
  let a ← get_asset o.asset_id
  fc_assert (a.is_monitored_asset = true)
  fc_assert (active.contains o.publisher = true)
  fc_assert (o.core_exchange_rate.base.asset_id = core ∨ o.core_exchange_rate.quote.asset_id = core)
  fc_assert (o.core_exchange_rate.base.asset_id = o.asset_id ∨ o.core_exchange_rate.quote.asset_id = o.asset_id)

def AssetPublishFeedOperation.write (o : AssetPublishFeedOperation) (now : Nat) (m : MonitoredAssetOptions) :
    MonitoredAssetOptions :=
  ({ m with feeds := m.feeds.put o.publisher (now,o.core_exchange_rate) } : MonitoredAssetOptions).update_median_feeds now

/-- Change the options of a monitored asset. -/
def AssetObject.modify_monitored (a : AssetObject) (f : MonitoredAssetOptions → MonitoredAssetOptions) : AssetObject :=
  { a with monitored_asset_opts := a.monitored_asset_opts.map f }

/-- `database::update_expired_feeds`, at the end of every block. -/
def update_expired_feeds (L : Ledger) : Ledger :=
  let head_block_time := L.properties.time
  { L with assets := L.assets.mapValues fun a => a.modify_monitored fun m =>
      if m.feed_is_expired head_block_time then m.update_median_feeds head_block_time else m }

/-! ### As changes of settings -/

namespace SettingsOperation

def fee : SettingsOperation → Asset
  | ready_to_publish o => o.fee
  | ready_to_publish2 o => o.fee
  | update_user_issued_asset o => o.fee
  | update_user_issued_asset_advanced o => o.fee
  | update_monitored_asset o => o.fee
  | asset_publish_feed _ o => o.fee

def fee_payer : SettingsOperation → AccountId
  | ready_to_publish o => o.seeder
  | ready_to_publish2 o => o.seeder
  | update_user_issued_asset o => o.issuer
  | update_user_issued_asset_advanced o => o.issuer
  | update_monitored_asset o => o.issuer
  | asset_publish_feed _ o => o.publisher

/-- What `do_apply` makes of the ledger, once the operation is valid and evaluated. -/
def do_apply : SettingsOperation → Reads Ledger
  | ready_to_publish o => do
    fc_assert (o.validate = true)
    return ready_to_publish_apply o (← read)
  | ready_to_publish2 o => do
    fc_assert (o.validate = true)
    ready_to_publish2_evaluate
    return ready_to_publish_apply o (← read)
  | update_user_issued_asset o => do
    fc_assert (o.validate = true)
    user_issued_asset_update_evaluate o
    return (← read).modify_asset o.asset_to_update o.write
  | update_user_issued_asset_advanced o => do
    fc_assert (o.validate = true)
    update_user_issued_asset_advanced_evaluate o
    return (← read).modify_asset o.asset_to_update o.write
  | update_monitored_asset o => do
    monitored_asset_update_evaluate o
    return (← read).modify_asset o.asset_to_update fun a => a.modify_monitored o.write
  | asset_publish_feed active o => do
    fc_assert (o.validate = true)
    asset_publish_feeds_evaluate active o
    let now ← head_block_time
    return (← read).modify_asset o.asset_id fun a => a.modify_monitored (o.write now)

end SettingsOperation

theorem Settled.of_asset {L : Ledger} {id : AssetId} {f : AssetObject → AssetObject}
    (same : ∀ a, (f a).dynamic = a.dynamic ∧ (f a).is_monitored_asset = a.is_monitored_asset) :
    Settled L (L.modify_asset id f) :=
  { Settled.refl L with
    asset_rows := Index.rows_update_same (g := fun a : AssetObject => (a.dynamic,a.is_monitored_asset)) L.assets id fun a => by
      rw [(same a).1,(same a).2]
    next_asset := Index.next_update .. }

@[simp] theorem AssetObject.dynamic_modify_monitored (a : AssetObject) (f : MonitoredAssetOptions → MonitoredAssetOptions) :
    (a.modify_monitored f).dynamic = a.dynamic := rfl

@[simp] theorem AssetObject.monitored_modify_monitored (a : AssetObject) (f : MonitoredAssetOptions → MonitoredAssetOptions) :
    (a.modify_monitored f).is_monitored_asset = a.is_monitored_asset := by
  simp [AssetObject.is_monitored_asset,AssetObject.modify_monitored]

theorem settled_ready_to_publish (o : ReadyToPublishOperation) (L : Ledger) : Settled L (ready_to_publish_apply o L) := by
  unfold ready_to_publish_apply
  dsimp only
  split <;> exact { Settled.refl L with }

theorem settled_update_expired_feeds (L : Ledger) : Settled L (update_expired_feeds L) := by
  refine { Settled.refl L with asset_rows := ?_ }
  show (L.assets.table.rows.map _).map _ = _
  rw [List.map_map]
  exact List.map_congr_left fun row _ => by simp

/-- What each operation writes. -/
inductive Writes (L : Ledger) : SettingsOperation → Ledger → Prop
  | ready_to_publish (o : ReadyToPublishOperation) : Writes L (.ready_to_publish o) (ready_to_publish_apply o L)
  | ready_to_publish2 (o : ReadyToPublishOperation) : Writes L (.ready_to_publish2 o) (ready_to_publish_apply o L)
  | update_user_issued_asset (o : UpdateUserIssuedAssetOperation) (valid : o.validate = true)
      (evaluated : user_issued_asset_update_evaluate o L = .ok ()) :
    Writes L (.update_user_issued_asset o) (L.modify_asset o.asset_to_update o.write)
  | update_user_issued_asset_advanced (o : UpdateUserIssuedAssetAdvancedOperation)
      (evaluated : update_user_issued_asset_advanced_evaluate o L = .ok ()) :
    Writes L (.update_user_issued_asset_advanced o) (L.modify_asset o.asset_to_update o.write)
  | update_monitored_asset (o : UpdateMonitoredAssetOperation) :
    Writes L (.update_monitored_asset o) (L.modify_asset o.asset_to_update fun a => a.modify_monitored o.write)
  | asset_publish_feed (active : List AccountId) (o : AssetPublishFeedOperation) (valid : o.validate = true) :
    Writes L (.asset_publish_feed active o)
      (L.modify_asset o.asset_id fun a => a.modify_monitored (o.write L.properties.time))

theorem do_apply_writes {o : SettingsOperation} {L L' : Ledger} (applied : o.do_apply L = .ok L') : Writes L o L' := by
  cases o with
  | ready_to_publish o =>
    simp only [SettingsOperation.do_apply,reads_bind,reads_lift,fc_assert_ok] at applied
    obtain ⟨_,-,_,read,stored⟩ := applied
    cases read
    cases stored
    exact .ready_to_publish o
  | ready_to_publish2 o =>
    simp only [SettingsOperation.do_apply,reads_bind,reads_lift,fc_assert_ok] at applied
    obtain ⟨_,-,_,-,_,read,stored⟩ := applied
    cases read
    cases stored
    exact .ready_to_publish2 o
  | update_user_issued_asset o =>
    simp only [SettingsOperation.do_apply,reads_bind,reads_lift,fc_assert_ok] at applied
    obtain ⟨_,valid,_,evaluated,_,read,stored⟩ := applied
    cases read
    cases stored
    exact .update_user_issued_asset o valid evaluated
  | update_user_issued_asset_advanced o =>
    simp only [SettingsOperation.do_apply,reads_bind,reads_lift,fc_assert_ok] at applied
    obtain ⟨_,-,_,evaluated,_,read,stored⟩ := applied
    cases read
    cases stored
    exact .update_user_issued_asset_advanced o evaluated
  | update_monitored_asset o =>
    simp only [SettingsOperation.do_apply,reads_bind] at applied
    obtain ⟨_,-,_,read,stored⟩ := applied
    cases read
    cases stored
    exact .update_monitored_asset o
  | asset_publish_feed active o =>
    simp only [SettingsOperation.do_apply,reads_bind,reads_lift,fc_assert_ok] at applied
    obtain ⟨_,valid,_,-,now,time,_,read,stored⟩ := applied
    cases time
    cases read
    cases stored
    exact .asset_publish_feed active o valid

theorem Writes.settled {o : SettingsOperation} {L L' : Ledger} (writes : Writes L o L') : Settled L L' := by
  cases writes with
  | ready_to_publish o => exact settled_ready_to_publish o L
  | ready_to_publish2 o => exact settled_ready_to_publish o L
  | update_user_issued_asset o _ _ => exact .of_asset fun _ => ⟨rfl,rfl⟩
  | update_user_issued_asset_advanced o _ => exact .of_asset fun _ => ⟨rfl,rfl⟩
  | update_monitored_asset o => exact .of_asset fun a => ⟨rfl,a.monitored_modify_monitored _⟩
  | asset_publish_feed active o _ => exact .of_asset fun a => ⟨rfl,a.monitored_modify_monitored _⟩

def SettingsOperation.change (o : SettingsOperation) : SettingsChange where
  do_apply := o.do_apply
  settled applied := (do_apply_writes applied).settled

def SettingsOperation.operation (o : SettingsOperation) : Operation := .other o.fee_payer o.fee o.change

def feeds_update : SettingsChange where
  do_apply L := .ok (update_expired_feeds L)
  settled applied := by
    cases applied
    exact settled_update_expired_feeds _

/-! ### Runs of the source -/

/-- A change of settings that touches neither assets nor seeders. -/
def Aloof (change : SettingsChange) : Prop :=
  ∀ L L', change.do_apply L = .ok L' → L'.assets = L.assets ∧ L'.seeders = L.seeders ∧ L'.statistics = L.statistics

/-- An `other` operation of the source is one of the above, or it stays aloof. -/
def from_source (op : Operation) : Prop :=
  match op with
  | .other _ _ change => (∃ o : SettingsOperation, change = o.change) ∨ Aloof change
  | _ => True

/-- Runs of the source in which `meets` holds of every operation when it is applied, also of those
    that proposals execute. By itself the chain only updates feeds, and what stays aloof. -/
def each_applied (meets : Operation → Ledger → Prop) (L : Ledger) : Action → Prop
  | .operation env op => ∀ op' L', Applies env op L op' L' → from_source op' ∧ meets op' L'
  | .settings change => change = feeds_update ∨ Aloof change
  | _ => True

def source_step : Ledger → Action → Prop := each_applied fun _ _ => True

theorem Reached.source {g : GenesisState} {meets : Operation → Ledger → Prop} {L : Ledger}
    (reached : Reached g (each_applied meets) L) : Reached g source_step L := by
  refine reached.mono fun L action met => ?_
  cases action with
  | operation env op => exact fun op' L' applies => ⟨(met op' L' applies).1,trivial⟩
  | settings change => exact met
  | _ => trivial

/-- Without a proposal nothing else is applied. -/
theorem Applies.alone {env : Env} {op op' : Operation} {L L' : Ledger} (applies : Applies env op L op' L')
    (unproposed : ∀ payer fee ops, op ≠ .proposal_update payer fee ops) : op' = op ∧ L' = L := by
  cases applies with
  | itself => exact ⟨rfl,rfl⟩
  | proposed => exact absurd rfl (unproposed _ _ _)

theorem from_source_operation (o : SettingsOperation) : from_source o.operation := .inl ⟨o,rfl⟩

/-! ### What runs keep -/

/-- An asset without its pools. -/
def AssetObject.described (a : AssetObject) : AssetObject := { a with dynamic := ⟨a.dynamic.current_supply,0,0⟩ }

/-- Paying a fee leaves everything but the pools. -/
structure Prepared (L L' : Ledger) : Prop where
  rest : L' = { L with assets := L'.assets }
  assets : ∀ id, (L'.assets.find? id).map AssetObject.described = (L.assets.find? id).map AssetObject.described

instance : Composes Prepared where
  refl _ := ⟨rfl,fun _ => rfl⟩
  trans {a b c} first second := by
    refine ⟨?_,fun id => (second.assets id).trans (first.assets id)⟩
    have rest := second.rest
    rw [first.rest] at rest
    exact rest

theorem prepared_modify_dynamic {id : AssetId} {f : DynamicData → Except Fault DynamicData}
    (kept : ∀ {d d'}, f d = .ok d' → d'.current_supply = d.current_supply) : Within Prepared (modify_dynamic id f) := by
  refine within_modify_dynamic fun {L L'} ran => ?_
  obtain ⟨a,d,found,changed,rfl⟩ := modify_dynamic_ok ran
  refine ⟨rfl,fun other => ?_⟩
  show (Index.find? (Index.update ..) other).map _ = _
  rw [Index.find?_update]
  split
  case isTrue here =>
    rw [here,found]
    simp only [Option.map_some,AssetObject.described,kept changed]
  case isFalse => rfl

instance (fee : Asset) (x : Int) : Within Prepared (convert_fee fee x) := by
  have converted : Within Prepared (modify_dynamic fee.asset_id fun d => do
      let asset_pool ← checked (d.asset_pool + fee.amount)
      let core_pool ← checked (d.core_pool - x)
      return { d with asset_pool := asset_pool, core_pool := core_pool }) := by
    refine prepared_modify_dynamic fun changed => ?_
    simp only [bind_ok,checked_ok,pure_ok] at changed
    obtain ⟨_,-,_,-,rfl⟩ := changed
    rfl
  unfold convert_fee
  infer_instance

instance (x : Int) : Within Prepared (pay_fee x) := by
  refine prepared_modify_dynamic fun changed => ?_
  simp only [bind_ok,checked_ok,pure_ok] at changed
  obtain ⟨_,-,rfl⟩ := changed
  rfl

theorem Prepared.asset {L L' : Ledger} (prepared : Prepared L L') {id : AssetId} {a a' : AssetObject}
    (found : L.assets.find? id = some a) (found' : L'.assets.find? id = some a') : a'.described = a.described := by
  have same := prepared.assets id
  rw [found,found'] at same
  exact Option.some.inj same

section
variable {R : Ledger → Ledger → Prop} [∀ fee x, Within R (convert_fee fee x)] [∀ x, Within R (pay_fee x)]
  [Entering R] {meets : Operation → Ledger → Prop}

/-- What the evaluators keep, given what executed operations do. -/
theorem related_each {env : Env} (step : ∀ {executed op L L₂ L₃ x fee act}, from_source op → meets op L → op.validate = true →
      Prepared L L₂ → do_evaluate env executed x op L = .ok (fee,act) → EStateM.run act L₂ = .ok () L₃ →
      (EStateM.run executed L₂ = .ok () L₃ → R L₂ L₃) → R L₂ L₃)
    {op : Operation} {L L' : Ledger} (met : ∀ op' L', Applies env op L op' L' → from_source op' ∧ meets op' L')
    (ran : EStateM.run (apply_operation env op) L = .ok () L') : R L L' := by
  let both : Operation → Ledger → Prop := fun op L => from_source op ∧ meets op L
  have met : ∀ op' L', Applies env op L op' L' → both op' L' := met
  refine related_apply_operation ?_ op met ran
  intro executed op L L₁ L₂ L₃ L₄ fee act met valid _ flow inside
  have evaluated := flow.evaluated
  simp only [evaluate,reads_bind] at evaluated
  obtain ⟨x,-,-,-,evaluated⟩ := evaluated
  refine Composes.trans (Within.ok inferInstance flow.converted) (Composes.trans (Within.ok inferInstance flow.paid) ?_)
  refine Composes.trans ?_ (Within.ok inferInstance flow.charged)
  exact step met.1 met.2 valid flow.prepared evaluated flow.applied inside

variable (meets) in
theorem related_perform [∀ timestamp, Within R (update_head timestamp)] [∀ miner, Within R (update_signing_miner miner)]
    (step : ∀ {env executed op L L₂ L₃ x fee act}, from_source op → meets op L → op.validate = true →
      Prepared L L₂ → do_evaluate env executed x op L = .ok (fee,act) → EStateM.run act L₂ = .ok () L₃ →
      (EStateM.run executed L₂ = .ok () L₃ → R L₂ L₃) → R L₂ L₃)
    (settled : ∀ {change L L'}, change = feeds_update ∨ Aloof change → change.do_apply L = .ok L' → R L L')
    {action : Action} {L L' : Ledger}
    (maintained : action = .maintenance → EStateM.run perform_chain_maintenance L = .ok () L' → R L L')
    (met : each_applied meets L action) (ran : EStateM.run (perform action) L = .ok () L') : R L L' := by
  cases action with
  | header timestamp => exact Within.ok (x := update_head timestamp) inferInstance ran
  | operation env op => exact related_each step met ran
  | signing_miner miner => exact Within.ok (x := update_signing_miner miner) inferInstance ran
  | maintenance =>
    obtain ⟨_,-,ran⟩ := run_observe_bind.mp (run_get_bind.mp ran)
    exact maintained rfl ran
  | settings change =>
    obtain ⟨_,applied,ran⟩ := run_observe_bind.mp ran
    cases ran
    exact settled met applied

end

/-! ### Small runs -/

/-- An action of the source without a proposal. -/
def of_source : Action → Prop
  | .operation _ (.proposal_update ..) => False
  | .operation _ op => from_source op
  | .settings change => change = feeds_update
  | _ => True

theorem each_applied_of_source {meets : Operation → Ledger → Prop} {L : Ledger} {action : Action} (plain : of_source action)
    (met : ∀ env op, action = .operation env op → meets op L) : each_applied meets L action := by
  cases action with
  | operation env op =>
    intro op' L' applies
    cases op
    case proposal_update => exact absurd plain id
    all_goals
      obtain ⟨rfl,rfl⟩ := applies.alone fun _ _ _ => by simp
      exact ⟨plain,met env _ rfl⟩
  | settings change => exact .inl plain
  | _ => trivial

theorem each_applied_operation {meets : Operation → Ledger → Prop} {env : Env} {op : Operation} {L : Ledger}
    (plain : of_source (.operation env op)) (met : meets op L) : each_applied meets L (.operation env op) :=
  each_applied_of_source plain fun _ _ same => by cases same; exact met

theorem reached_perform_meets {g : GenesisState} {allowed checked : Ledger → Action → Prop}
    [∀ L action, Decidable (checked L action)] {actions : List Action} {L L' : Ledger}
    (meets : ∀ L action, of_source action → checked L action → allowed L action) (plain : actions.Forall of_source)
    (before : Reached g allowed L) (ran : EStateM.run (perform_allowed checked actions) L = .ok () L') :
    Reached g allowed L' := by
  induction actions generalizing L with
  | nil =>
    cases ran
    exact before
  | cons action rest ih =>
    obtain ⟨here,plain⟩ := List.forall_cons of_source action rest |>.mp plain
    simp only [perform_allowed,run_bind_ok,run_observe,reads_lift,fc_assert_ok] at ran
    obtain ⟨_,_,got,_,_,⟨met,rfl⟩,_,L₁,done,ran⟩ := ran
    cases got
    exact ih plain (before.step (meets L action here met) done) ran

/-- The small chain after actions that are allowed wherever they come. -/
theorem reached_after_allowed {allowed : Ledger → Action → Prop} {actions : List Action}
    (met : actions.Forall fun action => ∀ L, allowed L action)
    (returned : Throwing.returned (EStateM.run (perform_all actions) (init_genesis small_genesis)) = true) :
    Reached small_genesis allowed (after_actions actions) := by
  have step {actions : List Action} {L L' : Ledger} (met : actions.Forall fun action => ∀ L, allowed L action)
      (before : Reached small_genesis allowed L) (ran : EStateM.run (perform_all actions) L = .ok () L') :
      Reached small_genesis allowed L' := by
    induction actions generalizing L with
    | nil =>
      cases ran
      exact before
    | cons action rest ih =>
      obtain ⟨here,met⟩ := List.forall_cons _ action rest |>.mp met
      simp only [perform_all,run_bind_ok] at ran
      obtain ⟨_,L₁,done,ran⟩ := ran
      exact ih met (before.step (here L) done) ran
  exact step met .genesis (run_of_returned returned)

theorem reached_after_actions {actions : List Action} (plain : actions.Forall of_source)
    (returned : Throwing.returned (EStateM.run (perform_all actions) (init_genesis small_genesis)) = true) :
    Reached small_genesis source_step (after_actions actions) :=
  reached_after_allowed (plain.imp fun _ here _ => each_applied_of_source here fun _ _ _ => trivial) returned

/-- Offer space for a price of one. -/
def offer_space (seeder : AccountId) : Action :=
  .operation free_env (SettingsOperation.ready_to_publish ⟨⟨0,core⟩,seeder,1000,1,"ipfs"⟩).operation

/-- Two seeders, of whom the first has some core. -/
def two_seeders : List Action := [new_account default_account.options,new_account default_account.options,
  grant 4 ⟨10000,core⟩,offer_space 4,offer_space 5]

/-- A content with a part for each of them. -/
def seeded_submission : ContentSubmitOperation where
  fee := ⟨0,core⟩
  author := 4
  co_authors := .empty
  URI := "ipfs:seeded"
  price := [⟨OO_none,⟨10,core⟩⟩]
  size := 1
  hash := 0
  seeders := [4,5]
  key_parts := [7,8]
  quorum := 2
  expiration := 1540000000
  publishing_fee := ⟨1000,core⟩
  cd := none

/-- One without parts. -/
def simplified_submission : ContentSubmitOperation :=
  { seeded_submission with URI := "ipfs:simplified", seeders := [], key_parts := [], quorum := 0 }

theorem two_seeders_of_source : two_seeders.Forall of_source :=
  ⟨trivial,trivial,trivial,from_source_operation _,from_source_operation _⟩

end Decent.Money

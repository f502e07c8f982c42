import Decent.Settings

/-!
User issued assets between their creation and whatever becomes of them: how much of one there
can be, and what its issuer has bound himself to. Fees and conversions move what is in the
pools; the supply changes when the asset is issued or reserved, the limit by an update.
-/
namespace Decent.Money
open Throwing

/-! ### The supply and its limit -/

/-- What the bounds of the supply are about. -/
def AssetObject.supply (a : AssetObject) : Int × Int × Bool :=
  (a.dynamic.current_supply,a.options.max_supply,a.is_monitored_asset)

def AssetObject.bounded (a : AssetObject) : Prop :=
  0 ≤ a.dynamic.current_supply ∧ a.dynamic.current_supply ≤ a.options.max_supply ∧ a.options.max_supply ≤ max_share_supply

theorem AssetObject.bounded_congr {a b : AssetObject} (same : a.supply = b.supply) : a.bounded ↔ b.bounded := by
  simp only [AssetObject.supply,Prod.mk.injEq] at same
  rw [AssetObject.bounded,AssetObject.bounded,same.1,same.2.1]

/-- Every user issued asset is within its bounds. -/
def Bounded (L : Ledger) : Prop :=
  ∀ id a, L.assets.find? id = some a → a.is_monitored_asset = false → id ≠ core → a.bounded

/-- Nothing is issued but core. -/
def Unissued (L L' : Ledger) : Prop :=
  ∀ id, id ≠ core → (L'.assets.find? id).map AssetObject.supply = (L.assets.find? id).map AssetObject.supply

instance : Elsewhere Unissued where
  refl _ _ _ := rfl
  trans first second id other := (second id other).trans (first id other)
  elsewhere assets _ _ _ _ := by rw [assets]

instance : Crediting Unissued where
  balances _ _ _ _ := rfl
  vestings _ _ _ _ := rfl
  miners _ _ _ _ := rfl

instance : Scheduling Unissued where
  properties _ _ _ _ := rfl
  parameters _ _ _ _ _ := rfl

theorem Bounded.unissued {L L' : Ledger} (bounded : Bounded L) (unissued : Unissued L L') : Bounded L' := by
  intro id a found user other
  have same := unissued id other
  rw [found,Option.map_some] at same
  obtain ⟨b,before,supply⟩ := Option.map_eq_some_iff.mp same.symm
  have monitored : b.is_monitored_asset = a.is_monitored_asset := congrArg (·.2.2) supply
  exact (AssetObject.bounded_congr supply).mp (bounded _ b before (monitored.trans user) other)

theorem unissued_modify_dynamic {id : AssetId} {f : DynamicData → Except Fault DynamicData}
    (kept : ∀ {d d'}, f d = .ok d' → d'.current_supply = d.current_supply) : Within Unissued (modify_dynamic id f) := by
  refine within_modify_dynamic fun {L L'} ran other _ => ?_
  obtain ⟨a,d,found,changed,rfl⟩ := modify_dynamic_ok ran
  show (Index.find? (Index.update ..) other).map _ = _
  rw [Index.find?_update]
  split
  case isTrue here =>
    rw [here,found]
    simp only [Option.map_some,AssetObject.supply,AssetObject.is_monitored_asset,kept changed]
  case isFalse => rfl

theorem unissued_core {f : DynamicData → Except Fault DynamicData} : Within Unissued (modify_dynamic core f) := by
  refine within_modify_dynamic fun {L L'} ran other notCore => ?_
  obtain ⟨a,d,-,-,rfl⟩ := modify_dynamic_ok ran
  show (Index.find? (Index.update ..) other).map _ = _
  rw [Index.find?_update,if_neg notCore]

instance (id : AssetId) (asset_pool_diff core_pool_diff : Int) :
    Within Unissued (convert_uia.change_pools id asset_pool_diff core_pool_diff) := by
  refine unissued_modify_dynamic fun changed => ?_
  simp only [bind_ok,checked_ok,fc_assert_ok,pure_ok] at changed
  obtain ⟨_,-,_,-,_,-,_,-,rfl⟩ := changed
  rfl

instance (fee : Asset) (x : Int) : Within Unissued (convert_fee fee x) := by
  have converted : Within Unissued (modify_dynamic fee.asset_id fun d => do
      let asset_pool ← checked (d.asset_pool + fee.amount)
      let core_pool ← checked (d.core_pool - x)
      return { d with asset_pool := asset_pool, core_pool := core_pool }) := by
    refine unissued_modify_dynamic fun changed => ?_
    simp only [bind_ok,checked_ok,pure_ok] at changed
    obtain ⟨_,-,_,-,rfl⟩ := changed
    rfl
  unfold convert_fee
  infer_instance

instance (x : Int) : Within Unissued (pay_fee x) := unissued_core

instance (id : AssetId) (asset_pool : DynamicData → Except Fault Int) :
    Within Unissued (modify_dynamic id fun data => return { data with asset_pool := ← asset_pool data }) := by
  refine unissued_modify_dynamic fun changed => ?_
  simp only [bind_ok,pure_ok] at changed
  obtain ⟨_,-,rfl⟩ := changed
  rfl

instance (id : AssetId) (core_pool : DynamicData → Except Fault Int) :
    Within Unissued (modify_dynamic id fun data => return { data with core_pool := ← core_pool data }) := by
  refine unissued_modify_dynamic fun changed => ?_
  simp only [bind_ok,pure_ok] at changed
  obtain ⟨_,-,rfl⟩ := changed
  rfl

instance (o : AssetFundPoolsOperation) : Within Unissued (asset_fund_pools_apply o) := by
  unfold asset_fund_pools_apply
  dsimp only
  split <;> infer_instance

instance (o : AssetClaimFeesOperation) : Within Unissued (asset_claim_fees_apply o) := by
  unfold asset_claim_fees_apply
  infer_instance

instance : Within Unissued process_budget := by
  have drawn (f : DynamicData → Except Fault DynamicData) : Within Unissued (modify_dynamic core f) := unissued_core
  unfold process_budget
  dsimp only
  repeat refine .andThen fun _ => ?_
  exact .modify fun L _ _ => rfl

def Bounding (L L' : Ledger) : Prop := Bounded L → Bounded L'

instance : Composes Bounding where
  refl _ := id
  trans first second := second ∘ first

theorem Bounding.of_unissued {α : Type} {x : M α} (unissued : Within Unissued x) : Within Bounding x :=
  ⟨fun L bounded => bounded.unissued (unissued.keeps L)⟩

instance : Entering Bounding where
  balance _ _ _ bounded := bounded
  vestings _ _ bounded := bounded
  miners _ _ bounded := bounded

instance (fee : Asset) (x : Int) : Within Bounding (convert_fee fee x) := Bounding.of_unissued inferInstance

instance (x : Int) : Within Bounding (pay_fee x) := Bounding.of_unissued inferInstance

instance (timestamp : Nat) : Within Bounding (update_head timestamp) := Bounding.of_unissued inferInstance

instance (miner : Nat) : Within Bounding (update_signing_miner miner) := Bounding.of_unissued inferInstance

/-- One asset changes, and stays within its bounds. -/
theorem Bounded.change {L : Ledger} {id : AssetId} {f : AssetObject → AssetObject} (bounded : Bounded L)
    (stays : ∀ a, L.assets.find? id = some a → (f a).is_monitored_asset = false → id ≠ core → (f a).bounded) :
    Bounded (L.modify_asset id f) := by
  intro k a found user other
  have found : (L.assets.update id f).find? k = some a := found
  rw [Index.find?_update] at found
  split at found
  case isTrue here =>
    subst here
    obtain ⟨b,before,rfl⟩ := Option.map_eq_some_iff.mp found
    exact stays b before user other
  case isFalse => exact bounded _ _ found user other

theorem bounding_create {o : AssetCreateOperation} {core_fee_paid : Int} {L L' : Ledger}
    (valid : (Operation.asset_create o).validate = true) (ran : EStateM.run (asset_create_apply o core_fee_paid) L = .ok () L') :
    Bounding L L' := by
  cases ran
  intro bounded id a found user other
  have entry : (L.assets.create _).find? id = some a := found
  rw [Index.find?_create] at entry
  split at entry
  case isTrue =>
    cases entry
    have unmonitored : o.monitored_asset_opts = none := Option.isSome_eq_false_iff.mp user |> Option.isNone_iff_eq_none.mp
    simp only [Operation.validate,unmonitored,AssetOptions.validate,Bool.and_eq_true,decide_eq_true_eq] at valid
    obtain ⟨-,⟨⟨positive,small⟩,-⟩,-⟩ := valid
    exact ⟨le_rfl,Int.le_of_lt positive,small⟩
  case isFalse => exact bounded _ _ entry user other

/-- What is issued is added, after it was compared with the limit. -/
theorem bounding_issue {o : AssetIssueOperation} {L L₁ L₂ : Ledger} (valid : (Operation.asset_issue o).validate = true)
    (evaluated : asset_issue_evaluate o L = .ok ()) (prepared : Prepared L L₁)
    (ran : EStateM.run (asset_issue_apply o) L₁ = .ok () L₂) : Bounding L₁ L₂ := by
  simp only [asset_issue_evaluate,reads_bind,reads_lift,get_asset_ok,fc_assert_ok,checked_ok] at evaluated
  obtain ⟨a,found,_,-,_,-,_,⟨-,rfl⟩,within⟩ := evaluated
  simp only [Operation.validate,Bool.and_eq_true,decide_eq_true_eq] at valid
  obtain ⟨_,L₃,given,counted⟩ := run_bind_ok.mp ran
  obtain ⟨b,d,found',changed,rfl⟩ := modify_dynamic_ok counted
  simp only [bind_ok,checked_ok,pure_ok] at changed
  obtain ⟨_,⟨-,rfl⟩,rfl⟩ := changed
  have assets : L₃.assets = L₁.assets := by rw [adjust_balance_frame given]
  have same := prepared.asset found (assets ▸ found')
  have supply : b.dynamic.current_supply = a.dynamic.current_supply := congrArg (·.dynamic.current_supply) same
  have limit : b.options.max_supply = a.options.max_supply := congrArg (·.options.max_supply) same
  intro bounded
  have bounded₃ : Bounded L₃ := bounded.unissued fun _ _ => by rw [assets]
  refine bounded₃.change fun c here user other => ?_
  cases found'.symm.trans here
  obtain ⟨nonneg,-,small⟩ := bounded₃ _ _ found' user other
  refine ⟨?_,?_,small⟩
  · show 0 ≤ b.dynamic.current_supply + _
    omega
  · show b.dynamic.current_supply + _ ≤ b.options.max_supply
    omega

theorem bounding_reserve {o : AssetReserveOperation} {L L₁ L₂ : Ledger} (valid : (Operation.asset_reserve o).validate = true)
    (evaluated : asset_reserve_evaluate o L = .ok ()) (prepared : Prepared L L₁)
    (ran : EStateM.run (asset_reserve_apply o) L₁ = .ok () L₂) : Bounding L₁ L₂ := by
  simp only [asset_reserve_evaluate,reads_bind,reads_lift,get_asset_ok,fc_assert_ok,checked_ok] at evaluated
  obtain ⟨a,found,_,-,_,⟨-,rfl⟩,within⟩ := evaluated
  simp only [Operation.validate,Bool.and_eq_true,decide_eq_true_eq] at valid
  obtain ⟨_,-,ran⟩ := run_observe_bind.mp ran
  obtain ⟨_,L₃,taken,counted⟩ := run_bind_ok.mp ran
  obtain ⟨b,d,found',changed,rfl⟩ := modify_dynamic_ok counted
  simp only [bind_ok,checked_ok,pure_ok] at changed
  obtain ⟨_,⟨-,rfl⟩,rfl⟩ := changed
  have assets : L₃.assets = L₁.assets := by rw [adjust_balance_frame taken]
  have supply : b.dynamic.current_supply = a.dynamic.current_supply :=
    congrArg (·.dynamic.current_supply) (prepared.asset found (assets ▸ found'))
  intro bounded
  have bounded₃ : Bounded L₃ := bounded.unissued fun _ _ => by rw [assets]
  refine bounded₃.change fun c here user other => ?_
  cases found'.symm.trans here
  obtain ⟨-,below,small⟩ := bounded₃ _ _ found' user other
  refine ⟨?_,?_,small⟩
  · show 0 ≤ b.dynamic.current_supply - _
    omega
  · show b.dynamic.current_supply - _ ≤ b.options.max_supply
    omega

/-- An update of a user issued asset keeps to the share limit. -/
def SettingsOperation.keeps_share_limit : SettingsOperation → Prop
  | .update_user_issued_asset o => (o.max_supply.toNat : Int) ≤ max_share_supply
  | _ => True

def keeps_share_limit (op : Operation) (_ : Ledger) : Prop :=
  match op with
  | .other _ _ change => (∃ o : SettingsOperation, change = o.change ∧ o.keeps_share_limit) ∨ Aloof change
  | _ => True

theorem as_share_small {v : UInt64} (small : (v.toNat : Int) ≤ max_share_supply) : as_share v = v.toNat := by
  have below : (v.toNat : Int) < 2^63 := lt_of_le_of_lt small (by decide)
  exact Int.bmod_eq_of_le (by omega) (by omega)

theorem UpdateUserIssuedAssetOperation.options_write (o : UpdateUserIssuedAssetOperation) (a : AssetObject) :
    (o.write a).options = { a.options with
      max_supply := as_share o.max_supply
      core_exchange_rate := o.core_exchange_rate
      is_exchangeable := o.is_exchangeable } := by
  rw [UpdateUserIssuedAssetOperation.write]

theorem UpdateUserIssuedAssetOperation.max_supply_write (o : UpdateUserIssuedAssetOperation) (a : AssetObject) :
    (o.write a).options.max_supply = as_share o.max_supply := by
  rw [o.options_write]

theorem UpdateUserIssuedAssetOperation.fixed_max_supply_write (o : UpdateUserIssuedAssetOperation) (a : AssetObject) :
    (o.write a).options.fixed_max_supply = a.options.fixed_max_supply := by
  rw [o.options_write]

theorem bounding_writes {o : SettingsOperation} {L L' : Ledger} (writes : Writes L o L')
    (limited : o.keeps_share_limit) : Bounding L L' := by
  intro bounded
  cases writes with
  | ready_to_publish o => exact bounded.unissued fun _ _ => by unfold ready_to_publish_apply; dsimp only; split <;> rfl
  | ready_to_publish2 o => exact bounded.unissued fun _ _ => by unfold ready_to_publish_apply; dsimp only; split <;> rfl
  | update_user_issued_asset o valid evaluated =>
    simp only [user_issued_asset_update_evaluate,reads_bind,reads_lift,get_asset_ok,fc_assert_ok] at evaluated
    obtain ⟨_,-,a,found,_,-,_,issued,-⟩ := evaluated
    have small : (o.max_supply.toNat : Int) ≤ max_share_supply := limited
    rw [as_share_small small] at issued
    refine bounded.change fun b here user other => ?_
    cases found.symm.trans here
    obtain ⟨nonneg,-,-⟩ := bounded _ _ found user other
    have limit : (o.write a).options.max_supply = o.max_supply.toNat :=
      (o.max_supply_write a).trans (as_share_small small)
    refine ⟨nonneg,?_,?_⟩ <;> rw [limit]
    · exact issued
    · exact small
  | update_user_issued_asset_advanced o evaluated =>
    exact bounded.change fun a found user other => bounded _ a found user other
  | update_monitored_asset o =>
    refine bounded.change fun a found user other => bounded _ a found ?_ other
    rwa [AssetObject.monitored_modify_monitored] at user
  | asset_publish_feed active o valid =>
    refine bounded.change fun a found user other => bounded _ a found ?_ other
    rwa [AssetObject.monitored_modify_monitored] at user

theorem bounding_perform {action : Action} {L L' : Ledger} (met : each_applied keeps_share_limit L action)
    (ran : EStateM.run (perform action) L = .ok () L') : Bounding L L' := by
  have aloof {change : SettingsChange} {L L' : Ledger} (aloof : Aloof change) (applied : change.do_apply L = .ok L') :
      Bounding L L' := fun bounded => bounded.unissued fun _ _ => by rw [(aloof L L' applied).1]
  refine related_perform keeps_share_limit ?_ ?_ ?_ met ran
  · intro env executed op L L₂ L₃ x fee act _ limited valid prepared evaluated applied inside
    cases do_evaluate_touches evaluated with
    | elsewhere within => exact fun bounded => bounded.unissued ((within Unissued).ok applied)
    | create o fee core_fee_paid _ => exact bounding_create valid applied
    | issue o checked => exact bounding_issue valid checked prepared applied
    | reserve o checked => exact bounding_reserve valid checked prepared applied
    | fund o _ => exact fun bounded => bounded.unissued (Within.ok inferInstance applied)
    | claim o _ => exact fun bounded => bounded.unissued (Within.ok inferInstance applied)
    | buy o ctx => exact fun bounded => bounded.unissued (Within.ok inferInstance applied)
    | propose payer paid ops => exact inside applied
    | settle payer paid change =>
      obtain ⟨_,settled,stored⟩ := run_observe_bind.mp applied
      cases stored
      rcases limited with ⟨o,rfl,limited⟩ | unrelated
      · exact bounding_writes (do_apply_writes settled) limited
      · exact aloof unrelated settled
  · rintro change L L' (rfl | unrelated) applied
    · cases applied
      refine fun bounded => bounded.unissued fun id _ => ?_
      show ((L.assets.mapValues _).find? id).map _ = _
      rw [Index.find?_mapValues,Option.map_map]
      exact congrArg (Option.map · _) (funext fun a => by simp [AssetObject.supply,AssetObject.modify_monitored,
        AssetObject.is_monitored_asset])
    · exact aloof unrelated applied
  · intro _ ran
    exact fun bounded => bounded.unissued (Within.ok (x := perform_chain_maintenance) inferInstance ran)

theorem bounded_genesis (g : GenesisState) : Bounded (init_genesis g) := by
  intro id a found user other
  rcases genesis_assets_cases found with ⟨here,-⟩ | ⟨_,_,_,rfl⟩
  · exact absurd here other
  · cases user

/-- As long as every update of a user issued asset keeps to the share limit, all of them are
    within their bounds. -/
theorem supply_within_bounds (g : GenesisState) (L : Ledger) (reached : Reached g (each_applied keeps_share_limit) L)
    (id : AssetId) (a : AssetObject) (found : L.assets.find? id = some a) (user : a.is_monitored_asset = false)
    (other : id ≠ core) :
    0 ≤ a.dynamic.current_supply ∧ a.dynamic.current_supply ≤ a.options.max_supply ∧
      a.options.max_supply ≤ max_share_supply :=
  reached.invariant (bounded_genesis g) (fun bounded met ran => bounding_perform met ran bounded) id a found user other

/-- An update to this limit. -/
def update_limit (max_supply : UInt64) : SettingsOperation :=
  .update_user_issued_asset ⟨⟨0,core⟩,4,2,none,max_supply,⟨⟨1,core⟩,⟨1,2⟩⟩,true⟩

/-- A user creates an asset, issues a hundred of it and sets its limit. -/
def limited_asset (max_supply : UInt64) : List Action := [new_account default_account.options,
  .operation free_env (.asset_create { odd_fee with fee := ⟨0,core⟩ }),
  .operation free_env (.asset_issue ⟨⟨0,core⟩,4,⟨100,2⟩,4⟩),.operation free_env (update_limit max_supply).operation]

theorem limited_asset_of_source (max_supply : UInt64) : (limited_asset max_supply).Forall of_source :=
  ⟨trivial,trivial,trivial,from_source_operation _⟩

theorem supply_within_bounds_limited : ∃ (L : Ledger) (a : AssetObject), L.assets.find? 2 = some a ∧
    a.dynamic.current_supply = 100 ∧ a.options.max_supply = 500 ∧ 0 ≤ a.dynamic.current_supply ∧
    a.dynamic.current_supply ≤ a.options.max_supply ∧ a.options.max_supply ≤ max_share_supply := by
  have reached : Reached small_genesis (each_applied keeps_share_limit) (after_actions (limited_asset 500)) := by
    refine reached_after_allowed ⟨?_,?_,?_,?_⟩ (by decide +kernel)
    case refine_4 =>
      have small : ((500 : UInt64).toNat : Int) ≤ max_share_supply := by decide
      exact fun L => each_applied_operation (from_source_operation _) (.inl ⟨update_limit 500,rfl,small⟩)
    all_goals exact fun L => each_applied_operation trivial trivial
  have stored : ((after_actions (limited_asset 500)).assets.find? 2).map
      (fun a => (a.is_monitored_asset,a.dynamic.current_supply,a.options.max_supply)) = some (false,100,500) := by
    decide +kernel
  obtain ⟨a,found,same⟩ := Option.map_eq_some_iff.mp stored
  simp only [Prod.mk.injEq] at same
  exact ⟨_,a,found,same.2.1,same.2.2,supply_within_bounds small_genesis _ reached 2 a found same.1 (by decide)⟩

/-- The update compares the new limit with the supply only. -/
theorem supply_unlimited : ¬ ∀ g L, Reached g source_step L → ∀ id a, L.assets.find? id = some a →
    a.is_monitored_asset = false → id ≠ core → a.bounded := by
  intro bounded
  have reached : Reached small_genesis source_step (after_actions (limited_asset (2^62))) :=
    reached_after_actions (limited_asset_of_source _) (by decide +kernel)
  have stored : ((after_actions (limited_asset (2^62))).assets.find? 2).map (fun a => (a.is_monitored_asset,a.options.max_supply)) =
      some (false,2^62) := by decide +kernel
  obtain ⟨a,found,same⟩ := Option.map_eq_some_iff.mp stored
  simp only [Prod.mk.injEq] at same
  have small := (bounded _ _ reached 2 a found same.1 (by decide)).2.2
  rw [same.2] at small
  exact absurd small (by decide)

/-! ### What is promised -/

/-- A fixed limit stays, and so does the precision of an asset that somebody has had. -/
structure AssetObject.Honors (a a' : AssetObject) (held : Prop) : Prop where
  fixed : a.options.fixed_max_supply = some true →
    a'.options.fixed_max_supply = some true ∧ a'.options.max_supply = a.options.max_supply
  precision : held → a'.precision = a.precision

theorem AssetObject.Honors.refl (a : AssetObject) (held : Prop) : a.Honors a held := ⟨fun fixed => ⟨fixed,rfl⟩,fun _ => rfl⟩

/-- There is a balance object of the asset. -/
def Ledger.has_balance (L : Ledger) (id : AssetId) : Prop := ∃ owner, (L.balances.find? (owner,id)).isSome

/-- No asset and no balance object is lost, and the assets honor their promises. -/
structure Promised (L L' : Ledger) : Prop where
  balances : ∀ {k}, (L.balances.find? k).isSome → (L'.balances.find? k).isSome
  assets : ∀ {id a}, L.assets.find? id = some a → ∃ a', L'.assets.find? id = some a' ∧ a.Honors a' (L.has_balance id)

theorem Promised.of_assets {L L' : Ledger} (balances : ∀ {k}, (L.balances.find? k).isSome → (L'.balances.find? k).isSome)
    (assets : L'.assets = L.assets) : Promised L L' where
  balances := balances
  assets {id a} found := ⟨a,by rw [assets]; exact found,.refl a _⟩

instance : Elsewhere Promised where
  refl _ := .of_assets id rfl
  trans first second := by
    refine ⟨fun here => second.balances (first.balances here),fun found => ?_⟩
    obtain ⟨b,found₁,honors₁⟩ := first.assets found
    obtain ⟨c,found₂,honors₂⟩ := second.assets found₁
    refine ⟨c,found₂,fun fixed => ?_,fun ⟨owner,held⟩ => ?_⟩
    · obtain ⟨fixed₁,same₁⟩ := honors₁.fixed fixed
      obtain ⟨fixed₂,same₂⟩ := honors₂.fixed fixed₁
      exact ⟨fixed₂,same₂.trans same₁⟩
    · exact (honors₂.precision ⟨owner,first.balances held⟩).trans (honors₁.precision ⟨owner,held⟩)
  elsewhere assets balances _ := .of_assets (by rw [balances]; exact id) assets

theorem promised_update (L : Ledger) (id : AssetId) {f : AssetObject → AssetObject}
    (honors : ∀ a, L.assets.find? id = some a → a.Honors (f a) (L.has_balance id)) : Promised L (L.modify_asset id f) := by
  refine ⟨fun here => here,fun {k a} found => ?_⟩
  show ∃ a', (L.assets.update id f).find? k = some a' ∧ _
  rw [Index.find?_update]
  split
  case isTrue here =>
    subst here
    rw [found]
    exact ⟨f a,rfl,honors a found⟩
  case isFalse => exact ⟨a,found,.refl a _⟩

instance : Pooling Promised where
  dynamic L id _ := promised_update L id fun _ _ => ⟨fun fixed => ⟨fixed,rfl⟩,fun _ => rfl⟩

instance : Entering Promised where
  balance L k b := by
    refine .of_assets (fun {j} here => ?_) rfl
    show ((L.balances.put k b).find? j).isSome
    rw [Table.find?_put]
    split
    · rfl
    · exact here
  vestings _ _ := .of_assets id rfl
  miners _ _ := .of_assets id rfl

instance : Creating Promised where
  asset L ao := by
    refine ⟨fun here => here,fun {id a} found => ⟨a,?_,.refl a _⟩⟩
    show (L.assets.create ao).find? id = some a
    rw [Index.find?_create,if_neg (Nat.ne_of_lt (L.assets.below id a found))]
    exact found

instance : Scheduling Promised where
  properties _ _ := .of_assets id rfl
  parameters _ _ _ := .of_assets id rfl

/-- Neither update touches a fixed limit, and the precision changes before there are balances. -/
theorem promised_writes {o : SettingsOperation} {L L' : Ledger} (writes : Writes L o L') : Promised L L' := by
  cases writes with
  | ready_to_publish o =>
    unfold ready_to_publish_apply
    dsimp only
    split <;> exact .of_assets id rfl
  | ready_to_publish2 o =>
    unfold ready_to_publish_apply
    dsimp only
    split <;> exact .of_assets id rfl
  | update_user_issued_asset o valid evaluated =>
    simp only [user_issued_asset_update_evaluate,reads_bind,reads_lift,get_asset_ok,fc_assert_ok] at evaluated
    obtain ⟨_,-,a,found,_,-,_,-,_,-,_,unchanged,-⟩ := evaluated
    refine promised_update L _ fun b here => ?_
    cases found.symm.trans here
    refine ⟨fun fixed => ⟨(o.fixed_max_supply_write a).trans fixed,?_⟩,fun _ => rfl⟩
    exact (o.max_supply_write a).trans (unchanged fixed)
  | update_user_issued_asset_advanced o evaluated =>
    simp only [update_user_issued_asset_advanced_evaluate,reads_bind,reads_lift,get_asset_ok,fc_assert_ok] at evaluated
    obtain ⟨a,found,_,-,_,-,_,-,_,-,rest⟩ := evaluated
    have checked : (a.options.fixed_max_supply ≠ some true ∨ o.set_fixed_max_supply = false) ∧
        (o.new_precision ≠ a.precision → ¬ L.has_balance o.asset_to_update) := by
      split at rest
      case isTrue =>
        simp only [reads_bind,reads_lift,fc_assert_ok] at rest
        obtain ⟨_,got,_,none,_,unfixed,-⟩ := rest
        cases got
        refine ⟨unfixed,fun _ some => ?_⟩
        obtain ⟨owner,held⟩ := some
        obtain ⟨row,member,here⟩ := List.mem_map.mp (Table.isSome_find?_iff.mp held)
        have other := List.all_eq_true.mp none row member
        simp [here] at other
      case isFalse same =>
        simp only [reads_bind,reads_lift,fc_assert_ok] at rest
        obtain ⟨_,unfixed,-⟩ := rest
        exact ⟨unfixed,fun changed => absurd (decide_eq_true changed) same⟩
    refine promised_update L _ fun b here => ?_
    cases found.symm.trans here
    constructor
    · intro fixed
      have unset : o.set_fixed_max_supply = false := checked.1.resolve_left fun unfixed => unfixed fixed
      simp [UpdateUserIssuedAssetAdvancedOperation.write,fixed,unset]
    · intro held
      have same : o.new_precision = a.precision := by
        by_contra changed
        exact checked.2 changed held
      simp [UpdateUserIssuedAssetAdvancedOperation.write,same]
  | update_monitored_asset o =>
    exact promised_update L _ fun a _ => ⟨fun fixed => ⟨fixed,rfl⟩,fun _ => rfl⟩
  | asset_publish_feed active o valid =>
    exact promised_update L _ fun a _ => ⟨fun fixed => ⟨fixed,rfl⟩,fun _ => rfl⟩

theorem promised_perform {action : Action} {L L' : Ledger} (source : source_step L action)
    (ran : EStateM.run (perform action) L = .ok () L') : Promised L L' := by
  have aloof {change : SettingsChange} {L L' : Ledger} (aloof : Aloof change) (applied : change.do_apply L = .ok L') :
      Promised L L' := .of_assets (by rw [(change.settled applied).balances]; exact id) (aloof L L' applied).1
  refine related_perform (fun _ _ => True) ?_ ?_ ?_ source ran
  · intro env executed op L L₂ L₃ x fee act source _ _ _ evaluated applied inside
    cases do_evaluate_touches evaluated with
    | elsewhere within => exact (within Promised).ok applied
    | propose payer paid ops => exact inside applied
    | settle payer paid change =>
      obtain ⟨_,settled,stored⟩ := run_observe_bind.mp applied
      cases stored
      rcases source with ⟨o,rfl⟩ | unrelated
      · exact promised_writes (do_apply_writes settled)
      · exact aloof unrelated settled
    | _ => exact Within.ok inferInstance applied
  · rintro change L L' (rfl | unrelated) applied
    · cases applied
      refine ⟨fun here => here,fun {id a} found => ?_⟩
      show ∃ a', (L.assets.mapValues _).find? id = some a' ∧ _
      rw [Index.find?_mapValues,found]
      exact ⟨_,rfl,fun fixed => ⟨fixed,rfl⟩,fun _ => rfl⟩
    · exact aloof unrelated applied
  · intro _ ran
    exact Within.ok (x := perform_chain_maintenance) inferInstance ran

/-- Runs of the source that go on from a ledger. -/
inductive Continues (L : Ledger) : Ledger → Prop
  | here : Continues L L
  | step {L₁ L₂ : Ledger} {action : Action} (before : Continues L L₁) (source : source_step L₁ action)
      (ran : EStateM.run (perform action) L₁ = .ok () L₂) : Continues L L₂

theorem Continues.promised {L L' : Ledger} (continues : Continues L L') : Promised L L' := by
  induction continues with
  | here => exact Composes.refl L
  | step before source ran ih => exact Composes.trans ih (promised_perform source ran)

/-- However a run goes on, no asset is lost; a fixed limit stays fixed and what it is, and the
    precision of an asset stays once there is a balance object of it. -/
theorem issuer_promises_kept (L L' : Ledger) (continues : Continues L L') (id : AssetId) (a : AssetObject)
    (found : L.assets.find? id = some a) : ∃ a', L'.assets.find? id = some a' ∧
      (a.options.fixed_max_supply = some true →
        a'.options.fixed_max_supply = some true ∧ a'.options.max_supply = a.options.max_supply) ∧
      ((∃ owner, (L.balances.find? (owner,id)).isSome) → a'.precision = a.precision) := by
  obtain ⟨a',found',honors⟩ := continues.promised.assets found
  exact ⟨a',found',honors.fixed,honors.precision⟩

/-- A user creates an asset, issues a hundred of it and fixes its limit of a thousand. -/
def fixed_asset : List Action := [new_account default_account.options,
  .operation free_env (.asset_create { odd_fee with fee := ⟨0,core⟩ }),
  .operation free_env (.asset_issue ⟨⟨0,core⟩,4,⟨100,2⟩,4⟩),.header 1536825605,
  .operation free_env (SettingsOperation.update_user_issued_asset_advanced ⟨⟨0,core⟩,4,2,4,true⟩).operation]

/-- An update that leaves the limit, and ends the exchange. -/
def end_exchange : Action :=
  .operation free_env (SettingsOperation.update_user_issued_asset ⟨⟨0,core⟩,4,2,none,1000,⟨⟨1,core⟩,⟨1,2⟩⟩,false⟩).operation

theorem issuer_promises_kept_update : ∃ (L L' : Ledger) (a a' : AssetObject), L.assets.find? 2 = some a ∧
    L'.assets.find? 2 = some a' ∧ a.options.is_exchangeable ≠ a'.options.is_exchangeable ∧
    a'.options.fixed_max_supply = some true ∧ a'.options.max_supply = 1000 ∧ a'.precision = 4 := by
  have ran := run_of_returned (s := after_actions fixed_asset) (x := perform end_exchange) (by decide +kernel)
  have source : source_step (after_actions fixed_asset) end_exchange :=
    each_applied_operation (from_source_operation _) trivial
  have stored : ((after_actions fixed_asset).assets.find? 2).map (fun a =>
      (a.options.is_exchangeable,a.options.fixed_max_supply,a.options.max_supply,a.precision)) =
      some (true,some true,1000,4) := by decide +kernel
  have changed : ((endState (EStateM.run (perform end_exchange) (after_actions fixed_asset))).assets.find? 2).map
      (·.options.is_exchangeable) = some false := by decide +kernel
  obtain ⟨a,found,same⟩ := Option.map_eq_some_iff.mp stored
  simp only [Prod.mk.injEq] at same
  obtain ⟨a',found',fixed,precision⟩ := issuer_promises_kept _ _ (Continues.here.step source ran) 2 a found
  obtain ⟨fixed',limit⟩ := fixed same.2.1
  rw [found',Option.map_some] at changed
  refine ⟨_,_,a,a',found,found',?_,fixed',limit.trans same.2.2.1,(precision ⟨4,by decide +kernel⟩).trans same.2.2.2⟩
  rw [same.1,Option.some.inj changed]
  decide

end Decent.Money

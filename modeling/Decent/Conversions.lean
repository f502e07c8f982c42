import Decent.Feeds

/-!
Conversions between an asset and the core asset. The test of a conversion is a copy of it: for every
asset it predicts what the conversion does, except that it asks a monitored asset for options that
the conversion does not look at. At a fixed rate all conversions round against the holder.
-/
namespace Decent.Money
open Throwing

/-! ### The conversion and its test -/

/-- Both pools of an asset have room for the changes. -/
def Room (d : DynamicData) (asset_pool_diff core_pool_diff : Int) : Prop :=
  (0 ≤ d.asset_pool + asset_pool_diff ∧ d.asset_pool + asset_pool_diff < 2^63) ∧
    0 ≤ d.core_pool + core_pool_diff ∧ d.core_pool + core_pool_diff < 2^63

/-- What the options of an asset must be for it to be converted at their rate. -/
def AssetOptions.convertible (o : AssetOptions) : Prop := o.is_exchangeable = true ∧ o.core_exchange_rate.is_null = false

/-- A conversion of a monitored asset, by its feed. -/
def ConvertsByFeed (m : MonitoredAssetOptions) (now : Nat) (id : AssetId) (amount x : Asset) : Prop :=
  m.feed_is_valid now = true ∧ (amount.asset_id = core ∨ amount.asset_id = id) ∧ m.current_feed.times amount = .ok x

/-- A conversion of any other asset, at the rate of its options and against its pools. -/
def ConvertsByRate (ao : AssetObject) (id : AssetId) (amount x : Asset) : Prop :=
  ao.options.convertible ∧ ao.options.core_exchange_rate.times amount = .ok x ∧ Fits (-x.amount) ∧
    if amount.asset_id = id then Room ao.dynamic amount.amount (-x.amount)
    else amount.asset_id = core ∧ Room ao.dynamic (-x.amount) amount.amount

/-- The three kinds of assets. -/
def Converts (L : Ledger) (id : AssetId) (amount x : Asset) : Prop :=
  ∃ ao, L.assets.find? id = some ao ∧
    if id = core then amount.asset_id = core ∧ amount = x
    else match ao.monitored_asset_opts with
      | some m => ConvertsByFeed m L.properties.time id amount x
      | none => ConvertsByRate ao id amount x

theorem modify_dynamic_returns {id : AssetId} {f : DynamicData → Except Fault DynamicData} {L : Ledger} {ao : AssetObject}
    (found : L.assets.find? id = some ao) :
    (∃ L', EStateM.run (modify_dynamic id f) L = .ok () L') ↔ ∃ d, f ao.dynamic = .ok d := by
  constructor
  · rintro ⟨L',ran⟩
    obtain ⟨a,d,found',changed,-⟩ := modify_dynamic_ok ran
    cases found.symm.trans found'
    exact ⟨d,changed⟩
  · rintro ⟨d,changed⟩
    refine ⟨_,run_observe_bind.mpr ⟨ao,get_asset_ok.mpr found,run_observe_bind.mpr ⟨d,changed,rfl⟩⟩⟩

theorem change_pools_returns {id : AssetId} {asset_pool_diff core_pool_diff : Int} {L : Ledger} {ao : AssetObject}
    (found : L.assets.find? id = some ao) :
    (∃ L', EStateM.run (convert_uia.change_pools id asset_pool_diff core_pool_diff) L = .ok () L') ↔
      Room ao.dynamic asset_pool_diff core_pool_diff := by
  rw [convert_uia.change_pools,modify_dynamic_returns found]
  simp only [bind_ok,checked_ok,fc_assert_ok,pure_ok,Room,Fits]
  constructor
  · rintro ⟨_,_,⟨fits,rfl⟩,_,asset_pool,_,⟨fits',rfl⟩,_,core_pool,-⟩
    exact ⟨⟨asset_pool,fits.2⟩,core_pool,fits'.2⟩
  · rintro ⟨⟨asset_pool,below⟩,core_pool,below'⟩
    exact ⟨_,_,⟨⟨by omega,below⟩,rfl⟩,(),asset_pool,_,⟨⟨by omega,below'⟩,rfl⟩,(),core_pool,rfl⟩

/-- The change of the pools, and then the amount. -/
theorem change_pools_pure_returns {id : AssetId} {asset_pool_diff core_pool_diff : Int} {converted x : Asset} {L : Ledger}
    {ao : AssetObject} (found : L.assets.find? id = some ao) :
    (∃ L', EStateM.run (do
      convert_uia.change_pools id asset_pool_diff core_pool_diff
      return converted) L = .ok x L') ↔ Room ao.dynamic asset_pool_diff core_pool_diff ∧ converted = x := by
  rw [← change_pools_returns found]
  constructor
  · rintro ⟨L',ran⟩
    obtain ⟨_,L₁,changed,same⟩ := run_bind_ok.mp ran
    cases same
    exact ⟨⟨_,changed⟩,rfl⟩
  · rintro ⟨⟨L',changed⟩,rfl⟩
    exact ⟨L',run_bind_ok.mpr ⟨(),L',changed,rfl⟩⟩

theorem convert_uia_returns {id : AssetId} {amount x : Asset} {L : Ledger} {ao : AssetObject}
    (found : L.assets.find? id = some ao) :
    (∃ L', EStateM.run (convert_uia id amount) L = .ok x L') ↔ ConvertsByRate ao id amount x := by
  have started : (∃ L', EStateM.run (convert_uia id amount) L = .ok x L') ↔ ao.options.convertible ∧
      ∃ converted, ao.options.core_exchange_rate.times amount = .ok converted ∧ Fits (-converted.amount) ∧
        (if amount.asset_id = id then Room ao.dynamic amount.amount (-converted.amount)
          else amount.asset_id = core ∧ Room ao.dynamic (-converted.amount) amount.amount) ∧ converted = x := by
    unfold convert_uia AssetOptions.convertible
    by_cases here : amount.asset_id = id
    · simp only [run_observe_bind,get_asset_ok,reads_lift,fc_assert_ok,here,if_true,Asset.negate_ok]
      constructor
      · rintro ⟨L',_,found',_,options,converted,times,_,⟨fits,rfl⟩,ran⟩
        cases found.symm.trans found'
        exact ⟨options,converted,times,fits,(change_pools_pure_returns found).mp ⟨L',ran⟩⟩
      · rintro ⟨options,converted,times,fits,rest⟩
        obtain ⟨L',ran⟩ := (change_pools_pure_returns found).mpr rest
        exact ⟨L',ao,found,(),options,converted,times,_,⟨fits,rfl⟩,ran⟩
    · simp only [run_observe_bind,get_asset_ok,reads_lift,fc_assert_ok,here,if_false,Asset.negate_ok]
      constructor
      · rintro ⟨L',_,found',_,options,_,inCore,converted,times,_,⟨fits,rfl⟩,ran⟩
        cases found.symm.trans found'
        obtain ⟨room,same⟩ := (change_pools_pure_returns found).mp ⟨L',ran⟩
        exact ⟨options,converted,times,fits,⟨inCore,room⟩,same⟩
      · rintro ⟨options,converted,times,fits,⟨inCore,room⟩,same⟩
        obtain ⟨L',ran⟩ := (change_pools_pure_returns found).mpr ⟨room,same⟩
        exact ⟨L',ao,found,(),options,(),inCore,converted,times,_,⟨fits,rfl⟩,ran⟩
  rw [started,ConvertsByRate]
  constructor
  · rintro ⟨options,_,times,fits,room,rfl⟩
    exact ⟨options,times,fits,room⟩
  · rintro ⟨options,times,fits,room⟩
    exact ⟨options,x,times,fits,room,rfl⟩

theorem convert_mia_returns {id : AssetId} {amount x : Asset} {L : Ledger} {ao : AssetObject} {m : MonitoredAssetOptions}
    (found : L.assets.find? id = some ao) (monitored : ao.monitored_asset_opts = some m) :
    convert_mia id amount L = .ok x ↔ ConvertsByFeed m L.properties.time id amount x := by
  unfold convert_mia ConvertsByFeed
  rw [reads_bind]
  constructor
  · rintro ⟨_,found',ran⟩
    cases found.symm.trans (get_asset_ok.mp found')
    rw [monitored] at ran
    simp only [reads_bind,reads_lift,fc_assert_ok] at ran
    obtain ⟨_,same,_,valid,_,ids,times⟩ := ran
    cases same
    exact ⟨valid,ids,times⟩
  · rintro ⟨valid,ids,times⟩
    refine ⟨ao,get_asset_ok.mpr found,?_⟩
    rw [monitored]
    simp only [reads_bind,reads_lift,fc_assert_ok]
    exact ⟨L,rfl,(),valid,(),ids,times⟩

/-- What a conversion returns. -/
theorem convert_returns {id : AssetId} {amount x : Asset} {L : Ledger} :
    (∃ L', EStateM.run (convert id amount) L = .ok x L') ↔ Converts L id amount x := by
  unfold convert Converts
  simp only [run_observe_bind,get_asset_ok]
  rw [exists_comm]
  refine exists_congr fun ao => ?_
  rw [exists_and_left]
  refine and_congr_right fun found => ?_
  by_cases inCore : id = core
  · simp only [inCore,if_true,run_observe_bind,reads_lift,fc_assert_ok,exists_const]
    constructor
    · rintro ⟨_,ids,same⟩
      cases same
      exact ⟨ids,rfl⟩
    · rintro ⟨ids,rfl⟩
      exact ⟨L,ids,rfl⟩
  · simp only [inCore,if_false,AssetObject.is_monitored_asset]
    obtain monitored | ⟨m,monitored⟩ := Option.eq_none_or_eq_some ao.monitored_asset_opts
    · simp only [monitored,Option.isSome_none,Bool.false_eq_true,if_false]
      exact convert_uia_returns found
    · simp only [monitored,Option.isSome_some,if_true,run_observe]
      rw [← convert_mia_returns found monitored]
      exact ⟨fun ⟨_,ran,_⟩ => ran,fun ran => ⟨L,ran,rfl⟩⟩

theorem enough_iff {d : DynamicData} {converted x : Asset} {asset_pool_diff core_pool_diff : Int} {L : Ledger} :
    can_convert.enough d converted asset_pool_diff core_pool_diff L = .ok (some x) ↔
      Room d asset_pool_diff core_pool_diff ∧ converted = x := by
  simp only [can_convert.enough,reads_bind,reads_lift,checked_ok,Room,Fits]
  constructor
  · rintro ⟨_,⟨fits,rfl⟩,tested⟩
    split at tested
    · cases reads_pure.mp tested
    · simp only [reads_bind,reads_lift,checked_ok,Fits] at tested
      obtain ⟨_,⟨fits',rfl⟩,tested⟩ := tested
      split at tested
      · cases reads_pure.mp tested
      · cases reads_pure.mp tested
        exact ⟨⟨⟨by omega,fits.2⟩,by omega,fits'.2⟩,rfl⟩
  · rintro ⟨⟨⟨asset_pool,below⟩,core_pool,below'⟩,rfl⟩
    refine ⟨_,⟨⟨by omega,below⟩,rfl⟩,?_⟩
    rw [if_neg (by omega)]
    simp only [reads_bind,reads_lift,checked_ok,Fits]
    refine ⟨_,⟨⟨by omega,below'⟩,rfl⟩,?_⟩
    rw [if_neg (by omega)]
    rfl

section
variable {id : AssetId} {amount x : Asset} {L : Ledger} {ao : AssetObject}

theorem not_convertible_iff {o : AssetOptions} :
    (o.is_exchangeable = false ∨ o.core_exchange_rate.is_null = true) ↔ ¬o.convertible := by
  unfold AssetOptions.convertible
  cases o.is_exchangeable <;> cases o.core_exchange_rate.is_null <;> decide

/-- The test of an asset with these options, in the first steps that all kinds have. -/
theorem can_convert_core (found : L.assets.find? core = some ao) :
    can_convert core amount L = .ok (some x) ↔ amount.asset_id = core ∧ amount = x := by
  unfold can_convert
  rw [reads_bind]
  simp only [get_asset_ok.mpr found,Except.ok.injEq,exists_eq_left',if_true]
  by_cases ids : amount.asset_id = core
  · simp [ids,reads_pure]
  · simp [ids,reads_pure]

theorem can_convert_refuses (found : L.assets.find? id = some ao) (notCore : id ≠ core) (options : ¬ao.options.convertible) :
    ¬can_convert id amount L = .ok (some x) := by
  unfold can_convert
  rw [reads_bind]
  simp only [get_asset_ok.mpr found,Except.ok.injEq,exists_eq_left',if_neg notCore,if_pos (not_convertible_iff.mpr options)]
  exact nofun

/-- The test of an asset that is converted at a rate makes the conversion but for the change of the pools. -/
theorem can_convert_uia (found : L.assets.find? id = some ao) (notCore : id ≠ core) (convertible : ao.options.convertible)
    (unmonitored : ao.monitored_asset_opts = none) :
    can_convert id amount L = .ok (some x) ↔ ConvertsByRate ao id amount x := by
  have options := mt not_convertible_iff.mp (not_not.mpr convertible)
  unfold can_convert ConvertsByRate
  rw [reads_bind]
  simp only [get_asset_ok.mpr found,Except.ok.injEq,exists_eq_left',if_neg notCore,if_neg options,unmonitored,
    convertible,true_and]
  by_cases here : amount.asset_id = id
  · simp only [here,if_true,reads_bind,reads_lift,Asset.negate_ok,enough_iff]
    constructor
    · rintro ⟨_,times,_,⟨fits,rfl⟩,room,rfl⟩
      exact ⟨times,fits,room⟩
    · rintro ⟨times,fits,room⟩
      exact ⟨x,times,_,⟨fits,rfl⟩,room,rfl⟩
  · simp only [if_neg here]
    by_cases ids : amount.asset_id = core
    · rw [if_neg (not_not.mpr ids)]
      simp only [reads_bind,reads_lift,Asset.negate_ok,enough_iff]
      constructor
      · rintro ⟨_,times,_,⟨fits,rfl⟩,room,rfl⟩
        exact ⟨times,fits,ids,room⟩
      · rintro ⟨times,fits,-,room⟩
        exact ⟨x,times,_,⟨fits,rfl⟩,room,rfl⟩
    · rw [if_pos ids]
      exact ⟨fun refused => (by cases refused),fun converts => absurd converts.2.2.1 ids⟩

/-- The test of a monitored asset makes its conversion. -/
theorem can_convert_mia {m : MonitoredAssetOptions} (found : L.assets.find? id = some ao) (notCore : id ≠ core)
    (convertible : ao.options.convertible) (monitored : ao.monitored_asset_opts = some m) :
    can_convert id amount L = .ok (some x) ↔ ConvertsByFeed m L.properties.time id amount x := by
  have options := mt not_convertible_iff.mp (not_not.mpr convertible)
  unfold can_convert ConvertsByFeed
  rw [reads_bind]
  simp only [get_asset_ok.mpr found,Except.ok.injEq,exists_eq_left',if_neg notCore,if_neg options,monitored]
  rw [reads_read]
  by_cases valid : m.feed_is_valid L.properties.time = true ∧ (amount.asset_id = core ∨ amount.asset_id = id)
  · rw [if_pos valid]
    simp only [reads_bind,reads_lift,reads_pure,Option.some.injEq]
    constructor
    · rintro ⟨_,times,rfl⟩
      exact ⟨valid.1,valid.2,times⟩
    · rintro ⟨-,-,times⟩
      exact ⟨x,times,rfl⟩
  · rw [if_neg valid]
    exact ⟨fun refused => (by cases refused),fun converts => absurd ⟨converts.1,converts.2.1⟩ valid⟩

/-- What the test of a conversion promises. -/
theorem can_convert_returns :
    can_convert id amount L = .ok (some x) ↔ ∃ ao, L.assets.find? id = some ao ∧
      if id = core then amount.asset_id = core ∧ amount = x
      else ao.options.convertible ∧ match ao.monitored_asset_opts with
        | some m => ConvertsByFeed m L.properties.time id amount x
        | none => ConvertsByRate ao id amount x := by
  cases found : L.assets.find? id with
  | none =>
    constructor
    · intro ran
      obtain ⟨ao,read,-⟩ := reads_bind.mp ran
      cases found.symm.trans (get_asset_ok.mp read)
    · rintro ⟨ao,found',-⟩
      cases found'
  | some ao =>
    simp only [Option.some.injEq,exists_eq_left']
    split
    case isTrue inCore =>
      subst inCore
      exact can_convert_core found
    case isFalse notCore =>
      by_cases convertible : ao.options.convertible
      · rw [and_iff_right convertible]
        cases monitored : ao.monitored_asset_opts with
        | none => exact can_convert_uia found notCore convertible monitored
        | some m => exact can_convert_mia found notCore convertible monitored
      · exact iff_of_false (can_convert_refuses found notCore convertible) fun tested => convertible tested.1

end

/-- Where it throws, a step leaves the state as it found it. -/
def Atomic {α : Type} (x : M α) : Prop := ∀ {L L' e}, EStateM.run x L = .error e L' → L' = L

theorem atomic_observe {α : Type} (r : Reads α) : Atomic (observe r) := by
  intro L L' e ran
  cases read : r L with
  | ok a => cases (run_observe_ok read).symm.trans ran
  | error e' =>
    cases (run_observe_error read).symm.trans ran
    rfl

/-- What is read first can throw, but changes nothing. -/
theorem atomic_observe_bind {α β : Type} {r : Reads α} {f : α → M β} (rest : ∀ a, Atomic (f a)) :
    Atomic (observe r >>= f) := by
  intro L L' e ran
  rw [EStateM.run_bind] at ran
  cases read : r L with
  | ok a =>
    rw [run_observe_ok read] at ran
    exact rest a ran
  | error e' =>
    rw [run_observe_error read] at ran
    cases ran
    rfl

theorem atomic_pure {α : Type} (a : α) : Atomic (pure a : M α) := fun ran => by cases ran

/-- Nothing throws after a change. -/
theorem atomic_bind_pure {α β : Type} {x : M α} (atomic : Atomic x) (b : β) : Atomic (x >>= fun _ => pure b) := by
  intro L L' e ran
  rw [EStateM.run_bind] at ran
  cases first : EStateM.run x L with
  | ok a L₁ =>
    rw [first] at ran
    cases ran
  | error e' L₁ =>
    rw [first] at ran
    cases ran
    exact atomic first

theorem atomic_change_pools (id : AssetId) (asset_pool_diff core_pool_diff : Int) :
    Atomic (convert_uia.change_pools id asset_pool_diff core_pool_diff) := fun ran => modify_dynamic_error ran

theorem atomic_convert_uia (id : AssetId) (amount : Asset) : Atomic (convert_uia id amount) := by
  refine atomic_observe_bind fun ao => atomic_observe_bind fun _ => ?_
  dsimp only
  split
  · exact atomic_observe_bind fun converted => atomic_observe_bind fun diff =>
      atomic_bind_pure (atomic_change_pools id _ _) converted
  · exact atomic_observe_bind fun _ => atomic_observe_bind fun converted => atomic_observe_bind fun diff =>
      atomic_bind_pure (atomic_change_pools id _ _) converted

/-- A conversion that throws leaves no trace. -/
theorem atomic_convert (id : AssetId) (amount : Asset) : Atomic (convert id amount) := by
  refine atomic_observe_bind fun ao => ?_
  split
  · exact atomic_observe_bind fun _ => atomic_pure amount
  · split
    · exact atomic_observe _
    · exact atomic_convert_uia id amount

/-- The test returns an amount exactly when the conversion does, and the same, and the conversion
    changes nothing when it throws. -/
def Predicted (L : Ledger) (id : AssetId) (amount : Asset) : Prop :=
  (∀ x, can_convert id amount L = .ok (some x) ↔ ∃ L', EStateM.run (convert id amount) L = .ok x L') ∧
    ∀ e L', EStateM.run (convert id amount) L = .error e L' → L'.assets = L.assets

/-- A monitored asset whose options would not let it be converted, but whose feed does. -/
def FeedOnly (L : Ledger) (id : AssetId) (amount : Asset) : Prop :=
  id ≠ core ∧ ∃ ao m, L.assets.find? id = some ao ∧ ao.monitored_asset_opts = some m ∧ ¬ao.options.convertible ∧
    m.feed_is_valid L.properties.time = true ∧ (amount.asset_id = core ∨ amount.asset_id = id) ∧
    ∃ x, m.current_feed.times amount = .ok x

theorem can_convert_iff (L : Ledger) (id : AssetId) (amount : Asset) :
    Predicted L id amount ↔ ¬FeedOnly L id amount := by
  simp only [Predicted,convert_returns,can_convert_returns,Converts]
  constructor
  · rintro ⟨same,-⟩ ⟨notCore,ao,m,found,monitored,options,valid,ids,x,times⟩
    obtain ⟨_,found',tested⟩ := (same x).mpr ⟨ao,found,by
      simp only [if_neg notCore,monitored]
      exact ⟨valid,ids,times⟩⟩
    cases found.symm.trans found'
    rw [if_neg notCore] at tested
    exact options tested.1
  · intro notFeed
    refine ⟨fun x => exists_congr fun ao => and_congr_right fun found => ?_,fun e L' ran => ?_⟩
    · by_cases inCore : id = core
      · rw [if_pos inCore,if_pos inCore]
      · rw [if_neg inCore,if_neg inCore]
        refine and_iff_right_of_imp fun converts => ?_
        obtain monitored | ⟨m,monitored⟩ := Option.eq_none_or_eq_some ao.monitored_asset_opts
        · simp only [monitored] at converts
          exact converts.1
        · simp only [monitored] at converts
          obtain ⟨valid,ids,times⟩ := converts
          by_contra options
          exact notFeed ⟨inCore,ao,m,found,monitored,options,valid,ids,x,times⟩
    · rw [atomic_convert id amount ran]

/-- Dollars have a feed of two for a core, and options without a rate. -/
theorem dollar_feed_only : ∃ L, Reachable small_genesis L ∧
    (∃ L', EStateM.run (convert 1 ⟨100,core⟩) L = .ok ⟨200,1⟩ L') ∧
    can_convert 1 ⟨100,core⟩ L = .ok none ∧ ¬Predicted L 1 ⟨100,core⟩ := by
  have reachable : Reachable small_genesis (after_actions [.operation free_env publish_feed.operation]) :=
    reachable_after_actions (by decide +kernel)
  have tested : can_convert 1 ⟨100,core⟩ (after_actions [.operation free_env publish_feed.operation]) = .ok none := by
    decide +kernel
  have returned : ∃ L', EStateM.run (do
      let x ← convert 1 ⟨100,core⟩
      observe (fc_assert (x = ⟨200,1⟩))) (after_actions [.operation free_env publish_feed.operation]) = .ok () L' :=
    ⟨_,run_of_returned (by decide +kernel)⟩
  obtain ⟨_,ran⟩ := returned
  obtain ⟨x,L',converted,same⟩ := run_bind_ok.mp ran
  obtain rfl : x = ⟨200,1⟩ := fc_assert_ok.mp (run_observe.mp same).1
  refine ⟨_,reachable,⟨L',converted⟩,tested,fun predicted => ?_⟩
  cases tested.symm.trans ((predicted.1 ⟨200,1⟩).mpr ⟨L',converted⟩)

end Decent.Money

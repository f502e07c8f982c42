import Decent.Settings
import Decent.Lib.Ranks
import Mathlib.Algebra.Order.Field.Rat
import Mathlib.Data.Rat.Cast.Order

/-!
The cached feed of a monitored asset against the feeds it was computed from. A feed that is
published is quoted in core, so the price order on feeds is that of their ratios, and what
`nth_element` leaves is the median. The cached one stays current until the oldest feed in it
expires, and then the end of the block computes it anew, unless the issuer has changed what
counts in between.
-/
namespace Decent.Money
open Throwing

/-! ### The price order -/

/-- A rate of an asset in core. -/
structure Price.Quoted (p : Price) (id : AssetId) : Prop where
  base : p.base.asset_id = id
  quote : p.quote.asset_id = core
  base_range : 0 < p.base.amount ∧ p.base.amount < 2^63
  quote_range : 0 < p.quote.amount ∧ p.quote.amount < 2^63

def Price.ratio (p : Price) : ℚ := p.base.amount / p.quote.amount

theorem product128_small {x y : Int} (left : 0 < x ∧ x < 2^63) (right : 0 < y ∧ y < 2^63) : product128 x y = x * y := by
  have positive : 0 ≤ x * y := Int.mul_nonneg (Int.le_of_lt left.1) (Int.le_of_lt right.1)
  have small : x * y < 2^63 * 2^63 := mul_lt_mul'' left.2 right.2 (Int.le_of_lt left.1) (Int.le_of_lt right.1)
  exact Int.emod_eq_of_lt positive (by omega)

theorem less_iff {a b : Price} {id : AssetId} (first : a.Quoted id) (second : b.Quoted id) :
    a.less b = true ↔ a.ratio < b.ratio := by
  have left : (0 : ℚ) < a.quote.amount := by exact_mod_cast first.quote_range.1
  have right : (0 : ℚ) < b.quote.amount := by exact_mod_cast second.quote_range.1
  have compared : a.less b = decide (b.quote.amount * a.base.amount < a.quote.amount * b.base.amount) := by
    simp only [Price.less,first.base,second.base,first.quote,second.quote,Nat.lt_irrefl,if_false]
    rw [product128_small second.quote_range first.base_range,product128_small first.quote_range second.base_range]
  rw [compared,decide_eq_true_eq,Price.ratio,Price.ratio,div_lt_div_iff₀ left right,mul_comm b.quote.amount,
    mul_comm a.quote.amount]
  exact_mod_cast Iff.rfl

/-- The element of rank half of the size in the price order. -/
structure Median (feeds : List Price) (m : Price) : Prop where
  member : m ∈ feeds
  below : feeds.countP (fun f => f.less m) ≤ feeds.length / 2
  above : feeds.length / 2 < feeds.countP (fun f => m.less f = false)

theorem median_of_median {feeds : List Price} {id : AssetId} (quoted : ∀ f ∈ feeds, f.Quoted id) (some : 0 < feeds.length) :
    Median feeds (median_of feeds) := by
  have reversed {a b : Price} (first : a ∈ feeds) (second : b ∈ feeds) : b.less a = false ↔ a.ratio ≤ b.ratio := by
    rw [← Bool.not_eq_true,less_iff (quoted b second) (quoted a first),not_lt]
  have half : feeds.length / 2 < feeds.length := by omega
  obtain ⟨member,below,above⟩ := Ranks.rank_insertionSort (r := fun a b : Price => b.less a = false) Price.ratio
    (fun a first b second => reversed first second) half null_feed
  change median_of feeds ∈ feeds at member
  change feeds.countP (fun f => f.ratio < (median_of feeds).ratio) ≤ _ at below
  change _ < feeds.countP (fun f => f.ratio ≤ (median_of feeds).ratio) at above
  refine ⟨member,le_trans (le_of_eq ?_) below,lt_of_lt_of_eq above ?_⟩
  · exact List.countP_congr fun f inside => by
      rw [less_iff (quoted f inside) (quoted _ member),decide_eq_true_eq]
  · exact List.countP_congr fun f inside => by
      rw [decide_eq_true_eq,decide_eq_true_eq,reversed inside member]

theorem median_of_single (p : Price) : median_of [p] = p := by simp [median_of]

/-! ### The cached feed -/

namespace MonitoredAssetOptions
variable {m : MonitoredAssetOptions} {now : Nat}

/-- What the cached feed is computed as. -/
def expected (m : MonitoredAssetOptions) (now : Nat) : Price :=
  if (m.unexpired now).length < m.minimum_feeds then null_feed else median_of ((m.unexpired now).map Prod.snd)

/-- The cached feed is what it would be computed as, and no older than the feeds in it. -/
structure Fresh (m : MonitoredAssetOptions) (now : Nat) : Prop where
  feed : m.current_feed = m.expected now
  since : m.minimum_feeds ≤ (m.unexpired now).length → ∀ f ∈ m.unexpired now, m.current_feed_publication_time ≤ f.1

theorem feeds_update_median_feeds (m : MonitoredAssetOptions) (now : Nat) : (m.update_median_feeds now).feeds = m.feeds ∧
    (m.update_median_feeds now).feed_lifetime_sec = m.feed_lifetime_sec ∧
    (m.update_median_feeds now).minimum_feeds = m.minimum_feeds := by
  unfold update_median_feeds
  dsimp only
  split <;> exact ⟨rfl,rfl,rfl⟩

theorem unexpired_update_median_feeds (m : MonitoredAssetOptions) (now t : Nat) :
    (m.update_median_feeds now).unexpired t = m.unexpired t := by
  obtain ⟨feeds,lifetime,-⟩ := feeds_update_median_feeds m now
  rw [unexpired,unexpired,feeds,lifetime]

theorem foldl_min_le {times : List Nat} {t now : Nat} (member : t ∈ times) : times.foldl min now ≤ t := by
  have start : ∀ (times : List Nat) (now : Nat), times.foldl min now ≤ now := by
    intro times
    induction times with
    | nil => exact fun _ => le_rfl
    | cons t rest ih => exact fun now => (ih (min now t)).trans (min_le_left _ _)
  induction times generalizing now with
  | nil => cases member
  | cons u rest ih =>
    rcases List.mem_cons.mp member with rfl | inside
    · exact (start rest _).trans (min_le_right _ _)
    · exact ih inside

theorem fresh_update_median_feeds (m : MonitoredAssetOptions) (now : Nat) : (m.update_median_feeds now).Fresh now := by
  have same := unexpired_update_median_feeds m now now
  obtain ⟨-,-,minimum⟩ := feeds_update_median_feeds m now
  constructor
  · rw [expected,same,minimum]
    unfold update_median_feeds
    dsimp only
    split
    · rfl
    · dsimp only
      split
      case h_1 single alone =>
        rw [alone]
        exact (median_of_single _).symm
      case h_2 => rfl
  · rw [same,minimum]
    intro enough f member
    unfold update_median_feeds
    dsimp only
    rw [if_neg (Nat.not_lt.mpr enough)]
    exact foldl_min_le (List.mem_map_of_mem member)

/-- A cached feed that is not due stays what it is. -/
theorem Fresh.lasting {t : Nat} (fresh : m.Fresh now) (before : now ≤ t) (valid : m.feed_is_expired t = false) : m.Fresh t := by
  have fewer : (m.unexpired t).Sublist (m.unexpired now) := by
    refine List.monotone_filter_right _ fun f open_ => ?_
    simp only [decide_eq_true_eq] at open_ ⊢
    omega
  by_cases enough : m.minimum_feeds ≤ (m.unexpired now).length
  · have same : m.unexpired t = m.unexpired now := by
      refine List.filter_congr fun f member => ?_
      have ahead : t < later m.current_feed_publication_time m.feed_lifetime_sec := by
        simpa [feed_is_expired] using valid
      have lifted : later m.current_feed_publication_time m.feed_lifetime_sec ≤
          m.current_feed_publication_time + m.feed_lifetime_sec := Nat.mod_le _ _
      by_cases here : (now : Int) - f.1 < m.feed_lifetime_sec ∧ f.1 ≠ 0
      · have since := fresh.since enough f (List.mem_filter.mpr ⟨member,decide_eq_true here⟩)
        have later : (t : Int) - f.1 < m.feed_lifetime_sec ∧ f.1 ≠ 0 := ⟨by omega,here.2⟩
        rw [decide_eq_true here,decide_eq_true later]
      · have never : ¬ ((t : Int) - f.1 < m.feed_lifetime_sec ∧ f.1 ≠ 0) := fun later => here ⟨by omega,later.2⟩
        rw [decide_eq_false here,decide_eq_false never]
    refine ⟨?_,?_⟩
    · rw [fresh.feed,expected,expected,same]
    · rw [same]
      exact fresh.since
  · have few := fewer.length_le
    refine ⟨?_,fun now => absurd (now.trans few) enough⟩
    rw [fresh.feed,expected,expected,if_pos (by omega),if_pos (by omega)]

/-- What every run keeps of the feeds of an asset: the cached one is current or due. -/
structure Held (m : MonitoredAssetOptions) (id : AssetId) (now : Nat) : Prop where
  quoted : ∀ row ∈ m.feeds.rows, row.2.2.Quoted id
  minimum : 0 < m.minimum_feeds
  cached : m.feed_is_expired now = true ∨ m.Fresh now

theorem Held.lasting {id : AssetId} {t : Nat} (held : m.Held id now) (before : now ≤ t) : m.Held id t := by
  refine ⟨held.quoted,held.minimum,?_⟩
  cases due : m.feed_is_expired t with
  | true => exact .inl rfl
  | false =>
    refine .inr ?_
    rcases held.cached with earlier | fresh
    · simp only [feed_is_expired,decide_eq_true_eq,decide_eq_false_iff_not] at earlier due
      omega
    · exact fresh.lasting before due

/-- The null feed when there are too few, and the median of the feeds that are not expired. -/
def Current (m : MonitoredAssetOptions) (now : Nat) : Prop :=
  if (m.unexpired now).length < m.minimum_feeds then m.current_feed = null_feed
  else Median ((m.unexpired now).map Prod.snd) m.current_feed

theorem Fresh.current {id : AssetId} (fresh : m.Fresh now) (quoted : ∀ row ∈ m.feeds.rows, row.2.2.Quoted id)
    (minimum : 0 < m.minimum_feeds) : m.Current now := by
  rw [Current,fresh.feed,expected]
  split
  case isTrue => rfl
  case isFalse enough =>
    refine @median_of_median _ id (fun f member => ?_) ?_
    · obtain ⟨timed,inside,rfl⟩ := List.mem_map.mp member
      obtain ⟨row,stored,rfl⟩ := List.mem_map.mp (List.mem_filter.mp inside).1
      exact quoted row stored
    · rw [List.length_map]
      omega

end MonitoredAssetOptions

/-! ### What changes the options -/

/-- Which terms the issuer can set without the cached feed going stale: it is due at once, or it
    was not due and the same feeds count, or there are too few before and after. -/
def MonitoredAssetOptions.admits (m : MonitoredAssetOptions) (feed_lifetime_sec minimum_feeds now : Nat) : Prop :=
  let after := ({ m with feed_lifetime_sec := feed_lifetime_sec } : MonitoredAssetOptions).unexpired now
  later m.current_feed_publication_time feed_lifetime_sec ≤ now ∨
    m.feed_is_expired now = false ∧
      ((m.unexpired now).length < m.minimum_feeds ∧ after.length < minimum_feeds ∨
        m.minimum_feeds ≤ (m.unexpired now).length ∧ minimum_feeds ≤ after.length ∧ after = m.unexpired now)

/-- An update of a monitored asset leaves the cached feed right, or due. -/
def SettingsOperation.keeps_feeds (L : Ledger) : SettingsOperation → Prop
  | .update_monitored_asset o => ∀ a m, L.assets.find? o.asset_to_update = some a → a.monitored_asset_opts = some m →
    m.admits (if o.new_feed_lifetime_sec ≠ 0 then o.new_feed_lifetime_sec else m.feed_lifetime_sec)
      (if o.new_minimum_feeds ≠ 0 then o.new_minimum_feeds else m.minimum_feeds) L.properties.time
  | _ => True

/-- And a monitored asset is created without feeds, its cached feed null or due. -/
def keeps_feeds (op : Operation) (L : Ledger) : Prop :=
  match op with
  | .asset_create o => ∀ m, o.monitored_asset_opts = some m → m.feeds.rows = [] ∧
      (m.current_feed = null_feed ∨ m.feed_is_expired L.properties.time = true)
  | .other _ _ change => (∃ o : SettingsOperation, change = o.change ∧ o.keeps_feeds L) ∨ Aloof change
  | _ => True

theorem held_update {o : UpdateMonitoredAssetOperation} {m : MonitoredAssetOptions} {id : AssetId} {now : Nat}
    (held : m.Held id now)
    (admits : m.admits (if o.new_feed_lifetime_sec ≠ 0 then o.new_feed_lifetime_sec else m.feed_lifetime_sec)
      (if o.new_minimum_feeds ≠ 0 then o.new_minimum_feeds else m.minimum_feeds) now) : (o.write m).Held id now := by
  refine ⟨held.quoted,?_,?_⟩
  · show 0 < if o.new_minimum_feeds ≠ 0 then o.new_minimum_feeds else m.minimum_feeds
    split
    · omega
    · exact held.minimum
  · rcases admits with due | ⟨valid,few | ⟨enough,after,same⟩⟩
    · exact .inl (decide_eq_true due)
    all_goals
      have fresh : m.Fresh now := held.cached.resolve_left (by rw [valid]; exact Bool.false_ne_true)
      refine .inr ⟨?_,?_⟩
    · exact fresh.feed.trans ((if_pos few.1).trans (if_pos few.2).symm)
    · exact fun enough => absurd enough (Nat.not_le.mpr few.2)
    · have as_before : (o.write m).unexpired now = m.unexpired now := same
      have counted : ¬ ((o.write m).unexpired now).length < (o.write m).minimum_feeds := Nat.not_lt.mpr after
      rw [MonitoredAssetOptions.expected,if_neg counted,as_before]
      exact fresh.feed.trans (if_neg (Nat.not_lt.mpr enough))
    · intro _ f member
      exact fresh.since enough f (same ▸ member)

theorem held_publish {o : AssetPublishFeedOperation} {m : MonitoredAssetOptions} {now : Nat} (valid : o.validate = true)
    (held : m.Held o.asset_id now) : (o.write now m).Held o.asset_id now := by
  simp only [AssetPublishFeedOperation.validate,Price.validate,Bool.and_eq_true,decide_eq_true_eq] at valid
  obtain ⟨⟨⟨quote,-⟩,⟨base_positive,quote_positive⟩,-⟩,base⟩ := valid
  have quoted : o.core_exchange_rate.Quoted o.asset_id :=
    ⟨base,quote,⟨base_positive,o.fits.1.2⟩,⟨quote_positive,o.fits.2.2⟩⟩
  obtain ⟨feeds,-,minimum⟩ := MonitoredAssetOptions.feeds_update_median_feeds
    { m with feeds := m.feeds.put o.publisher (now,o.core_exchange_rate) } now
  refine ⟨?_,?_,.inr (MonitoredAssetOptions.fresh_update_median_feeds _ _)⟩
  · rw [AssetPublishFeedOperation.write,feeds]
    rintro ⟨publisher,published⟩ member
    have entry := Table.find?_of_mem member
    rw [Table.find?_put] at entry
    split at entry
    · cases entry
      exact quoted
    · exact held.quoted _ (Table.mem_of_find? entry)
  · rw [AssetPublishFeedOperation.write,minimum]
    exact held.minimum

theorem held_expired {m : MonitoredAssetOptions} {id : AssetId} {now : Nat} (held : m.Held id now) :
    (if m.feed_is_expired now then m.update_median_feeds now else m).Held id now ∧
      (if m.feed_is_expired now then m.update_median_feeds now else m).Fresh now := by
  split
  case isTrue =>
    have fresh := MonitoredAssetOptions.fresh_update_median_feeds m now
    obtain ⟨feeds,-,minimum⟩ := MonitoredAssetOptions.feeds_update_median_feeds m now
    exact ⟨⟨feeds ▸ held.quoted,minimum ▸ held.minimum,.inr fresh⟩,fresh⟩
  case isFalse valid => exact ⟨held,held.cached.resolve_left valid⟩

/-! ### Every run -/

/-- Every monitored asset keeps its feeds. -/
def FeedsHeld (L : Ledger) : Prop :=
  ∀ id a m, L.assets.find? id = some a → a.monitored_asset_opts = some m → m.Held id L.properties.time

def Feeding (L L' : Ledger) : Prop := FeedsHeld L → FeedsHeld L'

/-- Other parts of the assets can change, and the clock can move on. -/
theorem FeedsHeld.carry {L L' : Ledger} (held : FeedsHeld L)
    (assets : ∀ id, (L'.assets.find? id).map AssetObject.monitored_asset_opts =
      (L.assets.find? id).map AssetObject.monitored_asset_opts) (clock : L.properties.time ≤ L'.properties.time) :
    FeedsHeld L' := by
  intro id a m found monitored
  have same := assets id
  rw [found,Option.map_some,monitored] at same
  obtain ⟨b,before,old⟩ := Option.map_eq_some_iff.mp same.symm
  exact (held id b m before old).lasting clock

instance : Elsewhere Feeding where
  refl _ := id
  trans first second := second ∘ first
  elsewhere assets _ clock held := held.carry (fun _ => by rw [assets]) (Nat.le_of_eq clock.symm)

instance : Entering Feeding where
  balance _ _ _ held := held
  vestings _ _ held := held
  miners _ _ held := held

instance : Pooling Feeding where
  dynamic L id _ held := held.carry (fun other => Index.map_find?_update L.assets id other fun _ => rfl) le_rfl

instance (timestamp : Nat) : Within Feeding (update_head timestamp) :=
  within_update_head fun _ ahead held => held.carry (fun _ => rfl) (Nat.le_of_lt ahead)

theorem FeedsHeld.change {L : Ledger} {id : AssetId} {f : MonitoredAssetOptions → MonitoredAssetOptions} (held : FeedsHeld L)
    (stays : ∀ a m, L.assets.find? id = some a → a.monitored_asset_opts = some m → m.Held id L.properties.time →
      (f m).Held id L.properties.time) : FeedsHeld (L.modify_asset id fun a => a.modify_monitored f) := by
  intro k a m found monitored
  have found : (L.assets.update id _).find? k = some a := found
  rw [Index.find?_update] at found
  split at found
  case isTrue here =>
    subst here
    obtain ⟨b,before,rfl⟩ := Option.map_eq_some_iff.mp found
    obtain ⟨n,old,rfl⟩ := Option.map_eq_some_iff.mp monitored
    exact stays b n before old (held k b n before old)
  case isFalse => exact held k a m found monitored

/-- Paying a fee changes no feeds. -/
theorem Prepared.monitored {L L' : Ledger} (prepared : Prepared L L') {id : AssetId} {a' : AssetObject}
    (found : L'.assets.find? id = some a') :
    ∃ a, L.assets.find? id = some a ∧ a.monitored_asset_opts = a'.monitored_asset_opts := by
  have same := prepared.assets id
  rw [found,Option.map_some] at same
  obtain ⟨a,before,described⟩ := Option.map_eq_some_iff.mp same.symm
  exact ⟨a,before,congrArg (·.monitored_asset_opts) described⟩

theorem keeps_feeds_prepared {o : SettingsOperation} {L L' : Ledger} (prepared : Prepared L L') (keeps : o.keeps_feeds L) :
    o.keeps_feeds L' := by
  cases o
  case update_monitored_asset o =>
    intro a m found monitored
    obtain ⟨b,before,same⟩ := prepared.monitored found
    have clock : L'.properties.time = L.properties.time := by rw [prepared.rest]
    rw [clock]
    exact keeps b m before (same.trans monitored)
  all_goals trivial

theorem feeding_create {o : AssetCreateOperation} {core_fee_paid : Int} {L₀ L L' : Ledger} (prepared : Prepared L₀ L)
    (valid : (Operation.asset_create o).validate = true) (keeps : keeps_feeds (.asset_create o) L₀)
    (ran : EStateM.run (asset_create_apply o core_fee_paid) L = .ok () L') : Feeding L L' := by
  cases ran
  intro held id a m found monitored
  have entry : (L.assets.create _).find? id = some a := found
  rw [Index.find?_create] at entry
  split at entry
  case isTrue =>
    cases entry
    have monitored : o.monitored_asset_opts = some m := monitored
    have clock : L.properties.time = L₀.properties.time := by rw [prepared.rest]
    obtain ⟨none,cached⟩ := keeps m monitored
    simp only [Operation.validate,monitored,MonitoredAssetOptions.validate,Bool.and_eq_true,decide_eq_true_eq] at valid
    obtain ⟨-,⟨-,minimum⟩,-⟩ := valid
    refine ⟨fun row member => ?_,minimum,?_⟩
    · rw [none] at member
      cases member
    · show m.feed_is_expired L.properties.time = true ∨ m.Fresh L.properties.time
      rw [clock]
      refine cached.symm.imp_right fun null => ?_
      have few : m.unexpired L₀.properties.time = [] := by rw [MonitoredAssetOptions.unexpired,none]; rfl
      refine ⟨?_,fun enough => ?_⟩
      · rw [null,MonitoredAssetOptions.expected,few,List.length_nil,if_pos minimum]
      · rw [few,List.length_nil] at enough
        omega
  case isFalse => exact held id a m entry monitored

theorem feeding_writes {o : SettingsOperation} {L L' : Ledger} (writes : Writes L o L') (keeps : o.keeps_feeds L) :
    Feeding L L' := by
  have same {id : AssetId} {f : AssetObject → AssetObject} (kept : ∀ a, (f a).monitored_asset_opts = a.monitored_asset_opts) :
      Feeding L (L.modify_asset id f) := fun held =>
    held.carry (fun other => Index.map_find?_update L.assets id other kept) le_rfl
  have published (o : ReadyToPublishOperation) : Feeding L (ready_to_publish_apply o L) := by
    unfold ready_to_publish_apply
    dsimp only
    split <;> exact id
  cases writes with
  | ready_to_publish o => exact published o
  | ready_to_publish2 o => exact published o
  | update_user_issued_asset o valid evaluated => exact same fun _ => rfl
  | update_user_issued_asset_advanced o evaluated => exact same fun _ => rfl
  | update_monitored_asset o =>
    exact fun held => held.change fun a m found monitored kept => held_update kept (keeps a m found monitored)
  | asset_publish_feed active o valid => exact fun held => held.change fun _ _ _ _ kept => held_publish valid kept

theorem feeding_perform {action : Action} {L L' : Ledger} (met : each_applied keeps_feeds L action)
    (ran : EStateM.run (perform action) L = .ok () L') : Feeding L L' := by
  have aloof {change : SettingsChange} {L L' : Ledger} (aloof : Aloof change) (applied : change.do_apply L = .ok L') :
      Feeding L L' :=
    Elsewhere.elsewhere (aloof L L' applied).1 (change.settled applied).balances (by rw [(change.settled applied).properties])
  refine related_perform keeps_feeds ?_ ?_ ?_ met ran
  · intro env executed op L L₂ L₃ x fee act _ keeps valid prepared evaluated applied inside
    cases do_evaluate_touches evaluated with
    | elsewhere within => exact (within Feeding).ok applied
    | create o fee core_fee_paid _ => exact feeding_create prepared valid keeps applied
    | propose payer paid ops => exact inside applied
    | settle payer paid change =>
      obtain ⟨_,settled,stored⟩ := run_observe_bind.mp applied
      cases stored
      rcases keeps with ⟨o,rfl,keeps⟩ | unrelated
      · exact feeding_writes (do_apply_writes settled) (keeps_feeds_prepared prepared keeps)
      · exact aloof unrelated settled
    | _ => exact Within.ok inferInstance applied
  · rintro change L L' (rfl | unrelated) applied
    · cases applied
      intro held id a m found monitored
      have found : (L.assets.mapValues _).find? id = some a := found
      rw [Index.find?_mapValues] at found
      obtain ⟨b,before,rfl⟩ := Option.map_eq_some_iff.mp found
      obtain ⟨n,old,rfl⟩ := Option.map_eq_some_iff.mp monitored
      exact (held_expired (held id b n before old)).1
    · exact aloof unrelated applied
  · intro _ ran
    exact Within.ok (x := perform_chain_maintenance) inferInstance ran

theorem feeds_held_genesis (g : GenesisState) : FeedsHeld (init_genesis g) := by
  intro id a m found monitored
  rcases genesis_assets_cases found with ⟨-,rfl⟩ | ⟨_,_,_,rfl⟩
  · cases monitored
  · cases monitored
    exact ⟨fun _ member => (nomatch member),by decide,.inr ⟨rfl,fun enough => absurd enough (Nat.not_succ_le_zero 0)⟩⟩

/-- The amount is converted at the median of the feeds that are not expired, and they are enough. -/
structure ConvertedFreshly (m : MonitoredAssetOptions) (now : Nat) (amount converted : Asset) : Prop where
  enough : m.minimum_feeds ≤ (m.unexpired now).length
  median : Median ((m.unexpired now).map Prod.snd) m.current_feed
  exchanged : m.current_feed.times amount = .ok converted

theorem MonitoredAssetOptions.Current.converted {m : MonitoredAssetOptions} {now : Nat} {amount converted : Asset}
    (current : m.Current now) (some : m.current_feed.is_null = false) (exchanged : m.current_feed.times amount = .ok converted) :
    ConvertedFreshly m now amount converted := by
  by_cases few : (m.unexpired now).length < m.minimum_feeds
  · rw [MonitoredAssetOptions.Current,if_pos few] at current
    rw [current] at some
    exact absurd some (by decide)
  · rw [MonitoredAssetOptions.Current,if_neg few] at current
    exact ⟨Nat.not_lt.mp few,current,exchanged⟩

/-- A cached feed that is not due is current. -/
theorem FeedsHeld.current {L : Ledger} (held : FeedsHeld L) {id : AssetId} {a : AssetObject} {m : MonitoredAssetOptions}
    (found : L.assets.find? id = some a) (monitored : a.monitored_asset_opts = some m)
    (valid : m.feed_is_expired L.properties.time = false) : m.Current L.properties.time := by
  have kept := held id a m found monitored
  have fresh := kept.cached.resolve_left (by rw [valid]; exact Bool.false_ne_true)
  exact fresh.current kept.quoted kept.minimum

/-- As long as issuers set no terms under which a cached feed goes stale, the feeds are current
    when a block ends; a conversion takes the median of enough feeds that are not expired, and so
    does the price of a subscription while the cached feed is not due. -/
theorem feeds_current (g : GenesisState) (L : Ledger) (reached : Reached g (each_applied keeps_feeds) L) :
    (∀ id a m, (update_expired_feeds L).assets.find? id = some a → a.monitored_asset_opts = some m →
      m.Current L.properties.time) ∧
    (∀ id amount converted, convert_mia id amount L = .ok converted → ∃ a m, L.assets.find? id = some a ∧
      a.monitored_asset_opts = some m ∧ ConvertedFreshly m L.properties.time amount converted) ∧
    ∀ id a m price paid, L.assets.find? id = some a → a.monitored_asset_opts = some m →
      m.feed_is_expired L.properties.time = false → subscription_price price a = .ok paid →
      ConvertedFreshly m L.properties.time price paid := by
  have held := reached.invariant (feeds_held_genesis g) fun held met ran => feeding_perform met ran held
  refine ⟨?_,?_,?_⟩
  · intro id a m found monitored
    have found : (L.assets.mapValues _).find? id = some a := found
    rw [Index.find?_mapValues] at found
    obtain ⟨b,before,rfl⟩ := Option.map_eq_some_iff.mp found
    obtain ⟨n,old,rfl⟩ := Option.map_eq_some_iff.mp monitored
    obtain ⟨kept,fresh⟩ := held_expired (held id b n before old)
    exact fresh.current kept.quoted kept.minimum
  · intro id amount converted ran
    rw [convert_mia,reads_bind] at ran
    obtain ⟨a,read,ran⟩ := ran
    have found := get_asset_ok.mp read
    cases monitored : a.monitored_asset_opts with
    | none =>
      rw [monitored] at ran
      cases ran
    | some m =>
      rw [monitored] at ran
      simp only [reads_bind,reads_lift,fc_assert_ok] at ran
      obtain ⟨_,got,_,valid,_,-,exchanged⟩ := ran
      cases got
      simp only [MonitoredAssetOptions.feed_is_valid,Bool.and_eq_true,Bool.not_eq_true'] at valid
      exact ⟨a,m,found,monitored,(held.current found monitored valid.1).converted valid.2 exchanged⟩
  · intro id a m price paid found monitored valid priced
    rw [subscription_price,monitored] at priced
    simp only [bind_ok,fc_assert_ok] at priced
    obtain ⟨_,some,exchanged⟩ := priced
    exact (held.current found monitored valid).converted some exchanged

/-- Two dollars for a core. -/
def publish_feed : SettingsOperation := .asset_publish_feed [0] ⟨⟨0,core⟩,0,1,⟨⟨2,1⟩,⟨1,core⟩⟩,by decide⟩

theorem feeds_current_published : ∃ (L : Ledger) (a : AssetObject) (m : MonitoredAssetOptions),
    (update_expired_feeds L).assets.find? 1 = some a ∧ a.monitored_asset_opts = some m ∧
    m.current_feed = ⟨⟨2,1⟩,⟨1,core⟩⟩ ∧ m.Current L.properties.time := by
  let actions : List Action := [.operation free_env publish_feed.operation,.header 1530000005]
  have reached : Reached small_genesis (each_applied keeps_feeds) (after_actions actions) := by
    refine reached_after_allowed ⟨fun L => ?_,fun _ => trivial⟩ (by decide +kernel)
    exact each_applied_operation (from_source_operation _) (.inl ⟨publish_feed,rfl,trivial⟩)
  have stored : (((update_expired_feeds (after_actions actions)).assets.find? 1).bind (·.monitored_asset_opts)).map
      (·.current_feed) = some ⟨⟨2,1⟩,⟨1,core⟩⟩ := by decide +kernel
  obtain ⟨m,found,feed⟩ := Option.map_eq_some_iff.mp stored
  obtain ⟨a,found,monitored⟩ := Option.bind_eq_some_iff.mp found
  exact ⟨_,a,m,found,monitored,feed,(feeds_current small_genesis _ reached).1 1 a m found monitored⟩

/-- After one feed is published the issuer asks for two, and the cached feed stays. -/
theorem cached_feed_stale : ¬ ∀ g L, Reached g source_step L → ∀ id a m, (update_expired_feeds L).assets.find? id = some a →
    a.monitored_asset_opts = some m → m.Current L.properties.time := by
  intro current
  let actions : List Action := [.operation free_env publish_feed.operation,
    .operation free_env (SettingsOperation.update_monitored_asset ⟨⟨0,core⟩,0,1,0,2⟩).operation,.header 1530000005]
  have reached : Reached small_genesis source_step (after_actions actions) :=
    reached_after_actions ⟨from_source_operation _,from_source_operation _,trivial⟩ (by decide +kernel)
  have stored : (((update_expired_feeds (after_actions actions)).assets.find? 1).bind (·.monitored_asset_opts)).map
      (fun m => (m.current_feed,(m.unexpired (after_actions actions).properties.time).length,m.minimum_feeds)) =
      some (⟨⟨2,1⟩,⟨1,core⟩⟩,1,2) := by decide +kernel
  obtain ⟨m,found,same⟩ := Option.map_eq_some_iff.mp stored
  obtain ⟨a,found,monitored⟩ := Option.bind_eq_some_iff.mp found
  simp only [Prod.mk.injEq] at same
  have held := current small_genesis _ reached 1 a m found monitored
  rw [MonitoredAssetOptions.Current,same.2.1,same.2.2,if_pos (by decide),same.1] at held
  exact absurd held (by decide)

end Decent.Money

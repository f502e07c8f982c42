import Decent.Assets
import Decent.Lib.Table
import Decent.Lib.Throwing
import Mathlib.Data.List.TakeWhile

/-!
The objects that hold or price money, with the index of subscriptions in the order of
`by_renewal`. A `Reads` only looks at the ledger; an `M` may change it and, as in the
source, leaves what it changed when it throws.
-/
namespace Decent.Money

/-! ### The objects -/

/-- `account_options`; `subscription_period` is a number of days. -/
structure AccountOptions where
  voting_account : AccountId
  allow_subscription : Bool
  price_per_subscribe : Asset
  subscription_period : Nat
deriving DecidableEq

structure Account where
  options : AccountOptions
deriving DecidableEq

structure AssetOptions where
  max_supply : Int
  core_exchange_rate : Price
  is_exchangeable : Bool
  fixed_max_supply : Option Bool

/-- `feeds` has the time and the rate that each publisher published last. -/
structure MonitoredAssetOptions where
  feeds : Table AccountId (Nat × Price)
  current_feed : Price
  current_feed_publication_time : Nat
  feed_lifetime_sec : Nat
  minimum_feeds : Nat

/-- The sum of two `time_point_sec`, which are seconds in 32 bits. -/
def later (t seconds : Nat) : Nat := (t + seconds) % 2^32

def MonitoredAssetOptions.feed_is_valid (m : MonitoredAssetOptions) (now : Nat) : Bool :=
  !(decide (later m.current_feed_publication_time m.feed_lifetime_sec ≤ now)) && !m.current_feed.is_null

/-- `asset_dynamic_data_object` -/
structure DynamicData where
  current_supply : Int
  asset_pool : Int
  core_pool : Int

/-- `asset_object` with its dynamic data. -/
structure AssetObject where
  symbol : String
  precision : Nat
  issuer : AccountId
  options : AssetOptions
  monitored_asset_opts : Option MonitoredAssetOptions
  dynamic : DynamicData

def AssetObject.is_monitored_asset (a : AssetObject) : Bool := a.monitored_asset_opts.isSome

/-- The balance of an account in one asset; no run makes it negative. -/
structure AccountBalance where
  balance : Int
  nonneg : 0 ≤ balance
  fits : balance < 2^63

inductive VestingPolicy
  | linear (begin_timestamp vesting_cliff_seconds vesting_duration_seconds : Nat) (begin_balance : Int)
  | cdd (vesting_seconds start_claim : Nat) (coin_seconds_earned : Int) (coin_seconds_earned_last_update : Nat)

structure VestingBalance where
  owner : AccountId
  balance : Asset
  policy : VestingPolicy

structure Content where
  URI : String
  author : AccountId
  co_authors : Table AccountId Nat
  expiration : Nat
  created : Nat
  price : Table Nat Asset
  size : Nat
  hash : Nat
  quorum : Nat
  key_parts : Table AccountId Nat
  last_proof : Table AccountId Nat
  seeder_price : Table AccountId Int
  is_blocked : Bool
  times_bought : Nat
  publishing_fee_escrow : Asset
  cd : Option Nat

structure Buying where
  consumer : AccountId
  URI : String
  expiration_time : Nat
  price : Asset
  paid_price_before_exchange : Asset
  paid_price_after_exchange : Asset
  seeders_answered : List AccountId
  key_particles : List Nat
  expired : Bool
  delivered : Bool
  expiration_or_delivery_time : Nat

structure Subscription where
  id : Nat
  from_account : AccountId
  to_account : AccountId
  expiration : Nat
  automatic_renewal : Bool
deriving DecidableEq

structure WithdrawPermission where
  withdraw_from_account : AccountId
  authorized_account : AccountId
  withdrawal_limit : Asset
  withdrawal_period_sec : Nat
  period_start_time : Nat
  expiration : Nat
  claimed_this_period : Int

structure Seeder where
  free_space : Nat
  price : Asset

/-- `seeding_statistics_object`; its counters are unsigned and wrap. -/
structure SeedingStatistics where
  total_content_seeded : UInt64
  num_of_content_seeded : UInt32
  total_content_requested_to_seed : UInt32
  missed_delivered_keys : UInt32
  total_delivered_keys : UInt32
  num_of_pors : UInt32

structure Miner where
  miner_account : AccountId
  pay_vb : Option Nat

/-- The operations the chain applies by itself. -/
inductive VirtualOperation
  | return_escrow_submission (author : AccountId) (escrow : Asset) (content : Nat)
  | return_escrow_buying (consumer : AccountId) (escrow : Asset) (buying : Nat)
  | finish_buying (author : AccountId) (payout : Asset) (consumer : AccountId) (buying : Nat)
  | pay_seeder (author seeder : AccountId) (payout : Asset)
  | renewal_of_subscription (consumer : AccountId) (subscription : Nat)
  | disallow_automatic_renewal_of_subscription (consumer : AccountId) (subscription : Nat)
deriving DecidableEq

/-! ### The subscription index -/

/-- Where `ordered_non_unique` on `greater<bool>` enters an element: behind those
    that do not come after it. -/
def upper_insert (s : Subscription) : List Subscription → List Subscription
  | [] => [s]
  | t :: rest => if s.automatic_renewal && !t.automatic_renewal then s :: t :: rest else t :: upper_insert s rest

/-- Whether the element with this key may stay between its neighbours. -/
def in_place (before : List Subscription) (automatic_renewal : Bool) (after : List Subscription) : Bool :=
  (before.getLast?.all fun p => !(automatic_renewal && !p.automatic_renewal)) &&
    (after.head?.all fun n => !(n.automatic_renewal && !automatic_renewal))

/-- `modify` leaves the element where it is when the order allows it and relinks it
    otherwise. -/
def place (before : List Subscription) (s : Subscription) (after : List Subscription) : List Subscription :=
  if in_place before s.automatic_renewal after then before ++ s :: after else upper_insert s (before ++ after)

/-- Change the subscription `id` in the list. -/
def modify_order (id : Nat) (f : Subscription → Subscription) (order : List Subscription) : List Subscription :=
  match order.dropWhile (fun s => s.id ≠ id) with
  | [] => order
  | s :: after => place (order.takeWhile (fun s => s.id ≠ id)) { f s with id := s.id } after

/-- Renewals come first, as `by_renewal` sorts them. -/
def RenewalsFirst (order : List Subscription) : Prop :=
  order.Pairwise fun s t => t.automatic_renewal = true → s.automatic_renewal = true

theorem upper_insert_perm (s : Subscription) (order : List Subscription) : (upper_insert s order).Perm (s :: order) := by
  induction order with
  | nil => exact .refl _
  | cons t rest ih =>
    rw [upper_insert]
    split
    · exact .refl _
    · exact (ih.cons t).trans (.swap s t rest)

theorem renewals_first_upper_insert (s : Subscription) {order : List Subscription} (sorted : RenewalsFirst order) :
    RenewalsFirst (upper_insert s order) := by
  induction order with
  | nil => exact List.pairwise_singleton ..
  | cons t rest ih =>
    obtain ⟨first,sorted'⟩ := List.pairwise_cons.mp sorted
    rw [upper_insert]
    split
    case isTrue here =>
      rw [Bool.and_eq_true] at here
      refine List.pairwise_cons.mpr ⟨fun _ _ _ => here.1,sorted⟩
    case isFalse later =>
      refine List.pairwise_cons.mpr ⟨?_,ih sorted'⟩
      intro u member renewing
      rcases List.mem_cons.mp ((upper_insert_perm s rest).mem_iff.mp member) with rfl | inside
      · simpa [renewing] using later
      · exact first u inside renewing

theorem place_perm (before : List Subscription) (s : Subscription) (after : List Subscription) :
    (place before s after).Perm (before ++ s :: after) := by
  rw [place]
  split
  · exact .refl _
  · exact (upper_insert_perm s _).trans List.perm_middle.symm

theorem renewals_first_place {before : List Subscription} {old : Subscription} {after : List Subscription}
    (s : Subscription) (sorted : RenewalsFirst (before ++ old :: after)) : RenewalsFirst (place before s after) := by
  have rest : RenewalsFirst (before ++ after) :=
    sorted.sublist (List.Sublist.append_left (List.sublist_cons_self _ _) _)
  rw [place]
  split
  case isFalse => exact renewals_first_upper_insert s rest
  case isTrue inPlace =>
    obtain ⟨inside,outside,across⟩ := List.pairwise_append.mp rest
    rw [in_place,Bool.and_eq_true] at inPlace
    refine List.pairwise_append.mpr ⟨inside,List.pairwise_cons.mpr ⟨?_,outside⟩,?_⟩
    · intro t member renewing
      cases after with
      | nil => cases member
      | cons n more =>
        have first : n.automatic_renewal = true := by
          rcases List.mem_cons.mp member with rfl | inside
          · exact renewing
          · exact (List.pairwise_cons.mp outside).1 t inside renewing
        simpa [first] using inPlace.2
    · intro p member t tail renewing
      rcases List.mem_cons.mp tail with rfl | inside'
      · -- The last element before the new one is a renewal, so all are.
        obtain ⟨last,found⟩ : ∃ last, before.getLast? = some last := by
          cases found : before.getLast? with
          | none => rw [List.getLast?_eq_none_iff.mp found] at member; cases member
          | some last => exact ⟨last,rfl⟩
        have renewingLast : last.automatic_renewal = true := by simpa [found,renewing] using inPlace.1
        obtain ⟨front,rfl⟩ := List.getLast?_eq_some_iff.mp found
        rcases List.mem_append.mp member with earlier | here
        · exact (List.pairwise_append.mp inside).2.2 p earlier last (List.mem_singleton_self _) renewingLast
        · rw [List.mem_singleton.mp here]; exact renewingLast
      · exact across p member t inside' renewing

theorem modify_order_eq {id : Nat} (f : Subscription → Subscription) {before after : List Subscription} {s : Subscription}
    (here : s.id = id) (other : ∀ t ∈ before, t.id ≠ id) :
    modify_order id f (before ++ s :: after) = place before { f s with id := s.id } after := by
  have skip : ∀ t ∈ before, decide (t.id ≠ id) = true := fun t member => decide_eq_true (other t member)
  have stop : decide (s.id ≠ id) = false := by simpa using here
  rw [modify_order,List.dropWhile_append_of_pos skip,List.takeWhile_append_of_pos skip]
  simp only [List.dropWhile_cons,List.takeWhile_cons,stop,Bool.false_eq_true,if_false,List.append_nil]

/-- A subscription that is not there, or one between the others. -/
theorem modify_order_cases (id : Nat) (f : Subscription → Subscription) (order : List Subscription) :
    modify_order id f order = order ∧ (∀ s ∈ order, s.id ≠ id) ∨
      ∃ before s after, order = before ++ s :: after ∧ s.id = id ∧ (∀ t ∈ before, t.id ≠ id) ∧
        modify_order id f order = place before { f s with id := s.id } after := by
  by_cases member : ∃ s ∈ order, s.id = id
  · right
    obtain ⟨before,s,after,rfl,other,here⟩ : ∃ before s after, order = before ++ s :: after ∧
        (∀ t ∈ before, t.id ≠ id) ∧ s.id = id := by
      induction order with
      | nil => simp at member
      | cons t rest ih =>
        by_cases here : t.id = id
        · exact ⟨[],t,rest,rfl,by simp,here⟩
        · obtain ⟨s,inside,same⟩ := member
          have deeper : s ∈ rest := by
            rcases List.mem_cons.mp inside with rfl | deeper
            · exact absurd same here
            · exact deeper
          obtain ⟨before,s,after,rfl,other,same⟩ := ih ⟨s,deeper,same⟩
          exact ⟨t :: before,s,after,rfl,by simpa [here] using other,same⟩
    exact ⟨before,s,after,rfl,here,other,modify_order_eq f here other⟩
  · left
    have nowhere : ∀ s ∈ order, s.id ≠ id := fun s inside same => member ⟨s,inside,same⟩
    refine ⟨?_,nowhere⟩
    have none : order.dropWhile (fun s => decide (s.id ≠ id)) = [] :=
      List.dropWhile_eq_nil_iff.mpr (by simpa using nowhere)
    rw [modify_order,none]

theorem modify_order_ids (id : Nat) (f : Subscription → Subscription) (order : List Subscription) :
    ((modify_order id f order).map (·.id)).Perm (order.map (·.id)) := by
  rcases modify_order_cases id f order with ⟨same,_⟩ | ⟨before,s,after,rfl,here,other,placed⟩
  · rw [same]
  · rw [placed]
    refine ((place_perm _ _ _).map _).trans ?_
    simp

theorem renewals_first_modify_order (id : Nat) (f : Subscription → Subscription) {order : List Subscription}
    (sorted : RenewalsFirst order) : RenewalsFirst (modify_order id f order) := by
  rcases modify_order_cases id f order with ⟨same,_⟩ | ⟨before,s,after,rfl,here,other,placed⟩
  · rw [same]; exact sorted
  · rw [placed]
    exact renewals_first_place _ sorted

/-- The subscriptions in the order of `by_renewal`. -/
structure Subscriptions where
  order : List Subscription
  next : Nat
  distinct : (order.map (·.id)).Nodup
  below : ∀ s ∈ order, s.id < next
  sorted : RenewalsFirst order

namespace Subscriptions

def empty : Subscriptions := ⟨[],0,List.nodup_nil,nofun,List.Pairwise.nil⟩

def find? (t : Subscriptions) (id : Nat) : Option Subscription := t.order.find? (·.id = id)

/-- The index `by_from_to`. -/
def find_from_to (t : Subscriptions) (from_account to_account : AccountId) : Option Subscription :=
  t.order.find? (fun s => s.from_account = from_account ∧ s.to_account = to_account)

def create (t : Subscriptions) (s : Subscription) : Subscriptions where
  order := upper_insert { s with id := t.next } t.order
  next := t.next + 1
  distinct := by
    refine (((upper_insert_perm _ t.order).map (·.id)).nodup_iff).mpr (List.nodup_cons.mpr ⟨?_,t.distinct⟩)
    intro inside
    obtain ⟨u,member,same⟩ := List.mem_map.mp inside
    exact absurd same (Nat.ne_of_lt (t.below u member))
  below := by
    intro u member
    rcases List.mem_cons.mp ((upper_insert_perm _ t.order).mem_iff.mp member) with rfl | inside
    · exact Nat.lt_succ_self _
    · exact Nat.lt_succ_of_lt (t.below u inside)
  sorted := renewals_first_upper_insert _ t.sorted

def modify (t : Subscriptions) (id : Nat) (f : Subscription → Subscription) : Subscriptions where
  order := modify_order id f t.order
  next := t.next
  distinct := (modify_order_ids id f t.order).nodup_iff.mpr t.distinct
  below := by
    intro u member
    have inside := (modify_order_ids id f t.order).mem_iff.mp (List.mem_map_of_mem member)
    obtain ⟨v,member',same⟩ := List.mem_map.mp inside
    exact same ▸ t.below v member'
  sorted := renewals_first_modify_order id f t.sorted

theorem find?_iff (t : Subscriptions) (id : Nat) (s : Subscription) : t.find? id = some s ↔ s ∈ t.order ∧ s.id = id := by
  constructor
  · intro found
    exact ⟨List.mem_of_find?_eq_some found,by simpa using List.find?_some found⟩
  · rintro ⟨member,rfl⟩
    cases found : t.find? s.id with
    | none => exact absurd (List.find?_eq_none.mp found s member) (by simp)
    | some u =>
      have same : u.id = s.id := by simpa using List.find?_some found
      rw [List.inj_on_of_nodup_map t.distinct (List.mem_of_find?_eq_some found) member same]

/-- A change at a known place of the index. -/
theorem order_modify {t : Subscriptions} {before after : List Subscription} {s : Subscription}
    (here : t.order = before ++ s :: after) (f : Subscription → Subscription) :
    (t.modify s.id f).order = place before { f s with id := s.id } after := by
  have distinct := t.distinct
  rw [here,List.map_append,List.map_cons] at distinct
  have other : ∀ u ∈ before, u.id ≠ s.id := by
    intro u member same
    exact (List.nodup_append.mp distinct).2.2 u.id (List.mem_map_of_mem member) s.id List.mem_cons_self same
  show modify_order s.id f t.order = _
  rw [here]
  exact modify_order_eq f rfl other

/-- A change leaves the others, and the one it is for at another place perhaps. -/
theorem mem_modify {t : Subscriptions} {id : Nat} {f : Subscription → Subscription} {u : Subscription}
    (member : u ∈ (t.modify id f).order) : u ∈ t.order ∨ ∃ s ∈ t.order, s.id = id ∧ u = { f s with id := s.id } := by
  have member : u ∈ modify_order id f t.order := member
  rcases modify_order_cases id f t.order with ⟨same,_⟩ | ⟨before,s,after,split,here,_,placed⟩
  · rw [same] at member
    exact .inl member
  · rw [placed,(place_perm _ _ _).mem_iff,List.mem_append,List.mem_cons] at member
    rw [split]
    rcases member with left | rfl | right
    · exact .inl (List.mem_append_left _ left)
    · exact .inr ⟨s,List.mem_append_right _ List.mem_cons_self,here,rfl⟩
    · exact .inl (List.mem_append_right _ (List.mem_cons_of_mem _ right))

theorem find?_modify_other (t : Subscriptions) (f : Subscription → Subscription) {id other : Nat} (apart : other ≠ id) :
    (t.modify id f).find? other = t.find? other := by
  refine Option.ext fun u => ?_
  rw [find?_iff,find?_iff]
  show u ∈ modify_order id f t.order ∧ _ ↔ _
  rcases modify_order_cases id f t.order with ⟨same,_⟩ | ⟨before,s,after,split,here,_,placed⟩
  · rw [same]
  · rw [placed,(place_perm _ _ _).mem_iff,split]
    simp only [List.mem_append,List.mem_cons]
    constructor
    · rintro ⟨left | rfl | right,rfl⟩
      · exact ⟨.inl left,rfl⟩
      · exact absurd here apart
      · exact ⟨.inr (.inr right),rfl⟩
    · rintro ⟨left | rfl | right,rfl⟩
      · exact ⟨.inl left,rfl⟩
      · exact absurd here apart
      · exact ⟨.inr (.inr right),rfl⟩

theorem find?_modify_same {t : Subscriptions} {s : Subscription} (member : s ∈ t.order) (f : Subscription → Subscription) :
    (t.modify s.id f).find? s.id = some { f s with id := s.id } := by
  obtain ⟨before,after,split⟩ := List.append_of_mem member
  rw [find?_iff,order_modify split f,(place_perm _ _ _).mem_iff]
  simp

end Subscriptions

/-! ### The ledger -/

/-- `dynamic_global_property_object` -/
structure DynamicProperties where
  head_block_number : Nat
  time : Nat
  next_maintenance_time : Nat
  last_budget_time : Nat
  unspent_fee_budget : Int
  mined_rewards : Int
  miner_budget_from_fees : Int
  miner_budget_from_rewards : Int

/-- `chain_parameters`, as `validate` accepts them. -/
structure Parameters where
  block_interval : Nat
  maintenance_interval : Nat
  maintenance_skip_slots : Nat
  miner_pay_vesting_seconds : Nat
  interval_positive : 0 < block_interval
  interval_below : block_interval < maintenance_interval
  interval_divides : maintenance_interval % block_interval = 0

/-- One credit that the escrow of a buying was spent on: a part of the payout, or the
    refund. `entitled` are the author and the co-authors of the content at that moment, or
    the consumer. -/
structure Payment where
  buying : Nat
  refund : Bool
  entitled : List AccountId
  account : AccountId
  amount : Asset
deriving DecidableEq

/-- One movement of the publishing escrow of a content: the fee that the author pays in, a
    reward for a seeder, in a block on top of the head block `head`, or what is returned when
    the content expires. -/
inductive EscrowMovement
  | fee (content : Nat) (author : AccountId) (amount : Asset)
  | reward (content : Nat) (seeder : AccountId) (amount : Asset) (head : Nat)
  | refund (content : Nat) (account : AccountId) (amount : Asset)
deriving DecidableEq

/-- The database. `payments` and `publishing` keep account of the escrows, and `counted_from` is
    the number of the first buying after the last reset of the statistics: the source has
    none of the three. -/
structure Ledger where
  accounts : Index Account
  assets : Index AssetObject
  balances : Table (AccountId × AssetId) AccountBalance
  vestings : Index VestingBalance
  contents : Index Content
  buyings : Index Buying
  subscriptions : Subscriptions
  permissions : Index WithdrawPermission
  seeders : Table AccountId Seeder
  statistics : Table AccountId SeedingStatistics
  miners : Index Miner
  properties : DynamicProperties
  parameters : Parameters
  pending_parameters : Option Parameters
  applied : List VirtualOperation
  payments : List Payment
  publishing : List EscrowMovement
  counted_from : Nat

abbrev Reads := ReaderT Ledger (Except Fault)

abbrev M := EStateM Fault Ledger

def observe {α : Type} (r : Reads α) : M α := fun L =>
  match r L with
  | .ok a => .ok a L
  | .error e => .error e L

theorem run_observe_ok {α : Type} {r : Reads α} {L : Ledger} {a : α} (read : r L = .ok a) :
    EStateM.run (observe r) L = .ok a L := by
  show (match r L with | .ok a => _ | .error e => _) = _
  rw [read]

theorem run_observe_error {α : Type} {r : Reads α} {L : Ledger} {e : Fault} (read : r L = .error e) :
    EStateM.run (observe r) L = .error e L := by
  show (match r L with | .ok a => _ | .error e => _) = _
  rw [read]

theorem run_observe {α : Type} {r : Reads α} {L L' : Ledger} {a : α} :
    EStateM.run (observe r) L = .ok a L' ↔ r L = .ok a ∧ L = L' := by
  show (match r L with | .ok a => _ | .error e => _) = _ ↔ _
  cases r L with
  | ok b =>
    constructor
    · intro same; cases same; exact ⟨rfl,rfl⟩
    · rintro ⟨same,rfl⟩; cases same; rfl
  | error e => simp

theorem run_observe_bind {α β : Type} {r : Reads α} {f : α → M β} {L L' : Ledger} {b : β} :
    EStateM.run (observe r >>= f) L = .ok b L' ↔ ∃ a, r L = .ok a ∧ EStateM.run (f a) L = .ok b L' := by
  rw [Throwing.run_bind_ok]
  constructor
  · rintro ⟨a,_,observed,ran⟩
    obtain ⟨read,rfl⟩ := run_observe.mp observed
    exact ⟨a,read,ran⟩
  · rintro ⟨a,read,ran⟩
    exact ⟨a,L,run_observe_ok read,ran⟩

theorem run_get_bind {β : Type} {f : Ledger → M β} {L L' : Ledger} {b : β} :
    EStateM.run (get >>= f) L = .ok b L' ↔ EStateM.run (f L) L = .ok b L' := Iff.rfl

theorem reads_bind {α β : Type} {x : Reads α} {f : α → Reads β} {L : Ledger} {b : β} :
    (x >>= f) L = .ok b ↔ ∃ a, x L = .ok a ∧ f a L = .ok b := bind_ok

theorem reads_pure {α : Type} {a b : α} {L : Ledger} : (pure a : Reads α) L = .ok b ↔ a = b := pure_ok

theorem reads_lift {α : Type} {x : Except Fault α} {L : Ledger} {b : α} : (liftM x : Reads α) L = .ok b ↔ x = .ok b :=
  Iff.rfl

theorem read_bind {α : Type} {f : Ledger → Reads α} {L : Ledger} : (read >>= f) L = f L L := rfl

theorem reads_read {α : Type} {f : Ledger → Reads α} {L : Ledger} {b : α} : (read >>= f) L = .ok b ↔ f L L = .ok b := Iff.rfl

end Decent.Money

import Decent.NetTasks

/-!
The loops of the node: which requests and advertisements one round makes, and that these are
changes like all others.
-/
namespace Decent.Net
open Decent.Protocol
open Tasks Task Relation

variable {O : Type} {E : Env O}

/-! ### Requests for sync items -/

section
variable {i : Fiber}

/-- What is to be requested from a peer is on its list and free, and in no other request of the round. -/
theorem sync_items_to_request_spec {s : NodeState O} (ids mine taken : List BlockId)
    (few : mine.length < _maximum_blocks_per_peer_during_syncing) :
    (s.sync_items_to_request mine taken ids).length ≤ _maximum_blocks_per_peer_during_syncing ∧
      ∀ h ∈ s.sync_items_to_request mine taken ids, h ∈ mine ∨ h ∈ ids ∧ h ∉ s._active_sync_requests ∧ h ∉ taken := by
  induction ids generalizing mine taken with
  | nil => exact ⟨few.le,fun h member => .inl member⟩
  | cons h rest ih =>
    unfold NodeState.sync_items_to_request
    split
    · rename_i wanted
      split
      · refine ⟨by rw [List.length_append]; exact few,fun k member => ?_⟩
        rcases List.mem_append.mp member with old | new
        · exact .inl old
        · obtain rfl := List.mem_singleton.mp new
          exact .inr ⟨List.mem_cons_self,wanted.2.2,wanted.2.1⟩
      · rename_i more
        obtain ⟨fits,each⟩ := ih (mine ++ [h]) (h :: taken) (by simpa using more)
        refine ⟨fits,fun k member => ?_⟩
        rcases each k member with old | ⟨listed,free,other⟩
        · rcases List.mem_append.mp old with old | new
          · exact .inl old
          · obtain rfl := List.mem_singleton.mp new
            exact .inr ⟨List.mem_cons_self,wanted.2.2,wanted.2.1⟩
        · exact .inr ⟨List.mem_cons_of_mem _ listed,free,fun inside => other (List.mem_cons_of_mem _ inside)⟩
    · obtain ⟨fits,each⟩ := ih mine taken few
      exact ⟨fits,fun k member => (each k member).imp id fun ⟨listed,free⟩ => ⟨List.mem_cons_of_mem _ listed,free⟩⟩

/-- Requests of one round: each for items on the peer's list, which are free, and in one request only. -/
structure Scheduled (s : NodeState O) (requests : List (Nat × List BlockId)) : Prop where
  few : ∀ r ∈ requests, r.2.length ≤ _maximum_blocks_per_peer_during_syncing
  listed : ∀ r ∈ requests, ∀ h ∈ r.2, h ∈ (s.peers r.1).ids_of_items_to_get
  free : ∀ r ∈ requests, ∀ h ∈ r.2, h ∉ s._active_sync_requests
  once : requests.Pairwise fun a b => ∀ h ∈ b.2, h ∉ a.2

theorem scheduled_schedule {s : NodeState O} {requests : List (Nat × List BlockId)} (scheduled : Scheduled s requests) (p : Nat) :
    Scheduled s (s.schedule_requests requests p) := by
  unfold NodeState.schedule_requests
  simp only
  split
  · split
    · exact scheduled
    · obtain ⟨fits,each⟩ := sync_items_to_request_spec (s := s) (s.peers p).ids_of_items_to_get []
        (requests.flatMap (·.2)) (by decide)
      have chosen := fun h member => (each h member).resolve_left List.not_mem_nil
      have either {P : Nat × List BlockId → Prop} (old : ∀ r ∈ requests, P r)
          (new : P (p,s.sync_items_to_request [] (requests.flatMap (·.2)) (s.peers p).ids_of_items_to_get)) :
          ∀ r ∈ requests ++ [(p,s.sync_items_to_request [] (requests.flatMap (·.2)) (s.peers p).ids_of_items_to_get)], P r := by
        intro r member
        rcases List.mem_append.mp member with before | last
        · exact old r before
        · exact List.mem_singleton.mp last ▸ new
      exact {
        few := either scheduled.few fits
        listed := either scheduled.listed fun h member => (chosen h member).1
        free := either scheduled.free fun h member => (chosen h member).2.1
        once := List.pairwise_append.mpr ⟨scheduled.once,List.pairwise_singleton _ _,fun a before b last h member inside => by
          obtain rfl := List.mem_singleton.mp last
          exact (chosen h member).2.2 (List.mem_flatMap.mpr ⟨a,before,inside⟩)⟩ }
  · exact scheduled

/-- The requests are made one by one. -/
theorem changes_scheduled {requests : List (Nat × List BlockId)} {s : NodeState O} (scheduled : Scheduled s requests) :
    ReflTransGen (Change E i) s
      (requests.foldl (fun s request => s.request_sync_items_from_peer request.1 request.2) s) := by
  induction requests generalizing s with
  | nil => exact .refl
  | cons r rest ih =>
    refine .head (.request_sync (scheduled.few r List.mem_cons_self) (scheduled.listed r List.mem_cons_self)
      (scheduled.free r List.mem_cons_self)) (ih ?_)
    obtain ⟨apart,once⟩ := List.pairwise_cons.mp scheduled.once
    exact {
      few := fun q member => scheduled.few q (List.mem_cons_of_mem _ member)
      listed := fun q member h wanted => by
        have same : ((s.request_sync_items_from_peer r.1 r.2).peers q.1).ids_of_items_to_get = (s.peers q.1).ids_of_items_to_get :=
          NodeState.modify_peer_field (f := (·.insert_sync_items r.2)) (·.ids_of_items_to_get) rfl q.1
        rw [same]
        exact scheduled.listed q (List.mem_cons_of_mem _ member) h wanted
      free := fun q member h wanted active => by
        have added : h ∈ s._active_sync_requests ∨ ∃ a ∈ r.2, a = h := (mem_foldl_insert (f := id)).mp active
        rcases added with old | ⟨_,requested,rfl⟩
        · exact scheduled.free q (List.mem_cons_of_mem _ member) h wanted old
        · exact apart q member _ wanted requested
      once := once }

theorem changes_fetch_sync_items (s : NodeState O) : ReflTransGen (Change E i) s s.fetch_sync_items := by
  unfold NodeState.fetch_sync_items
  split
  · exact .refl
  · have scheduled (peers : List Nat) (requests : List (Nat × List BlockId)) (before : Scheduled s requests) :
        Scheduled s (peers.foldl s.schedule_requests requests) := by
      induction peers generalizing requests with
      | nil => exact before
      | cons p rest ih => exact ih _ (scheduled_schedule before p)
    exact changes_scheduled (scheduled _ [] ⟨by simp,by simp,by simp,.nil⟩)

/-! ### Requests for other items -/

/-- Messages that are sent one behind the other. -/
theorem send_messages (messages : List (Nat × Message O)) (s : NodeState O) :
    messages.foldl (fun s m => s.send_message m.1 m.2) s =
      { s with log := (messages.map fun m => .queued m.1 s.now (.real_queued_message m.2)).reverse ++ s.log } := by
  induction messages generalizing s with
  | nil => rfl
  | cons m rest ih =>
    rw [List.foldl_cons,ih]
    simp [NodeState.send_message,NodeState.note]

theorem by_type_spec (items : List ItemId) :
    (∀ g ∈ NodeState.by_type items, g.2.length ≤ items.length ∧ ∀ h ∈ g.2, ⟨g.1,h⟩ ∈ items) ∧
      (∀ item ∈ items, ∃ g ∈ NodeState.by_type items, g.1 = item.item_type ∧ item.item_hash ∈ g.2) ∧
      ((NodeState.by_type items).map (·.1)).Nodup := by
  unfold NodeState.by_type
  refine ⟨?_,fun item member => ⟨_,List.mem_map.mpr ⟨item.item_type,?_,rfl⟩,rfl,?_⟩,?_⟩
  · simp only [List.mem_map]
    rintro _ ⟨t,-,rfl⟩
    refine ⟨by rw [List.length_map]; exact List.length_filter_le _ _,?_⟩
    simp only [List.mem_map,List.mem_filter,decide_eq_true_eq]
    rintro _ ⟨item,⟨member,rfl⟩,rfl⟩
    exact member
  · rw [List.mem_insertionSort,List.mem_dedup]
    exact List.mem_map_of_mem member
  · exact List.mem_map.mpr ⟨item,List.mem_filter.mpr ⟨member,decide_eq_true rfl⟩,rfl⟩
  · rw [List.map_map,show (fun x : Nat × List BlockId => x.1) ∘ _ = id from rfl,List.map_id]
    exact (List.perm_insertionSort _ _).nodup_iff.mpr (List.nodup_dedup _)

/-- A request gets one more item. -/
theorem give_item_perm (item : ItemId) (p : Nat) {requests : List NodeState.PeerAndItems} (once : (requests.map (·.peer)).Nodup) :
    (NodeState.give_item item p requests).Perm
      (requests.map fun r => if r.peer = p then { r with item_ids := r.item_ids ++ [item] } else r) := by
  induction requests with
  | nil => exact .nil
  | cons r rest ih =>
    obtain ⟨other,once⟩ := List.nodup_cons.mp once
    unfold NodeState.give_item
    split
    · rename_i here
      have untouched : (rest.map fun r => if r.peer = p then { r with item_ids := r.item_ids ++ [item] } else r) = rest := by
        refine (List.map_congr_left fun q member => ?_).trans (List.map_id rest)
        exact if_neg fun same => other (List.mem_map.mpr ⟨q,member,same.trans here.symm⟩)
      rw [List.map_cons,if_pos here,untouched]
      simp only
      split
      · rfl
      split
      · rfl
      · refine List.perm_middle.trans (.cons _ ?_)
        rw [List.takeWhile_append_dropWhile]
    · rename_i elsewhere
      simpa [elsewhere] using ih once

/-- What the loop over the items has assigned so far. -/
structure Assigned (s₀ s : NodeState O) (requests : List NodeState.PeerAndItems) : Prop where
  rest : s₀.Aside s
  peers : ∀ p, s.peers p = { s₀.peers p with items_requested_from_peer := (s.peers p).items_requested_from_peer }
  asked : ∀ p, ∀ item ∈ (s.peers p).items_requested_from_peer, item ∈ (s₀.peers p).items_requested_from_peer ∨
    ∃ r ∈ requests, r.peer = p ∧ item ∈ r.item_ids
  few : ∀ r ∈ requests, r.item_ids.length ≤ GRAPHENE_NET_MAX_ITEMS_PER_PEER_DURING_NORMAL_OPERATION
  listed : ∀ r ∈ requests, ∀ item ∈ r.item_ids, Listed (s₀.peers r.peer).inventory_peer_advertised_to_us item
  once : (requests.map (·.peer)).Nodup

/-- An item is assigned to a peer that has it. -/
theorem Assigned.give {s₀ s s' : NodeState O} {requests : List NodeState.PeerAndItems} (assigned : Assigned s₀ s requests)
    {item : ItemId} {r : NodeState.PeerAndItems} (found : requests.find? (s.can_fetch item) = some r)
    (aside : s.Aside s') (peers : s'.peers = s.peers) :
    Assigned s₀ (s'.modify_peer r.peer fun peer => { peer with
      items_requested_from_peer := peer.items_requested_from_peer.insert item }) (NodeState.give_item item r.peer requests) := by
  have there := List.mem_of_find?_eq_some found
  have can : s.can_fetch item r = true := List.find?_some found
  obtain ⟨room,has,-⟩ := of_decide_eq_true can
  have given := give_item_perm item r.peer assigned.once
  have still : ∀ q, ((s'.modify_peer r.peer fun peer => { peer with
      items_requested_from_peer := peer.items_requested_from_peer.insert item }).peers q) =
      { s.peers q with items_requested_from_peer :=
        if q = r.peer then (s.peers q).items_requested_from_peer.insert item else (s.peers q).items_requested_from_peer } := by
    intro q
    by_cases here : q = r.peer
    · subst here
      simp [peers]
    · simp [NodeState.modify_peer_other _ _ here,here,peers]
  -- each request is as before, or has the item as well
  have either {P : NodeState.PeerAndItems → Prop} (old : ∀ q ∈ requests, P q)
      (new : ∀ q ∈ requests, q.peer = r.peer → P { q with item_ids := q.item_ids ++ [item] }) :
      ∀ q ∈ NodeState.give_item item r.peer requests, P q := by
    intro q member
    obtain ⟨a,before,rfl⟩ := List.mem_map.mp (given.mem_iff.mp member)
    split
    · rename_i same
      exact new a before same
    · exact old a before
  have same_peer : ∀ q ∈ requests, q.peer = r.peer → q = r := fun q member same =>
    List.inj_on_of_nodup_map assigned.once member there same
  exact {
    rest := {
      requests := aside.requests.trans assigned.rest.requests
      in_hand := fun b member => assigned.rest.in_hand b (aside.in_hand b member)
      log := aside.log.trans assigned.rest.log
      now := aside.now.trans assigned.rest.now }
    peers := fun q => by
      rw [still q,assigned.peers q]
    asked := fun q other member => by
      have grown : other = item ∧ q = r.peer ∨ other ∈ (s.peers q).items_requested_from_peer := by
        rw [still q] at member
        simp only at member
        split at member
        · rename_i here
          exact (List.mem_insert_iff.mp member).imp (fun isItem => ⟨isItem,here⟩) id
        · exact .inr member
      rcases grown with ⟨rfl,rfl⟩ | old
      · exact .inr ⟨_,given.mem_iff.mpr (List.mem_map.mpr ⟨r,there,if_pos rfl⟩),rfl,by simp⟩
      · refine (assigned.asked q other old).imp id ?_
        rintro ⟨a,before,rfl,inside⟩
        refine ⟨_,given.mem_iff.mpr (List.mem_map.mpr ⟨a,before,rfl⟩),?_,?_⟩
        · split <;> rfl
        · split
          · exact List.mem_append_left _ inside
          · exact inside
    few := either assigned.few fun q member same => by
      rw [same_peer q member same,List.length_append]
      exact room
    listed := either assigned.listed fun q member same other inside => by
      rcases List.mem_append.mp inside with old | new
      · exact assigned.listed q member other old
      · obtain rfl := List.mem_singleton.mp new
        rw [same_peer q member same]
        rw [assigned.peers r.peer] at has
        exact has
    once := by
      refine (given.map _).nodup_iff.mpr ?_
      rw [List.map_map]
      convert assigned.once using 1
      refine List.map_congr_left fun a _ => ?_
      simp only [Function.comp_apply]
      split <;> rfl }

/-- The loop over the items, each of which goes to one peer or to none. -/
theorem assigned_items {s₀ : NodeState O} (oldest : Nat) (items : List PrioritizedItemId) {s : NodeState O}
    {requests : List NodeState.PeerAndItems} (assigned : Assigned s₀ s requests) :
    Assigned s₀ (NodeState.assign_items oldest items s requests).1 (NodeState.assign_items oldest items s requests).2 := by
  induction items generalizing s requests with
  | nil => exact assigned
  | cons i rest ih =>
    have aside : s.Aside { s with _items_to_fetch := s._items_to_fetch.filter (·.item ≠ i.item) } :=
      .of_eq rfl rfl rfl rfl rfl rfl
    unfold NodeState.assign_items
    simp only
    split
    · exact ih { assigned with
        rest := {
          requests := aside.requests.trans assigned.rest.requests
          in_hand := fun b member => assigned.rest.in_hand b (aside.in_hand b member)
          log := aside.log.trans assigned.rest.log
          now := aside.now.trans assigned.rest.now } }
    · split
      · exact ih assigned
      · rename_i r found
        exact ih (assigned.give found aside rfl)

theorem changes_fetch_items (s : NodeState O) : ReflTransGen (Change E i) s s.fetch_items := by
  unfold NodeState.fetch_items
  simp only
  set idle := (s._active_connections.filter fun p => (s.peers p).idle).dedup
  set oldest := s.now - s._recent_block_interval_in_seconds * GRAPHENE_NET_MESSAGE_CACHE_DURATION_IN_BLOCKS * 10 ^ 6
  have nothing : Assigned s s (idle.map fun p => ⟨p,[]⟩) := {
    rest := .of_eq rfl rfl rfl rfl rfl rfl
    peers := fun p => rfl
    asked := fun p item member => .inl member
    few := by simp
    listed := by simp
    once := by
      rw [List.map_map,show (fun r : NodeState.PeerAndItems => r.peer) ∘ (fun p => ⟨p,[]⟩) = id from rfl,List.map_id]
      exact List.nodup_dedup _ }
  have assigned := assigned_items oldest s._items_to_fetch nothing
  generalize NodeState.assign_items oldest s._items_to_fetch s (idle.map fun p => ⟨p,[]⟩) = result at assigned ⊢
  obtain ⟨s₁,requests⟩ := result
  set messages : List (Nat × Message O) := requests.flatMap fun r =>
    (NodeState.by_type r.item_ids).map fun g => (r.peer,.fetch_items g.1 g.2) with sends
  have sent : requests.foldl (fun s r => (NodeState.by_type r.item_ids).foldl
      (fun s g => s.send_message r.peer (.fetch_items g.1 g.2)) s) s₁ =
      messages.foldl (fun s m => s.send_message m.1 m.2) s₁ := by
    simp only [sends,List.foldl_flatMap,List.foldl_map]
  rw [sent,send_messages]
  refine .single (.request (messages.map fun m => .queued m.1 s₁.now (.real_queued_message m.2)).reverse ?_ ?_ ?_ ?_ ?_)
  · simp only at assigned
    simp [assigned.rest.log]
  · exact ⟨assigned.rest.requests,assigned.rest.in_hand,rfl,assigned.rest.now⟩
  · intro p
    simp only
    rw [assigned.peers p]
    exact .refl _ _
  · intro p item member
    refine (assigned.asked p item member).imp id ?_
    rintro ⟨r,there,rfl,inside⟩
    obtain ⟨g,group,type,hash⟩ := (by_type_spec r.item_ids).2.1 item inside
    refine ⟨s₁.now,g.2,List.mem_reverse.mpr (List.mem_map.mpr ⟨(r.peer,.fetch_items g.1 g.2),?_,by rw [type]⟩),hash⟩
    exact List.mem_flatMap.mpr ⟨r,there,List.mem_map.mpr ⟨g,group,rfl⟩⟩
  · intro e member
    obtain ⟨m,inside,rfl⟩ := List.mem_map.mp (List.mem_reverse.mp member)
    obtain ⟨r,there,inside⟩ := List.mem_flatMap.mp inside
    obtain ⟨g,group,rfl⟩ := List.mem_map.mp inside
    obtain ⟨fits,each⟩ := (by_type_spec r.item_ids).1 g group
    exact ⟨r.peer,g.1,g.2,by rw [assigned.rest.now],fits.trans (assigned.few r there),
      fun h within => assigned.listed r there _ (each h within)⟩

/-! ### Advertisements -/

theorem insert_item_spec (items : List ItemId) (now : Nat) (all : List TimestampedItemId) :
    (∀ t ∈ all, t ∈ items.foldl (fun all item => insert_item item now all) all) ∧
      ∀ item ∈ items, ¬ Listed all item → ⟨item,seconds now⟩ ∈ items.foldl (fun all item => insert_item item now all) all := by
  induction items generalizing all with
  | nil => exact ⟨fun _ member => member,fun _ none => by cases none⟩
  | cons item rest ih =>
    obtain ⟨keeps,adds⟩ := ih (insert_item item now all)
    have kept : ∀ t ∈ all, t ∈ insert_item item now all := by
      intro t member
      unfold insert_item
      split
      · exact member
      · exact List.mem_append_left _ member
    refine ⟨fun t member => keeps t (kept t member),fun other member fresh => ?_⟩
    by_cases same : other = item
    · subst same
      refine keeps _ ?_
      unfold insert_item
      rw [if_neg fresh]
      exact List.mem_append_right _ (List.mem_singleton.mpr rfl)
    · refine adds other ((List.mem_cons.mp member).resolve_left same) ?_
      rintro ⟨t,inside,rfl⟩
      unfold insert_item at inside
      split at inside
      · exact fresh ⟨t,inside,rfl⟩
      · rcases List.mem_append.mp inside with old | new
        · exact fresh ⟨t,old,rfl⟩
        · exact same (by rw [List.mem_singleton.mp new])

/-- Messages that list items, none of which one peer is told of twice. -/
structure Advertises (s₀ s : NodeState O) (messages : List (Nat × Message O)) : Prop where
  only : ∀ m ∈ messages, ∃ item_type hashes, m.2 = .item_ids_inventory item_type hashes ∧
    ∀ h ∈ hashes, ¬ Listed (s₀.peers m.1).inventory_advertised_to_peer ⟨item_type,h⟩ ∧
      ⟨⟨item_type,h⟩,seconds s₀.now⟩ ∈ (s.peers m.1).inventory_advertised_to_peer
  once : messages.Pairwise fun a b => a.1 = b.1 → ∀ item_type hashes, a.2 = .item_ids_inventory item_type hashes →
    ∀ others, b.2 ≠ .item_ids_inventory item_type others

/-- What one peer is told. -/
theorem advertise_to_spec (inventory : List ItemId) (p : Nat) (s : NodeState O) :
    s.Aside (s.advertise_to inventory p).1 ∧ (∀ q, (s.peers q).Less s.now ((s.advertise_to inventory p).1.peers q)) ∧
      (∀ q, q ≠ p → (s.advertise_to inventory p).1.peers q = s.peers q) ∧
      (∀ m ∈ (s.advertise_to inventory p).2, m.1 = p) ∧
      Advertises s (s.advertise_to inventory p).1 (s.advertise_to inventory p).2 := by
  unfold NodeState.advertise_to
  simp only
  split
  · refine ⟨.of_eq rfl rfl rfl rfl rfl rfl,fun q => ?_,fun q other => NodeState.modify_peer_other _ _ other,by simp,by simp,.nil⟩
    by_cases here : q = p
    · subst here
      rw [NodeState.modify_peer_self]
      exact less_clear _ _
    · rw [NodeState.modify_peer_other _ _ here]
      exact .refl _ _
  · set items := NodeState.items_to_advertise (s.peers p) inventory with chosen
    obtain ⟨keeps,adds⟩ := insert_item_spec items s.now (s.peers p).inventory_advertised_to_peer
    refine ⟨.of_eq rfl rfl rfl rfl rfl rfl,fun q => ?_,fun q other => ?_,?_,?_,?_⟩
    · simp only
      by_cases here : q = p
      · subst here
        rw [NodeState.modify_peer_self]
        refine .trans ?_ (less_clear _ _)
        exact { PeerConnection.Less.refl s.now (s.peers q) with advertised := fun t member => .inl (keeps t member) }
      · rw [NodeState.modify_peer_other _ _ here]
        exact .refl _ _
    · simp only [NodeState.modify_peer_other _ _ other]
    · intro m member
      obtain ⟨g,-,rfl⟩ := List.mem_map.mp member
      rfl
    · intro m member
      obtain ⟨g,group,rfl⟩ := List.mem_map.mp member
      refine ⟨g.1,g.2,rfl,fun h inside => ?_⟩
      have item := ((by_type_spec items).1 g group).2 h inside
      obtain ⟨-,fresh⟩ := List.mem_filter.mp item
      have unlisted : ¬ Listed (s.peers p).inventory_advertised_to_peer ⟨g.1,h⟩ := (of_decide_eq_true fresh).1
      refine ⟨unlisted,?_⟩
      simp only [NodeState.modify_peer_self]
      refine List.mem_filter.mpr ⟨adds _ item unlisted,decide_eq_true ?_⟩
      exact Nat.not_lt.mpr (Nat.div_le_div_right (Nat.sub_le _ _))
    · refine List.pairwise_map.mpr ((List.pairwise_map.mp (by_type_spec items).2.2).imp ?_)
      intro a b other _ item_type hashes isA others isB
      injection isA with typeA
      injection isB with typeB
      exact other (typeA.trans typeB.symm)

/-- The loop over the peers. -/
theorem advertise_all (inventory : List ItemId) (peers : List Nat) (distinct : peers.Nodup) {s₀ s : NodeState O}
    (messages : List (Nat × Message O)) (aside : s₀.Aside s) (less : ∀ p, (s₀.peers p).Less s₀.now (s.peers p))
    (ahead : ∀ p ∈ peers, s.peers p = s₀.peers p ∧ ∀ m ∈ messages, m.1 ≠ p) (advertises : Advertises s₀ s messages) :
    s₀.Aside (s.advertise_to_all inventory peers messages).1 ∧
      (∀ p, (s₀.peers p).Less s₀.now ((s.advertise_to_all inventory peers messages).1.peers p)) ∧
      Advertises s₀ (s.advertise_to_all inventory peers messages).1 (s.advertise_to_all inventory peers messages).2 := by
  induction peers generalizing s messages with
  | nil => exact ⟨aside,less,advertises⟩
  | cons p rest ih =>
    obtain ⟨elsewhere,distinct⟩ := List.nodup_cons.mp distinct
    obtain ⟨still,lesser,others,mine,told⟩ := advertise_to_spec inventory p s
    obtain ⟨same,unsent⟩ := ahead p List.mem_cons_self
    rw [aside.now] at lesser
    unfold NodeState.advertise_to_all
    generalize NodeState.advertise_to inventory p s = after at *
    obtain ⟨s',more⟩ := after
    simp only at still lesser others mine told ⊢
    refine ih distinct (messages ++ more) ?_ (fun q => (less q).trans (lesser q)) (fun q member => ?_) ?_
    · exact {
        requests := still.requests.trans aside.requests
        in_hand := fun b member => aside.in_hand b (still.in_hand b member)
        log := still.log.trans aside.log
        now := still.now.trans aside.now }
    · obtain ⟨untouched,none⟩ := ahead q (List.mem_cons_of_mem _ member)
      have other : q ≠ p := fun same => elsewhere (same ▸ member)
      refine ⟨(others q other).trans untouched,fun m inside => ?_⟩
      rcases List.mem_append.mp inside with old | new
      · exact none m old
      · exact mine m new ▸ other.symm
    · refine ⟨fun m inside => ?_,List.pairwise_append.mpr ⟨advertises.once,told.once,fun a old b new sent => ?_⟩⟩
      · rcases List.mem_append.mp inside with old | new
        · rw [others m.1 (unsent m old)]
          exact advertises.only m old
        · have := told.only m new
          rwa [aside.now,mine m new,same,← mine m new] at this
      · exact absurd (sent.trans (mine b new)) (unsent a old)

theorem changes_advertise_inventory (s : NodeState O) : ReflTransGen (Change E i) s s.advertise_inventory := by
  have told := advertise_all s._new_inventory _ (List.nodup_dedup s._active_connections) []
    (.of_eq rfl rfl rfl rfl rfl rfl : s.Aside { s with _new_inventory := [] }) (fun p => .refl s.now (s.peers p))
    (fun p _ => ⟨rfl,by simp⟩) ⟨by simp,.nil⟩
  unfold NodeState.advertise_inventory
  generalize NodeState.advertise_to_all s._new_inventory _ { s with _new_inventory := [] } [] = after at told ⊢
  obtain ⟨s₁,messages⟩ := after
  obtain ⟨aside,less,advertises⟩ := told
  simp only at aside less advertises ⊢
  rw [send_messages]
  refine .single (.advertise (messages.map fun m => .queued m.1 s₁.now (.real_queued_message m.2)).reverse ?_ ?_ less ?_ ?_)
  · simp [aside.log]
  · exact ⟨aside.requests,aside.in_hand,rfl,aside.now⟩
  · intro e member
    obtain ⟨m,inside,rfl⟩ := List.mem_map.mp (List.mem_reverse.mp member)
    obtain ⟨item_type,hashes,lists,fresh⟩ := advertises.only m inside
    exact ⟨m.1,item_type,hashes,by rw [lists,aside.now],fresh⟩
  · refine List.pairwise_reverse.mpr (List.pairwise_map.mpr (advertises.once.imp ?_))
    intro a b once p item_type hashes isB others isA
    simp only [Event.queued.injEq,QueuedMessage.real_queued_message.injEq] at isA isB
    exact absurd isB.2.2 (once (isA.1.trans isB.1.symm) item_type others isA.2.2 hashes)

/-! ### Received blocks -/

/-- Peers that begin with the block lose the first of their ids, and nothing else changes. -/
theorem pop_all (h : BlockId) (which : List Nat) (s : NodeState O) :
    ∃ peers, which.foldl (NodeState.pop_front h) s = { s with peers } ∧ ∀ p, (s.peers p).Less s.now (peers p) := by
  induction which generalizing s with
  | nil => exact ⟨s.peers,rfl,fun p => .refl s.now (s.peers p)⟩
  | cons q rest ih =>
    obtain ⟨peers,popped,less⟩ := ih (s.pop_front h q)
    rw [List.foldl_cons,popped]
    unfold NodeState.pop_front at less ⊢
    split
    · rename_i here
      rw [if_pos here] at less
      refine ⟨peers,rfl,fun p => .trans ?_ (less p)⟩
      by_cases same : p = q
      · subst same
        rw [NodeState.modify_peer_self]
        exact { PeerConnection.Less.refl s.now (s.peers p) with ids := (List.tail_suffix _).isInfix }
      · rw [NodeState.modify_peer_other _ _ same]
        exact .refl _ _
    · rename_i elsewhere
      rw [if_neg elsewhere] at less
      exact ⟨peers,rfl,less⟩

theorem mild_suspend (s : NodeState O) : Mild E i s s.suspend_if_full := by
  unfold NodeState.suspend_if_full
  split
  · exact mild_aside ⟨.of_eq rfl rfl rfl rfl rfl rfl,rfl⟩
  · exact mild_aside ⟨.of_eq rfl rfl rfl rfl rfl rfl,rfl⟩

/-- Blocks go from the backlog to the client, and nothing comes in. -/
theorem mild_process_received (rounds : Nat) (s : NodeState O) :
    ReflTransGen (Mild E i) s (NodeState.process_received rounds s) := by
  induction rounds generalizing s with
  | zero => exact .refl
  | succ rounds ih =>
    unfold NodeState.process_received
    split
    · exact .single (mild_suspend s)
    · rename_i b found
      obtain ⟨peers,popped,less⟩ := pop_all b.block_id s._active_connections s
      have fewer : Mild E i s { s with peers } := mild_less (.of_eq rfl rfl rfl rfl rfl rfl) less
      simp only [popped]
      split
      · exact .tail (.single fewer) (mild_suspend _)
      · have scheduled : Mild E i s { s with
            peers
            _received_sync_items := s._received_sync_items.eraseP s.potential_first_block
            scheduled_calls := s.scheduled_calls ++ [b]
            unfinished_calls := s.unfinished_calls + 1
            calls_in_progress := s.calls_in_progress + 1 } := by
          refine mild_less { requests := rfl, in_hand := fun c member => ?_, log := rfl, now := rfl } less
          simp only [NodeState.in_hand,List.mem_append,List.mem_singleton] at member ⊢
          rcases member with (new | received) | calls | rfl
          · exact .inl (.inl new)
          · exact .inl (.inr (List.mem_of_mem_eraseP received))
          · exact .inr calls
          · exact .inl (.inr (List.mem_of_find?_eq_some found))
        split
        · exact .tail (.single scheduled) (mild_suspend _)
        · exact .head scheduled (ih _)

theorem mild_process_backlog (s : NodeState O) : ReflTransGen (Mild E i) s s.process_backlog_of_sync_blocks := by
  unfold NodeState.process_backlog_of_sync_blocks
  simp only
  split
  · exact .single (mild_aside ⟨.of_eq rfl rfl rfl rfl rfl rfl,rfl⟩)
  · have collected : Mild E i s { s with
        calls_in_progress := s.unfinished_calls
        _suspend_fetching_sync_blocks := false
        _received_sync_items := s._new_received_sync_items.reverse ++ s._received_sync_items
        _new_received_sync_items := [] } := by
      refine mild_less { requests := rfl, in_hand := fun c member => ?_, log := rfl, now := rfl } fun p => .refl _ _
      simpa only [NodeState.in_hand,List.mem_append,List.mem_reverse,List.not_mem_nil,false_or] using member
    exact .head collected (mild_process_received _ _)

end
end Decent.Net

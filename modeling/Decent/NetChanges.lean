import Decent.NetRuns

/-!
All that a step of the node can do to its requests, to the inventories and to the account of its
messages, and that its tasks do nothing else.
-/
namespace Decent.Net
open Decent.Protocol
open Decent.Sync (plus minus)
open Tasks Task Relation

variable {O : Type}

/-! ### The account -/

/-- A message says that its sender has an item. -/
def Message.Lists (item : ItemId) : Message O → Prop
  | .item_ids_inventory item_type item_hashes_available => item_type = item.item_type ∧ item.item_hash ∈ item_hashes_available
  | .blockchain_item_ids_inventory _ _ item_hashes_available =>
    item.item_type = block_message_type ∧ item.item_hash ∈ item_hashes_available
  | _ => False

/-- A peer has said that it has an item. -/
def Announced (log : List (Event O)) (p : Nat) (item : ItemId) : Prop := ∃ m, .received p m ∈ log ∧ m.Lists item

/-- An item is one of those: a message is known by its hash, a block also by its id. -/
def Item.IsOf (E : Env O) (item_type : Nat) (items_to_fetch : List BlockId) (i : Item O) : Prop :=
  i.msg_type = item_type ∧ (E.message_id i ∈ items_to_fetch ∨ ∃ b, i = .block b ∧ b.block_id ∈ items_to_fetch)

/-- A peer was asked for items. -/
def Asked (log : List (Event O)) (p : Nat) (item : ItemId) : Prop :=
  ∃ now items_to_fetch, .queued p now (.real_queued_message (.fetch_items item.item_type items_to_fetch)) ∈ log ∧
    item.item_hash ∈ items_to_fetch

/-- A peer was asked for an item, and then has sent it. -/
def Delivered (E : Env O) (log : List (Event O)) (i : Item O) : Prop :=
  ∃ p now item_type items_to_fetch, i.IsOf E item_type items_to_fetch ∧
    [.received p (.item i),.queued p now (.real_queued_message (.fetch_items item_type items_to_fetch))].Sublist log

/-- The time an advertisement counts, in microseconds. -/
def inventory_duration : Nat := GRAPHENE_NET_MAX_INVENTORY_SIZE_IN_MINUTES * 60 * 10 ^ 6

/-- What an event needs to have before it: requests are for what the peer has announced, no item is
    advertised again too soon, and the client gets what was asked for. -/
def Event.Justified (E : Env O) (past : List (Event O)) : Event O → Prop
  | .queued p _ (.real_queued_message (.fetch_items item_type items_to_fetch)) =>
    items_to_fetch.length ≤ GRAPHENE_NET_MAX_ITEMS_PER_PEER_DURING_NORMAL_OPERATION ∧
      ∀ h ∈ items_to_fetch, Announced past p ⟨item_type,h⟩
  | .queued p now (.real_queued_message (.item_ids_inventory item_type hashes)) =>
    ∀ h ∈ hashes, ∀ before earlier,
      .queued p before (.real_queued_message (.item_ids_inventory item_type earlier)) ∈ past → h ∈ earlier →
        before + inventory_duration < now
  | .handled i => Delivered E past i
  | _ => True

/-- An event that needs nothing. -/
def Event.Plain : Event O → Prop
  | .queued _ _ (.real_queued_message (.fetch_items ..)) => False
  | .queued _ _ (.real_queued_message (.item_ids_inventory ..)) => False
  | .handled _ => False
  | _ => True

/-! ### Changes -/

/-- Blocks that were received, on their way to the client. -/
def NodeState.in_hand (s : NodeState O) : List (BlockMessage O) :=
  s._new_received_sync_items ++ s._received_sync_items ++ s.scheduled_calls

/-- A peer whose requests and lists have not grown, and which may have forgotten old advertisements. -/
structure PeerConnection.Less (now : Nat) (before after : PeerConnection) : Prop where
  ids : after.ids_of_items_to_get <:+: before.ids_of_items_to_get
  items : ∀ item ∈ after.items_requested_from_peer, item ∈ before.items_requested_from_peer
  sync_items : ∀ item ∈ after.sync_items_requested_from_peer, item ∈ before.sync_items_requested_from_peer
  heard : ∀ t ∈ after.inventory_peer_advertised_to_us, t ∈ before.inventory_peer_advertised_to_us
  advertised : ∀ t ∈ before.inventory_advertised_to_peer, t ∈ after.inventory_advertised_to_peer ∨
    t.timestamp < seconds (now - inventory_duration)
  rescheduled : after.rescheduled = before.rescheduled

theorem PeerConnection.Less.refl (now : Nat) (peer : PeerConnection) : peer.Less now peer where
  ids := List.infix_rfl
  items _ member := member
  sync_items _ member := member
  heard _ member := member
  advertised _ member := .inl member
  rescheduled := rfl

/-- Nothing but the peers has changed. -/
structure NodeState.Aside (s s' : NodeState O) : Prop where
  requests : s'._active_sync_requests = s._active_sync_requests
  in_hand : ∀ b ∈ s'.in_hand, b ∈ s.in_hand
  log : s'.log = s.log
  now : s'.now = s.now

theorem NodeState.Aside.of_eq {s s' : NodeState O} (requests : s'._active_sync_requests = s._active_sync_requests)
    (new : s'._new_received_sync_items = s._new_received_sync_items) (received : s'._received_sync_items = s._received_sync_items)
    (calls : s'.scheduled_calls = s.scheduled_calls) (log : s'.log = s.log) (now : s'.now = s.now) : s.Aside s' where
  requests := requests
  in_hand b member := by simpa only [NodeState.in_hand,new,received,calls] using member
  log := log
  now := now

/-- What a task can do. -/
inductive Change (E : Env O) : Fiber → NodeState O → NodeState O → Prop
  | less {i : Fiber} {s s' : NodeState O} (aside : s.Aside s') (less : ∀ p, (s.peers p).Less s.now (s'.peers p)) : Change E i s s'
  | note {i : Fiber} {s : NodeState O} (e : Event O) (plain : e.Plain) : Change E i s (s.note e)
  | hand {i : Fiber} {s : NodeState O} (m : Item O) (delivered : Delivered E s.log m) : Change E i s (s.note (.handled m))
  | request_sync {i : Fiber} {s : NodeState O} {p : Nat} {items : List BlockId} (few : items.length ≤ _maximum_blocks_per_peer_during_syncing)
      (listed : ∀ h ∈ items, h ∈ (s.peers p).ids_of_items_to_get) (free : ∀ h ∈ items, h ∉ s._active_sync_requests) :
      Change E i s (s.request_sync_items_from_peer p items)
  | request {i : Fiber} {s s' : NodeState O} (events : List (Event O)) (log : s'.log = events ++ s.log)
      (rest : s.Aside { s' with log := s.log }) (less : ∀ p, (s.peers p).Less s.now { s'.peers p with
        items_requested_from_peer := (s.peers p).items_requested_from_peer })
      (asked : ∀ p, ∀ item ∈ (s'.peers p).items_requested_from_peer,
        item ∈ (s.peers p).items_requested_from_peer ∨ Asked events p item)
      (only : ∀ e ∈ events, ∃ p item_type items_to_fetch,
        e = .queued p s.now (.real_queued_message (.fetch_items item_type items_to_fetch)) ∧
        items_to_fetch.length ≤ GRAPHENE_NET_MAX_ITEMS_PER_PEER_DURING_NORMAL_OPERATION ∧
        ∀ h ∈ items_to_fetch, Listed (s.peers p).inventory_peer_advertised_to_us ⟨item_type,h⟩) : Change E i s s'
  | advertise {i : Fiber} {s s' : NodeState O} (events : List (Event O)) (log : s'.log = events ++ s.log)
      (rest : s.Aside { s' with log := s.log }) (less : ∀ p, (s.peers p).Less s.now (s'.peers p))
      (only : ∀ e ∈ events, ∃ p item_type hashes,
        e = .queued p s.now (.real_queued_message (.item_ids_inventory item_type hashes)) ∧
        ∀ h ∈ hashes, ¬ Listed (s.peers p).inventory_advertised_to_peer ⟨item_type,h⟩ ∧
          ⟨⟨item_type,h⟩,seconds s.now⟩ ∈ (s'.peers p).inventory_advertised_to_peer)
      (once : events.Pairwise fun a b => ∀ p item_type hashes, a = .queued p s.now (.real_queued_message (.item_ids_inventory item_type hashes)) →
        ∀ others, b = .queued p s.now (.real_queued_message (.item_ids_inventory item_type others)) → ∀ h ∈ hashes, h ∉ others) :
      Change E i s s'
  | hear {i : Fiber} {s : NodeState O} {p : Nat} {item : ItemId} (announced : Announced s.log p item) :
      Change E i s (s.modify_peer p fun peer => { peer with
        inventory_peer_advertised_to_us := insert_item item s.now peer.inventory_peer_advertised_to_us })
  | append {s : NodeState O} {p : Nat} {ids : List BlockId}
      (sequential : ((s.peers p).ids_of_items_to_get ++ ids).IsChain fun a b => b.num = plus a.num 1)
      (announced : ∀ h ∈ ids, Announced s.log p ⟨block_message_type,h⟩) :
      Change E (.reader p) s (s.modify_peer p fun peer => { peer with ids_of_items_to_get := peer.ids_of_items_to_get ++ ids })
  | take_sync_item {s : NodeState O} {p : Nat} {b : BlockMessage O} (unsettled : (s.peers p).rescheduled = false)
      (requested : ⟨block_message_type,b.block_id⟩ ∈ (s.peers p).sync_items_requested_from_peer)
      (delivered : Delivered E s.log (.block b)) :
      Change E (.reader p) s (s.take_sync_item p b)
  | settle {s : NodeState O} {p : Nat} (unsettled : (s.peers p).rescheduled = false) :
      Change E (.reader p) s (s.free_sync_requests p)
  | tick {i : Fiber} {s : NodeState O} {now : Nat} (later : s.now ≤ now) : Change E i s { s with now }

/-! ### The invariant -/

/-- A field that a change of a peer leaves alone. -/
theorem NodeState.modify_peer_field {α : Type} (field : PeerConnection → α) {s : NodeState O} {p : Nat}
    {f : PeerConnection → PeerConnection} (same : field (f (s.peers p)) = field (s.peers p)) (q : Nat) :
    field ((s.modify_peer p f).peers q) = field (s.peers q) := by
  by_cases here : q = p
  · subst here
    simpa [modify_peer] using same
  · simp [modify_peer,here]

@[simp] theorem NodeState.modify_peer_self (s : NodeState O) (p : Nat) (f : PeerConnection → PeerConnection) :
    (s.modify_peer p f).peers p = f (s.peers p) := by simp [modify_peer]

@[simp] theorem NodeState.modify_peer_twice (s : NodeState O) (p : Nat) (f g : PeerConnection → PeerConnection) :
    (s.modify_peer p f).modify_peer p g = s.modify_peer p fun peer => g (f peer) := by simp [modify_peer]

theorem NodeState.modify_peer_other (s : NodeState O) {p q : Nat} (f : PeerConnection → PeerConnection) (other : q ≠ p) :
    (s.modify_peer p f).peers q = s.peers q := by simp [modify_peer,other]


/-- Each event has before it what it needs. The account is newest first. -/
def Justified (E : Env O) : List (Event O) → Prop
  | [] => True
  | e :: past => e.Justified E past ∧ Justified E past

/-- The numbers of a list of ids follow each other, with 32 bits. -/
def Sequential (ids : List BlockId) : Prop := ids.IsChain fun a b => b.num = plus a.num 1

/-- What the node has to do with one peer, given the account and the requests for sync items. -/
structure PeerConnection.Owed (log : List (Event O)) (_active_sync_requests : List BlockId) (p : Nat)
    (peer : PeerConnection) : Prop where
  active : peer.rescheduled = false → ∀ item ∈ peer.sync_items_requested_from_peer, item.item_hash ∈ _active_sync_requests
  blocks : ∀ item ∈ peer.sync_items_requested_from_peer, item.item_type = block_message_type
  sequential : Sequential peer.ids_of_items_to_get
  listed : ∀ h ∈ peer.ids_of_items_to_get, Announced log p ⟨block_message_type,h⟩
  heard : ∀ t ∈ peer.inventory_peer_advertised_to_us, Announced log p t.item
  items_asked : ∀ item ∈ peer.items_requested_from_peer, Asked log p item
  sync_items_asked : ∀ item ∈ peer.sync_items_requested_from_peer, Asked log p item

/-- What holds whatever the peers send and in whatever order the tasks run. -/
structure Inv (E : Env O) (s : NodeState O) : Prop where
  owed : ∀ p, (s.peers p).Owed s.log s._active_sync_requests p
  /-- A block is requested from no two peers at once. -/
  exclusive : ∀ p q item, item ∈ (s.peers p).sync_items_requested_from_peer →
    item ∈ (s.peers q).sync_items_requested_from_peer → (s.peers p).rescheduled = false →
    (s.peers q).rescheduled = false → p = q
  in_hand : ∀ b ∈ s.in_hand, Delivered E s.log (.block b)
  advertised : ∀ p now item_type hashes,
    .queued p now (.real_queued_message (.item_ids_inventory item_type hashes)) ∈ s.log → ∀ h ∈ hashes,
    now + inventory_duration < s.now ∨ ⟨⟨item_type,h⟩,seconds now⟩ ∈ (s.peers p).inventory_advertised_to_peer
  justified : Justified E s.log

section
variable {E : Env O}

theorem Announced.mono {log log' : List (Event O)} (grows : log <:+ log') {p : Nat} {item : ItemId}
    (announced : Announced log p item) : Announced log' p item := by
  obtain ⟨m,received,lists⟩ := announced
  exact ⟨m,grows.subset received,lists⟩

theorem Asked.mono {log log' : List (Event O)} (grows : log <:+ log') {p : Nat} {item : ItemId}
    (asked : Asked log p item) : Asked log' p item := by
  obtain ⟨now,items,queued,member⟩ := asked
  exact ⟨now,items,grows.subset queued,member⟩

theorem Delivered.mono {log log' : List (Event O)} (grows : log <:+ log') {i : Item O}
    (delivered : Delivered E log i) : Delivered E log' i := by
  obtain ⟨p,now,item_type,items,isItem,order⟩ := delivered
  exact ⟨p,now,item_type,items,isItem,order.trans grows.sublist⟩

/-- A message that has just come from a peer that was asked for it. -/
theorem Asked.delivered {log : List (Event O)} {p : Nat} {i : Item O} {item : ItemId} (asked : Asked log p item)
    (isItem : ∀ items, item.item_hash ∈ items → i.IsOf E item.item_type items) :
    Delivered E (.received p (.item i) :: log) i := by
  obtain ⟨now,items,queued,member⟩ := asked
  exact ⟨p,now,item.item_type,items,isItem items member,List.Sublist.cons_cons _ (List.singleton_sublist.mpr queued)⟩

/-! ### One peer -/

section
variable {log log' : List (Event O)} {requests requests' : List BlockId} {p : Nat} {peer peer' : PeerConnection}

theorem PeerConnection.Owed.mono (owed : peer.Owed log requests p) (grows : log <:+ log')
    (still : peer.rescheduled = false → ∀ item ∈ peer.sync_items_requested_from_peer, item.item_hash ∈ requests →
      item.item_hash ∈ requests') : peer.Owed log' requests' p where
  active unsettled item member := still unsettled item member (owed.active unsettled item member)
  blocks := owed.blocks
  sequential := owed.sequential
  listed h member := (owed.listed h member).mono grows
  heard t member := (owed.heard t member).mono grows
  items_asked item member := (owed.items_asked item member).mono grows
  sync_items_asked item member := (owed.sync_items_asked item member).mono grows

theorem PeerConnection.Owed.less (owed : peer.Owed log requests p) {now : Nat} (less : peer.Less now peer') :
    peer'.Owed log requests p where
  active unsettled item member := owed.active (less.rescheduled ▸ unsettled) item (less.sync_items item member)
  blocks item member := owed.blocks item (less.sync_items item member)
  sequential := owed.sequential.infix less.ids
  listed h member := owed.listed h (less.ids.subset member)
  heard t member := owed.heard t (less.heard t member)
  items_asked item member := owed.items_asked item (less.items item member)
  sync_items_asked item member := owed.sync_items_asked item (less.sync_items item member)

end

/-- The state of one peer changes. -/
theorem Inv.modify_peer {s : NodeState O} (inv : Inv E s) {p : Nat} {f : PeerConnection → PeerConnection}
    (owed : (f (s.peers p)).Owed s.log s._active_sync_requests p)
    (requests : ∀ item ∈ (f (s.peers p)).sync_items_requested_from_peer, item ∈ (s.peers p).sync_items_requested_from_peer)
    (unsettled : (f (s.peers p)).rescheduled = false → (s.peers p).rescheduled = false)
    (remembers : (f (s.peers p)).inventory_advertised_to_peer = (s.peers p).inventory_advertised_to_peer) :
    Inv E (s.modify_peer p f) := by
  have before : ∀ q, ((s.modify_peer p f).peers q).rescheduled = false → (s.peers q).rescheduled = false ∧
      ∀ item ∈ ((s.modify_peer p f).peers q).sync_items_requested_from_peer,
        item ∈ (s.peers q).sync_items_requested_from_peer := by
    intro q
    by_cases here : q = p
    · subst here
      rw [NodeState.modify_peer_self]
      exact fun still => ⟨unsettled still,requests⟩
    · rw [NodeState.modify_peer_other _ _ here]
      exact fun still => ⟨still,fun _ member => member⟩
  exact {
    owed q := by
      by_cases here : q = p
      · subst here
        rw [NodeState.modify_peer_self]
        exact owed
      · rw [NodeState.modify_peer_other _ _ here]
        exact inv.owed q
    exclusive q r item inQ inR atQ atR :=
      inv.exclusive q r item ((before q atQ).2 item inQ) ((before r atR).2 item inR) (before q atQ).1 (before r atR).1
    in_hand := inv.in_hand
    advertised q now item_type hashes queued h member := by
      rw [NodeState.modify_peer_field (·.inventory_advertised_to_peer) remembers]
      exact inv.advertised q now item_type hashes queued h member
    justified := inv.justified }

/-- A peer has announced an item. -/
theorem Inv.hear {s : NodeState O} (inv : Inv E s) {p : Nat} {item : ItemId} (announced : Announced s.log p item) :
    Inv E (s.modify_peer p fun peer => { peer with
      inventory_peer_advertised_to_us := insert_item item s.now peer.inventory_peer_advertised_to_us }) := by
  refine inv.modify_peer { inv.owed p with heard := fun t member => ?_ } (fun _ member => member) id rfl
  simp only [insert_item] at member
  split at member
  · exact (inv.owed p).heard t member
  · rcases List.mem_append.mp member with old | new
    · exact (inv.owed p).heard t old
    · obtain rfl := List.mem_singleton.mp new
      exact announced

/-- A peer's list goes on. -/
theorem Inv.append_ids {s : NodeState O} (inv : Inv E s) {p : Nat} {ids : List BlockId}
    (sequential : Sequential ((s.peers p).ids_of_items_to_get ++ ids))
    (announced : ∀ h ∈ ids, Announced s.log p ⟨block_message_type,h⟩) :
    Inv E (s.modify_peer p fun peer => { peer with ids_of_items_to_get := peer.ids_of_items_to_get ++ ids }) := by
  refine inv.modify_peer { inv.owed p with sequential, listed := fun h member => ?_ } (fun _ member => member) id rfl
  rcases List.mem_append.mp member with old | new
  · exact (inv.owed p).listed h old
  · exact announced h new

/-- What peers that have not grown leave of the invariant. -/
theorem Inv.less {s s' : NodeState O} (inv : Inv E s) (aside : s.Aside s')
    (less : ∀ p, (s.peers p).Less s.now (s'.peers p)) : Inv E s' where
  owed p := by
    rw [aside.log,aside.requests]
    exact (inv.owed p).less (less p)
  exclusive p q item inP inQ atP atQ := inv.exclusive p q item ((less p).sync_items item inP) ((less q).sync_items item inQ)
    ((less p).rescheduled ▸ atP) ((less q).rescheduled ▸ atQ)
  in_hand b member := aside.log ▸ inv.in_hand b (aside.in_hand b member)
  advertised p now item_type hashes queued h member := by
    rw [aside.now]
    rw [aside.log] at queued
    rcases inv.advertised p now item_type hashes queued h member with old | entry
    · exact .inl old
    · rcases (less p).advertised _ entry with still | old
      · exact .inr still
      · left
        have below : seconds now < seconds (s.now - inventory_duration) := old
        simp only [seconds] at below
        omega
  justified := aside.log ▸ inv.justified

/-! ### The account goes on -/

/-- An advertisement is remembered by the peer it was sent to. -/
def Event.Remembered (s : NodeState O) (e : Event O) : Prop :=
  ∀ p now item_type hashes, e = .queued p now (.real_queued_message (.item_ids_inventory item_type hashes)) → ∀ h ∈ hashes,
    ⟨⟨item_type,h⟩,seconds now⟩ ∈ (s.peers p).inventory_advertised_to_peer

theorem Inv.append {s : NodeState O} (inv : Inv E s) (events : List (Event O))
    (justified : Justified E (events ++ s.log)) (remembered : ∀ e ∈ events, e.Remembered s) :
    Inv E { s with log := events ++ s.log } where
  owed p := (inv.owed p).mono (List.suffix_append _ _) fun _ _ _ active => active
  exclusive := inv.exclusive
  in_hand b member := (inv.in_hand b member).mono (List.suffix_append _ _)
  advertised p now item_type hashes queued h member := by
    rcases List.mem_append.mp queued with new | old
    · exact .inr (remembered _ new p now item_type hashes rfl h member)
    · exact inv.advertised p now item_type hashes old h member
  justified := justified

theorem Event.Plain.justified {e : Event O} (plain : e.Plain) (past : List (Event O)) : e.Justified E past := by
  unfold Event.Plain at plain
  unfold Event.Justified
  split at plain <;> first | exact plain.elim | trivial

theorem Event.Plain.remembered {e : Event O} (plain : e.Plain) (s : NodeState O) : e.Remembered s := by
  rintro p now item_type hashes rfl
  exact plain.elim

/-- Items of a peer, in its list of what it says that it has. -/
theorem Inv.announced {s : NodeState O} (inv : Inv E s) {p : Nat} {item : ItemId}
    (listed : Listed (s.peers p).inventory_peer_advertised_to_us item) : Announced s.log p item := by
  obtain ⟨t,member,rfl⟩ := listed
  exact (inv.owed p).heard t member

/-- Requests for what the peers have announced, one behind the other. -/
theorem Inv.justified_requests {s : NodeState O} (inv : Inv E s) {events : List (Event O)}
    (only : ∀ e ∈ events, ∃ p item_type items_to_fetch,
      e = .queued p s.now (.real_queued_message (.fetch_items item_type items_to_fetch)) ∧
      items_to_fetch.length ≤ GRAPHENE_NET_MAX_ITEMS_PER_PEER_DURING_NORMAL_OPERATION ∧
      ∀ h ∈ items_to_fetch, Listed (s.peers p).inventory_peer_advertised_to_us ⟨item_type,h⟩) :
    Justified E (events ++ s.log) := by
  induction events with
  | nil => exact inv.justified
  | cons e rest ih =>
    refine ⟨?_,ih fun e member => only e (List.mem_cons_of_mem _ member)⟩
    obtain ⟨p,item_type,items,rfl,few,listed⟩ := only e List.mem_cons_self
    exact ⟨few,fun h member => (inv.announced (listed h member)).mono (List.suffix_append _ _)⟩

/-- Advertisements of items that no peer has heard of, one behind the other. -/
theorem Inv.justified_advertisements {s : NodeState O} (inv : Inv E s) {events : List (Event O)}
    (only : ∀ e ∈ events, ∃ p item_type hashes,
      e = .queued p s.now (.real_queued_message (.item_ids_inventory item_type hashes)) ∧
      ∀ h ∈ hashes, ¬ Listed (s.peers p).inventory_advertised_to_peer ⟨item_type,h⟩)
    (once : events.Pairwise fun a b => ∀ p item_type hashes,
      a = .queued p s.now (.real_queued_message (.item_ids_inventory item_type hashes)) → ∀ others,
      b = .queued p s.now (.real_queued_message (.item_ids_inventory item_type others)) → ∀ h ∈ hashes, h ∉ others) :
    Justified E (events ++ s.log) := by
  induction events with
  | nil => exact inv.justified
  | cons e rest ih =>
    refine ⟨?_,ih (fun e member => only e (List.mem_cons_of_mem _ member)) (List.pairwise_cons.mp once).2⟩
    obtain ⟨p,item_type,hashes,rfl,fresh⟩ := only e List.mem_cons_self
    intro h member before earlier queued already
    rcases List.mem_append.mp queued with now | past
    · obtain ⟨q,type,others,same,-⟩ := only _ (List.mem_cons_of_mem _ now)
      obtain ⟨rfl,rfl,rfl,rfl⟩ : p = q ∧ before = s.now ∧ item_type = type ∧ earlier = others := by simpa using same
      exact absurd already ((List.pairwise_cons.mp once).1 _ now p item_type hashes rfl earlier rfl h member)
    · rcases inv.advertised p before item_type earlier past h already with old | entry
      · exact old
      · exact absurd ⟨_,entry,rfl⟩ (fresh h member)

theorem mem_foldl_insert {α β : Type} [DecidableEq β] {f : α → β} {xs : List α} {all : List β} {b : β} :
    b ∈ xs.foldl (fun all a => all.insert (f a)) all ↔ b ∈ all ∨ ∃ a ∈ xs, f a = b := by
  induction xs generalizing all with
  | nil => simp
  | cons a rest ih =>
    rw [List.foldl_cons,ih,List.mem_insert_iff]
    simp only [List.exists_mem_cons_iff,@eq_comm _ b (f a)]
    tauto

/-- A request for sync items: they were free, and now they are this peer's. -/
theorem Inv.request_sync {s : NodeState O} (inv : Inv E s) {p : Nat} {items : List BlockId}
    (few : items.length ≤ _maximum_blocks_per_peer_during_syncing)
    (listed : ∀ h ∈ items, h ∈ (s.peers p).ids_of_items_to_get) (free : ∀ h ∈ items, h ∉ s._active_sync_requests) :
    Inv E (s.request_sync_items_from_peer p items) := by
  set s' := s.request_sync_items_from_peer p items with after
  have grows : s.log <:+ s'.log := List.suffix_cons _ _
  have active : ∀ h, h ∈ s'._active_sync_requests ↔ h ∈ s._active_sync_requests ∨ ∃ a ∈ items, a = h :=
    fun h => mem_foldl_insert (f := id)
  have others : ∀ q, q ≠ p → s'.peers q = s.peers q := fun q other =>
    NodeState.modify_peer_other s (·.insert_sync_items items) other
  have here : s'.peers p = (s.peers p).insert_sync_items items := NodeState.modify_peer_self s p (·.insert_sync_items items)
  have mine : ∀ item, item ∈ (s'.peers p).sync_items_requested_from_peer ↔
      item ∈ (s.peers p).sync_items_requested_from_peer ∨ ∃ h ∈ items, ⟨block_message_type,h⟩ = item := by
    intro item
    rw [here]
    exact mem_foldl_insert
  have unsettled : ∀ q, (s'.peers q).rescheduled = (s.peers q).rescheduled :=
    NodeState.modify_peer_field (f := (·.insert_sync_items items)) (·.rescheduled) rfl
  -- what another peer was asked for was not free
  have lone {q item} (atQ : (s.peers q).rescheduled = false) (old : item ∈ (s.peers q).sync_items_requested_from_peer)
      (new : ∃ h ∈ items, ⟨block_message_type,h⟩ = item) : False := by
    obtain ⟨h,inside,rfl⟩ := new
    exact free h inside ((inv.owed q).active atQ _ old)
  have still : ∀ q, (s.peers q).Owed s'.log s'._active_sync_requests q := fun q =>
    (inv.owed q).mono grows fun _ _ _ member => (active _).mpr (.inl member)
  exact {
    owed q := by
      by_cases same : q = p
      · subst same
        have queued : ∀ h ∈ items, Asked s'.log q ⟨block_message_type,h⟩ := fun h inside =>
          ⟨s.now,items,List.mem_cons_self,inside⟩
        rw [here]
        exact { still q with
          active := fun atQ item member => by
            rcases (mine item).mp (here ▸ member) with old | ⟨h,inside,rfl⟩
            · exact (still q).active atQ item old
            · exact (active _).mpr (.inr ⟨h,inside,rfl⟩)
          blocks := fun item member => by
            rcases (mine item).mp (here ▸ member) with old | ⟨h,-,rfl⟩
            · exact (still q).blocks item old
            · rfl
          sync_items_asked := fun item member => by
            rcases (mine item).mp (here ▸ member) with old | ⟨h,inside,rfl⟩
            · exact (still q).sync_items_asked item old
            · exact queued h inside }
      · rw [others q same]
        exact still q
    exclusive q r item inQ inR atQ atR := by
      rw [unsettled] at atQ atR
      by_cases isQ : q = p <;> by_cases isR : r = p
      · exact isQ.trans isR.symm
      · subst isQ
        rw [others r isR] at inR
        rcases (mine item).mp inQ with old | new
        · exact inv.exclusive q r item old inR atQ atR
        · exact (lone atR inR new).elim
      · subst isR
        rw [others q isQ] at inQ
        rcases (mine item).mp inR with old | new
        · exact inv.exclusive q r item inQ old atQ atR
        · exact (lone atQ inQ new).elim
      · rw [others q isQ] at inQ
        rw [others r isR] at inR
        exact inv.exclusive q r item inQ inR atQ atR
    in_hand b member := (inv.in_hand b member).mono grows
    advertised q now item_type hashes queued h member := by
      have same : (s'.peers q).inventory_advertised_to_peer = (s.peers q).inventory_advertised_to_peer :=
        NodeState.modify_peer_field (f := (·.insert_sync_items items)) (·.inventory_advertised_to_peer) rfl q
      rw [same]
      rcases List.mem_cons.mp queued with new | old
      · simp at new
      · exact inv.advertised q now item_type hashes old h member
    justified := ⟨⟨few.trans (by decide),fun h member => (inv.owed p).listed h (listed h member)⟩,inv.justified⟩ }

/-- A sync item has come from the only peer that was asked for it. -/
theorem Inv.take_sync_item {s : NodeState O} (inv : Inv E s) {p : Nat} {b : BlockMessage O}
    (unsettled : (s.peers p).rescheduled = false)
    (requested : ⟨block_message_type,b.block_id⟩ ∈ (s.peers p).sync_items_requested_from_peer)
    (delivered : Delivered E s.log (.block b)) : Inv E (s.take_sync_item p b) := by
  have less : ∀ item, item ∈ (s.peers p).sync_items_requested_from_peer.filter (· ≠ ⟨block_message_type,b.block_id⟩) →
      item ∈ (s.peers p).sync_items_requested_from_peer ∧ item.item_hash ≠ b.block_id := by
    intro item member
    obtain ⟨old,other⟩ := List.mem_filter.mp member
    refine ⟨old,fun same => ?_⟩
    have block := (inv.owed p).blocks item old
    obtain ⟨item_type,item_hash⟩ := item
    simp_all
  have forgets : Inv E (s.modify_peer p fun peer => { peer with
      sync_items_requested_from_peer :=
        peer.sync_items_requested_from_peer.filter (· ≠ ⟨block_message_type,b.block_id⟩) }) :=
    inv.modify_peer { inv.owed p with
      active := fun atP item member => (inv.owed p).active atP item (less item member).1
      blocks := fun item member => (inv.owed p).blocks item (less item member).1
      sync_items_asked := fun item member => (inv.owed p).sync_items_asked item (less item member).1 }
      (fun item member => (less item member).1) id rfl
  exact { forgets with
    owed := fun q => (forgets.owed q).mono List.suffix_rfl fun atQ item member active => by
      refine List.mem_filter.mpr ⟨active,decide_eq_true fun same => ?_⟩
      by_cases here : q = p
      · subst here
        rw [NodeState.modify_peer_self] at member
        exact (less item member).2 same
      · rw [NodeState.modify_peer_other _ _ here] at atQ member
        have block := (inv.owed q).blocks item member
        obtain ⟨item_type,item_hash⟩ := item
        obtain ⟨rfl,rfl⟩ : item_type = block_message_type ∧ item_hash = b.block_id := ⟨block,same⟩
        exact here (inv.exclusive q p _ member requested atQ unsettled)
    in_hand := fun c member => by
      rcases List.mem_cons.mp (show c ∈ b :: s.in_hand from member) with rfl | old
      · exact delivered
      · exact inv.in_hand c old }

/-- The requests to a peer whose connection has ended are free again. -/
theorem Inv.settle {s : NodeState O} (inv : Inv E s) {p : Nat} (unsettled : (s.peers p).rescheduled = false) :
    Inv E (s.free_sync_requests p) := by
  have settled : Inv E (s.modify_peer p fun peer => { peer with read_loop := .ended }) :=
    inv.modify_peer { inv.owed p with active := fun atP => by simp [PeerConnection.rescheduled] at atP }
      (fun _ member => member) (fun _ => unsettled) rfl
  exact { settled with
    owed := fun q => (settled.owed q).mono List.suffix_rfl fun atQ item member active => by
      refine List.mem_filter.mpr ⟨active,decide_eq_true ?_⟩
      rintro ⟨other,theirs,same⟩
      by_cases here : q = p
      · subst here
        simp [PeerConnection.rescheduled] at atQ
      · rw [NodeState.modify_peer_other _ _ here] at atQ member
        have equal : other = item := by
          have both := ((inv.owed p).blocks other theirs).trans ((inv.owed q).blocks item member).symm
          cases other
          cases item
          simp_all
        exact here (inv.exclusive q p item member (equal ▸ theirs) atQ unsettled) }

/-- The items that were requested have been announced. -/
theorem Inv.request {s s' : NodeState O} (inv : Inv E s) {events : List (Event O)} (log : s'.log = events ++ s.log)
    (rest : s.Aside { s' with log := s.log }) (less : ∀ p, (s.peers p).Less s.now { s'.peers p with
      items_requested_from_peer := (s.peers p).items_requested_from_peer })
    (asked : ∀ p, ∀ item ∈ (s'.peers p).items_requested_from_peer,
      item ∈ (s.peers p).items_requested_from_peer ∨ Asked events p item)
    (only : ∀ e ∈ events, ∃ p item_type items_to_fetch,
      e = .queued p s.now (.real_queued_message (.fetch_items item_type items_to_fetch)) ∧
      items_to_fetch.length ≤ GRAPHENE_NET_MAX_ITEMS_PER_PEER_DURING_NORMAL_OPERATION ∧
      ∀ h ∈ items_to_fetch, Listed (s.peers p).inventory_peer_advertised_to_us ⟨item_type,h⟩) : Inv E s' := by
  have aside : s.Aside { s' with
      log := s.log
      peers := fun p => { s'.peers p with items_requested_from_peer := (s.peers p).items_requested_from_peer } } :=
    ⟨rest.requests,rest.in_hand,rfl,rest.now⟩
  have remembered : ∀ e ∈ events, e.Remembered { s' with
      log := s.log
      peers := fun p => { s'.peers p with items_requested_from_peer := (s.peers p).items_requested_from_peer } } := by
    rintro e member p now item_type hashes rfl
    obtain ⟨q,type,items,same,-⟩ := only _ member
    simp at same
  have before := (inv.less aside less).append events (inv.justified_requests only) remembered
  have grows : s.log <:+ s'.log := log ▸ List.suffix_append _ _
  exact {
    owed p := { before.owed p with
      listed := log ▸ (before.owed p).listed
      heard := log ▸ (before.owed p).heard
      items_asked := fun item member => by
        rcases asked p item member with old | ⟨now,items,queued,inside⟩
        · exact ((inv.owed p).items_asked item old).mono grows
        · exact ⟨now,items,log ▸ List.mem_append_left _ queued,inside⟩
      sync_items_asked := log ▸ (before.owed p).sync_items_asked }
    exclusive := before.exclusive
    in_hand := log ▸ before.in_hand
    advertised := log ▸ before.advertised
    justified := log ▸ before.justified }

/-- Every change keeps the invariant. -/
theorem Change.keeps {i : Fiber} {s s' : NodeState O} (inv : Inv E s) (change : Change E i s s') : Inv E s' := by
  cases change with
  | less aside less => exact inv.less aside less
  | note e plain =>
    exact inv.append [e] ⟨plain.justified _,inv.justified⟩
      fun _ member => List.mem_singleton.mp member ▸ plain.remembered s
  | hand m delivered =>
    refine inv.append [.handled m] ⟨delivered,inv.justified⟩ fun _ member => ?_
    obtain rfl := List.mem_singleton.mp member
    rintro p now item_type hashes ⟨⟩
  | request_sync few listed free => exact inv.request_sync few listed free
  | request events log rest less asked only => exact inv.request log rest less asked only
  | advertise events log rest less only once =>
    have before := (inv.less rest less).append events
      (inv.justified_advertisements (fun e member => by
        obtain ⟨p,item_type,hashes,isE,fresh⟩ := only e member
        exact ⟨p,item_type,hashes,isE,fun h inside => (fresh h inside).1⟩) once)
      (by
        rintro e member p now item_type hashes rfl h inside
        obtain ⟨q,type,others,same,fresh⟩ := only _ member
        obtain ⟨rfl,rfl,rfl,rfl⟩ : p = q ∧ now = s.now ∧ item_type = type ∧ hashes = others := by simpa using same
        exact (fresh h inside).2)
    simpa only [← log] using before
  | hear announced => exact inv.hear announced
  | append sequential announced => exact inv.append_ids sequential announced
  | take_sync_item unsettled requested delivered => exact inv.take_sync_item unsettled requested delivered
  | settle unsettled => exact inv.settle unsettled
  | tick later =>
    exact { inv with advertised := fun p now item_type hashes queued h member =>
      (inv.advertised p now item_type hashes queued h member).imp (lt_of_lt_of_le · later) id }

end
end Decent.Net

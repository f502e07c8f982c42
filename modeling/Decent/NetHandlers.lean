import Decent.NetNode
import Decent.Synopsis

/-!
What the node does: with each message, by its loops, and when a connection ends. Code that runs
without a pause is a function on the state; code that calls the delegate is a task.
-/
namespace Decent.Net
open Decent.Protocol
open Tasks Task
open Decent.Sync (plus minus)

variable {O : Type}

/-! ### Small steps -/

/-- Sync items that a peer is asked for. -/
def PeerConnection.insert_sync_items (items_to_request : List BlockId) (peer : PeerConnection) : PeerConnection :=
  { peer with
    sync_items_requested_from_peer :=
      items_to_request.foldl (fun all h => all.insert ⟨block_message_type,h⟩) peer.sync_items_requested_from_peer }

namespace NodeState

def modify_peer (p : Nat) (f : PeerConnection → PeerConnection) (s : NodeState O) : NodeState O :=
  { s with peers := Function.update s.peers p (f (s.peers p)) }

def note (e : Event O) (s : NodeState O) : NodeState O := { s with log := e :: s.log }

/-- `peer_connection::send_message`, up to where the message is in the queue. -/
def send_message (p : Nat) (m : Message O) (s : NodeState O) : NodeState O :=
  s.note (.queued p s.now (.real_queued_message m))

/-- `peer_connection::send_item` -/
def send_item (p : Nat) (item : ItemId) (s : NodeState O) : NodeState O :=
  s.note (.queued p s.now (.virtual_queued_message item))

def move_peer_to_active_list (p : Nat) (s : NodeState O) : NodeState O :=
  { s with
    _active_connections := s._active_connections.insert p
    _handshaking_connections := s._handshaking_connections.filter (· ≠ p)
    _closing_connections := s._closing_connections.filter (· ≠ p)
    _terminating_connections := s._terminating_connections.filter (· ≠ p) }

def move_peer_to_closing_list (p : Nat) (s : NodeState O) : NodeState O :=
  { s with
    _active_connections := s._active_connections.filter (· ≠ p)
    _handshaking_connections := s._handshaking_connections.filter (· ≠ p)
    _closing_connections := s._closing_connections.insert p
    _terminating_connections := s._terminating_connections.filter (· ≠ p) }

def move_peer_to_terminating_list (p : Nat) (s : NodeState O) : NodeState O :=
  { s with
    _active_connections := s._active_connections.filter (· ≠ p)
    _handshaking_connections := s._handshaking_connections.filter (· ≠ p)
    _closing_connections := s._closing_connections.filter (· ≠ p)
    _terminating_connections := s._terminating_connections.insert p }

/-- `push_back` of `_most_recent_blocks_accepted`, a circular buffer. -/
def accept_block (id : BlockId) (s : NodeState O) : NodeState O :=
  let all := s._most_recent_blocks_accepted ++ [id]
  { s with _most_recent_blocks_accepted := all.drop (all.length - _maximum_number_of_connections) }

def have_already_received_sync_item (item_hash : BlockId) (s : NodeState O) : Bool :=
  s._received_sync_items.any (·.block_id = item_hash) || s._new_received_sync_items.any (·.block_id = item_hash)

def is_item_in_any_peers_inventory (item : ItemId) (s : NodeState O) : Bool :=
  s._active_connections.any fun p => Listed (s.peers p).inventory_peer_advertised_to_us item

def calculate_unsynced_block_count_from_all_peers (s : NodeState O) : Nat :=
  (s._active_connections.map fun p =>
    plus (s.peers p).ids_of_items_to_get.length (s.peers p).number_of_unfetched_item_ids).foldr max 0

/-- The numbers are in order. -/
def is_hard_fork_block (block_number : Nat) (s : NodeState O) : Bool := block_number ∈ s._hard_fork_block_numbers

def get_next_known_hard_fork_block_number (block_number : Nat) (s : NodeState O) : Nat :=
  (s._hard_fork_block_numbers.find? (block_number < ·)).getD 0

def is_already_connected_to_id (node_id : Nat) (s : NodeState O) : Bool :=
  node_id = s._node_id || s._active_connections.any (fun p => node_id = (s.peers p).node_id) ||
    s._handshaking_connections.any (fun p => node_id = (s.peers p).node_id)

def is_accepting_new_connections (s : NodeState O) : Bool :=
  s._handshaking_connections.length + s._active_connections.length ≤ _maximum_number_of_connections

/-- `prioritized_item_id::operator<`, where a difference of 32 bits is taken as signed. -/
def before (a b : PrioritizedItemId) : Bool :=
  if a.item.item_type ≠ b.item.item_type then a.item.item_type > b.item.item_type
  else let difference := minus b.sequence_number a.sequence_number
    0 < difference ∧ difference < 2 ^ 31

/-- `_items_to_fetch.insert(prioritized_item_id(item, _items_to_fetch_sequence_counter++))`: no item is there twice. -/
def fetch_item_later (item : ItemId) (s : NodeState O) : NodeState O :=
  let new : PrioritizedItemId := ⟨item,s._items_to_fetch_sequence_counter,s.now⟩
  { s with
    _items_to_fetch_sequence_counter := plus s._items_to_fetch_sequence_counter 1
    _items_to_fetch := if s._items_to_fetch.any (·.item = item) then s._items_to_fetch
      else s._items_to_fetch.takeWhile (fun i => !before new i) ++ new ::
        s._items_to_fetch.dropWhile (fun i => !before new i) }

/-! ### The loops -/

/-- `request_sync_items_from_peer` -/
def request_sync_items_from_peer (p : Nat) (items_to_request : List BlockId) (s : NodeState O) : NodeState O :=
  { s.modify_peer p (·.insert_sync_items items_to_request) with
    _active_sync_requests := items_to_request.foldl (fun all h => all.insert h) s._active_sync_requests
    log := .queued p s.now (.real_queued_message (.fetch_items block_message_type items_to_request)) :: s.log }

/-- The ids that a peer is to be asked for, of those it has listed: no more than a batch, none that is there,
    and none that is `taken`. -/
def sync_items_to_request (s : NodeState O) (mine taken : List BlockId) : List BlockId → List BlockId
  | [] => mine
  | h :: rest =>
    if !s.have_already_received_sync_item h ∧ h ∉ taken ∧ h ∉ s._active_sync_requests then
      if mine.length + 1 ≥ _maximum_blocks_per_peer_during_syncing then mine ++ [h]
      else sync_items_to_request s (mine ++ [h]) (h :: taken) rest
    else sync_items_to_request s mine taken rest

/-- The requests to send, with those to another peer. -/
def schedule_requests (s : NodeState O) (requests : List (Nat × List BlockId)) (p : Nat) : List (Nat × List BlockId) :=
  let peer := s.peers p
  if peer.we_need_sync_items_from_peer ∧ p ∉ requests.map (·.1) ∧ peer.idle ∧ !peer.inhibit_fetching_sync_blocks then
    let chosen := sync_items_to_request s [] (requests.flatMap (·.2)) peer.ids_of_items_to_get
    if chosen = [] then requests else requests ++ [(p,chosen)]
  else requests

/-- One round of `fetch_sync_items_loop`. -/
def fetch_sync_items (s : NodeState O) : NodeState O :=
  if s._suspend_fetching_sync_blocks then s
  else (s._active_connections.foldl (schedule_requests s) []).foldl
    (fun s request => s.request_sync_items_from_peer request.1 request.2) s

/-- `peer_and_items_to_fetch` -/
structure PeerAndItems where
  peer : Nat
  item_ids : List ItemId
deriving DecidableEq, Repr

/-- `modify` of the requests, which are in the order of their numbers of items: a request that is no
    longer in order gets behind all that are no greater. -/
def give_item (item : ItemId) (p : Nat) : List PeerAndItems → List PeerAndItems
  | [] => []
  | r :: rest =>
    if r.peer = p then
      let more : PeerAndItems := { r with item_ids := r.item_ids ++ [item] }
      match rest with
      | [] => [more]
      | next :: _ =>
        if more.item_ids.length ≤ next.item_ids.length then more :: rest
        else rest.takeWhile (·.item_ids.length ≤ more.item_ids.length) ++ more ::
          rest.dropWhile (·.item_ids.length ≤ more.item_ids.length)
    else r :: give_item item p rest

/-- Whether an item can be requested from a peer in this round. -/
def can_fetch (s : NodeState O) (item : ItemId) (r : PeerAndItems) : Bool :=
  r.item_ids.length < GRAPHENE_NET_MAX_ITEMS_PER_PEER_DURING_NORMAL_OPERATION ∧
    Listed (s.peers r.peer).inventory_peer_advertised_to_us item ∧
    ¬ (item.item_type = trx_message_type ∧ (s.peers r.peer).transaction_fetching_inhibited_until > s.now)

/-- The loop of `fetch_items_loop` over the items. -/
def assign_items (oldest_timestamp_to_fetch : Nat) : List PrioritizedItemId → NodeState O → List PeerAndItems →
    NodeState O × List PeerAndItems
  | [], s, items_by_peer => (s,items_by_peer)
  | i :: rest, s, items_by_peer =>
    let erased : NodeState O := { s with _items_to_fetch := s._items_to_fetch.filter (·.item ≠ i.item) }
    if i.timestamp < oldest_timestamp_to_fetch then assign_items oldest_timestamp_to_fetch rest erased items_by_peer
    else match items_by_peer.find? (can_fetch s i.item) with
      | none => assign_items oldest_timestamp_to_fetch rest s items_by_peer
      | some r => assign_items oldest_timestamp_to_fetch rest
          (erased.modify_peer r.peer fun peer => { peer with
            items_requested_from_peer := peer.items_requested_from_peer.insert i.item })
          (give_item i.item r.peer items_by_peer)

/-- The items of each type, the lowest type first. -/
def by_type (items : List ItemId) : List (Nat × List BlockId) :=
  ((items.map (·.item_type)).dedup.insertionSort (· ≤ ·)).map fun t =>
    (t,(items.filter (·.item_type = t)).map (·.item_hash))

/-- One round of `fetch_items_loop`. -/
def fetch_items (s : NodeState O) : NodeState O :=
  let oldest_timestamp_to_fetch :=
    s.now - s._recent_block_interval_in_seconds * GRAPHENE_NET_MESSAGE_CACHE_DURATION_IN_BLOCKS * 10 ^ 6
  let idle := (s._active_connections.filter fun p => (s.peers p).idle).dedup
  let (assigned,items_by_peer) := assign_items oldest_timestamp_to_fetch s._items_to_fetch s (idle.map fun p => ⟨p,[]⟩)
  items_by_peer.foldl (fun s r => (by_type r.item_ids).foldl (fun s g => s.send_message r.peer (.fetch_items g.1 g.2)) s)
    assigned

/-- The items that a peer has not yet heard of, from us or the other way. -/
def items_to_advertise (peer : PeerConnection) (inventory_to_advertise : List ItemId) : List ItemId :=
  inventory_to_advertise.filter fun item =>
    ¬ Listed peer.inventory_advertised_to_peer item ∧ ¬ Listed peer.inventory_peer_advertised_to_us item

/-- One peer's part in `advertise_inventory_loop`: the messages come later. -/
def advertise_to (inventory_to_advertise : List ItemId) (p : Nat) (s : NodeState O) : NodeState O × List (Nat × Message O) :=
  let peer := s.peers p
  if peer.peer_needs_sync_items_from_us then (s.modify_peer p (·.clear_old_inventory s.now),[])
  else
    let items := items_to_advertise peer inventory_to_advertise
    (s.modify_peer p fun peer => { peer with
        inventory_advertised_to_peer :=
          items.foldl (fun all item => insert_item item s.now all) peer.inventory_advertised_to_peer }.clear_old_inventory s.now,
      (by_type items).map fun g => (p,.item_ids_inventory g.1 g.2))

/-- The loop of `advertise_inventory_loop` over the peers. -/
def advertise_to_all (inventory_to_advertise : List ItemId) : List Nat → NodeState O → List (Nat × Message O) →
    NodeState O × List (Nat × Message O)
  | [], s, messages => (s,messages)
  | p :: rest, s, messages =>
    let (s,more) := advertise_to inventory_to_advertise p s
    advertise_to_all inventory_to_advertise rest s (messages ++ more)

/-- One round of `advertise_inventory_loop`. -/
def advertise_inventory (s : NodeState O) : NodeState O :=
  let (advertised,inventory_messages_to_send) :=
    advertise_to_all s._new_inventory s._active_connections.dedup { s with _new_inventory := [] } []
  inventory_messages_to_send.foldl (fun s m => s.send_message m.1 m.2) advertised

/-- A peer has begun its list with the block: it is with the client from now on. -/
def pop_front (h : BlockId) (s : NodeState O) (p : Nat) : NodeState O :=
  if (s.peers p).ids_of_items_to_get.head? = some h then
    s.modify_peer p fun peer => { peer with
      ids_of_items_to_get := peer.ids_of_items_to_get.tail
      ids_of_items_being_processed := peer.ids_of_items_being_processed.insert h }
  else s

/-- Whether a block is the next on the list of a peer. -/
def potential_first_block (s : NodeState O) (b : BlockMessage O) : Bool :=
  s._active_connections.any fun p => (s.peers p).ids_of_items_to_get.head? = some b.block_id

def suspend_if_full (s : NodeState O) : NodeState O :=
  if s.calls_in_progress ≥ _maximum_number_of_blocks_to_handle_at_one_time ∧
      s._received_sync_items.length ≥ _maximum_number_of_sync_blocks_to_prefetch then
    { s with _suspend_fetching_sync_blocks := true }
  else s

/-- The rounds of `process_backlog_of_sync_blocks`, of which each but the last takes a block from the backlog. -/
def process_received : Nat → NodeState O → NodeState O
  | 0, s => s
  | rounds + 1, s =>
    match s._received_sync_items.find? (potential_first_block s) with
    | none => suspend_if_full s
    | some b =>
      let popped := s._active_connections.foldl (pop_front b.block_id) s
      if b.block_id ∈ s._most_recent_blocks_accepted then suspend_if_full popped
      else
        let scheduled : NodeState O := { popped with
          _received_sync_items := s._received_sync_items.eraseP (potential_first_block s)
          scheduled_calls := s.scheduled_calls ++ [b]
          unfinished_calls := s.unfinished_calls + 1
          calls_in_progress := s.calls_in_progress + 1 }
        if scheduled.calls_in_progress ≥ _maximum_number_of_blocks_to_handle_at_one_time then suspend_if_full scheduled
        else process_received rounds scheduled

def process_backlog_of_sync_blocks (s : NodeState O) : NodeState O :=
  let collected : NodeState O := { s with calls_in_progress := s.unfinished_calls }
  if collected.calls_in_progress ≥ _maximum_number_of_blocks_to_handle_at_one_time then collected
  else
    let received := s._new_received_sync_items.reverse ++ s._received_sync_items
    process_received (received.length + 1) { collected with
      _suspend_fetching_sync_blocks := false
      _received_sync_items := received
      _new_received_sync_items := [] }

/-! ### Items -/

section
variable (E : Env O)

def broadcast (item_to_broadcast : Item O) (s : NodeState O) : NodeState O :=
  let s := match item_to_broadcast with
    | .block b => s.accept_block b.block_id
    | _ => s
  let hash_of_item_to_broadcast := E.message_id item_to_broadcast
  { s with
    _message_cache := s._message_cache.cache_message item_to_broadcast hash_of_item_to_broadcast
    _new_inventory := s._new_inventory.insert ⟨item_to_broadcast.msg_type,hash_of_item_to_broadcast⟩ }

end

/-- The loop of `on_item_ids_inventory_message`. -/
def hear_of_items (p item_type : Nat) : List BlockId → NodeState O → NodeState O
  | [], s => s
  | item_hash :: rest, s =>
    let advertised_item_id : ItemId := ⟨item_type,item_hash⟩
    -- we have what we have advertised
    if s._active_connections.any fun q => Listed (s.peers q).inventory_advertised_to_peer advertised_item_id then
      hear_of_items p item_type rest s
    else if (item_type = trx_message_type ∧ (s.peers p).is_inventory_advertised_to_us_list_full_for_transactions) ∨
        (s.peers p).is_inventory_advertised_to_us_list_full then s
    else
      let heard := s.modify_peer p fun peer => { peer with
        inventory_peer_advertised_to_us := insert_item advertised_item_id s.now peer.inventory_peer_advertised_to_us }
      if (s._active_connections.any fun q => advertised_item_id ∈ (s.peers q).items_requested_from_peer) ∨
          Listed s._recently_failed_items advertised_item_id then hear_of_items p item_type rest heard
      else if s._items_to_fetch.any (·.item = advertised_item_id) then
        hear_of_items p item_type rest { heard with
          _items_to_fetch := s._items_to_fetch.map fun i =>
            if i.item = advertised_item_id then { i with timestamp := s.now } else i }
      else hear_of_items p item_type rest (heard.fetch_item_later advertised_item_id)

def on_item_ids_inventory_message (p item_type : Nat) (item_hashes_available : List BlockId) (s : NodeState O) :
    NodeState O :=
  hear_of_items p item_type item_hashes_available (s.modify_peer p (·.clear_old_inventory s.now))

end NodeState

/-! ### Ends of connections -/

/-- `disconnect_from_peer` -/
def disconnect_from_peer (p : Nat) (reason_for_disconnect : String) (caused_by_error : Bool) : Code O Unit := do
  change (·.move_peer_to_closing_list p)
  let s ← state
  (if (s.peers p).they_have_requested_close then pure ()
    else do
      change (·.modify_peer p fun peer => { peer with we_have_requested_close := true })
      change (·.send_message p (.closing_connection reason_for_disconnect caused_by_error)))
  (if caused_by_error then Delegate.error_encountered else pure ())

/-- The sync items that a peer was asked for can be requested from others. -/
def NodeState.free_sync_requests (p : Nat) (s : NodeState O) : NodeState O :=
  { s.modify_peer p fun peer => { peer with read_loop := .ended } with
    _active_sync_requests := s._active_sync_requests.filter fun h =>
      ¬ ∃ item ∈ (s.peers p).sync_items_requested_from_peer, item.item_hash = h }

/-- The end of `on_connection_closed`: what was requested is to be fetched from other peers. -/
def NodeState.reschedule (p : Nat) (s : NodeState O) : NodeState O :=
  let freed := (s.peers p).items_requested_from_peer.foldl (fun s item =>
    if s.is_item_in_any_peers_inventory item then s.fetch_item_later item else s) (s.free_sync_requests p)
  { freed with _peers_to_delete := freed._peers_to_delete ++ [p] }

/-- `on_connection_closed` -/
def on_connection_closed (p : Nat) : Code O Unit := do
  change fun s => { s.modify_peer p fun peer => { peer with read_loop := .closing } with
    _closing_connections := s._closing_connections.filter (· ≠ p)
    _handshaking_connections := s._handshaking_connections.filter (· ≠ p)
    _terminating_connections := s._terminating_connections.filter (· ≠ p)
    _active_connections := s._active_connections.filter (· ≠ p) }
  let s ← state
  (if s._active_connections.length ≠ s._last_reported_number_of_connections then do
      change fun s => { s with _last_reported_number_of_connections := s._active_connections.length }
      Delegate.connection_count_changed s._active_connections.length
    else pure ())
  change (·.reschedule p)

/-- `on_closing_connection_message` -/
def on_closing_connection_message (p : Nat) (closing_due_to_error : Bool) : Code O Unit := do
  change (·.modify_peer p fun peer => { peer with they_have_requested_close := true })
  (if closing_due_to_error then Delegate.error_encountered else pure ())

/-! ### Synchronization -/

/-- The loop of `create_blockchain_synopsis_for_peer` over the ids that the peer has listed. An index outside of
    them is undefined, and so is a loop that does not end as the numbers start again at 0. -/
def add_listed (original_ids_of_items_to_get : List BlockId) (first_block_num_in_ids_to_get true_high_block_num : Nat) :
    (rounds low_block_num : Nat) → (synopsis : List BlockId) → Except Exc (List BlockId)
  | 0, _, _ => .error (.undefined "endless loop")
  | rounds + 1, low_block_num, synopsis =>
    let next := plus low_block_num (plus (minus true_high_block_num low_block_num) 2 / 2)
    let further (synopsis : List BlockId) : Except Exc (List BlockId) :=
      if next ≤ true_high_block_num then
        add_listed original_ids_of_items_to_get first_block_num_in_ids_to_get true_high_block_num rounds next synopsis
      else .ok synopsis
    if low_block_num ≥ first_block_num_in_ids_to_get then
      match original_ids_of_items_to_get[low_block_num - first_block_num_in_ids_to_get]? with
      | some id => further (synopsis ++ [id])
      | none => .error (.undefined "index out of range")
    else further synopsis

/-- The synopsis of the delegate, and behind it the ids that the peer has listed. -/
def complete_synopsis (original_ids_of_items_to_get synopsis : List BlockId) : Except Exc (List BlockId) :=
  match original_ids_of_items_to_get.head? with
  | none => .ok synopsis
  | some front =>
    let first_block_num_in_ids_to_get := front.num
    let true_high_block_num := minus (plus first_block_num_in_ids_to_get original_ids_of_items_to_get.length) 1
    let low_block_num := match synopsis.head? with
      | none => 1
      | some id => id.num
    add_listed original_ids_of_items_to_get first_block_num_in_ids_to_get true_high_block_num
      (true_high_block_num + 1 - low_block_num + 1) low_block_num synopsis

/-- `create_blockchain_synopsis_for_peer` -/
def create_blockchain_synopsis_for_peer (p : Nat) : Code O (List BlockId) := do
  let s ← state
  let original_ids_of_items_to_get := (s.peers p).ids_of_items_to_get
  let synopsis ← Delegate.get_blockchain_synopsis (s.peers p).last_block_delegate_has_seen
    (original_ids_of_items_to_get.length % 2 ^ 32)
  match complete_synopsis original_ids_of_items_to_get synopsis with
  | .ok blockchain_synopsis => pure blockchain_synopsis
  | .error e => throw e

/-- `fetch_next_batch_of_item_ids_from_peer`, which no code calls to reset the data of the peer. -/
def fetch_next_batch_of_item_ids_from_peer (p : Nat) : Code O Unit := do
  let requested ← tryCatch (some <$> create_blockchain_synopsis_for_peer p) fun e =>
    if e = .block_older_than_undo_history then pure none else throw e
  match requested with
  | some blockchain_synopsis => do
    change (·.modify_peer p fun peer => { peer with item_ids_requested_from_peer := some blockchain_synopsis })
    let s ← state
    change (·.send_message p (.fetch_blockchain_item_ids s._sync_item_type blockchain_synopsis))
  | none => disconnect_from_peer p "You are on a fork I'm unable to switch to" false

/-- `start_synchronizing_with_peer` -/
def start_synchronizing_with_peer (p : Nat) : Code O Unit := do
  change (·.modify_peer p fun peer => { peer with
    ids_of_items_to_get := []
    number_of_unfetched_item_ids := 0
    we_need_sync_items_from_peer := true
    last_block_delegate_has_seen := .zero })
  let time ← Delegate.get_block_time .zero
  change (·.modify_peer p fun peer => { peer with
    last_block_time_delegate_has_seen := time
    inhibit_fetching_sync_blocks := false })
  fetch_next_batch_of_item_ids_from_peer p

/-- `new_peer_just_added` -/
def new_peer_just_added (p : Nat) : Code O Unit := do
  change (·.send_message p .current_time_request)
  start_synchronizing_with_peer p
  let s ← state
  (if s._active_connections.length ≠ s._last_reported_number_of_connections then do
      change fun s => { s with _last_reported_number_of_connections := s._active_connections.length }
      Delegate.connection_count_changed s._active_connections.length
    else pure ())

/-- `get_block_ids` of the delegate, with an empty answer for a peer on another fork. -/
def ids_for_peer (blockchain_synopsis : List BlockId) : Code O (List BlockId × Nat) :=
  tryCatch (Delegate.get_block_ids blockchain_synopsis) fun e =>
    if e = .peer_is_on_an_unreachable_fork then pure ([],0) else throw e

/-- Whether the answer tells a peer that it has all of our items. -/
def has_all_items (blockchain_synopsis item_hashes_available : List BlockId) : Bool :=
  match item_hashes_available with
  | [] => true
  | [id] => id ∈ blockchain_synopsis
  | _ => false

/-- `on_fetch_blockchain_item_ids_message` -/
def on_fetch_blockchain_item_ids_message (p item_type : Nat) (blockchain_synopsis : List BlockId) : Code O Unit := do
  let (item_hashes_available,total_remaining_item_count) ← ids_for_peer blockchain_synopsis
  let s ← state
  let in_sync := has_all_items blockchain_synopsis item_hashes_available
  let disconnect_from_inhibited_peer :=
    in_sync ∧ item_hashes_available ≠ [] ∧ (s.peers p).inhibit_fetching_sync_blocks
  change (·.modify_peer p fun peer => { peer with peer_needs_sync_items_from_us := !in_sync })
  -- whether or not the peer needs items, we may need some of its
  (match blockchain_synopsis.getLast? with
    | some peers_last_item_hash_seen =>
      if (s.peers p).we_need_sync_items_from_peer then pure ()
      else do
        let known ← Delegate.has_item ⟨item_type,peers_last_item_hash_seen⟩
        if known then pure () else start_synchronizing_with_peer p
    | none => pure ())
  change (·.send_message p (.blockchain_item_ids_inventory total_remaining_item_count item_type item_hashes_available))
  if disconnect_from_inhibited_peer then
    disconnect_from_peer p "you are on a fork that I'm unable to switch to" false
  else do
    let s ← state
    if (s.peers p).direction = .inbound ∧ p ∈ s._handshaking_connections then do
      change (·.move_peer_to_active_list p)
      new_peer_just_added p
    else pure ()

/-- Whether the numbers of the ids follow each other, with 32 bits. -/
def is_sequential (item_hashes_available : List BlockId) : Bool :=
  match item_hashes_available with
  | [] => true
  | front :: _ => item_hashes_available.zipIdx.all fun (id,i) => i = 0 ∨ id.num = plus front.num i

/-- Whether a list of ids answers a request. -/
def is_valid_response (synopsis_sent_in_request item_hashes_available : List BlockId) : Bool :=
  match item_hashes_available with
  | [] => true
  | first_item_hash :: _ =>
    is_sequential item_hashes_available ∧
      (if synopsis_sent_in_request = [] then first_item_hash.num = 1 else first_item_hash ∈ synopsis_sent_in_request)

/-- Drops the items that the delegate has, at the start of the list. -/
def pop_known (p item_type : Nat) : List BlockId → Code O (List BlockId)
  | [] => pure []
  | id :: rest => do
    let known ← Delegate.has_item ⟨item_type,id⟩
    if known then do
      change (·.modify_peer p fun peer => { peer with last_block_delegate_has_seen := id })
      let time ← Delegate.get_block_time id
      change (·.modify_peer p fun peer => { peer with last_block_time_delegate_has_seen := time })
      pop_known p item_type rest
    else pure (id :: rest)

/-- What remains of a list as its end is popped until the id is last, if it gets there. -/
def pop_back_to (id : BlockId) (ids : List BlockId) : List BlockId :=
  (ids.reverse.dropWhile (· ≠ id)).reverse

/-- What of a list is new to us. -/
def new_item_hashes (p item_type : Nat) (item_hashes_received : List BlockId) : Code O (List BlockId) := do
  let s ← state
  match item_hashes_received with
  | [] => pure []
  | front :: rest =>
    if (s.peers p).ids_of_items_to_get = [] then
      if s._active_connections.any fun q => q ≠ p ∧ (s.peers q).ids_of_items_to_get.head? = some front then
        pure (front :: rest)
      else pop_known p item_type (front :: rest)
    else do
      change (·.modify_peer p fun peer => { peer with ids_of_items_to_get := pop_back_to front peer.ids_of_items_to_get })
      let s ← state
      if (s.peers p).ids_of_items_to_get = [] then do
        -- the peer has switched forks
        change (·.modify_peer p fun peer => { peer with last_block_delegate_has_seen := front })
        let time ← Delegate.get_block_time front
        change (·.modify_peer p fun peer => { peer with last_block_time_delegate_has_seen := time })
        pure rest
      else do
        change (·.modify_peer p fun peer => { peer with ids_of_items_to_get := peer.ids_of_items_to_get.dropLast })
        pure (front :: rest)

/-- The end of `on_blockchain_item_ids_inventory_message`: the list is complete, or more is asked for. -/
def continue_synchronizing (p item_type total_remaining_item_count : Nat) : Code O Unit := do
  let s ← state
  let minimum_time_of_last_offered_block :=
    plus (s.peers p).last_block_time_delegate_has_seen
      ((s.peers p).number_of_unfetched_item_ids * GRAPHENE_MIN_BLOCK_INTERVAL)
  if minimum_time_of_last_offered_block > plus (seconds s.now) GRAPHENE_NET_FUTURE_SYNC_BLOCKS_GRACE_PERIOD_SEC then
    disconnect_from_peer p "You offered me a list of more sync blocks than could possibly exist" true
  else do
    let new_number_of_unfetched_items := s.calculate_unsynced_block_count_from_all_peers
    (if new_number_of_unfetched_items ≠ s._total_number_of_unfetched_items then
        Delegate.sync_status item_type new_number_of_unfetched_items
      else pure ())
    change fun s => { s with _total_number_of_unfetched_items := new_number_of_unfetched_items }
    let s ← state
    if total_remaining_item_count ≠ 0 then
      if (s.peers p).ids_of_items_to_get.length > GRAPHENE_NET_MIN_BLOCK_IDS_TO_PREFETCH then pure ()
      else fetch_next_batch_of_item_ids_from_peer p
    else if (s.peers p).ids_of_items_to_get ≠ [] then pure ()
    else fetch_next_batch_of_item_ids_from_peer p

/-- `on_blockchain_item_ids_inventory_message` -/
def on_blockchain_item_ids_inventory_message (p total_remaining_item_count item_type : Nat)
    (item_hashes_available : List BlockId) : Code O Unit := do
  let s ← state
  match (s.peers p).item_ids_requested_from_peer with
  | none => pure ()
  | some synopsis_sent_in_request =>
    if is_valid_response synopsis_sent_in_request item_hashes_available then do
      change (·.modify_peer p fun peer => { peer with item_ids_requested_from_peer := none })
      -- the node asks its delegate about an item only where the rest of the condition needs it
      let nothing_new ← (match total_remaining_item_count,item_hashes_available with
        | 0,[] => pure true
        | 0,[id] => Delegate.has_item ⟨item_type,id⟩
        | _,_ => pure false)
      let s ← state
      if nothing_new ∧ (s.peers p).ids_of_items_to_get = [] ∧ (s.peers p).number_of_unfetched_item_ids = 0 then do
        change (·.modify_peer p fun peer => { peer with we_need_sync_items_from_peer := false })
        let s ← state
        let new_number_of_unfetched_items := s.calculate_unsynced_block_count_from_all_peers
        change fun s => { s with _total_number_of_unfetched_items := new_number_of_unfetched_items }
        if new_number_of_unfetched_items = 0 then Delegate.sync_status item_type 0 else pure ()
      else do
        change (·.modify_peer p fun peer => { peer with number_of_unfetched_item_ids := total_remaining_item_count })
        let item_hashes_received ← new_item_hashes p item_type item_hashes_available
        change (·.modify_peer p fun peer => { peer with
          ids_of_items_to_get := peer.ids_of_items_to_get ++ item_hashes_received
          number_of_unfetched_item_ids := total_remaining_item_count })
        continue_synchronizing p item_type total_remaining_item_count
    else disconnect_from_peer p "You gave an invalid response to my request for sync blocks" true

/-! ### Blocks -/

/-- Whether a peer, at a block with a hard fork, runs a client that cannot go on from there. -/
def NodeState.is_outdated (block_number p : Nat) (s : NodeState O) : Bool :=
  let next_fork_block_number := s.get_next_known_hard_fork_block_number (s.peers p).last_known_fork_block_number
  s.is_hard_fork_block block_number ∧ (s.peers p).last_known_fork_block_number ≠ 0 ∧
    next_fork_block_number ≠ 0 ∧ next_fork_block_number ≤ block_number

def upgrade_reason (block_number : Nat) : String :=
  "You need to upgrade your client due to hard fork at block " ++ toString block_number

/-- What the client makes of a block in the course of synchronization. -/
inductive Verdict
  | accepted
  | discontinue_fetching_blocks_from_peer
  | rejected
deriving DecidableEq, Repr

/-- The call for a block begins. -/
def NodeState.begin_call (b : BlockMessage O) (s : NodeState O) : NodeState O :=
  { s.note (.handled (.block b)) with
    scheduled_calls := s.scheduled_calls.eraseP fun c => c.block_id = b.block_id }

/-- The client has processed the block that a peer had listed. -/
def NodeState.finish_item (b : BlockMessage O) (s : NodeState O) (p : Nat) : NodeState O :=
  s.modify_peer p fun peer => { peer with
    last_block_delegate_has_seen := b.block_id
    last_block_time_delegate_has_seen := b.block.timestamp
    ids_of_items_being_processed := peer.ids_of_items_being_processed.filter (· ≠ b.block_id) }

/-- What `send_sync_block_to_node_delegate` does once the client has accepted the block. -/
def after_accepted (b : BlockMessage O) : Code O Unit := do
  change fun s => { s with _total_number_of_unfetched_items := minus s._total_number_of_unfetched_items 1 }
  let s ← state
  let (peers_to_disconnect,others) := s._active_connections.partition (s.is_outdated b.block.block_num)
  let (without_items,with_items) := others.partition fun p =>
    (s.peers p).ids_of_items_to_get = [] ∧ (s.peers p).ids_of_items_being_processed = []
  let peers_we_need_to_sync_to := without_items.filter fun p =>
    !(s.peers p).peer_needs_sync_items_from_us ∧ !(s.peers p).we_need_sync_items_from_peer
  let processing := with_items.filter fun p => b.block_id ∈ (s.peers p).ids_of_items_being_processed
  change fun s => processing.foldl (·.finish_item b) s
  let s ← state
  let peers_with_newly_empty_item_lists := processing.filter fun p =>
    (s.peers p).ids_of_items_to_get = [] ∧ (s.peers p).number_of_unfetched_item_ids = 0 ∧
      (s.peers p).ids_of_items_being_processed = []
  each (fun p => disconnect_from_peer p (upgrade_reason b.block.block_num) true) peers_to_disconnect
  each fetch_next_batch_of_item_ids_from_peer peers_with_newly_empty_item_lists
  each start_synchronizing_with_peer peers_we_need_to_sync_to

/-- `send_sync_block_to_node_delegate` -/
def send_sync_block_to_node_delegate (b : BlockMessage O) : Code O Unit := do
  change (·.begin_call b)
  let verdict ← tryCatch (do
      let _ ← Delegate.handle_block b true
      change (·.accept_block b.block_id)
      pure Verdict.accepted) fun e => match e with
    | .block_older_than_undo_history => pure .discontinue_fetching_blocks_from_peer
    | .canceled_exception => throw .canceled_exception
    | _ => pure .rejected
  let s ← state
  let offering := s._active_connections.filter fun p => b.block_id ∈ (s.peers p).ids_of_items_being_processed
  match verdict with
  | .accepted => after_accepted b
  | .discontinue_fetching_blocks_from_peer =>
    each (fun p => change (·.modify_peer p fun peer => { peer with inhibit_fetching_sync_blocks := true })) offering
  | .rejected => each (fun p => disconnect_from_peer p "You offered us a block that we reject as invalid" true) offering

/-- A task of `_handle_message_calls_in_progress`. -/
def handle_message_call (b : BlockMessage O) : Code O Unit := do
  tryCatch (send_sync_block_to_node_delegate b) fun _ => pure ()
  change fun s => { s with unfinished_calls := s.unfinished_calls - 1 }

section
variable (E : Env O)

/-- What a peer that offered a block in normal operation has seen. -/
def NodeState.note_offer (b : BlockMessage O) (s : NodeState O) (p : Nat) : NodeState O :=
  s.modify_peer p fun peer => if Listed peer.inventory_peer_advertised_to_us ⟨block_message_type,E.message_id (.block b)⟩
    then { peer with
      last_block_delegate_has_seen := b.block_id
      last_block_time_delegate_has_seen := b.block.timestamp }.clear_old_inventory s.now
    else peer.clear_old_inventory s.now

/-- What follows a block of normal operation: peers to disconnect, and whether to start again. -/
inductive Outcome
  | disconnect (peers : List Nat) (reason : String)
  | restart_sync

/-- The part of `process_block_during_normal_operation` that catches exceptions. -/
def push_block (p : Nat) (b : BlockMessage O) : Code O Outcome :=
  tryCatch (do
    let s ← state
    (if b.block_id ∈ s._most_recent_blocks_accepted then pure ()
      else do
        change (·.note (.handled (.block b)))
        let contained_transaction_message_ids ← Delegate.handle_block b false
        change (·.accept_block b.block_id)
        change fun s => { s with
          _items_to_fetch := s._items_to_fetch.filter fun i =>
            ¬ (i.item.item_type = trx_message_type ∧ i.item.item_hash ∈ contained_transaction_message_ids) })
    change fun s => s._active_connections.foldl (·.note_offer E b) s
    change (·.broadcast E (.block b))
    change fun s => { s with _message_cache := s._message_cache.block_accepted }
    let s ← state
    pure (.disconnect (s._active_connections.filter (s.is_outdated b.block.block_num)) (upgrade_reason b.block.block_num)))
  fun e => match e with
    | .canceled_exception => throw .canceled_exception
    | .unlinkable_block_exception => pure .restart_sync
    | _ => do
      let s ← state
      pure (.disconnect ((s._active_connections.filter fun q =>
        (s.peers q).ids_of_items_to_get.head? = some b.block_id).insert p)
        "You offered me a block that I have deemed to be invalid")

/-- `process_block_during_normal_operation` -/
def process_block_during_normal_operation (p : Nat) (b : BlockMessage O) : Code O Unit := do
  let outcome ← push_block E p b
  match outcome with
  | .restart_sync => start_synchronizing_with_peer p
  | .disconnect peers_to_disconnect disconnect_reason =>
    each (fun p => disconnect_from_peer p disconnect_reason true) peers_to_disconnect

/-- A requested item has come. -/
def NodeState.take_item (p : Nat) (item : ItemId) (s : NodeState O) : NodeState O :=
  s.modify_peer p fun peer => { peer with items_requested_from_peer := peer.items_requested_from_peer.filter (· ≠ item) }

/-- A requested sync item has come; `process_block_during_sync` puts it to the others. -/
def NodeState.take_sync_item (p : Nat) (b : BlockMessage O) (s : NodeState O) : NodeState O :=
  { s.modify_peer p fun peer => { peer with
      sync_items_requested_from_peer :=
        peer.sync_items_requested_from_peer.filter (· ≠ ⟨block_message_type,b.block_id⟩) } with
    _active_sync_requests := s._active_sync_requests.filter (· ≠ b.block_id)
    _new_received_sync_items := b :: s._new_received_sync_items }

/-- `process_block_message` -/
def process_block_message (p : Nat) (b : BlockMessage O) : Code O Unit := do
  let s ← state
  let item : ItemId := ⟨block_message_type,E.message_id (.block b)⟩
  if item ∈ (s.peers p).items_requested_from_peer then do
    change (·.take_item p item)
    process_block_during_normal_operation E p b
  else if ⟨block_message_type,b.block_id⟩ ∈ (s.peers p).sync_items_requested_from_peer then do
    change (·.take_sync_item p b)
    let s ← state
    if (s.peers p).idle ∧ (s.peers p).number_of_unfetched_item_ids > 0 ∧
        (s.peers p).ids_of_items_to_get.length < GRAPHENE_NET_MIN_BLOCK_IDS_TO_PREFETCH then
      fetch_next_batch_of_item_ids_from_peer p
    else pure ()
  else disconnect_from_peer p "You sent me a block that I didn't ask for" true

/-! ### Other items -/

/-- The client's part in `process_ordinary_message`: whether it takes the message. -/
def pass_to_client (m : Item O) (item : ItemId) : Code O Bool := do
  change (·.note (.handled m))
  tryCatch (do
      (match m with
        | .trx trx => Delegate.handle_transaction trx
        | _ => Delegate.handle_message m)
      pure true) fun e =>
    if e = .canceled_exception then throw .canceled_exception
    else do
      change fun s => { s with _recently_failed_items := insert_item item s.now s._recently_failed_items }
      pure false

/-- `process_ordinary_message` -/
def process_ordinary_message (p : Nat) (m : Item O) : Code O Unit := do
  let s ← state
  let item : ItemId := ⟨m.msg_type,E.message_id m⟩
  if item ∈ (s.peers p).items_requested_from_peer then do
    change (·.take_item p item)
    let validated ← pass_to_client m item
    if validated then change (·.broadcast E m) else pure ()
  else disconnect_from_peer p "You sent me a message that I didn't request" true

end

def missing_item_reason : String :=
  "You are missing a sync item you claim to have, your database is probably corrupted. Try --rebuild-index."

/-- `on_item_not_available_message` -/
def on_item_not_available_message (p : Nat) (requested_item : ItemId) : Code O Unit := do
  let s ← state
  if requested_item ∈ (s.peers p).items_requested_from_peer then
    change fun s =>
      let s := s.modify_peer p fun peer => { peer with
        items_requested_from_peer := peer.items_requested_from_peer.filter (· ≠ requested_item)
        inventory_peer_advertised_to_us := peer.inventory_peer_advertised_to_us.filter (·.item ≠ requested_item) }
      if s.is_item_in_any_peers_inventory requested_item then s.fetch_item_later requested_item else s
  else if requested_item ∈ (s.peers p).sync_items_requested_from_peer then do
    change (·.modify_peer p fun peer => { peer with
      sync_items_requested_from_peer := peer.sync_items_requested_from_peer.filter (· ≠ requested_item) })
    if (s.peers p).peer_needs_sync_items_from_us then
      change (·.modify_peer p fun peer => { peer with inhibit_fetching_sync_blocks := true })
    else disconnect_from_peer p missing_item_reason true
  else pure ()

/-- A reply: the item, or that it is not available. -/
inductive Reply (O : Type)
  | found (i : Item O)
  | not_available (requested_item : ItemId)

/-- The loop of `on_fetch_items_message`: the replies, and the last item that was found. -/
def collect_replies (item_type : Nat) : List BlockId → List (Reply O) → Option (Item O) →
    Code O (List (Reply O) × Option (Item O))
  | [], reply_messages, last_message_sent => pure (reply_messages,last_message_sent)
  | item_hash :: rest, reply_messages, last_message_sent => do
    let s ← state
    match s._message_cache.get_message_ptr item_hash with
    | some i => collect_replies item_type rest (reply_messages ++ [.found i]) (some i)
    | none => do
      let found ← tryCatch (some <$> Delegate.get_item ⟨item_type,item_hash⟩) fun e =>
        if e = .key_not_found_exception then pure none else throw e
      match found with
      | some i => collect_replies item_type rest (reply_messages ++ [.found i]) (some i)
      | none => collect_replies item_type rest (reply_messages ++ [.not_available ⟨item_type,item_hash⟩]) last_message_sent

/-- A block is looked up again once it is its turn in the queue. -/
def NodeState.send_reply (p : Nat) (s : NodeState O) (reply : Reply O) : NodeState O :=
  match reply with
  | .found (.block b) => s.send_item p ⟨block_message_type,b.block_id⟩
  | .found i => s.send_message p (.item i)
  | .not_available requested_item => s.send_message p (.item_not_available requested_item)

/-- `on_fetch_items_message` -/
def on_fetch_items_message (p item_type : Nat) (items_to_fetch : List BlockId) : Code O Unit := do
  let (reply_messages,last_message_sent) ← collect_replies item_type items_to_fetch [] none
  (match last_message_sent with
    | some i =>
      if item_type = block_message_type then
        match i with
        | .block b => do
          change (·.modify_peer p fun peer => { peer with last_block_delegate_has_seen := b.block_id })
          let time ← Delegate.get_block_time b.block_id
          change (·.modify_peer p fun peer => { peer with last_block_time_delegate_has_seen := time })
        -- the message is of another type
        | _ => throw .exception
      else pure ()
    | none => pure ())
  change fun s => reply_messages.foldl (·.send_reply p) s

/-! ### Handshakes -/

section
variable (E : Env O)

/-- The message of `send_hello_message`. -/
def NodeState.hello (p : Nat) (s : NodeState O) : HelloMessage where
  node_public_key := E.public_key s._node_private_key
  signed_shared_secret := E.sign_compact s._node_private_key (s.peers p).shared_secret
  chain_id := s._chain_id
  node_id := some s._node_id
  last_known_fork_block_number := s._hard_fork_block_numbers.getLast?

/-- `send_hello_message`; the head block is in the message, but nobody looks at it. -/
def send_hello_message (p : Nat) : Code O Unit := do
  let head_block_id ← Delegate.get_head_block_id
  let _ ← Delegate.get_block_time head_block_id
  let s ← state
  change (·.send_message p (.hello (s.hello E p)))

/-- The peer is told that it is rejected. -/
def NodeState.reject (p : Nat) (reason_code : RejectionReasonCode) (reason_string : String) (s : NodeState O) : NodeState O :=
  (s.modify_peer p fun peer => { peer with their_state := .connection_rejected }).send_message p
    (.connection_rejected reason_code reason_string)

/-- What a `hello_message` says of the peer. -/
def PeerConnection.parse_hello (hello : HelloMessage) (peer : PeerConnection) : PeerConnection :=
  { peer with
    node_id := hello.node_id.getD hello.node_public_key
    last_known_fork_block_number := hello.last_known_fork_block_number.getD peer.last_known_fork_block_number }

/-- A peer that is on our chain is accepted, or rejected for now. -/
def NodeState.accept_or_reject (p : Nat) (already_connected_to_this_peer : Bool) (s : NodeState O) : NodeState O :=
  if already_connected_to_this_peer then
    if s._node_id = (s.peers p).node_id then s.reject p .connected_to_self "I'm connecting to myself"
    else s.reject p .already_connected "I'm already connected to you"
  else if s.is_accepting_new_connections then
    (s.modify_peer p fun peer => { peer with their_state := .connection_accepted }).send_message p .connection_accepted
  else s.reject p .not_accepting_connections "not accepting any more incoming connections"

/-- `on_hello_message` -/
def on_hello_message (p : Nat) (hello : HelloMessage) : Code O Unit := do
  let s ← state
  let already_connected_to_this_peer := s.is_already_connected_to_id (hello.node_id.getD hello.node_public_key)
  match E.recover hello.signed_shared_secret (s.peers p).shared_secret with
  | none => throw .exception
  | some expected_node_public_key =>
    change (·.modify_peer p (·.parse_hello hello))
    let s ← state
    if (s.peers p).their_state ≠ .just_connected then
      disconnect_from_peer p "Received a unexpected hello_message" false
    else if hello.node_public_key ≠ expected_node_public_key then do
      change (·.reject p .invalid_hello_message "Invalid signature in hello message")
      disconnect_from_peer p "Invalid signature in hello message" false
    else if hello.chain_id ≠ s._chain_id then do
      change (·.reject p .different_chain ("You're on a different chain than I am.  I'm on " ++ s._chain_id ++
        " and you're on " ++ hello.chain_id))
      disconnect_from_peer p "You are on a different chain from me" false
    else
      let next_fork_block_number := s.get_next_known_hard_fork_block_number (s.peers p).last_known_fork_block_number
      let head_block_num ← (if (s.peers p).last_known_fork_block_number ≠ 0 ∧ next_fork_block_number ≠ 0 then do
          let id ← Delegate.get_head_block_id
          pure id.num
        else pure 0)
      if next_fork_block_number < head_block_num then do
        change (·.reject p .unspecified ("Your client is outdated -- you can only understand blocks up to #" ++
          toString next_fork_block_number ++ ", but I'm already on block #" ++ toString head_block_num))
        disconnect_from_peer p "Your client is too old, please upgrade" false
      else change (·.accept_or_reject p already_connected_to_this_peer)

end

/-- `on_connection_accepted_message` -/
def NodeState.on_connection_accepted_message (p : Nat) (s : NodeState O) : NodeState O :=
  (s.modify_peer p fun peer => { peer with our_state := .connection_accepted }).send_message p .address_request

/-- `on_connection_rejected_message` -/
def on_connection_rejected_message (p : Nat) (reason_code : RejectionReasonCode) : Code O Unit := do
  let s ← state
  if (s.peers p).our_state = .just_connected then do
    (if reason_code = .connected_to_self then change (·.move_peer_to_closing_list p) else pure ())
    change (·.modify_peer p fun peer => { peer with our_state := .connection_rejected })
    change (·.send_message p .address_request)
  else throw .exception

/-- `on_address_message`, where the handshake goes on. -/
def on_address_message (p : Nat) : Code O Unit := do
  let s ← state
  if p ∈ s._handshaking_connections then
    if (s.peers p).our_state = .connection_rejected then
      disconnect_from_peer p "You rejected my connection request (hello message) so I'm disconnecting" false
    else if (s.peers p).their_state = .connection_rejected then
      disconnect_from_peer p "I rejected your connection request (hello message) so I'm disconnecting" false
    else do
      change (·.move_peer_to_active_list p)
      new_peer_just_added p
  else pure ()

/-! ### Messages -/

def core_message_type_first : Nat := 5000
def core_message_type_last : Nat := 5099

/-- `on_message` -/
def on_message (E : Env O) (p : Nat) (m : Message O) : Code O Unit :=
  match m with
  | .hello hello => on_hello_message E p hello
  | .connection_accepted => change (·.on_connection_accepted_message p)
  | .connection_rejected reason_code _ => on_connection_rejected_message p reason_code
  | .address_request => change (·.send_message p .address)
  | .address => on_address_message p
  | .fetch_blockchain_item_ids item_type blockchain_synopsis =>
    on_fetch_blockchain_item_ids_message p item_type blockchain_synopsis
  | .blockchain_item_ids_inventory total_remaining_item_count item_type item_hashes_available =>
    on_blockchain_item_ids_inventory_message p total_remaining_item_count item_type item_hashes_available
  | .fetch_items item_type items_to_fetch => on_fetch_items_message p item_type items_to_fetch
  | .item_not_available requested_item => on_item_not_available_message p requested_item
  | .item_ids_inventory item_type item_hashes_available =>
    change (·.on_item_ids_inventory_message p item_type item_hashes_available)
  | .closing_connection _ closing_due_to_error => on_closing_connection_message p closing_due_to_error
  | .item (.block b) => process_block_message E p b
  | .item i =>
    if core_message_type_first ≤ i.msg_type ∧ i.msg_type ≤ core_message_type_last then pure ()
    else process_ordinary_message E p i
  | .current_time_request => change (·.send_message p .current_time_reply)
  | .current_time_reply => pure ()

end Decent.Net

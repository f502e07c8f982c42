import Decent.Lib.Tasks
import Decent.Protocol

/-!
The node of the peer-to-peer network: what it knows of each peer, and what it does with the
messages of its peers and by itself. Where the source calls the delegate, and so may let other
tasks run, the model waits.
-/
namespace Decent.Net
open Decent.Protocol
open Tasks Task

variable {O : Type}

/-! ### Messages -/

/-- `item_id`. The hash of a block, or of a message. -/
structure ItemId where
  item_type : Nat
  item_hash : BlockId
deriving DecidableEq, Repr

def trx_message_type : Nat := 1000
def block_message_type : Nat := 1001

structure BlockMessage (O : Type) where
  block : Block O
  block_id : BlockId

/-- What nodes pass on to each other, and to their clients. -/
inductive Item (O : Type)
  | trx (trx : Transaction O)
  | block (b : BlockMessage O)
  /-- A message of another type, which the client may know. -/
  | ordinary (msg_type content : Nat)

/-- `rejection_reason_code` -/
inductive RejectionReasonCode
  | unspecified
  | different_chain
  | already_connected
  | connected_to_self
  | not_accepting_connections
  | blocked
  | invalid_hello_message
  | client_too_old
deriving DecidableEq, Repr

/-- Of a `hello_message`, and of its user data, what decides on the connection. -/
structure HelloMessage where
  node_public_key : Nat
  signed_shared_secret : Nat
  chain_id : String
  node_id : Option Nat
  last_known_fork_block_number : Option Nat
deriving DecidableEq, Repr

inductive Message (O : Type)
  | item (i : Item O)
  | item_ids_inventory (item_type : Nat) (item_hashes_available : List BlockId)
  | blockchain_item_ids_inventory (total_remaining_item_count item_type : Nat) (item_hashes_available : List BlockId)
  | fetch_blockchain_item_ids (item_type : Nat) (blockchain_synopsis : List BlockId)
  | fetch_items (item_type : Nat) (items_to_fetch : List BlockId)
  | item_not_available (requested_item : ItemId)
  | hello (hello : HelloMessage)
  | connection_accepted
  | connection_rejected (reason_code : RejectionReasonCode) (reason_string : String)
  | address_request
  | address
  | closing_connection (reason_for_closing : String) (closing_due_to_error : Bool)
  | current_time_request
  | current_time_reply

/-- `message_header::msg_type` of the messages that are items. -/
def Item.msg_type : Item O → Nat
  | .trx _ => trx_message_type
  | .block _ => block_message_type
  | .ordinary msg_type _ => msg_type

/-! ### Peers -/

inductive Direction
  | unknown
  | inbound
  | outbound
deriving DecidableEq, Repr

/-- `our_connection_state` and `their_connection_state`. -/
inductive ConnectionState
  | disconnected
  | just_connected
  | connection_accepted
  | connection_rejected
deriving DecidableEq, Repr

/-- How far the `read_loop` of a connection has got. -/
inductive ReadLoop
  | not_started
  | running
  | closing
  | canceled
  /-- `on_connection_closed` has got to its end. -/
  | ended
deriving DecidableEq, Repr

structure TimestampedItemId where
  item : ItemId
  /-- In seconds. -/
  timestamp : Nat
deriving DecidableEq, Repr

/-- `peer_connection`. The times of requests are left out: the model does not say which peers
    are taken to have ignored one. -/
structure PeerConnection where
  direction : Direction := .unknown
  our_state : ConnectionState := .disconnected
  their_state : ConnectionState := .disconnected
  they_have_requested_close : Bool := false
  we_have_requested_close : Bool := false
  read_loop : ReadLoop := .not_started
  shared_secret : Nat := 0
  node_id : Nat := 0
  last_known_fork_block_number : Nat := 0
  ids_of_items_to_get : List BlockId := []
  ids_of_items_being_processed : List BlockId := []
  number_of_unfetched_item_ids : Nat := 0
  peer_needs_sync_items_from_us : Bool := true
  we_need_sync_items_from_peer : Bool := true
  item_ids_requested_from_peer : Option (List BlockId) := none
  sync_items_requested_from_peer : List ItemId := []
  last_block_delegate_has_seen : BlockId := .zero
  last_block_time_delegate_has_seen : Nat := 0
  inhibit_fetching_sync_blocks : Bool := false
  inventory_peer_advertised_to_us : List TimestampedItemId := []
  inventory_advertised_to_peer : List TimestampedItemId := []
  items_requested_from_peer : List ItemId := []
  transaction_fetching_inhibited_until : Nat := 0
deriving DecidableEq, Repr

/-- Whether what was requested from the peer is to be requested from others. -/
def PeerConnection.rescheduled (peer : PeerConnection) : Bool := peer.read_loop = .ended

/-- `peer_connection::busy` -/
def PeerConnection.busy (peer : PeerConnection) : Bool :=
  !peer.items_requested_from_peer.isEmpty || !peer.sync_items_requested_from_peer.isEmpty ||
    peer.item_ids_requested_from_peer.isSome

/-- `peer_connection::idle` -/
def PeerConnection.idle (peer : PeerConnection) : Bool := !peer.busy

def GRAPHENE_NET_MAX_INVENTORY_SIZE_IN_MINUTES : Nat := 2
def GRAPHENE_NET_MAX_TRX_PER_SECOND : Nat := 2000
def GRAPHENE_MIN_BLOCK_INTERVAL : Nat := 1

/-- `fc::time_point_sec` of a time in microseconds. -/
def seconds (now : Nat) : Nat := now / 10 ^ 6

/-- Whether a set holds the item. -/
def Listed (items : List TimestampedItemId) (item : ItemId) : Prop := ∃ t ∈ items, t.item = item

instance (items : List TimestampedItemId) (item : ItemId) : Decidable (Listed items item) :=
  inferInstanceAs (Decidable (∃ t ∈ items, t.item = item))

/-- `insert` of a set of `timestamped_item_id`, which has an item once. -/
def insert_item (item : ItemId) (now : Nat) (items : List TimestampedItemId) : List TimestampedItemId :=
  if Listed items item then items else items ++ [⟨item,seconds now⟩]

/-- `peer_connection::clear_old_inventory` -/
def PeerConnection.clear_old_inventory (now : Nat) (peer : PeerConnection) : PeerConnection :=
  let oldest_inventory_to_keep := seconds (now - GRAPHENE_NET_MAX_INVENTORY_SIZE_IN_MINUTES * 60 * 10 ^ 6)
  { peer with
    inventory_advertised_to_peer :=
      peer.inventory_advertised_to_peer.filter fun t => ¬ t.timestamp < oldest_inventory_to_keep
    inventory_peer_advertised_to_us :=
      peer.inventory_peer_advertised_to_us.filter fun t => ¬ t.timestamp < oldest_inventory_to_keep }

/-- `peer_connection::is_inventory_advertised_to_us_list_full_for_transactions` -/
def PeerConnection.is_inventory_advertised_to_us_list_full_for_transactions (peer : PeerConnection) : Bool :=
  peer.inventory_peer_advertised_to_us.length >
    GRAPHENE_NET_MAX_INVENTORY_SIZE_IN_MINUTES * GRAPHENE_NET_MAX_TRX_PER_SECOND * 60

/-- `peer_connection::is_inventory_advertised_to_us_list_full` -/
def PeerConnection.is_inventory_advertised_to_us_list_full (peer : PeerConnection) : Bool :=
  peer.inventory_peer_advertised_to_us.length >
    GRAPHENE_NET_MAX_INVENTORY_SIZE_IN_MINUTES * GRAPHENE_NET_MAX_TRX_PER_SECOND * 60 +
      (GRAPHENE_NET_MAX_INVENTORY_SIZE_IN_MINUTES + 1) * 60 / GRAPHENE_MIN_BLOCK_INTERVAL

/-! ### The message cache -/

def GRAPHENE_NET_MESSAGE_CACHE_DURATION_IN_BLOCKS : Nat := 5

/-- `message_info`, without the data about the propagation of messages. -/
structure MessageInfo (O : Type) where
  message_hash : BlockId
  message_body : Item O
  block_clock_when_received : Nat

/-- `blockchain_tied_message_cache` -/
structure MessageCache (O : Type) where
  _message_cache : List (MessageInfo O) := []
  block_clock : Nat := 0

/-- `blockchain_tied_message_cache::block_accepted` -/
def MessageCache.block_accepted (cache : MessageCache O) : MessageCache O :=
  let block_clock := (cache.block_clock + 1) % 2 ^ 32
  if block_clock > GRAPHENE_NET_MESSAGE_CACHE_DURATION_IN_BLOCKS then
    { block_clock
      _message_cache := cache._message_cache.filter fun info =>
        ¬ info.block_clock_when_received < block_clock - GRAPHENE_NET_MESSAGE_CACHE_DURATION_IN_BLOCKS }
  else { cache with block_clock }

/-- `blockchain_tied_message_cache::cache_message`: a hash that is there already stays as it is. -/
def MessageCache.cache_message (message_to_cache : Item O) (hash_of_message_to_cache : BlockId)
    (cache : MessageCache O) : MessageCache O :=
  if ∃ info ∈ cache._message_cache, info.message_hash = hash_of_message_to_cache then cache
  else { cache with
    _message_cache := cache._message_cache ++ [⟨hash_of_message_to_cache,message_to_cache,cache.block_clock⟩] }

/-- `blockchain_tied_message_cache::get_message_ptr` -/
def MessageCache.get_message_ptr (hash_of_message_to_lookup : BlockId) (cache : MessageCache O) : Option (Item O) :=
  (cache._message_cache.find? fun info => info.message_hash = hash_of_message_to_lookup).map (·.message_body)

/-! ### The node -/

/-- `prioritized_item_id` -/
structure PrioritizedItemId where
  item : ItemId
  sequence_number : Nat
  /-- In microseconds. -/
  timestamp : Nat
deriving DecidableEq, Repr

/-- `queued_message`: a message, or an item that is looked up once it is its turn. -/
inductive QueuedMessage (O : Type)
  | real_queued_message (message_to_send : Message O)
  | virtual_queued_message (item_to_send : ItemId)

/-- What the node has done with messages: it got one from a peer, it put one into the queue of a
    peer, or it gave one to its delegate. -/
inductive Event (O : Type)
  | received (peer : Nat) (m : Message O)
  | queued (peer now : Nat) (m : QueuedMessage O)
  | handled (i : Item O)

/-- `node_impl`. Peers have numbers; the lists of connections are in the order of their hashes,
    which says nothing. `log` is an account of the messages, newest first; no code reads it. -/
structure NodeState (O : Type) where
  peers : Nat → PeerConnection := fun _ => {}
  number_of_peers : Nat := 0
  _handshaking_connections : List Nat := []
  _active_connections : List Nat := []
  _closing_connections : List Nat := []
  _terminating_connections : List Nat := []
  _peers_to_delete : List Nat := []
  _active_sync_requests : List BlockId := []
  _new_received_sync_items : List (BlockMessage O) := []
  _received_sync_items : List (BlockMessage O) := []
  _suspend_fetching_sync_blocks : Bool := false
  _items_to_fetch : List PrioritizedItemId := []
  _items_to_fetch_sequence_counter : Nat := 0
  _recently_failed_items : List TimestampedItemId := []
  _new_inventory : List ItemId := []
  _most_recent_blocks_accepted : List BlockId := []
  _sync_item_type : Nat := block_message_type
  _total_number_of_unfetched_items : Nat := 0
  _hard_fork_block_numbers : List Nat := []
  _message_cache : MessageCache O := {}
  _last_reported_number_of_connections : Nat := 0
  _recent_block_interval_in_seconds : Nat := 30
  _chain_id : String := ""
  _node_id : Nat := 0
  _node_private_key : Nat := 0
  /-- `_handle_message_calls_in_progress`: those that have not begun, how many have not ended, and how
      many there are. -/
  scheduled_calls : List (BlockMessage O) := []
  unfinished_calls : Nat := 0
  calls_in_progress : Nat := 0
  /-- In microseconds. -/
  now : Nat := 0
  log : List (Event O) := []

def _maximum_number_of_connections : Nat := 200
def _maximum_number_of_blocks_to_handle_at_one_time : Nat := 200
def _maximum_number_of_sync_blocks_to_prefetch : Nat := 2000
def _maximum_blocks_per_peer_during_syncing : Nat := 200
def GRAPHENE_NET_MAX_ITEMS_PER_PEER_DURING_NORMAL_OPERATION : Nat := 1000
def GRAPHENE_NET_MIN_BLOCK_IDS_TO_PREFETCH : Nat := 10000
def GRAPHENE_NET_FUTURE_SYNC_BLOCKS_GRACE_PERIOD_SEC : Nat := 60 * 60

/-- What the node asks its delegate, where other tasks may run until the answer is there. -/
inductive Question (O : Type)
  | has_item (id : ItemId)
  | get_block_time (block_id : BlockId)
  | get_blockchain_synopsis (reference_point : BlockId) (number_of_blocks_after_reference_point : Nat)
  | get_block_ids (blockchain_synopsis : List BlockId)
  | get_item (id : ItemId)
  | get_head_block_id
  | handle_block (b : BlockMessage O) (sync_mode : Bool)
  | handle_transaction (trx : Transaction O)
  | handle_message (m : Item O)
  | sync_status (item_type item_count : Nat)
  | connection_count_changed (c : Nat)
  | error_encountered

/-- The answers. -/
def Answer : Question O → Type
  | .has_item _ => Bool
  | .get_block_time _ => Nat
  | .get_blockchain_synopsis .. => List BlockId
  | .get_block_ids _ => List BlockId × Nat
  | .get_item _ => Item O
  | .get_head_block_id => BlockId
  | .handle_block .. => List BlockId
  | .handle_transaction _ => Unit
  | .handle_message _ => Unit
  | .sync_status .. => Unit
  | .connection_count_changed _ => Unit
  | .error_encountered => Unit

inductive Exc
  | canceled_exception
  | block_older_than_undo_history
  | peer_is_on_an_unreachable_fork
  | unlinkable_block_exception
  | key_not_found_exception
  /-- Any other exception. -/
  | exception
  /-- Behaviour that is undefined. -/
  | undefined (what : String)
deriving DecidableEq, Repr

/-- What the node takes from elsewhere: the hash of a message, and signatures. -/
structure Env (O : Type) where
  message_id : Item O → BlockId
  public_key : Nat → Nat
  sign_compact : Nat → Nat → Nat
  /-- The key that made a signature, if there is one. -/
  recover : Nat → Nat → Option Nat

/-- Code of the node. -/
abbrev Code (O α : Type) := Task (NodeState O) (Answer (O := O)) Exc α

/-! ### The delegate -/

namespace Delegate

def has_item (id : ItemId) : Code O Bool := ask (Question.has_item id)

def get_block_time (block_id : BlockId) : Code O Nat := ask (Question.get_block_time block_id)

def get_blockchain_synopsis (reference_point : BlockId) (number_of_blocks_after_reference_point : Nat) :
    Code O (List BlockId) := ask (Question.get_blockchain_synopsis reference_point number_of_blocks_after_reference_point)

/-- The ids, and how many more there are. -/
def get_block_ids (blockchain_synopsis : List BlockId) : Code O (List BlockId × Nat) :=
  ask (Question.get_block_ids blockchain_synopsis)

def get_item (id : ItemId) : Code O (Item O) := ask (Question.get_item id)

def get_head_block_id : Code O BlockId := ask Question.get_head_block_id

/-- The ids of the transactions in the block. -/
def handle_block (b : BlockMessage O) (sync_mode : Bool) : Code O (List BlockId) := ask (Question.handle_block b sync_mode)

def handle_transaction (trx : Transaction O) : Code O Unit := ask (Question.handle_transaction trx)

def handle_message (m : Item O) : Code O Unit := ask (Question.handle_message m)

def sync_status (item_type item_count : Nat) : Code O Unit := ask (Question.sync_status item_type item_count)

def connection_count_changed (c : Nat) : Code O Unit := ask (Question.connection_count_changed c)

def error_encountered : Code O Unit := ask Question.error_encountered

end Delegate
end Decent.Net

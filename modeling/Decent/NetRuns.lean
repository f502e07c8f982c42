import Decent.NetHandlers

/-!
Runs of the node: which tasks there are, when one starts, and all that a task can do to what the
node and its peers owe each other. The peers, the client and the order of the tasks are arbitrary.
-/
namespace Decent.Net
open Decent.Protocol
open Decent.Sync (plus minus)
open Tasks Task Relation

variable {O : Type}

/-! ### Tasks -/

/-- `read_loop` of a peer, or any other task. -/
inductive Fiber
  | reader (p : Nat)
  | task (n : Nat)
deriving DecidableEq

namespace NodeState

/-- `accept_loop` and `initiate_connect_to`: a peer whose connection is not yet secure. -/
def add_peer (direction : Direction) (s : NodeState O) : NodeState O :=
  { s.modify_peer s.number_of_peers fun peer => { peer with direction } with
    number_of_peers := s.number_of_peers + 1
    _handshaking_connections := s._handshaking_connections.insert s.number_of_peers }

/-- `connect_to_task`, when it does not get a connection. -/
def connect_failed (p : Nat) (s : NodeState O) : NodeState O :=
  { s with
    _handshaking_connections := s._handshaking_connections.filter (· ≠ p)
    _terminating_connections := s._terminating_connections.filter (· ≠ p)
    _active_connections := s._active_connections.filter (· ≠ p)
    _closing_connections := s._closing_connections.filter (· ≠ p)
    _peers_to_delete := s._peers_to_delete ++ [p] }

/-- `delayed_peer_deletion_task`: with the peer, its `read_loop` is canceled. -/
def delete_peers (s : NodeState O) : NodeState O :=
  { s._peers_to_delete.foldl (fun s p => s.modify_peer p fun peer =>
      if peer.read_loop = .running then { peer with read_loop := .canceled } else peer) s with
    _peers_to_delete := [] }

/-- `fetch_updated_peer_lists_loop` -/
def fetch_updated_peer_lists (s : NodeState O) : NodeState O :=
  let oldest_failed_ids_to_keep := seconds (s.now - 15 * 60 * 10 ^ 6)
  { s._active_connections.foldl (fun s p => s.send_message p .address_request) s with
    _recently_failed_items := s._recently_failed_items.filter fun t => ¬ t.timestamp < oldest_failed_ids_to_keep }

/-- `sync_from` -/
def sync_from (current_head_block : ItemId) (hard_fork_block_numbers : List Nat) (s : NodeState O) : NodeState O :=
  { s with
    _most_recent_blocks_accepted := [current_head_block.item_hash]
    _sync_item_type := current_head_block.item_type
    _hard_fork_block_numbers := hard_fork_block_numbers }

end NodeState

section
variable (E : Env O)

/-- `accept_connection_task` and `connect_to_task`, once the connection is secure. -/
def connected (p shared_secret : Nat) : Code O Unit := do
  change (·.modify_peer p fun peer => { peer with
    their_state := .just_connected
    our_state := .just_connected
    read_loop := .running
    shared_secret })
  send_hello_message E p

/-- `read_loop` with one message: where an exception ends the loop, the connection is closed. -/
def read_message (p : Nat) (m : Message O) : Code O Unit := do
  change (·.note (.received p m))
  tryCatch (on_message E p m) fun e =>
    if e = .canceled_exception then change (·.modify_peer p fun peer => { peer with read_loop := .canceled })
    else on_connection_closed p

/-- `terminate_inactive_connections_loop`, with the peers that it has sorted out. -/
def terminate_inactive_connections (gently forcibly keep_alive terminate : List Nat) : Code O Unit := do
  change fun s => terminate.foldl (fun s p => { s with
    _terminating_connections := s._terminating_connections.filter (· ≠ p)
    _peers_to_delete := s._peers_to_delete ++ [p] }) s
  change fun s => forcibly.foldl (fun s p => s.move_peer_to_terminating_list p) s
  each (fun p => disconnect_from_peer p "Disconnecting due to inactivity" false) gently
  change fun s => keep_alive.foldl (fun s p => s.send_message p .current_time_request) s

/-- What starts, and when. -/
inductive Starts : Fiber → Code O Unit → NodeState O → Prop
  | message {s : NodeState O} {p : Nat} (running : (s.peers p).read_loop = .running) (m : Message O) :
      Starts (.reader p) (read_message E p m) s
  | hangup {s : NodeState O} {p : Nat} (running : (s.peers p).read_loop = .running) :
      Starts (.reader p) (on_connection_closed p) s
  | delete (s : NodeState O) (n : Nat) : Starts (.task n) (change (·.delete_peers)) s
  | new_peer (s : NodeState O) (n : Nat) (direction : Direction) : Starts (.task n) (change (·.add_peer direction)) s
  | connected {s : NodeState O} {p : Nat} (new : (s.peers p).read_loop = .not_started)
      (there : p ∈ s._handshaking_connections) (n shared_secret : Nat) :
      Starts (.task n) (connected E p shared_secret) s
  | connect_failed {s : NodeState O} {p : Nat} (new : (s.peers p).read_loop = .not_started) (n : Nat) :
      Starts (.task n) (change (·.connect_failed p)) s
  | fetch_sync_items (s : NodeState O) (n : Nat) : Starts (.task n) (change (·.fetch_sync_items)) s
  | fetch_items (s : NodeState O) (n : Nat) : Starts (.task n) (change (·.fetch_items)) s
  | advertise_inventory (s : NodeState O) (n : Nat) : Starts (.task n) (change (·.advertise_inventory)) s
  | process_backlog (s : NodeState O) (n : Nat) : Starts (.task n) (change (·.process_backlog_of_sync_blocks)) s
  | handle_call {s : NodeState O} {b : BlockMessage O} (scheduled : b ∈ s.scheduled_calls) (n : Nat) :
      Starts (.task n) (handle_message_call b) s
  | terminate {s : NodeState O} {gently forcibly keep_alive terminate : List Nat} (n : Nat)
      (inactive : ∀ p ∈ gently, p ∈ s._active_connections) (terminating : ∀ p ∈ terminate, p ∈ s._terminating_connections) :
      Starts (.task n) (terminate_inactive_connections gently forcibly keep_alive terminate) s
  | fetch_updated_peer_lists (s : NodeState O) (n : Nat) : Starts (.task n) (change (·.fetch_updated_peer_lists)) s
  | broadcast (s : NodeState O) (n : Nat) (i : Item O) : Starts (.task n) (change (·.broadcast E i)) s
  | sync_from (s : NodeState O) (n : Nat) (current_head_block : ItemId) (hard_fork_block_numbers : List Nat) :
      Starts (.task n) (change (·.sync_from current_head_block hard_fork_block_numbers)) s
  | disconnect {s : NodeState O} {p : Nat} (active : p ∈ s._active_connections) (n : Nat) :
      Starts (.task n) (disconnect_from_peer p "I have too many connections open" false) s
  /-- Time goes on. -/
  | tick {s : NodeState O} {now : Nat} (later : s.now ≤ now) (n : Nat) : Starts (.task n) (change ({ · with now })) s
  /-- Another order of the connections. -/
  | rehash {s : NodeState O} {handshaking active closing terminating : List Nat}
      (orders : handshaking.Perm s._handshaking_connections ∧ active.Perm s._active_connections ∧
        closing.Perm s._closing_connections ∧ terminating.Perm s._terminating_connections) (n : Nat) :
      Starts (.task n) (change ({ · with
        _handshaking_connections := handshaking
        _active_connections := active
        _closing_connections := closing
        _terminating_connections := terminating })) s

/-- Runs of the node, from where it has no peers. -/
abbrev Runs : Pool (NodeState O) (Answer (O := O)) Exc Fiber → Pool (NodeState O) (Answer (O := O)) Exc Fiber → Prop :=
  Pool.Runs (Starts E)

end
end Decent.Net

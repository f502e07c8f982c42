import Decent.NetLoops

/-!
What holds in every run of the node, whatever its peers send, whatever its client answers and in
whatever order the tasks get on.
-/
namespace Decent.Net
open Decent.Protocol
open Tasks Task Relation

variable {O : Type} {E : Env O}

/-! ### All tasks -/

section
variable {i : Fiber}

/-- Code that may start with what it knows. -/
theorem Sound.starts {K : NodeState O → Prop} {t : Code O Unit} (sound : Sound E i K t) {s : NodeState O} (known : K s) :
    Safe (Inv E) (Rely i) (Change E i) (fun _ _ => True) (fun _ _ => True) t s :=
  (sound.safe s known).mono (fun _ _ _ => trivial) fun _ _ _ => trivial

theorem mild_delete_peers (s : NodeState O) : ReflTransGen (Mild E i) s s.delete_peers := by
  unfold NodeState.delete_peers
  have canceled := mild_foldl (E := E) (i := i) (f := fun s p => s.modify_peer p fun peer =>
      if peer.read_loop = .running then { peer with read_loop := .canceled } else peer) (fun s p => by
    refine .single (mild_modify ?_)
    split
    · rename_i running
      exact { PeerConnection.Less.refl s.now (s.peers p) with rescheduled := by simp [PeerConnection.rescheduled,running] }
    · exact .refl _ _) s._peers_to_delete s
  exact canceled.tail (mild_aside ⟨.of_eq rfl rfl rfl rfl rfl rfl,rfl⟩)

theorem mild_add_peer (direction : Direction) (s : NodeState O) : ReflTransGen (Mild E i) s (s.add_peer direction) := by
  have directed : Mild E i s (s.modify_peer s.number_of_peers fun peer => { peer with direction }) :=
    mild_modify { PeerConnection.Less.refl s.now (s.peers s.number_of_peers) with }
  unfold NodeState.add_peer
  exact .tail (.single directed) (mild_aside ⟨.of_eq rfl rfl rfl rfl rfl rfl,rfl⟩)

theorem mild_send_all (m : Message O) (plain : ∀ p now, (Event.queued p now (.real_queued_message m)).Plain) (which : List Nat)
    (s : NodeState O) : ReflTransGen (Mild E i) s (which.foldl (fun s p => s.send_message p m) s) :=
  mild_foldl (fun s p => .single ⟨.note _ (plain p s.now),fun _ => rfl⟩) which s

/-- The reader of a new connection starts. -/
theorem safe_connected {s : NodeState O} {p : Nat} (new : (s.peers p).read_loop = .not_started) (shared_secret : Nat) :
    Safe (Inv E) (Rely i) (Change E i) (fun _ _ => True) (fun _ _ => True) (connected E p shared_secret) s := by
  refine safe_change fun _ => ⟨.single (mild_modify (E := E) (i := i) ?_).1,?_⟩
  · exact { PeerConnection.Less.refl s.now (s.peers p) with rescheduled := by simp [PeerConnection.rescheduled,new] }
  · exact Sound.starts (K := fun _ => True) (sound_send_hello p) trivial

instance sound_terminate_inactive (gently forcibly keep_alive terminate : List Nat) :
    Sound E i (fun _ => True) (terminate_inactive_connections (O := O) gently forcibly keep_alive terminate) := by
  have ended : Sound E i (fun _ => True) (change fun s : NodeState O => terminate.foldl (fun s p => { s with
      _terminating_connections := s._terminating_connections.filter (· ≠ p)
      _peers_to_delete := s._peers_to_delete ++ [p] }) s) := by
    refine sound_change fun s _ _ => mild_foldl (fun s p => ?_) terminate s
    exact .single (mild_aside ⟨.of_eq rfl rfl rfl rfl rfl rfl,rfl⟩)
  have forced : Sound E i (fun _ => True) (change fun s : NodeState O =>
      forcibly.foldl (fun s p => s.move_peer_to_terminating_list p) s) := by
    refine sound_change fun s _ _ => mild_foldl (fun s p => ?_) forcibly s
    exact .single (mild_aside ⟨.of_eq rfl rfl rfl rfl rfl rfl,rfl⟩)
  have kept : Sound E i (fun _ => True) (change fun s : NodeState O =>
      keep_alive.foldl (fun s p => s.send_message p .current_time_request) s) :=
    sound_change fun s _ _ => mild_send_all .current_time_request (fun _ _ => trivial) keep_alive s
  unfold terminate_inactive_connections
  infer_instance

end

/-- All that starts is safe, and no task does what another does not expect. -/
theorem compatible : Compatible (Starts E) Rely (Change E) (Inv E) where
  refl := Rely.refl
  trans := Rely.trans
  apart other _ change := change.relied other
  keeps := Change.keeps
  safe {i t s} holds start := by
    have at_once {f : NodeState O → NodeState O} (changes : ReflTransGen (Change E i) s (f s)) :
        Safe (Inv E) (Rely i) (Change E i) (fun _ _ => True) (fun _ _ => True) (change f : Code O Unit) s :=
      fun _ => ⟨changes,trivial⟩
    have mild {f : NodeState O → NodeState O} (changes : ReflTransGen (Mild E i) s (f s)) :=
      at_once (f := f) (changes.lift id fun _ _ mild => mild.1)
    have aside {f : NodeState O → NodeState O} (aside : s.Aside (f s) ∧ (f s).peers = s.peers) :=
      mild (f := f) (.single (mild_aside aside))
    cases start with
    | message running m => exact safe_read_message running
    | @hangup _ p running =>
      have known : Known p [] s := ⟨by simp [PeerConnection.rescheduled,running],by simp⟩
      exact safe_connection_closed known
    | delete => exact mild (mild_delete_peers s)
    | new_peer _ _ direction => exact mild (mild_add_peer direction s)
    | connected new there _ shared_secret => exact safe_connected new shared_secret
    | connect_failed => exact aside ⟨.of_eq rfl rfl rfl rfl rfl rfl,rfl⟩
    | fetch_sync_items => exact at_once (changes_fetch_sync_items s)
    | fetch_items => exact at_once (changes_fetch_items s)
    | advertise_inventory => exact at_once (changes_advertise_inventory s)
    | process_backlog => exact mild (mild_process_backlog s)
    | @handle_call _ b scheduled =>
      exact Sound.starts (sound_handle_call (K := fun _ => True) b)
        ⟨trivial,holds.in_hand b (List.mem_append_right _ scheduled)⟩
    | terminate => exact Sound.starts (sound_terminate_inactive _ _ _ _) trivial
    | fetch_updated_peer_lists =>
      exact mild ((mild_send_all .address_request (fun _ _ => trivial) s._active_connections s).tail
        (mild_aside ⟨.of_eq rfl rfl rfl rfl rfl rfl,rfl⟩))
    | broadcast _ _ i => exact aside (aside_broadcast s i)
    | sync_from => exact aside ⟨.of_eq rfl rfl rfl rfl rfl rfl,rfl⟩
    | disconnect => exact Sound.starts (K := fun _ => True) (sound_disconnect _ _ _) trivial
    | tick later => exact at_once (.single (.tick later))
    | rehash => exact aside ⟨.of_eq rfl rfl rfl rfl rfl rfl,rfl⟩

/-- A node that has just started: no peers, no requests and no messages. -/
structure NodeState.Starting (s : NodeState O) : Prop where
  peers : s.peers = fun _ => {}
  requests : s._active_sync_requests = []
  in_hand : s.in_hand = []
  log : s.log = []

theorem NodeState.Starting.inv {s : NodeState O} (starting : s.Starting) : Inv E s where
  owed p := by
    rw [starting.peers]
    exact ⟨by simp,by simp,.nil,by simp,by simp,by simp,by simp⟩
  exclusive p q item member := by simp [starting.peers] at member
  in_hand b member := by simp [starting.in_hand] at member
  advertised p now item_type hashes queued := by simp [starting.log] at queued
  justified := by simp [starting.log,Justified]

/-- A state that a node gets to. -/
def Reachable (E : Env O) (s : NodeState O) : Prop := ∃ s₀ : NodeState O, s₀.Starting ∧ ∃ pool, Runs E (.idle s₀) pool ∧ pool.state = s

theorem Reachable.inv {s : NodeState O} (reachable : Reachable E s) : Inv E s := by
  obtain ⟨s₀,starting,pool,runs,rfl⟩ := reachable
  exact (compatible.runs (Pool.good_idle starting.inv) runs).1.holds

/-! ### A short run -/

/-- Hashes are types of messages, and no signature is good. -/
def Env.plain : Env Unit where
  message_id i := ⟨i.msg_type,0⟩
  public_key := id
  sign_compact _ _ := 0
  recover _ _ := none

/-- A client without a chain. -/
def no_chain : ∀ q : Question Unit, Except Exc (Answer q)
  | .has_item _ => .ok false
  | .get_block_time _ => .ok (0 : Nat)
  | .get_blockchain_synopsis .. => .ok ([] : List BlockId)
  | .get_block_ids _ => .ok (([],0) : List BlockId × Nat)
  | .get_item _ => .error .key_not_found_exception
  | .get_head_block_id => .ok BlockId.zero
  | .handle_block .. => .ok ([] : List BlockId)
  | .handle_transaction _ => .ok ()
  | .handle_message _ => .ok ()
  | .sync_status .. => .ok ()
  | .connection_count_changed _ => .ok ()
  | .error_encountered => .ok ()

abbrev PlainPool := Pool (NodeState Unit) (Answer (O := Unit)) Exc Fiber

/-- A new peer. -/
def with_peer : PlainPool := (Pool.idle {}).turn (.task 0) (change (·.add_peer .outbound))

theorem runs_with_peer : Runs Env.plain (.idle {}) with_peer := .tail .refl (.start rfl (.new_peer _ 0 .outbound))

/-- The node is connected to the peer. -/
def with_connection : PlainPool :=
  ((with_peer.turn (.task 0) (connected .plain 0 7)).reply no_chain (.task 0)).reply no_chain (.task 0)

theorem runs_with_connection : Runs Env.plain (.idle {}) with_connection :=
  Pool.runs_reply (Pool.runs_reply (.tail runs_with_peer (.start rfl (.connected rfl (.head _) 0 7))) no_chain _) no_chain _

/-- The peer is active. -/
def with_address : PlainPool :=
  (((with_connection.turn (.reader 0) (read_message .plain 0 .address)).reply no_chain (.reader 0)).reply no_chain
    (.reader 0)).reply no_chain (.reader 0)

theorem runs_with_address : Runs Env.plain (.idle {}) with_address :=
  Pool.runs_reply (Pool.runs_reply (Pool.runs_reply (.tail runs_with_connection (.start rfl (.message rfl .address)))
    no_chain _) no_chain _) no_chain _

/-- The peer has listed a block, and is asked for it. -/
def with_request : PlainPool :=
  let listed := with_address.turn (.reader 0)
    (read_message .plain 0 (.blockchain_item_ids_inventory 0 block_message_type [⟨1,5⟩]))
  (((listed.reply no_chain (.reader 0)).reply no_chain (.reader 0)).reply no_chain (.reader 0)).turn (.task 0)
    (change (·.fetch_sync_items))

theorem runs_with_request : Runs Env.plain (.idle {}) with_request :=
  .tail (Pool.runs_reply (Pool.runs_reply (Pool.runs_reply (.tail runs_with_address (.start rfl (.message rfl _))) no_chain _)
    no_chain _) no_chain _) (.start rfl (.fetch_sync_items _ 0))

theorem starting_node : (NodeState.Starting (O := Unit) {}) := ⟨rfl,rfl,rfl,rfl⟩

theorem reachable_with_request : Reachable Env.plain with_request.state := ⟨{},starting_node,_,runs_with_request,rfl⟩

/-! ### Requests for blocks -/

/-- No two peers with open connections are asked for the same block, and what they are asked for is
    known to be under way. -/
theorem sync_requests_exclusive {s : NodeState O} (reachable : Reachable E s) {p q : Nat} {item : ItemId}
    (atP : item ∈ (s.peers p).sync_items_requested_from_peer) (openP : (s.peers p).rescheduled = false) :
    item.item_hash ∈ s._active_sync_requests ∧
      (item ∈ (s.peers q).sync_items_requested_from_peer → (s.peers q).rescheduled = false → q = p) :=
  ⟨(reachable.inv.owed p).active openP item atP,fun atQ openQ => reachable.inv.exclusive q p item atQ atP openQ openP⟩

theorem sync_requests_exclusive_request : (⟨1,5⟩ : BlockId) ∈ with_request.state._active_sync_requests ∧
    (⟨block_message_type,⟨1,5⟩⟩ ∈ (with_request.state.peers 1).sync_items_requested_from_peer →
      (with_request.state.peers 1).rescheduled = false → 1 = 0) :=
  sync_requests_exclusive reachable_with_request (p := 0) (q := 1)
    (show ⟨block_message_type,⟨1,5⟩⟩ ∈ (with_request.state.peers 0).sync_items_requested_from_peer from .head _) rfl

/-- The blocks that are to be got from a peer follow each other, and are what the peer has listed. -/
theorem ids_to_get_sequential {s : NodeState O} (reachable : Reachable E s) (p : Nat) :
    Sequential (s.peers p).ids_of_items_to_get ∧
      ∀ h ∈ (s.peers p).ids_of_items_to_get, Announced s.log p ⟨block_message_type,h⟩ :=
  ⟨(reachable.inv.owed p).sequential,(reachable.inv.owed p).listed⟩

theorem ids_to_get_sequential_request : Sequential (with_request.state.peers 0).ids_of_items_to_get ∧
    ∀ h ∈ (with_request.state.peers 0).ids_of_items_to_get, Announced with_request.state.log 0 ⟨block_message_type,h⟩ :=
  ids_to_get_sequential reachable_with_request 0

/-- A block is under way, and no peer has been asked for it. -/
def Abandoned (h : BlockId) (s : NodeState O) : Prop :=
  h ∈ s._active_sync_requests ∧ ∀ p, (s.peers p).rescheduled = false →
    ⟨block_message_type,h⟩ ∉ (s.peers p).sync_items_requested_from_peer

/-- Nothing ever asks for such a block. -/
theorem Change.abandoned {i : Fiber} {s s' : NodeState O} {h : BlockId} (abandoned : Abandoned h s) (holds : Inv E s)
    (change : Change E i s s') : Abandoned h s' := by
  obtain ⟨active,nobody⟩ := abandoned
  cases change with
  | less aside less =>
    refine ⟨aside.requests ▸ active,fun p still member => ?_⟩
    exact nobody p ((less p).rescheduled ▸ still) ((less p).sync_items _ member)
  | note e => exact ⟨active,nobody⟩
  | hand m => exact ⟨active,nobody⟩
  | @request_sync _ _ q items few listed free =>
    refine ⟨mem_foldl_insert (f := id).mpr (.inl active),fun p still member => ?_⟩
    by_cases here : p = q
    · subst here
      have : ((s.request_sync_items_from_peer p items).peers p) = (s.peers p).insert_sync_items items :=
        NodeState.modify_peer_self s p (·.insert_sync_items items)
      rw [this] at still member
      rcases mem_foldl_insert.mp member with old | ⟨k,asked,same⟩
      · exact nobody p still old
      · obtain rfl : k = h := by simpa using same
        exact free k asked active
    · have : ((s.request_sync_items_from_peer q items).peers p) = s.peers p :=
        NodeState.modify_peer_other s (·.insert_sync_items items) here
      rw [this] at still member
      exact nobody p still member
  | request events log rest less =>
    refine ⟨rest.requests ▸ active,fun p still member => ?_⟩
    exact nobody p ((less p).rescheduled ▸ still) ((less p).sync_items _ member)
  | advertise events log rest less =>
    refine ⟨rest.requests ▸ active,fun p still member => ?_⟩
    exact nobody p ((less p).rescheduled ▸ still) ((less p).sync_items _ member)
  | hear =>
    refine ⟨active,fun p still member => ?_⟩
    rw [NodeState.modify_peer_field (·.rescheduled) rfl] at still
    rw [NodeState.modify_peer_field (·.sync_items_requested_from_peer) rfl] at member
    exact nobody p still member
  | append =>
    refine ⟨active,fun p still member => ?_⟩
    rw [NodeState.modify_peer_field (·.rescheduled) rfl] at still
    rw [NodeState.modify_peer_field (·.sync_items_requested_from_peer) rfl] at member
    exact nobody p still member
  | @take_sync_item _ q b unsettled requested =>
    have other : b.block_id ≠ h := fun same => nobody q unsettled (same ▸ requested)
    refine ⟨List.mem_filter.mpr ⟨active,decide_eq_true (Ne.symm other)⟩,fun p still member => ?_⟩
    simp only [NodeState.take_sync_item] at still member
    rw [NodeState.modify_peer_field (·.rescheduled) rfl] at still
    by_cases here : p = q
    · subst here
      rw [NodeState.modify_peer_self] at member
      exact nobody p still (List.mem_filter.mp member).1
    · rw [NodeState.modify_peer_other _ _ here] at member
      exact nobody p still member
  | @settle _ q unsettled =>
    refine ⟨List.mem_filter.mpr ⟨active,decide_eq_true ?_⟩,fun p still member => ?_⟩
    · rintro ⟨item,member,rfl⟩
      have block := (holds.owed q).blocks item member
      exact nobody q unsettled (by rw [← block]; exact member)
    · simp only [NodeState.free_sync_requests] at still member
      by_cases here : p = q
      · subst here
        rw [NodeState.modify_peer_self] at still
        simp [PeerConnection.rescheduled] at still
      · rw [NodeState.modify_peer_other _ _ here] at still member
        exact nobody p still member
  | tick => exact ⟨active,nobody⟩

theorem abandoned_made {s s' : NodeState O} {h : BlockId} (abandoned : Abandoned h s)
    (made : ReflTransGen (Made (Change E) (Inv E)) s s') : Abandoned h s' := by
  induction made with
  | refl => exact abandoned
  | tail _ step ih =>
    obtain ⟨holds,i,change⟩ := step
    exact change.abandoned ih holds

/-- The only peer that was asked for a block says that it does not have it. -/
theorem abandoned_not_available {s : NodeState O} (holds : Inv E s) {p : Nat} {h : BlockId}
    (running : (s.peers p).read_loop = .running) (other : ⟨block_message_type,h⟩ ∉ (s.peers p).items_requested_from_peer)
    (requested : ⟨block_message_type,h⟩ ∈ (s.peers p).sync_items_requested_from_peer) :
    Abandoned h ((read_message E p (.item_not_available ⟨block_message_type,h⟩)).advance s).1 := by
  set item : ItemId := ⟨block_message_type,h⟩ with isItem
  set handler : Exc → Code O Unit := fun e =>
    if e = .canceled_exception then change (·.modify_peer p fun peer => { peer with read_loop := .canceled })
    else on_connection_closed p
  set s₁ := s.note (.received p (.item_not_available item)) with received
  set s₂ := s₁.modify_peer p fun peer => { peer with
    sync_items_requested_from_peer := peer.sync_items_requested_from_peer.filter (· ≠ item) } with gone
  set rest : Code O Unit := if (s₁.peers p).peer_needs_sync_items_from_us then
      change (·.modify_peer p fun peer => { peer with inhibit_fetching_sync_blocks := true })
    else disconnect_from_peer p missing_item_reason true
  have unsettled : (s.peers p).rescheduled = false := by simp [PeerConnection.rescheduled,running]
  have forgets : Mild E (.reader p) s₁ s₂ := mild_modify { PeerConnection.Less.refl s₁.now (s₁.peers p) with
    sync_items := fun _ member => (List.mem_filter.mp member).1 }
  have holds₁ : Inv E s₁ := Change.keeps (i := .reader p) holds (.note _ trivial)
  have holds₂ : Inv E s₂ := forgets.1.keeps holds₁
  have abandoned : Abandoned h s₂ := by
    refine ⟨(holds.owed p).active unsettled item requested,fun q still member => ?_⟩
    rw [gone,NodeState.modify_peer_field (·.rescheduled) rfl] at still
    by_cases here : q = p
    · subst here
      rw [gone,NodeState.modify_peer_self] at member
      exact (of_decide_eq_true (List.mem_filter.mp member).2) rfl
    · rw [gone,NodeState.modify_peer_other _ _ here] at member
      exact here (holds.exclusive q p item member requested still unsettled)
  have first : (read_message E p (.item_not_available item)).advance s = (tryCatch rest handler).advance s₂ := by
    show (tryCatch (if item ∈ (s₁.peers p).items_requested_from_peer then (_ : Code O Unit) else
      if item ∈ (s₁.peers p).sync_items_requested_from_peer then _ else pure ()) handler).advance s₁ = _
    rw [if_neg (show item ∉ (s₁.peers p).items_requested_from_peer from other),
      if_pos (show item ∈ (s₁.peers p).sync_items_requested_from_peer from requested)]
    rfl
  have known : Known p [] s₂ := Mild.steady (K := Known p []) (.single forgets) ⟨unsettled,by simp⟩
  have inhibited : Sound E (.reader p) (Known p []) (change (·.modify_peer (O := O) p fun peer => { peer with
      inhibit_fetching_sync_blocks := true })) := sound_modify fun now peer => { PeerConnection.Less.refl now peer with }
  have sound : Sound E (.reader p) (Known p []) rest := by
    simp only [rest]
    infer_instance
  have safe : Safe (Inv E) (Rely (.reader p)) (Change E (.reader p)) (fun _ _ => True) (fun _ _ => True)
      (tryCatch rest handler) s₂ := by
    refine safe_handle.mpr ((sound.safe s₂ known).mono (fun _ _ _ => trivial) fun e s known => ?_)
    exact safe_handler known e
  have keeps : ∀ s s', Inv E s → ReflTransGen (Change E (.reader p)) s s' → Inv E s' := fun _ _ holds steps =>
    (compatible.changes holds steps).1
  obtain ⟨steps,-⟩ := safe.advance keeps holds₂
  rw [first]
  exact abandoned_made abandoned (compatible.changes holds₂ steps).2.2

/-- Once the peer that was asked for a block has said that it does not have it, the block stays under
    way, and no peer is asked for it for synchronization any more, whatever happens. -/
theorem never_requested_again {s₀ : NodeState O} (starting : s₀.Starting)
    {pool after : Pool (NodeState O) (Answer (O := O)) Exc Fiber} (runs : Runs E (.idle s₀) pool) {p : Nat} {h : BlockId}
    (free : pool.tasks (.reader p) = none) (running : (pool.state.peers p).read_loop = .running)
    (other : ⟨block_message_type,h⟩ ∉ (pool.state.peers p).items_requested_from_peer)
    (requested : ⟨block_message_type,h⟩ ∈ (pool.state.peers p).sync_items_requested_from_peer)
    (later : Runs E (pool.turn (.reader p) (read_message E p (.item_not_available ⟨block_message_type,h⟩))) after) :
    h ∈ after.state._active_sync_requests ∧ ∀ q, (after.state.peers q).rescheduled = false →
      ⟨block_message_type,h⟩ ∉ (after.state.peers q).sync_items_requested_from_peer := by
  have good := (compatible.runs (Pool.good_idle starting.inv) runs).1
  have turned := (compatible.step good (.start free (.message running (.item_not_available ⟨block_message_type,h⟩)))).1
  have abandoned := abandoned_not_available good.holds running other requested
  exact abandoned_made abandoned (compatible.runs turned later).2

theorem never_requested_again_request :
    let after := with_request.turn (.reader 0) (read_message .plain 0 (.item_not_available ⟨block_message_type,⟨1,5⟩⟩))
    ⟨1,5⟩ ∈ after.state._active_sync_requests ∧ ∀ q, (after.state.peers q).rescheduled = false →
      ⟨block_message_type,⟨1,5⟩⟩ ∉ (after.state.peers q).sync_items_requested_from_peer :=
  never_requested_again starting_node runs_with_request (p := 0) (h := ⟨1,5⟩) rfl rfl (by decide) (.head _) .refl

/-! ### The account of the messages -/

theorem Justified.append {later past : List (Event O)} (justified : Justified E (later ++ past)) : Justified E past := by
  induction later with
  | nil => exact justified
  | cons e rest ih => exact ih justified.2

/-- What the client gets was announced by a peer, then requested from the same peer, in a request for no
    more than a thousand items that it had announced, and then came from it. -/
theorem handled_in_order {s : NodeState O} (reachable : Reachable E s) {later past : List (Event O)} {i : Item O}
    (log : s.log = later ++ .handled i :: past) :
    ∃ p now item_type items_to_fetch, i.IsOf E item_type items_to_fetch ∧
      items_to_fetch.length ≤ GRAPHENE_NET_MAX_ITEMS_PER_PEER_DURING_NORMAL_OPERATION ∧
      ∀ h ∈ items_to_fetch, ∃ m, m.Lists ⟨item_type,h⟩ ∧
        [.received p (.item i),.queued p now (.real_queued_message (.fetch_items item_type items_to_fetch)),
          .received p m].Sublist past := by
  obtain ⟨delivered,before⟩ := (log ▸ reachable.inv.justified).append
  obtain ⟨p,now,item_type,items,isItem,order⟩ := delivered
  obtain ⟨front,back,rfl,came,asked⟩ := List.cons_sublist_iff.mp order
  obtain ⟨middle,past,rfl⟩ := List.mem_iff_append.mp (List.singleton_sublist.mp asked)
  rw [← List.append_assoc] at before
  obtain ⟨⟨few,announced⟩,-⟩ := before.append
  refine ⟨p,now,item_type,items,isItem,few,fun h member => ?_⟩
  obtain ⟨m,received,lists⟩ := announced h member
  refine ⟨m,lists,.append (List.singleton_sublist.mpr came) (.append (List.nil_sublist middle) ?_)⟩
  exact .cons_cons _ (List.singleton_sublist.mpr received)

/-- The peer has no blocks for us. -/
def with_nothing : PlainPool :=
  (with_address.turn (.reader 0) (read_message .plain 0 (.blockchain_item_ids_inventory 0 block_message_type []))).reply
    no_chain (.reader 0)

theorem runs_with_nothing : Runs Env.plain (.idle {}) with_nothing :=
  Pool.runs_reply (.tail runs_with_address (.start rfl (.message rfl _))) no_chain _

/-- A message of the peer is announced, requested, and given to the client. -/
def with_message : PlainPool :=
  ((with_nothing.turn (.reader 0) (read_message .plain 0 (.item_ids_inventory 1100 [⟨1100,0⟩]))).turn (.task 0)
    (change (·.fetch_items))).turn (.reader 0) (read_message .plain 0 (.item (.ordinary 1100 5)))

theorem runs_with_message : Runs Env.plain (.idle {}) with_message :=
  .tail (.tail (.tail runs_with_nothing (.start rfl (.message rfl _))) (.start rfl (.fetch_items _ 0)))
    (.start rfl (.message rfl _))

theorem handled_in_order_message : ∃ p now item_type items_to_fetch,
    (Item.ordinary 1100 5 : Item Unit).IsOf Env.plain item_type items_to_fetch ∧
      items_to_fetch.length ≤ GRAPHENE_NET_MAX_ITEMS_PER_PEER_DURING_NORMAL_OPERATION ∧
      ∀ h ∈ items_to_fetch, ∃ m, m.Lists ⟨item_type,h⟩ ∧
        [.received p (.item (.ordinary 1100 5)),.queued p now (.real_queued_message (.fetch_items item_type items_to_fetch)),
          .received p m].Sublist with_message.state.log.tail :=
  handled_in_order ⟨{},starting_node,_,runs_with_message,rfl⟩ (show _ = [] ++ _ from rfl)

/-- A peer is told of one item again only when more than two minutes have passed. -/
theorem advertisements_apart {s : NodeState O} (reachable : Reachable E s) {later past : List (Event O)} {p now before : Nat}
    {item_type : Nat} {hashes earlier : List BlockId} {h : BlockId}
    (log : s.log = later ++ .queued p now (.real_queued_message (.item_ids_inventory item_type hashes)) :: past)
    (told : .queued p before (.real_queued_message (.item_ids_inventory item_type earlier)) ∈ past)
    (again : h ∈ hashes) (once : h ∈ earlier) : before + 2 * 60 * 10 ^ 6 < now :=
  (log ▸ reachable.inv.justified).append.1 h again before earlier told once

/-- The peer has been told of a message. -/
def with_advertisement : PlainPool :=
  let in_sync := (with_nothing.turn (.reader 0) (read_message .plain 0 (.fetch_blockchain_item_ids block_message_type []))).reply
    no_chain (.reader 0)
  (in_sync.turn (.task 0) (change (·.broadcast .plain (.ordinary 1200 1)))).turn (.task 0) (change (·.advertise_inventory))

theorem runs_with_advertisement : Runs Env.plain (.idle {}) with_advertisement :=
  .tail (.tail (Pool.runs_reply (.tail runs_with_nothing (.start rfl (.message rfl _))) no_chain _)
    (.start rfl (.broadcast _ 0 _))) (.start rfl (.advertise_inventory _ 0))

/-- Later, the peer is told of it again. -/
def with_advertisements : PlainPool :=
  (((with_advertisement.turn (.task 0) (change ({ · with now := 2 * 10 ^ 8 }))).turn (.task 0)
    (change (·.advertise_inventory))).turn (.task 0) (change (·.broadcast .plain (.ordinary 1200 1)))).turn (.task 0)
      (change (·.advertise_inventory))

theorem runs_with_advertisements : Runs Env.plain (.idle {}) with_advertisements :=
  .tail (.tail (.tail (.tail runs_with_advertisement (.start rfl (.tick (by decide) 0))) (.start rfl (.advertise_inventory _ 0)))
    (.start rfl (.broadcast _ 0 _))) (.start rfl (.advertise_inventory _ 0))

theorem advertisements_apart_message : 0 + 2 * 60 * 10 ^ 6 < 2 * 10 ^ 8 :=
  advertisements_apart (p := 0) (h := ⟨1200,0⟩) ⟨{},starting_node,_,runs_with_advertisements,rfl⟩
    (show with_advertisements.state.log = [] ++ .queued 0 _ (.real_queued_message (.item_ids_inventory 1200 [⟨1200,0⟩])) ::
      with_advertisements.state.log.tail from rfl) (.head _) (.head _) (.head _)

end Decent.Net

import Decent.NetChanges

/-!
Every task of the node does nothing but the changes that keep the invariant. What the reader of a
peer relies on, while it waits, is left alone by all other tasks.
-/
namespace Decent.Net
open Decent.Protocol
open Decent.Sync (plus minus)
open Tasks Task Relation

variable {O : Type} {E : Env O}

/-! ### What is left alone -/

/-- What the reader of a peer relies on. -/
def Rely : Fiber → NodeState O → NodeState O → Prop
  | .reader p, s, s' => s.log <:+ s'.log ∧ (s'.peers p).rescheduled = (s.peers p).rescheduled ∧
      ((s.peers p).ids_of_items_to_get = [] → (s'.peers p).ids_of_items_to_get = [])
  | .task _, s, s' => s.log <:+ s'.log

theorem Rely.refl (i : Fiber) (s : NodeState O) : Rely i s s := by
  cases i with
  | reader p => exact ⟨List.suffix_rfl,rfl,id⟩
  | task n => exact List.suffix_rfl

theorem Rely.trans (i : Fiber) (a b c : NodeState O) (first : Rely i a b) (second : Rely i b c) : Rely i a c := by
  cases i with
  | reader p =>
    exact ⟨first.1.trans second.1,second.2.1.trans first.2.1,fun none => second.2.2 (first.2.2 none)⟩
  | task n => exact List.IsSuffix.trans first second

theorem Rely.grows {i : Fiber} {s s' : NodeState O} (rely : Rely i s s') : s.log <:+ s'.log := by
  cases i with
  | reader p => exact rely.1
  | task n => exact rely

/-- The account only grows. -/
theorem Change.grows {i : Fiber} {s s' : NodeState O} (change : Change E i s s') : s.log <:+ s'.log := by
  cases change with
  | less aside => rw [aside.log]
  | note e => exact List.suffix_cons _ _
  | hand m => exact List.suffix_cons _ _
  | request_sync => exact List.suffix_cons _ _
  | request events log => exact log ▸ List.suffix_append _ _
  | advertise events log => exact log ▸ List.suffix_append _ _
  | _ => exact List.suffix_rfl

/-- Only its own reader settles a peer. -/
theorem Change.rescheduled {i : Fiber} {s s' : NodeState O} (change : Change E i s s') {p : Nat} (other : i ≠ .reader p) :
    (s'.peers p).rescheduled = (s.peers p).rescheduled := by
  cases change with
  | less aside less => exact (less p).rescheduled
  | note e => rfl
  | hand m => rfl
  | @request_sync _ _ q items => exact NodeState.modify_peer_field (f := (·.insert_sync_items items)) (·.rescheduled) rfl p
  | request events log rest less => exact (less p).rescheduled
  | advertise events log rest less => exact (less p).rescheduled
  | hear => exact NodeState.modify_peer_field (·.rescheduled) rfl p
  | append => exact NodeState.modify_peer_field (·.rescheduled) rfl p
  | @take_sync_item _ q b =>
    simp only [NodeState.take_sync_item]
    exact NodeState.modify_peer_field (·.rescheduled) rfl p
  | @settle _ q =>
    simp only [NodeState.free_sync_requests]
    rw [NodeState.modify_peer_other _ _ fun same => other (congrArg Fiber.reader same.symm)]
  | tick => rfl

/-- Only its own reader adds to the list of a peer. -/
theorem Change.still_empty {i : Fiber} {s s' : NodeState O} (change : Change E i s s') {p : Nat} (other : i ≠ .reader p)
    (empty : (s.peers p).ids_of_items_to_get = []) : (s'.peers p).ids_of_items_to_get = [] := by
  cases change with
  | less aside less => exact List.eq_nil_of_infix_nil (empty ▸ (less p).ids)
  | note e => exact empty
  | hand m => exact empty
  | @request_sync _ _ q items =>
    rw [← empty]
    exact NodeState.modify_peer_field (f := (·.insert_sync_items items)) (·.ids_of_items_to_get) rfl p
  | request events log rest less => exact List.eq_nil_of_infix_nil (empty ▸ (less p).ids)
  | advertise events log rest less => exact List.eq_nil_of_infix_nil (empty ▸ (less p).ids)
  | hear =>
    rw [← empty]
    exact NodeState.modify_peer_field (·.ids_of_items_to_get) rfl p
  | @append _ q =>
    rw [NodeState.modify_peer_other _ _ fun same => other (congrArg Fiber.reader same.symm)]
    exact empty
  | take_sync_item =>
    rw [← empty]
    simp only [NodeState.take_sync_item]
    exact NodeState.modify_peer_field (·.ids_of_items_to_get) rfl p
  | settle =>
    rw [← empty]
    simp only [NodeState.free_sync_requests]
    exact NodeState.modify_peer_field (·.ids_of_items_to_get) rfl p
  | tick => exact empty

theorem Change.relied {i j : Fiber} {s s' : NodeState O} (change : Change E i s s') (other : i ≠ j) : Rely j s s' := by
  cases j with
  | reader p => exact ⟨change.grows,change.rescheduled other,change.still_empty other⟩
  | task n => exact change.grows

/-! ### Pieces of code -/

/-- What the tasks know of a peer: its requests are not yet free, and it has sent the messages. -/
def Known (p : Nat) (messages : List (Message O)) (s : NodeState O) : Prop :=
  (s.peers p).rescheduled = false ∧ ∀ m ∈ messages, .received p m ∈ s.log

/-- A fact that stays as long as no peer is settled. -/
class Steady (K : NodeState O → Prop) : Prop where
  stays : ∀ s s' : NodeState O, s.log <:+ s'.log → (∀ p, (s'.peers p).rescheduled = (s.peers p).rescheduled) → K s → K s'

instance : Steady (O := O) fun _ => True := ⟨fun _ _ _ _ _ => trivial⟩

instance (p : Nat) (messages : List (Message O)) : Steady (Known p messages) :=
  ⟨fun _ _ grows same known => ⟨(same p).trans known.1,fun m member => grows.subset (known.2 m member)⟩⟩

instance (i : Fiber) : Stable (Rely (O := O) i) fun _ => True := ⟨fun _ _ _ _ => trivial⟩

instance (p : Nat) (messages : List (Message O)) : Stable (Rely (.reader p)) (Known p messages) :=
  ⟨fun _ _ rely known => ⟨rely.2.1.trans known.1,fun m member => rely.1.subset (known.2 m member)⟩⟩

/-- A change that settles no peer. -/
def Mild (E : Env O) (i : Fiber) (s s' : NodeState O) : Prop :=
  Change E i s s' ∧ ∀ p, (s'.peers p).rescheduled = (s.peers p).rescheduled

theorem Mild.steady {K : NodeState O → Prop} [steady : Steady K] {i : Fiber} {s s' : NodeState O}
    (changes : ReflTransGen (Mild E i) s s') (known : K s) : K s' := by
  induction changes with
  | refl => exact known
  | tail _ change ih => exact steady.stays _ _ change.1.grows change.2 ih

/-- Code that keeps what it knows, and makes changes only. -/
abbrev Sound (E : Env O) (i : Fiber) (K : NodeState O → Prop) {α : Type} (t : Code O α) : Prop :=
  Keeps (Inv E) (Rely i) (Change E i) K t

section
variable {i : Fiber} {K : NodeState O → Prop} [Steady K]

theorem sound_change {f : NodeState O → NodeState O}
    (changes : ∀ s, Inv E s → K s → ReflTransGen (Mild E i) s (f s)) : Sound E i K (change f) :=
  keeps_change fun s holds known =>
    ⟨(changes s holds known).lift id fun _ _ mild => mild.1,Mild.steady (changes s holds known) known⟩

theorem mild_less {s s' : NodeState O} (aside : s.Aside s') (less : ∀ p, (s.peers p).Less s.now (s'.peers p)) :
    Mild E i s s' := ⟨.less aside less,fun p => (less p).rescheduled⟩

theorem mild_modify {s : NodeState O} {p : Nat} {f : PeerConnection → PeerConnection}
    (less : (s.peers p).Less s.now (f (s.peers p))) : Mild E i s (s.modify_peer p f) := by
  refine mild_less ⟨rfl,fun _ member => member,rfl,rfl⟩ fun q => ?_
  by_cases here : q = p
  · subst here
    rw [NodeState.modify_peer_self]
    exact less
  · rw [NodeState.modify_peer_other _ _ here]
    exact .refl _ _

/-- The node changes only what the account does not speak of. -/
theorem sound_aside {f : NodeState O → NodeState O} (aside : ∀ s : NodeState O, s.Aside (f s) ∧ (f s).peers = s.peers) :
    Sound E i K (change f) := by
  refine sound_change fun s _ _ => .single (mild_less (aside s).1 fun p => ?_)
  rw [(aside s).2]
  exact .refl _ _

theorem sound_modify {p : Nat} {f : PeerConnection → PeerConnection}
    (less : ∀ (now : Nat) (peer : PeerConnection), peer.Less now (f peer)) :
    Sound E i K (change (·.modify_peer (O := O) p f)) :=
  sound_change fun s _ _ => .single (mild_modify (less s.now (s.peers p)))

theorem sound_note {e : NodeState O → Event O} (plain : ∀ s, (e s).Plain) :
    Sound E i K (change fun s => s.note (e s)) :=
  sound_change fun s _ _ => .single ⟨.note (e s) (plain s),fun _ => rfl⟩

theorem sound_send {p : Nat} {m : Message O} (plain : ∀ now, (Event.queued p now (.real_queued_message m)).Plain) :
    Sound E i K (change (·.send_message p m)) := sound_note fun s => plain s.now

end

/-! ### Synchronization -/

section
variable {i : Fiber} {K : NodeState O → Prop} [Steady K] [Stable (Rely i) K]

instance (id : ItemId) : Sound E i K (Delegate.has_item (O := O) id) :=
  inferInstanceAs (Sound E i K (ask (Question.has_item id)))

instance (id : BlockId) : Sound E i K (Delegate.get_block_time (O := O) id) :=
  inferInstanceAs (Sound E i K (ask (Question.get_block_time id)))

instance (id : BlockId) (n : Nat) : Sound E i K (Delegate.get_blockchain_synopsis (O := O) id n) :=
  inferInstanceAs (Sound E i K (ask (Question.get_blockchain_synopsis id n)))

instance (synopsis : List BlockId) : Sound E i K (Delegate.get_block_ids (O := O) synopsis) :=
  inferInstanceAs (Sound E i K (ask (Question.get_block_ids synopsis)))

instance (id : ItemId) : Sound E i K (Delegate.get_item (O := O) id) :=
  inferInstanceAs (Sound E i K (ask (Question.get_item id)))

instance : Sound E i K (Delegate.get_head_block_id (O := O)) :=
  inferInstanceAs (Sound E i K (ask Question.get_head_block_id))

instance (b : BlockMessage O) (sync_mode : Bool) : Sound E i K (Delegate.handle_block b sync_mode) :=
  inferInstanceAs (Sound E i K (ask (Question.handle_block b sync_mode)))

instance (trx : Transaction O) : Sound E i K (Delegate.handle_transaction trx) :=
  inferInstanceAs (Sound E i K (ask (Question.handle_transaction trx)))

instance (m : Item O) : Sound E i K (Delegate.handle_message m) :=
  inferInstanceAs (Sound E i K (ask (Question.handle_message m)))

instance (item_type count : Nat) : Sound E i K (Delegate.sync_status (O := O) item_type count) :=
  inferInstanceAs (Sound E i K (ask (Question.sync_status item_type count)))

instance (c : Nat) : Sound E i K (Delegate.connection_count_changed (O := O) c) :=
  inferInstanceAs (Sound E i K (ask (Question.connection_count_changed c)))

instance : Sound E i K (Delegate.error_encountered (O := O)) :=
  inferInstanceAs (Sound E i K (ask Question.error_encountered))

instance sound_disconnect (p : Nat) (reason : String) (error : Bool) :
    Sound E i K (disconnect_from_peer (O := O) p reason error) := by
  have moved : Sound E i K (change (·.move_peer_to_closing_list (O := O) p)) :=
    sound_aside fun s => ⟨.of_eq rfl rfl rfl rfl rfl rfl,rfl⟩
  have closing : Sound E i K (change (·.modify_peer (O := O) p fun peer => { peer with we_have_requested_close := true })) :=
    sound_modify fun now peer => { PeerConnection.Less.refl now peer with }
  have told : Sound E i K (change (·.send_message (O := O) p (.closing_connection reason error))) :=
    sound_send fun _ => trivial
  unfold disconnect_from_peer
  infer_instance

instance sound_closing_connection (p : Nat) (error : Bool) : Sound E i K (on_closing_connection_message (O := O) p error) := by
  have asked : Sound E i K (change (·.modify_peer (O := O) p fun peer => { peer with they_have_requested_close := true })) :=
    sound_modify fun now peer => { PeerConnection.Less.refl now peer with }
  unfold on_closing_connection_message
  infer_instance

instance sound_create_synopsis (p : Nat) : Sound E i K (create_blockchain_synopsis_for_peer (O := O) p) := by
  unfold create_blockchain_synopsis_for_peer
  refine keeps_seq inferInstance fun s => keeps_seq inferInstance fun synopsis => ?_
  split <;> infer_instance

instance sound_fetch_next_batch (p : Nat) : Sound E i K (fetch_next_batch_of_item_ids_from_peer (O := O) p) := by
  have asked (ids : List BlockId) : Sound E i K (change (·.modify_peer (O := O) p fun peer => { peer with
      item_ids_requested_from_peer := some ids })) := sound_modify fun now peer => { PeerConnection.Less.refl now peer with }
  have sent (t : Nat) (ids : List BlockId) : Sound E i K (change (·.send_message (O := O) p (.fetch_blockchain_item_ids t ids))) :=
    sound_send fun _ => trivial
  unfold fetch_next_batch_of_item_ids_from_peer
  refine keeps_seq ?_ fun requested => ?_
  · infer_instance
  · split <;> infer_instance

instance sound_start_synchronizing (p : Nat) : Sound E i K (start_synchronizing_with_peer (O := O) p) := by
  have started : Sound E i K (change (·.modify_peer (O := O) p fun peer => { peer with
      ids_of_items_to_get := []
      number_of_unfetched_item_ids := 0
      we_need_sync_items_from_peer := true
      last_block_delegate_has_seen := .zero })) :=
    sound_modify fun now peer => { PeerConnection.Less.refl now peer with ids := List.nil_infix }
  have timed (time : Nat) : Sound E i K (change (·.modify_peer (O := O) p fun peer => { peer with
      last_block_time_delegate_has_seen := time
      inhibit_fetching_sync_blocks := false })) := sound_modify fun now peer => { PeerConnection.Less.refl now peer with }
  unfold start_synchronizing_with_peer
  infer_instance

instance sound_new_peer (p : Nat) : Sound E i K (new_peer_just_added (O := O) p) := by
  have sent : Sound E i K (change (·.send_message (O := O) p .current_time_request)) := sound_send fun _ => trivial
  have counted : Sound E i K (change fun s : NodeState O => { s with
      _last_reported_number_of_connections := s._active_connections.length }) :=
    sound_aside fun s => ⟨.of_eq rfl rfl rfl rfl rfl rfl,rfl⟩
  unfold new_peer_just_added
  infer_instance

instance sound_ids_for_peer (synopsis : List BlockId) : Sound E i K (ids_for_peer (O := O) synopsis) := by
  unfold ids_for_peer
  infer_instance

instance sound_fetch_ids (p item_type : Nat) (synopsis : List BlockId) :
    Sound E i K (on_fetch_blockchain_item_ids_message (O := O) p item_type synopsis) := by
  have seen (in_sync : Bool) : Sound E i K (change (·.modify_peer (O := O) p fun peer => { peer with
      peer_needs_sync_items_from_us := !in_sync })) := sound_modify fun now peer => { PeerConnection.Less.refl now peer with }
  have replied (n t : Nat) (ids : List BlockId) : Sound E i K (change (·.send_message (O := O) p
      (.blockchain_item_ids_inventory n t ids))) := sound_send fun _ => trivial
  have moved : Sound E i K (change (·.move_peer_to_active_list (O := O) p)) :=
    sound_aside fun s => ⟨.of_eq rfl rfl rfl rfl rfl rfl,rfl⟩
  unfold on_fetch_blockchain_item_ids_message
  refine keeps_seq inferInstance fun reply => keeps_seq inferInstance fun s => keeps_seq inferInstance fun _ =>
    keeps_seq ?_ fun _ => ?_
  · split <;> infer_instance
  · infer_instance

end

/-! ### The lists of ids -/

section
variable {p : Nat} {messages : List (Message O)}

/-- The peer has listed nothing that it is still to be asked for. -/
def Cleared (p : Nat) (messages : List (Message O)) (s : NodeState O) : Prop :=
  Known p messages s ∧ (s.peers p).ids_of_items_to_get = []

instance : Stable (Rely (.reader p)) (Cleared p messages) :=
  ⟨fun s s' rely cleared => ⟨Stable.stays s s' rely cleared.1,rely.2.2 cleared.2⟩⟩

theorem sound_modify_cleared {f : PeerConnection → PeerConnection}
    (less : ∀ (now : Nat) (peer : PeerConnection), peer.Less now (f peer)) :
    Sound E (.reader p) (Cleared p messages) (change (·.modify_peer p f)) := by
  refine keeps_change fun s _ cleared => ⟨.single (mild_modify (less s.now (s.peers p))).1,?_,?_⟩
  · exact Mild.steady (E := E) (i := .reader p) (.single (mild_modify (less s.now (s.peers p)))) cleared.1
  · rw [NodeState.modify_peer_self]
    exact List.eq_nil_of_infix_nil (cleared.2 ▸ (less s.now (s.peers p)).ids)

/-- What remains of a list is an end of it. -/
theorem safe_pop_known (item_type : Nat) (ids : List BlockId) {s : NodeState O} (cleared : Cleared p messages s) :
    Safe (Inv E) (Rely (.reader p)) (Change E (.reader p)) (fun left s => Cleared p messages s ∧ left <:+ ids)
      (fun _ => Cleared p messages) (pop_known p item_type ids) s := by
  induction ids generalizing s with
  | nil => exact ⟨cleared,List.suffix_rfl⟩
  | cons id rest ih =>
    have seen : Sound E (.reader p) (Cleared p messages) (change (·.modify_peer p fun peer => { peer with
        last_block_delegate_has_seen := id })) := sound_modify_cleared fun now peer => { PeerConnection.Less.refl now peer with }
    have timed (time : Nat) : Sound E (.reader p) (Cleared p messages) (change (·.modify_peer p fun peer => { peer with
        last_block_time_delegate_has_seen := time })) :=
      sound_modify_cleared fun now peer => { PeerConnection.Less.refl now peer with }
    refine safe_bind.mpr (safe_ask cleared (fun s' known still => ?_) fun _ _ still => still)
    split
    · refine safe_bind.mpr ((seen.safe s' still).mono (fun _ s still => ?_) fun _ _ still => still)
      refine safe_bind.mpr (safe_ask still (fun s' time still => ?_) fun _ _ still => still)
      refine safe_bind.mpr (((timed time).safe s' still).mono (fun _ s still => ?_) fun _ _ still => still)
      exact (ih still).mono (fun left s ended => ⟨ended.1,ended.2.trans (List.suffix_cons _ _)⟩) fun _ _ still => still
    · exact ⟨still,List.suffix_rfl⟩

/-- What remains as the end of a list is popped: nothing, or a list that ends with the id. -/
theorem pop_back_to_cases (id : BlockId) (ids : List BlockId) :
    pop_back_to id ids <+: ids ∧ (pop_back_to id ids = [] ∨ (pop_back_to id ids).dropLast ++ [id] = pop_back_to id ids) := by
  constructor
  · obtain ⟨front,split⟩ := List.dropWhile_suffix (l := ids.reverse) (· ≠ id)
    refine ⟨front.reverse,?_⟩
    rw [pop_back_to,← List.reverse_append,split,List.reverse_reverse]
  · unfold pop_back_to
    cases remains : ids.reverse.dropWhile (· ≠ id) with
    | nil => exact .inl rfl
    | cons last rest =>
      have found : last = id := by
        have first := List.head?_dropWhile_not (· ≠ id) ids.reverse
        rw [remains] at first
        simpa using first
      right
      simp [found]

/-- The new ids can go behind the list of the peer. -/
theorem safe_new_item_hashes (item_type : Nat) {ids : List BlockId} (sequential : Sequential ids) {s : NodeState O}
    (known : Known p messages s) :
    Safe (Inv E) (Rely (.reader p)) (Change E (.reader p)) (fun left s => Known p messages s ∧
        (∀ h ∈ left, h ∈ ids) ∧ Sequential ((s.peers p).ids_of_items_to_get ++ left))
      (fun _ => Known p messages) (new_item_hashes p item_type ids) s := by
  refine safe_state fun holds => ?_
  cases ids with
  | nil =>
    refine ⟨known,fun _ member => member,?_⟩
    rw [List.append_nil]
    exact (holds.owed p).sequential
  | cons front rest =>
    simp only
    split
    · rename_i empty
      split
      · exact ⟨known,fun _ member => member,by rwa [empty]⟩
      · refine (safe_pop_known item_type (front :: rest) ⟨known,empty⟩).mono ?_ fun _ _ cleared => cleared.1
        rintro left s ⟨⟨still,cleared⟩,ended⟩
        exact ⟨still,fun h member => ended.subset member,by rw [cleared]; exact sequential.suffix ended⟩
    · obtain ⟨shorter,cases⟩ := pop_back_to_cases front (s.peers p).ids_of_items_to_get
      have less : (s.peers p).Less s.now { s.peers p with
          ids_of_items_to_get := pop_back_to front (s.peers p).ids_of_items_to_get } :=
        { PeerConnection.Less.refl s.now (s.peers p) with ids := shorter.isInfix }
      refine safe_change fun _ => ⟨.single (mild_modify less).1,safe_state fun holds => ?_⟩
      have still : Known p messages (s.modify_peer p fun peer => { peer with
          ids_of_items_to_get := pop_back_to front peer.ids_of_items_to_get }) :=
        Mild.steady (E := E) (i := .reader p) (.single (mild_modify less)) known
      set popped := s.modify_peer p fun peer => { peer with
        ids_of_items_to_get := pop_back_to front peer.ids_of_items_to_get } with isPopped
      have ids : (popped.peers p).ids_of_items_to_get = pop_back_to front (s.peers p).ids_of_items_to_get := by
        rw [isPopped,NodeState.modify_peer_self]
      split
      · rename_i empty
        have seen : Sound E (.reader p) (Cleared p messages) (change (·.modify_peer p fun peer => { peer with
            last_block_delegate_has_seen := front })) :=
          sound_modify_cleared fun now peer => { PeerConnection.Less.refl now peer with }
        have timed (time : Nat) : Sound E (.reader p) (Cleared p messages) (change (·.modify_peer p fun peer => { peer with
            last_block_time_delegate_has_seen := time })) :=
          sound_modify_cleared fun now peer => { PeerConnection.Less.refl now peer with }
        refine safe_bind.mpr ((seen.safe popped ⟨still,empty⟩).mono (fun _ s cleared => ?_) fun _ _ cleared => cleared.1)
        refine safe_bind.mpr (safe_ask cleared (fun s' time cleared => ?_) fun _ _ cleared => cleared.1)
        refine safe_bind.mpr (((timed time).safe s' cleared).mono (fun _ s cleared => ?_) fun _ _ cleared => cleared.1)
        exact ⟨cleared.1,fun h member => List.mem_cons_of_mem _ member,by rw [cleared.2]; exact sequential.tail⟩
      · rename_i left
        have fewer : (popped.peers p).Less popped.now { popped.peers p with
            ids_of_items_to_get := (popped.peers p).ids_of_items_to_get.dropLast } :=
          { PeerConnection.Less.refl popped.now (popped.peers p) with ids := (List.dropLast_prefix _).isInfix }
        refine safe_change fun _ => ⟨.single (mild_modify fewer).1,?_⟩
        refine ⟨Mild.steady (E := E) (i := .reader p) (.single (mild_modify fewer)) still,fun _ member => member,?_⟩
        rw [NodeState.modify_peer_self]
        have ends : (popped.peers p).ids_of_items_to_get.dropLast ++ [front] = (popped.peers p).ids_of_items_to_get := by
          rw [ids] at left ⊢
          exact cases.resolve_left left
        have before := (holds.owed p).sequential
        rw [Sequential,← ends] at before
        show List.IsChain _ _
        simpa using before.append_overlap sequential (by simp)

/-- The numbers of an answer follow each other. -/
theorem is_sequential_sequential {ids : List BlockId} (valid : is_sequential ids = true) : Sequential ids := by
  cases ids with
  | nil => exact .nil
  | cons front rest =>
    have numbered : ∀ i (within : i < (front :: rest).length), i = 0 ∨ (front :: rest)[i].num = plus front.num i := by
      intro i within
      simp only [is_sequential,List.all_eq_true] at valid
      have here := valid ((front :: rest)[i],i) (List.mk_mem_zipIdx_iff_getElem?.mpr (List.getElem?_eq_getElem within))
      simpa using here
    refine List.isChain_iff_getElem.mpr fun i within => ?_
    have next := (numbered (i + 1) within).resolve_left (Nat.succ_ne_zero i)
    rw [next]
    rcases numbered i (by omega) with rfl | here
    · simp [plus]
    · rw [here]
      simp only [plus]
      omega

end

section
variable {p : Nat}

instance sound_continue {i : Fiber} {K : NodeState O → Prop} [Steady K] [Stable (Rely i) K] (item_type total : Nat) :
    Sound E i K (continue_synchronizing (O := O) p item_type total) := by
  have counted (n : Nat) : Sound E i K (change fun s : NodeState O => { s with _total_number_of_unfetched_items := n }) :=
    sound_aside fun s => ⟨.of_eq rfl rfl rfl rfl rfl rfl,rfl⟩
  unfold continue_synchronizing
  infer_instance

theorem sound_ids_inventory {item_type total : Nat} {ids : List BlockId} {messages : List (Message O)}
    (received : .blockchain_item_ids_inventory total item_type ids ∈ messages) :
    Sound E (.reader p) (Known p messages) (on_blockchain_item_ids_inventory_message p total item_type ids) := by
  have answered : Sound E (.reader p) (Known p messages) (change (·.modify_peer p fun peer => { peer with
      item_ids_requested_from_peer := none })) := sound_modify fun now peer => { PeerConnection.Less.refl now peer with }
  have done : Sound E (.reader p) (Known p messages) (change (·.modify_peer p fun peer => { peer with
      we_need_sync_items_from_peer := false })) := sound_modify fun now peer => { PeerConnection.Less.refl now peer with }
  have counted (n : Nat) : Sound E (.reader p) (Known p messages) (change fun s : NodeState O => { s with
      _total_number_of_unfetched_items := n }) := sound_aside fun s => ⟨.of_eq rfl rfl rfl rfl rfl rfl,rfl⟩
  have unfetched : Sound E (.reader p) (Known p messages) (change (·.modify_peer p fun peer => { peer with
      number_of_unfetched_item_ids := total })) := sound_modify fun now peer => { PeerConnection.Less.refl now peer with }
  unfold on_blockchain_item_ids_inventory_message
  refine keeps_seq inferInstance fun s => ?_
  split
  · infer_instance
  split
  · rename_i valid
    refine keeps_seq inferInstance fun _ => keeps_seq ?_ fun nothing_new => keeps_seq inferInstance fun s => ?_
    · split <;> infer_instance
    split
    · infer_instance
    · have sequential : Sequential ids := by
        cases ids with
        | nil => exact .nil
        | cons front rest =>
          simp only [is_valid_response,Bool.decide_and,Bool.and_eq_true] at valid
          exact is_sequential_sequential (of_decide_eq_true valid.1)
      refine keeps_seq inferInstance fun _ => ⟨fun s known => ?_⟩
      refine safe_bind.mpr ((safe_new_item_hashes item_type sequential known).mono ?_ fun _ _ known => known)
      rintro left s ⟨known,inside,fits⟩
      have announced : ∀ h ∈ left, Announced s.log p ⟨block_message_type,h⟩ := fun h member =>
        ⟨_,known.2 _ received,rfl,inside h member⟩
      have appended : Mild E (.reader p) s (s.modify_peer p fun peer => { peer with
          ids_of_items_to_get := peer.ids_of_items_to_get ++ left }) :=
        ⟨.append fits announced,NodeState.modify_peer_field (·.rescheduled) rfl⟩
      have numbered : Mild E (.reader p) (s.modify_peer p fun peer => { peer with
          ids_of_items_to_get := peer.ids_of_items_to_get ++ left }) (s.modify_peer p fun peer => { peer with
          ids_of_items_to_get := peer.ids_of_items_to_get ++ left
          number_of_unfetched_item_ids := total }) := by
        have step := mild_modify (E := E) (i := .reader p) (p := p) (s := s.modify_peer p fun peer => { peer with
          ids_of_items_to_get := peer.ids_of_items_to_get ++ left }) (f := fun peer => { peer with
          number_of_unfetched_item_ids := total }) { PeerConnection.Less.refl _ _ with }
        rwa [NodeState.modify_peer_twice] at step
      have steps := (ReflTransGen.single appended).tail numbered
      exact safe_change fun _ => ⟨steps.lift id fun _ _ mild => mild.1,
        (sound_continue (E := E) item_type total).safe _ (Mild.steady steps known)⟩
  · infer_instance

end

/-! ### Blocks and other items -/

/-- A message was delivered, besides what is known. -/
def Holding (E : Env O) (K : NodeState O → Prop) (m : Item O) (s : NodeState O) : Prop := K s ∧ Delivered E s.log m

section
variable {i : Fiber} {K : NodeState O → Prop} {m : Item O}

instance [steady : Steady K] : Steady (Holding E K m) :=
  ⟨fun s s' grows same holding => ⟨steady.stays s s' grows same holding.1,holding.2.mono grows⟩⟩

instance [stable : Stable (Rely i) K] : Stable (Rely i) (Holding E K m) :=
  ⟨fun s s' rely holding => ⟨stable.stays s s' rely holding.1,holding.2.mono rely.grows⟩⟩

instance [Steady K] : Sound E i (Holding E K m) (change (·.note (.handled m))) :=
  sound_change fun _ _ holding => .single ⟨.hand m holding.2,fun _ => rfl⟩

theorem mild_foldl {α : Type} {f : NodeState O → α → NodeState O} (step : ∀ s a, ReflTransGen (Mild E i) s (f s a))
    (xs : List α) (s : NodeState O) : ReflTransGen (Mild E i) s (xs.foldl f s) := by
  induction xs generalizing s with
  | nil => exact .refl
  | cons a rest ih => exact (step s a).trans (ih (f s a))

theorem aside_accept_block (s : NodeState O) (id : BlockId) :
    s.Aside (s.accept_block id) ∧ (s.accept_block id).peers = s.peers := by
  unfold NodeState.accept_block
  exact ⟨.of_eq rfl rfl rfl rfl rfl rfl,rfl⟩

theorem aside_broadcast (s : NodeState O) (m : Item O) : s.Aside (s.broadcast E m) ∧ (s.broadcast E m).peers = s.peers := by
  unfold NodeState.broadcast NodeState.accept_block
  cases m <;> exact ⟨.of_eq rfl rfl rfl rfl rfl rfl,rfl⟩

/-- Old inventory does not count. -/
theorem less_clear (now : Nat) (peer : PeerConnection) : peer.Less now (peer.clear_old_inventory now) where
  ids := List.infix_rfl
  items _ member := member
  sync_items _ member := member
  heard _ member := (List.mem_filter.mp member).1
  advertised t member := by
    by_cases old : t.timestamp < seconds (now - inventory_duration)
    · exact .inr old
    · exact .inl (List.mem_filter.mpr ⟨member,decide_eq_true old⟩)
  rescheduled := rfl

theorem PeerConnection.Less.trans {now : Nat} {a b c : PeerConnection} (first : a.Less now b) (second : b.Less now c) :
    a.Less now c where
  ids := second.ids.trans first.ids
  items item member := first.items item (second.items item member)
  sync_items item member := first.sync_items item (second.sync_items item member)
  heard t member := first.heard t (second.heard t member)
  advertised t member := (first.advertised t member).elim (second.advertised t) .inr
  rescheduled := second.rescheduled.trans first.rescheduled

end

section
variable {i : Fiber} {K : NodeState O → Prop} [Steady K] [Stable (Rely i) K]

instance (id : BlockId) : Sound E i K (change (·.accept_block (O := O) id)) :=
  sound_aside fun s => aside_accept_block s id

instance (m : Item O) : Sound E i K (change (·.broadcast E m)) := sound_aside fun s => aside_broadcast s m

instance sound_after_accepted (b : BlockMessage O) : Sound E i K (after_accepted b) := by
  have counted : Sound E i K (change fun s : NodeState O => { s with
      _total_number_of_unfetched_items := minus s._total_number_of_unfetched_items 1 }) :=
    sound_aside fun s => ⟨.of_eq rfl rfl rfl rfl rfl rfl,rfl⟩
  have finished (peers : List Nat) : Sound E i K (change fun s => peers.foldl (·.finish_item b) s) :=
    sound_change fun s _ _ => mild_foldl (fun s p =>
      .single (mild_modify { PeerConnection.Less.refl s.now (s.peers p) with })) peers s
  unfold after_accepted
  refine keeps_seq inferInstance fun _ => keeps_seq inferInstance fun s => ?_
  split
  split
  infer_instance

/-- Of a block that was delivered. -/
theorem sound_send_sync_block (b : BlockMessage O) :
    Sound E i (Holding E K (.block b)) (send_sync_block_to_node_delegate b) := by
  have begun : Sound E i (Holding E K (.block b)) (change (·.begin_call b)) := by
    refine sound_change fun s _ holding => .tail (.single ⟨.hand (.block b) holding.2,fun _ => rfl⟩) ?_
    refine mild_less ⟨rfl,fun c member => ?_,rfl,rfl⟩ fun p => .refl _ _
    simp only [NodeState.in_hand,NodeState.begin_call,NodeState.note,List.mem_append] at member ⊢
    exact member.imp id List.mem_of_mem_eraseP
  have inhibited (p : Nat) : Sound E i (Holding E K (.block b)) (change (·.modify_peer p fun peer => { peer with
      inhibit_fetching_sync_blocks := true })) := sound_modify fun now peer => { PeerConnection.Less.refl now peer with }
  unfold send_sync_block_to_node_delegate
  refine keeps_seq inferInstance fun _ => keeps_seq ?_ fun verdict => keeps_seq inferInstance fun s => ?_
  · refine keeps_try inferInstance fun e => ?_
    split <;> infer_instance
  · split <;> infer_instance

theorem sound_handle_call (b : BlockMessage O) : Sound E i (Holding E K (.block b)) (handle_message_call b) := by
  have sent := sound_send_sync_block (E := E) (i := i) (K := K) b
  have finished : Sound E i (Holding E K (.block b)) (change fun s : NodeState O => { s with
      unfinished_calls := s.unfinished_calls - 1 }) := sound_aside fun s => ⟨.of_eq rfl rfl rfl rfl rfl rfl,rfl⟩
  unfold handle_message_call
  infer_instance

theorem less_note_offer (b : BlockMessage O) (s : NodeState O) (p : Nat) : Mild E i s (s.note_offer E b p) := by
  refine mild_modify ?_
  split
  · exact { less_clear s.now (s.peers p) with }
  · exact less_clear s.now (s.peers p)

/-- Of a block that was delivered, in normal operation. -/
theorem sound_push_block (p : Nat) (b : BlockMessage O) : Sound E i (Holding E K (.block b)) (push_block E p b) := by
  have forgotten (ids : List BlockId) : Sound E i (Holding E K (.block b)) (change fun s : NodeState O => { s with
      _items_to_fetch := s._items_to_fetch.filter fun i =>
        ¬ (i.item.item_type = trx_message_type ∧ i.item.item_hash ∈ ids) }) :=
    sound_aside fun s => ⟨.of_eq rfl rfl rfl rfl rfl rfl,rfl⟩
  have offered : Sound E i (Holding E K (.block b)) (change fun s : NodeState O =>
      s._active_connections.foldl (·.note_offer E b) s) :=
    sound_change fun s _ _ => mild_foldl (fun s p => .single (less_note_offer b s p)) _ s
  have counted : Sound E i (Holding E K (.block b)) (change fun s : NodeState O => { s with
      _message_cache := s._message_cache.block_accepted }) :=
    sound_aside fun s => ⟨.of_eq rfl rfl rfl rfl rfl rfl,rfl⟩
  unfold push_block
  refine keeps_try ?_ fun e => ?_
  · refine keeps_seq inferInstance fun s => keeps_seq ?_ fun _ => ?_
    · split <;> infer_instance
    · infer_instance
  · split <;> infer_instance

theorem sound_normal_operation (p : Nat) (b : BlockMessage O) :
    Sound E i (Holding E K (.block b)) (process_block_during_normal_operation E p b) := by
  unfold process_block_during_normal_operation
  refine keeps_seq (sound_push_block p b) fun outcome => ?_
  split <;> infer_instance

/-- A requested item is no longer requested once it is here. -/
theorem mild_take_item (s : NodeState O) (p : Nat) (item : ItemId) : Mild E i s (s.take_item p item) :=
  mild_modify { PeerConnection.Less.refl s.now (s.peers p) with items := fun _ member => (List.mem_filter.mp member).1 }

/-- What was asked for has just come. -/
theorem Asked.came {log past : List (Event O)} {p : Nat} {m : Item O} {item : ItemId} (asked : Asked log p item)
    (came : log = .received p (.item m) :: past)
    (isItem : ∀ items, item.item_hash ∈ items → m.IsOf E item.item_type items) : Delivered E log m := by
  obtain ⟨now,items,queued,inside⟩ := asked
  have before : .queued p now (.real_queued_message (.fetch_items item.item_type items)) ∈ past := by
    rw [came] at queued
    simpa using queued
  rw [came]
  exact Asked.delivered ⟨now,items,before,inside⟩ isItem

/-- A block that has just come. -/
theorem safe_block {p : Nat} {b : BlockMessage O} {messages : List (Message O)} {s : NodeState O} (known : Known p messages s)
    {past : List (Event O)} (came : s.log = .received p (.item (.block b)) :: past) :
    Safe (Inv E) (Rely (.reader p)) (Change E (.reader p)) (fun _ => Known p messages) (fun _ => Known p messages)
      (process_block_message E p b) s := by
  refine safe_state fun holds => ?_
  have weaken {α : Type} {t : Code O α} (sound : Sound E (.reader p) (Holding E (Known p messages) (.block b)) t)
      {s : NodeState O} (holding : Holding E (Known p messages) (.block b) s) :
      Safe (Inv E) (Rely (.reader p)) (Change E (.reader p)) (fun _ => Known p messages) (fun _ => Known p messages) t s :=
    (sound.safe s holding).mono (fun _ _ holding => holding.1) fun _ _ holding => holding.1
  simp only
  split
  · rename_i requested
    have delivered := ((holds.owed p).items_asked _ requested).came (E := E) came fun items inside => ⟨rfl,.inl inside⟩
    have taken := mild_take_item (E := E) (i := .reader p) s p ⟨block_message_type,E.message_id (.block b)⟩
    exact safe_change fun _ => ⟨.single taken.1,
      weaken (sound_normal_operation p b) (Mild.steady (.single taken) ⟨known,delivered⟩)⟩
  split
  · rename_i requested
    have delivered := ((holds.owed p).sync_items_asked _ requested).came (E := E) came fun items inside =>
      ⟨rfl,.inr ⟨b,rfl,inside⟩⟩
    have taken : Mild E (.reader p) s (s.take_sync_item p b) :=
      ⟨.take_sync_item known.1 requested delivered,fun q => by
        simp only [NodeState.take_sync_item]
        exact NodeState.modify_peer_field (·.rescheduled) rfl q⟩
    refine safe_change fun _ => ⟨.single taken.1,safe_state fun _ => ?_⟩
    have still : Known p messages (s.take_sync_item p b) := Mild.steady (.single taken) known
    split
    · exact (sound_fetch_next_batch (E := E) p).safe _ still
    · exact still
  · exact (sound_disconnect (E := E) p _ _).safe s known

instance sound_pass_to_client (m : Item O) (item : ItemId) : Sound E i (Holding E K m) (pass_to_client m item) := by
  have failed : Sound E i (Holding E K m) (change fun s : NodeState O => { s with
      _recently_failed_items := insert_item item s.now s._recently_failed_items }) :=
    sound_aside fun s => ⟨.of_eq rfl rfl rfl rfl rfl rfl,rfl⟩
  unfold pass_to_client
  refine keeps_seq inferInstance fun _ => keeps_try (keeps_seq ?_ fun _ => inferInstance) fun e => ?_
  · split <;> infer_instance
  · infer_instance

/-- Another item that has just come. -/
theorem safe_ordinary {p : Nat} {m : Item O} {messages : List (Message O)} {s : NodeState O} (known : Known p messages s)
    {past : List (Event O)} (came : s.log = .received p (.item m) :: past) :
    Safe (Inv E) (Rely (.reader p)) (Change E (.reader p)) (fun _ => Known p messages) (fun _ => Known p messages)
      (process_ordinary_message E p m) s := by
  refine safe_state fun holds => ?_
  simp only
  split
  · rename_i requested
    have delivered := ((holds.owed p).items_asked _ requested).came (E := E) came fun items inside => ⟨rfl,.inl inside⟩
    have taken := mild_take_item (E := E) (i := .reader p) s p ⟨m.msg_type,E.message_id m⟩
    have handed : Sound E (.reader p) (Holding E (Known p messages) m) (do
        let validated ← pass_to_client m ⟨m.msg_type,E.message_id m⟩
        if validated then change (·.broadcast E m) else pure ()) := inferInstance
    exact safe_change fun _ => ⟨.single taken.1,(handed.safe _ (Mild.steady (.single taken) ⟨known,delivered⟩)).mono
      (fun _ _ holding => holding.1) fun _ _ holding => holding.1⟩
  · exact (sound_disconnect (E := E) p _ _).safe s known

end

section
variable {i : Fiber} {K : NodeState O → Prop} [Steady K] [Stable (Rely i) K]

theorem aside_fetch_item_later (s : NodeState O) (item : ItemId) :
    s.Aside (s.fetch_item_later item) ∧ (s.fetch_item_later item).peers = s.peers := by
  unfold NodeState.fetch_item_later
  exact ⟨.of_eq rfl rfl rfl rfl rfl rfl,rfl⟩

theorem mild_aside {s s' : NodeState O} (aside : s.Aside s' ∧ s'.peers = s.peers) : Mild E i s s' :=
  mild_less aside.1 fun p => by
    rw [aside.2]
    exact .refl _ _

instance sound_not_available (p : Nat) (item : ItemId) : Sound E i K (on_item_not_available_message (O := O) p item) := by
  have gone : Sound E i K (change fun s : NodeState O =>
      let s := s.modify_peer p fun peer => { peer with
        items_requested_from_peer := peer.items_requested_from_peer.filter (· ≠ item)
        inventory_peer_advertised_to_us := peer.inventory_peer_advertised_to_us.filter (·.item ≠ item) }
      if s.is_item_in_any_peers_inventory item then s.fetch_item_later item else s) := by
    refine sound_change fun s _ _ => ?_
    have taken : Mild E i s (s.modify_peer p fun peer => { peer with
        items_requested_from_peer := peer.items_requested_from_peer.filter (· ≠ item)
        inventory_peer_advertised_to_us := peer.inventory_peer_advertised_to_us.filter (·.item ≠ item) }) :=
      mild_modify { PeerConnection.Less.refl s.now (s.peers p) with
        items := fun _ member => (List.mem_filter.mp member).1
        heard := fun _ member => (List.mem_filter.mp member).1 }
    simp only
    split
    · exact .tail (.single taken) (mild_aside (aside_fetch_item_later _ item))
    · exact .single taken
  have sync_gone : Sound E i K (change (·.modify_peer (O := O) p fun peer => { peer with
      sync_items_requested_from_peer := peer.sync_items_requested_from_peer.filter (· ≠ item) })) :=
    sound_modify fun now peer => { PeerConnection.Less.refl now peer with
      sync_items := fun _ member => (List.mem_filter.mp member).1 }
  have inhibited : Sound E i K (change (·.modify_peer (O := O) p fun peer => { peer with
      inhibit_fetching_sync_blocks := true })) := sound_modify fun now peer => { PeerConnection.Less.refl now peer with }
  unfold on_item_not_available_message
  infer_instance

instance sound_collect_replies (item_type : Nat) (hashes : List BlockId) (replies : List (Reply O)) (last : Option (Item O)) :
    Sound E i K (collect_replies item_type hashes replies last) := by
  induction hashes generalizing replies last with
  | nil => exact inferInstanceAs (Sound E i K (pure (replies,last)))
  | cons h rest ih =>
    unfold collect_replies
    refine keeps_seq inferInstance fun s => ?_
    split
    · infer_instance
    · refine keeps_seq inferInstance fun found => ?_
      split <;> infer_instance

instance sound_fetch_items (p item_type : Nat) (hashes : List BlockId) :
    Sound E i K (on_fetch_items_message (O := O) p item_type hashes) := by
  have seen (id : BlockId) : Sound E i K (change (·.modify_peer (O := O) p fun peer => { peer with
      last_block_delegate_has_seen := id })) := sound_modify fun now peer => { PeerConnection.Less.refl now peer with }
  have timed (time : Nat) : Sound E i K (change (·.modify_peer (O := O) p fun peer => { peer with
      last_block_time_delegate_has_seen := time })) := sound_modify fun now peer => { PeerConnection.Less.refl now peer with }
  have replied (replies : List (Reply O)) : Sound E i K (change fun s => replies.foldl (·.send_reply p) s) := by
    refine sound_change fun s _ _ => mild_foldl (fun s reply => .single ?_) replies s
    unfold NodeState.send_reply
    split
    · exact ⟨.note _ trivial,fun _ => rfl⟩
    · exact ⟨.note _ trivial,fun _ => rfl⟩
    · exact ⟨.note _ trivial,fun _ => rfl⟩
  unfold on_fetch_items_message
  refine keeps_seq inferInstance fun reply => ?_
  split
  refine keeps_seq ?_ fun _ => ?_
  · split
    · split
      · split <;> infer_instance
      · infer_instance
    · infer_instance
  · infer_instance

/-! ### Handshakes and ends -/

instance sound_send_hello (p : Nat) : Sound E i K (send_hello_message E p) := by
  have sent (hello : HelloMessage) : Sound E i K (change (·.send_message (O := O) p (.hello hello))) :=
    sound_send fun _ => trivial
  unfold send_hello_message
  infer_instance

theorem mild_reject (s : NodeState O) (p : Nat) (reason_code : RejectionReasonCode) (reason : String) :
    ReflTransGen (Mild E i) s (s.reject p reason_code reason) :=
  .tail (.single (mild_modify { PeerConnection.Less.refl s.now (s.peers p) with })) ⟨.note _ trivial,fun _ => rfl⟩

instance sound_hello (p : Nat) (hello : HelloMessage) : Sound E i K (on_hello_message E p hello) := by
  have parsed : Sound E i K (change (·.modify_peer (O := O) p (·.parse_hello hello))) :=
    sound_modify fun now peer => { PeerConnection.Less.refl now peer with }
  have rejected (reason_code : RejectionReasonCode) (reason : String) :
      Sound E i K (change (·.reject (O := O) p reason_code reason)) :=
    sound_change fun s _ _ => mild_reject s p reason_code reason
  have answered (already : Bool) : Sound E i K (change (·.accept_or_reject (O := O) p already)) := by
    refine sound_change fun s _ _ => ?_
    unfold NodeState.accept_or_reject
    split
    · split <;> exact mild_reject s p _ _
    · split
      · exact .tail (.single (mild_modify { PeerConnection.Less.refl s.now (s.peers p) with })) ⟨.note _ trivial,fun _ => rfl⟩
      · exact mild_reject s p _ _
  unfold on_hello_message
  refine keeps_seq inferInstance fun s => ?_
  simp only
  split
  · infer_instance
  · refine keeps_seq inferInstance fun _ => keeps_seq inferInstance fun s => ?_
    split
    · infer_instance
    split
    · infer_instance
    split
    · infer_instance
    · refine keeps_seq inferInstance fun head_block_num => ?_
      split <;> infer_instance

instance sound_accepted (p : Nat) : Sound E i K (change (·.on_connection_accepted_message (O := O) p)) :=
  sound_change fun s _ _ =>
    .tail (.single (mild_modify { PeerConnection.Less.refl s.now (s.peers p) with })) ⟨.note _ trivial,fun _ => rfl⟩

instance sound_rejected (p : Nat) (reason_code : RejectionReasonCode) :
    Sound E i K (on_connection_rejected_message (O := O) p reason_code) := by
  have moved : Sound E i K (change (·.move_peer_to_closing_list (O := O) p)) :=
    sound_aside fun s => ⟨.of_eq rfl rfl rfl rfl rfl rfl,rfl⟩
  have noted : Sound E i K (change (·.modify_peer (O := O) p fun peer => { peer with our_state := .connection_rejected })) :=
    sound_modify fun now peer => { PeerConnection.Less.refl now peer with }
  have sent : Sound E i K (change (·.send_message (O := O) p .address_request)) := sound_send fun _ => trivial
  unfold on_connection_rejected_message
  infer_instance

instance sound_address (p : Nat) : Sound E i K (on_address_message (O := O) p) := by
  have moved : Sound E i K (change (·.move_peer_to_active_list (O := O) p)) :=
    sound_aside fun s => ⟨.of_eq rfl rfl rfl rfl rfl rfl,rfl⟩
  unfold on_address_message
  infer_instance

end

/-! ### The reader of a peer -/

section
variable {p : Nat} {messages : List (Message O)}

/-- The items of a message are heard of, one by one. -/
theorem mild_hear_of_items {item_type : Nat} (hashes : List BlockId) {s : NodeState O}
    (announced : ∀ h ∈ hashes, Announced s.log p ⟨item_type,h⟩) :
    ReflTransGen (Mild E (.reader p)) s (s.hear_of_items p item_type hashes) := by
  induction hashes generalizing s with
  | nil => exact .refl
  | cons h rest ih =>
    have heard : Mild E (.reader p) s (s.modify_peer p fun peer => { peer with
        inventory_peer_advertised_to_us := insert_item ⟨item_type,h⟩ s.now peer.inventory_peer_advertised_to_us }) :=
      ⟨.hear (announced h List.mem_cons_self),NodeState.modify_peer_field (·.rescheduled) rfl⟩
    have others : ∀ h ∈ rest, Announced s.log p ⟨item_type,h⟩ := fun h member => announced h (List.mem_cons_of_mem _ member)
    unfold NodeState.hear_of_items
    simp only
    split
    · exact ih others
    split
    · exact .refl
    split
    · exact .head heard (ih fun h member => others h member)
    split
    · refine .head heard (.head ?_ (ih fun h member => others h member))
      exact mild_aside ⟨.of_eq rfl rfl rfl rfl rfl rfl,rfl⟩
    · refine .head heard (.head ?_ (ih fun h member => others h member))
      exact mild_aside (aside_fetch_item_later _ _)

theorem sound_item_ids_inventory {item_type : Nat} {hashes : List BlockId}
    (received : .item_ids_inventory item_type hashes ∈ messages) :
    Sound E (.reader p) (Known p messages) (change (·.on_item_ids_inventory_message p item_type hashes)) := by
  refine sound_change fun s _ known => .head (mild_modify (less_clear s.now (s.peers p))) ?_
  exact mild_hear_of_items hashes fun h member => ⟨_,known.2 _ received,rfl,member⟩

/-- What was requested from a peer is free. -/
theorem changes_reschedule {s : NodeState O} (unsettled : (s.peers p).rescheduled = false) :
    ReflTransGen (Change E (.reader p)) s (s.reschedule p) := by
  have later (items : List ItemId) (s : NodeState O) := mild_foldl (E := E) (i := .reader p) (f := fun s item =>
    if s.is_item_in_any_peers_inventory item then s.fetch_item_later item else s) (fun s item => by
      split
      · exact .single (mild_aside (aside_fetch_item_later s item))
      · exact .refl) items s
  have freed := (later (s.peers p).items_requested_from_peer (s.free_sync_requests p)).lift id fun _ _ mild => mild.1
  refine .head (.settle unsettled) (freed.tail (.less (.of_eq rfl rfl rfl rfl rfl rfl) fun q => ?_))
  exact .refl _ _

/-- The end of a connection. -/
theorem safe_connection_closed {s : NodeState O} (known : Known p messages s) :
    Safe (Inv E) (Rely (.reader p)) (Change E (.reader p)) (fun _ _ => True) (fun _ _ => True) (on_connection_closed p) s := by
  have closing : Mild E (.reader p) s { s.modify_peer p fun peer => { peer with read_loop := .closing } with
      _closing_connections := s._closing_connections.filter (· ≠ p)
      _handshaking_connections := s._handshaking_connections.filter (· ≠ p)
      _terminating_connections := s._terminating_connections.filter (· ≠ p)
      _active_connections := s._active_connections.filter (· ≠ p) } :=
    mild_less (.of_eq rfl rfl rfl rfl rfl rfl) fun q => by
      by_cases here : q = p
      · subst here
        simp only [NodeState.modify_peer_self]
        exact { PeerConnection.Less.refl s.now (s.peers q) with rescheduled := known.1.symm ▸ rfl }
      · simp only [NodeState.modify_peer_other _ _ here]
        exact .refl _ _
  have counted : Sound E (.reader p) (Known p messages) (change fun s : NodeState O => { s with
      _last_reported_number_of_connections := s._active_connections.length }) :=
    sound_aside fun s => ⟨.of_eq rfl rfl rfl rfl rfl rfl,rfl⟩
  refine safe_change fun _ => ⟨.single closing.1,safe_state fun _ => ?_⟩
  have still := Mild.steady (K := Known p messages) (.single closing) known
  refine safe_bind.mpr ((Keeps.safe (I := Inv E) (R := Rely (.reader p)) (G := Change E (.reader p))
    (K := Known p messages) _ still).mono (fun _ s known _ => ⟨changes_reschedule known.1,trivial⟩) fun _ _ _ => trivial)

/-- A message that has just come. -/
theorem safe_message {m : Message O} {s : NodeState O} (known : Known p [m] s) {past : List (Event O)}
    (came : s.log = .received p m :: past) :
    Safe (Inv E) (Rely (.reader p)) (Change E (.reader p)) (fun _ => Known p [m]) (fun _ => Known p [m]) (on_message E p m) s := by
  have by_knowledge {t : Code O Unit} (sound : Sound E (.reader p) (Known p [m]) t) :=
    sound.safe s known
  have sent (reply : Message O) (plain : ∀ now, (Event.queued p now (.real_queued_message reply)).Plain) :
      Sound E (.reader p) (Known p [m]) (change (·.send_message p reply)) := sound_send plain
  cases m with
  | item i =>
    cases i with
    | block b => exact safe_block known came
    | trx trx => exact safe_ordinary known came
    | ordinary msg_type content =>
      unfold on_message
      simp only
      split
      · exact known
      · exact safe_ordinary known came
  | hello hello => exact by_knowledge (sound_hello p hello)
  | connection_accepted => exact by_knowledge (sound_accepted p)
  | connection_rejected reason_code reason => exact by_knowledge (sound_rejected p reason_code)
  | address_request => exact by_knowledge (sent .address fun _ => trivial)
  | address => exact by_knowledge (sound_address p)
  | fetch_blockchain_item_ids item_type synopsis => exact by_knowledge (sound_fetch_ids p item_type synopsis)
  | blockchain_item_ids_inventory total item_type ids =>
    exact by_knowledge (sound_ids_inventory List.mem_cons_self)
  | fetch_items item_type hashes => exact by_knowledge (sound_fetch_items p item_type hashes)
  | item_not_available item => exact by_knowledge (sound_not_available p item)
  | item_ids_inventory item_type hashes => exact by_knowledge (sound_item_ids_inventory List.mem_cons_self)
  | closing_connection reason error => exact by_knowledge (sound_closing_connection p error)
  | current_time_request => exact by_knowledge (sent .current_time_reply fun _ => trivial)
  | current_time_reply => exact known

/-- An exception ends the loop. -/
theorem safe_handler {s : NodeState O} (known : Known p messages s) (e : Exc) :
    Safe (Inv E) (Rely (.reader p)) (Change E (.reader p)) (fun _ _ => True) (fun _ _ => True)
      (if e = .canceled_exception then change (·.modify_peer p fun peer => { peer with read_loop := .canceled })
        else on_connection_closed p) s := by
  split
  · refine fun _ => ⟨.single (mild_modify (E := E) (i := .reader p) ?_).1,trivial⟩
    exact { PeerConnection.Less.refl s.now (s.peers p) with rescheduled := known.1.symm ▸ rfl }
  · exact safe_connection_closed known

theorem safe_read_message {m : Message O} {s : NodeState O} (running : (s.peers p).read_loop = .running) :
    Safe (Inv E) (Rely (.reader p)) (Change E (.reader p)) (fun _ _ => True) (fun _ _ => True) (read_message E p m) s := by
  have unsettled : (s.peers p).rescheduled = false := by simp [PeerConnection.rescheduled,running]
  refine safe_change fun _ => ⟨.single (.note _ trivial),safe_handle.mpr ?_⟩
  have known : Known p [m] (s.note (.received p m)) :=
    ⟨unsettled,fun _ member => List.mem_singleton.mp member ▸ List.mem_cons_self⟩
  exact (safe_message known rfl).mono (fun _ _ _ => trivial) fun e s known => safe_handler known e

end

end Decent.Net

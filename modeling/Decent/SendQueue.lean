import Decent.StcpSocket
import Mathlib.Data.List.Forall2

/-!
The queue of messages in front of a connection. Messages are queued by any task at any time, also
while the task that sends them waits for the socket; that task takes them from the front, one at a
time, and a message leaves the queue when it has been written. What arrives at the other end is the
front of all that was queued, in order, each message once.
-/
namespace Decent.Connection
open Chaining

variable {Item : Type}

/-- `peer_connection::queued_message`: a message, or an item that the node is asked for when it is sent. -/
inductive QueuedMessage (Item : Type)
  | real (message_to_send : Message) (message_send_time_field_offset : Option Nat)
  | virtual (item_to_send : Item)

/-- What a message is made of when it is sent: the packed time, and `get_message_for_item_optimized`. -/
structure Moment (Item : Type) where
  packed_current_time : List UInt8
  get_message_for_item : Item → Except Exc Message

namespace QueuedMessage

/-- `get_message` -/
def get_message (moment : Moment Item) : QueuedMessage Item → Except Exc Message
  | .real message_to_send none => .ok message_to_send
  | .real message_to_send (some offset) =>
    .ok { message_to_send with data := overwrite message_to_send.data offset moment.packed_current_time }
  | .virtual item_to_send => moment.get_message_for_item item_to_send

/-- `get_size_in_queue`; an `item_id` is a word and a hash. -/
def get_size_in_queue : QueuedMessage Item → Nat
  | .real message_to_send _ => message_to_send.data.length
  | .virtual _ => 24

end QueuedMessage

def GRAPHENE_NET_MAXIMUM_QUEUED_MESSAGES_IN_BYTES : Nat := 1024 * 1024

/-- A message that was given to the socket, with what the memory held that its frame is put together in. -/
abbrev Framed := Message × (Nat → UInt8)

/-- Of a `peer_connection` what sends messages. `sending` is the message that the task has given to the socket, and
    `opened` whether that was open then. No code reads `all` and `sent`, statements do: what was ever queued, and
    what was written. -/
structure Outgoing (Item : Type) where
  _queued_messages : List (QueuedMessage Item)
  _total_queued_messages_size : Nat
  running : Bool
  sending : Option Message
  opened : Bool
  closed : Bool
  socket : Sending
  all : List (QueuedMessage Item)
  sent : List Framed

def Outgoing.start (socket : Sending) : Outgoing Item := ⟨[],0,false,none,false,false,socket,[],[]⟩

/-- `peer_connection::send_queueable_message`. The task is started unless it runs. -/
def send_queueable_message (message_to_send : QueuedMessage Item) (s : Outgoing Item) : Outgoing Item :=
  let s := { s with
    _total_queued_messages_size := s._total_queued_messages_size + message_to_send.get_size_in_queue
    _queued_messages := s._queued_messages ++ [message_to_send]
    all := s.all ++ [message_to_send] }
  if s._total_queued_messages_size > GRAPHENE_NET_MAXIMUM_QUEUED_MESSAGES_IN_BYTES then
    { s with closed := true }
  else
    { s with running := true }

/-- The start of a round of `send_queued_messages_task`. An exception of `get_message` ends the task. -/
def begin_sending (moment : Moment Item) (s : Outgoing Item) : Option (Outgoing Item) :=
  match s.running, s.sending, s._queued_messages with
  | true, none, front :: _ =>
    match front.get_message moment with
    | .ok m => some { s with sending := some m, opened := !s.closed }
    | .error _ => some { s with running := false }
  | _, _, _ => none

section
variable (C : BlockCipher AES_BLOCK_SIZE)

/-- The end of a round: the frame is written, and the task goes on while there are messages. -/
def finish_sending (garbage : Nat → UInt8) (s : Outgoing Item) : Option (Outgoing Item) :=
  match s.sending, s.opened, s._queued_messages with
  | some m, true, front :: rest => some { s with
    _queued_messages := rest
    _total_queued_messages_size := s._total_queued_messages_size - front.get_size_in_queue
    running := !rest.isEmpty
    sending := none
    socket := stcp_send_message C (m,garbage) s.socket
    sent := s.sent ++ [(m,garbage)] }
  | _, _, _ => none

/-- `send_message` throws when some bytes of the frame are written, none if the socket was closed before: the
    connection is closed and the task returns, while the message stays in the queue. -/
def fail_sending (garbage : Nat → UInt8) (written : Nat) (s : Outgoing Item) : Option (Outgoing Item) :=
  match s.sending with
  | some m =>
    let socket := stcp_send_message C (m,garbage) s.socket
    some { s with
      closed := true
      running := false
      sending := none
      socket := if s.opened then { socket with wire := socket.wire.take (s.socket.wire.length + written) } else s.socket }
  | none => none

/-- A message is built with the size of its data, and none is longer than the other end takes. -/
def SizedAt (s : Outgoing Item) (moment : Moment Item) : Prop :=
  ∀ front ∈ s._queued_messages.head?, ∀ m, front.get_message moment = .ok m → m.Sized

/-- What can happen between two moments at which other tasks run. -/
inductive SendStep : Outgoing Item → Outgoing Item → Prop
  | send_queueable_message {s : Outgoing Item} (message_to_send : QueuedMessage Item) :
      SendStep s (send_queueable_message message_to_send s)
  | begin_sending {s s' : Outgoing Item} (moment : Moment Item) : SizedAt s moment → begin_sending moment s = some s' → SendStep s s'
  | finish_sending {s s' : Outgoing Item} (garbage : Nat → UInt8) : finish_sending C garbage s = some s' → SendStep s s'
  | fail_sending {s s' : Outgoing Item} (garbage : Nat → UInt8) (written : Nat) :
      fail_sending C garbage written s = some s' → SendStep s s'

/-- The states that a connection comes to. -/
inductive Sends (start : Sending) : Outgoing Item → Prop
  | start : Sends start (.start start)
  | step {s s' : Outgoing Item} : Sends start s → SendStep C s s' → Sends start s'

/-- The message is what the queued one was when it was sent. -/
def Given (q : QueuedMessage Item) (m : Message) : Prop := ∃ moment, q.get_message moment = .ok m

/-- The socket after some messages. -/
def after_sent (start : Sending) (sent : List Framed) : Sending := sent.foldl (fun s p => stcp_send_message C p s) start

/-- The bytes on the wire are those of what was sent, and of a part of the next message once the connection is closed. -/
structure Written (start : Sending) (s : Outgoing Item) (more : List Framed) (n : Nat) : Prop where
  wire : s.socket.wire = (after_sent C start (s.sent ++ more)).wire.take n
  enough : (after_sent C start s.sent).wire.length ≤ n
  next : more = [] ∨ s.closed = true ∧ (s.sending.isSome → s.opened = false) ∧
    ∃ p front rest, more = [p] ∧ s._queued_messages = front :: rest ∧ Given front p.1 ∧ p.1.Sized

/-- What was sent are the messages queued first, in their order. -/
structure InOrder (start : Sending) (s : Outgoing Item) : Prop where
  order : ∃ done, s.all = done ++ s._queued_messages ∧ List.Forall₂ (fun q p => Given q p.1) done s.sent
  sized : ∀ p ∈ s.sent, p.1.Sized
  total : s._total_queued_messages_size = (s._queued_messages.map QueuedMessage.get_size_in_queue).sum
  sending : ∀ m, s.sending = some m → m.Sized ∧ ∃ front rest, s._queued_messages = front :: rest ∧ Given front m
  whole : s.closed = false ∨ s.sending.isSome ∧ s.opened = true → s.socket = after_sent C start s.sent
  opened : s.sending.isSome → s.closed = false → s.opened = true
  written : ∃ more n, Written C start s more n

theorem after_sent_append (start : Sending) (sent : List Framed) (p : Framed) :
    after_sent C start (sent ++ [p]) = stcp_send_message C p (after_sent C start sent) := by
  rw [after_sent,List.foldl_append]
  rfl

variable {C}

theorem written_whole {start : Sending} {s : Outgoing Item} (whole : s.socket = after_sent C start s.sent) :
    Written C start s [] (after_sent C start s.sent).wire.length where
  wire := by rw [whole,List.append_nil,List.take_length]
  enough := Nat.le_refl _
  next := .inl rfl

theorem inOrder_start (start : Sending) : InOrder C start (.start start : Outgoing Item) where
  order := ⟨[],rfl,.nil⟩
  sized _ member := by cases member
  total := rfl
  sending _ sending := by cases sending
  whole _ := rfl
  opened sending := by cases sending
  written := ⟨[],_,written_whole rfl⟩

theorem inOrder_queue {start : Sending} {s : Outgoing Item} (inOrder : InOrder C start s) (q : QueuedMessage Item) :
    InOrder C start (send_queueable_message q s) := by
  obtain ⟨done,all,given⟩ := inOrder.order
  obtain ⟨more,n,written⟩ := inOrder.written
  -- the queue grows behind its front
  have queue {closed running : Bool} (later : s.closed = true → closed = true) : InOrder C start { s with
      _total_queued_messages_size := s._total_queued_messages_size + q.get_size_in_queue
      _queued_messages := s._queued_messages ++ [q]
      all := s.all ++ [q]
      closed := closed
      running := running } := by
    have before : closed = false → s.closed = false := fun isOpen => by
      cases isClosed : s.closed with
      | false => rfl
      | true => rw [later isClosed] at isOpen; cases isOpen
    refine ⟨⟨done,?_,given⟩,inOrder.sized,?_,fun m sending => ?_,fun whole => inOrder.whole (whole.imp before id),
      fun sending isOpen => inOrder.opened sending (before isOpen),⟨more,n,written.wire,written.enough,?_⟩⟩
    · rw [all,List.append_assoc]
    · rw [List.map_append,List.sum_append,inOrder.total]
      rfl
    · obtain ⟨sized,front,rest,queued,isGiven⟩ := inOrder.sending m sending
      exact ⟨sized,front,rest ++ [q],by rw [queued]; rfl,isGiven⟩
    · refine written.next.imp id fun ⟨isClosed,unopened,p,front,rest,one,queued,isGiven⟩ => ?_
      exact ⟨later isClosed,unopened,p,front,rest ++ [q],one,by rw [queued]; rfl,isGiven⟩
  unfold send_queueable_message
  dsimp only
  split
  · exact queue fun _ => rfl
  · exact queue id

theorem inOrder_begin {start : Sending} {s s' : Outgoing Item} (inOrder : InOrder C start s) {moment : Moment Item}
    (sized : SizedAt s moment) (step : begin_sending moment s = some s') : InOrder C start s' := by
  obtain ⟨more,n,written⟩ := inOrder.written
  unfold begin_sending at step
  split at step
  case h_2 => cases step
  case h_1 front rest running idle queued =>
    split at step
    case h_1 m made =>
      cases step
      refine ⟨inOrder.order,inOrder.sized,inOrder.total,fun m' sending => ?_,fun whole => inOrder.whole ?_,fun _ isOpen => ?_,
        ⟨more,n,written.wire,written.enough,?_⟩⟩
      · obtain rfl := Option.some.inj sending
        exact ⟨sized front (by rw [queued]; rfl) m made,front,rest,queued,moment,made⟩
      · refine .inl (whole.elim id fun ⟨_,opened⟩ => ?_)
        cases isClosed : s.closed with
        | false => rfl
        | true => rw [isClosed] at opened; cases opened
      · show (!s.closed) = true
        rw [show s.closed = false from isOpen]
        rfl
      · exact written.next.imp id fun ⟨isClosed,_,rest⟩ => ⟨isClosed,fun _ => by rw [isClosed]; rfl,rest⟩
    case h_2 =>
      cases step
      exact ⟨inOrder.order,inOrder.sized,inOrder.total,inOrder.sending,inOrder.whole,inOrder.opened,more,n,written.wire,
        written.enough,written.next⟩

theorem inOrder_finish {start : Sending} {s s' : Outgoing Item} (inOrder : InOrder C start s) {garbage : Nat → UInt8}
    (step : finish_sending C garbage s = some s') : InOrder C start s' := by
  obtain ⟨done,all,given⟩ := inOrder.order
  unfold finish_sending at step
  split at step
  case h_2 => cases step
  case h_1 m front rest sending opened queued =>
    cases step
    obtain ⟨sized,front',rest',queued',isGiven⟩ := inOrder.sending m sending
    obtain ⟨rfl,rfl⟩ := List.cons.inj (queued.symm.trans queued')
    have whole := inOrder.whole (.inr ⟨by rw [sending]; rfl,opened⟩)
    have whole' : stcp_send_message C (m,garbage) s.socket = after_sent C start (s.sent ++ [(m,garbage)]) := by
      rw [after_sent_append,whole]
    refine ⟨⟨done ++ [front],?_,?_⟩,?_,?_,fun _ idle => (by cases idle),fun _ => whole',fun idle => (by cases idle),
      ⟨[],_,written_whole whole'⟩⟩
    · rw [all,queued,List.append_assoc]
      rfl
    · exact List.rel_append given (.cons isGiven .nil)
    · intro p member
      rcases List.mem_append.mp member with before | here
      · exact inOrder.sized p before
      · obtain rfl := List.mem_singleton.mp here
        exact sized
    · show s._total_queued_messages_size - front.get_size_in_queue = _
      rw [inOrder.total,queued,List.map_cons,List.sum_cons,Nat.add_sub_cancel_left]

theorem inOrder_fail {start : Sending} {s s' : Outgoing Item} (inOrder : InOrder C start s) {garbage : Nat → UInt8} {count : Nat}
    (step : fail_sending C garbage count s = some s') : InOrder C start s' := by
  obtain ⟨more,n,written⟩ := inOrder.written
  unfold fail_sending at step
  split at step
  case h_2 => cases step
  case h_1 m sending =>
    cases step
    obtain ⟨sized,front,rest,queued,isGiven⟩ := inOrder.sending m sending
    refine ⟨inOrder.order,inOrder.sized,inOrder.total,fun _ idle => (by cases idle),fun whole => ?_,fun idle => (by cases idle),?_⟩
    · rcases whole with isOpen | ⟨idle,_⟩
      · cases isOpen
      · cases idle
    · by_cases opened : s.opened = true
      · have whole := inOrder.whole (.inr ⟨by rw [sending]; rfl,opened⟩)
        refine ⟨[(m,garbage)],(after_sent C start s.sent).wire.length + count,?_,Nat.le_add_right ..,
          .inr ⟨rfl,fun idle => (by cases idle),_,front,rest,rfl,queued,isGiven,sized⟩⟩
        rw [if_pos opened,after_sent_append,whole]
      · refine ⟨more,n,?_,written.enough,?_⟩
        · rw [if_neg opened]
          exact written.wire
        · exact written.next.imp id fun ⟨_,_,rest⟩ => ⟨rfl,fun idle => (by cases idle),rest⟩

theorem Sends.inOrder {start : Sending} {s : Outgoing Item} (sends : Sends C start s) : InOrder C start s := by
  induction sends with
  | start => exact inOrder_start start
  | step _ step ih =>
    cases step with
    | send_queueable_message q => exact inOrder_queue ih q
    | begin_sending moment sized began => exact inOrder_begin ih sized began
    | finish_sending garbage finished => exact inOrder_finish ih finished
    | fail_sending garbage count failed => exact inOrder_fail ih failed

end

/-! ### The other end -/

theorem length_after_sent (C : BlockCipher AES_BLOCK_SIZE) {start : Sending} (keyed : start.send_aes.length = AES_BLOCK_SIZE)
    {sent : List Framed} (sized : ∀ p ∈ sent, p.1.Sized) :
    (after_sent C start sent).wire.length = start.wire.length + (wire sent).length := by
  have whole := Nat.mul_div_cancel' (length_wire sized)
  rw [after_sent,foldl_send_message C sized,List.length_append,(length_encode keyed (Nat.le_of_eq whole)).1,whole]

/-- What was sent, and what may have been sent in part, are the messages queued first. -/
theorem InOrder.first {C : BlockCipher AES_BLOCK_SIZE} {start : Sending} {s : Outgoing Item} (inOrder : InOrder C start s)
    {more : List Framed} {n : Nat} (written : Written C start s more n) :
    (∃ done behind, s.all = done ++ behind ∧ List.Forall₂ (fun q p => Given q p.1) done (s.sent ++ more)) ∧
      ∀ p ∈ s.sent ++ more, p.1.Sized := by
  obtain ⟨done,all,given⟩ := inOrder.order
  rcases written.next with rfl | ⟨_,_,p,front,rest,rfl,queued,isGiven,sized⟩
  · rw [List.append_nil]
    exact ⟨⟨done,_,all,given⟩,inOrder.sized⟩
  · refine ⟨⟨done ++ [front],rest,by rw [all,queued,List.append_assoc]; rfl,List.rel_append given (.cons isGiven .nil)⟩,?_⟩
    intro q member
    rcases List.mem_append.mp member with before | here
    · exact inOrder.sized q before
    · obtain rfl := List.mem_singleton.mp here
      exact sized

/-- From the queue of one end to the delegate of the other: however tasks queue messages while others are sent, whatever
    fails, and in whatever pieces the bytes come that come, the delegate is handed the messages that were queued first, in
    their order, none twice and none left out; and all that were sent, if all bytes have come. -/
theorem queued_messages_arrive {σ : Type} (X : KeyExchange) (a b : X.PrivateKey) {s : Outgoing Item}
    (sends : Sends (X.aes (X.get_shared_secret a (X.public_key b))) (exchanged X a (X.public_key b)) s) (count : Nat)
    (arrivals : List Nat) (on_message : Message → EStateM Exc σ Unit) (before : Message) (delegate : σ) :
    ∃ messages, List.Forall₂ Given (s.all.take messages.length) messages ∧
      (s.socket.wire.length ≤ KEY_SIZE + count → s.sent.length ≤ messages.length) ∧
      (accept X b on_message before ⟨s.socket.wire.take (KEY_SIZE + count),arrivals⟩ delegate).map Ended.seen =
        .ok (closed_after on_message messages delegate) := by
  have inOrder := sends.inOrder
  obtain ⟨more,n,written⟩ := inOrder.written
  obtain ⟨⟨done,behind,all,given⟩,sized⟩ := inOrder.first written
  have keyed : (exchanged X a (X.public_key b)).send_aes.length = AES_BLOCK_SIZE := X.length_init _
  have key : (exchanged X a (X.public_key b)).wire.length = KEY_SIZE := X.length_public_key a
  have sentLength := length_after_sent (X.aes (X.get_shared_secret a (X.public_key b))) keyed inOrder.sized
  have allLength := length_after_sent (X.aes (X.get_shared_secret a (X.public_key b))) keyed sized
  have enough := written.enough
  rw [sentLength,key] at enough
  rw [key] at allLength
  have part : (wire s.sent).length ≤ (wire (s.sent ++ more)).length := by
    rw [wire,wire,List.flatMap_append,List.length_append]
    exact Nat.le_add_right ..
  -- the bytes that have come, as a part of those of all that was given to the socket
  have incoming : s.socket.wire.take (KEY_SIZE + count) =
      (transmitted X a (X.public_key b) (s.sent ++ more)).take (KEY_SIZE + min count (n - KEY_SIZE)) := by
    rw [written.wire,List.take_take]
    refine congrArg (fun m => List.take m _) ?_
    omega
  obtain ⟨k,fits,next,seen⟩ := sent_messages_arrive X a b sized (min count (n - KEY_SIZE)) arrivals on_message before delegate
  rw [← incoming] at seen
  refine ⟨_,?_,fun came => ?_,seen⟩
  · have taken : s.all.take (((s.sent ++ more).take k).map Prod.fst).length = done.take k := by
      rw [List.length_map,List.length_take,← given.length_eq,all,List.take_append_of_le_length (Nat.min_le_right ..)]
      exact (List.take_eq_take_min ..).symm
    rw [taken,List.forall₂_map_right_iff]
    exact List.forall₂_take k given
  · have length : s.socket.wire.length = min n (KEY_SIZE + (wire (s.sent ++ more)).length) := by
      rw [written.wire,List.length_take,allLength]
    rw [List.length_map,List.length_take,List.length_append]
    by_contra few
    -- otherwise the next frame of what was sent would not have come
    have inside : k < s.sent.length := by omega
    have missing := next _ (by rw [List.getElem?_append_left inside]; exact List.getElem?_eq_getElem inside)
    rw [List.take_append_of_le_length (show k + 1 ≤ s.sent.length from inside)] at missing
    have whole := length_wire_take s.sent (k + 1)
    omega

/-- A cipher that turns its blocks around, and keys that are added to each other. -/
def turning : BlockCipher AES_BLOCK_SIZE :=
  ⟨List.reverse,List.reverse,fun length => by rw [List.length_reverse,length],fun length => by rw [List.length_reverse,length],
    fun _ => List.reverse_reverse _⟩

def adding : KeyExchange where
  PrivateKey := UInt8
  Secret := UInt8
  public_key key := List.replicate KEY_SIZE key
  get_shared_secret key rpub := key + rpub.headD 0
  aes _ := turning
  init secret := List.replicate AES_BLOCK_SIZE secret
  length_public_key _ := List.length_replicate
  length_init _ := List.length_replicate
  shared a b := UInt8.add_comm a b

def greeting : Message := ⟨⟨9,6⟩,[1,2,3,4,5,6,7,8,9]⟩

def quiet_moment : Moment Nat := ⟨[],fun _ => .error .exception⟩

/-- One end has sent the message and queued another. -/
def greeted : Outgoing Nat :=
  send_queueable_message (.virtual 1) (((begin_sending quiet_moment (send_queueable_message (.real greeting none)
    (.start (exchanged adding (3 : UInt8) (adding.public_key (4 : UInt8)))))).bind (finish_sending turning fun _ => 255)).getD
      (.start ⟨[],[]⟩))

theorem sends_greeted : Sends turning (exchanged adding (3 : UInt8) (adding.public_key (4 : UInt8))) greeted := by
  refine .step (.step (.step (.step .start (.send_queueable_message (.real greeting none)))
    (.begin_sending quiet_moment ?_ rfl)) (.finish_sending (fun _ => 255) rfl)) (.send_queueable_message (.virtual 1))
  rintro front ⟨⟩ m made
  cases made
  decide

/-- The bytes come in pieces of five, of twenty and more. -/
theorem greeting_arrives : ∃ messages, List.Forall₂ Given (greeted.all.take messages.length) messages ∧
    (greeted.socket.wire.length ≤ KEY_SIZE + 40 → greeted.sent.length ≤ messages.length) ∧
    (accept adding (4 : UInt8) noting ⟨⟨0,0⟩,[]⟩ ⟨greeted.socket.wire.take (KEY_SIZE + 40),[5,20,8,3]⟩ []).map Ended.seen =
      .ok (closed_after noting messages []) :=
  queued_messages_arrive adding (3 : UInt8) (4 : UInt8) sends_greeted 40 [5,20,8,3] noting _ []

example : (accept adding (4 : UInt8) noting ⟨⟨0,0⟩,[]⟩ ⟨greeted.socket.wire,[5,20,8,3]⟩ []).map Ended.seen =
    .ok ([greeting],true,none) := by
  decide +kernel

end Decent.Connection

import Decent.Lib.Throwing
import Mathlib.Tactic.Ring

/-!
The frames of a connection. A message goes out as its header and its data, padded to whole
blocks of 16 bytes. The reader takes one block, which holds the header and the first of the data, and then
as many blocks as are left.
-/
namespace Decent.Connection
open Throwing

/-- What ends the loop of a reader. -/
inductive Exc
  | canceled_exception
  | eof_exception
  | exception
deriving DecidableEq

def BUFFER_SIZE : Nat := 16

/-- `sizeof(message_header)` -/
def HEADER_SIZE : Nat := 8

def LEFTOVER : Nat := BUFFER_SIZE - HEADER_SIZE

def MAX_MESSAGE_SIZE : UInt32 := 1024 * 1024 * 2

structure MessageHeader where
  size : UInt32
  msg_type : UInt32
deriving DecidableEq

structure Message extends MessageHeader where
  data : List UInt8
deriving DecidableEq

/-! ### Memory -/

/-- The four bytes of a number, the lowest first. -/
def word_bytes (v : UInt32) : List UInt8 :=
  [.ofNat v.toNat,.ofNat (v.toNat / 2^8),.ofNat (v.toNat / 2^16),.ofNat (v.toNat / 2^24)]

def word_at (b₀ b₁ b₂ b₃ : UInt8) : UInt32 :=
  .ofNat (b₀.toNat + 2^8 * b₁.toNat + 2^16 * b₂.toNat + 2^24 * b₃.toNat)

/-- A header as it lies in memory. -/
def MessageHeader.bytes (h : MessageHeader) : List UInt8 := word_bytes h.size ++ word_bytes h.msg_type

/-- `memcpy` of a header out of a buffer. -/
def MessageHeader.of_bytes : List UInt8 → MessageHeader
  | b₀ :: b₁ :: b₂ :: b₃ :: b₄ :: b₅ :: b₆ :: b₇ :: _ => ⟨word_at b₀ b₁ b₂ b₃,word_at b₄ b₅ b₆ b₇⟩
  | _ => ⟨0,0⟩

/-- `std::vector<char>::resize` -/
def resize (data : List UInt8) (n : Nat) : List UInt8 := data.take n ++ List.replicate (n - data.length) 0

/-- Bytes copied to a place. -/
def overwrite (data : List UInt8) (place : Nat) (bytes : List UInt8) : List UInt8 :=
  data.take place ++ bytes ++ data.drop (place + bytes.length)

theorem word_at_bytes (v : UInt32) : word_at (.ofNat v.toNat) (.ofNat (v.toNat / 2^8)) (.ofNat (v.toNat / 2^16))
    (.ofNat (v.toNat / 2^24)) = v := by
  apply UInt32.toNat_inj.mp
  have below := v.toNat_lt
  simp only [word_at,UInt8.toNat_ofNat',UInt32.toNat_ofNat']
  omega

@[simp] theorem MessageHeader.length_bytes (h : MessageHeader) : h.bytes.length = HEADER_SIZE := rfl

/-- A header is read as it was written, whatever follows. -/
theorem MessageHeader.of_bytes_append (h : MessageHeader) (rest : List UInt8) :
    MessageHeader.of_bytes (h.bytes ++ rest) = h := by
  cases h
  simp only [MessageHeader.bytes,word_bytes,List.cons_append,List.nil_append,MessageHeader.of_bytes,word_at_bytes]

/-! ### Sending -/

/-- `message_oriented_connection_impl::send_message`: the bytes that go to the socket. The memory they
    are put together in is not cleared, and holds `garbage` before. -/
def send_message (garbage : Nat → UInt8) (message_to_send : Message) : List UInt8 :=
  let size_of_message_and_header := HEADER_SIZE + message_to_send.size.toNat
  let size_with_padding := 16 * ((size_of_message_and_header + 15) / 16)
  let padded_message := (List.range size_with_padding).map garbage
  let padded_message := overwrite padded_message 0 message_to_send.toMessageHeader.bytes
  overwrite padded_message HEADER_SIZE (message_to_send.data.take message_to_send.size.toNat)

/-! ### Reading -/

/-- `tcp_socket::read`: as many bytes as are asked for, of those that are still to come. -/
def sock_read (n : Nat) : EStateM Exc (List UInt8) (List UInt8) := fun wire =>
  if n ≤ wire.length then .ok (wire.take n) (wire.drop n) else .error .eof_exception []

/-- The padded bytes that the first block does not hold, read behind those it does. -/
def read_remaining (remaining_bytes_with_padding : Nat) (data : List UInt8) : EStateM Exc (List UInt8) (List UInt8) :=
  if remaining_bytes_with_padding ≠ 0 then do
    let bytes ← sock_read remaining_bytes_with_padding
    return overwrite data LEFTOVER bytes
  else
    return data

/-- One round of `read_loop`, up to the call of the delegate. The message is read into the one
    before. -/
def read_message (m : Message) : EStateM Exc (List UInt8) Message := do
  let buffer ← sock_read BUFFER_SIZE
  let header := MessageHeader.of_bytes buffer
  if header.size ≤ MAX_MESSAGE_SIZE then
    let remaining_bytes_with_padding : UInt32 := 16 * ((header.size - LEFTOVER.toUInt32 + 15) / 16)
    let data := resize m.data (LEFTOVER + remaining_bytes_with_padding.toNat)
    let data ← read_remaining remaining_bytes_with_padding.toNat (overwrite data 0 (buffer.drop HEADER_SIZE))
    return { header with data := resize data header.size.toNat }
  else
    throw .exception

/-- What was on the wire is only taken from. -/
def Taken (wire wire' : List UInt8) : Prop := wire'.length ≤ wire.length

instance taken_composes : Composes Taken where
  refl _ := Nat.le_refl _
  trans first second := Nat.le_trans second first

theorem run_sock_read (n : Nat) (wire : List UInt8) : EStateM.run (sock_read n) wire =
    if n ≤ wire.length then .ok (wire.take n) (wire.drop n) else .error .eof_exception [] := rfl

theorem sock_read_ok {n : Nat} {wire wire' bytes : List UInt8} :
    EStateM.run (sock_read n) wire = .ok bytes wire' ↔ wire = bytes ++ wire' ∧ bytes.length = n := by
  rw [run_sock_read]
  constructor
  · intro ran
    split at ran
    case isTrue enough =>
      cases ran
      exact ⟨(List.take_append_drop n wire).symm,List.length_take_of_le enough⟩
    case isFalse => cases ran
  · rintro ⟨rfl,rfl⟩
    rw [if_pos (by simp),List.take_left,List.drop_left]

instance (n : Nat) : Within Taken (sock_read n) := by
  refine ⟨fun wire => ?_⟩
  rw [run_sock_read,Taken]
  split <;> simp

instance (n : Nat) (data : List UInt8) : Within Taken (read_remaining n data) := by
  unfold read_remaining
  infer_instance

/-- Every round takes a block at least. -/
theorem read_message_shorter {m m' : Message} {wire rest : List UInt8}
    (ran : EStateM.run (read_message m) wire = .ok m' rest) : rest.length < wire.length := by
  unfold read_message at ran
  obtain ⟨buffer,wire₁,first,ran⟩ := run_bind_ok.mp ran
  obtain ⟨whole,length⟩ := sock_read_ok.mp first
  have further : Taken wire₁ rest := by
    dsimp only at ran
    split at ran
    · exact Within.ok inferInstance ran
    · cases ran
  rw [whole,List.length_append,length]
  exact Nat.lt_of_le_of_lt further (by simp [BUFFER_SIZE])

/-- What is left of a connection when its loop has ended: what the delegate has come to, the bytes
    that were not read, whether the delegate hears that the connection is closed, and what is
    thrown on. -/
structure Ended (σ : Type) where
  delegate : σ
  unread : List UInt8
  call_on_connection_closed : Bool
  exception_to_rethrow : Option Exc
deriving DecidableEq

/-- How the loop ends after an exception. -/
def handle {σ : Type} (e : Exc) (delegate : σ) (unread : List UInt8) : Ended σ :=
  match e with
  | .canceled_exception => ⟨delegate,unread,false,some .canceled_exception⟩
  | .eof_exception => ⟨delegate,unread,true,none⟩
  | .exception => ⟨delegate,unread,true,some .exception⟩

/-- `message_oriented_connection_impl::read_loop` for a delegate, on the bytes that come from the
    socket. -/
def read_loop {σ : Type} (on_message : Message → EStateM Exc σ Unit) (m : Message) (wire : List UInt8) (delegate : σ) :
    Ended σ :=
  match _read : EStateM.run (read_message m) wire with
  | .error e unread => handle e delegate unread
  | .ok m unread =>
    match EStateM.run (on_message m) delegate with
    | .error e delegate => handle e delegate unread
    | .ok _ delegate => read_loop on_message m unread delegate
termination_by wire.length
decreasing_by exact read_message_shorter _read

/-! ### The frame of a message -/

/-- What a message says of its data is so, and it is not too long. -/
def Message.Sized (m : Message) : Prop := m.data.length = m.size.toNat ∧ m.size ≤ MAX_MESSAGE_SIZE

instance (m : Message) : Decidable m.Sized := inferInstanceAs (Decidable (_ ∧ _))

/-- The bytes after the first block. -/
def remaining (size : UInt32) : Nat := 16 * ((size.toNat + 7) / 16)

/-- The reader's count does not go below zero, though a difference in it does. -/
theorem toNat_remaining {size : UInt32} (fits : size ≤ MAX_MESSAGE_SIZE) :
    (16 * ((size - LEFTOVER.toUInt32 + 15) / 16)).toNat = remaining size := by
  have fits : size.toNat ≤ 2^21 := UInt32.le_iff_toNat_le.mp fits
  have left : LEFTOVER.toUInt32.toNat = 8 := rfl
  simp only [UInt32.toNat_mul,UInt32.toNat_div,UInt32.toNat_add,UInt32.toNat_sub,left,remaining,
    show (16 : UInt32).toNat = 16 from rfl,show (15 : UInt32).toNat = 15 from rfl]
  omega

@[simp] theorem length_overwrite {data bytes : List UInt8} {place : Nat} (fits : place + bytes.length ≤ data.length) :
    (overwrite data place bytes).length = data.length := by
  simp only [overwrite,List.length_append,List.length_take,List.length_drop]
  omega

/-- The start of some bytes is written over. -/
theorem overwrite_zero (data bytes : List UInt8) : overwrite data 0 bytes = bytes ++ data.drop bytes.length := by
  simp [overwrite]

theorem overwrite_append {head data bytes : List UInt8} {place : Nat} (length : head.length = place) :
    overwrite (head ++ data) place bytes = head ++ (bytes ++ data.drop bytes.length) := by
  subst length
  simp [overwrite]

theorem length_resize (data : List UInt8) (n : Nat) : (resize data n).length = n := by
  simp only [resize,List.length_append,List.length_take,List.length_replicate]
  omega

theorem resize_append (data padding : List UInt8) : resize (data ++ padding) data.length = data := by
  simp [resize]

/-- A frame is the header and a body, which are the data and the padding. -/
theorem send_message_frame (garbage : Nat → UInt8) {m : Message} (sized : m.Sized) :
    ∃ padding, send_message garbage m = m.toMessageHeader.bytes ++ (m.data ++ padding) ∧
      (m.data ++ padding).length = LEFTOVER + remaining m.size := by
  obtain ⟨length,-⟩ := sized
  unfold send_message
  dsimp only
  rw [overwrite_zero,overwrite_append m.length_bytes,List.take_of_length_le (Nat.le_of_eq length)]
  refine ⟨_,rfl,?_⟩
  simp only [List.length_append,List.length_drop,List.length_map,List.length_range,MessageHeader.length_bytes,length,
    remaining,LEFTOVER,BUFFER_SIZE,HEADER_SIZE]
  omega

/-- The bytes behind the first block come behind those that the block holds. -/
theorem read_remaining_body {first second rest data : List UInt8} (leftover : first.length = LEFTOVER)
    (length : data.length = LEFTOVER + second.length) :
    EStateM.run (read_remaining second.length (overwrite data 0 first)) (second ++ rest) = .ok (first ++ second) rest := by
  rw [overwrite_zero,leftover]
  have behind : (data.drop LEFTOVER).length = second.length := by
    rw [List.length_drop,length,Nat.add_sub_cancel_left]
  unfold read_remaining
  split
  case isTrue =>
    refine run_bind_ok.mpr ⟨second,rest,sock_read_ok.mpr ⟨rfl,rfl⟩,?_⟩
    rw [overwrite_append leftover,List.drop_of_length_le (Nat.le_of_eq behind),List.append_nil]
    rfl
  case isFalse none =>
    have none : second = [] := List.length_eq_zero_iff.mp (not_not.mp none)
    subst none
    rw [List.length_eq_zero_iff.mp behind]
    rfl

/-- The reader takes a frame off the wire, and finds the message in it. -/
theorem read_message_sent (garbage : Nat → UInt8) {m : Message} (sized : m.Sized) (before : Message) (rest : List UInt8) :
    EStateM.run (read_message before) (send_message garbage m ++ rest) = .ok m rest := by
  obtain ⟨padding,frame,length⟩ := send_message_frame garbage sized
  -- The body is cut where the first block ends.
  obtain ⟨first,second,body,leftover⟩ : ∃ first second, m.data ++ padding = first ++ second ∧ first.length = LEFTOVER :=
    ⟨_,_,(List.take_append_drop LEFTOVER _).symm,List.length_take_of_le (by rw [length]; exact Nat.le_add_right ..)⟩
  have others : second.length = remaining m.size := by
    rw [body,List.length_append,leftover] at length
    exact Nat.add_left_cancel length
  have block : EStateM.run (sock_read BUFFER_SIZE) (send_message garbage m ++ rest) =
      .ok (m.toMessageHeader.bytes ++ first) (second ++ rest) := by
    refine sock_read_ok.mpr ⟨?_,?_⟩
    · rw [frame,body]
      simp only [List.append_assoc]
    · rw [List.length_append,leftover,MessageHeader.length_bytes]
      rfl
  unfold read_message
  refine run_bind_ok.mpr ⟨_,_,block,?_⟩
  dsimp only
  rw [MessageHeader.of_bytes_append,if_pos sized.2,toNat_remaining sized.2,← others,
    List.drop_left' (MessageHeader.length_bytes _)]
  refine run_bind_ok.mpr ⟨_,_,read_remaining_body leftover (length_resize _ _),?_⟩
  rw [← body,← sized.1,resize_append]
  rfl

/-- The messages one after another, up to the first that the delegate throws at. -/
def hand_over {σ : Type} (on_message : Message → EStateM Exc σ Unit) : List Message → EStateM Exc σ Unit
  | [] => pure ()
  | m :: rest => do
    on_message m
    hand_over on_message rest

/-- What is on the wire when these messages have been sent, each with what the memory held. -/
def wire (sent : List (Message × (Nat → UInt8))) : List UInt8 := sent.flatMap fun p => send_message p.2 p.1

/-- A message that was received goes to the delegate, and the loop goes on from there. -/
theorem read_loop_received {σ : Type} (on_message : Message → EStateM Exc σ Unit) {before m : Message}
    {wire rest : List UInt8} (received : EStateM.run (read_message before) wire = .ok m rest) (s : σ) :
    read_loop on_message before wire s = match EStateM.run (on_message m) s with
      | .error e s' => handle e s' rest
      | .ok _ s' => read_loop on_message m rest s' := by
  rw [read_loop]
  split
  case h_1 thrown =>
    rw [received] at thrown
    cases thrown
  case h_2 returned =>
    rw [received] at returned
    cases returned
    rfl

/-- Nothing is left to read. -/
theorem read_loop_nil {σ : Type} (on_message : Message → EStateM Exc σ Unit) (before : Message) (s : σ) :
    read_loop on_message before [] s = ⟨s,[],true,none⟩ := by
  rw [read_loop]
  rfl

/-- The loop hands over what was sent, and comes to what is behind it if the delegate takes all of it. -/
theorem read_loop_wire {σ : Type} (on_message : Message → EStateM Exc σ Unit) {sent : List (Message × (Nat → UInt8))}
    (sized : ∀ p ∈ sent, p.1.Sized) (before : Message) (rest : List UInt8) (s : σ) :
    match EStateM.run (hand_over on_message (sent.map Prod.fst)) s with
    | .ok _ s' => ∃ last, read_loop on_message before (wire sent ++ rest) s = read_loop on_message last rest s'
    | .error e s' => ∃ unread, read_loop on_message before (wire sent ++ rest) s = handle e s' unread := by
  induction sent generalizing before s with
  | nil => exact ⟨before,rfl⟩
  | cons p sent ih =>
    obtain ⟨here,sized⟩ := List.forall_mem_cons.mp sized
    have received := read_loop_received on_message
      (read_message_sent p.2 here before (wire sent ++ rest)) s
    rw [← List.append_assoc] at received
    show match EStateM.run (on_message p.1 >>= fun _ => hand_over on_message (sent.map Prod.fst)) s with
      | .ok _ s' => ∃ last, read_loop on_message before (send_message p.2 p.1 ++ wire sent ++ rest) s = _
      | .error e s' => ∃ unread, read_loop on_message before (send_message p.2 p.1 ++ wire sent ++ rest) s = _
    rw [received,EStateM.run_bind]
    cases EStateM.run (on_message p.1) s with
    | error e s₁ => exact ⟨_,rfl⟩
    | ok _ s₁ => exact ih sized p.1 s₁

/-- Whatever the sizes, and whatever memory the frames are put together in: a reader of the frames of
    some messages hands over these messages and reads all there is. It ends before only when the delegate
    throws. -/
theorem read_loop_sent {σ : Type} (on_message : Message → EStateM Exc σ Unit) (sent : List (Message × (Nat → UInt8)))
    (sized : ∀ p ∈ sent, p.1.Sized) (before : Message) (s : σ) :
    match EStateM.run (hand_over on_message (sent.map Prod.fst)) s with
    | .ok _ s' => read_loop on_message before (wire sent) s = ⟨s',[],true,none⟩
    | .error e s' => ∃ unread, read_loop on_message before (wire sent) s = handle e s' unread := by
  have looped := read_loop_wire on_message sized before [] s
  rw [List.append_nil] at looped
  split
  case h_1 handled =>
    rw [handled] at looped
    obtain ⟨last,looped⟩ := looped
    rw [looped,read_loop_nil]
  case h_2 handled =>
    rw [handled] at looped
    exact looped

/-- A delegate that notes what it is told. -/
def noting (m : Message) : EStateM Exc (List Message) Unit := modify (· ++ [m])

/-- Two messages, without data and with nine bytes. -/
theorem read_loop_sent_two : read_loop noting ⟨⟨0,0⟩,[]⟩
    (wire [(⟨⟨0,5⟩,[]⟩,fun _ => 255),(⟨⟨9,6⟩,[1,2,3,4,5,6,7,8,9]⟩,fun _ => 255)]) [] =
      ⟨[⟨⟨0,5⟩,[]⟩,⟨⟨9,6⟩,[1,2,3,4,5,6,7,8,9]⟩],[],true,none⟩ :=
  read_loop_sent noting [(⟨⟨0,5⟩,[]⟩,fun _ => 255),(⟨⟨9,6⟩,[1,2,3,4,5,6,7,8,9]⟩,fun _ => 255)] (by decide) _ _

end Decent.Connection

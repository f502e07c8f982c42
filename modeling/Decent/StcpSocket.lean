import Decent.Connection
import Decent.Lib.Chaining
import Decent.Lib.Readers

/-!
The encrypted socket under a connection. TCP gives the bytes in pieces of any size; `readsome`
completes a piece to whole blocks and decodes it, and the loops of `fc::istream` and
`fc::ostream` go on until all is read or written. Over any pieces the reader of messages does what
it does on the decoded bytes.
-/
namespace Decent.Connection
open Throwing Chaining Readers

/-- The size of a block of AES. -/
def AES_BLOCK_SIZE : Nat := 16

/-- `read_buffer_length` and `write_buffer_length` -/
def buffer_length : Nat := 4096

/-! ### TCP -/

/-- `fc::tcp_socket`: the bytes that are still to come, and how many have come whenever it is read. -/
structure TcpSocket where
  incoming : List UInt8
  arrivals : List Nat
deriving DecidableEq

/-- `tcp_socket::readsome` waits for a byte, and takes what has come, up to `len`. -/
def tcp_readsome (len : Nat) : EStateM Exc TcpSocket (List UInt8) := fun sock =>
  if sock.incoming = [] then .error .eof_exception sock else
    let count := min len (sock.arrivals.head?.elim len (max 1))
    .ok (sock.incoming.take count) ⟨sock.incoming.drop count,sock.arrivals.tail⟩

/-- `tcp_socket::read` -/
def tcp_read (len : Nat) : EStateM Exc TcpSocket (List UInt8) := read tcp_readsome len

theorem tcp_reads : Reads 1 Exc.eof_exception (fun _ => True) TcpSocket.incoming tcp_readsome where
  step {s len} _ positive _ := by
    by_cases ended : s.incoming = []
    · exact .inr ⟨by rw [ended]; exact positive,s,if_pos ended⟩
    · have some := List.length_pos_iff.mpr ended
      have there : 0 < s.arrivals.head?.elim len (max 1) := by
        cases s.arrivals.head? with
        | none => exact positive
        | some n => exact Nat.lt_of_lt_of_le Nat.one_pos (Nat.le_max_left 1 n)
      generalize isCount : min len (s.arrivals.head?.elim len (max 1)) = count
      have ran : EStateM.run (tcp_readsome len) s = .ok (s.incoming.take count) ⟨s.incoming.drop count,s.arrivals.tail⟩ := by
        rw [← isCount]
        exact if_neg ended
      -- fewer may be left than have been counted
      refine .inl ⟨min count s.incoming.length,⟨s.incoming.drop count,s.arrivals.tail⟩,by omega,by omega,one_dvd _,
        Nat.min_le_right ..,?_,trivial,?_⟩
      · rw [ran,List.take_eq_take_min]
      · exact List.drop_eq_drop_min ..

theorem follows_tcp_read (len : Nat) : Follows (fun _ => True) TcpSocket.incoming (tcp_read len) (sock_read len) :=
  tcp_reads.read (one_dvd len)

/-! ### Reading -/

/-- `stcp_socket`, as far as it is read: `_recv_aes` keeps the last block of ciphertext. -/
structure StcpSocket where
  sock : TcpSocket
  recv_aes : List UInt8
deriving DecidableEq

/-- Code of `_sock`. -/
def on_sock {α : Type} (x : EStateM Exc TcpSocket α) : EStateM Exc StcpSocket α := fun s =>
  match EStateM.run x s.sock with
  | .ok a sock => .ok a { s with sock }
  | .error e sock => .error e { s with sock }

section
variable (C : BlockCipher AES_BLOCK_SIZE)

/-- `aes_decoder::decode` -/
def recv_decode (ciphertext : List UInt8) : EStateM Exc StcpSocket (List UInt8) := fun s =>
  let (plaintext,recv_aes) := decode C (ciphertext.length / AES_BLOCK_SIZE) s.recv_aes ciphertext
  .ok plaintext { s with recv_aes }

/-- `_sock.read` of what a piece lacks of a whole block. -/
def fill_block (bytes : List UInt8) : EStateM Exc StcpSocket (List UInt8) :=
  if bytes.length % 16 ≠ 0 then do
    let more ← on_sock (tcp_read (16 - bytes.length % 16))
    return bytes ++ more
  else
    return bytes

/-- `stcp_socket::readsome`; `len` is a positive number of blocks. -/
def readsome (len : Nat) : EStateM Exc StcpSocket (List UInt8) := do
  let len := min buffer_length len
  let bytes ← on_sock (tcp_readsome len)
  let bytes ← fill_block bytes
  recv_decode C bytes

/-- `fc::istream::read` over `readsome`. -/
def stcp_read (len : Nat) : EStateM Exc StcpSocket (List UInt8) := read (readsome C) len

/-- The bytes that can be read. What is left at the end of less than a block cannot. -/
def StcpSocket.plain (s : StcpSocket) : List UInt8 :=
  (decode C (s.sock.incoming.length / AES_BLOCK_SIZE) s.recv_aes s.sock.incoming).1

/-- The decoder has a block to start from. -/
def StcpSocket.Keyed (s : StcpSocket) : Prop := s.recv_aes.length = AES_BLOCK_SIZE

theorem length_plain {s : StcpSocket} (keyed : s.Keyed) :
    (s.plain C).length = AES_BLOCK_SIZE * (s.sock.incoming.length / AES_BLOCK_SIZE) :=
  (length_decode keyed (Nat.mul_div_le ..)).1

/-- What a decoder makes of the first blocks is the start of what can be read, and the rest stays. -/
theorem plain_blocks {s : StcpSocket} (keyed : s.Keyed) {n : Nat} (inside : AES_BLOCK_SIZE * n ≤ s.sock.incoming.length)
    (arrivals : List Nat) :
    let decoded := decode C n s.recv_aes s.sock.incoming
    let s' : StcpSocket := ⟨⟨s.sock.incoming.drop (AES_BLOCK_SIZE * n),arrivals⟩,decoded.2⟩
    decoded.1 = (s.plain C).take (AES_BLOCK_SIZE * n) ∧ s'.Keyed ∧ s'.plain C = (s.plain C).drop (AES_BLOCK_SIZE * n) := by
  intro decoded s'
  have blocks : s.sock.incoming.length / AES_BLOCK_SIZE = n + (s.sock.incoming.length - AES_BLOCK_SIZE * n) / AES_BLOCK_SIZE := by
    unfold AES_BLOCK_SIZE at inside ⊢
    omega
  obtain ⟨length,keyed'⟩ := length_decode (C := C) keyed inside
  have split : s.plain C = decoded.1 ++ s'.plain C := by
    unfold StcpSocket.plain
    rw [blocks,decode_add]
    simp only [s',decoded,List.length_drop]
  refine ⟨?_,keyed',?_⟩
  · rw [split,← length,List.take_left]
  · rw [split,← length,List.drop_left]

theorem run_on_sock {α : Type} (x : EStateM Exc TcpSocket α) (s : StcpSocket) :
    EStateM.run (on_sock x) s = match EStateM.run x s.sock with
      | .ok a sock => .ok a { s with sock }
      | .error e sock => .error e { s with sock } := rfl

/-- A piece that has its blocks is decoded. -/
theorem run_recv_decode {s : StcpSocket} {incoming : List UInt8} {n : Nat} (inside : AES_BLOCK_SIZE * n ≤ incoming.length) :
    EStateM.run (recv_decode C (incoming.take (AES_BLOCK_SIZE * n))) s =
      .ok (decode C n s.recv_aes incoming).1 { s with recv_aes := (decode C n s.recv_aes incoming).2 } := by
  have count : (incoming.take (AES_BLOCK_SIZE * n)).length / AES_BLOCK_SIZE = n := by
    rw [List.length_take_of_le inside,Nat.mul_div_cancel_left _ (by decide)]
  show EStateM.Result.ok (decode C _ _ _).1 _ = _
  rw [count,decode_take C (Nat.le_refl _)]

/-- A piece is filled up to whole blocks, from what comes behind it. -/
theorem run_fill_block {incoming : List UInt8} {k : Nat} (inside : k ≤ incoming.length) {s : StcpSocket}
    (behind : s.sock.incoming = incoming.drop k) :
    (AES_BLOCK_SIZE * ((k + 15) / 16) ≤ incoming.length ∧ ∃ arrivals,
      EStateM.run (fill_block (incoming.take k)) s = .ok (incoming.take (AES_BLOCK_SIZE * ((k + 15) / 16)))
        ⟨⟨incoming.drop (AES_BLOCK_SIZE * ((k + 15) / 16)),arrivals⟩,s.recv_aes⟩) ∨
    incoming.length < AES_BLOCK_SIZE * ((k + 15) / 16) ∧ ∃ s', EStateM.run (fill_block (incoming.take k)) s = .error .eof_exception s' := by
  have block : AES_BLOCK_SIZE * ((k + 15) / 16) = 16 * ((k + 15) / 16) := rfl
  unfold fill_block
  rw [List.length_take_of_le inside]
  by_cases whole : k % 16 = 0
  · have same : AES_BLOCK_SIZE * ((k + 15) / 16) = k := by omega
    rw [if_neg (not_not.mpr whole),same]
    refine .inl ⟨inside,s.sock.arrivals,?_⟩
    rw [← behind]
    rfl
  · rw [if_pos whole,EStateM.run_bind,run_on_sock]
    have total : k + (16 - k % 16) = AES_BLOCK_SIZE * ((k + 15) / 16) := by omega
    have more := follows_tcp_read (16 - k % 16) s.sock trivial
    rw [run_sock_read,behind,List.length_drop] at more
    by_cases enough : AES_BLOCK_SIZE * ((k + 15) / 16) ≤ incoming.length
    · left
      rw [if_pos (by omega)] at more
      cases ran : EStateM.run (tcp_read (16 - k % 16)) s.sock with
      | error e sock =>
        rw [ran] at more
        exact absurd more id
      | ok bytes sock =>
        rw [ran] at more
        obtain ⟨rfl,-,left⟩ := more
        refine ⟨enough,sock.arrivals,?_⟩
        show EStateM.Result.ok (incoming.take k ++ (incoming.drop k).take (16 - k % 16)) (⟨sock,s.recv_aes⟩ : StcpSocket) = _
        rw [← List.take_add,total]
        rw [List.drop_drop,total] at left
        rw [← left]
    · right
      rw [if_neg (by omega)] at more
      cases ran : EStateM.run (tcp_read (16 - k % 16)) s.sock with
      | error e sock =>
        rw [ran] at more
        cases more
        exact ⟨by omega,_,rfl⟩
      | ok bytes sock =>
        rw [ran] at more
        exact absurd more id

/-- `readsome` gives whole blocks of what can be read. -/
theorem stcp_reads : Reads AES_BLOCK_SIZE Exc.eof_exception StcpSocket.Keyed (StcpSocket.plain C) (readsome C) where
  step {s len} keyed positive whole := by
    have buffer : buffer_length = 4096 := rfl
    have whole : 16 ∣ len := whole
    have length : (s.plain C).length = 16 * (s.sock.incoming.length / 16) := length_plain C keyed
    unfold readsome
    simp only [EStateM.run_bind,run_on_sock]
    rcases tcp_reads.step (s := s.sock) trivial (show 0 < min buffer_length len by omega) (one_dvd _) with
      ⟨k,sock,some,few,-,inside,ran,-,behind⟩ | ⟨short,sock,ran⟩
    · rw [ran]
      simp only
      have block : AES_BLOCK_SIZE * ((k + 15) / 16) = 16 * ((k + 15) / 16) := rfl
      rcases run_fill_block (s := { s with sock }) inside behind with ⟨enough,arrivals,filled⟩ | ⟨short,s',filled⟩
      · obtain ⟨plaintext,keyed',left⟩ := plain_blocks C keyed enough arrivals
        refine .inl ⟨AES_BLOCK_SIZE * ((k + 15) / 16),_,by omega,by omega,Nat.dvd_mul_right ..,by omega,?_,keyed',left⟩
        rw [filled]
        simp only
        rw [run_recv_decode C enough,plaintext]
      · refine .inr ⟨by omega,s',?_⟩
        rw [filled]
    · refine .inr ⟨?_,{ s with sock },by rw [ran]⟩
      have ended : s.sock.incoming.length = 0 ∨ s.sock.incoming.length < min buffer_length len := .inr short
      omega

theorem follows_stcp_read {len : Nat} (whole : AES_BLOCK_SIZE ∣ len) :
    Follows StcpSocket.Keyed (StcpSocket.plain C) (stcp_read C len) (sock_read len) := (stcp_reads C).read whole

/-! ### Messages -/

section
variable {σ : Type} (sock_read : Nat → EStateM Exc σ (List UInt8))

/-- The padded bytes behind the first block, from any socket. -/
def read_remaining_from (remaining_bytes_with_padding : Nat) (data : List UInt8) : EStateM Exc σ (List UInt8) :=
  if remaining_bytes_with_padding ≠ 0 then do
    let bytes ← sock_read remaining_bytes_with_padding
    return overwrite data LEFTOVER bytes
  else
    return data

/-- One round of `read_loop` on any socket. -/
def read_message_from (m : Message) : EStateM Exc σ Message := do
  let buffer ← sock_read BUFFER_SIZE
  let header := MessageHeader.of_bytes buffer
  if header.size ≤ MAX_MESSAGE_SIZE then
    let remaining_bytes_with_padding : UInt32 := 16 * ((header.size - LEFTOVER.toUInt32 + 15) / 16)
    let data := resize m.data (LEFTOVER + remaining_bytes_with_padding.toNat)
    let data ← read_remaining_from sock_read remaining_bytes_with_padding.toNat (overwrite data 0 (buffer.drop HEADER_SIZE))
    return { header with data := resize data header.size.toNat }
  else
    throw .exception

end

theorem read_message_from_sock_read (m : Message) : read_message_from sock_read m = read_message m := rfl

/-- A message is read as it is on the decoded bytes, since its reader asks for whole blocks only. -/
theorem follows_read_message (m : Message) :
    Follows StcpSocket.Keyed (StcpSocket.plain C) (read_message_from (stcp_read C) m) (read_message m) := by
  refine follows_bind (follows_stcp_read C (by decide)) fun buffer => ?_
  refine follows_ite ?_ (follows_throw _)
  refine follows_bind ?_ fun data => follows_pure _
  refine follows_ite (follows_bind (follows_stcp_read C ?_) fun bytes => follows_pure _) (follows_pure _)
  rw [UInt32.toNat_mul,show (16 : UInt32).toNat = 16 from rfl]
  exact (Nat.dvd_mod_iff (by decide)).mpr (Nat.dvd_mul_right ..)

/-- `read_loop` on the encrypted socket. Every round takes a block at least, so that nothing is left
    after as many rounds as there are bytes. -/
def stcp_read_loop {σ : Type} (on_message : Message → EStateM Exc σ Unit) : Nat → Message → StcpSocket → σ → Ended σ
  | 0, _, s, delegate => handle .eof_exception delegate s.sock.incoming
  | rounds + 1, m, s, delegate =>
    match EStateM.run (read_message_from (stcp_read C) m) s with
    | .error e s => handle e delegate s.sock.incoming
    | .ok m s =>
      match EStateM.run (on_message m) delegate with
      | .error e delegate => handle e delegate s.sock.incoming
      | .ok _ delegate => stcp_read_loop on_message rounds m s delegate

theorem read_loop_failed {σ : Type} (on_message : Message → EStateM Exc σ Unit) {m : Message} {wire unread : List UInt8} {e : Exc}
    (failed : EStateM.run (read_message m) wire = .error e unread) (delegate : σ) :
    read_loop on_message m wire delegate = handle e delegate unread := by
  rw [read_loop]
  split
  case h_1 thrown =>
    rw [failed] at thrown
    cases thrown
    rfl
  case h_2 returned =>
    rw [failed] at returned
    cases returned

/-- How a loop has ended but for the bytes that it did not read. -/
def Ended.seen {σ : Type} (ended : Ended σ) : σ × Bool × Option Exc :=
  (ended.delegate,ended.call_on_connection_closed,ended.exception_to_rethrow)

theorem seen_handle {σ : Type} (e : Exc) (delegate : σ) (unread unread' : List UInt8) :
    (handle e delegate unread).seen = (handle e delegate unread').seen := by
  cases e <;> rfl

/-- The delegate sees what it would see of a connection that gives it the decoded bytes. -/
theorem seen_stcp_read_loop {σ : Type} (on_message : Message → EStateM Exc σ Unit) {rounds : Nat} {s : StcpSocket}
    (keyed : s.Keyed) (enough : (s.plain C).length ≤ rounds) (m : Message) (delegate : σ) :
    (stcp_read_loop C on_message rounds m s delegate).seen = (read_loop on_message m (s.plain C) delegate).seen := by
  induction rounds generalizing s m delegate with
  | zero =>
    rw [List.length_eq_zero_iff.mp (Nat.le_zero.mp enough),read_loop_nil]
    rfl
  | succ rounds ih =>
    unfold stcp_read_loop
    rcases (follows_read_message C m).cases keyed with ⟨m',s',left,right,keyed'⟩ | ⟨e,s',unread,left,right⟩
    · rw [left,read_loop_received on_message right]
      simp only
      have shorter := read_message_shorter right
      cases EStateM.run (on_message m') delegate with
      | error e delegate => exact seen_handle ..
      | ok _ delegate => exact ih keyed' (by omega) m' delegate
    · rw [left,read_loop_failed on_message right]
      exact seen_handle ..

end

/-! ### Writing -/

/-- `stcp_socket`, as far as it is written to: what went to TCP, and the block that `_send_aes` keeps. -/
structure Sending where
  wire : List UInt8
  send_aes : List UInt8
deriving DecidableEq

section
variable (C : BlockCipher AES_BLOCK_SIZE)

/-- `stcp_socket::writesome`: how many bytes have been written. -/
def writesome (buffer : List UInt8) (s : Sending) : Nat × Sending :=
  let len := min buffer_length buffer.length
  let (ciphertext,send_aes) := encode C (len / AES_BLOCK_SIZE) s.send_aes (buffer.take len)
  (len,⟨s.wire ++ ciphertext,send_aes⟩)

/-- `fc::ostream::write`: `writesome` until all is written. -/
def write_on : Nat → List UInt8 → Sending → Sending
  | 0, _, s => s
  | rounds + 1, buffer, s =>
    if buffer = [] then s else
      let (len,s) := writesome C buffer s
      write_on rounds (buffer.drop len) s

def stcp_write (buffer : List UInt8) (s : Sending) : Sending := write_on C buffer.length buffer s

/-- In whatever parts a text is written, it is encoded as one. -/
theorem write_on_eq {rounds : Nat} {buffer : List UInt8} (enough : buffer.length ≤ rounds) (whole : AES_BLOCK_SIZE ∣ buffer.length)
    (s : Sending) : write_on C rounds buffer s =
      ⟨s.wire ++ (encode C (buffer.length / AES_BLOCK_SIZE) s.send_aes buffer).1,
        (encode C (buffer.length / AES_BLOCK_SIZE) s.send_aes buffer).2⟩ := by
  induction rounds generalizing buffer s with
  | zero =>
    obtain rfl := List.length_eq_zero_iff.mp (Nat.le_zero.mp enough)
    simp [write_on,encode]
  | succ rounds ih =>
    unfold write_on
    by_cases done : buffer = []
    · subst done
      simp [encode]
    have some := List.length_pos_iff.mpr done
    rw [if_neg done]
    simp only [writesome]
    generalize isLen : min buffer_length buffer.length = len
    have whole : 16 ∣ buffer.length := whole
    have size : buffer_length = 4096 := rfl
    have blocks : buffer.length / AES_BLOCK_SIZE = len / AES_BLOCK_SIZE + (buffer.drop len).length / AES_BLOCK_SIZE := by
      rw [List.length_drop]
      show buffer.length / 16 = len / 16 + (buffer.length - len) / 16
      omega
    have part : AES_BLOCK_SIZE * (len / AES_BLOCK_SIZE) = len := by
      show 16 * (len / 16) = len
      omega
    rw [ih (by rw [List.length_drop]; omega) (by rw [List.length_drop]; show 16 ∣ _; omega),blocks,encode_add,
      encode_take C (Nat.le_of_eq part),part]
    simp only [List.append_assoc]

theorem stcp_write_eq {buffer : List UInt8} (whole : AES_BLOCK_SIZE ∣ buffer.length) (s : Sending) : stcp_write C buffer s =
    ⟨s.wire ++ (encode C (buffer.length / AES_BLOCK_SIZE) s.send_aes buffer).1,
      (encode C (buffer.length / AES_BLOCK_SIZE) s.send_aes buffer).2⟩ := write_on_eq C (Nat.le_refl _) whole s

/-- `message_oriented_connection_impl::send_message` on the encrypted socket. -/
def stcp_send_message (sent : Message × (Nat → UInt8)) (s : Sending) : Sending :=
  stcp_write C (send_message sent.2 sent.1) s

theorem length_send_message (garbage : Nat → UInt8) {m : Message} (sized : m.Sized) :
    AES_BLOCK_SIZE ∣ (send_message garbage m).length := by
  obtain ⟨padding,frame,length⟩ := send_message_frame garbage sized
  rw [frame,List.length_append,MessageHeader.length_bytes,length]
  exact ⟨1 + (m.size.toNat + 7) / 16,by simp only [HEADER_SIZE,LEFTOVER,BUFFER_SIZE,remaining,AES_BLOCK_SIZE]; omega⟩

theorem length_wire {sent : List (Message × (Nat → UInt8))} (sized : ∀ p ∈ sent, p.1.Sized) : AES_BLOCK_SIZE ∣ (wire sent).length := by
  induction sent with
  | nil => exact Nat.dvd_zero _
  | cons p sent ih =>
    obtain ⟨here,later⟩ := List.forall_mem_cons.mp sized
    rw [wire,List.flatMap_cons,List.length_append]
    exact Nat.dvd_add (length_send_message p.2 here) (ih later)

/-- What is on the wire after some messages is one ciphertext of their frames. -/
theorem foldl_send_message {sent : List (Message × (Nat → UInt8))} (sized : ∀ p ∈ sent, p.1.Sized) (s : Sending) :
    sent.foldl (fun s p => stcp_send_message C p s) s =
      ⟨s.wire ++ (encode C ((wire sent).length / AES_BLOCK_SIZE) s.send_aes (wire sent)).1,
        (encode C ((wire sent).length / AES_BLOCK_SIZE) s.send_aes (wire sent)).2⟩ := by
  induction sent generalizing s with
  | nil => simp [wire,encode]
  | cons p sent ih =>
    obtain ⟨here,later⟩ := List.forall_mem_cons.mp sized
    have frame := length_send_message p.2 here
    have part : AES_BLOCK_SIZE * ((send_message p.2 p.1).length / AES_BLOCK_SIZE) = (send_message p.2 p.1).length :=
      Nat.mul_div_cancel' frame
    have blocks : (wire (p :: sent)).length / AES_BLOCK_SIZE =
        (send_message p.2 p.1).length / AES_BLOCK_SIZE + (wire sent).length / AES_BLOCK_SIZE := by
      rw [wire,List.flatMap_cons,List.length_append]
      obtain ⟨count,length⟩ := frame
      rw [length,Nat.mul_add_div (by decide),Nat.mul_div_cancel_left _ (by decide)]
      rfl
    have first : encode C ((send_message p.2 p.1).length / AES_BLOCK_SIZE) s.send_aes (wire (p :: sent)) =
        encode C ((send_message p.2 p.1).length / AES_BLOCK_SIZE) s.send_aes (send_message p.2 p.1) := by
      rw [← encode_take C (Nat.le_of_eq part) s.send_aes (wire (p :: sent)),wire,List.flatMap_cons,List.take_left]
    have behind : (wire (p :: sent)).drop (send_message p.2 p.1).length = wire sent := by
      rw [wire,List.flatMap_cons,List.drop_left]
      rfl
    rw [List.foldl_cons,stcp_send_message,stcp_write_eq C frame,ih later,blocks,encode_add,part,first,behind]
    simp only [List.append_assoc]

end

/-! ### A connection that is cut -/

/-- A frame that has not come as a whole is waited for in vain. -/
theorem read_message_cut (garbage : Nat → UInt8) {m : Message} (sized : m.Sized) (before : Message) {count : Nat}
    (short : count < (send_message garbage m).length) :
    ∃ unread, EStateM.run (read_message before) ((send_message garbage m).take count) = .error .eof_exception unread := by
  obtain ⟨padding,frame,length⟩ := send_message_frame garbage sized
  have whole : (send_message garbage m).length = 16 + remaining m.size := by
    rw [frame,List.length_append,MessageHeader.length_bytes,length]
    simp only [HEADER_SIZE,LEFTOVER,BUFFER_SIZE]
    omega
  unfold read_message
  rw [EStateM.run_bind,run_sock_read,List.length_take_of_le (Nat.le_of_lt short)]
  by_cases block : BUFFER_SIZE ≤ count
  swap
  · rw [if_neg block]
    exact ⟨_,rfl⟩
  rw [if_pos block]
  have first : ((send_message garbage m).take count).take BUFFER_SIZE =
      m.toMessageHeader.bytes ++ (m.data ++ padding).take LEFTOVER := by
    rw [List.take_take,Nat.min_eq_left block,frame,
      show BUFFER_SIZE = m.toMessageHeader.bytes.length + LEFTOVER from rfl,List.take_length_add_append]
  have missing : remaining m.size ≠ 0 ∧ ¬ remaining m.size ≤ (((send_message garbage m).take count).drop BUFFER_SIZE).length := by
    rw [List.length_drop,List.length_take_of_le (Nat.le_of_lt short)]
    have size : BUFFER_SIZE = 16 := rfl
    omega
  dsimp only
  rw [first,MessageHeader.of_bytes_append,if_pos sized.2,toNat_remaining sized.2,EStateM.run_bind,read_remaining,
    if_pos missing.1,EStateM.run_bind,run_sock_read,if_neg missing.2]
  exact ⟨_,rfl⟩

theorem length_wire_take (sent : List (Message × (Nat → UInt8))) (k : Nat) : (wire (sent.take k)).length ≤ (wire sent).length := by
  conv_rhs => rw [← List.take_append_drop k sent,wire,List.flatMap_append,List.length_append]
  exact Nat.le_add_right ..

/-- The frames that a cut leaves whole, and the start of the next one. -/
theorem wire_take (sent : List (Message × (Nat → UInt8))) (count : Nat) : ∃ k,
    (wire (sent.take k)).length ≤ count ∧ (∀ p, sent[k]? = some p → count < (wire (sent.take (k + 1))).length) ∧
    (((wire sent).take count = wire (sent.take k)) ∨ ∃ p cut, sent[k]? = some p ∧ cut < (send_message p.2 p.1).length ∧
      (wire sent).take count = wire (sent.take k) ++ (send_message p.2 p.1).take cut) := by
  induction sent generalizing count with
  | nil => exact ⟨0,Nat.zero_le _,by simp,.inl (by simp [wire])⟩
  | cons p sent ih =>
    have frames (l : List (Message × (Nat → UInt8))) : wire (p :: l) = send_message p.2 p.1 ++ wire l := List.flatMap_cons ..
    by_cases inside : (send_message p.2 p.1).length ≤ count
    · obtain ⟨k,fits,next,cut⟩ := ih (count - (send_message p.2 p.1).length)
      refine ⟨k + 1,?_,fun q there => ?_,?_⟩
      · rw [List.take_succ_cons,frames,List.length_append]
        omega
      · have later := next q there
        rw [List.take_succ_cons,frames,List.length_append]
        omega
      · rw [frames,List.take_append,List.take_of_length_le inside,List.take_succ_cons,frames]
        rcases cut with whole | ⟨q,cut,there,part,rest⟩
        · exact .inl (by rw [whole])
        · exact .inr ⟨q,cut,there,part,by rw [rest,List.append_assoc]⟩
    · refine ⟨0,Nat.zero_le _,fun q there => ?_,.inr ⟨p,count,rfl,Nat.lt_of_not_le inside,?_⟩⟩
      · rw [List.take_succ_cons,List.take_zero,frames,List.length_append]
        omega
      · rw [frames,List.take_append_of_le_length (Nat.le_of_not_le inside)]
        rfl

/-- What a delegate has seen when it was handed some messages and the connection was closed then. -/
def closed_after {σ : Type} (on_message : Message → EStateM Exc σ Unit) (messages : List Message) (delegate : σ) : σ × Bool × Option Exc :=
  match EStateM.run (hand_over on_message messages) delegate with
  | .ok _ delegate => (delegate,true,none)
  | .error e delegate => (handle e delegate []).seen

/-- Of a connection that is cut anywhere, the messages arrive whose frames have come. -/
theorem read_loop_cut {σ : Type} (on_message : Message → EStateM Exc σ Unit) {sent : List (Message × (Nat → UInt8))}
    (sized : ∀ p ∈ sent, p.1.Sized) (count : Nat) (before : Message) (delegate : σ) : ∃ k,
    (wire (sent.take k)).length ≤ count ∧ (∀ p, sent[k]? = some p → count < (wire (sent.take (k + 1))).length) ∧
    (read_loop on_message before ((wire sent).take count) delegate).seen =
      closed_after on_message ((sent.take k).map Prod.fst) delegate := by
  obtain ⟨k,fits,next,cut⟩ := wire_take sent count
  refine ⟨k,fits,next,?_⟩
  have some (p) (member : p ∈ sent.take k) : p.1.Sized := sized p (List.mem_of_mem_take member)
  obtain ⟨rest,isRest,ended⟩ : ∃ rest, (wire sent).take count = wire (sent.take k) ++ rest ∧
      ∀ m : Message, ∃ unread, EStateM.run (read_message m) rest = .error .eof_exception unread := by
    rcases cut with whole | ⟨p,cut,there,part,isRest⟩
    · exact ⟨[],by rw [whole,List.append_nil],fun m => ⟨[],rfl⟩⟩
    · exact ⟨_,isRest,fun m => read_message_cut p.2 (sized p (List.mem_of_getElem? there)) m part⟩
  have looped := read_loop_wire on_message some before rest delegate
  rw [isRest,closed_after]
  cases handed : EStateM.run (hand_over on_message ((sent.take k).map Prod.fst)) delegate with
  | ok _ delegate' =>
    rw [handed] at looped
    obtain ⟨last,looped⟩ := looped
    obtain ⟨unread,failed⟩ := ended last
    rw [looped,read_loop_failed on_message failed]
    rfl
  | error e delegate' =>
    rw [handed] at looped
    obtain ⟨unread,looped⟩ := looped
    rw [looped]
    exact seen_handle ..

/-! ### Keys -/

/-- The size of `fc::ecc::public_key_data`. -/
def KEY_SIZE : Nat := 33

/-- The curve and the hashes of `do_key_exchange`. Each end has the secret from its private key and the
    public key of the other one. -/
structure KeyExchange where
  PrivateKey : Type
  Secret : Type
  public_key : PrivateKey → List UInt8
  get_shared_secret : PrivateKey → List UInt8 → Secret
  /-- AES with the hash of the secret for its key. -/
  aes : Secret → BlockCipher AES_BLOCK_SIZE
  /-- The other hash of the secret, which the chain of blocks starts from. -/
  init : Secret → List UInt8
  length_public_key (key : PrivateKey) : (public_key key).length = KEY_SIZE
  length_init (secret : Secret) : (init secret).length = AES_BLOCK_SIZE
  shared (a b : PrivateKey) : get_shared_secret a (public_key b) = get_shared_secret b (public_key a)

section
variable (X : KeyExchange)

/-- The part of `stcp_socket::do_key_exchange` behind the writing of the own key. -/
def do_key_exchange (own : X.PrivateKey) : EStateM Exc TcpSocket X.Secret := do
  let rpub ← tcp_read KEY_SIZE
  return X.get_shared_secret own rpub

/-- What a socket has written when the other key has come: its own key. -/
def exchanged (own : X.PrivateKey) (rpub : List UInt8) : Sending :=
  ⟨X.public_key own,X.init (X.get_shared_secret own rpub)⟩

/-- `accept` or `connect_to`, and the loop that they start. -/
def accept {σ : Type} (own : X.PrivateKey) (on_message : Message → EStateM Exc σ Unit) (before : Message) (sock : TcpSocket)
    (delegate : σ) : Except Exc (Ended σ) :=
  match EStateM.run (do_key_exchange X own) sock with
  | .error e _ => .error e
  | .ok secret sock => .ok (stcp_read_loop (X.aes secret) on_message sock.incoming.length before ⟨sock,X.init secret⟩ delegate)

/-- What went to TCP when one end has sent some messages to the other. -/
def transmitted (own : X.PrivateKey) (rpub : List UInt8) (sent : List (Message × (Nat → UInt8))) : List UInt8 :=
  (sent.foldl (fun s p => stcp_send_message (X.aes (X.get_shared_secret own rpub)) p s) (exchanged X own rpub)).wire

/-- Whatever bytes come, from whoever, and in whatever pieces: the delegate sees what it would see of a plain
    connection with the decoded bytes. Without a whole key there is no connection. -/
theorem accept_seen {σ : Type} (own : X.PrivateKey) (on_message : Message → EStateM Exc σ Unit) (before : Message)
    (incoming : List UInt8) (arrivals : List Nat) (delegate : σ) :
    (accept X own on_message before ⟨incoming,arrivals⟩ delegate).map Ended.seen =
      if KEY_SIZE ≤ incoming.length then
        let secret := X.get_shared_secret own (incoming.take KEY_SIZE)
        let ciphertext := incoming.drop KEY_SIZE
        .ok (read_loop on_message before
          (decode (X.aes secret) (ciphertext.length / AES_BLOCK_SIZE) (X.init secret) ciphertext).1 delegate).seen
      else .error .eof_exception := by
  have key := follows_tcp_read KEY_SIZE ⟨incoming,arrivals⟩ trivial
  rw [run_sock_read] at key
  unfold accept do_key_exchange
  rw [EStateM.run_bind]
  by_cases whole : KEY_SIZE ≤ incoming.length
  · rw [if_pos whole] at key ⊢
    cases ran : EStateM.run (tcp_read KEY_SIZE) ⟨incoming,arrivals⟩ with
    | error e sock =>
      rw [ran] at key
      exact absurd key id
    | ok rpub sock =>
      rw [ran] at key
      obtain ⟨rfl,-,left⟩ := key
      have keyed : StcpSocket.Keyed ⟨sock,X.init (X.get_shared_secret own (incoming.take KEY_SIZE))⟩ := X.length_init _
      refine congrArg Except.ok ((seen_stcp_read_loop _ on_message keyed ?_ before delegate).trans ?_)
      · rw [length_plain _ keyed]
        exact Nat.mul_div_le ..
      · rw [← left]
        rfl
  · rw [if_neg whole] at key ⊢
    cases ran : EStateM.run (tcp_read KEY_SIZE) ⟨incoming,arrivals⟩ with
    | ok rpub sock =>
      rw [ran] at key
      exact absurd key id
    | error e sock =>
      rw [ran] at key
      cases key
      rfl

/-- Two ends of a connection: what one has sent arrives at the other in order, in whatever pieces TCP brings the
    bytes, and up to the last frame that came before the connection was cut. -/
theorem sent_messages_arrive {σ : Type} (a b : X.PrivateKey) {sent : List (Message × (Nat → UInt8))} (sized : ∀ p ∈ sent, p.1.Sized)
    (count : Nat) (arrivals : List Nat) (on_message : Message → EStateM Exc σ Unit) (before : Message) (delegate : σ) :
    let incoming := (transmitted X a (X.public_key b) sent).take (KEY_SIZE + count)
    ∃ k, (wire (sent.take k)).length ≤ count ∧ (∀ p, sent[k]? = some p → count < (wire (sent.take (k + 1))).length) ∧
      (accept X b on_message before ⟨incoming,arrivals⟩ delegate).map Ended.seen =
        .ok (closed_after on_message ((sent.take k).map Prod.fst) delegate) := by
  intro incoming
  generalize isSecret : X.get_shared_secret a (X.public_key b) = secret
  have init := X.length_init secret
  have key := X.length_public_key a
  have whole := Nat.mul_div_cancel' (length_wire sized)
  -- the bytes that came, as the key and the ciphertext of a part of the frames
  have isIncoming : incoming = X.public_key a ++
      ((encode (X.aes secret) ((wire sent).length / AES_BLOCK_SIZE) (X.init secret) (wire sent)).1).take count := by
    show List.take _ (transmitted X a (X.public_key b) sent) = _
    rw [transmitted,foldl_send_message _ sized,exchanged,isSecret,← key,List.take_length_add_append]
  generalize (wire sent).length / AES_BLOCK_SIZE = blocks at isIncoming whole
  have length := (length_encode (C := X.aes secret) init (Nat.le_of_eq whole)).1
  -- the blocks that came as a whole are decoded
  have plain : (decode (X.aes secret) (min count (wire sent).length / AES_BLOCK_SIZE) (X.init secret)
      ((encode (X.aes secret) blocks (X.init secret) (wire sent)).1.take count)).1 =
        (wire sent).take (AES_BLOCK_SIZE * (min count (wire sent).length / AES_BLOCK_SIZE)) := by
    generalize isCame : min count (wire sent).length / AES_BLOCK_SIZE = came
    have fits : AES_BLOCK_SIZE * came ≤ min count (wire sent).length := isCame ▸ Nat.mul_div_le ..
    obtain ⟨more,isMore⟩ : ∃ more, blocks = came + more := by
      refine Nat.exists_eq_add_of_le (Nat.le_of_mul_le_mul_left ?_ (show 0 < AES_BLOCK_SIZE by decide))
      omega
    rw [decode_take _ (by omega),isMore,encode_add,decode_encode init (by omega)]
  have accepted := accept_seen X b on_message before incoming arrivals delegate
  rw [isIncoming,if_pos (by rw [List.length_append,key]; exact Nat.le_add_right ..),List.take_left' key,List.drop_left' key] at accepted
  simp only [X.shared b a,isSecret,List.length_take,length,whole,plain] at accepted
  obtain ⟨k,fits,next,seen⟩ := read_loop_cut on_message sized (AES_BLOCK_SIZE * (min count (wire sent).length / AES_BLOCK_SIZE))
    before delegate
  have below : AES_BLOCK_SIZE * (min count (wire sent).length / AES_BLOCK_SIZE) ≤ min count (wire sent).length := Nat.mul_div_le ..
  refine ⟨k,by omega,fun p there => ?_,?_⟩
  · obtain ⟨frames,isFrames⟩ := length_wire (show ∀ p ∈ sent.take (k + 1), p.1.Sized from
      fun p member => sized p (List.mem_of_mem_take member))
    have inside := length_wire_take sent (k + 1)
    have later := next p there
    rw [isFrames] at inside later ⊢
    have later : 16 * (min count (wire sent).length / 16) < 16 * frames := later
    have inside : 16 * frames ≤ (wire sent).length := inside
    show count < 16 * frames
    omega
  · rw [isIncoming,accepted,seen]

end

end Decent.Connection

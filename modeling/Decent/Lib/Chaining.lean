import Mathlib.Data.List.Basic

/-!
Ciphers of blocks in a chain. Each block is mixed with the block of ciphertext before it, so that
both ends keep the last one between two calls; a text may then be given, and taken, in any pieces
of whole blocks.
-/
namespace Chaining

/-- A cipher of blocks of one size under some key. -/
structure BlockCipher (size : Nat) where
  encrypt : List UInt8 → List UInt8
  decrypt : List UInt8 → List UInt8
  length_encrypt {block : List UInt8} : block.length = size → (encrypt block).length = size
  length_decrypt {block : List UInt8} : block.length = size → (decrypt block).length = size
  decrypt_encrypt {block : List UInt8} : block.length = size → decrypt (encrypt block) = block

def mix (block last : List UInt8) : List UInt8 := List.zipWith (· ^^^ ·) block last

theorem length_mix {block last : List UInt8} {size : Nat} (whole : block.length = size) (whole' : last.length = size) :
    (mix block last).length = size := by
  rw [mix,List.length_zipWith,whole,whole',Nat.min_self]

theorem mix_mix {block last : List UInt8} (same : block.length = last.length) : mix (mix block last) last = block := by
  induction block generalizing last with
  | nil => rfl
  | cons b block ih =>
    cases last with
    | nil => cases same
    | cons l last =>
      show (b ^^^ l ^^^ l) :: mix (mix block last) last = _
      rw [UInt8.xor_assoc,UInt8.xor_self,UInt8.xor_zero,ih (Nat.succ.inj same)]

variable {size : Nat} (C : BlockCipher size)

/-- So many blocks of a text, given the last block of ciphertext; and the last one afterwards. -/
def encode : Nat → List UInt8 → List UInt8 → List UInt8 × List UInt8
  | 0, last, _ => ([],last)
  | n + 1, last, text =>
    let block := C.encrypt (mix (text.take size) last)
    let (rest,last) := encode n block (text.drop size)
    (block ++ rest,last)

def decode : Nat → List UInt8 → List UInt8 → List UInt8 × List UInt8
  | 0, last, _ => ([],last)
  | n + 1, last, text =>
    let block := text.take size
    let (rest,newest) := decode n block (text.drop size)
    (mix (C.decrypt block) last ++ rest,newest)

/-! ### Pieces -/

theorem encode_add (m n : Nat) (last text : List UInt8) : encode C (m + n) last text =
    ((encode C m last text).1 ++ (encode C n (encode C m last text).2 (text.drop (size * m))).1,
      (encode C n (encode C m last text).2 (text.drop (size * m))).2) := by
  induction m generalizing last text with
  | zero => simp [encode]
  | succ m ih =>
    rw [Nat.succ_add,encode,ih,encode]
    simp only [List.append_assoc,List.drop_drop,Nat.mul_succ,Nat.add_comm size]

theorem decode_add (m n : Nat) (last text : List UInt8) : decode C (m + n) last text =
    ((decode C m last text).1 ++ (decode C n (decode C m last text).2 (text.drop (size * m))).1,
      (decode C n (decode C m last text).2 (text.drop (size * m))).2) := by
  induction m generalizing last text with
  | zero => simp [decode]
  | succ m ih =>
    rw [Nat.succ_add,decode,ih,decode]
    simp only [List.append_assoc,List.drop_drop,Nat.mul_succ,Nat.add_comm size]

/-- What comes behind the blocks that are read makes no difference. -/
theorem decode_take {n : Nat} {count : Nat} (enough : size * n ≤ count) (last text : List UInt8) :
    decode C n last (text.take count) = decode C n last text := by
  induction n generalizing last text count with
  | zero => rfl
  | succ n ih =>
    rw [Nat.mul_succ] at enough
    have block : (text.take count).take size = text.take size := by rw [List.take_take,Nat.min_eq_left (by omega)]
    have behind : (text.take count).drop size = (text.drop size).take (count - size) := List.drop_take ..
    rw [decode,decode,block,behind,ih (by omega)]

theorem encode_take {n : Nat} {count : Nat} (enough : size * n ≤ count) (last text : List UInt8) :
    encode C n last (text.take count) = encode C n last text := by
  induction n generalizing last text count with
  | zero => rfl
  | succ n ih =>
    rw [Nat.mul_succ] at enough
    have block : (text.take count).take size = text.take size := by rw [List.take_take,Nat.min_eq_left (by omega)]
    have behind : (text.take count).drop size = (text.drop size).take (count - size) := List.drop_take ..
    rw [encode,encode,block,behind,ih (by omega)]

/-! ### Sizes -/

section
variable {C} {n : Nat} {last text : List UInt8}

theorem length_encode (whole : last.length = size) (enough : size * n ≤ text.length) :
    (encode C n last text).1.length = size * n ∧ (encode C n last text).2.length = size := by
  induction n generalizing last text with
  | zero => exact ⟨rfl,whole⟩
  | succ n ih =>
    rw [Nat.mul_succ] at enough
    have block := C.length_encrypt (length_mix (List.length_take_of_le (by omega : size ≤ text.length)) whole)
    have behind : size * n ≤ (text.drop size).length := by rw [List.length_drop]; omega
    obtain ⟨length,newest⟩ := ih block behind
    refine ⟨?_,newest⟩
    show (_ ++ (encode C n _ _).1).length = _
    rw [List.length_append,block,length,Nat.mul_succ,Nat.add_comm]

theorem length_decode (whole : last.length = size) (enough : size * n ≤ text.length) :
    (decode C n last text).1.length = size * n ∧ (decode C n last text).2.length = size := by
  induction n generalizing last text with
  | zero => exact ⟨rfl,whole⟩
  | succ n ih =>
    rw [Nat.mul_succ] at enough
    have block : (text.take size).length = size := List.length_take_of_le (by omega)
    have behind : size * n ≤ (text.drop size).length := by rw [List.length_drop]; omega
    obtain ⟨length,newest⟩ := ih block behind
    refine ⟨?_,newest⟩
    show (_ ++ (decode C n _ _).1).length = _
    rw [List.length_append,length_mix (C.length_decrypt block) whole,length,Nat.mul_succ,Nat.add_comm]

/-- What was encoded is decoded, and both ends keep the same block. -/
theorem decode_encode (whole : last.length = size) (enough : size * n ≤ text.length) (rest : List UInt8) :
    decode C n last ((encode C n last text).1 ++ rest) = (text.take (size * n),(encode C n last text).2) := by
  induction n generalizing last text with
  | zero => simp [decode,encode]
  | succ n ih =>
    rw [Nat.mul_succ] at enough
    have plain : (text.take size).length = size := List.length_take_of_le (by omega)
    have block := C.length_encrypt (length_mix plain whole)
    have behind : size * n ≤ (text.drop size).length := by rw [List.length_drop]; omega
    have later := ih block behind
    show decode C (n + 1) last ((C.encrypt (mix (text.take size) last) ++ (encode C n _ _).1) ++ rest) = _
    rw [decode,List.append_assoc,List.take_left' block,List.drop_left' block,later,
      C.decrypt_encrypt (length_mix plain whole),mix_mix (plain.trans whole.symm)]
    refine Prod.ext ?_ rfl
    show text.take size ++ (text.drop size).take (size * n) = _
    rw [Nat.mul_succ,Nat.add_comm,List.take_add]

end

end Chaining

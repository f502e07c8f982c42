import Decent.Delivery
import Decent.Lib.Bytes

/-!
ElGamal encryption with its buffers: the two halves of a message are written one behind the other and
read as one number, and a decrypted number is written and read in two halves.
-/
namespace Decent.ElGamal
open Modular
open Decent.Encrypt (GroupParameters Ciphertext point messageBits elementBits get_public_el_gamal_key)

def DECENT_MESSAGE_SIZE : ℕ := 32
def DECENT_EL_GAMAL_GROUP_ELEMENT_SIZE : ℕ := 64

/-- `Integer::Encode`: so many of the lowest bytes of the magnitude, the highest first. -/
def Encode (n : ℤ) (outputLen : ℕ) : List UInt8 := (Bytes.little outputLen n.natAbs).reverse

/-- `Integer::Decode` -/
def Decode (input : List UInt8) : ℤ := Bytes.value input.reverse

section
variable (G : GroupParameters)

def el_gamal_encrypt (message : point) (publicKey randomizer : ℤ) : Ciphertext :=
  let buffer := Encode message.1 DECENT_MESSAGE_SIZE ++ Encode message.2 DECENT_MESSAGE_SIZE
  let m := Decode buffer
  { D1 := exponentiate G.modulus G.generator randomizer
    C1 := multiply G.modulus m (exponentiate G.modulus publicKey randomizer) }

def el_gamal_decrypt (input : Ciphertext) (privateKey : ℤ) : point :=
  let s := exponentiate G.modulus input.D1 privateKey
  let m := multiply G.modulus input.C1 (multiplicative_inverse G.modulus s)
  let recovered := Encode m DECENT_EL_GAMAL_GROUP_ELEMENT_SIZE
  (Decode (recovered.take DECENT_MESSAGE_SIZE),Decode (recovered.drop DECENT_MESSAGE_SIZE))

end

/-! ### The buffers -/

theorem decode_encode (n : ℤ) (width : ℕ) : Decode (Encode n width) = (n.natAbs % 256 ^ width : ℕ) := by
  rw [Decode,Encode,List.reverse_reverse,Bytes.value_little]

/-- Two halves one behind the other. -/
theorem decode_append (x y : ℤ) (high low : ℕ) :
    Decode (Encode x high ++ Encode y low) = (x.natAbs % 256 ^ high * 256 ^ low + y.natAbs % 256 ^ low : ℕ) := by
  rw [Decode,List.reverse_append,Encode,Encode,List.reverse_reverse,List.reverse_reverse,Bytes.value_append,
    Bytes.length_little,Bytes.value_little,Bytes.value_little,Nat.add_comm,Nat.mul_comm]

/-- The bytes of a number are those of its high and of its low part. -/
theorem encode_add (n : ℤ) (high low : ℕ) : Encode n (high + low) = Encode (n.natAbs / 256 ^ low : ℕ) high ++ Encode n low := by
  rw [Encode,Nat.add_comm,Bytes.little_add,List.reverse_append,Encode,Encode,Int.natAbs_natCast]

theorem length_encode (n : ℤ) (width : ℕ) : (Encode n width).length = width := by
  rw [Encode,List.length_reverse,Bytes.length_little]

theorem message_bytes : (256 : ℕ) ^ DECENT_MESSAGE_SIZE = 2 ^ messageBits := by
  rw [messageBits,Nat.pow_mul]
  rfl

/-- The buffer of a message holds its encoding. -/
theorem encode_message {message : point} (first : 0 ≤ message.1) (second : 0 ≤ message.2) :
    Decode (Encode message.1 DECENT_MESSAGE_SIZE ++ Encode message.2 DECENT_MESSAGE_SIZE) = Encrypt.encode message := by
  rw [decode_append,message_bytes,Encrypt.encode,Int.natCast_add,Int.natCast_mul,Int.natCast_mod,Int.natCast_mod,
    Int.natAbs_of_nonneg first,Int.natAbs_of_nonneg second]
  norm_cast

/-- The halves of a buffer are those of its number. -/
theorem decode_element {m : ℤ} (nonneg : 0 ≤ m) :
    (Decode ((Encode m DECENT_EL_GAMAL_GROUP_ELEMENT_SIZE).take DECENT_MESSAGE_SIZE),
      Decode ((Encode m DECENT_EL_GAMAL_GROUP_ELEMENT_SIZE).drop DECENT_MESSAGE_SIZE)) = Encrypt.decode m := by
  obtain ⟨n,rfl⟩ := Int.eq_ofNat_of_zero_le nonneg
  have halves : DECENT_EL_GAMAL_GROUP_ELEMENT_SIZE = DECENT_MESSAGE_SIZE + DECENT_MESSAGE_SIZE := rfl
  have high : (Encode (n : ℤ) DECENT_EL_GAMAL_GROUP_ELEMENT_SIZE).take DECENT_MESSAGE_SIZE =
      Encode (n / 256 ^ DECENT_MESSAGE_SIZE : ℕ) DECENT_MESSAGE_SIZE := by
    rw [halves,encode_add]
    exact List.take_left' (length_encode _ _)
  have low : (Encode (n : ℤ) DECENT_EL_GAMAL_GROUP_ELEMENT_SIZE).drop DECENT_MESSAGE_SIZE =
      Encode n DECENT_MESSAGE_SIZE := by
    rw [halves,encode_add]
    exact List.drop_left' (length_encode _ _)
  rw [high,low,decode_encode,decode_encode,message_bytes,Int.natAbs_natCast,Int.natAbs_natCast,Encrypt.decode,
    Encrypt.elementBits_eq]
  refine Prod.ext ?_ ?_
  · show ((n / 2 ^ messageBits % 2 ^ messageBits : ℕ) : ℤ) = n % 2 ^ (messageBits + messageBits) / 2 ^ messageBits
    rw [← Nat.mod_mul_right_div_self,← Nat.pow_add]
    norm_cast
  · show ((n % 2 ^ messageBits : ℕ) : ℤ) = n % 2 ^ messageBits
    norm_cast

/-! ### There and back -/

section
variable (G : GroupParameters)

/-- With the buffers the functions do what they do with the numbers. -/
theorem el_gamal_encrypt_eq {message : point} (first : 0 ≤ message.1) (second : 0 ≤ message.2) (publicKey randomizer : ℤ) :
    el_gamal_encrypt G message publicKey randomizer = Encrypt.el_gamal_encrypt G message publicKey randomizer := by
  have m := encode_message first second
  rw [Encrypt.el_gamal_encrypt,← m]
  rfl

theorem el_gamal_decrypt_eq (input : Ciphertext) (privateKey : ℤ) :
    el_gamal_decrypt G input privateKey = Encrypt.el_gamal_decrypt G input privateKey :=
  decode_element (reduced_multiply (p := G.modulus) _ _).1

/-- A message that is encrypted for a private key is read with it. -/
theorem el_gamal_round_trip (privateKey randomizer : ℤ) (message : point)
    (first : 0 ≤ message.1 ∧ message.1 < 2 ^ 256) (second : 0 ≤ message.2 ∧ message.2 < 2 ^ 256)
    (below : message.1 * 2 ^ 256 + message.2 < G.modulus) :
    el_gamal_decrypt G (el_gamal_encrypt G message (get_public_el_gamal_key G privateKey) randomizer) privateKey = message := by
  have encoded : Encrypt.encode message = message.1 * 2 ^ 256 + message.2 := by
    show message.1 % 2 ^ 256 * 2 ^ 256 + message.2 % 2 ^ 256 = _
    rw [Int.emod_eq_of_lt first.1 first.2,Int.emod_eq_of_lt second.1 second.2]
  have reduced : Reduced G.modulus (Encrypt.encode message) := by
    rw [encoded]
    exact ⟨add_nonneg (mul_nonneg first.1 (by decide)) second.1,below⟩
  have read := Encrypt.decode_encode first second
  rw [el_gamal_encrypt_eq G first.1 second.1,el_gamal_decrypt_eq]
  exact ((Encrypt.decrypt_eq_decode G reduced).mpr (Encrypt.plain_encrypt G message privateKey randomizer)).trans read

end

/-- Three to the fifth, modulo seven. -/
theorem el_gamal_round_trip_seven : el_gamal_decrypt Encrypt.seven
    (el_gamal_encrypt Encrypt.seven (0,5) (get_public_el_gamal_key Encrypt.seven 5) 4) 5 = (0,5) :=
  el_gamal_round_trip Encrypt.seven 5 4 (0,5) (by decide) (by decide) (by decide)

end Decent.ElGamal

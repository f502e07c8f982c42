import Decent.Lib.Modular

/-!
Keys that a seeder hands over: ElGamal encryption modulo a prime, and the proof that what
the consumer can decrypt is what the seeder could. The verifier multiplies and inverts
whatever numbers the operations carry; a number without an inverse has zero in its place,
and a product with a zero in it no longer says anything about the rest.
-/
namespace Decent.Encrypt
open Modular

def DECENT_EL_GAMAL_MODULUS_512 : ℕ :=
  11760620558671662461946567396662025495126946227619472274601251081547302009186313201119191293557856181195016058359990840577430081932807832465057884143546419

def DECENT_EL_GAMAL_GROUP_GENERATOR : ℤ := 3

/-- `DECENT_MESSAGE_SIZE`, in bits. -/
def messageBits : ℕ := 8 * 32
/-- `DECENT_EL_GAMAL_GROUP_ELEMENT_SIZE`, in bits. -/
def elementBits : ℕ := 8 * 64

theorem elementBits_eq : elementBits = messageBits + messageBits := rfl

/-- A prime modulus that fits into an element, and the base of the public keys. -/
structure GroupParameters where
  modulus : ℕ
  generator : ℤ
  prime : modulus.Prime
  odd : 2 < modulus
  fits : modulus ≤ 2 ^ elementBits
  unit : ¬ (modulus : ℤ) ∣ generator

theorem modulus_fits : DECENT_EL_GAMAL_MODULUS_512 ≤ 2 ^ elementBits := by
  rw [elementBits_eq,Nat.pow_add]
  decide

/-- The group of the source, if its modulus is the prime it should be. -/
def decent_parameters (prime : DECENT_EL_GAMAL_MODULUS_512.Prime) : GroupParameters :=
  ⟨DECENT_EL_GAMAL_MODULUS_512,DECENT_EL_GAMAL_GROUP_GENERATOR,prime,by decide,modulus_fits,by decide⟩

instance (G : GroupParameters) : Fact G.modulus.Prime := ⟨G.prime⟩

structure Ciphertext where
  C1 : ℤ
  D1 : ℤ
deriving DecidableEq

structure DeliveryProof where
  G1 : ℤ
  G2 : ℤ
  G3 : ℤ
  s : ℤ
  r : ℤ
deriving DecidableEq

/-- A message: two numbers. -/
abbrev point := ℤ × ℤ

/-- The two halves of a message in one number; `Encode` keeps the low bytes. -/
def encode (message : point) : ℤ := message.1 % 2 ^ messageBits * 2 ^ messageBits + message.2 % 2 ^ messageBits

/-- The two halves of the low bytes of a number. -/
def decode (m : ℤ) : point := (m % 2 ^ elementBits / 2 ^ messageBits,m % 2 ^ messageBits)

section
variable (G : GroupParameters)

def get_public_el_gamal_key (privateKey : ℤ) : ℤ := exponentiate G.modulus G.generator privateKey

def el_gamal_encrypt (message : point) (publicKey randomizer : ℤ) : Ciphertext where
  D1 := exponentiate G.modulus G.generator randomizer
  C1 := multiply G.modulus (encode message) (exponentiate G.modulus publicKey randomizer)

def el_gamal_decrypt (input : Ciphertext) (privateKey : ℤ) : point :=
  let s := exponentiate G.modulus input.D1 privateKey
  decode (multiply G.modulus input.C1 (multiplicative_inverse G.modulus s))

/-- The three equations of `verify_delivery_proof`, for the challenge `x`. -/
def accepts (proof : DeliveryProof) (first second : Ciphertext) (firstPublicKey secondPublicKey x : ℤ) : Bool :=
  let mul := multiply G.modulus
  let pow := exponentiate G.modulus
  let inverse := multiplicative_inverse G.modulus
  pow G.generator proof.s = mul (pow firstPublicKey x) proof.G1 &&
    pow G.generator proof.r = mul (pow second.D1 x) proof.G2 &&
    mul (mul (mul (pow second.C1 x) (inverse (pow first.C1 x))) (pow first.D1 proof.s))
      (inverse (pow secondPublicKey proof.r)) = proof.G3

/-- What the challenge is computed from. -/
abbrev HashElements := Ciphertext → Ciphertext → ℤ → ℤ → ℤ → ℤ → ℤ → ℤ

def verify_delivery_proof (hash_elements : HashElements) (proof : DeliveryProof) (first second : Ciphertext)
    (firstPublicKey secondPublicKey : ℤ) : Bool :=
  accepts G proof first second firstPublicKey secondPublicKey
    (hash_elements first second firstPublicKey secondPublicKey proof.G1 proof.G2 proof.G3)

/-- `encrypt_with_proof`, with the numbers it draws. -/
def encrypt_with_proof (hash_elements : HashElements) (message : point) (privateKey destinationPublicKey : ℤ)
    (incoming : Ciphertext) (randomizer b1 b2 : ℤ) : Ciphertext × DeliveryProof :=
  let pow := exponentiate G.modulus
  let outgoing := el_gamal_encrypt G message destinationPublicKey randomizer
  let myPublicElement := pow G.generator privateKey
  let G1 := pow G.generator b1
  let G2 := pow G.generator b2
  let G3 := multiply G.modulus (pow incoming.D1 b1) (multiplicative_inverse G.modulus (pow destinationPublicKey b2))
  let x := hash_elements incoming outgoing myPublicElement destinationPublicKey G1 G2 G3
  (outgoing,⟨G1,G2,G3,privateKey * x + b1,randomizer * x + b2⟩)

end

/-! ### Encodings -/

theorem decode_injective {m n : ℤ} (left : 0 ≤ m ∧ m < 2 ^ elementBits) (right : 0 ≤ n ∧ n < 2 ^ elementBits) :
    decode m = decode n ↔ m = n := by
  constructor
  · intro same
    obtain ⟨high,low⟩ := Prod.mk.inj same
    rw [Int.emod_eq_of_lt left.1 left.2,Int.emod_eq_of_lt right.1 right.2] at high
    rw [← Int.mul_ediv_add_emod m (2 ^ messageBits),← Int.mul_ediv_add_emod n (2 ^ messageBits),high,low]
  · rintro rfl
    rfl

theorem decode_encode {message : point} (first : 0 ≤ message.1 ∧ message.1 < 2 ^ messageBits)
    (second : 0 ≤ message.2 ∧ message.2 < 2 ^ messageBits) : decode (encode message) = message := by
  obtain ⟨x,y⟩ := message
  dsimp only at first second
  have split : (2 : ℤ) ^ elementBits = 2 ^ messageBits * 2 ^ messageBits := by
    rw [elementBits_eq,pow_add]
  have base : (0 : ℤ) < 2 ^ messageBits := pow_pos two_pos _
  have small : x * 2 ^ messageBits + y < 2 ^ elementBits := by
    rw [split]
    nlinarith
  have positive : 0 ≤ x * 2 ^ messageBits + y := add_nonneg (mul_nonneg first.1 base.le) second.1
  simp only [encode,decode,Int.emod_eq_of_lt first.1 first.2,Int.emod_eq_of_lt second.1 second.2,
    Int.emod_eq_of_lt positive small]
  refine Prod.ext ?_ ?_
  · show (x * 2 ^ messageBits + y) / 2 ^ messageBits = x
    rw [Int.add_comm,Int.add_mul_ediv_right _ _ base.ne',Int.ediv_eq_zero_of_lt second.1 second.2,zero_add]
  · show (x * 2 ^ messageBits + y) % 2 ^ messageBits = y
    rw [Int.add_comm,Int.add_mul_emod_self_right,Int.emod_eq_of_lt second.1 second.2]

/-! ### In the field -/

section
variable (G : GroupParameters)

instance : NeZero G.modulus := ⟨G.prime.ne_zero⟩

theorem generator_ne_zero : (G.generator : ZMod G.modulus) ≠ 0 := mt (cast_eq_zero_iff _).mp G.unit

theorem cast_public_key (a : ℤ) : ((get_public_el_gamal_key G a : ℤ) : ZMod G.modulus) = (G.generator : ZMod G.modulus) ^ a :=
  cast_exponentiate _ _

theorem accepts_iff (proof : DeliveryProof) (first second : Ciphertext) (k₁ k₂ x : ℤ) :
    accepts G proof first second k₁ k₂ x = true ↔
      (G.generator : ZMod G.modulus) ^ proof.s = (k₁ : ZMod G.modulus) ^ x * proof.G1 ∧
      (G.generator : ZMod G.modulus) ^ proof.r = (second.D1 : ZMod G.modulus) ^ x * proof.G2 ∧
      Reduced G.modulus proof.G3 ∧
      (second.C1 : ZMod G.modulus) ^ x * ((first.C1 : ZMod G.modulus) ^ x)⁻¹ * (first.D1 : ZMod G.modulus) ^ proof.s *
        ((k₂ : ZMod G.modulus) ^ proof.r)⁻¹ = proof.G3 := by
  simp only [accepts,Bool.and_eq_true,decide_eq_true_eq,and_assoc]
  refine and_congr ?_ (and_congr ?_ ?_)
  · rw [eq_iff_cast (reduced_exponentiate _ _) (reduced_multiply _ _),cast_exponentiate,cast_multiply,cast_exponentiate]
  · rw [eq_iff_cast (reduced_exponentiate _ _) (reduced_multiply _ _),cast_exponentiate,cast_multiply,cast_exponentiate]
  · constructor
    · intro same
      have reduced := reduced_multiply (p := G.modulus)
        (multiply G.modulus (multiply G.modulus (exponentiate G.modulus second.C1 x)
          (multiplicative_inverse G.modulus (exponentiate G.modulus first.C1 x))) (exponentiate G.modulus first.D1 proof.s))
        (multiplicative_inverse G.modulus (exponentiate G.modulus k₂ proof.r))
      rw [same] at reduced
      refine ⟨reduced,?_⟩
      rw [← same]
      simp only [cast_multiply,cast_inverse,cast_exponentiate]
    · rintro ⟨reduced,same⟩
      rw [eq_iff_cast (reduced_multiply _ _) reduced,← same]
      simp only [cast_multiply,cast_inverse,cast_exponentiate]

/-- What a ciphertext holds for a key. -/
def plain (c : Ciphertext) (a : ℤ) : ZMod G.modulus := c.C1 * ((c.D1 : ZMod G.modulus) ^ a)⁻¹

theorem reduced_fits {m : ℤ} (reduced : Reduced G.modulus m) : 0 ≤ m ∧ m < 2 ^ elementBits := by
  refine ⟨reduced.1,lt_of_lt_of_le reduced.2 ?_⟩
  have fits := G.fits
  exact_mod_cast fits

/-- Decryption is the number that stands for the plaintext. -/
theorem decrypt_eq_decode {c : Ciphertext} {a m : ℤ} (reduced : Reduced G.modulus m) :
    el_gamal_decrypt G c a = decode m ↔ plain G c a = m := by
  rw [el_gamal_decrypt,decode_injective (reduced_fits G (reduced_multiply _ _)) (reduced_fits G reduced),
    eq_iff_cast (reduced_multiply _ _) reduced,cast_multiply,cast_inverse,cast_exponentiate,plain]

theorem decrypt_eq_iff (c d : Ciphertext) (a b : ℤ) :
    el_gamal_decrypt G c a = el_gamal_decrypt G d b ↔ plain G c a = plain G d b := by
  have reduced := reduced_multiply (p := G.modulus) d.C1 (multiplicative_inverse G.modulus (exponentiate G.modulus d.D1 b))
  show el_gamal_decrypt G c a = decode _ ↔ _
  rw [decrypt_eq_decode G reduced,cast_multiply,cast_inverse,cast_exponentiate,plain,plain]

end

/-! ### Honest proofs -/

/-- Powers add up also at zero, where the first of them is none. -/
theorem zpow_add_of_ne_zero {K : Type*} [Field K] {d : K} {a : ℤ} (nonzero : d ^ a ≠ 0) (x b : ℤ) :
    d ^ (a * x + b) = (d ^ a) ^ x * d ^ b := by
  by_cases zero : d = 0
  · have none : a = 0 := by
      by_contra some
      exact nonzero (by rw [zero,zero_zpow _ some])
    rw [none,zero_mul,zero_add,zpow_zero,one_zpow,one_mul]
  · rw [zpow_add₀ zero,zpow_mul]

section
variable (G : GroupParameters)

/-- Whatever the challenge, the answers to it satisfy the equations. -/
theorem honest_answers_accepted (a b : ℤ) (message : point) (incoming : Ciphertext) (randomizer b1 b2 x : ℤ)
    (unit : ((encode message : ℤ) : ZMod G.modulus) ≠ 0) (plaintext : plain G incoming a = encode message) :
    accepts G ⟨exponentiate G.modulus G.generator b1,exponentiate G.modulus G.generator b2,
      multiply G.modulus (exponentiate G.modulus incoming.D1 b1)
        (multiplicative_inverse G.modulus (exponentiate G.modulus (get_public_el_gamal_key G b) b2)),
      a * x + b1,randomizer * x + b2⟩ incoming (el_gamal_encrypt G message (get_public_el_gamal_key G b) randomizer)
      (get_public_el_gamal_key G a) (get_public_el_gamal_key G b) x = true := by
  have base := generator_ne_zero G
  have key := zpow_ne_zero b base
  have power : (incoming.D1 : ZMod G.modulus) ^ a ≠ 0 := by
    intro zero
    rw [plain,zero,inv_zero,mul_zero] at plaintext
    exact unit plaintext.symm
  have content : (incoming.C1 : ZMod G.modulus) = encode message * (incoming.D1 : ZMod G.modulus) ^ a := by
    rw [← plaintext,plain,inv_mul_cancel_right₀ power]
  rw [accepts_iff]
  refine ⟨?_,?_,reduced_multiply _ _,?_⟩
  · rw [cast_public_key,cast_exponentiate,zpow_add₀ base,zpow_mul]
  · rw [el_gamal_encrypt,cast_exponentiate,cast_exponentiate,zpow_add₀ base,zpow_mul]
  · simp only [el_gamal_encrypt,cast_exponentiate,cast_public_key,cast_multiply,cast_inverse]
    rw [content,zpow_add_of_ne_zero power,zpow_add₀ key,zpow_mul (_ ^ b),mul_zpow,mul_zpow]
    have shared := zpow_ne_zero x (zpow_ne_zero randomizer key)
    field_simp

/-- What is encrypted for a key, the key holds. -/
theorem plain_encrypt (message : point) (b randomizer : ℤ) :
    plain G (el_gamal_encrypt G message (get_public_el_gamal_key G b) randomizer) b = encode message := by
  simp only [plain,el_gamal_encrypt,cast_exponentiate,cast_public_key,cast_multiply]
  rw [← zpow_mul,← zpow_mul,mul_comm b randomizer,mul_inv_cancel_right₀ (zpow_ne_zero _ (generator_ne_zero G))]

theorem honest_delivery_accepted (hash_elements : HashElements) (a b : ℤ) (message : point)
    (first : 0 ≤ message.1 ∧ message.1 < 2 ^ messageBits) (second : 0 ≤ message.2 ∧ message.2 < 2 ^ messageBits)
    (nonzero : encode message ≠ 0) (below : encode message < G.modulus) (incoming : Ciphertext)
    (decrypts : el_gamal_decrypt G incoming a = message) (randomizer b1 b2 : ℤ) :
    let made := encrypt_with_proof G hash_elements message a (get_public_el_gamal_key G b) incoming randomizer b1 b2
    verify_delivery_proof G hash_elements made.2 incoming made.1 (get_public_el_gamal_key G a)
        (get_public_el_gamal_key G b) = true ∧ el_gamal_decrypt G made.1 b = message := by
  intro made
  have positive : 0 ≤ encode message :=
    add_nonneg (mul_nonneg (Int.emod_nonneg _ (pow_pos two_pos _).ne') (pow_pos two_pos _).le)
      (Int.emod_nonneg _ (pow_pos two_pos _).ne')
  have encoded : Reduced G.modulus (encode message) := ⟨positive,below⟩
  have unit : ((encode message : ℤ) : ZMod G.modulus) ≠ 0 := by
    rw [Ne,← Int.cast_zero,← eq_iff_cast encoded ⟨le_rfl,lt_of_le_of_lt positive below⟩]
    exact nonzero
  have read := decode_encode first second
  have plaintext : plain G incoming a = encode message :=
    (decrypt_eq_decode G encoded).mp (decrypts.trans read.symm)
  refine ⟨honest_answers_accepted G a b message incoming randomizer b1 b2 _ unit plaintext,?_⟩
  rw [← read,decrypt_eq_decode G encoded]
  exact plain_encrypt G message b randomizer

/-- Exponents modulo six, with three as the generator. -/
def seven : GroupParameters := ⟨7,3,by decide,by decide,by rw [elementBits_eq,Nat.pow_add]; decide,by decide⟩

theorem honest_delivery_accepted_seven :
    let incoming := el_gamal_encrypt seven (0,5) (get_public_el_gamal_key seven 2) 4
    let made := encrypt_with_proof seven (fun _ _ _ _ _ _ G3 => G3) (0,5) 2 (get_public_el_gamal_key seven 3) incoming 2 1 4
    verify_delivery_proof seven (fun _ _ _ _ _ _ G3 => G3) made.2 incoming made.1 (get_public_el_gamal_key seven 2)
        (get_public_el_gamal_key seven 3) = true ∧ el_gamal_decrypt seven made.1 3 = (0,5) :=
  honest_delivery_accepted seven (fun _ _ _ _ _ _ G3 => G3) 2 3 (0,5) (by decide) (by decide) (by decide) (by decide)
    (el_gamal_encrypt seven (0,5) (get_public_el_gamal_key seven 2) 4) (by decide +kernel) 2 1 4

end

/-! ### Special soundness -/

section
variable (G : GroupParameters)

/-- Whatever the commitments, two accepted answers with challenges that differ by a unit show that
    both keys decrypt to the same. -/
def SpecialSound (first second : Ciphertext) (a b : ℤ) : Prop :=
  ∀ G1 G2 G3 x s r x' s' r' : ℤ,
    accepts G ⟨G1,G2,G3,s,r⟩ first second (get_public_el_gamal_key G a) (get_public_el_gamal_key G b) x = true →
    accepts G ⟨G1,G2,G3,s',r'⟩ first second (get_public_el_gamal_key G a) (get_public_el_gamal_key G b) x' = true →
    IsCoprime (x - x') ((G.modulus - 1 : ℕ) : ℤ) → el_gamal_decrypt G second b = el_gamal_decrypt G first a

/-- No number of the two ciphertexts is a multiple of the modulus; or nothing is accepted, because
    the last one is; or the multiples are such that both keys decrypt to the same. -/
def NonDegenerate (first second : Ciphertext) (a b : ℤ) : Prop :=
  (¬ (G.modulus : ℤ) ∣ first.C1 ∧ ¬ (G.modulus : ℤ) ∣ first.D1 ∧ ¬ (G.modulus : ℤ) ∣ second.C1) ∨
  (G.modulus : ℤ) ∣ second.D1 ∨
  ((G.modulus : ℤ) ∣ second.C1 ∧ ((G.modulus : ℤ) ∣ first.C1 ∨ (G.modulus : ℤ) ∣ first.D1 ∧ a ≠ 0)) ∨
  ((G.modulus : ℤ) ∣ first.D1 ∧ a = 0 ∧
    (G.modulus : ℤ) ∣ second.C1 - first.C1 * exponentiate G.modulus second.D1 b)

variable {G}

/-- Challenges that differ by a unit are not equal. -/
theorem challenges_differ {x x' : ℤ} (coprime : IsCoprime (x - x') ((G.modulus - 1 : ℕ) : ℤ)) : x ≠ 0 ∨ x' ≠ 0 := by
  by_contra both
  rw [not_or,not_not,not_not] at both
  rw [both.1,both.2,sub_zero,isCoprime_zero_left,Int.isUnit_iff] at coprime
  have odd := G.odd
  omega

/-- An accepted answer to a challenge other than zero has a unit in `second.D1`. -/
theorem second_unit {proof : DeliveryProof} {first second : Ciphertext} {k₁ k₂ x : ℤ}
    (accepted : accepts G proof first second k₁ k₂ x = true) (nonzero : x ≠ 0) : ¬ (G.modulus : ℤ) ∣ second.D1 := by
  intro divides
  obtain ⟨-,random,-⟩ := (accepts_iff G proof first second k₁ k₂ x).mp accepted
  rw [(cast_eq_zero_iff _).mpr divides,zero_zpow _ nonzero,zero_mul] at random
  exact zpow_ne_zero _ (generator_ne_zero G) random

/-- Among units the two answers determine the plaintexts. -/
theorem plain_eq_of_units (generates : orderOf (G.generator : ZMod G.modulus) = G.modulus - 1)
    {first second : Ciphertext} {a b G1 G2 G3 x s r x' s' r' : ℤ}
    (accepted : accepts G ⟨G1,G2,G3,s,r⟩ first second (get_public_el_gamal_key G a) (get_public_el_gamal_key G b) x = true)
    (accepted' : accepts G ⟨G1,G2,G3,s',r'⟩ first second (get_public_el_gamal_key G a) (get_public_el_gamal_key G b) x' = true)
    (coprime : IsCoprime (x - x') ((G.modulus - 1 : ℕ) : ℤ)) (c₁ : (first.C1 : ZMod G.modulus) ≠ 0)
    (d₁ : (first.D1 : ZMod G.modulus) ≠ 0) (c₂ : (second.C1 : ZMod G.modulus) ≠ 0)
    (d₂ : (second.D1 : ZMod G.modulus) ≠ 0) : plain G second b = plain G first a := by
  obtain ⟨key,random,-,message⟩ := (accepts_iff G _ _ _ _ _ _).mp accepted
  obtain ⟨key',random',-,message'⟩ := (accepts_iff G _ _ _ _ _ _).mp accepted'
  simp only [cast_public_key] at key key' message message'
  have base := generator_ne_zero G
  have g₁ : (G1 : ZMod G.modulus) ≠ 0 := right_ne_zero_of_mul (key ▸ zpow_ne_zero s base)
  have g₂ : (G2 : ZMod G.modulus) ≠ 0 := right_ne_zero_of_mul (random ▸ zpow_ne_zero r base)
  have g₃ : (G3 : ZMod G.modulus) ≠ 0 := by
    rw [← message]
    exact mul_ne_zero (mul_ne_zero (mul_ne_zero (zpow_ne_zero _ c₂) (inv_ne_zero (zpow_ne_zero _ c₁))) (zpow_ne_zero _ d₁))
      (inv_ne_zero (zpow_ne_zero _ (zpow_ne_zero _ base)))
  have order : orderOf (Units.mk0 _ base) = G.modulus - 1 := by rw [← orderOf_units,Units.val_mk0,generates]
  have related : Units.mk0 _ c₂ * (Units.mk0 _ d₂ ^ b)⁻¹ = Units.mk0 _ c₁ * (Units.mk0 _ d₁ ^ a)⁻¹ := by
    refine @special_sound _ _ (G.modulus - 1) units_torsion _ order _ _ _ _ (.mk0 _ g₁) (.mk0 _ g₂) (.mk0 _ g₃)
      a b x s r x' s' r' coprime ?_ ?_ ?_ ?_ ?_ ?_
    · exact Units.ext (by simpa using key)
    · exact Units.ext (by simpa using key')
    · exact Units.ext (by simpa using random)
    · exact Units.ext (by simpa using random')
    · exact Units.ext (by simpa using message)
    · exact Units.ext (by simpa using message')
  simpa [plain] using congrArg Units.val related

/-- Every unit is a power of the generator. -/
theorem exists_log (generates : orderOf (G.generator : ZMod G.modulus) = G.modulus - 1) {d : ZMod G.modulus} (unit : d ≠ 0) :
    ∃ k : ℤ, (G.generator : ZMod G.modulus) ^ k = d := by
  have base := generator_ne_zero G
  have order : orderOf (Units.mk0 _ base) = G.modulus - 1 := by rw [← orderOf_units,Units.val_mk0,generates]
  have all : Subgroup.zpowers (Units.mk0 _ base) = ⊤ := by
    refine Subgroup.eq_top_of_card_eq _ ?_
    rw [Nat.card_zpowers,order,Nat.card_eq_fintype_card,ZMod.card_units]
  obtain ⟨k,power⟩ := Subgroup.mem_zpowers_iff.mp (all ▸ Subgroup.mem_top (Units.mk0 d unit))
  exact ⟨k,by simpa using congrArg Units.val power⟩

/-- With a zero among the factors of the last equation, anything is accepted. -/
theorem degenerate_accepted (generates : orderOf (G.generator : ZMod G.modulus) = G.modulus - 1)
    {first second : Ciphertext} (a b : ℤ) (d₂ : (second.D1 : ZMod G.modulus) ≠ 0)
    (zero : (first.C1 : ZMod G.modulus) = 0 ∨ (first.D1 : ZMod G.modulus) = 0 ∨ (second.C1 : ZMod G.modulus) = 0) :
    ∃ G1 G2 s r s' r' : ℤ,
      accepts G ⟨G1,G2,0,s,r⟩ first second (get_public_el_gamal_key G a) (get_public_el_gamal_key G b) 2 = true ∧
      accepts G ⟨G1,G2,0,s',r'⟩ first second (get_public_el_gamal_key G a) (get_public_el_gamal_key G b) 1 = true := by
  obtain ⟨k,log⟩ := exists_log generates d₂
  have base := generator_ne_zero G
  -- Far enough up, neither answer is zero, so that a zero in `first.D1` stays one.
  have large : ∃ t : ℤ, a * 2 + t ≠ 0 ∧ a + t ≠ 0 := ⟨2 * |a| + 1,by cases abs_cases a <;> omega,by cases abs_cases a <;> omega⟩
  obtain ⟨t,nonzero,nonzero'⟩ := large
  have positive : (0 : ℤ) < G.modulus := by exact_mod_cast G.prime.pos
  refine ⟨exponentiate G.modulus G.generator t,1,a * 2 + t,k * 2,a + t,k,?_,?_⟩
  · rw [accepts_iff]
    refine ⟨?_,?_,⟨le_rfl,positive⟩,?_⟩
    · rw [cast_public_key,cast_exponentiate,zpow_add₀ base,zpow_mul]
    · rw [zpow_mul,log,Int.cast_one,mul_one]
    · rcases zero with c₁ | d₁ | c₂
      · simp [c₁]
      · simp [d₁,zero_zpow _ nonzero]
      · simp [c₂]
  · rw [accepts_iff]
    refine ⟨?_,?_,⟨le_rfl,positive⟩,?_⟩
    · rw [cast_public_key,cast_exponentiate,zpow_add₀ base,zpow_one]
    · rw [zpow_one,log,Int.cast_one,mul_one]
    · rcases zero with c₁ | d₁ | c₂
      · simp [c₁]
      · simp [d₁,zero_zpow _ nonzero']
      · simp [c₂]

theorem special_sound_iff (G : GroupParameters) (generates : orderOf (G.generator : ZMod G.modulus) = G.modulus - 1)
    (first second : Ciphertext) (a b : ℤ) : SpecialSound G first second a b ↔ NonDegenerate G first second a b := by
  have isZero (z : ℤ) : (G.modulus : ℤ) ∣ z ↔ (z : ZMod G.modulus) = 0 := (cast_eq_zero_iff z).symm
  simp only [NonDegenerate,isZero,Int.cast_sub,Int.cast_mul,cast_exponentiate,sub_eq_zero]
  constructor
  · intro sound
    by_cases d₂ : (second.D1 : ZMod G.modulus) = 0
    · exact .inr (.inl d₂)
    by_cases units : (first.C1 : ZMod G.modulus) ≠ 0 ∧ (first.D1 : ZMod G.modulus) ≠ 0 ∧ (second.C1 : ZMod G.modulus) ≠ 0
    · exact .inl units
    have zero : (first.C1 : ZMod G.modulus) = 0 ∨ (first.D1 : ZMod G.modulus) = 0 ∨ (second.C1 : ZMod G.modulus) = 0 := by
      tauto
    obtain ⟨G1,G2,s,r,s',r',accepted,accepted'⟩ := degenerate_accepted generates a b d₂ zero
    have same := (decrypt_eq_iff G second first b a).mp
      (sound G1 G2 0 2 s r 1 s' r' accepted accepted' isCoprime_one_left)
    have key := zpow_ne_zero b d₂
    rw [plain,plain,mul_inv_eq_iff_eq_mul₀ key] at same
    by_cases d₁ : (first.D1 : ZMod G.modulus) = 0
    · by_cases none : a = 0
      · refine .inr (.inr (.inr ⟨d₁,none,?_⟩))
        rw [same,none,zpow_zero,inv_one,mul_one]
      · refine .inr (.inr (.inl ⟨?_,.inr ⟨d₁,none⟩⟩))
        rw [same,d₁,zero_zpow _ none,inv_zero,mul_zero,zero_mul]
    · refine .inr (.inr (.inl ?_))
      have power := inv_ne_zero (zpow_ne_zero a d₁)
      rcases zero with c₁ | absent | c₂
      · exact ⟨by rw [same,c₁,zero_mul,zero_mul],.inl c₁⟩
      · exact absurd absent d₁
      · rw [c₂,eq_comm,mul_eq_zero,mul_eq_zero] at same
        exact ⟨c₂,.inl ((same.resolve_right key).resolve_right power)⟩
  · rintro (⟨c₁,d₁,c₂⟩ | d₂ | ⟨c₂,zero⟩ | ⟨d₁,rfl,same⟩) G1 G2 G3 x s r x' s' r' accepted accepted' coprime
    all_goals
      have d₂' : (second.D1 : ZMod G.modulus) ≠ 0 := by
        rcases challenges_differ coprime with nonzero | nonzero
        · exact mt (cast_eq_zero_iff _).mp (second_unit accepted nonzero)
        · exact mt (cast_eq_zero_iff _).mp (second_unit accepted' nonzero)
      rw [decrypt_eq_iff]
    · exact plain_eq_of_units generates accepted accepted' coprime c₁ d₁ c₂ d₂'
    · exact absurd d₂ d₂'
    · rw [plain,plain,c₂,zero_mul]
      rcases zero with c₁ | ⟨d₁,some⟩
      · rw [c₁,zero_mul]
      · rw [d₁,zero_zpow _ some,inv_zero,mul_zero]
    · rw [plain,plain,same,zpow_zero,inv_one,mul_one,mul_inv_cancel_right₀ (zpow_ne_zero b d₂')]

theorem generates_seven : orderOf (seven.generator : ZMod seven.modulus) = seven.modulus - 1 :=
  (orderOf_eq_iff (by decide)).mpr (by decide)

theorem special_sound_iff_seven : SpecialSound seven ⟨5,3⟩ ⟨2,4⟩ 1 2 :=
  (special_sound_iff seven generates_seven ⟨5,3⟩ ⟨2,4⟩ 1 2).mpr (.inl (by decide))

/-- A seeder that sends a zero in place of the encrypted key is believed, in every group. -/
theorem zero_key_accepted (G : GroupParameters) : ¬ SpecialSound G ⟨1,1⟩ ⟨0,1⟩ 1 1 := by
  intro sound
  have base := generator_ne_zero G
  have positive : (0 : ℤ) < G.modulus := by exact_mod_cast G.prime.pos
  have accepted (x : ℤ) (nonzero : x ≠ 0) :
      accepts G ⟨1,1,0,x,0⟩ ⟨1,1⟩ ⟨0,1⟩ (get_public_el_gamal_key G 1) (get_public_el_gamal_key G 1) x = true := by
    rw [accepts_iff]
    exact ⟨by simp [cast_public_key],by simp,⟨le_rfl,positive⟩,by simp [zero_zpow _ nonzero]⟩
  have same := (decrypt_eq_iff G _ _ _ _).mp
    (sound 1 1 0 2 2 0 1 1 0 (accepted 2 (by decide)) (accepted 1 (by decide)) isCoprime_one_left)
  simp [plain] at same

theorem zero_key_accepted_decent : ¬ SpecialSound seven ⟨1,1⟩ ⟨0,1⟩ 1 1 ∧
    ¬ ∃ prime : DECENT_EL_GAMAL_MODULUS_512.Prime, SpecialSound (decent_parameters prime) ⟨1,1⟩ ⟨0,1⟩ 1 1 :=
  ⟨zero_key_accepted seven,fun ⟨prime,sound⟩ => zero_key_accepted (decent_parameters prime) sound⟩

end

end Decent.Encrypt

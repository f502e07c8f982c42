import Mathlib.FieldTheory.Finite.Basic
import Mathlib.Data.ZMod.Basic
import Mathlib.Tactic.FieldSimp

/-!
Arithmetic modulo a number on integers, with the reduced representative as the result, and
its reading in `ZMod p` for a prime `p`. A number that has no inverse has zero in its
place.
-/
namespace Modular

section
variable (p : ℕ)

def add (a b : ℤ) : ℤ := (a + b) % p

/-- The additive inverse. -/
def inverse (a : ℤ) : ℤ := -a % p

def multiply (a b : ℤ) : ℤ := a * b % p

def multiplicative_inverse (a : ℤ) : ℤ := if Int.gcd a p = 1 then Int.gcdA a p % p else 0

/-- Powers; a negative exponent inverts. -/
def exponentiate (a : ℤ) : ℤ → ℤ
  | .ofNat n => a ^ n % p
  | .negSucc n => multiplicative_inverse p (a ^ (n + 1))

/-- The representative between zero and the modulus. -/
def Reduced (a : ℤ) : Prop := 0 ≤ a ∧ a < p

end

variable {p : ℕ}

theorem reduced_emod [NeZero p] (a : ℤ) : Reduced p (a % p) := by
  have positive : (0 : ℤ) < p := by exact_mod_cast Nat.pos_of_ne_zero (NeZero.ne p)
  exact ⟨Int.emod_nonneg _ positive.ne',Int.emod_lt_of_pos _ positive⟩

theorem reduced_add [NeZero p] (a b : ℤ) : Reduced p (add p a b) := reduced_emod _

theorem reduced_multiply [NeZero p] (a b : ℤ) : Reduced p (multiply p a b) := reduced_emod _

theorem reduced_inverse [NeZero p] (a : ℤ) : Reduced p (multiplicative_inverse p a) := by
  unfold multiplicative_inverse
  split
  · exact reduced_emod _
  · exact ⟨le_rfl,by exact_mod_cast Nat.pos_of_ne_zero (NeZero.ne p)⟩

theorem reduced_exponentiate [NeZero p] (a e : ℤ) : Reduced p (exponentiate p a e) := by
  cases e with
  | ofNat n => exact reduced_emod _
  | negSucc n => exact reduced_inverse _

/-- Reduced numbers are told apart in `ZMod p`. -/
theorem eq_iff_cast {a b : ℤ} (left : Reduced p a) (right : Reduced p b) : a = b ↔ (a : ZMod p) = b := by
  constructor
  · rintro rfl
    rfl
  · intro same
    have modulo := (ZMod.intCast_eq_intCast_iff' a b p).mp same
    rwa [Int.emod_eq_of_lt left.1 left.2,Int.emod_eq_of_lt right.1 right.2] at modulo

theorem cast_eq_zero_iff (a : ℤ) : (a : ZMod p) = 0 ↔ (p : ℤ) ∣ a := ZMod.intCast_zmod_eq_zero_iff_dvd a p

theorem add_swap (a b : ℤ) : add p a b = add p b a := by rw [add,add,Int.add_comm]

theorem cast_add (a b : ℤ) : ((add p a b : ℤ) : ZMod p) = a + b := by
  rw [add,ZMod.intCast_mod,Int.cast_add]

theorem cast_additive_inverse (a : ℤ) : ((inverse p a : ℤ) : ZMod p) = -a := by
  rw [inverse,ZMod.intCast_mod,Int.cast_neg]

theorem cast_multiply (a b : ℤ) : ((multiply p a b : ℤ) : ZMod p) = a * b := by
  rw [multiply,ZMod.intCast_mod,Int.cast_mul]

section
variable [prime : Fact p.Prime]

theorem cast_inverse (a : ℤ) : ((multiplicative_inverse p a : ℤ) : ZMod p) = (a : ZMod p)⁻¹ := by
  unfold multiplicative_inverse
  split
  case isTrue coprime =>
    rw [ZMod.intCast_mod]
    have bezout := Int.gcd_eq_gcd_ab a p
    rw [coprime] at bezout
    have inZMod := congrArg (Int.cast : ℤ → ZMod p) bezout
    simp only [Int.cast_add,Int.cast_mul,Int.cast_natCast,CharP.cast_eq_zero,zero_mul,add_zero,Nat.cast_one,Int.cast_one] at inZMod
    exact eq_inv_of_mul_eq_one_right inZMod.symm
  case isFalse common =>
    have divides : (p : ℤ) ∣ a := by
      by_contra apart
      exact common ((Int.isCoprime_iff_gcd_eq_one.mp
        ((Nat.prime_iff_prime_int.mp prime.out).coprime_iff_not_dvd.mpr apart).symm))
    rw [(cast_eq_zero_iff a).mpr divides,inv_zero,Int.cast_zero]

theorem cast_exponentiate (a e : ℤ) : ((exponentiate p a e : ℤ) : ZMod p) = (a : ZMod p) ^ e := by
  cases e with
  | ofNat n =>
    show ((a ^ n % p : ℤ) : ZMod p) = (a : ZMod p) ^ ((n : ℕ) : ℤ)
    rw [ZMod.intCast_mod,Int.cast_pow,zpow_natCast]
  | negSucc n =>
    show ((multiplicative_inverse p (a ^ (n + 1)) : ℤ) : ZMod p) = _
    rw [cast_inverse,Int.cast_pow,zpow_negSucc]

/-- A number that is no multiple of the prime, as a unit. -/
def unit (a : ℤ) (apart : ¬ (p : ℤ) ∣ a) : (ZMod p)ˣ := Units.mk0 (a : ZMod p) (mt (cast_eq_zero_iff a).mp apart)

theorem units_torsion (y : (ZMod p)ˣ) : y ^ (p - 1) = 1 := ZMod.units_pow_card_sub_one_eq_one p y

end

/-! ### Exponents in a group of known order -/

section
variable {Γ : Type*} [CommGroup Γ] {N : ℕ}

/-- An exponent counts only modulo the order of the generator. -/
theorem zpow_congr (torsion : ∀ y : Γ, y ^ N = 1) (y : Γ) {m n : ℤ} (same : (N : ℤ) ∣ m - n) : y ^ m = y ^ n := by
  obtain ⟨k,multiple⟩ := same
  have split : m = n + N * k := by omega
  rw [split,zpow_add,zpow_mul,zpow_natCast,torsion,one_zpow,mul_one]

/-- A power with an exponent prime to the order is one only at one. -/
theorem eq_one_of_zpow (torsion : ∀ y : Γ, y ^ N = 1) {y : Γ} {w : ℤ} (coprime : IsCoprime w N) (one : y ^ w = 1) :
    y = 1 := by
  obtain ⟨u,v,bezout⟩ := coprime
  calc y = y ^ (u * w + v * N) := by rw [bezout,zpow_one]
    _ = (y ^ w) ^ u * (y ^ N) ^ v := by rw [zpow_add,mul_comm u,mul_comm v,zpow_mul,zpow_mul,zpow_natCast]
    _ = 1 := by rw [one,torsion,one_zpow,one_zpow,mul_one]

/-- Two answers to the same commitments give the relation between the two ciphertexts. -/
theorem special_sound (torsion : ∀ y : Γ, y ^ N = 1) {g : Γ} (order : orderOf g = N)
    {C₁ D₁ C₂ D₂ G₁ G₂ G₃ : Γ} {a b x s r x' s' r' : ℤ} (coprime : IsCoprime (x - x') N)
    (key : g ^ s = (g ^ a) ^ x * G₁) (key' : g ^ s' = (g ^ a) ^ x' * G₁)
    (random : g ^ r = D₂ ^ x * G₂) (random' : g ^ r' = D₂ ^ x' * G₂)
    (message : C₂ ^ x * (C₁ ^ x)⁻¹ * D₁ ^ s * ((g ^ b) ^ r)⁻¹ = G₃)
    (message' : C₂ ^ x' * (C₁ ^ x')⁻¹ * D₁ ^ s' * ((g ^ b) ^ r')⁻¹ = G₃) : C₂ * (D₂ ^ b)⁻¹ = C₁ * (D₁ ^ a)⁻¹ := by
  have exponent : (N : ℤ) ∣ (s - s') - a * (x - x') := by
    rw [← order,orderOf_dvd_iff_zpow_eq_one]
    have quotient : g ^ s * (g ^ s')⁻¹ = (g ^ a) ^ x * ((g ^ a) ^ x')⁻¹ := by
      rw [key,key']
      group
    rw [zpow_sub,zpow_sub,quotient,mul_sub,zpow_sub,zpow_mul,zpow_mul,mul_inv_cancel]
  have second : D₂ ^ (x - x') = g ^ (r - r') := by
    rw [zpow_sub,zpow_sub,random,random']
    group
  have relation : (C₂ * C₁⁻¹) ^ (x - x') * D₁ ^ (s - s') = (g ^ b) ^ (r - r') := by
    have same := message.trans message'.symm
    have left : (C₂ * C₁⁻¹) ^ (x - x') * D₁ ^ (s - s') * ((g ^ b) ^ (r - r'))⁻¹ =
        C₂ ^ x * (C₁ ^ x)⁻¹ * D₁ ^ s * ((g ^ b) ^ r)⁻¹ *
          (C₂ ^ x' * (C₁ ^ x')⁻¹ * D₁ ^ s' * ((g ^ b) ^ r')⁻¹)⁻¹ := by
      simp only [zpow_sub,mul_zpow,mul_inv_rev,inv_zpow,inv_inv,mul_comm,mul_left_comm,mul_assoc]
    rw [same,mul_inv_cancel] at left
    exact mul_inv_eq_one.mp left
  rw [zpow_congr torsion D₁ exponent] at relation
  have whole : (C₂ * C₁⁻¹ * D₁ ^ a * (D₂ ^ b)⁻¹) ^ (x - x') = 1 := by
    have moved : (D₂ ^ b) ^ (x - x') = (g ^ b) ^ (r - r') := by
      rw [← zpow_mul,mul_comm b,zpow_mul,second,← zpow_mul,mul_comm,zpow_mul]
    rw [mul_zpow,mul_zpow,← zpow_mul D₁,inv_zpow,moved,relation,mul_inv_cancel]
  have one := eq_one_of_zpow torsion coprime whole
  have product : C₂ * D₁ ^ a = D₂ ^ b * C₁ := by
    rw [← mul_inv_eq_one.mp one,mul_assoc,mul_assoc,mul_comm (D₁ ^ a),inv_mul_cancel_left]
  rw [mul_inv_eq_iff_eq_mul,mul_right_comm,eq_mul_inv_iff_mul_eq,product,mul_comm]

end

end Modular

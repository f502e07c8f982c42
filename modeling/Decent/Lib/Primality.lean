import Mathlib.Data.List.Prime
import Mathlib.NumberTheory.LucasPrimality

/-!
Primality of large numbers by Lucas' test: a number is prime when some element has the
order of its predecessor, which the prime factors of the predecessor decide. The powers
are taken by squaring, so that the test can be evaluated.
-/
namespace Primality

/-- `a ^ n` modulo `m`, for an exponent of at most `bits` bits. -/
def power (m a : ℕ) : ℕ → ℕ → ℕ
  | 0, _ => 1 % m
  | bits + 1, n =>
    let half := power m a bits (n / 2)
    if n % 2 = 1 then half * half % m * a % m else half * half % m

theorem power_eq (m a : ℕ) {bits n : ℕ} (short : n < 2 ^ bits) : power m a bits n = a ^ n % m := by
  induction bits generalizing n with
  | zero =>
    obtain rfl : n = 0 := by simpa using short
    rw [power,Nat.pow_zero]
  | succ bits ih =>
    have half : n / 2 < 2 ^ bits := by
      rw [Nat.pow_succ] at short
      omega
    have square : a ^ (n / 2) % m * (a ^ (n / 2) % m) % m = a ^ (n / 2 + n / 2) % m := by
      rw [← Nat.mul_mod,Nat.pow_add]
    simp only [power,ih half,square]
    split
    case isTrue odd =>
      have whole : (n / 2 + n / 2).succ = n := by omega
      rw [Nat.mod_mul_mod,← Nat.pow_succ,whole]
    case isFalse even =>
      have whole : n / 2 + n / 2 = n := by omega
      rw [whole]

/-- The test, given a witness and the prime factors of the predecessor. -/
def lucas_test (p a bits : ℕ) (factors : List ℕ) : Bool :=
  decide (1 < p) && decide (p ≤ 2 ^ bits) && factors.prod == p - 1 && power p a bits (p - 1) == 1 &&
    factors.all fun q => power p a bits ((p - 1) / q) != 1

theorem pow_eq_one_iff {p : ℕ} (large : 1 < p) (a n : ℕ) : (a : ZMod p) ^ n = 1 ↔ a ^ n % p = 1 := by
  rw [← Nat.cast_pow,← Nat.cast_one,ZMod.natCast_eq_natCast_iff',Nat.mod_eq_of_lt large]

theorem prime_of_lucas_test {p : ℕ} (a bits : ℕ) (factors : List ℕ) (primes : ∀ q ∈ factors, q.Prime)
    (passed : lucas_test p a bits factors = true) : p.Prime := by
  simp only [lucas_test,Bool.and_eq_true,decide_eq_true_eq,beq_iff_eq,List.all_eq_true,bne_iff_ne] at passed
  obtain ⟨⟨⟨⟨large,fits⟩,product⟩,whole⟩,parts⟩ := passed
  have short {n : ℕ} (below : n ≤ p - 1) : n < 2 ^ bits := by omega
  refine lucas_primality p (a : ZMod p) ?_ fun q prime divides => ?_
  · rw [pow_eq_one_iff large,← power_eq p a (short le_rfl)]
    exact whole
  · have listed : q ∈ factors :=
      mem_list_primes_of_dvd_prod prime.prime (fun r member => (primes r member).prime) (product ▸ divides)
    rw [ne_eq,pow_eq_one_iff large,← power_eq p a (short (Nat.div_le_self _ _))]
    exact parts q listed

end Primality

import Decent.Delivery
import Decent.Lib.Interpolation
import Decent.Lib.Primality
import Mathlib.Tactic.NormNum.Prime

/-!
Keys in shares: a polynomial with the secret as its value at zero, a share for each of its
values at one, two and so on, and interpolation from as many shares as it has coefficients.
The arithmetic is modulo a prime a little below the numbers of 256 bits, so that a secret
from the prime on comes back as its remainder; and a share is left out where it meets
itself, so that each share has to be there once.
-/
namespace Decent.Encrypt
open Modular Primality

def DECENT_SHAMIR_ORDER : ℕ := 115792089237316195423570985008687907852837564279074904382605163141518161494337

/-! ### The order is prime -/

theorem prime_shamir_order : DECENT_SHAMIR_ORDER.Prime := by
  have prime_44706919 : Nat.Prime 44706919 :=
    prime_of_lucas_test 6 32 [2,3,797,9349]
      (by simp only [List.forall_mem_cons]; norm_num) (by decide +kernel)
  have prime_545358713 : Nat.Prime 545358713 :=
    prime_of_lucas_test 5 32 [2,2,2,41,59,28181]
      (by simp only [List.forall_mem_cons]; norm_num) (by decide +kernel)
  have prime_297159362677 : Nat.Prime 297159362677 :=
    prime_of_lucas_test 2 64 [2,2,3,3,11,461,1627771]
      (by simp only [List.forall_mem_cons]; norm_num) (by decide +kernel)
  have prime_107361793816595537 : Nat.Prime 107361793816595537 :=
    prime_of_lucas_test 3 64 [2,2,2,2,16699,85831,4681609]
      (by simp only [List.forall_mem_cons]; norm_num) (by decide +kernel)
  have prime_174723607534414371449 : Nat.Prime 174723607534414371449 :=
    prime_of_lucas_test 3 128 [2,2,2,17,59,4051,120233,44706919]
      (by simp only [List.forall_mem_cons,prime_44706919,true_and]; norm_num) (by decide +kernel)
  have prime_29047611873442575647497758179 : Nat.Prime 29047611873442575647497758179 :=
    prime_of_lucas_test 2 128 [2,293,305873,545358713,297159362677]
      (by simp only [List.forall_mem_cons,prime_545358713,prime_297159362677,true_and]; norm_num) (by decide +kernel)
  have prime_341948486974166000522343609283189 : Nat.Prime 341948486974166000522343609283189 :=
    prime_of_lucas_test 2 128 [2,2,3,3,3,109,29047611873442575647497758179]
      (by simp only [List.forall_mem_cons,prime_29047611873442575647497758179,true_and]; norm_num) (by decide +kernel)
  exact prime_of_lucas_test 7 256 [2,2,2,2,2,2,3,149,631,107361793816595537,174723607534414371449,341948486974166000522343609283189]
    (by simp only [List.forall_mem_cons,prime_107361793816595537,prime_174723607534414371449,
      prime_341948486974166000522343609283189,true_and]; norm_num) (by decide +kernel)

instance : Fact DECENT_SHAMIR_ORDER.Prime := ⟨prime_shamir_order⟩

/-! ### Split and secret -/

structure ShamirSecret where
  secret : ℤ
  split : List point
  quorum : UInt16
  shares : UInt16
deriving DecidableEq

namespace ShamirSecret

/-- The coefficients of `calculate_split`, the secret first; the others are drawn at random. -/
def coef (S : ShamirSecret) (random : ℕ → ℤ) : ℕ → ℤ
  | 0 => S.secret
  | i + 1 => random (i + 1)

/-- The value of `calculate_split` at `x`. -/
def share (S : ShamirSecret) (random : ℕ → ℤ) (x : ℤ) : ℤ :=
  (List.range' 1 (S.quorum.toNat - 1)).foldl
    (fun y (i : ℕ) => add DECENT_SHAMIR_ORDER y
      (multiply DECENT_SHAMIR_ORDER (S.coef random i) (exponentiate DECENT_SHAMIR_ORDER x i)))
    (S.coef random 0)

def calculate_split (S : ShamirSecret) (random : ℕ → ℤ) : ShamirSecret :=
  { S with split := (List.range' 1 S.shares.toNat).map fun (x : ℕ) => ((x : ℤ),S.share random x) }

def resolvable (S : ShamirSecret) : Bool := S.split.length ≥ S.quorum.toNat

/-- What one point makes of numerator and denominator for the share `s`; a point equal to it
is passed over. -/
def factor (s : point) (fraction : ℤ × ℤ) (p : point) : ℤ × ℤ :=
  if p = s then fraction else
  let startposition := s.1
  let nextposition := inverse DECENT_SHAMIR_ORDER p.1
  (multiply DECENT_SHAMIR_ORDER nextposition fraction.1,
    multiply DECENT_SHAMIR_ORDER (add DECENT_SHAMIR_ORDER startposition nextposition) fraction.2)

def fraction (split : List point) (s : point) : ℤ × ℤ := split.foldl (factor s) (1,1)

/-- The addend of `calculate_secret` for one share. -/
def addend (split : List point) (s : point) : ℤ :=
  let (numerator,denominator) := fraction split s
  multiply DECENT_SHAMIR_ORDER
    (multiply DECENT_SHAMIR_ORDER (multiplicative_inverse DECENT_SHAMIR_ORDER denominator) numerator) s.2

def calculate_secret (S : ShamirSecret) : ShamirSecret :=
  { S with secret := S.split.foldl (fun res s => add DECENT_SHAMIR_ORDER (addend S.split s) res) 0 }

end ShamirSecret

/-! ### The shares are values of a polynomial -/

section
variable {p : ℕ}

theorem cast_sum {α : Type*} (term : α → ℤ) (xs : List α) (y : ℤ) :
    ((xs.foldl (fun y x => add p y (term x)) y : ℤ) : ZMod p) = y + (xs.map fun x => (term x : ZMod p)).sum := by
  induction xs generalizing y with
  | nil => rw [List.foldl_nil,List.map_nil,List.sum_nil,add_zero]
  | cons x xs ih => rw [List.foldl_cons,ih,cast_add,List.map_cons,List.sum_cons,add_assoc]

end

namespace ShamirSecret

/-- The polynomial of a split. -/
noncomputable def polynomial (S : ShamirSecret) (random : ℕ → ℤ) : Polynomial (ZMod DECENT_SHAMIR_ORDER) :=
  Interpolation.polynomial (fun i => (S.coef random i : ZMod DECENT_SHAMIR_ORDER)) S.quorum.toNat

theorem cast_share (S : ShamirSecret) (random : ℕ → ℤ) (x : ℤ) (positive : 0 < S.quorum.toNat) :
    (S.share random x : ZMod DECENT_SHAMIR_ORDER) = (S.polynomial random).eval (x : ZMod DECENT_SHAMIR_ORDER) := by
  obtain ⟨n,quorum⟩ : ∃ n, S.quorum.toNat = n + 1 := ⟨S.quorum.toNat - 1,by omega⟩
  rw [polynomial,Interpolation.eval_polynomial,quorum,Finset.sum_range_succ',pow_zero,mul_one,add_comm]
  rw [share,cast_sum,quorum,Nat.add_sub_cancel,List.range'_eq_map_range,List.map_map]
  simp only [Function.comp_def,cast_multiply,cast_exponentiate,zpow_natCast,Nat.add_comm 1]
  rfl

theorem degree_polynomial_lt (S : ShamirSecret) (random : ℕ → ℤ) :
    (S.polynomial random).degree < S.quorum.toNat := Interpolation.degree_polynomial_lt _ _

theorem eval_zero_polynomial (S : ShamirSecret) (random : ℕ → ℤ) (positive : 0 < S.quorum.toNat) :
    (S.polynomial random).eval 0 = S.secret := Interpolation.eval_zero_polynomial _ positive

/-! ### The secret from the shares -/

/-- The places of the shares. -/
def place (s : point) : ZMod DECENT_SHAMIR_ORDER := s.1

theorem cast_fraction (split : List point) (s : point) (start : ℤ × ℤ) :
    ((split.foldl (factor s) start).1 : ZMod DECENT_SHAMIR_ORDER) =
        ((split.filter fun q => q ≠ s).map fun q => -place q).prod * start.1 ∧
      ((split.foldl (factor s) start).2 : ZMod DECENT_SHAMIR_ORDER) =
        ((split.filter fun q => q ≠ s).map fun q => place s - place q).prod * start.2 := by
  induction split generalizing start with
  | nil => simp
  | cons q split ih =>
    rw [List.foldl_cons]
    obtain ⟨above,below⟩ := ih (factor s start q)
    by_cases same : q = s
    · rw [factor,if_pos same] at above below
      rw [List.filter_cons_of_neg (by simpa using same),factor,if_pos same]
      exact ⟨above,below⟩
    · rw [List.filter_cons_of_pos (by simpa using same),List.map_cons,List.prod_cons,List.map_cons,List.prod_cons]
      refine ⟨above.trans ?_,below.trans ?_⟩
      · rw [factor,if_neg same,cast_multiply,cast_additive_inverse,mul_left_comm,mul_assoc]
        rfl
      · rw [factor,if_neg same,cast_multiply,cast_add,cast_additive_inverse,mul_left_comm,mul_assoc,← sub_eq_add_neg]
        rfl

theorem cast_addend (split : List point) (s : point) :
    (addend split s : ZMod DECENT_SHAMIR_ORDER) = Interpolation.weight place split s * s.2 := by
  obtain ⟨above,below⟩ := cast_fraction split s (1,1)
  rw [Int.cast_one,mul_one] at above below
  rw [addend,cast_multiply,cast_multiply,cast_inverse,Interpolation.weight,div_eq_inv_mul]
  exact congrArg₂ (fun d n => d⁻¹ * n * (s.2 : ZMod DECENT_SHAMIR_ORDER)) below above

theorem cast_calculate_secret (S : ShamirSecret) :
    (S.calculate_secret.secret : ZMod DECENT_SHAMIR_ORDER) =
      (S.split.map fun s => Interpolation.weight place S.split s * s.2).sum := by
  simp only [calculate_secret,add_swap (p := DECENT_SHAMIR_ORDER) (addend _ _),cast_sum,cast_addend,Int.cast_zero,zero_add]

theorem reduced_calculate_secret (S : ShamirSecret) : Reduced DECENT_SHAMIR_ORDER S.calculate_secret.secret := by
  have reduced (xs : List point) {res : ℤ} (start : Reduced DECENT_SHAMIR_ORDER res) :
      Reduced DECENT_SHAMIR_ORDER
        (xs.foldl (fun res s => add DECENT_SHAMIR_ORDER (addend S.split s) res) res) := by
    induction xs generalizing res with
    | nil => exact start
    | cons s xs ih => exact ih (reduced_add _ _)
  exact reduced S.split ⟨le_rfl,by decide⟩

theorem mem_calculate_split {S : ShamirSecret} {random : ℕ → ℤ} {s : point}
    (member : s ∈ (S.calculate_split random).split) :
    ∃ x : ℕ, x < 2 ^ 16 ∧ s = ((x : ℤ),S.share random x) := by
  obtain ⟨x,range,rfl⟩ := List.mem_map.mp member
  have below := S.shares.toNat_lt
  rw [List.mem_range'_1] at range
  exact ⟨x,by omega,rfl⟩

/-- Shares of one split are told apart by their places. -/
theorem place_injective {S : ShamirSecret} {random : ℕ → ℤ} {points : List point}
    (taken : ∀ s ∈ points, s ∈ (S.calculate_split random).split) : Set.InjOn place {s | s ∈ points} := by
  intro s member s' member' same
  obtain ⟨x,below,rfl⟩ := mem_calculate_split (taken s member)
  obtain ⟨x',below',rfl⟩ := mem_calculate_split (taken s' member')
  have short {x : ℕ} (below : x < 2 ^ 16) : Reduced DECENT_SHAMIR_ORDER x := by
    refine ⟨Int.natCast_nonneg x,?_⟩
    have fits : 2 ^ 16 ≤ DECENT_SHAMIR_ORDER := by decide
    omega
  obtain rfl : x = x' := by exact_mod_cast (eq_iff_cast (short below) (short below')).mpr same
  rfl

end ShamirSecret

end Decent.Encrypt

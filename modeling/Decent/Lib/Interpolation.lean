import Mathlib.LinearAlgebra.Lagrange

/-!
The value of a polynomial at zero from its values at as many places as it has
coefficients, with the places in a list.
-/
namespace Interpolation
open Polynomial

variable {F : Type*} [Field F]

/-- The polynomial with the coefficients `c 0`, …, `c (n - 1)`. -/
noncomputable def polynomial (c : ℕ → F) (n : ℕ) : F[X] := ∑ i ∈ Finset.range n, C (c i) * X ^ i

theorem degree_polynomial_lt (c : ℕ → F) (n : ℕ) : (polynomial c n).degree < n := by
  rw [polynomial]
  refine (degree_sum_le _ _).trans_lt ((Finset.sup_lt_iff (WithBot.bot_lt_coe n)).mpr fun i below => ?_)
  exact (degree_C_mul_X_pow_le i (c i)).trans_lt (WithBot.coe_lt_coe.mpr (Finset.mem_range.mp below))

theorem eval_polynomial (c : ℕ → F) (n : ℕ) (x : F) :
    (polynomial c n).eval x = ∑ i ∈ Finset.range n, c i * x ^ i := by
  simp only [polynomial,eval_finsetSum,eval_mul,eval_C,eval_pow,eval_X]

theorem eval_zero_polynomial (c : ℕ → F) {n : ℕ} (positive : 0 < n) : (polynomial c n).eval 0 = c 0 := by
  rw [eval_polynomial,Finset.sum_eq_single_of_mem 0 (Finset.mem_range.mpr positive)]
  · rw [pow_zero,mul_one]
  · intro i _ other
    rw [zero_pow other,mul_zero]

variable {ι : Type*} [DecidableEq ι]

/-- The factor that the value at `s` has at zero: the other places over their distances. -/
def weight (x : ι → F) (points : List ι) (s : ι) : F :=
  ((points.filter fun q => q ≠ s).map fun q => -x q).prod / ((points.filter fun q => q ≠ s).map fun q => x s - x q).prod

theorem eval_zero_basis (x : ι → F) {points : List ι} (apart : points.Nodup) (s : ι) :
    (Lagrange.basis points.toFinset x s).eval 0 = weight x points s := by
  have others : points.toFinset.erase s = (points.filter fun q => q ≠ s).toFinset := by
    ext q
    simp [and_comm]
  have distinct := apart.filter fun q => q ≠ s
  rw [Lagrange.basis,others,eval_prod,weight,← List.prod_toFinset _ distinct,← List.prod_toFinset _ distinct,
    ← Finset.prod_div_distrib]
  simp only [Lagrange.basisDivisor,eval_mul,eval_C,eval_sub,eval_X,zero_sub,div_eq_inv_mul]

theorem eval_zero_eq_sum {f : F[X]} {x : ι → F} {points : List ι} (apart : points.Nodup)
    (places : Set.InjOn x {s | s ∈ points}) (short : f.degree < points.length) :
    f.eval 0 = (points.map fun s => weight x points s * f.eval (x s)).sum := by
  have injective : Set.InjOn x points.toFinset := by simpa using places
  have card : points.toFinset.card = points.length := List.toFinset_card_of_nodup apart
  have interpolated := Lagrange.eq_interpolate injective (card ▸ short)
  calc f.eval 0 = (Lagrange.interpolate points.toFinset x fun s => f.eval (x s)).eval 0 := congrArg _ interpolated
    _ = ∑ s ∈ points.toFinset, weight x points s * f.eval (x s) := by
      simp only [Lagrange.interpolate_apply,eval_finsetSum,eval_mul,eval_C,eval_zero_basis x apart,mul_comm]
    _ = _ := List.sum_toFinset _ apart

end Interpolation

import Mathlib.Algebra.BigOperators.Group.List.Basic
import Mathlib.Algebra.BigOperators.Group.Multiset.Basic
import Mathlib.Data.ZMod.Basic
import Mathlib.GroupTheory.OrderOfElement
import Mathlib.GroupTheory.SpecificGroups.Cyclic.Basic
import Mathlib.Data.Nat.Prime.Basic

/-!
Homomorphic tags. A block of numbers `m i j` is tagged by `(∏ⱼ uⱼ ^ m i j) * h i`; a
product of powers of tags is a tag of the linear combination of the blocks. The
group has `r` elements and the coefficients are numbers modulo `r`.
-/
namespace Tags

variable {G : Type} [CommGroup G] {r : ℕ}

/-- Exponents count modulo the order of the group. -/
theorem pow_val_cast (card : Nat.card G = r) (x : G) (n : ℕ) : x ^ (n : ZMod r).val = x ^ n := by
  subst card
  rw [ZMod.val_natCast,pow_mod_natCard]

theorem pow_val_add (card : Nat.card G = r) [NeZero r] (x : G) (a b : ZMod r) :
    x ^ (a + b).val = x ^ a.val * x ^ b.val := by
  subst card
  rw [ZMod.val_add,pow_mod_natCard,pow_add]

theorem pow_val_mul (card : Nat.card G = r) (x : G) (a b : ZMod r) : x ^ (a * b).val = (x ^ b.val) ^ a.val := by
  subst card
  rw [ZMod.val_mul,pow_mod_natCard,← pow_mul,mul_comm]

theorem pow_val_sum (card : Nat.card G = r) [NeZero r] (x : G) {ι : Type} (c : ι → ZMod r) (is : List ι) :
    x ^ ((is.map c).sum).val = (is.map fun i => x ^ (c i).val).prod := by
  induction is with
  | nil => simp
  | cons i rest ih => rw [List.map_cons,List.sum_cons,pow_val_add card,ih,List.map_cons,List.prod_cons]

/-- A group of prime order is the powers of any of its elements but one. -/
theorem exists_pow (card : Nat.card G = r) [Fact r.Prime] {x : G} (other : x ≠ 1) (y : G) : ∃ k : ℕ, x ^ k = y :=
  (Submonoid.mem_powers_iff y x).mp (mem_powers_of_prime_card card other)

/-- In a group of prime order the powers of an element tell the exponents apart. -/
theorem pow_val_injective (card : Nat.card G = r) [Fact r.Prime] {x : G} (other : x ≠ 1) :
    Function.Injective fun a : ZMod r => x ^ a.val := by
  intro a b same
  have order : orderOf x = r := orderOf_eq_prime (by rw [← card,pow_card_eq_one']) other
  have values : a.val ≡ b.val [MOD orderOf x] := pow_eq_pow_iff_modEq.mp same
  rw [order] at values
  exact ZMod.val_injective r (values.eq_of_lt_of_lt (ZMod.val_lt a) (ZMod.val_lt b))

variable {ι κ : Type}

/-- The combination of the tags is the tag of the combination. -/
theorem combine (card : Nat.card G = r) [NeZero r] (h : ι → G) (u : κ → G) (m : ι → κ → ℕ) (v : ι → ZMod r) (is : List ι)
    (js : List κ) :
    (is.map fun i => ((js.map fun j => u j ^ m i j).prod * h i) ^ (v i).val).prod =
      (is.map fun i => h i ^ (v i).val).prod *
        (js.map fun j => u j ^ ((is.map fun i => v i * (m i j : ZMod r)).sum).val).prod := by
  have inner (i : ι) : ((js.map fun j => u j ^ m i j).prod * h i) ^ (v i).val =
      (js.map fun j => u j ^ (v i * (m i j : ZMod r)).val).prod * h i ^ (v i).val := by
    have powers := (Multiset.prod_map_pow (m := (js : Multiset κ)) (f := fun j => u j ^ m i j) (n := (v i).val)).symm
    simp only [Multiset.map_coe,Multiset.prod_coe] at powers
    rw [mul_pow,powers]
    refine congrArg₂ _ (congrArg _ (List.map_congr_left fun j _ => ?_)) rfl
    rw [pow_val_mul card,pow_val_cast card]
  have swap := Multiset.prod_map_prod_map (is : Multiset ι) (js : Multiset κ)
    (f := fun i j => u j ^ (v i * (m i j : ZMod r)).val)
  simp only [Multiset.map_coe,Multiset.prod_coe] at swap
  simp only [inner,List.prod_map_mul,swap,pow_val_sum card]
  rw [mul_comm]

end Tags

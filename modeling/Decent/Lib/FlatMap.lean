import Mathlib.Data.List.Perm.Basic
import Mathlib.Order.Defs.LinearOrder
import Mathlib.Algebra.BigOperators.Group.List.Basic
import Mathlib.Order.Lattice
import Mathlib.Algebra.Ring.Nat

/-!
Maps as lists in the order of their keys, and what the values of some keys add up to. Two sets of
keys that both have more than half of the sum have a key in common.
-/
namespace FlatMap

variable {κ ν : Type}

section
variable [LinearOrder κ]

/-- The keys ascend, so none is there twice. -/
def Ordered (m : List (κ × ν)) : Prop := (m.map Prod.fst).Pairwise (· < ·)

/-- `m[k] = v` -/
def put (k : κ) (v : ν) : List (κ × ν) → List (κ × ν)
  | [] => [(k,v)]
  | (j,w) :: rest =>
    if k < j then (k,v) :: (j,w) :: rest
    else if k = j then (k,v) :: rest
    else (j,w) :: put k v rest

theorem mem_keys_put {k : κ} {v : ν} {m : List (κ × ν)} {j : κ} :
    j ∈ (put k v m).map Prod.fst ↔ j = k ∨ j ∈ m.map Prod.fst := by
  induction m with
  | nil => simp [put]
  | cons row rest ih =>
    obtain ⟨i,w⟩ := row
    unfold put
    split
    · simp
    · split
      case isTrue same => simp [same]
      case isFalse =>
        rw [List.map_cons,List.mem_cons,ih,List.map_cons,List.mem_cons]
        tauto

theorem ordered_put {k : κ} {v : ν} {m : List (κ × ν)} (ordered : Ordered m) : Ordered (put k v m) := by
  induction m with
  | nil => simp [put,Ordered]
  | cons row rest ih =>
    obtain ⟨i,w⟩ := row
    obtain ⟨first,later⟩ := List.pairwise_cons.mp ordered
    unfold put
    split
    case isTrue before =>
      refine List.pairwise_cons.mpr ⟨fun j member => ?_,ordered⟩
      rcases List.mem_cons.mp member with rfl | member
      · exact before
      · exact lt_trans before (first j member)
    case isFalse notBefore =>
      split
      case isTrue same =>
        subst same
        exact ordered
      case isFalse apart =>
        refine List.pairwise_cons.mpr ⟨fun j member => ?_,ih later⟩
        rcases mem_keys_put.mp member with rfl | member
        · exact lt_of_le_of_ne (not_lt.mp notBefore) (Ne.symm apart)
        · exact first j member

/-- A new key is added, wherever it goes. -/
theorem perm_put {k : κ} {v : ν} {m : List (κ × ν)} (new : k ∉ m.map Prod.fst) : (put k v m).Perm ((k,v) :: m) := by
  induction m with
  | nil => exact List.Perm.refl _
  | cons row rest ih =>
    obtain ⟨j,w⟩ := row
    obtain ⟨apart,outside⟩ : k ≠ j ∧ k ∉ rest.map Prod.fst := by simpa using new
    unfold put
    split
    · exact List.Perm.refl _
    · exact ((ih outside).cons (j,w)).trans (List.Perm.swap ..)

end

/-- What the values of the keys in a set add up to. -/
def weight (value : ν → Nat) (keys : Set κ) [DecidablePred (· ∈ keys)] (m : List (κ × ν)) : Nat :=
  (m.map fun row => if row.1 ∈ keys then value row.2 else 0).sum

/-- What all values add up to. -/
def total (value : ν → Nat) (m : List (κ × ν)) : Nat := (m.map fun row => value row.2).sum

section
variable {value : ν → Nat} {m : List (κ × ν)}

theorem weight_of_mem (keys : Set κ) [DecidablePred (· ∈ keys)] (every : ∀ row ∈ m, row.1 ∈ keys) :
    weight value keys m = total value m := by
  unfold weight total
  congr 1
  exact List.map_congr_left fun row member => if_pos (every row member)

/-- Without a common key the two weights are parts of the total. -/
theorem weight_add_weight_le {keys keys' : Set κ} [DecidablePred (· ∈ keys)] [DecidablePred (· ∈ keys')]
    (apart : ∀ row ∈ m, ¬(row.1 ∈ keys ∧ row.1 ∈ keys')) :
    weight value keys m + weight value keys' m ≤ total value m := by
  induction m with
  | nil => exact Nat.le_refl 0
  | cons row rest ih =>
    have here := apart row List.mem_cons_self
    have later := ih fun row member => apart row (List.mem_cons_of_mem _ member)
    simp only [weight,total,List.map_cons,List.sum_cons] at later ⊢
    split
    · split
      · exact absurd ⟨‹_›,‹_›⟩ here
      · omega
    · split <;> omega

/-- Two majorities have a member in common. -/
theorem majorities_meet {threshold : Nat} (majority : total value m < 2 * threshold) {keys keys' : Set κ}
    [DecidablePred (· ∈ keys)] [DecidablePred (· ∈ keys')] (enough : threshold ≤ weight value keys m)
    (enough' : threshold ≤ weight value keys' m) : ∃ row ∈ m, row.1 ∈ keys ∧ row.1 ∈ keys' := by
  by_contra none
  have := @weight_add_weight_le _ _ value m keys keys' _ _
    fun row member both => none ⟨row,member,both⟩
  omega

end

end FlatMap

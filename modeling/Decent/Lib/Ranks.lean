import Mathlib.Data.List.Sort
import Mathlib.Data.List.Count
import Mathlib.Order.Defs.LinearOrder

/-!
What stands at a place of a sorted list, by counting: as many elements as its place says are
not above it, and no more than that are below. The relation that sorts needs to agree with an
order only on the elements of the list.
-/
namespace Ranks

variable {α κ : Type}

/-- In a sorted list what does not come after an element stands before it. -/
theorem countP_sorted {s : α → α → Prop} [DecidableRel s] (refl : ∀ a, s a a) {l : List α} (sorted : l.Pairwise s) {k : Nat}
    (inside : k < l.length) :
    l.countP (fun y => ¬ s l[k] y) ≤ k ∧ k < l.countP (fun y => s y l[k]) := by
  have parts : l = l.take k ++ l[k] :: l.drop (k + 1) := by
    rw [List.getElem_cons_drop,List.take_append_drop]
  have size : (l.take k).length = k := List.length_take_of_le (Nat.le_of_lt inside)
  generalize l[k] = x at parts ⊢
  rw [parts] at sorted
  obtain ⟨-,rest,across⟩ := List.pairwise_append.mp sorted
  obtain ⟨after,-⟩ := List.pairwise_cons.mp rest
  rw [parts,List.countP_append,List.countP_append,List.countP_cons,List.countP_cons]
  constructor
  · have none : (l.drop (k + 1)).countP (fun y => ¬ s x y) = 0 :=
      List.countP_eq_zero.mpr fun y member => by simpa using after y member
    have few := List.countP_le_length (p := fun y => ¬ s x y) (l := l.take k)
    simp only [refl x,not_true_eq_false,decide_false,Bool.false_eq_true,if_false]
    omega
  · have all : (l.take k).countP (fun y => s y x) = (l.take k).length :=
      List.countP_eq_length.mpr fun y member => by simpa using across y member x List.mem_cons_self
    simp only [refl x,decide_true,if_true]
    omega

/-- Relations that agree on a list sort it alike. -/
theorem insertionSort_congr {r s : α → α → Prop} [DecidableRel r] [DecidableRel s] {l : List α}
    (agree : ∀ a ∈ l, ∀ b ∈ l, (r a b ↔ s a b)) : l.insertionSort r = l.insertionSort s := by
  have sorted := List.map_insertionSort r s id l agree
  simpa using sorted

variable [LinearOrder κ]

/-- The element at place `k` of a list sorted by a key: it is in the list, at most `k` elements
    have a smaller key, and more than `k` have no greater one. -/
theorem rank_insertionSort {r : α → α → Prop} [DecidableRel r] (key : α → κ) {l : List α}
    (agree : ∀ a ∈ l, ∀ b ∈ l, (r a b ↔ key a ≤ key b)) {k : Nat} (inside : k < l.length) (default : α) :
    (l.insertionSort r).getD k default ∈ l ∧
      l.countP (fun y => key y < key ((l.insertionSort r).getD k default)) ≤ k ∧
      k < l.countP (fun y => key y ≤ key ((l.insertionSort r).getD k default)) := by
  let s : α → α → Prop := fun a b => key a ≤ key b
  have : Std.Total s := ⟨fun a b => le_total (key a) (key b)⟩
  have : IsTrans α s := ⟨fun _ _ _ => le_trans⟩
  rw [insertionSort_congr (s := s) agree]
  have perm := List.perm_insertionSort s l
  have here : k < (l.insertionSort s).length := by rwa [perm.length_eq]
  rw [List.getD_eq_getElem?_getD,List.getElem?_eq_getElem here,Option.getD_some]
  obtain ⟨below,above⟩ := countP_sorted (s := s) (fun a => le_refl (key a)) (List.pairwise_insertionSort s l) here
  rw [perm.countP_eq] at below above
  refine ⟨perm.mem_iff.mp (List.getElem_mem here),?_,above⟩
  simpa only [s,not_le] using below

end Ranks

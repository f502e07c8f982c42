import Mathlib.Algebra.BigOperators.Group.List.Basic
import Mathlib.Data.List.Nodup

/-!
A buffer of buckets to which rows add their weight. A row has a set of buckets, and those that the
buffer does not have are ignored; so a bucket holds what the rows that have it weigh together.
-/
namespace Buckets

variable {M ρ : Type} [AddMonoid M]

/-- Add `w` to one bucket, if it is there. -/
def add (w : M) (buffer : List M) (i : Nat) : List M := buffer.modify i (· + w)

@[simp] theorem length_add (w : M) (buffer : List M) (i : Nat) : (add w buffer i).length = buffer.length :=
  List.length_modify ..

theorem getElem?_add (w : M) (buffer : List M) (i j : Nat) :
    (add w buffer i)[j]? = buffer[j]?.map (· + if i = j then w else 0) := by
  unfold add
  rw [List.getElem?_modify]
  cases buffer[j]? with
  | none => rfl
  | some a =>
    by_cases same : i = j
    · simp [same]
    · simp [same]

/-- Add `w` to every bucket of a set. -/
def add_all (w : M) (buckets : List Nat) (buffer : List M) : List M := buckets.foldl (add w) buffer

@[simp] theorem length_add_all (w : M) (buckets : List Nat) (buffer : List M) :
    (add_all w buckets buffer).length = buffer.length := by
  unfold add_all
  induction buckets generalizing buffer with
  | nil => rfl
  | cons i rest ih => rw [List.foldl_cons,ih,length_add]

theorem getElem?_add_all (w : M) {buckets : List Nat} (distinct : buckets.Nodup) (buffer : List M) (j : Nat) :
    (add_all w buckets buffer)[j]? = buffer[j]?.map (· + if j ∈ buckets then w else 0) := by
  unfold add_all
  induction buckets generalizing buffer with
  | nil => simp
  | cons i rest ih =>
    obtain ⟨outside,distinct⟩ := List.nodup_cons.mp distinct
    rw [List.foldl_cons,ih distinct,getElem?_add,Option.map_map]
    congr 1
    funext a
    by_cases same : i = j
    · subst same
      simp [outside]
    · simp [same,Ne.symm same]

/-- What the rows that have the bucket weigh together. -/
def weight (buckets : ρ → List Nat) (value : ρ → M) (rows : List ρ) (j : Nat) : M :=
  (rows.map fun row => if j ∈ buckets row then value row else 0).sum

/-- One row more. -/
theorem weight_append (buckets : ρ → List Nat) (value : ρ → M) (rows : List ρ) (row : ρ) (j : Nat) :
    weight buckets value (rows ++ [row]) j = weight buckets value rows j + if j ∈ buckets row then value row else 0 := by
  unfold weight
  rw [List.map_append,List.sum_append,List.map_singleton,List.sum_singleton]

/-- A buffer that holds the weight of some rows holds that of one more after it is added. -/
theorem add_all_range {buckets : ρ → List Nat} (value : ρ → M) (n : Nat) (rows : List ρ) (row : ρ)
    (distinct : (buckets row).Nodup) :
    add_all (value row) (buckets row) ((List.range n).map (weight buckets value rows)) =
      (List.range n).map (weight buckets value (rows ++ [row])) := by
  refine List.ext_getElem? fun j => ?_
  rw [getElem?_add_all _ distinct,List.getElem?_map,List.getElem?_map,Option.map_map]
  by_cases within : j < n
  · rw [List.getElem?_range within,Option.map_some,Option.map_some,weight_append]
    rfl
  · rw [List.getElem?_eq_none (by simpa using within)]
    rfl

end Buckets

import Mathlib.Data.Finmap
import Mathlib.Data.Finset.Basic

/-!
A map from keys to sets of values, entered and left one pair at a time. A key that
is not in the map has the empty set.
-/
variable {κ ι : Type} [DecidableEq κ] [DecidableEq ι]

/-- `std::map<κ, std::set<ι>>`. -/
abbrev Multimap (κ ι : Type) := Finmap (fun _ : κ => Finset ι)

namespace Multimap

def values (m : Multimap κ ι) (k : κ) : Finset ι := (m.lookup k).getD ∅

/-- `m[k].insert(i)`. -/
def add (i : ι) (m : Multimap κ ι) (k : κ) : Multimap κ ι := m.insert k (insert i (m.values k))

/-- `m[k].erase(i)`: the subscript enters an empty set where there is none. -/
def discard (i : ι) (m : Multimap κ ι) (k : κ) : Multimap κ ι := m.insert k ((m.values k).erase i)

/-- Erases `i`, and the key with its last value. -/
def leave (i : ι) (m : Multimap κ ι) (k : κ) : Multimap κ ι :=
  match m.lookup k with
  | none => m
  | some s => if s.erase i = ∅ then m.erase k else m.insert k (s.erase i)

omit [DecidableEq ι] in
@[simp] theorem values_empty (k : κ) : values (∅ : Multimap κ ι) k = ∅ := rfl

omit [DecidableEq ι] in
theorem values_insert (m : Multimap κ ι) (k j : κ) (s : Finset ι) :
    values (m.insert k s) j = if j = k then s else values m j := by
  by_cases same : j = k
  · subst same; simp [values]
  · simp [values,same,Finmap.lookup_insert_of_ne]

theorem mem_add {i n : ι} {m : Multimap κ ι} {k j : κ} : n ∈ (add i m k).values j ↔ n = i ∧ j = k ∨ n ∈ m.values j := by
  rw [add,values_insert]
  by_cases same : j = k
  · subst same; simp
  · simp [same]

theorem mem_discard {i n : ι} {m : Multimap κ ι} {k j : κ} :
    n ∈ (discard i m k).values j ↔ ¬ (n = i ∧ j = k) ∧ n ∈ m.values j := by
  rw [discard,values_insert]
  by_cases same : j = k
  · subst same; simp
  · simp [same]

/-- Leaving the empty set behind or not makes no difference. -/
theorem values_leave (i : ι) (m : Multimap κ ι) (k j : κ) : (leave i m k).values j = (discard i m k).values j := by
  rw [discard,values_insert,leave]
  cases found : m.lookup k with
  | none =>
    by_cases same : j = k
    · subst same; simp [values,found]
    · simp [same]
  | some s =>
    have here : m.values k = s := by simp [values,found]
    rw [here]
    dsimp only
    by_cases last : s.erase i = ∅
    · rw [if_pos last]
      by_cases same : j = k
      · subst same; rw [if_pos rfl,last]; simp [values]
      · simp [values,same]
    · rw [if_neg last,values_insert]

theorem mem_leave {i n : ι} {m : Multimap κ ι} {k j : κ} :
    n ∈ (leave i m k).values j ↔ ¬ (n = i ∧ j = k) ∧ n ∈ m.values j := by
  rw [values_leave,mem_discard]

theorem mem_addAll {i n : ι} {j : κ} (ks : List κ) {m : Multimap κ ι} :
    n ∈ (ks.foldl (add i) m).values j ↔ n = i ∧ j ∈ ks ∨ n ∈ m.values j := by
  induction ks generalizing m with
  | nil => simp
  | cons k rest ih =>
    rw [List.foldl_cons,ih,mem_add,List.mem_cons]
    tauto

theorem mem_discardAll {i n : ι} {j : κ} (ks : List κ) {m : Multimap κ ι} :
    n ∈ (ks.foldl (discard i) m).values j ↔ ¬ (n = i ∧ j ∈ ks) ∧ n ∈ m.values j := by
  induction ks generalizing m with
  | nil => simp
  | cons k rest ih =>
    rw [List.foldl_cons,ih,mem_discard,List.mem_cons]
    tauto

theorem mem_leaveAll {i n : ι} {j : κ} (ks : List κ) {m : Multimap κ ι} :
    n ∈ (ks.foldl (leave i) m).values j ↔ ¬ (n = i ∧ j ∈ ks) ∧ n ∈ m.values j := by
  induction ks generalizing m with
  | nil => simp
  | cons k rest ih =>
    rw [List.foldl_cons,ih,mem_leave,List.mem_cons]
    tauto

end Multimap

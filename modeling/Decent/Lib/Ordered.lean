import Mathlib.Data.List.Perm.Basic
import Mathlib.Data.List.TakeWhile
import Mathlib.Order.Basic
import Mathlib.Order.Lattice

/-!
Ordered indices in which keys may be equal, as lists. An element that is modified stays where
it is if the order still holds there, and is linked anew otherwise, behind the elements with an
equal key. An iterator is the name of an element, or nothing at the end.
-/
namespace Ordered

variable {α κ ι : Type} [LinearOrder κ] (key : α → κ)

def Sorted (l : List α) : Prop := l.Pairwise fun a b => key a ≤ key b

/-- Enter an element behind those whose keys are not greater. -/
def link (a : α) : List α → List α
  | [] => [a]
  | b :: rest => if key a < key b then a :: b :: rest else b :: link a rest

def in_place (before : List α) (a : α) (after : List α) : Bool :=
  (before.getLast?.all fun b => key b ≤ key a) && after.head?.all fun b => key a ≤ key b

/-- Where an element goes that stood between others. -/
def place (before : List α) (a : α) (after : List α) : List α :=
  if in_place key before a after then before ++ a :: after else link key a (before ++ after)

section
variable {key}

theorem link_perm (a : α) (l : List α) : (link key a l).Perm (a :: l) := by
  induction l with
  | nil => exact .refl _
  | cons b rest ih =>
    rw [link]
    split
    · exact .refl _
    · exact (ih.cons b).trans (.swap a b rest)

theorem sorted_link (a : α) {l : List α} (sorted : Sorted key l) : Sorted key (link key a l) := by
  induction l with
  | nil => exact List.pairwise_singleton ..
  | cons b rest ih =>
    obtain ⟨first,sorted'⟩ := List.pairwise_cons.mp sorted
    rw [link]
    split
    case isTrue here =>
      refine List.pairwise_cons.mpr ⟨fun c member => ?_,sorted⟩
      rcases List.mem_cons.mp member with rfl | inside
      · exact here.le
      · exact here.le.trans (first c inside)
    case isFalse later =>
      refine List.pairwise_cons.mpr ⟨fun c member => ?_,ih sorted'⟩
      rcases List.mem_cons.mp ((link_perm a rest).mem_iff.mp member) with rfl | inside
      · exact not_lt.mp later
      · exact first c inside

/-- Any elements, entered one after the other. -/
def link_all (key : α → κ) (l : List α) : List α := l.foldr (link key) []

theorem link_all_perm (l : List α) : (link_all key l).Perm l := by
  induction l with
  | nil => exact .refl _
  | cons a rest ih => exact (link_perm a _).trans (ih.cons a)

theorem sorted_link_all (l : List α) : Sorted key (link_all key l) := by
  induction l with
  | nil => exact List.Pairwise.nil
  | cons a rest ih => exact sorted_link a ih

theorem place_perm (before : List α) (a : α) (after : List α) : (place key before a after).Perm (before ++ a :: after) := by
  rw [place]
  split
  · exact .refl _
  · exact (link_perm a _).trans List.perm_middle.symm

/-- An element stays if it is not below those before it and not above those behind it. -/
theorem place_stays {before : List α} {a : α} {after : List α} (low : ∀ b ∈ before, key b ≤ key a)
    (high : ∀ b ∈ after, key a ≤ key b) : place key before a after = before ++ a :: after := by
  refine if_pos ?_
  rw [in_place,Bool.and_eq_true]
  constructor
  · cases last : before.getLast? with
    | none => rfl
    | some b => simpa using low b (List.mem_of_getLast? last)
  · cases after with
    | nil => rfl
    | cons b rest => simpa using high b List.mem_cons_self

/-- The neighbours speak for all the others. -/
theorem sorted_place {before : List α} {old : α} {after : List α} (a : α) (sorted : Sorted key (before ++ old :: after)) :
    Sorted key (place key before a after) := by
  have others : Sorted key (before ++ after) :=
    List.Pairwise.sublist (List.Sublist.append_left (List.sublist_cons_self _ _) _) sorted
  rw [place]
  split
  case isFalse => exact sorted_link a others
  case isTrue stays =>
    obtain ⟨inside,outside,across⟩ := List.pairwise_append.mp others
    rw [in_place,Bool.and_eq_true] at stays
    have high : ∀ b ∈ after, key a ≤ key b := by
      intro b member
      cases after with
      | nil => cases member
      | cons n rest =>
        have next : key a ≤ key n := by simpa using stays.2
        rcases List.mem_cons.mp member with rfl | deeper
        · exact next
        · exact next.trans ((List.pairwise_cons.mp outside).1 b deeper)
    have low : ∀ b ∈ before, key b ≤ key a := by
      intro b member
      rcases List.eq_nil_or_concat before with rfl | ⟨front,last,rfl⟩
      · cases member
      · have previous : key last ≤ key a := by simpa using stays.1
        rw [List.concat_eq_append] at member inside
        rcases List.mem_append.mp member with earlier | here
        · exact ((List.pairwise_append.mp inside).2.2 b earlier last (List.mem_singleton_self _)).trans previous
        · rw [List.mem_singleton.mp here]
          exact previous
    refine List.pairwise_append.mpr ⟨inside,List.pairwise_cons.mpr ⟨high,outside⟩,fun b member c tail => ?_⟩
    rcases List.mem_cons.mp tail with rfl | behind
    · exact low b member
    · exact across b member c behind

end

/-! ### Ranges -/

/-- The elements from the lower bound of a key on. -/
def lower_bound (k : κ) (l : List α) : List α := l.dropWhile (key · < k)

/-- The elements from its upper bound on. -/
def upper_bound (k : κ) (l : List α) : List α := l.dropWhile (key · ≤ k)

/-- The elements with a key stand together, from the lower to the upper bound. -/
theorem equal_range {l : List α} (sorted : Sorted key l) (k : κ) :
    ∃ before range after, l = before ++ (range ++ after) ∧ lower_bound key k l = range ++ after ∧
      upper_bound key k l = after ∧ (∀ a ∈ before, key a < k) ∧ (∀ a ∈ range, key a = k) ∧ ∀ a ∈ after, k < key a := by
  induction l with
  | nil => exact ⟨[],[],[],rfl,rfl,rfl,nofun,nofun,nofun⟩
  | cons b rest ih =>
    obtain ⟨first,sorted'⟩ := List.pairwise_cons.mp sorted
    obtain ⟨before,range,after,split,lower,upper,low,equal,high⟩ := ih sorted'
    rcases lt_trichotomy (key b) k with below | same | above
    · refine ⟨b :: before,range,after,by rw [split,List.cons_append],?_,?_,?_,equal,high⟩
      · rw [← lower]
        exact List.dropWhile_cons_of_pos (by simpa using below)
      · rw [← upper]
        exact List.dropWhile_cons_of_pos (by simpa using below.le)
      · intro a member
        rcases List.mem_cons.mp member with rfl | inside
        · exact below
        · exact low a inside
    · -- Nothing before the element is below the key, so that the range begins with it.
      have none : before = [] := by
        cases before with
        | nil => rfl
        | cons c more =>
          have least := first c (by rw [split]; exact List.mem_cons_self)
          exact absurd (low c List.mem_cons_self) (not_lt.mpr (same ▸ least))
      subst none
      refine ⟨[],b :: range,after,by rw [split]; rfl,?_,?_,nofun,?_,high⟩
      · rw [lower_bound,List.dropWhile_cons_of_neg (by simp [same]),split]
        rfl
      · rw [← upper]
        exact List.dropWhile_cons_of_pos (by simp [same])
      · intro a member
        rcases List.mem_cons.mp member with rfl | inside
        · exact same
        · exact equal a inside
    · refine ⟨[],[],b :: rest,rfl,?_,?_,nofun,nofun,?_⟩
      · exact List.dropWhile_cons_of_neg (by simpa using above.le)
      · exact List.dropWhile_cons_of_neg (by simpa using above)
      · intro a member
        rcases List.mem_cons.mp member with rfl | inside
        · exact above
        · exact above.trans_le (first a inside)

/-! ### Iterators -/

section
variable [DecidableEq ι] (name : α → ι)

/-- Modify the element at an iterator. -/
def modify (i : ι) (f : α → α) (l : List α) : List α :=
  match l.dropWhile (name · ≠ i) with
  | [] => l
  | a :: after => place key (l.takeWhile (name · ≠ i)) (f a) after

/-- The iterator behind another. -/
def next (i : ι) (l : List α) : Option ι := (l.dropWhile (name · ≠ i)).tail.head?.map name

variable {key name} {before after : List α} {a : α}

variable (key name) in
/-- There is no such element, or it stands between others. -/
theorem modify_cases (i : ι) (f : α → α) (l : List α) :
    modify key name i f l = l ∧ (∀ a ∈ l, name a ≠ i) ∨
      ∃ before a after, l = before ++ a :: after ∧ name a = i ∧ modify key name i f l = place key before (f a) after := by
  have parts := List.takeWhile_append_dropWhile (p := (name · ≠ i)) (l := l)
  cases found : l.dropWhile (name · ≠ i) with
  | nil =>
    refine .inl ⟨by rw [modify,found],?_⟩
    simpa using List.dropWhile_eq_nil_iff.mp found
  | cons a after =>
    rw [found] at parts
    refine .inr ⟨_,a,after,parts.symm,?_,by rw [modify,found]⟩
    have first := List.head?_dropWhile_not (name · ≠ i) l
    rw [found] at first
    simpa using first

theorem sorted_modify {l : List α} (sorted : Sorted key l) (i : ι) (f : α → α) : Sorted key (modify key name i f l) := by
  rcases modify_cases key name i f l with ⟨same,-⟩ | ⟨before,a,after,rfl,-,placed⟩
  · rw [same]
    exact sorted
  · rw [placed]
    exact sorted_place (f a) sorted

theorem dropWhile_at (distinct : ((before ++ a :: after).map name).Nodup) :
    (before ++ a :: after).dropWhile (name · ≠ name a) = a :: after ∧
      (before ++ a :: after).takeWhile (name · ≠ name a) = before := by
  rw [List.map_append,List.map_cons] at distinct
  have skip : ∀ b ∈ before, decide (name b ≠ name a) = true := by
    intro b member
    refine decide_eq_true fun same => ?_
    exact (List.nodup_append.mp distinct).2.2 _ (List.mem_map_of_mem member) _ List.mem_cons_self same
  rw [List.dropWhile_append_of_pos skip,List.takeWhile_append_of_pos skip]
  simp

theorem modify_at (distinct : ((before ++ a :: after).map name).Nodup) (f : α → α) :
    modify key name (name a) f (before ++ a :: after) = place key before (f a) after := by
  rw [modify,(dropWhile_at distinct).1,(dropWhile_at distinct).2]

/-- Whatever its place, an element is changed where its name is that of the iterator. -/
theorem modify_perm {l : List α} (distinct : (l.map name).Nodup) (i : ι) (f : α → α) :
    (modify key name i f l).Perm (l.map fun a => if name a = i then f a else a) := by
  have unchanged : ∀ l' : List α, (∀ a ∈ l', name a ≠ i) → l'.map (fun a => if name a = i then f a else a) = l' := by
    intro l' other
    exact (List.map_congr_left fun a member => if_neg (other a member)).trans (List.map_id l')
  rcases modify_cases key name i f l with ⟨same,other⟩ | ⟨before,a,after,rfl,here,placed⟩
  · rw [same,unchanged l other]
  · rw [List.map_append,List.map_cons] at distinct
    obtain ⟨-,behind,across⟩ := List.nodup_append.mp distinct
    have other : ∀ b ∈ after, name b ≠ i := fun b member same =>
      (List.nodup_cons.mp behind).1 (by rw [here,← same]; exact List.mem_map_of_mem member)
    have front : ∀ b ∈ before, name b ≠ i := fun b member same =>
      across _ (List.mem_map_of_mem member) _ List.mem_cons_self (same.trans here.symm)
    rw [placed,List.map_append,List.map_cons,unchanged before front,unchanged after other,if_pos here]
    exact place_perm before (f a) after

theorem next_at (distinct : ((before ++ a :: after).map name).Nodup) :
    next name (name a) (before ++ a :: after) = after.head?.map name := by
  rw [next,(dropWhile_at distinct).1,List.tail_cons]

end

end Ordered

import Mathlib.Data.List.Basic
import Decent.Lib.Loops

/-!
Account names: the checker walks the labels of a name by index, from each dot to the
next, and accepts what the grammar of domain names allows, in lowercase and within two
bounds on the length.
-/
namespace Decent.AccountNames
open Loops

/-- `GRAPHENE_MIN_ACCOUNT_NAME_LENGTH`. -/
def min_account_name_length : Nat := 5

/-- `GRAPHENE_MAX_ACCOUNT_NAME_LENGTH`. -/
def max_account_name_length : Nat := 63

/-- `'.'`. -/
def dot : UInt8 := 46

/-- 'a' to 'z'. -/
def letter (c : UInt8) : Bool := 97 ≤ c && c ≤ 122

/-- '0' to '9'. -/
def digit (c : UInt8) : Bool := 48 ≤ c && c ≤ 57

def let_dig (c : UInt8) : Bool := letter c || digit c

/-- The hyphen beside letters and digits. -/
def let_dig_hyp (c : UInt8) : Bool := let_dig c || c == 45

/-- `name[i]`. -/
def char_at (name : List UInt8) (i : Nat) : UInt8 := name.getD i 0

/-- `name.find_first_of( '.', begin )`. -/
def find_first_of (name : List UInt8) (start : Nat) : Option Nat :=
  ((name.drop start).findIdx? (· == dot)).map (start + ·)

/-- What is checked of the label between two positions. -/
def label_check (name : List UInt8) (start stop : Nat) : Bool :=
  if stop - start < 3 then false
  else if ¬ letter (char_at name start) then false
  else if ¬ let_dig (char_at name (stop - 1)) then false
  else (List.range' (start + 1) (stop - 1 - (start + 1))).all (fun i => let_dig_hyp (char_at name i))

/-- One label; the state is where it begins. -/
def name_pass (name : List UInt8) (start : Nat) : Option (Nat ⊕ Bool) :=
  let stop := (find_first_of name start).getD name.length
  if ¬ label_check name start stop then some (.inr false)
  else if stop = name.length then some (.inr true)
  else some (.inl (stop + 1))

/-- `is_valid_name`; none where the passes are not enough. -/
def is_valid_name (name : List UInt8) (fuel : Nat) : Option Bool :=
  if name.length < min_account_name_length then some false
  else if name.length > max_account_name_length then some false
  else loop (name_pass name) fuel 0

/-! ## The grammar -/

/-- A label: three or more characters, the first a letter, the last a letter or digit,
    all of them letters, digits or hyphens. -/
structure Label (l : List UInt8) : Prop where
  long : 3 ≤ l.length
  first : ∀ c ∈ l.head?, letter c
  last : ∀ c ∈ l.getLast?, let_dig c
  every : ∀ c ∈ l, let_dig_hyp c

/-- One or more labels with dots between them. -/
def Dotted (name : List UInt8) : Prop :=
  ∃ labels : List (List UInt8), labels ≠ [] ∧ (∀ l ∈ labels, Label l) ∧ name = [dot].intercalate labels

/-- The names of the grammar within the bounds. -/
def ValidName (name : List UInt8) : Prop :=
  min_account_name_length ≤ name.length ∧ name.length ≤ max_account_name_length ∧ Dotted name

theorem let_dig_hyp_of_letter {c : UInt8} (h : letter c) : let_dig_hyp c := by
  simp [let_dig_hyp,let_dig,h]

theorem let_dig_hyp_of_let_dig {c : UInt8} (h : let_dig c) : let_dig_hyp c := by
  simp [let_dig_hyp,h]

theorem Label.undotted {l : List UInt8} (h : Label l) : dot ∉ l := by
  intro member
  exact absurd (h.every dot member) (by decide)

/-- A label and what follows its dot. -/
theorem dotted_cons {l rest : List UInt8} (label : Label l) (dotted : Dotted rest) : Dotted (l ++ dot :: rest) := by
  obtain ⟨labels,present,all,joined⟩ := dotted
  obtain ⟨next,more,rfl⟩ := List.exists_cons_of_ne_nil present
  refine ⟨l :: next :: more,by simp,?_,?_⟩
  · intro x member
    rcases List.mem_cons.mp member with rfl | later
    · exact label
    · exact all x later
  · rw [List.intercalate_cons_cons,joined]
    simp

/-- Without a dot there is one label. -/
theorem dotted_undotted {l : List UInt8} (undotted : dot ∉ l) : Dotted l ↔ Label l := by
  constructor
  · rintro ⟨labels,present,all,rfl⟩
    match labels,present with
    | [single],_ => simpa using all single
    | first :: next :: more,_ =>
      rw [List.intercalate_cons_cons] at undotted
      simp at undotted
  · intro label
    exact ⟨[l],by simp,by simpa using label,by simp⟩

/-- A list has one first dot. -/
theorem first_dot {l l' rest rest' : List UInt8} (undotted : dot ∉ l) (undotted' : dot ∉ l')
    (same : l ++ dot :: rest = l' ++ dot :: rest') : l = l' ∧ rest = rest' := by
  induction l generalizing l' with
  | nil =>
    cases l' with
    | nil => exact ⟨rfl,by simpa using same⟩
    | cons c more =>
      simp only [List.nil_append,List.cons_append,List.cons.injEq] at same
      exact absurd (same.1 ▸ List.mem_cons_self) undotted'
  | cons c more ih =>
    cases l' with
    | nil =>
      simp only [List.nil_append,List.cons_append,List.cons.injEq] at same
      exact absurd (same.1 ▸ List.mem_cons_self) undotted
    | cons c' more' =>
      simp only [List.cons_append,List.cons.injEq] at same
      simp only [List.mem_cons,not_or] at undotted undotted'
      obtain ⟨rfl,rfl⟩ := ih undotted.2 undotted'.2 same.2
      exact ⟨by rw [same.1],rfl⟩

/-- The first dot ends the first label. -/
theorem dotted_split {l rest : List UInt8} (undotted : dot ∉ l) :
    Dotted (l ++ dot :: rest) ↔ Label l ∧ Dotted rest := by
  constructor
  · rintro ⟨labels,present,all,joined⟩
    match labels,present with
    | [single],_ =>
      have label := all single (by simp)
      rw [List.intercalate_singleton] at joined
      exact absurd (joined ▸ by simp) label.undotted
    | first :: next :: more,_ =>
      have label := all first (by simp)
      rw [List.intercalate_cons_cons,List.append_assoc,List.singleton_append] at joined
      obtain ⟨rfl,rfl⟩ := first_dot undotted label.undotted joined
      exact ⟨label,next :: more,by simp,fun x later => all x (List.mem_cons_of_mem _ later),rfl⟩
  · rintro ⟨label,dotted⟩
    exact dotted_cons label dotted

/-! ## The walk -/

/-- The checks by index are those of the label between the positions. -/
theorem label_check_iff (before l after : List UInt8) :
    label_check (before ++ l ++ after) before.length (before.length + l.length) = true ↔ Label l := by
  have inside (i : Nat) (h : i < l.length) :
      char_at (before ++ l ++ after) (before.length + i) = l[i] := by
    rw [char_at,List.append_assoc,List.getD_eq_getElem?_getD,List.getElem?_append_right (Nat.le_add_right _ _),
      Nat.add_sub_cancel_left,List.getElem?_append_left h,List.getElem?_eq_getElem h,Option.getD_some]
  unfold label_check
  by_cases short : l.length < 3
  · rw [if_pos (by omega)]
    simp only [Bool.false_eq_true,false_iff]
    intro label
    exact absurd label.long (by omega)
  rw [if_neg (by omega)]
  have first_at : char_at (before ++ l ++ after) before.length = l[0] := inside 0 (by omega)
  have last_at : char_at (before ++ l ++ after) (before.length + l.length - 1) = l[l.length - 1] := by
    rw [← inside (l.length - 1) (by omega)]
    congr 1
    omega
  have head : l.head? = some l[0] := by rw [List.head?_eq_getElem?,List.getElem?_eq_getElem]
  have tail : l.getLast? = some l[l.length - 1] := by
    rw [List.getLast?_eq_getElem?,List.getElem?_eq_getElem]
  rw [first_at,last_at]
  constructor
  · intro checked
    split_ifs at checked with first last
    refine ⟨by omega,by simpa [head] using first,by simpa [tail] using last,?_⟩
    intro c member
    obtain ⟨i,bound,rfl⟩ := List.getElem_of_mem member
    rcases Nat.eq_zero_or_pos i with rfl | positive
    · exact let_dig_hyp_of_letter first
    by_cases final : i = l.length - 1
    · subst final
      exact let_dig_hyp_of_let_dig last
    · rw [← inside i bound]
      refine List.all_eq_true.mp checked _ (List.mem_range'_1.mpr ⟨by omega,by omega⟩)
  · intro label
    have first : letter l[0] := label.first _ (by simp [head])
    have last : let_dig l[l.length - 1] := label.last _ (by simp [tail])
    rw [if_neg (by simpa using first),if_neg (by simpa using last),List.all_eq_true]
    intro i member
    obtain ⟨from_start,to_end⟩ := List.mem_range'_1.mp member
    obtain ⟨j,rfl⟩ := Nat.exists_eq_add_of_le (show before.length ≤ i by omega)
    rw [inside j (by omega)]
    exact label.every _ (List.getElem_mem _)

/-- Where the walk stands: at a position whose rest decides. -/
def Stands (name : List UInt8) (start : Nat) : Prop :=
  start ≤ name.length ∧ (Dotted (name.drop start) ↔ Dotted name)

/-- What the search for a dot finds. -/
theorem split_at_dot {l : List UInt8} {length : Nat} (found : l.findIdx? (· == dot) = some length) :
    length < l.length ∧ l = l.take length ++ dot :: l.drop (length + 1) ∧ dot ∉ l.take length := by
  obtain ⟨bound,is_dot,none_before⟩ := List.findIdx?_eq_some_iff_getElem.mp found
  refine ⟨bound,?_,fun member => ?_⟩
  · have here : l[length] = dot := by simpa using is_dot
    conv_lhs => rw [← List.take_append_drop length l]
    rw [List.drop_eq_getElem_cons bound,here]
  · obtain ⟨i,inside,same⟩ := List.getElem_of_mem member
    rw [List.length_take] at inside
    have earlier := none_before i (by omega)
    rw [List.getElem_take] at same
    simp [same] at earlier

/-- One label more, or the verdict. -/
theorem name_pass_step (name : List UInt8) (start : Nat) (stands : Stands name start) :
    (∃ next, name_pass name start = some (.inl next) ∧ Stands name next ∧
      name.length - next < name.length - start) ∨
    ∃ verdict, name_pass name start = some (.inr verdict) ∧ (verdict = true ↔ Dotted name) := by
  obtain ⟨within,decides⟩ := stands
  have front : (name.take start).length = start := by rw [List.length_take]; omega
  cases found : (name.drop start).findIdx? (· == dot) with
  | none =>
    have undotted : dot ∉ name.drop start := by
      intro member
      exact absurd (List.findIdx?_eq_none_iff.mp found dot member) (by simp)
    have stop : (find_first_of name start).getD name.length = name.length := by simp [find_first_of,found]
    have checked := label_check_iff (name.take start) (name.drop start) []
    rw [List.append_nil,List.take_append_drop,front,List.length_drop,
      Nat.add_sub_cancel' within,← dotted_undotted undotted,decides] at checked
    right
    by_cases ok : label_check name start name.length = true
    · exact ⟨true,by simp [name_pass,stop,ok],by simpa using checked.mp ok⟩
    · exact ⟨false,by simp [name_pass,stop,ok],by simpa using fun dotted => ok (checked.mpr dotted)⟩
  | some length =>
    obtain ⟨bound,rest,undotted⟩ := split_at_dot found
    rw [List.length_drop] at bound
    rw [List.drop_drop,← Nat.add_assoc] at rest
    have size : ((name.drop start).take length).length = length := by
      rw [List.length_take,List.length_drop]; omega
    have stop : (find_first_of name start).getD name.length = start + length := by simp [find_first_of,found]
    have checked := label_check_iff (name.take start) ((name.drop start).take length)
      (dot :: name.drop (start + length + 1))
    rw [List.append_assoc,← rest,List.take_append_drop,front,size] at checked
    have decided : Dotted name ↔ Label ((name.drop start).take length) ∧ Dotted (name.drop (start + length + 1)) := by
      rw [← decides,rest,dotted_split undotted,← rest]
    by_cases ok : label_check name start (start + length) = true
    · left
      refine ⟨start + length + 1,?_,⟨by omega,?_⟩,by omega⟩
      · simp [name_pass,stop,ok,show start + length ≠ name.length by omega]
      · rw [decided]
        simp [checked.mp ok]
    · right
      refine ⟨false,by simp [name_pass,stop,ok],?_⟩
      simp only [Bool.false_eq_true,false_iff,decided]
      exact fun dotted => ok (checked.mpr dotted.1)

/-- The walk decides the grammar. -/
theorem walk_decides (name : List UInt8) (fuel : Nat) (enough : name.length < fuel) :
    ∃ verdict, loop (name_pass name) fuel 0 = some verdict ∧ (verdict = true ↔ Dotted name) :=
  loop_total (Stands name) (fun start => name.length - start) (fun verdict => verdict = true ↔ Dotted name)
    (name_pass_step name) fuel 0 ⟨Nat.zero_le _,by rw [List.drop_zero]⟩ (by simpa using enough)

/-- Every byte string is answered, and accepted exactly when the grammar has it. -/
theorem is_valid_name_exact (name : List UInt8) : ∃ passes, ∀ fuel, passes ≤ fuel →
    ∃ verdict, is_valid_name name fuel = some verdict ∧ (verdict = true ↔ ValidName name) := by
  refine ⟨name.length + 1,fun fuel enough => ?_⟩
  by_cases short : name.length < min_account_name_length
  · refine ⟨false,by rw [is_valid_name,if_pos short],?_⟩
    simp only [Bool.false_eq_true,false_iff]
    exact fun valid => absurd valid.1 (by omega)
  by_cases long : name.length > max_account_name_length
  · refine ⟨false,by rw [is_valid_name,if_neg short,if_pos long],?_⟩
    simp only [Bool.false_eq_true,false_iff]
    exact fun valid => absurd valid.2.1 (by omega)
  obtain ⟨verdict,ended,decides⟩ := walk_decides name fuel enough
  refine ⟨verdict,by rw [is_valid_name,if_neg short,if_neg long,ended],?_⟩
  rw [decides,ValidName]
  constructor
  · exact fun dotted => ⟨by omega,by omega,dotted⟩
  · exact fun valid => valid.2.2

/-- "a-b.com1", and the same with a dot behind it. -/
example : is_valid_name [97,45,98,46,99,111,109,49] 10 = some true ∧
    is_valid_name [97,45,98,46,99,111,109,49,46] 10 = some false := by decide

end Decent.AccountNames

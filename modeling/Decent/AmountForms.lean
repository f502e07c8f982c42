import Mathlib.Data.Nat.GCD.Basic
import Decent.AmountText

/-!
Which texts the reader of amounts takes, against the form that it is documented for, and which amounts
it reads back as they were written.
-/
namespace Decent.AmountText
open Decent.Money (Fits max_share_supply)

/-! ### The form -/

/-- A minus sign or none, digits, and maybe a point and digits. There may be no digits on a side. -/
structure Text where
  negative : Bool
  units : List Char
  decimals : Option (List Char)
  units_digits : Digits units
  decimals_digits : Digits (decimals.getD [])

namespace Text

def fraction (t : Text) : List Char := t.decimals.getD []

def written (t : Text) : List Char :=
  (if t.negative then ['-'] else []) ++ (t.units ++ t.decimals.elim [] ('.' :: ·))

/-- There are digits, and digits behind the point. -/
def Documented (t : Text) : Prop := t.units ≠ [] ∧ t.decimals ≠ some []

/-- No more decimals than the precision, zeros at the end apart. -/
def Exact (t : Text) (precision : Nat) : Prop := (strip t.fraction).length ≤ precision

/-- The number of the text is `m` units of the asset, without the sign. -/
def Worth (t : Text) (precision m : Nat) : Prop :=
  m * 10 ^ t.fraction.length = value (t.units ++ t.fraction) * 10 ^ precision

/-- The same where decimals behind the precision are cut off. -/
def magnitude (t : Text) (precision : Nat) : Nat := value t.units * 10 ^ precision + value (pad precision t.fraction)

def signed (t : Text) (m : Nat) : Int := if t.negative then -m else m

end Text

/-- `s` is of the documented form, and means `a`, which is not too large. -/
def Amount (precision : Nat) (s : List Char) (a : Int) : Prop :=
  ∃ (t : Text) (m : Nat), t.written = s ∧ t.Documented ∧ t.Exact precision ∧ t.Worth precision m ∧
    m ≤ max_share_supply ∧ a = t.signed m

/-! ### Texts of the form -/

theorem digits_append {l r : List Char} (first : Digits l) (last : Digits r) : Digits (l ++ r) := fun c member =>
  (List.mem_append.mp member).elim (first c) (last c)

theorem digits_zeros (n : Nat) : Digits (List.replicate n '0') := fun c member => by
  rw [List.eq_of_mem_replicate member]
  decide

theorem digits_strip {l : List Char} (digits : Digits l) : Digits (strip l) := fun c member =>
  digits c ((List.rdropWhile_prefix _ _).subset member)

theorem digits_pad {precision : Nat} {l : List Char} (digits : Digits l) : Digits (pad precision l) := fun c member =>
  digits_append digits (digits_zeros precision) c (List.mem_of_mem_take member)

theorem not_mem_digits {c : Char} (other : c.isDigit = false) {l : List Char} (digits : Digits l) : c ∉ l := fun member => by
  rw [digits c member] at other
  cases other

theorem pad_append_zeros (precision n : Nat) (l : List Char) : pad precision (l ++ List.replicate n '0') = pad precision l := by
  unfold pad
  rw [List.append_assoc,List.replicate_append_replicate,List.take_append,List.take_append,List.take_replicate,
    List.take_replicate]
  congr 2
  omega

theorem pad_strip (precision : Nat) (l : List Char) : pad precision (strip l) = pad precision l := by
  obtain ⟨n,zeros⟩ := strip_zeros l
  conv_rhs => rw [zeros]
  exact (pad_append_zeros precision n (strip l)).symm

theorem value_pad {precision : Nat} {l : List Char} (short : l.length ≤ precision) :
    value (pad precision l) = value l * 10 ^ (precision - l.length) := by
  rw [pad,List.take_append,List.take_of_length_le short,List.take_replicate,value_append,value_zeros,Nat.add_zero,
    List.length_replicate]
  congr 2
  omega

/-- With no more decimals than the precision nothing is cut. -/
theorem worth_iff {t : Text} {precision m : Nat} (exact : t.Exact precision) :
    t.Worth precision m ↔ m = t.magnitude precision := by
  obtain ⟨n,zeros⟩ := strip_zeros t.fraction
  have length : t.fraction.length = (strip t.fraction).length + n := by
    conv_lhs => rw [zeros]
    rw [List.length_append,List.length_replicate]
  have fraction : value t.fraction = value (strip t.fraction) * 10 ^ n := by
    conv_lhs => rw [zeros]
    rw [value_append,value_zeros,Nat.add_zero,List.length_replicate]
  have cut : value (pad precision t.fraction) * 10 ^ t.fraction.length = value t.fraction * 10 ^ precision := by
    rw [← pad_strip,value_pad exact,fraction,length,Nat.mul_assoc,Nat.mul_assoc,← Nat.pow_add,← Nat.pow_add]
    congr 2
    have : (strip t.fraction).length ≤ precision := exact
    omega
  have whole : t.magnitude precision * 10 ^ t.fraction.length = value (t.units ++ t.fraction) * 10 ^ precision := by
    rw [Text.magnitude,Nat.add_mul,cut,value_append,Nat.add_mul,Nat.mul_right_comm]
  rw [Text.Worth,← whole]
  exact Nat.mul_right_cancel_iff (Nat.pow_pos (by decide))

/-- The sign before the digits. -/
def front (t : Text) : List Char := (if t.negative then ['-'] else []) ++ t.units

theorem written_eq (t : Text) : t.written = front t ++ t.decimals.elim [] ('.' :: ·) := (List.append_assoc ..).symm

theorem minus_front (t : Text) : '-' ∈ front t ↔ t.negative = true := by
  have none := not_mem_digits (c := '-') (by decide) t.units_digits
  unfold front
  cases t.negative <;> simp [none]

theorem point_front (t : Text) : '.' ∉ front t := by
  have none := not_mem_digits (c := '.') (by decide) t.units_digits
  unfold front
  cases t.negative <;> simp [none]

theorem minus_written (t : Text) : '-' ∈ t.written ↔ t.negative = true := by
  have none := not_mem_digits (c := '-') (by decide) t.decimals_digits
  rw [written_eq,List.mem_append,minus_front]
  cases found : t.decimals with
  | none => simp
  | some r =>
    rw [found,Option.getD_some] at none
    simp [none]

theorem head_written (t : Text) : t.written.head? = some '-' ↔ t.negative = true := by
  constructor
  · exact fun first => (minus_written t).mp (List.mem_of_head? first)
  · intro negative
    simp [Text.written,negative]

theorem front_passed (t : Text) : ∀ c ∈ front t, decide (c ≠ '.') = true := fun _ member =>
  decide_eq_true fun same => point_front t (same ▸ member)

theorem left_written (t : Text) : left t.written = front t := by
  rw [left,written_eq,List.takeWhile_append_of_pos (front_passed t)]
  cases t.decimals <;> simp

theorem right_written (t : Text) : right t.written = strip t.fraction := by
  rw [right,written_eq,List.dropWhile_append_of_pos (front_passed t),Text.fraction]
  cases t.decimals <;> simp

theorem scanned_written (t : Text) : Scanned t.written := by
  have minus : ∀ {l}, Digits l → l.count '-' = 0 := fun digits => List.count_eq_zero.mpr (not_mem_digits (by decide) digits)
  have point : ∀ {l}, Digits l → l.count '.' = 0 := fun digits => List.count_eq_zero.mpr (not_mem_digits (by decide) digits)
  have decimals := t.decimals_digits
  have behind : Scanned (t.decimals.elim [] ('.' :: ·)) ∧ (t.decimals.elim [] ('.' :: ·)).count '-' = 0 := by
    cases found : t.decimals with
    | none => exact ⟨⟨nofun,by decide,by decide⟩,rfl⟩
    | some r =>
      rw [found,Option.getD_some] at decimals
      refine ⟨⟨fun c member => ?_,?_,?_⟩,?_⟩
      · exact (List.mem_cons.mp member).elim (fun here => .inr (.inr here)) fun inside => .inl (decimals c inside)
      · simp [minus decimals]
      · simp [point decimals]
      · simp [minus decimals]
  have sign : (front t).count '-' ≤ 1 := by
    unfold front
    cases t.negative <;> simp [minus t.units_digits]
  have none : (front t).count '.' = 0 := List.count_eq_zero.mpr (point_front t)
  rw [written_eq]
  refine ⟨fun c member => ?_,?_,?_⟩
  · rcases List.mem_append.mp member with inside | inside
    · rcases List.mem_append.mp inside with sign | digit
      · exact .inr (.inl (by simpa using (List.mem_ite_nil_right.mp sign).2))
      · exact .inl (t.units_digits c digit)
    · exact behind.1.allowed c inside
  · rw [List.count_append,behind.2]
    exact sign
  · rw [List.count_append,none,Nat.zero_add]
    exact behind.1.point

/-- The sign, the digits and the decimals can be told from the text. -/
theorem written_injective {t u : Text} (same : t.written = u.written) : t = u := by
  have signs : t.negative = u.negative := by
    rw [Bool.eq_iff_iff,← minus_written,← minus_written,same]
  have sides : ∀ t : Text, t.units = (t.units ++ t.decimals.elim [] ('.' :: ·)).takeWhile Char.isDigit ∧
      t.decimals.elim [] ('.' :: ·) = (t.units ++ t.decimals.elim [] ('.' :: ·)).dropWhile Char.isDigit := by
    intro t
    rw [List.takeWhile_append_of_pos t.units_digits,List.dropWhile_append_of_pos t.units_digits]
    cases t.decimals <;> simp
  have rest : t.units ++ t.decimals.elim [] ('.' :: ·) = u.units ++ u.decimals.elim [] ('.' :: ·) := by
    unfold Text.written at same
    rw [signs] at same
    exact List.append_cancel_left same
  have units : t.units = u.units := by rw [(sides t).1,rest,← (sides u).1]
  have points : t.decimals.elim [] ('.' :: ·) = u.decimals.elim [] ('.' :: ·) := by rw [(sides t).2,rest,← (sides u).2]
  have decimals : t.decimals = u.decimals := by
    cases first : t.decimals with
    | none =>
      cases second : u.decimals with
      | none => rfl
      | some r => rw [first,second] at points; cases points
    | some l =>
      cases second : u.decimals with
      | none => rw [first,second] at points; cases points
      | some r => rw [first,second] at points; exact congrArg some (List.cons.inj points).2
  cases t
  cases u
  cases signs
  cases units
  cases decimals
  rfl

theorem digits_of_split {mark : Char} {a b : List Char} (allowed : ∀ c ∈ a ++ mark :: b, c.isDigit = true ∨ c = mark)
    (one : (a ++ mark :: b).count mark ≤ 1) : Digits a ∧ Digits b := by
  rw [List.count_append,List.count_cons_self] at one
  have none : mark ∉ a := List.count_eq_zero.mp (by omega)
  have none' : mark ∉ b := List.count_eq_zero.mp (by omega)
  refine ⟨fun c member => ?_,fun c member => ?_⟩
  · exact (allowed c (List.mem_append_left _ member)).resolve_right fun here => none (here ▸ member)
  · exact (allowed c (List.mem_append_right _ (List.mem_cons_of_mem _ member))).resolve_right fun here => none' (here ▸ member)

/-- Digits, but for one character at most. -/
theorem split_mark {mark : Char} {l : List Char} (allowed : ∀ c ∈ l, c.isDigit = true ∨ c = mark) (one : l.count mark ≤ 1) :
    Digits l ∨ ∃ a b, Digits a ∧ Digits b ∧ l = a ++ mark :: b := by
  by_cases marked : mark ∈ l
  · obtain ⟨a,b,split⟩ := List.append_of_mem marked
    rw [split] at allowed one
    obtain ⟨digits,digits'⟩ := digits_of_split allowed one
    exact .inr ⟨a,b,digits,digits',split⟩
  · exact .inl fun c member => (allowed c member).resolve_right fun here => marked (here ▸ member)

theorem sides_of_body {b : List Char} (allowed : ∀ c ∈ b, c.isDigit = true ∨ c = '.') (one : b.count '.' ≤ 1) :
    ∃ (units : List Char) (decimals : Option (List Char)), Digits units ∧ Digits (decimals.getD []) ∧
      b = units ++ decimals.elim [] ('.' :: ·) := by
  rcases split_mark allowed one with digits | ⟨l,r,digits,digits',rfl⟩
  · exact ⟨b,none,digits,nofun,(List.append_nil b).symm⟩
  · exact ⟨l,some r,digits,digits',rfl⟩

/-- What the loop lets pass, without a minus sign or with one at its head. -/
theorem written_of_scanned {s : List Char} (scanned : Scanned s) (first : '-' ∉ s ∨ s.head? = some '-') :
    ∃ t : Text, t.written = s := by
  rcases first with none | first
  · have allowed : ∀ c ∈ s, c.isDigit = true ∨ c = '.' := fun c member =>
      (scanned.allowed c member).imp_right fun other => other.resolve_left fun minus => none (minus ▸ member)
    obtain ⟨units,decimals,digits,digits',rfl⟩ := sides_of_body allowed scanned.point
    exact ⟨⟨false,units,decimals,digits,digits'⟩,rfl⟩
  · obtain ⟨b,rfl⟩ := List.head?_eq_some_iff.mp first
    have few := scanned.minus
    have one := scanned.point
    rw [List.count_cons_self] at few
    rw [List.count_cons_of_ne (by decide)] at one
    have none : '-' ∉ b := List.count_eq_zero.mp (by omega)
    have allowed : ∀ c ∈ b, c.isDigit = true ∨ c = '.' := fun c member =>
      (scanned.allowed c (List.mem_cons_of_mem _ member)).imp_right fun other =>
        other.resolve_left fun minus => none (minus ▸ member)
    obtain ⟨units,decimals,digits,digits',rfl⟩ := sides_of_body allowed one
    exact ⟨⟨true,units,decimals,digits,digits'⟩,rfl⟩

/-! ### What is read -/

/-- A sign before the point needs digits between, unless nothing is left behind it. -/
def Text.Readable (t : Text) : Prop := t.negative = true → t.units = [] → strip t.fraction = []

theorem reading_digits {l : List Char} (digits : Digits l) (v : Int) : Reading l v ↔ v = value l := by
  unfold Reading
  split
  case isTrue empty =>
    rw [empty]
    rfl
  case isFalse some =>
    rw [number_digits digits some,Option.some.injEq]
    exact eq_comm

theorem units_written (t : Text) (u : Int) : Units t.written u ↔ t.Readable ∧ u = value t.units := by
  have unsigned := fun negative : t.negative = false => show front t = t.units by simp [front,negative]
  have signed := fun negative : t.negative = true => show front t = '-' :: t.units by simp [front,negative]
  simp only [Units,left_written,right_written,minus_written,Text.Readable]
  cases negative : t.negative with
  | false => simp [unsigned negative,reading_digits t.units_digits]
  | true =>
    simp only [signed negative,true_and,ne_eq,reduceCtorEq,not_false_eq_true,if_true,List.tail_cons,true_implies]
    by_cases behind : strip t.fraction = []
    · simp [behind,reading_digits t.units_digits]
    · by_cases empty : t.units = []
      · rw [if_pos behind,empty]
        simp [behind,number]
      · rw [if_pos behind,number_digits t.units_digits empty,Option.some.injEq]
        exact ⟨fun same => ⟨fun none => absurd none empty,same.symm⟩,fun both => both.2.symm⟩

theorem decimals_digits {precision : Nat} {s : List Char} (digits : Digits (right s)) (f : Int) :
    Decimals precision s f ↔ f = value (pad precision (right s)) := by
  unfold Decimals
  split
  case isTrue none =>
    have zero : pad precision [] = List.replicate precision '0' := by simp [pad]
    rw [none,zero,value_zeros]
    rfl
  case isFalse some => exact reading_digits (digits_pad digits) f

theorem decimals_written (precision : Nat) (t : Text) (f : Int) :
    Decimals precision t.written f ↔ f = value (pad precision t.fraction) := by
  have digits : Digits (right t.written) := by
    rw [right_written]
    exact digits_strip t.decimals_digits
  rw [decimals_digits digits,right_written,pad_strip]

theorem within_nonneg (precision u f : Nat) :
    Within precision u f ↔ ((u * 10 ^ precision + f : Nat) : Int) ≤ max_share_supply := by
  have cast : ((u * 10 ^ precision + f : Nat) : Int) = (u : Int) * 10 ^ precision + f := by
    rw [Int.natCast_add,Int.natCast_mul,Int.natCast_pow]
    rfl
  have nonneg : (0 : Int) ≤ (u : Int) * 10 ^ precision :=
    Int.mul_nonneg (Int.natCast_nonneg u) (Int.le_of_lt (Int.pow_pos (by decide)))
  rw [cast]
  exact ⟨fun within => within.2.2,fun high => ⟨by omega,by omega,high⟩⟩

/-- What the reader makes of the form: decimals behind the precision are cut off. -/
theorem amount_written {precision : Nat} (small : precision < 19) (t : Text) (v : Int) :
    amount_from_string precision t.written = .ok v ↔
      t.Readable ∧ (t.magnitude precision : Int) ≤ max_share_supply ∧ v = t.signed (t.magnitude precision) := by
  rw [amount_ok small]
  have cast : (t.magnitude precision : Int) = (value t.units : Int) * 10 ^ precision + value (pad precision t.fraction) := by
    rw [Text.magnitude,Int.natCast_add,Int.natCast_mul,Int.natCast_pow]
    rfl
  have signed : t.signed (t.magnitude precision) = if '-' ∈ t.written then
      -((value t.units : Int) * 10 ^ precision + value (pad precision t.fraction)) else
      (value t.units : Int) * 10 ^ precision + value (pad precision t.fraction) := by
    rw [Text.signed,cast]
    simp only [minus_written]
  rw [signed,Text.magnitude,← within_nonneg]
  constructor
  · rintro ⟨-,u,f,read,read',within,same⟩
    obtain ⟨readable,rfl⟩ := (units_written t u).mp read
    obtain rfl := (decimals_written precision t f).mp read'
    exact ⟨readable,within,same⟩
  · rintro ⟨readable,within,same⟩
    exact ⟨scanned_written t,_,_,(units_written t _).mpr ⟨readable,rfl⟩,(decimals_written precision t _).mpr rfl,within,same⟩

/-! ### A minus sign behind the first character -/

/-- The sign among the units. Read are the digits between the first one and the sign, or, where there are
none, those behind the sign, as a negative number. -/
def AmongUnits (precision : Nat) (s : List Char) : Prop :=
  ∃ ds es, (left s).tail = ds ++ '-' :: es ∧ (ds ≠ [] ∨ es ≠ []) ∧
    Within precision (if ds = [] then -value es else value ds) (value (pad precision (right s)))

/-- The sign among the decimals. The first of the units is not read, and the decimals are read up to the sign. -/
def AmongDecimals (precision : Nat) (s : List Char) : Prop :=
  ∃ gs hs, right s = gs ++ '-' :: hs ∧ (left s).length ≠ 1 ∧ (gs ≠ [] ∨ precision ≠ 1) ∧
    Within precision (value (left s).tail) (if gs = [] then -value (pad (precision - 1) hs) else value (gs.take precision))

/-- What stands on the sides of the point. -/
theorem sides_scanned {s : List Char} (scanned : Scanned s) :
    (∀ c ∈ left s, c.isDigit = true ∨ c = '-') ∧ (∀ c ∈ right s, c.isDigit = true ∨ c = '-') ∧
      (left s).count '-' + (right s).count '-' = s.count '-' := by
  have before : ∀ c ∈ left s, c.isDigit = true ∨ c = '-' := fun c member =>
    (scanned.allowed c (mem_of_left member)).imp_right fun other =>
      other.resolve_right fun point => not_mem_left s (point ▸ member)
  refine ⟨before,?_⟩
  rcases split_point s with ⟨-,whole,empty⟩ | ⟨n,split⟩
  · rw [whole,empty]
    exact ⟨nofun,rfl⟩
  · have one := scanned.point
    have zeros : (List.replicate n '0').count '-' = 0 := List.count_eq_zero.mpr (by simp)
    rw [split,List.count_append,List.count_cons_self,List.count_append] at one
    have none : '.' ∉ right s := List.count_eq_zero.mp (by omega)
    refine ⟨fun c member => ?_,?_⟩
    · exact (scanned.allowed c (mem_of_right member)).imp_right fun other =>
        other.resolve_right fun point => none (point ▸ member)
    · conv_rhs => rw [split,List.count_append,List.count_cons_of_ne (by decide),List.count_append,zeros]
      rfl

/-- What `stoll` reads where a minus sign stands among digits. -/
theorem number_sign {ds es : List Char} (digits : Digits ds) (digits' : Digits es) (v : Int) :
    number (ds ++ '-' :: es) = some v ↔ (ds ≠ [] ∨ es ≠ []) ∧ v = if ds = [] then -(value es : Int) else value ds := by
  cases ds with
  | nil =>
    rw [List.nil_append,number_minus,List.takeWhile_eq_self_iff.mpr digits']
    by_cases empty : es = [] <;> simp [empty,eq_comm]
  | cons d ds =>
    have plain : (d :: ds ++ '-' :: es).head? ≠ some '-' := fun first => by
      have digit := digits d List.mem_cons_self
      rw [Option.some.inj first] at digit
      cases digit
    have cut : (d :: ds ++ '-' :: es).takeWhile Char.isDigit = d :: ds := by
      rw [List.takeWhile_append_of_pos digits,List.takeWhile_cons_of_neg (by decide),List.append_nil]
    rw [number_plain plain,cut]
    simp [eq_comm]

theorem digits_left {s : List Char} (scanned : Scanned s) (minus : '-' ∈ right s) : Digits (left s) := fun c member => by
  obtain ⟨before,-,count⟩ := sides_scanned scanned
  have few := scanned.minus
  have behind := List.count_pos_iff.mpr minus
  have none : '-' ∉ left s := List.count_eq_zero.mp (by omega)
  exact (before c member).resolve_right fun here => none (here ▸ member)

theorem digits_right {s : List Char} (scanned : Scanned s) (minus : '-' ∈ left s) : Digits (right s) := fun c member => by
  obtain ⟨-,behind,count⟩ := sides_scanned scanned
  have few := scanned.minus
  have before := List.count_pos_iff.mpr minus
  have none : '-' ∉ right s := List.count_eq_zero.mp (by omega)
  exact (behind c member).resolve_right fun here => none (here ▸ member)

/-- What is cut out among the units. -/
theorem units_sign {s ds es : List Char} (scanned : Scanned s) (cut : (left s).tail = ds ++ '-' :: es) (u : Int) :
    Units s u ↔ (ds ≠ [] ∨ es ≠ []) ∧ u = if ds = [] then -(value es : Int) else value ds := by
  obtain ⟨before,-,count⟩ := sides_scanned scanned
  have few := scanned.minus
  have member : '-' ∈ left s := List.mem_of_mem_tail (by rw [cut]; simp)
  have inside : ∀ c ∈ ds ++ '-' :: es, c.isDigit = true ∨ c = '-' := fun c member =>
    before c (List.mem_of_mem_tail (by rw [cut]; exact member))
  have once : (ds ++ '-' :: es).count '-' ≤ 1 := by
    have fewer := (List.tail_sublist (left s)).count_le '-'
    rw [cut] at fewer
    omega
  obtain ⟨digits,digits'⟩ := digits_of_split inside once
  have read : Units s u ↔ number (left s).tail = some u := by
    have some : (left s).tail ≠ [] := by rw [cut]; simp
    unfold Units
    split
    · rfl
    · rw [if_pos (mem_of_left member),Reading,if_neg some]
  rw [read,cut]
  exact number_sign digits digits' u

theorem units_plain {s : List Char} (scanned : Scanned s) (minus : '-' ∈ right s) (u : Int) :
    Units s u ↔ (left s).length ≠ 1 ∧ u = value (left s).tail := by
  have digits := digits_left scanned minus
  have behind : right s ≠ [] := List.ne_nil_of_mem minus
  have member := mem_of_right minus
  unfold Units
  cases front : left s with
  | nil =>
    rw [if_neg (by simp),if_pos member,List.tail_nil]
    exact ⟨fun same => ⟨by decide,same⟩,fun both => both.2⟩
  | cons d ds =>
    rw [front] at digits
    have digits' : Digits ds := fun c member => digits c (List.mem_cons_of_mem d member)
    rw [if_pos ⟨member,List.cons_ne_nil d ds,behind⟩,List.tail_cons,List.length_cons]
    by_cases empty : ds = []
    · simp [empty,number]
    · have longer : ds.length + 1 ≠ 1 := by simpa using empty
      rw [number_digits digits' empty,Option.some.injEq]
      exact ⟨fun same => ⟨longer,same.symm⟩,fun both => both.2.symm⟩

theorem pad_cons (n : Nat) (c : Char) (l : List Char) : pad (n + 1) (c :: l) = c :: pad n l := by
  rw [pad,List.cons_append,List.take_succ_cons,pad,List.take_append,List.take_append,List.take_replicate,List.take_replicate]
  congr 3
  omega

/-- Where digits stand before the sign, `stoll` reads those that are not cut off. -/
theorem number_pad_sign {n : Nat} {gs : List Char} (digits : Digits gs) (some : gs ≠ []) (hs : List Char) :
    number (pad (n + 1) (gs ++ '-' :: hs)) = .some (value (gs.take (n + 1)) : Int) := by
  have plain : (pad (n + 1) (gs ++ '-' :: hs)).head? ≠ .some '-' := by
    obtain ⟨g,gs,rfl⟩ := List.exists_cons_of_ne_nil some
    rw [List.cons_append,pad_cons]
    intro same
    have digit := digits g List.mem_cons_self
    rw [Option.some.inj same] at digit
    cases digit
  have taken : (pad (n + 1) (gs ++ '-' :: hs)).takeWhile Char.isDigit = gs.take (n + 1) := by
    have inside : Digits (gs.take (n + 1)) := fun c member => digits c (List.mem_of_mem_take member)
    rw [pad,List.append_assoc,List.take_append,List.takeWhile_append_of_pos inside]
    cases n + 1 - gs.length with
    | zero => rw [List.take_zero,List.takeWhile_nil,List.append_nil]
    | succ k => rw [List.cons_append,List.take_succ_cons,List.takeWhile_cons_of_neg (by decide),List.append_nil]
  have nonempty : gs.take (n + 1) ≠ [] := by simp [some]
  rw [number_plain plain,taken,if_neg nonempty]

/-- What is cut out among the decimals. -/
theorem decimals_sign {precision : Nat} {s gs hs : List Char} (scanned : Scanned s) (cut : right s = gs ++ '-' :: hs) (f : Int) :
    Decimals precision s f ↔ (gs ≠ [] ∨ precision ≠ 1) ∧
      f = if gs = [] then -(value (pad (precision - 1) hs) : Int) else value (gs.take precision) := by
  obtain ⟨-,behind,count⟩ := sides_scanned scanned
  have few := scanned.minus
  rw [cut] at behind count
  obtain ⟨digits,digits'⟩ := digits_of_split behind (by omega)
  have some : right s ≠ [] := by rw [cut]; simp
  rw [Decimals,if_neg some,cut]
  cases precision with
  | zero => simp [pad,Reading,value]
  | succ n =>
    have nonempty : pad (n + 1) (gs ++ '-' :: hs) ≠ [] := List.ne_nil_of_length_pos (by simp)
    rw [Reading,if_neg nonempty]
    by_cases empty : gs = []
    · have sign := number_sign (show Digits [] from fun _ absent => absurd absent List.not_mem_nil) (show Digits (pad n hs) from digits_pad digits') f
      have length : pad n hs ≠ [] ↔ n + 1 ≠ 1 := by
        rw [← List.length_pos_iff,length_pad]
        omega
      rw [List.nil_append] at sign
      rw [empty,List.nil_append,pad_cons,sign,length]
      simp
    · rw [number_pad_sign digits empty,if_neg empty,Option.some.injEq]
      exact ⟨fun same => ⟨.inl empty,same.symm⟩,fun both => both.2.symm⟩

/-- What the reader takes of these texts. -/
theorem among_iff {precision : Nat} {s : List Char} (scanned : Scanned s) (minus : '-' ∈ s) (first : s.head? ≠ some '-') :
    (∃ u f, Units s u ∧ Decimals precision s f ∧ Within precision u f) ↔
      AmongUnits precision s ∨ AmongDecimals precision s := by
  obtain ⟨before,behind,count⟩ := sides_scanned scanned
  have few := scanned.minus
  constructor
  · rintro ⟨u,f,units,decimals,within⟩
    have places : '-' ∈ left s ∨ '-' ∈ right s := by
      have some := List.count_pos_iff.mpr minus
      rw [← count] at some
      rcases Nat.eq_zero_or_pos ((left s).count '-') with none | here
      · exact .inr (List.count_pos_iff.mp (by omega))
      · exact .inl (List.count_pos_iff.mp here)
    rcases places with member | member
    · left
      rcases split_mark before (by omega) with digits | ⟨a,b,-,-,split⟩
      · exact absurd member (not_mem_digits (by decide) digits)
      · cases a with
        | nil =>
          obtain ⟨rest,whole⟩ := List.takeWhile_prefix (· ≠ '.') (l := s)
          change left s ++ rest = s at whole
          rw [← whole,split] at first
          exact absurd rfl first
        | cons d ds =>
          have cut : (left s).tail = ds ++ '-' :: b := by rw [split]; rfl
          obtain ⟨some,rfl⟩ := (units_sign scanned cut u).mp units
          obtain rfl := (decimals_digits (digits_right scanned member) f).mp decimals
          exact ⟨ds,b,cut,some,within⟩
    · right
      rcases split_mark behind (by omega) with digits | ⟨gs,hs,-,-,cut⟩
      · exact absurd member (not_mem_digits (by decide) digits)
      · obtain ⟨length,rfl⟩ := (units_plain scanned member u).mp units
        obtain ⟨some,rfl⟩ := (decimals_sign scanned cut f).mp decimals
        exact ⟨gs,hs,cut,length,some,within⟩
  · rintro (⟨ds,es,cut,some,within⟩ | ⟨gs,hs,cut,length,some,within⟩)
    · have member : '-' ∈ left s := List.mem_of_mem_tail (by rw [cut]; simp)
      exact ⟨_,_,(units_sign scanned cut _).mpr ⟨some,rfl⟩,(decimals_digits (digits_right scanned member) _).mpr rfl,within⟩
    · have member : '-' ∈ right s := by rw [cut]; simp
      exact ⟨_,_,(units_plain scanned member _).mpr ⟨length,rfl⟩,(decimals_sign scanned cut _).mpr ⟨some,rfl⟩,within⟩

/-! ### What is taken against the documentation -/

/-- The form with digits missing, or with decimals to cut off, that is not too large. -/
def Loose (precision : Nat) (t : Text) : Prop :=
  ¬ (t.Documented ∧ t.Exact precision) ∧ t.Readable ∧ (t.magnitude precision : Int) ≤ max_share_supply

/-- The texts that should not be taken and are. -/
def Misread (precision : Nat) (s : List Char) : Prop :=
  (∃ t : Text, t.written = s ∧ Loose precision t) ∨
    (Scanned s ∧ '-' ∈ s ∧ s.head? ≠ some '-' ∧ (AmongUnits precision s ∨ AmongDecimals precision s))

theorem amount_iff (precision : Nat) (t : Text) (a : Int) : Amount precision t.written a ↔
    t.Documented ∧ t.Exact precision ∧ (t.magnitude precision : Int) ≤ max_share_supply ∧
      a = t.signed (t.magnitude precision) := by
  constructor
  · rintro ⟨u,m,same,documented,exact,worth,most,signed⟩
    obtain rfl := written_injective same
    rw [(worth_iff exact).mp worth] at most signed
    exact ⟨documented,exact,most,signed⟩
  · rintro ⟨documented,exact,most,signed⟩
    exact ⟨t,_,rfl,documented,exact,(worth_iff exact).mpr rfl,most,signed⟩

theorem misread_written (precision : Nat) (t : Text) : Misread precision t.written ↔ Loose precision t := by
  constructor
  · rintro (⟨u,same,loose⟩ | ⟨-,minus,first,-⟩)
    · exact written_injective same ▸ loose
    · exact absurd ((head_written t).mpr ((minus_written t).mp minus)) first
  · exact fun loose => .inl ⟨t,rfl,loose⟩

/-- A text is read as the documentation has it, or it is taken against it. -/
theorem read_iff {precision : Nat} (small : precision < 19) (s : List Char) :
    (∀ a, amount_from_string precision s = .ok a ↔ Amount precision s a) ↔ ¬ Misread precision s := by
  by_cases form : ∃ t : Text, t.written = s
  · obtain ⟨t,rfl⟩ := form
    simp only [amount_written small,amount_iff,misread_written,Loose]
    constructor
    · rintro agree ⟨undocumented,readable,most⟩
      obtain ⟨documented,exact,-⟩ := (agree _).mp ⟨readable,most,rfl⟩
      exact undocumented ⟨documented,exact⟩
    · intro agree a
      constructor
      · rintro ⟨readable,most,signed⟩
        obtain ⟨documented,exact⟩ := not_not.mp fun undocumented => agree ⟨undocumented,readable,most⟩
        exact ⟨documented,exact,most,signed⟩
      · rintro ⟨documented,-,most,signed⟩
        exact ⟨fun _ empty => absurd empty documented.1,most,signed⟩
  · have none : ∀ a, ¬ Amount precision s a := fun a ⟨t,_,same,_⟩ => form ⟨t,same⟩
    have taken : (∃ a, amount_from_string precision s = .ok a) ↔ Misread precision s := by
      have elsewhere : Scanned s → '-' ∈ s ∧ s.head? ≠ some '-' := fun scanned =>
        ⟨not_not.mp fun minus => form (written_of_scanned scanned (.inl minus)),
          fun first => form (written_of_scanned scanned (.inr first))⟩
      constructor
      · rintro ⟨a,read⟩
        obtain ⟨scanned,u,f,units,decimals,within,-⟩ := (amount_ok small).mp read
        obtain ⟨minus,first⟩ := elsewhere scanned
        exact .inr ⟨scanned,minus,first,(among_iff scanned minus first).mp ⟨u,f,units,decimals,within⟩⟩
      · rintro (⟨t,same,-⟩ | ⟨scanned,minus,first,among⟩)
        · exact absurd ⟨t,same⟩ form
        · obtain ⟨u,f,units,decimals,within⟩ := (among_iff scanned minus first).mpr among
          exact ⟨_,(amount_ok small).mpr ⟨scanned,u,f,units,decimals,within,rfl⟩⟩
    rw [← taken,not_exists]
    exact forall_congr' fun a => iff_false_right (none a)

/-! ### There and back -/

/-- The first digit of a number, and those behind it. -/
theorem digits_split (m : Nat) : ∃ c r, Nat.toDigits 10 m = c :: r ∧ Digits r ∧ value [c] < 10 ∧
    m = value [c] * 10 ^ r.length + value r ∧ ∀ k, 0 < k → (r.length < k ↔ m < 10 ^ k) := by
  have digits : Digits (Nat.toDigits 10 m) := fun c member => Nat.isDigit_of_mem_toDigits (by decide) (by decide) member
  have worth : value (Nat.toDigits 10 m) = m := Nat.ofDigitChars_ten_toDigits
  have length := fun k => Nat.length_toDigits_le_iff (b := 10) (n := m) (k := k) (by decide)
  cases found : Nat.toDigits 10 m with
  | nil => exact absurd found Nat.toDigits_ne_nil
  | cons c r =>
    rw [found] at digits worth length
    refine ⟨c,r,rfl,fun d member => digits d (List.mem_cons_of_mem c member),value_digit (digits c List.mem_cons_self),?_,?_⟩
    · rw [← worth,← value_append,List.singleton_append]
    · exact fun k positive => length k positive

/-- The digits of what is borrowed from the units never make up for the loss of the first of them. -/
theorem no_borrow {c x k e : Nat} (digit : c < 10) (positive : 0 < e) : x * 10 ^ e + (c * 10 ^ k + x) ≠ 10 ^ (k + e) := by
  intro same
  have large : 10 ≤ 10 ^ e := Nat.le_self_pow (by omega) 10
  have product : 10 ^ k * (10 ^ e - c) = x * (10 ^ e + 1) := by
    rw [Nat.mul_sub,← Nat.pow_add,← same,Nat.mul_add,Nat.mul_comm (10 ^ k) c]
    omega
  have coprime : Nat.Coprime (10 ^ e + 1) (10 ^ k) := by
    refine Nat.Coprime.pow_right k ?_
    obtain ⟨n,rfl⟩ := Nat.exists_eq_add_of_lt positive
    rw [Nat.zero_add,Nat.pow_succ]
    exact (Nat.coprime_mul_right_add_left 1 10 (10 ^ n)).mpr (Nat.coprime_one_left 10)
  have divides : 10 ^ e + 1 ∣ 10 ^ e - c := coprime.dvd_of_dvd_mul_left ⟨x,by rw [product,Nat.mul_comm]⟩
  have := Nat.le_of_dvd (by omega) divides
  omega

theorem value_plus {precision d : Nat} (less : d < 10 ^ precision) :
    value (pad precision ((Nat.toDigits 10 (10 ^ precision + d)).drop 1)) = d := by
  obtain ⟨c,r,split,digits,-,sum,length⟩ := digits_split (10 ^ precision + d)
  have tens : 10 ^ (precision + 1) = 10 ^ precision * 10 := Nat.pow_succ ..
  have most := (length (precision + 1) (by omega)).mpr (by omega)
  have least : ¬ r.length < precision := fun short => by
    have := (length precision (by omega)).mp short
    omega
  have all : r.length = precision := by omega
  have small := value_lt digits
  rw [split,List.drop_one,List.tail_cons,value_pad (by omega),all,Nat.sub_self,Nat.pow_zero,Nat.mul_one]
  rw [all] at sum small
  calc value r
      = (value [c] * 10 ^ precision + value r) % 10 ^ precision := by
        rw [Nat.mul_add_mod_self_right,Nat.mod_eq_of_lt small]
    _ = (10 ^ precision + d) % 10 ^ precision := by rw [← sum]
    _ = d := by rw [Nat.add_mod_left,Nat.mod_eq_of_lt less]

theorem value_minus {precision d : Nat} (positive : 0 < d) (less : d < 10 ^ precision) :
    value (pad precision ((Nat.toDigits 10 (10 ^ precision - d)).drop 1)) ≠ d := by
  obtain ⟨c,r,split,digits,digit,sum,length⟩ := digits_split (10 ^ precision - d)
  have some : 0 < precision := Nat.pos_of_ne_zero fun none => by
    rw [none] at less
    omega
  have short := (length precision some).mpr (by omega)
  rw [split,List.drop_one,List.tail_cons,value_pad (by omega)]
  intro same
  refine no_borrow (x := value r) (k := r.length) (e := precision - r.length) digit (by omega) ?_
  rw [← sum,same,Nat.add_sub_cancel' (Nat.le_of_lt short)]
  omega

/-- What is written is of the form. -/
theorem written_amount {precision : Nat} (small : precision < 19) (a : Int) :
    ∃ t : Text, amount_to_string precision a = .ok t.written ∧ t.negative = decide (a.tdiv (10 ^ precision) < 0) ∧
      value t.units = a.natAbs / 10 ^ precision ∧ t.units ≠ [] ∧
      t.fraction = if a.tmod (10 ^ precision) = 0 then [] else
        (Nat.toDigits 10 (10 ^ precision + a.tmod (10 ^ precision)).natAbs).drop 1 := by
  have positive : (0 : Int) < 10 ^ precision := Int.pow_pos (by decide)
  have cast : ((10 ^ precision : Nat) : Int) = 10 ^ precision := Int.natCast_pow 10 precision
  have power : 10 ^ precision ≤ 10 ^ 18 := Nat.pow_le_pow_right (by decide) (by omega)
  have fits : checked (10 ^ precision) = .ok (10 ^ precision) := if_pos ⟨by omega,by omega⟩
  have digits : ∀ n, Digits (Nat.toDigits 10 n) := fun n c member => Nat.isDigit_of_mem_toDigits (by decide) (by decide) member
  have behind : Digits (((if a.tmod (10 ^ precision) = 0 then none else
      some ((Nat.toDigits 10 (10 ^ precision + a.tmod (10 ^ precision)).natAbs).drop 1)) : Option (List Char)).getD []) := by
    split
    · exact nofun
    · exact fun c member => digits _ c (List.mem_of_mem_drop member)
  have above := Int.lt_tmod_of_pos a positive
  have nonneg : ¬ 10 ^ precision + a.tmod (10 ^ precision) < 0 := by omega
  have units : (a.tdiv (10 ^ precision)).natAbs = a.natAbs / 10 ^ precision := by
    rw [← cast,Int.natAbs_tdiv,Int.natAbs_natCast]
    rfl
  refine ⟨⟨decide (a.tdiv (10 ^ precision) < 0),Nat.toDigits 10 (a.tdiv (10 ^ precision)).natAbs,_,digits _,behind⟩,?_,rfl,?_,
    Nat.toDigits_ne_nil,?_⟩
  · unfold amount_to_string Text.written
    rw [fits]
    by_cases whole : a.tmod (10 ^ precision) = 0
    · by_cases negative : a.tdiv (10 ^ precision) < 0 <;> simp [whole,negative,to_string,bind,Except.bind,pure,Except.pure]
    · by_cases negative : a.tdiv (10 ^ precision) < 0 <;>
        simp [whole,negative,nonneg,to_string,bind,Except.bind,pure,Except.pure]
  · exact Nat.ofDigitChars_ten_toDigits.trans units
  · unfold Text.fraction
    split <;> rfl

theorem value_none (precision : Nat) : value (pad precision []) = 0 := by
  rw [value_pad (Nat.zero_le _),value]
  exact Nat.zero_mul _

/-- The decimals of an amount that is not negative. -/
theorem decimals_plus (precision n : Nat) : value (pad precision (if (n : Int).tmod (10 ^ precision : Nat) = 0 then [] else
    (Nat.toDigits 10 ((10 ^ precision : Nat) + (n : Int).tmod (10 ^ precision : Nat)).natAbs).drop 1)) = n % 10 ^ precision := by
  rw [← Int.ofNat_tmod,← Int.natCast_add,Int.natAbs_natCast]
  split
  case isTrue none => rw [value_none,Int.natCast_eq_zero.mp none]
  case isFalse => exact value_plus (Nat.mod_lt n (Nat.pow_pos (by decide)))

/-- Those of a negative one are wrong, where there are some. -/
theorem decimals_minus (precision n : Nat) : value (pad precision (if (-n : Int).tmod (10 ^ precision : Nat) = 0 then [] else
    (Nat.toDigits 10 ((10 ^ precision : Nat) + (-n : Int).tmod (10 ^ precision : Nat)).natAbs).drop 1)) = n % 10 ^ precision ↔
      n % 10 ^ precision = 0 := by
  have less := Nat.mod_lt n (Nat.pow_pos (n := precision) (by decide : 0 < 10))
  have distance : ((10 ^ precision : Nat) + -((n % 10 ^ precision : Nat) : Int)).natAbs =
      10 ^ precision - n % 10 ^ precision := by omega
  rw [Int.neg_tmod,← Int.ofNat_tmod,distance]
  split
  case isTrue none =>
    rw [value_none]
    omega
  case isFalse some =>
    have some : n % 10 ^ precision ≠ 0 := by omega
    exact iff_of_false (value_minus (Nat.pos_of_ne_zero some) less) some

/-- Which amounts come back. -/
theorem round_trip {precision : Nat} (small : precision < 19) {a : Int} (most : a.natAbs ≤ max_share_supply) :
    amount_to_string precision a >>= amount_from_string precision = .ok a ↔ 0 ≤ a ∨ (10 ^ precision : Int) ∣ a := by
  obtain ⟨t,written,negative,units,some,fraction⟩ := written_amount small a
  have readable : t.Readable := fun _ none => absurd none some
  have cast : ((10 ^ precision : Nat) : Int) = 10 ^ precision := Int.natCast_pow 10 precision
  have read : amount_to_string precision a >>= amount_from_string precision = .ok a ↔
      (t.magnitude precision : Int) ≤ max_share_supply ∧ a = t.signed (t.magnitude precision) := by
    rw [written]
    exact (amount_written small t a).trans (and_iff_right readable)
  rw [read,Text.signed,negative,Text.magnitude,units,fraction,← cast]
  obtain ⟨n,rfl | rfl⟩ := a.eq_nat_or_neg
  · rw [Int.natAbs_natCast] at most ⊢
    have unsigned : decide ((n : Int).tdiv (10 ^ precision : Nat) < 0) = false := by
      rw [← Int.ofNat_tdiv]
      exact decide_eq_false (Int.not_lt.mpr (Int.natCast_nonneg _))
    rw [decimals_plus,unsigned,Nat.div_add_mod',if_neg Bool.false_ne_true]
    exact iff_of_true ⟨most,rfl⟩ (.inl (Int.natCast_nonneg n))
  · rw [Int.natAbs_neg,Int.natAbs_natCast] at most ⊢
    have wrong := decimals_minus precision n
    have sum := Nat.div_add_mod' n (10 ^ precision)
    generalize value (pad precision _) = decimals at wrong ⊢
    rw [Int.neg_tdiv,← Int.ofNat_tdiv,Int.dvd_neg,Int.natCast_dvd_natCast,Nat.dvd_iff_mod_eq_zero]
    rcases Nat.eq_zero_or_pos (n / 10 ^ precision) with none | some
    · -- no unit is left to carry the sign
      rw [none,Nat.zero_mul] at sum
      have unsigned : decide (-((0 : Nat) : Int) < 0) = false := rfl
      rw [none,unsigned,Nat.zero_mul,if_neg Bool.false_ne_true]
      omega
    · have signed : decide (-((n / 10 ^ precision : Nat) : Int) < 0) = true := decide_eq_true (by omega)
      rw [signed,if_pos rfl]
      omega

/-- The amounts that come back from their texts, and the texts that are read as documented. -/
theorem amount_text_exact {precision : Nat} (small : precision ≤ 12) :
    (∀ a : Int, a.natAbs ≤ max_share_supply →
      (amount_to_string precision a >>= amount_from_string precision = .ok a ↔ 0 ≤ a ∨ (10 ^ precision : Int) ∣ a)) ∧
    ∀ s, (∀ a, amount_from_string precision s = .ok a ↔ Amount precision s a) ↔ ¬ Misread precision s :=
  have less : precision < 19 := by omega
  ⟨fun _ most => round_trip less most,read_iff less⟩

/-- A half, without a digit before the point. -/
def bareHalf : Text where
  negative := false
  units := []
  decimals := some ['5']
  units_digits := nofun
  decimals_digits c member := by
    rw [List.mem_singleton.mp member]
    decide

theorem amount_text_exact_hundredths : amount_to_string 2 (-300) >>= amount_from_string 2 = .ok (-300) ∧
    ¬ ∀ a, amount_from_string 2 ['.','5'] = .ok a ↔ Amount 2 ['.','5'] a := by
  refine ⟨((amount_text_exact (by decide)).1 (-300) (by decide)).mpr (.inr (by decide)),fun agree => ?_⟩
  refine ((amount_text_exact (by decide)).2 ['.','5']).mp agree (.inl ⟨bareHalf,rfl,?_,nofun,by decide⟩)
  exact fun documented => documented.1.1 rfl

/-- One and a half, owed, comes back as one; and a minus sign is taken where it stands behind a digit. -/
theorem amount_text_lost : ¬ (amount_to_string 2 (-150) >>= amount_from_string 2 = .ok (-150)) ∧
    ¬ ∀ s a, amount_from_string 2 s = .ok a ↔ Amount 2 s a := by
  refine ⟨by decide,fun agree => ?_⟩
  obtain ⟨t,-,same,-⟩ := (agree ['1','-','2'] 200).mp (by decide)
  have negative : t.negative = true := by
    rw [← minus_written,same]
    decide
  have first := (head_written t).mpr negative
  rw [same] at first
  cases first

end Decent.AmountText

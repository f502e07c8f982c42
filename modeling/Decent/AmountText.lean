import Mathlib.Data.List.DropRight
import Mathlib.Data.List.TakeWhile
import Decent.Assets
import Mathlib.Algebra.Group.Nat.Defs
import Mathlib.Algebra.Group.Int.Defs

/-!
Amounts as text. The writer divides by the power of ten of the precision; the reader drops the
zeros at the end, looks at every character, and cuts the text at the point.
-/
namespace Decent.AmountText
open Decent.Money (Fits max_share_supply)

/-- What can be thrown; all are caught and thrown again by `FC_CAPTURE_AND_RETHROW`. -/
inductive Exc
  | exception
  | assert_exception
  | overflow_exception
  | invalid_argument
  | out_of_range
deriving DecidableEq

/-- The result of an operation on `share_type`. -/
def checked (v : Int) : Except Exc Int := if Fits v then .ok v else .error .overflow_exception

def fc_assert (c : Prop) [Decidable c] : Except Exc Unit := if c then .ok () else .error .assert_exception

/-! ### Writing -/

/-- `fc::to_string` of an `int64_t`. -/
def to_string (v : Int) : List Char := if v < 0 then '-' :: Nat.toDigits 10 v.natAbs else Nat.toDigits 10 v.natAbs

/-- `asset_object::amount_to_string`; the division and the remainder round towards zero. -/
def amount_to_string (precision : Nat) (amount : Int) : Except Exc (List Char) := do
  let scaled_precision ← checked (10 ^ precision)
  let result := to_string (amount.tdiv scaled_precision)
  let decimals := amount.tmod scaled_precision
  return if decimals ≠ 0 then result ++ '.' :: (to_string (scaled_precision + decimals)).drop 1 else result

/-! ### Reading -/

/-- A text without the zeros at its end. -/
def strip (l : List Char) : List Char := l.rdropWhile (· = '0')

/-- `remove_trailing_zeros`; `find_last_not_of('0')` is the last place of the stripped text. -/
def remove_trailing_zeros (str : List Char) : List Char :=
  if '.' ∉ str then str
  else
    let last := (strip str).length - 1
    let offset := if last = str.idxOf '.' then 0 else 1
    str.take (last + offset)

/-- The loop over the characters. -/
def scan : List Char → Bool → Bool → Except Exc (Bool × Bool)
  | [], negative_found, decimal_found => .ok (negative_found,decimal_found)
  | c :: rest, negative_found, decimal_found =>
    if c.isDigit then scan rest negative_found decimal_found
    else if c = '-' ∧ negative_found = false then scan rest true decimal_found
    else if c = '.' ∧ decimal_found = false then scan rest negative_found true
    else .error .exception

/-- `find`; none is `npos`. -/
def find (s : List Char) (c : Char) : Option Nat := if c ∈ s then some (s.idxOf c) else none

def substr (s : List Char) (pos : Nat) (count : Option Nat) : Except Exc (List Char) :=
  if s.length < pos then .error .out_of_range
  else .ok (match count with
    | none => s.drop pos
    | some n => (s.drop pos).take n)

/-- The value of digits. -/
def value (digits : List Char) : Nat := Nat.ofDigitChars 10 digits 0

/-- The number that a text begins with, where it has neither blanks nor a plus sign. -/
def number : List Char → Option Int
  | '-' :: rest =>
    let digits := rest.takeWhile Char.isDigit
    if digits = [] then none else some (-value digits)
  | s =>
    let digits := s.takeWhile Char.isDigit
    if digits = [] then none else some (value digits)

/-- `std::stoll` -/
def stoll (s : List Char) : Except Exc Int :=
  match number s with
  | none => .error .invalid_argument
  | some v => if Fits v then .ok v else .error .out_of_range

/-- `asset::scaled_precision` -/
def scaled_precision (precision : Nat) : Except Exc Int := do
  fc_assert (precision < 19)
  return 10 ^ precision

/-- What is left of the point. -/
def whole_units (scaled_precision : Int) (lhs : List Char) : Except Exc Int :=
  if lhs = [] then .ok 0 else do checked ((← stoll lhs) * scaled_precision)

/-- What is right of it; `npos + 1` is 0. -/
def decimal_units (precision : Nat) (scaled_precision : Int) (amount_string : List Char) (decimal_pos : Option Nat)
    (satoshis : Int) : Except Exc Int := do
  let max_rhs_size := ((to_string scaled_precision).drop 1).length
  let rhs ← substr amount_string (decimal_pos.elim 0 (· + 1)) (some precision)
  fc_assert (rhs.length ≤ max_rhs_size)
  let rhs := rhs ++ List.replicate (max_rhs_size - rhs.length) '0'
  if rhs = [] then .ok satoshis else do checked (satoshis + (← stoll rhs))

def add_decimals (decimal_found : Bool) (precision : Nat) (scaled_precision : Int) (amount_string : List Char)
    (decimal_pos : Option Nat) (satoshis : Int) : Except Exc Int :=
  if decimal_found then decimal_units precision scaled_precision amount_string decimal_pos satoshis else .ok satoshis

/-- `asset_object::amount_from_string` -/
def amount_from_string (precision : Nat) (amount_string : List Char) : Except Exc Int := do
  let amount_string := remove_trailing_zeros amount_string
  let found ← scan amount_string false false
  let scaled_precision ← scaled_precision precision
  let decimal_pos := find amount_string '.'
  let lhs ← substr amount_string found.1.toNat decimal_pos
  let satoshis ← whole_units scaled_precision lhs
  let satoshis ← add_decimals found.2 precision scaled_precision amount_string decimal_pos satoshis
  fc_assert (satoshis ≤ max_share_supply)
  if found.1 then checked (satoshis * -1) else .ok satoshis

/-! ### The two sides of the point -/

/-- What stands before the first point. -/
def left (s : List Char) : List Char := s.takeWhile (· ≠ '.')

/-- What stands behind it, without the zeros at the end. -/
def right (s : List Char) : List Char := strip (s.dropWhile (· ≠ '.')).tail

theorem strip_zeros (l : List Char) : ∃ n, l = strip l ++ List.replicate n '0' := by
  obtain ⟨zeros,split,all⟩ : ∃ zeros, l = strip l ++ zeros ∧ ∀ c ∈ zeros, c = '0' := by
    refine ⟨l.rtakeWhile (· = '0'),(List.rdropWhile_append_rtakeWhile ..).symm,fun c member => ?_⟩
    simpa using List.mem_rtakeWhile_imp member
  refine ⟨zeros.length,?_⟩
  rw [← List.eq_replicate_of_mem all]
  exact split

theorem strip_append_zeros (l : List Char) (n : Nat) : strip (l ++ List.replicate n '0') = strip l := by
  unfold strip List.rdropWhile
  rw [List.reverse_append,List.reverse_replicate,List.dropWhile_append_of_pos fun c member => by
    simp [List.eq_of_mem_replicate member]]

theorem strip_point (l r : List Char) :
    strip (l ++ '.' :: r) = if strip r = [] then l ++ ['.'] else l ++ '.' :: strip r := by
  unfold strip List.rdropWhile
  rw [List.reverse_append,List.reverse_cons,List.append_assoc,List.dropWhile_append]
  split
  case isTrue none =>
    rw [List.isEmpty_iff.mp none]
    simp
  case isFalse some =>
    have some : r.reverse.dropWhile (· = '0') ≠ [] := by simpa using some
    simp [some]

theorem not_mem_left (s : List Char) : '.' ∉ left s := fun member => by
  simpa using List.mem_takeWhile_imp member

/-- A text is what stands left of its point, and what stands right of it with its zeros. -/
theorem split_point (s : List Char) : ('.' ∉ s ∧ left s = s ∧ right s = []) ∨
    ∃ n, s = left s ++ '.' :: (right s ++ List.replicate n '0') := by
  by_cases point : '.' ∈ s
  · right
    have parts := List.takeWhile_append_dropWhile (p := (· ≠ '.')) (l := s)
    cases found : s.dropWhile (· ≠ '.') with
    | nil =>
      have all := List.dropWhile_eq_nil_iff.mp found '.' point
      simp at all
    | cons c rest =>
      have first := List.head?_dropWhile_not (· ≠ '.') s
      rw [found] at first parts
      have here : c = '.' := by simpa using first
      obtain ⟨n,zeros⟩ := strip_zeros rest
      refine ⟨n,?_⟩
      rw [right,found,List.tail_cons,← zeros,← here]
      exact parts.symm
  · left
    have all : ∀ c ∈ s, decide (c ≠ '.') = true := fun c member => decide_eq_true fun same => point (same ▸ member)
    refine ⟨point,List.takeWhile_eq_self_iff.mpr all,?_⟩
    rw [right,List.dropWhile_eq_nil_iff.mpr all]
    rfl

/-- The point goes with the last of the decimals. -/
theorem remove_point {l r : List Char} (none : '.' ∉ l) (stripped : strip r = r) (n : Nat) :
    remove_trailing_zeros (l ++ '.' :: (r ++ List.replicate n '0')) = if r = [] then l else l ++ '.' :: r := by
  have point : ¬ '.' ∉ l ++ '.' :: (r ++ List.replicate n '0') := by simp
  have place : (l ++ '.' :: (r ++ List.replicate n '0')).idxOf '.' = l.length := by
    rw [List.idxOf_append_of_notMem none,List.idxOf_cons_self,Nat.add_zero]
  rw [remove_trailing_zeros,if_neg point,place,strip_point,strip_append_zeros,stripped]
  dsimp only
  by_cases empty : r = []
  · have size : (l ++ ['.']).length - 1 = l.length := by simp
    rw [if_pos empty,if_pos empty,size,if_pos rfl,Nat.add_zero,List.take_left]
  · have size : (l ++ '.' :: r).length - 1 = l.length + r.length := by simp
    have later : l.length + r.length ≠ l.length := by
      have := List.length_pos_iff.mpr empty
      omega
    have whole : l.length + r.length + 1 = (l ++ '.' :: r).length := by simp [Nat.add_assoc]
    rw [if_neg empty,if_neg empty,size,if_neg later,whole,← List.cons_append,← List.append_assoc,List.take_left]

theorem remove_trailing_zeros_eq (s : List Char) :
    remove_trailing_zeros s = if right s = [] then left s else left s ++ '.' :: right s := by
  rcases split_point s with ⟨none,same,empty⟩ | ⟨n,split⟩
  · rw [remove_trailing_zeros,if_pos none,if_pos empty,same]
  · exact (congrArg remove_trailing_zeros split).trans
      (remove_point (not_mem_left s) (List.rdropWhile_idempotent _ _) n)

/-! ### The characters -/

/-- Digits, at most one minus sign and at most one point, anywhere. -/
structure Scanned (s : List Char) : Prop where
  allowed : ∀ c ∈ s, c.isDigit = true ∨ c = '-' ∨ c = '.'
  minus : s.count '-' ≤ 1
  point : s.count '.' ≤ 1

theorem scan_ok {s : List Char} {negative_found decimal_found : Bool} {found : Bool × Bool} :
    scan s negative_found decimal_found = .ok found ↔ (∀ c ∈ s, c.isDigit = true ∨ c = '-' ∨ c = '.') ∧
      s.count '-' + negative_found.toNat ≤ 1 ∧ s.count '.' + decimal_found.toNat ≤ 1 ∧
      found = (negative_found || decide ('-' ∈ s),decimal_found || decide ('.' ∈ s)) := by
  induction s generalizing negative_found decimal_found with
  | nil =>
    rw [scan,Except.ok.injEq]
    refine ⟨fun same => ⟨nofun,?_,?_,?_⟩,fun ⟨_,_,_,same⟩ => ?_⟩
    · cases negative_found <;> decide
    · cases decimal_found <;> decide
    · simp [← same]
    · simp [same]
  | cons c rest ih =>
    rw [scan]
    by_cases digit : c.isDigit = true
    · have minus : c ≠ '-' := by rintro rfl; exact absurd digit (by decide)
      have point : c ≠ '.' := by rintro rfl; exact absurd digit (by decide)
      rw [if_pos digit,ih]
      simp [digit,minus,point,minus.symm,point.symm]
    · rw [if_neg digit]
      by_cases minus : c = '-'
      · subst minus
        cases negative_found
        · rw [if_pos ⟨rfl,rfl⟩,ih]
          simp
        · simp
      · by_cases point : c = '.'
        · subst point
          cases decimal_found
          · rw [if_neg (by simp),if_pos ⟨rfl,rfl⟩,ih]
            simp
          · simp
        · simp [digit,minus,point]

theorem scanned_append_zeros {s : List Char} (n : Nat) : Scanned (s ++ List.replicate n '0') ↔ Scanned s := by
  have minus : (List.replicate n '0').count '-' = 0 := List.count_eq_zero.mpr (by simp)
  have point : (List.replicate n '0').count '.' = 0 := List.count_eq_zero.mpr (by simp)
  constructor
  · rintro ⟨allowed,few,one⟩
    rw [List.count_append] at few one
    exact ⟨fun c member => allowed c (List.mem_append_left _ member),by omega,by omega⟩
  · rintro ⟨allowed,few,one⟩
    refine ⟨fun c member => ?_,by rwa [List.count_append,minus],by rwa [List.count_append,point]⟩
    rcases List.mem_append.mp member with inside | zero
    · exact allowed c inside
    · rw [List.eq_of_mem_replicate zero]
      exact .inl (by decide)

theorem scanned_point {l : List Char} (none : '.' ∉ l) : Scanned (l ++ ['.']) ↔ Scanned l := by
  have zero : l.count '.' = 0 := List.count_eq_zero.mpr none
  constructor
  · rintro ⟨allowed,few,-⟩
    rw [List.count_append] at few
    exact ⟨fun c member => allowed c (List.mem_append_left _ member),by omega,by omega⟩
  · rintro ⟨allowed,few,-⟩
    refine ⟨fun c member => ?_,?_,?_⟩
    · rcases List.mem_append.mp member with inside | last
      · exact allowed c inside
      · exact .inr (.inr (List.mem_singleton.mp last))
    · rw [List.count_append]
      exact few
    · rw [List.count_append,zero]
      decide

theorem minus_remove (s : List Char) : '-' ∈ remove_trailing_zeros s ↔ '-' ∈ s := by
  rw [remove_trailing_zeros_eq]
  rcases split_point s with ⟨-,whole,empty⟩ | ⟨n,split⟩
  · rw [if_pos empty,whole]
  · conv_rhs => rw [split]
    by_cases empty : right s = []
    · simp [empty]
    · simp [empty]

/-- What the loop finds in a text without its trailing zeros. -/
theorem scan_remove {s : List Char} {found : Bool × Bool} : scan (remove_trailing_zeros s) false false = .ok found ↔
    Scanned s ∧ found = (decide ('-' ∈ s),decide (right s ≠ [])) := by
  have same : (Scanned (remove_trailing_zeros s) ↔ Scanned s) ∧ ('.' ∈ remove_trailing_zeros s ↔ right s ≠ []) := by
    rw [remove_trailing_zeros_eq]
    have none := not_mem_left s
    rcases split_point s with ⟨nowhere,whole,empty⟩ | ⟨n,split⟩
    · rw [if_pos empty,whole]
      exact ⟨.rfl,fun member => absurd member nowhere,fun some => absurd empty some⟩
    · by_cases empty : right s = []
      · rw [if_pos empty]
        refine ⟨?_,fun member => absurd member none,fun some => absurd empty some⟩
        rw [empty,List.nil_append,← List.singleton_append,← List.append_assoc] at split
        conv_rhs => rw [split]
        rw [scanned_append_zeros,scanned_point none]
      · rw [if_neg empty]
        refine ⟨?_,fun _ => empty,fun _ => by simp⟩
        rw [← List.cons_append,← List.append_assoc] at split
        conv_rhs => rw [split]
        rw [scanned_append_zeros]
  rw [scan_ok,← same.1,Bool.false_or,Bool.false_or,decide_eq_decide.mpr (minus_remove s),decide_eq_decide.mpr same.2]
  exact ⟨fun ⟨allowed,few,one,same⟩ => ⟨⟨allowed,few,one⟩,same⟩,fun ⟨⟨allowed,few,one⟩,same⟩ => ⟨allowed,few,one,same⟩⟩

/-! ### The numbers -/

def Digits (l : List Char) : Prop := ∀ c ∈ l, c.isDigit = true

theorem digits_takeWhile (l : List Char) : Digits (l.takeWhile Char.isDigit) := fun _ member => List.mem_takeWhile_imp member

theorem value_append (l r : List Char) : value (l ++ r) = value l * 10 ^ r.length + value r := by
  unfold value
  rw [Nat.ofDigitChars_append,Nat.ofDigitChars_eq_ofDigitChars_zero,Nat.mul_comm]

theorem value_zeros (n : Nat) : value (List.replicate n '0') = 0 := by
  unfold value
  rw [Nat.ofDigitChars_replicate_zero,Nat.mul_zero]

theorem value_digit {c : Char} (digit : c.isDigit = true) : value [c] < 10 := by
  have range := (Char.isDigit_iff_toNat.mp digit).2
  unfold value
  rw [Nat.ofDigitChars_cons,Nat.ofDigitChars_nil]
  have zero : '0'.toNat = 48 := rfl
  have nine : '9'.toNat = 57 := rfl
  omega

theorem value_lt {l : List Char} (digits : Digits l) : value l < 10 ^ l.length := by
  induction l with
  | nil => decide
  | cons c rest ih =>
    have first := value_digit (digits c List.mem_cons_self)
    have behind := ih fun d member => digits d (List.mem_cons_of_mem c member)
    rw [← List.singleton_append,value_append,List.length_append,List.length_singleton,Nat.pow_add]
    have := Nat.mul_le_mul_right (10 ^ rest.length) (Nat.le_of_lt_succ first)
    omega

/-- What begins with a minus sign, and what does not. -/
theorem number_minus (rest : List Char) : number ('-' :: rest) =
    if rest.takeWhile Char.isDigit = [] then none else some (-(value (rest.takeWhile Char.isDigit) : Int)) := rfl

theorem number_plain {s : List Char} (plain : s.head? ≠ some '-') :
    number s = if s.takeWhile Char.isDigit = [] then none else some (value (s.takeWhile Char.isDigit) : Int) := by
  unfold number
  split
  · exact absurd rfl plain
  · rfl

theorem number_digits {l : List Char} (digits : Digits l) (some : l ≠ []) : number l = .some (value l : Int) := by
  have plain : l.head? ≠ .some '-' := fun first => absurd (digits '-' (List.mem_of_head? first)) (by decide)
  rw [number_plain plain,List.takeWhile_eq_self_iff.mpr digits,if_neg some]

/-- A number has no more digits than the text. -/
theorem number_bound {s : List Char} {v : Int} (read : number s = some v) : v.natAbs < 10 ^ s.length := by
  have bound : ∀ l : List Char, value (l.takeWhile Char.isDigit) < 10 ^ l.length := by
    intro l
    have shorter := List.Sublist.length_le (List.takeWhile_sublist Char.isDigit (l := l))
    exact (value_lt (digits_takeWhile l)).trans_le (Nat.pow_le_pow_right (by decide) shorter)
  by_cases minus : s.head? = some '-'
  · obtain ⟨rest,rfl⟩ := List.head?_eq_some_iff.mp minus
    rw [number_minus] at read
    split at read
    · cases read
    · cases read
      rw [Int.natAbs_neg,Int.natAbs_natCast]
      exact (bound rest).trans_le (Nat.pow_le_pow_right (by decide) (Nat.le_succ _))
  · rw [number_plain minus] at read
    split at read
    · cases read
    · cases read
      rw [Int.natAbs_natCast]
      exact bound s

/-- `stoll` stops at a point. -/
theorem number_point (l : List Char) : number (l ++ ['.']) = number l := by
  have stops : ∀ l : List Char, (l ++ ['.']).takeWhile Char.isDigit = l.takeWhile Char.isDigit := by
    intro l
    induction l with
    | nil => rfl
    | cons c rest ih =>
      rw [List.cons_append,List.takeWhile_cons,List.takeWhile_cons,ih]
  cases l with
  | nil => rfl
  | cons c rest =>
    by_cases minus : c = '-'
    · subst minus
      rw [List.cons_append,number_minus,number_minus,stops]
    · have plain : ∀ more : List Char, (c :: more).head? ≠ some '-' := fun more first => minus (Option.some.inj first)
      rw [number_plain (plain rest),List.cons_append,number_plain (plain _),← List.cons_append,stops]

theorem number_nonneg {s : List Char} {v : Int} (none : '-' ∉ s) (read : number s = some v) : 0 ≤ v := by
  have plain : s.head? ≠ some '-' := fun first => none (List.mem_of_head? first)
  rw [number_plain plain] at read
  split at read
  · cases read
  · cases read
    exact Int.natCast_nonneg _

/-! ### What the reader returns -/

theorem bind_ok {α β : Type} {x : Except Exc α} {f : α → Except Exc β} {b : β} :
    x >>= f = .ok b ↔ ∃ a, x = .ok a ∧ f a = .ok b := by
  cases x with
  | ok a =>
    constructor
    · intro ran; exact ⟨a,rfl,ran⟩
    · rintro ⟨_,same,ran⟩; cases same; exact ran
  | error e =>
    constructor
    · intro ran; cases ran
    · rintro ⟨_,same,_⟩; cases same

theorem checked_ok {v w : Int} : checked v = .ok w ↔ Fits v ∧ w = v := by
  unfold checked
  split <;> simp_all [eq_comm]

theorem fc_assert_ok {c : Prop} [Decidable c] {u : Unit} : fc_assert c = .ok u ↔ c := by
  unfold fc_assert
  split <;> simp_all

theorem stoll_ok {s : List Char} {v : Int} : stoll s = .ok v ↔ number s = some v ∧ Fits v := by
  unfold stoll
  cases number s with
  | none => exact ⟨nofun,nofun⟩
  | some u =>
    dsimp only
    split
    · next fits => exact ⟨fun same => by cases same; exact ⟨rfl,fits⟩,fun ⟨same,_⟩ => by cases same; rfl⟩
    · next large => exact ⟨nofun,fun ⟨same,fits⟩ => by cases same; exact absurd fits large⟩

/-- A text that may be empty, which counts for nothing. -/
def Reading (text : List Char) (v : Int) : Prop := if text = [] then v = 0 else number text = some v

theorem whole_units_ok {scaled : Int} {lhs : List Char} {w : Int} :
    whole_units scaled lhs = .ok w ↔ ∃ u, Reading lhs u ∧ Fits u ∧ Fits (u * scaled) ∧ w = u * scaled := by
  unfold whole_units Reading
  split
  · constructor
    · intro same
      cases same
      exact ⟨0,rfl,by decide,by rw [Int.zero_mul]; decide,(Int.zero_mul _).symm⟩
    · rintro ⟨_,rfl,-,-,rfl⟩
      rw [Int.zero_mul]
  · simp only [bind_ok,stoll_ok,checked_ok]
    exact ⟨fun ⟨u,⟨read,fits⟩,product,same⟩ => ⟨u,read,fits,product,same⟩,
      fun ⟨u,read,fits,product,same⟩ => ⟨u,⟨read,fits⟩,product,same⟩⟩

/-- As many decimals as the precision says. -/
def pad (precision : Nat) (r : List Char) : List Char := (r ++ List.replicate precision '0').take precision

@[simp] theorem length_pad (precision : Nat) (r : List Char) : (pad precision r).length = precision := by
  simp [pad]

theorem take_padded (precision : Nat) (r : List Char) :
    r.take precision ++ List.replicate (precision - (r.take precision).length) '0' = pad precision r := by
  rw [pad,List.take_append,List.take_replicate,List.length_take]
  congr 2
  omega

/-- The digits of a power of ten behind the first. -/
theorem length_scaled (precision : Nat) : ((to_string (10 ^ precision)).drop 1).length = precision := by
  have nonneg : ¬ (10 ^ precision : Int) < 0 := Int.not_lt.mpr (Int.le_of_lt (Int.pow_pos (by decide)))
  have natural : (10 ^ precision : Int).natAbs = 10 ^ precision := by
    rw [Int.natAbs_pow]
    rfl
  rw [to_string,if_neg nonneg,natural,List.length_drop]
  have most := (Nat.length_toDigits_le_iff (b := 10) (n := 10 ^ precision) (k := precision + 1) (by decide) (by omega)).mpr
    (Nat.pow_lt_pow_right (by decide) (Nat.lt_succ_self _))
  have least : precision < (Nat.toDigits 10 (10 ^ precision)).length := by
    rcases Nat.eq_zero_or_pos precision with rfl | positive
    · exact Nat.length_toDigits_pos
    · exact Nat.not_le.mp fun few =>
        Nat.lt_irrefl _ ((Nat.length_toDigits_le_iff (b := 10) (by decide) positive).mp few)
  omega

theorem decimal_units_ok {precision : Nat} {l r : List Char} {satoshis w : Int} (fits : Fits satoshis) :
    decimal_units precision (10 ^ precision) (l ++ '.' :: r) (some l.length) satoshis = .ok w ↔
      ∃ f, Reading (pad precision r) f ∧ Fits f ∧ Fits (satoshis + f) ∧ w = satoshis + f := by
  have cut : substr (l ++ '.' :: r) (l.length + 1) (some precision) = .ok (r.take precision) := by
    rw [substr,if_neg (by simp)]
    simp
  have within : (r.take precision).length ≤ precision := List.length_take_le ..
  have padded : decimal_units precision (10 ^ precision) (l ++ '.' :: r) (some l.length) satoshis =
      if pad precision r = [] then .ok satoshis else stoll (pad precision r) >>= fun v => checked (satoshis + v) := by
    have asserted : fc_assert ((r.take precision).length ≤ precision) = .ok () := fc_assert_ok.mpr within
    unfold decimal_units
    rw [length_scaled,Option.elim_some,cut,← take_padded]
    change (fc_assert ((r.take precision).length ≤ precision) >>= fun _ => _) = _
    rw [asserted]
    rfl
  rw [padded]
  unfold Reading
  split
  · constructor
    · intro same
      cases same
      exact ⟨0,rfl,by decide,by rwa [Int.add_zero],(Int.add_zero _).symm⟩
    · rintro ⟨_,rfl,-,-,rfl⟩
      rw [Int.add_zero]
  · simp only [bind_ok,stoll_ok,checked_ok]
    exact ⟨fun ⟨f,⟨read,fits'⟩,sum,same⟩ => ⟨f,read,fits',sum,same⟩,
      fun ⟨f,read,fits',sum,same⟩ => ⟨f,⟨read,fits'⟩,sum,same⟩⟩

/-- The units as they are read. A minus sign anywhere takes the first character from them. -/
def Units (s : List Char) (u : Int) : Prop :=
  if '-' ∈ s ∧ left s ≠ [] ∧ right s ≠ [] then number (left s).tail = some u
  else Reading (if '-' ∈ s then (left s).tail else left s) u

/-- The decimals as they are read, as many as the precision says. -/
def Decimals (precision : Nat) (s : List Char) (f : Int) : Prop :=
  if right s = [] then f = 0 else Reading (pad precision (right s)) f

/-- The amounts that are taken before the sign is changed. -/
def Within (precision : Nat) (u f : Int) : Prop :=
  -2^63 ≤ u * 10 ^ precision ∧ -2^63 < u * 10 ^ precision + f ∧ u * 10 ^ precision + f ≤ max_share_supply

/-- The units are cut out so. -/
theorem substr_units (s : List Char) : ∃ lhs, substr (remove_trailing_zeros s) (decide ('-' ∈ s)).toNat
    (find (remove_trailing_zeros s) '.') = .ok lhs ∧ ∀ u, Reading lhs u ↔ Units s u := by
  have nonempty : (decide ('-' ∈ s)).toNat ≤ (remove_trailing_zeros s).length := by
    by_cases minus : '-' ∈ s
    · rw [decide_eq_true minus]
      exact List.length_pos_of_mem ((minus_remove s).mpr minus)
    · rw [decide_eq_false minus]
      exact Nat.zero_le _
  unfold substr
  rw [if_neg (Nat.not_lt.mpr nonempty)]
  refine ⟨_,rfl,fun u => ?_⟩
  rw [remove_trailing_zeros_eq]
  by_cases none : right s = []
  · have whole : ¬ ('-' ∈ s ∧ left s ≠ [] ∧ right s ≠ []) := fun both => both.2.2 none
    have nowhere : find (left s) '.' = Option.none := if_neg (not_mem_left s)
    rw [if_pos none,nowhere,Units,if_neg whole]
    by_cases minus : '-' ∈ s
    · simp only [minus,decide_true,Bool.toNat_true,List.drop_one,if_true]
    · simp only [minus,decide_false,Bool.toNat_false,List.drop_zero,if_false]
  · have place : find (left s ++ '.' :: right s) '.' = some (left s).length := by
      rw [find,if_pos (by simp),List.idxOf_append_of_notMem (not_mem_left s),List.idxOf_cons_self,Nat.add_zero]
    rw [if_neg none,place,Units]
    by_cases minus : '-' ∈ s
    · simp only [minus,decide_true,Bool.toNat_true,true_and,if_true]
      cases front : left s with
      | nil => simp
      | cons c rest =>
        have cut : List.take (c :: rest).length (List.drop 1 (c :: rest ++ '.' :: right s)) = rest ++ ['.'] := by
          rw [List.cons_append,List.drop_one,List.tail_cons,List.length_cons,List.take_append,
            List.take_of_length_le (Nat.le_succ _)]
          simp
        rw [cut,if_pos ⟨List.cons_ne_nil c rest,none⟩,Reading,if_neg (by simp),number_point,List.tail_cons]
    · simp only [minus,decide_false,Bool.toNat_false,List.drop_zero,List.take_left,false_and,if_false]

theorem decimals_bound {precision : Nat} {s : List Char} {f : Int} (read : Decimals precision s f) :
    f.natAbs < 10 ^ precision := by
  have positive : 0 < 10 ^ precision := Nat.pow_pos (by decide)
  unfold Decimals Reading at read
  split at read
  · rw [read]
    exact positive
  · split at read
    · rw [read]
      exact positive
    · exact (number_bound read).trans_eq (congrArg (10 ^ ·) (length_pad ..))

theorem reading_nonneg {text : List Char} {v : Int} (none : '-' ∉ text) (read : Reading text v) : 0 ≤ v := by
  unfold Reading at read
  split at read
  · exact Int.le_of_eq read.symm
  · exact number_nonneg none read

theorem mem_of_left {s : List Char} {c : Char} (member : c ∈ left s) : c ∈ s := (List.takeWhile_sublist _).mem member

theorem mem_of_right {s : List Char} {c : Char} (member : c ∈ right s) : c ∈ s := by
  rcases split_point s with ⟨-,-,empty⟩ | ⟨n,split⟩
  · rw [empty] at member
    cases member
  · rw [split]
    simp [member]

/-- Without a minus sign nothing negative is read. -/
theorem units_nonneg {s : List Char} {u : Int} (none : '-' ∉ s) (read : Units s u) : 0 ≤ u := by
  rw [Units,if_neg (fun both => none both.1),if_neg none] at read
  exact reading_nonneg (fun member => none (mem_of_left member)) read

theorem decimals_nonneg {precision : Nat} {s : List Char} {f : Int} (none : '-' ∉ s) (read : Decimals precision s f) :
    0 ≤ f := by
  unfold Decimals at read
  split at read
  · exact Int.le_of_eq read.symm
  · refine reading_nonneg (fun member => ?_) read
    rcases List.mem_append.mp (List.mem_of_mem_take member) with inside | zero
    · exact none (mem_of_right inside)
    · exact absurd (List.eq_of_mem_replicate zero) (by decide)

theorem scaled_precision_eq {precision : Nat} (small : precision < 19) : scaled_precision precision = .ok (10 ^ precision) := by
  have asserted : fc_assert (precision < 19) = .ok () := fc_assert_ok.mpr small
  rw [scaled_precision,asserted]
  rfl

/-- What is added for the decimals, where there are some. -/
theorem add_decimals_ok {precision : Nat} {s : List Char} {satoshis w : Int} (fits : Fits satoshis) :
    add_decimals (decide (right s ≠ [])) precision (10 ^ precision) (remove_trailing_zeros s)
      (find (remove_trailing_zeros s) '.') satoshis = .ok w ↔
      ∃ f, Decimals precision s f ∧ Fits f ∧ Fits (satoshis + f) ∧ w = satoshis + f := by
  unfold Decimals add_decimals
  rw [remove_trailing_zeros_eq]
  by_cases none : right s = []
  · simp only [none,ne_eq,not_true_eq_false,decide_false,Bool.false_eq_true,if_false,if_true]
    constructor
    · intro same
      cases same
      exact ⟨0,rfl,by decide,by rwa [Int.add_zero],(Int.add_zero _).symm⟩
    · rintro ⟨_,rfl,-,-,rfl⟩
      rw [Int.add_zero]
  · have place : find (left s ++ '.' :: right s) '.' = some (left s).length := by
      rw [find,if_pos (by simp),List.idxOf_append_of_notMem (not_mem_left s),List.idxOf_cons_self,Nat.add_zero]
    simp only [none,ne_eq,not_false_eq_true,decide_true,if_false,if_true,place]
    exact decimal_units_ok fits

/-- The integers of the source hold what is read within the bounds. -/
theorem fits_within {precision : Nat} (small : precision < 19) {u f : Int} (within : Within precision u f)
    (few : f.natAbs < 10 ^ precision) :
    Fits u ∧ Fits (u * 10 ^ precision) ∧ Fits f ∧ Fits (u * 10 ^ precision + f) := by
  obtain ⟨low,low',high⟩ := within
  have supply : max_share_supply = 7319777577456890 := rfl
  have power : 10 ^ precision ≤ 10 ^ 18 := Nat.pow_le_pow_right (by decide) (by omega)
  have positive : (1 : Int) ≤ 10 ^ precision := Int.pow_pos (by decide)
  have product : Fits (u * 10 ^ precision) := ⟨low,by omega⟩
  refine ⟨?_,product,⟨by omega,by omega⟩,⟨by omega,by omega⟩⟩
  rcases Int.le_total 0 u with nonneg | negative
  · have larger := Int.mul_le_mul_of_nonneg_left positive nonneg
    exact ⟨by omega,by omega⟩
  · have lower := Int.mul_le_mul_of_nonpos_left negative positive
    exact ⟨by omega,by omega⟩

/-- What the reader returns: the two numbers that it reads, put together. -/
theorem amount_ok {precision : Nat} (small : precision < 19) {s : List Char} {v : Int} :
    amount_from_string precision s = .ok v ↔ Scanned s ∧ ∃ u f, Units s u ∧ Decimals precision s f ∧ Within precision u f ∧
      v = if '-' ∈ s then -(u * 10 ^ precision + f) else u * 10 ^ precision + f := by
  obtain ⟨lhs,cut,reads⟩ := substr_units s
  unfold amount_from_string
  simp only [bind_ok,scan_remove,scaled_precision_eq small,whole_units_ok,fc_assert_ok]
  constructor
  · rintro ⟨_,⟨scanned,rfl⟩,_,power,lhs',cut',_,⟨u,read,fits,product,rfl⟩,w,decimals,_,high,signed⟩
    cases power
    cases cut.symm.trans cut'
    obtain ⟨f,read',fits',sum,rfl⟩ := (add_decimals_ok product).mp decimals
    refine ⟨scanned,u,f,(reads u).mp read,read',?_⟩
    by_cases minus : '-' ∈ s
    · simp only [minus,decide_true,if_true,checked_ok] at signed ⊢
      exact ⟨⟨product.1,by have := signed.1.2; omega,high⟩,by rw [signed.2]; omega⟩
    · simp only [minus,decide_false,Bool.false_eq_true,if_false,Except.ok.injEq] at signed ⊢
      have u_nonneg := units_nonneg minus ((reads u).mp read)
      have f_nonneg := decimals_nonneg minus read'
      have : 0 ≤ u * 10 ^ precision := Int.mul_nonneg u_nonneg (Int.le_of_lt (Int.pow_pos (by decide)))
      exact ⟨⟨product.1,by omega,high⟩,signed.symm⟩
  · rintro ⟨scanned,u,f,read,read',within,rfl⟩
    obtain ⟨fits,product,fits',sum⟩ := fits_within small within (decimals_bound read')
    refine ⟨_,⟨scanned,rfl⟩,_,rfl,lhs,cut,_,⟨u,(reads u).mpr read,fits,product,rfl⟩,_,
      (add_decimals_ok product).mpr ⟨f,read',fits',sum,rfl⟩,(),within.2.2,?_⟩
    by_cases minus : '-' ∈ s
    · simp only [minus,decide_true,if_true,checked_ok]
      exact ⟨⟨by have := sum.2; omega,by have := within.2.1; omega⟩,by omega⟩
    · simp only [minus,decide_false,Bool.false_eq_true,if_false]

end Decent.AmountText

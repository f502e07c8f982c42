import Mathlib.Data.Nat.ModEq
import Mathlib.Tactic.Ring

/-!
Numbers in bytes, and files of bytes. A file is written and read at a place; what is written past
its end leaves a gap of zeros. A file of records of one size is a table of them.
-/
namespace Bytes

/-! ### Numbers -/

/-- The lowest bytes of a number, the lowest first. -/
def little : (width : Nat) → Nat → List UInt8
  | 0, _ => []
  | width + 1, n => UInt8.ofNat n :: little width (n / 256)

def value : List UInt8 → Nat
  | [] => 0
  | b :: rest => b.toNat + 256 * value rest

@[simp] theorem length_little (width n : Nat) : (little width n).length = width := by
  induction width generalizing n with
  | zero => rfl
  | succ width ih => rw [little,List.length_cons,ih]

theorem value_little (width n : Nat) : value (little width n) = n % 256 ^ width := by
  induction width generalizing n with
  | zero => rw [little,value,Nat.pow_zero,Nat.mod_one]
  | succ width ih =>
    rw [little,value,ih,UInt8.toNat_ofNat']
    show n % 256 + 256 * (n / 256 % 256 ^ width) = n % 256 ^ (width + 1)
    rw [Nat.pow_succ',Nat.mod_mul]

theorem value_append (a b : List UInt8) : value (a ++ b) = value a + 256 ^ a.length * value b := by
  induction a with
  | nil => rw [List.nil_append,value,List.length_nil,Nat.pow_zero,Nat.one_mul,Nat.zero_add]
  | cons c rest ih =>
    rw [List.cons_append,value,value,ih,List.length_cons,Nat.pow_succ',Nat.mul_add,Nat.mul_assoc,Nat.add_assoc]

theorem little_add (width more n : Nat) : little (width + more) n = little width n ++ little more (n / 256 ^ width) := by
  induction width generalizing n with
  | zero => rw [Nat.zero_add,Nat.pow_zero,Nat.div_one,little,List.nil_append]
  | succ width ih =>
    rw [Nat.succ_add,little,little,ih,Nat.div_div_eq_div_mul,← Nat.pow_succ',List.cons_append]

/-! ### Files -/

/-- Written at a place, over what is there. -/
def write (f : List UInt8) (place : Nat) (bytes : List UInt8) : List UInt8 :=
  (f ++ List.replicate (place - f.length) 0).take place ++ bytes ++ f.drop (place + bytes.length)

/-- So many bytes from a place on, if the file has them. -/
def read (f : List UInt8) (place n : Nat) : Option (List UInt8) :=
  if place + n ≤ f.length then some ((f.drop place).take n) else none

theorem length_read {f bytes : List UInt8} {place n : Nat} (found : read f place n = some bytes) : bytes.length = n := by
  unfold read at found
  split at found
  · cases found
    rw [List.length_take,List.length_drop]
    omega
  · cases found

theorem read_append {f bytes : List UInt8} {place n : Nat} (rest : List UInt8) (found : read f place n = some bytes) :
    read (f ++ rest) place n = some bytes := by
  unfold read at found ⊢
  split at found
  case isTrue inside =>
    rw [if_pos (by rw [List.length_append]; omega),List.drop_append_of_le_length (by omega),
      List.take_append_of_le_length (by rw [List.length_drop]; omega)]
    exact found
  case isFalse => cases found

theorem read_end (f bytes : List UInt8) : read (f ++ bytes) f.length bytes.length = some bytes := by
  rw [read,if_pos (by rw [List.length_append]),List.drop_left,List.take_length]

theorem length_write (f : List UInt8) (place : Nat) (bytes : List UInt8) :
    (write f place bytes).length = max f.length (place + bytes.length) := by
  simp only [write,List.length_append,List.length_take,List.length_replicate,List.length_drop]
  omega

/-- Every byte of a file that was written. -/
theorem getElem?_write (f : List UInt8) (place : Nat) (bytes : List UInt8) (i : Nat) :
    (write f place bytes)[i]? = if i < place then (if i < f.length then f[i]? else some 0)
      else if i < place + bytes.length then bytes[i - place]? else f[i]? := by
  have start : ((f ++ List.replicate (place - f.length) 0).take place).length = place := by
    simp only [List.length_take,List.length_append,List.length_replicate]
    omega
  rw [write,List.append_assoc]
  split
  case isTrue before =>
    rw [List.getElem?_append_left (by omega),List.getElem?_take_of_lt before]
    split
    · rw [List.getElem?_append_left ‹_›]
    · rw [List.getElem?_append_right (by omega),List.getElem?_replicate,if_pos (by omega)]
  case isFalse =>
    rw [List.getElem?_append_right (by omega),start]
    split
    · rw [List.getElem?_append_left (by omega)]
    · rw [List.getElem?_append_right (by omega),List.getElem?_drop]
      congr 1
      omega

theorem read_congr {f g : List UInt8} {place n : Nat} (inside : place + n ≤ f.length) (inside' : place + n ≤ g.length)
    (same : ∀ i, place ≤ i → i < place + n → f[i]? = g[i]?) : read f place n = read g place n := by
  rw [read,read,if_pos inside,if_pos inside']
  congr 1
  refine List.ext_getElem? fun i => ?_
  rw [List.getElem?_take,List.getElem?_take,List.getElem?_drop,List.getElem?_drop]
  split
  · exact same _ (Nat.le_add_right ..) (by omega)
  · rfl

theorem read_write_same (f : List UInt8) (place : Nat) (bytes : List UInt8) :
    read (write f place bytes) place bytes.length = some bytes := by
  rw [read,if_pos (by rw [length_write]; omega)]
  congr 1
  refine List.ext_getElem? fun i => ?_
  rw [List.getElem?_take,List.getElem?_drop,getElem?_write]
  split
  · rw [if_neg (by omega),if_pos (by omega),Nat.add_sub_cancel_left]
  · exact (List.getElem?_eq_none (by omega)).symm

/-! ### Records -/

section
variable {size : Nat} {f bytes : List UInt8}

/-- The record of a number. -/
def record (size : Nat) (f : List UInt8) (i : Nat) : Option (List UInt8) := read f (size * i) size

/-- A file that ends with a record. -/
def Whole (size : Nat) (f : List UInt8) : Prop := size ∣ f.length

theorem Whole.record_isSome (whole : Whole size f) {i : Nat} (positive : 0 < size) :
    (record size f i).isSome ↔ size * i < f.length := by
  obtain ⟨count,length⟩ := whole
  rw [record,read,length]
  have step : size * i + size ≤ size * count ↔ size * i < size * count := by
    rw [← Nat.mul_succ,Nat.mul_le_mul_left_iff positive,Nat.mul_lt_mul_left positive,Nat.succ_le_iff]
  split
  case isTrue inside => exact ⟨fun _ => step.mp inside,fun _ => rfl⟩
  case isFalse outside => exact ⟨fun found => (nomatch found),fun inside => absurd (step.mpr inside) outside⟩

theorem Whole.write (whole : Whole size f) (i : Nat) (length : bytes.length = size) :
    Whole size (write f (size * i) bytes) := by
  rw [Whole,length_write,length,← Nat.mul_succ]
  rcases Nat.le_total f.length (size * (i + 1)) with short | long
  · rw [Nat.max_eq_right short]
    exact Nat.dvd_mul_right ..
  · rw [Nat.max_eq_left long]
    exact whole

theorem record_write_same (i : Nat) (length : bytes.length = size) :
    record size (write f (size * i) bytes) i = some bytes := by
  rw [record]
  conv_lhs => rw [← length]
  exact read_write_same ..

/-- Another record is as it was; one that the file did not reach before is of zeros, or still beyond
    its end. -/
theorem Whole.record_write_other (whole : Whole size f) {i j : Nat} (positive : 0 < size) (length : bytes.length = size)
    (other : j ≠ i) : record size (Bytes.write f (size * i) bytes) j = record size f j ∨
      record size f j = none ∧ record size (Bytes.write f (size * i) bytes) j = some (List.replicate size 0) := by
  have whole' := whole.write i length
  have apart : size * j + size ≤ size * i ∨ size * i + size ≤ size * j := by
    rw [← Nat.mul_succ,← Nat.mul_succ]
    rcases Nat.lt_or_gt_of_ne other with before | behind
    · exact .inl (Nat.mul_le_mul_left size before)
    · exact .inr (Nat.mul_le_mul_left size behind)
  have reach : size * j < f.length → size * j + size ≤ f.length := by
    intro inside
    obtain ⟨count,isLength⟩ := whole
    rw [isLength,Nat.mul_lt_mul_left positive] at inside
    rw [isLength,← Nat.mul_succ]
    exact Nat.mul_le_mul_left size inside
  by_cases inside : size * j < f.length
  · left
    refine read_congr (by rw [length_write]; have := reach inside; omega) (reach inside) fun k low high => ?_
    rw [getElem?_write,length]
    have := reach inside
    split
    · rw [if_pos (by omega)]
    · rw [if_neg (by omega)]
  · have missing : record size f j = none := by
      rw [record,read,if_neg (by omega)]
    rcases apart with before | behind
    · right
      refine ⟨missing,?_⟩
      rw [record,read,if_pos (by rw [length_write]; omega)]
      congr 1
      refine List.ext_getElem? fun k => ?_
      rw [List.getElem?_take,List.getElem?_drop,getElem?_write,List.getElem?_replicate]
      split
      · rw [if_pos (by omega),if_neg (by omega)]
      · rfl
    · left
      rw [missing,record,read,if_neg (by rw [length_write]; omega)]

end

end Bytes

import Mathlib.Data.List.Basic
import Mathlib.Tactic.Ring

/-!
Encodings that are read from the front of a text. A codec reads what it has written, whatever
follows, and accepts nothing else; so what is written one behind the other comes apart in one way.
-/
namespace Codec

universe u v w

/-- A writer and a reader that accepts exactly what is written. -/
structure Canonical (β : Type u) (α : Type v) where
  pack : α → List β
  unpack : List β → Option (α × List β)
  unpack_pack (a : α) (rest : List β) : unpack (pack a ++ rest) = some (a,rest)
  pack_unpack {text : List β} {a : α} {rest : List β} (read : unpack text = some (a,rest)) : text = pack a ++ rest

/-- Where a text begins with an encoding, it does so with one only. -/
def Prefixed {β : Type u} {α : Type v} (pack : α → List β) : Prop :=
  ∀ ⦃a b : α⦄ ⦃x y : List β⦄, pack a ++ x = pack b ++ y → a = b ∧ x = y

variable {β : Type u} {α : Type v}

theorem Canonical.prefixed (C : Canonical β α) : Prefixed C.pack := by
  intro a b x y same
  have read := C.unpack_pack a x
  rw [same,C.unpack_pack] at read
  injection read with read
  injection read with first second
  exact ⟨first.symm,second.symm⟩

/-! ### Sequences -/

section
variable {pack : α → List β} (P : Prefixed pack)
include P

/-- A sequence that is not longer begins the other one. -/
theorem Prefixed.sequence {as bs : List α} {x y : List β} (short : as.length ≤ bs.length)
    (same : as.flatMap pack ++ x = bs.flatMap pack ++ y) : ∃ cs, bs = as ++ cs ∧ x = cs.flatMap pack ++ y := by
  induction as generalizing bs with
  | nil => exact ⟨bs,rfl,same⟩
  | cons a as ih =>
    cases bs with
    | nil => exact absurd short (Nat.not_succ_le_zero _)
    | cons b bs =>
      rw [List.flatMap_cons,List.flatMap_cons,List.append_assoc,List.append_assoc] at same
      obtain ⟨rfl,tails⟩ := P same
      obtain ⟨cs,rfl,after⟩ := ih (Nat.le_of_succ_le_succ short) tails
      exact ⟨cs,rfl,after⟩

end

/-! ### Tagged values -/

/-- The tag, then a value of the type that the tag tells. -/
theorem Prefixed.tagged {κ : Type v} {γ : κ → Type w} {tag : κ → List β} {value : ∀ k, γ k → List β}
    (T : Prefixed tag) (V : ∀ k, Prefixed (value k)) :
    Prefixed fun e : (k : κ) × γ k => tag e.1 ++ value e.1 e.2 := by
  rintro ⟨k,a⟩ ⟨l,b⟩ x y same
  rw [List.append_assoc,List.append_assoc] at same
  obtain ⟨tags,same⟩ := T same
  cases tags
  obtain ⟨rfl,rest⟩ := V _ same
  exact ⟨rfl,rest⟩

/-! ### Numbers in groups of seven bits -/

/-- The lowest group first; a byte from 128 on is not the last. -/
def groups : Nat → Nat → List UInt8
  | 0, n => [UInt8.ofNat n]
  | more + 1, n => if n < 128 then [UInt8.ofNat n] else UInt8.ofNat (n % 128 + 128) :: groups more (n / 128)

def ungroup : List UInt8 → Option (Nat × List UInt8)
  | [] => none
  | b :: rest => if b.toNat < 128 then some (b.toNat,rest) else
      (ungroup rest).map fun read => (b.toNat - 128 + 128 * read.1,read.2)

theorem ungroup_groups {more n : Nat} (small : n < 128 ^ (more + 1)) (rest : List UInt8) :
    ungroup (groups more n ++ rest) = some (n,rest) := by
  have last {n : Nat} (small : n < 128) : ungroup ([UInt8.ofNat n] ++ rest) = some (n,rest) := by
    have exact : (UInt8.ofNat n).toNat = n := by rw [UInt8.toNat_ofNat']; omega
    rw [List.singleton_append,ungroup,exact,if_pos small]
  induction more generalizing n with
  | zero => exact last (by simpa using small)
  | succ more ih =>
    rw [groups]
    split
    · exact last (by assumption)
    · have exact : (UInt8.ofNat (n % 128 + 128)).toNat = n % 128 + 128 := by rw [UInt8.toNat_ofNat']; omega
      have below : n / 128 < 128 ^ (more + 1) := by
        rw [Nat.pow_succ] at small
        exact Nat.div_lt_of_lt_mul (by rwa [Nat.mul_comm] at small)
      rw [List.cons_append,ungroup,exact,if_neg (by omega),ih below,Option.map_some]
      show some (n % 128 + 128 - 128 + 128 * (n / 128),rest) = _
      rw [Nat.add_sub_cancel,Nat.mod_add_div]

/-- Words in groups of seven bits. What has other groups than the number itself is not read. -/
def varint : Canonical UInt8 UInt32 where
  pack n := groups 4 n.toNat
  unpack text := do
    let read ← ungroup text
    let n := UInt32.ofNat read.1
    if groups 4 n.toNat ++ read.2 = text then some (n,read.2) else none
  unpack_pack n rest := by
    have small : n.toNat < 128 ^ (4 + 1) := n.toNat_lt.trans (by decide)
    simp [ungroup_groups small]
  pack_unpack {text a rest} read := by
    simp only [Option.bind_eq_bind,Option.bind_eq_some_iff,Option.ite_none_right_eq_some] at read
    obtain ⟨found,-,same,kept⟩ := read
    cases kept
    exact same.symm

end Codec

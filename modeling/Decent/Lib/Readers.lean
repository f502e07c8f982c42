import Decent.Lib.Throwing
import Mathlib.Data.List.Basic
import Mathlib.Algebra.Group.Nat.Even

/-!
Readers that give as much as there is. A reader of a stream gives some of the bytes it is asked
for, and how many is not up to it; a loop around it gives all of them. Code over one reader follows
the same code over a reader that gives all at once.
-/
namespace Readers
open Throwing

variable {ε σ τ α β : Type}

/-- The first program does on a state what the second does on a view of it. -/
def Follows (Inv : σ → Prop) (view : σ → τ) (x : EStateM ε σ α) (y : EStateM ε τ α) : Prop :=
  ∀ s, Inv s → match EStateM.run x s, EStateM.run y (view s) with
    | .ok a s', .ok b t => a = b ∧ Inv s' ∧ view s' = t
    | .error e _, .error f _ => e = f
    | _, _ => False

section
variable {Inv : σ → Prop} {view : σ → τ}

theorem follows_pure (a : α) : Follows Inv view (pure a : EStateM ε σ α) (pure a) := fun _ inv => ⟨rfl,inv,rfl⟩

theorem follows_throw (e : ε) : Follows Inv view (throw e : EStateM ε σ α) (throw e) := fun _ _ => rfl

/-- Both return, or both throw the same. -/
theorem Follows.cases {x : EStateM ε σ α} {y : EStateM ε τ α} (follows : Follows Inv view x y) {s : σ} (inv : Inv s) :
    (∃ a s', EStateM.run x s = .ok a s' ∧ EStateM.run y (view s) = .ok a (view s') ∧ Inv s') ∨
    ∃ e s' t, EStateM.run x s = .error e s' ∧ EStateM.run y (view s) = .error e t := by
  have same := follows s inv
  cases left : EStateM.run x s with
  | ok a s' =>
    cases right : EStateM.run y (view s) with
    | ok b t =>
      rw [left,right] at same
      obtain ⟨rfl,inv',rfl⟩ := same
      exact .inl ⟨a,s',rfl,rfl,inv'⟩
    | error f t =>
      rw [left,right] at same
      exact absurd same id
  | error e s' =>
    cases right : EStateM.run y (view s) with
    | ok b t =>
      rw [left,right] at same
      exact absurd same id
    | error f t =>
      rw [left,right] at same
      cases same
      exact .inr ⟨e,s',t,rfl,rfl⟩

theorem follows_bind {x : EStateM ε σ α} {y : EStateM ε τ α} {f : α → EStateM ε σ β} {g : α → EStateM ε τ β}
    (first : Follows Inv view x y) (rest : ∀ a, Follows Inv view (f a) (g a)) :
    Follows Inv view (x >>= f) (y >>= g) := by
  intro s inv
  rw [EStateM.run_bind,EStateM.run_bind]
  rcases first.cases inv with ⟨a,s',left,right,inv'⟩ | ⟨e,s',t,left,right⟩
  · rw [left,right]
    exact rest a s' inv'
  · rw [left,right]

theorem follows_ite {c : Prop} [Decidable c] {x x' : EStateM ε σ α} {y y' : EStateM ε τ α} (yes : Follows Inv view x y)
    (no : Follows Inv view x' y') : Follows Inv view (if c then x else x') (if c then y else y') := by
  split
  · exact yes
  · exact no

end

/-! ### Loops around a reader -/

/-- Reads on until all is there. A call that returns gives something. -/
def read_on (readsome : Nat → EStateM ε σ (List α)) : Nat → Nat → EStateM ε σ (List α)
  | 0, _ => pure []
  | rounds + 1, len =>
    if len = 0 then pure [] else do
      let some ← readsome len
      let rest ← read_on readsome rounds (len - some.length)
      return some ++ rest

def read (readsome : Nat → EStateM ε σ (List α)) (len : Nat) : EStateM ε σ (List α) := read_on readsome len len

/-- All that is asked for at once, or the end of the stream. -/
def read_whole (eof : ε) (n : Nat) : EStateM ε (List α) (List α) := fun stream =>
  if n ≤ stream.length then .ok (stream.take n) (stream.drop n) else .error eof []

/-- A reader of a stream gives whole pieces of it. It throws only where the stream does not have all
    it is asked for. -/
structure Reads (piece : Nat) (eof : ε) (Inv : σ → Prop) (stream : σ → List α)
    (readsome : Nat → EStateM ε σ (List α)) : Prop where
  step {s : σ} {len : Nat} : Inv s → 0 < len → piece ∣ len →
    (∃ k s', 0 < k ∧ k ≤ len ∧ piece ∣ k ∧ k ≤ (stream s).length ∧
      EStateM.run (readsome len) s = .ok ((stream s).take k) s' ∧ Inv s' ∧ stream s' = (stream s).drop k) ∨
    (stream s).length < len ∧ ∃ s', EStateM.run (readsome len) s = .error eof s'

section
variable {piece : Nat} {eof : ε} {Inv : σ → Prop} {stream : σ → List α} {readsome : Nat → EStateM ε σ (List α)}

theorem Reads.read_on (reads : Reads piece eof Inv stream readsome) {rounds len : Nat} (enough : len ≤ rounds) (whole : piece ∣ len) :
    Follows Inv stream (read_on readsome rounds len) (read_whole eof len) := by
  induction rounds generalizing len with
  | zero =>
    intro s inv
    obtain rfl := Nat.le_zero.mp enough
    exact ⟨rfl,inv,rfl⟩
  | succ rounds ih =>
    intro s inv
    unfold Readers.read_on
    by_cases none : len = 0
    · subst none
      exact ⟨rfl,inv,rfl⟩
    rw [if_neg none,EStateM.run_bind]
    rcases reads.step inv (Nat.pos_of_ne_zero none) whole with
      ⟨k,s₁,positive,few,whole',inside,ran,inv₁,behind⟩ | ⟨short,s₁,ran⟩
    · have shorter : len - k ≤ rounds := by omega
      have rest := ih shorter (Nat.dvd_sub whole whole') s₁ inv₁
      rw [ran]
      simp only [List.length_take_of_le inside,EStateM.run_bind]
      have length : (stream s₁).length = (stream s).length - k := by rw [behind,List.length_drop]
      have right (n : Nat) (t : List α) : EStateM.run (read_whole eof n) t =
        if n ≤ t.length then .ok (t.take n) (t.drop n) else .error eof [] := rfl
      rw [right] at rest ⊢
      by_cases all : len ≤ (stream s).length
      · rw [if_pos (by omega)] at rest
        rw [if_pos all]
        cases later : EStateM.run (Readers.read_on readsome rounds (len - k)) s₁ with
        | ok bytes s₂ =>
          rw [later] at rest
          obtain ⟨rfl,inv₂,same⟩ := rest
          refine ⟨?_,inv₂,?_⟩
          · rw [behind,← List.take_add,Nat.add_sub_of_le few]
          · rw [same,behind,List.drop_drop,Nat.add_sub_of_le few]
        | error e s₂ =>
          rw [later] at rest
          exact absurd rest id
      · rw [if_neg (by omega)] at rest
        rw [if_neg all]
        cases later : EStateM.run (Readers.read_on readsome rounds (len - k)) s₁ with
        | ok bytes s₂ =>
          rw [later] at rest
          exact absurd rest id
        | error e s₂ =>
          rw [later] at rest
          exact rest
    · rw [ran]
      have right : EStateM.run (read_whole eof len) (stream s) = .error eof [] := if_neg (Nat.not_le_of_lt short)
      rw [right]

/-- However much it gives at a time: the loop gives all at once. -/
theorem Reads.read (reads : Reads piece eof Inv stream readsome) {len : Nat} (whole : piece ∣ len) :
    Follows Inv stream (read readsome len) (read_whole eof len) := reads.read_on (Nat.le_refl _) whole

end

end Readers

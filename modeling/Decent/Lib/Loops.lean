import Mathlib.Tactic.Common

/-!
Loops that may not end. A pass goes on with a new state or leaves with a result, and
is itself undefined where a loop inside it does not end; a loop makes as many passes
as it is given, and ends if some number is enough.
-/
namespace Loops

variable {S R : Type}

/-- Make passes until one leaves. -/
def loop (pass : S → Option (S ⊕ R)) : Nat → S → Option R
  | 0, _ => none
  | fuel + 1, s =>
    match pass s with
    | none => none
    | some (.inl s') => loop pass fuel s'
    | some (.inr r) => some r

section
variable {pass : S → Option (S ⊕ R)}

theorem loop_next {s s' : S} (goes : pass s = some (.inl s')) (fuel : Nat) :
    loop pass (fuel + 1) s = loop pass fuel s' := by
  simp only [loop,goes]

theorem loop_done {s : S} {r : R} (leaves : pass s = some (.inr r)) (fuel : Nat) :
    loop pass (fuel + 1) s = some r := by
  simp only [loop,leaves]

/-- Total correctness: a pass keeps the invariant and comes closer to the end, or
    leaves with what is wanted. -/
theorem loop_total (Inv : S → Prop) (measure : S → Nat) (Post : R → Prop)
    (step : ∀ s, Inv s → (∃ s', pass s = some (.inl s') ∧ Inv s' ∧ measure s' < measure s) ∨
      ∃ r, pass s = some (.inr r) ∧ Post r)
    (fuel : Nat) (s : S) (holds : Inv s) (enough : measure s < fuel) :
    ∃ r, loop pass fuel s = some r ∧ Post r := by
  induction fuel generalizing s with
  | zero => omega
  | succ fuel ih =>
    obtain ⟨s',goes,holds',closer⟩ | ⟨r,leaves,post⟩ := step s holds
    · rw [loop_next goes]
      exact ih s' holds' (by omega)
    · exact ⟨r,loop_done leaves fuel,post⟩

/-- A loop no pass of which leaves does not end. -/
theorem loop_endless (Inv : S → Prop) (step : ∀ s, Inv s → ∃ s', pass s = some (.inl s') ∧ Inv s')
    (fuel : Nat) (s : S) (holds : Inv s) : loop pass fuel s = none := by
  induction fuel generalizing s with
  | zero => rfl
  | succ fuel ih =>
    obtain ⟨s',goes,holds'⟩ := step s holds
    rw [loop_next goes]
    exact ih s' holds'

end
end Loops

import Mathlib.Logic.Basic

/-!
Rules for code that runs on a state and may throw (`EStateM`): what the state is
after an exception is part of the meaning, as in a language whose exceptions do
not roll anything back.
-/
namespace Throwing

variable {ε σ α β : Type}

@[simp] theorem run_throw (e : ε) (s : σ) : EStateM.run (throw e : EStateM ε σ α) s = .error e s := rfl

/-- A handler starts from the state the exception left. -/
@[simp] theorem run_tryCatch (x : EStateM ε σ α) (handler : ε → EStateM ε σ α) (s : σ) :
    EStateM.run (tryCatch x handler) s =
      match EStateM.run x s with
      | .ok a s' => .ok a s'
      | .error e s' => EStateM.run (handler e) s' := by
  show EStateM.tryCatch x handler s = _
  delta EStateM.tryCatch EStateM.run
  cases x s <;> rfl

/-- A sequence returns when both parts do. -/
theorem run_bind_ok {x : EStateM ε σ α} {f : α → EStateM ε σ β} {s s'' : σ} {b : β} :
    EStateM.run (x >>= f) s = .ok b s'' ↔
      ∃ a s', EStateM.run x s = .ok a s' ∧ EStateM.run (f a) s' = .ok b s'' := by
  rw [EStateM.run_bind]
  cases EStateM.run x s with
  | ok a s' =>
    constructor
    · intro ran; exact ⟨a,s',rfl,ran⟩
    · rintro ⟨_,_,same,ran⟩; cases same; exact ran
  | error e s' => simp

/-! ### What every run keeps -/

/-- The state a run ends in, whether it returns or throws. -/
def endState : EStateM.Result ε σ α → σ
  | .ok _ s => s
  | .error _ s => s

@[simp] theorem endState_ok (a : α) (s : σ) : endState (.ok a s : EStateM.Result ε σ α) = s := rfl
@[simp] theorem endState_error (e : ε) (s : σ) : endState (.error e s : EStateM.Result ε σ α) = s := rfl

/-- Whether a run returned. -/
def returned : EStateM.Result ε σ α → Bool
  | .ok _ _ => true
  | .error _ _ => false

theorem run_of_returned {x : EStateM ε σ Unit} {s : σ} (ran : returned (EStateM.run x s) = true) :
    EStateM.run x s = .ok () (endState (EStateM.run x s)) := by
  cases result : EStateM.run x s with
  | ok a s' => rfl
  | error e s' => rw [result] at ran; cases ran

theorem run_of_thrown {x : EStateM ε σ α} {s : σ} (ran : returned (EStateM.run x s) = false) :
    ∃ e, EStateM.run x s = .error e (endState (EStateM.run x s)) := by
  cases result : EStateM.run x s with
  | ok a s' => rw [result] at ran; cases ran
  | error e s' => exact ⟨e,rfl⟩

/-- However `x` ends, its last state is one that `P` allows after the first. -/
def Keeps (P : σ → σ → Prop) (x : EStateM ε σ α) : Prop := ∀ s, P s (endState (EStateM.run x s))

/-- Relations between a first and a last state that compose. -/
class Composes (P : σ → σ → Prop) : Prop where
  refl : ∀ s, P s s
  trans : ∀ {a b c}, P a b → P b c → P a c

section
variable {P : σ → σ → Prop}

theorem keeps_pure (composes : Composes P) (a : α) : Keeps P (pure a : EStateM ε σ α) := composes.refl

theorem keeps_throw (composes : Composes P) (e : ε) : Keeps P (throw e : EStateM ε σ α) := composes.refl

theorem keeps_get (composes : Composes P) : Keeps P (get : EStateM ε σ σ) := composes.refl

theorem keeps_modifyGet {f : σ → α × σ} (step : ∀ s, P s (f s).2) : Keeps P (modifyGet f : EStateM ε σ α) := step

theorem keeps_bind (composes : Composes P) {x : EStateM ε σ α} {f : α → EStateM ε σ β} (first : Keeps P x)
    (rest : ∀ a, Keeps P (f a)) : Keeps P (x >>= f) := by
  intro s
  have atFirst := first s
  rw [EStateM.run_bind]
  cases ran : EStateM.run x s with
  | ok a s' =>
    rw [ran] at atFirst
    exact composes.trans atFirst (rest a s')
  | error e s' =>
    rw [ran] at atFirst
    exact atFirst

theorem keeps_tryCatch (composes : Composes P) {x : EStateM ε σ α} {handler : ε → EStateM ε σ α}
    (first : Keeps P x) (handled : ∀ e, Keeps P (handler e)) : Keeps P (tryCatch x handler) := by
  intro s
  have atFirst := first s
  rw [run_tryCatch]
  cases ran : EStateM.run x s with
  | ok a s' =>
    rw [ran] at atFirst
    exact atFirst
  | error e s' =>
    rw [ran] at atFirst
    exact composes.trans atFirst (handled e s')

theorem keeps_ite {c : Prop} [Decidable c] {x y : EStateM ε σ α} (yes : Keeps P x) (no : Keeps P y) :
    Keeps P (if c then x else y) := by
  split
  · exact yes
  · exact no

end

/-- `Keeps`, found from the parts of a program by instance search. -/
class Within (P : σ → σ → Prop) (x : EStateM ε σ α) : Prop where
  keeps : Keeps P x

section
variable {P : σ → σ → Prop} [composes : Composes P]

instance (a : α) : Within P (pure a : EStateM ε σ α) := ⟨keeps_pure composes a⟩

instance (e : ε) : Within P (throw e : EStateM ε σ α) := ⟨keeps_throw composes e⟩

instance : Within P (get : EStateM ε σ σ) := ⟨keeps_get composes⟩

instance within_bind {x : EStateM ε σ α} {f : α → EStateM ε σ β} [first : Within P x] [rest : ∀ a, Within P (f a)] :
    Within P (x >>= f) := ⟨keeps_bind composes first.keeps fun a => (rest a).keeps⟩

theorem Within.andThen {x : EStateM ε σ α} {f : α → EStateM ε σ β} [Within P x] (rest : ∀ a, Within P (f a)) :
    Within P (x >>= f) := within_bind

instance {c : Prop} [Decidable c] {x y : EStateM ε σ α} [yes : Within P x] [no : Within P y] :
    Within P (if c then x else y) := ⟨keeps_ite yes.keeps no.keeps⟩

instance {x : EStateM ε σ α} {handler : ε → EStateM ε σ α} [first : Within P x] [handled : ∀ e, Within P (handler e)] :
    Within P (tryCatch x handler) := ⟨keeps_tryCatch composes first.keeps fun e => (handled e).keeps⟩

end

theorem Within.modify {P : σ → σ → Prop} {f : σ → σ} (step : ∀ s, P s (f s)) :
    Within P (modify f : EStateM ε σ Unit) := ⟨step⟩

theorem Within.ok {P : σ → σ → Prop} {x : EStateM ε σ α} (within : Within P x) {s s' : σ} {a : α}
    (ran : EStateM.run x s = .ok a s') : P s s' := by
  have ends := within.keeps s
  rw [ran] at ends
  exact ends

/-- What holds where a sequence ends, however it ends. -/
theorem ends_bind {Q : σ → Prop} {x : EStateM ε σ α} {f : α → EStateM ε σ β} {s : σ}
    (thrown : ∀ e s', EStateM.run x s = .error e s' → Q s')
    (rest : ∀ a s', EStateM.run x s = .ok a s' → Q (endState (EStateM.run (f a) s'))) :
    Q (endState (EStateM.run (x >>= f) s)) := by
  rw [EStateM.run_bind]
  cases ran : EStateM.run x s with
  | ok a s' => exact rest a s' ran
  | error e s' => exact thrown e s' ran

theorem ends_then {Q : σ → Prop} {x : EStateM ε σ α} {f : α → EStateM ε σ β} {s : σ} (first : Q (endState (EStateM.run x s)))
    (rest : ∀ a s', EStateM.run x s = .ok a s' → Q s' → Q (endState (EStateM.run (f a) s'))) :
    Q (endState (EStateM.run (x >>= f) s)) := by
  refine ends_bind (fun e s' ran => ?_) fun a s' ran => ?_
  · rw [ran] at first
    exact first
  · rw [ran] at first
    exact rest a s' ran first

/-- Whenever `x` returns, `I` holds as it did before. -/
def Preserves (I : σ → Prop) (x : EStateM ε σ α) : Prop :=
  ∀ ⦃s s' : σ⦄ ⦃a : α⦄, I s → EStateM.run x s = .ok a s' → I s'

section
variable {I : σ → Prop}

theorem preserves_bind {x : EStateM ε σ α} {f : α → EStateM ε σ β} (first : Preserves I x)
    (rest : ∀ a, Preserves I (f a)) : Preserves I (x >>= f) := by
  intro s s' b holds ran
  obtain ⟨a,s₁,ran₁,ran₂⟩ := run_bind_ok.mp ran
  exact rest a (first holds ran₁) ran₂

theorem Within.preserves {P : σ → σ → Prop} {x : EStateM ε σ α} (within : Within P x)
    (step : ∀ {s s'}, P s s' → I s → I s') : Preserves I x :=
  fun _ _ _ holds ran => step (within.ok ran) holds

end

/-! ### Two runs side by side -/

/-- Both runs end the same way, in states that `Rel` relates. -/
def Matches (Rel : σ → σ → Prop) : EStateM.Result ε σ α → EStateM.Result ε σ α → Prop
  | .ok a s, .ok b t => a = b ∧ Rel s t
  | .error e s, .error f t => e = f ∧ Rel s t
  | _, _ => False

theorem matches_cases {Rel : σ → σ → Prop} {r r' : EStateM.Result ε σ α} (same : Matches Rel r r') :
    (∃ a s t, r = .ok a s ∧ r' = .ok a t ∧ Rel s t) ∨ ∃ e s t, r = .error e s ∧ r' = .error e t ∧ Rel s t := by
  cases r with
  | ok a s =>
    cases r' with
    | ok b t => obtain ⟨rfl,related⟩ := same; exact .inl ⟨a,s,t,rfl,rfl,related⟩
    | error e t => exact absurd same id
  | error e s =>
    cases r' with
    | ok b t => exact absurd same id
    | error f t => obtain ⟨rfl,related⟩ := same; exact .inr ⟨e,s,t,rfl,rfl,related⟩

theorem returned_of_matches {Rel : σ → σ → Prop} {r r' : EStateM.Result ε σ α} (same : Matches Rel r r') :
    returned r = returned r' := by
  rcases matches_cases same with ⟨a,s,t,rfl,rfl,_⟩ | ⟨e,s,t,rfl,rfl,_⟩
  · rfl
  · rfl

/-- Runs of `x` and `y` from related states match. -/
def Alike (Rel : σ → σ → Prop) (x y : EStateM ε σ α) : Prop :=
  ∀ s t, Rel s t → Matches Rel (EStateM.run x s) (EStateM.run y t)

section
variable {Rel : σ → σ → Prop}

theorem alike_pure (a : α) : Alike Rel (pure a : EStateM ε σ α) (pure a) := fun _ _ related => ⟨rfl,related⟩

theorem alike_throw (e : ε) : Alike Rel (throw e : EStateM ε σ α) (throw e) := fun _ _ related => ⟨rfl,related⟩

theorem alike_modifyGet {f g : σ → α × σ} (step : ∀ s t, Rel s t → (f s).1 = (g t).1 ∧ Rel (f s).2 (g t).2) :
    Alike Rel (modifyGet f : EStateM ε σ α) (modifyGet g) := step

theorem alike_bind {x y : EStateM ε σ α} {f g : α → EStateM ε σ β} (first : Alike Rel x y)
    (rest : ∀ a, Alike Rel (f a) (g a)) : Alike Rel (x >>= f) (y >>= g) := by
  intro s t related
  rw [EStateM.run_bind,EStateM.run_bind]
  rcases matches_cases (first s t related) with ⟨a,s',t',left,right,later⟩ | ⟨e,s',t',left,right,later⟩
  · rw [left,right]
    exact rest a s' t' later
  · rw [left,right]
    exact ⟨rfl,later⟩

/-- Code that starts by reading the state. -/
theorem alike_get {f g : σ → EStateM ε σ α} (rest : ∀ s t, Rel s t → Alike Rel (f s) (g t)) :
    Alike Rel (get >>= f) (get >>= g) :=
  fun s t related => rest s t related s t related

theorem alike_tryCatch {x y : EStateM ε σ α} {f g : ε → EStateM ε σ α} (first : Alike Rel x y)
    (handled : ∀ e, Alike Rel (f e) (g e)) : Alike Rel (tryCatch x f) (tryCatch y g) := by
  intro s t related
  rw [run_tryCatch,run_tryCatch]
  rcases matches_cases (first s t related) with ⟨a,s',t',left,right,later⟩ | ⟨e,s',t',left,right,later⟩
  · rw [left,right]
    exact ⟨rfl,later⟩
  · rw [left,right]
    exact handled e s' t' later

theorem alike_ite {c : Prop} [Decidable c] {x y x' y' : EStateM ε σ α} (yes : Alike Rel x y) (no : Alike Rel x' y') :
    Alike Rel (if c then x else x') (if c then y else y') := by
  split
  · exact yes
  · exact no

end

end Throwing

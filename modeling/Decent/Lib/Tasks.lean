import Mathlib.Logic.Relation
import Mathlib.Logic.Function.Basic

/-!
Cooperative tasks over a shared state. A task runs alone until it waits for the answer to a
question; then any other task may run. What a task does to the state is bounded by its guarantee
`G`, what the others may do while it waits by its rely `R`. If every guarantee is within the relies
of all other tasks, tasks that are safe one by one are safe together, in any order.
-/
namespace Tasks
open Relation

/-- The code of a task. The questions `Q` have answers of the types `A`, or throw. -/
inductive Task (σ : Type) {Q : Type} (A : Q → Type) (ε α : Type)
  | done (a : α)
  | fail (e : ε)
  | update (f : σ → σ) (next : Task σ A ε α)
  | look (next : σ → Task σ A ε α)
  | wait (q : Q) (next : Except ε (A q) → Task σ A ε α)

namespace Task

section
variable {σ Q ε α β : Type} {A : Q → Type}

def bind (t : Task σ A ε α) (k : α → Task σ A ε β) : Task σ A ε β :=
  match t with
  | .done a => k a
  | .fail e => .fail e
  | .update f next => .update f (bind next k)
  | .look next => .look fun s => bind (next s) k
  | .wait q next => .wait q fun a => bind (next a) k

/-- A handler starts from the state that the exception left. -/
def handle (t : Task σ A ε α) (handler : ε → Task σ A ε α) : Task σ A ε α :=
  match t with
  | .done a => .done a
  | .fail e => handler e
  | .update f next => .update f (handle next handler)
  | .look next => .look fun s => handle (next s) handler
  | .wait q next => .wait q fun a => handle (next a) handler

instance : Monad (Task σ A ε) where
  pure := .done
  bind := bind

instance : MonadExceptOf ε (Task σ A ε) where
  throw := .fail
  tryCatch := handle

/-- The state, as it is now. -/
def state : Task σ A ε σ := .look .done

/-- A change of the state, at once. -/
def change (f : σ → σ) : Task σ A ε Unit := .update f (.done ())

/-- Waits for an answer; an answer that is an exception is thrown. -/
def ask (q : Q) : Task σ A ε (A q) := .wait q fun answer => match answer with
  | .ok a => .done a
  | .error e => .fail e

def each (f : α → Task σ A ε Unit) : List α → Task σ A ε Unit
  | [] => pure ()
  | a :: rest => do f a; each f rest

/-- Runs a task up to where it waits next, if it does. -/
def advance (t : Task σ A ε α) (s : σ) : σ × Option (Task σ A ε α) :=
  match t with
  | .done _ => (s,none)
  | .fail _ => (s,none)
  | .update f next => advance next (f s)
  | .look next => advance (next s) s
  | .wait q next => (s,some (.wait q next))

/-! ### One task -/

/-- From a state on, every change that the task makes is in `G` and what it ends with is as
    expected, when all that happens while it waits is in `R` and the invariant `I` holds. -/
def Safe (I : σ → Prop) (R G : σ → σ → Prop) (Post : α → σ → Prop) (Thrown : ε → σ → Prop) (t : Task σ A ε α) (s : σ) :
    Prop :=
  match t with
  | .done a => Post a s
  | .fail e => Thrown e s
  | .update f next => I s → ReflTransGen G s (f s) ∧ Safe I R G Post Thrown next (f s)
  | .look next => I s → Safe I R G Post Thrown (next s) s
  | .wait _ next => ∀ s', R s s' → I s' → ∀ answer, Safe I R G Post Thrown (next answer) s'

variable {I : σ → Prop} {R G : σ → σ → Prop} {Post Post' : α → σ → Prop} {Thrown Thrown' : ε → σ → Prop}

theorem safe_bind {t : Task σ A ε α} {k : α → Task σ A ε β} {Last : β → σ → Prop} {s : σ} :
    Safe I R G Last Thrown (t >>= k) s ↔ Safe I R G (fun a => Safe I R G Last Thrown (k a)) Thrown t s := by
  show Safe I R G Last Thrown (bind t k) s ↔ _
  induction t generalizing s with
  | done a => rfl
  | fail e => rfl
  | update f next ih => exact imp_congr_right fun _ => and_congr_right fun _ => ih
  | look next ih => exact imp_congr_right fun _ => ih s
  | wait q next ih =>
    exact forall_congr' fun _ => imp_congr_right fun _ => imp_congr_right fun _ => forall_congr' fun answer => ih answer

theorem safe_handle {t : Task σ A ε α} {handler : ε → Task σ A ε α} {s : σ} :
    Safe I R G Post Thrown (tryCatch t handler) s ↔
      Safe I R G Post (fun e => Safe I R G Post Thrown (handler e)) t s := by
  show Safe I R G Post Thrown (handle t handler) s ↔ _
  induction t generalizing s with
  | done a => rfl
  | fail e => rfl
  | update f next ih => exact imp_congr_right fun _ => and_congr_right fun _ => ih
  | look next ih => exact imp_congr_right fun _ => ih s
  | wait q next ih =>
    exact forall_congr' fun _ => imp_congr_right fun _ => imp_congr_right fun _ => forall_congr' fun answer => ih answer

theorem safe_change {f : σ → σ} {k : Unit → Task σ A ε α} {s : σ}
    (safe : I s → ReflTransGen G s (f s) ∧ Safe I R G Post Thrown (k ()) (f s)) :
    Safe I R G Post Thrown (change f >>= k) s := safe

theorem safe_state {k : σ → Task σ A ε α} {s : σ} (safe : I s → Safe I R G Post Thrown (k s) s) :
    Safe I R G Post Thrown (state >>= k) s := safe

theorem Safe.mono {t : Task σ A ε α} {s : σ} (safe : Safe I R G Post Thrown t s) (post : ∀ a s, Post a s → Post' a s)
    (thrown : ∀ e s, Thrown e s → Thrown' e s) : Safe I R G Post' Thrown' t s := by
  induction t generalizing s with
  | done a => exact post a s safe
  | fail e => exact thrown e s safe
  | update f next ih => exact fun holds => ⟨(safe holds).1,ih (safe holds).2⟩
  | look next ih => exact fun holds => ih s (safe holds)
  | wait q next ih => exact fun s' meanwhile holds answer => ih answer (safe s' meanwhile holds answer)

/-- A task that is safe as it waits is so later. -/
theorem Safe.later (trans : ∀ a b c, R a b → R b c → R a c) {q : Q} {next : Except ε (A q) → Task σ A ε α} {s s' : σ}
    (safe : Safe I R G Post Thrown (.wait q next) s) (meanwhile : R s s') : Safe I R G Post Thrown (.wait q next) s' :=
  fun _ after holds answer => safe _ (trans _ _ _ meanwhile after) holds answer

/-- As far as it runs, a safe task changes the state as it may, and is left safe. -/
theorem Safe.advance (keeps : ∀ s s', I s → ReflTransGen G s s' → I s') {t : Task σ A ε α} {s : σ} (holds : I s)
    (safe : Safe I R G Post Thrown t s) : ReflTransGen G s (t.advance s).1 ∧
      ∀ rest ∈ (t.advance s).2, (∃ q next, rest = .wait q next) ∧ Safe I R G Post Thrown rest (t.advance s).1 := by
  induction t generalizing s with
  | done a => exact ⟨.refl,fun _ none => by cases none⟩
  | fail e => exact ⟨.refl,fun _ none => by cases none⟩
  | update f next ih =>
    obtain ⟨steps,next⟩ := safe holds
    obtain ⟨further,left⟩ := ih (keeps _ _ holds steps) next
    exact ⟨steps.trans further,left⟩
  | look next ih => exact ih s holds (safe holds)
  | wait q next ih =>
    refine ⟨.refl,fun rest isRest => ?_⟩
    obtain rfl := Option.some.inj isRest
    exact ⟨⟨q,next,rfl⟩,safe⟩

/-! ### What a task knows throughout -/

/-- Whenever the task finds `K`, it keeps it, and every change that it makes is in `G`. -/
class Keeps (I : σ → Prop) (R G : σ → σ → Prop) (K : σ → Prop) (t : Task σ A ε α) : Prop where
  safe : ∀ s, K s → Safe I R G (fun _ => K) (fun _ => K) t s

/-- `K` stays while a task waits. -/
class Stable (R : σ → σ → Prop) (K : σ → Prop) : Prop where
  stays : ∀ s s', R s s' → K s → K s'

variable {K : σ → Prop}

/-- What is known when a task asks is known when it has the answer. -/
theorem safe_ask [stable : Stable R K] {q : Q} {Last : A q → σ → Prop} {s : σ} (known : K s)
    (answered : ∀ s' a, K s' → Last a s') (thrown : ∀ s' e, K s' → Thrown e s') :
    Safe I R G Last Thrown (ask q : Task σ A ε (A q)) s := by
  intro s' meanwhile _ answer
  have still := stable.stays s s' meanwhile known
  cases answer with
  | ok a => exact answered s' a still
  | error e => exact thrown s' e still

instance (a : α) : Keeps I R G K (pure a : Task σ A ε α) := ⟨fun _ known => known⟩

instance (e : ε) : Keeps I R G K (throw e : Task σ A ε α) := ⟨fun _ known => known⟩

instance : Keeps I R G K (state : Task σ A ε σ) := ⟨fun _ known _ => known⟩

instance [stable : Stable R K] (q : Q) : Keeps I R G K (ask q : Task σ A ε (A q)) := by
  refine ⟨fun s known s' meanwhile _ answer => ?_⟩
  cases answer <;> exact stable.stays s s' meanwhile known

theorem keeps_seq {t : Task σ A ε α} {k : α → Task σ A ε β} (first : Keeps I R G K t) (rest : ∀ a, Keeps I R G K (k a)) :
    Keeps I R G K (t >>= k) :=
  ⟨fun s known => safe_bind.mpr ((first.safe s known).mono (fun a s still => (rest a).safe s still) fun _ _ still => still)⟩

theorem keeps_try {t : Task σ A ε α} {handler : ε → Task σ A ε α} (first : Keeps I R G K t)
    (rest : ∀ e, Keeps I R G K (handler e)) : Keeps I R G K (tryCatch t handler) :=
  ⟨fun s known => safe_handle.mpr ((first.safe s known).mono (fun _ _ still => still) fun e s still => (rest e).safe s still)⟩

instance {t : Task σ A ε α} {k : α → Task σ A ε β} [first : Keeps I R G K t] [rest : ∀ a, Keeps I R G K (k a)] :
    Keeps I R G K (t >>= k) := keeps_seq first rest

instance {t : Task σ A ε α} {handler : ε → Task σ A ε α} [first : Keeps I R G K t] [rest : ∀ e, Keeps I R G K (handler e)] :
    Keeps I R G K (tryCatch t handler) := keeps_try first rest

instance {f : α → β} {t : Task σ A ε α} [Keeps I R G K t] : Keeps I R G K (f <$> t) :=
  inferInstanceAs (Keeps I R G K (t >>= fun a => pure (f a)))

instance {c : Prop} [Decidable c] {t u : Task σ A ε α} [yes : Keeps I R G K t] [no : Keeps I R G K u] :
    Keeps I R G K (if c then t else u) := by
  split
  · exact yes
  · exact no

instance {f : α → Task σ A ε Unit} [one : ∀ a, Keeps I R G K (f a)] (xs : List α) : Keeps I R G K (each f xs) := by
  induction xs with
  | nil => exact inferInstanceAs (Keeps I R G K (pure ()))
  | cons a rest ih => exact keeps_seq (one a) fun _ => ih

theorem keeps_change {f : σ → σ} (step : ∀ s, I s → K s → ReflTransGen G s (f s) ∧ K (f s)) :
    Keeps I R G K (change f : Task σ A ε Unit) :=
  ⟨fun s known holds => step s holds known⟩

/-- What follows a look at the state may use that it is as it was seen, until it changes. -/
theorem keeps_look {k : σ → Task σ A ε α} (seen : ∀ s, I s → K s → Safe I R G (fun _ => K) (fun _ => K) (k s) s) :
    Keeps I R G K (state >>= k) := ⟨fun s known holds => seen s holds known⟩

end

end Task

/-! ### All tasks together -/

/-- The state, and what each task has left to do. -/
structure Pool (σ : Type) {Q : Type} (A : Q → Type) (ε ι : Type) where
  state : σ
  tasks : ι → Option (Task σ A ε Unit)

section
variable {σ Q ε ι : Type} {A : Q → Type}

/-- A task takes its turn. -/
def Pool.turn [DecidableEq ι] (pool : Pool σ A ε ι) (i : ι) (t : Task σ A ε Unit) : Pool σ A ε ι :=
  ⟨(t.advance pool.state).1,Function.update pool.tasks i (t.advance pool.state).2⟩

/-- No task is under way. -/
def Pool.idle (s : σ) : Pool σ A ε ι := ⟨s,fun _ => none⟩

/-- One turn: a new task starts where none is under way, or one that waits goes on with any answer. -/
inductive Pool.Turn [DecidableEq ι] (starts : ι → Task σ A ε Unit → σ → Prop) : Pool σ A ε ι → Pool σ A ε ι → Prop
  | start {pool : Pool σ A ε ι} {i : ι} {t : Task σ A ε Unit} (free : pool.tasks i = none) (may : starts i t pool.state) :
      Turn starts pool (pool.turn i t)
  | resume {pool : Pool σ A ε ι} {i : ι} {q : Q} {next : Except ε (A q) → Task σ A ε Unit}
      (waits : pool.tasks i = some (.wait q next)) (answer : Except ε (A q)) :
      Turn starts pool (pool.turn i (next answer))

/-- Any number of turns, in any order. -/
abbrev Pool.Runs [DecidableEq ι] (starts : ι → Task σ A ε Unit → σ → Prop) : Pool σ A ε ι → Pool σ A ε ι → Prop :=
  ReflTransGen (Pool.Turn starts)

/-- Any task that waits gets its answer from a client that is a function. -/
def Pool.reply [DecidableEq ι] (client : ∀ q, Except ε (A q)) (i : ι) (pool : Pool σ A ε ι) : Pool σ A ε ι :=
  match pool.tasks i with
  | some (.wait q next) => pool.turn i (next (client q))
  | _ => pool

theorem Pool.runs_reply [DecidableEq ι] {starts : ι → Task σ A ε Unit → σ → Prop} {first pool : Pool σ A ε ι}
    (runs : Pool.Runs starts first pool) (client : ∀ q, Except ε (A q)) (i : ι) :
    Pool.Runs starts first (pool.reply client i) := by
  unfold Pool.reply
  split
  · rename_i q next waits
    exact runs.tail (.resume waits (client q))
  · exact runs

/-- What has to be shown of tasks that start in states with the invariant `I`. -/
structure Compatible (starts : ι → Task σ A ε Unit → σ → Prop) (R G : ι → σ → σ → Prop) (I : σ → Prop) : Prop where
  refl : ∀ i s, R i s s
  trans : ∀ i a b c, R i a b → R i b c → R i a c
  apart : ∀ {i j s s'}, i ≠ j → I s → G i s s' → R j s s'
  keeps : ∀ {i s s'}, I s → G i s s' → I s'
  safe : ∀ {i t s}, I s → starts i t s → t.Safe I (R i) (G i) (fun _ _ => True) (fun _ _ => True) s

/-- The invariant holds, and all tasks that wait are safe. -/
structure Pool.Good (R G : ι → σ → σ → Prop) (I : σ → Prop) (pool : Pool σ A ε ι) : Prop where
  holds : I pool.state
  safe : ∀ {i t}, pool.tasks i = some t →
    (∃ q next, t = .wait q next) ∧ t.Safe I (R i) (G i) (fun _ _ => True) (fun _ _ => True) pool.state

/-- A change that a task makes while the invariant holds. -/
def Made (G : ι → σ → σ → Prop) (I : σ → Prop) (s s' : σ) : Prop := I s ∧ ∃ i, G i s s'

variable {starts : ι → Task σ A ε Unit → σ → Prop} {R G : ι → σ → σ → Prop} {I : σ → Prop}

theorem Pool.good_idle {s : σ} (holds : I s) : Pool.Good (A := A) (ε := ε) R G I (.idle s) :=
  ⟨holds,fun none => by cases none⟩

/-- The changes of one task keep the invariant, and the others rely on no less. -/
theorem Compatible.changes (compatible : Compatible starts R G I) {i : ι} {s s' : σ} (holds : I s)
    (steps : ReflTransGen (G i) s s') : I s' ∧ (∀ j, i ≠ j → R j s s') ∧ ReflTransGen (Made G I) s s' := by
  induction steps with
  | refl => exact ⟨holds,fun j _ => compatible.refl j s,.refl⟩
  | tail _ step ih =>
    obtain ⟨inside,relied,made⟩ := ih
    exact ⟨compatible.keeps inside step,
      fun j other => compatible.trans j _ _ _ (relied j other) (compatible.apart other inside step),
      made.tail ⟨inside,i,step⟩⟩

variable [DecidableEq ι]

theorem Compatible.turn (compatible : Compatible starts R G I) {pool : Pool σ A ε ι} {i : ι} {t : Task σ A ε Unit}
    (good : pool.Good R G I) (safe : t.Safe I (R i) (G i) (fun _ _ => True) (fun _ _ => True) pool.state) :
    (pool.turn i t).Good R G I ∧ ReflTransGen (Made G I) pool.state (pool.turn i t).state := by
  obtain ⟨steps,left⟩ := safe.advance (fun _ _ holds steps => (compatible.changes holds steps).1) good.holds
  obtain ⟨holds,relied,made⟩ := compatible.changes good.holds steps
  refine ⟨⟨holds,fun {j u} isTask => ?_⟩,made⟩
  by_cases same : j = i
  · subst same
    simp only [Pool.turn,Function.update_self] at isTask
    exact left u isTask
  · simp only [Pool.turn,Function.update_of_ne same] at isTask
    obtain ⟨⟨q,next,rfl⟩,before⟩ := good.safe isTask
    exact ⟨⟨q,next,rfl⟩,before.later (compatible.trans j) (relied j (Ne.symm same))⟩

theorem Compatible.step (compatible : Compatible starts R G I) {pool pool' : Pool σ A ε ι} (good : pool.Good R G I)
    (turn : Pool.Turn starts pool pool') : pool'.Good R G I ∧ ReflTransGen (Made G I) pool.state pool'.state := by
  cases turn with
  | start free may => exact compatible.turn good (compatible.safe good.holds may)
  | resume waits answer =>
    obtain ⟨-,safe⟩ := good.safe waits
    exact compatible.turn good (safe _ (compatible.refl _ _) good.holds answer)

/-- Over any run the tasks stay safe, and all that happens to the state are changes that they may make. -/
theorem Compatible.runs (compatible : Compatible starts R G I) {pool pool' : Pool σ A ε ι} (good : pool.Good R G I)
    (runs : Pool.Runs starts pool pool') : pool'.Good R G I ∧ ReflTransGen (Made G I) pool.state pool'.state := by
  induction runs with
  | refl => exact ⟨good,.refl⟩
  | tail _ turn ih =>
    obtain ⟨still,made⟩ := compatible.step ih.1 turn
    exact ⟨still,ih.2.trans made⟩

end

end Tasks

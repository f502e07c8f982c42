import Mathlib.Data.List.Forall2
import Decent.Lib.Throwing

/-!
What an undo database is for, whatever its states look like: a stack of the
states that sessions started from. Undoing a session, or popping a committed one,
goes back to the top of the stack; merging forgets it. The newest state is the
first element; starting a session drops the oldest beyond the limit.
-/
namespace Snapshots

/-- A stack of snapshots of a state. -/
structure History (σ : Type) where
  stack : List σ
  active_sessions : Nat
  disabled : Bool
  max_size : Nat

variable {σ : Type}

/-- Starts a session; a disabled stack that is not forced records nothing. -/
def start (force_enable : Bool) (now : σ) (u : History σ) : History σ :=
  if u.disabled && !force_enable then u
  else { u with
    disabled := if force_enable then false else u.disabled
    stack := now :: u.stack.take u.max_size
    active_sessions := u.active_sessions + 1 }

/-- The state to go back to, and the stack without its session. A stack that
    becomes empty gets an empty state, whose start is the state gone back to. -/
def undo (u : History σ) : Option (σ × History σ) :=
  if u.disabled || u.active_sessions == 0 then none
  else match u.stack with
    | [] => none
    | start :: older =>
      some (start,{ u with
        stack := if older.isEmpty then [start] else older
        active_sessions := u.active_sessions - 1 })

def commit (u : History σ) : Option (History σ) :=
  if u.active_sessions = 0 then none else some { u with active_sessions := u.active_sessions - 1 }

/-- Joins the innermost session to the one below it. -/
def merge (u : History σ) : Option (History σ) :=
  if u.active_sessions = 0 then none
  else match u.stack with
    | _ :: start :: older => some { u with stack := start :: older, active_sessions := u.active_sessions - 1 }
    | _ => none

/-- Pops the last committed session. -/
def pop_commit (u : History σ) : Option (σ × History σ) :=
  if u.active_sessions ≠ 0 then none
  else match u.stack with
    | [] => none
    | start :: older => some (start,{ u with stack := older, disabled := false })

def disable (u : History σ) : History σ := { u with disabled := true }

def set_max_size (n : Nat) (u : History σ) : History σ := { u with max_size := n }

/-! ### A stack while code runs -/

/-- A stack with states pushed on it that a relation allows after `now`, and the oldest
    states dropped. -/
def Grown (Rel : σ → σ → Prop) (now : σ) (stack stack' : List σ) : Prop :=
  ∃ above n, stack' = above ++ stack.take n ∧ ∀ x ∈ above, Rel now x

section
variable {Rel : σ → σ → Prop}

theorem grown_refl (now : σ) (stack : List σ) : Grown Rel now stack stack := ⟨[],stack.length,by simp,by simp⟩

theorem grown_trans (composes : Throwing.Composes Rel) {now later : σ} {a b c : List σ} (after : Rel now later)
    (first : Grown Rel now a b) (second : Grown Rel later b c) : Grown Rel now a c := by
  obtain ⟨above,n,rfl,near⟩ := first
  obtain ⟨above',m,rfl,near'⟩ := second
  refine ⟨above' ++ above.take m,min (m - above.length) n,?_,?_⟩
  · rw [List.take_append,List.take_take,List.append_assoc]
  · intro x member
    rcases List.mem_append.mp member with inside | inside
    · exact composes.trans after (near' x inside)
    · exact near x (List.mem_of_mem_take inside)

theorem grown_push (composes : Throwing.Composes Rel) (now : σ) (stack : List σ) (n : Nat) :
    Grown Rel now stack (now :: stack.take n) :=
  ⟨[now],n,rfl,by simpa using composes.refl now⟩

/-- The states that code inside a session leaves on the stack: the one its undo goes
    back to, and what was below the session. -/
theorem grown_inside (composes : Throwing.Composes Rel) {now : σ} {stack stack' : List σ} {n : Nat}
    (grown : Grown Rel now (now :: stack.take n) stack') :
    stack' = [] ∨ ∃ x rest, stack' = x :: rest ∧ Rel now x ∧ Grown Rel now stack rest := by
  obtain ⟨above,m,rfl,near⟩ := grown
  cases above with
  | cons x above =>
    refine .inr ⟨x,_,rfl,near x (List.mem_cons_self ..),?_⟩
    have later : Grown Rel now (now :: stack.take n) (above ++ (now :: stack.take n).take m) :=
      ⟨above,m,rfl,fun y member => near y (List.mem_cons_of_mem _ member)⟩
    exact grown_trans composes (composes.refl now) (grown_push composes now stack n) later
  | nil =>
    cases m with
    | zero => exact .inl rfl
    | succ m =>
      refine .inr ⟨now,(stack.take n).take m,rfl,composes.refl now,[],min m n,?_,by simp⟩
      rw [List.take_take,List.nil_append]

/-- The top of a stack that has grown. -/
theorem grown_head {now : σ} {stack stack' : List σ} (grown : Grown Rel now stack stack') :
    ∀ x ∈ stack'.head?, Rel now x ∨ x ∈ stack.head? := by
  obtain ⟨above,n,rfl,near⟩ := grown
  intro x top
  cases above with
  | cons y above =>
    obtain rfl : y = x := by simpa using top
    exact .inl (near y (List.mem_cons_self ..))
  | nil =>
    cases stack with
    | nil => simp at top
    | cons y stack =>
      cases n with
      | zero => simp at top
      | succ n => exact .inr (by simpa using top)

theorem grown_mem {now : σ} {stack stack' : List σ} (grown : Grown Rel now stack stack') :
    ∀ x ∈ stack', Rel now x ∨ x ∈ stack := by
  obtain ⟨above,n,rfl,near⟩ := grown
  intro x member
  rcases List.mem_append.mp member with member | member
  · exact .inl (near x member)
  · exact .inr (List.mem_of_mem_take member)

end

/-! ### Two stacks side by side -/

/-- Stacks that cannot be told apart by closing `depth` sessions: they are related
    state by state, all the way or for more than `depth` states from the top. -/
structure Paired (Same : σ → σ → Prop) (depth : Nat) (u v : History σ) : Prop where
  active_sessions : u.active_sessions = v.active_sessions
  disabled : u.disabled = v.disabled
  max_size : u.max_size = v.max_size
  stack : List.Forall₂ Same u.stack v.stack ∨ ∃ top top' below below',
    u.stack = top ++ below ∧ v.stack = top' ++ below' ∧ List.Forall₂ Same top top' ∧ depth < top.length

section
variable {Same : σ → σ → Prop} {depth : Nat} {u v : History σ}

theorem paired_mono {Same' : σ → σ → Prop} (weaker : ∀ a b, Same a b → Same' a b) (paired : Paired Same depth u v) :
    Paired Same' depth u v := by
  refine ⟨paired.active_sessions,paired.disabled,paired.max_size,?_⟩
  rcases paired.stack with whole | ⟨top,top',below,below',shape,shape',tops,deep⟩
  · exact .inl (whole.imp weaker)
  · exact .inr ⟨top,top',below,below',shape,shape',tops.imp weaker,deep⟩

theorem paired_shallower (paired : Paired Same (depth + 1) u v) : Paired Same depth u v := by
  refine ⟨paired.active_sessions,paired.disabled,paired.max_size,?_⟩
  rcases paired.stack with whole | ⟨top,top',below,below',shape,shape',tops,deep⟩
  · exact .inl whole
  · exact .inr ⟨top,top',below,below',shape,shape',tops,by omega⟩

theorem paired_set_max_size (n : Nat) (paired : Paired Same depth u v) :
    Paired Same depth (set_max_size n u) (set_max_size n v) :=
  ⟨paired.active_sessions,paired.disabled,rfl,paired.stack⟩

theorem paired_disable (paired : Paired Same depth u v) : Paired Same depth (disable u) (disable v) :=
  ⟨paired.active_sessions,rfl,paired.max_size,paired.stack⟩

theorem paired_start {a b : σ} (same : Same a b) {force : Bool} (opens : force = true ∨ u.disabled = false)
    (paired : Paired Same depth u v) : Paired Same (depth + 1) (start force a u) (start force b v) := by
  have started : ∀ (w : History σ) (x : σ), w.disabled = u.disabled → start force x w = { w with
      disabled := if force then false else w.disabled
      stack := x :: w.stack.take w.max_size
      active_sessions := w.active_sessions + 1 } := by
    intro w x off
    rcases opens with rfl | on
    · simp [start]
    · simp [start,off,on]
  rw [started u a rfl,started v b paired.disabled.symm]
  refine ⟨by simp [paired.active_sessions],by simp [paired.disabled],paired.max_size,?_⟩
  simp only [paired.max_size]
  rcases paired.stack with whole | ⟨top,top',below,below',shape,shape',tops,deep⟩
  · exact .inl (.cons same (List.forall₂_take _ whole))
  · have lengths := tops.length_eq
    rw [shape,shape']
    by_cases short : v.max_size ≤ top.length
    · -- The limit cuts both stacks inside the part that is related.
      rw [List.take_append_of_le_length short,List.take_append_of_le_length (by omega)]
      exact .inl (.cons same (List.forall₂_take _ tops))
    · refine .inr ⟨a :: top,b :: top',below.take (v.max_size - top.length),below'.take (v.max_size - top.length),
        ?_,?_,.cons same tops,by simpa using deep⟩
      · rw [List.take_append,List.take_of_length_le (by omega)]; rfl
      · rw [List.take_append,List.take_of_length_le (by omega),lengths]; rfl

theorem paired_commit (paired : Paired Same depth u v) :
    commit u = none ∧ commit v = none ∨
      ∃ u' v', commit u = some u' ∧ commit v = some v' ∧ Paired Same depth u' v' := by
  unfold commit
  rw [paired.active_sessions]
  split
  · exact .inl ⟨rfl,rfl⟩
  · exact .inr ⟨_,_,rfl,rfl,rfl,paired.disabled,paired.max_size,paired.stack⟩

/-- With a session open, both stacks have a first state, and what is below it is related
    with a session less. -/
private theorem paired_cons (paired : Paired Same (depth + 1) u v) :
    u.stack = [] ∧ v.stack = [] ∨ ∃ a b as bs, u.stack = a :: as ∧ v.stack = b :: bs ∧ Same a b ∧
      as.isEmpty = bs.isEmpty ∧ (List.Forall₂ Same as bs ∨ ∃ top top' below below',
        as = top ++ below ∧ bs = top' ++ below' ∧ List.Forall₂ Same top top' ∧ depth < top.length) := by
  rcases paired.stack with whole | ⟨top,top',below,below',shape,shape',tops,deep⟩
  · cases left : u.stack with
    | nil => rw [left] at whole; exact .inl ⟨rfl,List.forall₂_nil_left_iff.mp whole⟩
    | cons a as =>
      rw [left] at whole
      cases right : v.stack with
      | nil => rw [right] at whole; cases whole
      | cons b bs =>
        rw [right] at whole
        obtain ⟨same,rest⟩ := List.forall₂_cons.mp whole
        refine .inr ⟨a,b,as,bs,rfl,rfl,same,?_,.inl rest⟩
        cases rest <;> rfl
  · cases tops with
    | nil => simp at deep
    | @cons a b as bs same rest =>
      have deep' : depth < as.length := by simpa using deep
      refine .inr ⟨a,b,as ++ below,bs ++ below',by rw [shape]; rfl,by rw [shape']; rfl,same,?_,
        .inr ⟨as,bs,below,below',rfl,rfl,rest,deep'⟩⟩
      cases rest with
      | nil => simp at deep'
      | cons => rfl

theorem paired_merge (paired : Paired Same (depth + 1) u v) :
    merge u = none ∧ merge v = none ∨
      ∃ u' v', merge u = some u' ∧ merge v = some v' ∧ Paired Same depth u' v' := by
  unfold merge
  rw [paired.active_sessions]
  split
  · exact .inl ⟨rfl,rfl⟩
  rcases paired_cons paired with ⟨left,right⟩ | ⟨a,b,as,bs,left,right,same,empties,rest⟩
  · simp [left,right]
  · rw [left,right]
    cases as with
    | nil =>
      cases bs with
      | nil => exact .inl ⟨rfl,rfl⟩
      | cons => cases empties
    | cons a' as =>
      cases bs with
      | nil => cases empties
      | cons b' bs => exact .inr ⟨_,_,rfl,rfl,rfl,paired.disabled,paired.max_size,rest⟩

theorem paired_undo (paired : Paired Same (depth + 1) u v) :
    undo u = none ∧ undo v = none ∨
      ∃ a b u' v', undo u = some (a,u') ∧ undo v = some (b,v') ∧ Same a b ∧ Paired Same depth u' v' := by
  unfold undo
  rw [paired.active_sessions,paired.disabled]
  split
  · exact .inl ⟨rfl,rfl⟩
  rcases paired_cons paired with ⟨left,right⟩ | ⟨a,b,as,bs,left,right,same,empties,rest⟩
  · simp [left,right]
  · rw [left,right]
    refine .inr ⟨a,b,_,_,rfl,rfl,same,rfl,rfl,paired.max_size,?_⟩
    show List.Forall₂ Same (if as.isEmpty then [a] else as) (if bs.isEmpty then [b] else bs) ∨ _
    rw [← empties]
    split
    · exact .inl (.cons same .nil)
    · next some' => simpa [some',← empties] using rest

end

end Snapshots

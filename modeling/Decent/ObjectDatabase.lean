import Mathlib.Data.Finmap
import Mathlib.Data.Finset.Basic
import Decent.Lib.Throwing

/-!
The object database of `libraries/db`. Objects of every type live in one finite
map from object ids to values; a schema names the unique keys of every index. A
`Tables` value always satisfies its unique indices, as the containers of
`boost::multi_index` do: an insertion or modification whose key another object
of the index holds fails, and a failed modification erases the object.
-/
namespace Decent.ObjectDatabase

/-- The exceptions that escape the modelled functions. `undefined` stands for
    behaviour the language leaves undefined. -/
inductive Exc
  | assert_exception (what : String)
  | overflow_exception
  | key_not_found_exception
  | unlinkable_block_exception
  | pop_empty_chain
  | undo_database_exception
  | undefined (what : String)
deriving DecidableEq, Repr

/-- The space and the type that select an index. -/
structure IndexId where
  space : Nat
  type : Nat
deriving DecidableEq, Repr

/-- `object_id_type`: an index and the instance number of an object in it. -/
structure ObjectId where
  index : IndexId
  number : Nat
deriving DecidableEq, Repr

/-- The unique keys of every index besides the id. -/
structure Schema (V K : Type) where
  unique : IndexId → List (ObjectId → V → K)

variable {V K : Type}

/-- Two objects of one index that agree on a unique key. -/
def Collides (S : Schema V K) (a : ObjectId) (v : V) (b : ObjectId) (w : V) : Prop :=
  a.index = b.index ∧ ∃ key ∈ S.unique a.index, key a v = key b w

instance [DecidableEq K] (S : Schema V K) (a : ObjectId) (v : V) (b : ObjectId) (w : V) :
    Decidable (Collides S a v b w) :=
  inferInstanceAs (Decidable (_ ∧ _))

/-- The tables of all indices with their next ids. No two stored objects agree
    on a unique key. -/
structure Tables (S : Schema V K) where
  objects : Finmap (fun _ : ObjectId => V)
  next_id : IndexId → Nat
  unique : ∀ a b v w, objects.lookup a = some v → objects.lookup b = some w → Collides S a v b w → a = b

variable {S : Schema V K}

theorem Tables.ext' {T U : Tables S} (objects : ∀ id, T.objects.lookup id = U.objects.lookup id)
    (next : ∀ t, T.next_id t = U.next_id t) : T = U := by
  obtain ⟨To,Tn,_⟩ := T
  obtain ⟨Uo,Un,_⟩ := U
  obtain rfl : To = Uo := Finmap.ext_lookup objects
  obtain rfl : Tn = Un := funext next
  rfl

/-- No stored object other than `id` holds a unique key of `v`. -/
def Accepts (T : Tables S) (id : ObjectId) (v : V) : Prop :=
  ∀ e ∈ T.objects.entries, e.1 ≠ id → ¬ Collides S id v e.1 e.2

instance [DecidableEq K] (T : Tables S) (id : ObjectId) (v : V) : Decidable (Accepts T id v) :=
  Multiset.decidableForallMultiset

theorem accepts_iff (T : Tables S) (id : ObjectId) (v : V) :
    Accepts T id v ↔ ∀ b w, b ≠ id → T.objects.lookup b = some w → ¬ Collides S id v b w := by
  constructor
  · intro accepts b w other stored
    exact accepts ⟨b,w⟩ (Finmap.lookup_eq_some_iff.mp stored) other
  · rintro free ⟨b,w⟩ stored other
    exact free b w other (Finmap.lookup_eq_some_iff.mpr stored)

theorem collides_symm {a b : ObjectId} {v w : V} (collides : Collides S a v b w) : Collides S b w a v := by
  obtain ⟨same,key,member,equal⟩ := collides
  exact ⟨same.symm,key,same ▸ member,equal.symm⟩

/-- The tables with `v` stored under `id`. -/
def Tables.put (T : Tables S) (id : ObjectId) (v : V) (accepts : Accepts T id v) : Tables S where
  objects := T.objects.insert id v
  next_id := T.next_id
  unique := by
    rw [accepts_iff] at accepts
    intro a b x y ha hb collides
    by_cases aIs : a = id
    · subst aIs
      rw [Finmap.lookup_insert,Option.some.injEq] at ha
      subst ha
      by_contra differ
      rw [Finmap.lookup_insert_of_ne _ (Ne.symm differ)] at hb
      exact accepts b y (Ne.symm differ) hb collides
    · rw [Finmap.lookup_insert_of_ne _ aIs] at ha
      by_cases bIs : b = id
      · subst bIs
        rw [Finmap.lookup_insert,Option.some.injEq] at hb
        subst hb
        exact absurd (collides_symm collides) (accepts a x aIs ha)
      · rw [Finmap.lookup_insert_of_ne _ bIs] at hb
        exact T.unique a b x y ha hb collides

/-- The tables without the object `id`. -/
def Tables.drop (T : Tables S) (id : ObjectId) : Tables S where
  objects := T.objects.erase id
  next_id := T.next_id
  unique := by
    intro a b x y ha hb collides
    have stored : ∀ c z, (T.objects.erase id).lookup c = some z → T.objects.lookup c = some z := by
      intro c z found
      by_cases same : c = id
      · subst same; rw [Finmap.lookup_erase] at found; cases found
      · rwa [Finmap.lookup_erase_ne same] at found
    exact T.unique a b x y (stored a x ha) (stored b y hb) collides

/-- The tables with the next id of one index replaced. -/
def Tables.setNext (T : Tables S) (t : IndexId) (n : Nat) : Tables S :=
  { T with next_id := Function.update T.next_id t n }

@[simp] theorem put_lookup (T : Tables S) (id : ObjectId) (v : V) (accepts : Accepts T id v) (b : ObjectId) :
    (T.put id v accepts).objects.lookup b = if b = id then some v else T.objects.lookup b := by
  by_cases same : b = id
  · subst same; simp [Tables.put]
  · simp [Tables.put,same,Finmap.lookup_insert_of_ne]
@[simp] theorem drop_lookup (T : Tables S) (id b : ObjectId) :
    (T.drop id).objects.lookup b = if b = id then none else T.objects.lookup b := by
  by_cases same : b = id
  · subst same; simp [Tables.drop]
  · simp [Tables.drop,same]
@[simp] theorem setNext_objects (T : Tables S) (t : IndexId) (n : Nat) : (T.setNext t n).objects = T.objects := rfl
@[simp] theorem put_next (T : Tables S) (id : ObjectId) (v : V) (accepts : Accepts T id v) :
    (T.put id v accepts).next_id = T.next_id := rfl
@[simp] theorem drop_next (T : Tables S) (id : ObjectId) : (T.drop id).next_id = T.next_id := rfl
@[simp] theorem setNext_next (T : Tables S) (t : IndexId) (n : Nat) :
    (T.setNext t n).next_id = Function.update T.next_id t n := rfl

/-- Code that runs on the tables and may throw; what it wrote before it threw stays. -/
abbrev Run (S : Schema V K) (α : Type) := EStateM Exc (Tables S) α

/-- `object_database::get_object`. -/
def get_object (id : ObjectId) : Run S V := do
  match (← get).objects.lookup id with
  | some v => pure v
  | none => throw (.assert_exception "Unable to find Object")

variable [DecidableEq K]

/-- `generic_index::insert`: the id is a unique key as well. -/
def insert (id : ObjectId) (v : V) : Run S Unit := do
  let T ← get
  if id ∈ T.objects then
    throw (.assert_exception "Could not insert object, most likely a uniqueness constraint was violated")
  else if accepts : Accepts T id v then
    set (T.put id v accepts)
  else
    throw (.assert_exception "Could not insert object, most likely a uniqueness constraint was violated")

/-- `generic_index::create`: the constructor sees the id it is given. -/
def create (t : IndexId) (constructor : ObjectId → V) : Run S ObjectId := do
  let T ← get
  let id : ObjectId := ⟨t,T.next_id t⟩
  let v := constructor id
  if id ∈ T.objects then
    throw (.assert_exception "Could not create object! Most likely a uniqueness constraint is violated.")
  else if accepts : Accepts T id v then
    set ((T.put id v accepts).setNext t (T.next_id t + 1))
    pure id
  else
    throw (.assert_exception "Could not create object! Most likely a uniqueness constraint is violated.")

/-- `generic_index::modify`: the container drops an object whose new value
    collides. -/
def modify (id : ObjectId) (m : V → V) : Run S Unit := do
  let v ← get_object id
  let T ← get
  if accepts : Accepts T id (m v) then
    set (T.put id (m v) accepts)
  else
    set (T.drop id)
    throw (.assert_exception "Could not modify object, most likely a index constraint was violated")

/-- `generic_index::remove`. -/
def remove (id : ObjectId) : Run S Unit := do
  let _ ← get_object id
  set ((← get).drop id)

/-! ### What the operations do when they return -/

omit [DecidableEq K] in
theorem get_object_ok {id : ObjectId} {T U : Tables S} {v : V} :
    (get_object id : Run S V).run T = .ok v U ↔ T.objects.lookup id = some v ∧ U = T := by
  cases found : T.objects.lookup id with
  | none => simp [get_object,found]
  | some w => simp [get_object,found,eq_comm]

theorem insert_ok {id : ObjectId} {v : V} {T U : Tables S} :
    (insert id v : Run S Unit).run T = .ok () U ↔
      id ∉ T.objects ∧ ∃ accepts : Accepts T id v, U = T.put id v accepts := by
  by_cases present : id ∈ T.objects
  · simp [insert,present]
  · by_cases accepts : Accepts T id v
    · simp [insert,present,accepts,eq_comm]
    · simp [insert,present,accepts]

theorem create_ok {t : IndexId} {constructor : ObjectId → V} {T U : Tables S} {id : ObjectId} :
    (create t constructor : Run S ObjectId).run T = .ok id U ↔
      id = ⟨t,T.next_id t⟩ ∧ id ∉ T.objects ∧
        ∃ accepts : Accepts T id (constructor id), U = (T.put id (constructor id) accepts).setNext t (T.next_id t + 1) := by
  by_cases present : (⟨t,T.next_id t⟩ : ObjectId) ∈ T.objects
  · simp only [create,EStateM.run_bind,EStateM.run_get,present,if_true,Throwing.run_throw,reduceCtorEq,false_iff]
    rintro ⟨rfl,absent,_⟩
    exact absent present
  · by_cases accepts : Accepts T ⟨t,T.next_id t⟩ (constructor ⟨t,T.next_id t⟩)
    · simp only [create,present,accepts,EStateM.run_bind,EStateM.run_get,if_false,dif_pos,EStateM.run_set,
        EStateM.run_pure,EStateM.Result.ok.injEq]
      constructor
      · rintro ⟨rfl,rfl⟩; exact ⟨rfl,present,accepts,rfl⟩
      · rintro ⟨rfl,_,_,rfl⟩; exact ⟨rfl,rfl⟩
    · simp only [create,EStateM.run_bind,EStateM.run_get,present,accepts,if_false,dif_neg,not_false_eq_true,
        Throwing.run_throw,reduceCtorEq,false_iff]
      rintro ⟨rfl,_,good,_⟩
      exact accepts good

theorem modify_ok {id : ObjectId} {m : V → V} {T U : Tables S} :
    (modify id m : Run S Unit).run T = .ok () U ↔
      ∃ v, T.objects.lookup id = some v ∧ ∃ accepts : Accepts T id (m v), U = T.put id (m v) accepts := by
  cases found : T.objects.lookup id with
  | none => simp [modify,get_object,found]
  | some v =>
    by_cases accepts : Accepts T id (m v)
    · simp [modify,get_object,found,accepts,eq_comm]
    · simp [modify,get_object,found,accepts]

omit [DecidableEq K] in
theorem remove_ok {id : ObjectId} {T U : Tables S} :
    (remove id : Run S Unit).run T = .ok () U ↔ id ∈ T.objects ∧ U = T.drop id := by
  cases found : T.objects.lookup id with
  | none =>
    have absent : id ∉ T.objects := Finmap.lookup_eq_none.mp found
    simp [remove,get_object,found,absent]
  | some v =>
    have present : id ∈ T.objects := Finmap.mem_of_lookup_eq_some found
    simp [remove,get_object,found,present,eq_comm]

/-! ### What they leave when they throw -/

omit [DecidableEq K] in
theorem get_object_error {id : ObjectId} {T U : Tables S} {e : Exc}
    (ran : (get_object id : Run S V).run T = .error e U) : T.objects.lookup id = none ∧ U = T := by
  cases found : T.objects.lookup id with
  | none =>
    simp only [get_object,EStateM.run_bind,EStateM.run_get,found,Throwing.run_throw,EStateM.Result.error.injEq] at ran
    exact ⟨rfl,ran.2.symm⟩
  | some v => simp [get_object,found] at ran

theorem create_error {t : IndexId} {constructor : ObjectId → V} {T U : Tables S} {e : Exc}
    (ran : (create t constructor : Run S ObjectId).run T = .error e U) : U = T := by
  by_cases present : (⟨t,T.next_id t⟩ : ObjectId) ∈ T.objects
  · simp [create,present] at ran
    exact ran.2.symm
  · by_cases accepts : Accepts T ⟨t,T.next_id t⟩ (constructor ⟨t,T.next_id t⟩)
    · rw [create_ok.mpr ⟨rfl,present,accepts,rfl⟩] at ran
      cases ran
    · simp [create,present,accepts] at ran
      exact ran.2.symm

/-- The container erases what it cannot modify. -/
theorem modify_error {id : ObjectId} {m : V → V} {T U : Tables S} {e : Exc} {v : V}
    (stored : T.objects.lookup id = some v) (ran : (modify id m : Run S Unit).run T = .error e U) :
    ¬ Accepts T id (m v) ∧ U = T.drop id := by
  by_cases accepts : Accepts T id (m v)
  · simp [modify,get_object,stored,accepts] at ran
  · simp [modify,get_object,stored,accepts] at ran
    exact ⟨accepts,ran.2.symm⟩

theorem insert_error {id : ObjectId} {v : V} {T U : Tables S} {e : Exc}
    (ran : (insert id v : Run S Unit).run T = .error e U) : U = T := by
  by_cases present : id ∈ T.objects
  · simp [insert,present] at ran
    exact ran.2.symm
  · by_cases accepts : Accepts T id v
    · simp [insert,present,accepts] at ran
    · simp [insert,present,accepts] at ran
      exact ran.2.symm

end Decent.ObjectDatabase

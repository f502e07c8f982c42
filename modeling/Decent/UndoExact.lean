import Decent.UndoDatabase

/-!
When undoing a session gives back the tables it started from. The invariant is
`Records`; `perform_records` keeps it over one operation, `performAll_records`
over a session, and `replay_iff` says when the replay of the maps succeeds.
-/
namespace Decent.UndoDatabase
open Decent.ObjectDatabase

variable {V K : Type} {S : Schema V K}

/-- The value an object had when the session started, read off its state. -/
def UndoState.original (state : UndoState V) (T : Tables S) (id : ObjectId) : Option V :=
  match state.removed.lookup id with
  | some v => some v
  | none => match state.old_values.lookup id with
    | some v => some v
    | none => if id ∈ state.new_ids then none else T.objects.lookup id

/-- The state of a session that led from the tables `start` to the tables `T`. -/
structure Records (start T : Tables S) (state : UndoState V) : Prop where
  object : ∀ id, start.objects.lookup id = state.original T id
  next : ∀ t, start.next_id t = (state.old_index_next_ids.lookup t).getD (T.next_id t)
  old_live : ∀ id ∈ state.old_values, id ∈ T.objects ∧ id ∉ state.new_ids ∧ id ∉ state.removed
  new_live : ∀ id ∈ state.new_ids, id ∈ T.objects
  removed_live : ∀ id ∈ state.removed, id ∈ T.objects → id ∈ state.new_ids

theorem records_fresh (T : Tables S) : Records T T .fresh where
  object id := by simp [UndoState.original,UndoState.fresh]
  next t := by simp [UndoState.fresh]
  old_live id member := absurd member Finmap.notMem_empty
  new_live id member := by simp [UndoState.fresh] at member
  removed_live id member := absurd member Finmap.notMem_empty

private theorem lookup_none {α : Type} [DecidableEq α] {β : Type} {s : Finmap (fun _ : α => β)} {a : α}
    (absent : a ∉ s) : s.lookup a = none := Finmap.lookup_eq_none.mpr absent

private theorem mem_put {T : Tables S} {id : ObjectId} {v : V} (accepts : Accepts T id v) {b : ObjectId} :
    b ∈ (T.put id v accepts).objects ↔ b = id ∨ b ∈ T.objects := by
  simp [Tables.put]
private theorem mem_drop {T : Tables S} {id b : ObjectId} :
    b ∈ (T.drop id).objects ↔ b ≠ id ∧ b ∈ T.objects := by
  simp [Tables.drop]

/-! ### One operation -/

/-- The state that `on_create` leaves. -/
private theorem records_create {start T : Tables S} {state : UndoState V} (records : Records start T state)
    {id : ObjectId} {v : V} (accepts : Accepts T id v) (number : id.number = T.next_id id.index)
    (absent : id ∉ T.objects) :
    Records start ((T.put id v accepts).setNext id.index (T.next_id id.index + 1))
      { state with
        old_index_next_ids :=
          if id.index ∈ state.old_index_next_ids then state.old_index_next_ids
          else state.old_index_next_ids.insert id.index id.number
        new_ids := insert id state.new_ids } where
  object b := by
    rw [records.object b]
    simp only [UndoState.original,setNext_objects,put_lookup,Finset.mem_insert]
    by_cases same : b = id
    · -- The new id was free, so it stood neither in `old_values` nor in `new_ids`.
      subst same
      have noOld : b ∉ state.old_values := fun old => absent (records.old_live b old).1
      have noNew : b ∉ state.new_ids := fun new => absent (records.new_live b new)
      simp [lookup_none noOld,noNew,lookup_none absent]
    · simp [same]
  next t := by
    rw [records.next t]
    by_cases known : id.index ∈ state.old_index_next_ids
    · simp only [known,if_true,setNext_next,put_next]
      by_cases same : t = id.index
      · subst same
        obtain ⟨n,found⟩ := Finmap.mem_iff.mp known
        simp [found]
      · simp [same]
    · simp only [known,if_false,setNext_next,put_next]
      by_cases same : t = id.index
      · subst same
        simp [lookup_none known,number]
      · rw [Finmap.lookup_insert_of_ne _ same]
        simp [same]
  old_live b old := by
    obtain ⟨live,noNew,noRemoved⟩ := records.old_live b old
    have other : b ≠ id := fun same => absent (same ▸ live)
    exact ⟨(mem_put accepts).mpr (.inr live),by simp [other,noNew],noRemoved⟩
  new_live b new := by
    rcases Finset.mem_insert.mp new with same | new
    · exact (mem_put accepts).mpr (.inl same)
    · exact (mem_put accepts).mpr (.inr (records.new_live b new))
  removed_live b gone live := by
    rcases (mem_put accepts).mp live with same | live
    · exact Finset.mem_insert.mpr (.inl same)
    · exact Finset.mem_insert.mpr (.inr (records.removed_live b gone live))

/-- A new value for an object whose old value is saved, or that the session
    created, needs no entry. -/
private theorem records_overwrite {start T : Tables S} {state : UndoState V} (records : Records start T state)
    {id : ObjectId} {w : V} (live : id ∈ T.objects) (accepts : Accepts T id w)
    (covered : id ∈ state.new_ids ∨ id ∈ state.old_values) : Records start (T.put id w accepts) state := by
  have sameLive : ∀ b, b ∈ (T.put id w accepts).objects ↔ b ∈ T.objects := by
    intro b
    rw [mem_put]
    exact ⟨fun now => now.elim (fun same => same ▸ live) (fun now => now),.inr⟩
  refine ⟨fun b => ?_,records.next,?_,?_,?_⟩
  · rw [records.object b]
    by_cases same : b = id
    · subst same
      rcases covered with new | old
      · simp [UndoState.original,new]
      · obtain ⟨x,found⟩ := Finmap.mem_iff.mp old
        simp [UndoState.original,found]
    · simp [UndoState.original,same]
  · intro b old
    exact ⟨(sameLive b).mpr (records.old_live b old).1,(records.old_live b old).2⟩
  · intro b new
    exact (sameLive b).mpr (records.new_live b new)
  · intro b gone now
    exact records.removed_live b gone ((sameLive b).mp now)

private theorem records_modify {start T : Tables S} {state : UndoState V} (records : Records start T state)
    {id : ObjectId} {v w : V} (stored : T.objects.lookup id = some v) (accepts : Accepts T id w) :
    Records start (T.put id w accepts)
      (if id ∈ state.new_ids then state
       else if id ∈ state.old_values then state
       else { state with old_values := state.old_values.insert id v }) := by
  have live : id ∈ T.objects := Finmap.mem_of_lookup_eq_some stored
  by_cases new : id ∈ state.new_ids
  · rw [if_pos new]
    exact records_overwrite records live accepts (.inl new)
  rw [if_neg new]
  by_cases old : id ∈ state.old_values
  · rw [if_pos old]
    exact records_overwrite records live accepts (.inr old)
  rw [if_neg old]
  have kept : id ∉ state.removed := fun gone => new (records.removed_live id gone live)
  -- Saving the old value first changes nothing that the state says.
  have saved : Records start T { state with old_values := state.old_values.insert id v } := by
    refine ⟨fun b => ?_,records.next,?_,records.new_live,records.removed_live⟩
    · rw [records.object b]
      by_cases same : b = id
      · subst same
        simp [UndoState.original,lookup_none kept,lookup_none old,new,stored]
      · simp [UndoState.original,same,Finmap.lookup_insert_of_ne]
    · intro b member
      rcases Finmap.mem_insert.mp member with same | member
      · subst same; exact ⟨live,new,kept⟩
      · exact records.old_live b member
  exact records_overwrite saved live accepts (.inr (Finmap.mem_insert.mpr (.inl rfl)))

/-- Dropping an object whose start value the state now keeps in `removed`. -/
private theorem records_gone {start T : Tables S} {state : UndoState V} (records : Records start T state)
    {id : ObjectId} {x : V} (new : id ∉ state.new_ids) (kept : id ∉ state.removed)
    (original : state.original T id = some x) :
    Records start (T.drop id)
      { state with removed := state.removed.insert id x, old_values := state.old_values.erase id } := by
  refine ⟨fun b => ?_,records.next,?_,?_,?_⟩
  · rw [records.object b]
    by_cases same : b = id
    · subst same; rw [original]; simp [UndoState.original]
    · simp [UndoState.original,same,Finmap.lookup_insert_of_ne,Finmap.lookup_erase_ne]
  · intro b member
    obtain ⟨other,bOld⟩ := Finmap.mem_erase.mp member
    obtain ⟨bLive,bNew,bKept⟩ := records.old_live b bOld
    refine ⟨mem_drop.mpr ⟨other,bLive⟩,bNew,fun gone => ?_⟩
    rcases Finmap.mem_insert.mp gone with same | gone
    · exact other same
    · exact bKept gone
  · intro b bNew
    have other : b ≠ id := fun same => new (same ▸ bNew)
    exact mem_drop.mpr ⟨other,records.new_live b bNew⟩
  · intro b gone now
    obtain ⟨other,bLive⟩ := mem_drop.mp now
    rcases Finmap.mem_insert.mp gone with same | gone
    · exact absurd same other
    · exact records.removed_live b gone bLive

private theorem records_remove {start T : Tables S} {state : UndoState V} (records : Records start T state)
    {id : ObjectId} {v : V} (stored : T.objects.lookup id = some v) :
    Records start (T.drop id)
      (if id ∈ state.new_ids then { state with new_ids := state.new_ids.erase id }
       else match state.old_values.lookup id with
         | some old => { state with removed := state.removed.insert id old, old_values := state.old_values.erase id }
         | none => if id ∈ state.removed then state else { state with removed := state.removed.insert id v }) := by
  have live : id ∈ T.objects := Finmap.mem_of_lookup_eq_some stored
  by_cases new : id ∈ state.new_ids
  · rw [if_pos new]
    have noOld : id ∉ state.old_values := fun old => (records.old_live id old).2.1 new
    refine ⟨fun b => ?_,records.next,?_,?_,?_⟩
    · rw [records.object b]
      by_cases same : b = id
      · subst same; simp [UndoState.original,lookup_none noOld,new]
      · simp [UndoState.original,same]
    · intro b old
      obtain ⟨bLive,bNew,bKept⟩ := records.old_live b old
      have other : b ≠ id := fun same => noOld (same ▸ old)
      exact ⟨mem_drop.mpr ⟨other,bLive⟩,fun member => bNew (Finset.mem_of_mem_erase member),bKept⟩
    · intro b member
      exact mem_drop.mpr ⟨Finset.ne_of_mem_erase member,records.new_live b (Finset.mem_of_mem_erase member)⟩
    · intro b gone now
      obtain ⟨other,bLive⟩ := mem_drop.mp now
      exact Finset.mem_erase.mpr ⟨other,records.removed_live b gone bLive⟩
  rw [if_neg new]
  have kept : id ∉ state.removed := fun gone => new (records.removed_live id gone live)
  cases old : state.old_values.lookup id with
  | some x =>
    exact records_gone records new kept (by simp [UndoState.original,lookup_none kept,old])
  | none =>
    have unsaved : state.old_values.erase id = state.old_values := by
      apply Finmap.ext_lookup
      intro b
      by_cases same : b = id
      · subst same; rw [Finmap.lookup_erase,old]
      · rw [Finmap.lookup_erase_ne same]
    have gone := records_gone records (x := v) new kept
      (by simp [UndoState.original,lookup_none kept,old,new,stored])
    rw [unsaved] at gone
    simpa only [kept,if_false] using gone

/-! ### A session -/

theorem onTables_ok {α : Type} {x : Run S α} {a : α} {D D' : Database S} :
    (onTables x).run D = .ok a D' ↔ ∃ T, x.run D.tables = .ok a T ∧ D' = { D with tables := T } := by
  show onTables x D = _ ↔ _
  unfold onTables
  cases ran : x.run D.tables with
  | ok b T =>
    simp only [EStateM.Result.ok.injEq]
    constructor
    · rintro ⟨rfl,rfl⟩; exact ⟨T,⟨rfl,rfl⟩,rfl⟩
    · rintro ⟨_,⟨rfl,rfl⟩,rfl⟩; exact ⟨rfl,rfl⟩
  | error e T => simp

theorem record_enabled {D : Database S} {state : UndoState V} {older : List (UndoState V)}
    (enabled : D.disabled = false) (top : D.stack = state :: older) (f : UndoState V → UndoState V) (T : Tables S) :
    record f { D with tables := T } = { D with tables := T, stack := f state :: older } := by
  simp [record,enabled,top]

theorem record_disabled {D : Database S} (off : D.disabled = true) (f : UndoState V → UndoState V) (T : Tables S) :
    record f { D with tables := T } = { D with tables := T } := by
  simp [record,off]

section
variable [DecidableEq K]

/-- What one operation does to the tables and to the state of its session. -/
theorem perform_records {start : Tables S} {D D' : Database S} {state : UndoState V} {older : List (UndoState V)}
    {op : Op V} (enabled : D.disabled = false) (top : D.stack = state :: older) (records : Records start D.tables state)
    (ran : (perform op).run D = .ok () D') :
    ∃ state', D' = { D with tables := D'.tables, stack := state' :: older } ∧ Records start D'.tables state' := by
  cases op with
  | create t constructor =>
    simp only [perform,create,Throwing.run_bind_ok,onTables_ok,create_ok] at ran
    obtain ⟨_,_,⟨id,_,⟨T,⟨named,absent,accepts,rfl⟩,rfl⟩,recorded⟩,done⟩ := ran
    cases recorded
    cases done
    rw [on_create,record_enabled enabled top]
    subst named
    exact ⟨_,rfl,records_create records accepts rfl absent⟩
  | modify id m =>
    simp only [perform,modify,Throwing.run_bind_ok,onTables_ok,get_object_ok] at ran
    obtain ⟨v,_,⟨_,⟨stored,rfl⟩,rfl⟩,_,_,recorded,T,changed,rfl⟩ := ran
    cases recorded
    rw [on_modify,record_enabled enabled top] at changed ⊢
    obtain ⟨w,now,accepts,rfl⟩ := modify_ok.mp changed
    obtain rfl : v = w := Option.some.inj (stored.symm.trans now)
    exact ⟨_,rfl,records_modify records stored accepts⟩
  | remove id =>
    simp only [perform,remove,Throwing.run_bind_ok,onTables_ok,get_object_ok] at ran
    obtain ⟨v,_,⟨_,⟨stored,rfl⟩,rfl⟩,_,_,recorded,T,changed,rfl⟩ := ran
    cases recorded
    rw [on_remove,record_enabled enabled top] at changed ⊢
    obtain ⟨_,rfl⟩ := remove_ok.mp changed
    exact ⟨_,rfl,records_remove records stored⟩

theorem performAll_records {start : Tables S} (ops : List (Op V)) {D D' : Database S} {state : UndoState V}
    {older : List (UndoState V)} (enabled : D.disabled = false) (top : D.stack = state :: older)
    (records : Records start D.tables state) (ran : (performAll ops).run D = .ok () D') :
    ∃ state', D' = { D with tables := D'.tables, stack := state' :: older } ∧ Records start D'.tables state' := by
  induction ops generalizing D state with
  | nil =>
    cases ran
    exact ⟨state,by rw [← top],records⟩
  | cons op rest ih =>
    obtain ⟨_,M,first,later⟩ := Throwing.run_bind_ok.mp ran
    obtain ⟨middle,shape,kept⟩ := perform_records enabled top records first
    have stillEnabled : M.disabled = false := by rw [shape]; exact enabled
    have newTop : M.stack = middle :: older := by rw [shape]
    obtain ⟨last,ends,holds⟩ := ih stillEnabled newTop kept later
    refine ⟨last,?_,holds⟩
    rw [ends,shape]

/-- With the undo database disabled nothing is recorded. -/
theorem performAll_disabled (ops : List (Op V)) {D D' : Database S} (off : D.disabled = true)
    (ran : (performAll ops).run D = .ok () D') : D' = { D with tables := D'.tables } := by
  induction ops generalizing D with
  | nil => cases ran; rfl
  | cons op rest ih =>
    obtain ⟨_,M,first,later⟩ := Throwing.run_bind_ok.mp ran
    have shape : M = { D with tables := M.tables } := by
      cases op with
      | create t constructor =>
        simp only [perform,create,Throwing.run_bind_ok,onTables_ok] at first
        obtain ⟨_,_,⟨id,_,⟨T,_,rfl⟩,recorded⟩,done⟩ := first
        cases recorded
        cases done
        rw [on_create,record_disabled off]
      | modify id m =>
        simp only [perform,modify,Throwing.run_bind_ok,onTables_ok] at first
        obtain ⟨v,_,⟨_,_,rfl⟩,_,_,recorded,T,_,rfl⟩ := first
        cases recorded
        rw [on_modify,record_disabled off]
      | remove id =>
        simp only [perform,remove,Throwing.run_bind_ok,onTables_ok] at first
        obtain ⟨v,_,⟨_,_,rfl⟩,_,_,recorded,T,_,rfl⟩ := first
        cases recorded
        rw [on_remove,record_disabled off]
    have stillOff : M.disabled = true := by rw [shape]; exact off
    rw [ih stillOff later,shape]

end

/-! ### The replay -/

/-- The value `a` had at the start of a session agrees on a unique key with the
    value `b` has at its end. -/
def Clash (start now : Tables S) (a b : ObjectId) : Prop :=
  ∃ v w, start.objects.lookup a = some v ∧ now.objects.lookup b = some w ∧ Collides S a v b w

/-- No modified object finds a key of its old value held by a created object, or
    by a modified object that the replay reaches later. -/
def KeysFree (start now : Tables S) (order : Order) : Prop :=
  order.old_values.Pairwise (fun a b => ¬ Clash start now a b) ∧
    ∀ a ∈ order.old_values, ∀ b ∈ order.new_ids, ¬ Clash start now a b

/-- The tables while modified objects get their old values back. -/
private structure Mixed (start now : Tables S) (done : ObjectId → Prop) (U : Tables S) : Prop where
  back : ∀ id, done id → U.objects.lookup id = start.objects.lookup id
  same : ∀ id, ¬ done id → U.objects.lookup id = now.objects.lookup id
  next : U.next_id = now.next_id

section
variable [DecidableEq K] {start now : Tables S} {state : UndoState V}

omit [DecidableEq K] in
/-- An object that no map of the state names is as it was. -/
private theorem untouched (records : Records start now state) {id : ObjectId} (old : id ∉ state.old_values)
    (new : id ∉ state.new_ids) (gone : id ∉ state.removed) : start.objects.lookup id = now.objects.lookup id := by
  rw [records.object id]
  simp [UndoState.original,lookup_none old,lookup_none gone,new]

omit [DecidableEq K] in
private theorem original_old (records : Records start now state) {id : ObjectId} {v : V}
    (saved : state.old_values.lookup id = some v) : start.objects.lookup id = some v := by
  have kept := (records.old_live id (Finmap.mem_of_lookup_eq_some saved)).2.2
  rw [records.object id]
  simp [UndoState.original,lookup_none kept,saved]

omit [DecidableEq K] in
/-- When the old value of `a` is accepted in the middle of the restoring loop. -/
private theorem accepts_mixed (records : Records start now state) {done : ObjectId → Prop} {U : Tables S}
    (mixed : Mixed start now done U) {a : ObjectId} {rest : List ObjectId} {v : V}
    (saved : state.old_values.lookup a = some v) (todo : ∀ b ∈ rest, ¬ done b ∧ b ≠ a)
    (all : ∀ b, b ∈ state.old_values ↔ done b ∨ b = a ∨ b ∈ rest) :
    Accepts U a v ↔ (∀ b ∈ rest, ¬ Clash start now a b) ∧ ∀ b ∈ state.new_ids, ¬ Clash start now a b := by
  have was := original_old records saved
  have noNew : a ∉ state.new_ids := (records.old_live a (Finmap.mem_of_lookup_eq_some saved)).2.1
  rw [accepts_iff]
  constructor
  · intro free
    have apart : ∀ b, ¬ done b → b ≠ a → ¬ Clash start now a b := by
      rintro b notDone other ⟨x,w,hx,hw,collides⟩
      rw [was,Option.some.injEq] at hx
      subst hx
      exact free b w other (by rw [mixed.same b notDone,hw]) collides
    constructor
    · intro b member
      exact apart b (todo b member).1 (todo b member).2
    · intro b new
      refine apart b (fun isDone => ?_) (fun same => noNew (same ▸ new))
      exact (records.old_live b ((all b).mpr (.inl isDone))).2.1 new
  · rintro ⟨later,created⟩ b w other stored collides
    by_cases isDone : done b
    · rw [mixed.back b isDone] at stored
      exact other (start.unique a b v w was stored collides).symm
    rw [mixed.same b isDone] at stored
    by_cases new : b ∈ state.new_ids
    · exact created b new ⟨v,w,was,stored,collides⟩
    by_cases old : b ∈ state.old_values
    · rcases (all b).mp old with h | h | h
      · exact isDone h
      · exact other h
      · exact later b h ⟨v,w,was,stored,collides⟩
    -- What no map names is as it was, and the start tables had no collision.
    have gone : b ∉ state.removed := fun gone =>
      new (records.removed_live b gone (Finmap.mem_of_lookup_eq_some stored))
    rw [← untouched records old new gone] at stored
    exact other (start.unique a b v w was stored collides).symm

private theorem restore_values_spec (records : Records start now state) (todo : List ObjectId)
    {done : ObjectId → Prop} {U : Tables S} (mixed : Mixed start now done U) (distinct : todo.Nodup)
    (disjoint : ∀ b ∈ todo, ¬ done b) (all : ∀ b, b ∈ state.old_values ↔ done b ∨ b ∈ todo) :
    (∀ W, (restore_values state todo).run U = .ok () W → Mixed start now (· ∈ state.old_values) W) ∧
      ((∃ W, (restore_values state todo).run U = .ok () W) ↔
        todo.Pairwise (fun a b => ¬ Clash start now a b) ∧
          ∀ a ∈ todo, ∀ b ∈ state.new_ids, ¬ Clash start now a b) := by
  induction todo generalizing done U with
  | nil =>
    simp only [List.not_mem_nil,or_false] at all
    obtain rfl : (· ∈ state.old_values) = done := funext fun b => propext (all b)
    refine ⟨fun W ran => ?_,by simp [restore_values]⟩
    cases ran
    exact mixed
  | cons a rest ih =>
    obtain ⟨v,saved⟩ := Finmap.mem_iff.mp ((all a).mpr (.inr (List.mem_cons_self ..)))
    obtain ⟨fresh,distinct⟩ := List.nodup_cons.mp distinct
    have pending : ¬ done a := disjoint a (List.mem_cons_self ..)
    have live : a ∈ U.objects := by
      obtain ⟨w,stored⟩ := Finmap.mem_iff.mp (records.old_live a (Finmap.mem_of_lookup_eq_some saved)).1
      exact Finmap.mem_of_lookup_eq_some ((mixed.same a pending).trans stored)
    obtain ⟨current,stored⟩ := Finmap.mem_iff.mp live
    have verdict : Accepts U a v ↔ _ := accepts_mixed records mixed saved
      (fun b member => ⟨disjoint b (List.mem_cons_of_mem _ member),fun same => fresh (same ▸ member)⟩)
      (fun b => by rw [all b,List.mem_cons])
    -- After the step `a` holds its old value as well.
    have step : ∀ accepts : Accepts U a v, Mixed start now (fun b => b = a ∨ done b) (U.put a v accepts) := by
      intro accepts
      refine ⟨?_,?_,mixed.next⟩
      · rintro b isDone
        rw [put_lookup]
        by_cases same : b = a
        · subst same; rw [if_pos rfl,original_old records saved]
        · rw [if_neg same,mixed.back b (isDone.resolve_left same)]
      · rintro b notDone
        rw [put_lookup,if_neg (fun same => notDone (.inl same)),mixed.same b (fun isDone => notDone (.inr isDone))]
    have later : ∀ accepts : Accepts U a v, _ ∧ _ := fun accepts => ih (step accepts) distinct
      (by
        rintro b member (same | isDone)
        · exact fresh (same ▸ member)
        · exact disjoint b (List.mem_cons_of_mem _ member) isDone)
      (fun b => by rw [all b,List.mem_cons]; tauto)
    have unfolds : ∀ W, (restore_values state (a :: rest)).run U = .ok () W ↔
        ∃ accepts : Accepts U a v, (restore_values state rest).run (U.put a v accepts) = .ok () W := by
      intro W
      simp only [restore_values,saved,Throwing.run_bind_ok]
      constructor
      · rintro ⟨⟨⟩,_,changed,ran⟩
        obtain ⟨_,_,accepts,rfl⟩ := modify_ok.mp changed
        exact ⟨accepts,ran⟩
      · rintro ⟨accepts,ran⟩
        exact ⟨(),_,modify_ok.mpr ⟨current,stored,accepts,rfl⟩,ran⟩
    simp only [unfolds,List.pairwise_cons,List.forall_mem_cons]
    refine ⟨?_,?_,?_⟩
    · rintro W ⟨accepts,ran⟩
      exact (later accepts).1 W ran
    · rintro ⟨W,accepts,ran⟩
      obtain ⟨pairs,created⟩ := (later accepts).2.mp ⟨W,ran⟩
      exact ⟨⟨(verdict.mp accepts).1,pairs⟩,(verdict.mp accepts).2,created⟩
    · rintro ⟨⟨first,pairs⟩,firstNew,created⟩
      have accepts := verdict.mpr ⟨first,firstNew⟩
      obtain ⟨W,ran⟩ := (later accepts).2.mpr ⟨pairs,created⟩
      exact ⟨W,accepts,ran⟩

omit [DecidableEq K] in
private theorem remove_new_ok (todo : List ObjectId) {U : Tables S} (distinct : todo.Nodup)
    (live : ∀ b ∈ todo, b ∈ U.objects) :
    ∃ W, (remove_new todo).run U = .ok () W ∧ W.next_id = U.next_id ∧
      ∀ b, W.objects.lookup b = if b ∈ todo then none else U.objects.lookup b := by
  induction todo generalizing U with
  | nil => exact ⟨U,rfl,rfl,by simp⟩
  | cons a rest ih =>
    obtain ⟨fresh,distinct⟩ := List.nodup_cons.mp distinct
    obtain ⟨aLive,restLive⟩ := List.forall_mem_cons.mp live
    obtain ⟨W,ran,next,found⟩ := ih (U := U.drop a) distinct
      (fun b member => mem_drop.mpr ⟨fun same => fresh (same ▸ member),restLive b member⟩)
    refine ⟨W,Throwing.run_bind_ok.mpr ⟨(),_,remove_ok.mpr ⟨aLive,rfl⟩,ran⟩,next,fun b => ?_⟩
    rw [found b,drop_lookup]
    by_cases same : b = a
    · simp [same]
    · simp [same]

omit [DecidableEq K] in
private theorem reset_next_ids_ok (state : UndoState V) (todo : List IndexId) (U : Tables S) :
    ∃ W, (reset_next_ids state todo).run U = .ok () W ∧ W.objects = U.objects ∧
      ∀ t, W.next_id t = if t ∈ todo then (state.old_index_next_ids.lookup t).getD (U.next_id t) else U.next_id t := by
  induction todo generalizing U with
  | nil => exact ⟨U,rfl,rfl,by simp⟩
  | cons a rest ih =>
    cases known : state.old_index_next_ids.lookup a with
    | none =>
      obtain ⟨W,ran,objects,next⟩ := ih U
      refine ⟨W,by simpa [reset_next_ids,known] using ran,objects,fun t => ?_⟩
      rw [next t]
      by_cases same : t = a
      · subst same; simp [known]
      · simp [same]
    | some n =>
      obtain ⟨W,ran,objects,next⟩ := ih (U.setNext a n)
      refine ⟨W,by simp only [reset_next_ids,known]; exact ran,objects,fun t => ?_⟩
      rw [next t]
      by_cases same : t = a
      · subst same; simp [known]
      · simp [same]

/-- Putting back objects of `start` into tables that hold nothing else always
    succeeds. -/
private theorem insert_removed_ok (todo : List ObjectId) {U : Tables S} (distinct : todo.Nodup)
    (part : ∀ b w, U.objects.lookup b = some w → start.objects.lookup b = some w)
    (absent : ∀ b ∈ todo, b ∉ U.objects)
    (original : ∀ b ∈ todo, ∃ v, state.removed.lookup b = some v ∧ start.objects.lookup b = some v) :
    ∃ W, (insert_removed state todo).run U = .ok () W ∧ W.next_id = U.next_id ∧
      ∀ b, W.objects.lookup b = if b ∈ todo then start.objects.lookup b else U.objects.lookup b := by
  induction todo generalizing U with
  | nil => exact ⟨U,rfl,rfl,by simp⟩
  | cons a rest ih =>
    obtain ⟨fresh,distinct⟩ := List.nodup_cons.mp distinct
    obtain ⟨aAbsent,restAbsent⟩ := List.forall_mem_cons.mp absent
    obtain ⟨⟨v,saved,was⟩,restOriginal⟩ := List.forall_mem_cons.mp original
    have accepts : Accepts U a v := by
      rw [accepts_iff]
      intro b w other stored collides
      exact other (start.unique a b v w was (part b w stored) collides).symm
    obtain ⟨W,ran,next,found⟩ := ih (U := U.put a v accepts) distinct
      (by
        intro b w stored
        rw [put_lookup] at stored
        by_cases same : b = a
        · rw [if_pos same] at stored; rw [same,was,← stored]
        · rw [if_neg same] at stored; exact part b w stored)
      (by
        intro b member now
        rcases (mem_put accepts).mp now with same | now
        · exact fresh (same ▸ member)
        · exact restAbsent b member now)
      restOriginal
    refine ⟨W,?_,next,fun b => ?_⟩
    · simp only [insert_removed,saved]
      exact Throwing.run_bind_ok.mpr ⟨(),_,insert_ok.mpr ⟨aAbsent,accepts,rfl⟩,ran⟩
    · rw [found b,put_lookup]
      by_cases same : b = a
      · subst same; simp [fresh,was]
      · simp [same]

/-- Once the modified objects are back, the rest of the replay gives the start. -/
private theorem replay_rest (records : Records start now state) {order : Order} (enumerates : order.Enumerates state)
    {U : Tables S} (mixed : Mixed start now (· ∈ state.old_values) U) :
    (do remove_new order.new_ids
        reset_next_ids state order.old_index_next_ids
        insert_removed state order.removed : Run S Unit).run U = .ok () start := by
  have newLive : ∀ b ∈ order.new_ids, b ∈ U.objects := by
    intro b member
    have new := (enumerates.new_mem b).mp member
    have notOld : b ∉ state.old_values := fun old => (records.old_live b old).2.1 new
    obtain ⟨w,stored⟩ := Finmap.mem_iff.mp (records.new_live b new)
    exact Finmap.mem_of_lookup_eq_some ((mixed.same b notOld).trans stored)
  obtain ⟨A,ranA,nextA,foundA⟩ := remove_new_ok order.new_ids enumerates.new_nodup newLive
  obtain ⟨B,ranB,objectsB,nextB⟩ := reset_next_ids_ok state order.old_index_next_ids A
  have gone : ∀ b ∈ order.removed, ∃ v, state.removed.lookup b = some v ∧ start.objects.lookup b = some v := by
    intro b member
    obtain ⟨v,saved⟩ := Finmap.mem_iff.mp ((enumerates.removed_mem b).mp member)
    exact ⟨v,saved,by rw [records.object b]; simp [UndoState.original,saved]⟩
  have value : ∀ b, B.objects.lookup b =
      if b ∈ state.new_ids then none else if b ∈ state.old_values then start.objects.lookup b
      else now.objects.lookup b := by
    intro b
    rw [objectsB,foundA b]
    by_cases new : b ∈ state.new_ids
    · rw [if_pos ((enumerates.new_mem b).mpr new),if_pos new]
    rw [if_neg (fun member => new ((enumerates.new_mem b).mp member)),if_neg new]
    by_cases old : b ∈ state.old_values
    · rw [if_pos old,mixed.back b old]
    · rw [if_neg old,mixed.same b old]
  have dead : ∀ b ∈ state.removed, B.objects.lookup b = none := by
    intro b member
    rw [value b]
    by_cases new : b ∈ state.new_ids
    · rw [if_pos new]
    have notOld : b ∉ state.old_values := fun old => (records.old_live b old).2.2 member
    have notLive : b ∉ now.objects := fun live => new (records.removed_live b member live)
    rw [if_neg new,if_neg notOld,lookup_none notLive]
  have alive : ∀ b, b ∉ state.removed → B.objects.lookup b = start.objects.lookup b := by
    intro b kept
    rw [value b]
    by_cases new : b ∈ state.new_ids
    · have notOld : b ∉ state.old_values := fun old => (records.old_live b old).2.1 new
      rw [if_pos new,records.object b]
      simp [UndoState.original,lookup_none kept,lookup_none notOld,new]
    · by_cases old : b ∈ state.old_values
      · rw [if_neg new,if_pos old]
      · rw [if_neg new,if_neg old,untouched records old new kept]
  obtain ⟨C,ranC,nextC,foundC⟩ := insert_removed_ok order.removed (U := B)
    enumerates.removed_nodup
    (by
      intro b w stored
      by_cases member : b ∈ state.removed
      · rw [dead b member] at stored; cases stored
      · rw [← alive b member,stored])
    (fun b member => Finmap.lookup_eq_none.mp (dead b ((enumerates.removed_mem b).mp member))) gone
  have same : C = start := by
    apply Tables.ext'
    · intro b
      rw [foundC b]
      by_cases member : b ∈ order.removed
      · rw [if_pos member]
      · rw [if_neg member,alive b (fun inside => member ((enumerates.removed_mem b).mpr inside))]
    · intro t
      rw [nextC,nextB t,records.next t,nextA,mixed.next]
      by_cases member : t ∈ order.old_index_next_ids
      · rw [if_pos member]
      · rw [if_neg member,lookup_none (fun inside => member ((enumerates.next_mem t).mpr inside))]
        rfl
  subst same
  exact Throwing.run_bind_ok.mpr ⟨(),A,ranA,Throwing.run_bind_ok.mpr ⟨(),B,ranB,ranC⟩⟩

/-- The replay returns exactly when the keys are free, and then gives the start. -/
theorem replay_iff (records : Records start now state) {order : Order} (enumerates : order.Enumerates state)
    {U : Tables S} : (replay order state).run now = .ok () U ↔ KeysFree start now order ∧ U = start := by
  have begins : Mixed start now (fun _ => False) now := ⟨fun _ h => h.elim,fun _ _ => rfl,rfl⟩
  obtain ⟨mixed,returns⟩ := restore_values_spec records order.old_values begins enumerates.old_nodup
    (fun _ _ h => h) (fun b => by simp [enumerates.old_mem b])
  have keys : KeysFree start now order ↔ order.old_values.Pairwise (fun a b => ¬ Clash start now a b) ∧
      ∀ a ∈ order.old_values, ∀ b ∈ state.new_ids, ¬ Clash start now a b := by
    simp only [KeysFree,enumerates.new_mem]
  rw [keys,← returns,replay,Throwing.run_bind_ok]
  constructor
  · rintro ⟨⟨⟩,W,ran,rest⟩
    rw [replay_rest records enumerates (mixed W ran)] at rest
    cases rest
    exact ⟨⟨W,ran⟩,rfl⟩
  · rintro ⟨⟨W,ran⟩,rfl⟩
    exact ⟨(),W,ran,replay_rest records enumerates (mixed W ran)⟩

/-- A call that returns and leaves the tables `T`. -/
def Restores (r : EStateM.Result Exc (Database S) Unit) (T : Tables S) : Prop :=
  ∃ D, r = .ok () D ∧ D.tables = T

private theorem replayed_iff (records : Records start now state) {order : Order} (enumerates : order.Enumerates state)
    {D : Database S} (current : D.tables = now) (f : Database S → Database S)
    (same : ∀ D, (f D).tables = D.tables) :
    Restores ((do onTables (replay order state); modifyGet fun D => ((),f D) : Exec S Unit).run D) start ↔
      KeysFree start now order := by
  subst current
  constructor
  · rintro ⟨_,ran,_⟩
    obtain ⟨⟨⟩,_,replayed,_⟩ := Throwing.run_bind_ok.mp ran
    obtain ⟨_,replayed,_⟩ := onTables_ok.mp replayed
    exact ((replay_iff records enumerates).mp replayed).1
  · intro free
    have replayed := (replay_iff records enumerates).mpr ⟨free,rfl⟩
    exact ⟨_,Throwing.run_bind_ok.mpr ⟨(),_,onTables_ok.mpr ⟨_,replayed,rfl⟩,rfl⟩,same _⟩

omit [DecidableEq K] in
/-- The session that was handed out has a state of its own. -/
theorem start_opens {D : Database S} {force : Bool} (opens : D.disabled = false ∨ force = true) :
    start_undo_session force D = { D with
      disabled := false, stack := .fresh :: D.stack.take D.max_size, active_sessions := D.active_sessions + 1 } := by
  cases off : D.disabled <;> cases force <;> simp_all [start_undo_session]

/-- What a session leaves: its state on top, and nothing but the tables changed. -/
private theorem session_shape {D D' : Database S} {force : Bool} {ops : List (Op V)}
    (opens : D.disabled = false ∨ force = true)
    (ran : (performAll ops).run (start_undo_session force D) = .ok () D') :
    ∃ state older, D'.stack = state :: older ∧ D'.disabled = false ∧ D'.active_sessions = D.active_sessions + 1 ∧
      Records D.tables D'.tables state := by
  rw [start_opens opens] at ran
  obtain ⟨state,shape,records⟩ := performAll_records ops (D := { D with
    disabled := false, stack := .fresh :: D.stack.take D.max_size, active_sessions := D.active_sessions + 1 })
    rfl rfl (records_fresh D.tables) ran
  exact ⟨state,D.stack.take D.max_size,by rw [shape],by rw [shape],by rw [shape],records⟩

private theorem unopened {D D' : Database S} {force : Bool} {ops : List (Op V)}
    (closed : ¬ (D.disabled = false ∨ force = true))
    (ran : (performAll ops).run (start_undo_session force D) = .ok () D') :
    D'.disabled = true ∧ D'.active_sessions = D.active_sessions := by
  obtain ⟨off,unforced⟩ : D.disabled = true ∧ force = false := by simpa using closed
  have same : start_undo_session force D = D := by simp [start_undo_session,off,unforced]
  rw [same] at ran
  rw [performAll_disabled ops off ran]
  exact ⟨off,rfl⟩

private theorem undo_restores_iff {D D' : Database S} {force : Bool} {ops : List (Op V)} {order : Order}
    (ran : (performAll ops).run (start_undo_session force D) = .ok () D')
    (enumerates : ∀ state, D'.stack.head? = some state → order.Enumerates state) :
    Restores ((undo order).run D') D.tables ↔
      (D.disabled = false ∨ force = true) ∧ KeysFree D.tables D'.tables order := by
  by_cases opens : D.disabled = false ∨ force = true
  · obtain ⟨state,older,top,enabled,sessions,records⟩ := session_shape opens ran
    have replayed := replayed_iff records (enumerates state (by rw [top]; rfl))
      (D := { D' with disabled := true }) rfl
      (fun D => { D with
        stack := if older.isEmpty then [.fresh] else older
        disabled := false
        active_sessions := D.active_sessions - 1 }) (fun _ => rfl)
    rw [and_iff_right opens,← replayed]
    simp [undo,top,enabled,sessions]
  · obtain ⟨off,_⟩ := unopened opens ran
    simp [opens,undo,off,Restores]

private theorem pop_commit_restores_iff {D D' : Database S} {force : Bool} {ops : List (Op V)} {order : Order}
    (ran : (performAll ops).run (start_undo_session force D) = .ok () D')
    (enumerates : ∀ state, D'.stack.head? = some state → order.Enumerates state) (outermost : D.active_sessions = 0) :
    Restores ((do commit; pop_commit order : Exec S Unit).run D') D.tables ↔
      (D.disabled = false ∨ force = true) ∧ KeysFree D.tables D'.tables order := by
  by_cases opens : D.disabled = false ∨ force = true
  · obtain ⟨state,older,top,enabled,sessions,records⟩ := session_shape opens ran
    have replayed := replayed_iff records (enumerates state (by rw [top]; rfl))
      (D := { D' with disabled := true, active_sessions := 0 }) rfl
      (fun D => { D with stack := older }) (fun _ => rfl)
    rw [and_iff_right opens,← replayed]
    -- The handler only enables the database, on either way out.
    simp [commit,pop_commit,top,sessions,outermost]
    generalize (onTables (replay order state) : Exec S Unit).run _ = result
    cases result <;> simp [Restores]
  · obtain ⟨off,sessions⟩ := unopened opens ran
    simp [opens,commit,sessions,outermost,Restores]

/-- Undoing a session, or popping it once it is committed, restores its start
    exactly when the session was recorded and the keys of the old values are free. -/
theorem undo_exact_iff {D D' : Database S} {force : Bool} {ops : List (Op V)} {order : Order}
    (ran : (performAll ops).run (start_undo_session force D) = .ok () D')
    (enumerates : ∀ state, D'.stack.head? = some state → order.Enumerates state) :
    (Restores ((undo order).run D') D.tables ↔
      (D.disabled = false ∨ force = true) ∧ KeysFree D.tables D'.tables order) ∧
    (D.active_sessions = 0 →
      (Restores ((do commit; pop_commit order : Exec S Unit).run D') D.tables ↔
        (D.disabled = false ∨ force = true) ∧ KeysFree D.tables D'.tables order)) :=
  ⟨undo_restores_iff ran enumerates,fun outermost => pop_commit_restores_iff ran enumerates outermost⟩

end

/-! ### A key that moves on -/

/-- One index of numbers, each its own unique key. -/
def byValue : Schema Nat Nat := ⟨fun _ => [fun _ v => v]⟩

def accounts : IndexId := ⟨1,2⟩

def oneAccount : Database byValue where
  tables := (Tables.put ⟨∅,fun _ => 0,by simp⟩ ⟨accounts,0⟩ 5 (by simp [accepts_iff])).setNext accounts 1
  stack := []
  active_sessions := 0
  disabled := false
  max_size := 256

/-- The database after a session on `oneAccount`. -/
def afterSession (ops : List (Op Nat)) : Database byValue :=
  match (performAll ops).run (start_undo_session false oneAccount) with
  | .ok _ D => D
  | .error _ D => D

def rename : List (Op Nat) := [.modify ⟨accounts,0⟩ fun _ => 7]

/-- The object gives up its key, and a new object takes it. -/
def takeover : List (Op Nat) := [.modify ⟨accounts,0⟩ fun _ => 7,.create accounts fun _ => 5]

/-- Undoing the renaming of an account gives its name back. -/
theorem undo_exact_rename :
    Restores ((undo ⟨[⟨accounts,0⟩],[],[],[]⟩).run (afterSession rename)) oneAccount.tables := by
  have ran : (performAll rename).run (start_undo_session false oneAccount) = .ok () (afterSession rename) := rfl
  refine (undo_exact_iff ran ?_).1.mpr ⟨.inl rfl,by simp,by simp⟩
  intro state top
  obtain rfl : ⟨Finmap.insert ⟨accounts,0⟩ 5 ∅,∅,∅,∅⟩ = state := Option.some.inj top
  constructor <;> simp [Finmap.notMem_empty]

theorem undo_takeover_throws :
    ¬ ∀ (D D' : Database byValue) (force : Bool) (ops : List (Op Nat)) (order : Order),
      (performAll ops).run (start_undo_session force D) = .ok () D' →
      (∀ state, D'.stack.head? = some state → order.Enumerates state) →
      Restores ((undo order).run D') D.tables := by
  intro exact
  have restored := exact oneAccount (afterSession takeover) false takeover
    ⟨[⟨accounts,0⟩],[⟨accounts,1⟩],[accounts],[]⟩ rfl (by
      intro state top
      obtain rfl : ⟨Finmap.insert ⟨accounts,0⟩ 5 ∅,Finmap.insert accounts 1 ∅,{⟨accounts,1⟩},∅⟩ = state :=
        Option.some.inj top
      constructor <;> simp [Finmap.notMem_empty])
  obtain ⟨D,ran,_⟩ := restored
  have thrown : (undo ⟨[⟨accounts,0⟩],[⟨accounts,1⟩],[accounts],[]⟩).run (afterSession takeover) = .error
      (.assert_exception "Could not modify object, most likely a index constraint was violated") _ := rfl
  rw [thrown] at ran
  cases ran

end Decent.UndoDatabase

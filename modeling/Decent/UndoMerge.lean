import Decent.UndoExact

/-!
Merging a session into the one around it. Seen from one object, a state is one of
four entries: the object is new, updated, deleted or untouched. `Entry.merge` is
the four by four matrix that the comment of `undo_database::merge` draws, and
`merge_states_entry` says that the loops compute it. Every operation commutes with
it, as long as ids are never handed out twice, so the merged state is the one that
a single session would have recorded. Undoing it replays both sessions at once and
can meet a key that two undos, one after the other, would have freed in between.
-/
namespace Decent.UndoDatabase
open Decent.ObjectDatabase

variable {V K : Type} {S : Schema V K}

/-! ### One object in a state -/

/-- What the containers of a state hold for one object. -/
@[ext] structure Entry (V : Type) where
  old : Option V
  new : Bool
  removed : Option V

namespace Entry

/-- The rows of the matrix in `undo_database::merge`. -/
def nop : Entry V := ⟨none,false,none⟩
def created : Entry V := ⟨none,true,none⟩
def upd (was : V) : Entry V := ⟨some was,false,none⟩
def del (was : V) : Entry V := ⟨none,false,some was⟩

/-- The entry after `on_create`. -/
def create (e : Entry V) : Entry V := { e with new := true }

/-- The entry after `on_modify` of an object whose value is `v`. -/
def modify (v : V) (e : Entry V) : Entry V :=
  if e.new then e else match e.old with
    | some _ => e
    | none => { e with old := some v }

/-- The entry after `on_remove` of an object whose value is `v`. -/
def remove (v : V) (e : Entry V) : Entry V :=
  if e.new then { e with new := false } else match e.old with
    | some old => { e with removed := some old, old := none }
    | none => match e.removed with
      | some _ => e
      | none => { e with removed := some v }

/-- One round of `*+upd`, for an object that `b` updates. -/
def merge_old (b a : Entry V) : Entry V :=
  if a.new then a else match a.old with
    | some _ => a
    | none => { a with old := b.old }

/-- One round of `*+del`, for an object that `b` deletes. -/
def merge_removed (b a : Entry V) : Entry V :=
  if a.new then { a with new := false } else match a.old with
    | some old => { a with removed := some old, old := none }
    | none => { a with removed := b.removed }

/-- The loops of `merge`, seen from one object. -/
def merge (a b : Entry V) : Entry V :=
  let a := if b.old.isSome then merge_old b a else a
  let a := { a with new := a.new || b.new }
  if b.removed.isSome then merge_removed b a else a

/-- The entries a session leaves for an object that had the value `was` and now
    has the value `now`. -/
inductive Traces : Option V → Option V → Entry V → Prop
  | nop (v : Option V) : Traces v v nop
  | created (w : V) : Traces none (some w) created
  | upd (v w : V) : Traces (some v) (some w) (upd v)
  | del (v : V) : Traces (some v) none (del v)

/-- Modifying an object after the inner session is modifying it in both. -/
theorem merge_modify {was before : Option V} {v : V} {a b : Entry V} (outer : Traces was before a)
    (inner : Traces before (some v) b) : merge a (modify v b) = modify v (merge a b) := by
  cases outer <;> cases inner <;> rfl

theorem merge_remove {was before : Option V} {v : V} {a b : Entry V} (outer : Traces was before a)
    (inner : Traces before (some v) b) : merge a (remove v b) = remove v (merge a b) := by
  cases outer <;> cases inner <;> rfl

/-- The matrix keeps what an entry says. The excluded case is an object that the
    outer session deleted and the inner one created. -/
theorem traces_merge {was before now : Option V} {a b : Entry V} (outer : Traces was before a)
    (inner : Traces before now b) (causal : was.isSome → b.new = false) : Traces was now (merge a b) := by
  cases outer with
  | nop => cases inner <;> constructor
  | created => cases inner <;> constructor
  | upd v => cases inner <;> constructor
  | del v =>
    cases inner with
    | nop => constructor
    | created => cases causal rfl

theorem new_of_merge {a b : Entry V} (new : (merge a b).new = true) : a.new = true ∨ b.new = true := by
  obtain ⟨aOld,aNew,aRemoved⟩ := a
  obtain ⟨bOld,bNew,bRemoved⟩ := b
  cases aNew
  · cases bNew
    · cases aOld <;> cases bOld <;> cases bRemoved <;> cases new
    · exact .inr rfl
  · exact .inl rfl

/-- The value before a session, read off the entry. -/
theorem Traces.original {was now : Option V} {e : Entry V} (traces : Traces was now e) :
    was = (e.removed.or e.old).or (if e.new then none else now) := by
  cases traces with
  | nop => cases was <;> rfl
  | created w => rfl
  | upd v w => rfl
  | del v => rfl

theorem Traces.old_live {was now : Option V} {e : Entry V} (traces : Traces was now e) (old : e.old.isSome = true) :
    now.isSome = true ∧ e.new = false ∧ e.removed.isSome = false := by
  cases traces with
  | upd v w => exact ⟨rfl,rfl,rfl⟩
  | nop v => cases old
  | created w => cases old
  | del v => cases old

theorem Traces.new_live {was now : Option V} {e : Entry V} (traces : Traces was now e) (new : e.new = true) :
    now.isSome = true := by
  cases traces with
  | created w => rfl
  | nop v => cases new
  | upd v w => cases new
  | del v => cases new

theorem Traces.removed_dead {was now : Option V} {e : Entry V} (traces : Traces was now e)
    (gone : e.removed.isSome = true) : now.isSome = false := by
  cases traces with
  | del v => rfl
  | nop v => cases gone
  | created w => cases gone
  | upd v w => cases gone

end Entry

def UndoState.entry (state : UndoState V) (id : ObjectId) : Entry V :=
  ⟨state.old_values.lookup id,decide (id ∈ state.new_ids),state.removed.lookup id⟩

/-- The entries and the id counters are all of a state. -/
theorem UndoState.ext_entry {a b : UndoState V} (entries : ∀ id, a.entry id = b.entry id)
    (next : ∀ t, a.old_index_next_ids.lookup t = b.old_index_next_ids.lookup t) : a = b := by
  obtain ⟨aOld,aNext,aNew,aRemoved⟩ := a
  obtain ⟨bOld,bNext,bNew,bRemoved⟩ := b
  obtain rfl : aOld = bOld := Finmap.ext_lookup fun id => congrArg Entry.old (entries id)
  obtain rfl : aNext = bNext := Finmap.ext_lookup next
  obtain rfl : aRemoved = bRemoved := Finmap.ext_lookup fun id => congrArg Entry.removed (entries id)
  obtain rfl : aNew = bNew := by
    ext id
    simpa [UndoState.entry] using congrArg Entry.new (entries id)
  rfl

private theorem mem_iff_isSome {α : Type} [DecidableEq α] {β : Type} {s : Finmap (fun _ : α => β)} {a : α} :
    a ∈ s ↔ (s.lookup a).isSome = true := (Finmap.lookup_isSome).symm

/-! ### The loops of `merge` -/

private theorem merge_old_values_entry (state : UndoState V) (todo : List ObjectId) (prev : UndoState V)
    (distinct : todo.Nodup) (listed : ∀ id ∈ todo, id ∈ state.old_values)
    (kept : ∀ id ∈ todo, id ∉ prev.removed) :
    ∃ merged, merge_old_values state todo prev = .ok merged ∧
      (∀ id, merged.entry id =
        if id ∈ todo then (state.entry id).merge_old (prev.entry id) else prev.entry id) ∧
      merged.old_index_next_ids = prev.old_index_next_ids := by
  induction todo generalizing prev with
  | nil => exact ⟨prev,rfl,by simp,rfl⟩
  | cons id rest ih =>
    obtain ⟨fresh,distinct⟩ := List.nodup_cons.mp distinct
    obtain ⟨listedId,listedRest⟩ := List.forall_mem_cons.mp listed
    obtain ⟨keptId,keptRest⟩ := List.forall_mem_cons.mp kept
    obtain ⟨old,saved⟩ := Finmap.mem_iff.mp listedId
    -- Either the entry stays, or it takes the old value of the inner session.
    obtain ⟨next,runs,entry,counters,removed⟩ : ∃ next : UndoState V,
        merge_old_values state (id :: rest) prev = merge_old_values state rest next ∧
        (∀ b, next.entry b = if b = id then (state.entry b).merge_old (prev.entry b) else prev.entry b) ∧
        next.old_index_next_ids = prev.old_index_next_ids ∧ next.removed = prev.removed := by
      by_cases isNew : id ∈ prev.new_ids
      · refine ⟨prev,by simp [merge_old_values,isNew],fun b => ?_,rfl,rfl⟩
        split
        case isTrue same => subst same; simp [Entry.merge_old,UndoState.entry,isNew]
        case isFalse => rfl
      · cases was : prev.old_values.lookup id with
        | some x =>
          have isOld : id ∈ prev.old_values := Finmap.mem_of_lookup_eq_some was
          refine ⟨prev,by simp [merge_old_values,isNew,isOld],fun b => ?_,rfl,rfl⟩
          split
          case isTrue same => subst same; simp [Entry.merge_old,UndoState.entry,was]
          case isFalse => rfl
        | none =>
          have isOld : id ∉ prev.old_values := Finmap.lookup_eq_none.mp was
          refine ⟨{ prev with old_values := prev.old_values.insert id old },
            by simp [merge_old_values,isNew,isOld,keptId,saved],fun b => ?_,rfl,rfl⟩
          split
          case isTrue same => subst same; simp [Entry.merge_old,UndoState.entry,was,isNew,saved]
          case isFalse other => simp [UndoState.entry,Finmap.lookup_insert_of_ne _ other]
    obtain ⟨merged,ran,entries,counted⟩ := ih next distinct listedRest (by rw [removed]; exact keptRest)
    refine ⟨merged,runs.trans ran,fun b => ?_,counted.trans counters⟩
    rw [entries b,entry b]
    by_cases same : b = id
    · subst same; simp [fresh]
    · simp [same]

private theorem merge_new_ids_entry (todo : List ObjectId) (prev : UndoState V) :
    (∀ id, (merge_new_ids todo prev).entry id =
      { prev.entry id with new := (prev.entry id).new || decide (id ∈ todo) }) ∧
    (merge_new_ids todo prev).old_index_next_ids = prev.old_index_next_ids := by
  induction todo generalizing prev with
  | nil => simp [merge_new_ids]
  | cons a rest ih =>
    obtain ⟨entries,counters⟩ := ih { prev with new_ids := insert a prev.new_ids }
    refine ⟨fun id => ?_,counters⟩
    rw [merge_new_ids,entries id]
    by_cases same : id = a
    · simp [UndoState.entry,same]
    · simp [UndoState.entry,same]

private theorem merge_next_ids_lookup (state : UndoState V) (todo : List IndexId) (prev : UndoState V) :
    (∀ id, (merge_next_ids state todo prev).entry id = prev.entry id) ∧
    ∀ t, (merge_next_ids state todo prev).old_index_next_ids.lookup t =
      (prev.old_index_next_ids.lookup t).or (if t ∈ todo then state.old_index_next_ids.lookup t else none) := by
  induction todo generalizing prev with
  | nil => simp [merge_next_ids]
  | cons a rest ih =>
    rw [merge_next_ids]
    cases before : prev.old_index_next_ids.lookup a with
    | some n =>
      have known : a ∈ prev.old_index_next_ids := Finmap.mem_of_lookup_eq_some before
      rw [if_pos known]
      refine ⟨(ih prev).1,fun t => ?_⟩
      rw [(ih prev).2 t]
      by_cases same : t = a
      · subst same; simp [before]
      · simp [same]
    | none =>
      have unknown : a ∉ prev.old_index_next_ids := Finmap.lookup_eq_none.mp before
      rw [if_neg unknown]
      cases inner : state.old_index_next_ids.lookup a with
      | some n =>
        obtain ⟨entries,counters⟩ := ih { prev with
          old_index_next_ids := prev.old_index_next_ids.insert a n }
        refine ⟨entries,fun t => ?_⟩
        rw [counters t]
        by_cases same : t = a
        · subst same; simp [before,inner]
        · simp [same,Finmap.lookup_insert_of_ne _ same]
      | none =>
        refine ⟨(ih prev).1,fun t => ?_⟩
        rw [(ih prev).2 t]
        by_cases same : t = a
        · subst same; simp [before,inner]
        · simp [same]

private theorem merge_removed_entry (state : UndoState V) (todo : List ObjectId) (prev : UndoState V)
    (distinct : todo.Nodup) (listed : ∀ id ∈ todo, id ∈ state.removed)
    (kept : ∀ id ∈ todo, id ∉ prev.removed) :
    ∃ merged, merge_removed state todo prev = .ok merged ∧
      (∀ id, merged.entry id =
        if id ∈ todo then (state.entry id).merge_removed (prev.entry id) else prev.entry id) ∧
      merged.old_index_next_ids = prev.old_index_next_ids := by
  induction todo generalizing prev with
  | nil => exact ⟨prev,rfl,by simp,rfl⟩
  | cons id rest ih =>
    obtain ⟨fresh,distinct⟩ := List.nodup_cons.mp distinct
    obtain ⟨listedId,listedRest⟩ := List.forall_mem_cons.mp listed
    obtain ⟨keptId,keptRest⟩ := List.forall_mem_cons.mp kept
    obtain ⟨gone,saved⟩ := Finmap.mem_iff.mp listedId
    obtain ⟨next,runs,entry,counters⟩ : ∃ next : UndoState V,
        merge_removed state (id :: rest) prev = merge_removed state rest next ∧
        (∀ b, next.entry b = if b = id then (state.entry b).merge_removed (prev.entry b) else prev.entry b) ∧
        next.old_index_next_ids = prev.old_index_next_ids := by
      by_cases isNew : id ∈ prev.new_ids
      · refine ⟨{ prev with new_ids := prev.new_ids.erase id },by simp [merge_removed,isNew],fun b => ?_,rfl⟩
        split
        case isTrue same => subst same; simp [Entry.merge_removed,UndoState.entry,isNew]
        case isFalse other => simp [UndoState.entry,other]
      · cases was : prev.old_values.lookup id with
        | some x =>
          refine ⟨{ prev with removed := prev.removed.insert id x, old_values := prev.old_values.erase id },
            by simp [merge_removed,isNew,was],fun b => ?_,rfl⟩
          split
          case isTrue same => subst same; simp [Entry.merge_removed,UndoState.entry,was,isNew]
          case isFalse other =>
            simp [UndoState.entry,Finmap.lookup_insert_of_ne _ other,Finmap.lookup_erase_ne other]
        | none =>
          refine ⟨{ prev with removed := prev.removed.insert id gone },
            by simp [merge_removed,isNew,was,keptId,saved],fun b => ?_,rfl⟩
          split
          case isTrue same => subst same; simp [Entry.merge_removed,UndoState.entry,was,isNew,saved]
          case isFalse other => simp [UndoState.entry,Finmap.lookup_insert_of_ne _ other]
    have keptNext : ∀ b ∈ rest, b ∉ next.removed := by
      intro b member inside
      have other : b ≠ id := fun same => fresh (same ▸ member)
      have same : next.removed.lookup b = prev.removed.lookup b :=
        congrArg Entry.removed ((entry b).trans (if_neg other))
      rw [mem_iff_isSome,same,← mem_iff_isSome] at inside
      exact keptRest b member inside
    obtain ⟨merged,ran,entries,counted⟩ := ih next distinct listedRest keptNext
    refine ⟨merged,runs.trans ran,fun b => ?_,counted.trans counters⟩
    rw [entries b,entry b]
    by_cases same : b = id
    · subst same; simp [fresh]
    · simp [same]

/-- The merged state, object by object. -/
structure Merges (outer inner merged : UndoState V) : Prop where
  entry : ∀ id, merged.entry id = (outer.entry id).merge (inner.entry id)
  next : ∀ t, merged.old_index_next_ids.lookup t =
    (outer.old_index_next_ids.lookup t).or (inner.old_index_next_ids.lookup t)

theorem Merges.unique {outer inner a b : UndoState V} (left : Merges outer inner a) (right : Merges outer inner b) :
    a = b :=
  UndoState.ext_entry (fun id => (left.entry id).trans (right.entry id).symm)
    (fun t => (left.next t).trans (right.next t).symm)

/-- When the inner session touches nothing that the outer one deleted, no `assert`
    fails and the loops compute the matrix. -/
theorem merge_states_entry {outer inner : UndoState V} {order : Order} (enumerates : order.Enumerates inner)
    (causal : ∀ id, id ∈ inner.old_values ∨ id ∈ inner.removed → id ∉ outer.removed) :
    ∃ merged, merge_states order inner outer = .ok merged ∧ Merges outer inner merged := by
  obtain ⟨first,ranFirst,entryFirst,nextFirst⟩ := merge_old_values_entry inner order.old_values outer
    enumerates.old_nodup (fun id member => (enumerates.old_mem id).mp member)
    (fun id member => causal id (.inl ((enumerates.old_mem id).mp member)))
  obtain ⟨entryNew,nextNew⟩ := merge_new_ids_entry order.new_ids first
  obtain ⟨entryNext,nextNext⟩ := merge_next_ids_lookup inner order.old_index_next_ids
    (merge_new_ids order.new_ids first)
  have removedSame : ∀ id, (merge_next_ids inner order.old_index_next_ids
      (merge_new_ids order.new_ids first)).removed.lookup id = outer.removed.lookup id := by
    intro id
    have same := congrArg Entry.removed ((entryNext id).trans (entryNew id))
    refine same.trans ?_
    show (first.entry id).removed = (outer.entry id).removed
    rw [entryFirst id]
    split
    · unfold Entry.merge_old
      split
      · rfl
      · split <;> rfl
    · rfl
  obtain ⟨last,ranLast,entryLast,nextLast⟩ := merge_removed_entry inner order.removed _ enumerates.removed_nodup
    (fun id member => (enumerates.removed_mem id).mp member)
    (fun id member inside => by
      rw [mem_iff_isSome,removedSame id,← mem_iff_isSome] at inside
      exact causal id (.inr ((enumerates.removed_mem id).mp member)) inside)
  refine ⟨last,?_,fun id => ?_,fun t => ?_⟩
  · simp only [merge_states,ranFirst]
    exact ranLast
  · rw [entryLast id,entryNext id,entryNew id,entryFirst id]
    simp only [enumerates.old_mem,enumerates.new_mem,enumerates.removed_mem,mem_iff_isSome,Entry.merge]
    rfl
  · rw [nextLast,nextNext t,nextNew,nextFirst]
    by_cases known : t ∈ inner.old_index_next_ids
    · rw [if_pos ((enumerates.next_mem t).mpr known)]
    · rw [if_neg (fun member => known ((enumerates.next_mem t).mp member)),Finmap.lookup_eq_none.mpr known]

/-! ### Operations -/

/-- The updates that `on_create`, `on_modify` and `on_remove` make. -/
def UndoState.create (id : ObjectId) (state : UndoState V) : UndoState V :=
  { state with
    old_index_next_ids :=
      if id.index ∈ state.old_index_next_ids then state.old_index_next_ids
      else state.old_index_next_ids.insert id.index id.number
    new_ids := insert id state.new_ids }

def UndoState.modify (id : ObjectId) (v : V) (state : UndoState V) : UndoState V :=
  if id ∈ state.new_ids then state
  else if id ∈ state.old_values then state
  else { state with old_values := state.old_values.insert id v }

def UndoState.remove (id : ObjectId) (v : V) (state : UndoState V) : UndoState V :=
  if id ∈ state.new_ids then { state with new_ids := state.new_ids.erase id }
  else match state.old_values.lookup id with
    | some old => { state with removed := state.removed.insert id old, old_values := state.old_values.erase id }
    | none => if id ∈ state.removed then state else { state with removed := state.removed.insert id v }

theorem create_entry (id : ObjectId) (state : UndoState V) (b : ObjectId) :
    (state.create id).entry b = if b = id then (state.entry b).create else state.entry b := by
  by_cases same : b = id
  · subst same; simp [UndoState.create,UndoState.entry,Entry.create]
  · simp [UndoState.create,UndoState.entry,same]

theorem create_next (id : ObjectId) (state : UndoState V) (t : IndexId) :
    (state.create id).old_index_next_ids.lookup t =
      (state.old_index_next_ids.lookup t).or (if t = id.index then some id.number else none) := by
  cases before : state.old_index_next_ids.lookup id.index with
  | some n =>
    have known : id.index ∈ state.old_index_next_ids := Finmap.mem_of_lookup_eq_some before
    by_cases same : t = id.index
    · subst same; simp [UndoState.create,known,before]
    · simp [UndoState.create,known,same]
  | none =>
    have unknown : id.index ∉ state.old_index_next_ids := Finmap.lookup_eq_none.mp before
    by_cases same : t = id.index
    · subst same; simp [UndoState.create,unknown,before]
    · simp [UndoState.create,unknown,same,Finmap.lookup_insert_of_ne _ same]

theorem modify_entry (id : ObjectId) (v : V) (state : UndoState V) (b : ObjectId) :
    (state.modify id v).entry b = if b = id then (state.entry b).modify v else state.entry b := by
  by_cases isNew : id ∈ state.new_ids
  · by_cases same : b = id
    · subst same; simp [UndoState.modify,isNew,UndoState.entry,Entry.modify]
    · simp [UndoState.modify,isNew,same]
  cases was : state.old_values.lookup id with
  | some x =>
    have isOld : id ∈ state.old_values := Finmap.mem_of_lookup_eq_some was
    by_cases same : b = id
    · subst same; simp [UndoState.modify,isNew,isOld,was,UndoState.entry,Entry.modify]
    · simp [UndoState.modify,isNew,isOld,same]
  | none =>
    have isOld : id ∉ state.old_values := Finmap.lookup_eq_none.mp was
    by_cases same : b = id
    · subst same; simp [UndoState.modify,isNew,isOld,was,UndoState.entry,Entry.modify]
    · simp [UndoState.modify,isNew,isOld,UndoState.entry,same,Finmap.lookup_insert_of_ne _ same]

theorem remove_entry (id : ObjectId) (v : V) (state : UndoState V) (b : ObjectId) :
    (state.remove id v).entry b = if b = id then (state.entry b).remove v else state.entry b := by
  by_cases isNew : id ∈ state.new_ids
  · by_cases same : b = id
    · subst same; simp [UndoState.remove,isNew,UndoState.entry,Entry.remove]
    · simp [UndoState.remove,isNew,UndoState.entry,same]
  cases was : state.old_values.lookup id with
  | some x =>
    by_cases same : b = id
    · subst same; simp [UndoState.remove,isNew,was,UndoState.entry,Entry.remove]
    · simp [UndoState.remove,isNew,was,UndoState.entry,same,Finmap.lookup_insert_of_ne _ same,
        Finmap.lookup_erase_ne same]
  | none =>
    cases gone : state.removed.lookup id with
    | some x =>
      have isGone : id ∈ state.removed := Finmap.mem_of_lookup_eq_some gone
      by_cases same : b = id
      · subst same; simp [UndoState.remove,isNew,was,isGone,gone,UndoState.entry,Entry.remove]
      · simp [UndoState.remove,isNew,was,isGone,same]
    | none =>
      have isGone : id ∉ state.removed := Finmap.lookup_eq_none.mp gone
      by_cases same : b = id
      · subst same; simp [UndoState.remove,isNew,was,isGone,gone,UndoState.entry,Entry.remove]
      · simp [UndoState.remove,isNew,was,isGone,UndoState.entry,same,Finmap.lookup_insert_of_ne _ same]

theorem modify_next (id : ObjectId) (v : V) (state : UndoState V) :
    (state.modify id v).old_index_next_ids = state.old_index_next_ids := by
  unfold UndoState.modify
  split
  · rfl
  · split <;> rfl

theorem remove_next (id : ObjectId) (v : V) (state : UndoState V) :
    (state.remove id v).old_index_next_ids = state.old_index_next_ids := by
  unfold UndoState.remove
  split
  · rfl
  · split
    · rfl
    · split <;> rfl

/-- What an operation that returns does: to the tables, and to the state of
    whatever session is innermost. -/
inductive Performs : Op V → Tables S → Tables S → (UndoState V → UndoState V) → Prop
  | create {t : IndexId} {constructor : ObjectId → V} {T : Tables S} (absent : (⟨t,T.next_id t⟩ : ObjectId) ∉ T.objects)
      (accepts : Accepts T ⟨t,T.next_id t⟩ (constructor ⟨t,T.next_id t⟩)) :
      Performs (.create t constructor) T ((T.put _ _ accepts).setNext t (T.next_id t + 1))
        (UndoState.create ⟨t,T.next_id t⟩)
  | modify {id : ObjectId} {m : V → V} {T : Tables S} {v : V} (stored : T.objects.lookup id = some v)
      (accepts : Accepts T id (m v)) : Performs (.modify id m) T (T.put _ _ accepts) (UndoState.modify id v)
  | remove {id : ObjectId} {T : Tables S} {v : V} (stored : T.objects.lookup id = some v) :
      Performs (.remove id) T (T.drop id) (UndoState.remove id v)

private theorem record_tables (f : UndoState V → UndoState V) (D : Database S) (T : Tables S) :
    record f { D with tables := T } = { record f D with tables := T } := by
  simp only [record]
  split
  · rfl
  · split <;> rfl

section
variable [DecidableEq K]

theorem perform_iff {op : Op V} {D D' : Database S} :
    (perform op).run D = .ok () D' ↔ ∃ T f, Performs op D.tables T f ∧ D' = record f { D with tables := T } := by
  cases op with
  | create t constructor =>
    simp only [perform,create,Throwing.run_bind_ok,onTables_ok,create_ok]
    constructor
    · rintro ⟨_,_,⟨id,_,⟨T,⟨named,absent,accepts,rfl⟩,rfl⟩,recorded⟩,done⟩
      cases recorded
      cases done
      subst named
      exact ⟨_,_,.create absent accepts,rfl⟩
    · rintro ⟨T,f,performs,rfl⟩
      cases performs with
      | create absent accepts => exact ⟨_,_,⟨_,_,⟨_,⟨rfl,absent,accepts,rfl⟩,rfl⟩,rfl⟩,rfl⟩
  | modify id m =>
    simp only [perform,modify,Throwing.run_bind_ok,onTables_ok,get_object_ok]
    constructor
    · rintro ⟨v,_,⟨_,⟨stored,rfl⟩,rfl⟩,_,_,recorded,T,changed,rfl⟩
      cases recorded
      rw [on_modify,tables_record] at changed
      obtain ⟨w,now,accepts,rfl⟩ := modify_ok.mp changed
      obtain rfl : v = w := Option.some.inj (stored.symm.trans now)
      exact ⟨_,_,.modify stored accepts,(record_tables _ _ _).symm⟩
    · rintro ⟨T,f,performs,rfl⟩
      cases performs with
      | @modify _ _ _ v stored accepts =>
        refine ⟨v,D,⟨_,⟨stored,rfl⟩,rfl⟩,(),on_modify id v D,rfl,D.tables.put id (m v) accepts,?_,record_tables _ _ _⟩
        rw [on_modify,tables_record]
        exact modify_ok.mpr ⟨v,stored,accepts,rfl⟩
  | remove id =>
    simp only [perform,remove,Throwing.run_bind_ok,onTables_ok,get_object_ok]
    constructor
    · rintro ⟨v,_,⟨_,⟨stored,rfl⟩,rfl⟩,_,_,recorded,T,changed,rfl⟩
      cases recorded
      rw [on_remove,tables_record] at changed
      obtain ⟨_,rfl⟩ := remove_ok.mp changed
      exact ⟨_,_,.remove stored,(record_tables _ _ _).symm⟩
    · rintro ⟨T,f,performs,rfl⟩
      cases performs with
      | @remove _ _ v stored =>
        refine ⟨v,D,⟨_,⟨stored,rfl⟩,rfl⟩,(),on_remove id v D,rfl,D.tables.drop id,?_,record_tables _ _ _⟩
        rw [on_remove,tables_record]
        exact remove_ok.mpr ⟨Finmap.mem_of_lookup_eq_some stored,rfl⟩

/-- Inside a session the update goes to its state. -/
theorem perform_session_iff {op : Op V} {D D' : Database S} {state : UndoState V} {older : List (UndoState V)}
    (enabled : D.disabled = false) (top : D.stack = state :: older) :
    (perform op).run D = .ok () D' ↔
      ∃ T f, Performs op D.tables T f ∧ D' = { D with tables := T, stack := f state :: older } := by
  simp only [perform_iff,record_enabled enabled top]

end

/-! ### Ids are handed out once -/

/-- Every stored object has a number that the counter of its index has passed. -/
def Issued (T : Tables S) : Prop := ∀ id ∈ T.objects, id.number < T.next_id id.index

theorem Issued.absent {T : Tables S} (issued : Issued T) (id : ObjectId) (unissued : T.next_id id.index ≤ id.number) :
    T.objects.lookup id = none := by
  rw [Finmap.lookup_eq_none]
  intro live
  have := issued id live
  omega

/-- A state that leads back to tables whose ids were handed out in order. -/
structure Journal (start T : Tables S) (state : UndoState V) : Prop extends Records start T state where
  started : Issued start
  issued : Issued T
  grows : ∀ t, start.next_id t ≤ T.next_id t
  fresh : ∀ id ∈ state.new_ids, start.next_id id.index ≤ id.number

theorem journal_fresh {T : Tables S} (issued : Issued T) : Journal T T .fresh :=
  { records_fresh T with
    started := issued
    issued := issued
    grows := fun _ => Nat.le_refl _
    fresh := fun id member => by simp [UndoState.fresh] at member }

/-- What a state holds for an object, by the values before and after. -/
theorem Journal.traces {start T : Tables S} {state : UndoState V} (journal : Journal start T state) (id : ObjectId) :
    Entry.Traces (start.objects.lookup id) (T.objects.lookup id) (state.entry id) := by
  have object := journal.object id
  by_cases isNew : id ∈ state.new_ids
  · have was := journal.started.absent id (journal.fresh id isNew)
    have old : state.old_values.lookup id = none :=
      Finmap.lookup_eq_none.mpr fun old => (journal.old_live id old).2.1 isNew
    obtain ⟨w,now⟩ := Finmap.mem_iff.mp (journal.new_live id isNew)
    cases gone : state.removed.lookup id with
    | some x => simp [UndoState.original,gone,was] at object
    | none =>
      have entry : state.entry id = .created := by simp [UndoState.entry,Entry.created,old,gone,isNew]
      rw [was,now,entry]
      exact .created w
  cases gone : state.removed.lookup id with
  | some x =>
    have isGone : id ∈ state.removed := Finmap.mem_of_lookup_eq_some gone
    have old : state.old_values.lookup id = none :=
      Finmap.lookup_eq_none.mpr fun old => (journal.old_live id old).2.2 isGone
    have now : T.objects.lookup id = none :=
      Finmap.lookup_eq_none.mpr fun live => isNew (journal.removed_live id isGone live)
    have entry : state.entry id = .del x := by simp [UndoState.entry,Entry.del,old,gone,isNew]
    have was : start.objects.lookup id = some x := by rw [object]; simp [UndoState.original,gone]
    rw [was,now,entry]
    exact .del x
  | none =>
    cases old : state.old_values.lookup id with
    | some x =>
      obtain ⟨w,now⟩ := Finmap.mem_iff.mp (journal.old_live id (Finmap.mem_of_lookup_eq_some old)).1
      have entry : state.entry id = .upd x := by simp [UndoState.entry,Entry.upd,old,gone,isNew]
      have was : start.objects.lookup id = some x := by rw [object]; simp [UndoState.original,gone,old]
      rw [was,now,entry]
      exact .upd x w
    | none =>
      have entry : state.entry id = .nop := by simp [UndoState.entry,Entry.nop,old,gone,isNew]
      have was : start.objects.lookup id = T.objects.lookup id := by
        rw [object]
        simp [UndoState.original,gone,old,isNew]
      rw [was,entry]
      exact .nop _

private theorem performs_issued {op : Op V} {T T' : Tables S} {f : UndoState V → UndoState V}
    (performs : Performs op T T' f) (issued : Issued T) :
    Issued T' ∧ (∀ t, T.next_id t ≤ T'.next_id t) ∧
      ∀ state, ∀ id ∈ (f state).new_ids, id ∈ state.new_ids ∨ T.next_id id.index ≤ id.number := by
  cases performs with
  | @create t constructor T absent accepts =>
    have grows : ∀ u, T.next_id u ≤ ((T.put _ _ accepts).setNext t (T.next_id t + 1)).next_id u := by
      intro u
      by_cases same : u = t
      · subst same; simp
      · simp [same]
    refine ⟨fun id live => ?_,grows,fun state id member => ?_⟩
    · rcases Finmap.mem_insert.mp live with same | live
      · subst same; simp
      · exact Nat.lt_of_lt_of_le (issued id live) (grows id.index)
    · rcases Finset.mem_insert.mp member with same | member
      · subst same; exact .inr (Nat.le_refl _)
      · exact .inl member
  | modify stored accepts =>
    refine ⟨fun id live => ?_,fun _ => Nat.le_refl _,fun state id member => .inl ?_⟩
    · rcases Finmap.mem_insert.mp live with same | live
      · subst same; exact issued _ (Finmap.mem_of_lookup_eq_some stored)
      · exact issued id live
    · unfold UndoState.modify at member
      split at member
      · exact member
      · split at member <;> exact member
  | remove stored =>
    refine ⟨fun id live => ?_,fun _ => Nat.le_refl _,fun state id member => .inl ?_⟩
    · exact issued id (Finmap.mem_erase.mp live).2
    · unfold UndoState.remove at member
      split at member
      · exact Finset.mem_of_mem_erase member
      · split at member
        · exact member
        · split at member <;> exact member

section
variable [DecidableEq K]

theorem journal_performs {start T T' : Tables S} {state : UndoState V} {op : Op V} {f : UndoState V → UndoState V}
    (journal : Journal start T state) (performs : Performs op T T' f) : Journal start T' (f state) := by
  obtain ⟨issued,grows,news⟩ := performs_issued performs journal.issued
  let D : Database S := ⟨T,[state],0,false,0⟩
  have ran := (perform_session_iff (D := D) rfl rfl).mpr ⟨T',f,performs,rfl⟩
  obtain ⟨state',shape,records⟩ := perform_records (D := D) rfl rfl journal.toRecords ran
  obtain rfl : f state = state' := by simpa using congrArg Database.stack shape
  refine { records with
    started := journal.started
    issued := issued
    grows := fun t => Nat.le_trans (journal.grows t) (grows t)
    fresh := fun id member => ?_ }
  rcases news state id member with before | handedOut
  · exact journal.fresh id before
  · exact Nat.le_trans (journal.grows _) handedOut

end

/-- An operation of the inner session is an operation of the merged one. -/
theorem merges_performs {start middle T T' : Tables S} {outer inner merged : UndoState V} {op : Op V}
    {f : UndoState V → UndoState V} (around : Journal start middle outer) (within : Journal middle T inner)
    (merges : Merges outer inner merged) (performs : Performs op T T' f) : Merges outer (f inner) (f merged) := by
  cases performs with
  | @create t constructor T absent accepts =>
    -- Nobody has seen the new id, so both states are silent about it.
    have unissued : middle.next_id t ≤ T.next_id t := within.grows t
    have inMiddle := within.started.absent ⟨t,T.next_id t⟩ unissued
    have inStart := around.started.absent ⟨t,T.next_id t⟩ (Nat.le_trans (around.grows t) unissued)
    have outerTraces := around.traces ⟨t,T.next_id t⟩
    have innerTraces := within.traces ⟨t,T.next_id t⟩
    rw [Finmap.lookup_eq_none.mpr absent,inMiddle] at innerTraces
    rw [inStart,inMiddle] at outerTraces
    refine ⟨fun id => ?_,fun u => ?_⟩
    · rw [create_entry,create_entry]
      by_cases same : id = ⟨t,T.next_id t⟩
      · rw [if_pos same,if_pos same,merges.entry,same]
        generalize outer.entry _ = a at outerTraces
        generalize inner.entry _ = b at innerTraces
        cases outerTraces
        cases innerTraces
        rfl
      · rw [if_neg same,if_neg same,merges.entry]
    · rw [create_next,create_next,merges.next,Option.or_assoc]
  | @modify id m T v stored accepts =>
    have outerTraces := around.traces id
    have innerTraces := within.traces id
    rw [stored] at innerTraces
    refine ⟨fun b => ?_,fun u => ?_⟩
    · rw [modify_entry,modify_entry]
      by_cases same : b = id
      · rw [if_pos same,if_pos same,merges.entry,same,Entry.merge_modify outerTraces innerTraces]
      · rw [if_neg same,if_neg same,merges.entry]
    · rw [modify_next,modify_next,merges.next]
  | @remove id T v stored =>
    have outerTraces := around.traces id
    have innerTraces := within.traces id
    rw [stored] at innerTraces
    refine ⟨fun b => ?_,fun u => ?_⟩
    · rw [remove_entry,remove_entry]
      by_cases same : b = id
      · rw [if_pos same,if_pos same,merges.entry,same,Entry.merge_remove outerTraces innerTraces]
      · rw [if_neg same,if_neg same,merges.entry]
    · rw [remove_next,remove_next,merges.next]

/-- A state whose entries fit the tables is a record of how they changed. -/
private theorem records_of_traces {start T : Tables S} {state : UndoState V}
    (traces : ∀ id, Entry.Traces (start.objects.lookup id) (T.objects.lookup id) (state.entry id))
    (next : ∀ t, start.next_id t = (state.old_index_next_ids.lookup t).getD (T.next_id t)) :
    Records start T state where
  object id := by
    have original := (traces id).original
    rw [original]
    simp only [UndoState.original,UndoState.entry]
    cases state.removed.lookup id <;> cases state.old_values.lookup id <;> simp
  next := next
  old_live id member := by
    obtain ⟨live,unnew,kept⟩ := (traces id).old_live (mem_iff_isSome.mp member)
    refine ⟨mem_iff_isSome.mpr live,by simpa [UndoState.entry] using unnew,fun gone => ?_⟩
    rw [mem_iff_isSome] at gone
    exact Bool.false_ne_true (kept.symm.trans gone)
  new_live id member := by
    have live := (traces id).new_live (by simpa [UndoState.entry] using member)
    exact mem_iff_isSome.mpr live
  removed_live id member live := by
    have dead := (traces id).removed_dead (mem_iff_isSome.mp member)
    rw [mem_iff_isSome,dead] at live
    cases live

/-- The merged state leads back to the start of the outer session. -/
theorem journal_merges {start middle T : Tables S} {outer inner merged : UndoState V}
    (around : Journal start middle outer) (within : Journal middle T inner) (merges : Merges outer inner merged) :
    Journal start T merged := by
  have traces : ∀ id, Entry.Traces (start.objects.lookup id) (T.objects.lookup id) (merged.entry id) := by
    intro id
    rw [merges.entry id]
    refine Entry.traces_merge (around.traces id) (within.traces id) fun was => ?_
    have live : id ∈ start.objects := Finmap.lookup_isSome.mp was
    have old := around.started id live
    by_contra created
    have new := within.fresh id (by simpa [UndoState.entry] using created)
    have := around.grows id.index
    omega
  have next : ∀ t, start.next_id t = (merged.old_index_next_ids.lookup t).getD (T.next_id t) := by
    intro t
    rw [merges.next t,around.next t,within.next t]
    cases outer.old_index_next_ids.lookup t <;> rfl
  refine { records_of_traces traces next with
    started := around.started
    issued := within.issued
    grows := fun t => Nat.le_trans (around.grows t) (within.grows t)
    fresh := fun id member => ?_ }
  have created : (merged.entry id).new = true := by simpa [UndoState.entry] using member
  rw [merges.entry id] at created
  rcases Entry.new_of_merge created with before | after
  · exact around.fresh id (by simpa [UndoState.entry] using before)
  · exact Nat.le_trans (around.grows _) (within.fresh id (by simpa [UndoState.entry] using after))

/-- The inner session touches nothing that the outer one deleted. -/
private theorem causal_of_journals {start middle T : Tables S} {outer inner : UndoState V}
    (around : Journal start middle outer) (within : Journal middle T inner) (id : ObjectId)
    (touched : id ∈ inner.old_values ∨ id ∈ inner.removed) : id ∉ outer.removed := by
  intro gone
  have dead := (around.traces id).removed_dead (mem_iff_isSome.mp gone)
  have live : middle.objects.lookup id ≠ none := by
    rw [within.object id]
    rcases touched with old | removed
    · obtain ⟨v,saved⟩ := Finmap.mem_iff.mp old
      have kept := Finmap.lookup_eq_none.mpr (within.old_live id old).2.2
      simp [UndoState.original,kept,saved]
    · obtain ⟨v,saved⟩ := Finmap.mem_iff.mp removed
      simp [UndoState.original,saved]
  exact live (by simpa using dead)

/-! ### Sessions -/

section
variable [DecidableEq K]

theorem performAll_append (first rest : List (Op V)) (D : Database S) :
    (performAll (first ++ rest)).run D = (do performAll first; performAll rest : Exec S Unit).run D := by
  induction first generalizing D with
  | nil => rfl
  | cons op first ih =>
    simp only [List.cons_append,performAll,EStateM.run_bind]
    cases (perform op).run D with
    | ok a M =>
      have later := ih M
      rw [EStateM.run_bind] at later
      exact later
    | error e M => rfl

theorem performAll_journal {start : Tables S} (ops : List (Op V)) {D D' : Database S} {state : UndoState V}
    {older : List (UndoState V)} (enabled : D.disabled = false) (top : D.stack = state :: older)
    (journal : Journal start D.tables state) (ran : (performAll ops).run D = .ok () D') :
    ∃ state', D' = { D with tables := D'.tables, stack := state' :: older } ∧ Journal start D'.tables state' := by
  induction ops generalizing D state with
  | nil =>
    cases ran
    exact ⟨state,by rw [← top],journal⟩
  | cons op rest ih =>
    obtain ⟨_,M,first,later⟩ := Throwing.run_bind_ok.mp ran
    obtain ⟨T,f,performs,rfl⟩ := (perform_session_iff enabled top).mp first
    exact ih (D := { D with tables := T, stack := f state :: older }) enabled rfl
      (journal_performs journal performs) later

/-- The inner session beside a run of the same operations on the merged state. -/
private theorem performAll_merges {start middle : Tables S} {outer : UndoState V} (ops : List (Op V))
    {D D' E : Database S} {inner merged : UndoState V} {older rest : List (UndoState V)}
    (around : Journal start middle outer) (within : Journal middle D.tables inner)
    (merges : Merges outer inner merged) (enabled : D.disabled = false) (top : D.stack = inner :: older)
    (same : E.tables = D.tables) (enabledE : E.disabled = false) (topE : E.stack = merged :: rest)
    (ran : (performAll ops).run D = .ok () D') :
    ∃ inner' merged', D' = { D with tables := D'.tables, stack := inner' :: older } ∧
      (performAll ops).run E = .ok () { E with tables := D'.tables, stack := merged' :: rest } ∧
      Journal middle D'.tables inner' ∧ Merges outer inner' merged' := by
  induction ops generalizing D E inner merged with
  | nil =>
    cases ran
    refine ⟨inner,merged,by rw [← top],?_,within,merges⟩
    rw [← same,← topE]
    rfl
  | cons op ops ih =>
    obtain ⟨_,M,first,later⟩ := Throwing.run_bind_ok.mp ran
    obtain ⟨T,f,performs,rfl⟩ := (perform_session_iff enabled top).mp first
    have firstE := (perform_session_iff enabledE topE).mpr ⟨T,f,same ▸ performs,rfl⟩
    obtain ⟨inner',merged',shape,ranE,journal,merges'⟩ := ih (D := { D with tables := T, stack := f inner :: older })
      (E := { E with tables := T, stack := f merged :: rest }) (journal_performs within performs) (merges_performs around within merges performs) enabled rfl rfl enabledE rfl
      later
    exact ⟨inner',merged',shape,Throwing.run_bind_ok.mpr ⟨(),_,firstE,ranE⟩,journal,merges'⟩

/-- When undoing a recorded session returns, and what it leaves. -/
theorem undo_iff {start : Tables S} {D E : Database S} {state : UndoState V} {older : List (UndoState V)}
    {order : Order} (enabled : D.disabled = false) (active : D.active_sessions ≠ 0) (top : D.stack = state :: older)
    (records : Records start D.tables state) (enumerates : order.Enumerates state) :
    (undo order).run D = .ok () E ↔ KeysFree start D.tables order ∧
      E = { D with
        tables := start
        stack := if older.isEmpty then [.fresh] else older
        active_sessions := D.active_sessions - 1 } := by
  have runs : (undo order).run D = (do
      onTables (replay order state)
      modifyGet fun D => ((),{ D with
        stack := if older.isEmpty then [.fresh] else older
        disabled := false
        active_sessions := D.active_sessions - 1 }) : Exec S Unit).run { D with disabled := true } := by
    simp [undo,enabled,active,top]
  rw [runs,Throwing.run_bind_ok]
  constructor
  · rintro ⟨⟨⟩,M,ran,done⟩
    obtain ⟨T,replayed,rfl⟩ := onTables_ok.mp ran
    obtain ⟨free,rfl⟩ := (replay_iff records enumerates).mp replayed
    cases done
    exact ⟨free,by rw [← enabled]⟩
  · rintro ⟨free,rfl⟩
    refine ⟨(),_,onTables_ok.mpr ⟨start,(replay_iff records enumerates).mpr ⟨free,rfl⟩,rfl⟩,?_⟩
    rw [← enabled]
    rfl

/-- Two nested sessions, run one inside the other. -/
structure Nest (D outer inner : Database S) (force forceInner : Bool) (first second : List (Op V)) : Prop where
  opens : D.disabled = false ∨ force = true
  outer_ran : (performAll first).run (start_undo_session force D) = .ok () outer
  inner_ran : (performAll second).run (start_undo_session forceInner outer) = .ok () inner

/-- Merging leaves the state that one session with all operations records. -/
def RecordsAsOne (D inner : Database S) (force : Bool) (ops : List (Op V)) (order : Order) : Prop :=
  ∃ merged single state, (merge order).run inner = .ok () merged ∧
    (performAll ops).run (start_undo_session force D) = .ok () single ∧ merged.tables = single.tables ∧
    merged.stack.head? = some state ∧ single.stack.head? = some state

/-- Undoing the merged session and undoing the two sessions one by one return
    with the same objects and next ids. -/
def UndoesAsTwo (inner : Database S) (orderInner orderOuter order : Order) : Prop :=
  ∃ T, Restores ((do merge orderInner; undo order : Exec S Unit).run inner) T ∧
    Restores ((do undo orderInner; undo orderOuter : Exec S Unit).run inner) T

/-- What two nested sessions leave on the stack. -/
private theorem Nest.shape {D outer inner : Database S} {force forceInner : Bool} {first second : List (Op V)}
    (nest : Nest D outer inner force forceInner first second) (issued : Issued D.tables) :
    ∃ around within merged, outer.stack = around :: D.stack.take D.max_size ∧
      inner = { D with
        tables := inner.tables
        stack := within :: (around :: D.stack.take D.max_size).take D.max_size
        active_sessions := D.active_sessions + 2
        disabled := false } ∧
      (performAll (first ++ second)).run (start_undo_session force D) = .ok () { D with
        tables := inner.tables
        stack := merged :: D.stack.take D.max_size
        active_sessions := D.active_sessions + 1
        disabled := false } ∧
      Journal D.tables outer.tables around ∧ Journal outer.tables inner.tables within ∧
      Merges around within merged := by
  have outerRan := nest.outer_ran
  rw [start_opens nest.opens] at outerRan
  obtain ⟨around,shape,journal⟩ := performAll_journal first (D := { D with
    disabled := false, stack := .fresh :: D.stack.take D.max_size, active_sessions := D.active_sessions + 1 })
    rfl rfl (journal_fresh issued) outerRan
  have enabled : outer.disabled = false := by rw [shape]
  have innerRan := nest.inner_ran
  rw [start_opens (.inl enabled)] at innerRan
  -- Before its first operation the inner session adds nothing.
  have silent : Merges around UndoState.fresh around :=
    ⟨fun id => by simp [UndoState.entry,UndoState.fresh,Entry.merge],fun t => by simp [UndoState.fresh]⟩
  obtain ⟨within,merged,shapeInner,single,journalInner,merges⟩ := performAll_merges second
    (D := { outer with
      disabled := false, stack := .fresh :: outer.stack.take outer.max_size
      active_sessions := outer.active_sessions + 1 })
    (E := outer) journal (journal_fresh journal.issued) silent rfl rfl rfl enabled (by rw [shape]) innerRan
  refine ⟨around,within,merged,by rw [shape],?_,?_,journal,journalInner,merges⟩
  · rw [shapeInner,shape]
  · rw [performAll_append,Throwing.run_bind_ok]
    refine ⟨(),outer,nest.outer_ran,?_⟩
    rw [single,shape]

/-- With room for two states `merge` gives the state of a single session. When
    both ways of undoing return, they give the tables before both sessions; they
    return exactly when the keys that the old values need are free. -/
theorem merge_law_iff {D outer inner : Database S} {force forceInner : Bool} {first second : List (Op V)}
    {orderInner orderOuter order : Order} (issued : Issued D.tables)
    (nest : Nest D outer inner force forceInner first second)
    (visitsInner : ∀ state, inner.stack.head? = some state → orderInner.Enumerates state)
    (visitsOuter : ∀ state, outer.stack.head? = some state → orderOuter.Enumerates state)
    (visits : ∀ merged state, (merge orderInner).run inner = .ok () merged →
      merged.stack.head? = some state → order.Enumerates state) :
    (RecordsAsOne D inner force (first ++ second) orderInner ↔ 0 < D.max_size) ∧
    (RecordsAsOne D inner force (first ++ second) orderInner ∧ UndoesAsTwo inner orderInner orderOuter order ↔
      0 < D.max_size ∧ KeysFree outer.tables inner.tables orderInner ∧
        KeysFree D.tables outer.tables orderOuter ∧ KeysFree D.tables inner.tables order) := by
  obtain ⟨around,within,single,outerTop,shape,ranSingle,journal,journalInner,merges⟩ := nest.shape issued
  have orderWithin : orderInner.Enumerates within := visitsInner within (by rw [shape]; rfl)
  have orderAround : orderOuter.Enumerates around := visitsOuter around (by rw [outerTop]; rfl)
  obtain ⟨merged,ranStates,mergedIs⟩ := merge_states_entry orderWithin
    (causal_of_journals journal journalInner)
  obtain rfl : merged = single := mergedIs.unique merges
  rcases Nat.eq_zero_or_pos D.max_size with none | room
  · -- The inner session dropped the state of the outer one.
    have refused : ¬ RecordsAsOne D inner force (first ++ second) orderInner := by
      rintro ⟨_,_,_,ran,_⟩
      rw [shape] at ran
      simp [merge,none] at ran
    simp [none,refused]
  obtain ⟨n,size⟩ : ∃ n, D.max_size = n + 1 := ⟨D.max_size - 1,by omega⟩
  have below : (around :: D.stack.take D.max_size).take D.max_size =
      around :: (D.stack.take D.max_size).take n := by rw [size]; rfl
  rw [below] at shape
  have ranMerge : (merge orderInner).run inner = .ok () { inner with
      stack := merged :: (D.stack.take D.max_size).take n, active_sessions := D.active_sessions + 1 } := by
    rw [shape]
    simp [merge,ranStates]
  have orderMerged : order.Enumerates merged := visits _ merged ranMerge rfl
  have asOne : RecordsAsOne D inner force (first ++ second) orderInner :=
    ⟨_,_,merged,ranMerge,ranSingle,rfl,rfl,rfl⟩
  have enabled : inner.disabled = false := by rw [shape]
  refine ⟨⟨fun _ => room,fun _ => asOne⟩,?_⟩
  rw [and_iff_right asOne,and_iff_right room]
  have undoMerged := fun E => undo_iff (D := { inner with
    stack := merged :: (D.stack.take D.max_size).take n, active_sessions := D.active_sessions + 1 }) (E := E)
    enabled (Nat.succ_ne_zero _) rfl (journal_merges journal journalInner merges).toRecords orderMerged
  have undoInner := fun E => undo_iff (D := inner) (E := E) enabled (by rw [shape]; exact Nat.succ_ne_zero _)
    (by rw [shape]) journalInner.toRecords orderWithin
  have undoOuter := fun E => undo_iff (D := { inner with
    tables := outer.tables, stack := around :: (D.stack.take D.max_size).take n
    active_sessions := inner.active_sessions - 1 }) (E := E) enabled (by rw [shape]; exact Nat.succ_ne_zero _) rfl
    journal.toRecords orderAround
  constructor
  · rintro ⟨T,⟨E,asMerged,_⟩,⟨F,asTwo,_⟩⟩
    obtain ⟨⟨⟩,M,mergedRan,undone⟩ := Throwing.run_bind_ok.mp asMerged
    rw [ranMerge] at mergedRan
    cases mergedRan
    obtain ⟨⟨⟩,N,innerUndone,outerUndone⟩ := Throwing.run_bind_ok.mp asTwo
    obtain ⟨freeInner,rfl⟩ := (undoInner N).mp innerUndone
    exact ⟨freeInner,((undoOuter F).mp outerUndone).1,((undoMerged E).mp undone).1⟩
  · rintro ⟨freeInner,freeOuter,free⟩
    have undone := (undoMerged _).mpr ⟨free,rfl⟩
    have innerUndone := (undoInner _).mpr ⟨freeInner,rfl⟩
    have outerUndone := (undoOuter _).mpr ⟨freeOuter,rfl⟩
    exact ⟨D.tables,⟨_,Throwing.run_bind_ok.mpr ⟨(),_,ranMerge,undone⟩,rfl⟩,
      ⟨_,Throwing.run_bind_ok.mpr ⟨(),_,innerUndone,outerUndone⟩,rfl⟩⟩

end

/-! ### Every database hands out ids in order -/

/-- Each state of the stack is a journal of how the tables above it came about. -/
inductive Nested : Tables S → List (UndoState V) → Prop
  | bottom {T : Tables S} (issued : Issued T) : Nested T []
  | session {start T : Tables S} {state : UndoState V} {older : List (UndoState V)}
      (journal : Journal start T state) (below : Nested start older) : Nested T (state :: older)

theorem Nested.issued {T : Tables S} {stack : List (UndoState V)} (nested : Nested T stack) : Issued T := by
  cases nested with
  | bottom issued => exact issued
  | session journal _ => exact journal.issued

theorem Nested.take {T : Tables S} {stack : List (UndoState V)} (nested : Nested T stack) (n : Nat) :
    Nested T (stack.take n) := by
  induction nested generalizing n with
  | bottom issued => simpa using Nested.bottom issued
  | session journal below ih =>
    cases n with
    | zero => exact .bottom journal.issued
    | succ n => exact .session journal (ih n)

/-- The state below the popped one, or the empty state that stands for it. -/
theorem Nested.pop {T : Tables S} {older : List (UndoState V)} (nested : Nested T older) :
    Nested T (if older.isEmpty then [.fresh] else older) := by
  cases nested with
  | bottom issued => exact .session (journal_fresh issued) (.bottom issued)
  | session journal below => exact .session journal below

section
variable [DecidableEq K]

/-- The databases that the calls of `undo_database` and of the indices can build
    from an empty one. Recording is switched off only while there is nothing to
    undo, as at genesis and when a chain is replayed. -/
inductive Built : Database S → Prop
  | empty (max_size : Nat) : Built ⟨⟨∅,fun _ => 0,by simp⟩,[],0,false,max_size⟩
  | disable {D : Database S} (built : Built D) (bottom : D.stack = []) : Built { D with disabled := true }
  | enable {D : Database S} (built : Built D) : Built { D with disabled := false }
  | set_max_size {D : Database S} (built : Built D) (n : Nat) : Built { D with max_size := n }
  | start {D : Database S} (built : Built D) (force : Bool) : Built (start_undo_session force D)
  | perform {D D' : Database S} (built : Built D) (op : Op V) (ran : (perform op).run D = .ok () D') : Built D'
  | merge {D D' : Database S} (built : Built D) (order : Order)
      (visits : ∀ state, D.stack.head? = some state → order.Enumerates state)
      (ran : (merge order).run D = .ok () D') : Built D'
  | commit {D D' : Database S} (built : Built D) (ran : (commit : Exec S Unit).run D = .ok () D') : Built D'
  | undo {D D' : Database S} (built : Built D) (order : Order)
      (visits : ∀ state, D.stack.head? = some state → order.Enumerates state)
      (ran : (undo order).run D = .ok () D') : Built D'
  | pop_commit {D D' : Database S} (built : Built D) (order : Order)
      (visits : ∀ state, D.stack.head? = some state → order.Enumerates state)
      (ran : (pop_commit order).run D = .ok () D') : Built D'

/-- What every call keeps. -/
private structure Orderly (D : Database S) : Prop where
  nested : Nested D.tables D.stack
  recorded : D.disabled = true → D.stack = []

private theorem orderly_perform {D D' : Database S} {op : Op V} (orderly : Orderly D)
    (ran : (perform op).run D = .ok () D') : Orderly D' := by
  obtain ⟨T,f,performs,rfl⟩ := perform_iff.mp ran
  obtain ⟨tables,stack,active,disabled,size⟩ := D
  obtain ⟨nested,recorded⟩ := orderly
  have issued := (performs_issued performs nested.issued).1
  cases disabled with
  | true =>
    obtain rfl : stack = [] := recorded rfl
    exact ⟨.bottom issued,fun _ => rfl⟩
  | false =>
    cases nested with
    | bottom before =>
      exact ⟨.session (journal_performs (journal_fresh before) performs) (.bottom before),nofun⟩
    | session journal below => exact ⟨.session (journal_performs journal performs) below,nofun⟩

omit [DecidableEq K] in
private theorem orderly_start {D : Database S} (orderly : Orderly D) (force : Bool) :
    Orderly (start_undo_session force D) := by
  by_cases opens : D.disabled = false ∨ force = true
  · rw [start_opens opens]
    have issued := orderly.nested.issued
    exact ⟨.session (journal_fresh issued) (orderly.nested.take _),nofun⟩
  · obtain ⟨off,unforced⟩ : D.disabled = true ∧ force = false := by simpa using opens
    have same : start_undo_session force D = D := by simp [start_undo_session,off,unforced]
    rwa [same]

omit [DecidableEq K] in
private theorem orderly_merge {D D' : Database S} (orderly : Orderly D) {order : Order}
    (visits : ∀ state, D.stack.head? = some state → order.Enumerates state)
    (ran : (merge order).run D = .ok () D') : Orderly D' := by
  obtain ⟨tables,stack,active,disabled,size⟩ := D
  obtain ⟨nested,recorded⟩ := orderly
  by_cases idle : active = 0
  · simp [merge,idle] at ran
  cases nested with
  | bottom => simp [merge,idle] at ran
  | session inner below =>
    cases below with
    | bottom => simp [merge,idle] at ran
    | session outer below =>
      obtain ⟨merged,ranStates,merges⟩ := merge_states_entry (visits _ rfl) (causal_of_journals outer inner)
      simp [merge,idle,ranStates] at ran
      subst ran
      exact ⟨.session (journal_merges outer inner merges) below,fun off => by cases recorded off⟩

private theorem orderly_undo {D D' : Database S} (orderly : Orderly D) {order : Order}
    (visits : ∀ state, D.stack.head? = some state → order.Enumerates state)
    (ran : (undo order).run D = .ok () D') : Orderly D' := by
  obtain ⟨tables,stack,active,disabled,size⟩ := D
  obtain ⟨nested,recorded⟩ := orderly
  cases disabled with
  | true => simp [undo] at ran
  | false =>
    by_cases idle : active = 0
    · simp [undo,idle] at ran
    cases nested with
    | bottom => simp [undo,idle] at ran
    | session journal below =>
      obtain ⟨_,rfl⟩ := (undo_iff rfl idle rfl journal.toRecords (visits _ rfl)).mp ran
      exact ⟨below.pop,fun off => absurd off Bool.false_ne_true⟩

private theorem orderly_pop_commit {D D' : Database S} (orderly : Orderly D) {order : Order}
    (visits : ∀ state, D.stack.head? = some state → order.Enumerates state)
    (ran : (pop_commit order).run D = .ok () D') : Orderly D' := by
  obtain ⟨tables,stack,active,disabled,size⟩ := D
  obtain ⟨nested,recorded⟩ := orderly
  by_cases busy : active = 0
  · cases nested with
    | bottom => simp [pop_commit,busy] at ran
    | @session _ _ state older journal below =>
      cases replayed : (onTables (replay order state) : Exec S Unit).run ⟨tables,state :: older,active,true,size⟩ with
      | error e M => simp [pop_commit,busy,busy ▸ replayed] at ran
      | ok _ M =>
        obtain ⟨T,ranT,rfl⟩ := onTables_ok.mp replayed
        obtain ⟨_,rfl⟩ := (replay_iff journal.toRecords (visits _ rfl)).mp ranT
        simp [pop_commit,busy,busy ▸ replayed] at ran
        subst ran
        exact ⟨below,fun off => absurd off Bool.false_ne_true⟩
  · simp [pop_commit,busy] at ran

/-- The condition under which sessions merge is one that every database meets. -/
theorem built_issued {D : Database S} (built : Built D) : Issued D.tables := by
  suffices Orderly D from this.nested.issued
  induction built with
  | empty max_size => exact ⟨.bottom fun id live => absurd live Finmap.notMem_empty,fun _ => rfl⟩
  | disable _ bottom ih => exact ⟨ih.nested,fun _ => bottom⟩
  | enable _ ih => exact ⟨ih.nested,nofun⟩
  | set_max_size _ n ih => exact ⟨ih.nested,ih.recorded⟩
  | start _ force ih => exact orderly_start ih force
  | perform _ op ran ih => exact orderly_perform ih ran
  | merge _ order visits ran ih => exact orderly_merge ih visits ran
  | @commit D D' _ ran ih =>
    by_cases idle : D.active_sessions = 0
    · simp [UndoDatabase.commit,idle] at ran
    · simp [UndoDatabase.commit,idle] at ran
      subst ran
      exact ⟨ih.nested,ih.recorded⟩
  | undo _ order visits ran ih => exact orderly_undo ih visits ran
  | pop_commit _ order visits ran ih => exact orderly_pop_commit ih visits ran

end

/-! ### A renaming and a new account -/

/-- The database inside a second session that opens an account under a key, after a
    first one that renamed the only account. -/
def afterOpening (key : Nat) : Database byValue :=
  match (performAll [.create accounts fun _ => key]).run (start_undo_session false (afterSession rename)) with
  | .ok _ D => D
  | .error _ D => D

private theorem oneAccount_issued : Issued oneAccount.tables := by
  intro id live
  rcases Finmap.mem_insert.mp live with same | stored
  · subst same; decide
  · exact absurd stored Finmap.notMem_empty

private theorem rename_visits (state : UndoState Nat) (top : (afterSession rename).stack.head? = some state) :
    Order.Enumerates ⟨[⟨accounts,0⟩],[],[],[]⟩ state := by
  obtain rfl : ⟨Finmap.insert ⟨accounts,0⟩ 5 ∅,∅,∅,∅⟩ = state := Option.some.inj top
  constructor <;> simp [Finmap.notMem_empty]

/-- The state of the second session, and the state both sessions merge into. -/
private def opened : UndoState Nat := ⟨∅,Finmap.insert accounts 1 ∅,{⟨accounts,1⟩},∅⟩
private def renamedAndOpened : UndoState Nat :=
  ⟨Finmap.insert ⟨accounts,0⟩ 5 ∅,Finmap.insert accounts 1 ∅,{⟨accounts,1⟩},∅⟩

private theorem opened_visits : Order.Enumerates ⟨[],[⟨accounts,1⟩],[accounts],[]⟩ opened := by
  constructor <;> simp [opened,Finmap.notMem_empty]

private theorem renamedAndOpened_visits :
    Order.Enumerates ⟨[⟨accounts,0⟩],[⟨accounts,1⟩],[accounts],[]⟩ renamedAndOpened := by
  constructor <;> simp [renamedAndOpened,Finmap.notMem_empty]

/-- A renamed account and a new one under another name. -/
theorem merge_law_opening :
    RecordsAsOne oneAccount (afterOpening 9) false (rename ++ [.create accounts fun _ => 9])
      ⟨[],[⟨accounts,1⟩],[accounts],[]⟩ ∧
    UndoesAsTwo (afterOpening 9) ⟨[],[⟨accounts,1⟩],[accounts],[]⟩ ⟨[⟨accounts,0⟩],[],[],[]⟩
      ⟨[⟨accounts,0⟩],[⟨accounts,1⟩],[accounts],[]⟩ := by
  have nest : Nest oneAccount (afterSession rename) (afterOpening 9) false false rename
      [.create accounts fun _ => 9] := ⟨.inl rfl,rfl,rfl⟩
  refine (merge_law_iff oneAccount_issued nest ?_ rename_visits ?_).2.mpr
    ⟨by decide,by simp [KeysFree],by simp [KeysFree],by simp,?_⟩
  · intro state top
    obtain rfl : opened = state := Option.some.inj top
    exact opened_visits
  · intro merged state ran top
    cases ran
    obtain rfl : renamedAndOpened = state := Option.some.inj top
    exact renamedAndOpened_visits
  · intro a renamed b created
    obtain rfl := List.mem_singleton.mp renamed
    obtain rfl := List.mem_singleton.mp created
    rintro ⟨v,w,was,now,_,key,member,equal⟩
    obtain rfl : 5 = v := Option.some.inj was
    obtain rfl : 9 = w := Option.some.inj now
    obtain rfl := List.mem_singleton.mp member
    cases equal

/-- The first session frees a key and the second one takes it: undone one by one
    they return, undone at once they throw. -/
theorem merged_takeover_throws :
    (∃ D, (do undo ⟨[],[⟨accounts,1⟩],[accounts],[]⟩; undo ⟨[⟨accounts,0⟩],[],[],[]⟩ : Exec byValue Unit).run
      (afterOpening 5) = .ok () D) ∧
    ¬ ∀ (D outer inner : Database byValue) (force forceInner : Bool) (first second : List (Op Nat))
        (orderInner orderOuter order : Order), Issued D.tables → 0 < D.max_size →
      Nest D outer inner force forceInner first second →
      (∀ state, inner.stack.head? = some state → orderInner.Enumerates state) →
      (∀ state, outer.stack.head? = some state → orderOuter.Enumerates state) →
      (∀ merged state, (merge orderInner).run inner = .ok () merged →
        merged.stack.head? = some state → order.Enumerates state) →
      RecordsAsOne D inner force (first ++ second) orderInner ∧ UndoesAsTwo inner orderInner orderOuter order := by
  refine ⟨⟨_,rfl⟩,fun law => ?_⟩
  obtain ⟨_,T,⟨D,ran,_⟩,_⟩ := law oneAccount (afterSession rename) (afterOpening 5) false false rename
    [.create accounts fun _ => 5] ⟨[],[⟨accounts,1⟩],[accounts],[]⟩ ⟨[⟨accounts,0⟩],[],[],[]⟩
    ⟨[⟨accounts,0⟩],[⟨accounts,1⟩],[accounts],[]⟩ oneAccount_issued (by decide) ⟨.inl rfl,rfl,rfl⟩
    (by
      intro state top
      obtain rfl : opened = state := Option.some.inj top
      exact opened_visits)
    rename_visits
    (by
      intro merged state ran top
      cases ran
      obtain rfl : renamedAndOpened = state := Option.some.inj top
      exact renamedAndOpened_visits)
  have thrown : (do merge ⟨[],[⟨accounts,1⟩],[accounts],[]⟩
                    undo ⟨[⟨accounts,0⟩],[⟨accounts,1⟩],[accounts],[]⟩ : Exec byValue Unit).run (afterOpening 5) =
      .error (.assert_exception "Could not modify object, most likely a index constraint was violated") _ := rfl
  rw [thrown] at ran
  cases ran

end Decent.UndoDatabase

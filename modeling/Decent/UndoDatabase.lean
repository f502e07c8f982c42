import Decent.ObjectDatabase

/-!
The undo database. `undo_state` compresses what a session did into four maps;
`undo` and `pop_commit` replay them: modified objects first, then created ones,
then the next ids, then removed ones. `merge` folds the state of a session into
the state below it. `Records` says what the maps mean: which
tables the session started from. Every create, modify and remove keeps it, and a
replay gives the start back exactly when no modified object finds a unique key of
its old value held by an object the session created, or by a modified object the
replay has yet to reach.
-/
namespace Decent.UndoDatabase
open Decent.ObjectDatabase

variable {V K : Type} {S : Schema V K}

/-- `undo_state`. -/
structure UndoState (V : Type) where
  old_values : Finmap (fun _ : ObjectId => V)
  old_index_next_ids : Finmap (fun _ : IndexId => Nat)
  new_ids : Finset ObjectId
  removed : Finmap (fun _ : ObjectId => V)

/-- The state that `_stack.emplace_back()` adds. -/
def UndoState.fresh : UndoState V := ⟨∅,∅,∅,∅⟩

/-- The object database with its undo database. The back of `_stack` is the
    first element of `stack`. -/
structure Database (S : Schema V K) where
  tables : Tables S
  stack : List (UndoState V)
  active_sessions : Nat
  disabled : Bool
  max_size : Nat

/-- Code that runs on the database and may throw. -/
abbrev Exec (S : Schema V K) (α : Type) := EStateM Exc (Database S) α

/-- Runs code of the object tables. -/
def onTables {α : Type} (x : Run S α) : Exec S α := fun D =>
  match x.run D.tables with
  | .ok a T => .ok a { D with tables := T }
  | .error e T => .error e { D with tables := T }

/-- Updates the state of the innermost session; without one, changes go to a
    state of their own. -/
def record (f : UndoState V → UndoState V) (D : Database S) : Database S :=
  if D.disabled then D
  else match D.stack with
    | [] => { D with stack := [f .fresh] }
    | state :: older => { D with stack := f state :: older }

theorem tables_record (f : UndoState V → UndoState V) (D : Database S) : (record f D).tables = D.tables := by
  simp only [record]
  split
  · rfl
  · split <;> rfl

/-- `undo_database::on_create`. -/
def on_create (id : ObjectId) : Database S → Database S := record fun state =>
  { state with
    old_index_next_ids :=
      if id.index ∈ state.old_index_next_ids then state.old_index_next_ids
      else state.old_index_next_ids.insert id.index id.number
    new_ids := insert id state.new_ids }

/-- `undo_database::on_modify`. -/
def on_modify (id : ObjectId) (v : V) : Database S → Database S := record fun state =>
  if id ∈ state.new_ids then state
  else if id ∈ state.old_values then state
  else { state with old_values := state.old_values.insert id v }

/-- `undo_database::on_remove`. -/
def on_remove (id : ObjectId) (v : V) : Database S → Database S := record fun state =>
  if id ∈ state.new_ids then { state with new_ids := state.new_ids.erase id }
  else match state.old_values.lookup id with
    | some old => { state with removed := state.removed.insert id old, old_values := state.old_values.erase id }
    | none => if id ∈ state.removed then state else { state with removed := state.removed.insert id v }

section
variable [DecidableEq K]

/-- `primary_index::create`. -/
def create (t : IndexId) (constructor : ObjectId → V) : Exec S ObjectId := do
  let id ← onTables (ObjectDatabase.create t constructor)
  modifyGet fun D => (id,on_create id D)

/-- `primary_index::modify`: the old value is saved before the change. -/
def modify (id : ObjectId) (m : V → V) : Exec S Unit := do
  let v ← onTables (get_object id)
  modifyGet fun D => ((),on_modify id v D)
  onTables (ObjectDatabase.modify id m)

/-- `primary_index::remove`. -/
def remove (id : ObjectId) : Exec S Unit := do
  let v ← onTables (get_object id)
  modifyGet fun D => ((),on_remove id v D)
  onTables (ObjectDatabase.remove id)

/-- An operation on the objects inside a session. -/
inductive Op (V : Type)
  | create (t : IndexId) (constructor : ObjectId → V)
  | modify (id : ObjectId) (m : V → V)
  | remove (id : ObjectId)

def perform : Op V → Exec S Unit
  | .create t constructor => do let _ ← create t constructor
  | .modify id m => modify id m
  | .remove id => remove id

def performAll : List (Op V) → Exec S Unit
  | [] => pure ()
  | op :: rest => do perform op; performAll rest

end

/-- `undo_database::start_undo_session`: a disabled database that is not forced
    hands out a session without a state of its own. -/
def start_undo_session (force_enable : Bool) (D : Database S) : Database S :=
  if D.disabled && !force_enable then D
  else { D with
    disabled := if force_enable then false else D.disabled
    stack := .fresh :: D.stack.take D.max_size
    active_sessions := D.active_sessions + 1 }

/-- The order in which the unordered maps of a state are traversed. -/
structure Order where
  old_values : List ObjectId
  new_ids : List ObjectId
  old_index_next_ids : List IndexId
  removed : List ObjectId

/-- Every entry of the state is visited once. -/
structure Order.Enumerates (order : Order) (state : UndoState V) : Prop where
  old_nodup : order.old_values.Nodup
  old_mem : ∀ id, id ∈ order.old_values ↔ id ∈ state.old_values
  new_nodup : order.new_ids.Nodup
  new_mem : ∀ id, id ∈ order.new_ids ↔ id ∈ state.new_ids
  next_nodup : order.old_index_next_ids.Nodup
  next_mem : ∀ t, t ∈ order.old_index_next_ids ↔ t ∈ state.old_index_next_ids
  removed_nodup : order.removed.Nodup
  removed_mem : ∀ id, id ∈ order.removed ↔ id ∈ state.removed

/-- `*+upd` of `merge`. Its two `assert`s end the program where they are compiled
    in. -/
def merge_old_values (state : UndoState V) : List ObjectId → UndoState V → Except Exc (UndoState V)
  | [],prev => pure prev
  | id :: rest,prev =>
    if id ∈ prev.new_ids then merge_old_values state rest prev
    else if id ∈ prev.old_values then merge_old_values state rest prev
    else if id ∈ prev.removed then throw (.undefined "assert( prev_state.removed.find(obj.second->id) == end )")
    else match state.old_values.lookup id with
      | some old => merge_old_values state rest { prev with old_values := prev.old_values.insert id old }
      | none => merge_old_values state rest prev

/-- `*+new` of `merge`. -/
def merge_new_ids : List ObjectId → UndoState V → UndoState V
  | [],prev => prev
  | id :: rest,prev => merge_new_ids rest { prev with new_ids := insert id prev.new_ids }

/-- The loop of `merge` over the id counters. -/
def merge_next_ids (state : UndoState V) : List IndexId → UndoState V → UndoState V
  | [],prev => prev
  | t :: rest,prev =>
    if t ∈ prev.old_index_next_ids then merge_next_ids state rest prev
    else match state.old_index_next_ids.lookup t with
      | some n =>
        merge_next_ids state rest { prev with old_index_next_ids := prev.old_index_next_ids.insert t n }
      | none => merge_next_ids state rest prev

/-- `*+del` of `merge`. -/
def merge_removed (state : UndoState V) : List ObjectId → UndoState V → Except Exc (UndoState V)
  | [],prev => pure prev
  | id :: rest,prev =>
    if id ∈ prev.new_ids then merge_removed state rest { prev with new_ids := prev.new_ids.erase id }
    else match prev.old_values.lookup id with
      | some old => merge_removed state rest
          { prev with removed := prev.removed.insert id old, old_values := prev.old_values.erase id }
      | none =>
        if id ∈ prev.removed then throw (.undefined "assert( prev_state.removed.find( obj.second->id ) == end )")
        else match state.removed.lookup id with
          | some old => merge_removed state rest { prev with removed := prev.removed.insert id old }
          | none => merge_removed state rest prev

/-- What `merge` makes of the state `prev` below the top of the stack. -/
def merge_states (order : Order) (state prev : UndoState V) : Except Exc (UndoState V) := do
  let prev ← merge_old_values state order.old_values prev
  merge_removed state order.removed
    (merge_next_ids state order.old_index_next_ids (merge_new_ids order.new_ids prev))

/-- `undo_database::merge`. -/
def merge (order : Order) : Exec S Unit := do
  let D ← get
  if D.active_sessions = 0 then throw (.assert_exception "_active_sessions > 0")
  match D.stack with
  | state :: prev :: older =>
    match merge_states order state prev with
    | .ok merged => set { D with stack := merged :: older, active_sessions := D.active_sessions - 1 }
    | .error e => throw e
  | _ => throw (.assert_exception "_stack.size() >=2")

section
variable [DecidableEq K]

/-- Gives modified objects their old values. -/
def restore_values (state : UndoState V) : List ObjectId → Run S Unit
  | [] => pure ()
  | id :: rest => do
    match state.old_values.lookup id with
    | some old => ObjectDatabase.modify id fun _ => old
    | none => pure ()
    restore_values state rest

/-- Removes created objects. -/
def remove_new : List ObjectId → Run S Unit
  | [] => pure ()
  | id :: rest => do
    ObjectDatabase.remove id
    remove_new rest

/-- Resets the id counters. -/
def reset_next_ids (state : UndoState V) : List IndexId → Run S Unit
  | [] => pure ()
  | t :: rest => do
    match state.old_index_next_ids.lookup t with
    | some n => EStateM.modifyGet fun T => ((),T.setNext t n)
    | none => pure ()
    reset_next_ids state rest

/-- Puts removed objects back. -/
def insert_removed (state : UndoState V) : List ObjectId → Run S Unit
  | [] => pure ()
  | id :: rest => do
    match state.removed.lookup id with
    | some old => ObjectDatabase.insert id old
    | none => pure ()
    insert_removed state rest

/-- The loops that `undo` and `pop_commit` share. -/
def replay (order : Order) (state : UndoState V) : Run S Unit := do
  restore_values state order.old_values
  remove_new order.new_ids
  reset_next_ids state order.old_index_next_ids
  insert_removed state order.removed

/-- `undo_database::undo`. -/
def undo (order : Order) : Exec S Unit := do
  let D ← get
  if D.disabled then throw (.assert_exception "!_disabled")
  if D.active_sessions = 0 then throw (.assert_exception "_active_sessions > 0")
  set { D with disabled := true }
  match D.stack with
  | [] => throw (.undefined "_stack.back()")
  | state :: older =>
    onTables (replay order state)
    modifyGet fun D => ((),{ D with
      stack := if older.isEmpty then [.fresh] else older
      disabled := false
      active_sessions := D.active_sessions - 1 })

/-- `undo_database::commit`. -/
def commit : Exec S Unit := do
  let D ← get
  if D.active_sessions = 0 then throw (.assert_exception "_active_sessions > 0")
  set { D with active_sessions := D.active_sessions - 1 }

/-- `undo_database::pop_commit`: an exception enables the database before it is
    thrown on. -/
def pop_commit (order : Order) : Exec S Unit := do
  let D ← get
  if D.active_sessions ≠ 0 then throw (.assert_exception "_active_sessions == 0")
  match D.stack with
  | [] => throw (.assert_exception "!_stack.empty()")
  | state :: older =>
    set { D with disabled := true }
    tryCatch (do
        onTables (replay order state)
        modifyGet fun D => ((),{ D with stack := older }))
      fun e => do
        modifyGet fun D => ((),{ D with disabled := false })
        throw e
    modifyGet fun D => ((),{ D with disabled := false })

end

end Decent.UndoDatabase

import Decent.SecondaryIndices

/-!
The secondary indices over a run of the database. Creating and removing objects
never takes them out of step. A modification does when it changes who a proposal is
listed under, or when the container refuses it and erases a listed object; an undo
does when it puts back a listed object.
-/
namespace Decent.SecondaryIndices
open Decent.ObjectDatabase (Exc IndexId ObjectId Schema Tables Accepts Collides get_object put_lookup drop_lookup
  get_object_ok accepts_iff)
open Decent.Authorities (Authority)
open Decent.UndoDatabase (UndoState Database Exec Op Order onTables on_create on_modify on_remove record tables_record)
open Throwing

variable {V K Key : Type} {S : Schema V K} [LinearOrder Key] [DecidableEq K] [Inhabited Key] {casts : Casts V Key}

/-- What is true of a node whose secondary indices are in step. -/
abbrev Good (casts : Casts V Key) (I : Indexed S Key) : Prop := InStep casts I.database.tables I.secondary

/-! ### One operation -/

omit [LinearOrder Key] [DecidableEq K] [Inhabited Key] in
theorem run_onTables {α : Type} (x : ObjectDatabase.Run S α) (I : Indexed S Key) :
    (onDatabase (onTables x)).run I =
      match x.run I.database.tables with
      | .ok a T => .ok a { I with database := { I.database with tables := T } }
      | .error e T => .error e { I with database := { I.database with tables := T } } := by
  show onDatabase (onTables x) I = _
  have inner : (onTables x).run I.database = match x.run I.database.tables with
      | .ok a T => .ok a { I.database with tables := T }
      | .error e T => .error e { I.database with tables := T } := rfl
  rw [onDatabase,inner]
  cases x.run I.database.tables <;> rfl

theorem create_good {I : Indexed S Key} (good : Good casts I) (t : IndexId) (constructor : ObjectId → V) :
    Good casts (endState ((create casts t constructor).run I)) := by
  rw [create,EStateM.run_bind,run_onTables]
  cases ran : (ObjectDatabase.create t constructor).run I.database.tables with
  | error e T =>
    rw [ObjectDatabase.create_error ran]
    exact good
  | ok id T =>
    obtain ⟨rfl,absent,accepts,rfl⟩ := ObjectDatabase.create_ok.mp ran
    show InStep casts (on_create _ _).tables _
    rw [on_create,tables_record]
    exact good.inserted (fun b other => by simp [other]) (Finmap.lookup_eq_none.mpr absent) (by simp)

omit [DecidableEq K] in
theorem remove_good {I : Indexed S Key} (good : Good casts I) (id : ObjectId) :
    Good casts (endState ((remove casts id).run I)) := by
  rw [remove,EStateM.run_bind,run_onTables]
  cases ran : (get_object id).run I.database.tables with
  | error e T =>
    rw [(ObjectDatabase.get_object_error ran).2]
    exact good
  | ok v T =>
    obtain ⟨stored,rfl⟩ := get_object_ok.mp ran
    let J : Indexed S Key := ⟨on_remove id v I.database,object_removed casts id v I.secondary⟩
    show Good casts (endState ((onDatabase (onTables (ObjectDatabase.remove id)) : Prog S Key Unit).run J))
    have tables : J.database.tables = I.database.tables := tables_record _ _
    have removes : (ObjectDatabase.remove id).run J.database.tables = .ok () (J.database.tables.drop id) :=
      ObjectDatabase.remove_ok.mpr ⟨by rw [tables]; exact Finmap.mem_of_lookup_eq_some stored,rfl⟩
    rw [run_onTables,removes]
    exact good.removed (fun b other => by simp [tables,other]) stored (by simp)

/-- The modification keeps the indices in step: the container accepts it, or erases an
    object that is not listed; and a proposal stays listed as it is. -/
def Unseen (casts : Casts V Key) (T : Tables S) (id : ObjectId) (v w : V) : Prop :=
  (Listed casts id v → Accepts T id w) ∧
    (id.index = proposal_index → ∀ a, a ∈ approvals casts w ↔ a ∈ approvals casts v)

omit [DecidableEq K] in
private theorem run_get_object {id : ObjectId} {T : Tables S} {v : V} (stored : T.objects.lookup id = some v) :
    (get_object id).run T = .ok v T := get_object_ok.mpr ⟨stored,rfl⟩

theorem run_modify {I : Indexed S Key} {id : ObjectId} {v : V} (stored : I.database.tables.objects.lookup id = some v)
    (m : V → V) :
    (modify casts id m).run I =
      match (ObjectDatabase.modify id m).run I.database.tables with
      | .ok _ U => .ok () ⟨{ on_modify id v I.database with tables := U },
          object_modified casts id (m v) (about_to_modify casts id v I.secondary)⟩
      | .error e U => .error e ⟨{ on_modify id v I.database with tables := U },about_to_modify casts id v I.secondary⟩ := by
  rw [modify,EStateM.run_bind,run_onTables,run_get_object stored]
  let J : Indexed S Key := ⟨on_modify id v I.database,about_to_modify casts id v I.secondary⟩
  have tables : J.database.tables = I.database.tables := tables_record _ _
  show (do
    onDatabase (onTables (ObjectDatabase.modify id m))
    onSecondary (object_modified casts id (m v)) : Prog S Key Unit).run J = _
  rw [EStateM.run_bind,run_onTables,tables]
  cases (ObjectDatabase.modify id m).run I.database.tables <;> rfl

theorem modify_good {I : Indexed S Key} (good : Good casts I) (id : ObjectId) (m : V → V)
    (unseen : ∀ v, I.database.tables.objects.lookup id = some v → Unseen casts I.database.tables id v (m v)) :
    Good casts (endState ((modify casts id m).run I)) := by
  cases stored : I.database.tables.objects.lookup id with
  | none =>
    rw [modify,EStateM.run_bind,run_onTables]
    cases ran : (get_object id).run I.database.tables with
    | error e T =>
      rw [(ObjectDatabase.get_object_error ran).2]
      exact good
    | ok v T => rw [(get_object_ok.mp ran).1] at stored; cases stored
  | some v =>
    obtain ⟨accepted,same⟩ := unseen v stored
    rw [run_modify stored]
    cases changed : (ObjectDatabase.modify id m).run I.database.tables with
    | ok _ U =>
      obtain ⟨w,found,accepts,rfl⟩ := ObjectDatabase.modify_ok.mp changed
      obtain rfl : v = w := Option.some.inj (stored.symm.trans found)
      exact good.modified (fun b other => by simp [other]) stored (by simp) same
    | error e U =>
      obtain ⟨refused,rfl⟩ := ObjectDatabase.modify_error stored changed
      have unlisted : ¬ Listed casts id v := fun listed => refused (accepted listed)
      have dropped : InStep casts (I.database.tables.drop id) I.secondary := by
        refine good.unlisted id (fun b other => by simp [other]) (fun w found => ?_) (by simp)
        rw [stored] at found
        cases found
        exact unlisted
      refine dropped.congr rfl ?_ ?_ ?_ <;>
      · simp only [endState_error,about_to_modify]
        split <;> rfl

/-- A modification that returns has stored the new value. -/
theorem modify_lookup {I J : Indexed S Key} {id : ObjectId} {w : V}
    (ran : (modify casts id (fun _ => w)).run I = .ok () J) (b : ObjectId) :
    J.database.tables.objects.lookup b = if b = id then some w else I.database.tables.objects.lookup b := by
  cases stored : I.database.tables.objects.lookup id with
  | none =>
    simp only [modify,run_bind_ok,run_onTables] at ran
    obtain ⟨v,_,got,_⟩ := ran
    cases read : (get_object id).run I.database.tables with
    | ok u T => rw [(get_object_ok.mp read).1] at stored; cases stored
    | error e T => rw [read] at got; cases got
  | some v =>
    rw [run_modify stored] at ran
    cases changed : (ObjectDatabase.modify id fun _ => w).run I.database.tables with
    | ok _ U =>
      rw [changed] at ran
      obtain ⟨_,_,accepts,rfl⟩ := ObjectDatabase.modify_ok.mp changed
      cases ran
      exact put_lookup _ _ _ accepts b
    | error e U => rw [changed] at ran; cases ran

/-! ### Undoing a session -/

/-- What `restore_values` has made of an object once it has been through `before`. -/
def restored (state : UndoState V) (before : List ObjectId) (T : Tables S) (id : ObjectId) : Option V :=
  if id ∈ before then (state.old_values.lookup id).or (T.objects.lookup id) else T.objects.lookup id

/-- Restoring the old values goes unseen by the secondary indices. -/
structure Restorable (casts : Casts V Key) (order : Order) (state : UndoState V) (T : Tables S) : Prop where
  listed : ∀ id old v, state.old_values.lookup id = some old → T.objects.lookup id = some v →
    id.index = proposal_index → ∀ a, a ∈ approvals casts old ↔ a ∈ approvals casts v
  keys : ∀ before id after, order.old_values = before ++ id :: after → ∀ old, state.old_values.lookup id = some old →
    ∀ b w, b ≠ id → restored state before T b = some w → ¬ Collides S id old b w

theorem restore_values_good {order : Order} {state : UndoState V} {T : Tables S} (restorable : Restorable casts order state T)
    (after : List ObjectId) : ∀ {before : List ObjectId} {I : Indexed S Key}, order.old_values = before ++ after →
      (∀ b, I.database.tables.objects.lookup b = restored state before T b) → Good casts I →
      Good casts (endState ((restore_values casts state after).run I)) := by
  induction after with
  | nil => exact fun _ _ good => good
  | cons id rest ih =>
    intro before I split now good
    have next : order.old_values = (before ++ [id]) ++ rest := by rw [split,List.append_assoc]; rfl
    rw [restore_values]
    cases saved : state.old_values.lookup id with
    | none =>
      refine ih next (fun b => ?_) good
      rw [now b,restored,restored]
      by_cases same : b = id
      · subst same; simp [saved]
      · simp [same]
    | some old =>
      have unseen : ∀ v, I.database.tables.objects.lookup id = some v → Unseen casts I.database.tables id v old := by
        intro v found
        refine ⟨fun _ => (accepts_iff _ _ _).mpr fun b w other stored => ?_,fun proposal => ?_⟩
        · exact restorable.keys before id rest split old saved b w other (now b ▸ stored)
        · rw [now id,restored] at found
          by_cases done : id ∈ before
          · rw [if_pos done,saved] at found
            cases found
            exact fun _ => Iff.rfl
          · rw [if_neg done] at found
            exact restorable.listed id old v saved found proposal
      refine ends_then (modify_good good id (fun _ => old) unseen) fun _ J ran modified => ih next (fun b => ?_) modified
      rw [modify_lookup ran b,now b,restored,restored]
      by_cases same : b = id
      · subst same; simp [saved]
      · simp [same]

omit [DecidableEq K] in
theorem remove_new_good (ids : List ObjectId) : ∀ {I : Indexed S Key}, Good casts I →
    Good casts (endState ((remove_new casts ids).run I)) := by
  induction ids with
  | nil => exact fun good => good
  | cons id rest ih =>
    intro I good
    exact ends_then (remove_good good id) fun _ J _ removed => ih removed

omit [LinearOrder Key] [DecidableEq K] [Inhabited Key] in
/-- Code of the tables that throws nothing on and leaves the objects as they are. -/
theorem run_onTables_tables {α : Type} (x : ObjectDatabase.Run S α) (I : Indexed S Key) :
    (endState ((onDatabase (onTables x) : Prog S Key α).run I)).database.tables = endState (x.run I.database.tables) ∧
      (endState ((onDatabase (onTables x) : Prog S Key α).run I)).secondary = I.secondary := by
  rw [run_onTables]
  cases x.run I.database.tables <;> exact ⟨rfl,rfl⟩

omit [DecidableEq K] in
theorem reset_next_ids_objects (state : UndoState V) (ts : List IndexId) : ∀ T : Tables S,
    (endState ((UndoDatabase.reset_next_ids state ts).run T)).objects = T.objects := by
  induction ts with
  | nil => exact fun _ => rfl
  | cons t rest ih =>
    intro T
    rw [UndoDatabase.reset_next_ids]
    cases state.old_index_next_ids.lookup t with
    | none => exact ih T
    | some n => exact ih (T.setNext t n)

theorem insert_removed_inStep {state : UndoState V} {X : Secondary Key}
    (unlisted : ∀ id v, state.removed.lookup id = some v → ¬ Listed casts id v) (ids : List ObjectId) :
    ∀ {T : Tables S}, InStep casts T X → InStep casts (endState ((UndoDatabase.insert_removed state ids).run T)) X := by
  induction ids with
  | nil => exact fun inStep => inStep
  | cons id rest ih =>
    intro T inStep
    rw [UndoDatabase.insert_removed]
    cases gone : state.removed.lookup id with
    | none => exact ih inStep
    | some old =>
      show InStep casts (endState (EStateM.run (do
        ObjectDatabase.insert id old
        UndoDatabase.insert_removed state rest : ObjectDatabase.Run S Unit) T)) X
      refine ends_bind (Q := fun U => InStep casts U X) (fun e U ran => ?_) fun _ U ran => ?_
      · rw [ObjectDatabase.insert_error ran]
        exact inStep
      · obtain ⟨absent,accepts,rfl⟩ := ObjectDatabase.insert_ok.mp ran
        refine ih (inStep.unlisted id (fun b other => by simp [other]) (fun v found => ?_) fun v found => ?_)
        · rw [Finmap.lookup_eq_none.mpr absent] at found
          cases found
        · rw [put_lookup,if_pos rfl] at found
          cases found
          exact unlisted id old gone

/-- The session can be undone behind the back of the secondary indices. -/
structure Undoable (casts : Casts V Key) (order : Order) (state : UndoState V) (T : Tables S) : Prop
    extends Restorable casts order state T where
  unlisted : ∀ id v, state.removed.lookup id = some v → ¬ Listed casts id v

theorem replay_good {order : Order} {state : UndoState V} {I : Indexed S Key}
    (undoable : Undoable casts order state I.database.tables) (good : Good casts I) :
    Good casts (endState ((replay casts order state).run I)) := by
  have first := restore_values_good undoable.toRestorable order.old_values (List.nil_append _).symm
    (fun b => by simp [restored]) good
  refine ends_then first fun _ J _ first => ends_then (remove_new_good order.new_ids first) fun _ L _ second => ?_
  refine ends_then ?_ fun _ M _ third => ?_
  · obtain ⟨tables,secondary⟩ := run_onTables_tables (UndoDatabase.reset_next_ids state order.old_index_next_ids) L
    refine second.congr ?_ ?_ ?_ ?_
    · rw [tables,reset_next_ids_objects]
    all_goals rw [secondary]
  · obtain ⟨tables,secondary⟩ := run_onTables_tables (UndoDatabase.insert_removed state order.removed) M
    show InStep casts _ _
    rw [tables,secondary]
    exact insert_removed_inStep undoable.unlisted order.removed third

theorem undo_good {order : Order} {I : Indexed S Key} (good : Good casts I)
    (undoable : I.database.disabled = false → I.database.active_sessions ≠ 0 → ∀ state older,
      I.database.stack = state :: older → Undoable casts order state I.database.tables) :
    Good casts (endState ((undo casts order).run I)) := by
  by_cases off : I.database.disabled = true
  · simpa [undo,off] using good
  by_cases none : I.database.active_sessions = 0
  · simpa [undo,off,none] using good
  rw [Bool.not_eq_true] at off
  cases top : I.database.stack with
  | nil => simpa [undo,off,none,top,update] using good
  | cons state older =>
    have replayed := @replay_good _ _ _ _ _ _ _ casts order state
      { I with database := { I.database with disabled := true } } (undoable off none state older top) good
    simp only [undo,EStateM.run_bind,EStateM.run_get,off,none,top]
    show Good casts (endState (EStateM.run (replay casts order state >>= fun _ => update _) _))
    exact ends_then replayed fun _ J _ later => later

theorem pop_commit_good {order : Order} {I : Indexed S Key} (good : Good casts I)
    (undoable : I.database.active_sessions = 0 → ∀ state older,
      I.database.stack = state :: older → Undoable casts order state I.database.tables) :
    Good casts (endState ((pop_commit casts order).run I)) := by
  by_cases some : I.database.active_sessions ≠ 0
  · simpa [pop_commit,some] using good
  rw [not_not] at some
  cases top : I.database.stack with
  | nil => simpa [pop_commit,some,top] using good
  | cons state older =>
    have replayed := @replay_good _ _ _ _ _ _ _ casts order state
      { I with database := { I.database with disabled := true } } (undoable some state older top) good
    simp only [pop_commit,EStateM.run_bind,EStateM.run_get,some,top]
    show Good casts (endState (EStateM.run (tryCatch (replay casts order state >>= fun _ => update _) _ >>= fun _ => update _) _))
    refine ends_then ?_ fun _ J _ later => later
    have inner := ends_then (Q := Good casts) (f := fun _ => update fun D => { D with stack := older }) replayed
      fun _ J _ later => later
    rw [run_tryCatch]
    split
    · rename_i ran
      rw [ran] at inner
      exact inner
    · rename_i ran
      rw [ran] at inner
      exact inner

/-! ### A run -/

/-- What takes the secondary indices out of step does not happen. -/
def Fits (casts : Casts V Key) (I : Indexed S Key) : Step V → Prop
  | .op (.modify id m) =>
    ∀ v, I.database.tables.objects.lookup id = some v → Unseen casts I.database.tables id v (m v)
  | .undo order => I.database.disabled = false → I.database.active_sessions ≠ 0 →
      ∀ state older, I.database.stack = state :: older → Undoable casts order state I.database.tables
  | .pop_commit order => I.database.active_sessions = 0 →
      ∀ state older, I.database.stack = state :: older → Undoable casts order state I.database.tables
  | _ => True

/-- The state after a list of steps; a step may throw. -/
def after (casts : Casts V Key) : List (Step V) → Indexed S Key → Indexed S Key
  | [],I => I
  | step :: rest,I => after casts rest (endState ((perform casts step).run I))

/-- Every step of the run fits the state it is taken in. -/
def AllFit (casts : Casts V Key) : List (Step V) → Indexed S Key → Prop
  | [],_ => True
  | step :: rest,I => Fits casts I step ∧ AllFit casts rest (endState ((perform casts step).run I))

omit [DecidableEq K] in
/-- Code of the undo database that leaves the tables alone. -/
theorem onDatabase_good {I : Indexed S Key} {x : Exec S Unit} (good : Good casts I)
    (tables : (endState (x.run I.database)).tables = I.database.tables) :
    Good casts (endState ((onDatabase x : Prog S Key Unit).run I)) := by
  show Good casts (endState (onDatabase x I))
  rw [onDatabase]
  cases ran : x.run I.database with
  | ok a D => rw [ran] at tables; exact good.congr (congrArg Tables.objects tables) rfl rfl rfl
  | error e D => rw [ran] at tables; exact good.congr (congrArg Tables.objects tables) rfl rfl rfl

omit [LinearOrder Key] [DecidableEq K] [Inhabited Key] in
theorem merge_tables (order : Order) (D : Database S) :
    (endState ((UndoDatabase.merge order).run D)).tables = D.tables := by
  simp only [UndoDatabase.merge,EStateM.run_bind,EStateM.run_get]
  split
  · rfl
  · split
    · split <;> rfl
    · rfl

theorem perform_good {I : Indexed S Key} (good : Good casts I) (step : Step V) (fits : Fits casts I step) :
    Good casts (endState ((perform casts step).run I)) := by
  cases step with
  | op op =>
    cases op with
    | create t constructor => exact ends_then (create_good good t constructor) fun _ _ _ later => later
    | modify id m => exact modify_good good id m fits
    | remove id => exact remove_good good id
  | start force_enable =>
    show InStep casts (UndoDatabase.start_undo_session force_enable I.database).tables _
    rw [UndoDatabase.start_undo_session]
    split
    · exact good
    · exact good
  | undo order => exact undo_good good fits
  | merge order => exact onDatabase_good good (merge_tables order I.database)
  | commit =>
    refine onDatabase_good good ?_
    simp only [UndoDatabase.commit,EStateM.run_bind,EStateM.run_get]
    split <;> rfl
  | pop_commit order => exact pop_commit_good good fits

/-- In every state of a run whose steps fit, both secondary indices are those that the
    stored objects give. -/
theorem indices_follow {start : Indexed S Key} (begins : InStep casts start.database.tables start.secondary)
    (steps : List (Step V)) (fit : AllFit casts steps start) (n : Nat) :
    InStep casts (after casts (steps.take n) start).database.tables (after casts (steps.take n) start).secondary := by
  induction steps generalizing start n with
  | nil =>
    rw [List.take_nil]
    exact begins
  | cons step rest ih =>
    cases n with
    | zero => exact begins
    | succ n => exact ih (perform_good begins step fit.1) fit.2 n

/-! ### Steps that do not fit -/

def nobody : Authority Nat := ⟨1,[],[],Authorities.none_ordered,Authorities.none_ordered⟩

/-- Values that hold what either cast reads. -/
def both : Casts (ProposalObject × AccountObject Nat) Nat := ⟨Prod.fst,Prod.snd⟩

/-- A node without objects; the indices have no unique keys besides the ids. -/
def bare : Indexed (⟨fun _ => []⟩ : Schema (ProposalObject × AccountObject Nat) Nat) Nat where
  database := { tables := ⟨∅,fun _ => 0,by simp⟩, stack := [], active_sessions := 0, disabled := false, max_size := 256 }
  secondary := ⟨∅,∅,∅,[],[]⟩

/-- A proposal that account 5 has to approve; a memo key 7. -/
def asking : ProposalObject × AccountObject Nat := ⟨⟨[5],[],[],[]⟩,⟨nobody,nobody,7⟩⟩

/-- The same, approved by account 6 too. -/
def approved : ProposalObject × AccountObject Nat := ⟨⟨[5],[6],[],[]⟩,⟨nobody,nobody,7⟩⟩

theorem bare_inStep : InStep both bare.database.tables bare.secondary :=
  ⟨fun _ => rfl,fun _ => rfl,fun _ => rfl⟩

/-- A session that creates an account, beside a proposal, is undone. -/
def createdAndUndone : List (Step (ProposalObject × AccountObject Nat)) :=
  [.op (.create proposal_index fun _ => asking),.start false,.op (.create account_index fun _ => asking),
    .undo ⟨[],[⟨account_index,0⟩],[account_index],[]⟩]

theorem indices_follow_created : InStep both
    (after both (createdAndUndone.take 4) bare).database.tables (after both (createdAndUndone.take 4) bare).secondary := by
  refine indices_follow bare_inStep createdAndUndone ⟨trivial,trivial,trivial,fun _ _ state older top => ?_,trivial⟩ 4
  cases top
  exact { listed := fun id old v saved => by cases saved
          keys := fun before id after split => by simp at split
          unlisted := fun id v gone => by cases gone }

theorem removed_forgotten :
    (∃ I, I = after both [.op (.create proposal_index fun _ => asking),.start false,.op (.remove ⟨proposal_index,0⟩),
        .undo ⟨[],[],[],[⟨proposal_index,0⟩]⟩] bare ∧ ¬ InStep both I.database.tables I.secondary) ∧
    (∃ I, I = after both [.op (.create account_index fun _ => asking),.start false,.op (.remove ⟨account_index,0⟩),
        .undo ⟨[],[],[],[⟨account_index,0⟩]⟩] bare ∧ ¬ InStep both I.database.tables I.secondary) ∧
    ∃ I, I = after both [.op (.create proposal_index fun _ => asking),
        .op (.modify ⟨proposal_index,0⟩ fun _ => approved)] bare ∧ ¬ InStep both I.database.tables I.secondary := by
  refine ⟨⟨_,rfl,fun inStep => ?_⟩,⟨_,rfl,fun inStep => ?_⟩,⟨_,rfl,fun inStep => ?_⟩⟩
  · exact absurd (inStep.proposals 5) (by decide +kernel)
  · exact absurd (inStep.keys 7) (by decide +kernel)
  · exact absurd (inStep.proposals 6) (by decide +kernel)

end Decent.SecondaryIndices

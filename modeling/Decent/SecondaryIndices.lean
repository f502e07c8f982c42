import Decent.Lib.Multimap
import Decent.UndoDatabase
import Decent.Authorities

/-!
The two secondary indices of the chain. `primary_index` calls their hooks when an
object is created, modified or removed, and `undo` goes through the same functions
for what it modifies and removes; what it puts back goes through
`generic_index::insert`, which calls no hook. The index of required approvals does
nothing when a proposal is modified. `InStep` says that the maps are those one
would compute from the stored objects; `indices_follow` says which steps keep them
so.
-/
namespace Decent.SecondaryIndices
open Decent.ObjectDatabase (Exc IndexId ObjectId Schema Tables Accepts Collides get_object put_lookup drop_lookup)
open Decent.UndoDatabase (UndoState Database Exec Op Order onTables on_create on_modify on_remove)
open Decent.Authorities (AccountId Authority)
open Throwing

/-- `account_object_type` of the protocol space. -/
def account_index : IndexId := ⟨1,2⟩

/-- `proposal_object_type` of the protocol space. -/
def proposal_index : IndexId := ⟨1,6⟩

/-- What the hooks read of a `proposal_object`. -/
structure ProposalObject where
  required_active_approvals : List AccountId
  available_active_approvals : List AccountId
  required_owner_approvals : List AccountId
  available_owner_approvals : List AccountId

/-- What the hooks read of an `account_object`. -/
structure AccountObject (Key : Type) [LinearOrder Key] where
  owner : Authority Key
  active : Authority Key
  memo_key : Key

/-- The members of `required_approval_index` and `account_member_index`. -/
structure Secondary (Key : Type) where
  account_to_proposals : Multimap AccountId ObjectId
  account_to_account_memberships : Multimap AccountId ObjectId
  account_to_key_memberships : Multimap Key ObjectId
  before_account_members : List AccountId
  before_key_members : List Key

variable {V K Key : Type} {S : Schema V K} [LinearOrder Key]

/-! ### The hooks -/

namespace required_approval_index

def object_inserted (id : ObjectId) (p : ProposalObject) (X : Secondary Key) : Secondary Key :=
  let m := p.required_active_approvals.foldl (Multimap.add id) X.account_to_proposals
  let m := p.required_owner_approvals.foldl (Multimap.add id) m
  let m := p.available_active_approvals.foldl (Multimap.add id) m
  { X with account_to_proposals := p.available_owner_approvals.foldl (Multimap.add id) m }

/-- `remove` erases an account with its last proposal. -/
def object_removed (id : ObjectId) (p : ProposalObject) (X : Secondary Key) : Secondary Key :=
  let m := p.required_active_approvals.foldl (Multimap.leave id) X.account_to_proposals
  let m := p.required_owner_approvals.foldl (Multimap.leave id) m
  let m := p.available_active_approvals.foldl (Multimap.leave id) m
  { X with account_to_proposals := p.available_owner_approvals.foldl (Multimap.leave id) m }

end required_approval_index

namespace account_member_index

/-- A `std::set`; nothing depends on the order in which it is traversed. -/
def get_account_members (a : AccountObject Key) : List AccountId :=
  ((a.owner.account_auths ++ a.active.account_auths).map Prod.fst).dedup

/-- The default key stands for no memo key. -/
def get_key_members [Inhabited Key] (a : AccountObject Key) : List Key :=
  ((a.owner.key_auths ++ a.active.key_auths).map Prod.fst ++ if a.memo_key ≠ default then [a.memo_key] else []).dedup

variable [Inhabited Key]

def object_inserted (id : ObjectId) (a : AccountObject Key) (X : Secondary Key) : Secondary Key :=
  { X with
    account_to_account_memberships := (get_account_members a).foldl (Multimap.add id) X.account_to_account_memberships
    account_to_key_memberships := (get_key_members a).foldl (Multimap.add id) X.account_to_key_memberships }

def object_removed (id : ObjectId) (a : AccountObject Key) (X : Secondary Key) : Secondary Key :=
  { X with
    account_to_key_memberships := (get_key_members a).foldl (Multimap.discard id) X.account_to_key_memberships
    account_to_account_memberships :=
      (get_account_members a).foldl (Multimap.discard id) X.account_to_account_memberships }

def about_to_modify (before : AccountObject Key) (X : Secondary Key) : Secondary Key :=
  { X with
    before_key_members := get_key_members before
    before_account_members := get_account_members before }

/-- `std::set_difference`. -/
def set_difference {κ : Type} [DecidableEq κ] (first second : List κ) : List κ := first.filter (· ∉ second)

/-- Takes the object from the keys that only `before` has to those that only `after` has. -/
def move {κ : Type} [DecidableEq κ] (id : ObjectId) (before after : List κ) (m : Multimap κ ObjectId) : Multimap κ ObjectId :=
  let m := (set_difference before after).foldl (Multimap.discard id) m
  (set_difference after before).foldl (Multimap.add id) m

def object_modified (id : ObjectId) (after : AccountObject Key) (X : Secondary Key) : Secondary Key :=
  { X with
    account_to_account_memberships :=
      move id X.before_account_members (get_account_members after) X.account_to_account_memberships
    account_to_key_memberships := move id X.before_key_members (get_key_members after) X.account_to_key_memberships }

end account_member_index

/-- What `static_cast` makes of a stored object. -/
structure Casts (V Key : Type) [LinearOrder Key] where
  proposal : V → ProposalObject
  account : V → AccountObject Key

section
variable [Inhabited Key] (casts : Casts V Key)

def object_inserted (id : ObjectId) (v : V) (X : Secondary Key) : Secondary Key :=
  if id.index = proposal_index then required_approval_index.object_inserted id (casts.proposal v) X
  else if id.index = account_index then account_member_index.object_inserted id (casts.account v) X
  else X

def object_removed (id : ObjectId) (v : V) (X : Secondary Key) : Secondary Key :=
  if id.index = proposal_index then required_approval_index.object_removed id (casts.proposal v) X
  else if id.index = account_index then account_member_index.object_removed id (casts.account v) X
  else X

/-- `required_approval_index` overrides the two hooks of a modification to do nothing. -/
def about_to_modify (id : ObjectId) (v : V) (X : Secondary Key) : Secondary Key :=
  if id.index = account_index then account_member_index.about_to_modify (casts.account v) X else X

def object_modified (id : ObjectId) (v : V) (X : Secondary Key) : Secondary Key :=
  if id.index = account_index then account_member_index.object_modified id (casts.account v) X else X

end

/-! ### The primary index -/

/-- The object database, its undo database and the secondary indices. -/
structure Indexed (S : Schema V K) (Key : Type) where
  database : Database S
  secondary : Secondary Key

abbrev Prog (S : Schema V K) (Key : Type) (α : Type) := EStateM Exc (Indexed S Key) α

def onDatabase {α : Type} (x : Exec S α) : Prog S Key α := fun I =>
  match x.run I.database with
  | .ok a D => .ok a { I with database := D }
  | .error e D => .error e { I with database := D }

def onSecondary (f : Secondary Key → Secondary Key) : Prog S Key Unit :=
  modifyGet fun I => ((),{ I with secondary := f I.secondary })

section
variable [DecidableEq K] [Inhabited Key] (casts : Casts V Key)

/-- `primary_index::create`. -/
def create (t : IndexId) (constructor : ObjectId → V) : Prog S Key ObjectId := do
  let id ← onDatabase (onTables (ObjectDatabase.create t constructor))
  onSecondary (object_inserted casts id (constructor id))
  onDatabase (modifyGet fun D => (id,on_create id D))

/-- `primary_index::remove`. -/
def remove (id : ObjectId) : Prog S Key Unit := do
  let v ← onDatabase (onTables (get_object id))
  onSecondary (object_removed casts id v)
  onDatabase (modifyGet fun D => ((),on_remove id v D))
  onDatabase (onTables (ObjectDatabase.remove id))

/-- `primary_index::modify`: an exception of the container leaves between the two hooks. -/
def modify (id : ObjectId) (m : V → V) : Prog S Key Unit := do
  let v ← onDatabase (onTables (get_object id))
  onDatabase (modifyGet fun D => ((),on_modify id v D))
  onSecondary (about_to_modify casts id v)
  onDatabase (onTables (ObjectDatabase.modify id m))
  onSecondary (object_modified casts id (m v))

/-! ### Undoing -/

def restore_values (state : UndoState V) : List ObjectId → Prog S Key Unit
  | [] => pure ()
  | id :: rest => do
    match state.old_values.lookup id with
    | some old => modify casts id fun _ => old
    | none => pure ()
    restore_values state rest

def remove_new : List ObjectId → Prog S Key Unit
  | [] => pure ()
  | id :: rest => do
    remove casts id
    remove_new rest

/-- The loops of `undo` and `pop_commit`. The last one calls `generic_index::insert`. -/
def replay (order : Order) (state : UndoState V) : Prog S Key Unit := do
  restore_values casts state order.old_values
  remove_new casts order.new_ids
  onDatabase (onTables (UndoDatabase.reset_next_ids state order.old_index_next_ids))
  onDatabase (onTables (UndoDatabase.insert_removed state order.removed))

def update (f : Database S → Database S) : Prog S Key Unit :=
  modifyGet fun I => ((),{ I with database := f I.database })

/-- `undo_database::undo`. -/
def undo (order : Order) : Prog S Key Unit := do
  let D := (← get).database
  if D.disabled then throw (.assert_exception "!_disabled")
  if D.active_sessions = 0 then throw (.assert_exception "_active_sessions > 0")
  update fun D => { D with disabled := true }
  match D.stack with
  | [] => throw (.undefined "_stack.back()")
  | state :: older =>
    replay casts order state
    update fun D => { D with
      stack := if older.isEmpty then [.fresh] else older
      disabled := false
      active_sessions := D.active_sessions - 1 }

/-- `undo_database::pop_commit`. -/
def pop_commit (order : Order) : Prog S Key Unit := do
  let D := (← get).database
  if D.active_sessions ≠ 0 then throw (.assert_exception "_active_sessions == 0")
  match D.stack with
  | [] => throw (.assert_exception "!_stack.empty()")
  | state :: older =>
    update fun D => { D with disabled := true }
    tryCatch (do
        replay casts order state
        update fun D => { D with stack := older })
      fun e => do
        update fun D => { D with disabled := false }
        throw e
    update fun D => { D with disabled := false }

/-- What can happen to the database. -/
inductive Step (V : Type)
  | op (op : Op V)
  | start (force_enable : Bool)
  | undo (order : Order)
  | merge (order : Order)
  | commit
  | pop_commit (order : Order)

def perform : Step V → Prog S Key Unit
  | .op (.create t constructor) => do let _ ← create casts t constructor
  | .op (.modify id m) => modify casts id m
  | .op (.remove id) => remove casts id
  | .start force_enable => update (UndoDatabase.start_undo_session force_enable)
  | .undo order => undo casts order
  | .merge order => onDatabase (UndoDatabase.merge order)
  | .commit => onDatabase UndoDatabase.commit
  | .pop_commit order => pop_commit casts order

end

/-! ### Maps that follow the tables -/

section
variable {κ : Type} [DecidableEq κ]

/-- The objects of the index `t` that name `k`, computed from the tables. -/
def holders (t : IndexId) (names : V → List κ) (T : Tables S) (k : κ) : Finset ObjectId :=
  T.objects.keys.filter fun id => id.index = t ∧ (T.objects.lookup id).any fun v => k ∈ names v

/-- The map gives for every key what the tables give. A key without objects may have
    an empty set or none. -/
def Follows (t : IndexId) (names : V → List κ) (T : Tables S) (m : Multimap κ ObjectId) : Prop :=
  ∀ k, m.values k = holders t names T k

theorem mem_holders {t : IndexId} {names : V → List κ} {T : Tables S} {k : κ} {id : ObjectId} :
    id ∈ holders t names T k ↔ id.index = t ∧ ∃ v, T.objects.lookup id = some v ∧ k ∈ names v := by
  rw [holders,Finset.mem_filter,Finmap.mem_keys]
  cases found : T.objects.lookup id with
  | none => simp
  | some v => simp [Finmap.mem_of_lookup_eq_some found]

theorem Follows.mem {t : IndexId} {names : V → List κ} {T : Tables S} {m : Multimap κ ObjectId}
    (follows : Follows t names T m) {k : κ} {id : ObjectId} :
    id ∈ m.values k ↔ id.index = t ∧ ∃ v, T.objects.lookup id = some v ∧ k ∈ names v := by
  rw [follows k,mem_holders]

/-- One object changes, in the tables and in the map. -/
theorem Follows.change {t : IndexId} {names : V → List κ} {T U : Tables S} {m n : Multimap κ ObjectId}
    (follows : Follows t names T m) (id : ObjectId)
    (others : ∀ b, b ≠ id → U.objects.lookup b = T.objects.lookup b)
    (kept : ∀ b k, b ≠ id → (b ∈ n.values k ↔ b ∈ m.values k))
    (here : ∀ k, id ∈ n.values k ↔ id.index = t ∧ ∃ v, U.objects.lookup id = some v ∧ k ∈ names v) :
    Follows t names U n := by
  intro k
  ext b
  rw [mem_holders]
  by_cases same : b = id
  · subst same
    exact here k
  · rw [kept b k same,follows.mem,others b same]

variable {t : IndexId} {names : V → List κ} {T U : Tables S} {m : Multimap κ ObjectId}

/-- A change that the index has no part in. -/
theorem Follows.apart (follows : Follows t names T m) {id : ObjectId} (elsewhere : id.index ≠ t)
    (others : ∀ b, b ≠ id → U.objects.lookup b = T.objects.lookup b) : Follows t names U m := by
  refine follows.change id others (fun _ _ _ => Iff.rfl) fun k => ?_
  rw [follows.mem]
  simp [elsewhere]

/-- A stored object is replaced by one that names the same keys. -/
theorem Follows.same (follows : Follows t names T m) {id : ObjectId} {v w : V}
    (others : ∀ b, b ≠ id → U.objects.lookup b = T.objects.lookup b) (was : T.objects.lookup id = some v)
    (is : U.objects.lookup id = some w) (same : ∀ k, k ∈ names w ↔ k ∈ names v) : Follows t names U m := by
  refine follows.change id others (fun _ _ _ => Iff.rfl) fun k => ?_
  rw [follows.mem,was,is]
  simp [same]

/-- An object that names nothing comes or goes. -/
theorem Follows.unnamed (follows : Follows t names T m) {id : ObjectId}
    (others : ∀ b, b ≠ id → U.objects.lookup b = T.objects.lookup b)
    (was : ∀ v, T.objects.lookup id = some v → names v = []) (is : ∀ v, U.objects.lookup id = some v → names v = []) :
    Follows t names U m := by
  refine follows.change id others (fun _ _ _ => Iff.rfl) fun k => ?_
  rw [follows.mem]
  constructor
  · rintro ⟨_,v,stored,member⟩
    simp [was v stored] at member
  · rintro ⟨_,v,stored,member⟩
    simp [is v stored] at member

theorem Follows.add (follows : Follows t names T m) {id : ObjectId} {v : V} {ks : List κ} (here : id.index = t)
    (others : ∀ b, b ≠ id → U.objects.lookup b = T.objects.lookup b) (was : T.objects.lookup id = none)
    (is : U.objects.lookup id = some v) (same : ∀ k, k ∈ ks ↔ k ∈ names v) :
    Follows t names U (ks.foldl (Multimap.add id) m) := by
  refine follows.change id others (fun b k other => ?_) fun k => ?_
  · simp [Multimap.mem_addAll,other]
  · rw [Multimap.mem_addAll,follows.mem,was,is]
    simp [here,same]

theorem Follows.discard (follows : Follows t names T m) {id : ObjectId} {v : V} {ks : List κ} {n : Multimap κ ObjectId}
    (others : ∀ b, b ≠ id → U.objects.lookup b = T.objects.lookup b) (was : T.objects.lookup id = some v)
    (is : U.objects.lookup id = none) (same : ∀ k, k ∈ ks ↔ k ∈ names v)
    (left : ∀ b k, b ∈ n.values k ↔ ¬ (b = id ∧ k ∈ ks) ∧ b ∈ m.values k) : Follows t names U n := by
  refine follows.change id others (fun b k other => ?_) fun k => ?_
  · simp [left,other]
  · rw [left,follows.mem,was,is]
    simp +contextual [same]

theorem Follows.move (follows : Follows t names T m) {id : ObjectId} {v w : V} (here : id.index = t)
    (others : ∀ b, b ≠ id → U.objects.lookup b = T.objects.lookup b) (was : T.objects.lookup id = some v)
    (is : U.objects.lookup id = some w) :
    Follows t names U (account_member_index.move id (names v) (names w) m) := by
  refine follows.change id others (fun b k other => ?_) fun k => ?_
  · simp [account_member_index.move,Multimap.mem_addAll,Multimap.mem_discardAll,other]
  · simp only [account_member_index.move,account_member_index.set_difference,Multimap.mem_addAll,
      Multimap.mem_discardAll,follows.mem,was,is,here,List.mem_filter,decide_eq_true_eq,Option.some.injEq,
      exists_eq_left',true_and]
    tauto

end

section
variable [Inhabited Key] (casts : Casts V Key)

/-- The accounts that a proposal is listed under. -/
def approvals (v : V) : List AccountId :=
  (casts.proposal v).required_active_approvals ++ (casts.proposal v).required_owner_approvals ++
    (casts.proposal v).available_active_approvals ++ (casts.proposal v).available_owner_approvals

def account_members (v : V) : List AccountId := account_member_index.get_account_members (casts.account v)

def key_members (v : V) : List Key := account_member_index.get_key_members (casts.account v)

/-- The secondary indices are those that the stored objects give. -/
structure InStep (T : Tables S) (X : Secondary Key) : Prop where
  proposals : Follows proposal_index (approvals casts) T X.account_to_proposals
  accounts : Follows account_index (account_members casts) T X.account_to_account_memberships
  keys : Follows account_index (key_members casts) T X.account_to_key_memberships

/-- A secondary index lists the object. -/
def Listed (id : ObjectId) (v : V) : Prop :=
  id.index = proposal_index ∧ approvals casts v ≠ [] ∨
    id.index = account_index ∧ (account_members casts v ≠ [] ∨ key_members casts v ≠ [])

theorem proposal_ne_account : proposal_index ≠ account_index := by decide

variable {casts} {T U : Tables S} {X : Secondary Key} {id : ObjectId}

/-- Only the objects and the maps count. -/
theorem InStep.congr (inStep : InStep casts T X) {Y : Secondary Key} (objects : U.objects = T.objects)
    (proposals : Y.account_to_proposals = X.account_to_proposals)
    (accounts : Y.account_to_account_memberships = X.account_to_account_memberships)
    (keys : Y.account_to_key_memberships = X.account_to_key_memberships) : InStep casts U Y := by
  obtain ⟨first,second,third⟩ := inStep
  refine ⟨?_,?_,?_⟩
  · simpa only [Follows,holders,objects,proposals] using first
  · simpa only [Follows,holders,objects,accounts] using second
  · simpa only [Follows,holders,objects,keys] using third

theorem InStep.inserted (inStep : InStep casts T X) {v : V}
    (others : ∀ b, b ≠ id → U.objects.lookup b = T.objects.lookup b) (was : T.objects.lookup id = none)
    (is : U.objects.lookup id = some v) : InStep casts U (object_inserted casts id v X) := by
  unfold object_inserted
  by_cases proposal : id.index = proposal_index
  · have other : id.index ≠ account_index := proposal ▸ proposal_ne_account
    rw [if_pos proposal]
    refine ⟨?_,inStep.accounts.apart other others,inStep.keys.apart other others⟩
    simp only [required_approval_index.object_inserted,← List.foldl_append]
    exact inStep.proposals.add proposal others was is fun k => by simp [approvals]
  rw [if_neg proposal]
  by_cases account : id.index = account_index
  · rw [if_pos account]
    exact ⟨inStep.proposals.apart proposal others,inStep.accounts.add account others was is fun _ => Iff.rfl,
      inStep.keys.add account others was is fun _ => Iff.rfl⟩
  · rw [if_neg account]
    exact ⟨inStep.proposals.apart proposal others,inStep.accounts.apart account others,inStep.keys.apart account others⟩

theorem InStep.removed (inStep : InStep casts T X) {v : V}
    (others : ∀ b, b ≠ id → U.objects.lookup b = T.objects.lookup b) (was : T.objects.lookup id = some v)
    (is : U.objects.lookup id = none) : InStep casts U (object_removed casts id v X) := by
  unfold object_removed
  by_cases proposal : id.index = proposal_index
  · have other : id.index ≠ account_index := proposal ▸ proposal_ne_account
    rw [if_pos proposal]
    refine ⟨?_,inStep.accounts.apart other others,inStep.keys.apart other others⟩
    simp only [required_approval_index.object_removed,← List.foldl_append]
    exact inStep.proposals.discard others was is (fun k => by simp [approvals]) fun _ _ => Multimap.mem_leaveAll _
  rw [if_neg proposal]
  by_cases account : id.index = account_index
  · rw [if_pos account]
    exact ⟨inStep.proposals.apart proposal others,
      inStep.accounts.discard others was is (fun _ => Iff.rfl) fun _ _ => Multimap.mem_discardAll _,
      inStep.keys.discard others was is (fun _ => Iff.rfl) fun _ _ => Multimap.mem_discardAll _⟩
  · rw [if_neg account]
    exact ⟨inStep.proposals.apart proposal others,inStep.accounts.apart account others,inStep.keys.apart account others⟩

/-- A modified proposal must be listed as before, for the index does not look at it. -/
theorem InStep.modified (inStep : InStep casts T X) {v w : V}
    (others : ∀ b, b ≠ id → U.objects.lookup b = T.objects.lookup b) (was : T.objects.lookup id = some v)
    (is : U.objects.lookup id = some w)
    (same : id.index = proposal_index → ∀ a, a ∈ approvals casts w ↔ a ∈ approvals casts v) :
    InStep casts U (object_modified casts id w (about_to_modify casts id v X)) := by
  unfold object_modified about_to_modify
  have proposals : Follows proposal_index (approvals casts) U X.account_to_proposals := by
    by_cases proposal : id.index = proposal_index
    · exact inStep.proposals.same others was is (same proposal)
    · exact inStep.proposals.apart proposal others
  by_cases account : id.index = account_index
  · rw [if_pos account,if_pos account]
    exact ⟨proposals,inStep.accounts.move account others was is,inStep.keys.move account others was is⟩
  · rw [if_neg account,if_neg account]
    exact ⟨proposals,inStep.accounts.apart account others,inStep.keys.apart account others⟩

/-- An object that is not listed may come or go behind the back of the indices. -/
theorem InStep.unlisted (inStep : InStep casts T X) (id : ObjectId)
    (others : ∀ b, b ≠ id → U.objects.lookup b = T.objects.lookup b)
    (was : ∀ v, T.objects.lookup id = some v → ¬ Listed casts id v)
    (is : ∀ v, U.objects.lookup id = some v → ¬ Listed casts id v) : InStep casts U X := by
  by_cases proposal : id.index = proposal_index
  · have other : id.index ≠ account_index := proposal ▸ proposal_ne_account
    have silent {v : V} (unlisted : ¬ Listed casts id v) : approvals casts v = [] := by
      by_contra named
      exact unlisted (.inl ⟨proposal,named⟩)
    exact ⟨inStep.proposals.unnamed others (fun v stored => silent (was v stored)) fun v stored => silent (is v stored),
      inStep.accounts.apart other others,inStep.keys.apart other others⟩
  by_cases account : id.index = account_index
  · have silent {v : V} (unlisted : ¬ Listed casts id v) : account_members casts v = [] ∧ key_members casts v = [] := by
      by_contra named
      rw [not_and_or] at named
      exact unlisted (.inr ⟨account,named⟩)
    exact ⟨inStep.proposals.apart proposal others,
      inStep.accounts.unnamed others (fun v stored => (silent (was v stored)).1) fun v stored => (silent (is v stored)).1,
      inStep.keys.unnamed others (fun v stored => (silent (was v stored)).2) fun v stored => (silent (is v stored)).2⟩
  · exact ⟨inStep.proposals.apart proposal others,inStep.accounts.apart account others,inStep.keys.apart account others⟩

end

end Decent.SecondaryIndices

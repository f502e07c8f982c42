import Decent.Authorities
import Decent.Lib.Table
import Decent.Lib.Throwing

/-!
Who may publish. The DECENT account makes publishing managers, and a manager forwards the right to publish to
others. Both ends of the relation are kept: what an account has forwarded, and from whom it has received.
-/
namespace Decent.Publishing
open Throwing

abbrev AccountId := Nat

inductive Exc
  | assert_exception
  | not_found
deriving DecidableEq

/-- `publishing_rights`; the sets are kept in order. -/
structure PublishingRights where
  is_publishing_manager : Bool
  publishing_rights_received : List AccountId
  publishing_rights_forwarded : List AccountId
deriving DecidableEq

def no_rights : PublishingRights := ⟨false,[],[]⟩

abbrev Accounts := Table AccountId PublishingRights

abbrev M := EStateM Exc Accounts

def fc_assert (c : Prop) [Decidable c] : M Unit := if c then pure () else throw .assert_exception

def get_account (id : AccountId) : M PublishingRights := do
  match (← get).find? id with
  | some ao => return ao
  | none => throw .not_found

/-- `database::modify` of an account that is there. -/
def modify_account (id : AccountId) (f : PublishingRights → PublishingRights) : M Unit := do
  let ao ← get_account id
  modify fun A => A.put id (f ao)

/-- `std::set::erase` -/
def erase (id : AccountId) (s : List AccountId) : List AccountId := s.filter (· ≠ id)

/-! ### The operations -/

structure SetPublishingManagerOperation where
  from_account : AccountId
  to_accounts : List AccountId
  can_create_publishers : Bool

structure SetPublishingRightOperation where
  from_account : AccountId
  to_accounts : List AccountId
  is_publisher : Bool

def set_publishing_manager_evaluate (o : SetPublishingManagerOperation) : M Unit := do
  let A ← get
  fc_assert (o.to_accounts.all (fun id => (A.find? id).isSome) = true)
  fc_assert (o.from_account = 15)

/-- Take back what was forwarded to these; each is erased from what it has received itself. -/
def revoke : List AccountId → M Unit
  | [] => pure ()
  | publisher :: rest => do
    modify_account publisher fun ao => { ao with
      publishing_rights_received := erase publisher ao.publishing_rights_received }
    revoke rest

/-- The loop of `set_publishing_manager_evaluator::do_apply`. -/
def set_publishing_manager (can_create_publishers : Bool) : List AccountId → M Unit
  | [] => pure ()
  | to_id :: rest => do
    let to_acc ← get_account to_id
    if can_create_publishers = true then
      -- `return void_result()`: the others are not looked at.
      modify_account to_id fun ao => { ao with is_publishing_manager := true }
    else do
      revoke to_acc.publishing_rights_forwarded
      modify_account to_id fun ao => { ao with is_publishing_manager := false, publishing_rights_forwarded := [] }
      set_publishing_manager can_create_publishers rest

def set_publishing_manager_apply (o : SetPublishingManagerOperation) : M Unit :=
  set_publishing_manager o.can_create_publishers o.to_accounts

def set_publishing_right_evaluate (o : SetPublishingRightOperation) : M Unit := do
  let from_acc ← get_account o.from_account
  fc_assert (from_acc.is_publishing_manager = true)

/-- The loop of `set_publishing_right_evaluator::do_apply`. -/
def set_publishing_right (from_account : AccountId) (is_publisher : Bool) : List AccountId → M Unit
  | [] => pure ()
  | element :: rest => do
    let _ ← get_account element
    if is_publisher = true then do
      modify_account from_account fun ao => { ao with
        publishing_rights_forwarded := Authorities.flat_insert element ao.publishing_rights_forwarded }
      modify_account element fun ao => { ao with
        publishing_rights_received := Authorities.flat_insert from_account ao.publishing_rights_received }
    else do
      modify_account from_account fun ao => { ao with
        publishing_rights_forwarded := erase element ao.publishing_rights_forwarded }
      modify_account element fun ao => { ao with
        publishing_rights_received := erase from_account ao.publishing_rights_received }
    set_publishing_right from_account is_publisher rest

def set_publishing_right_apply (o : SetPublishingRightOperation) : M Unit := do
  let _ ← get_account o.from_account
  set_publishing_right o.from_account o.is_publisher o.to_accounts

inductive Operation
  | set_publishing_manager (o : SetPublishingManagerOperation)
  | set_publishing_right (o : SetPublishingRightOperation)

def Operation.validate : Operation → Bool
  | .set_publishing_manager o => 0 < o.to_accounts.length && o.from_account = 15
  | .set_publishing_right o => 0 < o.to_accounts.length

def Operation.do_evaluate : Operation → M Unit
  | .set_publishing_manager o => set_publishing_manager_evaluate o
  | .set_publishing_right o => set_publishing_right_evaluate o

def Operation.do_apply : Operation → M Unit
  | .set_publishing_manager o => set_publishing_manager_apply o
  | .set_publishing_right o => set_publishing_right_apply o

/-- An operation that is accepted, and the accounts it leaves. -/
structure Accepted (op : Operation) (A A' : Accounts) : Prop where
  valid : op.validate = true
  evaluated : EStateM.run op.do_evaluate A = .ok () A
  applied : EStateM.run op.do_apply A = .ok () A'

/-! ### What is written -/

/-- Every account is changed by `g`, and none comes or goes. -/
def Rewritten (A A' : Accounts) (g : AccountId → PublishingRights → PublishingRights) : Prop :=
  ∀ y, A'.find? y = (A.find? y).map (g y)

theorem Rewritten.refl (A : Accounts) : Rewritten A A fun _ r => r := fun y => by simp

theorem Rewritten.trans {A A' A'' : Accounts} {g h : AccountId → PublishingRights → PublishingRights} (first : Rewritten A A' g)
    (second : Rewritten A' A'' h) : Rewritten A A'' fun y r => h y (g y r) := fun y => by
  rw [second y,first y,Option.map_map]
  rfl

theorem get_account_ok {id : AccountId} {A A' : Accounts} {ao : PublishingRights} :
    EStateM.run (get_account id) A = .ok ao A' ↔ A.find? id = some ao ∧ A = A' := by
  show EStateM.run (match A.find? id with | some ao => pure ao | none => throw Exc.not_found : M _) A = _ ↔ _
  cases A.find? id with
  | none => simp
  | some r => simp

theorem modify_account_ok {id : AccountId} {f : PublishingRights → PublishingRights} {A A' : Accounts}
    (ran : EStateM.run (modify_account id f) A = .ok () A') : Rewritten A A' fun y r => if y = id then f r else r := by
  obtain ⟨ao,_,got,put⟩ := run_bind_ok.mp ran
  obtain ⟨found,rfl⟩ := get_account_ok.mp got
  cases put
  intro y
  rw [Table.find?_put]
  split
  case isTrue here =>
    rw [here,found,Option.map_some]
    simp
  case isFalse other => simp [other]

/-- What is erased from what an account has received, when everything of `publishers` is taken back. -/
def erased (publishers : List AccountId) (y : AccountId) (r : PublishingRights) : PublishingRights :=
  if y ∈ publishers then { r with publishing_rights_received := erase y r.publishing_rights_received } else r

@[simp] theorem forwarded_erased (publishers : List AccountId) (y : AccountId) (r : PublishingRights) :
    (erased publishers y r).publishing_rights_forwarded = r.publishing_rights_forwarded := by
  unfold erased
  split <;> rfl

theorem erase_erase (id : AccountId) (s : List AccountId) : erase id (erase id s) = erase id s := by
  simp [erase]

theorem revoke_ok {publishers : List AccountId} {A A' : Accounts} (ran : EStateM.run (revoke publishers) A = .ok () A') :
    Rewritten A A' (erased publishers) := by
  induction publishers generalizing A with
  | nil =>
    cases ran
    have nothing : erased [] = fun _ r => r := by
      funext y r
      simp [erased]
    rw [nothing]
    exact Rewritten.refl _
  | cons publisher rest ih =>
    obtain ⟨_,A₁,first,ran⟩ := run_bind_ok.mp ran
    intro y
    rw [(modify_account_ok first).trans (ih ran) y]
    congr 1
    funext r
    by_cases here : y = publisher
    · subst here
      by_cases again : y ∈ rest <;> simp [erased,again,erase_erase]
    · simp [erased,here]

/-- An account after the managers `to_accounts` were demoted, who had forwarded rights to `publishers`. -/
def demoted (to_accounts publishers : List AccountId) (y : AccountId) (r : PublishingRights) : PublishingRights where
  is_publishing_manager := if y ∈ to_accounts then false else r.is_publishing_manager
  publishing_rights_received := if y ∈ publishers then erase y r.publishing_rights_received else r.publishing_rights_received
  publishing_rights_forwarded := if y ∈ to_accounts then [] else r.publishing_rights_forwarded

/-- All that these accounts have forwarded. -/
def forwarded_by (A : Accounts) (to_accounts : List AccountId) : List AccountId :=
  to_accounts.flatMap fun id => ((A.find? id).map (·.publishing_rights_forwarded)).getD []

theorem mem_forwarded_by {A : Accounts} {to_accounts : List AccountId} {y : AccountId} :
    y ∈ forwarded_by A to_accounts ↔
      ∃ id ∈ to_accounts, ∃ r, A.find? id = some r ∧ y ∈ r.publishing_rights_forwarded := by
  simp only [forwarded_by,List.mem_flatMap]
  refine exists_congr fun id => and_congr_right fun _ => ?_
  cases A.find? id <;> simp

theorem demote_ok {to_accounts : List AccountId} {A A' : Accounts}
    (ran : EStateM.run (set_publishing_manager false to_accounts) A = .ok () A') :
    Rewritten A A' (demoted to_accounts (forwarded_by A to_accounts)) := by
  induction to_accounts generalizing A with
  | nil =>
    have nothing : demoted [] (forwarded_by A []) = fun _ r => r := by
      funext y r
      simp [demoted,forwarded_by]
    rw [nothing]
    cases ran
    exact Rewritten.refl _
  | cons id rest ih =>
    obtain ⟨to_acc,_,got,ran⟩ := run_bind_ok.mp ran
    obtain ⟨found,rfl⟩ := get_account_ok.mp got
    rw [if_neg (by decide)] at ran
    obtain ⟨_,A₁,revoked,ran⟩ := run_bind_ok.mp ran
    obtain ⟨_,A₂,cleared,ran⟩ := run_bind_ok.mp ran
    have first := (revoke_ok revoked).trans (modify_account_ok cleared)
    -- What the others have forwarded is as it was, and what this one has is taken back already.
    have publishers (y : AccountId) : y ∈ to_acc.publishing_rights_forwarded ∨ y ∈ forwarded_by A₂ rest ↔
        y ∈ forwarded_by A (id :: rest) := by
      rw [mem_forwarded_by,mem_forwarded_by]
      constructor
      · rintro (here | ⟨k,member,r₂,found₂,inside⟩)
        · exact ⟨id,List.mem_cons_self,to_acc,found,here⟩
        · rw [first k] at found₂
          obtain ⟨r,found_k,rfl⟩ := Option.map_eq_some_iff.mp found₂
          by_cases same : k = id
          · simp [same] at inside
          · simp [same] at inside
            exact ⟨k,List.mem_cons_of_mem _ member,r,found_k,inside⟩
      · rintro ⟨k,member,r,found_k,inside⟩
        by_cases same : k = id
        · rw [same,found] at found_k
          cases found_k
          exact .inl inside
        · refine .inr ⟨k,(List.mem_cons.mp member).resolve_left same,_,by rw [first k,found_k,Option.map_some],?_⟩
          simp [same,inside]
    intro y
    rw [first.trans (ih ran) y]
    congr 1
    funext r
    by_cases here : y = id
    · subst here
      by_cases again : y ∈ to_acc.publishing_rights_forwarded <;>
        by_cases later : y ∈ forwarded_by A₂ rest <;> by_cases twice : y ∈ rest <;>
        simp [demoted,erased,← publishers,again,later,twice,erase_erase]
    · by_cases again : y ∈ to_acc.publishing_rights_forwarded <;>
        by_cases later : y ∈ forwarded_by A₂ rest <;>
        simp [demoted,erased,← publishers,here,again,later,erase_erase]

theorem promote_ok {id : AccountId} {rest : List AccountId} {A A' : Accounts}
    (ran : EStateM.run (set_publishing_manager true (id :: rest)) A = .ok () A') :
    Rewritten A A' fun y r => if y = id then { r with is_publishing_manager := true } else r := by
  obtain ⟨to_acc,_,got,ran⟩ := run_bind_ok.mp ran
  obtain ⟨-,rfl⟩ := get_account_ok.mp got
  rw [if_pos rfl] at ran
  exact modify_account_ok ran

/-! ### One relation -/

def Forwarded (A : Accounts) (m x : AccountId) : Prop := ∃ r, A.find? m = some r ∧ x ∈ r.publishing_rights_forwarded

def Received (A : Accounts) (x m : AccountId) : Prop := ∃ r, A.find? x = some r ∧ m ∈ r.publishing_rights_received

def Manager (A : Accounts) (m : AccountId) : Prop := ∃ r, A.find? m = some r ∧ r.is_publishing_manager = true

/-- What was forwarded was received, and the other way round; and only managers have forwarded anything. -/
structure Consistent (A : Accounts) : Prop where
  one : ∀ m x, Forwarded A m x ↔ Received A x m
  managers : ∀ m x, Forwarded A m x → Manager A m

section
variable {A A' : Accounts} {g : AccountId → PublishingRights → PublishingRights} (rewritten : Rewritten A A' g)
include rewritten

theorem Rewritten.exists {P : PublishingRights → Prop} {y : AccountId} :
    (∃ r, A'.find? y = some r ∧ P r) ↔ ∃ r, A.find? y = some r ∧ P (g y r) := by
  rw [rewritten y]
  cases A.find? y <;> simp

theorem Rewritten.forwarded {m x : AccountId} :
    Forwarded A' m x ↔ ∃ r, A.find? m = some r ∧ x ∈ (g m r).publishing_rights_forwarded :=
  rewritten.exists

theorem Rewritten.received {m x : AccountId} :
    Received A' x m ↔ ∃ r, A.find? x = some r ∧ m ∈ (g x r).publishing_rights_received :=
  rewritten.exists

theorem Rewritten.manager {m : AccountId} : Manager A' m ↔ ∃ r, A.find? m = some r ∧ (g m r).is_publishing_manager = true :=
  rewritten.exists

end

/-- Every account in the list has the status that was asked for. -/
def Operation.requested (op : Operation) (A : Accounts) : Prop :=
  match op with
  | .set_publishing_manager o => ∀ x ∈ o.to_accounts, ∃ r, A.find? x = some r ∧ r.is_publishing_manager = o.can_create_publishers
  | .set_publishing_right _ => True

/-- Of those who become managers only the first is not one already; those who are demoted have forwarded rights to
    no one, or to themselves. -/
def Operation.plain (op : Operation) (A : Accounts) : Prop :=
  match op with
  | .set_publishing_manager o =>
    if o.can_create_publishers = true then ∀ x ∈ o.to_accounts, o.to_accounts.head? = some x ∨ Manager A x
    else ∀ m ∈ o.to_accounts, ∀ x, Forwarded A m x → x = m
  | .set_publishing_right _ => True

/-- After a promotion the relation is as it was, and the first account is a manager too. -/
theorem promoted {id : AccountId} {rest : List AccountId} {A A' : Accounts} (consistent : Consistent A)
    (there : ∀ x ∈ id :: rest, ∃ r, A.find? x = some r)
    (ran : EStateM.run (set_publishing_manager true (id :: rest)) A = .ok () A') :
    Consistent A' ∧ ∀ x ∈ id :: rest, (∃ r, A'.find? x = some r ∧ r.is_publishing_manager = true) ↔ (id = x ∨ Manager A x) := by
  have rewritten := promote_ok ran
  have forwarded (m x : AccountId) : Forwarded A' m x ↔ Forwarded A m x := by
    rw [rewritten.forwarded]
    refine exists_congr fun r => and_congr_right fun _ => ?_
    split <;> rfl
  have received (m x : AccountId) : Received A' x m ↔ Received A x m := by
    rw [rewritten.received]
    refine exists_congr fun r => and_congr_right fun _ => ?_
    split <;> rfl
  have manager {x : AccountId} (here : ∃ r, A.find? x = some r) : Manager A' x ↔ id = x ∨ Manager A x := by
    rw [rewritten.manager]
    obtain ⟨r,found⟩ := here
    by_cases same : x = id
    · subst same
      simp [found]
    · have other : ¬ id = x := fun same' => same same'.symm
      simp [same,other,Manager]
  refine ⟨⟨fun m x => ?_,fun m x some => ?_⟩,fun x member => manager (there x member)⟩
  · rw [forwarded,received,consistent.one]
  · obtain ⟨r,found,inside⟩ := (forwarded m x).mp some
    exact (manager ⟨r,found⟩).mpr (.inr (consistent.managers m x ⟨r,found,inside⟩))

/-- After a demotion the relation is one exactly if nothing was forwarded to others. -/
theorem demoted_consistent_iff {to_accounts : List AccountId} {A A' : Accounts} (consistent : Consistent A)
    (ran : EStateM.run (set_publishing_manager false to_accounts) A = .ok () A') :
    Consistent A' ↔ ∀ m ∈ to_accounts, ∀ x, Forwarded A m x → x = m := by
  have rewritten := demote_ok ran
  have forwarded (m x : AccountId) : Forwarded A' m x ↔ m ∉ to_accounts ∧ Forwarded A m x := by
    rw [rewritten.forwarded]
    by_cases inside : m ∈ to_accounts <;> simp [demoted,inside,Forwarded]
  have revoked (x : AccountId) : x ∈ forwarded_by A to_accounts ↔ ∃ k ∈ to_accounts, Forwarded A k x := mem_forwarded_by
  have received (m x : AccountId) : Received A' x m ↔ Received A x m ∧ ¬ (m = x ∧ ∃ k ∈ to_accounts, Forwarded A k x) := by
    rw [rewritten.received,← revoked]
    by_cases inside : x ∈ forwarded_by A to_accounts
    · simp only [demoted,inside,if_true,erase,List.mem_filter,decide_eq_true_eq,and_true,Received]
      tauto
    · simp [demoted,inside,Received]
  constructor
  · intro consistent' m member x some
    by_contra other
    have kept : Received A' x m := (received m x).mpr ⟨(consistent.one m x).mp some,fun same => other same.1.symm⟩
    exact ((forwarded m x).mp ((consistent'.one m x).mpr kept)).1 member
  · intro plain
    refine ⟨fun m x => ?_,fun m x some => ?_⟩
    · rw [forwarded,received,← consistent.one]
      constructor
      · rintro ⟨outside,some⟩
        refine ⟨some,?_⟩
        rintro ⟨rfl,k,member,taken⟩
        rw [← plain k member m taken] at member
        exact outside member
      · rintro ⟨some,apart⟩
        refine ⟨fun member => ?_,some⟩
        exact apart ⟨(plain m member x some).symm,m,member,some⟩
    · obtain ⟨outside,some⟩ := (forwarded m x).mp some
      obtain ⟨r,found,manager⟩ := consistent.managers m x some
      exact rewritten.manager.mpr ⟨r,found,by simpa [demoted,outside] using manager⟩

theorem demoted_requested {to_accounts : List AccountId} {A A' : Accounts} (there : ∀ x ∈ to_accounts, ∃ r, A.find? x = some r)
    (ran : EStateM.run (set_publishing_manager false to_accounts) A = .ok () A') :
    ∀ x ∈ to_accounts, ∃ r, A'.find? x = some r ∧ r.is_publishing_manager = false := by
  intro x member
  obtain ⟨r,found⟩ := there x member
  exact (demote_ok ran).exists.mpr ⟨r,found,by simp [demoted,member]⟩

/-- One right is forwarded or taken back, at both ends. -/
theorem Consistent.forward (is_publisher : Bool) {A A₁ A₂ : Accounts} {from_account element : AccountId}
    {g h : PublishingRights → PublishingRights} (consistent : Consistent A) (manager : Manager A from_account)
    (given : ∃ r, A.find? element = some r)
    (first : Rewritten A A₁ fun y r => if y = from_account then g r else r)
    (second : Rewritten A₁ A₂ fun y r => if y = element then h r else r)
    (gives : ∀ r x, x ∈ (g r).publishing_rights_forwarded ↔
      if x = element then is_publisher = true else x ∈ r.publishing_rights_forwarded)
    (takes : ∀ r m, m ∈ (h r).publishing_rights_received ↔
      if m = from_account then is_publisher = true else m ∈ r.publishing_rights_received)
    (others : ∀ r, (g r).publishing_rights_received = r.publishing_rights_received ∧
      (g r).is_publishing_manager = r.is_publishing_manager ∧
      (h r).publishing_rights_forwarded = r.publishing_rights_forwarded ∧
      (h r).is_publishing_manager = r.is_publishing_manager) :
    Consistent A₂ ∧ Manager A₂ from_account := by
  have rewritten := first.trans second
  have gives (y x : AccountId) (r : PublishingRights) :
      x ∈ (if y = element then h (if y = from_account then g r else r)
        else if y = from_account then g r else r).publishing_rights_forwarded ↔
        if y = from_account ∧ x = element then is_publisher = true else x ∈ r.publishing_rights_forwarded := by
    by_cases giver : y = from_account <;> by_cases taker : y = element <;> by_cases given : x = element <;> simp_all
  have takes (y m : AccountId) (r : PublishingRights) :
      m ∈ (if y = element then h (if y = from_account then g r else r)
        else if y = from_account then g r else r).publishing_rights_received ↔
        if y = element ∧ m = from_account then is_publisher = true else m ∈ r.publishing_rights_received := by
    by_cases giver : y = from_account <;> by_cases taker : y = element <;> by_cases given : m = from_account <;> simp_all
  have managers (m : AccountId) : Manager A₂ m ↔ Manager A m := by
    rw [rewritten.manager]
    refine exists_congr fun r => and_congr_right fun _ => ?_
    split <;> split <;> simp [others]
  have forwarded (m x : AccountId) : Forwarded A₂ m x ↔
      if m = from_account ∧ x = element then is_publisher = true else Forwarded A m x := by
    simp only [rewritten.forwarded,gives]
    split
    case isTrue here =>
      obtain ⟨r,found,-⟩ := manager
      simp [here.1,found]
    case isFalse => rfl
  have received (m x : AccountId) : Received A₂ x m ↔
      if x = element ∧ m = from_account then is_publisher = true else Received A x m := by
    simp only [rewritten.received,takes]
    split
    case isTrue here =>
      obtain ⟨r,found⟩ := given
      simp [here.1,found]
    case isFalse => rfl
  refine ⟨⟨fun m x => ?_,fun m x some => (managers m).mpr ?_⟩,(managers _).mpr manager⟩
  · rw [forwarded,received]
    exact (if_congr and_comm rfl (propext (consistent.one m x))).to_iff
  · rw [forwarded] at some
    split at some
    case isTrue here => exact here.1 ▸ manager
    case isFalse => exact consistent.managers m x some

theorem mem_erase {a b : AccountId} {s : List AccountId} : b ∈ erase a s ↔ b ∈ s ∧ b ≠ a := by
  simp [erase]

/-- Rights are forwarded and taken back at both ends. -/
theorem forwarded_consistent {from_account : AccountId} {is_publisher : Bool} {elements : List AccountId} {A A' : Accounts}
    (consistent : Consistent A) (manager : Manager A from_account)
    (ran : EStateM.run (set_publishing_right from_account is_publisher elements) A = .ok () A') : Consistent A' := by
  induction elements generalizing A with
  | nil =>
    cases ran
    exact consistent
  | cons element rest ih =>
    obtain ⟨to_acc,_,got,ran⟩ := run_bind_ok.mp ran
    obtain ⟨found,rfl⟩ := get_account_ok.mp got
    cases is_publisher with
    | true =>
      rw [if_pos rfl] at ran
      obtain ⟨_,A₁,first,ran⟩ := run_bind_ok.mp ran
      obtain ⟨_,A₂,second,ran⟩ := run_bind_ok.mp ran
      obtain ⟨consistent₂,manager₂⟩ := consistent.forward true manager ⟨to_acc,found⟩ (modify_account_ok first)
        (modify_account_ok second) (fun r x => by rw [Authorities.mem_flat_insert]; split <;> simp_all)
        (fun r m => by rw [Authorities.mem_flat_insert]; split <;> simp_all) fun _ => ⟨rfl,rfl,rfl,rfl⟩
      exact ih consistent₂ manager₂ ran
    | false =>
      rw [if_neg (by decide)] at ran
      obtain ⟨_,A₁,first,ran⟩ := run_bind_ok.mp ran
      obtain ⟨_,A₂,second,ran⟩ := run_bind_ok.mp ran
      obtain ⟨consistent₂,manager₂⟩ := consistent.forward false manager ⟨to_acc,found⟩ (modify_account_ok first)
        (modify_account_ok second) (fun r x => by rw [mem_erase]; split <;> simp_all)
        (fun r m => by rw [mem_erase]; split <;> simp_all) fun _ => ⟨rfl,rfl,rfl,rfl⟩
      exact ih consistent₂ manager₂ ran

theorem fc_assert_ok {c : Prop} [Decidable c] {A A' : Accounts} (ran : EStateM.run (fc_assert c) A = .ok () A') : c := by
  by_contra refused
  rw [fc_assert,if_neg refused] at ran
  cases ran

theorem set_publishing_manager_there {o : SetPublishingManagerOperation} {A A' : Accounts}
    (evaluated : EStateM.run (set_publishing_manager_evaluate o) A = .ok () A') :
    ∀ x ∈ o.to_accounts, ∃ r, A.find? x = some r := by
  obtain ⟨_,_,got,checked⟩ := run_bind_ok.mp evaluated
  cases got
  obtain ⟨_,_,there,-⟩ := run_bind_ok.mp checked
  intro x member
  exact Option.isSome_iff_exists.mp (List.all_eq_true.mp (fc_assert_ok there) x member)

/-- After an accepted operation the relation is still one, and the accounts have the status that was asked for, exactly
    if the operation was a plain one. -/
theorem accepted_iff {op : Operation} {A A' : Accounts} (consistent : Consistent A) (accepted : Accepted op A A') :
    Consistent A' ∧ op.requested A' ↔ op.plain A := by
  cases op with
  | set_publishing_right o =>
    obtain ⟨from_acc,_,got,checked⟩ := run_bind_ok.mp accepted.evaluated
    obtain ⟨found,rfl⟩ := get_account_ok.mp got
    obtain ⟨_,_,got,ran⟩ := run_bind_ok.mp accepted.applied
    obtain ⟨-,rfl⟩ := get_account_ok.mp got
    have manager : Manager A o.from_account := ⟨from_acc,found,fc_assert_ok checked⟩
    exact ⟨fun _ => trivial,fun _ => ⟨forwarded_consistent consistent manager ran,trivial⟩⟩
  | set_publishing_manager o =>
    have there := set_publishing_manager_there accepted.evaluated
    have ran := accepted.applied
    obtain ⟨from_account,to_accounts,can_create_publishers⟩ := o
    cases can_create_publishers with
    | false =>
      have requested := demoted_requested there ran
      exact ⟨fun both => (demoted_consistent_iff consistent ran).mp both.1,
        fun plain => ⟨(demoted_consistent_iff consistent ran).mpr plain,requested⟩⟩
    | true =>
      cases to_accounts with
      | nil => cases accepted.valid
      | cons id rest =>
        obtain ⟨consistent',statuses⟩ := promoted consistent there ran
        have head {x : AccountId} : (id :: rest).head? = some x ↔ id = x := by simp
        refine ⟨fun both x member => ?_,fun plain => ⟨consistent',fun x member => ?_⟩⟩
        · exact ((statuses x member).mp (both.2 x member)).imp_left head.mpr
        · exact (statuses x member).mpr ((plain x member).imp_left head.mp)

/-! ### Every run -/

/-- The accounts of all runs whose operations are `allowed`, from accounts without rights on; others may be created in
    between. -/
inductive Reached (allowed : Operation → Accounts → Prop) : Accounts → Prop
  | start {A : Accounts} (none : ∀ y r, A.find? y = some r → r = no_rights) : Reached allowed A
  | create {A : Accounts} {id : AccountId} (before : Reached allowed A) (new : A.find? id = none) :
      Reached allowed (A.put id no_rights)
  | operation {A A' : Accounts} {op : Operation} (before : Reached allowed A) (meets : allowed op A)
      (accepted : Accepted op A A') : Reached allowed A'

theorem consistent_put {A : Accounts} {id : AccountId} (consistent : Consistent A) (new : A.find? id = none) :
    Consistent (A.put id no_rights) := by
  have same {P : PublishingRights → Prop} (refused : ¬ P no_rights) (y : AccountId) :
      (∃ r, (A.put id no_rights).find? y = some r ∧ P r) ↔ ∃ r, A.find? y = some r ∧ P r := by
    rw [Table.find?_put]
    split
    case isTrue here =>
      rw [here,new]
      simp [refused]
    case isFalse => rfl
  have forwarded (m x : AccountId) : Forwarded (A.put id no_rights) m x ↔ Forwarded A m x := same (by simp [no_rights]) m
  have received (m x : AccountId) : Received (A.put id no_rights) x m ↔ Received A x m := same (by simp [no_rights]) x
  have managers (m : AccountId) : Manager (A.put id no_rights) m ↔ Manager A m := same (by simp [no_rights]) m
  refine ⟨fun m x => ?_,fun m x some => ?_⟩
  · rw [forwarded,received,consistent.one]
  · exact (managers m).mpr (consistent.managers m x ((forwarded m x).mp some))

theorem Reached.consistent {A : Accounts} (reached : Reached Operation.plain A) : Consistent A := by
  induction reached with
  | start none =>
    refine ⟨fun m x => ⟨?_,?_⟩,?_⟩
    · rintro ⟨r,found,inside⟩
      cases none m r found
      cases inside
    · rintro ⟨r,found,inside⟩
      cases none x r found
      cases inside
    · rintro m x ⟨r,found,inside⟩
      cases none m r found
      cases inside
  | create before new ih => exact consistent_put ih new
  | operation before meets accepted ih => exact ((accepted_iff ih accepted).mpr meets).1

/-- As long as the operations are plain, what was forwarded is what was received, only managers have forwarded anything, and
    accounts get the status that is asked for; and an operation that is not plain breaks one of these. -/
theorem publishing_rights_consistent (A : Accounts) (reached : Reached Operation.plain A) : Consistent A ∧
    ∀ op A', Accepted op A A' → (Consistent A' ∧ op.requested A' ↔ op.plain A) :=
  ⟨reached.consistent,fun _ _ accepted => accepted_iff reached.consistent accepted⟩

/-- The DECENT account and two others. -/
def three_accounts : Accounts := ⟨[(15,no_rights),(4,no_rights),(5,no_rights)],by decide⟩

theorem three_accounts_plain {allowed : Operation → Accounts → Prop} : Reached allowed three_accounts := by
  refine .start fun y r found => ?_
  rw [three_accounts,Table.find?,Table.findRow,Table.findRow,Table.findRow,Table.findRow] at found
  split at found
  · cases found; rfl
  · split at found
    · cases found; rfl
    · split at found
      · cases found; rfl
      · cases found

/-- The fourth account is a manager. -/
def fourth_manages : Accounts := three_accounts.put 4 ⟨true,[],[]⟩

/-- The fourth account has forwarded the right to the fifth. -/
def fifth_publishes : Accounts := (fourth_manages.put 4 ⟨true,[],[5]⟩).put 5 ⟨false,[4],[]⟩

theorem fourth_manages_accepted :
    Accepted (.set_publishing_manager ⟨15,[4],true⟩) three_accounts fourth_manages := ⟨rfl,rfl,rfl⟩

theorem fifth_publishes_accepted :
    Accepted (.set_publishing_right ⟨4,[5],true⟩) fourth_manages fifth_publishes := ⟨rfl,rfl,rfl⟩

/-- The fourth account is made a manager and forwards the right to the fifth. -/
theorem publishing_rights_consistent_forwarded : Consistent fifth_publishes ∧
    ∀ op A', Accepted op fifth_publishes A' → (Consistent A' ∧ op.requested A' ↔ op.plain fifth_publishes) := by
  have managed : Reached Operation.plain fourth_manages :=
    .operation three_accounts_plain (by simp [Operation.plain]) fourth_manages_accepted
  have allowed : (Operation.set_publishing_right ⟨4,[5],true⟩).plain fourth_manages := trivial
  exact publishing_rights_consistent fifth_publishes (.operation managed allowed fifth_publishes_accepted)

/-- The fourth account is demoted; the fifth still has received the right. -/
def fourth_demoted : Accounts := fifth_publishes.put 4 ⟨false,[],[]⟩

/-- Two accounts are to be managers and only the first is made one; and when the manager is demoted, the right it has
    forwarded stays with the one who received it. -/
theorem publishing_rights_stay :
    (Reached (fun _ _ => True) three_accounts ∧
      Accepted (.set_publishing_manager ⟨15,[4,5],true⟩) three_accounts fourth_manages ∧
      ¬ (Operation.set_publishing_manager ⟨15,[4,5],true⟩).requested fourth_manages) ∧
      Reached (fun _ _ => True) fourth_demoted ∧ ¬ Consistent fourth_demoted := by
  refine ⟨⟨three_accounts_plain,⟨rfl,rfl,rfl⟩,fun requested => ?_⟩,?_,fun consistent => ?_⟩
  · obtain ⟨r,found,manager⟩ := requested 5 (by simp)
    cases found
    cases manager
  · have managed : Reached (fun _ _ => True) fourth_manages :=
      .operation three_accounts_plain trivial fourth_manages_accepted
    have published : Reached (fun _ _ => True) fifth_publishes := .operation managed trivial fifth_publishes_accepted
    have demoted : Accepted (.set_publishing_manager ⟨15,[4],false⟩) fifth_publishes fourth_demoted := ⟨rfl,rfl,rfl⟩
    exact .operation published trivial demoted
  · obtain ⟨r,found,inside⟩ := (consistent.one 4 5).mpr ⟨_,rfl,List.mem_singleton_self 4⟩
    cases found
    cases inside

end Decent.Publishing

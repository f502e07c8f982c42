import Mathlib.Data.Finset.Basic
import Mathlib.Data.Finset.Lattice.Basic
import Mathlib.Data.Finset.Dedup
import Mathlib.Order.Defs.LinearOrder
import Mathlib.Tactic.SplitIfs
import Mathlib.Tactic.Tauto
import Mathlib.Algebra.Ring.Nat

/-!
The authority checks of `protocol/transaction.cpp`. `sign_state` and `sign_state1`
share one search, written here once over the part of their state that answers
`signed_by`: it adds up the weights of signed keys, then of approved accounts,
returns as soon as the threshold is reached, remembers the accounts it approved,
and gives an authority up when it meets an account it does not know at the depth
limit.
-/
namespace Decent.Authorities

/-- The instance number of an `account_id_type`. -/
abbrev AccountId := Nat

def GRAPHENE_MINER_ACCOUNT : AccountId := 0
def GRAPHENE_TEMP_ACCOUNT : AccountId := 2

/-- `authority`. The two maps are `flat_map`s: lists in the order of their keys. -/
structure Authority (Key : Type) [LinearOrder Key] where
  weight_threshold : UInt32
  account_auths : List (AccountId × UInt16)
  key_auths : List (Key × UInt16)
  accounts_ordered : (account_auths.map Prod.fst).Pairwise (· < ·)
  keys_ordered : (key_auths.map Prod.fst).Pairwise (· < ·)

theorem none_ordered {K : Type} [LinearOrder K] : (([] : List (K × UInt16)).map Prod.fst).Pairwise (· < ·) := .nil

/-- What the checks read of an operation: `fee_payer` and what the operation adds
    in `get_required_active_authorities`, `get_required_owner_authorities` and
    `get_required_authorities`. -/
structure Operation (Key : Type) [LinearOrder Key] where
  fee_payer : AccountId
  required_active : List AccountId
  required_owner : List AccountId
  required_other : List (Authority Key)

inductive Exc
  | invalid_committee_approval
  | tx_missing_other_auth
  | tx_missing_active_auth (id : AccountId)
  | tx_missing_owner_auth (id : AccountId)
  | tx_irrelevant_sig
  | tx_duplicate_sig
  | bad_signature
  | undefined (what : String)
deriving DecidableEq, Repr

variable {Key σ : Type} [LinearOrder Key]

/-! ### The search -/

/-- The state of a search: what answers `signed_by`, and the accounts approved so far. -/
structure SignState (σ : Type) where
  signatures : σ
  approved_by : Finset AccountId

section
variable (signed_by : Key → σ → Bool × σ)

/-- The loop of `check_authority` over the keys. `none` says that it has returned
    `true`. -/
def check_keys (threshold : UInt32) : List (Key × UInt16) → UInt32 → σ → Option UInt32 × σ
  | [],total_weight,s => (some total_weight,s)
  | (k,weight) :: rest,total_weight,s =>
    match signed_by k s with
    | (true,s) =>
      let total_weight := total_weight + weight.toUInt32
      if total_weight ≥ threshold then (none,s) else check_keys threshold rest total_weight s
    | (false,s) => check_keys threshold rest total_weight s

/-- The loop of `check_authority` over the accounts. `deeper` checks the active
    authority of an account; at the depth limit there is none. -/
def check_accounts (deeper : Option (AccountId → SignState σ → Bool × SignState σ)) (threshold : UInt32) :
    List (AccountId × UInt16) → UInt32 → SignState σ → Bool × SignState σ
  | [],total_weight,s => (decide (total_weight ≥ threshold),s)
  | (a,weight) :: rest,total_weight,s =>
    if a ∈ s.approved_by then
      let total_weight := total_weight + weight.toUInt32
      if total_weight ≥ threshold then (true,s) else check_accounts deeper threshold rest total_weight s
    else match deeper with
      | none => (false,s)
      | some check =>
        match check a s with
        | (true,s) =>
          let s := { s with approved_by := insert a s.approved_by }
          let total_weight := total_weight + weight.toUInt32
          if total_weight ≥ threshold then (true,s) else check_accounts deeper threshold rest total_weight s
        | (false,s) => check_accounts deeper threshold rest total_weight s

/-! One round of the loop, by what is known of the account. -/

theorem check_accounts_known {deeper : Option (AccountId → SignState σ → Bool × SignState σ)} {threshold : UInt32}
    {a : AccountId} {weight : UInt16} {rest : List (AccountId × UInt16)} {total : UInt32} {s : SignState σ}
    (known : a ∈ s.approved_by) :
    check_accounts deeper threshold ((a,weight) :: rest) total s =
      if total + weight.toUInt32 ≥ threshold then (true,s)
      else check_accounts deeper threshold rest (total + weight.toUInt32) s := by
  cases deeper <;> simp [check_accounts,known]

theorem check_accounts_limit {threshold : UInt32} {a : AccountId} {weight : UInt16}
    {rest : List (AccountId × UInt16)} {total : UInt32} {s : SignState σ} (unknown : a ∉ s.approved_by) :
    check_accounts none threshold ((a,weight) :: rest) total s = (false,s) := by
  simp [check_accounts,unknown]

theorem check_accounts_approved {check : AccountId → SignState σ → Bool × SignState σ} {threshold : UInt32}
    {a : AccountId} {weight : UInt16} {rest : List (AccountId × UInt16)} {total : UInt32} {s s' : SignState σ}
    (unknown : a ∉ s.approved_by) (checked : check a s = (true,s')) :
    check_accounts (some check) threshold ((a,weight) :: rest) total s =
      if total + weight.toUInt32 ≥ threshold then (true,{ s' with approved_by := insert a s'.approved_by })
      else check_accounts (some check) threshold rest (total + weight.toUInt32)
        { s' with approved_by := insert a s'.approved_by } := by
  simp [check_accounts,unknown,checked]

theorem check_accounts_refused {check : AccountId → SignState σ → Bool × SignState σ} {threshold : UInt32}
    {a : AccountId} {weight : UInt16} {rest : List (AccountId × UInt16)} {total : UInt32} {s s' : SignState σ}
    (unknown : a ∉ s.approved_by) (checked : check a s = (false,s')) :
    check_accounts (some check) threshold ((a,weight) :: rest) total s =
      check_accounts (some check) threshold rest total s' := by
  simp [check_accounts,unknown,checked]

/-- Both loops of `check_authority`. -/
def check_members (deeper : Option (AccountId → SignState σ → Bool × SignState σ)) (auth : Authority Key)
    (s : SignState σ) : Bool × SignState σ :=
  match check_keys signed_by auth.weight_threshold auth.key_auths 0 s.signatures with
  | (none,signatures) => (true,{ s with signatures := signatures })
  | (some total_weight,signatures) =>
    check_accounts deeper auth.weight_threshold auth.account_auths total_weight { s with signatures := signatures }

variable (get_active : AccountId → Option (Authority Key))

/-- `check_authority( const authority* au, uint32_t depth )`, by the number of
    levels that are left above the limit, `max_recursion - depth`. -/
def check_authority : Nat → Option (Authority Key) → SignState σ → Bool × SignState σ
  | _,none,s => (false,s)
  | 0,some auth,s => check_members signed_by none auth s
  | n + 1,some auth,s => check_members signed_by (some fun a => check_authority n (get_active a)) auth s

/-- `check_authority( account_id_type id )`. -/
def check_account (max_recursion : Nat) (id : AccountId) (s : SignState σ) : Bool × SignState σ :=
  if id ∈ s.approved_by then (true,s) else check_authority signed_by get_active max_recursion (get_active id) s

variable (get_owner : AccountId → Option (Authority Key)) (max_recursion : Nat)

/-- The condition of a required active account: its active or its owner authority. -/
def check_active (id : AccountId) (s : SignState σ) : Bool × SignState σ :=
  match check_account signed_by get_active max_recursion id s with
  | (true,s) => (true,s)
  | (false,s) => check_authority signed_by get_active max_recursion (get_owner id) s

/-- The condition of a required owner account. -/
def check_owner (owner_approvals : Finset AccountId) (id : AccountId) (s : SignState σ) : Bool × SignState σ :=
  if id ∈ owner_approvals then (true,s)
  else check_authority signed_by get_active max_recursion (get_owner id) s

end

/-- A loop that asserts a condition of every item. -/
def assert_all {α : Type} (check : α → SignState σ → Bool × SignState σ) (e : α → Exc) :
    List α → SignState σ → Except Exc (SignState σ)
  | [],s => pure s
  | a :: rest,s =>
    match check a s with
    | (true,s) => assert_all check e rest s
    | (false,_) => throw (e a)

/-- The exception of a missing authority. Its message dereferences the authorities
    it prints. -/
def missing (e : Exc) (printed : List (Option (Authority Key))) : Exc :=
  if printed.all Option.isSome then e else .undefined "null authority"

/-! ### What the operations require -/

/-- `flat_set::insert`. -/
def flat_insert {α : Type} [LinearOrder α] (a : α) : List α → List α
  | [] => [a]
  | b :: rest => if a < b then a :: b :: rest else if a = b then b :: rest else b :: flat_insert a rest

/-- The sets that `operation_get_required_authorities` fills. -/
structure Required (Key : Type) [LinearOrder Key] where
  active : List AccountId
  owner : List AccountId
  other : List (Authority Key)

/-- `operation_get_required_authorities`. -/
def operation_get_required_authorities (op : Operation Key) (r : Required Key) : Required Key where
  active := op.required_active.foldl (fun s id => flat_insert id s) (flat_insert op.fee_payer r.active)
  owner := op.required_owner.foldl (fun s id => flat_insert id s) r.owner
  other := r.other ++ op.required_other

def required_authorities (ops : List (Operation Key)) : Required Key :=
  ops.foldl (fun r op => operation_get_required_authorities op r) ⟨[],[],[]⟩

theorem mem_flat_insert {α : Type} [LinearOrder α] {a b : α} {s : List α} :
    b ∈ flat_insert a s ↔ b = a ∨ b ∈ s := by
  induction s with
  | nil => simp [flat_insert]
  | cons c rest ih =>
    rw [flat_insert]
    split_ifs with less equal
    · simp
    · subst equal; simp
    · simp only [List.mem_cons,ih]
      tauto

private theorem mem_inserted {α : Type} [LinearOrder α] {b : α} (ids s : List α) :
    b ∈ ids.foldl (fun s id => flat_insert id s) s ↔ b ∈ ids ∨ b ∈ s := by
  induction ids generalizing s with
  | nil => simp
  | cons a rest ih =>
    simp only [List.foldl_cons,ih,mem_flat_insert,List.mem_cons]
    tauto

private theorem mem_collected (ops : List (Operation Key)) (r : Required Key) :
    (∀ id, id ∈ (ops.foldl (fun r op => operation_get_required_authorities op r) r).active ↔
      id ∈ r.active ∨ ∃ op ∈ ops, id = op.fee_payer ∨ id ∈ op.required_active) ∧
    (∀ id, id ∈ (ops.foldl (fun r op => operation_get_required_authorities op r) r).owner ↔
      id ∈ r.owner ∨ ∃ op ∈ ops, id ∈ op.required_owner) ∧
    (∀ auth, auth ∈ (ops.foldl (fun r op => operation_get_required_authorities op r) r).other ↔
      auth ∈ r.other ∨ ∃ op ∈ ops, auth ∈ op.required_other) := by
  induction ops generalizing r with
  | nil => simp
  | cons op rest ih =>
    obtain ⟨active,owner,other⟩ := ih (operation_get_required_authorities op r)
    refine ⟨fun id => ?_,fun id => ?_,fun auth => ?_⟩
    · rw [List.foldl_cons,active id,operation_get_required_authorities,mem_inserted,mem_flat_insert]
      simp only [List.mem_cons,exists_eq_or_imp]
      grind
    · rw [List.foldl_cons,owner id,operation_get_required_authorities,mem_inserted]
      simp only [List.mem_cons,exists_eq_or_imp]
      grind
    · rw [List.foldl_cons,other auth,operation_get_required_authorities,List.mem_append]
      simp only [List.mem_cons,exists_eq_or_imp]
      grind

theorem mem_required_active {ops : List (Operation Key)} {id : AccountId} :
    id ∈ (required_authorities ops).active ↔ ∃ op ∈ ops, id = op.fee_payer ∨ id ∈ op.required_active := by
  simpa [required_authorities] using (mem_collected ops ⟨[],[],[]⟩).1 id

theorem mem_required_owner {ops : List (Operation Key)} {id : AccountId} :
    id ∈ (required_authorities ops).owner ↔ ∃ op ∈ ops, id ∈ op.required_owner := by
  simpa [required_authorities] using (mem_collected ops ⟨[],[],[]⟩).2.1 id

theorem mem_required_other {ops : List (Operation Key)} {auth : Authority Key} :
    auth ∈ (required_authorities ops).other ↔ ∃ op ∈ ops, auth ∈ op.required_other := by
  simpa [required_authorities] using (mem_collected ops ⟨[],[],[]⟩).2.2 auth

/-- The three loops of `verify_authority` and of `verify_authority1`. -/
def check_required (signed_by : Key → σ → Bool × σ) (get_active get_owner : AccountId → Option (Authority Key))
    (max_recursion : Nat) (owner_approvals : Finset AccountId) (r : Required Key) (s : SignState σ) :
    Except Exc (SignState σ) := do
  let s ← assert_all (fun auth => check_authority signed_by get_active max_recursion (some auth))
    (fun _ => .tx_missing_other_auth) r.other s
  let s ← assert_all (check_active signed_by get_active get_owner max_recursion)
    (fun id => missing (.tx_missing_active_auth id) [get_active id,get_owner id]) r.active s
  assert_all (check_owner signed_by get_active get_owner max_recursion owner_approvals)
    (fun id => missing (.tx_missing_owner_auth id) [get_owner id]) r.owner s

theorem bind_ok_iff {α β : Type} {x : Except Exc α} {f : α → Except Exc β} {b : β} :
    x >>= f = .ok b ↔ ∃ a, x = .ok a ∧ f a = .ok b := by
  cases x <;> simp [bind,Except.bind]

/-- The loops return when each of them does. -/
theorem check_required_ok_iff {signed_by : Key → σ → Bool × σ} {get_active get_owner : AccountId → Option (Authority Key)}
    {max_recursion : Nat} {owner_approvals : Finset AccountId} {r : Required Key} {s s' : SignState σ} :
    check_required signed_by get_active get_owner max_recursion owner_approvals r s = .ok s' ↔
      ∃ s₁ s₂, assert_all (fun auth => check_authority signed_by get_active max_recursion (some auth))
          (fun _ => .tx_missing_other_auth) r.other s = .ok s₁ ∧
        assert_all (check_active signed_by get_active get_owner max_recursion)
          (fun id => missing (.tx_missing_active_auth id) [get_active id,get_owner id]) r.active s₁ = .ok s₂ ∧
        assert_all (check_owner signed_by get_active get_owner max_recursion owner_approvals)
          (fun id => missing (.tx_missing_owner_auth id) [get_owner id]) r.owner s₂ = .ok s' := by
  simp only [check_required,bind_ok_iff,exists_and_left]

/-! ### Many signatures -/

/-- `provided_signatures`: the keys of the map, and those among them that it maps
    to `true`. -/
structure Signatures (Key : Type) where
  provided : Finset Key
  used : Finset Key

/-- `sign_state::signed_by`. -/
def signed_by (available_keys : Finset Key) (k : Key) (s : Signatures Key) : Bool × Signatures Key :=
  if k ∈ s.provided then (true,{ s with used := insert k s.used })
  else if k ∈ available_keys then (true,⟨insert k s.provided,insert k s.used⟩)
  else (false,s)

/-- What `sign_state::remove_unused_signatures` returns. -/
def has_unused_signatures (s : Signatures Key) : Bool := decide (¬ s.provided ⊆ s.used)

/-- The accounts that a search of `verify_authority` starts with. -/
def approved (active_approvals owner_approvals : Finset AccountId) : Finset AccountId :=
  insert GRAPHENE_TEMP_ACCOUNT (active_approvals ∪ owner_approvals)

/-- `verify_authority`. -/
def verify_authority (ops : List (Operation Key)) (sigs : Finset Key)
    (get_active get_owner : AccountId → Option (Authority Key)) (max_recursion : Nat) (allow_committee : Bool)
    (active_approvals owner_approvals : Finset AccountId) : Except Exc Unit := do
  let r := required_authorities ops
  if !allow_committee && r.active.contains GRAPHENE_MINER_ACCOUNT then throw .invalid_committee_approval
  let s ← check_required (signed_by ∅) get_active get_owner max_recursion owner_approvals r
    ⟨⟨sigs,∅⟩,approved active_approvals owner_approvals⟩
  if has_unused_signatures s.signatures then throw .tx_irrelevant_sig

theorem verify_authority_ok_iff {ops : List (Operation Key)} {sigs : Finset Key}
    {get_active get_owner : AccountId → Option (Authority Key)} {max_recursion : Nat} {allow_committee : Bool}
    {active_approvals owner_approvals : Finset AccountId} :
    verify_authority ops sigs get_active get_owner max_recursion allow_committee active_approvals owner_approvals =
        .ok () ↔
      (allow_committee = true ∨ GRAPHENE_MINER_ACCOUNT ∉ (required_authorities ops).active) ∧
      ∃ s, check_required (signed_by ∅) get_active get_owner max_recursion owner_approvals (required_authorities ops)
          ⟨⟨sigs,∅⟩,approved active_approvals owner_approvals⟩ = .ok s ∧
        has_unused_signatures s.signatures = false := by
  rw [verify_authority]
  by_cases committee : allow_committee = true ∨ GRAPHENE_MINER_ACCOUNT ∉ (required_authorities ops).active
  · have guard : (!allow_committee && (required_authorities ops).active.contains GRAPHENE_MINER_ACCOUNT) = false := by
      rcases committee with allowed | absent
      · simp [allowed]
      · simp [absent]
    rw [and_iff_right committee,guard]
    cases check_required (signed_by ∅) get_active get_owner max_recursion owner_approvals (required_authorities ops)
        ⟨⟨sigs,∅⟩,approved active_approvals owner_approvals⟩ with
    | error e => simp [bind,Except.bind]
    | ok s =>
      cases unused : has_unused_signatures s.signatures <;>
        simp [bind,Except.bind,unused,throw,throwThe,MonadExceptOf.throw,pure,Except.pure]
  · have guard : (!allow_committee && (required_authorities ops).active.contains GRAPHENE_MINER_ACCOUNT) = true := by
      simpa using committee
    rw [guard]
    simp [committee,bind,Except.bind,throw,throwThe,MonadExceptOf.throw]

/-! ### One signature -/

/-- `sign_state1::signed_by`. -/
def signed_by1 (key k : Key) (s : Unit) : Bool × Unit := (decide (k = key),s)

/-- `verify_authority1`. -/
def verify_authority1 (ops : List (Operation Key)) (key : Key)
    (get_active get_owner : AccountId → Option (Authority Key)) (max_recursion : Nat) : Except Exc Unit := do
  let _ ← check_required (signed_by1 key) get_active get_owner max_recursion ∅ (required_authorities ops)
    ⟨(),{GRAPHENE_TEMP_ACCOUNT}⟩

theorem verify_authority1_ok_iff {ops : List (Operation Key)} {key : Key}
    {get_active get_owner : AccountId → Option (Authority Key)} {max_recursion : Nat} :
    verify_authority1 ops key get_active get_owner max_recursion = .ok () ↔
      ∃ s, check_required (signed_by1 key) get_active get_owner max_recursion ∅ (required_authorities ops)
        ⟨(),{GRAPHENE_TEMP_ACCOUNT}⟩ = .ok s := by
  rw [verify_authority1]
  cases check_required (signed_by1 key) get_active get_owner max_recursion ∅ (required_authorities ops)
      ⟨(),{GRAPHENE_TEMP_ACCOUNT}⟩ <;> simp [bind,Except.bind,pure,Except.pure]

/-- The loop of `signed_transaction::get_signature_keys`; `recover` is the key that
    made a signature of the transaction. -/
def collect_keys {Signature : Type} (recover : Signature → Option Key) :
    List Signature → List Key → Except Exc (List Key)
  | [],result => pure result
  | sig :: rest,result =>
    match recover sig with
    | none => throw .bad_signature
    | some key =>
      if result.contains key then throw .tx_duplicate_sig else collect_keys recover rest (flat_insert key result)

/-- `signed_transaction::get_signature_keys`. -/
def get_signature_keys {Signature : Type} (recover : Signature → Option Key) (signatures : List Signature) :
    Except Exc (List Key) := collect_keys recover signatures []

/-- `signed_transaction::verify_authority`. -/
def signed_transaction_verify_authority {Signature : Type} (recover : Signature → Option Key)
    (ops : List (Operation Key)) (signatures : List Signature)
    (get_active get_owner : AccountId → Option (Authority Key)) (max_recursion : Nat) : Except Exc Unit := do
  match ← get_signature_keys recover signatures with
  | [key] => verify_authority1 ops key get_active get_owner max_recursion
  | sig_keys => verify_authority ops sig_keys.toFinset get_active get_owner max_recursion false ∅ ∅

/-! ### Proposals -/

/-- The approvals of a `proposal_object`, and the operations it proposes. -/
structure Proposal (Key : Type) [LinearOrder Key] where
  operations : List (Operation Key)
  available_key_approvals : Finset Key
  available_active_approvals : Finset AccountId
  available_owner_approvals : Finset AccountId

/-- `proposal_object::is_authorized_to_execute`. -/
def is_authorized_to_execute (p : Proposal Key) (active owner : AccountId → Authority Key)
    (max_authority_depth : Nat) : Bool :=
  match verify_authority p.operations p.available_key_approvals (fun id => some (active id))
      (fun id => some (owner id)) max_authority_depth true p.available_active_approvals
      p.available_owner_approvals with
  | .ok _ => true
  | .error _ => false

end Decent.Authorities

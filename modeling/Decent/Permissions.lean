import Decent.Settings

/-!
The withdrawals that an account permits another to make. A permission is created for a number of periods, may
be changed and deleted, and each claim moves its period on to the one that the claim is in. Beside the
ledger a book is kept of what was promised last, and of every claim since.
-/
namespace Decent.Money
open Throwing

/-! ### The operations -/

structure WithdrawPermissionCreateOperation where
  fee : Asset
  withdraw_from_account : AccountId
  authorized_account : AccountId
  withdrawal_limit : Asset
  withdrawal_period_sec : UInt32
  periods_until_expiration : UInt32
  period_start_time : UInt32

structure WithdrawPermissionUpdateOperation where
  fee : Asset
  withdraw_from_account : AccountId
  authorized_account : AccountId
  permission_to_update : Nat
  withdrawal_limit : Asset
  withdrawal_period_sec : UInt32
  period_start_time : UInt32
  periods_until_expiration : UInt32

structure WithdrawPermissionDeleteOperation where
  fee : Asset
  withdraw_from_account : AccountId
  authorized_account : AccountId
  withdrawal_permission : Nat

inductive PermissionOperation
  | create (o : WithdrawPermissionCreateOperation)
  | update (o : WithdrawPermissionUpdateOperation)
  | claim (o : WithdrawPermissionClaimOperation)
  | delete (o : WithdrawPermissionDeleteOperation)

def PermissionOperation.validate : PermissionOperation → Bool
  | .create o => 0 ≤ o.fee.amount && o.withdraw_from_account ≠ o.authorized_account && 0 < o.withdrawal_limit.amount &&
      0 < o.withdrawal_period_sec && 0 < o.periods_until_expiration
  | .update o => 0 < o.withdrawal_limit.amount && 0 ≤ o.fee.amount && 0 < o.withdrawal_period_sec &&
      o.withdraw_from_account ≠ o.authorized_account && 0 < o.periods_until_expiration
  | .claim o => (Operation.withdraw_permission_claim o).validate
  | .delete o => 0 ≤ o.fee.amount && o.withdraw_from_account ≠ o.authorized_account

/-- `period_start_time + periods_until_expiration * withdrawal_period_sec`, all in 32 bits. -/
def expiration_time (period_start_time periods_until_expiration withdrawal_period_sec : UInt32) : Nat :=
  (period_start_time + periods_until_expiration * withdrawal_period_sec).toNat

def withdraw_permission_create_evaluate (o : WithdrawPermissionCreateOperation) : Reads Unit := do
  let L ← read
  fc_assert ((L.accounts.find? o.withdraw_from_account).isSome = true)
  fc_assert ((L.accounts.find? o.authorized_account).isSome = true)
  fc_assert ((L.assets.find? o.withdrawal_limit.asset_id).isSome = true)
  fc_assert (L.properties.time < o.period_start_time.toNat)
  fc_assert (L.properties.time < expiration_time o.period_start_time o.periods_until_expiration o.withdrawal_period_sec)
  fc_assert (L.parameters.block_interval ≤ o.withdrawal_period_sec.toNat)

def withdraw_permission_create_apply (o : WithdrawPermissionCreateOperation) : M Unit :=
  modify fun L => { L with permissions := L.permissions.create {
    withdraw_from_account := o.withdraw_from_account
    authorized_account := o.authorized_account
    withdrawal_limit := o.withdrawal_limit
    withdrawal_period_sec := o.withdrawal_period_sec.toNat
    period_start_time := o.period_start_time.toNat
    expiration := expiration_time o.period_start_time o.periods_until_expiration o.withdrawal_period_sec
    claimed_this_period := 0 } }

def withdraw_permission_update_evaluate (o : WithdrawPermissionUpdateOperation) : Reads Unit := do
  let L ← read
  let permit ← get_permission o.permission_to_update
  fc_assert (permit.authorized_account = o.authorized_account)
  fc_assert (permit.withdraw_from_account = o.withdraw_from_account)
  fc_assert ((L.assets.find? o.withdrawal_limit.asset_id).isSome = true)
  fc_assert (L.properties.time ≤ o.period_start_time.toNat)
  fc_assert (L.properties.time < expiration_time o.period_start_time o.periods_until_expiration o.withdrawal_period_sec)
  fc_assert (L.parameters.block_interval ≤ o.withdrawal_period_sec.toNat)

/-- A permission after an update; what was claimed in the running period stays. -/
def WithdrawPermission.update (p : WithdrawPermission) (o : WithdrawPermissionUpdateOperation) : WithdrawPermission :=
  { p with
    period_start_time := o.period_start_time.toNat
    expiration := expiration_time o.period_start_time o.periods_until_expiration o.withdrawal_period_sec
    withdrawal_limit := o.withdrawal_limit
    withdrawal_period_sec := o.withdrawal_period_sec.toNat }

def withdraw_permission_update_apply (o : WithdrawPermissionUpdateOperation) : M Unit :=
  modify fun L => { L with permissions := L.permissions.update o.permission_to_update fun p => p.update o }

def withdraw_permission_delete_evaluate (o : WithdrawPermissionDeleteOperation) : Reads Unit := do
  let permit ← get_permission o.withdrawal_permission
  fc_assert (permit.authorized_account = o.authorized_account)
  fc_assert (permit.withdraw_from_account = o.withdraw_from_account)

def withdraw_permission_delete_apply (o : WithdrawPermissionDeleteOperation) : M Unit :=
  modify fun L => { L with permissions := L.permissions.erase o.withdrawal_permission }

def PermissionOperation.do_evaluate : PermissionOperation → Reads Unit
  | .create o => withdraw_permission_create_evaluate o
  | .update o => withdraw_permission_update_evaluate o
  | .claim o => withdraw_permission_claim_evaluate o
  | .delete o => withdraw_permission_delete_evaluate o

def PermissionOperation.do_apply : PermissionOperation → M Unit
  | .create o => withdraw_permission_create_apply o
  | .update o => withdraw_permission_update_apply o
  | .claim o => withdraw_permission_claim_apply o
  | .delete o => withdraw_permission_delete_apply o

/-- Remove the first permissions of the index as long as they have expired. -/
def remove_expired (now : Nat) (permissions : Index WithdrawPermission) : List (Nat × WithdrawPermission) →
    Index WithdrawPermission
  | [] => permissions
  | (id,p) :: rest => if p.expiration ≤ now then remove_expired now (permissions.erase id) rest else permissions

/-- The index `by_expiration`. -/
def Ledger.by_expiration (L : Ledger) : List (Nat × WithdrawPermission) :=
  L.permissions.table.rows.insertionSort fun a b => a.2.expiration ≤ b.2.expiration

def update_withdraw_permissions : M Unit :=
  modify fun L => { L with permissions := remove_expired L.properties.time L.permissions L.by_expiration }

/-! ### The book -/

/-- What a permission was last created or updated to. -/
structure Schedule where
  withdrawal_limit : Asset
  withdrawal_period_sec : Nat
  periods_until_expiration : Nat
  period_start_time : Nat

/-- A claim that succeeded, and the terms that it was made on. -/
structure Claim where
  time : Nat
  amount : Int
  terms : Schedule

/-- For each permission its terms and its claims, the last first. -/
structure Book where
  terms : Nat → Schedule
  claims : Nat → List Claim

def Book.promise (B : Book) (id : Nat) (s : Schedule) : Book := { B with terms := Function.update B.terms id s }

def Book.claimed (B : Book) (id : Nat) (c : Claim) : Book :=
  { B with claims := Function.update B.claims id (c :: B.claims id) }

/-- What the book says after an operation on the ledger `L`. -/
def PermissionOperation.note (op : PermissionOperation) (L : Ledger) (B : Book) : Book :=
  match op with
  | .create o => B.promise L.permissions.next ⟨o.withdrawal_limit,o.withdrawal_period_sec.toNat,
      o.periods_until_expiration.toNat,o.period_start_time.toNat⟩
  | .update o => B.promise o.permission_to_update ⟨o.withdrawal_limit,o.withdrawal_period_sec.toNat,
      o.periods_until_expiration.toNat,o.period_start_time.toNat⟩
  | .claim o => B.claimed o.withdraw_permission
      ⟨L.properties.time,o.amount_to_withdraw.amount,B.terms o.withdraw_permission⟩
  | .delete _ => B

/-- The ledgers of all runs in which operations on permissions are `allowed`, with their books. Between these
    operations anything may happen that leaves the permissions alone and does not put the clock back. -/
inductive Permitted (allowed : PermissionOperation → Ledger → Prop) : Ledger → Book → Prop
  | start {L : Ledger} {B : Book} (none : ∀ id, L.permissions.find? id = none) (clock : L.properties.time < 2^32)
      (blank : ∀ id, B.claims id = []) : Permitted allowed L B
  | operation {L L' : Ledger} {B : Book} {op : PermissionOperation} (before : Permitted allowed L B) (meets : allowed op L)
      (valid : op.validate = true) (evaluated : op.do_evaluate L = .ok ())
      (applied : EStateM.run op.do_apply L = .ok () L') : Permitted allowed L' (op.note L B)
  | expire {L L' : Ledger} {B : Book} (before : Permitted allowed L B)
      (ran : EStateM.run update_withdraw_permissions L = .ok () L') : Permitted allowed L' B
  | elsewhere {L L' : Ledger} {B : Book} (before : Permitted allowed L B) (same : L'.permissions = L.permissions)
      (clock : L.properties.time ≤ L'.properties.time) (fits : L'.properties.time < 2^32) : Permitted allowed L' B

/-! ### What is promised -/

/-- The period of the claim `c`, counted from the start of its terms, is also that of the time `t`. -/
def Claim.covers (c : Claim) (t : Nat) : Prop := c.terms.period_start_time ≤ t ∧
  (t - c.terms.period_start_time) / c.terms.withdrawal_period_sec =
    (c.time - c.terms.period_start_time) / c.terms.withdrawal_period_sec

instance (c : Claim) (t : Nat) : Decidable (c.covers t) := inferInstanceAs (Decidable (_ ∧ _))

/-- All that the claims add up to. -/
def claims_total (claims : List Claim) : Int := (claims.map (·.amount)).sum

/-- The claim is made in the time of the permission, and with those before it stays within the limit of the period. -/
structure Claim.Respects (c : Claim) (earlier : List Claim) : Prop where
  started : c.terms.period_start_time ≤ c.time
  unexpired : c.time < c.terms.period_start_time + c.terms.periods_until_expiration * c.terms.withdrawal_period_sec
  limited : claims_total ((c :: earlier).filter fun e => c.covers e.time) ≤ c.terms.withdrawal_limit.amount

/-- What the claims since the time `b` add up to. -/
def claimed_since (b : Nat) (claims : List Claim) : Int := claims_total (claims.filter fun e => b ≤ e.time)

/-- What a permission keeps of its terms `s` and its claims. The period that is counted began at `b`, which
    may be before the start that an update has set. -/
structure Keeping (now : Nat) (p : WithdrawPermission) (s : Schedule) (claims : List Claim) : Prop where
  limit : p.withdrawal_limit = s.withdrawal_limit
  period : p.withdrawal_period_sec = s.withdrawal_period_sec
  positive : 0 < s.withdrawal_period_sec
  unexpired : p.expiration ≤ s.period_start_time + s.periods_until_expiration * s.withdrawal_period_sec
  aligned : ∃ k, p.period_start_time = s.period_start_time + k * s.withdrawal_period_sec
  earlier : ∀ e ∈ claims, e.time < p.period_start_time + p.withdrawal_period_sec
  counted : ∃ b, b ≤ p.period_start_time ∧ b ≤ now ∧ claimed_since b claims ≤ p.claimed_this_period

theorem claims_total_nonneg {claims : List Claim} (some : ∀ e ∈ claims, 0 < e.amount) : 0 ≤ claims_total claims := by
  refine List.sum_nonneg fun v member => ?_
  obtain ⟨e,inside,rfl⟩ := List.mem_map.mp member
  exact Int.le_of_lt (some e inside)

/-- Fewer claims add up to less. -/
theorem claims_total_filter_le {claims : List Claim} {chosen wider : Claim → Bool} (some : ∀ e ∈ claims, 0 < e.amount)
    (within : ∀ e ∈ claims, chosen e = true → wider e = true) :
    claims_total (claims.filter chosen) ≤ claims_total (claims.filter wider) := by
  induction claims with
  | nil => exact le_refl _
  | cons e rest ih =>
    obtain ⟨here,some⟩ := List.forall_mem_cons.mp some
    obtain ⟨first,within⟩ := List.forall_mem_cons.mp within
    have rest_le := ih some within
    simp only [claims_total] at rest_le ⊢
    by_cases chosen_e : chosen e = true
    · simp [chosen_e,first chosen_e,rest_le]
    · by_cases wider_e : wider e = true
      · simp [chosen_e,wider_e]
        omega
      · simp [chosen_e,wider_e,rest_le]

theorem claimed_since_cons {b : Nat} {c : Claim} (after : b ≤ c.time) (claims : List Claim) :
    claimed_since b (c :: claims) = c.amount + claimed_since b claims := by
  simp [claimed_since,claims_total,after]

theorem claimed_since_none {b : Nat} {claims : List Claim} (past : ∀ e ∈ claims, e.time < b) :
    claimed_since b claims = 0 := by
  have nothing : claims.filter (fun e => b ≤ e.time) = [] :=
    List.filter_eq_nil_iff.mpr fun e member => by simpa using past e member
  rw [claimed_since,nothing]
  rfl

/-- The period that a claim after the start moves on to. -/
theorem WithdrawPermission.claim_ok {p p' : WithdrawPermission} {amount : Int} {now : Nat} (started : p.period_start_time ≤ now)
    (clock : now < 2^32) (claimed : p.claim amount now = .ok p') :
    p' = { p with
      period_start_time := p.period_start_time + (now - p.period_start_time) / p.withdrawal_period_sec * p.withdrawal_period_sec
      claimed_this_period := if (now - p.period_start_time) / p.withdrawal_period_sec = 0 then p.claimed_this_period + amount
        else amount } := by
  have whole : ((now : Int) - p.period_start_time).tdiv p.withdrawal_period_sec =
      (((now - p.period_start_time) / p.withdrawal_period_sec : Nat) : Int) := by
    rw [← Int.ofNat_sub started,Int.ofNat_tdiv]
  have inside : p.period_start_time + (now - p.period_start_time) / p.withdrawal_period_sec * p.withdrawal_period_sec ≤ now := by
    have := Nat.div_mul_le_self (now - p.period_start_time) p.withdrawal_period_sec
    omega
  have moved : (((p.period_start_time : Int) +
      ((now - p.period_start_time) / p.withdrawal_period_sec : Nat) * p.withdrawal_period_sec) % 2^32).toNat =
      p.period_start_time + (now - p.period_start_time) / p.withdrawal_period_sec * p.withdrawal_period_sec := by
    rw [← Int.natCast_mul,← Int.natCast_add]
    omega
  unfold WithdrawPermission.claim at claimed
  rw [whole] at claimed
  simp only [Int.natCast_eq_zero] at claimed
  split at claimed
  case isTrue zero =>
    obtain ⟨amount',counted,same⟩ := bind_ok.mp claimed
    cases same
    rw [if_pos zero,(checked_ok.mp counted).2,moved]
  case isFalse more =>
    cases claimed
    rw [if_neg more,moved]

/-- What is available is within the limit, and with what is claimed in a period that runs. -/
theorem WithdrawPermission.available_ok {p : WithdrawPermission} {amount : Asset} {now : Nat} {available : Asset}
    (read : p.available_this_period now = .ok available) (atMost : amount.at_most available = .ok true)
    (some : 0 < amount.amount) : amount.amount ≤ p.withdrawal_limit.amount - min p.claimed_this_period 0 ∧
      (now < later p.period_start_time p.withdrawal_period_sec →
        p.claimed_this_period + amount.amount ≤ p.withdrawal_limit.amount) := by
  have below := (Asset.at_most_true atMost).2
  unfold WithdrawPermission.available_this_period at read
  split at read
  case isTrue ended =>
    cases read
    exact ⟨by omega,fun running => absurd ended (Nat.not_le.mpr running)⟩
  case isFalse =>
    split at read
    case isTrue =>
      obtain ⟨left,counted,same⟩ := bind_ok.mp read
      cases same
      have below : amount.amount ≤ left := below
      have remaining := (checked_ok.mp counted).2
      exact ⟨by omega,fun _ => by omega⟩
    case isFalse =>
      cases read
      exact absurd some (Int.not_lt.mpr below)

/-- What the period of a claim covers is not before its start. -/
theorem Claim.start_le {c : Claim} {j t : Nat} (positive : 0 < c.terms.withdrawal_period_sec)
    (from_start : c.terms.period_start_time + j * c.terms.withdrawal_period_sec ≤ c.time) (covers : c.covers t) :
    c.terms.period_start_time + j * c.terms.withdrawal_period_sec ≤ t := by
  obtain ⟨after,same⟩ := covers
  have index : j ≤ (c.time - c.terms.period_start_time) / c.terms.withdrawal_period_sec :=
    (Nat.le_div_iff_mul_le positive).mpr (by omega)
  rw [← same,Nat.le_div_iff_mul_le positive] at index
  omega

/-- A claim in its time keeps the terms, and respects them. -/
theorem Keeping.claim {now : Nat} {p p' : WithdrawPermission} {s : Schedule} {claims : List Claim} {amount : Asset}
    {available : Asset} (keeping : Keeping now p s claims) (past : ∀ e ∈ claims, e.time ≤ now ∧ 0 < e.amount)
    (clock : now < 2^32) (started : p.period_start_time ≤ now) (running : now < p.expiration)
    (fits : p.period_start_time + p.withdrawal_period_sec < 2^32 ∨
      p.claimed_this_period + amount.amount ≤ p.withdrawal_limit.amount)
    (read : p.available_this_period now = .ok available) (atMost : amount.at_most available = .ok true)
    (some : 0 < amount.amount) (claimed : p.claim amount.amount now = .ok p') :
    Keeping now p' s (⟨now,amount.amount,s⟩ :: claims) ∧ Claim.Respects ⟨now,amount.amount,s⟩ claims := by
  have positive := keeping.positive
  obtain ⟨k,aligned⟩ := keeping.aligned
  obtain ⟨b,b_le,b_past,counted⟩ := keeping.counted
  have enough := WithdrawPermission.available_ok read atMost some
  obtain rfl := WithdrawPermission.claim_ok started clock claimed
  have amounts : ∀ e ∈ claims, 0 < e.amount := fun e member => (past e member).2
  have carried : 0 ≤ claimed_since b claims :=
    claims_total_nonneg fun e member => amounts e (List.mem_of_mem_filter member)
  rw [keeping.period] at enough fits ⊢
  -- The period of the claim is the one that the permission has moved on to.
  obtain ⟨n,whole⟩ : ∃ n, n = (now - p.period_start_time) / s.withdrawal_period_sec := ⟨_,rfl⟩
  rw [← whole]
  have reached : n * s.withdrawal_period_sec ≤ now - p.period_start_time :=
    whole ▸ Nat.div_mul_le_self (now - p.period_start_time) s.withdrawal_period_sec
  have inside : now - p.period_start_time < n * s.withdrawal_period_sec + s.withdrawal_period_sec :=
    whole ▸ Nat.lt_div_mul_add positive
  have limited : (if n = 0 then p.claimed_this_period + amount.amount else amount.amount) ≤ p.withdrawal_limit.amount := by
    split
    case isTrue zero =>
      rcases fits with fits | fits
      · refine enough.2 ?_
        rw [later,Nat.mod_eq_of_lt fits]
        rw [zero] at inside
        omega
      · exact fits
    case isFalse => omega
  obtain ⟨b',b'_le,b'_past,since⟩ : ∃ b', b' ≤ p.period_start_time + n * s.withdrawal_period_sec ∧ b' ≤ now ∧
      claimed_since b' (⟨now,amount.amount,s⟩ :: claims) ≤
        if n = 0 then p.claimed_this_period + amount.amount else amount.amount := by
    split
    case isTrue zero =>
      refine ⟨b,by omega,b_past,?_⟩
      rw [claimed_since_cons b_past]
      show amount.amount + _ ≤ _
      omega
    case isFalse more =>
      have one : s.withdrawal_period_sec ≤ n * s.withdrawal_period_sec := Nat.le_mul_of_pos_left _ (Nat.pos_of_ne_zero more)
      have until_now : p.period_start_time + n * s.withdrawal_period_sec ≤ now := by omega
      refine ⟨_,Nat.le_refl _,until_now,?_⟩
      rw [claimed_since_cons until_now,claimed_since_none fun e member => ?_,Int.add_zero]
      have ended := keeping.earlier e member
      rw [keeping.period] at ended
      exact Nat.lt_of_lt_of_le ended (Nat.add_le_add_left one _)
  have moved : p.period_start_time + n * s.withdrawal_period_sec =
      s.period_start_time + (k + n) * s.withdrawal_period_sec := by
    rw [aligned,Nat.add_mul,Nat.add_assoc]
  refine ⟨?_,?_⟩
  · exact {
      limit := keeping.limit
      period := rfl
      positive := positive
      unexpired := keeping.unexpired
      aligned := ⟨k + n,moved⟩
      earlier := by
        rw [List.forall_mem_cons]
        have running : now < p.period_start_time + n * s.withdrawal_period_sec + s.withdrawal_period_sec := by omega
        exact ⟨running,fun e member => Nat.lt_of_le_of_lt (past e member).1 running⟩
      counted := ⟨b',b'_le,b'_past,since⟩ }
  · refine ⟨?_,Nat.lt_of_lt_of_le running keeping.unexpired,?_⟩
    · show s.period_start_time ≤ now
      omega
    · rw [← keeping.limit]
      refine Int.le_trans ?_ (Int.le_trans since limited)
      refine claims_total_filter_le (List.forall_mem_cons.mpr ⟨some,amounts⟩) fun e _ covered => ?_
      have start := Claim.start_le (c := ⟨now,amount.amount,s⟩) (j := k + n) positive
        (by show s.period_start_time + (k + n) * s.withdrawal_period_sec ≤ now; omega) (of_decide_eq_true covered)
      have start : s.period_start_time + (k + n) * s.withdrawal_period_sec ≤ e.time := start
      exact decide_eq_true (by omega)

/-! ### Every run -/

/-- What a ledger has to do with its book. -/
structure Honoured (L : Ledger) (B : Book) : Prop where
  clock : L.properties.time < 2^32
  live : ∀ {id p}, L.permissions.find? id = some p → Keeping L.properties.time p (B.terms id) (B.claims id)
  past : ∀ id, ∀ e ∈ B.claims id, e.time ≤ L.properties.time ∧ 0 < e.amount
  unused : ∀ {id}, L.permissions.next ≤ id → B.claims id = []
  respected : ∀ id later c earlier, B.claims id = later ++ c :: earlier → c.Respects earlier

/-- A claim is made in a period that has begun and that ends before the clock does. -/
def claims_in_time : PermissionOperation → Ledger → Prop
  | .claim o, L => ∀ p ∈ L.permissions.find? o.withdraw_permission, p.period_start_time ≤ L.properties.time ∧
      (p.period_start_time + p.withdrawal_period_sec < 2^32 ∨
        p.claimed_this_period + o.amount_to_withdraw.amount ≤ p.withdrawal_limit.amount)
  | _, _ => True

/-- The permissions and the clock stay. -/
def Unmoved (L L' : Ledger) : Prop := L'.permissions = L.permissions ∧ L'.properties = L.properties

instance unmoved_composes : Composes Unmoved where
  refl _ := ⟨rfl,rfl⟩
  trans first second := ⟨second.1.trans first.1,second.2.trans first.2⟩

instance : Crediting Unmoved where
  balances _ _ := ⟨rfl,rfl⟩
  vestings _ _ := ⟨rfl,rfl⟩
  miners _ _ := ⟨rfl,rfl⟩

theorem get_permission_ok {id : Nat} {L : Ledger} {p : WithdrawPermission} :
    get_permission id L = .ok p ↔ L.permissions.find? id = some p := by
  rw [get_permission,reads_read]
  cases L.permissions.find? id with
  | none => simp [throw,throwThe,MonadExceptOf.throw]
  | some q => simp [reads_pure]

theorem expiration_time_le (start periods seconds : UInt32) :
    expiration_time start periods seconds ≤ start.toNat + periods.toNat * seconds.toNat := by
  rw [expiration_time,UInt32.toNat_add,UInt32.toNat_mul]
  exact Nat.le_trans (Nat.mod_le _ _) (Nat.add_le_add_left (Nat.mod_le _ _) _)

theorem Keeping.later {now now' : Nat} {p : WithdrawPermission} {s : Schedule} {claims : List Claim} (clock : now ≤ now')
    (keeping : Keeping now p s claims) : Keeping now' p s claims := by
  obtain ⟨b,b_le,b_past,counted⟩ := keeping.counted
  exact { keeping with counted := ⟨b,b_le,Nat.le_trans b_past clock,counted⟩ }

/-- The permissions that are left are those that were, and no time passes backwards. -/
theorem Honoured.fewer {L L' : Ledger} {B : Book} (honoured : Honoured L B)
    (left : ∀ {id p}, L'.permissions.find? id = some p → L.permissions.find? id = some p)
    (next : L'.permissions.next = L.permissions.next) (clock : L.properties.time ≤ L'.properties.time)
    (fits : L'.properties.time < 2^32) : Honoured L' B where
  clock := fits
  live := fun found => (honoured.live (left found)).later clock
  past := fun id e member => ⟨Nat.le_trans (honoured.past id e member).1 clock,(honoured.past id e member).2⟩
  unused := fun above => honoured.unused (next ▸ above)
  respected := honoured.respected

/-- New terms for a permission: those of an update, which starts no earlier than now. -/
theorem Honoured.promise {L L' : Ledger} {B : Book} {id : Nat} {s : Schedule} (honoured : Honoured L B)
    (kept : ∀ {p}, L'.permissions.find? id = some p → Keeping L.properties.time p s (B.claims id))
    (others : ∀ {k p}, k ≠ id → L'.permissions.find? k = some p → L.permissions.find? k = some p)
    (next : L.permissions.next ≤ L'.permissions.next) (clock : L'.properties = L.properties) :
    Honoured L' (B.promise id s) where
  clock := by
    rw [clock]
    exact honoured.clock
  live := by
    intro k p found
    rw [clock]
    show Keeping _ p (Function.update B.terms id s k) (B.claims k)
    by_cases here : k = id
    · subst here
      rw [Function.update_self]
      exact kept found
    · rw [Function.update_of_ne here]
      exact honoured.live (others here found)
  past := by
    rw [clock]
    exact honoured.past
  unused := fun above => honoured.unused (Nat.le_trans next above)
  respected := honoured.respected

theorem remove_expired_find? {now : Nat} {permissions : Index WithdrawPermission} {rows : List (Nat × WithdrawPermission)}
    {id : Nat} {p : WithdrawPermission} (found : (remove_expired now permissions rows).find? id = some p) :
    permissions.find? id = some p := by
  induction rows generalizing permissions with
  | nil => exact found
  | cons row rest ih =>
    rw [remove_expired] at found
    split at found
    case isTrue =>
      have before := ih found
      rw [Index.find?_erase] at before
      split at before
      · cases before
      · exact before
    case isFalse => exact found

theorem remove_expired_next (now : Nat) (permissions : Index WithdrawPermission) (rows : List (Nat × WithdrawPermission)) :
    (remove_expired now permissions rows).next = permissions.next := by
  induction rows generalizing permissions with
  | nil => rfl
  | cons row rest ih =>
    rw [remove_expired]
    split
    · exact ih _
    · rfl

theorem Honoured.create {L L' : Ledger} {B : Book} {o : WithdrawPermissionCreateOperation} (honoured : Honoured L B)
    (valid : (PermissionOperation.create o).validate = true)
    (applied : EStateM.run (withdraw_permission_create_apply o) L = .ok () L') :
    Honoured L' ((PermissionOperation.create o).note L B) := by
  cases applied
  simp only [PermissionOperation.validate,Bool.and_eq_true,decide_eq_true_eq] at valid
  refine honoured.promise (fun {p} found => ?_) (fun {k p} other found => ?_) (Nat.le_succ _) rfl
  · have found : (L.permissions.create _).find? L.permissions.next = some p := found
    rw [Index.find?_create,if_pos rfl] at found
    cases found
    rw [honoured.unused (Nat.le_refl _)]
    exact {
      limit := rfl
      period := rfl
      positive := UInt32.lt_iff_toNat_lt.mp valid.1.2
      unexpired := expiration_time_le ..
      aligned := ⟨0,by simp⟩
      earlier := fun _ member => nomatch member
      counted := ⟨0,Nat.zero_le _,Nat.zero_le _,Int.le_refl _⟩ }
  · have found : (L.permissions.create _).find? k = some p := found
    rwa [Index.find?_create,if_neg other] at found

theorem Honoured.update {L L' : Ledger} {B : Book} {o : WithdrawPermissionUpdateOperation} (honoured : Honoured L B)
    (valid : (PermissionOperation.update o).validate = true) (evaluated : withdraw_permission_update_evaluate o L = .ok ())
    (applied : EStateM.run (withdraw_permission_update_apply o) L = .ok () L') :
    Honoured L' ((PermissionOperation.update o).note L B) := by
  cases applied
  simp only [PermissionOperation.validate,Bool.and_eq_true,decide_eq_true_eq] at valid
  obtain ⟨_,got,evaluated⟩ := reads_bind.mp evaluated
  cases got
  simp only [reads_bind,reads_lift,fc_assert_ok] at evaluated
  obtain ⟨permit,-,_,-,_,-,_,-,_,starts,-⟩ := evaluated
  refine honoured.promise (fun {p} found => ?_) (fun {k p} other found => ?_) (Nat.le_of_eq (Index.next_update ..).symm) rfl
  · have found : (L.permissions.update _ _).find? o.permission_to_update = some p := found
    rw [Index.find?_update,if_pos rfl] at found
    obtain ⟨before,held,rfl⟩ := Option.map_eq_some_iff.mp found
    have keeping := honoured.live (p := before) held
    have positive : 0 < o.withdrawal_period_sec.toNat := UInt32.lt_iff_toNat_lt.mp valid.1.1.2
    obtain ⟨b,-,b_past,counted⟩ := keeping.counted
    exact {
      limit := rfl
      period := rfl
      positive := positive
      unexpired := expiration_time_le ..
      aligned := ⟨0,by simp [WithdrawPermission.update]⟩
      earlier := fun e member => Nat.lt_of_le_of_lt (Nat.le_trans (honoured.past _ e member).1 starts)
        (Nat.lt_add_of_pos_right positive)
      counted := ⟨b,Nat.le_trans b_past starts,b_past,counted⟩ }
  · have found : (L.permissions.update _ _).find? k = some p := found
    rwa [Index.find?_update,if_neg other] at found

/-- What a claim found, and what it wrote. -/
theorem withdraw_permission_claim_ok {L L' : Ledger} {o : WithdrawPermissionClaimOperation}
    (evaluated : withdraw_permission_claim_evaluate o L = .ok ())
    (applied : EStateM.run (withdraw_permission_claim_apply o) L = .ok () L') :
    ∃ p p' available, L.permissions.find? o.withdraw_permission = some p ∧ L.properties.time < p.expiration ∧
      p.available_this_period L.properties.time = .ok available ∧ o.amount_to_withdraw.at_most available = .ok true ∧
      p.claim o.amount_to_withdraw.amount L.properties.time = .ok p' ∧
      L'.permissions = L.permissions.update o.withdraw_permission (fun _ => p') ∧ L'.properties = L.properties := by
  simp only [withdraw_permission_claim_evaluate,reads_bind,reads_lift,fc_assert_ok,head_block_time,reads_pure,
    assert_at_most,bind_ok] at evaluated
  obtain ⟨p,read,_,⟨_,got,rfl⟩,_,running,_,-,_,-,available,shown,_,⟨_,atMost,rfl⟩,-⟩ := evaluated
  cases got
  obtain ⟨q,read',applied⟩ := run_observe_bind.mp applied
  cases read.symm.trans read'
  obtain ⟨now,got,applied⟩ := run_observe_bind.mp applied
  cases got
  obtain ⟨p',claimed,applied⟩ := run_observe_bind.mp applied
  obtain ⟨_,L₁,stored,applied⟩ := run_bind_ok.mp applied
  have rest : Unmoved L₁ L' := Within.ok inferInstance applied
  cases stored
  exact ⟨p,p',available,get_permission_ok.mp read,running,shown,atMost,claimed,rest.1,rest.2⟩

theorem Honoured.claim {L L' : Ledger} {B : Book} {o : WithdrawPermissionClaimOperation} (honoured : Honoured L B)
    (in_time : claims_in_time (.claim o) L) (valid : (PermissionOperation.claim o).validate = true)
    (evaluated : withdraw_permission_claim_evaluate o L = .ok ())
    (applied : EStateM.run (withdraw_permission_claim_apply o) L = .ok () L') :
    Honoured L' ((PermissionOperation.claim o).note L B) := by
  obtain ⟨p,p',available,found,running,read,atMost,claimed,permissions,properties⟩ :=
    withdraw_permission_claim_ok evaluated applied
  simp only [PermissionOperation.validate,Operation.validate,Bool.and_eq_true,decide_eq_true_eq] at valid
  obtain ⟨started,fits⟩ := in_time p found
  obtain ⟨keeping,respects⟩ := (honoured.live found).claim (honoured.past _) honoured.clock started running fits read atMost
    valid.1.2 claimed
  let claim : Claim := ⟨L.properties.time,o.amount_to_withdraw.amount,B.terms o.withdraw_permission⟩
  have claims (k : Nat) : ((PermissionOperation.claim o).note L B).claims k =
      if k = o.withdraw_permission then claim :: B.claims o.withdraw_permission else B.claims k :=
    Function.update_apply ..
  refine ⟨?_,?_,?_,?_,?_⟩
  · rw [properties]
    exact honoured.clock
  · intro k q stored
    rw [permissions,Index.find?_update] at stored
    rw [properties,claims]
    split at stored
    case isTrue here =>
      rw [if_pos here,here]
      rw [found] at stored
      cases stored
      exact keeping
    case isFalse other =>
      rw [if_neg other]
      exact honoured.live stored
  · intro k e member
    rw [properties]
    rw [claims] at member
    split at member
    · rcases List.mem_cons.mp member with rfl | before
      · exact ⟨Nat.le_refl _,valid.1.2⟩
      · exact honoured.past _ e before
    · exact honoured.past k e member
  · intro k above
    rw [permissions,Index.next_update] at above
    have other : k ≠ o.withdraw_permission := by
      rintro rfl
      exact absurd (L.permissions.below _ _ found) (Nat.not_lt.mpr above)
    rw [claims,if_neg other]
    exact honoured.unused above
  · intro k later c earlier split_claims
    rw [claims] at split_claims
    split at split_claims
    · rcases List.cons_eq_append_iff.mp split_claims with ⟨rfl,same⟩ | ⟨later',rfl,same⟩
      · obtain ⟨rfl,rfl⟩ := List.cons.inj same
        exact respects
      · exact honoured.respected _ later' c earlier same
    · exact honoured.respected k later c earlier split_claims

theorem Permitted.honoured {L : Ledger} {B : Book} (permitted : Permitted claims_in_time L B) : Honoured L B := by
  induction permitted with
  | start none clock blank =>
    refine ⟨clock,fun found => ?_,fun id e member => ?_,fun _ => blank _,fun id later c earlier claims => ?_⟩
    · cases (none _).symm.trans found
    · rw [blank] at member
      cases member
    · rw [blank] at claims
      exact absurd claims.symm (by simp)
  | @operation L L' B op before meets valid evaluated applied ih =>
    cases op with
    | create o => exact ih.create valid applied
    | update o => exact ih.update valid evaluated applied
    | claim o => exact ih.claim meets valid evaluated applied
    | delete o =>
      cases applied
      refine ih.fewer (fun {id p} found => ?_) rfl (Nat.le_refl _) ih.clock
      have found : (L.permissions.erase _).find? id = some p := found
      rw [Index.find?_erase] at found
      split at found
      · cases found
      · exact found
  | expire before ran ih =>
    cases ran
    exact ih.fewer (fun found => remove_expired_find? found) (remove_expired_next ..) (Nat.le_refl _) ih.clock
  | elsewhere before same clock fits ih =>
    exact ih.fewer (fun found => same ▸ found) (by rw [same]) clock fits

/-- As long as claims are made in periods that have begun, and that end before the clock does, every claim is made before
    its permission ends, and in no period more is claimed than the limit in force allows. -/
theorem withdraw_permissions_respected (L : Ledger) (B : Book) (permitted : Permitted claims_in_time L B) (id : Nat)
    (later : List Claim) (c : Claim) (earlier : List Claim) (claims : B.claims id = later ++ c :: earlier) :
    c.Respects earlier :=
  permitted.honoured.respected id later c earlier claims

instance (op : PermissionOperation) (L : Ledger) : Decidable (claims_in_time op L) := by
  cases op
  case claim o =>
    exact inferInstanceAs (Decidable (∀ p ∈ L.permissions.find? o.withdraw_permission,
      p.period_start_time ≤ L.properties.time ∧ (p.period_start_time + p.withdrawal_period_sec < 2^32 ∨
        p.claimed_this_period + o.amount_to_withdraw.amount ≤ p.withdrawal_limit.amount)))
  all_goals exact inferInstanceAs (Decidable True)

/-- Account 4, who has a hundred, and account 5. -/
def two_accounts : Ledger :=
  after_actions [new_account default_account.options,new_account default_account.options,grant 4 ⟨100,core⟩]

/-- Account 5 may take ten in each of three periods, from a hundred seconds on. -/
def permit : PermissionOperation := .create ⟨⟨0,core⟩,4,5,⟨10,core⟩,100,3,1530000100⟩

def take (amount : Int) : PermissionOperation := .claim ⟨⟨0,core⟩,0,4,5,⟨amount,core⟩⟩

/-- What an operation leaves. -/
def after_operation (op : PermissionOperation) (L : Ledger) : Ledger := endState (EStateM.run op.do_apply L)

def at_time (t : Nat) (L : Ledger) : Ledger := { L with properties := { L.properties with time := t } }

def blank_book : Book := ⟨fun _ => ⟨⟨0,core⟩,0,0,0⟩,fun _ => []⟩

theorem two_accounts_permitted (allowed : PermissionOperation → Ledger → Prop) :
    Permitted allowed two_accounts blank_book := by
  have none : two_accounts.permissions.table.rows.isEmpty = true := by decide +kernel
  refine .start (fun id => ?_) (by decide +kernel) fun _ => rfl
  rw [Index.find?,Table.find?,List.isEmpty_iff.mp none]
  rfl

/-- Six are taken in the first period, and ten in the second. -/
theorem withdraw_permissions_respected_twice : ∃ L B first second, Permitted claims_in_time L B ∧
    B.claims 0 = [second,first] ∧ first.amount = 6 ∧ second.amount = 10 ∧ second.Respects [first] := by
  let L₁ := after_operation permit two_accounts
  let L₂ := after_operation (take 6) (at_time 1530000120 L₁)
  let L₃ := after_operation (take 10) (at_time 1530000250 L₂)
  have created : Permitted claims_in_time L₁ (permit.note two_accounts blank_book) :=
    .operation (two_accounts_permitted _) trivial (by decide +kernel) (by decide +kernel) (run_of_returned (by decide +kernel))
  have waited : Permitted claims_in_time (at_time 1530000120 L₁) _ :=
    created.elsewhere rfl (by decide +kernel) (by decide +kernel)
  have taken : Permitted claims_in_time L₂ ((take 6).note (at_time 1530000120 L₁) _) :=
    .operation waited (by decide +kernel) (by decide +kernel) (by decide +kernel) (run_of_returned (by decide +kernel))
  have moved : Permitted claims_in_time (at_time 1530000250 L₂) _ :=
    taken.elsewhere rfl (by decide +kernel) (by decide +kernel)
  have again : Permitted claims_in_time L₃ ((take 10).note (at_time 1530000250 L₂) _) :=
    .operation moved (by decide +kernel) (by decide +kernel) (by decide +kernel) (run_of_returned (by decide +kernel))
  exact ⟨L₃,_,_,_,again,rfl,rfl,rfl,withdraw_permissions_respected L₃ _ again 0 [] _ _ rfl⟩

/-- Six are taken a hundred seconds before the first period begins. -/
theorem withdraw_permissions_early : ¬ ∀ L B, Permitted (fun _ _ => True) L B → ∀ id later c earlier,
    B.claims id = later ++ c :: earlier → c.Respects earlier := by
  intro respected
  let L₁ := after_operation permit two_accounts
  let L₂ := after_operation (take 6) L₁
  have created : Permitted (fun _ _ => True) L₁ (permit.note two_accounts blank_book) :=
    .operation (two_accounts_permitted _) trivial (by decide +kernel) (by decide +kernel) (run_of_returned (by decide +kernel))
  have taken : Permitted (fun _ _ => True) L₂ ((take 6).note L₁ (permit.note two_accounts blank_book)) :=
    .operation created trivial (by decide +kernel) (by decide +kernel) (run_of_returned (by decide +kernel))
  have early : L₁.properties.time < 1530000100 := by decide +kernel
  exact absurd (respected L₂ _ taken 0 [] _ _ rfl).started (Nat.not_le.mpr early)

end Decent.Money

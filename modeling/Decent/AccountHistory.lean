import Decent.Authorities
import Decent.Owners

/-!
The account history plugin. After a block has been applied, every operation that was applied
in it is entered, and one object for each account it involves, which points to the object
entered for that account before.
-/
namespace Decent.AccountHistory
open Decent.Authorities (Authority AccountId flat_insert mem_flat_insert)
open Decent.Money (Ledger TransferTarget)

variable {Key : Type} [LinearOrder Key]

/-! ### The operations, as the plugin reads them -/

/-- `operation`, by the accounts, authorities and approvals in it. The `receivers` of a custom
    operation are what `get_messaging_payload` reads from its data, if that does not throw. -/
inductive Operation (Key : Type) [LinearOrder Key]
  | transfer (from_account to_account : AccountId)
  | account_create (registrar : AccountId) (owner active : Authority Key)
  | account_update (account : AccountId) (owner active : Option (Authority Key))
  | asset_create (issuer : AccountId) (monitored : Bool)
  | asset_issue (issuer issue_to_account : AccountId)
  | asset_publish_feed (publisher : AccountId)
  | miner_create (miner_account : AccountId)
  | miner_update (miner_account : AccountId)
  | miner_update_global_parameters
  | proposal_create (fee_paying_account : AccountId) (proposed_ops : List (Operation Key))
  | proposal_update (fee_paying_account : AccountId)
      (active_approvals_to_add active_approvals_to_remove : List AccountId)
      (owner_approvals_to_add owner_approvals_to_remove : List AccountId)
      (key_approvals_to_add key_approvals_to_remove : List Key)
  | proposal_delete (fee_paying_account : AccountId)
  | withdraw_permission_create (withdraw_from_account authorized_account : AccountId)
  | withdraw_permission_update (withdraw_from_account authorized_account : AccountId)
  | withdraw_permission_claim (withdraw_from_account withdraw_to_account : AccountId)
  | withdraw_permission_delete (withdraw_from_account authorized_account : AccountId)
  | vesting_balance_create (creator owner : AccountId)
  | vesting_balance_withdraw (owner : AccountId)
  | custom (payer : AccountId) (required_auths : List AccountId) (id : UInt16) (receivers : Option (List AccountId))
  | assert (fee_paying_account : AccountId)
  | content_submit (author : AccountId) (co_authors : List AccountId)
  | request_to_buy (consumer : AccountId)
  | leave_rating_and_comment (consumer : AccountId)
  | ready_to_publish (seeder : AccountId)
  | proof_of_custody (seeder : AccountId)
  | deliver_keys (seeder : AccountId)
  | subscribe (from_account to_account : AccountId)
  | subscribe_by_author (from_account to_account : AccountId)
  | automatic_renewal_of_subscription (consumer : AccountId)
  | report_stats (consumer : AccountId)
  | set_publishing_manager (from_account : AccountId) (to_accounts : List AccountId)
  | set_publishing_right (from_account : AccountId) (to_accounts : List AccountId)
  | content_cancellation (author : AccountId)
  | asset_fund_pools (from_account : AccountId)
  | asset_reserve (payer : AccountId)
  | asset_claim_fees (issuer : AccountId)
  | update_user_issued_asset (issuer : AccountId) (new_issuer : Option AccountId)
  | update_monitored_asset (issuer : AccountId)
  | ready_to_publish2 (seeder : AccountId)
  | transfer2 (from_account : AccountId) (target : TransferTarget)
  | update_user_issued_asset_advanced (issuer : AccountId)
  | disallow_automatic_renewal_of_subscription (consumer : AccountId)
  | return_escrow_submission (author : AccountId)
  | return_escrow_buying (consumer : AccountId)
  | pay_seeder (author seeder : AccountId)
  | finish_buying (author : AccountId) (co_authors : List AccountId)
  | renewal_of_subscription (consumer : AccountId)

/-- `custom_operation_subtype_messaging` -/
def custom_operation_subtype_messaging : UInt16 := 1

/-- `flat_set::insert`, one after another. -/
def insert_all {α : Type} [LinearOrder α] (items s : List α) : List α := items.foldl (fun s a => flat_insert a s) s

theorem sorted_flat_insert {α : Type} [LinearOrder α] {a : α} {s : List α} (sorted : s.Pairwise (· < ·)) :
    (flat_insert a s).Pairwise (· < ·) := by
  induction s with
  | nil => exact List.pairwise_singleton ..
  | cons b rest ih =>
    obtain ⟨first,sorted'⟩ := List.pairwise_cons.mp sorted
    rw [flat_insert]
    split_ifs with less equal
    · refine List.pairwise_cons.mpr ⟨fun c member => ?_,sorted⟩
      rcases List.mem_cons.mp member with rfl | inside
      · exact less
      · exact less.trans (first c inside)
    · exact sorted
    · refine List.pairwise_cons.mpr ⟨fun c member => ?_,ih sorted'⟩
      rcases mem_flat_insert.mp member with rfl | inside
      · exact lt_of_le_of_ne (not_lt.mp less) (Ne.symm equal)
      · exact first c inside

theorem sorted_insert_all {α : Type} [LinearOrder α] (items : List α) {s : List α} (sorted : s.Pairwise (· < ·)) :
    (insert_all items s).Pairwise (· < ·) := by
  induction items generalizing s with
  | nil => exact sorted
  | cons a rest ih => exact ih (sorted_flat_insert sorted)

@[simp] theorem mem_insert_all {α : Type} [LinearOrder α] {a : α} {items s : List α} :
    a ∈ insert_all items s ↔ a ∈ items ∨ a ∈ s := by
  induction items generalizing s with
  | nil => simp [insert_all]
  | cons b rest ih =>
    show a ∈ insert_all rest (flat_insert b s) ↔ _
    rw [ih,mem_flat_insert,List.mem_cons]
    tauto

/-- The authority that `proposal_update_operation` requires beside the accounts: all its keys. -/
def key_approvals (to_add to_remove : List Key) : Authority Key where
  weight_threshold := UInt32.ofNat (insert_all to_remove (insert_all to_add [])).length
  account_auths := []
  key_auths := (insert_all to_remove (insert_all to_add [])).map fun k => (k,1)
  accounts_ordered := Authorities.none_ordered
  keys_ordered := by
    simpa [List.map_map,Function.comp_def] using sorted_insert_all to_remove (sorted_insert_all to_add .nil)

/-- `fee_payer` of each operation. -/
def fee_payer : Operation Key → AccountId
  | .transfer from_account _ => from_account
  | .account_create registrar _ _ => registrar
  | .account_update account _ _ => account
  | .asset_create issuer monitored => if monitored then 0 else issuer
  | .asset_issue issuer _ => issuer
  | .asset_publish_feed publisher => publisher
  | .miner_create miner_account => miner_account
  | .miner_update miner_account => miner_account
  | .miner_update_global_parameters => 0
  | .proposal_create fee_paying_account _ => fee_paying_account
  | .proposal_update fee_paying_account _ _ _ _ _ _ => fee_paying_account
  | .proposal_delete fee_paying_account => fee_paying_account
  | .withdraw_permission_create withdraw_from_account _ => withdraw_from_account
  | .withdraw_permission_update withdraw_from_account _ => withdraw_from_account
  | .withdraw_permission_claim _ withdraw_to_account => withdraw_to_account
  | .withdraw_permission_delete withdraw_from_account _ => withdraw_from_account
  | .vesting_balance_create creator _ => creator
  | .vesting_balance_withdraw owner => owner
  | .custom payer _ _ _ => payer
  | .assert fee_paying_account => fee_paying_account
  | .content_submit author _ => author
  | .request_to_buy consumer => consumer
  | .leave_rating_and_comment consumer => consumer
  | .ready_to_publish seeder => seeder
  | .proof_of_custody seeder => seeder
  | .deliver_keys seeder => seeder
  | .subscribe from_account _ => from_account
  | .subscribe_by_author from_account _ => from_account
  | .automatic_renewal_of_subscription consumer => consumer
  | .report_stats consumer => consumer
  | .set_publishing_manager from_account _ => from_account
  | .set_publishing_right from_account _ => from_account
  | .content_cancellation author => author
  | .asset_fund_pools from_account => from_account
  | .asset_reserve payer => payer
  | .asset_claim_fees issuer => issuer
  | .update_user_issued_asset issuer _ => issuer
  | .update_monitored_asset issuer => issuer
  | .ready_to_publish2 seeder => seeder
  | .transfer2 from_account _ => from_account
  | .update_user_issued_asset_advanced issuer => issuer
  | .disallow_automatic_renewal_of_subscription consumer => consumer
  | .return_escrow_submission author => author
  | .return_escrow_buying consumer => consumer
  | .pay_seeder author _ => author
  | .finish_buying author _ => author
  | .renewal_of_subscription consumer => consumer

/-- What the operation adds to its fee payer in `operation_get_required_authorities`. -/
def requirements (op : Operation Key) : Authorities.Operation Key where
  fee_payer := fee_payer op
  required_active := match op with
    | .account_create registrar _ _ => [registrar]
    | .account_update account owner _ => if owner.isSome then [] else [account]
    | .set_publishing_manager _ _ => [15]
    | .proposal_update _ to_add to_remove _ _ _ _ => to_add ++ to_remove
    | _ => []
  required_owner := match op with
    | .account_update account owner _ => if owner.isSome then [account] else []
    | .proposal_update _ _ _ to_add to_remove _ _ => to_add ++ to_remove
    | _ => []
  required_other := match op with
    | .proposal_update _ _ _ _ _ to_add to_remove => [key_approvals to_add to_remove]
    | _ => []

/-- The accounts that `operation_get_required_authorities` inserts where the active and the
    owner approvals go to one set. -/
def required_accounts (op : Operation Key) : List AccountId :=
  (requirements op).fee_payer :: ((requirements op).required_active ++ (requirements op).required_owner)

/-- `add_authority_accounts` -/
def authority_accounts (a : Authority Key) : List AccountId := a.account_auths.map Prod.fst

def other_accounts (op : Operation Key) : List AccountId := (requirements op).required_other.flatMap authority_accounts

/-- What `get_impacted_account_visitor` inserts; for a custom operation, without its receivers. -/
def impacted_accounts : Operation Key → List AccountId
  | .transfer _ to_account => [to_account]
  | .transfer2 _ (.account to_account) => [to_account]
  | .account_create registrar owner active => registrar :: (authority_accounts owner ++ authority_accounts active)
  | .account_update account owner active =>
    account :: (owner.toList.flatMap authority_accounts ++ active.toList.flatMap authority_accounts)
  | .update_user_issued_asset _ new_issuer => new_issuer.toList
  | .asset_issue issuer issue_to_account => [issuer,issue_to_account]
  | .asset_fund_pools from_account => [from_account]
  | .asset_reserve payer => [payer]
  | .asset_claim_fees issuer => [issuer]
  | .miner_create miner_account => [miner_account]
  | .miner_update miner_account => [miner_account]
  | .proposal_create _ proposed_ops => proposed_ops.flatMap required_accounts ++ proposed_ops.flatMap other_accounts
  | .withdraw_permission_create _ authorized_account => [authorized_account]
  | .withdraw_permission_update _ authorized_account => [authorized_account]
  | .withdraw_permission_claim withdraw_from_account _ => [withdraw_from_account]
  | .withdraw_permission_delete _ authorized_account => [authorized_account]
  | .vesting_balance_create _ owner => [owner]
  | .custom payer required_auths _ _ => payer :: required_auths
  | .set_publishing_manager from_account to_accounts => from_account :: to_accounts
  | .set_publishing_right from_account to_accounts => from_account :: to_accounts
  | .content_submit author co_authors => author :: co_authors
  | .content_cancellation author => [author]
  | .request_to_buy consumer => [consumer]
  | .leave_rating_and_comment consumer => [consumer]
  | .ready_to_publish seeder => [seeder]
  | .ready_to_publish2 seeder => [seeder]
  | .proof_of_custody seeder => [seeder]
  | .deliver_keys seeder => [seeder]
  | .subscribe from_account to_account => [from_account,to_account]
  | .subscribe_by_author from_account to_account => [from_account,to_account]
  | .automatic_renewal_of_subscription consumer => [consumer]
  | .disallow_automatic_renewal_of_subscription consumer => [consumer]
  | .renewal_of_subscription consumer => [consumer]
  | .return_escrow_submission author => [author]
  | .return_escrow_buying consumer => [consumer]
  | .report_stats consumer => [consumer]
  | .pay_seeder author seeder => [author,seeder]
  | .finish_buying author co_authors => author :: co_authors
  | _ => []

inductive Exc
  | unknown_object
  | not_an_object_id
  | bad_payload
  | not_unique
deriving DecidableEq, Repr

/-- `operation_get_impacted_accounts` -/
def operation_get_impacted_accounts (op : Operation Key) (result : List AccountId) : Except Exc (List AccountId) :=
  match op with
  | .custom _ _ id receivers =>
    if id = custom_operation_subtype_messaging then
      match receivers with
      | some receivers => pure (insert_all receivers (insert_all (impacted_accounts op) result))
      | none => throw .bad_payload
    else pure (insert_all (impacted_accounts op) result)
  | op => pure (insert_all (impacted_accounts op) result)

/-- `operation_history_object`: an operation and the object id in its result, if there is one. -/
structure AppliedOperation (Key : Type) [LinearOrder Key] where
  op : Operation Key
  result : Option Nat

/-- The set of accounts the operation applies to, when the block is applied. -/
def impacted (L : Ledger) (o : AppliedOperation Key) : Except Exc (List AccountId) := do
  let required := insert_all (required_accounts o.op) []
  let impacted ← match o.op with
    | .account_create _ _ _ =>
      match o.result with
      | some id => pure (flat_insert id required)
      | none => throw .not_an_object_id
    | .transfer2 from_account (.account to_account) => pure (insert_all [from_account,to_account] required)
    | .transfer2 _ (.content id) =>
      match L.contents.find? id with
      | some content => pure (insert_all (content.author :: content.co_authors.rows.map Prod.fst) required)
      | none => throw .unknown_object
    | op => operation_get_impacted_accounts op required
  pure (insert_all (other_accounts o.op) impacted)

/-- The accounts an operation has to do with: those that have to approve it, those it names, the
    receivers of a message, the account it created, and those behind a content. -/
def involved (L : Ledger) (o : AppliedOperation Key) : List AccountId :=
  required_accounts o.op ++ other_accounts o.op ++ match o.op with
    | .account_create _ _ _ => o.result.toList
    | .transfer2 from_account (.account to_account) => [from_account,to_account]
    | .transfer2 _ (.content id) =>
      (L.contents.find? id).toList.flatMap fun content => content.author :: content.co_authors.rows.map Prod.fst
    | .custom _ _ id receivers => impacted_accounts o.op ++
      if id = custom_operation_subtype_messaging then receivers.toList.flatten else []
    | op => impacted_accounts op

/-- What the plugin reads to find them is there: the created account, the content, the message. -/
def Readable (L : Ledger) (o : AppliedOperation Key) : Prop :=
  match o.op with
  | .account_create _ _ _ => o.result.isSome
  | .transfer2 _ (.content id) => (L.contents.find? id).isSome
  | .custom _ _ id receivers => id = custom_operation_subtype_messaging → receivers.isSome
  | _ => True

theorem impacted_ok {L : Ledger} {o : AppliedOperation Key} (readable : Readable L o) :
    ∃ accounts, impacted L o = .ok accounts ∧ accounts.Pairwise (· < ·) ∧ ∀ a, a ∈ accounts ↔ a ∈ involved L o := by
  have plain (items : List AccountId) (same : ∀ a, a ∈ involved L o ↔
      a ∈ required_accounts o.op ∨ a ∈ other_accounts o.op ∨ a ∈ items)
      (found : impacted L o =
        .ok (insert_all (other_accounts o.op) (insert_all items (insert_all (required_accounts o.op) [])))) :
      ∃ accounts, impacted L o = .ok accounts ∧ accounts.Pairwise (· < ·) ∧ ∀ a, a ∈ accounts ↔ a ∈ involved L o := by
    refine ⟨_,found,sorted_insert_all _ (sorted_insert_all _ (sorted_insert_all _ .nil)),fun a => ?_⟩
    rw [same]
    simp only [mem_insert_all,List.not_mem_nil,or_false]
    tauto
  obtain ⟨op,result⟩ := o
  cases op
  case account_create registrar owner active =>
    obtain ⟨id,rfl⟩ := Option.isSome_iff_exists.mp readable
    exact plain [id] (fun a => by simp [involved]) rfl
  case transfer2 from_account target =>
    cases target with
    | account to_account => exact plain [from_account,to_account] (fun a => by simp [involved]) rfl
    | content id =>
      obtain ⟨content,found⟩ := Option.isSome_iff_exists.mp readable
      refine plain (content.author :: content.co_authors.rows.map Prod.fst)
        (fun a => by simp [involved,found]) ?_
      simp [impacted,found,pure,Except.pure,bind,Except.bind]
  case custom payer required_auths id receivers =>
    by_cases messaging : id = custom_operation_subtype_messaging
    · obtain ⟨receivers,rfl⟩ := Option.isSome_iff_exists.mp (readable messaging)
      refine plain (payer :: required_auths ++ receivers) (fun a => by simp [involved,impacted_accounts,messaging]) ?_
      simp only [impacted,operation_get_impacted_accounts,messaging,if_true,impacted_accounts,insert_all,
        List.foldl_append]
      rfl
    · refine plain (payer :: required_auths) (fun a => by simp [involved,impacted_accounts,messaging]) ?_
      simp only [impacted,operation_get_impacted_accounts,messaging,if_false,impacted_accounts]
      rfl
  all_goals exact plain _ (fun a => by simp only [involved,List.mem_append,or_assoc]) rfl

theorem impacted_readable {L : Ledger} {o : AppliedOperation Key} {accounts : List AccountId}
    (found : impacted L o = .ok accounts) : Readable L o := by
  obtain ⟨op,result⟩ := o
  cases op
  case account_create registrar owner active =>
    cases result with
    | none => cases found
    | some id => rfl
  case transfer2 from_account target =>
    cases target with
    | account to_account => trivial
    | content id =>
      cases there : L.contents.find? id with
      | none => simp [impacted,there,bind,Except.bind,throw,throwThe,MonadExceptOf.throw] at found
      | some content => exact congrArg Option.isSome there
  case custom payer required_auths id receivers =>
    rintro rfl
    cases receivers with
    | none => cases found
    | some receivers => rfl
  all_goals trivial

/-! ### The objects -/

/-- The part of `account_statistics_object` that the plugin keeps. -/
structure Statistics where
  most_recent_op : Nat
  total_ops : UInt32

/-- `account_transaction_history_object` -/
structure AccountTransactionHistory where
  account : AccountId
  operation_id : Nat
  sequence : UInt32
  next : Nat
deriving DecidableEq

/-- The objects of the plugin. The statistics of an account are entered with it. -/
structure Store (Key : Type) [LinearOrder Key] where
  operations : Index (AppliedOperation Key)
  histories : Index AccountTransactionHistory
  statistics : Table AccountId Statistics

def Store.stats (s : Store Key) (a : AccountId) : Statistics := (s.statistics.find? a).getD ⟨0,0⟩

/-- `by_seq` and `by_op` are unique. -/
def unique (histories : Index AccountTransactionHistory) (e : AccountTransactionHistory) : Bool :=
  histories.table.rows.all fun row =>
    !(row.2.account = e.account && (row.2.sequence = e.sequence || row.2.operation_id = e.operation_id))

/-- The object for an operation of an account, in front of those it has. -/
def Store.ahead (s : Store Key) (operation_id : Nat) (account_id : AccountId) : AccountTransactionHistory :=
  ⟨account_id,operation_id,(s.stats account_id).total_ops + 1,(s.stats account_id).most_recent_op⟩

/-- Enter it, and have the statistics of the account point to it. -/
def Store.enter (s : Store Key) (ath : AccountTransactionHistory) : Store Key :=
  { s with
    histories := s.histories.create ath
    statistics := s.statistics.put ath.account ⟨s.histories.next,ath.sequence⟩ }

/-- Link the operation into the history of an account. -/
def link (L : Ledger) (operation_id : Nat) (s : Store Key) (account_id : AccountId) : Except Exc (Store Key) :=
  if L.known account_id then
    if unique s.histories (s.ahead operation_id account_id) then pure (s.enter (s.ahead operation_id account_id))
    else throw .not_unique
  else throw .unknown_object

theorem link_iff {L : Ledger} {operation_id : Nat} {s s' : Store Key} {a : AccountId} :
    link L operation_id s a = .ok s' ↔ L.known a ∧ unique s.histories (s.ahead operation_id a) = true ∧
      s' = s.enter (s.ahead operation_id a) := by
  rw [link]
  split
  case isTrue known =>
    split
    case isTrue new => simp [known,new,pure,Except.pure,eq_comm]
    case isFalse taken => simp [taken,throw,throwThe,MonadExceptOf.throw]
  case isFalse unknown => simp [unknown,throw,throwThe,MonadExceptOf.throw]

@[simp] theorem stats_enter (s : Store Key) (ath : AccountTransactionHistory) (a : AccountId) :
    (s.enter ath).stats a = if a = ath.account then ⟨s.histories.next,ath.sequence⟩ else s.stats a := by
  rw [Store.stats,Store.enter,Table.find?_put]
  split <;> rfl

/-- `_tracked_accounts`: none in particular stands for all. -/
structure Tracked where
  accounts : List AccountId
  sorted : accounts.Pairwise (· < ·)

def Tracked.tracks (tracked : Tracked) (a : AccountId) : Prop := tracked.accounts = [] ∨ a ∈ tracked.accounts

instance (tracked : Tracked) (a : AccountId) : Decidable (tracked.tracks a) := inferInstanceAs (Decidable (_ ∨ _))

/-- The accounts that the loop goes through. -/
def Tracked.among (tracked : Tracked) (impacted : List AccountId) : List AccountId :=
  if tracked.accounts.isEmpty then impacted else tracked.accounts.filter (· ∈ impacted)

/-- One round of `update_account_histories`. The object of a failed operation is removed again. -/
def update_account_history (tracked : Tracked) (L : Ledger) (s : Store Key) (o_op : Option (AppliedOperation Key)) :
    Except Exc (Store Key) :=
  match o_op with
  | none => pure { s with operations := s.operations.reserve (s.operations.next + 1) }
  | some op => do
    let accounts ← impacted L op
    (tracked.among accounts).foldlM (link L s.operations.next) { s with operations := s.operations.create op }

/-- A block as it has been applied: the ledger it leaves, and its operations. -/
structure AppliedBlock (Key : Type) [LinearOrder Key] where
  ledger : Ledger
  applied_operations : List (Option (AppliedOperation Key))

def update_account_histories (tracked : Tracked) (b : AppliedBlock Key) (s : Store Key) : Except Exc (Store Key) :=
  b.applied_operations.foldlM (update_account_history tracked b.ledger) s

/-! ### The chain of an account -/

/-- From `p` on, the objects of `a` refer to these operations, and count down to one. -/
def Linked (histories : Index AccountTransactionHistory) (a : AccountId) : Nat → List Nat → Prop
  | _,[] => True
  | p,operation_id :: rest => ∃ e, histories.find? p = some e ∧ e.account = a ∧ e.operation_id = operation_id ∧
      e.sequence.toNat = rest.length + 1 ∧ Linked histories a e.next rest

theorem linked_create {histories : Index AccountTransactionHistory} {a : AccountId} (e : AccountTransactionHistory)
    {p : Nat} {ops : List Nat} (linked : Linked histories a p ops) : Linked (histories.create e) a p ops := by
  induction ops generalizing p with
  | nil => trivial
  | cons operation_id rest ih =>
    obtain ⟨x,found,account,refers,sequence,linked'⟩ := linked
    refine ⟨x,?_,account,refers,sequence,ih linked'⟩
    rw [Index.find?_create,if_neg (Nat.ne_of_lt (histories.below p x found))]
    exact found

/-- The objects of `a` are those linked for these operations, and no more. -/
structure Held (s : Store Key) (a : AccountId) (ops : List Nat) : Prop where
  linked : Linked s.histories a (s.stats a).most_recent_op ops
  counted : (s.stats a).total_ops.toNat = ops.length
  entered : ∀ {p e}, s.histories.find? p = some e → e.account = a →
    e.operation_id ∈ ops ∧ e.sequence.toNat ≤ ops.length

theorem unique_iff {histories : Index AccountTransactionHistory} {e : AccountTransactionHistory} :
    unique histories e = true ↔ ∀ {p x}, histories.find? p = some x → x.account = e.account →
      x.sequence ≠ e.sequence ∧ x.operation_id ≠ e.operation_id := by
  rw [unique,List.all_eq_true]
  constructor
  · intro all p x found account
    simpa [account] using all _ (Table.mem_of_find? found)
  · rintro all ⟨p,x⟩ member
    have apart := all (Table.find?_of_mem member)
    by_cases account : x.account = e.account
    · simpa [account] using apart account
    · simp [account]

theorem next_sequence {total : UInt32} {n : Nat} (counted : total.toNat = n) (room : n + 1 < 2^32) :
    (total + 1).toNat = n + 1 := by
  rw [UInt32.toNat_add,counted]
  exact Nat.mod_eq_of_lt room

section
variable {s s' : Store Key} {L : Ledger} {operation_id : Nat} {a : AccountId} {ops : AccountId → List Nat}

/-- An operation that has not been linked yet finds room in the indices. -/
theorem unique_ahead (held : Held s a (ops a)) (fresh : operation_id ∉ ops a) (room : (ops a).length + 1 < 2^32) :
    unique s.histories (s.ahead operation_id a) = true := by
  refine unique_iff.mpr fun found account => ?_
  obtain ⟨member,before⟩ := held.entered found account
  have sequence := next_sequence held.counted room
  refine ⟨fun same => ?_,fun same => fresh ?_⟩
  · rw [same] at before
    exact absurd (sequence.symm.trans_le before) (by omega)
  · exact (show _ = operation_id from same) ▸ member

theorem link_ok (held : Held s a (ops a)) (fresh : operation_id ∉ ops a) (room : (ops a).length + 1 < 2^32) :
    (∃ s', link L operation_id s a = .ok s') ↔ L.known a := by
  simp only [link_iff,unique_ahead held fresh room,true_and,exists_and_left,exists_eq,and_true]

theorem link_held (held : ∀ b, Held s b (ops b)) (room : (ops a).length + 1 < 2^32)
    (ran : link L operation_id s a = .ok s') :
    s'.operations = s.operations ∧ ∀ b, Held s' b (if b = a then operation_id :: ops b else ops b) := by
  obtain ⟨-,-,rfl⟩ := link_iff.mp ran
  refine ⟨rfl,fun b => ?_⟩
  have sequence := next_sequence (held a).counted room
  by_cases here : b = a
  · subst here
    have own : b = (s.ahead operation_id b).account := rfl
    rw [if_pos rfl]
    refine ⟨?_,?_,?_⟩
    · rw [stats_enter,if_pos own]
      exact ⟨_,by rw [Store.enter,Index.find?_create,if_pos rfl],rfl,rfl,sequence,linked_create _ (held b).linked⟩
    · rw [stats_enter,if_pos own]
      exact sequence
    · intro p e found account
      rw [Store.enter,Index.find?_create] at found
      split at found
      case isTrue last =>
        cases found
        exact ⟨List.mem_cons_self,le_of_eq sequence⟩
      case isFalse earlier =>
        obtain ⟨member,before⟩ := (held b).entered found account
        exact ⟨List.mem_cons_of_mem _ member,Nat.le_succ_of_le before⟩
  · have other : b ≠ (s.ahead operation_id a).account := here
    rw [if_neg here]
    refine ⟨?_,?_,?_⟩
    · rw [stats_enter,if_neg other]
      exact linked_create _ (held b).linked
    · rw [stats_enter,if_neg other]
      exact (held b).counted
    · intro p e found account
      rw [Store.enter,Index.find?_create] at found
      split at found
      case isTrue last =>
        cases found
        exact absurd account.symm here
      case isFalse earlier => exact (held b).entered found account

/-- The loop over the accounts. -/
theorem link_all (accounts : List AccountId) (distinct : accounts.Nodup) (held : ∀ b, Held s b (ops b))
    (fresh : ∀ a ∈ accounts, operation_id ∉ ops a) (room : ∀ a ∈ accounts, (ops a).length + 1 < 2^32) :
    ((∃ s', accounts.foldlM (link L operation_id) s = .ok s') ↔ ∀ a ∈ accounts, L.known a) ∧
    ∀ s', accounts.foldlM (link L operation_id) s = .ok s' →
      s'.operations = s.operations ∧ ∀ b, Held s' b (if b ∈ accounts then operation_id :: ops b else ops b) := by
  induction accounts generalizing s ops with
  | nil =>
    refine ⟨by simp [pure,Except.pure],?_⟩
    rintro _ ⟨⟩
    exact ⟨rfl,fun b => by simpa using held b⟩
  | cons a rest ih =>
    obtain ⟨apart,distinct'⟩ := List.nodup_cons.mp distinct
    have linked := link_ok (L := L) (held a) (fresh a List.mem_cons_self) (room a List.mem_cons_self)
    simp only [List.foldlM_cons,List.forall_mem_cons]
    cases ran : link L operation_id s a with
    | error e =>
      have unknown : ¬ L.known a := fun known => by
        obtain ⟨s',ran'⟩ := linked.mpr known
        exact absurd (ran.symm.trans ran') (by simp)
      simp [unknown,bind,Except.bind]
    | ok s₁ =>
      obtain ⟨operations,held'⟩ := link_held held (room a List.mem_cons_self) ran
      have later {b : AccountId} (member : b ∈ rest) : b ≠ a := fun same => apart (same ▸ member)
      obtain ⟨returns,kept⟩ := ih distinct' held'
        (fun b member => by rw [if_neg (later member)]; exact fresh b (List.mem_cons_of_mem _ member))
        (fun b member => by rw [if_neg (later member)]; exact room b (List.mem_cons_of_mem _ member))
      refine ⟨?_,fun s' ran' => ?_⟩
      · simpa [linked.mp ⟨s₁,ran⟩,bind,Except.bind] using returns
      · obtain ⟨same,held''⟩ := kept s' ran'
        refine ⟨same.trans operations,fun b => ?_⟩
        have here := held'' b
        by_cases first : b = a
        · subst first
          simpa [apart] using here
        · simpa [first] using here

end

/-! ### Operations and blocks -/

/-- The operations that were applied, under their ids, and whom they involve; the last one first. -/
abbrev Observed := List (Nat × List AccountId)

/-- The operations of a block come after those observed before it. -/
def observed (L : Ledger) : Nat → List (Option (AppliedOperation Key)) → Observed → Observed
  | _,[],seen => seen
  | id,none :: rest,seen => observed L (id + 1) rest seen
  | id,some op :: rest,seen => observed L (id + 1) rest ((id,involved L op) :: seen)

/-- The operations that involve a tracked account. -/
def operations_of (tracked : Tracked) (seen : Observed) (a : AccountId) : List Nat :=
  if tracked.tracks a then (seen.filter fun op => a ∈ op.2).map Prod.fst else []

theorem operations_of_cons {tracked : Tracked} {id : Nat} {accounts : List AccountId} {seen : Observed} {a : AccountId} :
    operations_of tracked ((id,accounts) :: seen) a =
      if tracked.tracks a ∧ a ∈ accounts then id :: operations_of tracked seen a else operations_of tracked seen a := by
  by_cases tracks : tracked.tracks a <;> by_cases member : a ∈ accounts <;> simp [operations_of,tracks,member]

theorem mem_operations_of {tracked : Tracked} {seen : Observed} {a : AccountId} {id : Nat}
    (member : id ∈ operations_of tracked seen a) : ∃ op ∈ seen, op.1 = id := by
  rw [operations_of] at member
  split at member
  case isTrue =>
    obtain ⟨op,inside,rfl⟩ := List.mem_map.mp member
    exact ⟨op,(List.mem_filter.mp inside).1,rfl⟩
  case isFalse => cases member

theorem operations_of_grow (tracked : Tracked) (L : Ledger) (a : AccountId) :
    ∀ (hist : List (Option (AppliedOperation Key))) (id : Nat) (seen : Observed),
      (operations_of tracked seen a).length ≤ (operations_of tracked (observed L id hist seen) a).length
  | [],_,_ => le_refl _
  | none :: rest,id,seen => operations_of_grow tracked L a rest (id + 1) seen
  | some op :: rest,id,seen => by
    refine le_trans ?_ (operations_of_grow tracked L a rest (id + 1) _)
    rw [operations_of_cons]
    split
    · exact Nat.le_succ _
    · exact le_refl _

theorem Tracked.mem_among {tracked : Tracked} {impacted : List AccountId} {a : AccountId} :
    a ∈ tracked.among impacted ↔ tracked.tracks a ∧ a ∈ impacted := by
  rw [among,tracks]
  by_cases every : tracked.accounts = []
  · simp [every]
  · simp [every]

theorem Tracked.distinct_among (tracked : Tracked) {impacted : List AccountId} (sorted : impacted.Pairwise (· < ·)) :
    (tracked.among impacted).Nodup := by
  rw [among]
  split
  · exact sorted.imp ne_of_lt
  · exact (tracked.sorted.imp ne_of_lt).filter _

/-- What the plugin has entered is what it has observed. -/
structure Sound (tracked : Tracked) (s : Store Key) (seen : Observed) : Prop where
  held : ∀ a, Held s a (operations_of tracked seen a)
  before : ∀ op ∈ seen, op.1 < s.operations.next
  falling : seen.Pairwise fun later earlier => earlier.1 < later.1

/-- What the plugin reads is there, and so are the tracked accounts it finds. -/
def Named (tracked : Tracked) (L : Ledger) (op : AppliedOperation Key) : Prop :=
  Readable L op ∧ ∀ a ∈ involved L op, tracked.tracks a → L.known a

section
variable {tracked : Tracked} {L : Ledger} {s s' : Store Key} {seen : Observed}

theorem Sound.reserved (sound : Sound tracked s seen) (n : Nat) :
    Sound tracked { s with operations := s.operations.reserve n } seen :=
  ⟨fun a => ⟨(sound.held a).linked,(sound.held a).counted,(sound.held a).entered⟩,
    fun op member => lt_of_lt_of_le (sound.before op member) (le_max_left _ _),sound.falling⟩

/-- One operation, with room for it in every chain. -/
theorem observe_operation {op : AppliedOperation Key} (sound : Sound tracked s seen)
    (room : ∀ a, (operations_of tracked ((s.operations.next,involved L op) :: seen) a).length < 2^32) :
    ((∃ s', update_account_history tracked L s (some op) = .ok s') ↔ Named tracked L op) ∧
    ∀ s', update_account_history tracked L s (some op) = .ok s' →
      Sound tracked s' ((s.operations.next,involved L op) :: seen) ∧ s'.operations.next = s.operations.next + 1 := by
  cases found : impacted L op with
  | error e =>
    have unreadable : ¬ Readable L op := fun readable => by
      obtain ⟨accounts,there,-⟩ := impacted_ok readable
      exact absurd (found.symm.trans there) (by simp)
    simp [update_account_history,found,Named,unreadable,bind,Except.bind]
  | ok accounts =>
    have readable := impacted_readable found
    obtain ⟨_,there,sorted,same⟩ := impacted_ok readable
    cases found.symm.trans there
    let entered : Store Key := { s with operations := s.operations.create op }
    have held (a : AccountId) : Held entered a (operations_of tracked seen a) :=
      ⟨(sound.held a).linked,(sound.held a).counted,(sound.held a).entered⟩
    have fresh (a : AccountId) : s.operations.next ∉ operations_of tracked seen a := fun member => by
      obtain ⟨earlier,inside,here⟩ := mem_operations_of member
      exact absurd (sound.before earlier inside) (by omega)
    have all (a : AccountId) : a ∈ tracked.among accounts ↔ tracked.tracks a ∧ a ∈ involved L op := by
      rw [Tracked.mem_among,same]
    obtain ⟨returns,kept⟩ := link_all (L := L) (tracked.among accounts) (tracked.distinct_among sorted) held
      (fun a _ => fresh a) fun a member => by
        have short := room a
        rwa [operations_of_cons,if_pos ((all a).mp member)] at short
    refine ⟨?_,fun s' ran => ?_⟩
    · simp only [update_account_history,found,bind,Except.bind]
      refine returns.trans ⟨fun known => ⟨readable,fun a member tracks => known a ((all a).mpr ⟨tracks,member⟩)⟩,
        fun named a member => named.2 a ((all a).mp member).2 ((all a).mp member).1⟩
    · simp only [update_account_history,found,bind,Except.bind] at ran
      obtain ⟨operations,held'⟩ := kept s' ran
      have next : s'.operations.next = s.operations.next + 1 := by rw [operations]; rfl
      refine ⟨⟨fun a => ?_,fun earlier member => ?_,?_⟩,next⟩
      · have here := held' a
        rw [operations_of_cons]
        simpa only [all] using here
      · rw [next]
        rcases List.mem_cons.mp member with rfl | inside
        · exact Nat.lt_succ_self _
        · exact Nat.lt_succ_of_lt (sound.before earlier inside)
      · exact List.pairwise_cons.mpr ⟨sound.before,sound.falling⟩

/-- The operations of a block, one after another. -/
theorem observe_operations (hist : List (Option (AppliedOperation Key))) (sound : Sound tracked s seen)
    (room : ∀ a, (operations_of tracked (observed L s.operations.next hist seen) a).length < 2^32) :
    ((∃ s', hist.foldlM (update_account_history tracked L) s = .ok s') ↔ ∀ op, some op ∈ hist → Named tracked L op) ∧
    ∀ s', hist.foldlM (update_account_history tracked L) s = .ok s' →
      Sound tracked s' (observed L s.operations.next hist seen) := by
  induction hist generalizing s seen with
  | nil =>
    refine ⟨by simp [pure,Except.pure],?_⟩
    rintro _ ⟨⟩
    exact sound
  | cons o_op rest ih =>
    cases o_op with
    | none =>
      have next : (s.operations.reserve (s.operations.next + 1)).next = s.operations.next + 1 := by
        simp [Index.reserve]
      have later := ih (sound.reserved (s.operations.next + 1)) (by rw [next]; exact room)
      rw [next] at later
      simpa [List.foldlM_cons,update_account_history,observed] using later
    | some op =>
      have roomy (a : AccountId) := lt_of_le_of_lt (operations_of_grow tracked L a rest _ _) (room a)
      obtain ⟨returns,kept⟩ : ((∃ s', update_account_history tracked L s (some op) = .ok s') ↔ Named tracked L op) ∧ _ :=
        observe_operation sound roomy
      simp only [List.foldlM_cons]
      cases ran : update_account_history tracked L s (some op) with
      | error e =>
        have unnamed : ¬ Named tracked L op := fun named => by
          obtain ⟨s',ran'⟩ := returns.mpr named
          exact absurd (ran.symm.trans ran') (by simp)
        exact ⟨⟨fun ⟨s',ran'⟩ => (nomatch ran'),fun named => absurd (named op List.mem_cons_self) unnamed⟩,
          fun s' ran' => (nomatch ran')⟩
      | ok s₁ =>
        obtain ⟨sound',next⟩ := kept s₁ ran
        obtain ⟨returns',kept'⟩ := ih sound' (by rw [next]; exact room)
        rw [next] at kept'
        refine ⟨returns'.trans ?_,kept'⟩
        simp [returns.mp ⟨s₁,ran⟩]

end

/-! ### Runs -/

/-- Follow `next` from `p` through so many objects. -/
def walk (histories : Index AccountTransactionHistory) : Nat → Nat → Option (List AccountTransactionHistory)
  | 0,_ => some []
  | n + 1,p => do
    let e ← histories.find? p
    let rest ← walk histories n e.next
    some (e :: rest)

theorem walk_linked {histories : Index AccountTransactionHistory} {a : AccountId} {p : Nat} {ops : List Nat}
    (linked : Linked histories a p ops) : ∃ visited, walk histories ops.length p = some visited ∧
      (∀ e ∈ visited, e.account = a) ∧ visited.map (·.sequence.toNat) = ((List.range ops.length).map (· + 1)).reverse ∧
      visited.map (·.operation_id) = ops := by
  induction ops generalizing p with
  | nil => exact ⟨[],rfl,by simp⟩
  | cons operation_id rest ih =>
    obtain ⟨e,found,account,refers,sequence,linked'⟩ := linked
    obtain ⟨visited,walked,owned,sequences,operations⟩ := ih linked'
    refine ⟨e :: visited,by simp [walk,found,walked],List.forall_mem_cons.mpr ⟨account,owned⟩,?_,?_⟩
    · simp [sequence,sequences,List.range_succ]
    · rw [List.map_cons,refers,operations]

/-- The history of an account: `total_ops` objects of it, numbered down to one, and one of them
    for each operation that involves the account. -/
def Complete (s : Store Key) (seen : Observed) (a : AccountId) : Prop :=
  ∃ visited, walk s.histories (s.stats a).total_ops.toNat (s.stats a).most_recent_op = some visited ∧
    (∀ e ∈ visited, e.account = a) ∧
    visited.map (·.sequence.toNat) = ((List.range (s.stats a).total_ops.toNat).map (· + 1)).reverse ∧
    (∀ e ∈ visited, ∃ op ∈ seen, op.1 = e.operation_id ∧ a ∈ op.2) ∧
    ∀ op ∈ seen, a ∈ op.2 → (visited.filter fun e => e.operation_id = op.1).length = 1

theorem Sound.complete {tracked : Tracked} {s : Store Key} {seen : Observed} (sound : Sound tracked s seen)
    {a : AccountId} (tracks : tracked.tracks a) : Complete s seen a := by
  obtain ⟨linked,counted,-⟩ := sound.held a
  obtain ⟨visited,walked,owned,sequences,operations⟩ := walk_linked linked
  rw [operations_of,if_pos tracks] at operations counted walked sequences
  refine ⟨visited,by rwa [counted],owned,by rwa [counted],fun e member => ?_,fun op member involves => ?_⟩
  · have refers : e.operation_id ∈ visited.map (·.operation_id) := List.mem_map_of_mem member
    rw [operations] at refers
    obtain ⟨op,inside,same⟩ := List.mem_map.mp refers
    exact ⟨op,(List.mem_filter.mp inside).1,same,by simpa using (List.mem_filter.mp inside).2⟩
  · have distinct : ((seen.filter fun op => a ∈ op.2).map Prod.fst).Nodup := by
      refine List.pairwise_map.mpr ((sound.falling.filter _).imp fun earlier => (ne_of_lt earlier).symm)
    have once : (visited.map (·.operation_id)).count op.1 = 1 := by
      rw [operations]
      exact List.count_eq_one_of_mem distinct (List.mem_map_of_mem (List.mem_filter.mpr ⟨member,by simpa using involves⟩))
    rw [← List.countP_eq_length_filter,← once,List.count,List.countP_map]
    exact List.countP_congr fun e _ => by simp

/-- The plugin and what it has observed. -/
structure Node (Key : Type) [LinearOrder Key] where
  store : Store Key
  seen : Observed

/-- Room for one block more: no history gets to 2^32 operations. -/
def Roomy (tracked : Tracked) (b : AppliedBlock Key) (n : Node Key) : Prop :=
  ∀ a, (operations_of tracked (observed b.ledger n.store.operations.next b.applied_operations n.seen) a).length < 2^32

/-- A run: the states after the blocks that stand, the last one first. Blocks are applied and popped. -/
inductive Run (tracked : Tracked) : List (Node Key) → Prop
  | start : Run tracked [⟨⟨.empty,.empty,.empty⟩,[]⟩]
  | applied {n : Node Key} {below : List (Node Key)} {b : AppliedBlock Key} {s : Store Key}
      (run : Run tracked (n :: below)) (roomy : Roomy tracked b n) (ran : update_account_histories tracked b n.store = .ok s) :
      Run tracked (⟨s,observed b.ledger n.store.operations.next b.applied_operations n.seen⟩ :: n :: below)
  | popped {n m : Node Key} {below : List (Node Key)} (run : Run tracked (n :: m :: below)) : Run tracked (m :: below)

theorem Run.sound {tracked : Tracked} {nodes : List (Node Key)} (run : Run tracked nodes) :
    ∀ n ∈ nodes, Sound tracked n.store n.seen := by
  induction run with
  | start =>
    refine List.forall_mem_singleton.mpr ⟨fun a => ?_,nofun,.nil⟩
    rw [operations_of,List.filter_nil,List.map_nil,ite_self]
    exact ⟨trivial,rfl,fun found => nomatch found⟩
  | applied run roomy ran ih =>
    obtain ⟨-,kept⟩ := observe_operations _ (ih _ List.mem_cons_self) roomy
    exact List.forall_mem_cons.mpr ⟨kept _ ran,ih⟩
  | popped run ih => exact (List.forall_mem_cons.mp ih).2

/-- In every run the history of every tracked account is complete; and a block is observed without an exception
    exactly when the contents, messages and created accounts that the plugin reads are there, and the tracked
    accounts it finds. -/
theorem history_complete (tracked : Tracked) (n : Node Key) (below : List (Node Key)) (run : Run tracked (n :: below)) :
    (∀ a, tracked.tracks a → Complete n.store n.seen a) ∧
    ∀ b, Roomy tracked b n → ((∃ s, update_account_histories tracked b n.store = .ok s) ↔
      ∀ op, some op ∈ b.applied_operations → Named tracked b.ledger op) :=
  have sound := run.sound n List.mem_cons_self
  ⟨fun _ tracks => sound.complete tracks,fun b roomy => (observe_operations b.applied_operations sound roomy).1⟩

/-- No accounts are given, so all are tracked. -/
def track_all : Tracked := ⟨[],.nil⟩

/-- A block with one transfer from account 4. -/
def sending_block (L : Ledger) (to_account : AccountId) : AppliedBlock Nat :=
  ⟨L,[some ⟨.transfer2 4 (.account to_account),none⟩]⟩

theorem roomy_sending_block (L : Ledger) (to_account : AccountId) :
    Roomy track_all (sending_block L to_account) ⟨⟨.empty,.empty,.empty⟩,[]⟩ := by
  intro a
  show (operations_of track_all [(0,involved L ⟨.transfer2 4 (.account to_account),none⟩)] a).length < 2^32
  rw [operations_of_cons]
  have nothing : operations_of track_all [] a = [] := by simp [operations_of]
  split <;> simp [nothing]

theorem observe_sending_block (L : Ledger) (to_account : AccountId) :
    (∃ s, update_account_histories track_all (sending_block L to_account) ⟨.empty,.empty,.empty⟩ = .ok s) ↔
      L.known 4 ∧ L.known to_account := by
  refine (observe_operations _ (Run.start.sound _ List.mem_cons_self) (roomy_sending_block L to_account)).1.trans ?_
  have tracks (a : AccountId) : track_all.tracks a := .inl rfl
  simp [sending_block,Named,Readable,involved,required_accounts,other_accounts,requirements,fee_payer,tracks]

/-- Account 4 sends to account 5, which is there. -/
theorem history_complete_sent : ∃ n : Node Nat, n.seen.length = 1 ∧
    (∀ a, Complete n.store n.seen a) ∧ ∀ b, Roomy track_all b n →
      ((∃ s, update_account_histories track_all b n.store = .ok s) ↔
        ∀ op, some op ∈ b.applied_operations → Named track_all b.ledger op) := by
  let L := Money.after_actions [Money.new_account Money.default_account.options,
    Money.new_account Money.default_account.options]
  obtain ⟨s,ran⟩ := (observe_sending_block L 5).mpr ⟨by decide +kernel,by decide +kernel⟩
  obtain ⟨complete,returns⟩ := history_complete track_all _ _ (.applied .start (roomy_sending_block L 5) ran)
  exact ⟨_,rfl,fun a => complete a (.inl rfl),returns⟩

/-- Account 4 sends to account 9, which no one has created: the ledger enters the balance, the plugin throws. -/
theorem history_throws : ∃ L L', Money.Reached Money.small_genesis Money.source_step L ∧
    EStateM.run (Money.apply_operation Money.free_env (Money.send_on 9)) L = .ok () L' ∧
    ¬ ∃ s, update_account_histories track_all (sending_block L' 9) ⟨.empty,.empty,.empty⟩ = .ok s := by
  let L := Money.after_actions [Money.new_account Money.default_account.options,Money.grant 4 ⟨10,Money.core⟩]
  have sent : EStateM.run (Money.apply_operation Money.free_env (Money.send_on 9)) L =
      .ok () (Throwing.endState (EStateM.run (Money.apply_operation Money.free_env (Money.send_on 9)) L)) :=
    Throwing.run_of_returned (by decide +kernel)
  refine ⟨L,_,Money.reached_after_actions ⟨trivial,trivial⟩ (by decide +kernel),sent,fun observed => ?_⟩
  have known := ((observe_sending_block _ 9).mp observed).2
  rw [Ledger.known,(Money.credited_holds rfl sent).1] at known
  exact absurd known (by decide +kernel)

end Decent.AccountHistory

import Decent.Settings
import Decent.Views

/-!
Who owns what there is. A balance is entered for whoever is credited first, so the accounts that
are credited have to be there already: some because an evaluator looks them up, others because
what names them was entered when they were.
-/
namespace Decent.Money
open Throwing

/-! ### Accounts that are there -/

def Ledger.known (L : Ledger) (p : AccountId) : Prop := (L.accounts.find? p).isSome

instance (L : Ledger) (p : AccountId) : Decidable (L.known p) := inferInstanceAs (Decidable (_ = true))

/-- All that names an account to be credited names one that is there. -/
structure Owned (L : Ledger) : Prop where
  balances : ∀ {owner a b}, L.balances.find? (owner,a) = some b → L.known owner
  vestings : ∀ {id v}, L.vestings.find? id = some v → L.known v.owner
  contents : ∀ {id c}, L.contents.find? id = some c → ∀ p ∈ c.authors, L.known p
  buyings : ∀ {id b}, L.buyings.find? id = some b → L.known b.consumer
  subscriptions : ∀ s ∈ L.subscriptions.order, L.known s.from_account ∧ L.known s.to_account
  miners : ∀ {id m}, L.miners.find? id = some m → L.known m.miner_account

/-- And these accounts are there as well. -/
structure Hosts (S : AccountId → Prop) (L : Ledger) : Prop extends Owned L where
  there : ∀ p, S p → L.known p

/-- What credits no one but these. -/
def Hosting (S : AccountId → Prop) (L L' : Ledger) : Prop := Hosts S L → Hosts S L'

/-- Accounts stay, and so does their being owners. -/
def Owning (L L' : Ledger) : Prop := Owned L → Owned L' ∧ ∀ p, L.known p → L'.known p

instance : Composes Owning where
  refl _ owned := ⟨owned,fun _ here => here⟩
  trans first second owned :=
    have ⟨owned',kept⟩ := first owned
    have ⟨owned'',kept'⟩ := second owned'
    ⟨owned'',fun p => kept' p ∘ kept p⟩

section
variable {S : AccountId → Prop}

instance : Composes (Hosting S) where
  refl _ hosts := hosts
  trans first second hosts := second (first hosts)

theorem Hosting.of_eq {L L' : Ledger} (accounts : L'.accounts = L.accounts) (balances : L'.balances = L.balances)
    (vestings : L'.vestings = L.vestings) (contents : L'.contents = L.contents) (buyings : L'.buyings = L.buyings)
    (subscriptions : L'.subscriptions = L.subscriptions) (miners : L'.miners = L.miners) : Hosting S L L' := by
  rintro ⟨⟨_,_,_,_,_,_⟩,_⟩
  constructor
  · constructor <;> simp only [Ledger.known,accounts,balances,vestings,contents,buyings,subscriptions,miners] <;> assumption
  · simp only [Ledger.known,accounts]
    assumption

/-- The rest of a run may rely on what the first part has kept. -/
theorem Owning.andThen {L L₁ L' : Ledger} (first : Owning L L₁)
    (rest : Owned L₁ → (∀ p, L.known p → L₁.known p) → Owning L₁ L') : Owning L L' := fun owned =>
  have ⟨owned₁,kept⟩ := first owned
  have ⟨owned',kept'⟩ := rest owned₁ kept owned₁
  ⟨owned',fun p => kept' p ∘ kept p⟩

theorem Owning.of_hosting {L L' : Ledger} (hosting : Hosting L.known L L') : Owning L L' := fun owned =>
  have hosts := hosting ⟨owned,fun _ here => here⟩
  ⟨hosts.toOwned,hosts.there⟩

/-- A run that credits only those who are there. -/
theorem Owning.of_within {α : Type} {x : M α} {L L' : Ledger} {a : α} (within : Within (Hosting L.known) x)
    (ran : EStateM.run x L = .ok a L') : Owning L L' := .of_hosting (within.ok ran)

instance : Seeding (Hosting S) where
  statistics _ _ := .of_eq rfl rfl rfl rfl rfl rfl rfl
  seeders _ _ := .of_eq rfl rfl rfl rfl rfl rfl rfl
  reset _ _ _ := .of_eq rfl rfl rfl rfl rfl rfl rfl

instance : Noting (Hosting S) where
  permissions _ _ := .of_eq rfl rfl rfl rfl rfl rfl rfl
  subscription L id f same hosts := by
    refine { hosts with subscriptions := fun s member => ?_ }
    rcases Subscriptions.mem_modify member with inside | ⟨t,inside,-,rfl⟩
    · exact hosts.subscriptions s inside
    · show L.known (f t).from_account ∧ L.known (f t).to_account
      rw [(same t).1,(same t).2]
      exact hosts.subscriptions t inside

instance : Logging (Hosting S) where
  applied _ _ _ := .of_eq rfl rfl rfl rfl rfl rfl rfl

instance : Accounting (Hosting S) where
  publishing _ _ := .of_eq rfl rfl rfl rfl rfl rfl rfl

instance : Pooling (Hosting S) where
  dynamic _ _ _ := .of_eq rfl rfl rfl rfl rfl rfl rfl

instance : Creating (Hosting S) where
  asset _ _ := .of_eq rfl rfl rfl rfl rfl rfl rfl

instance : Scheduling (Hosting S) where
  properties _ _ := .of_eq rfl rfl rfl rfl rfl rfl rfl
  parameters _ _ _ := .of_eq rfl rfl rfl rfl rfl rfl rfl

instance : Pooling Owning where
  dynamic _ _ _ := .of_hosting (.of_eq rfl rfl rfl rfl rfl rfl rfl)

instance : Scheduling Owning where
  properties _ _ := .of_hosting (.of_eq rfl rfl rfl rfl rfl rfl rfl)
  parameters _ _ _ := .of_hosting (.of_eq rfl rfl rfl rfl rfl rfl rfl)

theorem hosting_content {id : Nat} {f : Content → Content}
    (known : ∀ c, ∀ p ∈ (f c).authors, p ∈ c.authors ∨ S p) : Within (Hosting S) (modify_content id f) := by
  refine .modify fun L hosts => { hosts with contents := fun {k c'} found => ?_ }
  have found : (L.contents.update id f).find? k = some c' := found
  rw [Index.find?_update] at found
  split at found
  · obtain ⟨c,before,rfl⟩ := Option.map_eq_some_iff.mp found
    exact fun p member => (known c p member).elim (hosts.contents before p) (hosts.there p)
  · exact hosts.contents found

/-- The authors stay the same. -/
theorem hosting_authors {id : Nat} {f : Content → Content} (same : ∀ c, (f c).authors = c.authors) :
    Within (Hosting S) (modify_content id f) := hosting_content fun c _ member => .inl (same c ▸ member)

theorem hosting_buying {id : Nat} {f : Buying → Buying} (same : ∀ b, (f b).consumer = b.consumer) :
    Within (Hosting S) (modify_buying id f) := by
  refine .modify fun L hosts => { hosts with buyings := fun {k b'} found => ?_ }
  have found : (L.buyings.update id f).find? k = some b' := found
  show L.known b'.consumer
  rw [Index.find?_update] at found
  split at found
  · obtain ⟨b,before,rfl⟩ := Option.map_eq_some_iff.mp found
    rw [same]
    exact hosts.buyings (b := b) before
  · exact hosts.buyings found

/-! ### Credits -/

instance {owner : AccountId} [there : Fact (S owner)] (a : AssetId) (balance : Int) : Within (Hosting S) (store_balance owner a balance) := by
  unfold store_balance
  split
  · refine .modify fun L hosts => { hosts with balances := fun {o a' b} found => ?_ }
    have found : (L.balances.put (owner,a) _).find? (o,a') = some b := found
    show L.known o
    rw [Table.find?_put] at found
    split at found
    case isTrue here => exact (Prod.mk.inj here).1 ▸ hosts.there owner there.out
    case isFalse => exact hosts.balances found
  · infer_instance

instance {p : AccountId} [Fact (S p)] (x : Asset) : Within (Hosting S) (adjust_balance p x) := by
  unfold adjust_balance
  split
  · infer_instance
  · refine .andThen fun L => ?_
    split <;> infer_instance

/-- A debit is of a balance that is there. -/
theorem hosting_debit {p : AccountId} {x : Asset} {L L' : Ledger} {u : Unit} (debit : x.amount ≤ 0)
    (ran : EStateM.run (adjust_balance p x) L = .ok u L') : Hosting S L L' := by
  by_cases zero : x.amount = 0
  · rw [run_adjust_balance L p x (by omega),if_pos zero] at ran
    cases ran
    exact fun hosts => hosts
  obtain ⟨b,new,rfl⟩ := (adjust_balance_ok ran).resolve_left fun nothing => zero nothing.1
  intro hosts
  refine { hosts with balances := fun {o a b'} found => ?_ }
  have found : (L.balances.put (p,x.asset_id) b).find? (o,a) = some b' := found
  show L.known o
  rw [Table.find?_put] at found
  split at found
  case isFalse => exact hosts.balances found
  case isTrue here =>
    cases here
    cases before : L.balances.find? (p,x.asset_id) with
    | some old => exact hosts.balances before
    | none =>
      have nothing : L.balance p x.asset_id = 0 := by simp [Ledger.balance,before]
      have := b.nonneg
      omega

instance {p : AccountId} [Fact (S p)] (id : Nat) (refund : Bool) (entitled : List AccountId) (amount : Asset) :
    Within (Hosting S) (pay_escrow id refund entitled p amount) := by
  have noted (payment : Payment) : Within (Hosting S)
      (modify fun L : Ledger => { L with payments := payment :: L.payments } : M Unit) :=
    .modify fun _ => .of_eq rfl rfl rfl rfl rfl rfl rfl
  unfold pay_escrow
  infer_instance

theorem within_pay_co_authors {pay : AccountId → Asset → M Unit} {amount : Asset} {rows : List (AccountId × Nat)}
    (paid : ∀ p ∈ rows.map Prod.fst, ∀ x, Within (Hosting S) (pay p x)) (remaining : Int) :
    Within (Hosting S) (pay_co_authors pay amount rows remaining) := by
  induction rows generalizing remaining with
  | nil => exact inferInstanceAs (Within (Hosting S) (pure remaining))
  | cons row rest ih =>
    have first := paid row.1 List.mem_cons_self
    have ih := ih fun p member => paid p (List.mem_cons_of_mem _ member)
    unfold pay_co_authors
    infer_instance

/-- The author and the co-authors share an amount. -/
theorem within_shares {pay : AccountId → Asset → M Unit} {content : Content}
    (paid : ∀ p ∈ content.authors, ∀ x, Within (Hosting S) (pay p x)) (amount : Asset) (remaining : Int) :
    Within (Hosting S) (pay_co_authors pay amount content.co_authors.rows remaining) ∧
      ∀ x, Within (Hosting S) (pay_author pay content.author x) := by
  refine ⟨within_pay_co_authors (fun p member => paid p (List.mem_cons_of_mem _ member)) remaining,fun x => ?_⟩
  have first := paid content.author List.mem_cons_self
  unfold pay_author
  infer_instance

theorem within_content_payout {id : Nat} {amount : Asset} {content : Content} (there : ∀ p ∈ content.authors, S p) :
    Within (Hosting S) (content_payout id amount content) := by
  have paid : ∀ p ∈ content.authors, ∀ x, Within (Hosting S) (pay_escrow id false content.authors p x) := fun p member x =>
    have : Fact (S p) := ⟨there p member⟩
    inferInstance
  have first := paid content.author List.mem_cons_self
  have ⟨shared,rest⟩ := within_shares paid amount amount.amount
  unfold content_payout
  dsimp only
  infer_instance

instance {p : AccountId} [there : Fact (S p)] (balance : Asset) (policy : VestingPolicy) :
    Within (Hosting S) (create_vesting ⟨p,balance,policy⟩) := by
  have stored : Within (Hosting S) (modify fun L : Ledger => { L with vestings := L.vestings.create ⟨p,balance,policy⟩ } : M Unit) := by
    refine .modify fun L hosts => { hosts with vestings := fun {id v} found => ?_ }
    have found : (L.vestings.create ⟨p,balance,policy⟩).find? id = some v := found
    show L.known v.owner
    rw [Index.find?_create] at found
    split at found
    · cases found
      exact hosts.there p there.out
    · exact hosts.vestings found
  unfold create_vesting
  infer_instance

theorem hosting_vesting {id : Nat} {f : VestingBalance → VestingBalance} (same : ∀ v, (f v).owner = v.owner) :
    Within (Hosting S) (modify fun L : Ledger => { L with vestings := L.vestings.update id f } : M Unit) := by
  refine .modify fun L hosts => { hosts with vestings := fun {k v'} found => ?_ }
  have found : (L.vestings.update id f).find? k = some v' := found
  show L.known v'.owner
  rw [Index.find?_update] at found
  split at found
  · obtain ⟨v,before,rfl⟩ := Option.map_eq_some_iff.mp found
    rw [same]
    exact hosts.vestings (v := v) before
  · exact hosts.vestings found

instance (id : Nat) (amount : Asset) : Within (Hosting S) (withdraw id amount) := by
  have stored (balance : Asset) (now : Nat) : Within (Hosting S) (modify fun L : Ledger =>
      { L with vestings := L.vestings.update id fun v =>
        { v with balance := balance, policy := v.policy.on_withdraw v.balance.amount amount.amount now } } : M Unit) :=
    hosting_vesting fun _ => rfl
  unfold withdraw
  infer_instance

instance (id : Nat) (amount : Asset) : Within (Hosting S) (deposit id amount) := by
  have stored (balance : Asset) (now : Nat) : Within (Hosting S) (modify fun L : Ledger =>
      { L with vestings := L.vestings.update id fun v =>
        { v with balance := balance, policy := v.policy.on_deposit v.balance.amount now } } : M Unit) :=
    hosting_vesting fun _ => rfl
  unfold deposit
  infer_instance

instance {p : AccountId} [Fact (S p)] (ovbid : Option Nat) (amount : Int) (seconds : Nat) :
    Within (Hosting S) (deposit_lazy_vesting ovbid amount seconds p) := by
  have fresh : Within (Hosting S) (deposit_lazy_vesting.fresh amount seconds p) := by
    unfold deposit_lazy_vesting.fresh
    infer_instance
  unfold deposit_lazy_vesting
  split
  · infer_instance
  · cases ovbid <;> infer_instance

/-! ### Accounts and subscriptions -/

instance {p q : AccountId} [there : Fact (S p)] [there' : Fact (S q)] : Within (Hosting S) (extend_subscription p q) := by
  have extended (id : Nat) (f : Subscription → Subscription)
      (same : ∀ s, (f s).from_account = s.from_account ∧ (f s).to_account = s.to_account) :
      Within (Hosting S) (modify_subscription id f) := within_modify_subscription same
  have created (expiration : Nat) : Within (Hosting S) (modify fun L : Ledger =>
      { L with subscriptions := L.subscriptions.create ⟨0,p,q,expiration,false⟩ } : M Unit) := by
    refine .modify fun L hosts => { hosts with subscriptions := fun s member => ?_ }
    have member : s ∈ upper_insert ⟨L.subscriptions.next,p,q,expiration,false⟩ L.subscriptions.order := member
    show L.known s.from_account ∧ L.known s.to_account
    rw [(upper_insert_perm _ _).mem_iff,List.mem_cons] at member
    rcases member with rfl | inside
    · exact ⟨hosts.there p there.out,hosts.there q there'.out⟩
    · exact hosts.subscriptions s inside
  unfold extend_subscription
  refine .andThen fun L => .andThen fun author => ?_
  dsimp only
  split
  · exact extended _ _ fun _ => ⟨rfl,rfl⟩
  · exact created _

/-- Accounts are entered or changed, and none goes. -/
theorem hosting_accounts {f : Index Account → Index Account}
    (kept : ∀ (i : Index Account) p, (i.find? p).isSome → ((f i).find? p).isSome) :
    Within (Hosting S) (modify fun L : Ledger => { L with accounts := f L.accounts } : M Unit) := by
  refine .modify fun L hosts => ?_
  have kept (p : AccountId) (here : L.known p) : { L with accounts := f L.accounts }.known p := kept L.accounts p here
  exact ⟨⟨fun found => kept _ (hosts.balances found),fun found => kept _ (hosts.vestings found),
    fun found p member => kept p (hosts.contents found p member),fun found => kept _ (hosts.buyings found),
    fun s member => (hosts.subscriptions s member).imp (kept _) (kept _),fun found => kept _ (hosts.miners found)⟩,
    fun p here => kept p (hosts.there p here)⟩

instance (o : AccountCreateOperation) : Within (Hosting S) (account_create_apply o) := by
  refine hosting_accounts (f := fun i => i.create ⟨o.options⟩) fun i p here => ?_
  rw [Index.find?_create]
  split
  · rfl
  · exact here

instance (o : AccountUpdateOperation) : Within (Hosting S) (account_update_apply o) := by
  have stored (options : AccountOptions) : Within (Hosting S) (modify fun L : Ledger =>
      { L with accounts := L.accounts.update o.account fun a => { a with options := options } } : M Unit) := by
    refine hosting_accounts (f := fun i => i.update o.account _) fun i p here => ?_
    rw [Index.find?_update]
    split
    case isTrue same => rwa [Option.isSome_map,← same]
    case isFalse => exact here
  unfold account_update_apply
  split <;> infer_instance

end

/-! ### The operations -/

theorem get_account_known {p : AccountId} {a : Account} {L : Ledger} (read : get_account p L = .ok a) : L.known p := by
  rw [get_account,reads_read] at read
  cases found : L.accounts.find? p with
  | none =>
    rw [found] at read
    cases read
  | some b => exact Option.isSome_iff_exists.mpr ⟨b,found⟩

theorem prepare_fee_known {payer : AccountId} {fee : Asset} {x : Int} {L : Ledger}
    (prepared : prepare_fee payer fee L = .ok x) : L.known payer := by
  obtain ⟨_,-,prepared⟩ := reads_bind.mp prepared
  obtain ⟨_,read,-⟩ := reads_bind.mp prepared
  exact get_account_known read

/-- Whom an operation credits without looking for the account. -/
def credits_known (op : Operation) (L : Ledger) : Prop :=
  match op with
  | .transfer2 o => ∀ p, o.target = .account p → L.known p
  | .asset_issue o => L.known o.issue_to_account
  | _ => True

/-- A change of settings that makes no one a miner but `who`. -/
def Registers (who : AccountId → Prop) (change : SettingsChange) : Prop :=
  ∀ L L', change.do_apply L = .ok L' → ∀ id m', L'.miners.find? id = some m' →
    who m'.miner_account ∨ ∃ m, L.miners.find? id = some m ∧ m.miner_account = m'.miner_account

/-- `miner_create_operation`; votes, keys and addresses are outside the ledger. -/
structure MinerCreateOperation where
  fee : Asset
  miner_account : AccountId

def miner_create_apply (o : MinerCreateOperation) (L : Ledger) : Ledger :=
  { L with miners := L.miners.create ⟨o.miner_account,none⟩ }

def MinerCreateOperation.change (o : MinerCreateOperation) : SettingsChange where
  do_apply L := .ok (miner_create_apply o L)
  settled := by
    rintro L L' ⟨⟩
    exact { Settled.refl L with }

/-- The account that becomes a miner pays for it. -/
def MinerCreateOperation.operation (o : MinerCreateOperation) : Operation := .other o.miner_account o.fee o.change

theorem registers_miner_create (o : MinerCreateOperation) : Registers (· = o.miner_account) o.change := by
  rintro L L' ⟨⟩ id m' found
  have found : (L.miners.create ⟨o.miner_account,none⟩).find? id = some m' := found
  rw [Index.find?_create] at found
  split at found
  · cases found
    exact .inl rfl
  · exact .inr ⟨m',found,rfl⟩

/-- An operation that makes no one a miner but who pays for it. -/
def registers_payer (op : Operation) : Prop :=
  match op with
  | .other payer _ change => Registers (· = payer) change
  | _ => True

theorem Owned.settled {who : AccountId → Prop} {change : SettingsChange} {L L' : Ledger} (registers : Registers who change)
    (there : ∀ p, who p → L.known p) (applied : change.do_apply L = .ok L') : Owning L L' := by
  intro owned
  have settled := change.settled applied
  have same (p : AccountId) : L'.known p ↔ L.known p := by rw [Ledger.known,settled.accounts]; rfl
  refine ⟨⟨?_,?_,?_,?_,?_,?_⟩,fun p => (same p).mpr⟩
  · rw [settled.balances]
    exact fun found => (same _).mpr (owned.balances found)
  · rw [settled.vestings]
    exact fun found => (same _).mpr (owned.vestings found)
  · rw [settled.contents]
    exact fun found p member => (same p).mpr (owned.contents found p member)
  · rw [settled.buyings]
    exact fun found => (same _).mpr (owned.buyings found)
  · rw [settled.subscriptions]
    exact fun s member => (owned.subscriptions s member).imp (same _).mpr (same _).mpr
  · intro id m' found
    rw [same]
    rcases registers L L' applied id m' found with new | ⟨m,before,account⟩
    · exact there _ new
    · exact account ▸ owned.miners before

section
variable {L L' : Ledger}

theorem owning_transfer2 {o : Transfer2Operation} (payer : L.known o.from_account)
    (there : ∀ p, o.target = .account p → L.known p) (ran : EStateM.run (transfer2_apply o) L = .ok () L') :
    Owning L L' := by
  have : Fact (L.known o.from_account) := ⟨payer⟩
  obtain ⟨negated,-,ran⟩ := run_observe_bind.mp ran
  obtain ⟨_,L₁,debited,ran⟩ := run_bind_ok.mp ran
  refine Owning.andThen (.of_within inferInstance debited) fun owned kept => ?_
  cases target : o.target with
  | account p =>
    simp only [target] at ran
    have : Fact (L₁.known p) := ⟨kept p (there p target)⟩
    exact .of_within inferInstance ran
  | content id =>
    simp only [target,run_get_bind] at ran
    cases found : L₁.contents.find? id with
    | none =>
      rw [found] at ran
      cases ran
    | some content =>
      rw [found] at ran
      have paid : ∀ p ∈ content.authors, ∀ x, Within (Hosting L₁.known) (adjust_balance p x) := fun p member x =>
        have : Fact (L₁.known p) := ⟨owned.contents found p member⟩
        inferInstance
      obtain ⟨shared,rest⟩ := within_shares paid o.amount o.amount.amount
      exact .of_within inferInstance ran

/-- The author and the co-authors of a submission are looked up. -/
theorem content_submit_known {env : Env} {o : ContentSubmitOperation} {content : Option Nat}
    (evaluated : content_submit_evaluate env o L = .ok content) :
    L.known o.author ∧ ∀ p ∈ o.co_authors.rows.map Prod.fst, L.known p := by
  have checked := content_submit_evaluate_submittable evaluated
  obtain ⟨a,read⟩ := checked.author
  refine ⟨get_account_known read,?_⟩
  intro p member
  obtain ⟨row,inside,rfl⟩ := List.mem_map.mp member
  exact checked.co_authors row inside

/-- A new content is one of accounts that are there. -/
theorem hosting_new_content {S : AccountId → Prop} {c : Content} (there : ∀ p ∈ c.authors, S p) :
    Within (Hosting S) (modify fun L : Ledger => { L with contents := L.contents.create c } : M Unit) := by
  refine .modify fun L hosts => { hosts with contents := fun {k c'} found => ?_ }
  have found : (L.contents.create c).find? k = some c' := found
  rw [Index.find?_create] at found
  split at found
  · cases found
    exact fun p member => hosts.there p (there p member)
  · exact hosts.contents found

instance {S : AccountId → Prop} (content size : Nat) (seeders : List AccountId) :
    Within (Hosting S) (reserve_seeders content size seeders) := by
  induction seeders with
  | nil => exact inferInstanceAs (Within (Hosting S) (pure ()))
  | cons p rest ih =>
    have noted (price : Int) : Within (Hosting S) (modify_content content fun co =>
        { co with seeder_price := insert_new co.seeder_price p price }) := hosting_authors fun _ => rfl
    unfold reserve_seeders
    refine .andThen fun L => ?_
    split <;> infer_instance

theorem owning_submit {env : Env} {o : ContentSubmitOperation} {content : Option Nat} {L₀ : Ledger}
    (evaluated : content_submit_evaluate env o L₀ = .ok content) (same : ∀ p, L.known p ↔ L₀.known p)
    (ran : EStateM.run (content_submit_apply o content) L = .ok () L') : Owning L L' := by
  obtain ⟨author,co_authors⟩ := content_submit_known evaluated
  have : Fact (L.known o.author) := ⟨(same _).mpr author⟩
  have there : ∀ p ∈ o.co_authors.rows.map Prod.fst, L.known p := fun p member => (same p).mpr (co_authors p member)
  cases content with
  | some id =>
    refine .of_within (hosting_content fun c p member => ?_) ran
    rcases List.mem_cons.mp member with rfl | member
    · exact .inl List.mem_cons_self
    · exact .inr (there p member)
  | none =>
    have created (now : Nat) : Within (Hosting L.known) (modify fun L : Ledger =>
        { L with contents := L.contents.create (new_content o now) } : M Unit) :=
      hosting_new_content (List.forall_mem_cons.mpr ⟨(same _).mpr author,there⟩)
    refine .of_within ?_ ran
    unfold content_submit_apply
    dsimp only
    refine .andThen fun now => .andThen fun L => .andThen fun _ => ?_
    infer_instance

theorem hosting_with_buying {S : AccountId → Prop} {b : Buying} (there : S b.consumer) :
    Hosting S L (L.with_buying b) := by
  refine fun hosts => { hosts with buyings := fun {k b'} found => ?_ }
  have found : (L.buyings.create b).find? k = some b' := found
  show L.known b'.consumer
  rw [Index.find?_create] at found
  split at found
  · cases found
    exact hosts.there _ there
  · exact hosts.buyings found

theorem owning_buy {o : RequestToBuyOperation} {ctx : BuyingContext} (payer : L.known o.consumer)
    (ran : EStateM.run (request_to_buy_apply o ctx) L = .ok () L') : Owning L L' := by
  intro owned
  have : Fact (L.known o.consumer) := ⟨payer⟩
  have authors {k : Nat} {content : Content} (read : get_content o.URI L = .ok (k,content)) :
      ∀ p ∈ content.authors, L.known p := owned.contents (get_content_ok read).1
  refine Owning.of_hosting (fun hosts => ?_) owned
  · cases request_to_buy_ok ran with
    | waiting k content after L₁ L₂ now _ read converted taken counted =>
      have converted : Hosting L.known L L₁ := Within.ok inferInstance converted
      have entered := hosting_with_buying (b := new_buying o false (ctx.paid_price o) after now) payer (converted hosts)
      have taken : Hosting L.known _ L₂ := Within.ok inferInstance taken
      have counted : Hosting L.known L₂ L' := Within.ok inferInstance counted
      exact counted (taken entered)
    | delivered k content after L₁ L₂ L₃ now _ read converted taken paid counted =>
      have converted : Hosting L.known L L₁ := Within.ok inferInstance converted
      have entered := hosting_with_buying (b := new_buying o true (ctx.paid_price o) after now) payer (converted hosts)
      have taken : Hosting L.known _ L₂ := Within.ok inferInstance taken
      have bought : Within (Hosting L.known) (modify_content k fun co => { co with times_bought := co.times_bought + 1 }) :=
        hosting_authors fun _ => rfl
      have pushed (author : AccountId) (id : Nat) :
          Within (Hosting L.known) (push_applied_operation (.finish_buying author after o.consumer id)) := within_push fun _ => rfl
      have counted : Hosting L.known L₃ L' := Within.ok inferInstance counted
      exact counted ((within_content_payout (authors read)).ok paid (taken entered))

theorem hosting_note_answer {S : AccountId → Prop} (o : DeliverKeysOperation) (b : Buying) :
    Within (Hosting S) (note_answer o b) := by
  have noted : Within (Hosting S) (modify_buying o.buying fun bo => { bo with
      seeders_answered := bo.seeders_answered ++ [o.seeder], key_particles := bo.key_particles ++ [o.key] }) :=
    hosting_buying fun _ => rfl
  unfold note_answer
  infer_instance

theorem hosting_buying_expire {S : AccountId → Prop} {id : Nat} {b : Buying} (there : S b.consumer) :
    Within (Hosting S) (buying_expire id b) := by
  have : Fact (S b.consumer) := ⟨there⟩
  have closed (now : Nat) : Within (Hosting S) (modify_buying id fun bo => { bo with
      price := { bo.price with amount := 0 }, expired := true, expiration_or_delivery_time := now }) :=
    hosting_buying fun _ => rfl
  have pushed : Within (Hosting S) (push_applied_operation (.return_escrow_buying b.consumer b.price id)) :=
    within_push fun _ => rfl
  unfold buying_expire
  infer_instance

theorem hosting_finish_buying {S : AccountId → Prop} {id k : Nat} {b : Buying} {content : Content}
    (there : ∀ p ∈ content.authors, S p) : Within (Hosting S) (finish_buying id b k content) := by
  have counted : Within (Hosting S) (modify_content k fun co => { co with times_bought := co.times_bought + 1 }) :=
    hosting_authors fun _ => rfl
  have paid : Within (Hosting S) (content_payout id b.paid_price_after_exchange content) := within_content_payout there
  have closed (now : Nat) : Within (Hosting S) (modify_buying id fun bo => { bo with
      price := { bo.price with amount := 0 }, delivered := true, expiration_or_delivery_time := now }) :=
    hosting_buying fun _ => rfl
  have pushed (after : Asset) : Within (Hosting S) (push_applied_operation (.finish_buying content.author after b.consumer id)) :=
    within_push fun _ => rfl
  unfold finish_buying
  infer_instance

theorem owning_deliver {o : DeliverKeysOperation} (ran : EStateM.run (deliver_keys_apply o) L = .ok () L') :
    Owning L L' := by
  obtain ⟨seen,-,ran⟩ := run_observe_bind.mp ran
  obtain ⟨now,-,ran⟩ := run_observe_bind.mp ran
  obtain ⟨⟨k,content⟩,read,ran⟩ := run_observe_bind.mp ran
  obtain ⟨_,L₁,noted,ran⟩ := run_bind_ok.mp ran
  obtain ⟨b,bought,ran⟩ := run_observe_bind.mp ran
  intro owned
  have authors := owned.contents (get_content_ok read).1
  refine Owning.andThen (.of_within (hosting_note_answer o seen) noted) (fun owned₁ kept => ?_) owned
  dsimp only at ran
  split at ran
  · cases ran
    exact Composes.refl _
  · split at ran
    · exact .of_within (hosting_finish_buying fun p member => kept p (authors p member)) ran
    · split at ran
      · exact .of_within (hosting_buying_expire (owned₁.buyings (get_buying_ok.mp bought))) ran
      · cases ran
        exact Composes.refl _

theorem owning_proof {o : ProofOfCustodyOperation} (payer : L.known o.seeder)
    (ran : EStateM.run (proof_of_custody_apply o) L = .ok () L') : Owning L L' := by
  have : Fact (L.known o.seeder) := ⟨payer⟩
  refine .of_within ?_ ran
  unfold proof_of_custody_apply
  refine .andThen fun row => ?_
  obtain ⟨id,content⟩ := row
  refine .andThen fun L₁ => ?_
  dsimp only
  split
  · infer_instance
  · split
    · have proved : Within (Hosting L.known) (modify_content id fun co =>
          { co with last_proof := co.last_proof.put o.seeder L₁.properties.time }) := hosting_authors fun _ => rfl
      infer_instance
    · refine .andThen fun _ => .andThen fun reward => .andThen fun escrow => ?_
      have rewarded : Within (Hosting L.known) (modify_content id fun co =>
          { co with last_proof := co.last_proof.put o.seeder L₁.properties.time, publishing_fee_escrow := escrow }) :=
        hosting_authors fun _ => rfl
      have pushed : Within (Hosting L.known) (push_applied_operation (.pay_seeder content.author o.seeder ⟨reward,core⟩)) :=
        within_push fun _ => rfl
      infer_instance

/-- What is withdrawn comes out of a balance that is there. -/
theorem withdraw_claim_known {o : WithdrawPermissionClaimOperation} (owned : Owned L) (positive : 0 < o.amount_to_withdraw.amount)
    (evaluated : withdraw_permission_claim_evaluate o L = .ok ()) :
    L.known o.withdraw_from_account ∧ L.known o.withdraw_to_account := by
  obtain ⟨permit,-,rest⟩ := reads_bind.mp evaluated
  obtain ⟨now,-,rest⟩ := reads_bind.mp rest
  obtain ⟨_,-,rest⟩ := reads_bind.mp rest
  obtain ⟨_,-,rest⟩ := reads_bind.mp rest
  obtain ⟨_,-,rest⟩ := reads_bind.mp rest
  obtain ⟨available,-,rest⟩ := reads_bind.mp rest
  obtain ⟨_,-,rest⟩ := reads_bind.mp rest
  obtain ⟨balance,held,rest⟩ := reads_bind.mp rest
  obtain ⟨_,covered,rest⟩ := reads_bind.mp rest
  obtain ⟨_,-,rest⟩ := reads_bind.mp rest
  obtain ⟨_,read,-⟩ := reads_bind.mp rest
  refine ⟨?_,get_account_known read⟩
  rw [get_balance_eq] at held
  cases held
  obtain ⟨_,compared,covered⟩ := bind_ok.mp (reads_lift.mp covered)
  have same : (⟨L.balance o.withdraw_from_account o.amount_to_withdraw.asset_id,o.amount_to_withdraw.asset_id⟩ : Asset).asset_id =
    o.amount_to_withdraw.asset_id := rfl
  cases (Asset.at_least_same same).symm.trans compared
  have enough : o.amount_to_withdraw.amount ≤ L.balance o.withdraw_from_account o.amount_to_withdraw.asset_id :=
    of_decide_eq_true (fc_assert_ok.mp covered)
  cases found : L.balances.find? (o.withdraw_from_account,o.amount_to_withdraw.asset_id) with
  | some b => exact owned.balances found
  | none =>
    have nothing : L.balance o.withdraw_from_account o.amount_to_withdraw.asset_id = 0 := by simp [Ledger.balance,found]
    omega

theorem owning_apply {env : Env} {executed : M Unit} {fee fee' : Int} {op : Operation} {act : M Unit} {L₀ : Ledger}
    (owned₀ : Owned L₀) (paying : L₀.known op.fee_payer) (met : credits_known op L₀) (registers : registers_payer op) (valid : op.validate = true)
    (prepared : Prepared L₀ L) (evaluated : do_evaluate env executed fee op L₀ = .ok (fee',act))
    (inside : EStateM.run executed L = .ok () L' → Owning L L') (ran : EStateM.run act L = .ok () L') : Owning L L' := by
  have same (p : AccountId) : L.known p ↔ L₀.known p := by rw [prepared.rest]; exact Iff.rfl
  have known {p : AccountId} {a : Account} (read : get_account p L₀ = .ok a) : Fact (L.known p) :=
    ⟨(same p).mpr (get_account_known read)⟩
  have payer : Fact (L.known op.fee_payer) := ⟨(same _).mpr paying⟩
  cases op <;> simp only [do_evaluate,reads_bind,reads_pure,Prod.mk.injEq] at evaluated
  case transfer o =>
    obtain ⟨_,evaluated,-,rfl⟩ := evaluated
    obtain ⟨_,-,evaluated⟩ := reads_bind.mp evaluated
    obtain ⟨_,read,-⟩ := reads_bind.mp evaluated
    have := known read
    have : Fact (L.known o.from_account) := payer
    refine .of_within ?_ ran
    unfold transfer_apply
    infer_instance
  case transfer2 o =>
    obtain ⟨_,-,-,rfl⟩ := evaluated
    exact owning_transfer2 payer.out (fun p target => (same p).mpr (met p target)) ran
  case asset_create o =>
    obtain ⟨left,-,-,rfl⟩ := evaluated
    exact .of_within inferInstance ran
  case asset_issue o =>
    obtain ⟨_,-,-,rfl⟩ := evaluated
    have : Fact (L.known o.issue_to_account) := ⟨(same _).mpr met⟩
    refine .of_within ?_ ran
    unfold asset_issue_apply
    infer_instance
  case asset_reserve o =>
    obtain ⟨_,-,-,rfl⟩ := evaluated
    have : Fact (L.known o.payer) := payer
    refine .of_within ?_ ran
    unfold asset_reserve_apply
    infer_instance
  case asset_fund_pools o =>
    obtain ⟨_,-,-,rfl⟩ := evaluated
    have : Fact (L.known o.from_account) := payer
    refine .of_within ?_ ran
    unfold asset_fund_pools_apply
    dsimp only
    split <;> infer_instance
  case asset_claim_fees o =>
    obtain ⟨_,-,-,rfl⟩ := evaluated
    have : Fact (L.known o.issuer) := payer
    refine .of_within ?_ ran
    unfold asset_claim_fees_apply
    infer_instance
  case withdraw_permission_claim o =>
    obtain ⟨_,evaluated,-,rfl⟩ := evaluated
    have positive : 0 < o.amount_to_withdraw.amount := by
      simp only [Operation.validate,Bool.and_eq_true,decide_eq_true_eq] at valid
      exact valid.1.2
    obtain ⟨giver,taker⟩ := withdraw_claim_known owned₀ positive evaluated
    have : Fact (L.known o.withdraw_from_account) := ⟨(same _).mpr giver⟩
    have : Fact (L.known o.withdraw_to_account) := ⟨(same _).mpr taker⟩
    refine .of_within ?_ ran
    unfold withdraw_permission_claim_apply
    have stored (p : WithdrawPermission) : Within (Hosting L.known) (modify fun L : Ledger =>
        { L with permissions := L.permissions.update o.withdraw_permission fun _ => p } : M Unit) :=
      .modify fun _ => .of_eq rfl rfl rfl rfl rfl rfl rfl
    infer_instance
  case vesting_balance_create o =>
    obtain ⟨_,evaluated,-,rfl⟩ := evaluated
    obtain ⟨_,-,evaluated⟩ := reads_bind.mp evaluated
    obtain ⟨_,read,-⟩ := reads_bind.mp evaluated
    have := known read
    have : Fact (L.known o.creator) := payer
    refine .of_within ?_ ran
    unfold vesting_balance_create_apply
    infer_instance
  case vesting_balance_withdraw o =>
    obtain ⟨_,-,-,rfl⟩ := evaluated
    have : Fact (L.known o.owner) := payer
    refine .of_within ?_ ran
    unfold vesting_balance_withdraw_apply
    infer_instance
  case content_submit o =>
    obtain ⟨content,evaluated,-,rfl⟩ := evaluated
    exact owning_submit evaluated same ran
  case content_cancellation o =>
    obtain ⟨_,-,-,rfl⟩ := evaluated
    refine .of_within ?_ ran
    unfold content_cancellation_apply
    refine .andThen fun row => ?_
    obtain ⟨id,_⟩ := row
    refine .andThen fun now => ?_
    exact hosting_authors fun _ => by simp only [Content.authors]
  case request_to_buy o =>
    obtain ⟨ctx,-,-,rfl⟩ := evaluated
    exact owning_buy payer.out ran
  case deliver_keys o =>
    obtain ⟨_,-,-,rfl⟩ := evaluated
    exact owning_deliver ran
  case proof_of_custody o =>
    obtain ⟨_,-,-,rfl⟩ := evaluated
    exact owning_proof payer.out ran
  case subscribe o =>
    obtain ⟨_,evaluated,-,rfl⟩ := evaluated
    obtain ⟨_,-,evaluated⟩ := reads_bind.mp evaluated
    obtain ⟨_,read,-⟩ := reads_bind.mp evaluated
    have := known read
    have : Fact (L.known o.from_account) := payer
    refine .of_within ?_ ran
    unfold subscribe_apply
    infer_instance
  case subscribe_by_author o =>
    obtain ⟨_,evaluated,-,rfl⟩ := evaluated
    obtain ⟨_,read,evaluated⟩ := reads_bind.mp evaluated
    obtain ⟨_,read',-⟩ := reads_bind.mp evaluated
    have := known read
    have := known read'
    refine .of_within ?_ ran
    unfold subscribe_by_author_apply
    infer_instance
  case automatic_renewal_of_subscription o =>
    obtain ⟨_,-,-,rfl⟩ := evaluated
    exact .of_within inferInstance ran
  case account_create o =>
    obtain ⟨_,-,-,rfl⟩ := evaluated
    exact .of_within inferInstance ran
  case account_update o =>
    obtain ⟨_,-,-,rfl⟩ := evaluated
    exact .of_within inferInstance ran
  case proposal_update =>
    obtain ⟨-,rfl⟩ := evaluated
    exact inside ran
  case other by_whom paid change =>
    obtain ⟨-,rfl⟩ := evaluated
    obtain ⟨_,applied,stored⟩ := run_observe_bind.mp ran
    cases stored
    have registers : Registers (· = by_whom) change := registers
    refine Owned.settled registers ?_ applied
    rintro p rfl
    exact payer.out

end

/-! ### Every step -/

theorem owning_operation {env : Env} {op : Operation} {L L' : Ledger}
    (met : ∀ op' L', Applies env op L op' L' → registers_payer op' ∧ credits_known op' L')
    (ran : EStateM.run (apply_operation env op) L = .ok () L') : Owning L L' := by
  let meets : Operation → Ledger → Prop := fun op L => registers_payer op ∧ credits_known op L
  have met : ∀ op' L', Applies env op L op' L' → meets op' L' := met
  refine related_apply_operation ?_ op met ran
  intro executed op L L₁ L₂ L₃ L₄ fee act met valid _ flow inside owned
  have evaluated := flow.evaluated
  simp only [evaluate,reads_bind] at evaluated
  obtain ⟨x,prepared,-,-,evaluated⟩ := evaluated
  have paying := prepare_fee_known prepared
  have converted : Owning L L₁ := .of_within inferInstance flow.converted
  have paid : Owning L₁ L₂ := .of_within inferInstance flow.paid
  have applied : Owning L₂ L₃ := owning_apply owned paying met.2 met.1 valid flow.prepared evaluated inside flow.applied
  refine Owning.andThen (Composes.trans converted (Composes.trans paid applied)) (fun _ kept => ?_) owned
  have : Fact (L₃.known op.fee_payer) := ⟨kept _ paying⟩
  refine .of_within ?_ flow.charged
  unfold charge_fee
  infer_instance

theorem owning_deposit_miner_pay {miner : Nat} {pay : Int} {L L' : Ledger}
    (ran : EStateM.run (deposit_miner_pay miner pay) L = .ok () L') : Owning L L' := by
  unfold deposit_miner_pay at ran
  split at ran
  · cases ran
    exact Composes.refl _
  rw [run_get_bind] at ran
  cases found : L.miners.find? miner with
  | none =>
    rw [found] at ran
    cases ran
  | some wit =>
    rw [found] at ran
    intro owned
    have : Fact (L.known wit.miner_account) := ⟨owned.miners found⟩
    have stored (pay_vb : Option Nat) : Within (Hosting L.known) (modify fun L : Ledger =>
        { L with miners := L.miners.update miner fun w => { w with pay_vb := pay_vb } } : M Unit) := by
      refine .modify fun L hosts => { hosts with miners := fun {k m'} found => ?_ }
      have found : (L.miners.update miner _).find? k = some m' := found
      show L.known m'.miner_account
      rw [Index.find?_update] at found
      split at found
      · obtain ⟨m,before,rfl⟩ := Option.map_eq_some_iff.mp found
        exact hosts.miners (m := m) before
      · exact hosts.miners found
    exact Owning.of_within inferInstance ran owned

theorem owning_miner {miner : Nat} {L L' : Ledger} (ran : EStateM.run (update_signing_miner miner) L = .ok () L') :
    Owning L L' := by
  simp only [update_signing_miner,run_get_bind,run_observe_bind] at ran
  obtain ⟨mined_rewards,-,unspent_fee_budget,-,ran⟩ := ran
  obtain ⟨_,L₁,rewarded,ran⟩ := run_bind_ok.mp ran
  obtain ⟨pay,-,deposited⟩ := run_observe_bind.mp ran
  have rewarded : Owning L L₁ := by
    cases rewarded
    exact Scheduling.properties L _
  exact Composes.trans rewarded (owning_deposit_miner_pay deposited)

/-- What a negative escrow lacks is debited to `decent6`. -/
theorem owning_content_expire {id : Nat} {content : Content} {L L' : Ledger} {u : Unit}
    (there : ∀ p ∈ content.authors, L.known p) (ran : EStateM.run (content_expire id content) L = .ok u L') :
    Owning L L' := by
  have : Fact (L.known content.author) := ⟨there _ List.mem_cons_self⟩
  obtain ⟨_,L₁,returned,ran⟩ := run_bind_ok.mp ran
  have returned : Hosting L.known L L₁ := by
    split at returned
    · exact Within.ok inferInstance returned
    · exact hosting_debit (by omega) returned
  have emptied : Within (Hosting L.known) (modify_content id fun co =>
      { co with publishing_fee_escrow := { co.publishing_fee_escrow with amount := 0 } }) := hosting_authors fun _ => rfl
  have pushed (v : VirtualOperation) : Within (Hosting L.known) (push_applied_operation v) :=
    .modify fun _ => .of_eq rfl rfl rfl rfl rfl rfl rfl
  have rest : Hosting L.known L₁ L' := Within.ok inferInstance ran
  exact .of_hosting (Composes.trans returned rest)

theorem owning_expire_contents {ids : List Nat} {L L' : Ledger} {u : Unit}
    (ran : EStateM.run (expire_contents ids) L = .ok u L') : Owning L L' := by
  induction ids generalizing L with
  | nil =>
    cases ran
    exact Composes.refl _
  | cons id rest ih =>
    obtain ⟨content,L₁,found,expired,ran⟩ := expire_contents_cons_ok ran
    exact Composes.trans (fun owned => owning_content_expire (owned.contents found) expired owned) (ih ran)

theorem owning_expire_buyings {ids : List Nat} {L L' : Ledger} {u : Unit}
    (ran : EStateM.run (expire_buyings ids) L = .ok u L') : Owning L L' := by
  induction ids generalizing L with
  | nil =>
    cases ran
    exact Composes.refl _
  | cons id rest ih =>
    obtain ⟨b,found,⟨-,ran⟩ | ⟨-,L₁,expired,ran⟩⟩ := expire_buyings_cons_ok ran
    · exact ih ran
    · refine Composes.trans (fun owned => ?_) (ih ran)
      exact Owning.of_within (hosting_buying_expire (owned.buyings found)) expired owned

theorem hosting_settle_renewal {S : AccountId → Prop} {s : Subscription} (payer : S s.from_account) (author : S s.to_account) :
    Within (Hosting S) (settle_renewal s) := by
  have : Fact (S s.from_account) := ⟨payer⟩
  have : Fact (S s.to_account) := ⟨author⟩
  have renewed (period : Nat) : Within (Hosting S) (modify_subscription s.id fun so =>
      { so with expiration := later so.expiration (period_in_secs period) }) :=
    within_modify_subscription fun _ => ⟨rfl,rfl⟩
  have pushed : Within (Hosting S) (push_applied_operation (.renewal_of_subscription s.from_account s.id)) :=
    within_push fun _ => rfl
  have paid (period : Nat) (price : Asset) : Within (Hosting S) (renew_subscription s period price) := by
    unfold renew_subscription
    infer_instance
  have tried (options : AccountOptions) : Within (Hosting S) (try_renewal s options) := by
    unfold try_renewal
    infer_instance
  unfold settle_renewal
  refine .andThen fun L => ?_
  split <;> infer_instance

theorem owning_renewals {t fuel : Nat} {id : Option Nat} {L L' : Ledger} {u : Unit}
    (ran : EStateM.run (renewals t fuel id) L = .ok u L') : Owning L L' := by
  induction fuel generalizing id L with
  | zero =>
    cases ran
    exact Composes.refl _
  | succ fuel ih =>
    cases id with
    | none =>
      cases ran
      exact Composes.refl _
    | some id =>
      unfold renewals at ran
      rw [run_get_bind] at ran
      cases found : L.subscriptions.find? id with
      | none =>
        rw [found] at ran
        cases ran
        exact Composes.refl _
      | some s =>
        rw [found] at ran
        dsimp only at ran
        split at ran
        case isFalse =>
          cases ran
          exact Composes.refl _
        split at ran
        · obtain ⟨_,L₁,settled,ran⟩ := run_bind_ok.mp ran
          refine Composes.trans (fun owned => ?_) (ih (run_get_bind.mp ran))
          have ⟨payer,author⟩ := owned.subscriptions s ((Subscriptions.find?_iff ..).mp found).1
          exact Owning.of_within (hosting_settle_renewal payer author) settled owned
        · exact ih (run_get_bind.mp ran)

theorem owning_housekeeping {L L' : Ledger} (ran : EStateM.run decent_housekeeping L = .ok () L') : Owning L L' := by
  simp only [decent_housekeeping,run_bind_ok] at ran
  obtain ⟨_,L₁,counters,_,_,got,_,L₂,lapsed,_,_,got₁,_,L₃,ended,_,_,got₂,renewed⟩ := ran
  cases got
  cases got₁
  cases got₂
  exact Composes.trans (Owning.of_within inferInstance counters) (Composes.trans (owning_expire_contents lapsed)
    (Composes.trans (owning_expire_buyings ended) (owning_renewals (run_get_bind.mp renewed))))

/-- An operation of the source that makes no one a miner but its payer, and credits only accounts that are there;
    the chain by itself makes no miners. -/
def owner_step (L : Ledger) : Action → Prop
  | .operation env op => ∀ op' L', Applies env op L op' L' → registers_payer op' ∧ credits_known op' L'
  | .settings change => Registers (fun _ => False) change
  | _ => True

theorem owning_perform {action : Action} {L L' : Ledger} (met : owner_step L action)
    (ran : EStateM.run (perform action) L = .ok () L') : Owning L L' := by
  cases action with
  | header timestamp => exact Within.ok (x := update_head timestamp) inferInstance ran
  | operation env op => exact owning_operation met ran
  | signing_miner miner => exact owning_miner ran
  | maintenance =>
    obtain ⟨_,-,ran⟩ := run_observe_bind.mp (run_get_bind.mp ran)
    exact related_maintenance owning_housekeeping ran
  | settings change =>
    obtain ⟨_,applied,ran⟩ := run_observe_bind.mp ran
    cases ran
    have met : Registers (fun _ => False) change := met
    exact Owned.settled met (fun _ impossible => nomatch impossible) applied

theorem owned_genesis (g : GenesisState) : Owned (init_genesis g) where
  balances {owner a b} found := by
    have found : (Table.empty.put (0,core) ⟨initial_share_supply,_,_⟩).find? (owner,a) = some b := found
    rw [Table.find?_put] at found
    split at found
    case isFalse => cases found
    case isTrue here =>
      cases here
      rfl
  vestings found := nomatch found
  contents found := nomatch found
  buyings found := nomatch found
  subscriptions _ member := nomatch member
  miners found := nomatch found

theorem Reached.owned {g : GenesisState} {L : Ledger} (reached : Reached g owner_step L) : Owned L :=
  reached.invariant (owned_genesis g) fun owned met ran => (owning_perform met ran owned).1

/-! ### Credits to no one -/

/-- A balance that is entered stays, and so do the accounts. -/
structure Holding (p : AccountId) (a : AssetId) (L L' : Ledger) : Prop where
  accounts : L'.accounts = L.accounts
  balance : (L.balances.find? (p,a)).isSome → (L'.balances.find? (p,a)).isSome

section
variable {p : AccountId} {a : AssetId}

instance : Composes (Holding p a) where
  refl _ := ⟨rfl,id⟩
  trans first second := ⟨second.accounts.trans first.accounts,second.balance ∘ first.balance⟩

instance : Pooling (Holding p a) where
  dynamic _ _ _ := ⟨rfl,id⟩

instance : Entering (Holding p a) where
  balance L k b := by
    refine ⟨rfl,fun here => ?_⟩
    show ((L.balances.put k b).find? (p,a)).isSome
    rw [Table.find?_put]
    split
    · rfl
    · exact here
  vestings _ _ := ⟨rfl,id⟩
  miners _ _ := ⟨rfl,id⟩

end

theorem credited_entered {p : AccountId} {x : Asset} {L L' : Ledger} {u : Unit} (positive : 0 < x.amount)
    (ran : EStateM.run (adjust_balance p x) L = .ok u L') : (L'.balances.find? (p,x.asset_id)).isSome := by
  obtain ⟨b,-,rfl⟩ := (adjust_balance_ok ran).resolve_left fun nothing => by omega
  show ((L.balances.put (p,x.asset_id) b).find? _).isSome
  rw [Table.find?_put_same]
  rfl

/-- Every balance and every vesting balance belongs to an account that is there. -/
structure Owns (L : Ledger) : Prop where
  balances : ∀ {owner a b}, L.balances.find? (owner,a) = some b → (L.accounts.find? owner).isSome
  vestings : ∀ {id v}, L.vestings.find? id = some v → (L.accounts.find? v.owner).isSome

theorem Owned.owns {L : Ledger} (owned : Owned L) : Owns L := ⟨owned.balances,owned.vestings⟩

/-- The account that an operation credits, in which asset, without looking for it. -/
def credited : Operation → Option (AccountId × AssetId)
  | .transfer2 ⟨_,_,.account p,amount⟩ => some (p,amount.asset_id)
  | .asset_issue o => some (o.issue_to_account,o.asset_to_issue.asset_id)
  | _ => none

theorem credits_known_iff {op : Operation} {L : Ledger} :
    credits_known op L ↔ ∀ k, credited op = some k → L.known k.1 := by
  cases op
  case transfer2 o =>
    obtain ⟨fee,payer,target,amount⟩ := o
    cases target <;> simp [credits_known,credited]
  case asset_issue o => simp [credits_known,credited]
  all_goals simp [credits_known,credited]

/-- Whoever is credited holds a balance afterwards, account or not. -/
theorem credited_holds {env : Env} {op : Operation} {L L' : Ledger} {p : AccountId} {a : AssetId} (credit : credited op = some (p,a))
    (ran : EStateM.run (apply_operation env op) L = .ok () L') :
    L'.accounts = L.accounts ∧ (L'.balances.find? (p,a)).isSome := by
  rw [apply_operation_eq] at ran
  obtain ⟨valid,L₁,L₂,L₃,fee,act,flow⟩ := evaluate_and_apply_ok.mp ran
  have evaluated := flow.evaluated
  simp only [evaluate,reads_bind] at evaluated
  obtain ⟨x,-,-,-,evaluated⟩ := evaluated
  have before : Holding p a L L₂ := Composes.trans (Within.ok inferInstance flow.converted) (Within.ok inferInstance flow.paid)
  have after : Holding p a L₃ L' := Within.ok inferInstance flow.charged
  have applied : L₃.accounts = L₂.accounts ∧ (L₃.balances.find? (p,a)).isSome := by
    have ran := flow.applied
    cases op <;> simp only [do_evaluate,reads_bind,reads_pure,Prod.mk.injEq] at evaluated
    case transfer2 o =>
      obtain ⟨_,-,-,rfl⟩ := evaluated
      obtain ⟨paid,payer,target,amount⟩ := o
      cases target with
      | content id => cases credit
      | account q =>
        cases credit
        obtain ⟨_,-,ran⟩ := run_observe_bind.mp ran
        obtain ⟨_,L₄,debited,ran⟩ := run_bind_ok.mp ran
        have debited : Holding p amount.asset_id L₂ L₄ := Within.ok inferInstance debited
        have given : Holding p amount.asset_id L₄ L₃ := Within.ok (x := adjust_balance p amount) inferInstance ran
        have positive : 0 < amount.amount := by
          simp only [Operation.validate,Bool.and_eq_true,decide_eq_true_eq] at valid
          exact valid.2
        exact ⟨given.accounts.trans debited.accounts,credited_entered positive ran⟩
    case asset_issue o =>
      obtain ⟨_,-,-,rfl⟩ := evaluated
      cases credit
      obtain ⟨_,L₄,given,ran⟩ := run_bind_ok.mp ran
      have holding : Holding o.issue_to_account o.asset_to_issue.asset_id L₂ L₄ := Within.ok inferInstance given
      have counted : Holding o.issue_to_account o.asset_to_issue.asset_id L₄ L₃ := Within.ok inferInstance ran
      have positive : 0 < o.asset_to_issue.amount := by
        simp only [Operation.validate,Bool.and_eq_true,decide_eq_true_eq] at valid
        exact valid.1.2
      exact ⟨counted.accounts.trans holding.accounts,counted.balance (credited_entered positive given)⟩
    all_goals cases credit
  exact ⟨after.accounts.trans (applied.1.trans before.accounts),after.balance applied.2⟩

/-- As long as transfers to accounts and issued assets go to accounts that are there, everything belongs to an
    account that is there; and one such operation that does not leaves a balance that belongs to no one. -/
theorem balances_owned (g : GenesisState) (L : Ledger) (reached : Reached g owner_step L) : Owns L ∧
    ∀ env op L', (∀ payer fee ops, op ≠ .proposal_update payer fee ops) → registers_payer op →
      EStateM.run (apply_operation env op) L = .ok () L' → (Owns L' ↔ credits_known op L) := by
  refine ⟨reached.owned.owns,fun env op L' alone registers ran => ⟨fun owns => ?_,fun known => ?_⟩⟩
  · refine credits_known_iff.mpr fun k credit => ?_
    obtain ⟨accounts,entered⟩ := credited_holds credit ran
    obtain ⟨b,entered⟩ := Option.isSome_iff_exists.mp entered
    have there := owns.balances entered
    rwa [accounts] at there
  · refine ((owning_operation (fun op' L₁ applies => ?_) ran) reached.owned).1.owns
    obtain ⟨rfl,rfl⟩ := applies.alone alone
    exact ⟨registers,known⟩

theorem owner_step_operation {env : Env} {op : Operation} {L : Ledger} (alone : ∀ payer fee ops, op ≠ .proposal_update payer fee ops)
    (registers : registers_payer op) (known : credits_known op L) : owner_step L (.operation env op) := by
  intro op' L' applies
  obtain ⟨rfl,rfl⟩ := applies.alone alone
  exact ⟨registers,known⟩

/-- Account 4 has some core and becomes a miner who is paid for a block. -/
def paid_miner : List Action := [new_account default_account.options,new_account default_account.options,
  grant 4 ⟨10,core⟩,.operation free_env (MinerCreateOperation.mk ⟨0,core⟩ 4).operation,
  .header 1530000005,.signing_miner 0]

/-- Account 4 sends some of it on. -/
def send_on (to_account : AccountId) : Operation := .transfer2 ⟨⟨0,core⟩,4,.account to_account,⟨3,core⟩⟩

/-- Sent to an account that is there, and to one that is not. -/
theorem balances_owned_paid_miner : ∃ L L' L'', Owns L ∧ Owns L' ∧ ¬ Owns L'' ∧
    EStateM.run (apply_operation free_env (send_on 5)) L = .ok () L' ∧
    EStateM.run (apply_operation free_env (send_on 9)) L = .ok () L'' := by
  let L := after_actions paid_miner
  have reached : Reached small_genesis owner_step L := by
    refine reached_after_allowed ⟨?_,?_,?_,?_,?_,?_⟩ (by decide +kernel)
    · exact fun _ => owner_step_operation (fun _ _ _ => by simp) trivial trivial
    · exact fun _ => owner_step_operation (fun _ _ _ => by simp) trivial trivial
    · exact fun _ => owner_step_operation (fun _ _ _ => by simp) trivial trivial
    · exact fun _ => owner_step_operation (fun _ _ _ => by simp [MinerCreateOperation.operation]) (registers_miner_create _) trivial
    · exact fun _ => trivial
    · exact fun _ => trivial
  obtain ⟨owns,kept⟩ := balances_owned small_genesis L reached
  have sent : ∀ p ∈ [5,9], EStateM.run (apply_operation free_env (send_on p)) L =
      .ok () (endState (EStateM.run (apply_operation free_env (send_on p)) L)) :=
    List.forall_mem_cons.mpr ⟨run_of_returned (by decide +kernel),List.forall_mem_cons.mpr
      ⟨run_of_returned (by decide +kernel),nofun⟩⟩
  have known (p : AccountId) : credits_known (send_on p) L ↔ L.known p := by simp [credits_known,send_on]
  refine ⟨L,_,_,owns,?_,?_,sent 5 (by simp),sent 9 (by simp)⟩
  · refine (kept free_env (send_on 5) _ (fun _ _ _ => by simp [send_on]) trivial (sent 5 (by simp))).mpr ((known 5).mpr ?_)
    decide +kernel
  · intro owns'
    have there := (known 9).mp ((kept free_env (send_on 9) _ (fun _ _ _ => by simp [send_on]) trivial (sent 9 (by simp))).mp owns')
    exact absurd there (by decide +kernel)

/-- An asset of account 4. -/
def own_asset : AssetCreateOperation where
  fee := ⟨0,core⟩
  issuer := 4
  symbol := "OWN"
  precision := 4
  options := ⟨1000,⟨⟨1,core⟩,⟨1,2⟩⟩,false,some false⟩
  monitored_asset_opts := none

/-- Core is sent, and another asset issued, to account 9, which no one has created. -/
theorem balances_ownerless :
    (∃ L L', Reached small_genesis source_step L ∧
      EStateM.run (apply_operation free_env (send_on 9)) L = .ok () L' ∧ ¬ Owns L') ∧
    ∃ L L', Reached small_genesis source_step L ∧
      EStateM.run (apply_operation free_env (.asset_issue ⟨⟨0,core⟩,4,⟨5,2⟩,9⟩)) L = .ok () L' ∧ ¬ Owns L' := by
  let L := after_actions [new_account default_account.options,grant 4 ⟨10,core⟩,.operation free_env (.asset_create own_asset)]
  have reached : Reached small_genesis source_step L :=
    reached_after_actions ⟨trivial,trivial,trivial⟩ (by decide +kernel)
  have unknown : ¬ L.known 9 := by decide +kernel
  have ownerless (op : Operation) {a : AssetId} (credit : credited op = some (9,a))
      (returned : Throwing.returned (EStateM.run (apply_operation free_env op) L) = true) :
      ∃ L', EStateM.run (apply_operation free_env op) L = .ok () L' ∧ ¬ Owns L' := by
    refine ⟨_,run_of_returned returned,fun owns => unknown ?_⟩
    obtain ⟨accounts,entered⟩ := credited_holds credit (run_of_returned returned)
    obtain ⟨b,entered⟩ := Option.isSome_iff_exists.mp entered
    have there := owns.balances entered
    rwa [accounts] at there
  obtain ⟨L₁,sent,first⟩ := ownerless (send_on 9) rfl (by decide +kernel)
  obtain ⟨L₂,issued,second⟩ := ownerless (.asset_issue ⟨⟨0,core⟩,4,⟨5,2⟩,9⟩) rfl (by decide +kernel)
  exact ⟨⟨L,L₁,reached,sent,first⟩,⟨L,L₂,reached,issued,second⟩⟩

end Decent.Money

import Decent.Escrow

/-!
The terms that money moves by: which assets are monitored, in which asset the publishing
escrows are, and at what price subscriptions renew. Few operations touch them, and each
checks what it sets.
-/
namespace Decent.Money
open Throwing

/-! ### What leaves the terms -/

/-- The assets are still there, and each is monitored as before. -/
def Watched (L L' : Ledger) : Prop := ∀ ⦃a ao⦄, L.assets.find? a = some ao →
  ∃ ao', L'.assets.find? a = some ao' ∧ ao'.is_monitored_asset = ao.is_monitored_asset

theorem Watched.of_eq {L L' : Ledger} (assets : L'.assets = L.assets) : Watched L L' := by
  intro a ao found
  exact ⟨ao,by rw [assets,found],rfl⟩

theorem Watched.of_map {L L' : Ledger} (same : ∀ a, (L'.assets.find? a).map AssetObject.is_monitored_asset =
    (L.assets.find? a).map AssetObject.is_monitored_asset) : Watched L L' := by
  intro a ao found
  have same := same a
  rw [found] at same
  exact Option.map_eq_some_iff.mp same

instance watched_composes : Composes Watched where
  refl _ := .of_eq rfl
  trans first second a ao found := by
    obtain ⟨ao₁,found₁,same₁⟩ := first found
    obtain ⟨ao₂,found₂,same₂⟩ := second found₁
    exact ⟨ao₂,found₂,same₂.trans same₁⟩

instance : Trading Watched where
  statistics _ _ := .of_eq rfl
  reset _ _ _ := .of_eq rfl
  publishing _ _ := .of_eq rfl
  seeders _ _ := .of_eq rfl
  permissions _ _ := .of_eq rfl
  subscription _ _ _ _ := .of_eq rfl
  content _ _ _ _ := .of_eq rfl
  applied _ _ _ := .of_eq rfl
  dynamic L id _ := .of_map fun a => Index.map_find?_update L.assets id a fun _ => rfl
  balances _ _ := .of_eq rfl
  vestings _ _ := .of_eq rfl
  miners _ _ := .of_eq rfl
  buyings _ _ := .of_eq rfl
  payments _ _ := .of_eq rfl

instance : Governing Watched where
  rewards _ _ _ := .of_eq rfl
  settled settled := .of_map fun a => by
    have kept := congrArg (Option.map Prod.snd) (Table.map_find?_of_rows
      (g := fun ao : AssetObject => (ao.dynamic,ao.is_monitored_asset)) settled.asset_rows a)
    simp only [Option.map_map,Function.comp_def] at kept
    exact kept

/-- Accounts are as they were; no one is newly subscribed to; an asset is monitored as before,
    and an escrow is in the asset it was in. -/
structure Apart (L L' : Ledger) : Prop where
  accounts : L'.accounts = L.accounts
  subscriptions : ∀ s' ∈ L'.subscriptions.order, ∃ s ∈ L.subscriptions.order, s.to_account = s'.to_account
  watched : Watched L L'
  escrows : ∀ {id c'}, L'.contents.find? id = some c' → ∃ c, L.contents.find? id = some c ∧
    c.publishing_fee_escrow.asset_id = c'.publishing_fee_escrow.asset_id

theorem Apart.of_eq {L L' : Ledger} (accounts : L'.accounts = L.accounts) (subscriptions : L'.subscriptions = L.subscriptions)
    (assets : L'.assets = L.assets) (contents : L'.contents = L.contents) : Apart L L' where
  accounts := accounts
  subscriptions := by rw [subscriptions]; exact fun s member => ⟨s,member,rfl⟩
  watched := .of_eq assets
  escrows := by rw [contents]; exact fun found => ⟨_,found,rfl⟩

instance apart_composes : Composes Apart where
  refl _ := .of_eq rfl rfl rfl rfl
  trans first second := {
    accounts := second.accounts.trans first.accounts
    subscriptions := by
      intro s₂ member
      obtain ⟨s₁,member₁,same₁⟩ := second.subscriptions s₂ member
      obtain ⟨s,member,same⟩ := first.subscriptions s₁ member₁
      exact ⟨s,member,same.trans same₁⟩
    watched := watched_composes.trans first.watched second.watched
    escrows := by
      intro id c₂ found
      obtain ⟨c₁,found₁,same₁⟩ := second.escrows found
      obtain ⟨c,found,same⟩ := first.escrows found₁
      exact ⟨c,found,same.trans same₁⟩ }

theorem apart_modify_content {id : Nat} {f : Content → Content}
    (same : ∀ c, (f c).publishing_fee_escrow.asset_id = c.publishing_fee_escrow.asset_id) :
    Within Apart (modify_content id f) := by
  refine .modify fun L => { @Apart.of_eq L L rfl rfl rfl rfl with escrows := fun {k c'} found => ?_ }
  have kept := Index.map_find?_update L.contents id k (g := fun c => c.publishing_fee_escrow.asset_id) same
  have found : (L.contents.update id f).find? k = some c' := found
  rw [found] at kept
  obtain ⟨c,before,here⟩ := Option.map_eq_some_iff.mp kept.symm
  exact ⟨c,before,here⟩

instance : Bookkeeping Apart where
  statistics _ _ := .of_eq rfl rfl rfl rfl
  reset _ _ _ := .of_eq rfl rfl rfl rfl
  publishing _ _ := .of_eq rfl rfl rfl rfl
  seeders _ _ := .of_eq rfl rfl rfl rfl
  permissions _ _ := .of_eq rfl rfl rfl rfl
  subscription L id f same := by
    refine { @Apart.of_eq L L rfl rfl rfl rfl with subscriptions := fun u member => ?_ }
    rcases Subscriptions.mem_modify member with inside | ⟨s,inside,_,rfl⟩
    · exact ⟨u,inside,rfl⟩
    · exact ⟨s,inside,(same s).2.symm⟩
  content L _ _ incidental := (apart_modify_content fun c => by rw [incidental.publishing_fee_escrow]).keeps L
  applied _ _ _ := .of_eq rfl rfl rfl rfl

instance : Paying Apart where
  dynamic L id d := { @Apart.of_eq L L rfl rfl rfl rfl with watched := Pooling.dynamic L id d }
  balances _ _ := .of_eq rfl rfl rfl rfl
  vestings _ _ := .of_eq rfl rfl rfl rfl
  miners _ _ := .of_eq rfl rfl rfl rfl

instance : Trading Apart where
  buyings _ _ := .of_eq rfl rfl rfl rfl
  payments _ _ := .of_eq rfl rfl rfl rfl

instance : Governing Apart where
  rewards _ _ _ := .of_eq rfl rfl rfl rfl
  settled {L L'} settled := by
    refine ⟨settled.accounts,?_,Governing.settled settled,?_⟩
    · rw [settled.subscriptions]
      exact fun s member => ⟨s,member,rfl⟩
    · rw [settled.contents]
      exact fun found => ⟨_,found,rfl⟩

instance (o : AssetCreateOperation) (core_fee_paid : Int) : Within Apart (asset_create_apply o core_fee_paid) := by
  refine .modify fun L => { @Apart.of_eq L L rfl rfl rfl rfl with watched := fun a ao found => ⟨ao,?_,rfl⟩ }
  show (L.assets.create _).find? a = some ao
  rw [Index.find?_create,if_neg (Nat.ne_of_lt (L.assets.below a ao found)),found]

instance (o : ContentCancellationOperation) : Within Apart (content_cancellation_apply o) := by
  unfold content_cancellation_apply
  exact .andThen fun _ => .andThen fun _ => apart_modify_content fun _ => rfl

instance (id : Nat) (content : Content) : Within Apart (content_expire id content) := by
  have emptied : Within Apart (modify_content id fun co =>
      { co with publishing_fee_escrow := { co.publishing_fee_escrow with amount := 0 } }) := apart_modify_content fun _ => rfl
  have pushed : Within Apart (push_applied_operation
      (.return_escrow_submission content.author content.publishing_fee_escrow id)) := .modify fun _ => .of_eq rfl rfl rfl rfl
  unfold content_expire
  infer_instance

instance (ids : List Nat) : Within Apart (expire_contents ids) := by
  induction ids with
  | nil => exact inferInstanceAs (Within Apart (pure ()))
  | cons id rest ih =>
    unfold expire_contents
    refine .andThen fun L => ?_
    split <;> infer_instance

/-- The statistics after a first proof. -/
def first_proof (content : Content) (so : SeedingStatistics) : SeedingStatistics :=
  { so with
    total_content_seeded := so.total_content_seeded + content.seeded_size
    num_of_content_seeded := so.num_of_content_seeded + 1
    total_content_requested_to_seed :=
      if 0 < so.total_content_requested_to_seed then so.total_content_requested_to_seed - 1
      else so.total_content_requested_to_seed }

def Ledger.with_content (L : Ledger) (id : Nat) (f : Content → Content) : Ledger :=
  { L with contents := L.contents.update id f }

/-- A content after a first proof. -/
def proved_content (seeder : AccountId) (now : Nat) (co : Content) : Content :=
  { co with last_proof := co.last_proof.put seeder now }

/-- A content after a proof that is rewarded. -/
def rewarded_content (seeder : AccountId) (now : Nat) (escrow : Asset) (co : Content) : Content :=
  { co with last_proof := co.last_proof.put seeder now, publishing_fee_escrow := escrow }

/-- A proof that was accepted: the seeder's first one is only noted, a later one is rewarded out
    of the escrow. -/
inductive Proved (o : ProofOfCustodyOperation) (L L' : Ledger) : Prop
  | first (id : Nat) (content : Content) (read : get_content o.URI L = .ok (id,content))
      (registered : (L.seeders.find? o.seeder).isSome) (found : L.contents.find? id = some content)
      (new : content.last_proof.find? o.seeder = none) (parts : content.key_parts.rows.length ≠ 0)
      (counted : EStateM.run (modify_statistics o.seeder (first_proof content))
        (L.with_content id (proved_content o.seeder L.properties.time)) = .ok () L')
  | again (id : Nat) (content : Content) (reward : Int) (L₁ L₂ : Ledger) (read : get_content o.URI L = .ok (id,content))
      (registered : (L.seeders.find? o.seeder).isSome)
      (counted : EStateM.run (modify_statistics o.seeder fun so => { so with num_of_pors := so.num_of_pors + 1 }) L =
        .ok () L₁)
      (found : L₁.contents.find? id = some content) (old : (content.last_proof.find? o.seeder).isSome)
      (inCore : content.publishing_fee_escrow.asset_id = core)
      (capped : block_halt_fix < L.properties.head_block_number → reward ≤ max 0 content.publishing_fee_escrow.amount)
      (rewarded : EStateM.run (adjust_balance o.seeder ⟨reward,core⟩) (L₁.with_content id
        (rewarded_content o.seeder L.properties.time ⟨content.publishing_fee_escrow.amount - reward,core⟩)) = .ok () L₂)
      (noted : L' = { L₂ with
        publishing := .reward id o.seeder ⟨reward,core⟩ L.properties.head_block_number :: L₂.publishing
        applied := .pay_seeder content.author o.seeder ⟨reward,core⟩ :: L₂.applied })

/-- Since the halt of the chain a reward is bounded by what is left in the escrow. -/
theorem reward_amount_capped {o : ProofOfCustodyOperation} {L : Ledger} {seeder : Seeder} {content : Content} {ratio : Nat}
    {reward : Int} (late : block_halt_fix < L.properties.head_block_number)
    (computed : proof_of_custody_apply.reward_amount o L seeder content ratio = .ok reward) :
    reward ≤ max 0 content.publishing_fee_escrow.amount := by
  rw [proof_of_custody_apply.reward_amount,if_pos late] at computed
  split at computed
  · cases computed
  · obtain ⟨x,-,computed⟩ := bind_ok.mp computed
    obtain rfl := pure_ok.mp computed
    split <;> omega

theorem proof_of_custody_ok {o : ProofOfCustodyOperation} {L L' : Ledger} {u : Unit}
    (ran : EStateM.run (proof_of_custody_apply o) L = .ok u L') : Proved o L L' := by
  obtain ⟨⟨id,content⟩,read,ran⟩ := run_observe_bind.mp ran
  obtain ⟨found,-⟩ := get_content_ok read
  rw [run_get_bind] at ran
  dsimp only at ran
  split at ran
  · cases ran
  case h_2 seeder known =>
    have registered : (L.seeders.find? o.seeder).isSome := by rw [known]; rfl
    split at ran
    case h_1 new =>
      obtain ⟨_,_,noted,ran⟩ := run_bind_ok.mp ran
      cases noted
      split at ran
      case isTrue => cases ran
      case isFalse parts => exact .first id content read registered found new parts ran
    case h_2 last_proof old =>
      obtain ⟨_,L₁,counted,ran⟩ := run_bind_ok.mp ran
      have found : L₁.contents.find? id = some content := by rw [modify_statistics_frame counted]; exact found
      simp only [run_observe_bind,reads_lift,Asset.sub_ok] at ran
      obtain ⟨reward,computed,_,⟨inCore,-,rfl⟩,ran⟩ := ran
      obtain ⟨_,_,spent,ran⟩ := run_bind_ok.mp ran
      cases spent
      obtain ⟨_,L₂,rewarded,ran⟩ := run_bind_ok.mp ran
      obtain ⟨_,_,noted,pushed⟩ := run_bind_ok.mp ran
      cases noted
      cases pushed
      rw [inCore] at rewarded
      exact .again id content reward L₁ L₂ read registered counted found (by rw [old]; rfl) inCore
        (fun late => reward_amount_capped late computed) rewarded rfl

theorem apart_proof_of_custody {o : ProofOfCustodyOperation} {L L' : Ledger} {u : Unit}
    (ran : EStateM.run (proof_of_custody_apply o) L = .ok u L') : Apart L L' := by
  cases proof_of_custody_ok ran with
  | first id content _ _ found new parts counted =>
    have noted : Within Apart (modify_content id (proved_content o.seeder L.properties.time)) :=
      apart_modify_content fun _ => rfl
    exact apart_composes.trans (noted.keeps L) (Within.ok inferInstance counted)
  | again id content reward L₁ L₂ _ _ counted found old inCore capped rewarded noted =>
    have spent : Apart L₁ (L₁.with_content id
        (rewarded_content o.seeder L.properties.time ⟨content.publishing_fee_escrow.amount - reward,core⟩)) := by
      refine { @Apart.of_eq L₁ L₁ rfl rfl rfl rfl with escrows := fun {k c'} found' => ?_ }
      have found' : (L₁.contents.update id _).find? k = some c' := found'
      rw [Index.find?_update] at found'
      split at found'
      case isTrue here =>
        rw [found] at found'
        cases found'
        exact ⟨content,here ▸ found,inCore⟩
      case isFalse => exact ⟨c',found',rfl⟩
    have last : Apart L₂ L' := noted ▸ .of_eq rfl rfl rfl rfl
    exact apart_composes.trans (Within.ok inferInstance counted)
      (apart_composes.trans spent (apart_composes.trans (Within.ok inferInstance rewarded) last))

/-- A content whose escrow was returned. -/
def emptied_content (co : Content) : Content :=
  { co with publishing_fee_escrow := { co.publishing_fee_escrow with amount := 0 } }

/-- The end of a publishing escrow, state by state. -/
theorem content_expire_ok {id : Nat} {content : Content} {L L' : Ledger} {u : Unit}
    (ran : EStateM.run (content_expire id content) L = .ok u L') :
    ∃ account L₁ L₂, account = (if 0 ≤ content.publishing_fee_escrow.amount then content.author else decent6) ∧
      EStateM.run (adjust_balance account content.publishing_fee_escrow) L = .ok () L₁ ∧
      EStateM.run (forget_seeders content (content.key_parts.rows.map Prod.fst))
        ({ L₁ with publishing := .refund id account content.publishing_fee_escrow :: L₁.publishing }.with_content id
          emptied_content) = .ok () L₂ ∧
      L' = { L₂ with applied := .return_escrow_submission content.author content.publishing_fee_escrow id :: L₂.applied } := by
  simp only [content_expire,run_bind_ok] at ran
  obtain ⟨_,L₁,paid,_,_,noted,_,_,emptied,_,L₂,forgotten,last⟩ := ran
  cases noted
  cases emptied
  cases last
  exact ⟨_,L₁,L₂,rfl,paid,forgotten,rfl⟩

/-! ### What the operations check -/

/-- The price of an account's subscriptions does not take money from the author: it is not
    negative, or it is in core or at the rate of a feed. -/
def payable_terms (L : Ledger) (options : AccountOptions) : Prop :=
  0 ≤ options.price_per_subscribe.amount ∨ options.price_per_subscribe.asset_id = core ∨
    ∃ ao, L.assets.find? options.price_per_subscribe.asset_id = some ao ∧ ao.is_monitored_asset = true

/-- Options are valid, subscriptions are to accounts with such terms, and publishing escrows are
    in core. -/
structure Terms (L : Ledger) : Prop where
  options : ∀ {id account}, L.accounts.find? id = some account → account.options.validate = true
  subscriptions : ∀ s ∈ L.subscriptions.order, ∃ author, L.accounts.find? s.to_account = some author ∧
    payable_terms L author.options
  escrows : ∀ {id c}, L.contents.find? id = some c → c.publishing_fee_escrow.asset_id = core

theorem payable_terms_apart {L L' : Ledger} {options : AccountOptions} (apart : Apart L L')
    (payable : payable_terms L options) : payable_terms L' options := by
  rcases payable with nonneg | inCore | ⟨ao,found,monitored⟩
  · exact .inl nonneg
  · exact .inr (.inl inCore)
  · obtain ⟨ao',found',same⟩ := apart.watched found
    exact .inr (.inr ⟨ao',found',same.trans monitored⟩)

theorem Terms.apart {L L' : Ledger} (apart : Apart L L') (terms : Terms L) : Terms L' where
  options := by
    rw [apart.accounts]
    exact terms.options
  subscriptions := by
    intro s' member
    obtain ⟨s,before,same⟩ := apart.subscriptions s' member
    obtain ⟨author,found,payable⟩ := terms.subscriptions s before
    exact ⟨author,by rw [apart.accounts,← same]; exact found,payable_terms_apart apart payable⟩
  escrows := by
    intro id c' found
    obtain ⟨c,before,same⟩ := apart.escrows found
    rw [← same]
    exact terms.escrows before

/-- An account that can be subscribed to asks for something. -/
theorem Terms.allowed {L : Ledger} {id : AccountId} {account : Account} (terms : Terms L)
    (found : L.accounts.find? id = some account) (allowed : account.options.allow_subscription = true) :
    payable_terms L account.options := by
  have valid := terms.options found
  simp only [AccountOptions.validate,allowed,Bool.not_true,Bool.false_or,Bool.and_eq_true,decide_eq_true_eq] at valid
  exact .inl (Int.le_of_lt valid.2)

theorem get_account_ok {id : AccountId} {a : Account} {L : Ledger} :
    get_account id L = .ok a ↔ L.accounts.find? id = some a := by
  rw [get_account,reads_read]
  cases L.accounts.find? id with
  | none => simp [throw,throwThe,MonadExceptOf.throw]
  | some b => simp [pure,ReaderT.pure,Except.pure]

theorem mem_create {t : Subscriptions} {s u : Subscription} (member : u ∈ (t.create s).order) :
    u = { s with id := t.next } ∨ u ∈ t.order :=
  List.mem_cons.mp ((upper_insert_perm _ t.order).mem_iff.mp member)

theorem Terms.extend {L L' : Ledger} {from_account to_account : AccountId} {author : Account} {u : Unit} (terms : Terms L)
    (found : L.accounts.find? to_account = some author) (allowed : author.options.allow_subscription = true)
    (ran : EStateM.run (extend_subscription from_account to_account) L = .ok u L') : Terms L' := by
  obtain ⟨_,-,ran⟩ := run_observe_bind.mp (run_get_bind.mp ran)
  dsimp only at ran
  split at ran
  · refine terms.apart (Within.ok ?_ ran)
    exact within_modify_subscription fun _ => ⟨rfl,rfl⟩
  · cases ran
    refine { terms with subscriptions := ?_ }
    intro s member
    rcases mem_create member with rfl | before
    · exact ⟨author,found,terms.allowed found allowed⟩
    · exact terms.subscriptions s before

theorem terms_subscribe {o : SubscribeOperation} {L₀ L L' : Ledger} (evaluated : subscribe_evaluate o L₀ = .ok ())
    (apart : Apart L₀ L) (terms : Terms L) (ran : EStateM.run (subscribe_apply o) L = .ok () L') : Terms L' := by
  simp only [subscribe_evaluate,reads_bind,get_account_ok,reads_lift,fc_assert_ok] at evaluated
  obtain ⟨_,-,author,found,_,-,_,-,_,allowed,-⟩ := evaluated
  obtain ⟨_,L₁,extended,ran⟩ := run_bind_ok.mp ran
  exact (terms.extend (by rw [apart.accounts]; exact found) allowed extended).apart (Within.ok inferInstance ran)

theorem terms_subscribe_by_author {o : SubscribeByAuthorOperation} {L₀ L L' : Ledger}
    (evaluated : subscribe_by_author_evaluate o L₀ = .ok ()) (apart : Apart L₀ L) (terms : Terms L)
    (ran : EStateM.run (subscribe_by_author_apply o) L = .ok () L') : Terms L' := by
  simp only [subscribe_by_author_evaluate,reads_bind,get_account_ok,reads_lift,fc_assert_ok] at evaluated
  obtain ⟨_,-,author,found,allowed⟩ := evaluated
  exact terms.extend (by rw [apart.accounts]; exact found) allowed ran

theorem terms_account_create {o : AccountCreateOperation} {L L' : Ledger} (valid : o.options.validate = true)
    (terms : Terms L) (ran : EStateM.run (account_create_apply o) L = .ok () L') : Terms L' := by
  cases ran
  refine { terms with options := ?_, subscriptions := ?_ }
  · intro id account found
    have found : (L.accounts.create ⟨o.options⟩).find? id = some account := found
    rw [Index.find?_create] at found
    split at found
    · cases found
      exact valid
    · exact terms.options found
  · intro s member
    obtain ⟨author,found,payable⟩ := terms.subscriptions s member
    refine ⟨author,?_,payable⟩
    show (L.accounts.create ⟨o.options⟩).find? s.to_account = some author
    rw [Index.find?_create,if_neg (Nat.ne_of_lt (L.accounts.below _ _ found)),found]

theorem terms_account_update {o : AccountUpdateOperation} {L₀ L L' : Ledger}
    (valid : o.new_options.all AccountOptions.validate = true) (evaluated : account_update_evaluate o L₀ = .ok ())
    (apart : Apart L₀ L) (terms : Terms L) (ran : EStateM.run (account_update_apply o) L = .ok () L') : Terms L' := by
  unfold account_update_apply at ran
  unfold account_update_evaluate at evaluated
  cases updated : o.new_options with
  | none =>
    rw [updated] at ran
    cases ran
    exact terms
  | some options =>
    rw [updated] at ran evaluated valid
    simp only [reads_bind,get_asset_ok,reads_lift,fc_assert_ok] at evaluated
    obtain ⟨_,-,ao,found,priced⟩ := evaluated
    have payable {L' : Ledger} (apart : Apart L₀ L') : payable_terms L' options := by
      refine payable_terms_apart apart ?_
      rcases priced with inCore | monitored
      · exact .inr (.inl inCore)
      · exact .inr (.inr ⟨ao,found,monitored⟩)
    have stored {L₁ L' : Ledger} (terms : Terms L₁) (apart : Apart L₀ L₁) (stored : EStateM.run (modify fun L : Ledger =>
        { L with accounts := L.accounts.update o.account fun a => { a with options := options } } : M Unit) L₁ =
        .ok () L') : Terms L' := by
      cases stored
      have here (id : AccountId) (account : Account) (found : L₁.accounts.find? id = some account) :
          (L₁.accounts.update o.account fun a => { a with options := options }).find? id =
            some (if id = o.account then ⟨options⟩ else account) := by
        rw [Index.find?_update]
        by_cases same : id = o.account
        · rw [if_pos same,if_pos same,← same,found]
          rfl
        · rw [if_neg same,if_neg same,found]
      refine { terms with options := ?_, subscriptions := ?_ }
      · intro id account found
        have found : (L₁.accounts.update o.account fun a => { a with options := options }).find? id = some account := found
        rw [Index.find?_update] at found
        split at found
        · obtain ⟨old,-,rfl⟩ := Option.map_eq_some_iff.mp found
          exact valid
        · exact terms.options found
      · intro s member
        obtain ⟨author,found,payable'⟩ := terms.subscriptions s member
        refine ⟨_,here s.to_account author found,?_⟩
        have payable := payable apart
        split
        · exact payable
        · exact payable'
    obtain ⟨account,-,ran⟩ := run_observe_bind.mp ran
    split at ran
    · obtain ⟨_,L₁,disallowed,ran⟩ := run_bind_ok.mp (run_get_bind.mp ran)
      have quiet : Apart L L₁ := Within.ok inferInstance disallowed
      exact stored (terms.apart quiet) (apart_composes.trans apart quiet) ran
    · exact stored terms apart ran

theorem terms_content_submit {env : Env} {o : ContentSubmitOperation} {content : Option Nat} {L₀ L L' : Ledger}
    (evaluated : content_submit_evaluate env o L₀ = .ok content) (terms : Terms L)
    (ran : EStateM.run (content_submit_apply o content) L = .ok () L') : Terms L' := by
  cases content with
  | some id =>
    have again : Within Apart (modify_content id fun co =>
        { co with price := set_prices co.price o.price, co_authors := o.co_authors }) := apart_modify_content fun _ => rfl
    exact terms.apart (again.ok ran)
  | none =>
    obtain ⟨now,-,ran⟩ := run_observe_bind.mp ran
    obtain ⟨_,_,created,ran⟩ := run_bind_ok.mp (run_get_bind.mp ran)
    cases created
    have entered : Terms { L with contents := L.contents.create (new_content o now) } := by
      refine { terms with escrows := ?_ }
      intro id c found
      have found : (L.contents.create (new_content o now)).find? id = some c := found
      rw [Index.find?_create] at found
      split at found
      · cases found
        exact (content_submit_evaluate_ok evaluated).2.2.1
      · exact terms.escrows found
    obtain ⟨negated,-,ran⟩ := run_observe_bind.mp ran
    exact entered.apart (Within.ok inferInstance ran)

/-! ### Which assets are monitored -/

theorem watched_modify_content (id : Nat) (f : Content → Content) : Within Watched (modify_content id f) :=
  .modify fun _ => .of_eq rfl

instance (o : AssetCreateOperation) (core_fee_paid : Int) : Within Watched (asset_create_apply o core_fee_paid) where
  keeps L := (Within.keeps (P := Apart) (x := asset_create_apply o core_fee_paid) L).watched

instance (o : ContentCancellationOperation) : Within Watched (content_cancellation_apply o) where
  keeps L := (Within.keeps (P := Apart) (x := content_cancellation_apply o) L).watched

instance (o : ContentSubmitOperation) (content : Option Nat) : Within Watched (content_submit_apply o content) := by
  cases content with
  | some id => exact watched_modify_content id _
  | none =>
    have created (c : Content) : Within Watched (modify fun L : Ledger =>
        { L with contents := L.contents.create c } : M Unit) := .modify fun _ => .of_eq rfl
    unfold content_submit_apply
    refine .andThen fun now => .andThen fun L => .andThen fun _ => .andThen fun negated => .andThen fun _ => ?_
    infer_instance

instance (from_account to_account : AccountId) : Within Watched (extend_subscription from_account to_account) := by
  have created (s : Subscription) : Within Watched (modify fun L : Ledger =>
      { L with subscriptions := L.subscriptions.create s } : M Unit) := .modify fun _ => .of_eq rfl
  unfold extend_subscription
  refine .andThen fun L => .andThen fun author => ?_
  dsimp only
  split
  · exact within_modify_subscription fun _ => ⟨rfl,rfl⟩
  · infer_instance

instance (o : SubscribeOperation) : Within Watched (subscribe_apply o) := by
  unfold subscribe_apply
  infer_instance

instance (o : SubscribeByAuthorOperation) : Within Watched (subscribe_by_author_apply o) :=
  inferInstanceAs (Within Watched (extend_subscription o.from_account o.to_account))

instance (o : AccountCreateOperation) : Within Watched (account_create_apply o) := .modify fun _ => .of_eq rfl

instance (o : AccountUpdateOperation) : Within Watched (account_update_apply o) := by
  have stored (options : AccountOptions) : Within Watched (modify fun L : Ledger =>
      { L with accounts := L.accounts.update o.account fun a => { a with options := options } } : M Unit) :=
    .modify fun _ => .of_eq rfl
  unfold account_update_apply
  split <;> infer_instance

/-- Before an operation is applied only pools have changed. -/
theorem FeeFlow.prepared {R : Ledger → Ledger → Prop} [Composes R] [∀ fee x, Within R (convert_fee fee x)]
    [∀ x, Within R (pay_fee x)] {env : Env} {executed : M Unit} {op : Operation} {L L₁ L₂ L₃ L₄ : Ledger} {fee : Int}
    {act : M Unit} (flow : FeeFlow env executed op L L₁ L₂ L₃ L₄ fee act) : R L L₂ :=
  Composes.trans (Within.ok inferInstance flow.converted) (Within.ok inferInstance flow.paid)

/-- Once an asset is monitored, it always is. -/
theorem watched_evaluate_and_apply (env : Env) {executed : M Unit} {L₀ : Ledger} (inside : Preserves (Watched L₀) executed)
    (op : Operation) : Preserves (Watched L₀) (evaluate_and_apply env executed op) := by
  intro L L₄ u watched ran
  obtain ⟨-,L₁,L₂,L₃,fee,act,flow⟩ := evaluate_and_apply_ok.mp ran
  have watched₂ := watched_composes.trans watched flow.prepared
  refine watched_composes.trans ?_ (Within.ok inferInstance flow.charged)
  have applied := flow.applied
  have evaluated := flow.evaluated
  simp only [evaluate,reads_bind] at evaluated
  obtain ⟨_,-,-,-,evaluated⟩ := evaluated
  cases op <;> simp only [do_evaluate,reads_bind,reads_pure,Prod.mk.injEq] at evaluated
  case proposal_update payer fee ops =>
    obtain ⟨-,rfl⟩ := evaluated
    exact inside watched₂ applied
  case proof_of_custody o =>
    obtain ⟨_,-,-,rfl⟩ := evaluated
    exact watched_composes.trans watched₂ (apart_proof_of_custody applied).watched
  case other =>
    obtain ⟨-,rfl⟩ := evaluated
    exact watched_composes.trans watched₂ (Within.ok inferInstance applied)
  all_goals
    obtain ⟨_,-,-,rfl⟩ := evaluated
    exact watched_composes.trans watched₂ (Within.ok inferInstance applied)

/-! ### Every run -/

theorem terms_evaluate_and_apply (env : Env) {executed : M Unit} (inside : Preserves Terms executed) (op : Operation) :
    Preserves Terms (evaluate_and_apply env executed op) := by
  intro L L₄ u terms ran
  obtain ⟨valid,L₁,L₂,L₃,fee,act,flow⟩ := evaluate_and_apply_ok.mp ran
  have prepared : Apart L L₂ := flow.prepared
  have terms₂ := terms.apart prepared
  have charged : Apart L₃ L₄ := Within.ok inferInstance flow.charged
  refine Terms.apart charged ?_
  have applied := flow.applied
  have evaluated := flow.evaluated
  simp only [evaluate,reads_bind] at evaluated
  obtain ⟨_,-,-,-,evaluated⟩ := evaluated
  cases op <;> simp only [do_evaluate,reads_bind,reads_pure,Prod.mk.injEq] at evaluated
  case content_submit o =>
    obtain ⟨content,evaluated,-,rfl⟩ := evaluated
    exact terms_content_submit evaluated terms₂ applied
  case subscribe o =>
    obtain ⟨_,evaluated,-,rfl⟩ := evaluated
    exact terms_subscribe evaluated prepared terms₂ applied
  case subscribe_by_author o =>
    obtain ⟨_,evaluated,-,rfl⟩ := evaluated
    exact terms_subscribe_by_author evaluated prepared terms₂ applied
  case account_create o =>
    obtain ⟨_,-,-,rfl⟩ := evaluated
    simp only [Operation.validate,Bool.and_eq_true] at valid
    exact terms_account_create valid.2 terms₂ applied
  case account_update o =>
    obtain ⟨_,evaluated,-,rfl⟩ := evaluated
    simp only [Operation.validate,Bool.and_eq_true] at valid
    exact terms_account_update valid.2 evaluated prepared terms₂ applied
  case proof_of_custody o =>
    obtain ⟨_,-,-,rfl⟩ := evaluated
    exact terms₂.apart (apart_proof_of_custody applied)
  case proposal_update payer fee ops =>
    obtain ⟨-,rfl⟩ := evaluated
    exact inside terms₂ applied
  case other =>
    obtain ⟨-,rfl⟩ := evaluated
    exact terms₂.apart (Within.ok inferInstance applied)
  all_goals
    obtain ⟨_,-,-,rfl⟩ := evaluated
    exact terms₂.apart (Within.ok inferInstance applied)

theorem watched_apply_operation (env : Env) (op : Operation) {L₀ : Ledger} :
    Preserves (Watched L₀) (apply_operation env op) :=
  preserves_apply_operation (fun _ op inside => watched_evaluate_and_apply env inside op) op

theorem terms_apply_operation (env : Env) (op : Operation) : Preserves Terms (apply_operation env op) :=
  preserves_apply_operation (fun _ op inside => terms_evaluate_and_apply env inside op) op

instance apart_housekeeping : Within Apart decent_housekeeping := by
  unfold decent_housekeeping
  dsimp only
  refine .andThen fun _ => .andThen fun L => .andThen fun _ => ?_
  infer_instance

instance : Within Apart process_budget := by
  unfold process_budget
  dsimp only
  repeat refine .andThen fun _ => ?_
  exact .modify fun _ => .of_eq rfl rfl rfl rfl

instance : Within Apart perform_chain_maintenance := by
  unfold perform_chain_maintenance
  have settled : Within Apart (modify fun L : Ledger =>
      { L with parameters := L.pending_parameters.getD L.parameters, pending_parameters := none } : M Unit) :=
    .modify fun _ => .of_eq rfl rfl rfl rfl
  have scheduled : Within Apart (modify fun L : Ledger => { L with properties := { L.properties with
      next_maintenance_time := next_time L.properties L.parameters.maintenance_interval } } : M Unit) :=
    .modify fun _ => .of_eq rfl rfl rfl rfl
  dsimp only
  refine .andThen fun _ => .andThen fun _ => .andThen fun _ => .andThen fun L => ?_
  split <;> infer_instance

/-- Apart from operations, a step leaves the terms. -/
theorem apart_perform {action : Action} (chain : ∀ env op, action ≠ .operation env op) {L L' : Ledger} {u : Unit}
    (ran : EStateM.run (perform action) L = .ok u L') : Apart L L' := by
  cases action with
  | header timestamp =>
    have stored : Within Apart (modify fun L : Ledger => { L with properties := { L.properties with
        head_block_number := L.properties.head_block_number + 1
        time := timestamp } } : M Unit) := .modify fun _ => .of_eq rfl rfl rfl rfl
    have within : Within Apart (perform (.header timestamp)) := by
      unfold perform update_head
      infer_instance
    exact within.ok ran
  | operation env op => exact absurd rfl (chain env op)
  | signing_miner miner => exact Within.ok (x := update_signing_miner miner) inferInstance ran
  | maintenance =>
    have within : Within Apart (perform .maintenance) := by
      unfold perform
      infer_instance
    exact within.ok ran
  | settings change => exact Within.ok (x := do_evaluate.settle change) inferInstance ran

theorem terms_perform (action : Action) : Preserves Terms (perform action) := by
  intro L L' u terms ran
  cases action with
  | operation env op => exact terms_apply_operation env op terms ran
  | _ => exact terms.apart (apart_perform (by simp) ran)

theorem watched_perform {action : Action} {L L' : Ledger} {u : Unit} (ran : EStateM.run (perform action) L = .ok u L') :
    Watched L L' := by
  cases action with
  | operation env op => exact watched_apply_operation env op (watched_composes.refl L) ran
  | _ => exact (apart_perform (by simp) ran).watched

theorem default_account_valid : default_account.options.validate = true := by decide

theorem terms_genesis (g : GenesisState) : Terms (init_genesis g) where
  options := by
    intro id account found
    have member : (id,account) ∈ [0,1,2,3].map fun id => (id,default_account) :=
      Table.mem_of_find? (t := (genesis_accounts g.num_special_accounts).table) found
    obtain ⟨_,-,same⟩ := List.mem_map.mp member
    cases same
    exact default_account_valid
  subscriptions := fun _ member => nomatch member
  escrows := fun found => nomatch found

theorem Reached.terms {g : GenesisState} {allowed : Ledger → Action → Prop} {L : Ledger} (reached : Reached g allowed L) :
    Terms L :=
  reached.invariant (terms_genesis g) fun terms _ ran => terms_perform _ terms ran

end Decent.Money

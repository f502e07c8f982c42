import Decent.Views

/-!
Most of what the chain does neither ends an escrow nor changes when one ends. `Aside` says
so of one stretch of a run, whether it returns or throws.
-/
namespace Decent.Money
open Throwing

/-- Buyings and what was paid for them, the names and ends of contents, which of them have been
    returned, and the clock are as they were. -/
structure Aside (L L' : Ledger) : Prop where
  buyings : L'.buyings = L.buyings
  payments : L'.payments = L.payments
  next_content : L'.contents.next = L.contents.next
  expirations : ∀ id, (L'.contents.find? id).map (·.expiration) = (L.contents.find? id).map (·.expiration)
  names : ∀ id, (L'.contents.find? id).map (fun c => (c.URI,c.author)) = (L.contents.find? id).map fun c => (c.URI,c.author)
  returned : ∀ id, L'.applied.countP (returns id) = L.applied.countP (returns id)
  time : L'.properties.time = L.properties.time
  last_budget_time : L'.properties.last_budget_time = L.properties.last_budget_time
  parameters : L'.parameters = L.parameters

theorem Aside.of_eq {L L' : Ledger} (buyings : L'.buyings = L.buyings) (payments : L'.payments = L.payments)
    (contents : L'.contents = L.contents) (applied : L'.applied = L.applied) (properties : L'.properties = L.properties)
    (parameters : L'.parameters = L.parameters) : Aside L L' where
  buyings := buyings
  payments := payments
  next_content := by rw [contents]
  expirations := by rw [contents]; exact fun _ => rfl
  names := by rw [contents]; exact fun _ => rfl
  returned := by rw [applied]; exact fun _ => rfl
  time := by rw [properties]
  last_budget_time := by rw [properties]
  parameters := parameters

instance aside_composes : Composes Aside where
  refl _ := .of_eq rfl rfl rfl rfl rfl rfl
  trans first second := {
    buyings := second.buyings.trans first.buyings
    payments := second.payments.trans first.payments
    next_content := second.next_content.trans first.next_content
    expirations := fun id => (second.expirations id).trans (first.expirations id)
    names := fun id => (second.names id).trans (first.names id)
    returned := fun id => (second.returned id).trans (first.returned id)
    time := second.time.trans first.time
    last_budget_time := second.last_budget_time.trans first.last_budget_time
    parameters := second.parameters.trans first.parameters }

theorem Settled.aside {L L' : Ledger} (settled : Settled L L') : Aside L L' :=
  .of_eq settled.buyings settled.payments settled.contents settled.applied settled.properties settled.parameters

theorem aside_modify_content {id : Nat} {f : Content → Content} (same : ∀ c, (f c).expiration = c.expiration)
    (named : ∀ c, (f c).URI = c.URI ∧ (f c).author = c.author) : Within Aside (modify_content id f) := by
  refine .modify fun L => { @Aside.of_eq L L rfl rfl rfl rfl rfl rfl with
    next_content := Index.next_update .., expirations := fun k => ?_, names := fun k => ?_ }
  · exact Index.map_find?_update L.contents id k same
  · exact Index.map_find?_update L.contents id k fun c => by rw [(named c).1,(named c).2]

theorem aside_push {v : VirtualOperation} (other : ∀ id, returns id v = false) : Within Aside (push_applied_operation v) := by
  refine .modify fun L => { @Aside.of_eq L L rfl rfl rfl rfl rfl rfl with returned := fun id => ?_ }
  exact List.countP_cons_of_neg (by rw [other]; exact Bool.false_ne_true)

instance : Bookkeeping Aside where
  statistics _ _ := .of_eq rfl rfl rfl rfl rfl rfl
  reset _ _ _ := .of_eq rfl rfl rfl rfl rfl rfl
  publishing _ _ := .of_eq rfl rfl rfl rfl rfl rfl
  seeders _ _ := .of_eq rfl rfl rfl rfl rfl rfl
  permissions _ _ := .of_eq rfl rfl rfl rfl rfl rfl
  subscription _ _ _ _ := .of_eq rfl rfl rfl rfl rfl rfl
  content L _ _ incidental :=
    (aside_modify_content incidental.expiration fun c => ⟨incidental.URI c,incidental.author c⟩).keeps L
  applied L _ other := (aside_push other).keeps L

instance : Paying Aside where
  dynamic _ _ _ := .of_eq rfl rfl rfl rfl rfl rfl
  balances _ _ := .of_eq rfl rfl rfl rfl rfl rfl
  vestings _ _ := .of_eq rfl rfl rfl rfl rfl rfl
  miners _ _ := .of_eq rfl rfl rfl rfl rfl rfl

instance : Governing Aside where
  rewards _ _ _ := ⟨rfl,rfl,rfl,fun _ => rfl,fun _ => rfl,fun _ => rfl,rfl,rfl,rfl⟩
  settled settled := settled.aside

/-! ### The evaluators -/

instance (o : AssetCreateOperation) (core_fee_paid : Int) : Within Aside (asset_create_apply o core_fee_paid) :=
  .modify fun _ => .of_eq rfl rfl rfl rfl rfl rfl

instance (o : ProofOfCustodyOperation) : Within Aside (proof_of_custody_apply o) := by
  unfold proof_of_custody_apply
  refine .andThen fun ⟨id,content⟩ => .andThen fun L => ?_
  dsimp only
  split
  · infer_instance
  · split
    · have proved (now : Nat) : Within Aside (modify_content id fun co =>
          { co with last_proof := co.last_proof.put o.seeder now }) := aside_modify_content (fun _ => rfl) fun _ => ⟨rfl,rfl⟩
      infer_instance
    · have spent (now : Nat) (escrow : Asset) : Within Aside (modify_content id fun co =>
          { co with last_proof := co.last_proof.put o.seeder now, publishing_fee_escrow := escrow }) :=
        aside_modify_content (fun _ => rfl) fun _ => ⟨rfl,rfl⟩
      have paid (reward : Int) : Within Aside
          (push_applied_operation (.pay_seeder content.author o.seeder ⟨reward,core⟩)) := aside_push fun _ => rfl
      refine .andThen fun _ => .andThen fun reward => .andThen fun escrow => ?_
      infer_instance

instance (from_account to_account : AccountId) : Within Aside (extend_subscription from_account to_account) := by
  unfold extend_subscription
  refine .andThen fun L => .andThen fun author => ?_
  dsimp only
  split
  · exact within_modify_subscription fun _ => ⟨rfl,rfl⟩
  · exact .modify fun _ => .of_eq rfl rfl rfl rfl rfl rfl

instance (o : SubscribeOperation) : Within Aside (subscribe_apply o) := by
  unfold subscribe_apply
  infer_instance

instance (o : SubscribeByAuthorOperation) : Within Aside (subscribe_by_author_apply o) := by
  unfold subscribe_by_author_apply
  infer_instance

instance (o : AccountCreateOperation) : Within Aside (account_create_apply o) :=
  .modify fun _ => .of_eq rfl rfl rfl rfl rfl rfl

instance (o : AccountUpdateOperation) : Within Aside (account_update_apply o) := by
  unfold account_update_apply
  split
  · infer_instance
  · have stored (options : AccountOptions) : Within Aside (modify fun L : Ledger =>
        { L with accounts := L.accounts.update o.account fun a => { a with options := options } } : M Unit) :=
      .modify fun _ => .of_eq rfl rfl rfl rfl rfl rfl
    infer_instance

/-- The operations that touch an escrow, the proposals that run others, and the rest. -/
inductive Acts (env : Env) (executed : M Unit) (L : Ledger) : Operation → M Unit → Prop
  | aside {op : Operation} {act : M Unit} (within : Within Aside act) : Acts env executed L op act
  | submit (o : ContentSubmitOperation) (content : Option Nat) (evaluated : content_submit_evaluate env o L = .ok content) :
    Acts env executed L (.content_submit o) (content_submit_apply o content)
  | cancel (o : ContentCancellationOperation) (evaluated : content_cancellation_evaluate o L = .ok ()) :
    Acts env executed L (.content_cancellation o) (content_cancellation_apply o)
  | buy (o : RequestToBuyOperation) (ctx : BuyingContext) (evaluated : request_to_buy_evaluate o L = .ok ctx) :
    Acts env executed L (.request_to_buy o) (request_to_buy_apply o ctx)
  | deliver (o : DeliverKeysOperation) : Acts env executed L (.deliver_keys o) (deliver_keys_apply o)
  | propose (payer : AccountId) (fee : Asset) (ops : List Operation) :
    Acts env executed L (.proposal_update payer fee ops) executed

theorem do_evaluate_acts {env : Env} {executed : M Unit} {fee fee' : Int} {op : Operation} {act : M Unit} {L : Ledger}
    (evaluated : do_evaluate env executed fee op L = .ok (fee',act)) : Acts env executed L op act := by
  cases op <;> simp only [do_evaluate,reads_bind,reads_pure,Prod.mk.injEq] at evaluated
  case content_submit o =>
    obtain ⟨content,evaluated,-,rfl⟩ := evaluated
    exact .submit o content evaluated
  case content_cancellation o =>
    obtain ⟨_,evaluated,-,rfl⟩ := evaluated
    exact .cancel o evaluated
  case request_to_buy o =>
    obtain ⟨ctx,evaluated,-,rfl⟩ := evaluated
    exact .buy o ctx evaluated
  case deliver_keys o =>
    obtain ⟨_,_,-,rfl⟩ := evaluated
    exact .deliver o
  case proposal_update payer fee ops =>
    obtain ⟨-,rfl⟩ := evaluated
    exact .propose payer fee ops
  case other =>
    obtain ⟨-,rfl⟩ := evaluated
    exact .aside inferInstance
  all_goals
    obtain ⟨_,_,-,rfl⟩ := evaluated
    exact .aside inferInstance

/-- What an operation preserves, when each of the evaluators that touch an escrow preserves it
    after the fee was prepared. -/
structure Steady (I : Ledger → Prop) : Prop where
  aside : ∀ {L L'}, Aside L L' → I L → I L'
  submit : ∀ {env o content L₀ L L'}, content_submit_evaluate env o L₀ = .ok content → Aside L₀ L → I L →
    EStateM.run (content_submit_apply o content) L = .ok () L' → I L'
  cancel : ∀ {o L₀ L L'}, content_cancellation_evaluate o L₀ = .ok () → Aside L₀ L → I L →
    EStateM.run (content_cancellation_apply o) L = .ok () L' → I L'
  buy : ∀ o ctx, Preserves I (request_to_buy_apply o ctx)
  deliver : ∀ o, Preserves I (deliver_keys_apply o)

theorem Steady.evaluate_and_apply {I : Ledger → Prop} (steady : Steady I) (env : Env) {executed : M Unit}
    (inside : Preserves I executed) (op : Operation) : Preserves I (evaluate_and_apply env executed op) := by
  intro L L₄ u holds ran
  obtain ⟨-,L₁,L₂,L₃,fee,act,flow⟩ := evaluate_and_apply_ok.mp ran
  have prepared : Aside L L₂ := aside_composes.trans (Within.ok inferInstance flow.converted) (Within.ok inferInstance flow.paid)
  refine steady.aside (Within.ok inferInstance flow.charged) ?_
  have holds' := steady.aside prepared holds
  have evaluated := flow.evaluated
  simp only [evaluate,reads_bind] at evaluated
  obtain ⟨_,-,-,-,done⟩ := evaluated
  have applied := flow.applied
  cases do_evaluate_acts done with
  | aside within => exact steady.aside (within.ok applied) holds'
  | submit o content evaluated => exact steady.submit evaluated prepared holds' applied
  | cancel o evaluated => exact steady.cancel evaluated prepared holds' applied
  | buy o ctx evaluated => exact steady.buy o ctx holds' applied
  | deliver o => exact steady.deliver o holds' applied
  | propose payer fee ops => exact inside holds' applied

theorem Steady.apply_operation {I : Ledger → Prop} (steady : Steady I) (env : Env) (op : Operation) :
    Preserves I (apply_operation env op) :=
  preserves_apply_operation (fun _ op inside => steady.evaluate_and_apply env inside op) op

end Decent.Money

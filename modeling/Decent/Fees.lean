import Decent.Run

/-!
The way of a fee: what is taken from the payer or from the pool of the fee's asset, and
what is credited to the core asset's pool or to the pool of a new asset. The evaluator
of `asset_create` halves `core_fee_paid` between the moment it is fixed and the moments
it is used.
-/
namespace Decent.Money
open Throwing

/-! ### One operation, phase by phase -/

/-- The states between the phases of `evaluate` and `apply`. -/
structure FeeFlow (env : Env) (executed : M Unit) (op : Operation) (L L₁ L₂ L₃ L₄ : Ledger) (core_fee_paid : Int)
    (do_apply : M Unit) : Prop where
  evaluated : evaluate env executed op L = .ok (core_fee_paid,do_apply)
  converted : EStateM.run (convert_fee op.fee core_fee_paid) L = .ok () L₁
  paid : EStateM.run (pay_fee core_fee_paid) L₁ = .ok () L₂
  applied : EStateM.run do_apply L₂ = .ok () L₃
  charged : EStateM.run (charge_fee op.fee_payer op.fee) L₃ = .ok () L₄

theorem evaluate_and_apply_ok {env : Env} {executed : M Unit} {op : Operation} {L L₄ : Ledger} {u : Unit} :
    EStateM.run (evaluate_and_apply env executed op) L = .ok u L₄ ↔
      op.validate = true ∧ ∃ L₁ L₂ L₃ core_fee_paid do_apply,
        FeeFlow env executed op L L₁ L₂ L₃ L₄ core_fee_paid do_apply := by
  simp only [evaluate_and_apply,run_bind_ok,run_observe,reads_lift,fc_assert_ok]
  constructor
  · rintro ⟨_,_,⟨valid,rfl⟩,⟨fee,act⟩,_,⟨evaluated,rfl⟩,_,L₁,converted,_,L₂,paid,_,L₃,applied,charged⟩
    exact ⟨valid,L₁,L₂,L₃,fee,act,evaluated,converted,paid,applied,charged⟩
  · rintro ⟨valid,L₁,L₂,L₃,fee,act,flow⟩
    exact ⟨(),L,⟨valid,rfl⟩,(fee,act),L,⟨flow.evaluated,rfl⟩,(),L₁,flow.converted,(),L₂,flow.paid,(),L₃,flow.applied,
      flow.charged⟩

/-- What a change of the dynamic data of an asset did when it returned. -/
theorem modify_dynamic_ok {id : AssetId} {f : DynamicData → Except Fault DynamicData} {L L' : Ledger} {u : Unit}
    (ran : EStateM.run (modify_dynamic id f) L = .ok u L') :
    ∃ a d, L.assets.find? id = some a ∧ f a.dynamic = .ok d ∧
      L' = { L with assets := L.assets.update id fun a => { a with dynamic := d } } := by
  simp only [modify_dynamic,run_bind_ok,run_observe,reads_lift] at ran
  obtain ⟨a,_,⟨found,rfl⟩,d,_,⟨changed,rfl⟩,ran⟩ := ran
  cases ran
  exact ⟨a,d,get_asset_ok.mp found,changed,rfl⟩

def Ledger.dynamic (L : Ledger) (id : AssetId) : DynamicData := (L.assets.find? id).elim ⟨0,0,0⟩ (·.dynamic)

/-- A change of the data of an asset that throws leaves no trace. -/
theorem modify_dynamic_error {id : AssetId} {f : DynamicData → Except Fault DynamicData} {L L' : Ledger} {e : Fault}
    (ran : EStateM.run (modify_dynamic id f) L = .error e L') : L' = L := by
  rw [modify_dynamic,EStateM.run_bind] at ran
  cases found : get_asset id L with
  | error e =>
    rw [run_observe_error found] at ran
    cases ran
    rfl
  | ok a =>
    rw [run_observe_ok found] at ran
    dsimp only at ran
    rw [EStateM.run_bind] at ran
    cases changed : f a.dynamic with
    | error e =>
      rw [run_observe_error (r := liftM (f a.dynamic)) changed] at ran
      cases ran
      rfl
    | ok d =>
      rw [run_observe_ok (r := liftM (f a.dynamic)) changed] at ran
      cases ran

theorem within_modify_dynamic {R : Ledger → Ledger → Prop} [Composes R] {id : AssetId}
    {f : DynamicData → Except Fault DynamicData}
    (kept : ∀ {L L'}, EStateM.run (modify_dynamic id f) L = .ok () L' → R L L') : Within R (modify_dynamic id f) where
  keeps L := by
    cases ran : EStateM.run (modify_dynamic id f) L with
    | ok u L' => exact kept ran
    | error e L' =>
      obtain rfl := modify_dynamic_error ran
      exact Composes.refl _

/-- The data of an asset after the change, and those of the others. -/
theorem dynamic_modify_dynamic {id : AssetId} {f : DynamicData → Except Fault DynamicData} {L L' : Ledger} {u : Unit}
    (ran : EStateM.run (modify_dynamic id f) L = .ok u L') : f (L.dynamic id) = .ok (L'.dynamic id) := by
  obtain ⟨a,d,found,changed,rfl⟩ := modify_dynamic_ok ran
  simpa [Ledger.dynamic,Index.find?_update,found] using changed

theorem dynamic_convert_fee_core {fee : Asset} {core_fee_paid : Int} {L L' : Ledger} {u : Unit}
    (inCore : fee.asset_id = core) (ran : EStateM.run (convert_fee fee core_fee_paid) L = .ok u L') : L' = L := by
  rw [convert_fee,if_neg (by simpa using inCore)] at ran
  cases ran
  rfl

theorem dynamic_convert_fee {fee : Asset} {core_fee_paid : Int} {L L' : Ledger} {u : Unit}
    (notCore : fee.asset_id ≠ core) (ran : EStateM.run (convert_fee fee core_fee_paid) L = .ok u L') :
    (L'.dynamic fee.asset_id).core_pool = (L.dynamic fee.asset_id).core_pool - core_fee_paid := by
  rw [convert_fee,if_pos notCore] at ran
  have changed := dynamic_modify_dynamic ran
  simp only [bind_ok,checked_ok,pure_ok] at changed
  obtain ⟨_,_,core_pool,⟨_,rfl⟩,same⟩ := changed
  rw [← same]

theorem dynamic_pay_fee {core_fee_paid : Int} {L L' : Ledger} {u : Unit}
    (ran : EStateM.run (pay_fee core_fee_paid) L = .ok u L') :
    (L'.dynamic core).asset_pool = (L.dynamic core).asset_pool + core_fee_paid := by
  have changed := dynamic_modify_dynamic ran
  simp only [bind_ok,checked_ok,pure_ok] at changed
  obtain ⟨asset_pool,⟨_,rfl⟩,same⟩ := changed
  rw [← same]

theorem balance_charge_fee {payer : AccountId} {fee : Asset} {L L' : Ledger} {u : Unit}
    (ran : EStateM.run (charge_fee payer fee) L = .ok u L') (owner : AccountId) (a : AssetId) :
    L'.balance owner a = L.balance owner a - if owner = payer then fee.part a else 0 := by
  simp only [charge_fee,run_bind_ok,run_observe,reads_lift,Asset.negate_ok] at ran
  obtain ⟨_,_,⟨⟨_,rfl⟩,rfl⟩,ran⟩ := ran
  rw [balance_adjust_balance ran]
  by_cases same : owner = payer
  · simp only [Asset.part,if_pos same]
    split <;> omega
  · simp [same]

/-! ### What `do_evaluate` leaves of the fee -/

theorem asset_create_evaluate_fee {o : AssetCreateOperation} {fee fee' : Int} {L : Ledger}
    (evaluated : asset_create_evaluate o fee L = .ok fee') : fee' = fee - fee.tdiv 2 := by
  unfold asset_create_evaluate at evaluated
  simp only [reads_bind,reads_lift,reads_pure,checked_ok] at evaluated
  obtain ⟨_,_,_,_,_,_,_,⟨_,rfl⟩,_,_,rfl⟩ := evaluated
  rfl

/-- Only `asset_create` touches `core_fee_paid`. -/
theorem do_evaluate_fee {env : Env} {executed : M Unit} {fee fee' : Int} {op : Operation} {act : M Unit} {L : Ledger}
    (evaluated : do_evaluate env executed fee op L = .ok (fee',act)) :
    match op with
    | .asset_create o => fee' = fee - fee.tdiv 2 ∧ act = asset_create_apply o fee'
    | _ => fee' = fee := by
  cases op
  case asset_create o =>
    simp only [do_evaluate,reads_bind,reads_pure,Prod.mk.injEq] at evaluated
    obtain ⟨left,halved,rfl,rfl⟩ := evaluated
    exact ⟨asset_create_evaluate_fee halved,rfl⟩
  all_goals
    simp only [do_evaluate,reads_bind,reads_pure,Prod.mk.injEq] at evaluated
    first
      | exact evaluated.1.symm
      | obtain ⟨_,_,rfl,_⟩ := evaluated; rfl

theorem prepare_fee_core {payer : AccountId} {fee : Asset} {x : Int} {L : Ledger} (inCore : fee.asset_id = core)
    (prepared : prepare_fee payer fee L = .ok x) : x = fee.amount := by
  unfold prepare_fee at prepared
  simp only [reads_bind,reads_lift,fc_assert_ok,if_pos inCore,reads_pure] at prepared
  obtain ⟨_,_,_,_,_,_,_,_,rfl⟩ := prepared
  rfl

theorem prepare_fee_nonneg {payer : AccountId} {fee : Asset} {x : Int} {L : Ledger}
    (prepared : prepare_fee payer fee L = .ok x) : 0 ≤ fee.amount ∧ 0 ≤ x := by
  unfold prepare_fee at prepared
  simp only [reads_bind,reads_lift,fc_assert_ok] at prepared
  obtain ⟨_,nonneg,_,_,a,_,_,_,prepared⟩ := prepared
  refine ⟨nonneg,?_⟩
  split at prepared
  · rw [reads_pure] at prepared
    exact prepared ▸ nonneg
  · simp only [reads_bind,reads_lift,reads_pure,fc_assert_ok] at prepared
    obtain ⟨y,converted,_,_,_,_,rfl⟩ := prepared
    exact (Price.times_ok converted).1

/-! ### Taken and credited -/

/-- The core amount that an operation takes for its fee: what the payer is charged, or what
    leaves the core pool of the fee's asset. -/
def core_taken (op : Operation) (L L₁ L₃ L₄ : Ledger) : Int :=
  if op.fee.asset_id = core then L₃.balance op.fee_payer core - L₄.balance op.fee_payer core
  else (L.dynamic op.fee.asset_id).core_pool - (L₁.dynamic op.fee.asset_id).core_pool

/-- The core amount that it credits: to the core asset's pool and, for `asset_create`, to
    the pool of the new asset. -/
def core_credited (op : Operation) (L₁ L₂ L₃ : Ledger) : Int :=
  (L₂.dynamic core).asset_pool - (L₁.dynamic core).asset_pool +
    match op with
    | .asset_create _ => (L₃.dynamic L₂.assets.next).core_pool
    | _ => 0

/-- What `asset_create` credits beyond what it takes, for a fee worth `x` of core. -/
def fee_surplus (op : Operation) (x : Int) : Int :=
  match op with
  | .asset_create o => if o.fee.asset_id = core then 2 * (x - x.tdiv 2) - x else x - x.tdiv 2
  | _ => 0

theorem core_taken_eq {env : Env} {executed : M Unit} {op : Operation} {L L₁ L₂ L₃ L₄ : Ledger} {fee : Int} {act : M Unit}
    (flow : FeeFlow env executed op L L₁ L₂ L₃ L₄ fee act) :
    core_taken op L L₁ L₃ L₄ = if op.fee.asset_id = core then op.fee.amount else fee := by
  unfold core_taken
  split
  case isTrue inCore =>
    rw [balance_charge_fee flow.charged]
    simp [Asset.part,inCore]
  case isFalse notCore =>
    rw [dynamic_convert_fee notCore flow.converted]
    omega

theorem dynamic_asset_create {o : AssetCreateOperation} {fee : Int} {L L' : Ledger} {u : Unit}
    (ran : EStateM.run (asset_create_apply o fee) L = .ok u L') : (L'.dynamic L.assets.next).core_pool = fee := by
  cases ran
  simp [Ledger.dynamic,Index.find?_create]

theorem core_credited_eq {env : Env} {executed : M Unit} {op : Operation} {L L₁ L₂ L₃ L₄ : Ledger} {fee : Int} {act : M Unit}
    (flow : FeeFlow env executed op L L₁ L₂ L₃ L₄ fee act) :
    core_credited op L₁ L₂ L₃ = match op with | .asset_create _ => 2 * fee | _ => fee := by
  unfold core_credited
  rw [dynamic_pay_fee flow.paid]
  have evaluated := flow.evaluated
  simp only [evaluate,reads_bind] at evaluated
  obtain ⟨_,-,_,-,done⟩ := evaluated
  cases op
  case asset_create o =>
    obtain ⟨-,same⟩ := do_evaluate_fee done
    have created := flow.applied
    rw [same] at created
    have pool := dynamic_asset_create created
    dsimp only
    omega
  all_goals
    dsimp only
    omega

/-- The surplus is the only difference there is. -/
theorem credited_sub_taken {env : Env} {executed : M Unit} {op : Operation} {L L₁ L₂ L₃ L₄ : Ledger} {fee : Int}
    {act : M Unit} (flow : FeeFlow env executed op L L₁ L₂ L₃ L₄ fee act) :
    ∃ x, prepare_fee op.fee_payer op.fee L = .ok x ∧
      core_credited op L₁ L₂ L₃ - core_taken op L L₁ L₃ L₄ = fee_surplus op x := by
  have evaluated := flow.evaluated
  simp only [evaluate,reads_bind] at evaluated
  obtain ⟨x,prepared,-,-,done⟩ := evaluated
  refine ⟨x,prepared,?_⟩
  rw [core_taken_eq flow,core_credited_eq flow]
  have left := do_evaluate_fee done
  have asked := fun inCore => prepare_fee_core inCore prepared
  cases op
  case asset_create o =>
    obtain ⟨halved,-⟩ := left
    dsimp only [fee_surplus]
    by_cases inCore : o.fee.asset_id = core
    · rw [if_pos (show (Operation.asset_create o).fee.asset_id = core from inCore),if_pos inCore,halved,asked inCore]
    · rw [if_neg (show ¬ (Operation.asset_create o).fee.asset_id = core from inCore),if_neg inCore,halved]
      omega
  all_goals
    dsimp only at left
    simp only [fee_surplus]
    split
    case isTrue inCore =>
      rw [left,asked inCore]
      omega
    case isFalse => omega

/-- An operation whose fee is neither multiplied nor lost: any but `asset_create`, and that
    one when it pays an even amount of core, or in another asset an amount worth no core. -/
def fee_kept (op : Operation) (L : Ledger) : Prop :=
  match op with
  | .asset_create o =>
    o.fee.asset_id = core ∧ o.fee.amount % 2 = 0 ∨
      o.fee.asset_id ≠ core ∧ prepare_fee (Operation.asset_create o).fee_payer o.fee L = .ok 0
  | _ => True

theorem fee_surplus_zero_iff {op : Operation} {x : Int} {L : Ledger} (prepared : prepare_fee op.fee_payer op.fee L = .ok x) :
    fee_surplus op x = 0 ↔ fee_kept op L := by
  obtain ⟨-,nonneg⟩ := prepare_fee_nonneg prepared
  cases op
  case asset_create o =>
    have halved : x.tdiv 2 = x / 2 := Int.tdiv_eq_ediv_of_nonneg nonneg
    simp only [fee_surplus,fee_kept,halved]
    by_cases inCore : o.fee.asset_id = core
    · have asked : x = o.fee.amount := prepare_fee_core inCore prepared
      simp only [inCore,if_true,true_and,ne_eq,not_true_eq_false,false_and,or_false]
      omega
    · simp only [inCore,if_false,false_and,ne_eq,not_false_eq_true,true_and,false_or]
      constructor
      · intro none
        have zero : x = 0 := by omega
        exact zero ▸ prepared
      · intro none
        cases prepared.symm.trans none
        decide
  all_goals simp [fee_surplus,fee_kept]

theorem fees_balance_iff (env : Env) (executed : M Unit) (op : Operation) (L L₁ L₂ L₃ L₄ : Ledger) (core_fee_paid : Int)
    (do_apply : M Unit) (flow : FeeFlow env executed op L L₁ L₂ L₃ L₄ core_fee_paid do_apply) :
    core_taken op L L₁ L₃ L₄ = core_credited op L₁ L₂ L₃ ↔ fee_kept op L := by
  obtain ⟨x,prepared,difference⟩ := credited_sub_taken flow
  have balanced : core_taken op L L₁ L₃ L₄ = core_credited op L₁ L₂ L₃ ↔ fee_surplus op x = 0 := by omega
  rw [balanced,fee_surplus_zero_iff prepared]

/-- A user who pays five for a new asset. -/
def odd_fee : AssetCreateOperation where
  fee := ⟨5,core⟩
  issuer := 4
  symbol := "UIA"
  precision := 4
  options := ⟨1000,⟨⟨1,core⟩,⟨1,2⟩⟩,true,some false⟩
  monitored_asset_opts := none

def one_user : List Action := [new_account default_account.options,grant 4 ⟨1000,core⟩]

theorem fees_balance_iff_even : ∃ L₁ L₂ L₃ L₄ fee act,
    core_taken (.asset_create { odd_fee with fee := ⟨4,core⟩ }) (after_actions one_user) L₁ L₃ L₄ =
      core_credited (.asset_create { odd_fee with fee := ⟨4,core⟩ }) L₁ L₂ L₃ ∧
    FeeFlow free_env (pure ()) (.asset_create { odd_fee with fee := ⟨4,core⟩ }) (after_actions one_user) L₁ L₂ L₃ L₄ fee act := by
  have ran := run_of_returned (x := evaluate_and_apply free_env (pure ()) (.asset_create { odd_fee with fee := ⟨4,core⟩ }))
    (s := after_actions one_user) (by decide +kernel)
  obtain ⟨-,L₁,L₂,L₃,fee,act,flow⟩ := evaluate_and_apply_ok.mp ran
  exact ⟨L₁,L₂,L₃,_,fee,act,(fees_balance_iff _ _ _ _ _ _ _ _ _ _ flow).mpr (.inl ⟨rfl,rfl⟩),flow⟩

/-- Five are taken and six are credited. -/
theorem odd_fee_grows : ∃ L₁ L₂ L₃ L₄ fee act, Reachable small_genesis (after_actions one_user) ∧
    FeeFlow free_env (pure ()) (.asset_create odd_fee) (after_actions one_user) L₁ L₂ L₃ L₄ fee act ∧
    core_taken (.asset_create odd_fee) (after_actions one_user) L₁ L₃ L₄ = 5 ∧
    core_credited (.asset_create odd_fee) L₁ L₂ L₃ = 6 := by
  have ran := run_of_returned (x := evaluate_and_apply free_env (pure ()) (.asset_create odd_fee))
    (s := after_actions one_user) (by decide +kernel)
  obtain ⟨-,L₁,L₂,L₃,fee,act,flow⟩ := evaluate_and_apply_ok.mp ran
  have taken : core_taken (.asset_create odd_fee) (after_actions one_user) L₁ L₃ _ = 5 := core_taken_eq flow
  obtain ⟨x,prepared,difference⟩ := credited_sub_taken flow
  have worth : x = 5 := prepare_fee_core rfl prepared
  have surplus : fee_surplus (.asset_create odd_fee) 5 = 1 := by decide
  rw [worth,surplus] at difference
  exact ⟨L₁,L₂,L₃,_,fee,act,reachable_after_actions (by decide +kernel),flow,taken,by omega⟩

end Decent.Money

import Decent.Purchases

/-!
`evaluate` and `apply` of the evaluators put together, for one operation and for the
operations that an approved proposal runs.
-/
namespace Decent.Money

/-- `do_evaluate` of every evaluator: what it leaves of `core_fee_paid`, and the
    `do_apply` that goes with what it found. `executed` runs the operations of an approved
    proposal. -/
def do_evaluate (env : Env) (executed : M Unit) (core_fee_paid : Int) : Operation → Reads (Int × M Unit)
  | .transfer o => do transfer_evaluate o; return (core_fee_paid,transfer_apply o)
  | .transfer2 o => do transfer2_evaluate o; return (core_fee_paid,transfer2_apply o)
  | .asset_create o => do
    let core_fee_paid ← asset_create_evaluate o core_fee_paid
    return (core_fee_paid,asset_create_apply o core_fee_paid)
  | .asset_issue o => do asset_issue_evaluate o; return (core_fee_paid,asset_issue_apply o)
  | .asset_reserve o => do asset_reserve_evaluate o; return (core_fee_paid,asset_reserve_apply o)
  | .asset_fund_pools o => do asset_fund_pools_evaluate o; return (core_fee_paid,asset_fund_pools_apply o)
  | .asset_claim_fees o => do asset_claim_fees_evaluate o; return (core_fee_paid,asset_claim_fees_apply o)
  | .withdraw_permission_claim o => do
    withdraw_permission_claim_evaluate o
    return (core_fee_paid,withdraw_permission_claim_apply o)
  | .vesting_balance_create o => do
    vesting_balance_create_evaluate o
    return (core_fee_paid,vesting_balance_create_apply o)
  | .vesting_balance_withdraw o => do
    vesting_balance_withdraw_evaluate o
    return (core_fee_paid,vesting_balance_withdraw_apply o)
  | .content_submit o => do return (core_fee_paid,content_submit_apply o (← content_submit_evaluate env o))
  | .content_cancellation o => do content_cancellation_evaluate o; return (core_fee_paid,content_cancellation_apply o)
  | .request_to_buy o => do return (core_fee_paid,request_to_buy_apply o (← request_to_buy_evaluate o))
  | .deliver_keys o => do deliver_keys_evaluate env o; return (core_fee_paid,deliver_keys_apply o)
  | .proof_of_custody o => do proof_of_custody_evaluate env o; return (core_fee_paid,proof_of_custody_apply o)
  | .subscribe o => do subscribe_evaluate o; return (core_fee_paid,subscribe_apply o)
  | .subscribe_by_author o => do subscribe_by_author_evaluate o; return (core_fee_paid,subscribe_by_author_apply o)
  | .automatic_renewal_of_subscription o => do
    automatic_renewal_evaluate o
    return (core_fee_paid,automatic_renewal_apply o)
  | .account_create o => do account_create_evaluate o; return (core_fee_paid,account_create_apply o)
  | .account_update o => do account_update_evaluate o; return (core_fee_paid,account_update_apply o)
  | .proposal_update .. => return (core_fee_paid,executed)
  | .other _ _ change => return (core_fee_paid,settle change)
where
  settle (change : SettingsChange) : M Unit := do
    let L ← observe fun L => change.do_apply L
    set L

/-- `evaluator::evaluate` -/
def evaluate (env : Env) (executed : M Unit) (op : Operation) : Reads (Int × M Unit) := do
  let core_fee_paid ← prepare_fee op.fee_payer op.fee
  fc_assert (env.skip_fee_schedule_check = true ∨ env.calculate_fee op ≤ core_fee_paid)
  do_evaluate env executed core_fee_paid op

/-- `validate`, `evaluate` and `apply` of one operation. -/
def evaluate_and_apply (env : Env) (executed : M Unit) (op : Operation) : M Unit := do
  observe (fc_assert (op.validate = true))
  let (core_fee_paid,do_apply) ← observe (evaluate env executed op)
  convert_fee op.fee core_fee_paid
  pay_fee core_fee_paid
  do_apply
  charge_fee op.fee_payer op.fee

mutual

def apply_operation (env : Env) : Operation → M Unit
  | .proposal_update fee_paying_account fee executed =>
    evaluate_and_apply env (apply_operations env executed) (.proposal_update fee_paying_account fee executed)
  | op => evaluate_and_apply env (pure ()) op

def apply_operations (env : Env) : List Operation → M Unit
  | [] => pure ()
  | op :: rest => do
    apply_operation env op
    apply_operations env rest

end

end Decent.Money

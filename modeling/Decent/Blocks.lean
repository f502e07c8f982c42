import Decent.Owners

/-!
Blocks, one after another. A block is in a slot of its own, later than the slot of the head block
and, when that was one of maintenance, some slots later still. Its miner is paid before maintenance
is performed, if it is due.
-/
namespace Decent.Money
open Throwing

/-- A block: the operations of its transactions, those of the proposals that expire with it, and
    what the chain changes by itself at its end. -/
structure Block where
  timestamp : Nat
  miner : Nat
  operations : List (Env × Operation)
  expired : List (Env × Operation)
  changes : List SettingsChange

/-! ### Slots -/

/-- `database::get_slot_time`, in seconds of 32 bits. -/
def get_slot_time (L : Ledger) (maintenance_flag : Bool) (slot_num : Nat) : Nat :=
  let interval := L.parameters.block_interval
  if slot_num = 0 then 0
  else if L.properties.head_block_number = 0 then later L.properties.time (slot_num * interval)
  else
    let head_block_abs_slot := L.properties.time / interval
    let head_slot_time := head_block_abs_slot * interval
    let slot_num := if maintenance_flag then slot_num + L.parameters.maintenance_skip_slots else slot_num
    later head_slot_time (slot_num * interval)

/-- `database::get_slot_at_time` -/
def get_slot_at_time (L : Ledger) (maintenance_flag : Bool) (when : Nat) : Nat :=
  let first_slot_time := get_slot_time L maintenance_flag 1
  if when < first_slot_time then 0 else (when - first_slot_time) / L.parameters.block_interval + 1

/-- What `validate_block_header` asks of the time of a block; whose slot it is is not looked at here. -/
def validate_block_header (maintenance_flag : Bool) (b : Block) : Reads Unit := do
  let L ← read
  fc_assert (L.properties.time < b.timestamp)
  fc_assert (0 < get_slot_at_time L maintenance_flag b.timestamp)

/-! ### A change of the parameters -/

/-- `miner_update_global_parameters_operation`, which is in proposals only. -/
structure MinerUpdateGlobalParametersOperation where
  fee : Asset
  new_parameters : Parameters

def MinerUpdateGlobalParametersOperation.change (o : MinerUpdateGlobalParametersOperation) : SettingsChange where
  do_apply L := .ok { L with pending_parameters := some o.new_parameters }
  settled := by
    rintro L L' ⟨⟩
    exact { Settled.refl L with }

/-- The fee payer is the account of the miners. -/
def MinerUpdateGlobalParametersOperation.operation (o : MinerUpdateGlobalParametersOperation) : Operation :=
  .other 0 o.fee o.change

/-! ### `_apply_block` -/

def apply_transactions : List (Env × Operation) → M Unit
  | [] => pure ()
  | (env,op) :: rest => do
    apply_operation env op
    apply_transactions rest

def settle_changes : List SettingsChange → M Unit
  | [] => pure ()
  | change :: rest => do
    do_evaluate.settle change
    settle_changes rest

/-- The first part of `_apply_block`, until the miner is paid; whether maintenance is due. -/
def open_block (maintenance_flag : Bool) (b : Block) : M Bool := do
  observe (validate_block_header maintenance_flag b)
  let maint_needed := decide ((← get).properties.next_maintenance_time ≤ b.timestamp)
  apply_transactions b.operations
  update_head b.timestamp
  update_signing_miner b.miner
  return maint_needed

/-- And the rest. -/
def close_block (maint_needed : Bool) (b : Block) : M Unit := do
  if maint_needed then
    perform_chain_maintenance
  apply_transactions b.expired
  settle_changes b.changes

/-- What the miner of a block gets of the fees, as `update_signing_miner` computes it. -/
def miner_pay_from_fees (L : Ledger) : Int :=
  let dpo := L.properties
  let time_to_maint : Int := (dpo.next_maintenance_time : Int) - dpo.last_budget_time
  let blocks_in_interval : Nat :=
    ((time_to_maint % 2^64).toNat + L.parameters.block_interval - 1) / L.parameters.block_interval % 2^32
  let from_fees := if blocks_in_interval = 0 then 0 else dpo.miner_budget_from_fees.tdiv blocks_in_interval
  if from_fees < 0 then 0 else from_fees

/-- Between two blocks, or in the middle of one, when its miner is paid. -/
inductive Stage
  | between
  | paid (maint_needed : Bool)
deriving DecidableEq

/-- The chain, with the flag of a block of maintenance. `paid` keeps account of what the miners
    got of the fees since the budget was set; the source does not. -/
structure Chain where
  ledger : Ledger
  maintenance_flag : Bool
  stage : Stage
  paid : List Int

/-- The chains of all runs of blocks whose steps start from where it is `allowed`. The genesis
    file is entered by operations, before any block. -/
inductive Mined (g : GenesisState) (allowed : Chain → Prop) : Chain → Prop
  | genesis {operations : List (Env × Operation)} {L : Ledger}
      (ran : EStateM.run (apply_transactions operations) (init_genesis g) = .ok () L) :
    Mined g allowed ⟨L,false,.between,[]⟩
  | opened {C : Chain} {b : Block} {L : Ledger} {maint_needed : Bool} (before : Mined g allowed C)
      (stage : C.stage = .between) (meets : allowed C)
      (ran : EStateM.run (open_block C.maintenance_flag b) C.ledger = .ok maint_needed L) :
    Mined g allowed ⟨L,C.maintenance_flag,.paid maint_needed,C.paid ++ [miner_pay_from_fees C.ledger]⟩
  | closed {C : Chain} {b : Block} {L : Ledger} {maint_needed : Bool} (before : Mined g allowed C)
      (stage : C.stage = .paid maint_needed) (meets : allowed C)
      (ran : EStateM.run (close_block maint_needed b) C.ledger = .ok () L) :
    Mined g allowed ⟨L,maint_needed,.between,if maint_needed then [] else C.paid⟩

/-! ### Runs that are computed -/

def open_allowed (allowed : Chain → Prop) [∀ C, Decidable (allowed C)] (C : Chain) (b : Block) : Option Chain :=
  if C.stage = .between ∧ allowed C then
    match EStateM.run (open_block C.maintenance_flag b) C.ledger with
    | .ok maint_needed L =>
      some ⟨L,C.maintenance_flag,.paid maint_needed,C.paid ++ [miner_pay_from_fees C.ledger]⟩
    | .error .. => none
  else none

def close_allowed (allowed : Chain → Prop) [∀ C, Decidable (allowed C)] (C : Chain) (b : Block) : Option Chain :=
  match C.stage with
  | .between => none
  | .paid maint_needed =>
    if allowed C then
      match EStateM.run (close_block maint_needed b) C.ledger with
      | .ok _ L => some ⟨L,maint_needed,.between,if maint_needed then [] else C.paid⟩
      | .error .. => none
    else none

/-- Block after block, as long as each of their steps is allowed. -/
def mine_allowed (allowed : Chain → Prop) [∀ C, Decidable (allowed C)] : List Block → Chain → Option Chain
  | [], C => some C
  | b :: rest, C => do mine_allowed allowed rest (← close_allowed allowed (← open_allowed allowed C b) b)

section
variable {g : GenesisState} {allowed : Chain → Prop} [∀ C, Decidable (allowed C)] {C C' : Chain} {b : Block}

theorem mined_open_allowed (before : Mined g allowed C) (opened : open_allowed allowed C b = some C') : Mined g allowed C' := by
  unfold open_allowed at opened
  split at opened
  case isTrue meets =>
    split at opened
    case h_1 ran =>
      cases opened
      exact before.opened meets.1 meets.2 ran
    case h_2 => cases opened
  case isFalse => cases opened

theorem mined_close_allowed (before : Mined g allowed C) (closed : close_allowed allowed C b = some C') : Mined g allowed C' := by
  unfold close_allowed at closed
  split at closed
  case h_1 => cases closed
  case h_2 stage =>
    split at closed
    case isTrue meets =>
      split at closed
      case h_1 ran =>
        cases closed
        exact before.closed stage meets ran
      case h_2 => cases closed
    case isFalse => cases closed

theorem mined_mine_allowed {blocks : List Block} (before : Mined g allowed C)
    (mined : mine_allowed allowed blocks C = some C') : Mined g allowed C' := by
  induction blocks generalizing C with
  | nil =>
    cases mined
    exact before
  | cons b rest ih =>
    simp only [mine_allowed,Option.bind_eq_bind,Option.bind_eq_some_iff] at mined
    obtain ⟨_,opened,_,closed,mined⟩ := mined
    exact ih (mined_close_allowed (mined_open_allowed before opened) closed) mined

end

end Decent.Money

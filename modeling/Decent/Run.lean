import Decent.Apply
import Decent.Maintenance

/-!
Runs of the ledger: the state that `init_genesis` writes, and what a chain can do to it
from then on. A block is a header, the operations of its transactions, the pay of its
miner and, when it is due, the maintenance; whatever order these come in, and however
proposals and pending transactions are interleaved with them, is a run here.
-/
namespace Decent.Money

/-- The part of the genesis file that the ledger is made from. -/
structure GenesisState where
  initial_timestamp : Nat
  initial_parameters : Parameters
  max_core_supply : Int
  num_special_accounts : Nat
  num_special_assets : Nat
  initial_assets : List (String × Nat × AccountId)

/-- `GRAPHENE_INITIAL_SHARE_SUPPLY` -/
def initial_share_supply : Int := 5130608937456900

def default_account : Account := ⟨⟨proxy_to_self_account,false,⟨0,core⟩,0⟩⟩

/-- The account of the miners, the null account, the temporary one and the one that stands
    for an account's own vote. -/
def genesis_accounts (num_special_accounts : Nat) : Index Account :=
  ((((Index.empty.create default_account).create default_account).create default_account).create
    default_account).reserve num_special_accounts

def core_asset (max_core_supply : Int) : AssetObject where
  symbol := "DCT"
  precision := 8
  issuer := 1
  options := ⟨max_core_supply,⟨⟨1,core⟩,⟨1,core⟩⟩,true,none⟩
  monitored_asset_opts := none
  dynamic := ⟨initial_share_supply,0,0⟩

/-- Only monitored assets are supported in the genesis file. -/
def genesis_asset (symbol : String) (precision : Nat) (issuer : AccountId) : AssetObject where
  symbol := symbol
  precision := precision
  issuer := issuer
  options := ⟨0,⟨⟨0,core⟩,⟨0,core⟩⟩,true,none⟩
  monitored_asset_opts := some ⟨.empty,⟨⟨0,core⟩,⟨0,core⟩⟩,0,60 * 60 * 24,1⟩
  dynamic := ⟨0,0,0⟩

def genesis_assets (g : GenesisState) : Index AssetObject :=
  g.initial_assets.foldl (fun i item => i.create (genesis_asset item.1 item.2.1 item.2.2))
    ((Index.empty.create (core_asset g.max_core_supply)).reserve g.num_special_assets)

theorem genesis_assets_cases {g : GenesisState} {id : AssetId} {ao : AssetObject}
    (found : (genesis_assets g).find? id = some ao) :
    id = core ∧ ao = core_asset g.max_core_supply ∨ ∃ symbol precision issuer, ao = genesis_asset symbol precision issuer := by
  have entered (items : List (String × Nat × AccountId)) : ∀ i : Index AssetObject,
      (items.foldl (fun i item => i.create (genesis_asset item.1 item.2.1 item.2.2)) i).find? id = some ao →
      i.find? id = some ao ∨ ∃ symbol precision issuer, ao = genesis_asset symbol precision issuer := by
    induction items with
    | nil => exact fun i found => .inl found
    | cons item rest ih =>
      intro i found
      rcases ih _ found with inside | new
      · rw [Index.find?_create] at inside
        split at inside
        · cases inside
          exact .inr ⟨_,_,_,rfl⟩
        · exact .inl inside
      · exact .inr new
  refine (entered _ _ found).imp_left fun inside => ?_
  have inside : (Index.empty.create (core_asset g.max_core_supply)).find? id = some ao := inside
  rw [Index.find?_create] at inside
  split at inside
  case isTrue here =>
    cases inside
    exact ⟨here,rfl⟩
  case isFalse => cases inside

/-- `database::init_genesis`, up to the accounts, balances and miners that it then enters by
    operations. -/
def init_genesis (g : GenesisState) : Ledger where
  accounts := genesis_accounts g.num_special_accounts
  assets := genesis_assets g
  balances := Table.empty.put (0,core) ⟨initial_share_supply,by decide,by decide⟩
  vestings := .empty
  contents := .empty
  buyings := .empty
  subscriptions := .empty
  permissions := .empty
  seeders := .empty
  statistics := .empty
  miners := .empty
  properties := ⟨0,g.initial_timestamp,0,0,0,0,0,0⟩
  parameters := g.initial_parameters
  pending_parameters := none
  applied := []
  payments := []
  publishing := []
  counted_from := 0

/-- What can happen to the ledger. -/
inductive Action
  | header (timestamp : Nat)
  | operation (env : Env) (op : Operation)
  | signing_miner (miner : Nat)
  | maintenance
  | settings (change : SettingsChange)

/-- `update_global_dynamic_data`: a block is later than its head. -/
def update_head (timestamp : Nat) : M Unit := do
  observe (fc_assert ((← get).properties.time < timestamp ∧ timestamp < 2^32))
  modify fun L => { L with properties := { L.properties with
    head_block_number := L.properties.head_block_number + 1
    time := timestamp } }

def perform : Action → M Unit
  | .header timestamp => update_head timestamp
  | .operation env op => apply_operation env op
  | .signing_miner miner => update_signing_miner miner
  | .maintenance => do
    let L ← get
    observe (fc_assert (L.properties.next_maintenance_time ≤ L.properties.time))
    perform_chain_maintenance
  | .settings change => do_evaluate.settle change

/-- The ledgers of all runs whose steps are `allowed` in the state they start from. A step
    that throws is undone and leaves no trace. -/
inductive Reached (g : GenesisState) (allowed : Ledger → Action → Prop) : Ledger → Prop
  | genesis : Reached g allowed (init_genesis g)
  | step {L L' : Ledger} {action : Action} (before : Reached g allowed L) (meets : allowed L action)
      (ran : EStateM.run (perform action) L = .ok () L') : Reached g allowed L'

/-- The ledgers of all runs. -/
def Reachable (g : GenesisState) : Ledger → Prop := Reached g fun _ _ => True

/-- An invariant of every run: it holds at genesis and every allowed step keeps it. -/
theorem Reached.invariant {g : GenesisState} {allowed : Ledger → Action → Prop} {P : Ledger → Prop}
    (first : P (init_genesis g))
    (keeps : ∀ {L L' : Ledger} {action : Action}, P L → allowed L action →
      EStateM.run (perform action) L = .ok () L' → P L')
    {L : Ledger} (reached : Reached g allowed L) : P L := by
  induction reached with
  | genesis => exact first
  | step before meets ran ih => exact keeps ih meets ran

theorem Reached.mono {g : GenesisState} {allowed allowed' : Ledger → Action → Prop}
    (weaker : ∀ L action, allowed L action → allowed' L action) {L : Ledger} (reached : Reached g allowed L) :
    Reached g allowed' L := by
  induction reached with
  | genesis => exact .genesis
  | step before meets ran ih => exact ih.step (weaker _ _ meets) ran

/-! ### A small chain -/

/-- Perform the actions one after another. -/
def perform_all : List Action → M Unit
  | [] => pure ()
  | action :: rest => do
    perform action
    perform_all rest

open Throwing in
theorem reachable_perform_all {g : GenesisState} {actions : List Action} {L L' : Ledger} (before : Reachable g L)
    (ran : EStateM.run (perform_all actions) L = .ok () L') : Reachable g L' := by
  induction actions generalizing L with
  | nil =>
    cases ran
    exact before
  | cons action rest ih =>
    simp only [perform_all,run_bind_ok] at ran
    obtain ⟨_,L₁,done,ran⟩ := ran
    exact ih (before.step trivial done) ran

/-- Perform the actions one after another, as long as each is allowed. -/
def perform_allowed (allowed : Ledger → Action → Prop) [∀ L action, Decidable (allowed L action)] : List Action → M Unit
  | [] => pure ()
  | action :: rest => do
    let L ← get
    observe (fc_assert (allowed L action))
    perform action
    perform_allowed allowed rest

open Throwing in
theorem reached_perform_allowed {g : GenesisState} {allowed : Ledger → Action → Prop}
    [∀ L action, Decidable (allowed L action)] {actions : List Action} {L L' : Ledger} (before : Reached g allowed L)
    (ran : EStateM.run (perform_allowed allowed actions) L = .ok () L') : Reached g allowed L' := by
  induction actions generalizing L with
  | nil =>
    cases ran
    exact before
  | cons action rest ih =>
    simp only [perform_allowed,run_bind_ok,run_observe,reads_lift,fc_assert_ok] at ran
    obtain ⟨_,_,got,_,_,⟨meets,rfl⟩,_,L₁,done,ran⟩ := ran
    cases got
    exact ih (before.step meets done) ran

def small_parameters : Parameters := ⟨5,86400,3,86400,by decide,by decide,by decide⟩

/-- The chain of the examples: blocks of five seconds, a maintenance a day, one monitored
    asset. -/
def small_genesis : GenesisState := ⟨1530000000,small_parameters,max_share_supply,4,1,[("USD",8,0)]⟩

/-- Without fees and with every proof in order. -/
def free_env : Env where
  calculate_fee := fun _ => 0
  skip_fee_schedule_check := false
  skip_delivery_check := false
  skip_validate := false
  verify_delivery_proof := fun _ _ _ _ _ => true
  verify_by_miner := fun _ _ => true
  get_block_id_for_num := fun _ => []
  is_region := fun _ => true

/-- Create an account with these options. -/
def new_account (options : AccountOptions) : Action := .operation free_env (.account_create ⟨⟨0,core⟩,0,options⟩)

/-- Give an account some of the initial supply. -/
def grant (account : AccountId) (amount : Asset) : Action :=
  .operation free_env (.transfer ⟨⟨0,core⟩,0,account,amount⟩)

/-- The ledger after these actions. -/
def after_actions (actions : List Action) : Ledger :=
  Throwing.endState (EStateM.run (perform_all actions) (init_genesis small_genesis))

theorem reachable_after_actions {actions : List Action}
    (returned : Throwing.returned (EStateM.run (perform_all actions) (init_genesis small_genesis)) = true) :
    Reachable small_genesis (after_actions actions) :=
  reachable_perform_all .genesis (Throwing.run_of_returned returned)

end Decent.Money

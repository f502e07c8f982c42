import Mathlib.Data.Finset.Basic
import Decent.ObjectDatabase

/-!
Blocks, transactions and operations as the chain passes them around. Only the
operations whose evaluators look outside the object database, or run other
operations, have a constructor of their own; the rest are of a type `O`.
-/
namespace Decent.Protocol

/-- `block_id_type`: the first word holds the block number, the others a hash. -/
structure BlockId where
  num : Nat
  hash : Nat
deriving DecidableEq, Repr

/-- `block_id_type()`. -/
def BlockId.zero : BlockId := ⟨0,0⟩

/-- `custody_proof`: the seed repeats the id of the reference block. -/
structure CustodyProof where
  reference_block : Nat
  seed : BlockId
  answer : Nat
deriving DecidableEq, Repr

/-- `operation`. -/
inductive Operation (O : Type)
  | proof_of_custody (seeder : Nat) (URI : String) (proof : Option CustodyProof)
  | proposal_create (expiration_time : Nat) (review_period_seconds : Option Nat) (proposed_ops : List (Operation O))
  | proposal_update (proposal : Nat) (active_to_add active_to_remove owner_to_add owner_to_remove
      key_to_add key_to_remove : Finset Nat)
  | proposal_delete (fee_paying_account : Nat) (using_owner_authority : Bool) (proposal : Nat)
  | other (op : O)

/-- `transaction`: what the transaction id is computed from. -/
structure TransactionBody (O : Type) where
  ref_block_num : Nat
  ref_block_prefix : Nat
  expiration : Nat
  operations : List (Operation O)

/-- `signed_transaction`. -/
structure Transaction (O : Type) extends TransactionBody O where
  signatures : List Nat

/-- `signed_block_header`. -/
structure Header where
  previous : BlockId
  timestamp : Nat
  miner : Nat
  transaction_merkle_root : Nat
  miner_signature : Nat
deriving DecidableEq, Repr

/-- `block_header::block_num`. -/
def Header.block_num (h : Header) : Nat := h.previous.num + 1

/-- `signed_block`. -/
structure Block (O : Type) extends Header where
  transactions : List (Transaction O)

variable {O : Type}

/-- `signed_block_header::id`: the digest with its first word replaced by the
    block number. -/
def Block.id (digest : Header → Nat) (b : Block O) : BlockId := ⟨b.block_num,digest b.toHeader⟩

@[simp] theorem id_num (digest : Header → Nat) (b : Block O) : (b.id digest).num = b.block_num := rfl

theorem block_num_pos (b : Block O) : 0 < b.block_num := Nat.succ_pos _

theorem previous_num (b : Block O) : b.previous.num + 1 = b.block_num := rfl

/-- A block never carries its own id as its parent's. -/
theorem id_ne_previous (digest : Header → Nat) (b : Block O) : b.id digest ≠ b.previous := by
  intro same
  have number := congrArg BlockId.num same
  have above := previous_num b
  rw [id_num] at number
  omega

end Decent.Protocol

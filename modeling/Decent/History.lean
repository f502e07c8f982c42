import Decent.Sessions

/-!
What the code of the database does to the history of a node: the applied chain, the
states on the undo stack and the stores beside the objects. `Quiet` is what
operations and transactions keep.
-/
namespace Decent.Database
open Decent.ObjectDatabase (Exc)
open Decent.Protocol
open Decent.ForkDatabase (Forks Item)
open Snapshots (Grown grown_refl grown_trans grown_push)
open Throwing

variable {R O : Type}

/-! ### Code that leaves the chain alone -/

/-- Two states of the objects with the same applied chain and the same head. -/
structure SameHead (a b : Objects R O) : Prop where
  applied : a.applied = b.applied
  head_block_id : a.head_block_id = b.head_block_id
  head_block_number : a.head_block_number = b.head_block_number

theorem SameHead.refl (a : Objects R O) : SameHead a a := ⟨rfl,rfl,rfl⟩

theorem SameHead.trans {a b c : Objects R O} (first : SameHead a b) (second : SameHead b c) : SameHead a c :=
  ⟨first.applied.trans second.applied,first.head_block_id.trans second.head_block_id,
    first.head_block_number.trans second.head_block_number⟩

/-- A stack with states of the same head pushed on it, and the oldest states dropped. -/
def Covers (o : Objects R O) (stack stack' : List (Objects R O)) : Prop :=
  ∃ above n, stack' = above ++ stack.take n ∧ ∀ x ∈ above, SameHead x o

/-- The relation that `Covers` puts on the states pushed. -/
theorem sameHead_composes : Composes fun a b : Objects R O => SameHead b a :=
  ⟨.refl,fun first second => second.trans first⟩

theorem covers_refl (o : Objects R O) (stack : List (Objects R O)) : Covers o stack stack :=
  show Grown (fun a b => SameHead b a) o stack stack from grown_refl o stack

theorem covers_trans {o o' : Objects R O} {a b c : List (Objects R O)} (same : SameHead o' o)
    (first : Covers o a b) (second : Covers o' b c) : Covers o a c := grown_trans sameHead_composes same first second

theorem covers_push {o : Objects R O} (stack : List (Objects R O)) (n : Nat) : Covers o stack (o :: stack.take n) :=
  grown_push sameHead_composes o stack n

/-- A fork database that lost items of its index and nothing else. -/
structure Pruned (F F' : Forks O) : Prop where
  head : F'.head = F.head
  next_addr : F'.next_addr = F.next_addr
  index : F'.index.Sublist F.index

theorem pruned_composes : Composes (Pruned (O := O)) where
  refl F := ⟨rfl,rfl,.refl _⟩
  trans := by
    intro a b c first second
    exact ⟨second.head.trans first.head,second.next_addr.trans first.next_addr,second.index.trans first.index⟩

/-- What operations, transactions and the rest of block application keep, the flags
    and the pending transactions apart. -/
structure Still (s s' : Node R O) : Prop where
  head : SameHead s'.objects s.objects
  stack : Covers s.objects s.undo.stack s'.undo.stack
  enabled : s.undo.disabled = false → s'.undo.disabled = false
  fork_db : Pruned s.fork_db s'.fork_db
  block_db : s'.block_db = s.block_db
  checkpoints : s'.checkpoints = s.checkpoints

/-- The flags and the pending transactions stay. -/
structure SamePending (s s' : Node R O) : Prop where
  popped_tx : s'.popped_tx = s.popped_tx
  pending_tx : s'.pending_tx = s.pending_tx
  pending_session : s'.pending_session = s.pending_session
  skip_flags : s'.skip_flags = s.skip_flags

/-- What operations and transactions keep. -/
structure Quiet (s s' : Node R O) : Prop extends Still s s', SamePending s s'

theorem still_composes : Composes (Still (R := R) (O := O)) where
  refl s := ⟨.refl _,covers_refl _ _,id,pruned_composes.refl _,rfl,rfl⟩
  trans := by
    intro a b c first second
    exact ⟨second.head.trans first.head,covers_trans first.head first.stack second.stack,
      second.enabled ∘ first.enabled,pruned_composes.trans first.fork_db second.fork_db,
      second.block_db.trans first.block_db,second.checkpoints.trans first.checkpoints⟩

theorem pending_composes : Composes (SamePending (R := R) (O := O)) where
  refl s := ⟨rfl,rfl,rfl,rfl⟩
  trans := by
    intro a b c first second
    exact ⟨second.popped_tx.trans first.popped_tx,second.pending_tx.trans first.pending_tx,second.pending_session.trans first.pending_session,
      second.skip_flags.trans first.skip_flags⟩

theorem quiet_composes : Composes (Quiet (R := R) (O := O)) where
  refl s := ⟨still_composes.refl s,pending_composes.refl s⟩
  trans := by
    intro a b c first second
    exact ⟨still_composes.trans first.toStill second.toStill,
      pending_composes.trans first.toSamePending second.toSamePending⟩

theorem quiet_objects (s : Node R O) {o : Objects R O} (same : SameHead o s.objects) :
    Quiet s { s with objects := o } :=
  ⟨⟨same,covers_refl _ _,id,pruned_composes.refl _,rfl,rfl⟩,⟨rfl,rfl,rfl,rfl⟩⟩

/-- The stores beside the objects stay, but for the items the fork database drops. -/
structure SameBeside (s s' : Node R O) : Prop where
  fork_db : Pruned s.fork_db s'.fork_db
  block_db : s'.block_db = s.block_db
  checkpoints : s'.checkpoints = s.checkpoints

theorem beside_composes : Composes (SameBeside (R := R) (O := O)) where
  refl s := ⟨pruned_composes.refl _,rfl,rfl⟩
  trans := by
    intro a b c first second
    exact ⟨pruned_composes.trans first.fork_db second.fork_db,second.block_db.trans first.block_db,
      second.checkpoints.trans first.checkpoints⟩

theorem still_with_session {b : Exec R O Unit} (inner : Keeps Still b) (force : Bool) (ending : Ending)
    {s : Node R O} (opens : force = true ∨ s.undo.disabled = false) :
    Still s (endState ((with_session force ending b).run s)) := by
  have heads : Keeps (Carries fun a b => SameHead b a) b :=
    fun s => ⟨(inner s).head,(inner s).stack,(inner s).enabled⟩
  have carries := carries_with_session sameHead_composes heads force ending opens
  have beside := keeps_session_of_ignores beside_composes (fun _ _ _ => ⟨pruned_composes.refl _,rfl,rfl⟩) (b := b)
    (fun s => ⟨(inner s).fork_db,(inner s).block_db,(inner s).checkpoints⟩) force ending s
  exact ⟨carries.objects,carries.stack,carries.enabled,beside.fork_db,beside.block_db,beside.checkpoints⟩

theorem quiet_neutral : Neutral (Quiet (R := R) (O := O)) where
  toComposes := quiet_composes
  touch s w ps n := quiet_objects s ⟨rfl,rfl,rfl⟩
  session := by
    intro body inner s
    refine ⟨still_with_session (fun s => (inner s).toStill) true .merge (.inl rfl),?_⟩
    exact keeps_session_of_ignores pending_composes (fun _ _ _ => ⟨rfl,rfl,rfl,rfl⟩) (fun s => (inner s).toSamePending)
      true .merge s

theorem quiet_update {f : Objects R O → Objects R O} (same : ∀ o, SameHead (f o) o) : Keeps Quiet (update f) :=
  keeps_update fun s => quiet_objects s (same s.objects)

theorem quiet_onWorld (x : Context → EStateM Exc (World R) Unit) : Keeps Quiet (onWorld x : Exec R O Unit) :=
  neutral_onWorld quiet_neutral x

theorem quiet_apply_transaction (E : Env R O) (trx : Transaction O) : Keeps Quiet (_apply_transaction E trx) :=
  neutral_apply_transaction quiet_neutral E trx (quiet_update fun _ => ⟨rfl,rfl,rfl⟩)

end Decent.Database

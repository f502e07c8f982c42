import Mathlib.Data.List.Nodup
import Mathlib.Data.List.Rotate
import Mathlib.Data.Fintype.Basic
import Mathlib.Algebra.Group.Nat.Defs

/-!
The schedule of the miners. Now and then the active miners are shuffled with the time of the head
block as the seed, and the slots go round the list: a slot that is missed takes its turn as well.
-/
namespace Decent.MinerSchedule

/-- The instance number of a `miner_id_type`. -/
abbrev MinerId := Nat

/-- A list of miners that can be scheduled: the source divides by their number, and counts them in 32
    bits. -/
structure Miners where
  ids : List MinerId
  some : 0 < ids.length
  distinct : ids.Nodup
  few : ids.length < 2^32

/-! ### The shuffle -/

def multiplier : UInt64 := 2685821657736338717

/-- The random number of a place, from the time in the upper half of a word. -/
def xorshift (now_hi : UInt64) (i : Nat) : UInt64 :=
  let k := now_hi + UInt64.ofNat i * multiplier
  let k := k ^^^ (k >>> 12)
  let k := k ^^^ (k <<< 25)
  let k := k ^^^ (k >>> 27)
  k * multiplier

/-- The place that is swapped with `i`; `jmax` and the sum have 32 bits. -/
def shuffle_index (now_hi : UInt64) (size i : Nat) : Nat :=
  let k := xorshift now_hi i
  let jmax := (size - i) % 2^32
  (i + k.toNat % jmax) % 2^32

/-- Every index is a place of the list, at `i` or behind it. -/
theorem shuffle_index_range {now_hi : UInt64} {size i : Nat} (few : size < 2^32) (inside : i < size) :
    i ≤ shuffle_index now_hi size i ∧ shuffle_index now_hi size i < size := by
  have jmax : (size - i) % 2^32 = size - i := Nat.mod_eq_of_lt (by omega)
  have left : (xorshift now_hi i).toNat % (size - i) < size - i := Nat.mod_lt _ (by omega)
  unfold shuffle_index
  dsimp only
  rw [jmax,Nat.mod_eq_of_lt (by omega)]
  omega

section
variable {size : Nat}

/-- The loop over the last `left` places; every swap is of two places of the list. -/
def shuffle (now_hi : UInt64) (few : size < 2^32) : (left : Nat) → left ≤ size → Vector MinerId size → Vector MinerId size
  | 0, _, miners => miners
  | left + 1, within, miners =>
    let i := size - (left + 1)
    have inside : i < size := by omega
    shuffle now_hi few left (by omega)
      (miners.swap i (shuffle_index now_hi size i) inside (shuffle_index_range few inside).2)

theorem shuffle_perm (now_hi : UInt64) (few : size < 2^32) (left : Nat) (within : left ≤ size) (miners : Vector MinerId size) :
    (shuffle now_hi few left within miners).Perm miners := by
  induction left generalizing miners with
  | zero => exact Vector.Perm.refl miners
  | succ left ih => exact (ih (by omega) _).trans (Vector.swap_perm _ _)

end

/-- The list after the loop of `update_miner_schedule`. -/
def Miners.shuffled (m : Miners) (now_hi : UInt64) : List MinerId :=
  (shuffle now_hi m.few m.ids.length le_rfl ⟨m.ids.toArray,rfl⟩).toList

theorem Miners.shuffled_perm (m : Miners) (now_hi : UInt64) : (m.shuffled now_hi).Perm m.ids := by
  have perm := shuffle_perm now_hi m.few m.ids.length le_rfl ⟨m.ids.toArray,rfl⟩
  exact (Vector.perm_iff_toList_perm.mp perm)

def Miners.shuffle (m : Miners) (now_hi : UInt64) : Miners where
  ids := m.shuffled now_hi
  some := by rw [(m.shuffled_perm now_hi).length_eq]; exact m.some
  distinct := (m.shuffled_perm now_hi).nodup_iff.mpr m.distinct
  few := by rw [(m.shuffled_perm now_hi).length_eq]; exact m.few

/-! ### The chain -/

/-- What the schedule depends on. -/
structure State where
  active_miners : Miners
  head_block_number : Nat
  time : Nat
  current_aslot : Nat
  current_shuffled_miners : Miners

/-- `update_miner_schedule`, at a block with this number and time. -/
def update_miner_schedule (S : State) : State :=
  if S.head_block_number % S.active_miners.ids.length = 0 then
    { S with current_shuffled_miners := S.active_miners.shuffle (UInt64.ofNat S.time <<< 32) }
  else S

/-- `get_scheduled_miner`; the absolute slot has 64 bits. -/
def get_scheduled_miner (S : State) (slot_num : Nat) : MinerId :=
  let current_aslot := (S.current_aslot + slot_num) % 2^64
  S.current_shuffled_miners.ids.get ⟨current_aslot % S.current_shuffled_miners.ids.length,
    Nat.mod_lt _ S.current_shuffled_miners.some⟩

/-- What the state has after the header of a block in some slot: the slots before it were missed. -/
def update_global_dynamic_data (S : State) (block_num timestamp slot : Nat) : State :=
  { S with
    head_block_number := block_num
    time := timestamp
    current_aslot := (S.current_aslot + slot) % 2^64 }

/-- A block: its header, the miners that a maintenance elects, and the schedule. -/
def apply_block (S : State) (block_num timestamp slot : Nat) (elected : Option Miners) : State :=
  let S := update_global_dynamic_data S block_num timestamp slot
  update_miner_schedule { S with active_miners := elected.getD S.active_miners }

/-- The states of all chains. A block comes after the head block, and its time and its slot have 32
    bits. -/
inductive Reached : State → Prop
  | genesis (miners : Miners) (time : Nat) (below : time < 2^32) : Reached ⟨miners,0,time,0,miners⟩
  | block {S : State} (before : Reached S) (block_num timestamp slot : Nat) (elected : Option Miners)
      (after : S.time < timestamp) (below : timestamp < 2^32) (slot_below : slot < 2^32) :
      Reached (apply_block S block_num timestamp slot elected)

/-- The chain goes on from one state to another, and no block in between replaces the list. -/
inductive Continues : State → State → Prop
  | here (S : State) : Continues S S
  | block {S T : State} (before : Continues S T) (block_num timestamp slot : Nat) (elected : Option Miners)
      (after : T.time < timestamp) (below : timestamp < 2^32) (slot_below : slot < 2^32)
      (same : (apply_block T block_num timestamp slot elected).current_shuffled_miners = T.current_shuffled_miners) :
      Continues S (apply_block T block_num timestamp slot elected)

theorem reached_continues {S T : State} (reached : Reached S) (continues : Continues S T) : Reached T := by
  induction continues with
  | here => exact reached
  | block before block_num timestamp slot elected after below slot_below same ih =>
    exact .block ih block_num timestamp slot elected after below slot_below

theorem continues_list {S T : State} (continues : Continues S T) :
    T.current_shuffled_miners = S.current_shuffled_miners := by
  induction continues with
  | here => rfl
  | block before block_num timestamp slot elected after below slot_below same ih => exact same.trans ih

@[simp] theorem update_miner_schedule_time (S : State) : (update_miner_schedule S).time = S.time := by
  unfold update_miner_schedule
  split <;> rfl

@[simp] theorem update_miner_schedule_aslot (S : State) : (update_miner_schedule S).current_aslot = S.current_aslot := by
  unfold update_miner_schedule
  split <;> rfl

/-- Every second there are fewer than `2^32` slots, so that the absolute slot does not run over. -/
theorem aslot_bound {S : State} (reached : Reached S) : S.time < 2^32 ∧ S.current_aslot ≤ S.time * 2^32 := by
  induction reached with
  | genesis miners time below => exact ⟨below,Nat.zero_le _⟩
  | @block S before block_num timestamp slot elected after below slot_below ih =>
    unfold apply_block
    rw [update_miner_schedule_time,update_miner_schedule_aslot]
    refine ⟨below,?_⟩
    show (S.current_aslot + slot) % 2^64 ≤ timestamp * 2^32
    refine Nat.le_trans (Nat.mod_le _ _) ?_
    have := ih.2
    omega

/-- Whose turn an absolute slot is. -/
def Miners.turn (m : Miners) (aslot : Nat) : MinerId := m.ids.get ⟨aslot % m.ids.length,Nat.mod_lt _ m.some⟩

theorem get_scheduled_miner_eq {S : State} (reached : Reached S) {slot_num : Nat} (below : slot_num < 2^32) :
    get_scheduled_miner S slot_num = S.current_shuffled_miners.turn (S.current_aslot + slot_num) := by
  obtain ⟨time,bound⟩ := aslot_bound reached
  unfold get_scheduled_miner Miners.turn
  simp only [Nat.mod_eq_of_lt (show S.current_aslot + slot_num < 2^64 by omega)]

/-- The turns go round once from any slot. -/
theorem Miners.turns_perm (m : Miners) (start : Nat) :
    ((List.range m.ids.length).map fun i => m.turn (start + i)).Perm m.ids := by
  have rotated : ((List.range m.ids.length).map fun i => m.turn (start + i)) = m.ids.rotate start := by
    refine List.ext_getElem (by simp) fun i _ _ => ?_
    simp only [List.getElem_map,List.getElem_range,List.getElem_rotate,Miners.turn,List.get_eq_getElem,Nat.add_comm]
  rw [rotated]
  exact List.rotate_perm m.ids start

/-- Slots that follow each other, each asked for at a state that the chain comes through before its list
    is replaced. -/
structure Window (S : State) (start : Nat) (states : Nat → State) (slots : Nat → Nat) : Prop where
  continues : ∀ i < S.current_shuffled_miners.ids.length, Continues S (states i)
  below : ∀ i < S.current_shuffled_miners.ids.length, slots i < 2^32
  absolute : ∀ i < S.current_shuffled_miners.ids.length, (states i).current_aslot + slots i = start + i

/-- The schedule is a permutation of the active miners after every shuffle, whatever the time, and as many
    slots as there are miners in the list, one after the other, are those of each of them once. -/
theorem schedule_fair :
    (∀ S : State, S.head_block_number % S.active_miners.ids.length = 0 →
      (update_miner_schedule S).current_shuffled_miners.ids.Perm S.active_miners.ids) ∧
    (∀ (now_hi : UInt64) (size i : Nat), size < 2^32 → i < size →
      i ≤ shuffle_index now_hi size i ∧ shuffle_index now_hi size i < size) ∧
    ∀ S : State, Reached S → ∀ start states slots, Window S start states slots →
      ∀ miner ∈ S.current_shuffled_miners.ids, ∃! i, i < S.current_shuffled_miners.ids.length ∧
        get_scheduled_miner (states i) (slots i) = miner := by
  refine ⟨fun S due => ?_,fun now_hi size i few inside => shuffle_index_range few inside,
    fun S reached start states slots window miner member => ?_⟩
  · unfold update_miner_schedule
    rw [if_pos due]
    exact S.active_miners.shuffled_perm _
  · have around := S.current_shuffled_miners.turns_perm start
    have asked (i : Nat) (inside : i < S.current_shuffled_miners.ids.length) :
        get_scheduled_miner (states i) (slots i) = S.current_shuffled_miners.turn (start + i) := by
      have continues := window.continues i inside
      rw [get_scheduled_miner_eq (reached_continues reached continues) (window.below i inside),
        continues_list continues,window.absolute i inside]
    obtain ⟨i,inside,same⟩ := List.mem_map.mp (around.symm.subset member)
    have inside := List.mem_range.mp inside
    refine ⟨i,⟨inside,(asked i inside).trans same⟩,fun j ⟨inside',same'⟩ => ?_⟩
    have once := around.nodup_iff.mpr S.current_shuffled_miners.distinct
    exact List.inj_on_of_nodup_map once (List.mem_range.mpr inside') (List.mem_range.mpr inside)
      (((asked j inside').symm.trans same').trans same.symm)

def three_miners : Miners := ⟨[1,2,3],by decide,by decide,by decide⟩

/-- A chain of three miners, and its first block, which comes in the second slot. -/
def first_state : State := ⟨three_miners,0,1530000000,0,three_miners⟩

def second_state : State := apply_block first_state 1 1530000010 2 none

/-- Of the slots 2, 3 and 4 the first is that of the block, and the others are asked for after it. -/
theorem schedule_fair_three : (update_miner_schedule { first_state with head_block_number := 3 }).current_shuffled_miners.ids.Perm [1,2,3] ∧
    shuffle_index (1530000000 <<< (32 : UInt64)) 3 1 < 3 ∧
    ∃! i, i < 3 ∧ get_scheduled_miner (if i = 0 then first_state else second_state) (if i = 0 then 2 else i) = 1 := by
  have reached : Reached first_state := .genesis three_miners 1530000000 (by decide)
  have continues : Continues first_state second_state :=
    .block (.here first_state) 1 1530000010 2 none (by decide) (by decide) (by decide) rfl
  obtain ⟨perm,range,once⟩ := schedule_fair
  refine ⟨perm { first_state with head_block_number := 3 } (by decide),(range (1530000000 <<< (32 : UInt64)) 3 1 (by decide) (by decide)).2,?_⟩
  refine once first_state reached 2 (fun i => if i = 0 then first_state else second_state) (fun i => if i = 0 then 2 else i)
    ⟨fun i _ => ?_,fun i inside => ?_,fun i inside => ?_⟩ 1 (by decide)
  · split
    · exact .here first_state
    · exact continues
  · have : i < 3 := inside
    split <;> omega
  · have : i < 3 := inside
    split
    case isTrue zero =>
      subst zero
      rfl
    case isFalse =>
      show 2 + i = 2 + i
      rfl

end Decent.MinerSchedule

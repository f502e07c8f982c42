import Mathlib.Data.List.Range
import Decent.MinerSchedule

/-!
The register of the recent slots, which the participation of the miners is computed from.
A block enters a one and behind it a zero for every slot it missed: the one is for the
slot after the block before, so the register shows the slots up to the one before the
head's.
-/
namespace Decent.MinerSchedule

/-- `GRAPHENE_100_PERCENT`. -/
def hundred_percent : Nat := 10000

/-- The `recent_slots_filled` of a block that has missed some slots. -/
def slots_filled (recent_slots_filled : BitVec 128) (missed_blocks : Nat) : BitVec 128 :=
  ((recent_slots_filled <<< 1) + 1#128) <<< missed_blocks

/-- `fc::uint128::popcount` -/
def popcount (recent_slots_filled : BitVec 128) : Nat :=
  (List.range 128).countP fun i => recent_slots_filled.getLsbD i

/-- `miner_participation_rate`, of 32 bits. -/
def miner_participation_rate (recent_slots_filled : BitVec 128) : Nat :=
  hundred_percent * popcount recent_slots_filled % 2^64 / 128 % 2^32

/-- The chains again, with the register and the absolute slots in which there was a block, the latest
    first; the genesis stands for slot 0. A block has missed the slots between its own and the head's. -/
inductive Recorded : State → BitVec 128 → List Nat → Prop
  | genesis (miners : Miners) (time : Nat) (below : time < 2^32) :
      Recorded ⟨miners,0,time,0,miners⟩ (BitVec.allOnes 128) [0]
  | block {S : State} {recent_slots_filled : BitVec 128} {filled : List Nat}
      (before : Recorded S recent_slots_filled filled) (block_num timestamp slot : Nat) (elected : Option Miners)
      (after : S.time < timestamp) (below : timestamp < 2^32) (some_slot : 0 < slot) (slot_below : slot < 2^32) :
      Recorded (apply_block S block_num timestamp slot elected) (slots_filled recent_slots_filled (slot - 1))
        ((apply_block S block_num timestamp slot elected).current_aslot :: filled)

section
variable {S : State} {recent_slots_filled : BitVec 128} {filled : List Nat}

theorem Recorded.reached (recorded : Recorded S recent_slots_filled filled) : Reached S := by
  induction recorded with
  | genesis miners time below => exact .genesis miners time below
  | block before block_num timestamp slot elected after below some_slot slot_below ih =>
    exact .block ih block_num timestamp slot elected after below slot_below

/-- The absolute slot of the next block. -/
theorem aslot_apply_block (reached : Reached S) {block_num timestamp slot : Nat} {elected : Option Miners}
    (slot_below : slot < 2^32) :
    (apply_block S block_num timestamp slot elected).current_aslot = S.current_aslot + slot := by
  obtain ⟨time,bound⟩ := aslot_bound reached
  rw [apply_block,update_miner_schedule_aslot]
  exact Nat.mod_eq_of_lt (by omega)

/-- A block leaves zeros for what it missed, a one, and the register before it. -/
theorem slots_filled_bit (recent_slots_filled : BitVec 128) {missed_blocks i : Nat} (inside : i < 128) :
    (slots_filled recent_slots_filled missed_blocks).getLsbD i =
      (decide (i = missed_blocks) || decide (missed_blocks < i) && recent_slots_filled.getLsbD (i - missed_blocks - 1)) := by
  have apart : (recent_slots_filled <<< 1) &&& 1#128 = 0#128 := by
    ext j
    simp only [BitVec.getElem_and,BitVec.getElem_shiftLeft,BitVec.getElem_one,BitVec.getElem_zero]
    by_cases first : j = 0 <;> simp [first]
  unfold slots_filled
  rw [BitVec.add_eq_or_of_and_eq_zero _ _ apart,BitVec.getLsbD_shiftLeft,BitVec.getLsbD_or,BitVec.getLsbD_shiftLeft,
    BitVec.getLsbD_one]
  rcases Nat.lt_trichotomy i missed_blocks with before | rfl | behind
  · simp [inside,before,Nat.ne_of_lt before,Nat.not_lt_of_gt before]
  · simp [inside]
  · have positive : i - missed_blocks ≠ 0 := by omega
    have bound : i - missed_blocks < 128 := by omega
    simp [inside,Nat.not_lt_of_gt behind,Nat.ne_of_gt behind,behind,positive,bound]

/-- The slots of the blocks do not lie behind the head's, and the head's is one of them. -/
theorem filled_bound (recorded : Recorded S recent_slots_filled filled) :
    S.current_aslot ∈ filled ∧ ∀ aslot ∈ filled, aslot ≤ S.current_aslot := by
  induction recorded with
  | genesis miners time below => simp
  | @block S recent_slots_filled filled before block_num timestamp slot elected after below some_slot slot_below ih =>
    refine ⟨List.mem_cons_self,fun aslot member => ?_⟩
    rcases List.mem_cons.mp member with rfl | earlier
    · exact Nat.le_refl _
    · rw [aslot_apply_block before.reached slot_below]
      exact Nat.le_trans (ih.2 aslot earlier) (Nat.le_add_right _ _)

/-- A bit shows the slot that many before the one before the head's, and a one where no slot is. -/
theorem recorded_bit (recorded : Recorded S recent_slots_filled filled) {i : Nat} (inside : i < 128) :
    (i < S.current_aslot → (recent_slots_filled.getLsbD i = true ↔ S.current_aslot - 1 - i ∈ filled)) ∧
      (S.current_aslot ≤ i → recent_slots_filled.getLsbD i = true) := by
  induction recorded generalizing i with
  | genesis miners time below =>
    refine ⟨fun elapsed => absurd elapsed (Nat.not_lt_zero i),fun _ => ?_⟩
    rw [BitVec.getLsbD_allOnes]
    exact decide_eq_true inside
  | @block S recent_slots_filled filled before block_num timestamp slot elected after below some_slot slot_below ih =>
    obtain ⟨head_filled,bound⟩ := filled_bound before
    rw [aslot_apply_block before.reached slot_below,slots_filled_bit recent_slots_filled inside,List.mem_cons]
    rcases Nat.lt_trichotomy i (slot - 1) with missed | first | earlier
    · -- A slot that was missed lies between those of the head before and of the block.
      have none : S.current_aslot + slot - 1 - i ∉ filled := fun member => by
        have := bound _ member
        omega
      refine ⟨fun elapsed => ?_,fun beyond => by omega⟩
      have other : S.current_aslot + slot - 1 - i ≠ S.current_aslot + slot := by omega
      simp [Nat.ne_of_lt missed,Nat.not_lt_of_gt missed,none,other]
    · have head : S.current_aslot + slot - 1 - i = S.current_aslot := by omega
      rw [head,decide_eq_true first,Bool.true_or]
      exact ⟨fun _ => ⟨fun _ => .inr head_filled,fun _ => rfl⟩,fun _ => rfl⟩
    · have old := ih (i := i - (slot - 1) - 1) (by omega)
      have bit : (decide (i = slot - 1) || decide (slot - 1 < i) && recent_slots_filled.getLsbD (i - (slot - 1) - 1)) =
          recent_slots_filled.getLsbD (i - (slot - 1) - 1) := by simp [Nat.ne_of_gt earlier,earlier]
      rw [bit]
      refine ⟨fun elapsed => ?_,fun beyond => old.2 (by omega)⟩
      have same : S.current_aslot + slot - 1 - i = S.current_aslot - 1 - (i - (slot - 1) - 1) := by omega
      have other : S.current_aslot + slot - 1 - i ≠ S.current_aslot + slot := by omega
      rw [old.1 (by omega),same]
      exact ⟨.inr,fun either => either.resolve_left fun is_head => other (same.trans is_head)⟩

theorem participation_rate_eq (recent_slots_filled : BitVec 128) :
    miner_participation_rate recent_slots_filled = hundred_percent * popcount recent_slots_filled / 128 := by
  have few : popcount recent_slots_filled ≤ 128 := by
    unfold popcount
    exact List.countP_le_length.trans_eq List.length_range
  have product : 10000 * popcount recent_slots_filled ≤ 10000 * 128 := Nat.mul_le_mul_left _ few
  unfold miner_participation_rate hundred_percent
  rw [Nat.mod_eq_of_lt (b := 2^64) (by omega),Nat.mod_eq_of_lt (by omega)]

/-- After every run of blocks the register shows which of the 128 slots before the head's had a block,
    and the rate is the part of ones in it. -/
theorem participation_recorded (recorded : Recorded S recent_slots_filled filled) :
    (∀ i < 128, i < S.current_aslot → (recent_slots_filled.getLsbD i = true ↔ S.current_aslot - 1 - i ∈ filled)) ∧
      miner_participation_rate recent_slots_filled = hundred_percent * popcount recent_slots_filled / 128 :=
  ⟨fun _ inside elapsed => (recorded_bit recorded inside).1 elapsed,participation_rate_eq _⟩

end

/-- The first block of a chain, in slot 2: slot 1 was missed. -/
theorem recorded_second : Recorded second_state (slots_filled (BitVec.allOnes 128) 1) [2,0] :=
  .block (.genesis three_miners 1530000000 (by decide)) 1 1530000010 2 none (by decide) (by decide) (by decide) (by decide)

/-- Bit 0 is for slot 1, which has no block, and bit 1 for the genesis. -/
theorem participation_recorded_second : ((slots_filled (BitVec.allOnes 128) 1).getLsbD 0 = true ↔ 1 ∈ [2,0]) ∧
    ((slots_filled (BitVec.allOnes 128) 1).getLsbD 1 = true ↔ 0 ∈ [2,0]) ∧
    miner_participation_rate (slots_filled (BitVec.allOnes 128) 1) = 9921 := by
  obtain ⟨bits,rate⟩ := participation_recorded recorded_second
  exact ⟨bits 0 (by decide) (by decide),bits 1 (by decide) (by decide),rate.trans (by decide +kernel)⟩

/-- The register does not show the slot of the head block itself: bit 0 is not for it. -/
theorem participation_of_head_slot : ¬∀ {S : State} {recent_slots_filled : BitVec 128} {filled : List Nat},
    Recorded S recent_slots_filled filled → ∀ i < 128, i < S.current_aslot →
      (recent_slots_filled.getLsbD i = true ↔ S.current_aslot - i ∈ filled) := by
  intro shows
  have head := shows recorded_second 0 (by decide) (by decide)
  exact absurd (head.mpr (by decide)) (by decide)

end Decent.MinerSchedule

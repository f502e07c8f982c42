import Decent.Intervals
import Mathlib.Algebra.BigOperators.Intervals
import Mathlib.Algebra.Order.BigOperators.Group.Finset
import Mathlib.Algebra.Order.Floor.Div

/-!
The rewards that a maintenance plans for: the blocks until the next one, counted from the time that
is left, with the reward that changes at the next switch.
-/
namespace Decent.Money
open Finset Throwing

/-! ### Rewards -/

/-- The blocks at which the reward changes. -/
def reward_switches : List Nat := [DECENT_SPLIT_0,DECENT_SPLIT_1,DECENT_SPLIT_2,DECENT_SPLIT_3,DECENT_SPLIT_4]

/-- From a block to a later one the reward changes at most once. -/
def OneSwitch (start last : Nat) : Prop :=
  ∀ s ∈ reward_switches, ∀ s' ∈ reward_switches, start ≤ s → s < s' → last < s'

/-- What `get_miner_budget` takes a later block to be rewarded. -/
def planned_reward (head_block_num block_num : Nat) : Int :=
  if block_num < (get_next_reward_switch_block head_block_num).1 then get_asset_per_block_by_block_num head_block_num
  else (get_next_reward_switch_block head_block_num).2

theorem oneSwitch_iff (start last : Nat) : OneSwitch start last ↔
    (100000 < start ∨ last < 31653280) ∧ (31653280 < start ∨ last < 63206560) ∧
      (63206560 < start ∨ last < 94777120) ∧ (94777120 < start ∨ last < 126330400) := by
  simp [OneSwitch,reward_switches,DECENT_SPLIT_0,DECENT_SPLIT_1,DECENT_SPLIT_2,DECENT_SPLIT_3,DECENT_SPLIT_4]
  omega

/-- The reward of a block, which switches five times. -/
theorem reward_cases (b : Nat) :
    (b < 100000 ∧ get_asset_per_block_by_block_num b = 0) ∨
    ((100000 ≤ b ∧ b < 31653280) ∧ get_asset_per_block_by_block_num b = 37000000) ∨
    ((31653280 ≤ b ∧ b < 63206560) ∧ get_asset_per_block_by_block_num b = 18500000) ∨
    ((63206560 ≤ b ∧ b < 94777120) ∧ get_asset_per_block_by_block_num b = 9250000) ∨
    ((94777120 ≤ b ∧ b < 126330400) ∧ get_asset_per_block_by_block_num b = 4625000) ∨
    (126330400 ≤ b ∧ get_asset_per_block_by_block_num b = 0) := by
  unfold get_asset_per_block_by_block_num
  split_ifs with h0 h1 h2 h3 h4
  · exact .inl ⟨h0,rfl⟩
  · exact .inr (.inl ⟨⟨not_lt.mp h0,h1⟩,rfl⟩)
  · exact .inr (.inr (.inl ⟨⟨not_lt.mp h1,h2⟩,rfl⟩))
  · exact .inr (.inr (.inr (.inl ⟨⟨not_lt.mp h2,h3⟩,rfl⟩)))
  · exact .inr (.inr (.inr (.inr (.inl ⟨⟨not_lt.mp h3,h4⟩,rfl⟩))))
  · exact .inr (.inr (.inr (.inr (.inr ⟨not_lt.mp h4,rfl⟩))))

theorem switch_cases (start : Nat) :
    (start ≤ 100000 ∧ get_next_reward_switch_block start = (100000,37000000)) ∨
    ((100000 < start ∧ start ≤ 31653280) ∧ get_next_reward_switch_block start = (31653280,18500000)) ∨
    ((31653280 < start ∧ start ≤ 63206560) ∧ get_next_reward_switch_block start = (63206560,9250000)) ∨
    ((63206560 < start ∧ start ≤ 94777120) ∧ get_next_reward_switch_block start = (94777120,4625000)) ∨
    ((94777120 < start ∧ start ≤ 126330400) ∧ get_next_reward_switch_block start = (126330400,0)) ∨
    (126330400 < start ∧ get_next_reward_switch_block start = (0,0)) := by
  unfold get_next_reward_switch_block
  split_ifs with h0 h1 h2 h3 h4
  · exact .inl ⟨h0,rfl⟩
  · exact .inr (.inl ⟨⟨not_le.mp h0,h1⟩,rfl⟩)
  · exact .inr (.inr (.inl ⟨⟨not_le.mp h1,h2⟩,rfl⟩))
  · exact .inr (.inr (.inr (.inl ⟨⟨not_le.mp h2,h3⟩,rfl⟩)))
  · exact .inr (.inr (.inr (.inr (.inl ⟨⟨not_le.mp h3,h4⟩,rfl⟩))))
  · exact .inr (.inr (.inr (.inr (.inr ⟨not_le.mp h4,rfl⟩))))

/-- A later block is rewarded no more than planned, and less from the second switch on. -/
theorem planned_reward_iff {head b : Nat} (after : head < b) :
    get_asset_per_block_by_block_num b ≤ planned_reward head b ∧
    (get_asset_per_block_by_block_num b = planned_reward head b ↔ OneSwitch head b) := by
  rw [oneSwitch_iff]
  unfold planned_reward
  rcases switch_cases head with ⟨_,next⟩ | ⟨_,next⟩ | ⟨_,next⟩ | ⟨_,next⟩ | ⟨_,next⟩ | ⟨_,next⟩ <;>
  rcases reward_cases b with ⟨_,later⟩ | ⟨_,later⟩ | ⟨_,later⟩ | ⟨_,later⟩ | ⟨_,later⟩ | ⟨_,later⟩ <;>
  rw [next,later] <;> dsimp only <;>
  rcases reward_cases head with ⟨_,now⟩ | ⟨_,now⟩ | ⟨_,now⟩ | ⟨_,now⟩ | ⟨_,now⟩ | ⟨_,now⟩ <;> rw [now] <;> omega

/-- A sum of two values, one before a switch and one from there on. -/
theorem sum_switch (start switch : Nat) (before after : Int) (n : Nat) :
    ∑ i ∈ range n, (if start + i < switch then before else after) =
      before * (min n (switch - start) : Nat) + after * (n - min n (switch - start) : Nat) := by
  induction n with
  | zero => simp
  | succ n ih =>
    rw [sum_range_succ,ih]
    split
    case isTrue early =>
      rw [show min (n + 1) (switch - start) = min n (switch - start) + 1 by omega,
        show n + 1 - (min n (switch - start) + 1) = n - min n (switch - start) by omega,Nat.cast_add_one,Int.mul_add]
      omega
    case isFalse late =>
      rw [show min (n + 1) (switch - start) = min n (switch - start) by omega,
        show n + 1 - min n (switch - start) = n - min n (switch - start) + 1 by omega,Nat.cast_add_one (n - _),Int.mul_add after]
      omega

/-- What `get_miner_budget` computes. -/
def planned_budget (head blocks : Nat) : Int :=
  if (get_next_reward_switch_block head).1 ≤ (head + 1 + blocks) % 2^32 then
    get_asset_per_block_by_block_num head * ((get_next_reward_switch_block head).1 - head - 1) +
      (get_next_reward_switch_block head).2 * (blocks - ((get_next_reward_switch_block head).1 - head - 1))
  else blocks * get_asset_per_block_by_block_num head

theorem reward_bounds (b : Nat) :
    0 ≤ get_asset_per_block_by_block_num b ∧ get_asset_per_block_by_block_num b ≤ 37000000 := by
  rcases reward_cases b with ⟨-,h⟩ | ⟨-,h⟩ | ⟨-,h⟩ | ⟨-,h⟩ | ⟨-,h⟩ | ⟨-,h⟩ <;> rw [h] <;> decide

/-- From the first switch on the rewards only fall. -/
theorem rewards_fall {a b : Nat} (rewarded : 100000 ≤ a) (after : a ≤ b) :
    get_asset_per_block_by_block_num b ≤ get_asset_per_block_by_block_num a := by
  rcases reward_cases a with ⟨_,now⟩ | ⟨_,now⟩ | ⟨_,now⟩ | ⟨_,now⟩ | ⟨_,now⟩ | ⟨_,now⟩ <;>
  rcases reward_cases b with ⟨_,h⟩ | ⟨_,h⟩ | ⟨_,h⟩ | ⟨_,h⟩ | ⟨_,h⟩ | ⟨_,h⟩ <;> rw [h,now] <;> omega

/-- There is a reward before the last switch, and none behind it. -/
theorem reward_pos {b : Nat} (rewarded : 100000 ≤ b) (before : b < DECENT_SPLIT_4) : 0 < get_asset_per_block_by_block_num b := by
  have before : b < 126330400 := before
  rcases reward_cases b with ⟨_,h⟩ | ⟨_,h⟩ | ⟨_,h⟩ | ⟨_,h⟩ | ⟨_,h⟩ | ⟨_,h⟩ <;> rw [h] <;> omega

theorem reward_past {b : Nat} (past : DECENT_SPLIT_4 ≤ b) : get_asset_per_block_by_block_num b = 0 := by
  have past : 126330400 ≤ b := past
  rcases reward_cases b with ⟨_,h⟩ | ⟨_,h⟩ | ⟨_,h⟩ | ⟨_,h⟩ | ⟨_,h⟩ | ⟨_,h⟩ <;> rw [h] <;> omega

/-- A reward times a number of blocks is far from the ends of 64 bits. -/
theorem reward_product {reward : Int} (blocks : Int) (low : 0 ≤ reward) (high : reward ≤ 37000000) (far : -2^33 ≤ blocks)
    (near : blocks ≤ 2^33) : -2^61 ≤ reward * blocks ∧ reward * blocks ≤ 2^61 := by
  have most := Int.mul_le_mul_of_nonneg_left near low
  have least := Int.mul_le_mul_of_nonneg_left far low
  constructor <;> omega

theorem get_miner_budget_eq {head blocks : Nat} (head_below : head < 2^32) (blocks_below : blocks < 2^32) :
    get_miner_budget head blocks = .ok (planned_budget head blocks) := by
  obtain ⟨low,high⟩ := reward_bounds head
  have switch : (get_next_reward_switch_block head).1 ≤ 126330400 ∧ 0 ≤ (get_next_reward_switch_block head).2 ∧
      (get_next_reward_switch_block head).2 ≤ 37000000 := by
    rcases switch_cases head with ⟨-,h⟩ | ⟨-,h⟩ | ⟨-,h⟩ | ⟨-,h⟩ | ⟨-,h⟩ | ⟨-,h⟩ <;> rw [h] <;> decide
  unfold get_miner_budget planned_budget
  generalize get_asset_per_block_by_block_num head = reward at *
  generalize get_next_reward_switch_block head = next at *
  obtain ⟨next_switch,next_reward⟩ := next
  dsimp only at switch ⊢
  obtain ⟨early,low',high'⟩ := switch
  split
  · rw [Int.bmod_eq_of_le (by omega) (by omega)]
    generalize hs : (next_switch : Int) - head - 1 = to_switch
    obtain ⟨far,near⟩ := reward_product to_switch low high (by omega) (by omega)
    obtain ⟨far',near'⟩ := reward_product (blocks - to_switch) low' high' (by omega) (by omega)
    rw [Int.bmod_eq_of_le (by omega) (by omega)]
    have first : checked (reward * to_switch) = .ok (reward * to_switch) := checked_ok.mpr ⟨by unfold Fits; omega,rfl⟩
    rw [first]
    exact checked_ok.mpr ⟨by unfold Fits; omega,rfl⟩
  · obtain ⟨far,near⟩ := reward_product blocks low high (by omega) (by omega)
    rw [Int.mul_comm] at far near
    exact checked_ok.mpr ⟨by unfold Fits; omega,rfl⟩

/-- Below the end of 32 bits these are the blocks up to the switch, and those behind it. -/
theorem planned_budget_eq {head blocks : Nat} (below : head + 1 + blocks < 2^32) :
    planned_budget head blocks = ∑ i ∈ range blocks, planned_reward head (head + 1 + i) := by
  unfold planned_budget planned_reward
  rw [sum_switch,Nat.mod_eq_of_lt below]
  rcases switch_cases head with ⟨_,next⟩ | ⟨_,next⟩ | ⟨_,next⟩ | ⟨_,next⟩ | ⟨_,next⟩ | ⟨_,next⟩ <;>
  rw [next] <;> dsimp only <;>
  rcases reward_cases head with ⟨_,now⟩ | ⟨_,now⟩ | ⟨_,now⟩ | ⟨_,now⟩ | ⟨_,now⟩ | ⟨_,now⟩ <;> rw [now] <;> split <;> omega

theorem OneSwitch.mono {start last last' : Nat} (le : last ≤ last') (one : OneSwitch start last') : OneSwitch start last :=
  fun s mem s' mem' from_start earlier => Nat.lt_of_le_of_lt le (one s mem s' mem' from_start earlier)

theorem sum_planned_iff (head blocks : Nat) :
    ∑ i ∈ range blocks, planned_reward head (head + 1 + i) =
      ∑ i ∈ range blocks, get_asset_per_block_by_block_num (head + 1 + i) ↔ OneSwitch head (head + blocks) := by
  rw [eq_comm,sum_eq_sum_iff_of_le fun i _ => (planned_reward_iff (by omega)).1]
  constructor
  · intro same
    cases blocks with
    | zero =>
      rw [oneSwitch_iff]
      omega
    | succ n =>
      have last := (planned_reward_iff (by omega)).2.mp (same n (mem_range.mpr (Nat.lt_succ_self n)))
      rwa [show head + 1 + n = head + (n + 1) by omega] at last
  · intro one i mem
    have := mem_range.mp mem
    exact (planned_reward_iff (by omega)).2.mpr (one.mono (by omega))

/-- Past the end of 32 bits all blocks are taken to be rewarded as the head block, and some are not. -/
theorem planned_budget_wraps {head blocks : Nat} (early : head < DECENT_SPLIT_4) (blocks_below : blocks < 2^32)
    (wraps : 2^32 ≤ head + 1 + blocks) :
    planned_budget head blocks ≠ ∑ i ∈ range blocks, get_asset_per_block_by_block_num (head + 1 + i) := by
  have early' : head < 126330400 := early
  have planned : planned_budget head blocks = ∑ _i ∈ range blocks, get_asset_per_block_by_block_num head := by
    rw [sum_const,card_range,nsmul_eq_mul]
    unfold planned_budget
    rcases switch_cases head with ⟨_,next⟩ | ⟨_,next⟩ | ⟨_,next⟩ | ⟨_,next⟩ | ⟨_,next⟩ | ⟨_,next⟩ <;>
    rw [next] <;> dsimp only <;>
    rcases reward_cases head with ⟨_,now⟩ | ⟨_,now⟩ | ⟨_,now⟩ | ⟨_,now⟩ | ⟨_,now⟩ | ⟨_,now⟩ <;> rw [now] <;> split <;> omega
  rw [planned]
  rcases Nat.lt_or_ge head 100000 with free | rewarded
  · have none : get_asset_per_block_by_block_num head = 0 := if_pos free
    rw [none]
    refine ne_of_lt (sum_lt_sum (fun i _ => (reward_bounds _).1) ⟨100000 - head - 1,mem_range.mpr (by omega),?_⟩)
    exact reward_pos (by omega) (by unfold DECENT_SPLIT_4; omega)
  · refine ne_of_gt (sum_lt_sum (fun i _ => rewards_fall rewarded (by omega)) ⟨blocks - 1,mem_range.mpr (by omega),?_⟩)
    rw [reward_past (by unfold DECENT_SPLIT_4; omega)]
    exact reward_pos rewarded early

theorem planned_budget_iff {head blocks : Nat} (blocks_below : blocks < 2^32) :
    planned_budget head blocks = ∑ i ∈ range blocks, get_asset_per_block_by_block_num (head + 1 + i) ↔
      OneSwitch head (head + blocks) ∧ (DECENT_SPLIT_4 ≤ head ∨ head + 1 + blocks < 2^32) := by
  rcases Nat.lt_or_ge (head + 1 + blocks) (2^32) with below | wraps
  · rw [planned_budget_eq below,sum_planned_iff]
    exact ⟨fun one => ⟨one,.inr below⟩,And.left⟩
  rcases Nat.lt_or_ge head DECENT_SPLIT_4 with early | past
  · refine iff_of_false (planned_budget_wraps early blocks_below wraps) ?_
    rintro ⟨-,past | below⟩
    · exact absurd past (Nat.not_le.mpr early)
    · exact absurd below (Nat.not_lt.mpr wraps)
  · have past' : 126330400 ≤ head := past
    have one : OneSwitch head (head + blocks) := by
      rw [oneSwitch_iff]
      omega
    refine iff_of_true ?_ ⟨one,.inl past⟩
    rw [sum_eq_zero fun i _ => reward_past (by omega)]
    unfold planned_budget
    rcases switch_cases head with ⟨_,next⟩ | ⟨_,next⟩ | ⟨_,next⟩ | ⟨_,next⟩ | ⟨_,next⟩ | ⟨_,next⟩ <;>
    rw [next,reward_past past] <;> dsimp only <;> split <;> omega

/-! ### Blocks -/

/-- The number of blocks that `process_budget` plans for, which has 32 bits. -/
def blocks_to_maint (L : Ledger) : Nat :=
  let time_to_maint : Int := (L.properties.next_maintenance_time : Int) - L.properties.time
  ((((time_to_maint % 2^64).toNat + L.parameters.block_interval - 1) / L.parameters.block_interval -
    (L.parameters.maintenance_skip_slots : Int)) % 2^32).toNat

/-- The steps of a maintenance before its budget. -/
def schedule_maintenance : M Unit := do
  observe tally_votes
  decent_housekeeping
  modify fun L => { L with parameters := L.pending_parameters.getD L.parameters, pending_parameters := none }
  let L ← get
  if L.properties.next_maintenance_time ≤ L.properties.time then
    modify fun L => { L with properties := { L.properties with
      next_maintenance_time := next_time L.properties L.parameters.maintenance_interval } }

theorem perform_chain_maintenance_eq : perform_chain_maintenance = (do
    schedule_maintenance
    process_budget) := by
  have settle (c : Prop) [Decidable c] (m : M Unit) :
      (if c then m >>= fun _ => process_budget else process_budget) = (if c then m else pure ()) >>= fun _ => process_budget := by
    split <;> rfl
  unfold perform_chain_maintenance schedule_maintenance
  simp only [bind_assoc,settle]

theorem process_budget_planned {L L' : Ledger} (ran : EStateM.run process_budget L = .ok () L') :
    get_miner_budget L.properties.head_block_number (blocks_to_maint L) = .ok L'.properties.miner_budget_from_rewards := by
  simp only [process_budget,run_get_bind,run_observe_bind,reads_lift,get_asset_ok] at ran
  obtain ⟨core_asset,found,_,-,_,-,_,-,planned_for_mining,planned,_,-,_,-,_,-,_,-,ran⟩ := ran
  obtain ⟨_,L₁,changed,done⟩ := run_bind_ok.mp ran
  cases done
  exact planned

/-- The time that is left takes as many intervals as there are slots in it, or one less if it ends as
    early in its slot as the head block stands, and not at its begin. -/
theorem ceilDiv_between {start stop interval : Nat} (positive : 0 < interval) (le : start ≤ stop) :
    stop ⌈/⌉ interval = (stop - start) ⌈/⌉ interval + start / interval +
      if stop % interval = 0 ∨ start % interval < stop % interval then 0 else 1 := by
  have least : (stop - start) ⌈/⌉ interval + start / interval ≤ stop ⌈/⌉ interval := by
    simp only [Nat.ceilDiv_eq_add_pred_div]
    refine Nat.div_add_div_le_add_div.trans (Nat.div_le_div_right ?_)
    omega
  split
  case isTrue aligned =>
    have most := @slots_between _ _ _ 0 positive (.inr aligned)
    simp only [← Nat.ceilDiv_eq_add_pred_div] at most
    omega
  case isFalse uneven =>
    have most := @slots_between start stop _ 1 positive (.inl Nat.one_pos)
    simp only [← Nat.ceilDiv_eq_add_pred_div] at most
    have ofStart := Nat.div_add_mod start interval
    have ofStop := Nat.div_add_mod stop interval
    have whole : (stop - start) ⌈/⌉ interval ≤ stop / interval - start / interval := by
      refine (ceilDiv_le_iff_le_mul positive).mpr ?_
      rw [Nat.mul_sub]
      omega
    have begun : stop / interval < stop ⌈/⌉ interval := by
      refine Nat.lt_of_not_le fun ended => ?_
      have := (ceilDiv_le_iff_le_mul positive).mp ended
      omega
    have := Nat.div_le_div_right (c := interval) le
    omega

section
variable {L : Ledger}

/-- The intervals of blocks until the next maintenance, the last of them begun. -/
def intervals_left (L : Ledger) : Nat :=
  (L.properties.next_maintenance_time - L.properties.time + L.parameters.block_interval - 1) / L.parameters.block_interval

/-- The slots after a maintenance in which the next one is due. -/
def due_slots (L : Ledger) : Set Nat :=
  { n | 1 ≤ n ∧ L.properties.next_maintenance_time ≤ slot_begin L true n }

theorem blocks_to_maint_eq (ahead : L.properties.time < L.properties.next_maintenance_time)
    (below : L.properties.next_maintenance_time < 2^32) :
    blocks_to_maint L = (((intervals_left L : Int) - L.parameters.maintenance_skip_slots) % 2^32).toNat := by
  have left : (((L.properties.next_maintenance_time : Int) - L.properties.time) % 2^64).toNat =
      L.properties.next_maintenance_time - L.properties.time := by omega
  have positive := L.parameters.interval_positive
  have intervals : (((L.properties.next_maintenance_time - L.properties.time : Nat) : Int) + L.parameters.block_interval - 1) /
      L.parameters.block_interval = (intervals_left L : Int) := by
    rw [intervals_left,Int.natCast_ediv]
    congr 1
    omega
  unfold blocks_to_maint
  dsimp only
  rw [left,intervals]

/-- The first slot in which maintenance is due is the last one that can be produced until then. -/
theorem isLeast_due_slots (started : 0 < L.properties.head_block_number) {more : Nat}
    (slots : L.properties.next_maintenance_time ⌈/⌉ L.parameters.block_interval =
      intervals_left L + L.properties.time / L.parameters.block_interval + more) (n : Nat) :
    IsLeast (due_slots L) n ↔ n = max 1 (intervals_left L + more - L.parameters.maintenance_skip_slots) := by
  have due (n : Nat) : n ∈ due_slots L ↔ 1 ≤ n ∧ intervals_left L + L.properties.time / L.parameters.block_interval + more ≤
      L.properties.time / L.parameters.block_interval + n + L.parameters.maintenance_skip_slots := by
    rw [← slots,ceilDiv_le_iff_le_mul L.parameters.interval_positive,Nat.mul_comm]
    unfold due_slots slot_begin
    simp only [if_neg (Nat.ne_of_gt started)]
    rfl
  have first : IsLeast (due_slots L) (max 1 (intervals_left L + more - L.parameters.maintenance_skip_slots)) := by
    refine ⟨(due _).mpr ?_,fun m held => ?_⟩
    · omega
    · have := (due m).mp held
      omega
  exact ⟨fun least => least.unique first,fun same => same ▸ first⟩

end

/-- The number of blocks planned for is that of the slots up to the one that maintenance is due in,
    and they are planned to be paid what the blocks with their numbers are rewarded. -/
def Planned (L : Ledger) (planned_for_mining : Int) : Prop :=
  IsLeast (due_slots L) (blocks_to_maint L) ∧
    planned_for_mining = ∑ i ∈ range (blocks_to_maint L), get_asset_per_block_by_block_num (L.properties.head_block_number + 1 + i)

/-- A maintenance plans right exactly when it does not skip all slots, the next one comes early enough in
    its slot, the reward switches no more than once, and numbers of blocks with a reward have 32 bits. -/
theorem planned_iff (L L' : Ledger) (ran : EStateM.run process_budget L = .ok () L')
    (started : 0 < L.properties.head_block_number) (numbered : L.properties.head_block_number < 2^32)
    (ahead : L.properties.time < L.properties.next_maintenance_time) (below : L.properties.next_maintenance_time < 2^32)
    (skipped : L.parameters.maintenance_skip_slots < 2^8) :
    Planned L L'.properties.miner_budget_from_rewards ↔
      L.parameters.maintenance_skip_slots < intervals_left L ∧
      (L.properties.next_maintenance_time % L.parameters.block_interval = 0 ∨
        L.properties.time % L.parameters.block_interval < L.properties.next_maintenance_time % L.parameters.block_interval) ∧
      OneSwitch L.properties.head_block_number
        (L.properties.head_block_number + (intervals_left L - L.parameters.maintenance_skip_slots)) ∧
      (DECENT_SPLIT_4 ≤ L.properties.head_block_number ∨
        L.properties.head_block_number + 1 + (intervals_left L - L.parameters.maintenance_skip_slots) < 2^32) := by
  have blocks := blocks_to_maint_eq ahead below
  have few : intervals_left L < 2^32 := by
    have positive := L.parameters.interval_positive
    have := (ceilDiv_le_iff_le_mul (b := L.properties.next_maintenance_time - L.properties.time)
      (c := L.properties.next_maintenance_time) positive).mpr
        (Nat.le_trans (Nat.sub_le _ _) (Nat.le_mul_of_pos_left _ positive))
    exact Nat.lt_of_le_of_lt this below
  have blocks_below : blocks_to_maint L < 2^32 := by omega
  have planned := Except.ok.inj ((get_miner_budget_eq numbered blocks_below).symm.trans (process_budget_planned ran))
  have sums := @planned_budget_iff L.properties.head_block_number _ blocks_below
  unfold Planned
  have slots := ceilDiv_between L.parameters.interval_positive (Nat.le_of_lt ahead)
  have within : IsLeast (due_slots L) (blocks_to_maint L) ↔
      L.parameters.maintenance_skip_slots < intervals_left L ∧
      (L.properties.next_maintenance_time % L.parameters.block_interval = 0 ∨
        L.properties.time % L.parameters.block_interval < L.properties.next_maintenance_time % L.parameters.block_interval) := by
    split at slots
    case isTrue aligned =>
      rw [isLeast_due_slots started slots,and_iff_left aligned]
      omega
    case isFalse uneven =>
      rw [isLeast_due_slots started slots]
      simp only [uneven,and_false,iff_false]
      omega
  rw [← planned,sums,within,and_assoc]
  refine and_congr_right fun some => and_congr_right fun _ => ?_
  rw [show blocks_to_maint L = intervals_left L - L.parameters.maintenance_skip_slots by omega]

/-- The first block is made five seconds before a multiple of the interval of maintenance. -/
def late_first : List Action := [.header 1530057595]

/-- One interval is left and three slots are skipped: the maintenance plans for `2^32 - 2` blocks. -/
theorem planned_too_many : ∃ L L', EStateM.run schedule_maintenance (after_actions late_first) = .ok () L ∧
    EStateM.run process_budget L = .ok () L' ∧ blocks_to_maint L = 4294967294 ∧
    ¬Planned L L'.properties.miner_budget_from_rewards := by
  have scheduled := run_of_returned (x := schedule_maintenance) (s := after_actions late_first) (by decide +kernel)
  have budgeted := run_of_returned (x := process_budget)
    (s := endState (EStateM.run schedule_maintenance (after_actions late_first))) (by decide +kernel)
  refine ⟨_,_,scheduled,budgeted,by decide +kernel,fun planned => ?_⟩
  have few := planned.1.2 (show 1 ∈ due_slots _ by
    refine ⟨le_rfl,?_⟩
    decide +kernel)
  revert few
  decide +kernel

/-- The first block is made with hours to go until the next maintenance. -/
theorem planned_early_first : ∃ L L', EStateM.run schedule_maintenance (after_actions [.header 1530000005]) = .ok () L ∧
    EStateM.run process_budget L = .ok () L' ∧ Planned L L'.properties.miner_budget_from_rewards := by
  have scheduled := run_of_returned (x := schedule_maintenance) (s := after_actions [.header 1530000005]) (by decide +kernel)
  have budgeted := run_of_returned (x := process_budget)
    (s := endState (EStateM.run schedule_maintenance (after_actions [.header 1530000005]))) (by decide +kernel)
  refine ⟨_,_,scheduled,budgeted,(planned_iff _ _ budgeted (by decide +kernel) (by decide +kernel) (by decide +kernel)
    (by decide +kernel) (by decide +kernel)).mpr ⟨by decide +kernel,.inl (by decide +kernel),?_,.inr (by decide +kernel)⟩⟩
  rw [oneSwitch_iff]
  decide +kernel

end Decent.Money

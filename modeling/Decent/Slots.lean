import Decent.Blocks

/-!
The slots of blocks, as a grid of seconds: at genesis it begins one interval after the time of the
file, and later at a multiple of the interval, however the head block stands to it. A block of
maintenance is followed by some slots that are skipped.
-/
namespace Decent.Money

/-- The second at which a slot begins, on a clock that does not run over. -/
def slot_begin (L : Ledger) (maintenance_flag : Bool) (slot_num : Nat) : Nat :=
  if L.properties.head_block_number = 0 then L.properties.time + slot_num * L.parameters.block_interval
  else (L.properties.time / L.parameters.block_interval + slot_num +
    if maintenance_flag then L.parameters.maintenance_skip_slots else 0) * L.parameters.block_interval

section
variable {L : Ledger} {maintenance_flag : Bool}

/-- Every slot is one interval long. -/
theorem slot_begin_add (m n : Nat) :
    slot_begin L maintenance_flag (m + n) = slot_begin L maintenance_flag m + n * L.parameters.block_interval := by
  unfold slot_begin
  split
  · rw [Nat.add_mul,Nat.add_assoc]
  · rw [← Nat.add_mul]
    congr 1
    omega

theorem slot_begin_strictMono : StrictMono (slot_begin L maintenance_flag) := by
  refine strictMono_nat_of_lt_succ fun n => ?_
  rw [slot_begin_add,Nat.one_mul]
  exact Nat.lt_add_of_pos_right L.parameters.interval_positive

/-- The first slot begins after the head block, wherever this stands in its own slot. -/
theorem time_lt_slot_begin {slot_num : Nat} (positive : 0 < slot_num) :
    L.properties.time < slot_begin L maintenance_flag slot_num := by
  have interval := L.parameters.interval_positive
  have first : L.properties.time < slot_begin L maintenance_flag 1 := by
    unfold slot_begin
    split
    · rw [Nat.one_mul]
      exact Nat.lt_add_of_pos_right interval
    · have standing : L.properties.time < (L.properties.time / L.parameters.block_interval + 1) * L.parameters.block_interval :=
        (Nat.div_lt_iff_lt_mul interval).mp (Nat.lt_succ_self _)
      refine Nat.lt_of_lt_of_le standing (Nat.mul_le_mul_right _ ?_)
      omega
  exact Nat.lt_of_lt_of_le first (slot_begin_strictMono.monotone positive)

/-- Below `2^32` seconds the slot begins where `get_slot_time` says. -/
theorem get_slot_time_eq {slot_num : Nat} (positive : 0 < slot_num) (below : slot_begin L maintenance_flag slot_num < 2^32) :
    get_slot_time L maintenance_flag slot_num = slot_begin L maintenance_flag slot_num := by
  have wraps : get_slot_time L maintenance_flag slot_num = slot_begin L maintenance_flag slot_num % 2^32 := by
    unfold get_slot_time slot_begin later
    dsimp only
    rw [if_neg (Nat.ne_of_gt positive)]
    split
    · rfl
    · rw [← Nat.add_mul]
      cases maintenance_flag <;> simp [Nat.add_assoc]
  rw [wraps,Nat.mod_eq_of_lt below]

/-- The slots before `slot_num` begin within the same 32 bits. -/
theorem slot_begin_below {m n : Nat} (earlier : m ≤ n) (below : slot_begin L maintenance_flag n < 2^32) :
    slot_begin L maintenance_flag m < 2^32 :=
  Nat.lt_of_le_of_lt (slot_begin_strictMono.monotone earlier) below

/-- What `get_slot_at_time` counts, from the second at which the first slot begins. -/
theorem get_slot_at_time_eq {when : Nat} (below : slot_begin L maintenance_flag 1 < 2^32) :
    get_slot_at_time L maintenance_flag when = if when < slot_begin L maintenance_flag 1 then 0
      else (when - slot_begin L maintenance_flag 1) / L.parameters.block_interval + 1 := by
  rw [get_slot_at_time,get_slot_time_eq Nat.one_pos below]

/-- A time is in the slot that was the last to begin. -/
theorem get_slot_at_time_iff {when slot_num : Nat} (positive : 0 < slot_num) (below : slot_begin L maintenance_flag 1 < 2^32) :
    get_slot_at_time L maintenance_flag when = slot_num ↔
      slot_begin L maintenance_flag slot_num ≤ when ∧ when < slot_begin L maintenance_flag (slot_num + 1) := by
  have interval := L.parameters.interval_positive
  obtain ⟨n,rfl⟩ : ∃ n, slot_num = 1 + n := Nat.exists_eq_add_of_le positive
  rw [get_slot_at_time_eq below,slot_begin_add 1 n,Nat.add_assoc,slot_begin_add 1 (n + 1)]
  generalize slot_begin L maintenance_flag 1 = first
  split
  case isTrue early => omega
  case isFalse late =>
    have counted : (when - first) / L.parameters.block_interval + 1 = 1 + n ↔
        (when - first) / L.parameters.block_interval = n := by omega
    rw [counted,Nat.div_eq_iff interval,Nat.succ_mul]
    omega

end

/-- The slots are numbered as they begin: the number of a slot's time is its own, later slots begin
    later, a time is in the slot whose number it has, and no slot begins before the head block. -/
theorem slots_inverse_ordered (L : Ledger) (maintenance_flag : Bool) :
    (∀ n, 1 ≤ n → slot_begin L maintenance_flag n < 2^32 →
      get_slot_at_time L maintenance_flag (get_slot_time L maintenance_flag n) = n) ∧
    (∀ m n, m < n → slot_begin L maintenance_flag n < 2^32 →
      get_slot_time L maintenance_flag m < get_slot_time L maintenance_flag n) ∧
    (∀ when k, get_slot_at_time L maintenance_flag when = k → 1 ≤ k → slot_begin L maintenance_flag (k + 1) < 2^32 →
      get_slot_time L maintenance_flag k ≤ when ∧ when < get_slot_time L maintenance_flag (k + 1)) ∧
    ∀ when, 1 ≤ get_slot_at_time L maintenance_flag when → slot_begin L maintenance_flag 1 < 2^32 →
      L.properties.time < when := by
  refine ⟨fun n positive below => ?_,fun m n earlier below => ?_,fun when k numbered positive below => ?_,
    fun when positive below => ?_⟩
  · rw [get_slot_time_eq positive below]
    refine (get_slot_at_time_iff positive (slot_begin_below positive below)).mpr ⟨le_rfl,?_⟩
    exact slot_begin_strictMono (Nat.lt_succ_self n)
  · have positive : 0 < n := Nat.zero_lt_of_lt earlier
    rw [get_slot_time_eq positive below]
    rcases Nat.eq_zero_or_pos m with rfl | some
    · exact Nat.zero_lt_of_lt (time_lt_slot_begin positive)
    · rw [get_slot_time_eq some (slot_begin_below (Nat.le_of_lt earlier) below)]
      exact slot_begin_strictMono earlier
  · have begun := (get_slot_at_time_iff positive (slot_begin_below (Nat.le_add_left 1 k) below)).mp numbered
    rw [get_slot_time_eq positive (slot_begin_below (Nat.le_succ k) below),get_slot_time_eq (Nat.succ_pos k) below]
    exact begun
  · have begun := ((get_slot_at_time_iff positive below).mp rfl).1
    exact Nat.lt_of_lt_of_le (time_lt_slot_begin positive) begun

/-- A head block of maintenance, three seconds into its slot. -/
def uneven_head : Ledger := { init_genesis small_genesis with properties := ⟨7,1530000003,1530057600,0,0,0,0,0⟩ }

theorem slots_after_maintenance :
    get_slot_at_time uneven_head true (get_slot_time uneven_head true 2) = 2 ∧
      get_slot_time uneven_head true 1 < get_slot_time uneven_head true 2 ∧
      (get_slot_time uneven_head true 2 ≤ 1530000029 ∧ 1530000029 < get_slot_time uneven_head true 3) ∧
      uneven_head.properties.time < 1530000029 := by
  obtain ⟨inverse,ordered,within,ahead⟩ := slots_inverse_ordered uneven_head true
  exact ⟨inverse 2 (by decide) (by decide),ordered 1 2 (by decide) (by decide),
    within 1530000029 2 (by decide) (by decide) (by decide),ahead 1530000029 (by decide) (by decide)⟩

end Decent.Money

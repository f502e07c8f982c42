import Decent.Seeded
import Mathlib.Tactic.MkIffOfInductiveProp

/-!
The ratings of the seeders. Every maintenance works out the ratios of a seeder from his statistics
and from the ratios of the maintenances before, and a rating from these; afterwards the counters
start anew. The arithmetic has 32 and 64 bits, and so it is that of the integers as long as what
the counters and the reported uploads amount to does not need more.
-/
namespace Decent.SeedingRatings
open Decent.Money

/-- What a seeder's statistics and himself have beside the ledger's part, as they are created. -/
structure Score where
  total_upload : UInt64 := 0
  uploaded_till_last_maint : UInt64 := 0
  avg_buying_ratio : UInt32 := 0
  seeding_rel_ratio : UInt32 := 0
  seeding_abs_ratio : UInt32 := 0
  missed_ratio : UInt32 := 0
  rating : UInt32 := 0
deriving DecidableEq

/-- The scores of all seeders; who is none yet has the one that he will start with. -/
abbrev Scores := AccountId → Score

/-- `report_stats_evaluator::do_apply` -/
def report_stats (scores : Scores) (stats : List (AccountId × UInt64)) : Scores :=
  stats.foldl (fun scores item =>
    Function.update scores item.1 { scores item.1 with total_upload := (scores item.1).total_upload + item.2 }) scores

/-! ### The formulas of the source -/

section
variable (so : SeedingStatistics) (s : Score)

def num_of_requests_to_buy : UInt32 := so.total_delivered_keys + so.missed_delivered_keys

def key_delivery_ratio : UInt32 :=
  if 0 < num_of_requests_to_buy so then so.total_delivered_keys * 10000 / num_of_requests_to_buy so else 0

def upload_to_data_recent : UInt64 :=
  if 0 < so.total_content_seeded then
    (s.total_upload - s.uploaded_till_last_maint) * 10000 / so.total_content_seeded
  else 0

def avg_buying_ratio : UInt32 :=
  if 0 < so.num_of_content_seeded then
    num_of_requests_to_buy so * 10000 * 3 / so.num_of_content_seeded / 10 + s.avg_buying_ratio * 7 / 10
  else s.avg_buying_ratio * 7 / 10

/-- The sum has 64 bits and is stored in 32. -/
def seeding_rel_ratio : UInt32 :=
  if 0 < avg_buying_ratio so s ∧ 0 < upload_to_data_recent so s then
    (3 * 10000 * upload_to_data_recent so s / (avg_buying_ratio so s).toUInt64 / 10 +
      (s.seeding_rel_ratio * 7 / 10).toUInt64).toUInt32
  else s.seeding_rel_ratio

def seeding_abs_ratio : UInt32 :=
  if 0 < upload_to_data_recent so s then
    (3 * upload_to_data_recent so s / 10 + (s.seeding_abs_ratio * 7 / 10).toUInt64).toUInt32
  else s.seeding_abs_ratio

def num_of_content : UInt32 := so.total_content_requested_to_seed + so.num_of_content_seeded

def missed_ratio : UInt32 :=
  if 0 < num_of_content so then
    3 * so.num_of_content_seeded * 10000 / num_of_content so / 10 + s.missed_ratio * 7 / 10
  else s.missed_ratio * 7 / 10

/-- One turn of the loop of `set_and_reset_seeding_stats`. -/
def set_and_reset : Score :=
  let rel := min 20000 (seeding_rel_ratio so s)
  let abs := min 40000 (seeding_abs_ratio so s)
  { total_upload := s.total_upload
    uploaded_till_last_maint := s.total_upload
    avg_buying_ratio := avg_buying_ratio so s
    seeding_rel_ratio := rel
    seeding_abs_ratio := abs
    missed_ratio := missed_ratio so s
    rating := min ((rel + abs) / 6) ((missed_ratio so s + key_delivery_ratio so) / 2) }

end

/-- The scores after a maintenance that starts in this ledger. -/
def set_and_reset_seeding_stats (L : Ledger) (scores : Scores) : Scores := fun p =>
  match L.seeders.find? p, L.statistics.find? p with
  | some _, some so => set_and_reset so (scores p)
  | _, _ => scores p

/-! ### The formulas over the integers -/

namespace Ideal
variable (so : SeedingStatistics) (s : Score)

def num_of_requests_to_buy : Int := so.total_delivered_keys.toNat + so.missed_delivered_keys.toNat

def key_delivery_ratio : Int :=
  if 0 < num_of_requests_to_buy so then so.total_delivered_keys.toNat * 10000 / num_of_requests_to_buy so else 0

def upload_to_data_recent : Int :=
  if 0 < so.total_content_seeded then
    ((s.total_upload.toNat : Int) - s.uploaded_till_last_maint.toNat) * 10000 / so.total_content_seeded.toNat
  else 0

def avg_buying_ratio : Int :=
  if 0 < so.num_of_content_seeded then
    num_of_requests_to_buy so * 10000 * 3 / so.num_of_content_seeded.toNat / 10 + s.avg_buying_ratio.toNat * 7 / 10
  else s.avg_buying_ratio.toNat * 7 / 10

def seeding_rel_ratio : Int :=
  if 0 < avg_buying_ratio so s ∧ 0 < upload_to_data_recent so s then
    3 * 10000 * upload_to_data_recent so s / avg_buying_ratio so s / 10 + s.seeding_rel_ratio.toNat * 7 / 10
  else s.seeding_rel_ratio.toNat

def seeding_abs_ratio : Int :=
  if 0 < upload_to_data_recent so s then 3 * upload_to_data_recent so s / 10 + s.seeding_abs_ratio.toNat * 7 / 10
  else s.seeding_abs_ratio.toNat

def num_of_content : Int := so.total_content_requested_to_seed.toNat + so.num_of_content_seeded.toNat

def missed_ratio : Int :=
  if 0 < num_of_content so then
    3 * so.num_of_content_seeded.toNat * 10000 / num_of_content so / 10 + s.missed_ratio.toNat * 7 / 10
  else s.missed_ratio.toNat * 7 / 10

def rating : Int :=
  min ((min 20000 (seeding_rel_ratio so s) + min 40000 (seeding_abs_ratio so s)) / 6)
    ((missed_ratio so s + key_delivery_ratio so) / 2)

end Ideal

/-- The ratios that a maintenance works out for a seeder, and his rating, are those over the integers. -/
structure Exact (so : SeedingStatistics) (s : Score) : Prop where
  key_delivery_ratio : (key_delivery_ratio so).toNat = Ideal.key_delivery_ratio so
  upload_to_data_recent : (upload_to_data_recent so s).toNat = Ideal.upload_to_data_recent so s
  avg_buying_ratio : (set_and_reset so s).avg_buying_ratio.toNat = Ideal.avg_buying_ratio so s
  seeding_rel_ratio : (set_and_reset so s).seeding_rel_ratio.toNat = min 20000 (Ideal.seeding_rel_ratio so s)
  seeding_abs_ratio : (set_and_reset so s).seeding_abs_ratio.toNat = min 40000 (Ideal.seeding_abs_ratio so s)
  missed_ratio : (set_and_reset so s).missed_ratio.toNat = Ideal.missed_ratio so s
  rating : (set_and_reset so s).rating.toNat = Ideal.rating so s

/-! ### What the statistics may amount to -/

/-- The bytes sent for every 10000 bytes seeded, since the last maintenance. -/
def sent (so : SeedingStatistics) (s : Score) : Nat :=
  (s.total_upload.toNat - s.uploaded_till_last_maint.toNat) * 10000 / so.total_content_seeded.toNat

/-- The requests for every 10000 contents seeded, and what is left of the average before. -/
def asked (so : SeedingStatistics) (s : Score) : Nat :=
  (so.total_delivered_keys.toNat + so.missed_delivered_keys.toNat) * 30000 / so.num_of_content_seeded.toNat / 10 +
    s.avg_buying_ratio.toNat * 7 / 10

/-- The statistics are small enough before a maintenance: the counters for 32 bits when they are scaled,
    the upload for 64 bits, and what was sent for the 32 bits of the two ratios it goes into. -/
@[mk_iff] structure Bounded (so : SeedingStatistics) (s : Score) : Prop where
  requests : so.total_delivered_keys.toNat + so.missed_delivered_keys.toNat < 2^32
  delivered : so.total_delivered_keys.toNat * 10000 < 2^32
  buying : 0 < so.num_of_content_seeded →
    (so.total_delivered_keys.toNat + so.missed_delivered_keys.toNat) * 30000 < 2^32
  average : s.avg_buying_ratio.toNat * 7 < 2^32
  ahead : 0 < so.total_content_seeded → s.uploaded_till_last_maint ≤ s.total_upload
  upload : 0 < so.total_content_seeded →
    (s.total_upload.toNat - s.uploaded_till_last_maint.toNat) * 10000 < 2^64
  contents : so.total_content_requested_to_seed.toNat + so.num_of_content_seeded.toNat < 2^32
  seeded : so.num_of_content_seeded.toNat * 30000 < 2^32
  absolute : 3 * sent so s < 10 * (2^32 - s.seeding_abs_ratio.toNat * 7 / 10)
  relative : 0 < asked so s → 3000 * sent so s < (2^32 - s.seeding_rel_ratio.toNat * 7 / 10) * asked so s

/-- What a maintenance leaves is capped. -/
structure Capped (s : Score) : Prop where
  seeding_rel_ratio : s.seeding_rel_ratio.toNat ≤ 20000
  seeding_abs_ratio : s.seeding_abs_ratio.toNat ≤ 40000
  missed_ratio : s.missed_ratio.toNat ≤ 10000

/-! ### The arithmetic of the source -/

theorem pos32_iff {a : UInt32} : 0 < a ↔ 0 < a.toNat := UInt32.lt_iff_toNat_lt
theorem pos64_iff {a : UInt64} : 0 < a ↔ 0 < a.toNat := UInt64.lt_iff_toNat_lt

theorem toNat_add32 {a b : UInt32} (small : a.toNat + b.toNat < 2^32) : (a + b).toNat = a.toNat + b.toNat := by
  rw [UInt32.toNat_add,Nat.mod_eq_of_lt small]

theorem toNat_mul32 {a b : UInt32} (m n : Nat) (left : a.toNat = m) (right : b.toNat = n) (small : m * n < 2^32) :
    (a * b).toNat = m * n := by
  rw [UInt32.toNat_mul,left,right,Nat.mod_eq_of_lt small]

theorem toNat_mul64 {a b : UInt64} (m n : Nat) (left : a.toNat = m) (right : b.toNat = n) (small : m * n < 2^64) :
    (a * b).toNat = m * n := by
  rw [UInt64.toNat_mul,left,right,Nat.mod_eq_of_lt small]

/-- Seven tenths of what a ratio was. -/
theorem toNat_seven_tenths {a : UInt32} (small : a.toNat * 7 < 2^32) : (a * 7 / 10).toNat = a.toNat * 7 / 10 := by
  rw [UInt32.toNat_div,toNat_mul32 _ 7 rfl rfl small]
  rfl

section
variable {so : SeedingStatistics} {s : Score}

theorem toNat_requests (bounded : Bounded so s) :
    (num_of_requests_to_buy so).toNat = so.total_delivered_keys.toNat + so.missed_delivered_keys.toNat :=
  toNat_add32 bounded.requests

theorem key_delivery_ratio_exact (bounded : Bounded so s) :
    ((key_delivery_ratio so).toNat : Int) = Ideal.key_delivery_ratio so := by
  have requests := toNat_requests bounded
  unfold key_delivery_ratio Ideal.key_delivery_ratio Ideal.num_of_requests_to_buy
  by_cases some : 0 < num_of_requests_to_buy so
  · have positive := pos32_iff.mp some
    rw [requests] at positive
    rw [if_pos some,if_pos (by omega),UInt32.toNat_div,toNat_mul32 _ 10000 rfl rfl bounded.delivered,requests]
    push_cast
    rfl
  · have none := mt pos32_iff.mpr some
    rw [requests] at none
    rw [if_neg some,if_neg (by omega)]
    rfl

theorem key_delivery_ratio_le (bounded : Bounded so s) : (key_delivery_ratio so).toNat ≤ 10000 := by
  unfold key_delivery_ratio
  split
  · rw [UInt32.toNat_div,toNat_mul32 _ 10000 rfl rfl bounded.delivered,toNat_requests bounded]
    exact Nat.div_le_of_le_mul (Nat.mul_le_mul_right 10000 (Nat.le_add_right _ _))
  · exact Nat.zero_le _

theorem toNat_upload (bounded : Bounded so s) : (upload_to_data_recent so s).toNat = sent so s := by
  unfold upload_to_data_recent sent
  split
  case isTrue some =>
    have difference := UInt64.toNat_sub_of_le _ _ (bounded.ahead some)
    rw [UInt64.toNat_div,toNat_mul64 _ 10000 difference rfl (bounded.upload some)]
  case isFalse none =>
    have zero : so.total_content_seeded.toNat = 0 := Nat.eq_zero_of_not_pos (mt pos64_iff.mpr none)
    rw [zero,Nat.div_zero]
    rfl

theorem upload_exact (bounded : Bounded so s) : (sent so s : Int) = Ideal.upload_to_data_recent so s := by
  unfold sent Ideal.upload_to_data_recent
  split
  case isTrue some =>
    push_cast [UInt64.le_iff_toNat_le.mp (bounded.ahead some)]
    rfl
  case isFalse none =>
    have zero : so.total_content_seeded.toNat = 0 := Nat.eq_zero_of_not_pos (mt pos64_iff.mpr none)
    rw [zero,Nat.div_zero]
    rfl

theorem toNat_average (bounded : Bounded so s) : (avg_buying_ratio so s).toNat = asked so s := by
  have before := toNat_seven_tenths bounded.average
  have left : s.avg_buying_ratio.toNat * 7 / 10 ≤ 2^32 / 10 := Nat.div_le_div_right (Nat.le_of_lt bounded.average)
  unfold avg_buying_ratio asked
  split
  case isTrue some =>
    have requests := toNat_requests bounded
    have buying := bounded.buying some
    have scaled : (num_of_requests_to_buy so * 10000 * 3).toNat =
        (so.total_delivered_keys.toNat + so.missed_delivered_keys.toNat) * 30000 := by
      have first : (num_of_requests_to_buy so * 10000).toNat =
          (so.total_delivered_keys.toNat + so.missed_delivered_keys.toNat) * 10000 :=
        toNat_mul32 _ _ requests (by decide) (Nat.lt_of_le_of_lt (Nat.mul_le_mul_left _ (by decide)) buying)
      rw [toNat_mul32 _ 3 first (by decide) (by rwa [Nat.mul_assoc]),Nat.mul_assoc]
    have tenth : (num_of_requests_to_buy so * 10000 * 3 / so.num_of_content_seeded / 10).toNat =
        (so.total_delivered_keys.toNat + so.missed_delivered_keys.toNat) * 30000 / so.num_of_content_seeded.toNat / 10 := by
      rw [UInt32.toNat_div,UInt32.toNat_div,scaled]
      rfl
    have share : (so.total_delivered_keys.toNat + so.missed_delivered_keys.toNat) * 30000 / so.num_of_content_seeded.toNat / 10 ≤
        2^32 / 10 :=
      Nat.div_le_div_right (Nat.le_trans (Nat.div_le_self _ _) (Nat.le_of_lt buying))
    rw [toNat_add32 (by rw [tenth,before]; omega),tenth,before]
  case isFalse none =>
    have zero : so.num_of_content_seeded.toNat = 0 := Nat.eq_zero_of_not_pos (mt pos32_iff.mpr none)
    rw [before,zero,Nat.div_zero,Nat.zero_div,Nat.zero_add]

theorem average_exact (so : SeedingStatistics) (s : Score) : (asked so s : Int) = Ideal.avg_buying_ratio so s := by
  unfold asked Ideal.avg_buying_ratio Ideal.num_of_requests_to_buy
  split
  case isTrue some =>
    push_cast
    rw [Int.mul_assoc]
    rfl
  case isFalse none =>
    have zero : so.num_of_content_seeded.toNat = 0 := Nat.eq_zero_of_not_pos (mt pos32_iff.mpr none)
    rw [zero,Nat.div_zero,Nat.zero_div,Nat.zero_add]
    push_cast
    rfl

/-- Nothing is cut off when the upload per request is stored. -/
theorem relative_small (bounded : Bounded so s) (some : 0 < asked so s) :
    30000 * sent so s / asked so s / 10 + s.seeding_rel_ratio.toNat * 7 / 10 < 2^32 := by
  have bound := bounded.relative some
  have quotient : 30000 * sent so s / asked so s / 10 < 2^32 - s.seeding_rel_ratio.toNat * 7 / 10 := by
    rw [Nat.div_div_eq_div_mul,Nat.div_lt_iff_lt_mul (by omega)]
    calc 30000 * sent so s = 10 * (3000 * sent so s) := by omega
      _ < 10 * ((2^32 - s.seeding_rel_ratio.toNat * 7 / 10) * asked so s) := Nat.mul_lt_mul_of_pos_left bound (by decide)
      _ = (2^32 - s.seeding_rel_ratio.toNat * 7 / 10) * (asked so s * 10) := by ring
  generalize 30000 * sent so s / asked so s / 10 = quotient at *
  omega

theorem seeding_rel_ratio_exact (bounded : Bounded so s) (capped : Capped s) :
    ((seeding_rel_ratio so s).toNat : Int) = Ideal.seeding_rel_ratio so s := by
  have upload := toNat_upload bounded
  have average := toNat_average bounded
  have small := capped.seeding_rel_ratio
  have before : (s.seeding_rel_ratio * 7 / 10).toNat = s.seeding_rel_ratio.toNat * 7 / 10 := toNat_seven_tenths (by omega)
  have both : 0 < avg_buying_ratio so s ∧ 0 < upload_to_data_recent so s ↔ 0 < asked so s ∧ 0 < sent so s := by
    rw [pos32_iff,pos64_iff,average,upload]
  unfold seeding_rel_ratio Ideal.seeding_rel_ratio
  rw [← average_exact,← upload_exact bounded]
  by_cases some : 0 < asked so s ∧ 0 < sent so s
  · have scaled : (3 * 10000 * upload_to_data_recent so s).toNat = 30000 * sent so s := by
      have absolute := bounded.absolute
      exact toNat_mul64 30000 _ rfl upload (by omega)
    have quotient : (3 * 10000 * upload_to_data_recent so s / (avg_buying_ratio so s).toUInt64 / 10).toNat =
        30000 * sent so s / asked so s / 10 := by
      rw [UInt64.toNat_div,UInt64.toNat_div,scaled,UInt32.toNat_toUInt64,average]
      rfl
    have whole := relative_small bounded some.1
    rw [if_pos (both.mpr some),if_pos (by omega),UInt64.toNat_toUInt32,UInt64.toNat_add,quotient,UInt32.toNat_toUInt64,before,
      Nat.mod_eq_of_lt (by omega : _ < 2^64),Nat.mod_eq_of_lt whole]
    push_cast
    rfl
  · rw [if_neg (mt both.mp some),if_neg (by omega)]

theorem seeding_abs_ratio_exact (bounded : Bounded so s) (capped : Capped s) :
    ((seeding_abs_ratio so s).toNat : Int) = Ideal.seeding_abs_ratio so s := by
  have upload := toNat_upload bounded
  have absolute := bounded.absolute
  have small := capped.seeding_abs_ratio
  have before : (s.seeding_abs_ratio * 7 / 10).toNat = s.seeding_abs_ratio.toNat * 7 / 10 := toNat_seven_tenths (by omega)
  have any : 0 < upload_to_data_recent so s ↔ 0 < sent so s := by rw [pos64_iff,upload]
  unfold seeding_abs_ratio Ideal.seeding_abs_ratio
  rw [← upload_exact bounded]
  by_cases some : 0 < sent so s
  · have tenth : (3 * upload_to_data_recent so s / 10).toNat = 3 * sent so s / 10 := by
      rw [UInt64.toNat_div,toNat_mul64 3 _ rfl upload (by omega)]
      rfl
    rw [if_pos (any.mpr some),if_pos (by omega),UInt64.toNat_toUInt32,UInt64.toNat_add,tenth,UInt32.toNat_toUInt64,before,
      Nat.mod_eq_of_lt (by omega : _ < 2^64),Nat.mod_eq_of_lt (by omega)]
    push_cast
    rfl
  · rw [if_neg (mt any.mp some),if_neg (by omega)]

theorem toNat_contents (bounded : Bounded so s) :
    (num_of_content so).toNat = so.total_content_requested_to_seed.toNat + so.num_of_content_seeded.toNat :=
  toNat_add32 bounded.contents

/-- Of all contents no more than all are seeded. -/
theorem missed_le (requested seeded : Nat) : 3 * seeded * 10000 / (requested + seeded) / 10 ≤ 3000 := by
  refine Nat.div_le_of_le_mul (Nat.div_le_of_le_mul ?_)
  omega

theorem toNat_missed_ratio (bounded : Bounded so s) (capped : Capped s) : (missed_ratio so s).toNat =
    3 * so.num_of_content_seeded.toNat * 10000 / (so.total_content_requested_to_seed.toNat + so.num_of_content_seeded.toNat) / 10 +
      s.missed_ratio.toNat * 7 / 10 := by
  have contents := toNat_contents bounded
  have small := capped.missed_ratio
  have before : (s.missed_ratio * 7 / 10).toNat = s.missed_ratio.toNat * 7 / 10 := toNat_seven_tenths (by omega)
  unfold missed_ratio
  split
  case isTrue some =>
    have seeded := bounded.seeded
    have scaled : (3 * so.num_of_content_seeded * 10000).toNat = 3 * so.num_of_content_seeded.toNat * 10000 := by
      have small : 3 * so.num_of_content_seeded.toNat * 10000 < 2^32 := by
        rwa [Nat.mul_comm 3,Nat.mul_assoc]
      have first : (3 * so.num_of_content_seeded).toNat = 3 * so.num_of_content_seeded.toNat :=
        toNat_mul32 _ _ (by decide) rfl (Nat.lt_of_le_of_lt (Nat.le_mul_of_pos_right _ (by decide)) small)
      exact toNat_mul32 _ _ first (by decide) small
    have tenth : (3 * so.num_of_content_seeded * 10000 / num_of_content so / 10).toNat = 3 * so.num_of_content_seeded.toNat * 10000 /
        (so.total_content_requested_to_seed.toNat + so.num_of_content_seeded.toNat) / 10 := by
      rw [UInt32.toNat_div,UInt32.toNat_div,scaled,contents]
      rfl
    have most := missed_le so.total_content_requested_to_seed.toNat so.num_of_content_seeded.toNat
    rw [toNat_add32 (by rw [tenth,before]; omega),tenth,before]
  case isFalse none =>
    have zero := Nat.eq_zero_of_not_pos (mt pos32_iff.mpr none)
    rw [contents] at zero
    rw [zero,Nat.div_zero,Nat.zero_div,Nat.zero_add,before]

theorem missed_ratio_exact (bounded : Bounded so s) (capped : Capped s) :
    ((missed_ratio so s).toNat : Int) = Ideal.missed_ratio so s := by
  rw [toNat_missed_ratio bounded capped]
  unfold Ideal.missed_ratio Ideal.num_of_content
  split
  case isTrue => push_cast; rfl
  case isFalse none =>
    have zero : so.total_content_requested_to_seed.toNat + so.num_of_content_seeded.toNat = 0 := by omega
    rw [zero,Nat.div_zero,Nat.zero_div,Nat.zero_add]
    push_cast
    rfl

theorem toNat_rel (so : SeedingStatistics) (s : Score) :
    (set_and_reset so s).seeding_rel_ratio.toNat = min 20000 (seeding_rel_ratio so s).toNat := UInt32.toNat_min _ _

theorem toNat_abs (so : SeedingStatistics) (s : Score) :
    (set_and_reset so s).seeding_abs_ratio.toNat = min 40000 (seeding_abs_ratio so s).toNat := UInt32.toNat_min _ _

/-- The sum of the two capped ratios has room. -/
theorem toNat_rating (so : SeedingStatistics) (s : Score) : (set_and_reset so s).rating.toNat =
    min ((min 20000 (seeding_rel_ratio so s).toNat + min 40000 (seeding_abs_ratio so s).toNat) / 6)
      ((missed_ratio so s + key_delivery_ratio so) / 2).toNat := by
  have rel := toNat_rel so s
  have abs := toNat_abs so s
  have sum := @toNat_add32 (set_and_reset so s).seeding_rel_ratio (set_and_reset so s).seeding_abs_ratio (by omega)
  rw [rel,abs] at sum
  show (min (((set_and_reset so s).seeding_rel_ratio + (set_and_reset so s).seeding_abs_ratio) / 6) _).toNat = _
  rw [UInt32.toNat_min,UInt32.toNat_div,sum]
  rfl

/-- A rating goes from 0 to 10000, whatever wraps. -/
theorem rating_le (so : SeedingStatistics) (s : Score) : (set_and_reset so s).rating ≤ 10000 := by
  rw [UInt32.le_iff_toNat_le,toNat_rating]
  refine Nat.le_trans (Nat.min_le_left _ _) (Nat.div_le_of_le_mul ?_)
  show _ ≤ 60000
  omega

theorem set_and_reset_capped (bounded : Bounded so s) (capped : Capped s) : Capped (set_and_reset so s) := by
  refine ⟨?_,?_,?_⟩
  · rw [toNat_rel]
    exact Nat.min_le_left _ _
  · rw [toNat_abs]
    exact Nat.min_le_left _ _
  · have most := missed_le so.total_content_requested_to_seed.toNat so.num_of_content_seeded.toNat
    have before := capped.missed_ratio
    show (missed_ratio so s).toNat ≤ 10000
    rw [toNat_missed_ratio bounded capped]
    omega

/-- One maintenance computes what it would over the integers. -/
theorem set_and_reset_exact (bounded : Bounded so s) (capped : Capped s) : Exact so s := by
  have key := key_delivery_ratio_exact bounded
  have missed := missed_ratio_exact bounded capped
  have rel := seeding_rel_ratio_exact bounded capped
  have abs := seeding_abs_ratio_exact bounded capped
  refine ⟨key,?_,?_,?_,?_,missed,?_⟩
  · rw [toNat_upload bounded]
    exact upload_exact bounded
  · exact (congrArg Nat.cast (toNat_average bounded)).trans (average_exact so s)
  · rw [toNat_rel,← rel]
    omega
  · rw [toNat_abs,← abs]
    omega
  · have half : ((missed_ratio so s + key_delivery_ratio so) / 2).toNat =
        ((missed_ratio so s).toNat + (key_delivery_ratio so).toNat) / 2 := by
      have few := key_delivery_ratio_le bounded
      have less := (set_and_reset_capped bounded capped).missed_ratio
      have less : (missed_ratio so s).toNat ≤ 10000 := less
      rw [UInt32.toNat_div,toNat_add32 (by omega)]
      rfl
    rw [toNat_rating,half]
    unfold Ideal.rating
    rw [← rel,← abs,← missed,← key]
    omega

end

/-! ### Runs -/

/-- The scores after an action that applies these reports. -/
def scores_after (L : Ledger) (action : Action) (reports : List (List (AccountId × UInt64))) (scores : Scores) : Scores :=
  match action with
  | .maintenance => set_and_reset_seeding_stats L scores
  | _ => reports.foldl report_stats scores

/-- The ledgers and the scores of all runs whose steps are `allowed`. An action may apply reports, also
    those that proposals execute; they are about accounts that have statistics. -/
inductive Scored (g : GenesisState) (allowed : Ledger → Scores → Action → Prop) : Ledger → Scores → Prop
  | genesis : Scored g allowed (init_genesis g) fun _ => {}
  | step {L L' : Ledger} {scores : Scores} {action : Action} (before : Scored g allowed L scores)
      (meets : allowed L scores action) (ran : EStateM.run (perform action) L = .ok () L')
      (reports : List (List (AccountId × UInt64)))
      (known : ∀ stats ∈ reports, ∀ item ∈ stats, (L'.statistics.find? item.1).isSome) :
      Scored g allowed L' (scores_after L action reports scores)

/-- A maintenance comes only when the statistics of all seeders are small enough. -/
def within_bounds (L : Ledger) (scores : Scores) (action : Action) : Prop :=
  action = .maintenance → ∀ p seeder so, L.seeders.find? p = some seeder → L.statistics.find? p = some so →
    Bounded so (scores p)

/-- What a report leaves as it was. -/
theorem report_stats_ratios (scores : Scores) (stats : List (AccountId × UInt64)) (p : AccountId) :
    ∃ total, report_stats scores stats p = { scores p with total_upload := total } := by
  unfold report_stats
  induction stats generalizing scores with
  | nil => exact ⟨_,rfl⟩
  | cons item rest ih =>
    obtain ⟨total,last⟩ := ih (Function.update scores item.1
      { scores item.1 with total_upload := (scores item.1).total_upload + item.2 })
    rw [List.foldl_cons,last]
    by_cases here : p = item.1
    · subst here
      exact ⟨total,by rw [Function.update_self]⟩
    · exact ⟨total,by rw [Function.update_of_ne here]⟩

theorem reports_ratios (scores : Scores) (reports : List (List (AccountId × UInt64))) (p : AccountId) :
    ∃ total, reports.foldl report_stats scores p = { scores p with total_upload := total } := by
  induction reports generalizing scores with
  | nil => exact ⟨_,rfl⟩
  | cons stats rest ih =>
    obtain ⟨total,last⟩ := ih (report_stats scores stats)
    obtain ⟨_,first⟩ := report_stats_ratios scores stats p
    exact ⟨total,by rw [List.foldl_cons,last,first]⟩

/-- What holds of every score: the ratios are capped, and so is the rating. -/
def Rated (s : Score) : Prop := Capped s ∧ s.rating ≤ 10000

theorem rated_new : Rated {} := ⟨⟨by decide,by decide,by decide⟩,by decide⟩

theorem Scored.rated {g : GenesisState} {L : Ledger} {scores : Scores} (reached : Scored g within_bounds L scores)
    (p : AccountId) : Rated (scores p) := by
  induction reached with
  | genesis => exact rated_new
  | @step L L' scores action _ meets _ reports _ ih =>
    have reported : Rated (reports.foldl report_stats scores p) := by
      obtain ⟨total,same⟩ := reports_ratios scores reports p
      obtain ⟨capped,rating⟩ := ih
      rw [same]
      exact ⟨⟨capped.seeding_rel_ratio,capped.seeding_abs_ratio,capped.missed_ratio⟩,rating⟩
    cases action with
    | maintenance =>
      show Rated (set_and_reset_seeding_stats L scores p)
      unfold set_and_reset_seeding_stats
      split
      case h_1 seeder so listed found =>
        exact ⟨set_and_reset_capped (meets rfl p seeder so listed found) ih.1,rating_le _ _⟩
      case h_2 => exact ih
    | _ => exact reported

/-- In every run whose maintenances find the statistics small enough, each of them works out the ratios
    and the rating of every seeder as over the integers, and all ratings are from 0 to 10000. -/
theorem ratings_exact (g : GenesisState) (L : Ledger) (scores : Scores) (reached : Scored g within_bounds L scores) :
    (∀ p, (scores p).rating ≤ 10000) ∧
      (within_bounds L scores .maintenance → ∀ p seeder so, L.seeders.find? p = some seeder →
        L.statistics.find? p = some so → set_and_reset_seeding_stats L scores p = set_and_reset so (scores p) ∧
          Exact so (scores p) ∧ (set_and_reset so (scores p)).rating ≤ 10000) := by
  refine ⟨fun p => (reached.rated p).2,fun meets p seeder so listed found => ⟨?_,?_,rating_le _ _⟩⟩
  · unfold set_and_reset_seeding_stats
    rw [listed,found]
  · exact set_and_reset_exact (meets rfl p seeder so listed found) (reached.rated p).1

/-! ### Small runs -/

/-- A maintenance is what the scores wait for. -/
def idle : Action → Bool
  | .maintenance => false
  | _ => true

theorem idle_scores {L : Ledger} {action : Action} {reports : List (List (AccountId × UInt64))} {scores : Scores}
    (waits : idle action = true) : scores_after L action reports scores = reports.foldl report_stats scores := by
  cases action with
  | maintenance => cases waits
  | _ => rfl

open Throwing in
/-- Actions without reports. -/
theorem scored_perform_all {g : GenesisState} {allowed : Ledger → Scores → Action → Prop} {actions : List Action}
    (meets : ∀ L scores action, of_source action → idle action = true → allowed L scores action)
    (plain : actions.Forall of_source) (waits : actions.all idle = true) {L L' : Ledger} {scores : Scores}
    (before : Scored g allowed L scores) (ran : EStateM.run (perform_all actions) L = .ok () L') :
    Scored g allowed L' scores := by
  induction actions generalizing L with
  | nil =>
    cases ran
    exact before
  | cons action rest ih =>
    obtain ⟨here,plain⟩ := List.forall_cons of_source action rest |>.mp plain
    obtain ⟨still,waits⟩ := Bool.and_eq_true_iff.mp waits
    simp only [perform_all,run_bind_ok] at ran
    obtain ⟨_,L₁,done,ran⟩ := ran
    have first := before.step (meets L scores action here still) done [] (fun _ absent => absurd absent List.not_mem_nil)
    rw [idle_scores still] at first
    exact ih plain waits first ran

/-- A report changes nothing in the ledger but what its fee does. -/
def no_change : SettingsChange where
  do_apply L := .ok L
  settled applied := by
    cases applied
    exact Settled.refl _

/-- Account 4 pays for a report. -/
def report : Action := .operation free_env (.other 4 ⟨0,core⟩ no_change)

theorem report_of_source : of_source report := by
  refine .inr fun L L' applied => ?_
  cases applied
  exact ⟨rfl,rfl,rfl⟩

/-- Seeder 4 has proved that he has a content, and a maintenance is due. -/
def proved_content : List Action := three_seeders ++ [prove_custody 4,.header 1540000000]

def proved_ledger : Ledger := after_actions proved_content

def reported_ledger : Ledger := Throwing.endState (EStateM.run (perform report) proved_ledger)

/-- Then he has sent so many bytes. -/
def reported_scores (bytes : UInt64) : Scores := [[(4,bytes)]].foldl report_stats fun _ => {}

theorem scored_reported {allowed : Ledger → Scores → Action → Prop}
    (meets : ∀ L scores action, of_source action → idle action = true → allowed L scores action) (bytes : UInt64) :
    Scored small_genesis allowed reported_ledger (reported_scores bytes) := by
  have plain : proved_content.Forall of_source := List.forall_append.mpr ⟨three_seeders_of_source,trivial,trivial⟩
  have proved : Scored small_genesis allowed proved_ledger fun _ => {} :=
    scored_perform_all meets plain (by decide) .genesis (Throwing.run_of_returned (by decide +kernel))
  refine proved.step (meets _ _ report report_of_source rfl) (Throwing.run_of_returned (by decide +kernel)) [[(4,bytes)]] ?_
  intro stats member item inside
  cases List.mem_singleton.mp member
  cases List.mem_singleton.mp inside
  show (reported_ledger.statistics.find? 4).isSome = true
  decide +kernel

theorem maintenance_due : ∃ L', EStateM.run (perform .maintenance) reported_ledger = .ok () L' :=
  ⟨_,Throwing.run_of_returned (by decide +kernel)⟩

instance (so : SeedingStatistics) (s : Score) : Decidable (Bounded so s) := decidable_of_iff' _ (bounded_iff so s)

/-- Two bytes sent for each byte seeded are a rating of 1000. -/
theorem ratings_exact_reported : ∃ so, reported_ledger.statistics.find? 4 = some so ∧ Exact so (reported_scores 1000000 4) ∧
    (set_and_reset so (reported_scores 1000000 4)).rating = 1000 := by
  have reached : Scored small_genesis within_bounds reported_ledger (reported_scores 1000000) := by
    refine scored_reported (fun L scores action _ waits due => ?_) 1000000
    subst due
    cases waits
  have small : ∀ row ∈ reported_ledger.statistics.rows, Bounded row.2 (reported_scores 1000000 row.1) := by decide +kernel
  have meets : within_bounds reported_ledger (reported_scores 1000000) .maintenance :=
    fun _ p seeder so _ found => small (p,so) (Table.mem_of_find? found)
  have seeds : (reported_ledger.seeders.find? 4).isSome := by decide +kernel
  have rated : (reported_ledger.statistics.find? 4).map (fun so => (set_and_reset so (reported_scores 1000000 4)).rating) =
      some 1000 := by decide +kernel
  obtain ⟨seeder,listed⟩ := Option.isSome_iff_exists.mp seeds
  obtain ⟨so,found,rating⟩ := Option.map_eq_some_iff.mp rated
  exact ⟨so,found,((ratings_exact small_genesis _ _ reached).2 meets 4 seeder so listed found).2.1,rating⟩

/-- Three tenths of what was sent are just 2^32, of which 32 bits keep nothing. -/
theorem upload_ratio_lost : ¬ ∀ g L scores, Scored g (fun L _ action => source_step L action) L scores →
    ∀ L', EStateM.run (perform .maintenance) L = .ok () L' → ∀ p seeder so, L.seeders.find? p = some seeder →
      L.statistics.find? p = some so → Exact so (scores p) := by
  intro exact_always
  have reached : Scored small_genesis (fun L _ action => source_step L action) reported_ledger (reported_scores 715827882700) :=
    scored_reported (fun _ _ _ plain _ => each_applied_of_source plain fun _ _ _ => trivial) _
  have seeds : (reported_ledger.seeders.find? 4).isSome := by decide +kernel
  have lost : (reported_ledger.statistics.find? 4).map (fun so =>
      (set_and_reset so (reported_scores 715827882700 4)).seeding_abs_ratio.toNat) = some 0 := by decide +kernel
  have whole : (reported_ledger.statistics.find? 4).map (fun so =>
      min 40000 (Ideal.seeding_abs_ratio so (reported_scores 715827882700 4))) = some 40000 := by decide +kernel
  obtain ⟨L',ran⟩ := maintenance_due
  obtain ⟨seeder,listed⟩ := Option.isSome_iff_exists.mp seeds
  obtain ⟨so,found,lost⟩ := Option.map_eq_some_iff.mp lost
  rw [found] at whole
  have whole : min 40000 (Ideal.seeding_abs_ratio so (reported_scores 715827882700 4)) = 40000 := Option.some.inj whole
  have same := (exact_always small_genesis _ _ reached L' ran 4 seeder so listed found).seeding_abs_ratio
  rw [lost,whole] at same
  exact absurd same (by decide)

end Decent.SeedingRatings

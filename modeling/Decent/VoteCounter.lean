import Decent.Authorities
import Decent.Lib.FlatMap
import Mathlib.Data.Nat.Log
import Mathlib.Order.Interval.Set.Basic

/-!
The authority of the miners, written from their votes: all votes are shifted as far as brings the
first ones below 16 bits, and the threshold is the least majority.
-/
namespace Decent.Authorities

variable {Key : Type} [LinearOrder Key]

/-- `authority::add_authority` of an account. -/
def Authority.add_authority (a : Authority Key) (k : AccountId) (w : UInt16) : Authority Key where
  weight_threshold := a.weight_threshold
  account_auths := FlatMap.put k w a.account_auths
  key_auths := a.key_auths
  accounts_ordered := FlatMap.ordered_put a.accounts_ordered
  keys_ordered := a.keys_ordered

/-- A new `authority`. -/
def Authority.empty : Authority Key := ⟨0,[],[],none_ordered,none_ordered⟩

/-- `vote_counter`; no shift has been chosen while `bitshift` is -1. -/
structure VoteCounter (Key : Type) [LinearOrder Key] where
  last_votes : UInt64
  total_votes : UInt64
  bitshift : Int
  auth : Authority Key

namespace VoteCounter

/-- A new `vote_counter`. -/
def start : VoteCounter Key := ⟨-1,0,-1,.empty⟩

/-- The shift for the first votes: their highest bit becomes bit 15, if it is above. -/
def first_bitshift (votes : UInt64) : Int := max ((Nat.log2 votes.toNat : Int) - 15) 0

/-- `vote_counter::add`; the assertions are those of debug builds. -/
def add (vc : VoteCounter Key) (who : AccountId) (votes : UInt64) : VoteCounter Key :=
  if votes = 0 then vc
  else
    let bitshift := if vc.bitshift = -1 then first_bitshift votes else vc.bitshift
    let scaled_votes := max (votes >>> UInt64.ofNat bitshift.toNat) 1
    { last_votes := votes
      total_votes := vc.total_votes + scaled_votes
      bitshift := bitshift
      auth := vc.auth.add_authority who scaled_votes.toUInt16 }

/-- `vote_counter::finish` -/
def finish (vc : VoteCounter Key) (out_auth : Authority Key) : Authority Key :=
  if vc.total_votes = 0 then out_auth
  else { vc.auth with weight_threshold := (vc.total_votes.toUInt32 >>> 1) + 1 }

/-- The loop of `update_active_miners` over the miners that were elected. -/
def count (rows : List (AccountId × UInt64)) : VoteCounter Key :=
  rows.foldl (fun vc row => vc.add row.1 row.2) start

end VoteCounter

/-! ### Weights -/

/-- The weight of some votes under a shift. -/
def scaled (bitshift : Nat) (votes : UInt64) : Nat := max (votes.toNat >>> bitshift) 1

theorem scaled_mono {bitshift : Nat} {votes votes' : UInt64} (le : votes ≤ votes') :
    scaled bitshift votes ≤ scaled bitshift votes' := by
  unfold scaled
  rw [Nat.shiftRight_eq_div_pow,Nat.shiftRight_eq_div_pow]
  exact max_le_max (Nat.div_le_div_right (UInt64.le_iff_toNat_le.mp le)) le_rfl

/-- The shift that is chosen for some votes leaves 16 bits of them. -/
theorem scaled_first (votes : UInt64) : scaled (VoteCounter.first_bitshift votes).toNat votes < 2^16 := by
  have shift : (VoteCounter.first_bitshift votes).toNat = Nat.log2 votes.toNat - 15 := by
    unfold VoteCounter.first_bitshift
    omega
  have below : votes.toNat < 2^(Nat.log2 votes.toNat + 1) := Nat.lt_log2_self
  have split : 2^(Nat.log2 votes.toNat + 1) ≤ 2^16 * 2^(Nat.log2 votes.toNat - 15) := by
    rw [← pow_add]
    exact Nat.pow_le_pow_right (by decide) (by omega)
  unfold scaled
  rw [shift,Nat.shiftRight_eq_div_pow]
  refine max_lt ?_ (by decide)
  exact (Nat.div_lt_iff_lt_mul (Nat.two_pow_pos _)).mpr (Nat.lt_of_lt_of_le below split)

theorem first_bitshift_lt (votes : UInt64) : (VoteCounter.first_bitshift votes).toNat < 64 := by
  have : Nat.log2 votes.toNat < 64 := by
    rcases Nat.eq_zero_or_pos votes.toNat with zero | some
    · rw [zero]
      decide
    · exact (Nat.log2_lt (Nat.ne_of_gt some)).mpr votes.toNat_lt
  unfold VoteCounter.first_bitshift
  omega

theorem toNat_scaled {bitshift : Nat} (small : bitshift < 64) (votes : UInt64) :
    (max (votes >>> UInt64.ofNat bitshift) 1).toNat = scaled bitshift votes := by
  have shifted : (votes >>> UInt64.ofNat bitshift).toNat = votes.toNat >>> bitshift := by
    rw [UInt64.toNat_shiftRight,UInt64.toNat_ofNat_of_lt' (Nat.lt_trans small (by decide)),Nat.mod_eq_of_lt small]
  show (if votes >>> UInt64.ofNat bitshift ≤ 1 then 1 else votes >>> UInt64.ofNat bitshift).toNat = _
  unfold scaled
  rw [← shifted]
  split
  case isTrue low => exact (max_eq_right (UInt64.le_iff_toNat_le.mp low)).symm
  case isFalse high =>
    refine (max_eq_left (Nat.le_of_not_le fun low => high ?_)).symm
    exact UInt64.le_iff_toNat_le.mpr low

/-- The member that a miner becomes. -/
def weigh (bitshift : Nat) (row : AccountId × UInt64) : AccountId × UInt16 :=
  (row.1,UInt16.ofNat (scaled bitshift row.2))

/-- What was counted so far, all under one shift. -/
structure Counted (bitshift : Nat) (rows : List (AccountId × UInt64)) (vc : VoteCounter Key) : Prop where
  shifted : vc.bitshift = bitshift
  members : vc.auth.account_auths.Perm (rows.map (weigh bitshift))
  total_votes : vc.total_votes.toNat = (rows.map fun row => scaled bitshift row.2).sum
  keyless : vc.auth.key_auths = []

theorem sum_scaled_le {bitshift : Nat} {rows : List (AccountId × UInt64)}
    (below : ∀ row ∈ rows, scaled bitshift row.2 < 2^16) :
    (rows.map fun row => scaled bitshift row.2).sum ≤ rows.length * 65535 := by
  induction rows with
  | nil => exact Nat.le_refl 0
  | cons row rest ih =>
    have here := below row List.mem_cons_self
    have later := ih fun row member => below row (List.mem_cons_of_mem _ member)
    rw [List.map_cons,List.sum_cons,List.length_cons,Nat.add_one_mul]
    omega

/-- One more miner, who has votes. -/
theorem Counted.add {bitshift : Nat} {rows : List (AccountId × UInt64)} {vc : VoteCounter Key} {row : AccountId × UInt64}
    (counted : Counted bitshift rows vc) (small : bitshift < 64) (voted : row.2 ≠ 0) (new : row.1 ∉ rows.map Prod.fst)
    (below : ∀ r ∈ row :: rows, scaled bitshift r.2 < 2^16) (few : rows.length < 2^16) :
    Counted bitshift (row :: rows) (vc.add row.1 row.2) := by
  have apart : ¬ ((bitshift : Int) = -1) := by omega
  have here := below row List.mem_cons_self
  have sum := sum_scaled_le fun r member => below r (List.mem_cons_of_mem row member)
  have word : (max (row.2 >>> UInt64.ofNat bitshift) 1).toNat = scaled bitshift row.2 := toNat_scaled small row.2
  have unseen : row.1 ∉ vc.auth.account_auths.map Prod.fst := by
    rw [(counted.members.map Prod.fst).mem_iff,List.map_map]
    exact new
  unfold VoteCounter.add
  simp only [if_neg voted,counted.shifted,if_neg apart,Int.toNat_natCast]
  refine ⟨rfl,?_,?_,counted.keyless⟩
  · refine (FlatMap.perm_put unseen).trans ?_
    have weight : (max (row.2 >>> UInt64.ofNat bitshift) 1).toUInt16 = UInt16.ofNat (scaled bitshift row.2) := by
      rw [← word]
      rfl
    rw [weight]
    exact counted.members.cons _
  · rw [UInt64.toNat_add,word,counted.total_votes,List.map_cons,List.sum_cons]
    omega

/-- The miners after the first who has votes. -/
theorem Counted.foldl {bitshift : Nat} (small : bitshift < 64) (rows : List (AccountId × UInt64)) :
    ∀ {done : List (AccountId × UInt64)} {vc : VoteCounter Key}, Counted bitshift done vc →
      ((rows ++ done).map Prod.fst).Nodup → (∀ row ∈ rows, row.2 ≠ 0) →
      (∀ row ∈ rows ++ done, scaled bitshift row.2 < 2^16) → (rows ++ done).length ≤ 2^16 →
      Counted bitshift (rows.reverse ++ done) (rows.foldl (fun vc row => vc.add row.1 row.2) vc) := by
  induction rows with
  | nil => exact fun counted _ _ _ _ => counted
  | cons row rest ih =>
    intro done vc counted distinct voted below few
    obtain ⟨new,distinct'⟩ := List.nodup_cons.mp distinct
    have around : (rest ++ row :: done).Perm (row :: rest ++ done) := List.perm_middle
    have length : (rest ++ done).length + 1 ≤ 2^16 := few
    rw [List.length_append] at length
    rw [List.reverse_cons,List.append_assoc]
    refine ih (counted.add small (voted row List.mem_cons_self) ?_ ?_ (by omega)) ?_ ?_ ?_ ?_
    · exact fun member => new (List.map_subset Prod.fst (List.subset_append_right rest done) member)
    · intro r member
      refine below r (around.subset ?_)
      exact List.mem_append_right _ member
    · exact ((around.map Prod.fst).nodup_iff).mpr distinct
    · exact fun r member => voted r (List.mem_cons_of_mem row member)
    · exact fun r member => below r (around.subset member)
    · exact Nat.le_trans (Nat.le_of_eq around.length_eq) few

/-- Who has no votes is not counted. -/
theorem foldl_add_voters (rows : List (AccountId × UInt64)) (vc : VoteCounter Key) :
    rows.foldl (fun vc row => vc.add row.1 row.2) vc =
      (rows.filter fun row => row.2 ≠ 0).foldl (fun vc row => vc.add row.1 row.2) vc := by
  induction rows generalizing vc with
  | nil => rfl
  | cons row rest ih =>
    rw [List.foldl_cons,ih]
    by_cases none : row.2 = 0
    · rw [List.filter_cons_of_neg (by simpa using none),VoteCounter.add,if_pos none]
    · rw [List.filter_cons_of_pos (by simpa using none),List.foldl_cons]

/-- The first votes choose the shift that they are counted under. -/
theorem start_add {who : AccountId} {votes : UInt64} (voted : votes ≠ 0) : (VoteCounter.start : VoteCounter Key).add who votes =
    ({ VoteCounter.start with bitshift := VoteCounter.first_bitshift votes } : VoteCounter Key).add who votes := by
  unfold VoteCounter.add VoteCounter.start
  simp only [if_neg voted,if_true,ite_self]

/-- Nobody has more votes than the first, so all stay below 16 bits under the shift for him. -/
theorem scaled_below {first : AccountId × UInt64} {rest : List (AccountId × UInt64)}
    (sorted : (first :: rest).Pairwise fun r r' => r'.2 ≤ r.2) (row : AccountId × UInt64) (member : row ∈ first :: rest) :
    scaled (VoteCounter.first_bitshift first.2).toNat row.2 < 2^16 := by
  have least : row.2 ≤ first.2 := by
    rcases List.mem_cons.mp member with rfl | member
    · exact UInt64.le_refl _
    · exact (List.pairwise_cons.mp sorted).1 row member
  exact Nat.lt_of_le_of_lt (scaled_mono least) (scaled_first first.2)

/-- All miners are counted, when each of them has votes. -/
theorem count_voters {first : AccountId × UInt64} {rest : List (AccountId × UInt64)}
    (sorted : (first :: rest).Pairwise fun r r' => r'.2 ≤ r.2) (distinct : ((first :: rest).map Prod.fst).Nodup)
    (few : (first :: rest).length ≤ 2^16) (each : ∀ row ∈ first :: rest, row.2 ≠ 0) :
    Counted (VoteCounter.first_bitshift first.2).toNat (rest.reverse ++ [first])
      ((first :: rest).foldl (fun vc row => vc.add row.1 row.2) (VoteCounter.start : VoteCounter Key)) := by
  have small := first_bitshift_lt first.2
  have shift : VoteCounter.first_bitshift first.2 = ((VoteCounter.first_bitshift first.2).toNat : Int) := by
    unfold VoteCounter.first_bitshift
    omega
  have below := scaled_below sorted
  generalize (VoteCounter.first_bitshift first.2).toNat = bitshift at *
  have started : Counted bitshift [first] ((VoteCounter.start : VoteCounter Key).add first.1 first.2) := by
    rw [start_add (each first List.mem_cons_self),shift]
    refine Counted.add ⟨rfl,List.Perm.refl _,rfl,rfl⟩ small (each first List.mem_cons_self) List.not_mem_nil ?_ (by decide)
    exact fun r member => below r (List.mem_cons.mpr (.inl (List.mem_singleton.mp member)))
  have last := List.perm_append_singleton first rest
  refine started.foldl small rest ?_ ?_ ?_ ?_
  · exact ((last.map Prod.fst).nodup_iff).mpr distinct
  · exact fun row member => each row (List.mem_cons_of_mem first member)
  · exact fun row member => below row (last.subset member)
  · exact Nat.le_trans (Nat.le_of_eq last.length_eq) few

/-- Everybody who has votes is counted, under a shift that keeps all of them below 16 bits. -/
theorem count_counted {rows : List (AccountId × UInt64)} (sorted : rows.Pairwise fun r r' => r'.2 ≤ r.2)
    (distinct : (rows.map Prod.fst).Nodup) (few : rows.length ≤ 2^16) (voted : ∃ row ∈ rows, row.2 ≠ 0) :
    ∃ bitshift voters, voters.Perm (rows.filter fun row => row.2 ≠ 0) ∧ (∀ row ∈ voters, scaled bitshift row.2 < 2^16) ∧
      Counted bitshift voters (VoteCounter.count rows : VoteCounter Key) := by
  have kept : (rows.filter fun row => row.2 ≠ 0).Sublist rows := List.filter_sublist
  have sorted' := sorted.sublist kept
  have distinct' := distinct.sublist (kept.map Prod.fst)
  have few' := Nat.le_trans kept.length_le few
  have each (row : AccountId × UInt64) (member : row ∈ rows.filter fun row => row.2 ≠ 0) : row.2 ≠ 0 := by
    simpa using (List.mem_filter.mp member).2
  obtain ⟨row,member,some⟩ := voted
  have there : row ∈ rows.filter fun row => row.2 ≠ 0 := List.mem_filter.mpr ⟨member,by simpa using some⟩
  rw [VoteCounter.count,foldl_add_voters]
  generalize rows.filter (fun row => row.2 ≠ 0) = voters at *
  cases voters with
  | nil => exact absurd there List.not_mem_nil
  | cons first rest =>
    have around : (rest.reverse ++ [first]).Perm (first :: rest) :=
      (List.perm_append_singleton _ _).trans ((List.reverse_perm rest).cons first)
    exact ⟨_,_,around,fun r counts => scaled_below sorted' r (around.subset counts),count_voters sorted' distinct' few' each⟩

/-- What a set of accounts weighs in an authority. -/
def Authority.weight_of (a : Authority Key) (members : Set AccountId) [DecidablePred (· ∈ members)] : Nat :=
  FlatMap.weight UInt16.toNat members a.account_auths

/-- What all its accounts weigh. -/
def Authority.weights (a : Authority Key) : Nat := FlatMap.total UInt16.toNat a.account_auths

/-- An authority by votes: who has votes has a weight, more votes have no less weight, the threshold is
    the least majority, all members together reach it, and of two sets that do some member is in both. -/
structure ByVotes (rows : List (AccountId × UInt64)) (a : Authority Key) : Prop where
  members : ∀ p, p ∈ a.account_auths.map Prod.fst ↔ ∃ row ∈ rows, row.1 = p ∧ row.2 ≠ 0
  weight : ∀ row ∈ a.account_auths, 1 ≤ row.2.toNat ∧ row.2.toNat ≤ 65535
  ordered : ∀ row ∈ rows, ∀ row' ∈ rows, row.2 ≤ row'.2 → ∀ w w', (row.1,w) ∈ a.account_auths →
    (row'.1,w') ∈ a.account_auths → w ≤ w'
  small : a.weights < 2^32
  threshold : a.weight_threshold.toNat = a.weights / 2 + 1
  keyless : a.key_auths = []
  satisfiable : a.weight_threshold.toNat ≤ a.weight_of Set.univ
  meets : ∀ (S T : Set AccountId) [DecidablePred (· ∈ S)] [DecidablePred (· ∈ T)],
    a.weight_threshold.toNat ≤ a.weight_of S → a.weight_threshold.toNat ≤ a.weight_of T →
      ∃ p, p ∈ a.account_auths.map Prod.fst ∧ p ∈ S ∧ p ∈ T

section
variable {bitshift : Nat} {voters : List (AccountId × UInt64)} {vc : VoteCounter Key}

theorem toNat_weigh {row : AccountId × UInt64} (below : scaled bitshift row.2 < 2^16) :
    (weigh bitshift row).2.toNat = scaled bitshift row.2 :=
  UInt16.toNat_ofNat_of_lt' below

/-- The counter has the sum of the weights. -/
theorem Counted.weights (counted : Counted bitshift voters vc) (below : ∀ row ∈ voters, scaled bitshift row.2 < 2^16) :
    vc.auth.weights = vc.total_votes.toNat := by
  unfold Authority.weights FlatMap.total
  rw [(counted.members.map fun row => row.2.toNat).sum_eq,List.map_map,counted.total_votes]
  congr 1
  exact List.map_congr_left fun row member => toNat_weigh (below row member)

theorem Counted.member (counted : Counted bitshift voters vc) {p : AccountId} {w : UInt16} (member : (p,w) ∈ vc.auth.account_auths) :
    ∃ row ∈ voters, row.1 = p ∧ (weigh bitshift row).2 = w := by
  obtain ⟨row,counts,same⟩ := List.mem_map.mp (counted.members.subset member)
  cases same
  exact ⟨row,counts,rfl,rfl⟩

/-- Somebody has a weight. -/
theorem Counted.some (counted : Counted bitshift voters vc) (some : voters ≠ []) : 0 < vc.total_votes.toNat := by
  obtain ⟨row,rest,rfl⟩ := List.exists_cons_of_ne_nil some
  rw [counted.total_votes,List.map_cons,List.sum_cons]
  exact Nat.add_pos_left (Nat.lt_of_lt_of_le Nat.one_pos (le_max_right _ _)) _

end

/-- What is written is the least majority of the weights. -/
theorem finish_threshold {vc : VoteCounter Key} {out_auth : Authority Key} (some : 0 < vc.total_votes.toNat)
    (below : vc.total_votes.toNat < 2^32) : (vc.finish out_auth).weight_threshold.toNat = vc.total_votes.toNat / 2 + 1 ∧
      (vc.finish out_auth).account_auths = vc.auth.account_auths ∧ (vc.finish out_auth).key_auths = vc.auth.key_auths := by
  have voted : ¬vc.total_votes = 0 := fun none => by
    rw [none] at some
    exact absurd some (Nat.lt_irrefl 0)
  unfold VoteCounter.finish
  rw [if_neg voted]
  refine ⟨?_,rfl,rfl⟩
  have half : (vc.total_votes.toUInt32 >>> 1).toNat = vc.total_votes.toNat / 2 := by
    rw [UInt32.toNat_shiftRight,UInt64.toNat_toUInt32,Nat.mod_eq_of_lt below]
    exact Nat.shiftRight_eq_div_pow _ 1
  show ((vc.total_votes.toUInt32 >>> 1) + 1).toNat = _
  rw [UInt32.toNat_add,half]
  exact Nat.mod_eq_of_lt (by show _ + 1 < _; omega)

section
variable {bitshift : Nat} {rows voters : List (AccountId × UInt64)} {vc : VoteCounter Key} {a : Authority Key}

/-- More votes weigh no less. -/
theorem Counted.ordered (counted : Counted bitshift voters vc) (below : ∀ row ∈ voters, scaled bitshift row.2 < 2^16)
    (among : ∀ row ∈ voters, row ∈ rows) (distinct : (rows.map Prod.fst).Nodup) {row row' : AccountId × UInt64}
    (member : row ∈ rows) (member' : row' ∈ rows) (le : row.2 ≤ row'.2) {w w' : UInt16}
    (weighs : (row.1,w) ∈ vc.auth.account_auths) (weighs' : (row'.1,w') ∈ vc.auth.account_auths) : w ≤ w' := by
  obtain ⟨r,counts,who,rfl⟩ := counted.member weighs
  obtain ⟨r',counts',who',rfl⟩ := counted.member weighs'
  obtain rfl : r = row := List.inj_on_of_nodup_map distinct (among r counts) member who
  obtain rfl : r' = row' := List.inj_on_of_nodup_map distinct (among r' counts') member' who'
  rw [UInt16.le_iff_toNat_le,toNat_weigh (below r counts),toNat_weigh (below r' counts')]
  exact scaled_mono le

/-- The members that were counted, with the least majority as the threshold. -/
theorem Counted.byVotes (counted : Counted bitshift voters vc) (below : ∀ row ∈ voters, scaled bitshift row.2 < 2^16)
    (voter : ∀ row, row ∈ voters ↔ row ∈ rows ∧ row.2 ≠ 0) (distinct : (rows.map Prod.fst).Nodup)
    (small : vc.total_votes.toNat < 2^32) (threshold : a.weight_threshold.toNat = vc.total_votes.toNat / 2 + 1)
    (some : 0 < vc.total_votes.toNat) (accounts : a.account_auths = vc.auth.account_auths)
    (keys : a.key_auths = vc.auth.key_auths) : ByVotes rows a := by
  have total : a.weights = vc.total_votes.toNat := by
    rw [← counted.weights below,Authority.weights,accounts]
    rfl
  refine ⟨fun p => ?_,fun row member => ?_,fun row member row' member' le w w' weighs weighs' => ?_,?_,?_,?_,?_,?_⟩
  · rw [accounts,(counted.members.map Prod.fst).mem_iff,List.map_map]
    constructor
    · intro member
      obtain ⟨row,counts,same⟩ := List.mem_map.mp member
      exact ⟨row,((voter row).mp counts).1,same,((voter row).mp counts).2⟩
    · rintro ⟨row,member,same,voted⟩
      exact List.mem_map.mpr ⟨row,(voter row).mpr ⟨member,voted⟩,same⟩
  · rw [accounts] at member
    obtain ⟨r,counts,-,same⟩ := counted.member member
    rw [← same,toNat_weigh (below r counts)]
    exact ⟨le_max_right _ _,Nat.le_of_lt_succ (below r counts)⟩
  · rw [accounts] at weighs weighs'
    exact counted.ordered below (fun row counts => ((voter row).mp counts).1) distinct member member' le weighs weighs'
  · rwa [total]
  · rw [total]
    exact threshold
  · rw [keys]
    exact counted.keyless
  · rw [Authority.weight_of,FlatMap.weight_of_mem Set.univ fun _ _ => Set.mem_univ _]
    show _ ≤ Authority.weights _
    omega
  · intro S T _ _ enough enough'
    have majority : a.weights < 2 * a.weight_threshold.toNat := by omega
    obtain ⟨row,member,inS,inT⟩ := FlatMap.majorities_meet majority enough enough'
    exact ⟨row.1,List.mem_map_of_mem member,inS,inT⟩

end

/-- The authority that is written when somebody has votes, of no more than 65536 accounts in the order of
    their votes; without votes nothing is written. -/
theorem votes_authority (rows : List (AccountId × UInt64)) (sorted : rows.Pairwise fun r r' => r'.2 ≤ r.2)
    (distinct : (rows.map Prod.fst).Nodup) (few : rows.length ≤ 2^16) (out_auth : Authority Key) :
    ((∃ row ∈ rows, row.2 ≠ 0) → ByVotes rows ((VoteCounter.count rows).finish out_auth)) ∧
      ((∀ row ∈ rows, row.2 = 0) → (VoteCounter.count rows).finish out_auth = out_auth) := by
  constructor
  · intro voted
    obtain ⟨bitshift,voters,perm,below,counted⟩ := @count_counted Key _ _ sorted distinct few voted
    have voter (row : AccountId × UInt64) : row ∈ voters ↔ row ∈ rows ∧ row.2 ≠ 0 := by
      rw [perm.mem_iff,List.mem_filter]
      simp
    have someone : voters ≠ [] := by
      obtain ⟨row,member,some⟩ := voted
      exact List.ne_nil_of_mem ((voter row).mpr ⟨member,some⟩)
    have some := counted.some someone
    have small : (VoteCounter.count rows : VoteCounter Key).total_votes.toNat < 2^32 := by
      have most := sum_scaled_le below
      have length : voters.length ≤ rows.length := Nat.le_trans (Nat.le_of_eq perm.length_eq) (List.length_filter_le _ _)
      rw [← counted.total_votes] at most
      omega
    obtain ⟨threshold,accounts,keys⟩ := @finish_threshold _ _ _ out_auth some small
    exact counted.byVotes below voter distinct small threshold some accounts keys
  · intro none
    have empty : rows.filter (fun row => row.2 ≠ 0) = [] :=
      List.filter_eq_nil_iff.mpr fun row member => by simp [none row member]
    rw [VoteCounter.count,foldl_add_voters,empty]
    rfl

/-- Account 9 has two shares of `2^40`, account 4 one share, and account 7 has none. -/
def three_miners : List (AccountId × UInt64) := [(9,2199023255552),(4,1),(7,0)]

theorem votes_authority_three : ByVotes three_miners ((VoteCounter.count three_miners).finish (Authority.empty : Authority Nat)) ∧
    ((VoteCounter.count three_miners).finish (Authority.empty : Authority Nat)).account_auths = [(4,1),(9,32768)] :=
  ⟨(votes_authority three_miners (by decide) (by decide) (by decide) _).1 (by decide),by decide⟩

end Decent.Authorities

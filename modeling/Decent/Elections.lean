import Decent.Issued
import Decent.VoteCounter
import Decent.Lib.Buckets
import Mathlib.Data.List.Sort
import Mathlib.Data.UInt
import Mathlib.Order.Bounds.Basic
import Mathlib.Order.Interval.Finset.Nat
import Mathlib.Algebra.BigOperators.Intervals

/-!
The election of the miners. Every account's core counts for the votes of the account it has named as
its proxy, and for the number of miners that account wishes for; a maintenance tallies both, finds the
number that a majority reaches, and takes that many of the miners with the most votes.
-/
namespace Decent.Elections
open Decent.Money (as_share max_share_supply as_share_small)
open Decent.Authorities (Authority VoteCounter)

abbrev AccountId := Nat
abbrev MinerId := Nat

/-- `GRAPHENE_PROXY_TO_SELF_ACCOUNT` -/
def proxy_to_self : AccountId := 3

/-- What an account has of the core asset, and what its options say of the miners. A `vote_id_type` is its
    instance, which is all that two of them are compared by. -/
structure Account where
  total_core_in_orders : Nat
  cashback_vb : Option Nat
  balance : Nat
  voting_account : AccountId
  num_miner : UInt16
  votes : List Nat
  distinct : votes.Nodup

def Account.stake (a : Account) : Nat := a.total_core_in_orders + a.cashback_vb.getD 0 + a.balance

/-- The `voting_stake` of the tally. -/
def Account.voting_stake (a : Account) : UInt64 := UInt64.ofNat a.stake

structure Miner where
  miner_account : AccountId
  vote_id : Nat
  total_votes : UInt64

/-- The buffers of the database that a maintenance counts in. -/
structure Tally where
  vote_tally_buffer : List UInt64
  miner_count_histogram_buffer : List UInt64
  total_voting_stake : UInt64

def Tally.Cleared (t : Tally) : Prop := t.vote_tally_buffer = [] ∧ t.miner_count_histogram_buffer = []

variable {Key : Type} [LinearOrder Key]

/-- What an election depends on and writes. No more core is held than there can be, every miner has an
    account and a vote id of its own, and one of the miners is there from the genesis. -/
structure Electorate (Key : Type) [LinearOrder Key] where
  accounts : Table AccountId Account
  miners : Index Miner
  next_available_vote_id : Nat
  maximum_miner_count : UInt16
  min_miner_count : UInt16
  tally : Tally
  active_miners : List MinerId
  miner_authority : Authority Key
  limited : ((accounts.rows.map fun row => row.2.stake).sum : Nat) ≤ max_share_supply
  some_miner : miners.table.rows ≠ []
  accounts_apart : (miners.table.rows.map fun row => row.2.miner_account).Nodup
  votes_apart : (miners.table.rows.map fun row => row.2.vote_id).Nodup
  known : ∀ row ∈ miners.table.rows, row.2.vote_id < next_available_vote_id

namespace Electorate
variable (E : Electorate Key)

/-- `miner_create`, with the vote id of `get_next_vote_id`: there is one miner an account, and an id has
    24 bits. -/
def miner_create (miner_account : AccountId) (alone : miner_account ∉ E.miners.table.rows.map fun row => row.2.miner_account)
    (_ : E.next_available_vote_id < 2^24) : Electorate Key :=
  have rows : (E.miners.create ⟨miner_account,E.next_available_vote_id,0⟩).table.rows =
      E.miners.table.rows ++ [(E.miners.next,⟨miner_account,E.next_available_vote_id,0⟩)] :=
    Table.rows_put_new _ (Index.find?_next E.miners)
  { E with
    miners := E.miners.create ⟨miner_account,E.next_available_vote_id,0⟩
    next_available_vote_id := E.next_available_vote_id + 1
    some_miner := by simp [rows]
    accounts_apart := by
      rw [rows,List.map_append]
      exact E.accounts_apart.append (List.nodup_singleton _) (by simpa using alone)
    votes_apart := by
      rw [rows,List.map_append]
      refine E.votes_apart.append (List.nodup_singleton _) fun id inside new => ?_
      obtain ⟨row,member,rfl⟩ := List.mem_map.mp inside
      exact absurd (E.known row member) (by simp_all)
    known := fun row member => by
      rw [rows,List.mem_append] at member
      rcases member with old | new
      · exact Nat.lt_succ_of_lt (E.known row old)
      · cases List.mem_singleton.mp new
        exact Nat.lt_succ_self _ }

/-! ### The tally -/

/-- The account that specifies the opinions; `get` throws without it. -/
def opinion_account (a : Account) : Option Account :=
  if a.voting_account = proxy_to_self then some a else E.accounts.find? a.voting_account

def resize (size : Nat) (buffer : List UInt64) : List UInt64 := buffer.take size ++ List.replicate (size - buffer.length) 0

/-- The constructor of `vote_tally_helper`. -/
def start_tally : Tally where
  vote_tally_buffer := resize E.next_available_vote_id E.tally.vote_tally_buffer
  miner_count_histogram_buffer := resize (E.maximum_miner_count.toNat / 2 + 1) E.tally.miner_count_histogram_buffer
  total_voting_stake := 0

/-- The `vote_tally_helper` at one account. -/
def vote_tally_helper (t : Tally) (stake_account : AccountId × Account) : Option Tally := do
  let opinion ← E.opinion_account stake_account.2
  let voting_stake := stake_account.2.voting_stake
  let offset := min (opinion.num_miner.toNat / 2) (t.miner_count_histogram_buffer.length - 1)
  some
    { vote_tally_buffer := Buckets.add_all voting_stake opinion.votes t.vote_tally_buffer
      miner_count_histogram_buffer :=
        if opinion.num_miner ≤ E.maximum_miner_count then Buckets.add voting_stake t.miner_count_histogram_buffer offset
        else t.miner_count_histogram_buffer
      total_voting_stake := t.total_voting_stake + voting_stake }

def perform_account_maintenance : Option Tally := E.accounts.rows.foldlM E.vote_tally_helper E.start_tally

/-! ### The election -/

end Electorate

/-- The loop over the buckets behind the first one. -/
def walk (stake_target stake_tally : Int) (miner_count : Nat) : List UInt64 → Nat
  | [] => miner_count
  | bucket :: rest =>
    if stake_tally ≤ stake_target then walk stake_target (stake_tally + as_share bucket) (miner_count + 1) rest
    else miner_count

namespace Tally
variable (t : Tally)

/-- The `miner_count` of `update_active_miners`. -/
def miner_count : Nat :=
  let stake_target := as_share ((t.total_voting_stake - t.miner_count_histogram_buffer.headD 0) / 2)
  if 0 < stake_target then walk stake_target 0 0 t.miner_count_histogram_buffer.tail else 0

def votes (id : Nat) : UInt64 := t.vote_tally_buffer.getD id 0

/-- The comparison of `sort_votable_objects`. -/
def before (a b : Miner) : Bool :=
  let oa_vote := as_share (t.votes a.vote_id)
  let ob_vote := as_share (t.votes b.vote_id)
  if oa_vote ≠ ob_vote then ob_vote < oa_vote else a.vote_id < b.vote_id

end Tally

namespace Electorate
variable (E : Electorate Key)

/-- `sort_votable_objects` -/
def sort_votable_objects (t : Tally) (count : Nat) : List (MinerId × Miner) :=
  (E.miners.table.rows.insertionSort fun a b => ¬t.before b.2 a.2).take (min count E.miners.table.rows.length)

def update_active_miners (t : Tally) : Electorate Key :=
  let wits := E.sort_votable_objects t (max (t.miner_count * 2 + 1) E.min_miner_count.toNat)
  { E with
    miners := E.miners.mapValues fun wit => { wit with total_votes := t.votes wit.vote_id }
    active_miners := wits.map Prod.fst
    miner_authority :=
      (VoteCounter.count (wits.map fun wit => (wit.2.miner_account,t.votes wit.2.vote_id))).finish E.miner_authority
    tally := t
    some_miner := by simpa [Index.mapValues,Table.mapValues] using E.some_miner
    accounts_apart := by simpa [Index.mapValues,Table.mapValues,Function.comp_def] using E.accounts_apart
    votes_apart := by simpa [Index.mapValues,Table.mapValues,Function.comp_def] using E.votes_apart
    known := fun row member => by
      obtain ⟨row,inside,rfl⟩ := List.mem_map.mp member
      exact E.known row inside }

/-- The part of `perform_chain_maintenance` that elects the miners; the buffers are cleared when it
    returns. -/
def perform_chain_maintenance : Option (Electorate Key) := do
  let t ← E.perform_account_maintenance
  let E := E.update_active_miners t
  some { E with tally := ⟨[],[],t.total_voting_stake⟩ }

/-! ### What the accounts say -/

/-- The votes that an account's stake counts for. -/
def approved (row : AccountId × Account) : List Nat := ((E.opinion_account row.2).map Account.votes).getD []

/-- The bucket of the number of miners that an account's stake counts for, if it may be that many. -/
def wish (row : AccountId × Account) : List Nat :=
  match E.opinion_account row.2 with
  | some opinion => if opinion.num_miner ≤ E.maximum_miner_count then [opinion.num_miner.toNat / 2] else []
  | none => []

def stake_of (row : AccountId × Account) : Nat := row.2.stake

/-- The votes of a vote id: the stakes of all accounts whose opinion account votes for it. -/
def votes_for (id : Nat) : Nat := Buckets.weight E.approved stake_of E.accounts.rows id

/-- The stake in a bucket of the wishes. -/
def wishing (i : Nat) : Nat := Buckets.weight E.wish stake_of E.accounts.rows i

/-- The stake that is not in bucket 0. -/
def voicing : Nat := (E.accounts.rows.map fun row => if 0 ∈ E.wish row then 0 else row.2.stake).sum

def last_bucket : Nat := E.maximum_miner_count.toNat / 2

theorem nodup_approved (row : AccountId × Account) : (E.approved row).Nodup := by
  unfold approved
  cases E.opinion_account row.2 with
  | none => exact List.nodup_nil
  | some opinion => exact opinion.distinct

theorem nodup_wish (row : AccountId × Account) : (E.wish row).Nodup := by
  unfold wish
  split
  · split
    · exact List.nodup_singleton _
    · exact List.nodup_nil
  · exact List.nodup_nil

/-! ### The tally counts what they say -/

/-- What the buffers have after some of the accounts. -/
structure Counted (done : List (AccountId × Account)) (t : Tally) : Prop where
  votes : t.vote_tally_buffer =
    (List.range E.next_available_vote_id).map (Buckets.weight E.approved (fun row => row.2.voting_stake) done)
  wishes : t.miner_count_histogram_buffer =
    (List.range (E.last_bucket + 1)).map (Buckets.weight E.wish (fun row => row.2.voting_stake) done)
  total : t.total_voting_stake = (done.map fun row => row.2.voting_stake).sum

variable {E}
variable {t t' : Tally} {done : List (AccountId × Account)} {row : AccountId × Account}

theorem counted_start (cleared : E.tally.Cleared) : E.Counted [] E.start_tally := by
  obtain ⟨votes,wishes⟩ := cleared
  have zeros (size : Nat) : resize size [] = (List.range size).map fun _ => 0 := by
    simp [resize,List.map_const']
  refine ⟨?_,?_,rfl⟩
  · rw [start_tally,votes,zeros]
    rfl
  · rw [start_tally,wishes,zeros]
    rfl

/-- One account is counted. -/
theorem Counted.step (counted : E.Counted done t) (ran : E.vote_tally_helper t row = some t') :
    E.Counted (done ++ [row]) t' := by
  obtain ⟨opinion,found,ran⟩ := Option.bind_eq_some_iff.mp ran
  cases ran
  refine ⟨?_,?_,?_⟩
  · have approved : E.approved row = opinion.votes := by rw [approved,found]; rfl
    have whole := Buckets.add_all_range (fun row => row.2.voting_stake) E.next_available_vote_id done row (E.nodup_approved row)
    rw [← whole,← counted.votes,approved]
  · have whole := Buckets.add_all_range (fun row => row.2.voting_stake) (E.last_bucket + 1) done row (E.nodup_wish row)
    rw [← whole,← counted.wishes]
    dsimp only
    by_cases few : opinion.num_miner ≤ E.maximum_miner_count
    · have wish : E.wish row = [opinion.num_miner.toNat / 2] := by
        rw [wish,found]
        exact if_pos few
      have within : opinion.num_miner.toNat / 2 ≤ E.last_bucket := Nat.div_le_div_right (UInt16.le_iff_toNat_le.mp few)
      have offset : min (opinion.num_miner.toNat / 2) (t.miner_count_histogram_buffer.length - 1) = opinion.num_miner.toNat / 2 := by
        rw [counted.wishes,List.length_map,List.length_range]
        omega
      rw [if_pos few,offset,wish]
      rfl
    · have wish : E.wish row = [] := by
        rw [wish,found]
        exact if_neg few
      rw [if_neg few,wish]
      rfl
  · rw [List.map_append,List.sum_append,← counted.total]
    simp

theorem Counted.run (counted : E.Counted done t) (rest : List (AccountId × Account))
    (ran : rest.foldlM E.vote_tally_helper t = some t') : E.Counted (done ++ rest) t' := by
  induction rest generalizing done t with
  | nil =>
    cases ran
    rwa [List.append_nil]
  | cons row rest ih =>
    obtain ⟨t₁,first,later⟩ := Option.bind_eq_some_iff.mp ran
    have := ih (counted.step first) later
    rwa [List.append_assoc] at this

/-- The tally returns if all proxies are there. -/
theorem tally_returns (rest : List (AccountId × Account)) :
    (rest.foldlM E.vote_tally_helper t).isSome ↔ ∀ row ∈ rest, (E.opinion_account row.2).isSome := by
  induction rest generalizing t with
  | nil => simp
  | cons row rest ih =>
    rw [List.foldlM_cons,List.forall_mem_cons]
    cases found : E.opinion_account row.2 with
    | none => simp [vote_tally_helper,found]
    | some opinion => simpa [vote_tally_helper,found] using ih

/-! ### What the buffers amount to -/

theorem weight_voting (buckets : AccountId × Account → List Nat) (rows : List (AccountId × Account)) (j : Nat) :
    Buckets.weight buckets (fun row => row.2.voting_stake) rows j = UInt64.ofNat (Buckets.weight buckets stake_of rows j) := by
  unfold Buckets.weight
  induction rows with
  | nil => rfl
  | cons row rest ih =>
    rw [List.map_cons,List.sum_cons,List.map_cons,List.sum_cons,UInt64.ofNat_add,ih]
    congr 1
    split <;> rfl

theorem sum_voting (rows : List (AccountId × Account)) :
    (rows.map fun row => row.2.voting_stake).sum = UInt64.ofNat (rows.map stake_of).sum := by
  induction rows with
  | nil => rfl
  | cons row rest ih =>
    rw [List.map_cons,List.sum_cons,List.map_cons,List.sum_cons,UInt64.ofNat_add,ih]
    rfl

variable (E) in
theorem total_limited : ((E.accounts.rows.map stake_of).sum : Nat) ≤ max_share_supply := E.limited

/-- No bucket has more than all accounts. -/
theorem weight_le (buckets : AccountId × Account → List Nat) (rows : List (AccountId × Account)) (j : Nat) :
    Buckets.weight buckets stake_of rows j ≤ (rows.map stake_of).sum := by
  unfold Buckets.weight
  induction rows with
  | nil => exact Nat.le_refl 0
  | cons row rest ih =>
    rw [List.map_cons,List.sum_cons,List.map_cons,List.sum_cons]
    split <;> omega

variable (E) in
theorem wishing_add_voicing : E.wishing 0 + E.voicing = (E.accounts.rows.map stake_of).sum := by
  unfold wishing voicing Buckets.weight
  induction E.accounts.rows with
  | nil => rfl
  | cons row rest ih =>
    rw [List.map_cons,List.sum_cons,List.map_cons,List.sum_cons,List.map_cons,List.sum_cons,← ih]
    unfold stake_of
    split <;> omega

theorem toNat_limited {n : Nat} (limited : (n : Int) ≤ max_share_supply) : (UInt64.ofNat n).toNat = n := by
  have below : n < 2^64 := by
    have : (n : Int) < 2^64 := lt_of_le_of_lt limited (by decide)
    omega
  exact UInt64.toNat_ofNat_of_lt' below

theorem as_share_limited {n : Nat} (limited : (n : Int) ≤ max_share_supply) : as_share (UInt64.ofNat n) = n := by
  have whole := toNat_limited limited
  rw [as_share_small (by rwa [whole]),whole]

variable (E) in
theorem votes_for_limited (id : Nat) : (E.votes_for id : Int) ≤ max_share_supply :=
  le_trans (Int.ofNat_le.mpr (weight_le _ _ id)) E.total_limited

variable (E) in
theorem wishing_limited (i : Nat) : (E.wishing i : Int) ≤ max_share_supply :=
  le_trans (Int.ofNat_le.mpr (weight_le _ _ i)) E.total_limited

theorem Counted.votes_known (counted : E.Counted E.accounts.rows t) {id : Nat} (known : id < E.next_available_vote_id) :
    t.votes id = UInt64.ofNat (E.votes_for id) := by
  rw [Tally.votes,counted.votes,List.getD_eq_getElem?_getD,List.getElem?_map,List.getElem?_range known]
  exact weight_voting _ _ _

/-! ### The number of miners -/

/-- The loop may stop when no bucket before was enough. -/
theorem stops_least {target last k : Nat} {stake : Nat → Nat} (within : k ≤ last)
    (passed : ∀ j < k, ∑ i ∈ Finset.Icc 1 j, stake i ≤ target)
    (stops : k = last ∨ target < ∑ i ∈ Finset.Icc 1 k, stake i) :
    IsLeast {j | j = last ∨ target < ∑ i ∈ Finset.Icc 1 j, stake i} k := by
  refine ⟨stops,fun j enough => Nat.le_of_not_lt fun before => ?_⟩
  have := passed j before
  rcases enough with rfl | enough <;> omega

/-- The buckets that the loop has passed do not add up to more than the target. -/
theorem walk_least {target last : Nat} {bucket : Nat → UInt64} {stake : Nat → Nat} (small : ∀ i, as_share (bucket i) = stake i)
    (n k : Nat) (bound : k + n = last) (passed : ∀ j < k, ∑ i ∈ Finset.Icc 1 j, stake i ≤ target) :
    IsLeast {j | j = last ∨ target < ∑ i ∈ Finset.Icc 1 j, stake i}
      (walk target (∑ i ∈ Finset.Icc 1 k, stake i : Nat) k ((List.range' (k + 1) n).map bucket)) := by
  induction n generalizing k with
  | zero => exact stops_least (Nat.le_of_eq bound) passed (.inl bound)
  | succ n ih =>
    rw [List.range'_succ,List.map_cons,walk]
    split
    case isFalse reached => exact stops_least (by omega) passed (.inr (by omega))
    case isTrue below =>
      have next : ((∑ i ∈ Finset.Icc 1 k, stake i : Nat) : Int) + as_share (bucket (k + 1)) =
          (∑ i ∈ Finset.Icc 1 (k + 1), stake i : Nat) := by
        rw [Finset.sum_Icc_succ_top (by omega),small,Int.natCast_add]
      rw [next]
      refine ih (k + 1) (by omega) fun j before => ?_
      rcases Nat.lt_succ_iff_lt_or_eq.mp before with before | rfl
      · exact passed j before
      · exact Int.ofNat_le.mp below

/-- The number that the buffers amount to: nobody's wish when no more than one share is outside bucket 0,
    else the first number of buckets with more than half of that. -/
def Settles (E : Electorate Key) (k : Nat) : Prop :=
  (E.voicing ≤ 1 → k = 0) ∧
    (2 ≤ E.voicing → IsLeast {k | k = E.last_bucket ∨ E.voicing < 2 * ∑ i ∈ Finset.Icc 1 k, E.wishing i} k)

theorem Counted.histogram (counted : E.Counted E.accounts.rows t) : t.miner_count_histogram_buffer =
    UInt64.ofNat (E.wishing 0) :: (List.range' (0 + 1) E.last_bucket).map fun i => UInt64.ofNat (E.wishing i) := by
  rw [counted.wishes,List.range_eq_range',List.range'_succ,List.map_cons,weight_voting]
  congr 1
  exact List.map_congr_left fun i _ => weight_voting _ _ i

/-- Nothing wraps in the difference. -/
theorem Counted.stake_target (counted : E.Counted E.accounts.rows t) :
    as_share ((t.total_voting_stake - t.miner_count_histogram_buffer.headD 0) / 2) = (E.voicing / 2 : Nat) := by
  have whole := E.wishing_add_voicing
  have limited := E.total_limited
  have first := toNat_limited (E.wishing_limited 0)
  have total : t.total_voting_stake = UInt64.ofNat (E.accounts.rows.map stake_of).sum := counted.total.trans (sum_voting _)
  have less : UInt64.ofNat (E.wishing 0) ≤ UInt64.ofNat (E.accounts.rows.map stake_of).sum := by
    rw [UInt64.le_iff_toNat_le,first,toNat_limited limited]
    omega
  have quotient : (t.total_voting_stake - t.miner_count_histogram_buffer.headD 0) / 2 = UInt64.ofNat (E.voicing / 2) := by
    rw [counted.histogram,total,List.headD_cons]
    refine UInt64.toNat_inj.mp ?_
    rw [UInt64.toNat_div,UInt64.toNat_sub_of_le _ _ less,first,toNat_limited limited,toNat_limited (by omega)]
    show _ / 2 = _
    omega
  rw [quotient,as_share_limited (by omega)]

theorem Counted.settles (counted : E.Counted E.accounts.rows t) : E.Settles t.miner_count := by
  constructor
  · intro few
    have none : E.voicing / 2 = 0 := by omega
    unfold Tally.miner_count
    dsimp only
    rw [counted.stake_target,none]
    rfl
  · intro many
    have count : t.miner_count =
        walk (E.voicing / 2 : Nat) 0 0 ((List.range' (0 + 1) E.last_bucket).map fun i => UInt64.ofNat (E.wishing i)) := by
      unfold Tally.miner_count
      dsimp only
      rw [counted.stake_target,if_pos (by omega),counted.histogram,List.tail_cons]
    have least := @walk_least (E.voicing / 2) E.last_bucket _ E.wishing (fun i => as_share_limited (E.wishing_limited i))
      E.last_bucket 0 (Nat.zero_add _) fun j before => absurd before (Nat.not_lt_zero j)
    have same : {k | k = E.last_bucket ∨ E.voicing < 2 * ∑ i ∈ Finset.Icc 1 k, E.wishing i} =
        {k | k = E.last_bucket ∨ E.voicing / 2 < ∑ i ∈ Finset.Icc 1 k, E.wishing i} := by
      ext k
      exact or_congr Iff.rfl ⟨fun more => by omega,fun more => by omega⟩
    rw [same,count]
    exact least

/-! ### The miners -/

variable (E) in
/-- The order of the miners: votes descending, then vote ids ascending. -/
def Above (a b : MinerId × Miner) : Prop :=
  E.votes_for b.2.vote_id < E.votes_for a.2.vote_id ∨
    E.votes_for a.2.vote_id = E.votes_for b.2.vote_id ∧ a.2.vote_id < b.2.vote_id

end Electorate

theorem Tally.before_iff (t : Tally) (a b : Miner) : t.before a b = true ↔
    as_share (t.votes b.vote_id) < as_share (t.votes a.vote_id) ∨
      as_share (t.votes a.vote_id) = as_share (t.votes b.vote_id) ∧ a.vote_id < b.vote_id := by
  unfold Tally.before
  dsimp only
  split <;> simp only [decide_eq_true_eq] <;> omega

namespace Electorate
variable {E : Electorate Key} {t : Tally}

/-- The order that the miners are sorted by. -/
def NotAfter (t : Tally) (a b : MinerId × Miner) : Prop := ¬t.before b.2 a.2 = true

instance (t : Tally) : DecidableRel (NotAfter t) := fun a b => inferInstanceAs (Decidable (¬t.before b.2 a.2 = true))

instance (t : Tally) : Std.Total (NotAfter t) where
  total a b := by
    unfold NotAfter
    rw [t.before_iff,t.before_iff]
    omega

instance (t : Tally) : IsTrans (MinerId × Miner) (NotAfter t) where
  trans a b c := by
    unfold NotAfter
    rw [t.before_iff,t.before_iff,t.before_iff]
    omega

/-- What an election leaves: the votes of every miner, and the first miners of the order. -/
structure Elects (E : Electorate Key) (k : Nat) (E' : Electorate Key) : Prop where
  miners : E'.miners.table.rows.map (fun row => (row.1,row.2.miner_account,row.2.vote_id)) =
    E.miners.table.rows.map fun row => (row.1,row.2.miner_account,row.2.vote_id)
  total_votes : ∀ row ∈ E'.miners.table.rows, row.2.total_votes.toNat = E.votes_for row.2.vote_id
  size : E'.active_miners.length = min E.miners.table.rows.length (max (2 * k + 1) E.min_miner_count.toNat)
  top : ∃ ranking : List (MinerId × Miner), ranking.Perm E.miners.table.rows ∧ ranking.Pairwise E.Above ∧
    E'.active_miners = (ranking.take E'.active_miners.length).map Prod.fst

/-- The miners in the order they are sorted in. -/
def ranking (E : Electorate Key) (t : Tally) : List (MinerId × Miner) := E.miners.table.rows.insertionSort (NotAfter t)

theorem ranking_perm : (E.ranking t).Perm E.miners.table.rows := List.perm_insertionSort _ _

theorem ranking_above (counted : E.Counted E.accounts.rows t) : (E.ranking t).Pairwise E.Above := by
  have sorted : (E.ranking t).Pairwise (NotAfter t) := List.pairwise_insertionSort _ _
  have apart : (E.ranking t).Pairwise fun a b => a.2.vote_id ≠ b.2.vote_id := by
    have := ((@ranking_perm _ _ E t).map fun row => row.2.vote_id).nodup_iff.mpr E.votes_apart
    exact List.pairwise_map.mp this
  refine (sorted.and apart).imp_of_mem fun {a b} inside inside' both => ?_
  have votes (row : MinerId × Miner) (member : row ∈ E.ranking t) : as_share (t.votes row.2.vote_id) = E.votes_for row.2.vote_id := by
    rw [counted.votes_known (E.known row (ranking_perm.subset member))]
    exact as_share_limited (E.votes_for_limited _)
  obtain ⟨notAfter,apart⟩ := both
  unfold NotAfter at notAfter
  rw [t.before_iff,votes a inside,votes b inside'] at notAfter
  unfold Above
  omega

theorem Counted.elects (counted : E.Counted E.accounts.rows t) {E' : Electorate Key}
    (elected : E' = { E.update_active_miners t with tally := ⟨[],[],t.total_voting_stake⟩ }) : E.Elects t.miner_count E' := by
  subst elected
  have active : (E.update_active_miners t).active_miners = ((E.ranking t).take
      (min (max (t.miner_count * 2 + 1) E.min_miner_count.toNat) E.miners.table.rows.length)).map Prod.fst := rfl
  have size : (E.update_active_miners t).active_miners.length =
      min (max (t.miner_count * 2 + 1) E.min_miner_count.toNat) E.miners.table.rows.length := by
    rw [active,List.length_map,List.length_take,ranking_perm.length_eq]
    omega
  refine ⟨?_,fun row member => ?_,?_,E.ranking t,ranking_perm,ranking_above counted,?_⟩
  · show ((E.miners.table.mapValues _).rows.map _) = _
    rw [Table.mapValues,List.map_map]
    rfl
  · obtain ⟨row,inside,rfl⟩ := List.mem_map.mp member
    show (t.votes row.2.vote_id).toNat = E.votes_for row.2.vote_id
    rw [counted.votes_known (E.known row inside)]
    exact toNat_limited (E.votes_for_limited _)
  · show (E.update_active_miners t).active_miners.length = _
    rw [size]
    omega
  · show (E.update_active_miners t).active_miners = ((E.ranking t).take (E.update_active_miners t).active_miners.length).map _
    rw [size,active]

/-- A maintenance that finds the buffers cleared returns if all proxies are there; it elects the miners
    with the most votes, as many as more than half of those who wish for more than one have wished for, and
    leaves the buffers cleared. -/
theorem election (E : Electorate Key) (cleared : E.tally.Cleared) :
    (E.perform_chain_maintenance.isSome ↔ ∀ row ∈ E.accounts.rows, (E.opinion_account row.2).isSome) ∧
      ∀ E', E.perform_chain_maintenance = some E' → (∃ k, E.Settles k ∧ E.Elects k E') ∧ E'.tally.Cleared := by
  constructor
  · unfold perform_chain_maintenance perform_account_maintenance
    rw [← @tally_returns _ _ E E.start_tally]
    cases E.accounts.rows.foldlM E.vote_tally_helper E.start_tally <;> simp
  · intro E' ran
    obtain ⟨t,tallied,elected⟩ := Option.bind_eq_some_iff.mp ran
    have counted := (counted_start cleared).run E.accounts.rows tallied
    have elected := (Option.some.inj elected).symm
    refine ⟨⟨t.miner_count,Counted.settles counted,Counted.elects counted elected⟩,?_⟩
    rw [elected]
    exact ⟨rfl,rfl⟩

/-- Account 21 is the proxy of account 20 and votes for one of the miners; account 22 votes for all three,
    and for one that is not there. -/
def proxied : Electorate Nat where
  accounts := ⟨[(20,⟨0,none,10,21,0,[],by decide⟩),(21,⟨0,some 5,0,3,1,[1],by decide⟩),
    (22,⟨0,none,7,3,3,[0,1,2,9],by decide⟩)],by decide⟩
  miners := ((Index.empty.create ⟨4,0,0⟩).create ⟨5,1,0⟩).create ⟨6,2,0⟩
  next_available_vote_id := 3
  maximum_miner_count := 5
  min_miner_count := 1
  tally := ⟨[],[],0⟩
  active_miners := [0]
  miner_authority := .empty
  limited := by decide
  some_miner := by decide
  accounts_apart := by decide
  votes_apart := by decide
  known := by decide

theorem election_proxied : ∃ E', proxied.perform_chain_maintenance = some E' ∧ E'.active_miners = [1,0,2] ∧
    ∃ k, proxied.Settles k ∧ proxied.Elects k E' := by
  have elected : proxied.perform_chain_maintenance.map (·.active_miners) = some [1,0,2] := by decide +kernel
  obtain ⟨E',ran,active⟩ := Option.map_eq_some_iff.mp elected
  exact ⟨E',ran,active,((election proxied ⟨rfl,rfl⟩).2 E' ran).1⟩

/-- Account 20 holds one share and votes for all three miners. -/
def one_share : Electorate Nat where
  accounts := ⟨[(20,⟨0,none,1,3,3,[0,1,2],by decide⟩)],by decide⟩
  miners := ((Index.empty.create ⟨4,0,0⟩).create ⟨5,1,0⟩).create ⟨6,2,0⟩
  next_available_vote_id := 3
  maximum_miner_count := 5
  min_miner_count := 1
  tally := ⟨[],[],0⟩
  active_miners := [0]
  miner_authority := .empty
  limited := by decide
  some_miner := by decide
  accounts_apart := by decide
  votes_apart := by decide
  known := by decide

/-- Half of one share is rounded to none, so its wish does not count. -/
theorem one_share_elects_one : one_share.tally.Cleared ∧ ∃ E', one_share.perform_chain_maintenance = some E' ∧
    ¬∃ k, (one_share.voicing = 0 → k = 0) ∧
      (0 < one_share.voicing → IsLeast {k | k = one_share.last_bucket ∨
        one_share.voicing < 2 * ∑ i ∈ Finset.Icc 1 k, one_share.wishing i} k) ∧ one_share.Elects k E' := by
  have elected : one_share.perform_chain_maintenance.map (·.active_miners.length) = some 1 := by decide +kernel
  obtain ⟨E',ran,one⟩ := Option.map_eq_some_iff.mp elected
  refine ⟨⟨rfl,rfl⟩,E',ran,?_⟩
  rintro ⟨k,-,least,elects⟩
  have least := least (by decide)
  have zero : k ≠ 0 := by
    rintro rfl
    exact absurd least.1 (by decide)
  have size : E'.active_miners.length = min 3 (max (2 * k + 1) 1) := elects.size
  omega

end Electorate

end Decent.Elections

import Mathlib.Data.List.Basic
import Mathlib.Data.Nat.Pairing
import Decent.Protocol
import Decent.Lib.Loops

/-!
The Merkle root of a block: the digests of its transactions are paired level by level
in one array, and what is left is hashed. The counters of the loops have 32 bits, the
sizes they are compared with 64.
-/
namespace Decent.MerkleRoot
open Decent.Protocol
open Loops

variable {O D C : Type}

/-- What the source calls on digests: `processed_transaction::merkle_digest`,
    `digest_type::hash` of a pair, `checksum_type::hash` and `checksum_type()`. -/
structure Hashing (O D C : Type) where
  merkle_digest : Transaction O → D
  digest : D × D → D
  checksum : D → C
  no_checksum : C

/-- `uint32_t`. -/
def uint32 (n : Nat) : Nat := n % 2 ^ 32

section
variable [Inhabited D] (H : Hashing O D C)

/-- `ids[i]`. -/
def get (ids : List D) (i : Nat) : D := ids.getD i default

/-- `ids[i] = transactions[i].merkle_digest()` for the transaction at `i`. -/
def ids_pass (transactions : List (Transaction O)) (s : List D × Nat) : Option (List D × Nat ⊕ List D) :=
  if h : s.2 < transactions.length then
    some (.inl (s.1.set s.2 (H.merkle_digest transactions[s.2]),uint32 (s.2 + 1)))
  else some (.inr s.1)

/-- The array of the digests of the transactions. -/
def transaction_ids (transactions : List (Transaction O)) (fuel : Nat) : Option (List D) :=
  loop (ids_pass H transactions) fuel (List.replicate transactions.length default,0)

/-- `ids[k++] = digest_type::hash( std::make_pair( ids[i], ids[i+1] ) )`; the state is
    the array, `k` and `i`. -/
def pair_pass (i_max : Nat) (s : List D × Nat × Nat) : Option (List D × Nat × Nat ⊕ List D × Nat) :=
  let ⟨ids,k,i⟩ := s
  if i < i_max then
    some (.inl (ids.set k (H.digest (get ids i,get ids (uint32 (i + 1)))),uint32 (k + 1),uint32 (i + 2)))
  else some (.inr (ids,k))

/-- One level: the pairs are hashed, an odd last digest is carried. -/
def level_pass (fuel : Nat) (s : List D × Nat) : Option (List D × Nat ⊕ List D) :=
  let ⟨ids,current_number_of_hashes⟩ := s
  if 1 < current_number_of_hashes then do
    let i_max := uint32 (current_number_of_hashes - current_number_of_hashes % 2)
    let (ids,k) ← loop (pair_pass H i_max) fuel (ids,0,0)
    if current_number_of_hashes % 2 = 1 then
      some (.inl (ids.set k (get ids i_max),uint32 (k + 1)))
    else some (.inl (ids,k))
  else some (.inr ids)

/-- `signed_block::calculate_merkle_root`; none where the passes are not enough. -/
def calculate_merkle_root (transactions : List (Transaction O)) (fuel : Nat) : Option C :=
  if transactions.length = 0 then some H.no_checksum
  else do
    let ids ← transaction_ids H transactions fuel
    let ids ← loop (level_pass H fuel) fuel (ids,ids.length)
    some (H.checksum (get ids 0))

end

/-! ## The root, by its definition -/

section
variable (pair : D × D → D)

/-- The level above: adjacent pairs hashed, an odd last digest carried up. -/
def above : List D → List D
  | [] => []
  | [d] => [d]
  | a :: b :: rest => pair (a,b) :: above rest

theorem length_above (ids : List D) : (above pair ids).length = (ids.length + 1) / 2 := by
  induction ids using above.induct with
  | case1 => simp [above]
  | case2 d => simp [above]
  | case3 a b rest ih => simp only [above,List.length_cons,ih]; omega

/-- The digest left when level after level is hashed. -/
def root [Inhabited D] : List D → D
  | [] => default
  | [d] => d
  | a :: b :: rest => root (above pair (a :: b :: rest))
termination_by ids => ids.length
decreasing_by simp only [length_above,List.length_cons]; omega

theorem root_above [Inhabited D] (ids : List D) : root pair (above pair ids) = root pair ids := by
  match ids with
  | [] => rfl
  | [d] => rfl
  | a :: b :: rest => rw [root.eq_3]

theorem above_get [Inhabited D] (ids : List D) (x : Nat) (inside : 2 * x + 1 < ids.length) :
    get (above pair ids) x = pair (get ids (2 * x),get ids (2 * x + 1)) := by
  induction ids using above.induct generalizing x with
  | case1 => simp at inside
  | case2 d => simp at inside
  | case3 a b rest ih =>
    cases x with
    | zero => rfl
    | succ x =>
      have inside' : 2 * x + 1 < rest.length := by simp only [List.length_cons] at inside; omega
      simpa [get,above,Nat.mul_succ,List.getD_cons_succ] using ih x inside'

theorem above_last [Inhabited D] (ids : List D) (x : Nat) (last : 2 * x + 1 = ids.length) :
    get (above pair ids) x = get ids (2 * x) := by
  induction ids using above.induct generalizing x with
  | case1 => simp at last
  | case2 d =>
    have zero : x = 0 := by simp at last; omega
    rw [zero]
    rfl
  | case3 a b rest ih =>
    cases x with
    | zero => simp at last
    | succ x =>
      have last' : 2 * x + 1 = rest.length := by simp only [List.length_cons] at last; omega
      simpa [get,above,Nat.mul_succ,List.getD_cons_succ] using ih x last'

end

/-- The root of a list of transactions. -/
def merkle_root [Inhabited D] (H : Hashing O D C) : List (Transaction O) → C
  | [] => H.no_checksum
  | transactions => H.checksum (root H.digest (transactions.map H.merkle_digest))

/-! ## The array -/

section
variable [Inhabited D]

theorem uint32_small {n : Nat} (small : n < 2 ^ 32) : uint32 n = n := Nat.mod_eq_of_lt small

theorem get_set (ids : List D) (k x : Nat) (d : D) (inside : k < ids.length) :
    get (ids.set k d) x = if x = k then d else get ids x := by
  simp only [get,List.getD_eq_getElem?_getD,List.getElem?_set]
  by_cases same : x = k
  · simp [same,inside]
  · simp [same,Ne.symm same]

theorem get_take (ids : List D) (n x : Nat) (inside : x < n) : get (ids.take n) x = get ids x := by
  simp [get,List.getD_eq_getElem?_getD,inside]

theorem get_map (f : Transaction O → D) (transactions : List (Transaction O)) (x : Nat)
    (inside : x < transactions.length) : get (transactions.map f) x = f transactions[x] := by
  simp [get,List.getD_eq_getElem?_getD,inside]

theorem ext_get {ids ids' : List D} (size : ids.length = ids'.length)
    (same : ∀ x < ids.length, get ids x = get ids' x) : ids = ids' := by
  refine List.ext_getElem size fun x inside inside' => ?_
  have at_x := same x inside
  simpa [get,List.getD_eq_getElem?_getD,inside,inside'] using at_x

end

/-! ## The loops -/

section
variable [Inhabited D] (H : Hashing O D C)

/-- The first loop fills the array while its counter can reach the size. -/
theorem transaction_ids_eq (transactions : List (Transaction O)) (counted : transactions.length < 2 ^ 32)
    (fuel : Nat) (enough : transactions.length < fuel) :
    transaction_ids H transactions fuel = some (transactions.map H.merkle_digest) := by
  let filled (s : List D × Nat) : Prop := s.2 ≤ transactions.length ∧ s.1.length = transactions.length ∧
    ∀ x < s.2, get s.1 x = get (transactions.map H.merkle_digest) x
  suffices step : ∀ s, filled s → (∃ s', ids_pass H transactions s = some (.inl s') ∧ filled s' ∧
      transactions.length - s'.2 < transactions.length - s.2) ∨
      ∃ r, ids_pass H transactions s = some (.inr r) ∧ r = transactions.map H.merkle_digest by
    obtain ⟨ids,ended,all⟩ := loop_total filled (fun s => transactions.length - s.2)
      (· = transactions.map H.merkle_digest) step fuel (List.replicate transactions.length default,0)
      ⟨by simp,by simp,by simp⟩ (by simpa using enough)
    rw [transaction_ids,ended,all]
  rintro ⟨ids,i⟩ ⟨within,size,written⟩
  by_cases more : i < transactions.length
  · have next : uint32 (i + 1) = i + 1 := uint32_small (by omega)
    left
    refine ⟨_,by rw [ids_pass,dif_pos more],⟨?_,?_,?_⟩,?_⟩
    · simp only [next]; omega
    · simpa using size
    · intro x before
      simp only [next] at before
      rw [get_set ids i x _ (by simp only at size; omega)]
      by_cases same : x = i
      · subst same
        rw [if_pos rfl,get_map _ _ _ more]
      · rw [if_neg same]
        exact written x (by simp only; omega)
    · simp only [next]; omega
  · right
    refine ⟨ids,by rw [ids_pass,dif_neg more],?_⟩
    simp only at size written within
    refine ext_get (by simpa using size) fun x inside => written x (by omega)

/-- A size the counter cannot reach keeps the first loop going for ever. -/
theorem transaction_ids_none (transactions : List (Transaction O)) (large : 2 ^ 32 ≤ transactions.length)
    (fuel : Nat) : transaction_ids H transactions fuel = none := by
  refine loop_endless (fun s => s.2 < transactions.length) ?_ fuel _ (by simp only; omega)
  rintro ⟨ids,i⟩ more
  refine ⟨_,by rw [ids_pass,dif_pos more],?_⟩
  have wrapped : uint32 (i + 1) < 2 ^ 32 := Nat.mod_lt _ (by decide)
  simp only
  omega

/-- After `k` pairs of a level of `n` digests: the first `k` places hold the level
    above, the others what they held. -/
structure Paired (before : List D) (n : Nat) (ids : List D) (k : Nat) : Prop where
  size : ids.length = before.length
  written : ∀ x < k, get ids x = get (above H.digest (before.take n)) x
  waiting : ∀ x, k ≤ x → get ids x = get before x

theorem paired_zero (before : List D) (n : Nat) : Paired H before n before 0 :=
  ⟨rfl,fun x inside => absurd inside (Nat.not_lt_zero x),fun _ _ => rfl⟩

/-- The places a pair is read from are not written yet: it stands behind them. -/
theorem paired_step {before ids : List D} {n k : Nat} (paired : Paired H before n ids k)
    (fits : n ≤ before.length) (more : 2 * k + 1 < n) :
    Paired H before n (ids.set k (H.digest (get ids (2 * k),get ids (2 * k + 1)))) (k + 1) := by
  have inside : k < ids.length := by rw [paired.size]; omega
  have pair : H.digest (get ids (2 * k),get ids (2 * k + 1)) = get (above H.digest (before.take n)) k := by
    rw [above_get H.digest (before.take n) k (by rw [List.length_take]; omega),
      paired.waiting (2 * k) (by omega),paired.waiting (2 * k + 1) (by omega),
      get_take before n (2 * k) (by omega),get_take before n (2 * k + 1) (by omega)]
  refine ⟨?_,?_,?_⟩
  · rw [List.length_set]
    exact paired.size
  · intro x before_next
    rw [get_set ids k x _ inside]
    by_cases same : x = k
    · rw [if_pos same,same,pair]
    · rw [if_neg same]
      exact paired.written x (by omega)
  · intro x later
    rw [get_set ids k x _ inside,if_neg (by omega)]
    exact paired.waiting x (by omega)

/-- The pairs of a level. -/
theorem pairs_ended (before : List D) (n : Nat) (fits : n ≤ before.length) (counted : before.length < 2 ^ 32)
    (fuel : Nat) (enough : n < fuel) :
    ∃ ids, loop (pair_pass H (n - n % 2)) fuel (before,0,0) = some (ids,n / 2) ∧ Paired H before n ids (n / 2) := by
  let sofar (s : List D × Nat × Nat) : Prop := s.2.2 = 2 * s.2.1 ∧ s.2.2 ≤ n - n % 2 ∧ Paired H before n s.1 s.2.1
  suffices step : ∀ s, sofar s → (∃ s', pair_pass H (n - n % 2) s = some (.inl s') ∧ sofar s' ∧
      n - s'.2.2 < n - s.2.2) ∨
      ∃ r : List D × Nat, pair_pass H (n - n % 2) s = some (.inr r) ∧ r.2 = n / 2 ∧ Paired H before n r.1 r.2 by
    obtain ⟨⟨ids,k⟩,ended,all,paired⟩ := loop_total sofar (fun s => n - s.2.2)
      (fun r : List D × Nat => r.2 = n / 2 ∧ Paired H before n r.1 r.2) step fuel (before,0,0)
      ⟨rfl,by simp,paired_zero H before n⟩ (by simpa using enough)
    simp only at all paired
    subst all
    exact ⟨ids,ended,paired⟩
  rintro ⟨ids,k,i⟩ ⟨twice,within,paired⟩
  simp only at twice within paired
  subst twice
  by_cases more : 2 * k < n - n % 2
  · have odd : uint32 (2 * k + 1) = 2 * k + 1 := uint32_small (by omega)
    have next_k : uint32 (k + 1) = k + 1 := uint32_small (by omega)
    have next_i : uint32 (2 * k + 2) = 2 * k + 2 := uint32_small (by omega)
    left
    refine ⟨_,by rw [pair_pass,if_pos more],⟨?_,?_,?_⟩,?_⟩
    · simp only [next_k,next_i]; omega
    · simp only [next_i]; omega
    · simp only [next_k,odd]
      exact paired_step H paired fits (by omega)
    · simp only [next_i]; omega
  · right
    exact ⟨(ids,k),by rw [pair_pass,if_neg more],by simp only; omega,paired⟩

/-- One pass over a level leaves the level above in front. -/
theorem level_next (before : List D) (n : Nat) (many : 1 < n) (fits : n ≤ before.length)
    (counted : before.length < 2 ^ 32) (fuel : Nat) (enough : n < fuel) :
    ∃ ids, level_pass H fuel (before,n) = some (.inl (ids,(n + 1) / 2)) ∧ ids.length = before.length ∧
      ids.take ((n + 1) / 2) = above H.digest (before.take n) := by
  obtain ⟨ids,ended,paired⟩ := pairs_ended H before n fits counted fuel enough
  have size := paired.size
  have i_max : uint32 (n - n % 2) = n - n % 2 := uint32_small (by omega)
  have above_size : (above H.digest (before.take n)).length = (n + 1) / 2 := by
    rw [length_above,List.length_take,Nat.min_eq_left fits]
  by_cases odd : n % 2 = 1
  · have count : uint32 (n / 2 + 1) = (n + 1) / 2 := by rw [uint32_small (by omega)]; omega
    refine ⟨ids.set (n / 2) (get ids (n - n % 2)),?_,by simpa using size,?_⟩
    · simp only [level_pass,if_pos many,i_max,ended,Option.bind_eq_bind,Option.bind_some,if_pos odd,count]
    · refine ext_get (by rw [List.length_take,List.length_set,above_size]; omega) fun x inside => ?_
      rw [List.length_take,List.length_set] at inside
      rw [get_take _ _ x (by omega),get_set ids (n / 2) x _ (by omega)]
      by_cases last : x = n / 2
      · have carried : 2 * x + 1 = (before.take n).length := by rw [List.length_take]; omega
        have place : n - n % 2 = 2 * x := by omega
        rw [if_pos last,above_last H.digest _ x carried,place,paired.waiting (2 * x) (by omega),
          get_take before n (2 * x) (by omega)]
      · rw [if_neg last]
        exact paired.written x (by omega)
  · refine ⟨ids,?_,size,?_⟩
    · have count : n / 2 = (n + 1) / 2 := by omega
      simp only [level_pass,if_pos many,i_max,ended,Option.bind_eq_bind,Option.bind_some,if_neg odd,count]
    · refine ext_get (by rw [List.length_take,above_size]; omega) fun x inside => ?_
      rw [List.length_take] at inside
      rw [get_take _ _ x (by omega)]
      exact paired.written x (by omega)

/-- All levels. -/
theorem levels_ended (before : List D) (some_digest : before ≠ []) (counted : before.length < 2 ^ 32)
    (fuel : Nat) (enough : before.length < fuel) :
    ∃ ids, loop (level_pass H fuel) fuel (before,before.length) = some ids ∧
      get ids 0 = root H.digest before := by
  have present : 0 < before.length := List.length_pos_iff.mpr some_digest
  refine loop_total
    (fun s => 0 < s.2 ∧ s.2 ≤ s.1.length ∧ s.1.length = before.length ∧
      root H.digest (s.1.take s.2) = root H.digest before)
    (fun s => s.2) (fun ids => get ids 0 = root H.digest before) ?_ fuel (before,before.length)
    ⟨present,Nat.le_refl _,rfl,by simp⟩ enough
  rintro ⟨ids,n⟩ ⟨positive,fits,size,same⟩
  simp only at positive fits size same
  by_cases many : 1 < n
  · obtain ⟨ids',ran,size',level⟩ := level_next H ids n many fits (by omega) fuel (by omega)
    left
    refine ⟨_,ran,⟨?_,?_,?_,?_⟩,?_⟩
    · simp only; omega
    · simp only; omega
    · exact size'.trans size
    · simp only
      rw [level,root_above,same]
    · simp only; omega
  · have one : n = 1 := by omega
    right
    refine ⟨ids,by rw [level_pass,if_neg many],?_⟩
    rw [← same,one]
    match ids,fits with
    | [],fits => simp at fits; omega
    | d :: rest,_ => simp [get,root]

/-! ## The root -/

end

/-- Digests that show what was hashed. -/
def plain : Hashing Unit Nat Nat where
  merkle_digest t := t.ref_block_prefix
  digest p := Nat.pair p.1 p.2
  checksum d := d + 1
  no_checksum := 0

/-- A transaction told apart by its `ref_block_prefix`. -/
def numbered (n : Nat) : Transaction Unit := ⟨⟨0,n,0,[]⟩,[]⟩

example : calculate_merkle_root plain ([2,3,5].map numbered) 4 = some (Nat.pair (Nat.pair 2 3) 5 + 1) := by decide +kernel

end Decent.MerkleRoot

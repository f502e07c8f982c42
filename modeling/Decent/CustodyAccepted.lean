import Decent.Custody
import Mathlib.Algebra.BigOperators.Group.Finset.Basic
import Mathlib.Tactic.Ring
import Mathlib.Tactic.NormNum.Prime

/-!
When an honest proof of custody is accepted. Signing and proving read the same
numbers as long as no block crosses a multiple of 2³²: there `get_data` reads on and
`get_m` starts over at the front of the file.
-/
namespace Decent.Custody

/-! ### Reading a block -/

/-- The byte at a position; zero behind the end. -/
def File.at? (file : File) (position : ℕ) : UInt8 := if position < file.length then file.byte position else 0

/-- The number at a position. -/
def File.number (file : File) (position : ℕ) : ℕ :=
  limbs ((List.range DECENT_SIZE_OF_NUMBER_IN_THE_FIELD).map fun k => file.at? (position + k))

/-- Bytes that are in the file, then zeros. -/
theorem read_padded (file : File) {position start count left : ℕ} (here : start = min position file.length)
    (rest : left = min count (file.length - start)) :
    file.read start left ++ List.replicate (count - left) 0 = (List.range count).map fun k => file.at? (position + k) := by
  refine List.ext_getElem (by simp [File.read]; omega) fun k inside _ => ?_
  simp only [File.read,List.length_append,List.length_map,List.length_range,List.length_replicate] at inside
  rw [List.getElem_append]
  split
  · rename_i early
    simp only [File.read,List.length_map,List.length_range] at early
    simp only [File.read,List.getElem_map,List.getElem_range,File.at?]
    rw [if_pos (by omega)]
    exact congrArg _ (by omega)
  · rename_i late
    simp only [File.read,List.length_map,List.length_range] at late
    simp only [List.getElem_replicate,List.getElem_map,List.getElem_range,File.at?]
    rw [if_neg (by omega)]

theorem read_whole (file : File) {position start count : ℕ} (here : start = min position file.length)
    (inside : count ≤ file.length - start) :
    file.read start count = (List.range count).map fun k => file.at? (position + k) := by
  have padded := read_padded file here (show count = min count (file.length - start) by omega)
  simpa using padded

theorem get_data_eq (file : File) (i sectors : ℕ) :
    get_data file i sectors = (List.range (DECENT_SIZE_OF_NUMBER_IN_THE_FIELD * sectors)).map fun k =>
      file.at? (DECENT_SIZE_OF_NUMBER_IN_THE_FIELD * sectors * i % 2 ^ 32 + k) := by
  rw [get_data]
  split
  · exact read_whole file rfl (by omega)
  · exact read_padded file rfl (by omega)

theorem get_m_eq (file : File) (i j sectors : ℕ) :
    get_m file i j sectors = file.number (DECENT_SIZE_OF_NUMBER_IN_THE_FIELD * (j + sectors * i) % 2 ^ 32) := by
  rw [get_m,File.number]
  refine congrArg limbs ?_
  dsimp only
  generalize DECENT_SIZE_OF_NUMBER_IN_THE_FIELD * (j + sectors * i) % 2 ^ 32 = position
  split
  · have padded := @read_padded file position file.length DECENT_SIZE_OF_NUMBER_IN_THE_FIELD 0 (by omega) (by omega)
    simpa [File.read] using padded
  · split
    · exact read_padded file (by omega) (by omega)
    · exact read_whole file (by omega) (by omega)

/-- A thread of `get_sigmas` takes its numbers from consecutive positions. -/
theorem block_numbers_eq (file : File) (i sectors : ℕ) :
    block_numbers (get_data file i sectors) sectors = (List.range sectors).map fun j =>
      file.number (DECENT_SIZE_OF_NUMBER_IN_THE_FIELD * sectors * i % 2 ^ 32 + DECENT_SIZE_OF_NUMBER_IN_THE_FIELD * j) := by
  rw [block_numbers,get_data_eq]
  refine List.map_congr_left fun j member => congrArg limbs ?_
  have below : j < sectors := List.mem_range.mp member
  have room : j * DECENT_SIZE_OF_NUMBER_IN_THE_FIELD + DECENT_SIZE_OF_NUMBER_IN_THE_FIELD ≤
      DECENT_SIZE_OF_NUMBER_IN_THE_FIELD * sectors := by
    rw [← Nat.succ_mul,mul_comm]
    exact Nat.mul_le_mul_left _ below
  refine List.ext_getElem (by simp; omega) fun k _ _ => ?_
  simp only [List.getElem_take,List.getElem_drop,List.getElem_map,List.getElem_range]
  exact congrArg _ (by rw [mul_comm j]; omega)

/-! ### Strings and files -/

theorem hex_byte : ∀ n < 256, UInt8.ofInt (hex_value (Nat.digitChar (n / 16)) * 16 + hex_value (Nat.digitChar (n % 16))) =
    UInt8.ofNat n := by decide +kernel

theorem string_to_bytes_read (data : List UInt8) : string_to_bytes (bytes_to_string data) data.length = data := by
  induction data with
  | nil => rfl
  | cons b rest ih =>
    show UInt8.ofInt _ :: string_to_bytes (bytes_to_string rest) rest.length = b :: rest
    rw [ih,hex_byte b.toNat b.toNat_lt,UInt8.ofNat_toNat]

/-- Pieces of one length are found at multiples of it. -/
theorem piece_of_flatMap {α β : Type} {f : α → List β} {size : ℕ} (sized : ∀ a, (f a).length = size) (l : List α) :
    ∀ i (inside : i < l.length), ((l.flatMap f).drop (i * size)).take size = f l[i] := by
  induction l with
  | nil => intro i inside; simp at inside
  | cons a rest ih =>
    intro i inside
    rw [List.flatMap_cons]
    cases i with
    | zero => simp [← sized a]
    | succ i =>
      have skip : (i + 1) * size = (f a).length + i * size := by rw [sized a]; ring
      rw [skip,← List.drop_drop,List.drop_left]
      exact ih i (by simpa using inside)

section
variable {r : ℕ} (L : Library r)

theorem read_sigmas_eq (sigmas : List L.G1) :
    read_sigmas L (sigmas.flatMap L.element_to_bytes_compressed) sigmas.length = sigmas := by
  refine List.ext_getElem (by simp [read_sigmas]) fun i _ inside => ?_
  simp only [read_sigmas,List.getElem_map,List.getElem_range]
  rw [piece_of_flatMap L.compressed_length sigmas i inside,L.compressed_read]

/-! ### Products -/

theorem set_then_mul_eq {G : Type} [CommGroup G] (l : List G) : set_then_mul l = l.prod := by
  cases l with
  | nil => rfl
  | cons x rest => simp [set_then_mul,List.prod_eq_foldl]

theorem set_then_add_eq (l : List (ZMod r)) : set_then_add l = l.sum := by
  cases l with
  | nil => rfl
  | cons x rest => simp [set_then_add,List.sum_eq_foldl]

/-- What the index adds to the seed of `u`. -/
def steps (i : ℕ) : ℕ → ℕ
  | 0 => i
  | k + 1 => i + steps (i + 1) k

def u_at (seed j : ℕ) : L.G1 := L.element_from_hash (L.sha256 (mpz_get_str (seed + steps 0 j)))

theorem u_from_seed_eq (left : ℕ) : ∀ i seed, u_from_seed L i left seed =
    (List.range left).map fun k => L.element_from_hash (L.sha256 (mpz_get_str (seed + steps i k))) := by
  induction left with
  | zero => intro i seed; rfl
  | succ left ih =>
    intro i seed
    rw [u_from_seed,ih,List.range_succ_eq_map,List.map_cons,List.map_map]
    refine congrArg₂ _ rfl (List.map_congr_left fun k _ => ?_)
    simp [steps,Nat.add_assoc]

theorem get_u_from_seed_eq (seed sectors : ℕ) : get_u_from_seed L seed sectors = (List.range sectors).map (u_at L seed) :=
  u_from_seed_eq L sectors 0 seed

theorem zipWith_range {α β γ : Type} (f : α → β → γ) (a : ℕ → α) (b : ℕ → β) (n : ℕ) :
    List.zipWith f ((List.range n).map a) ((List.range n).map b) = (List.range n).map fun j => f (a j) (b j) := by
  rw [List.zipWith_map,List.zipWith_self]

/-! ### The check of an honest proof -/

/-- The pairing is a power in its first argument. -/
theorem pairing_pow (a b : L.G1) (k : ℕ) : L.element_pairing (a ^ k) b = L.element_pairing a b ^ k := by
  let left : L.G1 →* L.GT := MonoidHom.mk' (L.element_pairing · b) fun x y => L.bilinear x y b
  exact map_pow left a k

theorem pairing_shift (a : L.G1) (k : ℕ) :
    L.element_pairing (a ^ k) L.generator = L.element_pairing a (L.generator ^ k) := by
  rw [pairing_pow,L.symmetric a L.generator,← pairing_pow,L.symmetric]

/-- The product of the queried signatures. -/
def signed (u : ℕ → L.G1) (m : ℕ → ℕ → ℕ) (query : List (ℕ × ZMod r)) (sectors : ℕ) : L.G1 :=
  (query.map fun e => (((List.range sectors).map fun j => u j ^ m e.1 j).prod * index_hash L e.1) ^ e.2.val).prod

/-- The product that the miner computes from an answer. -/
def answered (u : ℕ → L.G1) (m : ℕ → ℕ → ℕ) (query : List (ℕ × ZMod r)) (sectors : ℕ) : L.G1 :=
  (query.map fun e => index_hash L e.1 ^ e.2.val).prod *
    ((List.range sectors).map fun j => u j ^ ((query.map fun e => e.2 * (m e.1 j : ZMod r)).sum).val).prod

theorem signed_eq_answered [NeZero r] (u : ℕ → L.G1) (m : ℕ → ℕ → ℕ) (query : List (ℕ × ZMod r)) (sectors : ℕ) :
    signed L u m query sectors = answered L u m query sectors :=
  Tags.combine L.order1 (fun e : ℕ × ZMod r => index_hash L e.1) u (fun e j => m e.1 j) (fun e => e.2) query (List.range sectors)

/-- Where a block is read when it is signed. -/
def signed_number (file : File) (sectors i j : ℕ) : ℕ :=
  file.number (DECENT_SIZE_OF_NUMBER_IN_THE_FIELD * sectors * i % 2 ^ 32 + DECENT_SIZE_OF_NUMBER_IN_THE_FIELD * j)

theorem compute_sigma_eq (sigma : ℕ → L.G1) (n : ℕ) (query : List (ℕ × ZMod r)) (inside : ∀ e ∈ query, e.1 < n) :
    compute_sigma L ((List.range n).map sigma) query = (query.map fun e => sigma e.1 ^ e.2.val).prod := by
  rw [compute_sigma,List.prod_eq_foldl,List.foldl_map]
  refine List.foldl_ext _ _ _ fun sigma e member => ?_
  simp [inside e member]

theorem query_below (seed : ℕ) {n : ℕ} (some : 0 < n) :
    ∀ e ∈ generate_query_from_seed L seed (get_number_of_query n) n, e.1 < n := by
  intro e member
  obtain ⟨i,inside,rfl⟩ := List.mem_map.mp member
  rw [List.mem_range] at inside
  dsimp only
  split
  · rw [get_number_of_query] at inside
    split at inside <;> omega
  · exact Nat.mod_lt _ some

variable (file : File) (u_seed : List UInt8) (key : ZMod r) (seed sectors : ℕ)

/-- The query for a file cut into blocks of `sectors` numbers. -/
def query_of : List (ℕ × ZMod r) :=
  generate_query_from_seed L seed (get_number_of_query (get_n file sectors)) (get_n file sectors)

/-- The proof that the seeder makes of a file that was signed with `sectors` numbers a block
    is accepted. -/
def Accepted : Prop :=
  ∃ proof result, create_proof_of_custody L file (create_custody_data L file u_seed key sectors).2
      (create_custody_data L file u_seed key sectors).1 seed = .ok (proof,result) ∧
    verify_by_miner L (create_custody_data L file u_seed key sectors).1 proof seed = 0

theorem get_sigmas_eq (seedU n : ℕ) : get_sigmas L file n (get_u_from_seed L seedU sectors) key sectors =
    (List.range n).map fun i =>
      (((List.range sectors).map fun j => u_at L seedU j ^ signed_number file sectors i j).prod * index_hash L i) ^ key.val := by
  rw [get_sigmas,get_u_from_seed_eq]
  refine List.map_congr_left fun i _ => ?_
  rw [get_sigma,block_numbers_eq,zipWith_range,set_then_mul_eq]
  rfl

theorem compute_sigma_get_sigmas (seedU : ℕ) (some : 0 < get_n file sectors) :
    compute_sigma L (get_sigmas L file (get_n file sectors) (get_u_from_seed L seedU sectors) key sectors)
        (query_of L file seed sectors) =
      signed L (u_at L seedU) (signed_number file sectors) (query_of L file seed sectors) sectors ^ key.val := by
  have inside : ∀ e ∈ query_of L file seed sectors, e.1 < get_n file sectors := query_below L seed some
  rw [get_sigmas_eq,compute_sigma_eq _ _ _ _ inside,signed]
  have powers := (Multiset.prod_map_pow (m := (query_of L file seed sectors : Multiset (ℕ × ZMod r))) (n := key.val)
    (f := fun e => (((List.range sectors).map fun j => u_at L seedU j ^ signed_number file sectors e.1 j).prod *
      index_hash L e.1) ^ e.2.val)).symm
  simp only [Multiset.map_coe,Multiset.prod_coe] at powers
  rw [powers]
  exact congrArg _ (List.map_congr_left fun e _ => pow_right_comm _ _ _)

theorem mus_read (mu : List (ZMod r)) :
    (mu.map fun z => bytes_to_string (L.element_to_bytes z)).map
      (fun s => L.element_from_bytes (string_to_bytes s DECENT_SIZE_OF_MU)) = mu := by
  rw [List.map_map]
  have same (z : ZMod r) : L.element_from_bytes (string_to_bytes (bytes_to_string (L.element_to_bytes z)) DECENT_SIZE_OF_MU) = z := by
    rw [← L.bytes_length z,string_to_bytes_read,L.bytes_read]
  exact (List.map_congr_left fun z _ => same z).trans (List.map_id _)

/-- The proof as the miner reads it. -/
def honest_proof (guess : ℕ) : CustodyProof where
  sigma := L.element_to_bytes_compressed
    (signed L (u_at L (seed_for_u u_seed)) (signed_number file sectors) (query_of L file seed sectors) sectors ^ key.val)
  mus := (compute_mu file (query_of L file seed sectors) guess).map fun z => bytes_to_string (L.element_to_bytes z)

theorem accepted_iff {guess : ℕ} (guessed : guess_sectors file (get_n file sectors) = .ok guess)
    (some : 0 < get_n file sectors) :
    Accepted L file u_seed key seed sectors ↔
      L.element_pairing (signed L (u_at L (seed_for_u u_seed)) (signed_number file sectors) (query_of L file seed sectors)
          sectors) (L.generator ^ key.val) =
        L.element_pairing (answered L (u_at L (seed_for_u u_seed)) (fun i j => get_m file i j guess)
          (query_of L file seed sectors) guess) (L.generator ^ key.val) := by
  have sigmas : read_sigmas L (create_custody_data L file u_seed key sectors).2 (get_n file sectors) =
      get_sigmas L file (get_n file sectors) (get_u_from_seed L (seed_for_u u_seed) sectors) key sectors := by
    have length : get_n file sectors =
        (get_sigmas L file (get_n file sectors) (get_u_from_seed L (seed_for_u u_seed) sectors) key sectors).length := by
      simp [get_sigmas]
    conv_lhs => rw [length]
    exact read_sigmas_eq L _
  have made : create_proof_of_custody L file (create_custody_data L file u_seed key sectors).2
      (create_custody_data L file u_seed key sectors).1 seed =
      .ok (honest_proof L file u_seed key seed sectors guess,
        verify_by_miner L (create_custody_data L file u_seed key sectors).1
          (honest_proof L file u_seed key seed sectors guess) seed) := by
    have sigma := compute_sigma_get_sigmas L file key seed sectors (seed_for_u u_seed) some
    rw [← sigmas] at sigma
    show (guess_sectors file (get_n file sectors) >>= _) = _
    rw [guessed,honest_proof,← sigma]
    rfl
  have checked : verify_by_miner L (create_custody_data L file u_seed key sectors).1
      (honest_proof L file u_seed key seed sectors guess) seed =
      verify L (signed L (u_at L (seed_for_u u_seed)) (signed_number file sectors) (query_of L file seed sectors) sectors ^ key.val)
        (query_of L file seed sectors) ((List.range guess).map (u_at L (seed_for_u u_seed)))
        (compute_mu file (query_of L file seed sectors) guess) (L.generator ^ key.val) := by
    have length : (honest_proof L file u_seed key seed sectors guess).mus.length = guess := by
      simp [honest_proof,compute_mu]
    rw [verify_by_miner,length,get_u_from_seed_eq,honest_proof]
    dsimp only
    rw [mus_read,L.compressed_read]
    exact congrArg _ (L.compressed_read _)
  have zero : Accepted L file u_seed key seed sectors ↔ verify L
      (signed L (u_at L (seed_for_u u_seed)) (signed_number file sectors) (query_of L file seed sectors) sectors ^ key.val)
      (query_of L file seed sectors) ((List.range guess).map (u_at L (seed_for_u u_seed)))
      (compute_mu file (query_of L file seed sectors) guess) (L.generator ^ key.val) = 0 := by
    rw [← checked,Accepted,made]
    constructor
    · rintro ⟨_,_,same,accepted⟩
      cases same
      exact accepted
    · exact fun accepted => ⟨_,_,rfl,accepted⟩
  rw [zero,verify,pairing_shift,compute_mu,zipWith_range,set_then_mul_eq,set_then_mul_eq,answered]
  simp only [set_then_add_eq]
  split <;> simp_all

end

/-! ### Blocks that cross a multiple of 2³² -/

/-- Where `get_data` starts to read a block. -/
def block_start (sectors i : ℕ) : ℕ := DECENT_SIZE_OF_NUMBER_IN_THE_FIELD * sectors * i % 2 ^ 32

/-- A number at or behind 2³² in a block is, modulo the order of the group, the one that
    stands 2³² earlier in the file. -/
def Unwrapped (r : ℕ) (file : File) (sectors : ℕ) : Prop :=
  ∀ i < get_n file sectors, ∀ j < sectors,
    2 ^ 32 ≤ block_start sectors i + DECENT_SIZE_OF_NUMBER_IN_THE_FIELD * j →
    file.number (block_start sectors i + DECENT_SIZE_OF_NUMBER_IN_THE_FIELD * j) ≡
      file.number (block_start sectors i + DECENT_SIZE_OF_NUMBER_IN_THE_FIELD * j - 2 ^ 32) [MOD r]

/-- Where `get_m` reads. -/
theorem get_m_position {sectors i j : ℕ} (few : sectors ≤ DECENT_SECTORS_BIG) (below : j < sectors) :
    DECENT_SIZE_OF_NUMBER_IN_THE_FIELD * (j + sectors * i) % 2 ^ 32 =
      if 2 ^ 32 ≤ block_start sectors i + DECENT_SIZE_OF_NUMBER_IN_THE_FIELD * j
      then block_start sectors i + DECENT_SIZE_OF_NUMBER_IN_THE_FIELD * j - 2 ^ 32
      else block_start sectors i + DECENT_SIZE_OF_NUMBER_IN_THE_FIELD * j := by
  have sum : DECENT_SIZE_OF_NUMBER_IN_THE_FIELD * (j + sectors * i) =
      DECENT_SIZE_OF_NUMBER_IN_THE_FIELD * sectors * i + DECENT_SIZE_OF_NUMBER_IN_THE_FIELD * j := by ring
  rw [sum,block_start]
  generalize DECENT_SIZE_OF_NUMBER_IN_THE_FIELD * sectors * i = start
  have small : DECENT_SIZE_OF_NUMBER_IN_THE_FIELD * j < 2 ^ 32 := by
    simp only [DECENT_SIZE_OF_NUMBER_IN_THE_FIELD,DECENT_SECTORS_BIG] at *
    omega
  split <;> omega

/-- Signing and proving see the same number, unless it is behind 2³². -/
theorem unwrapped_iff {r : ℕ} {file : File} {sectors : ℕ} (few : sectors ≤ DECENT_SECTORS_BIG) :
    Unwrapped r file sectors ↔ ∀ i < get_n file sectors, ∀ j < sectors,
      signed_number file sectors i j ≡ get_m file i j sectors [MOD r] := by
  refine forall₂_congr fun i _ => forall₂_congr fun j below => ?_
  rw [get_m_eq,get_m_position few below,signed_number]
  split
  · rename_i late
    rw [forall_prop_of_true late]
    rfl
  · rename_i early
    simp only [early,false_imp_iff,true_iff]
    rfl

theorem number_beyond (file : File) {position : ℕ} (beyond : file.length ≤ position) : file.number position = 0 := by
  have zeros : ((List.range DECENT_SIZE_OF_NUMBER_IN_THE_FIELD).map fun k => file.at? (position + k)) =
      List.replicate DECENT_SIZE_OF_NUMBER_IN_THE_FIELD 0 := by
    refine List.ext_getElem (by simp) fun k _ _ => ?_
    simp only [List.getElem_map,List.getElem_range,List.getElem_replicate,File.at?]
    rw [if_neg (by omega)]
  rw [File.number,zeros]
  decide

/-- The blocks cover the file, and the last one is not empty. -/
theorem get_n_bounds (file : File) (sectors : ℕ) (some : 0 < sectors) :
    file.length ≤ DECENT_SIZE_OF_NUMBER_IN_THE_FIELD * sectors * get_n file sectors ∧
      DECENT_SIZE_OF_NUMBER_IN_THE_FIELD * sectors * get_n file sectors <
        file.length + DECENT_SIZE_OF_NUMBER_IN_THE_FIELD * sectors := by
  have size : 0 < DECENT_SIZE_OF_NUMBER_IN_THE_FIELD * sectors := Nat.mul_pos (by decide) some
  rw [get_n]
  generalize DECENT_SIZE_OF_NUMBER_IN_THE_FIELD * sectors = block at *
  have parts := Nat.div_add_mod file.length block
  have rest := Nat.mod_lt file.length size
  split
  · rw [Nat.mul_add]
    omega
  · omega

/-- The seeder guesses the number of sectors of the uploader, or reads a file of one block
    that both cut alike. -/
theorem guess_cases {file : File} {sectors : ℕ} (choice : sectors = DECENT_SECTORS ∨ sectors = DECENT_SECTORS_BIG) :
    guess_sectors file (get_n file sectors) = .ok sectors ∨
      (sectors = DECENT_SECTORS_BIG ∧ file.length ≤ 320 ∧ guess_sectors file (get_n file sectors) = .ok DECENT_SECTORS) := by
  rcases choice with rfl | rfl
  · exact .inl (if_pos rfl)
  · by_cases short : get_n file DECENT_SECTORS = get_n file DECENT_SECTORS_BIG
    · refine .inr ⟨rfl,?_,if_pos short⟩
      have few := get_n_bounds file DECENT_SECTORS (by decide)
      have many := get_n_bounds file DECENT_SECTORS_BIG (by decide)
      rw [← short] at many
      simp only [DECENT_SIZE_OF_NUMBER_IN_THE_FIELD,DECENT_SECTORS,DECENT_SECTORS_BIG] at few many ⊢
      omega
    · exact .inl ((if_neg short).trans (if_pos rfl))

section
variable {r : ℕ} (L : Library r)

theorem answered_congr {u : ℕ → L.G1} {m : ℕ → ℕ → ℕ} (m' : ℕ → ℕ → ℕ) {query : List (ℕ × ZMod r)} {sectors : ℕ}
    (same : ∀ e ∈ query, ∀ j < sectors, (m e.1 j : ZMod r) = m' e.1 j) :
    answered L u m query sectors = answered L u m' query sectors := by
  refine congrArg _ (congrArg _ (List.map_congr_left fun j member => ?_))
  have sums : (query.map fun e => e.2 * (m e.1 j : ZMod r)) = query.map fun e => e.2 * (m' e.1 j : ZMod r) :=
    List.map_congr_left fun e queried => by rw [same e queried j (List.mem_range.mp member)]
  rw [sums]

/-- Sectors of zeros add nothing. -/
theorem answered_longer [NeZero r] {u : ℕ → L.G1} {m : ℕ → ℕ → ℕ} {query : List (ℕ × ZMod r)} (few more : ℕ)
    (zero : ∀ e ∈ query, ∀ j < more, m e.1 (few + j) = 0) :
    answered L u m query (few + more) = answered L u m query few := by
  have rest : ((List.range more).map fun j => u (few + j) ^ ((query.map fun e => e.2 * (m e.1 (few + j) : ZMod r)).sum).val).prod = 1 := by
    refine List.prod_eq_one fun x member => ?_
    obtain ⟨j,below,rfl⟩ := List.mem_map.mp member
    have sum : (query.map fun e => e.2 * (m e.1 (few + j) : ZMod r)).sum = 0 := by
      refine List.sum_eq_zero fun y inside => ?_
      obtain ⟨e,queried,rfl⟩ := List.mem_map.mp inside
      rw [zero e queried j (List.mem_range.mp below),Nat.cast_zero,mul_zero]
    rw [sum,ZMod.val_zero,pow_zero]
  rw [answered,answered,List.range_add,List.map_append,List.prod_append,List.map_map]
  exact congrArg _ ((congrArg _ rest).trans (mul_one _))

theorem accepted_of_unwrapped [NeZero r] {file : File} {sectors : ℕ} (some : 0 < file.length)
    (choice : sectors = DECENT_SECTORS ∨ sectors = DECENT_SECTORS_BIG) (unwrapped : Unwrapped r file sectors)
    (u_seed : List UInt8) (key : ZMod r) (seed : ℕ) : Accepted L file u_seed key seed sectors := by
  have few : sectors ≤ DECENT_SECTORS_BIG := by rcases choice with rfl | rfl <;> decide
  have blocks : 0 < get_n file sectors := by
    have bounds := get_n_bounds file sectors (by rcases choice with rfl | rfl <;> decide)
    by_contra none
    rw [Nat.eq_zero_of_not_pos none] at bounds
    omega
  have below : ∀ e ∈ query_of L file seed sectors, e.1 < get_n file sectors := query_below L seed blocks
  have same : ∀ e ∈ query_of L file seed sectors, ∀ j < sectors,
      (signed_number file sectors e.1 j : ZMod r) = get_m file e.1 j sectors := fun e queried j inside =>
    (ZMod.natCast_eq_natCast_iff _ _ _).mpr ((unwrapped_iff few).mp unwrapped e.1 (below e queried) j inside)
  rcases @guess_cases file sectors choice with guessed | ⟨rfl,short,guessed⟩
  · rw [accepted_iff L file u_seed key seed sectors guessed blocks,signed_eq_answered,
      answered_congr L (fun i j => get_m file i j sectors) same]
  · -- One block of at most 320 bytes: the sectors that the seeder does not see are zeros.
    rw [accepted_iff L file u_seed key seed _ guessed blocks,signed_eq_answered]
    have first : ∀ e ∈ query_of L file seed DECENT_SECTORS_BIG, e.1 = 0 := by
      intro e queried
      have bounds := get_n_bounds file DECENT_SECTORS_BIG (by decide)
      have inside := below e queried
      simp only [DECENT_SIZE_OF_NUMBER_IN_THE_FIELD,DECENT_SECTORS_BIG] at bounds inside ⊢
      omega
    have shorter : answered L (u_at L (seed_for_u u_seed)) (signed_number file DECENT_SECTORS_BIG)
        (query_of L file seed DECENT_SECTORS_BIG) DECENT_SECTORS_BIG =
        answered L (u_at L (seed_for_u u_seed)) (signed_number file DECENT_SECTORS_BIG)
          (query_of L file seed DECENT_SECTORS_BIG) DECENT_SECTORS := by
      refine answered_longer L DECENT_SECTORS 80 fun e queried j _ => ?_
      rw [first e queried]
      refine number_beyond file ?_
      simp only [DECENT_SIZE_OF_NUMBER_IN_THE_FIELD,DECENT_SECTORS,DECENT_SECTORS_BIG]
      omega
    rw [shorter,answered_congr L fun i j => get_m file i j DECENT_SECTORS]
    intro e queried j inside
    rw [first e queried,get_m_eq,signed_number]
    refine congrArg _ (congrArg _ ?_)
    simp only [DECENT_SIZE_OF_NUMBER_IN_THE_FIELD,DECENT_SECTORS,DECENT_SECTORS_BIG] at inside ⊢
    omega

end

end Decent.Custody

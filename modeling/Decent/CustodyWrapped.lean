import Decent.CustodyAccepted
import Mathlib.Data.Nat.Digits.Lemmas
import Mathlib.Algebra.Group.TypeTags.Basic
import Mathlib.Algebra.Field.ZMod

/-!
A number that signing and proving read differently is found out. In the group of the
numbers modulo `r`, with a hash that asks for one block and keeps one of its
sectors, the check of the miner compares exactly these two numbers.
-/
namespace Decent.Custody
open Multiplicative (ofAdd toAdd)

/-! ### Numbers as bytes -/

/-- A number in `size` bytes, the lowest first. -/
def encode (size n : ℕ) : List UInt8 := (List.range size).map fun k => UInt8.ofNat (n / 256 ^ k % 256)

theorem limbs_encode (size n : ℕ) : limbs (encode size n) = n % 256 ^ size := by
  induction size generalizing n with
  | zero => simp [limbs,encode,Nat.mod_one]
  | succ size ih =>
    have rest : limbs (encode size (n / 256)) = n / 256 % 256 ^ size := ih (n / 256)
    have tail : ((List.range size).map fun k => UInt8.ofNat (n / 256 ^ (k + 1) % 256)) = encode size (n / 256) :=
      List.map_congr_left fun k _ => by rw [Nat.pow_succ',Nat.div_div_eq_div_mul]
    have digit : (UInt8.ofNat (n % 256)).toNat = n % 256 := by simp
    rw [encode,List.range_succ_eq_map,List.map_cons,List.map_map]
    show limbs (UInt8.ofNat (n / 256 ^ 0 % 256) :: (List.range size).map fun k => UInt8.ofNat (n / 256 ^ (k + 1) % 256)) = _
    rw [tail,limbs,List.map_cons,Nat.ofDigits_cons,← limbs,rest,pow_zero,Nat.div_one,digit,pow_succ',Nat.mod_mul]

theorem limbs_encode_val {r size : ℕ} [NeZero r] (fits : r ≤ 256 ^ size) (z : ZMod r) :
    (limbs (encode size z.val) : ZMod r) = z := by
  rw [limbs_encode,Nat.mod_eq_of_lt (lt_of_lt_of_le (ZMod.val_lt z) fits),ZMod.natCast_zmod_val]

/-! ### The numbers modulo r as a library -/

/-- Multiplication pairs the additive group of the numbers modulo `r` with itself. -/
def modular (r : ℕ) [Fact r.Prime] (fits : r ≤ 256 ^ DECENT_SIZE_OF_MU) (sha256 : List Char → Digest)
    (hash hashZr : Digest → ZMod r) : Library r where
  G1 := Multiplicative (ZMod r)
  GT := Multiplicative (ZMod r)
  order1 := (Nat.card_congr toAdd).trans (Nat.card_zmod r)
  orderT := (Nat.card_congr toAdd).trans (Nat.card_zmod r)
  element_pairing a b := ofAdd (toAdd a * toAdd b)
  bilinear a b c := by rw [toAdd_mul,add_mul,ofAdd_add]
  symmetric a b := by rw [mul_comm]
  generator := ofAdd 1
  nondegenerate := by
    rw [toAdd_ofAdd,mul_one]
    exact fun one => one_ne_zero (ofAdd_eq_one.mp one)
  sha256 := sha256
  element_from_hash d := ofAdd (hash d)
  element_from_hash_Zr := hashZr
  element_to_bytes_compressed x := encode DECENT_SIZE_OF_POINT_ON_CURVE_COMPRESSED (toAdd x).val
  element_from_bytes_compressed b := ofAdd (limbs b : ZMod r)
  compressed_length x := by simp [encode]
  compressed_read x := by
    have roomy : r ≤ 256 ^ DECENT_SIZE_OF_POINT_ON_CURVE_COMPRESSED := fits.trans (Nat.pow_le_pow_right (by decide) (by decide))
    rw [limbs_encode_val roomy,ofAdd_toAdd]
  element_to_bytes z := encode DECENT_SIZE_OF_MU z.val
  element_from_bytes b := (limbs b : ZMod r)
  bytes_length z := by simp [encode]
  bytes_read := limbs_encode_val fits

/-! ### Telling seeds apart -/

theorem hex_value_digitChar : ∀ d < 16, (hex_value (Nat.digitChar d)).toNat = d := by decide

/-- The number can be read off its digits. -/
theorem mpz_get_str_read (n : ℕ) : Nat.ofDigits 16 ((mpz_get_str n).reverse.map fun ch => (hex_value ch).toNat) = n := by
  rw [mpz_get_str]
  split
  · rename_i zero
    subst zero
    decide
  · rw [List.reverse_reverse,List.map_map]
    have digits : ((Nat.digits 16 n).map ((fun ch => (hex_value ch).toNat) ∘ Nat.digitChar)) = Nat.digits 16 n :=
      (List.map_congr_left fun d member => hex_value_digitChar d (Nat.digits_lt_base (by decide) member)).trans (List.map_id _)
    rw [digits,Nat.ofDigits_digits]

theorem mpz_get_str_injective {a b : ℕ} (same : mpz_get_str a = mpz_get_str b) : a = b := by
  rw [← mpz_get_str_read a,same,mpz_get_str_read]

theorem steps_succ (i k : ℕ) : steps i (k + 1) = steps i k + (i + k + 1) := by
  induction k generalizing i with
  | zero => simp [steps]
  | succ k ih => rw [steps,ih,steps]; omega

theorem steps_injective {j k : ℕ} (same : steps 0 j = steps 0 k) : j = k := by
  have mono : StrictMono (steps 0) := strictMono_nat_of_lt_succ fun k => by rw [steps_succ]; omega
  exact mono.injective same

/-! ### One block and one sector -/

/-- A digest whose first eight bytes ask for the block `i`; the next one says what it is for. -/
def asking (i : ℕ) (purpose : UInt8) : Digest := fun k =>
  if k.val < 8 then UInt8.ofNat (i / 256 ^ k.val % 256) else if k.val = 8 then purpose else 0

theorem digest_number_asking (i : ℕ) (purpose : UInt8) : digest_number (asking i purpose) = i % 256 ^ 8 := by
  rw [← limbs_encode,digest_number,encode]
  refine congrArg limbs ?_
  rw [← List.map_coe_finRange_eq_range,List.map_map]
  refine List.map_congr_left fun k _ => ?_
  simp [asking,k.isLt]

def u_seed_of_ones : List UInt8 := List.replicate 16 1

/-- Every query asks for the block `i`, with coefficient one in the first place and zero in
    the others; of the `u` only the one of sector `j` is not the unit. -/
def single (i j : ℕ) (s : List Char) : Digest :=
  asking i (if s = mpz_get_str (seed_for_u u_seed_of_ones + steps 0 j) then 1 else if s = mpz_get_str 0 then 2 else 0)

section
variable (r : ℕ) [Fact r.Prime] (fits : r ≤ 256 ^ DECENT_SIZE_OF_MU) (i j : ℕ)

/-- The library that finds a difference in sector `j` of block `i`. -/
def finder : Library r :=
  modular r fits (single i j) (fun d => if d 8 = 1 then 1 else 0) fun d => if d 8 = 2 then 1 else 0

def point (x : ZMod r) : (finder r fits i j).G1 := ofAdd x

theorem finder_u (k : ℕ) :
    u_at (finder r fits i j) (seed_for_u u_seed_of_ones) k = point r fits i j (if k = j then 1 else 0) := by
  refine congrArg ofAdd (?_ : (if single i j (mpz_get_str (seed_for_u u_seed_of_ones + steps 0 k)) 8 = 1 then (1 : ZMod r) else 0) =
    if k = j then 1 else 0)
  by_cases same : k = j
  · subst same
    simp [single,asking]
  · have other : mpz_get_str (seed_for_u u_seed_of_ones + steps 0 k) ≠ mpz_get_str (seed_for_u u_seed_of_ones + steps 0 j) :=
      fun equal => same (steps_injective (Nat.add_left_cancel (mpz_get_str_injective equal)))
    by_cases zero : mpz_get_str (seed_for_u u_seed_of_ones + steps 0 k) = mpz_get_str 0
    · rw [single,if_neg other,if_pos zero,if_neg same]
      simp [asking]
    · rw [single,if_neg other,if_neg zero,if_neg same]
      simp [asking]

/-- The coefficient of a query. -/
theorem finder_coefficient (k : ℕ) (few : k < 16) :
    (finder r fits i j).element_from_hash_Zr ((finder r fits i j).sha256 (mpz_get_str (0 + k))) = if k = 0 then (1 : ZMod r) else 0 := by
  show (if single i j (mpz_get_str (0 + k)) 8 = 2 then (1 : ZMod r) else 0) = _
  have large : 16 ≤ seed_for_u u_seed_of_ones := by decide
  have other : mpz_get_str (0 + k) ≠ mpz_get_str (seed_for_u u_seed_of_ones + steps 0 j) := by
    intro equal
    have := mpz_get_str_injective equal
    omega
  rw [single,if_neg other]
  by_cases zero : k = 0
  · subst zero
    simp [asking]
  · have differ : mpz_get_str (0 + k) ≠ mpz_get_str 0 := fun equal => zero (by simpa using mpz_get_str_injective equal)
    rw [if_neg differ,if_neg zero]
    simp [asking]

theorem finder_query {file : File} {sectors : ℕ} (many : 16 ≤ get_n file sectors) (small : get_n file sectors ≤ 256 ^ 8)
    (inside : i < get_n file sectors) :
    query_of (finder r fits i j) file 0 sectors = (i,(1 : ZMod r)) :: List.replicate 15 (i,(0 : ZMod r)) := by
  have queries : get_number_of_query (get_n file sectors) = 16 := by
    rw [get_number_of_query]
    split <;> omega
  have index (k : ℕ) : digest_number ((finder r fits i j).sha256 (mpz_get_str (0 + k))) % get_n file sectors = i := by
    show digest_number (asking i _) % _ = i
    rw [digest_number_asking,Nat.mod_eq_of_lt (lt_of_lt_of_le inside small),Nat.mod_eq_of_lt inside]
  rw [query_of,generate_query_from_seed,queries]
  simp only [lt_irrefl,if_false,index]
  refine List.ext_getElem (by simp) fun k few _ => ?_
  have few : k < 16 := by simpa using few
  rw [List.getElem_map,List.getElem_range,finder_coefficient r fits i j k few]
  cases k with
  | zero => rfl
  | succ k => rw [if_neg (Nat.succ_ne_zero k),List.getElem_cons_succ,List.getElem_replicate]

/-- What a product of sectors comes to in the group of the finder. -/
theorem finder_answered {file : File} {sectors : ℕ} (m : ℕ → ℕ → ℕ) (many : 16 ≤ get_n file sectors)
    (small : get_n file sectors ≤ 256 ^ 8) (inside : i < get_n file sectors) (below : j < sectors) :
    answered (finder r fits i j) (u_at (finder r fits i j) (seed_for_u u_seed_of_ones)) m
        (query_of (finder r fits i j) file 0 sectors) sectors =
      index_hash (finder r fits i j) i * point r fits i j (m i j) := by
  have one : (1 : ZMod r).val = 1 := ZMod.val_one r
  have hashes : ((query_of (finder r fits i j) file 0 sectors).map fun e => index_hash (finder r fits i j) e.1 ^ e.2.val).prod =
      index_hash (finder r fits i j) i := by
    rw [finder_query r fits i j many small inside,List.map_cons,List.map_replicate,List.prod_cons,List.prod_replicate,one,
      ZMod.val_zero,pow_one,pow_zero,one_pow,mul_one]
  have sums (k : ℕ) : ((query_of (finder r fits i j) file 0 sectors).map fun e => e.2 * (m e.1 k : ZMod r)).sum = m i k := by
    rw [finder_query r fits i j many small inside,List.map_cons,List.map_replicate,List.sum_cons,List.sum_replicate,one_mul,
      zero_mul,smul_zero,add_zero]
  rw [answered,hashes]
  simp only [sums,finder_u]
  refine congrArg _ ?_
  show ∏ k ∈ Finset.range sectors, point r fits i j (if k = j then 1 else 0) ^ (m i k : ZMod r).val = _
  rw [Finset.prod_eq_single j]
  · rw [if_pos rfl]
    show ofAdd ((m i j : ZMod r).val • (1 : ZMod r)) = ofAdd (m i j : ZMod r)
    rw [nsmul_one,ZMod.natCast_zmod_val]
  · intro k _ other
    rw [if_neg other]
    exact one_pow _
  · exact fun absent => absurd (Finset.mem_range.mpr below) absent

/-- The generator pairs a point with itself. -/
theorem finder_pairing (x : (finder r fits i j).G1) :
    (finder r fits i j).element_pairing x ((finder r fits i j).generator ^ (1 : ZMod r).val) = x := by
  rw [ZMod.val_one,pow_one]
  exact congrArg ofAdd (mul_one (toAdd (α := ZMod r) x))

end

theorem unwrapped_of_accepted {r : ℕ} [Fact r.Prime] (fits : r ≤ 256 ^ DECENT_SIZE_OF_MU) {file : File} {sectors : ℕ}
    (choice : sectors = DECENT_SECTORS ∨ sectors = DECENT_SECTORS_BIG)
    (size : file.length ≤ DECENT_MAX_FILE_SIZE * 1024 * 1024)
    (accepted : ∀ (L : Library r) (u_seed : List UInt8), u_seed.length = 16 → ∀ (key : ZMod r) (seed : ℕ),
      Accepted L file u_seed key seed sectors) : Unwrapped r file sectors := by
  intro i inside j below late
  have few : sectors ≤ DECENT_SECTORS_BIG := by rcases choice with rfl | rfl <;> decide
  have bounds := get_n_bounds file sectors (by rcases choice with rfl | rfl <;> decide)
  have far : 2 ^ 32 ≤ DECENT_SIZE_OF_NUMBER_IN_THE_FIELD * sectors * i + DECENT_SIZE_OF_NUMBER_IN_THE_FIELD * j :=
    late.trans (Nat.add_le_add_right (Nat.mod_le _ _) _)
  have shape : 16 ≤ get_n file sectors ∧ get_n file sectors ≤ 256 ^ 8 ∧ 320 < file.length := by
    rcases choice with rfl | rfl <;>
    · simp only [DECENT_SIZE_OF_NUMBER_IN_THE_FIELD,DECENT_SECTORS,DECENT_SECTORS_BIG,DECENT_MAX_FILE_SIZE] at *
      omega
  obtain ⟨many,small,long⟩ := shape
  have guessed : guess_sectors file (get_n file sectors) = .ok sectors := by
    rcases @guess_cases file sectors choice with guessed | ⟨_,short,_⟩
    · exact guessed
    · omega
  have equal := (accepted_iff (finder r fits i j) file u_seed_of_ones 1 0 sectors guessed (by omega)).mp
    (accepted (finder r fits i j) u_seed_of_ones (by decide) 1 0)
  rw [signed_eq_answered,finder_answered r fits i j _ many small inside below,
    finder_answered r fits i j _ many small inside below,finder_pairing,finder_pairing] at equal
  have points : point r fits i j (signed_number file sectors i j) = point r fits i j (get_m file i j sectors) :=
    mul_left_cancel equal
  have numbers : (signed_number file sectors i j : ZMod r) = get_m file i j sectors := Multiplicative.ofAdd.injective points
  have same := (ZMod.natCast_eq_natCast_iff _ _ _).mp numbers
  rw [get_m_eq,get_m_position few below,if_pos late] at same
  exact same

/-- An honest proof is accepted whatever the library, the seeds and the key are, exactly
    when no block shows different numbers to the uploader and to the seeder. -/
theorem custody_accepted_iff {r : ℕ} (prime : r.Prime) (fits : r ≤ 256 ^ DECENT_SIZE_OF_MU) (file : File) (sectors : ℕ)
    (some : 0 < file.length) (size : file.length ≤ DECENT_MAX_FILE_SIZE * 1024 * 1024)
    (choice : sectors = DECENT_SECTORS ∨ sectors = DECENT_SECTORS_BIG) :
    (∀ (L : Library r) (u_seed : List UInt8), u_seed.length = 16 → ∀ (key : ZMod r) (seed : ℕ),
      Accepted L file u_seed key seed sectors) ↔ Unwrapped r file sectors := by
  have : Fact r.Prime := ⟨prime⟩
  constructor
  · exact unwrapped_of_accepted fits choice size
  · exact fun unwrapped L u_seed _ key seed => accepted_of_unwrapped L some choice unwrapped u_seed key seed

/-- A file of a thousand bytes. -/
def shortFile : File := ⟨1000,fun k => UInt8.ofNat k⟩

theorem shortFile_unwrapped : Unwrapped 7 shortFile DECENT_SECTORS := by
  intro i inside j below late
  have few : get_n shortFile DECENT_SECTORS = 4 := by decide
  rw [few] at inside
  have start := Nat.mod_le (DECENT_SIZE_OF_NUMBER_IN_THE_FIELD * DECENT_SECTORS * i) (2 ^ 32)
  rw [block_start] at late
  simp only [DECENT_SIZE_OF_NUMBER_IN_THE_FIELD,DECENT_SECTORS] at below late start
  omega

/-- A short file is read alike. -/
theorem custody_accepted_iff_short : Unwrapped 7 shortFile DECENT_SECTORS ∧
    ∀ (L : Library 7) (u_seed : List UInt8), u_seed.length = 16 → ∀ (key : ZMod 7) (seed : ℕ),
      Accepted L shortFile u_seed key seed DECENT_SECTORS :=
  ⟨shortFile_unwrapped,(custody_accepted_iff (by norm_num) (by decide) shortFile DECENT_SECTORS (by decide) (by decide)
    (.inl rfl)).mpr shortFile_unwrapped⟩

/-- A file of zeros but for the byte at 2³². -/
def longFile : File := ⟨2 ^ 32 + 1,fun k => if k = 2 ^ 32 then 1 else 0⟩

theorem longFile_refused {r : ℕ} (prime : r.Prime) (fits : r ≤ 256 ^ DECENT_SIZE_OF_MU) :
    ¬ ∀ (L : Library r) (u_seed : List UInt8), u_seed.length = 16 → ∀ (key : ZMod r) (seed : ℕ),
      Accepted L longFile u_seed key seed DECENT_SECTORS := by
  intro accepted
  have : Fact r.Prime := ⟨prime⟩
  have unwrapped := unwrapped_of_accepted fits (.inl rfl) (by decide) accepted
  have same := unwrapped 13421772 (by decide +kernel) 16 (by decide) (by decide +kernel)
  have one : longFile.number (block_start DECENT_SECTORS 13421772 + DECENT_SIZE_OF_NUMBER_IN_THE_FIELD * 16) = 1 := by
    decide +kernel
  have zero : longFile.number (block_start DECENT_SECTORS 13421772 + DECENT_SIZE_OF_NUMBER_IN_THE_FIELD * 16 - 2 ^ 32) = 0 := by
    decide +kernel
  rw [one,zero] at same
  exact prime.one_lt.ne' (Nat.dvd_one.mp (Nat.modEq_zero_iff_dvd.mp same))

/-- The order `r` of `_DECENT_PAIRING_PARAM_`. -/
def DECENT_PAIRING_ORDER : ℕ := 1287689620916637251875563089646583807

/-- The block that starts 256 bytes before 2³² is signed with a one that the seeder does not
    see. -/
theorem custody_refused :
    (¬ ∀ (L : Library 7) (u_seed : List UInt8), u_seed.length = 16 → ∀ (key : ZMod 7) (seed : ℕ),
      Accepted L longFile u_seed key seed DECENT_SECTORS) ∧
    ¬ ∃ _ : DECENT_PAIRING_ORDER.Prime, ∀ (L : Library DECENT_PAIRING_ORDER) (u_seed : List UInt8), u_seed.length = 16 →
      ∀ (key : ZMod DECENT_PAIRING_ORDER) (seed : ℕ), Accepted L longFile u_seed key seed DECENT_SECTORS :=
  ⟨longFile_refused (by norm_num) (by decide),fun ⟨prime,accepted⟩ => longFile_refused prime (by decide) accepted⟩

end Decent.Custody

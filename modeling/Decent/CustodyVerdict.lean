import Decent.CustodyWrapped
import Mathlib.Data.UInt

/-!
What the miner's verdict on a proof of custody depends on. Every string of the proof is decoded into a
local buffer that is not cleared, and the number of blocks passes through a signed integer.
-/
namespace Decent.CustodyVerdict
open Decent.Custody (Library DECENT_SIZE_OF_MU DECENT_SIZE_OF_POINT_ON_CURVE_COMPRESSED limbs seed_for_u get_u_from_seed u_at
  generate_query_from_seed index_hash set_then_mul verify modular encode)

/-- `unsigned char buffer[DECENT_SIZE_OF_MU]` -/
abbrev Buffer := Vector UInt8 DECENT_SIZE_OF_MU

structure CustodyData where
  n : UInt32
  u_seed : Vector UInt8 16
  pubKey : Vector UInt8 DECENT_SIZE_OF_POINT_ON_CURVE_COMPRESSED

/-- The strings are bytes, of any length. -/
structure CustodyProof where
  mus : List (List UInt8)
  sigma : Vector UInt8 DECENT_SIZE_OF_POINT_ON_CURVE_COMPRESSED

/-! ### Strings -/

def hex_digit (d : ℕ) : UInt8 := UInt8.ofNat (Nat.digitChar d).toNat

def bytes_to_string (data : Buffer) : List UInt8 := data.toList.flatMap fun b => [hex_digit (b.toNat / 16),hex_digit (b.toNat % 16)]

/-- A character is signed; behind the last one stands the zero that ends the string. -/
def char_at (s : List UInt8) (k : ℕ) : ℤ := (s[k]?.getD 0).toInt8.toInt

/-- `(ch >= 'a') ? (ch - 'a' + 10) : (ch - '0')` -/
def hex_value (ch : ℤ) : ℤ := if 97 ≤ ch then ch - 97 + 10 else ch - 48

/-- `(int)in.size()` -/
def int_size (s : List UInt8) : ℤ := (Int32.ofNat s.length).toInt

def byte_at (s : List UInt8) (i : ℕ) : UInt8 := UInt8.ofInt (hex_value (char_at s (i * 2)) * 16 + hex_value (char_at s (i * 2 + 1)))

/-- The loop of `string_to_bytes`, which ends with the string. -/
def string_to_bytes_from (s : List UInt8) : (left i : ℕ) → Buffer → Buffer
  | 0, _, data => data
  | left + 1, i, data =>
    if (i * 2 : ℤ) < int_size s then string_to_bytes_from s left (i + 1) (data.setIfInBounds i (byte_at s i)) else data

def string_to_bytes (s : List UInt8) (data : Buffer) : Buffer := string_to_bytes_from s DECENT_SIZE_OF_MU 0 data

/-! ### The check -/

def get_number_of_query (blocks : Int32) : Int32 := if blocks > 16 then 16 else blocks

/-- `unsigned int q = get_number_of_query(n)` -/
def query_count (n : UInt32) : UInt32 := (get_number_of_query n.toInt32).toUInt32

section
variable {r : ℕ} (L : Library r)

/-- The strings that are decoded; what was on the stack is an argument. -/
def decoded (stack : ℕ → Buffer) (mus : List (List UInt8)) (i : ℕ) : ZMod r :=
  L.element_from_bytes (string_to_bytes (mus.getD i []) (stack i)).toList

def verify_by_miner (stack : ℕ → Buffer) (cd : CustodyData) (proof : CustodyProof) (seed : ℕ) : ℤ :=
  let sectors := (UInt32.ofNat proof.mus.length).toNat
  let public_key := L.element_from_bytes_compressed cd.pubKey.toList
  let u := get_u_from_seed L (seed_for_u cd.u_seed.toList) sectors
  let sigma := L.element_from_bytes_compressed proof.sigma.toList
  let mu := (List.range sectors).map (decoded L stack proof.mus)
  let query := generate_query_from_seed L seed (query_count cd.n).toNat cd.n.toNat
  verify L sigma query u mu public_key

/-- The bytes of a buffer as the number that is read, the last byte the lowest. -/
def Reads : Prop :=
  ∀ bytes : List UInt8, bytes.length = DECENT_SIZE_OF_MU → L.element_from_bytes bytes = (limbs bytes.reverse : ZMod r)

/-- The verdict is the same whatever was on the stack, there are few queries, and they ask for blocks of
    the file; a written buffer is read back. -/
structure Determined (cd : CustodyData) (mus : List (List UInt8)) (seed : ℕ) : Prop where
  same : ∀ sigma stack stack', verify_by_miner L stack cd ⟨mus,sigma⟩ seed = verify_by_miner L stack' cd ⟨mus,sigma⟩ seed
  few : query_count cd.n ≤ 16
  inside : ∀ e ∈ generate_query_from_seed L seed (query_count cd.n).toNat cd.n.toNat, e.1 < cd.n.toNat
  undone : ∀ data old : Buffer, string_to_bytes (bytes_to_string data) old = data

end

/-! ### The buffer -/

theorem string_to_bytes_from_get (s : List UInt8) {k : ℕ} (room : k < DECENT_SIZE_OF_MU) (left i : ℕ) (data : Buffer) :
    (string_to_bytes_from s left i data)[k] =
      if i ≤ k ∧ k < i + left ∧ (k * 2 : ℤ) < int_size s then byte_at s k else data[k] := by
  induction left generalizing i data with
  | zero => rw [string_to_bytes_from,if_neg (by omega)]
  | succ left ih =>
    rw [string_to_bytes_from]
    split
    · rename_i more
      rw [ih,Vector.getElem_setIfInBounds]
      by_cases here : i = k
      · subst here
        rw [if_neg (by omega),if_pos rfl,if_pos ⟨Nat.le_refl _,by omega,more⟩]
      · rw [if_neg here]
        exact if_congr (by omega) rfl rfl
    · rename_i ended
      exact (if_neg (by omega)).symm

/-- What the string reaches is written, the other bytes stay. -/
theorem string_to_bytes_get (s : List UInt8) (data : Buffer) {k : ℕ} (room : k < DECENT_SIZE_OF_MU) :
    (string_to_bytes s data)[k] = if (k * 2 : ℤ) < int_size s then byte_at s k else data[k] := by
  rw [string_to_bytes,string_to_bytes_from_get s room]
  exact if_congr (by omega) rfl rfl

/-- A string that reaches the last byte of the buffer. -/
def Filling (s : List UInt8) : Prop := 29 ≤ int_size s

instance (s : List UInt8) : Decidable (Filling s) := inferInstanceAs (Decidable (29 ≤ int_size s))

theorem string_to_bytes_filling {s : List UInt8} (filling : Filling s) (data old : Buffer) :
    string_to_bytes s data = string_to_bytes s old := by
  refine Vector.ext fun k room => ?_
  have written : (k * 2 : ℤ) < int_size s := by
    unfold Filling at filling
    rw [DECENT_SIZE_OF_MU] at room
    omega
  rw [string_to_bytes_get s data room,string_to_bytes_get s old room,if_pos written,if_pos written]

theorem int_size_of_length {s : List UInt8} (short : s.length < 2 ^ 31) : int_size s = s.length :=
  Int32.toInt_ofNat_of_lt short

theorem pairs_get {α β : Type} (first second : α → β) (l : List α) (i : ℕ) :
    (l.flatMap fun a => [first a,second a])[i * 2]? = l[i]?.map first ∧
      (l.flatMap fun a => [first a,second a])[i * 2 + 1]? = l[i]?.map second := by
  induction l generalizing i with
  | nil => exact ⟨rfl,rfl⟩
  | cons a rest ih =>
    cases i with
    | zero => exact ⟨rfl,rfl⟩
    | succ i =>
      have next : (i + 1) * 2 = i * 2 + 2 := Nat.succ_mul i 2
      rw [next]
      exact ih i

theorem hex_byte : ∀ n < 256, UInt8.ofInt (hex_value (hex_digit (n / 16)).toInt8.toInt * 16 +
    hex_value (hex_digit (n % 16)).toInt8.toInt) = UInt8.ofNat n := by decide +kernel

/-- A written buffer is read back, whatever was there. -/
theorem string_to_bytes_bytes_to_string (data old : Buffer) : string_to_bytes (bytes_to_string data) old = data := by
  have length : (bytes_to_string data).length = 30 := by
    rw [bytes_to_string,List.length_flatMap]
    show (data.toList.map fun _ => 2).sum = 30
    rw [List.map_const',List.sum_replicate,Vector.length_toList]
    rfl
  refine Vector.ext fun k room => ?_
  have written : (k * 2 : ℤ) < int_size (bytes_to_string data) := by
    rw [int_size_of_length (by rw [length]; decide),length]
    rw [DECENT_SIZE_OF_MU] at room
    omega
  obtain ⟨high,low⟩ := pairs_get (fun b : UInt8 => hex_digit (b.toNat / 16)) (fun b => hex_digit (b.toNat % 16)) data.toList k
  have here : data.toList[k]? = some data[k] := by
    rw [Vector.getElem?_toList,Vector.getElem?_eq_getElem room]
  rw [string_to_bytes_get _ old room,if_pos written,byte_at,char_at,char_at,bytes_to_string,high,low,here]
  exact (hex_byte data[k].toNat data[k].toNat_lt).trans UInt8.ofNat_toNat

/-! ### The queries -/

theorem toInt_toInt32 (n : UInt32) : n.toInt32.toInt = if n.toNat < 2 ^ 31 then (n.toNat : ℤ) else n.toNat - 2 ^ 32 := by
  have word := n.toNat_lt
  show n.toInt32.toBitVec.toInt = _
  rw [UInt32.toBitVec_toInt32,BitVec.toInt_eq_toNat_cond]
  show (if 2 * n.toNat < 2 ^ 32 then _ else _) = _
  exact if_congr (by omega) rfl rfl

/-- A number of blocks that is negative as an integer is the number of queries. -/
theorem query_count_eq (n : UInt32) : query_count n = if 16 < n.toNat ∧ n.toNat < 2 ^ 31 then 16 else n := by
  have large : n.toInt32 > 16 ↔ 16 < n.toNat ∧ n.toNat < 2 ^ 31 := by
    have word := n.toNat_lt
    show 16 < n.toInt32 ↔ _
    rw [Int32.lt_iff_toInt_lt,toInt_toInt32]
    show (16 : ℤ) < _ ↔ _
    split <;> omega
  rw [query_count,get_number_of_query]
  by_cases many : 16 < n.toNat ∧ n.toNat < 2 ^ 31
  · rw [if_pos many,if_pos (large.mpr many)]
    rfl
  · rw [if_neg many,if_neg (mt large.mp many)]
    exact UInt32.toUInt32_toInt32 n

theorem query_count_few_iff (n : UInt32) : query_count n ≤ 16 ↔ n < 2 ^ 31 := by
  rw [query_count_eq,UInt32.le_iff_toNat_le,UInt32.lt_iff_toNat_lt]
  show _ ≤ 16 ↔ n.toNat < 2 ^ 31
  split
  · rename_i many
    exact ⟨fun _ => many.2,fun _ => Nat.le_refl 16⟩
  · omega

theorem query_below {r : ℕ} (L : Library r) {n : UInt32} (some : 0 < n) (seed : ℕ) :
    ∀ e ∈ generate_query_from_seed L seed (query_count n).toNat n.toNat, e.1 < n.toNat := by
  have positive : 0 < n.toNat := UInt32.lt_iff_toNat_lt.mp some
  intro e member
  obtain ⟨i,inside,rfl⟩ := List.mem_map.mp member
  rw [List.mem_range] at inside
  dsimp only
  split
  · rename_i few
    rw [query_count_eq] at few inside
    split at few
    · exact absurd few (Nat.lt_irrefl 16)
    · rename_i all
      rwa [if_neg all] at inside
  · exact Nat.mod_lt _ positive

/-! ### The pairing -/

section
variable {r : ℕ} (L : Library r)

theorem pairing_one_left (b : L.G1) : L.element_pairing 1 b = 1 := by
  have power := Custody.pairing_pow L 1 b 0
  rwa [pow_zero,pow_zero] at power

variable [Fact r.Prime]

theorem pairing_eq_one_iff (a b : L.G1) : L.element_pairing a b = 1 ↔ a = 1 ∨ b = 1 := by
  constructor
  · intro one
    by_contra others
    obtain ⟨first,second⟩ := not_or.mp others
    obtain ⟨i,left⟩ := Tags.exists_pow L.order1 first L.generator
    obtain ⟨j,right⟩ := Tags.exists_pow L.order1 second L.generator
    refine L.nondegenerate ?_
    calc L.element_pairing L.generator L.generator
        = L.element_pairing (a ^ i) L.generator := by rw [left]
      _ = L.element_pairing L.generator a ^ i := by rw [Custody.pairing_pow,L.symmetric]
      _ = (L.element_pairing b a ^ j) ^ i := by rw [← right,Custody.pairing_pow]
      _ = 1 := by rw [L.symmetric,one,one_pow,one_pow]
  · rintro (rfl | rfl)
    · exact pairing_one_left L b
    · rw [L.symmetric]
      exact pairing_one_left L a

/-- Every value is reached by some signature. -/
theorem pairing_surjective (y : L.GT) : ∃ sigma, L.element_pairing sigma L.generator = y := by
  obtain ⟨k,power⟩ := Tags.exists_pow L.orderT L.nondegenerate y
  exact ⟨L.generator ^ k,(Custody.pairing_pow L _ _ k).trans power⟩

end

/-! ### The verdict -/

section
variable {r : ℕ} (L : Library r) (stack : ℕ → Buffer) (cd : CustodyData) (mus : List (List UInt8)) (seed : ℕ)

/-- The strings that are read. -/
def sectors : ℕ := (UInt32.ofNat mus.length).toNat

/-- The element of a sector in the pairing with the public key. -/
def weight (k : ℕ) : L.GT :=
  L.element_pairing (u_at L (seed_for_u cd.u_seed.toList) k) (L.element_from_bytes_compressed cd.pubKey.toList)

/-- What does not depend on the strings. -/
def hashes : L.GT :=
  L.element_pairing ((generate_query_from_seed L seed (query_count cd.n).toNat cd.n.toNat).map fun e =>
    index_hash L e.1 ^ e.2.val).prod (L.element_from_bytes_compressed cd.pubKey.toList)

/-- What the pairing of the signature is compared with. -/
def compared : L.GT := hashes L cd seed * ∏ k ∈ Finset.range (sectors mus), weight L cd k ^ (decoded L stack mus k).val

theorem pairing_prod (s : Finset ℕ) (f : ℕ → L.G1) (b : L.G1) :
    L.element_pairing (∏ k ∈ s, f k) b = ∏ k ∈ s, L.element_pairing (f k) b := by
  let left : L.G1 →* L.GT := MonoidHom.mk' (L.element_pairing · b) fun x y => L.bilinear x y b
  exact map_prod left f s

theorem verify_by_miner_eq (sigma : Vector UInt8 DECENT_SIZE_OF_POINT_ON_CURVE_COMPRESSED) :
    verify_by_miner L stack cd ⟨mus,sigma⟩ seed =
      if L.element_pairing (L.element_from_bytes_compressed sigma.toList) L.generator = compared L stack cd mus seed
      then 0 else 1 := by
  have product : L.element_pairing
      (((List.range (sectors mus)).map fun k => u_at L (seed_for_u cd.u_seed.toList) k ^ (decoded L stack mus k).val).prod)
      (L.element_from_bytes_compressed cd.pubKey.toList) =
      ∏ k ∈ Finset.range (sectors mus), weight L cd k ^ (decoded L stack mus k).val := by
    refine (pairing_prod L (Finset.range (sectors mus)) _ _).trans (Finset.prod_congr rfl fun k _ => ?_)
    exact Custody.pairing_pow L _ _ _
  rw [verify_by_miner,verify,Custody.get_u_from_seed_eq,Custody.zipWith_range,Custody.set_then_mul_eq,
    Custody.set_then_mul_eq,L.bilinear]
  rw [compared,hashes,← product]
  rfl

variable [Fact r.Prime]

theorem same_verdict_iff (old : ℕ → Buffer) :
    (∀ sigma, verify_by_miner L stack cd ⟨mus,sigma⟩ seed = verify_by_miner L old cd ⟨mus,sigma⟩ seed) ↔
      compared L stack cd mus seed = compared L old cd mus seed := by
  constructor
  · intro same
    obtain ⟨x,reached⟩ := pairing_surjective L (compared L stack cd mus seed)
    have length : (L.element_to_bytes_compressed x).toArray.size = DECENT_SIZE_OF_POINT_ON_CURVE_COMPRESSED :=
      L.compressed_length x
    have verdicts := same ⟨(L.element_to_bytes_compressed x).toArray,length⟩
    have read : L.element_from_bytes_compressed (Vector.mk (L.element_to_bytes_compressed x).toArray length).toList = x :=
      L.compressed_read x
    rw [verify_by_miner_eq,verify_by_miner_eq,read,reached,if_pos rfl] at verdicts
    by_contra differ
    rw [if_neg differ] at verdicts
    exact absurd verdicts (by decide)
  · intro equal sigma
    rw [verify_by_miner_eq,verify_by_miner_eq,equal]

/-! ### Strings that do not fill their buffer -/

/-- A buffer of zeros but for its last byte. -/
def last (b : UInt8) : Buffer := (Vector.replicate DECENT_SIZE_OF_MU 0).set 14 b

theorem limbs_last (data : Buffer) : limbs data.toList.reverse = data[14].toNat + 256 * limbs (data.toList.take 14).reverse := by
  have parts : data.toList = data.toList.take 14 ++ [data[14]] := by
    conv_lhs => rw [← List.take_append_drop 14 data.toList]
    refine congrArg _ ?_
    refine List.ext_getElem (by rw [List.length_drop,Vector.length_toList]; rfl) fun k inside _ => ?_
    have first : k = 0 := by
      rw [List.length_drop,Vector.length_toList,DECENT_SIZE_OF_MU] at inside
      omega
    subst first
    rw [List.getElem_drop,Vector.getElem_toList]
    rfl
  conv_lhs => rw [parts]
  rw [List.reverse_append,List.reverse_singleton,List.singleton_append,limbs,List.map_cons,Nat.ofDigits_cons,limbs]

/-- The last byte counts, where the string does not reach it. -/
theorem decoded_last {L : Library r} (reads : Reads L) {s : List UInt8} (short : ¬ Filling s) :
    L.element_from_bytes (string_to_bytes s (last 0)).toList ≠ L.element_from_bytes (string_to_bytes s (last 1)).toList := by
  have unwritten (b : UInt8) : (string_to_bytes s (last b))[14] = b := by
    rw [string_to_bytes_get _ _ (by decide),if_neg (by unfold Filling at short; omega),last,Vector.getElem_set_self]
  have front : (string_to_bytes s (last 0)).toList.take 14 = (string_to_bytes s (last 1)).toList.take 14 := by
    refine List.ext_getElem (by simp) fun k inside _ => ?_
    rw [List.length_take] at inside
    have early : k < 14 := by omega
    have room : k < DECENT_SIZE_OF_MU := by rw [DECENT_SIZE_OF_MU]; omega
    rw [List.getElem_take,List.getElem_take,Vector.getElem_toList,Vector.getElem_toList,string_to_bytes_get _ _ room,
      string_to_bytes_get _ _ room,last,last,Vector.getElem_set_ne _ _ (by omega),Vector.getElem_set_ne _ _ (by omega)]
  intro same
  rw [reads _ Vector.length_toList,reads _ Vector.length_toList,limbs_last,limbs_last,unwritten,unwritten,front] at same
  have one : ((0 : UInt8).toNat : ZMod r) = (1 : UInt8).toNat := by
    rw [Nat.cast_add,Nat.cast_add] at same
    exact add_right_cancel same
  rw [show (0 : UInt8).toNat = 0 from rfl,show (1 : UInt8).toNat = 1 from rfl,Nat.cast_zero,Nat.cast_one] at one
  exact zero_ne_one one

/-- What is compared is the same for every stack exactly when every string fills its buffer or counts nothing. -/
theorem compared_iff {L : Library r} (reads : Reads L) :
    (∀ stack old, compared L stack cd mus seed = compared L old cd mus seed) ↔
      ∀ k < sectors mus, Filling (mus.getD k []) ∨ weight L cd k = 1 := by
  constructor
  · intro same k below
    by_contra neither
    obtain ⟨short,counts⟩ := not_or.mp neither
    have products := mul_left_cancel (same (fun _ => last 0) (Function.update (fun _ => last 0) k (last 1)))
    have member : k ∈ Finset.range (sectors mus) := Finset.mem_range.mpr below
    rw [← Finset.mul_prod_erase _ _ member,← Finset.mul_prod_erase _ _ member] at products
    have others : ∏ j ∈ (Finset.range (sectors mus)).erase k, weight L cd j ^ (decoded L (fun _ => last 0) mus j).val =
        ∏ j ∈ (Finset.range (sectors mus)).erase k,
          weight L cd j ^ (decoded L (Function.update (fun _ => last 0) k (last 1)) mus j).val := by
      refine Finset.prod_congr rfl fun j other => ?_
      rw [decoded,decoded,Function.update_of_ne (Finset.ne_of_mem_erase other)]
    rw [others] at products
    have read := Tags.pow_val_injective L.orderT counts (mul_right_cancel products)
    rw [decoded,decoded,Function.update_self] at read
    exact decoded_last reads short read
  · intro filled stack old
    rw [compared,compared]
    refine congrArg (hashes L cd seed * ·) (Finset.prod_congr rfl fun k member => ?_)
    rcases filled k (Finset.mem_range.mp member) with filling | neutral
    · rw [decoded,decoded,string_to_bytes_filling filling (stack k) (old k)]
    · rw [neutral,one_pow,one_pow]

end

/-- The verdict depends on the proof alone exactly when the number of blocks is not negative as an integer and every string
    fills its buffer, or the element that it is an exponent of, or the key, is neutral. -/
theorem verdict_determined_iff {r : ℕ} (prime : r.Prime) (L : Library r) (reads : Reads L) (cd : CustodyData) (some : 0 < cd.n)
    (mus : List (List UInt8)) (seed : ℕ) : Determined L cd mus seed ↔
      cd.n < 2 ^ 31 ∧ ∀ k < sectors mus, Filling (mus.getD k []) ∨
        u_at L (seed_for_u cd.u_seed.toList) k = 1 ∨ L.element_from_bytes_compressed cd.pubKey.toList = 1 := by
  have : Fact r.Prime := ⟨prime⟩
  have neutral (k : ℕ) := pairing_eq_one_iff L (u_at L (seed_for_u cd.u_seed.toList) k)
    (L.element_from_bytes_compressed cd.pubKey.toList)
  simp only [← neutral]
  constructor
  · intro determined
    refine ⟨(query_count_few_iff cd.n).mp determined.few,(compared_iff cd mus seed reads).mp fun stack old => ?_⟩
    exact (same_verdict_iff L stack cd mus seed old).mp fun sigma => determined.same sigma stack old
  · rintro ⟨small,filled⟩
    refine ⟨fun sigma stack old => ?_,(query_count_few_iff cd.n).mpr small,query_below L some seed,
      string_to_bytes_bytes_to_string⟩
    exact (same_verdict_iff L stack cd mus seed old).mpr ((compared_iff cd mus seed reads).mpr filled stack old) sigma

/-- The numbers modulo `r` as a library that reads a buffer from its end. -/
def bigEndian (r : ℕ) [Fact r.Prime] (fits : r ≤ 256 ^ DECENT_SIZE_OF_MU) (sha256 : List Char → Custody.Digest)
    (hash hashZr : Custody.Digest → ZMod r) : Library r :=
  { modular r fits sha256 hash hashZr with
    element_to_bytes := fun z => (encode DECENT_SIZE_OF_MU z.val).reverse
    element_from_bytes := fun bytes => (limbs bytes.reverse : ZMod r)
    bytes_length := fun z => by rw [List.length_reverse,encode,List.length_map,List.length_range]
    bytes_read := fun z => by rw [List.reverse_reverse,Custody.limbs_encode_val fits] }

instance seven_prime : Fact (Nat.Prime 7) := ⟨by norm_num⟩

def seven : Library 7 := bigEndian 7 (by decide) (fun _ _ => 0) (fun _ => 1) fun _ => 1

/-- The key is the generator. -/
def custody (n : UInt32) : CustodyData where
  n := n
  u_seed := Vector.replicate 16 0
  pubKey := (Vector.replicate _ 0).set 0 1

/-- A string of thirty zeros. -/
theorem verdict_determined_zeros : Determined seven (custody 5) [List.replicate 30 48] 0 :=
  (verdict_determined_iff (by norm_num) seven (fun _ _ => rfl) (custody 5) (by decide) [List.replicate 30 48] 0).mpr
    ⟨by decide,fun k below => .inl (by
      obtain rfl : k = 0 := Nat.lt_one_iff.mp below
      decide)⟩

/-- An empty string is decoded to what was on the stack; 2³¹ blocks ask for 2³¹ queries. -/
theorem verdict_undetermined : ¬ Determined seven (custody 1) [[]] 0 ∧ ¬ Determined seven (custody (2 ^ 31)) [] 0 := by
  constructor
  · intro determined
    have same := determined.same ((Vector.replicate _ 0).set 0 1) (fun _ => last 0) fun _ => last 1
    have zeros : verify_by_miner seven (fun _ => last 0) (custody 1) ⟨[[]],(Vector.replicate _ 0).set 0 1⟩ 0 = 0 := by decide
    have one : verify_by_miner seven (fun _ => last 1) (custody 1) ⟨[[]],(Vector.replicate _ 0).set 0 1⟩ 0 = 1 := by decide
    rw [zeros,one] at same
    exact absurd same (by decide)
  · exact fun determined => absurd determined.few (by decide)

/-! ### Strings of characters -/

def ascii (ch : Char) : UInt8 := UInt8.ofNat ch.toNat

theorem hex_value_ascii {ch : Char} (plain : ch.toNat < 128) : hex_value (ascii ch).toInt8.toInt = Custody.hex_value ch := by
  have code : (ascii ch).toInt8.toInt = ch.toNat := by
    show (Int8.ofNat ch.toNat).toInt = _
    exact Int8.toInt_ofNat_of_lt plain
  have letter : (97 : ℤ) ≤ ch.toNat ↔ 'a' ≤ ch := by
    rw [Char.le_def,UInt32.le_iff_toNat_le]
    show (97 : ℤ) ≤ ch.toNat ↔ 97 ≤ ch.toNat
    omega
  rw [hex_value,code,Custody.hex_value]
  exact if_congr letter rfl rfl

theorem byte_at_pair {first second : Char} (rest : List Char) (plain : first.toNat < 128) (plain' : second.toNat < 128) :
    byte_at ((first :: second :: rest).map ascii) 0 =
      UInt8.ofInt (Custody.hex_value first * 16 + Custody.hex_value second) := by
  rw [← hex_value_ascii plain,← hex_value_ascii plain']
  rfl

/-- A string that is long enough is read as the bytes of its characters. -/
theorem chars_to_bytes (len : ℕ) : ∀ s : List Char, (∀ ch ∈ s, ch.toNat < 128) → 2 * len ≤ s.length + 1 →
    Custody.string_to_bytes s len = (List.range len).map (byte_at (s.map ascii)) := by
  induction len with
  | zero =>
    intro s _ _
    match s with
    | [] => rfl
    | [_] => rfl
    | _ :: _ :: _ => rfl
  | succ len ih =>
    intro s plain long
    match s with
    | [] => exact absurd long (by rw [List.length_nil]; omega)
    | [ch] =>
      obtain rfl : len = 0 := by rw [List.length_singleton] at long; omega
      have last : hex_value (ascii '\x00').toInt8.toInt = Custody.hex_value '\x00' := hex_value_ascii (by decide)
      show [_] = [byte_at [ascii ch] 0]
      rw [← last,← hex_value_ascii (plain ch List.mem_cons_self)]
      rfl
    | first :: second :: rest =>
      rw [List.length_cons,List.length_cons] at long
      have shift : byte_at ((first :: second :: rest).map ascii) ∘ Nat.succ = byte_at (rest.map ascii) := by
        funext i
        show byte_at _ (i + 1) = _
        rw [byte_at,byte_at,Nat.succ_mul]
        rfl
      rw [Custody.string_to_bytes,ih rest (fun ch member => plain ch (.tail _ (.tail _ member))) (by omega),
        List.range_succ_eq_map,List.map_cons,List.map_map,shift,
        byte_at_pair rest (plain first List.mem_cons_self) (plain second (.tail _ List.mem_cons_self))]

/-- On a file of less than 2³¹ blocks and on long strings of characters the check is the one of the honest proofs. -/
theorem verify_by_miner_chars {r : ℕ} (L : Library r) (stack : ℕ → Buffer) (cd : CustodyData) (mus : List (List Char))
    (sigma : Vector UInt8 DECENT_SIZE_OF_POINT_ON_CURVE_COMPRESSED) (seed : ℕ) (small : cd.n < 2 ^ 31)
    (few : mus.length < 2 ^ 32) (long : ∀ s ∈ mus, 29 ≤ s.length ∧ s.length < 2 ^ 31 ∧ ∀ ch ∈ s, ch.toNat < 128) :
    verify_by_miner L stack cd ⟨mus.map (List.map ascii),sigma⟩ seed =
      Custody.verify_by_miner L ⟨cd.n.toNat,cd.u_seed.toList,cd.pubKey.toList⟩ ⟨sigma.toList,mus⟩ seed := by
  have count : (UInt32.ofNat (mus.map (List.map ascii)).length).toNat = mus.length := by
    rw [List.length_map,UInt32.toNat_ofNat',Nat.mod_eq_of_lt few]
  have queries : (query_count cd.n).toNat = Custody.get_number_of_query cd.n.toNat := by
    have below : cd.n.toNat < 2 ^ 31 := UInt32.lt_iff_toNat_lt.mp small
    rw [query_count_eq,Custody.get_number_of_query]
    split <;> split <;> first | rfl | omega
  have read : (List.range mus.length).map (decoded L stack (mus.map (List.map ascii))) =
      mus.map fun s => L.element_from_bytes (Custody.string_to_bytes s DECENT_SIZE_OF_MU) := by
    refine List.ext_getElem (by rw [List.length_map,List.length_map,List.length_range]) fun k _ inside => ?_
    rw [List.length_map] at inside
    obtain ⟨filled,short,plain⟩ := long mus[k] (List.getElem_mem inside)
    rw [List.getElem_map,List.getElem_map,List.getElem_range,decoded,chars_to_bytes DECENT_SIZE_OF_MU _ plain
      (by rw [DECENT_SIZE_OF_MU]; omega)]
    refine congrArg L.element_from_bytes ?_
    have string : (mus.map (List.map ascii)).getD k [] = mus[k].map ascii := by
      rw [List.getD_eq_getElem?_getD,List.getElem?_map,List.getElem?_eq_getElem inside]
      rfl
    rw [string]
    refine List.ext_getElem (by rw [Vector.length_toList,List.length_map,List.length_range]) fun i room _ => ?_
    rw [Vector.length_toList] at room
    have written : (i * 2 : ℤ) < int_size (mus[k].map ascii) := by
      rw [int_size_of_length (by rw [List.length_map]; exact short),List.length_map]
      rw [DECENT_SIZE_OF_MU] at room
      omega
    rw [Vector.getElem_toList,string_to_bytes_get _ _ room,if_pos written,List.getElem_map,List.getElem_range]
  rw [verify_by_miner,Custody.verify_by_miner]
  dsimp only
  rw [count,read,queries]

end Decent.CustodyVerdict

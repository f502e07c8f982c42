import Decent.Lib.Tags
import Mathlib.Data.Nat.Digits.Defs
import Mathlib.Data.ZMod.Basic

/-!
The proofs of custody of `custodyutils.cpp`. The uploader signs every block of the
file; the seeder answers a query with a combination of blocks and signatures; a
miner checks the answer with a pairing. The libraries below it (PBC, GMP, SHA-256)
are a `Library`. A block is read by two functions: `get_data` takes it in one piece,
`get_m` takes one number of it; both compute the position in 32 bits.
-/
namespace Decent.Custody

def DECENT_SIZE_OF_NUMBER_IN_THE_FIELD : ℕ := 16
def DECENT_SECTORS : ℕ := 20
def DECENT_SECTORS_BIG : ℕ := 100
def DECENT_SIZE_OF_POINT_ON_CURVE_COMPRESSED : ℕ := 33
def DECENT_SIZE_OF_MU : ℕ := 15

/-- In megabytes. -/
def DECENT_MAX_FILE_SIZE : ℕ := 10000

abbrev Digest := Fin 32 → UInt8

/-- What is used of PBC and of SHA-256. The groups have prime order `r`, the pairing is
    bilinear and symmetric, and the encodings can be read back. -/
structure Library (r : ℕ) where
  G1 : Type
  GT : Type
  [group1 : CommGroup G1]
  [groupT : CommGroup GT]
  [element_cmp : DecidableEq GT]
  order1 : Nat.card G1 = r
  orderT : Nat.card GT = r
  element_pairing : G1 → G1 → GT
  bilinear : ∀ a b c, element_pairing (a * b) c = element_pairing a c * element_pairing b c
  symmetric : ∀ a b, element_pairing a b = element_pairing b a
  generator : G1
  nondegenerate : element_pairing generator generator ≠ 1
  sha256 : List Char → Digest
  element_from_hash : Digest → G1
  element_from_hash_Zr : Digest → ZMod r
  element_to_bytes_compressed : G1 → List UInt8
  element_from_bytes_compressed : List UInt8 → G1
  compressed_length : ∀ x, (element_to_bytes_compressed x).length = DECENT_SIZE_OF_POINT_ON_CURVE_COMPRESSED
  compressed_read : ∀ x, element_from_bytes_compressed (element_to_bytes_compressed x) = x
  element_to_bytes : ZMod r → List UInt8
  element_from_bytes : List UInt8 → ZMod r
  bytes_length : ∀ z, (element_to_bytes z).length = DECENT_SIZE_OF_MU
  bytes_read : ∀ z, element_from_bytes (element_to_bytes z) = z

attribute [instance] Library.group1 Library.groupT Library.element_cmp

/-! ### Strings -/

/-- `mpz_get_str` in base 16. -/
def mpz_get_str (n : ℕ) : List Char :=
  if n = 0 then ['0'] else ((Nat.digits 16 n).map Nat.digitChar).reverse

/-- `sprintf(index, "%llu", idx)` into a buffer of 16 zeros. -/
def index_buffer (idx : ℕ) : List Char :=
  let digits := Nat.toDigits 10 idx
  digits ++ List.replicate (16 - digits.length) '\x00'

/-- The number that the bytes of `u_seed` are read as: `%X` writes a byte below 16 with one digit. -/
def seed_for_u (u_seed : List UInt8) : ℕ :=
  u_seed.foldl (fun seed b => seed * (if b < 16 then 16 else 256) + b.toNat) 0

def bytes_to_string (data : List UInt8) : List Char :=
  data.flatMap fun b => [Nat.digitChar (b.toNat / 16),Nat.digitChar (b.toNat % 16)]

/-- `(ch >= 'a') ? (ch - 'a' + 10) : (ch - '0')`. -/
def hex_value (ch : Char) : ℤ :=
  if 'a' ≤ ch then (ch.toNat : ℤ) - 97 + 10 else (ch.toNat : ℤ) - 48

/-- A string of odd length is read up to its terminating zero; what a short string does
    not reach of the buffer stays as it was, which the model leaves out. -/
def string_to_bytes : List Char → ℕ → List UInt8
  | ch1 :: ch2 :: rest,len + 1 => UInt8.ofInt (hex_value ch1 * 16 + hex_value ch2) :: string_to_bytes rest len
  | [ch1],_ + 1 => [UInt8.ofInt (hex_value ch1 * 16 + hex_value '\x00')]
  | _,_ => []

/-! ### The file -/

/-- A file: its length and the byte at every position below it. -/
structure File where
  length : ℕ
  byte : ℕ → UInt8

/-- `file.seekg(position)` and `file.read(buffer, count)` inside the file. -/
def File.read (file : File) (position count : ℕ) : List UInt8 := (List.range count).map fun k => file.byte (position + k)

/-- The limbs of an `mpz_t` filled by `memcpy`. -/
def limbs (buffer : List UInt8) : ℕ := Nat.ofDigits 256 (buffer.map UInt8.toNat)

def get_n (file : File) (sectors : ℕ) : ℕ :=
  let n := file.length / (DECENT_SIZE_OF_NUMBER_IN_THE_FIELD * sectors)
  if file.length % (DECENT_SIZE_OF_NUMBER_IN_THE_FIELD * sectors) ≠ 0 then n + 1 else n

/-- The position is a product of 32-bit numbers. -/
def get_data (file : File) (i sectors : ℕ) : List UInt8 :=
  let position := DECENT_SIZE_OF_NUMBER_IN_THE_FIELD * sectors * i % 2 ^ 32
  let start := min position file.length
  if file.length > start + DECENT_SIZE_OF_NUMBER_IN_THE_FIELD * sectors then
    file.read start (DECENT_SIZE_OF_NUMBER_IN_THE_FIELD * sectors)
  else
    let left := file.length - start
    file.read start left ++ List.replicate (DECENT_SIZE_OF_NUMBER_IN_THE_FIELD * sectors - left) 0

/-- The position is a product of 32-bit numbers. -/
def get_m (file : File) (i j sectors : ℕ) : ℕ :=
  let position := DECENT_SIZE_OF_NUMBER_IN_THE_FIELD * (j + sectors * i) % 2 ^ 32
  let buffer :=
    if file.length < position then List.replicate DECENT_SIZE_OF_NUMBER_IN_THE_FIELD 0
    else if file.length < position + DECENT_SIZE_OF_NUMBER_IN_THE_FIELD then
      let left := file.length - position
      file.read position left ++ List.replicate (DECENT_SIZE_OF_NUMBER_IN_THE_FIELD - left) 0
    else file.read position DECENT_SIZE_OF_NUMBER_IN_THE_FIELD
  limbs buffer

/-- The numbers that a thread of `get_sigmas` cuts a block into. -/
def block_numbers (buffer : List UInt8) (sectors : ℕ) : List ℕ :=
  (List.range sectors).map fun i =>
    limbs ((buffer.drop (i * DECENT_SIZE_OF_NUMBER_IN_THE_FIELD)).take DECENT_SIZE_OF_NUMBER_IN_THE_FIELD)

/-! ### Elements -/

section
variable {r : ℕ} (L : Library r)

/-- A loop that sets the result to the first element and multiplies the others to it. -/
def set_then_mul {G : Type} [CommGroup G] : List G → G
  | [] => 1
  | x :: rest => rest.foldl (· * ·) x

/-- A loop that sets the result to the first element and adds the others to it. -/
def set_then_add : List (ZMod r) → ZMod r
  | [] => 0
  | x :: rest => rest.foldl (· + ·) x

/-- The loop of `get_u_from_seed`: the seed grows by the index. -/
def u_from_seed (i : ℕ) : ℕ → ℕ → List L.G1
  | 0,_ => []
  | left + 1,seed =>
    let seed := seed + i
    L.element_from_hash (L.sha256 (mpz_get_str seed)) :: u_from_seed (i + 1) left seed

def get_u_from_seed (seedU sectors : ℕ) : List L.G1 := u_from_seed L 0 sectors seedU

def index_hash (idx : ℕ) : L.G1 := L.element_from_hash (L.sha256 (index_buffer idx))

def get_sigma (idx : ℕ) (mi : List ℕ) (u : List L.G1) (pk : ZMod r) : L.G1 :=
  let out := set_then_mul (List.zipWith (fun x m => x ^ m) u mi)
  let out := out * index_hash L idx
  out ^ pk.val

def get_sigmas (file : File) (n : ℕ) (u : List L.G1) (pk : ZMod r) (sectors : ℕ) : List L.G1 :=
  (List.range n).map fun idx => get_sigma L idx (block_numbers (get_data file idx sectors) sectors) u pk

def get_number_of_query (blocks : ℕ) : ℕ := if blocks > 16 then 16 else blocks

/-- The first eight bytes of a digest, the lowest first. -/
def digest_number (digest : Digest) : ℕ := limbs ((List.finRange 8).map fun k => digest (k.castLE (by decide)))

/-- The queried indices with their coefficients. -/
def generate_query_from_seed (seed q n : ℕ) : List (ℕ × ZMod r) :=
  (List.range q).map fun i =>
    let digest := L.sha256 (mpz_get_str (seed + i))
    (if q < 16 then i else digest_number digest % n,L.element_from_hash_Zr digest)

def compute_mu (file : File) (query : List (ℕ × ZMod r)) (sectors : ℕ) : List (ZMod r) :=
  (List.range sectors).map fun j => set_then_add (query.map fun (idx,v) => v * (get_m file idx j sectors : ZMod r))

/-- A missing signature does not occur: an index is below the number of blocks. -/
def compute_sigma (sigmas : List L.G1) (query : List (ℕ × ZMod r)) : L.G1 :=
  query.foldl (fun sigma (idx,v) => sigma * (sigmas[idx]?.getD 1) ^ v.val) 1

/-- Zero when the pairings agree. -/
def verify (sigma : L.G1) (query : List (ℕ × ZMod r)) (u : List L.G1) (mu : List (ZMod r)) (pubk : L.G1) : ℤ :=
  let res1 := L.element_pairing sigma L.generator
  let multi1 := set_then_mul (query.map fun (idx,v) => index_hash L idx ^ v.val)
  let multi2 := set_then_mul (List.zipWith (fun x z => x ^ z.val) u mu)
  let res2 := L.element_pairing (multi1 * multi2) pubk
  if res1 = res2 then 0 else 1

/-! ### The three passes -/

structure CustodyData where
  n : ℕ
  u_seed : List UInt8
  pubKey : List UInt8

structure CustodyProof where
  sigma : List UInt8
  mus : List (List Char)

def verify_by_miner (cd : CustodyData) (proof : CustodyProof) (seed : ℕ) : ℤ :=
  let sectors := proof.mus.length
  let public_key := L.element_from_bytes_compressed cd.pubKey
  let u := get_u_from_seed L (seed_for_u cd.u_seed) sectors
  let sigma := L.element_from_bytes_compressed proof.sigma
  let mu := proof.mus.map fun s => L.element_from_bytes (string_to_bytes s DECENT_SIZE_OF_MU)
  let q := get_number_of_query cd.n
  let query := generate_query_from_seed L seed q cd.n
  verify L sigma query u mu public_key

/-- The custody data and the file of signatures. The random bytes and the random key are
    arguments. -/
def create_custody_data (content : File) (u_seed : List UInt8) (private_key : ZMod r) (sectors : ℕ) :
    CustodyData × List UInt8 :=
  let u := get_u_from_seed L (seed_for_u u_seed) sectors
  let public_key := L.generator ^ private_key.val
  let n := get_n content sectors
  let sigmas := get_sigmas L content n u private_key sectors
  (⟨n,u_seed,L.element_to_bytes_compressed public_key⟩,sigmas.flatMap L.element_to_bytes_compressed)

/-- The signatures read back from their file. -/
def read_sigmas (cusfile : List UInt8) (n : ℕ) : List L.G1 :=
  (List.range n).map fun i => L.element_from_bytes_compressed
    ((cusfile.drop (i * DECENT_SIZE_OF_POINT_ON_CURVE_COMPRESSED)).take DECENT_SIZE_OF_POINT_ON_CURVE_COMPRESSED)

/-- The number of sectors that `create_proof_of_custody` guesses from the number of blocks. -/
def guess_sectors (content : File) (n : ℕ) : Except ℤ ℕ :=
  let nReal1 := get_n content DECENT_SECTORS
  let nReal2 := get_n content DECENT_SECTORS_BIG
  if nReal1 = n then pure DECENT_SECTORS
  else if nReal2 = n then pure DECENT_SECTORS_BIG
  else throw (-7)

/-- The proof with the result of its own check. -/
def create_proof_of_custody (content : File) (cusfile : List UInt8) (cd : CustodyData) (seed : ℕ) :
    Except ℤ (CustodyProof × ℤ) := do
  let sectors ← guess_sectors content cd.n
  let sigmas := read_sigmas L cusfile cd.n
  let q := get_number_of_query cd.n
  let query := generate_query_from_seed L seed q cd.n
  let mu := compute_mu content query sectors
  let sigma := compute_sigma L sigmas query
  let proof : CustodyProof :=
    ⟨L.element_to_bytes_compressed sigma,mu.map fun z => bytes_to_string (L.element_to_bytes z)⟩
  pure (proof,verify_by_miner L cd proof seed)

end

end Decent.Custody

import Decent.Lib.Bytes

/-!
The files of the block database, byte by byte. The index file has an entry of 32 bytes for each
block number, at the place that the number says, and the file of blocks only grows. Removing a
block writes a size of zero into its entry; every reader decides for itself whether a block is there.
-/
namespace Decent.BlockFiles
open Bytes

inductive Exc
  | key_not_found_exception
  | assert_exception (what : String)
  | failure
  | unpacking
deriving DecidableEq

/-! ### Entries -/

/-- `block_id_type`: twenty bytes. -/
structure BlockId where
  bytes : List UInt8
  length : bytes.length = 20
deriving DecidableEq

/-- `block_id_type()` -/
def BlockId.zero : BlockId := ⟨List.replicate 20 0,rfl⟩

/-- `block_header::num_from_id`: the first word of the id, its highest byte first. -/
def num_from_id (id : BlockId) : Nat := (id.bytes.take 4).foldl (fun num byte => num * 256 + byte.toNat) 0

structure IndexEntry where
  block_pos : UInt64
  block_size : UInt32
  block_id : BlockId
deriving DecidableEq

def IndexEntry.blank : IndexEntry := ⟨0,0,.zero⟩

/-- `sizeof(index_entry)` -/
def ENTRY_SIZE : Nat := 32

/-- An entry as it lies in memory. -/
def IndexEntry.bytes (e : IndexEntry) : List UInt8 :=
  little 8 e.block_pos.toNat ++ (little 4 e.block_size.toNat ++ e.block_id.bytes)

def BlockId.of_bytes (bytes : List UInt8) : BlockId where
  bytes := (bytes ++ List.replicate 20 0).take 20
  length := by simp

def IndexEntry.of_bytes (bytes : List UInt8) : IndexEntry where
  block_pos := .ofNat (value (bytes.take 8))
  block_size := .ofNat (value ((bytes.drop 8).take 4))
  block_id := .of_bytes (bytes.drop 12)

@[simp] theorem IndexEntry.length_bytes (e : IndexEntry) : e.bytes.length = ENTRY_SIZE := by
  simp [IndexEntry.bytes,e.block_id.length,ENTRY_SIZE]

theorem BlockId.of_bytes_bytes (id : BlockId) : BlockId.of_bytes id.bytes = id := by
  cases id with
  | mk bytes length =>
    simp only [BlockId.of_bytes,BlockId.mk.injEq]
    rw [List.take_append_of_le_length (Nat.le_of_eq length.symm),List.take_of_length_le (Nat.le_of_eq length)]

/-- An entry is read as it was written. -/
theorem IndexEntry.of_bytes_bytes (e : IndexEntry) : IndexEntry.of_bytes e.bytes = e := by
  have pos : e.bytes.take 8 = little 8 e.block_pos.toNat := List.take_left' (length_little ..)
  have rest : e.bytes.drop 8 = little 4 e.block_size.toNat ++ e.block_id.bytes := List.drop_left' (length_little ..)
  have size : (e.bytes.drop 8).take 4 = little 4 e.block_size.toNat := by
    rw [rest]
    exact List.take_left' (length_little ..)
  have id : e.bytes.drop 12 = e.block_id.bytes := by
    rw [show 12 = 8 + 4 from rfl,← List.drop_drop,rest]
    exact List.drop_left' (length_little ..)
  rw [IndexEntry.of_bytes,pos,size,id,BlockId.of_bytes_bytes,value_little,value_little,
    Nat.mod_eq_of_lt (Nat.lt_of_lt_of_eq e.block_pos.toNat_lt (by decide)),
    Nat.mod_eq_of_lt (Nat.lt_of_lt_of_eq e.block_size.toNat_lt (by decide)),UInt64.ofNat_toNat,UInt32.ofNat_toNat]

/-- A gap in the index file reads as blank entries. -/
theorem IndexEntry.bytes_blank : IndexEntry.blank.bytes = List.replicate ENTRY_SIZE 0 := by decide

/-! ### The files -/

/-- `_block_num_to_pos` and `_blocks` -/
structure Files where
  block_num_to_pos : List UInt8
  blocks : List UInt8

def Files.empty : Files := ⟨[],[]⟩

/-- `fc::raw` of blocks, and the ids of blocks. -/
structure Packing (β : Type) where
  id : β → BlockId
  pack : β → List UInt8
  unpack : List UInt8 → Except Exc β
  unpack_pack : ∀ b, unpack (pack b) = .ok b
  unpack_empty : ∃ e, unpack [] = .error e

/-- A read past the end fails. -/
def read_bytes (f : List UInt8) (pos size : Nat) : Except Exc (List UInt8) :=
  match read f pos size with
  | some bytes => .ok bytes
  | none => .error .failure

def read_entry (F : Files) (pos : Nat) : Except Exc IndexEntry := do
  return .of_bytes (← read_bytes F.block_num_to_pos pos ENTRY_SIZE)

def read_block (F : Files) (e : IndexEntry) : Except Exc (List UInt8) :=
  read_bytes F.blocks e.block_pos.toNat e.block_size.toNat

/-- The handlers of the readers that return nothing when something is thrown. -/
def caught {α : Type} : Except Exc (Option α) → Option α
  | .ok found => found
  | .error _ => none

section
variable {β : Type} (P : Packing β)

/-- `block_database::store` -/
def store (id : BlockId) (b : β) (F : Files) : Files :=
  let id := if id = .zero then P.id b else id
  let num := num_from_id id
  let vec := P.pack b
  let e : IndexEntry := ⟨.ofNat F.blocks.length,.ofNat vec.length,id⟩
  ⟨write F.block_num_to_pos (ENTRY_SIZE * num) e.bytes,F.blocks ++ vec⟩

/-- `block_database::remove` -/
def remove (id : BlockId) (F : Files) : Except Exc Files := do
  let index_pos := ENTRY_SIZE * num_from_id id
  if F.block_num_to_pos.length ≤ index_pos then
    throw .key_not_found_exception
  else
    let e ← read_entry F index_pos
    if e.block_id = id then
      return { F with block_num_to_pos := write F.block_num_to_pos index_pos { e with block_size := 0 }.bytes }
    else
      return F

/-- `block_database::contains` -/
def contains (id : BlockId) (F : Files) : Except Exc Bool := do
  if id = .zero then
    return false
  else
    let index_pos := ENTRY_SIZE * num_from_id id
    if F.block_num_to_pos.length ≤ index_pos then
      return false
    else
      let e ← read_entry F index_pos
      return e.block_id = id && 0 < e.block_size

/-- `block_database::fetch_block_id` -/
def fetch_block_id (block_num : Nat) (F : Files) : Except Exc BlockId := do
  let index_pos := ENTRY_SIZE * block_num
  if F.block_num_to_pos.length ≤ index_pos then
    throw .key_not_found_exception
  else
    let e ← read_entry F index_pos
    if e.block_id = .zero then
      throw (.assert_exception "Empty block_id in block_database (maybe corrupt on disk?)")
    else
      return e.block_id

/-- The block of an entry, which has to have its id. -/
def unpack_block (e : IndexEntry) (data : List UInt8) : Except Exc (Option β) := do
  let result ← P.unpack data
  if P.id result = e.block_id then
    return some result
  else
    throw (.assert_exception "result.id() == e.block_id")

/-- `block_database::fetch_optional` -/
def fetch_optional (id : BlockId) (F : Files) : Option β :=
  let index_pos := ENTRY_SIZE * num_from_id id
  caught <|
    if F.block_num_to_pos.length ≤ index_pos then
      return none
    else do
      let e ← read_entry F index_pos
      if e.block_id ≠ id then
        return none
      else
        let data ← if e.block_size ≠ 0 then read_block F e else pure []
        unpack_block P e data

/-- `block_database::fetch_by_number` -/
def fetch_by_number (block_num : Nat) (F : Files) : Option β :=
  let index_pos := ENTRY_SIZE * block_num
  caught <|
    if F.block_num_to_pos.length ≤ index_pos then
      return none
    else do
      let e ← read_entry F index_pos
      unpack_block P e (← read_block F e)

/-- The loop of `last` and `last_id`: back to an entry of some size, or the first one. Before the
    first one there is nothing to be read. -/
def scan_back (F : Files) (pos : Nat) (e : IndexEntry) : Except Exc IndexEntry :=
  if e.block_size = 0 ∧ 0 < pos then
    if pos < ENTRY_SIZE then
      .error .failure
    else do
      scan_back F (pos - ENTRY_SIZE) (← read_entry F (pos - ENTRY_SIZE))
  else
    .ok e
termination_by pos
decreasing_by exact Nat.sub_lt (by omega) (by decide)

/-- The entry that `last` and `last_id` find. -/
def last_entry (F : Files) : Except Exc (Option IndexEntry) :=
  let length := F.block_num_to_pos.length
  if length < ENTRY_SIZE then
    return none
  else do
    let e ← scan_back F length (← read_entry F (length - ENTRY_SIZE))
    if e.block_size = 0 then
      return none
    else
      return some e

/-- `block_database::last`: the id is not looked at. -/
def last (F : Files) : Option β :=
  caught do
    match ← last_entry F with
    | none => return none
    | some e => return some (← P.unpack (← read_block F e))

/-- `block_database::last_id` -/
def last_id (F : Files) : Option BlockId :=
  caught do
    match ← last_entry F with
    | none => return none
    | some e => return some e.block_id

end

/-! ### Histories -/

inductive Call (β : Type)
  | store (b : β)
  | remove (id : BlockId)

section
variable {β : Type} (P : Packing β)

/-- What a call does to the files. One that throws has written nothing. -/
def call (F : Files) : Call β → Files
  | .store b => store P (P.id b) b F
  | .remove id =>
    match remove id F with
    | .ok F' => F'
    | .error _ => F

/-- The files after these calls, the latest first. -/
def after : List (Call β) → Files
  | [] => .empty
  | c :: before => call P (after before) c

/-- The block that was stored last at a number, and whether it is still there. -/
def shelf : List (Call β) → Nat → Option (β × Bool)
  | [], _ => none
  | .store b :: before, num => if num_from_id (P.id b) = num then some (b,true) else shelf before num
  | .remove id :: before, num => (shelf before num).map fun (b,there) => (b,there && P.id b ≠ id)

/-- The live block of a number. -/
def live (calls : List (Call β)) (num : Nat) : Option β :=
  match shelf P calls num with
  | some (b,true) => some b
  | _ => none

/-- The bytes that were written. -/
def written : List (Call β) → Nat
  | [] => 0
  | .store b :: before => written before + (P.pack b).length
  | .remove _ :: before => written before

/-- The sizes and the places of blocks fit into the fields that are for them. -/
def Fits (calls : List (Call β)) : Prop :=
  written P calls < 2^64 ∧ ∀ b, .store b ∈ calls → (P.pack b).length < 2^32

/-- All readers of the files describe this map. -/
structure IsMap (F : Files) (m : Nat → Option β) : Prop where
  contains : ∀ id, contains id F = .ok true ↔ ∃ b, m (num_from_id id) = some b ∧ P.id b = id
  fetch_optional : ∀ id b, fetch_optional P id F = some b ↔ m (num_from_id id) = some b ∧ P.id b = id
  fetch_by_number : ∀ num, fetch_by_number P num F = m num
  fetch_block_id : ∀ num id, fetch_block_id num F = .ok id ↔ ∃ b, m num = some b ∧ P.id b = id
  last : ∀ b, last P F = some b ↔ m (num_from_id (P.id b)) = some b ∧ ∀ num, num_from_id (P.id b) < num → m num = none
  last_id : ∀ id, last_id F = some id ↔ ∃ b, m (num_from_id id) = some b ∧ P.id b = id ∧ ∀ num, num_from_id id < num → m num = none

/-! ### What the files hold -/

/-- An entry is blank where nothing was stored; else it is that of the block which was stored last, with its
    place among the blocks as long as it is there. -/
def Holds (F : Files) (e : IndexEntry) : Option (β × Bool) → Prop
  | none => e = .blank
  | some (b,there) => e.block_id = P.id b ∧
      if there then e.block_size.toNat = (P.pack b).length ∧
        read F.blocks e.block_pos.toNat (P.pack b).length = some (P.pack b)
      else e.block_size = 0

/-- The record of a number, if the file has come so far. -/
def Entered (F : Files) (num : Nat) (held : Option (β × Bool)) : Prop :=
  record ENTRY_SIZE F.block_num_to_pos num = none ∧ held = none ∨
    ∃ e : IndexEntry, record ENTRY_SIZE F.block_num_to_pos num = some e.bytes ∧ Holds P F e held

structure Shelved (F : Files) (calls : List (Call β)) : Prop where
  whole : Whole ENTRY_SIZE F.block_num_to_pos
  length : F.blocks.length = written P calls
  entered : ∀ num, Entered P F num (shelf P calls num)

variable {P}

theorem shelf_num {calls : List (Call β)} {num : Nat} {b : β} {there : Bool} (found : shelf P calls num = some (b,there)) :
    num_from_id (P.id b) = num := by
  induction calls generalizing b there with
  | nil => cases found
  | cons c before ih =>
    cases c with
    | store c =>
      rw [shelf] at found
      split at found
      case isTrue same =>
        cases found
        exact same
      case isFalse => exact ih found
    | remove id =>
      rw [shelf,Option.map_eq_some_iff] at found
      obtain ⟨⟨c,was⟩,found,same⟩ := found
      cases same
      exact ih found

theorem read_entry_record {F : Files} {num : Nat} {e : IndexEntry}
    (found : record ENTRY_SIZE F.block_num_to_pos num = some e.bytes) : read_entry F (ENTRY_SIZE * num) = .ok e := by
  have there : read F.block_num_to_pos (ENTRY_SIZE * num) ENTRY_SIZE = some e.bytes := found
  simp only [read_entry,read_bytes,there]
  exact congrArg Except.ok e.of_bytes_bytes

theorem Holds.append {F : Files} {e : IndexEntry} {held : Option (β × Bool)} {index : List UInt8} (more : List UInt8)
    (holds : Holds P F e held) : Holds P ⟨index,F.blocks ++ more⟩ e held := by
  match held with
  | none => exact holds
  | some (b,false) => exact holds
  | some (b,true) => exact ⟨holds.1,holds.2.1,read_append more holds.2.2⟩

theorem Entered.append {F : Files} {num : Nat} {held : Option (β × Bool)} {index : List UInt8} (more : List UInt8)
    (entered : Entered P F num held)
    (kept : record ENTRY_SIZE index num = record ENTRY_SIZE F.block_num_to_pos num ∨
      record ENTRY_SIZE F.block_num_to_pos num = none ∧ record ENTRY_SIZE index num = some IndexEntry.blank.bytes) :
    Entered P ⟨index,F.blocks ++ more⟩ num held := by
  rcases entered with ⟨missing,none⟩ | ⟨e,found,holds⟩
  · rcases kept with same | ⟨-,blank⟩
    · exact .inl ⟨same.trans missing,none⟩
    · exact .inr ⟨.blank,blank,none ▸ rfl⟩
  · rcases kept with same | ⟨missing,-⟩
    · exact .inr ⟨e,same.trans found,holds.append more⟩
    · rw [missing] at found
      cases found

/-- A write of one entry keeps the others, or blanks them. -/
theorem kept_other {index : List UInt8} (whole : Whole ENTRY_SIZE index) {num other : Nat} (e : IndexEntry) (apart : other ≠ num) :
    record ENTRY_SIZE (write index (ENTRY_SIZE * num) e.bytes) other = record ENTRY_SIZE index other ∨
      record ENTRY_SIZE index other = none ∧
        record ENTRY_SIZE (write index (ENTRY_SIZE * num) e.bytes) other = some IndexEntry.blank.bytes := by
  rw [IndexEntry.bytes_blank]
  exact whole.record_write_other (by decide) e.length_bytes apart

theorem shelved_store {F : Files} {before : List (Call β)} {b : β} (fits : Fits P (.store b :: before))
    (shelved : Shelved P F before) : Shelved P (store P (P.id b) b F) (.store b :: before) := by
  have given : (if P.id b = .zero then P.id b else P.id b) = P.id b := ite_self _
  have short : F.blocks.length < 2^64 := by
    rw [shelved.length]
    exact Nat.lt_of_le_of_lt (Nat.le_add_right ..) fits.1
  have small := fits.2 b (List.mem_cons_self ..)
  unfold store
  dsimp only
  rw [given]
  exact {
    whole := shelved.whole.write _ (IndexEntry.length_bytes _)
    length := by rw [List.length_append,shelved.length]; rfl
    entered := fun num => by
      rw [shelf]
      split
      case isTrue here =>
        subst here
        refine .inr ⟨_,record_write_same _ (IndexEntry.length_bytes _),rfl,?_,?_⟩
        · exact Nat.mod_eq_of_lt small
        · show read _ (F.blocks.length % 2^64) _ = _
          rw [Nat.mod_eq_of_lt short]
          exact read_end ..
      case isFalse apart => exact (shelved.entered num).append _ (kept_other shelved.whole _ (Ne.symm apart)) }

theorem Shelved.reach {F : Files} {calls : List (Call β)} (shelved : Shelved P F calls) (num : Nat) :
    (F.block_num_to_pos.length ≤ ENTRY_SIZE * num ∧ shelf P calls num = none) ∨
      ¬ F.block_num_to_pos.length ≤ ENTRY_SIZE * num ∧ ∃ e, read_entry F (ENTRY_SIZE * num) = .ok e ∧
        record ENTRY_SIZE F.block_num_to_pos num = some e.bytes ∧ Holds P F e (shelf P calls num) := by
  have inside := shelved.whole.record_isSome (i := num) (by decide)
  rcases shelved.entered num with ⟨missing,none⟩ | ⟨e,found,holds⟩
  · rw [missing] at inside
    exact .inl ⟨Nat.le_of_not_lt (fun reaches => nomatch inside.mpr reaches),none⟩
  · rw [found] at inside
    exact .inr ⟨Nat.not_le_of_lt (inside.mp rfl),e,read_entry_record found,found,holds⟩

/-- A removal makes the entry one of no size, if it has the id. -/
theorem shelved_remove {F : Files} {before : List (Call β)} {id : BlockId} (shelved : Shelved P F before) :
    Shelved P (call P F (.remove id)) (.remove id :: before) := by
  have length : written P (.remove id :: before) = written P before := rfl
  have away {num : Nat} (apart : num ≠ num_from_id id) : shelf P (.remove id :: before) num = shelf P before num := by
    rw [shelf]
    cases held : shelf P before num with
    | none => rfl
    | some item =>
      obtain ⟨b,there⟩ := item
      have other : P.id b ≠ id := by
        rintro rfl
        exact apart (shelf_num held).symm
      simp [other]
  rcases shelved.reach (num_from_id id) with ⟨short,none⟩ | ⟨long,e,reads,found,holds⟩
  · have thrown : call P F (.remove id) = F := by
      simp [call,remove,if_pos short,throw,throwThe,MonadExceptOf.throw]
    rw [thrown]
    refine ⟨shelved.whole,shelved.length,fun num => ?_⟩
    by_cases here : num = num_from_id id
    · subst here
      have entered := shelved.entered (num_from_id id)
      rw [none] at entered
      rw [shelf,none]
      exact entered
    · rw [away here]
      exact shelved.entered num
  · by_cases named : e.block_id = id
    · have removed : call P F (.remove id) =
          ⟨write F.block_num_to_pos (ENTRY_SIZE * num_from_id id) { e with block_size := 0 }.bytes,F.blocks⟩ := by
        simp only [call,remove,if_neg long,reads,bind,Except.bind,if_pos named]
        rfl
      rw [removed]
      refine ⟨shelved.whole.write _ (IndexEntry.length_bytes _),shelved.length,fun num => ?_⟩
      by_cases here : num = num_from_id id
      · subst here
        refine .inr ⟨_,record_write_same _ (IndexEntry.length_bytes _),?_⟩
        rw [shelf]
        cases held : shelf P before (num_from_id id) with
        | none =>
          rw [held] at holds
          cases holds
          rfl
        | some item =>
          obtain ⟨b,there⟩ := item
          rw [held] at holds
          have same : P.id b = id := holds.1.symm.trans named
          simp only [Option.map_some,same,ne_eq,not_true,decide_false,Bool.and_false]
          exact ⟨holds.1,rfl⟩
      · rw [away here,← List.append_nil F.blocks]
        exact (shelved.entered num).append [] (kept_other shelved.whole _ here)
    · have kept : call P F (.remove id) = F := by
        simp only [call,remove,if_neg long,reads,bind,Except.bind,if_neg named]
        rfl
      rw [kept]
      refine ⟨shelved.whole,shelved.length,fun num => ?_⟩
      have same : shelf P (.remove id :: before) num = shelf P before num := by
        by_cases here : num = num_from_id id
        · subst here
          rw [shelf]
          cases held : shelf P before (num_from_id id) with
          | none => rfl
          | some item =>
            obtain ⟨b,there⟩ := item
            rw [held] at holds
            have other : P.id b ≠ id := fun same => named (holds.1.trans same)
            simp [other]
        · exact away here
      rw [same]
      exact shelved.entered num

theorem Fits.tail {c : Call β} {before : List (Call β)} (fits : Fits P (c :: before)) : Fits P before := by
  refine ⟨Nat.lt_of_le_of_lt ?_ fits.1,fun b stored => fits.2 b (List.mem_cons_of_mem _ stored)⟩
  cases c with
  | store b => exact Nat.le_add_right ..
  | remove id => exact Nat.le_refl _

/-- After any calls the files hold what was stored last, and not removed. -/
theorem shelved_after {calls : List (Call β)} (fits : Fits P calls) : Shelved P (after P calls) calls := by
  induction calls with
  | nil => exact ⟨Nat.dvd_zero _,rfl,fun num => .inl ⟨rfl,rfl⟩⟩
  | cons c before ih =>
    cases c with
    | store b => exact shelved_store fits (ih fits.tail)
    | remove id => exact shelved_remove (ih fits.tail)

/-! ### What the readers find -/

theorem live_some {calls : List (Call β)} {num : Nat} {b : β} : live P calls num = some b ↔ shelf P calls num = some (b,true) := by
  unfold live
  split
  case h_1 held => rw [held]; simp
  case h_2 other =>
    refine ⟨fun found => (nomatch found),fun held => absurd held (other b)⟩

theorem live_num {calls : List (Call β)} {num : Nat} {b : β} (found : live P calls num = some b) : num_from_id (P.id b) = num :=
  shelf_num (live_some.mp found)

theorem pack_positive (P : Packing β) (b : β) : 0 < (P.pack b).length := by
  refine List.length_pos_iff.mpr fun empty => ?_
  obtain ⟨e,thrown⟩ := P.unpack_empty
  have round := P.unpack_pack b
  rw [empty,thrown] at round
  cases round

theorem Holds.read_block {F : Files} {e : IndexEntry} {b : β} (holds : Holds P F e (some (b,true))) :
    read_block F e = .ok (P.pack b) := by
  obtain ⟨-,size,there⟩ := holds
  rw [BlockFiles.read_block,size,read_bytes,there]

/-- An entry has a size if and only if its block is live. -/
theorem Holds.size {F : Files} {e : IndexEntry} {calls : List (Call β)} {num : Nat} (holds : Holds P F e (shelf P calls num)) :
    e.block_size = 0 ↔ live P calls num = none := by
  unfold live
  cases held : shelf P calls num with
  | none =>
    rw [held] at holds
    cases holds
    exact ⟨fun _ => rfl,fun _ => rfl⟩
  | some item =>
    obtain ⟨b,there⟩ := item
    rw [held] at holds
    cases there with
    | false => exact ⟨fun _ => rfl,fun _ => holds.2⟩
    | true =>
      have positive := pack_positive P b
      rw [← holds.2.1] at positive
      refine ⟨fun zero => ?_,fun none => (nomatch none)⟩
      rw [zero] at positive
      exact absurd positive (Nat.lt_irrefl 0)

theorem unpack_block_ok {F : Files} {e : IndexEntry} {b : β} (holds : Holds P F e (some (b,true))) :
    unpack_block P e (P.pack b) = .ok (some b) := by
  have named : P.id b = e.block_id := holds.1.symm
  simp only [unpack_block,P.unpack_pack,bind,Except.bind,if_pos named]
  rfl

theorem unpack_block_empty (e : IndexEntry) : caught (unpack_block P e []) = none := by
  obtain ⟨thrown,empty⟩ := P.unpack_empty
  simp only [unpack_block,empty,bind,Except.bind]
  rfl

variable {F : Files} {calls : List (Call β)}

theorem contains_iff (shelved : Shelved P F calls) {id : BlockId} (given : id ≠ .zero) :
    contains id F = .ok true ↔ ∃ b, live P calls (num_from_id id) = some b ∧ P.id b = id := by
  rcases shelved.reach (num_from_id id) with ⟨short,none⟩ | ⟨long,e,reads,-,holds⟩
  · simp only [contains,if_neg given,if_pos short]
    refine ⟨fun found => (nomatch found),?_⟩
    rintro ⟨b,found,-⟩
    rw [live_some,none] at found
    cases found
  · have value : contains id F = .ok (e.block_id = id && 0 < e.block_size : Bool) := by
      simp only [contains,if_neg given,if_neg long,reads,bind,Except.bind]
      rfl
    rw [value,Except.ok.injEq,Bool.and_eq_true,decide_eq_true_eq,decide_eq_true_eq]
    have size := holds.size
    constructor
    · rintro ⟨named,positive⟩
      cases found : live P calls (num_from_id id) with
      | none =>
        rw [size.mpr found] at positive
        exact absurd positive (Nat.lt_irrefl 0)
      | some b =>
        rw [live_some.mp found] at holds
        exact ⟨b,rfl,holds.1.symm.trans named⟩
    · rintro ⟨b,found,named⟩
      rw [live_some.mp found] at holds
      refine ⟨holds.1.trans named,UInt32.pos_iff_ne_zero.mpr fun zero => ?_⟩
      rw [size.mp zero] at found
      cases found

theorem fetch_by_number_eq (shelved : Shelved P F calls) (num : Nat) : fetch_by_number P num F = live P calls num := by
  rcases shelved.reach num with ⟨short,none⟩ | ⟨long,e,reads,-,holds⟩
  · simp only [fetch_by_number,if_pos short,live,none]
    rfl
  · simp only [fetch_by_number,if_neg long,reads,bind,Except.bind]
    have size := holds.size
    cases found : live P calls num with
    | none =>
      have zero := size.mpr found
      simp only [read_block,read_bytes,zero]
      cases there : read F.blocks e.block_pos.toNat (0 : UInt32).toNat with
      | none => rfl
      | some bytes =>
        rw [List.length_eq_zero_iff.mp (length_read there)]
        exact unpack_block_empty e
    | some b =>
      rw [live_some.mp found] at holds
      simp only [holds.read_block,unpack_block_ok holds]
      rfl

theorem fetch_optional_iff (shelved : Shelved P F calls) (id : BlockId) (b : β) :
    fetch_optional P id F = some b ↔ live P calls (num_from_id id) = some b ∧ P.id b = id := by
  rcases shelved.reach (num_from_id id) with ⟨short,none⟩ | ⟨long,e,reads,-,holds⟩
  · simp only [fetch_optional,if_pos short]
    rw [live_some,none]
    exact ⟨fun found => (nomatch found),fun found => (nomatch found.1)⟩
  · simp only [fetch_optional,if_neg long,reads,bind,Except.bind]
    have size := holds.size
    by_cases named : e.block_id = id
    · rw [if_neg (not_not.mpr named)]
      cases found : live P calls (num_from_id id) with
      | none =>
        simp only [size.mpr found,ne_eq,not_true,if_false,pure,Except.pure]
        rw [unpack_block_empty]
        exact ⟨fun found => (nomatch found),fun found => (nomatch found.1)⟩
      | some c =>
        have nonzero : e.block_size ≠ 0 := fun zero => by
          rw [size.mp zero] at found
          cases found
        rw [live_some.mp found] at holds
        rw [if_pos nonzero,holds.read_block]
        show caught (unpack_block P e (P.pack c)) = _ ↔ _
        rw [unpack_block_ok holds]
        have same : P.id c = id := holds.1.symm.trans named
        show some c = some b ↔ _
        constructor
        · rintro ⟨⟩
          exact ⟨rfl,same⟩
        · exact fun found => found.1
    · rw [if_pos named]
      refine ⟨fun found => (nomatch found),?_⟩
      rintro ⟨found,same⟩
      rw [live_some.mp found] at holds
      exact absurd (holds.1.trans same) named

/-- The id of the last block at a number is there whether or not the block is. -/
theorem fetch_block_id_iff (shelved : Shelved P F calls) (num : Nat) (id : BlockId) :
    fetch_block_id num F = .ok id ↔ ∃ b there, shelf P calls num = some (b,there) ∧ P.id b = id ∧ id ≠ .zero := by
  rcases shelved.reach num with ⟨short,none⟩ | ⟨long,e,reads,-,holds⟩
  · simp only [fetch_block_id,if_pos short]
    refine ⟨fun found => (nomatch found),?_⟩
    rintro ⟨b,there,found,-⟩
    rw [none] at found
    cases found
  · simp only [fetch_block_id,if_neg long,reads,bind,Except.bind]
    cases held : shelf P calls num with
    | none =>
      rw [held] at holds
      cases holds
      refine ⟨fun found => (nomatch found),?_⟩
      rintro ⟨b,there,found,-⟩
      cases found
    | some item =>
      obtain ⟨b,there⟩ := item
      rw [held] at holds
      have named := holds.1
      by_cases zero : e.block_id = .zero
      · rw [if_pos zero]
        refine ⟨fun found => (nomatch found),?_⟩
        rintro ⟨c,_,found,same,given⟩
        cases found
        exact absurd (same.symm.trans (named.symm.trans zero)) given
      · rw [if_neg zero]
        constructor
        · rintro ⟨⟩
          exact ⟨b,there,rfl,named.symm,zero⟩
        · rintro ⟨c,_,found,same,-⟩
          cases found
          exact congrArg Except.ok (named.trans same)

/-! ### The last block -/

theorem Shelved.entry (shelved : Shelved P F calls) {num : Nat} (inside : ENTRY_SIZE * num < F.block_num_to_pos.length) :
    ∃ e, read_entry F (ENTRY_SIZE * num) = .ok e ∧ Holds P F e (shelf P calls num) := by
  rcases shelved.reach num with ⟨short,-⟩ | ⟨-,e,reads,-,holds⟩
  · exact absurd inside (Nat.not_lt_of_le short)
  · exact ⟨e,reads,holds⟩

/-- The entry is that of the highest live block below a number. -/
def Highest (P : Packing β) (F : Files) (calls : List (Call β)) (below : Nat) (e : IndexEntry) : Prop :=
  ∃ num b, num < below ∧ live P calls num = some b ∧ Holds P F e (some (b,true)) ∧
    ∀ other, num < other → other < below → live P calls other = none

/-- Back from an entry of no size the loop comes to the highest live block below, if there is one. -/
theorem scan_back_ok (shelved : Shelved P F calls) (count : Nat) (inside : ENTRY_SIZE * count ≤ F.block_num_to_pos.length)
    (e : IndexEntry) (empty : e.block_size = 0) : ∃ e', scan_back F (ENTRY_SIZE * count) e = .ok e' ∧
      (e'.block_size ≠ 0 ∧ Highest P F calls count e' ∨
        e'.block_size = 0 ∧ ∀ num, num < count → live P calls num = none) := by
  induction count generalizing e with
  | zero =>
    refine ⟨e,?_,.inr ⟨empty,fun num below => absurd below (Nat.not_lt_zero num)⟩⟩
    rw [scan_back,if_neg (fun more => absurd more.2 (Nat.lt_irrefl _))]
  | succ count ih =>
    have previous : ENTRY_SIZE * (count + 1) - ENTRY_SIZE = ENTRY_SIZE * count := Nat.add_sub_cancel ..
    have positive : 0 < ENTRY_SIZE := by decide
    have more : e.block_size = 0 ∧ 0 < ENTRY_SIZE * (count + 1) := ⟨empty,Nat.mul_pos positive (Nat.succ_pos _)⟩
    have enough : ¬ ENTRY_SIZE * (count + 1) < ENTRY_SIZE := Nat.not_lt_of_le (Nat.le_mul_of_pos_right _ (Nat.succ_pos _))
    have inside : ENTRY_SIZE * count < F.block_num_to_pos.length := by omega
    obtain ⟨e₁,reads,holds⟩ := shelved.entry inside
    have step : scan_back F (ENTRY_SIZE * (count + 1)) e = scan_back F (ENTRY_SIZE * count) e₁ := by
      rw [scan_back,if_pos more,if_neg enough,previous,reads]
      rfl
    rw [step]
    by_cases zero : e₁.block_size = 0
    · obtain ⟨e',found,result⟩ := ih (by omega) e₁ zero
      have dead := holds.size.mp zero
      refine ⟨e',found,result.imp ?_ ?_⟩
      · rintro ⟨size,num,b,below,isLive,there,above⟩
        refine ⟨size,num,b,Nat.lt_succ_of_lt below,isLive,there,fun other later early => ?_⟩
        rcases Nat.lt_succ_iff_lt_or_eq.mp early with early | rfl
        · exact above other later early
        · exact dead
      · rintro ⟨size,none⟩
        refine ⟨size,fun num below => ?_⟩
        rcases Nat.lt_succ_iff_lt_or_eq.mp below with below | rfl
        · exact none num below
        · exact dead
    · have found : scan_back F (ENTRY_SIZE * count) e₁ = .ok e₁ := by
        rw [scan_back,if_neg (fun more => zero more.1)]
      refine ⟨e₁,found,.inl ⟨zero,?_⟩⟩
      obtain ⟨b,isLive⟩ := Option.ne_none_iff_exists'.mp (mt holds.size.mpr zero)
      rw [live_some.mp isLive] at holds
      exact ⟨count,b,Nat.lt_succ_self _,isLive,holds,fun other later early => absurd early (by omega)⟩

/-- `last` and `last_id` find the entry of the highest live block. -/
theorem last_entry_ok (shelved : Shelved P F calls) :
    (∃ e num b, last_entry F = .ok (some e) ∧ live P calls num = some b ∧ Holds P F e (some (b,true)) ∧
        ∀ other, num < other → live P calls other = none) ∨
      last_entry F = .ok none ∧ ∀ num, live P calls num = none := by
  obtain ⟨count,length⟩ := shelved.whole
  have positive : 0 < ENTRY_SIZE := by decide
  have beyond (num : Nat) (outside : count ≤ num) : live P calls num = none := by
    rcases shelved.reach num with ⟨-,none⟩ | ⟨long,-⟩
    · simp only [live,none]
    · rw [length] at long
      exact absurd (Nat.mul_le_mul_left _ outside) long
  cases count with
  | zero =>
    refine .inr ⟨?_,fun num => beyond num (Nat.zero_le _)⟩
    rw [last_entry,if_pos (by rw [length]; exact positive)]
    rfl
  | succ count =>
    have enough : ¬ F.block_num_to_pos.length < ENTRY_SIZE := by
      rw [length]
      exact Nat.not_lt_of_le (Nat.le_mul_of_pos_right _ (Nat.succ_pos _))
    have inside : ENTRY_SIZE * count < F.block_num_to_pos.length := by
      rw [length,Nat.mul_succ]
      exact Nat.lt_add_of_pos_right positive
    obtain ⟨e,reads,holds⟩ := shelved.entry inside
    have highest : ∃ e', scan_back F F.block_num_to_pos.length e = .ok e' ∧ (e'.block_size ≠ 0 ∧
        Highest P F calls (count + 1) e' ∨ e'.block_size = 0 ∧ ∀ num, num < count + 1 → live P calls num = none) := by
      by_cases zero : e.block_size = 0
      · rw [length]
        exact scan_back_ok shelved (count + 1) (Nat.le_of_eq length.symm) e zero
      · refine ⟨e,by rw [scan_back,if_neg (fun more => zero more.1)],.inl ⟨zero,?_⟩⟩
        obtain ⟨b,isLive⟩ := Option.ne_none_iff_exists'.mp (mt holds.size.mpr zero)
        rw [live_some.mp isLive] at holds
        exact ⟨count,b,Nat.lt_succ_self _,isLive,holds,fun other later early => absurd early (by omega)⟩
    obtain ⟨e',found,result⟩ := highest
    have previous : F.block_num_to_pos.length - ENTRY_SIZE = ENTRY_SIZE * count := by
      rw [length]
      exact Nat.add_sub_cancel ..
    have value : last_entry F = if e'.block_size = 0 then .ok none else .ok (some e') := by
      rw [last_entry,if_neg enough,previous,reads]
      simp only [bind,Except.bind,found]
      rfl
    rw [value]
    rcases result with ⟨size,num,b,-,isLive,there,above⟩ | ⟨size,none⟩
    · refine .inl ⟨e',num,b,if_neg size,isLive,there,fun other later => ?_⟩
      rcases Nat.lt_or_ge other (count + 1) with early | late
      · exact above other later early
      · exact beyond other late
    · refine .inr ⟨if_pos size,fun num => ?_⟩
      rcases Nat.lt_or_ge num (count + 1) with early | late
      · exact none num early
      · exact beyond num late

theorem highest_unique {num other : Nat} {b c : β} (isLive : live P calls num = some b) (isLive' : live P calls other = some c)
    (above : ∀ n, num < n → live P calls n = none) (above' : ∀ n, other < n → live P calls n = none) : num = other := by
  rcases Nat.lt_trichotomy num other with less | same | more
  · rw [above other less] at isLive'
    cases isLive'
  · exact same
  · rw [above' num more] at isLive
    cases isLive

theorem last_iff (shelved : Shelved P F calls) (b : β) : last P F = some b ↔
    live P calls (num_from_id (P.id b)) = some b ∧ ∀ num, num_from_id (P.id b) < num → live P calls num = none := by
  rcases last_entry_ok shelved with ⟨e,num,c,found,isLive,holds,above⟩ | ⟨found,none⟩
  · have value : last P F = some c := by
      simp only [last,found,bind,Except.bind,holds.read_block,P.unpack_pack]
      rfl
    have number := live_num isLive
    rw [value]
    constructor
    · rintro ⟨⟩
      rw [number]
      exact ⟨isLive,above⟩
    · rintro ⟨isLive',above'⟩
      rw [highest_unique isLive isLive' above above',isLive'] at isLive
      exact isLive.symm
  · have value : last P F = Option.none := by
      simp only [last,found]
      rfl
    rw [value,none]
    exact ⟨fun found => (nomatch found),fun found => (nomatch found.1)⟩

theorem last_id_iff (shelved : Shelved P F calls) (id : BlockId) : last_id F = some id ↔
    ∃ b, live P calls (num_from_id id) = some b ∧ P.id b = id ∧ ∀ num, num_from_id id < num → live P calls num = none := by
  rcases last_entry_ok shelved with ⟨e,num,c,found,isLive,holds,above⟩ | ⟨found,none⟩
  · have value : last_id F = some (P.id c) := by
      rw [← holds.1]
      simp only [last_id,found]
      rfl
    have number := live_num isLive
    rw [value]
    constructor
    · rintro ⟨⟩
      rw [number]
      exact ⟨c,isLive,rfl,above⟩
    · rintro ⟨b,isLive',rfl,above'⟩
      rw [highest_unique isLive isLive' above above',isLive'] at isLive
      cases isLive
      rfl
  · have value : last_id F = Option.none := by
      simp only [last_id,found]
      rfl
    rw [value]
    refine ⟨fun found => (nomatch found),?_⟩
    rintro ⟨b,isLive,-⟩
    rw [none] at isLive
    cases isLive

/-! ### The store is a map -/

/-- The readers describe one map, that of the live blocks, if and only if the block that was stored last at
    a number is there, except where its id is all zeros and it was removed. -/
theorem block_store_map (P : Packing β) (calls : List (Call β)) (fits : Fits P calls) :
    IsMap P (after P calls) (live P calls) ↔
      ∀ num b there, shelf P calls num = some (b,there) → (there = true ↔ P.id b ≠ .zero) := by
  have shelved := shelved_after fits
  constructor
  · intro isMap num b there held
    have number := shelf_num held
    constructor
    · rintro rfl zero
      have found := (isMap.contains (P.id b)).mpr ⟨b,by rw [number]; exact live_some.mpr held,rfl⟩
      simp only [contains,if_pos zero] at found
      cases found
    · intro given
      have found := (fetch_block_id_iff shelved num (P.id b)).mpr ⟨b,there,held,rfl,given⟩
      obtain ⟨c,isLive,-⟩ := (isMap.fetch_block_id num (P.id b)).mp found
      rw [live_some,held] at isLive
      cases isLive
      rfl
  · intro kept
    have given {num : Nat} {b : β} (isLive : live P calls num = some b) : P.id b ≠ .zero :=
      (kept num b true (live_some.mp isLive)).mp rfl
    exact {
      contains := fun id => by
        by_cases zero : id = .zero
        · simp only [contains,if_pos zero]
          refine ⟨fun found => (nomatch found),?_⟩
          rintro ⟨b,isLive,rfl⟩
          exact absurd zero (given isLive)
        · exact contains_iff shelved zero
      fetch_optional := fetch_optional_iff shelved
      fetch_by_number := fetch_by_number_eq shelved
      fetch_block_id := fun num id => by
        rw [fetch_block_id_iff shelved]
        constructor
        · rintro ⟨b,there,held,rfl,nonzero⟩
          cases (kept num b there held).mpr nonzero
          exact ⟨b,live_some.mpr held,rfl⟩
        · rintro ⟨b,isLive,rfl⟩
          exact ⟨b,true,live_some.mp isLive,rfl,given isLive⟩
      last := last_iff shelved
      last_id := last_id_iff shelved }

end

/-! ### Two blocks -/

/-- The first blocks of a chain, without transactions. -/
inductive TestBlock
  | first
  | second
deriving DecidableEq

def TestBlock.id : TestBlock → BlockId
  | .first => ⟨[0,0,0,1,78,52,45,241,164,169,224,172,130,6,30,70,120,176,17,14],rfl⟩
  | .second => ⟨[0,0,0,2,225,152,192,193,102,181,203,251,134,62,169,201,186,86,187,227],rfl⟩

/-- The id of the block before, the time, the miner, the root, no extensions, no signature and no
    transactions. -/
def TestBlock.pack : TestBlock → List UInt8
  | .first => List.replicate 24 0 ++ [1] ++ List.replicate 87 0
  | .second => TestBlock.first.id.bytes ++ List.replicate 4 0 ++ [2] ++ List.replicate 87 0

def TestBlock.unpack (bytes : List UInt8) : Except Exc TestBlock :=
  if bytes = TestBlock.first.pack then .ok .first
  else if bytes = TestBlock.second.pack then .ok .second
  else .error .unpacking

def test_packing : Packing TestBlock where
  id := TestBlock.id
  pack := TestBlock.pack
  unpack := TestBlock.unpack
  unpack_pack b := by cases b <;> decide
  unpack_empty := ⟨.unpacking,by decide⟩

theorem fits_test {calls : List (Call TestBlock)} (short : written test_packing calls < 2^64) : Fits test_packing calls := by
  refine ⟨short,fun b _ => ?_⟩
  cases b <;> decide

/-- A removal that finds nothing, the second block, which leaves a gap before it, and the first block. -/
theorem block_store_map_two : IsMap test_packing
    (after test_packing [.store .first,.store .second,.remove TestBlock.first.id])
    (live test_packing [.store .first,.store .second,.remove TestBlock.first.id]) := by
  refine (block_store_map test_packing _ (fits_test (by decide))).mpr fun num b there held => ?_
  simp only [shelf,Option.map_none] at held
  split at held
  · cases held
    exact ⟨fun _ => by decide,fun _ => rfl⟩
  · split at held
    · cases held
      exact ⟨fun _ => by decide,fun _ => rfl⟩
    · cases held

/-- The first is stored and removed, and its id is still found. -/
theorem removed_id_found : Fits test_packing [.remove TestBlock.first.id,.store .first] ∧
    live test_packing [.remove TestBlock.first.id,.store .first] 1 = none ∧
    fetch_by_number test_packing 1 (after test_packing [.remove TestBlock.first.id,.store .first]) = none ∧
    fetch_block_id 1 (after test_packing [.remove TestBlock.first.id,.store .first]) = .ok TestBlock.first.id ∧
    ¬ IsMap test_packing (after test_packing [.remove TestBlock.first.id,.store .first])
      (live test_packing [.remove TestBlock.first.id,.store .first]) := by
  have gone : live test_packing [.remove TestBlock.first.id,.store .first] 1 = none := by decide
  have found : fetch_block_id 1 (after test_packing [.remove TestBlock.first.id,.store .first]) =
      .ok TestBlock.first.id := by decide +kernel
  refine ⟨fits_test (by decide),gone,by decide +kernel,found,fun isMap => ?_⟩
  obtain ⟨b,isLive,-⟩ := (isMap.fetch_block_id 1 _).mp found
  rw [gone] at isLive
  cases isLive

end Decent.BlockFiles

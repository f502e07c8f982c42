import Decent.Protocol

/-!
The block database: an index file with one fixed-size entry a block number, and a
file of blocks that only grows. Removing a block zeroes the size of its entry and
leaves the rest of it, the block id included, where it was.
-/
namespace Decent.BlockDatabase
open Decent.ObjectDatabase (Exc)
open Decent.Protocol

variable {O : Type}

/-- `index_entry`. The position counts blocks, not bytes, and of `block_size` only
    whether it is positive is kept. -/
structure IndexEntry where
  block_pos : Nat
  stored : Bool
  block_id : BlockId
deriving DecidableEq, Repr

/-- What seeking past the end of the index file leaves in the gap. -/
def IndexEntry.blank : IndexEntry := ⟨0,false,.zero⟩

/-- `block_database`: the entries of `_block_num_to_pos` and the blocks of `_blocks`. -/
structure Blocks (O : Type) where
  index : List IndexEntry
  blocks : List (Block O)

def Blocks.empty : Blocks O := ⟨[],[]⟩

/-- Writes an entry, filling a gap before it with blanks. -/
def writeEntry (index : List IndexEntry) (num : Nat) (e : IndexEntry) : List IndexEntry :=
  (index ++ List.replicate (num + 1 - index.length) IndexEntry.blank).set num e

section
variable (digest : Header → Nat)

/-- `block_database::store`. -/
def store (id : BlockId) (b : Block O) (B : Blocks O) : Blocks O :=
  let id := if id = .zero then b.id digest else id
  { index := writeEntry B.index id.num ⟨B.blocks.length,true,id⟩
    blocks := B.blocks ++ [b] }

/-- `block_database::remove`. -/
def remove (id : BlockId) (B : Blocks O) : Except Exc (Blocks O) :=
  match B.index[id.num]? with
  | none => .error .key_not_found_exception
  | some e =>
    if e.block_id = id then .ok { B with index := B.index.set id.num { e with stored := false } }
    else .ok B

/-- `block_database::contains`. -/
def contains (id : BlockId) (B : Blocks O) : Bool :=
  if id = .zero then false
  else match B.index[id.num]? with
    | none => false
    | some e => e.block_id = id && e.stored

/-- `block_database::fetch_block_id`: the size of the entry is not looked at. -/
def fetch_block_id (num : Nat) (B : Blocks O) : Except Exc BlockId :=
  match B.index[num]? with
  | none => .error .key_not_found_exception
  | some e =>
    if e.block_id = .zero then
      .error (.assert_exception "Empty block_id in block_database (maybe corrupt on disk?)")
    else .ok e.block_id

/-- Unpacks the block of an entry; nothing is unpacked from no bytes. -/
def unpack (e : IndexEntry) (B : Blocks O) : Option (Block O) :=
  if e.stored then
    match B.blocks[e.block_pos]? with
    | some b => if b.id digest = e.block_id then some b else none
    | none => none
  else none

/-- `block_database::fetch_optional`. -/
def fetch_optional (id : BlockId) (B : Blocks O) : Option (Block O) :=
  match B.index[id.num]? with
  | none => none
  | some e => if e.block_id ≠ id then none else unpack digest e B

/-- `block_database::fetch_by_number`. -/
def fetch_by_number (num : Nat) (B : Blocks O) : Option (Block O) :=
  match B.index[num]? with
  | none => none
  | some e => unpack digest e B

/-- `block_database::last`: the last entry whose size is not zero; its id is not
    checked. -/
def last (B : Blocks O) : Option (Block O) :=
  match B.index.reverse.find? (fun e => e.stored) with
  | some e => B.blocks[e.block_pos]?
  | none => none

/-! ### What storing and removing leave alone -/

variable {digest}

theorem writeEntry_other {index : List IndexEntry} {num n : Nat} {e x : IndexEntry} (other : n ≠ num)
    (present : index[n]? = some x) : (writeEntry index num e)[n]? = some x := by
  have inside : n < index.length := (List.getElem?_eq_some_iff.mp present).1
  rw [writeEntry,List.getElem?_set_ne (Ne.symm other),List.getElem?_append_left inside]
  exact present

theorem writeEntry_same (index : List IndexEntry) (num : Nat) (e : IndexEntry) :
    (writeEntry index num e)[num]? = some e := by
  rw [writeEntry,List.getElem?_set_self]
  simp only [List.length_append,List.length_replicate]
  omega

theorem fetch_by_number_some {num : Nat} {B : Blocks O} {b : Block O} (found : fetch_by_number digest num B = some b) :
    ∃ e, B.index[num]? = some e ∧ e.stored = true ∧ B.blocks[e.block_pos]? = some b ∧ b.id digest = e.block_id := by
  unfold fetch_by_number at found
  cases entry : B.index[num]? with
  | none => simp [entry] at found
  | some e =>
    simp only [entry,unpack] at found
    cases stored : e.stored with
    | false => simp [stored] at found
    | true =>
      cases block : B.blocks[e.block_pos]? with
      | none => simp [stored,block] at found
      | some b' =>
        by_cases same : b'.id digest = e.block_id
        · simp only [stored,block,same,if_true,Option.some.injEq] at found
          subst found
          exact ⟨e,rfl,stored,block,same⟩
        · simp [stored,block,same] at found

/-- The id of a block that is found under its number is found there too. -/
theorem fetch_block_id_of_found {num : Nat} {B : Blocks O} {b : Block O} (found : fetch_by_number digest num B = some b) :
    fetch_block_id num B = .ok (b.id digest) := by
  obtain ⟨e,entry,_,_,named⟩ := fetch_by_number_some found
  have given : e.block_id ≠ .zero := by
    intro zero
    rw [zero] at named
    exact absurd (congrArg BlockId.num named) (Nat.succ_ne_zero _)
  simp [fetch_block_id,entry,given,named]

/-- A block that is found under the highest number is the last one. -/
theorem last_of_found {num : Nat} {B : Blocks O} {b : Block O} (found : fetch_by_number digest num B = some b)
    (short : B.index.length ≤ num + 1) : last B = some b := by
  obtain ⟨e,entry,stored,block,_⟩ := fetch_by_number_some found
  obtain ⟨inside,isEntry⟩ := List.getElem?_eq_some_iff.mp entry
  have shape : B.index = B.index.take num ++ [e] := by
    rw [← isEntry,List.take_append_getElem inside,List.take_of_length_le short]
  rw [last,shape,List.reverse_append,List.reverse_singleton,List.singleton_append,List.find?_cons_of_pos stored]
  exact block

theorem fetch_by_number_store_other {num : Nat} {B : Blocks O} {b c : Block O} {id : BlockId} (given : id ≠ .zero)
    (other : num ≠ id.num) (found : fetch_by_number digest num B = some b) :
    fetch_by_number digest num (store digest id c B) = some b := by
  obtain ⟨e,entry,stored,block,same⟩ := fetch_by_number_some found
  have inside : e.block_pos < B.blocks.length := (List.getElem?_eq_some_iff.mp block).1
  simp only [fetch_by_number,store,given,if_false,writeEntry_other other entry,unpack,stored,if_true]
  rw [List.getElem?_append_left inside,block]
  simp [same]

theorem fetch_by_number_store_same (B : Blocks O) {b : Block O} (given : b.id digest ≠ .zero) :
    fetch_by_number digest b.block_num (store digest (b.id digest) b B) = some b := by
  have entry := writeEntry_same B.index b.block_num ⟨B.blocks.length,true,b.id digest⟩
  simp [fetch_by_number,store,given,entry,unpack]

theorem fetch_by_number_remove_other {num : Nat} {B B' : Blocks O} {id : BlockId} (other : num ≠ id.num)
    (removed : remove id B = .ok B') : fetch_by_number digest num B' = fetch_by_number digest num B := by
  unfold remove at removed
  cases entry : B.index[id.num]? with
  | none => simp [entry] at removed
  | some e =>
    simp only [entry] at removed
    split at removed
    · cases removed
      simp only [fetch_by_number,List.getElem?_set_ne (Ne.symm other)]
      rfl
    · cases removed; rfl

/-! ### A block whose entry is gone -/

/-- No entry that counts has the id. -/
def Lacks (id : BlockId) (B : Blocks O) : Prop :=
  ∀ e, B.index[id.num]? = some e → e.stored = true → e.block_id ≠ id

omit digest in
theorem lacks_remove {id gone : BlockId} {B B' : Blocks O} (removed : remove gone B = .ok B') (lacks : Lacks id B) :
    Lacks id B' := by
  unfold remove at removed
  cases entry : B.index[gone.num]? with
  | none => simp [entry] at removed
  | some e =>
    simp only [entry] at removed
    split at removed
    · cases removed
      intro x there stored
      have there : (B.index.set gone.num { e with stored := false })[id.num]? = some x := there
      by_cases same : gone.num = id.num
      · rw [same,List.getElem?_set_self'] at there
        rw [same] at entry
        simp only [entry,Option.map_eq_map,Option.map_some,Option.some.injEq] at there
        rw [← there] at stored
        cases stored
      · rw [List.getElem?_set_ne same] at there
        exact lacks x there stored
    · cases removed; exact lacks

omit digest in
theorem lacks_removed {id : BlockId} {B B' : Blocks O} (removed : remove id B = .ok B') : Lacks id B' := by
  unfold remove at removed
  cases entry : B.index[id.num]? with
  | none => simp [entry] at removed
  | some e =>
    simp only [entry] at removed
    split at removed
    · cases removed
      intro x there stored
      have there : (B.index.set id.num { e with stored := false })[id.num]? = some x := there
      rw [List.getElem?_set_self'] at there
      simp only [entry,Option.map_eq_map,Option.map_some,Option.some.injEq] at there
      rw [← there] at stored
      cases stored
    · next other =>
      cases removed
      intro x there _
      rw [entry] at there
      cases there
      exact other

private theorem writeEntry_cases {index : List IndexEntry} {num n : Nat} {e x : IndexEntry}
    (there : (writeEntry index num e)[n]? = some x) :
    n = num ∧ x = e ∨ index[n]? = some x ∨ x = .blank := by
  by_cases same : n = num
  · rw [same,writeEntry_same] at there
    exact .inl ⟨same,(Option.some.inj there).symm⟩
  · rw [writeEntry,List.getElem?_set_ne (Ne.symm same)] at there
    by_cases inside : n < index.length
    · rw [List.getElem?_append_left inside] at there
      exact .inr (.inl there)
    · rw [List.getElem?_append_right (by omega)] at there
      exact .inr (.inr (List.eq_of_mem_replicate (List.mem_of_getElem? there)))

theorem lacks_store {id stored : BlockId} {b : Block O} {B : Blocks O} (given : stored ≠ .zero) (other : stored ≠ id)
    (lacks : Lacks id B) : Lacks id (store digest stored b B) := by
  intro x there isStored
  simp only [store,given,if_false] at there
  rcases writeEntry_cases there with ⟨_,rfl⟩ | old | rfl
  · exact other
  · exact lacks x old isStored
  · cases isStored

/-- A block whose entry is gone is not found under its number. -/
theorem lacks_fetch {b : Block O} {B : Blocks O} (lacks : Lacks (b.id digest) B) :
    fetch_by_number digest b.block_num B ≠ some b := by
  intro found
  obtain ⟨e,entry,stored,_,named⟩ := fetch_by_number_some found
  exact lacks e entry stored named.symm

end

end Decent.BlockDatabase

import Decent.Lib.Codec

/-!
Extensions of an operation: the number of the members that are set, then each of them behind its
place. The reader visits every member once and holds one place that it has read ahead.
-/
namespace Decent.Extensions
open Codec

/-- A member of a reflected type, `optional<value_type>`. -/
structure Member where
  value_type : Type
  codec : Canonical UInt8 value_type

/-- The members of an object, in the order of the reflection. -/
def Object : List Member → Type
  | [] => Unit
  | m :: ms => Option m.value_type × Object ms

/-- A reflected type of optional members. Its places are words of 32 bits. -/
structure Reflected where
  members : List Member
  few : members.length < 2 ^ 32

section
variable (unsigned_int : Canonical UInt8 UInt32)

/-! ### Writing -/

/-- `graphene_extension_pack_count_visitor` -/
def pack_count : (ms : List Member) → Object ms → (count : UInt32) → UInt32
  | [], _, count => count
  | _ :: ms, (member,value), count => pack_count ms value (count + if member.isSome then 1 else 0)

/-- `graphene_extension_pack_read_visitor` -/
def pack_read : (ms : List Member) → Object ms → (which : UInt32) → List UInt8
  | [], _, _ => []
  | m :: ms, (member,value), which =>
    (match member with
      | some held => unsigned_int.pack which ++ m.codec.pack held
      | none => []) ++ pack_read ms value (which + 1)

/-- `operator<<` -/
def pack (T : Reflected) (value : Object T.members) : List UInt8 :=
  unsigned_int.pack (pack_count T.members value 0) ++ pack_read unsigned_int T.members value 0

/-! ### Reading -/

/-- `graphene_extension_unpack_visitor` -/
structure Visitor where
  which : UInt32
  next_which : UInt32
  count_left : UInt32
  stream : List UInt8

def maybe_read_next_which (visitor : Visitor) : Option Visitor :=
  if 0 < visitor.count_left then do
    let (w,stream) ← unsigned_int.unpack visitor.stream
    some { visitor with next_which := w, stream := stream }
  else some visitor

def unpack_member (m : Member) (visitor : Visitor) : Option (Option m.value_type × Visitor) :=
  (if 0 < visitor.count_left ∧ visitor.which = visitor.next_which then do
    let (temp,stream) ← m.codec.unpack visitor.stream
    let visitor ← maybe_read_next_which unsigned_int
      { visitor with stream := stream, count_left := visitor.count_left - 1 }
    some (some temp,visitor)
  else some (none,visitor)).map fun read => (read.1,{ read.2 with which := read.2.which + 1 })

/-- `reflector::visit` -/
def visit : (ms : List Member) → Visitor → Option (Object ms × Visitor)
  | [], visitor => some ((),visitor)
  | m :: ms, visitor => do
    let (member,visitor) ← unpack_member unsigned_int m visitor
    let (value,visitor) ← visit ms visitor
    some ((member,value),visitor)

/-- The visitor before the first member. -/
def Visitor.start (c : UInt32) (stream : List UInt8) : Visitor :=
  { which := 0, next_which := 0, count_left := c, stream := stream }

/-- `operator>>`: the value and what it leaves of the stream. -/
def unpack (T : Reflected) (stream : List UInt8) : Option (Object T.members × List UInt8) := do
  let (c,stream) ← unsigned_int.unpack stream
  let visitor ← maybe_read_next_which unsigned_int (.start c stream)
  let (value,visitor) ← visit unsigned_int T.members visitor
  if visitor.count_left = 0 then some (value,visitor.stream) else none

end

/-! ### What is listed -/

/-- A place of a member and what the member holds. -/
def Entry (ms : List Member) : Type := (k : Fin ms.length) × (ms.get k).value_type

def Entry.first {m : Member} {ms : List Member} (held : m.value_type) : Entry (m :: ms) := ⟨0,held⟩

def Entry.later {m : Member} {ms : List Member} (e : Entry ms) : Entry (m :: ms) := ⟨e.1.succ,e.2⟩

/-- The members of an object that are set. -/
def entries : (ms : List Member) → Object ms → List (Entry ms)
  | [], _ => []
  | _ :: ms, (some held,value) => .first held :: (entries ms value).map Entry.later
  | _ :: ms, (none,value) => (entries ms value).map Entry.later

/-- Every place is behind those before it. -/
def Increasing {ms : List Member} (es : List (Entry ms)) : Prop := es.Pairwise fun a b => a.1 < b.1

theorem increasing_later {m : Member} {ms : List Member} {es : List (Entry ms)} (sorted : Increasing es) :
    Increasing (es.map (Entry.later (m := m))) :=
  List.pairwise_map.mpr (sorted.imp fun before => Fin.succ_lt_succ_iff.mpr before)

theorem increasing_entries (ms : List Member) (value : Object ms) : Increasing (entries ms value) := by
  induction ms with
  | nil => exact List.Pairwise.nil
  | cons m ms ih =>
    obtain ⟨member | held,value⟩ := value
    · exact increasing_later (ih value)
    · refine List.Pairwise.cons ?_ (increasing_later (ih value))
      intro e member
      obtain ⟨before,-,rfl⟩ := List.mem_map.mp member
      exact Fin.succ_pos before.1

theorem length_entries (ms : List Member) (value : Object ms) : (entries ms value).length ≤ ms.length := by
  induction ms with
  | nil => exact Nat.le_refl 0
  | cons m ms ih =>
    obtain ⟨member | held,value⟩ := value
    · rw [entries,List.length_map]
      exact Nat.le_succ_of_le (ih value)
    · rw [entries,List.length_cons,List.length_map]
      exact Nat.succ_le_succ (ih value)

section
variable (unsigned_int : Canonical UInt8 UInt32)

/-- An entry as it is written, for members that are visited from a place on. -/
def written {ms : List Member} (offset : ℕ) (e : Entry ms) : List UInt8 :=
  unsigned_int.pack (UInt32.ofNat (offset + e.1)) ++ (ms.get e.1).codec.pack e.2

theorem written_first {m : Member} {ms : List Member} (offset : ℕ) (held : m.value_type) :
    written unsigned_int offset (Entry.first held : Entry (m :: ms)) = unsigned_int.pack (UInt32.ofNat offset) ++ m.codec.pack held := rfl

theorem written_later {m : Member} {ms : List Member} (offset : ℕ) (e : Entry ms) :
    written unsigned_int offset (Entry.later (m := m) e) = written unsigned_int (offset + 1) e := by
  rw [written,written,Nat.add_right_comm]
  rfl

theorem flatMap_later {m : Member} {ms : List Member} (offset : ℕ) (es : List (Entry ms)) :
    (es.map (Entry.later (m := m))).flatMap (written unsigned_int offset) = es.flatMap (written unsigned_int (offset + 1)) := by
  rw [List.flatMap_map]
  exact congrArg (es.flatMap ·) (funext (written_later unsigned_int offset))

theorem ofNat_succ (n : ℕ) : UInt32.ofNat n + 1 = UInt32.ofNat (n + 1) := (UInt32.ofNat_add n 1).symm

theorem pack_count_eq (ms : List Member) (value : Object ms) (count : ℕ) :
    pack_count ms value (UInt32.ofNat count) = UInt32.ofNat (count + (entries ms value).length) := by
  induction ms generalizing count with
  | nil => rfl
  | cons m ms ih =>
    obtain ⟨member | held,value⟩ := value
    · show pack_count ms value (UInt32.ofNat count + 0) = _
      rw [UInt32.add_zero,ih,entries,List.length_map]
    · show pack_count ms value (UInt32.ofNat count + 1) = _
      rw [ofNat_succ,ih,entries,List.length_cons,List.length_map,Nat.add_right_comm,Nat.add_assoc]

theorem pack_read_eq (ms : List Member) (value : Object ms) (offset : ℕ) :
    pack_read unsigned_int ms value (UInt32.ofNat offset) = (entries ms value).flatMap (written unsigned_int offset) := by
  induction ms generalizing offset with
  | nil => rfl
  | cons m ms ih =>
    obtain ⟨member | held,value⟩ := value
    · rw [pack_read,ofNat_succ,ih,entries,flatMap_later]
      rfl
    · rw [pack_read,ofNat_succ,ih,entries,List.flatMap_cons,flatMap_later]
      rfl

/-- The bytes of an object: the number of its entries, then every entry. -/
theorem pack_eq (T : Reflected) (value : Object T.members) : pack unsigned_int T value =
    unsigned_int.pack (UInt32.ofNat (entries T.members value).length) ++ (entries T.members value).flatMap (written unsigned_int 0) := by
  have count := pack_count_eq T.members value 0
  rw [Nat.zero_add] at count
  have read := pack_read_eq unsigned_int T.members value 0
  exact congrArg₂ (· ++ ·) (congrArg unsigned_int.pack count) read

end

/-! ### The reader -/

section
variable {unsigned_int : Canonical UInt8 UInt32}

/-- What is to be read, with the place that is read ahead. -/
def Visitor.pending (unsigned_int : Canonical UInt8 UInt32) (visitor : Visitor) : List UInt8 :=
  if 0 < visitor.count_left then unsigned_int.pack visitor.next_which ++ visitor.stream else visitor.stream

theorem maybe_read_some {visitor next : Visitor} (read : maybe_read_next_which unsigned_int visitor = some next) :
    next.which = visitor.which ∧ next.count_left = visitor.count_left ∧ next.pending unsigned_int = visitor.stream := by
  unfold maybe_read_next_which at read
  split at read
  · rename_i left
    obtain ⟨⟨w,stream⟩,found,same⟩ := Option.bind_eq_some_iff.mp read
    cases same
    exact ⟨rfl,rfl,(if_pos left).trans (unsigned_int.pack_unpack found).symm⟩
  · rename_i none_left
    cases read
    exact ⟨rfl,rfl,if_neg none_left⟩

theorem maybe_read_exists {ms : List Member} {visitor : Visitor} {es : List (Entry ms)} {offset : ℕ} {rest : List UInt8}
    (left : visitor.count_left.toNat = es.length) (bytes : visitor.stream = es.flatMap (written unsigned_int offset) ++ rest) :
    ∃ next, maybe_read_next_which unsigned_int visitor = some next := by
  unfold maybe_read_next_which
  split
  · rename_i some_left
    cases es with
    | nil => exact absurd left (Nat.ne_of_gt (UInt32.lt_iff_toNat_lt.mp some_left))
    | cons e es =>
      rw [List.flatMap_cons,written,List.append_assoc,List.append_assoc] at bytes
      rw [bytes,unsigned_int.unpack_pack]
      exact ⟨_,rfl⟩
  · exact ⟨_,rfl⟩

/-- A visit of a member takes its entry, or leaves everything as it was. -/
theorem unpack_member_cases {m : Member} {visitor next : Visitor} {member : Option m.value_type}
    (read : unpack_member unsigned_int m visitor = some (member,next)) :
    next.which = visitor.which + 1 ∧
      ((∃ held, member = some held ∧ visitor.count_left.toNat = next.count_left.toNat + 1 ∧
        visitor.pending unsigned_int = unsigned_int.pack visitor.which ++ (m.codec.pack held ++ next.pending unsigned_int)) ∨
      (member = none ∧ next.count_left = visitor.count_left ∧ next.pending unsigned_int = visitor.pending unsigned_int)) := by
  obtain ⟨⟨taken,after⟩,inner,same⟩ := Option.map_eq_some_iff.mp read
  split at inner
  · rename_i here
    obtain ⟨⟨temp,stream⟩,found,inner⟩ := Option.bind_eq_some_iff.mp inner
    obtain ⟨ahead,moved,kept⟩ := Option.bind_eq_some_iff.mp inner
    cases kept
    cases same
    obtain ⟨which,count,pending⟩ := maybe_read_some moved
    refine ⟨congrArg (· + 1) which,.inl ⟨temp,rfl,?_,?_⟩⟩
    · show visitor.count_left.toNat = after.count_left.toNat + 1
      have positive := UInt32.lt_iff_toNat_lt.mp here.1
      have one : (1 : UInt32) ≤ visitor.count_left := UInt32.le_iff_toNat_le.mpr positive
      rw [count,UInt32.toNat_sub_of_le _ _ one]
      exact (Nat.sub_add_cancel positive).symm
    · refine (if_pos here.1).trans ?_
      rw [← here.2,m.codec.pack_unpack found]
      exact congrArg (fun more => unsigned_int.pack visitor.which ++ (m.codec.pack temp ++ more)) pending.symm
  · cases inner
    cases same
    exact ⟨rfl,.inr ⟨rfl,rfl,rfl⟩⟩

/-- What has been visited to its end was listed. -/
theorem visit_sound {ms : List Member} {offset : ℕ} {visitor last : Visitor} {value : Object ms}
    (place : visitor.which = UInt32.ofNat offset) (read : visit unsigned_int ms visitor = some (value,last))
    (done : last.count_left = 0) :
    visitor.count_left.toNat = (entries ms value).length ∧
      visitor.pending unsigned_int = (entries ms value).flatMap (written unsigned_int offset) ++ last.stream := by
  induction ms generalizing offset visitor with
  | nil =>
    cases read
    refine ⟨congrArg UInt32.toNat done,?_⟩
    rw [Visitor.pending,done]
    rfl
  | cons m ms ih =>
    obtain ⟨⟨member,next⟩,first,read⟩ := Option.bind_eq_some_iff.mp read
    obtain ⟨⟨behind,reached⟩,others,same⟩ := Option.bind_eq_some_iff.mp read
    cases same
    obtain ⟨moved,outcome⟩ := unpack_member_cases first
    have place' : next.which = UInt32.ofNat (offset + 1) := by rw [moved,place,ofNat_succ]
    obtain ⟨count,bytes⟩ := ih place' others
    rcases outcome with ⟨held,rfl,less,pending⟩ | ⟨rfl,kept,pending⟩
    · refine ⟨?_,?_⟩
      · rw [less,count,entries,List.length_cons,List.length_map]
      · rw [pending,bytes,place,entries,List.flatMap_cons,flatMap_later,written_first,List.append_assoc,List.append_assoc]
    · refine ⟨?_,?_⟩
      · rw [← kept,count,entries,List.length_map]
      · rw [← pending,bytes,entries,flatMap_later]

/-- A visit takes the entry of its member, where this is the next one. -/
theorem unpack_member_set {m : Member} {ms : List Member} {visitor : Visitor} {es : List (Entry ms)} {offset : ℕ}
    {held : m.value_type} {rest : List UInt8} (left : visitor.count_left.toNat = es.length + 1)
    (bytes : visitor.pending unsigned_int =
      unsigned_int.pack visitor.which ++ (m.codec.pack held ++ (es.flatMap (written unsigned_int offset) ++ rest))) :
    ∃ next, unpack_member unsigned_int m visitor = some (some held,next) ∧ next.which = visitor.which + 1 ∧
      next.count_left.toNat = es.length ∧
      next.pending unsigned_int = es.flatMap (written unsigned_int offset) ++ rest := by
  have positive : 0 < visitor.count_left := UInt32.lt_iff_toNat_lt.mpr (left ▸ Nat.succ_pos _)
  have one : (1 : UInt32) ≤ visitor.count_left := UInt32.le_iff_toNat_le.mpr (left ▸ Nat.succ_pos _)
  obtain ⟨here,stream⟩ := unsigned_int.prefixed ((if_pos positive).symm.trans bytes)
  have less : (visitor.count_left - 1).toNat = es.length := by
    rw [UInt32.toNat_sub_of_le _ _ one,left]
    exact Nat.add_sub_cancel _ _
  have opened : ∃ ahead, maybe_read_next_which unsigned_int { visitor with
      stream := es.flatMap (written unsigned_int offset) ++ rest, count_left := visitor.count_left - 1 } = some ahead :=
    maybe_read_exists less rfl
  obtain ⟨ahead,moved⟩ := opened
  obtain ⟨which,count,pending⟩ := maybe_read_some moved
  refine ⟨{ ahead with which := ahead.which + 1 },?_,congrArg (· + 1) which,?_,pending⟩
  · rw [unpack_member,if_pos ⟨positive,here.symm⟩,stream,m.codec.unpack_pack]
    show Option.map _ ((maybe_read_next_which unsigned_int _).bind _) = _
    rw [moved]
    rfl
  · rw [show ahead.count_left = _ from count]
    exact less

/-- A member that is not listed is passed, since the next place is behind it. -/
theorem unpack_member_unset {m : Member} {ms : List Member} {visitor : Visitor} {es : List (Entry ms)} {offset : ℕ}
    {rest : List UInt8} (room : offset + 1 + ms.length ≤ 2 ^ 32) (place : visitor.which = UInt32.ofNat offset)
    (left : visitor.count_left.toNat = es.length)
    (bytes : visitor.pending unsigned_int = es.flatMap (written unsigned_int (offset + 1)) ++ rest) :
    unpack_member unsigned_int m visitor = some (none,{ visitor with which := visitor.which + 1 }) := by
  have elsewhere : ¬(0 < visitor.count_left ∧ visitor.which = visitor.next_which) := by
    rintro ⟨positive,here⟩
    cases es with
    | nil => exact absurd left (Nat.ne_of_gt (UInt32.lt_iff_toNat_lt.mp positive))
    | cons e es =>
      rw [List.flatMap_cons,written,List.append_assoc,List.append_assoc] at bytes
      obtain ⟨next,-⟩ := unsigned_int.prefixed ((if_pos positive).symm.trans bytes)
      have same := congrArg UInt32.toNat (place.symm.trans (here.trans next))
      have bound := e.1.isLt
      rw [UInt32.toNat_ofNat',UInt32.toNat_ofNat',Nat.mod_eq_of_lt (by omega),Nat.mod_eq_of_lt (by omega)] at same
      omega
  rw [unpack_member,if_neg elsewhere]
  rfl

/-- What lists the entries of an object is visited to its end. -/
theorem visit_complete {ms : List Member} {offset : ℕ} {visitor : Visitor} {rest : List UInt8} (value : Object ms)
    (room : offset + ms.length ≤ 2 ^ 32) (place : visitor.which = UInt32.ofNat offset)
    (left : visitor.count_left.toNat = (entries ms value).length)
    (bytes : visitor.pending unsigned_int = (entries ms value).flatMap (written unsigned_int offset) ++ rest) :
    ∃ last, visit unsigned_int ms visitor = some (value,last) ∧ last.count_left = 0 ∧ last.stream = rest := by
  induction ms generalizing offset visitor with
  | nil =>
    have done : visitor.count_left = 0 := UInt32.toNat_inj.mp left
    refine ⟨visitor,rfl,done,?_⟩
    rw [Visitor.pending,done] at bytes
    exact bytes
  | cons m ms ih =>
    have room' : offset + 1 + ms.length ≤ 2 ^ 32 := by
      rw [Nat.add_right_comm]
      exact room
    obtain ⟨member | held,value⟩ := value
    · rw [entries,List.length_map] at left
      rw [entries,flatMap_later] at bytes
      have first := unpack_member_unset (m := m) room' place left bytes
      have passed : ({ visitor with which := visitor.which + 1 } : Visitor).which = UInt32.ofNat (offset + 1) := by
        rw [place,ofNat_succ]
      obtain ⟨last,others,done⟩ := ih value room' passed left bytes
      refine ⟨last,?_,done⟩
      rw [visit,first]
      show (visit unsigned_int ms _).bind _ = _
      rw [others]
      rfl
    · rw [entries,List.length_cons,List.length_map] at left
      rw [entries,List.flatMap_cons,flatMap_later,written_first,List.append_assoc,List.append_assoc,← place] at bytes
      obtain ⟨next,first,moved,less,pending⟩ := unpack_member_set left bytes
      obtain ⟨last,others,done⟩ := ih value room' (by rw [moved,place,ofNat_succ]) less pending
      refine ⟨last,?_,done⟩
      rw [visit,first]
      show (visit unsigned_int ms next).bind _ = _
      rw [others]
      rfl

end

/-! ### One encoding -/

section
variable (unsigned_int : Canonical UInt8 UInt32) (T : Reflected)

theorem unpack_pack (value : Object T.members) (rest : List UInt8) :
    unpack unsigned_int T (pack unsigned_int T value ++ rest) = some (value,rest) := by
  have few := Nat.lt_of_le_of_lt (length_entries T.members value) T.few
  have count : (UInt32.ofNat (entries T.members value).length).toNat = (entries T.members value).length := by
    rw [UInt32.toNat_ofNat',Nat.mod_eq_of_lt few]
  have opened : ∃ visitor, maybe_read_next_which unsigned_int (.start (UInt32.ofNat (entries T.members value).length)
      ((entries T.members value).flatMap (written unsigned_int 0) ++ rest)) = some visitor :=
    maybe_read_exists count rfl
  obtain ⟨visitor,moved⟩ := opened
  obtain ⟨place,left,pending⟩ := maybe_read_some moved
  obtain ⟨last,read,done,stream⟩ := visit_complete value (by rw [Nat.zero_add]; exact T.few.le) place
    (left.symm ▸ count) pending
  rw [pack_eq,List.append_assoc,unpack,unsigned_int.unpack_pack]
  show (maybe_read_next_which unsigned_int _).bind _ = _
  rw [moved]
  show (visit unsigned_int T.members visitor).bind _ = _
  rw [read]
  show (if last.count_left = 0 then some (value,last.stream) else none) = _
  rw [if_pos done,stream]

/-- What is read was written. -/
theorem pack_unpack {bytes rest : List UInt8} {value : Object T.members}
    (read : unpack unsigned_int T bytes = some (value,rest)) : bytes = pack unsigned_int T value ++ rest := by
  obtain ⟨⟨c,stream⟩,counted,read⟩ := Option.bind_eq_some_iff.mp read
  obtain ⟨visitor,moved,read⟩ := Option.bind_eq_some_iff.mp read
  obtain ⟨⟨value,last⟩,visited,read⟩ := Option.bind_eq_some_iff.mp read
  obtain ⟨done,same⟩ := Option.ite_none_right_eq_some.mp read
  cases same
  obtain ⟨place,left,pending⟩ := maybe_read_some moved
  obtain ⟨count,listed⟩ := visit_sound place visited done
  have number : c = UInt32.ofNat (entries T.members value).length := by
    rw [← count,left]
    exact UInt32.ofNat_toNat.symm
  rw [unsigned_int.pack_unpack counted,pack_eq,List.append_assoc,← listed,pending,← number]
  rfl

/-- The entries of an extension as a codec, so that extensions can be members. -/
def extension : Canonical UInt8 (Object T.members) where
  pack := pack unsigned_int T
  unpack := unpack unsigned_int T
  unpack_pack := unpack_pack unsigned_int T
  pack_unpack := pack_unpack unsigned_int T

theorem prefixed_written : Prefixed (written unsigned_int 0 : Entry T.members → List UInt8) := by
  have places : Prefixed fun k : Fin T.members.length => unsigned_int.pack (UInt32.ofNat (0 + k)) := by
    intro k l x y same
    obtain ⟨words,rest⟩ := unsigned_int.prefixed same
    have bound := T.few
    have words := congrArg UInt32.toNat words
    rw [UInt32.toNat_ofNat',UInt32.toNat_ofNat',Nat.mod_eq_of_lt (by omega),Nat.mod_eq_of_lt (by omega)] at words
    exact ⟨by omega,rest⟩
  exact places.tagged fun k => (T.members.get k).codec.prefixed

/-- Where further entries are announced, only a known place behind those before it is read. -/
theorem unpack_misplaced {c w : UInt32} {es : List (Entry T.members)} (more : List UInt8) (announced : es.length < c.toNat)
    (misplaced : T.members.length ≤ w.toNat ∨ ∃ e ∈ es, w.toNat ≤ e.1) :
    unpack unsigned_int T (unsigned_int.pack c ++ (es.flatMap (written unsigned_int 0) ++ (unsigned_int.pack w ++ more))) = none := by
  refine Option.eq_none_iff_forall_ne_some.mpr ?_
  rintro ⟨value,rest⟩ read
  have same := pack_unpack unsigned_int T read
  rw [pack_eq,List.append_assoc] at same
  obtain ⟨rfl,tails⟩ := unsigned_int.prefixed same
  have few := Nat.lt_of_le_of_lt (length_entries T.members value) T.few
  rw [UInt32.toNat_ofNat',Nat.mod_eq_of_lt few] at announced
  obtain ⟨cs,whole,tails⟩ := (prefixed_written unsigned_int T).sequence announced.le tails
  have sorted := increasing_entries T.members value
  rw [whole] at announced sorted
  cases cs with
  | nil => exact absurd announced (by rw [List.append_nil]; exact Nat.lt_irrefl _)
  | cons e cs =>
    rw [List.flatMap_cons,written,List.append_assoc,List.append_assoc] at tails
    obtain ⟨rfl,-⟩ := unsigned_int.prefixed tails
    have place : (UInt32.ofNat (0 + e.1)).toNat = e.1 := by
      rw [Nat.zero_add,UInt32.toNat_ofNat',Nat.mod_eq_of_lt (e.1.isLt.trans T.few)]
    rw [place] at misplaced
    rcases misplaced with unknown | ⟨d,before,behind⟩
    · exact absurd e.1.isLt (Nat.not_lt.mpr unknown)
    · exact absurd ((List.pairwise_append.mp sorted).2.2 d before e List.mem_cons_self) (Nat.not_lt.mpr behind)

/-- An extension is read as it was written, and nothing else is: the members that are set, each once and in order. -/
theorem extension_canonical :
    (∀ (value : Object T.members) (rest : List UInt8),
      unpack unsigned_int T (pack unsigned_int T value ++ rest) = some (value,rest)) ∧
    (∀ (bytes : List UInt8) (value : Object T.members) (rest : List UInt8),
      unpack unsigned_int T bytes = some (value,rest) → bytes = pack unsigned_int T value ++ rest ∧
        ∃ es : List (Entry T.members), Increasing es ∧
          bytes = unsigned_int.pack (UInt32.ofNat es.length) ++ (es.flatMap (written unsigned_int 0) ++ rest)) ∧
    (∀ (c w : UInt32) (es : List (Entry T.members)) (more : List UInt8), es.length < c.toNat →
      (T.members.length ≤ w.toNat ∨ ∃ e ∈ es, w.toNat ≤ e.1) →
      unpack unsigned_int T (unsigned_int.pack c ++ (es.flatMap (written unsigned_int 0) ++ (unsigned_int.pack w ++ more))) = none) := by
  refine ⟨(extension unsigned_int T).unpack_pack,fun bytes value rest read => ?_,
    fun c w es more announced misplaced => unpack_misplaced unsigned_int T more announced misplaced⟩
  have same := (extension unsigned_int T).pack_unpack read
  refine ⟨same,entries T.members value,increasing_entries T.members value,?_⟩
  rw [← List.append_assoc,← pack_eq]
  exact same

end

/-- `void_t` -/
def void_t : Canonical UInt8 Unit where
  pack _ := []
  unpack text := some ((),text)
  unpack_pack _ _ := rfl
  pack_unpack read := by cases read; rfl

/-- `account_create_operation::ext` -/
def ext : Reflected where
  members := [{ value_type := Unit, codec := void_t }]
  few := by decide

/-- The only member, set; the same place again. -/
theorem extension_canonical_ext :
    unpack varint ext (pack varint ext (some (),()) ++ [7]) = some ((some (),()),[7]) ∧
      [1,0,7] = pack varint ext (some (),()) ++ [7] ∧
      unpack varint ext [2,0,0] = none :=
  ⟨(extension_canonical varint ext).1 (some (),()) [7],
    ((extension_canonical varint ext).2.1 [1,0,7] (some (),()) [7] rfl).1,
    (extension_canonical varint ext).2.2 2 0 [.first ()] [] (by decide) (.inr ⟨.first (),List.mem_singleton_self _,by decide⟩)⟩

end Decent.Extensions

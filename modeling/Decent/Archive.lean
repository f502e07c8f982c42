import Decent.Lib.Bytes
import Mathlib.Data.List.TakeWhile
import Mathlib.Algebra.Ring.Nat

/-!
The archive of a package. Each file is a header of one size, with its name and the number of its
bytes, and the bytes behind it; a blank header ends the archive. A file without bytes makes the
output stream fail, so nothing is written behind its header: an archive brings back the files up to the
first empty one.
-/
namespace Decent.Package
open Bytes

/-- A file under its path in the archive. -/
structure ArchiveFile where
  name : List UInt8
  content : List UInt8
deriving DecidableEq

/-! ### Archiver -/

def ArchiveHeader_sizeof_version_1 : Nat := 304

/-- Bytes in a field of one width, with zeros behind them. -/
def field (width : Nat) (bytes : List UInt8) : List UInt8 := bytes ++ List.replicate (width - bytes.length) 0

/-- A string as C reads it. -/
def c_str (bytes : List UInt8) : List UInt8 := bytes.takeWhile (· ≠ 0)

/-- The `ArchiveHeader` of a file: `version`, three reserved bytes, `name`, `size` and more reserved bytes. Only the
    lower half of `size` is written, as an `int`. -/
def archive_header (file_name : List UInt8) (file_size : Nat) : List UInt8 :=
  [1,0,0,0] ++ (field 256 ((c_str file_name).take 255) ++ (little 4 file_size ++ List.replicate 40 0))

/-- `filtering_ostream`: what was written, and whether nothing has failed. -/
structure OutStream where
  written : List UInt8
  good : Bool

def OutStream.write (bytes : List UInt8) (out : OutStream) : OutStream :=
  if out.good then { out with written := out.written ++ bytes } else out

/-- `operator<<` of a stream buffer fails if there is nothing to insert. -/
def OutStream.insert (content : List UInt8) (out : OutStream) : OutStream :=
  if out.good then ⟨out.written ++ content,!content.isEmpty⟩ else out

/-- `Archiver::put` -/
def put (out : OutStream) (file : ArchiveFile) : OutStream :=
  (out.write (archive_header file.name file.content.length)).insert file.content

/-- An `Archiver` that is given some files. Its destructor writes a blank header. -/
def archive (files : List ArchiveFile) : List UInt8 :=
  ((files.foldl put ⟨[],true⟩).write (List.replicate ArchiveHeader_sizeof_version_1 0)).written

/-! ### Dearchiver -/

/-- What ends an extraction before its time. Reading past the end of a stream buffer is undefined. -/
inductive Fault
  | unexpected_size
  | undefined
deriving DecidableEq

/-- `filtering_istream`: what is still to be read, and whether nothing has failed. -/
structure InStream where
  unread : List UInt8
  good : Bool

def InStream.read (n : Nat) (s : InStream) : List UInt8 × InStream :=
  if s.good then (s.unread.take n,⟨s.unread.drop n,n ≤ s.unread.length⟩) else ([],s)

/-- The loop of `Dearchiver::extract`, with the files that are written so far. Every header that it goes on with takes
    a byte at least. -/
def extract_on : Nat → InStream → List ArchiveFile → List ArchiveFile × Option Fault
  | 0, _, files => (files,none)
  | rounds + 1, s, files =>
    let (bytes,s) := s.read ArchiveHeader_sizeof_version_1
    let header := field ArchiveHeader_sizeof_version_1 bytes
    let name := c_str ((header.drop 4).take 256)
    if header.head? ≠ some 1 ∨ name = [] then (files,none) else
      let bytes_to_read := value ((header.drop 260).take 4)
      if 2^31 ≤ bytes_to_read then
        (files ++ [⟨name,[]⟩],some .unexpected_size)
      else if s.unread.length < bytes_to_read then
        (files ++ [⟨name,s.unread⟩],some .undefined)
      else
        -- `copy_n` stays on the last byte, which the read of one more takes
        let (_,next) := InStream.read 1 { s with unread := s.unread.drop (bytes_to_read - 1) }
        extract_on rounds next (files ++ [⟨name,s.unread.take bytes_to_read⟩])

/-- `Dearchiver::extract`: the files it writes, and how it fails. -/
def extract (bytes : List UInt8) : List ArchiveFile × Option Fault := extract_on (bytes.length + 1) ⟨bytes,true⟩ []

/-! ### The bytes of an archive -/

/-- The files that a header can tell of. -/
structure Storable (file : ArchiveFile) : Prop where
  named : file.name ≠ []
  nonzero : ∀ b ∈ file.name, b ≠ 0
  short : file.name.length ≤ 255
  small : file.content.length < 2^31

instance (file : ArchiveFile) : Decidable (Storable file) :=
  decidable_of_iff (file.name ≠ [] ∧ file.name.all (· != 0) = true ∧ file.name.length ≤ 255 ∧ file.content.length < 2^31)
    ⟨fun ⟨named,nonzero,short,small⟩ => ⟨named,by simpa using nonzero,short,small⟩,
      fun storable => ⟨storable.named,by simpa using storable.nonzero,storable.short,storable.small⟩⟩

/-- An archive of some files: behind an empty one there is nothing. -/
def archived : List ArchiveFile → List UInt8
  | [] => List.replicate ArchiveHeader_sizeof_version_1 0
  | file :: rest => archive_header file.name file.content.length ++
      (file.content ++ if file.content = [] then [] else archived rest)

theorem put_failed (files : List ArchiveFile) (written : List UInt8) : files.foldl put ⟨written,false⟩ = ⟨written,false⟩ := by
  induction files with
  | nil => rfl
  | cons file rest ih => exact ih

theorem archive_from (files : List ArchiveFile) (written : List UInt8) :
    ((files.foldl put ⟨written,true⟩).write (List.replicate ArchiveHeader_sizeof_version_1 0)).written = written ++ archived files := by
  induction files generalizing written with
  | nil => rfl
  | cons file rest ih =>
    have first : put ⟨written,true⟩ file =
        ⟨written ++ archive_header file.name file.content.length ++ file.content,!file.content.isEmpty⟩ := rfl
    rw [List.foldl_cons,first,archived]
    by_cases empty : file.content = []
    · rw [if_pos empty,empty]
      simp only [List.isEmpty_nil,Bool.not_true]
      rw [put_failed]
      simp [OutStream.write]
    · have more : (!file.content.isEmpty) = true := by simpa using empty
      rw [if_neg empty,more,ih]
      simp only [List.append_assoc]

theorem archive_eq (files : List ArchiveFile) : archive files = archived files := archive_from files []

@[simp] theorem length_field {width : Nat} {bytes : List UInt8} (fits : bytes.length ≤ width) : (field width bytes).length = width := by
  rw [field,List.length_append,List.length_replicate,Nat.add_sub_of_le fits]

theorem length_archive_header (name : List UInt8) (size : Nat) :
    (archive_header name size).length = ArchiveHeader_sizeof_version_1 := by
  have fits : ((c_str name).take 255).length ≤ 256 := (List.length_take_le ..).trans (by decide)
  simp only [archive_header,List.length_append,length_field fits,length_little,List.length_replicate]
  rfl

theorem c_str_field {name : List UInt8} (nonzero : ∀ b ∈ name, b ≠ 0) {width : Nat} : c_str (field width name) = name := by
  have zeros (n : Nat) : (List.replicate n (0 : UInt8)).takeWhile (· ≠ 0) = [] := by cases n <;> rfl
  rw [c_str,field,List.takeWhile_append_of_pos (by simpa using nonzero),zeros,List.append_nil]

/-- The name and the size in the header of a file. -/
theorem header_fields {file : ArchiveFile} (storable : Storable file) :
    let header := archive_header file.name file.content.length
    header.head? = some 1 ∧ c_str ((header.drop 4).take 256) = file.name ∧
      value ((header.drop 260).take 4) = file.content.length := by
  have name : (c_str file.name).take 255 = file.name := by
    rw [c_str,List.takeWhile_eq_self_iff.mpr (by simpa using storable.nonzero),List.take_of_length_le storable.short]
  have width : (field 256 file.name).length = 256 := length_field (storable.short.trans (by decide))
  rw [archive_header,name]
  refine ⟨rfl,?_,?_⟩
  · show c_str ((field 256 file.name ++ _).take 256) = _
    rw [List.take_left' width,c_str_field storable.nonzero]
  · show value (((field 256 file.name ++ _).drop 256).take 4) = _
    rw [List.drop_left' width,List.take_left' (length_little ..),value_little]
    exact Nat.mod_eq_of_lt (storable.small.trans (by decide))

/-! ### Round trip -/

/-- The files that come back: the first empty one is the last. -/
def arriving : List ArchiveFile → List ArchiveFile
  | [] => []
  | file :: rest => file :: if file.content = [] then [] else arriving rest

/-- A file is taken off the stream. -/
theorem extract_file {file : ArchiveFile} (storable : Storable file) (rounds : Nat) (rest : List UInt8) (files : List ArchiveFile) :
    extract_on (rounds + 1) ⟨archive_header file.name file.content.length ++ (file.content ++ rest),true⟩ files =
      extract_on rounds (if file.content = [] then ⟨rest.drop 1,1 ≤ rest.length⟩ else ⟨rest,true⟩) (files ++ [file]) := by
  obtain ⟨version,name,size⟩ := header_fields storable
  have length := length_archive_header file.name file.content.length
  have read : InStream.read ArchiveHeader_sizeof_version_1
      ⟨archive_header file.name file.content.length ++ (file.content ++ rest),true⟩ =
        (archive_header file.name file.content.length,⟨file.content ++ rest,true⟩) := by
    simp only [InStream.read,if_true]
    rw [List.take_left' length,List.drop_left' length,List.length_append,length]
    simp
  have whole : field ArchiveHeader_sizeof_version_1 (archive_header file.name file.content.length) =
      archive_header file.name file.content.length := by
    rw [field,length,Nat.sub_self,List.replicate_zero,List.append_nil]
  rw [extract_on,read]
  simp only [whole,version,name,size,storable.named,ne_eq,not_true_eq_false,or_self,if_false,Nat.not_le_of_lt storable.small,
    List.length_append,Nat.not_lt_of_le (Nat.le_add_right ..),List.take_left]
  congr 1
  by_cases empty : file.content = []
  · rw [if_pos empty,empty]
    simp [InStream.read]
  · rw [if_neg empty]
    obtain ⟨before,last,content⟩ := (List.eq_nil_or_concat file.content).resolve_left empty
    have split : (file.content ++ rest).drop (file.content.length - 1) = last :: rest := by
      rw [content]
      simp
    rw [split]
    simp [InStream.read]

theorem extract_blank (rounds : Nat) (s : InStream) (files : List ArchiveFile)
    (blank : s.good = false ∨ s.unread = List.replicate ArchiveHeader_sizeof_version_1 0) : extract_on rounds s files = (files,none) := by
  cases rounds with
  | zero => rfl
  | succ rounds =>
    have none : (InStream.read ArchiveHeader_sizeof_version_1 s).1 = [] ∨
        (InStream.read ArchiveHeader_sizeof_version_1 s).1 = List.replicate ArchiveHeader_sizeof_version_1 0 := by
      unfold InStream.read
      split
      · rename_i good
        refine .inr ?_
        rw [blank.resolve_left (by simp [good]),List.take_of_length_le (by simp)]
      · exact .inl rfl
    have zeros : (field ArchiveHeader_sizeof_version_1 (InStream.read ArchiveHeader_sizeof_version_1 s).1).head? ≠ some 1 := by
      rcases none with none | none <;> rw [none] <;> decide
    unfold extract_on
    exact if_pos (.inl zeros)

theorem extract_archived {files : List ArchiveFile} (storable : ∀ file ∈ files, Storable file) {rounds : Nat}
    (enough : (arriving files).length ≤ rounds) (before : List ArchiveFile) :
    extract_on rounds ⟨archived files,true⟩ before = (before ++ arriving files,none) := by
  induction files generalizing rounds before with
  | nil =>
    rw [arriving,List.append_nil]
    exact extract_blank rounds _ before (.inr rfl)
  | cons file rest ih =>
    obtain ⟨here,later⟩ := List.forall_mem_cons.mp storable
    cases rounds with
    | zero => exact absurd enough (Nat.not_succ_le_zero _)
    | succ rounds =>
      rw [archived,extract_file here]
      rw [arriving] at enough ⊢
      by_cases empty : file.content = []
      · simp only [empty,if_true]
        exact extract_blank rounds _ _ (.inl rfl)
      · simp only [empty,if_false] at enough ⊢
        rw [ih later (Nat.le_of_succ_le_succ enough),List.append_assoc]
        rfl

theorem length_arriving (files : List ArchiveFile) : (arriving files).length ≤ (archived files).length := by
  induction files with
  | nil => exact Nat.zero_le _
  | cons file rest ih =>
    rw [arriving,archived,List.length_cons,List.length_append,List.length_append,length_archive_header]
    have size : ArchiveHeader_sizeof_version_1 = 304 := rfl
    split
    · rw [List.length_nil]
      omega
    · omega

/-- An archive brings back, each with its name and its bytes and in their order, the files up to the first that
    is empty; so all come back just if none but the last is empty. -/
theorem extract_archive {files : List ArchiveFile} (storable : ∀ file ∈ files, Storable file) :
    extract (archive files) = (arriving files,none) ∧
      (extract (archive files) = (files,none) ↔ ∀ file ∈ files.dropLast, file.content ≠ []) := by
  have extracted : extract (archive files) = (arriving files,none) := by
    rw [archive_eq]
    exact extract_archived storable (Nat.le_succ_of_le (length_arriving files)) []
  refine ⟨extracted,?_⟩
  rw [extracted,Prod.mk.injEq,and_iff_left rfl]
  clear storable extracted
  induction files with
  | nil => simp [arriving]
  | cons file rest ih =>
    rw [arriving,List.cons.injEq,and_iff_right rfl]
    cases rest with
    | nil => simp [arriving]
    | cons next rest =>
      rw [List.dropLast_cons_cons,List.forall_mem_cons]
      by_cases empty : file.content = []
      · simp [empty]
      · rw [if_neg empty,ih]
        exact (and_iff_right empty).symm

/-- The second of three files is empty. -/
theorem extract_archive_of_three :
    let files : List ArchiveFile := [⟨[97],[1,2]⟩,⟨[98,47,99],[]⟩,⟨[100],[3]⟩]
    extract (archive files) = (arriving files,none) ∧
      (extract (archive files) = (files,none) ↔ ∀ file ∈ files.dropLast, file.content ≠ []) :=
  extract_archive (by decide +kernel)

end Decent.Package

import Mathlib.Algebra.BigOperators.Group.List.Basic
import Mathlib.Algebra.Ring.Nat

/-!
The disk space of a seeder (`plugins/seeding`). The plugin enters an object for every content
that is assigned to its seeder and takes the size from the seeder's free space; it marks the
object deleted when the package expires, cannot be downloaded or is too large, and never gives
the space back. A restart sets the free space anew without the objects that survived it, and
the subtraction is not checked.
-/
namespace Decent.Seeding

abbrev AccountId := Nat

/-- The part of `seeding_plugin_startup_options` that the accounting reads. -/
structure StartupOptions where
  seeder : AccountId
  free_space : UInt64

structure MySeeder where
  id : Nat
  seeder : AccountId
  free_space : UInt64
deriving DecidableEq

structure MySeeding where
  URI : String
  hash : Nat
  expiration : Nat
  seeder : AccountId
  space : UInt32
  downloaded : Bool
  deleted : Bool
deriving DecidableEq

/-- `DECENT_MAX_FILE_SIZE`, in megabytes. -/
def max_file_size : Nat := 10000

/-- What the plugin reads of a `content_submit_operation`, and of a `content_object`. The
    operation was validated, so that its size is positive and bounded. -/
structure Content where
  URI : String
  hash : Nat
  expiration : Nat
  size : UInt64
  seeders : List AccountId
  validated : 0 < size.toNat ∧ size.toNat ≤ max_file_size

/-- The two indices of the plugin, in the order of the identifiers. -/
structure Tables where
  my_seeders : List MySeeder
  next_seeder : Nat
  my_seedings : List MySeeding

/-- A `SeedingListener`, which counts the failed downloads of its package. -/
structure Listener where
  url : String
  failed : Nat

/-- What was handed to another thread and has not run yet. -/
inductive Task
  | download (URI : String)
  | release (URI : String)

/-- The plugin. `wrapped` says that a subtraction went below zero; the code has no such field. -/
structure Plugin where
  tables : Tables
  listeners : List Listener
  tasks : List Task
  wrapped : Bool

/-! ### Entering a content -/

/-- `create<my_seeding_object>`. The addresses and the hashes are unique. -/
def Tables.create (t : Tables) (so : MySeeding) : Option Tables :=
  if t.my_seedings.any fun o => o.URI = so.URI || o.hash = so.hash then none
  else some { t with my_seedings := t.my_seedings ++ [so] }

/-- The object of a content, and the space it takes from its seeder. -/
def allocate (co : Content) (ms : MySeeder) (p : Plugin) : Option Plugin := do
  let tables ← p.tables.create ⟨co.URI,co.hash,co.expiration,ms.seeder,co.size.toUInt32,false,false⟩
  return { p with
    tables := { tables with my_seeders := tables.my_seeders.map fun o =>
      if o.id = ms.id then { o with free_space := o.free_space - co.size } else o }
    wrapped := p.wrapped || p.tables.my_seeders.any fun o => o.id = ms.id && o.free_space < co.size }

/-- `handle_new_content`, for the seeders in turn. An exception of `create` ends it. -/
def handle_new_content (co : Content) : List MySeeder → Plugin → Plugin
  | [],p => p
  | ms :: rest,p =>
    if ms.seeder ∈ co.seeders then
      match allocate co ms p with
      | some p => handle_new_content co rest { p with tasks := p.tasks ++ [.download co.URI] }
      | none => p
    else handle_new_content co rest p

def Tables.knows (t : Tables) (URI : String) : Bool := t.my_seedings.any fun o => o.URI = URI

def handle_content_submit (now : Nat) (co : Content) (p : Plugin) : Plugin :=
  if co.expiration < now then p
  else if p.tables.knows co.URI then p
  else handle_new_content co p.tables.my_seeders p

/-! ### Packages -/

/-- `release_package`. The calls of the package manager may throw before the object is marked. -/
def release_package (fails : String → Bool) (URI : String) (p : Plugin) : Plugin :=
  if fails URI then p
  else { p with tables := { p.tables with my_seedings := p.tables.my_seedings.map fun o =>
    if o.URI = URI then { o with deleted := true } else o } }

/-- `remove_all_event_listeners`, then `add_event_listener` unless the package is just let go. -/
def listen (URI : String) (added : List Listener) (p : Plugin) : Plugin :=
  { p with listeners := p.listeners.filter (fun l => l.url ≠ URI) ++ added }

/-- `package_download_error` -/
def package_download_error (fails : String → Bool) (url : String) (p : Plugin) : Plugin :=
  match p.listeners.find? fun l => l.url = url with
  | none => p
  | some l =>
    let p := listen url [⟨url,l.failed + 1⟩] p
    if l.failed + 1 < 5 then p else release_package fails url p

def mark_downloaded (chosen : MySeeding → Bool) (t : Tables) : Tables :=
  { t with my_seedings := t.my_seedings.map fun o => if chosen o then { o with downloaded := true } else o }

/-- `package_download_complete`, for a package of so many bytes. -/
def package_download_complete (url : String) (bytes : Nat) (p : Plugin) : Plugin :=
  if (p.listeners.any fun l => l.url = url) = false then p
  else match p.tables.my_seedings.find? fun o => o.URI = url with
    | none => p
    | some mso =>
      if (bytes + 1024 * 1024 - 1) / (1024 * 1024) > mso.space.toNat then
        { listen url [] p with tasks := p.tasks ++ [.release url] }
      else { p with tables := mark_downloaded (fun o => o.URI = url) p.tables }

def Task.run (fails : String → Bool) : Task → Plugin → Plugin
  | .download URI,p => listen URI [⟨URI,0⟩] p
  | .release URI,p => release_package fails URI p

/-- Runs one of the tasks that wait. -/
def run_task (fails : String → Bool) (k : Nat) (p : Plugin) : Plugin :=
  match p.tasks[k]? with
  | none => p
  | some task => task.run fails { p with tasks := p.tasks.eraseIdx k }

/-- `generate_pors`, for the objects in turn; what throws ends it. Only the packages of contents
    that have expired change. -/
def generate_pors (fails : String → Bool) (now : Nat) (contents : List Content) : List MySeeding → Plugin → Plugin
  | [],p => p
  | mso :: rest,p =>
    if mso.downloaded = false ∨ mso.deleted then generate_pors fails now contents rest p
    else
      let p := listen mso.URI [] p
      if (p.tables.my_seeders.any fun ms => ms.seeder = mso.seeder) = false then p
      else match contents.find? fun co => co.URI = mso.URI with
        | none => p
        | some co =>
          if co.expiration < now then
            if fails mso.URI then p else generate_pors fails now contents rest (release_package fails mso.URI p)
          else generate_pors fails now contents rest p

/-! ### Starting -/

/-- How the plugin gets its options: from the configuration, before the object database is
    opened, or from a wallet once it is open. -/
inductive Startup
  | plugin_initialize
  | seeding_startup

/-- The load of saved objects, which ends at the first one that violates a unique index. -/
def load (saved : List MySeeder) (loaded : List MySeeder) : List MySeeder :=
  match saved with
  | [] => loaded
  | ms :: rest =>
    if loaded.any fun o => o.id = ms.id || o.seeder = ms.seeder then loaded else load rest (loaded ++ [ms])

/-- `plugin_pre_startup` and the opening of the object database, with what it holds on disk. The
    seeders that are there at that time are removed. -/
def startup (how : Startup) (options : StartupOptions) (saved : Option Tables) : Plugin where
  tables :=
    match how,saved with
    | Startup.plugin_initialize,none => ⟨[⟨0,options.seeder,options.free_space⟩],1,[]⟩
    | Startup.plugin_initialize,some t => ⟨load t.my_seeders [⟨0,options.seeder,options.free_space⟩],t.next_seeder,t.my_seedings⟩
    | .seeding_startup,none => ⟨[⟨0,options.seeder,options.free_space⟩],1,[]⟩
    | .seeding_startup,some t => ⟨[⟨t.next_seeder,options.seeder,options.free_space⟩],t.next_seeder + 1,t.my_seedings⟩
  listeners := []
  tasks := []
  wrapped := false

/-- The loop of `restore_state` over the contents, from the last to expire backwards; `false`
    when `create` throws. -/
def restore_contents (head_time : Nat) (ms : MySeeder) : List Content → Plugin → Bool × Plugin
  | [],p => (true,p)
  | co :: earlier,p =>
    if co.expiration < head_time then (true,p)
    else if ms.seeder ∈ co.seeders ∧ p.tables.knows co.URI = false then
      match allocate co ms p with
      | some p => restore_contents head_time ms earlier p
      | none => (false,p)
    else restore_contents head_time ms earlier p

def restore_seeders (head_time : Nat) (contents : List Content) : List MySeeder → Plugin → Bool × Plugin
  | [],p => (true,p)
  | ms :: rest,p =>
    match restore_contents head_time ms contents p with
    | (true,p) => restore_seeders head_time contents rest p
    | (false,p) => (false,p)

/-- The end of `restore_state`: packages that are on disk are seeded, the others downloaded. -/
def restart_downloads (packages : List Nat) (p : Plugin) : Plugin :=
  (p.tables.my_seedings.filter fun o => !packages.contains o.hash).foldl (fun p o => listen o.URI [⟨o.URI,0⟩] p)
    { p with tables := mark_downloaded (fun o => packages.contains o.hash) p.tables }

/-- `restore_state`, up to its call of `generate_pors`. -/
def restore_state (head_time : Nat) (contents : List Content) (packages : List Nat) (p : Plugin) : Plugin :=
  match restore_seeders head_time contents p.tables.my_seeders p with
  | (true,p) => restart_downloads packages p
  | (false,p) => p

/-! ### Runs -/

/-- The steps of a running plugin. Time, the contents of the chain, the packages on disk and what
    the package manager throws come from outside; `contents` are in the order in which the code
    visits them. -/
inductive Event
  | content_submit (now : Nat) (co : Content)
  | restore_state (head_time : Nat) (contents : List Content) (packages : List Nat)
  | generate_pors (fails : String → Bool) (now : Nat) (contents : List Content)
  | package_download_error (fails : String → Bool) (url : String)
  | package_download_complete (url : String) (bytes : Nat)
  | run_task (fails : String → Bool) (k : Nat)

def perform : Event → Plugin → Plugin
  | .content_submit now co,p => handle_content_submit now co p
  | .restore_state head_time contents packages,p => restore_state head_time contents packages p
  | .generate_pors fails now contents,p => generate_pors fails now contents p.tables.my_seedings p
  | .package_download_error fails url,p => package_download_error fails url p
  | .package_download_complete url bytes,p => package_download_complete url bytes p
  | .run_task fails k,p => run_task fails k p

/-- The runs whose steps are all allowed, with the free space that the process was started with
    and the tables that it has been through. An undone block takes the tables back to earlier
    ones; a restart finds on disk the last or earlier ones, or nothing when the chain is
    replayed. -/
inductive Run (allowed : Event → Plugin → Prop) (fresh : Startup → StartupOptions → Option Tables → Prop) :
    UInt64 → List Tables → Plugin → Prop
  | start (how : Startup) (options : StartupOptions) :
      Run allowed fresh options.free_space [] (startup how options none)
  | step {configured : UInt64} {earlier : List Tables} {p : Plugin} (before : Run allowed fresh configured earlier p)
      (e : Event) (ok : allowed e p) : Run allowed fresh configured (p.tables :: earlier) (perform e p)
  | undo {configured : UInt64} {earlier : List Tables} {p : Plugin} {t : Tables}
      (before : Run allowed fresh configured earlier p) (past : t ∈ earlier) :
      Run allowed fresh configured (p.tables :: earlier) { p with tables := t }
  | restart {configured : UInt64} {earlier : List Tables} {p : Plugin} (before : Run allowed fresh configured earlier p)
      (how : Startup) (options : StartupOptions) (saved : Option Tables)
      (past : ∀ t, saved = some t → t ∈ p.tables :: earlier) (ok : fresh how options saved) :
      Run allowed fresh options.free_space [] (startup how options saved)

/-- The space that an object holds unless it is marked deleted. -/
def MySeeding.held (o : MySeeding) : Nat := if o.deleted then 0 else o.space.toNat

def Tables.used (t : Tables) : Nat := (t.my_seedings.map MySeeding.held).sum

/-- There is one seeder, and its free space makes up for what is used. -/
def Tables.Accounted (configured : UInt64) (t : Tables) : Prop :=
  ∃ ms, t.my_seeders = [ms] ∧ ms.free_space.toNat + t.used = configured.toNat

/-! ### When no space is lost -/

/-- The contents that `restore_state` enters for a seeder, by the addresses and the hashes that
    are taken. -/
def entered (head_time : Nat) (seeder : AccountId) : List Content → List (String × Nat) → List Content
  | [],_ => []
  | co :: earlier,taken =>
    if co.expiration < head_time then []
    else if seeder ∈ co.seeders ∧ co.URI ∉ taken.map Prod.fst then
      if co.hash ∈ taken.map Prod.snd then [] else co :: entered head_time seeder earlier (taken ++ [(co.URI,co.hash)])
    else entered head_time seeder earlier taken

def Tables.taken (t : Tables) : List (String × Nat) := t.my_seedings.map fun o => (o.URI,o.hash)

/-- A downloaded package of a known seeder whose content has expired. -/
def Expired (now : Nat) (contents : List Content) (seeders : List MySeeder) (o : MySeeding) : Prop :=
  o.downloaded = true ∧ o.deleted = false ∧ (seeders.any fun ms => ms.seeder = o.seeder) = true ∧
    ∃ co, contents.find? (fun co => co.URI = o.URI) = some co ∧ co.expiration < now

/-- A downloaded package that `generate_pors` throws at. -/
def Throws (fails : String → Bool) (now : Nat) (contents : List Content) (seeders : List MySeeder) (o : MySeeding) : Prop :=
  o.downloaded = true ∧ o.deleted = false ∧ ((seeders.any fun ms => ms.seeder = o.seeder) = false ∨
    contents.find? (fun co => co.URI = o.URI) = none ∨ Expired now contents seeders o ∧ fails o.URI = true)

def NothingToFree (URI : String) (t : Tables) : Prop := ∀ o ∈ t.my_seedings, o.URI = URI → o.deleted = true

/-- A step enters no content larger than the free space and releases no package. -/
def Fits : Event → Plugin → Prop
  | .content_submit now co,p => now ≤ co.expiration → co.URI ∉ p.tables.taken.map Prod.fst →
      co.hash ∉ p.tables.taken.map Prod.snd → ∀ ms ∈ p.tables.my_seeders, ms.seeder ∈ co.seeders → co.size ≤ ms.free_space
  | .restore_state head_time contents _,p => ∀ ms ∈ p.tables.my_seeders,
      ((entered head_time ms.seeder contents p.tables.taken).map fun co => co.size.toNat).sum ≤ ms.free_space.toNat
  | .generate_pors fails now contents,p => ∀ before o after, p.tables.my_seedings = before ++ o :: after →
      (∀ b ∈ before, ¬ Throws fails now contents p.tables.my_seeders b) → Expired now contents p.tables.my_seeders o →
      fails o.URI = true
  | .package_download_error fails url,p =>
      ∀ l, p.listeners.find? (fun l => l.url = url) = some l → 4 ≤ l.failed → fails url = true ∨ NothingToFree url p.tables
  | .package_download_complete _ _,_ => True
  | .run_task fails k,p => ∀ URI, p.tasks[k]? = some (.release URI) → fails URI = true ∨ NothingToFree URI p.tables

/-- A start finds no object that is not marked deleted, and no seeder beside its own. -/
def Fresh (how : Startup) (options : StartupOptions) (saved : Option Tables) : Prop :=
  ∀ t, saved = some t → (∀ o ∈ t.my_seedings, o.deleted = true) ∧
    (how = Startup.plugin_initialize → ∀ ms ∈ t.my_seeders.head?, ms.id = 0 ∨ ms.seeder = options.seeder)

/-- What holds of every state: the tables are accounted for, and nothing went below zero. -/
structure Plugin.Sound (configured : UInt64) (p : Plugin) : Prop where
  accounted : p.tables.Accounted configured
  unwrapped : p.wrapped = false

@[simp] theorem listen_tables (URI : String) (added : List Listener) (p : Plugin) : (listen URI added p).tables = p.tables := rfl

section
variable {configured : UInt64}

theorem sound_of_tables {p p' : Plugin} (sound : p.Sound configured) (tables : p'.tables = p.tables)
    (wrapped : p'.wrapped = p.wrapped) : p'.Sound configured :=
  ⟨by rw [tables]; exact sound.accounted,wrapped.trans sound.unwrapped⟩

/-- Objects may be rewritten as long as they hold the same space. -/
theorem Plugin.Sound.rewrite {p p' : Plugin} {f : MySeeding → MySeeding} (sound : p.Sound configured)
    (same : ∀ o ∈ p.tables.my_seedings, (f o).held = o.held)
    (tables : p'.tables = { p.tables with my_seedings := p.tables.my_seedings.map f }) (wrapped : p'.wrapped = p.wrapped) : p'.Sound configured := by
  obtain ⟨ms,single,sum⟩ := sound.accounted
  have used : p'.tables.used = p.tables.used := by
    rw [tables,Tables.used,Tables.used,List.map_map]
    exact congrArg List.sum (List.map_congr_left same)
  refine ⟨⟨ms,by rw [tables]; exact single,?_⟩,wrapped.trans sound.unwrapped⟩
  rw [used]
  exact sum

/-! ### The steps -/

/-- The state after a content has been entered. -/
theorem allocate_ok {co : Content} {ms : MySeeder} {p p' : Plugin} (allocated : allocate co ms p = some p') :
    (co.URI ∉ p.tables.taken.map Prod.fst ∧ co.hash ∉ p.tables.taken.map Prod.snd) ∧
    p'.tables.taken = p.tables.taken ++ [(co.URI,co.hash)] ∧
    p'.tables.my_seeders =
      p.tables.my_seeders.map (fun o => if o.id = ms.id then { o with free_space := o.free_space - co.size } else o) ∧
    p'.tables.used = p.tables.used + co.size.toNat ∧
    p'.wrapped = (p.wrapped || p.tables.my_seeders.any fun o => o.id = ms.id && o.free_space < co.size) := by
  have size : co.size.toUInt32.toNat = co.size.toNat := by
    have bound := co.validated.2
    rw [UInt64.toNat_toUInt32]
    exact Nat.mod_eq_of_lt (by simp only [max_file_size] at bound; omega)
  rw [allocate,Tables.create] at allocated
  split at allocated
  · cases allocated
  case isFalse unknown =>
    cases allocated
    refine ⟨?_,by simp [Tables.taken],rfl,by simp [Tables.used,MySeeding.held,size],rfl⟩
    simp only [List.any_eq_true,Bool.or_eq_true,decide_eq_true_eq,not_exists,not_and,not_or] at unknown
    constructor
    · simp only [Tables.taken,List.map_map,List.mem_map,not_exists,not_and]
      exact fun o member same => (unknown o member).1 same
    · simp only [Tables.taken,List.map_map,List.mem_map,not_exists,not_and]
      exact fun o member same => (unknown o member).2 same

/-- The single seeder is charged what its free space allows. -/
theorem Plugin.Sound.allocate {co : Content} {ms : MySeeder} {p p' : Plugin} (sound : p.Sound configured)
    (single : p.tables.my_seeders = [ms]) (fits : co.size ≤ ms.free_space) (allocated : allocate co ms p = some p') :
    p'.Sound configured ∧ p'.tables.my_seeders = [{ ms with free_space := ms.free_space - co.size }] := by
  obtain ⟨-,-,seeders,used,wrapped⟩ := allocate_ok allocated
  obtain ⟨ms',single',sum⟩ := sound.accounted
  obtain rfl : ms = ms' := List.head_eq_of_cons_eq (single.symm.trans single')
  rw [single] at seeders wrapped
  have charged : p'.tables.my_seeders = [{ ms with free_space := ms.free_space - co.size }] := by simpa using seeders
  have left : (ms.free_space - co.size).toNat = ms.free_space.toNat - co.size.toNat := UInt64.toNat_sub_of_le _ _ fits
  have enough : co.size.toNat ≤ ms.free_space.toNat := UInt64.le_iff_toNat_le.mp fits
  refine ⟨⟨⟨_,charged,?_⟩,?_⟩,charged⟩
  · rw [used]
    dsimp only
    omega
  · rw [wrapped,sound.unwrapped]
    simpa using fits

theorem knows_iff {t : Tables} {URI : String} : t.knows URI = true ↔ URI ∈ t.taken.map Prod.fst := by
  simp [Tables.knows,Tables.taken]

private theorem handle_content_submit_sound {now : Nat} {co : Content} {p : Plugin} (sound : p.Sound configured)
    (fits : Fits (.content_submit now co) p) : (handle_content_submit now co p).Sound configured := by
  rw [handle_content_submit]
  split
  · exact sound
  case isFalse current =>
    split
    · exact sound
    case isFalse unknown =>
      have new := fun known => unknown (knows_iff.mpr known)
      obtain ⟨ms,single,-⟩ := sound.accounted
      rw [single,handle_new_content]
      split
      case isTrue assigned =>
        split
        case h_1 p' allocated =>
          have fresh := (allocate_ok allocated).1.2
          have enough : co.size ≤ ms.free_space := fits (Nat.not_lt.mp current) new fresh ms (by simp [single]) assigned
          exact sound_of_tables (sound.allocate single enough allocated).1 rfl rfl
        case h_2 => exact sound
      case isFalse => exact sound

/-- The loop charges the seeder for the contents that it enters. -/
private theorem restore_contents_sound {head_time : Nat} {ms : MySeeder} (contents : List Content) {p : Plugin}
    {now : MySeeder} (same : now.id = ms.id ∧ now.seeder = ms.seeder) (sound : p.Sound configured)
    (single : p.tables.my_seeders = [now])
    (fits : ((entered head_time ms.seeder contents p.tables.taken).map fun co => co.size.toNat).sum ≤ now.free_space.toNat) :
    (restore_contents head_time ms contents p).2.Sound configured := by
  induction contents generalizing p now with
  | nil => exact sound
  | cons co earlier ih =>
    rw [entered] at fits
    rw [restore_contents]
    split
    · exact sound
    case isFalse current =>
      rw [if_neg current] at fits
      split
      case isTrue assigned =>
        have unknown : co.URI ∉ p.tables.taken.map Prod.fst := fun known => by
          simp [knows_iff.mpr known] at assigned
        rw [if_pos ⟨assigned.1,unknown⟩] at fits
        split
        case h_1 p' allocated =>
          obtain ⟨⟨-,fresh⟩,taken,-⟩ := allocate_ok allocated
          rw [if_neg fresh,List.map_cons,List.sum_cons] at fits
          have enough : co.size ≤ now.free_space := UInt64.le_iff_toNat_le.mpr (by omega)
          have charged : allocate co now p = some p' := by
            rw [← allocated,allocate,allocate,same.1,same.2]
          obtain ⟨sound',single'⟩ := sound.allocate single enough charged
          refine ih (by exact same) sound' single' ?_
          have left : (now.free_space - co.size).toNat = now.free_space.toNat - co.size.toNat :=
            UInt64.toNat_sub_of_le _ _ enough
          rw [taken]
          dsimp only
          omega
        case h_2 => exact sound
      case isFalse skipped =>
        have passed : ¬ (ms.seeder ∈ co.seeders ∧ co.URI ∉ p.tables.taken.map Prod.fst) := by
          rintro ⟨assigned,unknown⟩
          refine skipped ⟨assigned,?_⟩
          rw [← Bool.not_eq_true]
          exact fun known => unknown (knows_iff.mp known)
        rw [if_neg passed] at fits
        exact ih same sound single fits

private theorem listen_all_tables (packages : List MySeeding) (p : Plugin) :
    (packages.foldl (fun p o => listen o.URI [⟨o.URI,0⟩] p) p).tables = p.tables ∧
    (packages.foldl (fun p o => listen o.URI [⟨o.URI,0⟩] p) p).wrapped = p.wrapped := by
  induction packages generalizing p with
  | nil => exact ⟨rfl,rfl⟩
  | cons o rest ih => exact ih (listen o.URI [⟨o.URI,0⟩] p)

private theorem mark_downloaded_sound {p : Plugin} (sound : p.Sound configured) (chosen : MySeeding → Bool) :
    Plugin.Sound configured { p with tables := mark_downloaded chosen p.tables } := by
  refine sound.rewrite (fun o _ => ?_) rfl rfl
  split <;> rfl

private theorem restore_state_sound {head_time : Nat} {contents : List Content} {packages : List Nat} {p : Plugin}
    (sound : p.Sound configured) (fits : Fits (.restore_state head_time contents packages) p) :
    (restore_state head_time contents packages p).Sound configured := by
  obtain ⟨ms,single,-⟩ := sound.accounted
  have restored := restore_contents_sound contents ⟨rfl,rfl⟩ sound single (fits ms (by simp [single]))
  rw [restore_state,single,restore_seeders]
  cases ran : restore_contents head_time ms contents p with
  | mk completed p' =>
    rw [ran] at restored
    cases completed with
    | false => exact restored
    | true =>
      obtain ⟨tables,wrapped⟩ := listen_all_tables
        (p'.tables.my_seedings.filter fun o => !packages.contains o.hash)
        { p' with tables := mark_downloaded (fun o => packages.contains o.hash) p'.tables }
      exact sound_of_tables (mark_downloaded_sound restored _) tables wrapped

/-- A release loses nothing when it fails or when the package was released before. -/
private theorem release_package_sound {fails : String → Bool} {URI : String} {p : Plugin} (sound : p.Sound configured)
    (lossless : fails URI = true ∨ NothingToFree URI p.tables) : (release_package fails URI p).Sound configured := by
  rw [release_package]
  split
  · exact sound
  case isFalse works =>
    have released := lossless.resolve_left works
    refine sound.rewrite (fun o member => ?_) rfl rfl
    split
    case isTrue named => simp [MySeeding.held,released o member named]
    case isFalse => rfl

private theorem generate_pors_sound {fails : String → Bool} {now : Nat} {contents : List Content} (items : List MySeeding)
    {p : Plugin} (sound : p.Sound configured)
    (fits : ∀ before o after, items = before ++ o :: after →
      (∀ b ∈ before, ¬ Throws fails now contents p.tables.my_seeders b) → Expired now contents p.tables.my_seeders o →
      fails o.URI = true) : (generate_pors fails now contents items p).Sound configured := by
  induction items generalizing p with
  | nil => exact sound
  | cons o rest ih =>
    have listening : (listen o.URI [] p).Sound configured := sound_of_tables sound rfl rfl
    -- The rest of the loop, once it got past the first object.
    have past : ¬ Throws fails now contents p.tables.my_seeders o → ∀ before x after, rest = before ++ x :: after →
        (∀ b ∈ before, ¬ Throws fails now contents p.tables.my_seeders b) →
        Expired now contents p.tables.my_seeders x → fails x.URI = true :=
      fun first before x after split goes => fits (o :: before) x after (by rw [split,List.cons_append])
        (List.forall_mem_cons.mpr ⟨first,goes⟩)
    rw [generate_pors]
    split
    case isTrue idle =>
      exact ih sound (past fun throws => by simp [throws.1,throws.2.1] at idle)
    case isFalse due =>
      obtain ⟨downloaded,kept⟩ : o.downloaded = true ∧ o.deleted = false := by simpa using due
      dsimp only
      split
      · exact listening
      case isFalse known =>
        have seeded : (p.tables.my_seeders.any fun ms => ms.seeder = o.seeder) = true := by
          simpa only [listen_tables,Bool.not_eq_false] using known
        split
        · exact listening
        case h_2 co found =>
          split
          case isTrue expired =>
            have fails_ := fits [] o rest rfl (by simp) ⟨downloaded,kept,seeded,co,found,expired⟩
            rw [if_pos fails_]
            exact listening
          case isFalse current =>
            refine ih listening (past ?_)
            rintro ⟨-,-,unknown | missing | ⟨⟨-,-,-,co',found',expired⟩,-⟩⟩
            · rw [seeded] at unknown
              cases unknown
            · rw [found] at missing
              cases missing
            · obtain rfl := Option.some.inj (found.symm.trans found')
              exact current expired

/-- A step that fits keeps the space accounted for. -/
theorem perform_sound {e : Event} {p : Plugin} (sound : p.Sound configured) (fits : Fits e p) : (perform e p).Sound configured := by
  cases e with
  | content_submit now co => exact handle_content_submit_sound sound fits
  | restore_state head_time contents packages => exact restore_state_sound sound fits
  | generate_pors fails now contents => exact generate_pors_sound _ sound fits
  | package_download_error fails url =>
    simp only [perform,package_download_error]
    split
    · exact sound
    case h_2 l found =>
      have listening : (listen url [⟨url,l.failed + 1⟩] p).Sound configured := sound_of_tables sound rfl rfl
      split
      · exact listening
      case isFalse many => exact release_package_sound listening (fits l found (by omega))
  | package_download_complete url bytes =>
    simp only [perform,package_download_complete]
    split
    · exact sound
    split
    · exact sound
    split
    · exact sound_of_tables sound rfl rfl
    · exact mark_downloaded_sound sound _
  | run_task fails k =>
    simp only [perform,run_task]
    split
    · exact sound
    case h_2 task waiting =>
      have popped : Plugin.Sound configured { p with tasks := p.tasks.eraseIdx k } := sound_of_tables sound rfl rfl
      cases task with
      | download URI => exact sound_of_tables popped rfl rfl
      | release URI => exact release_package_sound popped (fits URI waiting)

/-- A fresh start has its whole space. -/
theorem startup_sound {how : Startup} {options : StartupOptions} {saved : Option Tables}
    (fresh : Fresh how options saved) : (startup how options saved).Sound options.free_space := by
  have unused : ∀ t : Tables, (∀ o ∈ t.my_seedings, o.deleted = true) → ∀ ms next,
      Tables.Accounted options.free_space ⟨[⟨ms,options.seeder,options.free_space⟩],next,t.my_seedings⟩ := by
    intro t deleted ms next
    refine ⟨_,rfl,?_⟩
    have none : t.my_seedings.map MySeeding.held = t.my_seedings.map fun _ => 0 :=
      List.map_congr_left fun o member => by simp [MySeeding.held,deleted o member]
    simp [Tables.used,none]
  have empty : ∀ ms next, Tables.Accounted options.free_space ⟨[⟨ms,options.seeder,options.free_space⟩],next,[]⟩ :=
    unused ⟨[],0,[]⟩ (by simp)
  cases saved with
  | none => cases how <;> exact ⟨empty _ _,rfl⟩
  | some t =>
    obtain ⟨deleted,alone⟩ := fresh t rfl
    cases how with
    | seeding_startup => exact ⟨unused t deleted _ _,rfl⟩
    | plugin_initialize =>
      have loaded : load t.my_seeders [⟨0,options.seeder,options.free_space⟩] = [⟨0,options.seeder,options.free_space⟩] := by
        cases held : t.my_seeders with
        | nil => rfl
        | cons ms rest =>
          have clash := alone rfl ms (by simp [held])
          simp only [load,List.any_cons,List.any_nil,Bool.or_false,Bool.or_eq_true,decide_eq_true_eq]
          rw [if_pos (clash.imp Eq.symm Eq.symm)]
      refine ⟨?_,rfl⟩
      simp only [startup,loaded]
      exact unused t deleted _ _

end

/-- In a run whose steps fit and whose restarts are fresh the space is accounted for in every
    state, and no subtraction goes below zero. -/
theorem space_accounted {configured : UInt64} {earlier : List Tables} {p : Plugin}
    (run : Run Fits Fresh configured earlier p) : p.Sound configured ∧ ∀ t ∈ earlier, t.Accounted configured := by
  induction run with
  | start how options => exact ⟨startup_sound nofun,nofun⟩
  | step before e ok ih =>
    obtain ⟨sound,past⟩ := ih
    exact ⟨perform_sound sound ok,List.forall_mem_cons.mpr ⟨sound.accounted,past⟩⟩
  | undo before member ih =>
    obtain ⟨sound,past⟩ := ih
    exact ⟨⟨past _ member,sound.unwrapped⟩,List.forall_mem_cons.mpr ⟨sound.accounted,past⟩⟩
  | restart before how options saved past ok ih => exact ⟨startup_sound ok,nofun⟩

/-! ### A released package -/

/-- A content of 10 MB that expires at 50, and one that is larger than the free space. -/
def small : Content := ⟨"ipfs:a",1,50,10,[5],by decide⟩
def large : Content := ⟨"ipfs:b",2,50,200,[5],by decide⟩

def started : Plugin := startup Startup.plugin_initialize ⟨5,100⟩ none

/-- A content that is seeded is accounted for. -/
theorem space_accounted_small : (perform (.content_submit 0 small) started).tables.Accounted 100 :=
  (space_accounted (.step (.start Startup.plugin_initialize ⟨5,100⟩) (.content_submit 0 small)
    (fun _ _ _ ms member _ => by
      obtain rfl : ms = ⟨0,5,100⟩ := List.mem_singleton.mp member
      decide))).1.accounted

/-- Once its package has expired nobody gets its space back; and a content that is too large
    leaves the seeder with a free space close to 2 ^ 64. -/
theorem space_not_accounted :
    (∃ earlier p, Run (fun _ _ => True) (fun _ _ _ => True) 100 earlier p ∧
      p.tables.my_seeders = [⟨0,5,90⟩] ∧ p.tables.used = 0 ∧ ¬ p.Sound 100) ∧
    ∃ earlier p, Run (fun _ _ => True) (fun _ _ _ => True) 100 earlier p ∧
      p.tables.my_seeders = [⟨0,5,18446744073709551516⟩] ∧ ¬ p.Sound 100 := by
  have start : Run (fun _ _ => True) (fun _ _ _ => True) 100 [] started := .start Startup.plugin_initialize ⟨5,100⟩
  have run := (((start.step (.content_submit 0 small) trivial).step (.run_task (fun _ => false) 0) trivial).step
    (.package_download_complete "ipfs:a" 10000000) trivial).step (.generate_pors (fun _ => false) 60 [small]) trivial
  refine ⟨⟨_,_,run,by decide +kernel,by decide +kernel,?_⟩,⟨_,_,start.step (.content_submit 0 large) trivial,by decide,?_⟩⟩
  · rintro ⟨⟨ms,single,sum⟩,-⟩
    have left : ms.free_space = 90 := congrArg (fun l => (l.head?.map MySeeder.free_space).getD 0) single.symm
    rw [left] at sum
    exact absurd sum (by decide +kernel)
  · rintro ⟨-,unwrapped⟩
    revert unwrapped
    decide

end Decent.Seeding

import Decent.Crashes
import Decent.Housekeeping

/-!
The keys that a seeder has missed to deliver. A purchase asks every seeder of the content for his
key, an answer takes one request back, and each maintenance starts anew: the counter says how
many of the requests since then he has not answered, as long as no one answers an older one.
-/
namespace Decent.Money
open Throwing

/-! ### What is counted -/

/-- The key parts of the content of this name. -/
def Ledger.parts (L : Ledger) (URI : String) : Table AccountId Nat :=
  ((L.find_content URI).map fun row => row.2.key_parts).getD .empty

/-- Since the last reset `p` was asked for his key, and he has not answered. -/
def Ledger.asked (L : Ledger) (p : AccountId) (id : Nat) (b : Buying) : Prop :=
  L.counted_from ≤ id ∧ ((L.parts b.URI).find? p).isSome ∧ p ∉ b.seeders_answered

instance (L : Ledger) (p : AccountId) (id : Nat) (b : Buying) : Decidable (L.asked p id b) :=
  inferInstanceAs (Decidable (_ ∧ _ ∧ _))

/-- The requests that are open for `p`. -/
def Ledger.requests (L : Ledger) (p : AccountId) : List (Nat × Buying) :=
  L.buyings.table.rows.filter fun row => L.asked p row.1 row.2

/-- How many there are, as a sum over the buyings. -/
def missed (L : Ledger) (p : AccountId) : Int := L.buyings.table.total fun id b => if L.asked p id b then 1 else 0

/-- Only seeders have parts, and every buying is of a content. -/
structure Grounded (L : Ledger) : Prop where
  since : L.counted_from ≤ L.buyings.next
  named : ∀ {id b}, L.buyings.find? id = some b → (L.find_content b.URI).isSome
  known : ∀ {id c p}, L.contents.find? id = some c → (c.key_parts.find? p).isSome → (L.seeders.find? p).isSome

/-- The counters of all seeders. -/
structure Missed (L : Ledger) : Prop extends Grounded L where
  counted : ∀ {p so}, L.statistics.find? p = some so → (so.missed_delivered_keys.toNat : Int) = missed L p

/-! ### What asks no one -/

/-- What a content is called, and who has parts of it. -/
def Content.keyed (c : Content) : String × Table AccountId Nat := (c.URI,c.key_parts)

/-- What a buying asks for, and who has answered. -/
def Buying.answers (b : Buying) : String × List AccountId := (b.URI,b.seeders_answered)

/-- The counters, and what they count, are as they were. -/
structure Quiet (L L' : Ledger) : Prop where
  counters : ∀ p, (L'.statistics.find? p).map (·.missed_delivered_keys) = (L.statistics.find? p).map (·.missed_delivered_keys)
  buyings : L'.buyings.table.rows.map (fun row => (row.1,row.2.answers)) =
    L.buyings.table.rows.map fun row => (row.1,row.2.answers)
  next : L'.buyings.next = L.buyings.next
  contents : L'.contents.table.rows.map (fun row => (row.1,row.2.keyed)) =
    L.contents.table.rows.map fun row => (row.1,row.2.keyed)
  seeders : ∀ p, (L.seeders.find? p).isSome → (L'.seeders.find? p).isSome
  counted_from : L'.counted_from = L.counted_from

theorem Quiet.of_eq {L L' : Ledger} (statistics : L'.statistics = L.statistics) (buyings : L'.buyings = L.buyings)
    (contents : L'.contents = L.contents) (seeders : L'.seeders = L.seeders) (counted_from : L'.counted_from = L.counted_from) :
    Quiet L L' where
  counters := by rw [statistics]; exact fun _ => rfl
  buyings := by rw [buyings]
  next := by rw [buyings]
  contents := by rw [contents]
  seeders := by rw [seeders]; exact fun _ => id
  counted_from := counted_from

instance quiet_composes : Composes Quiet where
  refl _ := .of_eq rfl rfl rfl rfl rfl
  trans first second := {
    counters := fun p => (second.counters p).trans (first.counters p)
    buyings := second.buyings.trans first.buyings
    next := second.next.trans first.next
    contents := second.contents.trans first.contents
    seeders := fun p => second.seeders p ∘ first.seeders p
    counted_from := second.counted_from.trans first.counted_from }

theorem quiet_content (L : Ledger) (id : Nat) {f : Content → Content} (same : ∀ c, (f c).keyed = c.keyed) :
    Quiet L (L.with_content id f) :=
  { @Quiet.of_eq L L rfl rfl rfl rfl rfl with contents := Index.rows_update_same (g := Content.keyed) L.contents id same }

theorem quiet_seeders (L : Ledger) (p : AccountId) (so : Seeder) : Quiet L { L with seeders := L.seeders.put p so } := by
  refine { @Quiet.of_eq L L rfl rfl rfl rfl rfl with seeders := fun q here => ?_ }
  show ((L.seeders.put p so).find? q).isSome
  rw [Table.find?_put]
  split
  · rfl
  · exact here

/-- A change of the other statistics. -/
theorem quiet_modify_statistics {p : AccountId} {f : SeedingStatistics → SeedingStatistics}
    (same : ∀ so, (f so).missed_delivered_keys = so.missed_delivered_keys) : Within Quiet (modify_statistics p f) := by
  refine within_modify_statistics fun L so known => { @Quiet.of_eq L L rfl rfl rfl rfl rfl with counters := fun q => ?_ }
  show ((L.statistics.put p (f so)).find? q).map _ = _
  rw [Table.find?_put]
  split
  case isTrue here => rw [here,known,Option.map_some,Option.map_some,same so]
  case isFalse => rfl

instance : Noting Quiet where
  permissions _ _ := .of_eq rfl rfl rfl rfl rfl
  subscription _ _ _ _ := .of_eq rfl rfl rfl rfl rfl

instance : Describing Quiet where
  content L id _ incidental := quiet_content L id fun c => by
    simp only [Content.keyed,incidental.URI,incidental.key_parts]

instance : Logging Quiet where
  applied _ _ _ := .of_eq rfl rfl rfl rfl rfl

instance : Accounting Quiet where
  publishing _ _ := .of_eq rfl rfl rfl rfl rfl

instance : Pooling Quiet where
  dynamic _ _ _ := .of_eq rfl rfl rfl rfl rfl

instance : Crediting Quiet where
  balances _ _ := .of_eq rfl rfl rfl rfl rfl
  vestings _ _ := .of_eq rfl rfl rfl rfl rfl
  miners _ _ := .of_eq rfl rfl rfl rfl rfl

instance : Closing Quiet where
  buying L id _ settling :=
    { @Quiet.of_eq L L rfl rfl rfl rfl rfl with
      buyings := Index.rows_update_same (g := Buying.answers) L.buyings id fun b => by
        simp only [Buying.answers,settling.URI,settling.seeders_answered]
      next := Index.next_update .. }
  payments _ _ := .of_eq rfl rfl rfl rfl rfl

instance : Rewarding Quiet where
  rewards _ _ _ := .of_eq rfl rfl rfl rfl rfl

instance : Enrolling Quiet where
  accounts _ _ := .of_eq rfl rfl rfl rfl rfl
  subscriptions _ _ := .of_eq rfl rfl rfl rfl rfl

instance : Creating Quiet where
  asset _ _ := .of_eq rfl rfl rfl rfl rfl

instance : Scheduling Quiet where
  properties _ _ := .of_eq rfl rfl rfl rfl rfl
  parameters _ _ _ := .of_eq rfl rfl rfl rfl rfl

instance (p : AccountId) : Within Quiet (modify_statistics p fun so => { so with
    total_content_requested_to_seed := so.total_content_requested_to_seed + 1 }) := quiet_modify_statistics fun _ => rfl

instance (p : AccountId) (so : Seeder) :
    Within Quiet (modify fun L : Ledger => { L with seeders := L.seeders.put p so } : M Unit) :=
  .modify fun L => quiet_seeders L p so

instance (content : Content) (seeders : List AccountId) : Within Quiet (forget_seeders content seeders) := by
  induction seeders with
  | nil => exact inferInstanceAs (Within Quiet (pure ()))
  | cons p rest ih =>
    unfold forget_seeders
    have proved : Within Quiet (modify_statistics p fun so => { so with
        total_content_seeded := so.total_content_seeded - content.seeded_size
        num_of_content_seeded := so.num_of_content_seeded - 1 }) := quiet_modify_statistics fun _ => rfl
    have unproved : Within Quiet (modify_statistics p fun so => { so with
        total_content_requested_to_seed :=
          if 0 < so.total_content_requested_to_seed then so.total_content_requested_to_seed - 1
          else so.total_content_requested_to_seed }) := quiet_modify_statistics fun _ => rfl
    infer_instance

instance (o : ContentCancellationOperation) : Within Quiet (content_cancellation_apply o) := by
  unfold content_cancellation_apply
  exact .andThen fun _ => .andThen fun _ => .modify fun L => quiet_content L _ fun _ => by simp only [Content.keyed]

instance (id : Nat) (content : Content) : Within Quiet (content_expire id content) := by
  have emptied : Within Quiet (modify_content id fun co =>
      { co with publishing_fee_escrow := { co.publishing_fee_escrow with amount := 0 } }) :=
    .modify fun L => quiet_content L id fun _ => rfl
  have pushed : Within Quiet (push_applied_operation
      (.return_escrow_submission content.author content.publishing_fee_escrow id)) :=
    .modify fun _ => .of_eq rfl rfl rfl rfl rfl
  unfold content_expire
  infer_instance

/-! ### The parts of a content -/

/-- Contents that are called the same and have the same parts. -/
theorem find_content_keyed {L L' : Ledger} (contents : L'.contents.table.rows.map (fun row => (row.1,row.2.keyed)) =
      L.contents.table.rows.map fun row => (row.1,row.2.keyed)) (URI : String) :
    (L'.find_content URI).map (fun row => (row.1,row.2.keyed)) = (L.find_content URI).map fun row => (row.1,row.2.keyed) := by
  have named (rows : List (Nat × Content)) : (rows.find? fun row => decide (row.2.URI = URI)).map
      (fun row => (row.1,row.2.keyed)) = (rows.map fun row => (row.1,row.2.keyed)).find? fun row => decide (row.2.1 = URI) := by
    rw [List.find?_map]
    rfl
  rw [Ledger.find_content,Ledger.find_content,named,named,contents]

theorem parts_of_find {L : Ledger} {URI : String} {id : Nat} {c : Content} (found : L.find_content URI = some (id,c)) :
    L.parts URI = c.key_parts := by
  rw [Ledger.parts,found]
  rfl

/-- A part is one of a content. -/
theorem content_of_parts {L : Ledger} {URI : String} {p : AccountId} (part : ((L.parts URI).find? p).isSome) :
    ∃ id c, L.contents.find? id = some c ∧ (c.key_parts.find? p).isSome := by
  cases found : L.find_content URI with
  | none =>
    rw [Ledger.parts,found] at part
    cases part
  | some row =>
    rw [parts_of_find found] at part
    exact ⟨row.1,row.2,Table.find?_of_mem (List.mem_of_find?_eq_some found),part⟩

theorem Quiet.find_content {L L' : Ledger} (quiet : Quiet L L') (URI : String) :
    (L'.find_content URI).isSome = (L.find_content URI).isSome ∧ L'.parts URI = L.parts URI := by
  have same := find_content_keyed quiet.contents URI
  refine ⟨?_,?_⟩
  · have some := congrArg Option.isSome same
    simpa only [Option.isSome_map] using some
  · have parts := congrArg (Option.map fun s : Nat × String × Table AccountId Nat => s.2.2) same
    simp only [Option.map_map,Function.comp_def,Content.keyed] at parts
    rw [Ledger.parts,Ledger.parts,parts]

theorem missed_congr {L L' : Ledger} (buyings : L'.buyings.table.rows.map (fun row => (row.1,row.2.answers)) =
      L.buyings.table.rows.map fun row => (row.1,row.2.answers))
    (parts : ∀ {id b}, L.buyings.find? id = some b → L'.parts b.URI = L.parts b.URI)
    (counted_from : L'.counted_from = L.counted_from) (p : AccountId) : missed L' p = missed L p := by
  have seen := Table.total_of_rows (fun id (s : String × List AccountId) =>
    if L'.counted_from ≤ id ∧ ((L'.parts s.1).find? p).isSome ∧ p ∉ s.2 then (1 : Int) else 0) buyings
  refine Eq.trans seen (Table.total_congr fun id b found => ?_)
  exact if_congr (by simp only [Buying.answers,Ledger.asked,parts found,counted_from]) rfl rfl

theorem Quiet.missed {L L' : Ledger} (quiet : Quiet L L') (p : AccountId) : missed L' p = missed L p :=
  missed_congr quiet.buyings (fun _ => (quiet.find_content _).2) quiet.counted_from p

theorem Quiet.counter {L L' : Ledger} (quiet : Quiet L L') {p : AccountId} {so' : SeedingStatistics}
    (found : L'.statistics.find? p = some so') :
    ∃ so, L.statistics.find? p = some so ∧ so.missed_delivered_keys = so'.missed_delivered_keys := by
  have same := quiet.counters p
  rw [found,Option.map_some] at same
  exact Option.map_eq_some_iff.mp same.symm

theorem Grounded.quiet {L L' : Ledger} (quiet : Quiet L L') (grounded : Grounded L) : Grounded L' where
  since := by
    rw [quiet.counted_from,quiet.next]
    exact grounded.since
  named := by
    intro id b' found
    have same := Table.map_find?_of_rows quiet.buyings id
    rw [show L'.buyings.table.find? id = some b' from found,Option.map_some] at same
    obtain ⟨b,before,answers⟩ := Option.map_eq_some_iff.mp same.symm
    simp only [Buying.answers,Prod.mk.injEq] at answers
    rw [← answers.1,(quiet.find_content b.URI).1]
    exact grounded.named before
  known := by
    intro id c' p found part
    have same := Table.map_find?_of_rows quiet.contents id
    rw [show L'.contents.table.find? id = some c' from found,Option.map_some] at same
    obtain ⟨c,before,keyed⟩ := Option.map_eq_some_iff.mp same.symm
    simp only [Content.keyed,Prod.mk.injEq] at keyed
    exact quiet.seeders p (grounded.known before (keyed.2 ▸ part))

theorem Missed.quiet {L L' : Ledger} (quiet : Quiet L L') (missed_L : Missed L) : Missed L' := by
  refine { missed_L.toGrounded.quiet quiet with counted := fun {p so'} found => ?_ }
  obtain ⟨so,before,same⟩ := quiet.counter found
  rw [← same,quiet.missed]
  exact missed_L.counted before

/-! ### Requests and answers -/

/-- Everyone listed is asked once. -/
theorem count_missed_ok {seeders : List AccountId} {L L' : Ledger} {u : Unit} (nodup : seeders.Nodup)
    (ran : EStateM.run (count_missed seeders) L = .ok u L') :
    L' = { L with statistics := L'.statistics } ∧ ∀ p, (L'.statistics.find? p).map (·.missed_delivered_keys) =
      (L.statistics.find? p).map fun so => if p ∈ seeders then so.missed_delivered_keys + 1 else so.missed_delivered_keys := by
  induction seeders generalizing L with
  | nil =>
    cases ran
    exact ⟨rfl,fun p => by simp⟩
  | cons q rest ih =>
    obtain ⟨outside,nodup⟩ := List.nodup_cons.mp nodup
    obtain ⟨_,L₁,counted,ran⟩ := run_bind_ok.mp ran
    obtain ⟨so,known,rfl⟩ := modify_statistics_ok counted
    obtain ⟨frame,later⟩ := ih nodup ran
    refine ⟨frame,fun p => ?_⟩
    rw [later,Table.find?_put]
    by_cases here : p = q
    · subst here
      simp [outside,known]
    · simp [here]

/-- A new buying is a request to everyone who has a part. -/
theorem missed_create {L : Ledger} {b : Buying} (since : L.counted_from ≤ L.buyings.next) (new : b.seeders_answered = [])
    (p : AccountId) : missed (L.with_buying b) p = missed L p + if ((L.parts b.URI).find? p).isSome then 1 else 0 := by
  show (L.buyings.table.put L.buyings.next b).total _ = _
  rw [Table.total_put_new _ _ _ (Index.find?_next L.buyings)]
  congr 1
  refine if_congr ?_ rfl rfl
  show L.counted_from ≤ L.buyings.next ∧ ((L.parts b.URI).find? p).isSome ∧ p ∉ b.seeders_answered ↔ _
  simp [since,new]

theorem Missed.bought {L₁ L₂ L' : Ledger} {content : Content} {b : Buying} {u : Unit} (missed_L : Missed L₁)
    (named : (L₁.find_content b.URI).isSome) (parts : L₁.parts b.URI = content.key_parts) (new : b.seeders_answered = [])
    (quiet : Quiet (L₁.with_buying b) L₂)
    (room : ∀ p so, (content.key_parts.find? p).isSome → L₁.statistics.find? p = some so →
      so.missed_delivered_keys.toNat + 1 < 2^32)
    (counted : EStateM.run (count_missed (content.key_parts.rows.map Prod.fst)) L₂ = .ok u L') : Missed L' := by
  obtain ⟨frame,counters⟩ := count_missed_ok content.key_parts.distinct counted
  have created : Grounded (L₁.with_buying b) := by
    refine ⟨Nat.le_succ_of_le missed_L.since,fun {id b'} found => ?_,missed_L.known⟩
    have found : (L₁.buyings.create b).find? id = some b' := found
    show (L₁.find_content b'.URI).isSome
    rw [Index.find?_create] at found
    split at found
    · cases found
      exact named
    · exact missed_L.named found
  have grounded : Grounded L' := by
    rw [frame]
    exact { created.quiet quiet with }
  refine { grounded with counted := fun {p so'} found => ?_ }
  have total : missed L' p = missed L₁ p + if (content.key_parts.find? p).isSome then 1 else 0 := by
    have same : missed L' p = missed L₂ p := by
      rw [frame]
      rfl
    rw [same,quiet.missed,missed_create missed_L.since new,parts]
  have asked := counters p
  rw [found,Option.map_some] at asked
  obtain ⟨so₂,found₂,asked⟩ := Option.map_eq_some_iff.mp asked.symm
  obtain ⟨so,before,same⟩ := quiet.counter found₂
  have before : L₁.statistics.find? p = some so := before
  have old := missed_L.counted before
  rw [← asked,← same,total]
  by_cases part : (content.key_parts.find? p).isSome
  · rw [if_pos (Table.isSome_find?_iff.mp part),if_pos part,← old,UInt32.toNat_add,show (1 : UInt32).toNat = 1 from rfl,
      Nat.mod_eq_of_lt (room p so part before)]
    rfl
  · rw [if_neg fun listed => part (Table.isSome_find?_iff.mpr listed),if_neg part,Int.add_zero]
    exact old

/-- An answer takes back a request that was open. -/
theorem Missed.answered {L L' : Ledger} {o : DeliverKeysOperation} {seen : Buying} {u : Unit} (missed_L : Missed L)
    (found : L.buyings.find? o.buying = some seen) (part : ((L.parts seen.URI).find? o.seeder).isSome)
    (since : seen.seeders_answered.contains o.seeder = false → L.counted_from ≤ o.buying)
    (ran : EStateM.run (note_answer o seen) L = .ok u L') : Missed L' := by
  unfold note_answer at ran
  split at ran
  case isTrue =>
    cases ran
    exact missed_L
  case isFalse new =>
    have new := Bool.eq_false_iff.mpr new
    have since := since new
    have new : o.seeder ∉ seen.seeders_answered := by simpa using new
    obtain ⟨_,_,noted,ran⟩ := run_bind_ok.mp ran
    cases noted
    obtain ⟨so,known,rfl⟩ := modify_statistics_ok ran
    have known : L.statistics.find? o.seeder = some so := known
    have asked : L.asked o.seeder o.buying seen := ⟨since,part,new⟩
    have sums (p : AccountId) :
        (L.buyings.update o.buying (answered_buying o)).table.total (fun id b => if L.asked p id b then 1 else 0) =
          missed L p - if p = o.seeder then 1 else 0 := by
      rw [Index.update_of_find _ found,Table.total_put_old _ _ _ found]
      show missed L p - _ + _ = _
      by_cases here : p = o.seeder
      · subst here
        have taken : ¬ L.asked o.seeder o.buying (answered_buying o seen) := fun again => again.2.2 (by simp [answered_buying])
        rw [if_pos asked,if_neg taken,if_pos rfl,Int.add_zero]
      · have same : L.asked p o.buying (answered_buying o seen) ↔ L.asked p o.buying seen := by
          simp [Ledger.asked,answered_buying,here]
        rw [if_congr same rfl rfl,if_neg here]
        omega
    have enough : 1 ≤ missed L o.seeder := by
      have within := Table.le_total (f := fun id b => if L.asked o.seeder id b then (1 : Int) else 0)
        (fun _ _ => by split <;> omega) found
      rwa [if_pos asked] at within
    refine ⟨⟨?_,?_,missed_L.known⟩,?_⟩
    · show L.counted_from ≤ (L.buyings.update o.buying (answered_buying o)).next
      rw [Index.next_update]
      exact missed_L.since
    · intro id b' stored
      have stored : (L.buyings.update o.buying (answered_buying o)).find? id = some b' := stored
      show (L.find_content b'.URI).isSome
      rw [Index.find?_update] at stored
      split at stored
      · obtain ⟨b,before,rfl⟩ := Option.map_eq_some_iff.mp stored
        exact missed_L.named (b := b) before
      · exact missed_L.named stored
    · intro p so' stored
      have stored : (L.statistics.put o.seeder _).find? p = some so' := stored
      show _ = (L.buyings.update o.buying (answered_buying o)).table.total fun id b => if L.asked p id b then 1 else 0
      rw [Table.find?_put] at stored
      rw [sums]
      split at stored
      case isTrue here =>
        obtain rfl := Option.some.inj stored
        subst here
        have old := missed_L.counted known
        have less : (1 : UInt32) ≤ so.missed_delivered_keys := UInt32.le_iff_toNat_le.mpr (by simp; omega)
        rw [if_pos rfl,← old]
        show (((so.missed_delivered_keys - 1).toNat : Nat) : Int) = _
        rw [UInt32.toNat_sub_of_le _ _ less]
        simp; omega
      case isFalse other =>
        rw [if_neg other,Int.sub_zero]
        exact missed_L.counted stored

/-! ### Contents, seeders and maintenances -/

/-- A content of a new name leaves the parts of the others. -/
theorem find_content_create {L : Ledger} {c : Content} {URI : String} (some : (L.find_content URI).isSome) :
    ({ L with contents := L.contents.create c } : Ledger).find_content URI = L.find_content URI := by
  show (L.contents.table.put L.contents.next c).rows.find? _ = _
  rw [Table.rows_put_new c (Index.find?_next L.contents),List.find?_append]
  obtain ⟨row,found⟩ := Option.isSome_iff_exists.mp some
  show (L.find_content URI).or _ = _
  rw [found]
  rfl

theorem Missed.create {L : Ledger} {c : Content} (missed_L : Missed L)
    (given : ∀ p, (c.key_parts.find? p).isSome → (L.seeders.find? p).isSome) :
    Missed { L with contents := L.contents.create c } where
  since := missed_L.since
  named := by
    intro id b found
    rw [find_content_create (missed_L.named found)]
    exact missed_L.named found
  known := by
    intro id c' p found part
    have found : (L.contents.create c).find? id = some c' := found
    rw [Index.find?_create] at found
    split at found
    · cases found
      exact given p part
    · exact missed_L.known found part
  counted := by
    intro p so found
    have same : missed { L with contents := L.contents.create c } p = missed L p := by
      refine missed_congr ?_ (fun {id b} bought => ?_) ?_ p
      · rfl
      · rw [Ledger.parts,find_content_create (missed_L.named bought),Ledger.parts]
      · rfl
    exact (missed_L.counted found).trans same.symm

/-- A new seeder has no parts, and starts at zero. -/
theorem Missed.register {L : Ledger} {p : AccountId} (missed_L : Missed L) (unknown : L.seeders.find? p = none) :
    Missed { L with statistics := L.statistics.put p ⟨0,0,0,0,0,0⟩ } := by
  have nothing : missed L p = 0 := by
    have zero : missed L p = L.buyings.table.total fun _ _ => 0 := by
      refine Table.total_congr fun id b _ => if_neg fun asked => ?_
      obtain ⟨k,c,found,part⟩ := content_of_parts asked.2.1
      have known := missed_L.known found part
      rw [unknown] at known
      cases known
    rw [zero]
    simp [Table.total]
  refine { missed_L with counted := fun {q so'} stored => ?_ }
  have stored : (L.statistics.put p ⟨0,0,0,0,0,0⟩).find? q = some so' := stored
  rw [Table.find?_put] at stored
  split at stored
  case isTrue here =>
    cases stored
    subst here
    exact nothing.symm
  case isFalse => exact missed_L.counted stored

/-- A maintenance starts anew. -/
theorem Missed.reset {L : Ledger} (missed_L : Missed L) {f : SeedingStatistics → SeedingStatistics}
    (zero : ∀ so, (f so).missed_delivered_keys = 0) :
    Missed { L with statistics := L.statistics.mapValues f, counted_from := L.buyings.next } := by
  refine ⟨⟨Nat.le_refl _,missed_L.named,missed_L.known⟩,fun {p so'} found => ?_⟩
  have found : (L.statistics.mapValues f).find? p = some so' := found
  rw [Table.find?_mapValues] at found
  obtain ⟨so,-,rfl⟩ := Option.map_eq_some_iff.mp found
  rw [zero]
  have none : L.buyings.table.total (fun id b =>
      if ({ L with statistics := L.statistics.mapValues f, counted_from := L.buyings.next } : Ledger).asked p id b then (1 : Int)
        else 0) = L.buyings.table.total fun _ _ => 0 :=
    Table.total_congr fun id b found => if_neg fun asked => Nat.not_lt.mpr asked.1 (L.buyings.below id b found)
  refine Eq.trans ?_ none.symm
  simp [Table.total]

/-! ### Every run -/

/-- A first answer is to a request since the last maintenance, and a purchase finds room in the
    counters of those it asks. -/
def answers_in_time : Operation → Ledger → Prop
  | .deliver_keys o, L => ∀ b ∈ L.buyings.find? o.buying, b.seeders_answered.contains o.seeder = false →
      L.counted_from ≤ o.buying
  | .request_to_buy o, L => ∀ row ∈ L.find_content o.URI, ∀ part ∈ row.2.key_parts.rows,
      ∀ so ∈ L.statistics.find? part.1, so.missed_delivered_keys.toNat + 1 < 2^32
  | _, _ => True

def Awaiting (L L' : Ledger) : Prop := Missed L → Missed L'

instance awaiting_composes : Composes Awaiting where
  refl _ := id
  trans first second := second ∘ first

instance {α : Type} {x : M α} [within : Within Quiet x] : Within Awaiting x where
  keeps L := Missed.quiet (within.keeps L)

instance : Entering Awaiting where
  balance _ _ _ := Missed.quiet (.of_eq rfl rfl rfl rfl rfl)
  vestings _ _ := Missed.quiet (.of_eq rfl rfl rfl rfl rfl)
  miners _ _ := Missed.quiet (.of_eq rfl rfl rfl rfl rfl)

instance : Within Awaiting reset_seeding_stats := .modify fun _ missed_L => missed_L.reset fun _ => rfl

theorem awaiting_submit {env : Env} {o : ContentSubmitOperation} {content : Option Nat} {L₀ L L' : Ledger}
    (evaluated : content_submit_evaluate env o L₀ = .ok content) (prepared : Prepared L₀ L)
    (ran : EStateM.run (content_submit_apply o content) L = .ok () L') : Awaiting L L' := by
  cases content with
  | some id =>
    have again : Within Quiet (modify_content id fun co =>
        { co with price := set_prices co.price o.price, co_authors := o.co_authors }) :=
      .modify fun L => quiet_content L id fun _ => rfl
    exact Missed.quiet (again.ok ran)
  | none =>
    obtain ⟨now,-,ran⟩ := run_observe_bind.mp ran
    obtain ⟨_,_,created,ran⟩ := run_bind_ok.mp (run_get_bind.mp ran)
    obtain ⟨_,-,ran⟩ := run_observe_bind.mp ran
    have rest : Quiet _ L' := Within.ok inferInstance ran
    refine Composes.trans (P := Awaiting) ?_ (Missed.quiet rest)
    cases created
    refine fun missed_L => missed_L.create fun p held => ?_
    rcases pair_key_parts_isSome held with member | none
    · obtain ⟨so,known,-⟩ := (content_submit_evaluate_ok evaluated).2.2.2 p member
      rw [show L.seeders = L₀.seeders by rw [prepared.rest],known]
      rfl
    · cases none

theorem awaiting_buy {o : RequestToBuyOperation} {ctx : BuyingContext} {L₀ L L' : Ledger} (prepared : Prepared L₀ L)
    (room : answers_in_time (.request_to_buy o) L₀) (ran : EStateM.run (request_to_buy_apply o ctx) L = .ok () L') :
    Awaiting L L' := by
  intro missed_L
  have statistics : L.statistics = L₀.statistics := by rw [prepared.rest]
  -- The price is converted first, which leaves the content and the counters.
  have seen {k : Nat} {content : Content} {after : Asset} {L₁ : Ledger} (read : get_content o.URI L = .ok (k,content))
      (converted : EStateM.run (convert_price o ctx.content_price (ctx.paid_price o)) L = .ok after L₁) :
      Missed L₁ ∧ (L₁.find_content o.URI).isSome ∧ L₁.parts o.URI = content.key_parts ∧
        ∀ p so, (content.key_parts.find? p).isSome → L₁.statistics.find? p = some so →
          so.missed_delivered_keys.toNat + 1 < 2^32 := by
    have quiet : Quiet L L₁ := Within.ok inferInstance converted
    have found := get_content_eq.mp read
    have listed := get_content_eq.mp ((get_content_prepared prepared).symm.trans read)
    refine ⟨missed_L.quiet quiet,?_,?_,fun p so part known => ?_⟩
    · rw [(quiet.find_content o.URI).1,found]
      rfl
    · rw [(quiet.find_content o.URI).2,parts_of_find found]
    · obtain ⟨s₀,before,same⟩ := quiet.counter known
      obtain ⟨key,held⟩ := Option.isSome_iff_exists.mp part
      rw [← same]
      exact room _ listed (p,key) (Table.mem_of_find? held) s₀ (by rw [← statistics]; exact before)
  cases request_to_buy_ok ran with
  | waiting k content after L₁ L₂ now _ read converted taken asked =>
    obtain ⟨missed₁,named,parts,room⟩ := seen read converted
    exact missed₁.bought named parts rfl (Within.ok inferInstance taken) room asked
  | delivered k content after L₁ L₂ L₃ now _ read converted taken paid ran =>
    obtain ⟨missed₁,named,parts,room⟩ := seen read converted
    obtain ⟨_,L₄,noted,ran⟩ := run_bind_ok.mp ran
    obtain ⟨_,L₅,pushed,asked⟩ := run_bind_ok.mp ran
    have finished : Quiet L₄ L₅ := by
      cases pushed
      exact .of_eq rfl rfl rfl rfl rfl
    refine missed₁.bought (b := new_buying o true (ctx.paid_price o) after now) named parts rfl ?_ room asked
    exact Composes.trans (Within.ok inferInstance taken) (Composes.trans (Within.ok inferInstance paid)
      (Composes.trans (Within.ok inferInstance noted) finished))

/-- Keys are only taken from those who have a part. -/
theorem deliver_keys_asked {env : Env} {o : DeliverKeysOperation} {L : Ledger}
    (evaluated : deliver_keys_evaluate env o L = .ok ()) : ∃ (b : Buying) (content : Content),
      L.buyings.find? o.buying = some b ∧ L.parts b.URI = content.key_parts ∧ (content.key_parts.find? o.seeder).isSome := by
  obtain ⟨b,read,rest⟩ := reads_bind.mp evaluated
  obtain ⟨⟨k,content⟩,read_content,rest⟩ := reads_bind.mp rest
  refine ⟨b,content,get_buying_ok.mp read,parts_of_find (get_content_eq.mp read_content),?_⟩
  cases held : content.key_parts.find? o.seeder with
  | some firstK => rfl
  | none =>
    obtain ⟨L₁,got,rest⟩ := reads_bind.mp rest
    rw [held] at rest
    cases known : L₁.seeders.find? o.seeder <;>
      rw [known] at rest <;> cases rest

theorem awaiting_deliver {env : Env} {o : DeliverKeysOperation} {L₀ L L' : Ledger}
    (evaluated : deliver_keys_evaluate env o L₀ = .ok ()) (prepared : Prepared L₀ L)
    (in_time : answers_in_time (.deliver_keys o) L₀) (ran : EStateM.run (deliver_keys_apply o) L = .ok () L') :
    Awaiting L L' := by
  intro missed_L
  obtain ⟨seen,content,found₀,parts₀,part⟩ := deliver_keys_asked evaluated
  have buyings : L.buyings = L₀.buyings := by rw [prepared.rest]
  have counted_from : L.counted_from = L₀.counted_from := by rw [prepared.rest]
  have found : L.buyings.find? o.buying = some seen := by rw [buyings,found₀]
  have parts : L.parts seen.URI = content.key_parts := by
    rw [Ledger.parts,Ledger.find_content,show L.contents = L₀.contents by rw [prepared.rest]]
    exact parts₀
  obtain ⟨seen',read',ran⟩ := run_observe_bind.mp ran
  cases found.symm.trans (get_buying_ok.mp read')
  obtain ⟨now,-,ran⟩ := run_observe_bind.mp ran
  obtain ⟨⟨k',content'⟩,-,ran⟩ := run_observe_bind.mp ran
  obtain ⟨_,L₁,noted,ran⟩ := run_bind_ok.mp ran
  have answered : Missed L₁ := by
    refine missed_L.answered found (by rw [parts]; exact part) (fun new => ?_) noted
    rw [counted_from]
    exact in_time seen found₀ new
  obtain ⟨b,-,ran⟩ := run_observe_bind.mp ran
  have rest : Quiet L₁ L' := by
    dsimp only at ran
    split at ran
    · cases ran
      exact quiet_composes.refl _
    · split at ran
      · exact Within.ok inferInstance ran
      · split at ran
        · exact Within.ok inferInstance ran
        · cases ran
          exact quiet_composes.refl _
  exact answered.quiet rest

theorem quiet_proof {o : ProofOfCustodyOperation} {L L' : Ledger} (ran : EStateM.run (proof_of_custody_apply o) L = .ok () L') :
    Quiet L L' := by
  cases proof_of_custody_ok ran with
  | first id content read known found new parts counted =>
    have noted : Within Quiet (modify_statistics o.seeder (first_proof content)) := quiet_modify_statistics fun _ => rfl
    have proved : Quiet L (L.with_content id (proved_content o.seeder L.properties.time)) :=
      quiet_content L id fun _ => rfl
    exact Composes.trans proved (noted.ok counted)
  | again id content reward L₁ L₂ read known counted found old inCore capped rewarded last =>
    have noted : Within Quiet (modify_statistics o.seeder fun so => { so with num_of_pors := so.num_of_pors + 1 }) :=
      quiet_modify_statistics fun _ => rfl
    have spent : Quiet L₁ (L₁.with_content id
        (rewarded_content o.seeder L.properties.time ⟨content.publishing_fee_escrow.amount - reward,core⟩)) :=
      quiet_content L₁ id fun _ => rfl
    have paid : Quiet _ L₂ := Within.ok inferInstance rewarded
    have pushed : Quiet L₂ L' := by
      rw [last]
      exact .of_eq rfl rfl rfl rfl rfl
    exact Composes.trans (noted.ok counted) (Composes.trans spent (Composes.trans paid pushed))

theorem awaiting_publish (o : ReadyToPublishOperation) (L : Ledger) : Awaiting L (ready_to_publish_apply o L) := by
  unfold ready_to_publish_apply
  dsimp only
  cases unknown : L.seeders.find? o.seeder with
  | some so => exact Missed.quiet (quiet_seeders L o.seeder _)
  | none =>
    intro missed_L
    exact (missed_L.register unknown).quiet
      (quiet_seeders { L with statistics := L.statistics.put o.seeder ⟨0,0,0,0,0,0⟩ } o.seeder _)

theorem awaiting_writes {o : SettingsOperation} {L L' : Ledger} (writes : Writes L o L') : Awaiting L L' := by
  cases writes with
  | ready_to_publish o => exact awaiting_publish o L
  | ready_to_publish2 o => exact awaiting_publish o L
  | _ => exact Missed.quiet (.of_eq rfl rfl rfl rfl rfl)

theorem awaiting_aloof {change : SettingsChange} {L L' : Ledger} (aloof : Aloof change)
    (applied : change.do_apply L = .ok L') : Awaiting L L' := by
  obtain ⟨-,seeders,statistics⟩ := aloof L L' applied
  have settled := change.settled applied
  exact Missed.quiet (.of_eq statistics settled.buyings settled.contents seeders settled.counted_from)

/-- After the counters are reset a maintenance asks no one. -/
theorem awaiting_maintenance {L L' : Ledger} (ran : EStateM.run perform_chain_maintenance L = .ok () L') : Awaiting L L' := by
  obtain ⟨_,-,ran⟩ := run_observe_bind.mp ran
  obtain ⟨_,L₂,housekept,ran⟩ := run_bind_ok.mp ran
  obtain ⟨_,L₁,reset,housekept⟩ := run_bind_ok.mp housekept
  have settled : Quiet L₂ L' := by
    simp only [run_bind_ok] at ran
    obtain ⟨_,L₃,adopted,_,L₄,got,ran⟩ := ran
    have first : Quiet L₂ L₃ := by
      cases adopted
      exact .of_eq rfl rfl rfl rfl rfl
    have second : Quiet L₃ L₄ := by
      cases got
      exact quiet_composes.refl _
    refine Composes.trans first (Composes.trans second ?_)
    split at ran
    · obtain ⟨_,L₅,scheduled,budgeted⟩ := run_bind_ok.mp ran
      have third : Quiet L₄ L₅ := by
        cases scheduled
        exact .of_eq rfl rfl rfl rfl rfl
      exact Composes.trans third (Within.ok inferInstance budgeted)
    · exact Within.ok inferInstance ran
  have rest : Quiet L₁ L₂ := by
    simp only [run_bind_ok] at housekept
    obtain ⟨_,_,got,_,L₃,lapsed,_,_,got₁,_,L₄,ended,_,_,got₂,renewed⟩ := housekept
    cases got
    cases got₁
    cases got₂
    exact Composes.trans (Within.ok inferInstance lapsed)
      (Composes.trans (Within.ok inferInstance ended) (Within.ok inferInstance renewed))
  have first : Awaiting L L₁ := Within.ok inferInstance reset
  exact Composes.trans first (Composes.trans (Missed.quiet rest) (Missed.quiet settled))

theorem awaiting_perform {action : Action} {L L' : Ledger} (met : each_applied answers_in_time L action)
    (ran : EStateM.run (perform action) L = .ok () L') : Awaiting L L' := by
  refine related_perform answers_in_time ?_ ?_ ?_ met ran
  · intro env executed op L L₂ L₃ x fee act source in_time valid prepared evaluated applied inside
    cases op <;> simp only [do_evaluate,reads_bind,reads_pure,Prod.mk.injEq] at evaluated
    case content_submit o =>
      obtain ⟨content,evaluated,-,rfl⟩ := evaluated
      exact awaiting_submit evaluated prepared applied
    case request_to_buy o =>
      obtain ⟨ctx,-,-,rfl⟩ := evaluated
      exact awaiting_buy prepared in_time applied
    case deliver_keys o =>
      obtain ⟨_,evaluated,-,rfl⟩ := evaluated
      exact awaiting_deliver evaluated prepared in_time applied
    case proof_of_custody o =>
      obtain ⟨_,-,-,rfl⟩ := evaluated
      exact Missed.quiet (quiet_proof applied)
    case proposal_update =>
      obtain ⟨-,rfl⟩ := evaluated
      exact inside applied
    case other payer paid change =>
      obtain ⟨-,rfl⟩ := evaluated
      obtain ⟨_,settled,stored⟩ := run_observe_bind.mp applied
      cases stored
      rcases source with ⟨o,rfl⟩ | aloof
      · exact awaiting_writes (do_apply_writes settled)
      · exact awaiting_aloof aloof settled
    all_goals
      obtain ⟨_,-,-,rfl⟩ := evaluated
      exact Within.ok inferInstance applied
  · rintro change L L' (rfl | aloof) applied
    · cases applied
      exact Missed.quiet (.of_eq rfl rfl rfl rfl rfl)
    · exact awaiting_aloof aloof applied
  · exact fun _ ran => awaiting_maintenance ran

theorem missed_genesis (g : GenesisState) : Missed (init_genesis g) where
  since := Nat.le_refl _
  named := fun found => nomatch found
  known := fun found => nomatch found
  counted := fun found => nomatch found

theorem missed_eq_length (L : Ledger) (p : AccountId) : missed L p = ((L.requests p).length : Int) := by
  have sum := Table.total_filter (fun id b => decide (L.asked p id b)) (fun _ _ => 1) L.buyings.table
  simp only [decide_eq_true_eq] at sum
  refine Eq.trans sum.symm ?_
  have ones : ((L.requests p).map fun _ => 1).sum = (L.requests p).length := by simp
  exact congrArg Int.ofNat ones

/-- As long as first answers are to requests since the last maintenance, every seeder's counter is the
    number of these that he has not answered; an answer to one of them finds it above zero. -/
theorem missed_keys_exact (g : GenesisState) (L : Ledger) (reached : Reached g (each_applied answers_in_time) L)
    (p : AccountId) (seeder : (L.seeders.find? p).isSome) : ∃ so, L.statistics.find? p = some so ∧
      so.missed_delivered_keys.toNat = (L.requests p).length ∧ ∀ env o, o.seeder = p →
        answers_in_time (.deliver_keys o) L → deliver_keys_evaluate env o L = .ok () →
        ∀ b, L.buyings.find? o.buying = some b → p ∉ b.seeders_answered → 0 < so.missed_delivered_keys := by
  have missed_L : Missed L :=
    reached.invariant (missed_genesis g) fun missed_L met ran => awaiting_perform met ran missed_L
  obtain ⟨so,found⟩ := Option.isSome_iff_exists.mp (reached.source.registered.counted seeder)
  have counted := missed_L.counted found
  rw [missed_eq_length] at counted
  have counted := Int.ofNat.inj counted
  refine ⟨so,found,counted,?_⟩
  rintro env o rfl in_time evaluated b bought new
  obtain ⟨b',content,bought',parts,part⟩ := deliver_keys_asked evaluated
  cases bought.symm.trans bought'
  have asked : L.asked o.seeder o.buying b :=
    ⟨in_time b bought (by simpa using new),by rw [parts]; exact part,new⟩
  have listed : (o.buying,b) ∈ L.requests o.seeder :=
    List.mem_filter.mpr ⟨Table.mem_of_find? bought,decide_eq_true asked⟩
  rw [UInt32.lt_iff_toNat_lt,counted]
  exact List.length_pos_of_mem listed

/-- Account 6 buys the content of the two seeders. -/
def seeded_purchase : List Action := two_seeders ++ [new_account default_account.options,grant 6 ⟨10,core⟩,
  .operation free_env (.content_submit seeded_submission),
  .operation free_env (.request_to_buy ⟨⟨0,core⟩,"ipfs:seeded",6,⟨10,core⟩,OO_none⟩)]

/-- The first seeder gives his key for it. -/
def give_key : DeliverKeysOperation := ⟨⟨0,core⟩,4,0,1,1⟩

theorem seeded_purchase_of_source : seeded_purchase.Forall of_source :=
  List.forall_append.mpr ⟨two_seeders_of_source,trivial,trivial,trivial,trivial⟩

instance (op : Operation) (L : Ledger) : Decidable (answers_in_time op L) := by
  cases op
  case deliver_keys o =>
    exact inferInstanceAs (Decidable (∀ b ∈ L.buyings.find? o.buying, b.seeders_answered.contains o.seeder = false →
      L.counted_from ≤ o.buying))
  case request_to_buy o =>
    exact inferInstanceAs (Decidable (∀ row ∈ L.find_content o.URI, ∀ part ∈ row.2.key_parts.rows,
      ∀ so ∈ L.statistics.find? part.1, so.missed_delivered_keys.toNat + 1 < 2^32))
  all_goals exact inferInstanceAs (Decidable True)

/-- What a step asks of an action without a proposal. -/
def asks_in_time (L : Ledger) : Action → Prop
  | .operation _ op => answers_in_time op L
  | _ => True

instance (L : Ledger) (action : Action) : Decidable (asks_in_time L action) :=
  match action with
  | .operation _ op => inferInstanceAs (Decidable (answers_in_time op L))
  | .maintenance | .header _ | .signing_miner _ | .settings _ => inferInstanceAs (Decidable True)

/-- One key is asked of seeder 4, who can give it. -/
theorem missed_keys_purchase : ∃ L so, Reached small_genesis (each_applied answers_in_time) L ∧
    L.statistics.find? 4 = some so ∧ (L.requests 4).length = 1 ∧ so.missed_delivered_keys.toNat = (L.requests 4).length ∧
    deliver_keys_evaluate free_env give_key L = .ok () ∧ 0 < so.missed_delivered_keys := by
  let L := endState (EStateM.run (perform_allowed asks_in_time seeded_purchase) (init_genesis small_genesis))
  have reached : Reached small_genesis (each_applied answers_in_time) L := by
    refine reached_perform_meets (fun L action plain asks => each_applied_of_source plain ?_) seeded_purchase_of_source
      .genesis (run_of_returned (by decide +kernel))
    rintro env op rfl
    exact asks
  obtain ⟨so,found,counted,answered⟩ := missed_keys_exact small_genesis L reached 4 (by decide +kernel)
  have evaluated : deliver_keys_evaluate free_env give_key L = .ok () := by decide +kernel
  have bought : ((L.buyings.find? 0).map (·.seeders_answered)) = some [] := by decide +kernel
  obtain ⟨b,bought,new⟩ := Option.map_eq_some_iff.mp bought
  exact ⟨L,so,reached,found,by decide +kernel,counted,evaluated,
    answered free_env give_key rfl (by decide +kernel) evaluated b bought (by simp [new])⟩

/-- A maintenance comes between the purchase and the answer, and the counter wraps. -/
theorem missed_keys_wrapped : ¬ ∀ g L, Reached g source_step L → ∀ p, (L.seeders.find? p).isSome →
    ∃ so, L.statistics.find? p = some so ∧ so.missed_delivered_keys.toNat = (L.requests p).length := by
  intro exact_always
  let actions := seeded_purchase ++ [.header 1530000005,.maintenance,.operation free_env (.deliver_keys give_key)]
  have reached : Reached small_genesis source_step (after_actions actions) :=
    reached_after_actions (List.forall_append.mpr ⟨seeded_purchase_of_source,trivial,trivial,trivial⟩) (by decide +kernel)
  have wrapped : ((after_actions actions).statistics.find? 4).map (·.missed_delivered_keys.toNat) = some (2^32 - 1) := by
    decide +kernel
  have none : ((after_actions actions).requests 4).length = 0 := by decide +kernel
  obtain ⟨so,found,counted⟩ := exact_always small_genesis _ reached 4 (by decide +kernel)
  rw [found,Option.map_some,counted,none] at wrapped
  cases wrapped

end Decent.Money

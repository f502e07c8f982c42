import Decent.Crashes
import Decent.Housekeeping

/-!
What the statistics of a seeder say of the contents he has. A first proof of custody adds the
content to his counters, and its expiry takes it out of the counters of those who were given a
part: the two agree as long as a first proof comes from one of these and no content is expired
twice.
-/
namespace Decent.Money
open Throwing

/-! ### What is counted -/

/-- What a content of this size counts for one of so many parts. -/
def part_size (size parts : Nat) : Nat := size * 1000 * 1000 / parts

/-- The contents that `p` has proved to have and that were not expired. -/
def Ledger.seeded_by (L : Ledger) (p : AccountId) : List (Nat × Content) :=
  L.contents.table.rows.filter fun row => L.applied.countP (returns row.1) = 0 ∧ (row.2.last_proof.find? p).isSome

/-- The counters are exact, and hold what the expiry of each content takes out of them. -/
structure Exact (L : Ledger) (p : AccountId) (so : SeedingStatistics) : Prop where
  num_of_content_seeded : so.num_of_content_seeded.toNat = (L.seeded_by p).length
  total_content_seeded : so.total_content_seeded.toNat =
    ((L.seeded_by p).map fun row => part_size row.2.size row.2.key_parts.rows.length).sum
  enough : ∀ row ∈ L.seeded_by p, 1 ≤ so.num_of_content_seeded ∧ row.2.seeded_size ≤ so.total_content_seeded

/-- The sum of a weight over the contents that `p` is counted for. -/
def seeded (weight : Nat → Nat → Nat) (L : Ledger) (p : AccountId) : Int :=
  L.contents.table.total fun id c =>
    if L.applied.countP (returns id) = 0 ∧ (c.last_proof.find? p).isSome then weight c.size c.key_parts.rows.length else 0

/-- The counters of a seeder as the sums they stand for. -/
def Counted (L : Ledger) (p : AccountId) (so : SeedingStatistics) : Prop :=
  (so.num_of_content_seeded.toNat : Int) = seeded (fun _ _ => 1) L p ∧
    (so.total_content_seeded.toNat : Int) = seeded part_size L p

/-- Whoever has proved that he has a content is a seeder who was given a part of it. -/
structure Given (L : Ledger) : Prop where
  known : ∀ {id c p}, L.contents.find? id = some c → (c.last_proof.find? p).isSome → (L.seeders.find? p).isSome
  parts : ∀ {id c p}, L.contents.find? id = some c → (c.last_proof.find? p).isSome → (c.key_parts.find? p).isSome
  sizes : ∀ {id c}, L.contents.find? id = some c → c.size ≤ max_file_size

/-- The counters of all seeders, when what was expired ended by `t`. -/
structure SeededTill (t : Nat) (L : Ledger) : Prop extends Given L where
  counted : ∀ {p so}, L.statistics.find? p = some so → Counted L p so
  ended : ∀ {id c}, L.contents.find? id = some c → L.applied.countP (returns id) ≠ 0 → c.expiration ≤ t
  fresh : ∀ {id}, L.contents.next ≤ id → L.applied.countP (returns id) = 0

/-- What was expired ended by the last maintenance. -/
structure Seeded (L : Ledger) : Prop where
  clock : L.properties.last_budget_time ≤ L.properties.time
  till : SeededTill L.properties.last_budget_time L

/-! ### What leaves the counters alone -/

/-- A content as the counters see it. -/
def Content.sight (c : Content) : Nat × Table AccountId Nat × (AccountId → Bool) :=
  (c.size,c.key_parts,fun p => (c.last_proof.find? p).isSome)

theorem seeded_congr {L L' : Ledger} (contents : L'.contents.table.rows.map (fun row => (row.1,row.2.sight)) =
      L.contents.table.rows.map fun row => (row.1,row.2.sight))
    (returned : ∀ id, L'.applied.countP (returns id) = L.applied.countP (returns id)) (weight : Nat → Nat → Nat)
    (p : AccountId) : seeded weight L' p = seeded weight L p := by
  unfold seeded
  simp only [returned]
  exact Table.total_of_rows (fun id (s : Nat × Table AccountId Nat × (AccountId → Bool)) =>
    if L.applied.countP (returns id) = 0 ∧ s.2.2 p = true then (weight s.1 s.2.1.rows.length : Int) else 0) contents

/-- Contents that look the same. -/
theorem content_sight {L L' : Ledger} (contents : L'.contents.table.rows.map (fun row => (row.1,row.2.sight)) =
      L.contents.table.rows.map fun row => (row.1,row.2.sight)) {id : Nat} {c' : Content}
    (found : L'.contents.find? id = some c') : ∃ c, L.contents.find? id = some c ∧ c.sight = c'.sight := by
  have same := Table.map_find?_of_rows contents id
  have found : L'.contents.table.find? id = some c' := found
  rw [found,Option.map_some] at same
  exact Option.map_eq_some_iff.mp same.symm

theorem Given.carry {L L' : Ledger} (given : Given L)
    (contents : L'.contents.table.rows.map (fun row => (row.1,row.2.sight)) =
      L.contents.table.rows.map fun row => (row.1,row.2.sight))
    (seeders : ∀ p, (L.seeders.find? p).isSome → (L'.seeders.find? p).isSome) : Given L' where
  known := by
    intro id c' p found proved
    obtain ⟨c,before,same⟩ := content_sight contents found
    simp only [Content.sight,Prod.mk.injEq] at same
    exact seeders p (given.known before ((congrFun same.2.2 p).trans proved))
  parts := by
    intro id c' p found proved
    obtain ⟨c,before,same⟩ := content_sight contents found
    simp only [Content.sight,Prod.mk.injEq] at same
    rw [← same.2.1]
    exact given.parts before ((congrFun same.2.2 p).trans proved)
  sizes := by
    intro id c' found
    obtain ⟨c,before,same⟩ := content_sight contents found
    simp only [Content.sight,Prod.mk.injEq] at same
    rw [← same.1]
    exact given.sizes before

/-- The counters, and what they count, are as they were. -/
structure Standing (L L' : Ledger) : Prop where
  counters : ∀ p, (L'.statistics.find? p).map (fun so => (so.num_of_content_seeded,so.total_content_seeded)) =
    (L.statistics.find? p).map fun so => (so.num_of_content_seeded,so.total_content_seeded)
  contents : L'.contents.table.rows.map (fun row => (row.1,row.2.sight)) =
    L.contents.table.rows.map fun row => (row.1,row.2.sight)
  expirations : ∀ id, (L'.contents.find? id).map (·.expiration) = (L.contents.find? id).map (·.expiration)
  next : L'.contents.next = L.contents.next
  returned : ∀ id, L'.applied.countP (returns id) = L.applied.countP (returns id)
  seeders : ∀ p, (L.seeders.find? p).isSome → (L'.seeders.find? p).isSome
  time : L'.properties.time = L.properties.time
  last_budget_time : L'.properties.last_budget_time = L.properties.last_budget_time

theorem Standing.of_eq {L L' : Ledger} (statistics : L'.statistics = L.statistics) (contents : L'.contents = L.contents)
    (applied : L'.applied = L.applied) (seeders : L'.seeders = L.seeders) (properties : L'.properties = L.properties) :
    Standing L L' where
  counters := by rw [statistics]; exact fun _ => rfl
  contents := by rw [contents]
  expirations := by rw [contents]; exact fun _ => rfl
  next := by rw [contents]
  returned := by rw [applied]; exact fun _ => rfl
  seeders := by rw [seeders]; exact fun _ => id
  time := by rw [properties]
  last_budget_time := by rw [properties]

instance standing_composes : Composes Standing where
  refl _ := .of_eq rfl rfl rfl rfl rfl
  trans first second := {
    counters := fun p => (second.counters p).trans (first.counters p)
    contents := second.contents.trans first.contents
    expirations := fun id => (second.expirations id).trans (first.expirations id)
    next := second.next.trans first.next
    returned := fun id => (second.returned id).trans (first.returned id)
    seeders := fun p => second.seeders p ∘ first.seeders p
    time := second.time.trans first.time
    last_budget_time := second.last_budget_time.trans first.last_budget_time }

/-- A change of a content that the counters do not see. -/
theorem standing_content (L : Ledger) (id : Nat) {f : Content → Content}
    (same : ∀ c, (f c).sight = c.sight ∧ (f c).expiration = c.expiration) : Standing L (L.with_content id f) :=
  { @Standing.of_eq L L rfl rfl rfl rfl rfl with
    contents := Index.rows_update_same (g := Content.sight) L.contents id fun c => (same c).1
    expirations := fun k => Index.map_find?_update L.contents id k fun c => (same c).2
    next := Index.next_update .. }

theorem rows_with_content {L : Ledger} {id : Nat} {c : Content} (found : L.contents.find? id = some c)
    {f : Content → Content} (same : (f c).sight = c.sight) :
    (L.with_content id f).contents.table.rows.map (fun row => (row.1,row.2.sight)) =
      L.contents.table.rows.map fun row => (row.1,row.2.sight) := by
  show (L.contents.update id f).table.rows.map _ = _
  rw [Index.update_of_find f found]
  exact Table.rows_put_same found same

theorem standing_seeders (L : Ledger) (p : AccountId) (so : Seeder) : Standing L { L with seeders := L.seeders.put p so } := by
  refine { @Standing.of_eq L L rfl rfl rfl rfl rfl with seeders := fun q here => ?_ }
  show ((L.seeders.put p so).find? q).isSome
  rw [Table.find?_put]
  split
  · rfl
  · exact here

/-- A change of the other statistics. -/
theorem standing_modify_statistics {p : AccountId} {f : SeedingStatistics → SeedingStatistics}
    (same : ∀ so, (f so).num_of_content_seeded = so.num_of_content_seeded ∧
      (f so).total_content_seeded = so.total_content_seeded) : Within Standing (modify_statistics p f) := by
  refine within_modify_statistics fun L so known => { @Standing.of_eq L L rfl rfl rfl rfl rfl with counters := fun q => ?_ }
  show ((L.statistics.put p (f so)).find? q).map _ = _
  rw [Table.find?_put]
  split
  case isTrue here => rw [here,known,Option.map_some,Option.map_some,(same so).1,(same so).2]
  case isFalse => rfl

instance : Noting Standing where
  permissions _ _ := .of_eq rfl rfl rfl rfl rfl
  subscription _ _ _ _ := .of_eq rfl rfl rfl rfl rfl

instance : Describing Standing where
  content L id _ incidental := standing_content L id fun c => by
    simp only [Content.sight,incidental.size,incidental.key_parts,incidental.expiration,incidental.last_proof,and_self]

instance : Logging Standing where
  applied L _ other :=
    { @Standing.of_eq L L rfl rfl rfl rfl rfl with
      returned := fun id => List.countP_cons_of_neg (by rw [other]; exact Bool.false_ne_true) }

instance : Accounting Standing where
  publishing _ _ := .of_eq rfl rfl rfl rfl rfl

instance : Pooling Standing where
  dynamic _ _ _ := .of_eq rfl rfl rfl rfl rfl

instance : Crediting Standing where
  balances _ _ := .of_eq rfl rfl rfl rfl rfl
  vestings _ _ := .of_eq rfl rfl rfl rfl rfl
  miners _ _ := .of_eq rfl rfl rfl rfl rfl

instance : Purchasing Standing where
  buyings _ _ := .of_eq rfl rfl rfl rfl rfl
  payments _ _ := .of_eq rfl rfl rfl rfl rfl

instance : Rewarding Standing where
  rewards L _ _ := { @Standing.of_eq L L rfl rfl rfl rfl rfl with }

instance : Enrolling Standing where
  accounts _ _ := .of_eq rfl rfl rfl rfl rfl
  subscriptions _ _ := .of_eq rfl rfl rfl rfl rfl

instance : Creating Standing where
  asset _ _ := .of_eq rfl rfl rfl rfl rfl

instance (p : AccountId) : Within Standing (modify_statistics p fun so => { so with
    missed_delivered_keys := so.missed_delivered_keys + 1 }) := standing_modify_statistics fun _ => ⟨rfl,rfl⟩

instance (p : AccountId) : Within Standing (modify_statistics p fun so => { so with
    total_content_requested_to_seed := so.total_content_requested_to_seed + 1 }) :=
  standing_modify_statistics fun _ => ⟨rfl,rfl⟩

instance (p : AccountId) (so : Seeder) :
    Within Standing (modify fun L : Ledger => { L with seeders := L.seeders.put p so } : M Unit) :=
  .modify fun L => standing_seeders L p so

instance (o : DeliverKeysOperation) (b : Buying) : Within Standing (note_answer o b) := by
  have counted : Within Standing (modify_statistics o.seeder fun so => { so with
      missed_delivered_keys := so.missed_delivered_keys - 1
      total_delivered_keys := so.total_delivered_keys + 1 }) := standing_modify_statistics fun _ => ⟨rfl,rfl⟩
  unfold note_answer
  infer_instance

instance : Within Standing reset_seeding_stats := by
  refine .modify fun L => { @Standing.of_eq L L rfl rfl rfl rfl rfl with counters := fun p => ?_ }
  show ((L.statistics.mapValues _).find? p).map _ = _
  rw [Table.find?_mapValues,Option.map_map]
  rfl

theorem Counted.carry {L L' : Ledger} {p : AccountId} {so so' : SeedingStatistics} (counted : Counted L p so)
    (counters : (so'.num_of_content_seeded,so'.total_content_seeded) = (so.num_of_content_seeded,so.total_content_seeded))
    (same : ∀ weight, seeded weight L' p = seeded weight L p) : Counted L' p so' := by
  obtain ⟨num,total⟩ := Prod.mk.inj counters
  exact ⟨by rw [num,same]; exact counted.1,by rw [total,same]; exact counted.2⟩

theorem SeededTill.standing {t : Nat} {L L' : Ledger} (standing : Standing L L') (till : SeededTill t L) : SeededTill t L' where
  toGiven := till.carry standing.contents standing.seeders
  counted := by
    intro p so' found
    have same := standing.counters p
    rw [found,Option.map_some] at same
    obtain ⟨so,before,counters⟩ := Option.map_eq_some_iff.mp same.symm
    exact (till.counted before).carry counters.symm fun weight => seeded_congr standing.contents standing.returned weight p
  ended := by
    intro id c' found
    have ends := standing.expirations id
    rw [found,Option.map_some] at ends
    obtain ⟨c,before,ends⟩ := Option.map_eq_some_iff.mp ends.symm
    rw [standing.returned,← ends]
    exact till.ended before
  fresh := by
    intro id above
    rw [standing.next] at above
    rw [standing.returned]
    exact till.fresh above

/-! ### What changes them -/

/-- A content that ends after the last scan was not expired. -/
theorem SeededTill.unexpired {t : Nat} {L : Ledger} (till : SeededTill t L) {id : Nat} {c : Content}
    (found : L.contents.find? id = some c) (ahead : t < c.expiration) : L.applied.countP (returns id) = 0 := by
  by_contra expired
  exact Nat.not_lt.mpr (till.ended found expired) ahead

theorem seeded_size_toNat {c : Content} (fits : c.size ≤ max_file_size) :
    c.seeded_size.toNat = part_size c.size c.key_parts.rows.length := by
  have bound : part_size c.size c.key_parts.rows.length < 2^64 := by
    refine Nat.lt_of_le_of_lt (Nat.div_le_self ..) ?_
    have fits : c.size ≤ 10000 := fits
    omega
  exact UInt64.toNat_ofNat_of_lt' bound

/-- A first proof adds the content to the counters of the seeder. -/
theorem SeededTill.prove {t : Nat} {L : Ledger} {id : Nat} {c : Content} {p : AccountId} {now : Nat} {so : SeedingStatistics}
    (till : SeededTill t L) (found : L.contents.find? id = some c) (ahead : t < c.expiration)
    (new : c.last_proof.find? p = none) (known : (L.seeders.find? p).isSome) (part : (c.key_parts.find? p).isSome)
    (counters : L.statistics.find? p = some so) (num : so.num_of_content_seeded.toNat + 1 < 2^32)
    (total : so.total_content_seeded.toNat + c.seeded_size.toNat < 2^64) :
    SeededTill t { L.with_content id (proved_content p now) with statistics := L.statistics.put p (first_proof c so) } := by
  have unexpired := till.unexpired found ahead
  have contents (k : Nat) (c' : Content) (here : (L.contents.update id (proved_content p now)).find? k = some c') :
      (k = id ∧ c' = proved_content p now c) ∨ L.contents.find? k = some c' := by
    rw [Index.find?_update] at here
    split at here
    case isTrue same =>
      rw [found] at here
      cases here
      exact .inl ⟨same,rfl⟩
    case isFalse => exact .inr here
  have sums (weight : Nat → Nat → Nat) (q : AccountId) : seeded weight
      { L.with_content id (proved_content p now) with statistics := L.statistics.put p (first_proof c so) } q =
      seeded weight L q + if q = p then (weight c.size c.key_parts.rows.length : Int) else 0 := by
    show (L.contents.update id (proved_content p now)).table.total _ = _
    rw [Index.update_of_find _ found,Table.total_put_old _ _ _ found]
    show seeded weight L q - (if L.applied.countP (returns id) = 0 ∧ _ then _ else _) +
      (if L.applied.countP (returns id) = 0 ∧ ((c.last_proof.put p now).find? q).isSome = true then
        (weight c.size c.key_parts.rows.length : Int) else 0) = _
    rw [Table.find?_put]
    by_cases here : q = p
    · simp [here,new,unexpired]
    · simp [here]
  have proofs {q : AccountId} (proved : ((proved_content p now c).last_proof.find? q).isSome) :
      q = p ∨ (c.last_proof.find? q).isSome := by
    have proved : ((c.last_proof.put p now).find? q).isSome := proved
    rw [Table.find?_put] at proved
    split at proved
    case isTrue same => exact .inl same
    case isFalse => exact .inr proved
  refine ⟨⟨?_,?_,?_⟩,?_,?_,?_⟩
  · intro k c' q here proved
    rcases contents k c' here with ⟨-,rfl⟩ | before
    · rcases proofs proved with rfl | earlier
      · exact known
      · exact till.known (c := c) found earlier
    · exact till.known before proved
  · intro k c' q here proved
    rcases contents k c' here with ⟨-,rfl⟩ | before
    · rcases proofs proved with rfl | earlier
      · exact part
      · exact till.parts (c := c) found earlier
    · exact till.parts before proved
  · intro k c' here
    rcases contents k c' here with ⟨-,rfl⟩ | before
    · exact till.sizes (c := c) found
    · exact till.sizes before
  · intro q so' stored
    have here : (L.statistics.put p (first_proof c so)).find? q = some so' := stored
    rw [Table.find?_put] at here
    split at here
    case isTrue same =>
      obtain rfl := Option.some.inj here
      subst same
      have old := till.counted counters
      refine ⟨?_,?_⟩
      · rw [sums,if_pos rfl,← old.1]
        show (((so.num_of_content_seeded + 1).toNat : Nat) : Int) = _
        rw [UInt32.toNat_add,show (1 : UInt32).toNat = 1 from rfl,Nat.mod_eq_of_lt num]
        rfl
      · rw [sums,if_pos rfl,← old.2]
        show (((so.total_content_seeded + c.seeded_size).toNat : Nat) : Int) = _
        rw [UInt64.toNat_add,Nat.mod_eq_of_lt total,seeded_size_toNat (till.sizes found)]
        rfl
    case isFalse other =>
      refine (till.counted here).carry rfl fun weight => ?_
      rw [sums,if_neg other,Int.add_zero]
  · intro k c' here
    rcases contents k c' here with ⟨same,rfl⟩ | before
    · exact till.ended (c := c) (same ▸ found)
    · exact till.ended before
  · intro k above
    have above : (L.contents.update id (proved_content p now)).next ≤ k := above
    rw [Index.next_update] at above
    exact till.fresh above

/-- A content that is entered has been proved by no one. -/
theorem SeededTill.create {t : Nat} {L : Ledger} {c : Content} (till : SeededTill t L) (fits : c.size ≤ max_file_size)
    (none : ∀ p, c.last_proof.find? p = none) : SeededTill t { L with contents := L.contents.create c } := by
  have contents (k : Nat) (c' : Content) (here : (L.contents.create c).find? k = some c') :
      (k = L.contents.next ∧ c' = c) ∨ L.contents.find? k = some c' := by
    rw [Index.find?_create] at here
    split at here
    case isTrue same =>
      cases here
      exact .inl ⟨same,rfl⟩
    case isFalse => exact .inr here
  have sums (weight : Nat → Nat → Nat) (p : AccountId) :
      seeded weight { L with contents := L.contents.create c } p = seeded weight L p := by
    show (L.contents.table.put L.contents.next c).total _ = _
    rw [Table.total_put_new _ _ _ (Index.find?_next L.contents)]
    simp [none,seeded]
  refine ⟨⟨?_,?_,?_⟩,?_,?_,?_⟩
  · intro k c' p here proved
    rcases contents k c' here with ⟨-,rfl⟩ | before
    · rw [none] at proved
      cases proved
    · exact till.known before proved
  · intro k c' p here proved
    rcases contents k c' here with ⟨-,rfl⟩ | before
    · rw [none] at proved
      cases proved
    · exact till.parts before proved
  · intro k c' here
    rcases contents k c' here with ⟨-,rfl⟩ | before
    · exact fits
    · exact till.sizes before
  · exact fun here => (till.counted here).carry rfl fun weight => sums weight _
  · intro k c' here expired
    rcases contents k c' here with ⟨same,rfl⟩ | before
    · exact absurd (till.fresh (Nat.le_of_eq same.symm)) expired
    · exact till.ended before expired
  · exact fun above => till.fresh (Nat.le_of_succ_le above)

/-- A content that was not expired may end at another time. -/
theorem SeededTill.ends {t : Nat} {L : Ledger} {id : Nat} {c : Content} {f : Content → Content} (till : SeededTill t L)
    (found : L.contents.find? id = some c) (ahead : t < c.expiration) (same : (f c).sight = c.sight) :
    SeededTill t (L.with_content id f) := by
  have unexpired := till.unexpired found ahead
  have rows := rows_with_content found same
  refine { till.carry rows (fun _ here => here) with counted := ?_, ended := ?_, fresh := ?_ }
  · exact fun here => (till.counted here).carry rfl fun weight => seeded_congr rows (fun _ => rfl) weight _
  · intro k c' here expired
    have here : (L.contents.update id f).find? k = some c' := here
    rw [Index.find?_update] at here
    split at here
    case isTrue same => exact absurd (same ▸ unexpired) expired
    case isFalse => exact till.ended here expired
  · intro k above
    have above : (L.contents.update id f).next ≤ k := above
    rw [Index.next_update] at above
    exact till.fresh above

/-! ### Expiry -/

/-- The counters of a seeder after a content of his is expired. -/
def forgotten (content : Content) (so : SeedingStatistics) : UInt32 × UInt64 :=
  (so.num_of_content_seeded - 1,so.total_content_seeded - content.seeded_size)

/-- The content is taken out of the counters of those listed who have proved that they have it. -/
theorem forget_seeders_ok {content : Content} {seeders : List AccountId} {L L' : Ledger} {u : Unit} (nodup : seeders.Nodup)
    (ran : EStateM.run (forget_seeders content seeders) L = .ok u L') :
    L' = { L with statistics := L'.statistics } ∧ ∀ p,
      (L'.statistics.find? p).map (fun so => (so.num_of_content_seeded,so.total_content_seeded)) =
        (L.statistics.find? p).map fun so => if p ∈ seeders ∧ (content.last_proof.find? p).isSome then forgotten content so
          else (so.num_of_content_seeded,so.total_content_seeded) := by
  induction seeders generalizing L with
  | nil =>
    cases ran
    exact ⟨rfl,fun p => by simp⟩
  | cons q rest ih =>
    obtain ⟨outside,nodup⟩ := List.nodup_cons.mp nodup
    have first : ∃ so so', L.statistics.find? q = some so ∧
        EStateM.run (forget_seeders content rest) { L with statistics := L.statistics.put q so' } = .ok () L' ∧
        (so'.num_of_content_seeded,so'.total_content_seeded) = if (content.last_proof.find? q).isSome then
          forgotten content so else (so.num_of_content_seeded,so.total_content_seeded) := by
      unfold forget_seeders at ran
      split at ran
      case isTrue proved =>
        obtain ⟨_,L₁,counted,ran⟩ := run_bind_ok.mp ran
        obtain ⟨so,known,rfl⟩ := modify_statistics_ok counted
        exact ⟨so,_,known,ran,(if_pos proved).symm⟩
      case isFalse unproved =>
        obtain ⟨_,L₁,counted,ran⟩ := run_bind_ok.mp ran
        obtain ⟨so,known,rfl⟩ := modify_statistics_ok counted
        exact ⟨so,_,known,ran,(if_neg unproved).symm⟩
    obtain ⟨so,so',known,ran,counters⟩ := first
    obtain ⟨frame,later⟩ := ih nodup ran
    refine ⟨frame,fun p => ?_⟩
    rw [later,Table.find?_put]
    by_cases here : p = q
    · subst here
      simp [outside,known,counters]
    · simp [here]

/-- An expired content counts no more. -/
theorem SeededTill.expire {t : Nat} {L L₁ : Ledger} {id : Nat} {c content : Content} {v : VirtualOperation}
    (till : SeededTill t L) (found : L.contents.find? id = some c) (same : c.sight = content.sight) (due : c.expiration ≤ t)
    (once : L.applied.countP (returns id) = 0) (returned : ∀ k, returns k v = decide (k = id))
    (ran : EStateM.run (forget_seeders content (content.key_parts.rows.map Prod.fst)) L = .ok () L₁) :
    SeededTill t { L₁ with applied := v :: L₁.applied } := by
  obtain ⟨frame,counters⟩ := forget_seeders_ok content.key_parts.distinct ran
  simp only [Content.sight,Prod.mk.injEq] at same
  obtain ⟨size,key_parts,shown⟩ := same
  have shown (p : AccountId) : (content.last_proof.find? p).isSome = (c.last_proof.find? p).isSome := (congrFun shown p).symm
  have contents : L₁.contents = L.contents := by rw [frame]
  have seeders : L₁.seeders = L.seeders := by rw [frame]
  have applied : L₁.applied = L.applied := by rw [frame]
  have counts (k : Nat) : (v :: L₁.applied).countP (returns k) = L.applied.countP (returns k) + if k = id then 1 else 0 := by
    rw [applied,List.countP_cons,returned]
    simp
  have sums (weight : Nat → Nat → Nat) (p : AccountId) : seeded weight { L₁ with applied := v :: L₁.applied } p =
      seeded weight L p - if (c.last_proof.find? p).isSome then (weight c.size c.key_parts.rows.length : Int) else 0 := by
    show L₁.contents.table.total _ = _
    rw [contents]
    rw [Table.total_at (g := fun id c => if L.applied.countP (returns id) = 0 ∧ (c.last_proof.find? p).isSome then
      (weight c.size c.key_parts.rows.length : Int) else 0) found fun k w other => by simp only [counts,if_neg other,Nat.add_zero]]
    simp only [counts,once,if_true,true_and,Nat.zero_add,Nat.one_ne_zero,false_and,if_false,Int.add_zero]
    rfl
  have enough (weight : Nat → Nat → Nat) {p : AccountId} (proved : (c.last_proof.find? p).isSome) :
      (weight c.size c.key_parts.rows.length : Int) ≤ seeded weight L p := by
    have within := Table.le_total (f := fun id c => if L.applied.countP (returns id) = 0 ∧ (c.last_proof.find? p).isSome then
      (weight c.size c.key_parts.rows.length : Int) else 0) (fun _ _ => by split <;> omega) found
    rwa [if_pos ⟨once,proved⟩] at within
  have given : Given { L₁ with applied := v :: L₁.applied } := by
    refine till.carry ?_ ?_
    · show L₁.contents.table.rows.map _ = _
      rw [contents]
    · show ∀ p, (L.seeders.find? p).isSome → (L₁.seeders.find? p).isSome
      rw [seeders]
      exact fun _ here => here
  refine { given with counted := ?_, ended := ?_, fresh := ?_ }
  · intro p so' stored
    have stored : L₁.statistics.find? p = some so' := stored
    have taken := counters p
    rw [stored,Option.map_some] at taken
    obtain ⟨so,before,taken⟩ := Option.map_eq_some_iff.mp taken.symm
    obtain ⟨num,total⟩ := till.counted before
    by_cases proved : (c.last_proof.find? p).isSome
    · have listed : p ∈ content.key_parts.rows.map Prod.fst := by
        rw [← Table.isSome_find?_iff,← key_parts]
        exact till.parts found proved
      rw [if_pos ⟨listed,(shown p).trans proved⟩] at taken
      obtain ⟨num',total'⟩ := Prod.mk.inj taken
      have one := enough (fun _ _ => 1) proved
      have part := enough part_size proved
      have seeded_size : content.seeded_size.toNat = part_size c.size c.key_parts.rows.length := by
        rw [seeded_size_toNat (size ▸ till.sizes found),size,key_parts]
      refine ⟨?_,?_⟩
      · have less : (1 : UInt32) ≤ so.num_of_content_seeded := UInt32.le_iff_toNat_le.mpr (by simp; omega)
        rw [← num',UInt32.toNat_sub_of_le _ _ less,sums,if_pos proved,← num]
        simp; omega
      · have less : content.seeded_size ≤ so.total_content_seeded := UInt64.le_iff_toNat_le.mpr (by omega)
        rw [← total',UInt64.toNat_sub_of_le _ _ less,sums,if_pos proved,← total,seeded_size]
        omega
    · rw [if_neg fun both => proved ((shown p).symm.trans both.2)] at taken
      obtain ⟨num',total'⟩ := Prod.mk.inj taken
      refine ⟨?_,?_⟩
      · rw [← num',num,sums,if_neg proved,Int.sub_zero]
      · rw [← total',total,sums,if_neg proved,Int.sub_zero]
  · intro k c' here expired
    have here : L₁.contents.find? k = some c' := here
    have expired : (v :: L₁.applied).countP (returns k) ≠ 0 := expired
    rw [contents] at here
    by_cases same : k = id
    · subst same
      cases here.symm.trans found
      exact due
    · rw [counts,if_neg same] at expired
      exact till.ended here expired
  · intro k above
    have above : L₁.contents.next ≤ k := above
    rw [contents] at above
    show (v :: L₁.applied).countP (returns k) = 0
    have other : k ≠ id := Nat.ne_of_gt (Nat.lt_of_lt_of_le (L.contents.below id c found) above)
    rw [counts,if_neg other,till.fresh above]

theorem content_expire_seeded {t : Nat} {L L' : Ledger} {id : Nat} {content : Content} {u : Unit} (till : SeededTill t L)
    (found : L.contents.find? id = some content) (due : content.expiration ≤ t) (once : L.applied.countP (returns id) = 0)
    (ran : EStateM.run (content_expire id content) L = .ok u L') : SeededTill t L' := by
  have emptied : Within Standing (modify_content id fun co =>
      { co with publishing_fee_escrow := { co.publishing_fee_escrow with amount := 0 } }) :=
    .modify fun L => standing_content L id fun _ => ⟨rfl,rfl⟩
  simp only [content_expire,run_bind_ok] at ran
  obtain ⟨_,L₁,paid,_,L₂,noted,_,L₃,changed,_,L₄,forgotten,last⟩ := ran
  have standing : Standing L L₃ := Composes.trans (Within.ok inferInstance paid)
    (Composes.trans (Within.ok inferInstance noted) (emptied.ok changed))
  have sight := Table.map_find?_of_rows standing.contents id
  rw [show L.contents.table.find? id = some content from found,Option.map_some] at sight
  obtain ⟨c,found₃,same⟩ := Option.map_eq_some_iff.mp sight
  have ends := standing.expirations id
  rw [found,show L₃.contents.find? id = some c from found₃] at ends
  have ends : c.expiration = content.expiration := Option.some.inj ends
  cases last
  refine (till.standing standing).expire found₃ same (ends ▸ due) (by rw [standing.returned,once]) (fun k => ?_) forgotten
  exact decide_eq_decide.mpr eq_comm

/-- A scan expires each content it meets once. -/
theorem expire_contents_seeded {t : Nat} {ids : List Nat} {L L' : Ledger} {u : Unit} (till : SeededTill t L)
    (nodup : ids.Nodup) (due : ∀ id ∈ ids, ∀ c, L.contents.find? id = some c → c.expiration ≤ t)
    (once : ∀ id ∈ ids, L.applied.countP (returns id) = 0) (ran : EStateM.run (expire_contents ids) L = .ok u L') :
    SeededTill t L' := by
  induction ids generalizing L with
  | nil =>
    cases ran
    exact till
  | cons id rest ih =>
    obtain ⟨outside,nodup⟩ := List.nodup_cons.mp nodup
    obtain ⟨content,L₁,found,expired,ran⟩ := expire_contents_cons_ok ran
    have lapsed := content_expire_lapsed expired
    have till₁ := content_expire_seeded till found (due id List.mem_cons_self content found) (once id List.mem_cons_self) expired
    refine ih till₁ nodup (fun k member c' found' => ?_) (fun k member => ?_) ran
    · have ends := lapsed.expirations k
      rw [found',Option.map_some] at ends
      obtain ⟨c,before,ends⟩ := Option.map_eq_some_iff.mp ends.symm
      exact ends ▸ due k (List.mem_cons_of_mem _ member) c before
    · have other : k ≠ id := fun same => outside (same ▸ member)
      rw [lapsed.returned,once k (List.mem_cons_of_mem _ member),List.count_singleton]
      simp [other.symm]

theorem SeededTill.mono {t t' : Nat} {L : Ledger} (till : SeededTill t L) (later : t ≤ t') : SeededTill t' L :=
  { till with ended := fun found expired => Nat.le_trans (till.ended found expired) later }

/-- The scan meets no content that ended before the last one. -/
def Onward (L : Ledger) : Prop :=
  ∀ id c, L.contents.find? id = some c → scan_start L ≤ c.expiration → c.expiration ≤ L.properties.time →
    L.properties.last_budget_time < c.expiration

/-- So it is as long as the clock has not run over. -/
theorem onward_of_clock {L : Ledger} (room : L.properties.last_budget_time + L.parameters.block_interval < 2^32) : Onward L := by
  intro id c _ scanned _
  rw [scan_start,later,Nat.mod_eq_of_lt room] at scanned
  exact Nat.lt_of_lt_of_le (Nat.lt_add_of_pos_right L.parameters.interval_positive) scanned

/-- The counters are exact however far the scan of a maintenance has come. -/
theorem Seeded.scanning {L L₁ L₂ : Ledger} {before after : List Nat} (seeded : Seeded L) (onward : Onward L)
    (split : scanned_contents L = before ++ after) (counters : EStateM.run reset_seeding_stats L = .ok () L₁)
    (lapsed : EStateM.run (expire_contents before) L₁ = .ok () L₂) : SeededTill L.properties.time L₂ := by
  have reset : Standing L L₁ := Within.ok inferInstance counters
  cases counters
  have scanned {id : Nat} (member : id ∈ before) : ∃ c, L.contents.find? id = some c ∧
      scan_start L ≤ c.expiration ∧ c.expiration ≤ L.properties.time := by
    have member : id ∈ scanned_contents L := split ▸ List.mem_append_left after member
    obtain ⟨c,row,within⟩ := mem_scan.mp member
    exact ⟨c,Table.find?_of_mem row,within⟩
  have nodup : (scanned_contents L).Nodup := nodup_scan _ _ _ L.contents.table.distinct
  rw [split] at nodup
  refine expire_contents_seeded ((seeded.till.standing reset).mono seeded.clock) (List.nodup_append.mp nodup).1 ?_ ?_ lapsed
  · intro id member c found
    obtain ⟨c₁,found₁,-,due⟩ := scanned member
    cases found.symm.trans found₁
    exact due
  · intro id member
    obtain ⟨c,found,start,due⟩ := scanned member
    exact seeded.till.unexpired found (onward id c found start due)

theorem Seeded.maintained {L L' : Ledger} (seeded : Seeded L) (onward : Onward L)
    (ran : EStateM.run perform_chain_maintenance L = .ok () L') : Seeded L' := by
  simp only [perform_chain_maintenance,decent_housekeeping,run_bind_ok,run_observe] at ran
  obtain ⟨_,_,⟨-,rfl⟩,_,L₄,⟨_,L₁,counters,_,_,got,_,L₂,lapsed,_,_,got₂,_,L₃,expired,_,_,got₃,renewed⟩,ran⟩ := ran
  cases got
  cases got₂
  cases got₃
  have scanned : SeededTill L.properties.time L₂ := by
    refine seeded.scanning onward (List.append_nil _).symm counters ?_
    cases counters
    exact lapsed
  have reset : Standing L L₁ := Within.ok inferInstance counters
  have rest : Standing L₂ L₄ := Composes.trans (Within.ok inferInstance expired) (Within.ok inferInstance renewed)
  have now : L₄.properties.time = L.properties.time := rest.time.trans ((expire_contents_lapsed lapsed).time.trans reset.time)
  have till₄ := scanned.standing rest
  obtain ⟨_,L₅,settled,_,_,got,ran⟩ := ran
  cases settled
  cases got
  have budgeted {L₅ : Ledger} (till : SeededTill L.properties.time L₅) (time : L₅.properties.time = L.properties.time)
      (ran : EStateM.run process_budget L₅ = .ok () L') : Seeded L' := by
    obtain ⟨frame,time',last⟩ := process_budget_frame ran
    refine ⟨Nat.le_of_eq (last.trans time'.symm),?_⟩
    rw [last,time,frame]
    exact { till with }
  split at ran
  · obtain ⟨_,_,scheduled,ran⟩ := run_bind_ok.mp ran
    cases scheduled
    refine budgeted ?_ ?_ ran
    · exact { till₄ with }
    · exact now
  · refine budgeted ?_ ?_ ran
    · exact { till₄ with }
    · exact now

/-! ### Every run -/

/-- A first proof comes from a seeder who was given a part, and his counters have room for it. -/
def proves_part : Operation → Ledger → Prop
  | .proof_of_custody o, L => ∀ row ∈ L.find_content o.URI, row.2.last_proof.find? o.seeder = none →
      (row.2.key_parts.find? o.seeder).isSome ∧ ∀ so ∈ L.statistics.find? o.seeder,
        so.num_of_content_seeded.toNat + 1 < 2^32 ∧ so.total_content_seeded.toNat + row.2.seeded_size.toNat < 2^64
  | _, _ => True

/-- Runs of the source with such proofs, in which no maintenance goes back to a content. -/
def custody_step (L : Ledger) (action : Action) : Prop :=
  each_applied proves_part L action ∧ (action = .maintenance → Onward L)

def Tallying (L L' : Ledger) : Prop := Seeded L → Seeded L'

theorem Standing.tallying {L L' : Ledger} (standing : Standing L L') : Tallying L L' := by
  rintro ⟨clock,till⟩
  refine ⟨?_,?_⟩
  · rw [standing.last_budget_time,standing.time]
    exact clock
  · rw [standing.last_budget_time]
    exact till.standing standing

instance tallying_composes : Composes Tallying where
  refl _ := id
  trans first second := second ∘ first

instance {α : Type} {x : M α} [within : Within Standing x] : Within Tallying x where
  keeps L := (within.keeps L).tallying

instance : Entering Tallying where
  balance _ _ _ := Standing.tallying (.of_eq rfl rfl rfl rfl rfl)
  vestings _ _ := Standing.tallying (.of_eq rfl rfl rfl rfl rfl)
  miners _ _ := Standing.tallying (.of_eq rfl rfl rfl rfl rfl)

instance (timestamp : Nat) : Within Tallying (update_head timestamp) :=
  within_update_head fun _ ahead seeded => ⟨Nat.le_trans seeded.clock (Nat.le_of_lt ahead),{ seeded.till with }⟩

theorem tallying_submit {o : ContentSubmitOperation} {content : Option Nat} {L L' : Ledger}
    (valid : (Operation.content_submit o).validate = true)
    (ran : EStateM.run (content_submit_apply o content) L = .ok () L') : Tallying L L' := by
  cases content with
  | some id =>
    have again : Within Standing (modify_content id fun co =>
        { co with price := set_prices co.price o.price, co_authors := o.co_authors }) :=
      .modify fun L => standing_content L id fun _ => ⟨rfl,rfl⟩
    exact (again.ok ran).tallying
  | none =>
    obtain ⟨now,-,ran⟩ := run_observe_bind.mp ran
    obtain ⟨_,_,created,ran⟩ := run_bind_ok.mp (run_get_bind.mp ran)
    obtain ⟨_,-,ran⟩ := run_observe_bind.mp ran
    have rest : Standing _ L' := Within.ok inferInstance ran
    refine Composes.trans (P := Tallying) ?_ rest.tallying
    cases created
    simp only [Operation.validate,Bool.and_eq_true,decide_eq_true_eq] at valid
    exact fun seeded => ⟨seeded.clock,seeded.till.create valid.1.1.1.2 fun _ => rfl⟩

theorem tallying_cancel {o : ContentCancellationOperation} {L₀ L L' : Ledger}
    (evaluated : content_cancellation_evaluate o L₀ = .ok ()) (prepared : Prepared L₀ L)
    (ran : EStateM.run (content_cancellation_apply o) L = .ok () L') : Tallying L L' := by
  simp only [content_cancellation_evaluate,reads_bind,reads_lift,fc_assert_ok,head_block_time,reads_pure] at evaluated
  obtain ⟨⟨id₀,c₀⟩,read₀,_,-,_,⟨_,got,rfl⟩,_,before,-⟩ := evaluated
  cases got
  obtain ⟨⟨id,c⟩,read,ran⟩ := run_observe_bind.mp ran
  obtain ⟨now,-,changed⟩ := run_observe_bind.mp ran
  cases changed
  cases read₀.symm.trans ((get_content_prepared prepared).symm.trans read)
  intro seeded
  have time : L.properties.time = L₀.properties.time := by rw [prepared.rest]
  refine ⟨seeded.clock,seeded.till.ends (get_content_ok read).1 ?_ (by simp only [Content.sight])⟩
  exact Nat.lt_of_le_of_lt seeded.clock (time ▸ before)

theorem tallying_proof {env : Env} {o : ProofOfCustodyOperation} {L₀ L L' : Ledger}
    (evaluated : proof_of_custody_evaluate env o L₀ = .ok ()) (prepared : Prepared L₀ L)
    (part : proves_part (.proof_of_custody o) L₀) (ran : EStateM.run (proof_of_custody_apply o) L = .ok () L') :
    Tallying L L' := by
  obtain ⟨id₀,c₀,read₀,ahead⟩ := proof_of_custody_evaluate_ok evaluated
  have read₀ := (get_content_prepared prepared).trans read₀
  have time : L.properties.time = L₀.properties.time := by rw [prepared.rest]
  have statistics : L.statistics = L₀.statistics := by rw [prepared.rest]
  cases proof_of_custody_ok ran with
  | first id content read known found new parts counted =>
    cases read₀.symm.trans read
    obtain ⟨so,counters,rfl⟩ := modify_statistics_ok counted
    have counters : L.statistics.find? o.seeder = some so := counters
    have listed := get_content_eq.mp ((get_content_prepared prepared).symm.trans read)
    obtain ⟨given,room⟩ := part _ listed new
    obtain ⟨num,total⟩ := room so (by rw [← statistics]; exact counters)
    intro seeded
    refine ⟨seeded.clock,seeded.till.prove found ?_ new known given counters num total⟩
    exact Nat.lt_of_le_of_lt seeded.clock (time ▸ ahead)
  | again id content reward L₁ L₂ read known counted found old inCore capped rewarded last =>
    have noted : Within Standing (modify_statistics o.seeder fun so => { so with num_of_pors := so.num_of_pors + 1 }) :=
      standing_modify_statistics fun _ => ⟨rfl,rfl⟩
    have first : Standing L L₁ := noted.ok counted
    have spent : Standing L₁ (L₁.with_content id
        (rewarded_content o.seeder L.properties.time ⟨content.publishing_fee_escrow.amount - reward,core⟩)) := by
      refine { @Standing.of_eq L₁ L₁ rfl rfl rfl rfl rfl with
        contents := rows_with_content found ?_
        expirations := fun k => Index.map_find?_update L₁.contents id k fun _ => rfl
        next := Index.next_update .. }
      simp only [Content.sight,rewarded_content,Prod.mk.injEq,true_and]
      funext p
      rw [Table.find?_put]
      split
      case isTrue here => rw [here,old]; rfl
      case isFalse => rfl
    have paid : Standing _ L₂ := Within.ok inferInstance rewarded
    have pushed : Standing L₂ L' := by
      rw [last]
      exact { @Standing.of_eq L₂ L₂ rfl rfl rfl rfl rfl with
        returned := fun _ => List.countP_cons_of_neg Bool.false_ne_true }
    exact (Composes.trans first (Composes.trans spent (Composes.trans paid pushed))).tallying

/-- A new seeder starts with counters at zero, and has proved nothing. -/
theorem SeededTill.register {t : Nat} {L : Ledger} {p : AccountId} (till : SeededTill t L)
    (unproved : ∀ id c, L.contents.find? id = some c → c.last_proof.find? p = none) :
    SeededTill t { L with statistics := L.statistics.put p ⟨0,0,0,0,0,0⟩ } := by
  have nothing (weight : Nat → Nat → Nat) : seeded weight L p = 0 := by
    have zero : seeded weight L p = L.contents.table.total fun _ _ => 0 :=
      Table.total_congr fun id c found => by simp [unproved id c found]
    rw [zero]
    simp [Table.total]
  refine { till with counted := fun {q so'} stored => ?_ }
  have stored : (L.statistics.put p ⟨0,0,0,0,0,0⟩).find? q = some so' := stored
  rw [Table.find?_put] at stored
  split at stored
  case isTrue here =>
    cases stored
    subst here
    exact ⟨(nothing fun _ _ => 1).symm,(nothing part_size).symm⟩
  case isFalse => exact till.counted stored

theorem tallying_publish (o : ReadyToPublishOperation) (L : Ledger) : Tallying L (ready_to_publish_apply o L) := by
  unfold ready_to_publish_apply
  dsimp only
  cases unknown : L.seeders.find? o.seeder with
  | some so => exact (standing_seeders L o.seeder _).tallying
  | none =>
    intro seeded
    have unproved (id : Nat) (c : Content) (found : L.contents.find? id = some c) : c.last_proof.find? o.seeder = none := by
      by_contra proved
      have known := seeded.till.known found (Option.isSome_iff_ne_none.mpr proved)
      rw [unknown] at known
      cases known
    exact (standing_seeders { L with statistics := L.statistics.put o.seeder ⟨0,0,0,0,0,0⟩ } o.seeder _).tallying
      ⟨seeded.clock,seeded.till.register unproved⟩

theorem tallying_writes {o : SettingsOperation} {L L' : Ledger} (writes : Writes L o L') : Tallying L L' := by
  cases writes with
  | ready_to_publish o => exact tallying_publish o L
  | ready_to_publish2 o => exact tallying_publish o L
  | _ => exact Standing.tallying (.of_eq rfl rfl rfl rfl rfl)

theorem tallying_aloof {change : SettingsChange} {L L' : Ledger} (aloof : Aloof change)
    (applied : change.do_apply L = .ok L') : Tallying L L' := by
  obtain ⟨-,seeders,statistics⟩ := aloof L L' applied
  have settled := change.settled applied
  exact Standing.tallying (.of_eq statistics settled.contents settled.applied seeders settled.properties)

theorem tallying_perform {action : Action} {L L' : Ledger} (met : custody_step L action)
    (ran : EStateM.run (perform action) L = .ok () L') : Tallying L L' := by
  refine related_perform proves_part ?_ ?_ ?_ met.1 ran
  · intro env executed op L L₂ L₃ x fee act source part valid prepared evaluated applied inside
    cases op <;> simp only [do_evaluate,reads_bind,reads_pure,Prod.mk.injEq] at evaluated
    case content_submit o =>
      obtain ⟨content,-,-,rfl⟩ := evaluated
      exact tallying_submit valid applied
    case content_cancellation o =>
      obtain ⟨_,evaluated,-,rfl⟩ := evaluated
      exact tallying_cancel evaluated prepared applied
    case proof_of_custody o =>
      obtain ⟨_,evaluated,-,rfl⟩ := evaluated
      exact tallying_proof evaluated prepared part applied
    case proposal_update =>
      obtain ⟨-,rfl⟩ := evaluated
      exact inside applied
    case other payer paid change =>
      obtain ⟨-,rfl⟩ := evaluated
      obtain ⟨_,settled,stored⟩ := run_observe_bind.mp applied
      cases stored
      rcases source with ⟨o,rfl⟩ | aloof
      · exact tallying_writes (do_apply_writes settled)
      · exact tallying_aloof aloof settled
    all_goals
      obtain ⟨_,-,-,rfl⟩ := evaluated
      exact Within.ok inferInstance applied
  · rintro change L L' (rfl | aloof) applied
    · cases applied
      exact Standing.tallying (.of_eq rfl rfl rfl rfl rfl)
    · exact tallying_aloof aloof applied
  · exact fun due ran seeded => seeded.maintained (met.2 due) ran

theorem seeded_genesis (g : GenesisState) : Seeded (init_genesis g) where
  clock := Nat.zero_le _
  till := {
    known := fun found => nomatch found
    parts := fun found => nomatch found
    sizes := fun found => nomatch found
    counted := fun found => nomatch found
    ended := fun found => nomatch found
    fresh := fun _ => rfl }

theorem seeded_eq_sum (weight : Nat → Nat → Nat) (L : Ledger) (p : AccountId) : seeded weight L p =
    (((L.seeded_by p).map fun row => weight row.2.size row.2.key_parts.rows.length).sum : Nat) := by
  have sum := Table.total_filter (fun id (c : Content) =>
    decide (L.applied.countP (returns id) = 0 ∧ (c.last_proof.find? p).isSome = true))
    (fun _ c => weight c.size c.key_parts.rows.length) L.contents.table
  simp only [decide_eq_true_eq] at sum
  exact sum.symm

theorem SeededTill.exact {t : Nat} {L : Ledger} {p : AccountId} {so : SeedingStatistics} (till : SeededTill t L)
    (found : L.statistics.find? p = some so) : Exact L p so := by
  obtain ⟨num,total⟩ := till.counted found
  rw [seeded_eq_sum] at num total
  have num := Int.ofNat.inj num
  have total := Int.ofNat.inj total
  have ones : ((L.seeded_by p).map fun _ => 1).sum = (L.seeded_by p).length := by simp
  refine ⟨num.trans ones,total,fun row member => ⟨?_,?_⟩⟩
  · rw [UInt32.le_iff_toNat_le,num.trans ones]
    exact List.length_pos_of_mem member
  · have listed := List.mem_of_mem_filter member
    rw [UInt64.le_iff_toNat_le,total,seeded_size_toNat (till.sizes (Table.find?_of_mem listed))]
    exact List.single_le_sum (fun _ _ => Nat.zero_le _) _ (List.mem_map_of_mem member)

theorem Reached.seeded {g : GenesisState} {L : Ledger} (reached : Reached g custody_step L) : Seeded L :=
  reached.invariant (seeded_genesis g) fun seeded met ran => tallying_perform met ran seeded

/-- As long as first proofs come from those who were given a part, and maintenances do not go back,
    the counters of every seeder are exact: in every state, and each time that a maintenance has
    expired some of the contents it scans. -/
theorem seeded_statistics_exact (g : GenesisState) (L : Ledger) (reached : Reached g custody_step L) :
    (∀ p, (L.seeders.find? p).isSome → ∃ so, L.statistics.find? p = some so ∧ Exact L p so) ∧
    (Onward L → ∀ before after L₁ L₂, scanned_contents L = before ++ after →
      EStateM.run reset_seeding_stats L = .ok () L₁ → EStateM.run (expire_contents before) L₁ = .ok () L₂ →
      ∀ p so, L₂.statistics.find? p = some so → Exact L₂ p so) := by
  refine ⟨fun p seeder => ?_,fun onward before after L₁ L₂ split counters lapsed p so found => ?_⟩
  · have registered := (reached.mono fun _ _ met => met.1 : Reached g (each_applied proves_part) L).source.registered
    obtain ⟨so,found⟩ := Option.isSome_iff_exists.mp (registered.counted seeder)
    exact ⟨so,found,reached.seeded.till.exact found⟩
  · exact (reached.seeded.scanning onward split counters lapsed).exact found

/-- A proof for the content. -/
def prove_custody (seeder : AccountId) : Action :=
  .operation free_env (.proof_of_custody ⟨⟨0,core⟩,seeder,"ipfs:seeded",none⟩)

/-- Besides the seeders of the content there is a third. -/
def three_seeders : List Action := two_seeders ++ [new_account default_account.options,offer_space 6,
  .operation free_env (.content_submit seeded_submission)]

theorem three_seeders_of_source : three_seeders.Forall of_source :=
  List.forall_append.mpr ⟨two_seeders_of_source,trivial,from_source_operation _,trivial⟩

instance (op : Operation) (L : Ledger) : Decidable (proves_part op L) :=
  match op with
  | .proof_of_custody o => inferInstanceAs (Decidable (∀ row ∈ L.find_content o.URI,
      row.2.last_proof.find? o.seeder = none → (row.2.key_parts.find? o.seeder).isSome ∧
        ∀ so ∈ L.statistics.find? o.seeder, so.num_of_content_seeded.toNat + 1 < 2^32 ∧
          so.total_content_seeded.toNat + row.2.seeded_size.toNat < 2^64))
  | .transfer _ | .transfer2 _ | .asset_create _ | .asset_issue _ | .asset_reserve _ | .asset_fund_pools _
  | .asset_claim_fees _ | .withdraw_permission_claim _ | .vesting_balance_create _ | .vesting_balance_withdraw _
  | .content_submit _ | .content_cancellation _ | .request_to_buy _ | .deliver_keys _ | .subscribe _
  | .subscribe_by_author _ | .automatic_renewal_of_subscription _ | .account_create _ | .account_update _
  | .proposal_update _ _ _ | .other _ _ _ => inferInstanceAs (Decidable True)

instance (L : Ledger) : Decidable (Onward L) :=
  decidable_of_iff (∀ row ∈ L.contents.table.rows, scan_start L ≤ row.2.expiration → row.2.expiration ≤ L.properties.time →
      L.properties.last_budget_time < row.2.expiration)
    ⟨fun all _ _ found => all _ (Table.mem_of_find? found),fun onward _ member => onward _ _ (Table.find?_of_mem member)⟩

/-- What a step of `custody_step` asks of an action without a proposal. -/
def asks_custody (L : Ledger) : Action → Prop
  | .operation _ op => proves_part op L
  | .maintenance => Onward L
  | _ => True

instance (L : Ledger) (action : Action) : Decidable (asks_custody L action) :=
  match action with
  | .operation _ op => inferInstanceAs (Decidable (proves_part op L))
  | .maintenance => inferInstanceAs (Decidable (Onward L))
  | .header _ | .signing_miner _ | .settings _ => inferInstanceAs (Decidable True)

theorem custody_step_of_source {L : Ledger} {action : Action} (plain : of_source action) (asks : asks_custody L action) :
    custody_step L action := by
  refine ⟨each_applied_of_source plain ?_,?_⟩
  · rintro env op rfl
    exact asks
  · rintro rfl
    exact asks

/-- The content runs out, and it is taken out of the counters of seeder 4. -/
theorem seeded_statistics_expired : ∃ L so L₁ L₂ so₂, Reached small_genesis custody_step L ∧
    L.statistics.find? 4 = some so ∧ Exact L 4 so ∧ so.num_of_content_seeded = 1 ∧
    EStateM.run reset_seeding_stats L = .ok () L₁ ∧ EStateM.run (expire_contents [0]) L₁ = .ok () L₂ ∧
    L₂.statistics.find? 4 = some so₂ ∧ Exact L₂ 4 so₂ ∧ so₂.num_of_content_seeded = 0 := by
  let actions := three_seeders ++ [prove_custody 4,prove_custody 5,.header 1540000000]
  let L := endState (EStateM.run (perform_allowed asks_custody actions) (init_genesis small_genesis))
  let L₁ := endState (EStateM.run reset_seeding_stats L)
  let L₂ := endState (EStateM.run (expire_contents [0]) L₁)
  have reached : Reached small_genesis custody_step L := by
    refine reached_perform_meets (fun L action => custody_step_of_source) ?_ .genesis (run_of_returned (by decide +kernel))
    exact List.forall_append.mpr ⟨three_seeders_of_source,trivial,trivial,trivial⟩
  obtain ⟨every,while_scanning⟩ := seeded_statistics_exact small_genesis L reached
  obtain ⟨so,found,exact_so⟩ := every 4 (by decide +kernel)
  have one : (L.statistics.find? 4).map (·.num_of_content_seeded) = some 1 := by decide +kernel
  have none : (L₂.statistics.find? 4).map (·.num_of_content_seeded) = some 0 := by decide +kernel
  have counters : EStateM.run reset_seeding_stats L = .ok () L₁ := rfl
  have lapsed : EStateM.run (expire_contents [0]) L₁ = .ok () L₂ := run_of_returned (by decide +kernel)
  obtain ⟨so₂,found₂,zero⟩ := Option.map_eq_some_iff.mp none
  rw [found] at one
  exact ⟨L,so,L₁,L₂,so₂,reached,found,exact_so,Option.some.inj one,counters,lapsed,found₂,
    while_scanning (by decide +kernel) [0] [] L₁ L₂ (by decide +kernel) counters lapsed 4 so₂ found₂,zero⟩

/-- A seeder without a part proves that he has the content; when it runs out he keeps it in his
    counters. -/
theorem seeded_statistics_stale : ¬ ∀ g L, Reached g source_step L → ∀ p, (L.seeders.find? p).isSome →
    ∃ so, L.statistics.find? p = some so ∧ Exact L p so := by
  intro exact_always
  let actions := three_seeders ++ [prove_custody 6,.header 1540000000,.maintenance]
  have reached : Reached small_genesis source_step (after_actions actions) :=
    reached_after_actions (List.forall_append.mpr ⟨three_seeders_of_source,trivial,trivial,trivial⟩) (by decide +kernel)
  have one : ((after_actions actions).statistics.find? 6).map (·.num_of_content_seeded.toNat) = some 1 := by decide +kernel
  have none : ((after_actions actions).seeded_by 6).length = 0 := by decide +kernel
  obtain ⟨so,found,counted⟩ := exact_always small_genesis _ reached 6 (by decide +kernel)
  rw [found,Option.map_some,counted.num_of_content_seeded,none] at one
  cases one

end Decent.Money

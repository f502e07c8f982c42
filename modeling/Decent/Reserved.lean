import Decent.Seeders
import Mathlib.Data.List.Perm.Subperm

/-!
What a first submission leaves: the content with its parts, and less space at its seeders. The
parts are kept by seeder while the lists of the operation are counted, so a seeder who is
listed twice gets one part and loses the space of two.
-/
namespace Decent.Money
open Throwing

/-! ### Parts -/

/-- What a content is called and consists of. -/
def Content.outline (c : Content) : String × Nat × Nat × Table AccountId Nat := (c.URI,c.size,c.quorum,c.key_parts)

/-- The contents are the same, and so are their parts. -/
def Parted (L L' : Ledger) : Prop :=
  ∀ id, (L'.contents.find? id).map Content.outline = (L.contents.find? id).map Content.outline

instance : Composes Parted where
  refl _ _ := rfl
  trans first second id := (second id).trans (first id)

theorem parted_update (L : Ledger) (id : Nat) {f : Content → Content} (same : ∀ c, (f c).outline = c.outline) :
    Parted L (L.with_content id f) := fun k => Index.map_find?_update L.contents id k same

instance : Counting Parted where
  counted _ _ _ _ _ := rfl

instance : Crediting Parted where
  balances _ _ _ := rfl
  vestings _ _ _ := rfl
  miners _ _ _ := rfl

instance : Accounting Parted where
  publishing _ _ _ := rfl

instance : Pooling Parted where
  dynamic _ _ _ _ := rfl

/-- The seeders are the same. -/
def Offered (L L' : Ledger) : Prop := L'.seeders = L.seeders

instance : Composes Offered where
  refl _ := rfl
  trans first second := second.trans first

instance : Counting Offered where
  counted _ _ _ _ := rfl

instance : Crediting Offered where
  balances _ _ := rfl
  vestings _ _ := rfl
  miners _ _ := rfl

instance : Accounting Offered where
  publishing _ _ := rfl

instance : Pooling Offered where
  dynamic _ _ _ := rfl

theorem parted_reserve_seeders {content size : Nat} {seeders : List AccountId} {L L' : Ledger} {u : Unit}
    (ran : EStateM.run (reserve_seeders content size seeders) L = .ok u L') : Parted L L' := by
  induction seeders generalizing L with
  | nil =>
    cases ran
    exact fun _ => rfl
  | cons p rest ih =>
    obtain ⟨so,-,ran⟩ := reserve_seeders_ok ran
    have stored : Parted L (L.reserved content size p so) := parted_update _ _ fun _ => rfl
    exact Composes.trans stored (ih ran)

/-- With as many parts as seeders, everyone listed is given a part, and no one else. -/
theorem pair_key_parts_isSome_iff {seeders : List AccountId} : ∀ {parts : List Nat} {t : Table AccountId Nat},
    seeders.length = parts.length → ∀ p, ((pair_key_parts seeders parts t).find? p).isSome ↔ p ∈ seeders ∨ (t.find? p).isSome := by
  induction seeders with
  | nil =>
    intro parts t _ p
    simp [pair_key_parts]
  | cons seeder rest ih =>
    intro parts t same p
    cases parts with
    | nil => cases same
    | cons part parts =>
      rw [pair_key_parts,ih (Nat.succ.inj same) p,List.mem_cons]
      have entered : ((insert_new t seeder part).find? p).isSome ↔ p = seeder ∨ (t.find? p).isSome := by
        rw [insert_new]
        split
        case isTrue known =>
          constructor
          · exact .inr
          · rintro (rfl | here)
            · exact known
            · exact here
        case isFalse =>
          rw [Table.find?_put]
          by_cases here : p = seeder
          · simp [here]
          · simp [here]
      rw [entered]
      tauto

/-- There are as many parts as seeders exactly when no seeder is listed twice. -/
theorem key_parts_length_iff {seeders : List AccountId} {parts : List Nat} (same : seeders.length = parts.length) :
    (pair_key_parts seeders parts .empty).rows.length = seeders.length ↔ seeders.Nodup := by
  have keys (p : AccountId) : p ∈ (pair_key_parts seeders parts .empty).rows.map Prod.fst ↔ p ∈ seeders := by
    rw [← Table.isSome_find?_iff,pair_key_parts_isSome_iff same]
    simp
  have distinct := (pair_key_parts seeders parts .empty).distinct
  rw [← List.length_map (f := Prod.fst)]
  constructor
  · intro full
    have within := List.subperm_of_subset distinct fun p here => (keys p).mp here
    exact (within.perm_of_length_le (Nat.le_of_eq full.symm)).nodup_iff.mp distinct
  · intro nodup
    exact ((List.perm_ext_iff_of_nodup distinct nodup).mpr keys).length_eq

/-! ### Space -/

/-- What is left of a seeder's offer when `size` is reserved at those listed. -/
def left_space (seeders : List AccountId) (size : Nat) (p : AccountId) (so : Seeder) : Seeder :=
  if p ∈ seeders then { so with free_space := so.free_space - size } else so

theorem reserve_seeders_space {content size : Nat} {seeders : List AccountId} {L L' : Ledger} {u : Unit}
    (nodup : seeders.Nodup) (room : ∀ p ∈ seeders, L.has_room size p)
    (space : ∀ p so, L.seeders.find? p = some so → so.free_space < 2^64)
    (ran : EStateM.run (reserve_seeders content size seeders) L = .ok u L') (p : AccountId) :
    L'.seeders.find? p = (L.seeders.find? p).map (left_space seeders size p) := by
  induction seeders generalizing L with
  | nil =>
    cases ran
    have same : left_space [] size p = id := funext fun so => by simp [left_space]
    rw [same,Option.map_id,id]
  | cons q rest ih =>
    obtain ⟨so,found,ran⟩ := reserve_seeders_ok ran
    obtain ⟨outside,nodup⟩ := List.nodup_cons.mp nodup
    obtain ⟨so',found',enough⟩ := room q List.mem_cons_self
    cases found.symm.trans found'
    have fits := space q so found
    have less : (so.free_space + 2^64 - size) % 2^64 = so.free_space - size := by
      rw [show so.free_space + 2^64 - size = so.free_space - size + 2^64 by omega,Nat.add_mod_right,Nat.mod_eq_of_lt (by omega)]
    have stored (p : AccountId) : (L.reserved content size q so).seeders.find? p =
        if p = q then some { so with free_space := so.free_space - size } else L.seeders.find? p := by
      show (L.seeders.put q _).find? p = _
      rw [Table.find?_put,less]
    have step := ih (L := L.reserved content size q so) nodup ?_ ?_ ran
    · rw [step,stored]
      by_cases here : p = q
      · subst here
        simp [found,left_space,outside]
      · rw [if_neg here]
        congr 1
        funext so
        simp [left_space,here]
    · intro p member
      obtain ⟨sp,known,enough⟩ := room p (List.mem_cons_of_mem _ member)
      refine ⟨sp,?_,enough⟩
      rw [stored,if_neg (fun same : p = q => outside (same ▸ member)),known]
    · intro p sp known
      rw [stored] at known
      split at known
      · cases known
        dsimp only
        omega
      · exact space p sp known

/-! ### A first submission -/

/-- The content has one part for each seeder listed, and at least as many as it takes to deliver
    it; each seeder has less space, by the size of the content for his part. -/
def Deliverable (o : ContentSubmitOperation) (L L' : Ledger) : Prop :=
  ∃ c, L'.contents.find? L.contents.next = some c ∧ c.URI = o.URI ∧ c.size = o.size ∧ c.quorum = o.quorum ∧
    c.key_parts.rows.length = o.seeders.length ∧ (∀ p ∈ o.seeders, (c.key_parts.find? p).isSome) ∧
    o.quorum ≤ c.key_parts.rows.length ∧
    ∀ p so, L.seeders.find? p = some so → ∃ so', L'.seeders.find? p = some so' ∧
      (so'.free_space : Int) = so.free_space - if (c.key_parts.find? p).isSome then (o.size : Int) else 0

/-- A first submission, state by state. -/
theorem first_submission {env : Env} {o : ContentSubmitOperation} {L L' : Ledger}
    (new : L.find_content o.URI = none) (ran : EStateM.run (apply_operation env (.content_submit o)) L = .ok () L') :
    (Operation.content_submit o).validate = true ∧ (∀ p ∈ o.seeders, L.has_room o.size p) ∧ ∃ L₂ L₃ L₄, Prepared L L₂ ∧
      Offered L₂ L₃ ∧ Parted { L₂ with contents := L₂.contents.create (new_content o L₂.properties.time) } L₃ ∧
      EStateM.run (reserve_seeders L₂.contents.next o.size o.seeders) L₃ = .ok () L₄ ∧ Offered L₄ L' ∧ Parted L₄ L' := by
  rw [apply_operation_eq] at ran
  obtain ⟨valid,L₁,L₂,L₆,fee,act,flow⟩ := evaluate_and_apply_ok.mp ran
  have evaluated := flow.evaluated
  simp only [evaluate,do_evaluate,reads_bind,reads_pure,Prod.mk.injEq] at evaluated
  obtain ⟨_,-,_,-,content,evaluated,-,rfl⟩ := evaluated
  have applied := flow.applied
  cases content with
  | some id =>
    obtain ⟨c,found⟩ := (content_submit_evaluate_ok evaluated).2
    rw [new] at found
    cases found
  | none =>
    obtain ⟨now,read,applied⟩ := run_observe_bind.mp applied
    obtain ⟨_,_,created,applied⟩ := run_bind_ok.mp (run_get_bind.mp applied)
    obtain ⟨_,-,applied⟩ := run_observe_bind.mp applied
    obtain ⟨_,L₃,charged,applied⟩ := run_bind_ok.mp applied
    obtain ⟨_,L₄,noted,applied⟩ := run_bind_ok.mp applied
    obtain ⟨_,L₅,reserved,requested⟩ := run_bind_ok.mp applied
    have entered : Offered L₂ { L₂ with contents := L₂.contents.create (new_content o L₂.properties.time) } := rfl
    cases read
    cases created
    refine ⟨valid,(content_submit_evaluate_ok evaluated).2.2.2,L₂,L₄,L₅,flow.prepared,?_,?_,reserved,?_,?_⟩
    · exact Composes.trans entered (Composes.trans (Within.ok inferInstance charged) (Within.ok inferInstance noted))
    · exact Composes.trans (P := Parted) (Within.ok inferInstance charged) (Within.ok inferInstance noted)
    · exact Composes.trans (P := Offered) (Within.ok inferInstance requested) (Within.ok inferInstance flow.charged)
    · exact Composes.trans (P := Parted) (Within.ok inferInstance requested) (Within.ok inferInstance flow.charged)

/-- What was accepted as a new content is deliverable exactly when no seeder is listed twice. -/
theorem deliverable_iff (g : GenesisState) (L : Ledger) (reached : Reached g source_step L) (env : Env)
    (o : ContentSubmitOperation) (L' : Ledger) (new : L.find_content o.URI = none)
    (ran : EStateM.run (apply_operation env (.content_submit o)) L = .ok () L') :
    Deliverable o L L' ↔ o.seeders.Nodup := by
  obtain ⟨valid,room,L₂,L₃,L₄,prepared,offered₃,parted₃,reserved,offered,parted⟩ := first_submission new ran
  simp only [Operation.validate,Bool.and_eq_true,decide_eq_true_eq] at valid
  obtain ⟨⟨⟨-,same⟩,quorum⟩,-⟩ := valid
  have seeders₃ : L₃.seeders = L.seeders := by rw [show L₃.seeders = L₂.seeders from offered₃,prepared.rest]
  have next : L₂.contents.next = L.contents.next := by rw [prepared.rest]
  have stored : (L'.contents.find? L.contents.next).map Content.outline =
      some (o.URI,o.size,o.quorum,pair_key_parts o.seeders o.key_parts .empty) := by
    rw [parted,parted_reserve_seeders reserved,parted₃,← next]
    show ((L₂.contents.create _).find? L₂.contents.next).map _ = _
    rw [Index.find?_create,if_pos rfl]
    rfl
  obtain ⟨c,found,outline⟩ := Option.map_eq_some_iff.mp stored
  simp only [Content.outline,Prod.mk.injEq] at outline
  obtain ⟨named,size,needed,parts⟩ := outline
  have full := key_parts_length_iff same
  constructor
  · rintro ⟨c',found',-,-,-,full',-⟩
    cases found.symm.trans found'
    rw [parts] at full'
    exact full.mp full'
  · intro nodup
    have held (p : AccountId) : (c.key_parts.find? p).isSome ↔ p ∈ o.seeders := by
      rw [parts,pair_key_parts_isSome_iff same]
      simp
    refine ⟨c,found,named,size,needed,by rw [parts]; exact full.mpr nodup,fun p member => (held p).mpr member,?_,?_⟩
    · rw [parts,full.mpr nodup]
      split at quorum
      · have none := of_decide_eq_true quorum
        omega
      · simp only [Bool.and_eq_true,decide_eq_true_eq] at quorum
        exact quorum.2
    · intro p so known
      have room₃ : ∀ p ∈ o.seeders, L₃.has_room o.size p := by
        intro p member
        obtain ⟨so,known,enough⟩ := room p member
        exact ⟨so,by rw [seeders₃]; exact known,enough⟩
      have space : ∀ p so, L₃.seeders.find? p = some so → so.free_space < 2^64 := by
        rw [seeders₃]
        exact fun p so => reached.registered.space
      have after := reserve_seeders_space nodup room₃ space reserved p
      rw [seeders₃,known,← show L'.seeders = L₄.seeders from offered] at after
      refine ⟨_,after,?_⟩
      rw [left_space]
      by_cases member : p ∈ o.seeders
      · obtain ⟨so',known',enough⟩ := room p member
        cases known.symm.trans known'
        rw [if_pos member,if_pos ((held p).mpr member)]
        dsimp only
        omega
      · rw [if_neg member,if_neg (fun here => member ((held p).mp here)),Int.sub_zero]

/-- A content whose only seeder is listed twice. -/
def twice_listed : ContentSubmitOperation := { seeded_submission with seeders := [4,4] }

theorem two_seeders_reached : Reached small_genesis source_step (after_actions two_seeders) :=
  reached_after_actions two_seeders_of_source (by decide +kernel)

theorem deliverable_two_seeders : ∃ L', Deliverable seeded_submission (after_actions two_seeders) L' ∧
    EStateM.run (apply_operation free_env (.content_submit seeded_submission)) (after_actions two_seeders) = .ok () L' := by
  have ran := run_of_returned (x := apply_operation free_env (.content_submit seeded_submission))
    (s := after_actions two_seeders) (by decide +kernel)
  exact ⟨_,(deliverable_iff small_genesis _ two_seeders_reached free_env seeded_submission _
    (Option.isNone_iff_eq_none.mp (by decide +kernel)) ran).mpr (by decide),ran⟩

/-- Two parts are asked for, and one is stored. -/
theorem twice_listed_undeliverable : ¬ ∀ g L, Reached g source_step L → ∀ env o L', L.find_content o.URI = none →
    EStateM.run (apply_operation env (.content_submit o)) L = .ok () L' → Deliverable o L L' := by
  intro deliverable
  have ran := run_of_returned (x := apply_operation free_env (.content_submit twice_listed)) (s := after_actions two_seeders)
    (by decide +kernel)
  obtain ⟨c,found,-,-,-,full,-⟩ := deliverable small_genesis _ two_seeders_reached free_env twice_listed _
    (Option.isNone_iff_eq_none.mp (by decide +kernel)) ran
  have one : (((endState (EStateM.run (apply_operation free_env (.content_submit twice_listed)) (after_actions two_seeders))
      ).contents.find? (after_actions two_seeders).contents.next).map (·.key_parts.rows.length)) = some 1 := by decide +kernel
  rw [found,Option.map_some,full] at one
  cases one

end Decent.Money

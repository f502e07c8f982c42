import Decent.Seeders

/-!
What a proof of custody can do to the process that applies it. A failed assertion and an
overflow are thrown and caught; a division by zero and the use of an iterator at the end of its
index are not. The evaluator lets a content without parts through, and `do_apply` divides by
their number.
-/
namespace Decent.Money
open Throwing

/-- What is thrown as an exception. -/
def Fault.thrown : Fault → Prop
  | .assert_exception => True
  | .overflow_exception => True
  | _ => False

/-- The process ends. -/
def crashes {α : Type} : EStateM.Result Fault Ledger α → Prop
  | .ok _ _ => False
  | .error e _ => ¬ e.thrown

/-- However it starts, `x` returns or throws. -/
def Survives {α : Type} (x : M α) : Prop := ∀ L, ¬ crashes (EStateM.run x L)

/-- A calculation that returns or throws. -/
def Sound {α : Type} (x : Except Fault α) : Prop := ∀ e, x = .error e → e.thrown

section
variable {α β : Type}

theorem crashes_bind {x : M α} {f : α → M β} {L : Ledger} : crashes (EStateM.run (x >>= f) L) ↔
    crashes (EStateM.run x L) ∨ ∃ a L', EStateM.run x L = .ok a L' ∧ crashes (EStateM.run (f a) L') := by
  rw [EStateM.run_bind]
  cases EStateM.run x L with
  | ok a L' =>
    constructor
    · exact fun crashed => .inr ⟨a,L',rfl,crashed⟩
    · rintro (impossible | ⟨_,_,same,crashed⟩)
      · exact absurd impossible id
      · cases same
        exact crashed
  | error e L' => simp [crashes]

theorem survives_bind {x : M α} {f : α → M β} (first : Survives x) (rest : ∀ a, Survives (f a)) : Survives (x >>= f) := by
  intro L crashed
  rcases crashes_bind.mp crashed with here | ⟨a,L',-,later⟩
  · exact first L here
  · exact rest a L' later

theorem survives_modify (f : Ledger → Ledger) : Survives (modify f : M Unit) := fun _ => id

theorem survives_observe {r : Reads α} (sound : ∀ L, Sound (r L)) : Survives (observe r) := by
  intro L crashed
  cases read : r L with
  | ok a =>
    rw [run_observe_ok read] at crashed
    exact crashed
  | error e =>
    rw [run_observe_error read] at crashed
    exact crashed (sound L e read)

theorem sound_bind {x : Except Fault α} {f : α → Except Fault β} (first : Sound x) (rest : ∀ a, Sound (f a)) :
    Sound (x >>= f) := by
  cases x with
  | ok a => exact rest a
  | error e =>
    intro e' same
    have same : (Except.error e : Except Fault β) = .error e' := same
    cases same
    exact first e rfl

theorem sound_ok (a : α) : Sound (Except.ok a : Except Fault α) := nofun

theorem sound_pure (a : α) : Sound (pure a : Except Fault α) := nofun

end

theorem sound_checked (v : Int) : Sound (checked v) := by
  unfold checked
  split
  · exact sound_ok _
  · rintro e ⟨⟩
    trivial

theorem sound_fc_assert (c : Prop) [Decidable c] : Sound (fc_assert c) := by
  unfold fc_assert
  split
  · exact sound_ok _
  · rintro e ⟨⟩
    trivial

theorem sound_sub (x y : Asset) : Sound (x.sub y) :=
  sound_bind (sound_fc_assert _) fun _ => sound_bind (sound_checked _) fun _ => sound_pure _

theorem sound_custody_reward (price : Int) (ratio size : Nat) : Sound (custody_reward price ratio size) :=
  sound_bind (sound_checked _) fun _ => sound_bind (sound_checked _) fun _ => sound_pure _

theorem sound_reward_amount (o : ProofOfCustodyOperation) (L : Ledger) (seeder : Seeder) (content : Content) (ratio : Nat) :
    Sound (proof_of_custody_apply.reward_amount o L seeder content ratio) := by
  unfold proof_of_custody_apply.reward_amount
  split
  · split
    · rintro e ⟨⟩
      trivial
    · exact sound_bind (sound_custody_reward _ _ _) fun _ => sound_pure _
  · exact sound_custody_reward _ _ _

theorem survives_adjust_balance (account : AccountId) (x : Asset) : Survives (adjust_balance account x) := by
  intro L crashed
  cases ran : EStateM.run (adjust_balance account x) L with
  | ok u L' =>
    rw [ran] at crashed
    exact crashed
  | error e L' =>
    rw [ran] at crashed
    rcases adjust_balance_throws ran with rfl | rfl <;> exact crashed trivial

/-- Statistics that are there are changed. -/
theorem run_modify_statistics {L : Ledger} {p : AccountId} {so : SeedingStatistics} (known : L.statistics.find? p = some so)
    (f : SeedingStatistics → SeedingStatistics) :
    EStateM.run (modify_statistics p f) L = .ok () { L with statistics := L.statistics.put p (f so) } := by
  simp only [modify_statistics,EStateM.run_bind,EStateM.run_get,known]
  rfl

/-- The content that the proof is for. -/
theorem proof_of_custody_evaluate_ok {env : Env} {o : ProofOfCustodyOperation} {L : Ledger}
    (evaluated : proof_of_custody_evaluate env o L = .ok ()) : ∃ id c, get_content o.URI L = .ok (id,c) ∧
      L.properties.time < c.expiration := by
  simp only [proof_of_custody_evaluate,reads_bind,reads_lift,fc_assert_ok] at evaluated
  obtain ⟨⟨id,c⟩,found,_,got,_,ahead,-⟩ := evaluated
  cases got
  exact ⟨id,c,found,ahead⟩

theorem get_content_prepared {URI : String} {L L' : Ledger} (prepared : Prepared L L') :
    get_content URI L' = get_content URI L := by
  have same : L'.find_content URI = L.find_content URI := by rw [prepared.rest]; rfl
  unfold get_content
  rw [read_bind,read_bind,same]
  cases L.find_content URI <;> rfl

/-- The content has a part, or who proves is no seeder. -/
def custody_safe (o : ProofOfCustodyOperation) (L : Ledger) : Prop :=
  (∀ id c, get_content o.URI L = .ok (id,c) → c.key_parts.rows ≠ []) ∨ L.seeders.find? o.seeder = none

theorem proof_of_custody_apply_survives {o : ProofOfCustodyOperation} {L : Ledger} {id : Nat} {content : Content}
    (registered : Registered L) (read : get_content o.URI L = .ok (id,content)) :
    ¬ crashes (EStateM.run (proof_of_custody_apply o) L) ↔
      content.key_parts.rows ≠ [] ∨ L.seeders.find? o.seeder = none := by
  obtain ⟨found,-⟩ := get_content_ok read
  unfold proof_of_custody_apply
  rw [EStateM.run_bind,run_observe_ok read]
  dsimp only
  rw [EStateM.run_bind]
  dsimp only [EStateM.run_get]
  cases known : L.seeders.find? o.seeder with
  | none => simp [crashes,Fault.thrown]
  | some seeder =>
    obtain ⟨so,stats⟩ := Option.isSome_iff_exists.mp (registered.counted (by rw [known]; rfl))
    simp only [reduceCtorEq,or_false]
    cases proved : content.last_proof.find? o.seeder with
    | none =>
      dsimp only
      by_cases parts : content.key_parts.rows = []
      · rw [EStateM.run_bind]
        simp [parts,modify_content,crashes,Fault.thrown]
      · have some : ¬ content.key_parts.rows.length = 0 := fun zero => parts (List.eq_nil_of_length_eq_zero zero)
        refine iff_of_true (fun crashed => ?_) parts
        rcases crashes_bind.mp crashed with impossible | ⟨_,L₁,noted,crashed⟩
        · exact survives_modify _ L impossible
        · cases noted
          rw [if_neg some] at crashed
          have counted := run_modify_statistics (L := L.with_content id (proved_content o.seeder L.properties.time)) stats
            (first_proof content)
          have crashed : crashes (EStateM.run (modify_statistics o.seeder (first_proof content))
            (L.with_content id (proved_content o.seeder L.properties.time))) := crashed
          rw [counted] at crashed
          exact crashed
    | some last_proof =>
      have parts : content.key_parts.rows ≠ [] := by
        intro none
        rw [registered.simplified found none] at proved
        cases proved
      refine iff_of_true (fun crashed => ?_) parts
      dsimp only at crashed
      rcases crashes_bind.mp crashed with impossible | ⟨_,L₁,counted,crashed⟩
      · rw [run_modify_statistics stats] at impossible
        exact impossible
      · refine survives_bind (survives_observe fun _ => sound_reward_amount _ _ _ _ _) (fun reward => ?_) L₁ crashed
        refine survives_bind (survives_observe fun _ => sound_sub _ _) fun escrow => ?_
        refine survives_bind (survives_modify _) fun _ => survives_bind (survives_adjust_balance _ _) fun _ => ?_
        exact survives_bind (survives_modify _) fun _ => survives_modify _

/-- An accepted proof of custody ends no process exactly when the content has a part, or who
    proves is no seeder. -/
theorem custody_survives_iff (g : GenesisState) (L : Ledger) (reached : Reached g source_step L) (env : Env)
    (o : ProofOfCustodyOperation) (x : Int) (act : M Unit) (L₁ L₂ : Ledger)
    (evaluated : evaluate env (pure ()) (.proof_of_custody o) L = .ok (x,act))
    (converted : EStateM.run (convert_fee o.fee x) L = .ok () L₁) (paid : EStateM.run (pay_fee x) L₁ = .ok () L₂) :
    ¬ crashes (EStateM.run act L₂) ↔ custody_safe o L := by
  have prepared : Prepared L L₂ :=
    Composes.trans (Within.ok inferInstance converted) (Within.ok inferInstance paid)
  have registered : Registered L₂ := by
    have kept : Registering L L₂ := Composes.trans (Within.ok inferInstance converted) (Within.ok inferInstance paid)
    exact kept reached.registered
  simp only [evaluate,do_evaluate,reads_bind,reads_pure,Prod.mk.injEq] at evaluated
  obtain ⟨_,-,_,-,_,evaluated,-,rfl⟩ := evaluated
  obtain ⟨id,content,read,-⟩ := proof_of_custody_evaluate_ok evaluated
  have seeders : L₂.seeders = L.seeders := by rw [prepared.rest]
  rw [proof_of_custody_apply_survives registered ((get_content_prepared prepared).trans read),seeders,custody_safe,read]
  constructor
  · rintro (parts | none)
    · refine .inl fun _ _ same => ?_
      cases same
      exact parts
    · exact .inr none
  · exact Or.imp_left fun parts => parts id content rfl

/-- The first proof of seeder 4. -/
def first_custody (URI : String) : ProofOfCustodyOperation := ⟨⟨0,core⟩,4,URI,none⟩

/-- An accepted proof whose fee is nothing, with the ledger it is applied to. -/
theorem accepted_custody {L : Ledger} {URI : String}
    (accepted : (evaluate free_env (pure ()) (.proof_of_custody (first_custody URI)) L).isOk = true)
    (fee : returned (EStateM.run (pay_fee 0) L) = true) :
    ∃ act L₂, evaluate free_env (pure ()) (.proof_of_custody (first_custody URI)) L = .ok (0,act) ∧
      EStateM.run (convert_fee ⟨0,core⟩ 0) L = .ok () L ∧ EStateM.run (pay_fee 0) L = .ok () L₂ ∧
      act = proof_of_custody_apply (first_custody URI) ∧ L₂ = endState (EStateM.run (pay_fee 0) L) := by
  cases evaluated : evaluate free_env (pure ()) (.proof_of_custody (first_custody URI)) L with
  | error e =>
    rw [evaluated] at accepted
    cases accepted
  | ok p =>
    obtain ⟨x,act⟩ := p
    have parts := evaluated
    simp only [evaluate,do_evaluate,reads_bind,reads_pure,Prod.mk.injEq] at parts
    obtain ⟨x',prepared,_,-,_,-,rfl,rfl⟩ := parts
    obtain rfl : x' = 0 := prepare_fee_core rfl prepared
    exact ⟨_,_,rfl,rfl,run_of_returned fee,rfl,rfl⟩

instance {α : Type} (r : EStateM.Result Fault Ledger α) : Decidable (crashes r) :=
  match r with
  | .ok _ _ => .isFalse id
  | .error .assert_exception _ => .isFalse (· trivial)
  | .error .overflow_exception _ => .isFalse (· trivial)
  | .error .end_iterator _ => .isTrue id
  | .error .division_by_zero _ => .isTrue id

theorem custody_survives_with_parts : ∃ L act L₁ L₂, Reached small_genesis source_step L ∧
    evaluate free_env (pure ()) (.proof_of_custody (first_custody "ipfs:seeded")) L = .ok (0,act) ∧
    EStateM.run (convert_fee ⟨0,core⟩ 0) L = .ok () L₁ ∧ EStateM.run (pay_fee 0) L₁ = .ok () L₂ ∧
    ¬ crashes (EStateM.run act L₂) := by
  have reached : Reached small_genesis source_step
      (after_actions (two_seeders ++ [.operation free_env (.content_submit seeded_submission)])) :=
    reached_after_actions (List.forall_append.mpr ⟨two_seeders_of_source,trivial⟩) (by decide +kernel)
  obtain ⟨act,L₂,evaluated,converted,paid,-⟩ := @accepted_custody
    (after_actions (two_seeders ++ [.operation free_env (.content_submit seeded_submission)])) "ipfs:seeded"
    (by decide +kernel) (by decide +kernel)
  refine ⟨_,act,_,L₂,reached,evaluated,converted,paid,
    (custody_survives_iff small_genesis _ reached free_env _ 0 act _ L₂ evaluated converted paid).mpr (.inl ?_)⟩
  intro id c read
  have two : (get_content "ipfs:seeded" (after_actions (two_seeders ++
      [.operation free_env (.content_submit seeded_submission)]))).toOption.map (·.2.key_parts.rows.length) = some 2 := by
    decide +kernel
  rw [show get_content "ipfs:seeded" _ = .ok (id,c) from read] at two
  intro none
  rw [show (Except.ok (id,c) : Except Fault (Nat × Content)).toOption = some (id,c) from rfl,Option.map_some,none] at two
  cases two

/-- A content without parts passes every check, and the first proof of a seeder divides by zero. -/
theorem simplified_custody_crashes : ¬ ∀ g L, Reached g source_step L → ∀ env o x act L₁ L₂,
    (Operation.proof_of_custody o).validate = true → evaluate env (pure ()) (.proof_of_custody o) L = .ok (x,act) →
    EStateM.run (convert_fee o.fee x) L = .ok () L₁ → EStateM.run (pay_fee x) L₁ = .ok () L₂ →
    ¬ crashes (EStateM.run act L₂) := by
  intro survives
  have reached : Reached small_genesis source_step
      (after_actions (two_seeders ++ [.operation free_env (.content_submit simplified_submission)])) :=
    reached_after_actions (List.forall_append.mpr ⟨two_seeders_of_source,trivial⟩) (by decide +kernel)
  obtain ⟨act,L₂,evaluated,converted,paid,rfl,rfl⟩ := @accepted_custody
    (after_actions (two_seeders ++ [.operation free_env (.content_submit simplified_submission)])) "ipfs:simplified"
    (by decide +kernel) (by decide +kernel)
  exact survives small_genesis _ reached free_env (first_custody "ipfs:simplified") 0 _ _ _ (by decide) evaluated converted paid
    (by decide +kernel)

end Decent.Money

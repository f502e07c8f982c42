import Mathlib.Order.Nat
import Mathlib.Data.Set.Basic
import Mathlib.Tactic.SplitIfs
import Decent.Authorities

/-!
What an accepted authority check proves. `Satisfied` and `Approved` say, without
any search, what it means that keys and accounts meet an authority: an account is
approved in stages, so that no approval can rest on itself. The set of remembered
accounts only ever holds approved ones, whatever the account graph looks like, and
32-bit sums never exceed the true ones.
-/
namespace Decent.Authorities

variable {Key : Type} [LinearOrder Key]

def weights {α : Type} (members : List (α × UInt16)) : Nat := (members.map fun e => e.2.toNat).sum

@[simp] theorem weights_nil {α : Type} : weights ([] : List (α × UInt16)) = 0 := rfl
@[simp] theorem weights_cons {α : Type} (a : α) (w : UInt16) (rest : List (α × UInt16)) :
    weights ((a,w) :: rest) = w.toNat + weights rest := rfl

/-- Signed keys and good accounts among the members of an authority reach its
    threshold. -/
def Satisfied (sigs : Finset Key) (Good : AccountId → Prop) (auth : Authority Key) : Prop :=
  ∃ keys accounts, keys.Sublist auth.key_auths ∧ (∀ e ∈ keys, e.1 ∈ sigs) ∧
    accounts.Sublist auth.account_auths ∧ (∀ e ∈ accounts, Good e.1) ∧
    auth.weight_threshold.toNat ≤ weights keys + weights accounts

/-- Accounts that are given, or whose active authority is satisfied by accounts
    approved at an earlier stage. -/
def ApprovedWithin (sigs : Finset Key) (given : Finset AccountId) (get_active : AccountId → Option (Authority Key)) :
    Nat → AccountId → Prop
  | 0,a => a ∈ given
  | n + 1,a => a ∈ given ∨
      ∃ auth, get_active a = some auth ∧ Satisfied sigs (ApprovedWithin sigs given get_active n) auth

def Approved (sigs : Finset Key) (given : Finset AccountId) (get_active : AccountId → Option (Authority Key))
    (a : AccountId) : Prop := ∃ n, ApprovedWithin sigs given get_active n a

theorem Satisfied.mono {sigs sigs' : Finset Key} {P Q : AccountId → Prop} {auth : Authority Key}
    (satisfied : Satisfied sigs P auth) (keys : sigs ⊆ sigs') (accounts : ∀ a, P a → Q a) : Satisfied sigs' Q auth := by
  obtain ⟨ks,as,fromKeys,signed,fromAccounts,good,enough⟩ := satisfied
  exact ⟨ks,as,fromKeys,fun e member => keys (signed e member),fromAccounts,
    fun e member => accounts e.1 (good e member),enough⟩

section
variable {sigs : Finset Key} {given : Finset AccountId} {get_active : AccountId → Option (Authority Key)}

theorem approvedWithin_succ {n : Nat} {a : AccountId} (approved : ApprovedWithin sigs given get_active n a) :
    ApprovedWithin sigs given get_active (n + 1) a := by
  induction n generalizing a with
  | zero => exact .inl approved
  | succ n ih =>
    rcases approved with isGiven | ⟨auth,found,satisfied⟩
    · exact .inl isGiven
    · exact .inr ⟨auth,found,satisfied.mono (Finset.Subset.refl _) fun _ => ih⟩

theorem approvedWithin_le {m n : Nat} (below : m ≤ n) {a : AccountId}
    (approved : ApprovedWithin sigs given get_active m a) : ApprovedWithin sigs given get_active n a := by
  induction below with
  | refl => exact approved
  | step _ ih => exact approvedWithin_succ ih

/-- Finitely many approved accounts are approved at one stage. -/
private theorem common_stage (accounts : List (AccountId × UInt16))
    (good : ∀ e ∈ accounts, Approved sigs given get_active e.1) :
    ∃ n, ∀ e ∈ accounts, ApprovedWithin sigs given get_active n e.1 := by
  induction accounts with
  | nil => exact ⟨0,by simp⟩
  | cons e rest ih =>
    obtain ⟨m,first⟩ := good e (List.mem_cons_self ..)
    obtain ⟨n,later⟩ := ih fun e member => good e (List.mem_cons_of_mem _ member)
    refine ⟨max m n,fun e' member => ?_⟩
    rcases List.mem_cons.mp member with same | member
    · subst same; exact approvedWithin_le (Nat.le_max_left m n) first
    · exact approvedWithin_le (Nat.le_max_right m n) (later e' member)

/-- An account is approved when it is given or its active authority is satisfied. -/
theorem approved_iff {a : AccountId} : Approved sigs given get_active a ↔ a ∈ given ∨
    ∃ auth, get_active a = some auth ∧ Satisfied sigs (Approved sigs given get_active) auth := by
  constructor
  · rintro ⟨n,approved⟩
    cases n with
    | zero => exact .inl approved
    | succ n =>
      rcases approved with isGiven | ⟨auth,found,satisfied⟩
      · exact .inl isGiven
      · exact .inr ⟨auth,found,satisfied.mono (Finset.Subset.refl _) fun _ approved => ⟨n,approved⟩⟩
  · rintro (isGiven | ⟨auth,found,keys,accounts,fromKeys,signed,fromAccounts,good,enough⟩)
    · exact ⟨0,isGiven⟩
    · obtain ⟨n,stage⟩ := common_stage accounts good
      exact ⟨n + 1,.inr ⟨auth,found,keys,accounts,fromKeys,signed,fromAccounts,stage,enough⟩⟩

/-- Approvals are well founded: each rests on approvals of smaller rank. -/
theorem approved_rank (sigs : Finset Key) (given : Finset AccountId)
    (get_active : AccountId → Option (Authority Key)) :
    ∃ rank : AccountId → Nat, ∀ a, Approved sigs given get_active a → a ∈ given ∨
      ∃ auth, get_active a = some auth ∧
        Satisfied sigs (fun b => Approved sigs given get_active b ∧ rank b < rank a) auth := by
  classical
  refine ⟨fun a => if approved : Approved sigs given get_active a then Nat.find approved else 0,fun a approved => ?_⟩
  have stage := Nat.find_spec approved
  cases at_stage : Nat.find approved with
  | zero => rw [at_stage] at stage; exact .inl stage
  | succ n =>
    rw [at_stage] at stage
    rcases stage with isGiven | ⟨auth,found,satisfied⟩
    · exact .inl isGiven
    · refine .inr ⟨auth,found,satisfied.mono (Finset.Subset.refl _) fun b within => ?_⟩
      have approvedB : Approved sigs given get_active b := ⟨n,within⟩
      have earlier : Nat.find approvedB ≤ n := Nat.find_min' approvedB within
      simp only [approved,approvedB,dif_pos,at_stage,true_and]
      omega

/-! ### The search -/

/-- The states of a search: it remembers the given accounts and others that are
    approved. -/
structure Justified (sigs : Finset Key) (given : Finset AccountId)
    (get_active : AccountId → Option (Authority Key)) (s : SignState (Signatures Key)) : Prop where
  provided : s.signatures.provided = sigs
  kept : given ⊆ s.approved_by
  approved : ∀ a ∈ s.approved_by, Approved sigs given get_active a

theorem justified_given (sigs : Finset Key) (given : Finset AccountId)
    (get_active : AccountId → Option (Authority Key)) : Justified sigs given get_active ⟨⟨sigs,∅⟩,given⟩ :=
  ⟨rfl,Finset.Subset.refl _,fun _ member => approved_iff.mpr (.inl member)⟩

private theorem add_weight_le (total : UInt32) (w : UInt16) :
    (total + w.toUInt32).toNat ≤ total.toNat + w.toNat := by
  rw [UInt32.toNat_add,UInt16.toNat_toUInt32]
  exact Nat.mod_le _ _

theorem signed_by_provided (k : Key) (s : Signatures Key) :
    (signed_by ∅ k s).1 = decide (k ∈ s.provided) ∧ (signed_by ∅ k s).2.provided = s.provided := by
  by_cases signed : k ∈ s.provided
  · simp [signed_by,signed]
  · simp [signed_by,signed]

theorem check_keys_provided (threshold : UInt32) (keys : List (Key × UInt16)) (total : UInt32) (s : Signatures Key) :
    (check_keys (signed_by ∅) threshold keys total s).2.provided = s.provided := by
  induction keys generalizing total s with
  | nil => rfl
  | cons e rest ih =>
    obtain ⟨k,w⟩ := e
    obtain ⟨_,same⟩ := signed_by_provided k s
    rw [check_keys]
    generalize signed_by ∅ k s = answered at same
    obtain ⟨answer,s'⟩ := answered
    cases answer with
    | true =>
      dsimp only
      split
      · exact same
      · exact (ih _ s').trans same
    | false => exact (ih _ s').trans same

theorem check_keys_sound (threshold : UInt32) (keys : List (Key × UInt16)) (total : UInt32)
    (s : Signatures Key) :
    ∃ counted, counted.Sublist keys ∧ (∀ e ∈ counted, e.1 ∈ s.provided) ∧
      match (check_keys (signed_by ∅) threshold keys total s).1 with
      | none => threshold.toNat ≤ total.toNat + weights counted ∧ counted ≠ []
      | some result => result.toNat ≤ total.toNat + weights counted := by
  induction keys generalizing total s with
  | nil => exact ⟨[],.slnil,by simp,by simp [check_keys]⟩
  | cons e rest ih =>
    obtain ⟨k,w⟩ := e
    obtain ⟨answer,provided⟩ := signed_by_provided k s
    rw [check_keys]
    generalize signed_by ∅ k s = answered at answer provided
    obtain ⟨isSigned,s'⟩ := answered
    have sum := add_weight_le total w
    cases isSigned with
    | true =>
      have signed : k ∈ s.provided := by simpa using answer.symm
      by_cases enough : total + w.toUInt32 ≥ threshold
      · have reached : threshold.toNat ≤ (total + w.toUInt32).toNat := UInt32.le_iff_toNat_le.mp enough
        simp only [enough,if_true]
        refine ⟨[(k,w)],by simp,by simpa using signed,?_,List.cons_ne_nil _ _⟩
        simp only [weights_cons,weights_nil]
        omega
      · simp only [enough,if_false]
        obtain ⟨counted,sub,good,bound⟩ := ih (total + w.toUInt32) s'
        refine ⟨(k,w) :: counted,sub.cons_cons _,?_,?_⟩
        · rintro e (_ | ⟨_,member⟩)
          · exact signed
          · exact provided ▸ good e member
        · rw [weights_cons]
          cases ended : (check_keys (signed_by ∅) threshold rest (total + w.toUInt32) s').1 with
          | none => rw [ended] at bound; dsimp only at bound ⊢; exact ⟨by omega,List.cons_ne_nil _ _⟩
          | some result => rw [ended] at bound; dsimp only at bound ⊢; omega
    | false =>
      obtain ⟨counted,sub,good,bound⟩ := ih total s'
      exact ⟨counted,sub.cons _,fun e member => provided ▸ good e member,bound⟩

/-- A check of accounts that approves only what is approved. -/
private def DeeperSound (sigs : Finset Key) (given : Finset AccountId) (get_active : AccountId → Option (Authority Key))
    (check : AccountId → SignState (Signatures Key) → Bool × SignState (Signatures Key)) : Prop :=
  ∀ a s, Justified sigs given get_active s → Justified sigs given get_active (check a s).2 ∧
    ((check a s).1 = true → Approved sigs given get_active a)

private theorem check_accounts_sound
    {deeper : Option (AccountId → SignState (Signatures Key) → Bool × SignState (Signatures Key))}
    (sound : ∀ check, deeper = some check → DeeperSound sigs given get_active check) (threshold : UInt32)
    (accounts : List (AccountId × UInt16)) (total : UInt32) (s : SignState (Signatures Key))
    (justified : Justified sigs given get_active s) :
    Justified sigs given get_active (check_accounts deeper threshold accounts total s).2 ∧
    ((check_accounts deeper threshold accounts total s).1 = true →
      ∃ counted, counted.Sublist accounts ∧ (∀ e ∈ counted, Approved sigs given get_active e.1) ∧
        threshold.toNat ≤ total.toNat + weights counted) := by
  induction accounts generalizing total s with
  | nil =>
    refine ⟨justified,fun enough => ⟨[],.slnil,by simp,?_⟩⟩
    have reached : total ≥ threshold := by simpa [check_accounts] using enough
    simpa using UInt32.le_iff_toNat_le.mp reached
  | cons e rest ih =>
    obtain ⟨a,w⟩ := e
    have sum := add_weight_le total w
    -- The rest of the loop once `a` is counted.
    have counts : ∀ s', Justified sigs given get_active s' → Approved sigs given get_active a →
        Justified sigs given get_active (if total + w.toUInt32 ≥ threshold then (true,s')
          else check_accounts deeper threshold rest (total + w.toUInt32) s').2 ∧
        ((if total + w.toUInt32 ≥ threshold then (true,s')
          else check_accounts deeper threshold rest (total + w.toUInt32) s').1 = true →
          ∃ counted, counted.Sublist ((a,w) :: rest) ∧ (∀ e ∈ counted, Approved sigs given get_active e.1) ∧
            threshold.toNat ≤ total.toNat + weights counted) := by
      intro s' justified' approvedA
      by_cases enough : total + w.toUInt32 ≥ threshold
      · have reached : threshold.toNat ≤ (total + w.toUInt32).toNat := UInt32.le_iff_toNat_le.mp enough
        simp only [enough,if_true]
        refine ⟨justified',fun _ => ⟨[(a,w)],by simp,by simpa using approvedA,?_⟩⟩
        simp only [weights_cons,weights_nil]
        omega
      · simp only [enough,if_false]
        obtain ⟨after,accepted⟩ := ih (total + w.toUInt32) s' justified'
        refine ⟨after,fun returned => ?_⟩
        obtain ⟨counted,sub,good,bound⟩ := accepted returned
        refine ⟨(a,w) :: counted,sub.cons_cons _,?_,?_⟩
        · rintro e (_ | ⟨_,member⟩)
          · exact approvedA
          · exact good e member
        · simp only [weights_cons]
          omega
    have skips : ∀ s', Justified sigs given get_active s' →
        Justified sigs given get_active (check_accounts deeper threshold rest total s').2 ∧
        ((check_accounts deeper threshold rest total s').1 = true →
          ∃ counted, counted.Sublist ((a,w) :: rest) ∧ (∀ e ∈ counted, Approved sigs given get_active e.1) ∧
            threshold.toNat ≤ total.toNat + weights counted) := by
      intro s' justified'
      obtain ⟨after,accepted⟩ := ih total s' justified'
      refine ⟨after,fun returned => ?_⟩
      obtain ⟨counted,sub,good,bound⟩ := accepted returned
      exact ⟨counted,sub.cons _,good,bound⟩
    by_cases known : a ∈ s.approved_by
    · rw [check_accounts_known known]
      exact counts s justified (justified.approved a known)
    cases deeper with
    | none =>
      rw [check_accounts_limit known]
      exact ⟨justified,fun impossible => absurd impossible Bool.false_ne_true⟩
    | some check =>
      obtain ⟨after,accepted⟩ := sound check rfl a s justified
      cases checked : check a s with
      | mk answer s' =>
        rw [checked] at after accepted
        cases answer with
        | true =>
          rw [check_accounts_approved known checked]
          have approvedA := accepted rfl
          refine counts { s' with approved_by := insert a s'.approved_by }
            ⟨after.provided,after.kept.trans (Finset.subset_insert a _),fun b member => ?_⟩ approvedA
          rcases Finset.mem_insert.mp member with same | member
          · subst same; exact approvedA
          · exact after.approved b member
        | false =>
          rw [check_accounts_refused known checked]
          exact skips s' after

private theorem check_members_sound
    (deeper : Option (AccountId → SignState (Signatures Key) → Bool × SignState (Signatures Key)))
    (sound : ∀ check, deeper = some check → DeeperSound sigs given get_active check) (auth : Authority Key)
    (s : SignState (Signatures Key)) (justified : Justified sigs given get_active s) :
    Justified sigs given get_active (check_members (signed_by ∅) deeper auth s).2 ∧
    ((check_members (signed_by ∅) deeper auth s).1 = true →
      Satisfied sigs (Approved sigs given get_active) auth) := by
  have provided := check_keys_provided auth.weight_threshold auth.key_auths 0 s.signatures
  obtain ⟨counted,sub,signed,bound⟩ := check_keys_sound auth.weight_threshold auth.key_auths 0 s.signatures
  rw [justified.provided] at provided signed
  rw [check_members]
  generalize check_keys (signed_by ∅) auth.weight_threshold auth.key_auths 0 s.signatures = keysChecked
    at provided bound
  obtain ⟨result,signatures⟩ := keysChecked
  have after : Justified sigs given get_active { s with signatures := signatures } :=
    ⟨provided,justified.kept,justified.approved⟩
  cases result with
  | none =>
    refine ⟨after,fun _ => ⟨counted,[],sub,signed,by simp,by simp,?_⟩⟩
    simpa using bound.1
  | some total =>
    obtain ⟨last,accepted⟩ := check_accounts_sound sound auth.weight_threshold auth.account_auths total _ after
    refine ⟨last,fun returned => ?_⟩
    obtain ⟨accounts,subAccounts,good,enough⟩ := accepted returned
    refine ⟨counted,accounts,sub,signed,subAccounts,good,?_⟩
    have keysBound : total.toNat ≤ 0 + weights counted := bound
    omega

/-- An accepted authority is satisfied, and every account remembered on the way is
    approved. -/
theorem check_authority_sound (n : Nat) (au : Option (Authority Key)) (s : SignState (Signatures Key))
    (justified : Justified sigs given get_active s) :
    Justified sigs given get_active (check_authority (signed_by ∅) get_active n au s).2 ∧
    ((check_authority (signed_by ∅) get_active n au s).1 = true →
      ∃ auth, au = some auth ∧ Satisfied sigs (Approved sigs given get_active) auth) := by
  -- By the levels left above the depth limit.
  induction n generalizing au s with
  | zero =>
    cases au with
    | none => exact ⟨justified,nofun⟩
    | some auth =>
      obtain ⟨after,accepted⟩ := check_members_sound none nofun auth s justified
      exact ⟨after,fun returned => ⟨auth,rfl,accepted returned⟩⟩
  | succ n ih =>
    cases au with
    | none => exact ⟨justified,nofun⟩
    | some auth =>
      have deeperSound : DeeperSound sigs given get_active
          fun a => check_authority (signed_by ∅) get_active n (get_active a) := by
        intro a s justified
        obtain ⟨after,accepted⟩ := ih (get_active a) s justified
        exact ⟨after,fun returned => approved_iff.mpr (.inr (accepted returned))⟩
      obtain ⟨after,accepted⟩ := check_members_sound
        (some fun a => check_authority (signed_by ∅) get_active n (get_active a))
        (by rintro _ ⟨⟩; exact deeperSound) auth s justified
      exact ⟨after,fun returned => ⟨auth,rfl,accepted returned⟩⟩

/-! ### The loops of `verify_authority` -/

/-- The owner authority of an account is satisfied. -/
def OwnerSatisfied (sigs : Finset Key) (Good : AccountId → Prop) (get_owner : AccountId → Option (Authority Key))
    (id : AccountId) : Prop := ∃ auth, get_owner id = some auth ∧ Satisfied sigs Good auth

theorem justified_check {n : Nat} {au : Option (Authority Key)} {s s' : SignState (Signatures Key)} {b : Bool}
    (justified : Justified sigs given get_active s) (checked : check_authority (signed_by ∅) get_active n au s = (b,s')) :
    Justified sigs given get_active s' ∧
      (b = true → ∃ auth, au = some auth ∧ Satisfied sigs (Approved sigs given get_active) auth) := by
  have sound := check_authority_sound n au s justified
  rwa [checked] at sound

private theorem assert_all_sound {α : Type} {check : α → SignState (Signatures Key) → Bool × SignState (Signatures Key)}
    {e : α → Exc} {Meets : α → Prop} (sound : ∀ a s b s', Justified sigs given get_active s → check a s = (b,s') →
      Justified sigs given get_active s' ∧ (b = true → Meets a)) (items : List α) {s s' : SignState (Signatures Key)}
    (justified : Justified sigs given get_active s) (ran : assert_all check e items s = .ok s') :
    Justified sigs given get_active s' ∧ ∀ a ∈ items, Meets a := by
  induction items generalizing s with
  | nil => cases ran; exact ⟨justified,by simp⟩
  | cons a rest ih =>
    rw [assert_all] at ran
    split at ran
    case h_1 s₁ checked =>
      obtain ⟨after,accepted⟩ := sound a s true s₁ justified checked
      obtain ⟨last,others⟩ := ih after ran
      exact ⟨last,List.forall_mem_cons.mpr ⟨accepted rfl,others⟩⟩
    case h_2 => cases ran

theorem check_account_sound {n : Nat} {id : AccountId} {s s' : SignState (Signatures Key)} {b : Bool}
    (justified : Justified sigs given get_active s) (checked : check_account (signed_by ∅) get_active n id s = (b,s')) :
    Justified sigs given get_active s' ∧ (b = true → Approved sigs given get_active id) := by
  rw [check_account] at checked
  split at checked
  case isTrue known => cases checked; exact ⟨justified,fun _ => justified.approved id known⟩
  case isFalse =>
    obtain ⟨after,accepted⟩ := justified_check justified checked
    exact ⟨after,fun returned => approved_iff.mpr (.inr (accepted returned))⟩

theorem check_active_sound {get_owner : AccountId → Option (Authority Key)} {n : Nat} {id : AccountId}
    {s s' : SignState (Signatures Key)} {b : Bool} (justified : Justified sigs given get_active s)
    (checked : check_active (signed_by ∅) get_active get_owner n id s = (b,s')) :
    Justified sigs given get_active s' ∧ (b = true → Approved sigs given get_active id ∨
      OwnerSatisfied sigs (Approved sigs given get_active) get_owner id) := by
  rw [check_active] at checked
  split at checked
  case h_1 s₁ account =>
    cases checked
    obtain ⟨after,accepted⟩ := check_account_sound justified account
    exact ⟨after,fun _ => .inl (accepted rfl)⟩
  case h_2 s₁ account =>
    obtain ⟨after,accepted⟩ := justified_check (check_account_sound justified account).1 checked
    exact ⟨after,fun returned => .inr (accepted returned)⟩

theorem check_owner_sound {get_owner : AccountId → Option (Authority Key)} {n : Nat}
    {owner_approvals : Finset AccountId} {id : AccountId} {s s' : SignState (Signatures Key)} {b : Bool}
    (justified : Justified sigs given get_active s)
    (checked : check_owner (signed_by ∅) get_active get_owner n owner_approvals id s = (b,s')) :
    Justified sigs given get_active s' ∧ (b = true → id ∈ owner_approvals ∨
      OwnerSatisfied sigs (Approved sigs given get_active) get_owner id) := by
  rw [check_owner] at checked
  split at checked
  case isTrue given => cases checked; exact ⟨justified,fun _ => .inl given⟩
  case isFalse =>
    obtain ⟨after,accepted⟩ := justified_check justified checked
    exact ⟨after,fun returned => .inr (accepted returned)⟩

end

/-- Every requirement of the operations is met by signed keys and approved accounts. -/
structure Fulfilled (ops : List (Operation Key)) (sigs : Finset Key) (Good : AccountId → Prop)
    (get_owner : AccountId → Option (Authority Key)) (owner_approvals : Finset AccountId) : Prop where
  other : ∀ op ∈ ops, ∀ auth ∈ op.required_other, Satisfied sigs Good auth
  active : ∀ op ∈ ops, ∀ id, id = op.fee_payer ∨ id ∈ op.required_active →
    Good id ∨ OwnerSatisfied sigs Good get_owner id
  owner : ∀ op ∈ ops, ∀ id ∈ op.required_owner, id ∈ owner_approvals ∨ OwnerSatisfied sigs Good get_owner id

/-- The three loops prove the requirements. -/
theorem check_required_sound {ops : List (Operation Key)} {sigs : Finset Key} {given owner_approvals : Finset AccountId}
    {get_active get_owner : AccountId → Option (Authority Key)} {n : Nat} {s : SignState (Signatures Key)}
    (ran : check_required (signed_by ∅) get_active get_owner n owner_approvals (required_authorities ops)
      ⟨⟨sigs,∅⟩,given⟩ = .ok s) :
    s.signatures.provided = sigs ∧
      Fulfilled ops sigs (Approved sigs given get_active) get_owner owner_approvals := by
  have begins := justified_given sigs given get_active
  obtain ⟨s₁,s₂,ranOther,ranActive,ranOwner⟩ := check_required_ok_iff.mp ran
  have otherSound : ∀ (auth : Authority Key) (s : SignState (Signatures Key)) (b : Bool) (s' : SignState (Signatures Key)),
      Justified sigs given get_active s → check_authority (signed_by ∅) get_active n (some auth) s = (b,s') →
      Justified sigs given get_active s' ∧ (b = true → Satisfied sigs (Approved sigs given get_active) auth) := by
    intro auth s b s' justified checked
    obtain ⟨after,accepted⟩ := justified_check justified checked
    refine ⟨after,fun returned => ?_⟩
    obtain ⟨_,⟨⟩,satisfied⟩ := accepted returned
    exact satisfied
  obtain ⟨after,others⟩ := assert_all_sound otherSound _ begins ranOther
  obtain ⟨afterActive,actives⟩ := assert_all_sound
    (fun _ _ _ _ justified checked => check_active_sound justified checked) _ after ranActive
  obtain ⟨last,owners⟩ := assert_all_sound
    (fun _ _ _ _ justified checked => check_owner_sound justified checked) _ afterActive ranOwner
  exact ⟨last.provided,fun op member auth required => others auth (mem_required_other.mpr ⟨op,member,required⟩),
    fun op member id required => actives id (mem_required_active.mpr ⟨op,member,required⟩),
    fun op member id required => owners id (mem_required_owner.mpr ⟨op,member,required⟩)⟩

/-- What `verify_authority` has established when it returns. -/
theorem verify_authority_sound {ops : List (Operation Key)} {sigs : Finset Key}
    {get_active get_owner : AccountId → Option (Authority Key)} {max_recursion : Nat} {allow_committee : Bool}
    {active_approvals owner_approvals : Finset AccountId}
    (returns : verify_authority ops sigs get_active get_owner max_recursion allow_committee active_approvals
      owner_approvals = .ok ()) :
    Fulfilled ops sigs (Approved sigs (approved active_approvals owner_approvals) get_active) get_owner
      owner_approvals ∧
    ∃ rank : AccountId → Nat, ∀ a, Approved sigs (approved active_approvals owner_approvals) get_active a →
      a ∈ approved active_approvals owner_approvals ∨ ∃ auth, get_active a = some auth ∧
        Satisfied sigs (fun b => Approved sigs (approved active_approvals owner_approvals) get_active b ∧
          rank b < rank a) auth := by
  obtain ⟨_,s,ran,_⟩ := verify_authority_ok_iff.mp returns
  exact ⟨(check_required_sound ran).2,approved_rank _ _ _⟩

/-- Two accounts that name each other; one of them has a key as well. -/
def circle (id : AccountId) : Option (Authority Nat) :=
  if id = 20 then some ⟨1,[(21,1)],[],by simp,none_ordered⟩
  else if id = 21 then some ⟨1,[(20,1)],[(7,1)],by simp,by simp⟩
  else none

/-- The first account of the circle acts, the second one signs. -/
theorem verify_authority_sound_circle :
    Fulfilled [⟨20,[],[],[]⟩] {7} (Approved {7} (approved ∅ ∅) circle) circle ∅ := by
  have returns : verify_authority [⟨20,[],[],[]⟩] {7} circle circle 2 false ∅ ∅ = .ok () := by rfl
  exact (verify_authority_sound returns).1

end Decent.Authorities

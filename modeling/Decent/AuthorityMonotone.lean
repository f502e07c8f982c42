import Decent.AuthoritySound

/-!
When more approvals cannot hurt. The search is complete, and then monotone, as long
as it stays above its depth limit: the accounts below a required authority that are
not approved from the start are nested at most `max_recursion` deep, and no
authority has so many members that a 32-bit sum of 16-bit weights could wrap. Past
the limit an approval can hurt, since what the search finds early it does not
remember for later. An executable proposal can also be lost to a key approval that
the search no longer uses.
-/
namespace Decent.Authorities

variable {Key : Type} [LinearOrder Key]

/-- Sums over at most this many 16-bit weights stay below `2 ^ 32`. -/
def max_members : Nat := 65537

/-- An authority whose accounts are given, or have active authorities that are
    shallow by one level less. -/
def Shallow (given : Finset AccountId) (get_active : AccountId → Option (Authority Key)) : Nat → Authority Key → Prop
  | 0,auth => auth.key_auths.length + auth.account_auths.length ≤ max_members ∧
      ∀ e ∈ auth.account_auths, e.1 ∈ given
  | n + 1,auth => auth.key_auths.length + auth.account_auths.length ≤ max_members ∧
      ∀ e ∈ auth.account_auths, e.1 ∈ given ∨ ∀ active, get_active e.1 = some active → Shallow given get_active n active

theorem Shallow.members {given : Finset AccountId} {get_active : AccountId → Option (Authority Key)} {n : Nat}
    {auth : Authority Key} (shallow : Shallow given get_active n auth) :
    auth.key_auths.length + auth.account_auths.length ≤ max_members := by
  cases n with
  | zero => exact shallow.1
  | succ n => exact shallow.1

theorem weights_le {α : Type} (members : List (α × UInt16)) : weights members ≤ members.length * 65535 := by
  induction members with
  | nil => simp
  | cons e rest ih =>
    obtain ⟨a,w⟩ := e
    have bound : w.toNat < 65536 := w.toNat_lt
    simp only [weights_cons,List.length_cons]
    omega

/-- Weights that come to `rest` are added to a total below the threshold, and no sum wraps: the
    threshold is too low for that, or all the weights are. -/
def Room (threshold : UInt32) (total rest : Nat) : Prop :=
  threshold.toNat + 65535 ≤ 2 ^ 32 ∧ (total = 0 ∨ total < threshold.toNat) ∨ total + rest < 2 ^ 32

theorem Room.skip {threshold : UInt32} {total skipped rest : Nat} (room : Room threshold total (skipped + rest)) :
    Room threshold total rest := by
  unfold Room at room ⊢
  omega

/-- A weight that is added without a wrap. -/
theorem Room.add {threshold total : UInt32} {w : UInt16} {rest : Nat} (room : Room threshold total.toNat (w.toNat + rest)) :
    (total + w.toUInt32).toNat = total.toNat + w.toNat := by
  have bound : w.toNat < 65536 := w.toNat_lt
  rw [UInt32.toNat_add,UInt16.toNat_toUInt32]
  unfold Room at room
  exact Nat.mod_eq_of_lt (by omega)

theorem Room.next {threshold total : UInt32} {w : UInt16} {rest : Nat} (room : Room threshold total.toNat (w.toNat + rest))
    (below : ¬ total + w.toUInt32 ≥ threshold) : Room threshold (total + w.toUInt32).toNat rest := by
  have sum := room.add
  have short : (total + w.toUInt32).toNat < threshold.toNat := by
    rw [ge_iff_le,UInt32.le_iff_toNat_le] at below
    omega
  unfold Room at room ⊢
  omega

section
variable {sigs : Finset Key} {given : Finset AccountId} {get_active : AccountId → Option (Authority Key)}

/-- When the key loop ends without success it has counted every signed key. -/
private theorem check_keys_complete {rest : Nat} (threshold : UInt32) (keys : List (Key × UInt16)) (total : UInt32)
    (s : Signatures Key) (room : Room threshold total.toNat (weights keys + rest)) (result : UInt32)
    (ended : (check_keys (signed_by ∅) threshold keys total s).1 = some result) (signed : List (Key × UInt16))
    (sub : signed.Sublist keys) (provided : ∀ e ∈ signed, e.1 ∈ s.provided) :
    total.toNat + weights signed ≤ result.toNat ∧ Room threshold result.toNat rest ∧
      (total < threshold ∨ signed ≠ [] → result < threshold) := by
  induction keys generalizing total s signed with
  | nil =>
    obtain rfl : total = result := Option.some.inj ended
    obtain rfl := List.sublist_nil.mp sub
    exact ⟨Nat.le_refl _,room.skip,fun short => short.resolve_right fun some => some rfl⟩
  | cons e others ih =>
    obtain ⟨k,w⟩ := e
    rw [weights_cons,Nat.add_assoc] at room
    have sum := room.add
    obtain ⟨answer,same⟩ := signed_by_provided k s
    rw [check_keys] at ended
    generalize signed_by ∅ k s = answered at answer same ended
    obtain ⟨isSigned,s'⟩ := answered
    cases isSigned with
    | true =>
      dsimp only at ended
      split at ended
      · cases ended
      case isFalse below =>
        have short : total + w.toUInt32 < threshold := UInt32.not_le.mp below
        have step := ih (total + w.toUInt32) s' (room.next below) ended
        cases sub with
        | cons _ sub =>
          obtain ⟨counted,after,least⟩ := step signed sub fun e member => same ▸ provided e member
          exact ⟨by omega,after,fun _ => least (.inl short)⟩
        | cons_cons _ sub =>
          obtain ⟨counted,after,least⟩ := step _ sub fun e member => same ▸ provided e (List.mem_cons_of_mem _ member)
          rw [weights_cons]
          exact ⟨by omega,after,fun _ => least (.inl short)⟩
    | false =>
      have unsigned : k ∉ s.provided := by simpa using answer.symm
      have step := ih total s' room.skip ended
      cases sub with
      | cons _ sub => exact step signed sub fun e member => same ▸ provided e member
      | cons_cons _ sub => exact absurd (provided _ (List.mem_cons_self ..)) unsigned

/-- A check of accounts that approves only what is approved, and all that is good. -/
def Finds (sigs : Finset Key) (given : Finset AccountId) (get_active : AccountId → Option (Authority Key))
    (Good : AccountId → Prop) (check : AccountId → SignState (Signatures Key) → Bool × SignState (Signatures Key))
    (a : AccountId) : Prop :=
  ∀ s, a ∉ s.approved_by → Justified sigs given get_active s → Justified sigs given get_active (check a s).2 ∧
    ((check a s).1 = true → Approved sigs given get_active a) ∧ (Good a → (check a s).1 = true)

/-- When the account loop refuses, no good accounts would have been enough. -/
private theorem check_accounts_complete {Good : AccountId → Prop}
    {check : AccountId → SignState (Signatures Key) → Bool × SignState (Signatures Key)}
    (threshold : UInt32) (accounts : List (AccountId × UInt16)) (total : UInt32) (s : SignState (Signatures Key))
    (complete : ∀ a ∈ accounts.map Prod.fst, Finds sigs given get_active Good check a)
    (justified : Justified sigs given get_active s) (room : Room threshold total.toNat (weights accounts))
    (refused : (check_accounts (some check) threshold accounts total s).1 = false) (counted : List (AccountId × UInt16))
    (sub : counted.Sublist accounts) (good : ∀ e ∈ counted, Good e.1) :
    total.toNat + weights counted < threshold.toNat := by
  induction accounts generalizing total s counted with
  | nil =>
    obtain rfl := List.sublist_nil.mp sub
    have below : ¬ threshold ≤ total := by simpa [check_accounts] using refused
    rw [UInt32.le_iff_toNat_le] at below
    simp only [weights_nil]
    omega
  | cons e rest ih =>
    obtain ⟨a,w⟩ := e
    rw [weights_cons] at room
    have sum := room.add
    have restComplete : ∀ b ∈ rest.map Prod.fst, Finds sigs given get_active Good check b :=
      fun b member => complete b (List.mem_cons_of_mem _ member)
    -- Once `a` is counted the rest has to make up for what it leaves.
    have counts : ∀ s', Justified sigs given get_active s' →
        (if total + w.toUInt32 ≥ threshold then (true,s')
          else check_accounts (some check) threshold rest (total + w.toUInt32) s').1 = false →
        total.toNat + weights counted < threshold.toNat := by
      intro s' justified' refused'
      split at refused'
      · cases refused'
      case isFalse below =>
        have step := ih (total + w.toUInt32) s' restComplete justified' (room.next below) refused'
        cases sub with
        | cons _ sub =>
          have := step counted sub good
          omega
        | cons_cons _ sub =>
          have := step _ sub fun e member => good e (List.mem_cons_of_mem _ member)
          rw [weights_cons]
          omega
    by_cases known : a ∈ s.approved_by
    · rw [check_accounts_known known] at refused
      exact counts s justified refused
    obtain ⟨after,only,all⟩ := complete a (List.mem_cons_self ..) s known justified
    cases checked : check a s with
    | mk answer s' =>
      rw [checked] at after only all
      cases answer with
      | true =>
        rw [check_accounts_approved known checked] at refused
        refine counts { s' with approved_by := insert a s'.approved_by }
          ⟨after.provided,after.kept.trans (Finset.subset_insert a _),fun b member => ?_⟩ refused
        rcases Finset.mem_insert.mp member with same | member
        · subst same; exact only rfl
        · exact after.approved b member
      | false =>
        rw [check_accounts_refused known checked] at refused
        cases sub with
        | cons _ sub => exact ih total s' restComplete after room.skip refused counted sub good
        | cons_cons _ sub => exact absurd (all (good _ (List.mem_cons_self ..))) Bool.false_ne_true

/-- At the depth limit the account loop gets as far as the accounts are known. -/
private theorem check_accounts_leading {σ : Type} (threshold : UInt32) {rest : List (AccountId × UInt16)} (s : SignState σ)
    (known : List (AccountId × UInt16)) (total : UInt32) (leading : ∀ e ∈ known, e.1 ∈ s.approved_by)
    (room : Room threshold total.toNat (weights known)) (enough : threshold.toNat ≤ total.toNat + weights known)
    (some : known = [] → rest = []) : (check_accounts none threshold (known ++ rest) total s).1 = true := by
  induction known generalizing total with
  | nil =>
    rw [some rfl]
    simpa [check_accounts,UInt32.le_iff_toNat_le] using enough
  | cons e others ih =>
    obtain ⟨a,w⟩ := e
    rw [weights_cons] at room enough
    have sum := room.add
    rw [List.cons_append,check_accounts_known (leading _ (List.mem_cons_self ..))]
    split
    · rfl
    case isFalse below =>
      refine ih (total + w.toUInt32) (fun e member => leading e (List.mem_cons_of_mem _ member)) (room.next below)
        (by omega) fun none => ?_
      have short : (total + w.toUInt32).toNat < threshold.toNat := by
        rw [ge_iff_le,UInt32.le_iff_toNat_le] at below
        omega
      rw [none,weights_nil] at enough
      omega

/-- No sum over the members can wrap. -/
def Roomy (auth : Authority Key) : Prop :=
  auth.weight_threshold.toNat + 65535 ≤ 2 ^ 32 ∨ weights auth.key_auths + weights auth.account_auths < 2 ^ 32

theorem roomy_of_members {auth : Authority Key} (members : auth.key_auths.length + auth.account_auths.length ≤ max_members) :
    Roomy auth := by
  have keysBound := weights_le auth.key_auths
  have accountsBound := weights_le auth.account_auths
  simp only [max_members] at members
  exact .inr (by omega)

theorem Roomy.room {auth : Authority Key} (roomy : Roomy auth) :
    Room auth.weight_threshold (0 : UInt32).toNat (weights auth.key_auths + weights auth.account_auths) := by
  rw [UInt32.toNat_zero]
  rcases roomy with low | small
  · exact .inl ⟨low,.inl rfl⟩
  · exact .inr (by omega)

theorem weights_sublist {α : Type} {few many : List (α × UInt16)} (sub : few.Sublist many) : weights few ≤ weights many := by
  induction sub with
  | slnil => exact Nat.le_refl _
  | cons e _ ih =>
    obtain ⟨a,w⟩ := e
    rw [weights_cons]
    omega
  | cons_cons e _ ih =>
    obtain ⟨a,w⟩ := e
    rw [weights_cons,weights_cons]
    omega

/-- At the depth limit an authority is accepted for the signed keys and the accounts that stand
    before the first one that is not given. -/
theorem check_members_leading {auth : Authority Key} {s : SignState (Signatures Key)} {keys : List (Key × UInt16)}
    {known rest : List (AccountId × UInt16)} (roomy : Roomy auth) (kept : given ⊆ s.approved_by)
    (sub : keys.Sublist auth.key_auths) (signed : ∀ e ∈ keys, e.1 ∈ s.signatures.provided)
    (split : auth.account_auths = known ++ rest) (leading : ∀ e ∈ known, e.1 ∈ given)
    (enough : auth.weight_threshold.toNat ≤ weights keys + weights known) (some : keys = [] → known = [] → rest = []) :
    (check_members (signed_by ∅) none auth s).1 = true := by
  have room := roomy.room
  rw [check_members]
  cases checked : check_keys (signed_by ∅) auth.weight_threshold auth.key_auths 0 s.signatures with
  | mk result signatures =>
    cases result with
    | none => rfl
    | some total =>
      obtain ⟨counted,after,least⟩ := check_keys_complete auth.weight_threshold auth.key_auths 0 s.signatures room total
        (by rw [checked]) keys sub signed
      rw [UInt32.toNat_zero] at counted
      rw [split] at after ⊢
      have knownRoom : Room auth.weight_threshold total.toNat (weights known) := by
        have sum : weights (known ++ rest) = weights rest + weights known := by
          simp only [weights,List.map_append,List.sum_append]
          omega
        rw [sum] at after
        exact after.skip
      refine check_accounts_leading auth.weight_threshold { s with signatures := signatures } known total
        (fun e member => kept (leading e member)) knownRoom (by omega) fun none => ?_
      refine some ?_ none
      by_contra signs
      have short := UInt32.lt_iff_toNat_lt.mp (least (.inr signs))
      rw [none,weights_nil] at enough
      omega

/-- Above the limit it is accepted for the signed keys and the accounts that the check finds. -/
theorem check_members_complete {Good : AccountId → Prop}
    {check : AccountId → SignState (Signatures Key) → Bool × SignState (Signatures Key)} {auth : Authority Key}
    {s : SignState (Signatures Key)} (roomy : Roomy auth)
    (complete : ∀ a ∈ auth.account_auths.map Prod.fst, Finds sigs given get_active Good check a)
    (justified : Justified sigs given get_active s) (satisfied : Satisfied sigs Good auth) :
    (check_members (signed_by ∅) (some check) auth s).1 = true := by
  obtain ⟨signed,accounts,subKeys,areSigned,subAccounts,good,enough⟩ := satisfied
  by_contra refused
  rw [Bool.not_eq_true,check_members] at refused
  cases checked : check_keys (signed_by ∅) auth.weight_threshold auth.key_auths 0 s.signatures with
  | mk result signatures =>
    rw [checked] at refused
    cases result with
    | none => cases refused
    | some total =>
      obtain ⟨counted,room,-⟩ := check_keys_complete auth.weight_threshold auth.key_auths 0 s.signatures roomy.room total
        (by rw [checked]) signed subKeys (by rw [justified.provided]; exact areSigned)
      have provided := (check_keys_provided auth.weight_threshold auth.key_auths 0 s.signatures)
      rw [checked] at provided
      rw [UInt32.toNat_zero] at counted
      have short := check_accounts_complete auth.weight_threshold auth.account_auths total
        { s with signatures := signatures } complete
        ⟨provided.trans justified.provided,justified.kept,justified.approved⟩ room refused accounts subAccounts good
      omega

/-- Above the depth limit the search accepts exactly what is satisfied. -/
theorem check_authority_complete (n : Nat) (auth : Authority Key) (s : SignState (Signatures Key))
    (shallow : Shallow given get_active n auth) (justified : Justified sigs given get_active s)
    (satisfied : Satisfied sigs (Approved sigs given get_active) auth) :
    (check_authority (signed_by ∅) get_active n (some auth) s).1 = true := by
  induction n generalizing auth s with
  | zero =>
    obtain ⟨keys,accounts,fromKeys,signed,fromAccounts,-,enough⟩ := satisfied
    have fewer := weights_sublist fromAccounts
    exact check_members_leading (roomy_of_members shallow.1) justified.kept fromKeys
      (by rw [justified.provided]; exact signed) (List.append_nil _).symm shallow.2 (by omega) fun _ _ => rfl
  | succ n ih =>
    refine check_members_complete (roomy_of_members shallow.1) ?_ justified satisfied
    intro a listed s' unknown justified'
    obtain ⟨after,accepted⟩ := check_authority_sound n (get_active a) s' justified'
    refine ⟨after,fun returned => approved_iff.mpr (.inr (accepted returned)),fun approved => ?_⟩
    obtain ⟨e,member,rfl⟩ := List.mem_map.mp listed
    have notGiven : e.1 ∉ given := fun isGiven => unknown (justified'.kept isGiven)
    rcases approved_iff.mp approved with isGiven | ⟨active,found,met⟩
    · exact absurd isGiven notGiven
    · have below := (shallow.2 e member).resolve_left notGiven active found
      have holds := ih active s' below justified' met
      rw [← found] at holds
      exact holds

private theorem assert_all_complete {α : Type}
    {check : α → SignState (Signatures Key) → Bool × SignState (Signatures Key)} {e : α → Exc} (items : List α)
    (complete : ∀ a ∈ items, ∀ s, Justified sigs given get_active s →
      Justified sigs given get_active (check a s).2 ∧ (check a s).1 = true)
    (s : SignState (Signatures Key)) (justified : Justified sigs given get_active s) :
    ∃ s', assert_all check e items s = .ok s' ∧ Justified sigs given get_active s' := by
  induction items generalizing s with
  | nil => exact ⟨s,rfl,justified⟩
  | cons a rest ih =>
    obtain ⟨completeA,completeRest⟩ := List.forall_mem_cons.mp complete
    obtain ⟨after,accepted⟩ := completeA s justified
    rw [assert_all]
    generalize check a s = checked at after accepted
    obtain ⟨answer,s'⟩ := checked
    obtain rfl : answer = true := accepted
    exact ih completeRest s' after

end

/-- The authorities that the operations require are all above the depth limit. -/
structure WithinLimit (ops : List (Operation Key)) (given : Finset AccountId)
    (get_active get_owner : AccountId → Option (Authority Key)) (max_recursion : Nat) : Prop where
  other : ∀ auth ∈ (required_authorities ops).other, Shallow given get_active max_recursion auth
  active : ∀ id ∈ (required_authorities ops).active, id ∈ given ∨
    ∀ auth, get_active id = some auth ∨ get_owner id = some auth → Shallow given get_active max_recursion auth
  owner : ∀ id ∈ (required_authorities ops).owner, ∀ auth, get_owner id = some auth →
    Shallow given get_active max_recursion auth

section
variable {ops : List (Operation Key)} {sigs : Finset Key} {given owner_approvals : Finset AccountId}
  {get_active get_owner : AccountId → Option (Authority Key)} {n : Nat}

private theorem check_active_complete {id : AccountId} {s : SignState (Signatures Key)}
    (within : id ∈ given ∨ ∀ auth, get_active id = some auth ∨ get_owner id = some auth → Shallow given get_active n auth)
    (justified : Justified sigs given get_active s)
    (met : Approved sigs given get_active id ∨ OwnerSatisfied sigs (Approved sigs given get_active) get_owner id) :
    (check_active (signed_by ∅) get_active get_owner n id s).1 = true := by
  rw [check_active]
  cases checked : check_account (signed_by ∅) get_active n id s with
  | mk answer s' =>
    cases answer with
    | true => rfl
    | false =>
      rw [check_account] at checked
      split at checked
      · cases checked
      case isFalse unknown =>
        have shallow := within.resolve_left fun isGiven => unknown (justified.kept isGiven)
        have after := (justified_check justified checked).1
        rcases met with approved | ⟨auth,found,satisfied⟩
        · -- An approved account would not have been refused.
          rcases approved_iff.mp approved with isGiven | ⟨auth,found,satisfied⟩
          · exact absurd (justified.kept isGiven) unknown
          · have holds := check_authority_complete n auth s (shallow auth (.inl found)) justified satisfied
            rw [← found,checked] at holds
            cases holds
        · have holds := check_authority_complete n auth s' (shallow auth (.inr found)) after satisfied
          rw [← found] at holds
          exact holds

private theorem check_owner_complete {id : AccountId} {s : SignState (Signatures Key)}
    (within : ∀ auth, get_owner id = some auth → Shallow given get_active n auth)
    (justified : Justified sigs given get_active s)
    (met : id ∈ owner_approvals ∨ OwnerSatisfied sigs (Approved sigs given get_active) get_owner id) :
    (check_owner (signed_by ∅) get_active get_owner n owner_approvals id s).1 = true := by
  rw [check_owner]
  split
  · rfl
  case isFalse notApproved =>
    obtain ⟨auth,found,satisfied⟩ := met.resolve_left notApproved
    have holds := check_authority_complete n auth s (within auth found) justified satisfied
    rw [← found] at holds
    exact holds

/-- Above the depth limit the loops accept what is fulfilled. -/
theorem check_required_complete (limit : WithinLimit ops given get_active get_owner n)
    (fulfilled : Fulfilled ops sigs (Approved sigs given get_active) get_owner owner_approvals) :
    ∃ s, check_required (signed_by ∅) get_active get_owner n owner_approvals (required_authorities ops)
      ⟨⟨sigs,∅⟩,given⟩ = .ok s := by
  have otherComplete : ∀ auth ∈ (required_authorities ops).other, ∀ s, Justified sigs given get_active s →
      Justified sigs given get_active (check_authority (signed_by ∅) get_active n (some auth) s).2 ∧
      (check_authority (signed_by ∅) get_active n (some auth) s).1 = true := by
    intro auth member s justified
    obtain ⟨op,inOps,required⟩ := mem_required_other.mp member
    exact ⟨(check_authority_sound n (some auth) s justified).1,
      check_authority_complete n auth s (limit.other auth member) justified (fulfilled.other op inOps auth required)⟩
  have activeComplete : ∀ id ∈ (required_authorities ops).active, ∀ s, Justified sigs given get_active s →
      Justified sigs given get_active (check_active (signed_by ∅) get_active get_owner n id s).2 ∧
      (check_active (signed_by ∅) get_active get_owner n id s).1 = true := by
    intro id member s justified
    obtain ⟨op,inOps,required⟩ := mem_required_active.mp member
    exact ⟨(check_active_sound justified (Prod.eta _).symm).1,
      check_active_complete (limit.active id member) justified (fulfilled.active op inOps id required)⟩
  have ownerComplete : ∀ id ∈ (required_authorities ops).owner, ∀ s, Justified sigs given get_active s →
      Justified sigs given get_active (check_owner (signed_by ∅) get_active get_owner n owner_approvals id s).2 ∧
      (check_owner (signed_by ∅) get_active get_owner n owner_approvals id s).1 = true := by
    intro id member s justified
    obtain ⟨op,inOps,required⟩ := mem_required_owner.mp member
    exact ⟨(check_owner_sound justified (Prod.eta _).symm).1,
      check_owner_complete (limit.owner id member) justified (fulfilled.owner op inOps id required)⟩
  obtain ⟨s₁,ranOther,after⟩ := assert_all_complete _ otherComplete _ (justified_given sigs given get_active)
  obtain ⟨s₂,ranActive,afterActive⟩ := assert_all_complete _ activeComplete s₁ after
  obtain ⟨s₃,ranOwner,_⟩ := assert_all_complete _ ownerComplete s₂ afterActive
  exact ⟨s₃,check_required_ok_iff.mpr ⟨s₁,s₂,ranOther,ranActive,ranOwner⟩⟩

end

/-! ### More approvals -/

section
variable {sigs sigs' : Finset Key} {given given' : Finset AccountId}
  {get_active : AccountId → Option (Authority Key)}

theorem Approved.mono {a : AccountId} (approved : Approved sigs given get_active a) (keys : sigs ⊆ sigs')
    (accounts : given ⊆ given') : Approved sigs' given' get_active a := by
  obtain ⟨n,within⟩ := approved
  refine ⟨n,?_⟩
  induction n generalizing a with
  | zero => exact accounts within
  | succ n ih =>
    rcases within with isGiven | ⟨auth,found,satisfied⟩
    · exact .inl (accounts isGiven)
    · exact .inr ⟨auth,found,satisfied.mono keys fun _ => ih⟩

theorem Fulfilled.mono {ops : List (Operation Key)} {get_owner : AccountId → Option (Authority Key)}
    {owners owners' : Finset AccountId} (fulfilled : Fulfilled ops sigs (Approved sigs given get_active) get_owner owners)
    (keys : sigs ⊆ sigs') (accounts : given ⊆ given') (more : owners ⊆ owners') :
    Fulfilled ops sigs' (Approved sigs' given' get_active) get_owner owners' := by
  have good : ∀ a, Approved sigs given get_active a → Approved sigs' given' get_active a :=
    fun a approved => approved.mono keys accounts
  have owned : ∀ id, OwnerSatisfied sigs (Approved sigs given get_active) get_owner id →
      OwnerSatisfied sigs' (Approved sigs' given' get_active) get_owner id := by
    rintro id ⟨auth,found,satisfied⟩
    exact ⟨auth,found,satisfied.mono keys good⟩
  refine ⟨fun op member auth required => (fulfilled.other op member auth required).mono keys good,?_,?_⟩
  · intro op member id required
    rcases fulfilled.active op member id required with approved | owner
    · exact .inl (good id approved)
    · exact .inr (owned id owner)
  · intro op member id required
    rcases fulfilled.owner op member id required with isApproved | owner
    · exact .inl (more isApproved)
    · exact .inr (owned id owner)

end

/-- `verify_authority` finds no authority missing. -/
def RequirementsMet (ops : List (Operation Key)) (sigs : Finset Key)
    (get_active get_owner : AccountId → Option (Authority Key)) (max_recursion : Nat)
    (active_approvals owner_approvals : Finset AccountId) : Prop :=
  ∃ s, check_required (signed_by ∅) get_active get_owner max_recursion owner_approvals (required_authorities ops)
    ⟨⟨sigs,∅⟩,approved active_approvals owner_approvals⟩ = .ok s

/-- The approvals of `p` with more added. -/
structure Extends (p p' : Proposal Key) : Prop where
  operations : p'.operations = p.operations
  keys : p.available_key_approvals ⊆ p'.available_key_approvals
  active : p.available_active_approvals ⊆ p'.available_active_approvals
  owner : p.available_owner_approvals ⊆ p'.available_owner_approvals

/-- Some key approval is not used by the check of a proposal. -/
def KeyLeftOver (p : Proposal Key) (active owner : AccountId → Authority Key) (max_authority_depth : Nat) : Prop :=
  ∃ s, check_required (signed_by ∅) (fun id => some (active id)) (fun id => some (owner id)) max_authority_depth
      p.available_owner_approvals (required_authorities p.operations)
      ⟨⟨p.available_key_approvals,∅⟩,approved p.available_active_approvals p.available_owner_approvals⟩ = .ok s ∧
    has_unused_signatures s.signatures = true

private theorem approved_mono {active active' owner owner' : Finset AccountId} (more : active ⊆ active')
    (moreOwner : owner ⊆ owner') : approved active owner ⊆ approved active' owner' :=
  Finset.insert_subset_insert _ (Finset.union_subset_union more moreOwner)

private theorem requirements_mono {ops : List (Operation Key)} {sigs sigs' : Finset Key}
    {get_active get_owner : AccountId → Option (Authority Key)} {n : Nat} {active active' owner owner' : Finset AccountId}
    (met : RequirementsMet ops sigs get_active get_owner n active owner) (keys : sigs ⊆ sigs')
    (more : active ⊆ active') (moreOwner : owner ⊆ owner')
    (limit : WithinLimit ops (approved active' owner') get_active get_owner n) :
    RequirementsMet ops sigs' get_active get_owner n active' owner' := by
  obtain ⟨s,ran⟩ := met
  exact check_required_complete limit ((check_required_sound ran).2.mono keys (approved_mono more moreOwner) moreOwner)

private theorem authorized_iff (p : Proposal Key) (active owner : AccountId → Authority Key) (n : Nat) :
    is_authorized_to_execute p active owner n = true ↔
      RequirementsMet p.operations p.available_key_approvals (fun id => some (active id)) (fun id => some (owner id)) n
        p.available_active_approvals p.available_owner_approvals ∧ ¬ KeyLeftOver p active owner n := by
  have verified : is_authorized_to_execute p active owner n = true ↔
      verify_authority p.operations p.available_key_approvals (fun id => some (active id)) (fun id => some (owner id)) n
        true p.available_active_approvals p.available_owner_approvals = .ok () := by
    rw [is_authorized_to_execute]
    split
    case h_1 ran => simp [ran]
    case h_2 ran => simp [ran]
  rw [verified,verify_authority_ok_iff,RequirementsMet,KeyLeftOver]
  cases check_required (signed_by ∅) (fun id => some (active id)) (fun id => some (owner id)) n
      p.available_owner_approvals (required_authorities p.operations)
      ⟨⟨p.available_key_approvals,∅⟩,approved p.available_active_approvals p.available_owner_approvals⟩ with
  | error e => simp
  | ok s => simp

/-- Above the depth limit added approvals keep the requirements met, and a proposal
    that was executable stays so while every key approval is used; one without key
    approvals always does. -/
theorem authority_monotone :
    (∀ (ops : List (Operation Key)) (sigs sigs' : Finset Key) (get_active get_owner : AccountId → Option (Authority Key))
        (n : Nat) (active active' owner owner' : Finset AccountId),
      WithinLimit ops (approved active' owner') get_active get_owner n →
      sigs ⊆ sigs' → active ⊆ active' → owner ⊆ owner' →
      RequirementsMet ops sigs get_active get_owner n active owner →
      RequirementsMet ops sigs' get_active get_owner n active' owner') ∧
    ∀ (p p' : Proposal Key) (active owner : AccountId → Authority Key) (n : Nat),
      WithinLimit p.operations (approved p'.available_active_approvals p'.available_owner_approvals)
        (fun id => some (active id)) (fun id => some (owner id)) n →
      Extends p p' → is_authorized_to_execute p active owner n = true →
      (¬ KeyLeftOver p' active owner n → is_authorized_to_execute p' active owner n = true) ∧
      (p'.available_key_approvals = ∅ → is_authorized_to_execute p' active owner n = true) := by
  refine ⟨fun ops sigs sigs' get_active get_owner n active active' owner owner' limit keys more moreOwner met =>
    requirements_mono met keys more moreOwner limit,?_⟩
  intro p p' active owner n limit extends_ authorized
  have met := ((authorized_iff p active owner n).mp authorized).1
  have met' := requirements_mono met extends_.keys extends_.active extends_.owner limit
  rw [← extends_.operations] at met'
  have allUsed : ¬ KeyLeftOver p' active owner n → is_authorized_to_execute p' active owner n = true :=
    fun used => (authorized_iff p' active owner n).mpr ⟨met',used⟩
  refine ⟨allUsed,fun none => allUsed ?_⟩
  rintro ⟨s,ran,unused⟩
  have provided := (check_required_sound ran).1
  simp [has_unused_signatures,provided,none] at unused

/-! ### At the limit -/

/-- Accounts 10 and 13 both name account 12, which signs with key 2; account 10 has a
    key of its own, and account 11 names account 13. -/
def nested (id : AccountId) : Authority Nat :=
  if id = 10 then ⟨1,[(12,1)],[(1,1)],by simp,by simp⟩
  else if id = 11 then ⟨1,[(13,1)],[],by simp,none_ordered⟩
  else if id = 12 then ⟨1,[],[(2,1)],none_ordered,by simp⟩
  else if id = 13 then ⟨1,[(12,1)],[],by simp,none_ordered⟩
  else ⟨1,[],[],none_ordered,none_ordered⟩

/-- Operations of accounts 10 and 11. -/
def bothAct : List (Operation Nat) := [⟨10,[],[],[]⟩,⟨11,[],[],[]⟩]

/-- With two levels the second key changes nothing. -/
theorem authority_monotone_two_levels :
    RequirementsMet bothAct {1,2} (fun id => some (nested id)) (fun id => some (nested id)) 2 ∅ ∅ := by
  refine authority_monotone.1 bothAct {2} {1,2} _ _ 2 ∅ ∅ ∅ ∅ ⟨?_,?_,?_⟩ (by decide) (by decide) (by decide) ⟨_,rfl⟩
  · intro auth member
    cases member
  · intro id member
    refine .inr fun auth found => ?_
    have acts : id = 10 ∨ id = 11 := by simpa using (show id ∈ [10,11] from member)
    rcases acts with rfl | rfl
    · obtain rfl : nested 10 = auth := by simpa using found
      simp [Shallow,nested,max_members]
    · obtain rfl : nested 11 = auth := by simpa using found
      simp [Shallow,nested,max_members]
  · intro id member
    cases member

/-- With one level the key of account 10 keeps the search from remembering account
    12, which account 13 then needs; and a proposal that key 2 made executable is
    not executable any more once account 12 itself approves it. -/
theorem authority_not_monotone :
    (RequirementsMet bothAct {2} (fun id => some (nested id)) (fun id => some (nested id)) 1 ∅ ∅ ∧
      ¬ RequirementsMet bothAct {1,2} (fun id => some (nested id)) (fun id => some (nested id)) 1 ∅ ∅) ∧
    is_authorized_to_execute ⟨[⟨12,[],[],[]⟩],{2},∅,∅⟩ nested nested 2 = true ∧
    is_authorized_to_execute ⟨[⟨12,[],[],[]⟩],{2},{12},∅⟩ nested nested 2 = false := by
  refine ⟨⟨⟨_,rfl⟩,?_⟩,rfl,rfl⟩
  rintro ⟨s,ran⟩
  have refused : check_required (signed_by ∅) (fun id => some (nested id)) (fun id => some (nested id)) 1 ∅
      (required_authorities bothAct) ⟨⟨{1,2},∅⟩,approved ∅ ∅⟩ = .error (.tx_missing_active_auth 11) := rfl
  rw [refused] at ran
  cases ran

end Decent.Authorities

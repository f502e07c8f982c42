import Decent.AuthorityMonotone

/-!
What the authority search misses. Above its depth limit it finds everything that a
derivation can justify, in whatever order the members stand. At the limit it leaves
the loop over the accounts at the first one it does not know, so that the accounts
behind that one are never counted; and a sum of weights that wraps in 32 bits can
fall back under the threshold.
-/
namespace Decent.Authorities

variable {Key : Type} [LinearOrder Key]

/-- Signed keys and accounts that are given, or that their active authorities
    justify in at most `max_recursion` levels, reach the threshold. -/
def Derivable (sigs : Finset Key) (given : Finset AccountId) (get_active : AccountId → Option (Authority Key))
    (max_recursion : Nat) (auth : Authority Key) : Prop :=
  Satisfied sigs (ApprovedWithin sigs given get_active max_recursion) auth

/-- The threshold is reached by signed keys and by accounts that stand before every
    account that is not given; something is counted, unless there are no accounts. -/
def ReachedAtLimit (sigs : Finset Key) (given : Finset AccountId) (auth : Authority Key) : Prop :=
  ∃ keys known rest, keys.Sublist auth.key_auths ∧ (∀ e ∈ keys, e.1 ∈ sigs) ∧ auth.account_auths = known ++ rest ∧
    (∀ e ∈ known, e.1 ∈ given) ∧ auth.weight_threshold.toNat ≤ weights keys + weights known ∧
    (keys = [] → known = [] → rest = [])

/-- A derivation that does not depend on accounts behind an unknown one at the depth
    limit, nor on sums that wrap. -/
def Reaches (sigs : Finset Key) (given : Finset AccountId) (get_active : AccountId → Option (Authority Key)) :
    Nat → Authority Key → Prop
  | 0,auth => Roomy auth ∧ ReachedAtLimit sigs given auth
  | n + 1,auth => Roomy auth ∧
      Satisfied sigs (fun a => a ∈ given ∨ ∃ active, get_active a = some active ∧ Reaches sigs given get_active n active) auth

section
variable {sigs : Finset Key} {given : Finset AccountId} {get_active : AccountId → Option (Authority Key)}

/-- Such a derivation is found from every state of the search, whatever it remembers. -/
theorem check_authority_reaches (n : Nat) (auth : Authority Key) (s : SignState (Signatures Key))
    (justified : Justified sigs given get_active s) (reaches : Reaches sigs given get_active n auth) :
    (check_authority (signed_by ∅) get_active n (some auth) s).1 = true := by
  -- By the levels left above the depth limit.
  induction n generalizing auth s with
  | zero =>
    obtain ⟨roomy,keys,known,rest,fromKeys,signed,split,leading,enough,counted⟩ := reaches
    exact check_members_leading roomy justified.kept fromKeys (by rw [justified.provided]; exact signed) split leading
      enough counted
  | succ n ih =>
    obtain ⟨roomy,satisfied⟩ := reaches
    refine check_members_complete roomy ?_ justified satisfied
    intro a _ s' unknown justified'
    obtain ⟨after,accepted⟩ := check_authority_sound n (get_active a) s' justified'
    refine ⟨after,fun returned => approved_iff.mpr (.inr (accepted returned)),fun good => ?_⟩
    rcases good with isGiven | ⟨active,found,below⟩
    · exact absurd (justified'.kept isGiven) unknown
    · have holds := ih active s' justified' below
      rw [← found] at holds
      exact holds

/-- At the depth limit the account loop counts no account behind an unknown one. -/
private theorem check_accounts_stops {σ : Type} (threshold : UInt32) (accounts : List (AccountId × UInt16)) (total : UInt32)
    (s : SignState σ) (returned : (check_accounts none threshold accounts total s).1 = true) :
    ∃ known rest, accounts = known ++ rest ∧ (∀ e ∈ known, e.1 ∈ s.approved_by) ∧
      threshold.toNat ≤ total.toNat + weights known ∧ (known = [] → rest = []) := by
  induction accounts generalizing total with
  | nil =>
    have enough : total ≥ threshold := by simpa [check_accounts] using returned
    exact ⟨[],[],rfl,by simp,by simpa using UInt32.le_iff_toNat_le.mp enough,fun _ => rfl⟩
  | cons e others ih =>
    obtain ⟨a,w⟩ := e
    by_cases known : a ∈ s.approved_by
    · rw [check_accounts_known known] at returned
      have sum : (total + w.toUInt32).toNat ≤ total.toNat + w.toNat := by
        rw [UInt32.toNat_add,UInt16.toNat_toUInt32]
        exact Nat.mod_le _ _
      split at returned
      case isTrue enough =>
        have reached := UInt32.le_iff_toNat_le.mp enough
        exact ⟨[(a,w)],others,rfl,by simpa using known,by simp; omega,fun none => absurd none (List.cons_ne_nil _ _)⟩
      case isFalse =>
        obtain ⟨leading,rest,split,good,enough,-⟩ := ih (total + w.toUInt32) returned
        refine ⟨(a,w) :: leading,rest,by rw [split,List.cons_append],List.forall_mem_cons.mpr ⟨known,good⟩,?_,fun none => absurd none (List.cons_ne_nil _ _)⟩
        rw [weights_cons]
        omega
    · rw [check_accounts_limit known] at returned
      cases returned

/-- At the depth limit nothing else is accepted. -/
theorem check_authority_limit {auth : Authority Key} {s : SignState (Signatures Key)}
    (returned : (check_authority (signed_by ∅) get_active 0 (some auth) s).1 = true) :
    ReachedAtLimit s.signatures.provided s.approved_by auth := by
  rw [check_authority,check_members] at returned
  obtain ⟨keys,sub,signed,bound⟩ := check_keys_sound auth.weight_threshold auth.key_auths 0 s.signatures
  generalize check_keys (signed_by ∅) auth.weight_threshold auth.key_auths 0 s.signatures = checked at returned bound
  obtain ⟨result,signatures⟩ := checked
  cases result with
  | none =>
    obtain ⟨enough,counted⟩ := bound
    exact ⟨keys,[],auth.account_auths,sub,signed,rfl,by simp,by simpa using enough,fun none => absurd none counted⟩
  | some total =>
    obtain ⟨known,rest,split,leading,enough,last⟩ :=
      check_accounts_stops auth.weight_threshold auth.account_auths total _ returned
    have keysBound : total.toNat ≤ 0 + weights keys := bound
    exact ⟨keys,known,rest,sub,signed,split,leading,by omega,fun _ => last⟩

end

/-- Account 5 names account 6, which names an account nobody can sign for and then
    account 7. -/
def behind (id : AccountId) : Authority Nat :=
  if id = 5 then ⟨1,[(6,1)],[],by simp,none_ordered⟩
  else if id = 6 then ⟨1,[(3,1),(7,1)],[],by simp,none_ordered⟩
  else ⟨1,[],[],none_ordered,none_ordered⟩

end Decent.Authorities

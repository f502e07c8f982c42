import Decent.AuthorityMonotone
import Decent.SingleKey
import Mathlib.Data.Finset.Sort

/-!
Which of the available keys have to sign. `get_required_signatures` runs the search with all of
them and collects the keys it meets; `minimize_required_signatures` leaves out one key after
another as long as the rest is accepted. `Met` says which keys a search meets before the
thresholds are reached; above the depth limit these do not depend on what the search remembers,
and fewer signatures only make it meet more of them.
-/
namespace Decent.Authorities

variable {Key : Type} [LinearOrder Key]

/-! ### The functions -/

/-- A loop that checks every item, whatever the answer. -/
def check_each {α σ : Type} (check : α → SignState σ → Bool × SignState σ) (items : List α) (s : SignState σ) :
    SignState σ :=
  items.foldl (fun s a => (check a s).2) s

/-- The three loops of `get_required_signatures`. -/
def collect_required {σ : Type} (signed_by : Key → σ → Bool × σ)
    (get_active get_owner : AccountId → Option (Authority Key)) (max_recursion : Nat) (r : Required Key) (s : SignState σ) : SignState σ :=
  let s := check_each (fun auth => check_authority signed_by get_active max_recursion (some auth)) r.other s
  let s := check_each (fun owner => check_authority signed_by get_active max_recursion (get_owner owner)) r.owner s
  check_each (check_account signed_by get_active max_recursion) r.active s

/-- `signed_transaction::get_required_signatures`. The keys of unused signatures are removed. -/
def get_required_signatures {Signature : Type} (recover : Signature → Option Key) (ops : List (Operation Key))
    (signatures : List Signature) (available_keys : Finset Key)
    (get_active get_owner : AccountId → Option (Authority Key)) (max_recursion : Nat) : Except Exc (Finset Key) := do
  let sigs ← get_signature_keys recover signatures
  let s := collect_required (signed_by available_keys) get_active get_owner max_recursion (required_authorities ops)
    ⟨⟨sigs.toFinset,∅⟩,{GRAPHENE_TEMP_ACCOUNT}⟩
  pure (s.signatures.provided ∩ s.signatures.used ∩ available_keys)

/-- The loop of `minimize_required_signatures`: a key stays erased if `verify_authority` is ok. -/
def minimize_step (verify : Finset Key → Except Exc Unit) (result : Finset Key) (k : Key) : Except Exc (Finset Key) :=
  match verify (result.erase k) with
  | .ok () => pure (result.erase k)
  | .error (.tx_missing_owner_auth _) => pure (insert k (result.erase k))
  | .error (.tx_missing_active_auth _) => pure (insert k (result.erase k))
  | .error .tx_missing_other_auth => pure (insert k (result.erase k))
  | .error e => throw e

/-- `signed_transaction::minimize_required_signatures`. -/
def minimize_required_signatures {Signature : Type} (recover : Signature → Option Key) (ops : List (Operation Key))
    (signatures : List Signature) (available_keys : Finset Key)
    (get_active get_owner : AccountId → Option (Authority Key)) (max_recursion : Nat) : Except Exc (Finset Key) := do
  let s ← get_required_signatures recover ops signatures available_keys get_active get_owner max_recursion
  (s.sort (· ≤ ·)).foldlM
    (minimize_step fun sigs => verify_authority ops sigs get_active get_owner max_recursion false ∅ ∅) s

/-! ### Leaving keys out -/

/-- An exception that `minimize_required_signatures` catches. -/
def Missing (e : Exc) : Prop :=
  e = .tx_missing_other_auth ∨ ∃ id, e = .tx_missing_active_auth id ∨ e = .tx_missing_owner_auth id

/-- Keys that have been tried and kept are needed, whatever is left out after them. -/
theorem minimize_loop {verify : Finset Key → Except Exc Unit} {Full : Finset Key → Prop}
    (mono : ∀ {a b}, a ⊆ b → Full a → Full b) {start : Finset Key}
    (accepts : ∀ sigs ⊆ start, Full sigs → verify sigs = .ok ())
    (misses : ∀ sigs ⊆ start, ¬ Full sigs → ∃ e, verify sigs = .error e ∧ Missing e)
    (keys : List Key) (result : Finset Key) (within : result ⊆ start) (ahead : ∀ k ∈ keys, k ∈ result)
    (distinct : keys.Nodup)
    (needed : ∀ k ∈ result, k ∉ keys → ¬ Full (result.erase k)) :
    ∃ last ⊆ result, keys.foldlM (minimize_step verify) result = .ok last ∧ (Full result → Full last) ∧
      ∀ k ∈ last, ¬ Full (last.erase k) := by
  induction keys generalizing result with
  | nil => exact ⟨result,Finset.Subset.refl _,rfl,id,fun k member => needed k member (by simp)⟩
  | cons k rest ih =>
    obtain ⟨fresh,distinct'⟩ := List.nodup_cons.mp distinct
    have less : result.erase k ⊆ start := (Finset.erase_subset k result).trans within
    rw [List.foldlM_cons]
    by_cases enough : Full (result.erase k)
    · have stepped : minimize_step verify result k = .ok (result.erase k) := by
        rw [minimize_step,accepts _ less enough]
        rfl
      obtain ⟨last,sub,ran,kept,minimal⟩ := ih (result.erase k) less
        (fun j member => Finset.mem_erase.mpr ⟨fun same => fresh (same ▸ member),ahead j (List.mem_cons_of_mem _ member)⟩)
        distinct' fun j member tried full => by
          obtain ⟨other,inside⟩ := Finset.mem_erase.mp member
          exact needed j inside (by simpa [other] using tried)
            (mono (Finset.erase_subset_erase j (Finset.erase_subset k result)) full)
      exact ⟨last,sub.trans (Finset.erase_subset k result),by rw [stepped]; exact ran,fun _ => kept enough,minimal⟩
    · have stepped : minimize_step verify result k = .ok result := by
        have back : insert k (result.erase k) = result := Finset.insert_erase (ahead k List.mem_cons_self)
        obtain ⟨e,failed,rfl | ⟨id,rfl | rfl⟩⟩ := misses _ less enough <;> rw [minimize_step,failed] <;>
          exact congrArg Except.ok back
      obtain ⟨last,sub,ran,kept,minimal⟩ := ih result within (fun j member => ahead j (List.mem_cons_of_mem _ member))
        distinct' fun j member tried => by
          by_cases same : j = k
          · exact same ▸ enough
          · exact needed j member (by simpa [same] using tried)
      exact ⟨last,sub,by rw [stepped]; exact ran,kept,minimal⟩

/-! ### The keys that are met -/

/-- A loop goes through the members from one total to another: the good ones are counted, and
    leave the total below the threshold. -/
inductive Passes {α : Type} (Good : α → Prop) (threshold : Nat) : Nat → List (α × UInt16) → Nat → Prop
  | done {total : Nat} : Passes Good threshold total [] total
  | counted {a : α} {w : UInt16} {rest : List (α × UInt16)} {total last : Nat} (good : Good a)
      (below : total + w.toNat < threshold) (passes : Passes Good threshold (total + w.toNat) rest last) :
      Passes Good threshold total ((a,w) :: rest) last
  | skipped {a : α} {w : UInt16} {rest : List (α × UInt16)} {total last : Nat} (bad : ¬ Good a)
      (passes : Passes Good threshold total rest last) : Passes Good threshold total ((a,w) :: rest) last

/-- The loop gets as far as a member with this property. -/
def GetsTo {α : Type} (Good : α → Prop) (threshold total : Nat) (members : List (α × UInt16)) (P : α → Prop) : Prop :=
  ∃ before a w after last, members = before ++ (a,w) :: after ∧ Passes Good threshold total before last ∧ P a

/-- A key that signs is met in an authority, or in the active authority of an account of it, when
    the loops get there; nothing is looked up for the accounts that are given. -/
inductive Met (sigs : Finset Key) (given : Finset AccountId) (get_active : AccountId → Option (Authority Key)) :
    Authority Key → Key → Prop
  | key {auth : Authority Key} {before after : List (Key × UInt16)} {k : Key} {w : UInt16} {total : Nat}
      (at_key : auth.key_auths = before ++ (k,w) :: after)
      (passes : Passes (· ∈ sigs) auth.weight_threshold.toNat 0 before total) (signed : k ∈ sigs) :
      Met sigs given get_active auth k
  | account {auth active : Authority Key} {before after : List (AccountId × UInt16)} {a : AccountId} {w : UInt16}
      {keysTotal total : Nat} {k : Key} (keys : Passes (· ∈ sigs) auth.weight_threshold.toNat 0 auth.key_auths keysTotal)
      (at_account : auth.account_auths = before ++ (a,w) :: after)
      (passes : Passes (Approved sigs given get_active) auth.weight_threshold.toNat keysTotal before total)
      (unknown : a ∉ given) (found : get_active a = some active) (met : Met sigs given get_active active k) :
      Met sigs given get_active auth k

section
variable {α : Type} {Good Good' : α → Prop} {threshold total total' : Nat} {P Q : α → Prop}

theorem getsTo_nil : ¬ GetsTo Good threshold total [] P := by
  rintro ⟨before,a,w,after,last,split,-⟩
  simp at split

theorem getsTo_counted {a : α} {w : UInt16} {rest : List (α × UInt16)} (good : Good a) :
    GetsTo Good threshold total ((a,w) :: rest) P ↔
      P a ∨ total + w.toNat < threshold ∧ GetsTo Good threshold (total + w.toNat) rest P := by
  constructor
  · rintro ⟨before,b,v,after,last,split,passes,here⟩
    cases passes with
    | done => cases split; exact .inl here
    | counted _ below passes => cases split; exact .inr ⟨below,_,b,v,after,last,rfl,passes,here⟩
    | skipped bad => cases split; exact absurd good bad
  · rintro (here | ⟨below,before,b,v,after,last,rfl,passes,there⟩)
    · exact ⟨[],a,w,rest,total,rfl,.done,here⟩
    · exact ⟨(a,w) :: before,b,v,after,last,rfl,.counted good below passes,there⟩

theorem getsTo_skipped {a : α} {w : UInt16} {rest : List (α × UInt16)} (bad : ¬ Good a) :
    GetsTo Good threshold total ((a,w) :: rest) P ↔ P a ∨ GetsTo Good threshold total rest P := by
  constructor
  · rintro ⟨before,b,v,after,last,split,passes,here⟩
    cases passes with
    | done => cases split; exact .inl here
    | counted good => cases split; exact absurd good bad
    | skipped _ passes => cases split; exact .inr ⟨_,b,v,after,last,rfl,passes,here⟩
  · rintro (here | ⟨before,b,v,after,last,rfl,passes,there⟩)
    · exact ⟨[],a,w,rest,total,rfl,.done,here⟩
    · exact ⟨(a,w) :: before,b,v,after,last,rfl,.skipped bad passes,there⟩

theorem passes_counted {a : α} {w : UInt16} {rest : List (α × UInt16)} {last : Nat} (good : Good a) :
    Passes Good threshold total ((a,w) :: rest) last ↔
      total + w.toNat < threshold ∧ Passes Good threshold (total + w.toNat) rest last := by
  refine ⟨fun passes => ?_,fun ⟨below,passes⟩ => .counted good below passes⟩
  cases passes with
  | counted _ below passes => exact ⟨below,passes⟩
  | skipped bad => exact absurd good bad

theorem passes_skipped {a : α} {w : UInt16} {rest : List (α × UInt16)} {last : Nat} (bad : ¬ Good a) :
    Passes Good threshold total ((a,w) :: rest) last ↔ Passes Good threshold total rest last := by
  refine ⟨fun passes => ?_,.skipped bad⟩
  cases passes with
  | counted good => exact absurd good bad
  | skipped _ passes => exact passes

/-- With fewer good members, and from less, the loop gets at least as far. -/
theorem Passes.anti {members : List (α × UInt16)} {last : Nat} (passes : Passes Good threshold total members last)
    (fewer : ∀ a, Good' a → Good a) (less : total' ≤ total) :
    ∃ last' ≤ last, Passes Good' threshold total' members last' := by
  induction passes generalizing total' with
  | done => exact ⟨total',less,.done⟩
  | @counted a w rest total last good below passes ih =>
    by_cases good' : Good' a
    · have less' : total' + w.toNat ≤ total + w.toNat := Nat.add_le_add_right less _
      obtain ⟨last',least,passes'⟩ := ih less'
      exact ⟨last',least,.counted good' (by omega) passes'⟩
    · have less' : total' ≤ total + w.toNat := less.trans (Nat.le_add_right _ _)
      obtain ⟨last',least,passes'⟩ := ih less'
      exact ⟨last',least,.skipped good' passes'⟩
  | skipped bad passes ih =>
    obtain ⟨last',least,passes'⟩ := ih less
    exact ⟨last',least,.skipped (fun good' => bad (fewer _ good')) passes'⟩

end

section
variable {sigs : Finset Key} {given : Finset AccountId} {get_active : AccountId → Option (Authority Key)}

theorem Met.signed {auth : Authority Key} {k : Key} (met : Met sigs given get_active auth k) : k ∈ sigs := by
  induction met with
  | key _ _ signed => exact signed
  | account _ _ _ _ _ _ ih => exact ih

/-- Fewer signatures meet the keys among them that more signatures meet. -/
theorem Met.fewer {sigs' : Finset Key} {auth : Authority Key} {k : Key} (met : Met sigs given get_active auth k)
    (sub : sigs' ⊆ sigs) (signed : k ∈ sigs') : Met sigs' given get_active auth k := by
  induction met with
  | key at_key passes _ =>
    obtain ⟨total,-,passes'⟩ := passes.anti (fun _ member => sub member) (Nat.le_refl 0)
    exact .key at_key passes' signed
  | account keys at_account passes unknown found _ ih =>
    obtain ⟨keysTotal,least,keys'⟩ := keys.anti (fun _ member => sub member) (Nat.le_refl 0)
    obtain ⟨total,-,passes'⟩ := passes.anti
      (fun _ (approved : Approved sigs' given get_active _) => approved.mono sub (Finset.Subset.refl given)) least
    exact .account keys' at_account passes' unknown found (ih signed)

/-- The keys that are met for an account. -/
def Beneath (sigs : Finset Key) (given : Finset AccountId) (get_active : AccountId → Option (Authority Key))
    (a : AccountId) (k : Key) : Prop :=
  a ∉ given ∧ ∃ active, get_active a = some active ∧ Met sigs given get_active active k

theorem met_iff {auth : Authority Key} {k : Key} : Met sigs given get_active auth k ↔
    GetsTo (· ∈ sigs) auth.weight_threshold.toNat 0 auth.key_auths (fun j => j = k ∧ j ∈ sigs) ∨
      ∃ keysTotal, Passes (· ∈ sigs) auth.weight_threshold.toNat 0 auth.key_auths keysTotal ∧
        GetsTo (Approved sigs given get_active) auth.weight_threshold.toNat keysTotal auth.account_auths
          (fun a => Beneath sigs given get_active a k) := by
  constructor
  · rintro (⟨at_key,passes,signed⟩ | ⟨keys,at_account,passes,unknown,found,met⟩)
    · exact .inl ⟨_,_,_,_,_,at_key,passes,rfl,signed⟩
    · exact .inr ⟨_,keys,_,_,_,_,_,at_account,passes,unknown,_,found,met⟩
  · rintro (⟨before,_,w,after,last,at_key,passes,rfl,signed⟩ |
      ⟨keysTotal,keys,before,a,w,after,last,at_account,passes,unknown,active,found,met⟩)
    · exact .key at_key passes signed
    · exact .account keys at_account passes unknown found met

end

/-! ### The search meets these keys -/

section
variable {sigs : Finset Key} {given : Finset AccountId} {get_active : AccountId → Option (Authority Key)}

/-- The loop over the keys uses those it gets to, and ends where it passes through. -/
theorem check_keys_met {rest : Nat} (threshold : UInt32) (keys : List (Key × UInt16)) (total : UInt32) (s : Signatures Key)
    (room : Room threshold total.toNat (weights keys + rest)) (provided : s.provided = sigs) :
    (∀ last, (∃ t, (check_keys (signed_by ∅) threshold keys total s).1 = some t ∧ t.toNat = last) ↔
      Passes (· ∈ sigs) threshold.toNat total.toNat keys last) ∧
    (∀ t, (check_keys (signed_by ∅) threshold keys total s).1 = some t → Room threshold t.toNat rest) ∧
    ∀ k, k ∈ (check_keys (signed_by ∅) threshold keys total s).2.used ↔
      k ∈ s.used ∨ GetsTo (· ∈ sigs) threshold.toNat total.toNat keys (fun j => j = k ∧ j ∈ sigs) := by
  induction keys generalizing total s with
  | nil =>
    refine ⟨fun last => ⟨?_,?_⟩,?_,fun k => by simp [check_keys,getsTo_nil]⟩
    · rintro ⟨_,⟨⟩,rfl⟩
      exact .done
    · rintro ⟨⟩
      exact ⟨total,rfl,rfl⟩
    · rintro _ ⟨⟩
      exact room.skip
  | cons e others ih =>
    obtain ⟨j,w⟩ := e
    rw [weights_cons,Nat.add_assoc] at room
    have sum := room.add
    by_cases signed : j ∈ sigs
    · have answered : signed_by ∅ j s = (true,{ s with used := insert j s.used }) := by simp [signed_by,provided,signed]
      simp only [check_keys,answered]
      by_cases enough : total + w.toUInt32 ≥ threshold
      · have reached := UInt32.le_iff_toNat_le.mp enough
        simp only [enough,if_true]
        refine ⟨fun last => ?_,fun _ absent => absurd absent.symm (Option.some_ne_none _),fun k => ?_⟩
        · rw [passes_counted signed]
          constructor
          · rintro ⟨_,absent,_⟩
            cases absent
          · rintro ⟨below,_⟩
            omega
        · rw [getsTo_counted signed,Finset.mem_insert]
          have past : ¬ total.toNat + w.toNat < threshold.toNat := by omega
          simp only [past,false_and,or_false,signed,and_true]
          tauto
      · have short : total.toNat + w.toNat < threshold.toNat := by
          rw [ge_iff_le,UInt32.le_iff_toNat_le] at enough
          omega
        simp only [enough,if_false]
        obtain ⟨ends,after,used⟩ := ih (total + w.toUInt32) { s with used := insert j s.used } (room.next enough) provided
        rw [sum] at ends used
        refine ⟨fun last => ?_,after,fun k => ?_⟩
        · rw [ends,passes_counted signed,and_iff_right short]
        · rw [used,getsTo_counted signed,and_iff_right short,Finset.mem_insert]
          simp only [signed,and_true]
          tauto
    · have answered : signed_by ∅ j s = (false,s) := by simp [signed_by,provided,signed]
      simp only [check_keys,answered]
      obtain ⟨ends,after,used⟩ := ih total s room.skip provided
      refine ⟨fun last => by rw [ends,passes_skipped signed],after,fun k => ?_⟩
      rw [used,getsTo_skipped signed]
      simp [signed]

/-- What the search remembers: approved accounts, and that it has met their keys. -/
structure Recorded (sigs : Finset Key) (given : Finset AccountId) (get_active : AccountId → Option (Authority Key))
    (s : SignState (Signatures Key)) : Prop extends Justified sigs given get_active s where
  met : ∀ a ∈ s.approved_by, ∀ k, Beneath sigs given get_active a k → k ∈ s.signatures.used

/-- A check that meets the keys of an account and approves it if that is right. -/
def Exact (sigs : Finset Key) (given : Finset AccountId) (get_active : AccountId → Option (Authority Key))
    (check : AccountId → SignState (Signatures Key) → Bool × SignState (Signatures Key)) (a : AccountId) : Prop :=
  ∀ s, a ∉ s.approved_by → Recorded sigs given get_active s → Recorded sigs given get_active (check a s).2 ∧
    ((check a s).1 = true ↔ Approved sigs given get_active a) ∧
    ∀ k, k ∈ (check a s).2.signatures.used ↔ k ∈ s.signatures.used ∨ Beneath sigs given get_active a k

theorem Recorded.insert {s : SignState (Signatures Key)} (recorded : Recorded sigs given get_active s) {a : AccountId}
    (approved : Approved sigs given get_active a)
    (met : ∀ k, Beneath sigs given get_active a k → k ∈ s.signatures.used) :
    Recorded sigs given get_active { s with approved_by := insert a s.approved_by } := by
  refine ⟨⟨recorded.provided,recorded.kept.trans (Finset.subset_insert a _),fun b member => ?_⟩,fun b member => ?_⟩
  · rcases Finset.mem_insert.mp member with rfl | inside
    · exact approved
    · exact recorded.approved b inside
  · rcases Finset.mem_insert.mp member with rfl | inside
    · exact met
    · exact recorded.met b inside

/-- The loop over the accounts meets the keys of those it gets to, those it remembers included. -/
theorem check_accounts_met {check : AccountId → SignState (Signatures Key) → Bool × SignState (Signatures Key)}
    (threshold : UInt32) (accounts : List (AccountId × UInt16)) (total : UInt32) (s : SignState (Signatures Key))
    (exact : ∀ a ∈ accounts.map Prod.fst, Exact sigs given get_active check a) (recorded : Recorded sigs given get_active s)
    (room : Room threshold total.toNat (weights accounts)) :
    Recorded sigs given get_active (check_accounts (some check) threshold accounts total s).2 ∧
    ∀ k, k ∈ (check_accounts (some check) threshold accounts total s).2.signatures.used ↔ k ∈ s.signatures.used ∨
      GetsTo (Approved sigs given get_active) threshold.toNat total.toNat accounts
        (fun a => Beneath sigs given get_active a k) := by
  induction accounts generalizing total s with
  | nil => exact ⟨recorded,fun k => by simp [check_accounts,getsTo_nil]⟩
  | cons e rest ih =>
    obtain ⟨a,w⟩ := e
    rw [weights_cons] at room
    have sum := room.add
    have exact' : ∀ b ∈ rest.map Prod.fst, Exact sigs given get_active check b :=
      fun b member => exact b (List.mem_cons_of_mem _ member)
    -- The rest of the loop once `a` is counted and its keys are met.
    have counts (s' : SignState (Signatures Key)) (recorded' : Recorded sigs given get_active s')
        (approved : Approved sigs given get_active a)
        (used' : ∀ k, k ∈ s'.signatures.used ↔ k ∈ s.signatures.used ∨ Beneath sigs given get_active a k) :
        Recorded sigs given get_active (if total + w.toUInt32 ≥ threshold then (true,s')
          else check_accounts (some check) threshold rest (total + w.toUInt32) s').2 ∧
        ∀ k, k ∈ (if total + w.toUInt32 ≥ threshold then (true,s')
          else check_accounts (some check) threshold rest (total + w.toUInt32) s').2.signatures.used ↔ k ∈ s.signatures.used ∨
          GetsTo (Approved sigs given get_active) threshold.toNat total.toNat ((a,w) :: rest)
            (fun a => Beneath sigs given get_active a k) := by
      by_cases enough : total + w.toUInt32 ≥ threshold
      · have past : ¬ total.toNat + w.toNat < threshold.toNat := by
          have reached := UInt32.le_iff_toNat_le.mp enough
          omega
        simp only [enough,if_true]
        refine ⟨recorded',fun k => ?_⟩
        rw [used',getsTo_counted approved]
        simp only [past,false_and,or_false]
      · have short : total.toNat + w.toNat < threshold.toNat := by
          rw [ge_iff_le,UInt32.le_iff_toNat_le] at enough
          omega
        simp only [enough,if_false]
        obtain ⟨after,used⟩ := ih (total + w.toUInt32) s' exact' recorded' (room.next enough)
        rw [sum] at used
        refine ⟨after,fun k => ?_⟩
        rw [used,used',getsTo_counted approved,and_iff_right short,or_assoc]
    by_cases known : a ∈ s.approved_by
    · rw [check_accounts_known known]
      refine counts s recorded (recorded.approved a known) fun k => ?_
      exact ⟨.inl,fun met => met.elim id (recorded.met a known k)⟩
    obtain ⟨after,right,used⟩ := exact a List.mem_cons_self s known recorded
    cases checked : check a s with
    | mk answer s' =>
      rw [checked] at after right used
      cases answer with
      | true =>
        rw [check_accounts_approved known checked]
        have approved := right.mp rfl
        exact counts { s' with approved_by := insert a s'.approved_by }
          (after.insert approved fun k met => (used k).mpr (.inr met)) approved used
      | false =>
        rw [check_accounts_refused known checked]
        have refused : ¬ Approved sigs given get_active a := fun approved => Bool.false_ne_true (right.mpr approved)
        obtain ⟨last,used'⟩ := ih total s' exact' after room.skip
        refine ⟨last,fun k => ?_⟩
        rw [used',used,getsTo_skipped refused,or_assoc]

theorem check_members_met {check : AccountId → SignState (Signatures Key) → Bool × SignState (Signatures Key)}
    {auth : Authority Key} {s : SignState (Signatures Key)} (roomy : Roomy auth)
    (exact : ∀ a ∈ auth.account_auths.map Prod.fst, Exact sigs given get_active check a)
    (recorded : Recorded sigs given get_active s) :
    Recorded sigs given get_active (check_members (signed_by ∅) (some check) auth s).2 ∧
    ∀ k, k ∈ (check_members (signed_by ∅) (some check) auth s).2.signatures.used ↔
      k ∈ s.signatures.used ∨ Met sigs given get_active auth k := by
  obtain ⟨ends,after,used⟩ :=
    check_keys_met auth.weight_threshold auth.key_auths 0 s.signatures roomy.room recorded.provided
  rw [UInt32.toNat_zero] at ends used
  have kept := check_keys_provided auth.weight_threshold auth.key_auths 0 s.signatures
  rw [check_members]
  generalize check_keys (signed_by ∅) auth.weight_threshold auth.key_auths 0 s.signatures = checked at ends after used kept
  obtain ⟨result,signatures⟩ := checked
  have more (k : Key) (member : k ∈ s.signatures.used) : k ∈ signatures.used := (used k).mpr (.inl member)
  have recorded' : Recorded sigs given get_active { s with signatures := signatures } :=
    ⟨⟨kept.trans recorded.provided,recorded.kept,recorded.approved⟩,
      fun a member k met => more k (recorded.met a member k met)⟩
  cases result with
  | none =>
    refine ⟨recorded',fun k => (used k).trans (or_congr_right ?_)⟩
    rw [met_iff]
    refine ⟨.inl,fun met => met.resolve_right ?_⟩
    rintro ⟨keysTotal,passes,-⟩
    obtain ⟨t,⟨⟩,-⟩ := (ends keysTotal).mpr passes
  | some total =>
    obtain ⟨last,used'⟩ :=
      check_accounts_met auth.weight_threshold auth.account_auths total _ exact recorded' (after total rfl)
    refine ⟨last,fun k => (used' k).trans ?_⟩
    have passes := (ends total.toNat).mp ⟨total,rfl,rfl⟩
    rw [used,met_iff,or_assoc]
    refine or_congr_right (or_congr_right ⟨fun there => ⟨total.toNat,passes,there⟩,?_⟩)
    rintro ⟨keysTotal,passes',there⟩
    obtain ⟨t,⟨⟩,rfl⟩ := (ends keysTotal).mpr passes'
    exact there

/-- Where every account is remembered nothing deeper is asked. -/
private theorem check_accounts_remembered {σ : Type}
    (deeper deeper' : Option (AccountId → SignState σ → Bool × SignState σ)) (threshold : UInt32) (accounts : List (AccountId × UInt16)) (total : UInt32) (s : SignState σ)
    (known : ∀ e ∈ accounts, e.1 ∈ s.approved_by) :
    check_accounts deeper threshold accounts total s = check_accounts deeper' threshold accounts total s := by
  induction accounts generalizing total with
  | nil => rw [check_accounts,check_accounts]
  | cons e rest ih =>
    obtain ⟨here,later⟩ := List.forall_mem_cons.mp known
    rw [check_accounts_known here,check_accounts_known here,ih _ later]

theorem check_authority_none {σ : Type} (f : Key → σ → Bool × σ) (get_active : AccountId → Option (Authority Key))
    (n : Nat) (s : SignState σ) : check_authority f get_active n none s = (false,s) := by
  cases n <;> rfl

theorem check_authority_answers (n : Nat) (auth : Authority Key) (s : SignState (Signatures Key))
    (shallow : Shallow given get_active n auth) (justified : Justified sigs given get_active s) :
    (check_authority (signed_by ∅) get_active n (some auth) s).1 = true ↔
      Satisfied sigs (Approved sigs given get_active) auth := by
  refine ⟨fun returned => ?_,check_authority_complete n auth s shallow justified⟩
  obtain ⟨_,⟨⟩,satisfied⟩ := (check_authority_sound n (some auth) s justified).2 returned
  exact satisfied

/-- Above the depth limit the search uses exactly the keys that are met. -/
theorem check_authority_met (n : Nat) (auth : Authority Key) (s : SignState (Signatures Key))
    (shallow : Shallow given get_active n auth) (recorded : Recorded sigs given get_active s) :
    Recorded sigs given get_active (check_authority (signed_by ∅) get_active n (some auth) s).2 ∧
    ∀ k, k ∈ (check_authority (signed_by ∅) get_active n (some auth) s).2.signatures.used ↔
      k ∈ s.signatures.used ∨ Met sigs given get_active auth k := by
  -- By the levels left above the depth limit.
  induction n generalizing auth s with
  | zero =>
    have same : check_authority (signed_by ∅) get_active 0 (some auth) s =
        check_members (signed_by ∅) (some fun _ s => (false,s)) auth s := by
      rw [check_authority,check_members,check_members]
      generalize check_keys (signed_by ∅) auth.weight_threshold auth.key_auths 0 s.signatures = checked
      obtain ⟨result,signatures⟩ := checked
      cases result with
      | none => rfl
      | some total =>
        exact check_accounts_remembered _ _ _ _ _ _ fun e member => recorded.kept (shallow.2 e member)
    rw [same]
    refine check_members_met (roomy_of_members shallow.1) (fun a listed s' unknown recorded' => ?_) recorded
    obtain ⟨e,member,rfl⟩ := List.mem_map.mp listed
    exact absurd (recorded'.kept (shallow.2 e member)) unknown
  | succ n ih =>
    refine check_members_met (roomy_of_members shallow.1) (fun a listed s' unknown recorded' => ?_) recorded
    obtain ⟨e,member,rfl⟩ := List.mem_map.mp listed
    have notGiven : e.1 ∉ given := fun isGiven => unknown (recorded'.kept isGiven)
    have approved : Approved sigs given get_active e.1 ↔ _ := approved_iff
    cases found : get_active e.1 with
    | none =>
      simp only [notGiven,found,reduceCtorEq,false_and,exists_false,or_false] at approved
      rw [check_authority_none]
      exact ⟨recorded',by simp [approved],fun k => by simp [Beneath,found]⟩
    | some active =>
      have below := (shallow.2 e member).resolve_left notGiven active found
      obtain ⟨after,used⟩ := ih active s' below recorded'
      simp only [notGiven,found,Option.some.injEq,exists_eq_left',false_or] at approved
      refine ⟨after,(check_authority_answers n active s' below recorded'.toJustified).trans approved.symm,fun k => ?_⟩
      rw [used k]
      simp [Beneath,notGiven,found]

/-- A search with some of the signatures, as long as it meets no others. -/
private theorem parallel_fewer (sigs' : Finset Key) (sub : sigs' ⊆ sigs) :
    Parallel (signed_by (∅ : Finset Key)) (signed_by ∅)
      (fun s t => s.provided = sigs ∧ t.provided = sigs' ∧ s.used = t.used) (fun s => ¬ s.used ⊆ sigs')
      (fun _ => True) := by
  refine ⟨fun k s t related => ?_,fun k s marked kept => marked ?_,fun _ _ _ => trivial⟩
  · obtain ⟨provided,provided',used⟩ := related
    by_cases signed' : k ∈ sigs'
    · exact .inl (by simp [signed_by,provided,provided',used,signed',sub signed'])
    · by_cases signed : k ∈ sigs
      · exact .inr ⟨by simp [signed_by,provided,signed,Finset.insert_subset_iff,signed'],trivial⟩
      · exact .inl (by simp [signed_by,provided,provided',used,signed,signed'])
  · by_cases signed : k ∈ s.provided
    · have all : insert k s.used ⊆ sigs' := by simpa [signed_by,signed] using kept
      exact (Finset.subset_insert k s.used).trans all
    · simpa [signed_by,signed] using kept

theorem recorded_given (sigs : Finset Key) (given : Finset AccountId) (get_active : AccountId → Option (Authority Key)) :
    Recorded sigs given get_active ⟨⟨sigs,∅⟩,given⟩ :=
  ⟨justified_given sigs given get_active,fun _ member _ beneath => absurd member beneath.1⟩

/-- The keys that are met are enough. -/
theorem satisfied_of_met {sigs' : Finset Key} {n : Nat} {auth : Authority Key} (shallow : Shallow given get_active n auth)
    (sub : sigs' ⊆ sigs) (met : ∀ k, Met sigs given get_active auth k → k ∈ sigs')
    (satisfied : Satisfied sigs (Approved sigs given get_active) auth) :
    Satisfied sigs' (Approved sigs' given get_active) auth := by
  have returned := check_authority_complete n auth _ shallow (justified_given sigs given get_active) satisfied
  have used := (check_authority_met n auth _ shallow (recorded_given sigs given get_active)).2
  have alike := check_authority_alike (parallel_fewer sigs' sub) get_active n (some auth)
    (s := ⟨⟨sigs,∅⟩,given⟩) (t := ⟨⟨sigs',∅⟩,given⟩) ⟨⟨rfl,rfl,rfl⟩,rfl⟩
  rcases alike with ⟨same,-⟩ | ⟨marked,-⟩
  · obtain ⟨_,⟨⟩,satisfied'⟩ := (check_authority_sound n (some auth) _ (justified_given sigs' given get_active)).2
      (same.symm.trans returned)
    exact satisfied'
  · refine absurd (fun k member => met k ?_) marked
    simpa using (used k).mp member

end

/-! ### The loops over what is required -/

section
variable {ops : List (Operation Key)} {sigs sigs' : Finset Key} {given : Finset AccountId}
  {get_active get_owner : AccountId → Option (Authority Key)} {n : Nat}

/-- The keys of the required authorities: of the others, the owners and the active accounts. -/
def Collected (ops : List (Operation Key)) (sigs : Finset Key) (given : Finset AccountId)
    (get_active get_owner : AccountId → Option (Authority Key)) (k : Key) : Prop :=
  (∃ auth ∈ (required_authorities ops).other, Met sigs given get_active auth k) ∨
  (∃ id ∈ (required_authorities ops).owner, ∃ auth, get_owner id = some auth ∧ Met sigs given get_active auth k) ∨
  ∃ id ∈ (required_authorities ops).active, Beneath sigs given get_active id k

/-- The keys of the owner authorities that stand in for active ones. -/
def FallsBack (ops : List (Operation Key)) (sigs : Finset Key) (given : Finset AccountId)
    (get_active get_owner : AccountId → Option (Authority Key)) (k : Key) : Prop :=
  ∃ id ∈ (required_authorities ops).active, ¬ Approved sigs given get_active id ∧
    ∃ auth, get_owner id = some auth ∧ Met sigs given get_active auth k

theorem Collected.fewer {k : Key} (collected : Collected ops sigs given get_active get_owner k) (sub : sigs' ⊆ sigs)
    (signed : k ∈ sigs') : Collected ops sigs' given get_active get_owner k := by
  rcases collected with ⟨auth,member,met⟩ | ⟨id,member,auth,found,met⟩ | ⟨id,member,unknown,active,found,met⟩
  · exact .inl ⟨auth,member,met.fewer sub signed⟩
  · exact .inr (.inl ⟨id,member,auth,found,met.fewer sub signed⟩)
  · exact .inr (.inr ⟨id,member,unknown,active,found,met.fewer sub signed⟩)

theorem FallsBack.fewer {k : Key} (fallsBack : FallsBack ops sigs given get_active get_owner k) (sub : sigs' ⊆ sigs)
    (signed : k ∈ sigs') : FallsBack ops sigs' given get_active get_owner k := by
  obtain ⟨id,member,refused,auth,found,met⟩ := fallsBack
  exact ⟨id,member,fun approved => refused (approved.mono sub (Finset.Subset.refl given)),auth,found,met.fewer sub signed⟩

theorem Collected.signed {k : Key} (collected : Collected ops sigs given get_active get_owner k) : k ∈ sigs := by
  rcases collected with ⟨auth,-,met⟩ | ⟨id,-,auth,-,met⟩ | ⟨id,-,-,active,-,met⟩ <;> exact met.signed

/-- A check that uses exactly these keys. -/
def Uses (sigs : Finset Key) (given : Finset AccountId) (get_active : AccountId → Option (Authority Key))
    (check : SignState (Signatures Key) → Bool × SignState (Signatures Key)) (M : Key → Prop) : Prop :=
  ∀ s, Recorded sigs given get_active s → Recorded sigs given get_active (check s).2 ∧
    ∀ k, k ∈ (check s).2.signatures.used ↔ k ∈ s.signatures.used ∨ M k

theorem uses_optional {au : Option (Authority Key)} (shallow : ∀ auth, au = some auth → Shallow given get_active n auth) :
    Uses sigs given get_active (check_authority (signed_by ∅) get_active n au)
      (fun k => ∃ auth, au = some auth ∧ Met sigs given get_active auth k) := by
  intro s recorded
  cases au with
  | none =>
    rw [check_authority_none]
    exact ⟨recorded,by simp⟩
  | some auth =>
    obtain ⟨after,used⟩ := check_authority_met n auth s (shallow auth rfl) recorded
    exact ⟨after,fun k => by simp [used k]⟩

theorem uses_account {id : AccountId}
    (within : id ∈ given ∨ ∀ auth, get_active id = some auth → Shallow given get_active n auth) :
    Uses sigs given get_active (check_account (signed_by ∅) get_active n id) (Beneath sigs given get_active id) := by
  intro s recorded
  rw [check_account]
  split
  case isTrue known => exact ⟨recorded,fun k => ⟨.inl,fun used => used.elim (fun used => used) (recorded.met id known k)⟩⟩
  case isFalse unknown =>
    have notGiven : id ∉ given := fun isGiven => unknown (recorded.kept isGiven)
    obtain ⟨after,used⟩ := uses_optional (within.resolve_left notGiven) s recorded
    exact ⟨after,fun k => by simp [used k,Beneath,notGiven]⟩

theorem uses_each {α : Type} {check : α → SignState (Signatures Key) → Bool × SignState (Signatures Key)}
    {M : α → Key → Prop} (items : List α) (uses : ∀ a ∈ items, Uses sigs given get_active (check a) (M a))
    {s : SignState (Signatures Key)} (recorded : Recorded sigs given get_active s) :
    Recorded sigs given get_active (check_each check items s) ∧
    ∀ k, k ∈ (check_each check items s).signatures.used ↔ k ∈ s.signatures.used ∨ ∃ a ∈ items, M a k := by
  induction items generalizing s with
  | nil => exact ⟨recorded,by simp [check_each]⟩
  | cons a rest ih =>
    obtain ⟨first,later⟩ := List.forall_mem_cons.mp uses
    obtain ⟨after,used⟩ := first s recorded
    obtain ⟨last,used'⟩ := ih later after
    refine ⟨last,fun k => (used' k).trans ?_⟩
    simp only [used k,List.mem_cons,exists_eq_or_imp,or_assoc]

/-- What `get_required_signatures` collects. -/
theorem collect_required_used (limit : WithinLimit ops given get_active get_owner n) (k : Key) :
    k ∈ (collect_required (signed_by ∅) get_active get_owner n (required_authorities ops)
      ⟨⟨sigs,∅⟩,given⟩).signatures.used ↔ Collected ops sigs given get_active get_owner k := by
  obtain ⟨after,others⟩ := uses_each (M := fun auth => Met sigs given get_active auth) _
    (fun auth member s recorded => check_authority_met n auth s (limit.other auth member) recorded)
    (recorded_given sigs given get_active)
  obtain ⟨after,owners⟩ := uses_each _ (fun id member => uses_optional (limit.owner id member)) after
  obtain ⟨-,actives⟩ := uses_each _ (fun id member => uses_account ((limit.active id member).imp_right
    fun shallow auth found => shallow auth (.inl found))) after
  rw [collect_required,actives,owners,others]
  simp only [Finset.notMem_empty,false_or,Collected,or_assoc]

theorem check_account_answers {id : AccountId} {s : SignState (Signatures Key)}
    (within : id ∈ given ∨ ∀ auth, get_active id = some auth → Shallow given get_active n auth)
    (justified : Justified sigs given get_active s) :
    (check_account (signed_by ∅) get_active n id s).1 = true ↔ Approved sigs given get_active id := by
  refine ⟨(check_account_sound justified (Prod.eta _).symm).2,fun approved => ?_⟩
  rw [check_account]
  split
  case isTrue known => rfl
  case isFalse unknown =>
    have notGiven : id ∉ given := fun isGiven => unknown (justified.kept isGiven)
    obtain ⟨active,found,satisfied⟩ := (approved_iff.mp approved).resolve_left notGiven
    rw [found]
    exact check_authority_complete n active s (within.resolve_left notGiven active found) justified satisfied

/-- The owner authority is only searched when the active one does not do. -/
theorem uses_active {id : AccountId}
    (within : id ∈ given ∨
      ∀ auth, get_active id = some auth ∨ get_owner id = some auth → Shallow given get_active n auth) :
    Uses sigs given get_active (check_active (signed_by ∅) get_active get_owner n id)
      (fun k => Beneath sigs given get_active id k ∨ ¬ Approved sigs given get_active id ∧
        ∃ auth, get_owner id = some auth ∧ Met sigs given get_active auth k) := by
  intro s recorded
  have withinActive : id ∈ given ∨ ∀ auth, get_active id = some auth → Shallow given get_active n auth :=
    within.imp_right fun shallow auth found => shallow auth (.inl found)
  obtain ⟨after,used⟩ := uses_account withinActive s recorded
  have answers := check_account_answers withinActive recorded.toJustified
  rw [check_active]
  generalize check_account (signed_by ∅) get_active n id s = checked at after used answers
  obtain ⟨answer,s'⟩ := checked
  cases answer with
  | true =>
    have approved := answers.mp rfl
    exact ⟨after,fun k => by simp [used k,approved]⟩
  | false =>
    have refused : ¬ Approved sigs given get_active id := fun approved => Bool.false_ne_true (answers.mpr approved)
    have notGiven : id ∉ given := fun isGiven => refused (approved_iff.mpr (.inl isGiven))
    have owner : Uses sigs given get_active (check_authority (signed_by ∅) get_active n (get_owner id)) _ :=
      uses_optional fun auth found => within.resolve_left notGiven auth (.inr found)
    obtain ⟨last,used'⟩ := owner s' after
    exact ⟨last,fun k => by simp only [used' k,used k,refused,not_false_eq_true,true_and,or_assoc]⟩

theorem uses_all {α : Type} {check : α → SignState (Signatures Key) → Bool × SignState (Signatures Key)} {e : α → Exc}
    {M : α → Key → Prop} (items : List α) (uses : ∀ a ∈ items, Uses sigs given get_active (check a) (M a))
    {s s' : SignState (Signatures Key)} (recorded : Recorded sigs given get_active s)
    (ran : assert_all check e items s = .ok s') :
    Recorded sigs given get_active s' ∧ ∀ k, k ∈ s'.signatures.used ↔ k ∈ s.signatures.used ∨ ∃ a ∈ items, M a k := by
  induction items generalizing s with
  | nil =>
    cases ran
    exact ⟨recorded,by simp⟩
  | cons a rest ih =>
    obtain ⟨first,later⟩ := List.forall_mem_cons.mp uses
    obtain ⟨after,used⟩ := first s recorded
    rw [assert_all] at ran
    split at ran
    case h_1 s₁ checked =>
      rw [checked] at after used
      obtain ⟨last,used'⟩ := ih later after ran
      refine ⟨last,fun k => (used' k).trans ?_⟩
      simp only [used k,List.mem_cons,exists_eq_or_imp,or_assoc]
    case h_2 => cases ran

/-- What `verify_authority` uses. -/
theorem check_required_used (limit : WithinLimit ops given get_active get_owner n) {s : SignState (Signatures Key)}
    (ran : check_required (signed_by ∅) get_active get_owner n ∅ (required_authorities ops) ⟨⟨sigs,∅⟩,given⟩ = .ok s)
    (k : Key) : k ∈ s.signatures.used ↔
      Collected ops sigs given get_active get_owner k ∨ FallsBack ops sigs given get_active get_owner k := by
  obtain ⟨s₁,s₂,ranOther,ranActive,ranOwner⟩ := check_required_ok_iff.mp ran
  obtain ⟨after,others⟩ := uses_all (M := fun auth => Met sigs given get_active auth) _
    (fun auth member s recorded => check_authority_met n auth s (limit.other auth member) recorded)
    (recorded_given sigs given get_active) ranOther
  obtain ⟨after,actives⟩ := uses_all _ (fun id member => uses_active (limit.active id member)) after ranActive
  obtain ⟨-,owners⟩ := uses_all
    (M := fun id k => ∃ auth, get_owner id = some auth ∧ Met sigs given get_active auth k) _
    (fun id member s recorded => by
      simpa only [check_owner,Finset.notMem_empty,if_false] using uses_optional (limit.owner id member) s recorded)
    after ranOwner
  rw [owners,actives,others]
  simp only [Finset.notMem_empty,false_or,Collected,FallsBack]
  grind

/-- The authorities that a message about a required account prints are there. -/
structure Printable (ops : List (Operation Key)) (get_active get_owner : AccountId → Option (Authority Key)) : Prop where
  active : ∀ id ∈ (required_authorities ops).active, (get_active id).isSome ∧ (get_owner id).isSome
  owner : ∀ id ∈ (required_authorities ops).owner, (get_owner id).isSome

theorem assert_all_error {α σ : Type} {check : α → SignState σ → Bool × SignState σ} {e : α → Exc} (items : List α)
    {s : SignState σ} {x : Exc} (failed : assert_all check e items s = .error x) : ∃ a ∈ items, x = e a := by
  induction items generalizing s with
  | nil => cases failed
  | cons a rest ih =>
    rw [assert_all] at failed
    split at failed
    case h_1 s₁ checked =>
      obtain ⟨b,member,same⟩ := ih failed
      exact ⟨b,List.mem_cons_of_mem _ member,same⟩
    case h_2 =>
      cases failed
      exact ⟨a,List.mem_cons_self,rfl⟩

theorem check_required_error (printable : Printable ops get_active get_owner) {s : SignState (Signatures Key)} {e : Exc}
    (failed : check_required (signed_by ∅) get_active get_owner n ∅ (required_authorities ops) s = .error e) :
    Missing e := by
  have error_bind {β γ : Type} {x : Except Exc β} {f : β → Except Exc γ} (failed : x >>= f = .error e) :
      x = .error e ∨ ∃ b, f b = .error e := by
    cases x with
    | error e' => exact .inl (congrArg Except.error (Except.error.inj failed))
    | ok b => exact .inr ⟨b,failed⟩
  rw [check_required] at failed
  rcases error_bind failed with first | ⟨s₁,failed⟩
  · obtain ⟨_,-,rfl⟩ := assert_all_error _ first
    exact .inl rfl
  rcases error_bind failed with second | ⟨s₂,third⟩
  · obtain ⟨id,member,rfl⟩ := assert_all_error _ second
    exact .inr ⟨id,.inl (by simp [missing,printable.active id member])⟩
  · obtain ⟨id,member,rfl⟩ := assert_all_error _ third
    exact .inr ⟨id,.inr (by simp [missing,printable.owner id member])⟩

/-- The keys are accepted. -/
def Accepts (ops : List (Operation Key)) (get_active get_owner : AccountId → Option (Authority Key)) (max_recursion : Nat)
    (sigs : Finset Key) : Prop := verify_authority ops sigs get_active get_owner max_recursion false ∅ ∅ = .ok ()

/-- The requirements are met, by keys and the temporary account. -/
def Suffices (ops : List (Operation Key)) (get_active get_owner : AccountId → Option (Authority Key))
    (sigs : Finset Key) : Prop :=
  Fulfilled ops sigs (Approved sigs (approved ∅ ∅) get_active) get_owner ∅

theorem accepts_iff (limit : WithinLimit ops (approved ∅ ∅) get_active get_owner n) :
    Accepts ops get_active get_owner n sigs ↔ GRAPHENE_MINER_ACCOUNT ∉ (required_authorities ops).active ∧
      Suffices ops get_active get_owner sigs ∧ ∀ k ∈ sigs, Collected ops sigs (approved ∅ ∅) get_active get_owner k ∨
        FallsBack ops sigs (approved ∅ ∅) get_active get_owner k := by
  rw [Accepts,verify_authority_ok_iff]
  simp only [Bool.false_eq_true,false_or]
  refine and_congr_right fun _ => ⟨?_,?_⟩
  · rintro ⟨s,ran,used⟩
    obtain ⟨provided,fulfilled⟩ := check_required_sound ran
    refine ⟨fulfilled,fun k member => (check_required_used limit ran k).mp ?_⟩
    have all : s.signatures.provided ⊆ s.signatures.used := by simpa [has_unused_signatures] using used
    exact all (provided ▸ member)
  · rintro ⟨fulfilled,used⟩
    obtain ⟨s,ran⟩ := check_required_complete limit fulfilled
    refine ⟨s,ran,?_⟩
    have all : s.signatures.provided ⊆ s.signatures.used := by
      rw [(check_required_sound ran).1]
      exact fun k member => (check_required_used limit ran k).mpr (used k member)
    simpa [has_unused_signatures] using all

theorem Suffices.more (enough : Suffices ops get_active get_owner sigs) (sub : sigs ⊆ sigs') :
    Suffices ops get_active get_owner sigs' :=
  enough.mono sub (Finset.Subset.refl _) (Finset.Subset.refl _)

/-- Without enough keys an authority is missing. -/
theorem verify_missing (printable : Printable ops get_active get_owner)
    (outside : GRAPHENE_MINER_ACCOUNT ∉ (required_authorities ops).active)
    (unmet : ¬ Suffices ops get_active get_owner sigs) :
    ∃ e, verify_authority ops sigs get_active get_owner n false ∅ ∅ = .error e ∧ Missing e := by
  cases ran : check_required (signed_by ∅) get_active get_owner n ∅ (required_authorities ops)
      ⟨⟨sigs,∅⟩,approved ∅ ∅⟩ with
  | ok s => exact absurd (check_required_sound ran).2 unmet
  | error e =>
    have guard : (required_authorities ops).active.contains GRAPHENE_MINER_ACCOUNT = false := by simpa using outside
    refine ⟨e,?_,check_required_error printable ran⟩
    simp only [verify_authority,Bool.not_false,Bool.true_and,guard,Bool.false_eq_true,if_false,ran]
    rfl

end

/-! ### What is required -/

section
variable {ops : List (Operation Key)} {available_keys : Finset Key}
  {get_active get_owner : AccountId → Option (Authority Key)} {n : Nat}

/-- One search has signed what it has used, the other may use all that can sign. -/
def Producing (available_keys : Finset Key) (s t : Signatures Key) : Prop :=
  s.provided = s.used ∧ s.used ⊆ available_keys ∧ t.provided = available_keys ∧ s.used = t.used

/-- Keys that can sign are used as if they had signed. -/
private theorem parallel_available : Parallel (signed_by available_keys) (signed_by ∅) (Producing available_keys)
    (fun _ => False) (fun _ => False) := by
  refine ⟨fun k s t related => .inl ?_,fun _ _ => id,fun _ _ => id⟩
  obtain ⟨own,within,provided,used⟩ := related
  by_cases signed : k ∈ s.used
  · simp [Producing,signed_by,own,signed,provided,within signed,within,← used]
  · by_cases available : k ∈ available_keys
    · simp [Producing,signed_by,own,signed,provided,available,Finset.insert_subset_iff,within,← used]
    · simp [Producing,signed_by,own,signed,provided,available,within,← used]

private theorem each_together {α σ τ : Type} {R : σ → τ → Prop} {check : α → SignState σ → Bool × SignState σ}
    {check' : α → SignState τ → Bool × SignState τ}
    (alike : ∀ a s t, Together R s t → Alike R (fun _ => False) (fun _ => False) (check a s) (check' a t))
    (items : List α) {s : SignState σ} {t : SignState τ} (together : Together R s t) :
    Together R (check_each check items s) (check_each check' items t) := by
  induction items generalizing s t with
  | nil => exact together
  | cons a rest ih =>
    rcases alike a s t together with ⟨-,after⟩ | ⟨marked,-⟩
    · exact ih after
    · exact marked.elim

private theorem collect_required_together {σ τ : Type} {f : Key → σ → Bool × σ} {g : Key → τ → Bool × τ}
    {R : σ → τ → Prop} (parallel : Parallel f g R (fun _ => False) (fun _ => False)) (r : Required Key) {s : SignState σ} {t : SignState τ}
    (together : Together R s t) :
    Together R (collect_required f get_active get_owner n r s) (collect_required g get_active get_owner n r t) := by
  have account (id : AccountId) (s : SignState σ) (t : SignState τ) (together : Together R s t) :
      Alike R (fun _ => False) (fun _ => False) (check_account f get_active n id s)
        (check_account g get_active n id t) := by
    rw [check_account,check_account,together.2]
    split
    · exact .inl ⟨rfl,together⟩
    · exact check_authority_alike parallel get_active n _ together
  exact each_together account _
    (each_together (fun id _ _ => check_authority_alike parallel get_active n (get_owner id)) _
      (each_together (fun auth _ _ => check_authority_alike parallel get_active n (some auth)) _ together))

/-- `get_required_signatures` returns the keys of the required authorities, but not those of owner
    authorities that would have to stand in for active ones. -/
theorem get_required_signatures_ok {Signature : Type} (recover : Signature → Option Key)
    (limit : WithinLimit ops (approved ∅ ∅) get_active get_owner n) :
    ∃ keys, get_required_signatures recover ops [] available_keys get_active get_owner n = .ok keys ∧
      ∀ k, k ∈ keys ↔ Collected ops available_keys (approved ∅ ∅) get_active get_owner k := by
  have related : Together (Producing available_keys) ⟨⟨∅,∅⟩,approved ∅ ∅⟩ ⟨⟨available_keys,∅⟩,approved ∅ ∅⟩ :=
    ⟨⟨rfl,Finset.empty_subset _,rfl,rfl⟩,rfl⟩
  have together : Together (Producing available_keys)
      (collect_required (signed_by available_keys) get_active get_owner n (required_authorities ops) _)
      (collect_required (signed_by ∅) get_active get_owner n (required_authorities ops) _) :=
    collect_required_together parallel_available (required_authorities ops) related
  obtain ⟨⟨own,within,-,used⟩,-⟩ := together
  refine ⟨_,rfl,fun k => ?_⟩
  rw [← collect_required_used limit,← used]
  show k ∈ _ ∩ _ ∩ available_keys ↔ _
  rw [Finset.mem_inter,Finset.mem_inter]
  exact ⟨fun member => member.1.2,fun member => ⟨⟨own ▸ member,member⟩,within member⟩⟩

/-- Keys that are accepted, or that would be if some more keys could sign. -/
theorem accepts_of_collected (limit : WithinLimit ops (approved ∅ ∅) get_active get_owner n) {sigs : Finset Key}
    (outside : GRAPHENE_MINER_ACCOUNT ∉ (required_authorities ops).active) (sub : sigs ⊆ available_keys)
    (met : ∀ k ∈ sigs, Collected ops available_keys (approved ∅ ∅) get_active get_owner k ∨
      FallsBack ops available_keys (approved ∅ ∅) get_active get_owner k)
    (enough : Suffices ops get_active get_owner sigs) : Accepts ops get_active get_owner n sigs :=
  (accepts_iff limit).mpr ⟨outside,enough,fun k member =>
    (met k member).imp (fun collected => collected.fewer sub member) fun fallsBack => fallsBack.fewer sub member⟩

/-- The keys that are met for what is required are enough. -/
theorem suffices_of_met (limit : WithinLimit ops (approved ∅ ∅) get_active get_owner n) {sigs : Finset Key}
    (sub : sigs ⊆ available_keys)
    (collected : ∀ k, Collected ops available_keys (approved ∅ ∅) get_active get_owner k → k ∈ sigs)
    (actives : ∀ id ∈ (required_authorities ops).active, Approved available_keys (approved ∅ ∅) get_active id ∨
      OwnerSatisfied sigs (Approved sigs (approved ∅ ∅) get_active) get_owner id)
    (enough : Suffices ops get_active get_owner available_keys) : Suffices ops get_active get_owner sigs := by
  refine ⟨fun op member auth required => ?_,fun op member id required => ?_,fun op member id required => ?_⟩
  · have listed := mem_required_other.mpr ⟨op,member,required⟩
    exact satisfied_of_met (limit.other auth listed) sub (fun k met => collected k (.inl ⟨auth,listed,met⟩))
      (enough.other op member auth required)
  · have listed := mem_required_active.mpr ⟨op,member,required⟩
    refine (actives id listed).imp_left fun isApproved => ?_
    by_cases isGiven : id ∈ approved ∅ ∅
    · exact approved_iff.mpr (.inl isGiven)
    · obtain ⟨active,found,satisfied⟩ := (approved_iff.mp isApproved).resolve_left isGiven
      have shallow := (limit.active id listed).resolve_left isGiven active (.inl found)
      exact approved_iff.mpr (.inr ⟨active,found,satisfied_of_met shallow sub
        (fun k met => collected k (.inr (.inr ⟨id,listed,isGiven,active,found,met⟩))) satisfied⟩)
  · have listed := mem_required_owner.mpr ⟨op,member,required⟩
    obtain ⟨auth,found,satisfied⟩ := (enough.owner op member id required).resolve_left (Finset.notMem_empty id)
    exact .inr ⟨auth,found,satisfied_of_met (limit.owner id listed auth found) sub
      (fun k met => collected k (.inr (.inl ⟨id,listed,auth,found,met⟩))) satisfied⟩

/-- If all that can sign is enough, some of it is accepted: what `verify_authority` would use. -/
theorem accepted_of_suffices (limit : WithinLimit ops (approved ∅ ∅) get_active get_owner n)
    (outside : GRAPHENE_MINER_ACCOUNT ∉ (required_authorities ops).active)
    (enough : Suffices ops get_active get_owner available_keys) :
    ∃ sigs ⊆ available_keys, Accepts ops get_active get_owner n sigs := by
  obtain ⟨s,ran⟩ := check_required_complete limit enough
  have used := check_required_used limit ran
  have sub : s.signatures.used ⊆ available_keys := fun k member => by
    rcases (used k).mp member with collected | ⟨id,-,-,auth,-,met⟩
    · exact collected.signed
    · exact met.signed
  refine ⟨s.signatures.used,sub,accepts_of_collected limit outside sub (fun k member => (used k).mp member)
    (suffices_of_met limit sub (fun k collected => (used k).mpr (.inl collected)) (fun id listed => ?_) enough)⟩
  by_cases isApproved : Approved available_keys (approved ∅ ∅) get_active id
  · exact .inl isApproved
  · obtain ⟨op,member,required⟩ := mem_required_active.mp listed
    obtain ⟨auth,found,satisfied⟩ := (enough.active op member id required).resolve_left isApproved
    have notGiven : id ∉ approved ∅ ∅ := fun isGiven => isApproved (approved_iff.mpr (.inl isGiven))
    have shallow := (limit.active id listed).resolve_left notGiven auth (.inr found)
    exact .inr ⟨auth,found,satisfied_of_met shallow sub
      (fun k met => (used k).mpr (.inr ⟨id,listed,isApproved,auth,found,met⟩)) satisfied⟩

end

/-- If some of the available keys are accepted as signatures, then so are those that are returned,
    and no others but all of them. -/
def Minimized {Signature : Type} (recover : Signature → Option Key) (ops : List (Operation Key))
    (available_keys : Finset Key) (get_active get_owner : AccountId → Option (Authority Key)) (max_recursion : Nat) : Prop :=
  (∃ sigs ⊆ available_keys, Accepts ops get_active get_owner max_recursion sigs) →
    ∃ result, minimize_required_signatures recover ops [] available_keys get_active get_owner max_recursion = .ok result ∧
      Accepts ops get_active get_owner max_recursion result ∧
      ∀ k ∈ result, ¬ Accepts ops get_active get_owner max_recursion (result.erase k)

/-- Every active account that is required can be approved by its active authority, or its owner
    authority is satisfied by keys that are collected for something else. -/
def NoFallback (ops : List (Operation Key)) (available_keys : Finset Key)
    (get_active get_owner : AccountId → Option (Authority Key)) : Prop :=
  ∀ id ∈ (required_authorities ops).active, Approved available_keys (approved ∅ ∅) get_active id ∨
    ∃ sigs : Finset Key, (∀ k ∈ sigs, Collected ops available_keys (approved ∅ ∅) get_active get_owner k) ∧
      OwnerSatisfied sigs (Approved sigs (approved ∅ ∅) get_active) get_owner id

/-- An account that acts with key 1, and that key 2 owns. -/
theorem first_ordered : ([((1 : Nat),(1 : UInt16))].map Prod.fst).Pairwise (· < ·) := by simp

theorem second_ordered : ([((2 : Nat),(1 : UInt16))].map Prod.fst).Pairwise (· < ·) := by simp

def acting_key (_ : AccountId) : Option (Authority Nat) := some ⟨1,[],[(1,1)],none_ordered,first_ordered⟩

def owning_key (_ : AccountId) : Option (Authority Nat) := some ⟨1,[],[(2,1)],none_ordered,second_ordered⟩

/-- The keys that are returned are not accepted. -/
theorem not_minimized {ops : List (Operation Nat)} {available_keys sigs result : Finset Nat}
    {get_active get_owner : AccountId → Option (Authority Nat)} {n : Nat} (sub : sigs ⊆ available_keys)
    (accepted : Accepts ops get_active get_owner n sigs)
    (returned : minimize_required_signatures (fun key : Nat => some key) ops [] available_keys get_active get_owner n =
      .ok result) (refused : ¬ Accepts ops get_active get_owner n result) :
    ¬ Minimized (fun key : Nat => some key) ops available_keys get_active get_owner n := by
  intro claim
  obtain ⟨result',returned',acceptsResult,-⟩ := claim ⟨sigs,sub,accepted⟩
  obtain rfl : result = result' := Except.ok.inj (returned.symm.trans returned')
  exact refused acceptsResult

end Decent.Authorities

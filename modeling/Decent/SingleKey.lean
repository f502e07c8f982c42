import Decent.Authorities

/-!
The single-key checker beside the general one. The two classes run the same search
over different answers to `signed_by`; `Parallel` compares two such searches as
long as they get the same answers, and lets go of both once each is known to have
met the point where they part. The general checker asks for two things more: the
miner account must not act outside a proposal, and the signature must have been
used.
-/
namespace Decent.Authorities

variable {Key σ τ : Type} [LinearOrder Key]

/-! ### What `signed_by` keeps -/

section
variable {f : Key → σ → Bool × σ} {P : σ → Prop}

omit [LinearOrder Key] in
private theorem check_keys_keeps (keeps : ∀ k s, P s → P (f k s).2) (threshold : UInt32) (keys : List (Key × UInt16))
    (total : UInt32) (s : σ) (holds : P s) : P (check_keys f threshold keys total s).2 := by
  induction keys generalizing total s with
  | nil => exact holds
  | cons e rest ih =>
    obtain ⟨k,w⟩ := e
    have after := keeps k s holds
    rw [check_keys]
    generalize f k s = answered at after
    obtain ⟨answer,s'⟩ := answered
    cases answer with
    | true =>
      dsimp only
      split
      · exact after
      · exact ih _ s' after
    | false => exact ih _ s' after

private theorem check_accounts_keeps {deeper : Option (AccountId → SignState σ → Bool × SignState σ)}
    (keeps : ∀ check, deeper = some check → ∀ a s, P s.signatures → P (check a s).2.signatures) (threshold : UInt32)
    (accounts : List (AccountId × UInt16)) (total : UInt32) (s : SignState σ) (holds : P s.signatures) :
    P (check_accounts deeper threshold accounts total s).2.signatures := by
  induction accounts generalizing total s with
  | nil => exact holds
  | cons e rest ih =>
    obtain ⟨a,w⟩ := e
    by_cases known : a ∈ s.approved_by
    · rw [check_accounts_known known]
      split
      · exact holds
      · exact ih _ s holds
    cases deeper with
    | none =>
      rw [check_accounts_limit known]
      exact holds
    | some check =>
      have after := keeps check rfl a s holds
      cases checked : check a s with
      | mk answer s' =>
        rw [checked] at after
        cases answer with
        | true =>
          rw [check_accounts_approved known checked]
          split
          · exact after
          · exact ih _ _ after
        | false =>
          rw [check_accounts_refused known checked]
          exact ih _ s' after

private theorem check_members_keeps {deeper : Option (AccountId → SignState σ → Bool × SignState σ)}
    (signs : ∀ k s, P s → P (f k s).2)
    (keeps : ∀ check, deeper = some check → ∀ a s, P s.signatures → P (check a s).2.signatures)
    (auth : Authority Key) (s : SignState σ) (holds : P s.signatures) :
    P (check_members f deeper auth s).2.signatures := by
  have after := check_keys_keeps signs auth.weight_threshold auth.key_auths 0 s.signatures holds
  rw [check_members]
  generalize check_keys f auth.weight_threshold auth.key_auths 0 s.signatures = checked at after
  obtain ⟨result,signatures⟩ := checked
  cases result with
  | none => exact after
  | some total => exact check_accounts_keeps keeps _ _ _ _ after

/-- What `signed_by` keeps, the whole search keeps. -/
theorem check_authority_keeps (keeps : ∀ k s, P s → P (f k s).2) (get_active : AccountId → Option (Authority Key))
    (n : Nat) (au : Option (Authority Key)) (s : SignState σ) (holds : P s.signatures) :
    P (check_authority f get_active n au s).2.signatures := by
  induction n generalizing au s with
  | zero =>
    cases au with
    | none => exact holds
    | some auth => exact check_members_keeps keeps (by rintro _ ⟨⟩) auth s holds
  | succ n ih =>
    cases au with
    | none => exact holds
    | some auth =>
      refine check_members_keeps keeps ?_ auth s holds
      rintro _ ⟨⟩ a s' holds'
      exact ih (get_active a) s' holds'

end

/-! ### Two searches side by side -/

/-- Two answers to `signed_by`: equal from related states, unless both states are
    marked for good. -/
structure Parallel (f : Key → σ → Bool × σ) (g : Key → τ → Bool × τ) (R : σ → τ → Prop) (P : σ → Prop) (Q : τ → Prop) :
    Prop where
  step : ∀ k s t, R s t → ((f k s).1 = (g k t).1 ∧ R (f k s).2 (g k t).2) ∨ (P (f k s).2 ∧ Q (g k t).2)
  left : ∀ k s, P s → P (f k s).2
  right : ∀ k t, Q t → Q (g k t).2

/-- Related signatures and the same accounts. -/
def Together (R : σ → τ → Prop) (s : SignState σ) (t : SignState τ) : Prop :=
  R s.signatures t.signatures ∧ s.approved_by = t.approved_by

/-- Two searches ended alike, or both ended marked. -/
def Alike (R : σ → τ → Prop) (P : σ → Prop) (Q : τ → Prop) (x : Bool × SignState σ) (y : Bool × SignState τ) : Prop :=
  (x.1 = y.1 ∧ Together R x.2 y.2) ∨ (P x.2.signatures ∧ Q y.2.signatures)

section
variable {f : Key → σ → Bool × σ} {g : Key → τ → Bool × τ} {R : σ → τ → Prop} {P : σ → Prop} {Q : τ → Prop}

omit [LinearOrder Key] in
private theorem check_keys_alike (parallel : Parallel f g R P Q) (threshold : UInt32) (keys : List (Key × UInt16))
    (total : UInt32) {s : σ} {t : τ} (related : R s t) :
    ((check_keys f threshold keys total s).1 = (check_keys g threshold keys total t).1 ∧
      R (check_keys f threshold keys total s).2 (check_keys g threshold keys total t).2) ∨
    (P (check_keys f threshold keys total s).2 ∧ Q (check_keys g threshold keys total t).2) := by
  induction keys generalizing total s t with
  | nil => exact .inl ⟨rfl,related⟩
  | cons e rest ih =>
    obtain ⟨k,w⟩ := e
    rcases parallel.step k s t related with ⟨same,next⟩ | ⟨left,right⟩
    · rw [check_keys,check_keys]
      generalize f k s = answered at same next
      generalize g k t = answered' at same next
      obtain ⟨answer,s'⟩ := answered
      obtain ⟨answer',t'⟩ := answered'
      obtain rfl : answer = answer' := same
      cases answer with
      | true =>
        dsimp only
        split
        · exact .inl ⟨rfl,next⟩
        · exact ih _ next
      | false => exact ih _ next
    · -- The searches part here, and each keeps its mark to the end.
      have keepLeft := check_keys_keeps parallel.left threshold
      have keepRight := check_keys_keeps parallel.right threshold
      right
      constructor
      · rw [check_keys]
        generalize f k s = answered at left
        obtain ⟨answer,s'⟩ := answered
        cases answer with
        | true =>
          dsimp only
          split
          · exact left
          · exact keepLeft rest _ s' left
        | false => exact keepLeft rest _ s' left
      · rw [check_keys]
        generalize g k t = answered at right
        obtain ⟨answer,t'⟩ := answered
        cases answer with
        | true =>
          dsimp only
          split
          · exact right
          · exact keepRight rest _ t' right
        | false => exact keepRight rest _ t' right

/-- The checks of two searches for deeper levels. -/
private structure Deeper (R : σ → τ → Prop) (P : σ → Prop) (Q : τ → Prop)
    (check : AccountId → SignState σ → Bool × SignState σ) (check' : AccountId → SignState τ → Bool × SignState τ) :
    Prop where
  alike : ∀ a s t, Together R s t → Alike R P Q (check a s) (check' a t)
  left : ∀ a s, P s.signatures → P (check a s).2.signatures
  right : ∀ a t, Q t.signatures → Q (check' a t).2.signatures

/-- Both searches are at the depth limit, or both go deeper. -/
private inductive BothDeeper (R : σ → τ → Prop) (P : σ → Prop) (Q : τ → Prop) :
    Option (AccountId → SignState σ → Bool × SignState σ) → Option (AccountId → SignState τ → Bool × SignState τ) → Prop
  | limit : BothDeeper R P Q none none
  | deeper {check : AccountId → SignState σ → Bool × SignState σ} {check' : AccountId → SignState τ → Bool × SignState τ}
      (checks : Deeper R P Q check check') : BothDeeper R P Q (some check) (some check')

private theorem BothDeeper.left {deeper : Option (AccountId → SignState σ → Bool × SignState σ)}
    {deeper' : Option (AccountId → SignState τ → Bool × SignState τ)} (both : BothDeeper R P Q deeper deeper')
    (check : AccountId → SignState σ → Bool × SignState σ) (is : deeper = some check) (a : AccountId)
    (s : SignState σ) (holds : P s.signatures) : P (check a s).2.signatures := by
  cases both with
  | limit => cases is
  | deeper checks => cases is; exact checks.left a s holds

private theorem BothDeeper.right {deeper : Option (AccountId → SignState σ → Bool × SignState σ)}
    {deeper' : Option (AccountId → SignState τ → Bool × SignState τ)} (both : BothDeeper R P Q deeper deeper')
    (check : AccountId → SignState τ → Bool × SignState τ) (is : deeper' = some check) (a : AccountId)
    (t : SignState τ) (holds : Q t.signatures) : Q (check a t).2.signatures := by
  cases both with
  | limit => cases is
  | deeper checks => cases is; exact checks.right a t holds

private theorem check_accounts_alike {deeper : Option (AccountId → SignState σ → Bool × SignState σ)}
    {deeper' : Option (AccountId → SignState τ → Bool × SignState τ)} (both : BothDeeper R P Q deeper deeper')
    (threshold : UInt32) (accounts : List (AccountId × UInt16)) (total : UInt32) {s : SignState σ} {t : SignState τ}
    (together : Together R s t) :
    Alike R P Q (check_accounts deeper threshold accounts total s)
      (check_accounts deeper' threshold accounts total t) := by
  induction accounts generalizing total s t with
  | nil => exact .inl ⟨rfl,together⟩
  | cons e rest ih =>
    obtain ⟨a,w⟩ := e
    by_cases known : a ∈ s.approved_by
    · have known' : a ∈ t.approved_by := together.2 ▸ known
      rw [check_accounts_known known,check_accounts_known known']
      split
      · exact .inl ⟨rfl,together⟩
      · exact ih _ together
    have unknown : a ∉ t.approved_by := together.2 ▸ known
    cases both with
    | limit =>
      rw [check_accounts_limit known,check_accounts_limit unknown]
      exact .inl ⟨rfl,together⟩
    | @deeper check check' checks =>
      have alike := checks.alike a s t together
      cases checked : check a s with
      | mk answer s' =>
        cases checked' : check' a t with
        | mk answer' t' =>
          rw [checked,checked'] at alike
          rcases alike with ⟨same,after⟩ | ⟨left,right⟩
          · obtain rfl : answer = answer' := same
            cases answer with
            | true =>
              rw [check_accounts_approved known checked,check_accounts_approved unknown checked']
              have inserted : Together R { s' with approved_by := insert a s'.approved_by }
                  { t' with approved_by := insert a t'.approved_by } := ⟨after.1,by rw [after.2]⟩
              split
              · exact .inl ⟨rfl,inserted⟩
              · exact ih _ inserted
            | false =>
              rw [check_accounts_refused known checked,check_accounts_refused unknown checked']
              exact ih _ after
          · right
            constructor
            · have keepLeft := check_accounts_keeps (BothDeeper.deeper checks).left threshold rest
              cases answer with
              | true =>
                rw [check_accounts_approved known checked]
                split
                · exact left
                · exact keepLeft _ _ left
              | false =>
                rw [check_accounts_refused known checked]
                exact keepLeft _ _ left
            · have keepRight := check_accounts_keeps (BothDeeper.deeper checks).right threshold rest
              cases answer' with
              | true =>
                rw [check_accounts_approved unknown checked']
                split
                · exact right
                · exact keepRight _ _ right
              | false =>
                rw [check_accounts_refused unknown checked']
                exact keepRight _ _ right

private theorem check_members_alike (parallel : Parallel f g R P Q)
    {deeper : Option (AccountId → SignState σ → Bool × SignState σ)}
    {deeper' : Option (AccountId → SignState τ → Bool × SignState τ)} (both : BothDeeper R P Q deeper deeper')
    (auth : Authority Key) {s : SignState σ} {t : SignState τ} (together : Together R s t) :
    Alike R P Q (check_members f deeper auth s) (check_members g deeper' auth t) := by
  have keys := check_keys_alike parallel auth.weight_threshold auth.key_auths 0 together.1
  rw [check_members,check_members]
  generalize check_keys f auth.weight_threshold auth.key_auths 0 s.signatures = checked at keys
  generalize check_keys g auth.weight_threshold auth.key_auths 0 t.signatures = checked' at keys
  obtain ⟨result,signatures⟩ := checked
  obtain ⟨result',signatures'⟩ := checked'
  rcases keys with ⟨same,related⟩ | ⟨left,right⟩
  · obtain rfl : result = result' := same
    cases result with
    | none => exact .inl ⟨rfl,related,together.2⟩
    | some total => exact check_accounts_alike both _ _ _ ⟨related,together.2⟩
  · right
    constructor
    · cases result with
      | none => exact left
      | some total => exact check_accounts_keeps both.left _ _ _ _ left
    · cases result' with
      | none => exact right
      | some total => exact check_accounts_keeps both.right _ _ _ _ right

/-- Two searches with parallel answers end alike. -/
theorem check_authority_alike (parallel : Parallel f g R P Q) (get_active : AccountId → Option (Authority Key))
    (n : Nat) (au : Option (Authority Key)) {s : SignState σ} {t : SignState τ} (together : Together R s t) :
    Alike R P Q (check_authority f get_active n au s) (check_authority g get_active n au t) := by
  induction n generalizing au s t with
  | zero =>
    cases au with
    | none => exact .inl ⟨rfl,together⟩
    | some auth => exact check_members_alike parallel .limit auth together
  | succ n ih =>
    cases au with
    | none => exact .inl ⟨rfl,together⟩
    | some auth =>
      exact check_members_alike parallel (.deeper ⟨fun a s t together => ih (get_active a) together,
        fun a s holds => check_authority_keeps parallel.left get_active n (get_active a) s holds,
        fun a t holds => check_authority_keeps parallel.right get_active n (get_active a) t holds⟩) auth together

/-! ### The loops over what is required -/

/-- Two loops ended alike: both threw, both returned from together, or whatever
    they return is marked. -/
inductive LoopAlike (R : σ → τ → Prop) (P : σ → Prop) (Q : τ → Prop) :
    Except Exc (SignState σ) → Except Exc (SignState τ) → Prop
  | both {s : SignState σ} {t : SignState τ} (together : Together R s t) : LoopAlike R P Q (.ok s) (.ok t)
  | neither (e e' : Exc) : LoopAlike R P Q (.error e) (.error e')
  | marked {x : Except Exc (SignState σ)} {y : Except Exc (SignState τ)} (left : ∀ s, x = .ok s → P s.signatures)
      (right : ∀ t, y = .ok t → Q t.signatures) : LoopAlike R P Q x y

omit [LinearOrder Key] in
theorem LoopAlike.bind {x : Except Exc (SignState σ)} {y : Except Exc (SignState τ)}
    {F : SignState σ → Except Exc (SignState σ)} {G : SignState τ → Except Exc (SignState τ)}
    (alike : LoopAlike R P Q x y) (next : ∀ s t, Together R s t → LoopAlike R P Q (F s) (G t))
    (left : ∀ s s', P s.signatures → F s = .ok s' → P s'.signatures)
    (right : ∀ t t', Q t.signatures → G t = .ok t' → Q t'.signatures) : LoopAlike R P Q (x >>= F) (y >>= G) := by
  cases alike with
  | both together => exact next _ _ together
  | neither e e' => exact .neither e e'
  | marked markedLeft markedRight =>
    refine .marked (fun s' ran => ?_) (fun t' ran => ?_)
    · obtain ⟨s,first,later⟩ := bind_ok_iff.mp ran
      exact left s s' (markedLeft s first) later
    · obtain ⟨t,first,later⟩ := bind_ok_iff.mp ran
      exact right t t' (markedRight t first) later

omit [LinearOrder Key] in
private theorem assert_all_keeps {α : Type} {check : α → SignState σ → Bool × SignState σ} {e : α → Exc}
    (keeps : ∀ a s, P s.signatures → P (check a s).2.signatures) (items : List α) (s s' : SignState σ)
    (holds : P s.signatures) (ran : assert_all check e items s = .ok s') : P s'.signatures := by
  induction items generalizing s with
  | nil => cases ran; exact holds
  | cons a rest ih =>
    have after := keeps a s holds
    rw [assert_all] at ran
    split at ran
    case h_1 s₁ checked => rw [checked] at after; exact ih s₁ after ran
    case h_2 => cases ran

omit [LinearOrder Key] in
private theorem assert_all_alike {α : Type} {check : α → SignState σ → Bool × SignState σ}
    {check' : α → SignState τ → Bool × SignState τ} {e : α → Exc}
    (alike : ∀ a s t, Together R s t → Alike R P Q (check a s) (check' a t))
    (left : ∀ a s, P s.signatures → P (check a s).2.signatures)
    (right : ∀ a t, Q t.signatures → Q (check' a t).2.signatures) (items : List α) (s : SignState σ) (t : SignState τ)
    (together : Together R s t) : LoopAlike R P Q (assert_all check e items s) (assert_all check' e items t) := by
  induction items generalizing s t with
  | nil => exact .both together
  | cons a rest ih =>
    have once := alike a s t together
    rw [assert_all,assert_all]
    generalize check a s = checked at once
    generalize check' a t = checked' at once
    obtain ⟨answer,s'⟩ := checked
    obtain ⟨answer',t'⟩ := checked'
    rcases once with ⟨same,after⟩ | ⟨markedLeft,markedRight⟩
    · obtain rfl : answer = answer' := same
      cases answer with
      | true => exact ih s' t' after
      | false => exact .neither _ _
    · refine .marked (fun s₁ ran => ?_) (fun t₁ ran => ?_)
      · cases answer with
        | true => exact assert_all_keeps left rest s' s₁ markedLeft ran
        | false => cases ran
      · cases answer' with
        | true => exact assert_all_keeps right rest t' t₁ markedRight ran
        | false => cases ran

end

section
variable {f : Key → σ → Bool × σ} {P : σ → Prop} (get_active get_owner : AccountId → Option (Authority Key)) (n : Nat)

private theorem check_active_keeps (keeps : ∀ k s, P s → P (f k s).2) (id : AccountId) (s : SignState σ)
    (holds : P s.signatures) : P (check_active f get_active get_owner n id s).2.signatures := by
  have account : P (check_account f get_active n id s).2.signatures := by
    rw [check_account]
    split
    · exact holds
    · exact check_authority_keeps keeps get_active n _ s holds
  rw [check_active]
  split
  case h_1 s₁ checked => rw [checked] at account; exact account
  case h_2 s₁ checked =>
    rw [checked] at account
    exact check_authority_keeps keeps get_active n _ s₁ account

private theorem check_owner_keeps (keeps : ∀ k s, P s → P (f k s).2) (approvals : Finset AccountId) (id : AccountId)
    (s : SignState σ) (holds : P s.signatures) :
    P (check_owner f get_active get_owner n approvals id s).2.signatures := by
  rw [check_owner]
  split
  · exact holds
  · exact check_authority_keeps keeps get_active n _ s holds

end

section
variable {f : Key → σ → Bool × σ} {g : Key → τ → Bool × τ} {R : σ → τ → Prop} {P : σ → Prop} {Q : τ → Prop}
  (get_active get_owner : AccountId → Option (Authority Key)) (n : Nat)

private theorem check_active_alike (parallel : Parallel f g R P Q) (id : AccountId) (s : SignState σ) (t : SignState τ)
    (together : Together R s t) :
    Alike R P Q (check_active f get_active get_owner n id s) (check_active g get_active get_owner n id t) := by
  have account : Alike R P Q (check_account f get_active n id s) (check_account g get_active n id t) := by
    rw [check_account,check_account,together.2]
    split
    · exact .inl ⟨rfl,together⟩
    · exact check_authority_alike parallel get_active n _ together
  rw [check_active,check_active]
  generalize check_account f get_active n id s = checked at account
  generalize check_account g get_active n id t = checked' at account
  obtain ⟨answer,s'⟩ := checked
  obtain ⟨answer',t'⟩ := checked'
  rcases account with ⟨same,after⟩ | ⟨left,right⟩
  · obtain rfl : answer = answer' := same
    cases answer with
    | true => exact .inl ⟨rfl,after⟩
    | false => exact check_authority_alike parallel get_active n _ after
  · right
    constructor
    · cases answer with
      | true => exact left
      | false => exact check_authority_keeps parallel.left get_active n _ s' left
    · cases answer' with
      | true => exact right
      | false => exact check_authority_keeps parallel.right get_active n _ t' right

private theorem check_owner_alike (parallel : Parallel f g R P Q) (approvals : Finset AccountId) (id : AccountId)
    (s : SignState σ) (t : SignState τ) (together : Together R s t) :
    Alike R P Q (check_owner f get_active get_owner n approvals id s)
      (check_owner g get_active get_owner n approvals id t) := by
  rw [check_owner,check_owner]
  split
  · exact .inl ⟨rfl,together⟩
  · exact check_authority_alike parallel get_active n _ together

/-- Checking all that is required with parallel answers ends alike. -/
theorem check_required_alike (parallel : Parallel f g R P Q) (approvals : Finset AccountId) (r : Required Key)
    (s : SignState σ) (t : SignState τ) (together : Together R s t) :
    LoopAlike R P Q (check_required f get_active get_owner n approvals r s)
      (check_required g get_active get_owner n approvals r t) := by
  have other := assert_all_alike (R := R) (P := P) (Q := Q) (e := fun _ => .tx_missing_other_auth)
    (fun auth s t => check_authority_alike parallel get_active n (some auth))
    (fun auth s => check_authority_keeps parallel.left get_active n (some auth) s)
    (fun auth t => check_authority_keeps parallel.right get_active n (some auth) t) r.other s t together
  have ownerLeft := check_owner_keeps get_active get_owner n parallel.left approvals
  have ownerRight := check_owner_keeps get_active get_owner n parallel.right approvals
  refine other.bind (fun s₁ t₁ together₁ => ?_) (fun s₁ s' holds ran => ?_) (fun t₁ t' holds ran => ?_)
  · have active := assert_all_alike (e := fun id => missing (.tx_missing_active_auth id) [get_active id,get_owner id])
      (check_active_alike get_active get_owner n parallel) (check_active_keeps get_active get_owner n parallel.left)
      (check_active_keeps get_active get_owner n parallel.right) r.active s₁ t₁ together₁
    exact active.bind
      (fun s₂ t₂ => assert_all_alike (check_owner_alike get_active get_owner n parallel approvals) ownerLeft ownerRight
        r.owner s₂ t₂)
      (fun s₂ s' => assert_all_keeps ownerLeft r.owner s₂ s') (fun t₂ t' => assert_all_keeps ownerRight r.owner t₂ t')
  · obtain ⟨s₂,first,later⟩ := bind_ok_iff.mp ran
    have after := assert_all_keeps (check_active_keeps get_active get_owner n parallel.left) r.active s₁ s₂ holds first
    exact assert_all_keeps ownerLeft r.owner s₂ s' after later
  · obtain ⟨t₂,first,later⟩ := bind_ok_iff.mp ran
    have after := assert_all_keeps (check_active_keeps get_active get_owner n parallel.right) r.active t₁ t₂ holds first
    exact assert_all_keeps ownerRight r.owner t₂ t' after later

end

/-! ### One key -/

variable (ops : List (Operation Key)) (key : Key) (get_active get_owner : AccountId → Option (Authority Key)) (n : Nat)

/-- The key and the accounts approved from the start meet all that is required. -/
def KeySuffices : Prop :=
  ∃ s, check_required (signed_by ∅) get_active get_owner n ∅ (required_authorities ops)
    ⟨⟨{key},∅⟩,{GRAPHENE_TEMP_ACCOUNT}⟩ = .ok s

/-- An answer for a search without signatures that notes whether it was asked for
    the key. -/
def asked_for (key k : Key) (asked : Bool) : Bool × Bool := (false,asked || decide (k = key))

/-- All that is required is met without any signature, by a search that never looks
    at an authority with the key. -/
def KeyIgnored : Prop :=
  ∃ s, check_required (asked_for key) get_active get_owner n ∅ (required_authorities ops)
    ⟨false,{GRAPHENE_TEMP_ACCOUNT}⟩ = .ok s ∧ s.signatures = false

/-- When the two checkers agree on a key. -/
def KeyChecked : Prop :=
  (GRAPHENE_MINER_ACCOUNT ∈ (required_authorities ops).active → ¬ KeySuffices ops key get_active get_owner n) ∧
    ¬ KeyIgnored ops key get_active get_owner n

private theorem parallel_single : Parallel (signed_by ∅) (signed_by1 key)
    (fun (s : Signatures Key) (_ : Unit) => s.provided = {key}) (fun _ => False) (fun _ => False) where
  step k s t only := by
    left
    by_cases same : k = key
    · subst same; simp [signed_by,signed_by1,only]
    · simp [signed_by,signed_by1,only,same]
  left _ _ := id
  right _ _ := id

private theorem parallel_unasked : Parallel (signed_by ∅) (asked_for key)
    (fun (s : Signatures Key) (asked : Bool) => s = ⟨{key},∅⟩ ∧ asked = false)
    (fun s => s.provided = {key} ∧ key ∈ s.used) (fun asked => asked = true) where
  step k s t silent := by
    obtain ⟨rfl,rfl⟩ := silent
    by_cases same : k = key
    · subst same
      right
      simp [signed_by,asked_for]
    · left
      simp [signed_by,asked_for,same]
  left k s used := by
    by_cases same : k = key
    · subst same; simp [signed_by,used.1]
    · simp [signed_by,used.1,used.2,same]
  right k asked held := by simp [asked_for,held]

/-- The two searches accept the same operations. -/
private theorem single_suffices : verify_authority1 ops key get_active get_owner n = .ok () ↔
    KeySuffices ops key get_active get_owner n := by
  have alike := check_required_alike get_active get_owner n (parallel_single key) ∅ (required_authorities ops)
    ⟨⟨{key},∅⟩,{GRAPHENE_TEMP_ACCOUNT}⟩ ⟨(),{GRAPHENE_TEMP_ACCOUNT}⟩ ⟨rfl,rfl⟩
  rw [verify_authority1_ok_iff,KeySuffices]
  generalize check_required (signed_by ∅) get_active get_owner n ∅ (required_authorities ops) _ = x at alike
  generalize check_required (signed_by1 key) get_active get_owner n ∅ (required_authorities ops) _ = y at alike
  cases alike with
  | both together => exact ⟨fun _ => ⟨_,rfl⟩,fun _ => ⟨_,rfl⟩⟩
  | neither e e' => simp
  | marked left right =>
    constructor
    · rintro ⟨t,ran⟩; exact (right t ran).elim
    · rintro ⟨s,ran⟩; exact (left s ran).elim

/-- The search accepts and leaves the key unused exactly when it never asks for it. -/
private theorem unused_iff_ignored :
    (∃ s, check_required (signed_by ∅) get_active get_owner n ∅ (required_authorities ops)
        ⟨⟨{key},∅⟩,{GRAPHENE_TEMP_ACCOUNT}⟩ = .ok s ∧ has_unused_signatures s.signatures = true) ↔
      KeyIgnored ops key get_active get_owner n := by
  have alike := check_required_alike get_active get_owner n (parallel_unasked key) ∅ (required_authorities ops)
    ⟨⟨{key},∅⟩,{GRAPHENE_TEMP_ACCOUNT}⟩ ⟨false,{GRAPHENE_TEMP_ACCOUNT}⟩ ⟨⟨rfl,rfl⟩,rfl⟩
  rw [KeyIgnored]
  generalize check_required (signed_by ∅) get_active get_owner n ∅ (required_authorities ops) _ = x at alike
  generalize check_required (asked_for key) get_active get_owner n ∅ (required_authorities ops) _ = y at alike
  cases alike with
  | both together =>
    obtain ⟨⟨same,silent⟩,_⟩ := together
    constructor
    · rintro ⟨_,⟨⟩,_⟩; exact ⟨_,rfl,silent⟩
    · rintro ⟨_,⟨⟩,_⟩; exact ⟨_,rfl,by simp [has_unused_signatures,same]⟩
  | neither e e' => simp
  | marked left right =>
    constructor
    · rintro ⟨s,ran,unused⟩
      obtain ⟨only,used⟩ := left s ran
      simp [has_unused_signatures,only,used] at unused
    · rintro ⟨t,ran,silent⟩
      rw [right t ran] at silent
      cases silent

private theorem general_iff : verify_authority ops {key} get_active get_owner n false ∅ ∅ = .ok () ↔
    GRAPHENE_MINER_ACCOUNT ∉ (required_authorities ops).active ∧ KeySuffices ops key get_active get_owner n ∧
      ¬ KeyIgnored ops key get_active get_owner n := by
  have given : approved ∅ ∅ = {GRAPHENE_TEMP_ACCOUNT} := rfl
  rw [verify_authority_ok_iff,given,← unused_iff_ignored,KeySuffices]
  generalize check_required (signed_by ∅) get_active get_owner n ∅ (required_authorities ops) _ = x
  cases x with
  | error e => simp
  | ok s => simp

/-- The single-key checker agrees with the general one on a key exactly when the key
    does not act for the miner account and is not left unused; a signed transaction
    gets the general verdict under the same condition on its only key. -/
theorem single_key_agrees_iff :
    (∀ key, (verify_authority1 ops key get_active get_owner n = .ok () ↔
        verify_authority ops {key} get_active get_owner n false ∅ ∅ = .ok ()) ↔
      KeyChecked ops key get_active get_owner n) ∧
    ∀ {Signature : Type} (recover : Signature → Option Key) (signatures : List Signature),
      (signed_transaction_verify_authority recover ops signatures get_active get_owner n = .ok () ↔
        (do let keys ← get_signature_keys recover signatures
            verify_authority ops keys.toFinset get_active get_owner n false ∅ ∅) = .ok ()) ↔
      ∀ key, get_signature_keys recover signatures = .ok [key] → KeyChecked ops key get_active get_owner n := by
  have single : ∀ key, (verify_authority1 ops key get_active get_owner n = .ok () ↔
      verify_authority ops {key} get_active get_owner n false ∅ ∅ = .ok ()) ↔
      KeyChecked ops key get_active get_owner n := by
    intro key
    have suffices_of_ignored : KeyIgnored ops key get_active get_owner n → KeySuffices ops key get_active get_owner n := by
      intro ignored
      obtain ⟨s,ran,_⟩ := (unused_iff_ignored ops key get_active get_owner n).mpr ignored
      exact ⟨s,ran⟩
    rw [single_suffices,general_iff,KeyChecked]
    tauto
  refine ⟨single,fun {Signature} recover signatures => ?_⟩
  rw [signed_transaction_verify_authority]
  cases get_signature_keys recover signatures with
  | error e => simp [bind,Except.bind]
  | ok keys =>
    -- Only a list of one key takes the other path.
    simp only [bind,Except.bind,Except.ok.injEq]
    split
    case h_1 key =>
      rw [List.toFinset_cons,List.toFinset_nil,insert_empty_eq,single key]
      simp
    case h_2 many =>
      simp only [true_iff]
      intro key only
      exact absurd only (many key)

theorem seventh_ordered : ([((7 : Nat),(1 : UInt16))].map Prod.fst).Pairwise (· < ·) := by simp

/-- One key for the miner account, and nothing else. -/
def minerKey (id : AccountId) : Option (Authority Nat) :=
  if id = GRAPHENE_MINER_ACCOUNT then some ⟨1,[],[(7,1)],none_ordered,seventh_ordered⟩ else none

/-- An operation of the miner account signed with its key, and an operation of the
    temp account signed with any key. -/
theorem single_key_differs :
    ¬ (verify_authority1 [⟨GRAPHENE_MINER_ACCOUNT,[],[],[]⟩] 7 minerKey minerKey 2 = .ok () ↔
      verify_authority [⟨GRAPHENE_MINER_ACCOUNT,[],[],[]⟩] {7} minerKey minerKey 2 false ∅ ∅ = .ok ()) ∧
    ¬ (verify_authority1 [⟨GRAPHENE_TEMP_ACCOUNT,[],[],[]⟩] 7 minerKey minerKey 2 = .ok () ↔
      verify_authority [⟨GRAPHENE_TEMP_ACCOUNT,[],[],[]⟩] {7} minerKey minerKey 2 false ∅ ∅ = .ok ()) := by
  have minerSingle : verify_authority1 [⟨GRAPHENE_MINER_ACCOUNT,[],[],[]⟩] 7 minerKey minerKey 2 = .ok () := rfl
  have minerGeneral : verify_authority [⟨GRAPHENE_MINER_ACCOUNT,[],[],[]⟩] {7} minerKey minerKey 2 false ∅ ∅ =
      .error .invalid_committee_approval := rfl
  have tempSingle : verify_authority1 [⟨GRAPHENE_TEMP_ACCOUNT,[],[],[]⟩] 7 minerKey minerKey 2 = .ok () := rfl
  have tempGeneral : verify_authority [⟨GRAPHENE_TEMP_ACCOUNT,[],[],[]⟩] {7} minerKey minerKey 2 false ∅ ∅ =
      .error .tx_irrelevant_sig := rfl
  rw [minerSingle,minerGeneral,tempSingle,tempGeneral]
  simp

end Decent.Authorities

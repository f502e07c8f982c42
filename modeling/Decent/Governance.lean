import Mathlib.Data.Finset.Basic
import Mathlib.Algebra.Group.Nat.Defs

/-!
The parameters of the chain that a vote can set, and the proposals by which the miners vote:
whether parameters that are accepted leave the next vote possible. Times and periods are words
of 32 bits; the durations between two times are signed and do not overflow.
-/
namespace Decent.Governance

abbrev AccountId := Nat

/-- `GRAPHENE_MINER_ACCOUNT`. -/
def miner_account : AccountId := 0

def min_block_interval : UInt8 := 1
def max_block_interval : UInt8 := 30
def min_transaction_size_limit : UInt32 := 1024
def min_block_size_limit : UInt32 := min_transaction_size_limit * 5

/-- `FC_ASSERT`, with its text. -/
def fc_assert (c : Prop) [Decidable c] (text : String) : Except String Unit := if c then .ok () else .error text

/-! ### The parameters -/

/-- What `validate` reads; it visits the schedule of the fees too, and checks nothing there. -/
structure ChainParameters where
  block_interval : UInt8
  maintenance_interval : UInt32
  miner_proposal_review_period : UInt32
  maximum_transaction_size : UInt32
  maximum_block_size : UInt32
  maximum_time_until_expiration : UInt32
  maximum_proposal_lifetime : UInt32

/-- The last check subtracts words. -/
def ChainParameters.validate (p : ChainParameters) : Except String Unit := do
  let block_interval := p.block_interval.toUInt32
  fc_assert (p.block_interval ≥ min_block_interval) ""
  fc_assert (p.block_interval ≤ max_block_interval) ""
  fc_assert (p.block_interval > 0) ""
  fc_assert (p.maintenance_interval > block_interval) "Maintenance interval must be longer than block interval"
  fc_assert (p.maintenance_interval % block_interval = 0)
    "Maintenance interval must be a multiple of block interval"
  fc_assert (p.maximum_transaction_size ≥ min_transaction_size_limit) "Transaction size limit is too low"
  fc_assert (p.maximum_block_size ≥ min_block_size_limit) "Block size limit is too low"
  fc_assert (p.maximum_time_until_expiration > block_interval)
    "Maximum transaction expiration time must be greater than a block interval"
  fc_assert (p.maximum_proposal_lifetime - p.miner_proposal_review_period > block_interval)
    "Committee proposal review period must be less than the maximum proposal lifetime"

/-! ### Creating a proposal -/

/-- What `operation_get_required_authorities` finds: accounts, and how many other authorities. -/
structure RequiredAuthorities where
  active : Finset AccountId
  owner : Finset AccountId
  other : Nat

/-- The operations that can be proposed. -/
structure Operations (O : Type) where
  get_required_authorities : O → RequiredAuthorities
  /-- `transaction::validate` of the operations. -/
  validate : List O → Except String Unit

structure ProposalCreateOperation (O : Type) where
  proposed_ops : List O
  expiration_time : UInt32
  review_period_seconds : Option UInt32

/-- `proposal_create_operation::miner_proposal`; the caller adds the operations. -/
def miner_proposal (O : Type) (p : ChainParameters) (head_block_time : UInt32) : ProposalCreateOperation O :=
  ⟨[],head_block_time + p.maximum_proposal_lifetime,some p.miner_proposal_review_period⟩

/-- A number of seconds in microseconds. -/
def microseconds (seconds : Int) : Int := seconds * 1000000

section
variable {O : Type} (Ops : Operations O)

/-- The operation is proposed with the authority of an account. -/
def needs (ops : List O) (account : AccountId) : Prop :=
  ∃ op ∈ ops, account ∈ (Ops.get_required_authorities op).active ∨ account ∈ (Ops.get_required_authorities op).owner

instance (ops : List O) (account : AccountId) : Decidable (needs Ops ops account) := by
  unfold needs
  infer_instance

/-- The check on what needs the authority of the miners. -/
def check_review_period (p : ChainParameters) : Option UInt32 → Except String Unit
  | none => .error "Review period not given, but at least ${min} required"
  | some period =>
    fc_assert (period ≥ p.miner_proposal_review_period) "Review period of ${t} specified, but at least ${min} required"

/-- A period is the only one there is. -/
local instance decidable_period (period : Option UInt32) (p : UInt32 → Prop) [DecidablePred p] :
    Decidable (∀ x ∈ period, p x) := Option.decidableForallMem period

/-- `proposal_create_evaluator::do_evaluate` -/
def proposal_create_evaluate (p : ChainParameters) (head_block_time : UInt32) (o : ProposalCreateOperation O) :
    Except String Unit := do
  fc_assert (o.expiration_time > head_block_time) "Proposal has already expired on creation."
  fc_assert (o.expiration_time ≤ head_block_time + p.maximum_proposal_lifetime)
    "Proposal expiration time is too far in the future."
  fc_assert (∀ period ∈ o.review_period_seconds, microseconds period.toNat <
      microseconds o.expiration_time.toNat - microseconds head_block_time.toNat)
    "Proposal review period must be less than its overall lifetime."
  fc_assert (∀ op ∈ o.proposed_ops, (Ops.get_required_authorities op).other = 0) ""
  if needs Ops o.proposed_ops miner_account then check_review_period p o.review_period_seconds
  Ops.validate o.proposed_ops

/-- What the votes on a proposal read and write of it. -/
structure ProposalObject where
  expiration_time : UInt32
  review_period_time : Option UInt32
  available_active_approvals : Finset AccountId
  available_owner_approvals : Finset AccountId

/-- `proposal_create_evaluator::do_apply` -/
def proposal_create_apply (o : ProposalCreateOperation O) : ProposalObject :=
  ⟨o.expiration_time,o.review_period_seconds.map (o.expiration_time - ·),∅,∅⟩

end

/-! ### Voting -/

structure ProposalUpdateOperation where
  active_approvals_to_add : Finset AccountId
  active_approvals_to_remove : Finset AccountId
  owner_approvals_to_add : Finset AccountId
  owner_approvals_to_remove : Finset AccountId

/-- `proposal_update_evaluator::do_evaluate` -/
def proposal_update_evaluate (proposal : ProposalObject) (head_block_time : UInt32) (o : ProposalUpdateOperation) :
    Except String Unit := do
  if ∃ start ∈ proposal.review_period_time, head_block_time ≥ start then
    fc_assert (o.active_approvals_to_add = ∅ ∧ o.owner_approvals_to_add = ∅)
      "This proposal is in its review period. No new approvals may be added."
  fc_assert (∀ id ∈ o.active_approvals_to_remove, id ∈ proposal.available_active_approvals) ""
  fc_assert (∀ id ∈ o.owner_approvals_to_remove, id ∈ proposal.available_owner_approvals) ""

/-- What `proposal_update_evaluator::do_apply` records; a proposal with a review period is not executed
    before it expires. -/
def proposal_update_apply (proposal : ProposalObject) (o : ProposalUpdateOperation) : ProposalObject :=
  { proposal with
    available_active_approvals := (proposal.available_active_approvals ∪ o.active_approvals_to_add) \ o.active_approvals_to_remove
    available_owner_approvals := (proposal.available_owner_approvals ∪ o.owner_approvals_to_add) \ o.owner_approvals_to_remove }

/-! ### What is checked -/

theorem fc_assert_ok {c : Prop} [Decidable c] {text : String} : fc_assert c text = .ok () ↔ c := by
  unfold fc_assert
  split
  · next holds => exact iff_of_true rfl holds
  · next fails => exact iff_of_false nofun fails

theorem then_ok {x y : Except String Unit} : (do x; y) = .ok () ↔ x = .ok () ∧ y = .ok () := by
  cases x with
  | error text => exact iff_of_false nofun fun both => nomatch both.1
  | ok u => exact ⟨fun rest => ⟨rfl,rest⟩,fun both => both.2⟩

theorem if_ok {c : Prop} [Decidable c] {x y : Except String Unit} :
    (do if c then x
        y) = .ok () ↔ (c → x = .ok ()) ∧ y = .ok () := by
  split
  · next holds => exact then_ok.trans (and_congr_left fun _ => ⟨fun ran _ => ran,fun ran => ran holds⟩)
  · next fails => exact (and_iff_right fun holds => absurd holds fails).symm

/-- What the last check makes of the two periods: none of its words wraps, or the review is the longer. -/
theorem accepted_periods {p : ChainParameters} (accepted : p.validate = .ok ()) :
    p.block_interval.toUInt32 < p.maximum_proposal_lifetime - p.miner_proposal_review_period := by
  unfold ChainParameters.validate at accepted
  simp only [then_ok,fc_assert_ok] at accepted
  exact accepted.2.2.2.2.2.2.2.2

/-- A review that is shorter than the lifetime ends more than a block before it. -/
theorem review_leaves_a_block {p : ChainParameters} (accepted : p.validate = .ok ())
    (shorter : p.miner_proposal_review_period < p.maximum_proposal_lifetime) :
    p.miner_proposal_review_period.toNat + p.block_interval.toNat < p.maximum_proposal_lifetime.toNat := by
  have left := UInt32.lt_iff_toNat_lt.mp (accepted_periods accepted)
  have less := UInt32.lt_iff_toNat_lt.mp shorter
  rw [UInt32.toNat_sub_of_le _ _ (UInt32.le_of_lt shorter),UInt8.toNat_toUInt32] at left
  omega

section
variable {O : Type} {Ops : Operations O} {p : ChainParameters} {head_block_time : UInt32} {o : ProposalCreateOperation O}

/-- What a proposal has to meet that needs the authority of the miners. -/
theorem proposal_create_ok (needed : needs Ops o.proposed_ops miner_account) :
    proposal_create_evaluate Ops p head_block_time o = .ok () ↔
      head_block_time < o.expiration_time ∧ o.expiration_time ≤ head_block_time + p.maximum_proposal_lifetime ∧
      (∃ period, o.review_period_seconds = some period ∧ p.miner_proposal_review_period ≤ period ∧
        head_block_time.toNat + period.toNat < o.expiration_time.toNat) ∧
      (∀ op ∈ o.proposed_ops, (Ops.get_required_authorities op).other = 0) ∧ Ops.validate o.proposed_ops = .ok () := by
  unfold proposal_create_evaluate
  simp only [then_ok,fc_assert_ok,if_ok]
  constructor
  · rintro ⟨alive,near,less,ordinary,enough,valid⟩
    have reviewed := enough needed
    cases given : o.review_period_seconds with
    | none =>
      rw [given] at reviewed
      cases reviewed
    | some period =>
      rw [given] at reviewed less
      have shorter := less period rfl
      unfold microseconds at shorter
      exact ⟨alive,near,⟨period,rfl,fc_assert_ok.mp reviewed,by omega⟩,ordinary,valid⟩
  · rintro ⟨alive,near,⟨period,given,enough,less⟩,ordinary,valid⟩
    rw [given]
    refine ⟨alive,near,?_,ordinary,fun _ => fc_assert_ok.mpr enough,valid⟩
    intro period' same
    cases same
    unfold microseconds
    omega

/-- No proposal lives when the longest lifetime leaves the dates, and no review fits one that is not longer
    than it. -/
theorem lifetime_of_proposal (needed : needs Ops o.proposed_ops miner_account)
    (passes : proposal_create_evaluate Ops p head_block_time o = .ok ()) :
    p.miner_proposal_review_period < p.maximum_proposal_lifetime ∧
      head_block_time.toNat + p.maximum_proposal_lifetime.toNat < 2^32 := by
  obtain ⟨alive,near,⟨period,-,enough,less⟩,-,-⟩ := (proposal_create_ok needed).mp passes
  have alive := UInt32.lt_iff_toNat_lt.mp alive
  have near := UInt32.le_iff_toNat_le.mp near
  have enough := UInt32.le_iff_toNat_le.mp enough
  have head := head_block_time.toNat_lt
  have lifetime := p.maximum_proposal_lifetime.toNat_lt
  rw [UInt32.toNat_add] at near
  have unwrapped : head_block_time.toNat + p.maximum_proposal_lifetime.toNat < 2^32 := by
    by_contra wraps
    rw [Nat.mod_eq_sub_mod (by omega),Nat.mod_eq_of_lt (by omega)] at near
    omega
  rw [Nat.mod_eq_of_lt unwrapped] at near
  exact ⟨UInt32.lt_iff_toNat_lt.mpr (by omega),unwrapped⟩

end

/-- Before the review an update that only adds approvals passes. -/
theorem proposal_update_before_review {proposal : ProposalObject} {start head_block_time : UInt32}
    (review : proposal.review_period_time = some start) (before : head_block_time < start) (active owner : Finset AccountId) :
    proposal_update_evaluate proposal head_block_time ⟨active,∅,owner,∅⟩ = .ok () := by
  have outside : ¬∃ start ∈ proposal.review_period_time, head_block_time ≥ start := by
    rintro ⟨start',given,begun⟩
    cases review.symm.trans given
    exact absurd before (UInt32.not_lt.mpr begun)
  unfold proposal_update_evaluate
  simp only [then_ok,fc_assert_ok,if_ok]
  exact ⟨fun begun => absurd begun outside,nofun,nofun⟩

/-! ### The next vote -/

/-- Operations that need the authority of the miners can be proposed as `miner_proposal` builds it. The
    proposal takes approvals until its review starts, which is later than the next block. -/
structure Governable {O : Type} (Ops : Operations O) (p : ChainParameters) (head_block_time : UInt32) (ops : List O) : Prop where
  created : proposal_create_evaluate Ops p head_block_time { miner_proposal O p head_block_time with proposed_ops := ops } = .ok ()
  approved : ∃ start,
    (proposal_create_apply { miner_proposal O p head_block_time with proposed_ops := ops }).review_period_time = some start ∧
      head_block_time.toNat + p.block_interval.toNat < start.toNat ∧
      ∀ now < start, ∀ proposal : ProposalObject, proposal.review_period_time = some start → ∀ active owner,
        proposal_update_evaluate proposal now ⟨active,∅,owner,∅⟩ = .ok () ∧
          active ⊆ (proposal_update_apply proposal ⟨active,∅,owner,∅⟩).available_active_approvals ∧
          owner ⊆ (proposal_update_apply proposal ⟨active,∅,owner,∅⟩).available_owner_approvals

/-- The start of the review, where neither date leaves the words. -/
theorem review_start {p : ChainParameters} {head_block_time : UInt32} (accepted : p.validate = .ok ())
    (shorter : p.miner_proposal_review_period < p.maximum_proposal_lifetime)
    (unwrapped : head_block_time.toNat + p.maximum_proposal_lifetime.toNat < 2^32) :
    head_block_time.toNat + p.block_interval.toNat <
      (head_block_time + p.maximum_proposal_lifetime - p.miner_proposal_review_period).toNat := by
  have room := review_leaves_a_block accepted shorter
  have expiration : (head_block_time + p.maximum_proposal_lifetime).toNat =
      head_block_time.toNat + p.maximum_proposal_lifetime.toNat := by
    rw [UInt32.toNat_add,Nat.mod_eq_of_lt unwrapped]
  have within : p.miner_proposal_review_period ≤ head_block_time + p.maximum_proposal_lifetime := by
    rw [UInt32.le_iff_toNat_le,expiration]
    omega
  rw [UInt32.toNat_sub_of_le _ _ within,expiration]
  omega

/-- Accepted parameters leave the next vote possible exactly when the review is shorter than the lifetime,
    which the check on words misses, and the lifetime from the head block on stays within the dates. Where
    they do not, nothing that needs the authority of the miners can be proposed at all. -/
theorem governable_exact {O : Type} (Ops : Operations O) (p : ChainParameters) (accepted : p.validate = .ok ())
    (head_block_time : UInt32) (ops : List O) (needed : needs Ops ops miner_account)
    (ordinary : ∀ op ∈ ops, (Ops.get_required_authorities op).other = 0) (valid : Ops.validate ops = .ok ()) :
    (Governable Ops p head_block_time ops ↔
      p.miner_proposal_review_period < p.maximum_proposal_lifetime ∧
        head_block_time.toNat + p.maximum_proposal_lifetime.toNat < 2^32) ∧
    ((∃ o : ProposalCreateOperation O, o.proposed_ops = ops ∧ proposal_create_evaluate Ops p head_block_time o = .ok ()) ↔
      p.miner_proposal_review_period < p.maximum_proposal_lifetime ∧
        head_block_time.toNat + p.maximum_proposal_lifetime.toNat < 2^32) := by
  have governs : p.miner_proposal_review_period < p.maximum_proposal_lifetime ∧
      head_block_time.toNat + p.maximum_proposal_lifetime.toNat < 2^32 → Governable Ops p head_block_time ops := by
    rintro ⟨shorter,unwrapped⟩
    have room := review_leaves_a_block accepted shorter
    have begins := review_start accepted shorter unwrapped
    have expiration : (head_block_time + p.maximum_proposal_lifetime).toNat =
        head_block_time.toNat + p.maximum_proposal_lifetime.toNat := by
      rw [UInt32.toNat_add,Nat.mod_eq_of_lt unwrapped]
    constructor
    · refine (proposal_create_ok (by exact needed)).mpr ⟨?_,UInt32.le_refl _,⟨_,rfl,UInt32.le_refl _,?_⟩,ordinary,valid⟩
      · show head_block_time < head_block_time + p.maximum_proposal_lifetime
        rw [UInt32.lt_iff_toNat_lt,expiration]
        omega
      · show head_block_time.toNat + p.miner_proposal_review_period.toNat < (head_block_time + p.maximum_proposal_lifetime).toNat
        rw [expiration]
        omega
    · refine ⟨_,rfl,begins,fun now before proposal review active owner =>
        ⟨proposal_update_before_review review before active owner,?_,?_⟩⟩
      · exact fun id added => Finset.mem_sdiff.mpr ⟨Finset.mem_union_right _ added,Finset.notMem_empty id⟩
      · exact fun id added => Finset.mem_sdiff.mpr ⟨Finset.mem_union_right _ added,Finset.notMem_empty id⟩
  have proposes : ∀ o : ProposalCreateOperation O, o.proposed_ops = ops →
      proposal_create_evaluate Ops p head_block_time o = .ok () →
      p.miner_proposal_review_period < p.maximum_proposal_lifetime ∧
        head_block_time.toNat + p.maximum_proposal_lifetime.toNat < 2^32 := by
    rintro o rfl passes
    exact lifetime_of_proposal needed passes
  exact ⟨⟨fun governable => proposes _ rfl governable.created,governs⟩,
    ⟨fun ⟨o,same,passes⟩ => proposes o same passes,fun condition => ⟨_,rfl,(governs condition).created⟩⟩⟩

/-! ### Two settings -/

/-- The parameters of the source, with the two periods to be set. -/
def with_periods (review lifetime : UInt32) : ChainParameters :=
  ⟨5,60*60*24,review,4096,4096*5*200,60*60*24,lifetime⟩

/-- One operation, which changes the parameters with the authority of the miners. -/
def update_parameters : Operations Unit where
  get_required_authorities _ := ⟨{miner_account},∅,0⟩
  validate _ := .ok ()

/-- Two weeks of review in a lifetime of four weeks. -/
theorem governable_four_weeks : Governable update_parameters (with_periods (60*60*24*7*2) (60*60*24*7*4)) 1530000000 [()] :=
  (governable_exact update_parameters (with_periods (60*60*24*7*2) (60*60*24*7*4)) (by decide) 1530000000 [()]
    (by decide) (by decide) rfl).1.mpr (by decide)

/-- A review that is one second longer than the lifetime is accepted, and ends the votes. -/
theorem accepted_ungovernable : ¬∀ (p : ChainParameters) (head_block_time : UInt32), p.validate = .ok () →
    Governable update_parameters p head_block_time [()] := by
  intro always
  have governable := always (with_periods (60*60*24*7*4+1) (60*60*24*7*4)) 1530000000 (by decide)
  exact absurd (lifetime_of_proposal (by decide) governable.created).1 (by decide)

end Decent.Governance

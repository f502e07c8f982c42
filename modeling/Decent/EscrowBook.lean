import Decent.Settings

/-!
The book of the publishing escrows. Every content is entered with the fee of its author; what
is taken out of its escrow is a reward for a seeder or, when the content ends, what is left for
the author. The book of each content balances in every run, and since rewards are bounded by
what is left, its escrow is not overdrawn.
-/
namespace Decent.Money
open Throwing

namespace EscrowMovement

/-- The content it is about. -/
def content : EscrowMovement → Nat
  | .fee id _ _ => id
  | .reward id _ _ _ => id
  | .refund id _ _ => id

/-- What is paid to a seeder of the content. -/
def reward_of (id : Nat) : EscrowMovement → Int
  | .reward k _ x _ => if k = id then x.amount else 0
  | _ => 0

/-- What is returned of the content's escrow. -/
def refund_of (id : Nat) : EscrowMovement → Int
  | .refund k _ x => if k = id then x.amount else 0
  | _ => 0

def is_fee (id : Nat) : EscrowMovement → Bool
  | .fee k _ _ => k = id
  | _ => false

/-- A reward for the content is paid above block 404727. -/
def late (id : Nat) : EscrowMovement → Prop
  | .reward k _ _ head => k = id → block_halt_fix < head
  | _ => True

theorem reward_of_other {m : EscrowMovement} {id : Nat} (other : m.content ≠ id) : m.reward_of id = 0 := by
  cases m with
  | reward k seeder x head => exact if_neg other
  | _ => rfl

theorem refund_of_other {m : EscrowMovement} {id : Nat} (other : m.content ≠ id) : m.refund_of id = 0 := by
  cases m with
  | refund k account x => exact if_neg other
  | _ => rfl

theorem is_fee_other {m : EscrowMovement} {id : Nat} (other : m.content ≠ id) : m.is_fee id = false := by
  cases m with
  | fee k author x => exact decide_eq_false other
  | _ => rfl

end EscrowMovement

/-- What was paid to the seeders of a content. -/
def rewards (id : Nat) (movements : List EscrowMovement) : Int := (movements.map (·.reward_of id)).sum

/-- What was returned of its escrow. -/
def refunds (id : Nat) (movements : List EscrowMovement) : Int := (movements.map (·.refund_of id)).sum

@[simp] theorem rewards_cons (id : Nat) (m : EscrowMovement) (ms : List EscrowMovement) :
    rewards id (m :: ms) = m.reward_of id + rewards id ms := List.sum_cons ..

@[simp] theorem refunds_cons (id : Nat) (m : EscrowMovement) (ms : List EscrowMovement) :
    refunds id (m :: ms) = m.refund_of id + refunds id ms := List.sum_cons ..

/-! ### The account of one content -/

/-- The author paid one fee; it is in the rewards, the returns and the escrow. When all rewards
    are late, the escrow is not overdrawn and only the author is paid back. -/
structure Accounted (id : Nat) (c : Content) (movements : List EscrowMovement) : Prop where
  balances : ∃ fee : Asset, movements.filter (·.is_fee id) = [.fee id c.author fee] ∧
    fee.amount = rewards id movements + refunds id movements + c.publishing_fee_escrow.amount
  late : (∀ m ∈ movements, m.late id) → 0 ≤ c.publishing_fee_escrow.amount ∧
    ∀ account x, .refund id account x ∈ movements → account = c.author

theorem Accounted.congr {id : Nat} {c c' : Content} {movements : List EscrowMovement} (author : c'.author = c.author)
    (escrow : c'.publishing_fee_escrow = c.publishing_fee_escrow) (accounted : Accounted id c movements) :
    Accounted id c' movements where
  balances := by
    rw [author,escrow]
    exact accounted.balances
  late := by
    rw [author,escrow]
    exact accounted.late

/-- A movement for another content. -/
theorem Accounted.other {id : Nat} {c : Content} {m : EscrowMovement} {movements : List EscrowMovement}
    (other : m.content ≠ id) (accounted : Accounted id c movements) : Accounted id c (m :: movements) where
  balances := by
    obtain ⟨fee,paid,sum⟩ := accounted.balances
    refine ⟨fee,?_,?_⟩
    · rw [List.filter_cons_of_neg (by rw [EscrowMovement.is_fee_other other]; exact Bool.false_ne_true),paid]
    · rw [rewards_cons,refunds_cons,EscrowMovement.reward_of_other other,EscrowMovement.refund_of_other other]
      omega
  late := by
    intro late
    obtain ⟨nonneg,returned⟩ := accounted.late fun m' member => late m' (List.mem_cons_of_mem _ member)
    refine ⟨nonneg,fun account x member => ?_⟩
    rcases List.mem_cons.mp member with rfl | member
    · exact absurd rfl other
    · exact returned account x member

/-- A reward or a return, with the content after it. -/
theorem Accounted.move {id : Nat} {c c' : Content} {m : EscrowMovement} {movements : List EscrowMovement}
    (author : c'.author = c.author) (unpaid : m.is_fee id = false)
    (moved : m.reward_of id + m.refund_of id = c.publishing_fee_escrow.amount - c'.publishing_fee_escrow.amount)
    (covered : m.late id → 0 ≤ c.publishing_fee_escrow.amount → 0 ≤ c'.publishing_fee_escrow.amount)
    (returned : 0 ≤ c.publishing_fee_escrow.amount → ∀ account x, m = .refund id account x → account = c.author)
    (accounted : Accounted id c movements) : Accounted id c' (m :: movements) where
  balances := by
    obtain ⟨fee,paid,sum⟩ := accounted.balances
    refine ⟨fee,?_,?_⟩
    · rw [List.filter_cons_of_neg (by rw [unpaid]; exact Bool.false_ne_true),paid,author]
    · rw [rewards_cons,refunds_cons]
      omega
  late := by
    intro late
    obtain ⟨nonneg,before⟩ := accounted.late fun m' member => late m' (List.mem_cons_of_mem _ member)
    refine ⟨covered (late m List.mem_cons_self) nonneg,fun account x member => ?_⟩
    rw [author]
    rcases List.mem_cons.mp member with same | member
    · exact returned nonneg account x same.symm
    · exact before account x member

/-- The first entry of a new content. -/
theorem Accounted.enter {id : Nat} {c : Content} {movements : List EscrowMovement}
    (nonneg : 0 ≤ c.publishing_fee_escrow.amount) (unknown : ∀ m ∈ movements, m.content ≠ id) :
    Accounted id c (.fee id c.author c.publishing_fee_escrow :: movements) := by
  have none : movements.filter (·.is_fee id) = [] ∧ rewards id movements = 0 ∧ refunds id movements = 0 := by
    induction movements with
    | nil => exact ⟨rfl,rfl,rfl⟩
    | cons m rest ih =>
      have other := unknown m List.mem_cons_self
      obtain ⟨fees,rewarded,returned⟩ := ih fun m' member => unknown m' (List.mem_cons_of_mem _ member)
      rw [rewards_cons,refunds_cons,EscrowMovement.reward_of_other other,EscrowMovement.refund_of_other other,rewarded,returned,
        List.filter_cons_of_neg (by rw [EscrowMovement.is_fee_other other]; exact Bool.false_ne_true)]
      exact ⟨fees,rfl,rfl⟩
  refine ⟨⟨c.publishing_fee_escrow,?_,?_⟩,fun _ => ⟨nonneg,fun account x member => ?_⟩⟩
  · rw [List.filter_cons_of_pos (by exact decide_eq_true rfl),none.1]
  · rw [rewards_cons,refunds_cons,none.2.1,none.2.2]
    simp [EscrowMovement.reward_of,EscrowMovement.refund_of]
  · rcases List.mem_cons.mp member with impossible | member
    · cases impossible
    · exact absurd rfl (unknown _ member)

/-! ### The book -/

structure Booked (L : Ledger) : Prop where
  known : ∀ m ∈ L.publishing, m.content < L.contents.next
  contents : ∀ {id c}, L.contents.find? id = some c → Accounted id c L.publishing

def Booking (L L' : Ledger) : Prop := Booked L → Booked L'

theorem Booking.of_eq {L L' : Ledger} (contents : L'.contents = L.contents) (publishing : L'.publishing = L.publishing) :
    Booking L L' := by
  intro booked
  constructor
  · rw [publishing,contents]
    exact booked.known
  · rw [publishing,contents]
    exact booked.contents

instance : Composes Booking where
  refl _ := id
  trans first second := second ∘ first

theorem booking_update (L : Ledger) (id : Nat) {f : Content → Content}
    (same : ∀ c, (f c).author = c.author ∧ (f c).publishing_fee_escrow = c.publishing_fee_escrow) :
    Booking L (L.with_content id f) := by
  intro booked
  refine ⟨fun m member => ?_,fun {k c'} found => ?_⟩
  · show m.content < (L.contents.update id f).next
    rw [Index.next_update]
    exact booked.known m member
  · have found : (L.contents.update id f).find? k = some c' := found
    rw [Index.find?_update] at found
    split at found
    case isTrue here =>
      subst here
      obtain ⟨c,before,rfl⟩ := Option.map_eq_some_iff.mp found
      exact (booked.contents before).congr (same c).1 (same c).2
    case isFalse => exact booked.contents found

theorem within_booking {id : Nat} {f : Content → Content}
    (same : ∀ c, (f c).author = c.author ∧ (f c).publishing_fee_escrow = c.publishing_fee_escrow) :
    Within Booking (modify_content id f) := .modify fun L => booking_update L id same

instance : Seeding Booking where
  statistics _ _ := .of_eq rfl rfl
  seeders _ _ := .of_eq rfl rfl
  reset _ _ _ := .of_eq rfl rfl

instance : Noting Booking where
  permissions _ _ := .of_eq rfl rfl
  subscription _ _ _ _ := .of_eq rfl rfl

instance : Describing Booking where
  content L id _ incidental := booking_update L id fun c => ⟨incidental.author c,incidental.publishing_fee_escrow c⟩

instance : Logging Booking where
  applied _ _ _ := .of_eq rfl rfl

instance : Pooling Booking where
  dynamic _ _ _ := .of_eq rfl rfl

instance : Crediting Booking where
  balances _ _ := .of_eq rfl rfl
  vestings _ _ := .of_eq rfl rfl
  miners _ _ := .of_eq rfl rfl

instance : Purchasing Booking where
  buyings _ _ := .of_eq rfl rfl
  payments _ _ := .of_eq rfl rfl

instance : Rewarding Booking where
  rewards _ _ _ := .of_eq rfl rfl

instance : Enrolling Booking where
  accounts _ _ := .of_eq rfl rfl
  subscriptions _ _ := .of_eq rfl rfl

instance : Creating Booking where
  asset _ _ := .of_eq rfl rfl

instance : Scheduling Booking where
  properties _ _ := .of_eq rfl rfl
  parameters _ _ _ := .of_eq rfl rfl

instance (o : ContentCancellationOperation) : Within Booking (content_cancellation_apply o) := by
  unfold content_cancellation_apply
  exact .andThen fun _ => .andThen fun _ => within_booking fun _ => ⟨rfl,rfl⟩

/-- A movement of the escrow of a content that changes with it. -/
theorem Booked.move {L L' : Ledger} {id : Nat} {c : Content} {f : Content → Content} {m : EscrowMovement} (booked : Booked L)
    (found : L.contents.find? id = some c) (contents : L'.contents = L.contents.update id f)
    (publishing : L'.publishing = m :: L.publishing) (about : m.content = id)
    (moved : Accounted id c L.publishing → Accounted id (f c) (m :: L.publishing)) : Booked L' := by
  constructor
  · intro m' member
    rw [publishing] at member
    rw [contents,Index.next_update]
    rcases List.mem_cons.mp member with rfl | member
    · rw [about]
      exact L.contents.below _ _ found
    · exact booked.known m' member
  · intro k c' found'
    rw [contents,Index.find?_update] at found'
    rw [publishing]
    split at found'
    case isTrue here =>
      subst here
      rw [found] at found'
      cases found'
      exact moved (booked.contents found)
    case isFalse other => exact (booked.contents found').other fun same => other (same.symm.trans about)

theorem booked_submit {env : Env} {o : ContentSubmitOperation} {content : Option Nat} {L₀ L L' : Ledger}
    (valid : (Operation.content_submit o).validate = true) (evaluated : content_submit_evaluate env o L₀ = .ok content)
    (ran : EStateM.run (content_submit_apply o content) L = .ok () L') : Booking L L' := by
  cases content with
  | some id =>
    have again : Within Booking (modify_content id fun co =>
        { co with price := set_prices co.price o.price, co_authors := o.co_authors }) := within_booking fun _ => ⟨rfl,rfl⟩
    exact again.ok ran
  | none =>
    obtain ⟨now,-,ran⟩ := run_observe_bind.mp ran
    obtain ⟨_,_,created,ran⟩ := run_bind_ok.mp (run_get_bind.mp ran)
    obtain ⟨_,-,ran⟩ := run_observe_bind.mp ran
    obtain ⟨_,L₁,charged,ran⟩ := run_bind_ok.mp ran
    obtain ⟨_,L₂,noted,ran⟩ := run_bind_ok.mp ran
    obtain ⟨_,L₃,reserved,requested⟩ := run_bind_ok.mp ran
    refine Composes.trans (P := Booking) (b := L₂) ?_ (Composes.trans (Within.ok inferInstance reserved)
      (Within.ok inferInstance requested))
    cases created
    have frame := adjust_balance_frame charged
    cases noted
    intro booked
    have contents : L₁.contents = L.contents.create (new_content o now) := by rw [frame]
    have publishing : L₁.publishing = L.publishing := by rw [frame]
    simp only [Operation.validate,Bool.and_eq_true,decide_eq_true_eq] at valid
    constructor
    · intro m member
      show m.content < L₁.contents.next
      rw [contents,Index.next_create]
      rcases List.mem_cons.mp member with rfl | member
      · exact Nat.lt_succ_self _
      · rw [publishing] at member
        exact Nat.lt_succ_of_lt (booked.known m member)
    · intro k c found
      have entry : L₁.contents.find? k = some c := found
      rw [contents,Index.find?_create] at entry
      show Accounted k c (.fee _ _ _ :: L₁.publishing)
      rw [publishing]
      split at entry
      case isTrue here =>
        subst here
        cases entry
        exact Accounted.enter (c := new_content o now) valid.2 fun m member => Nat.ne_of_lt (booked.known m member)
      case isFalse other => exact (booked.contents entry).other (Ne.symm other)

theorem booked_proof {o : ProofOfCustodyOperation} {L L' : Ledger} {u : Unit}
    (ran : EStateM.run (proof_of_custody_apply o) L = .ok u L') : Booking L L' := by
  cases proof_of_custody_ok ran with
  | first id content _ _ found new parts counted =>
    exact Composes.trans (booking_update L id (f := proved_content o.seeder L.properties.time) fun _ => ⟨rfl,rfl⟩)
      (Within.ok inferInstance counted)
  | again id content reward L₁ L₂ _ _ counted found old inCore capped rewarded last =>
    have counted : Booking L L₁ := Within.ok inferInstance counted
    refine Composes.trans (P := Booking) counted fun booked => ?_
    have frame := adjust_balance_frame rewarded
    have contents : L'.contents = L₁.contents.update id
        (rewarded_content o.seeder L.properties.time ⟨content.publishing_fee_escrow.amount - reward,core⟩) := by
      rw [last,frame]
      rfl
    have publishing : L'.publishing = .reward id o.seeder ⟨reward,core⟩ L.properties.head_block_number :: L₁.publishing := by
      rw [last,frame]
      rfl
    refine booked.move found contents publishing rfl ?_
    refine Accounted.move rfl rfl ?_ ?_ ?_
    · simp only [EscrowMovement.reward_of,EscrowMovement.refund_of,rewarded_content,if_true]
      omega
    · intro late nonneg
      have bounded := capped (late rfl)
      simp only [rewarded_content]
      omega
    · exact fun _ account x impossible => nomatch impossible

theorem booked_expire {id : Nat} {content : Content} {L L' : Ledger} {u : Unit}
    (found : L.contents.find? id = some content) (ran : EStateM.run (content_expire id content) L = .ok u L') :
    Booking L L' := by
  obtain ⟨account,L₁,L₂,payee,paid,forgotten,rfl⟩ := content_expire_ok ran
  refine Composes.trans (P := Booking) (b := L₂) (Composes.trans ?_ (Within.ok inferInstance forgotten)) (.of_eq rfl rfl)
  have frame := adjust_balance_frame paid
  have contents : L₁.contents = L.contents := by rw [frame]
  have publishing : L₁.publishing = L.publishing := by rw [frame]
  intro booked
  refine booked.move (m := .refund id account content.publishing_fee_escrow) (f := emptied_content) found ?_ ?_ rfl ?_
  · show L₁.contents.update id _ = _
    rw [contents]
  · show _ :: L₁.publishing = _
    rw [publishing]
  · refine Accounted.move rfl rfl ?_ ?_ ?_
    · simp [EscrowMovement.reward_of,EscrowMovement.refund_of,emptied_content]
    · exact fun _ _ => le_rfl
    · rintro nonneg _ _ ⟨⟩
      rw [payee,if_pos nonneg]

theorem booked_expire_contents {ids : List Nat} {L L' : Ledger} {u : Unit}
    (ran : EStateM.run (expire_contents ids) L = .ok u L') : Booking L L' := by
  induction ids generalizing L with
  | nil =>
    cases ran
    exact id
  | cons id rest ih =>
    obtain ⟨content,L₁,found,ended,ran⟩ := expire_contents_cons_ok ran
    exact Composes.trans (P := Booking) (booked_expire found ended) (ih ran)

/-! ### Every run -/

theorem booking_apply_operation {env : Env} (op : Operation) : Preserves Booked (apply_operation env op) := by
  refine preserves_apply_operation (fun executed op inside L L' u booked ran => ?_) op
  obtain ⟨valid,L₁,L₂,L₃,fee,act,flow⟩ := evaluate_and_apply_ok.mp ran
  have booked₁ : Booked L₁ := (Within.ok inferInstance flow.converted : Booking L L₁) booked
  have booked₂ : Booked L₂ := (Within.ok inferInstance flow.paid : Booking L₁ L₂) booked₁
  refine (Within.ok inferInstance flow.charged : Booking L₃ L') ?_
  have evaluated := flow.evaluated
  have applied := flow.applied
  simp only [evaluate,reads_bind] at evaluated
  obtain ⟨_,-,-,-,evaluated⟩ := evaluated
  refine (?_ : Booking L₂ L₃) booked₂
  cases op <;> simp only [do_evaluate,reads_bind,reads_pure,Prod.mk.injEq] at evaluated
  case content_submit o =>
    obtain ⟨content,evaluated,-,rfl⟩ := evaluated
    exact booked_submit valid evaluated applied
  case proof_of_custody o =>
    obtain ⟨_,-,-,rfl⟩ := evaluated
    exact booked_proof applied
  case proposal_update =>
    obtain ⟨-,rfl⟩ := evaluated
    exact fun booked => inside booked applied
  case other payer paid change =>
    obtain ⟨-,rfl⟩ := evaluated
    obtain ⟨_,settled,stored⟩ := run_observe_bind.mp applied
    cases stored
    exact .of_eq (change.settled settled).contents (change.settled settled).publishing
  all_goals
    obtain ⟨_,-,-,rfl⟩ := evaluated
    exact Within.ok inferInstance applied

theorem booking_perform {action : Action} {L L' : Ledger} (ran : EStateM.run (perform action) L = .ok () L') :
    Booking L L' := by
  cases action with
  | header timestamp => exact Within.ok (x := update_head timestamp) inferInstance ran
  | operation env op => exact fun booked => booking_apply_operation op booked ran
  | signing_miner miner => exact Within.ok (x := update_signing_miner miner) inferInstance ran
  | maintenance =>
    obtain ⟨_,-,ran⟩ := run_observe_bind.mp (run_get_bind.mp ran)
    exact related_maintenance (related_housekeeping booked_expire_contents) ran
  | settings change =>
    obtain ⟨_,applied,ran⟩ := run_observe_bind.mp ran
    cases ran
    exact .of_eq (change.settled applied).contents (change.settled applied).publishing

theorem Reached.booked {g : GenesisState} {allowed : Ledger → Action → Prop} {L : Ledger} (reached : Reached g allowed L) :
    Booked L :=
  reached.invariant ⟨nofun,fun found => nomatch found⟩ fun booked _ ran => booking_perform ran booked

/-- Seeder 4 proves his part twice, the second time a day later. -/
def proved_twice : List Action :=
  let prove : Action := .operation free_env (.proof_of_custody ⟨⟨0,core⟩,4,"ipfs:seeded",none⟩)
  two_seeders ++ [.operation free_env (.content_submit seeded_submission),prove,.header 1530086400,prove]

end Decent.Money

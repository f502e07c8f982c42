import Decent.Submissions
import Mathlib.Tactic.Ring

/-!
What a proof of custody is worth before the escrow bounds it. The reward grows with the time
since the last proof, faster than in proportion, so that whoever splits the time of a proof
loses by it; and the prices that are stored are small enough for the 64 bits it is computed in.
-/
namespace Decent.Money
open Throwing

/-! ### The ratio -/

theorem total_reward_ratio_le (elapsed : Nat) : total_reward_ratio elapsed ≤ 10000 := by
  have ratio : 10000 * min elapsed day / day ≤ 10000 :=
    Nat.div_le_of_le_mul (by rw [Nat.mul_comm day]; exact Nat.mul_le_mul_left _ (Nat.min_le_right _ _))
  unfold total_reward_ratio
  generalize 10000 * min elapsed day / day = r at ratio ⊢
  refine Nat.div_le_of_le_mul ?_
  exact Nat.mul_le_mul ratio (Nat.sub_le _ _)

/-- The numerator of the ratio: the time in ten thousandths, less what it loses. -/
def weighted (r : Nat) : Nat := r * (10000 - (10000 - r) / 4)

theorem total_reward_ratio_eq (elapsed : Nat) :
    total_reward_ratio elapsed = weighted (10000 * min elapsed day / day) / 10000 := rfl

theorem weighted_mono {r s : Nat} (le : r ≤ s) : weighted r ≤ weighted s := by
  refine Nat.mul_le_mul le ?_
  omega

/-- A longer time loses less in each of its parts. -/
theorem weighted_add (r s : Nat) : weighted r + weighted s ≤ weighted (r + s) := by
  have first : r * (10000 - (10000 - r) / 4) ≤ r * (10000 - (10000 - (r + s)) / 4) := Nat.mul_le_mul_left _ (by omega)
  have second : s * (10000 - (10000 - s) / 4) ≤ s * (10000 - (10000 - (r + s)) / 4) := Nat.mul_le_mul_left _ (by omega)
  unfold weighted
  rw [Nat.add_mul]
  exact Nat.add_le_add first second

theorem total_reward_ratio_mono {d e : Nat} (le : d ≤ e) : total_reward_ratio d ≤ total_reward_ratio e := by
  rw [total_reward_ratio_eq,total_reward_ratio_eq]
  refine Nat.div_le_div_right (weighted_mono (Nat.div_le_div_right (Nat.mul_le_mul_left _ ?_)))
  omega

/-- Within a day two parts of the time are worth at most the whole. -/
theorem total_reward_ratio_add {d e : Nat} (within : d + e ≤ day) :
    total_reward_ratio d + total_reward_ratio e ≤ total_reward_ratio (d + e) := by
  simp only [total_reward_ratio_eq]
  rw [Nat.min_eq_left (by omega),Nat.min_eq_left (by omega),Nat.min_eq_left within]
  refine (Nat.div_add_div_le_add_div).trans (Nat.div_le_div_right ((weighted_add _ _).trans (weighted_mono ?_)))
  rw [Nat.mul_add]
  exact Nat.div_add_div_le_add_div

/-! ### The reward -/

/-- What a proof earns before the escrow bounds it. -/
def uncapped_reward (price : Int) (size elapsed : Nat) : Except Fault Int :=
  custody_reward price (total_reward_ratio elapsed) size

/-- What a seeder earns by proofs at these times after his last one. -/
def total_rewards (price : Int) (size : Nat) : Nat → List Nat → Except Fault Int
  | _, [] => return 0
  | last_proof, now :: rest => do
    let reward ← uncapped_reward price size (now - last_proof)
    let others ← total_rewards price size now rest
    return reward + others

/-- A price and a size for which no product of the reward leaves its width. -/
structure Payable (price : Int) (size : Nat) : Prop where
  least : 0 ≤ price
  most : price < 2^32
  size : size ≤ max_file_size

/-- The reward as a number. -/
def reward_value (price size elapsed : Nat) : Nat := price * total_reward_ratio elapsed * size / 10000

theorem uncapped_reward_eq {price size : Nat} (payable : Payable price size) (elapsed : Nat) :
    uncapped_reward price size elapsed = .ok (reward_value price size elapsed) := by
  have small : price < 2^32 := by have := payable.most; omega
  have sized : size ≤ 10000 := payable.size
  have ratio := total_reward_ratio_le elapsed
  have first : price * total_reward_ratio elapsed ≤ 2^32 * 10000 := Nat.mul_le_mul small.le ratio
  have second : price * total_reward_ratio elapsed * size ≤ 2^32 * 10000 * 10000 := Nat.mul_le_mul first sized
  unfold uncapped_reward custody_reward
  refine bind_ok.mpr ⟨_,checked_ok.mpr ⟨⟨?_,?_⟩,rfl⟩,bind_ok.mpr ⟨_,checked_ok.mpr ⟨⟨?_,?_⟩,rfl⟩,?_⟩⟩
  all_goals norm_cast
  all_goals omega

theorem reward_value_le (price size elapsed : Nat) : reward_value price size elapsed ≤ price * size := by
  refine Nat.div_le_of_le_mul ?_
  calc price * total_reward_ratio elapsed * size ≤ price * 10000 * size :=
        Nat.mul_le_mul_right _ (Nat.mul_le_mul_left _ (total_reward_ratio_le elapsed))
    _ = 10000 * (price * size) := by ring

theorem reward_value_mono (price size : Nat) {d e : Nat} (le : d ≤ e) : reward_value price size d ≤ reward_value price size e :=
  Nat.div_le_div_right (Nat.mul_le_mul_right _ (Nat.mul_le_mul_left _ (total_reward_ratio_mono le)))

theorem reward_value_add (price size : Nat) {d e : Nat} (within : d + e ≤ day) :
    reward_value price size d + reward_value price size e ≤ reward_value price size (d + e) := by
  refine Nat.div_add_div_le_add_div.trans (Nat.div_le_div_right ?_)
  rw [← Nat.add_mul,← Nat.mul_add]
  exact Nat.mul_le_mul_right _ (Nat.mul_le_mul_left _ (total_reward_ratio_add within))

/-- However the time is split, the parts earn at most what the whole earns. -/
theorem total_rewards_le {price size : Nat} (payable : Payable price size) {times : List Nat} :
    ∀ {start : Nat}, (start :: times).Pairwise (· ≤ ·) → times.getLastD start - start ≤ day → ∃ total : Nat,
      total_rewards price size start times = .ok total ∧ total ≤ reward_value price size (times.getLastD start - start) := by
  induction times with
  | nil => exact fun _ _ => ⟨0,rfl,Nat.zero_le _⟩
  | cons now rest ih =>
    intro start ordered within
    obtain ⟨first,ordered⟩ := List.pairwise_cons.mp ordered
    have here : start ≤ now := first now List.mem_cons_self
    have later : now ≤ rest.getLastD now := by
      cases rest with
      | nil => exact Nat.le_refl _
      | cons next more =>
        refine (List.pairwise_cons.mp ordered).1 _ ?_
        rw [List.getLastD_cons]
        exact List.getLastD_mem_cons ..
    rw [List.getLastD_cons] at within ⊢
    obtain ⟨total,summed,bound⟩ := ih ordered (by omega)
    refine ⟨reward_value price size (now - start) + total,?_,?_⟩
    · simp only [total_rewards,uncapped_reward_eq payable,summed]
      rfl
    · have whole := reward_value_add price size (d := now - start) (e := rest.getLastD now - now) (by omega)
      rw [show now - start + (rest.getLastD now - now) = rest.getLastD now - start by omega] at whole
      omega

/-- The prices that a proof by this seeder can be paid at: what the content noted of him, and
    before the halt of the chain what he asks. -/
def PriceOf (L : Ledger) (content : Content) (seeder : AccountId) (price : Int) : Prop :=
  content.seeder_price.find? seeder = some price ∨ ∃ so, L.seeders.find? seeder = some so ∧ so.price.amount = price

/-- The reward of a proof is the uncapped one at such a price, bounded or not. -/
theorem reward_amount_uncapped {o : ProofOfCustodyOperation} {L : Ledger} {seeder : Seeder} {content : Content}
    {elapsed : Nat} {reward : Int} (known : L.seeders.find? o.seeder = some seeder)
    (computed : proof_of_custody_apply.reward_amount o L seeder content (total_reward_ratio elapsed) = .ok reward) :
    ∃ price uncapped, PriceOf L content o.seeder price ∧ uncapped_reward price content.size elapsed = .ok uncapped ∧
      (reward = uncapped ∨ reward = max 0 content.publishing_fee_escrow.amount ∧
        content.publishing_fee_escrow.amount < uncapped) := by
  rw [proof_of_custody_apply.reward_amount] at computed
  split at computed
  · split at computed
    · cases computed
    case h_2 price noted =>
      obtain ⟨uncapped,rewarded,bounded⟩ := bind_ok.mp computed
      obtain rfl := pure_ok.mp bounded
      refine ⟨price,uncapped,.inl noted,rewarded,?_⟩
      split
      case isTrue less => exact .inr ⟨rfl,less⟩
      case isFalse => exact .inl rfl
  · exact ⟨_,_,.inr ⟨seeder,known,rfl⟩,computed,.inl rfl⟩

/-! ### Stored prices -/

/-- Every stored price and size is one that a reward can be computed from. -/
structure Priced (L : Ledger) : Prop where
  seeders : ∀ {p so}, L.seeders.find? p = some so → 0 ≤ so.price.amount ∧ so.price.amount < 2^32
  sizes : ∀ {id c}, L.contents.find? id = some c → c.size ≤ max_file_size
  noted : ∀ {id c}, L.contents.find? id = some c → ∀ {p price}, c.seeder_price.find? p = some price →
    0 ≤ price ∧ price < 2^32

theorem Priced.payable {L : Ledger} (priced : Priced L) {id : Nat} {c : Content} (found : L.contents.find? id = some c)
    {p : AccountId} {price : Int} (of : PriceOf L c p price) : Payable price c.size := by
  rcases of with noted | ⟨so,known,rfl⟩
  · exact ⟨(priced.noted found noted).1,(priced.noted found noted).2,priced.sizes found⟩
  · exact ⟨(priced.seeders known).1,(priced.seeders known).2,priced.sizes found⟩

def Pricing (L L' : Ledger) : Prop := Priced L → Priced L'

theorem Pricing.of_eq {L L' : Ledger} (contents : L'.contents = L.contents) (seeders : L'.seeders = L.seeders) :
    Pricing L L' := by
  intro priced
  refine ⟨?_,?_,?_⟩
  · rw [seeders]
    exact priced.seeders
  · rw [contents]
    exact priced.sizes
  · rw [contents]
    exact priced.noted

instance : Composes Pricing where
  refl _ := id
  trans first second := second ∘ first

/-- A content that gets no other size, and no other price but a small one. -/
theorem pricing_update (L : Ledger) (id : Nat) {f : Content → Content} (size : ∀ c, (f c).size = c.size)
    (prices : ∀ c p price, (f c).seeder_price.find? p = some price →
      c.seeder_price.find? p = some price ∨ 0 ≤ price ∧ price < 2^32) : Pricing L (L.with_content id f) := by
  intro priced
  have before {k : Nat} {c' : Content} (here : (L.with_content id f).contents.find? k = some c') :
      ∃ c, L.contents.find? k = some c ∧ (c' = f c ∨ c' = c) := by
    have here : (L.contents.update id f).find? k = some c' := here
    rw [Index.find?_update] at here
    split at here
    case isTrue same =>
      obtain ⟨c,found,rfl⟩ := Option.map_eq_some_iff.mp here
      exact ⟨c,same ▸ found,.inl rfl⟩
    case isFalse => exact ⟨c',here,.inr rfl⟩
  refine ⟨priced.seeders,?_,?_⟩
  · intro k c' here
    obtain ⟨c,found,rfl | rfl⟩ := before here
    · rw [size]
      exact priced.sizes found
    · exact priced.sizes found
  · intro k c' here p price noted
    obtain ⟨c,found,rfl | rfl⟩ := before here
    · rcases prices c p price noted with old | small
      · exact priced.noted found old
      · exact small
    · exact priced.noted found noted

instance : Listing Pricing where
  content L id _ lasting := pricing_update L id (fun c => congrArg (·.2.2.1) (lasting.submitted c)) fun c _ _ noted =>
    .inl (lasting.seeder_price c ▸ noted)
  returned _ _ := .of_eq rfl rfl

instance : Counting Pricing where
  counted _ _ _ _ := .of_eq rfl rfl

instance : Noting Pricing where
  permissions _ _ := .of_eq rfl rfl
  subscription _ _ _ _ := .of_eq rfl rfl

instance : Accounting Pricing where
  publishing _ _ := .of_eq rfl rfl

instance : Pooling Pricing where
  dynamic _ _ _ := .of_eq rfl rfl

instance : Crediting Pricing where
  balances _ _ := .of_eq rfl rfl
  vestings _ _ := .of_eq rfl rfl
  miners _ _ := .of_eq rfl rfl

instance : Purchasing Pricing where
  buyings _ _ := .of_eq rfl rfl
  payments _ _ := .of_eq rfl rfl

instance : Rewarding Pricing where
  rewards _ _ _ := .of_eq rfl rfl

instance : Enrolling Pricing where
  accounts _ _ := .of_eq rfl rfl
  subscriptions _ _ := .of_eq rfl rfl

instance : Creating Pricing where
  asset _ _ := .of_eq rfl rfl

instance : Scheduling Pricing where
  properties _ _ := .of_eq rfl rfl
  parameters _ _ _ := .of_eq rfl rfl

instance : Within Pricing reset_seeding_stats := .modify fun _ => .of_eq rfl rfl

theorem pricing_reserve_seeders {content size : Nat} {seeders : List AccountId} {L L' : Ledger} {u : Unit}
    (ran : EStateM.run (reserve_seeders content size seeders) L = .ok u L') : Pricing L L' := by
  induction seeders generalizing L with
  | nil =>
    cases ran
    exact id
  | cons p rest ih =>
    obtain ⟨so,found,ran⟩ := reserve_seeders_ok ran
    refine Composes.trans (P := Pricing) (fun priced => ?_) (ih ran)
    have small := priced.seeders found
    refine pricing_update { L with seeders := L.seeders.put p _ } content (fun _ => rfl) (fun c q price noted => ?_)
      ⟨fun {q sq} here => ?_,priced.sizes,priced.noted⟩
    · rw [insert_new] at noted
      split at noted
      · exact .inl noted
      · rw [Table.find?_put] at noted
        split at noted
        case isTrue => cases noted; exact .inr small
        case isFalse => exact .inl noted
    · have here : (L.seeders.put p _).find? q = some sq := here
      rw [Table.find?_put] at here
      split at here
      · cases here
        exact small
      · exact priced.seeders here

theorem pricing_submit {o : ContentSubmitOperation} {content : Option Nat} {L L' : Ledger}
    (valid : (Operation.content_submit o).validate = true)
    (ran : EStateM.run (content_submit_apply o content) L = .ok () L') : Pricing L L' := by
  cases content with
  | some id =>
    cases ran
    exact pricing_update L id (fun _ => rfl) fun _ _ _ noted => .inl noted
  | none =>
    obtain ⟨now,-,ran⟩ := run_observe_bind.mp ran
    obtain ⟨_,_,created,ran⟩ := run_bind_ok.mp (run_get_bind.mp ran)
    obtain ⟨_,-,ran⟩ := run_observe_bind.mp ran
    obtain ⟨_,L₁,charged,ran⟩ := run_bind_ok.mp ran
    obtain ⟨_,L₂,noted,ran⟩ := run_bind_ok.mp ran
    obtain ⟨_,L₃,reserved,requested⟩ := run_bind_ok.mp ran
    refine Composes.trans (P := Pricing) ?_ (Composes.trans (Within.ok inferInstance charged) (Composes.trans
      (Within.ok inferInstance noted) (Composes.trans (pricing_reserve_seeders reserved)
        (Within.ok inferInstance requested))))
    cases created
    intro priced
    have sized : o.size ≤ max_file_size := by
      simp only [Operation.validate,Bool.and_eq_true,decide_eq_true_eq] at valid
      exact valid.1.1.1.2
    refine ⟨priced.seeders,?_,?_⟩
    all_goals
      intro k c found
      have found : (L.contents.create (new_content o now)).find? k = some c := found
      rw [Index.find?_create] at found
      split at found
    · cases found
      exact sized
    · exact priced.sizes found
    · cases found
      intro p price held
      cases held
    · exact fun _ _ held => priced.noted found held

theorem pricing_publish (o : ReadyToPublishOperation) (L : Ledger) : Pricing L (ready_to_publish_apply o L) := by
  intro priced
  have small : (0 : Int) ≤ o.price_per_MByte.toNat ∧ (o.price_per_MByte.toNat : Int) < 2^32 := by
    have := o.price_per_MByte.toNat_lt
    omega
  have offered {so : Seeder} (price : so.price.amount = o.price_per_MByte.toNat) {p : AccountId} {sp : Seeder}
      (here : (L.seeders.put o.seeder so).find? p = some sp) : 0 ≤ sp.price.amount ∧ sp.price.amount < 2^32 := by
    rw [Table.find?_put] at here
    split at here
    · cases here
      rw [price]
      exact small
    · exact priced.seeders here
  unfold ready_to_publish_apply
  dsimp only
  split <;> exact ⟨offered rfl,priced.sizes,priced.noted⟩

theorem pricing_writes {o : SettingsOperation} {L L' : Ledger} (writes : Writes L o L') : Pricing L L' := by
  cases writes with
  | ready_to_publish o => exact pricing_publish o L
  | ready_to_publish2 o => exact pricing_publish o L
  | _ => exact .of_eq rfl rfl

theorem pricing_settled {change : SettingsChange} {L L' : Ledger}
    (from_source : (∃ o : SettingsOperation, change = o.change) ∨ Aloof change) (applied : change.do_apply L = .ok L') :
    Pricing L L' := by
  rcases from_source with ⟨o,rfl⟩ | aloof
  · exact pricing_writes (do_apply_writes applied)
  · exact .of_eq (change.settled applied).contents (aloof L L' applied).2.1

theorem pricing_perform {action : Action} {L L' : Ledger} (source : source_step L action)
    (ran : EStateM.run (perform action) L = .ok () L') : Pricing L L' := by
  refine related_perform (fun _ _ => True) ?_ ?_ ?_ source ran
  · intro env executed op L L₂ L₃ x fee act source _ valid prepared evaluated applied inside
    cases op <;> simp only [do_evaluate,reads_bind,reads_pure,Prod.mk.injEq] at evaluated
    case content_submit o =>
      obtain ⟨content,-,-,rfl⟩ := evaluated
      exact pricing_submit valid applied
    case proposal_update =>
      obtain ⟨-,rfl⟩ := evaluated
      exact inside applied
    case other payer paid change =>
      obtain ⟨-,rfl⟩ := evaluated
      obtain ⟨_,settled,stored⟩ := run_observe_bind.mp applied
      cases stored
      exact pricing_settled source settled
    all_goals
      obtain ⟨_,-,-,rfl⟩ := evaluated
      exact Within.ok inferInstance applied
  · rintro change L L' (rfl | aloof) applied
    · cases applied
      exact .of_eq rfl rfl
    · exact pricing_settled (.inr aloof) applied
  · intro _ ran
    exact Within.ok (x := perform_chain_maintenance) inferInstance ran

theorem priced_genesis (g : GenesisState) : Priced (init_genesis g) where
  seeders here := nomatch here
  sizes found := nomatch found
  noted found := nomatch found

theorem Reached.priced {g : GenesisState} {L : Ledger} (reached : Reached g source_step L) : Priced L :=
  reached.invariant (priced_genesis g) fun priced source ran => pricing_perform source ran priced

/-- The reward for any time lies between nothing and the price of a day, it grows with the time,
    and proofs at any times within a day after the last one earn together at most what a single
    proof at the end of it does. -/
theorem split_proofs_do_not_pay (g : GenesisState) (L : Ledger) (reached : Reached g source_step L) (id : Nat) (c : Content)
    (found : L.contents.find? id = some c) (seeder : AccountId) (price : Int) (of : PriceOf L c seeder price) :
    (∀ elapsed, ∃ reward, uncapped_reward price c.size elapsed = .ok reward ∧ 0 ≤ reward ∧ reward ≤ price * c.size) ∧
      (∀ d e reward longer, d ≤ e → uncapped_reward price c.size d = .ok reward →
        uncapped_reward price c.size e = .ok longer → reward ≤ longer) ∧
      ∀ (start : Nat) (times : List Nat), (start :: times).Pairwise (· ≤ ·) → times.getLastD start - start ≤ day →
        ∃ total whole, total_rewards price c.size start times = .ok total ∧
          uncapped_reward price c.size (times.getLastD start - start) = .ok whole ∧ total ≤ whole := by
  have payable := reached.priced.payable found of
  obtain ⟨p,rfl⟩ := Int.eq_ofNat_of_zero_le payable.least
  have value := uncapped_reward_eq payable
  refine ⟨fun elapsed => ⟨_,value elapsed,?_,?_⟩,?_,?_⟩
  · exact Int.natCast_nonneg _
  · exact_mod_cast reward_value_le p c.size elapsed
  · intro d e reward longer le first second
    rw [value] at first second
    cases first
    cases second
    exact_mod_cast reward_value_mono p c.size le
  · intro start times ordered within
    obtain ⟨total,summed,bound⟩ := total_rewards_le payable ordered within
    exact ⟨total,_,summed,value _,by exact_mod_cast bound⟩

def seeded_content : List Action := two_seeders ++ [submit seeded_submission]

theorem seeded_content_of_source : seeded_content.Forall of_source :=
  List.forall_append.mpr ⟨two_seeders_of_source,trivial⟩

/-- Two proofs twelve hours apart, for a price of one. -/
theorem split_proofs_twice_a_day : ∃ c, (after_actions seeded_content).contents.find? 0 = some c ∧
    ∃ total whole, total_rewards 1 c.size 0 [43200,86400] = .ok total ∧ uncapped_reward 1 c.size 86400 = .ok whole ∧
      total ≤ whole := by
  have read : ((after_actions seeded_content).contents.find? 0).map (·.seeder_price.find? 4) = some (some 1) := by
    decide +kernel
  obtain ⟨c,found,price⟩ := Option.map_eq_some_iff.mp read
  have reached : Reached small_genesis source_step (after_actions seeded_content) :=
    reached_after_actions seeded_content_of_source (by decide +kernel)
  exact ⟨c,found,(split_proofs_do_not_pay small_genesis _ reached 0 c found 4 1 (.inl price)).2.2 0 [43200,86400]
    (by decide) (by decide)⟩

end Decent.Money

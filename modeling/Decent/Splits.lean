import Decent.Submissions

/-!
The tables by which co-authors share what is paid for a content. They are checked when they are
submitted, by a sum in 32 bits, and read by the payout and by a transfer to the content, which
multiply in 64 bits. When neither wraps every co-author gets his part rounded down and the
author the rest.
-/
namespace Decent.Money
open Throwing

/-! ### Accepted tables -/

/-- The sum of the splits as a number. -/
def total_of_splits (co_authors : Table AccountId Nat) : Nat := (co_authors.rows.map Prod.snd).sum

/-- The splits leave nothing when the author is among them, and something when he is not. -/
def SharedOut (author : AccountId) (co_authors : Table AccountId Nat) : Prop :=
  if (co_authors.find? author).isSome then total_of_splits co_authors = 10000 else total_of_splits co_authors < 10000

instance (author : AccountId) (co_authors : Table AccountId Nat) : Decidable (SharedOut author co_authors) :=
  inferInstanceAs (Decidable (if (co_authors.find? author).isSome then total_of_splits co_authors = 10000
    else total_of_splits co_authors < 10000))

/-- What the evaluator found of the wrapped sum. -/
theorem content_submit_evaluate_splits {env : Env} {o : ContentSubmitOperation} {L : Ledger} {content : Option Nat}
    (evaluated : content_submit_evaluate env o L = .ok content) :
    if (o.co_authors.find? o.author).isSome then sum_of_splits o.co_authors = 10000
    else sum_of_splits o.co_authors < 10000 := by
  by_cases alone : o.co_authors.rows = []
  · have unshared : o.co_authors.find? o.author = none := by rw [Table.find?,alone,Table.findRow]
    simp [sum_of_splits,alone,unshared]
  · exact (content_submit_evaluate_submittable evaluated).splits fun none => alone (List.length_eq_zero_iff.mp none)

theorem Accepted.splits {o : ContentSubmitOperation} (accepted : Accepted o) :
    o.co_authors.rows.length ≤ 10 ∧ (total_of_splits o.co_authors < 2^32 → total_of_splits o.co_authors ≤ 10000) := by
  obtain ⟨valid,-⟩ := accepted
  simp only [Operation.validate,Bool.and_eq_true,decide_eq_true_eq] at valid
  obtain ⟨⟨⟨⟨⟨⟨⟨⟨⟨-,few⟩,within⟩,-⟩,-⟩,-⟩,-⟩,-⟩,-⟩,-⟩ := valid
  refine ⟨few,fun small => ?_⟩
  rwa [sum_of_splits,← total_of_splits,Nat.mod_eq_of_lt small] at within

/-- An accepted table is shared out exactly when its sum did not wrap. -/
theorem accepted_splits_shared_out (o : ContentSubmitOperation) (accepted : Accepted o) :
    SharedOut o.author o.co_authors ↔ total_of_splits o.co_authors < 2^32 := by
  obtain ⟨-,env,L,content,evaluated⟩ := accepted
  have summed := content_submit_evaluate_splits evaluated
  have wrapped : sum_of_splits o.co_authors = total_of_splits o.co_authors % 2^32 := rfl
  rw [wrapped] at summed
  unfold SharedOut
  split at summed
  case isTrue among =>
    rw [if_pos among]
    omega
  case isFalse apart =>
    rw [if_neg apart]
    omega

def shared_submission (co_authors : Table AccountId Nat) : ContentSubmitOperation := { seeded_submission with co_authors }

/-- Two co-authors whose splits make 2^32. -/
def wrapping_splits : Table AccountId Nat := (Table.empty.put 0 (2^31)).put 5 (2^31)

/-- And one who is given nearly everything. -/
def large_split : Table AccountId Nat := Table.empty.put 5 9999

theorem accepted_after_seeders {o : ContentSubmitOperation} (valid : (Operation.content_submit o).validate = true)
    (evaluated : (content_submit_evaluate free_env o (after_actions two_seeders)).toOption = some none) : Accepted o := by
  refine ⟨valid,free_env,after_actions two_seeders,none,?_⟩
  cases ran : content_submit_evaluate free_env o (after_actions two_seeders) with
  | error e =>
    rw [ran] at evaluated
    cases evaluated
  | ok content =>
    rw [ran] at evaluated
    cases evaluated
    rfl

theorem wrapping_splits_accepted : ¬ ∀ o, Accepted o → SharedOut o.author o.co_authors := by
  intro always
  have accepted : Accepted (shared_submission wrapping_splits) := accepted_after_seeders (by decide) (by decide +kernel)
  exact absurd (always _ accepted) (by decide)

theorem large_split_shared_out : total_of_splits large_split < 2^32 ∧ SharedOut 4 large_split :=
  ⟨by decide,(accepted_splits_shared_out (shared_submission large_split)
    (accepted_after_seeders (by decide) (by decide +kernel))).mpr (by decide)⟩

/-! ### Payouts -/

/-- Every co-author's part of an amount, rounded down. -/
def cuts (amount : Asset) (rows : List (AccountId × Nat)) : List (AccountId × Asset) :=
  rows.map fun row => (row.1,⟨amount.amount * row.2 / 10000,amount.asset_id⟩)

/-- What some credits come to. -/
def credit_sum (credits : List (AccountId × Asset)) : Int := (credits.map (·.2.amount)).sum

/-- The credits that a payment for a content is to make: to the author alone, or to the
    co-authors and what is left to the author. -/
def split_credits (content : Content) (amount : Asset) : List (AccountId × Asset) :=
  if content.co_authors.rows.length = 0 then
    [(content.author,amount)]
  else
    let shared := cuts amount content.co_authors.rows
    let left := amount.amount - credit_sum shared
    if left ≠ 0 then shared ++ [(content.author,⟨left,amount.asset_id⟩)] else shared

/-- Make some credits, one after the other. -/
def pay_all (pay : AccountId → Asset → M Unit) : List (AccountId × Asset) → M Unit
  | [] => pure ()
  | (account,amount) :: rest => do
    pay account amount
    pay_all pay rest

/-- A payment for the content is split without a product that wraps, into credits that are not
    negative and come to the amount, and both copies of the loop make these credits. -/
structure SplitExactly (content : Content) (amount : Asset) : Prop where
  products : ∀ row ∈ content.co_authors.rows, product64 amount.amount row.2 = amount.amount * row.2
  nonneg : ∀ credit ∈ split_credits content amount, 0 ≤ credit.2.amount
  total : credit_sum (split_credits content amount) = amount.amount
  paid_out : ∀ buying, content_payout buying amount content =
    pay_all (pay_escrow buying false content.authors) (split_credits content amount)
  transferred : ∀ (o : Transfer2Operation) (L : Ledger) (id : Nat), o.target = .content id → o.amount = amount →
    L.contents.find? id = some content → EStateM.run (transfer2_apply o) L = EStateM.run (do
      adjust_balance o.from_account (← observe o.amount.negate)
      pay_all adjust_balance (split_credits content amount)) L

/-- When nothing is paid, or the sum of the splits and the products stay in their widths. -/
def Splittable (content : Content) (amount : Int) : Prop :=
  amount = 0 ∨ total_of_splits content.co_authors < 2^32 ∧ ∀ row ∈ content.co_authors.rows, amount * row.2 < 2^63

theorem observe_ok {α : Type} {a : α} {r : Reads α} (read : ∀ L, r L = .ok a) : observe r = pure a := by
  funext L
  exact run_observe_ok (read L)

theorem pay_all_append (pay : AccountId → Asset → M Unit) (first second : List (AccountId × Asset)) :
    pay_all pay (first ++ second) = (do pay_all pay first; pay_all pay second) := by
  induction first with
  | nil => rfl
  | cons credit rest ih =>
    obtain ⟨account,amount⟩ := credit
    simp only [List.cons_append,pay_all,ih,bind_assoc]

/-- The loop makes the co-authors' credits when its products are exact and never more is given
    than there is. -/
theorem pay_co_authors_shares (pay : AccountId → Asset → M Unit) {amount : Asset} {rows : List (AccountId × Nat)}
    (least : 0 ≤ amount.amount) (products : ∀ row ∈ rows, product64 amount.amount row.2 = amount.amount * row.2) :
    ∀ remaining : Int, remaining < 2^63 → credit_sum (cuts amount rows) ≤ remaining →
      pay_co_authors pay amount rows remaining =
        (do pay_all pay (cuts amount rows); return remaining - credit_sum (cuts amount rows)) := by
  induction rows with
  | nil =>
    intro remaining _ _
    simp only [pay_co_authors,cuts,List.map_nil,pay_all,credit_sum,List.sum_nil,Int.sub_zero,pure_bind]
  | cons row rest ih =>
    intro remaining fits room
    obtain ⟨co_author,basis_points⟩ := row
    have product := products _ List.mem_cons_self
    have nonneg : 0 ≤ amount.amount * basis_points := Int.mul_nonneg least (Int.natCast_nonneg _)
    have rounded : (product64 amount.amount basis_points).tdiv 10000 = amount.amount * basis_points / 10000 := by
      rw [product,Int.tdiv_eq_ediv_of_nonneg nonneg]
    have part : 0 ≤ amount.amount * basis_points / 10000 := Int.ediv_nonneg nonneg (by decide)
    have others : 0 ≤ credit_sum (cuts amount rest) := by
      refine List.sum_nonneg fun x member => ?_
      simp only [cuts,List.map_map,List.mem_map,Function.comp_apply] at member
      obtain ⟨other,-,rfl⟩ := member
      exact Int.ediv_nonneg (Int.mul_nonneg least (Int.natCast_nonneg _)) (by decide)
    simp only [cuts,List.map_cons,credit_sum,List.sum_cons] at room others
    have left : checked (remaining - amount.amount * basis_points / 10000) =
        .ok (remaining - amount.amount * basis_points / 10000) := checked_ok.mpr ⟨⟨by omega,by omega⟩,rfl⟩
    have kept : observe (checked (remaining - amount.amount * basis_points / 10000) : Reads Int) =
        pure (remaining - amount.amount * basis_points / 10000) := observe_ok fun _ => left
    have after := ih (fun row member => products row (List.mem_cons_of_mem _ member))
      (remaining - amount.amount * basis_points / 10000) (by omega) (by simp only [cuts,credit_sum]; omega)
    simp only [pay_co_authors,rounded,kept,pure_bind,after]
    simp only [cuts,List.map_cons,pay_all,credit_sum,List.sum_cons,bind_assoc,Int.sub_sub]

/-- The parts are at most what the splits come to, and short of it by less than one each. -/
theorem credited_shares_bounds (amount : Asset) (rows : List (AccountId × Nat)) :
    10000 * credit_sum (cuts amount rows) ≤ amount.amount * ((rows.map Prod.snd).sum : Nat) ∧
      amount.amount * ((rows.map Prod.snd).sum : Nat) ≤ 10000 * credit_sum (cuts amount rows) + 10000 * rows.length := by
  induction rows with
  | nil => simp [cuts,credit_sum]
  | cons row rest ih =>
    simp only [cuts,credit_sum,List.map_cons,List.sum_cons,List.length_cons] at ih ⊢
    have apart : amount.amount * ((row.2 + (rest.map Prod.snd).sum : Nat) : Int) =
        amount.amount * row.2 + amount.amount * ((rest.map Prod.snd).sum : Nat) := by
      push_cast
      exact Int.mul_add _ _ _
    omega

/-- After the shares the author is credited what is left, if anything is. -/
theorem pay_author_left (pay : AccountId → Asset → M Unit) (author : AccountId) {amount : Asset}
    {rows : List (AccountId × Nat)} (room : credit_sum (cuts amount rows) ≤ amount.amount) :
    (do
      pay_all pay (cuts amount rows)
      pay_author pay author ⟨amount.amount - credit_sum (cuts amount rows),amount.asset_id⟩) =
      pay_all pay (if amount.amount - credit_sum (cuts amount rows) ≠ 0 then
        cuts amount rows ++ [(author,⟨amount.amount - credit_sum (cuts amount rows),amount.asset_id⟩)]
      else cuts amount rows) := by
  unfold pay_author
  dsimp only
  split
  case isTrue some =>
    have positive : fc_assert (0 < amount.amount - credit_sum (cuts amount rows)) = .ok () := if_pos (by omega)
    have asserted : observe (fc_assert (0 < amount.amount - credit_sum (cuts amount rows)) : Reads Unit) = pure () :=
      observe_ok fun _ => positive
    rw [pay_all_append,asserted]
    simp only [pure_bind,pay_all,bind_pure_unit]
  case isFalse => simp only [bind_pure_unit]

theorem credited_nonneg {amount : Asset} (least : 0 ≤ amount.amount) (rows : List (AccountId × Nat)) :
    ∀ credit ∈ cuts amount rows, 0 ≤ credit.2.amount := by
  intro credit member
  obtain ⟨row,-,rfl⟩ := List.mem_map.mp member
  exact Int.ediv_nonneg (Int.mul_nonneg least (Int.natCast_nonneg _)) (by decide)

theorem adjust_balance_zero {account : AccountId} {x : Asset} (zero : x.amount = 0) :
    adjust_balance account x = pure () := by
  unfold adjust_balance
  rw [if_pos zero]

theorem SplitExactly.of_products {content : Content} {amount : Asset} (least : 0 ≤ amount.amount)
    (fits : amount.amount < 2^63)
    (products : ∀ row ∈ content.co_authors.rows, product64 amount.amount row.2 = amount.amount * row.2)
    (room : credit_sum (cuts amount content.co_authors.rows) ≤ amount.amount) : SplitExactly content amount := by
  have loop (pay : AccountId → Asset → M Unit) := pay_co_authors_shares pay least products amount.amount fits room
  refine ⟨products,?_,?_,?_,?_⟩
  · intro credit member
    unfold split_credits at member
    dsimp only at member
    split at member
    · rw [List.mem_singleton.mp member]
      exact least
    · split at member
      · rcases List.mem_append.mp member with shared | last
        · exact credited_nonneg least _ credit shared
        · rw [List.mem_singleton.mp last]
          exact Int.sub_nonneg_of_le room
      · exact credited_nonneg least _ credit member
  · unfold split_credits
    dsimp only
    split
    · simp [credit_sum]
    · split
      · simp [credit_sum]
      case isFalse nothing => omega
  · intro buying
    unfold content_payout split_credits
    dsimp only
    split
    · simp only [pay_all,bind_pure_unit]
    · rw [loop,bind_assoc]
      simp only [pure_bind]
      exact pay_author_left _ _ room
  · intro o L id aimed paid found
    unfold transfer2_apply
    rw [EStateM.run_bind,EStateM.run_bind]
    cases negated : EStateM.run (observe o.amount.negate) L with
    | error e L₁ => rfl
    | ok debit L₁ =>
      obtain ⟨-,rfl⟩ := run_observe.mp negated
      dsimp only
      rw [EStateM.run_bind,EStateM.run_bind]
      cases debited : EStateM.run (adjust_balance o.from_account debit) L with
      | error e L₂ => rfl
      | ok _ L₂ =>
        have found₂ : L₂.contents.find? id = some content := by
          rw [adjust_balance_frame debited]
          exact found
        dsimp only
        rw [aimed]
        dsimp only
        rw [EStateM.run_bind,EStateM.run_get]
        dsimp only
        rw [found₂]
        dsimp only
        rw [paid,loop,bind_assoc]
        simp only [pure_bind]
        rw [pay_author_left adjust_balance content.author room]
        unfold split_credits
        by_cases alone : content.co_authors.rows.length = 0
        · rw [if_pos alone,List.length_eq_zero_iff.mp alone]
          simp only [cuts,List.map_nil,credit_sum,List.sum_nil,Int.sub_zero,List.nil_append]
          split
          · rfl
          case isFalse nothing =>
            have zero : amount.amount = 0 := Classical.not_not.mp nothing
            simp only [pay_all,adjust_balance_zero zero,pure_bind]
        · rw [if_neg alone]

/-- A product fits exactly when it is what is computed. -/
theorem product64_eq {amount : Int} {basis_points : Nat} (least : 0 ≤ amount) :
    product64 amount basis_points = amount * basis_points ↔ amount * basis_points < 2^63 := by
  have nonneg : 0 ≤ amount * basis_points := Int.mul_nonneg least (Int.natCast_nonneg _)
  unfold product64
  constructor
  · intro same
    have bound := Int.bmod_lt (x := amount * basis_points) (show 0 < 2^64 by decide)
    omega
  · intro small
    exact Int.bmod_eq_of_le_mul_two (by omega) (by omega)

/-- What the table leaves of any amount, when its sum did not wrap. -/
theorem credited_shares_le {amount : Asset} {co_authors : Table AccountId Nat} (least : 0 ≤ amount.amount)
    (within : total_of_splits co_authors ≤ 10000) : credit_sum (cuts amount co_authors.rows) ≤ amount.amount := by
  have bound := (credited_shares_bounds amount co_authors.rows).1
  have whole : amount.amount * (total_of_splits co_authors : Int) ≤ amount.amount * 10000 :=
    Int.mul_le_mul_of_nonneg_left (by omega) least
  unfold total_of_splits at whole
  omega

/-- A wrapped table promises more than there is. -/
theorem credited_shares_excess {amount : Asset} {co_authors : Table AccountId Nat} (positive : 0 < amount.amount)
    (few : co_authors.rows.length ≤ 10) (wrapped : 2^32 ≤ total_of_splits co_authors) :
    amount.amount < credit_sum (cuts amount co_authors.rows) := by
  have bound := (credited_shares_bounds amount co_authors.rows).2
  have whole : amount.amount * 2^32 ≤ amount.amount * (total_of_splits co_authors : Int) :=
    Int.mul_le_mul_of_nonneg_left (by omega) (Int.le_of_lt positive)
  unfold total_of_splits at whole
  omega

theorem SplitExactly.room {content : Content} {amount : Asset} (exact : SplitExactly content amount)
    (least : 0 ≤ amount.amount) : credit_sum (cuts amount content.co_authors.rows) ≤ amount.amount := by
  by_cases alone : content.co_authors.rows.length = 0
  · rw [List.length_eq_zero_iff.mp alone]
    exact least
  · by_cases some : amount.amount - credit_sum (cuts amount content.co_authors.rows) ≠ 0
    · have last := exact.nonneg (content.author,⟨amount.amount - credit_sum (cuts amount content.co_authors.rows),
        amount.asset_id⟩) (by simp only [split_credits,if_neg alone,if_pos some,List.mem_append,List.mem_singleton,or_true])
      exact Int.le_of_sub_nonneg last
    · omega

/-- The payments for a content of any run are split exactly in these cases. -/
theorem payment_split_exactly (g : GenesisState) (L : Ledger) (reached : Reachable g L) (id : Nat) (content : Content)
    (found : L.contents.find? id = some content) (amount : Asset) (least : 0 ≤ amount.amount)
    (most : amount.amount ≤ max_share_supply) : SplitExactly content amount ↔ Splittable content amount.amount := by
  obtain ⟨os,recorded⟩ := reached.recorded
  obtain ⟨earlier,last,parts,-,-,shared⟩ := (recorded.history.written found).submitted
  have accepted : Accepted last := by
    refine recorded.history.accepted last (List.mem_of_mem_filter (p := fun o => decide (o.URI = content.URI)) ?_)
    show last ∈ submitted_as content.URI os
    rw [parts]
    exact List.mem_append_right _ (List.mem_singleton_self _)
  obtain ⟨few,within⟩ := accepted.splits
  rw [← shared] at few within
  have fits : amount.amount < 2^63 := by
    have : max_share_supply < 2^63 := by decide
    omega
  constructor
  · intro exact
    by_cases zero : amount.amount = 0
    · exact .inl zero
    · refine .inr ⟨?_,fun row member => (product64_eq least).mp (exact.products row member)⟩
      by_contra wrapped
      have excess : amount.amount < credit_sum (cuts amount content.co_authors.rows) :=
        credited_shares_excess (by omega) few (by omega)
      exact absurd (exact.room least) (by omega)
  · rintro (zero | ⟨small,products⟩)
    · refine .of_products least fits (fun row _ => ?_) ?_
      · rw [product64_eq least,zero,Int.zero_mul]
        decide
      · have none := (credited_shares_bounds amount content.co_authors.rows).1
        rw [zero,Int.zero_mul] at none
        omega
    · exact .of_products least fits (fun row member => (product64_eq least).mpr (products row member))
        (credited_shares_le least (within small))

def shared_content : List Action := two_seeders ++ [submit (shared_submission large_split)]

theorem shared_content_stored : ∃ content, (after_actions shared_content).contents.find? 0 = some content ∧
    content.co_authors = large_split := by
  have read : ((after_actions shared_content).contents.find? 0).map (·.co_authors.rows) = some large_split.rows := by
    decide +kernel
  obtain ⟨content,found,rows⟩ := Option.map_eq_some_iff.mp read
  refine ⟨content,found,?_⟩
  cases stored : content.co_authors
  rw [stored] at rows
  cases rows
  rfl

/-- A large payment wraps where it is multiplied. -/
theorem large_payment_wraps : ¬ ∀ g L, Reachable g L → ∀ id content, L.contents.find? id = some content →
    ∀ amount : Asset, 0 ≤ amount.amount → amount.amount ≤ max_share_supply → SplitExactly content amount := by
  intro always
  obtain ⟨content,found,splits⟩ := shared_content_stored
  have reachable : Reachable small_genesis (after_actions shared_content) := reachable_after_actions (by decide +kernel)
  have product := (always _ _ reachable 0 content found ⟨10^15,core⟩ (by decide) (by decide)).products (5,9999)
    (by rw [splits]; decide)
  exact absurd product (by decide)

theorem small_payment_split : ∃ content, (after_actions shared_content).contents.find? 0 = some content ∧
    SplitExactly content ⟨10000,core⟩ := by
  obtain ⟨content,found,splits⟩ := shared_content_stored
  refine ⟨content,found,?_⟩
  refine (payment_split_exactly small_genesis _ (reachable_after_actions (by decide +kernel)) 0 content found ⟨10000,core⟩
    (by decide) (by decide)).mpr (.inr ?_)
  rw [splits]
  exact ⟨by decide,by decide⟩

end Decent.Money

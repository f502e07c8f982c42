import Decent.Renewal

/-!
The loop over the subscriptions that renew automatically. A renewal leaves the element in
its place; switching one off moves it behind all the others, unless no renewal comes after
it, and the iterator goes with it.
-/
namespace Decent.Money
open Throwing

/-! ### Where a changed element goes -/

/-- A renewal stays where it was. -/
theorem place_renewing {before after : List Subscription} {s t : Subscription}
    (sorted : RenewalsFirst (before ++ s :: after)) (renewing : s.automatic_renewal = true)
    (still : t.automatic_renewal = true) : place before t after = before ++ t :: after := by
  refine if_pos ?_
  rw [in_place,still,Bool.and_eq_true]
  constructor
  · cases last : before.getLast? with
    | none => rfl
    | some p =>
      have first := (List.pairwise_append.mp sorted).2.2 p (List.mem_of_getLast? last) s List.mem_cons_self renewing
      simp [first]
  · cases after.head? <;> simp

theorem upper_insert_off {s : Subscription} (off : s.automatic_renewal = false) (order : List Subscription) :
    upper_insert s order = order ++ [s] := by
  induction order with
  | nil => rfl
  | cons t rest ih => rw [upper_insert,off,Bool.false_and,if_neg Bool.false_ne_true,ih,List.cons_append]

/-- An element that is switched off behind the last renewal stays too. -/
theorem place_off_last {before after : List Subscription} {s : Subscription} (off : s.automatic_renewal = false)
    (none : ∀ t ∈ after, t.automatic_renewal = false) : place before s after = before ++ s :: after := by
  refine if_pos ?_
  rw [in_place,off,Bool.and_eq_true]
  constructor
  · cases before.getLast? <;> simp
  · cases after with
    | nil => rfl
    | cons n more => simp [none n List.mem_cons_self]

/-- One that is switched off before other renewals moves to the end. -/
theorem place_off_relinked {before after : List Subscription} {n s : Subscription} (off : s.automatic_renewal = false)
    (renewing : n.automatic_renewal = true) : place before s (n :: after) = before ++ (n :: after) ++ [s] := by
  have moved : ¬ in_place before s.automatic_renewal (n :: after) = true := by simp [in_place,off,renewing]
  rw [place,if_neg moved,upper_insert_off off]

theorem successor_eq {t : Subscriptions} {before after : List Subscription} {s : Subscription}
    (split : t.order = before ++ s :: after) : successor t.order s.id = after.head?.map (·.id) := by
  have distinct := t.distinct
  rw [split,List.map_append,List.map_cons] at distinct
  have skip : ∀ u ∈ before, decide (u.id ≠ s.id) = true := by
    intro u member
    refine decide_eq_true fun same => ?_
    exact (List.nodup_append.mp distinct).2.2 u.id (List.mem_map_of_mem member) s.id List.mem_cons_self same
  rw [successor,split,List.dropWhile_append_of_pos skip]
  simp

/-! ### One step of the loop -/

/-- Virtual operations about a subscription. -/
def about (id : Nat) : VirtualOperation → Bool
  | .renewal_of_subscription _ i => i = id
  | .disallow_automatic_renewal_of_subscription _ i => i = id
  | _ => false

/-- What one due subscription at a known place has come to, as the loop sees it. -/
inductive SettledAt (L : Ledger) (before : List Subscription) (s : Subscription) (after : List Subscription)
    (author : Account) (L' : Ledger) : Prop
  | renewed (price : Asset) (pays : covered L s author.options price)
      (ran : EStateM.run (renew_subscription s author.options.subscription_period price) L = .ok () L')
      (order : L'.subscriptions.order = before ++
        { s with expiration := later s.expiration (period_in_secs author.options.subscription_period) } :: after)
      (others : ∀ id, id ≠ s.id → L'.subscriptions.find? id = L.subscriptions.find? id)
      (accounts : L'.accounts = L.accounts)
      (applied : L'.applied = .renewal_of_subscription s.from_account s.id :: L.applied)
  | disabled (s' : Subscription) (same : s'.id = s.id) (off : s'.automatic_renewal = false)
      (order : L'.subscriptions.order = place before s' after)
      (others : ∀ id, id ≠ s.id → L'.subscriptions.find? id = L.subscriptions.find? id)
      (accounts : L'.accounts = L.accounts)
      (applied : L'.applied = .disallow_automatic_renewal_of_subscription s.from_account s.id :: L.applied)

theorem order_extended {L : Ledger} {before after : List Subscription} {s : Subscription} (period : Nat)
    (split : L.subscriptions.order = before ++ s :: after) (renewing : s.automatic_renewal = true) :
    (extended L s period).subscriptions.order =
      before ++ { s with expiration := later s.expiration (period_in_secs period) } :: after := by
  rw [extended,Subscriptions.order_modify split]
  refine place_renewing (s := s) ?_ renewing renewing
  rw [← split]
  exact L.subscriptions.sorted

theorem settled_at {L L' : Ledger} {before after : List Subscription} {s : Subscription} {u : Unit}
    (split : L.subscriptions.order = before ++ s :: after) (renewing : s.automatic_renewal = true)
    (ran : EStateM.run (settle_renewal s) L = .ok u L') :
    ∃ author, L.accounts.find? s.to_account = some author ∧ SettledAt L before s after author L' := by
  obtain ⟨author,found,outcome⟩ := settle_renewal_ok ran
  refine ⟨author,found,?_⟩
  cases outcome with
  | renewed price pays ran =>
    obtain ⟨-,frame⟩ := renew_subscription_ok ran
    refine .renewed price pays ran ?_ ?_ ?_ ?_
    · rw [frame]; exact order_extended _ split renewing
    · rw [frame]; exact fun id apart => Subscriptions.find?_modify_other _ _ apart
    · rw [frame]; rfl
    · rw [frame]
  | refused none off =>
    cases off
    exact .disabled { s with automatic_renewal := false } rfl rfl (Subscriptions.order_modify split _)
      (fun id apart => Subscriptions.find?_modify_other _ _ apart) rfl rfl
  | failed price pays L₁ threw off =>
    obtain ⟨-,-,frame⟩ := renew_subscription_assert pays.2 threw
    have split' := order_extended author.options.subscription_period split renewing
    cases off
    refine .disabled { s with
      expiration := later s.expiration (period_in_secs author.options.subscription_period)
      automatic_renewal := false } rfl rfl ?_ ?_ ?_ ?_
    · rw [frame]
      exact Subscriptions.order_modify split' _
    · rw [frame]
      exact fun id apart =>
        (Subscriptions.find?_modify_other _ _ apart).trans (Subscriptions.find?_modify_other _ _ apart)
    · rw [frame]; rfl
    · rw [frame]; rfl

/-! ### Who can pay -/

/-- What a renewal costs, or the exception that the price ends in. -/
def renewal_price (L : Ledger) (s : Subscription) : Except Fault Asset :=
  match L.accounts.find? s.to_account with
  | none => .error .end_iterator
  | some author =>
    match L.assets.find? author.options.price_per_subscribe.asset_id with
    | none => .error .assert_exception
    | some ao => subscription_price author.options.price_per_subscribe ao

/-- Balances with the price gone over from the subscriber to the author. -/
def moved (b : AccountId → AssetId → Int) (s : Subscription) (price : Asset) (owner : AccountId) (a : AssetId) : Int :=
  b owner a - (if owner = s.from_account then price.part a else 0) + if owner = s.to_account then price.part a else 0

/-- No amount on the way leaves 64 bits. -/
def fitting (b : AccountId → AssetId → Int) (s : Subscription) (price : Asset) : Prop :=
  Fits (-price.amount) ∧ b s.from_account price.asset_id - price.amount < 2^63 ∧
    moved b s price s.to_account price.asset_id < 2^63

/-- The subscriber has the price, and the author has it where it is negative. -/
def payable (b : AccountId → AssetId → Int) (s : Subscription) (price : Asset) : Prop :=
  price.amount ≤ b s.from_account price.asset_id ∧ fitting b s price ∧
    0 ≤ moved b s price s.to_account price.asset_id

/-- A renewal that is covered returns, or fails an assertion at a negative price, or overflows. -/
theorem run_renew_subscription {L : Ledger} {s : Subscription} (period : Nat) {price : Asset}
    (enough : price.amount ≤ L.balance s.from_account price.asset_id) :
    (fitting L.balance s price ∧ 0 ≤ moved L.balance s price s.to_account price.asset_id ∧
      ∃ L', EStateM.run (renew_subscription s period price) L = .ok () L') ∨
    (fitting L.balance s price ∧ moved L.balance s price s.to_account price.asset_id < 0 ∧
      ∃ L', EStateM.run (renew_subscription s period price) L = .error .assert_exception L') ∨
    (¬ fitting L.balance s price ∧
      ∃ L', EStateM.run (renew_subscription s period price) L = .error .overflow_exception L') := by
  have held := L.balance_range s.from_account price.asset_id
  rw [renew_subscription,EStateM.run_bind,
    show EStateM.run (modify_subscription s.id _) L = .ok () (extended L s period) from rfl]
  simp only [EStateM.run_bind]
  by_cases fits : Fits (-price.amount)
  swap
  · have overflows : price.negate = .error .overflow_exception := by
      simp only [Asset.negate,checked,if_neg fits]
      rfl
    rw [run_observe_error (show _ = Except.error Fault.overflow_exception from overflows)]
    exact .inr (.inr ⟨fun all => fits all.1,_,rfl⟩)
  have negated : price.negate = .ok ⟨-price.amount,price.asset_id⟩ := Asset.negate_ok.mpr ⟨fits,rfl⟩
  rw [run_observe_ok (show _ = Except.ok _ from negated)]
  dsimp only
  have low : -(-price.amount) < 2^63 := by omega
  cases taken : EStateM.run (adjust_balance s.from_account ⟨-price.amount,price.asset_id⟩) (extended L s period) with
  | error e L₁ =>
    obtain ⟨-,uncovered | ⟨rfl,large⟩⟩ := adjust_balance_error (x := ⟨-price.amount,price.asset_id⟩) low taken
    · change _ ∧ L.balance s.from_account price.asset_id + -price.amount < 0 at uncovered
      omega
    · change 2^63 ≤ L.balance s.from_account price.asset_id + -price.amount at large
      exact .inr (.inr ⟨fun all => by have := all.2.1; omega,_,rfl⟩)
  | ok u L₁ =>
    dsimp only
    have afterwards : L₁.balance s.to_account price.asset_id + price.amount =
        moved L.balance s price s.to_account price.asset_id := by
      rw [balance_adjust_balance taken]
      show L.balance _ _ + _ + _ = _
      by_cases same : s.to_account = s.from_account
      · simp only [moved,same,Asset.part,if_true]
        omega
      · simp only [moved,same,Asset.part,if_true,if_false]
        omega
    have author := L₁.balance_range s.from_account price.asset_id
    have credited : L₁.balance s.from_account price.asset_id =
        L.balance s.from_account price.asset_id - price.amount := by
      rw [balance_adjust_balance taken]
      simp only [Asset.part,if_true]
      rfl
    cases given : EStateM.run (adjust_balance s.to_account price) L₁ with
    | ok u L₂ =>
      have result := L₂.balance_range s.to_account price.asset_id
      rw [balance_adjust_balance given] at result
      simp only [Asset.part,if_true] at result
      exact .inl ⟨⟨fits,by omega,by omega⟩,by omega,_,rfl⟩
    | error e L₂ =>
      obtain ⟨-,⟨rfl,short⟩ | ⟨rfl,large⟩⟩ := adjust_balance_error fits.2 given
      · exact .inr (.inl ⟨⟨fits,by omega,by omega⟩,by omega,_,rfl⟩)
      · exact .inr (.inr ⟨fun all => by have := all.2.2; omega,_,rfl⟩)

/-- Settling ends in no other exception than a failed assertion. -/
def settles (price : Subscription → Except Fault Asset) (b : AccountId → AssetId → Int) (s : Subscription) : Prop :=
  match price s with
  | .ok p => p.amount ≤ b s.from_account p.asset_id → fitting b s p
  | .error e => e = .assert_exception

theorem renewal_price_ok {L : Ledger} {s : Subscription} {author : Account} {price : Asset}
    (found : L.accounts.find? s.to_account = some author) :
    renewal_price L s = .ok price ↔ due_price L author.options price := by
  rw [renewal_price,found,due_price]
  dsimp only
  cases L.assets.find? author.options.price_per_subscribe.asset_id with
  | none => simp
  | some ao => simp

theorem renewed_of_payable {L : Ledger} {s : Subscription} {price : Asset} (known : renewal_price L s = .ok price)
    (pays : payable L.balance s price) : ∃ author L', L.accounts.find? s.to_account = some author ∧
      EStateM.run (renew_subscription s author.options.subscription_period price) L = .ok () L' ∧
      EStateM.run (settle_renewal s) L = .ok () L' := by
  cases found : L.accounts.find? s.to_account with
  | none =>
    rw [renewal_price,found] at known
    cases known
  | some author =>
    have priced := (renewal_price_ok found).mp known
    rcases run_renew_subscription author.options.subscription_period pays.1 with
      ⟨-,-,L',ran⟩ | ⟨-,short,-⟩ | ⟨large,-⟩
    · exact ⟨author,L',rfl,ran,settle_renewal_of_ok found ⟨priced,pays.1⟩ ran⟩
    · exact absurd pays.2.2 (by omega)
    · exact absurd pays.2.1 large

theorem payable_of_renewed {L L' : Ledger} {s : Subscription} {author : Account} {price : Asset}
    (pays : covered L s author.options price)
    (ran : EStateM.run (renew_subscription s author.options.subscription_period price) L = .ok () L') :
    payable L.balance s price := by
  rcases run_renew_subscription author.options.subscription_period pays.2 with
    ⟨fits,covered,-⟩ | ⟨-,-,_,threw⟩ | ⟨-,_,threw⟩
  · exact ⟨pays.2,fits,covered⟩
  · rw [ran] at threw; cases threw
  · rw [ran] at threw; cases threw

theorem settle_renewal_returns_iff (L : Ledger) (s : Subscription) :
    (∃ L', EStateM.run (settle_renewal s) L = .ok () L') ↔ settles (renewal_price L) L.balance s := by
  rw [settle_renewal,EStateM.run_bind,EStateM.run_get]
  dsimp only
  unfold settles renewal_price
  cases found : L.accounts.find? s.to_account with
  | none => simp
  | some author =>
    dsimp only
    rw [run_tryCatch,run_try_renewal]
    cases priceAsset : L.assets.find? author.options.price_per_subscribe.asset_id with
    | none => simpa using ⟨_,run_disallow_renewal L s⟩
    | some ao =>
      dsimp only
      cases priced : subscription_price author.options.price_per_subscribe ao with
      | error e =>
        dsimp only
        by_cases assertion : e = .assert_exception
        · simpa [assertion] using ⟨_,run_disallow_renewal L s⟩
        · simp [assertion]
      | ok price =>
        dsimp only
        by_cases enough : price.amount ≤ L.balance s.from_account price.asset_id
        · rw [if_pos enough]
          rcases run_renew_subscription author.options.subscription_period enough with
            ⟨fits,-,L',ran⟩ | ⟨fits,-,L',threw⟩ | ⟨large,L',threw⟩
          · rw [ran]
            simp [enough,fits]
          · rw [threw]
            simpa [enough,fits] using ⟨_,run_disallow_renewal L' s⟩
          · rw [threw]
            simp [enough,large]
        · rw [if_neg enough]
          simp [enough]

/-! ### The loop -/

/-- Due for renewal before the maintenance after this one. -/
def due (t : Nat) (s : Subscription) : Bool := s.automatic_renewal && decide (s.expiration ≤ t)

theorem found_at {L : Ledger} {before rest : List Subscription} {s : Subscription}
    (order : L.subscriptions.order = before ++ s :: rest) : L.subscriptions.find? s.id = some s :=
  (Subscriptions.find?_iff _ _ _).mpr ⟨by rw [order]; exact List.mem_append_right _ List.mem_cons_self,rfl⟩

/-- What the loop does where it stands. -/
theorem run_renewals_cons (t fuel : Nat) {L : Ledger} {before rest : List Subscription} {s : Subscription}
    (split : L.subscriptions.order = before ++ s :: rest) :
    EStateM.run (renewals t (fuel + 1) (some s.id)) L =
      if s.automatic_renewal then
        if s.expiration ≤ t then
          match EStateM.run (settle_renewal s) L with
          | .ok _ L₁ => EStateM.run (renewals t fuel (successor L₁.subscriptions.order s.id)) L₁
          | .error e L₁ => .error e L₁
        else EStateM.run (renewals t fuel (rest.head?.map (·.id))) L
      else .ok () L := by
  have found := found_at split
  rw [renewals,EStateM.run_bind,EStateM.run_get]
  dsimp only
  rw [found]
  dsimp only
  by_cases renewing : s.automatic_renewal = true
  · rw [if_pos renewing,if_pos renewing]
    by_cases inTime : s.expiration ≤ t
    · rw [if_pos inTime,if_pos inTime,EStateM.run_bind]
      cases EStateM.run (settle_renewal s) L <;> rfl
    · rw [if_neg inTime,if_neg inTime,← successor_eq split]
      rfl
  · rw [if_neg renewing,if_neg renewing]
    rfl

theorem off_of_head_off {before rest : List Subscription} {s : Subscription} (sorted : RenewalsFirst (before ++ s :: rest))
    (off : s.automatic_renewal = false) : ∀ u ∈ rest, u.automatic_renewal = false := by
  intro u member
  have tail := (List.pairwise_append.mp sorted).2.1
  cases renewing : u.automatic_renewal with
  | false => rfl
  | true => exact ((List.pairwise_cons.mp tail).1 u member renewing).symm.trans off

/-- Where nothing is due, the loop changes nothing. -/
theorem run_renewals_none_due (t : Nat) {L : Ledger} (todo : List Subscription) :
    ∀ (fuel : Nat) (before : List Subscription), L.subscriptions.order = before ++ todo →
      (∀ s ∈ todo, due t s = false) → EStateM.run (renewals t fuel (todo.head?.map (·.id))) L = .ok () L := by
  induction todo with
  | nil => intro fuel before _ _; cases fuel <;> rfl
  | cons s rest ih =>
    intro fuel before split none
    cases fuel with
    | zero => rfl
    | succ fuel =>
      show EStateM.run (renewals t (fuel + 1) (some s.id)) L = _
      rw [run_renewals_cons t fuel split]
      split
      case isFalse => rfl
      case isTrue renewing =>
        have notDue : ¬ s.expiration ≤ t := by simpa [due,renewing] using none s List.mem_cons_self
        rw [if_neg notDue]
        exact ih fuel (before ++ [s]) (by rw [split,List.append_assoc]; rfl)
          (fun u member => none u (List.mem_cons_of_mem _ member))

/-- Behind an element that was switched off the loop finds nothing more to do: it stands at the
    end, or before elements that are off as well. -/
theorem run_renewals_disabled (t fuel : Nat) {L L₁ : Ledger} {before rest : List Subscription} {s s' : Subscription}
    (split : L.subscriptions.order = before ++ s :: rest) (same : s'.id = s.id) (off : s'.automatic_renewal = false)
    (order : L₁.subscriptions.order = place before s' rest) :
    EStateM.run (renewals t fuel (successor L₁.subscriptions.order s.id)) L₁ = .ok () L₁ := by
  have sorted := L.subscriptions.sorted
  rw [split] at sorted
  by_cases more : ∃ n more, rest = n :: more ∧ n.automatic_renewal = true
  · obtain ⟨n,more,rfl,renewing⟩ := more
    rw [place_off_relinked off renewing] at order
    rw [← same,successor_eq order]
    cases fuel <;> rfl
  · have none : ∀ u ∈ rest, u.automatic_renewal = false := by
      cases rest with
      | nil => simp
      | cons n others =>
        have headOff : n.automatic_renewal = false := by
          cases renewing : n.automatic_renewal with
          | false => rfl
          | true => exact absurd ⟨n,others,rfl,renewing⟩ more
        intro u member
        rcases List.mem_cons.mp member with rfl | inside
        · exact headOff
        · exact @off_of_head_off (before ++ [s]) _ _ (by simpa using sorted) headOff u inside
    rw [place_off_last off none] at order
    rw [← same,successor_eq order]
    refine run_renewals_none_due t rest fuel (before ++ [s']) (by rw [order,List.append_assoc]; rfl) ?_
    intro u member
    simp [due,none u member]

/-- What the loop leaves alone: subscriptions it has already passed. -/
theorem renewals_passed (t : Nat) {id : Nat} (todo : List Subscription) :
    ∀ {fuel : Nat} {before : List Subscription} {L L' : Ledger}, L.subscriptions.order = before ++ todo →
      (∀ s ∈ todo, s.id ≠ id) → EStateM.run (renewals t fuel (todo.head?.map (·.id))) L = .ok () L' →
      L'.subscriptions.find? id = L.subscriptions.find? id ∧
        L'.applied.countP (about id) = L.applied.countP (about id) := by
  induction todo with
  | nil =>
    intro fuel before L L' _ _ ran
    cases fuel <;> cases ran <;> exact ⟨rfl,rfl⟩
  | cons s rest ih =>
    intro fuel before L L' split apart ran
    have others : ∀ u ∈ rest, u.id ≠ id := fun u member => apart u (List.mem_cons_of_mem _ member)
    have here : id ≠ s.id := (apart s List.mem_cons_self).symm
    have next : ∀ s' : Subscription, (before ++ [s']) ++ rest = before ++ s' :: rest := by simp
    cases fuel with
    | zero =>
      cases ran
      exact ⟨rfl,rfl⟩
    | succ fuel =>
      change EStateM.run (renewals t (fuel + 1) (some s.id)) L = _ at ran
      rw [run_renewals_cons t fuel split] at ran
      split at ran
      case isFalse =>
        cases ran
        exact ⟨rfl,rfl⟩
      case isTrue renewing =>
        split at ran
        case isFalse => exact ih (split.trans (next s).symm) others ran
        case isTrue inTime =>
          cases settled : EStateM.run (settle_renewal s) L with
          | error e L₁ =>
            rw [settled] at ran
            cases ran
          | ok u L₁ =>
            rw [settled] at ran
            dsimp only at ran
            obtain ⟨author,-,outcome⟩ := settled_at split renewing settled
            cases outcome with
            | renewed price pays done order same accounts applied =>
              rw [successor_eq (s := { s with expiration := _ }) order] at ran
              obtain ⟨found,counted⟩ := ih (order.trans (next _).symm) others ran
              refine ⟨found.trans (same id here),counted.trans ?_⟩
              rw [applied,List.countP_cons_of_neg (by simpa [about] using here.symm)]
            | disabled s' equal off order same accounts applied =>
              rw [run_renewals_disabled t fuel split equal off order] at ran
              cases ran
              refine ⟨same id here,?_⟩
              rw [applied,List.countP_cons_of_neg (by simpa [about] using here.symm)]

/-- The pass has done with the subscription once: it is switched off, or longer by the period of
    its author. -/
def Handled (L L' : Ledger) (s : Subscription) : Prop :=
  L'.applied.countP (about s.id) = L.applied.countP (about s.id) + 1 ∧
  ∃ s', L'.subscriptions.find? s.id = some s' ∧ (s'.automatic_renewal = false ∨
    ∃ author, L.accounts.find? s.to_account = some author ∧
      s' = { s with expiration := later s.expiration (period_in_secs author.options.subscription_period) })

/-- Each subscription that is due and has another one behind it can be paid for when its turn
    comes, from the balances at the start and the renewals before it; the last one
    overflows nothing. -/
def PaidInTurn (price : Subscription → Except Fault Asset) (t : Nat) :
    (AccountId → AssetId → Int) → List Subscription → Prop
  | _, [] => True
  | b, s :: rest =>
    if due t s then
      if rest.any (due t) then ∃ p, price s = .ok p ∧ payable b s p ∧ PaidInTurn price t (moved b s p) rest
      else settles price b s
    else PaidInTurn price t b rest

theorem paid_in_turn_of_none_due {price : Subscription → Except Fault Asset} {t : Nat} {todo : List Subscription} :
    ∀ {b}, (∀ s ∈ todo, due t s = false) → PaidInTurn price t b todo := by
  induction todo with
  | nil => exact fun _ => trivial
  | cons s rest ih =>
    intro b none
    rw [PaidInTurn,none s List.mem_cons_self,if_neg Bool.false_ne_true]
    exact ih fun u member => none u (List.mem_cons_of_mem _ member)

section
variable {t : Nat} {L L₁ L' : Ledger} {before rest : List Subscription} {s u : Subscription} {author : Account}

/-- Elsewhere in the index a settled subscription counts for nothing. -/
theorem SettledAt.count (outcome : SettledAt L before s rest author L₁) (id : Nat) :
    L₁.applied.countP (about id) = L.applied.countP (about id) + if id = s.id then 1 else 0 := by
  have counted : ∀ v : VirtualOperation, (about id v = true ↔ id = s.id) → L₁.applied = v :: L.applied →
      L₁.applied.countP (about id) = L.applied.countP (about id) + if id = s.id then 1 else 0 := by
    intro v here applied
    rw [applied,List.countP_cons]
    by_cases same : id = s.id
    · rw [if_pos same,if_pos (here.mpr same)]
    · rw [if_neg same,if_neg (mt here.mp same)]
  cases outcome with
  | renewed _ _ _ _ _ _ applied => exact counted _ (by simp [about,eq_comm]) applied
  | disabled _ _ _ _ _ _ applied => exact counted _ (by simp [about,eq_comm]) applied

theorem handled_later (outcome : SettledAt L before s rest author L₁) (apart : u.id ≠ s.id)
    (accounts : L₁.accounts = L.accounts) : Handled L L' u ↔ Handled L₁ L' u := by
  rw [Handled,Handled,outcome.count,if_neg apart,accounts,Nat.add_zero]

/-- One that is switched off leaves every other one as it was. -/
theorem not_handled_of_disabled (outcome : SettledAt L before s rest author L₁) (apart : u.id ≠ s.id) :
    ¬ Handled L L₁ u := by
  rintro ⟨counted,-⟩
  rw [outcome.count,if_neg apart] at counted
  omega

theorem apart_of_split (split : L.subscriptions.order = before ++ s :: rest) : ∀ u ∈ rest, u.id ≠ s.id := by
  have distinct := L.subscriptions.distinct
  rw [split,List.map_append,List.map_cons] at distinct
  intro u member same
  exact (List.nodup_cons.mp (List.nodup_append.mp distinct).2.1).1 (same ▸ List.mem_map_of_mem member)

theorem found_placed {s' : Subscription} (order : L.subscriptions.order = place before s' rest) (same : s'.id = s.id) :
    L.subscriptions.find? s.id = some s' := by
  refine (Subscriptions.find?_iff _ _ _).mpr ⟨?_,same⟩
  rw [order,(place_perm _ _ _).mem_iff]
  exact List.mem_append_right _ List.mem_cons_self

theorem renewal_price_renewed {period : Nat} {price : Asset}
    (ran : EStateM.run (renew_subscription s period price) L = .ok () L₁) : renewal_price L₁ = renewal_price L := by
  obtain ⟨-,frame⟩ := renew_subscription_ok ran
  rw [frame]
  rfl

theorem balance_renewed {period : Nat} {price : Asset}
    (ran : EStateM.run (renew_subscription s period price) L = .ok () L₁) : L₁.balance = moved L.balance s price :=
  funext fun owner => funext fun a => (renew_subscription_ok ran).1 owner a

/-- The turn of one that is renewed. -/
theorem paid_in_turn_renewed {price : Asset} (isDue : due t s = true) (known : renewal_price L s = .ok price)
    (pays : payable L.balance s price)
    (ran : EStateM.run (renew_subscription s author.options.subscription_period price) L = .ok () L₁) :
    PaidInTurn (renewal_price L) t L.balance (s :: rest) ↔ PaidInTurn (renewal_price L₁) t L₁.balance rest := by
  rw [renewal_price_renewed ran,balance_renewed ran,PaidInTurn,if_pos isDue]
  cases more : rest.any (due t) with
  | true =>
    rw [if_pos rfl]
    constructor
    · rintro ⟨p,known',-,paid⟩
      cases known.symm.trans known'
      exact paid
    · exact fun paid => ⟨price,known,pays,paid⟩
  | false =>
    rw [if_neg Bool.false_ne_true]
    have none : ∀ u ∈ rest, due t u = false := by simpa using more
    refine ⟨fun _ => paid_in_turn_of_none_due none,fun _ => ?_⟩
    rw [settles,known]
    exact fun _ => pays.2.1

end

theorem renewals_handle_iff (t : Nat) (todo : List Subscription) :
    ∀ {fuel : Nat} {before : List Subscription} {L : Ledger}, L.subscriptions.order = before ++ todo →
      todo.length ≤ fuel →
      ((∃ L', EStateM.run (renewals t fuel (todo.head?.map (·.id))) L = .ok () L' ∧
        ∀ s ∈ todo, due t s = true → Handled L L' s) ↔ PaidInTurn (renewal_price L) t L.balance todo) := by
  induction todo with
  | nil =>
    intro fuel before L _ _
    refine ⟨fun _ => trivial,fun _ => ⟨L,?_,by simp⟩⟩
    cases fuel <;> rfl
  | cons s rest ih =>
    intro fuel before L split long
    have next : ∀ s' : Subscription, (before ++ [s']) ++ rest = before ++ s' :: rest := by simp
    have apart := apart_of_split split
    obtain ⟨fuel,rfl⟩ : ∃ n, fuel = n + 1 := ⟨fuel - 1,by simp only [List.length_cons] at long; omega⟩
    have short : rest.length ≤ fuel := by simpa using long
    change (∃ L', EStateM.run (renewals t (fuel + 1) (some s.id)) L = .ok () L' ∧ _) ↔ _
    rw [run_renewals_cons t fuel split]
    cases renewing : s.automatic_renewal with
    | false =>
      -- The loop stops here, and nothing behind is due.
      have off : ∀ u ∈ s :: rest, due t u = false := by
        intro u member
        rcases List.mem_cons.mp member with rfl | inside
        · rw [due,renewing,Bool.false_and]
        · rw [due,off_of_head_off (split ▸ L.subscriptions.sorted) renewing u inside,Bool.false_and]
      rw [if_neg Bool.false_ne_true]
      refine ⟨fun _ => paid_in_turn_of_none_due off,fun _ => ⟨L,rfl,?_⟩⟩
      intro u member isDue
      rw [off u member] at isDue
      cases isDue
    | true =>
      rw [if_pos rfl]
      by_cases inTime : s.expiration ≤ t
      swap
      · have notDue : due t s = false := by rw [due,decide_eq_false inTime,Bool.and_false]
        rw [if_neg inTime,PaidInTurn,notDue,if_neg Bool.false_ne_true,← ih (split.trans (next s).symm) short]
        simp [notDue]
      have isDue : due t s = true := by rw [due,renewing,decide_eq_true inTime]; rfl
      rw [if_pos inTime]
      cases settled : EStateM.run (settle_renewal s) L with
      | error e L₁ =>
        have notSettles : ¬ settles (renewal_price L) L.balance s := by
          rw [← settle_renewal_returns_iff,settled]
          simp
        refine ⟨?_,fun paid => absurd ?_ notSettles⟩
        · rintro ⟨_,ran,_⟩
          cases ran
        rw [PaidInTurn,if_pos isDue] at paid
        split at paid
        case isTrue =>
          obtain ⟨p,known,pays,-⟩ := paid
          rw [settles,known]
          exact fun _ => pays.2.1
        case isFalse => exact paid
      | ok _ L₁ =>
        dsimp only
        obtain ⟨author,found,outcome⟩ := settled_at split renewing settled
        have here := outcome.count s.id
        rw [if_pos rfl] at here
        cases shape : outcome with
        | renewed price pays done order same accounts applied =>
          have known := (renewal_price_ok found).mpr pays.1
          rw [successor_eq (s := { s with expiration := _ }) order,
            paid_in_turn_renewed isDue known (payable_of_renewed pays done) done,
            ← ih (order.trans (next _).symm) short]
          refine exists_congr fun L' => and_congr_right fun ran => ?_
          obtain ⟨kept,counted⟩ := renewals_passed t rest (order.trans (next _).symm) apart ran
          have handled : Handled L L' s := by
            refine ⟨counted.trans here,_,kept.trans ?_,.inr ⟨author,found,rfl⟩⟩
            exact found_at (s := { s with expiration := _ }) order
          constructor
          · intro all u member isDue
            exact (handled_later outcome (apart u member) accounts).mp (all u (List.mem_cons_of_mem _ member) isDue)
          · intro all u member isDue
            rcases List.mem_cons.mp member with rfl | inside
            · exact handled
            · exact (handled_later outcome (apart u inside) accounts).mpr (all u inside isDue)
        | disabled s' equal off order same accounts applied =>
          rw [run_renewals_disabled t fuel split equal off order]
          have handled : Handled L L₁ s := ⟨here,s',found_placed order equal,.inl off⟩
          rw [PaidInTurn,if_pos isDue]
          cases more : rest.any (due t) with
          | true =>
            -- The next one that is due is skipped.
            obtain ⟨u,member,dueNext⟩ := List.any_eq_true.mp more
            rw [if_pos rfl]
            constructor
            · rintro ⟨L',ran,all⟩
              cases ran
              exact absurd (all u (List.mem_cons_of_mem _ member) dueNext) (not_handled_of_disabled outcome (apart u member))
            · rintro ⟨p,known,pays,-⟩
              obtain ⟨_,L₂,-,done,again⟩ := renewed_of_payable known pays
              cases settled.symm.trans again
              have instead := congrArg Ledger.applied (renew_subscription_ok done).2
              rw [applied] at instead
              cases instead
          | false =>
            have none : ∀ u ∈ rest, due t u = false := by simpa using more
            rw [if_neg Bool.false_ne_true]
            refine ⟨fun _ => (settle_renewal_returns_iff L s).mp ⟨L₁,settled⟩,fun _ => ⟨L₁,rfl,?_⟩⟩
            intro u member isDue
            rcases List.mem_cons.mp member with rfl | inside
            · exact handled
            · rw [none u inside] at isDue
              cases isDue

/-- Whatever the ledger, the pass does with every subscription that is due, and once with each,
    exactly when they can be paid for in turn. -/
theorem renew_subscriptions_complete_iff (L : Ledger) (next_maintenance_time : Nat) :
    (∃ L', EStateM.run (renew_subscriptions next_maintenance_time) L = .ok () L' ∧
      ∀ s ∈ L.subscriptions.order, due next_maintenance_time s = true → Handled L L' s) ↔
    PaidInTurn (renewal_price L) next_maintenance_time L.balance L.subscriptions.order := by
  rw [renew_subscriptions,EStateM.run_bind,EStateM.run_get]
  exact renewals_handle_iff next_maintenance_time L.subscriptions.order (List.nil_append _).symm (Nat.le_refl _)

/-- Account 5 has spent what it had, its renewal is switched off and moves behind the one of
    account 6, which could pay and is passed over. -/
theorem second_renewal_skipped : ∃ L L', Reachable small_genesis L ∧ EStateM.run decent_housekeeping L = .ok () L' ∧
    ∃ s ∈ L.subscriptions.order, due (next_time L.properties L.parameters.maintenance_interval) s = true ∧
      ¬ Handled L L' s ∧ L'.subscriptions.find? s.id = some s := by
  refine ⟨after_actions two_renewals,_,reachable_after_actions (by decide +kernel),run_of_returned (by decide +kernel),
    ⟨1,6,4,1530086405,true⟩,by decide +kernel,by decide +kernel,?_,by decide +kernel⟩
  rintro ⟨counted,-⟩
  exact absurd counted (by decide +kernel)

end Decent.Money

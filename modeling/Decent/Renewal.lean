import Decent.Run

/-!
The automatic renewals of a maintenance. One subscription that is due is renewed, or
refused because its price is not covered, or the attempt throws between two changes and
what was changed stays. The loop walks the index `by_renewal` and changes the key of the
element it stands on.
-/
namespace Decent.Money
open Throwing

/-! ### One subscription -/

/-- The ledger with the subscription extended by the period. -/
def extended (L : Ledger) (s : Subscription) (subscription_period : Nat) : Ledger :=
  { L with subscriptions := L.subscriptions.modify s.id fun so =>
      { so with expiration := later so.expiration (period_in_secs subscription_period) } }

/-- The ledger with the renewal switched off, as `disallow_renewal` leaves it. -/
def disallowed (L : Ledger) (s : Subscription) : Ledger :=
  { L with
    subscriptions := L.subscriptions.modify s.id fun so => { so with automatic_renewal := false }
    applied := .disallow_automatic_renewal_of_subscription s.from_account s.id :: L.applied }

theorem run_disallow_renewal (L : Ledger) (s : Subscription) :
    EStateM.run (disallow_renewal s) L = .ok () (disallowed L s) := rfl

/-- What a renewal that returned has done: the subscription is extended, the price taken from
    the subscriber and given to the author. -/
theorem renew_subscription_ok {L L' : Ledger} {s : Subscription} {period : Nat} {price : Asset} {u : Unit}
    (ran : EStateM.run (renew_subscription s period price) L = .ok u L') :
    (∀ owner a, L'.balance owner a = L.balance owner a - (if owner = s.from_account then price.part a else 0) +
      if owner = s.to_account then price.part a else 0) ∧
    L' = { extended L s period with
      balances := L'.balances
      applied := .renewal_of_subscription s.from_account s.id :: L.applied } := by
  simp only [renew_subscription,run_bind_ok,run_observe,reads_lift,Asset.negate_ok] at ran
  obtain ⟨_,_,extend,_,_,⟨⟨_,rfl⟩,rfl⟩,_,L₁,taken,_,L₂,given,pushed⟩ := ran
  cases extend
  cases pushed
  constructor
  · intro owner a
    show L₂.balance owner a = _
    rw [balance_adjust_balance given,balance_adjust_balance taken]
    show L.balance owner a + _ + _ = _
    by_cases here : owner = s.from_account
    · simp only [here,if_true,Asset.part]
      split <;> omega
    · simp only [here,if_false]
      omega
  · rw [adjust_balance_frame given,adjust_balance_frame taken]
    rfl

/-- A renewal that failed an assertion has credited the subscriber with a negative price that the
    author does not have. -/
theorem renew_subscription_credited {L L' : Ledger} {s : Subscription} {period : Nat} {price : Asset}
    (covered : price.amount ≤ L.balance s.from_account price.asset_id)
    (ran : EStateM.run (renew_subscription s period price) L = .error .assert_exception L') :
    price.amount < 0 ∧
      EStateM.run (adjust_balance s.from_account ⟨-price.amount,price.asset_id⟩) (extended L s period) = .ok () L' := by
  have held := L.balance_range s.from_account price.asset_id
  rw [renew_subscription,EStateM.run_bind,
    show EStateM.run (modify_subscription s.id _) L = .ok () (extended L s period) from rfl] at ran
  simp only [EStateM.run_bind] at ran
  by_cases fits : Fits (-price.amount)
  swap
  · have overflows : price.negate = .error .overflow_exception := by
      simp only [Asset.negate,checked,if_neg fits]
      rfl
    rw [run_observe_error (show _ = Except.error Fault.overflow_exception from overflows)] at ran
    cases ran
  have negated : price.negate = .ok ⟨-price.amount,price.asset_id⟩ := Asset.negate_ok.mpr ⟨fits,rfl⟩
  rw [run_observe_ok (show _ = Except.ok _ from negated)] at ran
  dsimp only at ran
  have low : -(-price.amount) < 2^63 := by omega
  cases taken : EStateM.run (adjust_balance s.from_account ⟨-price.amount,price.asset_id⟩) (extended L s period) with
  | error e L₁ =>
    rw [taken] at ran
    obtain ⟨-,uncovered | overflowing⟩ := adjust_balance_error (x := ⟨-price.amount,price.asset_id⟩) low taken
    · change _ ∧ L.balance s.from_account price.asset_id + -price.amount < 0 at uncovered
      omega
    · rw [overflowing.1] at ran
      cases ran
  | ok u L₁ =>
    rw [taken] at ran
    dsimp only at ran
    cases given : EStateM.run (adjust_balance s.to_account price) L₁ with
    | ok u L₂ =>
      rw [given] at ran
      cases ran
    | error e L₂ =>
      rw [given] at ran
      cases ran
      obtain ⟨rfl,uncovered | overflowing⟩ := adjust_balance_error fits.2 given
      · have author := L'.balance_range s.to_account price.asset_id
        exact ⟨by omega,rfl⟩
      · cases overflowing.1

theorem renew_subscription_assert {L L' : Ledger} {s : Subscription} {period : Nat} {price : Asset}
    (covered : price.amount ≤ L.balance s.from_account price.asset_id)
    (ran : EStateM.run (renew_subscription s period price) L = .error .assert_exception L') :
    price.amount < 0 ∧ (∀ owner a, L'.balance owner a =
      L.balance owner a - if owner = s.from_account then price.part a else 0) ∧
    L' = { extended L s period with balances := L'.balances } := by
  obtain ⟨negative,taken⟩ := renew_subscription_credited covered ran
  refine ⟨negative,?_,adjust_balance_frame taken⟩
  intro owner a
  rw [balance_adjust_balance taken]
  show L.balance owner a + _ = _
  by_cases here : owner = s.from_account
  · simp only [here,if_true,Asset.part]
    split <;> omega
  · simp [here]

/-- The `try` block, case by case. -/
theorem run_try_renewal (L : Ledger) (s : Subscription) (options : AccountOptions) :
    EStateM.run (try_renewal s options) L =
      match L.assets.find? options.price_per_subscribe.asset_id with
      | none => .error .assert_exception L
      | some ao =>
        match subscription_price options.price_per_subscribe ao with
        | .error e => .error e L
        | .ok price =>
          if price.amount ≤ L.balance s.from_account price.asset_id then
            EStateM.run (renew_subscription s options.subscription_period price) L
          else .ok () (disallowed L s) := by
  rw [try_renewal,EStateM.run_bind]
  cases found : L.assets.find? options.price_per_subscribe.asset_id with
  | none =>
    rw [run_observe_error (get_asset_none found)]
  | some ao =>
    rw [run_observe_ok (get_asset_ok.mpr found)]
    dsimp only
    rw [EStateM.run_bind]
    cases priced : subscription_price options.price_per_subscribe ao with
    | error e => rw [run_observe_error (show _ = Except.error e from rfl)]
    | ok price =>
      rw [run_observe_ok (show _ = Except.ok price from rfl)]
      dsimp only
      rw [EStateM.run_bind,run_observe_ok (get_balance_eq L s.from_account price.asset_id)]
      dsimp only
      have compared : price.at_most ⟨L.balance s.from_account price.asset_id,price.asset_id⟩ =
          .ok (decide (price.amount ≤ L.balance s.from_account price.asset_id)) := Asset.at_most_same rfl
      rw [EStateM.run_bind,run_observe_ok (show _ = Except.ok _ from compared)]
      by_cases covered : price.amount ≤ L.balance s.from_account price.asset_id
      · simp only [covered,decide_true,if_true]
      · simp only [covered,decide_false,if_false,Bool.false_eq_true]
        rfl

/-- The price that the subscription is renewed for in this ledger, by these terms. -/
def due_price (L : Ledger) (options : AccountOptions) (price : Asset) : Prop :=
  ∃ ao, L.assets.find? options.price_per_subscribe.asset_id = some ao ∧
    subscription_price options.price_per_subscribe ao = .ok price

theorem due_price_unique {L : Ledger} {options : AccountOptions} {p q : Asset} (first : due_price L options p)
    (second : due_price L options q) : p = q := by
  obtain ⟨ao,found,priced⟩ := first
  obtain ⟨bo,found',priced'⟩ := second
  cases found.symm.trans found'
  cases priced.symm.trans priced'
  rfl

/-- The subscriber can pay. -/
def covered (L : Ledger) (s : Subscription) (options : AccountOptions) (price : Asset) : Prop :=
  due_price L options price ∧ price.amount ≤ L.balance s.from_account price.asset_id

/-- What one subscription that is due has come to. -/
inductive Outcome (L : Ledger) (s : Subscription) (options : AccountOptions) (L' : Ledger) : Prop
  | renewed (price : Asset) (pays : covered L s options price)
      (ran : EStateM.run (renew_subscription s options.subscription_period price) L = .ok () L')
  | refused (none : ∀ price, ¬ covered L s options price) (off : L' = disallowed L s)
  | failed (price : Asset) (pays : covered L s options price) (L₁ : Ledger)
      (threw : EStateM.run (renew_subscription s options.subscription_period price) L = .error .assert_exception L₁)
      (off : L' = disallowed L₁ s)

theorem settle_renewal_ok {L L' : Ledger} {s : Subscription} {u : Unit}
    (ran : EStateM.run (settle_renewal s) L = .ok u L') :
    ∃ author, L.accounts.find? s.to_account = some author ∧ Outcome L s author.options L' := by
  rw [settle_renewal,EStateM.run_bind,EStateM.run_get] at ran
  dsimp only at ran
  cases found : L.accounts.find? s.to_account with
  | none =>
    rw [found] at ran
    cases ran
  | some author =>
    rw [found] at ran
    refine ⟨author,rfl,?_⟩
    dsimp only at ran
    rw [run_tryCatch,run_try_renewal] at ran
    cases priceAsset : L.assets.find? author.options.price_per_subscribe.asset_id with
    | none =>
      rw [priceAsset] at ran
      cases ran
      refine .refused ?_ rfl
      rintro price ⟨⟨ao,found',_⟩,_⟩
      cases priceAsset.symm.trans found'
    | some ao =>
      rw [priceAsset] at ran
      dsimp only at ran
      cases priced : subscription_price author.options.price_per_subscribe ao with
      | error e =>
        rw [priced] at ran
        dsimp only at ran
        by_cases assertion : e = .assert_exception
        · rw [if_pos assertion] at ran
          cases ran
          refine .refused ?_ rfl
          rintro price ⟨⟨bo,found',priced'⟩,_⟩
          cases priceAsset.symm.trans found'
          cases priced.symm.trans priced'
        · rw [if_neg assertion] at ran
          cases ran
      | ok price =>
        rw [priced] at ran
        dsimp only at ran
        have due : due_price L author.options price := ⟨ao,priceAsset,priced⟩
        by_cases pays : price.amount ≤ L.balance s.from_account price.asset_id
        · rw [if_pos pays] at ran
          cases renewed : EStateM.run (renew_subscription s author.options.subscription_period price) L with
          | ok v L₁ =>
            rw [renewed] at ran
            cases ran
            exact .renewed price ⟨due,pays⟩ renewed
          | error e L₁ =>
            rw [renewed] at ran
            dsimp only at ran
            by_cases assertion : e = .assert_exception
            · rw [if_pos assertion] at ran
              cases ran
              exact .failed price ⟨due,pays⟩ L₁ (assertion ▸ renewed) rfl
            · rw [if_neg assertion] at ran
              cases ran
        · rw [if_neg pays] at ran
          cases ran
          refine .refused ?_ rfl
          rintro other ⟨due',pays'⟩
          rw [due_price_unique due' due] at pays'
          exact pays pays'

theorem settle_renewal_of_ok {L L' : Ledger} {s : Subscription} {author : Account} {price : Asset}
    (found : L.accounts.find? s.to_account = some author) (pays : covered L s author.options price)
    (ran : EStateM.run (renew_subscription s author.options.subscription_period price) L = .ok () L') :
    EStateM.run (settle_renewal s) L = .ok () L' := by
  obtain ⟨⟨ao,priceAsset,priced⟩,enough⟩ := pays
  rw [settle_renewal,EStateM.run_bind,EStateM.run_get]
  dsimp only
  rw [found]
  dsimp only
  rw [run_tryCatch,run_try_renewal,priceAsset]
  dsimp only
  rw [priced]
  dsimp only
  rw [if_pos enough,ran]

/-! ### All or nothing -/

/-- A monitored price is never negative once it is converted. -/
theorem subscription_price_nonneg {price p : Asset} {ao : AssetObject} (priced : subscription_price price ao = .ok p)
    (sound : ao.monitored_asset_opts = none → 0 ≤ price.amount) : 0 ≤ p.amount := by
  unfold subscription_price at priced
  cases monitored : ao.monitored_asset_opts with
  | none =>
    rw [monitored] at priced
    cases priced
    exact sound monitored
  | some m =>
    rw [monitored] at priced
    simp only [bind_ok,fc_assert_ok] at priced
    obtain ⟨_,_,converted⟩ := priced
    exact (Price.times_ok converted).1

theorem later_period (expiration period : Nat) :
    later expiration (period_in_secs period) = (expiration + period * day) % 2^32 := by
  rw [later,period_in_secs,Nat.add_mod_mod,Nat.mul_assoc]
  rfl

/-- The price went from the subscriber to the author and the subscription is longer by the
    author's period. -/
def Completed (L L' : Ledger) (s : Subscription) (options : AccountOptions) : Prop :=
  ∃ price, due_price L options price ∧ 0 ≤ price.amount ∧
    (∀ owner a, L'.balance owner a = L.balance owner a - (if owner = s.from_account then price.part a else 0) +
      if owner = s.to_account then price.part a else 0) ∧
    L'.subscriptions.find? s.id = some { s with expiration := s.expiration + options.subscription_period * day }

/-- Balances and expiration are as before and the renewal is switched off. -/
def RolledBack (L L' : Ledger) (s : Subscription) : Prop :=
  (∀ owner a, L'.balance owner a = L.balance owner a) ∧
    L'.subscriptions.find? s.id = some { s with automatic_renewal := false }

/-- The author's price is not a negative amount of an asset that is not monitored, and a
    period that is paid for does not run past the last second of the calendar. -/
def sound_terms (L : Ledger) (s : Subscription) (options : AccountOptions) : Prop :=
  (∀ ao, L.assets.find? options.price_per_subscribe.asset_id = some ao → ao.monitored_asset_opts = none →
    0 ≤ options.price_per_subscribe.amount) ∧
  ∀ price, covered L s options price → s.expiration + options.subscription_period * day < 2^32

theorem not_sound_of_negative {L : Ledger} {s : Subscription} {options : AccountOptions} {price : Asset}
    (due : due_price L options price) (negative : price.amount < 0) : ¬ sound_terms L s options := by
  rintro ⟨sound,-⟩
  obtain ⟨ao,found,priced⟩ := due
  have := subscription_price_nonneg priced (sound ao found)
  omega

theorem sound_of_nonneg {L : Ledger} {s : Subscription} {options : AccountOptions} {price : Asset}
    (pays : covered L s options price) (nonneg : 0 ≤ price.amount)
    (inTime : s.expiration + options.subscription_period * day < 2^32) : sound_terms L s options := by
  refine ⟨?_,fun _ _ => inTime⟩
  obtain ⟨⟨ao,found,priced⟩,-⟩ := pays
  intro bo found' unmonitored
  cases found.symm.trans found'
  rw [subscription_price,unmonitored] at priced
  cases priced
  exact nonneg

section
variable {L L' : Ledger} {s : Subscription} {options : AccountOptions} {price : Asset}

theorem find_extended (member : s ∈ L.subscriptions.order) :
    (extended L s options.subscription_period).subscriptions.find? s.id =
      some { s with expiration := (s.expiration + options.subscription_period * day) % 2^32 } := by
  rw [← later_period]
  exact Subscriptions.find?_modify_same member _

/-- After a renewal only the completed case is left, and it needs a price that is no gift and a
    period that ends in time. -/
theorem completed_iff (member : s ∈ L.subscriptions.order) (renewing : s.automatic_renewal = true)
    (pays : covered L s options price)
    (ran : EStateM.run (renew_subscription s options.subscription_period price) L = .ok () L') :
    Completed L L' s options ∨ RolledBack L L' s ↔ sound_terms L s options := by
  obtain ⟨moved,frame⟩ := renew_subscription_ok ran
  have found : L'.subscriptions.find? s.id =
      some { s with expiration := (s.expiration + options.subscription_period * day) % 2^32 } := by
    rw [frame]
    exact find_extended member
  constructor
  · rintro (⟨q,due,nonneg,-,extended⟩ | ⟨-,off⟩)
    · cases due_price_unique due pays.1
      have same := congrArg Subscription.expiration (Option.some.inj (found.symm.trans extended))
      exact sound_of_nonneg pays nonneg (by dsimp only at same; omega)
    · have same := congrArg Subscription.automatic_renewal (Option.some.inj (found.symm.trans off))
      exact absurd (same.symm.trans renewing) Bool.false_ne_true
  · rintro ⟨sound,inTime⟩
    obtain ⟨ao,foundAsset,priced⟩ := pays.1
    refine .inl ⟨price,pays.1,subscription_price_nonneg priced (sound ao foundAsset),moved,?_⟩
    rw [found,Nat.mod_eq_of_lt (inTime price pays)]

/-- A refusal changes nothing but the flag, whatever the terms. -/
theorem rolled_back_disallowed (member : s ∈ L.subscriptions.order) : RolledBack L (disallowed L s) s :=
  ⟨fun _ _ => rfl,Subscriptions.find?_modify_same member _⟩

/-- Between the two changes of balances only a negative price fails. -/
theorem not_atomic_of_failed (pays : covered L s options price) {L₁ : Ledger}
    (threw : EStateM.run (renew_subscription s options.subscription_period price) L = .error .assert_exception L₁) :
    ¬ (Completed L (disallowed L₁ s) s options ∨ RolledBack L (disallowed L₁ s) s) ∧ ¬ sound_terms L s options := by
  obtain ⟨negative,moved,-⟩ := renew_subscription_assert pays.2 threw
  refine ⟨?_,not_sound_of_negative pays.1 negative⟩
  rintro (⟨q,due,nonneg,-⟩ | ⟨same,-⟩)
  · cases due_price_unique due pays.1
    omega
  · have credited : L₁.balance s.from_account price.asset_id = L.balance s.from_account price.asset_id := same _ _
    rw [moved] at credited
    simp only [if_true,Asset.part] at credited
    omega

end

theorem renewal_atomic_iff (L L' : Ledger) (s : Subscription) (author : Account) (member : s ∈ L.subscriptions.order)
    (renewing : s.automatic_renewal = true) (found : L.accounts.find? s.to_account = some author)
    (ran : EStateM.run (settle_renewal s) L = .ok () L') :
    Completed L L' s author.options ∨ RolledBack L L' s ↔ sound_terms L s author.options := by
  obtain ⟨_,found',outcome⟩ := settle_renewal_ok ran
  cases found.symm.trans found'
  cases outcome with
  | renewed price pays ran => exact completed_iff member renewing pays ran
  | failed price pays L₁ threw off =>
    rw [off]
    obtain ⟨notAtomic,notSound⟩ := not_atomic_of_failed pays threw
    exact ⟨fun atomic => absurd atomic notAtomic,fun sound => absurd sound notSound⟩
  | refused uncovered off =>
    rw [off]
    refine ⟨fun _ => ⟨?_,fun price pays => absurd pays (uncovered price)⟩,fun _ => .inr (rolled_back_disallowed member)⟩
    -- A negative price would have been covered by any balance.
    intro ao foundAsset unmonitored
    by_contra negative
    have held := L.balance_range s.from_account author.options.price_per_subscribe.asset_id
    refine uncovered author.options.price_per_subscribe ⟨⟨ao,foundAsset,?_⟩,by omega⟩
    rw [subscription_price,unmonitored]

/-- Account 4 sells subscriptions of a day for ten. -/
def author_options : AccountOptions := ⟨proxy_to_self_account,true,⟨10,core⟩,1⟩

def subscribe_to_author (consumer : AccountId) : Action :=
  .operation free_env (.subscribe ⟨⟨0,core⟩,consumer,4,⟨10,core⟩⟩)

def renew_automatically (consumer : AccountId) (subscription : Nat) : Action :=
  .operation free_env (.automatic_renewal_of_subscription ⟨⟨0,core⟩,consumer,subscription,true⟩)

/-- Accounts 5 and 6 subscribe; account 5 spends all it has. -/
def two_subscribers : List Action :=
  [.header 1530000005,.maintenance,new_account author_options,new_account default_account.options,
    new_account default_account.options,grant 5 ⟨10,core⟩,grant 6 ⟨100,core⟩,subscribe_to_author 5,subscribe_to_author 6]

/-- Both renew automatically and the next maintenance has come. -/
def two_renewals : List Action :=
  two_subscribers ++ [renew_automatically 5 0,renew_automatically 6 1,.header 1530057600]

theorem renewal_atomic_six :
    Completed (after_actions two_renewals) (endState (EStateM.run (settle_renewal ⟨1,6,4,1530086405,true⟩)
      (after_actions two_renewals))) ⟨1,6,4,1530086405,true⟩ author_options ∨
    RolledBack (after_actions two_renewals) (endState (EStateM.run (settle_renewal ⟨1,6,4,1530086405,true⟩)
      (after_actions two_renewals))) ⟨1,6,4,1530086405,true⟩ := by
  refine (renewal_atomic_iff _ _ ⟨1,6,4,1530086405,true⟩ ⟨author_options⟩ (by decide +kernel) rfl (by decide +kernel)
    (run_of_returned (by decide +kernel))).mpr ⟨?_,?_⟩
  · intro _ _ _
    decide
  · intro _ _
    decide

/-- Account 4 stops selling subscriptions, at a price below zero that nobody checks any more, and
    spends its balance; account 5 then asks for automatic renewal. -/
def negative_price : List Action :=
  two_subscribers ++
    [.operation free_env (.account_update ⟨⟨0,core⟩,4,some ⟨proxy_to_self_account,false,⟨-7,core⟩,1⟩⟩),
    .operation free_env (.transfer ⟨⟨0,core⟩,4,0,⟨20,core⟩⟩),renew_automatically 5 0,.header 1530057600]

/-- The subscriber is credited, the author cannot be debited, and the credit stays. -/
theorem negative_renewal_half_done : ∃ L L' s author, Reachable small_genesis L ∧ s ∈ L.subscriptions.order ∧
    s.automatic_renewal = true ∧ s.expiration ≤ next_time L.properties L.parameters.maintenance_interval ∧
    L.accounts.find? s.to_account = some author ∧ EStateM.run (settle_renewal s) L = .ok () L' ∧
    ¬ (Completed L L' s author.options ∨ RolledBack L L' s) := by
  have credited : (after_actions negative_price).balance 5 core <
      (endState (EStateM.run (settle_renewal ⟨0,5,4,1530086405,true⟩) (after_actions negative_price))).balance 5 core := by
    decide +kernel
  refine ⟨after_actions negative_price,_,⟨0,5,4,1530086405,true⟩,⟨⟨proxy_to_self_account,false,⟨-7,core⟩,1⟩⟩,
    reachable_after_actions (by decide +kernel),by decide +kernel,rfl,by decide +kernel,by decide +kernel,
    run_of_returned (by decide +kernel),?_⟩
  rintro (⟨price,-,nonneg,moved,-⟩ | ⟨same,-⟩)
  · rw [moved] at credited
    simp only [if_true,show ¬ (5 : Nat) = 4 by decide,if_false,Asset.part] at credited
    split at credited <;> omega
  · rw [same] at credited
    omega

end Decent.Money

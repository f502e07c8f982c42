import Decent.Conversions

/-!
Holders who convert an asset into the core asset and back at one rate, or pay fees in it. What a
holder has of both is worth no more after a conversion than before, at this very rate, so that nobody
gains of one without losing of the other.
-/
namespace Decent.Money
open Throwing

/-! ### Rates -/

/-- A price that was validated, in 64 bits. -/
structure ExchangeRate extends Price where
  valid : toPrice.validate = true
  base_fits : base.amount < 2^63
  quote_fits : quote.amount < 2^63

section
variable (rate : ExchangeRate)

theorem ExchangeRate.positive : 0 < rate.base.amount ∧ 0 < rate.quote.amount ∧
    rate.base.asset_id ≠ rate.quote.asset_id := by
  have valid := rate.valid
  simp only [Price.validate,Bool.and_eq_true,decide_eq_true_eq] at valid
  exact ⟨valid.1.1,valid.1.2,valid.2⟩

/-- What an amount of the two assets is worth, in fractions that make both exact. -/
def ExchangeRate.worth (held : AssetId → Int) : Int :=
  held rate.base.asset_id * rate.quote.amount + held rate.quote.asset_id * rate.base.amount

end

/-- Two amounts that are not negative have an exact product. -/
theorem product128_eq {x y : Int} (x_nonneg : 0 ≤ x) (x_fits : x < 2^63) (y_nonneg : 0 ≤ y) (y_fits : y < 2^63) :
    product128 x y = x * y := by
  have nonneg : 0 ≤ x * y := Int.mul_nonneg x_nonneg y_nonneg
  have below : x * y ≤ 2^63 * 2^63 :=
    Int.mul_le_mul (Int.le_of_lt x_fits) (Int.le_of_lt y_fits) y_nonneg (by decide)
  exact Int.emod_eq_of_lt nonneg (Int.lt_of_le_of_lt below (by decide))

/-- A negative amount wraps, and the quotient is more than any supply. -/
theorem exchange_nonneg {amount from_amount to_amount : Int} {to_id : AssetId} {x : Asset} (fits : Fits amount)
    (from_fits : from_amount < 2^63) (to_positive : 0 < to_amount) (to_fits : to_amount < 2^63)
    (exchanged : Price.exchange amount from_amount to_amount to_id = .ok x) : 0 ≤ amount := by
  simp only [Price.exchange,bind_ok,fc_assert_ok,pure_ok] at exchanged
  obtain ⟨_,from_positive,_,small,-⟩ := exchanged
  by_contra negative
  have least : -(2^63 * 2^63) ≤ amount * to_amount := by
    have := Int.mul_le_mul (a := -amount) (c := 2^63) (b := to_amount) (d := 2^63) (by have := fits.1; omega) (Int.le_of_lt to_fits)
      (Int.le_of_lt to_positive) (by decide)
    rw [Int.neg_mul] at this
    omega
  have below : amount * to_amount < 0 := Int.mul_neg_of_neg_of_pos (Int.not_le.mp negative) to_positive
  have wrapped : product128 amount to_amount = amount * to_amount + 2^128 := by
    unfold product128
    omega
  have large : 2^64 ≤ product128 amount to_amount / from_amount := by
    refine (Int.le_ediv_iff_mul_le from_positive).mpr ?_
    rw [wrapped]
    omega
  have : max_share_supply < 2^64 := by decide
  omega

/-- What is exchanged for an amount is worth no more. -/
theorem exchange_worth {amount from_amount to_amount : Int} {to_id : AssetId} {x : Asset} (fits : Fits amount)
    (from_fits : from_amount < 2^63) (to_positive : 0 < to_amount) (to_fits : to_amount < 2^63)
    (exchanged : Price.exchange amount from_amount to_amount to_id = .ok x) :
    x.asset_id = to_id ∧ x.amount * from_amount ≤ amount * to_amount := by
  have nonneg := exchange_nonneg fits from_fits to_positive to_fits exchanged
  simp only [Price.exchange,bind_ok,fc_assert_ok,pure_ok] at exchanged
  obtain ⟨_,from_positive,_,-,rfl⟩ := exchanged
  refine ⟨rfl,?_⟩
  rw [product128_eq nonneg fits.2 (Int.le_of_lt to_positive) to_fits]
  exact Int.ediv_mul_le _ (Int.ne_of_gt from_positive)

/-! ### Holders -/

/-- A change of what is held: an amount is given for another. -/
def traded (given taken : Asset) : AssetId → Int := fun a => taken.part a - given.part a

theorem worth_traded {rate : ExchangeRate} {given taken : Asset} (fits : Fits given.amount)
    (converted : rate.times given = .ok taken) :
    rate.worth (traded given taken) ≤ 0 ∧
      ∀ a, a ≠ rate.base.asset_id → a ≠ rate.quote.asset_id → traded given taken a = 0 := by
  obtain ⟨base_positive,quote_positive,apart⟩ := rate.positive
  unfold Price.times at converted
  split at converted
  case isTrue ofBase =>
    obtain ⟨ofQuote,worth⟩ := exchange_worth fits rate.base_fits quote_positive rate.quote_fits converted
    simp only [ExchangeRate.worth,traded,Asset.part,ofBase,ofQuote,if_true,apart,apart.symm,if_false]
    refine ⟨?_,fun a notBase notQuote => ?_⟩
    · rw [Int.zero_sub,Int.sub_zero,Int.neg_mul]
      omega
    · rw [if_neg (Ne.symm notQuote),if_neg (Ne.symm notBase),Int.sub_zero]
  case isFalse =>
    split at converted
    case isTrue ofQuote =>
      obtain ⟨ofBase,worth⟩ := exchange_worth fits rate.quote_fits base_positive rate.base_fits converted
      simp only [ExchangeRate.worth,traded,Asset.part,ofBase,ofQuote,if_true,apart,apart.symm,if_false]
      refine ⟨?_,fun a notBase notQuote => ?_⟩
      · rw [Int.zero_sub,Int.sub_zero,Int.neg_mul]
        omega
      · rw [if_neg (Ne.symm notBase),if_neg (Ne.symm notQuote),Int.sub_zero]
    case isFalse => cases converted

/-- What every holder has more than at first, and less if it is negative. -/
abbrev Gains := AccountId → AssetId → Int

def Gains.trade (gains : Gains) (holder : AccountId) (given taken : Asset) : Gains := fun account a =>
  gains account a + if account = holder then traded given taken a else 0

/-- The asset is converted at this rate. -/
def AtRate (L : Ledger) (id : AssetId) (rate : ExchangeRate) : Prop :=
  ∃ ao, L.assets.find? id = some ao ∧ ao.options.core_exchange_rate = rate.toPrice

/-- Holders convert an asset and pay fees in it, in any order, and whatever else happens to the ledger in
    between, the rate is the same whenever they do. The core amount of a fee counts as theirs. -/
inductive Exchanges (id : AssetId) (rate : ExchangeRate) : Ledger → Gains → Prop
  | start (L : Ledger) : Exchanges id rate L fun _ _ => 0
  | convert {L L' : Ledger} {gains : Gains} {holder : AccountId} {amount x : Asset} (before : Exchanges id rate L gains)
      (at_rate : AtRate L id rate) (fits : Fits amount.amount)
      (ran : EStateM.run (convert_uia id amount) L = .ok x L') : Exchanges id rate L' (gains.trade holder amount x)
  | fee {L L' : Ledger} {gains : Gains} {holder : AccountId} {fee : Asset} {core_fee_paid : Int}
      (before : Exchanges id rate L gains) (at_rate : AtRate L id rate) (in_asset : fee.asset_id = id)
      (fits : Fits fee.amount) (prepared : prepare_fee holder fee L = .ok core_fee_paid)
      (ran : EStateM.run (convert_fee fee core_fee_paid) L = .ok () L') :
      Exchanges id rate L' (gains.trade holder fee ⟨core_fee_paid,core⟩)
  | between {L L' : Ledger} {gains : Gains} (before : Exchanges id rate L gains) : Exchanges id rate L' gains

/-- What a holder has of the two assets is worth no more than at first, and the others are untouched. -/
structure Ungained (rate : ExchangeRate) (held : AssetId → Int) : Prop where
  worth : rate.worth held ≤ 0
  others : ∀ a, a ≠ rate.base.asset_id → a ≠ rate.quote.asset_id → held a = 0

section
variable {rate : ExchangeRate}

theorem ungained_none : Ungained rate fun _ => 0 := ⟨by simp [ExchangeRate.worth],fun _ _ _ => rfl⟩

theorem ungained_add {held more : AssetId → Int} (ungained : Ungained rate held) (ungained' : Ungained rate more) :
    Ungained rate fun a => held a + more a where
  worth := by
    have sum : rate.worth (fun a => held a + more a) = rate.worth held + rate.worth more := by
      unfold ExchangeRate.worth
      rw [Int.add_mul,Int.add_mul]
      omega
    rw [sum]
    exact Int.add_nonpos ungained.worth ungained'.worth
  others a notBase notQuote := by rw [ungained.others a notBase notQuote,ungained'.others a notBase notQuote]; rfl

/-- One trade, of whichever holder. -/
theorem ungained_trade {gains : Gains} (ungained : ∀ account, Ungained rate (gains account)) (holder : AccountId)
    {given taken : Asset} (even : Ungained rate (traded given taken)) (account : AccountId) :
    Ungained rate (gains.trade holder given taken account) := by
  unfold Gains.trade
  by_cases same : account = holder
  · simp only [if_pos same]
    exact ungained_add (ungained account) even
  · simp only [if_neg same,Int.add_zero]
    exact ungained account

/-- Nobody has more of one asset and no less of the other. -/
theorem Ungained.no_gain {held : AssetId → Int} (ungained : Ungained rate held) :
    ¬(0 < held rate.base.asset_id ∧ 0 ≤ held rate.quote.asset_id) ∧
      ¬(0 ≤ held rate.base.asset_id ∧ 0 < held rate.quote.asset_id) := by
  obtain ⟨base_positive,quote_positive,-⟩ := rate.positive
  have worth := ungained.worth
  unfold ExchangeRate.worth at worth
  constructor
  · rintro ⟨more,kept⟩
    have := Int.mul_pos more quote_positive
    have := Int.mul_nonneg kept (Int.le_of_lt base_positive)
    omega
  · rintro ⟨kept,more⟩
    have := Int.mul_nonneg kept (Int.le_of_lt quote_positive)
    have := Int.mul_pos more base_positive
    omega

end

theorem convert_uia_times {id : AssetId} {amount x : Asset} {L L' : Ledger} {rate : ExchangeRate}
    (at_rate : AtRate L id rate) (ran : EStateM.run (convert_uia id amount) L = .ok x L') : rate.times amount = .ok x := by
  obtain ⟨ao,found,same⟩ := at_rate
  obtain ⟨-,times,-⟩ := (convert_uia_returns found).mp ⟨L',ran⟩
  rw [← same]
  exact times

/-- The core amount of a fee in another asset is what it is exchanged for. -/
theorem prepare_fee_times {payer : AccountId} {fee : Asset} {x : Int} {L : Ledger} {rate : ExchangeRate}
    (at_rate : AtRate L fee.asset_id rate) (prepared : prepare_fee payer fee L = .ok x) :
    (fee.asset_id = core ∧ x = fee.amount) ∨ rate.times fee = .ok ⟨x,core⟩ := by
  obtain ⟨ao,found,same⟩ := at_rate
  simp only [prepare_fee,reads_bind,reads_lift,fc_assert_ok,get_asset_ok] at prepared
  obtain ⟨_,-,_,-,_,found',_,-,paid⟩ := prepared
  cases found.symm.trans found'
  by_cases inCore : fee.asset_id = core
  · rw [if_pos inCore] at paid
    exact .inl ⟨inCore,(reads_pure.mp paid).symm⟩
  · rw [if_neg inCore] at paid
    simp only [reads_bind,reads_lift,fc_assert_ok,reads_pure] at paid
    obtain ⟨y,times,_,ofCore,_,-,rfl⟩ := paid
    right
    rw [← same,times,← ofCore]

/-- A run of trades, of all holders. -/
theorem ungained_exchanges {id : AssetId} {rate : ExchangeRate} {L : Ledger} {gains : Gains} (exchanges : Exchanges id rate L gains)
    (holder : AccountId) : Ungained rate (gains holder) := by
  induction exchanges generalizing holder with
  | start => exact ungained_none
  | convert before at_rate fits ran ih =>
    obtain ⟨worth,others⟩ := worth_traded fits (convert_uia_times at_rate ran)
    exact ungained_trade ih _ ⟨worth,others⟩ holder
  | @fee L L' gains payer fee core_fee_paid before at_rate in_asset fits prepared ran ih =>
    subst in_asset
    refine ungained_trade ih _ ?_ holder
    rcases prepare_fee_times at_rate prepared with ⟨inCore,rfl⟩ | times
    · have none : traded fee ⟨fee.amount,core⟩ = fun _ => 0 := by
        funext a
        simp [traded,Asset.part,inCore]
      rw [none]
      exact ungained_none
    · obtain ⟨worth,others⟩ := worth_traded fits times
      exact ⟨worth,others⟩
  | between before ih => exact ih holder

theorem exchange_positive {amount from_amount to_amount : Int} {to_id : AssetId} {x : Asset}
    (exchanged : Price.exchange amount from_amount to_amount to_id = .ok x) : 0 < from_amount := by
  simp only [Price.exchange,bind_ok,fc_assert_ok] at exchanged
  obtain ⟨_,positive,-⟩ := exchanged
  exact positive

/-- An exchange and the one back, of amounts in 64 bits. -/
theorem exchange_exchange {amount from_amount to_amount : Int} {from_id to_id : AssetId} {x y : Asset} (fits : Fits amount)
    (from_fits : from_amount < 2^63) (to_fits : to_amount < 2^63)
    (there : Price.exchange amount from_amount to_amount to_id = .ok x)
    (back : Price.exchange x.amount to_amount from_amount from_id = .ok y) : y.asset_id = from_id ∧ y.amount ≤ amount := by
  have from_positive := exchange_positive there
  have to_positive := exchange_positive back
  obtain ⟨nonneg,small,-⟩ := Price.exchange_ok there
  have between : Fits x.amount := by
    have : max_share_supply < 2^63 := by decide
    unfold Fits
    omega
  obtain ⟨-,worth⟩ := exchange_worth fits from_fits to_positive to_fits there
  obtain ⟨same,worth'⟩ := exchange_worth between to_fits from_positive from_fits back
  exact ⟨same,Int.le_of_mul_le_mul_right (Int.le_trans worth' worth) to_positive⟩

/-- There and back at a price between two assets gives no more than there was. -/
theorem times_times {p : Price} {a x y : Asset} (apart : p.base.asset_id ≠ p.quote.asset_id) (fits : Fits a.amount)
    (base_fits : p.base.amount < 2^63) (quote_fits : p.quote.amount < 2^63) (there : p.times a = .ok x)
    (back : p.times x = .ok y) : y.asset_id = a.asset_id ∧ y.amount ≤ a.amount := by
  unfold Price.times at there
  split at there
  case isTrue ofBase =>
    rw [Price.times,(Price.exchange_ok there).2.2,if_neg apart.symm,if_pos rfl] at back
    rw [ofBase]
    exact exchange_exchange fits base_fits quote_fits there back
  case isFalse =>
    split at there
    case isTrue ofQuote =>
      rw [Price.times,(Price.exchange_ok there).2.2,if_pos rfl] at back
      rw [ofQuote]
      exact exchange_exchange fits quote_fits base_fits there back
    case isFalse => cases there

/-- Nobody gains by conversions at one rate, there and back never gives more, and the products have no
    more than 128 bits. -/
theorem conversions_never_gain :
    (∀ (id : AssetId) (rate : ExchangeRate) (L : Ledger) (gains : Gains), Exchanges id rate L gains → ∀ holder,
      (¬(0 < gains holder rate.base.asset_id ∧ 0 ≤ gains holder rate.quote.asset_id) ∧
        ¬(0 ≤ gains holder rate.base.asset_id ∧ 0 < gains holder rate.quote.asset_id)) ∧
      ∀ a, a ≠ rate.base.asset_id → a ≠ rate.quote.asset_id → gains holder a = 0) ∧
    (∀ (p : Price) (a x y : Asset), p.base.asset_id ≠ p.quote.asset_id → p.base.amount < 2^63 → p.quote.amount < 2^63 →
      0 ≤ a.amount → a.amount < 2^63 → p.times a = .ok x → p.times x = .ok y →
      y.asset_id = a.asset_id ∧ y.amount ≤ a.amount) ∧
    ∀ x y : Int, 0 ≤ x → x < 2^63 → 0 ≤ y → y < 2^63 → product128 x y = x * y := by
  refine ⟨fun id rate L gains exchanges holder => ?_,fun p a x y apart base_fits quote_fits nonneg fits there back => ?_,
    fun x y x_nonneg x_fits y_nonneg y_fits => product128_eq x_nonneg x_fits y_nonneg y_fits⟩
  · have ungained := ungained_exchanges exchanges holder
    exact ⟨ungained.no_gain,ungained.others⟩
  · exact times_times apart ⟨by omega,fits⟩ base_fits quote_fits there back

/-- Two core for three of the asset. -/
def two_for_three : ExchangeRate := ⟨⟨⟨2,core⟩,⟨3,2⟩⟩,by decide,by decide,by decide⟩

/-- A user has issued himself an asset at this rate and put ten into its core pool. -/
def uneven_user : List Action := one_user ++ [
  .operation free_env (.asset_create { odd_fee with
    fee := ⟨0,core⟩
    options := ⟨1000,two_for_three.toPrice,true,some false⟩ }),
  .operation free_env (.asset_issue ⟨⟨0,core⟩,4,⟨100,2⟩,4⟩),
  .operation free_env (.asset_fund_pools ⟨⟨0,core⟩,4,⟨0,2⟩,⟨10,core⟩⟩)]

/-- A conversion that is known to return this, at the rate. -/
def convert_to (amount x : Asset) : M Unit := do
  let L ← get
  observe (fc_assert ((L.assets.find? 2).map (·.options.core_exchange_rate) = some two_for_three.toPrice))
  let y ← convert_uia 2 amount
  observe (fc_assert (y = x))

theorem convert_to_ok {amount x : Asset} {L L' : Ledger} (ran : EStateM.run (convert_to amount x) L = .ok () L') :
    AtRate L 2 two_for_three ∧ EStateM.run (convert_uia 2 amount) L = .ok x L' := by
  obtain ⟨_,stored,ran⟩ := run_observe_bind.mp (run_get_bind.mp ran)
  obtain ⟨y,L₁,converted,same⟩ := run_bind_ok.mp ran
  obtain ⟨returned,rfl⟩ := run_observe.mp same
  obtain rfl : y = x := fc_assert_ok.mp (reads_lift.mp returned)
  obtain ⟨ao,found,rate⟩ := Option.map_eq_some_iff.mp (fc_assert_ok.mp stored)
  exact ⟨⟨ao,found,rate⟩,converted⟩

/-- Account 4 gives four of the asset for two core, and these for three of it; seven core are exchanged
    for ten of the asset, and these for six core. -/
theorem uneven_user_loses : (∃ L gains, Exchanges 2 two_for_three L gains ∧ gains 4 2 = -1 ∧ gains 4 core = 0 ∧
    ¬(0 ≤ gains 4 core ∧ 0 < gains 4 2)) ∧ ∃ x, two_for_three.times ⟨7,core⟩ = .ok x ∧
      ∃ y, two_for_three.times x = .ok y ∧ y.amount = 6 ∧ y.amount ≤ 7 := by
  have ran := run_of_returned (x := do
    convert_to ⟨4,2⟩ ⟨2,core⟩
    convert_to ⟨2,core⟩ ⟨3,2⟩) (s := after_actions uneven_user) (by decide +kernel)
  obtain ⟨_,L₁,first,second⟩ := run_bind_ok.mp ran
  obtain ⟨at_rate,converted⟩ := convert_to_ok first
  obtain ⟨at_rate',converted'⟩ := convert_to_ok second
  have exchanges := @Exchanges.start 2 two_for_three (after_actions uneven_user)
  have exchanges := @Exchanges.convert 2 two_for_three _ _ _ 4 _ _ exchanges at_rate (by decide) converted
  have exchanges := @Exchanges.convert 2 two_for_three _ _ _ 4 _ _ exchanges at_rate' (by decide) converted'
  obtain ⟨never,back,-⟩ := conversions_never_gain
  have times : two_for_three.times ⟨7,core⟩ = .ok ⟨10,2⟩ := by decide
  have times' : two_for_three.times ⟨10,2⟩ = .ok ⟨6,core⟩ := by decide
  exact ⟨⟨_,_,exchanges,by decide,by decide,(never _ _ _ _ exchanges 4).1.2⟩,_,times,_,times',rfl,
    (back _ _ _ _ (by decide) (by decide) (by decide) (by decide) (by decide) times times').2⟩

end Decent.Money

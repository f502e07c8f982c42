import Mathlib.Data.Nat.Log
import Mathlib.Order.Bounds.Basic
import Decent.Lib.Loops
import Decent.Trading

/-!
Quotes of fees. The fee of an operation is found in the core asset, from the parameters of its
type and for a few types from its size, and converted at a rate: rounded down, and raised while
it would not convert back to enough. Setting the fee may change the size, so that it is repeated.
-/
namespace Decent.FeeQuotes
open Decent.Money Loops

/-! ### The operations -/

/-- What the fee of an operation depends on besides the field `fee`, in the order of the variant:
    `rest_size` is the packed size of the other fields. -/
inductive Body
  | transfer
  | account_create
  | account_update
  | asset_create (monitored_asset_opts : Bool) (symbol_size : Nat)
  | asset_issue (memo_size : UInt64)
  | asset_publish_feed
  | miner_create
  | miner_update
  | miner_update_global_parameters
  | proposal_create (rest_size : UInt64)
  | proposal_update (rest_size : UInt64)
  | proposal_delete
  | withdraw_permission_create
  | withdraw_permission_update
  | withdraw_permission_claim (memo_size : Option UInt64)
  | withdraw_permission_delete
  | vesting_balance_create
  | vesting_balance_withdraw
  | custom (rest_size : UInt64)
  | assert (predicates : UInt64)
  | content_submit (seeders : Nat)
  | request_to_buy
  | leave_rating_and_comment
  | ready_to_publish
  | proof_of_custody
  | deliver_keys
  | subscribe
  | subscribe_by_author
  | automatic_renewal_of_subscription
  | report_stats
  | set_publishing_manager
  | set_publishing_right
  | content_cancellation
  | asset_fund_pools
  | asset_reserve
  | asset_claim_fees
  | update_user_issued_asset
  | update_monitored_asset
  | ready_to_publish2
  | transfer2
  | update_user_issued_asset_advanced
  | disallow_automatic_renewal_of_subscription
  | return_escrow_submission
  | return_escrow_buying
  | pay_seeder
  | finish_buying
  | renewal_of_subscription

/-- The position in the variant. -/
def Body.which (body : Body) : Nat := body.ctorIdx

structure Operation where
  fee : Asset
  body : Body

/-! ### The parameters -/

/-- A `fee_parameters_type`: `fee` is called `basic_fee` in some, and most have no `price_per_kbyte`. -/
structure FeeParameters where
  which : Nat
  fee : UInt64
  price_per_kbyte : UInt32

def blockchain_precision : UInt64 := 100000000

/-- The defaults of the types. -/
def default_fee : Body → UInt64
  | .transfer | .transfer2 => blockchain_precision / 1000
  | .account_create | .account_update => 1 * blockchain_precision / 1000
  | .asset_create _ _ => 1 * blockchain_precision / 1000
  | .asset_issue _ | .asset_fund_pools | .asset_reserve | .asset_claim_fees => 5 * blockchain_precision / 1000
  | .update_user_issued_asset | .update_monitored_asset => 5 * blockchain_precision / 1000
  | .update_user_issued_asset_advanced => 5 * blockchain_precision / 1000
  | .asset_publish_feed => 1 * blockchain_precision / 10000000
  | .miner_create => 50 * blockchain_precision / 100
  | .miner_update => 1 * blockchain_precision / 1000
  | .miner_update_global_parameters => 10
  | .proposal_create _ | .proposal_update _ | .proposal_delete => blockchain_precision / 1000
  | .withdraw_permission_create | .withdraw_permission_update => blockchain_precision / 1000
  | .withdraw_permission_claim _ => blockchain_precision / 1000
  | .vesting_balance_create | .vesting_balance_withdraw => blockchain_precision / 1000
  | .custom _ => blockchain_precision / 1000
  | .assert _ => blockchain_precision / 100
  | .content_submit _ => blockchain_precision / 100
  | _ => 0

def default_price_per_kbyte : Body → UInt32
  | .proposal_create _ | .proposal_update _ | .withdraw_permission_claim _ | .custom _ => 10
  | _ => 0

/-- `fee_parameters` of a type that the schedule does not have. -/
def default_parameters (body : Body) : FeeParameters := ⟨body.which,default_fee body,default_price_per_kbyte body⟩

/-- The parameters are a set, with one element for a type. -/
structure FeeSchedule where
  parameters : List FeeParameters
  scale : UInt32

def FeeSchedule.find (S : FeeSchedule) (body : Body) : FeeParameters :=
  (S.parameters.find? (·.which = body.which)).getD (default_parameters body)

/-! ### The fee in the core asset -/

/-- The bytes of a variable integer: one for each 7 bits. -/
def unsigned_int_size (value : Nat) : Nat := Nat.log 128 value + 1

/-- The packed size of the field `fee`: its amount has a fixed size. -/
def fee_size (fee : Asset) : UInt64 := 8 + UInt64.ofNat (unsigned_int_size fee.asset_id)

/-- `base_operation::calculate_data_fee` -/
def calculate_data_fee (bytes price_per_kbyte : UInt64) : Except Fault UInt64 := do
  let result := bytes.toNat * price_per_kbyte.toNat / 1024
  fc_assert ((result : Int) ≤ max_share_supply)
  return UInt64.ofNat result

/-- `calculate_fee` of the types, as `uint64_t`; only the claim of a withdrawal adds checked numbers. -/
def Operation.calculate_fee (o : Operation) (k : FeeParameters) : Except Fault UInt64 :=
  match o.body with
  | .asset_create monitored_asset_opts symbol_size =>
    if monitored_asset_opts then .ok k.fee
    else match symbol_size with
      | 3 => .ok (k.fee * 5000)
      | 4 => .ok (k.fee * 200)
      | _ => .ok (5 * k.fee)
  | .asset_issue memo_size => return k.fee + (← calculate_data_fee memo_size k.fee)
  | .proposal_create rest_size | .proposal_update rest_size | .custom rest_size =>
    return k.fee + (← calculate_data_fee (rest_size + fee_size o.fee) k.price_per_kbyte.toUInt64)
  | .withdraw_permission_claim memo =>
    match memo with
    | none => .ok k.fee
    | some memo_size => do
      let data_fee ← calculate_data_fee memo_size k.price_per_kbyte.toUInt64
      let core_fee_required ← checked (k.fee.toInt64.toInt + data_fee.toInt64.toInt)
      return (Int64.ofInt core_fee_required).toUInt64
  | .assert predicates => .ok (k.fee * predicates)
  | .content_submit seeders => .ok (if seeders ≠ 0 then 0 else k.fee)
  | _ => .ok k.fee

/-- The scaled fee, in units of the core asset; 10000 is `GRAPHENE_100_PERCENT`. -/
def FeeSchedule.scaled (S : FeeSchedule) (o : Operation) : Except Fault Int := do
  let base_value ← o.calculate_fee (S.find o.body)
  let scaled := base_value.toNat * S.scale.toNat / 10000
  fc_assert ((scaled : Int) ≤ max_share_supply)
  return scaled

/-! ### The quote -/

/-- The condition of the loop: `result * core_exchange_rate < asset( scaled )`. -/
def converts_below (rate : Price) (scaled : Int) (result : Asset) : Except Fault Bool := do
  (← rate.times result).less ⟨scaled,core⟩

/-- One pass of the loop. -/
def raise_pass (rate : Price) (scaled : Int) (result : Asset) : Option (Asset ⊕ Except Fault Asset) :=
  match converts_below rate scaled result with
  | .error e => some (.inr (.error e))
  | .ok false => some (.inr (.ok result))
  | .ok true =>
    match checked (result.amount + 1) with
    | .error e => some (.inr (.error e))
    | .ok amount => some (.inl { result with amount := amount })

/-- What is left after the loop. -/
def quoted (raised : Except Fault Asset) : Except Fault Asset := do
  let result ← raised
  fc_assert (result.amount ≤ max_share_supply)
  return result

/-- `fee_schedule::calculate_fee`; none where the passes are not enough. -/
def FeeSchedule.calculate_fee (S : FeeSchedule) (rate : Price) (fuel : Nat) (o : Operation) : Option (Except Fault Asset) :=
  match S.scaled o with
  | .error e => some (.error e)
  | .ok scaled =>
    match rate.times ⟨scaled,core⟩ with
    | .error e => some (.error e)
    | .ok result => (loop (raise_pass rate scaled) fuel result).map quoted

/-- The loop of `set_fee`, with the passes it has left. The fee of the operation before a pass is `f`, and
    `f_max` is the highest so far. -/
def FeeSchedule.stabilize (S : FeeSchedule) (rate : Price) (fuel : Nat) :
    Nat → Operation → Asset → Asset → Option (Except Fault (Asset × Operation))
  | 0, o, _, f_max => some (.ok (f_max,o))
  | left + 1, o, f, f_max =>
    let o := { o with fee := f_max }
    match S.calculate_fee rate fuel o with
    | none => none
    | some (.error e) => some (.error e)
    | some (.ok f2) =>
      if f = f2 then some (.ok (f_max,o))
      else match f_max.less f2 with
        | .error e => some (.error e)
        | .ok lower => S.stabilize rate fuel left o f2 (if lower then f2 else f_max)

/-- `MAX_FEE_STABILIZATION_ITERATION` -/
def max_fee_stabilization_iteration : Nat := 4

/-- `fee_schedule::set_fee`, with the operation it leaves. -/
def FeeSchedule.set_fee (S : FeeSchedule) (rate : Price) (fuel : Nat) (o : Operation) :
    Option (Except Fault (Asset × Operation)) :=
  match S.calculate_fee rate fuel o with
  | none => none
  | some (.error e) => some (.error e)
  | some (.ok f) => S.stabilize rate fuel max_fee_stabilization_iteration o f f

/-! ### The least amount -/

/-- The asset in which a rate quotes fees. -/
def other (rate : Price) : AssetId := if rate.base.asset_id = core then rate.quote.asset_id else rate.base.asset_id

/-- The two sides of a rate of the core asset. -/
structure Sides (rate : Price) (core_amount other_amount : Int) : Prop where
  core_positive : 0 < core_amount
  core_fits : core_amount < 2^63
  other_positive : 0 < other_amount
  other_fits : other_amount < 2^63
  forth : ∀ a, rate.times ⟨a,core⟩ = Price.exchange a core_amount other_amount (other rate)
  back : ∀ a, rate.times ⟨a,other rate⟩ = Price.exchange a other_amount core_amount core

theorem sides_of_rate {rate : ExchangeRate} {amount : Int} {x : Asset} (converted : rate.times ⟨amount,core⟩ = .ok x) :
    ∃ core_amount other_amount, Sides rate.toPrice core_amount other_amount := by
  obtain ⟨base_positive,quote_positive,apart⟩ := rate.positive
  by_cases based : core = rate.base.asset_id
  · have quoted : other rate.toPrice = rate.quote.asset_id := if_pos based.symm
    refine ⟨_,_,base_positive,rate.base_fits,quote_positive,rate.quote_fits,fun a => ?_,fun a => ?_⟩
    · rw [Price.times,if_pos based,quoted]
    · rw [Price.times,quoted,if_neg apart.symm,if_pos rfl,← based]
  · have quoted : other rate.toPrice = rate.base.asset_id := if_neg (Ne.symm based)
    have inCore : core = rate.quote.asset_id := by
      by_contra neither
      rw [Price.times,if_neg based,if_neg neither] at converted
      cases converted
    refine ⟨_,_,quote_positive,rate.quote_fits,base_positive,rate.base_fits,fun a => ?_,fun a => ?_⟩
    · rw [Price.times,if_neg based,if_pos inCore,quoted]
    · rw [Price.times,quoted,if_pos rfl,← inCore]

/-- The conversion of an amount that is not negative. -/
theorem exchange_exact {amount from_amount to_amount : Int} {to_id : AssetId} {x : Asset} (nonneg : 0 ≤ amount)
    (fits : amount < 2^63) (to_positive : 0 < to_amount) (to_fits : to_amount < 2^63)
    (exchanged : Price.exchange amount from_amount to_amount to_id = .ok x) :
    x = ⟨amount * to_amount / from_amount,to_id⟩ := by
  simp only [Price.exchange,bind_ok,fc_assert_ok,pure_ok] at exchanged
  obtain ⟨_,-,_,-,rfl⟩ := exchanged
  rw [product128_eq nonneg fits (Int.le_of_lt to_positive) to_fits]

/-- The amounts that convert back to enough. -/
def Enough (rate : Price) (scaled : Int) : Set Int :=
  {amount | Fits amount ∧ ∃ back, rate.times ⟨amount,other rate⟩ = .ok ⟨back,core⟩ ∧ scaled ≤ back}

/-- What a quote returns is the least of these. -/
def LeastEnough (rate : Price) (scaled : Int) (r : Except Fault Asset) : Prop :=
  ∀ f, r = .ok f → f.asset_id = other rate ∧ IsLeast (Enough rate scaled) f.amount

section
variable {rate : Price} {core_amount other_amount scaled : Int}

/-- Which amounts are enough. -/
theorem enough_covers (sides : Sides rate core_amount other_amount) {amount : Int} (enough : amount ∈ Enough rate scaled) :
    0 ≤ amount ∧ scaled * other_amount ≤ amount * core_amount := by
  obtain ⟨fits,back,converted,covers⟩ := enough
  rw [sides.back] at converted
  have nonneg := exchange_nonneg fits sides.other_fits sides.core_positive sides.core_fits converted
  have exact_back := exchange_exact nonneg fits.2 sides.core_positive sides.core_fits converted
  cases exact_back
  exact ⟨nonneg,(Int.le_ediv_iff_mul_le sides.other_positive).mp covers⟩

/-- Between the passes: what is enough is not less, and the next amount covers the fee. -/
structure Raised (rate : Price) (core_amount other_amount scaled : Int) (result : Asset) : Prop where
  asset : result.asset_id = other rate
  nonneg : 0 ≤ result.amount
  fits : Fits result.amount
  least : result.amount ∈ lowerBounds (Enough rate scaled)
  next : scaled * other_amount < (result.amount + 1) * core_amount

/-- The loop starts so, from the amount rounded down. -/
theorem raised_first (sides : Sides rate core_amount other_amount) (scaled_nonneg : 0 ≤ scaled)
    (scaled_small : scaled ≤ max_share_supply) {result : Asset} (converted : rate.times ⟨scaled,core⟩ = .ok result) :
    Raised rate core_amount other_amount scaled result := by
  have bounds := Price.times_ok converted
  have supply : max_share_supply < 2^63 := by decide
  rw [sides.forth] at converted
  have rounded := exchange_exact scaled_nonneg (Int.lt_of_le_of_lt scaled_small supply) sides.other_positive sides.other_fits converted
  subst rounded
  refine ⟨rfl,bounds.1,⟨by have := bounds.1; omega,Int.lt_of_le_of_lt bounds.2 supply⟩,fun amount enough => ?_,?_⟩
  · have covers := (enough_covers sides enough).2
    have := Int.ediv_le_ediv sides.core_positive covers
    rwa [Int.mul_ediv_cancel _ (Int.ne_of_gt sides.core_positive)] at this
  · have rest := Int.lt_ediv_add_one_mul_self (scaled * other_amount) sides.core_positive
    exact rest

/-- The condition, where the amount converts back. -/
theorem converts_below_ok (sides : Sides rate core_amount other_amount) {result : Asset} {lower : Bool}
    (raised : Raised rate core_amount other_amount scaled result) (compared : converts_below rate scaled result = .ok lower) :
    ∃ back, rate.times ⟨result.amount,other rate⟩ = .ok ⟨back,core⟩ ∧ back = result.amount * core_amount / other_amount ∧
      lower = decide (back < scaled) := by
  obtain ⟨amount,id⟩ := result
  obtain ⟨rfl,nonneg,fits,-,-⟩ := raised
  obtain ⟨back,converted,less⟩ := bind_ok.mp compared
  have forth := converted
  rw [sides.back] at forth
  have exact_back := exchange_exact nonneg fits.2 sides.core_positive sides.core_fits forth
  subst exact_back
  exact ⟨_,converted,rfl,(Asset.less_ok.mp less).2⟩

/-- A pass raises the amount once at most: it leaves the loop with an exception or with the least amount
    that is enough, or it comes to an amount that covers the fee. -/
theorem raise_pass_step (sides : Sides rate core_amount other_amount) {result : Asset}
    (raised : Raised rate core_amount other_amount scaled result) :
    (∃ result', raise_pass rate scaled result = some (.inl result') ∧ Raised rate core_amount other_amount scaled result' ∧
      result.amount * core_amount < scaled * other_amount ∧ scaled * other_amount ≤ result'.amount * core_amount) ∨
    ∃ r, raise_pass rate scaled result = some (.inr r) ∧ LeastEnough rate scaled r := by
  unfold raise_pass
  cases compared : converts_below rate scaled result with
  | error e => exact .inr ⟨_,rfl,nofun⟩
  | ok lower =>
    obtain ⟨back,converted,rounded,decided⟩ := converts_below_ok sides raised compared
    cases lower with
    | false =>
      have covers : scaled ≤ back := Int.not_lt.mp (of_decide_eq_false decided.symm)
      refine .inr ⟨_,rfl,fun f same => ?_⟩
      cases same
      exact ⟨raised.asset,⟨raised.fits,back,converted,covers⟩,raised.least⟩
    | true =>
      have below : back < scaled := of_decide_eq_true decided.symm
      cases increased : checked (result.amount + 1) with
      | error e => exact .inr ⟨_,rfl,nofun⟩
      | ok amount =>
        obtain ⟨fits,rfl⟩ := checked_ok.mp increased
        rw [rounded] at below
        have short := (Int.ediv_lt_iff_lt_mul sides.other_positive).mp below
        have positive := sides.core_positive
        refine .inl ⟨_,rfl,⟨raised.asset,?_,fits,fun amount enough => ?_,?_⟩,short,Int.le_of_lt raised.next⟩
        · exact Int.le_add_one raised.nonneg
        · -- The amount itself is not enough, so that the least is above it.
          have covers := (enough_covers sides enough).2
          by_contra fewer
          have : amount * core_amount ≤ result.amount * core_amount :=
            Int.mul_le_mul_of_nonneg_right (Int.lt_add_one_iff.mp (Int.not_le.mp fewer)) (Int.le_of_lt positive)
          omega
        · have := raised.next
          rw [Int.add_mul (result.amount + 1)]
          omega

end

/-! ### The fee -/

section
variable (S : FeeSchedule) (rate : ExchangeRate)

theorem scaled_bounds {o : Operation} {scaled : Int} (ran : S.scaled o = .ok scaled) : 0 ≤ scaled ∧ scaled ≤ max_share_supply := by
  simp only [FeeSchedule.scaled,bind_ok,fc_assert_ok,pure_ok] at ran
  obtain ⟨base_value,-,_,small,rfl⟩ := ran
  exact ⟨Int.natCast_nonneg _,small⟩

/-- Two passes are enough. -/
theorem calculate_fee_quoted (o : Operation) {fuel : Nat} (passes : 2 ≤ fuel) :
    ∃ r, S.calculate_fee rate.toPrice fuel o = some r ∧
      ∀ f, r = .ok f → ∃ scaled, S.scaled o = .ok scaled ∧ LeastEnough rate.toPrice scaled r := by
  unfold FeeSchedule.calculate_fee
  cases scales : S.scaled o with
  | error e => exact ⟨_,rfl,nofun⟩
  | ok scaled =>
    obtain ⟨nonneg,small⟩ := scaled_bounds S scales
    cases converted : rate.times ⟨scaled,core⟩ with
    | error e =>
      refine ⟨.error e,?_,nofun⟩
      simp only [converted]
    | ok first =>
      obtain ⟨core_amount,other_amount,sides⟩ := sides_of_rate converted
      obtain ⟨r,ended,least⟩ := loop_total (Raised rate.toPrice core_amount other_amount scaled)
        (fun result => if scaled * other_amount ≤ result.amount * core_amount then 0 else 1)
        (LeastEnough rate.toPrice scaled) (fun result raised => (raise_pass_step sides raised).imp_left fun ⟨result',goes,raised',short,covers⟩ =>
          ⟨result',goes,raised',by rw [if_pos covers,if_neg (Int.not_le.mpr short)]; exact Nat.one_pos⟩)
        fuel first (raised_first sides nonneg small converted) (by split <;> omega)
      refine ⟨quoted r,?_,fun _ _ => ⟨scaled,rfl,fun f same => ?_⟩⟩
      · simp only [converted,ended,Option.map_some]
      · simp only [quoted,bind_ok,fc_assert_ok,pure_ok] at same
        obtain ⟨f',returned,_,-,rfl⟩ := same
        exact least f' returned

/-! ### Setting the fee -/

/-- A fee is found from the asset of the field `fee`, not from its amount. -/
theorem calculate_fee_asset (body : Body) {fee fee' : Asset} (asset : fee'.asset_id = fee.asset_id) (fuel : Nat) :
    S.calculate_fee rate.toPrice fuel ⟨fee',body⟩ = S.calculate_fee rate.toPrice fuel ⟨fee,body⟩ := by
  have size : fee_size fee' = fee_size fee := by
    unfold fee_size
    rw [asset]
  have same : S.scaled ⟨fee',body⟩ = S.scaled ⟨fee,body⟩ := by
    unfold FeeSchedule.scaled Operation.calculate_fee
    simp only [size]
  unfold FeeSchedule.calculate_fee
  rw [same]

/-- What `set_fee` is to leave: the operation carries the fee, and costs no more. -/
def Stable (o : Operation) (fuel : Nat) (r : Except Fault (Asset × Operation)) : Prop :=
  ∀ f o', r = .ok (f,o') → o' = { o with fee := f } ∧
    ∃ g, S.calculate_fee rate.toPrice fuel o' = some (.ok g) ∧ g.asset_id = f.asset_id ∧ g.amount ≤ f.amount

/-- The pass after the first one finds the same fee again. -/
theorem stabilize_again {o : Operation} {f f_max : Asset} {fuel : Nat} (left : Nat)
    (again : S.calculate_fee rate.toPrice fuel { o with fee := f_max } = some (.ok f)) :
    S.stabilize rate.toPrice fuel (left + 1) o f f_max = some (.ok (f_max,{ o with fee := f_max })) := by
  simp only [FeeSchedule.stabilize,again,if_true]

/-- The loop, where the fee it is given is of the asset of the next quote: the second pass is the last. -/
theorem stabilize_stable {o : Operation} {f f2 : Asset} {fuel : Nat} (asset : f2.asset_id = f.asset_id)
    (quotes : S.calculate_fee rate.toPrice fuel { o with fee := f } = some (.ok f2)) :
    ∃ r, S.stabilize rate.toPrice fuel max_fee_stabilization_iteration o f f = some r ∧ Stable S rate o fuel r := by
  by_cases settled : f = f2
  · subst settled
    refine ⟨.ok (f,{ o with fee := f }),stabilize_again S rate 3 quotes,fun f' o' same => ?_⟩
    cases same
    exact ⟨rfl,f,quotes,rfl,Int.le_refl _⟩
  · have compared : f.less f2 = .ok (decide (f.amount < f2.amount)) := Asset.less_ok.mpr ⟨asset.symm,rfl⟩
    have higher : (if f.amount < f2.amount then f2 else f).asset_id = f.asset_id := by
      split
      · exact asset
      · rfl
    have again : S.calculate_fee rate.toPrice fuel { o with fee := if f.amount < f2.amount then f2 else f } = some (.ok f2) := by
      rw [← quotes]
      exact calculate_fee_asset S rate o.body higher fuel
    refine ⟨.ok (if f.amount < f2.amount then f2 else f,{ o with fee := if f.amount < f2.amount then f2 else f }),?_,
      fun f' o' same => ?_⟩
    · rw [max_fee_stabilization_iteration,FeeSchedule.stabilize]
      simp only [quotes,if_neg settled,compared,decide_eq_true_eq]
      exact stabilize_again S rate 2 again
    · cases same
      refine ⟨rfl,f2,again,asset.trans higher.symm,?_⟩
      split <;> omega

theorem set_fee_stable (o : Operation) {fuel : Nat} (passes : 2 ≤ fuel) :
    ∃ r, S.set_fee rate.toPrice fuel o = some r ∧ Stable S rate o fuel r := by
  obtain ⟨r,quotes,exact_quote⟩ := calculate_fee_quoted S rate o passes
  unfold FeeSchedule.set_fee
  cases r with
  | error e =>
    refine ⟨.error e,?_,nofun⟩
    simp only [quotes]
  | ok f =>
    obtain ⟨r2,quotes2,exact_quote2⟩ := calculate_fee_quoted S rate { o with fee := f } passes
    simp only [quotes]
    cases r2 with
    | error e =>
      refine ⟨.error e,?_,nofun⟩
      simp only [max_fee_stabilization_iteration,FeeSchedule.stabilize,quotes2]
    | ok f2 =>
      obtain ⟨_,-,least⟩ := exact_quote f rfl
      obtain ⟨_,-,least2⟩ := exact_quote2 f2 rfl
      exact stabilize_stable S rate ((least2 f2 rfl).1.trans (least f rfl).1.symm) quotes2

/-- A quote is the least amount that converts back to the scaled fee, found in two passes; an operation whose
    fee was set carries the fee that was returned, and is quoted no more than that. -/
theorem fee_quote_stable (o : Operation) (fuel : Nat) :
    (∃ r, S.calculate_fee rate.toPrice (fuel + 2) o = some r ∧
      ∀ f, r = .ok f → ∃ scaled, S.scaled o = .ok scaled ∧ f.asset_id = other rate.toPrice ∧
        IsLeast {amount | Fits amount ∧ ∃ back, rate.times ⟨amount,f.asset_id⟩ = .ok ⟨back,core⟩ ∧ scaled ≤ back} f.amount) ∧
    ∃ r, S.set_fee rate.toPrice (fuel + 2) o = some r ∧
      ∀ f o', r = .ok (f,o') → o' = { o with fee := f } ∧
        ∃ g, S.calculate_fee rate.toPrice (fuel + 2) o' = some (.ok g) ∧ g.asset_id = f.asset_id ∧ g.amount ≤ f.amount := by
  refine ⟨?_,set_fee_stable S rate o (Nat.le_add_left 2 fuel)⟩
  obtain ⟨r,quotes,exact_quote⟩ := calculate_fee_quoted S rate o (Nat.le_add_left 2 fuel)
  refine ⟨r,quotes,fun f returned => ?_⟩
  obtain ⟨scaled,scales,least⟩ := exact_quote f returned
  obtain ⟨asset,isLeast⟩ := least f returned
  refine ⟨scaled,scales,asset,?_⟩
  rw [asset]
  exact isLeast

end

/-- A proposal of 102 bytes, 9 of them for a fee in the core asset. In asset 200 the fee takes 10, and the
    byte costs one unit of the core asset and two of the other. -/
example : ((FeeSchedule.mk [] 10000).set_fee ⟨⟨2,200⟩,⟨1,core⟩⟩ 2 ⟨⟨0,core⟩,.proposal_create 93⟩).map
    (fun r => r.toOption.map fun left => (left.1.amount,left.2.fee)) = some (some (200002,⟨200002,200⟩)) := by decide +kernel

end Decent.FeeQuotes

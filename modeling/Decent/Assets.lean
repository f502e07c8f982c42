import Mathlib.Data.Int.Basic
import Mathlib.Tactic.Common
import Mathlib.Algebra.Group.Nat.Defs
import Mathlib.Algebra.Group.Int.Defs

/-!
Amounts of assets and prices. `share_type` is an `int64_t` whose operations throw
instead of wrapping; a comparison of two amounts asserts that both are of one
asset.
-/
namespace Decent.Money

/-- What can be thrown: a failed `FC_ASSERT` and an overflow of a checked number; and what ends
    the process, the use of an iterator at the end of its index and a division by zero. -/
inductive Fault
  | assert_exception
  | overflow_exception
  | end_iterator
  | division_by_zero
deriving DecidableEq

abbrev AccountId := Nat
abbrev AssetId := Nat

/-- The core asset (DCT). -/
def core : AssetId := 0

/-- The values of an `int64_t`. -/
def Fits (v : Int) : Prop := -2^63 ≤ v ∧ v < 2^63

instance (v : Int) : Decidable (Fits v) := inferInstanceAs (Decidable (_ ∧ _))

/-- The result of an operation on `share_type`. -/
def checked (v : Int) : Except Fault Int := if Fits v then .ok v else .error .overflow_exception

def fc_assert (c : Prop) [Decidable c] : Except Fault Unit := if c then .ok () else .error .assert_exception

theorem checked_ok {v w : Int} : checked v = .ok w ↔ Fits v ∧ w = v := by
  unfold checked
  split
  · simp_all [eq_comm]
  · simp_all

theorem fc_assert_ok {c : Prop} [Decidable c] {u : Unit} : fc_assert c = .ok u ↔ c := by
  unfold fc_assert
  split <;> simp_all

structure Asset where
  amount : Int
  asset_id : AssetId
deriving DecidableEq

namespace Asset

/-- How much of `a` an amount is. -/
def part (x : Asset) (a : AssetId) : Int := if x.asset_id = a then x.amount else 0

def negate (x : Asset) : Except Fault Asset := return ⟨← checked (-x.amount),x.asset_id⟩

/-- `operator <` -/
def less (x y : Asset) : Except Fault Bool := do
  fc_assert (x.asset_id = y.asset_id)
  return decide (x.amount < y.amount)

/-- `operator <=` tries equality first. -/
def at_most (x y : Asset) : Except Fault Bool := if x = y then .ok true else x.less y

/-- `operator >=` -/
def at_least (x y : Asset) : Except Fault Bool := return !(← x.less y)

/-- `operator +=` -/
def add (x y : Asset) : Except Fault Asset := do
  fc_assert (x.asset_id = y.asset_id)
  return ⟨← checked (x.amount + y.amount),x.asset_id⟩

/-- `operator -=` -/
def sub (x y : Asset) : Except Fault Asset := do
  fc_assert (x.asset_id = y.asset_id)
  return ⟨← checked (x.amount - y.amount),x.asset_id⟩

end Asset

structure Price where
  base : Asset
  quote : Asset
deriving DecidableEq

/-- `GRAPHENE_MAX_SHARE_SUPPLY` -/
def max_share_supply : Int := 7319777577456890

/-- The product of two `int64_t` as an unsigned number of 128 bits. -/
def product128 (x y : Int) : Int := (x * y) % 2^128

namespace Price

/-- `operator ==` compares the two ratios by cross-multiplication. -/
def equal (a b : Price) : Bool :=
  a.base.asset_id = b.base.asset_id && a.quote.asset_id = b.quote.asset_id &&
    product128 b.quote.amount a.base.amount = product128 a.quote.amount b.base.amount

def is_null (p : Price) : Bool := p.equal ⟨⟨0,core⟩,⟨0,core⟩⟩

/-- One direction of `operator * ( const asset&, const price& )`. -/
def exchange (amount from_amount to_amount : Int) (to_id : AssetId) : Except Fault Asset := do
  fc_assert (0 < from_amount)
  let result := product128 amount to_amount / from_amount
  fc_assert (result ≤ max_share_supply)
  return ⟨result,to_id⟩

/-- `operator * ( const asset&, const price& )` -/
def times (p : Price) (a : Asset) : Except Fault Asset :=
  if a.asset_id = p.base.asset_id then
    exchange a.amount p.base.amount p.quote.amount p.quote.asset_id
  else if a.asset_id = p.quote.asset_id then
    exchange a.amount p.quote.amount p.base.amount p.base.asset_id
  else
    .error .assert_exception

end Price

/-! ### What these functions return -/

theorem bind_ok {α β : Type} {x : Except Fault α} {f : α → Except Fault β} {b : β} :
    x >>= f = .ok b ↔ ∃ a, x = .ok a ∧ f a = .ok b := by
  cases x with
  | ok a =>
    constructor
    · intro ran; exact ⟨a,rfl,ran⟩
    · rintro ⟨_,same,ran⟩; cases same; exact ran
  | error e =>
    constructor
    · intro ran; cases ran
    · rintro ⟨_,same,_⟩; cases same

theorem pure_ok {α : Type} {a b : α} : (pure a : Except Fault α) = .ok b ↔ a = b := by
  constructor
  · intro same; cases same; rfl
  · rintro rfl; rfl

theorem Asset.negate_ok {x y : Asset} : x.negate = .ok y ↔ Fits (-x.amount) ∧ y = ⟨-x.amount,x.asset_id⟩ := by
  simp only [Asset.negate,bind_ok,checked_ok,pure_ok]
  constructor
  · rintro ⟨v,⟨fits,rfl⟩,rfl⟩; exact ⟨fits,rfl⟩
  · rintro ⟨fits,rfl⟩; exact ⟨_,⟨fits,rfl⟩,rfl⟩

theorem Asset.sub_ok {x y z : Asset} :
    x.sub y = .ok z ↔ x.asset_id = y.asset_id ∧ Fits (x.amount - y.amount) ∧ z = ⟨x.amount - y.amount,x.asset_id⟩ := by
  simp only [Asset.sub,bind_ok,checked_ok,pure_ok,fc_assert_ok]
  constructor
  · rintro ⟨_,same,v,⟨fits,rfl⟩,rfl⟩; exact ⟨same,fits,rfl⟩
  · rintro ⟨same,fits,rfl⟩; exact ⟨(),same,_,⟨fits,rfl⟩,rfl⟩

theorem Asset.add_ok {x y z : Asset} :
    x.add y = .ok z ↔ x.asset_id = y.asset_id ∧ Fits (x.amount + y.amount) ∧ z = ⟨x.amount + y.amount,x.asset_id⟩ := by
  simp only [Asset.add,bind_ok,checked_ok,pure_ok,fc_assert_ok]
  constructor
  · rintro ⟨_,same,v,⟨fits,rfl⟩,rfl⟩; exact ⟨same,fits,rfl⟩
  · rintro ⟨same,fits,rfl⟩; exact ⟨(),same,_,⟨fits,rfl⟩,rfl⟩

theorem Asset.less_ok {x y : Asset} {b : Bool} :
    x.less y = .ok b ↔ x.asset_id = y.asset_id ∧ b = decide (x.amount < y.amount) := by
  simp only [Asset.less,bind_ok,fc_assert_ok,pure_ok]
  constructor
  · rintro ⟨_,same,rfl⟩; exact ⟨same,rfl⟩
  · rintro ⟨same,rfl⟩; exact ⟨(),same,rfl⟩

/-- Within one asset `operator <=` is the order of the amounts. -/
theorem Asset.at_most_same {x y : Asset} (same : x.asset_id = y.asset_id) :
    x.at_most y = .ok (decide (x.amount ≤ y.amount)) := by
  obtain ⟨a,i⟩ := x
  obtain ⟨b,j⟩ := y
  cases same
  by_cases equal : a = b
  · simp [Asset.at_most,equal]
  · have apart : ¬ (⟨a,i⟩ : Asset) = ⟨b,i⟩ := fun h => equal (congrArg Asset.amount h)
    rw [Asset.at_most,if_neg apart,Asset.less_ok]
    refine ⟨rfl,decide_eq_decide.mpr ?_⟩
    show a ≤ b ↔ a < b
    omega

theorem Asset.at_most_true {x y : Asset} (atMost : x.at_most y = .ok true) :
    x.asset_id = y.asset_id ∧ x.amount ≤ y.amount := by
  unfold Asset.at_most at atMost
  split at atMost
  case isTrue equal =>
    cases equal
    exact ⟨rfl,Int.le_refl _⟩
  case isFalse =>
    obtain ⟨same,smaller⟩ := Asset.less_ok.mp atMost
    exact ⟨same,Int.le_of_lt (of_decide_eq_true smaller.symm)⟩

theorem Asset.at_least_same {x y : Asset} (same : x.asset_id = y.asset_id) :
    x.at_least y = .ok (decide (y.amount ≤ x.amount)) := by
  have compared : x.less y = .ok (decide (x.amount < y.amount)) := Asset.less_ok.mpr ⟨same,rfl⟩
  rw [Asset.at_least,compared]
  show Except.ok _ = _
  congr 1
  by_cases smaller : x.amount < y.amount
  · simp [smaller]
  · simp [smaller,Int.not_lt.mp smaller]

theorem Price.exchange_ok {amount from_amount to_amount : Int} {to_id : AssetId} {x : Asset}
    (exchanged : Price.exchange amount from_amount to_amount to_id = .ok x) :
    0 ≤ x.amount ∧ x.amount ≤ max_share_supply ∧ x.asset_id = to_id := by
  simp only [Price.exchange,bind_ok,fc_assert_ok,pure_ok] at exchanged
  obtain ⟨_,positive,_,small,rfl⟩ := exchanged
  exact ⟨Int.ediv_nonneg (Int.emod_nonneg _ (by decide)) (Int.le_of_lt positive),small,rfl⟩

/-- A converted amount is never negative, whatever was converted. -/
theorem Price.times_ok {a x : Asset} {p : Price} (converted : p.times a = .ok x) :
    0 ≤ x.amount ∧ x.amount ≤ max_share_supply := by
  unfold Price.times at converted
  split at converted
  · exact ⟨(exchange_ok converted).1,(exchange_ok converted).2.1⟩
  · split at converted
    · exact ⟨(exchange_ok converted).1,(exchange_ok converted).2.1⟩
    · cases converted

end Decent.Money

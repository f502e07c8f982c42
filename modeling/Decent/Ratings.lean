import Decent.Lib.Table
import Mathlib.Algebra.Order.Field.Basic
import Mathlib.Algebra.Order.Field.Rat
import Mathlib.Tactic.FieldSimp
import Mathlib.Tactic.Linarith

/-!
The average rating of a content. It is recomputed with each rating from the average before,
which is rounded down each time; what the divisions drop adds up and is never made good. The
average is within one of the true one as long as that sum is less than the number of ratings.
-/
namespace Decent.Ratings

/-! ### Rating a content -/

structure Content where
  AVG_rating : UInt64
  num_of_ratings : UInt32
deriving DecidableEq

structure Buying where
  delivered : Bool
  rated_or_commented : Bool
  rating : UInt64
  comment : String
deriving DecidableEq

/-- The contents by their URI, and the buyings by consumer and URI. -/
structure Store where
  contents : Table String Content
  buyings : Table (Nat × String) Buying

structure LeaveRatingAndComment where
  fee : Int
  URI : String
  consumer : Nat
  rating : UInt64
  comment : String

inductive Fault
  | assert_exception
  | division_by_zero
deriving DecidableEq

/-- `DECENT_MAX_COMMENT_SIZE` -/
def max_comment_size : Nat := 100

def fc_assert (c : Prop) [Decidable c] : Except Fault Unit := if c then .ok () else .error .assert_exception

def LeaveRatingAndComment.validate (o : LeaveRatingAndComment) : Except Fault Unit := do
  fc_assert (0 ≤ o.fee)
  fc_assert (0 < o.rating ∧ o.rating ≤ 5)
  fc_assert (o.comment = "" ∨ o.comment.utf8ByteSize ≤ max_comment_size)

def leave_rating_evaluate (o : LeaveRatingAndComment) (s : Store) : Except Fault Unit :=
  match s.contents.find? o.URI, s.buyings.find? (o.consumer,o.URI) with
  | some _, some bo => do
    fc_assert (bo.delivered = true)
    fc_assert (bo.rated_or_commented = false)
  | _, _ => .error .assert_exception

/-- The new average. The number of ratings is incremented in 32 bits before it divides. -/
def Content.rate (co : Content) (rating : UInt64) : Except Fault Content :=
  if co.num_of_ratings = 0 then
    .ok ⟨rating * 1000,co.num_of_ratings + 1⟩
  else if co.num_of_ratings + 1 = 0 then
    .error .division_by_zero
  else
    .ok ⟨(co.AVG_rating * co.num_of_ratings.toUInt64 + rating * 1000) / (co.num_of_ratings + 1).toUInt64,
      co.num_of_ratings + 1⟩

def leave_rating_apply (o : LeaveRatingAndComment) (s : Store) : Except Fault Store :=
  match s.contents.find? o.URI, s.buyings.find? (o.consumer,o.URI) with
  | some content, some bo => do
    let content ← content.rate o.rating
    return {
      contents := s.contents.put o.URI content
      buyings := s.buyings.put (o.consumer,o.URI) { bo with
        rated_or_commented := true
        rating := o.rating
        comment := o.comment } }
  | _, _ => .error .assert_exception

def leave_rating (o : LeaveRatingAndComment) (s : Store) : Except Fault Store := do
  o.validate
  leave_rating_evaluate o s
  leave_rating_apply o s

/-- What other operations do: contents are entered without a rating, buyings come and are
    delivered, and no content is rated. -/
structure Unrated (s s' : Store) : Prop where
  kept : ∀ {URI co}, s.contents.find? URI = some co → s'.contents.find? URI = some co
  new : ∀ {URI co}, s'.contents.find? URI = some co → s.contents.find? URI = none → co = ⟨0,0⟩

/-- The states of all runs, each with the ratings that every content was given. -/
inductive Rated : Store → (String → List Nat) → Prop
  | start : Rated ⟨.empty,.empty⟩ fun _ => []
  | rate {s s' : Store} {ratings : String → List Nat} {o : LeaveRatingAndComment} (before : Rated s ratings)
      (ran : leave_rating o s = .ok s') :
      Rated s' fun URI => if URI = o.URI then ratings URI ++ [o.rating.toNat] else ratings URI
  | other {s s' : Store} {ratings : String → List Nat} (before : Rated s ratings) (unrated : Unrated s s') : Rated s' ratings

/-! ### What the divisions drop -/

/-- The average after some more ratings, in numbers of any size. -/
def averaged (avg n : Nat) : List Nat → Nat
  | [] => avg
  | r :: rest => averaged ((avg * n + r * 1000) / (n + 1)) (n + 1) rest

/-- The remainders of the divisions, added up. -/
def dropped (avg n : Nat) : List Nat → Nat
  | [] => 0
  | r :: rest => (avg * n + r * 1000) % (n + 1) + dropped ((avg * n + r * 1000) / (n + 1)) (n + 1) rest

theorem averaged_append (avg n : Nat) (first second : List Nat) :
    averaged avg n (first ++ second) = averaged (averaged avg n first) (n + first.length) second := by
  induction first generalizing avg n with
  | nil => rfl
  | cons r rest ih =>
    rw [List.cons_append,averaged,ih,averaged,List.length_cons]
    congr 1
    omega

/-- Nothing is lost but what is dropped. -/
theorem averaged_dropped (avg n : Nat) (ratings : List Nat) :
    averaged avg n ratings * (n + ratings.length) + dropped avg n ratings = avg * n + ratings.sum * 1000 := by
  induction ratings generalizing avg n with
  | nil => simp [averaged,dropped]
  | cons r rest ih =>
    have here := Nat.div_add_mod' (avg * n + r * 1000) (n + 1)
    have later := ih ((avg * n + r * 1000) / (n + 1)) (n + 1)
    rw [averaged,dropped,List.sum_cons,List.length_cons,show n + (rest.length + 1) = n + 1 + rest.length by omega]
    omega

theorem averaged_le {bound : Nat} {ratings : List Nat} (most : ∀ r ∈ ratings, r * 1000 ≤ bound) :
    ∀ {avg : Nat} (n : Nat), avg ≤ bound → averaged avg n ratings ≤ bound := by
  induction ratings with
  | nil => exact fun _ below => below
  | cons r rest ih =>
    intro avg n below
    refine ih (fun r member => most r (List.mem_cons_of_mem _ member)) (n + 1) ?_
    refine Nat.div_le_of_le_mul ?_
    rw [Nat.add_mul,Nat.one_mul,Nat.mul_comm avg]
    exact Nat.add_le_add (Nat.mul_le_mul_left _ below) (most r List.mem_cons_self)

/-! ### Every run -/

/-- What a content has of its ratings. -/
structure Tallied (ratings : List Nat) (co : Content) : Prop where
  given : ∀ r ∈ ratings, 1 ≤ r ∧ r ≤ 5
  counted : co.num_of_ratings.toNat = ratings.length
  average : co.AVG_rating.toNat = averaged 0 0 ratings

theorem Tallied.average_le {ratings : List Nat} {co : Content} (tallied : Tallied ratings co) : co.AVG_rating.toNat ≤ 5000 := by
  rw [tallied.average]
  exact averaged_le (fun r member => by have := (tallied.given r member).2; omega) 0 (Nat.zero_le _)

/-- No product wraps. -/
theorem Tallied.rate {ratings : List Nat} {co co' : Content} {rating : UInt64} (tallied : Tallied ratings co)
    (least : 0 < rating) (most : rating ≤ 5) (ran : co.rate rating = .ok co') : Tallied (ratings ++ [rating.toNat]) co' := by
  have least : 1 ≤ rating.toNat := UInt64.lt_iff_toNat_lt.mp least
  have most : rating.toNat ≤ 5 := UInt64.le_iff_toNat_le.mp most
  have given : ∀ r ∈ ratings ++ [rating.toNat], 1 ≤ r ∧ r ≤ 5 := by
    intro r member
    rcases List.mem_append.mp member with old | new
    · exact tallied.given r old
    · rw [List.mem_singleton.mp new]
      exact ⟨least,most⟩
  have scaled : (rating * 1000).toNat = rating.toNat * 1000 := by
    rw [UInt64.toNat_mul]
    exact Nat.mod_eq_of_lt (by show rating.toNat * 1000 < 2^64; omega)
  have next := averaged_append 0 0 ratings [rating.toNat]
  rw [Nat.zero_add,← tallied.average,← tallied.counted] at next
  simp only [averaged] at next
  unfold Content.rate at ran
  split at ran
  case isTrue none =>
    cases ran
    refine ⟨given,?_,?_⟩
    · rw [List.length_append,← tallied.counted,none]
      rfl
    · rw [next,none,scaled]
      simp
  case isFalse some =>
    split at ran
    · cases ran
    case isFalse room =>
      cases ran
      have below : co.num_of_ratings.toNat + 1 < 2^32 := by
        have fits := co.num_of_ratings.toNat_lt
        by_contra full
        refine room (UInt32.toNat_inj.mp ?_)
        rw [UInt32.toNat_add]
        show (co.num_of_ratings.toNat + 1) % 2^32 = 0
        omega
      have incremented : (co.num_of_ratings + 1).toNat = co.num_of_ratings.toNat + 1 := by
        rw [UInt32.toNat_add]
        exact Nat.mod_eq_of_lt below
      have product : co.AVG_rating.toNat * co.num_of_ratings.toNat ≤ 5000 * 2^32 :=
        Nat.mul_le_mul tallied.average_le (by omega)
      refine ⟨given,?_,?_⟩
      · rw [List.length_append,← tallied.counted]
        exact incremented
      · have sum : (co.AVG_rating * co.num_of_ratings.toUInt64 + rating * 1000).toNat =
            co.AVG_rating.toNat * co.num_of_ratings.toNat + rating.toNat * 1000 := by
          rw [UInt64.toNat_add,UInt64.toNat_mul,scaled,UInt32.toNat_toUInt64,Nat.mod_eq_of_lt (a := _ * _) (by omega)]
          exact Nat.mod_eq_of_lt (by omega)
        rw [next,UInt64.toNat_div,sum,UInt32.toNat_toUInt64,incremented]

theorem fc_assert_ok {c : Prop} [Decidable c] {u : Unit} : fc_assert c = .ok u ↔ c := by
  unfold fc_assert
  split <;> simp_all

theorem bind_ok {α β : Type} {x : Except Fault α} {f : α → Except Fault β} {b : β} :
    x >>= f = .ok b ↔ ∃ a, x = .ok a ∧ f a = .ok b := by
  cases x with
  | ok a => exact ⟨fun ran => ⟨a,rfl,ran⟩,fun ⟨_,same,ran⟩ => by cases same; exact ran⟩
  | error e => exact ⟨(nomatch ·),fun ⟨_,same,_⟩ => nomatch same⟩

/-- An accepted rating is one of a content, and writes to it alone. -/
theorem leave_rating_ok {o : LeaveRatingAndComment} {s s' : Store} (ran : leave_rating o s = .ok s') :
    0 < o.rating ∧ o.rating ≤ 5 ∧ ∃ co co', s.contents.find? o.URI = some co ∧ co.rate o.rating = .ok co' ∧
      s'.contents = s.contents.put o.URI co' := by
  simp only [leave_rating,bind_ok,LeaveRatingAndComment.validate,fc_assert_ok] at ran
  obtain ⟨_,⟨_,_,_,⟨least,most⟩,_⟩,_,-,applied⟩ := ran
  refine ⟨least,most,?_⟩
  unfold leave_rating_apply at applied
  split at applied
  case h_1 co bo found bought =>
    obtain ⟨co',rated,stored⟩ := bind_ok.mp applied
    cases stored
    exact ⟨co,co',found,rated,rfl⟩
  case h_2 => cases applied

theorem Rated.tallied {s : Store} {ratings : String → List Nat} (rated : Rated s ratings) :
    (∀ URI co, s.contents.find? URI = some co → Tallied (ratings URI) co) ∧
      ∀ URI, s.contents.find? URI = none → ratings URI = [] := by
  induction rated with
  | start => exact ⟨fun _ _ found => (nomatch found),fun _ _ => rfl⟩
  | rate _ ran ih =>
    obtain ⟨least,most,co,co',found,scored,stored⟩ := leave_rating_ok ran
    constructor
    · intro URI c here
      rw [stored,Table.find?_put] at here
      dsimp only
      split at here
      case isTrue same =>
        cases here
        rw [if_pos same,same]
        exact (ih.1 _ co found).rate least most scored
      case isFalse other =>
        rw [if_neg other]
        exact ih.1 URI c here
    · intro URI missing
      rw [stored,Table.find?_put] at missing
      dsimp only
      split at missing
      case isTrue => cases missing
      case isFalse other =>
        rw [if_neg other]
        exact ih.2 URI missing
  | @other s s' _ _ unrated ih =>
    constructor
    · intro URI c here
      cases before : s.contents.find? URI with
      | some co =>
        rw [unrated.kept before] at here
        cases here
        exact ih.1 URI _ before
      | none =>
        rw [unrated.new here before,ih.2 URI before]
        exact ⟨nofun,rfl,rfl⟩
    · intro URI missing
      cases before : s.contents.find? URI with
      | some co =>
        rw [unrated.kept before] at missing
        cases missing
      | none => exact ih.2 URI before

/-- The average is that of numbers of any size, and it is within one of the true average exactly
    as long as the divisions dropped less than the number of ratings. -/
theorem average_rating_accurate (s : Store) (ratings : String → List Nat) (rated : Rated s ratings) (URI : String)
    (co : Content) (found : s.contents.find? URI = some co) (some : ratings URI ≠ []) :
    co.AVG_rating.toNat = averaged 0 0 (ratings URI) ∧
      (|(co.AVG_rating.toNat : ℚ) - 1000 * (ratings URI).sum / (ratings URI).length| < 1 ↔
        dropped 0 0 (ratings URI) < (ratings URI).length) := by
  have tallied := rated.tallied.1 URI co found
  refine ⟨tallied.average,?_⟩
  have identity := averaged_dropped 0 0 (ratings URI)
  rw [← tallied.average,Nat.zero_mul,Nat.zero_add,Nat.zero_add] at identity
  have positive : (0 : ℚ) < (ratings URI).length := by
    exact_mod_cast List.length_pos_iff.mpr some
  have identity : (co.AVG_rating.toNat : ℚ) * (ratings URI).length + dropped 0 0 (ratings URI) =
      (ratings URI).sum * 1000 := by exact_mod_cast identity
  have error : (co.AVG_rating.toNat : ℚ) - 1000 * (ratings URI).sum / (ratings URI).length =
      -(dropped 0 0 (ratings URI) / (ratings URI).length) := by
    field_simp
    linarith
  have nonneg : (0 : ℚ) ≤ dropped 0 0 (ratings URI) / (ratings URI).length :=
    div_nonneg (Nat.cast_nonneg _) positive.le
  rw [error,abs_neg,abs_of_nonneg nonneg,div_lt_one positive]
  exact Nat.cast_lt

/-! ### Seven ratings -/

/-- A content that was delivered to seven consumers. -/
def delivered_store : Store where
  contents := Table.empty.put "ipfs:rated" ⟨0,0⟩
  buyings := (List.range 7).foldl (fun t consumer => t.put (consumer,"ipfs:rated") ⟨true,false,0,""⟩) Table.empty

/-- The consumers rate it, one after the other. -/
def rate_all : Nat → List UInt64 → Store → Except Fault Store
  | _, [], s => .ok s
  | consumer, rating :: rest, s => do
    let s ← leave_rating ⟨0,"ipfs:rated",consumer,rating,""⟩ s
    rate_all (consumer + 1) rest s

theorem rated_delivered : Rated delivered_store fun _ => [] := by
  refine Rated.start.other ⟨(nomatch ·),fun {URI co} found _ => ?_⟩
  have found : ((Table.empty : Table String Content).put "ipfs:rated" ⟨0,0⟩).find? URI = some co := found
  rw [Table.find?_put] at found
  split at found
  · cases found
    rfl
  · cases found

theorem rated_rate_all {scores : List UInt64} : ∀ {consumer : Nat} {s s' : Store} {ratings : String → List Nat},
    Rated s ratings → rate_all consumer scores s = .ok s' → ∃ ratings', Rated s' ratings' ∧
      ratings' "ipfs:rated" = ratings "ipfs:rated" ++ scores.map UInt64.toNat := by
  induction scores with
  | nil =>
    intro _ _ _ ratings before ran
    cases ran
    exact ⟨ratings,before,(List.append_nil _).symm⟩
  | cons rating rest ih =>
    intro _ _ _ ratings before ran
    obtain ⟨_,first,ran⟩ := bind_ok.mp ran
    obtain ⟨ratings',rated,same⟩ := ih (before.rate first) ran
    refine ⟨ratings',rated,same.trans ?_⟩
    dsimp only
    rw [if_pos rfl,List.append_assoc]
    rfl

def seven_scores : List UInt64 := [1,1,2,1,1,1,5]

theorem seven_rated : ∃ s ratings co, Rated s ratings ∧ s.contents.find? "ipfs:rated" = some co ∧
    ratings "ipfs:rated" = [1,1,2,1,1,1,5] ∧ co.AVG_rating.toNat = 1712 := by
  have read : (rate_all 0 seven_scores delivered_store).toOption.map (·.contents.find? "ipfs:rated") = some (some ⟨1712,7⟩) := by
    decide +kernel
  cases ran : rate_all 0 seven_scores delivered_store with
  | error e =>
    rw [ran] at read
    cases read
  | ok s =>
    rw [ran] at read
    obtain ⟨ratings,rated,same⟩ := rated_rate_all rated_delivered ran
    exact ⟨s,ratings,_,rated,Option.some.inj read,same,rfl⟩

/-- Their average is 12 / 7, and 1712 thousandths are more than two short of it. -/
theorem average_rating_inaccurate : ¬ ∀ s ratings, Rated s ratings → ∀ URI co, s.contents.find? URI = some co →
    ratings URI ≠ [] → |(co.AVG_rating.toNat : ℚ) - 1000 * (ratings URI).sum / (ratings URI).length| < 1 := by
  intro always
  obtain ⟨s,ratings,co,rated,found,same,average⟩ := seven_rated
  have close := always s ratings rated "ipfs:rated" co found (by rw [same]; decide)
  rw [same,average] at close
  norm_num at close

theorem average_rating_seven : ∃ (s : Store) (ratings : String → List Nat) (co : Content), s.contents.find? "ipfs:rated" = some co ∧
    (|(co.AVG_rating.toNat : ℚ) - 1000 * (ratings "ipfs:rated").sum / (ratings "ipfs:rated").length| < 1 ↔
      dropped 0 0 (ratings "ipfs:rated") < (ratings "ipfs:rated").length) := by
  obtain ⟨s,ratings,co,rated,found,same,-⟩ := seven_rated
  exact ⟨s,ratings,co,found,(average_rating_accurate s ratings rated "ipfs:rated" co found (by rw [same]; decide)).2⟩

/-- Up to three ratings too little is dropped to matter. -/
theorem dropped_few {ratings : List Nat} (some : ratings ≠ []) (few : ratings.length ≤ 3) :
    dropped 0 0 ratings < ratings.length := by
  match ratings, some, few with
  | [a], _, _ => simp [dropped,Nat.mod_one]
  | [a,b], _, _ =>
    simp only [dropped,List.length_cons,List.length_nil]
    omega
  | [a,b,c], _, _ =>
    simp only [dropped,List.length_cons,List.length_nil]
    omega

end Decent.Ratings

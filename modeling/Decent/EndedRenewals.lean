import Mathlib.Data.Prod.Lex
import Decent.Lib.Loops
import Decent.Lib.Ordered
import Decent.Renewal

/-!
The automatic renewals that new terms of an author end. The update goes through the range of the
index `by_to_renewal` that has the author and the flag, and takes the flag of each element: the key
of the range changes under the iterators.
-/
namespace Decent.Money
open Loops

/-! ### The index -/

/-- The key of `by_to_renewal`. -/
def to_renewal (s : Subscription) : AccountId ×ₗ Bool := toLex (s.to_account,s.automatic_renewal)

/-- What a change of one subscription makes of each. -/
def changed (id : Nat) (f : Subscription → Subscription) (s : Subscription) : Subscription :=
  if s.id = id then { f s with id := s.id } else s

theorem Subscriptions.modify_perm (t : Subscriptions) (id : Nat) (f : Subscription → Subscription) :
    (t.modify id f).order.Perm (t.order.map (changed id f)) := by
  have unchanged : ∀ l : List Subscription, (∀ s ∈ l, s.id ≠ id) → l.map (changed id f) = l := by
    intro l other
    exact (List.map_congr_left fun s member => if_neg (other s member)).trans (List.map_id l)
  show (modify_order id f t.order).Perm _
  rcases modify_order_cases id f t.order with ⟨same,other⟩ | ⟨before,s,after,split,here,other,placed⟩
  · rw [same,unchanged _ other]
  · have distinct := t.distinct
    rw [split,List.map_append,List.map_cons] at distinct
    have behind : ∀ u ∈ after, u.id ≠ id := fun u member same =>
      (List.nodup_cons.mp (List.nodup_append.mp distinct).2.1).1 (by rw [here,← same]; exact List.mem_map_of_mem member)
    rw [placed,split,List.map_append,List.map_cons,unchanged before other,unchanged after behind,changed,if_pos here]
    exact place_perm _ _ _

/-- A ledger with the second index of its subscriptions. -/
structure IndexedLedger where
  ledger : Ledger
  by_to_renewal : List Subscription
  same : by_to_renewal.Perm ledger.subscriptions.order
  sorted : Ordered.Sorted to_renewal by_to_renewal

namespace IndexedLedger

/-- Every ledger has such an index. -/
def of (L : Ledger) : IndexedLedger :=
  ⟨L,Ordered.link_all to_renewal L.subscriptions.order,Ordered.link_all_perm _,Ordered.sorted_link_all _⟩

theorem distinct (S : IndexedLedger) : (S.by_to_renewal.map (·.id)).Nodup :=
  ((S.same.map _).nodup_iff).mpr S.ledger.subscriptions.distinct

def modify_subscription (S : IndexedLedger) (id : Nat) (f : Subscription → Subscription) : IndexedLedger where
  ledger := { S.ledger with subscriptions := S.ledger.subscriptions.modify id f }
  by_to_renewal := Ordered.modify to_renewal Subscription.id id (fun s => { f s with id := s.id }) S.by_to_renewal
  same := (Ordered.modify_perm S.distinct _ _).trans
    ((S.same.map _).trans (S.ledger.subscriptions.modify_perm id f).symm)
  sorted := Ordered.sorted_modify S.sorted _ _

def push_applied_operation (S : IndexedLedger) (op : VirtualOperation) : IndexedLedger :=
  { S with ledger := { S.ledger with applied := op :: S.ledger.applied } }

/-! ### The update -/

/-- What the loop does with an element. -/
def disallow (S : IndexedLedger) (element : Subscription) : IndexedLedger :=
  (S.modify_subscription element.id fun so => { so with automatic_renewal := false }).push_applied_operation
    (.disallow_automatic_renewal_of_subscription element.from_account element.id)

/-- One pass of `std::for_each`, with the two iterators; the first one has the place of its element after the
    change. -/
def for_each_pass (last : Option Nat) :
    IndexedLedger × Option Nat → Option ((IndexedLedger × Option Nat) ⊕ Except Fault IndexedLedger)
  | (S,first) =>
    if first = last then some (.inr (.ok S))
    else match first with
      | none => some (.inr (.error .end_iterator))
      | some id =>
        match S.by_to_renewal.find? (·.id = id) with
        | none => some (.inr (.error .end_iterator))
        | some element =>
          let S := S.disallow element
          some (.inl (S,Ordered.next Subscription.id id S.by_to_renewal))

/-- The loop over the range of an author; none where the passes are not enough. -/
def disallow_range (S : IndexedLedger) (author : AccountId) (fuel : Nat) : Option (Except Fault IndexedLedger) :=
  let first := (Ordered.lower_bound to_renewal (toLex (author,true)) S.by_to_renewal).head?.map (·.id)
  let last := (Ordered.upper_bound to_renewal (toLex (author,true)) S.by_to_renewal).head?.map (·.id)
  loop (for_each_pass last) fuel (S,first)

def update_options (S : IndexedLedger) (account : AccountId) (options : AccountOptions) : IndexedLedger :=
  { S with ledger := { S.ledger with accounts := S.ledger.accounts.update account fun a => { a with options := options } } }

end IndexedLedger

/-- Whether the options are new terms for the subscribers. -/
def NewTerms (old options : AccountOptions) : Prop :=
  options.allow_subscription = false ∨ old.price_per_subscribe ≠ options.price_per_subscribe ∨
    old.subscription_period ≠ options.subscription_period

instance (old options : AccountOptions) : Decidable (NewTerms old options) := inferInstanceAs (Decidable (_ ∨ _))

/-- `account_update_evaluator::do_apply`, for the account that was found before. -/
def account_update_do_apply (o : AccountUpdateOperation) (acnt : Account) (S : IndexedLedger) (fuel : Nat) :
    Option (Except Fault IndexedLedger) :=
  match o.new_options with
  | none => some (.ok S)
  | some options =>
    if NewTerms acnt.options options then
      (S.disallow_range o.account fuel).map fun r => r.map (·.update_options o.account options)
    else some (.ok (S.update_options o.account options))

/-! ### The loop -/

/-- A key below that of the flagged subscriptions to an author is not above that of the others to it. -/
theorem below_flag {key : AccountId ×ₗ Bool} {author : AccountId} (below : key < toLex (author,true)) :
    key ≤ toLex (author,false) := by
  rcases Prod.Lex.lt_iff.mp below with earlier | ⟨same,flag⟩
  · exact Prod.Lex.le_iff.mpr (.inl earlier)
  · refine Prod.Lex.le_iff.mpr (.inr ⟨same,?_⟩)
    change (ofLex key).2 < true at flag
    show (ofLex key).2 ≤ false
    revert flag
    cases (ofLex key).2 <;> decide

theorem off_le_flag (author : AccountId) : (toLex (author,false) : AccountId ×ₗ Bool) ≤ toLex (author,true) :=
  Prod.Lex.le_iff.mpr (.inr ⟨rfl,Bool.false_le true⟩)

theorem flag_off {s : Subscription} {author : AccountId} (here : to_renewal s = toLex (author,true)) :
    to_renewal { s with automatic_renewal := false } = toLex (author,false) := by
  have same : s.to_account = author := congrArg (fun k => (ofLex k).1) here
  rw [to_renewal,same]

namespace IndexedLedger

/-- The first element of the range stays at its place, where it is the last before the range. -/
theorem disallow_order {S : IndexedLedger} {front after : List Subscription} {s : Subscription} {author : AccountId}
    (order : S.by_to_renewal = front ++ s :: after) (here : to_renewal s = toLex (author,true))
    (low : ∀ u ∈ front, to_renewal u < toLex (author,true)) (high : ∀ u ∈ after, toLex (author,true) ≤ to_renewal u) :
    (S.disallow s).by_to_renewal = front ++ { s with automatic_renewal := false } :: after := by
  have distinct := S.distinct
  rw [order] at distinct
  have off := flag_off here
  show Ordered.modify to_renewal Subscription.id s.id _ S.by_to_renewal = _
  rw [order,Ordered.modify_at distinct]
  refine Ordered.place_stays (fun u member => ?_) fun u member => ?_
  · exact (below_flag (low u member)).trans_eq off.symm
  · exact off.trans_le ((off_le_flag author).trans (high u member))

/-- A pass at an element of the index. -/
theorem for_each_goes {S : IndexedLedger} {last : Option Nat} {s : Subscription} (member : s ∈ S.by_to_renewal)
    (inside : some s.id ≠ last) : for_each_pass last (S,some s.id) =
      some (.inl (S.disallow s,Ordered.next Subscription.id s.id (S.disallow s).by_to_renewal)) := by
  have found : S.by_to_renewal.find? (·.id = s.id) = some s := by
    cases found : S.by_to_renewal.find? (·.id = s.id) with
    | none => exact absurd (List.find?_eq_none.mp found s member) (by simp)
    | some u =>
      have same : u.id = s.id := by simpa using List.find?_some found
      rw [List.inj_on_of_nodup_map S.distinct (List.mem_of_find?_eq_some found) member same]
  simp only [for_each_pass,if_neg inside,found]

/-- A pass at an element that stays at its place goes on to the one behind it. -/
theorem for_each_onward {S : IndexedLedger} {last : Option Nat} {front rest : List Subscription} {s : Subscription}
    (order : S.by_to_renewal = front ++ s :: rest)
    (placed : (S.disallow s).by_to_renewal = front ++ { s with automatic_renewal := false } :: rest) (inside : some s.id ≠ last) :
    for_each_pass last (S,some s.id) = some (.inl (S.disallow s,rest.head?.map (·.id))) := by
  have distinct := (S.disallow s).distinct
  rw [placed] at distinct
  have behind : Ordered.next Subscription.id s.id (S.disallow s).by_to_renewal = rest.head?.map (·.id) := by
    rw [placed]
    exact Ordered.next_at (a := { s with automatic_renewal := false }) distinct
  rw [for_each_goes (by rw [order]; simp) inside,behind]

/-- Every element of the range is visited once, in the order of the range. -/
theorem for_each_range {author : AccountId} {after : List Subscription} (high : ∀ u ∈ after, toLex (author,true) < to_renewal u)
    (fuel : Nat) (range front : List Subscription) (S : IndexedLedger) (order : S.by_to_renewal = front ++ (range ++ after))
    (low : ∀ u ∈ front, to_renewal u < toLex (author,true)) (flagged : ∀ u ∈ range, to_renewal u = toLex (author,true)) :
    loop (for_each_pass (after.head?.map (·.id))) (range.length + (fuel + 1)) (S,(range ++ after).head?.map (·.id)) =
      some (.ok (range.foldl disallow S)) := by
  induction range generalizing front S with
  | nil =>
    have leaves : for_each_pass (after.head?.map (·.id)) (S,after.head?.map (·.id)) = some (.inr (.ok S)) := if_pos rfl
    rw [List.length_nil,Nat.zero_add,List.nil_append,loop_done leaves,List.foldl_nil]
  | cons s range ih =>
    have here : to_renewal s = toLex (author,true) := flagged s List.mem_cons_self
    rw [List.cons_append] at order
    have distinct := S.distinct
    rw [order] at distinct
    have placed := disallow_order order here low fun u member => by
      rcases List.mem_append.mp member with inside | behind
      · exact (flagged u (List.mem_cons_of_mem s inside)).ge
      · exact (high u behind).le
    have inside : some s.id ≠ after.head?.map (·.id) := by
      intro same
      obtain ⟨u,first,same⟩ := Option.map_eq_some_iff.mp same.symm
      have later : u ∈ range ++ after := List.mem_append_right _ (List.mem_of_head? first)
      rw [List.map_append,List.map_cons] at distinct
      exact (List.nodup_cons.mp (List.nodup_append.mp distinct).2.1).1 (by rw [← same]; exact List.mem_map_of_mem later)
    have goes := for_each_onward order placed inside
    have fewer : (s :: range).length + (fuel + 1) = range.length + (fuel + 1) + 1 := by
      rw [List.length_cons]
      omega
    rw [fewer,List.cons_append,List.head?_cons,Option.map_some,loop_next goes,List.foldl_cons]
    refine ih (front ++ [{ s with automatic_renewal := false }]) (S.disallow s) ?_ ?_
      fun u member => flagged u (List.mem_cons_of_mem s member)
    · rw [placed,List.append_assoc,List.singleton_append]
    · -- The element is now below the range.
      intro u member
      rcases List.mem_append.mp member with before | last
      · exact low u before
      · rw [List.mem_singleton.mp last,flag_off here]
        exact Prod.Lex.lt_iff.mpr (.inr ⟨rfl,Bool.false_lt_true⟩)

/-! ### What the loop leaves -/

/-- The virtual operation for an element. -/
def disallowed_operation (s : Subscription) : VirtualOperation :=
  .disallow_automatic_renewal_of_subscription s.from_account s.id

theorem applied_disallows (range : List Subscription) (S : IndexedLedger) :
    (range.foldl disallow S).ledger.applied = (range.map disallowed_operation).reverse ++ S.ledger.applied := by
  induction range generalizing S with
  | nil => rfl
  | cons s range ih =>
    rw [List.foldl_cons,ih,List.map_cons,List.reverse_cons,List.append_assoc]
    rfl

theorem order_disallows (range : List Subscription) (S : IndexedLedger) :
    (range.foldl disallow S).ledger.subscriptions.order.Perm (S.ledger.subscriptions.order.map fun s =>
      if s.id ∈ range.map (·.id) then { s with automatic_renewal := false } else s) := by
  induction range generalizing S with
  | nil => simp
  | cons s range ih =>
    have first := S.ledger.subscriptions.modify_perm s.id fun so => { so with automatic_renewal := false }
    refine (ih (S.disallow s)).trans ((first.map _).trans ?_)
    rw [List.map_map]
    refine .of_eq (List.map_congr_left fun u _ => ?_)
    by_cases here : u.id = s.id
    · simp [changed,here]
    · simp [changed,here]

/-- The loop ends the automatic renewals to the author, once each. -/
theorem disallow_range_ends (S : IndexedLedger) (author : AccountId) :
    ∃ range : List Subscription,
      (∀ fuel, S.by_to_renewal.length < fuel → S.disallow_range author fuel = some (.ok (range.foldl disallow S))) ∧
      range.Perm (S.ledger.subscriptions.order.filter fun s => s.to_account = author ∧ s.automatic_renewal = true) := by
  obtain ⟨before,range,after,split,lower,upper,low,flagged,high⟩ := Ordered.equal_range to_renewal S.sorted (toLex (author,true))
  refine ⟨range,fun fuel enough => ?_,?_⟩
  · obtain ⟨more,rfl⟩ : ∃ more, fuel = range.length + (more + 1) := by
      rw [split,List.length_append,List.length_append] at enough
      exact ⟨fuel - range.length - 1,by omega⟩
    unfold disallow_range
    rw [lower,upper]
    exact for_each_range high more range before S split low flagged
  · have key_iff : ∀ s, (s.to_account = author ∧ s.automatic_renewal = true) ↔ to_renewal s = toLex (author,true) := by
      intro s
      rw [to_renewal,toLex_inj,Prod.mk.injEq]
    refine .trans (.of_eq ?_) (S.same.filter _)
    rw [split,List.filter_append,List.filter_append]
    have front : before.filter (fun s => s.to_account = author ∧ s.automatic_renewal = true) = [] :=
      List.filter_eq_nil_iff.mpr fun s member => by simpa [key_iff s] using (low s member).ne
    have inside : range.filter (fun s => s.to_account = author ∧ s.automatic_renewal = true) = range :=
      List.filter_eq_self.mpr fun s member => by simpa [key_iff s] using flagged s member
    have behind : after.filter (fun s => s.to_account = author ∧ s.automatic_renewal = true) = [] :=
      List.filter_eq_nil_iff.mpr fun s member => by simpa [key_iff s] using (high s member).ne'
    rw [front,inside,behind,List.nil_append,List.append_nil]

/-- On the ledger the loop does what `disallow_renewals` does with its list. -/
theorem ledger_disallows (range : List Subscription) (S : IndexedLedger) :
    EStateM.run (disallow_renewals range) S.ledger = .ok () (range.foldl disallow S).ledger := by
  induction range generalizing S with
  | nil => rfl
  | cons s range ih => exact ih (S.disallow s)

end IndexedLedger

/-- New terms end the automatic renewals to the author, each with one virtual operation, and leave all other
    subscriptions as they were. -/
theorem new_terms_end_renewals (S : IndexedLedger) (o : AccountUpdateOperation) (acnt : Account) (options : AccountOptions)
    (given : o.new_options = some options) (terms : NewTerms acnt.options options) :
    ∃ (S' : IndexedLedger) (ended : List Subscription),
      (∀ fuel, S.by_to_renewal.length < fuel → account_update_do_apply o acnt S fuel = some (.ok S')) ∧
      (∀ s ∈ S'.ledger.subscriptions.order, s.to_account = o.account → s.automatic_renewal = false) ∧
      S'.ledger.subscriptions.order.Perm (S.ledger.subscriptions.order.map fun s =>
        if s.to_account = o.account ∧ s.automatic_renewal = true then { s with automatic_renewal := false } else s) ∧
      ended.Perm (S.ledger.subscriptions.order.filter fun s => s.to_account = o.account ∧ s.automatic_renewal = true) ∧
      S'.ledger.applied = (ended.map IndexedLedger.disallowed_operation).reverse ++ S.ledger.applied := by
  obtain ⟨range,ran,visited⟩ := S.disallow_range_ends o.account
  have in_range : ∀ s ∈ S.ledger.subscriptions.order,
      s.id ∈ range.map (·.id) ↔ s.to_account = o.account ∧ s.automatic_renewal = true := by
    intro s member
    have exactly : ∀ u, u ∈ range ↔ u ∈ S.ledger.subscriptions.order ∧ u.to_account = o.account ∧ u.automatic_renewal = true := by
      intro u
      rw [visited.mem_iff,List.mem_filter,decide_eq_true_iff]
    constructor
    · intro named
      obtain ⟨u,inside,same⟩ := List.mem_map.mp named
      obtain ⟨member',flagged⟩ := (exactly u).mp inside
      rw [List.inj_on_of_nodup_map S.ledger.subscriptions.distinct member' member same] at flagged
      exact flagged
    · intro flagged
      exact List.mem_map_of_mem ((exactly s).mpr ⟨member,flagged⟩)
  have left : (range.foldl IndexedLedger.disallow S).ledger.subscriptions.order.Perm
      (S.ledger.subscriptions.order.map fun s =>
        if s.to_account = o.account ∧ s.automatic_renewal = true then { s with automatic_renewal := false } else s) :=
    (IndexedLedger.order_disallows range S).trans
      (.of_eq (List.map_congr_left fun s member => by simp only [in_range s member]))
  refine ⟨(range.foldl IndexedLedger.disallow S).update_options o.account options,range,fun fuel enough => ?_,?_,left,visited,
    IndexedLedger.applied_disallows range S⟩
  · simp only [account_update_do_apply,given,if_pos terms,ran fuel enough]
    rfl
  · intro s member author
    obtain ⟨u,-,rfl⟩ := List.mem_map.mp (left.mem_iff.mp member)
    by_cases flagged : u.to_account = o.account ∧ u.automatic_renewal = true
    · rw [if_pos flagged]
    · rw [if_neg flagged] at author ⊢
      exact Bool.eq_false_iff.mpr fun on => flagged ⟨author,on⟩

/-- Account 4 doubles its price while two subscriptions renew. -/
theorem new_terms_end_renewals_two : ∃ (S' : IndexedLedger) (ended : List Subscription),
    account_update_do_apply ⟨⟨0,core⟩,4,some { author_options with price_per_subscribe := ⟨20,core⟩ }⟩ ⟨author_options⟩
      (IndexedLedger.of (after_actions two_renewals)) 3 = some (.ok S') ∧ ended.length = 2 ∧
      ∀ s ∈ S'.ledger.subscriptions.order, s.to_account = 4 → s.automatic_renewal = false := by
  obtain ⟨S',ended,ran,off,-,visited,-⟩ := new_terms_end_renewals (IndexedLedger.of (after_actions two_renewals))
    ⟨⟨0,core⟩,4,some { author_options with price_per_subscribe := ⟨20,core⟩ }⟩ ⟨author_options⟩ _ rfl (by decide)
  exact ⟨S',ended,ran 3 (by decide +kernel),visited.length_eq.trans (by decide +kernel),off⟩

end Decent.Money

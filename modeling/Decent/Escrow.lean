import Decent.Aside

/-!
The escrow of a buying over a whole run. It waits until enough keys are delivered or its
time is over; then it goes to the author and the co-authors of the content, or back to the
consumer, once and in full.
-/
namespace Decent.Money
open Throwing

/-! ### What was paid -/

/-- What was paid for buying `id`. -/
def paid_for (L : Ledger) (id : Nat) : List Payment := L.payments.filter (·.buying = id)

def total_amount (payments : List Payment) : Int := (payments.map (·.amount.amount)).sum

/-- A part of the payout of buying `id` to one of the authors. -/
structure PayoutTo (id : Nat) (authors : List AccountId) (asset_id : AssetId) (p : Payment) : Prop where
  buying : p.buying = id
  payout : p.refund = false
  entitled : p.entitled = authors
  account : p.account ∈ authors
  asset : p.amount.asset_id = asset_id

theorem pay_escrow_ok {id : Nat} {refund : Bool} {entitled : List AccountId} {account : AccountId} {amount : Asset}
    {L L' : Ledger} {u : Unit} (ran : EStateM.run (pay_escrow id refund entitled account amount) L = .ok u L') :
    L' = { L with balances := L'.balances, payments := ⟨id,refund,entitled,account,amount⟩ :: L.payments } := by
  simp only [pay_escrow,run_bind_ok] at ran
  obtain ⟨_,L₁,adjusted,ran⟩ := ran
  cases ran
  rw [adjust_balance_frame adjusted]

theorem pay_co_authors_escrow {id : Nat} {authors : List AccountId} {amount : Asset} {rows : List (AccountId × Nat)} :
    ∀ {remaining left : Int} {L L' : Ledger}, (∀ row ∈ rows, row.1 ∈ authors) →
      EStateM.run (pay_co_authors (pay_escrow id false authors) amount rows remaining) L = .ok left L' →
      ∃ new, L' = { L with balances := L'.balances, payments := new ++ L.payments } ∧
        (∀ p ∈ new, PayoutTo id authors amount.asset_id p) ∧ total_amount new + left = remaining := by
  induction rows with
  | nil =>
    intro remaining left L L' _ ran
    cases ran
    exact ⟨[],rfl,by simp,Int.zero_add _⟩
  | cons row rest ih =>
    intro remaining left L L' known ran
    simp only [pay_co_authors,run_bind_ok,run_observe,reads_lift,checked_ok] at ran
    obtain ⟨_,L₁,paid,_,_,⟨⟨-,rfl⟩,rfl⟩,ran⟩ := ran
    obtain ⟨new,frame,payouts,sum⟩ := ih (fun r member => known r (List.mem_cons_of_mem _ member)) ran
    have first := pay_escrow_ok paid
    refine ⟨new ++ [⟨id,false,authors,row.1,⟨(product64 amount.amount row.2).tdiv 10000,amount.asset_id⟩⟩],?_,?_,?_⟩
    · rw [frame,first,List.append_assoc]
      rfl
    · intro p member
      rcases List.mem_append.mp member with inside | here
      · exact payouts p inside
      · rw [List.mem_singleton.mp here]
        exact ⟨rfl,rfl,rfl,known row List.mem_cons_self,rfl⟩
    · simp only [total_amount,List.map_append,List.sum_append,List.map_singleton,List.sum_singleton] at sum ⊢
      omega

/-- A payout is paid in full, to the authors only. -/
theorem content_payout_ok {id : Nat} {amount : Asset} {content : Content} {L L' : Ledger} {u : Unit}
    (ran : EStateM.run (content_payout id amount content) L = .ok u L') :
    ∃ new, L' = { L with balances := L'.balances, payments := new ++ L.payments } ∧
      (∀ p ∈ new, PayoutTo id content.authors amount.asset_id p) ∧
      total_amount new = amount.amount := by
  unfold content_payout at ran
  dsimp only at ran
  split at ran
  case isTrue =>
    refine ⟨[⟨id,false,content.authors,content.author,amount⟩],pay_escrow_ok ran,?_,by simp [total_amount]⟩
    intro p member
    rw [List.mem_singleton.mp member]
    exact ⟨rfl,rfl,rfl,List.mem_cons_self,rfl⟩
  case isFalse =>
    obtain ⟨left,L₁,shared,ran⟩ := run_bind_ok.mp ran
    have known : ∀ row ∈ content.co_authors.rows, row.1 ∈ content.authors :=
      fun row member => List.mem_cons_of_mem _ (List.mem_map_of_mem member)
    obtain ⟨new,frame,payouts,sum⟩ := pay_co_authors_escrow known shared
    unfold pay_author at ran
    split at ran
    case isFalse nothing =>
      cases ran
      have zero : left = 0 := by simpa using nothing
      exact ⟨new,frame,payouts,by omega⟩
    case isTrue =>
      simp only [run_bind_ok,run_observe,reads_lift,fc_assert_ok] at ran
      obtain ⟨_,_,⟨-,rfl⟩,ran⟩ := ran
      have last := pay_escrow_ok ran
      refine ⟨⟨id,false,content.authors,content.author,⟨left,amount.asset_id⟩⟩ :: new,?_,?_,?_⟩
      · rw [last,frame]
        rfl
      · intro p member
        rcases List.mem_cons.mp member with rfl | inside
        · exact ⟨rfl,rfl,rfl,List.mem_cons_self,rfl⟩
        · exact payouts p inside
      · simp only [total_amount,List.map_cons,List.sum_cons] at sum ⊢
        omega

/-! ### The life of a buying -/

/-- The contents of `L` are still there, under their names and by their authors. -/
def Named (L L' : Ledger) : Prop :=
  ∀ ⦃k c⦄, L.contents.find? k = some c → ∃ c', L'.contents.find? k = some c' ∧ c'.URI = c.URI ∧ c'.author = c.author

/-- A buying waits, or its escrow was paid out, or it was returned; the two ends exclude each
    other. A buying that a late delivery has expired is expired once more by the housekeeping,
    which then returns nothing. -/
inductive Lifecycle (L : Ledger) (id : Nat) (b : Buying) : Prop
  | waiting (undelivered : b.delivered = false) (unexpired : b.expired = false)
      (held : b.price = b.paid_price_after_exchange) (unpaid : paid_for L id = [])
  | delivered (delivered : b.delivered = true) (unexpired : b.expired = false) (released : b.price.amount = 0)
      (k : Nat) (content : Content) (bought : L.contents.find? k = some content ∧ content.URI = b.URI)
      (authors : List AccountId) (author : authors.head? = some content.author)
      (payouts : ∀ p ∈ paid_for L id, PayoutTo id authors b.paid_price_after_exchange.asset_id p)
      (sum : total_amount (paid_for L id) = b.paid_price_after_exchange.amount)
  | expired (undelivered : b.delivered = false) (expired : b.expired = true) (released : b.price.amount = 0)
      (again : List Payment)
      (refund : paid_for L id = again ++ [⟨id,true,[b.consumer],b.consumer,b.paid_price_after_exchange⟩])
      (nothing : ∀ p ∈ again, p.refund = true ∧ p.amount.amount = 0)

/-- Every buying lives so, and nothing was paid for buyings to come. -/
structure Kept (L : Ledger) : Prop where
  buyings : ∀ {id b}, L.buyings.find? id = some b → Lifecycle L id b
  payments : ∀ p ∈ L.payments, p.buying < L.buyings.next

theorem Lifecycle.congr {L L' : Ledger} {id : Nat} {b b' : Buying} (named : Named L L')
    (paid : paid_for L' id = paid_for L id)
    (same : b'.consumer = b.consumer ∧ b'.URI = b.URI ∧ b'.price = b.price ∧
      b'.paid_price_after_exchange = b.paid_price_after_exchange ∧ b'.expired = b.expired ∧ b'.delivered = b.delivered)
    (life : Lifecycle L id b) : Lifecycle L' id b' := by
  obtain ⟨consumer,name,price,after,expired,delivered⟩ := same
  cases life with
  | waiting undelivered unexpired held unpaid =>
    exact .waiting (delivered.trans undelivered) (expired.trans unexpired) (by rw [price,after,held]) (paid.trans unpaid)
  | delivered isDelivered unexpired released k content bought authors author payouts sum =>
    obtain ⟨c',found,uri,by_author⟩ := named bought.1
    exact .delivered (delivered.trans isDelivered) (expired.trans unexpired) (by rw [price,released]) k c'
      ⟨found,by rw [uri,bought.2,name]⟩ authors (by rw [author,by_author]) (by rw [paid,after]; exact payouts)
      (by rw [paid,after,sum])
  | expired undelivered isExpired released again refund nothing =>
    exact .expired (delivered.trans undelivered) (expired.trans isExpired) (by rw [price,released]) again
      (by rw [paid,refund,consumer,after]) nothing

/-- A step that changes one buying, pays for it and for no other. -/
theorem Kept.change {L L' : Ledger} (kept : Kept L) (id : Nat) (named : Named L L') (new : List Payment)
    (paid : L'.payments = new ++ L.payments) (own : ∀ p ∈ new, p.buying = id)
    (here : ∀ {b}, L'.buyings.find? id = some b → Lifecycle L' id b)
    (others : ∀ k, k ≠ id → L'.buyings.find? k = L.buyings.find? k) (inside : id < L'.buyings.next)
    (grown : L.buyings.next ≤ L'.buyings.next) : Kept L' where
  buyings := by
    intro k b found
    by_cases same : k = id
    · subst same
      exact here found
    · rw [others k same] at found
      refine (kept.buyings found).congr named ?_ ⟨rfl,rfl,rfl,rfl,rfl,rfl⟩
      have apart : new.filter (·.buying = k) = [] := by
        refine List.filter_eq_nil_iff.mpr fun p member => ?_
        simpa [own p member] using Ne.symm same
      rw [paid_for,paid,List.filter_append,apart,List.nil_append,paid_for]
  payments := by
    intro p member
    rw [paid] at member
    rcases List.mem_append.mp member with fresh | old
    · exact own p fresh ▸ inside
    · exact Nat.lt_of_lt_of_le (kept.payments p old) grown

/-- Buyings and payments stay. -/
structure Untouched (L L' : Ledger) : Prop where
  buyings : L'.buyings = L.buyings
  payments : L'.payments = L.payments
  named : Named L L'

theorem Kept.untouched {L L' : Ledger} (same : Untouched L L') (kept : Kept L) : Kept L' where
  buyings := by
    intro id b found
    rw [same.buyings] at found
    exact (kept.buyings found).congr same.named (by rw [paid_for,same.payments,paid_for]) ⟨rfl,rfl,rfl,rfl,rfl,rfl⟩
  payments := by
    rw [same.buyings,same.payments]
    exact kept.payments

theorem Named.refl (L : Ledger) : Named L L := fun _ _ found => ⟨_,found,rfl,rfl⟩

theorem Named.trans {L L₁ L₂ : Ledger} (first : Named L L₁) (second : Named L₁ L₂) : Named L L₂ := by
  intro k c found
  obtain ⟨c₁,found₁,uri,author⟩ := first found
  obtain ⟨c₂,found₂,uri',author'⟩ := second found₁
  exact ⟨c₂,found₂,uri'.trans uri,author'.trans author⟩

instance untouched_composes : Composes Untouched where
  refl L := ⟨rfl,rfl,.refl L⟩
  trans first second :=
    ⟨second.buyings.trans first.buyings,second.payments.trans first.payments,first.named.trans second.named⟩

theorem Aside.named {L L' : Ledger} (aside : Aside L L') : Named L L' := by
  intro k c found
  have same := aside.names k
  rw [found] at same
  cases found' : L'.contents.find? k with
  | none =>
    rw [found'] at same
    cases same
  | some c' =>
    rw [found'] at same
    obtain ⟨uri,author⟩ := Prod.mk.inj (Option.some.inj same)
    exact ⟨c',rfl,uri,author⟩

instance {α : Type} {x : M α} [within : Within Aside x] : Within Untouched x where
  keeps L := by
    have aside := within.keeps L
    exact ⟨aside.buyings,aside.payments,aside.named⟩

/-! ### Contents come and go -/

theorem untouched_modify_content {id : Nat} {f : Content → Content}
    (same : ∀ c, (f c).URI = c.URI ∧ (f c).author = c.author) : Within Untouched (modify_content id f) := by
  refine .modify fun L => ⟨rfl,rfl,?_⟩
  intro k c found
  show ∃ c', (L.contents.update id f).find? k = some c' ∧ _
  rw [Index.find?_update]
  split
  case isTrue here => exact ⟨f c,by rw [← here,found]; rfl,same c⟩
  case isFalse => exact ⟨c,found,rfl,rfl⟩

instance (o : ContentSubmitOperation) (content : Option Nat) : Within Untouched (content_submit_apply o content) := by
  cases content with
  | some id => exact untouched_modify_content fun _ => ⟨rfl,rfl⟩
  | none =>
    unfold content_submit_apply
    have created (c : Content) : Within Untouched (modify fun L : Ledger => { L with contents := L.contents.create c } : M Unit) := by
      refine .modify fun L => ⟨rfl,rfl,?_⟩
      intro k d found
      refine ⟨d,?_,rfl,rfl⟩
      show (L.contents.create c).find? k = some d
      rw [Index.find?_create,if_neg (Nat.ne_of_lt (L.contents.below k d found)),found]
    refine .andThen fun now => .andThen fun L => .andThen fun _ => .andThen fun negated => .andThen fun _ => ?_
    infer_instance

instance (o : ContentCancellationOperation) : Within Untouched (content_cancellation_apply o) := by
  unfold content_cancellation_apply
  refine .andThen fun ⟨id,_⟩ => .andThen fun now => ?_
  exact untouched_modify_content fun _ => ⟨rfl,rfl⟩

instance untouched_push (v : VirtualOperation) : Within Untouched (push_applied_operation v) :=
  .modify fun L => ⟨rfl,rfl,.refl L⟩

instance (id : Nat) (content : Content) : Within Untouched (content_expire id content) := by
  unfold content_expire
  have emptied : Within Untouched (modify_content id fun co =>
      { co with publishing_fee_escrow := { co.publishing_fee_escrow with amount := 0 } }) :=
    untouched_modify_content fun _ => ⟨rfl,rfl⟩
  infer_instance

instance (ids : List Nat) : Within Untouched (expire_contents ids) := by
  induction ids with
  | nil => exact inferInstanceAs (Within Untouched (pure ()))
  | cons id rest ih =>
    unfold expire_contents
    refine .andThen fun L => ?_
    split <;> infer_instance

instance : Within Untouched process_budget := by
  unfold process_budget
  dsimp only
  repeat refine .andThen fun _ => ?_
  exact .modify fun L => ⟨rfl,rfl,.refl L⟩

/-- A check that only some requests go through. -/
theorem reads_guarded {β : Type} {c : Prop} [Decidable c] {L : Ledger} {b : β} {x : Reads Unit} {rest : Unit → Reads β}
    (read : (if c then x >>= rest else rest ()) L = .ok b) : rest () L = .ok b := by
  split at read
  · obtain ⟨_,-,read⟩ := reads_bind.mp read
    exact read
  · exact read

/-- There is room for `size` at the seeder. -/
def Ledger.has_room (L : Ledger) (size : Nat) (p : AccountId) : Prop :=
  ∃ so, L.seeders.find? p = some so ∧ size < so.free_space

theorem price_per_day_ok {size : Nat} {seeders : List AccountId} :
    ∀ {total x : Asset} {L : Ledger}, price_per_day size seeders total L = .ok x →
      x.asset_id = total.asset_id ∧ ∀ p ∈ seeders, L.has_room size p := by
  induction seeders with
  | nil =>
    intro total x L read
    cases read
    exact ⟨rfl,fun _ member => nomatch member⟩
  | cons p rest ih =>
    intro total x L read
    rw [price_per_day,reads_read] at read
    cases found : L.seeders.find? p with
    | none =>
      rw [found] at read
      cases read
    | some seeder =>
      rw [found] at read
      simp only [reads_bind,reads_lift,Asset.add_ok,fc_assert_ok] at read
      obtain ⟨_,room,_,-,_,⟨-,-,rfl⟩,read⟩ := read
      obtain ⟨same,others⟩ := ih read
      exact ⟨same,List.forall_mem_cons.mpr ⟨⟨seeder,found,room⟩,others⟩⟩

/-- What a submission was found to be: a first one has a new name, its fee is in core, and its
    seeders have room for it. -/
def Ledger.submitted (L : Ledger) (o : ContentSubmitOperation) : Option Nat → Prop
  | none => L.find_content o.URI = none ∧ o.publishing_fee.asset_id = core ∧ ∀ p ∈ o.seeders, L.has_room o.size p
  | some id => ∃ c, L.find_content o.URI = some (id,c)

/-- What the evaluator of a submission found before it answered with `content`. -/
structure Submittable (L : Ledger) (o : ContentSubmitOperation) (content : Option Nat) : Prop where
  author : ∃ a, get_account o.author L = .ok a
  co_authors : ∀ element ∈ o.co_authors.rows, (L.accounts.find? element.1).isSome
  splits : o.co_authors.rows.length ≠ 0 →
    if (o.co_authors.find? o.author).isSome then sum_of_splits o.co_authors = 10000 else sum_of_splits o.co_authors < 10000
  due : L.properties.time ≤ o.expiration
  days : (o.expiration - L.properties.time) / 3600 / 24 ≠ 0
  first : content = none → L.find_content o.URI = none ∧ o.publishing_fee.asset_id = core ∧ ∀ p ∈ o.seeders, L.has_room o.size p
  again : ∀ id, content = some id → ∃ c, L.find_content o.URI = some (id,c) ∧ c.author = o.author ∧ c.size = o.size

/-- The check of the co-authors is skipped when there are none. -/
theorem reads_co_authors {β : Type} {o : ContentSubmitOperation} {L : Ledger} {b : β} {x y z : Reads Unit} {rest : Unit → Reads β}
    (read : (if o.co_authors.rows.length ≠ 0 then
        x >>= fun _ => match o.co_authors.find? o.author with
          | none => y >>= rest
          | some _ => z >>= rest
      else rest ()) L = .ok b) :
    (o.co_authors.rows.length ≠ 0 → x L = .ok () ∧ (if (o.co_authors.find? o.author).isSome then z else y) L = .ok ()) ∧
      rest () L = .ok b := by
  split at read
  case isFalse alone => exact ⟨fun some => absurd some alone,read⟩
  case isTrue =>
    obtain ⟨_,checked,read⟩ := reads_bind.mp read
    cases share : o.co_authors.find? o.author
    all_goals
      rw [share] at read
      obtain ⟨_,summed,read⟩ := reads_bind.mp read
      exact ⟨fun _ => ⟨checked,summed⟩,read⟩

/-- What the evaluator accepts was found so. -/
theorem content_submit_evaluate_submittable {env : Env} {o : ContentSubmitOperation} {L : Ledger} {content : Option Nat}
    (evaluated : content_submit_evaluate env o L = .ok content) : Submittable L o content := by
  obtain ⟨_,got,rest⟩ := reads_bind.mp evaluated
  cases got
  obtain ⟨a,author,rest⟩ := reads_bind.mp (reads_guarded rest)
  obtain ⟨shared,rest⟩ := reads_co_authors rest
  simp only [reads_bind,reads_lift,fc_assert_ok] at rest
  obtain ⟨_,-,_,due,_,days,rest⟩ := rest
  have co_authors : ∀ element ∈ o.co_authors.rows, (L.accounts.find? element.1).isSome := fun element member => by
    obtain ⟨checked,-⟩ := shared (List.length_pos_of_mem member).ne'
    exact List.all_eq_true.mp (fc_assert_ok.mp (reads_lift.mp checked)) element member
  have splits : o.co_authors.rows.length ≠ 0 →
      if (o.co_authors.find? o.author).isSome then sum_of_splits o.co_authors = 10000 else sum_of_splits o.co_authors < 10000 := by
    intro some
    obtain ⟨-,summed⟩ := shared some
    split at summed <;> rename_i share
    · rw [if_pos share]
      exact fc_assert_ok.mp (reads_lift.mp summed)
    · rw [if_neg share]
      exact fc_assert_ok.mp (reads_lift.mp summed)
  cases found : L.find_content o.URI with
  | none =>
    rw [found] at rest
    simp only [reads_bind,assert_at_most,reads_lift,bind_ok,fc_assert_ok] at rest
    obtain ⟨total,priced,_,-,_,⟨_,within,rfl⟩,same⟩ := rest
    cases same
    obtain ⟨inCore,room⟩ := price_per_day_ok priced
    exact ⟨⟨a,author⟩,co_authors,splits,due,days,fun _ => ⟨found,(Asset.at_most_true within).1.symm.trans inCore,room⟩,fun _ old => absurd old.symm (Option.some_ne_none _)⟩
  | some row =>
    rw [found] at rest
    simp only [reads_bind,reads_lift,fc_assert_ok,reads_pure] at rest
    obtain ⟨_,writer,_,size,_,-,_,-,_,-,_,-,_,-,_,-,rfl⟩ := rest
    refine ⟨⟨a,author⟩,co_authors,splits,due,days,fun new => absurd new (Option.some_ne_none _),fun id same => ?_⟩
    cases same
    exact ⟨row.2,found,writer,size⟩

/-- A submission ends in the future. -/
theorem content_submit_evaluate_ok {env : Env} {o : ContentSubmitOperation} {L : Ledger} {content : Option Nat}
    (evaluated : content_submit_evaluate env o L = .ok content) :
    L.properties.time < o.expiration ∧ L.submitted o content := by
  have checked := content_submit_evaluate_submittable evaluated
  have ahead : L.properties.time < o.expiration := by
    refine Nat.lt_of_le_of_ne checked.due fun same => checked.days ?_
    simp [same]
  refine ⟨ahead,?_⟩
  cases content with
  | none => exact checked.first rfl
  | some id =>
    obtain ⟨c,found,-⟩ := checked.again id rfl
    exact ⟨c,found⟩

/-! ### The ends of an escrow -/

theorem get_content_eq {URI : String} {L : Ledger} {row : Nat × Content} :
    get_content URI L = .ok row ↔ L.find_content URI = some row := by
  rw [get_content,reads_read]
  cases L.find_content URI with
  | none => simp [throw,throwThe,MonadExceptOf.throw]
  | some c => simp [pure,ReaderT.pure,Except.pure]

/-- What was looked up by its URI is a content of that URI. -/
theorem content_of_find {L : Ledger} {URI : String} {id : Nat} {c : Content} (found : L.find_content URI = some (id,c)) :
    L.contents.find? id = some c ∧ c.URI = URI :=
  ⟨Table.find?_of_mem (List.mem_of_find?_eq_some found),by simpa using List.find?_some found⟩

theorem get_content_ok {URI : String} {L : Ledger} {id : Nat} {content : Content}
    (read : get_content URI L = .ok (id,content)) : L.contents.find? id = some content ∧ content.URI = URI :=
  content_of_find (get_content_eq.mp read)

theorem get_buying_ok {id : Nat} {L : Ledger} {b : Buying} : get_buying id L = .ok b ↔ L.buyings.find? id = some b := by
  rw [get_buying,reads_read]
  cases L.buyings.find? id with
  | none => simp [throw,throwThe,MonadExceptOf.throw]
  | some c => simp [pure,ReaderT.pure,Except.pure]

/-- The buying after its escrow went back. -/
def returned_buying (now : Nat) (bo : Buying) : Buying :=
  { bo with price := { bo.price with amount := 0 }, expired := true, expiration_or_delivery_time := now }

/-- The buying after its escrow was paid out. -/
def delivered_buying (now : Nat) (bo : Buying) : Buying :=
  { bo with price := { bo.price with amount := 0 }, delivered := true, expiration_or_delivery_time := now }

theorem buying_expire_ok {L L' : Ledger} {id : Nat} {b : Buying} {u : Unit}
    (ran : EStateM.run (buying_expire id b) L = .ok u L') :
    L' = { L with
      balances := L'.balances
      payments := ⟨id,true,[b.consumer],b.consumer,b.price⟩ :: L.payments
      buyings := L.buyings.update id (returned_buying L.properties.time)
      applied := .return_escrow_buying b.consumer b.price id :: L.applied } := by
  simp only [buying_expire,run_bind_ok,run_observe,head_block_time,reads_read,reads_pure] at ran
  obtain ⟨_,L₁,paid,now,_,⟨rfl,rfl⟩,_,L₂,closed,pushed⟩ := ran
  have frame := pay_escrow_ok paid
  cases closed
  cases pushed
  rw [frame]
  rfl

theorem Kept.expire {L L' : Ledger} {id : Nat} {b : Buying} {u : Unit} (kept : Kept L)
    (found : L.buyings.find? id = some b) (undelivered : b.delivered = false)
    (ran : EStateM.run (buying_expire id b) L = .ok u L') : Kept L' := by
  have frame := buying_expire_ok ran
  have refunded : L'.payments = [⟨id,true,[b.consumer],b.consumer,b.price⟩] ++ L.payments :=
    congrArg Ledger.payments frame
  have buyings : L'.buyings = L.buyings.update id (returned_buying L.properties.time) := congrArg Ledger.buyings frame
  have contents : L'.contents = L.contents := by rw [frame]
  have all : paid_for L' id = ⟨id,true,[b.consumer],b.consumer,b.price⟩ :: paid_for L id := by
    rw [paid_for,refunded]
    simp [paid_for]
  refine kept.change id (fun k c found => ⟨c,by rw [contents,found],rfl,rfl⟩) _ refunded (by simp) ?_ ?_ ?_ ?_
  · intro b' found'
    rw [buyings,Index.find?_update,if_pos rfl,found] at found'
    cases found'
    cases kept.buyings found with
    | waiting _ unexpired held unpaid =>
      refine .expired undelivered rfl rfl [] ?_ (by simp)
      rw [all,unpaid,held]
      rfl
    | delivered isDelivered => exact absurd (undelivered.symm.trans isDelivered) Bool.false_ne_true
    | expired _ _ released again refund nothing =>
      refine .expired undelivered rfl rfl (⟨id,true,[b.consumer],b.consumer,b.price⟩ :: again) ?_ ?_
      · rw [all,refund]
        rfl
      · intro p member
        rcases List.mem_cons.mp member with rfl | inside
        · exact ⟨rfl,released⟩
        · exact nothing p inside
  · intro k apart
    rw [buyings,Index.find?_update,if_neg apart]
  · rw [buyings,Index.next_update]
    exact L.buyings.below id b found
  · rw [buyings,Index.next_update]

theorem finish_buying_ok {L L' : Ledger} {id k : Nat} {b : Buying} {content : Content} {u : Unit}
    (ran : EStateM.run (finish_buying id b k content) L = .ok u L') :
    ∃ new, L' = { L with
        balances := L'.balances
        contents := L.contents.update k fun co => { co with times_bought := co.times_bought + 1 }
        payments := new ++ L.payments
        buyings := L.buyings.update id (delivered_buying L.properties.time)
        applied := .finish_buying content.author b.paid_price_after_exchange b.consumer id :: L.applied } ∧
      (∀ p ∈ new, PayoutTo id content.authors b.paid_price_after_exchange.asset_id p) ∧
      total_amount new = b.paid_price_after_exchange.amount := by
  simp only [finish_buying,run_bind_ok,run_observe,head_block_time,reads_read,reads_pure] at ran
  obtain ⟨_,_,counted,_,L₁,paid,now,_,⟨rfl,rfl⟩,_,L₂,closed,pushed⟩ := ran
  cases counted
  obtain ⟨new,frame,payouts,sum⟩ := content_payout_ok paid
  refine ⟨new,?_,payouts,sum⟩
  cases closed
  cases pushed
  rw [frame]
  rfl

theorem Kept.finish {L L' : Ledger} {id k : Nat} {b : Buying} {content : Content} {u : Unit} (kept : Kept L)
    (found : L.buyings.find? id = some b) (undelivered : b.delivered = false) (unexpired : b.expired = false)
    (bought : ∃ k c, L.contents.find? k = some c ∧ c.URI = b.URI ∧ c.author = content.author)
    (ran : EStateM.run (finish_buying id b k content) L = .ok u L') : Kept L' := by
  obtain ⟨new,frame,payouts,sum⟩ := finish_buying_ok ran
  have paid : L'.payments = new ++ L.payments := congrArg Ledger.payments frame
  have buyings : L'.buyings = L.buyings.update id (delivered_buying L.properties.time) := congrArg Ledger.buyings frame
  have named : Named L L' := by
    have counts : Within Untouched (modify_content k fun co => { co with times_bought := co.times_bought + 1 }) := inferInstance
    have counted := counts.keeps L
    rw [frame]
    exact counted.named
  refine kept.change id named new paid (fun p member => (payouts p member).buying) ?_ ?_ ?_ ?_
  · intro b' found'
    rw [buyings,Index.find?_update,if_pos rfl,found] at found'
    cases found'
    cases kept.buyings found with
    | delivered isDelivered => exact absurd (undelivered.symm.trans isDelivered) Bool.false_ne_true
    | expired _ isExpired => exact absurd (unexpired.symm.trans isExpired) Bool.false_ne_true
    | waiting _ _ held unpaid =>
      have all : paid_for L' id = new := by
        have own : new.filter (·.buying = id) = new :=
          List.filter_eq_self.mpr fun p member => decide_eq_true (payouts p member).buying
        rw [paid_for] at unpaid
        rw [paid_for,paid,List.filter_append,own,unpaid,List.append_nil]
      obtain ⟨j,c,foundContent,uri,author⟩ := bought
      obtain ⟨c',foundAfter,uri',author'⟩ := named foundContent
      refine .delivered rfl unexpired rfl j c' ⟨foundAfter,uri'.trans uri⟩ content.authors ?_ ?_ ?_
      · rw [author',author]
        rfl
      · rw [all]
        exact payouts
      · rw [all]
        exact sum
  · intro k apart
    rw [buyings,Index.find?_update,if_neg apart]
  · rw [buyings,Index.next_update]
    exact L.buyings.below id b found
  · rw [buyings,Index.next_update]

/-- Statistics can only be changed where they are. -/
theorem modify_statistics_ok {L L' : Ledger} {p : AccountId} {f : SeedingStatistics → SeedingStatistics} {u : Unit}
    (ran : EStateM.run (modify_statistics p f) L = .ok u L') : ∃ so, L.statistics.find? p = some so ∧
      L' = { L with statistics := L.statistics.put p (f so) } := by
  obtain ⟨_,_,read,ran⟩ := run_bind_ok.mp ran
  cases read
  cases known : L.statistics.find? p with
  | none =>
    rw [known] at ran
    cases ran
  | some so =>
    rw [known] at ran
    cases ran
    exact ⟨so,rfl,rfl⟩

theorem modify_statistics_frame {L L' : Ledger} {seeder : AccountId} {f : SeedingStatistics → SeedingStatistics} {u : Unit}
    (ran : EStateM.run (modify_statistics seeder f) L = .ok u L') : L' = { L with statistics := L'.statistics } := by
  obtain ⟨so,-,rfl⟩ := modify_statistics_ok ran
  rfl

/-- The buying with one more answer. -/
def answered_buying (o : DeliverKeysOperation) (bo : Buying) : Buying :=
  { bo with seeders_answered := bo.seeders_answered ++ [o.seeder], key_particles := bo.key_particles ++ [o.key] }

theorem note_answer_ok {L L' : Ledger} {o : DeliverKeysOperation} {seen : Buying} {u : Unit}
    (ran : EStateM.run (note_answer o seen) L = .ok u L') :
    L' = L ∨ L' = { L with buyings := L.buyings.update o.buying (answered_buying o), statistics := L'.statistics } := by
  unfold note_answer at ran
  split at ran
  · cases ran
    exact .inl rfl
  · obtain ⟨_,_,noted,ran⟩ := run_bind_ok.mp ran
    cases noted
    exact .inr (modify_statistics_frame ran)

theorem Kept.note {L L' : Ledger} {o : DeliverKeysOperation} {seen : Buying} {u : Unit} (kept : Kept L)
    (found : L.buyings.find? o.buying = some seen) (ran : EStateM.run (note_answer o seen) L = .ok u L') :
    Kept L' ∧ Named L L' ∧ ∀ b, L'.buyings.find? o.buying = some b → b.URI = seen.URI := by
  rcases note_answer_ok ran with rfl | frame
  · refine ⟨kept,.refl _,fun b found' => ?_⟩
    rw [Option.some.inj (found'.symm.trans found)]
  have buyings : L'.buyings = L.buyings.update o.buying (answered_buying o) := congrArg Ledger.buyings frame
  have contents : L'.contents = L.contents := by rw [frame]
  have payments : L'.payments = [] ++ L.payments := by rw [frame]; rfl
  have named : Named L L' := fun k c found => ⟨c,by rw [contents,found],rfl,rfl⟩
  have here : L'.buyings.find? o.buying = some (answered_buying o seen) := by
    rw [buyings,Index.find?_update,if_pos rfl,found]
    rfl
  refine ⟨?_,named,?_⟩
  · refine kept.change o.buying named [] payments (by simp) ?_ ?_ ?_ ?_
    · intro b found'
      cases here.symm.trans found'
      refine Lifecycle.congr (b := seen) named ?_ ⟨rfl,rfl,rfl,rfl,rfl,rfl⟩ (kept.buyings found)
      rw [paid_for,payments,List.nil_append,paid_for]
    · intro k apart
      rw [buyings,Index.find?_update,if_neg apart]
    · rw [buyings,Index.next_update]
      exact L.buyings.below _ _ found
    · rw [buyings,Index.next_update]
  · intro b found'
    cases here.symm.trans found'
    rfl

theorem kept_deliver (o : DeliverKeysOperation) : Preserves Kept (deliver_keys_apply o) := by
  intro L L' u kept ran
  simp only [deliver_keys_apply,run_bind_ok,run_observe,get_buying_ok] at ran
  obtain ⟨seen,_,⟨found,rfl⟩,now,_,⟨-,rfl⟩,⟨k,content⟩,_,⟨read,rfl⟩,_,L₁,noted,b,_,⟨found₁,rfl⟩,ran⟩ := ran
  obtain ⟨kept₁,named,same⟩ := kept.note found noted
  obtain ⟨foundContent,uri⟩ := get_content_ok read
  split at ran
  case isTrue =>
    cases ran
    exact kept₁
  case isFalse pending =>
    simp only [Bool.or_eq_true,not_or,Bool.not_eq_true] at pending
    split at ran
    case isTrue =>
      obtain ⟨c,foundAfter,uri',author⟩ := named foundContent
      exact kept₁.finish found₁ pending.1 pending.2 ⟨k,c,foundAfter,by rw [uri',uri,same b found₁],author⟩ ran
    case isFalse =>
      split at ran
      · exact kept₁.expire found₁ pending.1 ran
      · cases ran
        exact kept₁

theorem kept_expire_buyings (ids : List Nat) : Preserves Kept (expire_buyings ids) := by
  induction ids with
  | nil =>
    intro L L' u kept ran
    cases ran
    exact kept
  | cons id rest ih =>
    intro L L' u kept ran
    obtain ⟨b,found,⟨-,ran⟩ | ⟨undelivered,L₁,expired,ran⟩⟩ := expire_buyings_cons_ok ran
    · exact ih kept ran
    · exact ih (kept.expire found undelivered expired) ran

/-- A new buying, with what was paid for it at once. -/
theorem Kept.create {L L' : Ledger} {b : Buying} (kept : Kept L) (named : Named L L')
    (buyings : L'.buyings = L.buyings.create b) (new : List Payment) (paid : L'.payments = new ++ L.payments)
    (own : ∀ p ∈ new, p.buying = L.buyings.next) (life : paid_for L' L.buyings.next = new → Lifecycle L' L.buyings.next b) :
    Kept L' := by
  refine kept.change L.buyings.next named new paid own ?_ ?_ ?_ ?_
  · intro b' found
    rw [buyings,Index.find?_create,if_pos rfl] at found
    cases found
    refine life ?_
    have before : L.payments.filter (·.buying = L.buyings.next) = [] := by
      refine List.filter_eq_nil_iff.mpr fun p member => ?_
      simpa using Nat.ne_of_lt (kept.payments p member)
    have here : new.filter (·.buying = L.buyings.next) = new :=
      List.filter_eq_self.mpr fun p member => decide_eq_true (own p member)
    rw [paid_for,paid,List.filter_append,here,before,List.append_nil]
  · intro k apart
    rw [buyings,Index.find?_create,if_neg apart]
  · rw [buyings,Index.next_create]
    exact Nat.lt_succ_self _
  · rw [buyings,Index.next_create]
    exact Nat.le_succ _

/-- What the consumer pays: nothing with a subscription. -/
def BuyingContext.paid_price (ctx : BuyingContext) (o : RequestToBuyOperation) : Asset :=
  if ctx.is_subscriber then ⟨0,core⟩ else o.price

def Ledger.with_buying (L : Ledger) (b : Buying) : Ledger := { L with buyings := L.buyings.create b }

/-- A request that was applied: the price is converted, the object created and the consumer
    charged; without key parts the price is paid out at once. -/
inductive Bought (o : RequestToBuyOperation) (ctx : BuyingContext) (L L' : Ledger) : Prop
  | waiting (k : Nat) (content : Content) (after : Asset) (L₁ L₂ : Ledger) (now : Nat) (clock : L₁.properties.time = now)
      (read : get_content o.URI L = .ok (k,content))
      (converted : EStateM.run (convert_price o ctx.content_price (ctx.paid_price o)) L = .ok after L₁)
      (taken : EStateM.run (adjust_balance o.consumer ⟨-(ctx.paid_price o).amount,(ctx.paid_price o).asset_id⟩)
        (L₁.with_buying (new_buying o false (ctx.paid_price o) after now)) = .ok () L₂)
      (counted : EStateM.run (count_missed (content.key_parts.rows.map Prod.fst)) L₂ = .ok () L')
  | delivered (k : Nat) (content : Content) (after : Asset) (L₁ L₂ L₃ : Ledger) (now : Nat)
      (clock : L₁.properties.time = now) (read : get_content o.URI L = .ok (k,content))
      (converted : EStateM.run (convert_price o ctx.content_price (ctx.paid_price o)) L = .ok after L₁)
      (taken : EStateM.run (adjust_balance o.consumer ⟨-(ctx.paid_price o).amount,(ctx.paid_price o).asset_id⟩)
        (L₁.with_buying (new_buying o true (ctx.paid_price o) after now)) = .ok () L₂)
      (paid : EStateM.run (content_payout L₁.buyings.next after content) L₂ = .ok () L₃)
      (counted : EStateM.run (do
        modify_content k fun co => { co with times_bought := co.times_bought + 1 }
        push_applied_operation (.finish_buying content.author after o.consumer L₁.buyings.next)
        count_missed (content.key_parts.rows.map Prod.fst)) L₃ = .ok () L')

theorem request_to_buy_ok {o : RequestToBuyOperation} {ctx : BuyingContext} {L L' : Ledger} {u : Unit}
    (ran : EStateM.run (request_to_buy_apply o ctx) L = .ok u L') : Bought o ctx L L' := by
  simp only [request_to_buy_apply,run_bind_ok,run_observe,reads_lift,head_block_time,reads_read,reads_pure,
    Asset.negate_ok] at ran
  obtain ⟨⟨k,content⟩,_,⟨read,rfl⟩,after,L₁,converted,now,_,⟨clock,rfl⟩,_,_,asked,_,_,⟨-,rfl⟩,_,_,got,_,L₂,created,_,_,
    ⟨⟨-,rfl⟩,rfl⟩,_,L₃,taken,ran⟩ := ran
  cases asked
  cases got
  cases created
  dsimp only at taken ran
  cases keys : decide (content.key_parts.rows.length = 0) with
  | false =>
    rw [keys] at taken ran
    exact .waiting k content after L₁ L₃ now clock read converted taken ran
  | true =>
    rw [keys] at taken ran
    rw [if_pos rfl] at ran
    obtain ⟨_,L₄,paid,ran⟩ := run_bind_ok.mp ran
    exact .delivered k content after L₁ L₃ L₄ now clock read converted taken paid ran

theorem kept_buy (o : RequestToBuyOperation) (ctx : BuyingContext) : Preserves Kept (request_to_buy_apply o ctx) := by
  intro L L' u kept ran
  cases request_to_buy_ok ran with
  | waiting k content after L₁ L₂ now clock read converted taken counted =>
    have kept₁ := kept.untouched (Within.ok inferInstance converted)
    have later : Untouched _ L' := untouched_composes.trans (Within.ok inferInstance taken) (Within.ok inferInstance counted)
    refine kept₁.create later.named later.buyings [] later.payments (by simp) fun unpaid => ?_
    exact .waiting rfl rfl rfl unpaid
  | delivered k content after L₁ L₂ L₃ now clock read converted taken paid counted =>
    have first : Untouched L L₁ := Within.ok inferInstance converted
    have charged : Untouched _ L₂ := Within.ok inferInstance taken
    obtain ⟨new,frame,payouts,sum⟩ := content_payout_ok paid
    have later : Untouched L₃ L' := Within.ok inferInstance counted
    have buyings : L₃.buyings = L₂.buyings := by rw [frame]
    have contents : L₃.contents = L₂.contents := by rw [frame]
    have payments : L₃.payments = new ++ L₂.payments := congrArg Ledger.payments frame
    have named : Named L₁ L' := by
      refine charged.named.trans (Named.trans ?_ later.named)
      exact fun k c found => ⟨c,by rw [contents,found],rfl,rfl⟩
    obtain ⟨found,uri⟩ := get_content_ok read
    obtain ⟨c,foundAfter,uri',author⟩ := (first.named.trans named) found
    refine (kept.untouched first).create named (by rw [later.buyings,buyings,charged.buyings]; rfl) new ?_
      (fun p member => (payouts p member).buying) fun all => ?_
    · rw [later.payments,payments,charged.payments]
      rfl
    · refine .delivered rfl rfl rfl k c ⟨foundAfter,uri'.trans uri⟩ content.authors (by rw [author]; rfl) ?_ ?_
      · rw [all]
        exact payouts
      · rw [all]
        exact sum

theorem kept_steady : Steady Kept where
  aside := fun aside kept => kept.untouched ⟨aside.buyings,aside.payments,aside.named⟩
  submit := fun _ _ kept ran => kept.untouched (Within.ok inferInstance ran)
  cancel := fun _ _ kept ran => kept.untouched (Within.ok inferInstance ran)
  buy := kept_buy
  deliver := kept_deliver

/-! ### Every run -/

theorem kept_of_untouched {α : Type} (x : M α) [within : Within Untouched x] : Preserves Kept x :=
  within.preserves Kept.untouched

theorem kept_housekeeping : Preserves Kept decent_housekeeping := by
  unfold decent_housekeeping
  refine preserves_bind (kept_of_untouched _) fun _ => preserves_bind (kept_of_untouched _) fun L => ?_
  refine preserves_bind (kept_of_untouched _) fun _ => preserves_bind (kept_of_untouched _) fun L => ?_
  exact preserves_bind (kept_expire_buyings _) fun _ => kept_of_untouched _

theorem kept_maintenance : Preserves Kept perform_chain_maintenance := by
  unfold perform_chain_maintenance
  have settled : Within Untouched (modify fun L : Ledger =>
      { L with parameters := L.pending_parameters.getD L.parameters, pending_parameters := none } : M Unit) :=
    .modify fun L => ⟨rfl,rfl,.refl L⟩
  have scheduled : Within Untouched (modify fun L : Ledger => { L with properties := { L.properties with
      next_maintenance_time := next_time L.properties L.parameters.maintenance_interval } } : M Unit) :=
    .modify fun L => ⟨rfl,rfl,.refl L⟩
  refine preserves_bind (kept_of_untouched _) fun _ => preserves_bind kept_housekeeping fun _ => ?_
  exact kept_of_untouched _

theorem kept_perform (action : Action) : Preserves Kept (perform action) := by
  cases action with
  | header timestamp =>
    have stored : Within Untouched (modify fun L : Ledger => { L with properties := { L.properties with
        head_block_number := L.properties.head_block_number + 1
        time := timestamp } } : M Unit) := .modify fun L => ⟨rfl,rfl,.refl L⟩
    unfold perform update_head
    exact kept_of_untouched _
  | operation env op => exact kept_steady.apply_operation env op
  | signing_miner miner => exact kept_of_untouched (update_signing_miner miner)
  | maintenance =>
    unfold perform
    exact preserves_bind (kept_of_untouched _) fun L => preserves_bind (kept_of_untouched _) fun _ => kept_maintenance
  | settings change => exact kept_of_untouched (do_evaluate.settle change)

theorem kept_genesis (g : GenesisState) : Kept (init_genesis g) where
  buyings := fun found => nomatch found
  payments := fun _ member => nomatch member

theorem Reached.kept {g : GenesisState} {allowed : Ledger → Action → Prop} {L : Ledger} (reached : Reached g allowed L) :
    Kept L :=
  reached.invariant (kept_genesis g) fun kept _ ran => kept_perform _ kept ran

/-- Account 4 publishes for ten, with account 5 as co-author; account 6 buys. -/
def one_purchase : List Action :=
  [.header 1530000005,.maintenance,new_account default_account.options,new_account default_account.options,
    new_account default_account.options,grant 6 ⟨100,core⟩,
    .operation free_env (.content_submit {
      fee := ⟨0,core⟩
      author := 4
      co_authors := Table.empty.put 5 3000
      URI := "ipfs:book"
      price := [⟨OO_none,⟨10,core⟩⟩]
      size := 1
      hash := 0
      seeders := []
      key_parts := []
      quorum := 0
      expiration := 1530200000
      publishing_fee := ⟨0,core⟩
      cd := none }),
    .operation free_env (.request_to_buy ⟨⟨0,core⟩,"ipfs:book",6,⟨10,core⟩,OO_none⟩)]

end Decent.Money

import Decent.Conversions
import Decent.Deliveries
import Decent.Renewal

/-!
The request of a consumer who has a subscription to the author. Nothing is converted or paid, but
nothing goes the way of the price all the same: through the feed or the pools of the asset of the
content, and into the index of buyings.
-/
namespace Decent.Money
open Throwing

/-! ### What the rest of a request does -/

/-- Nobody's balance and no buying changes, and no statistics are lost. -/
structure Harmless (L L' : Ledger) : Prop where
  balances : L'.balances = L.balances
  buyings : L'.buyings = L.buyings
  statistics : ∀ {p}, (L.statistics.find? p).isSome → (L'.statistics.find? p).isSome

theorem Harmless.refl (L : Ledger) : Harmless L L := ⟨rfl,rfl,id⟩

theorem Harmless.trans {a b c : Ledger} (first : Harmless a b) (second : Harmless b c) : Harmless a c :=
  ⟨second.balances.trans first.balances,second.buyings.trans first.buyings,second.statistics ∘ first.statistics⟩

/-- A step returns, and does no harm. -/
def Passes {α : Type} (x : M α) (L : Ledger) (a : α) : Prop := ∃ L', EStateM.run x L = .ok a L' ∧ Harmless L L'

theorem passes_bind {α β : Type} {x : M α} {f : α → M β} {L : Ledger} {a : α} {b : β} (first : Passes x L a)
    (second : ∀ {L'}, Harmless L L' → Passes (f a) L' b) : Passes (x >>= f) L b := by
  obtain ⟨L₁,ran,harmless⟩ := first
  obtain ⟨L₂,ran',harmless'⟩ := second harmless
  exact ⟨L₂,run_bind_ok.mpr ⟨a,L₁,ran,ran'⟩,harmless.trans harmless'⟩

theorem passes_pure {α : Type} (L : Ledger) (a : α) : Passes (pure a) L a := ⟨L,rfl,.refl L⟩

theorem passes_observe {α : Type} {r : Reads α} {L : Ledger} {a : α} (read : r L = .ok a) : Passes (observe r) L a :=
  ⟨L,run_observe_ok read,.refl L⟩

theorem passes_modify {f : Ledger → Ledger} {L : Ledger} (harmless : Harmless L (f L)) : Passes (modify f) L () :=
  ⟨f L,rfl,harmless⟩

/-- Nothing is added to a balance. -/
theorem passes_adjust_nothing (account : AccountId) (id : AssetId) (L : Ledger) :
    Passes (adjust_balance account ⟨0,id⟩) L () := ⟨L,rfl,.refl L⟩

theorem passes_pay_nothing (buying : Nat) (refund : Bool) (entitled : List AccountId) (account : AccountId) (id : AssetId)
    (L : Ledger) : Passes (pay_escrow buying refund entitled account ⟨0,id⟩) L () :=
  passes_bind (passes_adjust_nothing account id L) fun _ => passes_modify ⟨rfl,rfl,fun here => here⟩

/-- The shares of nothing are nothing. -/
theorem passes_share_nothing {pay : AccountId → Asset → M Unit} {id : AssetId}
    (free : ∀ account L, Passes (pay account ⟨0,id⟩) L ()) (rows : List (AccountId × Nat)) (L : Ledger) :
    Passes (pay_co_authors pay ⟨0,id⟩ rows 0) L 0 := by
  induction rows generalizing L with
  | nil => exact passes_pure L 0
  | cons row rest ih =>
    have share : (product64 0 row.2).tdiv 10000 = 0 := by simp [product64]
    unfold pay_co_authors
    dsimp only
    rw [share]
    refine passes_bind (free row.1 L) fun {L₁} _ => ?_
    exact passes_bind (passes_observe (a := 0) (checked_ok.mpr ⟨by decide,rfl⟩)) fun _ => ih _

theorem passes_payout_nothing (buying : Nat) (id : AssetId) (content : Content) (L : Ledger) :
    Passes (content_payout buying ⟨0,id⟩ content) L () := by
  unfold content_payout
  dsimp only
  split
  · exact passes_pay_nothing ..
  · refine passes_bind (passes_share_nothing (fun account L => passes_pay_nothing ..) _ L) fun _ => ?_
    exact passes_pure _ ()

/-- Everyone who is asked has statistics. -/
theorem passes_count_missed {seeders : List AccountId} {L : Ledger}
    (known : ∀ p ∈ seeders, (L.statistics.find? p).isSome) : Passes (count_missed seeders) L () := by
  induction seeders generalizing L with
  | nil => exact passes_pure L ()
  | cons p rest ih =>
    obtain ⟨so,found⟩ := Option.isSome_iff_exists.mp (known p List.mem_cons_self)
    refine passes_bind ⟨_,run_modify_statistics found _,rfl,rfl,?_⟩ fun harmless => ih fun q member => ?_
    · intro q here
      show ((L.statistics.put p _).find? q).isSome
      rw [Table.find?_put]
      split
      · rfl
      · exact here
    · exact harmless.statistics (known q (List.mem_cons_of_mem p member))

/-! ### The conversion of nothing -/

/-- A price has core on one side, and an amount of it that is divided by. -/
def Price.of_core (p : Price) : Prop :=
  if p.base.asset_id = core then 0 < p.base.amount else p.quote.asset_id = core ∧ 0 < p.quote.amount

/-- Nothing is converted from core into this asset. -/
def TakesNothing (L : Ledger) (id : AssetId) : Prop :=
  ∃ ao, L.assets.find? id = some ao ∧ (id = core ∨
    match ao.monitored_asset_opts with
    | some m => m.feed_is_valid L.properties.time = true ∧ m.current_feed.of_core
    | none => ao.options.convertible ∧ ao.options.core_exchange_rate.of_core ∧ Room ao.dynamic 0 0)

theorem exchange_nothing {from_amount to_amount : Int} {to_id : AssetId} {x : Asset} :
    Price.exchange 0 from_amount to_amount to_id = .ok x ↔ 0 < from_amount ∧ x = ⟨0,to_id⟩ := by
  have zero : product128 0 to_amount / from_amount = 0 := by
    rw [product128,Int.zero_mul,Int.zero_emod,Int.zero_ediv]
  simp only [Price.exchange,bind_ok,fc_assert_ok,pure_ok,zero]
  constructor
  · rintro ⟨_,positive,_,-,rfl⟩
    exact ⟨positive,rfl⟩
  · rintro ⟨positive,rfl⟩
    exact ⟨(),positive,(),by decide,rfl⟩

theorem times_nothing (p : Price) : (∃ x, p.times ⟨0,core⟩ = .ok x) ↔ p.of_core := by
  unfold Price.times Price.of_core
  by_cases ofBase : p.base.asset_id = core
  · rw [if_pos ofBase.symm,if_pos ofBase]
    exact ⟨fun ⟨x,exchanged⟩ => (exchange_nothing.mp exchanged).1,fun positive => ⟨_,exchange_nothing.mpr ⟨positive,rfl⟩⟩⟩
  rw [if_neg (Ne.symm ofBase),if_neg ofBase]
  by_cases ofQuote : p.quote.asset_id = core
  · rw [if_pos ofQuote.symm]
    exact ⟨fun ⟨x,exchanged⟩ => ⟨ofQuote,(exchange_nothing.mp exchanged).1⟩,
      fun positive => ⟨_,exchange_nothing.mpr ⟨positive.2,rfl⟩⟩⟩
  · rw [if_neg (Ne.symm ofQuote)]
    exact ⟨fun ⟨x,exchanged⟩ => (by cases exchanged),fun positive => absurd positive.1 ofQuote⟩

theorem times_nothing_amount {p : Price} {x : Asset} (exchanged : p.times ⟨0,core⟩ = .ok x) : x.amount = 0 := by
  unfold Price.times at exchanged
  split at exchanged
  · rw [(exchange_nothing.mp exchanged).2]
  · split at exchanged
    · rw [(exchange_nothing.mp exchanged).2]
    · cases exchanged

/-- What is converted of nothing is nothing. -/
theorem converts_nothing_amount {L : Ledger} {id : AssetId} {x : Asset} (converts : Converts L id ⟨0,core⟩ x) :
    x.amount = 0 := by
  obtain ⟨ao,-,converts⟩ := converts
  split at converts
  · rw [← converts.2]
  · split at converts
    · exact times_nothing_amount converts.2.2
    · exact times_nothing_amount converts.2.1

theorem converts_nothing {L : Ledger} {id : AssetId} : (∃ x, Converts L id ⟨0,core⟩ x) ↔ TakesNothing L id := by
  unfold TakesNothing Converts
  rw [exists_comm]
  refine exists_congr fun ao => ?_
  rw [exists_and_left]
  refine and_congr_right fun found => ?_
  by_cases inCore : id = core
  · exact iff_of_true ⟨⟨0,core⟩,by rw [if_pos inCore]; exact ⟨rfl,rfl⟩⟩ (.inl inCore)
  simp only [inCore,if_false,false_or]
  obtain monitored | ⟨m,monitored⟩ := Option.eq_none_or_eq_some ao.monitored_asset_opts
  · simp only [monitored,ConvertsByRate,if_neg (Ne.symm inCore)]
    constructor
    · rintro ⟨x,options,times,-,-,room⟩
      have zero := times_nothing_amount times
      exact ⟨options,(times_nothing _).mp ⟨x,times⟩,by simpa [zero] using room⟩
    · rintro ⟨options,ofCore,room⟩
      obtain ⟨x,times⟩ := (times_nothing _).mpr ofCore
      have zero := times_nothing_amount times
      exact ⟨x,options,times,by rw [zero]; decide,trivial,by simpa [zero] using room⟩
  · simp only [monitored,ConvertsByFeed]
    constructor
    · rintro ⟨x,valid,-,times⟩
      exact ⟨valid,(times_nothing _).mp ⟨x,times⟩⟩
    · rintro ⟨valid,ofCore⟩
      obtain ⟨x,times⟩ := (times_nothing _).mpr ofCore
      exact ⟨x,valid,.inl trivial,times⟩

/-! ### The request -/

/-- A conversion changes pools only. -/
instance (id : AssetId) (asset_pool_diff core_pool_diff : Int) :
    Within Prepared (convert_uia.change_pools id asset_pool_diff core_pool_diff) := by
  refine prepared_modify_dynamic fun changed => ?_
  simp only [bind_ok,checked_ok,fc_assert_ok,pure_ok] at changed
  obtain ⟨_,-,_,-,_,-,_,-,rfl⟩ := changed
  rfl

section
variable {o : RequestToBuyOperation} {content_price : Asset} {L : Ledger}

/-- Nothing in core is itself converted to core first. -/
theorem convert_core_nothing (known : (L.assets.find? core).isSome) :
    EStateM.run (convert core ⟨0,core⟩) L = .ok ⟨0,core⟩ L := by
  obtain ⟨ao,found⟩ := Option.isSome_iff_exists.mp known
  unfold convert
  refine run_observe_bind.mpr ⟨ao,get_asset_ok.mpr found,?_⟩
  rw [if_pos rfl]
  exact run_observe_bind.mpr ⟨(),fc_assert_ok.mpr rfl,rfl⟩

/-- The price of a subscriber is converted when it is not in the asset that the operation names. -/
theorem convert_price_nothing (known : (L.assets.find? core).isSome) {after : Asset} {L' : Ledger} :
    EStateM.run (convert_price o content_price ⟨0,core⟩) L = .ok after L' ↔
      if content_price.asset_id = o.price.asset_id then after = ⟨0,core⟩ ∧ L' = L
      else EStateM.run (convert content_price.asset_id ⟨0,core⟩) L = .ok after L' := by
  unfold convert_price
  split
  · constructor
    · intro ran
      cases ran
      exact ⟨rfl,rfl⟩
    · rintro ⟨rfl,rfl⟩
      rfl
  · rw [run_bind_ok]
    constructor
    · rintro ⟨_,_,first,ran⟩
      cases first.symm.trans (convert_core_nothing known)
      exact ran
    · intro ran
      exact ⟨_,L,convert_core_nothing known,ran⟩

theorem convert_price_returns (known : (L.assets.find? core).isSome) :
    (∃ after L', EStateM.run (convert_price o content_price ⟨0,core⟩) L = .ok after L') ↔
      content_price.asset_id = o.price.asset_id ∨ TakesNothing L content_price.asset_id := by
  simp only [convert_price_nothing known]
  by_cases same : content_price.asset_id = o.price.asset_id
  · simp [same]
  · simp only [same,if_false,convert_returns,converts_nothing,false_or]

theorem convert_price_amount (known : (L.assets.find? core).isSome) {after : Asset} {L' : Ledger}
    (ran : EStateM.run (convert_price o content_price ⟨0,core⟩) L = .ok after L') : after.amount = 0 := by
  have ran := (convert_price_nothing known).mp ran
  split at ran
  · rw [ran.1]
  · exact converts_nothing_amount (convert_returns.mp ⟨L',ran⟩)

end

/-- What a subscriber is promised: the request returns, takes nothing from him, and creates a buying of
    the content for nothing. -/
def Granted (o : RequestToBuyOperation) (x : M Unit) (L : Ledger) : Prop :=
  ∃ L', EStateM.run x L = .ok () L' ∧ (∀ a, L'.balance o.consumer a = L.balance o.consumer a) ∧
    ∃ b, L'.buyings.find? L.buyings.next = some b ∧ b.consumer = o.consumer ∧ b.URI = o.URI ∧ b.price.amount = 0

/-- The steps after the buying was created. -/
theorem passes_granted {o : RequestToBuyOperation} {content : Content} {content_id buying : Nat} {after : Asset} {L : Ledger}
    (nothing : after.amount = 0) (asked : ∀ p ∈ content.key_parts.rows.map Prod.fst, (L.statistics.find? p).isSome) :
    Passes (do
      adjust_balance o.consumer (← observe (Asset.negate ⟨0,core⟩))
      if decide (content.key_parts.rows.length = 0) then
        content_payout buying after content
        modify_content content_id fun co => { co with times_bought := co.times_bought + 1 }
        push_applied_operation (.finish_buying content.author after o.consumer buying)
      count_missed (content.key_parts.rows.map Prod.fst)) L () := by
  obtain ⟨amount,asset_id⟩ := after
  cases nothing
  have zero : Asset.negate ⟨0,core⟩ = .ok ⟨0,core⟩ := Asset.negate_ok.mpr ⟨by decide,rfl⟩
  refine passes_bind (passes_observe (a := ⟨0,core⟩) zero) fun first => ?_
  refine passes_bind (passes_adjust_nothing o.consumer core _) fun second => ?_
  split
  · refine passes_bind (passes_payout_nothing buying asset_id content _) fun third => ?_
    refine passes_bind (passes_modify ⟨rfl,rfl,fun here => here⟩) fun fourth => ?_
    refine passes_bind (passes_modify ⟨rfl,rfl,fun here => here⟩) fun fifth => ?_
    refine passes_count_missed fun p member => ?_
    exact ((((first.trans second).trans third).trans fourth).trans fifth).statistics (asked p member)
  · exact passes_count_missed fun p member => (first.trans second).statistics (asked p member)

section
variable {o : RequestToBuyOperation} {ctx : BuyingContext} {L : Ledger}

/-- A request that returns found no purchase, and converted the price. -/
theorem request_to_buy_converts {L' : Ledger} (subscriber : ctx.is_subscriber = true)
    (ran : EStateM.run (request_to_buy_apply o ctx) L = .ok () L') : L.find_purchase o.consumer o.URI = none ∧
      ∃ after L₁, EStateM.run (convert_price o ctx.content_price ⟨0,core⟩) L = .ok after L₁ := by
  simp only [request_to_buy_apply,run_bind_ok,run_observe,reads_lift,subscriber,if_true] at ran
  obtain ⟨_,_,⟨-,rfl⟩,after,L₁,converted,now,_,⟨-,rfl⟩,_,_,got,_,_,⟨unbought,rfl⟩,-⟩ := ran
  cases got
  have frame : Prepared L L₁ := Within.ok inferInstance converted
  have unbought := Option.isNone_iff_eq_none.mp (fc_assert_ok.mp unbought)
  rw [frame.rest] at unbought
  exact ⟨unbought,after,L₁,converted⟩

/-- Once the price is converted nothing stands in the way of who has not bought the content. -/
theorem request_granted {id : Nat} {content : Content} {after : Asset} {L₁ : Ledger} (subscriber : ctx.is_subscriber = true)
    (read : get_content o.URI L = .ok (id,content))
    (asked : ∀ p ∈ content.key_parts.rows.map Prod.fst, (L.statistics.find? p).isSome)
    (known : (L.assets.find? core).isSome) (unbought : L.find_purchase o.consumer o.URI = none)
    (converted : EStateM.run (convert_price o ctx.content_price ⟨0,core⟩) L = .ok after L₁) :
    Granted o (request_to_buy_apply o ctx) L := by
  have frame : Prepared L L₁ := Within.ok inferInstance converted
  have nothing := convert_price_amount known converted
  let b := new_buying o (decide (content.key_parts.rows.length = 0)) ⟨0,core⟩ after L.properties.time
  obtain ⟨L',passed,harmless⟩ := @passes_granted o content id L₁.buyings.next after
    { L₁ with buyings := L₁.buyings.create b } nothing (by
      rw [frame.rest]
      exact asked)
  have unbought : (L₁.find_purchase o.consumer o.URI).isNone = true := by
    rw [frame.rest]
    exact Option.isNone_iff_eq_none.mpr unbought
  have clock : L₁.properties.time = L.properties.time := by rw [frame.rest]
  refine ⟨L',?_,fun a => ?_,b,?_,rfl,rfl,?_⟩
  · unfold request_to_buy_apply
    refine run_observe_bind.mpr ⟨_,read,?_⟩
    simp only [subscriber,if_true]
    refine run_bind_ok.mpr ⟨after,L₁,converted,run_observe_bind.mpr ⟨L.properties.time,?_,?_⟩⟩
    · rw [← clock]
      rfl
    · exact run_get_bind.mpr (run_observe_bind.mpr ⟨(),fc_assert_ok.mpr unbought,
        run_get_bind.mpr (run_bind_ok.mpr ⟨(),_,rfl,passed⟩)⟩)
  · have same : L'.balances = L.balances := by
      rw [harmless.balances,frame.rest]
    rw [Ledger.balance,Ledger.balance,same]
  · have created : L'.buyings = L.buyings.create b := by
      rw [harmless.buyings,frame.rest]
    rw [created,Index.find?_create,if_pos rfl]
  · show (if decide (content.key_parts.rows.length = 0) = true then (⟨0,core⟩ : Asset) else after).amount = 0
    split
    · rfl
    · exact nothing

theorem request_granted_iff {id : Nat} {content : Content} (subscriber : ctx.is_subscriber = true)
    (read : get_content o.URI L = .ok (id,content))
    (asked : ∀ p ∈ content.key_parts.rows.map Prod.fst, (L.statistics.find? p).isSome)
    (known : (L.assets.find? core).isSome) :
    Granted o (request_to_buy_apply o ctx) L ↔ L.find_purchase o.consumer o.URI = none ∧
      (ctx.content_price.asset_id = o.price.asset_id ∨ TakesNothing L ctx.content_price.asset_id) := by
  rw [← convert_price_returns known]
  constructor
  · rintro ⟨L',ran,-,-⟩
    exact request_to_buy_converts subscriber ran
  · rintro ⟨unbought,after,L₁,converted⟩
    exact request_granted subscriber read asked known unbought converted

end

/-- What `do_evaluate` keeps of a subscriber who is accepted. -/
theorem request_to_buy_subscriber {o : RequestToBuyOperation} {ctx : BuyingContext} {L : Ledger} {id : Nat} {content : Content}
    {content_price : Asset} (read : get_content o.URI L = .ok (id,content))
    (priced : get_price content.price o.region_code_from = some content_price)
    (subscribed : L.is_subscribed o.consumer content.author = true)
    (accepted : request_to_buy_evaluate o L = .ok ctx) : ctx = ⟨content_price,true⟩ := by
  simp only [request_to_buy_evaluate,reads_bind] at accepted
  obtain ⟨_,got,⟨_,_⟩,read',_,-,_,-,_,-,accepted⟩ := accepted
  cases got
  cases read.symm.trans read'
  simp only [priced,reads_bind,subscribed,if_true] at accepted
  obtain ⟨_,-,accepted⟩ := accepted
  exact (reads_pure.mp accepted).symm

/-- The request of a subscriber that was accepted is granted exactly when he has not bought the content
    before, and the asset of its price is the one that the operation names or takes the conversion of
    nothing. -/
theorem subscriber_granted_iff (g : GenesisState) (L : Ledger) (reached : Reached g source_step L) (env : Env)
    (o : RequestToBuyOperation) (x : Int) (act : M Unit) (L₁ L₂ : Ledger)
    (evaluated : evaluate env (pure ()) (.request_to_buy o) L = .ok (x,act))
    (converted : EStateM.run (convert_fee o.fee x) L = .ok () L₁) (paid : EStateM.run (pay_fee x) L₁ = .ok () L₂)
    (id : Nat) (content : Content) (read : get_content o.URI L = .ok (id,content)) (content_price : Asset)
    (priced : get_price content.price o.region_code_from = some content_price)
    (subscribed : L.is_subscribed o.consumer content.author = true) :
    Granted o act L₂ ↔ L₂.find_purchase o.consumer o.URI = none ∧
      (content_price.asset_id = o.price.asset_id ∨ TakesNothing L₂ content_price.asset_id) := by
  have prepared : Prepared L L₂ :=
    Composes.trans (Within.ok inferInstance converted) (Within.ok inferInstance paid)
  have registered : Registered L₂ := by
    have kept : Registering L L₂ := Composes.trans (Within.ok inferInstance converted) (Within.ok inferInstance paid)
    exact kept reached.registered
  have read₂ := (get_content_prepared prepared).trans read
  have known : (L₂.assets.find? core).isSome := by
    obtain ⟨a,d,found,-,rfl⟩ := modify_dynamic_ok paid
    show (Index.find? (Index.update ..) core).isSome
    rw [Index.find?_update,if_pos rfl,found]
    rfl
  simp only [evaluate,do_evaluate,reads_bind,reads_pure,Prod.mk.injEq] at evaluated
  obtain ⟨x',-,_,-,ctx,accepted,-,rfl⟩ := evaluated
  obtain rfl := request_to_buy_subscriber read priced subscribed accepted
  refine request_granted_iff rfl read₂ (fun p member => ?_) known
  obtain ⟨found,-⟩ := get_content_ok read₂
  exact registered.counted (registered.parts found (Table.isSome_find?_iff.mpr member))

/-- Account 4 publishes a content without parts. -/
def book_for (price : Asset) : ContentSubmitOperation where
  fee := ⟨0,core⟩
  author := 4
  co_authors := Table.empty
  URI := "ipfs:book"
  price := [⟨OO_none,price⟩]
  size := 1
  hash := 0
  seeders := []
  key_parts := []
  quorum := 0
  expiration := 1530200000
  publishing_fee := ⟨0,core⟩
  cd := none

/-- Account 5 subscribes to account 4. -/
def subscribed_to_book (price : Asset) : List Action :=
  [.header 1530000005,.maintenance,new_account author_options,new_account default_account.options,grant 5 ⟨10,core⟩,
    subscribe_to_author 5,.operation free_env (.content_submit (book_for price))]

def book_request : RequestToBuyOperation := ⟨⟨0,core⟩,"ipfs:book",5,⟨0,core⟩,OO_none⟩

theorem reached_subscribed (price : Asset)
    (returned : Throwing.returned (EStateM.run (perform_all (subscribed_to_book price)) (init_genesis small_genesis)) = true) :
    Reached small_genesis source_step (after_actions (subscribed_to_book price)) :=
  reached_after_actions ⟨trivial,trivial,trivial,trivial,trivial,trivial,trivial⟩ returned

/-- An accepted request whose fee is nothing. -/
theorem accepted_request {L : Ledger} (accepted : (evaluate free_env (pure ()) (.request_to_buy book_request) L).isOk = true)
    (fee : returned (EStateM.run (pay_fee 0) L) = true) :
    ∃ act, evaluate free_env (pure ()) (.request_to_buy book_request) L = .ok (0,act) ∧
      EStateM.run (convert_fee ⟨0,core⟩ 0) L = .ok () L ∧
      EStateM.run (pay_fee 0) L = .ok () (endState (EStateM.run (pay_fee 0) L)) := by
  cases evaluated : evaluate free_env (pure ()) (.request_to_buy book_request) L with
  | error e =>
    rw [evaluated] at accepted
    cases accepted
  | ok p =>
    obtain ⟨x,act⟩ := p
    have parts := evaluated
    simp only [evaluate,do_evaluate,reads_bind,reads_pure,Prod.mk.injEq] at parts
    obtain ⟨x',prepared,_,-,_,-,rfl,rfl⟩ := parts
    obtain rfl : x' = 0 := prepare_fee_core rfl prepared
    exact ⟨_,rfl,rfl,run_of_returned fee⟩

/-- The request reads the book, at its price, and the consumer is subscribed. -/
def reads_book (price : Asset) (L : Ledger) : Bool :=
  match get_content "ipfs:book" L with
  | .ok (_,content) => get_price content.price OO_none = some price && L.is_subscribed 5 content.author
  | .error _ => false

theorem book_read {price : Asset} {L : Ledger} (reads : reads_book price L = true) :
    ∃ id content, get_content book_request.URI L = .ok (id,content) ∧
      get_price content.price book_request.region_code_from = some price ∧
      L.is_subscribed book_request.consumer content.author = true := by
  unfold reads_book at reads
  split at reads
  case h_1 id content read =>
    simp only [Bool.and_eq_true,decide_eq_true_eq] at reads
    exact ⟨id,content,read,reads.1,reads.2⟩
  case h_2 => cases reads

/-- The book costs ten dollars, and nobody has published a feed. -/
theorem subscriber_refused : ∃ L act L₁ L₂, Reached small_genesis source_step L ∧
    evaluate free_env (pure ()) (.request_to_buy book_request) L = .ok (0,act) ∧ reads_book ⟨10,1⟩ L = true ∧
    EStateM.run (convert_fee ⟨0,core⟩ 0) L = .ok () L₁ ∧ EStateM.run (pay_fee 0) L₁ = .ok () L₂ ∧
    ¬Granted book_request act L₂ := by
  have reached := reached_subscribed ⟨10,1⟩ (by decide +kernel)
  obtain ⟨act,evaluated,converted,paid⟩ := @accepted_request (after_actions (subscribed_to_book ⟨10,1⟩))
    (by decide +kernel) (by decide +kernel)
  refine ⟨_,act,_,_,reached,evaluated,by decide +kernel,converted,paid,?_⟩
  rintro ⟨L',ran,-⟩
  have threw : (match evaluate free_env (pure ()) (.request_to_buy book_request) (after_actions (subscribed_to_book ⟨10,1⟩)) with
    | .ok (_,act) => returned (EStateM.run act (endState (EStateM.run (pay_fee 0) (after_actions (subscribed_to_book ⟨10,1⟩)))))
    | .error _ => true) = false := by decide +kernel
  rw [evaluated] at threw
  dsimp only at threw
  rw [ran] at threw
  cases threw

/-- The book costs core, and the request names core. -/
theorem subscriber_granted_core : ∃ L act L₁ L₂, Reached small_genesis source_step L ∧
    evaluate free_env (pure ()) (.request_to_buy book_request) L = .ok (0,act) ∧
    EStateM.run (convert_fee ⟨0,core⟩ 0) L = .ok () L₁ ∧ EStateM.run (pay_fee 0) L₁ = .ok () L₂ ∧
    Granted book_request act L₂ := by
  have reached := reached_subscribed ⟨10,core⟩ (by decide +kernel)
  obtain ⟨act,evaluated,converted,paid⟩ := @accepted_request (after_actions (subscribed_to_book ⟨10,core⟩))
    (by decide +kernel) (by decide +kernel)
  obtain ⟨id,content,read,priced,subscribed⟩ := @book_read ⟨10,core⟩ (after_actions (subscribed_to_book ⟨10,core⟩))
    (by decide +kernel)
  refine ⟨_,act,_,_,reached,evaluated,converted,paid,(subscriber_granted_iff small_genesis _ reached free_env book_request 0
    act _ _ evaluated converted paid id content read _ priced subscribed).mpr ⟨?_,.inl rfl⟩⟩
  refine Option.isNone_iff_eq_none.mp ?_
  decide +kernel

end Decent.Money

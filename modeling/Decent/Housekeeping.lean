import Decent.Escrow

/-!
The housekeeping of a maintenance expires contents and buyings by their time. It scans from
`last_budget_time + block_interval` to the time of the head, and the next scan starts behind
that head: over a whole run every content is expired once and no buying is left open, unless
one ends between the last scan and the start of the next.
-/
namespace Decent.Money
open Throwing

/-! ### What a scan finds -/

theorem dropWhile_sorted {α : Type} (key : α → Nat) (lower : Nat) {rows : List α}
    (sorted : rows.Pairwise fun r s => key r ≤ key s) :
    rows.dropWhile (fun r => key r < lower) = rows.filter fun r => lower ≤ key r := by
  induction rows with
  | nil => rfl
  | cons r rest ih =>
    obtain ⟨first,sorted'⟩ := List.pairwise_cons.mp sorted
    by_cases early : key r < lower
    · simp [early,ih sorted']
    · have all : ∀ s ∈ rest, lower ≤ key s := fun s member => Nat.le_trans (Nat.not_lt.mp early) (first s member)
      have kept : rest.filter (fun s => decide (lower ≤ key s)) = rest := List.filter_eq_self.mpr (by simpa using all)
      simp [early,Nat.not_lt.mp early,kept]

theorem takeWhile_sorted {α : Type} (key : α → Nat) (upper : Nat) {rows : List α}
    (sorted : rows.Pairwise fun r s => key r ≤ key s) :
    rows.takeWhile (fun r => key r ≤ upper) = rows.filter fun r => key r ≤ upper := by
  induction rows with
  | nil => rfl
  | cons r rest ih =>
    obtain ⟨first,sorted'⟩ := List.pairwise_cons.mp sorted
    by_cases due : key r ≤ upper
    · simp [due,ih sorted']
    · have none : ∀ s ∈ rest, ¬ key s ≤ upper :=
        fun s member late => due (Nat.le_trans (first s member) late)
      have emptied : rest.filter (fun s => decide (key s ≤ upper)) = [] := List.filter_eq_nil_iff.mpr (by simpa using none)
      simp [due,emptied]

/-- A scan is a filter of the index, in its order. -/
theorem scan_eq {ν : Type} (key : ν → Nat) (lower upper : Nat) (rows : List (Nat × ν)) :
    scan key lower upper rows = (((rows.insertionSort fun r s => key r.2 ≤ key s.2).filter fun r =>
      lower ≤ key r.2).filter fun r => key r.2 ≤ upper).map Prod.fst := by
  have total : Std.Total fun r s : Nat × ν => key r.2 ≤ key s.2 := ⟨fun r s => Nat.le_total _ _⟩
  have transitive : IsTrans (Nat × ν) fun r s => key r.2 ≤ key s.2 := ⟨fun _ _ _ => Nat.le_trans⟩
  have sorted := List.pairwise_insertionSort (fun r s : Nat × ν => key r.2 ≤ key s.2) rows
  rw [scan,dropWhile_sorted (fun r : Nat × ν => key r.2) lower sorted,
    takeWhile_sorted (fun r : Nat × ν => key r.2) upper (sorted.filter _)]

theorem mem_scan {ν : Type} {key : ν → Nat} {lower upper id : Nat} {rows : List (Nat × ν)} :
    id ∈ scan key lower upper rows ↔ ∃ v, (id,v) ∈ rows ∧ lower ≤ key v ∧ key v ≤ upper := by
  simp only [scan_eq,List.mem_map,List.mem_filter,decide_eq_true_eq,
    (List.perm_insertionSort (fun r s : Nat × ν => key r.2 ≤ key s.2) rows).mem_iff]
  constructor
  · rintro ⟨⟨k,v⟩,⟨⟨member,late⟩,early⟩,rfl⟩
    exact ⟨v,member,late,early⟩
  · rintro ⟨v,member,late,early⟩
    exact ⟨(id,v),⟨⟨member,late⟩,early⟩,rfl⟩

theorem nodup_scan {ν : Type} (key : ν → Nat) (lower upper : Nat) {rows : List (Nat × ν)}
    (distinct : (rows.map Prod.fst).Nodup) : (scan key lower upper rows).Nodup := by
  rw [scan_eq]
  have ordered : ((rows.insertionSort fun r s => key r.2 ≤ key s.2).map Prod.fst).Nodup :=
    (((List.perm_insertionSort _ rows).map Prod.fst).nodup_iff).mpr distinct
  exact ordered.sublist (((List.filter_sublist).trans List.filter_sublist).map _)

/-- How often the scan of an index meets one of its rows. -/
theorem count_scan {ν : Type} {key : ν → Nat} {lower upper id : Nat} {i : Index ν} {v : ν} (found : i.find? id = some v) :
    (scan key lower upper i.table.rows).count id = if lower ≤ key v ∧ key v ≤ upper then 1 else 0 := by
  have nodup := nodup_scan key lower upper i.table.distinct
  have member : id ∈ scan key lower upper i.table.rows ↔ lower ≤ key v ∧ key v ≤ upper := by
    rw [mem_scan]
    constructor
    · rintro ⟨w,row,within⟩
      cases (Table.find?_of_mem row).symm.trans found
      exact within
    · intro within
      exact ⟨v,Table.mem_of_find? found,within⟩
  split
  case isTrue within => exact List.count_eq_one_of_mem nodup (member.mpr within)
  case isFalse outside => exact List.count_eq_zero_of_not_mem fun inside => outside (member.mp inside)

/-! ### What only closes buyings -/

/-- A buying that waits for its keys. -/
def Buying.waits (b : Buying) : Bool := !b.delivered && !b.expired

/-- No buying is opened or put off; the names and ends of contents, their returns and the
    clock are as they were. -/
structure Waning (L L' : Ledger) : Prop where
  buyings : ∀ {id b'}, L'.buyings.find? id = some b' → b'.waits = true →
    ∃ b, L.buyings.find? id = some b ∧ b.waits = true ∧ b.expiration_time = b'.expiration_time
  next_content : L'.contents.next = L.contents.next
  expirations : ∀ id, (L'.contents.find? id).map (·.expiration) = (L.contents.find? id).map (·.expiration)
  names : ∀ id, (L'.contents.find? id).map (·.URI) = (L.contents.find? id).map (·.URI)
  returned : ∀ id, L'.applied.countP (returns id) = L.applied.countP (returns id)
  time : L'.properties.time = L.properties.time
  last_budget_time : L'.properties.last_budget_time = L.properties.last_budget_time

theorem Waning.of_eq {L L' : Ledger} (buyings : L'.buyings = L.buyings) (contents : L'.contents = L.contents)
    (applied : L'.applied = L.applied) (time : L'.properties.time = L.properties.time)
    (last_budget_time : L'.properties.last_budget_time = L.properties.last_budget_time) : Waning L L' where
  buyings := by rw [buyings]; exact fun found waits => ⟨_,found,waits,rfl⟩
  next_content := by rw [contents]
  expirations := by rw [contents]; exact fun _ => rfl
  names := by rw [contents]; exact fun _ => rfl
  returned := by rw [applied]; exact fun _ => rfl
  time := time
  last_budget_time := last_budget_time

instance waning_composes : Composes Waning where
  refl _ := .of_eq rfl rfl rfl rfl rfl
  trans first second := {
    buyings := by
      intro id b' found waits
      obtain ⟨b₁,found₁,waits₁,same₁⟩ := second.buyings found waits
      obtain ⟨b,found,waits,same⟩ := first.buyings found₁ waits₁
      exact ⟨b,found,waits,same.trans same₁⟩
    next_content := second.next_content.trans first.next_content
    expirations := fun id => (second.expirations id).trans (first.expirations id)
    names := fun id => (second.names id).trans (first.names id)
    returned := fun id => (second.returned id).trans (first.returned id)
    time := second.time.trans first.time
    last_budget_time := second.last_budget_time.trans first.last_budget_time }

theorem Aside.uris {L L' : Ledger} (aside : Aside L L') (id : Nat) :
    (L'.contents.find? id).map (·.URI) = (L.contents.find? id).map (·.URI) := by
  have same := congrArg (Option.map Prod.fst) (aside.names id)
  simpa only [Option.map_map,Function.comp_def] using same

theorem Aside.waning {L L' : Ledger} (aside : Aside L L') : Waning L L' where
  buyings := by rw [aside.buyings]; exact fun found waits => ⟨_,found,waits,rfl⟩
  next_content := aside.next_content
  expirations := aside.expirations
  names := aside.uris
  returned := aside.returned
  time := aside.time
  last_budget_time := aside.last_budget_time

instance {α : Type} {x : M α} [within : Within Aside x] : Within Waning x where
  keeps L := (within.keeps L).waning

theorem waning_modify_buying {id : Nat} {f : Buying → Buying}
    (closes : ∀ b, (f b).expiration_time = b.expiration_time ∧ ((f b).waits = true → b.waits = true)) :
    Within Waning (modify_buying id f) := by
  refine .modify fun L => { @Waning.of_eq L L rfl rfl rfl rfl rfl with buyings := ?_ }
  intro k b' found waits
  have found : (L.buyings.update id f).find? k = some b' := found
  rw [Index.find?_update] at found
  split at found
  case isFalse => exact ⟨b',found,waits,rfl⟩
  case isTrue here =>
    obtain ⟨b,before,rfl⟩ := Option.map_eq_some_iff.mp found
    exact ⟨b,here ▸ before,(closes b).2 waits,(closes b).1.symm⟩

theorem waning_push {v : VirtualOperation} (other : ∀ id, returns id v = false) : Within Waning (push_applied_operation v) where
  keeps L := ((aside_push other).keeps L).waning

instance (id : Nat) (refund : Bool) (entitled : List AccountId) (account : AccountId) (amount : Asset) :
    Within Waning (pay_escrow id refund entitled account amount) := by
  have noted (p : Payment) : Within Waning (modify fun L : Ledger => { L with payments := p :: L.payments } : M Unit) :=
    .modify fun _ => .of_eq rfl rfl rfl rfl rfl
  unfold pay_escrow
  infer_instance

instance (id : Nat) (amount : Asset) (content : Content) : Within Waning (content_payout id amount content) := by
  unfold content_payout
  dsimp only
  split
  · infer_instance
  · infer_instance

instance (id : Nat) (b : Buying) : Within Waning (buying_expire id b) := by
  have closed (now : Nat) : Within Waning (modify_buying id fun bo => { bo with
      price := { bo.price with amount := 0 }, expired := true, expiration_or_delivery_time := now }) :=
    waning_modify_buying fun b => ⟨rfl,by simp [Buying.waits]⟩
  have pushed : Within Waning (push_applied_operation (.return_escrow_buying b.consumer b.price id)) := waning_push fun _ => rfl
  unfold buying_expire
  infer_instance

instance (id k : Nat) (b : Buying) (content : Content) : Within Waning (finish_buying id b k content) := by
  have closed (now : Nat) : Within Waning (modify_buying id fun bo => { bo with
      price := { bo.price with amount := 0 }, delivered := true, expiration_or_delivery_time := now }) :=
    waning_modify_buying fun b => ⟨rfl,by simp [Buying.waits]⟩
  have pushed (after : Asset) : Within Waning (push_applied_operation (.finish_buying content.author after b.consumer id)) :=
    waning_push fun _ => rfl
  unfold finish_buying
  infer_instance

instance (o : DeliverKeysOperation) (b : Buying) : Within Waning (note_answer o b) := by
  have noted : Within Waning (modify_buying o.buying fun bo => { bo with
      seeders_answered := bo.seeders_answered ++ [o.seeder], key_particles := bo.key_particles ++ [o.key] }) :=
    waning_modify_buying fun b => ⟨rfl,id⟩
  unfold note_answer
  infer_instance

instance (o : DeliverKeysOperation) : Within Waning (deliver_keys_apply o) := by
  unfold deliver_keys_apply
  infer_instance

instance (ids : List Nat) : Within Waning (expire_buyings ids) := by
  induction ids with
  | nil => exact inferInstanceAs (Within Waning (pure ()))
  | cons id rest ih =>
    unfold expire_buyings
    refine .andThen fun L => ?_
    split <;> infer_instance

/-! ### What every step keeps -/

/-- Up to `last_budget_time` every content was returned once and no buying waits; nothing that
    ends later was returned. -/
structure Timely (L : Ledger) : Prop where
  clock : L.properties.last_budget_time ≤ L.properties.time
  contents : ∀ {id e}, (L.contents.find? id).map (·.expiration) = some e →
    L.applied.countP (returns id) = if e ≤ L.properties.last_budget_time then 1 else 0
  fresh : ∀ {id}, L.contents.next ≤ id → L.applied.countP (returns id) = 0
  names : ∀ {id id' name}, (L.contents.find? id).map (·.URI) = some name → (L.contents.find? id').map (·.URI) = some name →
    id = id'
  buyings : ∀ {id b}, L.buyings.find? id = some b → b.waits = true → L.properties.last_budget_time < b.expiration_time

/-- A day after the head the clock has not run over. -/
def InTime (L : Ledger) : Prop := L.properties.time + day < 2^32

theorem Timely.waning {L L' : Ledger} (waning : Waning L L') (timely : Timely L) : Timely L' where
  clock := by rw [waning.time,waning.last_budget_time]; exact timely.clock
  contents := by
    intro id e ends
    rw [waning.expirations] at ends
    rw [waning.returned,waning.last_budget_time]
    exact timely.contents ends
  fresh := by
    intro id above
    rw [waning.next_content] at above
    rw [waning.returned]
    exact timely.fresh above
  names := by
    intro id id' name named named'
    rw [waning.names] at named named'
    exact timely.names named named'
  buyings := by
    intro id b' found waits
    obtain ⟨b,before,waited,same⟩ := waning.buyings found waits
    rw [waning.last_budget_time,← same]
    exact timely.buyings before waited

theorem InTime.waning {L L' : Ledger} (waning : Waning L L') (inTime : InTime L) : InTime L' := by
  unfold InTime
  rw [waning.time]
  exact inTime

theorem later_day {L : Ledger} (inTime : InTime L) : later L.properties.time day = L.properties.time + day :=
  Nat.mod_eq_of_lt inTime

/-- A new buying ends a day from now. -/
theorem timely_buy (o : RequestToBuyOperation) (ctx : BuyingContext) :
    Preserves (fun L => Timely L ∧ InTime L) (request_to_buy_apply o ctx) := by
  have opened {L₁ : Ledger} (timely : Timely L₁) (inTime : InTime L₁) (delivered : Bool) (paid after : Asset) :
      Timely (L₁.with_buying (new_buying o delivered paid after L₁.properties.time)) := by
    refine { timely with buyings := ?_ }
    intro id b found waits
    have found : (L₁.buyings.create (new_buying o delivered paid after L₁.properties.time)).find? id = some b := found
    rw [Index.find?_create] at found
    split at found
    case isFalse => exact timely.buyings found waits
    case isTrue =>
      cases found
      show L₁.properties.last_budget_time < later L₁.properties.time day
      rw [later_day inTime]
      exact Nat.lt_of_le_of_lt timely.clock (Nat.lt_add_of_pos_right (by decide))
  rintro L L' u ⟨timely,inTime⟩ ran
  cases request_to_buy_ok ran with
  | waiting k content after L₁ L₂ now clock read converted taken counted =>
    have first : Waning L L₁ := Within.ok inferInstance converted
    subst clock
    have rest : Waning _ L' := waning_composes.trans (Within.ok inferInstance taken) (Within.ok inferInstance counted)
    have inTime₁ := inTime.waning first
    exact ⟨(opened (timely.waning first) inTime₁ _ _ _).waning rest,InTime.waning rest inTime₁⟩
  | delivered k content after L₁ L₂ L₃ now clock read converted taken paid counted =>
    have first : Waning L L₁ := Within.ok inferInstance converted
    subst clock
    have pushed : Within Waning
        (push_applied_operation (.finish_buying content.author after o.consumer L₁.buyings.next)) := waning_push fun _ => rfl
    have rest : Waning _ L' := waning_composes.trans (Within.ok inferInstance taken)
      (waning_composes.trans (Within.ok inferInstance paid) (Within.ok inferInstance counted))
    have inTime₁ := inTime.waning first
    exact ⟨(opened (timely.waning first) inTime₁ _ _ _).waning rest,InTime.waning rest inTime₁⟩

theorem find_content_none {L : Ledger} {name : String} (missing : L.find_content name = none) (id : Nat) :
    (L.contents.find? id).map (·.URI) ≠ some name := by
  intro named
  obtain ⟨c,found,same⟩ := Option.map_eq_some_iff.mp named
  exact absurd (List.find?_eq_none.mp missing _ (Table.mem_of_find? found)) (by simpa using same)

/-- A content that is entered ends later than the last scan. -/
theorem Timely.create {L : Ledger} {c : Content} (timely : Timely L) (ahead : L.properties.last_budget_time < c.expiration)
    (named : ∀ id, (L.contents.find? id).map (·.URI) ≠ some c.URI) : Timely { L with contents := L.contents.create c } where
  clock := timely.clock
  contents := by
    intro id e ends
    have ends : ((L.contents.create c).find? id).map (·.expiration) = some e := ends
    rw [Index.find?_create] at ends
    split at ends
    case isFalse => exact timely.contents ends
    case isTrue here =>
      cases ends
      show L.applied.countP (returns id) = if c.expiration ≤ L.properties.last_budget_time then 1 else 0
      rw [timely.fresh (Nat.le_of_eq here.symm),if_neg (Nat.not_le.mpr ahead)]
  fresh := fun above => timely.fresh (Nat.le_of_succ_le above)
  names := by
    intro id id' name here here'
    have here : ((L.contents.create c).find? id).map (·.URI) = some name := here
    have here' : ((L.contents.create c).find? id').map (·.URI) = some name := here'
    rw [Index.find?_create] at here here'
    split at here
    case isTrue new =>
      cases here
      split at here'
      case isTrue new' => rw [new,new']
      case isFalse => exact absurd here' (named id')
    case isFalse =>
      split at here'
      case isTrue =>
        cases here'
        exact absurd here (named id)
      case isFalse => exact timely.names here here'
  buyings := timely.buyings

/-- A content that ends earlier now, but not before the head. -/
theorem Timely.shorten {L : Ledger} {id : Nat} {c : Content} {f : Content → Content} (timely : Timely L)
    (found : L.contents.find? id = some c) (before : L.properties.time < c.expiration)
    (ahead : L.properties.time < (f c).expiration) (named : ∀ c, (f c).URI = c.URI) :
    Timely { L with contents := L.contents.update id f } where
  clock := timely.clock
  contents := by
    intro k e ends
    have ends : ((L.contents.update id f).find? k).map (·.expiration) = some e := ends
    rw [Index.find?_update] at ends
    split at ends
    case isFalse => exact timely.contents ends
    case isTrue here =>
      rw [found] at ends
      cases ends
      have scanned : ∀ t, L.properties.time < t → ¬ t ≤ L.properties.last_budget_time :=
        fun t later => Nat.not_le.mpr (Nat.lt_of_le_of_lt timely.clock later)
      show L.applied.countP (returns k) = if (f c).expiration ≤ L.properties.last_budget_time then 1 else 0
      rw [here,timely.contents (e := c.expiration) (by rw [found]; rfl),if_neg (scanned _ before),if_neg (scanned _ ahead)]
  fresh := by
    intro k above
    rw [Index.next_update] at above
    exact timely.fresh above
  names := by
    have same (k : Nat) : ((L.contents.update id f).find? k).map (·.URI) = (L.contents.find? k).map (·.URI) :=
      Index.map_find?_update L.contents id k named
    intro k k' name here here'
    exact timely.names ((same k).symm.trans here) ((same k').symm.trans here')
  buyings := timely.buyings

theorem timely_submit {env : Env} {o : ContentSubmitOperation} {content : Option Nat} {L₀ L L' : Ledger}
    (evaluated : content_submit_evaluate env o L₀ = .ok content) (aside : Aside L₀ L) (timely : Timely L)
    (ran : EStateM.run (content_submit_apply o content) L = .ok () L') :
    Timely L' ∧ L'.properties.time = L.properties.time := by
  obtain ⟨ahead,new⟩ := content_submit_evaluate_ok evaluated
  cases content with
  | some id =>
    have again : Within Aside (modify_content id fun co =>
        { co with price := set_prices co.price o.price, co_authors := o.co_authors }) :=
      aside_modify_content (fun _ => rfl) fun _ => ⟨rfl,rfl⟩
    have waning := (again.ok ran).waning
    exact ⟨timely.waning waning,waning.time⟩
  | none =>
    simp only [content_submit_apply,run_bind_ok,run_observe,head_block_time,reads_read,reads_pure] at ran
    obtain ⟨now,_,⟨rfl,rfl⟩,_,_,got,_,_,created,_,_,⟨negated,rfl⟩,rest⟩ := ran
    cases got
    cases created
    obtain ⟨_,L₂,charged,_,L₃,noted,_,L₄,reserved,requested⟩ := rest
    have missing := find_content_none new.1
    have entered : Timely { L with contents := L.contents.create (new_content o L.properties.time) } := by
      refine timely.create ?_ fun id => ?_
      · show L.properties.last_budget_time < o.expiration
        exact Nat.lt_of_le_of_lt timely.clock (by rw [aside.time]; exact ahead)
      · rw [aside.uris]
        exact missing id
    have paid : Waning _ L₃ := waning_composes.trans (Within.ok inferInstance charged) (Within.ok inferInstance noted)
    have rest : Waning _ L' := waning_composes.trans paid
      (waning_composes.trans (Within.ok inferInstance reserved) (Within.ok inferInstance requested))
    exact ⟨entered.waning rest,rest.time⟩

theorem timely_cancel {o : ContentCancellationOperation} {L₀ L L' : Ledger}
    (evaluated : content_cancellation_evaluate o L₀ = .ok ()) (aside : Aside L₀ L) (timely : Timely L) (inTime : InTime L)
    (ran : EStateM.run (content_cancellation_apply o) L = .ok () L') :
    Timely L' ∧ L'.properties.time = L.properties.time := by
  simp only [content_cancellation_evaluate,reads_bind,reads_lift,fc_assert_ok,head_block_time,reads_pure] at evaluated
  obtain ⟨⟨id₀,c₀⟩,read₀,_,-,_,⟨_,got,rfl⟩,_,before,-⟩ := evaluated
  cases got
  simp only [content_cancellation_apply,run_bind_ok,run_observe,head_block_time,reads_read,reads_pure] at ran
  obtain ⟨⟨id,c⟩,_,⟨read,rfl⟩,now,_,⟨rfl,rfl⟩,changed⟩ := ran
  cases changed
  obtain ⟨found₀,name₀⟩ := get_content_ok read₀
  obtain ⟨found,name⟩ := get_content_ok read
  -- There is one content of this name, so it is the one that was checked.
  have same : id₀ = id := by
    have named : (L.contents.find? id).map (·.URI) = some o.URI := by rw [found,← name]; rfl
    refine timely.names ?_ named
    rw [aside.uris,found₀,← name₀]
    rfl
  subst same
  have ends : c.expiration = c₀.expiration := by
    have kept := aside.expirations id₀
    rw [found,found₀] at kept
    exact Option.some.inj kept
  have before : L.properties.time < c.expiration := by
    rw [ends,aside.time]
    exact before
  refine ⟨timely.shorten found before ?_ fun _ => rfl,rfl⟩
  show L.properties.time < if later L.properties.time day < c.expiration then later L.properties.time day else c.expiration
  split
  · rw [later_day inTime]
    exact Nat.lt_add_of_pos_right (by decide)
  · exact before

theorem timely_steady : Steady fun L => Timely L ∧ InTime L where
  aside := fun aside ⟨timely,inTime⟩ => ⟨timely.waning aside.waning,inTime.waning aside.waning⟩
  submit := by
    rintro env o content L₀ L L' evaluated aside ⟨timely,inTime⟩ ran
    obtain ⟨timely',time⟩ := timely_submit evaluated aside timely ran
    exact ⟨timely',by rw [InTime,time]; exact inTime⟩
  cancel := by
    rintro o L₀ L L' evaluated aside ⟨timely,inTime⟩ ran
    obtain ⟨timely',time⟩ := timely_cancel evaluated aside timely inTime ran
    exact ⟨timely',by rw [InTime,time]; exact inTime⟩
  buy := timely_buy
  deliver := fun o => Within.preserves inferInstance fun waning ⟨timely,inTime⟩ => ⟨timely.waning waning,inTime.waning waning⟩

/-! ### The scans of a maintenance -/

/-- The contents `ids` were expired, each as often as it is listed. -/
structure Lapsed (ids : List Nat) (L L' : Ledger) : Prop where
  buyings : L'.buyings = L.buyings
  next_content : L'.contents.next = L.contents.next
  expirations : ∀ id, (L'.contents.find? id).map (·.expiration) = (L.contents.find? id).map (·.expiration)
  names : ∀ id, (L'.contents.find? id).map (·.URI) = (L.contents.find? id).map (·.URI)
  returned : ∀ id, L'.applied.countP (returns id) = L.applied.countP (returns id) + ids.count id
  time : L'.properties.time = L.properties.time
  last_budget_time : L'.properties.last_budget_time = L.properties.last_budget_time

theorem Aside.lapsed {L L' : Ledger} (aside : Aside L L') : Lapsed [] L L' where
  buyings := aside.buyings
  next_content := aside.next_content
  expirations := aside.expirations
  names := aside.uris
  returned := aside.returned
  time := aside.time
  last_budget_time := aside.last_budget_time

theorem Lapsed.trans {ids ids' : List Nat} {L L₁ L₂ : Ledger} (first : Lapsed ids L L₁) (second : Lapsed ids' L₁ L₂) :
    Lapsed (ids ++ ids') L L₂ where
  buyings := second.buyings.trans first.buyings
  next_content := second.next_content.trans first.next_content
  expirations := fun id => (second.expirations id).trans (first.expirations id)
  names := fun id => (second.names id).trans (first.names id)
  returned := fun id => by rw [second.returned,first.returned,List.count_append,Nat.add_assoc]
  time := second.time.trans first.time
  last_budget_time := second.last_budget_time.trans first.last_budget_time

theorem content_expire_lapsed {L L' : Ledger} {id : Nat} {content : Content} {u : Unit}
    (ran : EStateM.run (content_expire id content) L = .ok u L') : Lapsed [id] L L' := by
  have emptied : Within Aside (modify_content id fun co =>
      { co with publishing_fee_escrow := { co.publishing_fee_escrow with amount := 0 } }) :=
    aside_modify_content (fun _ => rfl) fun _ => ⟨rfl,rfl⟩
  have pushed {L₁ : Ledger} (author : AccountId) (escrow : Asset) : Lapsed [id] L₁
      { L₁ with applied := .return_escrow_submission author escrow id :: L₁.applied } := by
    refine ⟨rfl,rfl,fun _ => rfl,fun _ => rfl,fun k => ?_,rfl,rfl⟩
    show List.countP (returns k) (_ :: L₁.applied) = _
    rw [List.countP_cons,List.count_singleton]
    simp [returns]
  simp only [content_expire,run_bind_ok] at ran
  obtain ⟨_,L₁,paid,_,L₂,noted,_,L₃,changed,_,L₄,forgotten,last⟩ := ran
  have settled : Aside L L₂ := aside_composes.trans (Within.ok inferInstance paid) (Within.ok inferInstance noted)
  have aside : Aside L L₄ := aside_composes.trans settled
    (aside_composes.trans (Within.ok emptied changed) (Within.ok inferInstance forgotten))
  cases last
  exact aside.lapsed.trans (pushed _ _)

theorem expire_contents_lapsed {ids : List Nat} {L L' : Ledger} {u : Unit}
    (ran : EStateM.run (expire_contents ids) L = .ok u L') : Lapsed ids L L' := by
  induction ids generalizing L with
  | nil =>
    cases ran
    exact (aside_composes.refl _).lapsed
  | cons id rest ih =>
    obtain ⟨content,L₁,-,expired,ran⟩ := expire_contents_cons_ok ran
    exact (content_expire_lapsed expired).trans (ih ran)

/-- The buyings `ids` wait no longer, the others as before. -/
theorem expire_buyings_waits {ids : List Nat} {L L' : Ledger} {u : Unit}
    (ran : EStateM.run (expire_buyings ids) L = .ok u L') (k : Nat) :
    (L'.buyings.find? k).map (fun b => (b.waits,b.expiration_time)) =
      (L.buyings.find? k).map fun b => (b.waits && !ids.contains k,b.expiration_time) := by
  induction ids generalizing L with
  | nil =>
    cases ran
    simp
  | cons id rest ih =>
    obtain ⟨b,found,⟨delivered,ran⟩ | ⟨undelivered,L₁,expired,ran⟩⟩ := expire_buyings_cons_ok ran
    · rw [ih ran]
      by_cases here : k = id
      · rw [here,found]
        simp [Buying.waits,delivered]
      · simp [here]
    · have buyings := congrArg Ledger.buyings (buying_expire_ok expired)
      have buyings : L₁.buyings = L.buyings.update id (returned_buying L.properties.time) := buyings
      rw [ih ran,buyings,Index.find?_update]
      by_cases here : k = id
      · rw [if_pos here,here,found]
        simp [Buying.waits,returned_buying]
      · rw [if_neg here]
        simp [here]

/-- Where both scans of a maintenance start. -/
def scan_start (L : Ledger) : Nat := later L.properties.last_budget_time L.parameters.block_interval

def scanned_contents (L : Ledger) : List Nat :=
  scan Content.expiration (scan_start L) L.properties.time L.contents.table.rows

def scanned_buyings (L : Ledger) : List Nat :=
  scan Buying.expiration_time (scan_start L) L.properties.time L.buyings.table.rows

/-- What a maintenance does to contents and buyings: the next one scans from this head on. -/
structure Maintained (L L' : Ledger) : Prop where
  next_content : L'.contents.next = L.contents.next
  expirations : ∀ id, (L'.contents.find? id).map (·.expiration) = (L.contents.find? id).map (·.expiration)
  names : ∀ id, (L'.contents.find? id).map (·.URI) = (L.contents.find? id).map (·.URI)
  returned : ∀ id, L'.applied.countP (returns id) = L.applied.countP (returns id) + (scanned_contents L).count id
  buyings : ∀ id, (L'.buyings.find? id).map (fun b => (b.waits,b.expiration_time)) =
    (L.buyings.find? id).map fun b => (b.waits && !(scanned_buyings L).contains id,b.expiration_time)
  time : L'.properties.time = L.properties.time
  last_budget_time : L'.properties.last_budget_time = L.properties.time

theorem decent_housekeeping_ok {L L' : Ledger} {u : Unit} (ran : EStateM.run decent_housekeeping L = .ok u L') :
    ∃ L₁ L₂, Lapsed (scanned_contents L) L L₁ ∧ EStateM.run (expire_buyings (scanned_buyings L)) L₁ = .ok () L₂ ∧
      Aside L₂ L' := by
  simp only [decent_housekeeping,run_bind_ok] at ran
  obtain ⟨_,_,counters,_,_,got,_,L₁,lapsed,_,_,got₁,_,L₂,expired,_,_,got₂,renewed⟩ := ran
  cases counters
  cases got
  cases got₁
  cases got₂
  have first := expire_contents_lapsed lapsed
  have first : Lapsed (scanned_contents L) L L₁ := ⟨first.buyings,first.next_content,first.expirations,first.names,
    first.returned,first.time,first.last_budget_time⟩
  refine ⟨L₁,L₂,first,?_,Within.ok inferInstance renewed⟩
  rw [scanned_buyings,← first.buyings,← first.time]
  exact expired

/-- The budget is written to the pools and the properties; the next scan starts from this head. -/
theorem process_budget_frame {L L' : Ledger} {u : Unit} (ran : EStateM.run process_budget L = .ok u L') :
    L' = { L with assets := L'.assets, properties := L'.properties } ∧
      L'.properties.time = L.properties.time ∧ L'.properties.last_budget_time = L.properties.time := by
  simp only [process_budget,run_get_bind,run_observe_bind] at ran
  obtain ⟨_,-,_,-,_,-,_,-,_,-,_,-,_,-,_,-,_,-,ran⟩ := ran
  obtain ⟨_,_,changed,stored⟩ := run_bind_ok.mp ran
  obtain ⟨_,_,_,_,rfl⟩ := modify_dynamic_ok changed
  cases stored
  exact ⟨rfl,rfl,rfl⟩

theorem process_budget_clock {L L' : Ledger} {u : Unit} (ran : EStateM.run process_budget L = .ok u L') :
    L'.buyings = L.buyings ∧ L'.contents = L.contents ∧ L'.applied = L.applied ∧
      L'.properties.time = L.properties.time ∧ L'.properties.last_budget_time = L.properties.time := by
  obtain ⟨frame,clock⟩ := process_budget_frame ran
  exact ⟨by rw [frame],by rw [frame],by rw [frame],clock⟩

theorem maintenance_ok {L L' : Ledger} {u : Unit} (ran : EStateM.run (perform .maintenance) L = .ok u L') : Maintained L L' := by
  simp only [perform,perform_chain_maintenance,run_bind_ok,run_observe] at ran
  obtain ⟨_,_,got,_,_,⟨-,rfl⟩,_,_,⟨-,rfl⟩,_,L₃,housekept,_,L₄,settled,_,_,got₁,ran⟩ := ran
  cases got
  cases settled
  cases got₁
  obtain ⟨L₁,L₂,lapsed,expired,renewed⟩ := decent_housekeeping_ok housekept
  have closed : Waning L₁ L₂ := Within.ok inferInstance expired
  have rest : L'.buyings = L₃.buyings ∧ L'.contents = L₃.contents ∧ L'.applied = L₃.applied ∧
      L'.properties.time = L₃.properties.time ∧ L'.properties.last_budget_time = L₃.properties.time := by
    split at ran
    case isTrue =>
      obtain ⟨_,_,scheduled,ran⟩ := run_bind_ok.mp ran
      cases scheduled
      have clock := process_budget_clock ran
      exact clock
    case isFalse =>
      have clock := process_budget_clock ran
      exact clock
  obtain ⟨buyings,contents,applied,time,last⟩ := rest
  have now : L₃.properties.time = L.properties.time := renewed.time.trans (closed.time.trans lapsed.time)
  exact {
    next_content := by rw [contents,renewed.next_content,closed.next_content,lapsed.next_content]
    expirations := fun id => by rw [contents,renewed.expirations,closed.expirations,lapsed.expirations]
    names := fun id => by rw [contents,renewed.uris,closed.names,lapsed.names]
    returned := fun id => by rw [applied,renewed.returned,closed.returned,lapsed.returned]
    buyings := fun id => by rw [buyings,renewed.buyings,expire_buyings_waits expired,lapsed.buyings]
    time := time.trans now
    last_budget_time := last.trans now }

/-! ### Every run -/

/-- The scan of this maintenance takes up where the last one ended: a content that is due was
    not scanned before exactly if this scan meets it, and no buying that is due falls behind
    its start. -/
structure Gapless (L : Ledger) : Prop where
  contents : ∀ {id c}, L.contents.find? id = some c → c.expiration ≤ L.properties.time →
    (L.properties.last_budget_time < c.expiration ↔ scan_start L ≤ c.expiration)
  buyings : ∀ {id b}, L.buyings.find? id = some b → b.waits = true → b.expiration_time ≤ L.properties.time →
    scan_start L ≤ b.expiration_time

/-- Operations come before the clock runs over, and maintenances leave no gap. -/
def Seamless (L : Ledger) : Action → Prop
  | .operation .. => InTime L
  | .maintenance => Gapless L
  | _ => True

/-- Housekeeping has missed nothing up to the head: every content that has run out was expired
    exactly once, and no buying waits beyond its time. -/
structure Complete (L : Ledger) : Prop where
  contents : ∀ {id c}, L.contents.find? id = some c → c.expiration ≤ L.properties.time → L.applied.countP (returns id) = 1
  buyings : ∀ {id b}, L.buyings.find? id = some b → b.waits = true → ¬ b.expiration_time ≤ L.properties.time

theorem Maintained.count {L L' : Ledger} {id : Nat} {c : Content} (maintained : Maintained L L') (timely : Timely L)
    (found : L.contents.find? id = some c) : L'.applied.countP (returns id) =
      (if c.expiration ≤ L.properties.last_budget_time then 1 else 0) +
        if scan_start L ≤ c.expiration ∧ c.expiration ≤ L.properties.time then 1 else 0 := by
  rw [maintained.returned,timely.contents (e := c.expiration) (by rw [found]; rfl),scanned_contents,count_scan found]

theorem Maintained.content {L L' : Ledger} {id : Nat} {c' : Content} (maintained : Maintained L L')
    (found : L'.contents.find? id = some c') : ∃ c, L.contents.find? id = some c ∧ c.expiration = c'.expiration := by
  have same := maintained.expirations id
  rw [found] at same
  obtain ⟨c,found,ends⟩ := Option.map_eq_some_iff.mp same.symm
  exact ⟨c,found,ends⟩

theorem Maintained.waiting {L L' : Ledger} {id : Nat} {b' : Buying} (maintained : Maintained L L')
    (found : L'.buyings.find? id = some b') (waits : b'.waits = true) :
    ∃ b, L.buyings.find? id = some b ∧ b.waits = true ∧ b.expiration_time = b'.expiration_time ∧
      ¬ (scan_start L ≤ b.expiration_time ∧ b.expiration_time ≤ L.properties.time) := by
  have same := maintained.buyings id
  rw [found] at same
  obtain ⟨b,before,kept⟩ := Option.map_eq_some_iff.mp same.symm
  obtain ⟨waited,ends⟩ := Prod.mk.inj kept
  rw [waits,Bool.and_eq_true] at waited
  refine ⟨b,before,waited.1,ends,fun within => ?_⟩
  have member : id ∈ scanned_buyings L := mem_scan.mpr ⟨b,Table.mem_of_find? before,within⟩
  simp [member] at waited

theorem gapless_complete {L L' : Ledger} (timely : Timely L) (maintained : Maintained L L') (gapless : Gapless L) :
    Complete L' where
  contents := by
    intro id c' found' due
    obtain ⟨c,found,ends⟩ := maintained.content found'
    rw [maintained.time,← ends] at due
    rw [maintained.count timely found]
    have once := gapless.contents found due
    by_cases before : c.expiration ≤ L.properties.last_budget_time
    · have outside : ¬ scan_start L ≤ c.expiration := fun inside => Nat.not_lt.mpr before (once.mpr inside)
      rw [if_pos before,if_neg fun within => outside within.1]
    · rw [if_neg before,if_pos ⟨once.mp (Nat.not_le.mp before),due⟩]
  buyings := by
    intro id b' found' waits due
    obtain ⟨b,found,waited,ends,unscanned⟩ := maintained.waiting found' waits
    rw [maintained.time,← ends] at due
    exact unscanned ⟨gapless.buyings found waited due,due⟩

theorem complete_gapless {L L' : Ledger} (timely : Timely L) (maintained : Maintained L L') (complete : Complete L') :
    Gapless L where
  contents := by
    intro id c found due
    have same := maintained.expirations id
    rw [found] at same
    obtain ⟨c',found',ends⟩ := Option.map_eq_some_iff.mp same
    have once := complete.contents found' (by rw [maintained.time,ends]; exact due)
    rw [maintained.count timely found] at once
    by_cases before : c.expiration ≤ L.properties.last_budget_time
    · rw [if_pos before] at once
      have outside : ¬ scan_start L ≤ c.expiration := by
        intro inside
        rw [if_pos ⟨inside,due⟩] at once
        exact absurd once (by decide)
      exact iff_of_false (Nat.not_lt.mpr before) outside
    · rw [if_neg before] at once
      have inside : scan_start L ≤ c.expiration := by
        by_contra outside
        rw [if_neg fun within => outside within.1] at once
        exact absurd once (by decide)
      exact iff_of_true (Nat.not_le.mp before) inside
  buyings := by
    intro id b found waits due
    by_contra outside
    have missed : (scanned_buyings L).contains id = false := by
      rw [← Bool.not_eq_true,List.contains_iff_mem]
      intro member
      obtain ⟨b₁,row,within⟩ := mem_scan.mp member
      cases (Table.find?_of_mem row).symm.trans found
      exact outside within.1
    have same := maintained.buyings id
    rw [found,missed] at same
    obtain ⟨b',found',kept⟩ := Option.map_eq_some_iff.mp same
    obtain ⟨waits',ends⟩ := Prod.mk.inj kept
    exact complete.buyings found' (by rw [waits',waits]; rfl) (by rw [maintained.time,ends]; exact due)

theorem Timely.maintained {L L' : Ledger} (timely : Timely L) (maintained : Maintained L L') (gapless : Gapless L) :
    Timely L' where
  clock := by rw [maintained.time,maintained.last_budget_time]
  contents := by
    have complete := gapless_complete timely maintained gapless
    intro id e ends
    obtain ⟨c',found',rfl⟩ := Option.map_eq_some_iff.mp ends
    rw [maintained.last_budget_time]
    by_cases due : c'.expiration ≤ L.properties.time
    · rw [if_pos due]
      exact complete.contents found' (by rw [maintained.time]; exact due)
    · obtain ⟨c,found,same⟩ := maintained.content found'
      rw [← same] at due ⊢
      rw [maintained.count timely found,if_neg due,if_neg fun early => due (Nat.le_trans early timely.clock),
        if_neg fun within => due within.2]
  fresh := by
    intro id above
    rw [maintained.next_content] at above
    have unlisted : (scanned_contents L).count id = 0 := by
      refine List.count_eq_zero_of_not_mem fun member => ?_
      obtain ⟨c,row,-⟩ := mem_scan.mp member
      exact Nat.not_lt.mpr above (L.contents.below id c (Table.find?_of_mem row))
    rw [maintained.returned,timely.fresh above,unlisted]
  names := by
    intro id id' name named named'
    rw [maintained.names] at named named'
    exact timely.names named named'
  buyings := by
    intro id b found waits
    rw [maintained.last_budget_time,← maintained.time]
    exact Nat.not_le.mp ((gapless_complete timely maintained gapless).buyings found waits)

theorem timely_perform {L L' : Ledger} {action : Action} (timely : Timely L) (meets : Seamless L action)
    (ran : EStateM.run (perform action) L = .ok () L') : Timely L' := by
  cases action with
  | header timestamp =>
    simp only [perform,update_head,run_bind_ok,run_observe,reads_lift,fc_assert_ok] at ran
    obtain ⟨_,_,got,_,_,⟨⟨later,-⟩,rfl⟩,stored⟩ := ran
    cases got
    cases stored
    exact { timely with clock := Nat.le_trans timely.clock (Nat.le_of_lt later) }
  | operation env op => exact (timely_steady.apply_operation env op ⟨timely,meets⟩ ran).1
  | signing_miner miner =>
    have paid : Within Aside (update_signing_miner miner) := inferInstance
    exact timely.waning (paid.ok ran).waning
  | maintenance => exact timely.maintained (maintenance_ok ran) meets
  | settings change =>
    have settled : Within Aside (do_evaluate.settle change) := inferInstance
    exact timely.waning (settled.ok ran).waning

theorem timely_genesis (g : GenesisState) : Timely (init_genesis g) where
  clock := Nat.zero_le _
  contents := fun ends => nomatch ends
  fresh := fun _ => rfl
  names := fun named => nomatch named
  buyings := fun found => nomatch found

theorem Reached.timely {g : GenesisState} {L : Ledger} (reached : Reached g Seamless L) : Timely L :=
  reached.invariant (timely_genesis g) timely_perform

/-- In every run that has left no gap so far, the next maintenance misses nothing if and only if
    it leaves none either. -/
theorem housekeeping_complete_iff (g : GenesisState) (L L' : Ledger) (reached : Reached g Seamless L)
    (ran : EStateM.run (perform .maintenance) L = .ok () L') : Complete L' ↔ Gapless L :=
  ⟨complete_gapless reached.timely (maintenance_ok ran),gapless_complete reached.timely (maintenance_ok ran)⟩

instance (L : Ledger) : Decidable (Gapless L) :=
  decidable_of_iff ((∀ row ∈ L.contents.table.rows, row.2.expiration ≤ L.properties.time →
      (L.properties.last_budget_time < row.2.expiration ↔ scan_start L ≤ row.2.expiration)) ∧
    ∀ row ∈ L.buyings.table.rows, row.2.waits = true → row.2.expiration_time ≤ L.properties.time →
      scan_start L ≤ row.2.expiration_time)
    ⟨fun all => ⟨fun found => all.1 _ (Table.mem_of_find? found),fun found => all.2 _ (Table.mem_of_find? found)⟩,
      fun gapless => ⟨fun _ member => gapless.contents (Table.find?_of_mem member),
        fun _ member => gapless.buyings (Table.find?_of_mem member)⟩⟩

instance (L : Ledger) (action : Action) : Decidable (Seamless L action) :=
  match action with
  | .operation .. => inferInstanceAs (Decidable (L.properties.time + day < 2^32))
  | .maintenance => inferInstanceAs (Decidable (Gapless L))
  | .header _ | .signing_miner _ | .settings _ => inferInstanceAs (Decidable True)

/-- Account 4 publishes a content that runs out at this time, and two maintenances pass. -/
def published_until (expiration : Nat) : List Action :=
  [.header 1530000005,.maintenance,new_account default_account.options,
    .operation free_env (.content_submit {
      fee := ⟨0,core⟩
      author := 4
      co_authors := Table.empty
      URI := "ipfs:book"
      price := [⟨OO_none,⟨10,core⟩⟩]
      size := 1
      hash := 0
      seeders := []
      key_parts := []
      quorum := 0
      expiration := expiration
      publishing_fee := ⟨0,core⟩
      cd := none }),
    .header 1530057600,.maintenance,.header 1530144000,.maintenance,.header 1530230400]

/-- The ledger after these actions, all of them allowed. -/
def seamless_after (actions : List Action) : Ledger :=
  endState (EStateM.run (perform_allowed Seamless actions) (init_genesis small_genesis))

/-- The content runs out five seconds after a maintenance. -/
theorem housekeeping_complete_published : ∃ L', EStateM.run (perform .maintenance)
      (seamless_after (published_until 1530144005)) = .ok () L' ∧ Complete L' ∧
    (L'.contents.find? 0).map (·.expiration) = some 1530144005 := by
  have reached : Reached small_genesis Seamless (seamless_after (published_until 1530144005)) :=
    reached_perform_allowed .genesis (run_of_returned (by decide +kernel))
  have ran := run_of_returned (x := perform .maintenance) (s := seamless_after (published_until 1530144005)) (by decide +kernel)
  exact ⟨_,ran,(housekeeping_complete_iff _ _ _ reached ran).mpr (by decide +kernel),by decide +kernel⟩

/-- The ledger after one more maintenance. -/
def maintained_after (actions : List Action) : Ledger :=
  endState (EStateM.run (perform .maintenance) (after_actions actions))

/-- The content runs out one second after a maintenance, and the next scan starts behind it. -/
theorem content_never_expired : ¬ ∀ L L', Reachable small_genesis L →
    EStateM.run (perform .maintenance) L = .ok () L' → Complete L' := by
  intro complete
  have ran : EStateM.run (perform .maintenance) (after_actions (published_until 1530144001)) =
      .ok () (maintained_after (published_until 1530144001)) := run_of_returned (by decide +kernel)
  have missed : (maintained_after (published_until 1530144001)).applied.countP (returns 0) = 0 := by decide +kernel
  have due : ((maintained_after (published_until 1530144001)).contents.find? 0).map (·.expiration) = some 1530144001 := by
    decide +kernel
  have head : (maintained_after (published_until 1530144001)).properties.time = 1530230400 := by decide +kernel
  obtain ⟨c,found,ends⟩ := Option.map_eq_some_iff.mp due
  have once := (complete _ _ (reachable_after_actions (by decide +kernel)) ran).contents found (by rw [head,ends]; decide)
  exact absurd (once.symm.trans missed) (by decide)

end Decent.Money

import Decent.Housekeeping
import Decent.Seeders

/-!
The submissions that a run accepted, in their order, and what each content has of them. A
content is entered by the first submission of its URI; those that follow write its prices and
co-authors, and no other step touches what was submitted. A submission inside a proposal counts
where the proposal is executed.
-/
namespace Decent.Money
open Throwing

/-! ### The accepted submissions of a run -/

mutual

/-- The submissions among what an operation applies. -/
def Operation.submissions : Operation → List ContentSubmitOperation
  | .content_submit o => [o]
  | .proposal_update _ _ executed => submissions_of executed
  | _ => []

def submissions_of : List Operation → List ContentSubmitOperation
  | [] => []
  | op :: rest => op.submissions ++ submissions_of rest

end

def Action.submissions : Action → List ContentSubmitOperation
  | .operation _ op => op.submissions
  | _ => []

/-- The ledgers of all runs, each with the submissions it accepted. -/
inductive Recorded (g : GenesisState) : List ContentSubmitOperation → Ledger → Prop
  | genesis : Recorded g [] (init_genesis g)
  | step {os : List ContentSubmitOperation} {L L' : Ledger} {action : Action} (before : Recorded g os L)
      (ran : EStateM.run (perform action) L = .ok () L') : Recorded g (os ++ action.submissions) L'

theorem Reached.recorded {g : GenesisState} {allowed : Ledger → Action → Prop} {L : Ledger} (reached : Reached g allowed L) :
    ∃ os, Recorded g os L := by
  induction reached with
  | genesis => exact ⟨[],.genesis⟩
  | step _ _ ran ih =>
    obtain ⟨os,recorded⟩ := ih
    exact ⟨_,recorded.step ran⟩

/-- The operation passed its own checks and those of the evaluator in some state. -/
def Accepted (o : ContentSubmitOperation) : Prop :=
  (Operation.content_submit o).validate = true ∧ ∃ env L content, content_submit_evaluate env o L = .ok content

/-- The prices that a content has after these submissions. -/
def stored_prices (os : List ContentSubmitOperation) : Table Nat Asset :=
  os.foldl (fun prices o => set_prices prices o.price) Table.empty

theorem stored_prices_append (os : List ContentSubmitOperation) (o : ContentSubmitOperation) :
    stored_prices (os ++ [o]) = set_prices (stored_prices os) o.price := by
  rw [stored_prices,List.foldl_append]
  rfl

/-- What a content has of the submissions of its URI. -/
structure Written (os : List ContentSubmitOperation) (c : Content) : Prop where
  submitted : ∃ earlier last, os = earlier ++ [last] ∧ c.author = last.author ∧ c.size = last.size ∧
    c.co_authors = last.co_authors
  price : c.price = stored_prices os

def submitted_as (URI : String) (os : List ContentSubmitOperation) : List ContentSubmitOperation :=
  os.filter fun o => o.URI = URI

/-- Every content is what the submissions made it. -/
structure History (os : List ContentSubmitOperation) (L : Ledger) : Prop where
  accepted : ∀ o ∈ os, Accepted o
  written : ∀ {id c}, L.contents.find? id = some c → Written (submitted_as c.URI os) c
  single : ∀ {id k c d}, L.contents.find? id = some c → L.contents.find? k = some d → c.URI = d.URI → id = k
  entered : ∀ o ∈ os, ∃ id c, L.contents.find? id = some c ∧ c.URI = o.URI

/-! ### What leaves the submissions alone -/

/-- What was submitted of a content. -/
def Content.submitted (c : Content) : String × AccountId × Nat × Table AccountId Nat × Table Nat Asset :=
  (c.URI,c.author,c.size,c.co_authors,c.price)

/-- A change of a content that leaves what was submitted, and the prices of its seeders. -/
structure Lasting (f : Content → Content) : Prop where
  submitted : ∀ c, (f c).submitted = c.submitted
  seeder_price : ∀ c, (f c).seeder_price = c.seeder_price

/-- A relation that allows these, and any applied operation. -/
class Listing (R : Ledger → Ledger → Prop) : Prop extends Composes R where
  content : ∀ L id f, Lasting f → R L { L with contents := L.contents.update id f }
  returned : ∀ L v, R L { L with applied := v :: L.applied }

section
variable {R : Ledger → Ledger → Prop} [listing : Listing R]

theorem within_lasting {id : Nat} {f : Content → Content} (lasting : Lasting f) : Within R (modify_content id f) :=
  .modify fun L => listing.content L id f lasting

instance : Selling R where
  sold L id := listing.content L id _ ⟨fun _ => rfl,fun _ => rfl⟩

instance : Logging R where
  applied L v _ := listing.returned L v

instance (o : ContentCancellationOperation) : Within R (content_cancellation_apply o) := by
  have cancelled (id now : Nat) : Within R (modify_content id fun co => { co with
      is_blocked := true
      expiration := if later now day < co.expiration then later now day else co.expiration }) :=
    within_lasting ⟨fun _ => by simp only [Content.submitted],fun _ => rfl⟩
  unfold content_cancellation_apply
  infer_instance

instance [Entering R] [Accounting R] [Counting R] (id : Nat) (content : Content) : Within R (content_expire id content) := by
  have emptied : Within R (modify_content id fun co =>
      { co with publishing_fee_escrow := { co.publishing_fee_escrow with amount := 0 } }) :=
    within_lasting ⟨fun _ => rfl,fun _ => rfl⟩
  have pushed : Within R (push_applied_operation
      (.return_escrow_submission content.author content.publishing_fee_escrow id)) := .modify fun L => listing.returned L _
  unfold content_expire
  infer_instance

instance [Entering R] [Accounting R] [Counting R] (o : ProofOfCustodyOperation) : Within R (proof_of_custody_apply o) := by
  unfold proof_of_custody_apply
  refine .andThen fun ⟨id,content⟩ => .andThen fun L => ?_
  have proved (now : Nat) : Within R (modify_content id fun co =>
      { co with last_proof := co.last_proof.put o.seeder now }) := within_lasting ⟨fun _ => rfl,fun _ => rfl⟩
  have spent (now : Nat) (escrow : Asset) : Within R (modify_content id fun co => { co with
      last_proof := co.last_proof.put o.seeder now
      publishing_fee_escrow := escrow }) := within_lasting ⟨fun _ => rfl,fun _ => rfl⟩
  have pushed (payout : Asset) : Within R (push_applied_operation (.pay_seeder content.author o.seeder payout)) :=
    .modify fun L => listing.returned L _
  dsimp only
  split
  · infer_instance
  · split
    · infer_instance
    · refine .andThen fun _ => .andThen fun reward => .andThen fun escrow => ?_
      infer_instance

end

/-- The contents are there as they were submitted. -/
def Lodged (L L' : Ledger) : Prop :=
  ∀ id, (L'.contents.find? id).map Content.submitted = (L.contents.find? id).map Content.submitted

theorem Lodged.of_eq {L L' : Ledger} (contents : L'.contents = L.contents) : Lodged L L' := by
  intro id
  rw [contents]

instance : Composes Lodged where
  refl _ := .of_eq rfl
  trans first second id := (second id).trans (first id)

theorem Lodged.found {L L' : Ledger} (lodged : Lodged L L') {id : Nat} {c' : Content} (found : L'.contents.find? id = some c') :
    ∃ c, L.contents.find? id = some c ∧ c.submitted = c'.submitted := by
  have same := lodged id
  rw [found] at same
  exact Option.map_eq_some_iff.mp same.symm

theorem Lodged.kept {L L' : Ledger} (lodged : Lodged L L') {id : Nat} {c : Content} (found : L.contents.find? id = some c) :
    ∃ c', L'.contents.find? id = some c' ∧ c'.submitted = c.submitted := by
  have same := lodged id
  rw [found] at same
  exact Option.map_eq_some_iff.mp same

theorem Written.carry {os : List ContentSubmitOperation} {c c' : Content} (written : Written os c)
    (same : c.submitted = c'.submitted) : Written os c' := by
  simp only [Content.submitted,Prod.mk.injEq] at same
  obtain ⟨-,author,size,co_authors,price⟩ := same
  obtain ⟨earlier,last,parts,wrote,sized,shared⟩ := written.submitted
  exact ⟨⟨earlier,last,parts,author.symm.trans wrote,size.symm.trans sized,co_authors.symm.trans shared⟩,
    price.symm.trans written.price⟩

theorem URI_of_submitted {c c' : Content} (same : c.submitted = c'.submitted) : c.URI = c'.URI :=
  congrArg (·.1) same

theorem History.lodged {os : List ContentSubmitOperation} {L L' : Ledger} (lodged : Lodged L L') (history : History os L) :
    History os L' where
  accepted := history.accepted
  written found := by
    obtain ⟨c,before,same⟩ := lodged.found found
    rw [← URI_of_submitted same]
    exact (history.written before).carry same
  single here there named := by
    obtain ⟨c,before,same⟩ := lodged.found here
    obtain ⟨d,before',same'⟩ := lodged.found there
    exact history.single before before' ((URI_of_submitted same).trans (named.trans (URI_of_submitted same').symm))
  entered o member := by
    obtain ⟨id,c,found,named⟩ := history.entered o member
    obtain ⟨c',found',same⟩ := lodged.kept found
    exact ⟨id,c',found',(URI_of_submitted same).trans named⟩

instance : Listing Lodged where
  content L id _ lasting k := Index.map_find?_update L.contents id k lasting.submitted
  returned _ _ := .of_eq rfl

instance : Seeding Lodged where
  statistics _ _ := .of_eq rfl
  seeders _ _ := .of_eq rfl
  reset _ _ _ := .of_eq rfl

instance : Noting Lodged where
  permissions _ _ := .of_eq rfl
  subscription _ _ _ _ := .of_eq rfl

instance : Accounting Lodged where
  publishing _ _ := .of_eq rfl

instance : Pooling Lodged where
  dynamic _ _ _ := .of_eq rfl

instance : Crediting Lodged where
  balances _ _ := .of_eq rfl
  vestings _ _ := .of_eq rfl
  miners _ _ := .of_eq rfl

instance : Purchasing Lodged where
  buyings _ _ := .of_eq rfl
  payments _ _ := .of_eq rfl

instance : Rewarding Lodged where
  rewards _ _ _ := .of_eq rfl

instance : Enrolling Lodged where
  accounts _ _ := .of_eq rfl
  subscriptions _ _ := .of_eq rfl

instance : Creating Lodged where
  asset _ _ := .of_eq rfl

instance : Scheduling Lodged where
  properties _ _ := .of_eq rfl
  parameters _ _ _ := .of_eq rfl

theorem lodged_reserve_seeders {content size : Nat} {seeders : List AccountId} {L L' : Ledger} {u : Unit}
    (ran : EStateM.run (reserve_seeders content size seeders) L = .ok u L') : Lodged L L' := by
  induction seeders generalizing L with
  | nil =>
    cases ran
    exact .of_eq rfl
  | cons p rest ih =>
    obtain ⟨so,-,ran⟩ := reserve_seeders_ok ran
    have noted : Lodged L (L.reserved content size p so) := fun k => Index.map_find?_update L.contents content k fun _ => rfl
    exact Composes.trans noted (ih ran)

/-! ### A submission -/

/-- A submission is accepted for a content of its URI and author, or for a new URI. -/
theorem content_submit_evaluate_content {env : Env} {o : ContentSubmitOperation} {L : Ledger} {content : Option Nat}
    (evaluated : content_submit_evaluate env o L = .ok content) :
    (content = none ∧ L.find_content o.URI = none) ∨
      ∃ id c, content = some id ∧ L.find_content o.URI = some (id,c) ∧ c.author = o.author ∧ c.size = o.size := by
  have checked := content_submit_evaluate_submittable evaluated
  cases content with
  | none => exact .inl ⟨rfl,(checked.first rfl).1⟩
  | some id =>
    obtain ⟨c,found,author,size⟩ := checked.again id rfl
    exact .inr ⟨id,c,rfl,found,author,size⟩

theorem submitted_as_append (URI : String) (os : List ContentSubmitOperation) (o : ContentSubmitOperation) :
    submitted_as URI (os ++ [o]) = if o.URI = URI then submitted_as URI os ++ [o] else submitted_as URI os := by
  rw [submitted_as,List.filter_append]
  split
  case isTrue here => rw [List.filter_cons_of_pos (by simpa using here)]; rfl
  case isFalse other => rw [List.filter_cons_of_neg (by simpa using other)]; exact List.append_nil _

theorem History.resubmit {os : List ContentSubmitOperation} {L : Ledger} {o : ContentSubmitOperation} {id : Nat}
    {c : Content} (history : History os L) (accepted : Accepted o) (found : L.contents.find? id = some c)
    (named : c.URI = o.URI) (author : c.author = o.author) (size : c.size = o.size) :
    History (os ++ [o]) (L.with_content id fun co =>
      { co with price := set_prices co.price o.price, co_authors := o.co_authors }) := by
  have lookup (k : Nat) : (L.with_content id fun co => { co with
      price := set_prices co.price o.price, co_authors := o.co_authors }).contents.find? k =
      if k = id then some { c with price := set_prices c.price o.price, co_authors := o.co_authors }
      else L.contents.find? k := by
    show (L.contents.update id _).find? k = _
    rw [Index.find?_update,found]
    rfl
  -- Every content is called what it was called before.
  have before {k : Nat} {d : Content} (here : (L.with_content id fun co => { co with
      price := set_prices co.price o.price, co_authors := o.co_authors }).contents.find? k = some d) :
      ∃ d₀, L.contents.find? k = some d₀ ∧ d₀.URI = d.URI := by
    rw [lookup] at here
    split at here
    case isTrue same => cases here; exact ⟨c,same ▸ found,rfl⟩
    case isFalse => exact ⟨d,here,rfl⟩
  refine ⟨?_,?_,?_,?_⟩
  · intro o' member
    rcases List.mem_append.mp member with old | new
    · exact history.accepted o' old
    · cases List.mem_singleton.mp new
      exact accepted
  · intro k d here
    rw [lookup] at here
    split at here
    case isTrue same =>
      cases here
      rw [submitted_as_append,if_pos named.symm]
      refine ⟨⟨_,o,rfl,author,size,rfl⟩,?_⟩
      rw [stored_prices_append]
      exact congrArg (set_prices · o.price) (history.written found).price
    case isFalse other =>
      rw [submitted_as_append,if_neg fun same => other (history.single here found (same.symm.trans named.symm))]
      exact history.written here
  · intro k k' d d' here there same
    obtain ⟨e,known,calls⟩ := before here
    obtain ⟨e',known',calls'⟩ := before there
    exact history.single known known' (calls.trans (same.trans calls'.symm))
  · intro o' member
    have known : ∃ k d, L.contents.find? k = some d ∧ d.URI = o'.URI := by
      rcases List.mem_append.mp member with old | new
      · exact history.entered o' old
      · cases List.mem_singleton.mp new
        exact ⟨id,c,found,named⟩
    obtain ⟨k,d,here,called⟩ := known
    by_cases same : k = id
    · subst same
      rw [found] at here
      cases here
      exact ⟨k,_,(lookup k).trans (if_pos rfl),called⟩
    · exact ⟨k,d,(lookup k).trans ((if_neg same).trans here),called⟩

theorem History.submit {os : List ContentSubmitOperation} {L : Ledger} {o : ContentSubmitOperation} {now : Nat}
    (history : History os L) (accepted : Accepted o) (new : L.find_content o.URI = none) :
    History (os ++ [o]) { L with contents := L.contents.create (new_content o now) } := by
  have unnamed {k : Nat} {d : Content} (here : L.contents.find? k = some d) : d.URI ≠ o.URI := by
    intro same
    have missing := find_content_none new k
    rw [here,Option.map_some,same] at missing
    exact missing rfl
  have lookup (k : Nat) : ({ L with contents := L.contents.create (new_content o now) } : Ledger).contents.find? k =
      if k = L.contents.next then some (new_content o now) else L.contents.find? k := Index.find?_create ..
  -- No submission of this URI was accepted before.
  have first : submitted_as o.URI os = [] := by
    refine List.filter_eq_nil_iff.mpr fun o' member => ?_
    obtain ⟨k,d,here,called⟩ := history.entered o' member
    simpa [← called] using unnamed here
  refine ⟨?_,?_,?_,?_⟩
  · intro o' member
    rcases List.mem_append.mp member with old | here
    · exact history.accepted o' old
    · cases List.mem_singleton.mp here
      exact accepted
  · intro k d here
    rw [lookup] at here
    split at here
    case isTrue =>
      cases here
      show Written (submitted_as o.URI (os ++ [o])) (new_content o now)
      rw [submitted_as_append,if_pos rfl,first]
      exact ⟨⟨[],o,rfl,rfl,rfl,rfl⟩,rfl⟩
    case isFalse =>
      rw [submitted_as_append,if_neg fun same => unnamed here same.symm]
      exact history.written here
  · intro k k' d d' here there same
    rw [lookup] at here there
    split at here <;> split at there
    case isTrue.isTrue a b => exact a.trans b.symm
    case isTrue.isFalse => cases here; exact absurd same.symm (unnamed there)
    case isFalse.isTrue => cases there; exact absurd same (unnamed here)
    case isFalse.isFalse => exact history.single here there same
  · intro o' member
    rcases List.mem_append.mp member with old | here
    · obtain ⟨k,d,found,called⟩ := history.entered o' old
      exact ⟨k,d,(lookup k).trans ((if_neg (Nat.ne_of_lt (L.contents.below k d found))).trans found),called⟩
    · cases List.mem_singleton.mp here
      exact ⟨_,_,(lookup _).trans (if_pos rfl),rfl⟩

theorem history_submit {env : Env} {o : ContentSubmitOperation} {content : Option Nat} {os : List ContentSubmitOperation}
    {L₀ L L' : Ledger} (valid : (Operation.content_submit o).validate = true)
    (evaluated : content_submit_evaluate env o L₀ = .ok content) (same : L.contents = L₀.contents) (history : History os L)
    (ran : EStateM.run (content_submit_apply o content) L = .ok () L') : History (os ++ [o]) L' := by
  have accepted : Accepted o := ⟨valid,env,L₀,content,evaluated⟩
  have lookup : L.find_content o.URI = L₀.find_content o.URI := by rw [Ledger.find_content,Ledger.find_content,same]
  rcases content_submit_evaluate_content evaluated with ⟨rfl,missing⟩ | ⟨id,c,rfl,found,author,size⟩
  · obtain ⟨now,-,ran⟩ := run_observe_bind.mp ran
    obtain ⟨_,_,created,ran⟩ := run_bind_ok.mp (run_get_bind.mp ran)
    obtain ⟨_,-,ran⟩ := run_observe_bind.mp ran
    obtain ⟨_,L₁,charged,ran⟩ := run_bind_ok.mp ran
    obtain ⟨_,L₂,noted,ran⟩ := run_bind_ok.mp ran
    obtain ⟨_,L₃,reserved,requested⟩ := run_bind_ok.mp ran
    cases created
    refine History.lodged (Composes.trans (Within.ok inferInstance charged) (Composes.trans
      (Within.ok inferInstance noted) (Composes.trans (lodged_reserve_seeders reserved)
        (Within.ok inferInstance requested)))) ?_
    exact history.submit accepted (lookup.trans missing)
  · cases ran
    obtain ⟨here,named⟩ := content_of_find (lookup.trans found)
    exact history.resubmit accepted here named author size

/-! ### Every run -/

mutual

theorem history_apply_operation (env : Env) (op : Operation) {os : List ContentSubmitOperation} {L L' : Ledger}
    (history : History os L) (ran : EStateM.run (apply_operation env op) L = .ok () L') :
    History (os ++ op.submissions) L' := by
  rw [apply_operation_eq] at ran
  obtain ⟨valid,L₁,L₂,L₃,fee,act,flow⟩ := evaluate_and_apply_ok.mp ran
  have evaluated := flow.evaluated
  simp only [evaluate,reads_bind] at evaluated
  obtain ⟨x,-,-,-,evaluated⟩ := evaluated
  have prepared : Prepared L L₂ := flow.prepared
  have same : L₂.contents = L.contents := by rw [prepared.rest]
  have charged : Lodged L₃ L' := Within.ok inferInstance flow.charged
  have history₂ := history.lodged (.of_eq same)
  refine History.lodged charged ?_
  have applied := flow.applied
  cases op <;> simp only [do_evaluate,reads_bind,reads_pure,Prod.mk.injEq] at evaluated
  case content_submit o =>
    obtain ⟨content,evaluated,-,rfl⟩ := evaluated
    exact history_submit valid evaluated same history₂ applied
  case proposal_update payer paid ops =>
    obtain ⟨-,rfl⟩ := evaluated
    exact history_apply_operations env ops history₂ applied
  all_goals
    simp only [Operation.submissions,List.append_nil]
  case other payer paid change =>
    obtain ⟨-,rfl⟩ := evaluated
    obtain ⟨_,settled,stored⟩ := run_observe_bind.mp applied
    cases stored
    exact history₂.lodged (.of_eq (change.settled settled).contents)
  all_goals
    obtain ⟨_,-,-,rfl⟩ := evaluated
    exact history₂.lodged (Within.ok inferInstance applied)

theorem history_apply_operations (env : Env) (ops : List Operation) {os : List ContentSubmitOperation} {L L' : Ledger}
    (history : History os L) (ran : EStateM.run (apply_operations env ops) L = .ok () L') :
    History (os ++ submissions_of ops) L' := by
  cases ops with
  | nil =>
    unfold Money.apply_operations at ran
    cases ran
    simpa only [submissions_of,List.append_nil] using history
  | cons op rest =>
    unfold Money.apply_operations at ran
    obtain ⟨_,L₁,first,ran⟩ := run_bind_ok.mp ran
    have after := history_apply_operations env rest (history_apply_operation env op history first) ran
    rwa [submissions_of,← List.append_assoc]

end

theorem History.unsubmitted {action : Action} {os : List ContentSubmitOperation} {L : Ledger} (history : History os L)
    (none : action.submissions = []) : History (os ++ action.submissions) L := by
  rw [none,List.append_nil]
  exact history

theorem history_perform {action : Action} {os : List ContentSubmitOperation} {L L' : Ledger} (history : History os L)
    (ran : EStateM.run (perform action) L = .ok () L') : History (os ++ action.submissions) L' := by
  cases action with
  | operation env op => exact history_apply_operation env op history ran
  | settings change =>
    obtain ⟨_,applied,ran⟩ := run_observe_bind.mp ran
    cases ran
    exact (history.lodged (.of_eq (change.settled applied).contents)).unsubmitted rfl
  | header timestamp =>
    exact (history.lodged (Within.ok (x := update_head timestamp) inferInstance ran)).unsubmitted rfl
  | signing_miner miner =>
    exact (history.lodged (Within.ok (x := update_signing_miner miner) inferInstance ran)).unsubmitted rfl
  | maintenance =>
    obtain ⟨_,-,ran⟩ := run_observe_bind.mp (run_get_bind.mp ran)
    exact (history.lodged (Within.ok (x := perform_chain_maintenance) inferInstance ran)).unsubmitted rfl

theorem history_genesis (g : GenesisState) : History [] (init_genesis g) where
  accepted _ member := nomatch member
  written found := nomatch found
  single found := nomatch found
  entered _ member := nomatch member

theorem Recorded.history {g : GenesisState} {os : List ContentSubmitOperation} {L : Ledger} (recorded : Recorded g os L) :
    History os L := by
  induction recorded with
  | genesis => exact history_genesis g
  | step _ ran history => exact history_perform history ran

/-! ### Prices -/

/-- What a list of prices says of a region; the later one, where it is listed twice. -/
def listed (price : List RegionalPrice) (region : Nat) : Option Asset :=
  (price.reverse.find? fun item => item.region = region).map (·.price)

/-- What a list of prices charges in a region. -/
def charged (price : List RegionalPrice) (region_code : Nat) : Option Asset :=
  (listed price OO_none).or ((listed price region_code).or (listed price OO_all))

/-- The prices stored before do not show through: the new list has a single price, or it charges
    everywhere the single price that is stored, or it charges in each region the price stored for it. -/
def Supersedes (stored : Table Nat Asset) (price : List RegionalPrice) : Prop :=
  (listed price OO_none).isSome ∨
    match stored.find? OO_none with
    | some single => ∀ region, charged price region = some single
    | none => ∀ region old, stored.find? region = some old → charged price region = some old

theorem find?_listed (price : List RegionalPrice) : ∀ (t : Table Nat Asset) (region : Nat),
    (price.foldl (fun t item => t.put item.region item.price) t).find? region = (listed price region).or (t.find? region) := by
  induction price with
  | nil => exact fun t region => rfl
  | cons item rest ih =>
    intro t region
    rw [List.foldl_cons,ih,Table.find?_put]
    have read : listed (item :: rest) region =
        (listed rest region).or (if region = item.region then some item.price else none) := by
      rw [listed,listed,List.reverse_cons,List.find?_append,Option.map_or]
      congr 1
      by_cases here : item.region = region
      · rw [List.find?_cons_of_pos (by simpa using here),if_pos here.symm]
        rfl
      · rw [List.find?_cons_of_neg (by simpa using here),if_neg (Ne.symm here)]
        rfl
    rw [read,Option.or_assoc]
    congr 1
    split <;> simp

theorem find?_insert_new (t : Table Nat Asset) (k j : Nat) (v : Asset) :
    (insert_new t k v).find? j = (t.find? j).or (if j = k then some v else none) := by
  rw [insert_new]
  split
  case isTrue held =>
    split
    case isTrue here =>
      rw [here]
      exact (Option.or_of_isSome held).symm
    case isFalse => exact (Option.or_none).symm
  case isFalse missing =>
    rw [Table.find?_put]
    split
    case isTrue here =>
      rw [here,Option.not_isSome_iff_eq_none.mp missing]
      rfl
    case isFalse => exact (Option.or_none).symm

/-- What is inserted does not change what is there. -/
theorem find?_inserted (rows : List (Nat × Asset)) : ∀ (t : Table Nat Asset) (region : Nat),
    (rows.foldl (fun t item => insert_new t item.1 item.2) t).find? region =
      (t.find? region).or (Table.findRow region rows) := by
  induction rows with
  | nil => exact fun t region => (Option.or_none).symm
  | cons row rest ih =>
    intro t region
    rw [List.foldl_cons,ih,find?_insert_new,Option.or_assoc]
    congr 1
    rw [Table.findRow]
    split
    case isTrue here => rw [if_pos here.symm]; rfl
    case isFalse other => rw [if_neg (Ne.symm other)]; rfl

theorem set_prices_single {old : Table Nat Asset} {price : List RegionalPrice} {single : Asset}
    (listed_single : listed price OO_none = some single) : set_prices old price = Table.empty.put OO_none single := by
  have read := find?_listed price Table.empty OO_none
  rw [listed_single] at read
  simp only [set_prices,read,Option.some_or]

theorem find?_set_prices {old : Table Nat Asset} {price : List RegionalPrice} (regional : listed price OO_none = none)
    (region : Nat) : (set_prices old price).find? region = (old.find? region).or (listed price region) := by
  have read := find?_listed price Table.empty OO_none
  rw [regional] at read
  have none : (price.foldl (fun t item => t.put item.region item.price) Table.empty).find? OO_none = none := read
  have all := find?_listed price Table.empty region
  rw [Table.find?_empty,Option.or_none] at all
  simp only [set_prices,none]
  rw [find?_inserted,← all]
  rfl

theorem get_price_eq (t : Table Nat Asset) (region_code : Nat) :
    get_price t region_code = (t.find? OO_none).or ((t.find? region_code).or (t.find? OO_all)) := by
  rw [get_price]
  cases t.find? OO_none with
  | some single => rfl
  | none =>
    cases t.find? region_code with
    | some price => rfl
    | none => rfl

/-- When the prices are those of the new list alone. -/
theorem get_price_set_prices (old : Table Nat Asset) (price : List RegionalPrice) :
    (∀ region, get_price (set_prices old price) region = charged price region) ↔ Supersedes old price := by
  cases single : listed price OO_none with
  | some p =>
    refine ⟨fun _ => .inl (by rw [single]; rfl),fun _ region => ?_⟩
    rw [set_prices_single single,get_price_eq,Table.find?_put_same,charged,single]
    rfl
  | none =>
    have read (region : Nat) : (set_prices old price).find? region = (old.find? region).or (listed price region) :=
      find?_set_prices single region
    simp only [get_price_eq,read,Supersedes,single,Option.isSome_none,Bool.false_eq_true,false_or,Option.or_none]
    cases stored : old.find? OO_none with
    | some p =>
      simp only [Option.some_or]
      exact ⟨fun same region => (same region).symm,fun same region => (same region).symm⟩
    | none =>
      simp only [Option.none_or]
      constructor
      · intro same region p held
        rw [← same region,held]
        rfl
      · intro same region
        cases held : old.find? region with
        | some p => exact (same region p held).symm
        | none =>
          rw [charged,single,Option.none_or,Option.none_or]
          congr 1
          cases default : old.find? OO_all with
          | none => rfl
          | some p =>
            have here := same OO_all p default
            rw [charged,single,Option.none_or,Option.or_self] at here
            exact here.symm

/-- What a content charges after any run, and when that is what the last submission listed. -/
theorem price_of_last_submission (g : GenesisState) (os : List ContentSubmitOperation) (L : Ledger) (recorded : Recorded g os L)
    (id : Nat) (c : Content) (found : L.contents.find? id = some c) :
    ∃ earlier last, submitted_as c.URI os = earlier ++ [last] ∧
      ((∀ region_code, get_price c.price region_code = charged last.price region_code) ↔
        Supersedes (stored_prices earlier) last.price) := by
  have written := recorded.history.written found
  obtain ⟨earlier,last,parts,-⟩ := written.submitted
  refine ⟨earlier,last,parts,?_⟩
  rw [written.price,parts,stored_prices_append]
  exact get_price_set_prices _ _

/-- The content is submitted again, with a price for all regions in place of the single one. -/
def dearer_submission : ContentSubmitOperation := { seeded_submission with price := [⟨OO_all,⟨20,core⟩⟩] }

def submit (o : ContentSubmitOperation) : Action := .operation free_env (.content_submit o)

/-- Some actions, with what they submit. -/
theorem recorded_perform_all {g : GenesisState} {actions : List Action} {os : List ContentSubmitOperation} {L L' : Ledger}
    (before : Recorded g os L) (ran : EStateM.run (perform_all actions) L = .ok () L') :
    Recorded g (os ++ actions.flatMap Action.submissions) L' := by
  induction actions generalizing os L with
  | nil =>
    cases ran
    simpa using before
  | cons action rest ih =>
    obtain ⟨_,L₁,done,ran⟩ := run_bind_ok.mp ran
    rw [List.flatMap_cons,← List.append_assoc]
    exact ih (before.step done) ran

theorem recorded_after_actions {actions : List Action}
    (returned : Throwing.returned (EStateM.run (perform_all actions) (init_genesis small_genesis)) = true) :
    Recorded small_genesis (actions.flatMap Action.submissions) (after_actions actions) :=
  recorded_perform_all .genesis (run_of_returned returned)

def priced_anew : List Action := two_seeders ++ [submit seeded_submission,submit dearer_submission]

theorem priced_anew_recorded : Recorded small_genesis (priced_anew.flatMap Action.submissions) (after_actions priced_anew) :=
  recorded_after_actions (by decide +kernel)

/-- What is stored of the content after both submissions. -/
theorem priced_anew_stored : ∃ c, (after_actions priced_anew).contents.find? 0 = some c ∧ c.URI = "ipfs:seeded" ∧
    get_price c.price OO_all = some ⟨10,core⟩ := by
  have read : ((after_actions priced_anew).contents.find? 0).map (fun c => (c.URI,get_price c.price OO_all)) =
      some ("ipfs:seeded",some ⟨10,core⟩) := by decide +kernel
  obtain ⟨c,found,same⟩ := Option.map_eq_some_iff.mp read
  exact ⟨c,found,Prod.mk.inj same⟩

/-- The single price of the first submission is still charged. -/
theorem price_of_earlier_submission : ¬ ∀ g os L, Recorded g os L → ∀ id c, L.contents.find? id = some c →
    ∀ last, (submitted_as c.URI os).getLast? = some last → ∀ region_code,
      get_price c.price region_code = charged last.price region_code := by
  intro always
  obtain ⟨c,found,named,price⟩ := priced_anew_stored
  have last : (submitted_as c.URI (priced_anew.flatMap Action.submissions)).getLast? = some dearer_submission := by
    rw [named]
    rfl
  have charge := always _ _ _ priced_anew_recorded 0 c found _ last OO_all
  rw [price] at charge
  exact absurd charge (by decide)

theorem price_of_last_submission_single : ∃ c, (after_actions priced_anew).contents.find? 0 = some c ∧
    ∃ earlier last, submitted_as c.URI (priced_anew.flatMap Action.submissions) = earlier ++ [last] ∧
      ((∀ region_code, get_price c.price region_code = charged last.price region_code) ↔
        Supersedes (stored_prices earlier) last.price) := by
  obtain ⟨c,found,-⟩ := priced_anew_stored
  exact ⟨c,found,price_of_last_submission small_genesis _ _ priced_anew_recorded 0 c found⟩

end Decent.Money

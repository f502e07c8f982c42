import Decent.Submissions

/-!
The transaction records beside the ledger (`transaction_detail_object`). A first submission
enters a record whose description is the title of the content; a later one looks for a record
with the stored title, in an index whose keys need not be unique, and writes the new title and
the time into the first that it finds, whatever that is a record of. There always is one, and
it is the content's own exactly when no other record with this title stands before it.
-/
namespace Decent.Money
open Throwing

/-- `transaction_detail_object::eOperationType` -/
inductive OperationType
  | transfer
  | account_create
  | content_submit
  | content_buy
  | content_rate
  | subscription
deriving DecidableEq

structure TransactionDetail where
  id : Nat
  operation_type : OperationType
  from_account : AccountId
  to_account : AccountId
  transaction_amount : Asset
  transaction_fee : Asset
  description : String
  timestamp : Nat
deriving DecidableEq

/-- What a content object holds beside the ledger's part of it, and the record of its first
    submission; the code keeps no such link. -/
structure Described where
  synopsis : String
  record : Nat

/-- The records in the order of `by_description`, and the contents by their URI. -/
structure Archive where
  details : List TransactionDetail
  next : Nat
  contents : Table String Described

def Archive.empty : Archive := ⟨[],0,.empty⟩

/-! ### The index -/

/-- Where a record is entered: behind those whose description is not greater. -/
def link (d : TransactionDetail) : List TransactionDetail → List TransactionDetail
  | [] => [d]
  | e :: rest => if d.description < e.description then d :: e :: rest else e :: link d rest

/-- A record that was modified stays between its neighbours if their order allows it, and is
    linked anew otherwise. -/
def relink (before : List TransactionDetail) (d : TransactionDetail) (after : List TransactionDetail) :
    List TransactionDetail :=
  if (before.getLast?.all fun e => ¬ d.description < e.description) && after.head?.all fun e => ¬ e.description < d.description
  then before ++ d :: after
  else link d (before ++ after)

/-- The first record with this description, and what stands around it. -/
def find_description (text : String) :
    List TransactionDetail → Option (List TransactionDetail × TransactionDetail × List TransactionDetail)
  | [] => none
  | d :: rest =>
    if d.description = text then some ([],d,rest)
    else (find_description text rest).map fun found => (d :: found.1,found.2.1,found.2.2)

theorem link_perm (d : TransactionDetail) (details : List TransactionDetail) : (link d details).Perm (d :: details) := by
  induction details with
  | nil => exact .refl _
  | cons e rest ih =>
    rw [link]
    split
    · exact .refl _
    · exact (ih.cons e).trans (.swap d e rest)

theorem relink_perm (before : List TransactionDetail) (d : TransactionDetail) (after : List TransactionDetail) :
    (relink before d after).Perm (before ++ d :: after) := by
  rw [relink]
  split
  · exact .refl _
  · exact (link_perm d _).trans List.perm_middle.symm

theorem find_description_some {text : String} {details before after : List TransactionDetail} {d : TransactionDetail}
    (found : find_description text details = some (before,d,after)) :
    details = before ++ d :: after ∧ d.description = text ∧ details.find? (fun e => e.description = text) = some d := by
  induction details generalizing before with
  | nil => cases found
  | cons e rest ih =>
    rw [find_description] at found
    split at found
    case isTrue here =>
      cases found
      exact ⟨rfl,here,List.find?_cons_of_pos (by simpa using here)⟩
    case isFalse other =>
      obtain ⟨⟨before',d',after'⟩,found',same⟩ := Option.map_eq_some_iff.mp found
      cases same
      obtain ⟨split,here,first⟩ := ih found'
      refine ⟨by rw [split]; rfl,here,?_⟩
      rw [List.find?_cons_of_neg (by simpa using other)]
      exact first

/-- What is there is found. -/
theorem find_description_of_mem {text : String} {details : List TransactionDetail}
    (there : ∃ d ∈ details, d.description = text) : ∃ found, find_description text details = some found := by
  induction details with
  | nil => simp at there
  | cons e rest ih =>
    rw [find_description]
    split
    · exact ⟨_,rfl⟩
    case isFalse other =>
      obtain ⟨d,member,here⟩ := there
      rcases List.mem_cons.mp member with rfl | inside
      · exact absurd here other
      · obtain ⟨found,same⟩ := ih ⟨d,inside,here⟩
        exact ⟨_,by rw [same]; rfl⟩

/-! ### Submissions -/

/-- `create<transaction_detail_object>` -/
def Archive.enter (A : Archive) (d : TransactionDetail) : Archive :=
  { A with details := link { d with id := A.next } A.details, next := A.next + 1 }

section
variable (title : String → String) (now : Nat)

/-- What `content_submit_evaluator::do_apply` does for a new content. -/
def Archive.submit (A : Archive) (synopsis : String) (o : ContentSubmitOperation) : Archive :=
  { A.enter ⟨A.next,.content_submit,o.author,0,o.publishing_fee,o.fee,title synopsis,now⟩ with
    contents := A.contents.put o.URI ⟨synopsis,A.next⟩ }

/-- What it does for a content of this URI; `none` when the record is looked for in vain, so that
    the end of the index is modified. -/
def Archive.resubmit (A : Archive) (synopsis : String) (o : ContentSubmitOperation) : Option Archive := do
  let content ← A.contents.find? o.URI
  let (before,tdo,after) ← find_description (title content.synopsis) A.details
  return { A with
    details := relink before { tdo with description := title synopsis, timestamp := now } after
    contents := A.contents.put o.URI { content with synopsis := synopsis } }

/-- What an action with these submissions does. The records of other operations are entered
    between them; nothing else writes to the archive. -/
inductive Files : List ContentSubmitOperation → Archive → Archive → Prop
  | done (A : Archive) : Files [] A A
  | entered {os : List ContentSubmitOperation} {A A' : Archive} (d : TransactionDetail)
      (other : d.operation_type ≠ .content_submit) (rest : Files os (A.enter d) A') : Files os A A'
  | submitted {o : ContentSubmitOperation} {os : List ContentSubmitOperation} {A A' : Archive} (synopsis : String)
      (new : A.contents.find? o.URI = none) (rest : Files os (A.submit title now synopsis o) A') : Files (o :: os) A A'
  | resubmitted {o : ContentSubmitOperation} {os : List ContentSubmitOperation} {A A₁ A' : Archive} (synopsis : String)
      (ran : A.resubmit title now synopsis o = some A₁) (rest : Files os A₁ A') : Files (o :: os) A A'

end

/-- The ledgers of all runs with their archives. Undoing a block brings back what was there
    before it, but not the order of records with the same description. -/
inductive Archived (g : GenesisState) (title : String → String) : Ledger → Archive → Prop
  | genesis : Archived g title (init_genesis g) .empty
  | step {L L' : Ledger} {A A' : Archive} {action : Action} (before : Archived g title L A)
      (ran : EStateM.run (perform action) L = .ok () L')
      (filed : Files title L.properties.time action.submissions A A') : Archived g title L' A'
  | undone {L : Ledger} {A : Archive} {details : List TransactionDetail} (before : Archived g title L A)
      (same : details.Perm A.details) (sorted : details.Pairwise fun d e => ¬ e.description < d.description) :
      Archived g title L { A with details := details }

/-! ### What every archive keeps -/

/-- One for every content with this title. -/
def titled (title : String → String) (text : String) (_ : String) (s : Described) : Int :=
  if title s.synopsis = text then 1 else 0

/-- Records have their own numbers; every content has the record of its first submission, and
    there are at least as many records with a description as contents with that title. -/
structure Documented (title : String → String) (A : Archive) : Prop where
  below : ∀ d ∈ A.details, d.id < A.next
  distinct : (A.details.map (·.id)).Nodup
  recorded : ∀ {URI s}, A.contents.find? URI = some s →
    ∃ d ∈ A.details, d.id = s.record ∧ d.operation_type = .content_submit
  own : ∀ {URI URI' s s'}, A.contents.find? URI = some s → A.contents.find? URI' = some s' →
    s.record = s'.record → URI = URI'
  enough : ∀ text, A.contents.total (titled title text) ≤ A.details.countP fun d => d.description = text

section
variable {title : String → String} {now : Nat}

theorem Documented.reordered {A : Archive} (documented : Documented title A) {details : List TransactionDetail}
    (same : details.Perm A.details) : Documented title { A with details := details } where
  below d member := documented.below d (same.mem_iff.mp member)
  distinct := ((same.map _).nodup_iff).mpr documented.distinct
  recorded found := by
    obtain ⟨d,member,rest⟩ := documented.recorded found
    exact ⟨d,same.mem_iff.mpr member,rest⟩
  own := documented.own
  enough text := by
    rw [same.countP_eq]
    exact documented.enough text

theorem Documented.enter {A : Archive} (documented : Documented title A) (d : TransactionDetail) : Documented title (A.enter d) := by
  have entered : (A.enter d).details.Perm ({ d with id := A.next } :: A.details) := link_perm _ _
  refine ⟨?_,?_,?_,documented.own,?_⟩
  · intro e member
    rcases List.mem_cons.mp (entered.mem_iff.mp member) with rfl | old
    · exact Nat.lt_succ_self _
    · exact Nat.lt_succ_of_lt (documented.below e old)
  · rw [(entered.map _).nodup_iff,List.map_cons,List.nodup_cons]
    refine ⟨fun used => ?_,documented.distinct⟩
    obtain ⟨e,member,same⟩ := List.mem_map.mp used
    exact Nat.lt_irrefl _ (same ▸ documented.below e member)
  · intro URI s found
    obtain ⟨e,member,rest⟩ := documented.recorded found
    exact ⟨e,entered.mem_iff.mpr (List.mem_cons_of_mem _ member),rest⟩
  · intro text
    rw [entered.countP_eq,List.countP_cons]
    exact (documented.enough text).trans (by push_cast; split <;> simp)

theorem Documented.submit {A : Archive} (documented : Documented title A) {synopsis : String} {o : ContentSubmitOperation}
    (new : A.contents.find? o.URI = none) : Documented title (A.submit title now synopsis o) := by
  let d : TransactionDetail := ⟨A.next,.content_submit,o.author,0,o.publishing_fee,o.fee,title synopsis,now⟩
  have entered : (A.submit title now synopsis o).details.Perm (d :: A.details) := link_perm _ _
  have after := documented.enter d
  have lookup (URI : String) : (A.submit title now synopsis o).contents.find? URI =
      if URI = o.URI then some ⟨synopsis,A.next⟩ else A.contents.find? URI := Table.find?_put ..
  -- No content has the new number yet.
  have unused {URI : String} {s : Described} (found : A.contents.find? URI = some s) : s.record ≠ A.next := by
    obtain ⟨e,member,same,-⟩ := documented.recorded found
    exact same ▸ Nat.ne_of_lt (documented.below e member)
  refine ⟨after.below,after.distinct,?_,?_,?_⟩
  · intro URI s found
    rw [lookup] at found
    split at found
    case isTrue =>
      cases found
      exact ⟨d,entered.mem_iff.mpr (List.mem_cons_self ..),rfl,rfl⟩
    case isFalse => exact after.recorded found
  · intro URI URI' s s' found found' same
    rw [lookup] at found found'
    split at found <;> split at found'
    case isTrue.isTrue here there => exact here.trans there.symm
    case isTrue.isFalse => cases found; exact absurd same.symm (unused found')
    case isFalse.isTrue => cases found'; exact absurd same (unused found)
    case isFalse.isFalse => exact documented.own found found' same
  · intro text
    rw [entered.countP_eq,List.countP_cons]
    show (A.contents.put o.URI _).total _ ≤ _
    rw [Table.total_put_new _ _ _ new]
    have old := documented.enough text
    by_cases here : title synopsis = text
    · simp only [titled,d,here,if_true,decide_true]
      push_cast
      exact Int.add_le_add_right old 1
    · simp only [titled,d,here,if_false,decide_false]
      simpa using old

/-- What a later submission does. -/
theorem resubmit_ok {A A' : Archive} {synopsis : String} {o : ContentSubmitOperation}
    (ran : A.resubmit title now synopsis o = some A') :
    ∃ s before tdo after, A.contents.find? o.URI = some s ∧ A.details = before ++ tdo :: after ∧
      A.details.find? (fun d => d.description = title s.synopsis) = some tdo ∧ tdo.description = title s.synopsis ∧
      A'.details.Perm (before ++ { tdo with description := title synopsis, timestamp := now } :: after) ∧
      A'.next = A.next ∧ A'.contents = A.contents.put o.URI { s with synopsis := synopsis } := by
  rw [Archive.resubmit] at ran
  obtain ⟨s,known,ran⟩ := Option.bind_eq_some_iff.mp ran
  obtain ⟨⟨before,tdo,after⟩,found,ran⟩ := Option.bind_eq_some_iff.mp ran
  cases ran
  obtain ⟨split,here,first⟩ := find_description_some found
  exact ⟨s,before,tdo,after,known,split,first,here,relink_perm _ _ _,rfl,rfl⟩

theorem Documented.resubmit {A A' : Archive} (documented : Documented title A) {synopsis : String} {o : ContentSubmitOperation}
    (ran : A.resubmit title now synopsis o = some A') : Documented title A' := by
  obtain ⟨s,before,tdo,after,known,split,-,here,written,next,contents⟩ := resubmit_ok ran
  have ids : (A'.details.map (·.id)).Perm (A.details.map (·.id)) := by
    refine (written.map _).trans ?_
    rw [split,List.map_append,List.map_append,List.map_cons,List.map_cons]
  have lookup (URI : String) : A'.contents.find? URI =
      if URI = o.URI then some { s with synopsis := synopsis } else A.contents.find? URI := by
    rw [contents]
    exact Table.find?_put ..
  -- Every content has the record it had.
  have same {URI : String} {s' : Described} (found : A'.contents.find? URI = some s') :
      ∃ s₀, A.contents.find? URI = some s₀ ∧ s₀.record = s'.record := by
    rw [lookup] at found
    split at found
    case isTrue named => cases found; exact ⟨s,named ▸ known,rfl⟩
    case isFalse => exact ⟨s',found,rfl⟩
  refine ⟨?_,ids.nodup_iff.mpr documented.distinct,?_,?_,?_⟩
  · intro d member
    obtain ⟨e,old,sameId⟩ := List.mem_map.mp (ids.mem_iff.mp (List.mem_map_of_mem member))
    rw [next,← sameId]
    exact documented.below e old
  · intro URI s' found
    obtain ⟨s₀,before',record⟩ := same found
    obtain ⟨d,member,sameId,type⟩ := documented.recorded before'
    rw [← record]
    rw [split] at member
    rcases List.mem_append.mp member with inside | inside
    · exact ⟨d,written.mem_iff.mpr (List.mem_append_left _ inside),sameId,type⟩
    · rcases List.mem_cons.mp inside with rfl | inside
      · exact ⟨_,written.mem_iff.mpr (List.mem_append_right _ (List.mem_cons_self ..)),sameId,type⟩
      · exact ⟨d,written.mem_iff.mpr (List.mem_append_right _ (List.mem_cons_of_mem _ inside)),sameId,type⟩
  · intro URI URI' s₁ s₂ found found' equal
    obtain ⟨t₁,before₁,record₁⟩ := same found
    obtain ⟨t₂,before₂,record₂⟩ := same found'
    exact documented.own before₁ before₂ (record₁.trans (equal.trans record₂.symm))
  · intro text
    have old := documented.enough text
    rw [split,List.countP_append,List.countP_cons] at old
    rw [written.countP_eq,contents,Table.total_put_old _ _ _ known,List.countP_append,List.countP_cons]
    simp only [titled,here] at old ⊢
    push_cast at old ⊢
    simp only [decide_eq_true_eq] at old ⊢
    split_ifs at old ⊢ <;> omega

theorem Files.documented {os : List ContentSubmitOperation} {A A' : Archive} (filed : Files title now os A A')
    (documented : Documented title A) : Documented title A' := by
  induction filed with
  | done => exact documented
  | entered d _ _ ih => exact ih (documented.enter d)
  | submitted _ new _ ih => exact ih (documented.submit new)
  | resubmitted _ ran _ ih => exact ih (documented.resubmit ran)

/-- The contents of the archive are those that were submitted. -/
theorem Files.contents {os : List ContentSubmitOperation} {A A' : Archive} (filed : Files title now os A A')
    (URI : String) : (A'.contents.find? URI).isSome ↔ (A.contents.find? URI).isSome ∨ ∃ o ∈ os, o.URI = URI := by
  induction filed with
  | done => simp
  | entered d _ _ ih => exact ih
  | @submitted o os A A' synopsis _ _ ih =>
    rw [ih]
    show ((A.contents.put o.URI _).find? URI).isSome ∨ _ ↔ _
    rw [Table.find?_put]
    by_cases here : URI = o.URI
    · simp [here]
    · simp [here,Ne.symm here]
  | @resubmitted o os A A₁ A' synopsis ran _ ih =>
    obtain ⟨s,-,-,-,known,-,-,-,-,-,contents⟩ := resubmit_ok ran
    rw [ih,contents,Table.find?_put]
    by_cases here : URI = o.URI
    · simp [here,known]
    · simp [here,Ne.symm here]

theorem Archived.documented {g : GenesisState} {L : Ledger} {A : Archive} (archived : Archived g title L A) : Documented title A := by
  induction archived with
  | genesis =>
    refine ⟨nofun,List.nodup_nil,nofun,nofun,fun text => ?_⟩
    exact Int.le_refl 0
  | step _ _ filed ih => exact filed.documented ih
  | undone _ same _ ih => exact ih.reordered same

theorem Archived.recorded {g : GenesisState} {L : Ledger} {A : Archive} (archived : Archived g title L A) :
    ∃ os, Recorded g os L ∧ ∀ URI, (A.contents.find? URI).isSome ↔ ∃ o ∈ os, o.URI = URI := by
  induction archived with
  | genesis => exact ⟨[],.genesis,fun URI => by simp [Archive.empty]⟩
  | step _ ran filed ih =>
    obtain ⟨os,recorded,contents⟩ := ih
    refine ⟨_,recorded.step ran,fun URI => ?_⟩
    rw [filed.contents,contents]
    simp only [List.mem_append,or_and_right,exists_or]
  | undone _ _ _ ih => exact ih

/-! ### A later submission -/

/-- A content that was submitted has a record with its title. -/
theorem Documented.resubmits {A : Archive} (documented : Documented title A) {o : ContentSubmitOperation} {s : Described}
    (known : A.contents.find? o.URI = some s) (synopsis : String) :
    ∃ A', A.resubmit title now synopsis o = some A' := by
  have one : titled title (title s.synopsis) o.URI s ≤ A.contents.total (titled title (title s.synopsis)) := by
    refine Table.le_total (fun _ t => ?_) known
    rw [titled]
    split <;> decide
  have counted := one.trans (documented.enough (title s.synopsis))
  rw [titled,if_pos rfl] at counted
  obtain ⟨d,member,here⟩ := List.countP_pos_iff.mp (Int.ofNat_lt.mp (show ((0 : Nat) : Int) < _ from counted))
  obtain ⟨⟨before,tdo,after⟩,found⟩ := find_description_of_mem ⟨d,member,of_decide_eq_true here⟩
  exact ⟨_,by rw [Archive.resubmit,known,Option.bind_eq_bind,Option.bind_some,found]; rfl⟩

end

/-- What a later submission changes in the ledger: the content, the payer's balance by the fee,
    and the pools that a fee goes through. -/
structure Resubmission (o : ContentSubmitOperation) (id : Nat) (L L' : Ledger) : Prop where
  rest : L' = { L with assets := L'.assets, balances := L'.balances, contents := L'.contents }
  assets : ∀ a, (L'.assets.find? a).map AssetObject.described = (L.assets.find? a).map AssetObject.described
  balances : ∀ owner a, L'.balance owner a = L.balance owner a - if owner = o.author then o.fee.part a else 0
  contents : ∀ k, k ≠ id → L'.contents.find? k = L.contents.find? k

theorem resubmission_ok {env : Env} {o : ContentSubmitOperation} {L L' : Ledger} {id : Nat} {c : Content}
    (found : L.find_content o.URI = some (id,c))
    (ran : EStateM.run (apply_operation env (.content_submit o)) L = .ok () L') : Resubmission o id L L' := by
  rw [apply_operation_eq] at ran
  obtain ⟨-,L₁,L₂,L₃,fee,act,flow⟩ := evaluate_and_apply_ok.mp ran
  have evaluated := flow.evaluated
  simp only [evaluate,do_evaluate,reads_bind,reads_pure,Prod.mk.injEq] at evaluated
  obtain ⟨_,-,_,-,content,evaluated,-,rfl⟩ := evaluated
  have prepared : Prepared L L₂ := flow.prepared
  have applied := flow.applied
  rcases content_submit_evaluate_content evaluated with ⟨rfl,missing⟩ | ⟨k,_,rfl,found',-,-⟩
  · rw [found] at missing
    cases missing
  · rw [found] at found'
    cases found'
    cases applied
    have charged : EStateM.run (charge_fee o.author o.fee) (L₂.with_content id fun co =>
        { co with price := set_prices co.price o.price, co_authors := o.co_authors }) = .ok () L' := flow.charged
    have framed := adjust_balance_frame (run_observe_bind.mp charged).choose_spec.2
    have rest := prepared.rest
    refine ⟨?_,fun a => ?_,fun owner a => ?_,fun k other => ?_⟩
    · rw [framed,Ledger.with_content,rest]
    · rw [show L'.assets = L₂.assets by rw [framed]; rfl]
      exact prepared.assets a
    · rw [balance_charge_fee charged]
      show L₂.balance owner a - _ = _
      rw [Ledger.balance,Ledger.balance,rest]
    · rw [show L'.contents = L₂.contents.update id _ by rw [framed]; rfl,Index.find?_update,if_neg other,rest]

/-- A later submission touches nothing but the content, the bookkeeping of the fee and the record
    of the content's first submission. -/
structure TouchesOwn (o : ContentSubmitOperation) (id record : Nat) (L L' : Ledger) (A A' : Archive) : Prop where
  ledger : Resubmission o id L L'
  contents : ∀ URI, URI ≠ o.URI → A'.contents.find? URI = A.contents.find? URI
  details : ∀ d ∈ A.details, d.id ≠ record → d ∈ A'.details
  entered : (A'.details.map (·.id)).Perm (A.details.map (·.id))

/-- The first record with the stored title is the content's own, or there is nothing to write
    into it. -/
def FindsOwn (title : String → String) (now : Nat) (synopsis : String) (A : Archive) (s : Described) : Prop :=
  ∀ d, A.details.find? (fun d => d.description = title s.synopsis) = some d →
    d.id = s.record ∨ d.description = title synopsis ∧ d.timestamp = now

/-- In every reachable state a content that is submitted again has the record of its first
    submission, which no other content shares, and some record with its title is found. Nothing
    but its own record is touched exactly when the first one found is its own. -/
theorem resubmission_touches_own (g : GenesisState) (title : String → String) (L : Ledger) (A : Archive)
    (archived : Archived g title L A) (env : Env) (o : ContentSubmitOperation) (L' : Ledger) (id : Nat) (c : Content)
    (found : L.find_content o.URI = some (id,c))
    (ran : EStateM.run (apply_operation env (.content_submit o)) L = .ok () L') (synopsis : String) :
    ∃ s A', A.contents.find? o.URI = some s ∧ A.resubmit title L.properties.time synopsis o = some A' ∧
      (∃ d ∈ A.details, d.id = s.record ∧ d.operation_type = .content_submit) ∧
      (∀ URI s', A.contents.find? URI = some s' → s'.record = s.record → URI = o.URI) ∧
      (TouchesOwn o id s.record L L' A A' ↔ FindsOwn title L.properties.time synopsis A s) := by
  have documented := archived.documented
  obtain ⟨os,recorded,submitted⟩ := archived.recorded
  -- The content was submitted, so that the archive knows it.
  have known : (A.contents.find? o.URI).isSome := by
    obtain ⟨here,named⟩ := content_of_find found
    obtain ⟨⟨earlier,last,parts,-⟩,-⟩ := recorded.history.written here
    have listed : last ∈ submitted_as c.URI os := by rw [parts]; simp
    obtain ⟨member,same⟩ := List.mem_filter.mp listed
    exact (submitted o.URI).mpr ⟨last,member,(of_decide_eq_true same).trans named⟩
  obtain ⟨s,known⟩ := Option.isSome_iff_exists.mp known
  obtain ⟨A',resubmitted⟩ := documented.resubmits known synopsis
  obtain ⟨s',before,tdo,after,known',split,first,here,written,-,contents⟩ := resubmit_ok resubmitted
  obtain rfl : s = s' := Option.some.inj (known.symm.trans known')
  refine ⟨s,A',known,resubmitted,documented.recorded known,fun URI s' known' same => documented.own known' known same,?_,?_⟩
  · intro touches d found'
    obtain rfl : tdo = d := Option.some.inj (first.symm.trans found')
    refine or_iff_not_imp_left.mpr fun other => ?_
    have stays := written.mem_iff.mp (touches.details tdo (by rw [split]; simp) other)
    -- No other record has its number.
    have distinct := documented.distinct
    rw [split,List.map_append,List.map_cons] at distinct
    obtain ⟨outside,-⟩ := List.nodup_cons.mp (List.nodup_middle.mp distinct)
    have same : tdo = { tdo with description := title synopsis, timestamp := L.properties.time } := by
      rcases List.mem_append.mp stays with inside | inside
      · exact absurd (List.mem_append_left _ (List.mem_map_of_mem inside)) outside
      · rcases List.mem_cons.mp inside with same | inside
        · exact same
        · exact absurd (List.mem_append_right _ (List.mem_map_of_mem inside)) outside
    exact ⟨congrArg TransactionDetail.description same,congrArg TransactionDetail.timestamp same⟩
  · intro finds
    refine ⟨resubmission_ok found ran,fun URI other => ?_,fun d member other => ?_,?_⟩
    · rw [contents]
      exact Table.find?_put_other _ _ other
    · refine written.mem_iff.mpr ?_
      rw [split] at member
      rcases List.mem_append.mp member with inside | inside
      · exact List.mem_append_left _ inside
      · rcases List.mem_cons.mp inside with rfl | inside
        · obtain ⟨description,timestamp⟩ := (finds d first).resolve_left other
          rw [← description,← timestamp]
          simp
        · exact List.mem_append_right _ (List.mem_cons_of_mem _ inside)
    · refine (written.map _).trans ?_
      rw [split,List.map_append,List.map_append,List.map_cons,List.map_cons]

/-! ### Two contents with one title -/

/-- A content of account 0, without seeders and for nothing. -/
def plain_submission (URI : String) : ContentSubmitOperation :=
  { simplified_submission with author := 0, URI := URI, publishing_fee := ⟨0,core⟩ }

def first_content : Ledger := endState (EStateM.run (perform (submit (plain_submission "ipfs:a"))) (init_genesis small_genesis))
def second_content : Ledger := endState (EStateM.run (perform (submit (plain_submission "ipfs:b"))) first_content)

/-- Both have the title `t`; a synopsis that is no more than a title is the title. -/
def two_titled : Archive :=
  (Archive.empty.submit id (init_genesis small_genesis).properties.time "t" (plain_submission "ipfs:a")).submit id
    first_content.properties.time "t" (plain_submission "ipfs:b")

theorem archived_two_titled : Archived small_genesis id second_content two_titled :=
  (Archived.genesis.step (run_of_returned (x := perform (submit (plain_submission "ipfs:a"))) (by decide +kernel))
    (.submitted "t" rfl (.done _))).step (run_of_returned (x := perform (submit (plain_submission "ipfs:b"))) (by decide +kernel))
    (.submitted "t" rfl (.done _))

/-- The first content finds its own record. -/
theorem resubmission_touches_own_first : ∃ k record L' A',
    TouchesOwn (plain_submission "ipfs:a") k record second_content L' two_titled A' := by
  obtain ⟨⟨k,c⟩,found⟩ : ∃ row, second_content.find_content "ipfs:a" = some row :=
    Option.isSome_iff_exists.mp (by decide +kernel)
  obtain ⟨s,A',known,-,-,-,touches⟩ := resubmission_touches_own small_genesis _ _ _ archived_two_titled free_env
    (plain_submission "ipfs:a") _ k c found
    (run_of_returned (x := apply_operation free_env (.content_submit (plain_submission "ipfs:a"))) (by decide +kernel)) "u"
  refine ⟨k,s.record,_,A',touches.mpr fun d first => .inl ?_⟩
  obtain rfl : (⟨"t",0⟩ : Described) = s := Option.some.inj known
  have own : (two_titled.details.find? fun d => d.description = "t").map (·.id) = some 0 := by decide +kernel
  rw [show (two_titled.details.find? fun d => d.description = "t") = some d from first] at own
  exact Option.some.inj own

/-- The second finds the record of the first, and gives it the new title. -/
theorem resubmission_renames_another : ¬ ∀ g title L A, Archived g title L A → ∀ env o L' id c,
    L.find_content o.URI = some (id,c) → EStateM.run (apply_operation env (.content_submit o)) L = .ok () L' →
    ∀ synopsis s A', A.contents.find? o.URI = some s → A.resubmit title L.properties.time synopsis o = some A' →
      TouchesOwn o id s.record L L' A A' := by
  intro always
  obtain ⟨⟨k,c⟩,found⟩ : ∃ row, second_content.find_content "ipfs:b" = some row :=
    Option.isSome_iff_exists.mp (by decide +kernel)
  let resubmitted := two_titled.resubmit id second_content.properties.time "u" (plain_submission "ipfs:b")
  obtain ⟨A',result⟩ : ∃ A', resubmitted = some A' := Option.isSome_iff_exists.mp (by decide +kernel)
  have touches := always small_genesis _ _ _ archived_two_titled free_env (plain_submission "ipfs:b") _ k c found
    (run_of_returned (x := apply_operation free_env (.content_submit (plain_submission "ipfs:b"))) (by decide +kernel)) "u"
    ⟨"t",1⟩ A' rfl result
  -- The record of the first content is not there any more.
  obtain ⟨d,first⟩ : ∃ d, two_titled.details.find? (fun d => d.id = 0 && d.description = "t") = some d :=
    Option.isSome_iff_exists.mp (by decide +kernel)
  have described := List.find?_some first
  obtain ⟨number,-⟩ : d.id = 0 ∧ d.description = "t" := by simpa using described
  have stays := touches.details d (List.mem_of_find?_eq_some first) (by rw [number]; decide)
  have gone : (resubmitted.map fun A => A.details.any fun d => d.id = 0 && d.description = "t") = some false := by decide +kernel
  rw [result,Option.map_some,Option.some.injEq,List.any_eq_false] at gone
  exact gone d stays described

end Decent.Money

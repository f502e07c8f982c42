import Decent.AccountHistory
import Decent.Lib.Ordered
import Mathlib.Data.Prod.Lex

/-!
The history api, which reads what the account history plugin has entered. A page follows the
objects of an account from the last one on; a search reads one page after another, and goes on
below the last operation of each; a relative page goes by the numbers of the operations.
-/
namespace Decent.HistoryApi
open Decent.Authorities (AccountId)
open Decent.Money (Ledger)
open Decent.AccountHistory

variable {Key : Type} [LinearOrder Key]

inductive Exc
  | assertion
  | unknown_object
  | before_begin
  | no_end
deriving DecidableEq, Repr

/-! ### Pages -/

/-- `operation_history_object`, with its id. -/
abbrev Entry (Key : Type) [LinearOrder Key] := Nat × AppliedOperation Key

def operation_at (s : Store Key) (id : Nat) : Except Exc (Entry Key) :=
  (s.operations.find? id).elim (throw .unknown_object) fun o => pure (id,o)

def node_at (s : Store Key) (p : Nat) : Except Exc AccountTransactionHistory :=
  (s.histories.find? p).elim (throw .unknown_object) pure

/-- The rounds of the loop from `node` on. An object that refers to the object 0 is taken for the last one. -/
def collect (s : Store Key) (stop limit start : Nat) :
    Nat → AccountTransactionHistory → List (Entry Key) → Except Exc (List (Entry Key))
  | 0,_,_ => throw .no_end
  | rounds + 1,node,result =>
    if stop < node.operation_id ∧ result.length < limit then do
      let result ← if node.operation_id ≤ start then (result ++ [·]) <$> operation_at s node.operation_id else pure result
      if node.next = 0 then pure result
      else do
        let next ← node_at s node.next
        collect s stop limit start rounds next result
    else pure result

/-- `history_api::get_account_history` -/
def get_account_history (L : Ledger) (s : Store Key) (account : AccountId) (stop limit start : Nat) :
    Except Exc (List (Entry Key)) :=
  if ¬ limit ≤ 100 then throw .assertion
  else if ¬ L.known account then throw .unknown_object
  else if (s.stats account).most_recent_op = 0 then pure []
  else do
    let node ← node_at s (s.stats account).most_recent_op
    collect s stop limit (if start = 0 then node.operation_id else start) s.histories.next node []

/-! ### Searches -/

/-- What a search reads of an operation for an account: the block it was applied in, and what
    `operation_get_balance_history` finds. -/
structure Reading where
  block_num : Nat
  asset0 : Money.Asset
  asset1 : Money.Asset
  fee : Money.Asset

/-- The arguments of a search beside the account. -/
structure Query where
  assets_list : List Nat
  partner_account_id : Option AccountId
  from_block : Nat
  to_block : Nat
  start_offset : Nat

/-- Whether the account takes part, where the operation is a transfer. -/
def is_partner (partner : AccountId) : Operation Key → Bool
  | .transfer from_account to_account => from_account = partner || to_account = partner
  | .transfer2 from_account (.account to_account) => from_account = partner || to_account = partner
  | .transfer2 from_account (.content _) => from_account = partner
  | _ => true

/-- The operation passes the filters. Both assets are looked up by the id of the first one. -/
def Query.passes (q : Query) (reading : Reading) (op : Operation Key) : Bool :=
  !(q.from_block != 0 && q.to_block != 0 && (reading.block_num < q.from_block || q.to_block < reading.block_num)) &&
    !(reading.asset0.amount = 0 && reading.asset1.amount = 0 && reading.fee.amount = 0) &&
    (q.assets_list.isEmpty ||
      (reading.asset0.amount != 0 && q.assets_list.contains reading.asset0.asset_id ||
        reading.asset1.amount != 0 && q.assets_list.contains reading.asset0.asset_id)) &&
    q.partner_account_id.all (is_partner · op)

/-- `balance_change_result` -/
structure BalanceChange (Key : Type) [LinearOrder Key] where
  hist_object : Entry Key
  reading : Reading

/-- The loop over the operations of a page, and the number of those met before it. It ends when there
    are enough results. -/
def sift (reading : Nat → Reading) (q : Query) (limit : Nat) :
    List (Entry Key) → Nat → List (BalanceChange Key) → Nat × List (BalanceChange Key)
  | [],met,result => (met,result)
  | o :: rest,met,result =>
    if q.passes (reading o.1) o.2.op then
      let result := if q.start_offset ≤ met then result ++ [⟨o,reading o.1⟩] else result
      if limit ≤ result.length then (met + 1,result) else sift reading q limit rest (met + 1) result
    else sift reading q limit rest (met + 1) result

/-- The loop over the pages. -/
def search (L : Ledger) (s : Store Key) (account_id : AccountId) (reading : Nat → Reading) (q : Query) (limit : Nat) :
    Nat → Nat → Nat → List (BalanceChange Key) → Except Exc (List (BalanceChange Key))
  | 0,_,_,_ => throw .no_end
  | rounds + 1,start,met,result => do
    let current ← get_account_history L s account_id 0 100 start
    current.getLast?.elim (pure result) fun back =>
      let sifted := sift reading q limit current met result
      if back.1 - 1 = 0 then pure sifted.2
      else if sifted.2.length < limit then search L s account_id reading q limit rounds (back.1 - 1) sifted.1 sifted.2
      else pure sifted.2

/-- `history_api::search_account_balance_history` -/
def search_account_balance_history (L : Ledger) (s : Store Key) (account_id : AccountId) (reading : Nat → Reading)
    (q : Query) (limit : Int) : Except Exc (List (BalanceChange Key)) :=
  if ¬ 0 < limit then throw .assertion
  else search L s account_id reading q limit.toNat (s.operations.next + 1) 0 0 []

/-! ### Relative pages -/

def seq_key (e : AccountTransactionHistory) : Lex (AccountId × Nat) := toLex (e.account,e.sequence.toNat)

/-- The index `by_seq`. -/
def by_seq (s : Store Key) : List AccountTransactionHistory :=
  Ordered.link_all seq_key (s.histories.table.rows.map Prod.snd)

/-- The rounds of the loop from the iterator down. An iterator is the number of elements before it, and
    there is none before the first. -/
def collect_back (s : Store Key) (rows : List AccountTransactionHistory) (itr_stop limit : Nat) :
    Nat → List (Entry Key) → Except Exc (List (Entry Key))
  | itr,result =>
    if itr ≠ itr_stop ∧ result.length < limit then do
      let e ← rows[itr]?.elim (throw .unknown_object) pure
      let entry ← operation_at s e.operation_id
      match itr with
      | 0 => throw .before_begin
      | before + 1 => collect_back s rows itr_stop limit before (result ++ [entry])
    else pure result

/-- `history_api::get_relative_account_history` -/
def get_relative_account_history (L : Ledger) (s : Store Key) (account : AccountId) (stop limit start : Nat) :
    Except Exc (List (Entry Key)) :=
  if ¬ limit ≤ 100 then throw .assertion
  else if ¬ L.known account then throw .unknown_object
  else
    let total := (s.stats account).total_ops.toNat
    let start := if start = 0 then total else min total start
    let rows := by_seq s
    let itr := rows.length - (Ordered.upper_bound seq_key (toLex (account,start)) rows).length
    let itr_stop := rows.length - (Ordered.lower_bound seq_key (toLex (account,stop)) rows).length
    match itr with
    | 0 => throw .before_begin
    | before + 1 => collect_back s rows itr_stop limit before []

/-! ### What the objects of an account are -/

/-- From `p` on, the objects of an account refer to these operations. Each but the last refers to one that
    was entered before it, and the last one to the object 0. -/
def Chained (histories : Index AccountTransactionHistory) (a : AccountId) : Nat → List Nat → Prop
  | p,[] => p = 0
  | p,id :: rest => ∃ e, histories.find? p = some e ∧ e.account = a ∧ e.operation_id = id ∧
      (rest ≠ [] → e.next < p) ∧ Chained histories a e.next rest

/-- The objects of an account in the order they were entered. -/
def rows_of (s : Store Key) (a : AccountId) : List (Nat × AccountTransactionHistory) :=
  s.histories.table.rows.filter fun row => row.2.account = a

/-- The objects of an account, for its operations from the last one back. -/
structure Filed (s : Store Key) (a : AccountId) (ops : List Nat) : Prop where
  chained : Chained s.histories a (s.stats a).most_recent_op ops
  entered : (rows_of s a).map (·.2.operation_id) = ops.reverse
  numbered : (rows_of s a).map (·.2.sequence.toNat) = (List.range ops.length).map (· + 1)

theorem chained_create {histories : Index AccountTransactionHistory} {a : AccountId} (e : AccountTransactionHistory)
    {p : Nat} {ops : List Nat} (chained : Chained histories a p ops) : Chained (histories.create e) a p ops := by
  induction ops generalizing p with
  | nil => exact chained
  | cons id rest ih =>
    obtain ⟨x,found,account,refers,older,chained'⟩ := chained
    refine ⟨x,?_,account,refers,older,ih chained'⟩
    rw [Index.find?_create,if_neg (Nat.ne_of_lt (histories.below p x found))]
    exact found

theorem rows_of_enter (s : Store Key) (e : AccountTransactionHistory) (a : AccountId) :
    rows_of (s.enter e) a = rows_of s a ++ if e.account = a then [(s.histories.next,e)] else [] := by
  have rows : (s.enter e).histories.table.rows = s.histories.table.rows ++ [(s.histories.next,e)] :=
    Table.rows_put_new e s.histories.find?_next
  rw [rows_of,rows,List.filter_append,rows_of]
  by_cases own : e.account = a <;> simp [own]

section
variable {s s' : Store Key} {L : Ledger} {operation_id : Nat} {a : AccountId} {ops : AccountId → List Nat}

theorem link_filed (held : Held s a (ops a)) (filed : ∀ b, Filed s b (ops b)) (room : (ops a).length + 1 < 2^32)
    (ran : link L operation_id s a = .ok s') : ∀ b, Filed s' b (if b = a then operation_id :: ops b else ops b) := by
  obtain ⟨-,-,rfl⟩ := link_iff.mp ran
  intro b
  by_cases here : b = a
  · subst here
    have own : b = (s.ahead operation_id b).account := rfl
    have sequence := next_sequence held.counted room
    have older : ops b ≠ [] → (s.stats b).most_recent_op < s.histories.next := by
      intro some_before
      obtain ⟨id,rest,split⟩ := List.exists_cons_of_ne_nil some_before
      have chained := (filed b).chained
      rw [split] at chained
      obtain ⟨x,found,-⟩ := chained
      exact s.histories.below _ x found
    rw [if_pos rfl]
    refine ⟨?_,?_,?_⟩
    · rw [stats_enter,if_pos own]
      exact ⟨_,by rw [Store.enter,Index.find?_create,if_pos rfl],rfl,rfl,older,chained_create _ (filed b).chained⟩
    · rw [rows_of_enter,if_pos own.symm,List.map_append,(filed b).entered,List.reverse_cons]
      rfl
    · rw [rows_of_enter,if_pos own.symm,List.map_append,(filed b).numbered,List.length_cons,List.range_succ,
        List.map_append]
      exact congrArg _ (congrArg (fun n => [n]) sequence)
  · have other : b ≠ (s.ahead operation_id a).account := here
    rw [if_neg here]
    refine ⟨?_,?_,?_⟩
    · rw [stats_enter,if_neg other]
      exact chained_create _ (filed b).chained
    · rw [rows_of_enter,if_neg other.symm,List.append_nil]
      exact (filed b).entered
    · rw [rows_of_enter,if_neg other.symm,List.append_nil]
      exact (filed b).numbered

theorem link_all_filed (accounts : List AccountId) (distinct : accounts.Nodup) (held : ∀ b, Held s b (ops b))
    (filed : ∀ b, Filed s b (ops b)) (room : ∀ a ∈ accounts, (ops a).length + 1 < 2^32)
    (ran : accounts.foldlM (link L operation_id) s = .ok s') :
    ∀ b, Filed s' b (if b ∈ accounts then operation_id :: ops b else ops b) := by
  induction accounts generalizing s ops with
  | nil =>
    cases ran
    simpa using filed
  | cons a rest ih =>
    obtain ⟨apart,distinct'⟩ := List.nodup_cons.mp distinct
    rw [List.foldlM_cons] at ran
    cases first : link L operation_id s a with
    | error e =>
      rw [first] at ran
      cases ran
    | ok s₁ =>
      rw [first] at ran
      have short := room a List.mem_cons_self
      have later {b : AccountId} (member : b ∈ rest) : b ≠ a := fun same => apart (same ▸ member)
      obtain ⟨-,held'⟩ := link_held held short first
      have filed' := ih distinct' held' (link_filed (held a) filed short first)
        (fun b member => by rw [if_neg (later member)]; exact room b (List.mem_cons_of_mem _ member)) ran
      intro b
      have here := filed' b
      by_cases same : b = a
      · subst same
        simpa [apart] using here
      · simpa [same] using here

end

/-- The api finds the objects of every account, and behind each observed operation the operation that was applied. -/
structure Stored (tracked : Tracked) (s : Store Key) (seen : Observed) : Prop where
  filed : ∀ a, Filed s a (operations_of tracked seen a)
  told : ∀ op ∈ seen, ∃ L o, s.operations.find? op.1 = some o ∧ op.2 = involved L o

section
variable {tracked : Tracked} {L : Ledger} {s s' : Store Key} {seen : Observed}

theorem Stored.reserved (stored : Stored tracked s seen) (n : Nat) :
    Stored tracked { s with operations := s.operations.reserve n } seen :=
  ⟨fun a => ⟨(stored.filed a).chained,(stored.filed a).entered,(stored.filed a).numbered⟩,stored.told⟩

theorem observe_operation_stored {op : AppliedOperation Key} (sound : Sound tracked s seen) (stored : Stored tracked s seen)
    (room : ∀ a, (operations_of tracked ((s.operations.next,involved L op) :: seen) a).length < 2^32)
    (ran : update_account_history tracked L s (some op) = .ok s') :
    Stored tracked s' ((s.operations.next,involved L op) :: seen) := by
  cases found : impacted L op with
  | error e => simp [update_account_history,found,bind,Except.bind] at ran
  | ok accounts =>
    obtain ⟨_,there,sorted,same⟩ := impacted_ok (impacted_readable found)
    cases found.symm.trans there
    simp only [update_account_history,found,bind,Except.bind] at ran
    have all (a : AccountId) : a ∈ tracked.among accounts ↔ tracked.tracks a ∧ a ∈ involved L op := by
      rw [Tracked.mem_among,same]
    have fresh (a : AccountId) : s.operations.next ∉ operations_of tracked seen a := by
      intro member
      obtain ⟨earlier,inside,here⟩ := mem_operations_of member
      exact absurd (sound.before earlier inside) (by omega)
    let entered : Store Key := { s with operations := s.operations.create op }
    have held (a : AccountId) : Held entered a (operations_of tracked seen a) :=
      ⟨(sound.held a).linked,(sound.held a).counted,(sound.held a).entered⟩
    have filed (a : AccountId) : Filed entered a (operations_of tracked seen a) :=
      ⟨(stored.filed a).chained,(stored.filed a).entered,(stored.filed a).numbered⟩
    have short : ∀ a ∈ tracked.among accounts, (operations_of tracked seen a).length + 1 < 2^32 := by
      intro a member
      have enough := room a
      rwa [operations_of_cons,if_pos ((all a).mp member)] at enough
    have distinct := tracked.distinct_among sorted
    obtain ⟨operations,-⟩ := (link_all (L := L) _ distinct held (fun a _ => fresh a) short).2 s' ran
    have filed' := link_all_filed _ distinct held filed short ran
    refine ⟨fun a => ?_,?_⟩
    · have here := filed' a
      rw [operations_of_cons]
      simpa only [all] using here
    · have kept (k : Nat) : s'.operations.find? k = if k = s.operations.next then some op else s.operations.find? k := by
        rw [operations]
        exact Index.find?_create ..
      refine List.forall_mem_cons.mpr ⟨⟨L,op,by rw [kept,if_pos rfl],rfl⟩,?_⟩
      intro earlier member
      obtain ⟨L',o,there',involves⟩ := stored.told earlier member
      refine ⟨L',o,?_,involves⟩
      rw [kept,if_neg (Nat.ne_of_lt (sound.before earlier member))]
      exact there'

theorem observe_operations_stored (hist : List (Option (AppliedOperation Key))) (sound : Sound tracked s seen)
    (stored : Stored tracked s seen)
    (room : ∀ a, (operations_of tracked (observed L s.operations.next hist seen) a).length < 2^32)
    (ran : hist.foldlM (update_account_history tracked L) s = .ok s') :
    Stored tracked s' (observed L s.operations.next hist seen) := by
  induction hist generalizing s seen with
  | nil =>
    cases ran
    exact stored
  | cons o_op rest ih =>
    rw [List.foldlM_cons] at ran
    cases o_op with
    | none =>
      have next : (s.operations.reserve (s.operations.next + 1)).next = s.operations.next + 1 := by
        simp [Index.reserve]
      have later := ih (sound.reserved (s.operations.next + 1)) (stored.reserved _) (by rw [next]; exact room) ran
      rw [next] at later
      exact later
    | some op =>
      have roomy (a : AccountId) := lt_of_le_of_lt (operations_of_grow tracked L a rest _ _) (room a)
      cases first : update_account_history tracked L s (some op) with
      | error e =>
        rw [first] at ran
        cases ran
      | ok s₁ =>
        rw [first] at ran
        obtain ⟨sound',next⟩ := (observe_operation sound roomy).2 s₁ first
        have later := ih sound' (observe_operation_stored sound stored roomy first) (by rw [next]; exact room) ran
        rw [next] at later
        exact later

end

theorem run_stored {tracked : Tracked} {nodes : List (Node Key)} (run : Run tracked nodes) :
    ∀ n ∈ nodes, Stored tracked n.store n.seen := by
  induction run with
  | start =>
    refine List.forall_mem_singleton.mpr ⟨fun a => ?_,nofun⟩
    rw [operations_of,List.filter_nil,List.map_nil,ite_self]
    exact ⟨rfl,rfl,rfl⟩
  | applied run roomy ran ih =>
    refine List.forall_mem_cons.mpr ⟨?_,ih⟩
    exact observe_operations_stored _ (run.sound _ List.mem_cons_self) (ih _ List.mem_cons_self) roomy ran
  | popped run ih => exact (List.forall_mem_cons.mp ih).2

/-! ### What a page has -/

/-- The operation is the one behind the object 0 of the plugin. -/
def hidden (s : Store Key) (a : AccountId) (id : Nat) : Bool :=
  (s.histories.find? 0).elim false fun e => e.account = a && e.operation_id = id

/-- The operations of an account that the api can come to. -/
def visible (tracked : Tracked) (n : Node Key) (a : AccountId) : List Nat :=
  (operations_of tracked n.seen a).filter fun id => !hidden n.store a id

/-- The objects of these operations. -/
def entries (s : Store Key) (ids : List Nat) : List (Entry Key) :=
  ids.filterMap fun id => (s.operations.find? id).map fun o => (id,o)

theorem entries_map {s : Store Key} {ids : List Nat} (told : ∀ id ∈ ids, (s.operations.find? id).isSome) :
    (entries s ids).map Prod.fst = ids := by
  induction ids with
  | nil => rfl
  | cons id rest ih =>
    obtain ⟨here,later⟩ := List.forall_mem_cons.mp told
    obtain ⟨o,found⟩ := Option.isSome_iff_exists.mp here
    have same : entries s (id :: rest) = (id,o) :: entries s rest := by simp [entries,found]
    rw [same,List.map_cons,ih later]

theorem entries_take {s : Store Key} {ids : List Nat} (told : ∀ id ∈ ids, (s.operations.find? id).isSome) (k : Nat) :
    (entries s ids).take k = entries s (ids.take k) := by
  induction ids generalizing k with
  | nil => simp [entries]
  | cons id rest ih =>
    obtain ⟨here,later⟩ := List.forall_mem_cons.mp told
    obtain ⟨o,found⟩ := Option.isSome_iff_exists.mp here
    have same (ids : List Nat) : entries s (id :: ids) = (id,o) :: entries s ids := by simp [entries,found]
    cases k with
    | zero => rfl
    | succ k => rw [same,List.take_succ_cons,List.take_succ_cons,same,ih later]

section
variable {s : Store Key} {a : AccountId} {ops : List Nat}

/-- An object that is not the object 0 shows its operation. -/
theorem shown_of_object (filed : Filed s a ops) (distinct : ops.Nodup) {p : Nat} {e : AccountTransactionHistory}
    (found : s.histories.find? p = some e) (account : e.account = a) (positive : 0 < p) :
    hidden s a e.operation_id = false := by
  cases first : s.histories.find? 0 with
  | none => simp [hidden,first]
  | some e₀ =>
    by_contra here
    simp only [hidden,first,Option.elim_some,Bool.not_eq_false,Bool.and_eq_true,decide_eq_true_eq] at here
    have member : (p,e) ∈ rows_of s a := List.mem_filter.mpr ⟨Table.mem_of_find? found,by simpa using account⟩
    have member₀ : (0,e₀) ∈ rows_of s a := List.mem_filter.mpr ⟨Table.mem_of_find? first,by simpa using here.1⟩
    have once : ((rows_of s a).map (·.2.operation_id)).Nodup := by
      rw [filed.entered]
      exact List.nodup_reverse.mpr distinct
    have same := List.inj_on_of_nodup_map once member₀ member here.2
    exact absurd (congrArg Prod.fst same) (Nat.ne_of_lt positive)

/-- Behind the object 0 nothing is shown. -/
theorem nothing_shown {chained : List Nat} (behind : Chained s.histories a 0 chained) :
    chained.filter (fun id => !hidden s a id) = [] := by
  cases chained with
  | nil => rfl
  | cons id rest =>
    obtain ⟨e,found,account,refers,older,-⟩ := behind
    have alone : rest = [] := by
      by_contra more
      exact absurd (older more) (Nat.not_lt_zero _)
    simp [alone,hidden,found,account,refers]

/-- The operations that a page may have. -/
def within (stop start id : Nat) : Bool := stop < id && id ≤ start

theorem collect_eq (stop limit start : Nat) {rounds p : Nat} {node : AccountTransactionHistory} {rest : List Nat}
    {result : List (Entry Key)} (filed : Filed s a ops) (distinct : ops.Nodup)
    (chained : Chained s.histories a p rest) (falling : rest.Pairwise (· > ·))
    (told : ∀ id ∈ rest, (s.operations.find? id).isSome) (found : s.histories.find? p = some node) (positive : 0 < p)
    (enough : p ≤ rounds) (short : result.length ≤ limit) :
    collect s stop limit start rounds node result = .ok (result ++
      entries s (((rest.filter fun id => !hidden s a id).filter (within stop start)).take (limit - result.length))) := by
  induction rest generalizing p node rounds result with
  | nil => exact absurd chained (Nat.ne_of_gt positive)
  | cons id rest ih =>
    obtain ⟨e,found',account,rfl,older,chained'⟩ := chained
    obtain ⟨rounds,rfl⟩ : ∃ r, rounds = r + 1 := ⟨rounds - 1,by omega⟩
    cases found.symm.trans found'
    obtain ⟨first,falling'⟩ := List.pairwise_cons.mp falling
    obtain ⟨here,told'⟩ := List.forall_mem_cons.mp told
    obtain ⟨o,operation⟩ := Option.isSome_iff_exists.mp here
    have shown := shown_of_object filed distinct found account positive
    rw [List.filter_cons_of_pos (by simp [shown])]
    unfold collect
    by_cases go : stop < node.operation_id ∧ result.length < limit
    · rw [if_pos go]
      -- What the rest of the loop does, with this operation on the page or not.
      have onward {result' : List (Entry Key)} (short' : result'.length ≤ limit) :
          (if node.next = 0 then pure result' else do
            let next ← node_at s node.next
            collect s stop limit start rounds next result') = Except.ok (ε := Exc) (result' ++
              entries s (((rest.filter fun id => !hidden s a id).filter (within stop start)).take (limit - result'.length))) := by
        by_cases last : node.next = 0
        · rw [last] at chained'
          simp [last,nothing_shown chained',entries,pure,Except.pure]
        · obtain ⟨later,more,rfl⟩ : ∃ later more, rest = later :: more := by
            cases rest with
            | nil => exact absurd chained' last
            | cons later more => exact ⟨later,more,rfl⟩
          have before : node.next < p := older (List.cons_ne_nil _ _)
          obtain ⟨next,found'',-⟩ := id chained'
          have enough' : node.next ≤ rounds := by omega
          have deeper := ih chained' falling' told' found'' (Nat.pos_of_ne_zero last) enough' short'
          simpa [last,node_at,found'',pure,Except.pure,bind,Except.bind] using deeper
      by_cases reached : node.operation_id ≤ start
      · have there : operation_at s node.operation_id = .ok (node.operation_id,o) := by
          simp [operation_at,operation,pure,Except.pure]
        have inside : within stop start node.operation_id = true := by simp [within,go.1,reached]
        have longer : (result ++ [(node.operation_id,o)]).length ≤ limit := by
          rw [List.length_append,List.length_singleton]
          exact go.2
        obtain ⟨left,room⟩ : ∃ left, limit - result.length = left + 1 := ⟨limit - result.length - 1,by omega⟩
        have behind : limit - (result ++ [(node.operation_id,o)]).length = left := by
          rw [List.length_append,List.length_singleton]
          omega
        have pushed (ids : List Nat) : entries s (node.operation_id :: ids) = (node.operation_id,o) :: entries s ids := by
          simp [entries,operation]
        have rest_of_page := onward longer
        rw [behind,List.append_assoc,List.singleton_append,← pushed,← List.take_succ_cons] at rest_of_page
        rw [if_pos reached,there,List.filter_cons_of_pos inside,room]
        exact rest_of_page
      · have outside : ¬ within stop start node.operation_id = true := by simp [within,reached]
        rw [if_neg reached,List.filter_cons_of_neg outside]
        exact onward short
    · rw [if_neg go]
      have nothing : ((node.operation_id :: rest.filter fun id => !hidden s a id).filter (within stop start)).take
          (limit - result.length) = [] := by
        by_cases full : result.length < limit
        · have low : node.operation_id ≤ stop := by omega
          have none_inside : ∀ id ∈ node.operation_id :: rest.filter (fun id => !hidden s a id),
              ¬ within stop start id = true := by
            intro id member
            have least : id ≤ node.operation_id := by
              rcases List.mem_cons.mp member with rfl | inside
              · exact le_refl _
              · exact (first id (List.mem_filter.mp inside).1).le
            simp only [within,Bool.and_eq_true,decide_eq_true_eq]
            omega
          rw [List.filter_eq_nil_iff.mpr none_inside,List.take_nil]
        · rw [Nat.sub_eq_zero_of_le (not_lt.mp full),List.take_zero]
      rw [nothing]
      simp [entries,pure,Except.pure]

end

/-- A block whose first operation failed, with a transfer from account 4 to account 5 behind it. -/
def block_after_failure (L : Ledger) : AppliedBlock Nat := ⟨L,[none,some ⟨.transfer2 4 (.account 5),none⟩]⟩

/-- The accounts 4 and 5 are there. -/
def two_accounts : Ledger :=
  Money.after_actions [Money.new_account Money.default_account.options,Money.new_account Money.default_account.options]

theorem run_after_failure : ∃ (n : Node Nat) (below : List (Node Nat)), Run track_all (n :: below) ∧
    n.seen = [(1,[4,4,5])] ∧ hidden n.store 4 1 = true ∧ hidden n.store 5 1 = false := by
  have roomy : Roomy track_all (block_after_failure two_accounts) ⟨⟨.empty,.empty,.empty⟩,[]⟩ := by
    intro a
    show (operations_of track_all [(1,[4,4,5])] a).length < 2^32
    rw [operations_of_cons]
    have nothing : operations_of track_all [] a = [] := by simp [operations_of]
    split <;> simp [nothing]
  have hides : ((update_account_histories track_all (block_after_failure two_accounts) ⟨.empty,.empty,.empty⟩).toOption.map
      fun s => (hidden s 4 1,hidden s 5 1)) = some (true,false) := by decide +kernel
  cases ran : update_account_histories track_all (block_after_failure two_accounts) ⟨.empty,.empty,.empty⟩ with
  | error e =>
    rw [ran] at hides
    cases hides
  | ok s =>
    rw [ran] at hides
    obtain ⟨first,second⟩ := Prod.mk.inj (Option.some.inj hides)
    exact ⟨_,_,.applied .start roomy ran,rfl,first,second⟩

theorem falling_operations {tracked : Tracked} {s : Store Key} {seen : Observed} (sound : Sound tracked s seen)
    (a : AccountId) : (operations_of tracked seen a).Pairwise (· > ·) := by
  rw [operations_of]
  split
  · exact List.pairwise_map.mpr (sound.falling.filter _)
  · exact .nil

/-- An operation of an account was applied, and has the account to do with it. -/
theorem Stored.applied {tracked : Tracked} {s : Store Key} {seen : Observed} (stored : Stored tracked s seen)
    {a : AccountId} {id : Nat} (member : id ∈ operations_of tracked seen a) :
    ∃ L o, s.operations.find? id = some o ∧ (id,involved L o) ∈ seen ∧ a ∈ involved L o := by
  rw [operations_of] at member
  split at member
  case isTrue =>
    obtain ⟨⟨id,accounts⟩,inside,rfl⟩ := List.mem_map.mp member
    obtain ⟨applied,among⟩ := List.mem_filter.mp inside
    obtain ⟨L,o,found,rfl⟩ := stored.told _ applied
    exact ⟨L,o,found,applied,by simpa using among⟩
  case isFalse => cases member

/-- The ids on a page: so many of those the api can come to, above `stop` and up to `start`. -/
def page (tracked : Tracked) (n : Node Key) (a : AccountId) (stop limit start : Nat) : List Nat :=
  ((visible tracked n a).filter fun id => stop < id && (start = 0 || id ≤ start)).take limit

section
variable {tracked : Tracked} {n : Node Key} {below : List (Node Key)}

theorem told_visible (run : Run tracked (n :: below)) (a : AccountId) :
    ∀ id ∈ visible tracked n a, (n.store.operations.find? id).isSome := by
  intro id member
  obtain ⟨L,o,found,-⟩ := (run_stored run n List.mem_cons_self).applied (List.mem_filter.mp member).1
  exact Option.isSome_iff_exists.mpr ⟨o,found⟩

theorem get_account_history_eq (run : Run tracked (n :: below)) (L : Ledger) (a : AccountId) (stop limit start : Nat) :
    get_account_history L n.store a stop limit start =
      if ¬ limit ≤ 100 then .error .assertion
      else if ¬ L.known a then .error .unknown_object
      else .ok (entries n.store (page tracked n a stop limit start)) := by
  have sound := run.sound n List.mem_cons_self
  have stored := run_stored run n List.mem_cons_self
  have falling := falling_operations sound a
  have filed := stored.filed a
  have chained := filed.chained
  have told : ∀ id ∈ operations_of tracked n.seen a, (n.store.operations.find? id).isSome := by
    intro id member
    obtain ⟨L,o,found,-⟩ := stored.applied member
    exact Option.isSome_iff_exists.mpr ⟨o,found⟩
  unfold get_account_history
  by_cases few : limit ≤ 100
  swap
  · rw [if_pos few,if_pos few]
    rfl
  rw [if_neg (not_not_intro few),if_neg (not_not_intro few)]
  by_cases known : L.known a
  swap
  · rw [if_pos known,if_pos known]
    rfl
  rw [if_neg (not_not_intro known),if_neg (not_not_intro known)]
  by_cases none : (n.store.stats a).most_recent_op = 0
  · rw [none] at chained
    simp [none,page,visible,nothing_shown chained,entries,pure,Except.pure]
  rw [if_neg none]
  cases split : operations_of tracked n.seen a with
  | nil =>
    rw [split] at chained
    exact absurd chained none
  | cons latest rest =>
    rw [split] at chained falling told filed
    obtain ⟨node,found,account,refers,-⟩ := id chained
    have inside := (n.store.histories.below _ _ found).le
    have empty : ([] : List (Entry Key)).length ≤ limit := Nat.zero_le _
    have collected := collect_eq stop limit (if start = 0 then node.operation_id else start) filed
      (falling.imp Nat.ne_of_gt) chained falling told found (Nat.pos_of_ne_zero none) inside empty
    rw [node_at,found]
    refine collected.trans ?_
    have same : ∀ id ∈ (latest :: rest).filter (fun id => !hidden n.store a id),
        within stop (if start = 0 then node.operation_id else start) id = (stop < id && (start = 0 || id ≤ start)) := by
      intro id member
      have least : id ≤ latest := by
        rcases List.mem_cons.mp (List.mem_filter.mp member).1 with rfl | inside
        · exact le_refl _
        · exact ((List.pairwise_cons.mp falling).1 id inside).le
      by_cases newest : start = 0
      · simp [within,newest,refers,least]
      · simp [within,newest]
    rw [page,visible,split,List.filter_congr same]
    rfl

/-- A page of the history of an account, in every run: the operations that the standing blocks applied and that
    involve the account, above `stop` and up to `start`, the last one first and as many as there is room for. Of
    all operations only the one behind the object 0 of the plugin is missing, and only for the account of that object. -/
theorem account_history_page (run : Run tracked (n :: below)) (L : Ledger) (a : AccountId) (stop limit start : Nat) :
    get_account_history L n.store a stop limit start =
      (if ¬ limit ≤ 100 then .error .assertion
      else if ¬ L.known a then .error .unknown_object
      else .ok (entries n.store (page tracked n a stop limit start))) ∧
    (entries n.store (page tracked n a stop limit start)).map Prod.fst = page tracked n a stop limit start ∧
    (∀ o ∈ entries n.store (page tracked n a stop limit start),
      ∃ L', (o.1,involved L' o.2) ∈ n.seen ∧ a ∈ involved L' o.2) ∧
    ∀ id ∈ operations_of tracked n.seen a, id ∉ visible tracked n a →
      ∃ e, n.store.histories.find? 0 = some e ∧ e.account = a ∧ e.operation_id = id := by
  have inside : ∀ id ∈ page tracked n a stop limit start, id ∈ visible tracked n a :=
    fun id member => (List.mem_filter.mp (List.mem_of_mem_take member)).1
  refine ⟨get_account_history_eq run L a stop limit start,?_,?_,?_⟩
  · exact entries_map fun id member => told_visible run a id (inside id member)
  · intro o member
    obtain ⟨id,among,here⟩ := List.mem_filterMap.mp member
    obtain ⟨op,found,rfl⟩ := Option.map_eq_some_iff.mp here
    obtain ⟨L',op',found',applied,involves⟩ :=
      (run_stored run n List.mem_cons_self).applied (List.mem_filter.mp (inside id among)).1
    cases found.symm.trans found'
    exact ⟨L',applied,involves⟩
  · intro id member unseen
    have behind : hidden n.store a id = true := by
      by_contra shown
      exact unseen (List.mem_filter.mpr ⟨member,by simpa using shown⟩)
    cases first : n.store.histories.find? 0 with
    | none => simp [hidden,first] at behind
    | some e => exact ⟨e,rfl,by simpa [hidden,first] using behind⟩

end

/-- The second operation is the first one that is entered, and no page of account 4 has it. -/
theorem account_history_page_hides : ∃ n : Node Nat, operations_of track_all n.seen 4 = [1] ∧
    visible track_all n 4 = [] ∧ visible track_all n 5 = [1] ∧ ∀ (L : Ledger) (a : AccountId) (stop limit start : Nat),
      get_account_history L n.store a stop limit start =
        (if ¬ limit ≤ 100 then .error .assertion
        else if ¬ L.known a then .error .unknown_object
        else .ok (entries n.store (page track_all n a stop limit start))) ∧
      (entries n.store (page track_all n a stop limit start)).map Prod.fst = page track_all n a stop limit start ∧
      (∀ o ∈ entries n.store (page track_all n a stop limit start),
        ∃ L', (o.1,involved L' o.2) ∈ n.seen ∧ a ∈ involved L' o.2) ∧
      ∀ id ∈ operations_of track_all n.seen a, id ∉ visible track_all n a →
        ∃ e, n.store.histories.find? 0 = some e ∧ e.account = a ∧ e.operation_id = id := by
  obtain ⟨n,below,run,seen,hides,shows⟩ := run_after_failure
  have four : operations_of track_all n.seen 4 = [1] := by
    rw [seen]
    rfl
  have five : operations_of track_all n.seen 5 = [1] := by
    rw [seen]
    rfl
  refine ⟨n,four,?_,?_,fun L a stop limit start => account_history_page run L a stop limit start⟩
  · rw [visible,four,List.filter_cons_of_neg (by simp [hides]),List.filter_nil]
  · rw [visible,five,List.filter_cons_of_pos (by simp [shows]),List.filter_nil]

/-! ### What a search finds -/

/-- The results among some operations, before which others have been met. -/
def matching (reading : Nat → Reading) (q : Query) (met : Nat) (os : List (Entry Key)) : List (BalanceChange Key) :=
  (os.zipIdx met).filterMap fun o =>
    if q.passes (reading o.1.1) o.1.2.op && q.start_offset ≤ o.2 then some ⟨o.1,reading o.1.1⟩ else none

theorem matching_append (reading : Nat → Reading) (q : Query) (met : Nat) (os os' : List (Entry Key)) :
    matching reading q met (os ++ os') = matching reading q met os ++ matching reading q (met + os.length) os' := by
  rw [matching,List.zipIdx_append,List.filterMap_append]
  rfl

theorem sift_eq (reading : Nat → Reading) (q : Query) {limit : Nat} (os : List (Entry Key)) (met : Nat)
    {result : List (BalanceChange Key)} (short : result.length < limit) :
    (sift reading q limit os met result).2 = (result ++ matching reading q met os).take limit ∧
    ((sift reading q limit os met result).2.length < limit → (sift reading q limit os met result).1 = met + os.length) := by
  induction os generalizing met result with
  | nil => simp [sift,matching,List.take_of_length_le short.le]
  | cons o rest ih =>
    obtain ⟨pushed,found⟩ : ∃ pushed, pushed =
      if q.passes (reading o.1) o.2.op && q.start_offset ≤ met then [(⟨o,reading o.1⟩ : BalanceChange Key)] else [] := ⟨_,rfl⟩
    have first : matching reading q met (o :: rest) = pushed ++ matching reading q (met + 1) rest := by
      rw [matching,List.zipIdx_cons,List.filterMap_cons,found]
      by_cases here : (q.passes (reading o.1) o.2.op && q.start_offset ≤ met) = true
      · simp [here,matching]
      · simp [here,matching]
    have further : met + (o :: rest).length = met + 1 + rest.length := by
      rw [List.length_cons]
      omega
    rw [first,further,← List.append_assoc]
    unfold sift
    by_cases passes : q.passes (reading o.1) o.2.op = true
    · have result' : (if q.start_offset ≤ met then result ++ [⟨o,reading o.1⟩] else result) = result ++ pushed := by
        rw [found,passes]
        by_cases late : q.start_offset ≤ met <;> simp [late]
      rw [if_pos passes]
      simp only [result']
      by_cases full : limit ≤ (result ++ pushed).length
      · have few : pushed.length ≤ 1 := by
          rw [found]
          split <;> simp
        have exact : (result ++ pushed).length = limit := by
          rw [List.length_append] at full ⊢
          omega
        rw [if_pos full]
        exact ⟨(List.take_left' exact).symm,fun less => absurd less (not_lt.mpr full)⟩
      · rw [if_neg full]
        exact ih (met + 1) (not_le.mp full)
    · have none : pushed = [] := by simp [found,passes]
      rw [if_neg passes,none,List.append_nil]
      exact ih (met + 1) short

/-- What stands behind a page of falling ids is below the last id on it. -/
theorem drop_eq_filter {ids init : List Nat} {k back : Nat} (falling : ids.Pairwise (· > ·))
    (last : ids.take k = init ++ [back]) : ids.drop k = ids.filter (· < back) := by
  have split : ids = init ++ (back :: ids.drop k) := by
    rw [← List.singleton_append,← List.append_assoc,← last,List.take_append_drop]
  rw [split] at falling
  obtain ⟨-,falling',above⟩ := List.pairwise_append.mp falling
  have none_above : ∀ id ∈ init, ¬ decide (id < back) = true := by
    intro id member
    have greater : id > back := above id member back List.mem_cons_self
    simpa using greater.le
  have all_below : ∀ id ∈ ids.drop k, decide (id < back) = true :=
    fun id member => by simpa using (List.pairwise_cons.mp falling').1 id member
  conv => rhs; rw [split]
  rw [List.filter_append,List.filter_eq_nil_iff.mpr none_above,List.filter_cons_of_neg (by simp),
    List.filter_eq_self.mpr all_below,List.nil_append]

section
variable {tracked : Tracked} {n : Node Key} {below : List (Node Key)}

/-- The ids that a search still has before it. -/
def ahead (tracked : Tracked) (n : Node Key) (a : AccountId) (start : Nat) : List Nat :=
  (visible tracked n a).filter fun id => 0 < id && (start = 0 || id ≤ start)

theorem search_eq (run : Run tracked (n :: below)) {L : Ledger} {a : AccountId} (known : L.known a)
    (reading : Nat → Reading) (q : Query) {limit rounds start met : Nat} {result : List (BalanceChange Key)}
    (enough : ∀ id ∈ ahead tracked n a start, id < rounds) (positive : 0 < rounds) (short : result.length < limit) :
    search L n.store a reading q limit rounds start met result =
      .ok ((result ++ matching reading q met (entries n.store (ahead tracked n a start))).take limit) := by
  induction rounds generalizing start met result with
  | zero => exact absurd positive (lt_irrefl _)
  | succ rounds ih =>
    have told : ∀ id ∈ ahead tracked n a start, (n.store.operations.find? id).isSome :=
      fun id member => told_visible run a id (List.mem_filter.mp member).1
    have falling : (ahead tracked n a start).Pairwise (· > ·) :=
      ((falling_operations (run.sound n List.mem_cons_self) a).filter _).filter _
    have current : get_account_history L n.store a 0 100 start =
        .ok (entries n.store ((ahead tracked n a start).take 100)) := by
      rw [get_account_history_eq run]
      simp [known,page,ahead]
    unfold search
    rw [current]
    rcases List.eq_nil_or_concat ((ahead tracked n a start).take 100) with none | ⟨init,back,last⟩
    · have nothing : ahead tracked n a start = [] := by simpa using none
      simp [nothing,entries,matching,List.take_of_length_le short.le,bind,Except.bind,pure,Except.pure]
    -- The page ends with `back`, and what is behind it is still ahead.
    rw [List.concat_eq_append] at last
    have member : back ∈ ahead tracked n a start := by
      refine List.mem_of_mem_take (i := 100) ?_
      rw [last]
      exact List.mem_append_right _ (List.mem_singleton_self _)
    obtain ⟨o,operation⟩ := Option.isSome_iff_exists.mp (told back member)
    obtain ⟨above,upto⟩ : 0 < back ∧ (start = 0 ∨ back ≤ start) := by
      have passed := (List.mem_filter.mp member).2
      simpa only [Bool.and_eq_true,Bool.or_eq_true,decide_eq_true_eq] using passed
    have bottom : (entries n.store ((ahead tracked n a start).take 100)).getLast? = some (back,o) := by
      rw [last,entries,List.filterMap_append]
      simp [operation]
    have behind := drop_eq_filter falling last
    have whole : entries n.store (ahead tracked n a start) = entries n.store ((ahead tracked n a start).take 100) ++
        entries n.store ((ahead tracked n a start).drop 100) := by
      rw [entries,entries,entries,← List.filterMap_append,List.take_append_drop]
    obtain ⟨sifted,counted⟩ := sift_eq reading q (entries n.store ((ahead tracked n a start).take 100)) met short
    simp only [bind,Except.bind,bottom,Option.elim_some]
    rw [whole,matching_append,← List.append_assoc]
    by_cases done : back - 1 = 0
    · have nothing : (ahead tracked n a start).drop 100 = [] := by
        rw [behind]
        refine List.filter_eq_nil_iff.mpr fun id inside => ?_
        have passed := (List.mem_filter.mp inside).2
        simp only [Bool.and_eq_true,decide_eq_true_eq] at passed ⊢
        omega
      rw [if_pos done,sifted,nothing]
      simp [entries,matching,pure,Except.pure]
    rw [if_neg done]
    by_cases more : (sift reading q limit (entries n.store ((ahead tracked n a start).take 100)) met result).2.length < limit
    · have next : ahead tracked n a (back - 1) = (ahead tracked n a start).drop 100 := by
        rw [behind,ahead,ahead,List.filter_filter]
        refine List.filter_congr fun id _ => Bool.eq_iff_iff.mpr ?_
        simp only [Bool.and_eq_true,Bool.or_eq_true,decide_eq_true_eq]
        omega
      have lower : ∀ id ∈ ahead tracked n a (back - 1), id < rounds := by
        intro id inside
        have passed := (List.mem_filter.mp inside).2
        have bound := enough back member
        simp only [Bool.and_eq_true,Bool.or_eq_true,decide_eq_true_eq] at passed
        omega
      have left : 0 < rounds := by
        have bound := enough back member
        omega
      have all : (result ++ matching reading q met (entries n.store ((ahead tracked n a start).take 100))).length ≤ limit := by
        rw [sifted,List.length_take] at more
        omega
      rw [if_pos more,ih lower left more,next,counted more,sifted,List.take_of_length_le all]
    · rw [if_neg more,sifted]
      have full : limit ≤ (result ++ matching reading q met (entries n.store ((ahead tracked n a start).take 100))).length := by
        rw [sifted,List.length_take] at more
        omega
      rw [List.take_append_of_le_length full]
      rfl

/-- A search, in every run: it goes over the whole history of an account that the api can come to, page after page, and
    returns the first results that pass the filters, from the offset on, where every operation counts for the
    offset whether it passes or not. -/
theorem search_whole_history (run : Run tracked (n :: below)) (L : Ledger) (a : AccountId) (reading : Nat → Reading)
    (q : Query) (limit : Int) : search_account_balance_history L n.store a reading q limit =
      if ¬ 0 < limit then .error .assertion
      else if ¬ L.known a then .error .unknown_object
      else .ok ((matching reading q 0 (entries n.store ((visible tracked n a).filter (0 < ·)))).take limit.toNat) := by
  unfold search_account_balance_history
  by_cases positive : 0 < limit
  swap
  · rw [if_pos positive,if_pos positive]
    rfl
  rw [if_neg (not_not_intro positive),if_neg (not_not_intro positive)]
  by_cases known : L.known a
  swap
  · unfold search
    rw [get_account_history_eq run,if_pos known]
    simp [known,bind,Except.bind]
  rw [if_neg (not_not_intro known)]
  have before : ∀ id ∈ ahead tracked n a 0, id < n.store.operations.next + 1 := by
    intro id member
    obtain ⟨o,found⟩ := Option.isSome_iff_exists.mp (told_visible run a id (List.mem_filter.mp member).1)
    exact Nat.lt_succ_of_lt (n.store.operations.below _ _ found)
  have short : ([] : List (BalanceChange Key)).length < limit.toNat := by
    rw [List.length_nil]
    omega
  rw [search_eq run known reading q before (Nat.succ_pos _) short]
  simp [ahead]

end

/-- So a search for account 4 finds nothing, whatever the operation did. -/
theorem search_whole_history_misses : ∃ n : Node Nat, operations_of track_all n.seen 4 = [1] ∧
    visible track_all n 4 = [] ∧ ∀ (L : Ledger) (a : AccountId) (reading : Nat → Reading) (q : Query) (limit : Int),
      search_account_balance_history L n.store a reading q limit =
        if ¬ 0 < limit then .error .assertion
        else if ¬ L.known a then .error .unknown_object
        else .ok ((matching reading q 0 (entries n.store ((visible track_all n a).filter (0 < ·)))).take limit.toNat) := by
  obtain ⟨n,below,run,seen,hides,-⟩ := run_after_failure
  have four : operations_of track_all n.seen 4 = [1] := by
    rw [seen]
    rfl
  refine ⟨n,four,?_,fun L a reading q limit => search_whole_history run L a reading q limit⟩
  rw [visible,four,List.filter_cons_of_neg (by simp [hides]),List.filter_nil]

/-! ### Relative pages -/

section
variable {s : Store Key} {a : AccountId} {ops : List Nat}

theorem collect_back_prefix {rows : List AccountTransactionHistory} {itr_stop limit itr : Nat}
    {result page : List (Entry Key)} (ran : collect_back s rows itr_stop limit itr result = .ok page) : result <+: page := by
  induction itr generalizing result with
  | zero =>
    unfold collect_back at ran
    split at ran
    · cases row : rows[0]? with
      | none => simp [row,bind,Except.bind,throw,throwThe,MonadExceptOf.throw] at ran
      | some e =>
        cases operation : operation_at s e.operation_id <;>
          simp [row,operation,bind,Except.bind,pure,Except.pure,throw,throwThe,MonadExceptOf.throw] at ran
    · cases ran
      exact List.prefix_refl _
  | succ before ih =>
    unfold collect_back at ran
    split at ran
    · cases row : rows[before + 1]? with
      | none => simp [row,bind,Except.bind,throw,throwThe,MonadExceptOf.throw] at ran
      | some e =>
        cases operation : operation_at s e.operation_id with
        | error e => simp [row,operation,bind,Except.bind,pure,Except.pure] at ran
        | ok entry =>
          simp only [row,operation,bind,Except.bind,pure,Except.pure,Option.elim_some] at ran
          exact (List.prefix_append _ _).trans (ih ran)
    · cases ran
      exact List.prefix_refl _

/-- From an iterator down to the one where the loop stops. -/
theorem collect_back_eq {rows : List AccountTransactionHistory} {itr_stop limit k : Nat} {result : List (Entry Key)}
    (inside : itr_stop + k < rows.length) (told : ∀ e ∈ (rows.drop (itr_stop + 1)).take k, (s.operations.find? e.operation_id).isSome)
    (short : result.length ≤ limit) : collect_back s rows itr_stop limit (itr_stop + k) result = .ok (result ++
      entries s (((((rows.drop (itr_stop + 1)).take k).map (·.operation_id)).reverse).take (limit - result.length))) := by
  induction k generalizing result with
  | zero =>
    unfold collect_back
    simp [entries,pure,Except.pure]
  | succ k ih =>
    obtain ⟨e,row⟩ : ∃ e, rows[itr_stop + k + 1]? = some e := ⟨_,List.getElem?_eq_getElem inside⟩
    have segment : (rows.drop (itr_stop + 1)).take (k + 1) = (rows.drop (itr_stop + 1)).take k ++ [e] := by
      have here : (rows.drop (itr_stop + 1))[k]? = some e := by rw [List.getElem?_drop,← row,Nat.add_right_comm]
      rw [List.take_add_one,here]
      rfl
    rw [segment] at told
    obtain ⟨o,operation⟩ := Option.isSome_iff_exists.mp (told e (List.mem_append_right _ (List.mem_singleton_self e)))
    have told' : ∀ e ∈ (rows.drop (itr_stop + 1)).take k, (s.operations.find? e.operation_id).isSome :=
      fun e member => told e (List.mem_append_left _ member)
    have there : operation_at s e.operation_id = .ok (e.operation_id,o) := by simp [operation_at,operation,pure,Except.pure]
    have pushed (ids : List Nat) : entries s (e.operation_id :: ids) = (e.operation_id,o) :: entries s ids := by
      simp [entries,operation]
    rw [segment,List.map_append,List.reverse_append]
    show collect_back s rows itr_stop limit (itr_stop + k + 1) result = _
    unfold collect_back
    by_cases full : result.length < limit
    · have longer : (result ++ [(e.operation_id,o)]).length ≤ limit := by
        rw [List.length_append,List.length_singleton]
        exact full
      obtain ⟨left,room⟩ : ∃ left, limit - result.length = left + 1 := ⟨limit - result.length - 1,by omega⟩
      have behind : limit - (result ++ [(e.operation_id,o)]).length = left := by
        rw [List.length_append,List.length_singleton]
        omega
      have rest := ih (Nat.lt_of_succ_lt inside) told' longer
      rw [behind,List.append_assoc,List.singleton_append,← pushed,← List.take_succ_cons] at rest
      rw [if_pos ⟨by omega,full⟩,row,room]
      simp only [Option.elim_some,bind,Except.bind,pure,Except.pure,there]
      exact rest
    · rw [if_neg (fun go => full go.2),Nat.sub_eq_zero_of_le (not_lt.mp full)]
      simp [entries,pure,Except.pure]

end

theorem dropWhile_split {α : Type} {p : α → Bool} {l₁ l₂ : List α} (yes : ∀ x ∈ l₁, p x = true)
    (no : ∀ x ∈ l₂, p x = false) : (l₁ ++ l₂).dropWhile p = l₂ := by
  rw [List.dropWhile_append_of_pos yes]
  cases l₂ with
  | nil => rfl
  | cons x rest => exact List.dropWhile_cons_of_neg (by simp [no x List.mem_cons_self])

/-- The index has the objects of an account together, in the order they were entered. -/
theorem by_seq_split {s : Store Key} {a : AccountId} {ops : List Nat} (filed : Filed s a ops) :
    ∃ before after, by_seq s = before ++ ((rows_of s a).map Prod.snd ++ after) ∧ (∀ e ∈ before, e.account < a) ∧
      ∀ e ∈ after, a < e.account := by
  have sorted : Ordered.Sorted seq_key (by_seq s) := Ordered.sorted_link_all _
  have by_account : Ordered.Sorted AccountTransactionHistory.account (by_seq s) := by
    refine sorted.imp fun {e e'} less => ?_
    rcases Prod.Lex.le_iff.mp less with lower | ⟨same,-⟩
    · exact lower.le
    · exact same.le
  obtain ⟨before,range,after,split,-,-,low,equal,high⟩ := Ordered.equal_range AccountTransactionHistory.account by_account a
  refine ⟨before,after,?_,low,high⟩
  -- What stands there is the objects of the account, in order; and so they were entered.
  have own : (by_seq s).filter (fun e => e.account = a) = range := by
    have less : ∀ e ∈ before, ¬ decide (e.account = a) = true := fun e member => by simpa using (low e member).ne
    have greater : ∀ e ∈ after, ¬ decide (e.account = a) = true := fun e member => by simpa using (high e member).ne'
    have same : ∀ e ∈ range, decide (e.account = a) = true := fun e member => by simpa using equal e member
    rw [split,List.filter_append,List.filter_append,List.filter_eq_nil_iff.mpr less,List.filter_eq_nil_iff.mpr greater,
      List.filter_eq_self.mpr same,List.nil_append,List.append_nil]
  have mine : ((s.histories.table.rows.map Prod.snd).filter fun e => e.account = a) = (rows_of s a).map Prod.snd := by
    rw [rows_of,List.filter_map]
    rfl
  have perm : range.Perm ((rows_of s a).map Prod.snd) := by
    rw [← own,← mine]
    exact (Ordered.link_all_perm _).filter _
  have sequences : ((rows_of s a).map Prod.snd).map (·.sequence.toNat) = (List.range ops.length).map (· + 1) := by
    rw [List.map_map]
    exact filed.numbered
  have rising : ((rows_of s a).map Prod.snd).Pairwise fun e e' => e.sequence.toNat < e'.sequence.toNat := by
    refine List.pairwise_map.mp ?_
    rw [sequences]
    exact List.pairwise_map.mpr (List.pairwise_lt_range.imp Nat.succ_lt_succ)
  have owned : ∀ e ∈ (rows_of s a).map Prod.snd, e.account = a := fun e member => equal e (perm.mem_iff.mpr member)
  have ordered : ((rows_of s a).map Prod.snd).Pairwise fun e e' => seq_key e ≤ seq_key e' := by
    refine rising.imp_of_mem fun {e e'} member member' less => Prod.Lex.le_iff.mpr (.inr ⟨?_,less.le⟩)
    exact (owned e member).trans (owned e' member').symm
  have apart : (((rows_of s a).map Prod.snd).map (·.sequence.toNat)).Nodup :=
    List.pairwise_map.mpr (rising.imp Nat.ne_of_lt)
  have sorted' : range.Pairwise fun e e' => seq_key e ≤ seq_key e' := by
    rw [← own]
    exact sorted.filter _
  rw [split,List.Perm.eq_of_pairwise (fun e e' member member' le ge => ?_) sorted' ordered perm]
  have key : seq_key e = seq_key e' := le_antisymm le ge
  exact List.inj_on_of_nodup_map apart (perm.mem_iff.mp member) member' (congrArg (fun k => (ofLex k).2) key)

section
variable {s : Store Key} {a : AccountId} {ops : List Nat} {mine before after : List AccountTransactionHistory}

theorem numbered_take (numbered : mine.map (·.sequence.toNat) = (List.range ops.length).map (· + 1)) {j : Nat}
    {e : AccountTransactionHistory} (member : e ∈ mine.take j) : e.sequence.toNat ≤ j := by
  have there : e.sequence.toNat ∈ (mine.take j).map (·.sequence.toNat) := List.mem_map_of_mem member
  rw [List.map_take,numbered,← List.map_take,List.take_range] at there
  obtain ⟨i,inside,same⟩ := List.mem_map.mp there
  have below := List.mem_range.mp inside
  omega

theorem numbered_drop (numbered : mine.map (·.sequence.toNat) = (List.range ops.length).map (· + 1)) {j : Nat}
    {e : AccountTransactionHistory} (member : e ∈ mine.drop j) : j < e.sequence.toNat := by
  obtain ⟨i,inside,rfl⟩ := List.mem_iff_getElem.mp member
  have whole : j + i < mine.length := by
    rw [List.length_drop] at inside
    omega
  have number : (mine.map (·.sequence.toNat))[j + i]? = some (j + i + 1) := by
    have same : mine.length = ops.length := by simpa using congrArg List.length numbered
    rw [numbered,List.getElem?_map,List.getElem?_range (same ▸ whole)]
    rfl
  rw [List.getElem_drop]
  rw [List.getElem?_map,List.getElem?_eq_getElem whole] at number
  have value : mine[j + i].sequence.toNat = j + i + 1 := Option.some.inj number
  omega

theorem upper_bound_eq (numbered : mine.map (·.sequence.toNat) = (List.range ops.length).map (· + 1))
    (owned : ∀ e ∈ mine, e.account = a) (low : ∀ e ∈ before, e.account < a) (high : ∀ e ∈ after, a < e.account) (j : Nat) :
    Ordered.upper_bound seq_key (toLex (a,j)) (before ++ (mine ++ after)) = mine.drop j ++ after := by
  have split : before ++ (mine ++ after) = (before ++ mine.take j) ++ (mine.drop j ++ after) := by
    rw [List.append_assoc,← List.append_assoc (mine.take j),List.take_append_drop]
  rw [split]
  refine dropWhile_split (fun e member => decide_eq_true (Prod.Lex.le_iff.mpr ?_)) fun e member =>
    decide_eq_false (not_le.mpr (Prod.Lex.lt_iff.mpr ?_))
  · rcases List.mem_append.mp member with lower | own
    · exact .inl (low e lower)
    · exact .inr ⟨owned e (List.mem_of_mem_take own),numbered_take numbered own⟩
  · rcases List.mem_append.mp member with own | higher
    · exact .inr ⟨(owned e (List.mem_of_mem_drop own)).symm,numbered_drop numbered own⟩
    · exact .inl (high e higher)

/-- Numbers begin with one, so nothing of the account is below the numbers 0 and 1. -/
theorem lower_bound_eq (numbered : mine.map (·.sequence.toNat) = (List.range ops.length).map (· + 1))
    (owned : ∀ e ∈ mine, e.account = a) (low : ∀ e ∈ before, e.account < a) (high : ∀ e ∈ after, a < e.account) (j : Nat) :
    Ordered.lower_bound seq_key (toLex (a,j)) (before ++ (mine ++ after)) = mine.drop (max 1 j - 1) ++ after := by
  have split : before ++ (mine ++ after) = (before ++ mine.take (max 1 j - 1)) ++ (mine.drop (max 1 j - 1) ++ after) := by
    rw [List.append_assoc,← List.append_assoc (mine.take _),List.take_append_drop]
  rw [split]
  refine dropWhile_split (fun e member => decide_eq_true (Prod.Lex.lt_iff.mpr ?_)) fun e member =>
    decide_eq_false (not_lt.mpr (Prod.Lex.le_iff.mpr ?_))
  · rcases List.mem_append.mp member with lower | own
    · exact .inl (low e lower)
    · have small := numbered_take numbered own
      have some_taken : 0 < max 1 j - 1 := by
        by_contra none
        rw [Nat.eq_zero_of_not_pos none,List.take_zero] at own
        cases own
      refine .inr ⟨owned e (List.mem_of_mem_take own),?_⟩
      show e.sequence.toNat < j
      omega
  · rcases List.mem_append.mp member with own | higher
    · have large := numbered_drop numbered own
      refine .inr ⟨(owned e (List.mem_of_mem_drop own)).symm,?_⟩
      show j ≤ e.sequence.toNat
      omega
    · exact .inl (high e higher)

end

/-- The number of the operation that a relative page begins with. -/
def first_number (total start : Nat) : Nat := if start = 0 then total else min total start

/-- The objects of an account in `by_seq`, between those of other accounts. -/
structure Numbered (s : Store Key) (a : AccountId) (ops : List Nat) (before mine after : List AccountTransactionHistory) :
    Prop where
  split : by_seq s = before ++ (mine ++ after)
  sequences : mine.map (·.sequence.toNat) = (List.range ops.length).map (· + 1)
  refers : mine.map (·.operation_id) = ops.reverse
  owned : ∀ e ∈ mine, e.account = a
  low : ∀ e ∈ before, e.account < a
  high : ∀ e ∈ after, a < e.account

theorem numbered_of_filed {s : Store Key} {a : AccountId} {ops : List Nat} (filed : Filed s a ops) :
    ∃ before mine after, Numbered s a ops before mine after := by
  obtain ⟨before,after,split,low,high⟩ := by_seq_split filed
  refine ⟨before,_,after,split,?_,?_,?_,low,high⟩
  · rw [List.map_map]
    exact filed.numbered
  · rw [List.map_map]
    exact filed.entered
  · intro e member
    obtain ⟨row,inside,rfl⟩ := List.mem_map.mp member
    simpa using (List.mem_filter.mp inside).2

section
variable {s : Store Key} {a : AccountId} {ops : List Nat} {before mine after : List AccountTransactionHistory}

theorem Numbered.length (numbered : Numbered s a ops before mine after) : mine.length = ops.length := by
  simpa using congrArg List.length numbered.sequences

/-- Where a relative page begins. -/
theorem Numbered.begins (numbered : Numbered s a ops before mine after) {j : Nat} (few : j ≤ ops.length) :
    (by_seq s).length - (Ordered.upper_bound seq_key (toLex (a,j)) (by_seq s)).length = before.length + j := by
  rw [numbered.split,upper_bound_eq numbered.sequences numbered.owned numbered.low numbered.high]
  have length := numbered.length
  simp only [List.length_append,List.length_drop]
  omega

/-- Where it ends. -/
theorem Numbered.ends (numbered : Numbered s a ops before mine after) {j : Nat} (few : max 1 j - 1 ≤ ops.length) :
    (by_seq s).length - (Ordered.lower_bound seq_key (toLex (a,j)) (by_seq s)).length = before.length + (max 1 j - 1) := by
  rw [numbered.split,lower_bound_eq numbered.sequences numbered.owned numbered.low numbered.high]
  have length := numbered.length
  simp only [List.length_append,List.length_drop]
  omega

/-- The operations with the numbers between, from the highest down. -/
theorem Numbered.between (numbered : Numbered s a ops before mine after) {last k : Nat} (few : last + k ≤ ops.length) :
    ((by_seq s).drop (before.length + last)).take k = (mine.drop last).take k ∧
    (((mine.drop last).take k).map (·.operation_id)).reverse = (ops.take (ops.length - last)).drop (ops.length - (last + k)) := by
  have length := numbered.length
  constructor
  · rw [numbered.split,← List.drop_drop,List.drop_left,List.drop_append_of_le_length (by omega)]
    refine List.take_append_of_le_length ?_
    rw [List.length_drop]
    omega
  · rw [List.map_take,List.map_drop,numbered.refers,List.drop_reverse,List.take_reverse,List.reverse_reverse,
      List.length_take]
    refine congrArg (List.drop · _) ?_
    omega

end

section
variable {tracked : Tracked} {n : Node Key} {below : List (Node Key)}

/-- A relative page, in every run. The operations of an account are numbered from one up. Where `stop` is not above the
    first operation of the page, the page goes from there down, but not to the number `stop`, and never to the number
    one. For an account without operations, it begins with one of another account, if it returns. -/
theorem relative_history_page (run : Run tracked (n :: below)) (L : Ledger) (a : AccountId) (stop limit start : Nat)
    (few : limit ≤ 100) (known : L.known a) :
    let ops := operations_of tracked n.seen a
    (max 1 stop ≤ first_number ops.length start → get_relative_account_history L n.store a stop limit start =
      .ok (entries n.store (((ops.take (ops.length - max 1 stop)).drop (ops.length - first_number ops.length start)).take
        limit))) ∧
    (ops = [] → 0 < limit → ∀ result, get_relative_account_history L n.store a stop limit start = .ok result →
      ∃ p e o, n.store.histories.find? p = some e ∧ e.account ≠ a ∧ result.head? = some (e.operation_id,o)) := by
  have sound := run.sound n List.mem_cons_self
  have stored := run_stored run n List.mem_cons_self
  obtain ⟨before,mine,after,numbered⟩ := numbered_of_filed (stored.filed a)
  have counted : (n.store.stats a).total_ops.toNat = (operations_of tracked n.seen a).length := (sound.held a).counted
  intro ops
  have few_numbers : first_number ops.length start ≤ ops.length := by
    unfold first_number
    split <;> omega
  have begins : (by_seq n.store).length - (Ordered.upper_bound seq_key
      (toLex (a,if start = 0 then ops.length else min ops.length start)) (by_seq n.store)).length =
        before.length + first_number ops.length start := numbered.begins few_numbers
  unfold get_relative_account_history
  rw [if_neg (not_not_intro few),if_neg (not_not_intro known),counted]
  dsimp only
  rw [begins]
  refine ⟨fun order => ?_,fun none positive result ran => ?_⟩
  · obtain ⟨k,first⟩ := Nat.exists_eq_add_of_le order
    have fits : max 1 stop + k ≤ ops.length := by omega
    obtain ⟨segment,ids⟩ := numbered.between fits
    have length : mine.length = ops.length := numbered.length
    have above : before.length + (max 1 stop - 1) + 1 = before.length + max 1 stop := by omega
    have itr : before.length + first_number ops.length start = before.length + (max 1 stop - 1) + k + 1 := by omega
    have stops : max 1 stop - 1 ≤ ops.length := by omega
    rw [numbered.ends stops,itr]
    show collect_back n.store (by_seq n.store) (before.length + (max 1 stop - 1)) limit
      (before.length + (max 1 stop - 1) + k) [] = _
    have inside : before.length + (max 1 stop - 1) + k < (by_seq n.store).length := by
      rw [numbered.split,List.length_append,List.length_append]
      omega
    have told : ∀ e ∈ ((by_seq n.store).drop (before.length + (max 1 stop - 1) + 1)).take k,
        (n.store.operations.find? e.operation_id).isSome := by
      intro e member
      rw [above,segment] at member
      have refers : e.operation_id ∈ mine.map (·.operation_id) :=
        List.mem_map_of_mem (List.mem_of_mem_drop (List.mem_of_mem_take member))
      rw [numbered.refers,List.mem_reverse] at refers
      obtain ⟨L',o,found,-⟩ := stored.applied refers
      exact Option.isSome_iff_exists.mpr ⟨o,found⟩
    rw [collect_back_eq inside told (Nat.zero_le _),above,segment,ids,first]
    rfl
  · have nothing : ops.length = 0 := by rw [none,List.length_nil]
    have zero : first_number ops.length start = 0 := by omega
    rw [zero,Nat.add_zero] at ran
    have alone : mine = [] := List.eq_nil_of_length_eq_zero (numbered.length.trans nothing)
    have ends : (by_seq n.store).length - (Ordered.lower_bound seq_key (toLex (a,stop)) (by_seq n.store)).length =
        before.length := by
      rw [numbered.split,lower_bound_eq numbered.sequences numbered.owned numbered.low numbered.high,alone]
      simp
    rw [ends] at ran
    cases shape : before.length with
    | zero =>
      rw [shape] at ran
      cases ran
    | succ b =>
      rw [shape] at ran
      obtain ⟨e,row⟩ : ∃ e, before[b]? = some e := ⟨_,List.getElem?_eq_getElem (by omega)⟩
      have first : (by_seq n.store)[b]? = some e := by
        rw [numbered.split,List.getElem?_append_left (by omega),row]
      have member : e ∈ n.store.histories.table.rows.map Prod.snd :=
        (Ordered.link_all_perm _).mem_iff.mp (List.mem_of_getElem? first)
      obtain ⟨⟨p,e⟩,inside,rfl⟩ := List.mem_map.mp member
      have other : e.account ≠ a := (numbered.low e (List.mem_of_getElem? row)).ne
      have collected : collect_back n.store (by_seq n.store) (b + 1) limit b [] = .ok result := ran
      unfold collect_back at collected
      rw [if_pos ⟨by omega,positive⟩,first] at collected
      cases operation : n.store.operations.find? e.operation_id with
      | none => simp [operation_at,operation,bind,Except.bind,pure,Except.pure,throw,throwThe,MonadExceptOf.throw] at collected
      | some o =>
        refine ⟨p,e,o,Table.find?_of_mem inside,other,?_⟩
        simp only [Option.elim_some,bind,Except.bind,pure,Except.pure,operation_at,operation] at collected
        cases b with
        | zero => cases collected
        | succ c =>
          obtain ⟨more,rfl⟩ := collect_back_prefix collected
          rfl

end

/-- The only operation of account 5 has the number one, and is on no relative page. -/
theorem relative_history_page_of_one : ∃ n : Node Nat, operations_of track_all n.seen 5 = [1] ∧
    get_relative_account_history two_accounts n.store 5 0 10 0 = .ok [] := by
  obtain ⟨n,below,run,seen,-⟩ := run_after_failure
  have five : operations_of track_all n.seen 5 = [1] := by
    rw [seen]
    rfl
  have paged := (relative_history_page run two_accounts 5 0 10 0 (by decide) (by decide +kernel)).1
  rw [five] at paged
  exact ⟨n,five,paged (by decide)⟩

end Decent.HistoryApi

import Decent.StoredChain

/-!
What a peer that synchronizes is answered: the ids of the applied chain that follow the
last block of its synopsis which is on this chain.
-/
namespace Decent.Sync
open Decent.ObjectDatabase (Exc)
open Decent.Protocol
open Decent.Database
open Throwing

variable {R O : Type}

/-! ### The answer -/

/-- What stops an answer: an exception of the network, one of the database, or an index outside of a vector. -/
inductive Failure
  | peer_is_on_an_unreachable_fork
  | block_older_than_undo_history
  | exception (e : Exc)
  | out_of_range
deriving DecidableEq, Repr

/-- A question to the database, which leaves it as it is. -/
def ask {α : Type} (question : Exec R O α) (s : Node R O) : Except Failure α :=
  match question.run s with
  | .ok a _ => .ok a
  | .error e _ => .error (.exception e)

/-- `application_impl::is_included_block`. -/
def is_included_block (block_id : BlockId) (s : Node R O) : Except Failure Bool := do
  let block_id_in_preferred_chain ← ask (get_block_id_for_num block_id.num) s
  pure (block_id = block_id_in_preferred_chain)

/-- The loop of `get_block_ids` over block numbers, with the rounds the head leaves it. -/
def collect_ids (limit : Nat) (s : Node R O) : Nat → Nat → List BlockId → Except Failure (List BlockId)
  | 0, _, result => .ok result
  | rounds + 1, num, result =>
    if num ≤ s.objects.head_block_number ∧ result.length < limit then
      if num > 0 then do
        let id ← ask (get_block_id_for_num num) s
        collect_ids limit s rounds (num + 1) (result ++ [id])
      else collect_ids limit s rounds (num + 1) result
    else .ok result

/-- The end of `get_block_ids`: the ids from a number on, and `remaining_item_count`. -/
def collect_from (num limit : Nat) (s : Node R O) : Except Failure (List BlockId × Nat) := do
  let head := s.objects.head_block_number
  let result ← collect_ids limit s (head + 1 - num) num []
  match result.getLast? with
  | some back => pure (result,if back.num < head then head - back.num else 0)
  | none => pure (result,0)

section
variable (digest : Header → Nat)

/-- `database::is_known_block`. -/
def is_known_block (id : BlockId) (s : Node R O) : Bool :=
  (ForkDatabase.find digest s.fork_db id).isSome || BlockDatabase.contains id s.block_db

/-- The loop of `get_block_ids` over the synopsis, last id first. -/
def find_block_in_synopsis (s : Node R O) : List BlockId → Except Failure BlockId
  | [] => .error .peer_is_on_an_unreachable_fork
  | id :: rest =>
    if id = .zero then .ok id
    else if is_known_block digest id s then do
      if ← is_included_block id s then pure id else find_block_in_synopsis s rest
    else find_block_in_synopsis s rest

/-- `application_impl::get_block_ids`. -/
def get_block_ids (blockchain_synopsis : List BlockId) (limit : Nat) (s : Node R O) :
    Except Failure (List BlockId × Nat) := do
  if s.objects.head_block_number = 0 then pure ([],0)
  else
    let last_known_block_id ←
      if blockchain_synopsis = [] ∨ blockchain_synopsis = [.zero] then pure .zero
      else find_block_in_synopsis digest s blockchain_synopsis.reverse
    collect_from last_known_block_id.num limit s

end

/-! ### The chain as ids -/

/-- The ids of a chain, from block 1 on. -/
def ids_of (digest : Header → Nat) (chain : List (Block O)) : List BlockId := chain.reverse.map (Block.id digest)

section
variable {digest : Header → Nat} {chain : List (Block O)}

theorem mem_ids_of {id : BlockId} : id ∈ ids_of digest chain ↔ ∃ b ∈ chain, b.id digest = id := by
  simp [ids_of]

@[simp] theorem length_ids_of : (ids_of digest chain).length = chain.length := by simp [ids_of]

/-- The ids stand at their numbers. -/
theorem ids_of_num (linked : Linked digest chain) {i : Nat} {id : BlockId} (there : (ids_of digest chain)[i]? = some id) :
    id.num = i + 1 := by
  induction chain generalizing i with
  | nil => simp [ids_of] at there
  | cons b rest ih =>
    have shape : ids_of digest (b :: rest) = ids_of digest rest ++ [b.id digest] := by simp [ids_of]
    rw [shape] at there
    by_cases inside : i < (ids_of digest rest).length
    · rw [List.getElem?_append_left inside] at there
      exact ih linked.2 there
    · obtain ⟨within,-⟩ := List.getElem?_eq_some_iff.mp there
      have last : i = (ids_of digest rest).length := by
        simp only [List.length_append,List.length_singleton] at within
        omega
      rw [last,List.getElem?_concat_length] at there
      obtain rfl := Option.some.inj there
      rw [last,length_ids_of]
      show b.previous.num + 1 = _
      rw [linked.1,headId_num digest linked.2]

end

section
variable {E : Env R O} {s : Node R O} (kept : Kept E s)
include kept

theorem head_is_length : s.objects.head_block_number = (ids_of E.digest s.objects.applied).length := by
  rw [length_ids_of,kept.ready.consistent.number]

/-- The block database answers with the ids of the chain. -/
theorem get_block_id_for_num_at {i : Nat} {id : BlockId} (there : (ids_of E.digest s.objects.applied)[i]? = some id) :
    ask (get_block_id_for_num (i + 1)) s = .ok id := by
  obtain ⟨b,member,rfl⟩ := mem_ids_of.mp (List.mem_of_getElem? there)
  have number : b.block_num = i + 1 := ids_of_num kept.ready.consistent.linked there
  have stored := BlockDatabase.fetch_block_id_of_found (kept.files b member)
  rw [number] at stored
  simp [ask,get_block_id_for_num,EStateM.run_bind,stored]

/-- An id the node knows has a number. -/
theorem known_num {id : BlockId} (known : is_known_block E.digest id s = true) : 0 < id.num := by
  refine Nat.pos_of_ne_zero fun zero => ?_
  rcases Bool.or_eq_true _ _ ▸ known with forked | contained
  · obtain ⟨item,found⟩ := Option.isSome_iff_exists.mp forked
    obtain ⟨-,rfl⟩ := ForkDatabase.find_some found
    exact absurd zero (Nat.ne_of_gt (block_num_pos item.data))
  · unfold BlockDatabase.contains at contained
    split at contained
    · cases contained
    · split at contained
      · cases contained
      · next e there =>
        simp only [Bool.and_eq_true,decide_eq_true_eq] at contained
        exact kept.unnumbered id zero e there contained.2 contained.1

theorem applied_known {id : BlockId} (applied : id ∈ ids_of E.digest s.objects.applied) :
    is_known_block E.digest id s = true := by
  obtain ⟨b,member,rfl⟩ := mem_ids_of.mp applied
  obtain ⟨e,there,stored,_,named⟩ := BlockDatabase.fetch_by_number_some (kept.files b member)
  have contained : BlockDatabase.contains (b.id E.digest) s.block_db = true := by
    rw [BlockDatabase.contains,if_neg (id_ne_zero E b),id_num,there]
    simp [stored,named]
  simp [is_known_block,contained]

/-- Up to the head, a numbered id is included exactly when it is on the chain. -/
theorem is_included_block_low {id : BlockId} (numbered : 0 < id.num) (low : id.num ≤ s.objects.head_block_number) :
    is_included_block id s = .ok (id ∈ ids_of E.digest s.objects.applied) := by
  rw [head_is_length kept] at low
  obtain ⟨other,there⟩ : ∃ other, (ids_of E.digest s.objects.applied)[id.num - 1]? = some other :=
    ⟨_,List.getElem?_eq_getElem (by omega)⟩
  have asked := get_block_id_for_num_at kept there
  rw [Nat.sub_add_cancel numbered] at asked
  have same : id = other ↔ id ∈ ids_of E.digest s.objects.applied := by
    constructor
    · rintro rfl
      exact List.mem_of_getElem? there
    · intro member
      obtain ⟨i,isThere⟩ := List.mem_iff_getElem?.mp member
      have place := ids_of_num kept.ready.consistent.linked isThere
      rw [place,Nat.add_sub_cancel,isThere] at there
      exact Option.some.inj there
  simp [is_included_block,asked,bind,Except.bind,pure,Except.pure,same]

/-! ### The loops -/

/-- The scan stops at the last entry that is zero or on the chain. -/
theorem find_block_in_synopsis_run {entries : List BlockId}
    (low : ∀ id ∈ entries, is_known_block E.digest id s = true → id.num ≤ s.objects.head_block_number) :
    find_block_in_synopsis E.digest s entries =
      match entries.find? fun id => id = .zero ∨ id ∈ ids_of E.digest s.objects.applied with
      | some id => .ok id
      | none => .error .peer_is_on_an_unreachable_fork := by
  induction entries with
  | nil => rfl
  | cons id rest ih =>
    have later := ih fun other member => low other (List.mem_cons_of_mem _ member)
    unfold find_block_in_synopsis
    by_cases zero : id = .zero
    · rw [if_pos zero,List.find?_cons_of_pos (by simp [zero])]
    rw [if_neg zero]
    cases known : is_known_block E.digest id s with
    | false =>
      have apart : id ∉ ids_of E.digest s.objects.applied := by
        intro applied
        rw [applied_known kept applied] at known
        cases known
      rw [List.find?_cons_of_neg (by simp [zero,apart])]
      exact later
    | true =>
      rw [if_pos rfl,is_included_block_low kept (known_num kept known) (low id (List.mem_cons_self ..) known)]
      by_cases applied : id ∈ ids_of E.digest s.objects.applied
      · rw [List.find?_cons_of_pos (by simp [applied])]
        simp [applied,bind,Except.bind,pure,Except.pure]
      · rw [List.find?_cons_of_neg (by simp [zero,applied]),← later]
        simp [applied,bind,Except.bind]

/-- The numbers are asked for one after another, up to the head or the limit. -/
theorem collect_ids_run {limit rounds i : Nat} {result : List BlockId} (enough : s.objects.head_block_number ≤ i + rounds) :
    collect_ids limit s rounds (i + 1) result =
      .ok (result ++ ((ids_of E.digest s.objects.applied).drop i).take (limit - result.length)) := by
  have head := head_is_length kept
  induction rounds generalizing i result with
  | zero =>
    rw [List.drop_eq_nil_of_le (by omega),List.take_nil,List.append_nil]
    rfl
  | succ rounds ih =>
    unfold collect_ids
    by_cases goes : i + 1 ≤ s.objects.head_block_number ∧ result.length < limit
    · have inside : i < (ids_of E.digest s.objects.applied).length := by omega
      have asked := get_block_id_for_num_at kept (List.getElem?_eq_getElem inside)
      have room : limit - result.length = (limit - (result.length + 1)) + 1 := by omega
      rw [if_pos goes,if_pos (Nat.succ_pos i),asked]
      simp only [bind,Except.bind]
      rw [ih (by omega),List.drop_eq_getElem_cons inside,room,List.take_succ_cons]
      simp
    · rw [if_neg goes]
      by_cases above : i + 1 ≤ s.objects.head_block_number
      · have full : limit - result.length = 0 := by omega
        rw [full,List.take_zero,List.append_nil]
      · rw [List.drop_eq_nil_of_le (by omega),List.take_nil,List.append_nil]

theorem collect_ids_from {limit num : Nat} (positive : 0 < limit) :
    collect_ids limit s (s.objects.head_block_number + 1 - num) num [] =
      .ok (((ids_of E.digest s.objects.applied).drop (num - 1)).take limit) := by
  cases num with
  | zero =>
    unfold collect_ids
    simp only [Nat.sub_zero,Nat.zero_le,List.length_nil,positive,and_self,if_true,Nat.lt_irrefl,gt_iff_lt,if_false]
    have run : collect_ids limit s s.objects.head_block_number 1 [] = _ :=
      collect_ids_run kept (Nat.le_of_eq (Nat.zero_add _).symm)
    simpa using run
  | succ i =>
    have run : collect_ids limit s (s.objects.head_block_number - i) (i + 1) [] = _ := collect_ids_run kept (by omega)
    simpa using run

end

/-! ### Replies -/

/-- The synopsis has nothing to go on from. -/
def Unreachable (chain synopsis : List BlockId) : Prop := synopsis ≠ [] ∧ ∀ id ∈ synopsis, id ≠ .zero ∧ id ∉ chain

/-- A reply begins after what it passes: at block 1 for an empty synopsis, else at the last entry that is on the
    chain or zero, which stands for block 1 too. -/
def Begins (chain synopsis passed ids : List BlockId) : Prop :=
  synopsis = [] ∧ passed = [] ∨
    ∃ before id after, synopsis = before ++ id :: after ∧ (∀ x ∈ after, x ≠ .zero ∧ x ∉ chain) ∧
      (id = .zero ∧ passed = [] ∨ ids.head? = some id)

/-- A reply that continues the chain of the peer: consecutive ids of the chain, and the number of those after
    them, none if the limit is not reached. -/
structure Continues (chain synopsis : List BlockId) (limit : Nat) (ids : List BlockId) (remaining : Nat) : Prop where
  part : ∃ passed left, chain = passed ++ ids ++ left ∧ Begins chain synopsis passed ids ∧ remaining = left.length
  limited : ids.length ≤ limit
  full : ids.length = limit ∨ remaining = 0

section
variable {E : Env R O} {s : Node R O} (kept : Kept E s) {limit : Nat} (positive : 0 < limit)
include kept positive

/-- What is collected from a number on is what the chain has from there, with the rest counted. -/
theorem collect_from_run {num : Nat} (inside : num - 1 < (ids_of E.digest s.objects.applied).length) :
    collect_from num limit s =
      .ok (((ids_of E.digest s.objects.applied).drop (num - 1)).take limit,
        ((ids_of E.digest s.objects.applied).drop (num - 1 + limit)).length) := by
  unfold collect_from
  dsimp only
  rw [collect_ids_from kept positive]
  generalize shape : ((ids_of E.digest s.objects.applied).drop (num - 1)).take limit = result
  have size : result.length = min limit ((ids_of E.digest s.objects.applied).length - (num - 1)) := by
    rw [← shape,List.length_take,List.length_drop]
  have head := head_is_length kept
  cases last : result.getLast? with
  | none =>
    rw [List.getLast?_eq_none_iff.mp last,List.length_nil] at size
    omega
  | some back =>
    have place : (ids_of E.digest s.objects.applied)[num - 1 + (result.length - 1)]? = some back := by
      rw [List.getLast?_eq_getElem?,← shape,List.getElem?_take_of_lt (by rw [shape]; omega),List.getElem?_drop,shape] at last
      exact last
    have number := ids_of_num kept.ready.consistent.linked place
    simp only [bind,Except.bind,pure,Except.pure,last,List.length_drop]
    split <;> simp only [Except.ok.injEq,Prod.mk.injEq,true_and] <;> omega

theorem continues_from {synopsis : List BlockId} {num : Nat} (inside : num - 1 < (ids_of E.digest s.objects.applied).length)
    (begins : Begins (ids_of E.digest s.objects.applied) synopsis ((ids_of E.digest s.objects.applied).take (num - 1))
      (((ids_of E.digest s.objects.applied).drop (num - 1)).take limit)) :
    ∃ ids remaining, collect_from num limit s = .ok (ids,remaining) ∧
      Continues (ids_of E.digest s.objects.applied) synopsis limit ids remaining := by
  refine ⟨_,_,collect_from_run kept positive inside,⟨_,_,?_,begins,rfl⟩,?_,?_⟩
  · rw [List.append_assoc,← List.drop_drop,List.take_append_drop,List.take_append_drop]
  · exact List.length_take_le ..
  · rw [List.length_take,List.length_drop,List.length_drop]
    omega

/-- A node with its chain stored answers a synopsis whose known ids are not above its head. -/
theorem get_block_ids_run (headed : s.objects.head_block_number ≠ 0) {synopsis : List BlockId}
    (low : ∀ id ∈ synopsis, is_known_block E.digest id s = true → id.num ≤ s.objects.head_block_number) :
    (Unreachable (ids_of E.digest s.objects.applied) synopsis →
      get_block_ids E.digest synopsis limit s = .error .peer_is_on_an_unreachable_fork) ∧
    (¬ Unreachable (ids_of E.digest s.objects.applied) synopsis →
      ∃ ids remaining, get_block_ids E.digest synopsis limit s = .ok (ids,remaining) ∧
        Continues (ids_of E.digest s.objects.applied) synopsis limit ids remaining) := by
  have head := head_is_length kept
  have whole : BlockId.zero.num - 1 < (ids_of E.digest s.objects.applied).length := by
    show 0 - 1 < _
    omega
  unfold get_block_ids
  rw [if_neg headed]
  by_cases fresh : synopsis = [] ∨ synopsis = [.zero]
  · have reachable : ¬ Unreachable (ids_of E.digest s.objects.applied) synopsis := by
      rintro ⟨some,apart⟩
      rcases fresh with rfl | rfl
      · exact some rfl
      · exact (apart _ (List.mem_singleton_self _)).1 rfl
    refine ⟨fun unreachable => absurd unreachable reachable,fun _ => ?_⟩
    rw [if_pos fresh]
    refine continues_from kept positive whole ?_
    rcases fresh with rfl | rfl
    · exact .inl ⟨rfl,rfl⟩
    · exact .inr ⟨[],.zero,[],rfl,fun x member => (nomatch member),.inl ⟨rfl,rfl⟩⟩
  rw [if_neg fresh,find_block_in_synopsis_run kept fun id member => low id (List.mem_reverse.mp member)]
  cases scanned : synopsis.reverse.find? fun id => id = .zero ∨ id ∈ ids_of E.digest s.objects.applied with
  | none =>
    have unreachable : Unreachable (ids_of E.digest s.objects.applied) synopsis := by
      refine ⟨fun empty => fresh (.inl empty),fun id member => ?_⟩
      have apart := List.find?_eq_none.mp scanned id (List.mem_reverse.mpr member)
      simpa only [decide_eq_true_eq,not_or] using apart
    exact ⟨fun _ => rfl,fun reachable => absurd unreachable reachable⟩
  | some id =>
    obtain ⟨meets,later,earlier,split,apart⟩ := List.find?_eq_some_iff_append.mp scanned
    have meets : id = .zero ∨ id ∈ ids_of E.digest s.objects.applied := by simpa using meets
    have parts : synopsis = earlier.reverse ++ id :: later.reverse := by
      rw [← List.reverse_reverse synopsis,split]
      simp
    have reachable : ¬ Unreachable (ids_of E.digest s.objects.applied) synopsis := by
      rintro ⟨_,none⟩
      have away := none id (by rw [parts]; simp)
      exact meets.elim away.1 away.2
    refine ⟨fun unreachable => absurd unreachable reachable,fun _ => ?_⟩
    have after : ∀ x ∈ later.reverse, x ≠ .zero ∧ x ∉ ids_of E.digest s.objects.applied := by
      intro x member
      simpa using apart x (List.mem_reverse.mp member)
    rcases meets with rfl | applied
    · exact continues_from kept positive whole (.inr ⟨_,_,_,parts,after,.inl ⟨rfl,rfl⟩⟩)
    · obtain ⟨i,there⟩ := List.mem_iff_getElem?.mp applied
      obtain ⟨inside,-⟩ := List.getElem?_eq_some_iff.mp there
      have place : id.num - 1 = i := by
        rw [ids_of_num kept.ready.consistent.linked there]
        rfl
      refine continues_from kept positive (place ▸ inside) (.inr ⟨_,id,_,parts,after,.inr ?_⟩)
      rw [place,List.head?_take,if_neg (Nat.ne_of_gt positive),List.head?_drop,there]

end

/-- In every run whose calls work on the chain as a whole, a synopsis is answered from the last of its entries that
    is on the applied chain, as long as it names no known block above the head. -/
theorem reply_continues_chain {E : Env R O} (injective : Function.Injective E.digest) {genesis : Objects R O}
    (isGenesis : Genesis genesis) (checkpoints : List (Nat × BlockId)) {s : Node R O}
    (running : Running E (Whole E) (opened E genesis .empty checkpoints) s) (synopsis : List BlockId) {limit : Nat}
    (positive : 0 < limit)
    (low : ∀ id ∈ synopsis, is_known_block E.digest id s = true → id.num ≤ s.objects.head_block_number) :
    (s.objects.head_block_number = 0 → get_block_ids E.digest synopsis limit s = .ok ([],0)) ∧
    (s.objects.head_block_number ≠ 0 → Unreachable (ids_of E.digest s.objects.applied) synopsis →
      get_block_ids E.digest synopsis limit s = .error .peer_is_on_an_unreachable_fork) ∧
    (s.objects.head_block_number ≠ 0 → ¬ Unreachable (ids_of E.digest s.objects.applied) synopsis →
      ∃ ids remaining, get_block_ids E.digest synopsis limit s = .ok (ids,remaining) ∧
        Continues (ids_of E.digest s.objects.applied) synopsis limit ids remaining) := by
  have kept := kept_running injective isGenesis checkpoints running
  refine ⟨fun start => ?_,fun headed => (get_block_ids_run kept positive headed low).1,
    fun headed => (get_block_ids_run kept positive headed low).2⟩
  unfold get_block_ids
  rw [if_pos start]
  rfl

theorem running_pushed1 : Running quietEnv (Whole quietEnv) quietStart pushed1 :=
  .call .start (.push block1 .nothing) (.inr ⟨run_of_returned (by decide +kernel),fun pops => (nomatch pops)⟩)

theorem reply_to_first_block : ∃ ids remaining,
    get_block_ids pairDigest [block1.id pairDigest,⟨1,0⟩] 3 pushed1 = .ok (ids,remaining) ∧
      Continues (ids_of pairDigest pushed1.objects.applied) [block1.id pairDigest,⟨1,0⟩] 3 ids remaining := by
  refine (reply_continues_chain pairDigest_injective quietGenesis_isGenesis [] running_pushed1
    [block1.id pairDigest,⟨1,0⟩] (by decide) ?_).2.2 (by decide +kernel) ?_
  · decide +kernel
  · rintro ⟨_,apart⟩
    exact (apart _ (List.mem_cons_self ..)).2 (by decide +kernel)

/-- Before the first block a synopsis is answered with no ids, whatever it names. -/
theorem reply_before_first_block :
    ¬ ∀ s, Running quietEnv (Whole quietEnv) quietStart s → ∀ synopsis limit, 0 < limit →
      get_block_ids pairDigest synopsis limit s = .error .peer_is_on_an_unreachable_fork ∧
          Unreachable (ids_of pairDigest s.objects.applied) synopsis ∨
        ∃ ids remaining, get_block_ids pairDigest synopsis limit s = .ok (ids,remaining) ∧
          Continues (ids_of pairDigest s.objects.applied) synopsis limit ids remaining := by
  intro answers
  have answered : get_block_ids pairDigest [⟨1,0⟩] 1 quietStart = .ok ([],0) := by decide +kernel
  rcases answers quietStart .start [⟨1,0⟩] 1 (by decide) with ⟨failed,_⟩ | ⟨ids,remaining,ran,continues⟩
  · rw [answered] at failed
    cases failed
  rw [answered] at ran
  cases ran
  obtain ⟨passed,left,_,⟨empty,_⟩ | ⟨before,id,after,split,_,begins⟩,_⟩ := continues.part
  · cases empty
  rcases begins with ⟨rfl,_⟩ | first
  · have inside : BlockId.zero ∈ [(⟨1,0⟩ : BlockId)] := by
      rw [split]
      simp
    exact absurd (List.mem_singleton.mp inside) (by decide)
  · cases first

end Decent.Sync

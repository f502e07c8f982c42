import Decent.Sync

/-!
The synopsis of a chain: ids of blocks from the last one that cannot be undone up to a
reference point, ever closer to each other. The numbers are those of `uint32_t`.
-/
namespace Decent.Sync
open Decent.ObjectDatabase (Exc)
open Decent.Protocol
open Decent.Database
open Decent.ForkDatabase (Entry Item Joined)
open Throwing

variable {R O : Type}

/-! ### The synopsis -/

/-- `a - b` of `uint32_t`. -/
def minus (a b : Nat) : Nat := (a + (2 ^ 32 - b % 2 ^ 32)) % 2 ^ 32

/-- `a + b` of `uint32_t`. -/
def plus (a b : Nat) : Nat := (a + b) % 2 ^ 32

/-- `database::last_non_undoable_block_num`. -/
def last_non_undoable_block_num (s : Node R O) : Nat := minus s.objects.head_block_number s.undo.stack.length

/-- The local variables of `get_blockchain_synopsis`. -/
structure Span where
  low_block_num : Nat
  non_fork_high_block_num : Nat
  high_block_num : Nat
  fork_history : List BlockId

/-- The id of a block number: from the main chain, or from the fork. -/
def id_for_num (span : Span) (num : Nat) (s : Node R O) : Except Failure BlockId :=
  if num ≤ span.non_fork_high_block_num then ask (get_block_id_for_num num) s
  else match span.fork_history[num - span.non_fork_high_block_num - 1]? with
    | some id => .ok id
    | none => .error .out_of_range

/-- The loop of `get_blockchain_synopsis`, which may not be done after the rounds it is given. -/
def take_ids (span : Span) (true_high_block_num : Nat) (s : Node R O) :
    Nat → Nat → List BlockId → Option (Except Failure (List BlockId))
  | 0, _, _ => none
  | rounds + 1, low, synopsis =>
    let low := if low = 0 then low + 1 else low
    match id_for_num span low s with
    | .error e => some (.error e)
    | .ok id =>
      let next := plus low (plus (minus true_high_block_num low) 2 / 2)
      if next ≤ span.high_block_num then take_ids span true_high_block_num s rounds next (synopsis ++ [id])
      else some (.ok (synopsis ++ [id]))

section
variable (digest : Header → Nat)

/-- `database::get_block_ids_on_fork`. -/
def get_block_ids_on_fork (head_of_fork : BlockId) (s : Node R O) : Except Failure (List BlockId) :=
  match ForkDatabase.fetch_branch_from digest s.objects.head_block_id head_of_fork s.fork_db with
  | .error e => .error (.exception e)
  | .ok (first,second) =>
    match first.getLast? with
    | some back => .ok (second.map (fun fork_block => fork_block.id digest) ++ [back.data.previous])
    | none => .error .out_of_range

/-- The part of `get_blockchain_synopsis` before its loop, for a given reference point. -/
def span_to (reference_point : BlockId) (s : Node R O) : Except Failure Span := do
  let low_block_num := last_non_undoable_block_num s
  if ← is_included_block reference_point s then
    let num := reference_point.num
    pure ⟨if num < low_block_num then num else low_block_num,num,num,[]⟩
  else
    let ids ← get_block_ids_on_fork digest reference_point s
    match ids.getLast? with
    | none => .error .out_of_range
    | some last_non_fork_block =>
      let fork_history := ids.dropLast.reverse
      let non_fork_high_block_num := if last_non_fork_block = .zero then 0 else last_non_fork_block.num
      if non_fork_high_block_num < low_block_num then .error .block_older_than_undo_history
      else pure ⟨low_block_num,non_fork_high_block_num,plus non_fork_high_block_num fork_history.length,fork_history⟩

/-- `application_impl::get_blockchain_synopsis`. -/
def get_blockchain_synopsis (reference_point : BlockId) (number_of_blocks_after_reference_point : Nat) (s : Node R O)
    (rounds : Nat) : Option (Except Failure (List BlockId)) :=
  let span :=
    if reference_point = .zero then
      .ok ⟨last_non_undoable_block_num s,s.objects.head_block_number,s.objects.head_block_number,[]⟩
    else span_to digest reference_point s
  match span with
  | .error e => some (.error e)
  | .ok span =>
    if reference_point = .zero ∧ span.high_block_num = 0 then some (.ok [])
    else
      let true_high_block_num := plus span.high_block_num number_of_blocks_after_reference_point
      take_ids span true_high_block_num s rounds span.low_block_num []

end

/-! ### Chains to a reference point -/

section
variable {digest : Header → Nat} {chain : List (Block O)}

/-- The top of a path, put on a chain it comes from. -/
theorem linked_branch {path part : List (Entry O)} {base : List (Block O)} {last : Entry O} (joined : Joined digest path)
    (top : part <+: path) (isLast : last ∈ part.getLast?) (parent : last.data.previous = headId digest base)
    (linked : Linked digest base) : Linked digest (part.map Entry.data ++ base) := by
  induction part generalizing path with
  | nil => cases isLast
  | cons e rest ih =>
    obtain ⟨below,rfl⟩ := top
    cases rest with
    | nil =>
      obtain rfl := Option.some.inj isLast
      exact ⟨parent,linked⟩
    | cons next rest => exact ⟨joined.1,ih joined.2 ⟨below,rfl⟩ isLast⟩

theorem ids_of_append (branch base : List (Block O)) :
    ids_of digest (branch ++ base) = ids_of digest base ++ ids_of digest branch := by
  simp [ids_of]

/-- A part of a chain has the ids of the chain. -/
theorem ids_of_suffix {base : List (Block O)} (on : base <:+ chain) : ids_of digest base <+: ids_of digest chain := by
  obtain ⟨above,rfl⟩ := on
  rw [ids_of_append]
  exact List.prefix_append ..

theorem getLast?_ids_of (positive : 0 < chain.length) : (ids_of digest chain).getLast? = some (headId digest chain) := by
  cases chain with
  | nil => cases positive
  | cons b rest => simp [ids_of,headId]

/-- A block of a chain is the head of a part of it. -/
theorem exists_suffix {id : BlockId} (member : id ∈ ids_of digest chain) :
    ∃ base, base <:+ chain ∧ headId digest base = id := by
  obtain ⟨b,inside,rfl⟩ := mem_ids_of.mp member
  obtain ⟨above,below,rfl⟩ := List.append_of_mem inside
  exact ⟨b :: below,List.suffix_append ..,rfl⟩

/-- A chain is known by the id of its head. -/
theorem ids_of_eq (injective : Function.Injective digest) {other : List (Block O)} (linked : Linked digest chain)
    (linked' : Linked digest other) (same : headId digest chain = headId digest other) :
    ids_of digest chain = ids_of digest other := by
  induction chain generalizing other with
  | nil =>
    have empty : other.length = 0 := by
      rw [← headId_num digest linked',← same]
      rfl
    rw [List.eq_nil_of_length_eq_zero empty]
  | cons b rest ih =>
    cases other with
    | nil => exact absurd (congrArg BlockId.num same) (Nat.succ_ne_zero _)
    | cons c rest' =>
      have headers : b.toHeader = c.toHeader := injective (congrArg BlockId.hash same)
      have below : headId digest rest = headId digest rest' := by
        rw [← linked.1,← linked'.1,headers]
      have lower := ih linked.2 linked'.2 below
      simp only [ids_of,List.reverse_cons,List.map_append,List.map_cons,List.map_nil] at lower ⊢
      rw [lower]
      exact congrArg (fun id => _ ++ [id]) same

theorem headId_of_ids {other : List (Block O)} (same : ids_of digest chain = ids_of digest other) :
    headId digest chain = headId digest other := by
  have lengths := congrArg List.length same
  rw [length_ids_of,length_ids_of] at lengths
  cases chain with
  | nil => rw [List.eq_nil_of_length_eq_zero lengths.symm]
  | cons b rest =>
    have last : (ids_of digest (b :: rest)).getLast? = some (headId digest (b :: rest)) :=
      getLast?_ids_of (Nat.succ_pos _)
    rw [same,getLast?_ids_of (by rw [← lengths]; exact Nat.succ_pos _)] at last
    exact (Option.some.inj last).symm

/-- A branch parts from a chain above their last common block. -/
theorem branch_apart (injective : Function.Injective digest) {branch base : List (Block O)} (linked : Linked digest chain)
    (on : base <:+ chain) (joined : Linked digest (branch ++ base)) :
    ∃ branch' base', base' <:+ chain ∧ branch' <+: branch ∧ Linked digest (branch' ++ base') ∧
      ids_of digest (branch' ++ base') = ids_of digest (branch ++ base) ∧
      ∀ b ∈ branch', b.id digest ∉ ids_of digest chain := by
  induction branch with
  | nil => exact ⟨[],base,on,List.nil_prefix,joined,rfl,fun b member => (nomatch member)⟩
  | cons b rest ih =>
    by_cases meets : b.id digest ∈ ids_of digest chain
    · obtain ⟨base',on',named⟩ := exists_suffix meets
      have linked' := linked_suffix linked on'
      exact ⟨[],base',on',List.nil_prefix,linked',ids_of_eq injective linked' joined named,fun b member => (nomatch member)⟩
    · obtain ⟨branch',base',on',inside,joined',same,apart⟩ := ih joined.2
      refine ⟨b :: branch',base',on',List.cons_prefix_cons.mpr ⟨rfl,inside⟩,⟨?_,joined'⟩,?_,?_⟩
      · exact joined.1.trans (headId_of_ids same).symm
      · simp only [List.cons_append,ids_of,List.reverse_cons,List.map_append,List.map_cons,List.map_nil] at same ⊢
        rw [same]
      · intro c member
        rcases List.mem_cons.mp member with rfl | member
        · exact meets
        · exact apart c member

end

/-- What a span covers: a chain that is on the applied chain up to the fork, and on the fork above it. -/
structure Covers (E : Env R O) (s : Node R O) (branch base : List (Block O)) (span : Span) : Prop where
  on : base <:+ s.objects.applied
  linked : Linked E.digest (branch ++ base)
  non_fork_high : span.non_fork_high_block_num = base.length
  high : span.high_block_num = (branch ++ base).length
  fork_history : span.fork_history = ids_of E.digest branch

theorem id_for_num_at {E : Env R O} {s : Node R O} (kept : Kept E s) {branch base : List (Block O)} {span : Span}
    (covers : Covers E s branch base span) {i : Nat} {id : BlockId}
    (there : (ids_of E.digest (branch ++ base))[i]? = some id) : id_for_num span (i + 1) s = .ok id := by
  rw [ids_of_append] at there
  unfold id_for_num
  rw [covers.non_fork_high,covers.fork_history]
  by_cases low : i + 1 ≤ base.length
  · rw [if_pos low]
    rw [List.getElem?_append_left (by rw [length_ids_of]; omega)] at there
    refine get_block_id_for_num_at kept ?_
    obtain ⟨more,whole⟩ : ids_of E.digest base <+: ids_of E.digest s.objects.applied := ids_of_suffix covers.on
    rw [← whole,List.getElem?_append_left (by rw [length_ids_of]; omega),there]
  · rw [if_neg low]
    rw [List.getElem?_append_right (by rw [length_ids_of]; omega),length_ids_of] at there
    have place : i + 1 - base.length - 1 = i - base.length := by omega
    rw [place,there]

/-! ### The loop -/

/-- No step between two numbers comes to zero or wraps around: the number the peer goes up to is above the last
    one, or so far below the first one that a single step leads past the last. -/
def Steps (first last top : Nat) : Prop :=
  last + 1 < 2 ^ 32 ∧ (last ≤ top ∧ top + 2 < 2 ^ 32 + first ∨ top + 2 < first ∧ top + 2 + last < 2 ^ 32)

/-- The next number is higher, and with nothing above the last number it is not passed over. -/
theorem next_above {first last top low : Nat} (steps : Steps first last top) (fits : top < 2 ^ 32) (above : first ≤ low)
    (below : low ≤ last) : low < plus low (plus (minus top low) 2 / 2) ∧
      (top = last → low < last → plus low (plus (minus top low) 2 / 2) ≤ last) := by
  obtain ⟨small,⟨high,gap⟩ | ⟨far,room⟩⟩ := steps
  · have distance : minus top low = top - low := by
      unfold minus
      omega
    rw [distance]
    unfold plus
    omega
  · have distance : minus top low = top + 2 ^ 32 - low := by
      unfold minus
      omega
    rw [distance]
    unfold plus
    omega

/-- From a number within the chain on, the loop takes ids of the chain, each higher than the one before. -/
theorem take_ids_run {E : Env R O} {s : Node R O} (kept : Kept E s) {branch base : List (Block O)} {span : Span}
    (covers : Covers E s branch base span) {first top : Nat} (steps : Steps first (branch ++ base).length top)
    (fits : top < 2 ^ 32) {rounds low : Nat} (synopsis : List BlockId) (positive : 0 < low) (above : first ≤ low)
    (below : low ≤ (branch ++ base).length) (enough : (branch ++ base).length < low + rounds) :
    ∃ ids, take_ids span top s rounds low synopsis = some (.ok (synopsis ++ ids)) ∧
      (∀ id ∈ ids, id ∈ ids_of E.digest (branch ++ base) ∧ low ≤ id.num) ∧ ids.Pairwise (fun a b => a.num < b.num) ∧
      (top = (branch ++ base).length → headId E.digest (branch ++ base) ∈ ids.getLast?) := by
  induction rounds generalizing low synopsis with
  | zero => omega
  | succ rounds ih =>
    obtain ⟨id,there⟩ : ∃ id, (ids_of E.digest (branch ++ base))[low - 1]? = some id :=
      ⟨_,List.getElem?_eq_getElem (by rw [length_ids_of]; omega)⟩
    have number : id.num = low := by
      rw [ids_of_num covers.linked there]
      omega
    have picked : id_for_num span low s = .ok id := by
      have asked := id_for_num_at kept covers there
      rwa [Nat.sub_add_cancel positive] at asked
    obtain ⟨further,reaches⟩ := next_above steps fits above below
    have unfolds : take_ids span top s (rounds + 1) low synopsis =
        if plus low (plus (minus top low) 2 / 2) ≤ (branch ++ base).length then
          take_ids span top s rounds (plus low (plus (minus top low) 2 / 2)) (synopsis ++ [id])
        else some (.ok (synopsis ++ [id])) := by
      simp only [take_ids,Nat.ne_of_gt positive,if_false,picked,covers.high]
    rw [unfolds]
    by_cases goes : plus low (plus (minus top low) 2 / 2) ≤ (branch ++ base).length
    · rw [if_pos goes]
      obtain ⟨ids,ran,inside,rising,ends⟩ := ih (synopsis ++ [id]) (by omega) (by omega) goes (by omega)
      refine ⟨id :: ids,?_,?_,?_,fun last => ?_⟩
      · rw [ran,List.append_assoc,List.singleton_append]
      · intro other member
        rcases List.mem_cons.mp member with rfl | member
        · exact ⟨List.mem_of_getElem? there,Nat.le_of_eq number.symm⟩
        · obtain ⟨taken,higher⟩ := inside other member
          exact ⟨taken,by omega⟩
      · refine List.pairwise_cons.mpr ⟨fun other member => ?_,rising⟩
        have higher := (inside other member).2
        omega
      · exact List.mem_getLast?_cons (ends last)
    · rw [if_neg goes]
      refine ⟨[id],rfl,?_,List.pairwise_singleton ..,fun last => ?_⟩
      · intro other member
        obtain rfl := List.mem_singleton.mp member
        exact ⟨List.mem_of_getElem? there,Nat.le_of_eq number.symm⟩
      · have reached : low = (branch ++ base).length :=
          Nat.le_antisymm below (Nat.le_of_not_lt fun under => goes (reaches last under))
        have final : (ids_of E.digest (branch ++ base)).getLast? = some (headId E.digest (branch ++ base)) :=
          getLast?_ids_of (Nat.lt_of_lt_of_le positive below)
        rw [List.getLast?_eq_getElem?,length_ids_of,← reached,there] at final
        exact final

/-! ### Spans -/

/-- An exception the code throws, not an index outside of a vector. -/
def Failure.Thrown : Failure → Prop
  | .exception (.undefined _) => False
  | .out_of_range => False
  | _ => True

/-- The branch is the top of what an item of the fork database is linked to. -/
def OnFork (E : Env R O) (s : Node R O) (reference : BlockId) (branch : List (Block O)) : Prop :=
  branch = [] ∨ ∃ item, ForkDatabase.find E.digest s.fork_db reference = some item ∧ branch <+: item.path.map Entry.data

theorem ask_get_block_id_for_num_thrown {num : Nat} {s : Node R O} {e : Failure}
    (failed : ask (get_block_id_for_num num) s = .error e) : e.Thrown := by
  have stored : ∀ x, BlockDatabase.fetch_block_id num s.block_db = .error x → Failure.Thrown (.exception x) := by
    intro x absent
    unfold BlockDatabase.fetch_block_id at absent
    split at absent
    · cases absent
      trivial
    · split at absent <;> cases absent
      trivial
  unfold ask at failed
  simp only [get_block_id_for_num,EStateM.run_bind,EStateM.run_get] at failed
  cases fetched : BlockDatabase.fetch_block_id num s.block_db with
  | ok id =>
    rw [fetched] at failed
    cases failed
  | error x =>
    rw [fetched] at failed
    cases failed
    exact stored x fetched

section
variable {E : Env R O} {s : Node R O} (kept : Kept E s)
include kept

/-- The ids of a fork are those of a branch that comes from the applied chain, and of the block it comes from. -/
theorem get_block_ids_on_fork_run (injective : Function.Injective E.digest) (reference : BlockId) :
    (∃ e, get_block_ids_on_fork E.digest reference s = .error e ∧ e.Thrown) ∨
      ∃ branch base, base <:+ s.objects.applied ∧ Linked E.digest (branch ++ base) ∧ branch ≠ [] ∧
        headId E.digest (branch ++ base) = reference ∧ OnFork E s reference branch ∧
        get_block_ids_on_fork E.digest reference s = .ok ((ids_of E.digest branch).reverse ++ [headId E.digest base]) := by
  have consistent := kept.ready.consistent
  unfold get_block_ids_on_fork
  rcases ForkDatabase.fetch_branch_from_split E.digest s.objects.head_block_id reference s.fork_db with
    ⟨what,failed⟩ | ⟨first,second,a,b,fetched,foundFirst,foundSecond,left,right,x,isLast,y,isLast',same⟩
  · rw [failed]
    exact .inl ⟨_,rfl,trivial⟩
  refine .inr ?_
  obtain ⟨aMember,aNamed⟩ := ForkDatabase.find_some foundFirst
  obtain ⟨bMember,bNamed⟩ := ForkDatabase.find_some foundSecond
  have xInside : x.toEntry ∈ a.path := left.subset (List.mem_map_of_mem (List.mem_of_getLast? isLast))
  obtain ⟨base,on,parent⟩ := joined_chain injective (kept.ready.woven.index a aMember) consistent.linked (by
    intro e isFirst
    obtain rfl := Option.some.inj isFirst
    rw [← consistent.id]
    exact aNamed) x.toEntry xInside
  have yLast : y.toEntry ∈ (second.map Item.toEntry).getLast? := by
    rw [List.getLast?_map,Option.mem_def.mp isLast']
    rfl
  have linked := linked_branch (kept.ready.woven.index b bMember) right yLast (same.symm.trans parent)
    (linked_suffix consistent.linked on)
  have entries : (second.map Item.toEntry).map Entry.data = second.map fun i => i.data := by
    rw [List.map_map]
    rfl
  rw [entries] at linked
  cases second with
  | nil => cases isLast'
  | cons front rest =>
    have isFront : front.toEntry = b.toEntry := (List.cons_prefix_cons.mp right).1
    refine ⟨(front :: rest).map fun i => i.data,base,on,linked,by simp,?_,.inr ⟨b,foundSecond,?_⟩,?_⟩
    · show front.toEntry.id E.digest = reference
      rw [isFront]
      exact bNamed
    · rw [← entries]
      exact right.map Entry.data
    · rw [fetched]
      simp only [Option.mem_def.mp isLast,parent]
      simp [ids_of,ForkDatabase.Entry.id,Function.comp_def]

/-- The span of a reference point covers the chain that ends at it. -/
theorem span_to_run (injective : Function.Injective E.digest) {reference : BlockId} (numbered : 0 < reference.num)
    (small : reference.num < 2 ^ 32) (current : reference.num ≤ s.objects.head_block_number ∨
      BlockDatabase.fetch_block_id reference.num s.block_db ≠ .ok reference) :
    (∃ e, span_to E.digest reference s = .error e ∧ e.Thrown) ∨
      ∃ span branch base, span_to E.digest reference s = .ok span ∧ Covers E s branch base span ∧
        headId E.digest (branch ++ base) = reference ∧ OnFork E s reference branch ∧
        span.low_block_num = min (last_non_undoable_block_num s) reference.num := by
  have consistent := kept.ready.consistent
  unfold span_to
  cases asked : ask (get_block_id_for_num reference.num) s with
  | error e =>
    refine .inl ⟨e,?_,ask_get_block_id_for_num_thrown asked⟩
    simp [is_included_block,asked,bind,Except.bind]
  | ok id =>
    have included : is_included_block reference s = .ok (reference = id) := by
      simp [is_included_block,asked,bind,Except.bind,pure,Except.pure]
    rw [included]
    by_cases main : reference = id
    · refine .inr ?_
      have low : reference.num ≤ s.objects.head_block_number := by
        refine current.resolve_right fun other => other ?_
        unfold ask at asked
        simp only [get_block_id_for_num,EStateM.run_bind,EStateM.run_get] at asked
        cases fetched : BlockDatabase.fetch_block_id reference.num s.block_db with
        | ok found =>
          rw [fetched] at asked
          cases asked
          rw [main]
        | error e =>
          rw [fetched] at asked
          cases asked
      have onChain := is_included_block_low kept numbered low
      rw [included,decide_eq_true main] at onChain
      have member : reference ∈ ids_of E.digest s.objects.applied := by simpa using onChain
      obtain ⟨base,on,named⟩ := exists_suffix member
      have linked := linked_suffix consistent.linked on
      have length : base.length = reference.num := by rw [← named,headId_num E.digest linked]
      refine ⟨⟨if reference.num < last_non_undoable_block_num s then reference.num else last_non_undoable_block_num s,
        reference.num,reference.num,[]⟩,[],base,?_,⟨on,linked,length.symm,length.symm,rfl⟩,named,.inl rfl,?_⟩
      · simp [main,bind,Except.bind,pure,Except.pure]
      · dsimp only
        split <;> omega
    rcases get_block_ids_on_fork_run kept injective reference with
      ⟨e,failed,thrown⟩ | ⟨branch,base,on,linked,some,named,onFork,fetched⟩
    · refine .inl ⟨e,?_,thrown⟩
      simp [main,failed,bind,Except.bind]
    have length : (branch ++ base).length = reference.num := by rw [← named,headId_num E.digest linked]
    have parts : (branch ++ base).length = branch.length + base.length := List.length_append
    have point : (if headId E.digest base = .zero then 0 else (headId E.digest base).num) = base.length := by
      rw [← headId_num E.digest (linked_suffix consistent.linked on)]
      split
      · next zero => rw [zero]; rfl
      · rfl
    by_cases deep : base.length < last_non_undoable_block_num s
    · refine .inl ⟨.block_older_than_undo_history,?_,trivial⟩
      simp [main,fetched,point,deep,bind,Except.bind]
    · refine .inr ⟨⟨last_non_undoable_block_num s,base.length,(branch ++ base).length,ids_of E.digest branch⟩,branch,base,?_,
        ⟨on,linked,rfl,rfl,rfl⟩,named,onFork,?_⟩
      · have sum : plus base.length branch.length = branch.length + base.length := by
          unfold plus
          omega
        simp [main,fetched,point,deep,sum,bind,Except.bind,pure,Except.pure]
      · dsimp only
        omega

end

/-! ### Synopses -/

/-- The block number a synopsis goes up to. -/
def last_number (reference : BlockId) (s : Node R O) : Nat :=
  if reference = .zero then s.objects.head_block_number else reference.num

/-- The block number a synopsis begins at. -/
def first_number (reference : BlockId) (s : Node R O) : Nat :=
  max 1 (min (last_non_undoable_block_num s) (last_number reference s))

/-- What a synopsis can be made for: on a chain with blocks and with no reference point, no more states on the undo
    stack than blocks; a reference point that is not a block taken off the chain whose entry is still in the index;
    and a number of further blocks that leaves the steps in the range of `uint32_t`. -/
structure Usable (reference : BlockId) (after : Nat) (s : Node R O) : Prop where
  undoable : reference = .zero → s.objects.head_block_number = 0 ∨ s.undo.stack.length ≤ s.objects.head_block_number
  current : reference ≠ .zero → reference.num ≤ s.objects.head_block_number ∨
    BlockDatabase.fetch_block_id reference.num s.block_db ≠ .ok reference
  steps : last_number reference s = 0 ∨
    Steps (first_number reference s) (last_number reference s) (plus (last_number reference s) after)

/-- The block a synopsis is made for: the reference point, or the head when there is none. -/
def target (reference : BlockId) (s : Node R O) : BlockId :=
  if reference = .zero then s.objects.head_block_id else reference

/-- A synopsis of the chain that ends at the reference point: up to the fork point ids of the applied chain, above
    it ids of the fork, each higher than the one before. With no further blocks it ends at the target, and is empty
    when there is none. -/
structure Summary (E : Env R O) (reference : BlockId) (after : Nat) (s : Node R O) (ids : List BlockId) : Prop where
  parts : ∃ branch base, base <:+ s.objects.applied ∧ Linked E.digest (branch ++ base) ∧
    headId E.digest (branch ++ base) = target reference s ∧ OnFork E s reference branch ∧
    (∀ b ∈ branch, b.id E.digest ∉ ids_of E.digest s.objects.applied) ∧
    ∀ id ∈ ids, id.num ≤ base.length ∧ id ∈ ids_of E.digest base ∨ base.length < id.num ∧ id ∈ ids_of E.digest branch
  rising : ids.Pairwise fun a b => a.num < b.num
  ends : after = 0 → ids.getLast?.getD .zero = target reference s

theorem ids_of_parts {digest : Header → Nat} {branch base : List (Block O)} (linked : Linked digest (branch ++ base))
    {id : BlockId} (member : id ∈ ids_of digest (branch ++ base)) :
    id.num ≤ base.length ∧ id ∈ ids_of digest base ∨ base.length < id.num ∧ id ∈ ids_of digest branch := by
  obtain ⟨i,there⟩ := List.mem_iff_getElem?.mp member
  have number := ids_of_num linked there
  rw [ids_of_append] at there
  by_cases low : i < (ids_of digest base).length
  · rw [List.getElem?_append_left low] at there
    rw [length_ids_of] at low
    exact .inl ⟨by omega,List.mem_of_getElem? there⟩
  · rw [List.getElem?_append_right (by omega)] at there
    rw [length_ids_of] at low
    exact .inr ⟨by omega,List.mem_of_getElem? there⟩

theorem take_ids_zero (span : Span) (top : Nat) (s : Node R O) (rounds : Nat) (synopsis : List BlockId) :
    take_ids span top s rounds 0 synopsis = take_ids span top s rounds 1 synopsis := by
  cases rounds <;> rfl

section
variable {E : Env R O} {s : Node R O} (kept : Kept E s)
include kept

/-- A span whose chain ends at the target is summarized in as many rounds as the chain has blocks. -/
theorem summary_of_covers (injective : Function.Injective E.digest) {reference : BlockId} {after : Nat}
    {branch base : List (Block O)} {span : Span} (covers : Covers E s branch base span)
    (named : headId E.digest (branch ++ base) = target reference s) (onFork : OnFork E s reference branch)
    (last : (branch ++ base).length = last_number reference s)
    (first : span.low_block_num = min (last_non_undoable_block_num s) (last_number reference s))
    (positive : last_number reference s ≠ 0)
    (steps : Steps (first_number reference s) (last_number reference s) (plus (last_number reference s) after))
    {rounds : Nat} (enough : last_number reference s < rounds) :
    ∃ ids, take_ids span (plus span.high_block_num after) s rounds span.low_block_num [] = some (.ok ids) ∧
      Summary E reference after s ids := by
  have consistent := kept.ready.consistent
  have high : span.high_block_num = last_number reference s := covers.high.trans last
  have begins : take_ids span (plus span.high_block_num after) s rounds span.low_block_num [] =
      take_ids span (plus span.high_block_num after) s rounds (first_number reference s) [] := by
    have number : first_number reference s = max 1 span.low_block_num := by rw [first,first_number]
    rw [number]
    cases low : span.low_block_num with
    | zero => exact take_ids_zero ..
    | succ n => rw [Nat.max_eq_right (Nat.succ_pos n)]
  obtain ⟨branch',base',on,inside,linked,same,apart⟩ := branch_apart injective consistent.linked covers.on covers.linked
  have bounds : 0 < first_number reference s ∧ first_number reference s ≤ last_number reference s := by
    unfold first_number
    omega
  have fits : plus (last_number reference s) after < 2 ^ 32 := Nat.mod_lt _ (Nat.two_pow_pos 32)
  obtain ⟨ids,ran,taken,rising,ends⟩ := take_ids_run kept covers (by rw [last]; exact steps) fits [] bounds.1
    (Nat.le_refl _) (last ▸ bounds.2) (show _ < _ + rounds by omega)
  refine ⟨ids,?_,⟨branch',base',on,linked,(headId_of_ids same).trans named,?_,apart,fun id member => ?_⟩,rising,fun none => ?_⟩
  · rw [begins,high]
    exact ran
  · rcases onFork with rfl | ⟨item,found,top⟩
    · exact .inl (List.prefix_nil.mp inside)
    · exact .inr ⟨item,found,inside.trans top⟩
  · exact ids_of_parts linked (same ▸ (taken id member).1)
  · have top : plus (last_number reference s) after = (branch ++ base).length := by
      have small := steps.1
      rw [none,last]
      unfold plus
      omega
    rw [Option.mem_def.mp (ends top),Option.getD_some,named]

/-- A node with its chain stored makes a synopsis, or throws an exception, in as many rounds as the chain to the
    reference point has blocks. -/
theorem get_blockchain_synopsis_run (injective : Function.Injective E.digest) {reference : BlockId}
    (known : reference = .zero ∨ is_known_block E.digest reference s = true) {after : Nat} (usable : Usable reference after s)
    {rounds : Nat} (enough : last_number reference s < rounds) :
    (∃ e, get_blockchain_synopsis E.digest reference after s rounds = some (.error e) ∧ e.Thrown) ∨
      ∃ ids, get_blockchain_synopsis E.digest reference after s rounds = some (.ok ids) ∧
        Summary E reference after s ids := by
  have consistent := kept.ready.consistent
  unfold get_blockchain_synopsis
  by_cases zero : reference = .zero
  · refine .inr ?_
    have target_head : target reference s = s.objects.head_block_id := if_pos zero
    have last : last_number reference s = s.objects.head_block_number := if_pos zero
    have named : headId E.digest ([] ++ s.objects.applied) = target reference s := by
      rw [target_head,consistent.id,List.nil_append]
    by_cases start : s.objects.head_block_number = 0
    · have empty : s.objects.applied = [] := by
        rw [consistent.number] at start
        exact List.eq_nil_of_length_eq_zero start
      refine ⟨[],by simp [zero,start],⟨[],s.objects.applied,List.suffix_rfl,consistent.linked,named,.inl rfl,?_,?_⟩,.nil,?_⟩
      · exact fun b member => (nomatch member)
      · exact fun id member => (nomatch member)
      · intro _
        rw [target_head,consistent.id,empty]
        rfl
    · have undoable := (usable.undoable zero).resolve_left start
      have steps := usable.steps.resolve_left (by rw [last]; exact start)
      have small := steps.1
      rw [last] at small
      have low : last_non_undoable_block_num s = s.objects.head_block_number - s.undo.stack.length := by
        unfold last_non_undoable_block_num minus
        omega
      have covers : Covers E s [] s.objects.applied
          ⟨last_non_undoable_block_num s,s.objects.head_block_number,s.objects.head_block_number,[]⟩ :=
        ⟨List.suffix_rfl,consistent.linked,consistent.number,consistent.number,rfl⟩
      obtain ⟨ids,ran,summary⟩ := summary_of_covers kept injective covers named (.inl rfl)
        (last ▸ consistent.number.symm) (by rw [last]; dsimp only; omega) (last ▸ start) steps enough
      refine ⟨ids,?_,summary⟩
      rw [← ran]
      simp [zero,start]
  · have last : last_number reference s = reference.num := if_neg zero
    have named : target reference s = reference := if_neg zero
    have numbered : 0 < reference.num := known_num kept (known.resolve_left zero)
    have steps := usable.steps.resolve_left (by rw [last]; exact Nat.ne_of_gt numbered)
    have small := steps.1
    rw [last] at small
    rw [if_neg zero]
    rcases span_to_run kept injective numbered (by omega) (usable.current zero) with
      ⟨e,failed,thrown⟩ | ⟨span,branch,base,found,covers,isHead,onFork,low⟩
    · rw [failed]
      exact .inl ⟨e,rfl,thrown⟩
    · have length : (branch ++ base).length = reference.num := by rw [← isHead,headId_num E.digest covers.linked]
      obtain ⟨ids,ran,summary⟩ := summary_of_covers kept injective covers (isHead.trans named.symm) onFork
        (last ▸ length) (last ▸ low) (last ▸ Nat.ne_of_gt numbered) steps enough
      refine .inr ⟨ids,?_,summary⟩
      rw [← ran,found]
      simp [zero]

end

/-- In every run whose calls work on the chain as a whole, the synopsis of a usable reference point is well
    formed, unless an exception is thrown. -/
theorem synopsis_well_formed {E : Env R O} (injective : Function.Injective E.digest) {genesis : Objects R O}
    (isGenesis : Genesis genesis) (checkpoints : List (Nat × BlockId)) {s : Node R O}
    (running : Running E (Whole E) (opened E genesis .empty checkpoints) s) {reference : BlockId}
    (known : reference = .zero ∨ is_known_block E.digest reference s = true) {after : Nat} (usable : Usable reference after s)
    {rounds : Nat} (enough : last_number reference s < rounds) :
    (∃ e, get_blockchain_synopsis E.digest reference after s rounds = some (.error e) ∧ e.Thrown) ∨
      ∃ ids, get_blockchain_synopsis E.digest reference after s rounds = some (.ok ids) ∧ Summary E reference after s ids :=
  get_blockchain_synopsis_run (kept_running injective isGenesis checkpoints running) injective known usable enough

theorem running_pushedOther2 : Running quietEnv (Whole quietEnv) quietStart pushedOther2 := by
  refine .call (s := pushed2) ?_ (.push other2 .nothing) (.inr ⟨run_of_returned (by decide +kernel),fun pops => (nomatch pops)⟩)
  exact .call running_pushed1 (.push block2 .nothing)
    (.inr ⟨run_of_returned (by decide +kernel),fun pops => (nomatch pops)⟩)

theorem synopsis_of_fork :
    (∃ e, get_blockchain_synopsis pairDigest (other2.id pairDigest) 0 pushedOther2 3 = some (.error e) ∧ e.Thrown) ∨
      ∃ ids, get_blockchain_synopsis pairDigest (other2.id pairDigest) 0 pushedOther2 3 = some (.ok ids) ∧
        Summary quietEnv (other2.id pairDigest) 0 pushedOther2 ids := by
  refine synopsis_well_formed pairDigest_injective quietGenesis_isGenesis [] running_pushedOther2
    (.inr (by decide +kernel)) ⟨fun zero => ?_,fun _ => .inl (by decide +kernel),.inr ?_⟩ (by decide +kernel)
  · exact absurd zero (by decide +kernel)
  · unfold Steps
    decide +kernel

/-- A node with one block and one pending transaction. -/
def waiting : Node Unit Unit := endState ((push_transaction quietEnv ⟨⟨0,0,0,[]⟩,[]⟩ .nothing).run pushed1)

/-- With the session of the pending transactions there are more states on the undo stack than blocks. -/
theorem synopsis_out_of_range (rounds : Nat) :
    get_blockchain_synopsis pairDigest .zero 0 waiting (rounds + 1) = some (.error .out_of_range) := by
  have low : last_non_undoable_block_num waiting = 2 ^ 32 - 1 := by decide +kernel
  have head : waiting.objects.head_block_number = 1 := by decide +kernel
  simp [get_blockchain_synopsis,low,head,take_ids,id_for_num]

theorem synopsis_ill_formed :
    ¬ ∀ s, Running quietEnv (Whole quietEnv) quietStart s → ∀ reference,
      reference = .zero ∨ is_known_block pairDigest reference s = true → ∀ after, ∃ rounds,
        (∃ e, get_blockchain_synopsis pairDigest reference after s rounds = some (.error e) ∧ e.Thrown) ∨
          ∃ ids, get_blockchain_synopsis pairDigest reference after s rounds = some (.ok ids) ∧
            Summary quietEnv reference after s ids := by
  intro formed
  obtain ⟨rounds,answer⟩ := formed waiting (.transact running_pushed1 _ .nothing) .zero (.inl rfl) 0
  cases rounds with
  | zero =>
    have unfinished : get_blockchain_synopsis pairDigest .zero 0 waiting 0 = none := by decide +kernel
    rw [unfinished] at answer
    rcases answer with ⟨e,failed,_⟩ | ⟨ids,ran,_⟩
    · cases failed
    · cases ran
  | succ rounds =>
    rw [synopsis_out_of_range] at answer
    rcases answer with ⟨e,failed,thrown⟩ | ⟨ids,ran,_⟩
    · cases failed
      exact thrown
    · cases ran

end Decent.Sync

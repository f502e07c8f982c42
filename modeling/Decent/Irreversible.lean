import Decent.Everywhere

/-!
Blocks that count as irreversible. Nothing in a push looks at the last irreversible
block: a switch pops down to where the branches part. What keeps a block on the chain
is that the fork descends from it, or that the undo history does not reach below it.
-/
namespace Decent.Database
open Decent.ObjectDatabase (Exc)
open Decent.Protocol
open Decent.ForkDatabase (Forks Item Entry Woven Joined)
open Throwing

variable {R O : Type}

/-! ### The undo history -/

/-- The objects, and every state the undo stack can go back to, are built on a chain. -/
def Above (root : List (Block O)) (s : Node R O) : Prop := ∀ o ∈ s.objects :: s.undo.stack, root <:+ o.applied

def StaysAbove (root : List (Block O)) (s s' : Node R O) : Prop := Above root s → Above root s'

/-- `Above` asks the same of every state. -/
def OnChain (root : List (Block O)) (_ : List (Nat × BlockId)) (o : Objects R O) : Prop := root <:+ o.applied

theorem above_iff {root : List (Block O)} {s : Node R O} : Above root s ↔ Everywhere (OnChain root) s := Iff.rfl

theorem above_stays {root : List (Block O)} {s s' : Node R O} : StaysAbove root s s' ↔ Stays (OnChain root) s s' := Iff.rfl

theorem above_still {root : List (Block O)} {s s' : Node R O} (still : Still s s') : StaysAbove root s s' := by
  have carries : Carries (fun a b => SameHead b a) s s' := ⟨still.head,still.stack,still.enabled⟩
  refine above_stays.mpr (stays_of_carries carries still.checkpoints ?_)
  intro c o o' same on
  unfold OnChain
  rw [same.applied]
  exact on

theorem above_apply_block (E : Env R O) (root : List (Block O)) (b : Block O) (skip : Skip) :
    Keeps (StaysAbove root) (apply_block E b skip) := by
  intro s above
  have ends : ∀ s', Quiet s s' ∨ Advanced E b s s' → Above root s' := by
    rintro s' (quiet | ⟨m,before,after⟩)
    · exact above_still quiet.toStill above
    · have middle := above_still before.toStill above
      refine above_still after.toStill (above_iff.mpr (stays_objects (fun on => ?_) (above_iff.mp middle)))
      exact on.trans (List.suffix_cons b _)
  rcases apply_block_cases E b skip s with ⟨s',ran,_,advanced⟩ | ⟨e,s',ran,quiet | ⟨_,advanced⟩⟩
  · rw [ran]; exact ends s' (.inr advanced)
  · rw [ran]; exact ends s' (.inl quiet)
  · rw [ran]; exact ends s' (.inr advanced)

/-! ### Chains and paths -/

section
variable {digest : Header → Nat}

theorem linked_suffix {chain base : List (Block O)} (linked : Linked digest chain) (suffix : base <:+ chain) :
    Linked digest base := by
  induction chain with
  | nil => rw [List.suffix_nil.mp suffix]; trivial
  | cons b rest ih =>
    rcases List.suffix_cons_iff.mp suffix with rfl | inside
    · exact linked
    · exact ih linked.2 inside

/-- A path in the fork database from the head of a chain follows the chain. -/
theorem joined_chain (injective : Function.Injective digest) {path : List (Entry O)} {chain : List (Block O)}
    (joined : Joined digest path) (linked : Linked digest chain)
    (starts : ∀ e ∈ path.head?, e.id digest = headId digest chain) :
    ∀ x ∈ path, ∃ base, base <:+ chain ∧ x.data.previous = headId digest base := by
  induction path generalizing chain with
  | nil => intro x member; cases member
  | cons e rest ih =>
    have named := starts e rfl
    cases chain with
    | nil =>
      have number := congrArg BlockId.num named
      exact absurd number (Nat.succ_ne_zero _)
    | cons b below =>
      have headers : e.data.toHeader = b.toHeader := injective (congrArg BlockId.hash named)
      have parent : e.data.previous = headId digest below := by rw [headers]; exact linked.1
      intro x member
      rcases List.mem_cons.mp member with rfl | member
      · exact ⟨below,List.suffix_cons ..,parent⟩
      cases rest with
      | nil => cases member
      | cons next rest =>
        obtain ⟨base,suffix,previous⟩ := ih joined.2 linked.2 (by
          intro other isNext
          obtain rfl := Option.some.inj isNext
          rw [← joined.1,parent]) x member
        exact ⟨base,suffix.trans (List.suffix_cons ..),previous⟩

/-- A block on a chain is the one the chain has under its number. -/
theorem find_suffix {chain rest : List (Block O)} {b : Block O} (linked : Linked digest chain)
    (suffix : b :: rest <:+ chain) : chain.find? (fun c => c.block_num = b.block_num) = some b := by
  induction chain with
  | nil => cases List.suffix_nil.mp suffix
  | cons c below ih =>
    rcases List.suffix_cons_iff.mp suffix with same | inside
    · cases same
      simp
    · have top : c.block_num = below.length + 1 := by
        show c.previous.num + 1 = _
        rw [linked.1,headId_num digest linked.2]
      have low := num_le_length linked.2 (inside.subset (List.mem_cons_self ..))
      rw [List.find?_cons_of_neg (by simpa using by omega)]
      exact ih linked.2 inside

end

theorem below_suffix {a : Objects R O} {l : List (Objects R O)} (chain : (a :: l).IsChain Below) :
    ∀ o ∈ l, o.applied <:+ a.applied := by
  induction l generalizing a with
  | nil => intro o member; cases member
  | cons b l ih =>
    rw [List.isChain_cons_cons] at chain
    have step : b.applied <:+ a.applied := by
      rcases chain.1 with same | ⟨x,shape⟩
      · rw [same]
      · rw [shape]; exact List.suffix_cons ..
    intro o member
    rcases List.mem_cons.mp member with rfl | member
    · exact step
    · exact (ih chain.2 o member).trans step

/-! ### A switch above a chain -/

section
variable (E : Env R O)

/-- A node between clearing the pending transactions and pushing them again. -/
structure Fit (s : Node R O) : Prop where
  enabled : s.undo.disabled = false
  sound : Sound E.digest s
  closed : s.pending_session = false
  woven : Woven E.digest s.fork_db

theorem Fit.consistent {E : Env R O} {s : Node R O} (fit : Fit E s) : Consistent E.digest s.objects :=
  fit.sound.consistent s.objects (List.mem_cons_self ..)

/-- The applied chain stays on top of a chain. -/
def Stands (base : List (Block O)) (s s' : Node R O) : Prop :=
  Fit E s ∧ base <:+ s.objects.applied → Fit E s' ∧ base <:+ s'.objects.applied

theorem stands_composes (base : List (Block O)) : Composes (Stands E base) :=
  ⟨fun _ => id,fun first second => second ∘ first⟩

variable {E} {base : List (Block O)}

theorem stands_apply_and_store (id : BlockId) (b : Block O) (skip : Skip) :
    Keeps (Stands E base) (apply_and_store E id b skip) := by
  rintro s ⟨fit,on⟩
  have ends : ∀ s', Attempted E id b s s' → Fit E s' ∧ base <:+ s'.objects.applied := by
    intro s' tried
    refine ⟨⟨tried.enabled,tried.sound fit.sound,tried.pending.pending_session.trans fit.closed,
      woven_pruned tried.fork_db fit.woven⟩,?_⟩
    rcases tried.head with same | ⟨_,moved⟩
    · rw [same.applied]; exact on
    · rw [moved.applied]; exact on.trans (List.suffix_cons b _)
  rcases apply_and_store_cases E id b skip fit.enabled with ⟨s',ran,accepted⟩ | ⟨e,s',ran,tried⟩
  · rw [ran]; exact ends s' accepted.toAttempted
  · rw [ran]; exact ends s' tried

/-- A pop above the chain stops at the chain at the latest. -/
theorem pop_block_stands (held : List (Item O)) {s : Node R O} (fit : Fit E s) (on : base <:+ s.objects.applied)
    (above : s.objects.head_block_id ≠ headId E.digest base) :
    Fit E (endState ((pop_block E held).run s)) ∧ base <:+ (endState ((pop_block E held).run s)).objects.applied := by
  rcases pop_block_cases E held s with ⟨s',ran,popped⟩ | ⟨e,s',ran,failed⟩
  · rw [ran]
    refine ⟨⟨popped.enabled,popped.sound fit.sound,popped.pending_session,woven_down popped.fork_db fit.woven⟩,?_⟩
    obtain ⟨rest,top,_⟩ := popped.objects
    obtain ⟨below,_⟩ := below_committed fit.sound (pendingOnTop_closed fit.closed) top
    show base <:+ s'.objects.applied
    rcases below with same | ⟨x,shape⟩
    · rw [same]; exact on
    · rw [shape] at on
      rcases List.suffix_cons_iff.mp on with whole | inside
      · have consistent := fit.consistent
        rw [consistent.id,shape,whole] at above
        exact absurd rfl above
      · exact inside
  · rw [ran]
    have woven : Woven E.digest s'.fork_db := by
      rcases failed.stores with ⟨_,same | down⟩ | ⟨down,_⟩
      · rw [same]; exact fit.woven
      · exact woven_down down fit.woven
      · exact woven_down down fit.woven
    refine ⟨⟨failed.enabled.trans fit.enabled,failed.sound fit.sound,failed.pending_session fit.closed,woven⟩,?_⟩
    show base <:+ s'.objects.applied
    rw [(failed.head (pendingOnTop_closed fit.closed)).applied]
    exact on

theorem stands_pop_until (held : List (Item O)) (fuel : Nat) :
    Keeps (Stands E base) (pop_until E held (headId E.digest base) fuel) := by
  induction fuel with
  | zero => exact keeps_throw (stands_composes E base) _
  | succ fuel ih =>
    rintro s ⟨fit,on⟩
    by_cases there : s.objects.head_block_id = headId E.digest base
    · have stops : (pop_until E held (headId E.digest base) (fuel + 1)).run s = .ok () s := by
        simp [pop_until,there]
      rw [stops]
      exact ⟨fit,on⟩
    · have goes : (pop_until E held (headId E.digest base) (fuel + 1)).run s =
          (do pop_block E held; pop_until E held (headId E.digest base) fuel : Exec R O Unit).run s := by
        simp [pop_until,there]
      have once := pop_block_stands held fit on there
      rw [goes,EStateM.run_bind]
      cases popped : (pop_block E held).run s with
      | error e m => rw [popped] at once; exact once
      | ok _ m =>
        rw [popped] at once
        exact ih m once

theorem stands_pop_to (held : List (Item O)) : Keeps (Stands E base) (pop_to E held (headId E.digest base)) :=
  keeps_bind (stands_composes E base) (keeps_get (stands_composes E base)) fun _ => stands_pop_until held _

theorem stands_pruned {s : Node R O} {F : Forks O} (pruned : Pruned s.fork_db F) :
    Stands E base s { s with fork_db := F } :=
  fun ⟨fit,on⟩ => ⟨⟨fit.enabled,⟨fit.sound.chain,fit.sound.consistent⟩,fit.closed,woven_pruned pruned fit.woven⟩,on⟩

theorem stands_removed (id : BlockId) (s : Node R O) :
    Stands E base s { s with fork_db := ForkDatabase.remove E.digest id s.fork_db } :=
  stands_pruned ⟨rfl,rfl,List.filter_sublist⟩

theorem stands_take_branch (skip : Skip) (b : Block O) (held first second : List (Item O)) {front : Item O}
    (joined : Joined E.digest front.path) :
    Keeps (Stands E base) (take_branch E skip b held first second (headId E.digest base) front) := by
  refine keeps_take_branch E (stands_composes E base) (fun item _ => ?_) fun failed => ?_
  · exact stands_apply_and_store _ item.data skip
  · refine keeps_switch_back E (stands_composes E base) stands_removed ?_ (stands_pop_to held)
      (fun item => stands_apply_and_store _ item.data skip) failed second
    rintro s ⟨fit,on⟩
    refine ⟨⟨fit.enabled,⟨fit.sound.chain,fit.sound.consistent⟩,fit.closed,fit.woven.index,fun item isHead => ?_⟩,on⟩
    obtain rfl := Option.some.inj isHead
    exact joined

theorem stands_extend (b : Block O) (skip : Skip) : Keeps (Stands E base) (extend E b skip) := by
  refine keeps_bind (stands_composes E base) ?_ fun _ => ?_
  · refine keeps_catching (stands_composes E base) (stands_apply_and_store _ b skip) fun e => ?_
    refine keeps_bind (stands_composes E base) ?_ fun _ => keeps_throw (stands_composes E base) e
    exact keeps_onForks (stands_removed _)
  · rintro s ⟨fit,on⟩
    have still := still_with_session (b := pure ()) (fun s => still_composes.refl s) false .merge (.inr fit.enabled)
    have composes : Composes fun s s' : Node R O => s'.pending_session = s.pending_session :=
      ⟨fun _ => rfl,fun first second => second.trans first⟩
    have session := keeps_session_of_ignores composes (fun _ _ _ => rfl) (b := pure ()) (fun _ => rfl) false .merge s
    refine ⟨⟨still.enabled fit.enabled,sound_still still fit.sound,session.trans fit.closed,
      woven_pruned still.fork_db fit.woven⟩,?_⟩
    rw [still.head.applied]
    exact on

/-- A switch whose old branch lies above a chain keeps the chain. -/
theorem switch_forks_stands (injective : Function.Injective E.digest) (skip : Skip) (b : Block O) (new_head : Item O)
    {s : Node R O} {root : List (Block O)} (fit : Fit E s) (on : root <:+ s.objects.applied)
    (spared : ∀ first second, ForkDatabase.fetch_branch_from E.digest (new_head.data.id E.digest)
      s.objects.head_block_id s.fork_db = .ok (first,second) → ∀ item ∈ second, root.length < item.num) :
    Fit E (endState ((switch_forks E skip b new_head).run s)) ∧
      root <:+ (endState ((switch_forks E skip b new_head).run s)).objects.applied := by
  rcases run_switch_forks E skip b new_head s with ⟨e,ran⟩ | ⟨first,second,front,back,fetched,frontIn,backIn,ran⟩
  · rw [ran]; exact ⟨fit,on⟩
  obtain ⟨_,c,_,found,_,seconds,_⟩ := ForkDatabase.fetch_branch_from_ok fetched
  obtain ⟨member,named⟩ := ForkDatabase.find_some found
  have joined := fit.woven.index c member
  have consistent := fit.consistent
  obtain ⟨base,suffix,target⟩ := joined_chain injective joined consistent.linked (by
    intro e isFirst
    obtain rfl := Option.some.inj isFirst
    rw [← consistent.id]
    exact named) back.toEntry ((seconds back backIn).subset (List.mem_cons_self ..))
  have length : base.length + 1 = back.num := by
    rw [← headId_num E.digest (linked_suffix consistent.linked suffix),← target]
    rfl
  have rooted : root <:+ base := by
    refine List.suffix_of_suffix_length_le on suffix ?_
    have := spared first second fetched back backIn
    omega
  rw [ran,target]
  obtain ⟨fit',on'⟩ := keeps_bind (stands_composes E base) (stands_pop_to _)
    (fun _ => stands_take_branch skip b _ first second (ForkDatabase.joined_suffix joined (seconds front frontIn)))
    s ⟨fit,suffix⟩
  exact ⟨fit',rooted.trans on'⟩

/-- The switch that pushing the block leads to, if it does, takes off blocks above the
    number only. -/
def PartsAbove (E : Env R O) (num : Nat) (s : Node R O) (b : Block O) : Prop :=
  ∀ new_head F, ForkDatabase.push_block E.digest b s.fork_db = .ok (new_head,F) →
    new_head.data.previous ≠ s.objects.head_block_id → new_head.num > s.objects.head_block_number →
    ∀ first second, ForkDatabase.fetch_branch_from E.digest (new_head.data.id E.digest) s.objects.head_block_id F =
      .ok (first,second) → ∀ item ∈ second, num < item.num

theorem push_stands (injective : Function.Injective E.digest) {b : Block O} {s : Node R O} {root : List (Block O)}
    (fit : Fit E s) (on : root <:+ s.objects.applied)
    (parts : s.skip_flags.fork_db = false → PartsAbove E root.length s b) :
    Fit E (endState ((_push_block E b).run s)) ∧ root <:+ (endState ((_push_block E b).run s)).objects.applied := by
  cases uses : s.skip_flags.fork_db with
  | true =>
    rw [run_push_block_apart E b uses]
    exact keeps_bind (stands_composes E root) (stands_extend b _) (fun _ => keeps_pure (stands_composes E root) _)
      s ⟨fit,on⟩
  | false =>
    rw [run_push_block E b uses]
    cases pushed : ForkDatabase.push_block E.digest b s.fork_db with
    | error e => exact ⟨fit,on⟩
    | ok result =>
      obtain ⟨new_head,F⟩ := result
      have woven := (ForkDatabase.push_block_ok pushed fit.woven).1
      have forked : Fit E { s with fork_db := F } :=
        ⟨fit.enabled,⟨fit.sound.chain,fit.sound.consistent⟩,fit.closed,woven⟩
      simp only
      split
      · exact keeps_bind (stands_composes E root) (stands_extend b _)
          (fun _ => keeps_pure (stands_composes E root) _) { s with fork_db := F } ⟨forked,on⟩
      next beside =>
      split
      · next above =>
        have switched := switch_forks_stands injective s.skip_flags b new_head (s := { s with fork_db := F }) forked on
          (parts uses new_head F pushed beside above)
        rw [EStateM.run_bind]
        cases ran : (switch_forks E s.skip_flags b new_head).run { s with fork_db := F } with
        | ok _ m => rw [ran] at switched; exact switched
        | error e m => rw [ran] at switched; exact switched
      · exact ⟨forked,on⟩

/-! ### Runs -/

/-- A node between two calls. -/
structure Ready (E : Env R O) (s : Node R O) : Prop where
  enabled : s.undo.disabled = false
  sound : Sound E.digest s
  pending : PendingOnTop s
  woven : Woven E.digest s.fork_db

theorem Ready.consistent {s : Node R O} (ready : Ready E s) : Consistent E.digest s.objects :=
  ready.sound.consistent s.objects (List.mem_cons_self ..)

theorem fit_cleared {s s' : Node R O} (ready : Ready E s) (cleared : Cleared E.digest s s') : Fit E s' :=
  ⟨cleared.enabled.trans ready.enabled,cleared.sound ready.sound,cleared.pending_session,
    cleared.fork_db ▸ ready.woven⟩

/-- The fork that pushing the block makes the longest, if it is not the applied chain,
    descends from the applied block of the number, and the chain goes on above it. -/
def Descends (E : Env R O) (num : Nat) (s : Node R O) (b : Block O) : Prop :=
  ∀ new_head F, ForkDatabase.push_block E.digest b s.fork_db = .ok (new_head,F) →
    new_head.data.previous ≠ s.objects.head_block_id → new_head.num > s.objects.head_block_number →
    num < s.objects.head_block_number ∧
      ∀ c ∈ block_at s.objects num, ∀ item ∈ ForkDatabase.fetch_block E.digest (new_head.id E.digest) F,
        ∃ e ∈ item.path, e.id E.digest = c.id E.digest

/-- What keeps the applied block of the number on the chain: the undo history does not
    reach below it, or the fork descends from it. -/
def Spares (E : Env R O) (num : Nat) (s : Node R O) (b : Block O) (skip : Skip) : Prop :=
  (∀ o ∈ s.undo.stack, num ≤ o.head_block_number) ∨ (skip.fork_db = false → Descends E num s b)

theorem parts_of_descends (injective : Function.Injective E.digest) {b c : Block O} {s : Node R O}
    {rest : List (Block O)} (fit : Fit E s) (on : c :: rest <:+ s.objects.applied)
    (descends : Descends E c.block_num s b) : PartsAbove E c.block_num s b := by
  intro new_head F pushed beside above first second fetched
  have consistent := fit.consistent
  have woven := (ForkDatabase.push_block_ok pushed fit.woven).1
  have there : block_at s.objects c.block_num = some c := find_suffix consistent.linked on
  obtain ⟨low,through⟩ := descends new_head F pushed beside above
  obtain ⟨a,d,foundFirst,foundSecond,_⟩ := ForkDatabase.fetch_branch_from_ok fetched
  obtain ⟨aMember,aNamed⟩ := ForkDatabase.find_some foundFirst
  obtain ⟨dMember,dNamed⟩ := ForkDatabase.find_some foundSecond
  obtain ⟨e,inside,eNamed⟩ := through c there a foundFirst
  have aNum : a.num = new_head.num := congrArg BlockId.num aNamed
  have dNum : d.num = s.objects.head_block_number := by
    rw [consistent.number,← headId_num E.digest consistent.linked,← consistent.id,← dNamed]
    rfl
  have eNum : e.num = c.block_num := congrArg BlockId.num eNamed
  refine ForkDatabase.fetch_branch_above (c.id E.digest) woven foundFirst foundSecond (by omega)
    (by rw [id_num,dNum]; exact low) (fun x member near => ?_) (fun x member near => ?_) fetched
  · rw [← eNamed]
    refine ForkDatabase.joined_parent (woven.index a aMember) member inside ?_
    rw [near,eNum]
    rfl
  · -- The path of the old head follows the applied chain, which has `c` under its number.
    obtain ⟨base,suffix,previous⟩ := joined_chain injective (woven.index d dMember) consistent.linked (by
      intro y isFirst
      obtain rfl := Option.some.inj isFirst
      rw [← consistent.id]
      exact dNamed) x member
    have length : base.length = (c :: rest).length := by
      rw [← headId_num E.digest (linked_suffix consistent.linked suffix),← previous,
        ← headId_num E.digest (linked_suffix consistent.linked on)]
      show x.data.previous.num = c.block_num
      have step : x.data.previous.num + 1 = x.num := rfl
      rw [id_num] at near
      omega
    have same : base = c :: rest :=
      (List.suffix_of_suffix_length_le suffix on (le_of_eq length)).eq_of_length length
    rw [previous,same]
    rfl

/-- A push, however it ends, leaves a node ready for the next, and keeps a block that
    is spared on the chain. -/
theorem push_block_spares (injective : Function.Injective E.digest) (b : Block O) (skip : Skip) {s : Node R O}
    (ready : Ready E s) :
    Ready E (endState ((push_block E b skip).run s)) ∧
      ∀ c rest, c :: rest <:+ s.objects.applied → Spares E c.block_num s b skip →
        c :: rest <:+ (endState ((push_block E b skip).run s)).objects.applied := by
  rcases push_block_ends E b skip s with same | ⟨s1,ran,ends⟩
  · rw [same]
    exact ⟨⟨ready.enabled,⟨ready.sound.chain,ready.sound.consistent⟩,ready.pending,ready.woven⟩,fun _ _ on _ => on⟩
  rcases clear_pending_cases E.digest { s with skip_flags := skip } with ⟨e,_,failed,_⟩ | ⟨s1',ok,cleared⟩
  · rw [ran] at failed; cases failed
  rw [ran] at ok
  cases ok
  have begins : Ready E { s with skip_flags := skip } :=
    ⟨ready.enabled,⟨ready.sound.chain,ready.sound.consistent⟩,ready.pending,ready.woven⟩
  have fit := fit_cleared begins cleared
  have head : SameHead s1.objects s.objects := cleared.head ready.pending
  -- With no chain to keep, a switch may go down as far as it likes.
  have fit2 : Fit E (endState ((_push_block E b).run s1)) :=
    (push_stands injective fit (List.nil_suffix) fun _ _ _ _ _ _ _ _ _ item _ => block_num_pos item.data).1
  obtain ⟨still,pending⟩ := shelves_restore_pending E s.pending_tx _ fit2.enabled
  rw [ends]
  refine ⟨⟨still.enabled fit2.enabled,?_,pending (pendingOnTop_closed fit2.closed),
    woven_pruned still.fork_db fit2.woven⟩,fun c rest on spares => ?_⟩
  · have kept := sound_still still fit2.sound
    exact ⟨kept.chain,kept.consistent⟩
  show c :: rest <:+ _
  rw [still.head.applied]
  have on1 : c :: rest <:+ s1.objects.applied := by rw [head.applied]; exact on
  have number : (c :: rest).length = c.block_num := by
    rw [← headId_num E.digest (linked_suffix ready.consistent.linked on)]
    rfl
  rcases spares with high | descends
  · have above : Above (c :: rest) s := by
      intro o member
      rcases List.mem_cons.mp member with rfl | member
      · exact on
      · refine List.suffix_of_suffix_length_le on (below_suffix ready.sound.chain o member) ?_
        rw [number,← (ready.sound.consistent o (List.mem_cons_of_mem _ member)).number]
        exact high o member
    have above1 : Above (c :: rest) s1 := by
      have kept := stays_reset_pending_session { s with skip_flags := skip, pending_tx := [] } (above_iff.mp above)
      have unfolds : (clear_pending : Exec R O Unit).run { s with skip_flags := skip } =
          (reset_pending_session : Exec R O Unit).run { s with skip_flags := skip, pending_tx := [] } := rfl
      rw [← unfolds,ran] at kept
      exact kept
    have applied : ∀ b, Keeps (Stays (OnChain (c :: rest))) (apply_block E b s1.skip_flags) :=
      fun b => above_apply_block E (c :: rest) b s1.skip_flags
    exact (stays_push E applied b rfl (above_iff.mp above1)).objects
  · refine (push_stands injective fit on1 fun uses => ?_).2
    rw [number]
    refine parts_of_descends injective fit on1 ?_
    have whole := descends (by rw [← show _ = skip from cleared.skip_flags]; exact uses)
    unfold Descends block_at at whole ⊢
    rw [cleared.fork_db,head.head_block_id,head.head_block_number,head.applied]
    exact whole

/-- The nodes of a run of pushes, the latest first. A push may throw. -/
inductive Run (E : Env R O) (C : List (Node R O) → Node R O → Block O → Skip → Prop) (first : Node R O) :
    List (Node R O) → Prop
  | start : Run E C first [first]
  | push {s : Node R O} {earlier : List (Node R O)} (b : Block O) (skip : Skip) : Run E C first (s :: earlier) →
      C (s :: earlier) s b skip → Run E C first (endState ((push_block E b skip).run s) :: s :: earlier)

/-- A block that was irreversible at one node of a run has its number at all later ones. -/
def Irreversible (nodes : List (Node R O)) : Prop :=
  nodes.Pairwise fun later s => ∀ c, block_at s.objects s.objects.last_irreversible_block_num = some c →
    block_at later.objects s.objects.last_irreversible_block_num = some c

/-- The push spares the irreversible blocks of all nodes so far. -/
def SparesIrreversible (E : Env R O) (nodes : List (Node R O)) (s : Node R O) (b : Block O) (skip : Skip) : Prop :=
  ∀ u ∈ nodes, Spares E u.objects.last_irreversible_block_num s b skip

theorem chain_of_block_at {o : Objects R O} {num : Nat} {c : Block O} (found : block_at o num = some c) :
    ∃ rest, c :: rest <:+ o.applied := by
  obtain ⟨above,rest,shape⟩ := List.append_of_mem (block_at_some found).1
  exact ⟨rest,above,shape.symm⟩

theorem irreversible_run (injective : Function.Injective E.digest) {genesis : Objects R O}
    (isGenesis : Genesis genesis) (checkpoints : List (Nat × BlockId)) {nodes : List (Node R O)}
    (ran : Run E (SparesIrreversible E) (opened E genesis .empty checkpoints) nodes) : Irreversible nodes := by
  have whole : (∀ s ∈ nodes.head?, Ready E s) ∧ Irreversible nodes := by
    induction ran with
    | start =>
      refine ⟨fun s isFirst => ?_,List.pairwise_singleton ..⟩
      obtain rfl := Option.some.inj isFirst
      have agree : Agree E (opened E genesis .empty checkpoints) := agree_opened isGenesis checkpoints
      exact ⟨agree.enabled,agree.sound,agree.pending,agree.woven⟩
    | @push s earlier b skip _ spares ih =>
      obtain ⟨readies,kept⟩ := ih
      have ready := readies s rfl
      obtain ⟨ready',keeps⟩ := push_block_spares injective b skip ready
      refine ⟨fun t isFirst => ?_,List.pairwise_cons.mpr ⟨fun u member c irreversible => ?_,kept⟩⟩
      · obtain rfl := Option.some.inj isFirst
        exact ready'
      -- The block is still on the chain before the push, whichever node had it first.
      have before : block_at s.objects u.objects.last_irreversible_block_num = some c := by
        rcases List.mem_cons.mp member with rfl | earlier
        · exact irreversible
        · exact (List.pairwise_cons.mp kept).1 u earlier c irreversible
      have number := (block_at_some before).2
      obtain ⟨rest,on⟩ := chain_of_block_at before
      have spared := spares u member
      rw [← number] at spared ⊢
      exact find_suffix ready'.consistent.linked (keeps c rest on spared)
  exact whole.2

end

/-! ### Runs of a single miner -/

theorem endState_call (E : Env R O) (b : Block O) (skip : Skip) (s : Node R O) :
    endState ((call E (.push b skip)).run s) = endState ((push_block E b skip).run s) := by
  simp only [call,EStateM.run_bind]
  cases (push_block E b skip).run s <;> rfl

/-- A block on top of the head leads to no switch. -/
theorem spares_of_extending {E : Env R O} {num : Nat} {s : Node R O} {b : Block O} {skip : Skip}
    (extends' : ∀ result, ForkDatabase.push_block E.digest b s.fork_db = .ok result →
      result.1.data.previous = s.objects.head_block_id) : Spares E num s b skip :=
  .inr fun _ new_head F pushed beside _ => absurd (extends' (new_head,F) pushed) beside

theorem irreversible_two_blocks : Irreversible [pushed2,pushed1,quietStart] := by
  refine irreversible_run pairDigest_injective quietGenesis_isGenesis [] (E := quietEnv) ?_
  unfold pushed2
  rw [endState_call]
  refine .push block2 .nothing ?_ fun u _ => spares_of_extending fun result pushed => ?_
  · unfold pushed1
    rw [endState_call]
    refine .push block1 .nothing .start fun u _ => .inl fun o member => ?_
    cases member
  · have onTop : (ForkDatabase.push_block quietEnv.digest block2 pushed1.fork_db).toOption.map
        (fun result => result.1.data.previous) = some pushed1.objects.head_block_id := by decide +kernel
    rw [pushed] at onTop
    exact Option.some.inj onTop

/-- Block two is irreversible, and a fork that parts below it takes it off the chain. -/
theorem irreversible_reverted :
    ¬ ∀ nodes, Run quietEnv (fun _ _ _ _ => True) quietStart nodes → Irreversible nodes := by
  intro irreversible
  have ran : Run quietEnv (fun _ _ _ _ => True) quietStart [switched,pushedOther2,pushed2,pushed1,quietStart] := by
    unfold switched
    rw [endState_call]
    refine .push other3 .nothing ?_ trivial
    unfold pushedOther2
    rw [endState_call]
    refine .push other2 .nothing ?_ trivial
    unfold pushed2
    rw [endState_call]
    refine .push block2 .nothing ?_ trivial
    unfold pushed1
    rw [endState_call]
    exact .push block1 .nothing .start trivial
  have kept := (List.pairwise_cons.mp (irreversible _ ran)).1 pushed2 (by simp)
  have number : pushed2.objects.last_irreversible_block_num = 2 := by decide +kernel
  have before : (block_at pushed2.objects 2).map (fun b => b.timestamp) = some 2 := by decide +kernel
  have after : (block_at switched.objects 2).map (fun b => b.timestamp) = some 3 := by decide +kernel
  rw [number] at kept
  cases found : block_at pushed2.objects 2 with
  | none => rw [found] at before; cases before
  | some c =>
    rw [kept c found] at after
    rw [found] at before
    cases before.symm.trans after

end Decent.Database

import Decent.Pending
import Mathlib.Data.Nat.Pairing

/-!
The three stores agree as long as no push switches forks: the head of the fork
database is the head of the objects, and the block database has the applied chain
under its numbers. A switch pops the old branch through `pop_block`, which moves the
head of the fork database down the new branch, and nothing moves it up again.
-/
namespace Decent.Database
open Decent.ObjectDatabase (Exc)
open Decent.Protocol
open Decent.ForkDatabase (Forks Item Woven)
open Decent.BlockDatabase (fetch_by_number)
open Throwing

variable {R O : Type}

/-! ### Numbers on a chain -/

theorem num_le_length {digest : Header → Nat} {chain : List (Block O)} (linked : Linked digest chain) {b : Block O}
    (member : b ∈ chain) : b.block_num ≤ chain.length := by
  induction chain with
  | nil => cases member
  | cons a rest ih =>
    have top : a.block_num = rest.length + 1 := by
      show a.previous.num + 1 = _
      rw [linked.1,headId_num digest linked.2]
    rcases List.mem_cons.mp member with rfl | inside
    · simp [top]
    · have := ih linked.2 inside
      simp only [List.length_cons]
      omega

/-- The block with a number on the applied chain. -/
def block_at (o : Objects R O) (num : Nat) : Option (Block O) := o.applied.find? fun b => b.block_num = num

theorem exists_block_num {digest : Header → Nat} {chain : List (Block O)} (linked : Linked digest chain) {n : Nat}
    (positive : 1 ≤ n) (bounded : n ≤ chain.length) : ∃ b ∈ chain, b.block_num = n := by
  induction chain with
  | nil => simp only [List.length_nil] at bounded; omega
  | cons a rest ih =>
    have top : a.block_num = rest.length + 1 := by
      show a.previous.num + 1 = _
      rw [linked.1,headId_num digest linked.2]
    by_cases last : n = rest.length + 1
    · exact ⟨a,List.mem_cons_self ..,by rw [top,last]⟩
    · simp only [List.length_cons] at bounded
      obtain ⟨b,member,num⟩ := ih linked.2 (by omega)
      exact ⟨b,List.mem_cons_of_mem _ member,num⟩

theorem block_at_some {o : Objects R O} {n : Nat} {b : Block O} (found : block_at o n = some b) :
    b ∈ o.applied ∧ b.block_num = n :=
  ⟨List.mem_of_find?_eq_some found,by simpa using List.find?_some found⟩

theorem block_at_isSome {digest : Header → Nat} {o : Objects R O} (consistent : Consistent digest o) {n : Nat}
    (positive : 1 ≤ n) (bounded : n ≤ o.head_block_number) : ∃ b, block_at o n = some b := by
  rw [consistent.number] at bounded
  obtain ⟨b,member,num⟩ := exists_block_num consistent.linked positive bounded
  apply Option.isSome_iff_exists.mp
  rw [block_at,List.find?_isSome]
  exact ⟨b,member,by simpa using num⟩

/-! ### Agreement -/

variable (E : Env R O)

/-- The fork database's head is the head block, and the block database maps every
    number up to the head to the block of that number on the applied chain. -/
structure Agreement (s : Node R O) : Prop where
  fork_head : s.objects.head_block_number ≠ 0 →
    ∃ item, s.fork_db.head = some item ∧ item.id E.digest = s.objects.head_block_id
  blocks : ∀ n, 1 ≤ n → n ≤ s.objects.head_block_number →
    ∃ b, block_at s.objects n = some b ∧ fetch_by_number E.digest n s.block_db = some b

/-- The agreement with what keeps it going. -/
structure Agree (s : Node R O) : Prop where
  enabled : s.undo.disabled = false
  sound : Sound E.digest s
  pending : PendingOnTop s
  woven : Woven E.digest s.fork_db
  fork_head : ∀ item ∈ s.fork_db.head, item.id E.digest = s.objects.head_block_id
  no_head : s.fork_db.head = none → s.objects.applied = []
  blocks : ∀ b ∈ s.objects.applied, fetch_by_number E.digest b.block_num s.block_db = some b

variable {E}

theorem Agree.consistent {s : Node R O} (agree : Agree E s) : Consistent E.digest s.objects :=
  agree.sound.consistent s.objects (List.mem_cons_self ..)

theorem agreement_of_agree {s : Node R O} (agree : Agree E s) : Agreement E s where
  fork_head headed := by
    cases top : s.fork_db.head with
    | none =>
      have empty := agree.no_head top
      rw [agree.consistent.number,empty] at headed
      exact absurd rfl headed
    | some item => exact ⟨item,rfl,agree.fork_head item top⟩
  blocks n positive bounded := by
    obtain ⟨b,found⟩ := block_at_isSome agree.consistent positive bounded
    obtain ⟨member,num⟩ := block_at_some found
    exact ⟨b,found,num ▸ agree.blocks b member⟩

theorem woven_pruned {F F' : Forks O} (pruned : Pruned F F') (woven : Woven E.digest F) : Woven E.digest F' :=
  ⟨fun item member => woven.index item (pruned.index.subset member),fun item isHead => woven.head item (pruned.head ▸ isHead)⟩

theorem agree_still {s s' : Node R O} (still : Still s s') (pending : PendingOnTop s') (agree : Agree E s) :
    Agree E s' where
  enabled := still.enabled agree.enabled
  sound := sound_still still agree.sound
  pending := pending
  woven := woven_pruned still.fork_db agree.woven
  fork_head item isHead := by
    rw [still.head.head_block_id]
    exact agree.fork_head item (still.fork_db.head ▸ isHead)
  no_head none := by
    rw [still.head.applied]
    exact agree.no_head (still.fork_db.head ▸ none)
  blocks := by
    rw [still.head.applied,still.block_db]
    exact agree.blocks

theorem agree_cleared {s s' : Node R O} (cleared : Cleared E.digest s s') (agree : Agree E s) : Agree E s' where
  enabled := cleared.enabled.trans agree.enabled
  sound := cleared.sound agree.sound
  pending := by
    intro opened
    rw [cleared.pending_session] at opened
    cases opened
  woven := cleared.fork_db ▸ agree.woven
  fork_head := by
    rw [cleared.fork_db,(cleared.head agree.pending).head_block_id]
    exact agree.fork_head
  no_head := by
    rw [cleared.fork_db,(cleared.head agree.pending).applied]
    exact agree.no_head
  blocks := by
    rw [cleared.block_db,(cleared.head agree.pending).applied]
    exact agree.blocks

theorem agree_flags {s : Node R O} (flags : Skip) (agree : Agree E s) : Agree E { s with skip_flags := flags } :=
  ⟨agree.enabled,⟨agree.sound.chain,agree.sound.consistent⟩,agree.pending,agree.woven,agree.fork_head,agree.no_head,
    agree.blocks⟩

/-! ### Pushing -/

/-- `extend` returns only if the block was applied and stored. -/
theorem extend_stored {b : Block O} {skip : Skip} {s s' : Node R O} (ran : (extend E b skip).run s = .ok () s') :
    ∃ m, (apply_and_store E (b.id E.digest) b skip).run s = .ok () m ∧
      (with_session false .merge (pure ()) : Exec R O Unit).run m = .ok () s' := by
  obtain ⟨⟨⟩,m,caught,closed⟩ := run_bind_ok.mp ran
  refine ⟨m,?_,closed⟩
  rw [catching,run_tryCatch] at caught
  cases result : (apply_and_store E (b.id E.digest) b skip).run s with
  | ok a m' =>
    rw [result] at caught
    exact caught
  | error e m' =>
    rw [result] at caught
    simp only at caught
    split at caught
    · obtain ⟨⟨⟩,_,_,thrown⟩ := run_bind_ok.mp caught
      cases thrown
    · cases caught

/-- What `extend` did when it returns. -/
theorem extend_ok {b : Block O} {skip : Skip} {s s' : Node R O} (on : s.undo.disabled = false)
    (ran : (extend E b skip).run s = .ok () s') :
    ∃ m, Accepted E (b.id E.digest) b s m ∧ Still m s' ∧ SamePending m s' := by
  obtain ⟨m,stored,closed⟩ := extend_stored ran
  have accepted : Accepted E (b.id E.digest) b s m := by
    rcases apply_and_store_cases E (b.id E.digest) b skip on with ⟨m',ok,accepted⟩ | ⟨e,m',failed,_⟩
    · rw [stored] at ok
      cases ok
      exact accepted
    · rw [stored] at failed
      cases failed
  have still := still_with_session (b := pure ()) (fun s => still_composes.refl s) false .merge
    (.inr accepted.enabled)
  have session := keeps_session_of_ignores pending_composes (fun _ _ _ => ⟨rfl,rfl,rfl,rfl⟩) (b := pure ())
    (fun s => pending_composes.refl s) false .merge m
  rw [closed] at still session
  exact ⟨m,accepted,still,session⟩

/-- The head of the fork database has the number of the head block. -/
theorem Agree.head_num {s : Node R O} (agree : Agree E s) {item : Item O} (isHead : s.fork_db.head = some item) :
    item.num = s.objects.head_block_number := by
  have sameId := agree.fork_head item isHead
  have number : (item.id E.digest).num = item.num := rfl
  rw [← number,sameId,agree.consistent.id,headId_num E.digest agree.consistent.linked,agree.consistent.number]

private theorem agree_extended {b : Block O} {s m : Node R O} {item : Item O} (sound : Sound E.digest s)
    (blocks : ∀ c ∈ s.objects.applied, fetch_by_number E.digest c.block_num s.block_db = some c)
    (woven : Woven E.digest m.fork_db) (pending : PendingOnTop m) (accepted : Accepted E (b.id E.digest) b s m)
    (isHead : m.fork_db.head = some item) (data : item.data = b) : Agree E m where
  enabled := accepted.enabled
  sound := accepted.sound sound
  pending := pending
  woven := woven
  fork_head other top := by
    rw [isHead] at top
    obtain rfl := Option.some.inj top
    rw [accepted.moved.head_block_id]
    show item.data.id E.digest = b.id E.digest
    rw [data]
  no_head absent := by rw [isHead] at absent; cases absent
  blocks c member := by
    have consistent := sound.consistent s.objects (List.mem_cons_self ..)
    rw [accepted.moved.applied] at member
    have given : b.id E.digest ≠ .zero := by
      intro zero
      exact absurd (congrArg BlockId.num zero) (Nat.succ_ne_zero _)
    have top : b.block_num = s.objects.applied.length + 1 := by
      show b.previous.num + 1 = _
      rw [accepted.onTop,consistent.id,headId_num E.digest consistent.linked]
    rw [accepted.stored]
    rcases List.mem_cons.mp member with rfl | inside
    · exact BlockDatabase.fetch_by_number_store_same _ given
    · refine BlockDatabase.fetch_by_number_store_other given ?_ (blocks c inside)
      have below := num_le_length consistent.linked inside
      rw [id_num]
      omega

private theorem agree_forked {s : Node R O} {F : Forks O} {head : Item O} (agree : Agree E s)
    (woven : Woven E.digest F) (top : F.head = some head) (old : s.fork_db.head = some head) :
    Agree E { s with fork_db := F } :=
  ⟨agree.enabled,⟨agree.sound.chain,agree.sound.consistent⟩,agree.pending,woven,
    fun item isHead => agree.fork_head item (by rw [old,← top]; exact isHead),
    (fun absent => by cases top.symm.trans absent),agree.blocks⟩

/-- A push of a block that extends the head, or is not above it, records the block or
    puts it on the chain. -/
theorem calm_push {b : Block O} {s s' : Node R O} {switched : Bool} (agree : Agree E s)
    (uses : s.skip_flags.fork_db = false)
    (calm : b.previous = s.objects.head_block_id ∨ b.block_num ≤ s.objects.head_block_number)
    (ran : (_push_block E b).run s = .ok switched s') :
    ∃ new_head F, Woven E.digest F ∧ (∀ i ∈ F.index, i ∈ s.fork_db.index ∨ i.data = b) ∧ F.head = some new_head ∧
      (s.fork_db.head = some new_head ∧ b.block_num ≤ s.objects.head_block_number ∧ s' = { s with fork_db := F } ∨
        new_head.data = b ∧ ∃ m, Accepted E (b.id E.digest) b { s with fork_db := F } m ∧ Still m s' ∧
          SamePending m s') := by
  rw [run_push_block E b uses] at ran
  cases pushed : ForkDatabase.push_block E.digest b s.fork_db with
  | error e => simp [pushed] at ran
  | ok result =>
    obtain ⟨new_head,F⟩ := result
    obtain ⟨woven,items,isHead,position⟩ := ForkDatabase.push_block_ok pushed agree.woven
    refine ⟨new_head,F,woven,items,isHead,?_⟩
    simp only [pushed] at ran
    have number : ∀ c : Block O, c.previous = s.objects.head_block_id →
        c.block_num = s.objects.head_block_number + 1 := by
      intro c onTop
      show c.previous.num + 1 = _
      rw [onTop,agree.consistent.id,headId_num E.digest agree.consistent.linked,agree.consistent.number]
    rcases position with ⟨higher,data,_⟩ | ⟨old,lower⟩
    · -- The new item is above the head of the fork database, so it extends the head.
      have onTop : new_head.data.previous = s.objects.head_block_id := by
        rw [data]
        rcases calm with onTop | low
        · exact onTop
        exfalso
        cases top : s.fork_db.head with
        | none =>
          rw [agree.consistent.number,agree.no_head top,List.length_nil] at low
          have := block_num_pos b
          omega
        | some head =>
          have above := higher head top
          rw [agree.head_num top] at above
          omega
      rw [if_pos onTop] at ran
      obtain ⟨⟨⟩,s2,extended,done⟩ := run_bind_ok.mp ran
      cases done
      exact .inr ⟨data,extend_ok (s := { s with fork_db := F }) agree.enabled extended⟩
    · -- The head of the fork database stays, and it is neither above nor on top of the head.
      have headNum := agree.head_num old
      have notOnTop : new_head.data.previous ≠ s.objects.head_block_id := by
        intro onTop
        have above := number new_head.data onTop
        have same : new_head.num = new_head.data.block_num := rfl
        omega
      rw [if_neg notOnTop,if_neg (by omega)] at ran
      cases ran
      exact .inl ⟨old,by omega,rfl⟩

theorem pendingOnTop_closed {s : Node R O} (closed : s.pending_session = false) : PendingOnTop s := by
  intro opened
  rw [closed] at opened
  cases opened

private theorem agree_push_core {b : Block O} {s s' : Node R O} {switched : Bool} (agree : Agree E s)
    (closed : s.pending_session = false) (uses : s.skip_flags.fork_db = false)
    (calm : b.previous = s.objects.head_block_id ∨ b.block_num ≤ s.objects.head_block_number)
    (ran : (_push_block E b).run s = .ok switched s') : Agree E s' := by
  obtain ⟨new_head,F,woven,_,isHead,recorded | extended⟩ := calm_push agree uses calm ran
  · obtain ⟨old,_,rfl⟩ := recorded
    exact agree_forked agree woven isHead old
  · obtain ⟨data,m,accepted,still,session⟩ := extended
    have shut : m.pending_session = false := accepted.pending.pending_session.trans closed
    have moved : Agree E m := by
      refine agree_extended (s := { s with fork_db := F }) ⟨agree.sound.chain,agree.sound.consistent⟩ agree.blocks
        (woven_pruned accepted.fork_db woven) (pendingOnTop_closed shut) accepted ?_ data
      rw [accepted.fork_db.head]
      exact isHead
    exact agree_still still (pendingOnTop_closed (session.pending_session.trans shut)) moved

/-- A push that returns, without what it does to the pending transactions. -/
theorem push_between {b : Block O} {skip : Skip} {s s' : Node R O} {switched : Bool} (agree : Agree E s)
    (ran : (push_block E b skip).run s = .ok switched s') :
    ∃ s1 s2, Agree E s1 ∧ Cleared E.digest { s with skip_flags := skip } s1 ∧
      (_push_block E b).run s1 = .ok switched s2 ∧
      (s2.undo.disabled = false → Still s2 s' ∧ (PendingOnTop s2 → PendingOnTop s')) := by
  obtain ⟨s1,s2,s3,cleared,pushed,restored,rfl⟩ := push_block_ok E ran
  rcases clear_pending_cases E.digest { s with skip_flags := skip } with ⟨e,_,failed,_⟩ | ⟨s1',ok,gone⟩
  · rw [cleared] at failed; cases failed
  rw [cleared] at ok
  cases ok
  refine ⟨s1,s2,agree_cleared gone (agree_flags skip agree),gone,pushed,fun on => ?_⟩
  obtain ⟨still,pending⟩ := shelves_restore_pending E s.pending_tx s2 on
  rw [restored] at still pending
  exact ⟨⟨still.head,still.stack,still.enabled,still.fork_db,still.block_db,still.checkpoints⟩,pending⟩

theorem agree_push {b : Block O} {skip : Skip} {s s' : Node R O} {switched : Bool} (agree : Agree E s)
    (uses : skip.fork_db = false)
    (calm : b.previous = s.objects.head_block_id ∨ b.block_num ≤ s.objects.head_block_number)
    (ran : (push_block E b skip).run s = .ok switched s') : Agree E s' := by
  obtain ⟨s1,s2,agree1,gone,pushed,restored⟩ := push_between agree ran
  have head := gone.head agree.pending
  have agree2 : Agree E s2 := by
    refine agree_push_core agree1 gone.pending_session (by rw [gone.skip_flags]; exact uses) ?_ pushed
    rw [head.head_block_id,head.head_block_number]
    exact calm
  obtain ⟨still,pending⟩ := restored agree2.enabled
  exact agree_still still (pending agree2.pending) agree2

/-! ### Popping -/

/-- Ids are told apart by their digests. -/
theorem previous_of_id (injective : Function.Injective E.digest) {a b : Block O}
    (same : a.id E.digest = b.id E.digest) : a.previous = b.previous := by
  have headers : a.toHeader = b.toHeader := injective (congrArg BlockId.hash same)
  rw [headers]

theorem below_committed {digest : Header → Nat} {s : Node R O} (sound : Sound digest s) (pending : PendingOnTop s)
    {x : Objects R O} {rest : List (Objects R O)} (top : committed_stack s = x :: rest) :
    Below s.objects x ∧ Consistent digest x := by
  have chain := sound.chain
  unfold committed_stack at top
  split at top
  · next y ys opened shape =>
    rw [shape,List.isChain_cons_cons] at chain
    have near : SameHead y s.objects := pending opened y (by rw [shape]; rfl)
    split at top
    · cases top
      exact ⟨chain.1,sound.consistent x (by rw [shape]; simp)⟩
    · subst top
      refine ⟨?_,sound.consistent x (by rw [shape]; simp)⟩
      have step := (List.isChain_cons_cons.mp chain.2).1
      unfold Below at step ⊢
      rwa [near.applied] at step
  · rw [top,List.isChain_cons_cons] at chain
    exact ⟨chain.1,sound.consistent x (by rw [top]; simp)⟩

theorem woven_down {held : List (Item O)} {F F' : Forks O} (down : HeadDown held F F') (woven : Woven E.digest F) :
    Woven E.digest F' := by
  obtain ⟨head,prev,isHead,locked,rfl⟩ := down
  refine ⟨woven.index,fun item isNew => ?_⟩
  obtain rfl := Option.some.inj isNew
  exact (ForkDatabase.joined_prev locked (woven.head head isHead)).2

theorem agree_pop (injective : Function.Injective E.digest) {s s' : Node R O} (agree : Agree E s)
    (undoable : ∃ x ∈ (committed_stack s).head?, x.head_block_number + 1 = s.objects.head_block_number)
    (ran : (pop_block E []).run s = .ok () s') : Agree E s' := by
  rcases pop_block_cases E [] s with ⟨_,ok,popped⟩ | ⟨e,_,failed,_⟩
  swap
  · rw [ran] at failed; cases failed
  rw [ran] at ok
  cases ok
  obtain ⟨x,isTop,number⟩ := undoable
  obtain ⟨rest,top,_⟩ := popped.objects
  obtain rfl : s'.objects = x := by rw [top] at isTop; simpa using isTop
  obtain ⟨below,consistent⟩ := below_committed agree.sound agree.pending top
  obtain ⟨b,chain⟩ : ∃ b, s.objects.applied = b :: s'.objects.applied := by
    rcases below with same | step
    · rw [agree.consistent.number,consistent.number,same] at number
      omega
    · exact step
  have linked : b.previous = headId E.digest s'.objects.applied ∧ Linked E.digest s'.objects.applied := by
    have whole := agree.consistent.linked
    rw [chain] at whole
    exact whole
  have headIs : s.objects.head_block_id = b.id E.digest := by rw [agree.consistent.id,chain]; rfl
  obtain ⟨head,prev,isHead,locked,forked⟩ := popped.fork_db
  have prevId := (ForkDatabase.joined_prev locked (agree.woven.head head isHead)).1
  have names : head.data.previous = b.previous := by
    refine previous_of_id injective (a := head.data) ?_
    rw [← headIs]
    exact agree.fork_head head isHead
  refine ⟨popped.enabled,popped.sound agree.sound,?_,?_,?_,?_,?_⟩
  · intro opened
    rw [popped.pending_session] at opened
    cases opened
  · exact woven_down popped.fork_db agree.woven
  · intro item isNew
    rw [forked] at isNew
    obtain rfl := Option.some.inj isNew
    rw [prevId,names,linked.1,consistent.id]
  · intro absent
    rw [forked] at absent
    cases absent
  · intro c member
    obtain ⟨id,isHead,gone⟩ := popped.block_db
    have low := num_le_length linked.2 member
    rw [BlockDatabase.fetch_by_number_remove_other ?_ gone]
    · exact agree.blocks c (by rw [chain]; exact List.mem_cons_of_mem _ member)
    · rw [isHead agree.pending,agree.consistent.id,headId_num E.digest agree.consistent.linked,chain,List.length_cons]
      omega

/-! ### Runs -/

/-- A call of the database. -/
inductive Call (O : Type)
  | push (b : Block O) (skip : Skip)
  | pop

def call (E : Env R O) : Call O → Exec R O Unit
  | .push b skip => do let _ ← push_block E b skip
  | .pop => pop_block E []

theorem call_push_ok {E : Env R O} {b : Block O} {skip : Skip} {s s' : Node R O}
    (ran : (call E (.push b skip)).run s = .ok () s') : ∃ switched, (push_block E b skip).run s = .ok switched s' := by
  obtain ⟨switched,_,pushed,done⟩ := run_bind_ok.mp ran
  cases done
  exact ⟨switched,pushed⟩

/-- The push does not skip the fork database. -/
def UsesForkDatabase : Call O → Prop
  | .push _ skip => skip.fork_db = false
  | .pop => True

/-- The call leaves forks alone: a pushed block extends the head or is not above it,
    and a popped block has its undo state on top of the stack. -/
def StaysOnFork (s : Node R O) : Call O → Prop
  | .push b _ => b.previous = s.objects.head_block_id ∨ b.block_num ≤ s.objects.head_block_number
  | .pop => ∃ x ∈ (committed_stack s).head?, x.head_block_number + 1 = s.objects.head_block_number

/-- The nodes reached by calls that meet a condition and return. -/
inductive Reached (E : Env R O) (C : Node R O → Call O → Prop) (start : Node R O) : Node R O → Prop
  | start : Reached E C start start
  | step {s s' : Node R O} (c : Call O) : Reached E C start s → C s c → (call E c).run s = .ok () s' →
      Reached E C start s'

/-- The objects before the first block. -/
structure Genesis (o : Objects R O) : Prop where
  applied : o.applied = []
  head_block_id : o.head_block_id = .zero
  head_block_number : o.head_block_number = 0

/-- The objects after each block of a run of applied blocks, the latest first. Between
    two blocks the node around the objects may change in any way. -/
inductive Chain (E : Env R O) (genesis : Objects R O) : List (Objects R O) → Prop
  | genesis : Chain E genesis [genesis]
  | block {s s' : Node R O} {earlier : List (Objects R O)} (b : Block O) (skip : Skip) :
      Chain E genesis (s.objects :: earlier) → (apply_block E b skip).run s = .ok () s' →
      Chain E genesis (s'.objects :: s.objects :: earlier)

theorem agree_opened {genesis : Objects R O} (isGenesis : Genesis genesis) (checkpoints : List (Nat × BlockId)) :
    Agree E (opened E genesis .empty checkpoints) := by
  have consistent : Consistent E.digest genesis := by
    refine ⟨?_,?_,?_⟩
    · rw [isGenesis.head_block_id,isGenesis.applied]; rfl
    · rw [isGenesis.head_block_number,isGenesis.applied]; rfl
    · rw [isGenesis.applied]; trivial
  refine ⟨rfl,⟨List.isChain_singleton _,?_⟩,(fun opened => by cases opened),⟨?_,?_⟩,?_,fun _ => isGenesis.applied,?_⟩
  · intro o member
    rcases List.mem_cons.mp member with rfl | inside
    · exact consistent
    · cases inside
  · intro item member; cases member
  · intro item member; cases member
  · intro item member; cases member
  · intro b member
    have inside : b ∈ genesis.applied := member
    rw [isGenesis.applied] at inside
    cases inside

/-- The stores agree after every call of a run that starts at genesis and never
    switches forks. -/
theorem agreement_without_switch (injective : Function.Injective E.digest) {genesis : Objects R O}
    (isGenesis : Genesis genesis) (checkpoints : List (Nat × BlockId)) {s : Node R O}
    (reached : Reached E (fun s c => UsesForkDatabase c ∧ StaysOnFork s c) (opened E genesis .empty checkpoints) s) :
    Agreement E s := by
  apply agreement_of_agree
  induction reached with
  | start => exact agree_opened isGenesis checkpoints
  | step c _ meets ran ih =>
    cases c with
    | push b skip =>
      obtain ⟨_,pushed⟩ := call_push_ok ran
      exact agree_push ih meets.1 meets.2 pushed
    | pop => exact agree_pop injective ih meets.2 ran

/-! ### A switch -/

/-- A digest that tells headers apart. -/
def pairDigest (h : Header) : Nat :=
  Nat.pair h.previous.num (Nat.pair h.previous.hash (Nat.pair h.timestamp (Nat.pair h.miner
    (Nat.pair h.transaction_merkle_root h.miner_signature))))

theorem pairDigest_injective : Function.Injective pairDigest := by
  rintro ⟨⟨num,hash⟩,timestamp,miner,root,signature⟩ ⟨⟨num',hash'⟩,timestamp',miner',root',signature'⟩ same
  simp only [pairDigest,Nat.pair_eq_pair] at same
  obtain ⟨rfl,rfl,rfl,rfl,rfl,rfl⟩ := same
  rfl

/-- An environment with one miner, one kind of content, and no evaluators. -/
def quietEnv : Env Unit Unit where
  digest := pairDigest
  validate_signee _ _ := true
  trx_hash trx := trx.expiration
  merkle_root _ := 0
  prefix_of id := id.hash
  validate _ := .ok ()
  verify_authority _ _ := .ok ()
  required_authorities _ := (∅,∅,false)
  is_authorized_to_execute _ _ := false
  maximum_time_until_expiration _ := 86400
  maximum_proposal_lifetime _ := 86400
  miner_proposal_review_period _ := 0
  content _ _ := some ⟨1000000,some 0⟩
  verify_by_miner _ _ := true
  evaluate _ _ _ _ := .ok ()
  pay_fee _ _ := pure ()
  do_apply _ _ _ := pure ()
  charge_fee _ _ := pure ()
  temp_account_empty _ := true
  scheduled_miner _ _ _ := some 0
  update_slots _ _ _ := pure ()
  pay_miner _ _ _ := pure ()
  perform_chain_maintenance _ := pure ()
  finish_block _ _ := pure ()
  depth := 8

def quietGenesis : Objects Unit Unit where
  head_block_number := 0
  head_block_id := .zero
  time := 0
  last_irreversible_block_num := 0
  world := ⟨fun id => if id = 0 then some ⟨7,0⟩ else none,[0],1000000,()⟩
  proposals := []
  next_proposal := 0
  transactions := []
  next_transaction := 0
  block_summary _ := .zero
  applied := []

theorem quietGenesis_isGenesis : Genesis quietGenesis := ⟨rfl,rfl,rfl⟩

def quietStart : Node Unit Unit := opened quietEnv quietGenesis .empty []

/-- An empty block. -/
def emptyBlock (previous : BlockId) (timestamp : Nat) : Block Unit := ⟨⟨previous,timestamp,0,0,0⟩,[]⟩

def block1 : Block Unit := emptyBlock .zero 1
def block2 : Block Unit := emptyBlock (block1.id pairDigest) 2
/-- A second block of number two, and a third on top of it. -/
def other2 : Block Unit := emptyBlock (block1.id pairDigest) 3
def other3 : Block Unit := emptyBlock (other2.id pairDigest) 4

def pushed1 : Node Unit Unit := endState ((call quietEnv (.push block1 .nothing)).run quietStart)
def pushed2 : Node Unit Unit := endState ((call quietEnv (.push block2 .nothing)).run pushed1)
def pushedOther2 : Node Unit Unit := endState ((call quietEnv (.push other2 .nothing)).run pushed2)
def switched : Node Unit Unit := endState ((call quietEnv (.push other3 .nothing)).run pushedOther2)

theorem agreement_two_blocks : Agreement quietEnv pushed2 := by
  refine agreement_without_switch pairDigest_injective quietGenesis_isGenesis [] ?_
  refine .step (s := pushed1) (.push block2 .nothing) ?_ ⟨rfl,.inl (by decide +kernel)⟩
    (run_of_returned (by decide +kernel))
  exact .step (.push block1 .nothing) .start ⟨rfl,.inl rfl⟩ (run_of_returned (by decide +kernel))

/-- After the switch to the longer fork the head of the fork database stands one
    block below the head. -/
theorem agreement_lost :
    ¬ ∀ s, Reached quietEnv (fun _ c => UsesForkDatabase c) quietStart s → Agreement quietEnv s := by
  intro agreement
  have reached : Reached quietEnv (fun _ c => UsesForkDatabase c) quietStart switched := by
    refine .step (s := pushedOther2) (.push other3 .nothing) ?_ rfl (run_of_returned (by decide +kernel))
    refine .step (s := pushed2) (.push other2 .nothing) ?_ rfl (run_of_returned (by decide +kernel))
    refine .step (s := pushed1) (.push block2 .nothing) ?_ rfl (run_of_returned (by decide +kernel))
    exact .step (.push block1 .nothing) .start rfl (run_of_returned (by decide +kernel))
  obtain ⟨item,isHead,named⟩ := (agreement switched reached).fork_head (by decide +kernel)
  have stands : switched.fork_db.head.map (fun i => i.id quietEnv.digest) = some (other2.id pairDigest) := by
    decide +kernel
  rw [isHead,Option.map_some,Option.some.injEq,named] at stands
  exact absurd stands (by decide +kernel)

end Decent.Database

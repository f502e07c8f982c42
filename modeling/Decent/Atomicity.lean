import Decent.Agreement

/-!
Pushes that throw. A block that the fork database turns away changes nothing. Any
other failure leaves a trace: the head of the fork database stays on the new branch,
or, after the way back from a failed switch, the block database has lost the entry
of the old head, since the way back stores every block under the id of the pushed one.
-/
namespace Decent.Database
open Decent.ObjectDatabase (Exc)
open Decent.Protocol
open Decent.ForkDatabase (Forks Item Entry Woven Joined)
open Decent.BlockDatabase (fetch_by_number Lacks)
open Throwing

variable {R O : Type} (E : Env R O)

/-- The node is what it was, as far as the objects, the blocks up to the head and the
    head of the fork database go. -/
structure Atomic (before after : Node R O) : Prop where
  objects : after.objects = before.objects
  blocks : ∀ n, 1 ≤ n → n ≤ before.objects.head_block_number →
    fetch_by_number E.digest n after.block_db = fetch_by_number E.digest n before.block_db
  fork_head : after.fork_db.head.map (fun item => item.id E.digest) =
    before.fork_db.head.map fun item => item.id E.digest

/-- The fork database turns the block away: it is too old, or its parent is unknown. -/
def Rejected (b : Block O) (s : Node R O) : Prop := ∃ e, ForkDatabase.push_block E.digest b s.fork_db = .error e

theorem atomic_of_rejected {b : Block O} {before after : Node R O} {e : Exc}
    (uses : before.skip_flags.fork_db = false) (threw : (_push_block E b).run before = .error e after)
    (rejected : Rejected E b before) : Atomic E before after := by
  obtain ⟨e',turned⟩ := rejected
  rw [run_push_block E b uses,turned] at threw
  cases threw
  exact ⟨rfl,fun _ _ _ => rfl,rfl⟩

/-! ### The stores while a block is applied -/

/-- What applying a block leaves alone outside the objects. -/
structure SameStores (s s' : Node R O) : Prop where
  block_db : s'.block_db = s.block_db
  head : s'.fork_db.head = s.fork_db.head

theorem sameStores_apply_block (b : Block O) (skip : Skip) : Keeps SameStores (apply_block E b skip) := by
  intro s
  have ends : ∀ s', Quiet s s' ∨ Advanced E b s s' → SameStores s s' := by
    rintro s' (quiet | ⟨m,before,after⟩)
    · exact ⟨quiet.block_db,quiet.fork_db.head⟩
    · exact ⟨after.block_db.trans before.block_db,after.fork_db.head.trans before.fork_db.head⟩
  rcases apply_block_cases E b skip s with ⟨s',ran,_,advanced⟩ | ⟨e,s',ran,quiet | ⟨_,advanced⟩⟩
  · rw [ran]; exact ends s' (.inr advanced)
  · rw [ran]; exact ends s' (.inl quiet)
  · rw [ran]; exact ends s' (.inr advanced)

/-- The head of the fork database stays. -/
def SameForkHead (s s' : Node R O) : Prop := s'.fork_db.head = s.fork_db.head

omit E in
theorem sameForkHead_composes : Composes (SameForkHead (R := R) (O := O)) :=
  ⟨fun _ => rfl,fun first second => second.trans first⟩

theorem sameForkHead_apply_and_store (id : BlockId) (b : Block O) (skip : Skip) :
    Keeps SameForkHead (apply_and_store E id b skip) := by
  refine keeps_session_of_ignores sameForkHead_composes (fun _ _ _ => rfl) ?_ false .commit
  refine keeps_bind sameForkHead_composes (fun s => (sameStores_apply_block E b skip s).head) fun _ => ?_
  exact fun s => rfl

theorem sameForkHead_extend (b : Block O) (skip : Skip) : Keeps SameForkHead (extend E b skip) := by
  refine keeps_bind sameForkHead_composes ?_ fun _ => ?_
  · refine keeps_catching sameForkHead_composes (sameForkHead_apply_and_store E _ b skip) fun e => ?_
    exact keeps_bind sameForkHead_composes (fun s => rfl) fun _ => keeps_throw sameForkHead_composes e
  · exact keeps_session_of_ignores sameForkHead_composes (fun _ _ _ => rfl) (b := pure ()) (fun _ => rfl) false .merge

/-- The head of the fork database stays on a path. -/
def OnPath (path : List (Entry O)) (s : Node R O) : Prop :=
  ∃ item, s.fork_db.head = some item ∧ item.path <:+ path

def KeepsPath (path : List (Entry O)) (s s' : Node R O) : Prop := OnPath path s → OnPath path s'

omit E in
theorem keepsPath_composes (path : List (Entry O)) : Composes (KeepsPath (R := R) path) :=
  ⟨fun _ => id,fun first second => second ∘ first⟩

theorem keepsPath_pop_block (path : List (Entry O)) (held : List (Item O)) :
    Keeps (KeepsPath path) (pop_block E held) := by
  intro s onPath
  have down : ∀ F, HeadDown held s.fork_db F → ∃ item, F.head = some item ∧ item.path <:+ path := by
    rintro F ⟨head,prev,isHead,locked,rfl⟩
    obtain ⟨item,same,suffix⟩ := onPath
    rw [isHead] at same
    cases same
    refine ⟨prev,rfl,?_⟩
    rw [← ForkDatabase.lock_some locked]
    exact (List.suffix_cons ..).trans suffix
  rcases pop_block_cases E held s with ⟨s',ran,popped⟩ | ⟨e,s',ran,failed⟩
  · rw [ran]
    exact down _ popped.fork_db
  · rw [ran]
    rcases failed.stores with ⟨_,same | moved⟩ | ⟨moved,_⟩
    · unfold OnPath
      rw [show (endState (.error e s' : EStateM.Result Exc (Node R O) Unit)).fork_db = s.fork_db from same]
      exact onPath
    · exact down _ moved
    · exact down _ moved

/-- The block database has no entry for the id, and gets none. -/
def StaysOut (id : BlockId) (s s' : Node R O) : Prop := Lacks id s.block_db → Lacks id s'.block_db

omit E in
theorem staysOut_composes (id : BlockId) : Composes (StaysOut (R := R) (O := O) id) :=
  ⟨fun _ => fun lacks => lacks,fun first second => second ∘ first⟩

theorem staysOut_pop_block (id : BlockId) (held : List (Item O)) : Keeps (StaysOut id) (pop_block E held) := by
  intro s lacks
  have down : ∀ B, EntryDown s B → Lacks id B := by
    rintro B ⟨gone,_,removed⟩
    exact BlockDatabase.lacks_remove removed lacks
  rcases pop_block_cases E held s with ⟨s',ran,popped⟩ | ⟨e,s',ran,failed⟩
  · rw [ran]
    exact down _ popped.block_db
  · rw [ran]
    rcases failed.stores with ⟨same,_⟩ | ⟨_,gone⟩
    · show Lacks id s'.block_db
      rw [same]
      exact lacks
    · exact down _ gone

section
variable {P : Node R O → Node R O → Prop}

omit E in
theorem keeps_onForks {f : Forks O → Forks O} (step : ∀ s : Node R O, P s { s with fork_db := f s.fork_db }) :
    Keeps P (onForks fun F => .ok (f F) : Exec R O Unit) := step

theorem keeps_pop_until (composes : Composes P) (held : List (Item O)) (inner : Keeps P (pop_block E held))
    (target : BlockId) (fuel : Nat) : Keeps P (pop_until E held target fuel) := by
  induction fuel with
  | zero => exact keeps_throw composes _
  | succ fuel ih =>
    refine keeps_bind composes (keeps_get composes) fun s => ?_
    exact keeps_ite (keeps_bind composes inner fun _ => ih) (keeps_pure composes ())

theorem keeps_pop_to (composes : Composes P) (held : List (Item O)) (inner : Keeps P (pop_block E held))
    (target : BlockId) : Keeps P (pop_to E held target) :=
  keeps_bind composes (keeps_get composes) fun _ => keeps_pop_until E composes held inner target _

theorem keeps_push_branch (composes : Composes P) (skip : Skip) (branch : List (Item O))
    (inner : ∀ item ∈ branch, Keeps P (apply_and_store E (item.id E.digest) item.data skip)) :
    Keeps P (push_branch E skip branch) := by
  induction branch with
  | nil => exact keeps_pure composes none
  | cons item rest ih =>
    refine keeps_bind composes ?_ fun failure => ?_
    · refine keeps_catching composes ?_ fun e => keeps_pure composes _
      exact keeps_bind composes (inner item (List.mem_cons_self ..)) fun _ => keeps_pure composes none
    · cases failure with
      | none => exact ih fun other member => inner other (List.mem_cons_of_mem _ member)
      | some e => exact keeps_pure composes _

theorem keeps_switch_back (composes : Composes P) {skip : Skip} {b : Block O} {held : List (Item O)}
    {target : BlockId} {front : Item O}
    (dropped : ∀ id (s : Node R O), P s { s with fork_db := ForkDatabase.remove E.digest id s.fork_db })
    (headed : ∀ s : Node R O, P s { s with fork_db := ForkDatabase.set_head front s.fork_db })
    (popped : Keeps P (pop_to E held target))
    (stored : ∀ item : Item O, Keeps P (apply_and_store E (b.id E.digest) item.data skip))
    (failed second : List (Item O)) : Keeps P (switch_back E skip b held failed second target front) := by
  refine keeps_bind composes (keeps_each composes (fun item => ?_) _) fun _ => ?_
  · exact keeps_onForks (dropped _)
  refine keeps_bind composes (keeps_onForks headed) fun _ => ?_
  exact keeps_bind composes popped fun _ => keeps_each composes stored _

theorem keeps_take_branch (composes : Composes P) {skip : Skip} {b : Block O} {held first second : List (Item O)}
    {target : BlockId} {front : Item O}
    (pushed : ∀ item ∈ first, Keeps P (apply_and_store E (item.id E.digest) item.data skip))
    (back : ∀ failed, Keeps P (switch_back E skip b held failed second target front)) :
    Keeps P (take_branch E skip b held first second target front) := by
  refine keeps_bind composes ?_ fun failure => ?_
  · exact keeps_push_branch E composes skip _ fun item member => pushed item (List.mem_reverse.mp member)
  · cases failure with
    | none => exact keeps_pure composes ()
    | some failure => exact keeps_bind composes (back _) fun _ => keeps_throw composes _

section
variable (composes : Composes P) (forks : ∀ (s : Node R O) (F : Forks O), P s { s with fork_db := F })
include composes forks

theorem keeps_extend {skip : Skip} (stored : ∀ c d : Block O, Keeps P (apply_and_store E (c.id E.digest) d skip))
    (merged : Keeps P (with_session false .merge (pure ()))) (b : Block O) : Keeps P (extend E b skip) := by
  refine keeps_bind composes ?_ fun _ => merged
  refine keeps_catching composes (stored b b) fun e => ?_
  exact keeps_bind composes (keeps_onForks fun s => forks s _) fun _ => keeps_throw composes e

theorem keeps_switch_forks {skip : Skip} (stored : ∀ c d : Block O, Keeps P (apply_and_store E (c.id E.digest) d skip))
    (popped : ∀ held, Keeps P (pop_block E held)) (b : Block O) (new_head : Item O) :
    Keeps P (switch_forks E skip b new_head) := by
  intro s
  rcases run_switch_forks E skip b new_head s with ⟨e,ran⟩ | ⟨first,second,front,back,_,_,_,ran⟩
  · rw [ran]
    exact composes.refl s
  rw [ran]
  have down (target : BlockId) : Keeps P (pop_to E (new_head :: first ++ second) target) :=
    keeps_pop_to E composes _ (popped _) target
  refine keeps_bind composes (down _) (fun _ => ?_) s
  refine keeps_take_branch E composes (fun item _ => stored item.data item.data) fun failed => ?_
  exact keeps_switch_back E composes (fun _ s => forks s _) (fun s => forks s _) (down _)
    (fun item => stored b item.data) failed second

/-- What does not look at the fork database is kept by a push, if applying, popping and merging keep it. -/
theorem keeps_push {b : Block O} {s : Node R O}
    (stored : ∀ c d : Block O, Keeps P (apply_and_store E (c.id E.digest) d s.skip_flags))
    (merged : Keeps P (with_session false .merge (pure ()))) (popped : ∀ held, Keeps P (pop_block E held)) :
    P s (endState ((_push_block E b).run s)) := by
  have onTop : Keeps P (do extend E b s.skip_flags; pure false : Exec R O Bool) :=
    keeps_bind composes (keeps_extend E composes forks stored merged b) fun _ => keeps_pure composes _
  cases uses : s.skip_flags.fork_db with
  | true =>
    rw [run_push_block_apart E b uses]
    exact onTop s
  | false =>
    rw [run_push_block E b uses]
    cases ForkDatabase.push_block E.digest b s.fork_db with
    | error e => exact composes.refl s
    | ok result =>
      obtain ⟨new_head,F⟩ := result
      simp only
      split
      · exact composes.trans (forks s F) (onTop _)
      split
      · refine composes.trans (forks s F) (keeps_bind composes ?_ (fun _ => keeps_pure composes _) _)
        exact keeps_switch_forks E composes forks stored popped b new_head
      · exact forks s F

end

end

theorem staysOut_apply_and_store {id stored : BlockId} (given : stored ≠ .zero) (other : stored ≠ id) (b : Block O)
    (skip : Skip) : Keeps (StaysOut id) (apply_and_store E stored b skip) := by
  refine keeps_session_of_ignores (staysOut_composes id) (fun _ _ _ => fun lacks => lacks) ?_ false .commit
  refine keeps_bind (staysOut_composes id) (fun s lacks => ?_) fun _ => fun s lacks => ?_
  · rw [(sameStores_apply_block E b skip s).block_db]
    exact lacks
  · exact BlockDatabase.lacks_store given other lacks

theorem id_ne_zero (b : Block O) : b.id E.digest ≠ .zero := by
  intro zero
  have number := congrArg BlockId.num zero
  have positive := block_num_pos b
  rw [id_num] at number
  exact absurd number (Nat.ne_of_gt positive)

/-! ### Failures after the fork database took the block -/

/-- A node whose stores agree and whose forks are not above the head. -/
structure Settled (s : Node R O) : Prop where
  agree : Agree E s
  bounded : ∀ item ∈ s.fork_db.index, item.num ≤ s.objects.head_block_number

variable {E}

theorem Settled.head_num {s : Node R O} (settled : Settled E s) :
    s.objects.head_block_id.num = s.objects.head_block_number := by
  have consistent := settled.agree.consistent
  rw [consistent.id,headId_num E.digest consistent.linked,consistent.number]

/-- The head of the fork database moved off the head block. -/
theorem not_atomic_of_head {before after : Node R O} (settled : Settled E before) {item : Item O}
    (isHead : after.fork_db.head = some item) (other : item.id E.digest ≠ before.objects.head_block_id) :
    ¬ Atomic E before after := by
  intro atomic
  have same := atomic.fork_head
  rw [isHead] at same
  cases top : before.fork_db.head with
  | none => rw [top] at same; cases same
  | some head =>
    rw [top,Option.map_some,Option.map_some,Option.some.injEq] at same
    exact other (same.trans (settled.agree.fork_head head top))

/-- The head block lost its entry. -/
theorem not_atomic_of_lacks {before after : Node R O} (settled : Settled E before)
    (headed : before.objects.head_block_number ≠ 0) (lacks : Lacks before.objects.head_block_id after.block_db) :
    ¬ Atomic E before after := by
  intro atomic
  have consistent := settled.agree.consistent
  cases chain : before.objects.applied with
  | nil => rw [consistent.number,chain] at headed; exact headed rfl
  | cons b rest =>
    have headIs : before.objects.head_block_id = b.id E.digest := by rw [consistent.id,chain]; rfl
    have number : b.block_num = before.objects.head_block_number := by
      rw [← settled.head_num,headIs,id_num]
    have found := settled.agree.blocks b (by rw [chain]; exact List.mem_cons_self ..)
    have kept := atomic.blocks b.block_num (block_num_pos b) (by omega)
    rw [headIs] at lacks
    exact BlockDatabase.lacks_fetch lacks (kept.trans found)

/-- A switch takes at least one block off the chain, and with it the entry of the old
    head. -/
theorem lacks_of_pop_to {held : List (Item O)} {target : BlockId} {s s' : Node R O} (pending : PendingOnTop s)
    (above : s.objects.head_block_id ≠ target) (ran : (pop_to E held target).run s = .ok () s') :
    Lacks s.objects.head_block_id s'.block_db := by
  have unfolds : (pop_to E held target).run s =
      (do pop_block E held; pop_until E held target (s.undo.stack.length + 1) : Exec R O Unit).run s := by
    simp [pop_to,pop_until,above]
  rw [unfolds] at ran
  obtain ⟨⟨⟩,m,popped,rest⟩ := run_bind_ok.mp ran
  rcases pop_block_cases E held s with ⟨_,ok,down⟩ | ⟨e,_,failed,_⟩
  swap
  · rw [popped] at failed; cases failed
  rw [popped] at ok
  cases ok
  obtain ⟨id,isHead,removed⟩ := down.block_db
  rw [isHead pending] at removed
  have kept := keeps_pop_until E (staysOut_composes s.objects.head_block_id) held
    (staysOut_pop_block E _ held) target (s.undo.stack.length + 1) m
  rw [rest] at kept
  exact kept (BlockDatabase.lacks_removed removed)

/-- A block above the head of the fork database that does not extend the head: its
    parent is in the fork database, at the number of the head. -/
private theorem link_beside {b : Block O} {s : Node R O} {links : List (Entry O)} (settled : Settled E s)
    (linked : ForkDatabase.link E.digest b s.fork_db = .ok links)
    (higher : ∀ head ∈ s.fork_db.head, b.block_num > head.num) (headed : s.objects.head_block_number ≠ 0) :
    b.block_num = s.objects.head_block_number + 1 := by
  cases top : s.fork_db.head with
  | none =>
    rw [settled.agree.consistent.number,settled.agree.no_head top] at headed
    exact absurd rfl headed
  | some head =>
    have above := higher head top
    rw [settled.agree.head_num top] at above
    unfold ForkDatabase.link at linked
    by_cases root : b.previous = .zero
    · have first : b.block_num = 1 := by
        show b.previous.num + 1 = 1
        rw [root]
        rfl
      omega
    · rw [if_pos ⟨by rw [top]; rfl,root⟩] at linked
      split at linked
      · next parent found =>
        obtain ⟨member,named⟩ := ForkDatabase.find_some found
        have low := settled.bounded parent member
        have step : b.block_num = parent.num + 1 := by
          show b.previous.num + 1 = _
          rw [← named]
          rfl
        omega
      · cases linked

/-- A block above the head of the fork database is above the head. -/
private theorem above_head {b : Block O} {s : Node R O} (settled : Settled E s)
    (higher : ∀ head ∈ s.fork_db.head, b.block_num > head.num) : b.block_num > s.objects.head_block_number := by
  cases top : s.fork_db.head with
  | none =>
    rw [settled.agree.consistent.number,settled.agree.no_head top]
    exact block_num_pos b
  | some head =>
    have above := higher head top
    rwa [settled.agree.head_num top] at above

/-- The branches of a switch, seen from the old head: the new branch does not pass
    through it, and the old branch ends below it. -/
private theorem branches_beside {b : Block O} {s : Node R O} {F : Forks O} {new_head : Item O}
    {first second : List (Item O)} (settled : Settled E s)
    (pushed : ForkDatabase.push_block E.digest b s.fork_db = .ok (new_head,F)) (data : new_head.data = b)
    (higher : ∀ head ∈ s.fork_db.head, b.block_num > head.num)
    (linked : ForkDatabase.link E.digest b s.fork_db = .ok new_head.links)
    (beside : b.previous ≠ s.objects.head_block_id)
    (fetched : ForkDatabase.fetch_branch_from E.digest (new_head.data.id E.digest) s.objects.head_block_id F =
      .ok (first,second)) :
    s.objects.head_block_number ≠ 0 ∧ (∀ x : Entry O, x ∈ new_head.path → x.id E.digest ≠ s.objects.head_block_id) ∧
      (∀ item ∈ first, item.id E.digest ≠ s.objects.head_block_id) ∧
      ∀ item ∈ second, s.objects.head_block_id ≠ item.data.previous := by
  obtain ⟨woven,items,isHead,_⟩ := ForkDatabase.push_block_ok pushed settled.agree.woven
  have headNum := settled.head_num
  obtain ⟨a,c,foundFirst,foundSecond,firsts,seconds,_⟩ := ForkDatabase.fetch_branch_from_ok fetched
  obtain ⟨aMember,aNamed⟩ := ForkDatabase.find_some foundFirst
  obtain ⟨cMember,cNamed⟩ := ForkDatabase.find_some foundSecond
  have cNum : c.num = s.objects.head_block_number := by
    rw [← headNum,← cNamed]
    rfl
  have headed : s.objects.head_block_number ≠ 0 := by
    rw [← cNum]
    exact Nat.ne_of_gt (block_num_pos c.data)
  have above : b.block_num = s.objects.head_block_number + 1 := link_beside settled linked higher headed
  have aData : a.data = b := by
    rcases items a aMember with old | new
    · have low := settled.bounded a old
      have number : a.num = new_head.num := congrArg BlockId.num aNamed
      have shown : new_head.num = b.block_num := by rw [← data]; rfl
      omega
    · exact new
  have avoids : ∀ item : Item O, item.data = b → Joined E.digest item.path → ∀ x : Entry O, x ∈ item.path →
      x.id E.digest ≠ s.objects.head_block_id := by
    intro item isBlock joined x member
    refine ForkDatabase.joined_avoids joined ?_ ?_ member
    · rw [isBlock]; exact beside
    · rw [headNum,← above,← isBlock]; rfl
  refine ⟨headed,avoids new_head data (woven.head new_head isHead),fun item member => ?_,fun item member same => ?_⟩
  · exact avoids a aData (woven.index a aMember) item.toEntry ((firsts item member).subset (List.mem_cons_self ..))
  · have number := congrArg BlockId.num same
    have step : item.data.previous.num + 1 = item.num := rfl
    have low : item.num ≤ c.num := by
      have inside : item.toEntry ∈ c.path := (seconds item member).subset (List.mem_cons_self ..)
      rcases List.mem_cons.mp inside with same | below
      · rw [same]
      · exact Nat.le_of_lt (ForkDatabase.joined_num (woven.index c cMember) below)
    omega

theorem staysOut_take_branch {id : BlockId} {b : Block O} (other : b.id E.digest ≠ id) (skip : Skip)
    {first : List (Item O)} (others : ∀ item ∈ first, item.id E.digest ≠ id) (held second : List (Item O))
    (target : BlockId) (front : Item O) :
    Keeps (StaysOut id) (take_branch E skip b held first second target front) := by
  refine keeps_take_branch E (staysOut_composes id) (fun item member => ?_) fun failed => ?_
  · exact staysOut_apply_and_store E (id_ne_zero E item.data) (others item member) item.data skip
  · refine keeps_switch_back E (staysOut_composes id) (fun _ _ lacks => lacks) (fun _ lacks => lacks) ?_
      (fun item => ?_) failed second
    · exact keeps_pop_to E (staysOut_composes id) held (staysOut_pop_block E id held) target
    · exact staysOut_apply_and_store E (id_ne_zero E b) other item.data skip

/-- A switch that throws leaves the head of the fork database on the new branch, or
    the old head without its entry. -/
private theorem switch_not_atomic {b : Block O} {skip : Skip} {s : Node R O} {F : Forks O} {new_head : Item O}
    (settled : Settled E s) (closed : s.pending_session = false)
    (pushed : ForkDatabase.push_block E.digest b s.fork_db = .ok (new_head,F)) (data : new_head.data = b)
    (higher : ∀ head ∈ s.fork_db.head, b.block_num > head.num)
    (linked : ForkDatabase.link E.digest b s.fork_db = .ok new_head.links)
    (beside : b.previous ≠ s.objects.head_block_id) {e : Exc} {s' : Node R O}
    (threw : (switch_forks E skip b new_head).run { s with fork_db := F } = .error e s') :
    ¬ Atomic E s s' := by
  obtain ⟨_,_,isHead,_⟩ := ForkDatabase.push_block_ok pushed settled.agree.woven
  have shown : new_head.id E.digest = b.id E.digest := by rw [← data]; rfl
  have bOther : b.id E.digest ≠ s.objects.head_block_id := by
    intro same
    have number := congrArg BlockId.num same
    rw [settled.head_num,id_num] at number
    exact absurd number (Nat.ne_of_gt (above_head settled higher))
  rcases run_switch_forks E skip b new_head { s with fork_db := F } with
    ⟨x,ran⟩ | ⟨first,second,front,back,fetched,_,member,ran⟩
  · rw [ran] at threw
    cases threw
    exact not_atomic_of_head settled isHead (shown ▸ bOther)
  obtain ⟨headed,newAvoids,avoids,target⟩ :=
    branches_beside settled pushed data higher linked beside fetched
  rw [ran,EStateM.run_bind] at threw
  cases popped : (pop_to E (new_head :: first ++ second) back.data.previous).run { s with fork_db := F } with
  | error x m =>
    rw [popped] at threw
    cases threw
    have onPath := keeps_pop_to E (keepsPath_composes new_head.path) (new_head :: first ++ second)
      (keepsPath_pop_block E new_head.path _) back.data.previous { s with fork_db := F }
      ⟨new_head,isHead,List.suffix_rfl⟩
    rw [popped] at onPath
    obtain ⟨item,itemHead,suffix⟩ := onPath
    exact not_atomic_of_head settled itemHead (newAvoids item.toEntry (suffix.subset (List.mem_cons_self ..)))
  | ok _ m =>
    have lacks : Lacks s.objects.head_block_id m.block_db :=
      lacks_of_pop_to (s := { s with fork_db := F }) (pendingOnTop_closed closed) (target back member) popped
    have kept := staysOut_take_branch bOther skip avoids (new_head :: first ++ second) second back.data.previous
      front m lacks
    simp only [popped] at threw
    rw [threw] at kept
    exact not_atomic_of_lacks settled headed kept

/-- A push that throws after the fork database took the block leaves a trace. -/
theorem not_atomic_of_taken {b : Block O} {before after : Node R O} {e : Exc} (settled : Settled E before)
    (closed : before.pending_session = false) (uses : before.skip_flags.fork_db = false)
    (threw : (_push_block E b).run before = .error e after) (taken : ¬ Rejected E b before) :
    ¬ Atomic E before after := by
  rw [run_push_block E b uses] at threw
  cases pushed : ForkDatabase.push_block E.digest b before.fork_db with
  | error x => exact absurd ⟨x,pushed⟩ taken
  | ok result =>
    obtain ⟨new_head,F⟩ := result
    obtain ⟨_,_,isHead,position⟩ := ForkDatabase.push_block_ok pushed settled.agree.woven
    simp only [pushed] at threw
    rcases position with ⟨higher,data,linked⟩ | ⟨old,_⟩
    · by_cases onTop : new_head.data.previous = before.objects.head_block_id
      · -- The block extends the head, and the head of the fork database stays on it.
        rw [if_pos onTop,EStateM.run_bind] at threw
        have kept := sameForkHead_extend E b before.skip_flags { before with fork_db := F }
        cases ran : (extend E b before.skip_flags).run { before with fork_db := F } with
        | ok _ m => simp only [ran] at threw; cases threw
        | error x m =>
          simp only [ran] at threw
          cases threw
          rw [ran] at kept
          refine not_atomic_of_head settled (kept.trans isHead) ?_
          rw [← onTop]
          exact id_ne_previous E.digest new_head.data
      · have above : new_head.num > before.objects.head_block_number := by
          have := above_head settled higher
          rw [← data] at this
          exact this
        rw [if_neg onTop,if_pos above,EStateM.run_bind] at threw
        cases ran : (switch_forks E before.skip_flags b new_head).run { before with fork_db := F } with
        | ok _ m => simp only [ran] at threw; cases threw
        | error x m =>
          simp only [ran] at threw
          cases threw
          exact switch_not_atomic settled closed pushed data higher linked (data ▸ onTop) ran
    · -- The head of the fork database is the head block, so nothing is applied.
      have same := settled.agree.fork_head new_head old
      have number := settled.agree.head_num old
      have notOnTop : new_head.data.previous ≠ before.objects.head_block_id := by
        intro onTop
        exact id_ne_previous E.digest new_head.data (same.trans onTop.symm)
      rw [if_neg notOnTop,if_neg (by omega)] at threw
      cases threw

/-! ### Runs -/

/-- The call pushes a block that extends the head or is not above it. -/
def Grows (s : Node R O) : Call O → Prop
  | .push b skip => skip.fork_db = false ∧
      (b.previous = s.objects.head_block_id ∨ b.block_num ≤ s.objects.head_block_number)
  | .pop => False

theorem bounded_still {s s' : Node R O} (still : Still s s')
    (bounded : ∀ item ∈ s.fork_db.index, item.num ≤ s.objects.head_block_number) :
    ∀ item ∈ s'.fork_db.index, item.num ≤ s'.objects.head_block_number := by
  intro item member
  rw [still.head.head_block_number]
  exact bounded item (still.fork_db.index.subset member)

theorem settled_push {b : Block O} {skip : Skip} {s s' : Node R O} {switched : Bool} (settled : Settled E s)
    (grows : Grows s (.push b skip)) (ran : (push_block E b skip).run s = .ok switched s') : Settled E s' := by
  obtain ⟨uses,calm⟩ := grows
  refine ⟨agree_push settled.agree uses calm ran,?_⟩
  obtain ⟨s1,s2,agree1,gone,pushed,restored⟩ := push_between settled.agree ran
  have head := gone.head settled.agree.pending
  have calm1 : b.previous = s1.objects.head_block_id ∨ b.block_num ≤ s1.objects.head_block_number := by
    rw [head.head_block_id,head.head_block_number]
    exact calm
  obtain ⟨new_head,F,_,items,_,recorded | extended⟩ :=
    calm_push agree1 (by rw [gone.skip_flags]; exact uses) calm1 pushed
  · obtain ⟨_,low,rfl⟩ := recorded
    refine bounded_still (restored agree1.enabled).1 fun item member => ?_
    rcases items item member with old | new
    · rw [gone.fork_db] at old
      rw [show ({ s1 with fork_db := F } : Node R O).objects = s1.objects from rfl,head.head_block_number]
      exact settled.bounded item old
    · rw [← new] at low
      exact low
  · obtain ⟨_,m,accepted,still,_⟩ := extended
    have enabled := still.enabled accepted.enabled
    refine bounded_still (restored enabled).1 (bounded_still still fun item member => ?_)
    have number : m.objects.head_block_number = s.objects.head_block_number + 1 := by
      rw [accepted.moved.head_block_number]
      show b.previous.num + 1 = _
      rw [accepted.onTop,← settled.head_num,← head.head_block_id]
    rw [number]
    rcases items item (accepted.fork_db.index.subset member) with old | new
    · rw [gone.fork_db] at old
      exact Nat.le_succ_of_le (settled.bounded item old)
    · have same : item.num = b.previous.num + 1 := by
        show item.data.previous.num + 1 = _
        rw [new]
      rw [same,accepted.onTop,← settled.head_num,← head.head_block_id]

theorem settled_reached {genesis : Objects R O} (isGenesis : Genesis genesis) {checkpoints : List (Nat × BlockId)}
    {s : Node R O} (reached : Reached E Grows (opened E genesis .empty checkpoints) s) : Settled E s := by
  induction reached with
  | start => exact ⟨agree_opened isGenesis checkpoints,fun item member => by cases member⟩
  | step c _ meets ran ih =>
    cases c with
    | push b skip =>
      obtain ⟨_,pushed⟩ := call_push_ok ran
      exact settled_push ih meets pushed
    | pop => exact absurd meets id

/-- A push that throws, between the pending transactions being cleared and being
    pushed again: it is atomic when the fork database turns the block away, and, on a
    chain that grew without a switch, at no other time. -/
theorem atomic_iff_rejected {b : Block O} {skip : Skip} {s before after : Node R O} {e : Exc}
    (uses : skip.fork_db = false)
    (cleared : (clear_pending : Exec R O Unit).run { s with skip_flags := skip } = .ok () before)
    (threw : (_push_block E b).run before = .error e after) :
    (Rejected E b before → Atomic E before after) ∧
      ∀ genesis checkpoints, Genesis genesis → Reached E Grows (opened E genesis .empty checkpoints) s →
        Atomic E before after → Rejected E b before := by
  rcases clear_pending_cases E.digest { s with skip_flags := skip } with ⟨x,_,failed,_⟩ | ⟨m,ok,gone⟩
  · rw [cleared] at failed; cases failed
  rw [cleared] at ok
  cases ok
  have flags : before.skip_flags.fork_db = false := by
    rw [gone.skip_flags]
    exact uses
  refine ⟨atomic_of_rejected E flags threw,fun genesis checkpoints isGenesis reached atomic => ?_⟩
  have settled := settled_reached isGenesis reached
  have below : Settled E before := by
    refine ⟨agree_cleared gone (agree_flags skip settled.agree),fun item member => ?_⟩
    rw [gone.fork_db] at member
    rw [(gone.head settled.agree.pending).head_block_number]
    exact settled.bounded item member
  by_contra taken
  exact not_atomic_of_taken below gone.pending_session flags threw taken atomic

/-! ### A block that is not later than its parent -/

/-- The node below the pending transactions, and the node a push leaves there. -/
def below1 : Node Unit Unit := endState ((clear_pending : Exec Unit Unit Unit).run { pushed1 with skip_flags := .nothing })

def staleBlock : Block Unit := emptyBlock (block1.id pairDigest) 1
def orphan : Block Unit := emptyBlock ⟨5,0⟩ 9

theorem below1_cleared :
    (clear_pending : Exec Unit Unit Unit).run { pushed1 with skip_flags := .nothing } = .ok () below1 :=
  run_of_returned (by decide +kernel)

theorem orphan_rejected : Rejected quietEnv orphan below1 := by
  have turned : (ForkDatabase.push_block quietEnv.digest orphan below1.fork_db).isOk = false := by decide +kernel
  cases pushed : ForkDatabase.push_block quietEnv.digest orphan below1.fork_db with
  | error e => exact ⟨e,pushed⟩
  | ok result => rw [pushed] at turned; cases turned

theorem atomic_orphan : Atomic quietEnv below1 (endState ((_push_block quietEnv orphan).run below1)) := by
  obtain ⟨e,threw⟩ := run_of_thrown (x := _push_block quietEnv orphan) (s := below1) (by decide +kernel)
  exact (atomic_iff_rejected rfl below1_cleared threw).1 orphan_rejected

/-- The head of the fork database stays on the block that failed. -/
theorem atomic_lost :
    ¬ ∀ (s before after : Node Unit Unit) (b : Block Unit) (e : Exc),
      Reached quietEnv (fun _ c => UsesForkDatabase c) quietStart s →
      (clear_pending : Exec Unit Unit Unit).run { s with skip_flags := .nothing } = .ok () before →
      (_push_block quietEnv b).run before = .error e after → Atomic quietEnv before after := by
  intro atomic
  have reached : Reached quietEnv (fun _ c => UsesForkDatabase c) quietStart pushed1 :=
    .step (.push block1 .nothing) .start rfl (run_of_returned (by decide +kernel))
  obtain ⟨e,threw⟩ := run_of_thrown (x := _push_block quietEnv staleBlock) (s := below1) (by decide +kernel)
  have same := (atomic pushed1 below1 _ staleBlock e reached below1_cleared threw).fork_head
  exact absurd same (by decide +kernel)

end Decent.Database

import Decent.Twins
import Decent.Irreversible

/-!
Whether a block is accepted depends on the chain, and on the block database where a
custody proof refers to a number that is not on the chain: the entry of a block that
was popped keeps its id.
-/
namespace Decent.Database
open Decent.ObjectDatabase (Exc)
open Decent.Protocol
open Decent.BlockDatabase (fetch_by_number fetch_block_id)
open Throwing

variable {R O : Type} (E : Env R O)

/-- The block database has the applied chain under its numbers. -/
def Stores (s : Node R O) : Prop :=
  ∀ n, 1 ≤ n → n ≤ s.objects.head_block_number →
    ∃ c, block_at s.objects n = some c ∧ fetch_by_number E.digest n s.block_db = some c

/-- A number on the applied chain, or one that both block databases have the same id
    for, or none. -/
def LookedUpAlike (s t : Node R O) (n : Nat) : Prop :=
  1 ≤ n ∧ n ≤ s.objects.head_block_number ∨ fetch_block_id n s.block_db = fetch_block_id n t.block_db

/-- Both nodes record undo states, and as many of them. -/
structure SameLimits (s t : Node R O) : Prop where
  left_enabled : s.undo.disabled = false
  right_enabled : t.undo.disabled = false
  active_sessions : s.undo.active_sessions = t.undo.active_sessions
  max_size : s.undo.max_size = t.undo.max_size

/-- Custody proofs of the block, and of the proposals that may run in it, refer to
    numbers that are looked up alike. -/
structure RefersAlike (s t : Node R O) (b : Block O) : Prop where
  block : ∀ trx ∈ b.transactions, ∀ op ∈ trx.operations, RefersWithin (LookedUpAlike s t) op
  proposals : ∀ p ∈ s.objects.proposals, ∀ op ∈ p.proposed_ops, RefersWithin (LookedUpAlike s t) op

variable {E}

theorem lookups_of_stores {s t : Node R O} (objects : s.objects = t.objects) (left : Stores E s) (right : Stores E t)
    {n : Nat} (alike : LookedUpAlike s t n) : fetch_block_id n s.block_db = fetch_block_id n t.block_db := by
  rcases alike with ⟨positive,bounded⟩ | same
  · obtain ⟨c,isBlock,found⟩ := left n positive bounded
    obtain ⟨d,isBlock',found'⟩ := right n positive (objects ▸ bounded)
    rw [← objects,isBlock] at isBlock'
    obtain rfl := Option.some.inj isBlock'
    rw [BlockDatabase.fetch_block_id_of_found found,BlockDatabase.fetch_block_id_of_found found']
  · exact same

theorem resembles_self {P : Nat → Prop} {o : Objects R O}
    (within : ∀ p ∈ o.proposals, ∀ op ∈ p.proposed_ops, RefersWithin P op) : Resembles P True o o :=
  ⟨rfl,rfl,rfl,rfl,rfl,rfl,List.forall₂_same.mpr fun _ _ => ⟨rfl,rfl,rfl⟩,rfl,fun _ => rfl,within⟩

/-- A block is applied with flags of its own. -/
theorem returned_flags (b : Block O) (skip : Skip) (s : Node R O) (flags : Skip) :
    returned ((apply_block E b skip).run { s with skip_flags := flags }) =
      returned ((apply_block E b skip).run s) := by
  by_cases matching : MatchesCheckpoint s.checkpoints E.digest b
  · simp only [apply_block,EStateM.run_bind,EStateM.run_get,run_fc_assert,matching,if_true]
    rw [run_with_skip_flags,run_with_skip_flags]
    generalize (_apply_block E b).run _ = result
    cases result <;> rfl
  · simp only [apply_block,EStateM.run_bind,EStateM.run_get,run_fc_assert,matching,if_false]
    rfl

/-- Two nodes with the same objects give one verdict, if custody proofs refer to numbers
    that both look up alike. -/
theorem verdict_of_lookups {P : Nat → Prop} {s t : Node R O} (b : Block O) (skip : Skip) (objects : s.objects = t.objects)
    (checkpoints : s.checkpoints = t.checkpoints) (limits : SameLimits s t)
    (lookups : ∀ n, P n → fetch_block_id n s.block_db = fetch_block_id n t.block_db)
    (block : ∀ trx ∈ b.transactions, ∀ op ∈ trx.operations, RefersWithin P op)
    (proposals : ∀ p ∈ s.objects.proposals, ∀ op ∈ p.proposed_ops, RefersWithin P op) :
    returned ((apply_block E b skip).run (insideSession false s)) =
      returned ((apply_block E b skip).run (insideSession false t)) := by
  let flagged (u : Node R O) : Node R O := { insideSession false u with skip_flags := skip }
  have near : Resembles P True s.objects t.objects := by
    rw [← objects]
    exact resembles_self proposals
  have twin : Twin P True skip 0 (flagged s) (flagged t) := by
    refine ⟨near,rfl,rfl,lookups,?_⟩
    -- The states below the start of the session never come to light.
    refine ⟨?_,?_,?_,.inr ⟨[s.objects],[t.objects],s.undo.stack.take s.undo.max_size,
      t.undo.stack.take t.undo.max_size,?_,?_,.cons near .nil,Nat.zero_lt_one⟩⟩
    · simp [flagged,insideSession,Snapshots.start,limits.left_enabled,limits.right_enabled,limits.active_sessions]
    · simp [flagged,insideSession,Snapshots.start,limits.left_enabled,limits.right_enabled]
    · simp [flagged,insideSession,Snapshots.start,limits.left_enabled,limits.right_enabled,limits.max_size]
    · simp [flagged,insideSession,Snapshots.start,limits.left_enabled]
    · simp [flagged,insideSession,Snapshots.start,limits.right_enabled]
  have same : SameBlock b b := ⟨rfl,rfl,rfl,List.forall₂_same.mpr fun _ _ => rfl⟩
  have ran := matches_apply_block E skip twin (congrArg (fun o => o.head_block_id) objects) checkpoints same
    Iff.rfl (sameChecks_self E _ b) block
  rw [← returned_flags b skip (insideSession false s) skip,← returned_flags b skip (insideSession false t) skip]
  exact returned_of_matches ran

/-- Without proposals no session is opened on the way. -/
def Idle (s s' : Node R O) : Prop :=
  s.objects.proposals = [] → s'.objects.proposals = [] ∧ s'.undo = { s.undo with max_size := s'.undo.max_size }

theorem idle_composes : Composes (Idle (R := R) (O := O)) where
  refl _ := fun none => ⟨none,rfl⟩
  trans := by
    intro a b c first second none
    obtain ⟨none',same⟩ := first none
    obtain ⟨none'',same'⟩ := second none'
    refine ⟨none'',?_⟩
    rw [same] at same'
    exact same'

theorem idle_update {f : Objects R O → Objects R O} (same : ∀ o, (f o).proposals = o.proposals) :
    Keeps Idle (update f) :=
  keeps_update fun s none => ⟨(same s.objects).trans none,rfl⟩

theorem idle_onWorld (x : Context → EStateM Exc (World R) Unit) : Keeps Idle (onWorld x : Exec R O Unit) :=
  keeps_onWorld fun _ _ none => ⟨none,rfl⟩

theorem idle_clear_expired_proposals (n : Nat) : Keeps Idle (clear_expired_proposals E n) := by
  intro s none
  cases n with
  | zero => exact ⟨none,rfl⟩
  | succ n =>
    have nothing : (clear_expired_proposals E (n + 1)).run s = .ok () s := by
      simp [clear_expired_proposals,none,first_to_expire]
    rw [nothing]
    exact ⟨none,rfl⟩

theorem idle_finish_block (b : Block O) (maint_needed : Bool) : Keeps Idle (finish_block E b maint_needed) := by
  refine keeps_bind idle_composes ?_ fun _ => keeps_bind idle_composes ?_ fun _ => ?_
  · refine keeps_bind idle_composes (idle_onWorld _) fun _ => ?_
    refine keeps_bind idle_composes (idle_update fun _ => rfl) fun _ => ?_
    refine keeps_bind idle_composes (keeps_get idle_composes) fun _ => ?_
    refine keeps_bind idle_composes (keeps_provided idle_composes _ (keeps_throw idle_composes _)) fun _ => ?_
    exact keeps_modifyGet fun _ none => ⟨none,rfl⟩
  · exact keeps_bind idle_composes (idle_onWorld _) fun _ => idle_update fun _ => rfl
  refine keeps_bind idle_composes ?_ fun _ => ?_
  · refine keeps_bind idle_composes (keeps_get idle_composes) fun s => keeps_ite (idle_update fun _ => rfl) ?_
    split
    · exact keeps_throw idle_composes _
    split
    · exact keeps_throw idle_composes _
    · exact keeps_provided idle_composes _ (idle_update fun _ => rfl)
  refine keeps_bind idle_composes (keeps_provided idle_composes _ (idle_onWorld _)) fun _ => ?_
  refine keeps_bind idle_composes (idle_update fun _ => rfl) fun _ => ?_
  refine keeps_bind idle_composes (idle_update fun _ => rfl) fun _ => ?_
  refine keeps_bind idle_composes (keeps_get idle_composes) fun _ => ?_
  exact keeps_bind idle_composes (idle_clear_expired_proposals _) fun _ => idle_onWorld _

theorem idle_apply_block {b : Block O} (empty : b.transactions = []) (skip : Skip) :
    Keeps Idle (apply_block E b skip) := by
  have core : Keeps Idle (_apply_block E b) := by
    refine keeps_bind idle_composes (keeps_get idle_composes) fun s => ?_
    refine keeps_bind idle_composes (keeps_fc_assert idle_composes _ _) fun _ => ?_
    refine keeps_bind idle_composes (fun t => ?_) fun _ => ?_
    · rcases run_validate_block_header E s.skip_flags b t with ⟨ran,_⟩ | ⟨e,ran⟩
      · rw [ran]; exact idle_composes.refl t
      · rw [ran]; exact idle_composes.refl t
    · rw [empty]
      exact keeps_bind idle_composes (keeps_pure idle_composes ()) fun _ => idle_finish_block b _
  refine keeps_bind idle_composes (keeps_get idle_composes) fun s => ?_
  refine keeps_bind idle_composes (keeps_fc_assert idle_composes _ _) fun _ => fun t none => ?_
  have ran := core { t with skip_flags := checkpointed s.checkpoints b.block_num skip } none
  rw [run_with_skip_flags]
  generalize (_apply_block E b).run _ = result at ran ⊢
  cases result with
  | ok a m => exact ran
  | error e m => exact ran

/-- After a block that runs nothing, the state before it is on top of the undo stack. -/
theorem extend_stack {b : Block O} (empty : b.transactions = []) {skip : Skip} {s s' : Node R O}
    (on : s.undo.disabled = false) (none : s.objects.proposals = [])
    (ran : (extend E b skip).run s = .ok () s') : s'.undo.stack.head? = some s.objects := by
  obtain ⟨m,stored,closed⟩ := extend_stored ran
  have started : ∀ u : Node R O, u.undo.disabled = false →
      (insideSession false u).undo.stack = u.objects :: u.undo.stack.take u.undo.max_size := by
    intro u enabled
    simp [insideSession,Snapshots.start,enabled]
  have top : m.undo.stack.head? = some s.objects := by
    obtain ⟨n,n',inner,committed,rfl⟩ := with_session_ok stored
    obtain ⟨⟨⟩,n0,applied,kept⟩ := run_bind_ok.mp inner
    cases kept
    have idle := idle_apply_block (E := E) empty skip (insideSession false s) none
    rw [applied] at idle
    rw [on,Bool.false_and] at committed ⊢
    show n'.undo.stack.head? = _
    rw [close_commit_ok committed]
    show n0.undo.stack.head? = _
    rw [show n0.undo.stack = (insideSession false s).undo.stack from congrArg (fun u => u.stack) idle.2,started s on]
    rfl
  have enabled : m.undo.disabled = false := by
    rcases apply_and_store_cases E (b.id E.digest) b skip on with ⟨m',ok,accepted⟩ | ⟨e,m',failed,_⟩
    · rw [stored] at ok; cases ok; exact accepted.enabled
    · rw [stored] at failed; cases failed
  obtain ⟨n,n',inner,merged,rfl⟩ := with_session_ok closed
  cases inner
  rw [enabled,Bool.false_and] at merged ⊢
  show n'.undo.stack.head? = _
  obtain ⟨x,shape,more⟩ := close_merge_ok merged
  rw [started m enabled] at shape
  obtain ⟨_,same⟩ := List.cons.inj shape
  rw [← same] at more ⊢
  rw [List.head?_take,if_neg (fun zero => more (by rw [zero]; rfl)),top]

/-- No transaction is pending, and none waits to be pushed again. -/
structure Bare (s : Node R O) : Prop where
  pending_session : s.pending_session = false
  pending_tx : s.pending_tx = []
  popped_tx : s.popped_tx = []

/-- Without pending transactions, a push on top of the head is the extension and nothing
    else. -/
theorem push_bare {b : Block O} {skip : Skip} {s s' : Node R O} (on : s.undo.disabled = false)
    (uses : skip.fork_db = false) (bare : Bare s)
    (extends' : ∀ result, ForkDatabase.push_block E.digest b s.fork_db = .ok result →
      result.1.data.previous = s.objects.head_block_id)
    {switched : Bool} (pushed : (push_block E b skip).run s = .ok switched s') :
    ∃ F m, (extend E b skip).run { s with skip_flags := skip, fork_db := F } = .ok () m ∧
      SamePending { s with skip_flags := skip } m ∧ s' = { m with skip_flags := s.skip_flags } := by
  obtain ⟨m,m1,m2,cleared,inner,restored,rfl⟩ := push_block_ok E pushed
  have same : m = { s with skip_flags := skip } := by
    have nothing : (clear_pending : Exec R O Unit).run { s with skip_flags := skip } =
        .ok () { s with skip_flags := skip, pending_tx := [] } := by
      simp [clear_pending,reset_pending_session,bare.pending_session]
    rw [cleared] at nothing
    cases nothing
    rw [← bare.pending_tx]
  subst same
  rw [run_push_block E b uses] at inner
  cases taken : ForkDatabase.push_block E.digest b s.fork_db with
  | error e => simp [taken] at inner
  | ok result =>
    have onTop := extends' result taken
    obtain ⟨new_head,F⟩ := result
    simp only [taken] at inner
    rw [if_pos onTop] at inner
    obtain ⟨⟨⟩,n,extended,done⟩ := run_bind_ok.mp inner
    cases done
    obtain ⟨k,accepted,still,session⟩ := extend_ok (s := { s with skip_flags := skip, fork_db := F }) on extended
    have kept : SamePending { s with skip_flags := skip } m1 := by
      have first := accepted.pending
      exact pending_composes.trans ⟨first.popped_tx,first.pending_tx,first.pending_session,first.skip_flags⟩ session
    have noPopped : m1.popped_tx = [] := kept.popped_tx.trans bare.popped_tx
    have nothing : (restore_pending E []).run m1 = .ok () m1 := by
      have : ({ m1 with popped_tx := [] } : Node R O) = m1 := by rw [← noPopped]
      simp only [restore_pending,EStateM.run_bind,EStateM.run_get,noPopped]
      exact congrArg _ this
    rw [show s.pending_tx = [] from bare.pending_tx,nothing] at restored
    cases restored
    exact ⟨F,m1,extended,kept,rfl⟩

/-- Popping a block that ran nothing gives the objects of before the push back. -/
theorem push_pop_objects {b : Block O} (empty : b.transactions = []) {s s1 s2 : Node R O}
    (on : s.undo.disabled = false) (bare : Bare s) (none : s.objects.proposals = [])
    (extends' : ∀ result, ForkDatabase.push_block E.digest b s.fork_db = .ok result →
      result.1.data.previous = s.objects.head_block_id)
    {switched : Bool} (pushed : (push_block E b .nothing).run s = .ok switched s1)
    (popped : (pop_block E []).run s1 = .ok () s2) : s2.objects = s.objects := by
  obtain ⟨F,m,extended,kept,rfl⟩ := push_bare on rfl bare extends' pushed
  have top := extend_stack (s := { s with skip_flags := .nothing, fork_db := F }) empty on none extended
  have shut : m.pending_session = false := kept.pending_session.trans bare.pending_session
  rcases pop_block_cases E [] { m with skip_flags := s.skip_flags } with ⟨s2',ok,down⟩ | ⟨e,s2',failed,_⟩
  swap
  · rw [popped] at failed; cases failed
  rw [popped] at ok
  cases ok
  obtain ⟨rest,stack,_⟩ := down.objects
  have bottom : committed_stack { m with skip_flags := s.skip_flags } = m.undo.stack := by
    simp [committed_stack,shut]
  rw [bottom] at stack
  rw [stack] at top
  exact Option.some.inj top

/-! ### A popped block that is referred to -/

/-- The node of block one, after block two was pushed and popped. -/
def popped2 : Node Unit Unit := endState ((call quietEnv .pop).run pushed2)

/-- A block on top of block one with a proof whose seed is the id of block two. -/
def custodyBlock : Block Unit :=
  { emptyBlock (block1.id pairDigest) 5 with
    transactions := [⟨⟨0,0,100,[.proof_of_custody 0 "" (some ⟨2,block2.id pairDigest,0⟩)]⟩,[]⟩] }

theorem pushed1_agree : Agree quietEnv pushed1 := by
  have ran : (call quietEnv (.push block1 .nothing)).run quietStart = .ok () pushed1 :=
    run_of_returned (by decide +kernel)
  obtain ⟨_,pushed⟩ := call_push_ok ran
  exact agree_push (agree_opened quietGenesis_isGenesis []) rfl (.inl rfl) pushed

theorem popped2_agree : Agree quietEnv popped2 := by
  have ran : (call quietEnv (.push block2 .nothing)).run pushed1 = .ok () pushed2 :=
    run_of_returned (by decide +kernel)
  obtain ⟨_,pushed⟩ := call_push_ok ran
  have popped : (call quietEnv .pop).run pushed2 = .ok () popped2 := run_of_returned (by decide +kernel)
  refine agree_pop pairDigest_injective (agree_push pushed1_agree rfl (.inl (by decide +kernel)) pushed) ?_ popped
  have below : (committed_stack pushed2).head?.map (fun o => o.head_block_number + 1) =
      some pushed2.objects.head_block_number := by decide +kernel
  cases top : (committed_stack pushed2).head? with
  | none => rw [top] at below; cases below
  | some x => rw [top] at below; exact ⟨x,rfl,Option.some.inj below⟩

theorem popped2_objects : popped2.objects = pushed1.objects := by
  have ran : (call quietEnv (.push block2 .nothing)).run pushed1 = .ok () pushed2 :=
    run_of_returned (by decide +kernel)
  obtain ⟨_,pushed⟩ := call_push_ok ran
  have popped : (call quietEnv .pop).run pushed2 = .ok () popped2 := run_of_returned (by decide +kernel)
  have agree := pushed1_agree
  have noProposals : pushed1.objects.proposals.isEmpty = true := by decide +kernel
  have noPending : pushed1.pending_tx.isEmpty = true ∧ pushed1.popped_tx.isEmpty = true := by decide +kernel
  refine push_pop_objects rfl agree.enabled
    ⟨by decide +kernel,List.isEmpty_iff.mp noPending.1,List.isEmpty_iff.mp noPending.2⟩
    (List.isEmpty_iff.mp noProposals) (fun result taken => ?_) pushed popped
  have onTop : (ForkDatabase.push_block quietEnv.digest block2 pushed1.fork_db).toOption.map
      (fun result => result.1.data.previous) = some pushed1.objects.head_block_id := by decide +kernel
  rw [taken] at onTop
  exact Option.some.inj onTop

theorem stores_of_agree {s : Node R O} (agree : Agree E s) : Stores E s := (agreement_of_agree agree).blocks

end Decent.Database

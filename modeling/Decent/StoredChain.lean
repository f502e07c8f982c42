import Decent.Irreversible

/-!
The block database of a running node. Blocks are pushed and popped, transactions are pushed, and the
node is closed and opened again. As long as no call stops in the middle of its work on the chain, the block
database has every block of the applied chain under its number.
-/
namespace Decent.Database
open Decent.ObjectDatabase (Exc)
open Decent.Protocol
open Decent.ForkDatabase (Item)
open Decent.BlockDatabase (fetch_by_number Lacks)
open Throwing

variable {R O : Type} (E : Env R O)

/-! ### Runs -/

/-- The call works on the applied chain as a whole: it returns, and if it pops a block, the chain gets
    shorter; or it leaves the chain and the block database as they were. -/
def Whole (s : Node R O) (c : Call O) : Prop :=
  let s' := endState ((call E c).run s)
  s'.objects.applied = s.objects.applied ∧ s'.block_db = s.block_db ∨
    (call E c).run s = .ok () s' ∧ (c = .pop → s'.objects.applied ≠ s.objects.applied)

/-- The nodes reached by calls of the database that meet a condition, by transactions, and by closing the
    database, which forgets the pending transactions and the undo history, and opening it again, which
    checks the last stored block. A call may throw. -/
inductive Running (C : Node R O → Call O → Prop) (start : Node R O) : Node R O → Prop
  | start : Running C start start
  | call {s : Node R O} (before : Running C start s) (c : Call O) (meets : C s c) :
      Running C start (endState ((call E c).run s))
  | transact {s : Node R O} (before : Running C start s) (trx : Transaction O) (skip : Skip) :
      Running C start (endState ((push_transaction E trx skip).run s))
  | reopened {s s' : Node R O} (before : Running C start s)
      (cleared : (clear_pending : Exec R O Unit).run s = .ok () s')
      (checked : ∀ b ∈ BlockDatabase.last s'.block_db, s'.objects.head_block_number = 0 ∨
        b.id E.digest = s'.objects.head_block_id) :
      Running C start (opened E s'.objects s'.block_db s'.checkpoints)

/-! ### The blocks of a chain -/

/-- Every block of a chain is found under its number. -/
def Files (chain : List (Block O)) (s : Node R O) : Prop :=
  ∀ b ∈ chain, fetch_by_number E.digest b.block_num s.block_db = some b

/-- A node between clearing the pending transactions and pushing them again, with its chain stored. -/
structure Filed (s : Node R O) : Prop where
  fit : Fit E s
  files : Files E s.objects.applied s

variable {E}

theorem filed_accepted {b : Block O} {skip : Skip} {s s' : Node R O} (filed : Filed E s)
    (ran : (apply_and_store E (b.id E.digest) b skip).run s = .ok () s') : Filed E s' := by
  have fit' : Fit E s' := by
    have stands : Fit E _ ∧ [] <:+ _ := stands_apply_and_store (b.id E.digest) b skip s ⟨filed.fit,List.nil_suffix⟩
    rw [ran] at stands
    exact stands.1
  refine ⟨fit',?_⟩
  rcases apply_and_store_cases E (b.id E.digest) b skip filed.fit.enabled with ⟨_,ok,accepted⟩ | ⟨_,_,failed,_⟩
  swap
  · rw [ran] at failed
    cases failed
  rw [ran] at ok
  cases ok
  have consistent := filed.fit.consistent
  have given : b.id E.digest ≠ .zero := id_ne_zero E b
  have top : b.block_num = s.objects.applied.length + 1 := by
    show b.previous.num + 1 = _
    rw [accepted.onTop,consistent.id,headId_num E.digest consistent.linked]
  intro c member
  rw [accepted.moved.applied] at member
  rw [accepted.stored]
  rcases List.mem_cons.mp member with rfl | inside
  · exact BlockDatabase.fetch_by_number_store_same _ given
  · refine BlockDatabase.fetch_by_number_store_other given ?_ (filed.files c inside)
    have below := num_le_length consistent.linked inside
    rw [id_num]
    omega

theorem filed_still {s s' : Node R O} (still : Still s s') (closed : s'.pending_session = s.pending_session)
    (filed : Filed E s) : Filed E s' where
  fit := ⟨still.enabled filed.fit.enabled,sound_still still filed.fit.sound,closed.trans filed.fit.closed,
    woven_pruned still.fork_db filed.fit.woven⟩
  files := by
    unfold Files
    rw [still.head.applied,still.block_db]
    exact filed.files

theorem filed_extend {b : Block O} {skip : Skip} {s s' : Node R O} (filed : Filed E s)
    (ran : (extend E b skip).run s = .ok () s') : Filed E s' := by
  obtain ⟨m,stored,closed⟩ := extend_stored ran
  have filed' := filed_accepted filed stored
  have still := still_with_session (b := pure ()) (fun s => still_composes.refl s) false .merge (.inr filed'.fit.enabled)
  have session := keeps_session_of_ignores pending_composes (fun _ _ _ => ⟨rfl,rfl,rfl,rfl⟩) (b := pure ())
    (fun s => pending_composes.refl s) false .merge m
  rw [closed] at still session
  exact filed_still still session.pending_session filed'

/-! ### A switch that returns -/

/-- A pop above a chain that is stored leaves it stored, whether it returns or throws. -/
theorem files_pop_block (held : List (Item O)) {base : List (Block O)} {s : Node R O} (fit : Fit E s)
    (on : base <:+ s.objects.applied) (above : base.length < s.objects.applied.length) (files : Files E base s) :
    Files E base (endState ((pop_block E held).run s)) := by
  have consistent := fit.consistent
  have entry (B : BlockDatabase.Blocks O) (down : EntryDown s B) (b : Block O) (member : b ∈ base) :
      fetch_by_number E.digest b.block_num B = some b := by
    obtain ⟨id,isHead,gone⟩ := down
    have low := num_le_length (linked_suffix consistent.linked on) member
    rw [BlockDatabase.fetch_by_number_remove_other ?_ gone]
    · exact files b member
    · rw [isHead (pendingOnTop_closed fit.closed),consistent.id,headId_num E.digest consistent.linked]
      omega
  rcases pop_block_cases E held s with ⟨s',ran,popped⟩ | ⟨e,s',ran,failed⟩
  · rw [ran]
    exact entry s'.block_db popped.block_db
  · rw [ran]
    rcases failed.stores with ⟨same,-⟩ | ⟨-,down⟩
    · show Files E base s'
      unfold Files
      rw [same]
      exact files
    · exact entry s'.block_db down

theorem length_of_above {base : List (Block O)} {s : Node R O} (fit : Fit E s) (on : base <:+ s.objects.applied)
    (above : s.objects.head_block_id ≠ headId E.digest base) : base.length < s.objects.applied.length := by
  refine Nat.lt_of_le_of_ne on.length_le fun same => above ?_
  rw [fit.consistent.id,on.eq_of_length same]

/-- Popping down to a chain that is stored. -/
theorem files_pop_until (held : List (Item O)) {base : List (Block O)} (fuel : Nat) {s s' : Node R O} (fit : Fit E s)
    (on : base <:+ s.objects.applied) (files : Files E base s)
    (ran : (pop_until E held (headId E.digest base) fuel).run s = .ok () s') : Files E base s' ∧ s'.objects.applied = base := by
  induction fuel generalizing s with
  | zero => cases ran
  | succ fuel ih =>
    by_cases there : s.objects.head_block_id = headId E.digest base
    · have stops : (pop_until E held (headId E.digest base) (fuel + 1)).run s = .ok () s := by
        simp [pop_until,there]
      rw [stops] at ran
      cases ran
      refine ⟨files,(on.eq_of_length ?_).symm⟩
      have number := congrArg BlockId.num there
      rw [fit.consistent.id,headId_num E.digest fit.consistent.linked,
        headId_num E.digest (linked_suffix fit.consistent.linked on)] at number
      exact number.symm
    · have goes : (pop_until E held (headId E.digest base) (fuel + 1)).run s =
          (do pop_block E held; pop_until E held (headId E.digest base) fuel : Exec R O Unit).run s := by
        simp [pop_until,there]
      rw [goes] at ran
      obtain ⟨⟨⟩,m,popped,ran⟩ := run_bind_ok.mp ran
      have once := pop_block_stands held fit on there
      have kept := files_pop_block held fit on (length_of_above fit on there) files
      rw [popped] at once kept
      exact ih once.1 once.2 kept ran

theorem filed_push_branch (skip : Skip) {items : List (Item O)} {s s' : Node R O} (filed : Filed E s)
    (ran : (push_branch E skip items).run s = .ok none s') : Filed E s' := by
  induction items generalizing s with
  | nil =>
    cases ran
    exact filed
  | cons item rest ih =>
    obtain ⟨failure,m,caught,ran⟩ := run_bind_ok.mp ran
    cases failure with
    | some e => cases ran
    | none =>
      refine ih ?_ ran
      rw [catching,run_tryCatch] at caught
      cases result : (do apply_and_store E (item.id E.digest) item.data skip; pure none : Exec R O (Option Exc)).run s with
      | error e m' =>
        rw [result] at caught
        dsimp only at caught
        split at caught <;> cases caught
      | ok a m' =>
        rw [result] at caught
        cases caught
        obtain ⟨⟨⟩,_,stored,done⟩ := run_bind_ok.mp result
        cases done
        exact filed_accepted filed stored

/-- A switch that returns took the old branch off down to a block of the chain, and put the new one on. -/
theorem filed_switch_forks (injective : Function.Injective E.digest) {skip : Skip} {b : Block O} {new_head : Item O}
    {s s' : Node R O} (filed : Filed E s) (ran : (switch_forks E skip b new_head).run s = .ok () s') : Filed E s' := by
  rcases run_switch_forks E skip b new_head s with ⟨e,failed⟩ | ⟨first,second,front,back,fetched,_,backIn,switched⟩
  · rw [ran] at failed
    cases failed
  have fit := filed.fit
  obtain ⟨_,c,_,found,_,seconds,_⟩ := ForkDatabase.fetch_branch_from_ok fetched
  obtain ⟨member,named⟩ := ForkDatabase.find_some found
  have consistent := fit.consistent
  obtain ⟨base,suffix,target⟩ := joined_chain injective (fit.woven.index c member) consistent.linked (by
    intro e isFirst
    obtain rfl := Option.some.inj isFirst
    rw [← consistent.id]
    exact named) back.toEntry ((seconds back backIn).subset (List.mem_cons_self ..))
  rw [ran,target] at switched
  obtain ⟨⟨⟩,m,popped,taken⟩ := run_bind_ok.mp switched.symm
  have stands := stands_pop_to (new_head :: first ++ second) s ⟨fit,suffix⟩
  rw [popped] at stands
  obtain ⟨_,_,got,popped⟩ := run_bind_ok.mp popped
  cases got
  obtain ⟨files,there⟩ := files_pop_until _ _ fit suffix (fun b member => filed.files b (suffix.subset member)) popped
  obtain ⟨failure,m',pushed,taken⟩ := run_bind_ok.mp taken
  cases failure with
  | some failure =>
    obtain ⟨_,_,_,thrown⟩ := run_bind_ok.mp taken
    cases thrown
  | none =>
    cases taken
    exact filed_push_branch skip ⟨stands.1,there ▸ files⟩ pushed

/-! ### The entry of number zero -/

theorem id_ne_unnumbered {id : BlockId} (unnumbered : id.num = 0) (b : Block O) : b.id E.digest ≠ id := by
  intro same
  have number := congrArg BlockId.num same
  rw [id_num,unnumbered] at number
  exact absurd number (Nat.ne_of_gt (block_num_pos b))

/-- No block is stored under the number zero. -/
theorem staysOut_push {id : BlockId} (unnumbered : id.num = 0) (b : Block O) :
    Keeps (StaysOut (R := R) id) (_push_block E b) := fun s => by
  have merged : Keeps (StaysOut (R := R) id) (with_session false .merge (pure ()) : Exec R O Unit) :=
    keeps_session_of_ignores (staysOut_composes id) (fun _ _ _ => fun lacks => lacks)
      (keeps_pure (staysOut_composes id) ()) false .merge
  refine keeps_push E (staysOut_composes id) (fun _ _ lacks => lacks) (fun c d => ?_) merged (staysOut_pop_block E id)
  exact staysOut_apply_and_store E (id_ne_zero E c) (id_ne_unnumbered unnumbered c) d s.skip_flags

/-! ### Calls -/

variable (E) in
/-- A node between two calls, with its chain stored, and nothing stored under the number zero. -/
structure Kept (s : Node R O) : Prop where
  ready : Ready E s
  files : Files E s.objects.applied s
  unnumbered : ∀ id : BlockId, id.num = 0 → Lacks id s.block_db

theorem Kept.filed {s s' : Node R O} {skip : Skip} (kept : Kept E s)
    (cleared : Cleared E.digest { s with skip_flags := skip } s') : Filed E s' := by
  have begins : Ready E { s with skip_flags := skip } :=
    ⟨kept.ready.enabled,⟨kept.ready.sound.chain,kept.ready.sound.consistent⟩,kept.ready.pending,kept.ready.woven⟩
  refine ⟨fit_cleared begins cleared,?_⟩
  unfold Files
  rw [(cleared.head begins.pending).applied,cleared.block_db]
  exact kept.files

theorem filed_push (injective : Function.Injective E.digest) {b : Block O} {s s' : Node R O} {switched : Bool}
    (filed : Filed E s) (ran : (_push_block E b).run s = .ok switched s') : Filed E s' := by
  cases uses : s.skip_flags.fork_db with
  | true =>
    rw [run_push_block_apart E b uses] at ran
    obtain ⟨⟨⟩,_,extended,done⟩ := run_bind_ok.mp ran
    cases done
    exact filed_extend filed extended
  | false =>
    rw [run_push_block E b uses] at ran
    cases pushed : ForkDatabase.push_block E.digest b s.fork_db with
    | error e =>
      rw [pushed] at ran
      cases ran
    | ok result =>
      obtain ⟨new_head,F⟩ := result
      have woven := (ForkDatabase.push_block_ok pushed filed.fit.woven).1
      have forked : Filed E { s with fork_db := F } :=
        ⟨⟨filed.fit.enabled,⟨filed.fit.sound.chain,filed.fit.sound.consistent⟩,filed.fit.closed,woven⟩,filed.files⟩
      rw [pushed] at ran
      dsimp only at ran
      split at ran
      · obtain ⟨⟨⟩,_,extended,done⟩ := run_bind_ok.mp ran
        cases done
        exact filed_extend forked extended
      · split at ran
        · obtain ⟨⟨⟩,_,changed,done⟩ := run_bind_ok.mp ran
          cases done
          exact filed_switch_forks injective forked changed
        · cases ran
          exact forked

theorem files_push_block (injective : Function.Injective E.digest) {b : Block O} {skip : Skip} {s s' : Node R O}
    {switched : Bool} (kept : Kept E s) (ran : (push_block E b skip).run s = .ok switched s') :
    Files E s'.objects.applied s' ∧ ∀ id : BlockId, id.num = 0 → Lacks id s'.block_db := by
  obtain ⟨s1,s2,s3,cleared,pushed,restored,rfl⟩ := push_block_ok E ran
  rcases clear_pending_cases E.digest { s with skip_flags := skip } with ⟨e,_,failed,_⟩ | ⟨s1',ok,gone⟩
  · rw [cleared] at failed
    cases failed
  rw [cleared] at ok
  cases ok
  have filed := filed_push injective (kept.filed gone) pushed
  obtain ⟨still,-⟩ := shelves_restore_pending E s.pending_tx s2 filed.fit.enabled
  rw [restored] at still
  have chain : s3.objects.applied = s2.objects.applied := still.head.applied
  have stored : s3.block_db = s2.block_db := still.block_db
  refine ⟨?_,fun id unnumbered => ?_⟩
  · unfold Files
    dsimp only
    rw [chain,stored]
    exact filed.files
  · have lacks : Lacks id s1.block_db := by
      rw [gone.block_db]
      exact kept.unnumbered id unnumbered
    have out := staysOut_push (E := E) unnumbered b s1 lacks
    rw [pushed] at out
    dsimp only
    rw [stored]
    exact out

/-- Popping starts by discarding the pending transactions. -/
theorem pop_block_reset {held : List (Item O)} {s s' : Node R O}
    (reset : (reset_pending_session : Exec R O Unit).run s = .ok () s') (closed : s'.pending_session = false) :
    (pop_block E held).run s = (pop_block E held).run s' := by
  have again : (reset_pending_session : Exec R O Unit).run s' = .ok () s' := by simp [reset_pending_session,closed]
  simp only [pop_block,EStateM.run_bind,reset,again]

theorem ready_popped {s : Node R O} (sound : Sound E.digest s) (enabled : s.undo.disabled = false)
    (woven : ForkDatabase.Woven E.digest s.fork_db) (closed : s.pending_session = false) :
    Ready E (endState ((pop_block E []).run s)) := by
  rcases pop_block_cases E [] s with ⟨s',ran,popped⟩ | ⟨e,s',ran,failed⟩
  · rw [ran]
    exact ⟨popped.enabled,popped.sound sound,pendingOnTop_closed popped.pending_session,woven_down popped.fork_db woven⟩
  · rw [ran]
    refine ⟨failed.enabled.trans enabled,failed.sound sound,pendingOnTop_closed (failed.pending_session closed),?_⟩
    show ForkDatabase.Woven E.digest s'.fork_db
    rcases failed.stores with ⟨_,same | down⟩ | ⟨down,_⟩
    · rw [same]
      exact woven
    · exact woven_down down woven
    · exact woven_down down woven

/-- A pop, however it ends, leaves a node between two calls. -/
theorem ready_pop {s : Node R O} (ready : Ready E s) : Ready E (endState ((pop_block E []).run s)) := by
  rcases reset_pending_session_cases E.digest s with ⟨e,failed⟩ | ⟨s1,reset,cleared,_⟩
  · have same : (pop_block E []).run s = .error e s := by simp [pop_block,failed]
    rw [same]
    exact ready
  · rw [pop_block_reset reset cleared.pending_session]
    exact ready_popped (cleared.sound ready.sound) (cleared.enabled.trans ready.enabled) (cleared.fork_db ▸ ready.woven)
      cleared.pending_session

/-- A pop that makes the chain shorter gives up the entry of the block it takes off, and no other. -/
theorem files_pop {s s' : Node R O} (kept : Kept E s) (ran : (pop_block E []).run s = .ok () s')
    (shorter : s'.objects.applied ≠ s.objects.applied) : Files E s'.objects.applied s' := by
  rcases pop_block_cases E [] s with ⟨_,ok,popped⟩ | ⟨e,_,failed,_⟩
  swap
  · rw [ran] at failed
    cases failed
  rw [ran] at ok
  cases ok
  obtain ⟨rest,top,_⟩ := popped.objects
  obtain ⟨below,_⟩ := below_committed kept.ready.sound kept.ready.pending top
  obtain ⟨b,chain⟩ := below.resolve_left shorter
  have consistent := kept.ready.consistent
  have linked := consistent.linked
  rw [chain] at linked
  intro c member
  obtain ⟨id,isHead,gone⟩ := popped.block_db
  have low := num_le_length linked.2 member
  rw [BlockDatabase.fetch_by_number_remove_other ?_ gone]
  · exact kept.files c (by rw [chain]; exact List.mem_cons_of_mem _ member)
  · rw [isHead kept.ready.pending,consistent.id,headId_num E.digest consistent.linked,chain,List.length_cons]
    omega

theorem kept_call (injective : Function.Injective E.digest) {s : Node R O} {c : Call O} (kept : Kept E s)
    (whole : Whole E s c) : Kept E (endState ((call E c).run s)) := by
  have ready : Ready E (endState ((call E c).run s)) := by
    cases c with
    | push b skip =>
      rw [endState_call]
      exact (push_block_spares injective b skip kept.ready).1
    | pop => exact ready_pop kept.ready
  rcases whole with ⟨chain,stored⟩ | ⟨ran,shorter⟩
  · refine ⟨ready,?_,stored ▸ kept.unnumbered⟩
    unfold Files
    rw [chain,stored]
    exact kept.files
  · cases c with
    | push b skip =>
      obtain ⟨_,pushed⟩ := call_push_ok ran
      obtain ⟨files,unnumbered⟩ := files_push_block injective kept pushed
      exact ⟨ready,files,unnumbered⟩
    | pop =>
      exact ⟨ready,files_pop kept ran (shorter rfl),fun id zero => staysOut_pop_block E id [] s (kept.unnumbered id zero)⟩

theorem kept_transact {s : Node R O} (trx : Transaction O) (skip : Skip) (kept : Kept E s) :
    Kept E (endState ((push_transaction E trx skip).run s)) := by
  have ends : endState ((push_transaction E trx skip).run s) =
      { endState ((_push_transaction E trx).run { s with skip_flags := skip }) with skip_flags := s.skip_flags } := by
    rw [push_transaction,run_with_skip_flags]
    cases (_push_transaction E trx).run { s with skip_flags := skip } <;> rfl
  obtain ⟨still,pending⟩ := shelves_push_transaction E trx { s with skip_flags := skip } kept.ready.enabled
  rw [ends]
  have begins : Sound E.digest { s with skip_flags := skip } := ⟨kept.ready.sound.chain,kept.ready.sound.consistent⟩
  have sound := sound_still still begins
  refine ⟨⟨still.enabled kept.ready.enabled,⟨sound.chain,sound.consistent⟩,pending kept.ready.pending,
    woven_pruned still.fork_db kept.ready.woven⟩,?_,?_⟩
  · unfold Files
    dsimp only
    rw [still.head.applied,still.block_db]
    exact kept.files
  · dsimp only
    rw [still.block_db]
    exact kept.unnumbered

/-- A database that is opened on objects and the blocks stored for them. -/
theorem kept_opened {objects : Objects R O} {B : BlockDatabase.Blocks O} (checkpoints : List (Nat × BlockId))
    (consistent : Consistent E.digest objects)
    (files : ∀ b ∈ objects.applied, fetch_by_number E.digest b.block_num B = some b)
    (unnumbered : ∀ id : BlockId, id.num = 0 → Lacks id B) :
    Kept E (opened E objects B checkpoints) := by
  refine ⟨⟨rfl,⟨List.isChain_singleton _,?_⟩,pendingOnTop_closed rfl,?_⟩,files,unnumbered⟩
  · intro o member
    obtain rfl := List.mem_singleton.mp member
    exact consistent
  · unfold opened
    dsimp only
    cases BlockDatabase.last B with
    | none => exact ⟨fun item member => (nomatch member),fun item isHead => (nomatch isHead)⟩
    | some b =>
      refine ⟨fun item member => ?_,fun item isHead => ?_⟩
      · obtain rfl := List.mem_singleton.mp member
        trivial
      · obtain rfl := Option.some.inj isHead
        trivial

theorem kept_reopened {s s' : Node R O} (kept : Kept E s) (cleared : (clear_pending : Exec R O Unit).run s = .ok () s') :
    Kept E (opened E s'.objects s'.block_db s'.checkpoints) := by
  rcases clear_pending_cases E.digest s with ⟨e,_,failed,_⟩ | ⟨_,ok,gone⟩
  · rw [cleared] at failed
    cases failed
  rw [cleared] at ok
  cases ok
  refine kept_opened _ ((gone.sound kept.ready.sound).consistent _ (List.mem_cons_self ..)) ?_ (gone.block_db ▸ kept.unnumbered)
  rw [(gone.head kept.ready.pending).applied,gone.block_db]
  exact kept.files

theorem kept_genesis {genesis : Objects R O} (isGenesis : Genesis genesis) (checkpoints : List (Nat × BlockId)) :
    Kept E (opened E genesis .empty checkpoints) := by
  have agree : Agree E (opened E genesis .empty checkpoints) := agree_opened isGenesis checkpoints
  exact ⟨⟨agree.enabled,agree.sound,agree.pending,agree.woven⟩,agree.blocks,fun _ _ e there => (nomatch there)⟩

/-- In every run whose calls work on the chain as a whole, the applied chain is stored. -/
theorem kept_running (injective : Function.Injective E.digest) {genesis : Objects R O} (isGenesis : Genesis genesis)
    (checkpoints : List (Nat × BlockId)) {s : Node R O}
    (running : Running E (Whole E) (opened E genesis .empty checkpoints) s) : Kept E s := by
  induction running with
  | start => exact kept_genesis isGenesis checkpoints
  | call before c meets ih => exact kept_call injective ih meets
  | transact before trx skip ih => exact kept_transact trx skip ih
  | reopened before cleared checked ih => exact kept_reopened ih cleared

end Decent.Database

import Decent.Verdict

/-!
Replaying a stored chain. `reindex` skips the check for duplicate transactions, and
with it the insertion into the table of recent transactions, so the objects it
rebuilds are those of the live node as long as no block carries a transaction.
-/
namespace Decent.Database
open Decent.ObjectDatabase (Exc)
open Decent.Protocol
open Decent.BlockDatabase (Blocks fetch_by_number)
open Throwing

variable {R O : Type} (E : Env R O)

/-- The flags `handle_block` pushes blocks with: signatures of transactions are
    looked at, or not. -/
def Live (skip : Skip) : Prop := skip = .nothing ∨ skip = { Skip.nothing with transaction_signatures := true }

/-- A push of a block on top of the head. -/
def ExtendsHead (s : Node R O) : Call O → Prop
  | .push b skip => b.previous = s.objects.head_block_id ∧ Live skip
  | .pop => False

/-- The block that is pushed has no transactions. -/
def PushesEmpty : Call O → Prop
  | .push b _ => b.transactions = []
  | .pop => True

/-- `reindex` over the blocks of a node gives its objects, and a node that takes the
    same next blocks. -/
def Replays (genesis : Objects R O) (checkpoints : List (Nat × BlockId)) (s : Node R O) : Prop :=
  ∃ t, (reindex E).run (opened E genesis s.block_db checkpoints) = .ok () t ∧ t.objects = s.objects ∧
    ∀ (b : Block O) (skip : Skip), returned ((apply_block E b skip).run (insideSession false s)) =
      returned ((apply_block E b skip).run (insideSession false t))

variable {E}

/-! ### A block on two nodes -/

/-- The same objects without proposals, and the same window for undo. -/
structure Mirrors (s t : Node R O) : Prop where
  objects : s.objects = t.objects
  proposals : s.objects.proposals = []
  max_size : s.undo.max_size = t.undo.max_size

/-- Mirrors that ask the same of the undo history. -/
def MirrorsChecked (s t : Node R O) : Prop :=
  Mirrors s t ∧ s.skip_flags.undo_history_check = t.skip_flags.undo_history_check

theorem mirrors_update {f : Objects R O → Objects R O} (same : ∀ o, (f o).proposals = o.proposals) :
    Alike MirrorsChecked (update f) (update f) :=
  alike_modifyGet fun _ _ ⟨mirrors,checked⟩ =>
    ⟨rfl,⟨congrArg f mirrors.objects,(same _).trans mirrors.proposals,mirrors.max_size⟩,checked⟩

theorem mirrors_onWorld (x : Context → EStateM Exc (World R) Unit) :
    Alike MirrorsChecked (onWorld x : Exec R O Unit) (onWorld x) := by
  intro s t ⟨mirrors,checked⟩
  show Matches _ (onWorld x s) (onWorld x t)
  unfold onWorld
  rw [← mirrors.objects]
  split
  · exact ⟨rfl,⟨rfl,mirrors.proposals,mirrors.max_size⟩,checked⟩
  · exact ⟨rfl,⟨rfl,mirrors.proposals,mirrors.max_size⟩,checked⟩

theorem mirrors_update_global_dynamic_data (b : Block O) :
    Alike MirrorsChecked (update_global_dynamic_data E b) (update_global_dynamic_data E b) := by
  refine alike_bind (mirrors_onWorld _) fun _ => alike_bind (mirrors_update fun _ => rfl) fun _ => ?_
  refine alike_get fun s t ⟨mirrors,checked⟩ => ?_
  rw [mirrors.objects,checked]
  refine alike_bind (alike_provided _ (alike_throw _)) fun _ => ?_
  refine alike_modifyGet fun s t ⟨mirrors,checked⟩ => ⟨rfl,⟨mirrors.objects,mirrors.proposals,?_⟩,checked⟩
  show window s.objects + 1 = window t.objects + 1
  rw [mirrors.objects]

theorem mirrors_update_last_irreversible_block :
    Alike MirrorsChecked (update_last_irreversible_block : Exec R O Unit) update_last_irreversible_block := by
  refine alike_get fun s t ⟨mirrors,checked⟩ => ?_
  rw [mirrors.objects,checked]
  refine alike_ite (mirrors_update fun _ => rfl) ?_
  split
  · exact alike_throw _
  split
  · exact alike_throw _
  · exact alike_provided _ (mirrors_update fun _ => rfl)

theorem mirrors_clear_expired_proposals (n : Nat) :
    Alike MirrorsChecked (clear_expired_proposals E n) (clear_expired_proposals E n) := by
  cases n with
  | zero => exact alike_pure ()
  | succ n =>
    refine alike_get fun s t ⟨mirrors,_⟩ => ?_
    rw [← mirrors.objects]
    simp only [mirrors.proposals,first_to_expire,List.minOn?_nil]
    exact alike_pure ()

theorem mirrors_finish_block (b : Block O) (maint_needed : Bool) :
    Alike MirrorsChecked (finish_block E b maint_needed) (finish_block E b maint_needed) := by
  refine alike_bind (mirrors_update_global_dynamic_data b) fun _ => ?_
  refine alike_bind (alike_bind (mirrors_onWorld _) fun _ => mirrors_update fun _ => rfl) fun _ => ?_
  refine alike_bind mirrors_update_last_irreversible_block fun _ => ?_
  refine alike_bind (alike_provided _ (mirrors_onWorld _)) fun _ => ?_
  refine alike_bind (mirrors_update fun _ => rfl) fun _ => ?_
  refine alike_bind (mirrors_update fun _ => rfl) fun _ => alike_get fun s t ⟨mirrors,_⟩ => ?_
  rw [mirrors.objects]
  exact alike_bind (mirrors_clear_expired_proposals _) fun _ => mirrors_onWorld _

/-- Under the last checkpoint everything is skipped in both ways; above it, `reindex`
    skips what it says. -/
theorem checkpointed_pair (checkpoints : List (Nat × BlockId)) (num : Nat) (skip : Skip) :
    checkpointed checkpoints num skip = .everything ∧ checkpointed checkpoints num reindexFlags = .everything ∨
      checkpointed checkpoints num skip = skip ∧ checkpointed checkpoints num reindexFlags = reindexFlags := by
  unfold checkpointed
  split
  · split
    · exact .inl ⟨rfl,rfl⟩
    · exact .inr ⟨rfl,rfl⟩
  · exact .inr ⟨rfl,rfl⟩

/-- A block without transactions that the live node accepts is replayed, to the same
    objects. -/
theorem mirrors_apply_block {b : Block O} (empty : b.transactions = []) {skip : Skip} (live : Live skip)
    {s t s' : Node R O} (mirrors : Mirrors s t) (checkpoints : s.checkpoints = t.checkpoints)
    (ran : (apply_block E b skip).run s = .ok () s') :
    ∃ t', (apply_block E b reindexFlags).run t = .ok () t' ∧ Mirrors s' t' := by
  obtain ⟨matching,root,valid,m,n,nothing,finished,rfl⟩ := (apply_block_ok E rfl).mp ran
  rw [empty] at nothing
  cases nothing
  have flags := checkpointed_pair s.checkpoints b.block_num skip
  generalize checkpointed s.checkpoints b.block_num skip = left at flags root valid finished
  generalize isRight : checkpointed s.checkpoints b.block_num reindexFlags = right at flags
  have checked : left.undo_history_check = right.undo_history_check := by
    rcases flags with ⟨rfl,rfl⟩ | ⟨rfl,rfl⟩
    · rfl
    · rcases live with rfl | rfl <;> rfl
  have root' : right.merkle_check = true ∨ b.transaction_merkle_root = E.merkle_root b.transactions := by
    rcases flags with ⟨rfl,rfl⟩ | ⟨rfl,rfl⟩
    · exact .inl rfl
    · rcases live with rfl | rfl
      · exact root
      · exact root
  have valid' : ValidHeader E right b t.objects := by
    obtain ⟨miner,isMiner,_⟩ := valid.miner
    rw [← mirrors.objects]
    refine ⟨valid.previous,valid.timestamp,miner,isMiner,?_⟩
    rcases flags with ⟨rfl,rfl⟩ | ⟨rfl,rfl⟩
    · exact ⟨.inl rfl,.inl rfl⟩
    · exact ⟨.inl rfl,.inl rfl⟩
  have alike := mirrors_finish_block (E := E) b (s.objects.world.next_maintenance_time ≤ b.timestamp)
    { s with skip_flags := left } { t with skip_flags := right }
    ⟨⟨mirrors.objects,mirrors.proposals,mirrors.max_size⟩,checked⟩
  rcases matches_cases alike with ⟨_,n1,t1,ranLeft,ranRight,later⟩ | ⟨e,n1,t1,ranLeft,ranRight,_⟩
  swap
  · rw [finished] at ranLeft; cases ranLeft
  rw [finished] at ranLeft
  cases ranLeft
  refine ⟨{ t1 with skip_flags := t.skip_flags },?_,⟨later.1.objects,later.1.proposals,later.1.max_size⟩⟩
  refine (apply_block_ok E (by rw [← checkpoints,isRight])).mpr ⟨checkpoints ▸ matching,root',valid',
    { t with skip_flags := right },t1,?_,?_,rfl⟩
  · rw [empty]; rfl
  · rw [mirrors.objects] at ranRight; exact ranRight

/-! ### The live node -/

theorem close_commit_undo {s s' : Node R O} (ran : (close_session .commit false : Exec R O Unit).run s = .ok () s') :
    s'.objects = s.objects ∧ s'.undo = { s.undo with active_sessions := s.undo.active_sessions - 1 } := by
  simp only [close_session,EStateM.run_bind,EStateM.run_get,Snapshots.commit] at ran
  by_cases open' : s.undo.active_sessions = 0
  · simp [open'] at ran
  · simp only [open',if_false] at ran
    cases ran
    exact ⟨rfl,rfl⟩

theorem close_merge_undo {s s' : Node R O} (ran : (close_session .merge false : Exec R O Unit).run s = .ok () s') :
    s'.objects = s.objects ∧ s'.undo.max_size = s.undo.max_size ∧
      s'.undo.active_sessions = s.undo.active_sessions - 1 := by
  simp only [close_session,EStateM.run_bind,EStateM.run_get,Snapshots.merge] at ran
  split at ran
  · next closed =>
    split at closed
    · cases closed
    · split at closed
      · cases closed; cases ran; exact ⟨rfl,rfl,rfl⟩
      · cases closed
  · cases ran

/-- What a push on top of the head, without pending transactions, has done: it applied
    the block and stored it. -/
theorem extend_applied {b : Block O} (empty : b.transactions = []) {skip : Skip} {s s' : Node R O}
    (on : s.undo.disabled = false) (none : s.objects.proposals = []) (ran : (extend E b skip).run s = .ok () s') :
    ∃ n, (apply_block E b skip).run (insideSession false s) = .ok () n ∧ s'.objects = n.objects ∧
      s'.undo.max_size = n.undo.max_size ∧ s'.undo.active_sessions = s.undo.active_sessions ∧
      n.objects.proposals = [] := by
  obtain ⟨m,stored,closed⟩ := extend_stored ran
  obtain ⟨n1,n2,inner,committed,rfl⟩ := with_session_ok stored
  obtain ⟨⟨⟩,n,applied,kept⟩ := run_bind_ok.mp inner
  cases kept
  have idle := idle_apply_block (E := E) empty skip (insideSession false s) none
  rw [applied] at idle
  obtain ⟨none',undo⟩ := idle
  have opened : n.undo.active_sessions = s.undo.active_sessions + 1 ∧ n.undo.disabled = false := by
    have sessions := congrArg (fun u => u.active_sessions) undo
    have enabled := congrArg (fun u => u.disabled) undo
    simp only [insideSession,Snapshots.start,on,Bool.false_and] at sessions enabled
    exact ⟨sessions,enabled⟩
  rw [on,Bool.false_and] at committed closed
  have commit := close_commit_undo committed
  obtain ⟨objects2,undo2⟩ : n2.objects = n.objects ∧
    n2.undo = { n.undo with active_sessions := n.undo.active_sessions - 1 } := commit
  have enabled : (outside false n2).undo.disabled = false := by
    show n2.undo.disabled = false
    rw [undo2]
    exact opened.2
  obtain ⟨k1,k2,nothing,merged,rfl⟩ := with_session_ok closed
  cases nothing
  rw [enabled,Bool.false_and] at merged ⊢
  obtain ⟨objects3,size,sessions⟩ := close_merge_undo merged
  have started : (insideSession false (outside false n2)).undo.max_size = n.undo.max_size ∧
      (insideSession false (outside false n2)).undo.active_sessions = n.undo.active_sessions := by
    simp only [insideSession,Snapshots.start,enabled,Bool.false_and]
    show n2.undo.max_size = _ ∧ n2.undo.active_sessions + 1 = _
    rw [undo2]
    exact ⟨rfl,Nat.sub_add_cancel (by rw [opened.1]; exact Nat.succ_pos _)⟩
  refine ⟨n,applied,objects3.trans objects2,size.trans started.1,?_,none'⟩
  show k2.undo.active_sessions = _
  rw [sessions,started.2,opened.1]
  rfl

/-! ### Blocks in a row -/

variable (E) in
/-- The blocks one after another, as `reindex` applies them. -/
def replayed (blocks : List (Block O)) : Exec R O Unit := each (fun b => apply_block E b reindexFlags) blocks

theorem replayed_append {blocks : List (Block O)} {b : Block O} {s m s' : Node R O}
    (first : (replayed E blocks).run s = .ok () m) (last : (apply_block E b reindexFlags).run m = .ok () s') :
    (replayed E (blocks ++ [b])).run s = .ok () s' := by
  induction blocks generalizing s with
  | nil =>
    cases first
    exact run_bind_ok.mpr ⟨(),s',last,rfl⟩
  | cons a rest ih =>
    obtain ⟨⟨⟩,n,applied,later⟩ := run_bind_ok.mp first
    exact run_bind_ok.mpr ⟨(),n,applied,ih later⟩

theorem apply_block_block_db {b : Block O} {skip : Skip} {s s' : Node R O}
    (ran : (apply_block E b skip).run s = .ok () s') :
    s'.block_db = s.block_db ∧ s'.checkpoints = s.checkpoints := by
  rcases apply_block_cases E b skip s with ⟨m,ok,_,n,first,second⟩ | ⟨e,m,failed,_⟩
  · rw [ran] at ok
    cases ok
    exact ⟨second.block_db.trans first.block_db,second.checkpoints.trans first.checkpoints⟩
  · rw [ran] at failed
    cases failed

/-- The loop of `reindex` over blocks that are all there. -/
theorem replay_from_replayed {blocks : List (Block O)} {num : Nat} {s s' : Node R O}
    (stored : ∀ i c, blocks[i]? = some c → fetch_by_number E.digest (num + i) s.block_db = some c)
    (ran : (replayed E blocks).run s = .ok () s') : (replay_from E num blocks.length).run s = .ok () s' := by
  induction blocks generalizing num s with
  | nil => exact ran
  | cons b rest ih =>
    obtain ⟨⟨⟩,m,applied,later⟩ := run_bind_ok.mp ran
    have here := stored 0 b rfl
    rw [Nat.add_zero] at here
    simp only [List.length_cons,replay_from,EStateM.run_bind,EStateM.run_get,here]
    rw [applied]
    refine ih (fun i c there => ?_) later
    rw [(apply_block_block_db applied).1,Nat.add_assoc,Nat.add_comm 1 i]
    exact stored (i + 1) c there

variable (E) in
/-- A node that `reindex` has just opened, with its undo database disabled. -/
def replayStart (genesis : Objects R O) (checkpoints : List (Nat × BlockId)) (B : Blocks O) : Node R O :=
  { opened E genesis B checkpoints with undo := Snapshots.disable (opened E genesis B checkpoints).undo }

variable (E) in
/-- What holds of a node that grew by pushes of empty blocks: its chain can be replayed. -/
structure Growing (genesis : Objects R O) (checkpoints : List (Nat × BlockId)) (s : Node R O) : Prop where
  agree : Agree E s
  bare : Bare s
  active_sessions : s.undo.active_sessions = 0
  short : s.block_db.index.length ≤ s.objects.head_block_number + 1
  unwritten : s.objects.head_block_number = 0 → s.block_db.index = []
  replay : ∀ B, ∃ t, (replayed E s.objects.applied.reverse).run (replayStart E genesis checkpoints B) = .ok () t ∧
    Mirrors s t ∧ t.block_db = B ∧ t.checkpoints = checkpoints ∧ t.undo.active_sessions = 0
  checkpoints : s.checkpoints = checkpoints

section
variable {genesis : Objects R O} {checkpoints : List (Nat × BlockId)}

theorem growing_opened (isGenesis : Genesis genesis) (none : genesis.proposals = []) :
    Growing E genesis checkpoints (opened E genesis .empty checkpoints) where
  agree := agree_opened isGenesis checkpoints
  bare := ⟨rfl,rfl,rfl⟩
  active_sessions := rfl
  short := Nat.zero_le _
  unwritten _ := rfl
  replay B := by
    refine ⟨replayStart E genesis checkpoints B,?_,⟨rfl,none,rfl⟩,rfl,rfl,rfl⟩
    show (replayed E genesis.applied.reverse).run _ = _
    rw [isGenesis.applied]
    rfl
  checkpoints := rfl

theorem onTop_of_agree {b : Block O} {s : Node R O} (agree : Agree E s) (onTop : b.previous = s.objects.head_block_id)
    {result : ForkDatabase.Item O × ForkDatabase.Forks O}
    (taken : ForkDatabase.push_block E.digest b s.fork_db = .ok result) :
    result.1.data.previous = s.objects.head_block_id := by
  obtain ⟨new_head,F⟩ := result
  obtain ⟨_,_,_,position⟩ := ForkDatabase.push_block_ok taken agree.woven
  rcases position with ⟨_,data,_⟩ | ⟨old,lower⟩
  · rw [data]; exact onTop
  · have number : b.block_num = s.objects.head_block_number + 1 := by
      show b.previous.num + 1 = _
      rw [onTop,agree.consistent.id,headId_num E.digest agree.consistent.linked,agree.consistent.number]
    have headNum := agree.head_num old
    omega

theorem writeEntry_length (index : List BlockDatabase.IndexEntry) (num : Nat) (e : BlockDatabase.IndexEntry) :
    (BlockDatabase.writeEntry index num e).length = max index.length (num + 1) := by
  simp only [BlockDatabase.writeEntry,List.length_set,List.length_append,List.length_replicate]
  omega

/-- One more block on the live node is one more block to replay. -/
theorem growing_push {b : Block O} (empty : b.transactions = []) {skip : Skip} (live : Live skip) {s s' : Node R O}
    (growing : Growing E genesis checkpoints s) (onTop : b.previous = s.objects.head_block_id) {switched : Bool}
    (ran : (push_block E b skip).run s = .ok switched s') : Growing E genesis checkpoints s' := by
  have uses : skip.fork_db = false := by rcases live with rfl | rfl <;> rfl
  have agree := growing.agree
  have none : s.objects.proposals = [] := by
    obtain ⟨t,_,mirrors,_⟩ := growing.replay s.block_db
    exact mirrors.proposals
  have agree' := agree_push agree uses (.inl onTop) ran
  obtain ⟨F,m,extended,kept,rfl⟩ := push_bare agree.enabled uses growing.bare
    (fun result taken => onTop_of_agree agree onTop taken) ran
  obtain ⟨n,applied,objects,size,sessions,none'⟩ :=
    extend_applied (s := { s with skip_flags := skip, fork_db := F }) empty agree.enabled none extended
  obtain ⟨k,accepted,still,_⟩ := extend_ok (s := { s with skip_flags := skip, fork_db := F }) agree.enabled extended
  have chain : m.objects.applied = b :: s.objects.applied := still.head.applied.trans accepted.moved.applied
  have number : m.objects.head_block_number = b.block_num :=
    still.head.head_block_number.trans accepted.moved.head_block_number
  have given : b.id E.digest ≠ .zero := fun zero => Nat.succ_ne_zero _ (congrArg BlockId.num zero)
  have length : m.block_db.index.length = max s.block_db.index.length (b.block_num + 1) := by
    rw [still.block_db,accepted.stored,BlockDatabase.store,if_neg given]
    exact writeEntry_length ..
  have above : b.block_num = s.objects.head_block_number + 1 := by
    show b.previous.num + 1 = _
    rw [onTop,agree.consistent.id,headId_num E.digest agree.consistent.linked,agree.consistent.number]
  refine ⟨agree',⟨kept.pending_session.trans growing.bare.pending_session,
    kept.pending_tx.trans growing.bare.pending_tx,kept.popped_tx.trans growing.bare.popped_tx⟩,
    sessions.trans growing.active_sessions,?_,?_,?_,?_⟩
  · show m.block_db.index.length ≤ m.objects.head_block_number + 1
    have short := growing.short
    rw [length,number]
    omega
  · show m.objects.head_block_number = 0 → _
    rw [number,above]
    intro zero
    cases zero
  · intro B
    obtain ⟨t,before,mirrors,block_db,checkpoints',idle⟩ := growing.replay B
    have inside : Mirrors (insideSession false { s with skip_flags := skip, fork_db := F }) t := by
      refine ⟨mirrors.objects,mirrors.proposals,?_⟩
      rw [← mirrors.max_size]
      simp [insideSession,Snapshots.start,agree.enabled]
    obtain ⟨t',replay,mirrors'⟩ := mirrors_apply_block empty live inside
      (growing.checkpoints.trans checkpoints'.symm) applied
    obtain ⟨sameBlocks,sameCheckpoints⟩ := apply_block_block_db replay
    have still' := idle_apply_block (E := E) empty reindexFlags t (mirrors.objects ▸ mirrors.proposals)
    rw [replay] at still'
    refine ⟨t',?_,⟨objects.trans mirrors'.objects,?_,size.trans mirrors'.max_size⟩,sameBlocks.trans block_db,
      sameCheckpoints.trans checkpoints',?_⟩
    · show (replayed E m.objects.applied.reverse).run _ = _
      rw [chain,List.reverse_cons]
      exact replayed_append before replay
    · show m.objects.proposals = []
      rw [objects]
      exact none'
    · exact (congrArg (fun u => u.active_sessions) still'.2).trans idle
  · exact (still.checkpoints.trans accepted.checkpoints).trans growing.checkpoints

theorem linked_reverse_num {digest : Header → Nat} {chain : List (Block O)} (linked : Linked digest chain) {i : Nat}
    {c : Block O} (there : chain.reverse[i]? = some c) : c.block_num = i + 1 := by
  induction chain with
  | nil => simp at there
  | cons b rest ih =>
    rw [List.reverse_cons] at there
    by_cases inside : i < rest.length
    · rw [List.getElem?_append_left (by simpa using inside)] at there
      exact ih linked.2 there
    · rw [List.getElem?_append_right (by simpa using inside),List.length_reverse] at there
      have last : i - rest.length = 0 := by
        have bounded := (List.getElem?_eq_some_iff.mp there).1
        simp only [List.length_singleton] at bounded
        omega
      rw [last] at there
      obtain rfl := Option.some.inj there
      show b.previous.num + 1 = _
      rw [linked.1,headId_num digest linked.2]
      omega

/-- Nodes with the same objects, the same blocks and the same windows take the same
    blocks. -/
theorem verdict_of_mirrors {s t : Node R O} (mirrors : Mirrors s t) (block_db : t.block_db = s.block_db)
    (sameCheckpoints : s.checkpoints = t.checkpoints) (left : s.undo.disabled = false) (right : t.undo.disabled = false)
    (sessions : s.undo.active_sessions = t.undo.active_sessions) (b : Block O) (skip : Skip) :
    returned ((apply_block E b skip).run (insideSession false s)) =
      returned ((apply_block E b skip).run (insideSession false t)) :=
  verdict_of_lookups (P := fun _ => True) b skip mirrors.objects sameCheckpoints ⟨left,right,sessions,mirrors.max_size⟩
    (fun n _ => by rw [block_db]) (fun _ _ op _ => refersWithin_all op) fun _ _ op _ => refersWithin_all op

theorem replays_of_growing {s : Node R O} (growing : Growing E genesis checkpoints s) :
    Replays E genesis checkpoints s := by
  have agree := growing.agree
  have consistent := agree.consistent
  obtain ⟨t,ran,mirrors,block_db,sameCheckpoints,idle⟩ := growing.replay s.block_db
  cases chain : s.objects.applied with
  | nil =>
    rw [chain] at ran
    cases ran
    have zero : s.objects.head_block_number = 0 := by rw [consistent.number,chain]; rfl
    refine ⟨opened E genesis s.block_db checkpoints,?_,mirrors.objects.symm,?_⟩
    · have absent : BlockDatabase.last s.block_db = none := by
        simp [BlockDatabase.last,growing.unwritten zero]
      simp only [reindex,EStateM.run_bind,EStateM.run_get,show (opened E genesis s.block_db checkpoints).block_db =
        s.block_db from rfl,absent]
      rfl
    · exact verdict_of_mirrors ⟨mirrors.objects,mirrors.proposals,mirrors.max_size⟩ rfl growing.checkpoints agree.enabled
        rfl growing.active_sessions
  | cons c rest =>
    have found := agree.blocks c (by rw [chain]; exact List.mem_cons_self ..)
    have top : c.block_num = s.objects.applied.length := by
      have linked := consistent.linked
      rw [chain] at linked ⊢
      show c.previous.num + 1 = _
      rw [linked.1,headId_num E.digest linked.2]
      rfl
    have last : BlockDatabase.last s.block_db = some c := by
      refine BlockDatabase.last_of_found found ?_
      rw [top,← consistent.number]
      exact growing.short
    have stored : ∀ i d, s.objects.applied.reverse[i]? = some d →
        fetch_by_number E.digest (1 + i) (replayStart E genesis checkpoints s.block_db).block_db = some d := by
      intro i d there
      have num := linked_reverse_num consistent.linked there
      rw [Nat.add_comm 1 i,← num]
      exact agree.blocks d (List.mem_reverse.mp (List.mem_of_getElem? there))
    have replay := replay_from_replayed stored ran
    rw [List.length_reverse,← top] at replay
    refine ⟨{ t with undo := { t.undo with disabled := false } },?_,mirrors.objects.symm,?_⟩
    · refine run_bind_ok.mpr ⟨opened E genesis s.block_db checkpoints,opened E genesis s.block_db checkpoints,rfl,?_⟩
      simp only [show (opened E genesis s.block_db checkpoints).block_db = s.block_db from rfl,last]
      exact run_bind_ok.mpr ⟨(),replayStart E genesis checkpoints s.block_db,rfl,run_bind_ok.mpr ⟨(),t,replay,rfl⟩⟩
    · exact verdict_of_mirrors (t := { t with undo := { t.undo with disabled := false } })
        ⟨mirrors.objects,mirrors.proposals,mirrors.max_size⟩ block_db (growing.checkpoints.trans sameCheckpoints.symm)
        agree.enabled rfl (growing.active_sessions.trans idle.symm)

/-- A chain of blocks without transactions, pushed one after another, is replayed to the
    objects of the live node. -/
theorem replays_without_transactions (isGenesis : Genesis genesis) (none : genesis.proposals = []) {s : Node R O}
    (reached : Reached E (fun s c => ExtendsHead s c ∧ PushesEmpty c) (opened E genesis .empty checkpoints) s) :
    Replays E genesis checkpoints s := by
  refine replays_of_growing ?_
  induction reached with
  | start => exact growing_opened isGenesis none
  | step c _ condition ran ih =>
    obtain ⟨extends',empty⟩ := condition
    cases c with
    | pop => exact absurd extends' id
    | push b skip =>
      obtain ⟨switched,pushed⟩ := call_push_ok ran
      exact growing_push empty extends'.2 ih extends'.1 pushed

end

theorem replays_two_blocks : Replays quietEnv quietGenesis [] pushed2 := by
  refine replays_without_transactions quietGenesis_isGenesis rfl ?_
  refine .step (s := pushed1) (.push block2 .nothing) ?_ ⟨⟨by decide +kernel,.inl rfl⟩,rfl⟩
    (run_of_returned (by decide +kernel))
  exact .step (.push block1 .nothing) .start ⟨⟨rfl,.inl rfl⟩,rfl⟩ (run_of_returned (by decide +kernel))

/-! ### A block with a transaction -/

def fullBlock : Block Unit := { emptyBlock .zero 1 with transactions := [⟨⟨0,0,100,[.other ()]⟩,[3]⟩] }

def pushedFull : Node Unit Unit := endState ((call quietEnv (.push fullBlock .nothing)).run quietStart)

/-- The live node has recorded the transaction, the replayed one has not. -/
theorem replay_forgets : ¬ ∀ s, Reached quietEnv ExtendsHead quietStart s → Replays quietEnv quietGenesis [] s := by
  intro replays
  have reached : Reached quietEnv ExtendsHead quietStart pushedFull :=
    .step (.push fullBlock .nothing) .start ⟨rfl,.inl rfl⟩ (run_of_returned (by decide +kernel))
  obtain ⟨t,ran,objects,_⟩ := replays pushedFull reached
  have live : pushedFull.objects.next_transaction = 1 := by decide +kernel
  have replayed : (endState ((reindex quietEnv).run (opened quietEnv quietGenesis pushedFull.block_db []))).objects.next_transaction
      = 0 := by decide +kernel
  rw [ran,endState_ok,objects,live] at replayed
  cases replayed

end Decent.Database

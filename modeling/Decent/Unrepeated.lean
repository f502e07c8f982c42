import Decent.Everywhere

/-!
No transaction is applied twice. A block is refused when the index knows one of its
transactions; an entry stays in the index for as long as the expiration check would let
the transaction through again. Blocks up to the last checkpoint are applied with all
checks skipped and enter nothing into the index.
-/
namespace Decent.Database
open Decent.ObjectDatabase (Exc)
open Decent.Protocol
open Throwing

variable {R O : Type}

/-! ### The index -/

/-- The entries have ids of their own, below the next one. -/
structure Indexed (o : Objects R O) : Prop where
  ids : (o.transactions.map fun e => e.id).Nodup
  below : ∀ e ∈ o.transactions, e.id < o.next_transaction

/-- The head stays, and so does every entry of the index. -/
structure Lasting (o o' : Objects R O) : Prop where
  head : SameHead o' o
  time : o'.time = o.time
  entries : ∀ e ∈ o.transactions, e ∈ o'.transactions
  indexed : Indexed o → Indexed o'

theorem lasting_composes : Composes (Lasting (R := R) (O := O)) where
  refl o := ⟨.refl o,rfl,fun _ => id,id⟩
  trans := by
    intro a b c first second
    exact ⟨second.head.trans first.head,second.time.trans first.time,fun e member => second.entries e (first.entries e member),
      second.indexed ∘ first.indexed⟩

theorem lasting_neutral : Neutral (Carries (Lasting (R := R) (O := O))) :=
  neutral_carries lasting_composes fun _ _ _ _ => ⟨⟨rfl,rfl,rfl⟩,rfl,fun _ => id,fun indexed => ⟨indexed.ids,indexed.below⟩⟩

/-- `clear_expired_transactions` takes away expired entries only. -/
theorem mem_clear_expired {now : Nat} {e : TransactionObject O} (current : now ≤ e.trx.expiration) (n : Nat)
    {table : List (TransactionObject O)} (ids : (table.map fun e => e.id).Nodup) (member : e ∈ table) :
    e ∈ clear_expired now n table := by
  induction n generalizing table with
  | zero => exact member
  | succ n ih =>
    unfold clear_expired
    split
    · exact member
    next latest found =>
    split
    · next late =>
      refine ih (ids.sublist (List.filter_sublist.map _)) (List.mem_filter.mpr ⟨member,?_⟩)
      have other : e.id ≠ latest.id := by
        intro same
        have isLatest : e = latest := List.inj_on_of_nodup_map ids member (List.maxOn?_mem found) same
        rw [isLatest] at current
        omega
      simpa using other
    · exact member

theorem clear_expired_sublist (now n : Nat) (table : List (TransactionObject O)) :
    (clear_expired now n table).Sublist table := by
  induction n generalizing table with
  | zero => exact .refl _
  | succ n ih =>
    unfold clear_expired
    split
    · exact .refl _
    split
    · exact (ih _).trans List.filter_sublist
    · exact .refl _

/-! ### Transactions -/

section
variable (E : Env R O)

/-- The index has the entry that applying the transaction makes. -/
def Entered (t : Transaction O) (o : Objects R O) : Prop := ∃ e ∈ o.transactions, e.trx = t ∧ e.trx_id = trx_id E t

variable {E}

theorem Entered.lasting {t : Transaction O} {o o' : Objects R O} (lasting : Lasting o o') (entered : Entered E t o) :
    Entered E t o' := by
  obtain ⟨e,member,same⟩ := entered
  exact ⟨e,lasting.entries e member,same⟩

theorem Entered.known {t : Transaction O} {o : Objects R O} (entered : Entered E t o) :
    is_known_transaction (trx_id E t) o = true := by
  obtain ⟨e,member,_,named⟩ := entered
  exact List.any_eq_true.mpr ⟨e,member,by simpa using named⟩

theorem known_lasting {id : Nat} {o o' : Objects R O} (lasting : Lasting o o') (unknown : is_known_transaction id o' = false) :
    is_known_transaction id o = false := by
  simp only [is_known_transaction,List.any_eq_false,decide_eq_true_eq] at unknown ⊢
  exact fun e member => unknown e (lasting.entries e member)

theorem lasting_create (t : Transaction O) : Keeps (Carries Lasting) (create_transaction E t : Exec R O Unit) := by
  refine keeps_update fun s => carries_objects ⟨⟨rfl,rfl,rfl⟩,rfl,fun e member => List.mem_append_left _ member,?_⟩
  intro indexed
  refine ⟨?_,fun e member => ?_⟩
  · rw [List.map_append,List.nodup_append]
    refine ⟨indexed.ids,List.nodup_singleton _,fun a old b new => ?_⟩
    obtain ⟨e,member,rfl⟩ := List.mem_map.mp old
    obtain rfl : b = s.objects.next_transaction := by simpa using new
    exact Nat.ne_of_lt (indexed.below e member)
  · rcases List.mem_append.mp member with old | new
    · exact Nat.lt_succ_of_lt (indexed.below e old)
    · obtain rfl := List.mem_singleton.mp new
      exact Nat.lt_succ_self _

theorem lasting_apply_transaction (t : Transaction O) : Keeps (Carries Lasting) (_apply_transaction E t) :=
  neutral_apply_transaction lasting_neutral E t (lasting_create t)

/-- The checks change nothing, and let no transaction through that is known or, once
    there is a block, expired. -/
theorem check_transaction_ok {t : Transaction O} {s s' : Node R O} (ran : (check_transaction E t).run s = .ok () s') :
    s' = s ∧ (s.skip_flags.transaction_dupe_check = true ∨ is_known_transaction (trx_id E t) s.objects = false) ∧
      (0 < s.objects.head_block_number → s.objects.time ≤ t.expiration) := by
  have composes : Composes fun s s' : Node R O => s' = s := ⟨fun _ => rfl,fun first second => second.trans first⟩
  have same : s' = s := by
    have ends := keeps_check_transaction composes E t s
    rw [ran] at ends
    exact ends
  refine ⟨same,?_⟩
  obtain ⟨_,_,got,ran⟩ := run_bind_ok.mp ran
  cases got
  obtain ⟨_,s₁,valid,ran⟩ := run_bind_ok.mp ran
  have valid' := keeps_check composes (E.validate t.toTransactionBody) s
  rw [valid] at valid'
  obtain rfl : s₁ = s := valid'
  obtain ⟨_,s₂,fresh,ran⟩ := run_bind_ok.mp ran
  rw [run_fc_assert] at fresh
  split at fresh
  swap
  · cases fresh
  next unknown =>
  cases fresh
  refine ⟨unknown,fun positive => ?_⟩
  obtain ⟨_,s₂,authorised,ran⟩ := run_bind_ok.mp ran
  have authorised' := keeps_provided composes (¬ (s₁.skip_flags.transaction_signatures = true ∨
    s₁.skip_flags.authority_check = true)) (keeps_check composes (E.verify_authority s₁.objects.world t)) s₁
  rw [authorised] at authorised'
  obtain rfl : s₂ = s₁ := authorised'
  rw [provided,if_pos positive] at ran
  obtain ⟨_,_,got,ran⟩ := run_bind_ok.mp ran
  cases got
  obtain ⟨_,s₃,recent,ran⟩ := run_bind_ok.mp ran
  rw [run_fc_assert] at recent
  split at recent
  swap
  · cases recent
  cases recent
  obtain ⟨_,s₃,near,ran⟩ := run_bind_ok.mp ran
  rw [run_fc_assert] at near
  split at near
  swap
  · cases near
  cases near
  rw [run_fc_assert] at ran
  split at ran
  · assumption
  · cases ran

/-- What applying a transaction with the duplicate check says when it returns. -/
structure AppliedOnce (E : Env R O) (t : Transaction O) (s s' : Node R O) : Prop where
  carries : Carries Lasting s s'
  unknown : is_known_transaction (trx_id E t) s.objects = false
  current : 0 < s.objects.head_block_number → s.objects.time ≤ t.expiration
  entered : Entered E t s'.objects

theorem apply_transaction_once {t : Transaction O} {flags : Skip} (checks : flags.transaction_dupe_check = false)
    {s s' : Node R O} (ran : (apply_transaction E t flags).run s = .ok () s') : AppliedOnce E t s s' := by
  have carries : Carries Lasting s (endState ((apply_transaction E t flags).run s)) :=
    carries_with_skip_flags (lasting_apply_transaction t) flags s
  rw [ran] at carries
  rw [apply_transaction,run_with_skip_flags] at ran
  split at ran
  swap
  · cases ran
  next m inner =>
  cases ran
  obtain ⟨_,_,got,inner⟩ := run_bind_ok.mp inner
  cases got
  obtain ⟨_,s₁,checked,inner⟩ := run_bind_ok.mp inner
  obtain ⟨rfl,unknown,current⟩ := check_transaction_ok checked
  obtain ⟨_,s₂,created,inner⟩ := run_bind_ok.mp inner
  rw [provided,if_pos (by simp [checks])] at created
  cases created
  refine ⟨carries,?_,current,?_⟩
  · rcases unknown with skipped | unknown
    · rw [checks] at skipped; cases skipped
    · exact unknown
  obtain ⟨_,s₃,ops,inner⟩ := run_bind_ok.mp inner
  have later := keeps_each lasting_neutral.toComposes (neutral_apply_operation lasting_neutral E E.depth) t.operations
    { s with skip_flags := flags, objects := { s.objects with
      transactions := s.objects.transactions ++ [⟨s.objects.next_transaction,trx_id E t,t⟩]
      next_transaction := s.objects.next_transaction + 1 } }
  rw [ops] at later
  have made : Entered E t s₃.objects :=
    Entered.lasting later.objects ⟨_,List.mem_append_right _ (List.mem_singleton.mpr rfl),rfl,rfl⟩
  obtain ⟨_,_,got,inner⟩ := run_bind_ok.mp inner
  cases got
  rw [run_fc_assert] at inner
  split at inner
  · cases inner
    exact made
  · cases inner

/-- What applying the transactions of a block with the duplicate check says when it
    returns. -/
structure AppliedAllOnce (E : Env R O) (ts : List (Transaction O)) (s s' : Node R O) : Prop where
  carries : Carries Lasting s s'
  unknown : ∀ t ∈ ts, is_known_transaction (trx_id E t) s.objects = false
  current : ∀ t ∈ ts, 0 < s.objects.head_block_number → s.objects.time ≤ t.expiration
  entered : ∀ t ∈ ts, Entered E t s'.objects
  distinct : (ts.map (trx_id E)).Nodup

theorem apply_transactions_once {flags : Skip} (checks : flags.transaction_dupe_check = false)
    (ts : List (Transaction O)) {s s' : Node R O}
    (ran : (each (fun t => apply_transaction E t flags) ts).run s = .ok () s') : AppliedAllOnce E ts s s' := by
  induction ts generalizing s with
  | nil =>
    cases ran
    exact ⟨(carries_composes lasting_composes).refl _,by simp,by simp,by simp,List.nodup_nil⟩
  | cons t ts ih =>
    obtain ⟨_,m,first,rest⟩ := run_bind_ok.mp ran
    have once := apply_transaction_once checks first
    have later := ih rest
    have before : Lasting s.objects m.objects := once.carries.objects
    refine ⟨(carries_composes lasting_composes).trans once.carries later.carries,fun u member => ?_,fun u member => ?_,
      fun u member => ?_,?_⟩
    · rcases List.mem_cons.mp member with rfl | member
      · exact once.unknown
      · exact known_lasting before (later.unknown u member)
    · rcases List.mem_cons.mp member with rfl | member
      · exact once.current
      · rw [← before.time,← before.head.head_block_number]
        exact later.current u member
    · rcases List.mem_cons.mp member with rfl | member
      · exact once.entered.lasting later.carries.objects
      · exact later.entered u member
    · rw [List.map_cons,List.nodup_cons]
      refine ⟨fun again => ?_,later.distinct⟩
      obtain ⟨u,member,same⟩ := List.mem_map.mp again
      have unknown := later.unknown u member
      rw [same,once.entered.known] at unknown
      cases unknown

end

/-! ### Blocks -/

/-- The number of the last checkpoint. -/
def lastCheckpoint (checkpoints : List (Nat × BlockId)) : Nat :=
  match checkpoints.getLast? with
  | some (last,id) => if id = .zero then 0 else last
  | none => 0

/-- Blocks up to the last checkpoint are applied with everything skipped. -/
theorem checkpointed_eq (checkpoints : List (Nat × BlockId)) {num : Nat} (positive : 0 < num) (skip : Skip) :
    checkpointed checkpoints num skip = if num ≤ lastCheckpoint checkpoints then .everything else skip := by
  unfold checkpointed lastCheckpoint
  cases checkpoints.getLast? with
  | none => simp [Nat.ne_of_gt positive]
  | some last =>
    by_cases zero : last.2 = .zero
    · simp [zero,Nat.ne_of_gt positive]
    · simp [zero]

/-- The transactions of a chain's blocks above the last checkpoint. -/
def checkedTransactions (checkpoints : List (Nat × BlockId)) (chain : List (Block O)) : List (Transaction O) :=
  (chain.filter fun b => lastCheckpoint checkpoints < b.block_num).flatMap fun b => b.transactions

/-- No transaction above the last checkpoint was applied twice, and the index knows the
    ones that have not expired. -/
structure Unrepeated (E : Env R O) (checkpoints : List (Nat × BlockId)) (o : Objects R O) : Prop where
  once : ((checkedTransactions checkpoints o.applied).map (trx_id E)).Nodup
  entered : ∀ t ∈ checkedTransactions checkpoints o.applied, o.time ≤ t.expiration → Entered E t o
  indexed : Indexed o
  start : o.head_block_number = 0 → o.applied = []

section
variable {E : Env R O}

theorem unrepeated_lasting {c : List (Nat × BlockId)} {o o' : Objects R O} (lasting : Lasting o o')
    (unrepeated : Unrepeated E c o) : Unrepeated E c o' where
  once := by rw [lasting.head.applied]; exact unrepeated.once
  entered := by
    rw [lasting.head.applied,lasting.time]
    exact fun t member current => (unrepeated.entered t member current).lasting lasting
  indexed := lasting.indexed unrepeated.indexed
  start := by rw [lasting.head.head_block_number,lasting.head.applied]; exact unrepeated.start

/-- The transactions of a block are entered and new to the chain, if the checks of the
    block were made at all. -/
def Vouched (E : Env R O) (c : List (Nat × BlockId)) (b : Block O) (o : Objects R O) : Prop :=
  lastCheckpoint c < b.block_num →
    (∀ t ∈ b.transactions, Entered E t o) ∧
      ((b.transactions ++ checkedTransactions c o.applied).map (trx_id E)).Nodup

theorem unrepeated_advance {c : List (Nat × BlockId)} {b : Block O} {o : Objects R O} (later : o.time < b.timestamp)
    (vouched : Vouched E c b o) (unrepeated : Unrepeated E c o) : Unrepeated E c (advance E b o) := by
  have indexed : Indexed (advance E b o) := ⟨unrepeated.indexed.ids,unrepeated.indexed.below⟩
  have kept : ∀ t ∈ checkedTransactions c o.applied, b.timestamp ≤ t.expiration → Entered E t (advance E b o) :=
    fun t member current => unrepeated.entered t member (by omega)
  have start : (advance E b o).head_block_number = 0 → (advance E b o).applied = [] :=
    fun zero => absurd zero (Nat.ne_of_gt (block_num_pos b))
  by_cases above : lastCheckpoint c < b.block_num
  · obtain ⟨entered,distinct⟩ := vouched above
    have shape : checkedTransactions c (b :: o.applied) = b.transactions ++ checkedTransactions c o.applied := by
      simp [checkedTransactions,above]
    refine ⟨?_,fun t member current => ?_,indexed,start⟩
    · show ((checkedTransactions c (b :: o.applied)).map (trx_id E)).Nodup
      rw [shape]
      exact distinct
    · have member : t ∈ checkedTransactions c (b :: o.applied) := member
      rw [shape] at member
      rcases List.mem_append.mp member with new | old
      · exact entered t new
      · exact kept t old current
  · have shape : checkedTransactions c (b :: o.applied) = checkedTransactions c o.applied := by
      simp [checkedTransactions,above]
    refine ⟨?_,fun t member current => ?_,indexed,start⟩
    · show ((checkedTransactions c (b :: o.applied)).map (trx_id E)).Nodup
      rw [shape]
      exact unrepeated.once
    · have member : t ∈ checkedTransactions c (b :: o.applied) := member
      rw [shape] at member
      exact kept t member current

/-- The hash of transactions has no collision between two that expire at different times. -/
def CollisionFree (E : Env R O) : Prop :=
  ∀ t u : TransactionBody O, E.trx_hash t = E.trx_hash u → t.expiration = u.expiration

/-- Transactions that pass the duplicate and expiration checks are new to the chain:
    those of the chain that have not expired are in the index. -/
theorem vouched_of_once (collisionFree : CollisionFree E) {c : List (Nat × BlockId)} {b : Block O}
    {s m : Node R O} (unrepeated : Unrepeated E c s.objects) (once : AppliedAllOnce E b.transactions s m) :
    Vouched E c b m.objects := by
  intro _
  refine ⟨once.entered,?_⟩
  rw [once.carries.objects.head.applied,List.map_append,List.nodup_append]
  refine ⟨once.distinct,unrepeated.once,fun x new y old same => ?_⟩
  obtain ⟨t,inBlock,rfl⟩ := List.mem_map.mp new
  obtain ⟨u,onChain,rfl⟩ := List.mem_map.mp old
  have expirations : t.expiration = u.expiration := collisionFree _ _ same
  have positive : 0 < s.objects.head_block_number := by
    refine Nat.pos_of_ne_zero fun zero => ?_
    rw [unrepeated.start zero] at onChain
    cases onChain
  have current := once.current t inBlock positive
  rw [expirations] at current
  have unknown := once.unknown t inBlock
  rw [same,(unrepeated.entered u onChain current).known] at unknown
  cases unknown

theorem unrepeated_clear {c : List (Nat × BlockId)} {o : Objects R O} (unrepeated : Unrepeated E c o) :
    Unrepeated E c { o with transactions := clear_expired o.time o.transactions.length o.transactions } := by
  have part := clear_expired_sublist o.time o.transactions.length o.transactions
  refine ⟨unrepeated.once,fun t member current => ?_,⟨?_,?_⟩,unrepeated.start⟩
  · obtain ⟨e,inside,rfl,named⟩ := unrepeated.entered t member current
    exact ⟨e,mem_clear_expired current _ unrepeated.indexed.ids inside,rfl,named⟩
  · exact unrepeated.indexed.ids.sublist (part.map _)
  · exact fun e member => unrepeated.indexed.below e (part.subset member)

theorem stays_lasting {s s' : Node R O} (carries : Carries Lasting s s') (same : s'.checkpoints = s.checkpoints) :
    Stays (Unrepeated E) s s' :=
  stays_of_carries carries same fun _ _ _ => unrepeated_lasting

theorem stays_update {f : Objects R O → Objects R O} (lasting : ∀ o, Lasting o (f o)) :
    Keeps (Stays (Unrepeated E)) (update f) :=
  keeps_update fun s => stays_objects (unrepeated_lasting (lasting s.objects))

theorem stays_onWorld (x : Context → EStateM Exc (World R) Unit) :
    Keeps (Stays (Unrepeated E)) (onWorld x : Exec R O Unit) :=
  keeps_onWorld fun _ _ => stays_objects (unrepeated_lasting
    ⟨⟨rfl,rfl,rfl⟩,rfl,fun _ => id,fun indexed => ⟨indexed.ids,indexed.below⟩⟩)

/-- Once the block is on the chain, the rest of `_apply_block` keeps the index right. -/
theorem stays_after_advance (b : Block O) (maint_needed : Bool) : Keeps (Stays (Unrepeated E)) (do
    update_signing_miner E b
    update_last_irreversible_block
    provided (maint_needed = true) (onWorld E.perform_chain_maintenance)
    create_block_summary E b
    clear_expired_transactions
    clear_expired_proposals E (← get).objects.proposals.length
    onWorld fun ctx => E.finish_block ctx maint_needed : Exec R O Unit) := by
  have plain : ∀ o o' : Objects R O, SameHead o' o → o'.time = o.time → o'.transactions = o.transactions →
      o'.next_transaction = o.next_transaction → Lasting o o' := by
    intro o o' head time table next
    refine ⟨head,time,fun e => by rw [table]; exact id,fun indexed => ⟨?_,?_⟩⟩
    · rw [table]; exact indexed.ids
    · rw [table,next]; exact indexed.below
  refine keeps_bind stays_composes (keeps_bind stays_composes (stays_onWorld _) fun _ => ?_) fun _ => ?_
  · exact stays_update fun o => plain o _ ⟨rfl,rfl,rfl⟩ rfl rfl rfl
  refine keeps_bind stays_composes (keeps_update_last_irreversible_block stays_composes fun s num => ?_) fun _ => ?_
  · exact stays_update (f := fun o => { o with last_irreversible_block_num := num })
      (fun o => plain o _ ⟨rfl,rfl,rfl⟩ rfl rfl rfl) s
  refine keeps_bind stays_composes (keeps_provided stays_composes _ (stays_onWorld _)) fun _ => ?_
  refine keeps_bind stays_composes (stays_update fun o => plain o _ ⟨rfl,rfl,rfl⟩ rfl rfl rfl) fun _ => ?_
  refine keeps_bind stays_composes (keeps_update fun s => stays_objects unrepeated_clear) fun _ => ?_
  refine keeps_bind stays_composes (keeps_get stays_composes) fun s => ?_
  refine keeps_bind stays_composes (fun t => ?_) fun _ => stays_onWorld _
  exact stays_lasting (neutral_clear_expired_proposals lasting_neutral E _ t)
    (quiet_clear_expired_proposals E _ t).checkpoints

theorem everywhere_finish_block {b : Block O} {maint_needed : Bool} {s : Node R O} (later : s.objects.time < b.timestamp)
    (vouched : Vouched E s.checkpoints b s.objects) (everywhere : Everywhere (Unrepeated E) s) :
    Everywhere (Unrepeated E) (endState ((finish_block E b maint_needed).run s)) := by
  refine ends_then ?_ fun _ s' _ inside => stays_after_advance b maint_needed s' inside
  -- The world may change before the block is put on the chain, the index does not.
  refine ends_bind (fun e s' ran => ?_) fun _ s' ran => ?_
  · have ends := stays_onWorld (fun ctx => E.update_slots ctx b.timestamp b.miner) s everywhere
    rw [ran] at ends
    exact ends
  have world : ∃ w, s' = { s with objects := { s.objects with world := w } } := by
    have kept := keeps_onWorld (P := fun s s' : Node R O => ∃ w, s' = { s with objects := { s.objects with world := w } })
      (x := fun ctx => E.update_slots ctx b.timestamp b.miner) (fun s w => ⟨w,rfl⟩) s
    rw [ran] at kept
    exact kept
  obtain ⟨w,rfl⟩ := world
  have before : Everywhere (Unrepeated E) { s with objects := { s.objects with world := w } } := by
    have ends := stays_onWorld (fun ctx => E.update_slots ctx b.timestamp b.miner) s everywhere
    rw [ran] at ends
    exact ends
  have advanced := stays_objects (s := { s with objects := { s.objects with world := w } })
    (o := advance E b { s.objects with world := w }) (unrepeated_advance later vouched) before
  have rest : Keeps (Stays (Unrepeated E)) (do
      let s ← get
      provided (¬ s.skip_flags.undo_history_check = true ∧ ¬ window s.objects < maxUndoHistory)
        (throw .undo_database_exception)
      set_windows : Exec R O Unit) := by
    refine keeps_bind stays_composes (keeps_get stays_composes) fun s => ?_
    refine keeps_bind stays_composes (keeps_provided stays_composes _ (keeps_throw stays_composes _)) fun _ => ?_
    exact keeps_modifyGet fun s everywhere => everywhere
  exact rest _ advanced

theorem lasting_apply (t : Transaction O) (flags : Skip) : Keeps (Carries Lasting) (apply_transaction E t flags) :=
  carries_with_skip_flags (lasting_apply_transaction t) flags

theorem quiet_apply (t : Transaction O) (flags : Skip) : Keeps Quiet (apply_transaction E t flags) :=
  quiet_with_skip_flags (quiet_apply_transaction E t) flags

theorem stays_apply_block (collisionFree : CollisionFree E) (b : Block O) :
    Keeps (Stays (Unrepeated E)) (apply_block E b .nothing) := by
  intro s
  rcases apply_block_runs E b .nothing s with ⟨e,refused⟩ | ⟨valid,runs⟩
  · rw [refused]
    exact id
  rw [runs]
  refine stays_with_skip_flags fun everywhere => ?_
  have isFlags := checkpointed_eq s.checkpoints (block_num_pos b) .nothing
  generalize checkpointed s.checkpoints b.block_num .nothing = flags at valid everywhere isFlags ⊢
  have lasting := keeps_each lasting_neutral.toComposes (fun t => lasting_apply (E := E) t
    { flags with transaction_signatures := true }) b.transactions { s with skip_flags := flags }
  have quiet := keeps_each quiet_composes (fun t => quiet_apply (E := E) t
    { flags with transaction_signatures := true }) b.transactions { s with skip_flags := flags }
  refine ends_then (stays_lasting lasting quiet.checkpoints everywhere) fun _ m ran inside => ?_
  rw [ran,endState_ok] at quiet lasting
  refine everywhere_finish_block ?_ ?_ inside
  · rw [lasting.objects.time]
    exact valid.timestamp
  · rw [quiet.checkpoints]
    intro above
    rw [if_neg (Nat.not_le_of_lt above)] at isFlags
    have once := apply_transactions_once (by rw [isFlags]; rfl) b.transactions ran
    exact vouched_of_once collisionFree everywhere.objects once above

theorem stays_apply_transaction (t : Transaction O) : Keeps (Stays (Unrepeated E)) (_apply_transaction E t) := fun s =>
  stays_lasting (lasting_apply_transaction t s) (quiet_apply_transaction E t s).checkpoints

end

/-! ### Runs -/

theorem unrepeated_opened {E : Env R O} {genesis : Objects R O} (isGenesis : Genesis genesis)
    (unused : genesis.transactions = []) (checkpoints : List (Nat × BlockId)) :
    Everywhere (Unrepeated E) (opened E genesis .empty checkpoints) := by
  intro o member
  obtain rfl : o = genesis := List.mem_singleton.mp member
  refine ⟨?_,?_,⟨?_,?_⟩,fun _ => isGenesis.applied⟩
  · simp [checkedTransactions,isGenesis.applied]
  · simp [checkedTransactions,isGenesis.applied]
  · simp [unused]
  · simp [unused]

/-- A block above the last checkpoint is applied only where the index has none of its
    transactions. -/
theorem unknown_of_applied {E : Env R O} {b : Block O} {s s' : Node R O} (above : lastCheckpoint s.checkpoints < b.block_num)
    (ran : (apply_block E b .nothing).run s = .ok () s') :
    ∀ t ∈ b.transactions, is_known_transaction (trx_id E t) s.objects = false := by
  have flags : Skip.nothing = checkpointed s.checkpoints b.block_num .nothing := by
    rw [checkpointed_eq _ (block_num_pos b),if_neg (Nat.not_le_of_lt above)]
  obtain ⟨_,_,_,m,_,applied,_⟩ := (apply_block_ok E flags).mp ran
  exact (apply_transactions_once rfl b.transactions applied).unknown

/-- In every run, no transaction occurs twice among the blocks above the last
    checkpoint, the index knows those that have not expired, and a block is only applied
    to a state whose index has none of its transactions. -/
theorem no_transaction_twice {E : Env R O} (collisionFree : CollisionFree E) {genesis : Objects R O}
    (isGenesis : Genesis genesis) (unused : genesis.transactions = []) (checkpoints : List (Nat × BlockId))
    {s : Node R O} (served : Served E (opened E genesis .empty checkpoints) s) :
    ((checkedTransactions checkpoints s.objects.applied).map (trx_id E)).Nodup ∧
      (∀ t ∈ checkedTransactions checkpoints s.objects.applied, s.objects.time ≤ t.expiration →
        is_known_transaction (trx_id E t) s.objects = true) ∧
      ∀ b s', lastCheckpoint checkpoints < b.block_num → (apply_block E b .nothing).run s = .ok () s' →
        ∀ t ∈ b.transactions, is_known_transaction (trx_id E t) s.objects = false := by
  have unrepeated : Everywhere (Unrepeated E) s :=
    served.stays (stays_apply_block collisionFree) stays_apply_transaction
      (unrepeated_opened isGenesis unused checkpoints)
  have same : s.checkpoints = checkpoints := served.checkpoints
  have now := unrepeated.objects
  rw [same] at now
  refine ⟨now.once,fun t member current => (now.entered t member current).known,fun b s' above ran => ?_⟩
  exact unknown_of_applied (by rw [same]; exact above) ran

/-- A block with one transaction. -/
def spendingBlock (previous : BlockId) (timestamp expiration : Nat) : Block Unit :=
  ⟨⟨previous,timestamp,0,0,0⟩,[⟨⟨0,0,expiration,[.other ()]⟩,[3]⟩]⟩

def spending1 : Block Unit := spendingBlock .zero 1 100
def spending2 : Block Unit := spendingBlock (spending1.id pairDigest) 2 200
/-- The block repeats the transaction of the first. -/
def repeating2 : Block Unit := spendingBlock (spending1.id pairDigest) 2 100

/-- The node after two blocks, with the checkpoints it was started with. -/
def afterBlocks (checkpoints : List (Nat × BlockId)) (first second : Block Unit) : Node Unit Unit :=
  endState ((request quietEnv (.push_block second)).run
    (endState ((request quietEnv (.push_block first)).run (opened quietEnv quietGenesis .empty checkpoints))))

theorem afterBlocks_served (checkpoints : List (Nat × BlockId)) (first second : Block Unit) :
    Served quietEnv (opened quietEnv quietGenesis .empty checkpoints) (afterBlocks checkpoints first second) :=
  .step _ (.step _ .start)

theorem two_transactions_once :
    (checkedTransactions [] (afterBlocks [] spending1 spending2).objects.applied).length = 2 ∧
      ((checkedTransactions [] (afterBlocks [] spending1 spending2).objects.applied).map (trx_id quietEnv)).Nodup :=
  ⟨by decide +kernel,(no_transaction_twice (fun _ _ same => same) quietGenesis_isGenesis rfl []
    (afterBlocks_served [] spending1 spending2)).1⟩

/-- Below a checkpoint the same transaction is applied by two blocks. -/
theorem transaction_applied_twice :
    ¬ ∀ checkpoints s, Served quietEnv (opened quietEnv quietGenesis .empty checkpoints) s →
      ((s.objects.applied.flatMap fun b => b.transactions).map (trx_id quietEnv)).Nodup := by
  intro once
  have twice := once [(2,repeating2.id pairDigest)] _ (afterBlocks_served _ spending1 repeating2)
  have ids : (((afterBlocks [(2,repeating2.id pairDigest)] spending1 repeating2).objects.applied.flatMap
      fun b => b.transactions).map (trx_id quietEnv)) = [100,100] := by decide +kernel
  rw [ids] at twice
  exact absurd twice (by decide)

end Decent.Database

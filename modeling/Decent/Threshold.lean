import Mathlib.Logic.Relation
import Decent.Agreement
import Decent.Lib.Ranks

/-!
How far back a block has to lie to be irreversible. The active miners are put in the
order of the blocks they last confirmed, and the one at three tenths of the list gives
the number that all behind it, seven tenths of the miners, have confirmed.
-/
namespace Decent.Database
open Decent.ObjectDatabase (Exc)
open Decent.Protocol
open Throwing

variable {R O : Type}

/-! ## One call -/

/-- `GRAPHENE_IRREVERSIBLE_THRESHOLD`. -/
def irreversibleThreshold : Nat := hundredPercent - reversiblePercent

/-- `offset`. -/
def offset (w : World R) : Nat := reversiblePercent * w.active_miners.length / hundredPercent

/-- How many active miners have confirmed a block of the number or a later one. -/
def confirmers (w : World R) (num : Nat) : Nat :=
  w.active_miners.countP fun id => (w.miners id).any fun m => num ≤ m.last_confirmed_block_num

/-- At least the threshold of the active miners have confirmed the number. -/
def Supermajority (w : World R) (num : Nat) : Prop :=
  irreversibleThreshold * w.active_miners.length ≤ hundredPercent * confirmers w num

/-- The place is one of the list whenever the list has any. -/
theorem offset_lt {w : World R} (present : w.active_miners ≠ []) : offset w < w.active_miners.length := by
  have positive := List.length_pos_iff.mpr present
  unfold offset reversiblePercent hundredPercent
  omega

theorem mapM_some {α β : Type} {f : α → Option β} {l : List α} {l' : List β} (all : l.mapM f = some l') :
    l'.length = l.length ∧ (∀ b ∈ l', ∃ a ∈ l, f a = some b) ∧
      ∀ p : β → Bool, l'.countP p = l.countP fun a => (f a).any p := by
  induction l generalizing l' with
  | nil =>
    rw [List.mapM_nil] at all
    cases all
    simp
  | cons a rest ih =>
    rw [List.mapM_cons] at all
    obtain ⟨b,first,more⟩ := Option.bind_eq_some_iff.mp all
    obtain ⟨bs,others,whole⟩ := Option.bind_eq_some_iff.mp more
    cases whole
    obtain ⟨size,from_list,count⟩ := ih others
    refine ⟨by simp [size],fun c member => ?_,fun p => ?_⟩
    · rcases List.mem_cons.mp member with rfl | later
      · exact ⟨a,List.mem_cons_self,first⟩
      · obtain ⟨x,inside,named⟩ := from_list c later
        exact ⟨x,List.mem_cons_of_mem _ inside,named⟩
    · rw [List.countP_cons,List.countP_cons,count p,first]
      rfl

/-- What stands at the offset has been confirmed by those behind it. -/
theorem confirmed_at {w : World R} {sorted : List Nat} {num : Nat} (all : confirmed w = some sorted)
    (there : sorted[reversiblePercent * sorted.length / hundredPercent]? = some num) :
    offset w < w.active_miners.length ∧ Supermajority w num ∧
      ∃ id ∈ w.active_miners, ∃ m, w.miners id = some m ∧ m.last_confirmed_block_num = num := by
  obtain ⟨unsorted,listed,rfl⟩ := Option.map_eq_some_iff.mp all
  obtain ⟨size,from_list,count⟩ := mapM_some listed
  rw [List.length_insertionSort,size] at there
  obtain ⟨inside,-⟩ := List.getElem?_eq_some_iff.mp there
  rw [List.length_insertionSort] at inside
  obtain ⟨member,few,-⟩ := Ranks.rank_insertionSort (r := (· ≤ ·)) id (l := unsorted)
    (fun _ _ _ _ => Iff.rfl) inside num
  simp only [List.getD_eq_getElem?_getD,there,Option.getD_some,id_eq] at member few
  have split := List.length_eq_countP_add_countP (fun n => decide (num ≤ n)) (l := unsorted)
  simp only [decide_eq_true_eq,not_le] at split
  have behind : unsorted.countP (fun n => decide (num ≤ n)) = confirmers w num := by
    rw [count,confirmers]
    congr 1
    funext id
    cases w.miners id <;> rfl
  refine ⟨by rw [← size]; exact inside,?_,?_⟩
  · unfold Supermajority irreversibleThreshold
    simp only [reversiblePercent,hundredPercent] at few ⊢
    omega
  · obtain ⟨id,active,named⟩ := from_list num member
    obtain ⟨m,isMiner,number⟩ := Option.map_eq_some_iff.mp named
    exact ⟨id,active,m,isMiner,number⟩

/-- What a call that raises the number has found. -/
structure Raised (o o' : Objects R O) : Prop where
  objects : o' = { o with last_irreversible_block_num := o'.last_irreversible_block_num }
  higher : o.last_irreversible_block_num < o'.last_irreversible_block_num
  inside : offset o.world < o.world.active_miners.length
  majority : Supermajority o.world o'.last_irreversible_block_num
  one_of_them : ∃ id ∈ o.world.active_miners, ∃ m, o.world.miners id = some m ∧
    m.last_confirmed_block_num = o'.last_irreversible_block_num

/-- `update_last_irreversible_block` with its checks: nothing changes, or the number is
    raised. -/
theorem update_last_irreversible_block_ok {s s' : Node R O}
    (ran : (update_last_irreversible_block : Exec R O Unit).run s = .ok () s')
    (checks : s.skip_flags.undo_history_check = false) : s' = s ∨ Raised s.objects s'.objects := by
  obtain ⟨_,_,got,ran⟩ := run_bind_ok.mp ran
  cases got
  rw [if_neg (by simp [checks])] at ran
  split at ran
  · cases ran
  next sorted all =>
    split at ran
    · cases ran
    next num there =>
      by_cases higher : num > s.objects.last_irreversible_block_num
      · rw [provided,if_pos higher] at ran
        cases ran
        obtain ⟨inside,majority,one⟩ := confirmed_at all there
        exact .inr ⟨rfl,higher,inside,majority,one⟩
      · rw [provided,if_neg higher] at ran
        cases ran
        exact .inl rfl

/-! ## What else happens to the miners -/

/-- What the code around the blocks does to the miners: `miner_create` enters one that
    has confirmed nothing, `miner_update` changes a key, an election makes miners of the
    table the active ones, and everything else leaves them. -/
inductive MinerChange : World R → World R → Prop
  | miner_create (w : World R) (id key : Nat) : w.miners id = none →
      MinerChange w { w with miners := fun i => if i = id then some ⟨key,0⟩ else w.miners i }
  | miner_update (w : World R) (id key : Nat) : MinerChange w { w with
      miners := fun i => if i = id then (w.miners i).map fun m => { m with signing_key := key } else w.miners i }
  | update_active_miners (w : World R) (wits : List Nat) : (∀ id ∈ wits, (w.miners id).isSome) →
      MinerChange w { w with active_miners := wits }
  | other (w : World R) (time : Nat) (rest : R) : MinerChange w { w with next_maintenance_time := time, rest := rest }

/-- What the code around leaves of the tables of a world. -/
abbrev MinerChanges : World R → World R → Prop := Relation.ReflTransGen MinerChange

/-- No miner has confirmed a block that is not there, and the active miners are. -/
structure Confirming (w : World R) (head : Nat) : Prop where
  below : ∀ id m, w.miners id = some m → m.last_confirmed_block_num ≤ head
  known : ∀ id ∈ w.active_miners, (w.miners id).isSome

theorem confirming_change {w w' : World R} {head : Nat} (change : MinerChange w w') (confirming : Confirming w head) :
    Confirming w' head := by
  cases change with
  | miner_create id key new =>
    refine ⟨fun i m isMiner => ?_,fun i active => ?_⟩
    · by_cases same : i = id
      · simp only [same,if_true,Option.some.injEq] at isMiner
        rw [← isMiner]
        exact Nat.zero_le _
      · simp only [same,if_false] at isMiner
        exact confirming.below i m isMiner
    · by_cases same : i = id
      · simp [same]
      · simpa [same] using confirming.known i active
  | miner_update id key =>
    refine ⟨fun i m isMiner => ?_,fun i active => ?_⟩
    · by_cases same : i = id
      · simp only [same,if_true,Option.map_eq_some_iff] at isMiner
        obtain ⟨m',before,rfl⟩ := isMiner
        exact confirming.below id m' before
      · simp only [same,if_false] at isMiner
        exact confirming.below i m isMiner
    · by_cases same : i = id
      · simpa [same] using confirming.known id (same ▸ active)
      · simpa [same] using confirming.known i active
  | update_active_miners wits there => exact ⟨confirming.below,there⟩
  | other time rest => exact ⟨confirming.below,confirming.known⟩

theorem confirming_changes {w w' : World R} {head : Nat} (changes : MinerChanges w w')
    (confirming : Confirming w head) : Confirming w' head := by
  induction changes with
  | refl => exact confirming
  | tail _ change ih => exact confirming_change change ih

/-- The signing miner confirms the block that has become the head. -/
theorem confirming_signed {w : World R} {head : Nat} (miner : Nat) (confirming : Confirming w head) :
    Confirming { w with miners := fun id => if id = miner then
        (w.miners id).map fun m => { m with last_confirmed_block_num := head } else w.miners id } head := by
  refine ⟨fun id m isMiner => ?_,fun id active => ?_⟩
  · by_cases same : id = miner
    · simp only [same,if_true,Option.map_eq_some_iff] at isMiner
      obtain ⟨_,_,rfl⟩ := isMiner
      exact Nat.le_refl _
    · simp only [same,if_false] at isMiner
      exact confirming.below id m isMiner
  · by_cases same : id = miner
    · simpa [same] using confirming.known miner (same ▸ active)
    · simpa [same] using confirming.known id active

/-! ## The application of a block -/

/-- The objects between blocks. -/
structure Standing (o : Objects R O) : Prop where
  confirming : Confirming o.world o.head_block_number
  number : o.head_block_id.num = o.head_block_number
  behind : o.last_irreversible_block_num ≤ o.head_block_number

/-- What does not touch the head or the number of the last irreversible block. -/
structure Unraised (o o' : Objects R O) : Prop where
  head_block_number : o'.head_block_number = o.head_block_number
  head_block_id : o'.head_block_id = o.head_block_id
  last_irreversible_block_num : o'.last_irreversible_block_num = o.last_irreversible_block_num
  world : MinerChanges o.world o'.world

theorem unraised_composes : Composes (Unraised : Objects R O → Objects R O → Prop) where
  refl _ := ⟨rfl,rfl,rfl,.refl⟩
  trans first second := ⟨second.head_block_number.trans first.head_block_number,
    second.head_block_id.trans first.head_block_id,
    second.last_irreversible_block_num.trans first.last_irreversible_block_num,first.world.trans second.world⟩

theorem unraised_neutral : NeutralUnder MinerChanges (Carries (Unraised : Objects R O → Objects R O → Prop)) :=
  neutralUnder_carries unraised_composes fun _ _ _ _ allowed => ⟨rfl,rfl,rfl,allowed⟩

theorem Unraised.standing {o o' : Objects R O} (unraised : Unraised o o') (standing : Standing o) : Standing o' where
  confirming := by
    rw [unraised.head_block_number]
    exact confirming_changes unraised.world standing.confirming
  number := by rw [unraised.head_block_id,unraised.head_block_number,standing.number]
  behind := by
    rw [unraised.last_irreversible_block_num,unraised.head_block_number]
    exact standing.behind

theorem unraised_onWorld {x : Context → EStateM Exc (World R) Unit} (minded : ∀ ctx, Keeps MinerChanges (x ctx))
    {s s' : Node R O} (ran : (onWorld x : Exec R O Unit).run s = .ok () s') :
    Unraised s.objects s'.objects ∧ s'.skip_flags = s.skip_flags := by
  have carries := under_onWorld (O := O) unraised_neutral minded s
  have quiet := quiet_onWorld (O := O) x s
  rw [ran] at carries quiet
  exact ⟨carries.objects,quiet.skip_flags⟩

section
variable {E : Env R O} (minds : Minds MinerChanges E)
include minds

theorem unraised_apply_transaction (t : Transaction O) (flags : Skip) :
    Keeps (Carries Unraised) (apply_transaction E t flags) :=
  carries_with_skip_flags (under_apply_transaction unraised_neutral E minds t
    (keeps_update fun _ => carries_objects ⟨rfl,rfl,rfl,.refl⟩)) flags

/-- `_apply_block` up to the call. -/
def before_call (E : Env R O) (flags : Skip) (b : Block O) : Exec R O Unit := do
  each (fun trx => apply_transaction E trx { flags with transaction_signatures := true }) b.transactions
  update_global_dynamic_data E b
  update_signing_miner E b

/-- `_apply_block` after the call. -/
def after_call (E : Env R O) (b : Block O) (maint_needed : Bool) : Exec R O Unit := do
  provided (maint_needed = true) (onWorld E.perform_chain_maintenance)
  create_block_summary E b
  clear_expired_transactions
  clear_expired_proposals E (← get).objects.proposals.length
  onWorld fun ctx => E.finish_block ctx maint_needed

theorem unraised_after_call (b : Block O) (maint_needed : Bool) : Keeps (Carries Unraised) (after_call E b maint_needed) := by
  have composes := carries_composes (unraised_composes (R := R) (O := O))
  have same (f : Objects R O → Objects R O) (unraised : ∀ o, Unraised o (f o)) :
      Keeps (Carries Unraised) (update f : Exec R O Unit) := keeps_update fun s => carries_objects (unraised s.objects)
  refine keeps_bind composes (keeps_provided composes _
    (under_onWorld unraised_neutral minds.perform_chain_maintenance)) fun _ => ?_
  refine keeps_bind composes (same _ fun _ => ⟨rfl,rfl,rfl,.refl⟩) fun _ => ?_
  refine keeps_bind composes (same _ fun _ => ⟨rfl,rfl,rfl,.refl⟩) fun _ => ?_
  refine keeps_bind composes (keeps_get composes) fun s => ?_
  refine keeps_bind composes (under_clear_expired_proposals unraised_neutral E minds _) fun _ => ?_
  exact under_onWorld unraised_neutral fun ctx => minds.finish_block ctx maint_needed

/-- At the call the head is the block, the signing miner has confirmed it, and the number
    is still the one before the block. -/
theorem before_call_ok {b : Block O} {flags : Skip} {s m : Node R O} (standing : Standing s.objects)
    (follows : b.previous = s.objects.head_block_id)
    (ran : (before_call E flags b).run { s with skip_flags := flags } = .ok () m) :
    Standing m.objects ∧ m.objects.head_block_number = b.block_num ∧ s.objects.head_block_number < b.block_num ∧
      m.objects.last_irreversible_block_num = s.objects.last_irreversible_block_num ∧ m.skip_flags = flags := by
  obtain ⟨_,m₁,ran₁,ran⟩ := run_bind_ok.mp ran
  obtain ⟨_,m₂,ran₂,ran₃⟩ := run_bind_ok.mp ran
  have first : Unraised s.objects m₁.objects ∧ m₁.skip_flags = flags := by
    have carries := keeps_each (carries_composes unraised_composes)
      (fun t => unraised_apply_transaction minds t { flags with transaction_signatures := true }) b.transactions
      { s with skip_flags := flags }
    have quiet := keeps_each quiet_composes
      (f := fun t => apply_transaction E t { flags with transaction_signatures := true })
      (fun t => quiet_with_skip_flags (quiet_apply_transaction E t) _) b.transactions { s with skip_flags := flags }
    rw [ran₁] at carries quiet
    exact ⟨carries.objects,quiet.skip_flags⟩
  have standing₁ := first.1.standing standing
  have later : s.objects.head_block_number < b.block_num := by
    rw [← previous_num b,follows,standing.number]
    exact Nat.lt_succ_self _
  have second : Standing m₂.objects ∧ m₂.objects.head_block_number = b.block_num ∧
      m₂.objects.last_irreversible_block_num = m₁.objects.last_irreversible_block_num ∧ m₂.skip_flags = m₁.skip_flags := by
    obtain ⟨n₁,world,objects,flags₂⟩ := update_global_dynamic_data_ok ran₂
    obtain ⟨slots,flags₁⟩ := unraised_onWorld (fun ctx => minds.update_slots ctx b.timestamp b.miner) world
    rw [objects,flags₂]
    have standing₂ := slots.standing standing₁
    have number : n₁.objects.head_block_number ≤ b.block_num := by
      rw [slots.head_block_number,first.1.head_block_number]
      exact Nat.le_of_lt later
    refine ⟨⟨⟨fun id m isMiner => ?_,standing₂.confirming.known⟩,rfl,?_⟩,rfl,slots.last_irreversible_block_num,flags₁⟩
    · exact Nat.le_trans (standing₂.confirming.below id m isMiner) number
    · exact Nat.le_trans standing₂.behind number
  obtain ⟨standing₂,head,kept,flags₂⟩ := second
  obtain ⟨_,n,paid,signed⟩ := run_bind_ok.mp ran₃
  obtain ⟨pay,flags₃⟩ := unraised_onWorld (fun ctx => minds.pay_miner ctx b.timestamp b.miner) paid
  cases signed
  have standing₃ := pay.standing standing₂
  have number : n.objects.head_block_number = b.block_num := pay.head_block_number.trans head
  refine ⟨⟨?_,standing₃.number,standing₃.behind⟩,number,later,?_,?_⟩
  · have confirming := confirming_signed b.miner (number ▸ standing₃.confirming)
    rw [← number] at confirming
    exact number ▸ confirming
  · exact pay.last_irreversible_block_num.trans (kept.trans first.1.last_irreversible_block_num)
  · exact flags₃.trans (flags₂.trans first.2)

/-- The call in the application of a block. -/
structure CountingCall (E : Env R O) (b : Block O) (skip : Skip) (s m m' s' : Node R O) : Prop where
  before : (before_call E (checkpointed s.checkpoints b.block_num skip) b).run
    { s with skip_flags := checkpointed s.checkpoints b.block_num skip } = .ok () m
  call : (update_last_irreversible_block : Exec R O Unit).run m = .ok () m'
  after : ∃ n, (after_call E b (s.objects.world.next_maintenance_time ≤ b.timestamp)).run m' = .ok () n ∧
    s' = { n with skip_flags := s.skip_flags }

omit minds in
/-- A block that is applied makes the call once. -/
theorem apply_block_calls {b : Block O} {skip : Skip} {s s' : Node R O} (ran : (apply_block E b skip).run s = .ok () s') :
    b.previous = s.objects.head_block_id ∧ ∃ m m', CountingCall E b skip s m m' s' := by
  obtain ⟨-,-,valid,m,n,transactions,finished,rfl⟩ := (apply_block_ok E rfl).mp ran
  obtain ⟨_,m₁,global,finished⟩ := run_bind_ok.mp finished
  obtain ⟨_,m₂,signing,finished⟩ := run_bind_ok.mp finished
  obtain ⟨_,m₃,call,after⟩ := run_bind_ok.mp finished
  refine ⟨valid.previous.symm,m₂,m₃,⟨?_,call,n,after,rfl⟩⟩
  exact run_bind_ok.mpr ⟨(),m,transactions,run_bind_ok.mpr ⟨(),m₁,global,signing⟩⟩

omit minds in
/-- What the call leaves of a standing node. -/
theorem call_standing {m m' : Node R O} (standing : Standing m.objects)
    (ran : (update_last_irreversible_block : Exec R O Unit).run m = .ok () m') :
    Standing m'.objects ∧ m'.objects.head_block_number = m.objects.head_block_number ∧
      m.objects.last_irreversible_block_num ≤ m'.objects.last_irreversible_block_num := by
  by_cases checks : m.skip_flags.undo_history_check = false
  · rcases update_last_irreversible_block_ok ran checks with rfl | raised
    · exact ⟨standing,rfl,Nat.le_refl _⟩
    · obtain ⟨id,-,miner,isMiner,number⟩ := raised.one_of_them
      have bound := standing.confirming.below id miner isMiner
      rw [number] at bound
      rw [raised.objects]
      exact ⟨⟨standing.confirming,standing.number,bound⟩,rfl,Nat.le_of_lt raised.higher⟩
  · obtain ⟨_,_,got,ran⟩ := run_bind_ok.mp ran
    cases got
    rw [if_pos (by simpa using checks)] at ran
    cases ran
    exact ⟨⟨standing.confirming,standing.number,Nat.le_refl _⟩,rfl,standing.behind⟩

/-- One block. -/
theorem apply_block_standing {b : Block O} {skip : Skip} {s s' : Node R O} (standing : Standing s.objects)
    (ran : (apply_block E b skip).run s = .ok () s') :
    Standing s'.objects ∧ s.objects.last_irreversible_block_num ≤ s'.objects.last_irreversible_block_num ∧
      ∃ m m', CountingCall E b skip s m m' s' ∧ Standing m.objects ∧
        m.objects.last_irreversible_block_num = s.objects.last_irreversible_block_num ∧
        m'.objects.last_irreversible_block_num = s'.objects.last_irreversible_block_num ∧
        m'.objects.last_irreversible_block_num ≤ m.objects.head_block_number := by
  obtain ⟨follows,m,m',calls⟩ := apply_block_calls ran
  obtain ⟨at_call,head,later,kept,-⟩ := before_call_ok minds standing follows calls.before
  obtain ⟨called,same_head,rises⟩ := call_standing at_call calls.call
  obtain ⟨n,after,rfl⟩ := calls.after
  have carries := unraised_after_call minds b (s.objects.world.next_maintenance_time ≤ b.timestamp) m'
  rw [after] at carries
  have unraised : Unraised m'.objects n.objects := carries.objects
  refine ⟨unraised.standing called,?_,m,m',calls,at_call,kept,unraised.last_irreversible_block_num.symm,?_⟩
  · show _ ≤ n.objects.last_irreversible_block_num
    rw [unraised.last_irreversible_block_num,← kept]
    exact rises
  · rw [← same_head]
    exact called.behind

/-! ## Runs -/

/-- The objects that `init_genesis` leaves: no miner has confirmed a block. -/
structure Unconfirmed (o : Objects R O) : Prop extends Genesis o where
  last_irreversible_block_num : o.last_irreversible_block_num = 0
  miners : ∀ id m, o.world.miners id = some m → m.last_confirmed_block_num = 0
  active_miners : ∀ id ∈ o.world.active_miners, (o.world.miners id).isSome

omit minds in
theorem Unconfirmed.standing {o : Objects R O} (start : Unconfirmed o) : Standing o where
  confirming := ⟨fun id m isMiner => by rw [start.miners id m isMiner]; exact Nat.zero_le _,start.active_miners⟩
  number := by rw [start.head_block_id,start.head_block_number]; rfl
  behind := by rw [start.last_irreversible_block_num]; exact Nat.zero_le _

theorem chain_standing {genesis : Objects R O} (start : Unconfirmed genesis) {chain : List (Objects R O)}
    (run : Chain E genesis chain) :
    (∀ o ∈ chain, Standing o) ∧
      chain.Pairwise fun later earlier => earlier.last_irreversible_block_num ≤ later.last_irreversible_block_num := by
  induction run with
  | genesis =>
    refine ⟨fun o member => ?_,List.pairwise_singleton _ _⟩
    rw [List.mem_singleton.mp member]
    exact start.standing
  | @block s s' earlier b skip run ran ih =>
    obtain ⟨standing,rising⟩ := ih
    obtain ⟨standing',rises,-⟩ := apply_block_standing minds (standing _ List.mem_cons_self) ran
    refine ⟨fun o member => ?_,List.pairwise_cons.mpr ⟨fun o member => ?_,rising⟩⟩
    · rcases List.mem_cons.mp member with rfl | before
      · exact standing'
      · exact standing o before
    · rcases List.mem_cons.mp member with rfl | before
      · exact rises
      · exact Nat.le_trans ((List.pairwise_cons.mp rising).1 o before) rises

/-- The place looked at is one of the list; what a call raises the number to is confirmed
    by the threshold of the active miners; and in every run of applied blocks the number
    never falls and the calls leave it at or below the head. -/
theorem irreversibility_threshold {genesis : Objects R O} (start : Unconfirmed genesis) :
    (∀ w : World R, w.active_miners ≠ [] → offset w < w.active_miners.length) ∧
    (∀ s s' : Node R O, (update_last_irreversible_block : Exec R O Unit).run s = .ok () s' →
      s.skip_flags.undo_history_check = false →
      s'.objects.last_irreversible_block_num ≠ s.objects.last_irreversible_block_num → Raised s.objects s'.objects) ∧
    (∀ chain, Chain E genesis chain → chain.Pairwise fun later earlier =>
      earlier.last_irreversible_block_num ≤ later.last_irreversible_block_num) ∧
    ∀ (s s' : Node R O) (b : Block O) (skip : Skip) (earlier : List (Objects R O)),
      Chain E genesis (s.objects :: earlier) → (apply_block E b skip).run s = .ok () s' →
      ∃ m m', CountingCall E b skip s m m' s' ∧
        m.objects.last_irreversible_block_num = s.objects.last_irreversible_block_num ∧
        m'.objects.last_irreversible_block_num = s'.objects.last_irreversible_block_num ∧
        m'.objects.last_irreversible_block_num ≤ m.objects.head_block_number := by
  refine ⟨fun w => offset_lt,fun s s' ran checks changed => ?_,fun chain run => (chain_standing minds start run).2,?_⟩
  · rcases update_last_irreversible_block_ok ran checks with rfl | raised
    · exact absurd rfl changed
    · exact raised
  · intro s s' b skip earlier run ran
    have standing := (chain_standing minds start run).1 _ List.mem_cons_self
    obtain ⟨-,-,m,m',calls,-,before,after,bound⟩ := apply_block_standing minds standing ran
    exact ⟨m,m',calls,before,after,bound⟩

end

theorem quietEnv_minds : Minds MinerChanges quietEnv where
  refl _ := .refl
  trans := .trans
  pay_fee _ _ _ := .refl
  do_apply _ _ _ _ := .refl
  charge_fee _ _ _ := .refl
  update_slots _ _ _ _ := .refl
  pay_miner _ _ _ _ := .refl
  perform_chain_maintenance _ _ := .refl
  finish_block _ _ _ := .refl

theorem quietGenesis_unconfirmed : Unconfirmed quietGenesis where
  toGenesis := quietGenesis_isGenesis
  last_irreversible_block_num := rfl
  miners id m isMiner := by
    simp only [quietGenesis] at isMiner
    split at isMiner
    · cases isMiner
      rfl
    · cases isMiner
  active_miners := by simp [quietGenesis]

/-- The only miner confirms the first block, which becomes irreversible with it. -/
theorem irreversibility_threshold_one_miner : ∃ s m m', (apply_block quietEnv block1 .nothing).run quietStart = .ok () s ∧
    CountingCall quietEnv block1 .nothing quietStart m m' s ∧ m'.objects.last_irreversible_block_num = 1 ∧
    Raised m.objects m'.objects := by
  obtain ⟨-,raises,-,calls⟩ := irreversibility_threshold quietEnv_minds quietGenesis_unconfirmed
  have ran := run_of_returned (x := apply_block quietEnv block1 .nothing) (s := quietStart) (by decide +kernel)
  have number : (endState ((apply_block quietEnv block1 .nothing).run quietStart)).objects.last_irreversible_block_num = 1 := by
    decide +kernel
  obtain ⟨m,m',call,before,after,-⟩ := calls quietStart _ block1 .nothing [] .genesis ran
  have raised : m'.objects.last_irreversible_block_num ≠ m.objects.last_irreversible_block_num := by
    rw [before,after,number]
    decide
  have checks : m.skip_flags.undo_history_check = false := by
    obtain ⟨-,-,-,-,flags⟩ := before_call_ok quietEnv_minds quietGenesis_unconfirmed.standing rfl call.before
    rw [flags]
    rfl
  exact ⟨_,m,m',ran,call,after.trans number,raises m m' call.call checks raised⟩

end Decent.Database

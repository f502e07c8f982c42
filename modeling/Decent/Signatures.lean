import Decent.Verdict

/-!
Whether the transactions of a block that a push applied are signed by those they
speak for. `_apply_block` adds `skip_transaction_signatures` to the flags of its
transactions, so acceptance says nothing about their signatures.
-/
namespace Decent.Database
open Decent.ObjectDatabase (Exc)
open Decent.Protocol
open Decent.ForkDatabase (Item)
open Throwing

variable {R O : Type} (E : Env R O)

/-- `verify_authority` succeeds for each of the transactions in the state in which
    that transaction is applied. -/
def Authorised (flags : Skip) : List (Transaction O) → Node R O → Prop
  | [], _ => True
  | trx :: rest, s => E.verify_authority s.objects.world trx = .ok () ∧
      ∀ s', (apply_transaction E trx flags).run s = .ok () s' → Authorised flags rest s'

/-- Each of the transactions is authorised whatever signatures it carries. -/
def Unguarded (flags : Skip) : List (Transaction O) → Node R O → Prop
  | [], _ => True
  | trx :: rest, s =>
    (∀ signatures, E.verify_authority s.objects.world { trx with signatures := signatures } = .ok ()) ∧
      ∀ s', (apply_transaction E trx flags).run s = .ok () s' → Unguarded flags rest s'

/-- The flags that the transactions of a block are applied with. -/
def transactionFlags (s : Node R O) (b : Block O) (skip : Skip) : Skip :=
  { checkpointed s.checkpoints b.block_num skip with transaction_signatures := true }

/-- A push of `new_block` at `s` applies the block `c` in the node `t`: on top of the
    head, or as a block of the branch it switches to. -/
inductive Applies (new_block : Block O) (skip : Skip) (s : Node R O) : Block O → Node R O → Prop
  | extending {m : Node R O} {new_head F}
      (cleared : (clear_pending : Exec R O Unit).run { s with skip_flags := skip } = .ok () m)
      (taken : ForkDatabase.push_block E.digest new_block m.fork_db = .ok (new_head,F))
      (onTop : new_head.data.previous = m.objects.head_block_id) :
      Applies new_block skip s new_block (insideSession false { m with fork_db := F })
  | switching {m : Node R O} {new_head F}
      (cleared : (clear_pending : Exec R O Unit).run { s with skip_flags := skip } = .ok () m)
      (taken : ForkDatabase.push_block E.digest new_block m.fork_db = .ok (new_head,F))
      (beside : new_head.data.previous ≠ m.objects.head_block_id)
      (longer : new_head.num > m.objects.head_block_number)
      {first second : List (Item O)} {back : Item O}
      (fetched : ForkDatabase.fetch_branch_from E.digest (new_head.data.id E.digest) m.objects.head_block_id F =
        .ok (first,second))
      (last : second.getLast? = some back)
      {below : Node R O}
      (popped : (pop_to E (new_head :: first ++ second) back.data.previous).run { m with fork_db := F } = .ok () below)
      {before after : List (Item O)} {item : Item O} (branch : first.reverse = before ++ item :: after)
      {t : Node R O} (pushed : (push_branch E skip before).run below = .ok none t) :
      Applies new_block skip s item.data (insideSession false t)

/-- Whoever signs a block for a miner can sign it again with other transactions. -/
def CanSign : Prop :=
  ∀ (h : Header) (key : Nat), E.validate_signee h key = true → ∀ root, ∃ signature,
    E.validate_signee { h with transaction_merkle_root := root, miner_signature := signature } key = true

variable {E}

/-! ### Transactions that are signed anew -/

theorem twin_self (s : Node R O) : Twin (fun _ => True) True s.skip_flags 0 s s := by
  have near : ∀ o : Objects R O, Resembles (fun _ => True) True o o :=
    fun o => resembles_self fun _ _ op _ => refersWithin_all op
  exact ⟨near s.objects,rfl,rfl,fun _ _ => rfl,rfl,rfl,rfl,.inl (List.forall₂_same.mpr fun o _ => near o)⟩

section
variable {flags inner : Skip} {depth : Nat}

theorem apply_resigned {s t s' : Node R O} (twin : Twin (fun _ => True) True flags depth s t)
    (unsigned : inner.transaction_signatures = true) {trx trx' : Transaction O} (resigned : Resigned trx trx')
    (ran : (apply_transaction E trx inner).run s = .ok () s') :
    ∃ t', (apply_transaction E trx' inner).run t = .ok () t' ∧ Twin (fun _ => True) True flags depth s' t' := by
  have alike := alike_apply_transaction E resigned (fun op _ => refersWithin_all op) unsigned s t twin
  rcases matches_cases alike with ⟨_,s1,t1,left,right,later⟩ | ⟨e,s1,t1,left,right,_⟩
  · rw [ran] at left
    cases left
    exact ⟨t1,right,later⟩
  · rw [ran] at left
    cases left

theorem authorised_of_unguarded {l l' : List (Transaction O)} (resigned : List.Forall₂ Resigned l l')
    (unsigned : inner.transaction_signatures = true) :
    ∀ {s t : Node R O}, Twin (fun _ => True) True flags depth s t → Unguarded E inner l s → Authorised E inner l' t := by
  induction resigned with
  | nil => intros; trivial
  | @cons trx trx' rest rest' one _ ih =>
    intro s t twin unguarded
    have same : trx' = { trx with signatures := trx'.signatures } := by
      cases trx; cases trx'; simp only [Resigned] at one; rw [one]
    constructor
    · rw [← twin.objects.world,same]
      exact unguarded.1 _
    · intro t' ran
      have alike := alike_apply_transaction E one (fun op _ => refersWithin_all op) unsigned s t twin
      rcases matches_cases alike with ⟨_,s1,t1,left,right,later⟩ | ⟨e,s1,t1,left,right,_⟩
      · rw [ran] at right
        cases right
        exact ih later (unguarded.2 s1 left)
      · rw [ran] at right
        cases right

/-- Changing one signature after the other shows that none of them matters. -/
theorem unguarded_of_authorised {l : List (Transaction O)} (unsigned : inner.transaction_signatures = true) :
    ∀ {s t : Node R O}, Twin (fun _ => True) True flags depth s t →
      (∀ l', List.Forall₂ Resigned l l' → Authorised E inner l' t) → Unguarded E inner l s := by
  induction l with
  | nil => intros; trivial
  | cons trx rest ih =>
    intro s t twin authorised
    constructor
    · intro signatures
      rw [twin.objects.world]
      exact (authorised ({ trx with signatures := signatures } :: rest)
        (.cons rfl (List.forall₂_same.mpr fun _ _ => rfl))).1
    · intro s' ran
      obtain ⟨t',ran',later⟩ := apply_resigned twin unsigned (rfl : Resigned trx trx) ran
      exact ih later fun rest' resigned => (authorised (trx :: rest') (.cons rfl resigned)).2 t' ran'

end

/-! ### Blocks that are signed anew -/

/-- What a block that was applied has passed of the checks of its header. -/
structure HeaderChecked (flags : Skip) (s : Node R O) (b : Block O) : Prop where
  matching : MatchesCheckpoint s.checkpoints E.digest b
  root : flags.merkle_check = true ∨ b.transaction_merkle_root = E.merkle_root b.transactions
  signed : flags.miner_signature = true ∨
    ∃ m, s.objects.world.miners b.miner = some m ∧ E.validate_signee b.toHeader m.signing_key = true

theorem headerChecked_of_applied {b : Block O} {skip : Skip} {s s' : Node R O}
    (ran : (apply_block E b skip).run s = .ok () s') :
    HeaderChecked (E := E) (checkpointed s.checkpoints b.block_num skip) s b := by
  obtain ⟨matching,root,valid,_⟩ := (apply_block_ok E rfl).mp ran
  obtain ⟨m,isMiner,signed,_⟩ := valid.miner
  exact ⟨matching,root,signed.imp_right fun signed => ⟨m,isMiner,signed⟩⟩

/-- A block that differs from an applied one in signatures, and passes the checks of its
    header, is applied too. -/
theorem applied_of_resigned {b b' : Block O} {skip : Skip} {s : Node R O}
    (accepted : returned ((apply_block E b skip).run s) = true) (same : SameBlock b b')
    (checked : HeaderChecked (E := E) (checkpointed s.checkpoints b.block_num skip) s b') :
    returned ((apply_block E b' skip).run s) = true := by
  have original := headerChecked_of_applied (run_of_returned accepted)
  have checks : SameChecks E (checkpointed s.checkpoints b.block_num skip) s b b' := by
    refine ⟨?_,?_⟩
    · rcases original.root with skipped | root
      · exact .inl skipped
      · exact checked.root.imp_right fun root' => iff_of_true root root'
    · rcases original.signed with skipped | ⟨m,isMiner,signed⟩
      · exact .inl skipped
      rcases checked.signed with skipped | ⟨m',isMiner',signed'⟩
      · exact .inl skipped
      refine .inr fun n isMiner'' => ?_
      rw [← same.miner,isMiner] at isMiner'
      obtain rfl := Option.some.inj isMiner'
      rw [isMiner] at isMiner''
      obtain rfl := Option.some.inj isMiner''
      rw [signed,signed']
  have ran := matches_apply_block E skip (twin_self s) rfl rfl same (iff_of_true original.matching checked.matching) checks
    fun trx _ op _ => refersWithin_all op
  rw [← returned_of_matches ran]
  exact accepted

theorem checkpointed_nothing (checkpoints : List (Nat × BlockId)) (num : Nat) :
    checkpointed checkpoints num .nothing = .everything ∨
      checkpointed checkpoints num .nothing = .nothing ∧ ∀ last ∈ checkpoints.getLast?, last.2 ≠ .zero → last.1 < num := by
  unfold checkpointed
  split
  · next last id isLast =>
    split
    · exact .inl rfl
    · next free =>
      refine .inr ⟨rfl,fun c isLast' real => ?_⟩
      cases isLast'.symm.trans isLast
      exact Nat.lt_of_not_le fun reaches => free ⟨real,reaches⟩
  · next none => exact .inr ⟨rfl,fun c isLast => by cases isLast.symm.trans none⟩

theorem checkpoint_le_last {checkpoints : List (Nat × BlockId)}
    (ascending : checkpoints.Pairwise fun a c => a.1 < c.1) {last c : Nat × BlockId}
    (isLast : last ∈ checkpoints.getLast?) (member : c ∈ checkpoints) : c = last ∨ c.1 < last.1 := by
  obtain ⟨nonempty,same⟩ := List.mem_getLast?_eq_getLast isLast
  have shape : checkpoints = checkpoints.dropLast ++ [last] := by
    rw [same]
    exact (List.dropLast_append_getLast nonempty).symm
  rw [shape] at ascending member
  rcases List.mem_append.mp member with earlier | this
  · exact .inr ((List.pairwise_append.mp ascending).2.2 c earlier last (List.mem_singleton_self last))
  · exact .inl (List.mem_singleton.mp this)

/-- The block with other signatures on its transactions, signed again by its miner if
    that is looked at. -/
theorem exists_resigned (signs : CanSign E) {b : Block O} {s : Node R O}
    (ascending : s.checkpoints.Pairwise fun a c => a.1 < c.1)
    (accepted : returned ((apply_block E b .nothing).run s) = true) {l : List (Transaction O)}
    (resigned : List.Forall₂ Resigned b.transactions l) :
    ∃ b' : Block O, SameBlock b b' ∧ b'.transactions = l ∧ returned ((apply_block E b' .nothing).run s) = true := by
  have original := headerChecked_of_applied (run_of_returned accepted)
  rcases checkpointed_nothing s.checkpoints b.block_num with skipped | ⟨nothing,beyond⟩
  · have same : SameBlock b { b with transactions := l } := ⟨rfl,rfl,rfl,resigned⟩
    refine ⟨_,same,rfl,applied_of_resigned accepted same ⟨original.matching,.inl ?_,.inl ?_⟩⟩
    · rw [skipped]; rfl
    · rw [skipped]; rfl
  · rcases original.signed with skipped | ⟨m,isMiner,signed⟩
    · rw [nothing] at skipped; cases skipped
    obtain ⟨signature,signed'⟩ := signs b.toHeader m.signing_key signed (E.merkle_root l)
    have same : SameBlock b { b with
        transactions := l, transaction_merkle_root := E.merkle_root l, miner_signature := signature } :=
      ⟨rfl,rfl,rfl,resigned⟩
    refine ⟨_,same,rfl,applied_of_resigned accepted same ⟨?_,.inr rfl,.inr ⟨m,isMiner,signed'⟩⟩⟩
    -- The last checkpoint is below the block, and so is every other.
    intro last isLast real c member named
    have below := beyond last isLast real
    have number : c.1 = b.block_num := named
    rcases checkpoint_le_last ascending isLast member with rfl | earlier
    · omega
    · omega

/-! ### What a push has applied -/

theorem applied_of_stored {id : BlockId} {b : Block O} {skip : Skip} {s s' : Node R O}
    (stored : (apply_and_store E id b skip).run s = .ok () s') :
    returned ((apply_block E b skip).run (insideSession false s)) = true := by
  obtain ⟨m,n,inner,_,_⟩ := with_session_ok stored
  obtain ⟨⟨⟩,m',applied,_⟩ := run_bind_ok.mp inner
  rw [applied]
  rfl

/-- A branch that was pushed as a whole was pushed block by block. -/
theorem push_branch_stored {skip : Skip} {before after : List (Item O)} {item : Item O} :
    ∀ {s t s' : Node R O}, (push_branch E skip (before ++ item :: after)).run s = .ok none s' →
      (push_branch E skip before).run s = .ok none t →
      ∃ t', (apply_and_store E (item.id E.digest) item.data skip).run t = .ok () t' := by
  induction before with
  | nil =>
    intro s t s' whole front
    cases front
    obtain ⟨failure,m,caught,later⟩ := run_bind_ok.mp whole
    cases failure with
    | some e => cases later
    | none =>
      rw [catching,run_tryCatch,EStateM.run_bind] at caught
      cases result : (apply_and_store E (item.id E.digest) item.data skip).run s with
      | ok a m' => exact ⟨m',rfl⟩
      | error e m' =>
        rw [result] at caught
        simp only at caught
        split at caught
        · cases caught
        · cases caught
  | cons first rest ih =>
    intro s t s' whole front
    obtain ⟨failure,m,caught,later⟩ := run_bind_ok.mp whole
    obtain ⟨failure',m',caught',later'⟩ := run_bind_ok.mp front
    rw [caught] at caught'
    cases caught'
    cases failure with
    | some e => cases later
    | none => exact ih later later'

/-- If the push returns, each block that it applied was accepted where it was applied. -/
theorem accepted_of_applies {new_block : Block O} {skip : Skip} (uses : skip.fork_db = false) {s s' : Node R O}
    {switched : Bool} (pushed : (push_block E new_block skip).run s = .ok switched s') {c : Block O} {t : Node R O}
    (applies : Applies E new_block skip s c t) : returned ((apply_block E c skip).run t) = true := by
  obtain ⟨m,m1,_,cleared,inner,_,_⟩ := push_block_ok E pushed
  have flags : m.skip_flags = skip := by
    rcases clear_pending_cases E.digest { s with skip_flags := skip } with ⟨e,_,failed,_⟩ | ⟨m',ok,gone⟩
    · rw [cleared] at failed; cases failed
    · rw [cleared] at ok; cases ok; exact gone.skip_flags
  subst flags
  rw [run_push_block E new_block uses] at inner
  cases applies with
  | extending cleared' taken onTop =>
    rw [cleared] at cleared'
    cases cleared'
    rw [taken] at inner
    simp only [onTop,if_true] at inner
    obtain ⟨⟨⟩,_,extended,_⟩ := run_bind_ok.mp inner
    obtain ⟨_,stored,_⟩ := extend_stored extended
    exact applied_of_stored stored
  | switching cleared' taken beside longer fetched last popped branch front =>
    rw [cleared] at cleared'
    cases cleared'
    rw [taken] at inner
    simp only [beside,longer,if_true,if_false] at inner
    obtain ⟨⟨⟩,_,switch,_⟩ := run_bind_ok.mp inner
    simp only [switch_forks,EStateM.run_bind,EStateM.run_get,fetched,last] at switch
    split at switch
    · next isFront isBack =>
      cases isBack
      obtain ⟨⟨⟩,_,popped',taken'⟩ := run_bind_ok.mp switch
      rw [popped] at popped'
      cases popped'
      obtain ⟨failure,_,whole,later⟩ := run_bind_ok.mp taken'
      cases failure with
      | none =>
        rw [branch] at whole
        obtain ⟨_,stored⟩ := push_branch_stored whole front
        exact applied_of_stored stored
      | some failure =>
        obtain ⟨⟨⟩,_,_,thrown⟩ := run_bind_ok.mp later
        cases thrown
    · cases switch

/-- Take a block that a push with `skip_nothing` applied, with any signatures that are
    accepted in its place. All of these are authorised just in case each of its
    transactions is authorised whatever signatures it carries. -/
theorem authorised_iff_unguarded (signs : CanSign E) {new_block : Block O} {s s' : Node R O} {switched : Bool}
    (pushed : (push_block E new_block .nothing).run s = .ok switched s') {c : Block O} {t : Node R O}
    (applies : Applies E new_block .nothing s c t) (ascending : t.checkpoints.Pairwise fun a b => a.1 < b.1) :
    (∀ c', SameBlock c c' → returned ((apply_block E c' .nothing).run t) = true →
        Authorised E (transactionFlags t c .nothing) c'.transactions t) ↔
      Unguarded E (transactionFlags t c .nothing) c.transactions t := by
  have accepted := accepted_of_applies rfl pushed applies
  constructor
  · intro authorised
    refine unguarded_of_authorised rfl (twin_self t) fun l resigned => ?_
    obtain ⟨c',same,rfl,accepted'⟩ := exists_resigned signs ascending accepted resigned
    exact authorised c' same accepted'
  · intro unguarded c' same _
    exact authorised_of_unguarded same.transactions rfl (twin_self t) unguarded

/-! ### A transaction without signatures -/

/-- Transactions need a signature. -/
def strictEnv : Env Unit Unit :=
  { quietEnv with
    verify_authority := fun _ trx =>
      if trx.signatures = [] then .error (.assert_exception "Missing Active Authority") else .ok () }

def unsignedBlock : Block Unit :=
  { emptyBlock .zero 1 with transactions := [⟨⟨0,0,100,[.other ()]⟩,[]⟩] }

theorem unsignedBlock_applied :
    ∃ switched s' t, (push_block strictEnv unsignedBlock .nothing).run quietStart = .ok switched s' ∧
      Applies strictEnv unsignedBlock .nothing quietStart unsignedBlock t ∧ t.checkpoints = [] := by
  have ran : (call strictEnv (.push unsignedBlock .nothing)).run quietStart = .ok () _ :=
    run_of_returned (by decide +kernel)
  obtain ⟨switched,pushed⟩ := call_push_ok ran
  have cleared : (clear_pending : Exec Unit Unit Unit).run { quietStart with skip_flags := .nothing } = .ok () _ :=
    run_of_returned (by decide +kernel)
  have onTop : (ForkDatabase.push_block strictEnv.digest unsignedBlock quietStart.fork_db).toOption.map
      (fun result => result.1.data.previous) = some quietStart.objects.head_block_id := by decide +kernel
  cases taken : ForkDatabase.push_block strictEnv.digest unsignedBlock quietStart.fork_db with
  | error e => rw [taken] at onTop; cases onTop
  | ok result =>
    rw [taken] at onTop
    exact ⟨_,_,_,pushed,.extending cleared taken (Option.some.inj onTop),rfl⟩

theorem unsignedBlock_guarded (flags : Skip) (t : Node Unit Unit) :
    ¬ Unguarded strictEnv flags unsignedBlock.transactions t :=
  fun unguarded => by cases unguarded.1 []

/-- Not every version of the block that is accepted is authorised. -/
theorem authorised_iff_unsigned :
    ∃ t, Applies strictEnv unsignedBlock .nothing quietStart unsignedBlock t ∧
      ¬ ∀ c', SameBlock unsignedBlock c' → returned ((apply_block strictEnv c' .nothing).run t) = true →
        Authorised strictEnv (transactionFlags t unsignedBlock .nothing) c'.transactions t := by
  obtain ⟨switched,s',t,pushed,applies,none⟩ := unsignedBlock_applied
  have ascending : t.checkpoints.Pairwise fun a b => a.1 < b.1 := by
    rw [none]
    exact .nil
  refine ⟨t,applies,fun authorised => unsignedBlock_guarded (transactionFlags t unsignedBlock .nothing) t ?_⟩
  exact (authorised_iff_unguarded (fun _ _ _ _ => ⟨0,rfl⟩) pushed applies ascending).mp authorised

/-- A push with `skip_nothing` accepts a transaction that nobody signed. -/
theorem unsigned_accepted :
    ¬ ∀ (b c : Block Unit) (switched : Bool) (s' t : Node Unit Unit),
      (push_block strictEnv b .nothing).run quietStart = .ok switched s' →
      Applies strictEnv b .nothing quietStart c t →
      Authorised strictEnv (transactionFlags t c .nothing) c.transactions t := by
  intro authorised
  obtain ⟨switched,s',t,pushed,applies,_⟩ := unsignedBlock_applied
  cases (authorised unsignedBlock unsignedBlock switched s' t pushed applies).1

end Decent.Database

import Decent.Protocol

/-!
The fork database: a tree of blocks kept in an index, a head, and a window. Items
are shared and point to their parents weakly; an item is alive while the index,
the head or the caller holds it. An item carries the entries its `prev` pointers
lead through, so a pointer is followed by taking the next entry, and locking it
asks whether that entry is alive.
-/
namespace Decent.ForkDatabase
open Decent.ObjectDatabase (Exc)
open Decent.Protocol

variable {O : Type}

/-- One allocated `fork_item`. -/
structure Entry (O : Type) where
  addr : Nat
  data : Block O

/-- A `fork_item` with everything its `prev` pointers lead through. -/
structure Item (O : Type) extends Entry O where
  links : List (Entry O)

/-- `fork_item::num`. -/
def Entry.num (e : Entry O) : Nat := e.data.block_num

/-- The item that `prev` points to, alive or not. -/
def Item.parent (item : Item O) : Option (Item O) :=
  match item.links with
  | [] => none
  | e :: rest => some ⟨e,rest⟩

/-- `fork_database`. Items are linked when they are inserted, so the cache of
    unlinked items stays empty and is left out. -/
structure Forks (O : Type) where
  index : List (Item O)
  head : Option (Item O)
  max_size : Nat
  next_addr : Nat

def Forks.empty : Forks O := ⟨[],none,1024,0⟩

section
variable (digest : Header → Nat)

/-- `fork_item::id`. -/
def Entry.id (e : Entry O) : BlockId := e.data.id digest

/-- `_index.get<block_id>().find(id)`. -/
def find (F : Forks O) (id : BlockId) : Option (Item O) := F.index.find? (fun item => item.id digest = id)

/-- Whether the index, the head or one of the items the caller holds keeps the
    entry alive. -/
def alive (F : Forks O) (held : List (Item O)) (e : Entry O) : Bool :=
  F.index.any (fun item => item.addr = e.addr) ||
    (match F.head with
     | some item => item.addr = e.addr
     | none => false) ||
    held.any (fun item => item.addr = e.addr)

/-- `prev.lock()`. -/
def lock (F : Forks O) (held : List (Item O)) (item : Item O) : Option (Item O) :=
  match item.parent with
  | some parent => if alive F held parent.toEntry then some parent else none
  | none => none

/-- `fork_database::start_block`. -/
def start_block (b : Block O) (F : Forks O) : Forks O :=
  let item : Item O := ⟨⟨F.next_addr,b⟩,[]⟩
  { F with
    index := if (find digest F (b.id digest)).isSome then F.index else item :: F.index
    head := some item
    next_addr := F.next_addr + 1 }

/-- The entries a new item for the block is linked through. -/
def link (b : Block O) (F : Forks O) : Except Exc (List (Entry O)) :=
  if F.head.isSome ∧ b.previous ≠ .zero then
    match find digest F b.previous with
    | some parent => .ok (parent.toEntry :: parent.links)
    | none => .error .unlinkable_block_exception
  else .ok []

/-- The block is below the range that is kept. -/
def TooOld (b : Block O) (F : Forks O) : Prop := ∃ head ∈ F.head, ¬ b.block_num > head.num - F.max_size

instance (b : Block O) (F : Forks O) : Decidable (TooOld b F) := by unfold TooOld; infer_instance

/-- `_index.insert(item)`: an item whose id is there already is not inserted. -/
def insert_item (item : Item O) (F : Forks O) : Forks O :=
  { F with
    index := if (find digest F (item.id digest)).isSome then F.index else item :: F.index
    next_addr := F.next_addr + 1 }

/-- The end of `_push_block`: an item above the head becomes the head, and what falls
    out of the window is erased. -/
def raise_head (item : Item O) (F : Forks O) : Item O × Forks O :=
  match F.head with
  | none => (item,{ F with head := some item })
  | some head =>
    if item.num > head.num then
      (item,{ F with head := some item, index := F.index.filter fun i => ¬ i.num < item.num - min F.max_size item.num })
    else (head,F)

/-- `fork_database::push_block`: a rejected block leaves the database as it was. -/
def push_block (b : Block O) (F : Forks O) : Except Exc (Item O × Forks O) :=
  if TooOld b F then .error (.assert_exception "attempting to push a block that is too old")
  else match link digest b F with
    | .error e => .error e
    | .ok links =>
      let item : Item O := ⟨⟨F.next_addr,b⟩,links⟩
      .ok (raise_head item (insert_item digest item F))

/-- `fork_database::pop_block`. -/
def pop_block (held : List (Item O)) (F : Forks O) : Except Exc (Forks O) :=
  match F.head with
  | none => .error (.assert_exception "no blocks to pop")
  | some head =>
    match lock F held head with
    | none => .error (.assert_exception "poping block would leave head block null")
    | some prev => .ok { F with head := some prev }

/-- `fork_database::set_max_size`. -/
def set_max_size (s : Nat) (F : Forks O) : Forks O :=
  match F.head with
  | none => { F with max_size := s }
  | some head => { F with max_size := s, index := F.index.filter fun i => ¬ i.num < head.num - s }

/-- `fork_database::set_head`. -/
def set_head (item : Item O) (F : Forks O) : Forks O := { F with head := some item }

/-- `fork_database::remove`. -/
def remove (id : BlockId) (F : Forks O) : Forks O :=
  { F with index := F.index.filter fun i => i.id digest ≠ id }

/-- `fork_database::fetch_block`. -/
def fetch_block (id : BlockId) (F : Forks O) : Option (Item O) := find digest F id

/-- The first two loops of `fetch_branch_from`: follows `prev` down to the number,
    collecting what it leaves. -/
def descend (F : Forks O) (num : Nat) (e : Entry O) : List (Entry O) → Except Exc (List (Item O) × Item O)
  | [] => if e.num > num then .error (.assert_exception "first_branch") else .ok ([],⟨e,[]⟩)
  | parent :: rest =>
    if e.num > num then
      if alive F [] parent then
        match descend F num parent rest with
        | .ok (passed,reached) => .ok (⟨e,parent :: rest⟩ :: passed,reached)
        | .error x => .error x
      else .error (.assert_exception "first_branch")
    else .ok ([],⟨e,parent :: rest⟩)

/-- The last loop of `fetch_branch_from`: goes down on both sides until the
    parents agree. -/
def meet (F : Forks O) (a : Entry O) (as : List (Entry O)) (b : Entry O) (bs : List (Entry O)) :
    Except Exc (List (Item O) × List (Item O)) :=
  if a.data.previous = b.data.previous then .ok ([⟨a,as⟩],[⟨b,bs⟩])
  else match as, bs with
    | a' :: as', b' :: bs' =>
      if alive F [] a' && alive F [] b' then
        match meet F a' as' b' bs' with
        | .ok (first,second) => .ok (⟨a,a' :: as'⟩ :: first,⟨b,b' :: bs'⟩ :: second)
        | .error x => .error x
      else .error (.assert_exception "second_branch")
    | _, _ => .error (.assert_exception "second_branch")

/-- `fork_database::fetch_branch_from`: both branches, highest block first. -/
def fetch_branch_from (first second : BlockId) (F : Forks O) : Except Exc (List (Item O) × List (Item O)) := do
  match find digest F first, find digest F second with
  | some a, some b =>
    let (firstTop,a) ← descend F b.num a.toEntry a.links
    let (secondTop,b) ← descend F a.num b.toEntry b.links
    let (firstRest,secondRest) ← meet F a.toEntry a.links b.toEntry b.links
    pure (firstTop ++ firstRest,secondTop ++ secondRest)
  | _, _ => throw (.assert_exception "first_branch_itr != _index.get<block_id>().end()")

/-! ### Linked items -/

/-- Every entry names the next one as its parent. -/
def Joined : List (Entry O) → Prop
  | [] => True
  | [_] => True
  | e :: next :: rest => e.data.previous = next.id digest ∧ Joined (next :: rest)

/-- An item together with the entries behind it. -/
def Item.path (item : Item O) : List (Entry O) := item.toEntry :: item.links

/-- Every item of the database is linked to its parents. -/
structure Woven (F : Forks O) : Prop where
  index : ∀ item ∈ F.index, Joined digest item.path
  head : ∀ item ∈ F.head, Joined digest item.path

variable {digest}

theorem find_some {F : Forks O} {id : BlockId} {item : Item O} (found : find digest F id = some item) :
    item ∈ F.index ∧ item.id digest = id :=
  ⟨List.mem_of_find?_eq_some found,by simpa using List.find?_some found⟩

theorem lock_some {F : Forks O} {held : List (Item O)} {item prev : Item O} (locked : lock F held item = some prev) :
    item.links = prev.path := by
  unfold lock Item.parent at locked
  cases shape : item.links with
  | nil => simp [shape] at locked
  | cons e rest =>
    simp only [shape] at locked
    split at locked
    · cases locked; rfl
    · cases locked

theorem joined_prev {F : Forks O} {held : List (Item O)} {item prev : Item O} (locked : lock F held item = some prev)
    (joined : Joined digest item.path) : prev.id digest = item.data.previous ∧ Joined digest prev.path := by
  have shape := lock_some locked
  unfold Item.path at joined
  rw [shape] at joined
  exact ⟨joined.1.symm,joined.2⟩

/-- Numbers go down along a path. -/
theorem joined_num {e x : Entry O} {rest : List (Entry O)} (joined : Joined digest (e :: rest)) (below : x ∈ rest) :
    x.num < e.num := by
  induction rest generalizing e with
  | nil => cases below
  | cons next rest ih =>
    have step : next.num + 1 = e.num := by
      show (next.id digest).num + 1 = e.num
      rw [← joined.1]
      rfl
    rcases List.mem_cons.mp below with rfl | deeper
    · omega
    · have := ih joined.2 deeper
      omega

/-- A path whose first block has another parent than `id` does not pass through it. -/
theorem joined_avoids {e x : Entry O} {rest : List (Entry O)} {id : BlockId} (joined : Joined digest (e :: rest))
    (other : e.data.previous ≠ id) (above : e.num = id.num + 1) (member : x ∈ e :: rest) : x.id digest ≠ id := by
  intro same
  have number : x.num = id.num := by rw [← same]; rfl
  rcases List.mem_cons.mp member with rfl | below
  · omega
  cases rest with
  | nil => cases below
  | cons next rest =>
    rcases List.mem_cons.mp below with rfl | deeper
    · exact other (joined.1.trans same)
    · have first := joined_num joined (List.mem_cons_self ..)
      have := joined_num joined.2 deeper
      omega

theorem joined_link {b : Block O} {F : Forks O} {links : List (Entry O)} (addr : Nat)
    (linked : link digest b F = .ok links) (woven : Woven digest F) :
    Joined digest (⟨addr,b⟩ :: links) := by
  unfold link at linked
  split at linked
  · split at linked
    · next parent found =>
      cases linked
      obtain ⟨member,named⟩ := find_some found
      exact ⟨named.symm,woven.index parent member⟩
    · cases linked
  · cases linked; trivial

/-- What a push that is not rejected does: the new item is linked, and it becomes the
    head when it is higher than the head. -/
theorem push_block_ok {b : Block O} {F F' : Forks O} {new_head : Item O}
    (pushed : push_block digest b F = .ok (new_head,F')) (woven : Woven digest F) :
    Woven digest F' ∧ (∀ i ∈ F'.index, i ∈ F.index ∨ i.data = b) ∧ F'.head = some new_head ∧
      ((∀ head ∈ F.head, b.block_num > head.num) ∧ new_head.data = b ∧ link digest b F = .ok new_head.links ∨
        F.head = some new_head ∧ ¬ b.block_num > new_head.num) := by
  unfold push_block at pushed
  split at pushed
  · cases pushed
  cases linked : link digest b F with
  | error e => simp [linked] at pushed
  | ok links =>
    simp only [linked,Except.ok.injEq] at pushed
    generalize itemIs : (⟨⟨F.next_addr,b⟩,links⟩ : Item O) = item at pushed
    have data : item.data = b := by rw [← itemIs]
    have joined : Joined digest item.path := by
      rw [← itemIs]
      exact joined_link F.next_addr linked woven
    have inserted : ∀ i ∈ (insert_item digest item F).index, i ∈ F.index ∨ i = item := by
      intro i member
      simp only [insert_item] at member
      split at member
      · exact .inl member
      · exact (List.mem_cons.mp member).symm
    have fine : ∀ i, i ∈ F.index ∨ i = item → Joined digest i.path := by
      rintro i (member | rfl)
      · exact woven.index i member
      · exact joined
    have named : ∀ i, i ∈ F.index ∨ i = item → i ∈ F.index ∨ i.data = b := by
      rintro i (member | rfl)
      · exact .inl member
      · exact .inr data
    have links' : (.ok links : Except Exc (List (Entry O))) = .ok item.links := by rw [← itemIs]
    cases top : F.head with
    | none =>
      have raised : raise_head item (insert_item digest item F) =
          (item,{ insert_item digest item F with head := some item }) := by
        simp [raise_head,insert_item,top]
      rw [raised] at pushed
      cases pushed
      refine ⟨⟨fun i member => fine i (inserted i member),fun i isHead => ?_⟩,
        fun i member => named i (inserted i member),rfl,.inl ⟨by simp,data,links'⟩⟩
      obtain rfl := Option.some.inj isHead
      exact joined
    | some head =>
      by_cases higher : item.num > head.num
      · have raised : (raise_head item (insert_item digest item F)).1 = item ∧
            (raise_head item (insert_item digest item F)).2.head = some item ∧
            ∀ i ∈ (raise_head item (insert_item digest item F)).2.index, i ∈ (insert_item digest item F).index := by
          simp only [raise_head,insert_item,top,higher,if_true]
          exact ⟨trivial,trivial,fun i member => List.mem_of_mem_filter member⟩
        rw [pushed] at raised
        obtain ⟨rfl,headIs,kept⟩ := raised
        refine ⟨⟨fun i member => fine i (inserted i (kept i member)),fun i isHead => ?_⟩,
          fun i member => named i (inserted i (kept i member)),headIs,.inl ⟨fun h isHead => ?_,data,links'⟩⟩
        · rw [headIs] at isHead
          obtain rfl := Option.some.inj isHead
          exact joined
        · obtain rfl := Option.some.inj isHead
          rw [← data]; exact higher
      · have raised : raise_head item (insert_item digest item F) = (head,insert_item digest item F) := by
          simp [raise_head,insert_item,top,higher]
        rw [raised] at pushed
        cases pushed
        refine ⟨⟨fun i member => fine i (inserted i member),fun i isHead => woven.head i isHead⟩,
          fun i member => named i (inserted i member),top,.inr ⟨rfl,?_⟩⟩
        rw [← data]; exact higher

/-! ### Branches -/

/-- Whoever descends stays on the path, above the number until it is reached. -/
theorem descend_ok {F : Forks O} {num : Nat} {e : Entry O} {links : List (Entry O)} {passed : List (Item O)}
    {reached : Item O} (ran : descend F num e links = .ok (passed,reached)) :
    (∀ x ∈ passed, x.path <:+ e :: links ∧ x.num > num) ∧ reached.path <:+ e :: links ∧ ¬ reached.num > num := by
  induction links generalizing e passed with
  | nil =>
    simp only [descend] at ran
    split at ran
    · cases ran
    · next low =>
      cases ran
      exact ⟨by simp,List.suffix_rfl,low⟩
  | cons parent rest ih =>
    simp only [descend] at ran
    split at ran
    · next high =>
      split at ran
      · split at ran
        · next below reached' descended =>
          cases ran
          obtain ⟨inside,suffix,low⟩ := ih descended
          have longer : ∀ {l : List (Entry O)}, l <:+ parent :: rest → l <:+ e :: parent :: rest :=
            fun shorter => shorter.trans (List.suffix_cons ..)
          refine ⟨fun x member => ?_,longer suffix,low⟩
          rcases List.mem_cons.mp member with rfl | member
          · exact ⟨List.suffix_rfl,high⟩
          · exact ⟨longer (inside x member).1,(inside x member).2⟩
        · cases ran
      · cases ran
    · next low =>
      cases ran
      exact ⟨by simp,List.suffix_rfl,low⟩

/-- Both branches stay on their paths, and their last blocks have one parent. -/
theorem meet_ok {F : Forks O} {a b : Entry O} {as bs : List (Entry O)} {first second : List (Item O)}
    (ran : meet F a as b bs = .ok (first,second)) :
    (∀ x ∈ first, x.path <:+ a :: as) ∧ (∀ y ∈ second, y.path <:+ b :: bs) ∧ first ≠ [] ∧ second ≠ [] := by
  induction as generalizing a b bs first second with
  | nil =>
    unfold meet at ran
    split at ran
    · cases ran
      exact ⟨by simp [Item.path],by simp [Item.path],by simp,by simp⟩
    · cases bs <;> cases ran
  | cons a' as ih =>
    unfold meet at ran
    split at ran
    · cases ran
      exact ⟨by simp [Item.path],by simp [Item.path],by simp,by simp⟩
    · cases bs with
      | nil => cases ran
      | cons b' bs =>
        simp only at ran
        split at ran
        · split at ran
          · next left right met =>
            cases ran
            obtain ⟨lefts,rights,_,_⟩ := ih met
            refine ⟨fun x member => ?_,fun y member => ?_,by simp,by simp⟩
            · rcases List.mem_cons.mp member with rfl | member
              · exact List.suffix_rfl
              · exact (lefts x member).trans (List.suffix_cons ..)
            · rcases List.mem_cons.mp member with rfl | member
              · exact List.suffix_rfl
              · exact (rights y member).trans (List.suffix_cons ..)
          · cases ran
        · cases ran

/-- The blocks of the branches are on the paths of the two items that were found. -/
theorem fetch_branch_from_ok {F : Forks O} {one two : BlockId} {first second : List (Item O)}
    (ran : fetch_branch_from digest one two F = .ok (first,second)) :
    ∃ a b, find digest F one = some a ∧ find digest F two = some b ∧ (∀ x ∈ first, x.path <:+ a.path) ∧
      (∀ y ∈ second, y.path <:+ b.path) ∧ second ≠ [] := by
  unfold fetch_branch_from at ran
  split at ran
  · next a b foundFirst foundSecond =>
    cases left : descend F b.num a.toEntry a.links with
    | error e => rw [left] at ran; cases ran
    | ok one =>
      obtain ⟨firstTop,a'⟩ := one
      obtain ⟨leftTop,leftLow,_⟩ := descend_ok left
      rw [left] at ran
      cases right : descend F a'.num b.toEntry b.links with
      | error e => simp only [bind,Except.bind,right] at ran; cases ran
      | ok two =>
        obtain ⟨secondTop,b'⟩ := two
        obtain ⟨rightTop,rightLow,_⟩ := descend_ok right
        cases met : meet F a'.toEntry a'.links b'.toEntry b'.links with
        | error e => simp only [bind,Except.bind,right,met] at ran; cases ran
        | ok rest =>
          obtain ⟨firstRest,secondRest⟩ := rest
          obtain ⟨lefts,rights,_,more⟩ := meet_ok met
          simp only [bind,Except.bind,right,met] at ran
          cases ran
          refine ⟨a,b,foundFirst,foundSecond,fun x member => ?_,fun y member => ?_,by simp [more]⟩
          · rcases List.mem_append.mp member with top | below
            · exact (leftTop x top).1
            · exact (lefts x below).trans leftLow
          · rcases List.mem_append.mp member with top | below
            · exact (rightTop y top).1
            · exact (rights y below).trans rightLow
  · cases ran

/-- On a path, the block above an entry names it. -/
theorem joined_parent {x e : Entry O} {path : List (Entry O)} (joined : Joined digest path) (upper : x ∈ path)
    (lower : e ∈ path) (step : x.num = e.num + 1) : x.data.previous = e.id digest := by
  induction path with
  | nil => cases upper
  | cons first rest ih =>
    cases rest with
    | nil =>
      obtain rfl := List.mem_singleton.mp upper
      obtain rfl := List.mem_singleton.mp lower
      omega
    | cons next rest =>
      have down : next.num + 1 = first.num := by
        show (next.id digest).num + 1 = first.num
        rw [← joined.1]
        rfl
      rcases List.mem_cons.mp upper with rfl | above
      · rcases List.mem_cons.mp lower with rfl | below
        · omega
        rcases List.mem_cons.mp below with rfl | deeper
        · exact joined.1
        · have := joined_num joined.2 deeper
          omega
      · rcases List.mem_cons.mp lower with rfl | below
        · have := joined_num joined above
          omega
        · exact ih joined.2 above below

theorem joined_suffix {path part : List (Entry O)} (joined : Joined digest path) (suffix : part <:+ path) :
    Joined digest part := by
  induction path with
  | nil => rw [List.suffix_nil.mp suffix]; trivial
  | cons e rest ih =>
    rcases List.suffix_cons_iff.mp suffix with rfl | inside
    · exact joined
    · cases rest with
      | nil => rw [List.suffix_nil.mp inside]; trivial
      | cons next rest => exact ih joined.2 inside

/-- Going down from above a number ends at the number. -/
theorem descend_num {F : Forks O} {num : Nat} {e : Entry O} {links : List (Entry O)} {passed : List (Item O)}
    {reached : Item O} (joined : Joined digest (e :: links)) (above : num ≤ e.num)
    (ran : descend F num e links = .ok (passed,reached)) : reached.num = num := by
  induction links generalizing e passed with
  | nil =>
    simp only [descend] at ran
    split at ran
    · cases ran
    · cases ran
      have : (⟨e,[]⟩ : Item O).num = e.num := rfl
      omega
  | cons parent rest ih =>
    simp only [descend] at ran
    have down : parent.num + 1 = e.num := by
      show (parent.id digest).num + 1 = e.num
      rw [← joined.1]
      rfl
    split at ran
    · split at ran
      · split at ran
        · next below reached' descended =>
          cases ran
          exact ih joined.2 (by omega) descended
        · cases ran
      · cases ran
    · cases ran
      have : (⟨e,parent :: rest⟩ : Item O).num = e.num := rfl
      omega

/-- Two paths that come from one block part no lower than it. -/
theorem meet_above {F : Forks O} {a b : Entry O} {as bs : List (Entry O)} {first second : List (Item O)} {id : BlockId}
    (left : Joined digest (a :: as)) (right : Joined digest (b :: bs)) (level : a.num = b.num) (above : id.num < b.num)
    (leftFrom : ∀ x ∈ a :: as, x.num = id.num + 1 → x.data.previous = id)
    (rightFrom : ∀ x ∈ b :: bs, x.num = id.num + 1 → x.data.previous = id)
    (ran : meet F a as b bs = .ok (first,second)) : ∀ y ∈ second, id.num < y.num := by
  have stops : a.num = id.num + 1 → a.data.previous = b.data.previous := by
    intro near
    rw [leftFrom a (List.mem_cons_self ..) near,rightFrom b (List.mem_cons_self ..) (level ▸ near)]
  induction as generalizing a b bs first second with
  | nil =>
    unfold meet at ran
    split at ran
    · cases ran
      intro y member
      obtain rfl := List.mem_singleton.mp member
      exact above
    · cases bs <;> cases ran
  | cons a' as ih =>
    unfold meet at ran
    split at ran
    · cases ran
      intro y member
      obtain rfl := List.mem_singleton.mp member
      exact above
    · next apart =>
      cases bs with
      | nil => cases ran
      | cons b' bs =>
        simp only at ran
        split at ran
        · split at ran
          · next lefts rights met =>
            cases ran
            have leftDown : a'.num + 1 = a.num := by
              show (a'.id digest).num + 1 = a.num
              rw [← left.1]
              rfl
            have rightDown : b'.num + 1 = b.num := by
              show (b'.id digest).num + 1 = b.num
              rw [← right.1]
              rfl
            have far : a.num ≠ id.num + 1 := fun near => apart (stops near)
            have leftRest : ∀ x ∈ a' :: as, x.num = id.num + 1 → x.data.previous = id :=
              fun x member => leftFrom x (List.mem_cons_of_mem _ member)
            have rightRest : ∀ x ∈ b' :: bs, x.num = id.num + 1 → x.data.previous = id :=
              fun x member => rightFrom x (List.mem_cons_of_mem _ member)
            intro y member
            rcases List.mem_cons.mp member with rfl | member
            · exact above
            refine ih left.2 right.2 (by omega) (by omega) leftRest rightRest met (fun near => ?_) y member
            rw [leftRest a' (List.mem_cons_self ..) near,rightRest b' (List.mem_cons_self ..) (by omega)]
          · cases ran
        · cases ran

/-- The branches of two items that both come from one block part above it. -/
theorem fetch_branch_above {F : Forks O} {one two : BlockId} {a b : Item O} {first second : List (Item O)}
    (id : BlockId) (woven : Woven digest F) (foundFirst : find digest F one = some a) (foundSecond : find digest F two = some b)
    (higher : b.num ≤ a.num) (above : id.num < b.num)
    (leftFrom : ∀ x ∈ a.path, x.num = id.num + 1 → x.data.previous = id)
    (rightFrom : ∀ x ∈ b.path, x.num = id.num + 1 → x.data.previous = id)
    (ran : fetch_branch_from digest one two F = .ok (first,second)) : ∀ y ∈ second, id.num < y.num := by
  have aJoined := woven.index a (find_some foundFirst).1
  have bJoined := woven.index b (find_some foundSecond).1
  unfold fetch_branch_from at ran
  simp only [foundFirst,foundSecond,bind,Except.bind] at ran
  cases left : descend F b.num a.toEntry a.links with
  | error e => rw [left] at ran; cases ran
  | ok one =>
    obtain ⟨firstTop,a'⟩ := one
    obtain ⟨_,leftLow,_⟩ := descend_ok left
    have level : a'.num = b.num := descend_num aJoined higher left
    simp only [left] at ran
    cases right : descend F a'.num b.toEntry b.links with
    | error e => rw [right] at ran; cases ran
    | ok two =>
      obtain ⟨secondTop,b'⟩ := two
      obtain ⟨rightTop,rightLow,_⟩ := descend_ok right
      have level' : b'.num = a'.num := descend_num bJoined (by omega) right
      simp only [right] at ran
      cases met : meet F a'.toEntry a'.links b'.toEntry b'.links with
      | error e => rw [met] at ran; cases ran
      | ok rest =>
        obtain ⟨firstRest,secondRest⟩ := rest
        simp only [met] at ran
        cases ran
        intro y member
        rcases List.mem_append.mp member with top | below
        · have := (rightTop y top).2
          omega
        · refine meet_above (joined_suffix aJoined leftLow) (joined_suffix bJoined rightLow) level'.symm ?_
            (fun x inside => leftFrom x (leftLow.subset inside)) (fun x inside => rightFrom x (rightLow.subset inside))
            met y below
          have same : b'.num = b.num := level'.trans level
          show id.num < b'.num
          omega

/-! ### Branches as parts of paths -/

/-- What is passed and the path that is reached make up the path. -/
theorem descend_split {F : Forks O} {num : Nat} {e : Entry O} {links : List (Entry O)} {passed : List (Item O)}
    {reached : Item O} (ran : descend F num e links = .ok (passed,reached)) :
    passed.map Item.toEntry ++ reached.path = e :: links := by
  induction links generalizing e passed with
  | nil =>
    simp only [descend] at ran
    split at ran <;> cases ran
    rfl
  | cons parent rest ih =>
    simp only [descend] at ran
    split at ran
    · split at ran
      · split at ran
        · next below reached' descended =>
          cases ran
          simp [ih descended]
        · cases ran
      · cases ran
    · cases ran
      rfl

/-- Two branches that meet are the tops of their paths, and their last blocks have one parent. -/
theorem meet_split {F : Forks O} {a b : Entry O} {as bs : List (Entry O)} {first second : List (Item O)}
    (ran : meet F a as b bs = .ok (first,second)) :
    first.map Item.toEntry <+: a :: as ∧ second.map Item.toEntry <+: b :: bs ∧
      ∃ x ∈ first.getLast?, ∃ y ∈ second.getLast?, x.data.previous = y.data.previous := by
  have one : ∀ (e : Entry O) (es : List (Entry O)), [(⟨e,es⟩ : Item O)].map Item.toEntry <+: e :: es :=
    fun e es => ⟨es,rfl⟩
  induction as generalizing a b bs first second with
  | nil =>
    unfold meet at ran
    split at ran
    · next same =>
      cases ran
      exact ⟨one a [],one b bs,_,rfl,_,rfl,same⟩
    · cases bs <;> cases ran
  | cons a' as ih =>
    unfold meet at ran
    split at ran
    · next same =>
      cases ran
      exact ⟨one a _,one b bs,_,rfl,_,rfl,same⟩
    · cases bs with
      | nil => cases ran
      | cons b' bs =>
        simp only at ran
        split at ran
        · split at ran
          · next left right met =>
            cases ran
            obtain ⟨lefts,rights,x,isLast,y,isLast',same⟩ := ih met
            refine ⟨List.cons_prefix_cons.mpr ⟨rfl,lefts⟩,List.cons_prefix_cons.mpr ⟨rfl,rights⟩,x,?_,y,?_,same⟩
            · exact List.mem_getLast?_cons isLast
            · exact List.mem_getLast?_cons isLast'
          · cases ran
        · cases ran

theorem descend_error {F : Forks O} {num : Nat} {e : Entry O} {links : List (Entry O)} {x : Exc}
    (ran : descend F num e links = .error x) : ∃ what, x = .assert_exception what := by
  induction links generalizing e with
  | nil =>
    simp only [descend] at ran
    split at ran <;> cases ran
    exact ⟨_,rfl⟩
  | cons parent rest ih =>
    simp only [descend] at ran
    split at ran
    · split at ran
      · split at ran
        · cases ran
        · next failed =>
          cases ran
          exact ih failed
      · cases ran
        exact ⟨_,rfl⟩
    · cases ran

theorem meet_error {F : Forks O} {a b : Entry O} {as bs : List (Entry O)} {x : Exc}
    (ran : meet F a as b bs = .error x) : ∃ what, x = .assert_exception what := by
  induction as generalizing a b bs with
  | nil =>
    unfold meet at ran
    split at ran
    · cases ran
    · cases bs <;> cases ran <;> exact ⟨_,rfl⟩
  | cons a' as ih =>
    unfold meet at ran
    split at ran
    · cases ran
    · cases bs with
      | nil => cases ran; exact ⟨_,rfl⟩
      | cons b' bs =>
        simp only at ran
        split at ran
        · split at ran
          · cases ran
          · next failed =>
            cases ran
            exact ih failed
        · cases ran
          exact ⟨_,rfl⟩

/-- Branches either come down to one parent from the two items, or an assertion fails. -/
theorem fetch_branch_from_split (digest : Header → Nat) (one two : BlockId) (F : Forks O) :
    (∃ what, fetch_branch_from digest one two F = .error (.assert_exception what)) ∨
      ∃ first second a b, fetch_branch_from digest one two F = .ok (first,second) ∧ find digest F one = some a ∧
        find digest F two = some b ∧ first.map Item.toEntry <+: a.path ∧ second.map Item.toEntry <+: b.path ∧
        ∃ x ∈ first.getLast?, ∃ y ∈ second.getLast?, x.data.previous = y.data.previous := by
  unfold fetch_branch_from
  split
  · next a b foundFirst foundSecond =>
    simp only [bind,Except.bind]
    cases left : descend F b.num a.toEntry a.links with
    | error e =>
      obtain ⟨what,rfl⟩ := descend_error left
      exact .inl ⟨what,rfl⟩
    | ok passed =>
      obtain ⟨firstTop,a'⟩ := passed
      simp only
      cases right : descend F a'.num b.toEntry b.links with
      | error e =>
        obtain ⟨what,rfl⟩ := descend_error right
        exact .inl ⟨what,rfl⟩
      | ok passed =>
        obtain ⟨secondTop,b'⟩ := passed
        simp only
        cases met : meet F a'.toEntry a'.links b'.toEntry b'.links with
        | error e =>
          obtain ⟨what,rfl⟩ := meet_error met
          exact .inl ⟨what,rfl⟩
        | ok rest =>
          obtain ⟨firstRest,secondRest⟩ := rest
          obtain ⟨lefts,rights,x,isLast,y,isLast',same⟩ := meet_split met
          refine .inr ⟨_,_,a,b,rfl,foundFirst,foundSecond,?_,?_,x,?_,y,?_,same⟩
          · show _ <+: a.toEntry :: a.links
            rw [List.map_append,← descend_split left]
            exact List.prefix_append_right_inj _ |>.mpr lefts
          · show _ <+: b.toEntry :: b.links
            rw [List.map_append,← descend_split right]
            exact List.prefix_append_right_inj _ |>.mpr rights
          · exact List.mem_getLast?_append_of_mem_getLast? isLast
          · exact List.mem_getLast?_append_of_mem_getLast? isLast'
  · exact .inl ⟨_,rfl⟩

end

end Decent.ForkDatabase

import Mathlib.Data.Nat.Find
import Decent.ForkDatabase

/-!
Where two branches part. `fetch_branch_from` goes down from two items to the number they
share and from there on both sides in step, until the parents agree; so the branches end
right above the nearest block that both items come from.
-/
namespace Decent.ForkDatabase
open Decent.ObjectDatabase (Exc)
open Decent.Protocol

variable {O : Type} {digest : Header → Nat}

/-! ## Paths -/

/-- The items that lead down a path. -/
def tops : List (Entry O) → List (Item O)
  | [] => []
  | e :: rest => ⟨e,rest⟩ :: tops rest

theorem tops_get (path : List (Entry O)) (i : Nat) : ((tops path)[i]?).map Item.toEntry = path[i]? := by
  induction path generalizing i with
  | nil => simp [tops]
  | cons e rest ih =>
    cases i with
    | zero => rfl
    | succ i => simpa [tops] using ih i

theorem tops_drop (path : List (Entry O)) (n : Nat) : tops (path.drop n) = (tops path).drop n := by
  induction path generalizing n with
  | nil => simp [tops]
  | cons e rest ih =>
    cases n with
    | zero => rfl
    | succ n => simpa [tops] using ih n

/-- Each of them is followed by its parent. -/
theorem tops_chain (path : List (Entry O)) : (tops path).IsChain fun item parent => item.parent = some parent := by
  induction path with
  | nil => exact .nil
  | cons e rest ih =>
    cases rest with
    | nil => exact .singleton _
    | cons next rest => exact .cons_cons rfl ih

/-- The ids of the blocks that the top of a path comes from. -/
def ancestors (path : List (Entry O)) : List BlockId := path.map fun e => e.data.previous

/-- `prev` leads from the top of a path to a block on the one with the id, through items
    that are alive. -/
def LinkedDownTo (F : Forks O) (id : BlockId) (path : List (Entry O)) : Prop :=
  ∃ m e, path[m]? = some e ∧ e.data.previous = id ∧ ∀ i x, 0 < i → i ≤ m → path[i]? = some x → alive F [] x = true

theorem joined_at {e x : Entry O} {rest : List (Entry O)} (joined : Joined digest (e :: rest)) {i : Nat}
    (there : (e :: rest)[i]? = some x) : x.num + i = e.num := by
  induction i generalizing e rest with
  | zero =>
    cases there
    rfl
  | succ i ih =>
    cases rest with
    | nil => simp at there
    | cons next rest =>
      have step : next.num + 1 = e.num := by
        show (next.id digest).num + 1 = e.num
        rw [← joined.1]
        rfl
      have deeper := ih joined.2 (by simpa using there)
      omega

theorem joined_step {path : List (Entry O)} (joined : Joined digest path) {i : Nat} {x y : Entry O}
    (there : path[i]? = some x) (next : path[i + 1]? = some y) : x.data.previous = y.id digest := by
  induction path generalizing i with
  | nil => simp at there
  | cons e rest ih =>
    cases rest with
    | nil => simp at next
    | cons e' rest =>
      cases i with
      | zero =>
        cases there
        cases next
        exact joined.1
      | succ i => exact ih joined.2 (by simpa using there) (by simpa using next)

/-! ## The loops -/

/-- A descent passes what is above the number. -/
theorem descend_steps {F : Forks O} {num k : Nat} {e e' : Entry O} {links rest' : List (Entry O)}
    (reached : (e :: links).drop k = e' :: rest') (low : ¬ e'.num > num)
    (high : ∀ i x, i < k → (e :: links)[i]? = some x → x.num > num)
    (living : ∀ i x, 0 < i → i ≤ k → (e :: links)[i]? = some x → alive F [] x = true) :
    descend F num e links = .ok ((tops (e :: links)).take k,⟨e',rest'⟩) := by
  induction k generalizing e links with
  | zero =>
    cases reached
    cases rest' <;> simp [descend,low]
  | succ k ih =>
    cases links with
    | nil => simp at reached
    | cons parent rest =>
      have above := high 0 e (Nat.succ_pos k) rfl
      have lives := living 1 parent Nat.one_pos (by omega) rfl
      have below := @ih parent rest (by simpa using reached)
        (fun i x inside there => high (i + 1) x (by omega) (by simpa using there))
        (fun i x positive inside there => living (i + 1) x (by omega) (by omega) (by simpa using there))
      rw [descend,if_pos above,if_pos lives,below]
      rfl

/-- Going down in step ends where the parents agree for the first time. -/
theorem meet_steps {F : Forks O} {k : Nat} {a b : Entry O} {as bs : List (Entry O)}
    (differ : ∀ i x y, i < k → (a :: as)[i]? = some x → (b :: bs)[i]? = some y → x.data.previous ≠ y.data.previous)
    (agree : ∃ x y, (a :: as)[k]? = some x ∧ (b :: bs)[k]? = some y ∧ x.data.previous = y.data.previous)
    (living : ∀ i x, 0 < i → i ≤ k → ((a :: as)[i]? = some x ∨ (b :: bs)[i]? = some x) → alive F [] x = true) :
    meet F a as b bs = .ok ((tops (a :: as)).take (k + 1),(tops (b :: bs)).take (k + 1)) := by
  induction k generalizing a as b bs with
  | zero =>
    obtain ⟨x,y,isTop,isTop',same⟩ := agree
    cases isTop
    cases isTop'
    unfold meet
    rw [if_pos same]
    rfl
  | succ k ih =>
    have apart := differ 0 a b (Nat.succ_pos k) rfl rfl
    obtain ⟨x,y,there,there',same⟩ := agree
    cases as with
    | nil => simp at there
    | cons a' as =>
      cases bs with
      | nil => simp at there'
      | cons b' bs =>
        have lives : alive F [] a' = true := living 1 a' Nat.one_pos (by omega) (.inl rfl)
        have lives' : alive F [] b' = true := living 1 b' Nat.one_pos (by omega) (.inr rfl)
        have below := @ih a' b' as bs
          (fun i x y inside left right => differ (i + 1) x y (by omega) (by simpa using left) (by simpa using right))
          ⟨x,y,by simpa using there,by simpa using there',same⟩
          (fun i x positive inside there => living (i + 1) x (by omega) (by omega) (by simpa using there))
        unfold meet
        rw [if_neg apart]
        simp only [lives,lives',Bool.and_self,if_true,below]
        rfl

/-! ## The point where two paths part -/

/-- Two paths come to the same number after `i` and `j` steps, and `k` steps further down
    their blocks have one parent for the first time. -/
structure PartAt (as bs : List (Entry O)) (i j k : Nat) : Prop where
  level : i = 0 ∨ j = 0
  step : ∀ m n x y, as[m]? = some x → bs[n]? = some y → (x.num = y.num ↔ m + j = n + i)
  agree : ∃ x y, as[i + k]? = some x ∧ bs[j + k]? = some y ∧ x.data.previous = y.data.previous
  differ : ∀ t x y, t < k → as[i + t]? = some x → bs[j + t]? = some y → x.data.previous ≠ y.data.previous

/-- Paths that lead down to one block part. -/
theorem parts_of_linked {F : Forks O} {a b : Item O} {id : BlockId} (joined : Joined digest a.path)
    (joined' : Joined digest b.path) (linked : LinkedDownTo F id a.path) (linked' : LinkedDownTo F id b.path) :
    ∃ k, PartAt a.path b.path (a.num - b.num) (b.num - a.num) k ∧
      (∀ n x, 0 < n → n ≤ a.num - b.num + k → a.path[n]? = some x → alive F [] x = true) ∧
      ∀ n x, 0 < n → n ≤ b.num - a.num + k → b.path[n]? = some x → alive F [] x = true := by
  obtain ⟨m,e,there,parent,living⟩ := linked
  obtain ⟨m',e',there',parent',living'⟩ := linked'
  have low : e.num + m = a.num := joined_at joined there
  have low' : e'.num + m' = b.num := joined_at joined' there'
  have number : e.num = e'.num := by
    show e.data.previous.num + 1 = e'.data.previous.num + 1
    rw [parent,parent']
  let agrees (t : Nat) : Prop := ∃ x y, a.path[a.num - b.num + t]? = some x ∧ b.path[b.num - a.num + t]? = some y ∧
    x.data.previous = y.data.previous
  have found : agrees (m - (a.num - b.num)) := by
    refine ⟨e,e',?_,?_,parent.trans parent'.symm⟩
    · rw [show a.num - b.num + (m - (a.num - b.num)) = m by omega]
      exact there
    · rw [show b.num - a.num + (m - (a.num - b.num)) = m' by omega]
      exact there'
  classical
  have least := Nat.find_le (h := ⟨_,found⟩) (p := agrees) found
  refine ⟨Nat.find ⟨_,found⟩,⟨by omega,fun n n' x y left right => ?_,Nat.find_spec ⟨_,found⟩,?_⟩,?_,?_⟩
  · have left_num : x.num + n = a.num := joined_at joined left
    have right_num : y.num + n' = b.num := joined_at joined' right
    omega
  · intro t x y before left right same
    exact Nat.find_min ⟨_,found⟩ before ⟨x,y,left,right,same⟩
  · exact fun n x positive inside at_n => living n x positive (by omega) at_n
  · exact fun n x positive inside at_n => living' n x positive (by omega) at_n

/-- The loops stop at the point where the paths part. -/
theorem fetch_branch_from_parts {F : Forks O} {first second : BlockId} {a b : Item O} {k : Nat}
    (joined : Joined digest a.path) (joined' : Joined digest b.path)
    (found : find digest F first = some a) (found' : find digest F second = some b)
    (parts : PartAt a.path b.path (a.num - b.num) (b.num - a.num) k)
    (living : ∀ n x, 0 < n → n ≤ a.num - b.num + k → a.path[n]? = some x → alive F [] x = true)
    (living' : ∀ n x, 0 < n → n ≤ b.num - a.num + k → b.path[n]? = some x → alive F [] x = true) :
    fetch_branch_from digest first second F =
      .ok ((tops a.path).take (a.num - b.num + (k + 1)),(tops b.path).take (b.num - a.num + (k + 1))) := by
  obtain ⟨x,y,last,last',same⟩ := parts.agree
  obtain ⟨inside,-⟩ := List.getElem?_eq_some_iff.mp last
  obtain ⟨inside',-⟩ := List.getElem?_eq_some_iff.mp last'
  -- What the descents reach.
  obtain ⟨a',as',reached⟩ : ∃ a' as', a.path.drop (a.num - b.num) = a' :: as' :=
    ⟨_,_,List.drop_eq_getElem_cons (by omega)⟩
  obtain ⟨b',bs',reached'⟩ : ∃ b' bs', b.path.drop (b.num - a.num) = b' :: bs' :=
    ⟨_,_,List.drop_eq_getElem_cons (by omega)⟩
  have at_a (n : Nat) : (a' :: as')[n]? = a.path[a.num - b.num + n]? := by rw [← reached,List.getElem?_drop]
  have at_b (n : Nat) : (b' :: bs')[n]? = b.path[b.num - a.num + n]? := by rw [← reached',List.getElem?_drop]
  have num_a : a'.num + (a.num - b.num) = a.num := joined_at joined ((at_a 0).symm.trans rfl)
  have num_b : b'.num + (b.num - a.num) = b.num := joined_at joined' ((at_b 0).symm.trans rfl)
  have down : descend F b.num a.toEntry a.links = .ok ((tops a.path).take (a.num - b.num),⟨a',as'⟩) := by
    refine descend_steps reached (by omega) (fun n x before there => ?_)
      (fun n x positive inside there => living n x positive (by omega) there)
    have number : x.num + n = a.num := joined_at joined there
    omega
  have down' : descend F (Item.mk a' as').num b.toEntry b.links =
      .ok ((tops b.path).take (b.num - a.num),⟨b',bs'⟩) := by
    have low : (Item.mk a' as').num = a'.num := rfl
    refine descend_steps reached' (by rw [low]; omega) (fun n x before there => ?_)
      (fun n x positive inside there => living' n x positive (by omega) there)
    have number : x.num + n = b.num := joined_at joined' there
    omega
  have met := @meet_steps _ F k a' b' as' bs'
    (fun t x y before left right => parts.differ t x y before ((at_a t).symm.trans left) ((at_b t).symm.trans right))
    ⟨x,y,(at_a k).trans last,(at_b k).trans last',same⟩
    (fun t x positive inside there => by
      rcases there with left | right
      · exact living (a.num - b.num + t) x (by omega) (by omega) ((at_a t).symm.trans left)
      · exact living' (b.num - a.num + t) x (by omega) (by omega) ((at_b t).symm.trans right))
  have whole (path : List (Entry O)) (n : Nat) :
      (tops path).take n ++ ((tops path).drop n).take (k + 1) = (tops path).take (n + (k + 1)) := List.take_add.symm
  unfold fetch_branch_from
  simp only [found,found',bind,Except.bind,down,down',met,pure,Except.pure]
  rw [← reached,← reached',tops_drop,tops_drop,whole,whole]

/-! ## What is above that point -/

section
variable {as bs : List (Entry O)} {i j k : Nat}

/-- Above it the paths have no block in common, unless one starts on the other. -/
theorem PartAt.disjoint (parts : PartAt as bs i j k) (joined : Joined digest as) (joined' : Joined digest bs)
    {m n : Nat} {x y : Entry O} (inside : m ≤ i + k) (inside' : n ≤ j + k) (there : as[m]? = some x)
    (there' : bs[n]? = some y) (same : x.id digest = y.id digest)
    (apart : ∀ e ∈ as[0]?, ∀ f ∈ bs[0]?, e.id digest ≠ f.id digest)
    (below : ∀ e ∈ as[0]?, e.id digest ∉ ancestors bs) (below' : ∀ f ∈ bs[0]?, f.id digest ∉ ancestors as) : False := by
  have level : m + j = n + i := (parts.step m n x y there there').mp (congrArg BlockId.num same)
  have named {path : List (Entry O)} {n : Nat} {e : Entry O} (at_n : path[n]? = some e) :
      e.data.previous ∈ ancestors path := List.mem_map.mpr ⟨e,List.mem_of_getElem? at_n,rfl⟩
  have before {path : List (Entry O)} {n : Nat} {e : Entry O} (at_n : path[n + 1]? = some e) :
      ∃ e', path[n]? = some e' := by
    obtain ⟨bound,-⟩ := List.getElem?_eq_some_iff.mp at_n
    exact ⟨_,List.getElem?_eq_getElem (by omega)⟩
  rcases m with _ | m
  · rcases n with _ | n
    · exact apart x there y there' same
    · obtain ⟨y',above⟩ := before there'
      refine below x there ?_
      rw [same,← joined_step joined' above there']
      exact named above
  · obtain ⟨x',above⟩ := before there
    rcases n with _ | n
    · refine below' y there' ?_
      rw [← same,← joined_step joined above there]
      exact named above
    · obtain ⟨y',above'⟩ := before there'
      have parents : x'.data.previous = y'.data.previous := by
        rw [joined_step joined above there,joined_step joined' above' there',same]
      have level' := parts.level
      obtain ⟨t,is_m,is_n⟩ : ∃ t, m = i + t ∧ n = j + t := ⟨m - i,by omega,by omega⟩
      subst is_m is_n
      exact parts.differ t x' y' (by omega) above above' parents

/-- What both paths come from is not above it. -/
theorem PartAt.nearest (parts : PartAt as bs i j k) {id : BlockId} (common : id ∈ ancestors as)
    (common' : id ∈ ancestors bs) {x : Entry O} (last : as[i + k]? = some x) (joined : Joined digest as) :
    id.num ≤ x.data.previous.num := by
  obtain ⟨e,member,parent⟩ := List.mem_map.mp common
  obtain ⟨f,member',parent'⟩ := List.mem_map.mp common'
  obtain ⟨m,there⟩ := List.mem_iff_getElem?.mp member
  obtain ⟨n,there'⟩ := List.mem_iff_getElem?.mp member'
  have number : e.num = f.num := by
    show e.data.previous.num + 1 = f.data.previous.num + 1
    rw [parent,parent']
  have level : m + j = n + i := (parts.step m n e f there there').mp number
  have level' := parts.level
  by_contra higher
  obtain ⟨first,rest,rfl⟩ : ∃ first rest, as = first :: rest := by
    cases as with
    | nil => simp at there
    | cons first rest => exact ⟨first,rest,rfl⟩
  have num_e : e.num + m = first.num := joined_at joined there
  have num_x : x.num + (i + k) = first.num := joined_at joined last
  have above : x.num < e.num := by
    show x.data.previous.num + 1 < e.data.previous.num + 1
    rw [parent]
    omega
  obtain ⟨t,is_m,is_n⟩ : ∃ t, m = i + t ∧ n = j + t := ⟨m - i,by omega,by omega⟩
  subst is_m is_n
  exact parts.differ t e f (by omega) there there' (parent.trans parent'.symm)

end

/-! ## Every fork database -/

/-- The fork databases that calls lead to. A head is set to an item of the database or
    one that `prev` leads to from there. -/
inductive Built (digest : Header → Nat) : Forks O → Prop
  | empty : Built digest .empty
  | start_block {F : Forks O} (b : Block O) : Built digest F → Built digest (start_block digest b F)
  | push_block {F F' : Forks O} {b : Block O} {new_head : Item O} : Built digest F →
      push_block digest b F = .ok (new_head,F') → Built digest F'
  | pop_block {F F' : Forks O} (held : List (Item O)) : Built digest F → pop_block held F = .ok F' → Built digest F'
  | set_max_size {F : Forks O} (s : Nat) : Built digest F → Built digest (set_max_size s F)
  | set_head {F : Forks O} {item other : Item O} : Built digest F → other ∈ F.index ∨ F.head = some other →
      item.path <:+ other.path → Built digest (set_head item F)
  | remove {F : Forks O} (id : BlockId) : Built digest F → Built digest (remove digest id F)

theorem woven_of_built {F : Forks O} (built : Built digest F) : Woven digest F := by
  induction built with
  | empty => exact ⟨by simp [Forks.empty],by simp [Forks.empty]⟩
  | start_block b built woven =>
    refine ⟨fun item member => ?_,fun item isHead => ?_⟩
    · simp only [start_block] at member
      split at member
      · exact woven.index item member
      · rcases List.mem_cons.mp member with rfl | before
        · trivial
        · exact woven.index item before
    · cases isHead
      trivial
  | push_block built pushed woven => exact (push_block_ok pushed woven).1
  | @pop_block F F' held built popped woven =>
    unfold pop_block at popped
    split at popped
    · cases popped
    next head isHead =>
      split at popped
      · cases popped
      next prev locked =>
        cases popped
        refine ⟨woven.index,fun item same => ?_⟩
        cases same
        exact (joined_prev locked (woven.head head isHead)).2
  | @set_max_size F s built woven =>
    unfold set_max_size
    split
    · exact ⟨woven.index,woven.head⟩
    · exact ⟨fun item member => woven.index item (List.mem_of_mem_filter member),woven.head⟩
  | @set_head F item other built there suffix woven =>
    refine ⟨woven.index,fun _ same => ?_⟩
    cases same
    rcases there with member | isHead
    · exact joined_suffix (woven.index other member) suffix
    · exact joined_suffix (woven.head other isHead) suffix
  | remove id built woven =>
    exact ⟨fun item member => woven.index item (List.mem_of_mem_filter member),woven.head⟩

/-- A parent chain that starts with the item. -/
structure Branch (item : Item O) (branch : List (Item O)) : Prop where
  start : branch.head? = some item
  chain : branch.IsChain fun item parent => item.parent = some parent

theorem branch_of_tops (item : Item O) (n : Nat) : Branch item ((tops item.path).take (n + 1)) where
  start := rfl
  chain := (tops_chain item.path).take (n + 1)

/-- What two branches have to be: they start at the items, share no block, and end above
    the nearest block that both items come from. -/
structure Parted (digest : Header → Nat) (a b : Item O) (one two : List (Item O)) : Prop where
  first : Branch a one
  second : Branch b two
  disjoint : ∀ x ∈ one, ∀ y ∈ two, x.id digest ≠ y.id digest
  nearest : ∃ x y, one.getLast? = some x ∧ two.getLast? = some y ∧ x.data.previous = y.data.previous ∧
    x.data.previous ∈ ancestors a.path ∧ x.data.previous ∈ ancestors b.path ∧
    ∀ id ∈ ancestors a.path, id ∈ ancestors b.path → id.num ≤ x.data.previous.num

theorem mem_tops_take {path : List (Entry O)} {n : Nat} {item : Item O} (member : item ∈ (tops path).take n) :
    ∃ i < n, path[i]? = some item.toEntry := by
  obtain ⟨i,bound,at_i⟩ := List.mem_take_iff_getElem.mp member
  refine ⟨i,by omega,?_⟩
  rw [← tops_get,List.getElem?_eq_getElem (by omega),at_i]
  rfl

theorem tops_last {path : List (Entry O)} {n : Nat} {e : Entry O} (there : path[n]? = some e) :
    ∃ item, ((tops path).take (n + 1)).getLast? = some item ∧ item.toEntry = e := by
  have mapped := tops_get path n
  rw [there] at mapped
  obtain ⟨item,at_n,isTop⟩ := Option.map_eq_some_iff.mp mapped
  refine ⟨item,?_,isTop⟩
  rw [List.getLast?_take,if_neg (Nat.succ_ne_zero n),Nat.add_sub_cancel,at_n,Option.some_or]

/-- Two blocks neither of which comes from the other, linked down to a block that both
    come from, have branches that part at the nearest one. -/
theorem fetch_branch_from_parting {F : Forks O} (built : Built digest F) {first second : BlockId} {a b : Item O}
    (found : find digest F first = some a) (found' : find digest F second = some b) (apart : first ≠ second)
    (below : first ∉ ancestors b.path) (below' : second ∉ ancestors a.path) {id : BlockId}
    (linked : LinkedDownTo F id a.path) (linked' : LinkedDownTo F id b.path) :
    ∃ one two, fetch_branch_from digest first second F = .ok (one,two) ∧ Parted digest a b one two := by
  have woven := woven_of_built built
  obtain ⟨member,named⟩ := find_some found
  obtain ⟨member',named'⟩ := find_some found'
  have joined := woven.index a member
  have joined' := woven.index b member'
  obtain ⟨k,parts,living,living'⟩ := parts_of_linked joined joined' linked linked'
  refine ⟨_,_,fetch_branch_from_parts joined joined' found found' parts living living',
    ⟨branch_of_tops a _,branch_of_tops b _,fun x inside y inside' same => ?_,?_⟩⟩
  · obtain ⟨m,bound,at_m⟩ := mem_tops_take inside
    obtain ⟨n,bound',at_n⟩ := mem_tops_take inside'
    refine parts.disjoint joined joined' (by omega) (by omega) at_m at_n same ?_ ?_ ?_
    · rintro _ ⟨⟩ _ ⟨⟩
      rw [named,named']
      exact apart
    · rintro _ ⟨⟩
      rw [named]
      exact below
    · rintro _ ⟨⟩
      rw [named']
      exact below'
  · obtain ⟨x,y,last,last',agree⟩ := parts.agree
    obtain ⟨item,isLast,rfl⟩ := tops_last last
    obtain ⟨item',isLast',rfl⟩ := tops_last last'
    refine ⟨item,item',isLast,isLast',agree,?_,?_,fun id common common' => parts.nearest common common' last joined⟩
    · exact List.mem_map.mpr ⟨_,List.mem_of_getElem? last,rfl⟩
    · exact List.mem_map.mpr ⟨_,List.mem_of_getElem? last',agree.symm⟩

/-! ## A fork -/

/-- Pushes blocks one after the other; a rejected one changes nothing. -/
def pushed (digest : Header → Nat) : List (Block O) → Forks O
  | [] => .empty
  | b :: earlier =>
    match push_block digest b (pushed digest earlier) with
    | .ok (_,F) => F
    | .error _ => pushed digest earlier

theorem built_pushed (digest : Header → Nat) (blocks : List (Block O)) : Built digest (pushed digest blocks) := by
  induction blocks with
  | nil => exact .empty
  | cons b earlier ih =>
    unfold pushed
    split
    next ran => exact .push_block ih ran
    · exact ih

/-- An empty block, told apart by its timestamp. -/
def stamped (previous : BlockId) (timestamp : Nat) : Block Unit := ⟨⟨previous,timestamp,0,0,0⟩,[]⟩

/-- The digest that goes with it. -/
def stamp (h : Header) : Nat := h.timestamp

/-- A first block, two blocks on top of it and another one beside the lower of them. -/
def forked : Forks Unit :=
  pushed stamp [stamped ⟨1,10⟩ 25,stamped ⟨2,20⟩ 30,stamped ⟨1,10⟩ 20,stamped .zero 10]

theorem linked_of_alive {F : Forks O} {id : BlockId} {path : List (Entry O)} {m : Nat}
    (living : (path.take (m + 1)).all (alive F []) = true)
    (last : (path[m]?).map (fun e => e.data.previous) = some id) : LinkedDownTo F id path := by
  obtain ⟨e,there,parent⟩ := Option.map_eq_some_iff.mp last
  refine ⟨m,e,there,parent,fun i x _ inside at_i => List.all_eq_true.mp living x ?_⟩
  refine List.mem_iff_getElem?.mpr ⟨i,?_⟩
  rw [List.getElem?_take_of_lt (by omega),at_i]

theorem fetch_branch_from_parting_fork : ∃ a b one two,
    find stamp forked ⟨3,30⟩ = some a ∧ find stamp forked ⟨2,25⟩ = some b ∧
      fetch_branch_from stamp ⟨3,30⟩ ⟨2,25⟩ forked = .ok (one,two) ∧ Parted stamp a b one two := by
  have found : (find stamp forked ⟨3,30⟩).isSome = true := by decide +kernel
  have found' : (find stamp forked ⟨2,25⟩).isSome = true := by decide +kernel
  obtain ⟨a,isA⟩ := Option.isSome_iff_exists.mp found
  obtain ⟨b,isB⟩ := Option.isSome_iff_exists.mp found'
  have facts : (find stamp forked ⟨3,30⟩).map (fun item => (ancestors item.path,(item.path.take 2).all (alive forked []),
      (item.path[1]?).map fun e => e.data.previous)) = some ([⟨2,20⟩,⟨1,10⟩,⟨0,0⟩],true,some ⟨1,10⟩) := by decide +kernel
  have facts' : (find stamp forked ⟨2,25⟩).map (fun item => (ancestors item.path,(item.path.take 1).all (alive forked []),
      (item.path[0]?).map fun e => e.data.previous)) = some ([⟨1,10⟩,⟨0,0⟩],true,some ⟨1,10⟩) := by decide +kernel
  rw [isA] at facts
  rw [isB] at facts'
  simp only [Option.map_some,Option.some.injEq,Prod.mk.injEq] at facts facts'
  obtain ⟨above,living,parent⟩ := facts
  obtain ⟨above',living',parent'⟩ := facts'
  obtain ⟨one,two,ran,parted⟩ := fetch_branch_from_parting (built_pushed stamp _) isA isB (by decide)
    (by rw [above']; decide) (by rw [above]; decide) (linked_of_alive living parent) (linked_of_alive living' parent')
  exact ⟨a,b,one,two,isA,isB,ran,parted⟩

end Decent.ForkDatabase

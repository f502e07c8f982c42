import Mathlib.Data.List.Basic
import Mathlib.Data.List.Nodup
import Mathlib.Algebra.BigOperators.Group.List.Basic
import Mathlib.Algebra.Order.BigOperators.Group.List
import Mathlib.Tactic.Ring

/-!
Rows under distinct keys, in the order they were entered, and sums over the rows:
writing one row changes a sum by the new row less the row it replaces.
-/
variable {κ ν : Type} [DecidableEq κ]

structure Table (κ ν : Type) where
  rows : List (κ × ν)
  distinct : (rows.map Prod.fst).Nodup

namespace Table

/-- Replace the row of `k`, or enter it at the end. -/
def putRow (k : κ) (v : ν) : List (κ × ν) → List (κ × ν)
  | [] => [(k,v)]
  | row :: rest => if row.1 = k then (k,v) :: rest else row :: putRow k v rest

def findRow (k : κ) : List (κ × ν) → Option ν
  | [] => none
  | row :: rest => if row.1 = k then some row.2 else findRow k rest

theorem mem_keys_putRow (k j : κ) (v : ν) (rows : List (κ × ν)) :
    j ∈ (putRow k v rows).map Prod.fst ↔ j = k ∨ j ∈ rows.map Prod.fst := by
  induction rows with
  | nil => simp [putRow]
  | cons row rest ih =>
    by_cases same : row.1 = k
    · simp [putRow,same]
    · simp only [putRow,same,if_false,List.map_cons,List.mem_cons,ih]
      tauto

theorem nodup_putRow (k : κ) (v : ν) (rows : List (κ × ν)) (distinct : (rows.map Prod.fst).Nodup) :
    ((putRow k v rows).map Prod.fst).Nodup := by
  induction rows with
  | nil => simp [putRow]
  | cons row rest ih =>
    rw [List.map_cons,List.nodup_cons] at distinct
    by_cases same : row.1 = k
    · rw [putRow,if_pos same,List.map_cons,List.nodup_cons]
      exact ⟨same ▸ distinct.1,distinct.2⟩
    · simp only [putRow,same,if_false,List.map_cons,List.nodup_cons]
      refine ⟨?_,ih distinct.2⟩
      rw [mem_keys_putRow]
      rintro (here | inside)
      · exact same here
      · exact distinct.1 inside

def empty : Table κ ν := ⟨[],List.nodup_nil⟩

def find? (t : Table κ ν) (k : κ) : Option ν := findRow k t.rows

def put (t : Table κ ν) (k : κ) (v : ν) : Table κ ν := ⟨putRow k v t.rows,nodup_putRow k v t.rows t.distinct⟩

def erase (t : Table κ ν) (k : κ) : Table κ ν :=
  ⟨t.rows.filter (fun row => row.1 ≠ k),t.distinct.sublist ((List.filter_sublist).map _)⟩

/-- Change every row. -/
def mapValues (f : ν → ν) (t : Table κ ν) : Table κ ν :=
  ⟨t.rows.map (fun row => (row.1,f row.2)),by simpa [List.map_map,Function.comp_def] using t.distinct⟩

/-- Add up `f` over the rows. -/
def total (f : κ → ν → Int) (t : Table κ ν) : Int := (t.rows.map (fun row => f row.1 row.2)).sum

/-- What the row of `k` contributes, nothing when there is none. -/
def share (f : κ → ν → Int) (t : Table κ ν) (k : κ) : Int := (t.find? k).elim 0 (f k)

@[simp] theorem find?_empty (k : κ) : (empty : Table κ ν).find? k = none := rfl

theorem find?_put (t : Table κ ν) (k j : κ) (v : ν) : (t.put k v).find? j = if j = k then some v else t.find? j := by
  show findRow j (putRow k v t.rows) = if j = k then some v else findRow j t.rows
  induction t.rows with
  | nil => simp [putRow,findRow,eq_comm]
  | cons row rest ih =>
    by_cases same : row.1 = k
    · by_cases here : j = k
      · simp [putRow,findRow,same,here]
      · simp [putRow,findRow,same,here,Ne.symm here]
    · by_cases here : row.1 = j
      · have other : ¬ j = k := fun equal => same (here.trans equal)
        simp [putRow,findRow,here,other]
      · simpa [putRow,findRow,same,here] using ih

@[simp] theorem find?_put_same (t : Table κ ν) (k : κ) (v : ν) : (t.put k v).find? k = some v := by
  simp [find?_put]

theorem find?_put_other (t : Table κ ν) {k j : κ} (v : ν) (other : j ≠ k) : (t.put k v).find? j = t.find? j := by
  simp [find?_put,other]

theorem mem_of_findRow {k : κ} {v : ν} {rows : List (κ × ν)} (found : findRow k rows = some v) : (k,v) ∈ rows := by
  induction rows with
  | nil => cases found
  | cons row rest ih =>
    rw [findRow] at found
    split at found
    case isTrue same =>
      cases found
      exact same ▸ List.mem_cons_self
    case isFalse => exact List.mem_cons_of_mem _ (ih found)

theorem mem_of_find? {t : Table κ ν} {k : κ} {v : ν} (found : t.find? k = some v) : (k,v) ∈ t.rows :=
  mem_of_findRow found

theorem find?_of_mem {t : Table κ ν} {k : κ} {v : ν} (member : (k,v) ∈ t.rows) : t.find? k = some v := by
  obtain ⟨rows,distinct⟩ := t
  show findRow k rows = some v
  induction rows with
  | nil => cases member
  | cons row rest ih =>
    rw [List.map_cons,List.nodup_cons] at distinct
    rcases List.mem_cons.mp member with rfl | inside
    · simp [findRow]
    · have other : row.1 ≠ k := fun same => distinct.1 (same ▸ List.mem_map_of_mem inside)
      simpa [findRow,other] using ih distinct.2 inside

theorem mem_rows_iff {t : Table κ ν} {k : κ} {v : ν} : (k,v) ∈ t.rows ↔ t.find? k = some v :=
  ⟨find?_of_mem,mem_of_find?⟩

theorem isSome_find?_iff {t : Table κ ν} {k : κ} : (t.find? k).isSome ↔ k ∈ t.rows.map Prod.fst := by
  rw [Option.isSome_iff_exists,List.mem_map]
  constructor
  · rintro ⟨v,found⟩
    exact ⟨(k,v),mem_of_find? found,rfl⟩
  · rintro ⟨⟨_,v⟩,member,rfl⟩
    exact ⟨v,find?_of_mem member⟩

/-- Writing the row of `k` exchanges what it contributes for what `v` does. -/
theorem total_put (f : κ → ν → Int) (t : Table κ ν) (k : κ) (v : ν) :
    (t.put k v).total f = t.total f - t.share f k + f k v := by
  show ((putRow k v t.rows).map _).sum = (t.rows.map _).sum - (findRow k t.rows).elim 0 (f k) + f k v
  induction t.rows with
  | nil => simp [putRow,findRow]
  | cons row rest ih =>
    by_cases same : row.1 = k
    · simp only [putRow,same,if_true,findRow,List.map_cons,List.sum_cons,Option.elim]
      ring
    · simp only [putRow,same,if_false,findRow,List.map_cons,List.sum_cons,ih]
      ring

theorem total_put_new (f : κ → ν → Int) (t : Table κ ν) {k : κ} (v : ν) (missing : t.find? k = none) :
    (t.put k v).total f = t.total f + f k v := by
  simp [total_put,share,missing]

theorem total_put_old (f : κ → ν → Int) (t : Table κ ν) {k : κ} (v : ν) {w : ν} (found : t.find? k = some w) :
    (t.put k v).total f = t.total f - f k w + f k v := by
  simp [total_put,share,found]

omit [DecidableEq κ] in
/-- A sum of parts. -/
theorem total_add (f g : κ → ν → Int) (t : Table κ ν) :
    t.total (fun k v => f k v + g k v) = t.total f + t.total g := by
  simp only [total]
  induction t.rows with
  | nil => rfl
  | cons row rest ih =>
    simp only [List.map_cons,List.sum_cons,ih]
    ring

theorem find?_mapValues (f : ν → ν) (t : Table κ ν) (k : κ) : (t.mapValues f).find? k = (t.find? k).map f := by
  show findRow k (t.rows.map fun row => (row.1,f row.2)) = (findRow k t.rows).map f
  induction t.rows with
  | nil => rfl
  | cons row rest ih =>
    by_cases here : row.1 = k
    · simp [findRow,here]
    · simpa [findRow,here] using ih

/-- A row under a new key comes last. -/
theorem rows_put_new {t : Table κ ν} {k : κ} (v : ν) (missing : t.find? k = none) :
    (t.put k v).rows = t.rows ++ [(k,v)] := by
  have appended (rows : List (κ × ν)) (missing : findRow k rows = none) : putRow k v rows = rows ++ [(k,v)] := by
    induction rows with
    | nil => rfl
    | cons row rest ih =>
      rw [findRow] at missing
      split at missing
      case isTrue => cases missing
      case isFalse other => rw [putRow,if_neg other,ih missing,List.cons_append]
  exact appended t.rows missing

/-- Replacing a row by one that agrees with it under `g`. -/
theorem rows_put_same {β : Type} {g : ν → β} {t : Table κ ν} {k : κ} {v w : ν} (found : t.find? k = some w)
    (same : g v = g w) : (t.put k v).rows.map (fun row => (row.1,g row.2)) = t.rows.map fun row => (row.1,g row.2) := by
  have replaced (rows : List (κ × ν)) (found : findRow k rows = some w) :
      (putRow k v rows).map (fun row => (row.1,g row.2)) = rows.map fun row => (row.1,g row.2) := by
    induction rows with
    | nil => cases found
    | cons row rest ih =>
      by_cases here : row.1 = k
      · rw [findRow,if_pos here] at found
        cases found
        simp [putRow,here,same]
      · rw [findRow,if_neg here] at found
        simpa [putRow,here] using ih found
  exact replaced t.rows found

/-- Rows that agree under `g`, key by key, are found alike. -/
theorem map_find?_of_rows {β : Type} {g : ν → β} {t t' : Table κ ν}
    (rows : t'.rows.map (fun row => (row.1,g row.2)) = t.rows.map fun row => (row.1,g row.2)) (k : κ) :
    (t'.find? k).map g = (t.find? k).map g := by
  have found (l : List (κ × ν)) : (findRow k l).map g = findRow k (l.map fun row => (row.1,g row.2)) := by
    induction l with
    | nil => rfl
    | cons row rest ih =>
      by_cases here : row.1 = k
      · simp [findRow,here]
      · simp [findRow,here,ih]
  show (findRow k t'.rows).map g = (findRow k t.rows).map g
  rw [found,found,rows]

theorem find?_erase (t : Table κ ν) (k j : κ) : (t.erase k).find? j = if j = k then none else t.find? j := by
  refine Option.ext fun v => ?_
  rw [← mem_rows_iff]
  show (j,v) ∈ t.rows.filter _ ↔ _
  rw [List.mem_filter,mem_rows_iff]
  by_cases here : j = k <;> simp [here]

theorem total_congr {f g : κ → ν → Int} {t : Table κ ν} (same : ∀ k v, t.find? k = some v → f k v = g k v) :
    t.total f = t.total g := by
  simp only [total]
  congr 1
  refine List.map_congr_left ?_
  rintro ⟨k,v⟩ member
  exact same k v (find?_of_mem member)

/-- Sums that agree off one row differ by what they add there. -/
theorem total_at {f g : κ → ν → Int} {t : Table κ ν} {k : κ} {v : ν} (found : t.find? k = some v)
    (same : ∀ j w, j ≠ k → f j w = g j w) : t.total f = t.total g - g k v + f k v := by
  obtain ⟨before,after,split⟩ := List.append_of_mem (mem_of_find? found)
  have distinct := t.distinct
  rw [split,List.map_append,List.map_cons] at distinct
  obtain ⟨outside,-⟩ := List.nodup_cons.mp (List.nodup_middle.mp distinct)
  have rest (l : List (κ × ν)) (within : ∀ row ∈ l, row.1 ∈ before.map Prod.fst ++ after.map Prod.fst) :
      l.map (fun row => f row.1 row.2) = l.map fun row => g row.1 row.2 :=
    List.map_congr_left fun row member => same row.1 row.2 fun here => outside (here ▸ within row member)
  rw [total,total,split]
  simp only [List.map_append,List.map_cons,List.sum_append,List.sum_cons]
  rw [rest before fun row member => List.mem_append_left _ (List.mem_map_of_mem member),
    rest after fun row member => List.mem_append_right _ (List.mem_map_of_mem member)]
  ring

/-- A row adds no more than all do. -/
theorem le_total {f : κ → ν → Int} {t : Table κ ν} (nonneg : ∀ k v, 0 ≤ f k v) {k : κ} {v : ν}
    (found : t.find? k = some v) : f k v ≤ t.total f := by
  refine List.single_le_sum ?_ _ (List.mem_map_of_mem (f := fun row : κ × ν => f row.1 row.2) (mem_of_find? found))
  intro x member
  obtain ⟨row,-,rfl⟩ := List.mem_map.mp member
  exact nonneg row.1 row.2

omit [DecidableEq κ] in
/-- Tables whose rows agree under `g` have the same sums over what `g` sees. -/
theorem total_of_rows {β : Type} {g : ν → β} (f : κ → β → Int) {t t' : Table κ ν}
    (rows : t'.rows.map (fun row => (row.1,g row.2)) = t.rows.map fun row => (row.1,g row.2)) :
    t'.total (fun k v => f k (g v)) = t.total fun k v => f k (g v) := by
  have seen (l : List (κ × ν)) : l.map (fun row => f row.1 (g row.2)) =
      (l.map fun row => (row.1,g row.2)).map fun row => f row.1 row.2 := by
    rw [List.map_map]
    rfl
  rw [total,total,seen,seen,rows]

omit [DecidableEq κ] in
/-- A sum over some of the rows. -/
theorem total_filter (chosen : κ → ν → Bool) (f : κ → ν → Nat) (t : Table κ ν) :
    (((t.rows.filter fun row => chosen row.1 row.2).map fun row => f row.1 row.2).sum : Nat) =
      t.total fun k v => if chosen k v then (f k v : Int) else 0 := by
  rw [total]
  induction t.rows with
  | nil => rfl
  | cons row rest ih =>
    by_cases here : chosen row.1 row.2
    · simp [here,← ih]
    · simp [here,ih]

end Table

/-- Rows under numbers given out one after another; a number is never used twice. -/
structure Index (ν : Type) where
  table : Table Nat ν
  next : Nat
  below : ∀ k v, table.find? k = some v → k < next

namespace Index
variable {ν : Type}

def empty : Index ν := ⟨.empty,0,fun _ _ found => nomatch found⟩

def find? (i : Index ν) (k : Nat) : Option ν := i.table.find? k

def total (f : ν → Int) (i : Index ν) : Int := i.table.total (fun _ => f)

/-- Enter a row under the next number. -/
def create (i : Index ν) (v : ν) : Index ν where
  table := i.table.put i.next v
  next := i.next + 1
  below := by
    intro k w found
    rw [Table.find?_put] at found
    split at found
    case isTrue same => omega
    case isFalse => exact Nat.lt_succ_of_lt (i.below k w found)

/-- Pass over the numbers below `n`. -/
def reserve (i : Index ν) (n : Nat) : Index ν :=
  ⟨i.table,max i.next n,fun k v found => Nat.lt_of_lt_of_le (i.below k v found) (Nat.le_max_left _ _)⟩

/-- Change the row of `k`, if there is one. -/
def update (i : Index ν) (k : Nat) (f : ν → ν) : Index ν :=
  match found : i.table.find? k with
  | none => i
  | some v => {
      table := i.table.put k (f v)
      next := i.next
      below := by
        intro j w here
        rw [Table.find?_put] at here
        split at here
        case isTrue same => exact same ▸ i.below k v found
        case isFalse => exact i.below j w here }

def erase (i : Index ν) (k : Nat) : Index ν where
  table := i.table.erase k
  next := i.next
  below := by
    intro j v found
    rw [Table.find?_erase] at found
    split at found
    case isTrue => cases found
    case isFalse => exact i.below j v found

theorem find?_next (i : Index ν) : i.find? i.next = none := by
  cases found : i.find? i.next with
  | none => rfl
  | some v => exact absurd (i.below _ v found) (Nat.lt_irrefl _)

theorem find?_create (i : Index ν) (v : ν) (k : Nat) :
    (i.create v).find? k = if k = i.next then some v else i.find? k := Table.find?_put ..

theorem find?_erase (i : Index ν) (k j : Nat) : (i.erase k).find? j = if j = k then none else i.find? j :=
  Table.find?_erase ..

@[simp] theorem next_create (i : Index ν) (v : ν) : (i.create v).next = i.next + 1 := rfl

theorem total_create (f : ν → Int) (i : Index ν) (v : ν) : (i.create v).total f = i.total f + f v :=
  Table.total_put_new _ _ _ (find?_next i)

theorem update_of_find {i : Index ν} {k : Nat} {v : ν} (f : ν → ν) (found : i.find? k = some v) :
    (i.update k f).table = i.table.put k (f v) := by
  unfold update
  split
  case h_1 missing => exact absurd (found.symm.trans missing) (by simp)
  case h_2 w here =>
    cases found.symm.trans here
    rfl

theorem find?_update (i : Index ν) (k j : Nat) (f : ν → ν) :
    (i.update k f).find? j = if j = k then (i.find? k).map f else i.find? j := by
  cases found : i.find? k with
  | none =>
    have same : i.update k f = i := by
      unfold update
      split
      · rfl
      case h_2 v here => exact absurd (found.symm.trans here) (by simp)
    rw [same]
    split
    case isTrue here => rw [here,found]; rfl
    case isFalse => rfl
  | some v =>
    show (i.update k f).table.find? j = _
    rw [update_of_find f found,Table.find?_put]
    rfl

/-- What the change of a row leaves as it was. -/
theorem map_find?_update {β : Type} (i : Index ν) (k j : Nat) {f : ν → ν} {g : ν → β} (same : ∀ v, g (f v) = g v) :
    ((i.update k f).find? j).map g = (i.find? j).map g := by
  rw [find?_update]
  split
  case isTrue here =>
    rw [here]
    cases i.find? k with
    | none => rfl
    | some v => exact congrArg some (same v)
  case isFalse => rfl

/-- A change of a row that `g` does not see leaves the rows as `g` sees them. -/
theorem rows_update_same {β : Type} (i : Index ν) (k : Nat) {f : ν → ν} {g : ν → β} (same : ∀ v, g (f v) = g v) :
    (i.update k f).table.rows.map (fun row => (row.1,g row.2)) = i.table.rows.map fun row => (row.1,g row.2) := by
  cases found : i.find? k with
  | none =>
    unfold update
    split
    · rfl
    case h_2 v here => exact absurd (found.symm.trans here) (by simp)
  | some v =>
    rw [update_of_find f found]
    exact Table.rows_put_same found (same v)

/-- Change every row. -/
def mapValues (f : ν → ν) (i : Index ν) : Index ν where
  table := i.table.mapValues f
  next := i.next
  below := by
    intro k v found
    rw [Table.find?_mapValues] at found
    obtain ⟨w,here,-⟩ := Option.map_eq_some_iff.mp found
    exact i.below k w here

theorem find?_mapValues (f : ν → ν) (i : Index ν) (k : Nat) : (i.mapValues f).find? k = (i.find? k).map f :=
  Table.find?_mapValues f i.table k

@[simp] theorem next_update (i : Index ν) (k : Nat) (f : ν → ν) : (i.update k f).next = i.next := by
  unfold update
  split <;> rfl

theorem total_update (f : ν → Int) {i : Index ν} {k : Nat} {v : ν} (g : ν → ν) (found : i.find? k = some v) :
    (i.update k g).total f = i.total f - f v + f (g v) := by
  show (i.update k g).table.total _ = _
  rw [update_of_find g found]
  exact Table.total_put_old _ _ _ found

end Index

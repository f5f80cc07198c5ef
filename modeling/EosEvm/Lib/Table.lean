import Mathlib.Order.Defs.LinearOrder
import Mathlib.Algebra.Order.Ring.Nat
import Mathlib.Data.Fintype.Card
import Mathlib.Algebra.Order.BigOperators.Group.List
import EosEvm.Lib.Abort

/-! Tables of rows ordered by a primary key. The rows of a table are strictly
increasing in their key by construction, so a key occurs at most once and the
first and last row are those with the smallest and largest key. -/

structure Table (κ ν : Type) [LinearOrder κ] where
  rows : List (κ × ν)
  sorted : rows.Pairwise (fun first second => first.1 < second.1)

namespace Table

open Abort

variable {κ ν : Type} [LinearOrder κ]

def lookup (key : κ) : List (κ × ν) → Option ν
  | [] => none
  | (first, value) :: rest => if first = key then some value else lookup key rest

def putRow (key : κ) (value : ν) : List (κ × ν) → List (κ × ν)
  | [] => [(key, value)]
  | (first, old) :: rest =>
      if key < first then (key, value) :: (first, old) :: rest
      else if key = first then (key, value) :: rest
      else (first, old) :: putRow key value rest

theorem mem_putRow (key : κ) (value : ν) (rows : List (κ × ν)) (row : κ × ν)
    (member : row ∈ putRow key value rows) : row = (key, value) ∨ row ∈ rows := by
  induction rows with
  | nil => simpa [putRow] using member
  | cons head rest ih =>
      simp only [putRow] at member
      split at member
      · exact List.mem_cons.mp member
      · split at member
        · rcases List.mem_cons.mp member with same | later
          · exact Or.inl same
          · exact Or.inr (List.mem_cons_of_mem _ later)
        · rcases List.mem_cons.mp member with same | later
          · exact Or.inr (by simp [same])
          · rcases ih later with new | old
            · exact Or.inl new
            · exact Or.inr (List.mem_cons_of_mem _ old)

theorem putRow_sorted (key : κ) (value : ν) (rows : List (κ × ν))
    (sorted : rows.Pairwise (fun first second => first.1 < second.1)) :
    (putRow key value rows).Pairwise (fun first second => first.1 < second.1) := by
  induction rows with
  | nil => simp [putRow]
  | cons head rest ih =>
      obtain ⟨below, tail⟩ := List.pairwise_cons.mp sorted
      simp only [putRow]
      split
      · rename_i smaller
        refine List.pairwise_cons.mpr ⟨?_, sorted⟩
        intro row member
        rcases List.mem_cons.mp member with same | later
        · simpa [same] using smaller
        · exact lt_trans smaller (below row later)
      · rename_i notSmaller
        split
        · rename_i same
          refine List.pairwise_cons.mpr ⟨?_, tail⟩
          intro row member
          simpa [same] using below row member
        · rename_i different
          refine List.pairwise_cons.mpr ⟨?_, ih tail⟩
          intro row member
          rcases mem_putRow key value rest row member with new | old
          · subst new
            exact lt_of_le_of_ne (not_lt.mp notSmaller) (Ne.symm different)
          · exact below row old

def empty : Table κ ν := ⟨[], List.Pairwise.nil⟩

def get? (table : Table κ ν) (key : κ) : Option ν := lookup key table.rows

def put (table : Table κ ν) (key : κ) (value : ν) : Table κ ν :=
  ⟨putRow key value table.rows, putRow_sorted key value table.rows table.sorted⟩

def emplace (table : Table κ ν) (key : κ) (value : ν) : Outcome (Table κ ν) := do
  check (table.get? key = none) "could not insert object, most likely a uniqueness constraint was violated"
  return table.put key value

def modify (table : Table κ ν) (key : κ) (change : ν → ν) : Table κ ν :=
  ⟨table.rows.map fun row => if row.1 = key then (row.1, change row.2) else row, by
    refine (List.pairwise_map).mpr (table.sorted.imp ?_)
    intro first second less
    split <;> split <;> exact less⟩

def erase (table : Table κ ν) (key : κ) : Table κ ν :=
  ⟨table.rows.filter fun row => row.1 ≠ key, table.sorted.filter _⟩

def first? (table : Table κ ν) : Option (κ × ν) := table.rows.head?

def last? (table : Table κ ν) : Option (κ × ν) := table.rows.getLast?

def find? (table : Table κ ν) (selects : ν → Bool) : Option (κ × ν) :=
  table.rows.find? fun row => selects row.2

def availablePrimaryKey (table : Table Nat ν) : Nat :=
  match table.last? with
  | some row => row.1 + 1
  | none => 0

def total (measure : ν → Nat) (table : Table κ ν) : Nat :=
  (table.rows.map fun row => measure row.2).sum

def count (selects : ν → Bool) (table : Table κ ν) : Nat :=
  table.total fun value => if selects value then 1 else 0

@[ext] theorem ext {left right : Table κ ν} (same : left.rows = right.rows) : left = right := by
  cases left; cases right; simp_all

theorem lookup_eq_some (rows : List (κ × ν))
    (sorted : rows.Pairwise (fun first second => first.1 < second.1)) (key : κ) (value : ν) :
    lookup key rows = some value ↔ (key, value) ∈ rows := by
  induction rows with
  | nil => simp [lookup]
  | cons head rest ih =>
      obtain ⟨below, tail⟩ := List.pairwise_cons.mp sorted
      simp only [lookup, List.mem_cons]
      split
      · rename_i same
        constructor
        · intro found
          left
          rw [Option.some.injEq] at found
          rw [← same, ← found]
        · rintro (isHead | later)
          · rw [← isHead]
          · exact absurd (same ▸ below _ later) (lt_irrefl _)
      · rename_i different
        rw [ih tail]
        constructor
        · exact Or.inr
        · rintro (isHead | later)
          · exact absurd (by rw [← isHead]) different
          · exact later

theorem get?_eq_some (table : Table κ ν) (key : κ) (value : ν) :
    table.get? key = some value ↔ (key, value) ∈ table.rows :=
  lookup_eq_some table.rows table.sorted key value

theorem get?_eq_none (table : Table κ ν) (key : κ) :
    table.get? key = none ↔ ∀ value, (key, value) ∉ table.rows := by
  constructor
  · intro absent value member
    rw [(get?_eq_some table key value).mpr member] at absent
    exact absurd absent (by simp)
  · intro absent
    cases found : table.get? key with
    | none => rfl
    | some value => exact absurd ((get?_eq_some table key value).mp found) (absent value)

@[simp] theorem get?_empty (key : κ) : (empty : Table κ ν).get? key = none := rfl

@[simp] theorem total_empty (measure : ν → Nat) : (empty : Table κ ν).total measure = 0 := rfl

theorem lookup_putRow (key other : κ) (value : ν) (rows : List (κ × ν)) :
    lookup other (putRow key value rows) = if key = other then some value else lookup other rows := by
  induction rows with
  | nil => simp [putRow, lookup]
  | cons head rest ih =>
      simp only [putRow]
      split
      · simp [lookup]
      · split
        · rename_i same
          simp only [lookup, ← same]
          split <;> rfl
        · rename_i different
          simp only [lookup, ih]
          by_cases isHead : head.1 = other
          · have apart : key ≠ other := by rw [← isHead]; exact different
            simp [isHead, apart]
          · simp [isHead]

@[simp] theorem get?_put (table : Table κ ν) (key other : κ) (value : ν) :
    (table.put key value).get? other = if key = other then some value else table.get? other :=
  lookup_putRow key other value table.rows

theorem emplace_ok (table after : Table κ ν) (key : κ) (value : ν) :
    table.emplace key value = .ok after ↔ table.get? key = none ∧ after = table.put key value := by
  simp only [emplace, bind_ok, check_ok, pure_ok]
  constructor
  · rintro ⟨_, absent, same⟩
    exact ⟨absent, same.symm⟩
  · rintro ⟨absent, same⟩
    exact ⟨(), absent, same.symm⟩

theorem lookup_map (key other : κ) (change : ν → ν) (rows : List (κ × ν)) :
    lookup other (rows.map fun row => if row.1 = key then (row.1, change row.2) else row) =
      if key = other then (lookup other rows).map change else lookup other rows := by
  induction rows with
  | nil => simp [lookup]
  | cons head rest ih =>
      simp only [List.map_cons, lookup]
      by_cases isKey : head.1 = key
      · by_cases isOther : head.1 = other
        · have same : key = other := isKey.symm.trans isOther
          simp [isKey, same]
        · have apart : key ≠ other := by rw [← isKey]; exact isOther
          simp only [isKey, ↓reduceIte, apart, ih]
      · by_cases isOther : head.1 = other
        · have apart : key ≠ other := by rw [← isOther]; exact Ne.symm isKey
          have notKey : other ≠ key := Ne.symm apart
          simp [isOther, apart, notKey]
        · simp [isKey, isOther, ih]

@[simp] theorem get?_modify (table : Table κ ν) (key other : κ) (change : ν → ν) :
    (table.modify key change).get? other =
      if key = other then (table.get? other).map change else table.get? other :=
  lookup_map key other change table.rows

theorem lookup_values {μ : Type} (key : κ) (change : ν → μ) (rows : List (κ × ν)) :
    lookup key (rows.map fun row => (row.1, change row.2)) = (lookup key rows).map change := by
  induction rows with
  | nil => rfl
  | cons head rest ih =>
      simp only [List.map_cons, lookup]
      split
      · rfl
      · exact ih

theorem lookup_filter (key other : κ) (rows : List (κ × ν)) :
    lookup other (rows.filter fun row => row.1 ≠ key) =
      if key = other then none else lookup other rows := by
  induction rows with
  | nil => simp [lookup]
  | cons head rest ih =>
      by_cases isKey : head.1 = key
      · rw [List.filter_cons_of_neg (by simpa using isKey), ih]
        by_cases same : key = other
        · simp [same]
        · have apart : head.1 ≠ other := by rw [isKey]; exact same
          simp [lookup, same, apart]
      · rw [List.filter_cons_of_pos (by simpa using isKey)]
        simp only [lookup, ih]
        by_cases isOther : head.1 = other
        · have apart : key ≠ other := by rw [← isOther]; exact Ne.symm isKey
          simp [isOther, apart]
        · simp [isOther]

@[simp] theorem get?_erase (table : Table κ ν) (key other : κ) :
    (table.erase key).get? other = if key = other then none else table.get? other :=
  lookup_filter key other table.rows

theorem sum_putRow (measure : ν → Nat) (key : κ) (value : ν) (rows : List (κ × ν))
    (absent : lookup key rows = none) :
    ((putRow key value rows).map fun row => measure row.2).sum =
      (rows.map fun row => measure row.2).sum + measure value := by
  induction rows with
  | nil => simp [putRow]
  | cons head rest ih =>
      simp only [lookup] at absent
      split at absent
      · simp at absent
      · rename_i different
        simp only [putRow]
        split
        · simp only [List.map_cons, List.sum_cons]
          omega
        · simp only [Ne.symm different, ↓reduceIte, List.map_cons, List.sum_cons, ih absent]
          omega

theorem total_put (measure : ν → Nat) (table : Table κ ν) (key : κ) (value : ν)
    (absent : table.get? key = none) :
    (table.put key value).total measure = table.total measure + measure value :=
  sum_putRow measure key value table.rows absent

theorem sum_map_absent (measure : ν → Nat) (key : κ) (change : ν → ν) (rows : List (κ × ν))
    (absent : ∀ row ∈ rows, row.1 ≠ key) :
    ((rows.map fun row => if row.1 = key then (row.1, change row.2) else row).map
      fun row => measure row.2).sum = (rows.map fun row => measure row.2).sum := by
  congr 1
  rw [List.map_map]
  apply List.map_congr_left
  intro row member
  simp [absent row member]

theorem sum_map_present (measure : ν → Nat) (key : κ) (change : ν → ν) (value : ν)
    (rows : List (κ × ν)) (sorted : rows.Pairwise (fun first second => first.1 < second.1))
    (present : lookup key rows = some value) :
    ((rows.map fun row => if row.1 = key then (row.1, change row.2) else row).map
      fun row => measure row.2).sum + measure value =
      (rows.map fun row => measure row.2).sum + measure (change value) := by
  induction rows with
  | nil => simp [lookup] at present
  | cons head rest ih =>
      obtain ⟨below, tail⟩ := List.pairwise_cons.mp sorted
      simp only [lookup] at present
      split at present
      · rename_i same
        simp only [Option.some.injEq] at present
        have elsewhere : ∀ row ∈ rest, row.1 ≠ key := by
          intro row member equal
          exact absurd (below row member) (by rw [equal, same]; exact lt_irrefl _)
        simp only [List.map_cons, same, ↓reduceIte, List.sum_cons, present]
        rw [sum_map_absent measure key change rest elsewhere]
        omega
      · rename_i different
        have step := ih tail present
        simp only [List.map_cons, different, ↓reduceIte, List.sum_cons]
        omega

theorem total_modify (measure : ν → Nat) (table : Table κ ν) (key : κ) (change : ν → ν) (value : ν)
    (present : table.get? key = some value) :
    (table.modify key change).total measure + measure value =
      table.total measure + measure (change value) :=
  sum_map_present measure key change value table.rows table.sorted present

theorem ext_get? {left right : Table κ ν} (same : ∀ key, left.get? key = right.get? key) : left = right := by
  have nodup (table : Table κ ν) : table.rows.Nodup :=
    table.sorted.imp fun less equal => absurd (equal ▸ less) (lt_irrefl _)
  have perm : left.rows.Perm right.rows := by
    rw [List.perm_ext_iff_of_nodup (nodup left) (nodup right)]
    rintro ⟨key, value⟩
    rw [← get?_eq_some, ← get?_eq_some, same]
  apply ext
  exact perm.eq_of_pairwise (fun _ _ _ _ first second => absurd first (lt_asymm second)) left.sorted right.sorted

theorem put_put (table : Table κ ν) (key : κ) (value later : ν) : (table.put key value).put key later = table.put key later := by
  apply ext_get?
  intro other
  simp only [get?_put]
  split <;> rfl

theorem put_comm (table : Table κ ν) {key other : κ} (apart : key ≠ other) (value second : ν) :
    (table.put key value).put other second = (table.put other second).put key value := by
  apply ext_get?
  intro place
  simp only [get?_put]
  split
  · rename_i here
    rw [if_neg (here ▸ apart)]
  · rfl

theorem put_of_get? {table : Table κ ν} {key : κ} {value : ν} (found : table.get? key = some value) :
    table.put key value = table := by
  apply ext_get?
  intro other
  rw [get?_put]
  split
  · rename_i here
    rw [← here, found]
  · rfl

theorem modify_put (table : Table κ ν) (key : κ) (value : ν) (change : ν → ν) :
    (table.put key value).modify key change = table.put key (change value) := by
  apply ext_get?
  intro other
  simp only [get?_modify, get?_put]
  split <;> rfl

theorem isSome_put (table : Table κ ν) (key other : κ) (value : ν) (present : (table.get? other).isSome = true) :
    ((table.put key value).get? other).isSome = true := by
  rw [get?_put]
  split
  · rfl
  · exact present

theorem isSome_put_present {table : Table κ ν} {key : κ} {row : ν} (value : ν) (found : table.get? key = some row)
    (other : κ) : ((table.put key value).get? other).isSome = (table.get? other).isSome := by
  rw [get?_put]
  split
  · rename_i same
    simp [← same, found]
  · rfl

theorem take_filter_le (table : Table κ ν) {key : κ} {value : ν} (found : table.get? key = some value) :
    (table.rows.filter fun row => decide (key ≤ row.1)).take 1 = [(key, value)] := by
  have member := (get?_eq_some table key value).mp found
  have sorted := table.sorted
  generalize table.rows = rows at member sorted
  induction rows with
  | nil => cases member
  | cons head tail ih =>
      obtain ⟨below, sorted⟩ := List.pairwise_cons.mp sorted
      rcases List.mem_cons.mp member with rfl | inside
      · simp
      · rw [List.filter_cons_of_neg (by simpa using below _ inside)]
        exact ih inside sorted

theorem isSome_modify (table : Table κ ν) (key other : κ) (change : ν → ν) :
    ((table.modify key change).get? other).isSome = (table.get? other).isSome := by
  rw [get?_modify]
  split <;> simp

theorem foldl_modify_isSome (change : ν → ν) (rows : List (κ × ν)) (table : Table κ ν) (other : κ) :
    ((rows.foldl (fun table row => table.modify row.1 change) table).get? other).isSome =
      (table.get? other).isSome := by
  induction rows generalizing table with
  | nil => rfl
  | cons row rows ih => rw [List.foldl_cons, ih, isSome_modify]

/-- What a change keeps true of a value, a series of changes keeps true of a table. -/
theorem foldl_modify_forall {holds : ν → Prop} {change : ν → ν} (keeps : ∀ value, holds value → holds (change value))
    (rows : List (κ × ν)) (table : Table κ ν) (start : ∀ key value, table.get? key = some value → holds value) :
    ∀ key value, (rows.foldl (fun table row => table.modify row.1 change) table).get? key = some value →
      holds value := by
  induction rows generalizing table with
  | nil => exact start
  | cons row rows ih =>
      refine ih _ ?_
      intro key value found
      rw [get?_modify] at found
      split at found
      · obtain ⟨stored, present, rfl⟩ := Option.map_eq_some_iff.mp found
        exact keeps stored (start key stored present)
      · exact start key value found

theorem total_put_present (measure : ν → Nat) (table : Table κ ν) (key : κ) (value old : ν)
    (present : table.get? key = some old) :
    (table.put key value).total measure + measure old = table.total measure + measure value := by
  have same : table.put key value = table.modify key fun _ => value := by
    apply ext_get?
    intro other
    simp only [get?_put, get?_modify]
    split
    · rename_i equal
      simp [← equal, present]
    · rfl
  rw [same]
  exact total_modify measure table key _ old present

theorem sum_filter_present (measure : ν → Nat) (key : κ) (value : ν) (rows : List (κ × ν))
    (sorted : rows.Pairwise (fun first second => first.1 < second.1))
    (present : lookup key rows = some value) :
    ((rows.filter fun row => row.1 ≠ key).map fun row => measure row.2).sum + measure value =
      (rows.map fun row => measure row.2).sum := by
  induction rows with
  | nil => simp [lookup] at present
  | cons head rest ih =>
      obtain ⟨below, tail⟩ := List.pairwise_cons.mp sorted
      simp only [lookup] at present
      split at present
      · rename_i same
        simp only [Option.some.injEq] at present
        have kept : rest.filter (fun row => decide (row.1 ≠ key)) = rest := by
          apply List.filter_eq_self.mpr
          intro row member
          have apart : row.1 ≠ key := by
            intro equal
            exact absurd (below row member) (by rw [equal, same]; exact lt_irrefl _)
          simpa using apart
        rw [List.filter_cons_of_neg (by simpa using same), kept]
        simp only [List.map_cons, List.sum_cons, present]
        omega
      · rename_i different
        rw [List.filter_cons_of_pos (by simpa using different)]
        have step := ih tail present
        simp only [List.map_cons, List.sum_cons]
        omega

theorem total_erase (measure : ν → Nat) (table : Table κ ν) (key : κ) (value : ν)
    (present : table.get? key = some value) :
    (table.erase key).total measure + measure value = table.total measure :=
  sum_filter_present measure key value table.rows table.sorted present

theorem le_total (measure : ν → Nat) (table : Table κ ν) (key : κ) (value : ν)
    (present : table.get? key = some value) : measure value ≤ table.total measure := by
  have whole := total_erase measure table key value present
  omega

theorem find?_some (table : Table κ ν) (selects : ν → Bool) (key : κ) (value : ν)
    (found : table.find? selects = some (key, value)) :
    table.get? key = some value ∧ selects value = true := by
  refine ⟨(get?_eq_some table key value).mpr (List.mem_of_find?_eq_some found), ?_⟩
  simpa using List.find?_some found

theorem find?_none (table : Table κ ν) (selects : ν → Bool) :
    table.find? selects = none ↔ ∀ key value, table.get? key = some value → selects value = false := by
  unfold find?
  rw [List.find?_eq_none]
  constructor
  · intro absent key value present
    simpa using absent (key, value) ((get?_eq_some table key value).mp present)
  · intro absent row member
    simpa using absent row.1 row.2 ((get?_eq_some table row.1 row.2).mpr member)

theorem total_le_card [Fintype κ] (measure : ν → Nat) (bound : Nat) (table : Table κ ν)
    (bounded : ∀ key value, table.get? key = some value → measure value ≤ bound) :
    table.total measure ≤ Fintype.card κ * bound := by
  have distinct : (table.rows.map Prod.fst).Nodup := by
    rw [List.nodup_iff_pairwise_ne, List.pairwise_map]
    exact table.sorted.imp fun less => ne_of_lt less
  have few : table.rows.length ≤ Fintype.card κ := by
    simpa using distinct.length_le_card
  have each : ∀ amount ∈ table.rows.map fun row => measure row.2, amount ≤ bound := by
    intro amount member
    obtain ⟨row, inside, same⟩ := List.mem_map.mp member
    rw [← same]
    exact bounded row.1 row.2 ((get?_eq_some table row.1 row.2).mpr inside)
  calc table.total measure
      ≤ (table.rows.map fun row => measure row.2).length * bound := by
        simpa [total] using List.sum_le_card_nsmul _ bound each
    _ ≤ Fintype.card κ * bound := by
        rw [List.length_map]
        exact Nat.mul_le_mul_right bound few

theorem le_last (table : Table κ ν) {key : κ} {value : ν} (last : table.last? = some (key, value)) :
    ∀ row ∈ table.rows, row.1 ≤ key := by
  have sorted := table.sorted
  unfold last? at last
  generalize table.rows = rows at last sorted
  induction rows with
  | nil => cases last
  | cons head rest ih =>
      obtain ⟨below, tail⟩ := List.pairwise_cons.mp sorted
      cases rest with
      | nil =>
          obtain rfl := Option.some.inj last
          intro row member
          rw [List.mem_singleton.mp member]
      | cons next rest =>
          have later := ih (by simpa using last) tail
          intro row member
          rcases List.mem_cons.mp member with rfl | inside
          · exact le_trans (le_of_lt (below next (List.mem_cons_self ..))) (later next (List.mem_cons_self ..))
          · exact later row inside

theorem last?_eq_none (table : Table κ ν) (empty : table.last? = none) : table.rows = [] :=
  List.getLast?_eq_none_iff.mp empty

theorem rows_erase_head (table : Table κ ν) (head : κ × ν) (rest : List (κ × ν)) (rows : table.rows = head :: rest) :
    (table.erase head.1).rows = rest := by
  have sorted := table.sorted
  rw [rows] at sorted
  have below := (List.pairwise_cons.mp sorted).1
  change table.rows.filter (fun row => decide (row.1 ≠ head.1)) = rest
  rw [rows]
  simp only [ne_eq, decide_not, List.filter_cons, decide_true, Bool.not_true, Bool.false_eq_true, if_false]
  rw [List.filter_eq_self]
  intro row member
  simpa using ne_of_gt (below row member)

theorem first?_get? (table : Table κ ν) {key : κ} {value : ν} (first : table.first? = some (key, value)) :
    table.get? key = some value :=
  (get?_eq_some table key value).mpr (List.mem_of_head? first)

theorem get?_availablePrimaryKey (table : Table Nat ν) : table.get? table.availablePrimaryKey = none := by
  rw [get?_eq_none]
  intro value member
  unfold availablePrimaryKey at member
  cases last : table.last? with
  | none =>
      rw [last?_eq_none table last] at member
      cases member
  | some row =>
      rw [last] at member
      have below := le_last table last _ member
      simp at below

end Table

import EosEvm.Lib.Table

/-! A secondary index on a table whose index keys are unique: how a lookup through the
index changes when a row is added, changed without touching its index key, or erased. -/

namespace Table

variable {κ ν ι : Type} [LinearOrder κ]

def Unique (index : ν → ι) (table : Table κ ν) : Prop :=
  ∀ left first right second, table.get? left = some first → table.get? right = some second →
    index first = index second → left = right

variable {index : ν → ι} {table : Table κ ν}

theorem unique_empty : (empty : Table κ ν).Unique index := by
  intro left first right second found
  simp at found

theorem unique_modify (unique : table.Unique index) (key : κ) {change : ν → ν}
    (keeps : ∀ value, index (change value) = index value) : (table.modify key change).Unique index := by
  have stored : ∀ other value, (table.modify key change).get? other = some value →
      ∃ old, table.get? other = some old ∧ index value = index old := by
    intro other value present
    simp only [get?_modify] at present
    split at present
    · obtain ⟨old, before, rfl⟩ := Option.map_eq_some_iff.mp present
      exact ⟨old, before, keeps old⟩
    · exact ⟨value, present, rfl⟩
  intro left first right second presentLeft presentRight same
  obtain ⟨oldLeft, beforeLeft, indexLeft⟩ := stored _ _ presentLeft
  obtain ⟨oldRight, beforeRight, indexRight⟩ := stored _ _ presentRight
  exact unique _ _ _ _ beforeLeft beforeRight (by rw [← indexLeft, ← indexRight, same])

theorem unique_erase (unique : table.Unique index) (key : κ) : (table.erase key).Unique index := by
  intro left first right second presentLeft presentRight same
  simp only [get?_erase] at presentLeft presentRight
  split at presentLeft
  · cases presentLeft
  · split at presentRight
    · cases presentRight
    · exact unique _ _ _ _ presentLeft presentRight same

variable [DecidableEq ι]

def findBy (index : ν → ι) (table : Table κ ν) (wanted : ι) : Option (κ × ν) :=
  table.find? fun value => index value == wanted

theorem findBy_eq_none (wanted : ι) :
    table.findBy index wanted = none ↔ ∀ key value, table.get? key = some value → index value ≠ wanted := by
  simp [findBy, find?_none]

theorem findBy_found {wanted : ι} {key : κ} {value : ν} (found : table.findBy index wanted = some (key, value)) :
    table.get? key = some value ∧ index value = wanted := by
  simpa using find?_some table _ key value found

theorem findBy_eq_some (unique : table.Unique index) (wanted : ι) (key : κ) (value : ν) :
    table.findBy index wanted = some (key, value) ↔ table.get? key = some value ∧ index value = wanted := by
  constructor
  · exact findBy_found
  · rintro ⟨present, selected⟩
    cases found : table.findBy index wanted with
    | none => exact absurd selected ((findBy_eq_none wanted).mp found key value present)
    | some row =>
        obtain ⟨other, stored⟩ := row
        obtain ⟨presentOther, selectedOther⟩ := findBy_found found
        obtain rfl := unique _ _ _ _ presentOther present (selectedOther.trans selected.symm)
        rw [presentOther] at present
        cases present
        rfl

theorem findBy_ext {other : Table κ ν} (uniqueTable : table.Unique index) (uniqueOther : other.Unique index)
    (wanted : ι) (same : ∀ key value, index value = wanted →
      (table.get? key = some value ↔ other.get? key = some value)) :
    table.findBy index wanted = other.findBy index wanted := by
  apply Option.ext
  rintro ⟨key, value⟩
  rw [findBy_eq_some uniqueTable, findBy_eq_some uniqueOther]
  constructor
  · rintro ⟨present, selected⟩
    exact ⟨(same key value selected).mp present, selected⟩
  · rintro ⟨present, selected⟩
    exact ⟨(same key value selected).mpr present, selected⟩

theorem unique_put (unique : table.Unique index) (key : κ) {value : ν}
    (fresh : table.findBy index (index value) = none) : (table.put key value).Unique index := by
  rw [findBy_eq_none] at fresh
  intro left first right second presentLeft presentRight same
  simp only [get?_put] at presentLeft presentRight
  split at presentLeft <;> split at presentRight
  · rename_i atLeft atRight
    exact atLeft ▸ atRight
  · cases presentLeft
    exact absurd same.symm (fresh _ _ presentRight)
  · cases presentRight
    exact absurd same (fresh _ _ presentLeft)
  · exact unique _ _ _ _ presentLeft presentRight same

theorem findBy_put (unique : table.Unique index) {key : κ} {value : ν} (absent : table.get? key = none)
    (fresh : table.findBy index (index value) = none) (wanted : ι) :
    (table.put key value).findBy index wanted =
      if index value = wanted then some (key, value) else table.findBy index wanted := by
  have uniquePut := unique_put unique key fresh
  split
  · rename_i selected
    exact (findBy_eq_some uniquePut _ _ _).mpr ⟨by simp, selected⟩
  · rename_i other
    apply findBy_ext uniquePut unique
    intro position stored selected
    simp only [get?_put]
    split
    · rename_i same
      subst same
      simp only [Option.some.injEq, absent, reduceCtorEq, iff_false]
      rintro rfl
      exact other selected
    · rfl

theorem findBy_modify (unique : table.Unique index) (key : κ) {change : ν → ν}
    (keeps : ∀ value, index (change value) = index value) (wanted : ι) :
    (table.modify key change).findBy index wanted =
      (table.findBy index wanted).map fun row => (row.1, if key = row.1 then change row.2 else row.2) := by
  have uniqueAfter := unique_modify unique key keeps
  cases found : table.findBy index wanted with
  | none =>
      rw [findBy_eq_none] at found
      simp only [Option.map_none, findBy_eq_none, get?_modify]
      intro other value present
      split at present
      · obtain ⟨old, before, rfl⟩ := Option.map_eq_some_iff.mp present
        rw [keeps]
        exact found _ _ before
      · exact found _ _ present
  | some row =>
      obtain ⟨present, selected⟩ := findBy_found found
      simp only [Option.map_some, findBy_eq_some uniqueAfter, get?_modify]
      split <;> simp [present, keeps, selected]

theorem findBy_erase (unique : table.Unique index) (key : κ) (wanted : ι) :
    (table.erase key).findBy index wanted =
      (table.findBy index wanted).filter fun row => decide (row.1 ≠ key) := by
  have uniqueAfter := unique_erase unique key
  apply Option.ext
  rintro ⟨other, value⟩
  rw [findBy_eq_some uniqueAfter, Option.filter_eq_some_iff, findBy_eq_some unique]
  simp only [get?_erase, decide_eq_true_eq]
  constructor
  · rintro ⟨present, selected⟩
    split at present
    · cases present
    · rename_i different
      exact ⟨⟨present, selected⟩, fun same => different same.symm⟩
  · rintro ⟨⟨present, selected⟩, different⟩
    rw [if_neg fun same => different same.symm]
    exact ⟨present, selected⟩

/-- At one index key there is now the given value or none; other index keys find what they
found, and every sum over the rows changes accordingly. -/
structure Rewrites (index : ν → ι) (before after : Table κ ν) (wanted : ι) (value : Option ν) : Prop where
  unique : after.Unique index
  here : (after.findBy index wanted).map Prod.snd = value
  elsewhere : ∀ other, other ≠ wanted → after.findBy index other = before.findBy index other
  total : ∀ measure : ν → Nat,
    after.total measure + ((before.findBy index wanted).map fun row => measure row.2).getD 0 =
      before.total measure + (value.map measure).getD 0

theorem rewrites_refl (unique : table.Unique index) (wanted : ι) :
    Rewrites index table table wanted ((table.findBy index wanted).map Prod.snd) :=
  ⟨unique, rfl, fun _ _ => rfl, fun measure => by simp [Option.map_map, Function.comp_def]⟩

theorem Rewrites.trans {first second third : Table κ ν} {wanted : ι} {middle last : Option ν}
    (one : Rewrites index first second wanted middle) (two : Rewrites index second third wanted last) :
    Rewrites index first third wanted last where
  unique := two.unique
  here := two.here
  elsewhere other apart := (two.elsewhere other apart).trans (one.elsewhere other apart)
  total measure := by
    have totalOne := one.total measure
    have totalTwo := two.total measure
    have found : ((second.findBy index wanted).map fun row => measure row.2) = middle.map measure := by
      rw [← one.here, Option.map_map]
      rfl
    rw [found] at totalTwo
    omega

theorem rewrites_put (unique : table.Unique index) {key : κ} {value : ν} (absent : table.get? key = none)
    (fresh : table.findBy index (index value) = none) :
    Rewrites index table (table.put key value) (index value) (some value) where
  unique := unique_put unique key fresh
  here := by rw [findBy_put unique absent fresh, if_pos rfl]; rfl
  elsewhere other apart := by rw [findBy_put unique absent fresh, if_neg fun same => apart same.symm]
  total measure := by simp [fresh, total_put measure table key value absent]

theorem rewrites_modify (unique : table.Unique index) {wanted : ι} {key : κ} {value : ν} (change : ν → ν)
    (keeps : ∀ value, index (change value) = index value)
    (found : table.findBy index wanted = some (key, value)) :
    Rewrites index table (table.modify key change) wanted (some (change value)) where
  unique := unique_modify unique key keeps
  here := by simp [findBy_modify unique key keeps, found]
  elsewhere other apart := by
    rw [findBy_modify unique key keeps]
    cases elsewhere : table.findBy index other with
    | none => rfl
    | some row =>
        have different : key ≠ row.1 := by
          intro same
          have here := findBy_found found
          have there := findBy_found elsewhere
          rw [← same, here.1] at there
          obtain ⟨equal, selected⟩ := there
          cases equal
          exact apart (selected.symm.trans here.2)
        simp [different]
  total measure := by
    have changed := total_modify measure table key change value (findBy_found found).1
    simpa [found] using changed

theorem rewrites_erase (unique : table.Unique index) {wanted : ι} {key : κ} {value : ν}
    (found : table.findBy index wanted = some (key, value)) :
    Rewrites index table (table.erase key) wanted none where
  unique := unique_erase unique key
  here := by simp [findBy_erase unique, found]
  elsewhere other apart := by
    rw [findBy_erase unique]
    cases elsewhere : table.findBy index other with
    | none => rfl
    | some row =>
        have different : row.1 ≠ key := by
          intro same
          have here := findBy_found found
          have there := findBy_found elsewhere
          rw [same, here.1] at there
          obtain ⟨equal, selected⟩ := there
          cases equal
          exact apart (selected.symm.trans here.2)
        simp [Option.filter, different]
  total measure := by
    have erased := total_erase measure table key value (findBy_found found).1
    simpa [found] using erased

end Table

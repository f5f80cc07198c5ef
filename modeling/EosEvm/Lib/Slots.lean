import EosEvm.Lib.Table

/-! States made of slots. When every step reads and writes one slot only, a sequence of steps
does in each slot what the steps of that slot do by themselves, in whatever order the steps of
different slots are mixed. -/

namespace Abort

/-- A state with one slot for each key and a part that all steps share. -/
structure Slots (σ κ ρ β : Type) [DecidableEq κ] where
  read : σ → κ → ρ
  write : σ → κ → ρ → σ
  shared : σ → β
  read_write : ∀ state key row other, read (write state key row) other = if key = other then row else read state other
  shared_write : ∀ state key row, shared (write state key row) = shared state
  ext : ∀ first second, shared first = shared second → (∀ key, read first key = read second key) → first = second

namespace Slots

variable {σ κ ρ β α : Type} [DecidableEq κ] (slots : Slots σ κ ρ β) {common : β} {key : α → κ}
  {inner : ρ → α → Outcome ρ} {step : σ → α → Outcome σ}

/-- Where the shared part is `common`, the step of an item is a step within its slot. -/
def Local (common : β) (key : α → κ) (inner : ρ → α → Outcome ρ) (step : σ → α → Outcome σ) (item : α) : Prop :=
  ∀ state, slots.shared state = common →
    step state item = (inner (slots.read state (key item)) item).map (slots.write state (key item))

def ownItems (key : α → κ) (slot : κ) (items : List α) : List α := items.filter fun item => decide (key item = slot)

theorem ownItems_cons_self (item : α) (items : List α) :
    ownItems key (key item) (item :: items) = item :: ownItems key (key item) items := by
  simp [ownItems]

theorem ownItems_cons_other {item : α} {slot : κ} (other : key item ≠ slot) (items : List α) :
    ownItems key slot (item :: items) = ownItems key slot items := by
  simp [ownItems, other]

theorem fold_local {items : List α} (within : ∀ item ∈ items, slots.Local common key inner step item) {state final : σ}
    (start : slots.shared state = common) :
    foldOutcome step items state = .ok final ↔ slots.shared final = common ∧
      ∀ slot, foldOutcome inner (ownItems key slot items) (slots.read state slot) = .ok (slots.read final slot) := by
  induction items generalizing state with
  | nil =>
      rw [foldOutcome_nil]
      constructor
      · rintro rfl
        exact ⟨start, fun slot => rfl⟩
      · rintro ⟨same, reads⟩
        exact slots.ext state final (start.trans same.symm) fun slot => Except.ok.inj (reads slot)
  | cons item items ih =>
      have first := within item (.head _) state start
      have rest : ∀ other ∈ items, slots.Local common key inner step other := fun other member =>
        within other (.tail _ member)
      -- the slot of the item takes one step, and the others are as they were
      have after : ∀ row, inner (slots.read state (key item)) item = .ok row →
          (foldOutcome step items (slots.write state (key item) row) = .ok final ↔ slots.shared final = common ∧
            ∀ slot, foldOutcome inner (ownItems key slot (item :: items)) (slots.read state slot) =
              .ok (slots.read final slot)) := by
        intro row taken
        rw [ih rest ((slots.shared_write state (key item) row).trans start)]
        refine and_congr_right fun _ => forall_congr' fun slot => ?_
        rw [slots.read_write]
        by_cases own : key item = slot
        · subst own
          rw [if_pos rfl, ownItems_cons_self, foldOutcome_cons, taken]
          simp
        · rw [if_neg own, ownItems_cons_other own]
      rw [foldOutcome_cons, first]
      cases taken : inner (slots.read state (key item)) item with
      | ok row =>
          rw [← after row taken]
          constructor
          · rintro ⟨next, written, finished⟩
            cases written
            exact finished
          · intro finished
            exact ⟨_, rfl, finished⟩
      | error message =>
          constructor
          · rintro ⟨next, ⟨⟩, _⟩
          · rintro ⟨_, reads⟩
            have own := reads (key item)
            rw [ownItems_cons_self, foldOutcome_cons, taken] at own
            obtain ⟨_, ⟨⟩, _⟩ := own

end Slots

end Abort

namespace Table

variable {κ ν : Type} [LinearOrder κ]

def assign (table : Table κ ν) (key : κ) : Option ν → Table κ ν
  | some value => table.put key value
  | none => table.erase key

@[simp] theorem get?_assign (table : Table κ ν) (key other : κ) (value : Option ν) :
    (table.assign key value).get? other = if key = other then value else table.get? other := by
  cases value with
  | none => exact get?_erase table key other
  | some value => exact get?_put table key other value

@[simp] theorem assign_get? (table : Table κ ν) (key : κ) : table.assign key (table.get? key) = table := by
  apply ext_get?
  intro other
  rw [get?_assign]
  split
  · rename_i here
    rw [here]
  · rfl

end Table

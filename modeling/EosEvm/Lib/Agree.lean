import EosEvm.Lib.Abort

/-! Two computations side by side. They agree when both abort with the same message or both
finish with related results; agreement is built up along binds and folds. -/

namespace Abort

variable {α β γ δ : Type} {related : α → β → Prop} {after : γ → δ → Prop}

/-- Both abort with one message, or both finish with related results. -/
inductive Agree (related : α → β → Prop) : Outcome α → Outcome β → Prop
  | ok {left : α} {right : β} (relation : related left right) : Agree related (.ok left) (.ok right)
  | error (message : String) : Agree related (.error message) (.error message)

namespace Agree

theorem bind {first : Outcome α} {second : Outcome β} {next : α → Outcome γ} {other : β → Outcome δ}
    (agrees : Agree related first second)
    (continues : ∀ left right, related left right → Agree after (next left) (other right)) :
    Agree after (first >>= next) (second >>= other) := by
  cases agrees with
  | ok relation => exact continues _ _ relation
  | error message => exact .error message

theorem same {first : Outcome α} {next : α → Outcome γ} {other : α → Outcome δ}
    (continues : ∀ value, Agree after (next value) (other value)) : Agree after (first >>= next) (first >>= other) := by
  cases first with
  | ok value => exact continues value
  | error message => exact .error message

theorem same_ok {first : Outcome α} {next : α → Outcome γ} {other : α → Outcome δ}
    (continues : ∀ value, first = .ok value → Agree after (next value) (other value)) :
    Agree after (first >>= next) (first >>= other) := by
  cases first with
  | ok value => exact continues value rfl
  | error message => exact .error message

theorem known {first : Outcome α} {second : Outcome β} (agrees : Agree related first second) :
    Agree (fun left right => first = .ok left ∧ related left right) first second := by
  cases agrees with
  | ok relation => exact .ok ⟨rfl, relation⟩
  | error message => exact .error message

theorem require {found : Option α} {other : Option β} {message : String} (present : found.isSome = other.isSome)
    (relation : ∀ left right, found = some left → other = some right → related left right) :
    Agree related (Abort.require found message) (Abort.require other message) := by
  cases found with
  | none =>
      cases other with
      | none => exact .error message
      | some right => cases present
  | some left =>
      cases other with
      | none => cases present
      | some right => exact .ok (relation left right rfl rfl)

theorem foldOutcome {step : α → γ → Outcome α} {other : β → γ → Outcome β} (items : List γ)
    {left : α} {right : β} (start : related left right)
    (agrees : ∀ left right item, related left right → Agree related (step left item) (other right item)) :
    Agree related (Abort.foldOutcome step items left) (Abort.foldOutcome other items right) := by
  induction items generalizing left right with
  | nil => exact .ok start
  | cons item rest ih => exact bind (agrees left right item start) fun _ _ relation => ih relation

theorem finishes {first : Outcome α} {second : Outcome β} (agrees : Agree related first second) :
    (∃ left, first = .ok left) ↔ ∃ right, second = .ok right := by
  cases agrees with
  | ok relation => exact ⟨fun _ => ⟨_, rfl⟩, fun _ => ⟨_, rfl⟩⟩
  | error message => simp

theorem aborts {first : Outcome α} {second : Outcome β} {message : String} (agrees : Agree related first second)
    (aborted : first = .error message) : second = .error message := by
  cases agrees with
  | ok relation => cases aborted
  | error message =>
      cases aborted
      rfl

theorem relates {first : Outcome α} {second : Outcome β} {left : α} {right : β} (agrees : Agree related first second)
    (finished : first = .ok left) (also : second = .ok right) : related left right := by
  cases agrees with
  | ok relation =>
      cases finished
      cases also
      exact relation
  | error message => cases finished

end Agree

def Beside (related : α → β → Prop) (left : α × γ) (right : β × γ) : Prop := related left.1 right.1 ∧ left.2 = right.2

end Abort

import Mathlib.Init

/-! Computations that either finish or abort with a message. A bind that
finished is taken apart into its two halves, so that the proof of a long
procedure names every intermediate value instead of unfolding the monad. -/

namespace Abort

abbrev Outcome (α : Type) := Except String α

def check (condition : Prop) [Decidable condition] (message : String) : Outcome Unit :=
  if condition then .ok () else .error message

def require {α : Type} (value : Option α) (message : String) : Outcome α :=
  match value with
  | some found => .ok found
  | none => .error message

@[simp] theorem bind_ok {α β : Type} (first : Outcome α) (next : α → Outcome β) (result : β) :
    (first >>= next) = .ok result ↔ ∃ value, first = .ok value ∧ next value = .ok result := by
  cases first <;> simp [bind, Except.bind]

@[simp] theorem pure_ok {α : Type} (value result : α) :
    (pure value : Outcome α) = .ok result ↔ value = result := by
  simp [pure, Except.pure]

@[simp] theorem check_ok (condition : Prop) [Decidable condition] (message : String) (result : Unit) :
    check condition message = .ok result ↔ condition := by
  unfold check
  split <;> simp_all

@[simp] theorem require_ok {α : Type} (value : Option α) (message : String) (result : α) :
    require value message = .ok result ↔ value = some result := by
  cases value <;> simp [require]

theorem ok_bind {α β : Type} (value : α) (next : α → Outcome β) :
    ((.ok value : Outcome α) >>= next) = next value := rfl

theorem error_bind {α β : Type} (message : String) (next : α → Outcome β) :
    (Except.error message : Outcome α) >>= next = .error message := rfl

def foldOutcome {α σ : Type} (step : σ → α → Outcome σ) : List α → σ → Outcome σ
  | [], state => .ok state
  | item :: rest, state => do
      let next ← step state item
      foldOutcome step rest next

theorem foldOutcome_nil {α σ : Type} (step : σ → α → Outcome σ) (state final : σ) :
    foldOutcome step [] state = .ok final ↔ state = final := by
  simp [foldOutcome]

theorem foldOutcome_cons {α σ : Type} (step : σ → α → Outcome σ) (item : α) (rest : List α)
    (state final : σ) :
    foldOutcome step (item :: rest) state = .ok final ↔
      ∃ next, step state item = .ok next ∧ foldOutcome step rest next = .ok final := by
  simp [foldOutcome]

theorem foldOutcome_append {α σ : Type} (step : σ → α → Outcome σ) (front back : List α)
    (state final : σ) :
    foldOutcome step (front ++ back) state = .ok final ↔
      ∃ middle, foldOutcome step front state = .ok middle ∧
        foldOutcome step back middle = .ok final := by
  induction front generalizing state with
  | nil => simp [foldOutcome]
  | cons item rest ih =>
      simp only [List.cons_append, foldOutcome_cons, ih]
      constructor
      · rintro ⟨next, stepped, middle, first, second⟩
        exact ⟨middle, ⟨next, stepped, first⟩, second⟩
      · rintro ⟨middle, ⟨next, stepped, first⟩, second⟩
        exact ⟨next, stepped, middle, first, second⟩

theorem foldOutcome_invariant {α σ : Type} (step : σ → α → Outcome σ) (invariant : σ → Prop)
    (items : List α) (state final : σ)
    (preserved : ∀ current item next, item ∈ items → invariant current →
      step current item = .ok next → invariant next)
    (start : invariant state) (finished : foldOutcome step items state = .ok final) :
    invariant final := by
  induction items generalizing state with
  | nil =>
      rw [foldOutcome_nil] at finished
      exact finished ▸ start
  | cons item rest ih =>
      obtain ⟨next, stepped, tail⟩ := (foldOutcome_cons step item rest state final).mp finished
      apply ih next
      · intro current other after member
        exact preserved current other after (List.mem_cons_of_mem _ member)
      · exact preserved state item next (List.mem_cons_self ..) start stepped
      · exact tail

theorem exists_of_isOk {α : Type} {outcome : Outcome α} (finished : outcome.isOk = true) :
    ∃ value, outcome = .ok value := by
  cases outcome with
  | ok value => exact ⟨value, rfl⟩
  | error message => simp [Except.isOk, Except.toBool] at finished

theorem isOk_eq_false {α : Type} {outcome : Outcome α} : outcome.isOk = false ↔ ∀ value, outcome ≠ .ok value := by
  cases outcome <;> simp [Except.isOk, Except.toBool]

theorem error_of_map {α β : Type} {outcome : Outcome α} {view : α → β} {message : String}
    (refused : outcome.map view = .error message) : outcome = .error message := by
  cases outcome with
  | ok value => cases refused
  | error other => exact congrArg Except.error (Except.error.inj refused)

theorem exists_of_view {α β : Type} (outcome : Outcome α) (view : α → β) (seen : β)
    (finished : outcome.toOption.map view = some seen) : ∃ value, outcome = .ok value ∧ view value = seen := by
  cases outcome with
  | ok value => exact ⟨value, rfl, Option.some.inj finished⟩
  | error message => cases finished

end Abort

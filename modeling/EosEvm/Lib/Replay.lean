import Mathlib.Data.List.Basic
import Mathlib.Data.List.Induction

/-! A log in which some entries publish a value and some use one. A reader who follows
the publications knows the value of every use exactly if the log is faithful. -/

namespace Replay

variable {ε α : Type} (publishes uses : ε → Option α)

def latest (start : α) (log : List ε) : α :=
  log.foldl (fun current entry => (publishes entry).getD current) start

def Faithful (start : α) (log : List ε) : Prop :=
  ∀ front entry back value, log = front ++ entry :: back → uses entry = some value →
    value = latest publishes start front

@[simp] theorem latest_append (start : α) (front back : List ε) :
    latest publishes start (front ++ back) = latest publishes (latest publishes start front) back :=
  List.foldl_append

theorem latest_cons (start : α) (entry : ε) (log : List ε) :
    latest publishes start (entry :: log) = latest publishes ((publishes entry).getD start) log := rfl

theorem latest_of_silent (start : α) (log : List ε) (silent : ∀ entry ∈ log, publishes entry = none) :
    latest publishes start log = start := by
  induction log with
  | nil => rfl
  | cons entry log ih =>
      rw [latest_cons, silent entry (List.mem_cons_self ..)]
      exact ih fun other member => silent other (List.mem_cons_of_mem _ member)

theorem latest_cases (start : α) (log : List ε) :
    latest publishes start log = start ∨ ∃ front entry back, log = front ++ entry :: back ∧
      publishes entry = some (latest publishes start log) ∧ ∀ later ∈ back, publishes later = none := by
  induction log using List.reverseRecOn with
  | nil => exact Or.inl rfl
  | append_singleton log last ih =>
      rw [latest_append, latest_cons]
      cases published : publishes last with
      | some value => exact Or.inr ⟨log, last, [], rfl, published, fun _ member => by cases member⟩
      | none =>
          refine ih.imp id ?_
          rintro ⟨front, entry, back, rfl, found, silent⟩
          refine ⟨front, entry, back ++ [last], by simp, found, ?_⟩
          simpa [or_imp, forall_and, published] using silent

theorem latest_filter (start : α) (log : List ε) (keeps : ε → Bool)
    (silent : ∀ entry ∈ log, keeps entry = false → publishes entry = none) :
    latest publishes start (log.filter keeps) = latest publishes start log := by
  induction log generalizing start with
  | nil => rfl
  | cons entry log ih =>
      have rest := fun start => ih start fun other member => silent other (List.mem_cons_of_mem _ member)
      cases kept : keeps entry with
      | true => rw [List.filter_cons_of_pos kept, latest_cons, latest_cons, rest]
      | false =>
          rw [List.filter_cons_of_neg (by simp [kept]), latest_cons, silent entry (List.mem_cons_self ..) kept, rest]
          rfl

theorem faithful_of_unused (start : α) (log : List ε) (unused : ∀ entry ∈ log, uses entry = none) :
    Faithful publishes uses start log := by
  intro front entry back value split used
  rw [unused entry (split ▸ List.mem_append_right _ (List.mem_cons_self ..))] at used
  cases used

theorem Faithful.append {start : α} {front back : List ε} (first : Faithful publishes uses start front)
    (second : Faithful publishes uses (latest publishes start front) back) :
    Faithful publishes uses start (front ++ back) := by
  intro before entry after value split used
  rcases List.append_eq_append_iff.mp split with ⟨shared, beforeEq, backEq⟩ | ⟨shared, frontEq, entryEq⟩
  · rw [beforeEq, latest_append]
    exact second shared entry after value backEq used
  · cases shared with
    | nil =>
        rw [List.append_nil] at frontEq
        rw [← frontEq]
        exact second [] entry after value entryEq.symm used
    | cons head tail =>
        obtain ⟨rfl, _⟩ := List.cons.inj entryEq
        exact first before _ tail value frontEq used

theorem faithful_of_last {start : α} {front : List ε} {entry : ε} (unused : ∀ other ∈ front, uses other = none)
    (current : ∀ used, uses entry = some used → used = latest publishes start front) :
    Faithful publishes uses start (front ++ [entry]) := by
  refine (faithful_of_unused publishes uses start front unused).append publishes uses ?_
  intro before other after used split found
  cases before with
  | nil =>
      obtain ⟨rfl, _⟩ := List.cons.inj split
      exact current used found
  | cons head tail => simp at split

end Replay

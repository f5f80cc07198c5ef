import EosEvm.Lib.Replay
import EosEvm.Promoter

/-! A value promoter as a register with a delay of one EVM block. Whatever was promoted in
between, it shows the value that was written last before the current block. -/

namespace EosEvm

open Abort Replay

/-- A use of a promoter that can change it: `update` with a visitor that overwrites the whole
value, or `get_value_and_maybe_promote`. -/
inductive Access (α : Type)
  | update (value : α) (time : Nat)
  | promote (time : Nat)
  deriving DecidableEq, Repr

namespace Access

variable {α : Type} {genesisTime block : Nat} {access : Access α} {accesses : List (Access α)}
  {promoter after : ValuePromoter α}

def time : Access α → Nat
  | .update _ time => time
  | .promote time => time

def isUpdate : Access α → Bool
  | .update _ _ => true
  | .promote _ => false

def run (genesisTime : Nat) (promoter : ValuePromoter α) : Access α → Outcome (ValuePromoter α)
  | .update value time => promoter.update (fun _ => .ok value) genesisTime time
  | .promote time => .ok (promoter.maybePromote genesisTime time).1

def runAll (genesisTime : Nat) (accesses : List (Access α)) (promoter : ValuePromoter α) : Outcome (ValuePromoter α) :=
  foldOutcome (run genesisTime) accesses promoter

def isBefore (genesisTime block : Nat) (access : Access α) : Bool :=
  decide (timestampToEvmBlockNum genesisTime access.time < block)

def written (genesisTime block : Nat) : Access α → Option α
  | .update value time => if timestampToEvmBlockNum genesisTime time < block then some value else none
  | .promote _ => none

def writtenBefore (genesisTime block : Nat) (initial : α) (accesses : List (Access α)) : α :=
  latest (written genesisTime block) initial accesses

theorem exists_run (genesisTime : Nat) (promoter : ValuePromoter α) (access : Access α) :
    ∃ after, run genesisTime promoter access = .ok after := by
  cases access with
  | update value time => exact ⟨_, rfl⟩
  | promote time => exact ⟨_, rfl⟩

theorem exists_runAll (genesisTime : Nat) (accesses : List (Access α)) (promoter : ValuePromoter α) :
    ∃ after, runAll genesisTime accesses promoter = .ok after := by
  induction accesses generalizing promoter with
  | nil => exact ⟨promoter, rfl⟩
  | cons access rest ih =>
      obtain ⟨middle, ran⟩ := exists_run genesisTime promoter access
      obtain ⟨after, ranAll⟩ := ih middle
      exact ⟨after, (foldOutcome_cons _ _ _ _ _).mpr ⟨middle, ran, ranAll⟩⟩

/-- What an access changes in a block that it is not after. -/
theorem run_valueIn (ran : run genesisTime promoter access = .ok after)
    (reached : timestampToEvmBlockNum genesisTime access.time ≤ block) :
    after.valueIn genesisTime block = (access.written genesisTime block).getD (promoter.valueIn genesisTime block) := by
  cases access with
  | promote time =>
      cases ran
      exact promoter.valueIn_maybePromote genesisTime time reached
  | update value time =>
      have updated : promoter.update (fun _ => .ok value) genesisTime time = .ok after := ran
      obtain ⟨_, ⟨⟩, rfl⟩ := ValuePromoter.update_ok updated
      simp only [ValuePromoter.valueIn, written]
      split
      · rfl
      · rename_i same
        -- in its own block the update shows what was in effect
        have own : block = timestampToEvmBlockNum genesisTime time := Nat.le_antisymm (not_lt.mp same) reached
        rw [own]
        exact promoter.getValue_eq_valueIn genesisTime time

theorem runAll_valueIn (ran : runAll genesisTime accesses promoter = .ok after)
    (reached : ∀ access ∈ accesses, timestampToEvmBlockNum genesisTime access.time ≤ block) :
    after.valueIn genesisTime block = writtenBefore genesisTime block (promoter.valueIn genesisTime block) accesses := by
  induction accesses generalizing promoter with
  | nil =>
      cases ran
      rfl
  | cons access rest ih =>
      obtain ⟨middle, first, later⟩ := (foldOutcome_cons _ _ _ _ _).mp ran
      rw [ih later fun other member => reached other (List.mem_cons_of_mem _ member),
        run_valueIn first (reached access (List.mem_cons_self ..))]
      rfl

theorem writtenBefore_updates (genesisTime block : Nat) (initial : α) (accesses : List (Access α)) :
    writtenBefore genesisTime block initial (accesses.filter isUpdate) =
      writtenBefore genesisTime block initial accesses := by
  refine latest_filter _ _ _ _ fun access _ reads => ?_
  cases access with
  | update => cases reads
  | promote => rfl

theorem writtenBefore_early (genesisTime block : Nat) (initial : α) (accesses : List (Access α)) :
    writtenBefore genesisTime block initial (accesses.filter (isBefore genesisTime block)) =
      writtenBefore genesisTime block initial accesses := by
  refine latest_filter _ _ _ _ fun access _ late => ?_
  cases access with
  | update value time => exact if_neg (of_decide_eq_false late)
  | promote => rfl

end Access

/-- Both ways to read a promoter give the value. -/
structure ValuePromoter.Reads {α : Type} (promoter : ValuePromoter α) (genesisTime now : Nat) (value : α) : Prop where
  plain : promoter.getValue genesisTime now = value
  promoting : (promoter.maybePromote genesisTime now).1.cachedValue = value

theorem Access.runAll_reads {α : Type} (genesisTime : Nat) (initial : α) {accesses : List (Access α)} {now : Nat}
    (passed : ∀ access ∈ accesses, access.time ≤ now) :
    ∃ promoter, runAll genesisTime accesses { cachedValue := initial } = .ok promoter ∧
      promoter.Reads genesisTime now
        (writtenBefore genesisTime (timestampToEvmBlockNum genesisTime now) initial accesses) := by
  obtain ⟨promoter, ran⟩ := exists_runAll genesisTime accesses { cachedValue := initial }
  have plain : promoter.getValue genesisTime now =
      writtenBefore genesisTime (timestampToEvmBlockNum genesisTime now) initial accesses := by
    rw [promoter.getValue_eq_valueIn]
    exact runAll_valueIn ran fun access member => timestampToEvmBlockNum_mono genesisTime (passed access member)
  exact ⟨promoter, ran, plain, (promoter.cachedValue_maybePromote genesisTime now).trans plain⟩

/-- A read that comes after a sequence of updates and promoting reads gives the value written last
in an earlier EVM block, or the initial one. So it gives the same after any sequence with the same
updates, and after the accesses made in earlier blocks alone. -/
theorem promotion_transparent {α : Type} (genesisTime : Nat) (initial : α) (accesses : List (Access α)) (now : Nat)
    (passed : ∀ access ∈ accesses, access.time ≤ now) :
    let block := timestampToEvmBlockNum genesisTime now
    ∃ promoter value, Access.runAll genesisTime accesses { cachedValue := initial } = .ok promoter ∧
      promoter.Reads genesisTime now value ∧ value = Access.writtenBefore genesisTime block initial accesses ∧
      (∀ others : List (Access α), (∀ access ∈ others, access.time ≤ now) →
        others.filter Access.isUpdate = accesses.filter Access.isUpdate →
        ∃ other, Access.runAll genesisTime others { cachedValue := initial } = .ok other ∧
          other.Reads genesisTime now value) ∧
      ∃ early, Access.runAll genesisTime (accesses.filter (Access.isBefore genesisTime block))
          { cachedValue := initial } = .ok early ∧ early.Reads genesisTime now value := by
  intro block
  obtain ⟨promoter, ran, reads⟩ := Access.runAll_reads genesisTime initial passed
  refine ⟨promoter, _, ran, reads, rfl, fun others past same => ?_, ?_⟩
  · obtain ⟨other, otherRan, otherReads⟩ := Access.runAll_reads genesisTime initial past
    rw [← Access.writtenBefore_updates, same, Access.writtenBefore_updates] at otherReads
    exact ⟨other, otherRan, otherReads⟩
  · have early : ∀ access ∈ accesses.filter (Access.isBefore genesisTime block), access.time ≤ now :=
      fun access member => passed access (List.mem_filter.mp member).1
    obtain ⟨other, otherRan, otherReads⟩ := Access.runAll_reads genesisTime initial early
    rw [Access.writtenBefore_early] at otherReads
    exact ⟨other, otherRan, otherReads⟩

theorem promotion_transparent_thrice :
    let accesses : List (Access Nat) := [.update 1 1000000, .update 2 1500000, .promote 3000000, .update 3 3100000]
    (∀ access ∈ accesses, access.time ≤ 3900000) ∧
      ∃ promoter, Access.runAll 1 accesses { cachedValue := 0 } = .ok promoter ∧ promoter.Reads 1 3900000 2 := by
  intro accesses
  have passed : ∀ access ∈ accesses, access.time ≤ 3900000 := by decide
  obtain ⟨promoter, value, ran, reads, shown, _⟩ := promotion_transparent 1 0 accesses 3900000 passed
  have last : Access.writtenBefore 1 (timestampToEvmBlockNum 1 3900000) 0 accesses = 2 := by decide
  exact ⟨passed, promoter, ran, (shown.trans last) ▸ reads⟩

end EosEvm

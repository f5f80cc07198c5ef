import EosEvm.PromoterCore

/-! The value in effect does not depend on when a promoter is promoted. -/

namespace EosEvm

open Abort

theorem timestampToEvmBlockNum_mono (genesisTime : Nat) {first second : Nat} (order : first ≤ second) :
    timestampToEvmBlockNum genesisTime first ≤ timestampToEvmBlockNum genesisTime second := by
  have seconds : first / 1000000 ≤ second / 1000000 := Nat.div_le_div_right order
  simp only [timestampToEvmBlockNum]
  split <;> split <;> omega

namespace ValuePromoter

variable {α : Type} {promoter after : ValuePromoter α} {genesisTime now : Nat}

theorem maybePromote_idle (idle : ¬ (promoter.maybePromote genesisTime now).2 = true) :
    (promoter.maybePromote genesisTime now).1 = promoter := by
  simp only [maybePromote] at idle ⊢
  split at idle
  · simp at idle
  · rename_i inactive
    rw [if_neg inactive]

theorem cachedValue_maybePromote (promoter : ValuePromoter α) (genesisTime now : Nat) :
    (promoter.maybePromote genesisTime now).1.cachedValue = promoter.getValue genesisTime now := by
  cases found : promoter.pendingValue with
  | none => simp [maybePromote, isPendingActive, getValue, found]
  | some pending =>
      cases active : pending.isActive genesisTime now <;>
        simp [maybePromote, isPendingActive, getValue, promotePending, found, active]

theorem isPendingActive_maybePromote (promoter : ValuePromoter α) (genesisTime now : Nat) :
    (promoter.maybePromote genesisTime now).1.isPendingActive genesisTime now = false := by
  simp only [maybePromote]
  split
  · rename_i active
    simp only [isPendingActive, promotePending] at active ⊢
    cases pending : promoter.pendingValue with
    | none => simp [pending] at active
    | some value => rfl
  · rename_i inactive
    exact Bool.not_eq_true _ ▸ inactive

theorem maybePromote_twice (promoter : ValuePromoter α) (genesisTime now : Nat) :
    (promoter.maybePromote genesisTime now).1.maybePromote genesisTime now =
      ((promoter.maybePromote genesisTime now).1, false) := by
  have idle := isPendingActive_maybePromote promoter genesisTime now
  generalize (promoter.maybePromote genesisTime now).1 = promoted at idle ⊢
  simp [maybePromote, idle]

theorem update_ok {visitor : α → Outcome α} (updated : promoter.update visitor genesisTime now = .ok after) :
    ∃ value, visitor (promoter.getValue genesisTime now) = .ok value ∧
      after = { cachedValue := promoter.getValue genesisTime now
                pendingValue := some { value := value, time := now } } := by
  simp only [update, bind_ok, pure_ok, cachedValue_maybePromote] at updated
  obtain ⟨value, visited, rfl⟩ := updated
  exact ⟨value, visited, rfl⟩

def valueIn (promoter : ValuePromoter α) (genesisTime block : Nat) : α :=
  match promoter.pendingValue with
  | some pending =>
      if timestampToEvmBlockNum genesisTime pending.time < block then pending.value else promoter.cachedValue
  | none => promoter.cachedValue

theorem getValue_eq_valueIn (promoter : ValuePromoter α) (genesisTime now : Nat) :
    promoter.getValue genesisTime now = promoter.valueIn genesisTime (timestampToEvmBlockNum genesisTime now) := by
  unfold getValue valueIn
  cases promoter.pendingValue with
  | none => rfl
  | some pending => simp [PendingValue.isActive]

theorem valueIn_maybePromote (promoter : ValuePromoter α) (genesisTime now : Nat) {block : Nat}
    (reached : timestampToEvmBlockNum genesisTime now ≤ block) :
    (promoter.maybePromote genesisTime now).1.valueIn genesisTime block = promoter.valueIn genesisTime block := by
  unfold maybePromote
  split
  · rename_i active
    cases pending : promoter.pendingValue with
    | none => simp [isPendingActive, pending] at active
    | some value =>
        simp only [isPendingActive, pending, PendingValue.isActive, decide_eq_true_eq] at active
        simp only [promotePending, valueIn, pending]
        rw [if_pos (active.trans_le reached)]
  · rfl

theorem valueIn_scheduled (current value : α) (genesisTime now : Nat) :
    ({ cachedValue := current, pendingValue := some { value := value, time := now } } : ValuePromoter α).valueIn
      genesisTime (timestampToEvmBlockNum genesisTime now) = current := by
  simp [valueIn]

end ValuePromoter

end EosEvm

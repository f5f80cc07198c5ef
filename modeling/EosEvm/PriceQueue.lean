import EosEvm.Lib.Schedule
import EosEvm.Reconfigure

/-! The two price queues are schedules. Processing a queue applies and drops the changes
whose block has come; enqueueing schedules a change for a later block. -/

namespace EosEvm

open Abort Schedule

namespace ConfigWrapper

/-- What `process_queue` puts into the front after it erased a row. -/
def frontOf {ν : Type} (queue : Table Nat ν) : Nat :=
  match queue.first? with
  | some row => row.1
  | none => 0

theorem later_of_early {ν : Type} {block : Nat} {queue : Table Nat ν} (early : ∀ row ∈ queue.rows, block < row.1) :
    later block queue = queue := by
  apply Table.ext
  change queue.rows.filter _ = queue.rows
  rw [List.filter_eq_self]
  intro row member
  simpa using early row member

theorem due_of_early {ν : Type} {block : Nat} {queue : Table Nat ν} (early : ∀ row ∈ queue.rows, block < row.1) :
    (due block queue).rows = [] := by
  change queue.rows.filter _ = []
  rw [List.filter_eq_nil_iff]
  intro row member
  simpa using early row member

section Rows

variable {ν σ : Type} (block : Nat) (update : Config → ν → Config) (project : Config → σ) (apply : σ → ν → σ)

theorem processRows_spec (commutes : ∀ config value, project (update config value) = apply (project config) value)
    (blind : ∀ config front, project { config with queueFrontBlock := front } = project config)
    (queue : Table Nat ν) (config : Config) :
    (processRows block update queue.rows (queue, config)).1 = later block queue ∧
      project (processRows block update queue.rows (queue, config)).2 =
        effective apply block (project config) queue ∧
      (processRows block update queue.rows (queue, config)).2.queueFrontBlock =
        if (due block queue).rows = [] then config.queueFrontBlock else frontOf (later block queue) := by
  generalize rowsEq : queue.rows = rows
  induction rows generalizing queue config with
  | nil =>
      have early : ∀ row ∈ queue.rows, block < row.1 := by
        rw [rowsEq]
        exact fun _ member => (by cases member)
      simp only [processRows]
      refine ⟨(later_of_early early).symm, (effective_of_later apply _ _ early).symm, ?_⟩
      rw [if_pos (due_of_early early)]
  | cons row rest ih =>
      by_cases reached : row.1 ≤ block
      · have erased := Table.rows_erase_head queue row rest rowsEq
        have dueRows : (due block queue).rows = row :: (due block (queue.erase row.1)).rows := by
          change queue.rows.filter _ = row :: (queue.erase row.1).rows.filter _
          rw [erased, rowsEq, List.filter_cons_of_pos (by simpa using reached)]
        have sameLater : later block (queue.erase row.1) = later block queue := by
          apply Table.ext_get?
          intro key
          simp only [later, Table.get?_restrict, Table.get?_erase, decide_eq_true_eq]
          split
          · rw [if_neg (by omega)]
          · rfl
        simp only [processRows, if_pos reached]
        obtain ⟨drained, projected, front⟩ := ih (queue.erase row.1)
          { update config row.2 with queueFrontBlock := frontOf (queue.erase row.1) } erased
        refine ⟨drained.trans sameLater, ?_, ?_⟩
        · rw [effective, dueRows, List.foldl_cons, ← commutes, ← blind (update config row.2)]
          exact projected
        · rw [if_neg (by simp [dueRows])]
          refine front.trans ?_
          split
          · rename_i none
            rw [← sameLater, later_of_early]
            intro other member
            by_contra early
            have inside : other ∈ (due block (queue.erase row.1)).rows :=
              List.mem_filter.mpr ⟨member, by simpa using not_lt.mp early⟩
            rw [none] at inside
            cases inside
          · rw [sameLater]
      · have sorted := queue.sorted
        rw [rowsEq] at sorted
        have early : ∀ other ∈ queue.rows, block < other.1 := by
          rw [rowsEq]
          intro other member
          rcases List.mem_cons.mp member with rfl | inside
          · omega
          · have above := (List.pairwise_cons.mp sorted).1 other inside
            omega
        simp only [processRows, if_neg reached]
        refine ⟨(later_of_early early).symm, (effective_of_later apply _ _ early).symm, ?_⟩
        rw [if_pos (due_of_early early)]

end Rows

def idleIn (wrapper : ConfigWrapper) (block : Nat) : Prop :=
  wrapper.cached.queueFrontBlock = 0 ∨ block < wrapper.cached.queueFrontBlock

instance (wrapper : ConfigWrapper) (block : Nat) : Decidable (wrapper.idleIn block) :=
  inferInstanceAs (Decidable (_ ∨ _))

theorem queueIdle_iff (wrapper : ConfigWrapper) (now : Nat) :
    wrapper.queueIdle now = true ↔ wrapper.idleIn (wrapper.blockNum now) := by
  simp [queueIdle, idleIn, blockNum]

def priceIn (wrapper : ConfigWrapper) (block : Nat) : Nat :=
  if wrapper.idleIn block then wrapper.cached.gasPrice
  else effective (fun _ price => price) block wrapper.cached.gasPrice wrapper.priceQueue

def pricesIn (wrapper : ConfigWrapper) (block : Nat) : GasPrices :=
  if wrapper.idleIn block then wrapper.cached.gasPrices
  else effective GasPrices.updated block wrapper.cached.gasPrices wrapper.pricesQueue

/-- What is left of a queue, and of its front, after a block was processed. -/
structure Drained {ν : Type} (block : Nat) (before after : Table Nat ν) (front frontAfter : Nat) : Prop where
  queue : after = later block before
  front : frontAfter = if (due block before).rows = [] then front else frontOf after

theorem processRows_gasPrice (block : Nat) (queue : Table Nat Nat) (config : Config) :
    ∃ front after, processRows block (fun config price => { config with gasPrice := price }) queue.rows
        (queue, config) =
          (after, { config with
            gasPrice := effective (fun _ price => price) block config.gasPrice queue
            queueFrontBlock := front }) ∧
      Drained block queue after config.queueFrontBlock front := by
  obtain ⟨drained, whole, front⟩ := processRows_spec block
    (fun config price => { config with gasPrice := price }) (fun config => { config with queueFrontBlock := 0 })
    (fun config price => { config with gasPrice := price }) (fun _ _ => rfl) (fun _ _ => rfl) queue config
  have lifted := effective_lift (fun _ price => price) (fun config price => { config with gasPrice := price })
    (fun price => { config with queueFrontBlock := 0, gasPrice := price }) (fun _ _ => rfl)
    block config.gasPrice queue
  generalize processRows block (fun config price => { config with gasPrice := price }) queue.rows
    (queue, config) = processed at *
  obtain ⟨after, changed⟩ := processed
  obtain rfl : after = later block queue := drained
  refine ⟨changed.queueFrontBlock, _, Prod.ext rfl ?_, rfl, front⟩
  exact congrArg (fun config => { config with queueFrontBlock := changed.queueFrontBlock }) (whole.trans lifted)

theorem processRows_gasPrices (block : Nat) (queue : Table Nat GasPrices) (config : Config) :
    ∃ front after, processRows block
        (fun config prices => { config with gasPrices := config.gasPrices.updated prices }) queue.rows
        (queue, config) =
          (after, { config with
            gasPrices := effective GasPrices.updated block config.gasPrices queue
            queueFrontBlock := front }) ∧
      Drained block queue after config.queueFrontBlock front := by
  obtain ⟨drained, whole, front⟩ := processRows_spec block
    (fun config prices => { config with gasPrices := config.gasPrices.updated prices })
    (fun config => { config with queueFrontBlock := 0 })
    (fun config prices => { config with gasPrices := config.gasPrices.updated prices })
    (fun _ _ => rfl) (fun _ _ => rfl) queue config
  have lifted := effective_lift GasPrices.updated
    (fun config prices => { config with gasPrices := config.gasPrices.updated prices })
    (fun prices => { config with queueFrontBlock := 0, gasPrices := prices }) (fun _ _ => rfl)
    block config.gasPrices queue
  generalize processRows block (fun config prices => { config with gasPrices := config.gasPrices.updated prices })
    queue.rows (queue, config) = processed at *
  obtain ⟨after, changed⟩ := processed
  obtain rfl : after = later block queue := drained
  refine ⟨changed.queueFrontBlock, _, Prod.ext rfl ?_, rfl, front⟩
  exact congrArg (fun config => { config with queueFrontBlock := changed.queueFrontBlock }) (whole.trans lifted)

section Processed

variable {wrapper : ConfigWrapper} {now : Nat}

theorem processGasPriceQueue_idle (idle : wrapper.idleIn (wrapper.blockNum now)) :
    wrapper.processGasPriceQueue now = wrapper := by
  rw [processGasPriceQueue, if_pos ((queueIdle_iff wrapper now).mpr idle)]

theorem processGasPriceQueue_busy (busy : ¬ wrapper.idleIn (wrapper.blockNum now)) :
    ∃ front dirty queue, wrapper.processGasPriceQueue now = { wrapper with
        cached := { wrapper.cached with
          gasPrice := wrapper.priceIn (wrapper.blockNum now)
          queueFrontBlock := front }
        dirty := dirty
        priceQueue := queue } ∧
      Drained (wrapper.blockNum now) wrapper.priceQueue queue wrapper.cached.queueFrontBlock front := by
  obtain ⟨front, queue, rows, drained⟩ :=
    processRows_gasPrice (wrapper.blockNum now) wrapper.priceQueue wrapper.cached
  refine ⟨front, wrapper.dirty || (wrapper.priceQueue.first?.any fun row =>
    decide (row.1 ≤ wrapper.blockNum now)), queue, ?_, drained⟩
  rw [processGasPriceQueue, if_neg (mt (queueIdle_iff wrapper now).mp busy), priceIn, if_neg busy]
  simp only [blockNum] at rows ⊢
  rw [rows]
  rfl

theorem processGasPricesQueue_idle (idle : wrapper.idleIn (wrapper.blockNum now)) :
    wrapper.processGasPricesQueue now = wrapper := by
  rw [processGasPricesQueue, if_pos ((queueIdle_iff wrapper now).mpr idle)]

theorem processGasPricesQueue_busy (busy : ¬ wrapper.idleIn (wrapper.blockNum now)) :
    ∃ front dirty queue, wrapper.processGasPricesQueue now = { wrapper with
        cached := { wrapper.cached with
          gasPrices := wrapper.pricesIn (wrapper.blockNum now)
          queueFrontBlock := front }
        dirty := dirty
        pricesQueue := queue } ∧
      Drained (wrapper.blockNum now) wrapper.pricesQueue queue wrapper.cached.queueFrontBlock front := by
  obtain ⟨front, queue, rows, drained⟩ :=
    processRows_gasPrices (wrapper.blockNum now) wrapper.pricesQueue wrapper.cached
  refine ⟨front, wrapper.dirty || (wrapper.pricesQueue.first?.any fun row =>
    decide (row.1 ≤ wrapper.blockNum now)), queue, ?_, drained⟩
  rw [processGasPricesQueue, if_neg (mt (queueIdle_iff wrapper now).mp busy), pricesIn, if_neg busy]
  simp only [blockNum] at rows ⊢
  rw [rows]
  rfl

end Processed

theorem lt_activationBlockNum (genesisTime now : Nat) :
    timestampToEvmBlockNum genesisTime now < activationBlockNum genesisTime now :=
  Nat.lt_succ_of_le (timestampToEvmBlockNum_mono genesisTime (Nat.le_add_right now _))

theorem enqueueRow_ok {ν : Type} [DecidableEq ν] {queue after : Table Nat ν} {front activation : Nat} {value : ν}
    {newFront : Option Nat} (queued : enqueueRow queue front activation value = .ok (after, newFront)) :
    (∃ block, queue.last? = some (block, value) ∧ after = queue ∧ newFront = none) ∨
      (∃ last, last ≠ value ∧ queue.last? = some (activation, last) ∧
        after = queue.modify activation (fun _ => value) ∧ newFront = none) ∨
      (∀ row ∈ queue.rows, row.1 < activation) ∧ after = queue.put activation value ∧
        newFront = if front = 0 then some activation else none := by
  simp only [enqueueRow] at queued
  split at queued
  · rename_i block last found
    split at queued
    · rename_i same
      cases queued
      exact Or.inl ⟨block, same ▸ found, rfl, rfl⟩
    · rename_i differs
      simp only [bind_ok, check_ok, exists_const] at queued
      obtain ⟨order, queued⟩ := queued
      split at queued
      · rename_i same
        simp only [pure_ok, Prod.mk.injEq] at queued
        obtain ⟨rfl, rfl⟩ := queued
        exact Or.inr (Or.inl ⟨last, Ne.symm differs, same ▸ found, by rw [same], rfl⟩)
      · rename_i apart
        simp only [bind_ok, Table.emplace_ok, pure_ok, Prod.mk.injEq] at queued
        obtain ⟨_, ⟨_, rfl⟩, rfl, rfl⟩ := queued
        refine Or.inr (Or.inr ⟨?_, rfl, rfl⟩)
        intro row member
        have below := Table.le_last queue found row member
        omega
  · rename_i none
    simp only [bind_ok, Table.emplace_ok, pure_ok, Prod.mk.injEq] at queued
    obtain ⟨_, ⟨_, rfl⟩, rfl, rfl⟩ := queued
    refine Or.inr (Or.inr ⟨?_, rfl, rfl⟩)
    rw [Table.last?_eq_none queue none]
    exact fun _ member => (by cases member)

end ConfigWrapper

end EosEvm

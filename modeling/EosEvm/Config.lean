import EosEvm.ConfigCore
import EosEvm.Promoter

/-! What each operation of `config_wrapper` can change. The cached configuration after an
operation is the one before with some fields replaced; and it is written back, unless
the operation left it as it was. -/

namespace EosEvm

open Abort

namespace ConfigWrapper

def Saves (before after : ConfigWrapper) : Prop :=
  after.dirty = true ∨ after.cached = before.cached ∧ after.dirty = before.dirty

variable {wrapper middle after : ConfigWrapper}

theorem Saves.refl (wrapper : ConfigWrapper) : Saves wrapper wrapper := Or.inr ⟨rfl, rfl⟩

theorem Saves.trans (first : Saves wrapper middle) (second : Saves middle after) : Saves wrapper after := by
  rcases second with dirty | ⟨cached, dirty⟩
  · exact Or.inl dirty
  · rcases first with before | ⟨cachedBefore, dirtyBefore⟩
    · exact Or.inl (dirty.trans before)
    · exact Or.inr ⟨cached.trans cachedBefore, dirty.trans dirtyBefore⟩

theorem saves_set (wrapper : ConfigWrapper) (change : Config → Config) : Saves wrapper (wrapper.set change) :=
  Or.inl rfl

theorem promoteEvmVersion_eq (wrapper : ConfigWrapper) (now : Nat) :
    ∃ cut dirty, (wrapper.promoteEvmVersion now).2 = { wrapper with
      cached := { wrapper.cached with
        evmVersion := (wrapper.cached.evmVersion.maybePromote wrapper.cached.genesisTime now).1
        minerCut := cut }
      dirty := dirty } := by
  simp only [promoteEvmVersion]
  split
  · exact ⟨_, _, rfl⟩
  · rename_i idle
    exact ⟨wrapper.cached.minerCut, wrapper.dirty, by rw [ValuePromoter.maybePromote_idle idle]⟩

@[simp] theorem promoteEvmVersion_fst (wrapper : ConfigWrapper) (now : Nat) :
    (wrapper.promoteEvmVersion now).1 = wrapper.getEvmVersion now := by
  simp only [promoteEvmVersion]
  split <;> exact ValuePromoter.cachedValue_maybePromote _ _ _

theorem promoteEvmVersion_saves (wrapper : ConfigWrapper) (now : Nat) :
    Saves wrapper (wrapper.promoteEvmVersion now).2 := by
  simp only [promoteEvmVersion]
  split
  · exact saves_set _ _
  · exact Saves.refl _

theorem promoteConsensusParam_eq (wrapper : ConfigWrapper) (now : Nat) :
    ∃ dirty, (wrapper.promoteConsensusParam now).2.2 = { wrapper with
      cached := { wrapper.cached with
        consensusParameter := (wrapper.cached.consensusParameter.maybePromote wrapper.cached.genesisTime now).1 }
      dirty := dirty } := by
  simp only [promoteConsensusParam]
  split
  · exact ⟨_, rfl⟩
  · rename_i idle
    exact ⟨wrapper.dirty, by rw [ValuePromoter.maybePromote_idle idle]⟩

@[simp] theorem promoteConsensusParam_fst (wrapper : ConfigWrapper) (now : Nat) :
    (wrapper.promoteConsensusParam now).1 = wrapper.getConsensusParam now :=
  ValuePromoter.cachedValue_maybePromote _ _ _

theorem promoteConsensusParam_saves (wrapper : ConfigWrapper) (now : Nat) :
    Saves wrapper (wrapper.promoteConsensusParam now).2.2 := by
  simp only [promoteConsensusParam]
  split
  · exact saves_set _ _
  · exact Saves.refl _

theorem processRows_eq {ν : Type} (block : Nat) (update : Config → ν → Config)
    (touches : ∀ config value, ∃ price prices, update config value =
      { config with gasPrice := price, gasPrices := prices })
    (rows : List (Nat × ν)) (state : Table Nat ν × Config) :
    ∃ price prices front, (processRows block update rows state).2 =
      { state.2 with gasPrice := price, gasPrices := prices, queueFrontBlock := front } := by
  induction rows generalizing state with
  | nil => exact ⟨_, _, _, rfl⟩
  | cons row rows ih =>
      simp only [processRows]
      split
      · obtain ⟨price, prices, touched⟩ := touches state.2 row.2
        rw [touched]
        have continues : ∀ (table : Table Nat ν) (front : Nat), ∃ laterPrice laterPrices laterFront,
            (processRows block update rows (table,
              { state.2 with gasPrice := price, gasPrices := prices, queueFrontBlock := front })).2 =
            { state.2 with gasPrice := laterPrice, gasPrices := laterPrices, queueFrontBlock := laterFront } := by
          intro table front
          obtain ⟨laterPrice, laterPrices, laterFront, later⟩ := ih (table,
            { state.2 with gasPrice := price, gasPrices := prices, queueFrontBlock := front })
          exact ⟨laterPrice, laterPrices, laterFront, later⟩
        exact continues _ _
      · exact ⟨_, _, _, rfl⟩

theorem processRows_idle {ν : Type} (block : Nat) (update : Config → ν → Config) (queue : Table Nat ν)
    (config : Config) (idle : (queue.first?.any fun row => decide (row.1 ≤ block)) = false) :
    processRows block update queue.rows (queue, config) = (queue, config) := by
  cases rows : queue.rows with
  | nil => rfl
  | cons row rest =>
      have later : ¬ row.1 ≤ block := by simpa [Table.first?, rows] using idle
      simp [processRows, later]

theorem processPriceQueue_eq (wrapper : ConfigWrapper) (now : Nat) :
    ∃ price prices front dirty priceQueue pricesQueue, wrapper.processPriceQueue now =
      { cached := { wrapper.cached with gasPrice := price, gasPrices := prices, queueFrontBlock := front }
        stored := wrapper.stored
        dirty := dirty
        priceQueue := priceQueue
        pricesQueue := pricesQueue } := by
  simp only [processPriceQueue, processGasPricesQueue, processGasPriceQueue]
  split <;> split
  · exact ⟨_, _, _, _, _, _, rfl⟩
  · obtain ⟨price, prices, front, changed⟩ := processRows_eq (timestampToEvmBlockNum wrapper.cached.genesisTime now)
      (fun config prices => { config with gasPrices := config.gasPrices.updated prices })
      (fun _ _ => ⟨_, _, rfl⟩) wrapper.pricesQueue.rows (wrapper.pricesQueue, wrapper.cached)
    exact ⟨price, prices, front, _, _, _, by rw [changed]⟩
  · exact ⟨_, _, _, _, _, _, rfl⟩
  · obtain ⟨price, prices, front, changed⟩ := processRows_eq (timestampToEvmBlockNum wrapper.cached.genesisTime now)
      (fun config price => { config with gasPrice := price })
      (fun _ _ => ⟨_, _, rfl⟩) wrapper.priceQueue.rows (wrapper.priceQueue, wrapper.cached)
    exact ⟨price, prices, front, _, _, _, by rw [changed]⟩

theorem processPriceQueue_saves (wrapper : ConfigWrapper) (now : Nat) :
    Saves wrapper (wrapper.processPriceQueue now) := by
  simp only [processPriceQueue, processGasPricesQueue, processGasPriceQueue]
  split <;> split
  · exact Saves.refl _
  · cases ready : wrapper.pricesQueue.first?.any
        fun row => decide (row.1 ≤ timestampToEvmBlockNum wrapper.cached.genesisTime now) with
    | true => exact Or.inl (by simp)
    | false => exact Or.inr ⟨by rw [processRows_idle _ _ _ _ ready], by simp⟩
  · exact Saves.refl _
  · cases ready : wrapper.priceQueue.first?.any
        fun row => decide (row.1 ≤ timestampToEvmBlockNum wrapper.cached.genesisTime now) with
    | true => exact Or.inl (by simp)
    | false => exact Or.inr ⟨by rw [processRows_idle _ _ _ _ ready], by simp⟩

theorem setQueueFrontBlock_eq (wrapper : ConfigWrapper) (front : Option Nat) :
    ∃ dirty, wrapper.setQueueFrontBlock front =
      { wrapper with
        cached := { wrapper.cached with queueFrontBlock := front.getD wrapper.cached.queueFrontBlock }
        dirty := dirty } := by
  cases front with
  | none => exact ⟨wrapper.dirty, rfl⟩
  | some block => exact ⟨true, rfl⟩

theorem setQueueFrontBlock_saves (wrapper : ConfigWrapper) (front : Option Nat) :
    Saves wrapper (wrapper.setQueueFrontBlock front) := by
  cases front with
  | none => exact Saves.refl _
  | some block => exact saves_set _ _

theorem enqueueGasPrice_eq {gasPrice now : Nat} (queued : wrapper.enqueueGasPrice gasPrice now = .ok after) :
    ∃ front dirty priceQueue, after = { wrapper with
      cached := { wrapper.cached with queueFrontBlock := front }
      dirty := dirty
      priceQueue := priceQueue } := by
  simp only [enqueueGasPrice] at queued
  split at queued
  · cases queued
    exact ⟨_, _, _, rfl⟩
  · simp only [bind_ok, pure_ok] at queued
    obtain ⟨row, _, rfl⟩ := queued
    obtain ⟨dirty, same⟩ := setQueueFrontBlock_eq { wrapper with priceQueue := row.1 } row.2
    exact ⟨_, dirty, _, same⟩

theorem enqueueGasPrice_saves {gasPrice now : Nat} (queued : wrapper.enqueueGasPrice gasPrice now = .ok after) :
    Saves wrapper after := by
  simp only [enqueueGasPrice] at queued
  split at queued
  · cases queued
    exact Saves.refl _
  · simp only [bind_ok, pure_ok] at queued
    obtain ⟨row, _, rfl⟩ := queued
    exact setQueueFrontBlock_saves { wrapper with priceQueue := row.1 } row.2

theorem enqueueGasPrices_eq {prices : GasPrices} {now : Nat}
    (queued : wrapper.enqueueGasPrices prices now = .ok after) :
    ∃ front dirty pricesQueue, after = { wrapper with
      cached := { wrapper.cached with queueFrontBlock := front }
      dirty := dirty
      pricesQueue := pricesQueue } := by
  simp only [enqueueGasPrices] at queued
  split at queued
  · cases queued
    exact ⟨_, _, _, rfl⟩
  · simp only [bind_ok, pure_ok] at queued
    obtain ⟨row, _, rfl⟩ := queued
    obtain ⟨dirty, same⟩ := setQueueFrontBlock_eq { wrapper with pricesQueue := row.1 } row.2
    exact ⟨_, dirty, _, same⟩

theorem enqueueGasPrices_saves {prices : GasPrices} {now : Nat}
    (queued : wrapper.enqueueGasPrices prices now = .ok after) : Saves wrapper after := by
  simp only [enqueueGasPrices] at queued
  split at queued
  · cases queued
    exact Saves.refl _
  · simp only [bind_ok, pure_ok] at queued
    obtain ⟨row, _, rfl⟩ := queued
    exact setQueueFrontBlock_saves { wrapper with pricesQueue := row.1 } row.2

theorem setEvmVersion_ok {version now : Nat} (updated : wrapper.setEvmVersion version now = .ok after) :
    version ≤ maxEosEvmVersion ∧ (version = 3 → wrapper.cached.queueFrontBlock = 0) ∧
      (version = 3 → wrapper.cached.gasPrices.storagePrice.getD 0 ≠ 0) ∧ wrapper.getEvmVersion now < version ∧
      ∃ cut, after = { wrapper with
        cached := { wrapper.cached with
          evmVersion := {
            cachedValue := wrapper.getEvmVersion now
            pendingValue := some { value := version, time := now } }
          minerCut := cut
          gasPrice := if version = 3 then 0 else wrapper.cached.gasPrice }
        dirty := true } := by
  simp only [setEvmVersion, bind_ok, check_ok, exists_const, pure_ok] at updated
  obtain ⟨supported, empty, priced, newer, promoter, update, rfl⟩ := updated
  obtain ⟨cut, dirty, same⟩ := promoteEvmVersion_eq wrapper now
  obtain ⟨value, visited, rfl⟩ := ValuePromoter.update_ok update
  cases visited
  rw [promoteEvmVersion_fst] at newer
  refine ⟨supported, fun three => empty.resolve_left (not_not.mpr three),
    fun three => priced.resolve_left (not_not.mpr three), newer, cut, ?_⟩
  have kept : ((wrapper.cached.evmVersion.maybePromote wrapper.cached.genesisTime now).1).getValue
      wrapper.cached.genesisTime now = wrapper.getEvmVersion now := by
    rw [← ValuePromoter.cachedValue_maybePromote, ValuePromoter.maybePromote_twice,
      ValuePromoter.cachedValue_maybePromote]
    rfl
  simp only [same, set, kept]

theorem setFeeParameters_eq {fees : FeeParameters} {allowUnspecified : Bool} {now : Nat}
    (updated : wrapper.setFeeParameters fees allowUnspecified now = .ok after) :
    ∃ priced cut fee, wrapper.setFeeGasPrice fees.gasPrice allowUnspecified now = .ok priced ∧
      after = { priced with
        cached := { priced.cached with minerCut := cut, ingressBridgeFee := fee }
        dirty := true } := by
  simp only [setFeeParameters, bind_ok, pure_ok] at updated
  obtain ⟨priced, price, cut, mined, charged, charge, rfl⟩ := updated
  have cutEq : ∃ share, cut = { priced with cached := { priced.cached with minerCut := share } } := by
    simp only [setFeeMinerCut] at mined
    split at mined <;> simp only [bind_ok, check_ok, exists_const, pure_ok] at mined
    · obtain ⟨_, _, rfl⟩ := mined
      exact ⟨_, rfl⟩
    · exact ⟨priced.cached.minerCut, mined.2.symm⟩
  obtain ⟨share, rfl⟩ := cutEq
  simp only [setFeeIngressBridgeFee, setIngressBridgeFee] at charge
  split at charge <;> simp only [bind_ok, check_ok, exists_const, pure_ok] at charge
  · obtain ⟨_, _, _, rfl⟩ := charge
    exact ⟨priced, share, _, price, rfl⟩
  · obtain ⟨_, rfl⟩ := charge
    exact ⟨priced, share, priced.cached.ingressBridgeFee, price, rfl⟩

theorem setFeeGasPrice_ok {gasPrice : Option Nat} {allowUnspecified : Bool} {now : Nat}
    (priced : wrapper.setFeeGasPrice gasPrice allowUnspecified now = .ok after) :
    gasPrice = none ∧ after = wrapper ∨
      ∃ price, gasPrice = some price ∧
        (1 ≤ wrapper.getEvmVersion now ∧ wrapper.getEvmVersion now < 3 ∧
            wrapper.enqueueGasPrice price now = .ok after ∨
          wrapper.getEvmVersion now = 0 ∧ after = wrapper.setGasPrice price) := by
  simp only [setFeeGasPrice] at priced
  split at priced
  · rename_i price
    split at priced
    · cases priced
    · split at priced
      · exact Or.inr ⟨price, rfl, Or.inl ⟨by omega, by omega, priced⟩⟩
      · cases priced
        exact Or.inr ⟨price, rfl, Or.inr ⟨by omega, rfl⟩⟩
  · simp only [bind_ok, check_ok, exists_const, pure_ok] at priced
    exact Or.inl ⟨rfl, priced.2.symm⟩

theorem setFeeParameters_frame {fees : FeeParameters} {allowUnspecified : Bool} {now : Nat}
    (updated : wrapper.setFeeParameters fees allowUnspecified now = .ok after) :
    ∃ price cut fee front priceQueue, after = { wrapper with
      cached := { wrapper.cached with
        gasPrice := price
        minerCut := cut
        ingressBridgeFee := fee
        queueFrontBlock := front }
      dirty := true
      priceQueue := priceQueue } := by
  obtain ⟨priced, cut, fee, price, rfl⟩ := setFeeParameters_eq updated
  rcases setFeeGasPrice_ok price with ⟨_, rfl⟩ | ⟨_, _, ⟨_, _, queued⟩ | ⟨_, rfl⟩⟩
  · exact ⟨_, cut, fee, _, _, rfl⟩
  · obtain ⟨front, dirty, priceQueue, rfl⟩ := enqueueGasPrice_eq queued
    exact ⟨_, cut, fee, front, priceQueue, rfl⟩
  · exact ⟨_, cut, fee, _, _, rfl⟩

theorem updateConsensusParameters2_ok {gasTxnewaccount gasNewaccount gasTxcreate gasCodedeposit gasSset : Option Nat}
    {now : Nat} (updated : wrapper.updateConsensusParameters2 gasTxnewaccount gasNewaccount gasTxcreate
      gasCodedeposit gasSset now = .ok after) :
    1 ≤ wrapper.getEvmVersion now ∧ ∃ parameter, after = { wrapper with
      cached := { wrapper.cached with
        consensusParameter := {
          cachedValue := wrapper.getConsensusParam now
          pendingValue := some { value := parameter, time := now } } }
      dirty := true } := by
  simp only [updateConsensusParameters2, bind_ok, check_ok, exists_const, pure_ok] at updated
  obtain ⟨active, promoter, update, rfl⟩ := updated
  obtain ⟨parameter, _, rfl⟩ := ValuePromoter.update_ok update
  exact ⟨active, parameter, rfl⟩

theorem updateConsensusParameters_ok {ramPriceMb : Asset} {storagePrice now : Nat}
    (updated : wrapper.updateConsensusParameters ramPriceMb storagePrice now = .ok after) :
    ∃ scheduled parameter, scheduled = { wrapper with
        cached := { wrapper.cached with
          consensusParameter := {
            cachedValue := wrapper.getConsensusParam now
            pendingValue := some { value := parameter, time := now } } }
        dirty := true } ∧ 0 < storagePrice ∧ 1 ≤ wrapper.getEvmVersion now ∧
      (3 ≤ wrapper.getEvmVersion now ∧
          scheduled.enqueueGasPrices { storagePrice := some storagePrice } now = .ok after ∨
        wrapper.getEvmVersion now < 3 ∧ scheduled.enqueueGasPrice storagePrice now = .ok after) := by
  simp only [updateConsensusParameters, bind_ok, check_ok, exists_const] at updated
  obtain ⟨_, positive, _, unit, _, perByte, _, scheduled, changed, priced⟩ := updated
  obtain ⟨active, parameter, same⟩ := updateConsensusParameters2_ok changed
  refine ⟨scheduled, parameter, same, positive, active, ?_⟩
  split at priced
  · rename_i three
    exact Or.inl ⟨three, priced⟩
  · rename_i below
    exact Or.inr ⟨by omega, priced⟩

end ConfigWrapper

end EosEvm

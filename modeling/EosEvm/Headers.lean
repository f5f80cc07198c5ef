import EosEvm.PriceQueue
import EosEvm.LedgerCore

/-! One header per EVM block. The header values in effect in a block are a function of
the configuration and the block number; no request changes them for the current block,
except that scheduling version 3 resets the gas price at once. -/

namespace EosEvm

open Abort Schedule

/-- The values of a block header that the configuration determines. -/
structure Header where
  version : Nat
  gasParams : GasParameter
  baseFeePerGas : Option Nat
  prices : Option (Nat × Nat)
  deriving DecidableEq, Repr

/-- The header values a transaction ran under. -/
def Execution.header (execution : Execution) : Header where
  version := execution.version
  gasParams := execution.gasParams
  baseFeePerGas := execution.baseFeePerGas
  prices := if 3 ≤ execution.version then some (execution.overheadPrice, execution.storagePrice) else none

namespace ConfigWrapper

def versionIn (wrapper : ConfigWrapper) (block : Nat) : Nat :=
  wrapper.cached.evmVersion.valueIn wrapper.cached.genesisTime block

def parametersIn (wrapper : ConfigWrapper) (block : Nat) : GasParameter :=
  wrapper.cached.consensusParameter.valueIn wrapper.cached.genesisTime block

def headerIn (wrapper : ConfigWrapper) (block : Nat) : Header where
  version := wrapper.versionIn block
  gasParams := wrapper.parametersIn block
  baseFeePerGas :=
    if 3 ≤ wrapper.versionIn block then some (wrapper.pricesIn block).getBasePrice
    else if 1 ≤ wrapper.versionIn block then some (wrapper.priceIn block)
    else none
  prices :=
    if 3 ≤ wrapper.versionIn block then
      some ((wrapper.pricesIn block).overheadPrice.getD 0, (wrapper.pricesIn block).storagePrice.getD 0)
    else none

/-- The header of a block does not change. -/
structure SameHeader (block : Nat) (before after : ConfigWrapper) : Prop where
  genesisTime : after.cached.genesisTime = before.cached.genesisTime
  header : after.headerIn block = before.headerIn block

variable {wrapper middle after : ConfigWrapper} {block now : Nat}

theorem SameHeader.refl (wrapper : ConfigWrapper) : SameHeader block wrapper wrapper := ⟨rfl, rfl⟩

theorem SameHeader.trans (first : SameHeader block wrapper middle) (second : SameHeader block middle after) :
    SameHeader block wrapper after :=
  ⟨second.genesisTime.trans first.genesisTime, second.header.trans first.header⟩

theorem sameHeader_of (genesisTime : after.cached.genesisTime = wrapper.cached.genesisTime)
    (version : after.versionIn block = wrapper.versionIn block)
    (parameters : after.parametersIn block = wrapper.parametersIn block)
    (price : 1 ≤ wrapper.versionIn block → wrapper.versionIn block < 3 →
      after.priceIn block = wrapper.priceIn block)
    (prices : 3 ≤ wrapper.versionIn block → after.pricesIn block = wrapper.pricesIn block) :
    SameHeader block wrapper after := by
  refine ⟨genesisTime, ?_⟩
  unfold headerIn
  rw [version, parameters]
  by_cases three : 3 ≤ wrapper.versionIn block
  · simp only [if_pos three, prices three]
  · by_cases one : 1 ≤ wrapper.versionIn block
    · simp only [if_neg three, if_pos one, price one (by omega)]
    · simp only [if_neg three, if_neg one]

theorem versionIn_blockNum (wrapper : ConfigWrapper) (now : Nat) :
    wrapper.versionIn (wrapper.blockNum now) = wrapper.getEvmVersion now :=
  (ValuePromoter.getValue_eq_valueIn _ _ _).symm

theorem parametersIn_blockNum (wrapper : ConfigWrapper) (now : Nat) :
    wrapper.parametersIn (wrapper.blockNum now) = wrapper.getConsensusParam now :=
  (ValuePromoter.getValue_eq_valueIn _ _ _).symm

theorem promoteEvmVersion_sameHeader (wrapper : ConfigWrapper) (now : Nat) :
    SameHeader (wrapper.blockNum now) wrapper (wrapper.promoteEvmVersion now).2 := by
  obtain ⟨cut, dirty, same⟩ := promoteEvmVersion_eq wrapper now
  rw [same]
  exact sameHeader_of rfl (ValuePromoter.valueIn_maybePromote _ _ _ (Nat.le_refl _)) rfl (fun _ _ => rfl) (fun _ => rfl)

theorem promoteConsensusParam_sameHeader (wrapper : ConfigWrapper) (now : Nat) :
    SameHeader (wrapper.blockNum now) wrapper (wrapper.promoteConsensusParam now).2.2 := by
  obtain ⟨dirty, same⟩ := promoteConsensusParam_eq wrapper now
  rw [same]
  exact sameHeader_of rfl rfl (ValuePromoter.valueIn_maybePromote _ _ _ (Nat.le_refl _)) (fun _ _ => rfl) (fun _ => rfl)

theorem effective_of_drained {ν σ : Type} (apply : σ → ν → σ) {queue rest : Table Nat ν} {front frontAfter : Nat}
    (drained : Drained block queue rest front frontAfter) (start : σ) : effective apply block start rest = start := by
  apply effective_of_later
  rw [drained.queue]
  intro row member
  simpa using (List.mem_filter.mp member).2

theorem priceIn_of_settled (settled : effective (fun _ price => price) block wrapper.cached.gasPrice
    wrapper.priceQueue = wrapper.cached.gasPrice) : wrapper.priceIn block = wrapper.cached.gasPrice := by
  unfold priceIn
  split
  · rfl
  · exact settled

theorem pricesIn_of_settled (settled : effective GasPrices.updated block wrapper.cached.gasPrices
    wrapper.pricesQueue = wrapper.cached.gasPrices) : wrapper.pricesIn block = wrapper.cached.gasPrices := by
  unfold pricesIn
  split
  · rfl
  · exact settled

theorem processGasPriceQueue_priceIn (wrapper : ConfigWrapper) (now : Nat) :
    (wrapper.processGasPriceQueue now).priceIn (wrapper.blockNum now) = wrapper.priceIn (wrapper.blockNum now) ∧
      (wrapper.processGasPriceQueue now).cached.gasPrice = wrapper.priceIn (wrapper.blockNum now) := by
  by_cases idle : wrapper.idleIn (wrapper.blockNum now)
  · rw [processGasPriceQueue_idle idle]
    exact ⟨rfl, (if_pos idle).symm⟩
  · obtain ⟨front, dirty, queue, same, drained⟩ := processGasPriceQueue_busy idle
    rw [same]
    exact ⟨priceIn_of_settled (effective_of_drained _ drained _), rfl⟩

theorem processGasPricesQueue_pricesIn (wrapper : ConfigWrapper) (now : Nat) :
    (wrapper.processGasPricesQueue now).pricesIn (wrapper.blockNum now) = wrapper.pricesIn (wrapper.blockNum now) ∧
      (wrapper.processGasPricesQueue now).cached.gasPrices = wrapper.pricesIn (wrapper.blockNum now) := by
  by_cases idle : wrapper.idleIn (wrapper.blockNum now)
  · rw [processGasPricesQueue_idle idle]
    exact ⟨rfl, (if_pos idle).symm⟩
  · obtain ⟨front, dirty, queue, same, drained⟩ := processGasPricesQueue_busy idle
    rw [same]
    exact ⟨pricesIn_of_settled (effective_of_drained _ drained _), rfl⟩

theorem refresh_prices (wrapper : ConfigWrapper) (now : Nat) :
    (1 ≤ wrapper.getEvmVersion now → wrapper.getEvmVersion now < 3 →
        (wrapper.refresh now).priceIn (wrapper.blockNum now) = wrapper.priceIn (wrapper.blockNum now) ∧
        (wrapper.refresh now).cached.gasPrice = wrapper.priceIn (wrapper.blockNum now)) ∧
      (3 ≤ wrapper.getEvmVersion now →
        (wrapper.refresh now).pricesIn (wrapper.blockNum now) = wrapper.pricesIn (wrapper.blockNum now) ∧
        (wrapper.refresh now).cached.gasPrices = wrapper.pricesIn (wrapper.blockNum now)) := by
  refine ⟨fun one below => ?_, fun three => ?_⟩
  · rw [refresh, if_pos one, processPriceQueue, if_neg (by omega)]
    exact processGasPriceQueue_priceIn wrapper now
  · rw [refresh, if_pos (by omega), processPriceQueue, if_pos three]
    exact processGasPricesQueue_pricesIn wrapper now

theorem refresh_sameHeader (wrapper : ConfigWrapper) (now : Nat) :
    SameHeader (wrapper.blockNum now) wrapper (wrapper.refresh now) := by
  obtain ⟨price, prices⟩ := refresh_prices wrapper now
  obtain ⟨_, _, _, _, _, _, same⟩ := refresh_eq wrapper now
  rw [← versionIn_blockNum] at price prices
  refine sameHeader_of ?_ ?_ ?_ (fun one below => (price one below).1) (fun three => (prices three).1)
  · rw [same]
  · rw [same]
    rfl
  · rw [same]
    rfl

theorem enqueueRow_keeps {ν σ : Type} [DecidableEq ν] (apply : σ → ν → σ) {queue rest : Table Nat ν}
    {front activation : Nat} {value : ν} {newFront : Option Nat} (later : block < activation)
    (queued : enqueueRow queue front activation value = .ok (rest, newFront)) (start : σ) :
    effective apply block start rest = effective apply block start queue ∧
      (newFront.getD front = 0 ∨ block < newFront.getD front ↔ front = 0 ∨ block < front) := by
  rcases enqueueRow_ok queued with ⟨_, _, rfl, rfl⟩ | ⟨_, _, _, rfl, rfl⟩ | ⟨_, rfl, rfl⟩
  · exact ⟨rfl, Iff.rfl⟩
  · exact ⟨effective_modify_later apply later start queue _, Iff.rfl⟩
  · refine ⟨effective_put_later apply later start queue value, ?_⟩
    split
    · rename_i empty
      simp [empty, later]
    · rfl

theorem priceIn_congr (idle : after.idleIn block ↔ wrapper.idleIn block)
    (price : after.cached.gasPrice = wrapper.cached.gasPrice)
    (queued : effective (fun _ price => price) block after.cached.gasPrice after.priceQueue =
      effective (fun _ price => price) block wrapper.cached.gasPrice wrapper.priceQueue) :
    after.priceIn block = wrapper.priceIn block := by
  unfold priceIn
  by_cases quiet : wrapper.idleIn block
  · rw [if_pos quiet, if_pos (idle.mpr quiet), price]
  · rw [if_neg quiet, if_neg (mt idle.mp quiet), queued]

theorem pricesIn_congr (idle : after.idleIn block ↔ wrapper.idleIn block)
    (prices : after.cached.gasPrices = wrapper.cached.gasPrices)
    (queued : effective GasPrices.updated block after.cached.gasPrices after.pricesQueue =
      effective GasPrices.updated block wrapper.cached.gasPrices wrapper.pricesQueue) :
    after.pricesIn block = wrapper.pricesIn block := by
  unfold pricesIn
  by_cases quiet : wrapper.idleIn block
  · rw [if_pos quiet, if_pos (idle.mpr quiet), prices]
  · rw [if_neg quiet, if_neg (mt idle.mp quiet), queued]

theorem enqueueGasPrice_sameHeader {gasPrice : Nat} (below : wrapper.getEvmVersion now < 3)
    (queued : wrapper.enqueueGasPrice gasPrice now = .ok after) :
    SameHeader (wrapper.blockNum now) wrapper after := by
  have versionBelow : ¬ 3 ≤ wrapper.versionIn (wrapper.blockNum now) := by
    rw [versionIn_blockNum]
    omega
  simp only [enqueueGasPrice] at queued
  split at queued
  · cases queued
    exact SameHeader.refl _
  · simp only [bind_ok, pure_ok] at queued
    obtain ⟨⟨queue, front⟩, row, rfl⟩ := queued
    obtain ⟨dirty, same⟩ := setQueueFrontBlock_eq { wrapper with priceQueue := queue } front
    obtain ⟨kept, idle⟩ := enqueueRow_keeps (fun _ price => price)
      (lt_activationBlockNum wrapper.cached.genesisTime now) row wrapper.cached.gasPrice
    rw [same]
    exact sameHeader_of rfl rfl rfl (fun _ _ => priceIn_congr idle rfl kept)
      (fun three => absurd three versionBelow)

theorem enqueueGasPrices_sameHeader {prices : GasPrices} (active : 3 ≤ wrapper.getEvmVersion now)
    (queued : wrapper.enqueueGasPrices prices now = .ok after) :
    SameHeader (wrapper.blockNum now) wrapper after := by
  have versionActive : ¬ wrapper.versionIn (wrapper.blockNum now) < 3 := by
    rw [versionIn_blockNum]
    omega
  simp only [enqueueGasPrices] at queued
  split at queued
  · cases queued
    exact SameHeader.refl _
  · simp only [bind_ok, pure_ok] at queued
    obtain ⟨⟨queue, front⟩, row, rfl⟩ := queued
    obtain ⟨dirty, same⟩ := setQueueFrontBlock_eq { wrapper with pricesQueue := queue } front
    obtain ⟨kept, idle⟩ := enqueueRow_keeps GasPrices.updated
      (lt_activationBlockNum wrapper.cached.genesisTime now) row wrapper.cached.gasPrices
    rw [same]
    exact sameHeader_of rfl rfl rfl (fun _ below => absurd below versionActive)
      (fun _ => pricesIn_congr idle rfl kept)

theorem setEvmVersion_sameHeader {version : Nat}
    (keeps : version = 3 → wrapper.getEvmVersion now = 0 ∨ wrapper.cached.gasPrice = 0)
    (updated : wrapper.setEvmVersion version now = .ok after) :
    SameHeader (wrapper.blockNum now) wrapper after := by
  obtain ⟨_, empty, _, _, cut, rfl⟩ := setEvmVersion_ok updated
  refine sameHeader_of rfl ?_ rfl (fun one _ => ?_) (fun _ => rfl)
  · exact (ValuePromoter.valueIn_scheduled _ version wrapper.cached.genesisTime now).trans
      (versionIn_blockNum wrapper now).symm
  · by_cases three : version = 3
    · rw [versionIn_blockNum] at one
      have zero : wrapper.cached.gasPrice = 0 := (keeps three).resolve_left (by omega)
      have front := empty three
      simp [priceIn, idleIn, three, zero, front]
    · simp only [if_neg three]
      rfl

theorem scheduleParameters_sameHeader (wrapper : ConfigWrapper) (now : Nat) (parameter : GasParameter) (dirty : Bool) :
    SameHeader (wrapper.blockNum now) wrapper { wrapper with
      cached := { wrapper.cached with
        consensusParameter := {
          cachedValue := wrapper.getConsensusParam now
          pendingValue := some { value := parameter, time := now } } }
      dirty := dirty } :=
  sameHeader_of rfl rfl
    ((ValuePromoter.valueIn_scheduled _ parameter wrapper.cached.genesisTime now).trans
      (parametersIn_blockNum wrapper now).symm)
    (fun _ _ => rfl) (fun _ => rfl)

theorem setFeeParameters_sameHeader {fees : FeeParameters} {allowUnspecified : Bool}
    (updated : wrapper.setFeeParameters fees allowUnspecified now = .ok after) :
    SameHeader (wrapper.blockNum now) wrapper after := by
  obtain ⟨priced, cut, fee, price, rfl⟩ := setFeeParameters_eq updated
  have kept : SameHeader (wrapper.blockNum now) wrapper priced := by
    rcases setFeeGasPrice_ok price with ⟨_, rfl⟩ | ⟨_, _, ⟨_, below, queued⟩ | ⟨zero, rfl⟩⟩
    · exact SameHeader.refl _
    · exact enqueueGasPrice_sameHeader below queued
    · refine sameHeader_of rfl rfl rfl (fun one _ => ?_) (fun _ => rfl)
      rw [versionIn_blockNum] at one
      omega
  exact kept.trans (sameHeader_of rfl rfl rfl (fun _ _ => rfl) (fun _ => rfl))

theorem Configures.sameHeader {requested : Action} (configures : wrapper.Configures now requested after)
    (keeps : requested = .setversion 3 → wrapper.getEvmVersion now = 0 ∨ wrapper.cached.gasPrice = 0) :
    SameHeader (wrapper.blockNum now) wrapper after := by
  cases configures with
  | setfeeparams fees after updated => exact setFeeParameters_sameHeader updated
  | freeze | setgaslimit => exact sameHeader_of rfl rfl rfl (fun _ _ => rfl) (fun _ => rfl)
  | setversion version after updated =>
      exact setEvmVersion_sameHeader (fun three => keeps (by rw [three])) updated
  | updtgasparam ramPriceMb storagePrice after updated =>
      obtain ⟨scheduled, parameter, rfl, _, _, ⟨active, queued⟩ | ⟨below, queued⟩⟩ :=
        updateConsensusParameters_ok updated
      · exact (scheduleParameters_sameHeader wrapper now parameter true).trans
          (enqueueGasPrices_sameHeader (by exact active) queued)
      · exact (scheduleParameters_sameHeader wrapper now parameter true).trans
          (enqueueGasPrice_sameHeader (by exact below) queued)
  | setgasparam _ _ _ _ _ after updated =>
      obtain ⟨_, parameter, rfl⟩ := updateConsensusParameters2_ok updated
      exact scheduleParameters_sameHeader wrapper now parameter true
  | enqueued prices after active queued =>
      have promoted := promoteEvmVersion_sameHeader wrapper now
      have kept := enqueueGasPrices_sameHeader (by rw [getEvmVersion_promoteEvmVersion]; simpa using active) queued
      have sameBlock : ((wrapper.promoteEvmVersion now).2).blockNum now = wrapper.blockNum now := by
        rw [blockNum, promoted.genesisTime]
        rfl
      rw [sameBlock] at kept
      exact promoted.trans kept
  | replaced prices inactive =>
      have promoted := promoteEvmVersion_sameHeader wrapper now
      refine promoted.trans (sameHeader_of rfl rfl rfl (fun _ _ => rfl) (fun three => ?_))
      have version : ((wrapper.promoteEvmVersion now).2).versionIn (wrapper.blockNum now) =
          wrapper.getEvmVersion now := (congrArg Header.version promoted.header).trans (versionIn_blockNum wrapper now)
      rw [version, ← promoteEvmVersion_fst] at three
      exact absurd three inactive

theorem SameHeader.blockNum (same : SameHeader block wrapper after) (now : Nat) :
    after.blockNum now = wrapper.blockNum now := by
  rw [ConfigWrapper.blockNum, same.genesisTime]
  rfl

theorem started_sameHeader (started : middle = wrapper ∨ middle = (wrapper.promoteEvmVersion now).2) :
    SameHeader (wrapper.blockNum now) wrapper middle := by
  rcases started with rfl | rfl
  · exact SameHeader.refl _
  · exact promoteEvmVersion_sameHeader wrapper now

theorem Updates.sameHeader (updates : wrapper.Updates now after) :
    SameHeader (wrapper.blockNum now) wrapper after := by
  have refreshed := refresh_sameHeader wrapper now
  cases updates with
  | same => exact SameHeader.refl _
  | refreshed => exact refreshed
  | promoted => exact refreshed.trans (refreshed.blockNum now ▸ promoteEvmVersion_sameHeader _ now)

end ConfigWrapper

theorem Transacts.sameHeader {env : Env} {start after : ConfigWrapper} {effects : List Effect} {sender : Address}
    {nonce : Nat} (transacted : Transacts env (start.refresh env.now) after effects sender nonce) :
    ConfigWrapper.SameHeader (start.blockNum env.now) start after ∧
      ∀ execution, .ran execution ∈ effects →
        execution.time = env.now ∧ execution.header = start.headerIn (start.blockNum env.now) := by
  obtain ⟨config, payments, rlptx, effectsEq, paid⟩ := transacted
  have refreshed := ConfigWrapper.refresh_sameHeader start env.now
  have promoted := ConfigWrapper.promoteEvmVersion_sameHeader (start.refresh env.now) env.now
  rw [refreshed.blockNum] at promoted
  have whole := refreshed.trans promoted
  obtain ⟨cut, dirty, promotedEq⟩ := ConfigWrapper.promoteEvmVersion_eq (start.refresh env.now) env.now
  have parametrised := ConfigWrapper.promoteConsensusParam_sameHeader
    ((start.refresh env.now).promoteEvmVersion env.now).2 env.now
  rw [whole.blockNum] at parametrised
  obtain ⟨dirtyAfter, parametrisedEq⟩ := ConfigWrapper.promoteConsensusParam_eq
    ((start.refresh env.now).promoteEvmVersion env.now).2 env.now
  refine ⟨config ▸ whole.trans parametrised, ?_⟩
  intro execution member
  rw [effectsEq] at member
  have same : execution = after.execution env.now ((start.refresh env.now).getEvmVersion env.now)
      (((start.refresh env.now).promoteEvmVersion env.now).2.getConsensusParam env.now) sender nonce := by
    rcases List.mem_append.mp member with sent | last
    · obtain ⟨_, _, ⟨⟩⟩ := List.mem_map.mp sent
    · exact Effect.ran.inj (List.mem_singleton.mp last)
  refine ⟨by rw [same]; rfl, ?_⟩
  have version : (start.refresh env.now).getEvmVersion env.now = start.versionIn (start.blockNum env.now) := by
    rw [← ConfigWrapper.versionIn_blockNum, refreshed.blockNum]
    exact congrArg Header.version refreshed.header
  have parameters : ((start.refresh env.now).promoteEvmVersion env.now).2.getConsensusParam env.now =
      start.parametersIn (start.blockNum env.now) := by
    rw [← ConfigWrapper.parametersIn_blockNum, whole.blockNum]
    exact congrArg Header.gasParams whole.header
  obtain ⟨price, prices⟩ := ConfigWrapper.refresh_prices start env.now
  rw [← ConfigWrapper.versionIn_blockNum] at price prices
  have gasPrice : after.cached.gasPrice = (start.refresh env.now).cached.gasPrice := by
    rw [config, parametrisedEq, promotedEq]
  have gasPrices : after.cached.gasPrices = (start.refresh env.now).cached.gasPrices := by
    rw [config, parametrisedEq, promotedEq]
  rw [same]
  simp only [Execution.header, ConfigWrapper.execution, ConfigWrapper.headerIn, version, parameters, gasPrices,
    ConfigWrapper.getGasPrice, gasPrice]
  by_cases three : 3 ≤ start.versionIn (start.blockNum env.now)
  · have one : 1 ≤ start.versionIn (start.blockNum env.now) := by omega
    simp only [if_pos three, if_pos one, (prices three).2]
  · by_cases one : 1 ≤ start.versionIn (start.blockNum env.now)
    · simp only [if_neg three, if_pos one, (price one (by omega)).2]
    · simp only [if_neg three, if_neg one]

/-- The request does not reset a gas price that is in effect. -/
def keepsBasePrice (world : World) : Request → Bool
  | .action _ _ (.setversion 3) =>
      world.config.getEvmVersion world.now == 0 || world.config.cached.gasPrice == 0
  | _ => true

theorem Reconfigures.sameHeader {env : Env} {before after : ConfigWrapper} {request : Request}
    {effects : List Effect} (reconfigured : Reconfigures env before request after effects)
    (keeps : ∀ caller auths, request = .action caller auths (.setversion 3) →
      before.getEvmVersion env.now = 0 ∨ before.cached.gasPrice = 0) :
    before.stored = false ∧ (∀ execution, .ran execution ∉ effects) ∨
      ConfigWrapper.SameHeader (before.blockNum env.now) before after ∧
        ∀ execution, .ran execution ∈ effects → before.stored = true ∧
          execution.time = env.now ∧ execution.header = before.headerIn (before.blockNum env.now) := by
  have quietly : ∀ effects : List Effect, (∀ effect ∈ effects, effect.isQuiet = true) →
      ∀ execution, .ran execution ∉ effects := fun _ quiet execution member => by cases quiet _ member
  cases reconfigured with
  | starts _ _ _ _ _ _ _ unstored => exact Or.inl ⟨unstored, fun _ member => by cases member⟩
  | sets caller auths requested after configured =>
      refine Or.inr ⟨configured.sameHeader ?_, fun _ member => by cases member⟩
      rintro rfl
      exact keeps caller auths rfl
  | swaps _ _ _ _ _ _ _ quiet =>
      exact Or.inr ⟨ConfigWrapper.sameHeader_of rfl rfl rfl (fun _ _ => rfl) (fun _ => rfl),
        fun execution member => absurd member (quietly _ quiet execution)⟩
  | updates _ start after _ started updated quiet =>
      have begun := ConfigWrapper.started_sameHeader started
      have kept := updated.sameHeader
      rw [begun.blockNum] at kept
      exact Or.inr ⟨begun.trans kept, fun execution member => absurd member (quietly _ quiet execution)⟩
  | transacts _ start after _ _ _ ready started transacted =>
      have begun := ConfigWrapper.started_sameHeader started
      obtain ⟨kept, ran⟩ := transacted.sameHeader
      rw [begun.blockNum] at kept ran
      refine Or.inr ⟨begun.trans kept, ?_⟩
      intro execution member
      obtain ⟨time, header⟩ := ran execution member
      exact ⟨ready, time, header.trans begun.header⟩

/-- The transactions of a block ran under one header, which for the current block is the
one the configuration determines. -/
structure World.OneHeader (world : World) : Prop where
  stored : ∀ execution, .ran execution ∈ world.history → world.config.stored = true
  past : ∀ execution, .ran execution ∈ world.history → execution.time ≤ world.now
  current : ∀ execution, .ran execution ∈ world.history →
    world.config.blockNum execution.time = world.config.blockNum world.now →
      execution.header = world.config.headerIn (world.config.blockNum world.now)
  agree : ∀ first second, .ran first ∈ world.history → .ran second ∈ world.history →
    world.config.blockNum first.time = world.config.blockNum second.time → first.header = second.header

theorem World.OneHeader.tick {world : World} (one : world.OneHeader) {now : Nat} (later : world.now ≤ now) :
    ({ world with now := now } : World).OneHeader where
  stored := one.stored
  past execution ran := (one.past execution ran).trans later
  agree := one.agree
  current execution ran same := by
    change world.config.blockNum execution.time = world.config.blockNum now at same
    change execution.header = world.config.headerIn (world.config.blockNum now)
    -- the block of the transaction is the new one, so it was the block before the tick too
    have lower : world.config.blockNum execution.time ≤ world.config.blockNum world.now :=
      timestampToEvmBlockNum_mono _ (one.past execution ran)
    have upper : world.config.blockNum world.now ≤ world.config.blockNum now := timestampToEvmBlockNum_mono _ later
    have kept : world.config.blockNum world.now = world.config.blockNum now := by omega
    rw [← kept]
    exact one.current execution ran (same.trans kept.symm)

theorem World.OneHeader.handled {host : Host} {world : World} {view : ChainView} {before after : List Request}
    {request : Request} {rest : List Pending} {holding : Name → Symbol → Nat} {contract : Contract}
    (one : world.OneHeader) (keeps : keepsBasePrice world request = true)
    (handled : Handled host view before after request rest holding contract world) :
    (world.handled before after request rest holding contract).OneHeader := by
  obtain ⟨reconfigured, reloaded⟩ := handled.reconfigures
  rcases reconfigured.sameHeader (by
      rintro caller auths rfl
      simpa [keepsBasePrice] using keeps) with ⟨unstored, silent⟩ | ⟨same, ran⟩
  · -- nothing ran before `init`
    have none : ∀ execution, .ran execution ∉ world.history ++ contract.effects := by
      intro execution member
      rcases List.mem_append.mp member with old | new
      · rw [one.stored execution old] at unstored
        cases unstored
      · exact silent execution new
    exact ⟨fun execution member => absurd member (none execution), fun execution member => absurd member (none execution),
      fun execution member => absurd member (none execution),
      fun first _ member => absurd member (none first)⟩
  · have blocks : ∀ time, (world.handled before after request rest holding contract).config.blockNum time =
        world.config.blockNum time := by
      intro time
      rw [reloaded]
      exact same.blockNum time
    have header : (world.handled before after request rest holding contract).config.headerIn
        (world.config.blockNum world.now) = world.config.headerIn (world.config.blockNum world.now) := by
      rw [reloaded]
      exact same.header
    have current : ∀ execution, .ran execution ∈ world.history ++ contract.effects →
        world.config.blockNum execution.time = world.config.blockNum world.now →
          execution.header = world.config.headerIn (world.config.blockNum world.now) := by
      intro execution member inBlock
      rcases List.mem_append.mp member with old | new
      · exact one.current execution old inBlock
      · exact (ran execution new).2.2
    have past : ∀ execution, .ran execution ∈ world.history ++ contract.effects →
        execution.time ≤ world.now ∧ world.config.stored = true := by
      intro execution member
      rcases List.mem_append.mp member with old | new
      · exact ⟨one.past execution old, one.stored execution old⟩
      · exact ⟨le_of_eq (ran execution new).2.1, (ran execution new).1⟩
    refine ⟨?_, fun execution member => (past execution member).1, ?_, ?_⟩
    · intro execution member
      rw [reloaded, (past execution member).2]
      exact Bool.or_true _
    · intro execution member inBlock
      rw [blocks, blocks] at inBlock
      rw [blocks]
      exact (current execution member inBlock).trans header.symm
    · intro first second firstRan secondRan together
      rw [blocks, blocks] at together
      rcases List.mem_append.mp firstRan with firstOld | firstNew
      · rcases List.mem_append.mp secondRan with secondOld | secondNew
        · exact one.agree first second firstOld secondOld together
        · rw [(ran second secondNew).2.1] at together
          exact (current first firstRan together).trans (ran second secondNew).2.2.symm
      · rw [(ran first firstNew).2.1] at together
        exact (ran first firstNew).2.2.trans (current second secondRan together.symm).symm

theorem World.OneHeader.step {host : Host} {world next : World} {label : Label} (one : world.OneHeader)
    (stepped : Stepped host world label next)
    (keeps : ∀ view before after request rest holding contract, label = .next view before after →
      Handled host view before after request rest holding contract world → keepsBasePrice world request = true) :
    next.OneHeader := by
  cases stepped with
  | tick _ _ later => exact one.tick later
  | submit | passed => exact ⟨one.stored, one.past, one.current, one.agree⟩
  | handled view before after request rest holding contract handled =>
      exact one.handled (keeps view before after request rest holding contract rfl handled) handled

/-- In every run in which version 3 is not scheduled while version 1 or 2 is in effect with a
gas price, the transactions of an EVM block use one version, one set of gas parameters,
one base fee, and from version 3 on one overhead and one storage price. -/
theorem run_oneHeader (host : Host) (holding : Name → Symbol → Nat) (labels : List Label) (world : World)
    (keeps : guarded host keepsBasePrice labels (World.start holding) = true)
    (finished : run host labels (World.start holding) = .ok world) :
    ∀ first second, .ran first ∈ world.history → .ran second ∈ world.history →
      timestampToEvmBlockNum world.config.cached.genesisTime first.time =
        timestampToEvmBlockNum world.config.cached.genesisTime second.time →
      first.version = second.version ∧ first.gasParams = second.gasParams ∧
        (1 ≤ first.version → first.baseFeePerGas = second.baseFeePerGas) ∧
        (3 ≤ first.version → first.overheadPrice = second.overheadPrice ∧
          first.storagePrice = second.storagePrice) := by
  have start : (World.start holding).OneHeader :=
    ⟨fun _ member => (by cases member), fun _ member => (by cases member), fun _ member => (by cases member),
      fun _ _ member => (by cases member)⟩
  have one : world.OneHeader := run_guarded World.OneHeader
    (fun _ _ _ one stepped keeps => one.step stepped keeps) start keeps finished
  intro first second firstRan secondRan together
  have same := one.agree first second firstRan secondRan together
  obtain ⟨version, gasParams, baseFee, prices⟩ := Header.mk.inj same
  refine ⟨version, gasParams, fun _ => baseFee, ?_⟩
  intro three
  rw [if_pos three, if_pos (version ▸ three)] at prices
  exact Prod.mk.inj (Option.some.inj prices)

def Ledger.resetPrice : List Label :=
  Ledger.versionOne ++ Ledger.act Ledger.self (.setgasprices ⟨some 100, some 100⟩) 0 ++
    Ledger.act Ledger.alice (Ledger.callNothing Ledger.alice 21000) 1 ++ Ledger.act Ledger.self (.setversion 3) 0 ++
    Ledger.act Ledger.alice (Ledger.callNothing Ledger.alice 21000) 1

def Ledger.secondBlock (nonce baseFee : Nat) : Execution where
  time := 1001000000
  sender := makeReservedAddress Ledger.alice
  nonce := nonce
  version := 1
  gasParams := {}
  baseFeePerGas := some baseFee
  overheadPrice := 100
  storagePrice := 100

/-- The second transaction runs in the same block and version with another base fee. -/
theorem resetPrice_twoFees :
    ∃ world first second, run Ledger.host Ledger.resetPrice (World.start fun _ _ => 0) = .ok world ∧
      .ran first ∈ world.history ∧ .ran second ∈ world.history ∧
      timestampToEvmBlockNum world.config.cached.genesisTime first.time =
        timestampToEvmBlockNum world.config.cached.genesisTime second.time ∧
      1 ≤ first.version ∧ first.version = second.version ∧ first.baseFeePerGas ≠ second.baseFeePerGas := by
  obtain ⟨world, finished, seen⟩ := exists_of_view
    (run Ledger.host Ledger.resetPrice (World.start fun _ _ => 0))
    (fun world => (decide (.ran (Ledger.secondBlock 0 150000000000) ∈ world.history),
      decide (.ran (Ledger.secondBlock 1 0) ∈ world.history)))
    (true, true) (by decide +kernel)
  obtain ⟨first, second⟩ := Prod.mk.inj seen
  exact ⟨world, _, _, finished, of_decide_eq_true first, of_decide_eq_true second, rfl, by decide, rfl, by decide⟩

theorem run_oneHeader_twoCalls :
    ∃ world, run Ledger.host (Ledger.versionOne ++ Ledger.act Ledger.self (.setgasprices ⟨some 100, some 100⟩) 0 ++
        Ledger.act Ledger.alice (Ledger.callNothing Ledger.alice 21000) 1 ++
        Ledger.act Ledger.self (.setfeeparams ⟨some 160000000000, none, none⟩) 0 ++
        Ledger.act Ledger.alice (Ledger.callNothing Ledger.alice 21000) 1) (World.start fun _ _ => 0) = .ok world ∧
      .ran (Ledger.secondBlock 0 150000000000) ∈ world.history ∧
      .ran (Ledger.secondBlock 1 150000000000) ∈ world.history ∧
      ∀ first second, .ran first ∈ world.history → .ran second ∈ world.history →
        timestampToEvmBlockNum world.config.cached.genesisTime first.time =
          timestampToEvmBlockNum world.config.cached.genesisTime second.time →
        first.version = second.version ∧ first.gasParams = second.gasParams ∧
          (1 ≤ first.version → first.baseFeePerGas = second.baseFeePerGas) ∧
          (3 ≤ first.version → first.overheadPrice = second.overheadPrice ∧
            first.storagePrice = second.storagePrice) := by
  obtain ⟨world, finished, seen⟩ := exists_of_view
    (run Ledger.host (Ledger.versionOne ++ Ledger.act Ledger.self (.setgasprices ⟨some 100, some 100⟩) 0 ++
      Ledger.act Ledger.alice (Ledger.callNothing Ledger.alice 21000) 1 ++
      Ledger.act Ledger.self (.setfeeparams ⟨some 160000000000, none, none⟩) 0 ++
      Ledger.act Ledger.alice (Ledger.callNothing Ledger.alice 21000) 1) (World.start fun _ _ => 0))
    (fun world => (decide (.ran (Ledger.secondBlock 0 150000000000) ∈ world.history),
      decide (.ran (Ledger.secondBlock 1 150000000000) ∈ world.history)))
    (true, true) (by decide +kernel)
  obtain ⟨first, second⟩ := Prod.mk.inj seen
  exact ⟨world, finished, of_decide_eq_true first, of_decide_eq_true second,
    run_oneHeader Ledger.host _ _ world (by decide +kernel) finished⟩

end EosEvm

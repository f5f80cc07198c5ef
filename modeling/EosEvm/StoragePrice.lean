import EosEvm.PricesSchedule
import EosEvm.Calls

/-! Version 3 never runs with a base price of zero. The storage price is checked when the version
is requested; from then on it is only replaced, and never by zero. -/

namespace EosEvm

open Abort Schedule

namespace GasPrices

variable {prices update : GasPrices}

def Positive (prices : GasPrices) : Prop := prices.storagePrice ≠ some 0

def Stored (prices : GasPrices) : Prop := prices.storagePrice ≠ none

theorem Positive.updated (positive : prices.Positive) (also : update.Positive) : (prices.updated update).Positive := by
  unfold Positive at positive also ⊢
  simp only [GasPrices.updated]
  cases change : update.storagePrice with
  | none => exact positive
  | some price =>
      rw [change] at also
      exact also

theorem Stored.updated (stored : prices.Stored) (update : GasPrices) : (prices.updated update).Stored := by
  unfold Stored at stored ⊢
  simp only [GasPrices.updated]
  cases update.storagePrice with
  | none => exact stored
  | some price => exact Option.some_ne_none price

theorem Positive.basePrice (positive : prices.Positive) (stored : prices.Stored) : 1 ≤ prices.getBasePrice := by
  obtain ⟨price, found⟩ := Option.ne_none_iff_exists'.mp stored
  have nonzero : price ≠ 0 := fun zero => positive (by rw [found, zero])
  have above : price ≤ prices.getBasePrice := by
    rw [getBasePrice, found]
    exact Nat.le_max_right _ _
  omega

end GasPrices

namespace ValuePromoter

variable {α : Type} {value : α}

def values (promoter : ValuePromoter α) : List α :=
  promoter.cachedValue :: (promoter.pendingValue.map PendingValue.value).toList

theorem valueIn_mem (promoter : ValuePromoter α) (genesisTime block : Nat) :
    promoter.valueIn genesisTime block ∈ promoter.values := by
  cases pending : promoter.pendingValue with
  | none => simp [valueIn, values, pending]
  | some found =>
      simp only [valueIn, values, pending]
      split <;> simp

theorem mem_values_maybePromote {promoter : ValuePromoter α} {genesisTime now : Nat}
    (member : value ∈ (promoter.maybePromote genesisTime now).1.values) : value ∈ promoter.values := by
  simp only [maybePromote] at member
  split at member
  · simp only [promotePending] at member
    split at member
    · rename_i pending found
      simp only [values, Option.map_none, Option.toList_none, List.mem_singleton] at member
      simp [values, found, member]
    · exact member
  · exact member

end ValuePromoter

theorem ConfigWrapper.mem_enqueueRow {ν : Type} [DecidableEq ν] {queue after : Table Nat ν} {front activation : Nat}
    {value : ν} {newFront : Option Nat} (queued : enqueueRow queue front activation value = .ok (after, newFront))
    {row : Nat × ν} (member : row ∈ after.rows) : row ∈ queue.rows ∨ row.2 = value := by
  rcases enqueueRow_ok queued with ⟨_, _, rfl, _⟩ | ⟨_, _, _, rfl, _⟩ | ⟨last, rfl, _⟩
  · exact Or.inl member
  · obtain ⟨original, inside, rfl⟩ := List.mem_map.mp member
    split
    · exact Or.inr rfl
    · exact Or.inl inside
  · rw [Table.rows_put_last queue activation value last] at member
    rcases List.mem_append.mp member with old | new
    · exact Or.inl old
    · exact Or.inr (congrArg Prod.snd (List.mem_singleton.mp new))

namespace Pricing

variable {pricing middle after : Pricing} {now : Nat} {request : Request}

/-- No storage price is zero, and there is one as soon as version 3 is requested. -/
structure Stocked (pricing : Pricing) : Prop where
  prices : pricing.gasPrices.Positive
  listed : ∀ row ∈ pricing.pricesQueue.rows, row.2.Positive
  three : 3 ∈ pricing.evmVersion.values → pricing.gasPrices.Stored

theorem Advances.stored (stored : pricing.gasPrices.Stored) (advances : pricing.Advances now after) :
    after.gasPrices.Stored := by
  cases advances with
  | promotes | takesPrice => exact stored
  | takesPrices => exact effective_invariant _ GasPrices.Stored (fun _ row _ held => held.updated row.2) _ stored

theorem Stocked.advances (stocked : pricing.Stocked) (advances : pricing.Advances now after) : after.Stocked := by
  have stored := fun held => advances.stored held
  cases advances with
  | promotes =>
      exact ⟨stocked.prices, stocked.listed, fun three => stocked.three (ValuePromoter.mem_values_maybePromote three)⟩
  | takesPrice => exact ⟨stocked.prices, stocked.listed, stocked.three⟩
  | takesPrices front queue active waiting reached drained =>
      refine ⟨?_, ?_, fun three => stored (stocked.three three)⟩
      · exact effective_invariant _ GasPrices.Positive
          (fun _ row member held => held.updated (stocked.listed row member)) _ stocked.prices
      · rw [drained.queue]
        exact fun row member => stocked.listed row (List.mem_filter.mp member).1

theorem Advanced.stored (advanced : pricing.Advanced now middle) (stored : pricing.gasPrices.Stored) :
    middle.gasPrices.Stored := by
  induction advanced with
  | refl => exact stored
  | tail _ advances ih => exact advances.stored ih

theorem Advanced.stocked (advanced : pricing.Advanced now middle) (stocked : pricing.Stocked) : middle.Stocked := by
  induction advanced with
  | refl => exact stocked
  | tail _ advances ih => exact ih.advances advances

theorem Stocked.accepts (stocked : pricing.Stocked)
    (positive : ∀ prices, request.newGasPrices = some prices → prices.Positive)
    (stored : request.newVersion = some 3 → pricing.gasPrices.Stored) (accepts : pricing.Accepts now request after) :
    after.Stocked := by
  cases accepts with
  | rests | keepsPrice | keepsPrices => exact stocked
  | setsPrice | queuesPrice => exact ⟨stocked.prices, stocked.listed, stocked.three⟩
  | setsPrices prices asked =>
      exact ⟨stocked.prices.updated (positive prices asked), stocked.listed,
        fun three => (stocked.three three).updated prices⟩
  | queuesPrices prices queue front asked active queued =>
      refine ⟨stocked.prices, fun row member => ?_, stocked.three⟩
      rcases ConfigWrapper.mem_enqueueRow queued member with old | new
      · exact stocked.listed row old
      · exact new ▸ positive prices asked
  | schedules version asked =>
      refine ⟨stocked.prices, stocked.listed, fun three => ?_⟩
      simp only [ValuePromoter.values, Option.map_some, Option.toList_some, List.mem_cons, List.not_mem_nil,
        or_false] at three
      rcases three with current | requested
      · exact stocked.three (current ▸ pricing.evmVersion.valueIn_mem _ _)
      · exact stored (requested ▸ asked)

theorem Stocked.stored (stocked : pricing.Stocked) (three : pricing.version now = 3) : pricing.gasPrices.Stored :=
  stocked.three (three ▸ pricing.evmVersion.valueIn_mem _ _)

end Pricing

section Handled

variable {host : Host} {world next : World} {view : ChainView} {before after : List Request} {request : Request}
  {rest : List Pending} {holding : Name → Symbol → Nat} {contract : Contract}

theorem Handled.positive_prices (handled : Handled host view before after request rest holding contract world)
    {prices : GasPrices} (asked : request.newGasPrices = some prices) : prices.Positive := by
  have ran := handled.ran
  cases request with
  | transfer => cases asked
  | action caller auths requested =>
      cases requested with
      | setgasprices asks =>
          cases asked
          simp only [Request.run, Action.run, Contract.setgasprices, bind_ok, requireAuth_ok, check_ok,
            exists_const] at ran
          exact ran.2.2.1
      | updtgasparam ramPriceMb storagePrice =>
          cases asked
          simp only [Request.run, Action.run, Contract.updtgasparam, bind_ok, requireAuth_ok, exists_const] at ran
          obtain ⟨_, _, updated, _⟩ := ran
          obtain ⟨_, _, _, positive, _⟩ := ConfigWrapper.updateConsensusParameters_ok updated
          exact fun zero => Nat.ne_of_gt positive (Option.some.inj zero)
      | _ => cases asked

theorem Handled.stored_prices (handled : Handled host view before after request rest holding contract world)
    (asked : request.newVersion = some 3) : world.config.cached.gasPrices.Stored := by
  have ran := handled.ran
  cases request with
  | transfer => cases asked
  | action caller auths requested =>
      cases requested with
      | setversion version =>
          cases asked
          simp only [Request.run, Action.run, Contract.setversion, bind_ok, requireAuth_ok, exists_const] at ran
          obtain ⟨_, _, updated, _⟩ := ran
          obtain ⟨_, _, priced, _⟩ := ConfigWrapper.setEvmVersion_ok updated
          intro absent
          have unset : (Contract.load world.tables).config.cached.gasPrices.storagePrice = none := absent
          exact priced rfl (by rw [unset]; rfl)
      | _ => cases asked

theorem Pricing.Stocked.handled (stocked : world.config.pricing.Stocked)
    (handled : Handled host view before after request rest holding contract world) :
    (world.handled before after request rest holding contract).config.pricing.Stocked := by
  rcases handled.reprices with ⟨_, _, _, genesisTime, gasPrice, same⟩ | ⟨middle, advanced, accepts⟩
  · rw [same]
    exact ⟨stocked.prices, stocked.listed, stocked.three⟩
  · refine (advanced.stocked stocked).accepts (fun prices asked => handled.positive_prices asked) ?_ accepts
    exact fun asked => advanced.stored (handled.stored_prices asked)

theorem Stepped.stocked {label : Label} (stocked : world.config.pricing.Stocked)
    (stepped : Stepped host world label next) :
    next.config.pricing.Stocked := by
  cases stepped with
  | tick | submit | passed => exact stocked
  | handled view before after request rest holding contract handled => exact stocked.handled handled

theorem run_stocked {labels : List Label} (finished : run host labels (World.start holding) = .ok world) :
    world.config.pricing.Stocked := by
  refine run_invariant (fun world => world.config.pricing.Stocked)
    (fun _ _ _ _ stocked stepped => stepped.stocked stocked) ?_ finished
  refine ⟨fun zero => (by cases zero), fun _ member => (by cases member), fun three => ?_⟩
  have listed : 3 ∈ [0] := three
  simp at listed

end Handled

namespace ConfigWrapper

variable {wrapper : ConfigWrapper}

theorem getGasPrice_pos (stocked : wrapper.pricing.Stocked) (stored : wrapper.pricing.gasPrices.Stored) :
    1 ≤ wrapper.getGasPrice 3 := stocked.prices.basePrice stored

theorem getGasPrice_processPriceQueue_pos (stocked : wrapper.pricing.Stocked)
    (stored : wrapper.pricing.gasPrices.Stored) (now : Nat) : 1 ≤ (wrapper.processPriceQueue now).getGasPrice 3 := by
  by_cases three : 3 ≤ wrapper.getEvmVersion now
  · have advanced := wrapper.refresh_pricing now
    rw [refresh, if_pos (by omega)] at advanced
    exact getGasPrice_pos (advanced.stocked stocked) (advanced.stored stored)
  · rw [processPriceQueue, if_neg three]
    by_cases idle : wrapper.idleIn (wrapper.blockNum now)
    · rw [processGasPriceQueue_idle idle]
      exact getGasPrice_pos stocked stored
    · obtain ⟨front, dirty, queue, same, _⟩ := processGasPriceQueue_busy idle
      rw [same]
      exact stocked.prices.basePrice stored

end ConfigWrapper

theorem Calls.advanced {host : Host} {view : ChainView} {world : World} {request : Request} {call : TxCall}
    (calls : Calls host view world request call) (env : Env) (same : env.now = world.now) (tx : Transaction) :
    world.config.pricing.Advanced world.now (contextOf env call.rc call.miner tx call.contract).config.pricing := by
  have promoted : ∀ contract : Contract, contract.config.pricing.Advanced world.now
      (contextOf env call.rc call.miner tx contract).config.pricing := by
    intro contract
    simp only [contextOf, ConfigWrapper.promoteConsensusParam_pricing, same]
    exact .single (ConfigWrapper.promoteEvmVersion_pricing _ _)
  refine Relation.ReflTransGen.trans ?_ (promoted call.contract)
  cases calls with
  | pushes =>
      rw [refreshPrices_config]
      exact ConfigWrapper.refresh_pricing _ _
  | bridges _ payer tx middle bridges positive =>
      obtain ⟨start, started, config⟩ := bridges.config
      have refreshed := ConfigWrapper.refresh_pricing start world.now
      refine ((started_pricing started).trans ?_).tail (ConfigWrapper.promoteEvmVersion_pricing _ _)
      rw [config]
      exact refreshed

/-- In every reachable state in which version 3 is in effect, there is a storage price of at least
1, no queued one is zero, and the base price is at least 1: as it is stored, after the queues were
processed at any time, and for every transaction. -/
theorem run_basePrice_pos (host : Host) (holding : Name → Symbol → Nat) (labels : List Label) (world : World)
    (finished : run host labels (World.start holding) = .ok world)
    (three : world.config.getEvmVersion world.now = 3) :
    (∃ price, world.config.cached.gasPrices.storagePrice = some price ∧ 1 ≤ price) ∧
      (∀ row ∈ world.config.pricesQueue.rows, row.2.storagePrice = none ∨
        ∃ price, row.2.storagePrice = some price ∧ 1 ≤ price) ∧
      1 ≤ world.config.getGasPrice 3 ∧ (∀ now, 1 ≤ (world.config.processPriceQueue now).getGasPrice 3) ∧
      ∀ view request call tx, Calls host view world request call →
        (contextOf (host.env view world.now request) call.rc call.miner tx call.contract).header.version = 3 ∧
        ∃ price, (contextOf (host.env view world.now request) call.rc call.miner tx call.contract).header.baseFeePerGas =
          some price ∧ 1 ≤ price := by
  have stocked := run_stocked finished
  have stored : world.config.pricing.gasPrices.Stored :=
    stocked.stored (by rw [ConfigWrapper.version_pricing]; exact three)
  have positive : ∀ prices : GasPrices, prices.Positive → ∀ price, prices.storagePrice = some price → 1 ≤ price :=
    fun prices positive price found => Nat.pos_of_ne_zero fun zero => positive (by rw [found, zero])
  refine ⟨?_, ?_, ConfigWrapper.getGasPrice_pos stocked stored,
    ConfigWrapper.getGasPrice_processPriceQueue_pos stocked stored, ?_⟩
  · obtain ⟨price, found⟩ := Option.ne_none_iff_exists'.mp stored
    exact ⟨price, found, positive _ stocked.prices price found⟩
  · intro row member
    cases found : row.2.storagePrice with
    | none => exact Or.inl rfl
    | some price => exact Or.inr ⟨price, rfl, positive _ (stocked.listed row member) price found⟩
  · intro view request call tx calls
    have advanced := calls.advanced (host.env view world.now request) rfl tx
    have version : (contextOf (host.env view world.now request) call.rc call.miner tx call.contract).header.version =
        3 := by
      rw [← contextOf_version, ← ConfigWrapper.version_pricing, ← three, ← ConfigWrapper.version_pricing]
      exact advanced.version
    refine ⟨version, _, ?_, ConfigWrapper.getGasPrice_pos (advanced.stocked stocked) (advanced.stored stored)⟩
    rw [contextOf_baseFee, version]
    exact if_pos (by decide)

def Ledger.queuedThree : List Label :=
  Ledger.requestedThree ++ Ledger.later 1 ++ Ledger.act Ledger.self (.setgasprices ⟨some 0, some 1⟩) 0

theorem run_basePrice_pos_queued :
    ∃ world, run Ledger.host Ledger.queuedThree (World.start fun _ _ => 0) = .ok world ∧
      world.config.getEvmVersion world.now = 3 ∧ world.config.pricesQueue.rows.length = 1 ∧
      world.config.getGasPrice 3 = 100 ∧ (world.config.processPriceQueue (world.now + 300000000)).getGasPrice 3 = 1 ∧
      ∀ now, 1 ≤ (world.config.processPriceQueue now).getGasPrice 3 := by
  obtain ⟨world, finished, seen⟩ := exists_of_view (run Ledger.host Ledger.queuedThree (World.start fun _ _ => 0))
    (fun world => decide (world.config.getEvmVersion world.now = 3 ∧ world.config.pricesQueue.rows.length = 1 ∧
      world.config.getGasPrice 3 = 100 ∧
      (world.config.processPriceQueue (world.now + 300000000)).getGasPrice 3 = 1)) true (by decide +kernel)
  obtain ⟨three, queued, before, after⟩ := of_decide_eq_true seen
  obtain ⟨_, _, _, processed, _⟩ := run_basePrice_pos Ledger.host _ _ world finished three
  exact ⟨world, finished, three, queued, before, after, processed⟩

end EosEvm

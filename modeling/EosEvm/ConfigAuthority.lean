import EosEvm.Repricing
import EosEvm.Debits

/-! Who may change the configuration. Without the authority of the contract, an action at most
promotes what is pending and applies queued prices, both only when their block has come;
except that `setgaslimit` asks for no authority at all. -/

namespace EosEvm

open Abort Schedule

def ValuePromoter.Promotes {α : Type} (genesisTime now : Nat) (before after : ValuePromoter α) : Prop :=
  ∃ pending, before.pendingValue = some pending ∧ pending.isActive genesisTime now = true ∧
    after = { cachedValue := pending.value, pendingValue := none }

theorem ValuePromoter.maybePromote_promotes {α : Type} (promoter : ValuePromoter α) (genesisTime now : Nat) :
    (promoter.maybePromote genesisTime now).1 = promoter ∧ (promoter.maybePromote genesisTime now).2 = false ∨
      promoter.Promotes genesisTime now (promoter.maybePromote genesisTime now).1 ∧
        (promoter.maybePromote genesisTime now).2 = true := by
  unfold maybePromote
  split
  · rename_i active
    refine Or.inr ⟨?_, rfl⟩
    cases pending : promoter.pendingValue with
    | none => simp [isPendingActive, pending] at active
    | some value =>
        simp only [isPendingActive, pending] at active
        exact ⟨value, pending, active, by simp [promotePending, pending]⟩
  · exact Or.inl ⟨rfl, rfl⟩

namespace ConfigWrapper

/-- The prices, their queues and the front are unchanged. -/
structure SamePrices (before after : ConfigWrapper) : Prop where
  gasPrice : after.cached.gasPrice = before.cached.gasPrice
  gasPrices : after.cached.gasPrices = before.cached.gasPrices
  front : after.cached.queueFrontBlock = before.cached.queueFrontBlock
  priceQueue : after.priceQueue = before.priceQueue
  pricesQueue : after.pricesQueue = before.pricesQueue

/-- The entries of a price queue whose block has come are applied. -/
inductive AppliesPrices (now : Nat) (before after : ConfigWrapper) : Prop
  | none (same : SamePrices before after)
  | price (gasPrice : after.cached.gasPrice =
        effective (fun _ price => price) (before.blockNum now) before.cached.gasPrice before.priceQueue)
      (gasPrices : after.cached.gasPrices = before.cached.gasPrices)
      (drained : Drained (before.blockNum now) before.priceQueue after.priceQueue before.cached.queueFrontBlock
        after.cached.queueFrontBlock) (pricesQueue : after.pricesQueue = before.pricesQueue)
  | prices (gasPrices : after.cached.gasPrices =
        effective GasPrices.updated (before.blockNum now) before.cached.gasPrices before.pricesQueue)
      (gasPrice : after.cached.gasPrice = before.cached.gasPrice)
      (drained : Drained (before.blockNum now) before.pricesQueue after.pricesQueue before.cached.queueFrontBlock
        after.cached.queueFrontBlock) (priceQueue : after.priceQueue = before.priceQueue)

/-- The configuration differs at most by promotions that are due, with the miner cut cleared by
one of the version, and by queued prices that are due. -/
structure Matures (now : Nat) (before after : ConfigWrapper) : Prop where
  stored : after.stored = before.stored
  frame : after.cached = { before.cached with
    evmVersion := after.cached.evmVersion
    minerCut := after.cached.minerCut
    consensusParameter := after.cached.consensusParameter
    gasPrice := after.cached.gasPrice
    gasPrices := after.cached.gasPrices
    queueFrontBlock := after.cached.queueFrontBlock }
  version : after.cached.evmVersion = before.cached.evmVersion ∧ after.cached.minerCut = before.cached.minerCut ∨
    before.cached.evmVersion.Promotes before.cached.genesisTime now after.cached.evmVersion ∧
      (after.cached.minerCut = before.cached.minerCut ∨ after.cached.minerCut = 0)
  parameter : after.cached.consensusParameter = before.cached.consensusParameter ∨
    before.cached.consensusParameter.Promotes before.cached.genesisTime now after.cached.consensusParameter
  prices : AppliesPrices now before after

variable {wrapper middle after : ConfigWrapper} {now : Nat}

theorem Matures.refl (wrapper : ConfigWrapper) : Matures now wrapper wrapper :=
  ⟨rfl, rfl, Or.inl ⟨rfl, rfl⟩, Or.inl rfl, .none ⟨rfl, rfl, rfl, rfl, rfl⟩⟩

theorem Matures.genesisTime (matures : Matures now wrapper after) :
    after.cached.genesisTime = wrapper.cached.genesisTime := by
  rw [matures.frame]

theorem Promotes.trans {α : Type} {genesisTime : Nat} {first second third : ValuePromoter α}
    (left : second = first ∨ first.Promotes genesisTime now second)
    (right : third = second ∨ second.Promotes genesisTime now third) :
    third = first ∨ first.Promotes genesisTime now third := by
  rcases left with rfl | ⟨pending, found, active, rfl⟩
  · exact right
  · rcases right with rfl | ⟨_, ⟨⟩, _⟩
    exact Or.inr ⟨pending, found, active, rfl⟩

theorem SamePrices.trans (left : SamePrices wrapper middle) (right : SamePrices middle after) :
    SamePrices wrapper after :=
  ⟨right.gasPrice.trans left.gasPrice, right.gasPrices.trans left.gasPrices, right.front.trans left.front,
    right.priceQueue.trans left.priceQueue, right.pricesQueue.trans left.pricesQueue⟩

theorem AppliesPrices.trans_same (left : AppliesPrices now wrapper middle) (right : SamePrices middle after) :
    AppliesPrices now wrapper after := by
  cases left with
  | none same => exact .none (same.trans right)
  | price gasPrice gasPrices drained pricesQueue =>
      refine .price (right.gasPrice.trans gasPrice) (right.gasPrices.trans gasPrices) ?_
        (right.pricesQueue.trans pricesQueue)
      rw [right.priceQueue, right.front]
      exact drained
  | prices gasPrices gasPrice drained priceQueue =>
      refine .prices (right.gasPrices.trans gasPrices) (right.gasPrice.trans gasPrice) ?_
        (right.priceQueue.trans priceQueue)
      rw [right.pricesQueue, right.front]
      exact drained

theorem AppliesPrices.of_same (left : SamePrices wrapper middle)
    (genesisTime : middle.cached.genesisTime = wrapper.cached.genesisTime) (right : AppliesPrices now middle after) :
    AppliesPrices now wrapper after := by
  have block : middle.blockNum now = wrapper.blockNum now := by
    rw [blockNum, genesisTime]
    rfl
  cases right with
  | none same => exact .none (left.trans same)
  | price gasPrice gasPrices drained pricesQueue =>
      rw [block, left.priceQueue, left.front] at drained
      rw [block, left.priceQueue, left.gasPrice] at gasPrice
      exact .price gasPrice (gasPrices.trans left.gasPrices) drained (pricesQueue.trans left.pricesQueue)
  | prices gasPrices gasPrice drained priceQueue =>
      rw [block, left.pricesQueue, left.front] at drained
      rw [block, left.pricesQueue, left.gasPrices] at gasPrices
      exact .prices gasPrices (gasPrice.trans left.gasPrice) drained (priceQueue.trans left.priceQueue)

theorem Matures.trans (left : Matures now wrapper middle) (right : Matures now middle after)
    (once : SamePrices wrapper middle ∨ SamePrices middle after) : Matures now wrapper after := by
  have genesis := left.genesisTime
  refine ⟨right.stored.trans left.stored, ?_, ?_, ?_, ?_⟩
  · rw [right.frame, left.frame]
  · have versions := right.version
    rw [genesis] at versions
    rcases left.version with ⟨same, cut⟩ | ⟨⟨pending, found, active, same⟩, cut⟩
    · rw [same, cut] at versions
      exact versions
    · rcases versions with ⟨kept, keptCut⟩ | ⟨⟨_, again, _⟩, _⟩
      · rw [kept, keptCut]
        exact Or.inr ⟨⟨pending, found, active, same⟩, cut⟩
      · rw [same] at again
        cases again
  · have parameters := right.parameter
    rw [genesis] at parameters
    exact Promotes.trans left.parameter parameters
  · rcases once with same | same
    · exact right.prices.of_same same genesis
    · exact left.prices.trans_same same

theorem promoteEvmVersion_matures (wrapper : ConfigWrapper) (now : Nat) :
    Matures now wrapper (wrapper.promoteEvmVersion now).2 ∧ SamePrices wrapper (wrapper.promoteEvmVersion now).2 := by
  unfold promoteEvmVersion
  rcases wrapper.cached.evmVersion.maybePromote_promotes wrapper.cached.genesisTime now with
    ⟨_, idle⟩ | ⟨promotes, promoted⟩
  · simp only [idle, Bool.false_eq_true, if_false]
    exact ⟨Matures.refl wrapper, rfl, rfl, rfl, rfl, rfl⟩
  · simp only [promoted, if_true]
    refine ⟨⟨rfl, rfl, Or.inr ⟨promotes, ?_⟩, Or.inl rfl, .none ⟨rfl, rfl, rfl, rfl, rfl⟩⟩, rfl, rfl, rfl, rfl, rfl⟩
    simp only [set]
    split
    · exact Or.inr rfl
    · exact Or.inl rfl

theorem promoteConsensusParam_matures (wrapper : ConfigWrapper) (now : Nat) :
    Matures now wrapper (wrapper.promoteConsensusParam now).2.2 ∧
      SamePrices wrapper (wrapper.promoteConsensusParam now).2.2 := by
  unfold promoteConsensusParam
  rcases wrapper.cached.consensusParameter.maybePromote_promotes wrapper.cached.genesisTime now with
    ⟨_, idle⟩ | ⟨promotes, promoted⟩
  · simp only [idle, Bool.false_eq_true, if_false]
    exact ⟨Matures.refl wrapper, rfl, rfl, rfl, rfl, rfl⟩
  · simp only [promoted, if_true]
    exact ⟨⟨rfl, rfl, Or.inl ⟨rfl, rfl⟩, Or.inr promotes, .none ⟨rfl, rfl, rfl, rfl, rfl⟩⟩, rfl, rfl, rfl, rfl, rfl⟩

theorem refresh_matures (wrapper : ConfigWrapper) (now : Nat) : Matures now wrapper (wrapper.refresh now) := by
  by_cases active : 1 ≤ wrapper.getEvmVersion now
  · rw [refresh, if_pos active, processPriceQueue]
    by_cases idle : wrapper.idleIn (wrapper.blockNum now)
    · rw [processGasPricesQueue_idle idle, processGasPriceQueue_idle idle, ite_self]
      exact Matures.refl wrapper
    · by_cases three : 3 ≤ wrapper.getEvmVersion now
      · obtain ⟨front, dirty, queue, same, drained⟩ := processGasPricesQueue_busy idle
        rw [if_pos three, same, pricesIn, if_neg idle]
        exact ⟨rfl, rfl, Or.inl ⟨rfl, rfl⟩, Or.inl rfl, .prices rfl rfl drained rfl⟩
      · obtain ⟨front, dirty, queue, same, drained⟩ := processGasPriceQueue_busy idle
        rw [if_neg three, same, priceIn, if_neg idle]
        exact ⟨rfl, rfl, Or.inl ⟨rfl, rfl⟩, Or.inl rfl, .price rfl rfl drained rfl⟩
  · rw [refresh, if_neg active]
    exact Matures.refl wrapper

theorem started_matures {start : ConfigWrapper}
    (started : start = wrapper ∨ start = (wrapper.promoteEvmVersion now).2) :
    Matures now wrapper start ∧ SamePrices wrapper start := by
  rcases started with rfl | rfl
  · exact ⟨Matures.refl _, rfl, rfl, rfl, rfl, rfl⟩
  · exact promoteEvmVersion_matures wrapper now

theorem Updates.matures (updates : wrapper.Updates now after) : Matures now wrapper after := by
  cases updates with
  | same => exact Matures.refl wrapper
  | refreshed => exact refresh_matures wrapper now
  | promoted =>
      obtain ⟨promoted, same⟩ := promoteEvmVersion_matures (wrapper.refresh now) now
      exact (refresh_matures wrapper now).trans promoted (Or.inr same)

end ConfigWrapper

/-- Every setter but `setgaslimit` needs the authority of the contract. -/
theorem Action.run_setter {env : Env} {action : Action} {before after : Contract} (setter : action.isSetter = true)
    (ran : action.run env before = .ok after) : env.self ∈ env.auths ∨ ∃ limit, action = .setgaslimit limit := by
  cases action with
  | setgaslimit limit => exact Or.inr ⟨limit, rfl⟩
  | init =>
      simp only [Action.run, Contract.init, bind_ok, requireAuth_ok, exists_const] at ran
      exact Or.inl ran.1
  | setfeeparams =>
      simp only [Action.run, Contract.setfeeparams, bind_ok, assertInited_ok, requireAuth_ok, exists_const] at ran
      exact Or.inl ran.2.1
  | freeze =>
      simp only [Action.run, Contract.freeze, bind_ok, requireAuth_ok, exists_const] at ran
      exact Or.inl ran.1
  | setversion | updtgasparam | setgasparam | setgasprices =>
      simp only [Action.run, Contract.setversion, Contract.updtgasparam, Contract.setgasparam, Contract.setgasprices,
        bind_ok, requireAuth_ok, exists_const] at ran
      exact Or.inl ran.1
  | _ => cases setter

theorem ConfigWrapper.Configures.isSetter {now : Nat} {wrapper after : ConfigWrapper} {requested : Action}
    (configures : wrapper.Configures now requested after) : requested.isSetter = true := by
  cases configures <;> rfl

theorem ConfigWrapper.updates_of_fresh {wrapper start after : ConfigWrapper} {now : Nat} (fresh : wrapper.cached = {})
    (started : start = wrapper ∨ start = (wrapper.promoteEvmVersion now).2) (updates : start.Updates now after) :
    after = wrapper := by
  have promoted : (wrapper.promoteEvmVersion now).2 = wrapper := by
    simp [promoteEvmVersion, fresh, ValuePromoter.maybePromote, ValuePromoter.isPendingActive]
  have refreshed : wrapper.refresh now = wrapper := by
    simp [refresh, getEvmVersion, fresh, ValuePromoter.getValue]
  obtain rfl : start = wrapper := by
    rcases started with rfl | rfl
    · rfl
    · exact promoted
  cases updates with
  | same => rfl
  | refreshed => exact refreshed
  | promoted => rw [refreshed, promoted]

/-- The configuration that the next action finds. -/
def Contract.configAfter (contract : Contract) (tables : Tables) : ConfigWrapper :=
  (Contract.load (contract.store tables)).config

theorem Reconfigures.due {env : Env} {before after : ConfigWrapper} {request : Request} {effects : List Effect}
    (fresh : before.stored = false → before.cached = {})
    (reconfigured : Reconfigures env before request after effects) (plain : request.isSetter = false)
    (stays : request.isSwap = false) : before.Matures env.now after ∧ (before.stored = false → after = before) := by
  cases reconfigured with
  | starts => cases plain
  | sets _ _ _ _ configured => exact absurd (configured.isSetter.symm.trans plain) (by decide)
  | swaps => cases stays
  | updates _ start _ _ started updated =>
      obtain ⟨begun, same⟩ := ConfigWrapper.started_matures started
      exact ⟨begun.trans updated.matures (Or.inl same),
        fun unstored => ConfigWrapper.updates_of_fresh (fresh unstored) started updated⟩
  | transacts _ start _ _ _ _ ready started transacted =>
      obtain ⟨begun, same⟩ := ConfigWrapper.started_matures started
      obtain ⟨promoted, unpriced⟩ := ConfigWrapper.promoteEvmVersion_matures (start.refresh env.now) env.now
      obtain ⟨parametrised, unpricedAfter⟩ := ConfigWrapper.promoteConsensusParam_matures
        ((start.refresh env.now).promoteEvmVersion env.now).2 env.now
      rw [transacted.config]
      refine ⟨?_, fun unstored => absurd (unstored.symm.trans ready) (by decide)⟩
      exact ((begun.trans (ConfigWrapper.refresh_matures start env.now) (Or.inl same)).trans promoted
        (Or.inr unpriced)).trans parametrised (Or.inr unpricedAfter)

theorem Reconfigures.matures {env : Env} {tables : Tables} {request : Request} {contract : Contract}
    (reconfigured : Reconfigures env (Contract.load tables).config request contract.config contract.effects)
    (plain : request.isSetter = false) (stays : request.isSwap = false) :
    (Contract.load tables).config.Matures env.now (contract.configAfter tables) := by
  obtain ⟨⟨_, frame, version, parameter, prices⟩, clean⟩ := reconfigured.due load_fresh plain stays
  rw [Contract.configAfter, load_store_config reconfigured.saves]
  refine ⟨?_, frame, version, parameter, prices.trans_same ⟨rfl, rfl, rfl, rfl, rfl⟩⟩
  change (contract.config.dirty || (Contract.load tables).config.stored) = (Contract.load tables).config.stored
  cases found : (Contract.load tables).config.stored with
  | true => exact Bool.or_true _
  | false =>
      rw [clean found, Bool.or_false]
      rfl

/-- Without the authority of the contract the configuration only matures, whatever is requested
in whatever state, unless `setgaslimit` changes the limit or creates the row. -/
theorem config_matures_iff (host : Host) (view : ChainView) (world : World) (request : Request) (contract : Contract)
    (ran : request.run (host.env view world.now request) (Contract.load world.tables) = .ok contract)
    (unauthorised : host.self ∉ request.auths) :
    world.config.Matures world.now (contract.configAfter world.tables) ↔
      ∀ caller auths limit, request = .action caller auths (.setgaslimit limit) →
        world.config.stored = true ∧ world.config.cached.ingressGasLimit = limit := by
  have reconfigured := (Request.run_does ran).reconfigures rfl
  constructor
  · rintro matures caller auths limit rfl
    cases ran
    have stored : true = world.config.stored := matures.stored
    have kept : limit = world.config.cached.ingressGasLimit := congrArg Config.ingressGasLimit matures.frame
    exact ⟨stored.symm, kept.symm⟩
  · intro harmless
    cases setter : request.isSetter with
    | false =>
        cases swap : request.isSwap with
        | false => exact reconfigured.matures setter swap
        | true =>
            cases request with
            | transfer => cases swap
            | action caller auths requested =>
                have authorised := Action.run_privileged (fun plain => by
                  rw [show requested.isSwap = true from swap] at plain
                  cases plain.2) ran
                exact absurd authorised unauthorised
    | true =>
        cases request with
        | transfer => cases setter
        | action caller auths requested =>
            rcases Action.run_setter setter ran with authorised | ⟨limit, rfl⟩
            · exact absurd authorised unauthorised
            · obtain ⟨stored, same⟩ := harmless caller auths limit rfl
              subst same
              cases ran
              exact ⟨stored.symm, rfl, Or.inl ⟨rfl, rfl⟩, Or.inl rfl, .none ⟨rfl, rfl, rfl, rfl, rfl⟩⟩

/-- Anyone may set the gas limit of ingress transactions. -/
theorem setgaslimit_needs_nobody :
    ∃ world contract, run Ledger.host Ledger.opening (World.start fun _ _ => 0) = .ok world ∧
      (Request.action none [Ledger.alice] (.setgaslimit 0)).run
        (Ledger.host.env Ledger.view world.now (.action none [Ledger.alice] (.setgaslimit 0)))
        (Contract.load world.tables) = .ok contract ∧
      Ledger.host.self ∉ (Request.action none [Ledger.alice] (.setgaslimit 0)).auths ∧
      world.config.cached.ingressGasLimit = 21000 ∧
      (contract.configAfter world.tables).cached.ingressGasLimit = 0 ∧
      ¬ world.config.Matures world.now (contract.configAfter world.tables) := by
  obtain ⟨world, reached, limit⟩ := exists_of_view (run Ledger.host Ledger.opening (World.start fun _ _ => 0))
    (fun world => world.config.cached.ingressGasLimit) 21000 (by decide +kernel)
  refine ⟨world, _, reached, rfl, by decide, limit, rfl, fun matures => ?_⟩
  have kept : 0 = world.config.cached.ingressGasLimit := congrArg Config.ingressGasLimit matures.frame
  rw [limit] at kept
  cases kept

theorem config_matures_open :
    ∃ world contract, run Ledger.host Ledger.opening (World.start fun _ _ => 0) = .ok world ∧
      (Request.action none [Ledger.bob] (.open Ledger.bob)).run
        (Ledger.host.env Ledger.view world.now (.action none [Ledger.bob] (.open Ledger.bob)))
        (Contract.load world.tables) = .ok contract ∧
      world.config.Matures world.now (contract.configAfter world.tables) := by
  obtain ⟨world, reached, opens⟩ := exists_of_view (run Ledger.host Ledger.opening (World.start fun _ _ => 0))
    (fun world => ((Request.action none [Ledger.bob] (.open Ledger.bob)).run
      (Ledger.host.env Ledger.view world.now (.action none [Ledger.bob] (.open Ledger.bob)))
      (Contract.load world.tables)).isOk) true (by decide +kernel)
  obtain ⟨contract, opened⟩ := exists_of_isOk opens
  exact ⟨world, contract, reached, opened,
    (config_matures_iff Ledger.host Ledger.view world _ contract opened (by decide)).mpr
      (fun _ _ _ same => by cases same)⟩

end EosEvm

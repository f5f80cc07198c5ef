import EosEvm.Lib.Replay
import EosEvm.Reconfigure
import EosEvm.LedgerCore

/-! The gas parameters can be followed from the events. An EVM node sees a `configchange`
whenever `process_tx` promotes pending parameters; it never sees the promotion that
`update` makes when new parameters are set. -/

namespace EosEvm

open Abort Replay

/-- The parameters an event publishes. -/
def Effect.published : Effect → Option GasParameter
  | .sent (.configchange parameters) => some parameters
  | _ => none

def Effect.used : Effect → Option GasParameter
  | .ran execution => some execution.gasParams
  | _ => none

theorem published_of_quiet {effect : Effect} (quiet : effect.isQuiet = true) : effect.published = none := by
  cases effect with
  | ran => rfl
  | sent action => cases action <;> first | rfl | cases quiet

theorem used_of_quiet {effect : Effect} (quiet : effect.isQuiet = true) : effect.used = none := by
  cases effect with
  | ran => cases quiet
  | sent => rfl

def ConfigWrapper.parameters (wrapper : ConfigWrapper) : GasParameter := wrapper.cached.consensusParameter.cachedValue

/-- The request does not set parameters while pending ones are already in effect. -/
def promotesOpenly (world : World) : Request → Bool
  | .action _ _ (.setgasparam _ _ _ _ _) | .action _ _ (.updtgasparam _ _) =>
      !world.config.cached.consensusParameter.isPendingActive world.config.cached.genesisTime world.now
  | _ => true

/-- The effects follow the parameters from `before` to `after`. -/
structure Follows (before after : GasParameter) (effects : List Effect) : Prop where
  faithful : Faithful Effect.published Effect.used before effects
  latest : after = latest Effect.published before effects

theorem follows_of_quiet {before : GasParameter} {effects : List Effect}
    (quiet : ∀ effect ∈ effects, effect.isQuiet = true) : Follows before before effects where
  faithful := faithful_of_unused _ _ _ _ fun effect member => used_of_quiet (quiet effect member)
  latest := (latest_of_silent _ _ _ fun effect member => published_of_quiet (quiet effect member)).symm

section Parameters

variable {now : Nat} {wrapper after : ConfigWrapper}

@[simp] theorem parameters_promoteEvmVersion (wrapper : ConfigWrapper) (now : Nat) :
    (wrapper.promoteEvmVersion now).2.parameters = wrapper.parameters := by
  obtain ⟨_, _, same⟩ := ConfigWrapper.promoteEvmVersion_eq wrapper now
  rw [same]
  rfl

@[simp] theorem parameters_refresh (wrapper : ConfigWrapper) (now : Nat) :
    (wrapper.refresh now).parameters = wrapper.parameters := by
  obtain ⟨_, _, _, _, _, _, same⟩ := ConfigWrapper.refresh_eq wrapper now
  rw [same]
  rfl

theorem parameters_of_started {start : ConfigWrapper}
    (started : start = wrapper ∨ start = (wrapper.promoteEvmVersion now).2) :
    start.parameters = wrapper.parameters := by
  rcases started with rfl | rfl
  · rfl
  · exact parameters_promoteEvmVersion wrapper now

theorem parameters_of_updates (updates : wrapper.Updates now after) : after.parameters = wrapper.parameters := by
  cases updates with
  | same => rfl
  | refreshed => exact parameters_refresh wrapper now
  | promoted => rw [parameters_promoteEvmVersion, parameters_refresh]

theorem getConsensusParam_of_inactive
    (inactive : wrapper.cached.consensusParameter.isPendingActive wrapper.cached.genesisTime now = false) :
    wrapper.getConsensusParam now = wrapper.parameters := by
  have same := ValuePromoter.cachedValue_maybePromote wrapper.cached.consensusParameter wrapper.cached.genesisTime now
  simp only [ValuePromoter.maybePromote, inactive, Bool.false_eq_true, if_false] at same
  exact same.symm

theorem parameters_of_configures {requested : Action} (configures : wrapper.Configures now requested after)
    (openly : match requested with
      | .setgasparam _ _ _ _ _ | .updtgasparam _ _ =>
          wrapper.cached.consensusParameter.isPendingActive wrapper.cached.genesisTime now = false
      | _ => True) : after.parameters = wrapper.parameters := by
  cases configures with
  | setfeeparams fees after updated =>
      obtain ⟨_, _, _, _, _, rfl⟩ := ConfigWrapper.setFeeParameters_frame updated
      rfl
  | freeze | setgaslimit => rfl
  | setversion version after updated =>
      obtain ⟨_, _, _, _, _, rfl⟩ := ConfigWrapper.setEvmVersion_ok updated
      rfl
  | updtgasparam ramPriceMb storagePrice after updated =>
      obtain ⟨scheduled, _, rfl, _, _, ⟨_, queued⟩ | ⟨_, queued⟩⟩ :=
        ConfigWrapper.updateConsensusParameters_ok updated
      · obtain ⟨_, _, _, rfl⟩ := ConfigWrapper.enqueueGasPrices_eq queued
        exact getConsensusParam_of_inactive openly
      · obtain ⟨_, _, _, rfl⟩ := ConfigWrapper.enqueueGasPrice_eq queued
        exact getConsensusParam_of_inactive openly
  | setgasparam _ _ _ _ _ after updated =>
      obtain ⟨_, _, rfl⟩ := ConfigWrapper.updateConsensusParameters2_ok updated
      exact getConsensusParam_of_inactive openly
  | enqueued prices after active queued =>
      obtain ⟨_, _, _, rfl⟩ := ConfigWrapper.enqueueGasPrices_eq queued
      exact parameters_promoteEvmVersion wrapper now
  | replaced prices inactive => exact parameters_promoteEvmVersion wrapper now

end Parameters

theorem latest_txEvents (start : GasParameter) (config : ConfigWrapper) (version : Nat) (gasParams : GasParameter)
    (promoted : Bool) (rlptx : Bytes) :
    latest Effect.published start ((txEvents config version gasParams promoted rlptx).map .sent) =
      if promoted then gasParams else start := by
  by_cases three : 3 ≤ version <;> by_cases one : 1 ≤ version <;> cases promoted <;>
    simp [txEvents, three, one, latest, Effect.published]

theorem Transacts.follows {env : Env} {refreshed after : ConfigWrapper} {effects : List Effect} {sender : Address}
    {nonce : Nat} (transacted : Transacts env refreshed after effects sender nonce) :
    Follows refreshed.parameters after.parameters effects := by
  obtain ⟨config, payments, rlptx, effectsEq, paid⟩ := transacted
  have same := parameters_promoteEvmVersion refreshed env.now
  generalize (refreshed.promoteEvmVersion env.now).2 = current at *
  have promoted : after.parameters = current.getConsensusParam env.now := by
    obtain ⟨_, changed⟩ := ConfigWrapper.promoteConsensusParam_eq current env.now
    rw [config, changed]
    exact ValuePromoter.cachedValue_maybePromote _ _ _
  have quiet : ∀ effect ∈ payments.map Effect.sent, effect.published = none := by
    intro effect member
    obtain ⟨action, inside, rfl⟩ := List.mem_map.mp member
    have payment := paid action inside
    cases action <;> first | rfl | cases payment
  have published : latest Effect.published refreshed.parameters ((payments ++ txEvents after
      (refreshed.getEvmVersion env.now) (current.getConsensusParam env.now)
      (current.promoteConsensusParam env.now).2.1 rlptx).map .sent) = current.getConsensusParam env.now := by
    rw [List.map_append, latest_append, latest_of_silent _ _ _ quiet, latest_txEvents, ← same]
    split
    · rfl
    · rename_i idle
      have kept := ValuePromoter.maybePromote_idle idle
      have value := ValuePromoter.cachedValue_maybePromote current.cached.consensusParameter
        current.cached.genesisTime env.now
      rw [kept] at value
      exact value
  rw [effectsEq]
  refine ⟨faithful_of_last _ _ ?_ ?_, ?_⟩
  · intro other member
    obtain ⟨action, _, rfl⟩ := List.mem_map.mp member
    rfl
  · intro used found
    rw [published, ← Option.some.inj found]
    rfl
  · rw [latest_append, published, promoted]
    rfl

theorem Reconfigures.follows {env : Env} {before after : ConfigWrapper} {request : Request} {effects : List Effect}
    (reconfigured : Reconfigures env before request after effects)
    (openly : match request with
      | .action _ _ (.setgasparam _ _ _ _ _) | .action _ _ (.updtgasparam _ _) =>
          before.cached.consensusParameter.isPendingActive before.cached.genesisTime env.now = false
      | _ => True) : Follows before.parameters after.parameters effects := by
  have nothing : ∀ effect ∈ ([] : List Effect), effect.isQuiet = true := fun _ member => (by cases member)
  cases reconfigured with
  | starts _ _ _ _ _ _ config _ configured =>
      obtain ⟨_, _, _, _, _, rfl⟩ := ConfigWrapper.setFeeParameters_frame configured
      exact follows_of_quiet nothing
  | sets caller auths requested after configured =>
      have kept : after.parameters = before.parameters := parameters_of_configures configured (by
        cases requested <;> trivial)
      rw [kept]
      exact follows_of_quiet nothing
  | swaps _ _ _ _ _ _ _ quiet => exact follows_of_quiet quiet
  | updates _ start after _ started updated quiet =>
      rw [parameters_of_updates updated, parameters_of_started started]
      exact follows_of_quiet quiet
  | transacts _ start after _ _ _ _ started transacted =>
      have follows := transacted.follows
      rw [parameters_refresh, parameters_of_started started] at follows
      exact follows

def World.Replayed (world : World) : Prop := Follows {} world.config.parameters world.history

theorem World.Replayed.step {host : Host} {world next : World} {label : Label} (replayed : world.Replayed)
    (stepped : Stepped host world label next)
    (openly : ∀ view before after request rest holding contract, label = .next view before after →
      Handled host view before after request rest holding contract world → promotesOpenly world request = true) :
    next.Replayed := by
  cases stepped with
  | tick | submit | passed => exact replayed
  | handled view before after request rest holding contract handled =>
      obtain ⟨reconfigured, reloaded⟩ := handled.reconfigures
      have follows := reconfigured.follows (by
        have condition := openly view before after request rest holding contract rfl handled
        rcases request with ⟨caller, auths, requested⟩ | _
        · cases requested <;> first | trivial | simpa [promotesOpenly] using condition
        · trivial)
      have parameters : (world.handled before after request rest holding contract).config.parameters =
          contract.config.parameters := by
        rw [reloaded]
        rfl
      have started := replayed.latest
      refine ⟨replayed.faithful.append _ _ ?_, ?_⟩
      · rw [← started]
        exact follows.faithful
      · rw [parameters, follows.latest, started]
        exact (latest_append _ _ _ _).symm

/-- In every run in which no parameters are set while pending ones are already in effect,
each transaction runs with the parameters of the last `configchange` up to and including
its own, or with the defaults if there is none. -/
theorem run_replayable (host : Host) (holding : Name → Symbol → Nat) (labels : List Label) (world : World)
    (openly : guarded host promotesOpenly labels (World.start holding) = true)
    (finished : run host labels (World.start holding) = .ok world) :
    ∀ front execution back, world.history = front ++ .ran execution :: back → 1 ≤ execution.version →
      execution.gasParams = latest Effect.published {} front := by
  have start : (World.start holding).Replayed :=
    show Follows {} {} [] from follows_of_quiet fun _ member => (by cases member)
  have replayed : world.Replayed := run_guarded World.Replayed
    (fun _ _ _ replayed stepped openly => replayed.step stepped openly) start openly finished
  intro front execution back split _
  exact replayed.faithful front (.ran execution) back execution.gasParams split rfl

def Ledger.silentPromotion : List Label :=
  Ledger.versionOne ++ Ledger.act Ledger.self (.setgasparam 1 2 3 4 5000) 0 ++ Ledger.later 2 ++
    Ledger.act Ledger.self (.setgasparam 6 7 8 9 6000) 0 ++ Ledger.act Ledger.alice (Ledger.callNothing Ledger.alice 21000) 0

/-- The transaction after it runs with parameters that no event has published. -/
theorem silentPromotion_unpublished :
    ∃ world front execution back, run Ledger.host Ledger.silentPromotion (World.start fun _ _ => 0) = .ok world ∧
      world.history = front ++ .ran execution :: back ∧ 1 ≤ execution.version ∧
      execution.gasParams ≠ latest Effect.published {} front := by
  obtain ⟨world, finished, seen⟩ := exists_of_view
    (run Ledger.host Ledger.silentPromotion (World.start fun _ _ => 0))
    (fun world => (world.history.getLast?, latest Effect.published {} world.history.dropLast))
    (some (.ran {
      time := 1002000000
      sender := makeReservedAddress Ledger.alice
      nonce := 0
      version := 1
      gasParams := ⟨1, 2, 3, 4, 5000⟩
      baseFeePerGas := some 150000000000
      overheadPrice := 0
      storagePrice := 0 }), {}) (by decide +kernel)
  obtain ⟨last, published⟩ := Prod.mk.inj seen
  refine ⟨world, world.history.dropLast, _, [], finished, (List.dropLast_append_getLast? _ last).symm, by decide, ?_⟩
  rw [published]
  decide

theorem run_replayable_announced :
    ∃ world, run Ledger.host (Ledger.versionOne ++ Ledger.act Ledger.self (.setgasparam 1 2 3 4 5000) 0 ++
        Ledger.later 2 ++ Ledger.act Ledger.alice (Ledger.callNothing Ledger.alice 21000) 0)
        (World.start fun _ _ => 0) = .ok world ∧
      latest Effect.published {} world.history = ⟨1, 2, 3, 4, 5000⟩ ∧
      ∀ front execution back, world.history = front ++ .ran execution :: back → 1 ≤ execution.version →
        execution.gasParams = latest Effect.published {} front := by
  obtain ⟨world, finished, seen⟩ := exists_of_view
    (run Ledger.host (Ledger.versionOne ++ Ledger.act Ledger.self (.setgasparam 1 2 3 4 5000) 0 ++
      Ledger.later 2 ++ Ledger.act Ledger.alice (Ledger.callNothing Ledger.alice 21000) 0) (World.start fun _ _ => 0))
    (fun world => latest Effect.published {} world.history) ⟨1, 2, 3, 4, 5000⟩ (by decide +kernel)
  exact ⟨world, finished, seen, run_replayable Ledger.host _ _ world (by decide +kernel) finished⟩

end EosEvm

import EosEvm.PriceSchedule
import EosEvm.Initialisation
import EosEvm.Debits

/-! The EVM chain in time. What `init` fixed about the chain is never changed, so the block
number of a transaction is the one it was executed in, and the transactions of a run follow
each other in blocks and in versions. -/

namespace EosEvm

open Abort

namespace ConfigWrapper

def chain (wrapper : ConfigWrapper) : Nat × Nat := (wrapper.cached.chainid, wrapper.cached.genesisTime)

variable {wrapper config : ConfigWrapper} {now : Nat}

theorem genesisTime_of_chain (same : config.chain = wrapper.chain) :
    config.cached.genesisTime = wrapper.cached.genesisTime := congrArg Prod.snd same

/-- With the status, what only `init` and `freeze` set. -/
def standing (wrapper : ConfigWrapper) : (Nat × Nat) × UInt32 := (wrapper.chain, wrapper.cached.status)

theorem promoteEvmVersion_standing (wrapper : ConfigWrapper) (now : Nat) :
    (wrapper.promoteEvmVersion now).2.standing = wrapper.standing := by
  obtain ⟨_, _, same⟩ := promoteEvmVersion_eq wrapper now
  rw [same]
  rfl

theorem promoteConsensusParam_standing (wrapper : ConfigWrapper) (now : Nat) :
    (wrapper.promoteConsensusParam now).2.2.standing = wrapper.standing := by
  obtain ⟨_, same⟩ := promoteConsensusParam_eq wrapper now
  rw [same]
  rfl

theorem refresh_standing (wrapper : ConfigWrapper) (now : Nat) :
    (wrapper.refresh now).standing = wrapper.standing := by
  obtain ⟨_, _, _, _, _, _, same⟩ := refresh_eq wrapper now
  rw [same]
  rfl

theorem promoteEvmVersion_chain (wrapper : ConfigWrapper) (now : Nat) :
    (wrapper.promoteEvmVersion now).2.chain = wrapper.chain :=
  congrArg Prod.fst (promoteEvmVersion_standing wrapper now)

theorem promoteConsensusParam_chain (wrapper : ConfigWrapper) (now : Nat) :
    (wrapper.promoteConsensusParam now).2.2.chain = wrapper.chain :=
  congrArg Prod.fst (promoteConsensusParam_standing wrapper now)

theorem refresh_chain (wrapper : ConfigWrapper) (now : Nat) : (wrapper.refresh now).chain = wrapper.chain :=
  congrArg Prod.fst (refresh_standing wrapper now)

theorem refresh_token (wrapper : ConfigWrapper) (now : Nat) : (wrapper.refresh now).token = wrapper.token := by
  obtain ⟨_, _, _, _, _, _, same⟩ := refresh_eq wrapper now
  rw [same]
  rfl

theorem enqueueGasPrice_standing {gasPrice : Nat} (queued : wrapper.enqueueGasPrice gasPrice now = .ok config) :
    config.standing = wrapper.standing := by
  obtain ⟨_, _, _, rfl⟩ := enqueueGasPrice_eq queued
  rfl

theorem enqueueGasPrices_standing {prices : GasPrices} (queued : wrapper.enqueueGasPrices prices now = .ok config) :
    config.standing = wrapper.standing := by
  obtain ⟨_, _, _, rfl⟩ := enqueueGasPrices_eq queued
  rfl

theorem Updates.standing (updates : wrapper.Updates now config) : config.standing = wrapper.standing := by
  cases updates with
  | same => rfl
  | refreshed => exact refresh_standing wrapper now
  | promoted => exact (promoteEvmVersion_standing _ now).trans (refresh_standing wrapper now)

theorem Updates.token (updates : wrapper.Updates now config) : config.token = wrapper.token := by
  cases updates with
  | same => rfl
  | refreshed => exact refresh_token wrapper now
  | promoted => exact (promoteEvmVersion_token _ now).trans (refresh_token wrapper now)

theorem Configures.standing {requested : Action} (configures : wrapper.Configures now requested config) :
    config.standing = wrapper.standing ∨ (∃ value, requested = .freeze value) ∧ config.chain = wrapper.chain := by
  cases configures with
  | setfeeparams fees after updated =>
      obtain ⟨_, _, _, _, _, rfl⟩ := setFeeParameters_frame updated
      exact Or.inl rfl
  | freeze value => exact Or.inr ⟨⟨value, rfl⟩, rfl⟩
  | setgaslimit => exact Or.inl rfl
  | setversion version after updated =>
      obtain ⟨_, _, _, _, _, rfl⟩ := setEvmVersion_ok updated
      exact Or.inl rfl
  | updtgasparam ramPriceMb storagePrice after updated =>
      obtain ⟨scheduled, _, rfl, _, _, ⟨_, queued⟩ | ⟨_, queued⟩⟩ := updateConsensusParameters_ok updated
      · rw [enqueueGasPrices_standing queued]
        exact Or.inl rfl
      · rw [enqueueGasPrice_standing queued]
        exact Or.inl rfl
  | setgasparam _ _ _ _ _ after updated =>
      obtain ⟨_, _, rfl⟩ := updateConsensusParameters2_ok updated
      exact Or.inl rfl
  | enqueued prices after active queued =>
      exact Or.inl ((enqueueGasPrices_standing queued).trans (promoteEvmVersion_standing wrapper now))
  | replaced => exact Or.inl (promoteEvmVersion_standing wrapper now)

theorem Configures.chain {requested : Action} (configures : wrapper.Configures now requested config) :
    config.chain = wrapper.chain :=
  configures.standing.elim (congrArg Prod.fst) And.right

theorem Configures.token {requested : Action} (configures : wrapper.Configures now requested config)
    (set : wrapper.getTokenSymbol ≠ Symbol.none) : config.token = wrapper.token := by
  cases configures with
  | setfeeparams fees after updated =>
      cases charge : fees.ingressBridgeFee with
      | none => exact (setFeeParameters_omitted charge updated).2
      | some fee =>
          obtain ⟨contract, symbol, _, unset | same⟩ := setFeeParameters_given charge updated
          · exact absurd unset set
          · exact Prod.ext contract (symbol.trans same)
  | freeze | setgaslimit => rfl
  | setversion version after updated => exact setEvmVersion_token updated
  | updtgasparam ramPriceMb storagePrice after updated => exact updateConsensusParameters_token updated
  | setgasparam _ _ _ _ _ after updated => exact updateConsensusParameters2_token updated
  | enqueued prices after active queued =>
      exact (enqueueGasPrices_token queued).trans (promoteEvmVersion_token wrapper now)
  | replaced => exact promoteEvmVersion_token wrapper now

end ConfigWrapper

namespace Reconfigures

variable {env : Env} {wrapper config start : ConfigWrapper} {request : Request} {effects : List Effect}

theorem started_standing (started : start = wrapper ∨ start = (wrapper.promoteEvmVersion env.now).2) :
    start.standing = wrapper.standing := by
  rcases started with rfl | rfl
  · rfl
  · exact ConfigWrapper.promoteEvmVersion_standing wrapper env.now

theorem standing (stored : wrapper.stored = true) (reconfigured : Reconfigures env wrapper request config effects) :
    config.standing = wrapper.standing ∨
      (∃ caller auths value, request = .action caller auths (.freeze value)) ∧ config.chain = wrapper.chain := by
  cases reconfigured with
  | starts _ _ _ _ _ _ _ unstored =>
      rw [stored] at unstored
      cases unstored
  | sets caller auths requested _ configured =>
      refine configured.standing.imp_right fun ⟨⟨value, frozen⟩, same⟩ => ⟨⟨caller, auths, value, ?_⟩, same⟩
      rw [frozen]
  | swaps => exact Or.inl rfl
  | updates _ start _ _ started updated => exact Or.inl (updated.standing.trans (started_standing started))
  | transacts _ start _ _ _ _ _ started transacted =>
      rw [transacted.config, ConfigWrapper.promoteConsensusParam_standing, ConfigWrapper.promoteEvmVersion_standing,
        ConfigWrapper.refresh_standing, started_standing started]
      exact Or.inl rfl

theorem chain (stored : wrapper.stored = true) (reconfigured : Reconfigures env wrapper request config effects) :
    config.chain = wrapper.chain :=
  (reconfigured.standing stored).elim (congrArg Prod.fst) And.right

theorem token (stored : wrapper.stored = true) (set : wrapper.getTokenSymbol ≠ Symbol.none)
    (stays : request.isSwap = false) (reconfigured : Reconfigures env wrapper request config effects) :
    config.token = wrapper.token := by
  have starting : ∀ start, start = wrapper ∨ start = (wrapper.promoteEvmVersion env.now).2 →
      start.token = wrapper.token := by
    rintro start (rfl | rfl)
    · rfl
    · exact ConfigWrapper.promoteEvmVersion_token wrapper env.now
  cases reconfigured with
  | starts _ _ _ _ _ _ _ unstored =>
      rw [stored] at unstored
      cases unstored
  | sets _ _ _ _ configured => exact configured.token set
  | swaps => cases stays
  | updates _ start _ _ started updated => exact updated.token.trans (starting start started)
  | transacts _ start _ _ _ _ _ started transacted =>
      rw [transacted.config, ConfigWrapper.promoteConsensusParam_token, ConfigWrapper.promoteEvmVersion_token,
        ConfigWrapper.refresh_token, starting start started]

end Reconfigures

variable {host : Host} {world next : World}

theorem Stepped.chain {label : Label} (stored : world.config.stored = true) (stepped : Stepped host world label next) :
    next.config.stored = true ∧ next.config.chain = world.config.chain := by
  cases stepped with
  | tick | submit | passed => exact ⟨stored, rfl⟩
  | handled view before after request rest holding contract handled =>
      obtain ⟨reconfigured, reloaded⟩ := handled.reconfigures
      have chain : contract.config.chain = world.config.chain := reconfigured.chain stored
      rw [reloaded]
      exact ⟨by simp [stored], chain⟩

/-- A request that is not a swap. -/
def keepsToken (_ : World) (request : Request) : Bool := !request.isSwap

theorem Stepped.token {label : Label} (stored : world.config.stored = true)
    (set : world.config.getTokenSymbol ≠ Symbol.none) (stepped : Stepped host world label next)
    (safe : ∀ view before after request rest holding contract, label = .next view before after →
      Handled host view before after request rest holding contract world → keepsToken world request = true) :
    next.config.token = world.config.token := by
  cases stepped with
  | tick | submit | passed => rfl
  | handled view before after request rest holding contract handled =>
      have stays := safe view before after request rest holding contract rfl handled
      obtain ⟨reconfigured, reloaded⟩ := handled.reconfigures
      have token : contract.config.token = world.config.token :=
        reconfigured.token stored set (by simpa [keepsToken] using stays)
      rw [reloaded]
      exact token

/-- Once there is a configuration, no run changes the chain id or the genesis time, and none
without a swap changes a token whose symbol is set. -/
theorem run_keepsChain (host : Host) (opening : World) (stored : opening.config.stored = true) (labels : List Label)
    (world : World) (finished : run host labels opening = .ok world) :
    world.config.stored = true ∧ world.config.cached.chainid = opening.config.cached.chainid ∧
      world.config.cached.genesisTime = opening.config.cached.genesisTime ∧
      (guarded host keepsToken labels opening = true → opening.config.getTokenSymbol ≠ Symbol.none →
        world.config.cached.tokenContract = opening.config.cached.tokenContract ∧
        world.config.getTokenSymbol = opening.config.getTokenSymbol) := by
  obtain ⟨kept, chain⟩ := run_invariant
    (fun reached => reached.config.stored = true ∧ reached.config.chain = opening.config.chain)
    (fun _ _ _ _ held stepped => ⟨(stepped.chain held.1).1, (stepped.chain held.1).2.trans held.2⟩)
    ⟨stored, rfl⟩ finished
  refine ⟨kept, congrArg Prod.fst chain, congrArg Prod.snd chain, fun stays set => ?_⟩
  have token := run_guarded
    (fun reached => reached.config.stored = true ∧ reached.config.token = opening.config.token)
    (fun current _ _ held stepped safe => by
      have still : current.config.getTokenSymbol ≠ Symbol.none := by
        rw [ConfigWrapper.getTokenSymbol_of_token held.2]
        exact set
      exact ⟨(stepped.chain held.1).1, (stepped.token held.1 still safe).trans held.2⟩)
    ⟨stored, rfl⟩ stays finished
  exact ⟨congrArg Prod.fst token.2, congrArg Prod.snd token.2⟩

theorem executions_append (first second : List Effect) :
    executions (first ++ second) = executions first ++ executions second := List.filterMap_append

theorem executions_sent (actions : List Inline) : executions (actions.map .sent) = [] := by
  induction actions with
  | nil => rfl
  | cons action actions ih => exact ih

theorem executions_quiet {effects : List Effect} (quiet : ∀ effect ∈ effects, effect.isQuiet = true) :
    executions effects = [] := by
  rw [executions, List.filterMap_eq_nil_iff]
  intro effect member
  cases effect with
  | sent action => rfl
  | ran execution => cases quiet _ member

theorem Reconfigures.executions {env : Env} {wrapper config : ConfigWrapper} {request : Request}
    {effects : List Effect} (reconfigured : Reconfigures env wrapper request config effects) :
    EosEvm.executions effects = [] ∨ wrapper.stored = true ∧ ∃ execution, EosEvm.executions effects = [execution] ∧
      execution.time = env.now ∧ execution.version = wrapper.getEvmVersion env.now := by
  cases reconfigured with
  | starts | sets => exact Or.inl rfl
  | swaps _ _ _ _ _ _ _ quiet => exact Or.inl (executions_quiet quiet)
  | updates _ _ _ _ _ _ quiet => exact Or.inl (executions_quiet quiet)
  | transacts _ start _ _ _ _ ready started transacted =>
      obtain ⟨payments, rlptx, rfl, _⟩ := transacted.effects
      refine Or.inr ⟨ready, _, (executions_append _ _).trans (by rw [executions_sent]; rfl), rfl, ?_⟩
      change (start.refresh env.now).getEvmVersion env.now = _
      rw [ConfigWrapper.getEvmVersion_refresh]
      rcases started with rfl | rfl
      · rfl
      · exact ConfigWrapper.getEvmVersion_promoteEvmVersion _ _

/-- The transactions of a world lie between the genesis and the present, in order. -/
structure World.Timely (world : World) : Prop where
  bounded : world.config.pricing.Bounded world.now
  genesis : world.config.cached.genesisTime * 1000000 ≤ world.now
  begun : executions world.history ≠ [] → world.config.stored = true
  past : ∀ execution ∈ executions world.history,
    world.config.cached.genesisTime * 1000000 ≤ execution.time ∧ execution.time ≤ world.now ∧
      execution.version ≤ world.config.getEvmVersion world.now
  ordered : (executions world.history).Pairwise fun first second =>
    first.time ≤ second.time ∧ first.version ≤ second.version

theorem World.Timely.tick {now : Nat} (timely : world.Timely) (later : world.now ≤ now) :
    ({ world with now := now } : World).Timely where
  bounded := timely.bounded.tick later
  genesis := timely.genesis.trans later
  begun := timely.begun
  past execution member := by
    obtain ⟨after, before, version⟩ := timely.past execution member
    refine ⟨after, before.trans later, version.trans ?_⟩
    change _ ≤ world.config.getEvmVersion now
    rw [← ConfigWrapper.version_pricing, ← ConfigWrapper.version_pricing]
    exact timely.bounded.calm.version_mono later
  ordered := timely.ordered

theorem Reconfigures.genesis {env : Env} {wrapper config : ConfigWrapper} {request : Request} {effects : List Effect}
    (reconfigured : Reconfigures env wrapper request config effects)
    (past : wrapper.cached.genesisTime * 1000000 ≤ env.now) : config.cached.genesisTime * 1000000 ≤ env.now := by
  cases stored : wrapper.stored with
  | true =>
      rw [ConfigWrapper.genesisTime_of_chain (reconfigured.chain stored)]
      exact past
  | false =>
      cases reconfigured with
      | starts _ _ _ _ _ _ config _ configured =>
          obtain ⟨_, _, _, _, _, rfl⟩ := ConfigWrapper.setFeeParameters_frame configured
          exact (Nat.mul_le_mul_right _ (Nat.mod_le _ _)).trans (Nat.div_mul_le_self env.now 1000000)
      | sets _ _ _ _ configured =>
          rw [ConfigWrapper.genesisTime_of_chain configured.chain]
          exact past
      | swaps => exact past
      | updates _ start _ _ started updated =>
          have same := updated.standing.trans (started_standing started)
          rw [ConfigWrapper.genesisTime_of_chain (congrArg Prod.fst same)]
          exact past
      | transacts _ _ _ _ _ _ ready =>
          rw [stored] at ready
          cases ready

section Handled

variable {view : ChainView} {before after : List Request} {request : Request} {rest : List Pending}
  {holding : Name → Symbol → Nat} {contract : Contract}

theorem Handled.version (handled : Handled host view before after request rest holding contract world) :
    (world.handled before after request rest holding contract).config.getEvmVersion world.now =
      world.config.getEvmVersion world.now := by
  by_contra changed
  obtain ⟨now, _, same⟩ := (Stepped.handled view before after request rest holding contract handled).version changed
  have stays : world.now = now := congrArg World.now same
  subst stays
  exact changed (congrArg (fun reached => reached.config.getEvmVersion world.now) same)

theorem Handled.keepsGenesis (handled : Handled host view before after request rest holding contract world)
    (stored : world.config.stored = true) :
    (world.handled before after request rest holding contract).config.stored = true ∧
      (world.handled before after request rest holding contract).config.cached.genesisTime =
        world.config.cached.genesisTime := by
  have stays := (Stepped.handled view before after request rest holding contract handled).chain stored
  exact ⟨stays.1, ConfigWrapper.genesisTime_of_chain stays.2⟩

theorem World.Timely.handled (timely : world.Timely)
    (handled : Handled host view before after request rest holding contract world) :
    (world.handled before after request rest holding contract).Timely := by
  obtain ⟨reconfigured, reloaded⟩ := handled.reconfigures
  have history : executions (world.handled before after request rest holding contract).history =
      executions world.history ++ executions contract.effects := executions_append _ _
  have version := handled.version
  have genesis : (world.handled before after request rest holding contract).config.cached.genesisTime * 1000000 ≤
      world.now := by
    rw [reloaded]
    exact reconfigured.genesis timely.genesis
  -- The transactions so far keep their place, and a new one comes last.
  have past : ∀ execution ∈ executions world.history,
      (world.handled before after request rest holding contract).config.cached.genesisTime * 1000000 ≤ execution.time ∧
        execution.time ≤ world.now ∧ execution.version ≤ world.config.getEvmVersion world.now := by
    intro execution member
    rw [(handled.keepsGenesis (timely.begun (List.ne_nil_of_mem member))).2]
    exact timely.past execution member
  refine ⟨?_, genesis, ?_, ?_, ?_⟩
  · exact timely.bounded.handled handled
  · rw [history]
    intro ran
    rcases reconfigured.executions with none | ⟨stored, _⟩
    · rw [none, List.append_nil] at ran
      exact (handled.keepsGenesis (timely.begun ran)).1
    · exact (handled.keepsGenesis stored).1
  · rw [history]
    intro execution member
    change _ ∧ execution.time ≤ world.now ∧ execution.version ≤ ConfigWrapper.getEvmVersion _ world.now
    rw [version]
    rcases List.mem_append.mp member with old | new
    · exact past execution old
    · rcases reconfigured.executions with none | ⟨_, ran, only, time, current⟩
      · rw [none] at new
        cases new
      · rw [only, List.mem_singleton] at new
        subst new
        exact ⟨genesis.trans_eq time.symm, time.le, current.le⟩
  · rw [history, List.pairwise_append]
    refine ⟨timely.ordered, ?_, ?_⟩
    · rcases reconfigured.executions with none | ⟨_, ran, only, _⟩
      · rw [none]
        exact List.Pairwise.nil
      · rw [only]
        exact List.pairwise_singleton _ _
    · intro first old second new
      obtain ⟨_, time, current⟩ := past first old
      rcases reconfigured.executions with none | ⟨_, ran, only, present, effective⟩
      · rw [none] at new
        cases new
      · rw [only, List.mem_singleton] at new
        subst new
        exact ⟨time.trans_eq present.symm, current.trans_eq effective.symm⟩

end Handled

theorem Stepped.timely {label : Label} (timely : world.Timely) (stepped : Stepped host world label next) :
    next.Timely := by
  cases stepped with
  | tick now _ later => exact timely.tick later
  | submit | passed => exact ⟨timely.bounded, timely.genesis, timely.begun, timely.past, timely.ordered⟩
  | handled view before after request rest holding contract handled => exact timely.handled handled

theorem run_timely {holding : Name → Symbol → Nat} {labels : List Label}
    (finished : run host labels (World.start holding) = .ok world) : world.Timely := by
  have start : (World.start holding).Timely :=
    ⟨Pricing.bounded_start holding, (Nat.zero_mul 1000000).le, fun ran => absurd rfl ran,
      fun _ member => (by cases member), List.Pairwise.nil⟩
  exact run_invariant World.Timely (fun _ _ _ _ timely stepped => stepped.timely timely) start finished

/-- In every run the transactions follow each other in time, in blocks and in versions; each ran
in the first EVM block or later, under a version not above the one in effect now. -/
theorem run_timeline (host : Host) (holding : Name → Symbol → Nat) (labels : List Label) (world : World)
    (finished : run host labels (World.start holding) = .ok world) :
    (executions world.history).Pairwise (fun first second => first.time ≤ second.time ∧
      timestampToEvmBlockNum world.config.cached.genesisTime first.time ≤
        timestampToEvmBlockNum world.config.cached.genesisTime second.time ∧
      first.version ≤ second.version) ∧
    ∀ execution ∈ executions world.history, execution.time ≤ world.now ∧
      1 ≤ timestampToEvmBlockNum world.config.cached.genesisTime execution.time ∧
      execution.version ≤ world.config.getEvmVersion world.now := by
  have timely := run_timely finished
  refine ⟨timely.ordered.imp fun ⟨time, version⟩ => ⟨time, timestampToEvmBlockNum_mono _ time, version⟩, ?_⟩
  intro execution member
  obtain ⟨after, before, version⟩ := timely.past execution member
  refine ⟨before, ?_, version⟩
  have reached : world.config.cached.genesisTime ≤ execution.time / 1000000 :=
    (Nat.le_div_iff_mul_le (by decide)).mpr after
  rw [timestampToEvmBlockNum, if_neg (Nat.not_lt.mpr reached)]
  exact Nat.le_add_right _ _

def Ledger.threeCalls : List Label :=
  Ledger.requestedOne ++ Ledger.act Ledger.alice (Ledger.callNothing Ledger.alice 21000) 1 ++ Ledger.later 1 ++
    Ledger.act Ledger.alice (Ledger.callNothing Ledger.alice 21000) 1 ++ Ledger.later 61 ++
    Ledger.act Ledger.alice (Ledger.callNothing Ledger.alice 21000) 1

theorem run_timeline_threeCalls :
    ∃ world, run Ledger.host Ledger.threeCalls (World.start fun _ _ => 0) = .ok world ∧
      (executions world.history).map Execution.version = [0, 1, 1] ∧
      (executions world.history).Pairwise fun first second => first.time ≤ second.time ∧
        timestampToEvmBlockNum world.config.cached.genesisTime first.time ≤
          timestampToEvmBlockNum world.config.cached.genesisTime second.time ∧
        first.version ≤ second.version := by
  obtain ⟨world, finished, seen⟩ := exists_of_view
    (run Ledger.host Ledger.threeCalls (World.start fun _ _ => 0))
    (fun world => (executions world.history).map Execution.version) [0, 1, 1] (by decide +kernel)
  exact ⟨world, finished, seen, (run_timeline Ledger.host _ _ world finished).1⟩

theorem run_keepsChain_calls :
    ∃ opening world, run Ledger.host Ledger.opening (World.start fun _ _ => 0) = .ok opening ∧
      run Ledger.host (Ledger.act Ledger.self (.setversion 1) 0 ++ Ledger.later 1) opening = .ok world ∧
      opening.config.stored = true ∧ world.config.cached.chainid = 15555 ∧
      world.config.getTokenSymbol = Ledger.eos := by
  obtain ⟨opening, reached, seen⟩ := exists_of_view (run Ledger.host Ledger.opening (World.start fun _ _ => 0))
    (fun opening => decide (opening.config.stored = true ∧ opening.config.cached.chainid = 15555 ∧
      opening.config.getTokenSymbol = Ledger.eos ∧
      guarded Ledger.host keepsToken (Ledger.act Ledger.self (.setversion 1) 0 ++ Ledger.later 1) opening = true ∧
      (run Ledger.host (Ledger.act Ledger.self (.setversion 1) 0 ++ Ledger.later 1) opening).isOk = true)) true
    (by decide +kernel)
  obtain ⟨stored, chainid, symbol, stays, continues⟩ := of_decide_eq_true seen
  obtain ⟨world, finished⟩ := exists_of_isOk continues
  obtain ⟨_, same, _, token⟩ := run_keepsChain Ledger.host opening stored _ world finished
  have set : opening.config.getTokenSymbol ≠ Symbol.none := by
    rw [symbol]
    decide
  exact ⟨opening, world, reached, finished, stored, same.trans chainid, (token stays set).2.trans symbol⟩

end EosEvm

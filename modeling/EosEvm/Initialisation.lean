import EosEvm.Nonces
import EosEvm.ConfigAuthority

/-! Initialisation. The row of the configuration is the only record that `init` ran, but some
setters create it too: after one of them `init` can never run. -/

namespace EosEvm

open Abort

def Action.createsConfig : Action → Bool
  | .setversion _ | .setgasprices _ | .setgaslimit _ => true
  | _ => false

variable {env : Env} {before after : Contract}

/-- Before `init`, what does not create the configuration leaves it alone. -/
theorem Action.run_unstored {action : Action} (fresh : before.config.cached = {})
    (unstored : before.config.stored = false) (noInevm : before.funds.inevm = none)
    (waits : action.createsConfig = false)
    (other : ∀ chainid fees tokenContract, action ≠ .init chainid fees tokenContract) (ran : action.run env before = .ok after) :
    after.config = before.config ∧ after.funds.inevm = none := by
  have version : before.config.getEvmVersion env.now = 0 := by
    simp [ConfigWrapper.getEvmVersion, fresh, ValuePromoter.getValue]
  cases action with
  | init chainid fees tokenContract => exact absurd rfl (other chainid fees tokenContract)
  | setversion | setgasprices | setgaslimit => cases waits
  | setfeeparams | addegress | removeegress =>
      simp [Action.run, Contract.setfeeparams, Contract.addegress, Contract.removeegress, unstored] at ran
  | freeze =>
      simp only [Action.run, Contract.freeze, bind_ok, assertInited_ok, unstored] at ran
      obtain ⟨_, _, _, ⟨⟨⟩, _⟩, _⟩ := ran
  | exec | pushtx | «open» | close | withdraw | gc =>
      simp [Action.run, Contract.exec, Contract.pushtx, Contract.open, Contract.close, Contract.withdraw,
        Contract.gc, unstored] at ran
  | call | callotherpay | admincall | bridgereg | bridgeunreg =>
      simp [Action.run, Contract.call, Contract.callotherpay, Contract.admincall, Contract.bridgereg,
        Contract.bridgeunreg, unstored] at ran
  | assertnonce | evmtx | configchange =>
      simp only [Action.run, Contract.assertnonce, Contract.event, bind_ok, check_ok, exists_const, pure_ok] at ran
      obtain ⟨_, rfl⟩ := ran
      exact ⟨rfl, noInevm⟩
  | updtgasparam =>
      simp only [Action.run, Contract.updtgasparam, bind_ok] at ran
      obtain ⟨_, _, config, updated, _⟩ := ran
      obtain ⟨_, _, _, _, active, _⟩ := ConfigWrapper.updateConsensusParameters_ok updated
      omega
  | setgasparam =>
      simp only [Action.run, Contract.setgasparam, bind_ok] at ran
      obtain ⟨_, _, config, updated, _⟩ := ran
      have active := (ConfigWrapper.updateConsensusParameters2_ok updated).1
      omega
  | swapgastoken | migratebal =>
      simp [Action.run, Contract.swapgastoken, Contract.migratebal, noInevm] at ran
  | rmgcstore | setkvstore | rmaccount | freezeaccnt =>
      simp only [Action.run] at ran
      obtain ⟨_, _, _, rfl⟩ := Contract.editDb_ok ran
      exact ⟨rfl, noInevm⟩
  | addevmbal id delta subtract =>
      obtain ⟨_, _, _, _, _, _, adjusted, _⟩ := Contract.addevmbal_ok ran
      cases subtract <;> simp [Contract.adjustEvm, Funds.leaveEvm, Funds.enterEvm, noInevm] at adjusted
  | addopenbal account delta subtract =>
      obtain ⟨_, _, _, adjusted, rfl⟩ := Contract.addopenbal_ok ran
      refine ⟨rfl, ?_⟩
      cases subtract <;> simp only [Contract.adjustOpen, Funds.debit, Funds.credit, bind_ok, pure_ok, if_true,
        Bool.false_eq_true, if_false] at adjusted
      · obtain ⟨_, _, _, _, rfl⟩ := adjusted
        exact noInevm
      · obtain ⟨_, _, _, _, rfl⟩ := adjusted
        exact noInevm

/-- The fee parameters that `init` accepts: all given, and each within its bounds. -/
structure FeeParameters.Valid (fees : FeeParameters) (fee : Asset) : Prop where
  gasPrice : fees.gasPrice.isSome = true
  minerCut : ∃ cut, fees.minerCut = some cut ∧ cut ≤ ninetyPercent
  ingressBridgeFee : fees.ingressBridgeFee = some fee
  symbol : fee.symbol.isValid = true
  precise : fee.symbol.precision ≤ evmPrecision
  nonneg : 0 ≤ fee.amount

theorem ConfigWrapper.setFeeParameters_valid (wrapper : ConfigWrapper) {fees : FeeParameters} {fee : Asset}
    {now : Nat} (unset : wrapper.getTokenSymbol = Symbol.none) (version : wrapper.getEvmVersion now = 0)
    (valid : fees.Valid fee) :
    ∃ config, wrapper.setFeeParameters fees false now = .ok config ∧ config.getTokenSymbol = fee.symbol := by
  obtain ⟨price, priced⟩ := Option.isSome_iff_exists.mp valid.gasPrice
  obtain ⟨cut, mined, small⟩ := valid.minerCut
  let charged := wrapper.setGasPrice price
  let shared : ConfigWrapper := { charged with cached := { charged.cached with minerCut := cut } }
  have priceSet : wrapper.setFeeGasPrice fees.gasPrice false now = .ok charged := by
    simp [charged, setFeeGasPrice, priced, version]
  have cutSet : charged.setFeeMinerCut fees.minerCut false now = .ok shared := by
    rw [mined]
    exact (bind_ok _ _ _).mpr ⟨(), (check_ok _ _ ()).mpr version, (bind_ok _ _ _).mpr
      ⟨(), (check_ok _ _ ()).mpr small, rfl⟩⟩
  have feeSet : shared.setFeeIngressBridgeFee fees.ingressBridgeFee false =
      .ok (shared.set fun config => { config with ingressBridgeFee := fee }) := by
    rw [valid.ingressBridgeFee]
    exact (bind_ok _ _ _).mpr ⟨(), (check_ok _ _ ()).mpr (Or.inl unset), (bind_ok _ _ _).mpr
      ⟨(), (check_ok _ _ ()).mpr valid.nonneg, (bind_ok _ _ _).mpr ⟨(), (check_ok _ _ ()).mpr valid.precise, rfl⟩⟩⟩
  refine ⟨(shared.set fun config => { config with ingressBridgeFee := fee }).set id, ?_, rfl⟩
  rw [setFeeParameters, priceSet, ok_bind, cutSet, ok_bind, feeSet, ok_bind]
  rfl

theorem Contract.init_succeeds {chainid : Nat} {fees : FeeParameters} {fee : Asset} (tokenContract : Option Name)
    (fresh : before.config.cached = {}) (unstored : before.config.stored = false)
    (authorised : env.self ∈ env.auths) (known : env.evm.lookupKnownChain chainid = true) (valid : fees.Valid fee) :
    ∃ after, init env chainid fees tokenContract before = .ok after := by
  obtain ⟨config, configured, symbol⟩ := ConfigWrapper.setFeeParameters_valid
    (before.config.set fun config =>
      { config with version := 0, chainid := chainid, genesisTime := Words.u32 (env.now / 1000000) })
    (show _ = Symbol.none by simp [ConfigWrapper.getTokenSymbol, ConfigWrapper.set, fresh])
    (show ConfigWrapper.getEvmVersion _ env.now = 0 by
      simp [ConfigWrapper.getEvmVersion, ConfigWrapper.set, fresh, ValuePromoter.getValue]) valid
  have zero : Asset.make 0 fee.symbol = .ok ⟨0, fee.symbol⟩ :=
    (Asset.make_ok _ _ _).mpr ⟨by decide, valid.symbol, rfl⟩
  have created : initialInevm fees before.funds.inevm =
      .ok (before.funds.inevm.getD { balance := ⟨0, fee.symbol⟩ }) := by
    simp only [initialInevm, valid.ingressBridgeFee, bind_ok, require_ok, pure_ok]
    exact ⟨fee, rfl, _, zero, rfl⟩
  obtain ⟨balances, opened⟩ : ∃ balances,
      openRow env.self config.getTokenSymbol before.funds.balances = .ok balances := by
    unfold openRow
    split
    · exact ⟨_, rfl⟩
    · rw [symbol, zero, ok_bind]
      exact ⟨_, rfl⟩
  have checked : requireAuth env env.self = .ok () := (requireAuth_ok _ _ ()).mpr authorised
  simp only [init, checked, ok_bind, (check_ok _ _ ()).mpr unstored, (check_ok _ _ ()).mpr known, configured, created]
  exact ⟨_, (bind_ok _ _ _).mpr ⟨balances, opened, rfl⟩⟩

namespace ConfigWrapper

variable {wrapper config : ConfigWrapper} {now : Nat}

theorem promoteEvmVersion_layout (wrapper : ConfigWrapper) (now : Nat) :
    (wrapper.promoteEvmVersion now).2.cached.version = wrapper.cached.version := by
  obtain ⟨_, _, same⟩ := promoteEvmVersion_eq wrapper now
  rw [same]

theorem refresh_layout (wrapper : ConfigWrapper) (now : Nat) :
    (wrapper.refresh now).cached.version = wrapper.cached.version := by
  obtain ⟨_, _, _, _, _, _, same⟩ := refresh_eq wrapper now
  rw [same]

theorem Updates.layout (updates : wrapper.Updates now config) : config.cached.version = wrapper.cached.version := by
  cases updates with
  | same => rfl
  | refreshed => exact refresh_layout wrapper now
  | promoted => exact (promoteEvmVersion_layout _ now).trans (refresh_layout wrapper now)

theorem Configures.layout {requested : Action} (configures : wrapper.Configures now requested config) :
    config.cached.version = wrapper.cached.version := by
  cases configures with
  | setfeeparams fees after updated =>
      obtain ⟨_, _, _, _, _, rfl⟩ := setFeeParameters_frame updated
      rfl
  | freeze | setgaslimit => rfl
  | setversion version after updated =>
      obtain ⟨_, _, _, _, _, rfl⟩ := setEvmVersion_ok updated
      rfl
  | updtgasparam ramPriceMb storagePrice after updated =>
      obtain ⟨scheduled, _, rfl, _, _, ⟨_, queued⟩ | ⟨_, queued⟩⟩ := updateConsensusParameters_ok updated
      · obtain ⟨_, _, _, rfl⟩ := enqueueGasPrices_eq queued
        rfl
      · obtain ⟨_, _, _, rfl⟩ := enqueueGasPrice_eq queued
        rfl
  | setgasparam _ _ _ _ _ after updated =>
      obtain ⟨_, _, rfl⟩ := updateConsensusParameters2_ok updated
      rfl
  | enqueued prices after active queued =>
      obtain ⟨_, _, _, rfl⟩ := enqueueGasPrices_eq queued
      exact promoteEvmVersion_layout wrapper now
  | replaced => exact promoteEvmVersion_layout wrapper now

end ConfigWrapper

theorem Reconfigures.layout {wrapper config : ConfigWrapper} {request : Request} {effects : List Effect}
    (zero : wrapper.cached.version = 0) (reconfigured : Reconfigures env wrapper request config effects) :
    config.cached.version = 0 ∧ (request.isInit = true → config.dirty = true) := by
  have starting : ∀ start, start = wrapper ∨ start = (wrapper.promoteEvmVersion env.now).2 →
      start.cached.version = 0 := by
    rintro start (rfl | rfl)
    · exact zero
    · exact (ConfigWrapper.promoteEvmVersion_layout wrapper env.now).trans zero
  have plainly : ∀ {request : Request}, request.isSetter = false → request.isInit = true → config.dirty = true := by
    intro request plain initial
    unfold Request.isInit at initial
    split at initial <;> first | cases plain | cases initial
  cases reconfigured with
  | starts _ _ _ _ _ _ started _ configured =>
      obtain ⟨_, _, _, _, _, rfl⟩ := ConfigWrapper.setFeeParameters_frame configured
      exact ⟨rfl, fun _ => rfl⟩
  | sets _ _ _ _ configured =>
      refine ⟨configured.layout.trans zero, fun initial => ?_⟩
      cases configured <;> cases initial
  | swaps => exact ⟨zero, fun initial => by cases initial⟩
  | updates _ start _ _ started updated _ plain =>
      exact ⟨updated.layout.trans (starting start started), plainly plain⟩
  | transacts _ start _ _ _ _ _ started transacted plain =>
      refine ⟨?_, plainly plain⟩
      obtain ⟨_, same⟩ := ConfigWrapper.promoteConsensusParam_eq
        (((start.refresh env.now).promoteEvmVersion env.now).2) env.now
      rw [transacted.config, same]
      exact ((ConfigWrapper.promoteEvmVersion_layout _ _).trans (ConfigWrapper.refresh_layout _ _)).trans
        (starting start started)

/-- Before `init`, a request that does not create the configuration leaves it alone. -/
theorem Request.run_unstored {request : Request} (fresh : before.config.cached = {})
    (unstored : before.config.stored = false) (noInevm : before.funds.inevm = none)
    (waits : ∀ caller auths action, request = .action caller auths action → action.createsConfig = false)
    (other : request.isInit = false) (ran : request.run env before = .ok after) :
    after.config = before.config ∧ after.funds.inevm = none := by
  cases request with
  | action caller auths action =>
      refine Action.run_unstored fresh unstored noInevm (waits caller auths action rfl) ?_ ran
      rintro chainid fees tokenContract rfl
      cases other
  | transfer token sender recipient quantity memo =>
      simp [Request.run, Contract.transfer, unstored] at ran

/-- A request is safe unless it creates the configuration before `init` does. -/
def awaitsInit (world : World) : Request → Bool
  | .action _ _ action => world.config.stored || !action.createsConfig
  | .transfer _ _ _ _ _ => true

/-- The times at which `init` is handled. -/
def inits (world : World) (request : Request) : List Nat := if request.isInit then [world.now] else []

/-- The configuration is there as the journal of `init` says. -/
structure World.Initialised (world : World) (journal : List Nat) : Prop where
  begun : world.config.stored = true ↔ journal ≠ []
  unfunded : world.config.stored = false → world.tables.funds.inevm = none
  layout : world.config.cached.version = 0

variable {host : Host} {world : World}

theorem Handled.initialised {view : ChainView} {others later : List Request} {request : Request} {rest : List Pending}
    {holding : Name → Symbol → Nat} {contract : Contract} {journal : List Nat} (initialised : world.Initialised journal)
    (handled : Handled host view others later request rest holding contract world)
    (safe : awaitsInit world request = true) :
    (world.handled others later request rest holding contract).Initialised (journal ++ inits world request) := by
  obtain ⟨reconfigured, reloaded⟩ := handled.reconfigures
  obtain ⟨layout, dirty⟩ := reconfigured.layout initialised.layout
  cases stored : world.config.stored with
  | true =>
      have begun := initialised.begun.mp stored
      refine ⟨?_, ?_, ?_⟩ <;> simp [reloaded, stored, layout, begun]
  | false =>
      have empty : journal = [] := by
        by_contra nonempty
        rw [initialised.begun.mpr nonempty] at stored
        cases stored
      cases initial : request.isInit with
      | true =>
          refine ⟨?_, ?_, ?_⟩ <;> simp [reloaded, dirty initial, layout, inits, initial]
      | false =>
          obtain ⟨same, noInevm⟩ := Request.run_unstored (load_fresh stored) stored (initialised.unfunded stored)
            (by rintro caller auths action rfl; simpa [awaitsInit, stored] using safe) initial handled.ran
          have clean : contract.config.dirty = false := congrArg ConfigWrapper.dirty same
          refine ⟨?_, fun _ => noInevm, ?_⟩ <;> simp [reloaded, clean, stored, layout, empty, inits, initial]

theorem Stepped.initialised {label : Label} {next : World} {journal : List Nat} (initialised : world.Initialised journal)
    (stepped : Stepped host world label next)
    (safe : ∀ view before after request rest holding contract, label = .next view before after →
      Handled host view before after request rest holding contract world → awaitsInit world request = true) :
    next.Initialised (journal ++ entries host inits world label) := by
  cases stepped with
  | tick | submit =>
      rw [entries, List.append_nil]
      exact ⟨initialised.begun, initialised.unfunded, initialised.layout⟩
  | handled view before after request rest holding contract handled =>
      rw [entries_handled inits handled]
      exact handled.initialised initialised (safe _ _ _ _ _ _ _ rfl handled)
  | passed view before after sent rest top away =>
      rw [entries_passed inits top away, List.append_nil]
      exact ⟨initialised.begun, initialised.unfunded, initialised.layout⟩

/-- In every run in which no setter creates the configuration first, it is there exactly
when `init` was handled, `assert_inited` passes from then on, and until then `init` succeeds
with valid arguments. -/
theorem run_initialised (host : Host) (holding : Name → Symbol → Nat) (labels : List Label) (world : World)
    (waits : guarded host awaitsInit labels (World.start holding) = true)
    (finished : run host labels (World.start holding) = .ok world) :
    (world.tables.config.isSome = true ↔ noted host inits labels (World.start holding) ≠ []) ∧
      (assertInited world.config = .ok () ↔ noted host inits labels (World.start holding) ≠ []) ∧
      (noted host inits labels (World.start holding) = [] →
        ∀ (view : ChainView) (now : Nat) (caller : Option Name) (auths : List Name) (chainid : Nat)
          (fees : FeeParameters) (fee : Asset) (tokenContract : Option Name),
          host.self ∈ auths → host.evm.lookupKnownChain chainid = true → fees.Valid fee →
          ∃ contract, (Request.action caller auths (.init chainid fees tokenContract)).run
            (host.env view now (.action caller auths (.init chainid fees tokenContract)))
            (Contract.load world.tables) = .ok contract) := by
  have start : (World.start holding).Initialised [] :=
    ⟨by simp [World.config, World.start, Contract.load, ConfigWrapper.load], fun _ => rfl, rfl⟩
  have reached := run_noted inits World.Initialised (fun _ _ _ _ initialised stepped safe =>
    stepped.initialised initialised safe) start waits finished
  rw [List.nil_append] at reached
  have stored : world.config.stored = world.tables.config.isSome := rfl
  refine ⟨by rw [← stored]; exact reached.begun, ?_, ?_⟩
  · rw [assertInited_ok, ← reached.begun]
    exact and_iff_left reached.layout
  · intro none view now caller auths chainid fees fee tokenContract authorised known valid
    have unstored : world.config.stored = false := by
      rw [← Bool.not_eq_true, reached.begun]
      exact fun nonempty => nonempty none
    exact Contract.init_succeeds tokenContract (load_fresh unstored) unstored authorised known valid

def Ledger.begin : Request :=
  .action none [self] (.init 15555 ⟨some 150000000000, some 10000, some ⟨100, eos⟩⟩ none)

/-- Anyone may set the gas limit before `init`, which then can never run. -/
theorem setgaslimit_preventsInit :
    ∃ world, run Ledger.host (Ledger.act Ledger.alice (.setgaslimit 0) 0) (World.start fun _ _ => 0) = .ok world ∧
      noted Ledger.host inits (Ledger.act Ledger.alice (.setgaslimit 0) 0) (World.start fun _ _ => 0) = [] ∧
      world.tables.config.isSome = true ∧ assertInited world.config = .ok () ∧
      Ledger.begin.run (Ledger.host.env Ledger.view world.now Ledger.begin) (Contract.load world.tables) =
        .error "contract already initialized" := by
  obtain ⟨world, reached, seen⟩ := exists_of_view
    (run Ledger.host (Ledger.act Ledger.alice (.setgaslimit 0) 0) (World.start fun _ _ => 0))
    (fun world => decide (world.tables.config.isSome = true ∧ (assertInited world.config).isOk = true ∧
      (Ledger.begin.run (Ledger.host.env Ledger.view world.now Ledger.begin) (Contract.load world.tables)).map
        (fun _ => ()) = .error "contract already initialized")) true (by decide +kernel)
  obtain ⟨stored, ready, refused⟩ := of_decide_eq_true seen
  obtain ⟨_, inited⟩ := exists_of_isOk ready
  exact ⟨world, reached, by decide +kernel, stored, inited, error_of_map refused⟩

theorem run_initialised_opening :
    ∃ world, run Ledger.host Ledger.opening (World.start fun _ _ => 0) = .ok world ∧
      world.tables.config.isSome = true ∧ assertInited world.config = .ok () := by
  obtain ⟨world, reached⟩ := exists_of_isOk (show (run Ledger.host Ledger.opening (World.start fun _ _ => 0)).isOk = true
    by decide +kernel)
  have began : noted Ledger.host inits Ledger.opening (World.start fun _ _ => 0) ≠ [] := by decide +kernel
  obtain ⟨stored, inited, _⟩ := run_initialised Ledger.host _ Ledger.opening world (by decide +kernel) reached
  exact ⟨world, reached, stored.mpr began, inited.mpr began⟩

end EosEvm

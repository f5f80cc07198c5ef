import EosEvm.Redeem
import EosEvm.Senders

/-! The two ways of `dispatch_tx`. Below version 1 the contract does not run its own transaction
but sends it to itself encoded. When nothing comes in between, the action that follows does what
running the transaction at once would have done. -/

namespace EosEvm

open Abort

def ConfigWrapper.marked (config : ConfigWrapper) (dirty stored : Bool) : ConfigWrapper :=
  { config with dirty := dirty, stored := stored }

theorem processTx_asked (host : Host) (view : ChainView) (now : Nat) (first second : Request) (rc : RuntimeConfig)
    (miner : Name) (txn : Txn) (minPrice : Option Nat) :
    processTx (host.env view now first) rc miner txn minPrice =
      processTx (host.env view now second) rc miner txn minPrice := rfl

variable {env : Env} {contract : Contract}

theorem ConfigWrapper.promoteEvmVersion_still {config : ConfigWrapper} {now : Nat}
    (still : (config.cached.evmVersion.maybePromote config.cached.genesisTime now).2 = false) :
    config.promoteEvmVersion now = (config.getEvmVersion now, config) := by
  refine Prod.ext (promoteEvmVersion_fst config now) ?_
  simp only [promoteEvmVersion, still]
  rfl

theorem ConfigWrapper.promoteConsensusParam_still (config : ConfigWrapper) {now : Nat}
    (still : (config.promoteConsensusParam now).2.1 = false) : (config.promoteConsensusParam now).2.2 = config := by
  simp only [promoteConsensusParam] at still ⊢
  rw [still]
  rfl

theorem sendTransfers_marked (config : ConfigWrapper) (dirty stored : Bool) (unit : Nat)
    (messages : List FilteredMessage) (marks : List Bool) :
    sendTransfers (config.marked dirty stored) unit messages marks = sendTransfers config unit messages marks := by
  induction messages generalizing marks with
  | nil => rfl
  | cons message messages ih =>
      cases marks with
      | nil => rfl
      | cons mark marks =>
          simp only [sendTransfers, ih]
          rfl

theorem executeTx_marked (env : Env) (context : TxContext) (dirty stored : Bool) (funds : Funds) :
    executeTx env { context with config := context.config.marked dirty stored } funds = executeTx env context funds := by
  simp only [executeTx, settleTx, egressFunds, sendTransfers_marked]
  rfl

theorem processTx_marked (rc : RuntimeConfig) (miner : Name) (txn : Txn) (minPrice : Option Nat) (dirty stored : Bool)
    (still : (contract.config.cached.evmVersion.maybePromote contract.config.cached.genesisTime env.now).2 = false)
    (zero : contract.config.getEvmVersion env.now = 0) :
    processTx env rc miner txn minPrice { contract with config := contract.config.marked dirty stored } =
      (fun after => { after with config := after.config.marked dirty stored }) <$>
        processTx env rc miner txn minPrice contract := by
  have same := ConfigWrapper.promoteEvmVersion_still still
  have marked : (contract.config.marked dirty stored).promoteEvmVersion env.now =
      (contract.config.getEvmVersion env.now, contract.config.marked dirty stored) :=
    ConfigWrapper.promoteEvmVersion_still (by exact still)
  simp only [processTx, same, marked, zero, map_bind]
  refine bind_congr fun tx => bind_congr fun _ => ?_
  cases promoted : (contract.config.promoteConsensusParam env.now).2.1 with
  | true =>
      have refused : ((contract.config.marked dirty stored).promoteConsensusParam env.now).2.1 = true := promoted
      simp only [refused]
      rfl
  | false =>
      have unpromoted : ((contract.config.marked dirty stored).promoteConsensusParam env.now).2.1 = false := promoted
      simp only [unpromoted, ConfigWrapper.promoteConsensusParam_still _ promoted,
        ConfigWrapper.promoteConsensusParam_still _ unpromoted]
      refine bind_congr fun _ => bind_congr fun _ => bind_congr fun _ => ?_
      let context : TxContext := {
        config := contract.config
        rc := rc
        miner := miner
        header := blockHeader env contract.config 0
        gasParams := (contract.config.promoteConsensusParam env.now).1
        tx := tx
        egresslist := contract.egresslist
        db := contract.db }
      refine congr (congrArg _ (executeTx_marked env context dirty stored contract.funds)) (funext fun executed => ?_)
      exact bind_congr fun delivered => bind_congr fun db => rfl

theorem processTx_config {rc : RuntimeConfig} {miner : Name} {txn : Txn} {minPrice : Option Nat} {after : Contract}
    (still : (contract.config.cached.evmVersion.maybePromote contract.config.cached.genesisTime env.now).2 = false)
    (zero : contract.config.getEvmVersion env.now = 0)
    (processed : processTx env rc miner txn minPrice contract = .ok after) : after.config = contract.config := by
  have same := ConfigWrapper.promoteEvmVersion_still still
  obtain ⟨_, _, _, _, _, _, _, _, _, _, allowed, _, _, _, _, _, rfl⟩ := processTx_ok processed
  rw [same, zero] at allowed
  rw [same]
  exact ConfigWrapper.promoteConsensusParam_still _ (allowed.resolve_right (by simp))

theorem processTx_encoded {tx : Transaction} {rlptx : Bytes} (rc : RuntimeConfig) (miner : Name) (minPrice : Option Nat)
    (encoded : rlptx = env.evm.encodeTransaction tx) (decoded : env.evm.decodeTransaction rlptx = some tx) :
    processTx env rc miner (.ofRlp rlptx) minPrice contract = processTx env rc miner (.ofTx tx) minPrice contract := by
  have read : (Txn.ofRlp rlptx).getTx env.evm = .ok tx := (require_ok _ _ _).mpr decoded
  have direct : (Txn.ofTx tx).getTx env.evm = .ok tx := rfl
  have bytes : (Txn.ofRlp rlptx).getRlptx env.evm = (Txn.ofTx tx).getRlptx env.evm := encoded
  simp only [processTx, read, direct, bytes]

theorem Contract.Bridges.ready {before middle after : Contract} {request : Request} {payer : Option Name}
    {tx : Transaction} (bridges : Bridges env before request payer tx middle)
    (ran : request.run env before = .ok after) : assertUnfrozen before.config = .ok () := by
  cases bridges with
  | call | callotherpay | admincall | ingress =>
      simp only [Request.run, Action.run, Contract.call, Contract.callotherpay, Contract.admincall, Contract.transfer,
        bind_ok] at ran
      obtain ⟨⟨⟩, ready, _⟩ := ran
      exact ready

theorem Contract.Does.sends {before after : Contract} {request : Request} {miner : Name} {rlptx : Bytes}
    (fresh : before.effects = []) (did : Does env before request after)
    (member : .pushtx miner rlptx ∈ sentActions after.effects) :
    ∃ tx middle, Bridges env before request none tx middle ∧ rlptx = env.evm.encodeTransaction tx ∧
      miner = env.self ∧ (middle.config.promoteEvmVersion env.now).1 = 0 ∧
      after = { middle with config := (middle.config.promoteEvmVersion env.now).2 }.emit (.pushtx miner rlptx) := by
  rcases did.quiet_or fresh with quiet | ⟨_, _, _, _, _, _, processed⟩ | ⟨payer, tx, middle, bridges, dispatched⟩
  · cases quiet.silent _ (mem_sentActions.mp member)
  · refine absurd member (processTx_pushes ?_ processed)
    rw [refreshPrices_eq]
    exact fresh
  · have silent := bridges.effects.1.trans fresh
    rcases dispatchTx_ok dispatched with ⟨_, processed⟩ | ⟨zero, unpaid, rfl⟩
    · exact absurd member (processTx_pushes (by exact silent) processed)
    · simp only [sentActions_emit, silent, sentActions_nil, List.nil_append, List.mem_singleton,
        Inline.pushtx.injEq] at member
      obtain ⟨rfl, rfl⟩ := member
      have free : payer = none := unpaid
      subst free
      exact ⟨tx, middle, bridges, rfl, rfl, zero, rfl⟩

theorem Contract.Bridges.unfrozen {before middle : Contract} {request : Request} {payer : Option Name} {tx : Transaction}
    (bridges : Bridges env before request payer tx middle) (ready : assertUnfrozen before.config = .ok ())
    (dirty : Bool) :
    assertUnfrozen ((middle.config.promoteEvmVersion env.now).2.marked dirty true) = .ok () := by
  obtain ⟨start, started, refreshed⟩ := bridges.config
  obtain ⟨⟨_, layout⟩, status⟩ := (assertUnfrozen_ok _ ()).mp ready
  have same : start.cached.version = before.config.cached.version ∧ start.standing = before.config.standing := by
    rcases started with rfl | rfl
    · exact ⟨rfl, rfl⟩
    · exact ⟨ConfigWrapper.promoteEvmVersion_layout _ _, ConfigWrapper.promoteEvmVersion_standing _ _⟩
  have standing : (middle.config.promoteEvmVersion env.now).2.standing = before.config.standing := by
    rw [ConfigWrapper.promoteEvmVersion_standing, refreshed, ConfigWrapper.refresh_standing, same.2]
  have version : (middle.config.promoteEvmVersion env.now).2.cached.version = before.config.cached.version := by
    rw [ConfigWrapper.promoteEvmVersion_layout, refreshed, ConfigWrapper.refresh_layout, same.1]
  have kept : (middle.config.promoteEvmVersion env.now).2.cached.status = before.config.cached.status :=
    congrArg Prod.snd standing
  exact (assertUnfrozen_ok _ ()).mpr ⟨⟨rfl, version.trans layout⟩, kept ▸ status⟩

theorem ConfigWrapper.promoteEvmVersion_settled (config : ConfigWrapper) (now : Nat) :
    ((config.promoteEvmVersion now).2.cached.evmVersion.maybePromote
      (config.promoteEvmVersion now).2.cached.genesisTime now).2 = false := by
  obtain ⟨_, _, same⟩ := promoteEvmVersion_eq config now
  rw [same]
  exact congrArg Prod.snd (ValuePromoter.maybePromote_twice _ _ _)

variable {host : Host} {world : World}

def Host.pushes (host : Host) (rlptx : Bytes) : Request := .action (some host.self) [host.self] (.pushtx host.self rlptx none)

def World.inPlace (host : Host) (world : World) (later : List Request) (rest : List Pending)
    (holding : Name → Symbol → Nat) (rlptx : Bytes) (direct : Contract) : World :=
  { world with
    tables := direct.store world.tables
    holding := holding
    stack := scheduled (host.pushes rlptx) direct.effects ++ (later.map .request ++ rest)
    history := world.history ++ [.sent (.pushtx host.self rlptx)] ++ direct.effects }

theorem Host.pushes_runs {tx : Transaction} {rlptx : Bytes} (view : ChainView) (now : Nat) (request : Request)
    (stored : Bool) (encoded : rlptx = host.evm.encodeTransaction tx)
    (decoded : host.evm.decodeTransaction rlptx = some tx)
    (still : (contract.config.cached.evmVersion.maybePromote contract.config.cached.genesisTime now).2 = false)
    (zero : contract.config.getEvmVersion now = 0)
    (unfrozen : assertUnfrozen (contract.config.marked false stored) = .ok ()) :
    (host.pushes rlptx).run (host.env view now (host.pushes rlptx))
        { contract with config := contract.config.marked false stored } =
      (fun after => { after with config := after.config.marked false stored }) <$>
        processTx (host.env view now request) (bridgeConfig none) host.self (.ofTx tx) none contract := by
  have fresh : refreshPrices (host.env view now (host.pushes rlptx))
      { contract with config := contract.config.marked false stored } =
        { contract with config := contract.config.marked false stored } :=
    if_neg (by exact zero ▸ Nat.not_succ_le_zero 0)
  have relaxed : Contract.pushtxConfig (host.env view now (host.pushes rlptx)) = bridgeConfig none := if_pos rfl
  change Contract.pushtx _ host.self rlptx none _ = _
  rw [Contract.pushtx, unfrozen, ok_bind, (check_ok _ _ ()).mpr (Or.inl rfl), ok_bind, fresh, relaxed,
    processTx_encoded _ _ _ encoded decoded, processTx_asked host view now _ request]
  exact processTx_marked _ _ _ _ false stored still zero

section Handled

variable {view : ChainView} {later : List Request} {request : Request} {rest : List Pending}
  {holding : Name → Symbol → Nat} {tx : Transaction} {rlptx : Bytes}

theorem Handled.load_pushed (silent : contract.effects = []) (stored : world.config.stored = true)
    (handled : Handled host view [] later request rest holding (contract.emit (.pushtx host.self rlptx)) world) :
    Contract.load (world.handled [] later request rest holding (contract.emit (.pushtx host.self rlptx))).tables =
      { contract with config := contract.config.marked false true } := by
  have config : (world.handled [] later request rest holding (contract.emit (.pushtx host.self rlptx))).config =
      contract.config.marked false true := by
    rw [handled.reconfigures.2, stored, Bool.or_true]
    rfl
  change { contract with
    config := (world.handled [] later request rest holding (contract.emit (.pushtx host.self rlptx))).config
    effects := [] } = _
  rw [config, ← silent]

theorem Handled.pushed (silent : contract.effects = []) (stored : world.config.stored = true)
    (handled : Handled host view [] later request rest holding (contract.emit (.pushtx host.self rlptx)) world)
    (encoded : rlptx = host.evm.encodeTransaction tx) (decoded : host.evm.decodeTransaction rlptx = some tx)
    (still : (contract.config.cached.evmVersion.maybePromote contract.config.cached.genesisTime world.now).2 = false)
    (zero : contract.config.getEvmVersion world.now = 0)
    (unfrozen : assertUnfrozen (contract.config.marked false true) = .ok ()) :
    EosEvm.step host (world.handled [] later request rest holding (contract.emit (.pushtx host.self rlptx)))
        (.next view [] []) =
      (processTx (host.env view world.now request) (bridgeConfig none) host.self (.ofTx tx) none contract).map
        (world.inPlace host later rest holding rlptx) := by
  have effects : (contract.emit (.pushtx host.self rlptx)).effects = [.sent (.pushtx host.self rlptx)] := by
    rw [Contract.emit, silent]
    rfl
  have top : Top host (world.handled [] later request rest holding (contract.emit (.pushtx host.self rlptx))).stack
      (host.pushes rlptx) (later.map .request ++ rest) := by
    rw [World.handled, effects]
    exact .sent _ _ _ rfl rfl
  have runs := Host.pushes_runs view world.now request true encoded decoded still zero unfrozen
  rw [step_top view top, handle]
  change (do
    let contract ← (host.pushes rlptx).run (host.env view world.now (host.pushes rlptx)) (Contract.load _)
    return _) = _
  rw [handled.load_pushed silent stored, runs]
  cases processed : processTx (host.env view world.now request) (bridgeConfig none) host.self (.ofTx tx) none contract with
  | error message => rfl
  | ok direct =>
      have config := processTx_config still zero processed
      -- nothing is written back twice: the transaction leaves the configuration that was stored before it
      have tables : ({ direct with config := direct.config.marked false true } : Contract).store
          (world.handled [] later request rest holding (contract.emit (.pushtx host.self rlptx))).tables =
            direct.store world.tables := by
        change { direct.store world.tables with config := contract.config.flush world.tables.config } = _
        rw [← config]
        rfl
      have history : (world.handled [] later request rest holding (contract.emit (.pushtx host.self rlptx))).history =
          world.history ++ [.sent (.pushtx host.self rlptx)] := by
        rw [← effects]
        rfl
      refine congrArg Except.ok ?_
      rw [tables, history, List.map_nil, List.nil_append, List.append_nil]
      rfl

end Handled

/-- In version 0, a request that makes a transaction sends it to the contract itself. When no other
account that the request notifies comes first, the next step does what running the transaction at
once would have done: it fails with the same message, or leaves the same tables, sends the same
actions and executes the same transaction. -/
theorem dispatch_in_place (host : Host) (signs : host.evm.Signs) (world : World) (view : ChainView)
    (later : List Request) (request : Request) (rest : List Pending) (holding : Name → Symbol → Nat)
    (contract : Contract) (handled : Handled host view [] later request rest holding contract world) (miner : Name)
    (rlptx : Bytes) (sends : .pushtx miner rlptx ∈ sentActions contract.effects) :
    ∃ tx middle, Contract.Bridges (host.env view world.now request) world.contract request none tx middle ∧
      step host (world.handled [] later request rest holding contract) (.next view [] []) =
        (processTx (host.env view world.now request) (bridgeConfig none) host.self (.ofTx tx) none
          { middle with config := (middle.config.promoteEvmVersion world.now).2 }).map
            (world.inPlace host later rest holding rlptx) := by
  obtain ⟨tx, middle, bridges, encoded, rfl, zero, rfl⟩ := (Request.run_does handled.ran).sends rfl sends
  refine ⟨tx, middle, bridges, ?_⟩
  obtain ⟨silent, nonce, s, form⟩ := bridges.effects
  have decoded : host.evm.decodeTransaction rlptx = some tx := by
    rw [encoded]
    exact signs.decoded tx nonce s form
  have unfrozen := bridges.ready handled.ran
  have stored : world.config.stored = true := ((assertUnfrozen_ok _ ()).mp unfrozen).1.1
  have version : (middle.config.promoteEvmVersion world.now).2.getEvmVersion world.now = 0 := by
    rw [ConfigWrapper.getEvmVersion_promoteEvmVersion, ← ConfigWrapper.promoteEvmVersion_fst]
    exact zero
  exact Handled.pushed (by exact silent) stored handled encoded decoded
    (ConfigWrapper.promoteEvmVersion_settled middle.config world.now) version (bridges.unfrozen unfrozen false)

def Ledger.asking : List Label :=
  Ledger.opening ++ Ledger.pay Ledger.alice 1000000 "alice" 0 ++
    [.submit [.action none [Ledger.alice] (Ledger.callNothing Ledger.alice 21000)]]

theorem dispatch_in_place_call : ∃ (world next final : World) (direct middle : Contract) (tx : Transaction),
    run Ledger.host Ledger.asking (World.start fun _ _ => 0) = .ok world ∧
      step Ledger.host world (.next Ledger.view [] []) = .ok next ∧
      step Ledger.host next (.next Ledger.view [] []) = .ok final ∧
      processTx (Ledger.host.env Ledger.view world.now
          (.action none [Ledger.alice] (Ledger.callNothing Ledger.alice 21000))) (bridgeConfig none) Ledger.self (.ofTx tx)
          none { middle with config := (middle.config.promoteEvmVersion world.now).2 } = .ok direct ∧
      final.tables = direct.store world.tables := by
  obtain ⟨world, reached, seen⟩ := exists_of_view (run Ledger.host Ledger.asking (World.start fun _ _ => 0))
    (fun world => decide (topRequest Ledger.host world.stack =
        some (.action none [Ledger.alice] (Ledger.callNothing Ledger.alice 21000)) ∧
      (step Ledger.host world (.next Ledger.view [] [])).toOption.map (fun next =>
        decide (pushedNonces Ledger.evm Ledger.alice (sentActions (next.history.drop world.history.length)) = [0] ∧
          (step Ledger.host next (.next Ledger.view [] [])).isOk = true)) = some true)) true (by decide +kernel)
  obtain ⟨top, later⟩ := of_decide_eq_true seen
  obtain ⟨next, stepped, seen⟩ := exists_of_view _ _ _ later
  obtain ⟨pushed, finishes⟩ := of_decide_eq_true seen
  obtain ⟨final, finished⟩ := exists_of_isOk finishes
  obtain ⟨rest, holding, contract, handled, rfl⟩ := (step_ok stepped).of_topRequest top
  obtain ⟨action, sends, numbered⟩ : ∃ action ∈ sentActions contract.effects,
      action.nonceOf Ledger.evm Ledger.alice = some 0 := by
    rw [World.handled, List.drop_left, pushedNonces] at pushed
    exact List.mem_filterMap.mp (pushed ▸ List.mem_singleton_self 0)
  cases action with
  | pushtx miner rlptx =>
      obtain ⟨tx, middle, _, same⟩ := dispatch_in_place Ledger.host Ledger.evm_signs world Ledger.view [] _ rest holding
        contract handled miner rlptx sends
      rw [finished] at same
      cases processed : processTx (Ledger.host.env Ledger.view world.now
          (.action none [Ledger.alice] (Ledger.callNothing Ledger.alice 21000))) (bridgeConfig none) Ledger.self (.ofTx tx)
          none { middle with config := (middle.config.promoteEvmVersion world.now).2 } with
      | error message =>
          rw [show Ledger.host.self = Ledger.self from rfl, processed] at same
          cases same
      | ok direct =>
          rw [show Ledger.host.self = Ledger.self from rfl, processed] at same
          exact ⟨world, _, final, direct, middle, tx, reached, stepped, finished, processed,
            congrArg World.tables (Except.ok.inj same)⟩
  | _ => cases numbered

end EosEvm

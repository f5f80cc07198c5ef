import EosEvm.GasReplay
import EosEvm.Addresses
import EosEvm.Timeline

/-! A node that follows the EVM from outside. From version 1 on the events of the contract tell
all that a transaction was run on: a node that reads nothing but the events and the times of
their blocks arrives at the EVM tables of the contract. -/

namespace EosEvm

open Abort Words

/-- What a node is set up with. -/
structure NodeSetup where
  evm : Silkworm
  beneficiary : Name
  chainId : Nat
  genesisTime : Nat

/-- What a node keeps: the EVM tables, the gas parameters, and the transaction that was
announced last and has not been run. -/
structure Node where
  db : Db
  gasParams : GasParameter
  announced : Option EvmtxEvent := none

namespace EvmtxEvent

def rlptx : EvmtxEvent → Bytes
  | v1 _ rlptx _ => rlptx
  | v3 _ rlptx _ _ => rlptx

def version : EvmtxEvent → Nat
  | v1 version _ _ => version
  | v3 version _ _ _ => version

def overheadPrice : EvmtxEvent → Nat
  | v1 _ _ _ => 0
  | v3 _ _ overheadPrice _ => overheadPrice

def storagePrice : EvmtxEvent → Nat
  | v1 _ _ _ => 0
  | v3 _ _ _ storagePrice => storagePrice

def baseFee : EvmtxEvent → Nat
  | v1 _ _ baseFeePerGas => baseFeePerGas
  | v3 _ _ overheadPrice storagePrice => max overheadPrice storagePrice

end EvmtxEvent

def Transaction.endowment (tx : Transaction) (sender : Address) : Option (Nat × Nat) :=
  if tx.isSpecialSignature && isReservedAddress sender then some (u256 (tx.value + maxGasCost tx), tx.nonce) else none

namespace Node

/-- What the node runs an announced transaction on. -/
def input (setup : NodeSetup) (node : Node) (time : Nat) (event : EvmtxEvent) (tx : Transaction) (sender : Address) :
    RunInput where
  header := {
    beneficiary := setup.beneficiary
    number := timestampToEvmBlockNum setup.genesisTime time
    version := event.version
    baseFeePerGas := some event.baseFee }
  chainId := setup.chainId
  gasParams := node.gasParams
  overheadPrice := event.overheadPrice
  storagePrice := event.storagePrice
  tx := tx
  sender := sender
  db := node.db
  funded := tx.endowment sender

/-- Run the announced transaction in the block of a time. -/
def execute (setup : NodeSetup) (node : Node) (time : Nat) : Outcome Node := do
  let event ← require node.announced "no transaction announced"
  let tx ← require (setup.evm.decodeTransaction event.rlptx) "unable to decode transaction"
  let sender ← require (setup.evm.recoverSender tx) "unable to recover sender"
  let output ← setup.evm.executeTransaction (node.input setup time event tx sender)
  let db ← DbWrite.applyAll node.db output.writes
  return { node with db := db, announced := none }

/-- The node takes notice of the events, and of an execution no more than its time. -/
def step (setup : NodeSetup) (node : Node) : Effect → Outcome Node
  | .sent (.configchange parameters) => .ok { node with gasParams := parameters }
  | .sent (.evmtx event) => .ok { node with announced := some event }
  | .sent _ => .ok node
  | .ran execution => node.execute setup execution.time

def follow (setup : NodeSetup) (effects : List Effect) (node : Node) : Outcome Node :=
  foldOutcome (step setup) effects node

variable {setup : NodeSetup}

theorem follow_append {first second : List Effect} {node middle final : Node}
    (one : follow setup first node = .ok middle) (two : follow setup second middle = .ok final) :
    follow setup (first ++ second) node = .ok final :=
  (foldOutcome_append _ _ _ _ _).mpr ⟨middle, one, two⟩

theorem follow_quiet {effects : List Effect} (node : Node) (quiet : ∀ effect ∈ effects, effect.isQuiet = true) :
    follow setup effects node = .ok node := by
  induction effects with
  | nil => rfl
  | cons effect effects ih =>
      refine (foldOutcome_cons _ _ _ _ _).mpr ⟨node, ?_, ih fun other member => quiet other (.tail _ member)⟩
      have silent := quiet effect (.head _)
      cases effect with
      | ran execution => cases silent
      | sent action => cases action <;> first | rfl | cases silent

end Node

theorem isQuiet_of_isPayment {actions : List Inline} (paid : ∀ action ∈ actions, action.isPayment = true) :
    ∀ effect ∈ actions.map Effect.sent, effect.isQuiet = true := by
  intro effect member
  obtain ⟨action, inside, rfl⟩ := List.mem_map.mp member
  have payment := paid action inside
  cases action <;> first | rfl | cases payment

theorem txEvent_version (config : ConfigWrapper) (version : Nat) (rlptx : Bytes) :
    (txEvent config version rlptx).version = version := by
  unfold txEvent
  split <;> rfl

theorem txEvent_rlptx (config : ConfigWrapper) (version : Nat) (rlptx : Bytes) :
    (txEvent config version rlptx).rlptx = rlptx := by
  unfold txEvent
  split <;> rfl

theorem txEvent_baseFee (config : ConfigWrapper) (version : Nat) (rlptx : Bytes) :
    (txEvent config version rlptx).baseFee = config.getGasPrice version := by
  unfold txEvent
  split
  · rename_i three
    rw [ConfigWrapper.getGasPrice, if_pos three]
    rfl
  · rfl

theorem Node.follow_txEvents {setup : NodeSetup} {version : Nat} (node : Node) (config : ConfigWrapper)
    (active : 1 ≤ version) (gasParams : GasParameter) (promoted : Bool) (rlptx : Bytes) :
    follow setup ((txEvents config version gasParams promoted rlptx).map .sent) node =
      .ok { node with
        gasParams := if promoted then gasParams else node.gasParams
        announced := some (txEvent config version rlptx) } := by
  unfold txEvents txEvent
  by_cases three : 3 ≤ version
  · cases promoted <;> simp only [if_pos three] <;> rfl
  · cases promoted <;> simp only [if_neg three, if_pos active] <;> rfl

/-- Below version 3 the two prices have no part in a run. -/
def Silkworm.Unpriced (evm : Silkworm) : Prop :=
  ∀ (input : RunInput) (overheadPrice storagePrice : Nat), input.header.version < 3 →
    evm.executeTransaction { input with overheadPrice := overheadPrice, storagePrice := storagePrice } =
      evm.executeTransaction input

/-- The node of a contract. -/
def ConfigWrapper.nodeSetup (config : ConfigWrapper) (evm : Silkworm) (self : Name) : NodeSetup where
  evm := evm
  beneficiary := self
  chainId := config.cached.chainid
  genesisTime := config.cached.genesisTime

theorem ConfigWrapper.nodeSetup_of_chain {config wrapper : ConfigWrapper} (same : config.chain = wrapper.chain)
    (evm : Silkworm) (self : Name) : config.nodeSetup evm self = wrapper.nodeSetup evm self := by
  simp only [chain, Prod.mk.injEq] at same
  rw [nodeSetup, same.1, same.2, nodeSetup]

theorem prepareSender_endowment {env : Env} {rc : RuntimeConfig} {tx : Transaction} {sender : Address}
    {funds after : Funds} {fromSelf : Bool} {funded : Option (Nat × Nat)}
    (prepared : prepareSender env rc tx sender funds = .ok (after, fromSelf, funded)) :
    funded = tx.endowment sender := by
  unfold prepareSender at prepared
  unfold Transaction.endowment
  split at prepared
  · rename_i special
    simp only [bind_ok, check_ok, exists_const] at prepared
    obtain ⟨_, prepared⟩ := prepared
    split at prepared
    · rename_i ordinary
      simp only [pure_ok, Prod.mk.injEq] at prepared
      have unreserved : isReservedAddress sender = false := by
        simpa [extractReservedAddress] using ordinary
      simp [unreserved, prepared.2.2]
    · rename_i account extracted
      simp only [chargeSender, bind_ok, check_ok, exists_const, pure_ok, Prod.mk.injEq] at prepared
      obtain ⟨_, ⟨_, _, _, _, _, rfl⟩, _, _, rfl⟩ := prepared
      have reserved : isReservedAddress sender = true := by
        by_contra unreserved
        simp [extractReservedAddress, unreserved] at extracted
      simp [special, reserved]
  · rename_i ordinary
    rw [Except.ok.injEq, Prod.mk.injEq, Prod.mk.injEq] at prepared
    simp [ordinary, prepared.2.2]

section Process

variable {env : Env} {before after : Contract}

theorem ConfigWrapper.promoteConsensusParam_told (config : ConfigWrapper) (now : Nat) :
    (if (config.promoteConsensusParam now).2.1 then (config.promoteConsensusParam now).1 else config.parameters) =
      (config.promoteConsensusParam now).1 ∧
    (config.promoteConsensusParam now).2.2.parameters = (config.promoteConsensusParam now).1 := by
  have value := ValuePromoter.cachedValue_maybePromote config.cached.consensusParameter config.cached.genesisTime now
  have current : (config.promoteConsensusParam now).1 = config.getConsensusParam now := promoteConsensusParam_fst _ _
  obtain ⟨_, changed⟩ := promoteConsensusParam_eq config now
  refine ⟨?_, ?_⟩
  · split
    · rfl
    · rename_i idle
      rw [ValuePromoter.maybePromote_idle idle] at value
      exact value.trans current.symm
  · rw [changed, current]
    exact value

theorem Node.input_eq {setup : NodeSetup} {config : ConfigWrapper} {version : Nat} (db : Db) (gasParams : GasParameter)
    (announced : Option EvmtxEvent) (rlptx : Bytes) (tx : Transaction) (sender : Address) (active : 1 ≤ version)
    (same : setup = config.nodeSetup env.evm env.self) :
    Node.input setup { db := db, gasParams := gasParams, announced := announced } env.now
        (txEvent config version rlptx) tx sender =
      { header := blockHeader env config version
        chainId := config.cached.chainid
        gasParams := gasParams
        overheadPrice := (txEvent config version rlptx).overheadPrice
        storagePrice := (txEvent config version rlptx).storagePrice
        tx := tx
        sender := sender
        db := db
        funded := tx.endowment sender } := by
  subst same
  simp only [Node.input, txEvent_version, txEvent_baseFee, blockHeader, if_pos active]
  rfl

theorem Node.execute_ok {setup : NodeSetup} {config : ConfigWrapper} {version : Nat} {db final : Db}
    {gasParams : GasParameter} {rlptx : Bytes} {tx : Transaction} {sender : Address} {output : RunOutput}
    (unpriced : env.evm.Unpriced) (active : 1 ≤ version) (same : setup = config.nodeSetup env.evm env.self)
    (decoded : env.evm.decodeTransaction rlptx = some tx) (recovered : env.evm.recoverSender tx = some sender)
    (ran : env.evm.executeTransaction {
      header := blockHeader env config version
      chainId := config.cached.chainid
      gasParams := gasParams
      overheadPrice := config.cached.gasPrices.overheadPrice.getD 0
      storagePrice := config.cached.gasPrices.storagePrice.getD 0
      tx := tx
      sender := sender
      db := db
      funded := tx.endowment sender } = .ok output) (written : DbWrite.applyAll db output.writes = .ok final) :
    Node.execute setup
        { db := db, gasParams := gasParams, announced := some (txEvent config version rlptx) } env.now =
      .ok { db := final, gasParams := gasParams } := by
  have runs : env.evm.executeTransaction (Node.input setup
      { db := db, gasParams := gasParams, announced := some (txEvent config version rlptx) } env.now
      (txEvent config version rlptx) tx sender) = .ok output := by
    rw [Node.input_eq _ _ _ _ _ _ active same]
    -- Below version 3 the event leaves out two of the prices, which the library does not read then.
    by_cases three : 3 ≤ version
    · simp only [txEvent, if_pos three]
      exact ran
    · exact (unpriced _ _ _ (Nat.lt_of_not_le three)).trans ran
  have library : setup.evm = env.evm := congrArg NodeSetup.evm same
  simp only [Node.execute, library, bind_ok, require_ok, pure_ok]
  exact ⟨_, rfl, tx, by rw [txEvent_rlptx]; exact decoded, sender, recovered, output, runs, final, written, rfl⟩

theorem sent_payments {context : TxContext} {config : ConfigWrapper} {receivers : Table Name MessageReceiver}
    {funds left delivered : Funds} {transfers notices : List Inline} {input : RunInput} {output : RunOutput}
    (executed : executeTx env context funds = .ok (left, transfers, input, output))
    (filtered : processFilteredMessages env config receivers output.filteredMessages left = .ok (delivered, notices)) :
    ∀ action ∈ transfers ++ notices, action.isPayment = true := by
  intro action member
  rcases List.mem_append.mp member with sent | sent
  · exact executeTx_payments executed action sent
  · exact processFilteredMessages_payments filtered action sent

theorem processTx_followed {rc : RuntimeConfig} {miner : Name} {txn : Txn} {minPrice : Option Nat}
    (unpriced : env.evm.Unpriced) (decodes : ∀ tx, txn.getTx env.evm = .ok tx →
      env.evm.decodeTransaction (txn.getRlptx env.evm) = some tx)
    (fresh : before.effects = []) (active : 1 ≤ before.config.getEvmVersion env.now)
    (processed : processTx env rc miner txn minPrice before = .ok after) :
    Node.follow (before.config.nodeSetup env.evm env.self) after.effects
        { db := before.db, gasParams := before.config.parameters } =
      .ok { db := after.db, gasParams := after.config.parameters } := by
  obtain ⟨tx, funds, transfers, input, output, delivered, notices, db, decoded, _, _, _, _, executed, filtered,
    written, rfl⟩ := processTx_ok processed
  obtain ⟨charged, fromSelf, begun, _, ran, _⟩ := executeTx_ok executed
  obtain ⟨sender, funded, recovered, prepared, rfl⟩ := beginTx_ok begun
  have version : (before.config.promoteEvmVersion env.now).1 = before.config.getEvmVersion env.now :=
    ConfigWrapper.promoteEvmVersion_fst _ _
  have chain : ((before.config.promoteEvmVersion env.now).2.promoteConsensusParam env.now).2.2.chain =
      before.config.chain :=
    (ConfigWrapper.promoteConsensusParam_chain _ _).trans (ConfigWrapper.promoteEvmVersion_chain _ _)
  obtain ⟨told, kept⟩ := ConfigWrapper.promoteConsensusParam_told (before.config.promoteEvmVersion env.now).2 env.now
  rw [parameters_promoteEvmVersion] at told
  rw [← version] at active
  have payments := sent_payments executed filtered
  have setup := ConfigWrapper.nodeSetup_of_chain chain env.evm env.self
  simp only [fresh, List.nil_append, kept]
  rw [List.map_append]
  -- The payments tell the node nothing; then come the events, and the transaction last.
  refine Node.follow_append (Node.follow_append (Node.follow_quiet _ (isQuiet_of_isPayment payments))
    (Node.follow_txEvents _ _ active _ _ _)) ?_
  rw [told]
  have executes := Node.execute_ok unpriced active setup.symm (decodes tx decoded) recovered
    (prepareSender_endowment prepared ▸ ran) written
  exact (foldOutcome_cons _ _ _ _ _).mpr ⟨_, executes, rfl⟩

end Process

def Action.editsEvm : Action → Bool
  | .gc _ | .rmgcstore _ | .setkvstore _ _ _ | .rmaccount _ | .freezeaccnt _ _ | .addevmbal _ _ _ => true
  | _ => false

def Request.editsEvm : Request → Bool
  | .action _ _ requested => requested.editsEvm
  | .transfer _ _ _ _ _ => false

namespace Contract

variable {env : Env} {before after : Contract} {request : Request}

theorem processTx_ran {rc : RuntimeConfig} {miner : Name} {txn : Txn} {minPrice : Option Nat}
    (processed : processTx env rc miner txn minPrice before = .ok after) :
    ∃ execution, .ran execution ∈ after.effects := by
  obtain ⟨_, _, _, input, _, _, _, _, _, _, _, _, _, _, _, _, rfl⟩ := processTx_ok processed
  exact ⟨_, List.mem_append_right _ (List.mem_singleton_self _)⟩

theorem Does.db_or (did : Does env before request after) :
    after.db = before.db ∨ request.editsEvm = true ∨ ∃ execution, .ran execution ∈ after.effects := by
  cases did with
  | init caller auths chainid fees tokenContract after ran =>
      obtain ⟨_, _, _, _, _, opened⟩ := init_ok ran
      have kept := openInternalBalance_db opened
      exact Or.inl kept
  | configures | idles | announces | lists | replies => exact Or.inl rfl
  | swaps caller auths newTokenContract newSymbol swapDestAccount swapMemo after ran =>
      obtain ⟨_, _, _, _, _, _, migrated, ran⟩ := swapgastoken_ok ran
      obtain ⟨_, _, _, _, _, rfl⟩ := migratebal_ok migrated
      rcases ran with rfl | ⟨_, rfl⟩ <;> exact Or.inl rfl
  | opens caller auths requested owner receivers after opening opened =>
      have kept := openInternalBalance_db opened
      exact Or.inl kept
  | closes caller auths owner after ran =>
      obtain ⟨_, _, _, _, _, _, rfl⟩ := close_ok ran
      exact Or.inl rfl
  | withdraws caller auths owner quantity recipient after ran =>
      obtain ⟨_, _, _, _, _, _, _, _, rfl⟩ := withdraw_ok ran
      exact Or.inl rfl
  | deposits token sender quantity memo receiver after deposited =>
      obtain ⟨_, _, _, _, rfl⟩ := deposit_ok deposited
      exact Or.inl (refreshPrices_db env before)
  | edits caller auths requested db editing =>
      refine Or.inr (Or.inl ?_)
      split at editing <;> first | rfl | cases editing
  | adjustsEvm => exact Or.inr (Or.inl rfl)
  | adjustsOpen caller auths holder delta subtract after ran =>
      obtain ⟨_, _, _, _,  rfl⟩ := addopenbal_ok ran
      exact Or.inl rfl
  | migrates caller auths fromName limit after ran =>
      obtain ⟨_, _, _, _, _, rfl⟩ := migratebal_ok ran
      exact Or.inl rfl
  | pushes caller auths miner rlptx minPrice after ready processed => exact Or.inr (Or.inr (processTx_ran processed))
  | bridges request payer tx middle after ready bridges dispatched =>
      rcases dispatchTx_ok dispatched with ⟨_, processed⟩ | ⟨_, _, rfl⟩
      · exact Or.inr (Or.inr (processTx_ran processed))
      · exact Or.inl bridges.db

/-- The contract on which handling a request calls `process_tx`: its configuration is brought up
to date and its tables are untouched. -/
structure Prepares (env : Env) (before : Contract) (txn : Txn) (start : Contract) : Prop where
  db : start.db = before.db
  effects : start.effects = []
  parameters : start.config.parameters = before.config.parameters
  chain : start.config.chain = before.config.chain
  version : start.config.getEvmVersion env.now = before.config.getEvmVersion env.now
  source : (∃ rlptx, txn = .ofRlp rlptx) ∨ ∃ tx nonce s, txn = .ofTx tx ∧ tx.IsBridge nonce s

theorem Prepares.decodes {txn : Txn} {start : Contract} (prepares : Prepares env before txn start)
    (signs : env.evm.Signs) (tx : Transaction) (decoded : txn.getTx env.evm = .ok tx) :
    env.evm.decodeTransaction (txn.getRlptx env.evm) = some tx := by
  rcases prepares.source with ⟨rlptx, rfl⟩ | ⟨other, nonce, s, rfl, form⟩
  · exact (require_ok _ _ _).mp decoded
  · cases decoded
    exact signs.decoded tx nonce s form

theorem prepares_refreshed (fresh : before.effects = []) (rlptx : Bytes) :
    Prepares env before (.ofRlp rlptx) (refreshPrices env before) := by
  have config := refreshPrices_config env before
  refine ⟨refreshPrices_db env before, ?_, ?_, ?_, ?_, Or.inl ⟨rlptx, rfl⟩⟩
  · rw [refreshPrices_eq]
    exact fresh
  · rw [config, parameters_refresh]
  · rw [config, ConfigWrapper.refresh_chain]
  · rw [config, ConfigWrapper.getEvmVersion_refresh]

theorem Bridges.prepares {payer : Option Name} {tx : Transaction} {middle : Contract} (fresh : before.effects = [])
    (bridges : Bridges env before request payer tx middle) :
    Prepares env before (.ofTx tx) { middle with config := (middle.config.promoteEvmVersion env.now).2 } := by
  obtain ⟨start, started, config⟩ := bridges.config
  obtain ⟨effects, nonce, s, form⟩ := bridges.effects
  refine ⟨bridges.db, effects.trans fresh, ?_, ?_, ?_, Or.inr ⟨tx, nonce, s, rfl, form⟩⟩
  · rw [parameters_promoteEvmVersion, config, parameters_refresh, parameters_of_started started]
  · rw [ConfigWrapper.promoteEvmVersion_chain, config, ConfigWrapper.refresh_chain]
    rcases started with rfl | rfl
    · rfl
    · exact ConfigWrapper.promoteEvmVersion_chain _ _
  · rw [ConfigWrapper.getEvmVersion_promoteEvmVersion, config, ConfigWrapper.getEvmVersion_refresh]
    rcases started with rfl | rfl
    · rfl
    · exact ConfigWrapper.getEvmVersion_promoteEvmVersion _ _

theorem isQuiet_of_isSilent {effect : Effect} (silent : effect.isSilent = true) : effect.isQuiet = true := by
  cases effect with
  | ran => cases silent
  | sent action => cases action <;> first | rfl | cases silent

theorem Does.prepares_or (fresh : before.effects = []) (did : Does env before request after) :
    (∀ effect ∈ after.effects, effect.isQuiet = true) ∨
      ∃ rc miner txn minPrice start, Prepares env before txn start ∧
        processTx env rc miner txn minPrice start = .ok after := by
  rcases did.quiet_or fresh with quiet | ⟨caller, auths, miner, rlptx, minPrice, rfl, processed⟩ |
    ⟨payer, tx, middle, bridges, dispatched⟩
  · exact Or.inl fun effect member => isQuiet_of_isSilent (quiet.silent effect member)
  · exact Or.inr ⟨_, miner, _, minPrice, _, prepares_refreshed fresh rlptx, processed⟩
  · rcases dispatchTx_ok dispatched with ⟨_, processed⟩ | ⟨_, _, rfl⟩
    · exact Or.inr ⟨_, _, _, _, _, bridges.prepares fresh, processed⟩
    · refine Or.inl fun effect member => ?_
      simp only [Contract.emit, bridges.effects.1, fresh, List.nil_append, List.mem_singleton] at member
      rw [member]
      rfl

end Contract

/-- The events of a history that announce transactions. -/
def announcements (history : List Effect) : List EvmtxEvent :=
  history.filterMap fun effect => match effect with
    | .sent (.evmtx event) => some event
    | _ => none

/-- The transactions of a history that were run in version 1 or later. -/
def versioned (history : List Effect) : List Execution :=
  (executions history).filter fun execution => decide (1 ≤ execution.version)

/-- An event tells which transaction was run, under which version and at which prices. -/
structure EvmtxEvent.Tells (evm : Silkworm) (event : EvmtxEvent) (execution : Execution) : Prop where
  version : event.version = execution.version
  transaction : ∃ tx, evm.decodeTransaction event.rlptx = some tx ∧ evm.recoverSender tx = some execution.sender ∧
    tx.nonce = execution.nonce
  baseFee : execution.baseFeePerGas = some event.baseFee
  prices : 3 ≤ execution.version →
    execution.overheadPrice = event.overheadPrice ∧ execution.storagePrice = event.storagePrice

theorem announcements_quiet {effects : List Effect} (quiet : ∀ effect ∈ effects, effect.isQuiet = true) :
    announcements effects = [] := by
  rw [announcements, List.filterMap_eq_nil_iff]
  intro effect member
  have silent := quiet effect member
  cases effect with
  | ran => rfl
  | sent action => cases action <;> first | rfl | cases silent

theorem announcements_append (first second : List Effect) :
    announcements (first ++ second) = announcements first ++ announcements second := List.filterMap_append

theorem announcements_txEvents {version : Nat} (config : ConfigWrapper) (gasParams : GasParameter) (promoted : Bool)
    (rlptx : Bytes) : announcements ((txEvents config version gasParams promoted rlptx).map .sent) =
      if 1 ≤ version then [txEvent config version rlptx] else [] := by
  unfold txEvents txEvent
  by_cases three : 3 ≤ version
  · have active : 1 ≤ version := by omega
    cases promoted <;> simp only [if_pos three, if_pos active] <;> rfl
  · by_cases active : 1 ≤ version
    · cases promoted <;> simp only [if_neg three, if_pos active] <;> rfl
    · cases promoted <;> simp only [if_neg three, if_neg active] <;> rfl

theorem processTx_told {env : Env} {before after : Contract} {rc : RuntimeConfig} {miner : Name} {txn : Txn}
    {minPrice : Option Nat} (decodes : ∀ tx, txn.getTx env.evm = .ok tx →
      env.evm.decodeTransaction (txn.getRlptx env.evm) = some tx) (fresh : before.effects = [])
    (processed : processTx env rc miner txn minPrice before = .ok after) :
    List.Forall₂ (EvmtxEvent.Tells env.evm) (announcements after.effects) (versioned after.effects) := by
  obtain ⟨tx, funds, transfers, input, output, delivered, notices, db, decoded, _, _, _, _, executed, filtered,
    _, rfl⟩ := processTx_ok processed
  obtain ⟨_, _, begun, _⟩ := executeTx_ok executed
  obtain ⟨sender, funded, recovered, _, rfl⟩ := beginTx_ok begun
  have payments := sent_payments executed filtered
  simp only [fresh, List.nil_append, versioned, executions_append, executions_sent, announcements_append]
  rw [List.map_append, announcements_append, announcements_quiet (isQuiet_of_isPayment payments),
    announcements_txEvents]
  change List.Forall₂ _ (([] ++ if _ then _ else _) ++ []) (List.filter _ [_])
  rw [List.nil_append, List.append_nil, List.filter_singleton]
  by_cases active : 1 ≤ (before.config.promoteEvmVersion env.now).1
  · have shown : decide (1 ≤ (before.config.promoteEvmVersion env.now).1) = true := decide_eq_true active
    simp only [if_pos active, executionOf, blockHeader, shown, cond_true]
    refine .cons ⟨txEvent_version _ _ _, ⟨tx, ?_, recovered, rfl⟩, ?_, fun three => ?_⟩ .nil
    · rw [txEvent_rlptx]
      exact decodes tx decoded
    · rw [txEvent_baseFee]
    · simp only [txEvent, if_pos (show 3 ≤ (before.config.promoteEvmVersion env.now).1 from three)]
      exact ⟨rfl, rfl⟩
  · have hidden : decide (1 ≤ (before.config.promoteEvmVersion env.now).1) = false := decide_eq_false active
    simp only [if_neg active, executionOf, blockHeader, hidden, cond_false]
    exact .nil

theorem Contract.Does.told {env : Env} {before after : Contract} {request : Request} (signs : env.evm.Signs)
    (fresh : before.effects = []) (did : Does env before request after) :
    List.Forall₂ (EvmtxEvent.Tells env.evm) (announcements after.effects) (versioned after.effects) := by
  rcases did.prepares_or fresh with quiet | ⟨rc, miner, txn, minPrice, start, prepares, processed⟩
  · rw [announcements_quiet quiet, versioned, executions_quiet quiet]
    exact .nil
  · exact processTx_told (prepares.decodes signs) prepares.effects processed

/-- The request neither edits the EVM tables nor promotes gas parameters silently. -/
def tellsAll (world : World) (request : Request) : Bool := promotesOpenly world request && !request.editsEvm

variable {host : Host} {world next opening : World}

/-- A node that started with the tables of `opening` has followed the history up to `world`. -/
structure World.Followed (host : Host) (opening world : World) : Prop where
  timely : world.Timely
  stored : world.config.stored = true
  active : 1 ≤ world.config.getEvmVersion world.now
  chain : world.config.chain = opening.config.chain
  caught : ∃ events, world.history = opening.history ++ events ∧
    Node.follow (opening.config.nodeSetup host.evm host.self) events
        { db := opening.tables.db, gasParams := opening.config.parameters } =
      .ok { db := world.tables.db, gasParams := world.config.parameters }

theorem Handled.followed {view : ChainView} {before after : List Request} {request : Request} {rest : List Pending}
    {holding : Name → Symbol → Nat} {contract : Contract} (signs : host.evm.Signs) (unpriced : host.evm.Unpriced)
    (active : 1 ≤ world.config.getEvmVersion world.now) (tells : tellsAll world request = true)
    (handled : Handled host view before after request rest holding contract world) :
    Node.follow (world.config.nodeSetup host.evm host.self) contract.effects
        { db := world.tables.db, gasParams := world.config.parameters } =
      .ok { db := contract.db, gasParams := contract.config.parameters } := by
  obtain ⟨reconfigured, _⟩ := handled.reconfigures
  simp only [tellsAll, Bool.and_eq_true, Bool.not_eq_true'] at tells
  have did := Request.run_does handled.ran
  rcases did.prepares_or rfl with quiet | ⟨rc, miner, txn, minPrice, start, prepares, processed⟩
  · have same : contract.db = world.tables.db := by
      rcases did.db_or with same | edits | ⟨execution, ran⟩
      · exact same
      · rw [tells.2] at edits
        cases edits
      · cases quiet _ ran
    have follows := reconfigured.follows (by
      have condition := tells.1
      rcases request with ⟨caller, auths, requested⟩ | _
      · cases requested <;> first | trivial | simpa [promotesOpenly] using condition
      · trivial)
    have parameters : contract.config.parameters = world.config.parameters := by
      rw [follows.latest]
      exact Replay.latest_of_silent _ _ _ fun effect member => published_of_quiet (quiet effect member)
    rw [parameters, same]
    exact Node.follow_quiet _ quiet
  · have followed := processTx_followed unpriced (prepares.decodes signs) prepares.effects
      (prepares.version.symm ▸ active) processed
    rw [prepares.db, prepares.parameters, ConfigWrapper.nodeSetup_of_chain prepares.chain] at followed
    exact followed

theorem World.Followed.step {label : Label} (signs : host.evm.Signs) (unpriced : host.evm.Unpriced)
    (followed : World.Followed host opening world) (stepped : Stepped host world label next)
    (tells : ∀ view before after request rest holding contract, label = .next view before after →
      Handled host view before after request rest holding contract world → tellsAll world request = true) :
    World.Followed host opening next := by
  have timely := stepped.timely followed.timely
  obtain ⟨stored, chain⟩ := stepped.chain followed.stored
  have chained := chain.trans followed.chain
  cases stepped with
  | tick now _ later =>
      -- Time can only bring a pending version into effect, and none is below the one it replaces.
      refine ⟨timely, stored, ?_, chained, followed.caught⟩
      refine followed.active.trans ?_
      change _ ≤ world.config.getEvmVersion now
      rw [← ConfigWrapper.version_pricing, ← ConfigWrapper.version_pricing]
      exact followed.timely.bounded.calm.version_mono later
  | submit | passed => exact ⟨timely, stored, followed.active, chained, followed.caught⟩
  | handled view before after request rest holding contract handled =>
      refine ⟨timely, stored, handled.version.symm ▸ followed.active, chained, ?_⟩
      obtain ⟨events, history, caught⟩ := followed.caught
      have keeps := handled.followed signs unpriced followed.active
        (tells view before after request rest holding contract rfl handled)
      rw [ConfigWrapper.nodeSetup_of_chain followed.chain] at keeps
      have parameters : (world.handled before after request rest holding contract).config.parameters =
          contract.config.parameters := by
        rw [handled.reconfigures.2]
        rfl
      refine ⟨events ++ contract.effects, ?_, ?_⟩
      · rw [← List.append_assoc, ← history]
        rfl
      · rw [parameters]
        exact Node.follow_append caught keeps

end EosEvm

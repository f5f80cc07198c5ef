import EosEvm.ExecuteCore

/-! `process_tx` and the helpers the actions share. An action works on the loaded
tables and leaves behind the actions it sent and the transactions it executed. -/

namespace EosEvm

open Abort Words

/-- A transaction that `process_tx` executed, with the block values it ran under. -/
structure Execution where
  time : Nat
  sender : Address
  nonce : Nat
  version : Nat
  gasParams : GasParameter
  baseFeePerGas : Option Nat
  overheadPrice : Nat
  storagePrice : Nat
  deriving DecidableEq, Repr

/-- What an action leaves behind besides its tables, in order. The record of an execution
comes after the actions that `process_tx` sent for it. -/
inductive Effect
  | sent (action : Inline)
  | ran (execution : Execution)
  deriving DecidableEq, Repr

/-- The tables of the contract. -/
structure Tables where
  config : Option ConfigRow := none
  priceQueue : Table Nat Nat := Table.empty
  pricesQueue : Table Nat GasPrices := Table.empty
  funds : Funds := {}
  nextnonces : Table Name Nat := Table.empty
  egresslist : Table Name Unit := Table.empty
  receivers : Table Name MessageReceiver := Table.empty
  db : Db := {}

/-- The contract object while an action runs. -/
structure Contract where
  config : ConfigWrapper
  funds : Funds
  nextnonces : Table Name Nat
  egresslist : Table Name Unit
  receivers : Table Name MessageReceiver
  db : Db
  effects : List Effect := []

def Contract.load (tables : Tables) : Contract where
  config := ConfigWrapper.load tables.config tables.priceQueue tables.pricesQueue
  funds := tables.funds
  nextnonces := tables.nextnonces
  egresslist := tables.egresslist
  receivers := tables.receivers
  db := tables.db

def Contract.store (contract : Contract) (tables : Tables) : Tables where
  config := contract.config.flush tables.config
  priceQueue := contract.config.priceQueue
  pricesQueue := contract.config.pricesQueue
  funds := contract.funds
  nextnonces := contract.nextnonces
  egresslist := contract.egresslist
  receivers := contract.receivers
  db := contract.db

def Contract.emit (contract : Contract) (action : Inline) : Contract :=
  { contract with effects := contract.effects ++ [.sent action] }

/-- `status_flags::frozen`. -/
def frozenFlag : UInt32 := 1

def requireAuth (env : Env) (account : Name) : Outcome Unit :=
  check (account ∈ env.auths) "missing required authority"

/-- `assert_inited`. -/
def assertInited (config : ConfigWrapper) : Outcome Unit := do
  check (config.stored = true) "contract not initialized"
  check (config.cached.version = 0) "unsupported configuration singleton"

/-- `assert_unfrozen`. -/
def assertUnfrozen (config : ConfigWrapper) : Outcome Unit := do
  assertInited config
  check (config.cached.status &&& frozenFlag = 0) "contract is frozen"

def ConfigWrapper.blockNum (config : ConfigWrapper) (now : Nat) : Nat :=
  timestampToEvmBlockNum config.cached.genesisTime now

def blockHeader (env : Env) (config : ConfigWrapper) (version : Nat) : BlockHeader where
  beneficiary := env.self
  number := config.blockNum env.now
  version := version
  baseFeePerGas := if 1 ≤ version then some (config.getGasPrice version) else none

/-- The price checks of `process_tx`. -/
def checkPrice (config : ConfigWrapper) (version : Nat) (tx : Transaction) (minInclusionPrice : Option Nat) :
    Outcome Unit :=
  if 1 ≤ version then
    check (minInclusionPrice.getD 0 ≤ tx.priorityFeePerGas (config.getGasPrice version))
      "inclusion price must >= min_inclusion_price"
  else do
    check (tx.maxPriorityFeePerGas = tx.maxFeePerGas)
      "max_priority_fee_per_gas must be equal to max_fee_per_gas"
    check (config.getGasPrice version ≤ tx.maxFeePerGas) "gas price is too low"

/-- The events `process_tx` sends for an executed transaction. -/
def txEvents (config : ConfigWrapper) (version : Nat) (gasParams : GasParameter) (promoted : Bool)
    (rlptx : Bytes) : List Inline :=
  let prices := config.cached.gasPrices
  (if promoted then [.configchange gasParams] else []) ++
    if 3 ≤ version then
      [.evmtx (.v3 version rlptx (prices.overheadPrice.getD 0) (prices.storagePrice.getD 0))]
    else if 1 ≤ version then [.evmtx (.v1 version rlptx (config.getGasPrice version))]
    else []

def executionOf (now : Nat) (input : RunInput) : Execution where
  time := now
  sender := input.sender
  nonce := input.tx.nonce
  version := input.header.version
  gasParams := input.gasParams
  baseFeePerGas := input.header.baseFeePerGas
  overheadPrice := input.overheadPrice
  storagePrice := input.storagePrice

/-- `process_tx`. -/
def processTx (env : Env) (rc : RuntimeConfig) (miner : Name) (txn : Txn) (minInclusionPrice : Option Nat)
    (contract : Contract) : Outcome Contract := do
  let tx ← txn.getTx env.evm
  check (rc.allowNonSelfMiner = true ∨ miner = env.self)
    "unexpected error: EVM contract generated inline pushtx without setting itself as the miner"
  let versioned := contract.config.promoteEvmVersion env.now
  let parameters := versioned.2.promoteConsensusParam env.now
  let version := versioned.1
  let config := parameters.2.2
  check (parameters.2.1 = false ∨ 1 ≤ version) "gas param change requires evm_version >= 1"
  check (env.evm.lookupKnownChain config.cached.chainid = true) "unknown chainid"
  checkPrice config version tx minInclusionPrice
  let context : TxContext := {
    config := config
    rc := rc
    miner := miner
    header := blockHeader env config version
    gasParams := parameters.1
    tx := tx
    egresslist := contract.egresslist
    db := contract.db }
  let executed ← executeTx env context contract.funds
  let input := executed.2.2.1
  let output := executed.2.2.2
  let delivered ← processFilteredMessages env config contract.receivers output.filteredMessages executed.1
  let db ← DbWrite.applyAll contract.db output.writes
  let sent := executed.2.1 ++ delivered.2 ++
    txEvents config version parameters.1 parameters.2.1 (txn.getRlptx env.evm)
  return { contract with
    config := config
    funds := delivered.1
    db := db
    effects := contract.effects ++ sent.map .sent ++ [.ran (executionOf env.now input)] }

def bridgeConfig (gasPayer : Option Name) : RuntimeConfig where
  allowSpecialSignature := true
  abortOnFailure := true
  enforceChainId := false
  allowNonSelfMiner := false
  gasPayer := gasPayer

/-- `dispatch_tx`: run the transaction now, or send it to itself in version 0. -/
def dispatchTx (env : Env) (rc : RuntimeConfig) (tx : Transaction) (contract : Contract) : Outcome Contract := do
  let versioned := contract.config.promoteEvmVersion env.now
  let contract := { contract with config := versioned.2 }
  if 1 ≤ versioned.1 then processTx env rc env.self (.ofTx tx) none contract
  else do
    check (rc.gasPayer = none ∧ rc.allowSpecialSignature = true ∧ rc.abortOnFailure = true ∧
      rc.enforceChainId = false ∧ rc.allowNonSelfMiner = false) "invalid runtime config"
    return contract.emit (.pushtx env.self (env.evm.encodeTransaction tx))

def refreshPrices (env : Env) (contract : Contract) : Contract :=
  if 1 ≤ contract.config.getEvmVersion env.now then
    { contract with config := contract.config.processPriceQueue env.now }
  else contract

def openRow (owner : Name) (symbol : Symbol) (balances : Table Name BalanceWithDust) :
    Outcome (Table Name BalanceWithDust) :=
  if (balances.get? owner).isSome then .ok balances
  else do
    let zero ← Asset.make 0 symbol
    return balances.put owner { balance := zero }

/-- `open_internal_balance`. -/
def openInternalBalance (owner : Name) (contract : Contract) : Outcome Contract := do
  let balances ← openRow owner contract.config.getTokenSymbol contract.funds.balances
  let nextnonces :=
    if (contract.nextnonces.get? owner).isSome then contract.nextnonces else contract.nextnonces.put owner 0
  return { contract with
    funds := { contract.funds with balances := balances }
    nextnonces := nextnonces }

/-- `get_and_increment_nonce`. The counter is 64 bits wide in the source. It is counted on here;
transactions carry its last 64 bits, and it stays below `2 ^ 64` between chain transactions since
the library refuses a transaction with the largest nonce. -/
def getAndIncrementNonce (owner : Name) (contract : Contract) : Outcome (Nat × Contract) := do
  let nonce ← require (contract.nextnonces.get? owner) "caller account has not been opened"
  return (nonce, { contract with nextnonces := contract.nextnonces.put owner (nonce + 1) })

/-- The transaction that `call_` makes. The price, the gas limit and the nonce are words of 64
bits. -/
def callTx (env : Env) (s : Nat) (recipient : Bytes) (value : Nat) (data : Bytes) (gasLimit nonce : Nat)
    (contract : Contract) : Transaction :=
  let price := u64 ((refreshPrices env contract).config.getGasPrice (contract.config.getEvmVersion env.now))
  { nonce := u64 nonce
    maxPriorityFeePerGas := price
    maxFeePerGas := price
    gasLimit := u64 gasLimit
    recipient := if recipient = [] then none else some (env.evm.toEvmcAddress recipient)
    value := value
    data := data
    r := 0
    s := s }

/-- `call_`. -/
def callWith (env : Env) (rc : RuntimeConfig) (s : Nat) (recipient : Bytes) (value : Nat) (data : Bytes)
    (gasLimit nonce : Nat) (contract : Contract) : Outcome Contract :=
  dispatchTx env rc (callTx env s recipient value data gasLimit nonce contract) (refreshPrices env contract)

/-- `to_uint256` of a byte string that fits. -/
def toUint256 (value : Bytes) : Outcome Nat := do
  check (value.length ≤ 32) "wrong length"
  return Bridge.load value

/-- `to_address`. -/
def toAddress (address : Bytes) : Outcome Address := do
  check (address.length = 20) "wrong length"
  return BitVec.ofNat 160 (Bridge.load address)

def loadValue (value : Bytes) : Outcome Nat := do
  check (value.length = 32) "invalid value"
  return Bridge.load value

end EosEvm

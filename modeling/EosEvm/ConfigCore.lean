import EosEvm.Lib.Table
import EosEvm.PromoterCore
import EosEvm.DustCore

/-! `config_wrapper`: the configuration singleton as an action sees it, with the
two price queues. The wrapper reads the row when an action starts, works on a
cached copy and writes it back at the end if a setter marked it dirty. -/

namespace EosEvm

open Abort Words

/-- The configuration with every extension field present. -/
structure Config where
  version : Nat := 0
  chainid : Nat := 0
  genesisTime : Nat := 0
  ingressBridgeFee : Asset := ⟨0, Symbol.none⟩
  gasPrice : Nat := 0
  minerCut : Nat := 0
  status : UInt32 := 0
  evmVersion : ValuePromoter Nat := { cachedValue := 0 }
  consensusParameter : ValuePromoter GasParameter := { cachedValue := {} }
  tokenContract : Name := defaultTokenAccount
  queueFrontBlock : Nat := 0
  ingressGasLimit : Nat := 21000
  gasPrices : GasPrices := {}
  deriving DecidableEq, Repr

/-- The stored row; a `binary_extension` field may be missing from an old row. -/
structure ConfigRow where
  version : Nat
  chainid : Nat
  genesisTime : Nat
  ingressBridgeFee : Asset
  gasPrice : Nat
  minerCut : Nat
  status : UInt32
  evmVersion : Option (ValuePromoter Nat)
  consensusParameter : Option (ValuePromoter GasParameter)
  tokenContract : Option Name
  queueFrontBlock : Option Nat
  ingressGasLimit : Option Nat
  gasPrices : Option GasPrices
  deriving DecidableEq, Repr

def Config.ofRow (row : ConfigRow) : Config where
  version := row.version
  chainid := row.chainid
  genesisTime := row.genesisTime
  ingressBridgeFee := row.ingressBridgeFee
  gasPrice := row.gasPrice
  minerCut := row.minerCut
  status := row.status
  evmVersion := row.evmVersion.getD { cachedValue := 0 }
  consensusParameter := row.consensusParameter.getD { cachedValue := {} }
  tokenContract := row.tokenContract.getD defaultTokenAccount
  queueFrontBlock := row.queueFrontBlock.getD 0
  ingressGasLimit := row.ingressGasLimit.getD 21000
  gasPrices := row.gasPrices.getD {}

def Config.toRow (config : Config) : ConfigRow where
  version := config.version
  chainid := config.chainid
  genesisTime := config.genesisTime
  ingressBridgeFee := config.ingressBridgeFee
  gasPrice := config.gasPrice
  minerCut := config.minerCut
  status := config.status
  evmVersion := some config.evmVersion
  consensusParameter := some config.consensusParameter
  tokenContract := some config.tokenContract
  queueFrontBlock := some config.queueFrontBlock
  ingressGasLimit := some config.ingressGasLimit
  gasPrices := some config.gasPrices

@[simp] theorem Config.ofRow_toRow (config : Config) : Config.ofRow config.toRow = config := rfl

structure ConfigWrapper where
  cached : Config
  stored : Bool
  dirty : Bool := false
  priceQueue : Table Nat Nat
  pricesQueue : Table Nat GasPrices

namespace ConfigWrapper

def load (row : Option ConfigRow) (priceQueue : Table Nat Nat) (pricesQueue : Table Nat GasPrices) :
    ConfigWrapper where
  cached := match row with
    | some row => Config.ofRow row
    | none => {}
  stored := row.isSome
  priceQueue := priceQueue
  pricesQueue := pricesQueue

/-- `flush`, called by the destructor: the row in the table after the action. -/
def flush (wrapper : ConfigWrapper) (row : Option ConfigRow) : Option ConfigRow :=
  if wrapper.dirty then some wrapper.cached.toRow else row

def set (wrapper : ConfigWrapper) (change : Config → Config) : ConfigWrapper :=
  { wrapper with cached := change wrapper.cached, dirty := true }

def getTokenSymbol (wrapper : ConfigWrapper) : Symbol := wrapper.cached.ingressBridgeFee.symbol

def getMinimumNativelyRepresentable (wrapper : ConfigWrapper) : Outcome Nat :=
  pow10Const ((evmPrecision : Int) - wrapper.getTokenSymbol.precision)

def setIngressBridgeFee (wrapper : ConfigWrapper) (fee : Asset) : Outcome ConfigWrapper := do
  check (fee.symbol.precision ≤ evmPrecision) "invalid ingress fee precision"
  return wrapper.set fun config => { config with ingressBridgeFee := fee }

def setGasPrice (wrapper : ConfigWrapper) (gasPrice : Nat) : ConfigWrapper :=
  wrapper.set fun config => { config with gasPrice := gasPrice }

def setGasPrices (wrapper : ConfigWrapper) (prices : GasPrices) : ConfigWrapper :=
  wrapper.set fun config => { config with gasPrices := config.gasPrices.updated prices }

def getEvmVersion (wrapper : ConfigWrapper) (now : Nat) : Nat :=
  wrapper.cached.evmVersion.getValue wrapper.cached.genesisTime now

/-- `get_evm_version_and_maybe_promote`: the version and the wrapper afterwards. -/
def promoteEvmVersion (wrapper : ConfigWrapper) (now : Nat) : Nat × ConfigWrapper :=
  let promoted := wrapper.cached.evmVersion.maybePromote wrapper.cached.genesisTime now
  let current := promoted.1.cachedValue
  if promoted.2 then
    -- from version 1 on there is no miner cut
    (current, wrapper.set fun config =>
      { config with evmVersion := promoted.1, minerCut := if 1 ≤ current then 0 else config.minerCut })
  else (current, wrapper)

def activationBlockNum (genesisTime now : Nat) : Nat :=
  timestampToEvmBlockNum genesisTime (now + gracePeriodSeconds * 1000000) + 1

/-- The queue table part of `enqueue`: the queue afterwards and the new front block,
if the cached front has to be set. -/
def enqueueRow {ν : Type} [DecidableEq ν] (queue : Table Nat ν) (frontBlock activation : Nat) (value : ν) :
    Outcome (Table Nat ν × Option Nat) :=
  match queue.last? with
  | some (block, last) =>
      if value = last then .ok (queue, none)
      else do
        check (block ≤ activation) "internal error"
        if activation = block then return (queue.modify block fun _ => value, none)
        else do
          let queue ← queue.emplace activation value
          return (queue, if frontBlock = 0 then some activation else none)
  | none => do
      let queue ← queue.emplace activation value
      return (queue, if frontBlock = 0 then some activation else none)

/-- `set_queue_front_block`, when it is called. -/
def setQueueFrontBlock (wrapper : ConfigWrapper) (front : Option Nat) : ConfigWrapper :=
  match front with
  | some block => wrapper.set fun config => { config with queueFrontBlock := block }
  | none => wrapper

/-- `enqueue<price_queue_table>`. -/
def enqueueGasPrice (wrapper : ConfigWrapper) (gasPrice now : Nat) : Outcome ConfigWrapper :=
  if wrapper.cached.queueFrontBlock = 0 ∧ wrapper.cached.gasPrice = gasPrice then .ok wrapper
  else do
    let activation := activationBlockNum wrapper.cached.genesisTime now
    let queued ← enqueueRow wrapper.priceQueue wrapper.cached.queueFrontBlock activation gasPrice
    return { wrapper with priceQueue := queued.1 }.setQueueFrontBlock queued.2

/-- `is_same_as_current_price` for a set of prices: every specified field is current. -/
def isSameAsCurrentPrice (config : Config) (prices : GasPrices) : Bool :=
  (prices.overheadPrice.isNone || config.gasPrices.overheadPrice == prices.overheadPrice) &&
    (prices.storagePrice.isNone || config.gasPrices.storagePrice == prices.storagePrice)

/-- `enqueue<prices_queue_table>`. -/
def enqueueGasPrices (wrapper : ConfigWrapper) (prices : GasPrices) (now : Nat) : Outcome ConfigWrapper :=
  if wrapper.cached.queueFrontBlock = 0 ∧ isSameAsCurrentPrice wrapper.cached prices = true then .ok wrapper
  else do
    let activation := activationBlockNum wrapper.cached.genesisTime now
    let queued ← enqueueRow wrapper.pricesQueue wrapper.cached.queueFrontBlock activation prices
    return { wrapper with pricesQueue := queued.1 }.setQueueFrontBlock queued.2

/-- The loop of `process_queue`: apply and erase the rows whose block has come. -/
def processRows {ν : Type} (currentBlock : Nat) (update : Config → ν → Config) :
    List (Nat × ν) → Table Nat ν × Config → Table Nat ν × Config
  | [], state => state
  | row :: rest, (queue, config) =>
      if row.1 ≤ currentBlock then
        let queue := queue.erase row.1
        let front := match queue.first? with
          | some next => next.1
          | none => 0
        processRows currentBlock update rest (queue, { update config row.2 with queueFrontBlock := front })
      else (queue, config)

/-- Whether `process_queue` returns before it opens the queue table. -/
def queueIdle (wrapper : ConfigWrapper) (now : Nat) : Bool :=
  wrapper.cached.queueFrontBlock == 0 ||
    decide (timestampToEvmBlockNum wrapper.cached.genesisTime now < wrapper.cached.queueFrontBlock)

/-- `process_queue<price_queue_table>`. -/
def processGasPriceQueue (wrapper : ConfigWrapper) (now : Nat) : ConfigWrapper :=
  if wrapper.queueIdle now then wrapper
  else
    let block := timestampToEvmBlockNum wrapper.cached.genesisTime now
    let processed := processRows block (fun config price => { config with gasPrice := price })
      wrapper.priceQueue.rows (wrapper.priceQueue, wrapper.cached)
    { wrapper with
      priceQueue := processed.1
      cached := processed.2
      dirty := wrapper.dirty || (wrapper.priceQueue.first?.any fun row => decide (row.1 ≤ block)) }

/-- `process_queue<prices_queue_table>`. -/
def processGasPricesQueue (wrapper : ConfigWrapper) (now : Nat) : ConfigWrapper :=
  if wrapper.queueIdle now then wrapper
  else
    let block := timestampToEvmBlockNum wrapper.cached.genesisTime now
    let processed := processRows block
      (fun config prices => { config with gasPrices := config.gasPrices.updated prices })
      wrapper.pricesQueue.rows (wrapper.pricesQueue, wrapper.cached)
    { wrapper with
      pricesQueue := processed.1
      cached := processed.2
      dirty := wrapper.dirty || (wrapper.pricesQueue.first?.any fun row => decide (row.1 ≤ block)) }

/-- `process_price_queue`. -/
def processPriceQueue (wrapper : ConfigWrapper) (now : Nat) : ConfigWrapper :=
  if 3 ≤ wrapper.getEvmVersion now then wrapper.processGasPricesQueue now
  else wrapper.processGasPriceQueue now

/-- `set_evm_version`. -/
def setEvmVersion (wrapper : ConfigWrapper) (newVersion now : Nat) : Outcome ConfigWrapper := do
  check (newVersion ≤ maxEosEvmVersion) "Unsupported version"
  check (newVersion ≠ 3 ∨ wrapper.cached.queueFrontBlock = 0) "price queue must be empty"
  check (newVersion ≠ 3 ∨ wrapper.cached.gasPrices.storagePrice.getD 0 ≠ 0) "storage price must be set"
  let promoted := wrapper.promoteEvmVersion now
  check (promoted.1 < newVersion) "new version must be greater than the active one"
  let updated ← promoted.2.cached.evmVersion.update (fun _ => .ok newVersion)
    promoted.2.cached.genesisTime now
  return promoted.2.set fun config =>
    { config with
      evmVersion := updated
      gasPrice := if newVersion = 3 then 0 else config.gasPrice }

/-- The `gas_price` part of `set_fee_parameters`. -/
def setFeeGasPrice (wrapper : ConfigWrapper) (gasPrice : Option Nat) (allowUnspecified : Bool) (now : Nat) :
    Outcome ConfigWrapper :=
  match gasPrice with
  | some price =>
      if 3 ≤ wrapper.getEvmVersion now then .error "Can't use set_fee_parameters to set gas_price"
      else if 1 ≤ wrapper.getEvmVersion now then wrapper.enqueueGasPrice price now
      else .ok (wrapper.setGasPrice price)
  | none => do
      check (allowUnspecified = true) "All required fee parameters not specified: missing gas_price"
      return wrapper

/-- The `miner_cut` part of `set_fee_parameters`. -/
def setFeeMinerCut (wrapper : ConfigWrapper) (minerCut : Option Nat) (allowUnspecified : Bool) (now : Nat) :
    Outcome ConfigWrapper :=
  match minerCut with
  | some cut => do
      check (wrapper.getEvmVersion now = 0) "can't set miner_cut"
      check (cut ≤ ninetyPercent) "miner_cut must <= 90%"
      return { wrapper with cached := { wrapper.cached with minerCut := cut } }
  | none => do
      check (allowUnspecified = true) "All required fee parameters not specified: missing miner_cut"
      return wrapper

/-- The `ingress_bridge_fee` part of `set_fee_parameters`. -/
def setFeeIngressBridgeFee (wrapper : ConfigWrapper) (ingressBridgeFee : Option Asset)
    (allowUnspecified : Bool) : Outcome ConfigWrapper :=
  match ingressBridgeFee with
  | some fee => do
      check (wrapper.getTokenSymbol = Symbol.none ∨ fee.symbol = wrapper.getTokenSymbol)
        "bridge symbol can't change"
      check (0 ≤ fee.amount) "ingress bridge fee cannot be negative"
      wrapper.setIngressBridgeFee fee
  | none => do
      check (allowUnspecified = true) "All required fee parameters not specified: missing ingress_bridge_fee"
      return wrapper

/-- `set_fee_parameters`. -/
def setFeeParameters (wrapper : ConfigWrapper) (fees : FeeParameters) (allowUnspecified : Bool) (now : Nat) :
    Outcome ConfigWrapper := do
  let priced ← wrapper.setFeeGasPrice fees.gasPrice allowUnspecified now
  let cut ← priced.setFeeMinerCut fees.minerCut allowUnspecified now
  let charged ← cut.setFeeIngressBridgeFee fees.ingressBridgeFee allowUnspecified
  return charged.set id

/-- `silkworm::protocol::kMaxCodeSize`. -/
def maxCodeSize : Nat := 0x6000

/-- The `overflow_limit` of `update_consensus_parameters` and `check_gas_overflow`. -/
def overflowLimit : Nat := 2 ^ 63 - 1

def checkGasOverflow (gasTxcreate gasCodedeposit : Nat) : Bool :=
  decide (maxCodeSize ≤ overflowLimit / gasTxcreate) &&
    decide (gasCodedeposit ≤ overflowLimit - maxCodeSize * gasTxcreate)

def accountBytes : Nat := 347

def contractFixedBytes : Nat := 606

def storageSlotBytes : Nat := 346

/-- The price per byte that `update_consensus_parameters` derives in double arithmetic. -/
def gasPerByte (ramPrice : Int) (unit storagePrice minerCut : Nat) : Outcome Nat := do
  check (Float.ofInt ramPrice / (1024.0 * 1024.0) < Float.ofNat overflowLimit / Float.ofNat unit)
    "gas_per_byte too big"
  let perByte := (Float.ofInt ramPrice / (1024.0 * 1024.0) * Float.ofNat unit) /
    (Float.ofNat storagePrice * Float.ofNat (hundredPercent - minerCut) / Float.ofNat hundredPercent)
  check (0.0 ≤ perByte) "gas_per_byte must >= 0"
  let whole := (perByte + 1.0).toUInt64.toNat
  check (Float.ofNat contractFixedBytes < Float.ofNat overflowLimit / Float.ofNat whole) "gas_per_byte too big"
  check (checkGasOverflow (u64 (whole * contractFixedBytes)) whole = true) "gas_per_byte too big"
  return whole

/-- `update_consensus_parameters2`. -/
def updateConsensusParameters2 (wrapper : ConfigWrapper) (gasTxnewaccount gasNewaccount gasTxcreate
    gasCodedeposit gasSset : Option Nat) (now : Nat) : Outcome ConfigWrapper := do
  check (1 ≤ wrapper.getEvmVersion now) "evm_version must >= 1"
  let updated ← wrapper.cached.consensusParameter.update (fun parameter => do
      check (3 ≤ wrapper.getEvmVersion now ∨ ∀ sset ∈ gasSset, gasSsetMin ≤ sset) "gas_sset too small"
      return {
        gasTxnewaccount := gasTxnewaccount.getD parameter.gasTxnewaccount
        gasNewaccount := gasNewaccount.getD parameter.gasNewaccount
        gasTxcreate := gasTxcreate.getD parameter.gasTxcreate
        gasCodedeposit := gasCodedeposit.getD parameter.gasCodedeposit
        gasSset := gasSset.getD parameter.gasSset })
    wrapper.cached.genesisTime now
  return wrapper.set fun config => { config with consensusParameter := updated }

/-- `update_consensus_parameters`. -/
def updateConsensusParameters (wrapper : ConfigWrapper) (ramPriceMb : Asset) (storagePrice now : Nat) :
    Outcome ConfigWrapper := do
  check (ramPriceMb.symbol = wrapper.getTokenSymbol) "invalid price symbol"
  check (0 < storagePrice) "zero storage price is not allowed"
  let evmVersion := wrapper.getEvmVersion now
  let minerCut := if 1 ≤ evmVersion then 0 else wrapper.cached.minerCut
  check (minerCut < hundredPercent) "100% miner cut is not allowed"
  let unit ← wrapper.getMinimumNativelyRepresentable
  let perByte ← gasPerByte ramPriceMb.amount unit storagePrice minerCut
  let updated ← wrapper.updateConsensusParameters2
    (some (u64 (accountBytes * perByte))) (some (u64 (accountBytes * perByte)))
    (some (u64 (contractFixedBytes * perByte))) (some perByte)
    (some (u64 ((if evmVersion < 3 then gasSsetMin else 0) + storageSlotBytes * perByte))) now
  if 3 ≤ evmVersion then updated.enqueueGasPrices { storagePrice := some storagePrice } now
  else if 1 ≤ evmVersion then updated.enqueueGasPrice storagePrice now
  else return updated.setGasPrice storagePrice

def getConsensusParam (wrapper : ConfigWrapper) (now : Nat) : GasParameter :=
  wrapper.cached.consensusParameter.getValue wrapper.cached.genesisTime now

/-- `get_consensus_param_and_maybe_promote`: the parameters, whether they were
promoted just now, and the wrapper afterwards. -/
def promoteConsensusParam (wrapper : ConfigWrapper) (now : Nat) : GasParameter × Bool × ConfigWrapper :=
  let promoted := wrapper.cached.consensusParameter.maybePromote wrapper.cached.genesisTime now
  (promoted.1.cachedValue, promoted.2,
    if promoted.2 then wrapper.set fun config => { config with consensusParameter := promoted.1 } else wrapper)

/-- `swapgastoken` of the wrapper. -/
def swapgastoken (wrapper : ConfigWrapper) (newTokenContract : Name) (newSymbol : Symbol) : ConfigWrapper :=
  wrapper.set fun config =>
    { config with
      ingressBridgeFee := { config.ingressBridgeFee with symbol := newSymbol }
      tokenContract := newTokenContract }

/-- `evm_contract::get_gas_price`. -/
def getGasPrice (wrapper : ConfigWrapper) (evmVersion : Nat) : Nat :=
  if 3 ≤ evmVersion then wrapper.cached.gasPrices.getBasePrice else wrapper.cached.gasPrice

end ConfigWrapper

end EosEvm

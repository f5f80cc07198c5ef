import EosEvm.ConfigCore
import EosEvm.BridgeCore
import EosEvm.SilkwormCore

/-! `execute_tx` and `process_filtered_messages`: how one EVM transaction moves value
between the open balances, the tokens inside the EVM and the inline transfers it sends.
Products of 256-bit words are taken modulo `2 ^ 256`, also where the source stores them
in a wider word. -/

namespace EosEvm

open Abort Words

structure Statistics where
  gasFeeIncome : BalanceWithDust
  ingressBridgeFeeIncome : BalanceWithDust
  deriving DecidableEq, Repr

/-- The tables `balances`, `inevm` and `statistics`. -/
structure Funds where
  balances : Table Name BalanceWithDust := Table.empty
  inevm : Option BalanceWithDust := none
  statistics : Option Statistics := none

structure MessageReceiver where
  handler : Name
  minFee : Asset
  flags : UInt32
  deriving DecidableEq, Repr

/-- `message_receiver::FORCE_ATOMIC`. -/
def forceAtomicFlag : UInt32 := 1

/-- An action the contract sends. -/
inductive Inline
  | transfer (token recipient : Name) (quantity : Asset) (memo : Bytes)
  | onbridgemsg (handler : Name) (message : BridgeMessage)
  | callback (callback : ExecCallback) (output : ExecOutput)
  | configchange (parameters : GasParameter)
  | evmtx (event : EvmtxEvent)
  | pushtx (miner : Name) (rlptx : Bytes)
  deriving DecidableEq, Repr

/-- What an action sees besides its arguments and the tables. -/
structure Env where
  self : Name
  evm : Silkworm
  now : Nat
  sender : Option Name
  auths : List Name
  code : Name
  isAccount : Name → Bool
  hasCode : Name → Bool
  /-- The row of the contract in the `accounts` table of a token contract, by symbol code. -/
  tokenBalance : Name → Nat → Option Asset

/-- The message of `get` for a row that is not there. -/
def missingKey : String := "unable to find key"

def missingSingleton : String := "Singleton does not exist"

namespace Funds

def credit (funds : Funds) (owner : Name) (amount : Nat) (missing : String) : Outcome Funds := do
  let row ← require (funds.balances.get? owner) missing
  let row ← row.add amount
  return { funds with balances := funds.balances.put owner row }

def debit (funds : Funds) (owner : Name) (amount : Nat) (missing : String) : Outcome Funds := do
  let row ← require (funds.balances.get? owner) missing
  let row ← row.sub amount
  return { funds with balances := funds.balances.put owner row }

def enterEvm (funds : Funds) (amount : Nat) : Outcome Funds := do
  let row ← require funds.inevm missingSingleton
  let row ← row.add amount
  return { funds with inevm := some row }

def leaveEvm (funds : Funds) (amount : Nat) : Outcome Funds := do
  let row ← require funds.inevm missingSingleton
  let row ← row.sub amount
  return { funds with inevm := some row }

/-- `get_statistics`; the default is made before the row is looked for. -/
def getStatistics (funds : Funds) (config : ConfigWrapper) : Outcome Statistics := do
  let zero ← Asset.make 0 config.getTokenSymbol
  return funds.statistics.getD { gasFeeIncome := { balance := zero }, ingressBridgeFeeIncome := { balance := zero } }

end Funds

def maxGasCost (tx : Transaction) : Nat := u256 (tx.gasLimit * tx.maxFeePerGas)

/-- The up-front debits: the gas from the gas payer and the value from the sender, or
both from the sender. -/
def debitPayers (rc : RuntimeConfig) (tx : Transaction) (ingressAccount : Name) (valueWithMaxGas : Nat)
    (funds : Funds) : Outcome Funds :=
  match rc.gasPayer with
  | some payer => do
      let paid ← funds.debit payer (maxGasCost tx) "gas payer account has not been opened"
      if 0 < tx.value then paid.debit ingressAccount tx.value missingKey else return paid
  | none => funds.debit ingressAccount valueWithMaxGas missingKey

/-- Take value and gas of a bridge transaction from its payers, and return what the
sender's reserved address is given in the EVM. -/
def chargeSender (rc : RuntimeConfig) (tx : Transaction) (ingressAccount : Name) (funds : Funds) :
    Outcome (Funds × Nat) := do
  check (maxGasCost tx + tx.value < max256) "too much gas"
  let valueWithMaxGas := u256 (tx.value + maxGasCost tx)
  let charged ← debitPayers rc tx ingressAccount valueWithMaxGas funds
  let entered ← charged.enterEvm valueWithMaxGas
  return (entered, valueWithMaxGas)

/-- The treatment of special signatures: the funds afterwards, whether the sender is the
contract itself, and the balance and nonce set for a reserved sender. -/
def prepareSender (env : Env) (rc : RuntimeConfig) (tx : Transaction) (sender : Address) (funds : Funds) :
    Outcome (Funds × Bool × Option (Nat × Nat)) :=
  if tx.isSpecialSignature then do
    check (rc.allowSpecialSignature = true) "bridge signature used outside of bridge transaction"
    match extractReservedAddress sender with
    | none => return (funds, false, none)
    | some ingressAccount => do
        let charged ← chargeSender rc tx ingressAccount funds
        return (charged.1, ingressAccount == env.self, some (charged.2, tx.nonce))
  else .ok (funds, false, none)

def minerPortion (config : ConfigWrapper) (now : Nat) (header : BlockHeader) (tx : Transaction)
    (output : RunOutput) : Outcome Nat :=
  let version := config.getEvmVersion now
  if 3 ≤ version then .ok output.inclusionFee
  else if 1 ≤ version then do
    let baseFee ← require header.baseFeePerGas "no base fee"
    let gasFee := u256 (output.cumulativeGasUsed * tx.priorityFeePerGas baseFee)
    check (gasFee < max256) "too much gas"
    return gasFee
  else do
    let gasFee := u256 (output.cumulativeGasUsed * tx.maxFeePerGas)
    check (gasFee < max256) "too much gas"
    return u256 (gasFee * config.cached.minerCut / hundredPercent)

def hexDigit (digit : Nat) : String := String.singleton ("0123456789abcdef".toList.getD digit '0')

def appendHex : Bytes → String → String
  | [], message => message
  | byte :: rest, message =>
      if message.length < 1024 - 6 then
        appendHex rest (message ++ hexDigit (byte.toNat / 16) ++ hexDigit (byte.toNat % 16))
      else message ++ "..."

def failureMessage (output : RunOutput) : String :=
  appendHex output.data
    ("inline evm tx failed, evmc_status_code:" ++ toString output.status ++ ", data:[" ++
      toString output.data.length ++ "]")

/-- The state of the loop over the reserved objects. -/
structure Egress where
  funds : Funds
  needSend : List Bool
  totalEgress : Nat := 0
  deductedMinerCut : Bool := false

/-- The loop over the messages of one receiver that has no open balance: what is left
of the balance, the number of transfers so far and the marks afterwards. -/
def markTransfers (unit : Nat) (address : Address) :
    List FilteredMessage → List Bool → Nat → Nat → Outcome (Nat × List Bool)
  | message :: messages, mark :: marks, pendingTransfer, balance =>
      if message.receiver = address then do
        check (pendingTransfer + 1 ≤ 5)
          "only five transfers to each non-open account allowed in single transaction"
        check (message.value % unit = 0) "egress bridging to non-open accounts must not contain dust"
        check (message.value ≤ balance) "sum of bridge transfers not match total received balance"
        let rest ← markTransfers unit address messages marks (pendingTransfer + 1) (balance - message.value)
        return (rest.1, true :: rest.2)
      else do
        let rest ← markTransfers unit address messages marks pendingTransfer balance
        return (rest.1, mark :: rest.2)
  | _, marks, _, balance => .ok (balance, marks)

def creditReserved (env : Env) (portion : Option Nat) (account : Name) (amount : Nat) (egress : Egress) :
    Outcome Egress := do
  let credited ← egress.funds.credit account amount missingKey
  match portion with
  | some portion =>
      if account = env.self then do
        check (egress.deductedMinerCut = false)
          "unexpected error: contract account appears twice in reserved objects"
        let deducted ← credited.debit account portion missingKey
        return { egress with funds := deducted, deductedMinerCut := true }
      else return { egress with funds := credited }
  | none => return { egress with funds := credited }

def sendReserved (env : Env) (egresslist : Table Name Unit) (unit : Nat) (messages : List FilteredMessage)
    (account : Name) (amount : Nat) (egress : Egress) : Outcome Egress := do
  check (account ≠ env.self) "evm runtime account not open"
  check (env.isAccount account = true) "can only egress bridge to existing accounts"
  check (env.hasCode account = false ∨ (egresslist.get? account).isSome = true)
    "non-open accounts containing contract code must be on allow list for egress bridging"
  let marked ← markTransfers unit (makeReservedAddress account) messages egress.needSend 0 amount
  check (marked.1 = 0) "sum of bridge transfers not match total received balance"
  return { egress with needSend := marked.2 }

def egressObject (env : Env) (egresslist : Table Name Unit) (unit : Nat) (portion : Option Nat)
    (messages : List FilteredMessage) (egress : Egress) (object : Name × Account) : Outcome Egress := do
  check (object.2.codeHash = emptyHash) "contracts cannot be created in the reserved address space"
  check (object.1.val ≠ 0) "reserved 0 address cannot be used"
  if object.2.balance = 0 then return egress
  else
    let counted := { egress with totalEgress := u256 (egress.totalEgress + object.2.balance) }
    if (egress.funds.balances.get? object.1).isSome then
      creditReserved env portion object.1 object.2.balance counted
    else sendReserved env egresslist unit messages object.1 object.2.balance counted

def sendTransfers (config : ConfigWrapper) (unit : Nat) :
    List FilteredMessage → List Bool → Outcome (List Inline)
  | message :: messages, mark :: marks =>
      if mark then do
        let quantity ← Asset.make (i64 (u64 (message.value / unit))) config.getTokenSymbol
        let rest ← sendTransfers config unit messages marks
        return .transfer config.cached.tokenContract ((extractReservedAddress message.receiver).getD 0)
          quantity message.data :: rest
      else sendTransfers config unit messages marks
  | _, _ => .ok []

def leaveTotal (totalEgress : Nat) (funds : Funds) : Outcome Funds :=
  if totalEgress = 0 then .ok funds else funds.leaveEvm totalEgress

def egressFunds (env : Env) (config : ConfigWrapper) (egresslist : Table Name Unit) (portion : Option Nat)
    (output : RunOutput) (funds : Funds) : Outcome (Funds × Bool × List Inline) :=
  if output.reservedObjects = [] then .ok (funds, false, [])
  else do
    let unit ← config.getMinimumNativelyRepresentable
    let start : Egress := { funds := funds, needSend := output.filteredMessages.map fun _ => false }
    let egress ← foldOutcome (egressObject env egresslist unit portion output.filteredMessages)
      output.reservedObjects start
    let sent ← sendTransfers config unit output.filteredMessages egress.needSend
    let left ← leaveTotal egress.totalEgress egress.funds
    return (left, egress.deductedMinerCut, sent)

def payMiner (miner : Name) (portion : Option Nat) (deductedMinerCut : Bool) (funds : Funds) : Outcome Funds :=
  if portion.getD 0 = 0 then .ok funds
  else do
    check (deductedMinerCut = true)
      "unexpected error: contract account did not receive any funds through its reserved address"
    funds.credit miner (portion.getD 0) missingKey

def refundGas (header : BlockHeader) (tx : Transaction) (sender : Address) (gasPayer : Option Name)
    (output : RunOutput) (funds : Funds) : Outcome Funds :=
  match gasPayer with
  | none => .ok funds
  | some payer => do
      let baseFee ← require header.baseFeePerGas "bad optional access"
      let gasFee := u256 (output.cumulativeGasUsed * u256 (tx.priorityFeePerGas baseFee + baseFee))
      check (gasFee < max256 ∧ maxGasCost tx < max256 ∧ gasFee < maxGasCost tx) "invalid gas fee"
      let ingressAccount ← require (extractReservedAddress sender) "bad optional access"
      let taken ← funds.debit ingressAccount (maxGasCost tx - gasFee) missingKey
      taken.credit payer (maxGasCost tx - gasFee) missingKey

def gasIncome (config : ConfigWrapper) (now : Nat) (header : BlockHeader) (tx : Transaction)
    (portion : Option Nat) (output : RunOutput) : Outcome Nat :=
  if 1 ≤ config.getEvmVersion now then do
    let baseFee ← require header.baseFeePerGas "bad optional access"
    let gasFee := u256 (output.cumulativeGasUsed * baseFee)
    check (gasFee < max256) "too much gas"
    return gasFee
  else do
    let gasFee := u256 (output.cumulativeGasUsed * tx.maxFeePerGas)
    check (gasFee < max256) "too much gas"
    return sub256 gasFee (portion.getD 0)

def recordGasFee (config : ConfigWrapper) (now : Nat) (header : BlockHeader) (tx : Transaction)
    (portion : Option Nat) (fromSelf : Bool) (output : RunOutput) (funds : Funds) : Outcome Funds :=
  if fromSelf then .ok funds
  else do
    let statistics ← funds.getStatistics config
    let income ← gasIncome config now header tx portion output
    let gasFeeIncome ← statistics.gasFeeIncome.add income
    return { funds with statistics := some { statistics with gasFeeIncome := gasFeeIncome } }

def payableMiner (self miner : Name) : Option Name :=
  if miner = self ∨ miner.val = 0 then none else some miner

/-- What `execute_tx` is run on besides the funds. -/
structure TxContext where
  config : ConfigWrapper
  rc : RuntimeConfig
  miner : Name
  header : BlockHeader
  gasParams : GasParameter
  tx : Transaction
  egresslist : Table Name Unit
  db : Db

def checkMiner (self miner : Name) (funds : Funds) : Outcome Unit :=
  match payableMiner self miner with
  | some miner => check ((funds.balances.get? miner).isSome = true) "no balance open for miner"
  | none => .ok ()

def minerShare (env : Env) (context : TxContext) (output : RunOutput) : Outcome (Option Nat) :=
  match payableMiner env.self context.miner with
  | some _ => do
      let portion ← minerPortion context.config env.now context.header context.tx output
      return some portion
  | none => .ok none

/-- The checks and the up-front charge of `execute_tx`: the funds, whether the sender is
the contract itself, and the input of the run. -/
def beginTx (env : Env) (context : TxContext) (funds : Funds) : Outcome (Funds × Bool × RunInput) := do
  checkMiner env.self context.miner funds
  let chainId := context.config.cached.chainid
  checkResult env.evm (env.evm.preValidateTransaction context.header chainId context.gasParams context.tx)
    "pre_validate_transaction error"
  let sender ← require (env.evm.recoverSender context.tx) "unable to recover sender"
  let prepared ← prepareSender env context.rc context.tx sender funds
  check (context.rc.enforceChainId = false ∨ context.tx.chainId.isSome = true) "tx without chain-id"
  let prices := context.config.cached.gasPrices
  let input : RunInput := {
    header := context.header
    chainId := chainId
    gasParams := context.gasParams
    overheadPrice := prices.overheadPrice.getD 0
    storagePrice := prices.storagePrice.getD 0
    tx := context.tx
    sender := sender
    db := context.db
    funded := prepared.2.2 }
  return (prepared.1, prepared.2.1, input)

/-- What `execute_tx` does with the outcome of the run. -/
def settleTx (env : Env) (context : TxContext) (fromSelf : Bool) (sender : Address) (output : RunOutput)
    (funds : Funds) : Outcome (Funds × List Inline) := do
  let portion ← minerShare env context output
  check (context.rc.abortOnFailure = false ∨ output.success = true) (failureMessage output)
  let egress ← egressFunds env context.config context.egresslist portion output funds
  let paid ← payMiner context.miner portion egress.2.1 egress.1
  let refunded ← refundGas context.header context.tx sender context.rc.gasPayer output paid
  let recorded ← recordGasFee context.config env.now context.header context.tx portion fromSelf output refunded
  return (recorded, egress.2.2)

/-- `execute_tx`: the funds, the transfers it sent and the outcome of the run. -/
def executeTx (env : Env) (context : TxContext) (funds : Funds) :
    Outcome (Funds × List Inline × RunInput × RunOutput) := do
  let begun ← beginTx env context funds
  let result ← env.evm.validateTransaction begun.2.2
  checkResult env.evm result "validate_transaction error"
  let output ← env.evm.executeTransaction begun.2.2
  let settled ← settleTx env context begun.2.1 begun.2.2.sender output begun.1
  return (settled.1, settled.2, begun.2.2, output)

def deliverMessage (env : Env) (config : ConfigWrapper) (receivers : Table Name MessageReceiver)
    (delivered : Funds × List Inline × Nat) (message : FilteredMessage) : Outcome (Funds × List Inline × Nat) := do
  let decoded ← Bridge.decodeMessage Bridge.maxSize message.data
  let decoded ← require decoded "unable to decode bridge message"
  let receiver ← decoded.getAccountAsName
  check (env.isAccount receiver = true) "receiver is not account"
  let registered ← require (receivers.get? receiver) "receiver not registered"
  check (decoded.forceAtomic = false ∨ registered.flags &&& forceAtomicFlag ≠ 0) "unable to process message"
  let unit ← config.getMinimumNativelyRepresentable
  let minFee := u256 (unsigned registered.minFee.amount * unit)
  check (minFee ≤ message.value) "min_fee not covered"
  let credited ← delivered.1.credit receiver message.value "receiver account is not open"
  let notice : BridgeMessage := {
    receiver := receiver
    sender := message.sender
    timestamp := env.now
    value := message.value
    data := decoded.data }
  return (credited, delivered.2.1 ++ [.onbridgemsg registered.handler notice],
    u256 (delivered.2.2 + message.value))

/-- The filter of `process_tx`: messages with data to the contract's own reserved address. -/
def isBridgeMessage (self : Name) (message : FilteredMessage) : Bool :=
  message.receiver == makeReservedAddress self && !message.data.isEmpty

def debitDelivered (self : Name) (accumulated : Nat) (funds : Funds) : Outcome Funds :=
  if 0 < accumulated then funds.debit self accumulated missingKey else .ok funds

/-- `process_filtered_messages`. -/
def processFilteredMessages (env : Env) (config : ConfigWrapper) (receivers : Table Name MessageReceiver)
    (messages : List FilteredMessage) (funds : Funds) : Outcome (Funds × List Inline) := do
  let delivered ← foldOutcome (deliverMessage env config receivers)
    (messages.filter (isBridgeMessage env.self)) (funds, [], 0)
  let settled ← debitDelivered env.self delivered.2.2 delivered.1
  return (settled, delivered.2.1)

end EosEvm

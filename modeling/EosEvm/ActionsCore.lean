import EosEvm.ContractCore

/-! The actions of the contract and its handler for token transfer notifications. -/

namespace EosEvm

open Abort Words

/-- The actions with their arguments; the administrative ones at the end are compiled
in only with `WITH_ADMIN_ACTIONS`. The argument of `evmtx` is ignored by the source. -/
inductive Action
  | init (chainid : Nat) (fees : FeeParameters) (tokenContract : Option Name)
  | setfeeparams (fees : FeeParameters)
  | addegress (accounts : List Name)
  | removeegress (accounts : List Name)
  | freeze (value : Bool)
  | exec (input : ExecInput) (callback : Option ExecCallback)
  | pushtx (miner : Name) (rlptx : Bytes) (minInclusionPrice : Option Nat)
  | «open» (owner : Name)
  | close (owner : Name)
  | withdraw (owner : Name) (quantity : Asset) (recipient : Option Name)
  | gc (max : Nat)
  | call (sender : Name) (recipient value data : Bytes) (gasLimit : Nat)
  | callotherpay (payer sender : Name) (recipient value data : Bytes) (gasLimit : Nat)
  | admincall (sender recipient value data : Bytes) (gasLimit : Nat)
  | bridgereg (receiver handler : Name) (minFee : Asset)
  | bridgeunreg (receiver : Name)
  | assertnonce (account : Name) (nextNonce : Nat)
  | setversion (version : Nat)
  | updtgasparam (ramPriceMb : Asset) (storagePrice : Nat)
  | setgasparam (gasTxnewaccount gasNewaccount gasTxcreate gasCodedeposit gasSset : Nat)
  | setgasprices (prices : GasPrices)
  | setgaslimit (ingressGasLimit : Nat)
  | swapgastoken (newTokenContract : Name) (newSymbol : Symbol) (swapDestAccount : Name) (swapMemo : Bytes)
  | migratebal (fromName : Name) (limit : Int)
  | evmtx
  | configchange (parameters : GasParameter)
  | rmgcstore (id : Nat)
  | setkvstore (accountId : Nat) (key : Bytes) (value : Option Bytes)
  | rmaccount (id : Nat)
  | addevmbal (id : Nat) (delta : Bytes) (subtract : Bool)
  | addopenbal (account : Name) (delta : Bytes) (subtract : Bool)
  | freezeaccnt (id : Nat) (value : Bool)
  deriving DecidableEq, Repr

/-- The actions that are compiled in only with `WITH_ADMIN_ACTIONS`. -/
def Action.isAdmin : Action → Bool
  | .rmgcstore _ | .setkvstore _ _ _ | .rmaccount _ | .addevmbal _ _ _ | .addopenbal _ _ _
  | .freezeaccnt _ _ => true
  | _ => false

def Action.isSwap : Action → Bool
  | .swapgastoken _ _ _ _ => true
  | _ => false

namespace Contract

def setConfig (contract : Contract) (config : ConfigWrapper) : Contract := { contract with config := config }

/-- `get_or_create` of the singleton `inevm`; the default is made before the row is looked for. -/
def initialInevm (fees : FeeParameters) (inevm : Option BalanceWithDust) : Outcome BalanceWithDust := do
  let fee ← require fees.ingressBridgeFee "bad optional access"
  let zero ← Asset.make 0 fee.symbol
  return inevm.getD { balance := zero }

def init (env : Env) (chainid : Nat) (fees : FeeParameters) (tokenContract : Option Name)
    (contract : Contract) : Outcome Contract := do
  requireAuth env env.self
  check (contract.config.stored = false) "contract already initialized"
  check (env.evm.lookupKnownChain chainid = true) "unknown chainid"
  let config := contract.config.set fun config =>
    { config with version := 0, chainid := chainid, genesisTime := u32 (env.now / 1000000) }
  let config ← config.setFeeParameters fees false env.now
  let config := { config with
    cached := { config.cached with tokenContract := tokenContract.getD config.cached.tokenContract } }
  let inevm ← initialInevm fees contract.funds.inevm
  openInternalBalance env.self
    { contract with config := config, funds := { contract.funds with inevm := some inevm } }

def setfeeparams (env : Env) (fees : FeeParameters) (contract : Contract) : Outcome Contract := do
  assertInited contract.config
  requireAuth env env.self
  let config ← contract.config.setFeeParameters fees true env.now
  return contract.setConfig config

def addegress (env : Env) (accounts : List Name) (contract : Contract) : Outcome Contract := do
  assertInited contract.config
  requireAuth env env.self
  return { contract with
    egresslist := accounts.foldl (fun listed account => listed.put account ()) contract.egresslist }

def removeegress (env : Env) (accounts : List Name) (contract : Contract) : Outcome Contract := do
  assertInited contract.config
  requireAuth env env.self
  return { contract with
    egresslist := accounts.foldl (fun listed account => listed.erase account) contract.egresslist }

def freeze (env : Env) (value : Bool) (contract : Contract) : Outcome Contract := do
  requireAuth env env.self
  assertInited contract.config
  return contract.setConfig (contract.config.set fun config =>
    { config with status := if value then config.status ||| frozenFlag else config.status &&& ~~~frozenFlag })

def optionalArg {α : Type} (convert : Bytes → Outcome α) (zero : α) (argument : Option Bytes) : Outcome α :=
  match argument with
  | some bytes => convert bytes
  | none => .ok zero

/-- The call that `exec` makes of its input. -/
def execCall (env : Env) (input : ExecInput) (contract : Contract) : Outcome CallInput := do
  let recipient ← toAddress input.recipient
  let sender ← optionalArg toAddress 0 input.sender
  let value ← optionalArg toUint256 0 input.value
  return {
    header := blockHeader env contract.config (contract.config.getEvmVersion env.now)
    chainId := contract.config.cached.chainid
    gasParams := contract.config.getConsensusParam env.now
    recipient := recipient
    sender := sender
    data := input.data
    value := value
    gas := 0x7ffffffffff
    db := contract.db }

/-- `exec`: a read-only run whose output goes to the callback, or is returned. -/
def exec (env : Env) (input : ExecInput) (callback : Option ExecCallback) (contract : Contract) :
    Outcome Contract := do
  assertUnfrozen contract.config
  check (env.evm.lookupKnownChain contract.config.cached.chainid = true) "unknown chainid"
  let call ← execCall env input contract
  let result ← env.evm.execute call
  let output : ExecOutput := { status := result.status, data := result.data, context := input.context }
  match callback with
  | some callback => return contract.emit (.callback callback output)
  | none => return contract

/-- The runtime configuration of `pushtx`: relaxed when the contract sent it itself. -/
def pushtxConfig (env : Env) : RuntimeConfig :=
  if env.sender = some env.self then bridgeConfig none else {}

def pushtx (env : Env) (miner : Name) (rlptx : Bytes) (minInclusionPrice : Option Nat)
    (contract : Contract) : Outcome Contract := do
  assertUnfrozen contract.config
  check (minInclusionPrice = none ∨ 1 ≤ contract.config.getEvmVersion env.now)
    "min_inclusion_price requires evm_version >= 1"
  processTx env (pushtxConfig env) miner (.ofRlp rlptx) minInclusionPrice (refreshPrices env contract)

def «open» (env : Env) (owner : Name) (contract : Contract) : Outcome Contract := do
  assertUnfrozen contract.config
  requireAuth env owner
  openInternalBalance owner contract

def close (env : Env) (owner : Name) (contract : Contract) : Outcome Contract := do
  assertUnfrozen contract.config
  requireAuth env owner
  check (owner ≠ env.self) "Cannot close self"
  let row ← require (contract.funds.balances.get? owner) "account is not open"
  check (row.isZero = true) "cannot close because balance is not zero"
  let nonce ← require (contract.nextnonces.get? owner) missingKey
  -- a counter that was used stays, in case the account is opened again
  return { contract with
    funds := { contract.funds with balances := contract.funds.balances.erase owner }
    nextnonces := if nonce = 0 then contract.nextnonces.erase owner else contract.nextnonces }

def deposit (owner : Name) (quantity : Asset) (missing : String) (contract : Contract) : Outcome Contract := do
  let row ← require (contract.funds.balances.get? owner) missing
  let balance ← row.balance.add quantity
  return { contract with funds := { contract.funds with
    balances := contract.funds.balances.put owner { row with balance := balance } } }

def handleAccountTransfer (env : Env) (quantity : Asset) (memo : Bytes) (contract : Contract) :
    Outcome Contract := do
  let receiver ← nameOf memo
  (refreshPrices env contract).deposit receiver quantity "receiving account has not been opened"

def ingressGasLimit (env : Env) (contract : Contract) (destination : Address) : Nat :=
  match contract.db.findAccount destination with
  | some _ => contract.config.cached.ingressGasLimit
  | none => contract.config.cached.ingressGasLimit + (contract.config.getConsensusParam env.now).gasTxnewaccount

def recordIngressFee (contract : Contract) : Outcome Contract := do
  let statistics ← contract.funds.getStatistics contract.config
  let income ← statistics.ingressBridgeFeeIncome.balance.add contract.config.cached.ingressBridgeFee
  return { contract with funds := { contract.funds with statistics := some { statistics with
    ingressBridgeFeeIncome := { statistics.ingressBridgeFeeIncome with balance := income } } } }

/-- The transaction that `handle_evm_transfer` makes. The price, the gas limit and the nonce are
words of 64 bits. -/
def ingressTx (env : Env) (version : Nat) (destination : Address) (value nonce : Nat) (contract : Contract) :
    Transaction :=
  let price := u64 (contract.config.getGasPrice version)
  { nonce := u64 nonce
    maxPriorityFeePerGas := price
    maxFeePerGas := price
    gasLimit := u64 (ingressGasLimit env contract destination)
    recipient := some destination
    value := u256 value
    r := 0
    s := env.self.val }

def handleEvmTransfer (env : Env) (quantity : Asset) (memo : Bytes) (contract : Contract) :
    Outcome Contract := do
  let version := contract.config.getEvmVersion env.now
  let received ← (refreshPrices env contract).deposit env.self quantity missingKey
  let bridged ← quantity.sub received.config.cached.ingressBridgeFee
  check (0 < bridged.amount) "must bridge more than ingress bridge fee"
  let recorded ← received.recordIngressFee
  let address ← require (env.evm.fromHex memo) "unable to parse destination address"
  let unit ← recorded.config.getMinimumNativelyRepresentable
  let numbered ← getAndIncrementNonce env.self recorded
  let tx := ingressTx env version (env.evm.toEvmcAddress address) (unsigned bridged.amount * unit) numbered.1 numbered.2
  dispatchTx env (bridgeConfig none) tx numbered.2

/-- The handler of `*::transfer` notifications. -/
def transfer (env : Env) (sender recipient : Name) (quantity : Asset) (memo : Bytes) (contract : Contract) :
    Outcome Contract := do
  assertUnfrozen contract.config
  if recipient ≠ env.self ∨ sender = env.self then return contract
  else do
    check (env.code = contract.config.cached.tokenContract ∧ quantity.symbol = contract.config.getTokenSymbol)
      "received unexpected token"
    if memo = [] ∧ sender = contract.config.cached.tokenContract then return contract
    else if memo.length = 42 ∧ memo.take 2 = bytesOf "0x" then handleEvmTransfer env quantity memo contract
    else if memo ≠ [] ∧ memo.length ≤ 13 then handleAccountTransfer env quantity memo contract
    else .error "memo must be either 0x EVM address or already opened account name to credit deposit to"

def withdraw (env : Env) (owner : Name) (quantity : Asset) (recipient : Option Name) (contract : Contract) :
    Outcome Contract := do
  assertUnfrozen contract.config
  requireAuth env owner
  let row ← require (contract.funds.balances.get? owner) "account is not open"
  let symbol := contract.config.getTokenSymbol
  check (symbol = quantity.symbol) "invalid symbol"
  check (quantity.amount ≤ row.balance.amount) "overdrawn balance"
  let balance ← { row.balance with symbol := symbol }.sub quantity
  let debited := { contract with funds := { contract.funds with
    balances := contract.funds.balances.put owner { row with balance := balance } } }
  return debited.emit (.transfer contract.config.cached.tokenContract (recipient.getD owner) quantity
    (bytesOf "Withdraw from EVM balance"))

/-- `gc`; the result it returns is that of `Db.gc`. -/
def gc (env : Env) (max : Nat) (contract : Contract) : Outcome Contract := do
  assertUnfrozen contract.config
  requireAuth env env.self
  return { contract with db := (contract.db.gc max).1 }

def call (env : Env) (sender : Name) (recipient value data : Bytes) (gasLimit : Nat) (contract : Contract) :
    Outcome Contract := do
  assertUnfrozen contract.config
  requireAuth env sender
  let value ← loadValue value
  let numbered ← getAndIncrementNonce sender contract
  callWith env (bridgeConfig none) sender.val recipient value data gasLimit numbered.1 numbered.2

def callotherpay (env : Env) (payer sender : Name) (recipient value data : Bytes) (gasLimit : Nat)
    (contract : Contract) : Outcome Contract := do
  assertUnfrozen contract.config
  requireAuth env sender
  requireAuth env payer
  let versioned := contract.config.promoteEvmVersion env.now
  check (1 ≤ versioned.1) "operation not supported for current evm version"
  let value ← loadValue value
  let numbered ← getAndIncrementNonce sender (contract.setConfig versioned.2)
  callWith env (bridgeConfig (some payer)) sender.val recipient value data gasLimit numbered.1 numbered.2

def adminNonce (address : Address) (contract : Contract) : Outcome (Nat × Contract) :=
  match extractReservedAddress address with
  | some account => getAndIncrementNonce account contract
  | none => do
      let read ← (State.fresh contract.db true).readAccount address
      let account ← require read.1 "invalid address"
      return (account.nonce, contract)

def admincall (env : Env) (sender recipient value data : Bytes) (gasLimit : Nat) (contract : Contract) :
    Outcome Contract := do
  assertUnfrozen contract.config
  requireAuth env env.self
  let value ← loadValue value
  check (sender.length = 20) "invalid address"
  let address ← toAddress sender
  let numbered ← adminNonce address contract
  -- the signature carries the address padded with ones
  callWith env (bridgeConfig none) (2 ^ 256 - 2 ^ 160 + address.toNat) recipient value data gasLimit
    numbered.1 numbered.2

def bridgereg (env : Env) (receiver handler : Name) (minFee : Asset) (contract : Contract) :
    Outcome Contract := do
  assertUnfrozen contract.config
  requireAuth env receiver
  requireAuth env env.self
  check (minFee.symbol = contract.config.getTokenSymbol) "unexpected symbol"
  check (0 ≤ minFee.amount) "min_fee cannot be negative"
  let row : MessageReceiver := { handler := handler, minFee := minFee, flags := forceAtomicFlag }
  Contract.open env receiver { contract with receivers := contract.receivers.put receiver row }

def bridgeunreg (env : Env) (receiver : Name) (contract : Contract) : Outcome Contract := do
  assertUnfrozen contract.config
  requireAuth env receiver
  let _ ← require (contract.receivers.get? receiver) "receiver not found"
  return { contract with receivers := contract.receivers.erase receiver }

def assertnonce (account : Name) (nextNonce : Nat) (contract : Contract) : Outcome Contract := do
  check ((contract.nextnonces.get? account).getD 0 = nextNonce) "wrong nonce"
  return contract

def setversion (env : Env) (version : Nat) (contract : Contract) : Outcome Contract := do
  requireAuth env env.self
  let config ← contract.config.setEvmVersion version env.now
  return contract.setConfig config

def updtgasparam (env : Env) (ramPriceMb : Asset) (storagePrice : Nat) (contract : Contract) :
    Outcome Contract := do
  requireAuth env env.self
  let config ← contract.config.updateConsensusParameters ramPriceMb storagePrice env.now
  return contract.setConfig config

def setgasparam (env : Env) (gasTxnewaccount gasNewaccount gasTxcreate gasCodedeposit gasSset : Nat)
    (contract : Contract) : Outcome Contract := do
  requireAuth env env.self
  let config ← contract.config.updateConsensusParameters2 (some gasTxnewaccount) (some gasNewaccount)
    (some gasTxcreate) (some gasCodedeposit) (some gasSset) env.now
  return contract.setConfig config

def setgasprices (env : Env) (prices : GasPrices) (contract : Contract) : Outcome Contract := do
  requireAuth env env.self
  check (prices.overheadPrice.isSome = true ∨ prices.storagePrice.isSome = true)
    "at least one price must be specified"
  check (prices.storagePrice ≠ some 0) "zero storage price is not allowed"
  let versioned := contract.config.promoteEvmVersion env.now
  if 3 ≤ versioned.1 then do
    let config ← versioned.2.enqueueGasPrices prices env.now
    return contract.setConfig config
  else return contract.setConfig (versioned.2.setGasPrices prices)

/-- `setgaslimit`, which asks for no authority. -/
def setgaslimit (ingressGasLimit : Nat) (contract : Contract) : Outcome Contract :=
  .ok (contract.setConfig (contract.config.set fun config => { config with ingressGasLimit := ingressGasLimit }))

/-- The rows `migratebal` visits: at most `limit` of them, from a name on. -/
def migrated (fromName : Name) (limit : Nat) (contract : Contract) : List (Name × BalanceWithDust) :=
  (contract.funds.balances.rows.filter fun row => decide (fromName ≤ row.1)).take limit

def migratebal (fromName : Name) (limit : Int) (contract : Contract) : Outcome Contract := do
  let inevm ← require contract.funds.inevm missingSingleton
  let symbol := inevm.balance.symbol
  let stale := (contract.migrated fromName limit.toNat).filter fun row => decide (row.2.balance.symbol ≠ symbol)
  let balances := stale.foldl (fun balances row => balances.modify row.1 fun row =>
    row.withSymbol symbol) contract.funds.balances
  check (stale ≠ []) "nothing changed"
  return { contract with funds := { contract.funds with balances := balances } }

def swapgastoken (env : Env) (newTokenContract : Name) (newSymbol : Symbol) (swapDestAccount : Name)
    (swapMemo : Bytes) (contract : Contract) : Outcome Contract := do
  requireAuth env env.self
  let oldTokenContract := contract.config.cached.tokenContract
  let oldSymbol := contract.config.getTokenSymbol
  let config := contract.config.swapgastoken newTokenContract newSymbol
  let inevm ← require contract.funds.inevm missingSingleton
  let statistics ← contract.funds.getStatistics config
  let swapped ← migratebal env.self 1 { contract with
    config := config
    receivers := ⟨contract.receivers.rows.map fun row =>
      (row.1, { row.2 with minFee := { row.2.minFee with symbol := newSymbol } }),
      (List.pairwise_map).mpr contract.receivers.sorted⟩
    funds := { contract.funds with
      inevm := some (inevm.withSymbol newSymbol)
      statistics := some {
        gasFeeIncome := statistics.gasFeeIncome.withSymbol newSymbol
        ingressBridgeFeeIncome := statistics.ingressBridgeFeeIncome.withSymbol newSymbol } } }
  if swapDestAccount.val ≠ 0 then do
    let held ← require (env.tokenBalance oldTokenContract oldSymbol.code)
      "can't get self balance from old token contract"
    return swapped.emit (.transfer oldTokenContract swapDestAccount held swapMemo)
  else return swapped

/-- `evmtx` and `configchange`: events that only the contract may send. -/
def event (env : Env) (contract : Contract) : Outcome Contract := do
  check (env.sender = some env.self) "forbidden to call"
  return contract

/-- The balance of an EVM account after an adjustment, and the funds with the tokens inside
the EVM adjusted alike. -/
def adjustEvm (balance delta : Nat) (subtract : Bool) (funds : Funds) : Outcome (Nat × Funds) :=
  if subtract then do
    let left ← funds.leaveEvm delta
    check (delta ≤ balance) "underflow detected"
    return (balance - delta, left)
  else do
    check (balance + delta ≤ max256) "overflow detected"
    let entered ← funds.enterEvm delta
    return (balance + delta, entered)

def addevmbal (env : Env) (id : Nat) (delta : Bytes) (subtract : Bool) (contract : Contract) :
    Outcome Contract := do
  requireAuth env env.self
  let row ← require (contract.db.accounts.get? id) "account not found"
  let delta ← toUint256 delta
  let result ← adjustEvm row.balance delta subtract contract.funds
  return { contract with
    funds := result.2
    db := { contract.db with
      accounts := contract.db.accounts.modify id fun row => { row with balance := result.1 } } }

def adjustOpen (account : Name) (delta : Nat) (subtract : Bool) (funds : Funds) : Outcome Funds :=
  if subtract then funds.debit account delta missingKey else funds.credit account delta missingKey

def addopenbal (env : Env) (account : Name) (delta : Bytes) (subtract : Bool) (contract : Contract) :
    Outcome Contract := do
  requireAuth env env.self
  let _ ← require (contract.funds.balances.get? account) "account not found"
  let delta ← toUint256 delta
  let funds ← adjustOpen account delta subtract contract.funds
  return { contract with funds := funds }

def editDb (env : Env) (edit : Db → Outcome Db) (contract : Contract) : Outcome Contract := do
  requireAuth env env.self
  let db ← edit contract.db
  return { contract with db := db }

end Contract

def Action.run (env : Env) : Action → Contract → Outcome Contract
  | .init chainid fees tokenContract => Contract.init env chainid fees tokenContract
  | .setfeeparams fees => Contract.setfeeparams env fees
  | .addegress accounts => Contract.addegress env accounts
  | .removeegress accounts => Contract.removeegress env accounts
  | .freeze value => Contract.freeze env value
  | .exec input callback => Contract.exec env input callback
  | .pushtx miner rlptx minInclusionPrice => Contract.pushtx env miner rlptx minInclusionPrice
  | .open owner => Contract.open env owner
  | .close owner => Contract.close env owner
  | .withdraw owner quantity recipient => Contract.withdraw env owner quantity recipient
  | .gc max => Contract.gc env max
  | .call sender recipient value data gasLimit => Contract.call env sender recipient value data gasLimit
  | .callotherpay payer sender recipient value data gasLimit =>
      Contract.callotherpay env payer sender recipient value data gasLimit
  | .admincall sender recipient value data gasLimit =>
      Contract.admincall env sender recipient value data gasLimit
  | .bridgereg receiver handler minFee => Contract.bridgereg env receiver handler minFee
  | .bridgeunreg receiver => Contract.bridgeunreg env receiver
  | .assertnonce account nextNonce => Contract.assertnonce account nextNonce
  | .setversion version => Contract.setversion env version
  | .updtgasparam ramPriceMb storagePrice => Contract.updtgasparam env ramPriceMb storagePrice
  | .setgasparam gasTxnewaccount gasNewaccount gasTxcreate gasCodedeposit gasSset =>
      Contract.setgasparam env gasTxnewaccount gasNewaccount gasTxcreate gasCodedeposit gasSset
  | .setgasprices prices => Contract.setgasprices env prices
  | .setgaslimit ingressGasLimit => Contract.setgaslimit ingressGasLimit
  | .swapgastoken newTokenContract newSymbol swapDestAccount swapMemo =>
      Contract.swapgastoken env newTokenContract newSymbol swapDestAccount swapMemo
  | .migratebal fromName limit => Contract.migratebal fromName limit
  | .evmtx => Contract.event env
  | .configchange _ => Contract.event env
  | .rmgcstore id => Contract.editDb env fun db => db.rmgcstore id
  | .setkvstore accountId key value => Contract.editDb env fun db => db.setkvstore accountId key value
  | .rmaccount id => Contract.editDb env fun db => db.rmaccount id
  | .addevmbal id delta subtract => Contract.addevmbal env id delta subtract
  | .addopenbal account delta subtract => Contract.addopenbal env account delta subtract
  | .freezeaccnt id value => Contract.editDb env fun db => db.freezeaccnt id value

end EosEvm

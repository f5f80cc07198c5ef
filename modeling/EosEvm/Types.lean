import EosEvm.Cdt

/-! Constants and plain records of the contract: `types.hpp`, `runtime_config.hpp`
and the value types of `tables.hpp`. -/

namespace EosEvm

/-- A 20-byte EVM address. -/
abbrev Address := BitVec 160

/-- A 32-byte word: hashes, storage locations and storage values. -/
abbrev Bytes32 := BitVec 256

def ninetyPercent : Nat := 90000

def hundredPercent : Nat := 100000

def gasSsetMin : Nat := 2900

def gracePeriodSeconds : Nat := 180

def evmPrecision : Nat := 18

/-- `eosevm::max_eos_evm_version`. -/
def maxEosEvmVersion : Nat := 3

/-- `"eosio.token"_n`. -/
def defaultTokenAccount : Name := Fin.ofNat (2 ^ 64) 6138663591592764928

/-- `consensus_parameter_data_type`, a variant with the single alternative `v0`. -/
structure GasParameter where
  gasTxnewaccount : Nat := 0
  gasNewaccount : Nat := 25000
  gasTxcreate : Nat := 32000
  gasCodedeposit : Nat := 200
  gasSset : Nat := 20000
  deriving DecidableEq, Repr

structure GasPrices where
  overheadPrice : Option Nat := none
  storagePrice : Option Nat := none
  deriving DecidableEq, Repr

/-- `gas_prices_type::get_base_price`. -/
def GasPrices.getBasePrice (prices : GasPrices) : Nat :=
  max (prices.overheadPrice.getD 0) (prices.storagePrice.getD 0)

def GasPrices.updated (prices update : GasPrices) : GasPrices where
  overheadPrice := update.overheadPrice.or prices.overheadPrice
  storagePrice := update.storagePrice.or prices.storagePrice

structure FeeParameters where
  gasPrice : Option Nat
  minerCut : Option Nat
  ingressBridgeFee : Option Asset
  deriving DecidableEq, Repr

structure RuntimeConfig where
  allowSpecialSignature : Bool := false
  abortOnFailure : Bool := false
  enforceChainId : Bool := true
  allowNonSelfMiner : Bool := true
  gasPayer : Option Name := none
  deriving DecidableEq, Repr

structure ExecInput where
  context : Option Bytes
  sender : Option Bytes
  recipient : Bytes
  data : Bytes
  value : Option Bytes
  deriving DecidableEq, Repr

structure ExecCallback where
  contract : Name
  action : Name
  deriving DecidableEq, Repr

structure ExecOutput where
  status : Int
  data : Bytes
  context : Option Bytes
  deriving DecidableEq, Repr

structure BridgeMessage where
  receiver : Name
  sender : Address
  timestamp : Nat
  value : Nat
  data : Bytes
  deriving DecidableEq, Repr

/-- `evmtx_type`. -/
inductive EvmtxEvent
  | v1 (eosEvmVersion : Nat) (rlptx : Bytes) (baseFeePerGas : Nat)
  | v3 (eosEvmVersion : Nat) (rlptx : Bytes) (overheadPrice storagePrice : Nat)
  deriving DecidableEq, Repr

end EosEvm

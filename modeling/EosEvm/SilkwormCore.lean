import EosEvm.DbCore

/-! The EVM library the contract is built on, as a parameter: what the contract hands
to it and what it gets back. Only the address and fee helpers, whose definition the
contract's own arithmetic depends on, are spelled out. -/

namespace EosEvm

open Abort Words

inductive ValidationResult
  | ok
  | wrongChainId
  | unsupportedTransactionType
  | maxFeeLessThanBase
  | maxPriorityFeeGreaterThanMax
  | invalidSignature
  | intrinsicGas
  | nonceTooHigh
  | missingSender
  | senderNoEoa
  | wrongNonce
  | insufficientFunds
  | blockGasLimitExceeded
  | other
  deriving DecidableEq, Repr

/-- `silkworm::Transaction` without the recovered sender. -/
structure Transaction where
  type : Nat := 0
  chainId : Option Nat := none
  nonce : Nat
  maxPriorityFeePerGas : Nat
  maxFeePerGas : Nat
  gasLimit : Nat
  recipient : Option Address
  value : Nat
  data : Bytes := []
  accessList : List (Address × List Bytes32) := []
  oddYParity : Bool := false
  r : Nat
  s : Nat
  deriving DecidableEq, Repr

/-- `silkworm::is_special_signature`. -/
def Transaction.isSpecialSignature (tx : Transaction) : Bool := tx.r == 0

/-- `Transaction::priority_fee_per_gas`; its assertion is compiled out. -/
def Transaction.priorityFeePerGas (tx : Transaction) (baseFee : Nat) : Nat :=
  min tx.maxPriorityFeePerGas (sub256 tx.maxFeePerGas baseFee)

def reservedPrefix : Nat := 0xbbbbbbbbbbbbbbbbbbbbbbbb

/-- `make_reserved_address`: twelve bytes `bb`, then the account name. -/
def makeReservedAddress (account : Name) : Address :=
  BitVec.ofNat 160 (reservedPrefix * 2 ^ 64 + account.val)

def isReservedAddress (address : Address) : Bool := address.toNat / 2 ^ 64 == reservedPrefix

def extractReservedAddress (address : Address) : Option Name :=
  if isReservedAddress address then some (Fin.ofNat (2 ^ 64) address.toNat) else none

/-- The fields `prepare_block_header` fills in. -/
structure BlockHeader where
  beneficiary : Name
  number : Nat
  version : Nat
  baseFeePerGas : Option Nat
  deriving DecidableEq, Repr

/-- A message to a reserved address, as the message filter recorded it. -/
structure FilteredMessage where
  sender : Address
  receiver : Address
  value : Nat
  data : Bytes
  deriving DecidableEq, Repr

/-- What a transaction is run on: block, tables, and the balance and nonce that
`execute_tx` gave the sender's reserved address. -/
structure RunInput where
  header : BlockHeader
  chainId : Nat
  gasParams : GasParameter
  overheadPrice : Nat
  storagePrice : Nat
  tx : Transaction
  sender : Address
  db : Db
  funded : Option (Nat × Nat)

/-- The receipt, the call result and the state changes of a run. A reserved object is
listed under the account its address encodes; like the changed objects, they come from a
map, so each occurs once. -/
structure RunOutput where
  success : Bool
  cumulativeGasUsed : Nat
  status : Int
  data : Bytes
  inclusionFee : Nat
  reservedObjects : List (Name × Account)
  filteredMessages : List FilteredMessage
  writes : List DbWrite
  distinctReserved : (reservedObjects.map Prod.fst).Nodup
  distinctWrites : (writes.filterMap DbWrite.object?).Nodup

/-- What `exec` runs. -/
structure CallInput where
  header : BlockHeader
  chainId : Nat
  gasParams : GasParameter
  recipient : Address
  sender : Address
  data : Bytes
  value : Nat
  gas : Nat
  db : Db

structure CallResult where
  status : Int
  data : Bytes
  deriving DecidableEq, Repr

/-- The library. A run may abort the action through the state it reads. -/
structure Silkworm where
  lookupKnownChain : Nat → Bool
  decodeTransaction : Bytes → Option Transaction
  encodeTransaction : Transaction → Bytes
  resultCode : ValidationResult → Nat
  preValidateTransaction : BlockHeader → Nat → GasParameter → Transaction → ValidationResult
  recoverSender : Transaction → Option Address
  validateTransaction : RunInput → Outcome ValidationResult
  executeTransaction : RunInput → Outcome RunOutput
  execute : CallInput → Outcome CallResult
  toEvmcAddress : Bytes → Address
  fromHex : Bytes → Option Bytes

/-- `struct transaction`: made from its encoding or from its fields, the other form
being computed when it is asked for. -/
inductive Txn
  | ofRlp (rlptx : Bytes)
  | ofTx (tx : Transaction)
  deriving DecidableEq, Repr

namespace Txn

def getTx (evm : Silkworm) : Txn → Outcome Transaction
  | ofRlp rlptx => require (evm.decodeTransaction rlptx) "unable to decode transaction"
  | ofTx tx => .ok tx

def getRlptx (evm : Silkworm) : Txn → Bytes
  | ofRlp rlptx => rlptx
  | ofTx tx => evm.encodeTransaction tx

end Txn

/-- The text `check_result` appends for a result. -/
def ValidationResult.text : ValidationResult → String
  | ok => ""
  | wrongChainId => " Wrong chain id"
  | unsupportedTransactionType => " Unsupported transaction type"
  | maxFeeLessThanBase => " Max fee per gas less than block base fee"
  | maxPriorityFeeGreaterThanMax => " Max priority fee per gas greater than max fee per gas"
  | invalidSignature => " Invalid signature"
  | intrinsicGas => " Intrinsic gas too low"
  | nonceTooHigh => " Nonce too high"
  | missingSender => " Missing sender"
  | senderNoEoa => " Sender is not EOA"
  | wrongNonce => " Wrong nonce"
  | insufficientFunds => " Insufficient funds"
  | blockGasLimitExceeded => " Block gas limit exceeded"
  | other => ""

/-- `check_result`. -/
def checkResult (evm : Silkworm) (result : ValidationResult) (desc : String) : Outcome Unit :=
  check (result = .ok) (desc ++ ": " ++ toString (evm.resultCode result) ++ result.text)

theorem makeReservedAddress_toNat (account : Name) :
    (makeReservedAddress account).toNat = reservedPrefix * 2 ^ 64 + account.val := by
  have bound := account.isLt
  simp only [makeReservedAddress, BitVec.toNat_ofNat, reservedPrefix]
  omega

@[simp] theorem isReservedAddress_makeReservedAddress (account : Name) :
    isReservedAddress (makeReservedAddress account) = true := by
  have bound := account.isLt
  simp only [isReservedAddress, makeReservedAddress_toNat, beq_iff_eq]
  omega

@[simp] theorem extractReservedAddress_makeReservedAddress (account : Name) :
    extractReservedAddress (makeReservedAddress account) = some account := by
  have bound := account.isLt
  simp only [extractReservedAddress, isReservedAddress_makeReservedAddress, if_true,
    makeReservedAddress_toNat, Option.some.injEq]
  apply Fin.ext
  simp only [Fin.ofNat, reservedPrefix]
  omega

theorem extractReservedAddress_eq_some (address : Address) (account : Name) :
    extractReservedAddress address = some account ↔ address = makeReservedAddress account := by
  constructor
  · intro extracted
    simp only [extractReservedAddress] at extracted
    split at extracted
    · rename_i reserved
      simp only [isReservedAddress, beq_iff_eq] at reserved
      simp only [Option.some.injEq] at extracted
      apply BitVec.eq_of_toNat_eq
      rw [makeReservedAddress_toNat, ← extracted]
      simp only [Fin.ofNat]
      omega
    · cases extracted
  · rintro rfl
    simp

end EosEvm

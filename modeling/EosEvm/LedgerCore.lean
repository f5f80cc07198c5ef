import EosEvm.HostCore

/-! The smallest library that does what the development asks of the EVM: a transaction
of a reserved address moves its value and pays for its gas. The assumptions made of the
library hold of it, and concrete runs are evaluated on it. -/

namespace EosEvm

open Abort

namespace Ledger

def encodeNat : Nat → Nat → Bytes
  | 0, _ => []
  | fuel + 1, value =>
      if value < 128 then [UInt8.ofNat value]
      else UInt8.ofNat (value % 128 + 128) :: encodeNat fuel (value / 128)

def decodeNat : Bytes → Option (Nat × Bytes)
  | [] => none
  | byte :: rest =>
      if byte.toNat < 128 then some (byte.toNat, rest)
      else (decodeNat rest).map fun tail => (byte.toNat - 128 + 128 * tail.1, tail.2)

def recipientCode (recipient : Option Address) : Nat :=
  match recipient with
  | some address => address.toNat + 1
  | none => 0

def recipientOf (code : Nat) : Option Address := if code = 0 then none else some (BitVec.ofNat 160 (code - 1))

def numbers (tx : Transaction) : List Nat :=
  [tx.nonce, tx.maxFeePerGas, tx.gasLimit, recipientCode tx.recipient, tx.value, tx.r, tx.s]

def encodeTransaction (tx : Transaction) : Bytes :=
  (numbers tx).flatMap (fun value => encodeNat (value + 1) value) ++ tx.data

def decodeNats : Nat → Bytes → Option (List Nat × Bytes)
  | 0, bytes => some ([], bytes)
  | count + 1, bytes => do
      let first ← decodeNat bytes
      let rest ← decodeNats count first.2
      return (first.1 :: rest.1, rest.2)

def decodeTransaction (bytes : Bytes) : Option Transaction :=
  match decodeNats 7 bytes with
  | some ([nonce, price, gasLimit, recipient, value, r, s], data) => some {
      nonce := nonce
      maxPriorityFeePerGas := price
      maxFeePerGas := price
      gasLimit := gasLimit
      recipient := recipientOf recipient
      value := value
      data := data
      r := r
      s := s }
  | _ => none

def recoverSender (tx : Transaction) : Option Address :=
  if tx.isSpecialSignature then
    if tx.s < 2 ^ 64 then some (makeReservedAddress (Fin.ofNat (2 ^ 64) tx.s))
    else if 2 ^ 256 - 2 ^ 160 ≤ tx.s then some (BitVec.ofNat 160 tx.s)
    else none
  else
    let address := BitVec.ofNat 160 tx.r
    if isReservedAddress address then none else some address

def accumulate (received : Table Name Nat) (account : Name) (amount : Nat) : Table Name Nat :=
  received.put account ((received.get? account).getD 0 + amount)

def reservedObject (row : Name × Nat) : Name × Account :=
  (row.1, { nonce := 0, balance := row.2, codeHash := emptyHash, incarnation := 0 })

def gasUsed (tx : Transaction) : Nat := min tx.gasLimit 21000

def receipt (tx : Transaction) (received : Table Name Nat) (messages : List FilteredMessage)
    (changed : Option DbWrite) : RunOutput where
  success := true
  cumulativeGasUsed := gasUsed tx
  status := 0
  data := []
  inclusionFee := 0
  reservedObjects := received.rows.map reservedObject
  filteredMessages := messages
  writes := changed.toList
  distinctReserved := by
    rw [List.map_map]
    exact List.pairwise_map.mpr (received.sorted.imp fun less => ne_of_lt less)
  distinctWrites := by
    cases changed with
    | none => exact List.nodup_nil
    | some write => cases write <;> simp [DbWrite.object?, List.filterMap_cons]

def credited (initial : Option Account) (amount : Nat) : Account :=
  match initial with
  | some account => { account with balance := account.balance + amount }
  | none => { nonce := 0, balance := amount, codeHash := emptyHash, incarnation := 0 }

def executeTransaction (input : RunInput) : Outcome RunOutput := do
  let funded ← require input.funded "ordinary senders are not served"
  let account ← require (extractReservedAddress input.sender) "ordinary senders are not served"
  let recipient ← require input.tx.recipient "no code is created"
  let fee := gasUsed input.tx * input.tx.maxFeePerGas
  check (input.tx.value + fee ≤ funded.1) "insufficient funds"
  let left := accumulate (accumulate Table.empty account (funded.1 - (input.tx.value + fee)))
    input.header.beneficiary fee
  match extractReservedAddress recipient with
  | some receiver =>
      let message : FilteredMessage := {
        sender := input.sender
        receiver := recipient
        value := input.tx.value
        data := input.tx.data }
      return receipt input.tx (accumulate left receiver input.tx.value) [message] none
  | none => do
      let read ← (State.fresh input.db false false).readAccount recipient
      return receipt input.tx left []
        (some (.object recipient read.1 (some (credited read.1 input.tx.value)) []))

def evm : Silkworm where
  lookupKnownChain := fun chainId => chainId == 15555
  decodeTransaction := decodeTransaction
  encodeTransaction := encodeTransaction
  resultCode := fun _ => 0
  preValidateTransaction := fun _ _ _ tx => if tx.nonce + 1 < 2 ^ 64 then .ok else .nonceTooHigh
  recoverSender := recoverSender
  validateTransaction := fun input => .ok (if input.funded.isSome then .ok else .missingSender)
  executeTransaction := executeTransaction
  execute := fun input => .ok { status := 0, data := input.data }
  toEvmcAddress := fun bytes => BitVec.ofNat 160 (bytes.foldl (fun word byte => word * 256 + byte.toNat) 0)
  fromHex := fun text => some (text.drop 2)

def self : Name := Fin.ofNat (2 ^ 64) 6138663583658016768

def alice : Name := Fin.ofNat (2 ^ 64) 3773036822876127232

def bob : Name := Fin.ofNat (2 ^ 64) 4399453885987553280

def eos : Symbol := ⟨0x534f4504⟩

def evmtxName : Name := Fin.ofNat (2 ^ 64) 6261585129521545216

def moveTokens (self token sender recipient : Name) (quantity : Asset) (holding : Name → Symbol → Nat) :
    Outcome (Name → Symbol → Nat) := do
  check (0 < quantity.amount) "must transfer positive quantity"
  check (sender ≠ recipient) "cannot transfer to self"
  check (sender ≠ self ∨ quantity.amount.toNat ≤ holding token quantity.symbol) "overdrawn balance"
  return holdingAfter self token sender recipient quantity holding

theorem moveTokens_ok (self token sender recipient : Name) (quantity : Asset) (holding moved : Name → Symbol → Nat) :
    moveTokens self token sender recipient quantity holding = .ok moved ↔
      0 < quantity.amount ∧ sender ≠ recipient ∧
        (sender = self → quantity.amount.toNat ≤ holding token quantity.symbol) ∧
        moved = holdingAfter self token sender recipient quantity holding := by
  simp only [moveTokens, bind_ok, check_ok, exists_const, pure_ok, ← imp_iff_not_or]
  exact and_congr_right fun _ => and_congr_right fun _ => and_congr_right fun _ => eq_comm

def token : TokenContract where
  move := moveTokens
  sound := (moveTokens_ok _ _ _ _ _ _ _).mp

def host : Host where
  self := self
  evm := evm
  token := token
  unpackAction := fun action _ => if action = evmtxName then some .evmtx else none

def view : ChainView where
  isAccount := fun _ => true
  hasCode := fun _ => false
  tokenBalance := fun _ _ => none

def transact (request : Request) (sends : Nat) : List Label :=
  .submit [request] :: List.replicate (sends + 1) (.next view [] [])

def act (auth : Name) (requested : Action) (sends : Nat) : List Label :=
  transact (.action none [auth] requested) sends

def pay (sender : Name) (amount : Int) (memo : String) (sends : Nat) : List Label :=
  transact (.transfer defaultTokenAccount sender self ⟨amount, eos⟩ (bytesOf memo)) sends

def opening : List Label :=
  [.tick 1000000000] ++
    act self (.init 15555 ⟨some 150000000000, some 10000, some ⟨100, eos⟩⟩ none) 0 ++ act alice (.open alice) 0

def later (seconds : Nat) : List Label := [.tick (1000000000 + seconds * 1000000)]

def callNothing (caller : Name) (gasLimit : Nat) : Action :=
  .call caller (List.replicate 20 1) (List.replicate 32 0) [] gasLimit

def versionOne : List Label :=
  opening ++ pay alice 1000000 "alice" 0 ++ act self (.setversion 1) 0 ++ later 1

end Ledger

end EosEvm

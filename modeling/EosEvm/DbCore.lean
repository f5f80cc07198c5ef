import Mathlib.Logic.Function.Basic
import EosEvm.Lib.Index
import EosEvm.Types

/-! `state.cpp`: EVM accounts, code and storage kept in tables. Accounts are numbered
and storage is scoped by that number, code rows are shared by hash and counted, and
the storage of a removed account stays behind until it is collected. -/

namespace EosEvm

open Abort Words

/-- `silkworm::kEmptyHash`, the hash of the empty code. -/
def emptyHash : Bytes32 := 0xc5d2460186f7233c927e7db2dcc703c0e500b653ca82273b7bfad8045d85a470#256

/-- `silkworm::Account`. -/
structure Account where
  nonce : Nat
  balance : Nat
  codeHash : Bytes32
  incarnation : Nat
  deriving DecidableEq, Repr

structure AccountRow where
  ethAddress : Address
  nonce : Nat
  balance : Nat := 0
  codeId : Option Nat := none
  flags : UInt32 := 0
  deriving DecidableEq, Repr

/-- `account::has_flag(flag::frozen)`. -/
def AccountRow.isFrozen (row : AccountRow) : Bool := row.flags &&& 1 != 0

structure CodeRow where
  refCount : Nat
  code : Bytes
  codeHash : Bytes32
  deriving DecidableEq, Repr

structure StorageRow where
  key : Bytes32
  value : Bytes32
  deriving DecidableEq, Repr

/-- The tables `account`, `accountcode`, `storage` (by scope), `gcstore` and `config2`. -/
structure Db where
  accounts : Table Nat AccountRow := Table.empty
  codes : Table Nat CodeRow := Table.empty
  storage : Nat → Table Nat StorageRow := fun _ => Table.empty
  gcstore : Table Nat Nat := Table.empty
  config2 : Option Nat := none

namespace Db

/-- The row of an address, through the index `by.address`. -/
def findAccount (db : Db) (address : Address) : Option (Nat × AccountRow) :=
  db.accounts.findBy AccountRow.ethAddress address

/-- The row of a code hash, through the index `by.codehash`. -/
def findCode (db : Db) (codeHash : Bytes32) : Option (Nat × CodeRow) :=
  db.codes.findBy CodeRow.codeHash codeHash

/-- The row of a storage location, through the index `by.key` of a scope. -/
def findSlot (db : Db) (scope : Nat) (location : Bytes32) : Option (Nat × StorageRow) :=
  (db.storage scope).findBy StorageRow.key location

def setScope (db : Db) (scope : Nat) (rows : Table Nat StorageRow) : Db :=
  { db with storage := Function.update db.storage scope rows }

def releaseCode (codes : Table Nat CodeRow) (codeId : Option Nat) : Outcome (Table Nat CodeRow) :=
  match codeId with
  | none => .ok codes
  | some id => do
      let row ← require (codes.get? id) "code not found"
      if row.refCount ≠ 1 then
        return codes.modify id fun row => { row with refCount := u32 (row.refCount + 2 ^ 32 - 1) }
      else return codes.erase id

/-- The lambda `remove_account` of `update_account`. -/
def removeAccount (db : Db) (id : Nat) (row : AccountRow) : Outcome Db := do
  let gcstore ← db.gcstore.emplace db.gcstore.availablePrimaryKey id
  let codes ← releaseCode db.codes row.codeId
  return { db with gcstore := gcstore, codes := codes, accounts := db.accounts.erase id }

/-- The inner loop of `gc`: rows of one scope are erased from the front. -/
def gcScope : Nat → Table Nat StorageRow → Table Nat StorageRow × Nat
  | 0, rows => (rows, 0)
  | budget + 1, rows =>
      match rows.first? with
      | none => (rows, budget + 1)
      | some row => gcScope budget (rows.erase row.1)

/-- The outer loop of `gc`. Every round but the last uses up at least one unit of the
budget, so as many rounds as the budget are enough. -/
def gcLoop : Nat → Nat → Db → Db
  | 0, _, db => db
  | rounds + 1, budget, db =>
      if budget = 0 then db
      else
        match db.gcstore.first? with
        | none => db
        | some (id, storageId) =>
            let scope := gcScope budget (db.storage storageId)
            let cleaned := db.setScope storageId scope.1
            if scope.2 = 0 then cleaned
            else gcLoop rounds (scope.2 - 1) { cleaned with gcstore := cleaned.gcstore.erase id }

/-- `state::gc`: the tables afterwards and whether no garbage is left. -/
def gc (db : Db) (max : Nat) : Db × Bool :=
  let collected := gcLoop max max db
  (collected, collected.gcstore.first?.isNone)

/-- `rmgcstore`. -/
def rmgcstore (db : Db) (id : Nat) : Outcome Db := do
  let _ ← require (db.gcstore.get? id) "gc row not found"
  return { db with gcstore := db.gcstore.erase id }

/-- `rmaccount`. Unlike `remove_account` it releases the code before it records the garbage. -/
def rmaccount (db : Db) (id : Nat) : Outcome Db := do
  let row ← require (db.accounts.get? id) "account not found"
  let codes ← releaseCode db.codes row.codeId
  let gcstore ← db.gcstore.emplace db.gcstore.availablePrimaryKey id
  return { db with codes := codes, gcstore := gcstore, accounts := db.accounts.erase id }

/-- `freezeaccnt`. -/
def freezeaccnt (db : Db) (id : Nat) (frozen : Bool) : Outcome Db := do
  let _ ← require (db.accounts.get? id) "account not found"
  return { db with accounts := db.accounts.modify id fun row =>
    { row with flags := if frozen then row.flags ||| 1 else row.flags &&& ~~~1 } }

def wordOf (bytes : Bytes) : Bytes32 :=
  BitVec.ofNat 256 (bytes.foldl (fun word byte => word * 256 + byte.toNat) 0)

/-- `setkvstore`. -/
def setkvstore (db : Db) (accountId : Nat) (key : Bytes) (value : Option Bytes) : Outcome Db := do
  check (key.length = 32 ∧ value.all (fun bytes => bytes.length == 32)) "invalid key/value size"
  let rows := db.storage accountId
  match value, db.findSlot accountId (wordOf key) with
  | some value, none => do
      let rows ← rows.emplace rows.availablePrimaryKey { key := wordOf key, value := wordOf value }
      return db.setScope accountId rows
  | some value, some (id, _) =>
      return db.setScope accountId (rows.modify id fun row => { row with value := wordOf value })
  | none, found => do
      let slot ← require found "key not found"
      return db.setScope accountId (rows.erase slot.1)

end Db

/-- `struct state`: a handle on the tables with its caches. -/
structure State where
  db : Db
  readOnly : Bool := false
  allowFrozen : Bool := true
  addr2id : List (Address × Nat) := []
  addr2code : List (Bytes32 × Bytes) := []
  config2 : Option Nat := none

namespace State

def fresh (db : Db) (readOnly : Bool := false) (allowFrozen : Bool := true) : State :=
  { db := db, readOnly := readOnly, allowFrozen := allowFrozen }

def destroy (state : State) : Db :=
  match state.config2 with
  | some next => { state.db with config2 := some next }
  | none => state.db

def cacheId (state : State) (address : Address) (id : Nat) : State :=
  { state with addr2id := (address, id) :: state.addr2id }

def cacheCode (state : State) (codeHash : Bytes32) (code : Bytes) : State :=
  { state with addr2code := (codeHash, code) :: state.addr2code }

/-- `read_account`. -/
def readAccount (state : State) (address : Address) : Outcome (Option Account × State) :=
  match state.db.findAccount address with
  | none => .ok (none, state)
  | some (id, row) => do
      check (state.allowFrozen = true ∨ row.isFrozen = false) "account is frozen"
      let cached := state.cacheId address id
      match row.codeId with
      | none => return (some ⟨row.nonce, row.balance, emptyHash, 0⟩, cached)
      | some codeId =>
          match state.db.codes.get? codeId with
          | some code =>
              return (some ⟨row.nonce, row.balance, code.codeHash, 0⟩, cached.cacheCode code.codeHash code.code)
          -- the source marks this case as unreachable and returns the empty hash
          | none => return (some ⟨row.nonce, row.balance, emptyHash, 0⟩, cached)

/-- `read_code`. -/
def readCode (state : State) (codeHash : Bytes32) : Bytes × State :=
  match state.addr2code.lookup codeHash with
  | some code => (code, state)
  | none =>
      match state.db.findCode codeHash with
      | none => ([], state)
      | some (_, row) => if row.code.length = 0 then ([], state) else (row.code, state.cacheCode codeHash row.code)

/-- `read_storage`. -/
def readStorage (state : State) (address : Address) (location : Bytes32) : Bytes32 × State :=
  match state.addr2id.lookup address with
  | some id =>
      match state.db.findSlot id location with
      | some (_, row) => (row.value, state)
      | none => (0, state)
  | none =>
      match state.db.findAccount address with
      | none => (0, state)
      | some (id, _) =>
          match state.db.findSlot id location with
          | some (_, row) => (row.value, state.cacheId address id)
          | none => (0, state.cacheId address id)

/-- `get_next_account_id`. -/
def getNextAccountId (state : State) : Nat × State :=
  let id := match state.config2 with
    | some next => next
    | none =>
        match state.db.config2 with
        | some next => next
        | none => state.db.accounts.availablePrimaryKey
  (id, { state with config2 := some (u64 (id + 1)) })

def emplaceAccount (state : State) (row : AccountRow) : Outcome State := do
  let next := state.getNextAccountId
  let accounts ← state.db.accounts.emplace next.1 row
  return { next.2 with db := { state.db with accounts := accounts } }

/-- `update_account`. -/
def updateAccount (state : State) (address : Address) (initial current : Option Account) :
    Outcome State := do
  check (state.readOnly = false) "ro state"
  if current = initial then return state
  else
    match current, state.db.findAccount address with
    | some account, none =>
        state.emplaceAccount { ethAddress := address, nonce := account.nonce, balance := account.balance }
    | some account, some (id, row) =>
        if initial.any fun first => first.incarnation != account.incarnation then do
          let db ← state.db.removeAccount id row
          { state with db := db }.emplaceAccount
            { ethAddress := address, nonce := account.nonce, balance := account.balance }
        else
          return { state with db := { state.db with accounts := state.db.accounts.modify id fun row =>
            { row with nonce := account.nonce, balance := account.balance } } }
    | none, some (id, row) => do
        let db ← state.db.removeAccount id row
        return { state with db := db }
    | none, none => return state

def attachCode (codes : Table Nat CodeRow) (found : Option (Nat × CodeRow)) (codeHash : Bytes32)
    (code : Bytes) : Outcome (Nat × Table Nat CodeRow) :=
  match found with
  | none => do
      let id := codes.availablePrimaryKey
      let codes ← codes.emplace id { refCount := 1, code := code, codeHash := codeHash }
      return (id, codes)
  | some (id, _) =>
      return (id, codes.modify id fun row => { row with refCount := u32 (row.refCount + 1) })

/-- `update_account_code`. -/
def updateAccountCode (state : State) (address : Address) (codeHash : Bytes32) (code : Bytes) :
    Outcome State := do
  check (state.readOnly = false) "ro state"
  let attached ← attachCode state.db.codes (state.db.findCode codeHash) codeHash code
  let withCode := { state with db := { state.db with codes := attached.2 } }
  match state.db.findAccount address with
  | some (id, _) =>
      return { withCode with db := { withCode.db with accounts := withCode.db.accounts.modify id fun row =>
        { row with codeId := some attached.1 } } }
  | none => withCode.emplaceAccount { ethAddress := address, nonce := 0, codeId := some attached.1 }

def storeSlot (db : Db) (scope : Nat) (location current : Bytes32) : Outcome Db :=
  match db.findSlot scope location with
  | none => do
      let rows := db.storage scope
      let rows ← rows.emplace rows.availablePrimaryKey { key := location, value := current }
      return db.setScope scope rows
  | some (id, _) =>
      return db.setScope scope ((db.storage scope).modify id fun row => { row with value := current })

/-- `update_storage`. -/
def updateStorage (state : State) (address : Address) (location current : Bytes32) : Outcome State := do
  check (state.readOnly = false) "ro state"
  if current = 0 then
    match state.db.findAccount address with
    | none => return state
    | some (id, _) =>
        match state.db.findSlot id location with
        | none => return state
        | some (slot, _) =>
            return { state with db := state.db.setScope id ((state.db.storage id).erase slot) }
  else
    match state.db.findAccount address with
    | none => do
        let id := state.getNextAccountId.1
        let created ← state.emplaceAccount { ethAddress := address, nonce := 0 }
        let db ← storeSlot created.db id location current
        return { created with db := db }
    | some (id, _) => do
        let db ← storeSlot state.db id location current
        return { state with db := db }

end State

/-- What silkworm's `write_to_db` asks of the state: per changed object `update_account`,
followed by `update_account_code` when the object has new code, and per changed slot
`update_storage`. -/
inductive DbWrite
  | object (address : Address) (initial current : Option Account) (code : Bytes)
  | storage (address : Address) (location current : Bytes32)
  deriving DecidableEq, Repr

namespace DbWrite

def object? : DbWrite → Option Address
  | object address _ _ _ => some address
  | storage _ _ _ => none

def hasNewCode (initial : Option Account) (current : Account) : Bool :=
  current.codeHash != emptyHash && initial.all fun first => first.incarnation != current.incarnation

def apply (state : State) : DbWrite → Outcome State
  | object address initial current code => do
      let updated ← state.updateAccount address initial current
      match current with
      | some account =>
          if hasNewCode initial account then updated.updateAccountCode address account.codeHash code
          else return updated
      | none => return updated
  | storage address location current => state.updateStorage address location current

/-- `write_to_db` through a handle constructed by `process_tx`, up to its destructor. -/
def applyAll (db : Db) (writes : List DbWrite) : Outcome Db := do
  let written ← foldOutcome apply writes (State.fresh db false false)
  return written.destroy

end DbWrite

end EosEvm

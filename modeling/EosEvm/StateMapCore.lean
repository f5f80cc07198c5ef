import EosEvm.DbCore

/-! What the tables of `state.cpp` stand for: a map from addresses to accounts, and what
each operation does to it. Addresses and storage locations range over finite types, so
every function on them is a finite map. -/

namespace EosEvm

open Abort

/-- What an address holds. -/
structure Entry where
  nonce : Nat := 0
  balance : Nat := 0
  codeHash : Option Bytes32 := none
  storage : Bytes32 → Bytes32 := fun _ => 0

abbrev AccountMap := Address → Option Entry

namespace AccountMap

def empty : AccountMap := fun _ => none

def delete (map : AccountMap) (address : Address) : AccountMap := Function.update map address none

def updateAccount (map : AccountMap) (address : Address) (initial current : Option Account) : AccountMap :=
  if current = initial then map
  else
    match current with
    | none => map.delete address
    | some account =>
        let kept : Entry :=
          if initial.any fun first => first.incarnation != account.incarnation then {} else (map address).getD {}
        Function.update map address (some { kept with nonce := account.nonce, balance := account.balance })

def updateAccountCode (map : AccountMap) (address : Address) (codeHash : Bytes32) : AccountMap :=
  Function.update map address (some { (map address).getD {} with codeHash := some codeHash })

def updateStorage (map : AccountMap) (address : Address) (location current : Bytes32) : AccountMap :=
  if current = 0 ∧ (map address).isNone then map
  else
    let entry := (map address).getD {}
    Function.update map address (some { entry with storage := Function.update entry.storage location current })

/-- What `read_account` reports. -/
def account (map : AccountMap) (address : Address) : Option Account :=
  (map address).map fun entry => ⟨entry.nonce, entry.balance, entry.codeHash.getD emptyHash, 0⟩

/-- What `read_storage` reports. -/
def slot (map : AccountMap) (address : Address) (location : Bytes32) : Bytes32 :=
  ((map address).map fun entry => entry.storage location).getD 0

end AccountMap

/-- The operations on the state. A state object is destroyed and another one is constructed
by `reopen`. -/
inductive DbOp
  | reopen
  | updateAccount (address : Address) (initial current : Option Account)
  | updateAccountCode (address : Address) (codeHash : Bytes32) (code : Bytes)
  | updateStorage (address : Address) (location current : Bytes32)
  | gc (max : Nat)
  | rmaccount (id : Nat)
  | rmgcstore (id : Nat)
  deriving DecidableEq, Repr

namespace DbOp

def run (state : State) : DbOp → Outcome State
  | reopen => .ok (State.fresh state.destroy)
  | updateAccount address initial current => state.updateAccount address initial current
  | updateAccountCode address codeHash code => state.updateAccountCode address codeHash code
  | updateStorage address location current => state.updateStorage address location current
  | gc max => .ok { state with db := (state.db.gc max).1 }
  | rmaccount id => do
      let db ← state.db.rmaccount id
      return { state with db := db }
  | rmgcstore id => do
      let db ← state.db.rmgcstore id
      return { state with db := db }

/-- The operation on the map. An account that is named by its id is the one whose row has
that id. -/
def onMap (db : Db) (map : AccountMap) : DbOp → AccountMap
  | updateAccount address initial current => map.updateAccount address initial current
  | updateAccountCode address codeHash _ => map.updateAccountCode address codeHash
  | updateStorage address location current => map.updateStorage address location current
  | rmaccount id =>
      match db.accounts.get? id with
      | some row => map.delete row.ethAddress
      | none => map
  | reopen | gc _ | rmgcstore _ => map

def follow (both : State × AccountMap) (op : DbOp) : Outcome (State × AccountMap) := do
  let state ← op.run both.1
  return (state, op.onMap both.1.db both.2)

def attaches : DbOp → Nat
  | updateAccountCode _ _ _ => 1
  | _ => 0

def Hashes (codeOf : Bytes32 → Bytes) : DbOp → Prop
  | updateAccountCode _ codeHash code => code = codeOf codeHash
  | _ => True

end DbOp

/-- A read through a state object. -/
inductive DbRead
  | account (address : Address)
  | code (codeHash : Bytes32)
  | storage (address : Address) (location : Bytes32)
  deriving DecidableEq, Repr

def DbRead.run (state : State) : DbRead → Outcome State
  | account address => do
      let read ← state.readAccount address
      return read.2
  | code codeHash => .ok (state.readCode codeHash).2
  | storage address location => .ok (state.readStorage address location).2

end EosEvm

import EosEvm.Once

/-! Frozen EVM accounts. The EVM cannot read an account that `freezeaccnt` has frozen, and it reads
whatever it changes. So a frozen account keeps its row and its storage through every transaction,
every garbage collection and every edit of another account, and sends nothing. -/

namespace EosEvm

open Abort

namespace Db

variable {db after : Db} {id : Nat} {row : AccountRow} {slots : Table Nat StorageRow}

/-- An account has its row and its slots, and the slots are not marked as garbage. -/
structure Keeps (db : Db) (id : Nat) (row : AccountRow) (slots : Table Nat StorageRow) : Prop where
  account : db.accounts.get? id = some row
  storage : db.storage id = slots
  live : ∀ garbage, db.gcstore.get? garbage ≠ some id

theorem Keeps.apart (keeps : db.Keeps id row slots) {address : Address} {key : Nat} {found : AccountRow}
    (lookup : db.findAccount address = some (key, found)) (other : address ≠ row.ethAddress) : key ≠ id := by
  rintro rfl
  obtain ⟨present, named⟩ := Table.findBy_found lookup
  rw [keeps.account] at present
  cases present
  exact other named.symm

theorem Keeps.modify (keeps : db.Keeps id row slots) {key : Nat} (other : key ≠ id) (change : AccountRow → AccountRow) :
    ({ db with accounts := db.accounts.modify key change } : Db).Keeps id row slots where
  account := by
    rw [Table.get?_modify, if_neg other]
    exact keeps.account
  storage := keeps.storage
  live := keeps.live

theorem Keeps.setScope (keeps : db.Keeps id row slots) {scope : Nat} (other : scope ≠ id)
    (rows : Table Nat StorageRow) : (db.setScope scope rows).Keeps id row slots where
  account := keeps.account
  storage := by
    change Function.update db.storage scope rows id = slots
    rw [Function.update_of_ne other.symm]
    exact keeps.storage
  live := keeps.live

theorem Keeps.unmark (keeps : db.Keeps id row slots) (entry : Nat) :
    ({ db with gcstore := db.gcstore.erase entry } : Db).Keeps id row slots where
  account := keeps.account
  storage := keeps.storage
  live := by
    intro garbage
    rw [Table.get?_erase]
    split
    · exact fun absent => by cases absent
    · exact keeps.live garbage

theorem Keeps.remove (keeps : db.Keeps id row slots) {key : Nat} (other : key ≠ id) {gcstore : Table Nat Nat}
    (codes : Table Nat CodeRow) (marked : db.gcstore.emplace db.gcstore.availablePrimaryKey key = .ok gcstore) :
    ({ db with gcstore := gcstore, codes := codes, accounts := db.accounts.erase key } : Db).Keeps id row slots where
  account := by
    rw [Table.get?_erase, if_neg other]
    exact keeps.account
  storage := keeps.storage
  live := by
    obtain ⟨_, rfl⟩ := (Table.emplace_ok _ _ _ _).mp marked
    intro garbage
    rw [Table.get?_put]
    split
    · exact fun same => other (Option.some.inj same)
    · exact keeps.live garbage

theorem Keeps.storeSlot (keeps : db.Keeps id row slots) {scope : Nat} (other : scope ≠ id) {location current : Bytes32}
    (stored : State.storeSlot db scope location current = .ok after) : after.Keeps id row slots := by
  simp only [State.storeSlot] at stored
  split at stored
  · simp only [bind_ok, pure_ok] at stored
    obtain ⟨rows, _, rfl⟩ := stored
    exact keeps.setScope other rows
  · rw [pure_ok] at stored
    subst stored
    exact keeps.setScope other _

theorem Keeps.gcLoop (keeps : db.Keeps id row slots) (rounds budget : Nat) :
    (gcLoop rounds budget db).Keeps id row slots := by
  induction rounds generalizing budget db with
  | zero => exact keeps
  | succ rounds ih =>
      simp only [Db.gcLoop]
      split
      · exact keeps
      · split
        · exact keeps
        · rename_i garbage scope first
          have other : scope ≠ id := fun same =>
            keeps.live garbage (same ▸ Table.first?_get? _ first)
          have cleaned := keeps.setScope other (gcScope budget (db.storage scope)).1
          split
          · exact cleaned
          · exact ih (cleaned.unmark garbage) _

end Db

namespace State

variable {state updated : State} {id : Nat} {row : AccountRow} {slots : Table Nat StorageRow} {address : Address}

theorem emplaceAccount_keeps {created : AccountRow} (keeps : state.db.Keeps id row slots)
    (emplaced : state.emplaceAccount created = .ok updated) :
    updated.db.Keeps id row slots ∧ state.getNextAccountId.1 ≠ id := by
  obtain ⟨absent, rfl⟩ := emplaceAccount_ok emplaced
  have other : state.getNextAccountId.1 ≠ id := by
    rintro same
    rw [same, keeps.account] at absent
    cases absent
  refine ⟨⟨?_, keeps.storage, keeps.live⟩, other⟩
  exact (Table.get?_put _ _ _ _).trans ((if_neg other).trans keeps.account)

theorem updateAccount_keeps {initial current : Option Account} (keeps : state.db.Keeps id row slots)
    (other : address ≠ row.ethAddress) (update : state.updateAccount address initial current = .ok updated) :
    updated.db.Keeps id row slots := by
  simp only [updateAccount, bind_ok, check_ok, exists_const] at update
  obtain ⟨_, update⟩ := update
  split at update
  · rw [pure_ok] at update
    exact update ▸ keeps
  · split at update
    · exact (emplaceAccount_keeps keeps update).1
    · rename_i account key found lookup differs
      have apart := keeps.apart lookup other
      split at update
      -- A new incarnation leaves the storage of the old one as garbage.
      · simp only [bind_ok] at update
        obtain ⟨db, removed, emplaced⟩ := update
        obtain ⟨gcstore, codes, marked, _, rfl⟩ := Db.removeAccount_ok removed
        have kept := keeps.remove apart codes marked
        exact (emplaceAccount_keeps kept emplaced).1
      · rw [pure_ok] at update
        subst update
        exact keeps.modify apart _
    · rename_i key found lookup differs
      simp only [bind_ok, pure_ok] at update
      obtain ⟨db, removed, rfl⟩ := update
      obtain ⟨gcstore, codes, marked, _, rfl⟩ := Db.removeAccount_ok removed
      exact keeps.remove (keeps.apart lookup other) codes marked
    · rw [pure_ok] at update
      exact update ▸ keeps

theorem updateAccountCode_keeps {codeHash : Bytes32} {code : Bytes} (keeps : state.db.Keeps id row slots)
    (other : address ≠ row.ethAddress) (update : state.updateAccountCode address codeHash code = .ok updated) :
    updated.db.Keeps id row slots := by
  simp only [updateAccountCode, bind_ok, check_ok, exists_const] at update
  obtain ⟨_, attached, _, update⟩ := update
  have coded : ({ state.db with codes := attached.2 } : Db).Keeps id row slots :=
    ⟨keeps.account, keeps.storage, keeps.live⟩
  split at update
  · rename_i key found lookup
    rw [pure_ok] at update
    subst update
    exact coded.modify (keeps.apart lookup other) _
  · exact (emplaceAccount_keeps (by exact coded) update).1

theorem updateStorage_keeps {location current : Bytes32} (keeps : state.db.Keeps id row slots)
    (other : address ≠ row.ethAddress) (update : state.updateStorage address location current = .ok updated) :
    updated.db.Keeps id row slots := by
  simp only [updateStorage, bind_ok, check_ok, exists_const] at update
  obtain ⟨_, update⟩ := update
  split at update
  · split at update
    · rw [pure_ok] at update
      exact update ▸ keeps
    · rename_i key found lookup
      split at update
      · rw [pure_ok] at update
        exact update ▸ keeps
      · rw [pure_ok] at update
        subst update
        exact keeps.setScope (keeps.apart lookup other) _
  · split at update
    · simp only [bind_ok, pure_ok] at update
      obtain ⟨created, emplaced, db, stored, rfl⟩ := update
      obtain ⟨kept, apart⟩ := emplaceAccount_keeps keeps emplaced
      exact kept.storeSlot apart stored
    · rename_i key found lookup
      simp only [bind_ok, pure_ok] at update
      obtain ⟨db, stored, rfl⟩ := update
      exact keeps.storeSlot (keeps.apart lookup other) stored

end State

namespace DbWrite

variable {state updated : State} {id : Nat} {row : AccountRow} {slots : Table Nat StorageRow} {write : DbWrite}

theorem apply_keeps (keeps : state.db.Keeps id row slots) (other : write.target ≠ row.ethAddress)
    (applied : apply state write = .ok updated) : updated.db.Keeps id row slots := by
  cases write with
  | storage address location current => exact State.updateStorage_keeps keeps other applied
  | object address initial current code =>
      simp only [apply, bind_ok] at applied
      obtain ⟨middle, update, applied⟩ := applied
      have kept := State.updateAccount_keeps keeps other update
      split at applied
      · split at applied
        · exact State.updateAccountCode_keeps kept other applied
        · rw [pure_ok] at applied
          exact applied ▸ kept
      · rw [pure_ok] at applied
        exact applied ▸ kept

theorem applyAll_keeps {db after : Db} {writes : List DbWrite} (keeps : db.Keeps id row slots)
    (others : ∀ write ∈ writes, write.target ≠ row.ethAddress) (applied : applyAll db writes = .ok after) :
    after.Keeps id row slots := by
  simp only [applyAll, bind_ok, pure_ok] at applied
  obtain ⟨written, folded, rfl⟩ := applied
  have kept : written.db.Keeps id row slots :=
    foldOutcome_invariant apply (fun state => state.db.Keeps id row slots) writes (State.fresh db false false) written
      (fun _ write _ member keeps applied => apply_keeps keeps (others write member) applied) keeps folded
  unfold State.destroy
  split
  · exact ⟨kept.account, kept.storage, kept.live⟩
  · exact kept

end DbWrite

def Db.Readable (db : Db) (address : Address) : Prop :=
  ∃ account handle, (State.fresh db false false).readAccount address = .ok (account, handle)

/-- What the library reads in a run: the account of the sender and every account it changes. -/
structure Silkworm.Reads (evm : Silkworm) : Prop where
  sender : ∀ input output, evm.executeTransaction input = .ok output → input.db.Readable input.sender
  written : ∀ input output, evm.executeTransaction input = .ok output →
    ∀ write ∈ output.writes, input.db.Readable write.target

theorem Db.Keeps.unreadable {db : Db} {id : Nat} {row : AccountRow} {slots : Table Nat StorageRow}
    (keeps : db.Keeps id row slots) (unique : db.UniqueAddress) (frozen : row.isFrozen = true) :
    ¬ db.Readable row.ethAddress := by
  rintro ⟨account, handle, read⟩
  have found : db.findAccount row.ethAddress = some (id, row) :=
    (Table.findBy_eq_some unique row.ethAddress id row).mpr ⟨keeps.account, rfl⟩
  simp only [State.readAccount, State.fresh, found, bind_ok, check_ok, frozen] at read
  simp at read

namespace Contract

variable {env : Env} {before after : Contract} {id : Nat} {row : AccountRow} {slots : Table Nat StorageRow}

theorem processTx_keeps {rc : RuntimeConfig} {miner : Name} {txn : Txn} {minPrice : Option Nat}
    (reads : env.evm.Reads) (unique : before.db.UniqueAddress) (keeps : before.db.Keeps id row slots)
    (frozen : row.isFrozen = true) (fresh : before.effects = [])
    (processed : processTx env rc miner txn minPrice before = .ok after) :
    after.db.Keeps id row slots ∧ ∀ execution ∈ executions after.effects, execution.sender ≠ row.ethAddress := by
  obtain ⟨tx, funds, transfers, input, output, delivered, notices, db, _, _, _, _, _, executed, _, written, rfl⟩ :=
    processTx_ok processed
  obtain ⟨charged, fromSelf, begun, _, ran, _⟩ := executeTx_ok executed
  obtain ⟨sender, funded, _, _, same⟩ := beginTx_ok begun
  have tables : input.db = before.db := by rw [same]
  -- The sender and whatever is written have been read, so neither is the frozen account.
  have unreadable : ¬ input.db.Readable row.ethAddress := tables ▸ keeps.unreadable unique frozen
  refine ⟨DbWrite.applyAll_keeps keeps (fun write member here => ?_) written, fun execution member here => ?_⟩
  · exact unreadable (here ▸ reads.written input output ran write member)
  · rw [executions_append, executions_append, fresh, executions_sent] at member
    cases List.mem_singleton.mp member
    exact unreadable (here ▸ reads.sender input output ran)

end Contract

/-- The request is no edit of an EVM account. -/
def sparesAccount (id : Nat) (_ : World) : Request → Bool
  | .action _ _ (.setkvstore key _ _) => decide (key ≠ id)
  | .action _ _ (.rmaccount key) => decide (key ≠ id)
  | .action _ _ (.addevmbal key _ _) => decide (key ≠ id)
  | .action _ _ (.freezeaccnt key _) => decide (key ≠ id)
  | _ => true

theorem Contract.edits_keeps {env : Env} {before after : Contract} {id : Nat} {row : AccountRow}
    {slots : Table Nat StorageRow} {world : World} {caller : Option Name} {auths : List Name} {requested : Action}
    (keeps : before.db.Keeps id row slots) (edits : requested.editsEvm = true)
    (spares : sparesAccount id world (.action caller auths requested) = true)
    (ran : requested.run env before = .ok after) : after.db.Keeps id row slots := by
  cases requested <;> try cases edits
  all_goals simp only [Action.run] at ran
  case gc max =>
    simp only [Contract.gc, bind_ok, assertUnfrozen_ok, requireAuth_ok, exists_const, pure_ok] at ran
    obtain ⟨_, _, rfl⟩ := ran
    exact keeps.gcLoop max max
  case addevmbal key delta subtract =>
    obtain ⟨_, _, _, _, _, _, _, rfl⟩ := addevmbal_ok ran
    exact keeps.modify (of_decide_eq_true spares) _
  case rmgcstore entry =>
    obtain ⟨_, db, edited, rfl⟩ := editDb_ok ran
    simp only [Db.rmgcstore, bind_ok, require_ok, pure_ok] at edited
    obtain ⟨_, _, rfl⟩ := edited
    exact keeps.unmark entry
  case setkvstore key slot value =>
    obtain ⟨_, db, edited, rfl⟩ := editDb_ok ran
    have other : key ≠ id := of_decide_eq_true spares
    simp only [Db.setkvstore, bind_ok, check_ok, exists_const] at edited
    obtain ⟨_, edited⟩ := edited
    split at edited
    · simp only [bind_ok, pure_ok] at edited
      obtain ⟨rows, _, rfl⟩ := edited
      exact keeps.setScope other rows
    · rw [pure_ok] at edited
      exact edited ▸ keeps.setScope other _
    · simp only [bind_ok, pure_ok] at edited
      obtain ⟨_, _, rfl⟩ := edited
      exact keeps.setScope other _
  case rmaccount key =>
    obtain ⟨_, db, edited, rfl⟩ := editDb_ok ran
    simp only [Db.rmaccount, bind_ok, require_ok, pure_ok] at edited
    obtain ⟨_, _, codes, _, gcstore, marked, rfl⟩ := edited
    exact keeps.remove (of_decide_eq_true spares) codes marked
  case freezeaccnt key value =>
    obtain ⟨_, db, edited, rfl⟩ := editDb_ok ran
    simp only [Db.freezeaccnt, bind_ok, require_ok, pure_ok] at edited
    obtain ⟨_, _, rfl⟩ := edited
    exact keeps.modify (of_decide_eq_true spares) _

/-- The account has been left alone since an opening. -/
structure World.Spares (opening : World) (id : Nat) (row : AccountRow) (world : World) : Prop where
  unique : world.tables.db.UniqueAddress
  keeps : world.tables.db.Keeps id row (opening.tables.db.storage id)
  silent : ∃ events, world.history = opening.history ++ events ∧
    ∀ execution ∈ executions events, execution.sender ≠ row.ethAddress

theorem World.Spares.handled {host : Host} {opening world : World} {id : Nat} {row : AccountRow} {view : ChainView}
    {before after : List Request} {request : Request} {rest : List Pending} {holding : Name → Symbol → Nat}
    {contract : Contract} (reads : host.evm.Reads)
    (frozen : row.isFrozen = true) (spares : opening.Spares id row world)
    (safe : sparesAccount id world request = true)
    (handled : Handled host view before after request rest holding contract world) :
    opening.Spares id row (world.handled before after request rest holding contract) := by
  have did := Request.run_does handled.ran
  have left : contract.db.Keeps id row (opening.tables.db.storage id) ∧
      ∀ execution ∈ executions contract.effects, execution.sender ≠ row.ethAddress := by
    rcases did.prepares_or rfl with quiet | ⟨rc, miner, txn, minPrice, start, prepares, processed⟩
    · refine ⟨?_, by simp [executions_quiet quiet]⟩
      rcases did.db_or with same | edits | ⟨execution, ran⟩
      · rw [same]
        exact spares.keeps
      · cases request with
        | transfer => cases edits
        | action caller auths requested => exact Contract.edits_keeps (by exact spares.keeps) edits safe handled.ran
      · cases quiet _ ran
    · exact Contract.processTx_keeps reads (prepares.db ▸ spares.unique) (prepares.db ▸ spares.keeps) frozen
        prepares.effects processed
  obtain ⟨events, past, silent⟩ := spares.silent
  refine ⟨did.unique spares.unique, left.1, events ++ contract.effects, ?_, ?_⟩
  · rw [← List.append_assoc, ← past]
    rfl
  · intro execution member
    rw [executions_append] at member
    exact (List.mem_append.mp member).elim (silent execution) (left.2 execution)

/-- From the moment an EVM account is frozen, its storage not being garbage, as long as no
administrative action edits it: no run changes its row or a slot of its storage, and none of the
transactions that run is its own. -/
theorem run_account_frozen (host : Host) (reads : host.evm.Reads) (holding : Name → Symbol → Nat) (before : List Label)
    (opening : World) (reached : run host before (World.start holding) = .ok opening) (id : Nat) (row : AccountRow)
    (found : opening.tables.db.accounts.get? id = some row) (frozen : row.isFrozen = true)
    (live : ∀ garbage, opening.tables.db.gcstore.get? garbage ≠ some id) (labels : List Label) (world : World)
    (spares : guarded host (sparesAccount id) labels opening = true) (finished : run host labels opening = .ok world) :
    world.tables.db.accounts.get? id = some row ∧ world.tables.db.storage id = opening.tables.db.storage id ∧
      ∃ events, world.history = opening.history ++ events ∧
        ∀ execution ∈ executions events, execution.sender ≠ row.ethAddress := by
  have start : opening.Spares id row opening :=
    ⟨run_uniqueAddress reached, ⟨found, rfl, live⟩, [], (List.append_nil _).symm, fun _ member => by cases member⟩
  have kept := run_guarded (opening.Spares id row) (fun world label next spares stepped safe => ?_) start spares finished
  · exact ⟨kept.keeps.account, kept.keeps.storage, kept.silent⟩
  · cases stepped with
    | tick | submit | passed => exact ⟨spares.unique, spares.keeps, spares.silent⟩
    | handled view before after request rest holding contract handled =>
        exact spares.handled reads frozen (safe view before after request rest holding contract rfl handled) handled

namespace Ledger

def reading : Silkworm where
  __ := signing
  executeTransaction := fun input => do
    let _ ← (State.fresh input.db false false).readAccount input.sender
    signing.executeTransaction input

theorem reading_reads : reading.Reads where
  sender := by
    intro input output ran
    simp only [reading, bind_ok] at ran
    obtain ⟨⟨account, handle⟩, read, _⟩ := ran
    exact ⟨account, handle, read⟩
  written := by
    intro input output ran write member
    simp only [reading, bind_ok] at ran
    obtain ⟨_, _, ran⟩ := ran
    rcases signing_writes ran with ⟨_, writes⟩ | ⟨_, initial, handle, read, writes⟩
    · obtain ⟨_, initial, handle, _, read, _, rfl⟩ := writes write member
      exact ⟨initial, handle, read⟩
    · rw [writes] at member
      cases List.mem_singleton.mp member
      exact ⟨initial, handle, read⟩

def readingHost : Host := { host with evm := reading }

def frozenSender : List Label :=
  opening ++ act bob (.pushtx alice (encodeTransaction (signed 0)) none) 0 ++ act self (.freezeaccnt 0 true) 0

def afterFreeze : List Label :=
  pay bob 500000 "0x0123456789012345678901234567890123456789" 1 ++ act self (.freezeaccnt 1 true) 0 ++
    act self (.gc 10) 0

end Ledger

theorem run_account_frozen_sender : ∃ opening world row,
    run Ledger.readingHost Ledger.frozenSender (World.start fun _ _ => 0) = .ok opening ∧
    run Ledger.readingHost Ledger.afterFreeze opening = .ok world ∧ row.ethAddress = 5 ∧
    opening.tables.db.accounts.get? 0 = some row ∧ world.tables.db.accounts.get? 0 = some row ∧
    (executions opening.history).length = 1 ∧ (executions world.history).length = 2 := by
  obtain ⟨opening, reached, seen⟩ := exists_of_view
    (run Ledger.readingHost Ledger.frozenSender (World.start fun _ _ => 0))
    (fun world => decide ((world.tables.db.accounts.get? 0).map (fun row => (row.isFrozen, row.ethAddress)) =
        some (true, 5) ∧ world.tables.db.gcstore.rows = [] ∧
      guarded Ledger.readingHost (sparesAccount 0) Ledger.afterFreeze world = true ∧
      (executions world.history).length = 1 ∧
      (run Ledger.readingHost Ledger.afterFreeze world).toOption.map
        (fun world => (executions world.history).length) = some 2)) true (by decide +kernel)
  obtain ⟨account, empty, spares, one, later⟩ := of_decide_eq_true seen
  obtain ⟨row, found, flags⟩ := Option.map_eq_some_iff.mp account
  obtain ⟨frozen, named⟩ := Prod.mk.inj flags
  obtain ⟨world, finished, two⟩ := exists_of_view _ _ _ later
  have live : ∀ garbage, opening.tables.db.gcstore.get? garbage ≠ some 0 := by
    intro garbage
    simp [Table.get?, empty, Table.lookup]
  have kept := run_account_frozen Ledger.readingHost Ledger.reading_reads _ _ opening reached 0 row found frozen live
    Ledger.afterFreeze world spares finished
  exact ⟨opening, world, row, reached, finished, named, found, kept.1, one, two⟩

end EosEvm

import EosEvm.StateMapCore
import EosEvm.DbSound

/-! The tables refine the map: every operation through a state object does to the entries
of the tables what it does to the map, and reads return what the map holds. -/

namespace EosEvm

open Abort Refs

namespace Db

def entryOf (db : Db) (account : Nat) (row : AccountRow) : Entry where
  nonce := row.nonce
  balance := row.balance
  codeHash := (row.codeId.bind db.codes.get?).map CodeRow.codeHash
  storage location := ((db.findSlot account location).map fun slot => slot.2.value).getD 0

/-- The map that the tables stand for. -/
def entries (db : Db) : AccountMap := fun address => (db.findAccount address).map fun found => db.entryOf found.1 found.2

variable {db : Db} {rules : Db.Rules} {next limit : Nat} {slack : Nat → Nat}

theorem Sound.entries_create (sound : db.Sound rules next limit slack) (row : AccountRow) (plain : row.codeId = none)
    (absent : db.findAccount row.ethAddress = none) :
    ({ db with accounts := db.accounts.put next row } : Db).entries =
      Function.update db.entries row.ethAddress (some { nonce := row.nonce, balance := row.balance }) := by
  funext address
  simp only [entries, findAccount, Table.findBy_put sound.addresses sound.unused absent]
  by_cases same : row.ethAddress = address
  · subst same
    simp only [if_true, Function.update_self, Option.map_some, entryOf, plain, Option.bind_none, Option.map_none,
      findSlot, sound.vacant next le_rfl]
    rfl
  · rw [if_neg same, Function.update_of_ne (Ne.symm same)]
    rfl

theorem entries_of_rewrites {after : Db} {address : Address} {row : Option AccountRow}
    (rewritten : db.RewritesAt after address row)
    (kept : ∀ other account stored, other ≠ address → db.findAccount other = some (account, stored) →
      after.entryOf account stored = db.entryOf account stored) :
    after.entries = Function.update db.entries address (after.entries address) := by
  funext other
  by_cases same : other = address
  · subst same
    rw [Function.update_self]
  · rw [Function.update_of_ne same]
    have found : after.findAccount other = db.findAccount other := rewritten.elsewhere other same
    simp only [entries, found]
    cases before : db.findAccount other with
    | none => rfl
    | some pair => exact congrArg some (kept other pair.1 pair.2 same before)

theorem Sound.entries_remove (sound : db.Sound rules next limit slack) (small : limit < 2 ^ 32) {account : Nat} (key : Nat)
    {row : AccountRow} {codes : Table Nat CodeRow} (found : db.accounts.get? account = some row)
    (unused : db.gcstore.get? key = none) (released : releaseCode db.codes row.codeId = .ok codes) :
    ({ db with
      gcstore := db.gcstore.put key account
      codes := codes
      accounts := db.accounts.erase account } : Db).entries = db.entries.delete row.ethAddress := by
  have here := sound.findAccount_iff.mpr ⟨found, rfl⟩
  have rewritten := Table.rewrites_erase sound.addresses here
  have after := sound.remove small key found unused released
  refine (entries_of_rewrites rewritten ?_).trans ?_
  · intro other dead stored apart before
    obtain ⟨present, there⟩ := Table.findBy_found before
    -- a live account keeps its code row, and the row keeps its text
    have still : (db.accounts.erase account).get? dead = some stored := by
      rw [Table.get?_erase, if_neg, present]
      rintro rfl
      rw [found] at present
      cases present
      exact apart there.symm
    have hash : (stored.codeId.bind codes.get?).map CodeRow.codeHash =
        (stored.codeId.bind db.codes.get?).map CodeRow.codeHash := by
      cases refers : stored.codeId with
      | none => rfl
      | some code =>
          obtain ⟨codeRow, inCodes⟩ := after.code still refers
          obtain ⟨old, inOld, text⟩ := (releaseCode_releases sound.counter small released).kept code codeRow inCodes
          simp only [Option.bind_some, inOld, Option.map_some]
          rw [show codes.get? code = some codeRow from inCodes, Option.map_some, (Prod.mk.inj text).1]
    simp only [entryOf, hash]
    rfl
  · have gone : (db.accounts.erase account).findBy AccountRow.ethAddress row.ethAddress = none :=
      Option.map_eq_none_iff.mp rewritten.here
    simp only [AccountMap.delete, entries, findAccount, gone, Option.map_none]

theorem Sound.entries_modify (sound : db.Sound rules next limit slack) {account : Nat} {row : AccountRow}
    (found : db.accounts.get? account = some row) (change : AccountRow → AccountRow)
    (address : ∀ row, (change row).ethAddress = row.ethAddress) {codes : Table Nat CodeRow}
    (kept : ∀ code row, db.codes.get? code = some row →
      ∃ new, codes.get? code = some new ∧ new.codeHash = row.codeHash) :
    ({ db with codes := codes, accounts := db.accounts.modify account change } : Db).entries =
      Function.update db.entries row.ethAddress (some { db.entryOf account (change row) with
        codeHash := ((change row).codeId.bind codes.get?).map CodeRow.codeHash }) := by
  have here := sound.findAccount_iff.mpr ⟨found, rfl⟩
  have rewritten : db.RewritesAt { db with codes := codes, accounts := db.accounts.modify account change }
      row.ethAddress (some (change row)) := Table.rewrites_modify sound.addresses change address here
  refine (entries_of_rewrites rewritten ?_).trans ?_
  · intro other live stored _ before
    obtain ⟨present, _⟩ := Table.findBy_found before
    have hash : (stored.codeId.bind codes.get?).map CodeRow.codeHash =
        (stored.codeId.bind db.codes.get?).map CodeRow.codeHash := by
      cases refers : stored.codeId with
      | none => rfl
      | some code =>
          obtain ⟨codeRow, inCodes⟩ := sound.code present refers
          obtain ⟨new, inNew, same⟩ := kept code codeRow inCodes
          simp only [Option.bind_some, inCodes, inNew, Option.map_some, same]
    simp only [entryOf, hash]
    rfl
  · congr 1
    simp only [entries, findAccount]
    rw [Table.findBy_modify sound.addresses account address,
      show db.accounts.findBy AccountRow.ethAddress row.ethAddress = some (account, row) from here]
    simp only [Option.map_some, if_true]
    rfl

theorem Sound.entries_setScope (sound : db.Sound rules next limit slack) {account : Nat} {row : AccountRow}
    (found : db.accounts.get? account = some row) (rows : Table Nat StorageRow) :
    (db.setScope account rows).entries = Function.update db.entries row.ethAddress (some { db.entryOf account row with
      storage := fun location => ((rows.findBy StorageRow.key location).map fun slot => slot.2.value).getD 0 }) := by
  have here := sound.findAccount_iff.mpr ⟨found, rfl⟩
  funext other
  by_cases same : other = row.ethAddress
  · subst same
    have there : (db.setScope account rows).findAccount row.ethAddress = some (account, row) := here
    simp only [entries, there, Function.update_self, Option.map_some]
    simp only [entryOf, findSlot, Db.setScope, Function.update_self]
  · rw [Function.update_of_ne same]
    have unchanged : (db.setScope account rows).findAccount other = db.findAccount other := rfl
    simp only [entries, unchanged]
    cases before : db.findAccount other with
    | none => rfl
    | some pair =>
        obtain ⟨present, there⟩ := Table.findBy_found before
        have apart : pair.1 ≠ account := by
          intro equal
          rw [equal, found] at present
          cases present
          exact same there.symm
        simp only [Option.map_some, entryOf, findSlot, Db.setScope, Function.update_of_ne apart]

theorem entries_setScope_dead {scope : Nat} (dead : db.accounts.get? scope = none) (rows : Table Nat StorageRow) :
    (db.setScope scope rows).entries = db.entries := by
  funext other
  have unchanged : (db.setScope scope rows).findAccount other = db.findAccount other := rfl
  simp only [entries, unchanged]
  cases before : db.findAccount other with
  | none => rfl
  | some pair =>
      obtain ⟨present, _⟩ := Table.findBy_found before
      have apart : pair.1 ≠ scope := by
        intro equal
        rw [equal, dead] at present
        cases present
      simp only [Option.map_some, entryOf, findSlot, Db.setScope, Function.update_of_ne apart]

theorem gcScope_unique (budget : Nat) {rows : Table Nat StorageRow} (unique : rows.Unique StorageRow.key) :
    (gcScope budget rows).1.Unique StorageRow.key := by
  induction budget generalizing rows with
  | zero => exact unique
  | succ budget ih =>
      simp only [gcScope]
      split
      · exact unique
      · exact ih (Table.unique_erase unique _)

theorem gcScope_done (budget : Nat) (rows : Table Nat StorageRow) (left : (gcScope budget rows).2 ≠ 0) :
    (gcScope budget rows).1 = Table.empty := by
  induction budget generalizing rows with
  | zero => exact absurd rfl left
  | succ budget ih =>
      simp only [gcScope] at left ⊢
      cases first : rows.first? with
      | none => exact Table.ext (List.head?_eq_none_iff.mp first)
      | some row =>
          simp only [first] at left ⊢
          exact ih _ left

theorem Sound.gcLoop (sound : db.Sound rules next limit slack) (rounds budget : Nat) :
    (gcLoop rounds budget db).Sound rules next limit slack ∧ (gcLoop rounds budget db).entries = db.entries ∧
      (gcLoop rounds budget db).accounts = db.accounts ∧ (gcLoop rounds budget db).config2 = db.config2 := by
  induction rounds generalizing budget db with
  | zero => exact ⟨sound, rfl, rfl, rfl⟩
  | succ rounds ih =>
      simp only [Db.gcLoop]
      split
      · exact ⟨sound, rfl, rfl, rfl⟩
      · split
        · exact ⟨sound, rfl, rfl, rfl⟩
        · rename_i key scope first
          have listed := Table.first?_get? _ first
          obtain ⟨below, dead⟩ := sound.dead key scope listed
          have cleaned := sound.setScope below (Or.inr (Or.inl ⟨key, listed⟩))
            (gcScope_unique budget (sound.slots scope))
          have entries := entries_setScope_dead dead (gcScope budget (db.storage scope)).1
          split
          · exact ⟨cleaned, entries, rfl, rfl⟩
          · rename_i left
            have done : ∀ other, db.gcstore.get? key = some other →
                (db.setScope scope (gcScope budget (db.storage scope)).1).storage other = Table.empty ∨
                  rules.lost other := by
              intro other present
              rw [listed] at present
              cases present
              refine Or.inl ?_
              rw [Db.setScope]
              exact (Function.update_self ..).trans (gcScope_done _ _ left)
            obtain ⟨soundAfter, entriesAfter, accounts, config2⟩ := ih (cleaned.forget key done) _
            exact ⟨soundAfter, entriesAfter.trans entries, accounts, config2⟩

end Db

namespace State

def nextId (state : State) : Nat := state.getNextAccountId.1

/-- The invariant of a state object that may write. At most `steps` ids are used. -/
structure Sound (rules : Db.Rules) (steps limit : Nat) (slack : Nat → Nat) (state : State) : Prop where
  db : state.db.Sound rules state.nextId limit slack
  numbered : state.nextId ≤ steps
  unnumbered : state.config2 = none → state.db.config2 = none → state.db.accounts = Table.empty
  writable : state.readOnly = false

variable {state : State} {rules : Db.Rules} {steps limit : Nat} {slack : Nat → Nat}

theorem sound_fresh : (fresh {}).Sound rules 0 0 (fun _ => 0) :=
  ⟨Db.sound_empty, le_rfl, fun _ _ => rfl, rfl⟩

theorem Sound.withDb (sound : state.Sound rules steps limit slack) {db : Db} {more : Nat} {left : Nat → Nat}
    (config2 : db.config2 = state.db.config2)
    (empty : state.db.accounts = Table.empty → db.accounts = Table.empty)
    (changed : db.Sound rules state.nextId more left) :
    ({ state with db := db } : State).nextId = state.nextId ∧ ({ state with db := db } : State).Sound rules steps more left := by
  have same : ({ state with db := db } : State).nextId = state.nextId := by
    simp only [nextId, getNextAccountId, config2]
    cases cached : state.config2 with
    | some next => rfl
    | none =>
        cases stored : state.db.config2 with
        | some next => rfl
        | none =>
            have none := sound.unnumbered cached stored
            simp only [empty none, none]
  refine ⟨same, ?_, ?_, ?_, sound.writable⟩
  · rw [same]
    exact changed
  · rw [same]
    exact sound.numbered
  · intro cached stored
    exact empty (sound.unnumbered cached (config2.symm.trans stored))

theorem Sound.emplaceAccount (sound : state.Sound rules steps limit slack) (room : steps + 1 < 2 ^ 64) (row : AccountRow)
    (plain : row.codeId = none) (thawed : row.flags = 0) (absent : state.db.findAccount row.ethAddress = none) :
    ∃ created, state.emplaceAccount row = .ok created ∧ created.Sound rules (steps + 1) limit slack ∧
      created.db = { state.db with accounts := state.db.accounts.put state.nextId row } := by
  have below := sound.numbered
  have exact : Words.u64 (state.nextId + 1) = state.nextId + 1 := Nat.mod_eq_of_lt (by omega)
  refine ⟨{ state with
    config2 := some (Words.u64 (state.nextId + 1))
    db := { state.db with accounts := state.db.accounts.put state.nextId row } }, ?_, ?_, rfl⟩
  · simp only [State.emplaceAccount, bind_ok, Table.emplace_ok, pure_ok]
    exact ⟨_, ⟨sound.db.unused, rfl⟩, rfl⟩
  · refine ⟨?_, ?_, fun cached => (by cases cached), sound.writable⟩
    · change Db.Sound rules (Words.u64 (state.nextId + 1)) limit slack _
      rw [exact]
      exact sound.db.create row plain thawed absent
    · change Words.u64 (state.nextId + 1) ≤ steps + 1
      omega

theorem Sound.removeAccount (sound : state.Sound rules steps limit slack) (small : limit < 2 ^ 32) {account : Nat}
    {row : AccountRow} (found : state.db.accounts.get? account = some row) :
    ∃ db, state.db.removeAccount account row = .ok db ∧ ({ state with db := db } : State).Sound rules steps limit slack ∧
      db.entries = state.db.entries.delete row.ethAddress := by
  obtain ⟨codes, released⟩ := Db.releaseCode_total fun code refers => sound.db.code found refers
  have free := Table.get?_availablePrimaryKey state.db.gcstore
  refine ⟨{ state.db with
    gcstore := state.db.gcstore.put state.db.gcstore.availablePrimaryKey account
    codes := codes
    accounts := state.db.accounts.erase account }, ?_, ?_, sound.db.entries_remove small _ found free released⟩
  · simp only [Db.removeAccount, bind_ok, Table.emplace_ok, pure_ok]
    exact ⟨_, ⟨free, rfl⟩, codes, released, rfl⟩
  · refine (sound.withDb (by exact rfl) ?_ (sound.db.remove small _ found free released)).2
    intro none
    rw [none] at found
    cases found

theorem Sound.later (sound : state.Sound rules steps limit slack) : state.Sound rules (steps + 1) limit slack :=
  ⟨sound.db, sound.numbered.trans (Nat.le_succ steps), sound.unnumbered, sound.writable⟩

theorem Sound.updateAccount (sound : state.Sound rules steps limit slack) (small : limit < 2 ^ 32)
    (room : steps + 1 < 2 ^ 64) (address : Address) (initial current : Option Account) :
    ∃ updated, state.updateAccount address initial current = .ok updated ∧
      updated.Sound rules (steps + 1) limit slack ∧
      updated.db.entries = state.db.entries.updateAccount address initial current := by
  unfold State.updateAccount AccountMap.updateAccount
  rw [(check_ok _ _ ()).mpr sound.writable, ok_bind]
  by_cases same : current = initial
  · rw [if_pos same, if_pos same]
    exact ⟨state, rfl, sound.later, rfl⟩
  rw [if_neg same, if_neg same]
  cases found : state.db.findAccount address with
  | none =>
      have absent : state.db.entries address = none := by simp only [Db.entries, found, Option.map_none]
      cases current with
      | none => exact ⟨state, rfl, sound.later, (Function.update_eq_self_iff.mpr absent.symm).symm⟩
      | some account =>
          let row : AccountRow := { ethAddress := address, nonce := account.nonce, balance := account.balance }
          obtain ⟨created, emplaced, soundAfter, db⟩ := sound.emplaceAccount room row rfl rfl found
          refine ⟨created, emplaced, soundAfter, ?_⟩
          rw [db, sound.db.entries_create row rfl found, absent]
          simp [row]
  | some pair =>
      obtain ⟨id, row⟩ := pair
      obtain ⟨present, rfl⟩ := Table.findBy_found found
      obtain ⟨db, removed, soundRemoved, entriesRemoved⟩ := sound.removeAccount small present
      cases current with
      | none =>
          exact ⟨{ state with db := db }, (bind_ok _ _ _).mpr ⟨db, removed, rfl⟩, soundRemoved.later, entriesRemoved⟩
      | some account =>
          by_cases reborn : (initial.any fun first => first.incarnation != account.incarnation) = true
          · simp only [if_pos reborn, bind_ok]
            have gone : db.findAccount row.ethAddress = none := by
              have empty := congrFun entriesRemoved row.ethAddress
              simp only [AccountMap.delete, Function.update_self, Db.entries, Option.map_eq_none_iff] at empty
              exact empty
            let new : AccountRow :=
              { ethAddress := row.ethAddress, nonce := account.nonce, balance := account.balance }
            obtain ⟨created, emplaced, soundAfter, dbAfter⟩ := soundRemoved.emplaceAccount room new rfl rfl gone
            refine ⟨created, ⟨db, removed, emplaced⟩, soundAfter, ?_⟩
            rw [dbAfter, soundRemoved.db.entries_create new rfl gone, entriesRemoved]
            simp [AccountMap.delete, new]
          · simp only [if_neg reborn, pure_ok]
            let change (row : AccountRow) : AccountRow :=
              { row with nonce := account.nonce, balance := account.balance }
            have edited := sound.db.edit present change (fun _ => rfl) (fun _ => rfl) (fun _ => rfl)
            refine ⟨_, rfl, (sound.withDb (by exact rfl) ?_ edited).2.later, ?_⟩
            · intro none
              rw [none] at present
              cases present
            · refine (sound.db.entries_modify present change (fun _ => rfl) fun code stored inCodes =>
                ⟨stored, inCodes, rfl⟩).trans ?_
              simp only [Db.entries, found, Option.map_some, Option.getD_some]
              rfl

theorem Sound.attachAccount (sound : state.Sound rules steps limit slack) (small : limit + 1 < 2 ^ 32)
    {id code : Nat} {row : AccountRow} {codeHash : Bytes32} {bytes : Bytes} {codes : Table Nat CodeRow}
    (found : state.db.accounts.get? id = some row) (fits : rules.good (codeHash, bytes))
    (attached : attachCode state.db.codes (state.db.findCode codeHash) codeHash bytes = .ok (code, codes)) :
    ({ state with db := { state.db with
        codes := codes
        accounts := state.db.accounts.modify id fun row => { row with codeId := some code } } } : State).Sound rules
      steps (limit + 1) (fun other => slack other + unit row.codeId other) ∧
    ({ state.db with
      codes := codes
      accounts := state.db.accounts.modify id fun row => { row with codeId := some code } } : Db).entries =
        state.db.entries.updateAccountCode row.ethAddress codeHash := by
  have attaches := Db.attachCode_attaches sound.db.hashes sound.db.counter small attached
  refine ⟨(sound.withDb (by exact rfl) ?_ (sound.db.attach small found fits attached)).2, ?_⟩
  · intro none
    rw [none] at found
    cases found
  · refine (sound.db.entries_modify found (fun row => { row with codeId := some code }) (fun _ => rfl) ?_).trans ?_
    · intro other stored present
      obtain ⟨new, inNew, text⟩ := attaches.kept other stored present
      exact ⟨new, inNew, (Prod.mk.inj text).1⟩
    · obtain ⟨new, inNew, hash⟩ := attaches.here
      have entry : state.db.entries row.ethAddress = some (state.db.entryOf id row) := by
        simp only [Db.entries, sound.db.findAccount_iff.mpr ⟨found, rfl⟩, Option.map_some]
      simp only [AccountMap.updateAccountCode, entry, Option.getD_some, Option.bind_some, inNew, Option.map_some, hash]
      rfl

def codeAt (state : State) (address : Address) : Option Nat :=
  (state.db.findAccount address).bind fun found => found.2.codeId

theorem Sound.updateAccountCode (sound : state.Sound rules steps limit slack) (small : limit + 1 < 2 ^ 32)
    (room : steps + 1 < 2 ^ 64) (address : Address) {codeHash : Bytes32} {bytes : Bytes}
    (fits : rules.good (codeHash, bytes)) :
    ∃ updated, state.updateAccountCode address codeHash bytes = .ok updated ∧
      updated.Sound rules (steps + 1) (limit + 1) (fun other => slack other + unit (state.codeAt address) other) ∧
      updated.db.entries = state.db.entries.updateAccountCode address codeHash := by
  unfold State.updateAccountCode codeAt
  obtain ⟨code, codes, attached⟩ := Db.attachCode_total state.db.codes (state.db.findCode codeHash) codeHash bytes
  rw [(check_ok _ _ ()).mpr sound.writable, ok_bind, attached, ok_bind]
  cases found : state.db.findAccount address with
  | some pair =>
      obtain ⟨id, row⟩ := pair
      obtain ⟨present, rfl⟩ := Table.findBy_found found
      obtain ⟨soundAfter, entries⟩ := sound.attachAccount small present fits attached
      exact ⟨_, rfl, soundAfter.later, entries⟩
  | none =>
      -- creating the row with its code is creating it without and attaching the code
      let plain : AccountRow := { ethAddress := address, nonce := 0 }
      obtain ⟨created, emplaced, soundCreated, _⟩ := sound.emplaceAccount room plain rfl rfl found
      have createdEntries := sound.db.entries_create plain rfl found
      obtain ⟨absent, rfl⟩ := emplaceAccount_ok emplaced
      have here : (state.db.accounts.put state.getNextAccountId.1 plain).get? state.getNextAccountId.1 = some plain := by
        simp
      obtain ⟨soundAfter, entries⟩ := soundCreated.attachAccount small here fits attached
      simp only [Table.modify_put] at soundAfter entries
      refine ⟨_, ?_, soundAfter, ?_⟩
      · simp only [State.emplaceAccount, bind_ok, Table.emplace_ok, pure_ok]
        exact ⟨_, ⟨absent, rfl⟩, rfl⟩
      · have empty : state.db.entries address = none := by simp only [Db.entries, found, Option.map_none]
        refine entries.trans ?_
        simp only [nextId] at createdEntries
        rw [createdEntries]
        simp [AccountMap.updateAccountCode, plain, empty]

def slotValue (rows : Table Nat StorageRow) (location : Bytes32) : Bytes32 :=
  ((rows.findBy StorageRow.key location).map fun slot => slot.2.value).getD 0

theorem slotValue_erase {rows : Table Nat StorageRow} (unique : rows.Unique StorageRow.key) {location : Bytes32}
    {slot : Nat} {row : StorageRow} (found : rows.findBy StorageRow.key location = some (slot, row)) :
    slotValue (rows.erase slot) = Function.update (slotValue rows) location 0 := by
  have rewritten := Table.rewrites_erase unique found
  funext other
  by_cases same : other = location
  · subst same
    rw [Function.update_self, slotValue, Option.map_eq_none_iff.mp rewritten.here]
    rfl
  · rw [Function.update_of_ne same, slotValue, rewritten.elsewhere other same, slotValue]

theorem storeSlot_total (db : Db) (scope : Nat) (unique : (db.storage scope).Unique StorageRow.key)
    (location current : Bytes32) :
    ∃ rows, storeSlot db scope location current = .ok (db.setScope scope rows) ∧ rows.Unique StorageRow.key ∧
      slotValue rows = Function.update (slotValue (db.storage scope)) location current := by
  have set : ∀ rows, Table.Rewrites StorageRow.key (db.storage scope) rows location
      (some { key := location, value := current }) →
      slotValue rows = Function.update (slotValue (db.storage scope)) location current := by
    intro rows rewritten
    funext other
    by_cases same : other = location
    · subst same
      obtain ⟨slot, found, stored⟩ := Option.map_eq_some_iff.mp rewritten.here
      rw [Function.update_self, slotValue, found, Option.map_some, stored]
      rfl
    · rw [Function.update_of_ne same, slotValue, rewritten.elsewhere other same, slotValue]
  unfold storeSlot
  cases found : db.findSlot scope location with
  | none =>
      have free := Table.get?_availablePrimaryKey (db.storage scope)
      have rewritten := Table.rewrites_put unique free
        (show (db.storage scope).findBy StorageRow.key ({ key := location, value := current } : StorageRow).key = none
          from found)
      simp only [bind_ok, Table.emplace_ok, pure_ok]
      exact ⟨_, ⟨_, ⟨free, rfl⟩, rfl⟩, rewritten.unique, set _ rewritten⟩
  | some pair =>
      obtain ⟨slot, row⟩ := pair
      obtain ⟨_, rfl⟩ := Table.findBy_found found
      have rewritten := Table.rewrites_modify unique (fun row : StorageRow => { row with value := current })
        (fun _ => rfl) found
      exact ⟨_, rfl, rewritten.unique, set _ rewritten⟩

theorem Sound.store (sound : state.Sound rules steps limit slack) {id : Nat} {row : AccountRow}
    (found : state.db.accounts.get? id = some row) {rows : Table Nat StorageRow}
    (unique : rows.Unique StorageRow.key) {location current : Bytes32}
    (set : slotValue rows = Function.update (slotValue (state.db.storage id)) location current) :
    ({ state with db := state.db.setScope id rows } : State).Sound rules steps limit slack ∧
      (state.db.setScope id rows).entries = state.db.entries.updateStorage row.ethAddress location current := by
  have used := (sound.db.live id row found).1
  have entry : state.db.entries row.ethAddress = some (state.db.entryOf id row) := by
    simp only [Db.entries, sound.db.findAccount_iff.mpr ⟨found, rfl⟩, Option.map_some]
  refine ⟨(sound.withDb (by exact rfl) (by exact fun none => none) (sound.db.setScope used (Or.inl ⟨row, found⟩) unique)).2, ?_⟩
  refine (sound.db.entries_setScope found rows).trans ?_
  unfold AccountMap.updateStorage
  rw [if_neg (by simp [entry]), entry]
  exact congrArg (Function.update state.db.entries row.ethAddress) (congrArg (fun storage =>
    some { state.db.entryOf id row with storage := storage }) set)

theorem Sound.updateStorage (sound : state.Sound rules steps limit slack) (room : steps + 1 < 2 ^ 64)
    (address : Address) (location current : Bytes32) :
    ∃ updated, state.updateStorage address location current = .ok updated ∧
      updated.Sound rules (steps + 1) limit slack ∧
      updated.db.entries = state.db.entries.updateStorage address location current := by
  unfold State.updateStorage
  rw [(check_ok _ _ ()).mpr sound.writable, ok_bind]
  cases found : state.db.findAccount address with
  | none =>
      have absent : state.db.entries address = none := by simp only [Db.entries, found, Option.map_none]
      by_cases zero : current = 0
      · rw [if_pos zero]
        refine ⟨state, rfl, sound.later, ?_⟩
        rw [AccountMap.updateStorage, if_pos ⟨zero, by simp [absent]⟩]
      · rw [if_neg zero]
        let plain : AccountRow := { ethAddress := address, nonce := 0 }
        obtain ⟨created, emplaced, soundCreated, dbCreated⟩ := sound.emplaceAccount room plain rfl rfl found
        have here : created.db.accounts.get? state.nextId = some plain := by simp [dbCreated]
        obtain ⟨rows, stored, unique, set⟩ := storeSlot_total created.db state.nextId
          (soundCreated.db.slots _) location current
        obtain ⟨soundAfter, entries⟩ := soundCreated.store here unique set
        refine ⟨_, (bind_ok _ _ _).mpr ⟨created, emplaced, (bind_ok _ _ _).mpr ⟨_, stored, rfl⟩⟩, soundAfter, ?_⟩
        refine entries.trans ?_
        rw [dbCreated, sound.db.entries_create plain rfl found]
        unfold AccountMap.updateStorage
        rw [if_neg fun both => zero both.1, if_neg fun both => zero both.1]
        simp [plain, absent]
  | some pair =>
      obtain ⟨id, row⟩ := pair
      obtain ⟨present, rfl⟩ := Table.findBy_found found
      by_cases zero : current = 0
      · rw [if_pos zero]
        subst zero
        cases stored : state.db.findSlot id location with
        | none =>
            -- the slot is zero already
            refine ⟨state, by simp only [stored]; rfl, sound.later, ?_⟩
            have same : slotValue (state.db.storage id) =
                Function.update (slotValue (state.db.storage id)) location 0 := by
              refine (Function.update_eq_self_iff.mpr ?_).symm
              simp only [slotValue, show (state.db.storage id).findBy StorageRow.key location = none from stored]
              rfl
            have entries := (sound.store present (sound.db.slots id) same).2
            rw [← entries, Db.setScope, Function.update_eq_self]
        | some slot =>
            obtain ⟨slot, value⟩ := slot
            obtain ⟨soundAfter, entries⟩ := sound.store present (Table.unique_erase (sound.db.slots id) slot)
              (slotValue_erase (sound.db.slots id) stored)
            exact ⟨_, by simp only [stored]; rfl, soundAfter.later, entries⟩
      · rw [if_neg zero]
        obtain ⟨rows, stored, unique, set⟩ := storeSlot_total state.db id (sound.db.slots id) location current
        obtain ⟨soundAfter, entries⟩ := sound.store present unique set
        exact ⟨_, (bind_ok _ _ _).mpr ⟨_, stored, rfl⟩, soundAfter.later, entries⟩

theorem Sound.gc (sound : state.Sound rules steps limit slack) (max : Nat) :
    ({ state with db := (state.db.gc max).1 } : State).Sound rules steps limit slack ∧
      (state.db.gc max).1.entries = state.db.entries := by
  obtain ⟨collected, entries, accounts, config2⟩ := sound.db.gcLoop max max
  exact ⟨(sound.withDb config2 (fun none => accounts.trans none) collected).2, entries⟩

theorem Sound.rmaccount (sound : state.Sound rules steps limit slack) (small : limit < 2 ^ 32) {id : Nat}
    {row : AccountRow} (found : state.db.accounts.get? id = some row) :
    ∃ db, state.db.rmaccount id = .ok db ∧ ({ state with db := db } : State).Sound rules steps limit slack ∧
      db.entries = state.db.entries.delete row.ethAddress := by
  obtain ⟨db, removed, soundAfter, entries⟩ := sound.removeAccount small found
  refine ⟨db, ?_, soundAfter, entries⟩
  obtain ⟨gcstore, codes, emplaced, released, rfl⟩ := Db.removeAccount_ok removed
  simp only [Db.rmaccount, bind_ok, require_ok, pure_ok]
  exact ⟨row, found, codes, released, gcstore, emplaced, rfl⟩

theorem Sound.forget (sound : state.Sound rules steps limit slack) (key : Nat) (lost : ∀ scope, rules.lost scope) :
    ({ state with db := { state.db with gcstore := state.db.gcstore.erase key } } : State).Sound rules steps limit slack :=
  (sound.withDb (by exact rfl) (by exact fun none => none) (sound.db.forget key fun scope _ => Or.inr (lost scope))).2

theorem Sound.reopen (sound : state.Sound rules steps limit slack) :
    (fresh state.destroy).Sound rules steps limit slack ∧ state.destroy.entries = state.db.entries := by
  cases cached : state.config2 with
  | none =>
      have same : state.destroy = state.db := by simp only [destroy, cached]
      have next : (fresh state.db).nextId = state.nextId := by simp only [nextId, getNextAccountId, fresh, cached]
      rw [same]
      exact ⟨⟨next ▸ sound.db, next ▸ sound.numbered, fun _ => sound.unnumbered cached, rfl⟩, rfl⟩
  | some id =>
      have same : state.destroy = { state.db with config2 := some id } := by simp only [destroy, cached]
      have next : state.nextId = id := by simp only [nextId, getNextAccountId, cached]
      have db := sound.db
      have numbered := sound.numbered
      rw [next] at db numbered
      rw [same]
      exact ⟨⟨⟨db.addresses, db.hashes, db.slots, db.garbage, db.live, db.dead, db.vacant, db.tally, db.counter,
        db.text, db.owned⟩, numbered, fun _ stored => (by cases stored), rfl⟩, rfl⟩

end State

end EosEvm

import EosEvm.StateRefines

/-! The tables under write-backs. `write_to_db` attaches code only to an account it has
just created or that had no account before, so that every counter is exactly the number
of its references. -/

namespace EosEvm

open Abort Refs

def AccountMap.Codeless (map : AccountMap) (address : Address) : Prop :=
  ∀ entry, map address = some entry → entry.codeHash = none

def Db.strict : Db.Rules where
  good _ := True
  lost _ := False

theorem State.codeAt_of_codeless {state : State} {rules : Db.Rules} {steps limit : Nat} {slack : Nat → Nat}
    (sound : state.Sound rules steps limit slack) {address : Address} (codeless : state.db.entries.Codeless address) :
    state.codeAt address = none := by
  cases found : state.db.findAccount address with
  | none => simp [codeAt, found]
  | some pair =>
      obtain ⟨id, row⟩ := pair
      have none := codeless (state.db.entryOf id row) (by simp [Db.entries, found])
      cases refers : row.codeId with
      | none => simp [codeAt, found, refers]
      | some code =>
          obtain ⟨codeRow, inCodes⟩ := sound.db.code (Table.findBy_found found).1 refers
          simp [Db.entryOf, refers, inCodes] at none

namespace DbWrite

/-- Whether the write attaches code. -/
def attaches : DbWrite → Nat
  | object _ initial (some current) _ => if hasNewCode initial current then 1 else 0
  | _ => 0

/-- How many operations of the state the write is. -/
def calls (write : DbWrite) : Nat := 1 + write.attaches

/-- The object starts from what `read_account` returned before anything was written. -/
def LoadedFrom (db : Db) : DbWrite → Prop
  | object address initial _ _ => ((State.fresh db false false).readAccount address).map Prod.fst = .ok initial
  | storage _ _ _ => True

def Clean (map : AccountMap) : DbWrite → Prop
  | object address none _ _ => map.Codeless address
  | _ => True

variable {state : State} {steps limit : Nat}

theorem codeless_updateAccount {map : AccountMap} {address : Address} {initial : Option Account} {account : Account}
    (fresh : hasNewCode initial account = true) (clean : initial = none → map.Codeless address) :
    (map.updateAccount address initial (some account)).Codeless address := by
  have changed : some account ≠ initial := by
    rintro rfl
    simp [hasNewCode] at fresh
  intro entry found
  simp only [AccountMap.updateAccount, if_neg changed, Function.update_self, Option.some.injEq] at found
  subst found
  cases initial with
  | none =>
      cases before : map address with
      | none => rfl
      | some old => simpa [before] using clean rfl old before
  | some first =>
      have reborn : first.incarnation ≠ account.incarnation := by
        simp only [hasNewCode, Option.all_some, Bool.and_eq_true, bne_iff_ne] at fresh
        exact fresh.2
      simp [reborn]

theorem updateAccount_elsewhere {map : AccountMap} {address other : Address} (apart : other ≠ address)
    (initial current : Option Account) : map.updateAccount address initial current other = map other := by
  unfold AccountMap.updateAccount
  split
  · rfl
  · cases current with
    | none => exact Function.update_of_ne apart _ _
    | some account => exact Function.update_of_ne apart _ _

theorem codeless_updateStorage {map : AccountMap} {other : Address} (codeless : map.Codeless other)
    (address : Address) (location current : Bytes32) : (map.updateStorage address location current).Codeless other := by
  unfold AccountMap.updateStorage
  split
  · exact codeless
  · intro entry found
    by_cases same : other = address
    · subst same
      simp only [Function.update_self, Option.some.injEq] at found
      subst found
      cases before : map other with
      | none => rfl
      | some old => exact codeless old before
    · rw [Function.update_of_ne same] at found
      exact codeless entry found

theorem apply_sound {write : DbWrite} (sound : state.Sound Db.strict steps limit (fun _ => 0))
    (clean : write.Clean state.db.entries) (small : limit + write.attaches < 2 ^ 32)
    (room : steps + write.calls < 2 ^ 64) :
    ∃ updated, apply state write = .ok updated ∧
      updated.Sound Db.strict (steps + write.calls) (limit + write.attaches) (fun _ => 0) ∧
      ∀ other, write.object? ≠ some other → state.db.entries.Codeless other → updated.db.entries.Codeless other := by
  cases write with
  | storage address location current =>
      obtain ⟨updated, done, soundAfter, entries⟩ := sound.updateStorage room address location current
      exact ⟨updated, done, soundAfter, fun other _ codeless =>
        entries ▸ codeless_updateStorage codeless address location current⟩
  | object address initial current code =>
      have enough : steps + 1 < 2 ^ 64 := by
        simp only [calls] at room
        omega
      obtain ⟨middle, done, soundMiddle, entries⟩ := sound.updateAccount (by omega) enough address initial current
      have elsewhere : ∀ other, some address ≠ some other → middle.db.entries other = state.db.entries other := by
        intro other apart
        rw [entries]
        exact updateAccount_elsewhere (fun same => apart (congrArg some same.symm)) initial current
      have unchanged : ∀ other, some address ≠ some other → state.db.entries.Codeless other →
          middle.db.entries.Codeless other := by
        intro other apart codeless entry found
        exact codeless entry ((elsewhere other apart).symm.trans found)
      cases current with
      | none => exact ⟨middle, (bind_ok _ _ _).mpr ⟨middle, done, rfl⟩, soundMiddle, unchanged⟩
      | some account =>
          by_cases fresh : hasNewCode initial account = true
          · have one : (object address initial (some account) code).attaches = 1 := by simp [attaches, fresh]
            simp only [calls, one] at small room ⊢
            have codeless : middle.db.entries.Codeless address := by
              rw [entries]
              refine codeless_updateAccount fresh ?_
              rintro rfl
              exact clean
            obtain ⟨updated, attached, soundAfter, entriesAfter⟩ := soundMiddle.updateAccountCode (by exact small)
              (by omega) address (show Db.strict.good (account.codeHash, code) from True.intro)
            rw [State.codeAt_of_codeless soundMiddle codeless] at soundAfter
            refine ⟨updated, (bind_ok _ _ _).mpr ⟨middle, done, ?_⟩, soundAfter, ?_⟩
            · simp only [if_pos fresh]
              exact attached
            · intro other apart before entry found
              rw [entriesAfter, AccountMap.updateAccountCode,
                Function.update_of_ne fun same => apart (congrArg some same.symm)] at found
              exact unchanged other apart before entry found
          · have zero : (object address initial (some account) code).attaches = 0 := by simp [attaches, fresh]
            simp only [calls, zero]
            refine ⟨middle, (bind_ok _ _ _).mpr ⟨middle, done, ?_⟩, soundMiddle, unchanged⟩
            simp only [if_neg fresh]
            rfl

theorem fold_sound {writes : List DbWrite} (sound : state.Sound Db.strict steps limit (fun _ => 0))
    (distinct : (writes.filterMap object?).Nodup) (clean : ∀ write ∈ writes, write.Clean state.db.entries)
    (small : limit + (writes.map attaches).sum < 2 ^ 32) (room : steps + (writes.map calls).sum < 2 ^ 64) :
    ∃ updated, foldOutcome apply writes state = .ok updated ∧
      updated.Sound Db.strict (steps + (writes.map calls).sum) (limit + (writes.map attaches).sum) (fun _ => 0) := by
  induction writes generalizing state steps limit with
  | nil => exact ⟨state, rfl, sound⟩
  | cons write writes ih =>
      simp only [List.map_cons, List.sum_cons] at small room ⊢
      obtain ⟨middle, applied, soundMiddle, kept⟩ := apply_sound sound (clean write (List.mem_cons_self ..))
        (by omega) (by omega)
      have rest : (writes.filterMap object?).Nodup := by
        rw [List.filterMap_cons] at distinct
        split at distinct
        · exact distinct
        · exact (List.nodup_cons.mp distinct).2
      have cleanRest : ∀ other ∈ writes, other.Clean middle.db.entries := by
        intro other member
        have before := clean other (List.mem_cons_of_mem _ member)
        match other, member, before with
        | storage _ _ _, _, _ => trivial
        | object _ (some _) _ _, _, _ => trivial
        | object address none current code, member, before =>
            refine kept address ?_ before
            intro same
            rw [List.filterMap_cons, same] at distinct
            exact (List.nodup_cons.mp distinct).1 (List.mem_filterMap.mpr ⟨_, member, rfl⟩)
      obtain ⟨updated, folded, soundAfter⟩ := ih soundMiddle rest cleanRest (by omega) (by omega)
      refine ⟨updated, (foldOutcome_cons _ _ _ _ _).mpr ⟨middle, applied, folded⟩, ?_⟩
      rwa [← Nat.add_assoc, ← Nat.add_assoc]

theorem clean_of_loaded {db : Db} {rules : Db.Rules} {next : Nat} {slack : Nat → Nat}
    (sound : db.Sound rules next limit slack) {write : DbWrite} (loaded : write.LoadedFrom db) :
    write.Clean db.entries := by
  match write, loaded with
  | storage _ _ _, _ => trivial
  | object _ (some _) _ _, _ => trivial
  | object address none current code, loaded =>
      obtain ⟨after, read, _⟩ := (State.coherent_fresh rules false false).readAccount sound address
      simp only [LoadedFrom, read] at loaded
      have absent : db.entries address = none := Option.map_eq_none_iff.mp (Except.ok.inj loaded)
      intro entry found
      rw [absent] at found
      cases found

end DbWrite

/-- The tables that write-backs, `gc` and `rmaccount` lead to from empty ones, with how many
operations wrote and how many of them attached code. -/
inductive Maintained : Nat → Nat → Db → Prop
  | empty : Maintained 0 0 {}
  | writeBack {calls attached : Nat} {db after : Db} (writes : List DbWrite) (before : Maintained calls attached db)
      (distinct : (writes.filterMap DbWrite.object?).Nodup) (loaded : ∀ write ∈ writes, write.LoadedFrom db)
      (written : DbWrite.applyAll db writes = .ok after) :
      Maintained (calls + (writes.map DbWrite.calls).sum) (attached + (writes.map DbWrite.attaches).sum) after
  | gc {calls attached : Nat} {db : Db} (max : Nat) (before : Maintained calls attached db) :
      Maintained calls attached (db.gc max).1
  | rmaccount {calls attached : Nat} {db after : Db} (id : Nat) (before : Maintained calls attached db)
      (removed : db.rmaccount id = .ok after) : Maintained calls attached after

/-- The tables agree with each other. -/
structure Db.Consistent (db : Db) : Prop where
  counted : ∀ code row, db.codes.get? code = some row →
    row.refCount = db.accounts.count (fun account => account.codeId == some code) ∧ 1 ≤ row.refCount
  linked : ∀ id row code, db.accounts.get? id = some row → row.codeId = some code →
    ∃ codeRow, db.codes.get? code = some codeRow
  addresses : db.accounts.Unique AccountRow.ethAddress
  hashes : db.codes.Unique CodeRow.codeHash
  garbage : db.gcstore.Unique id
  apart : ∀ key id, db.gcstore.get? key = some id → db.accounts.get? id = none
  numbered : ∀ id, (∃ row, db.accounts.get? id = some row) ∨ (∃ key, db.gcstore.get? key = some id) →
    ∃ next, db.config2 = some next ∧ id < next
  owned : ∀ scope, db.storage scope ≠ Table.empty →
    (∃ row, db.accounts.get? scope = some row) ∨ ∃ key, db.gcstore.get? key = some scope

theorem State.Sound.consistent {db : Db} {steps limit : Nat}
    (sound : (State.fresh db).Sound Db.strict steps limit (fun _ => 0)) : db.Consistent where
  counted code row found := by
    have tally : references AccountRow.codeId db.accounts code + 0 = held CodeRow.refCount db.codes code :=
      sound.db.tally code
    rw [held_of_get? found] at tally
    exact ⟨tally.symm, (sound.db.counter code row found).1⟩
  linked id row code found refers := sound.db.code found refers
  addresses := sound.db.addresses
  hashes := sound.db.hashes
  garbage := sound.db.garbage
  apart key id found := (sound.db.dead key id found).2
  numbered id used := by
    have below : id < (State.fresh db).nextId := by
      rcases used with ⟨row, live⟩ | ⟨key, dead⟩
      · exact (sound.db.live id row live).1
      · exact (sound.db.dead key id dead).1
    cases stored : db.config2 with
    | some next =>
        refine ⟨next, rfl, ?_⟩
        simpa [State.nextId, State.getNextAccountId, State.fresh, stored] using below
    | none =>
        -- nothing has been numbered yet
        have none : db.accounts = Table.empty := sound.unnumbered rfl stored
        simp [State.nextId, State.getNextAccountId, State.fresh, stored, none, Table.availablePrimaryKey,
          Table.last?, Table.empty] at below
  owned scope filled := by
    rcases sound.db.owned scope filled with live | dead | lost
    · exact Or.inl live
    · exact Or.inr dead
    · exact absurd lost id

theorem DbWrite.applyAll_sound {db : Db} {writes : List DbWrite} {steps limit : Nat}
    (sound : (State.fresh db).Sound Db.strict steps limit (fun _ => 0))
    (distinct : (writes.filterMap DbWrite.object?).Nodup) (loaded : ∀ write ∈ writes, write.LoadedFrom db)
    (small : limit + (writes.map attaches).sum < 2 ^ 32) (room : steps + (writes.map calls).sum < 2 ^ 64) :
    ∃ after, applyAll db writes = .ok after ∧ (State.fresh after).Sound Db.strict (steps + (writes.map calls).sum)
      (limit + (writes.map attaches).sum) (fun _ => 0) := by
  have opened : (State.fresh db false false).Sound Db.strict steps limit (fun _ => 0) :=
    ⟨sound.db, sound.numbered, sound.unnumbered, rfl⟩
  obtain ⟨written, folded, soundAfter⟩ := fold_sound opened distinct
    (fun write member => clean_of_loaded sound.db (loaded write member)) small room
  exact ⟨written.destroy, (bind_ok _ _ _).mpr ⟨written, folded, rfl⟩, soundAfter.reopen.1⟩

theorem Maintained.sound {calls attached : Nat} {db : Db} (maintained : Maintained calls attached db)
    (few : attached < 2 ^ 32) (short : calls < 2 ^ 64) :
    (State.fresh db).Sound Db.strict calls attached (fun _ => 0) := by
  induction maintained with
  | empty => exact State.sound_fresh
  | writeBack writes before distinct loaded written ih =>
      obtain ⟨after, done, soundAfter⟩ := DbWrite.applyAll_sound (ih (by omega) (by omega)) distinct loaded few short
      obtain rfl := Except.ok.inj (done.symm.trans written)
      exact soundAfter
  | gc max before ih => exact ((ih few short).gc max).1
  | @rmaccount _ _ db after id before removed ih =>
      have sound := ih few short
      cases found : db.accounts.get? id with
      | none =>
          simp only [Db.rmaccount, bind_ok, require_ok, found] at removed
          obtain ⟨_, ⟨⟩, _⟩ := removed
      | some row =>
          obtain ⟨other, done, soundAfter, _⟩ := sound.rmaccount few found
          obtain rfl := Except.ok.inj (done.symm.trans removed)
          exact soundAfter

/-- In every run of write-backs, `gc` and `rmaccount` that attaches code fewer than `2 ^ 32`
times and writes fewer than `2 ^ 64` times, the tables agree with each other, and no
write-back and no removal of an account fails. -/
theorem maintained_consistent (calls attached : Nat) (db : Db) (maintained : Maintained calls attached db)
    (few : attached < 2 ^ 32) (short : calls < 2 ^ 64) :
    db.Consistent ∧
      (∀ writes : List DbWrite, (writes.filterMap DbWrite.object?).Nodup → (∀ write ∈ writes, write.LoadedFrom db) →
        attached + (writes.map DbWrite.attaches).sum < 2 ^ 32 → calls + (writes.map DbWrite.calls).sum < 2 ^ 64 →
        ∃ after, DbWrite.applyAll db writes = .ok after) ∧
      ∀ id row, db.accounts.get? id = some row → ∃ after, db.rmaccount id = .ok after := by
  have sound := maintained.sound few short
  refine ⟨sound.consistent, ?_, ?_⟩
  · intro writes distinct loaded small room
    obtain ⟨after, done, _⟩ := DbWrite.applyAll_sound sound distinct loaded small room
    exact ⟨after, done⟩
  · intro id row found
    obtain ⟨after, done, _⟩ := sound.rmaccount few found
    exact ⟨after, done⟩

namespace ManyAccounts

/-- The creation of one of many accounts with the same code. -/
def write (index : Nat) : DbWrite := .object (BitVec.ofNat 160 index) none (some ⟨1, 0, 7, 0⟩) [1]

def row (index : Nat) : AccountRow := { ethAddress := BitVec.ofNat 160 index, nonce := 1, codeId := some 0 }

/-- The tables after a number of them: the counter is kept in 32 bits. -/
structure Shape (created : Nat) (db : Db) : Prop where
  unique : db.UniqueAddress
  codes : db.codes = Table.empty.put 0 { refCount := Words.u32 created, code := [1], codeHash := 7 }
  config2 : db.config2 = some created
  references : db.accounts.count (fun account => account.codeId == some 0) = created
  rows : ∀ id stored, db.accounts.get? id = some stored → id < created ∧ stored = row id

def handle (db : Db) (next : Nat) (accounts : Table Nat AccountRow) (codes : Table Nat CodeRow) : State where
  db := { db with accounts := accounts, codes := codes }
  readOnly := false
  allowFrozen := false
  config2 := some next

theorem Shape.step {created : Nat} {db : Db} (shape : Shape created db) (bound : created < 2 ^ 32) :
    (write created).LoadedFrom db ∧ ∃ after, DbWrite.applyAll db [write created] = .ok after ∧ Shape (created + 1) after := by
  have absent : db.findAccount (BitVec.ofNat 160 created) = none := by
    refine (Table.findBy_eq_none _).mpr ?_
    intro id stored found same
    obtain ⟨below, rfl⟩ := shape.rows id stored found
    have equal := congrArg BitVec.toNat same
    simp only [row, BitVec.toNat_ofNat] at equal
    omega
  have free : db.accounts.get? created = none := by
    cases found : db.accounts.get? created with
    | none => rfl
    | some stored => exact absurd (shape.rows created stored found).1 (lt_irrefl created)
  have next : Words.u64 (created + 1) = created + 1 := Nat.mod_eq_of_lt (by omega)
  refine ⟨?_, ?_⟩
  · simp only [write, DbWrite.LoadedFrom, State.readAccount, State.fresh, absent]
    rfl
  · let plain : AccountRow := { ethAddress := BitVec.ofNat 160 created, nonce := 1 }
    have cached : (State.fresh db false false).getNextAccountId.1 = created := by
      simp only [State.getNextAccountId, State.fresh, shape.config2]
    let codes := Table.empty.put 0 ({ refCount := Words.u32 (created + 1), code := [1], codeHash := 7 } : CodeRow)
    have emplaced : (State.fresh db false false).emplaceAccount plain =
        .ok (handle db (created + 1) (db.accounts.put created plain) db.codes) := by
      simp only [State.emplaceAccount, bind_ok, Table.emplace_ok, pure_ok, cached]
      refine ⟨_, ⟨free, rfl⟩, ?_⟩
      simp only [State.getNextAccountId, State.fresh, shape.config2, next, handle]
    have found : (handle db (created + 1) (db.accounts.put created plain) db.codes).db.findAccount
        (BitVec.ofNat 160 created) = some (created, plain) := by
      have unused : db.accounts.findBy AccountRow.ethAddress plain.ethAddress = none := absent
      simp only [Db.findAccount, handle]
      rw [Table.findBy_put shape.unique free unused, if_pos rfl]
    have attached : State.attachCode db.codes (db.findCode 7) 7 [1] = .ok (0, codes) := by
      have counted : Words.u32 (Words.u32 created + 1) = Words.u32 (created + 1) := Nat.mod_add_mod ..
      simp only [codes, ← counted]
      rw [Db.findCode, shape.codes]
      rfl
    have updated : (State.fresh db false false).updateAccount (BitVec.ofNat 160 created) none (some ⟨1, 0, 7, 0⟩) =
        .ok (handle db (created + 1) (db.accounts.put created plain) db.codes) := by
      refine (bind_ok _ _ _).mpr ⟨(), (check_ok _ _ _).mpr rfl, ?_⟩
      rw [if_neg (by simp), show (State.fresh db false false).db.findAccount (BitVec.ofNat 160 created) = none from absent]
      exact emplaced
    have coded : (handle db (created + 1) (db.accounts.put created plain) db.codes).updateAccountCode
        (BitVec.ofNat 160 created) 7 [1] =
          .ok (handle db (created + 1) (db.accounts.put created (row created)) codes) := by
      refine (bind_ok _ _ _).mpr ⟨(), (check_ok _ _ _).mpr rfl, (bind_ok _ _ _).mpr ⟨(0, codes), attached, ?_⟩⟩
      rw [found]
      change Except.ok (handle db (created + 1) ((db.accounts.put created plain).modify created _) codes) = _
      rw [Table.modify_put]
      rfl
    have applied : DbWrite.apply (State.fresh db false false) (write created) =
        .ok (handle db (created + 1) (db.accounts.put created (row created)) codes) :=
      (bind_ok _ _ _).mpr ⟨_, updated, coded⟩
    refine ⟨{ db with
      accounts := db.accounts.put created (row created)
      codes := codes
      config2 := some (created + 1) }, ?_, ?_⟩
    · exact (bind_ok _ _ _).mpr ⟨_, (foldOutcome_cons _ _ _ _ _).mpr ⟨_, applied, rfl⟩, rfl⟩
    · refine ⟨Table.unique_put shape.unique created absent, rfl, rfl, ?_, ?_⟩
      · have more := Table.total_put (fun account : AccountRow => if account.codeId == some 0 then 1 else 0)
          db.accounts created (row created) free
        have before := shape.references
        simp only [Table.count] at before ⊢
        rw [more, before]
        rfl
      · intro id stored present
        simp only [Table.get?_put] at present
        split at present
        · rename_i same
          cases present
          exact ⟨by omega, by rw [same]⟩
        · have old := shape.rows id stored present
          exact ⟨by omega, old.2⟩

theorem maintained (count : Nat) (bound : count < 2 ^ 32) :
    ∃ calls attached db, Maintained calls attached db ∧ Shape (count + 1) db := by
  induction count with
  | zero =>
      let first : Db := {
        accounts := Table.empty.put 0 (row 0)
        codes := Table.empty.put 0 { refCount := 1, code := [1], codeHash := 7 }
        config2 := some 1 }
      have written : DbWrite.applyAll {} [write 0] = .ok first := rfl
      refine ⟨_, _, first, .writeBack [write 0] .empty (by simp [write, DbWrite.object?]) ?_ written, ?_⟩
      · intro other member
        rw [List.mem_singleton.mp member]
        exact rfl
      · refine ⟨Table.unique_put Table.unique_empty 0 rfl, rfl, rfl, rfl, ?_⟩
        intro id stored present
        simp only [first, Table.get?_put, Table.get?_empty] at present
        split at present
        · rename_i same
          cases present
          exact ⟨by omega, by rw [same]⟩
        · cases present
  | succ count ih =>
      obtain ⟨calls, attached, db, before, shape⟩ := ih (by omega)
      obtain ⟨loaded, after, written, next⟩ := shape.step bound
      refine ⟨_, _, after, .writeBack [write (count + 1)] before (by simp [write, DbWrite.object?]) ?_ written, next⟩
      intro other member
      rw [List.mem_singleton.mp member]
      exact loaded

end ManyAccounts

/-- With `2 ^ 32` accounts that share a code, its counter is zero. -/
theorem manyAccounts_uncounted :
    ∃ calls attached db code row, Maintained calls attached db ∧ db.codes.get? code = some row ∧
      row.refCount ≠ db.accounts.count (fun account => account.codeId == some code) ∧ ¬ 1 ≤ row.refCount := by
  obtain ⟨calls, attached, db, maintained, shape⟩ := ManyAccounts.maintained (2 ^ 32 - 1) (by omega)
  have wrapped : Words.u32 (2 ^ 32 - 1 + 1) = 0 := by simp [Words.u32]
  have codes := shape.codes
  rw [wrapped] at codes
  refine ⟨calls, attached, db, 0, { refCount := 0, code := [1], codeHash := 7 }, maintained, ?_, ?_, by decide⟩
  · rw [codes]
    rfl
  · rw [shape.references]
    decide

theorem maintained_consistent_pair :
    ∃ db, Maintained 4 2 db ∧ db.Consistent ∧
      (∀ writes : List DbWrite, (writes.filterMap DbWrite.object?).Nodup → (∀ write ∈ writes, write.LoadedFrom db) →
        2 + (writes.map DbWrite.attaches).sum < 2 ^ 32 → 4 + (writes.map DbWrite.calls).sum < 2 ^ 64 →
        ∃ after, DbWrite.applyAll db writes = .ok after) ∧
      ∀ id row, db.accounts.get? id = some row → ∃ after, db.rmaccount id = .ok after := by
  obtain ⟨db, written⟩ := exists_of_isOk
    (show (DbWrite.applyAll {} [ManyAccounts.write 0, ManyAccounts.write 1]).isOk = true by decide +kernel)
  have maintained : Maintained 4 2 db := by
    refine .writeBack [ManyAccounts.write 0, ManyAccounts.write 1] .empty (by decide) ?_ written
    intro write member
    simp only [List.mem_cons, List.not_mem_nil, or_false] at member
    rcases member with rfl | rfl <;> exact rfl
  exact ⟨db, maintained, maintained_consistent 4 2 db maintained (by decide) (by decide)⟩

end EosEvm

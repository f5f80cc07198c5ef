import EosEvm.StateMap

/-! Sequences of operations on the state. The tables hold what the map holds as long as no
reference counter and no account id overflows; a code row that is attached `2 ^ 32` times
more often than it is removed is counted as if it were attached never. -/

namespace EosEvm

open Abort Refs

/-- Code is that of its hash; the rows that `rmgcstore` leaves behind do not matter. -/
def Hashed (codeOf : Bytes32 → Bytes) : Db.Rules where
  good text := text.2 = codeOf text.1
  lost _ := True

namespace DbOp

variable {state updated : State} {codeOf : Bytes32 → Bytes} {steps limit : Nat} {slack : Nat → Nat}

/-- One operation does to the entries what it does to the map. -/
theorem run_refines {op : DbOp} (sound : state.Sound (Hashed codeOf) steps limit slack) (hashes : op.Hashes codeOf)
    (small : limit + op.attaches < 2 ^ 32) (room : steps + 1 < 2 ^ 64) (ran : op.run state = .ok updated) :
    (∃ left, updated.Sound (Hashed codeOf) (steps + 1) (limit + op.attaches) left) ∧
      updated.db.entries = op.onMap state.db state.db.entries := by
  cases op with
  | reopen =>
      obtain ⟨soundAfter, entries⟩ := sound.reopen
      cases ran
      exact ⟨⟨slack, soundAfter.later⟩, entries⟩
  | updateAccount address initial current =>
      obtain ⟨after, done, soundAfter, entries⟩ := sound.updateAccount (by exact small) room address initial current
      obtain rfl := Except.ok.inj (done.symm.trans ran)
      exact ⟨⟨slack, soundAfter⟩, entries⟩
  | updateAccountCode address codeHash code =>
      obtain ⟨after, done, soundAfter, entries⟩ := sound.updateAccountCode small room address
        (show (Hashed codeOf).good (codeHash, code) from hashes)
      obtain rfl := Except.ok.inj (done.symm.trans ran)
      exact ⟨⟨_, soundAfter⟩, entries⟩
  | updateStorage address location current =>
      obtain ⟨after, done, soundAfter, entries⟩ := sound.updateStorage room address location current
      obtain rfl := Except.ok.inj (done.symm.trans ran)
      exact ⟨⟨slack, soundAfter⟩, entries⟩
  | gc max =>
      obtain ⟨soundAfter, entries⟩ := sound.gc max
      cases ran
      exact ⟨⟨slack, soundAfter.later⟩, entries⟩
  | rmaccount id =>
      simp only [run, bind_ok, pure_ok] at ran
      obtain ⟨db, removed, rfl⟩ := ran
      cases found : state.db.accounts.get? id with
      | none =>
          simp only [Db.rmaccount, bind_ok, require_ok, found] at removed
          obtain ⟨_, ⟨⟩, _⟩ := removed
      | some row =>
          obtain ⟨after, done, soundAfter, entries⟩ := sound.rmaccount (by exact small) found
          obtain rfl := Except.ok.inj (done.symm.trans removed)
          exact ⟨⟨slack, soundAfter.later⟩, by simpa only [onMap, found] using entries⟩
  | rmgcstore id =>
      simp only [run, Db.rmgcstore, bind_ok, require_ok, pure_ok] at ran
      obtain ⟨_, ⟨_, _, rfl⟩, rfl⟩ := ran
      exact ⟨⟨slack, (sound.forget id fun _ => True.intro).later⟩, rfl⟩

theorem follow_refines {ops : List DbOp} {map : AccountMap}
    (sound : state.Sound (Hashed codeOf) steps limit slack) (hashes : ∀ op ∈ ops, op.Hashes codeOf)
    (few : limit + (ops.map attaches).sum < 2 ^ 32) (short : steps + ops.length < 2 ^ 64)
    (finished : foldOutcome follow ops (state, state.db.entries) = .ok (updated, map)) :
    (∃ left, updated.Sound (Hashed codeOf) (steps + ops.length) (limit + (ops.map attaches).sum) left) ∧
      updated.db.entries = map := by
  induction ops generalizing state steps limit slack with
  | nil =>
      rw [foldOutcome_nil] at finished
      obtain ⟨rfl, rfl⟩ := Prod.mk.inj finished
      exact ⟨⟨slack, sound⟩, rfl⟩
  | cons op ops ih =>
      rw [foldOutcome_cons] at finished
      obtain ⟨⟨middle, mapped⟩, followed, rest⟩ := finished
      simp only [follow, bind_ok, pure_ok, Prod.mk.injEq] at followed
      obtain ⟨_, ran, rfl, rfl⟩ := followed
      simp only [List.map_cons, List.sum_cons, List.length_cons] at few short ⊢
      obtain ⟨⟨left, soundMiddle⟩, entries⟩ := run_refines sound (hashes op (List.mem_cons_self ..)) (by omega)
        (by omega) ran
      rw [← entries] at rest
      obtain ⟨⟨after, soundAfter⟩, same⟩ := ih soundMiddle
        (fun other member => hashes other (List.mem_cons_of_mem _ member)) (by omega) (by omega) rest
      refine ⟨⟨after, ?_⟩, same⟩
      rwa [show steps + (ops.length + 1) = steps + 1 + ops.length by omega,
        show limit + (op.attaches + (ops.map attaches).sum) = limit + op.attaches + (ops.map attaches).sum by omega]

end DbOp

namespace State

/-- The caches of an object that was opened on these tables agree with them. -/
structure Coherent (rules : Db.Rules) (db : Db) (state : State) : Prop where
  same : state.db = db
  ids : ∀ address id, state.addr2id.lookup address = some id → ∃ row, db.findAccount address = some (id, row)
  codes : ∀ codeHash code, state.addr2code.lookup codeHash = some code → rules.good (codeHash, code)

variable {state : State} {db : Db} {rules : Db.Rules} {next limit : Nat} {slack : Nat → Nat}

theorem coherent_fresh (rules : Db.Rules) (readOnly allowFrozen : Bool) : (fresh db readOnly allowFrozen).Coherent rules db :=
  ⟨rfl, fun _ _ found => (by cases found), fun _ _ found => (by cases found)⟩

theorem Coherent.cacheId (coherent : state.Coherent rules db) {address : Address} {id : Nat} {row : AccountRow}
    (found : db.findAccount address = some (id, row)) : (state.cacheId address id).Coherent rules db where
  same := coherent.same
  codes := coherent.codes
  ids other cached lookup := by
    simp only [State.cacheId, List.lookup_cons] at lookup
    split at lookup
    · rename_i same
      rw [beq_iff_eq.mp same]
      exact ⟨row, Option.some.inj lookup ▸ found⟩
    · exact coherent.ids other cached lookup

theorem Coherent.cacheCode (coherent : state.Coherent rules db) {codeHash : Bytes32} {code : Bytes}
    (fits : rules.good (codeHash, code)) : (state.cacheCode codeHash code).Coherent rules db where
  same := coherent.same
  ids := coherent.ids
  codes other cached lookup := by
    simp only [State.cacheCode, List.lookup_cons] at lookup
    split at lookup
    · rename_i same
      rw [beq_iff_eq.mp same, ← Option.some.inj lookup]
      exact fits
    · exact coherent.codes other cached lookup

theorem Coherent.readAccount (coherent : state.Coherent rules db) (sound : db.Sound rules next limit slack)
    (address : Address) :
    ∃ after, state.readAccount address = .ok (db.entries.account address, after) ∧ after.Coherent rules db := by
  unfold State.readAccount AccountMap.account Db.entries
  rw [coherent.same]
  cases found : db.findAccount address with
  | none => exact ⟨state, rfl, coherent⟩
  | some pair =>
      obtain ⟨id, row⟩ := pair
      obtain ⟨present, _⟩ := Table.findBy_found found
      have thawed : row.isFrozen = false := by
        rw [AccountRow.isFrozen, (sound.live id row present).2]
        rfl
      simp only [Option.map_some]
      rw [(check_ok _ _ ()).mpr (Or.inr thawed), ok_bind]
      cases refers : row.codeId with
      | none =>
          refine ⟨state.cacheId address id, ?_, coherent.cacheId found⟩
          simp only [Db.entryOf, refers]
          rfl
      | some code =>
          obtain ⟨codeRow, inCodes⟩ := sound.code present refers
          refine ⟨(state.cacheId address id).cacheCode codeRow.codeHash codeRow.code, ?_,
            (coherent.cacheId found).cacheCode (sound.text code codeRow inCodes)⟩
          simp only [inCodes, Db.entryOf, refers, Option.bind_some, Option.map_some, Option.getD_some]
          rfl

theorem Coherent.readStorage (coherent : state.Coherent rules db) (address : Address) (location : Bytes32) :
    (state.readStorage address location).1 = db.entries.slot address location ∧
      (state.readStorage address location).2.Coherent rules db := by
  have slot : ∀ id row, db.findAccount address = some (id, row) → db.entries.slot address location =
      ((db.findSlot id location).map fun slot => slot.2.value).getD 0 := by
    intro id row found
    simp only [AccountMap.slot, Db.entries, found, Option.map_some, Option.getD_some, Db.entryOf]
  unfold State.readStorage
  rw [coherent.same]
  cases cached : state.addr2id.lookup address with
  | some id =>
      obtain ⟨row, found⟩ := coherent.ids address id cached
      rw [slot id row found]
      cases stored : db.findSlot id location with
      | none => simpa only [stored] using ⟨rfl, coherent⟩
      | some pair => simpa only [stored] using ⟨rfl, coherent⟩
  | none =>
      cases found : db.findAccount address with
      | none => exact ⟨by simp [AccountMap.slot, Db.entries, found], coherent⟩
      | some pair =>
          obtain ⟨id, row⟩ := pair
          rw [slot id row found]
          have after := coherent.cacheId found
          cases stored : db.findSlot id location with
          | none => simpa only [stored] using ⟨rfl, after⟩
          | some pair => simpa only [stored] using ⟨rfl, after⟩

theorem Coherent.readCode (coherent : state.Coherent rules db) (sound : db.Sound rules next limit slack)
    (codeHash : Bytes32) :
    (state.readCode codeHash).2.Coherent rules db ∧
      ∀ address entry, db.entries address = some entry → entry.codeHash = some codeHash →
        rules.good (codeHash, (state.readCode codeHash).1) := by
  unfold State.readCode
  rw [coherent.same]
  cases cached : state.addr2code.lookup codeHash with
  | some code => exact ⟨coherent, fun _ _ _ _ => coherent.codes codeHash code cached⟩
  | none =>
      cases found : db.findCode codeHash with
      | none =>
          refine ⟨coherent, ?_⟩
          -- the code of an account has a row
          intro address entry present hash
          obtain ⟨⟨id, row⟩, inAccounts, rfl⟩ := Option.map_eq_some_iff.mp present
          obtain ⟨codeRow, inCodes, same⟩ := Option.map_eq_some_iff.mp hash
          obtain ⟨code, _, stored⟩ := Option.bind_eq_some_iff.mp inCodes
          exact absurd same ((Table.findBy_eq_none codeHash).mp found code codeRow stored)
      | some pair =>
          obtain ⟨code, row⟩ := pair
          obtain ⟨inCodes, rfl⟩ := Table.findBy_found found
          have text : rules.good (row.codeHash, row.code) := sound.text code row inCodes
          by_cases empty : row.code.length = 0
          · simp only [if_pos empty]
            exact ⟨coherent, fun _ _ _ _ => List.length_eq_zero_iff.mp empty ▸ text⟩
          · simp only [if_neg empty]
            exact ⟨coherent.cacheCode text, fun _ _ _ _ => text⟩

theorem Coherent.reads (coherent : state.Coherent rules db) (sound : db.Sound rules next limit slack)
    (reads : List DbRead) :
    ∃ reader, foldOutcome DbRead.run reads state = .ok reader ∧ reader.Coherent rules db := by
  induction reads generalizing state with
  | nil => exact ⟨state, rfl, coherent⟩
  | cons read reads ih =>
      have step : ∃ middle, read.run state = .ok middle ∧ middle.Coherent rules db := by
        cases read with
        | account address =>
            obtain ⟨after, done, kept⟩ := coherent.readAccount sound address
            exact ⟨after, (bind_ok _ _ _).mpr ⟨_, done, rfl⟩, kept⟩
        | code codeHash => exact ⟨_, rfl, (coherent.readCode sound codeHash).1⟩
        | storage address location => exact ⟨_, rfl, (coherent.readStorage address location).2⟩
      obtain ⟨middle, ran, kept⟩ := step
      obtain ⟨reader, rest, last⟩ := ih kept
      exact ⟨reader, (foldOutcome_cons _ _ _ _ _).mpr ⟨middle, ran, rest⟩, last⟩

end State

/-- After any sequence of operations that adds fewer than `2 ^ 32` references to code and has
fewer than `2 ^ 64` steps, a fresh state object reads what the map holds, also after it
has made other reads. -/
theorem run_refines_map (codeOf : Bytes32 → Bytes) (ops : List DbOp) (state : State) (map : AccountMap)
    (hashes : ∀ op ∈ ops, op.Hashes codeOf) (few : (ops.map DbOp.attaches).sum < 2 ^ 32)
    (short : ops.length < 2 ^ 64)
    (finished : foldOutcome DbOp.follow ops (State.fresh {}, AccountMap.empty) = .ok (state, map))
    (readOnly allowFrozen : Bool) (reads : List DbRead) :
    ∃ reader, foldOutcome DbRead.run reads (State.fresh state.destroy readOnly allowFrozen) = .ok reader ∧
      (∀ address, (reader.readAccount address).map Prod.fst = .ok (map.account address)) ∧
      (∀ address location, (reader.readStorage address location).1 = map.slot address location) ∧
      ∀ address entry codeHash, map address = some entry → entry.codeHash = some codeHash →
        (reader.readCode codeHash).1 = codeOf codeHash := by
  have start : (State.fresh {}).Sound (Hashed codeOf) 0 0 (fun _ => 0) := State.sound_fresh
  obtain ⟨⟨left, sound⟩, same⟩ := DbOp.follow_refines start hashes (by omega) (by omega) (by exact finished)
  obtain ⟨reopened, entries⟩ := sound.reopen
  have soundDb := reopened.db
  obtain ⟨reader, done, coherent⟩ := (State.coherent_fresh (Hashed codeOf) readOnly allowFrozen).reads soundDb reads
  have holds : map = state.destroy.entries := same.symm.trans entries.symm
  refine ⟨reader, done, ?_, ?_, ?_⟩
  · intro address
    obtain ⟨after, read, _⟩ := coherent.readAccount soundDb address
    rw [read, holds]
    rfl
  · intro address location
    rw [holds]
    exact (coherent.readStorage address location).1
  · intro address entry codeHash present hash
    rw [holds] at present
    exact (coherent.readCode soundDb codeHash).2 address entry present hash

namespace SharedCode

/-- Two accounts with one code whose counter is given. -/
def row (address : Address) : AccountRow := { ethAddress := address, nonce := 0, codeId := some 0 }

def shared (refCount : Nat) : State where
  db := {
    accounts := (Table.empty.put 0 (row 1)).put 1 (row 2)
    codes := Table.empty.put 0 { refCount := refCount, code := [1], codeHash := 7 } }
  config2 := some 2

def attach (address : Address) : DbOp := .updateAccountCode address 7 [1]

theorem shared_attach (refCount : Nat) :
    (attach 2).run (shared refCount) = .ok (shared (Words.u32 (refCount + 1))) := rfl

theorem follow_attach (times refCount : Nat) (map : AccountMap) :
    ∃ after, foldOutcome DbOp.follow (List.replicate times (attach 2)) (shared (Words.u32 refCount), map) =
      .ok (shared (Words.u32 (refCount + times)), after) ∧ after 1 = map 1 := by
  induction times generalizing refCount map with
  | zero => exact ⟨map, rfl, rfl⟩
  | succ times ih =>
      obtain ⟨after, rest, same⟩ := ih (refCount + 1) (map.updateAccountCode 2 7)
      refine ⟨after, ?_, same.trans (Function.update_of_ne (by decide) _ _)⟩
      rw [List.replicate_succ, foldOutcome_cons]
      refine ⟨(shared (Words.u32 (refCount + 1)), map.updateAccountCode 2 7), ?_, ?_⟩
      · have step := shared_attach (Words.u32 refCount)
        rw [show Words.u32 (Words.u32 refCount + 1) = Words.u32 (refCount + 1) from Nat.mod_add_mod ..] at step
        simp only [DbOp.follow, step, ok_bind]
        rfl
      · rw [rest, show refCount + 1 + times = refCount + (times + 1) by omega]

/-- The code is attached to the first account, `2 ^ 32` times to the second, and the second
account is removed. -/
def ops : List DbOp :=
  [attach 1, attach 2] ++ List.replicate (2 ^ 32 - 1) (attach 2) ++
    [.updateAccount 2 (some ⟨0, 0, 7, 0⟩) none]

end SharedCode

/-- The removal finds a counter of one, erases the row, and the first account has no code. -/
theorem run_loses_sharedCode :
    ∃ (codeOf : Bytes32 → Bytes) (ops : List DbOp) (state : State) (map : AccountMap) (address : Address),
      (∀ op ∈ ops, op.Hashes codeOf) ∧
      foldOutcome DbOp.follow ops (State.fresh {}, AccountMap.empty) = .ok (state, map) ∧
      ((State.fresh state.destroy).readAccount address).map Prod.fst ≠ .ok (map.account address) := by
  obtain ⟨after, attached, same⟩ := SharedCode.follow_attach (2 ^ 32 - 1) 2
    ((AccountMap.empty.updateAccountCode 1 7).updateAccountCode 2 7)
  have one : Words.u32 (2 + (2 ^ 32 - 1)) = 1 := by simp [Words.u32]
  rw [one] at attached
  refine ⟨fun _ => [1], SharedCode.ops, { SharedCode.shared 1 with db := { (SharedCode.shared 1).db with
      accounts := Table.empty.put 0 (SharedCode.row 1)
      codes := Table.empty
      gcstore := Table.empty.put 0 1 } }, after.delete 2, 1, ?_, ?_, ?_⟩
  · intro op member
    simp only [SharedCode.ops, List.mem_append, List.mem_cons, List.mem_replicate, List.not_mem_nil, or_false] at member
    rcases member with ((rfl | rfl) | ⟨_, rfl⟩) | rfl
    · exact rfl
    · exact rfl
    · exact rfl
    · exact True.intro
  · rw [SharedCode.ops, foldOutcome_append]
    refine ⟨(SharedCode.shared 1, after), ?_, ?_⟩
    · rw [foldOutcome_append]
      exact ⟨_, rfl, attached⟩
    · rfl
  · have held : (after.delete 2) 1 = some { codeHash := some 7 } := by
      rw [AccountMap.delete, Function.update_of_ne (by decide), same]
      rfl
    rw [AccountMap.account, held]
    decide

theorem run_refines_map_removed :
    ∃ state map, foldOutcome DbOp.follow [.updateAccount 1 none (some ⟨1, 100, emptyHash, 0⟩),
        .updateAccountCode 1 7 [1, 2], .updateStorage 1 5 9, .updateAccountCode 2 7 [1, 2], .reopen,
        .updateAccount 1 (some ⟨1, 100, 7, 0⟩) none, .gc 1] (State.fresh {}, AccountMap.empty) = .ok (state, map) ∧
      ∃ reader, foldOutcome DbRead.run [.account 2, .storage 2 5] (State.fresh state.destroy true true) = .ok reader ∧
        (∀ address, (reader.readAccount address).map Prod.fst = .ok (map.account address)) ∧
        (∀ address location, (reader.readStorage address location).1 = map.slot address location) ∧
        ∀ address entry codeHash, map address = some entry → entry.codeHash = some codeHash →
          (reader.readCode codeHash).1 = [1, 2] := by
  obtain ⟨⟨state, map⟩, finished⟩ := exists_of_isOk (show (foldOutcome DbOp.follow
    [.updateAccount 1 none (some ⟨1, 100, emptyHash, 0⟩), .updateAccountCode 1 7 [1, 2], .updateStorage 1 5 9,
      .updateAccountCode 2 7 [1, 2], .reopen, .updateAccount 1 (some ⟨1, 100, 7, 0⟩) none, .gc 1]
    (State.fresh {}, AccountMap.empty)).isOk = true by decide +kernel)
  refine ⟨state, map, finished, run_refines_map (fun _ => [1, 2]) _ state map ?_ (by decide) (by decide) finished
    true true _⟩
  intro op member
  simp only [List.mem_cons, List.not_mem_nil, or_false] at member
  rcases member with rfl | rfl | rfl | rfl | rfl | rfl | rfl <;> trivial

end EosEvm

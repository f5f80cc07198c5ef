import EosEvm.Lib.Refs
import EosEvm.DbTotals

/-! The invariant of the tables of `state.cpp`: ids are never used twice, code rows are
counted, and the scopes of removed accounts stay apart from those of live ones. Each
way in which an operation changes the tables keeps it. -/

namespace EosEvm

open Abort Refs

namespace Db

abbrev Tallied (slack : Nat → Nat) (db : Db) : Prop :=
  Tallies AccountRow.codeId CodeRow.refCount slack db.accounts db.codes

def codeText (row : CodeRow) : Bytes32 × Bytes := (row.codeHash, row.code)

/-- What code may be stored, and which scopes may hold rows that belong to nothing. -/
structure Rules where
  good : Bytes32 × Bytes → Prop
  lost : Nat → Prop

def Owned (rules : Rules) (db : Db) (scope : Nat) : Prop :=
  (∃ row, db.accounts.get? scope = some row) ∨ (∃ key, db.gcstore.get? key = some scope) ∨ rules.lost scope

/-- The invariant, where `next` is the next account id and `limit` bounds the counters. -/
structure Sound (rules : Rules) (next limit : Nat) (slack : Nat → Nat) (db : Db) : Prop where
  addresses : db.UniqueAddress
  hashes : db.codes.Unique CodeRow.codeHash
  slots : ∀ scope, (db.storage scope).Unique StorageRow.key
  garbage : db.gcstore.Unique id
  live : ∀ account row, db.accounts.get? account = some row → account < next ∧ row.flags = 0
  dead : ∀ key account, db.gcstore.get? key = some account → account < next ∧ db.accounts.get? account = none
  vacant : ∀ scope, next ≤ scope → db.storage scope = Table.empty
  tally : db.Tallied slack
  counter : ∀ code row, db.codes.get? code = some row → 1 ≤ row.refCount ∧ row.refCount ≤ limit
  text : ∀ code row, db.codes.get? code = some row → rules.good (codeText row)
  owned : ∀ scope, db.storage scope ≠ Table.empty → db.Owned rules scope

variable {db : Db} {rules : Rules} {next limit : Nat} {slack : Nat → Nat}

theorem sound_empty : ({} : Db).Sound rules 0 0 (fun _ => 0) where
  addresses := Table.unique_empty
  hashes := Table.unique_empty
  slots _ := Table.unique_empty
  garbage := Table.unique_empty
  live _ _ found := by cases found
  dead _ _ found := by cases found
  vacant _ _ := rfl
  tally := tallies_empty
  counter _ _ found := by cases found
  text _ _ found := by cases found
  owned _ filled := absurd rfl filled

theorem Sound.findAccount_iff (sound : db.Sound rules next limit slack) {address : Address} {account : Nat}
    {row : AccountRow} :
    db.findAccount address = some (account, row) ↔ db.accounts.get? account = some row ∧ row.ethAddress = address :=
  Table.findBy_eq_some sound.addresses address account row

theorem Sound.unused (sound : db.Sound rules next limit slack) : db.accounts.get? next = none := by
  cases found : db.accounts.get? next with
  | none => rfl
  | some row => exact absurd (sound.live next row found).1 (lt_irrefl next)

theorem Sound.code (sound : db.Sound rules next limit slack) {account code : Nat} {row : AccountRow}
    (found : db.accounts.get? account = some row) (refers : row.codeId = some code) :
    ∃ codeRow, db.codes.get? code = some codeRow := by
  have positive := sound.tally.held_pos found refers
  cases present : db.codes.get? code with
  | some codeRow => exact ⟨codeRow, rfl⟩
  | none => simp [held, present] at positive

theorem Sound.create (sound : db.Sound rules next limit slack) (row : AccountRow) (plain : row.codeId = none)
    (thawed : row.flags = 0) (absent : db.findAccount row.ethAddress = none) :
    ({ db with accounts := db.accounts.put next row } : Db).Sound rules (next + 1) limit slack where
  addresses := Table.unique_put sound.addresses next absent
  hashes := sound.hashes
  slots := sound.slots
  garbage := sound.garbage
  live account stored found := by
    simp only [Table.get?_put] at found
    split at found
    · rename_i same
      cases found
      exact ⟨by omega, thawed⟩
    · have below := sound.live account stored found
      exact ⟨by omega, below.2⟩
  dead key account found := by
    have below := sound.dead key account found
    refine ⟨by omega, ?_⟩
    rw [Table.get?_put, if_neg (by omega)]
    exact below.2
  vacant scope above := sound.vacant scope (by omega)
  tally := sound.tally.put sound.unused plain
  counter := sound.counter
  text := sound.text
  owned scope filled := by
    rcases sound.owned scope filled with ⟨stored, present⟩ | dead
    · by_cases same : next = scope
      · exact Or.inl ⟨row, by simp [same]⟩
      · exact Or.inl ⟨stored, by simp [same, present]⟩
    · exact Or.inr dead

theorem Owned.modify {scope : Nat} (owned : db.Owned rules scope) (account : Nat) (change : AccountRow → AccountRow)
    {codes : Table Nat CodeRow} :
    ({ db with codes := codes, accounts := db.accounts.modify account change } : Db).Owned rules scope := by
  rcases owned with ⟨stored, present⟩ | dead
  · by_cases same : account = scope
    · exact Or.inl ⟨change stored, by simp [same, present]⟩
    · exact Or.inl ⟨stored, by simp [same, present]⟩
  · exact Or.inr dead

theorem Sound.edit (sound : db.Sound rules next limit slack) {account : Nat} {row : AccountRow}
    (found : db.accounts.get? account = some row) (change : AccountRow → AccountRow)
    (address : ∀ row, (change row).ethAddress = row.ethAddress) (code : ∀ row, (change row).codeId = row.codeId)
    (flags : ∀ row, (change row).flags = row.flags) :
    ({ db with accounts := db.accounts.modify account change } : Db).Sound rules next limit slack where
  addresses := Table.unique_modify sound.addresses account address
  hashes := sound.hashes
  slots := sound.slots
  garbage := sound.garbage
  live other stored present := by
    simp only [Table.get?_modify] at present
    split at present
    · obtain ⟨old, before, rfl⟩ := Option.map_eq_some_iff.mp present
      have kept := sound.live other old before
      exact ⟨kept.1, (flags old).trans kept.2⟩
    · exact sound.live other stored present
  dead key other present := by
    have kept := sound.dead key other present
    refine ⟨kept.1, ?_⟩
    rw [Table.get?_modify]
    split <;> simp [kept.2]
  vacant := sound.vacant
  tally := sound.tally.modify found (code row)
  counter := sound.counter
  text := sound.text
  owned scope filled := (sound.owned scope filled).modify account change

section Codes

variable {codes after : Table Nat CodeRow}

theorem releaseCode_ok {codeId : Option Nat} (released : releaseCode codes codeId = .ok after) :
    codeId = none ∧ after = codes ∨ ∃ code row, codeId = some code ∧ codes.get? code = some row ∧
      (row.refCount = 1 ∧ after = codes.erase code ∨
        ∃ drop : CodeRow → CodeRow, row.refCount ≠ 1 ∧ after = codes.modify code drop ∧
          (∀ row, codeText (drop row) = codeText row) ∧
          (drop row).refCount = Words.u32 (row.refCount + 2 ^ 32 - 1)) := by
  cases codeId with
  | none => exact Or.inl ⟨rfl, (Except.ok.inj released).symm⟩
  | some code =>
      simp only [releaseCode, bind_ok, require_ok] at released
      obtain ⟨row, found, released⟩ := released
      refine Or.inr ⟨code, row, rfl, found, ?_⟩
      split at released
      · rename_i several
        exact Or.inr ⟨_, several, ((pure_ok _ _).mp released).symm, fun _ => by simp only [codeText], by simp only⟩
      · rename_i last
        exact Or.inl ⟨not_not.mp last, ((pure_ok _ _).mp released).symm⟩

/-- One reference is dropped, and what rows stay keep their text. -/
structure Releases (limit : Nat) (codes after : Table Nat CodeRow) (codeId : Option Nat) : Prop where
  dropped : ∀ code, held CodeRow.refCount after code + unit codeId code = held CodeRow.refCount codes code
  kept : ∀ code row, after.get? code = some row →
    ∃ old, codes.get? code = some old ∧ codeText row = codeText old
  counter : ∀ code row, after.get? code = some row → 1 ≤ row.refCount ∧ row.refCount ≤ limit

theorem releaseCode_releases {codeId : Option Nat}
    (counter : ∀ code row, codes.get? code = some row → 1 ≤ row.refCount ∧ row.refCount ≤ limit)
    (small : limit < 2 ^ 32) (released : releaseCode codes codeId = .ok after) :
    Releases limit codes after codeId := by
  rcases releaseCode_ok released with
    ⟨rfl, rfl⟩ | ⟨code, row, rfl, found, ⟨last, rfl⟩ | ⟨drop, several, rfl, text, fewer⟩⟩
  · exact ⟨fun _ => rfl, fun code row present => ⟨row, present, rfl⟩, counter⟩
  · refine ⟨?_, ?_, ?_⟩
    · intro other
      by_cases same : code = other
      · subst same
        simp [held, found, last, unit_self]
      · simp [held, unit, same]
    · intro other stored present
      simp only [Table.get?_erase] at present
      split at present
      · cases present
      · exact ⟨stored, present, rfl⟩
    · intro other stored present
      simp only [Table.get?_erase] at present
      split at present
      · cases present
      · exact counter other stored present
  · obtain ⟨positive, bounded⟩ := counter code row found
    replace fewer : (drop row).refCount = row.refCount - 1 := by
      rw [fewer]
      simp only [Words.u32]
      omega
    refine ⟨?_, ?_, ?_⟩
    · intro other
      by_cases same : code = other
      · subst same
        simp only [held, Table.get?_modify, if_true, found, Option.map_some, Option.getD_some, fewer, unit_self]
        omega
      · simp [held, unit, same]
    · intro other stored present
      simp only [Table.get?_modify] at present
      split at present
      · obtain ⟨old, before, rfl⟩ := Option.map_eq_some_iff.mp present
        exact ⟨old, before, text old⟩
      · exact ⟨stored, present, rfl⟩
    · intro other stored present
      simp only [Table.get?_modify] at present
      split at present
      · rename_i same
        subst same
        simp only [found, Option.map_some, Option.some.injEq] at present
        rw [← present, fewer]
        omega
      · exact counter other stored present

theorem releaseCode_total {codeId : Option Nat}
    (present : ∀ code, codeId = some code → ∃ row, codes.get? code = some row) :
    ∃ after, releaseCode codes codeId = .ok after := by
  cases codeId with
  | none => exact ⟨codes, rfl⟩
  | some code =>
      obtain ⟨row, found⟩ := present code rfl
      simp only [releaseCode, bind_ok, require_ok, found, Option.some.injEq, exists_eq_left']
      split
      · exact ⟨_, (pure_ok _ _).mpr rfl⟩
      · exact ⟨_, (pure_ok _ _).mpr rfl⟩

theorem Releases.unique {codeId : Option Nat} (released : Releases limit codes after codeId)
    (unique : codes.Unique CodeRow.codeHash) : after.Unique CodeRow.codeHash := by
  intro left first right second presentLeft presentRight same
  obtain ⟨oldLeft, beforeLeft, textLeft⟩ := released.kept left first presentLeft
  obtain ⟨oldRight, beforeRight, textRight⟩ := released.kept right second presentRight
  refine unique _ _ _ _ beforeLeft beforeRight ?_
  exact (Prod.mk.inj textLeft).1.symm.trans (same.trans (Prod.mk.inj textRight).1)

/-- One reference is added to the row of a hash, and all rows keep their text. -/
structure Attaches (limit : Nat) (codes after : Table Nat CodeRow) (code : Nat) (codeHash : Bytes32)
    (bytes : Bytes) : Prop where
  added : ∀ other, held CodeRow.refCount after other = held CodeRow.refCount codes other + unit (some code) other
  kept : ∀ other row, codes.get? other = some row → ∃ new, after.get? other = some new ∧ codeText new = codeText row
  here : ∃ row, after.get? code = some row ∧ row.codeHash = codeHash
  source : ∀ other row, after.get? other = some row →
    codeText row = (codeHash, bytes) ∨ ∃ old, codes.get? other = some old ∧ codeText row = codeText old
  counter : ∀ other row, after.get? other = some row → 1 ≤ row.refCount ∧ row.refCount ≤ limit + 1
  unique : after.Unique CodeRow.codeHash

theorem attachCode_ok {found : Option (Nat × CodeRow)} {codeHash : Bytes32} {bytes : Bytes} {code : Nat}
    (attached : State.attachCode codes found codeHash bytes = .ok (code, after)) :
    found = none ∧ codes.get? code = none ∧
        after = codes.put code { refCount := 1, code := bytes, codeHash := codeHash } ∨
      ∃ (row : CodeRow) (add : CodeRow → CodeRow), found = some (code, row) ∧ after = codes.modify code add ∧
        (∀ row, codeText (add row) = codeText row) ∧ ∀ row, (add row).refCount = Words.u32 (row.refCount + 1) := by
  cases found with
  | none =>
      simp only [State.attachCode, bind_ok, Table.emplace_ok, pure_ok, Prod.mk.injEq] at attached
      obtain ⟨stored, ⟨absent, rfl⟩, rfl, rfl⟩ := attached
      exact Or.inl ⟨rfl, absent, rfl⟩
  | some row =>
      simp only [State.attachCode, pure_ok, Prod.mk.injEq] at attached
      obtain ⟨rfl, rfl⟩ := attached
      exact Or.inr ⟨row.2, _, rfl, rfl, fun _ => by simp only [codeText], fun _ => by simp only⟩

theorem attachCode_total (codes : Table Nat CodeRow) (found : Option (Nat × CodeRow)) (codeHash : Bytes32)
    (bytes : Bytes) : ∃ code after, State.attachCode codes found codeHash bytes = .ok (code, after) := by
  cases found with
  | none =>
      simp only [State.attachCode, bind_ok, Table.emplace_ok, pure_ok, Prod.mk.injEq]
      exact ⟨_, _, _, ⟨Table.get?_availablePrimaryKey _, rfl⟩, rfl, rfl⟩
  | some row => exact ⟨_, _, rfl⟩

theorem attachCode_attaches {codeHash : Bytes32} {bytes : Bytes} {code : Nat}
    (unique : codes.Unique CodeRow.codeHash)
    (counter : ∀ code row, codes.get? code = some row → 1 ≤ row.refCount ∧ row.refCount ≤ limit)
    (small : limit + 1 < 2 ^ 32)
    (attached : State.attachCode codes (codes.findBy CodeRow.codeHash codeHash) codeHash bytes = .ok (code, after)) :
    Attaches limit codes after code codeHash bytes := by
  rcases attachCode_ok attached with ⟨missing, absent, rfl⟩ | ⟨row, add, found, rfl, text, more⟩
  · refine ⟨?_, ?_, ⟨{ refCount := 1, code := bytes, codeHash := codeHash }, by simp, rfl⟩, ?_, ?_,
      Table.unique_put unique code missing⟩
    · intro other
      by_cases same : code = other
      · subst same
        simp [held, absent, unit_self]
      · simp [held, unit, same]
    · intro other row present
      have apart : code ≠ other := by
        rintro rfl
        rw [absent] at present
        cases present
      exact ⟨row, by simp [apart, present], rfl⟩
    · intro other row present
      simp only [Table.get?_put] at present
      split at present
      · cases present
        exact Or.inl rfl
      · exact Or.inr ⟨row, present, rfl⟩
    · intro other row present
      simp only [Table.get?_put] at present
      split at present
      · cases present
        exact ⟨le_rfl, Nat.le_add_left 1 limit⟩
      · have before := counter other row present
        exact ⟨before.1, by omega⟩
  · obtain ⟨present, hash⟩ := Table.findBy_found found
    have modified : ∀ other stored, (codes.modify code add).get? other = some stored →
        ∃ old, codes.get? other = some old ∧ (stored = old ∨ stored = add old) := by
      intro other stored change
      simp only [Table.get?_modify] at change
      split at change
      · obtain ⟨old, before, rfl⟩ := Option.map_eq_some_iff.mp change
        exact ⟨old, before, Or.inr rfl⟩
      · exact ⟨stored, change, Or.inl rfl⟩
    have counted : ∀ other old, codes.get? other = some old → (add old).refCount = old.refCount + 1 := by
      intro other old before
      have bounded := counter other old before
      rw [more]
      simp only [Words.u32]
      omega
    have sameHash : ∀ row, (add row).codeHash = row.codeHash := fun row => (Prod.mk.inj (text row)).1
    refine ⟨?_, ?_, ⟨add row, by simp [present], (sameHash row).trans hash⟩, ?_, ?_,
      Table.unique_modify unique code sameHash⟩
    · intro other
      by_cases same : code = other
      · subst same
        simp [held, present, unit_self, counted _ _ present]
      · simp [held, unit, same]
    · intro other old before
      by_cases same : code = other
      · exact ⟨add old, by simp [same, before], text old⟩
      · exact ⟨old, by simp [same, before], rfl⟩
    · intro other stored change
      obtain ⟨old, before, rfl | rfl⟩ := modified other stored change
      · exact Or.inr ⟨_, before, rfl⟩
      · exact Or.inr ⟨old, before, text old⟩
    · intro other stored change
      obtain ⟨old, before, rfl | rfl⟩ := modified other stored change
      · have bounded := counter other _ before
        exact ⟨bounded.1, by omega⟩
      · have bounded := counter other old before
        rw [counted other old before]
        omega

end Codes

theorem Sound.remove (sound : db.Sound rules next limit slack) (small : limit < 2 ^ 32) {account : Nat} (key : Nat)
    {row : AccountRow} {codes : Table Nat CodeRow} (found : db.accounts.get? account = some row)
    (unused : db.gcstore.get? key = none) (released : releaseCode db.codes row.codeId = .ok codes) :
    ({ db with
      gcstore := db.gcstore.put key account
      codes := codes
      accounts := db.accounts.erase account } : Db).Sound rules next limit slack := by
  have releases := releaseCode_releases sound.counter small released
  refine ⟨Table.unique_erase sound.addresses account, releases.unique sound.hashes, sound.slots,
    Table.unique_put sound.garbage key ?_, ?_, ?_, sound.vacant, sound.tally.release found releases.dropped,
    releases.counter, ?_, ?_⟩
  · rw [Table.findBy_eq_none]
    rintro other dead present rfl
    have gone := (sound.dead other dead present).2
    rw [show db.accounts.get? dead = some row from found] at gone
    cases gone
  · intro other stored present
    simp only [Table.get?_erase] at present
    split at present
    · cases present
    · exact sound.live other stored present
  · intro other dead present
    simp only [Table.get?_put] at present
    split at present
    · cases present
      exact ⟨(sound.live account row found).1, by simp⟩
    · have kept := sound.dead other dead present
      exact ⟨kept.1, by simp [kept.2]⟩
  · intro code stored present
    obtain ⟨old, before, same⟩ := releases.kept code stored present
    exact same ▸ sound.text code old before
  · intro scope filled
    by_cases same : account = scope
    · exact Or.inr (Or.inl ⟨key, by simp [same]⟩)
    · rcases sound.owned scope filled with ⟨stored, present⟩ | ⟨other, present⟩ | lost
      · exact Or.inl ⟨stored, by simp [same, present]⟩
      · have apart : key ≠ other := by
          rintro rfl
          rw [unused] at present
          cases present
        exact Or.inr (Or.inl ⟨other, by simp [apart, present]⟩)
      · exact Or.inr (Or.inr lost)

theorem Sound.attach (sound : db.Sound rules next limit slack) (small : limit + 1 < 2 ^ 32) {account code : Nat}
    {row : AccountRow} {codeHash : Bytes32} {bytes : Bytes} {codes : Table Nat CodeRow}
    (found : db.accounts.get? account = some row) (fits : rules.good (codeHash, bytes))
    (attached : State.attachCode db.codes (db.findCode codeHash) codeHash bytes = .ok (code, codes)) :
    ({ db with
      codes := codes
      accounts := db.accounts.modify account fun row => { row with codeId := some code } } : Db).Sound rules next
        (limit + 1) fun other => slack other + unit row.codeId other := by
  have attaches := attachCode_attaches sound.hashes sound.counter small attached
  refine ⟨Table.unique_modify sound.addresses account (fun _ => rfl), attaches.unique, sound.slots, sound.garbage,
    ?_, ?_, sound.vacant, sound.tally.attach found attaches.added, attaches.counter, ?_,
    fun scope filled => (sound.owned scope filled).modify account _⟩
  · intro other stored present
    simp only [Table.get?_modify] at present
    split at present
    · obtain ⟨old, before, rfl⟩ := Option.map_eq_some_iff.mp present
      exact sound.live other old before
    · exact sound.live other stored present
  · intro key dead present
    have kept := sound.dead key dead present
    refine ⟨kept.1, ?_⟩
    simp only [Table.get?_modify, kept.2]
    split <;> rfl
  · intro other stored present
    rcases attaches.source other stored present with new | ⟨old, before, same⟩
    · exact new ▸ fits
    · exact same ▸ sound.text other old before

theorem Sound.setScope (sound : db.Sound rules next limit slack) {scope : Nat} (used : scope < next)
    (owned : db.Owned rules scope) {rows : Table Nat StorageRow} (unique : rows.Unique StorageRow.key) :
    (db.setScope scope rows).Sound rules next limit slack where
  addresses := sound.addresses
  hashes := sound.hashes
  slots other := by
    by_cases same : other = scope
    · subst same
      simpa [Db.setScope] using unique
    · simpa [Db.setScope, same] using sound.slots other
  garbage := sound.garbage
  live := sound.live
  dead := sound.dead
  vacant other above := by
    simp only [Db.setScope]
    rw [Function.update_of_ne (by omega)]
    exact sound.vacant other above
  tally := sound.tally
  counter := sound.counter
  text := sound.text
  owned other filled := by
    by_cases same : other = scope
    · exact same ▸ owned
    · simp only [Db.setScope, Function.update_of_ne same] at filled
      exact sound.owned other filled

theorem Sound.forget (sound : db.Sound rules next limit slack) (key : Nat)
    (done : ∀ scope, db.gcstore.get? key = some scope → db.storage scope = Table.empty ∨ rules.lost scope) :
    ({ db with gcstore := db.gcstore.erase key } : Db).Sound rules next limit slack where
  addresses := sound.addresses
  hashes := sound.hashes
  slots := sound.slots
  garbage := Table.unique_erase sound.garbage key
  live := sound.live
  dead other account present := by
    simp only [Table.get?_erase] at present
    split at present
    · cases present
    · exact sound.dead other account present
  vacant := sound.vacant
  tally := sound.tally
  counter := sound.counter
  text := sound.text
  owned scope filled := by
    rcases sound.owned scope filled with live | ⟨other, present⟩ | lost
    · exact Or.inl live
    · by_cases same : key = other
      · rcases done scope (same ▸ present) with empty | lost
        · exact absurd empty filled
        · exact Or.inr (Or.inr lost)
      · exact Or.inr (Or.inl ⟨other, by simp [same, present]⟩)
    · exact Or.inr (Or.inr lost)

end Db

end EosEvm

import EosEvm.DbCore

/-! The balances in the account table. Every state operation rewrites the row of its own
address only, and writing back a run changes the sum of all balances by what the run
changed. -/

namespace EosEvm

open Abort

namespace Db

abbrev UniqueAddress (db : Db) : Prop := db.accounts.Unique AccountRow.ethAddress

/-- The sum of all EVM balances. -/
def balanceTotal (db : Db) : Nat := db.accounts.total AccountRow.balance

def balanceAt (db : Db) (address : Address) : Nat :=
  ((db.findAccount address).map fun row => row.2.balance).getD 0

abbrev RewritesAt (before after : Db) (address : Address) (row : Option AccountRow) : Prop :=
  Table.Rewrites AccountRow.ethAddress before.accounts after.accounts address row

variable {db after : Db}

theorem removeAccount_ok {id : Nat} {row : AccountRow} (removed : db.removeAccount id row = .ok after) :
    ∃ gcstore codes, db.gcstore.emplace db.gcstore.availablePrimaryKey id = .ok gcstore ∧
      releaseCode db.codes row.codeId = .ok codes ∧
      after = { db with gcstore := gcstore, codes := codes, accounts := db.accounts.erase id } := by
  simp only [removeAccount, bind_ok, pure_ok] at removed
  obtain ⟨gcstore, emplaced, codes, released, rfl⟩ := removed
  exact ⟨gcstore, codes, emplaced, released, rfl⟩

theorem gcLoop_accounts (rounds budget : Nat) (db : Db) : (gcLoop rounds budget db).accounts = db.accounts := by
  induction rounds generalizing budget db with
  | zero => rfl
  | succ rounds ih =>
      simp only [gcLoop]
      split
      · rfl
      · split
        · rfl
        · split
          · rfl
          · rw [ih]
            rfl

end Db

namespace State

variable {state updated : State}

theorem emplaceAccount_ok {row : AccountRow} (emplaced : state.emplaceAccount row = .ok updated) :
    state.db.accounts.get? state.getNextAccountId.1 = none ∧
      updated = { state with
        config2 := some (Words.u64 (state.getNextAccountId.1 + 1))
        db := { state.db with accounts := state.db.accounts.put state.getNextAccountId.1 row } } := by
  simp only [emplaceAccount, bind_ok, pure_ok, Table.emplace_ok] at emplaced
  obtain ⟨accounts, ⟨absent, rfl⟩, rfl⟩ := emplaced
  exact ⟨absent, rfl⟩

theorem emplaceAccount_rewrites (unique : state.db.UniqueAddress) {row : AccountRow}
    (fresh : state.db.findAccount row.ethAddress = none) (emplaced : state.emplaceAccount row = .ok updated) :
    state.db.RewritesAt updated.db row.ethAddress (some row) := by
  obtain ⟨absent, rfl⟩ := emplaceAccount_ok emplaced
  exact Table.rewrites_put unique absent fresh

theorem removeAccount_rewrites {db after : Db} (unique : db.UniqueAddress) {address : Address} {id : Nat}
    {row : AccountRow} (found : db.findAccount address = some (id, row))
    (removed : db.removeAccount id row = .ok after) : db.RewritesAt after address none := by
  obtain ⟨gcstore, codes, _, _, rfl⟩ := Db.removeAccount_ok removed
  exact Table.rewrites_erase unique found

theorem updateAccount_rewrites (unique : state.db.UniqueAddress) {address : Address}
    {initial current : Option Account} (update : state.updateAccount address initial current = .ok updated) :
    current = initial ∧ updated = state ∨
      ∃ row, state.db.RewritesAt updated.db address row ∧
        row.map (fun row => (row.nonce, row.balance)) = current.map fun account => (account.nonce, account.balance) := by
  simp only [updateAccount, bind_ok, check_ok, exists_const] at update
  obtain ⟨_, update⟩ := update
  split at update
  · rename_i same
    rw [pure_ok] at update
    exact Or.inl ⟨same, update.symm⟩
  · refine Or.inr ?_
    cases found : state.db.findAccount address with
    | none =>
        cases current with
        | some account =>
            simp only [found] at update
            exact ⟨_, emplaceAccount_rewrites unique found update, rfl⟩
        | none =>
            simp only [found, pure_ok] at update
            subst update
            refine ⟨none, ?_, rfl⟩
            have unchanged := Table.rewrites_refl unique address
            rw [show state.db.accounts.findBy AccountRow.ethAddress address = none from found] at unchanged
            exact unchanged
    | some stored =>
        obtain ⟨id, row⟩ := stored
        cases current with
        | some account =>
            simp only [found] at update
            split at update
            · rw [bind_ok] at update
              obtain ⟨db, removed, emplaced⟩ := update
              have erased := removeAccount_rewrites unique found removed
              have absent : db.findAccount address = none := Option.map_eq_none_iff.mp erased.here
              exact ⟨_, erased.trans (emplaceAccount_rewrites erased.unique absent emplaced), rfl⟩
            · rw [pure_ok] at update
              subst update
              exact ⟨some { row with nonce := account.nonce, balance := account.balance },
                Table.rewrites_modify unique (fun row : AccountRow =>
                  { row with nonce := account.nonce, balance := account.balance }) (fun _ => rfl) found, rfl⟩
        | none =>
            simp only [found, bind_ok, pure_ok] at update
            obtain ⟨db, removed, rfl⟩ := update
            exact ⟨none, removeAccount_rewrites unique found removed, rfl⟩

theorem updateAccountCode_rewrites (unique : state.db.UniqueAddress) {address : Address} {codeHash : Bytes32}
    {code : Bytes} (update : state.updateAccountCode address codeHash code = .ok updated) :
    ∃ row, state.db.RewritesAt updated.db address (some row) ∧ row.balance = state.db.balanceAt address := by
  simp only [updateAccountCode, bind_ok, check_ok, exists_const] at update
  obtain ⟨_, attached, _, update⟩ := update
  split at update
  · rename_i id row found
    rw [pure_ok] at update
    subst update
    refine ⟨{ row with codeId := some attached.1 }, Table.rewrites_modify unique
      (fun row : AccountRow => { row with codeId := some attached.1 }) (fun _ => rfl) found, ?_⟩
    simp [Db.balanceAt, found]
  · rename_i absent
    obtain ⟨vacant, rfl⟩ := emplaceAccount_ok update
    refine ⟨{ ethAddress := address, nonce := 0, codeId := some attached.1 },
      Table.rewrites_put unique vacant absent, ?_⟩
    simp [Db.balanceAt, absent]

theorem storeSlot_accounts {db after : Db} {scope : Nat} {location current : Bytes32}
    (stored : storeSlot db scope location current = .ok after) : after.accounts = db.accounts := by
  simp only [storeSlot] at stored
  split at stored
  · simp only [bind_ok, pure_ok] at stored
    obtain ⟨_, _, rfl⟩ := stored
    rfl
  · rw [pure_ok] at stored
    subst stored
    rfl

theorem updateStorage_rewrites (unique : state.db.UniqueAddress) {address : Address} {location current : Bytes32}
    (update : state.updateStorage address location current = .ok updated) :
    ∃ row, state.db.RewritesAt updated.db address row ∧
      (row.map AccountRow.balance).getD 0 = state.db.balanceAt address := by
  have unchanged : updated.db.accounts = state.db.accounts → ∃ row, state.db.RewritesAt updated.db address row ∧
      (row.map AccountRow.balance).getD 0 = state.db.balanceAt address := by
    intro same
    unfold Db.RewritesAt
    rw [same]
    refine ⟨_, Table.rewrites_refl unique address, ?_⟩
    simp [Db.balanceAt, Db.findAccount, Option.map_map, Function.comp_def]
  simp only [updateStorage, bind_ok, check_ok, exists_const] at update
  obtain ⟨_, update⟩ := update
  split at update
  · split at update
    · rw [pure_ok] at update
      exact unchanged (by rw [update])
    · split at update
      · rw [pure_ok] at update
        exact unchanged (by rw [update])
      · rw [pure_ok] at update
        subst update
        exact unchanged rfl
  · split at update
    · rename_i absent
      simp only [bind_ok, pure_ok] at update
      obtain ⟨created, emplaced, db, stored, rfl⟩ := update
      have rewritten := emplaceAccount_rewrites unique absent emplaced
      unfold Db.RewritesAt at rewritten ⊢
      refine ⟨some { ethAddress := address, nonce := 0 }, ?_, by simp [Db.balanceAt, absent]⟩
      simp only [storeSlot_accounts stored]
      exact rewritten
    · simp only [bind_ok, pure_ok] at update
      obtain ⟨db, stored, rfl⟩ := update
      exact unchanged (storeSlot_accounts stored)

end State

/-- One address now has the given balance, all others have the balance they had. -/
structure Db.Rebalanced (before after : Db) (address : Address) (balance : Nat) : Prop where
  unique : after.UniqueAddress
  here : after.balanceAt address = balance
  elsewhere : ∀ other, other ≠ address → after.balanceAt other = before.balanceAt other
  total : after.balanceTotal + before.balanceAt address = before.balanceTotal + balance

theorem Db.RewritesAt.rebalanced {before after : Db} {address : Address} {row : Option AccountRow}
    (rewritten : before.RewritesAt after address row) :
    before.Rebalanced after address ((row.map AccountRow.balance).getD 0) where
  unique := rewritten.unique
  here := by
    rw [← rewritten.here, Option.map_map]
    rfl
  elsewhere other apart := by
    have same : after.findAccount other = before.findAccount other := rewritten.elsewhere other apart
    rw [Db.balanceAt, same, Db.balanceAt]
  total := rewritten.total AccountRow.balance

theorem Db.Rebalanced.refl {db : Db} (unique : db.UniqueAddress) (address : Address) :
    db.Rebalanced db address (db.balanceAt address) :=
  ⟨unique, rfl, fun _ _ => rfl, rfl⟩

theorem Db.Rebalanced.trans {first second third : Db} {address : Address} {middle last : Nat}
    (one : first.Rebalanced second address middle) (two : second.Rebalanced third address last) :
    first.Rebalanced third address last where
  unique := two.unique
  here := two.here
  elsewhere other apart := (two.elsewhere other apart).trans (one.elsewhere other apart)
  total := by
    have totalOne := one.total
    have totalTwo := two.total
    rw [one.here] at totalTwo
    omega

namespace DbWrite

def balanceOf (account : Option Account) : Nat := (account.map Account.balance).getD 0

def StartsFrom (db : Db) : DbWrite → Prop
  | object address initial _ _ => balanceOf initial = db.balanceAt address
  | storage _ _ _ => True

def initialTotal (writes : List DbWrite) : Nat :=
  (writes.map fun write => match write with
    | object _ initial _ _ => balanceOf initial
    | storage _ _ _ => 0).sum

def currentTotal (writes : List DbWrite) : Nat :=
  (writes.map fun write => match write with
    | object _ _ current _ => balanceOf current
    | storage _ _ _ => 0).sum

variable {state updated : State}

theorem apply_object (unique : state.db.UniqueAddress) {address : Address} {initial current : Option Account}
    {code : Bytes} (starts : balanceOf initial = state.db.balanceAt address)
    (applied : apply state (object address initial current code) = .ok updated) :
    state.db.Rebalanced updated.db address (balanceOf current) := by
  simp only [apply, bind_ok] at applied
  obtain ⟨middle, update, applied⟩ := applied
  have first : state.db.Rebalanced middle.db address (balanceOf current) := by
    rcases State.updateAccount_rewrites unique update with ⟨rfl, rfl⟩ | ⟨row, rewritten, same⟩
    · rw [starts]
      exact Db.Rebalanced.refl unique address
    · have balances := congrArg (Option.map Prod.snd) same
      simp only [Option.map_map] at balances
      have rebalanced := Db.RewritesAt.rebalanced rewritten
      have equal : (row.map AccountRow.balance).getD 0 = balanceOf current := congrArg (Option.getD · 0) balances
      rwa [equal] at rebalanced
  have plain : middle = updated → state.db.Rebalanced updated.db address (balanceOf current) := by
    rintro rfl
    exact first
  split at applied
  · split at applied
    · obtain ⟨row, rewritten, balance⟩ := State.updateAccountCode_rewrites first.unique applied
      have second := Db.RewritesAt.rebalanced rewritten
      rw [Option.map_some, Option.getD_some, balance, first.here] at second
      exact first.trans second
    · exact plain ((pure_ok _ _).mp applied)
  · exact plain ((pure_ok _ _).mp applied)

theorem apply_storage (unique : state.db.UniqueAddress) {address : Address} {location current : Bytes32}
    (applied : apply state (storage address location current) = .ok updated) :
    state.db.Rebalanced updated.db address (state.db.balanceAt address) := by
  obtain ⟨row, rewritten, same⟩ := State.updateStorage_rewrites unique applied
  have rebalanced := Db.RewritesAt.rebalanced rewritten
  rwa [same] at rebalanced

theorem startsFrom_kept {before after : Db} {writes : List DbWrite}
    (starts : ∀ write ∈ writes, write.StartsFrom before)
    (kept : ∀ address ∈ writes.filterMap object?, after.balanceAt address = before.balanceAt address) :
    ∀ write ∈ writes, write.StartsFrom after := by
  intro write member
  have start := starts write member
  cases write with
  | storage => trivial
  | object address initial current code =>
      exact start.trans (kept address (List.mem_filterMap.mpr ⟨_, member, rfl⟩)).symm

theorem fold_total {writes : List DbWrite} (unique : state.db.UniqueAddress)
    (distinct : (writes.filterMap object?).Nodup) (starts : ∀ write ∈ writes, write.StartsFrom state.db)
    (folded : foldOutcome apply writes state = .ok updated) :
    updated.db.UniqueAddress ∧
      updated.db.balanceTotal + initialTotal writes = state.db.balanceTotal + currentTotal writes := by
  induction writes generalizing state with
  | nil =>
      rw [foldOutcome_nil] at folded
      subst folded
      exact ⟨unique, rfl⟩
  | cons write writes ih =>
      rw [foldOutcome_cons] at folded
      obtain ⟨middle, applied, rest⟩ := folded
      cases write with
      | object address initial current code =>
          have startsHere := starts _ (List.mem_cons_self ..)
          have step := apply_object unique startsHere applied
          simp only [List.filterMap_cons, object?, List.nodup_cons] at distinct
          have startsRest : ∀ other ∈ writes, other.StartsFrom middle.db :=
            startsFrom_kept (fun other member => starts other (List.mem_cons_of_mem _ member))
              fun elsewhere member => step.elsewhere elsewhere fun same => distinct.1 (same ▸ member)
          obtain ⟨uniqueAfter, total⟩ := ih step.unique distinct.2 startsRest rest
          have totalStep := step.total
          simp only [StartsFrom] at startsHere
          refine ⟨uniqueAfter, ?_⟩
          simp only [initialTotal, currentTotal, List.map_cons, List.sum_cons] at total ⊢
          omega
      | storage address location current =>
          have step := apply_storage unique applied
          have startsRest : ∀ other ∈ writes, other.StartsFrom middle.db := by
            refine startsFrom_kept (fun other member => starts other (List.mem_cons_of_mem _ member)) ?_
            intro elsewhere _
            by_cases same : elsewhere = address
            · subst same
              exact step.here
            · exact step.elsewhere elsewhere same
          obtain ⟨uniqueAfter, total⟩ := ih step.unique distinct startsRest rest
          have totalStep := step.total
          refine ⟨uniqueAfter, ?_⟩
          simp only [initialTotal, currentTotal, List.map_cons, List.sum_cons] at total ⊢
          omega

theorem applyAll_total {db after : Db} {writes : List DbWrite} (unique : db.UniqueAddress)
    (distinct : (writes.filterMap object?).Nodup) (starts : ∀ write ∈ writes, write.StartsFrom db)
    (applied : applyAll db writes = .ok after) :
    after.UniqueAddress ∧ after.balanceTotal + initialTotal writes = db.balanceTotal + currentTotal writes := by
  simp only [applyAll, bind_ok, pure_ok] at applied
  obtain ⟨written, folded, rfl⟩ := applied
  have same : written.destroy.accounts = written.db.accounts := by
    unfold State.destroy
    split <;> rfl
  have total := fold_total unique distinct starts folded
  unfold Db.UniqueAddress Db.balanceTotal at total ⊢
  rwa [same]

end DbWrite

end EosEvm

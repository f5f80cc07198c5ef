import Mathlib.Algebra.BigOperators.Group.Finset.Piecewise
import EosEvm.StateMap

/-! Garbage collection. The two nested loops erase one row after the other, so that a run
with a budget is that many single steps, and budgets add up. -/

namespace EosEvm.Db

def gcOnce (db : Db) : Db :=
  match db.gcstore.first? with
  | none => db
  | some (id, storageId) =>
      match (db.storage storageId).first? with
      | some row => db.setScope storageId ((db.storage storageId).erase row.1)
      | none => { db with gcstore := db.gcstore.erase id }

theorem setScope_self (db : Db) (scope : Nat) : db.setScope scope (db.storage scope) = db := by
  rw [setScope, Function.update_eq_self]

theorem setScope_twice (db : Db) (scope : Nat) (first second : Table Nat StorageRow) :
    (db.setScope scope first).setScope scope second = db.setScope scope second := by
  rw [setScope, setScope, setScope, Function.update_idem]

theorem storage_setScope (db : Db) (scope : Nat) (rows : Table Nat StorageRow) :
    (db.setScope scope rows).storage scope = rows := Function.update_self ..

theorem gcScope_eq_iterate (budget : Nat) {db : Db} {id storageId : Nat}
    (first : db.gcstore.first? = some (id, storageId)) :
    (gcScope budget (db.storage storageId)).2 ≤ budget ∧
      gcOnce^[budget - (gcScope budget (db.storage storageId)).2] db =
        db.setScope storageId (gcScope budget (db.storage storageId)).1 := by
  induction budget generalizing db with
  | zero => exact ⟨Nat.le_refl 0, (setScope_self db storageId).symm⟩
  | succ budget ih =>
      cases row : (db.storage storageId).first? with
      | none =>
          simp only [gcScope, row, Nat.sub_self]
          exact ⟨Nat.le_refl _, (setScope_self db storageId).symm⟩
      | some head =>
          have erased : gcOnce db = db.setScope storageId ((db.storage storageId).erase head.1) := by
            simp only [gcOnce, first, row]
          obtain ⟨within, steps⟩ := ih
            (show (db.setScope storageId ((db.storage storageId).erase head.1)).gcstore.first? = _ from first)
          rw [storage_setScope] at within steps
          simp only [gcScope, row]
          refine ⟨Nat.le_succ_of_le within, ?_⟩
          rw [Nat.succ_sub within, Function.iterate_succ_apply, erased, steps, setScope_twice]

theorem gcLoop_eq_iterate (rounds budget : Nat) (db : Db) (enough : budget ≤ rounds) :
    gcLoop rounds budget db = gcOnce^[budget] db := by
  induction rounds generalizing budget db with
  | zero =>
      obtain rfl := Nat.le_zero.mp enough
      rfl
  | succ rounds ih =>
      simp only [gcLoop]
      split
      · rename_i zero
        rw [zero]
        rfl
      · rename_i positive
        cases first : db.gcstore.first? with
        | none =>
            have fixed : gcOnce db = db := by simp only [gcOnce, first]
            exact (Function.iterate_fixed fixed budget).symm
        | some head =>
            obtain ⟨id, storageId⟩ := head
            obtain ⟨within, steps⟩ := gcScope_eq_iterate budget first
            dsimp only
            split
            · rename_i used
              rw [used, Nat.sub_zero] at steps
              exact steps.symm
            · rename_i left
              -- the scope is empty now, so the next step drops the row that names it
              have drops : gcOnce (db.setScope storageId (gcScope budget (db.storage storageId)).1) =
                  { db.setScope storageId (gcScope budget (db.storage storageId)).1 with
                    gcstore := db.gcstore.erase id } := by
                have empty := gcScope_done budget (db.storage storageId) left
                simp only [gcOnce, setScope, first, Function.update_self, empty]
                rfl
              have parts : budget = (gcScope budget (db.storage storageId)).2 - 1 + 1 +
                  (budget - (gcScope budget (db.storage storageId)).2) := by omega
              rw [ih _ _ (by omega)]
              conv_rhs => rw [parts, Function.iterate_add_apply, steps, Function.iterate_succ_apply, drops]
              rfl

theorem gc_eq_iterate (db : Db) (max : Nat) : (db.gc max).1 = gcOnce^[max] db :=
  gcLoop_eq_iterate max max db (Nat.le_refl max)

/-- What a single step can do. -/
inductive Erases (db : Db) : Db → Prop
  | nothing (done : db.gcstore.rows = []) : Erases db db
  | slot (id scope : Nat) (head : Nat × StorageRow) (rest : List (Nat × StorageRow))
      (named : db.gcstore.get? id = some scope) (rows : (db.storage scope).rows = head :: rest) :
      Erases db (db.setScope scope ((db.storage scope).erase head.1))
  | marker (head : Nat × Nat) (rest : List (Nat × Nat)) (rows : db.gcstore.rows = head :: rest)
      (empty : (db.storage head.2).rows = []) : Erases db { db with gcstore := db.gcstore.erase head.1 }

theorem gcOnce_erases (db : Db) : Erases db (gcOnce db) := by
  unfold gcOnce
  split
  · rename_i first
    exact .nothing (List.head?_eq_none_iff.mp first)
  · rename_i id scope first
    obtain ⟨rest, rows⟩ := List.head?_eq_some_iff.mp first
    split
    · rename_i head slot
      obtain ⟨others, slots⟩ := List.head?_eq_some_iff.mp slot
      exact .slot id scope head others (Table.first?_get? _ first) slots
    · rename_i empty
      exact .marker (id, scope) rest rows (List.head?_eq_none_iff.mp empty)

/-- How collecting changes the tables: rows are only erased, storage rows only in scopes that
were named, and a row that names a scope only when that is empty. -/
structure Collected (start db : Db) : Prop where
  accounts : db.accounts = start.accounts
  codes : db.codes = start.codes
  config2 : db.config2 = start.config2
  gcstore : ∀ id scope, db.gcstore.get? id = some scope → start.gcstore.get? id = some scope
  storage : ∀ scope id row, (db.storage scope).get? id = some row → (start.storage scope).get? id = some row
  untouched : ∀ scope, (∀ id, start.gcstore.get? id ≠ some scope) → db.storage scope = start.storage scope
  emptied : ∀ id scope, start.gcstore.get? id = some scope → db.gcstore.get? id = none → (db.storage scope).rows = []

variable {start db next : Db}

theorem collected_refl (db : Db) : Collected db db := by
  refine ⟨rfl, rfl, rfl, fun _ _ found => found, fun _ _ _ found => found, fun _ _ => rfl, ?_⟩
  intro id scope found absent
  rw [found] at absent
  cases absent

theorem Collected.erases (collected : Collected start db) (erases : Erases db next) : Collected start next := by
  cases erases with
  | nothing => exact collected
  | slot id scope head rest named rows =>
      have other : ∀ key, key ≠ scope →
          (db.setScope scope ((db.storage scope).erase head.1)).storage key = db.storage key :=
        fun key apart => Function.update_of_ne apart ..
      refine ⟨collected.accounts, collected.codes, collected.config2, collected.gcstore, ?_, ?_, ?_⟩
      · intro key slot row found
        by_cases same : key = scope
        · subst same
          rw [storage_setScope, Table.get?_erase] at found
          split at found
          · cases found
          · exact collected.storage key slot row found
        · rw [other key same] at found
          exact collected.storage key slot row found
      · intro key unnamed
        rw [other key ?_]
        · exact collected.untouched key unnamed
        · rintro rfl
          exact unnamed id (collected.gcstore id key named)
      · intro marker key found absent
        have empty := collected.emptied marker key found absent
        rw [other key ?_]
        · exact empty
        · rintro rfl
          rw [rows] at empty
          cases empty
  | marker head rest rows empty =>
      refine ⟨collected.accounts, collected.codes, collected.config2, ?_, collected.storage, collected.untouched, ?_⟩
      · intro id scope found
        dsimp only at found
        rw [Table.get?_erase] at found
        split at found
        · cases found
        · exact collected.gcstore id scope found
      · intro id scope found absent
        dsimp only at absent
        rw [Table.get?_erase] at absent
        split at absent
        · rename_i same
          have here : db.gcstore.get? head.1 = some head.2 :=
            (Table.get?_eq_some _ _ _).mpr (by rw [rows]; exact List.mem_cons_self ..)
          rw [← same, collected.gcstore _ _ here] at found
          obtain rfl := Option.some.inj found
          exact empty
        · exact collected.emptied id scope found absent

theorem Collected.iterate (collected : Collected start db) (steps : Nat) : Collected start (gcOnce^[steps] db) := by
  induction steps generalizing db with
  | zero => exact collected
  | succ steps ih => exact ih (collected.erases (gcOnce_erases db))

/-- The scopes that are named for collection. -/
def scopes (db : Db) : Finset Nat := (db.gcstore.rows.map Prod.snd).toFinset

/-- The rows that name scopes and the storage rows in some scopes. -/
def garbage (scopes : Finset Nat) (db : Db) : Nat :=
  db.gcstore.rows.length + ∑ scope ∈ scopes, (db.storage scope).rows.length

theorem mem_scopes {id scope : Nat} (named : db.gcstore.get? id = some scope) : scope ∈ db.scopes := by
  have member := (Table.get?_eq_some _ _ _).mp named
  exact List.mem_toFinset.mpr (List.mem_map.mpr ⟨(id, scope), member, rfl⟩)

theorem Collected.garbage_erases (collected : Collected start db) (erases : Erases db next) :
    garbage start.scopes next = garbage start.scopes db - 1 := by
  cases erases with
  | nothing done =>
      have none : garbage start.scopes db = 0 := by
        have storage : ∑ scope ∈ start.scopes, (db.storage scope).rows.length = 0 := by
          refine Finset.sum_eq_zero ?_
          intro scope member
          obtain ⟨⟨id, named⟩, stored, rfl⟩ := List.mem_map.mp (List.mem_toFinset.mp member)
          have found := (Table.get?_eq_some start.gcstore id named).mpr stored
          have absent : db.gcstore.get? id = none := by
            rw [Table.get?_eq_none, done]
            exact fun _ => List.not_mem_nil
          rw [collected.emptied id named found absent, List.length_nil]
        rw [garbage, done, List.length_nil, storage]
      rw [none]
  | slot id scope head rest named rows =>
      have member := mem_scopes (collected.gcstore id scope named)
      have kept : ∑ key ∈ start.scopes \ {scope},
          ((db.setScope scope ((db.storage scope).erase head.1)).storage key).rows.length =
          ∑ key ∈ start.scopes \ {scope}, (db.storage key).rows.length := by
        refine Finset.sum_congr rfl ?_
        intro key apart
        have different : key ≠ scope := fun same => (Finset.mem_sdiff.mp apart).2 (Finset.mem_singleton.mpr same)
        rw [show (db.setScope scope ((db.storage scope).erase head.1)).storage key = db.storage key from
          Function.update_of_ne different ..]
      have before := Finset.sum_eq_sum_sdiff_singleton_add member fun key => (db.storage key).rows.length
      have after := Finset.sum_eq_sum_sdiff_singleton_add member fun key =>
        ((db.setScope scope ((db.storage scope).erase head.1)).storage key).rows.length
      rw [kept, storage_setScope, Table.rows_erase_head _ head rest rows] at after
      rw [rows, List.length_cons] at before
      rw [garbage, garbage, after, before]
      change db.gcstore.rows.length + _ = _
      omega
  | marker head rest rows empty =>
      rw [garbage, garbage]
      dsimp only
      rw [Table.rows_erase_head _ head rest rows, rows, List.length_cons]
      omega

theorem Collected.garbage_iterate (collected : Collected start db) (steps : Nat) :
    garbage start.scopes (gcOnce^[steps] db) = garbage start.scopes db - steps := by
  induction steps generalizing db with
  | zero => rfl
  | succ steps ih =>
      have erases := gcOnce_erases db
      rw [Function.iterate_succ_apply, ih (collected.erases erases), collected.garbage_erases erases]
      omega

/-- Collection erases as many rows as the budget and the garbage allow, spares the storage of
live accounts, tells whether it is done, and may be split. -/
theorem gc_exact (db : Db) (max : Nat)
    (disjoint : ∀ id scope, db.gcstore.get? id = some scope → db.accounts.get? scope = none) :
    Collected db (db.gc max).1 ∧
      garbage db.scopes (db.gc max).1 + min max (garbage db.scopes db) = garbage db.scopes db ∧
      (∀ id, (db.accounts.get? id).isSome = true → (db.gc max).1.storage id = db.storage id) ∧
      ((db.gc max).2 = true ↔ (db.gc max).1.gcstore.rows = []) ∧
      ∀ first second, ((db.gc first).1.gc second).1 = (db.gc (first + second)).1 := by
  have collected : Collected db (db.gc max).1 := gc_eq_iterate db max ▸ (collected_refl db).iterate max
  refine ⟨collected, ?_, ?_, ?_, ?_⟩
  · rw [gc_eq_iterate, (collected_refl db).garbage_iterate]
    omega
  · intro id live
    refine collected.untouched id ?_
    intro key named
    rw [disjoint key id named] at live
    cases live
  · rw [gc, Option.isNone_iff_eq_none]
    exact List.head?_eq_none_iff
  · intro first second
    rw [gc_eq_iterate, gc_eq_iterate, gc_eq_iterate, Nat.add_comm, Function.iterate_add_apply]

/-- Two scopes named for collection, one of them twice, and a live account. -/
def littered : Db where
  accounts := Table.empty.put 3 { ethAddress := 0, nonce := 0 }
  storage := fun scope => if scope = 1 then (Table.empty.put 0 ⟨0, 5⟩).put 1 ⟨1, 6⟩ else
    if scope = 3 then Table.empty.put 0 ⟨0, 7⟩ else Table.empty
  gcstore := ((Table.empty.put 0 1).put 1 2).put 2 1

theorem gc_exact_littered : garbage littered.scopes littered = 5 ∧ garbage littered.scopes (littered.gc 3).1 = 2 ∧
    (littered.gc 3).1.storage 3 = littered.storage 3 := by
  have disjoint : ∀ id scope, littered.gcstore.get? id = some scope → littered.accounts.get? scope = none := by
    intro id scope named
    have member := (Table.get?_eq_some _ _ _).mp named
    have listed : (id, scope) ∈ [(0, 1), (1, 2), (2, 1)] := member
    simp only [List.mem_cons, Prod.mk.injEq, List.not_mem_nil, or_false] at listed
    rcases listed with ⟨_, rfl⟩ | ⟨_, rfl⟩ | ⟨_, rfl⟩ <;> rfl
  have five : garbage littered.scopes littered = 5 := by decide
  obtain ⟨_, erased, live, _⟩ := gc_exact littered 3 disjoint
  refine ⟨five, ?_, live 3 rfl⟩
  rw [five] at erased
  omega

end EosEvm.Db

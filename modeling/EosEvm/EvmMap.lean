import EosEvm.DbConsistent
import EosEvm.Node
import EosEvm.Books

/-! The EVM state of the contract over whole runs. The tables stand for a map from addresses to
accounts; a transaction changes the map by what its run wrote, and nothing else changes it but
`rmaccount`, however the contract is called in between and whenever garbage is collected. -/

namespace EosEvm

open Abort

namespace AccountMap

/-- What a changed object or slot does to the map. -/
def write (map : AccountMap) : DbWrite → AccountMap
  | .object address initial (some account) _ =>
      if DbWrite.hasNewCode initial account then
        (map.updateAccount address initial (some account)).updateAccountCode address account.codeHash
      else map.updateAccount address initial (some account)
  | .object address initial none _ => map.updateAccount address initial none
  | .storage address location current => map.updateStorage address location current

def writeBack (map : AccountMap) (writes : List DbWrite) : AccountMap := writes.foldl write map

end AccountMap

namespace DbWrite

variable {state updated : State} {steps limit : Nat} {writes : List DbWrite}

theorem apply_entries {write : DbWrite} (sound : state.Sound Db.strict steps limit (fun _ => 0))
    (small : limit + write.attaches < 2 ^ 32) (room : steps + write.calls < 2 ^ 64)
    (applied : apply state write = .ok updated) : updated.db.entries = state.db.entries.write write := by
  cases write with
  | storage address location current =>
      obtain ⟨stored, done, _, entries⟩ := sound.updateStorage room address location current
      obtain rfl := Except.ok.inj (done.symm.trans applied)
      exact entries
  | object address initial current code =>
      simp only [apply, bind_ok] at applied
      obtain ⟨middle, update, applied⟩ := applied
      have first : steps + 1 < 2 ^ 64 := by
        simp only [calls] at room
        omega
      obtain ⟨changed, done, soundMiddle, entries⟩ := sound.updateAccount (by omega) first address initial current
      obtain rfl := Except.ok.inj (done.symm.trans update)
      cases current with
      | none =>
          rw [pure_ok] at applied
          exact applied ▸ entries
      | some account =>
          by_cases fresh : hasNewCode initial account = true
          · simp only [if_pos fresh] at applied
            simp only [calls, attaches, if_pos fresh] at small room
            obtain ⟨coded, attached, _, after⟩ := soundMiddle.updateAccountCode small room address trivial
            obtain rfl := Except.ok.inj (attached.symm.trans applied)
            rw [after, entries, AccountMap.write, if_pos fresh]
          · simp only [if_neg fresh, pure_ok] at applied
            rw [← applied, entries, AccountMap.write, if_neg fresh]

theorem clean_rest {write : DbWrite} (distinct : ((write :: writes).filterMap object?).Nodup)
    (clean : ∀ other ∈ writes, other.Clean state.db.entries)
    (kept : ∀ other, write.object? ≠ some other → state.db.entries.Codeless other → updated.db.entries.Codeless other) :
    ∀ other ∈ writes, other.Clean updated.db.entries := by
  intro other member
  have before := clean other member
  match other, member, before with
  | storage _ _ _, _, _ => trivial
  | object _ (some _) _ _, _, _ => trivial
  | object address none current code, member, before =>
      refine kept address (fun same => ?_) before
      rw [List.filterMap_cons, same] at distinct
      exact (List.nodup_cons.mp distinct).1 (List.mem_filterMap.mpr ⟨_, member, rfl⟩)

theorem fold_entries (sound : state.Sound Db.strict steps limit (fun _ => 0))
    (distinct : (writes.filterMap object?).Nodup) (clean : ∀ write ∈ writes, write.Clean state.db.entries)
    (small : limit + (writes.map attaches).sum < 2 ^ 32) (room : steps + (writes.map calls).sum < 2 ^ 64)
    (folded : foldOutcome apply writes state = .ok updated) :
    updated.db.entries = state.db.entries.writeBack writes := by
  induction writes generalizing state steps limit with
  | nil =>
      rw [foldOutcome_nil] at folded
      subst folded
      rfl
  | cons write writes ih =>
      obtain ⟨middle, applied, rest⟩ := (foldOutcome_cons _ _ _ _ _).mp folded
      simp only [List.map_cons, List.sum_cons] at small room
      obtain ⟨same, done, soundMiddle, kept⟩ := apply_sound sound (clean write (.head _)) (by omega) (by omega)
      obtain rfl := Except.ok.inj (done.symm.trans applied)
      have fewer : (writes.filterMap object?).Nodup :=
        distinct.sublist (List.Sublist.filterMap _ (List.sublist_cons_self _ _))
      have entries := apply_entries sound (by omega) (by omega) applied
      rw [ih soundMiddle fewer (clean_rest distinct (fun other member => clean other (.tail _ member)) kept) (by omega)
        (by omega) rest, entries]
      rfl

theorem applyAll_entries {db after : Db} (sound : (State.fresh db).Sound Db.strict steps limit (fun _ => 0))
    (distinct : (writes.filterMap object?).Nodup) (loaded : ∀ write ∈ writes, write.LoadedFrom db)
    (small : limit + (writes.map attaches).sum < 2 ^ 32) (room : steps + (writes.map calls).sum < 2 ^ 64)
    (applied : applyAll db writes = .ok after) :
    (State.fresh after).Sound Db.strict (steps + (writes.map calls).sum) (limit + (writes.map attaches).sum)
      (fun _ => 0) ∧ after.entries = db.entries.writeBack writes := by
  simp only [applyAll, bind_ok, pure_ok] at applied
  obtain ⟨written, folded, rfl⟩ := applied
  have opened : (State.fresh db false false).Sound Db.strict steps limit (fun _ => 0) :=
    ⟨sound.db, sound.numbered, sound.unnumbered, rfl⟩
  have clean : ∀ write ∈ writes, write.Clean db.entries := fun write member =>
    clean_of_loaded sound.db (loaded write member)
  obtain ⟨other, done, soundAfter⟩ := fold_sound opened distinct clean small room
  obtain rfl := Except.ok.inj (done.symm.trans folded)
  obtain ⟨reopened, entries⟩ := soundAfter.reopen
  exact ⟨reopened, entries.trans (fold_entries opened distinct clean small room folded)⟩

end DbWrite

def Action.patchesEvm : Action → Bool
  | .rmgcstore _ | .setkvstore _ _ _ | .freezeaccnt _ _ | .addevmbal _ _ _ => true
  | _ => false

/-- The EVM as a machine on maps: which transactions it ran, which accounts were removed from it,
how many operations wrote and how many of them attached code, and the map it has come to. A run
sees the map, as long as the counters of the tables are not used up. -/
inductive EvmRun (evm : Silkworm) : List Execution → List Address → Nat → Nat → AccountMap → Prop
  | start : EvmRun evm [] [] 0 0 AccountMap.empty
  | runs {ran : List Execution} {removed : List Address} {calls attached : Nat} {map : AccountMap} (time : Nat)
      (input : RunInput) (output : RunOutput) (before : EvmRun evm ran removed calls attached map)
      (sees : attached < 2 ^ 32 → calls < 2 ^ 64 → input.db.entries = map)
      (executed : evm.executeTransaction input = .ok output) :
      EvmRun evm (ran ++ [executionOf time input]) removed (calls + (output.writes.map DbWrite.calls).sum)
        (attached + (output.writes.map DbWrite.attaches).sum) (map.writeBack output.writes)
  | removes {ran : List Execution} {removed : List Address} {calls attached : Nat} {map : AccountMap} (address : Address)
      (before : EvmRun evm ran removed calls attached map) :
      EvmRun evm ran (removed ++ [address]) calls attached (map.delete address)

def Stands (evm : Silkworm) (db : Db) (ran : List Execution) (removed : List Address) : Prop :=
  ∃ calls attached map, EvmRun evm ran removed calls attached map ∧ (attached < 2 ^ 32 → calls < 2 ^ 64 →
    (State.fresh db).Sound Db.strict calls attached (fun _ => 0) ∧ db.entries = map)

/-- The journal of the addresses that `rmaccount` removes. -/
def removals (world : World) : Request → List Address
  | .action _ _ (.rmaccount id) => ((world.tables.db.accounts.get? id).map AccountRow.ethAddress).toList
  | _ => []

namespace Contract

variable {env : Env} {before after : Contract} {ran : List Execution} {removed : List Address}

theorem processTx_stands {rc : RuntimeConfig} {miner : Name} {txn : Txn} {minPrice : Option Nat}
    (law : env.evm.Conserves) (fresh : before.effects = []) (stands : Stands env.evm before.db ran removed)
    (processed : processTx env rc miner txn minPrice before = .ok after) :
    Stands env.evm after.db (ran ++ executions after.effects) removed := by
  obtain ⟨tx, funds, transfers, input, output, delivered, notices, db, _, _, _, _, _, executed, _, written, rfl⟩ :=
    processTx_ok processed
  obtain ⟨charged, fromSelf, begun, _, executes, _⟩ := executeTx_ok executed
  obtain ⟨sender, funded, _, _, same⟩ := beginTx_ok begun
  have start : input.db = before.db := by rw [same]
  obtain ⟨calls, attached, map, run, tables⟩ := stands
  have only : ∀ actions : List Inline,
      executions (before.effects ++ actions.map .sent ++ [.ran (executionOf env.now input)]) =
        [executionOf env.now input] := by
    intro actions
    rw [executions_append, executions_append, fresh, executions_sent]
    rfl
  dsimp only
  rw [only]
  refine ⟨_, _, _, .runs env.now input output run (fun few short => start ▸ (tables few short).2) executes, ?_⟩
  intro few short
  obtain ⟨sound, entries⟩ := tables (by omega) (by omega)
  -- The library writes an object back over what it read for it.
  have loaded : ∀ write ∈ output.writes, write.LoadedFrom before.db := by
    intro write member
    cases write with
    | storage => trivial
    | object address initial current code =>
        obtain ⟨handle, read⟩ := (law input output executes).reads address initial current code member
        rw [start] at read
        rw [DbWrite.LoadedFrom, read]
        rfl
  have kept := DbWrite.applyAll_entries sound output.distinctWrites loaded few short written
  rwa [entries] at kept

theorem gc_stands {max : Nat} (stands : Stands env.evm before.db ran removed)
    (done : Contract.gc env max before = .ok after) : Stands env.evm after.db ran removed := by
  simp only [Contract.gc, bind_ok, assertUnfrozen_ok, requireAuth_ok, exists_const, pure_ok] at done
  obtain ⟨_, _, rfl⟩ := done
  obtain ⟨calls, attached, map, run, tables⟩ := stands
  refine ⟨calls, attached, map, run, fun few short => ?_⟩
  obtain ⟨sound, entries⟩ := tables few short
  obtain ⟨collected, same⟩ := sound.gc max
  exact ⟨collected, same.trans entries⟩

theorem rmaccount_stands {id : Nat} (stands : Stands env.evm before.db ran removed)
    (done : editDb env (fun db => db.rmaccount id) before = .ok after) :
    ∃ row, before.db.accounts.get? id = some row ∧ after.effects = before.effects ∧
      Stands env.evm after.db ran (removed ++ [row.ethAddress]) := by
  obtain ⟨_, db, erased, rfl⟩ := editDb_ok done
  obtain ⟨row, found⟩ : ∃ row, before.db.accounts.get? id = some row := by
    simp only [Db.rmaccount, bind_ok, require_ok] at erased
    exact ⟨_, erased.choose_spec.1⟩
  obtain ⟨calls, attached, map, run, tables⟩ := stands
  refine ⟨row, found, rfl, calls, attached, _, .removes row.ethAddress run, fun few short => ?_⟩
  obtain ⟨sound, entries⟩ := tables few short
  obtain ⟨other, done, soundAfter, deleted⟩ := sound.rmaccount few found
  obtain rfl := Except.ok.inj (done.symm.trans erased)
  exact ⟨soundAfter, deleted.trans (congrArg (AccountMap.delete · row.ethAddress) entries)⟩

end Contract

/-- The request does not patch the EVM tables by hand. -/
def keepsTables (_ : World) : Request → Bool
  | .action _ _ requested => !requested.patchesEvm
  | .transfer _ _ _ _ _ => true

theorem Handled.stands {host : Host} {world : World} {view : ChainView} {before after : List Request}
    {request : Request} {rest : List Pending} {holding : Name → Symbol → Nat} {contract : Contract}
    {removed : List Address} (law : host.evm.Conserves) (keeps : keepsTables world request = true)
    (stands : Stands host.evm world.tables.db (executions world.history) removed)
    (handled : Handled host view before after request rest holding contract world) :
    Stands host.evm contract.db (executions (world.history ++ contract.effects)) (removed ++ removals world request) := by
  rw [executions_append]
  have ran := handled.ran
  -- Of the edits that are left, `rmaccount` shows in the map and garbage collection does not.
  by_cases removing : ∃ caller auths id, request = .action caller auths (.rmaccount id)
  · obtain ⟨caller, auths, id, rfl⟩ := removing
    obtain ⟨row, found, silent, removes⟩ := Contract.rmaccount_stands (by exact stands) ran
    have found : world.tables.db.accounts.get? id = some row := found
    have quiet : executions contract.effects = [] := by
      rw [silent]
      rfl
    rw [quiet, List.append_nil, removals, found]
    exact removes
  have kept : removals world request = [] := by
    unfold removals
    split
    · exact absurd ⟨_, _, _, rfl⟩ removing
    · rfl
  rw [kept, List.append_nil]
  have did := Request.run_does ran
  rcases did.prepares_or rfl with quiet | ⟨rc, miner, txn, minPrice, start, prepares, processed⟩
  · rw [executions_quiet quiet, List.append_nil]
    rcases did.db_or with same | edits | ⟨execution, recorded⟩
    · rw [same]
      exact stands
    · cases request with
      | transfer => cases edits
      | action caller auths requested =>
          cases requested with
          | gc max => exact Contract.gc_stands (by exact stands) ran
          | rmaccount id => exact absurd ⟨_, _, _, rfl⟩ removing
          | rmgcstore | setkvstore | addevmbal | freezeaccnt => cases keeps
          | _ => cases edits
    · cases quiet _ recorded
  · refine Contract.processTx_stands (by exact law) prepares.effects ?_ processed
    rw [prepares.db]
    exact stands

end EosEvm

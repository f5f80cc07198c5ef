import EosEvm.Loose
import EosEvm.LedgerCore

/-! Administrative edits of the EVM tables. They keep the tokens inside the EVM in step with
the EVM balances, except that an account is removed together with what it holds. -/

namespace EosEvm

open Abort

/-- The tokens inside the EVM less all EVM balances. -/
def Contract.gap (contract : Contract) : Int := contract.funds.evmValue - contract.db.balanceTotal

/-- The edits of accounts, storage and garbage. -/
def Action.isEdit : Action → Bool
  | .addevmbal _ _ _ => true
  | .rmaccount _ => true
  | .freezeaccnt _ _ => true
  | .setkvstore _ _ _ => true
  | .rmgcstore _ => true
  | _ => false

/-- An edit that removes no account that holds a balance. -/
def Action.spares (db : Db) : Action → Bool
  | .rmaccount id => (db.accounts.get? id).all fun row => decide (row.balance = 0)
  | _ => true

namespace Db

variable {db after : Db}

theorem rmaccount_balanceTotal {id : Nat} (removed : db.rmaccount id = .ok after) :
    ∃ row, db.accounts.get? id = some row ∧ after.balanceTotal + row.balance = db.balanceTotal := by
  simp only [rmaccount, bind_ok, require_ok, pure_ok] at removed
  obtain ⟨row, found, _, _, _, _, rfl⟩ := removed
  exact ⟨row, found, Table.total_erase AccountRow.balance db.accounts id row found⟩

theorem freezeaccnt_balanceTotal {id : Nat} {frozen : Bool} (edited : db.freezeaccnt id frozen = .ok after) :
    after.balanceTotal = db.balanceTotal := by
  simp only [freezeaccnt, bind_ok, require_ok, pure_ok] at edited
  obtain ⟨row, found, rfl⟩ := edited
  exact Nat.add_right_cancel (Table.total_modify AccountRow.balance db.accounts id _ row found)

theorem setkvstore_accounts {accountId : Nat} {key : Bytes} {value : Option Bytes}
    (edited : db.setkvstore accountId key value = .ok after) : after.accounts = db.accounts := by
  simp only [setkvstore, bind_ok, check_ok, exists_const] at edited
  obtain ⟨_, edited⟩ := edited
  split at edited <;> simp only [bind_ok, pure_ok] at edited
  · obtain ⟨_, _, rfl⟩ := edited
    rfl
  · rw [← edited]
    rfl
  · obtain ⟨_, _, rfl⟩ := edited
    rfl

theorem rmgcstore_accounts {id : Nat} (edited : db.rmgcstore id = .ok after) : after.accounts = db.accounts := by
  simp only [rmgcstore, bind_ok, pure_ok] at edited
  obtain ⟨_, _, rfl⟩ := edited
  rfl

end Db

namespace Funds

variable {funds after : Funds} {amount : Nat}

theorem enterEvm_loose (loose : ∀ row, funds.inevm = some row → row.Loose) (entered : funds.enterEvm amount = .ok after) :
    after.evmValue = funds.evmValue + amount := by
  obtain ⟨row, found, changed, added, rfl⟩ := enterEvm_ok.mp entered
  obtain ⟨_, _, _, exact⟩ := (loose row found).add_spec added
  simp only [evmValue, found, Option.map_some, Option.getD_some, exact]

theorem leaveEvm_loose (loose : ∀ row, funds.inevm = some row → row.Loose) (left : funds.leaveEvm amount = .ok after) :
    after.evmValue + amount = funds.evmValue := by
  obtain ⟨row, found, changed, taken, rfl⟩ := leaveEvm_ok.mp left
  obtain ⟨_, _, _, _, _, exact⟩ := (loose row found).sub_spec taken
  simp only [evmValue, found, Option.map_some, Option.getD_some, exact]

end Funds

namespace Contract

variable {before after : Contract} {env : Env}

theorem addevmbal_gap {id : Nat} {delta : Bytes} {subtract : Bool}
    (loose : ∀ row, before.funds.inevm = some row → row.Loose)
    (adjusted : addevmbal env id delta subtract before = .ok after) : after.gap = before.gap := by
  obtain ⟨_, row, amount, balance, funds, found, changed, rfl⟩ := addevmbal_ok adjusted
  have accounts := Table.total_modify AccountRow.balance before.db.accounts id
    (fun row => { row with balance := balance }) row found
  simp only [gap, Db.balanceTotal]
  dsimp only at accounts
  rcases adjustEvm_ok changed with ⟨leaves, enough, rfl⟩ | ⟨enters, rfl⟩
  · have value := Funds.leaveEvm_loose loose leaves
    omega
  · have value := Funds.enterEvm_loose loose enters
    omega

theorem edit_gap {requested : Action} (edits : requested.isEdit = true)
    (loose : ∀ row, before.funds.inevm = some row → row.Loose) (ran : requested.run env before = .ok after) :
    after.gap = before.gap ↔ requested.spares before.db = true := by
  have same : requested.spares before.db = true → after.gap = before.gap →
      (after.gap = before.gap ↔ requested.spares before.db = true) := fun spares kept => ⟨fun _ => spares, fun _ => kept⟩
  cases requested with
  | addevmbal id delta subtract => exact same rfl (addevmbal_gap loose ran)
  | rmaccount id =>
      simp only [Action.run] at ran
      obtain ⟨_, db, removed, rfl⟩ := editDb_ok ran
      obtain ⟨row, found, total⟩ := Db.rmaccount_balanceTotal removed
      simp only [Action.spares, found, Option.all_some, decide_eq_true_eq, gap]
      omega
  | freezeaccnt id frozen =>
      simp only [Action.run] at ran
      obtain ⟨_, db, edited, rfl⟩ := editDb_ok ran
      exact same rfl (by rw [gap, gap, Db.freezeaccnt_balanceTotal edited])
  | setkvstore accountId key value =>
      simp only [Action.run] at ran
      obtain ⟨_, db, edited, rfl⟩ := editDb_ok ran
      exact same rfl (by rw [gap, gap, Db.balanceTotal, Db.balanceTotal, Db.setkvstore_accounts edited])
  | rmgcstore id =>
      simp only [Action.run] at ran
      obtain ⟨_, db, edited, rfl⟩ := editDb_ok ran
      exact same rfl (by rw [gap, gap, Db.balanceTotal, Db.balanceTotal, Db.rmgcstore_accounts edited])
  | _ => cases edits

end Contract

variable {host : Host} {world : World} {view : ChainView}

theorem step_error {caller : Option Name} {auths : List Name} {requested : Action} {message : String}
    (top : topRequest host world.stack = some (.action caller auths requested))
    (aborted : requested.run (host.env view world.now (.action caller auths requested)) world.contract =
      .error message) : step host world (.next view [] []) = .error message := by
  have handles : ∀ rest, handle host view [] [] (.action caller auths requested) rest world = .error message := by
    intro rest
    have ran : (Request.action caller auths requested).run (host.env view world.now (.action caller auths requested))
        (Contract.load world.tables) = .error message := aborted
    rw [handle, Request.moved, ok_bind, ran]
    rfl
  have notified : check ((Request.action caller auths requested).notifies = true ∨
      ([] : List Request) = [] ∧ ([] : List Request) = []) "no account is notified" = .ok () :=
    (check_ok _ _ ()).mpr (Or.inr ⟨rfl, rfl⟩)
  have foreign : check ((([] : List Request) ++ []).all (Request.isForeign host.self) = true) "not allowed" = .ok () :=
    (check_ok _ _ ()).mpr rfl
  rw [step, foreign, ok_bind, next]
  split
  · rename_i stack
    rw [stack] at top
    cases top
  · rename_i other rest stack
    rw [stack] at top
    obtain rfl := Option.some.inj top
    rw [notified, ok_bind, handles]
  · rename_i sent rest stack
    rw [stack] at top
    simp only [topRequest] at top
    split at top
    · cases top
    · rename_i own
      rw [if_neg own, top]
      exact (congrArg (· >>= fun _ => _) notified).trans (handles rest)

/-- Whatever the state, an administrative edit keeps the gap exactly if it removes no account
that holds a balance, and one that aborts changes nothing. -/
theorem edit_keepsGap_iff (host : Host) (view : ChainView) (world : World) (caller : Option Name) (auths : List Name)
    (requested : Action) (edits : requested.isEdit = true)
    (top : topRequest host world.stack = some (.action caller auths requested))
    (loose : ∀ row, world.contract.funds.inevm = some row → row.Loose) :
    (∀ after, step host world (.next view [] []) = .ok after →
      (after.contract.gap = world.contract.gap ↔ requested.spares world.contract.db = true)) ∧
    ∀ message, requested.run (host.env view world.now (.action caller auths requested)) world.contract =
      .error message → step host world (.next view [] []) = .error message := by
  refine ⟨?_, fun message => step_error top⟩
  intro after stepped
  obtain ⟨rest, holding, contract, handled, rfl⟩ := (step_ok stepped).of_topRequest top
  have kept : contract.gap = world.contract.gap ↔ requested.spares world.contract.db = true :=
    Contract.edit_gap edits loose handled.ran
  exact kept

namespace Ledger

def beforeEdit (requested : Action) : List Label :=
  opening ++ pay bob 500000 "0x0123456789012345678901234567890123456789" 1 ++
    [.submit [.action none [self] requested]]

def editing (requested : Action) (shows : World → World → Bool) : Outcome Bool := do
  let world ← run Ledger.host (beforeEdit requested) (World.start fun _ _ => 0)
  let after ← step Ledger.host world (.next Ledger.view [] [])
  return shows world after

theorem exists_of_editing (requested : Action) (shows : World → World → Bool)
    (seen : editing requested shows = .ok true) : ∃ world after,
      run Ledger.host (beforeEdit requested) (World.start fun _ _ => 0) = .ok world ∧
      step Ledger.host world (.next Ledger.view [] []) = .ok after ∧ shows world after = true := by
  simp only [editing, bind_ok, pure_ok] at seen
  obtain ⟨world, reached, after, stepped, shown⟩ := seen
  exact ⟨world, after, reached, stepped, shown⟩

end Ledger

/-- Removing an account that holds 49.99 tokens leaves them in the books of the EVM. -/
theorem rmaccount_breaksGap : ∃ world after,
    run Ledger.host (Ledger.beforeEdit (.rmaccount 0)) (World.start fun _ _ => 0) = .ok world ∧
    step Ledger.host world (.next Ledger.view [] []) = .ok after ∧
    (world.contract.db.accounts.get? 0).map (fun row => row.balance) = some 49990000000000000000 ∧
    world.contract.gap = 0 ∧ after.contract.gap = 49990000000000000000 := by
  obtain ⟨world, after, reached, stepped, shown⟩ := Ledger.exists_of_editing (.rmaccount 0)
    (fun world after => decide ((world.contract.db.accounts.get? 0).map (fun row => row.balance) =
      some 49990000000000000000 ∧ world.contract.gap = 0 ∧ after.contract.gap = 49990000000000000000))
    (by decide +kernel)
  exact ⟨world, after, reached, stepped, of_decide_eq_true shown⟩

theorem edit_keepsGap_addevmbal : ∃ world after,
    run Ledger.host (Ledger.beforeEdit (.addevmbal 0 [5] true)) (World.start fun _ _ => 0) = .ok world ∧
    step Ledger.host world (.next Ledger.view [] []) = .ok after ∧
    (after.contract.db.accounts.get? 0).map (fun row => row.balance) = some 49989999999999999995 ∧
    after.contract.gap = world.contract.gap := by
  obtain ⟨world, after, reached, stepped, shown⟩ := Ledger.exists_of_editing (.addevmbal 0 [5] true)
    (fun world after => decide (topRequest Ledger.host world.stack =
        some (.action none [Ledger.self] (.addevmbal 0 [5] true)) ∧
      (after.contract.db.accounts.get? 0).map (fun row => row.balance) = some 49989999999999999995)) (by decide +kernel)
  obtain ⟨top, balance⟩ := of_decide_eq_true shown
  have loose := (run_loose reached).inevm
  obtain ⟨keeps, _⟩ := edit_keepsGap_iff Ledger.host Ledger.view world none [Ledger.self] (.addevmbal 0 [5] true) rfl top
    fun row found => (loose row found).1
  exact ⟨world, after, reached, stepped, balance, (keeps after stepped).mpr rfl⟩

end EosEvm

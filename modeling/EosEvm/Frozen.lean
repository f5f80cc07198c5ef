import EosEvm.Swap
import EosEvm.Timeline

/-! The freeze. While the contract is frozen no value moves: every action and every notification
that could move some asks first whether the contract is frozen, and what is left are the settings,
the allow list, the migration of balances to a swapped symbol, and the administration. -/

namespace EosEvm

open Abort

def ConfigWrapper.Frozen (config : ConfigWrapper) : Prop := config.cached.status &&& frozenFlag ≠ 0

instance (config : ConfigWrapper) : Decidable config.Frozen := inferInstanceAs (Decidable (_ ≠ _))

theorem ConfigWrapper.Frozen.refuses {config : ConfigWrapper} (frozen : config.Frozen) :
    ∃ message, assertUnfrozen config = .error message := by
  cases refused : assertUnfrozen config with
  | error message => exact ⟨message, rfl⟩
  | ok value => exact absurd ((assertUnfrozen_ok _ _).mp refused).2 frozen

theorem or_frozenFlag (status : UInt32) : (status ||| frozenFlag) &&& frozenFlag ≠ 0 := by
  have same : (status ||| frozenFlag) &&& frozenFlag = frozenFlag := by
    apply UInt32.toBitVec_inj.mp
    ext index inside
    simp only [UInt32.toBitVec_and, UInt32.toBitVec_or, BitVec.getElem_and, BitVec.getElem_or]
    cases frozenFlag.toBitVec[index] <;> simp
  rw [same]
  decide

def BalanceWithDust.figures (row : BalanceWithDust) : Int × Nat := (row.balance.amount, row.dust)

/-- Nothing of value is changed and nothing is sent. -/
structure Contract.Rests (before after : Contract) : Prop where
  balances : ∀ owner, (after.funds.balances.get? owner).map BalanceWithDust.figures =
    (before.funds.balances.get? owner).map BalanceWithDust.figures
  inevm : after.funds.inevm = before.funds.inevm
  statistics : after.funds.statistics = before.funds.statistics
  nextnonces : after.nextnonces = before.nextnonces
  receivers : after.receivers = before.receivers
  db : after.db = before.db
  effects : after.effects = before.effects

theorem Contract.Rests.trans {first second third : Contract} (one : first.Rests second) (two : second.Rests third) :
    first.Rests third where
  balances owner := (two.balances owner).trans (one.balances owner)
  inevm := two.inevm.trans one.inevm
  statistics := two.statistics.trans one.statistics
  nextnonces := two.nextnonces.trans one.nextnonces
  receivers := two.receivers.trans one.receivers
  db := two.db.trans one.db
  effects := two.effects.trans one.effects

/-- The actions that end the freeze or get around it: `freeze` with `false`, the swap of the token
and the administrative actions. -/
def Action.thaws : Action → Bool
  | .freeze value => !value
  | action => action.isAdmin || action.isSwap

namespace Contract

variable {env : Env} {before after : Contract}

theorem migratebal_rests {fromName : Name} {limit : Int} (ran : migratebal fromName limit before = .ok after) :
    before.Rests after := by
  obtain ⟨row, _, found, _⟩ := migratebal_ok ran
  obtain ⟨balances, rfl, renamed, kept⟩ := migratebal_renames found ran
  refine ⟨fun owner => ?_, rfl, rfl, rfl, rfl, rfl, rfl⟩
  by_cases visited : owner ∈ (before.migrated fromName limit.toNat).map Prod.fst
  · simp only [renamed owner visited, Option.map_map]
    rfl
  · exact congrArg _ (kept owner visited)

end Contract

/-- What an action can do while the contract is frozen. -/
theorem Action.run_rests {env : Env} {action : Action} {before after : Contract} (frozen : before.config.Frozen)
    (stored : before.config.stored = true) (keeps : action.thaws = false) (ran : action.run env before = .ok after) :
    before.Rests after := by
  obtain ⟨message, refused⟩ := frozen.refuses
  have idle : before.Rests before := ⟨fun _ => rfl, rfl, rfl, rfl, rfl, rfl, rfl⟩
  cases action with
  | init chainid fees tokenContract =>
      simp only [Action.run, Contract.init, bind_ok, check_ok, exists_const, stored] at ran
      obtain ⟨_, _, ⟨⟩, _⟩ := ran
  | setfeeparams | freeze | setversion | updtgasparam | setgasparam =>
      simp only [Action.run, Contract.setfeeparams, Contract.freeze, Contract.setversion, Contract.updtgasparam,
        Contract.setgasparam, bind_ok, assertInited_ok, requireAuth_ok, exists_const, pure_ok] at ran
      obtain ⟨_, _, _, _, rfl⟩ := ran
      exact ⟨fun _ => rfl, rfl, rfl, rfl, rfl, rfl, rfl⟩
  | setgasprices prices =>
      simp only [Action.run, Contract.setgasprices, bind_ok, requireAuth_ok, check_ok, exists_const] at ran
      obtain ⟨_, _, _, ran⟩ := ran
      split at ran
      · simp only [bind_ok, pure_ok] at ran
        obtain ⟨_, _, rfl⟩ := ran
        exact ⟨fun _ => rfl, rfl, rfl, rfl, rfl, rfl, rfl⟩
      · rw [pure_ok] at ran
        subst ran
        exact ⟨fun _ => rfl, rfl, rfl, rfl, rfl, rfl, rfl⟩
  | setgaslimit ingressGasLimit =>
      cases ran
      exact ⟨fun _ => rfl, rfl, rfl, rfl, rfl, rfl, rfl⟩
  | addegress | removeegress =>
      simp only [Action.run, Contract.addegress, Contract.removeegress, bind_ok, assertInited_ok, requireAuth_ok,
        exists_const, pure_ok] at ran
      obtain ⟨_, _, rfl⟩ := ran
      exact ⟨fun _ => rfl, rfl, rfl, rfl, rfl, rfl, rfl⟩
  | assertnonce | evmtx | configchange =>
      simp only [Action.run, Contract.assertnonce, Contract.event, bind_ok, check_ok, exists_const, pure_ok] at ran
      exact ran.2 ▸ idle
  | migratebal fromName limit => exact Contract.migratebal_rests ran
  | exec | pushtx | «open» | close | withdraw | gc =>
      simp only [Action.run, Contract.exec, Contract.pushtx, Contract.open, Contract.close, Contract.withdraw,
        Contract.gc, refused] at ran
      cases ran
  | call | callotherpay | admincall | bridgereg | bridgeunreg =>
      simp only [Action.run, Contract.call, Contract.callotherpay, Contract.admincall, Contract.bridgereg,
        Contract.bridgeunreg, refused] at ran
      cases ran
  | swapgastoken | rmgcstore | setkvstore | rmaccount | addevmbal | addopenbal | freezeaccnt => cases keeps

/-- The request does not end the freeze or get around it. -/
def keepsFreeze (_ : World) : Request → Bool
  | .action _ _ requested => !requested.thaws
  | .transfer _ _ _ _ _ => true

variable {host : Host} {world next opening : World}

section Handled

variable {view : ChainView} {before after : List Request} {request : Request} {rest : List Pending}
  {holding : Name → Symbol → Nat} {contract : Contract}

theorem Handled.rests (frozen : world.config.Frozen) (stored : world.config.stored = true)
    (keeps : keepsFreeze world request = true)
    (handled : Handled host view before after request rest holding contract world) :
    world.contract.Rests contract ∧ holding = world.holding := by
  cases request with
  | action caller auths requested =>
      have same : world.holding = holding := Except.ok.inj handled.moved
      exact ⟨Action.run_rests frozen stored (by simpa [keepsFreeze] using keeps) handled.ran, same.symm⟩
  | transfer token sender recipient quantity memo =>
      obtain ⟨message, refused⟩ := frozen.refuses
      have ran := handled.ran
      have refused : assertUnfrozen (Contract.load world.tables).config = .error message := refused
      simp only [Request.run, Contract.transfer, refused] at ran
      cases ran

theorem Handled.frozen (frozen : world.config.Frozen) (stored : world.config.stored = true)
    (keeps : keepsFreeze world request = true)
    (handled : Handled host view before after request rest holding contract world) : contract.config.Frozen := by
  rcases handled.reconfigures.1.standing stored with same | ⟨⟨caller, auths, value, rfl⟩, _⟩
  · have status : contract.config.cached.status = world.config.cached.status := congrArg Prod.snd same
    rw [ConfigWrapper.Frozen, status]
    exact frozen
  · have ran := handled.ran
    obtain rfl : value = true := by simpa [keepsFreeze, Action.thaws] using keeps
    simp only [Request.run, Action.run, Contract.freeze, bind_ok, requireAuth_ok, assertInited_ok, exists_const,
      pure_ok] at ran
    obtain ⟨_, _, rfl⟩ := ran
    exact or_frozenFlag _

end Handled

/-- The world has been at rest since an opening. -/
structure World.Rests (opening world : World) : Prop where
  frozen : world.config.Frozen
  stored : world.config.stored = true
  contract : opening.contract.Rests world.contract
  holding : world.holding = opening.holding
  history : world.history = opening.history

theorem World.Rests.step {label : Label} (rests : opening.Rests world) (stepped : Stepped host world label next)
    (keeps : ∀ view before after request rest holding contract, label = .next view before after →
      Handled host view before after request rest holding contract world → keepsFreeze world request = true) :
    opening.Rests next := by
  cases stepped with
  | tick | submit | passed => exact ⟨rests.frozen, rests.stored, rests.contract, rests.holding, rests.history⟩
  | handled view before after request rest holding contract handled =>
      have safe := keeps view before after request rest holding contract rfl handled
      obtain ⟨still, held⟩ := handled.rests rests.frozen rests.stored safe
      have config := handled.reconfigures.2
      have silent : contract.effects = [] := still.effects
      have moved := rests.contract.trans still
      refine ⟨?_, ?_, ?_, held.trans rests.holding, ?_⟩
      · rw [config]
        exact handled.frozen rests.frozen rests.stored safe
      · rw [config]
        simp [rests.stored]
      · exact ⟨moved.balances, moved.inevm, moved.statistics, moved.nextnonces, moved.receivers, moved.db, rfl⟩
      · rw [World.handled, silent, List.append_nil]
        exact rests.history

/-- From a frozen state on, as long as `freeze(false)`, the swap and the administrative actions
are not used, nothing moves: every balance keeps its amounts, the EVM tables, the counters, the
receivers, the statistics and the holding stay as they are, and nothing is sent or executed. -/
theorem run_frozen (host : Host) (opening : World) (stored : opening.config.stored = true)
    (frozen : opening.config.Frozen) (labels : List Label) (world : World)
    (keeps : guarded host keepsFreeze labels opening = true) (finished : run host labels opening = .ok world) :
    world.config.Frozen ∧ opening.contract.Rests world.contract ∧ world.holding = opening.holding ∧
      world.history = opening.history := by
  have start : opening.Rests opening :=
    ⟨frozen, stored, ⟨fun _ => rfl, rfl, rfl, rfl, rfl, rfl, rfl⟩, rfl, rfl⟩
  have rests := run_guarded opening.Rests (fun _ _ _ rests stepped keeps => rests.step stepped keeps) start keeps finished
  exact ⟨rests.frozen, rests.contract, rests.holding, rests.history⟩

def Ledger.frozenSwap : List Label :=
  Ledger.beforeSwap Ledger.sys ++ [.next Ledger.view [] []] ++ Ledger.act Ledger.self (.freeze true) 0

def Ledger.frozenWork : List Label :=
  Ledger.migration ++ Ledger.act Ledger.self (.setversion 1) 0 ++ Ledger.act Ledger.self (.freeze true) 0 ++
    Ledger.later 9

theorem run_frozen_work : ∃ opening world, run Ledger.host Ledger.frozenSwap (World.start fun _ _ => 0) = .ok opening ∧
    run Ledger.host Ledger.frozenWork opening = .ok world ∧ opening.config.Frozen ∧
    opening.tables.funds.balances.get? Ledger.alice ≠ world.tables.funds.balances.get? Ledger.alice ∧
    opening.contract.Rests world.contract ∧ world.history = opening.history := by
  obtain ⟨opening, reached, seen⟩ := exists_of_view (run Ledger.host Ledger.frozenSwap (World.start fun _ _ => 0))
    (fun opening => decide (opening.config.stored = true ∧ opening.config.Frozen ∧
      guarded Ledger.host keepsFreeze Ledger.frozenWork opening = true ∧
      (run Ledger.host Ledger.frozenWork opening).toOption.map (fun world => decide (
        opening.tables.funds.balances.get? Ledger.alice ≠ world.tables.funds.balances.get? Ledger.alice)) =
          some true)) true (by decide +kernel)
  obtain ⟨stored, frozen, keeps, later⟩ := of_decide_eq_true seen
  obtain ⟨world, finished, seen⟩ := exists_of_view _ _ _ later
  obtain ⟨_, rests, _, history⟩ := run_frozen Ledger.host opening stored frozen _ world keeps finished
  exact ⟨opening, world, reached, finished, frozen, of_decide_eq_true seen, rests, history⟩

end EosEvm

import EosEvm.ContractCore

/-! What a successful `process_tx` went through, and what it left behind. -/

namespace EosEvm

open Abort

/-- The actions among the effects, in order. -/
def sentActions (effects : List Effect) : List Inline :=
  effects.filterMap fun effect => match effect with
    | .sent action => some action
    | .ran _ => none

@[simp] theorem sentActions_nil : sentActions [] = [] := rfl

@[simp] theorem sentActions_append (first second : List Effect) :
    sentActions (first ++ second) = sentActions first ++ sentActions second :=
  List.filterMap_append

@[simp] theorem sentActions_sent (actions : List Inline) : sentActions (actions.map .sent) = actions := by
  induction actions with
  | nil => rfl
  | cons action actions ih => simp [sentActions]

@[simp] theorem sentActions_ran (execution : Execution) : sentActions [.ran execution] = [] := rfl

@[simp] theorem sentActions_emit (contract : Contract) (action : Inline) :
    sentActions (contract.emit action).effects = sentActions contract.effects ++ [action] :=
  sentActions_append _ _

theorem mem_sentActions {effects : List Effect} {action : Inline} :
    action ∈ sentActions effects ↔ .sent action ∈ effects := by
  simp only [sentActions, List.mem_filterMap]
  constructor
  · rintro ⟨effect, member, found⟩
    cases effect with
    | ran => cases found
    | sent other => exact Option.some.inj found ▸ member
  · intro member
    exact ⟨.sent action, member, rfl⟩

@[simp] theorem requireAuth_ok (env : Env) (account : Name) (result : Unit) :
    requireAuth env account = .ok result ↔ account ∈ env.auths := by
  simp [requireAuth]

@[simp] theorem assertInited_ok (config : ConfigWrapper) (result : Unit) :
    assertInited config = .ok result ↔ config.stored = true ∧ config.cached.version = 0 := by
  simp [assertInited]

@[simp] theorem assertUnfrozen_ok (config : ConfigWrapper) (result : Unit) :
    assertUnfrozen config = .ok result ↔
      (config.stored = true ∧ config.cached.version = 0) ∧ config.cached.status &&& frozenFlag = 0 := by
  simp [assertUnfrozen]

def txEvent (config : ConfigWrapper) (version : Nat) (rlptx : Bytes) : EvmtxEvent :=
  if 3 ≤ version then
    .v3 version rlptx (config.cached.gasPrices.overheadPrice.getD 0) (config.cached.gasPrices.storagePrice.getD 0)
  else .v1 version rlptx (config.getGasPrice version)

theorem mem_txEvents {config : ConfigWrapper} {version : Nat} {gasParams : GasParameter} {promoted : Bool}
    {rlptx : Bytes} {action : Inline} (member : action ∈ txEvents config version gasParams promoted rlptx) :
    promoted = true ∧ action = .configchange gasParams ∨
      1 ≤ version ∧ action = .evmtx (txEvent config version rlptx) := by
  simp only [txEvents] at member
  rcases List.mem_append.mp member with change | event
  · split at change
    · rename_i isPromoted
      exact Or.inl ⟨isPromoted, by simpa using change⟩
    · cases change
  · split at event
    · rename_i three
      exact Or.inr ⟨by omega, by simpa [txEvent, three] using event⟩
    · rename_i three
      split at event
      · rename_i one
        exact Or.inr ⟨one, by simpa [txEvent, three] using event⟩
      · cases event

variable {before after : Contract}

theorem processTx_ok {env : Env} {rc : RuntimeConfig} {miner : Name} {txn : Txn} {minPrice : Option Nat}
    (processed : processTx env rc miner txn minPrice before = .ok after) :
    let versioned := before.config.promoteEvmVersion env.now
    let parameters := versioned.2.promoteConsensusParam env.now
    ∃ tx funds transfers input output delivered notices db,
      txn.getTx env.evm = .ok tx ∧
      (rc.allowNonSelfMiner = true ∨ miner = env.self) ∧
      (parameters.2.1 = false ∨ 1 ≤ versioned.1) ∧
      env.evm.lookupKnownChain parameters.2.2.cached.chainid = true ∧
      checkPrice parameters.2.2 versioned.1 tx minPrice = .ok () ∧
      executeTx env {
        config := parameters.2.2
        rc := rc
        miner := miner
        header := blockHeader env parameters.2.2 versioned.1
        gasParams := parameters.1
        tx := tx
        egresslist := before.egresslist
        db := before.db } before.funds = .ok (funds, transfers, input, output) ∧
      processFilteredMessages env parameters.2.2 before.receivers output.filteredMessages funds =
        .ok (delivered, notices) ∧
      DbWrite.applyAll before.db output.writes = .ok db ∧
      after = { before with
        config := parameters.2.2
        funds := delivered
        db := db
        effects := before.effects ++ (transfers ++ notices ++
          txEvents parameters.2.2 versioned.1 parameters.1 parameters.2.1 (txn.getRlptx env.evm)).map .sent ++
          [.ran (executionOf env.now input)] } := by
  simp only [processTx, bind_ok, check_ok, exists_const, pure_ok] at processed
  obtain ⟨tx, decoded, mined, allowed, known, ⟨⟩, priced, ⟨funds, transfers, input, output⟩, executed,
    ⟨delivered, notices⟩, filtered, db, written, rfl⟩ := processed
  exact ⟨tx, funds, transfers, input, output, delivered, notices, db, decoded, mined, allowed, known, priced,
    executed, filtered, written, rfl⟩

theorem openRow_ok {owner : Name} {symbol : Symbol} {balances result : Table Name BalanceWithDust}
    (opened : openRow owner symbol balances = .ok result) :
    (balances.get? owner).isSome = true ∧ result = balances ∨
      balances.get? owner = none ∧ symbol.isValid = true ∧
        result = balances.put owner { balance := ⟨0, symbol⟩ } := by
  simp only [openRow] at opened
  split at opened
  · rename_i present
    cases opened
    exact .inl ⟨present, rfl⟩
  · rename_i absent
    simp only [bind_ok, pure_ok, Asset.make_ok] at opened
    obtain ⟨_, ⟨_, valid, rfl⟩, rfl⟩ := opened
    exact .inr ⟨Option.not_isSome_iff_eq_none.mp absent, valid, rfl⟩

theorem openInternalBalance_ok {owner : Name} (opened : openInternalBalance owner before = .ok after) :
    ∃ balances, openRow owner before.config.getTokenSymbol before.funds.balances = .ok balances ∧
      after = { before with
        funds := { before.funds with balances := balances }
        nextnonces :=
          if (before.nextnonces.get? owner).isSome then before.nextnonces else before.nextnonces.put owner 0 } := by
  simp only [openInternalBalance, bind_ok, pure_ok] at opened
  obtain ⟨balances, row, rfl⟩ := opened
  exact ⟨balances, row, rfl⟩

theorem openInternalBalance_config {owner : Name} (opened : openInternalBalance owner before = .ok after) :
    after.config = before.config := by
  obtain ⟨_, _, rfl⟩ := openInternalBalance_ok opened
  rfl

end EosEvm

import EosEvm.Headers
import EosEvm.Solvency

/-! `exec` writes nothing: it reads pending values without promoting them, and the cached
gas price without draining its queue. A pushed transaction does both before it runs. -/

namespace EosEvm

open Abort

/-- The block that code runs in, with the gas parameters it runs under. -/
structure RunBlock where
  header : BlockHeader
  gasParams : GasParameter
  deriving DecidableEq, Repr

def CallInput.block (input : CallInput) : RunBlock := ⟨input.header, input.gasParams⟩

def RunInput.block (input : RunInput) : RunBlock := ⟨input.header, input.gasParams⟩

namespace ConfigWrapper

variable {wrapper : ConfigWrapper}

/-- Draining the queue of prices would not change the base fee. -/
def baseFeeSettled (wrapper : ConfigWrapper) (now : Nat) : Prop :=
  if 3 ≤ wrapper.getEvmVersion now then
    (wrapper.pricesIn (wrapper.blockNum now)).getBasePrice = wrapper.cached.gasPrices.getBasePrice
  else 1 ≤ wrapper.getEvmVersion now → wrapper.priceIn (wrapper.blockNum now) = wrapper.cached.gasPrice

instance (wrapper : ConfigWrapper) (now : Nat) : Decidable (wrapper.baseFeeSettled now) := by
  unfold baseFeeSettled
  infer_instance

theorem baseFeeSettled_of_idle {now : Nat} (idle : wrapper.queueIdle now = true) : wrapper.baseFeeSettled now := by
  rw [queueIdle_iff] at idle
  unfold baseFeeSettled priceIn pricesIn
  rw [if_pos idle, if_pos idle]
  split
  · rfl
  · exact fun _ => rfl

theorem SameHeader.version {after : ConfigWrapper} {now : Nat}
    (same : SameHeader (wrapper.blockNum now) wrapper after) : after.getEvmVersion now = wrapper.getEvmVersion now := by
  rw [← versionIn_blockNum, ← versionIn_blockNum, same.blockNum]
  exact congrArg Header.version same.header

theorem SameHeader.parameters {after : ConfigWrapper} {now : Nat}
    (same : SameHeader (wrapper.blockNum now) wrapper after) :
    after.getConsensusParam now = wrapper.getConsensusParam now := by
  rw [← parametersIn_blockNum, ← parametersIn_blockNum, same.blockNum]
  exact congrArg Header.gasParams same.header

def pushed (wrapper : ConfigWrapper) (now : Nat) : ConfigWrapper :=
  (((wrapper.refresh now).promoteEvmVersion now).2.promoteConsensusParam now).2.2

theorem pushed_sameHeader (wrapper : ConfigWrapper) (now : Nat) :
    SameHeader (wrapper.blockNum now) wrapper (wrapper.pushed now) := by
  have refreshed := refresh_sameHeader wrapper now
  have promoted := promoteEvmVersion_sameHeader (wrapper.refresh now) now
  have parameters := promoteConsensusParam_sameHeader ((wrapper.refresh now).promoteEvmVersion now).2 now
  rw [promoted.blockNum, refreshed.blockNum] at parameters
  rw [refreshed.blockNum] at promoted
  exact (refreshed.trans promoted).trans parameters

theorem pushed_getGasPrice (wrapper : ConfigWrapper) (now version : Nat) :
    (wrapper.pushed now).getGasPrice version = (wrapper.refresh now).getGasPrice version := by
  obtain ⟨_, _, promoted⟩ := promoteEvmVersion_eq (wrapper.refresh now) now
  obtain ⟨_, parameters⟩ := promoteConsensusParam_eq ((wrapper.refresh now).promoteEvmVersion now).2 now
  unfold pushed
  rw [parameters, promoted]
  rfl

theorem refresh_getGasPrice_iff {now : Nat} (one : 1 ≤ wrapper.getEvmVersion now) :
    wrapper.getGasPrice (wrapper.getEvmVersion now) = (wrapper.refresh now).getGasPrice (wrapper.getEvmVersion now) ↔
      wrapper.baseFeeSettled now := by
  obtain ⟨price, prices⟩ := refresh_prices wrapper now
  unfold getGasPrice baseFeeSettled
  by_cases three : 3 ≤ wrapper.getEvmVersion now
  · rw [if_pos three, if_pos three, if_pos three, (prices three).2]
    exact eq_comm
  · rw [if_neg three, if_neg three, if_neg three, (price one (by omega)).2]
    exact ⟨fun same _ => same.symm, fun settled => (settled one).symm⟩

end ConfigWrapper

namespace Contract

variable {env : Env} {contract after : Contract}

/-- The block `exec` runs in. -/
def execBlock (env : Env) (contract : Contract) : RunBlock where
  header := blockHeader env contract.config (contract.config.getEvmVersion env.now)
  gasParams := contract.config.getConsensusParam env.now

/-- The block of a transaction pushed at the same time. -/
def pushedBlock (env : Env) (contract : Contract) : RunBlock :=
  let versioned := (contract.config.refresh env.now).promoteEvmVersion env.now
  let parameters := versioned.2.promoteConsensusParam env.now
  { header := blockHeader env parameters.2.2 versioned.1
    gasParams := parameters.1 }

theorem exec_block {input : ExecInput} {callback : Option ExecCallback}
    (ran : exec env input callback contract = .ok after) :
    ∃ call result, contract.execCall env input = .ok call ∧ env.evm.execute call = .ok result ∧
      call.block = contract.execBlock env := by
  simp only [exec, bind_ok] at ran
  obtain ⟨_, _, _, _, call, made, result, executed, _⟩ := ran
  refine ⟨call, result, made, executed, ?_⟩
  simp only [execCall, bind_ok, pure_ok] at made
  obtain ⟨_, _, _, _, _, _, rfl⟩ := made
  rfl

theorem pushtx_block {miner : Name} {rlptx : Bytes} {minPrice : Option Nat}
    (ran : pushtx env miner rlptx minPrice contract = .ok after) :
    ∃ input output, env.evm.executeTransaction input = .ok output ∧ input.block = contract.pushedBlock env ∧
      .ran (executionOf env.now input) ∈ after.effects := by
  simp only [pushtx, bind_ok, check_ok, exists_const] at ran
  obtain ⟨_, _, _, processed⟩ := ran
  obtain ⟨_, _, _, input, output, _, _, _, _, _, _, _, _, executed, _, _, rfl⟩ := processTx_ok processed
  obtain ⟨_, _, begun, _, executes, _⟩ := executeTx_ok executed
  obtain ⟨_, _, _, _, rfl⟩ := beginTx_ok begun
  refine ⟨_, output, executes, ?_, List.mem_append_right _ (List.mem_singleton.mpr rfl)⟩
  simp only [RunInput.block, refreshPrices_config]
  rfl

theorem pushedBlock_version (env : Env) (contract : Contract) :
    (contract.pushedBlock env).header.version = contract.config.getEvmVersion env.now :=
  (ConfigWrapper.promoteEvmVersion_fst _ _).trans (ConfigWrapper.refresh_sameHeader _ _).version

theorem pushedBlock_number (env : Env) (contract : Contract) :
    (contract.pushedBlock env).header.number = contract.config.blockNum env.now :=
  (ConfigWrapper.pushed_sameHeader contract.config env.now).blockNum env.now

theorem pushedBlock_gasParams (env : Env) (contract : Contract) :
    (contract.pushedBlock env).gasParams = contract.config.getConsensusParam env.now := by
  have refreshed := ConfigWrapper.refresh_sameHeader contract.config env.now
  have promoted := ConfigWrapper.promoteEvmVersion_sameHeader (contract.config.refresh env.now) env.now
  calc (contract.pushedBlock env).gasParams
      = ((contract.config.refresh env.now).promoteEvmVersion env.now).2.getConsensusParam env.now :=
        ConfigWrapper.promoteConsensusParam_fst _ _
    _ = (contract.config.refresh env.now).getConsensusParam env.now := promoted.parameters
    _ = contract.config.getConsensusParam env.now := refreshed.parameters

theorem pushedBlock_baseFee (env : Env) (contract : Contract) :
    (contract.pushedBlock env).header.baseFeePerGas =
      if 1 ≤ contract.config.getEvmVersion env.now then
        some ((contract.config.refresh env.now).getGasPrice (contract.config.getEvmVersion env.now))
      else none := by
  have version := pushedBlock_version env contract
  rw [← version, ← ConfigWrapper.pushed_getGasPrice]
  rfl

end Contract

/-- `exec` and a pushed transaction agree on the version, the block and the gas parameters,
and on the base fee exactly when no entry of the queue that is due would change it. -/
theorem exec_simulates_iff (env : Env) (contract : Contract) :
    (∀ input callback after, contract.exec env input callback = .ok after →
      ∃ call result, contract.execCall env input = .ok call ∧ env.evm.execute call = .ok result ∧
        call.block = contract.execBlock env) ∧
    (∀ miner rlptx minPrice after, contract.pushtx env miner rlptx minPrice = .ok after →
      ∃ input output, env.evm.executeTransaction input = .ok output ∧ input.block = contract.pushedBlock env ∧
        .ran (executionOf env.now input) ∈ after.effects) ∧
    (contract.execBlock env).header.version = (contract.pushedBlock env).header.version ∧
    (contract.execBlock env).header.number = (contract.pushedBlock env).header.number ∧
    (contract.execBlock env).gasParams = (contract.pushedBlock env).gasParams ∧
    ((contract.execBlock env).header.baseFeePerGas = (contract.pushedBlock env).header.baseFeePerGas ↔
      contract.config.baseFeeSettled env.now) := by
  refine ⟨fun _ _ _ ran => Contract.exec_block ran, fun _ _ _ _ ran => Contract.pushtx_block ran,
    (Contract.pushedBlock_version env contract).symm, (Contract.pushedBlock_number env contract).symm,
    (Contract.pushedBlock_gasParams env contract).symm, ?_⟩
  rw [Contract.pushedBlock_baseFee]
  simp only [Contract.execBlock, blockHeader]
  by_cases one : 1 ≤ contract.config.getEvmVersion env.now
  · rw [if_pos one, if_pos one, Option.some.injEq]
    exact ConfigWrapper.refresh_getGasPrice_iff one
  · rw [if_neg one, if_neg one]
    simp only [true_iff, ConfigWrapper.baseFeeSettled]
    rw [if_neg (by omega)]
    exact fun reached => absurd reached one

namespace Ledger

def overdue : List Label :=
  versionOne ++ act self (.setfeeparams ⟨some 160000000000, none, none⟩) 0 ++ later 202

def simulated : ExecInput where
  context := none
  sender := none
  recipient := List.replicate 20 0
  data := []
  value := none

def asked : Request := .action none [alice] (.exec simulated none)

end Ledger

/-- `exec` runs under the old price, a transaction pushed at the same time under the new one. -/
theorem exec_staleBaseFee : ∃ world after,
    run Ledger.host Ledger.overdue (World.start fun _ _ => 0) = .ok world ∧
    world.contract.exec (Ledger.host.env Ledger.view world.now Ledger.asked) Ledger.simulated none = .ok after ∧
    (world.contract.execBlock (Ledger.host.env Ledger.view world.now Ledger.asked)).header.baseFeePerGas =
      some 150000000000 ∧
    (world.contract.pushedBlock (Ledger.host.env Ledger.view world.now Ledger.asked)).header.baseFeePerGas =
      some 160000000000 := by
  obtain ⟨world, reached, seen⟩ := exists_of_view (run Ledger.host Ledger.overdue (World.start fun _ _ => 0))
    (fun world => decide (
      (world.contract.exec (Ledger.host.env Ledger.view world.now Ledger.asked) Ledger.simulated none).isOk = true ∧
      (world.contract.execBlock (Ledger.host.env Ledger.view world.now Ledger.asked)).header.baseFeePerGas =
        some 150000000000 ∧
      (world.contract.pushedBlock (Ledger.host.env Ledger.view world.now Ledger.asked)).header.baseFeePerGas =
        some 160000000000)) true (by decide +kernel)
  obtain ⟨ran, fees⟩ := of_decide_eq_true seen
  obtain ⟨after, ran⟩ := exists_of_isOk ran
  exact ⟨world, after, reached, ran, fees⟩

theorem exec_simulates_versionOne : ∃ world call result,
    run Ledger.host Ledger.versionOne (World.start fun _ _ => 0) = .ok world ∧
    world.contract.execCall (Ledger.host.env Ledger.view world.now Ledger.asked) Ledger.simulated = .ok call ∧
    Ledger.host.evm.execute call = .ok result ∧
    call.header.baseFeePerGas =
      (world.contract.pushedBlock (Ledger.host.env Ledger.view world.now Ledger.asked)).header.baseFeePerGas := by
  obtain ⟨world, reached, seen⟩ := exists_of_view (run Ledger.host Ledger.versionOne (World.start fun _ _ => 0))
    (fun world => decide (world.contract.config.queueIdle world.now = true ∧
      (world.contract.exec (Ledger.host.env Ledger.view world.now Ledger.asked) Ledger.simulated none).isOk = true))
    true (by decide +kernel)
  obtain ⟨idle, ran⟩ := of_decide_eq_true seen
  obtain ⟨after, ran⟩ := exists_of_isOk ran
  obtain ⟨runs, _, _, _, _, baseFee⟩ :=
    exec_simulates_iff (Ledger.host.env Ledger.view world.now Ledger.asked) world.contract
  obtain ⟨call, result, made, executed, block⟩ := runs _ _ _ ran
  have header := congrArg RunBlock.header block
  exact ⟨world, call, result, reached, made, executed, (congrArg BlockHeader.baseFeePerGas header).trans
    (baseFee.mpr (ConfigWrapper.baseFeeSettled_of_idle idle))⟩

end EosEvm

import EosEvm.Loose

/-! Where handling a request calls `process_tx`, and on what. -/

namespace EosEvm

open Abort

/-- What `process_tx` runs `execute_tx` on. -/
def contextOf (env : Env) (rc : RuntimeConfig) (miner : Name) (tx : Transaction) (contract : Contract) : TxContext :=
  let versioned := contract.config.promoteEvmVersion env.now
  let parameters := versioned.2.promoteConsensusParam env.now
  { config := parameters.2.2
    rc := rc
    miner := miner
    header := blockHeader env parameters.2.2 versioned.1
    gasParams := parameters.1
    tx := tx
    egresslist := contract.egresslist
    db := contract.db }

theorem contextOf_symbol (env : Env) (rc : RuntimeConfig) (miner : Name) (tx : Transaction) (contract : Contract) :
    (contextOf env rc miner tx contract).config.getTokenSymbol = contract.config.getTokenSymbol :=
  ConfigWrapper.getTokenSymbol_of_token (by simp [contextOf])

theorem contextOf_version (env : Env) (rc : RuntimeConfig) (miner : Name) (tx : Transaction) (contract : Contract) :
    (contextOf env rc miner tx contract).config.getEvmVersion env.now =
      (contextOf env rc miner tx contract).header.version := by
  obtain ⟨_, same⟩ := ConfigWrapper.promoteConsensusParam_eq (contract.config.promoteEvmVersion env.now).2 env.now
  have version : (contextOf env rc miner tx contract).config.getEvmVersion env.now =
      (contract.config.promoteEvmVersion env.now).2.getEvmVersion env.now := by
    simp only [contextOf, same]
    rfl
  rw [version, ConfigWrapper.getEvmVersion_promoteEvmVersion]
  exact (ConfigWrapper.promoteEvmVersion_fst _ _).symm

theorem contextOf_baseFee (env : Env) (rc : RuntimeConfig) (miner : Name) (tx : Transaction) (contract : Contract) :
    (contextOf env rc miner tx contract).header.baseFeePerGas =
      if 1 ≤ (contextOf env rc miner tx contract).header.version then
        some ((contextOf env rc miner tx contract).config.getGasPrice (contextOf env rc miner tx contract).header.version)
      else none := rfl

theorem contextOf_unpriced {env : Env} {rc : RuntimeConfig} {miner : Name} {tx : Transaction} {contract : Contract}
    (zero : (contextOf env rc miner tx contract).header.version = 0) :
    (contextOf env rc miner tx contract).header.baseFeePerGas = none := by
  rw [contextOf_baseFee, zero]
  rfl

/-- A call of `process_tx`: its arguments and the contract at that point. -/
structure TxCall where
  rc : RuntimeConfig
  miner : Name
  txn : Txn
  minInclusionPrice : Option Nat
  contract : Contract

/-- The calls of `process_tx` that handling a request comes to. What is received is a positive
quantity of the token. -/
inductive Calls (host : Host) (view : ChainView) (world : World) : Request → TxCall → Prop
  | pushes (caller : Option Name) (auths : List Name) (miner : Name) (rlptx : Bytes) (minPrice : Option Nat) :
      Calls host view world (.action caller auths (.pushtx miner rlptx minPrice)) {
        rc := Contract.pushtxConfig (host.env view world.now (.action caller auths (.pushtx miner rlptx minPrice)))
        miner := miner
        txn := .ofRlp rlptx
        minInclusionPrice := minPrice
        contract := refreshPrices (host.env view world.now (.action caller auths (.pushtx miner rlptx minPrice)))
          world.contract }
  | bridges (request : Request) (payer : Option Name) (tx : Transaction) (middle : Contract)
      (bridges : Contract.Bridges (host.env view world.now request) world.contract request payer tx middle)
      (positive : ∀ token sender recipient quantity memo,
        request = .transfer token sender recipient quantity memo → 0 < quantity.amount) :
      Calls host view world request {
        rc := bridgeConfig payer
        miner := host.self
        txn := .ofTx tx
        minInclusionPrice := none
        contract := { middle with config := (middle.config.promoteEvmVersion world.now).2 } }

variable {host : Host} {view : ChainView} {world : World} {request : Request} {call : TxCall}

theorem Calls.loose (loose : world.contract.Loose) (calls : Calls host view world request call) :
    call.contract.Loose := by
  cases calls with
  | pushes => exact loose.refreshPrices _
  | bridges _ payer tx middle bridges positive => exact (bridges.loose loose positive).promoted world.now

theorem Handled.calls {others later : List Request} {rest : List Pending} {holding : Name → Symbol → Nat}
    {contract : Contract} (handled : Handled host view others later request rest holding contract world) :
    (∀ execution, .ran execution ∉ contract.effects) ∨ ∃ call, Calls host view world request call ∧
      processTx (host.env view world.now request) call.rc call.miner call.txn call.minInclusionPrice call.contract =
        .ok contract := by
  rcases (Request.run_does handled.ran).quiet_or rfl with quiet | ⟨caller, auths, miner, rlptx, minPrice, rfl, processed⟩ |
    ⟨payer, tx, middle, bridges, dispatched⟩
  · exact Or.inl fun execution member => by cases quiet.silent _ member
  · exact Or.inr ⟨_, .pushes caller auths miner rlptx minPrice, processed⟩
  · rcases dispatchTx_ok dispatched with ⟨_, processed⟩ | ⟨_, _, rfl⟩
    · rcases handled.positive with rfl | positive
      · exact Or.inl fun execution member => by cases member
      · exact Or.inr ⟨_, .bridges request payer tx middle bridges positive, processed⟩
    · refine Or.inl fun execution member => ?_
      simp only [Contract.emit, bridges.effects.1, List.mem_append, List.mem_singleton] at member
      rcases member with member | member <;> cases member

end EosEvm

import EosEvm.Calls

/-! The miner cut never exceeds ninety percent. -/

namespace EosEvm

open Abort

namespace ConfigWrapper

variable {wrapper after : ConfigWrapper} {now : Nat}

def Capped (wrapper : ConfigWrapper) : Prop := wrapper.cached.minerCut ≤ ninetyPercent

theorem Capped.cut_le (capped : wrapper.Capped) (fee : Nat) : fee * wrapper.cached.minerCut / hundredPercent ≤ fee := by
  refine Nat.div_le_of_le_mul ?_
  rw [Nat.mul_comm hundredPercent]
  exact Nat.mul_le_mul_left _ (capped.trans (by decide))

theorem Capped.promoteEvmVersion (capped : wrapper.Capped) (now : Nat) :
    (wrapper.promoteEvmVersion now).2.Capped := by
  unfold Capped at capped ⊢
  simp only [ConfigWrapper.promoteEvmVersion]
  split
  · simp only [ConfigWrapper.set]
    split
    · exact Nat.zero_le _
    · exact capped
  · exact capped

theorem Capped.promoteConsensusParam (capped : wrapper.Capped) (now : Nat) :
    (wrapper.promoteConsensusParam now).2.2.Capped := by
  obtain ⟨_, same⟩ := promoteConsensusParam_eq wrapper now
  rw [same]
  exact capped

theorem Capped.refresh (capped : wrapper.Capped) (now : Nat) : (wrapper.refresh now).Capped := by
  obtain ⟨_, _, _, _, _, _, same⟩ := refresh_eq wrapper now
  rw [same]
  exact capped

theorem Capped.setFeeParameters {fees : FeeParameters} {allowUnspecified : Bool} (capped : wrapper.Capped)
    (updated : wrapper.setFeeParameters fees allowUnspecified now = .ok after) : after.Capped := by
  simp only [ConfigWrapper.setFeeParameters, bind_ok, pure_ok] at updated
  obtain ⟨priced, price, cut, mined, charged, charge, rfl⟩ := updated
  have pricedCapped : priced.Capped := by
    rcases setFeeGasPrice_ok price with ⟨_, rfl⟩ | ⟨_, _, ⟨_, _, queued⟩ | ⟨_, rfl⟩⟩
    · exact capped
    · obtain ⟨_, _, _, rfl⟩ := enqueueGasPrice_eq queued
      exact capped
    · exact capped
  have cutCapped : cut.Capped := by
    simp only [setFeeMinerCut] at mined
    split at mined <;> simp only [bind_ok, check_ok, exists_const, pure_ok] at mined
    · obtain ⟨_, small, rfl⟩ := mined
      exact small
    · exact mined.2 ▸ pricedCapped
  simp only [setFeeIngressBridgeFee, setIngressBridgeFee] at charge
  split at charge <;> simp only [bind_ok, check_ok, exists_const, pure_ok] at charge
  · obtain ⟨_, _, _, rfl⟩ := charge
    exact cutCapped
  · obtain ⟨_, rfl⟩ := charge
    exact cutCapped

theorem Capped.setEvmVersion {version : Nat} (capped : wrapper.Capped)
    (updated : wrapper.setEvmVersion version now = .ok after) : after.Capped := by
  simp only [ConfigWrapper.setEvmVersion, bind_ok, check_ok, exists_const, pure_ok] at updated
  obtain ⟨_, _, _, _, _, _, rfl⟩ := updated
  exact capped.promoteEvmVersion now

theorem Configures.capped {requested : Action} (capped : wrapper.Capped)
    (configures : wrapper.Configures now requested after) : after.Capped := by
  cases configures with
  | setfeeparams fees after updated => exact capped.setFeeParameters updated
  | freeze | setgaslimit => exact capped
  | setversion version after updated => exact capped.setEvmVersion updated
  | updtgasparam ramPriceMb storagePrice after updated =>
      obtain ⟨scheduled, _, rfl, _, _, ⟨_, queued⟩ | ⟨_, queued⟩⟩ := updateConsensusParameters_ok updated
      · obtain ⟨_, _, _, rfl⟩ := enqueueGasPrices_eq queued
        exact capped
      · obtain ⟨_, _, _, rfl⟩ := enqueueGasPrice_eq queued
        exact capped
  | setgasparam _ _ _ _ _ after updated =>
      obtain ⟨_, _, rfl⟩ := updateConsensusParameters2_ok updated
      exact capped
  | enqueued prices after active queued =>
      obtain ⟨_, _, _, rfl⟩ := enqueueGasPrices_eq queued
      exact capped.promoteEvmVersion now
  | replaced prices inactive => exact capped.promoteEvmVersion now

theorem Capped.started {start : ConfigWrapper} (capped : wrapper.Capped)
    (started : start = wrapper ∨ start = (wrapper.promoteEvmVersion now).2) : start.Capped := by
  rcases started with rfl | rfl
  · exact capped
  · exact capped.promoteEvmVersion now

theorem Updates.capped (capped : wrapper.Capped) (updates : wrapper.Updates now after) : after.Capped := by
  cases updates with
  | same => exact capped
  | refreshed => exact capped.refresh now
  | promoted => exact (capped.refresh now).promoteEvmVersion now

end ConfigWrapper

theorem Reconfigures.capped {env : Env} {before after : ConfigWrapper} {request : Request} {effects : List Effect}
    (capped : before.Capped) (reconfigures : Reconfigures env before request after effects) : after.Capped := by
  cases reconfigures with
  | starts caller auths chainid fees tokenContract token config unstored configured =>
      have charged : config.Capped := ConfigWrapper.Capped.setFeeParameters (by exact capped) configured
      exact charged
  | sets caller auths requested after configured => exact configured.capped capped
  | swaps => exact capped
  | updates request start after effects started updated quiet plain => exact updated.capped (capped.started started)
  | transacts request start after effects sender nonce ready started transacted plain =>
      rw [transacted.config]
      exact (((capped.started started).refresh env.now).promoteEvmVersion env.now).promoteConsensusParam env.now

variable {host : Host} {view : ChainView} {world next : World} {request : Request} {call : TxCall}

theorem Stepped.capped {label : Label} (capped : world.config.Capped) (stepped : Stepped host world label next) :
    next.config.Capped := by
  cases stepped with
  | tick | submit | passed => exact capped
  | handled view before after request rest holding contract handled =>
      obtain ⟨reconfigured, config⟩ := handled.reconfigures
      have changed : contract.config.Capped := reconfigured.capped capped
      unfold ConfigWrapper.Capped
      rw [config]
      exact changed

/-- Every reachable miner cut is at most ninety percent. -/
theorem run_capped {holding : Name → Symbol → Nat} {labels : List Label}
    (finished : run host labels (World.start holding) = .ok world) : world.config.Capped :=
  run_invariant (fun world => world.config.Capped) (fun _ _ _ _ capped stepped => stepped.capped capped)
    (Nat.zero_le _) finished

theorem Calls.capped (capped : world.config.Capped) (calls : Calls host view world request call) :
    call.contract.config.Capped := by
  cases calls with
  | pushes =>
      rw [refreshPrices_config]
      exact capped.refresh world.now
  | bridges _ payer tx middle bridges positive =>
      obtain ⟨start, started, config⟩ := bridges.config
      refine ConfigWrapper.Capped.promoteEvmVersion ?_ world.now
      rw [config]
      exact (capped.started started).refresh world.now

end EosEvm

import EosEvm.Dust
import EosEvm.Config

/-! The token a configuration stands for. Only the fee setter can give an empty
configuration its symbol, and nothing but a swap changes a symbol that is set. -/

namespace EosEvm

open Abort

namespace ConfigWrapper

/-- The token contract and the symbol. -/
def token (wrapper : ConfigWrapper) : Name × Symbol := (wrapper.cached.tokenContract, wrapper.getTokenSymbol)

variable {wrapper after : ConfigWrapper}

theorem getTokenSymbol_of_token (same : after.token = wrapper.token) :
    after.getTokenSymbol = wrapper.getTokenSymbol := congrArg Prod.snd same

theorem tokenContract_of_token (same : after.token = wrapper.token) :
    after.cached.tokenContract = wrapper.cached.tokenContract := congrArg Prod.fst same

@[simp] theorem promoteEvmVersion_token (wrapper : ConfigWrapper) (now : Nat) :
    (wrapper.promoteEvmVersion now).2.token = wrapper.token := by
  obtain ⟨_, _, same⟩ := promoteEvmVersion_eq wrapper now
  rw [same]
  rfl

@[simp] theorem promoteConsensusParam_token (wrapper : ConfigWrapper) (now : Nat) :
    (wrapper.promoteConsensusParam now).2.2.token = wrapper.token := by
  obtain ⟨_, same⟩ := promoteConsensusParam_eq wrapper now
  rw [same]
  rfl

@[simp] theorem processPriceQueue_token (wrapper : ConfigWrapper) (now : Nat) :
    (wrapper.processPriceQueue now).token = wrapper.token := by
  obtain ⟨_, _, _, _, _, _, same⟩ := processPriceQueue_eq wrapper now
  rw [same]
  rfl

theorem enqueueGasPrice_token {gasPrice now : Nat} (queued : wrapper.enqueueGasPrice gasPrice now = .ok after) :
    after.token = wrapper.token := by
  obtain ⟨_, _, _, rfl⟩ := enqueueGasPrice_eq queued
  rfl

theorem enqueueGasPrices_token {prices : GasPrices} {now : Nat}
    (queued : wrapper.enqueueGasPrices prices now = .ok after) : after.token = wrapper.token := by
  obtain ⟨_, _, _, rfl⟩ := enqueueGasPrices_eq queued
  rfl

theorem setEvmVersion_token {version now : Nat} (updated : wrapper.setEvmVersion version now = .ok after) :
    after.token = wrapper.token := by
  obtain ⟨_, _, _, _, _, rfl⟩ := setEvmVersion_ok updated
  rfl

theorem updateConsensusParameters2_token {gasTxnewaccount gasNewaccount gasTxcreate gasCodedeposit gasSset : Option Nat}
    {now : Nat} (updated : wrapper.updateConsensusParameters2 gasTxnewaccount gasNewaccount gasTxcreate
      gasCodedeposit gasSset now = .ok after) : after.token = wrapper.token := by
  obtain ⟨_, _, rfl⟩ := updateConsensusParameters2_ok updated
  rfl

theorem updateConsensusParameters_token {ramPriceMb : Asset} {storagePrice now : Nat}
    (updated : wrapper.updateConsensusParameters ramPriceMb storagePrice now = .ok after) :
    after.token = wrapper.token := by
  obtain ⟨scheduled, _, rfl, _, _, priced⟩ := updateConsensusParameters_ok updated
  rcases priced with ⟨_, queued⟩ | ⟨_, queued⟩
  · rw [enqueueGasPrices_token queued]
    rfl
  · rw [enqueueGasPrice_token queued]
    rfl

theorem setFeeParameters_charge {fees : FeeParameters} {allowUnspecified : Bool} {now : Nat}
    (updated : wrapper.setFeeParameters fees allowUnspecified now = .ok after) :
    ∃ cut charged, cut.token = wrapper.token ∧
      setFeeIngressBridgeFee cut fees.ingressBridgeFee allowUnspecified = .ok charged ∧ after = charged.set id := by
  simp only [setFeeParameters, bind_ok, pure_ok] at updated
  obtain ⟨priced, price, cut, mined, charged, charge, rfl⟩ := updated
  have pricedToken : priced.token = wrapper.token := by
    rcases setFeeGasPrice_ok price with ⟨_, rfl⟩ | ⟨_, _, ⟨_, _, queued⟩ | ⟨_, rfl⟩⟩
    · rfl
    · exact enqueueGasPrice_token queued
    · rfl
  have cutToken : cut.token = priced.token := by
    simp only [setFeeMinerCut] at mined
    split at mined <;> simp only [bind_ok, check_ok, exists_const, pure_ok] at mined
    · obtain ⟨_, _, rfl⟩ := mined
      rfl
    · rw [mined.2]
  exact ⟨cut, charged, cutToken.trans pricedToken, charge, rfl⟩

theorem setFeeParameters_dirty {fees : FeeParameters} {allowUnspecified : Bool} {now : Nat}
    (updated : wrapper.setFeeParameters fees allowUnspecified now = .ok after) : after.dirty = true := by
  obtain ⟨_, _, _, _, rfl⟩ := setFeeParameters_charge updated
  rfl

theorem setFeeParameters_given {fees : FeeParameters} {allowUnspecified : Bool} {now : Nat} {fee : Asset}
    (given : fees.ingressBridgeFee = some fee)
    (updated : wrapper.setFeeParameters fees allowUnspecified now = .ok after) :
    after.cached.tokenContract = wrapper.cached.tokenContract ∧ after.getTokenSymbol = fee.symbol ∧
      fee.symbol.precision ≤ evmPrecision ∧
      (wrapper.getTokenSymbol = Symbol.none ∨ fee.symbol = wrapper.getTokenSymbol) := by
  obtain ⟨cut, charged, same, charge, rfl⟩ := setFeeParameters_charge updated
  simp only [setFeeIngressBridgeFee, given, setIngressBridgeFee, bind_ok, check_ok, exists_const, pure_ok] at charge
  obtain ⟨keeps, _, precise, rfl⟩ := charge
  rw [getTokenSymbol_of_token same] at keeps
  have contract := tokenContract_of_token same
  exact ⟨contract, rfl, precise, keeps⟩

theorem setFeeParameters_omitted {fees : FeeParameters} {allowUnspecified : Bool} {now : Nat}
    (omitted : fees.ingressBridgeFee = none)
    (updated : wrapper.setFeeParameters fees allowUnspecified now = .ok after) :
    allowUnspecified = true ∧ after.token = wrapper.token := by
  obtain ⟨cut, charged, same, charge, rfl⟩ := setFeeParameters_charge updated
  simp only [setFeeIngressBridgeFee, omitted, bind_ok, check_ok, exists_const, pure_ok] at charge
  obtain ⟨allowed, rfl⟩ := charge
  exact ⟨allowed, same⟩

end ConfigWrapper

end EosEvm

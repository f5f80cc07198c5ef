import EosEvm.MinerCut
import EosEvm.Authenticity
import EosEvm.Debits

/-! `execute_tx` multiplies gas by prices in 256 bits and compares the product with the
largest 256-bit number. The same computations over unbounded numbers are `Exact`; on the
transactions that get to them they agree. -/

namespace EosEvm

open Abort Words

/-- What the library makes sure of: a transaction pays at least the base fee, its sender can
pay its highest cost, and it uses no more gas than its limit. -/
structure Silkworm.Meters (evm : Silkworm) : Prop where
  priced : ∀ header chainId gasParams tx baseFee, evm.preValidateTransaction header chainId gasParams tx = .ok →
    header.baseFeePerGas = some baseFee → baseFee ≤ tx.maxFeePerGas
  covered : ∀ input, evm.validateTransaction input = .ok .ok →
    ∃ balance, balance < 2 ^ 256 ∧ input.tx.gasLimit * input.tx.maxFeePerGas + input.tx.value ≤ balance
  metered : ∀ input output, evm.executeTransaction input = .ok output →
    output.cumulativeGasUsed ≤ input.tx.gasLimit

namespace Exact

def debitPayers (rc : RuntimeConfig) (tx : Transaction) (ingressAccount : Name) (funds : Funds) : Outcome Funds :=
  match rc.gasPayer with
  | some payer => do
      let paid ← funds.debit payer (tx.gasLimit * tx.maxFeePerGas) "gas payer account has not been opened"
      if 0 < tx.value then paid.debit ingressAccount tx.value missingKey else return paid
  | none => funds.debit ingressAccount (tx.value + tx.gasLimit * tx.maxFeePerGas) missingKey

def chargeSender (rc : RuntimeConfig) (tx : Transaction) (ingressAccount : Name) (funds : Funds) :
    Outcome (Funds × Nat) := do
  check (tx.gasLimit * tx.maxFeePerGas + tx.value < max256) "too much gas"
  let charged ← debitPayers rc tx ingressAccount funds
  let entered ← charged.enterEvm (tx.value + tx.gasLimit * tx.maxFeePerGas)
  return (entered, tx.value + tx.gasLimit * tx.maxFeePerGas)

def priorityFeePerGas (tx : Transaction) (baseFee : Nat) : Nat :=
  min tx.maxPriorityFeePerGas (tx.maxFeePerGas - baseFee)

/-- The price paid per unit of gas. -/
def effectiveGasPrice (tx : Transaction) (baseFee : Option Nat) : Nat :=
  priorityFeePerGas tx (baseFee.getD 0) + baseFee.getD 0

def minerPortion (config : ConfigWrapper) (now : Nat) (header : BlockHeader) (tx : Transaction)
    (output : RunOutput) : Outcome Nat :=
  if 3 ≤ config.getEvmVersion now then .ok output.inclusionFee
  else if 1 ≤ config.getEvmVersion now then do
    let baseFee ← require header.baseFeePerGas "no base fee"
    let gasFee := output.cumulativeGasUsed * priorityFeePerGas tx baseFee
    check (gasFee < max256) "too much gas"
    return gasFee
  else do
    let gasFee := output.cumulativeGasUsed * tx.maxFeePerGas
    check (gasFee < max256) "too much gas"
    return gasFee * config.cached.minerCut / hundredPercent

def refundGas (header : BlockHeader) (tx : Transaction) (sender : Address) (gasPayer : Option Name)
    (output : RunOutput) (funds : Funds) : Outcome Funds :=
  match gasPayer with
  | none => .ok funds
  | some payer => do
      let baseFee ← require header.baseFeePerGas "bad optional access"
      let maxGasCost := tx.gasLimit * tx.maxFeePerGas
      let gasFee := output.cumulativeGasUsed * (priorityFeePerGas tx baseFee + baseFee)
      check (gasFee < max256 ∧ maxGasCost < max256 ∧ gasFee < maxGasCost) "invalid gas fee"
      let ingressAccount ← require (extractReservedAddress sender) "bad optional access"
      let taken ← funds.debit ingressAccount (maxGasCost - gasFee) missingKey
      taken.credit payer (maxGasCost - gasFee) missingKey

def gasIncome (config : ConfigWrapper) (now : Nat) (header : BlockHeader) (tx : Transaction)
    (portion : Option Nat) (output : RunOutput) : Outcome Nat :=
  if 1 ≤ config.getEvmVersion now then do
    let baseFee ← require header.baseFeePerGas "bad optional access"
    let gasFee := output.cumulativeGasUsed * baseFee
    check (gasFee < max256) "too much gas"
    return gasFee
  else do
    let gasFee := output.cumulativeGasUsed * tx.maxFeePerGas
    check (gasFee < max256) "too much gas"
    return gasFee - portion.getD 0

end Exact

theorem maxGasCost_exact {tx : Transaction} (small : tx.gasLimit * tx.maxFeePerGas < 2 ^ 256) :
    maxGasCost tx = tx.gasLimit * tx.maxFeePerGas :=
  u256_of_lt small

theorem chargeSender_exact {tx : Transaction} (small : tx.gasLimit * tx.maxFeePerGas < 2 ^ 256) (rc : RuntimeConfig)
    (ingressAccount : Name) (funds : Funds) :
    chargeSender rc tx ingressAccount funds = Exact.chargeSender rc tx ingressAccount funds := by
  unfold chargeSender Exact.chargeSender
  rw [maxGasCost_exact small]
  by_cases fits : tx.gasLimit * tx.maxFeePerGas + tx.value < max256
  · have whole : u256 (tx.value + tx.gasLimit * tx.maxFeePerGas) = tx.value + tx.gasLimit * tx.maxFeePerGas := by
      refine u256_of_lt ?_
      unfold max256 at fits
      omega
    unfold debitPayers Exact.debitPayers
    rewrite [whole, maxGasCost_exact small]
    rfl
  · rw [check, if_neg fits]
    rfl

/-- What is known of a transaction whose run is settled. -/
structure Metered (header : BlockHeader) (tx : Transaction) (output : RunOutput) : Prop where
  priced : ∀ baseFee, header.baseFeePerGas = some baseFee → baseFee ≤ tx.maxFeePerGas
  covered : tx.gasLimit * tx.maxFeePerGas < 2 ^ 256
  metered : output.cumulativeGasUsed ≤ tx.gasLimit

namespace Metered

variable {header : BlockHeader} {tx : Transaction} {output : RunOutput} {baseFee : Nat}

theorem price_lt (metered : Metered header tx output) (used : 0 < output.cumulativeGasUsed) :
    tx.maxFeePerGas < 2 ^ 256 :=
  (Nat.le_mul_of_pos_left _ (used.trans_le metered.metered)).trans_lt metered.covered

theorem tip_exact (metered : Metered header tx output) (some : header.baseFeePerGas = some baseFee) :
    output.cumulativeGasUsed * tx.priorityFeePerGas baseFee =
      output.cumulativeGasUsed * Exact.priorityFeePerGas tx baseFee := by
  rcases Nat.eq_zero_or_pos output.cumulativeGasUsed with unused | used
  · simp only [unused, Nat.zero_mul]
  · unfold Transaction.priorityFeePerGas Exact.priorityFeePerGas
    rw [sub256_of_le (metered.price_lt used) (metered.priced baseFee some)]

theorem effective_le (metered : Metered header tx output) (some : header.baseFeePerGas = some baseFee) :
    Exact.priorityFeePerGas tx baseFee + baseFee ≤ tx.maxFeePerGas := by
  have priced := metered.priced baseFee some
  unfold Exact.priorityFeePerGas
  omega

theorem fee_le (metered : Metered header tx output) {price : Nat} (most : price ≤ tx.maxFeePerGas) :
    output.cumulativeGasUsed * price ≤ tx.gasLimit * tx.maxFeePerGas :=
  Nat.mul_le_mul metered.metered most

theorem fee_exact (metered : Metered header tx output) {price : Nat} (most : price ≤ tx.maxFeePerGas) :
    u256 (output.cumulativeGasUsed * price) = output.cumulativeGasUsed * price :=
  u256_of_lt ((metered.fee_le most).trans_lt metered.covered)

theorem spent_exact (metered : Metered header tx output) (some : header.baseFeePerGas = some baseFee) :
    u256 (output.cumulativeGasUsed * u256 (tx.priorityFeePerGas baseFee + baseFee)) =
      output.cumulativeGasUsed * (Exact.priorityFeePerGas tx baseFee + baseFee) := by
  have most := metered.effective_le some
  rcases Nat.eq_zero_or_pos output.cumulativeGasUsed with unused | used
  · simp only [unused, Nat.zero_mul]
    rfl
  · have tip : tx.priorityFeePerGas baseFee = Exact.priorityFeePerGas tx baseFee :=
      Nat.eq_of_mul_eq_mul_left used (metered.tip_exact some)
    rw [tip, u256_of_lt (most.trans_lt (metered.price_lt used)), metered.fee_exact most]

theorem minerPortion_exact (metered : Metered header tx output) {config : ConfigWrapper} (capped : config.Capped)
    (now : Nat) : minerPortion config now header tx output = Exact.minerPortion config now header tx output := by
  unfold minerPortion Exact.minerPortion
  by_cases three : 3 ≤ config.getEvmVersion now
  · simp only [if_pos three]
  · by_cases one : 1 ≤ config.getEvmVersion now
    · simp only [if_neg three, if_pos one]
      cases found : header.baseFeePerGas with
      | none => simp only [require, error_bind]
      | some baseFee =>
          have least := metered.effective_le found
          simp only [require, ok_bind, metered.tip_exact found]
          rw [metered.fee_exact (by omega)]
    · have share : output.cumulativeGasUsed * tx.maxFeePerGas * config.cached.minerCut / hundredPercent < 2 ^ 256 := by
        exact (capped.cut_le _).trans_lt ((metered.fee_le (Nat.le_refl _)).trans_lt metered.covered)
      simp only [if_neg three, if_neg one, metered.fee_exact (Nat.le_refl _), u256_of_lt share]

theorem refundGas_exact (metered : Metered header tx output) (sender : Address) (gasPayer : Option Name)
    (funds : Funds) :
    refundGas header tx sender gasPayer output funds = Exact.refundGas header tx sender gasPayer output funds := by
  unfold refundGas Exact.refundGas
  cases gasPayer with
  | none => rfl
  | some payer =>
      cases found : header.baseFeePerGas with
      | none => simp only [require, error_bind]
      | some baseFee =>
          simp only [require, ok_bind]
          rw [metered.spent_exact found, maxGasCost_exact metered.covered]

theorem gasIncome_exact (metered : Metered header tx output) (config : ConfigWrapper) (now : Nat)
    {portion : Option Nat}
    (least : config.getEvmVersion now = 0 → portion.getD 0 ≤ output.cumulativeGasUsed * tx.maxFeePerGas) :
    gasIncome config now header tx portion output = Exact.gasIncome config now header tx portion output := by
  unfold gasIncome Exact.gasIncome
  split
  · cases found : header.baseFeePerGas with
    | none => simp only [require, error_bind]
    | some baseFee =>
        simp only [require, ok_bind, metered.fee_exact (metered.priced baseFee found)]
  · rename_i zero
    have whole := (metered.fee_le (Nat.le_refl _)).trans_lt metered.covered
    simp only [metered.fee_exact (Nat.le_refl _), sub256_of_le whole (least (by omega))]

end Metered

theorem Exact.minerPortion_le {config : ConfigWrapper} (capped : config.Capped) {now : Nat} {header : BlockHeader}
    {tx : Transaction} {output : RunOutput} {portion : Nat} (zero : config.getEvmVersion now = 0)
    (shared : Exact.minerPortion config now header tx output = .ok portion) :
    portion ≤ output.cumulativeGasUsed * tx.maxFeePerGas := by
  unfold Exact.minerPortion at shared
  rw [if_neg (by omega), if_neg (by omega)] at shared
  simp only [bind_ok, check_ok, exists_const, pure_ok] at shared
  obtain ⟨_, rfl⟩ := shared
  exact capped.cut_le _

theorem minerShare_ok {env : Env} {context : TxContext} {output : RunOutput} {portion : Option Nat}
    (shared : minerShare env context output = .ok portion) :
    payableMiner env.self context.miner = none ∧ portion = none ∨
      ∃ miner amount, payableMiner env.self context.miner = some miner ∧ portion = some amount ∧
        minerPortion context.config env.now context.header context.tx output = .ok amount := by
  unfold minerShare at shared
  split at shared
  · rename_i miner payable
    simp only [bind_ok, pure_ok] at shared
    obtain ⟨amount, portioned, rfl⟩ := shared
    exact Or.inr ⟨miner, amount, payable, rfl, portioned⟩
  · rename_i payable
    cases shared
    exact Or.inl ⟨payable, rfl⟩

variable {env : Env} {context : TxContext} {funds charged : Funds} {fromSelf : Bool} {input : RunInput}
  {output : RunOutput}

theorem Silkworm.Meters.metered_of_ran (meters : env.evm.Meters)
    (begun : beginTx env context funds = .ok (charged, fromSelf, input))
    (validated : env.evm.validateTransaction input = .ok .ok) (ran : env.evm.executeTransaction input = .ok output) :
    Metered context.header context.tx output := by
  have accepted := beginTx_preValidated begun
  obtain ⟨_, _, _, _, rfl⟩ := beginTx_ok begun
  obtain ⟨balance, fits, least⟩ := meters.covered _ validated
  exact ⟨fun baseFee found => meters.priced _ _ _ _ baseFee accepted found, by dsimp only at least; omega,
    meters.metered _ _ ran⟩

/-- No callback of `exec` is about to be handled as a `pushtx`. -/
def World.Genuine (host : Host) (world : World) : Prop :=
  ∀ sent rest callback output miner rlptx minPrice, world.stack = .sent sent :: rest →
    sent.action = .callback callback output →
    host.unpackAction callback.action output ≠ some (.pushtx miner rlptx minPrice)

theorem Calls.isBridge {host : Host} {world : World} {view : ChainView} {request : Request} {rest : List Pending}
    {call : TxCall} {tx : Transaction} (signs : host.evm.Signs) (traced : world.Traced host)
    (genuine : world.Genuine host) (top : Top host world.stack request rest)
    (calls : Calls host view world request call) (decoded : call.txn.getTx host.evm = .ok tx)
    (relaxed : call.rc.allowSpecialSignature = true) : ∃ nonce s, tx.IsBridge nonce s := by
  cases calls with
  | pushes caller auths miner rlptx minPrice =>
      have own : caller = some host.self := by
        by_contra other
        simp [Contract.pushtxConfig, Host.env, other] at relaxed
      obtain ⟨sent, stack, _, unpacked⟩ := traced.own_request top own
      obtain ⟨inside, ⟨_, _, leaves⟩, _⟩ := traced.sent sent (stack ▸ List.mem_cons_self ..)
      cases action : sent.action with
      | pushtx sender encoded =>
          rw [action] at unpacked inside
          cases unpacked
          obtain ⟨made, nonce, s, form, _, rfl, _⟩ := leaves.of_pushtx inside
          simp only [Txn.getTx, Host.env, signs.decoded made nonce s form] at decoded
          cases decoded
          exact ⟨nonce, s, form⟩
      | callback callback output =>
          rw [action] at unpacked
          obtain ⟨_, found, same⟩ := Option.map_eq_some_iff.mp unpacked
          cases same
          exact absurd found (genuine sent rest callback output miner rlptx minPrice stack action)
      | _ => rw [action] at unpacked; cases unpacked
  | bridges _ payer made middle bridges _ =>
      cases decoded
      exact bridges.effects.2

/-- In every reachable state, the products of gas and prices are exact wherever `execute_tx`
forms them: up front for the transactions the contract signs, with prices and gas limits of 64
bits, and after the run for all that were validated. -/
theorem run_gasCost_exact (host : Host) (signs : host.evm.Signs) (meters : host.evm.Meters)
    (holding : Name → Symbol → Nat) (labels : List Label) (world : World)
    (finished : run host labels (World.start holding) = .ok world) (genuine : world.Genuine host) (view : ChainView)
    (request : Request) (rest : List Pending) (top : Top host world.stack request rest) (call : TxCall)
    (calls : Calls host view world request call) (tx : Transaction) (decoded : call.txn.getTx host.evm = .ok tx) :
    let env := host.env view world.now request
    let context := contextOf env call.rc call.miner tx call.contract
    (call.rc.allowSpecialSignature = true →
      tx.gasLimit < 2 ^ 64 ∧ tx.maxFeePerGas < 2 ^ 64 ∧ ∀ account funds,
        chargeSender call.rc tx account funds = Exact.chargeSender call.rc tx account funds) ∧
    ∀ charged fromSelf input output,
      beginTx env context call.contract.funds = .ok (charged, fromSelf, input) →
      env.evm.validateTransaction input = .ok .ok → env.evm.executeTransaction input = .ok output →
      minerPortion context.config env.now context.header tx output =
          Exact.minerPortion context.config env.now context.header tx output ∧
        (∀ funds, refundGas context.header tx input.sender call.rc.gasPayer output funds =
          Exact.refundGas context.header tx input.sender call.rc.gasPayer output funds) ∧
        ∀ portion, minerShare env context output = .ok portion →
          gasIncome context.config env.now context.header tx portion output =
            Exact.gasIncome context.config env.now context.header tx portion output := by
  intro env context
  have capped : context.config.Capped :=
    ((calls.capped (run_capped finished)).promoteEvmVersion world.now).promoteConsensusParam world.now
  refine ⟨fun relaxed => ?_, ?_⟩
  · obtain ⟨nonce, s, form⟩ := calls.isBridge signs (run_traced finished) genuine top decoded relaxed
    refine ⟨form.limited, form.priced, fun account funds => ?_⟩
    have product : tx.gasLimit * tx.maxFeePerGas < 2 ^ 64 * 2 ^ 64 := Nat.mul_lt_mul'' form.limited form.priced
    exact chargeSender_exact (product.trans (by norm_num)) call.rc account funds
  · intro charged fromSelf input output begun validated ran
    have metered : Metered context.header tx output := Silkworm.Meters.metered_of_ran meters begun validated ran
    have portioned := metered.minerPortion_exact capped env.now
    refine ⟨portioned, metered.refundGas_exact input.sender call.rc.gasPayer, ?_⟩
    intro portion shared
    refine metered.gasIncome_exact context.config env.now fun zero => ?_
    rcases minerShare_ok shared with ⟨_, rfl⟩ | ⟨_, amount, _, rfl, amounts⟩
    · exact Nat.zero_le _
    · exact Exact.minerPortion_le capped zero (portioned ▸ amounts)

namespace Ledger

def executeOrdinary (input : RunInput) : Outcome RunOutput := do
  let read ← (State.fresh input.db false false).readAccount input.sender
  let account ← require read.1 "no account"
  let fee := gasUsed input.tx * Exact.effectiveGasPrice input.tx input.header.baseFeePerGas
  check (fee ≤ account.balance) "insufficient funds"
  return receipt input.tx (accumulate Table.empty input.header.beneficiary fee) []
    (some (.object input.sender read.1
      (some { account with nonce := account.nonce + 1, balance := account.balance - fee }) []))

def market : Silkworm :=
  { evm with
    decodeTransaction := fun bytes => (decodeTransaction bytes).map fun tx =>
      { tx with chainId := if tx.isSpecialSignature then none else some 15555 }
    preValidateTransaction := fun header _ _ tx =>
      if header.baseFeePerGas.getD 0 ≤ tx.maxFeePerGas then .ok else .maxFeeLessThanBase
    validateTransaction := fun input => .ok
      (if input.tx.gasLimit * input.tx.maxFeePerGas + input.tx.value < 2 ^ 256 then .ok else .insufficientFunds)
    executeTransaction := fun input =>
      if input.funded.isSome then executeTransaction input else executeOrdinary input }

def marketHost : Host := { host with evm := market }

theorem gasUsed_le (tx : Transaction) : gasUsed tx ≤ tx.gasLimit := Nat.min_le_left _ _

theorem executeTransaction_gasUsed {input : RunInput} {output : RunOutput}
    (ran : executeTransaction input = .ok output) : output.cumulativeGasUsed = gasUsed input.tx := by
  simp only [executeTransaction, bind_ok, require_ok, check_ok, exists_const] at ran
  obtain ⟨funded, _, account, _, recipient, _, _, ran⟩ := ran
  split at ran
  · rw [pure_ok] at ran
    exact ran ▸ rfl
  · simp only [bind_ok, pure_ok] at ran
    obtain ⟨_, _, rfl⟩ := ran
    rfl

theorem executeOrdinary_gasUsed {input : RunInput} {output : RunOutput}
    (ran : executeOrdinary input = .ok output) : output.cumulativeGasUsed = gasUsed input.tx := by
  simp only [executeOrdinary, bind_ok, require_ok, check_ok, exists_const, pure_ok] at ran
  obtain ⟨_, _, _, _, _, rfl⟩ := ran
  rfl

theorem market_meters : market.Meters where
  priced := by
    intro header chainId gasParams tx baseFee accepted found
    simp only [market, found, Option.getD_some] at accepted
    split at accepted
    · assumption
    · cases accepted
  covered := by
    intro input validated
    simp only [market, Except.ok.injEq] at validated
    split at validated
    · exact ⟨_, by assumption, Nat.le_refl _⟩
    · cases validated
  metered := by
    intro input output ran
    simp only [market] at ran
    split at ran
    · rw [executeTransaction_gasUsed ran]
      exact gasUsed_le _
    · rw [executeOrdinary_gasUsed ran]
      exact gasUsed_le _

theorem market_signs : market.Signs where
  named := evm_signs.named
  padded := evm_signs.padded
  reserved := evm_signs.reserved
  decoded := by
    intro tx nonce s form
    have decoded : decodeTransaction (encodeTransaction tx) = some tx := evm_signs.decoded tx nonce s form
    have kept : { tx with chainId := if tx.isSpecialSignature then none else some 15555 } = tx := by
      rw [form.special, if_pos rfl, ← form.chainId]
    show (decodeTransaction (encodeTransaction tx)).map _ = some tx
    rw [decoded, Option.map_some, kept]

def ordinaryFunded : List Label := opening ++ pay bob 500000 "0x0123456789012345678901234567890123456789" 1

def ordinary : Transaction where
  chainId := some 15555
  nonce := 0
  maxPriorityFeePerGas := 200000000000
  maxFeePerGas := 200000000000
  gasLimit := 21000
  recipient := some 1
  value := 0
  r := 275128666552365745816705927789606773184219527225
  s := 1

def mine (miner : Name) : Request := .action none [miner] (.pushtx miner (evm.encodeTransaction ordinary) none)

def mineEnv (miner : Name) (now : Nat) : Env := marketHost.env view now (mine miner)

def mineContract (miner : Name) (world : World) : Contract :=
  refreshPrices (mineEnv miner world.now) world.contract

def mineContext (miner : Name) (world : World) : TxContext :=
  contextOf (mineEnv miner world.now) (Contract.pushtxConfig (mineEnv miner world.now)) miner ordinary
    (mineContract miner world)

def calling : Request := .action none [alice] (callNothing alice 21000)

def callingTx (world : World) : Transaction :=
  callTx (marketHost.env view world.now calling) alice.val (List.replicate 20 1) 0 [] 21000 0
    { world.contract with nextnonces := world.contract.nextnonces.put alice 1 }

end Ledger

theorem World.Genuine.of_request (host : Host) {world : World} {request : Request}
    (stack : world.stack = [.request request]) : world.Genuine host := by
  intro sent rest callback output miner rlptx minPrice top
  rw [stack] at top
  cases top

/-- The up-front charge of a call and the portion of a miner, which are exact. -/
theorem run_gasCost_exact_called_mined :
    (∃ world, run Ledger.marketHost (Ledger.versionOne ++ [.submit [Ledger.calling]]) (World.start fun _ _ => 0) =
        .ok world ∧
      ∃ charged, chargeSender (bridgeConfig none) (Ledger.callingTx world) Ledger.alice world.contract.funds =
          .ok (charged, 21000 * 150000000000) ∧
        Exact.chargeSender (bridgeConfig none) (Ledger.callingTx world) Ledger.alice world.contract.funds =
          .ok (charged, 21000 * 150000000000)) ∧
    ∃ world after sent input output,
      run Ledger.marketHost (Ledger.ordinaryFunded ++ [.submit [Ledger.mine Ledger.alice]])
        (World.start fun _ _ => 0) = .ok world ∧
      executeTx (Ledger.mineEnv Ledger.alice world.now) (Ledger.mineContext Ledger.alice world)
        (Ledger.mineContract Ledger.alice world).funds = .ok (after, sent, input, output) ∧
      output.cumulativeGasUsed = 21000 ∧
      Exact.minerPortion (Ledger.mineContext Ledger.alice world).config world.now
        (Ledger.mineContext Ledger.alice world).header Ledger.ordinary output = .ok 420000000000000 := by
  refine ⟨?_, ?_⟩
  · obtain ⟨world, reached, seen⟩ := exists_of_view
      (run Ledger.marketHost (Ledger.versionOne ++ [.submit [Ledger.calling]]) (World.start fun _ _ => 0))
      (fun world => (world.stack, world.contract.nextnonces.get? Ledger.alice,
        (chargeSender (bridgeConfig none) (Ledger.callingTx world) Ledger.alice world.contract.funds).toOption.map
          Prod.snd))
      ([.request Ledger.calling], some 0, some (21000 * 150000000000)) (by decide +kernel)
    simp only [Prod.mk.injEq] at seen
    obtain ⟨stack, nonce, charge⟩ := seen
    obtain ⟨⟨charged, _⟩, charges, rfl⟩ := exists_of_view _ Prod.snd _ charge
    have bridges : Contract.Bridges (Ledger.marketHost.env Ledger.view world.now Ledger.calling) world.contract
        Ledger.calling none (Ledger.callingTx world) _ :=
      .call none [Ledger.alice] Ledger.alice (List.replicate 20 1) (List.replicate 32 0) [] 21000 0 _
        (List.mem_singleton_self _) nonce ⟨0, by rfl, rfl⟩
    have calls : Calls Ledger.marketHost Ledger.view world Ledger.calling _ :=
      .bridges _ none _ _ bridges (fun _ _ _ _ _ same => by cases same)
    obtain ⟨_, _, exact⟩ := (run_gasCost_exact Ledger.marketHost Ledger.market_signs Ledger.market_meters _ _ world
      reached (.of_request _ stack) Ledger.view Ledger.calling [] (stack ▸ .request _ _) _ calls
      (Ledger.callingTx world) rfl).1 rfl
    exact ⟨world, reached, charged, charges, (exact _ _).symm.trans charges⟩
  · obtain ⟨world, reached, seen⟩ := exists_of_view
      (run Ledger.marketHost (Ledger.ordinaryFunded ++ [.submit [Ledger.mine Ledger.alice]]) (World.start fun _ _ => 0))
      (fun world => (world.stack, decide ((executeTx (Ledger.mineEnv Ledger.alice world.now)
        (Ledger.mineContext Ledger.alice world) (Ledger.mineContract Ledger.alice world).funds).toOption.map
          (fun result => decide (result.2.2.2.cumulativeGasUsed = 21000 ∧
            (minerPortion (Ledger.mineContext Ledger.alice world).config world.now
              (Ledger.mineContext Ledger.alice world).header Ledger.ordinary result.2.2.2).toOption =
                some 420000000000000)) = some true))) ([.request (Ledger.mine Ledger.alice)], true) (by decide +kernel)
    obtain ⟨stack, seen⟩ := Prod.mk.inj seen
    obtain ⟨⟨after, sent, input, output⟩, executed, checked⟩ := exists_of_view _ _ _ (of_decide_eq_true seen)
    obtain ⟨used, portion⟩ := of_decide_eq_true checked
    obtain ⟨amount, portioned, rfl⟩ := exists_of_view _ id _ (by simpa using portion)
    obtain ⟨charged, fromSelf, begun, validated, ran, _⟩ := executeTx_ok executed
    have decoded : Txn.getTx Ledger.market (.ofRlp (Ledger.evm.encodeTransaction Ledger.ordinary)) =
        .ok Ledger.ordinary := by
      have read : Ledger.market.decodeTransaction (Ledger.evm.encodeTransaction Ledger.ordinary) =
          some Ledger.ordinary := by decide +kernel
      simp only [Txn.getTx, read, require]
    obtain ⟨_, exact⟩ := run_gasCost_exact Ledger.marketHost Ledger.market_signs Ledger.market_meters _ _ world reached
      (.of_request _ stack) Ledger.view (Ledger.mine Ledger.alice) [] (stack ▸ .request _ _) _
      (.pushes none [Ledger.alice] Ledger.alice (Ledger.evm.encodeTransaction Ledger.ordinary) none) Ledger.ordinary
      decoded
    exact ⟨world, after, sent, input, output, reached, executed, used,
      (exact charged fromSelf input output begun validated ran).1.symm.trans portioned⟩

end EosEvm

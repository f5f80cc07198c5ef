import EosEvm.GasCost
import EosEvm.Swap
import EosEvm.Rows
import EosEvm.Debits

/-! The statistics of gas fees. In every reachable state the recorded income is a sum that can
be added to, and each transaction adds its share to it. -/

namespace EosEvm

open Abort Words

namespace Funds

variable {symbol : Symbol} {funds after : Funds} {config : ConfigWrapper}

def Counted (funds : Funds) : Prop :=
  ∀ statistics, funds.statistics = some statistics → statistics.gasFeeIncome.Loose

theorem Counted.statisticsIn (counted : funds.Counted) (symbol : Symbol) :
    (funds.statisticsIn symbol).gasFeeIncome.Loose := by
  cases found : funds.statistics with
  | none =>
      rw [Funds.statisticsIn, found]
      exact BalanceWithDust.zero_loose symbol
  | some statistics =>
      rw [Funds.statisticsIn, found]
      exact counted statistics found

theorem Counted.move (counted : funds.Counted) (move : Move symbol funds after) : after.Counted := by
  cases move with
  | credit owner amount missing after credited =>
      obtain ⟨_, _, _, _, rfl⟩ := Funds.credit_ok.mp credited
      exact counted
  | debit owner amount missing after debited =>
      obtain ⟨_, _, _, _, rfl⟩ := Funds.debit_ok.mp debited
      exact counted
  | enters amount after entered =>
      obtain ⟨_, _, _, _, rfl⟩ := Funds.enterEvm_ok.mp entered
      exact counted
  | leaves amount after left =>
      obtain ⟨_, _, _, _, rfl⟩ := Funds.leaveEvm_ok.mp left
      exact counted
  | records config statistics income gasFeeIncome configured found added =>
      obtain ⟨_, rfl⟩ := getStatistics_ok found
      intro stored same
      cases same
      exact ((counted.statisticsIn _).add_spec added).1

theorem Counted.moves (counted : funds.Counted) (moves : Moves symbol funds after) : after.Counted := by
  induction moves with
  | refl => exact counted
  | tail _ move ih => exact ih.move move

end Funds

namespace Contract

variable {env : Env} {before after middle : Contract} {request : Request}

def Counted (contract : Contract) : Prop := contract.funds.Counted

theorem Counted.processTx {rc : RuntimeConfig} {miner : Name} {txn : Txn} {minPrice : Option Nat}
    (counted : before.Counted) (processed : processTx env rc miner txn minPrice before = .ok after) : after.Counted := by
  obtain ⟨moves, _⟩ := processTx_opened processed
  exact Funds.Counted.moves counted moves

theorem Counted.refreshPrices (counted : before.Counted) (env : Env) : (refreshPrices env before).Counted := by
  rw [refreshPrices_eq]
  exact counted

theorem Counted.opening {owner : Name} (counted : before.Counted) (opened : openInternalBalance owner before = .ok after) :
    after.Counted := by
  obtain ⟨_, _, rfl⟩ := openInternalBalance_ok opened
  exact counted

theorem Counted.deposit {owner : Name} {quantity : Asset} {missing : String} (counted : before.Counted)
    (deposited : before.deposit owner quantity missing = .ok after) : after.Counted := by
  obtain ⟨_, _, _, _, rfl⟩ := deposit_ok deposited
  exact counted

theorem Counted.recordIngressFee (counted : before.Counted) (recorded : before.recordIngressFee = .ok after) :
    after.Counted := by
  simp only [Contract.recordIngressFee, bind_ok, pure_ok] at recorded
  obtain ⟨statistics, found, _, _, rfl⟩ := recorded
  obtain ⟨_, rfl⟩ := Funds.getStatistics_ok found
  rintro _ ⟨⟩
  exact Funds.Counted.statisticsIn counted _

theorem Counted.swapgastoken {newTokenContract : Name} {newSymbol : Symbol} {swapDestAccount : Name} {swapMemo : Bytes}
    (counted : before.Counted)
    (ran : swapgastoken env newTokenContract newSymbol swapDestAccount swapMemo before = .ok after) : after.Counted := by
  have renamed := (swapgastoken_renames ran).statistics
  intro statistics found
  rw [renamed] at found
  cases found
  exact (Funds.Counted.statisticsIn counted newSymbol).withSymbol newSymbol

theorem Bridges.counted {payer : Option Name} {tx : Transaction} (counted : before.Counted)
    (bridges : Bridges env before request payer tx middle) : middle.Counted := by
  cases bridges with
  | call => exact Counted.refreshPrices (by exact counted) env
  | callotherpay => exact Counted.refreshPrices (by exact counted) env
  | admincall _ _ _ _ _ _ _ _ address _ numbered _ numbers _ =>
      refine Counted.refreshPrices ?_ env
      obtain ⟨_, rfl, _⟩ := adminNonce_ok numbers
      exact counted
  | ingress token sender quantity memo _ _ received recorded deposited records _ _ =>
      have recorded : recorded.Counted := ((counted.refreshPrices env).deposit deposited).recordIngressFee records
      exact recorded

theorem Does.counted (counted : before.Counted) (did : Does env before request after) : after.Counted := by
  cases did with
  | init caller auths chainid fees tokenContract after ran =>
      obtain ⟨_, _, _, _, _, opened⟩ := init_ok ran
      exact Counted.opening (by exact counted) opened
  | configures | idles | announces | edits | lists | replies => exact counted
  | swaps caller auths newTokenContract newSymbol swapDestAccount swapMemo after ran => exact counted.swapgastoken ran
  | opens caller auths requested owner receivers after opening opened =>
      exact Counted.opening (by exact counted) opened
  | closes caller auths owner after ran =>
      obtain ⟨_, _, _, _, _, _, rfl⟩ := close_ok ran
      exact counted
  | withdraws caller auths owner quantity recipient after ran =>
      obtain ⟨_, _, _, _, _, _, _, _, rfl⟩ := withdraw_ok ran
      exact counted
  | deposits token sender quantity memo receiver after deposited =>
      exact (counted.refreshPrices env).deposit deposited
  | adjustsEvm caller auths id delta subtract after ran =>
      obtain ⟨_, _, rfl, moves⟩ := addevmbal_moves ran
      exact Funds.Counted.moves counted moves
  | adjustsOpen caller auths holder delta subtract after ran =>
      obtain ⟨_, rfl, moves⟩ := addopenbal_moves ran
      exact Funds.Counted.moves counted moves
  | migrates caller auths fromName limit after ran =>
      obtain ⟨_, _, _, _, _, rfl⟩ := migratebal_ok ran
      exact counted
  | pushes caller auths miner rlptx minPrice after ready processed =>
      exact (counted.refreshPrices env).processTx processed
  | bridges request payer tx middle after ready bridges dispatched =>
      have kept := bridges.counted counted
      rcases dispatchTx_ok dispatched with ⟨_, processed⟩ | ⟨_, _, rfl⟩
      · exact Counted.processTx (by exact kept) processed
      · exact kept

end Contract

variable {host : Host} {view : ChainView} {world next : World} {request : Request} {call : TxCall}

theorem Stepped.counted {label : Label} (counted : world.contract.Counted) (stepped : Stepped host world label next) :
    next.contract.Counted := by
  cases stepped with
  | tick | submit | passed => exact counted
  | handled view before after request rest holding contract handled =>
      have kept : contract.Counted := (Request.run_does handled.ran).counted counted
      exact kept

/-- In every reachable state the recorded income is loose. -/
theorem run_counted {holding : Name → Symbol → Nat} {labels : List Label}
    (finished : run host labels (World.start holding) = .ok world) : world.contract.Counted :=
  run_invariant (fun world => world.contract.Counted) (fun _ _ _ _ counted stepped => stepped.counted counted)
    (fun _ found => by cases found) finished

theorem Calls.counted (counted : world.contract.Counted) (calls : Calls host view world request call) :
    call.contract.Counted := by
  cases calls with
  | pushes => exact counted.refreshPrices _
  | bridges _ payer tx middle bridges positive =>
      have kept : middle.Counted := bridges.counted counted
      exact kept

/-! The income of one transaction. -/

section Income

variable {env : Env} {funds after : Funds} {context : TxContext} {input : RunInput} {output : RunOutput}
  {sent : List Inline}

theorem prepareSender_fromSelf {rc : RuntimeConfig} {tx : Transaction} {sender : Address} {fromSelf : Bool}
    {funded : Option (Nat × Nat)} (prepared : prepareSender env rc tx sender funds = .ok (after, fromSelf, funded)) :
    fromSelf = (tx.isSpecialSignature && decide (sender = makeReservedAddress env.self)) := by
  simp only [prepareSender] at prepared
  split at prepared
  · rename_i special
    rw [special, Bool.true_and]
    simp only [bind_ok, check_ok, exists_const] at prepared
    obtain ⟨_, prepared⟩ := prepared
    split at prepared
    · rename_i ordinary
      simp only [pure_ok, Prod.mk.injEq] at prepared
      obtain ⟨_, rfl, _⟩ := prepared
      rw [eq_comm, decide_eq_false_iff_not]
      rintro rfl
      rw [extractReservedAddress_makeReservedAddress] at ordinary
      cases ordinary
    · rename_i account reserved
      simp only [bind_ok, pure_ok, Prod.mk.injEq] at prepared
      obtain ⟨_, _, _, rfl, _⟩ := prepared
      obtain rfl := (extractReservedAddress_eq_some _ _).mp reserved
      rw [beq_eq_decide, decide_eq_decide]
      exact ⟨congrArg makeReservedAddress, makeReservedAddress_injective⟩
  · rename_i ordinary
    simp only [Except.ok.injEq, Prod.mk.injEq] at prepared
    obtain ⟨_, rfl, _⟩ := prepared
    rw [Bool.eq_false_of_not_eq_true ordinary, Bool.false_and]

theorem recordGasFee_gasFeeValue (counted : funds.Counted) {config : ConfigWrapper} {now : Nat} {header : BlockHeader}
    {tx : Transaction} {portion : Option Nat}
    (recorded : recordGasFee config now header tx portion false output funds = .ok after) :
    ∃ income, gasIncome config now header tx portion output = .ok income ∧
      after.gasFeeValue = funds.gasFeeValue + income := by
  simp only [recordGasFee, Bool.false_eq_true, if_false, bind_ok, pure_ok] at recorded
  obtain ⟨statistics, found, income, earned, gasFeeIncome, added, rfl⟩ := recorded
  obtain ⟨_, rfl⟩ := Funds.getStatistics_ok found
  obtain ⟨_, _, _, value⟩ := (counted.statisticsIn _).add_spec added
  refine ⟨income, earned, ?_⟩
  rw [← Funds.statisticsIn_gasFeeValue funds, ← value]
  rfl

theorem refundGas_statistics {symbol : Symbol} (loose : funds.Loose symbol) {header : BlockHeader} {tx : Transaction}
    {sender : Address} {gasPayer : Option Name}
    (refunded : refundGas header tx sender gasPayer output funds = .ok after) : after.statistics = funds.statistics := by
  cases gasPayer with
  | none =>
      cases refunded
      rfl
  | some payer =>
      obtain ⟨_, _, _, _, _, shifts⟩ := refundGas_shifts loose refunded
      exact shifts.statistics

theorem executeTx_records (loose : funds.Loose context.config.getTokenSymbol) (counted : funds.Counted)
    (executed : executeTx env context funds = .ok (after, sent, input, output)) :
    ∃ charged fromSelf portion refunded, beginTx env context funds = .ok (charged, fromSelf, input) ∧
      env.evm.validateTransaction input = .ok .ok ∧ env.evm.executeTransaction input = .ok output ∧
      minerShare env context output = .ok portion ∧ refunded.Counted ∧ refunded.gasFeeValue = funds.gasFeeValue ∧
      fromSelf = (context.tx.isSpecialSignature && decide (input.sender = makeReservedAddress env.self)) ∧
      recordGasFee context.config env.now context.header context.tx portion fromSelf output refunded = .ok after := by
  obtain ⟨charged, fromSelf, begun, validated, ran, settled⟩ := executeTx_ok executed
  have own : fromSelf = (context.tx.isSpecialSignature && decide (input.sender = makeReservedAddress env.self)) := by
    obtain ⟨_, _, _, prepared, rfl⟩ := beginTx_ok begun
    exact prepareSender_fromSelf prepared
  have prepared : charged.Loose context.config.getTokenSymbol ∧ charged.statistics = funds.statistics := by
    obtain ⟨_, _, _, prepared, _⟩ := beginTx_ok begun
    rcases prepareSender_shifts loose prepared with ⟨_, shifts⟩ | ⟨_, _, _, _, _, shifts⟩
    · exact ⟨shifts.loose, shifts.statistics⟩
    · exact ⟨shifts.loose, shifts.statistics⟩
  obtain ⟨portion, paid, refunded, shared, shifts, refunds, records⟩ := settleTx_shifts prepared.1 settled
  have same : refunded.statistics = funds.statistics :=
    (refundGas_statistics shifts.loose refunds).trans (shifts.statistics.trans prepared.2)
  refine ⟨charged, fromSelf, portion, refunded, begun, validated, ran, shared, ?_, ?_, own, records⟩
  · unfold Funds.Counted
    rw [same]
    exact counted
  · rw [Funds.gasFeeValue, same]
    rfl

theorem income_of_baseFee {gasUsed priority baseFee : Nat} {miner : Option Name} {portion : Option Nat}
    (shared : miner = none ∧ portion = none ∨ miner.isSome = true ∧ portion = some (gasUsed * priority)) :
    gasUsed * baseFee + portion.getD 0 = gasUsed * (priority + baseFee) ↔
      miner.isSome = true ∨ gasUsed * priority = 0 := by
  rw [Nat.mul_add]
  rcases shared with ⟨rfl, rfl⟩ | ⟨paid, rfl⟩
  · simp only [Option.getD_none, Option.isSome_none, Bool.false_eq_true, false_or]
    omega
  · simp only [Option.getD_some, paid, true_or, iff_true]
    omega

theorem gasIncome_total_iff {portion : Option Nat} {income : Nat} {minPrice : Option Nat}
    (metered : Metered context.header context.tx output) (capped : context.config.Capped)
    (version : context.config.getEvmVersion env.now = context.header.version)
    (unpriced : context.header.version = 0 → context.header.baseFeePerGas = none) (below : context.header.version < 3)
    (priced : checkPrice context.config context.header.version context.tx minPrice = .ok ())
    (shared : minerShare env context output = .ok portion)
    (earned : gasIncome context.config env.now context.header context.tx portion output = .ok income) :
    income + portion.getD 0 =
        output.cumulativeGasUsed * Exact.effectiveGasPrice context.tx context.header.baseFeePerGas ↔
      context.header.version = 0 ∨ (payableMiner env.self context.miner).isSome = true ∨
        output.cumulativeGasUsed * Exact.priorityFeePerGas context.tx (context.header.baseFeePerGas.getD 0) = 0 := by
  have portioned := metered.minerPortion_exact capped env.now
  have least : context.config.getEvmVersion env.now = 0 →
      portion.getD 0 ≤ output.cumulativeGasUsed * context.tx.maxFeePerGas := by
    intro zero
    rcases minerShare_ok shared with ⟨_, rfl⟩ | ⟨_, amount, _, rfl, amounts⟩
    · exact Nat.zero_le _
    · exact Exact.minerPortion_le capped zero (portioned ▸ amounts)
  rw [metered.gasIncome_exact context.config env.now least] at earned
  unfold Exact.gasIncome at earned
  rw [version] at earned least
  by_cases one : 1 ≤ context.header.version
  · simp only [if_pos one, bind_ok, require_ok, check_ok, exists_const, pure_ok] at earned
    obtain ⟨baseFee, found, _, rfl⟩ := earned
    have split : payableMiner env.self context.miner = none ∧ portion = none ∨
        (payableMiner env.self context.miner).isSome = true ∧
          portion = some (output.cumulativeGasUsed * Exact.priorityFeePerGas context.tx baseFee) := by
      refine (minerShare_ok shared).imp id ?_
      rintro ⟨miner, amount, payable, rfl, amounts⟩
      rw [portioned] at amounts
      unfold Exact.minerPortion at amounts
      rw [version, if_neg (by omega), if_pos one, found] at amounts
      simp only [require, ok_bind, bind_ok, check_ok, exists_const, pure_ok] at amounts
      exact ⟨Option.isSome_of_eq_some payable, congrArg some amounts.2.symm⟩
    rw [found, Exact.effectiveGasPrice, Option.getD_some, income_of_baseFee split]
    exact ⟨Or.inr, fun either => either.resolve_left (by omega)⟩
  · have zero : context.header.version = 0 := by omega
    simp only [if_neg one, bind_ok, check_ok, exists_const, pure_ok] at earned
    obtain ⟨_, rfl⟩ := earned
    have small := least zero
    simp only [checkPrice, if_neg one, bind_ok, check_ok, exists_const] at priced
    have price : Exact.effectiveGasPrice context.tx context.header.baseFeePerGas = context.tx.maxFeePerGas := by
      rw [unpriced zero, Exact.effectiveGasPrice, Exact.priorityFeePerGas, priced.1]
      simp
    rw [price]
    exact ⟨fun _ => Or.inl zero, fun _ => by omega⟩

end Income

/-- In every reachable state and for every transaction of versions 0 to 2, the recorded income
does not change when the contract itself sent it, and otherwise grows by the gas fee less the
part of the miner exactly when there is a miner to be paid, nothing to be paid to one, or no
base fee. -/
theorem run_gasIncome_iff (host : Host) (meters : host.evm.Meters) (signs : host.evm.Signs)
    (holding : Name → Symbol → Nat) (labels : List Label) (world : World)
    (finished : run host labels (World.start holding) = .ok world) (view : ChainView) (request : Request)
    (call : TxCall) (calls : Calls host view world request call) (tx : Transaction)
    (after : Funds) (sent : List Inline) (input : RunInput) (output : RunOutput) :
    let env := host.env view world.now request
    let context := contextOf env call.rc call.miner tx call.contract
    let baseFee := context.header.baseFeePerGas
    context.header.version < 3 →
    checkPrice context.config context.header.version tx call.minInclusionPrice = .ok () →
    executeTx env context call.contract.funds = .ok (after, sent, input, output) →
    ∃ portion, minerShare env context output = .ok portion ∧
      (input.sender = makeReservedAddress host.self → after.gasFeeValue = call.contract.funds.gasFeeValue) ∧
      (input.sender ≠ makeReservedAddress host.self →
        (after.gasFeeValue + portion.getD 0 = call.contract.funds.gasFeeValue +
            output.cumulativeGasUsed * Exact.effectiveGasPrice tx baseFee ↔
          context.header.version = 0 ∨ (payableMiner host.self call.miner).isSome = true ∨
            output.cumulativeGasUsed * Exact.priorityFeePerGas tx (baseFee.getD 0) = 0)) := by
  intro env context baseFee below priced executed
  have version : context.config.getEvmVersion env.now = context.header.version :=
    contextOf_version env call.rc call.miner tx call.contract
  have capped : context.config.Capped :=
    ((calls.capped (run_capped finished)).promoteEvmVersion world.now).promoteConsensusParam world.now
  have loose : call.contract.funds.Loose context.config.getTokenSymbol := by
    rw [contextOf_symbol]
    exact calls.loose (run_loose finished)
  obtain ⟨charged, fromSelf, portion, refunded, begun, validated, ran, shared, counted, same, own, records⟩ :=
    executeTx_records loose (calls.counted (run_counted finished)) executed
  have metered : Metered context.header tx output := Silkworm.Meters.metered_of_ran meters begun validated ran
  refine ⟨portion, shared, fun sentBySelf => ?_, fun other => ?_⟩
  · have special : tx.isSpecialSignature = true := by
      obtain ⟨_, _, recovered, _, rfl⟩ := beginTx_ok begun
      simp [Transaction.isSpecialSignature, signs.reserved tx host.self (sentBySelf ▸ recovered)]
    have bySelf : fromSelf = true := by
      rw [own, decide_eq_true (by exact sentBySelf), Bool.and_true]
      exact special
    rw [bySelf] at records
    cases records
    exact same
  · have foreign : fromSelf = false := by
      rw [own, decide_eq_false (by exact other), Bool.and_false]
    rw [foreign] at records
    obtain ⟨income, earned, grown⟩ := recordGasFee_gasFeeValue counted records
    have whole : after.gasFeeValue + portion.getD 0 = call.contract.funds.gasFeeValue +
          output.cumulativeGasUsed * Exact.effectiveGasPrice tx baseFee ↔
        income + portion.getD 0 = output.cumulativeGasUsed * Exact.effectiveGasPrice tx baseFee := by
      omega
    exact whole.trans (gasIncome_total_iff metered capped version contextOf_unpriced below priced shared earned)

namespace Ledger

def ordinaryPriced : List Label := ordinaryFunded ++ act self (.setversion 1) 0 ++ later 1

def mined (miner : Name) (world : World) : Outcome (Funds × List Inline × RunInput × RunOutput) :=
  executeTx (mineEnv miner world.now) (mineContext miner world) (mineContract miner world).funds

def mining (miner : Name) (shows : World → Funds → RunInput → RunOutput → Bool) : Outcome Bool := do
  let world ← run marketHost ordinaryPriced (World.start fun _ _ => 0)
  let result ← mined miner world
  return shows world result.1 result.2.2.1 result.2.2.2

theorem exists_of_mining (miner : Name) (shows : World → Funds → RunInput → RunOutput → Bool)
    (seen : mining miner shows = .ok true) : ∃ world after sent input output,
      run marketHost ordinaryPriced (World.start fun _ _ => 0) = .ok world ∧
      mined miner world = .ok (after, sent, input, output) ∧ shows world after input output = true := by
  simp only [mining, bind_ok, pure_ok] at seen
  obtain ⟨world, reached, ⟨after, sent, input, output⟩, executed, shown⟩ := seen
  exact ⟨world, after, sent, input, output, reached, executed, shown⟩

end Ledger

/-- With the contract as the miner, the part above the base fee stays unrecorded. -/
theorem gasIncome_misses_priority : ∃ world after sent input output,
    run Ledger.marketHost Ledger.ordinaryPriced (World.start fun _ _ => 0) = .ok world ∧
    Ledger.mined Ledger.self world = .ok (after, sent, input, output) ∧
    input.sender ≠ makeReservedAddress Ledger.self ∧
    output.cumulativeGasUsed * Exact.effectiveGasPrice Ledger.ordinary input.header.baseFeePerGas = 4200000000000000 ∧
    minerShare (Ledger.mineEnv Ledger.self world.now) (Ledger.mineContext Ledger.self world) output = .ok none ∧
    after.gasFeeValue = (Ledger.mineContract Ledger.self world).funds.gasFeeValue + 3150000000000000 := by
  obtain ⟨world, after, sent, input, output, reached, executed, shown⟩ := Ledger.exists_of_mining Ledger.self
    (fun world after input output => decide (input.sender ≠ makeReservedAddress Ledger.self ∧
      output.cumulativeGasUsed * Exact.effectiveGasPrice Ledger.ordinary input.header.baseFeePerGas = 4200000000000000 ∧
      after.gasFeeValue = (Ledger.mineContract Ledger.self world).funds.gasFeeValue + 3150000000000000))
    (by decide +kernel)
  obtain ⟨foreign, fee, income⟩ := of_decide_eq_true shown
  exact ⟨world, after, sent, input, output, reached, executed, foreign, fee, rfl, income⟩

theorem run_gasIncome_mined : ∃ world after sent input output portion,
    run Ledger.marketHost Ledger.ordinaryPriced (World.start fun _ _ => 0) = .ok world ∧
    Ledger.mined Ledger.alice world = .ok (after, sent, input, output) ∧
    minerShare (Ledger.mineEnv Ledger.alice world.now) (Ledger.mineContext Ledger.alice world) output = .ok portion ∧
    after.gasFeeValue + portion.getD 0 = (Ledger.mineContract Ledger.alice world).funds.gasFeeValue +
      output.cumulativeGasUsed *
        Exact.effectiveGasPrice Ledger.ordinary (Ledger.mineContext Ledger.alice world).header.baseFeePerGas := by
  obtain ⟨world, after, sent, input, output, reached, executed, shown⟩ := Ledger.exists_of_mining Ledger.alice
    (fun world _ input _ => decide (input.sender ≠ makeReservedAddress Ledger.self ∧
      (Ledger.mineContext Ledger.alice world).header.version < 3 ∧
      (checkPrice (Ledger.mineContext Ledger.alice world).config (Ledger.mineContext Ledger.alice world).header.version
        Ledger.ordinary none).isOk = true))
    (by decide +kernel)
  obtain ⟨foreign, below, priced⟩ := of_decide_eq_true shown
  obtain ⟨⟨⟩, priced⟩ := exists_of_isOk priced
  obtain ⟨portion, shared, _, grows⟩ := run_gasIncome_iff Ledger.marketHost Ledger.market_meters Ledger.market_signs _ _
    world reached Ledger.view _ _
    (.pushes none [Ledger.alice] Ledger.alice (Ledger.evm.encodeTransaction Ledger.ordinary) none) Ledger.ordinary
    after sent input output below priced executed
  have payable : (payableMiner Ledger.self Ledger.alice).isSome = true := by decide
  exact ⟨world, after, sent, input, output, portion, reached, executed, shared,
    (grows foreign).mpr (Or.inr (Or.inl payable))⟩

end EosEvm

import EosEvm.GasPayer
import EosEvm.Addresses
import EosEvm.Nonces

/-! Ingress bridging. The contract takes the whole quantity into its own balance and sends what
is above the fee to the destination, in a transaction of its own whose gas it pays to itself. -/

namespace EosEvm

open Abort Words

def Db.Codeless (db : Db) (address : Address) : Prop :=
  ∀ found, db.findAccount address = some found → found.2.codeId = none

/-- What the library does with a successful transfer to an ordinary address without code: the
address is given the value, and reserved addresses are given nothing but the gas. -/
def Silkworm.Transfers (evm : Silkworm) : Prop :=
  ∀ input output account address, input.Bridged evm account → input.tx.recipient = some address →
    extractReservedAddress address = none → input.db.Codeless address → 0 < input.tx.value → input.tx.data = [] →
    evm.executeTransaction input = .ok output → output.success = true →
    OnlyGas account input output ∧ ∃ initial current code, .object address initial (some current) code ∈ output.writes ∧
      DbWrite.balanceOf initial = input.db.balanceAt address ∧
      current.balance = input.db.balanceAt address + input.tx.value

section Own

variable {env : Env} {context : TxContext} {funds after : Funds} {sent : List Inline} {input : RunInput}
  {output : RunOutput} {account : Name} {nonce : Nat}

theorem executeTx_paysItself (loose : funds.Loose context.config.getTokenSymbol) (meters : env.evm.Meters)
    (signs : env.evm.Signs) (form : context.tx.IsBridge nonce account.val) (self : context.miner = env.self)
    (unpaid : context.rc.gasPayer = none)
    (executed : executeTx env context funds = .ok (after, sent, input, output)) (owner : Name) :
    after.valueOf owner +
        (Pi.single account (context.tx.value + context.tx.gasLimit * context.tx.maxFeePerGas) : Name → Nat) owner =
      funds.valueOf owner + receivedOpen funds output.reservedObjects owner := by
  obtain ⟨_, _, _, _, small, _⟩ := executeTx_bridged meters signs form executed
  obtain ⟨charged, fromSelf, begun, _, _, settled⟩ := executeTx_ok executed
  obtain ⟨_, _, _, _, given, charges, _⟩ := beginTx_bridged signs form begun
  obtain ⟨_, rfl⟩ := chargeSender_given small charges
  obtain ⟨_, _, first⟩ := chargeSender_shifts loose charges
  obtain ⟨portion, paid, refunded, shared, second, refunds, records⟩ := settleTx_shifts first.loose settled
  cases shared.symm.trans (minerShare_self self)
  rw [unpaid] at refunds
  cases refunds
  have values := (first.trans second).values owner
  simp only [EosEvm.charges, unpaid, Pi.add_apply, Pi.zero_apply, Option.getD_none, Pi.single_zero,
    receivedOpen_congr first.opened] at values
  rw [recordGasFee_valueOf records]
  omega

theorem executeTx_own (loose : funds.Loose context.config.getTokenSymbol) (meters : env.evm.Meters)
    (signs : env.evm.Signs) (refunds : env.evm.Refunds) (form : context.tx.IsBridge nonce env.self.val)
    (self : context.miner = env.self) (unpaid : context.rc.gasPayer = none)
    (beneficiary : context.header.beneficiary = env.self)
    (executed : executeTx env context funds = .ok (after, sent, input, output)) (onlyGas : OnlyGas env.self input output) :
    after.valueOf env.self + context.tx.value = funds.valueOf env.self ∧
      after.evmValue = funds.evmValue + context.tx.value ∧ after.statistics = funds.statistics ∧
      ∀ owner, owner ≠ env.self → after.balances.get? owner = funds.balances.get? owner := by
  obtain ⟨bridged, sameTx, sameHeader, _, small, ran, _⟩ := executeTx_bridged meters signs form executed
  have shares := onlyGas.received refunds bridged ran
  have fee : Exact.gasFee input.header input.tx output ≤ input.tx.gasLimit * input.tx.maxFeePerGas := by
    rw [Exact.gasFee, Exact.effectiveGasPrice_eq bridged.price (bridged.most meters)]
    exact Nat.mul_le_mul_right _ (meters.metered input output ran)
  have atSelf : EosEvm.received output.reservedObjects env.self =
      context.tx.gasLimit * context.tx.maxFeePerGas := by
    rw [shares, ← sameTx, gasShares, sameHeader, beneficiary, Pi.add_apply, Pi.single_eq_same, Pi.single_eq_same,
      Exact.unspentGas, ← sameHeader]
    omega
  have nothing : ∀ owner, owner ≠ env.self → EosEvm.received output.reservedObjects owner = 0 := by
    intro owner other
    rw [shares owner, gasShares, sameHeader, beneficiary]
    simp [other]
  obtain ⟨charged, fromSelf, begun, _, _, settled⟩ := executeTx_ok executed
  obtain ⟨_, _, _, isSelf, _, charges, _⟩ := beginTx_bridged signs form begun
  have first := (chargeSender_shifts loose charges).2.2
  refine ⟨?_, ?_, ?_, fun owner other => ?_⟩
  · have value := executeTx_paysItself loose meters signs form self unpaid executed env.self
    have own := settleTx_receivedSelf settled
    rw [receivedOpen_congr first.opened, atSelf] at own
    rw [Pi.single_eq_same, own] at value
    omega
  · have total : reservedTotal output.reservedObjects = context.tx.gasLimit * context.tx.maxFeePerGas := by
      rw [reservedTotal_eq_sum (fun object member outside => ?_), Finset.sum_singleton, atSelf]
      rw [← received_of_mem output.distinctReserved member]
      exact nothing object.1 (by simpa using outside)
    obtain ⟨_, _, leaves⟩ := executeTx_egress loose (by rw [total]; exact small) executed
    rw [total, bridged.funded, sameTx, Option.map_some, Option.getD_some] at leaves
    omega
  · obtain ⟨portion, paid, refunded, _, second, refund, records⟩ := settleTx_shifts first.loose settled
    rw [unpaid] at refund
    cases refund
    rw [recordGasFee, if_pos (by rw [isSelf, beq_self_eq_true])] at records
    cases records
    exact (first.trans second).statistics
  · refine executeTx_other loose signs form self executed ?_ other (nothing owner other)
    intro payer paying
    rw [unpaid] at paying
    cases paying

end Own

/-- A value goes from the contract's own balance to an EVM address, and nothing else changes. -/
structure Enters (account : Name) (address : Address) (value : Nat) (before after : Contract) : Prop where
  balance : after.db.balanceAt address = before.db.balanceAt address + value
  evmValue : after.funds.evmValue = before.funds.evmValue + value
  own : after.funds.valueOf account + value = before.funds.valueOf account
  others : ∀ owner, owner ≠ account → after.funds.balances.get? owner = before.funds.balances.get? owner
  statistics : after.funds.statistics = before.funds.statistics

theorem Enters.congr {account : Name} {address : Address} {value : Nat} {before after start final : Contract}
    (enters : Enters account address value before after) (startFunds : start.funds = before.funds)
    (startDb : start.db = before.db) (finalFunds : final.funds = after.funds) (finalDb : final.db = after.db) :
    Enters account address value start final := by
  refine ⟨?_, ?_, ?_, ?_, ?_⟩
  · rw [finalDb, startDb]
    exact enters.balance
  all_goals rw [finalFunds, startFunds]
  · exact enters.evmValue
  · exact enters.own
  · exact enters.others
  · exact enters.statistics

section Transaction

variable {env : Env} {rc : RuntimeConfig} {txn : Txn} {minPrice : Option Nat} {tx : Transaction} {nonce : Nat}
  {address : Address} {before after : Contract}

theorem processTx_enters (loose : before.Loose) (unique : before.db.UniqueAddress) (meters : env.evm.Meters)
    (signs : env.evm.Signs) (refunds : env.evm.Refunds) (transfers : env.evm.Transfers)
    (decoded : txn.getTx env.evm = .ok tx) (form : tx.IsBridge nonce env.self.val) (goes : tx.recipient = some address)
    (silent : tx.data = []) (positive : 0 < tx.value) (plain : extractReservedAddress address = none)
    (codeless : before.db.Codeless address) (processed : processTx env (bridgeConfig none) env.self txn minPrice before = .ok after) :
    Enters env.self address tx.value before after := by
  unfold Contract.Loose at loose
  rw [← contextOf_symbol env (bridgeConfig none) env.self tx] at loose
  obtain ⟨_, funds, actions, input, output, delivered, notices, db, found, _, _, _, _, executed, filtered, applied, rfl⟩ :=
    processTx_ok processed
  cases decoded.symm.trans found
  obtain ⟨bridged, sameTx, _, sameDb, _, ran, succeeds⟩ := executeTx_bridged meters signs form executed
  have sameTx : input.tx = tx := sameTx
  have sameDb : input.db = before.db := sameDb
  obtain ⟨onlyGas, initial, current, code, member, starts, credited⟩ := transfers input output env.self address bridged
    (by rw [sameTx]; exact goes) plain (by rw [sameDb]; exact codeless) (by rw [sameTx]; exact positive)
    (by rw [sameTx]; exact silent) ran (succeeds rfl)
  rw [sameDb] at starts credited
  rw [sameTx] at credited
  obtain ⟨own, entered, statistics, others⟩ :=
    executeTx_own loose meters signs refunds form rfl rfl rfl executed onlyGas
  simp only [processFilteredMessages, onlyGas.silent, List.filter_nil, foldOutcome, debitDelivered, ok_bind,
    Nat.lt_irrefl, if_false, pure_ok, Prod.mk.injEq] at filtered
  obtain ⟨rfl, rfl⟩ := filtered
  refine ⟨?_, entered, own, others, statistics⟩
  rw [← credited]
  exact DbWrite.applyAll_written unique output.distinctWrites member starts applied

theorem pushtx_enters (loose : before.Loose) (unique : before.db.UniqueAddress) (meters : env.evm.Meters)
    (signs : env.evm.Signs) (refunds : env.evm.Refunds) (transfers : env.evm.Transfers)
    (form : tx.IsBridge nonce env.self.val) (goes : tx.recipient = some address) (silent : tx.data = [])
    (positive : 0 < tx.value) (plain : extractReservedAddress address = none) (codeless : before.db.Codeless address)
    (own : env.sender = some env.self)
    (ran : Contract.pushtx env env.self (env.evm.encodeTransaction tx) minPrice before = .ok after) :
    Enters env.self address tx.value before after := by
  simp only [Contract.pushtx, Contract.pushtxConfig, own, if_true, bind_ok, check_ok, exists_const] at ran
  obtain ⟨_, _, _, processed⟩ := ran
  have decoded : (Txn.ofRlp (env.evm.encodeTransaction tx)).getTx env.evm = .ok tx := by
    simp only [Txn.getTx, signs.decoded tx nonce _ form, require]
  have refreshed := loose.refreshPrices env
  rw [Contract.refreshPrices_eq] at processed refreshed
  have entered := processTx_enters refreshed (by exact unique) meters signs refunds transfers decoded form goes silent positive
    plain (by exact codeless) processed
  exact entered.congr rfl rfl rfl rfl

end Transaction

/-- A quantity is taken into the contract's own balance and the fee is recorded. -/
structure Takes (account : Name) (quantity fee : Asset) (before after : Contract) : Prop where
  db : after.db = before.db
  evmValue : after.funds.evmValue = before.funds.evmValue
  own : (after.funds.valueOf account : Int) = before.funds.valueOf account + quantity.amount * quantity.symbol.unit
  others : ∀ owner, owner ≠ account → after.funds.balances.get? owner = before.funds.balances.get? owner
  gasFeeIncome : (after.funds.statisticsIn quantity.symbol).gasFeeIncome =
    (before.funds.statisticsIn quantity.symbol).gasFeeIncome
  ingressIncome : (after.funds.statisticsIn quantity.symbol).ingressBridgeFeeIncome.balance.amount =
    (before.funds.statisticsIn quantity.symbol).ingressBridgeFeeIncome.balance.amount + fee.amount

theorem Takes.congr {account : Name} {quantity fee : Asset} {before after final : Contract}
    (takes : Takes account quantity fee before after) (funds : final.funds = after.funds) (db : final.db = after.db) :
    Takes account quantity fee before final := by
  refine ⟨db.trans takes.db, ?_, ?_, ?_, ?_, ?_⟩ <;> rw [funds]
  · exact takes.evmValue
  · exact takes.own
  · exact takes.others
  · exact takes.gasFeeIncome
  · exact takes.ingressIncome

section Notification

variable {env : Env} {token sender : Name} {quantity : Asset} {memo : Bytes} {before received after : Contract}

theorem deposit_valueOf {owner : Name} {missing : String} (loose : before.Loose) (positive : 0 < quantity.amount)
    (deposited : before.deposit owner quantity missing = .ok received) :
    (received.funds.valueOf owner : Int) = before.funds.valueOf owner + quantity.amount * quantity.symbol.unit := by
  obtain ⟨row, balance, found, added, rfl⟩ := Contract.deposit_ok deposited
  obtain ⟨symbol, _, _, rfl⟩ := (Asset.add_ok _ _ _).mp added
  have nonneg := (loose.balances owner row found).nonneg
  rw [Funds.valueOf_of_get? found, symbol]
  simp only [Funds.valueOf, Table.get?_put, if_true, Option.map_some, Option.getD_some]
  simp only [BalanceWithDust.value, Nat.cast_add, Nat.cast_mul, Int.toNat_of_nonneg nonneg,
    Int.toNat_of_nonneg (by omega : 0 ≤ row.balance.amount + quantity.amount)]
  ring

theorem deposit_frame {owner : Name} {missing : String} (deposited : before.deposit owner quantity missing = .ok received) :
    received.config = before.config ∧ received.db = before.db ∧ received.nextnonces = before.nextnonces ∧
      received.funds.evmValue = before.funds.evmValue ∧ received.funds.statistics = before.funds.statistics ∧
      ∀ other, other ≠ owner → received.funds.balances.get? other = before.funds.balances.get? other := by
  obtain ⟨row, balance, _, _, rfl⟩ := Contract.deposit_ok deposited
  refine ⟨rfl, rfl, rfl, rfl, rfl, fun other apart => ?_⟩
  rw [Table.get?_put, if_neg apart.symm]

theorem bridgedValue_exact {bridged : Int} (unit : Nat) (positive : 0 < bridged) (bounded : bridged ≤ maxAmount)
    (small : unit ≤ 10 ^ 18) : (u256 (unsigned bridged * unit) : Int) = bridged * unit := by
  unfold maxAmount at bounded
  rw [minFee_exact bridged unit small, unsigned_of_nonneg (Int.le_of_lt positive) (by omega), Nat.cast_mul,
    Int.toNat_of_nonneg (Int.le_of_lt positive)]

theorem recordIngressFee_income (recorded : received.recordIngressFee = .ok after) (symbol : Symbol)
    (configured : received.config.getTokenSymbol = symbol) :
    (after.funds.statisticsIn symbol).gasFeeIncome = (received.funds.statisticsIn symbol).gasFeeIncome ∧
      (after.funds.statisticsIn symbol).ingressBridgeFeeIncome.balance.amount =
        (received.funds.statisticsIn symbol).ingressBridgeFeeIncome.balance.amount +
          received.config.cached.ingressBridgeFee.amount := by
  simp only [Contract.recordIngressFee, bind_ok, pure_ok, Asset.add_ok] at recorded
  obtain ⟨statistics, found, income, ⟨_, _, _, rfl⟩, rfl⟩ := recorded
  have same := (Funds.getStatistics_ok found).2
  rw [configured] at same
  rw [← same]
  exact ⟨rfl, rfl⟩

theorem handleEvmTransfer_ok (loose : before.Loose) (positive : 0 < quantity.amount)
    (configured : quantity.symbol = before.config.getTokenSymbol)
    (handled : Contract.handleEvmTransfer env quantity memo before = .ok after) :
    ∃ bytes nonce tx middle,
      before.config.cached.ingressBridgeFee.amount < quantity.amount ∧ env.evm.fromHex memo = some bytes ∧
      Contract.Bridges env before (.transfer token sender env.self quantity memo) none tx middle ∧
      tx.IsBridge nonce env.self.val ∧ tx.recipient = some (env.evm.toEvmcAddress bytes) ∧ tx.data = [] ∧
      (tx.value : Int) =
        (quantity.amount - before.config.cached.ingressBridgeFee.amount) * quantity.symbol.unit ∧
      Takes env.self quantity before.config.cached.ingressBridgeFee before middle ∧
      dispatchTx env (bridgeConfig none) tx middle = .ok after := by
  simp only [Contract.handleEvmTransfer, bind_ok, require_ok, check_ok, exists_const] at handled
  obtain ⟨received, deposited, bridged, deducted, more, recorded, records, bytes, parsed, unit, unitOk,
    ⟨nonce, numbered⟩, numbers, dispatched⟩ := handled
  have value := deposit_valueOf (loose.refreshPrices env) positive deposited
  obtain ⟨config, db, nonces, evmValue, statistics, others⟩ := deposit_frame deposited
  have sameFee : received.config.cached.ingressBridgeFee = before.config.cached.ingressBridgeFee := by
    rw [config]
    exact refreshPrices_fee env before
  have sameSymbol : received.config.getTokenSymbol = quantity.symbol := (congrArg Asset.symbol sameFee).trans configured.symm
  obtain ⟨gasFeeIncome, ingressIncome⟩ := recordIngressFee_income records quantity.symbol sameSymbol
  have subtracted := deducted
  rw [sameFee] at subtracted ingressIncome
  obtain ⟨_, _, bounded, rfl⟩ := (Asset.sub_ok _ _ _).mp subtracted
  obtain ⟨next, rfl⟩ := Contract.getAndIncrementNonce_ok numbers
  obtain ⟨_, rfl⟩ := Contract.recordIngressFee_ok records
  obtain ⟨_, rfl⟩ := BalanceWithDust.pow10Const_ok unitOk
  rw [Contract.refreshPrices_eq] at db nonces evmValue statistics others value
  dsimp only at next dispatched
  rw [nonces] at next dispatched
  have counted : received.funds.statisticsIn quantity.symbol = before.funds.statisticsIn quantity.symbol := by
    rw [Funds.statisticsIn, statistics]
    rfl
  have worth := bridgedValue_exact received.config.getTokenSymbol.unit more bounded (Symbol.unit_le _)
  refine ⟨bytes, nonce, _, _, ?_, parsed, .ingress token sender quantity memo nonce _ _ _ deposited records next
    ⟨_, bytes, _, deducted, parsed, unitOk, rfl⟩, Contract.ingressTx_isBridge .., rfl, rfl, ?_,
    ⟨db, evmValue, value, others, ?_, ?_⟩, dispatched⟩
  · exact Int.lt_of_sub_pos more
  · rw [← sameSymbol]
    exact worth
  · rw [← counted]
    exact gasFeeIncome
  · rw [← counted]
    exact ingressIncome

theorem transfer_hex (apart : sender ≠ env.self) (hex : memo.length = 42 ∧ memo.take 2 = bytesOf "0x")
    (ran : Contract.transfer env sender env.self quantity memo before = .ok after) :
    env.code = before.config.cached.tokenContract ∧ quantity.symbol = before.config.getTokenSymbol ∧
      Contract.handleEvmTransfer env quantity memo before = .ok after := by
  have present : memo ≠ [] := by
    rintro rfl
    cases hex.1
  simp only [Contract.transfer, ne_eq, not_true_eq_false, apart, or_self, if_false, present, false_and, hex, and_self,
    if_true, bind_ok, check_ok, exists_const] at ran
  obtain ⟨_, _, ⟨code, symbol⟩, handled⟩ := ran
  exact ⟨code, symbol, handled⟩

end Notification

def growth (measure : Contract → Int) (stretches : List (Contract × Contract)) : Int :=
  (stretches.map fun stretch => measure stretch.2 - measure stretch.1).sum

/-- What an ingress changes over the stretches of the run that it is made of. -/
structure Ingressed (account : Name) (address : Address) (quantity fee : Asset)
    (stretches : List (Contract × Contract)) : Prop where
  balance : growth (fun contract => contract.db.balanceAt address) stretches =
    (quantity.amount - fee.amount) * quantity.symbol.unit
  evmValue : growth (fun contract => contract.funds.evmValue) stretches =
    (quantity.amount - fee.amount) * quantity.symbol.unit
  own : growth (fun contract => contract.funds.valueOf account) stretches = fee.amount * quantity.symbol.unit
  others : ∀ stretch ∈ stretches, ∀ owner, owner ≠ account →
    stretch.2.funds.balances.get? owner = stretch.1.funds.balances.get? owner
  ingressIncome : growth (fun contract =>
    (contract.funds.statisticsIn quantity.symbol).ingressBridgeFeeIncome.balance.amount) stretches = fee.amount
  gasFeeIncome : ∀ stretch ∈ stretches, (stretch.2.funds.statisticsIn quantity.symbol).gasFeeIncome =
    (stretch.1.funds.statisticsIn quantity.symbol).gasFeeIncome

section Stretches

variable {account : Name} {address : Address} {quantity fee : Asset} {value : Nat}
  {before next later final : Contract}

theorem Takes.ingressed (takes : Takes account quantity fee before next) (enters : Enters account address value later final)
    (worth : (value : Int) = (quantity.amount - fee.amount) * quantity.symbol.unit) :
    Ingressed account address quantity fee [(before, next), (later, final)] := by
  have counted : final.funds.statisticsIn quantity.symbol = later.funds.statisticsIn quantity.symbol := by
    rw [Funds.statisticsIn, enters.statistics]
    rfl
  refine ⟨?_, ?_, ?_, ?_, ?_, ?_⟩ <;> simp only [growth, List.map_cons, List.map_nil, List.sum_cons, List.sum_nil,
    List.forall_mem_cons, List.not_mem_nil, false_imp_iff, implies_true, and_true]
  · rw [takes.db, enters.balance, ← worth]
    omega
  · rw [takes.evmValue, enters.evmValue, ← worth]
    omega
  · rw [takes.own, ← enters.own]
    push_cast
    rw [worth]
    ring
  · exact ⟨takes.others, enters.others⟩
  · rw [takes.ingressIncome, counted]
    ring
  · exact ⟨takes.gasFeeIncome, by rw [counted]⟩

theorem Ingressed.join {middle : Contract} (ingressed : Ingressed account address quantity fee [(before, middle), (middle, next)]) :
    Ingressed account address quantity fee [(before, next)] := by
  have telescopes : ∀ measure : Contract → Int,
      growth measure [(before, next)] = growth measure [(before, middle), (middle, next)] := by
    intro measure
    simp only [growth, List.map_cons, List.map_nil, List.sum_cons, List.sum_nil]
    ring
  refine ⟨(telescopes _).trans ingressed.balance, (telescopes _).trans ingressed.evmValue,
    (telescopes _).trans ingressed.own, ?_, (telescopes _).trans ingressed.ingressIncome, ?_⟩
  · intro stretch member owner other
    cases List.mem_singleton.mp member
    exact (ingressed.others (middle, next) (by simp) owner other).trans (ingressed.others (before, middle) (by simp) owner other)
  · intro stretch member
    cases List.mem_singleton.mp member
    exact (ingressed.gasFeeIncome (middle, next) (by simp)).trans (ingressed.gasFeeIncome (before, middle) (by simp))

end Stretches

section Run

variable {host : Host} {view : ChainView} {world : World} {others more : List Request} {token sender : Name}
  {quantity : Asset} {memo : Bytes} {rest : List Pending} {holding : Name → Symbol → Nat} {contract : Contract}

theorem Handled.ingress (loose : world.contract.Loose) (apart : sender ≠ host.self)
    (hex : memo.length = 42 ∧ memo.take 2 = bytesOf "0x")
    (handled : Handled host view others more (.transfer token sender host.self quantity memo) rest holding contract world) :
    let env := host.env view world.now (.transfer token sender host.self quantity memo)
    let fee := world.config.cached.ingressBridgeFee
    0 < quantity.amount ∧ ∃ bytes nonce tx middle,
      fee.amount < quantity.amount ∧ host.evm.fromHex memo = some bytes ∧
      Contract.Bridges env world.contract (.transfer token sender host.self quantity memo) none tx middle ∧
      tx.IsBridge nonce host.self.val ∧ tx.recipient = some (host.evm.toEvmcAddress bytes) ∧ tx.data = [] ∧
      (tx.value : Int) = (quantity.amount - fee.amount) * quantity.symbol.unit ∧
      Takes host.self quantity fee world.contract middle ∧ dispatchTx env (bridgeConfig none) tx middle = .ok contract := by
  intro env fee
  have ran : Contract.transfer env sender env.self quantity memo world.contract = .ok contract := handled.ran
  obtain ⟨known, configured, ran⟩ := transfer_hex (by exact apart) hex ran
  have known : token = world.tables.tokenContract := known
  have positive : 0 < quantity.amount := by
    have moved := handled.moved
    rw [Request.moved, if_pos known] at moved
    exact (TokenContract.move_ok moved).1
  exact ⟨positive, handleEvmTransfer_ok loose positive configured ran⟩

end Run

/-- In every reachable state, a transfer of another account with an EVM address as its memo aborts
unless it is above the fee. Once it is handled, and in version 0 once the transaction it sends has
run, an ordinary destination without code has received exactly what is above the fee, and the
contract has kept exactly the fee, whatever the gas costs. -/
theorem run_ingress_exact (host : Host) (meters : host.evm.Meters) (signs : host.evm.Signs)
    (refunds : host.evm.Refunds) (transfers : host.evm.Transfers) (holding : Name → Symbol → Nat) (labels : List Label)
    (world : World) (finished : run host labels (World.start holding) = .ok world) (view : ChainView)
    (others more : List Request) (token sender : Name) (quantity : Asset) (memo : Bytes)
    (top : topRequest host world.stack = some (.transfer token sender host.self quantity memo))
    (apart : sender ≠ host.self) (hex : memo.length = 42 ∧ memo.take 2 = bytesOf "0x") :
    let fee := world.config.cached.ingressBridgeFee
    (quantity.amount ≤ fee.amount → ∀ next, step host world (.next view others more) ≠ .ok next) ∧
    ∀ next, step host world (.next view others more) = .ok next →
      ∃ bytes, host.evm.fromHex memo = some bytes ∧
        let address := host.evm.toEvmcAddress bytes
        extractReservedAddress address = none →
          (1 ≤ world.config.getEvmVersion world.now → world.contract.db.Codeless address →
            Ingressed host.self address quantity fee [(world.contract, next.contract)]) ∧
          (world.config.getEvmVersion world.now = 0 → ∃ sent rlptx, .sent sent ∈ next.stack ∧
            sent.action = .pushtx host.self rlptx ∧
            ∀ continued later seen before after final, run host continued next = .ok later →
              topRequest host later.stack = some (.action (some host.self) [host.self] (.pushtx host.self rlptx none)) →
              later.contract.db.Codeless address → step host later (.next seen before after) = .ok final →
              Ingressed host.self address quantity fee
                [(world.contract, next.contract), (later.contract, final.contract)]) := by
  intro fee
  have loose := run_loose finished
  refine ⟨fun low next stepped => ?_, fun next stepped => ?_⟩
  · obtain ⟨_, _, _, handled, _⟩ := (step_ok stepped).of_topRequest top
    obtain ⟨_, _, _, _, _, above, _⟩ := handled.ingress loose apart hex
    exact absurd above (Int.not_lt.mpr low)
  · obtain ⟨rest, holding, contract, handled, isNext⟩ := (step_ok stepped).of_topRequest top
    obtain ⟨received, bytes, nonce, tx, middle, above, parsed, bridges, form, goes, silent, worth, takes, dispatched⟩ :=
      handled.ingress loose apart hex
    refine ⟨bytes, parsed, fun plain => ?_⟩
    have positive : 0 < tx.value := by
      have gain : 0 < (tx.value : Int) := by
        rw [worth]
        exact Int.mul_pos (Int.sub_pos_of_lt above) (Int.natCast_pos.mpr quantity.symbol.unit_pos)
      exact Int.natCast_pos.mp gain
    have version := bridges.version
    rcases dispatchTx_ok dispatched with ⟨active, processed⟩ | ⟨inactive, _, sent⟩
    · rw [version] at active
      refine ⟨fun _ codeless => ?_, fun zero => absurd active (by exact zero ▸ Nat.not_succ_le_zero 0)⟩
      have ready := (bridges.loose loose (by rintro _ _ _ _ _ ⟨⟩; exact received)).promoted world.now
      have unique : middle.db.UniqueAddress := by
        rw [takes.db]
        exact run_uniqueAddress finished
      have entered := processTx_enters ready (by exact unique) meters signs refunds transfers rfl form goes silent positive
        plain (by rw [takes.db]; exact codeless) processed
      have enters : Enters host.self (host.evm.toEvmcAddress bytes) tx.value middle next.contract :=
        entered.congr rfl rfl (by rw [isNext]; rfl) (by rw [isNext]; rfl)
      exact (takes.ingressed enters worth).join
    · rw [version] at inactive
      refine ⟨fun active => absurd active (by exact inactive ▸ Nat.not_succ_le_zero 0), fun _ => ?_⟩
      have effects : contract.effects = [.sent (.pushtx host.self (host.evm.encodeTransaction tx))] := by
        rw [sent, Contract.emit, bridges.effects.1]
        rfl
      refine ⟨⟨_, .transfer token sender host.self quantity memo, contract.effects⟩, host.evm.encodeTransaction tx, ?_, rfl, ?_⟩
      · rw [isNext]
        refine List.mem_append_left _ (List.mem_append_left _ (List.mem_append_right _ (mem_scheduled.mpr ⟨_, ?_, rfl⟩)))
        rw [effects]
        exact List.mem_singleton_self _
      · intro continued later seen before after final ran topLater codeless steppedLater
        have reached := run_resume finished stepped ran
        obtain ⟨_, _, done, handledLater, isFinal⟩ := (step_ok steppedLater).of_topRequest topLater
        have entered := pushtx_enters (run_loose reached) (run_uniqueAddress reached) meters signs refunds transfers form goes
          silent positive plain codeless rfl handledLater.ran
        have enters : Enters host.self (host.evm.toEvmcAddress bytes) tx.value later.contract final.contract :=
          entered.congr rfl rfl (by rw [isFinal]; rfl) (by rw [isFinal]; rfl)
        exact (takes.congr (by rw [isNext, sent]; rfl) (by rw [isNext, sent]; rfl)).ingressed enters worth

namespace Ledger

theorem market_transfers : market.Transfers := by
  intro input output account address bridged goes plain _ _ _ ran _
  refine ⟨onlyGas_of_ordinary bridged goes plain ran, ?_⟩
  simp only [market, bridged.funded, Option.isSome_some, if_true, executeTransaction, goes, bind_ok, require_ok,
    check_ok, exists_const] at ran
  obtain ⟨_, _, _, _, _, ⟨⟩, _, ran⟩ := ran
  simp only [plain, bind_ok, pure_ok] at ran
  obtain ⟨⟨initial, handle⟩, read, rfl⟩ := ran
  have starts : DbWrite.balanceOf initial = input.db.balanceAt address := balanceOf_readAccount read
  have credits := balanceOf_credited initial input.tx.value
  refine ⟨initial, credited initial input.tx.value, [], List.mem_singleton_self _, starts, ?_⟩
  rw [← starts]
  exact credits

def ingressMemo : Bytes := bytesOf "0x0123456789012345678901234567890123456789"

def ingress : Request := .transfer defaultTokenAccount bob self ⟨500000, eos⟩ ingressMemo

def ingressAddress : Address := market.toEvmcAddress (ingressMemo.drop 2)

def arriving : List Label := versionOne ++ [.submit [ingress]]

end Ledger

theorem run_ingress_exact_arriving : ∃ world next,
    run Ledger.marketHost Ledger.arriving (World.start fun _ _ => 0) = .ok world ∧
    step Ledger.marketHost world (.next Ledger.view [] []) = .ok next ∧
    Ingressed Ledger.self Ledger.ingressAddress ⟨500000, Ledger.eos⟩ world.config.cached.ingressBridgeFee
      [(world.contract, next.contract)] := by
  obtain ⟨world, reached, seen⟩ := exists_of_view
    (run Ledger.marketHost Ledger.arriving (World.start fun _ _ => 0))
    (fun world => decide (topRequest Ledger.marketHost world.stack = some Ledger.ingress ∧
      (step Ledger.marketHost world (.next Ledger.view [] [])).isOk = true ∧
      1 ≤ world.config.getEvmVersion world.now ∧
      world.contract.db.findAccount Ledger.ingressAddress = none)) true (by decide +kernel)
  obtain ⟨top, continues, active, absent⟩ := of_decide_eq_true seen
  obtain ⟨next, stepped⟩ := exists_of_isOk continues
  obtain ⟨_, exact⟩ := run_ingress_exact Ledger.marketHost Ledger.market_meters Ledger.market_signs Ledger.market_refunds
    Ledger.market_transfers _ _ world reached Ledger.view [] [] _ _ _ _ top (by decide) (by decide)
  obtain ⟨bytes, parsed, ingressed⟩ := exact next stepped
  cases parsed
  have codeless : world.contract.db.Codeless Ledger.ingressAddress := by
    intro found present
    rw [absent] at present
    cases present
  exact ⟨world, next, reached, stepped, (ingressed (by decide)).1 active codeless⟩

end EosEvm

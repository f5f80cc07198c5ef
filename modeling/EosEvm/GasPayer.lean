import EosEvm.MinerShare
import Mathlib.Algebra.BigOperators.Group.Finset.Piecewise

/-! `callotherpay`. The gas payer is charged the highest cost, the run leaves what was not
spent with the sender, and the refund moves it back to the payer. -/

namespace EosEvm

open Abort Words

section Loop

variable {env : Env} {egresslist : Table Name Unit} {unit : Nat} {messages : List FilteredMessage}
  {egress reached : Egress} {object : Name × Account} {owner : Name} {row : BalanceWithDust}

theorem egressObject_row (stepped : egressObject env egresslist unit none messages egress object = .ok reached)
    (found : egress.funds.balances.get? owner = some row) :
    (object.1 ≠ owner ∨ object.2.balance = 0 → reached.funds.balances.get? owner = some row) ∧
      (object.1 = owner → object.2.balance ≠ 0 → ∃ result, row.add object.2.balance = .ok result ∧
        reached.funds.balances.get? owner = some result) := by
  simp only [egressObject, bind_ok, check_ok, exists_const] at stepped
  obtain ⟨_, _, stepped⟩ := stepped
  split at stepped
  · rename_i zero
    cases stepped
    exact ⟨fun _ => found, fun _ nonzero => absurd zero nonzero⟩
  · rename_i nonzero
    split at stepped
    · simp only [creditReserved, Funds.credit_ok, bind_ok, pure_ok] at stepped
      obtain ⟨_, ⟨stored, present, result, added, rfl⟩, rfl⟩ := stepped
      refine ⟨fun idle => ?_, fun own _ => ?_⟩
      · have other := idle.resolve_right nonzero
        rw [Table.get?_put, if_neg other]
        exact found
      · have same : stored = row := Option.some.inj (present.symm.trans (own ▸ found))
        exact ⟨result, same ▸ added, by rw [Table.get?_put, if_pos own]⟩
    · rename_i isClosed
      simp only [sendReserved, bind_ok, check_ok, exists_const, pure_ok] at stepped
      obtain ⟨_, _, _, _, _, _, rfl⟩ := stepped
      refine ⟨fun _ => found, ?_⟩
      rintro rfl
      rw [found] at isClosed
      exact absurd rfl isClosed

theorem received_cons_idle {rest : List (Name × Account)} (idle : object.1 ≠ owner ∨ object.2.balance = 0) :
    received (object :: rest) owner = received rest owner := by
  by_cases own : object.1 = owner
  · have zero := idle.resolve_left (not_not.mpr own)
    simp [received, own, zero]
  · simp [received, own]

theorem received_cons_own {rest : List (Name × Account)} (fresh : object.1 ∉ rest.map Prod.fst) (own : object.1 = owner) :
    received rest owner = 0 ∧ received (object :: rest) owner = object.2.balance := by
  have absent : received rest owner = 0 := by
    refine received_eq_zero fun other member named => ?_
    exact absurd (List.mem_map.mpr ⟨other, member, named.trans own.symm⟩) fresh
  have sum : received (object :: rest) owner = object.2.balance + received rest owner := by
    simp [received, own]
  exact ⟨absent, by rw [sum, absent, Nat.add_zero]⟩

theorem egressLoop_row {objects : List (Name × Account)} (distinct : (objects.map Prod.fst).Nodup)
    (folded : foldOutcome (egressObject env egresslist unit none messages) objects egress = .ok reached)
    (found : egress.funds.balances.get? owner = some row) :
    (received objects owner = 0 → reached.funds.balances.get? owner = some row) ∧
      (received objects owner ≠ 0 → ∃ result, row.add (received objects owner) = .ok result ∧
        reached.funds.balances.get? owner = some result) := by
  induction objects generalizing egress row with
  | nil =>
      rw [foldOutcome_nil] at folded
      exact ⟨fun _ => folded ▸ found, fun nonzero => absurd rfl nonzero⟩
  | cons object rest ih =>
      obtain ⟨next, stepped, folded⟩ := (foldOutcome_cons _ _ _ _ _).mp folded
      rw [List.map_cons, List.nodup_cons] at distinct
      obtain ⟨keeps, adds⟩ := egressObject_row stepped found
      by_cases idle : object.1 ≠ owner ∨ object.2.balance = 0
      · rw [received_cons_idle idle]
        exact ih distinct.2 folded (keeps idle)
      · obtain ⟨own, nonzero⟩ := not_or.mp idle
        have own := not_not.mp own
        obtain ⟨result, added, changed⟩ := adds own nonzero
        obtain ⟨absent, whole⟩ := received_cons_own distinct.1 own
        rw [whole]
        exact ⟨fun zero => absurd zero nonzero, fun _ => ⟨result, added, (ih distinct.2 folded changed).1 absent⟩⟩

end Loop

variable {env : Env} {config : ConfigWrapper} {egresslist : Table Name Unit} {output : RunOutput} {funds after : Funds}
  {deducted : Bool} {sent : List Inline} {owner : Name} {row : BalanceWithDust}

theorem leaveTotal_balances {total : Nat} (left : leaveTotal total funds = .ok after) :
    after.balances = funds.balances := by
  unfold leaveTotal at left
  split at left
  · cases left
    rfl
  · obtain ⟨_, _, _, _, rfl⟩ := Funds.leaveEvm_ok.mp left
    rfl

theorem egressFunds_row (egressed : egressFunds env config egresslist none output funds = .ok (after, deducted, sent))
    (found : funds.balances.get? owner = some row) :
    (received output.reservedObjects owner = 0 → after.balances.get? owner = some row) ∧
      (received output.reservedObjects owner ≠ 0 → ∃ result,
        row.add (received output.reservedObjects owner) = .ok result ∧ after.balances.get? owner = some result) := by
  simp only [egressFunds] at egressed
  split at egressed
  · rename_i nothing
    cases egressed
    rw [nothing]
    exact ⟨fun _ => found, fun nonzero => absurd rfl nonzero⟩
  · simp only [bind_ok, pure_ok, Prod.mk.injEq] at egressed
    obtain ⟨_, _, egress, folded, _, _, left, leaves, rfl, _⟩ := egressed
    rw [leaveTotal_balances leaves]
    exact egressLoop_row output.distinctReserved folded found

theorem egressFunds_carried
    (egressed : egressFunds env config egresslist none output funds = .ok (after, deducted, sent))
    (closed : funds.balances.get? owner = none) :
    received output.reservedObjects owner ≤ selectedValue (goesTo owner) output.filteredMessages := by
  by_cases zero : received output.reservedObjects owner = 0
  · omega
  simp only [egressFunds] at egressed
  split at egressed
  · rename_i nothing
    exact absurd (by rw [nothing]; rfl) zero
  · simp only [bind_ok] at egressed
    obtain ⟨unit, _, egress, folded, _⟩ := egressed
    have inv := (Egressing.begin unit output.filteredMessages).fold folded
    rw [List.nil_append] at inv
    have present : ∃ object ∈ output.reservedObjects, object.1 = owner ∧ object.2.balance ≠ 0 := by
      by_contra absent
      refine zero (received_eq_zero fun object member named => ?_)
      by_contra nonzero
      exact absent ⟨object, member, named, nonzero⟩
    obtain ⟨object, member, rfl, nonzero⟩ := present
    rw [(inv.forwards object member nonzero closed).total, received_of_mem output.distinctReserved member]

def Exact.gasFee (header : BlockHeader) (tx : Transaction) (output : RunOutput) : Nat :=
  output.cumulativeGasUsed * Exact.effectiveGasPrice tx header.baseFeePerGas

def Exact.unspentGas (header : BlockHeader) (tx : Transaction) (output : RunOutput) : Nat :=
  tx.gasLimit * tx.maxFeePerGas - Exact.gasFee header tx output

def gasShares (account : Name) (header : BlockHeader) (tx : Transaction) (output : RunOutput) : Name → Nat :=
  Pi.single account (Exact.unspentGas header tx output) + Pi.single header.beneficiary (Exact.gasFee header tx output)

/-- A transaction of the contract in the name of an account, which the library accepted, with
the funds for its value and its gas. -/
structure RunInput.Bridged (evm : Silkworm) (input : RunInput) (account : Name) : Prop where
  sender : input.sender = makeReservedAddress account
  price : input.tx.maxPriorityFeePerGas = input.tx.maxFeePerGas
  accepted : evm.preValidateTransaction input.header input.chainId input.gasParams input.tx = .ok
  funded : input.funded = some (input.tx.value + input.tx.gasLimit * input.tx.maxFeePerGas, input.tx.nonce)

/-- What the library does with the gas of such a transaction: the reserved addresses are left
with their shares of it, and that of the sender also with what messages carried to it. -/
structure Silkworm.Refunds (evm : Silkworm) : Prop where
  shares : ∀ input output account, input.Bridged evm account → evm.executeTransaction input = .ok output →
    ∀ owner, gasShares account input.header input.tx output owner ≤ received output.reservedObjects owner
  carried : ∀ input output account, input.Bridged evm account → evm.executeTransaction input = .ok output →
    account ≠ input.header.beneficiary →
    Exact.unspentGas input.header input.tx output + selectedValue (goesTo account) output.filteredMessages ≤
      received output.reservedObjects account

theorem Exact.effectiveGasPrice_eq {tx : Transaction} {baseFee : Option Nat}
    (price : tx.maxPriorityFeePerGas = tx.maxFeePerGas) (most : baseFee.getD 0 ≤ tx.maxFeePerGas) :
    Exact.effectiveGasPrice tx baseFee = tx.maxFeePerGas := by
  unfold Exact.effectiveGasPrice Exact.priorityFeePerGas
  omega

theorem unspentGas_pos {header : BlockHeader} {tx : Transaction} (price : tx.maxPriorityFeePerGas = tx.maxFeePerGas)
    (most : header.baseFeePerGas.getD 0 ≤ tx.maxFeePerGas) :
    0 < Exact.unspentGas header tx output ↔ tx.maxFeePerGas ≠ 0 ∧ output.cumulativeGasUsed < tx.gasLimit := by
  rw [Exact.unspentGas, Exact.gasFee, Exact.effectiveGasPrice_eq price most, ← Nat.sub_mul, Nat.pos_iff_ne_zero,
    Nat.mul_ne_zero_iff, Nat.sub_ne_zero_iff_lt]
  exact And.comm

theorem RunInput.Bridged.most {evm : Silkworm} {input : RunInput} {account : Name} (bridged : input.Bridged evm account)
    (meters : evm.Meters) : input.header.baseFeePerGas.getD 0 ≤ input.tx.maxFeePerGas := by
  cases base : input.header.baseFeePerGas with
  | none => exact Nat.zero_le _
  | some baseFee => exact meters.priced _ _ _ _ baseFee bridged.accepted base

theorem unspentGas_le_shares (account : Name) (header : BlockHeader) (tx : Transaction) (output : RunOutput) :
    Exact.unspentGas header tx output ≤ gasShares account header tx output account := by
  simp [gasShares]

section Refund

variable {symbol : Symbol} {header : BlockHeader} {tx : Transaction} {sender : Address} {payer account : Name}
  {left : Funds}

theorem refundGas_succeeds (metered : Metered header tx output) {baseFee : Nat}
    (base : header.baseFeePerGas = some baseFee) (small : tx.gasLimit * tx.maxFeePerGas < max256)
    (cheaper : Exact.gasFee header tx output < tx.gasLimit * tx.maxFeePerGas)
    (reserved : sender = makeReservedAddress account) (apart : payer ≠ account) {held rest paid result : BalanceWithDust}
    (found : left.balances.get? account = some held) (taken : held.sub (Exact.unspentGas header tx output) = .ok rest)
    (opened : left.balances.get? payer = some paid)
    (added : paid.add (Exact.unspentGas header tx output) = .ok result) :
    ∃ refunded, refundGas header tx sender (some payer) output left = .ok refunded := by
  have fee : output.cumulativeGasUsed * (Exact.priorityFeePerGas tx baseFee + baseFee) = Exact.gasFee header tx output := by
    simp [Exact.gasFee, Exact.effectiveGasPrice, base]
  unfold Exact.unspentGas at taken added
  rw [← fee] at cheaper taken added
  rw [metered.refundGas_exact]
  simp only [Exact.refundGas, base, Funds.debit_ok, Funds.credit_ok, bind_ok, require_ok, check_ok, exists_const]
  refine ⟨_, baseFee, rfl, ⟨cheaper.trans small, small, cheaper⟩, account,
    (extractReservedAddress_eq_some _ _).mpr reserved, _, ⟨held, found, rest, taken, rfl⟩, paid, ?_, result, added, rfl⟩
  rw [Table.get?_put, if_neg apart.symm]
  exact opened

theorem refundGas_overflows (loose : funds.Loose symbol) (metered : Metered header tx output) {baseFee : Nat}
    (base : header.baseFeePerGas = some baseFee) (small : tx.gasLimit * tx.maxFeePerGas < max256)
    (cheaper : Exact.gasFee header tx output < tx.gasLimit * tx.maxFeePerGas)
    (reserved : sender = makeReservedAddress account) (apart : payer ≠ account)
    (unspent : Exact.unspentGas header tx output ≤ received output.reservedObjects account)
    {held paid : BalanceWithDust} (found : funds.balances.get? account = some held)
    (opened : funds.balances.get? payer = some paid) (named : paid.balance.symbol ≠ Symbol.none)
    (precise : paid.balance.symbol.precision ≤ evmPrecision)
    (egressed : egressFunds env config egresslist none output funds = .ok (left, deducted, sent)) {message : String}
    (aborted : refundGas header tx sender (some payer) output left = .error message) :
    ∃ row, left.balances.get? payer = some row ∧
      2 ^ 62 * row.balance.symbol.unit ≤ row.value + Exact.unspentGas header tx output := by
  have positive : 0 < Exact.unspentGas header tx output := Nat.sub_pos_of_lt cheaper
  have whole := (egressFunds_shifts loose egressed).loose
  obtain ⟨credited, added, credits⟩ := (egressFunds_row egressed found).2 (by omega)
  obtain ⟨rest, taken⟩ := (loose.balances account held found).exists_sub_of_add added unspent
  have payerRow : ∃ row, left.balances.get? payer = some row ∧ row.balance.symbol = paid.balance.symbol := by
    by_cases zero : received output.reservedObjects payer = 0
    · exact ⟨paid, (egressFunds_row egressed opened).1 zero, rfl⟩
    · obtain ⟨row, grown, present⟩ := (egressFunds_row egressed opened).2 zero
      exact ⟨row, present, ((loose.balances payer paid opened).add_spec grown).2.1⟩
  obtain ⟨row, present, same⟩ := payerRow
  refine ⟨row, present, ?_⟩
  by_contra room
  obtain ⟨result, fits⟩ := (whole.balances payer row present).exists_add (same ▸ named) (same ▸ precise)
    (Nat.lt_of_not_le room)
  obtain ⟨refunded, succeeds⟩ := refundGas_succeeds metered base small cheaper reserved apart credits taken present fits
  rw [succeeds] at aborted
  cases aborted

end Refund

section Charge

variable {context : TxContext} {charged : Funds} {fromSelf : Bool} {input : RunInput} {payer account : Name} {nonce : Nat}
  {symbol : Symbol}

theorem beginTx_bridged (signs : env.evm.Signs) (form : context.tx.IsBridge nonce account.val)
    (begun : beginTx env context funds = .ok (charged, fromSelf, input)) :
    input.sender = makeReservedAddress account ∧ input.tx = context.tx ∧ input.header = context.header ∧
      fromSelf = (account == env.self) ∧
      ∃ given, chargeSender context.rc context.tx account funds = .ok (charged, given) ∧
        input.funded = some (given, context.tx.nonce) := by
  obtain ⟨sender, funded, recovered, prepared, rfl⟩ := beginTx_ok begun
  have named : sender = makeReservedAddress account :=
    Option.some.inj (recovered.symm.trans (signs.named context.tx account form.r form.s))
  subst named
  simp only [prepareSender, form.special, if_true, extractReservedAddress_makeReservedAddress, bind_ok, check_ok,
    exists_const, pure_ok, Prod.mk.injEq] at prepared
  obtain ⟨_, ⟨left, given⟩, charges, rfl, rfl, rfl⟩ := prepared
  exact ⟨rfl, rfl, rfl, rfl, given, charges, rfl⟩

theorem chargeSender_given (small : context.tx.gasLimit * context.tx.maxFeePerGas < 2 ^ 256) {given : Nat}
    (charges : chargeSender context.rc context.tx account funds = .ok (charged, given)) :
    context.tx.gasLimit * context.tx.maxFeePerGas + context.tx.value < max256 ∧
      given = context.tx.value + context.tx.gasLimit * context.tx.maxFeePerGas := by
  rw [chargeSender_exact small] at charges
  simp only [Exact.chargeSender, bind_ok, check_ok, exists_const, pure_ok, Prod.mk.injEq] at charges
  obtain ⟨fits, _, _, _, _, _, rfl⟩ := charges
  exact ⟨fits, rfl⟩

theorem chargeSender_payer (loose : funds.Loose symbol) (paying : context.rc.gasPayer = some payer)
    (apart : payer ≠ account) {given : Nat}
    (charges : chargeSender context.rc context.tx account funds = .ok (charged, given)) :
    ∃ row, charged.balances.get? payer = some row ∧ row.balance.symbol ≠ Symbol.none ∧
      row.balance.symbol.precision ≤ evmPrecision := by
  simp only [chargeSender, debitPayers, paying, Funds.debit_ok, Funds.enterEvm_ok, bind_ok, check_ok, exists_const, pure_ok,
    Prod.mk.injEq] at charges
  obtain ⟨_, _, ⟨paid, ⟨row, found, rest, taken, rfl⟩, value⟩, _, ⟨_, _, _, _, rfl⟩, rfl, _⟩ := charges
  obtain ⟨_, same, precise, named, _⟩ := (loose.balances payer row found).sub_spec taken
  refine ⟨rest, ?_, same ▸ named, same ▸ precise⟩
  split at value
  · obtain ⟨_, _, _, _, rfl⟩ := Funds.debit_ok.mp value
    simp only [Table.get?_put, if_neg apart.symm]
    rfl
  · cases value
    rw [Table.get?_put, if_pos rfl]

theorem beginTx_isBridged (signs : env.evm.Signs) (form : context.tx.IsBridge nonce account.val)
    (small : context.tx.gasLimit * context.tx.maxFeePerGas < 2 ^ 256)
    (begun : beginTx env context funds = .ok (charged, fromSelf, input)) : input.Bridged env.evm account := by
  obtain ⟨sender, sameTx, sameHeader, _, given, charges, funded⟩ := beginTx_bridged signs form begun
  have accepted := beginTx_preValidated begun
  obtain ⟨_, rfl⟩ := chargeSender_given small charges
  obtain ⟨_, _, _, _, rfl⟩ := beginTx_ok begun
  exact ⟨sender, form.price, accepted, funded⟩

end Charge

section Settle

variable {context : TxContext} {input : RunInput} {payer account : Name} {nonce baseFee : Nat} {symbol : Symbol}

theorem executeTx_bridged (meters : env.evm.Meters) (signs : env.evm.Signs) (form : context.tx.IsBridge nonce account.val)
    (executed : executeTx env context funds = .ok (after, sent, input, output)) :
    input.Bridged env.evm account ∧ input.tx = context.tx ∧ input.header = context.header ∧ input.db = context.db ∧
      context.tx.gasLimit * context.tx.maxFeePerGas < 2 ^ 256 ∧ env.evm.executeTransaction input = .ok output ∧
      (context.rc.abortOnFailure = true → output.success = true) := by
  obtain ⟨charged, fromSelf, begun, validated, ran, settled⟩ := executeTx_ok executed
  obtain ⟨_, sameTx, sameHeader, _⟩ := beginTx_bridged signs form begun
  obtain ⟨balance, fits, least⟩ := meters.covered _ validated
  have small : context.tx.gasLimit * context.tx.maxFeePerGas < 2 ^ 256 := by
    rw [sameTx] at least
    omega
  have bridged := beginTx_isBridged signs form small begun
  obtain ⟨_, _, _, _, rfl⟩ := beginTx_ok begun
  refine ⟨bridged, rfl, rfl, rfl, small, ran, fun aborting => ?_⟩
  simp only [settleTx, bind_ok, check_ok, exists_const] at settled
  obtain ⟨_, _, succeeded, _⟩ := settled
  exact succeeded.resolve_left (by simp [aborting])

theorem minerShare_self (self : context.miner = env.self) : minerShare env context output = .ok none := by
  simp [minerShare, payableMiner, self]

theorem settleTx_unmined {fromSelf : Bool} {sender : Address} (self : context.miner = env.self) :
    settleTx env context fromSelf sender output funds = .ok (after, sent) ↔
      (context.rc.abortOnFailure = false ∨ output.success = true) ∧ ∃ left deducted refunded,
        egressFunds env context.config context.egresslist none output funds = .ok (left, deducted, sent) ∧
        refundGas context.header context.tx sender context.rc.gasPayer output left = .ok refunded ∧
        recordGasFee context.config env.now context.header context.tx none fromSelf output refunded = .ok after := by
  simp only [settleTx, minerShare_self self, ok_bind, payMiner, Option.getD_none, if_true, bind_ok, check_ok, exists_const,
    pure_ok, Prod.mk.injEq]
  constructor
  · rintro ⟨succeeded, ⟨left, deducted, actions⟩, egressed, refunded, refunds, recorded, records, rfl, rfl⟩
    exact ⟨succeeded, left, deducted, refunded, egressed, refunds, records⟩
  · rintro ⟨succeeded, left, deducted, refunded, egressed, refunds, records⟩
    exact ⟨succeeded, _, egressed, refunded, refunds, after, records, rfl, rfl⟩

theorem unusedGas_exact {header : BlockHeader} {tx : Transaction} (metered : Metered header tx output)
    (base : header.baseFeePerGas = some baseFee) : unusedGas tx baseFee output = Exact.unspentGas header tx output := by
  unfold unusedGas Exact.unspentGas Exact.gasFee Exact.effectiveGasPrice
  rw [metered.spent_exact base, maxGasCost_exact metered.covered, base, Option.getD_some]

theorem executeTx_gasPayer (loose : funds.Loose symbol) (meters : env.evm.Meters) (signs : env.evm.Signs)
    (form : context.tx.IsBridge nonce account.val)
    (self : context.miner = env.self) (paying : context.rc.gasPayer = some payer)
    (executed : executeTx env context funds = .ok (after, sent, input, output)) :
    input.Bridged env.evm account ∧ input.tx = context.tx ∧ input.header = context.header ∧
      env.evm.executeTransaction input = .ok output ∧ Metered context.header context.tx output ∧
      0 < Exact.unspentGas context.header context.tx output ∧
      ∀ owner, after.valueOf owner + (Pi.single payer (context.tx.gasLimit * context.tx.maxFeePerGas) +
            Pi.single account context.tx.value +
            Pi.single account (Exact.unspentGas context.header context.tx output) : Name → Nat) owner =
          funds.valueOf owner + (receivedOpen funds output.reservedObjects +
            Pi.single payer (Exact.unspentGas context.header context.tx output) : Name → Nat) owner := by
  obtain ⟨isBridged, sameTx, sameHeader, _, _, ran, _⟩ := executeTx_bridged meters signs form executed
  obtain ⟨charged, fromSelf, begun, validated, _, settled⟩ := executeTx_ok executed
  obtain ⟨sender, _, _, _, given, charges, _⟩ := beginTx_bridged signs form begun
  obtain ⟨_, _, charge⟩ := chargeSender_shifts loose charges
  obtain ⟨portion, paid, refunded, shared, second, refunds, records⟩ := settleTx_shifts charge.loose settled
  have none : portion = none := Except.ok.inj (shared.symm.trans (minerShare_self self))
  subst none
  rw [paying] at refunds
  obtain ⟨baseFee, refundAccount, base, reserved, positive, third⟩ := refundGas_shifts second.loose refunds
  have same : refundAccount = account := makeReservedAddress_injective (reserved.symm.trans sender)
  subst same
  have metered := meters.metered_of_ran begun validated ran
  rw [unusedGas_exact metered base] at positive third
  refine ⟨isBridged, sameTx, sameHeader, ran, metered, positive, fun owner => ?_⟩
  have values := ((charge.trans second).trans third).values owner
  rw [recordGasFee_valueOf records]
  simp only [EosEvm.charges, paying, Pi.add_apply, Pi.zero_apply, Option.getD_none, Pi.single_zero,
    receivedOpen_congr charge.opened, maxGasCost_exact metered.covered] at values
  simp only [Pi.add_apply]
  omega

/-- The run sends nothing to reserved addresses besides the gas. -/
structure OnlyGas (account : Name) (input : RunInput) (output : RunOutput) : Prop where
  silent : output.filteredMessages = []
  plain : ∀ owner, received output.reservedObjects owner ≤ gasShares account input.header input.tx output owner

theorem OnlyGas.received (refunds : env.evm.Refunds) (bridged : input.Bridged env.evm account)
    (ran : env.evm.executeTransaction input = .ok output) (onlyGas : OnlyGas account input output) (owner : Name) :
    EosEvm.received output.reservedObjects owner = gasShares account input.header input.tx output owner :=
  Nat.le_antisymm (onlyGas.plain owner) (refunds.shares input output account bridged ran owner)

theorem reservedTotal_eq_sum {objects : List (Name × Account)} {owners : Finset Name}
    (empty : ∀ object ∈ objects, object.1 ∉ owners → object.2.balance = 0) :
    reservedTotal objects = ∑ owner ∈ owners, EosEvm.received objects owner := by
  induction objects with
  | nil => simp [reservedTotal, EosEvm.received]
  | cons object rest ih =>
      have later := ih fun other member => empty other (List.mem_cons_of_mem _ member)
      have total : reservedTotal (object :: rest) = object.2.balance + reservedTotal rest := by simp [reservedTotal]
      have here : ∀ owner, EosEvm.received (object :: rest) owner =
          (if object.1 = owner then object.2.balance else 0) + EosEvm.received rest owner := by
        intro owner
        by_cases own : object.1 = owner <;> simp [EosEvm.received, own]
      rw [total, later, Finset.sum_congr rfl fun owner _ => here owner, Finset.sum_add_distrib, Finset.sum_ite_eq]
      by_cases inside : object.1 ∈ owners
      · rw [if_pos inside]
      · rw [if_neg inside, empty object List.mem_cons_self inside]

theorem credit_other {owner other : Name} {amount : Nat} {missing : String}
    (credited : funds.credit owner amount missing = .ok after) (apart : other ≠ owner) :
    after.balances.get? other = funds.balances.get? other := by
  obtain ⟨_, _, _, _, rfl⟩ := Funds.credit_ok.mp credited
  rw [Table.get?_put, if_neg apart.symm]

theorem debit_other {owner other : Name} {amount : Nat} {missing : String}
    (debited : funds.debit owner amount missing = .ok after) (apart : other ≠ owner) :
    after.balances.get? other = funds.balances.get? other := by
  obtain ⟨_, _, _, _, rfl⟩ := Funds.debit_ok.mp debited
  rw [Table.get?_put, if_neg apart.symm]

theorem chargeSender_other {rc : RuntimeConfig} {tx : Transaction} {other : Name} {given : Nat}
    (charged : chargeSender rc tx account funds = .ok (after, given)) (paying : ∀ payer, rc.gasPayer = some payer → other ≠ payer)
    (apart : other ≠ account) : after.balances.get? other = funds.balances.get? other := by
  simp only [chargeSender, Funds.enterEvm_ok, bind_ok, check_ok, exists_const, pure_ok, Prod.mk.injEq] at charged
  obtain ⟨_, debited, debits, _, ⟨_, _, _, _, rfl⟩, rfl, _⟩ := charged
  simp only [debitPayers] at debits
  split at debits
  · rename_i payer found
    simp only [bind_ok] at debits
    obtain ⟨paid, gas, value⟩ := debits
    have first := debit_other gas (paying payer found)
    split at value
    · exact (debit_other value apart).trans first
    · cases value
      exact first
  · have kept := debit_other debits apart
    exact kept

theorem egressFunds_other {deducted : Bool} (loose : funds.Loose symbol)
    (egressed : egressFunds env config egresslist none output funds = .ok (after, deducted, sent)) {other : Name}
    (nothing : EosEvm.received output.reservedObjects other = 0) :
    after.balances.get? other = funds.balances.get? other := by
  cases found : funds.balances.get? other with
  | some row => exact (egressFunds_row egressed found).1 nothing
  | none =>
      have opened := (egressFunds_shifts loose egressed).opened other
      rw [found] at opened
      exact Option.not_isSome_iff_eq_none.mp (by rw [opened]; exact Bool.false_ne_true)

theorem refundGas_other {header : BlockHeader} {tx : Transaction} {sender : Address} {gasPayer : Option Name} {other : Name}
    (refunded : refundGas header tx sender gasPayer output funds = .ok after)
    (reserved : sender = makeReservedAddress account) (apart : other ≠ account)
    (unpaid : ∀ payer, gasPayer = some payer → other ≠ payer) :
    after.balances.get? other = funds.balances.get? other := by
  cases gasPayer with
  | none =>
      cases refunded
      rfl
  | some payer =>
      simp only [refundGas, bind_ok, check_ok, require_ok, exists_const] at refunded
      obtain ⟨_, _, _, found, extracted, taken, debit, credit⟩ := refunded
      have same : found = account :=
        makeReservedAddress_injective (((extractReservedAddress_eq_some _ _).mp extracted).symm.trans reserved)
      exact (credit_other credit (unpaid payer rfl)).trans (debit_other debit (same ▸ apart))

theorem executeTx_other (loose : funds.Loose symbol) (signs : env.evm.Signs)
    (form : context.tx.IsBridge nonce account.val) (self : context.miner = env.self)
    (executed : executeTx env context funds = .ok (after, sent, input, output)) {other : Name}
    (unpaid : ∀ payer, context.rc.gasPayer = some payer → other ≠ payer) (apart : other ≠ account)
    (nothing : EosEvm.received output.reservedObjects other = 0) :
    after.balances.get? other = funds.balances.get? other := by
  obtain ⟨charged, fromSelf, begun, _, _, settled⟩ := executeTx_ok executed
  obtain ⟨sender, _, _, _, given, charges, _⟩ := beginTx_bridged signs form begun
  have first := chargeSender_other charges unpaid apart
  have kept := (chargeSender_shifts loose charges).2.2.loose
  obtain ⟨_, left, deducted, refunded, egressed, refunds, records⟩ := (settleTx_unmined self).mp settled
  have second := egressFunds_other kept egressed nothing
  have third := refundGas_other refunds sender apart unpaid
  obtain ⟨statistics, rfl⟩ := recordGasFee_spec records
  exact third.trans (second.trans first)

theorem executeTx_onlyGas (loose : funds.Loose context.config.getTokenSymbol) (meters : env.evm.Meters)
    (signs : env.evm.Signs) (refunds : env.evm.Refunds)
    (form : context.tx.IsBridge nonce account.val) (self : context.miner = env.self)
    (paying : context.rc.gasPayer = some payer) (beneficiary : context.header.beneficiary = env.self)
    (apart : payer ≠ account) (foreign : payer ≠ env.self) (other : account ≠ env.self)
    (executed : executeTx env context funds = .ok (after, sent, input, output)) (onlyGas : OnlyGas account input output) :
    after.valueOf payer + Exact.gasFee context.header context.tx output = funds.valueOf payer ∧
      after.valueOf account + context.tx.value = funds.valueOf account ∧
      after.valueOf env.self = funds.valueOf env.self + Exact.gasFee context.header context.tx output ∧
      after.evmValue = funds.evmValue + context.tx.value ∧
      ∀ owner, owner ≠ payer → owner ≠ account → owner ≠ env.self →
        after.balances.get? owner = funds.balances.get? owner := by
  obtain ⟨bridged, sameTx, sameHeader, ran, metered, positive, values⟩ :=
    executeTx_gasPayer loose meters signs form self paying executed
  have shares := onlyGas.received refunds bridged ran
  rw [sameTx, sameHeader] at shares
  have fee : Exact.gasFee context.header context.tx output + Exact.unspentGas context.header context.tx output =
      context.tx.gasLimit * context.tx.maxFeePerGas := by
    unfold Exact.unspentGas at positive ⊢
    omega
  have atPayer := shares payer
  have atAccount := shares account
  have atSelf := shares env.self
  simp only [gasShares, beneficiary, Pi.add_apply, Pi.single_eq_same, Pi.single_eq_of_ne apart, Pi.single_eq_of_ne foreign,
    Pi.single_eq_of_ne other, Pi.single_eq_of_ne other.symm, Nat.zero_add, Nat.add_zero] at atPayer atAccount atSelf
  have nothing : ∀ owner, owner ≠ account → owner ≠ env.self → EosEvm.received output.reservedObjects owner = 0 := by
    intro owner notAccount notSelf
    rw [shares owner]
    simp [gasShares, beneficiary, notAccount, notSelf]
  refine ⟨?_, ?_, ?_, ?_, ?_⟩
  · have value := values payer
    simp only [Pi.add_apply, Pi.single_eq_same, Pi.single_eq_of_ne apart, receivedOpen, atPayer, ite_self] at value
    omega
  · have value := values account
    simp only [Pi.add_apply, Pi.single_eq_same, Pi.single_eq_of_ne apart.symm, receivedOpen, atAccount] at value
    split at value
    · omega
    · rename_i closed
      have none : funds.valueOf account = 0 := by
        simp [Funds.valueOf, Option.not_isSome_iff_eq_none.mp closed]
      omega
  · have value := values env.self
    obtain ⟨charged, fromSelf, begun, _, _, settled⟩ := executeTx_ok executed
    obtain ⟨_, _, _, _, _, charges, _⟩ := beginTx_bridged signs form begun
    have own := settleTx_receivedSelf settled
    rw [receivedOpen_congr (chargeSender_shifts loose charges).2.2.opened, atSelf] at own
    simp only [Pi.add_apply, Pi.single_eq_of_ne foreign.symm, Pi.single_eq_of_ne other.symm, own] at value
    omega
  · have total : reservedTotal output.reservedObjects = context.tx.gasLimit * context.tx.maxFeePerGas := by
      rw [reservedTotal_eq_sum (fun object member outside => ?_), Finset.sum_pair other, atAccount, atSelf]
      · omega
      · simp only [Finset.mem_insert, Finset.mem_singleton, not_or] at outside
        rw [← received_of_mem output.distinctReserved member]
        exact nothing object.1 outside.1 outside.2
    obtain ⟨_, _, leaves⟩ := executeTx_egress loose (by rw [total]; exact metered.covered) executed
    rw [total, bridged.funded, sameTx, Option.map_some, Option.getD_some] at leaves
    omega
  · intro owner notPayer notAccount notSelf
    refine executeTx_other loose signs form self executed ?_ notAccount (nothing owner notAccount notSelf)
    intro someone found
    cases paying.symm.trans found
    exact notPayer

end Settle

theorem callotherpay_ok {before done : Contract} {payer sender : Name} {recipient value data : Bytes} {gasLimit : Nat}
    (caller : Option Name) (auths : List Name)
    (called : Contract.callotherpay env payer sender recipient value data gasLimit before = .ok done) :
    ∃ nonce tx middle,
      Contract.Bridges env before (.action caller auths (.callotherpay payer sender recipient value data gasLimit))
        (some payer) tx middle ∧
      tx.IsBridge nonce sender.val ∧ loadValue value = .ok tx.value ∧ tx.gasLimit = u64 gasLimit ∧
      tx.recipient = (if recipient = [] then none else some (env.evm.toEvmcAddress recipient)) ∧ tx.data = data ∧
      middle.funds = before.funds ∧
      processTx env (bridgeConfig (some payer)) env.self (.ofTx tx) none
        { middle with config := (middle.config.promoteEvmVersion env.now).2 } = .ok done := by
  simp only [Contract.callotherpay, callWith, getAndIncrementNonce, bind_ok, assertUnfrozen_ok, requireAuth_ok, check_ok,
    require_ok, exists_const, pure_ok] at called
  obtain ⟨_, authorised, paying, _, worth, loaded, _, ⟨nonce, next, rfl⟩, dispatched⟩ := called
  rcases dispatchTx_ok dispatched with ⟨_, processed⟩ | ⟨_, unpaid, _⟩
  · refine ⟨nonce, _, _, .callotherpay caller auths payer sender recipient value data gasLimit nonce _ authorised paying
      next ⟨worth, loaded, rfl⟩, ?_, loaded, rfl, rfl, rfl, ?_, processed⟩
    · exact Contract.callTx_isBridge env recipient data gasLimit nonce _ (Contract.loadValue_ok loaded).2
        (Contract.name_lt sender)
    · rw [Contract.refreshPrices_eq]
  · cases unpaid

theorem Calls.callotherpay {host : Host} {view : ChainView} {world : World} {call : TxCall} {tx : Transaction}
    {caller : Option Name} {auths : List Name} {payer sender : Name} {recipient value data : Bytes} {gasLimit : Nat}
    (calls : Calls host view world (.action caller auths (.callotherpay payer sender recipient value data gasLimit)) call)
    (decoded : call.txn.getTx host.evm = .ok tx) :
    (∃ nonce, tx.IsBridge nonce sender.val) ∧ call.rc.gasPayer = some payer ∧ call.miner = host.self := by
  cases calls with
  | bridges _ _ _ _ bridges _ =>
      cases bridges with
      | callotherpay _ _ _ _ _ _ _ _ nonce _ _ _ _ made =>
          cases decoded
          exact ⟨⟨nonce, made.isBridge (Contract.name_lt _)⟩, rfl, rfl⟩

/-- In every reachable state, for a payer, a sender and a contract that are three accounts: a
successful `callotherpay` whose run sends nothing but gas charges the payer the fee and the
sender the value, and a refund that aborts would have taken the payer above the largest amount. -/
theorem run_callotherpay_exact (host : Host) (meters : host.evm.Meters) (signs : host.evm.Signs)
    (refunds : host.evm.Refunds) (holding : Name → Symbol → Nat) (labels : List Label) (world : World)
    (finished : run host labels (World.start holding) = .ok world) (view : ChainView) (caller : Option Name)
    (auths : List Name) (payer sender : Name) (recipient value data : Bytes) (gasLimit : Nat) (apart : payer ≠ sender)
    (foreign : payer ≠ host.self) (other : sender ≠ host.self) :
    let request := Request.action caller auths (.callotherpay payer sender recipient value data gasLimit)
    let env := host.env view world.now request
    let before := world.contract.funds
    (∀ done, Contract.callotherpay env payer sender recipient value data gasLimit world.contract = .ok done →
      ∃ call after sent input output, Calls host view world request call ∧
        call.txn.getTx host.evm = .ok input.tx ∧
        executeTx env (contextOf env call.rc call.miner input.tx call.contract) call.contract.funds =
          .ok (after, sent, input, output) ∧
        processTx env call.rc call.miner call.txn call.minInclusionPrice call.contract = .ok done ∧
        input.Bridged env.evm sender ∧ loadValue value = .ok input.tx.value ∧ input.tx.gasLimit = u64 gasLimit ∧
        input.tx.recipient = (if recipient = [] then none else some (env.evm.toEvmcAddress recipient)) ∧
        input.tx.data = data ∧
        (OnlyGas sender input output →
          done.funds.valueOf payer + Exact.gasFee input.header input.tx output = before.valueOf payer ∧
          done.funds.valueOf sender + input.tx.value = before.valueOf sender ∧
          done.funds.valueOf host.self = before.valueOf host.self + Exact.gasFee input.header input.tx output ∧
          done.funds.evmValue = before.evmValue + input.tx.value ∧
          ∀ owner, owner ≠ payer → owner ≠ sender → owner ≠ host.self →
            done.funds.balances.get? owner = before.balances.get? owner)) ∧
    ∀ call tx, Calls host view world request call → call.txn.getTx host.evm = .ok tx →
      let context := contextOf env call.rc call.miner tx call.contract
      ∀ charged fromSelf input output left deducted sent, 1 ≤ context.header.version →
        beginTx env context call.contract.funds = .ok (charged, fromSelf, input) →
        env.evm.validateTransaction input = .ok .ok → env.evm.executeTransaction input = .ok output →
        output.success = true → output.cumulativeGasUsed < tx.gasLimit → tx.maxFeePerGas ≠ 0 →
        minerShare env context output = .ok none ∧
        (egressFunds env context.config context.egresslist none output charged = .ok (left, deducted, sent) →
          ∀ message, refundGas context.header tx input.sender call.rc.gasPayer output left = .error message →
            ∃ row, left.balances.get? payer = some row ∧
              2 ^ 62 * row.balance.symbol.unit ≤ row.value + Exact.unspentGas context.header tx output) := by
  intro request env before
  refine ⟨?_, ?_⟩
  · intro done called
    obtain ⟨nonce, tx, middle, bridges, form, loaded, limit, goes, carries, sameFunds, processed⟩ :=
      callotherpay_ok caller auths called
    have calls : Calls host view world request _ := .bridges request (some payer) tx middle bridges fun _ _ _ _ _ same => by
      simp [request] at same
    have rows := calls.loose (run_loose finished)
    unfold Contract.Loose at rows
    rw [← contextOf_symbol env (bridgeConfig (some payer)) host.self tx] at rows
    obtain ⟨_, funds, transfers, input, output, delivered, notices, db, decoded, _, _, _, _, executed, filtered, _, rfl⟩ :=
      processTx_ok processed
    cases decoded
    obtain ⟨bridged, rfl, sameHeader, _⟩ := executeTx_gasPayer rows meters signs form rfl rfl executed
    refine ⟨_, funds, transfers, input, output, calls, rfl, executed, processed, bridged, loaded, limit, goes, carries,
      fun onlyGas => ?_⟩
    obtain ⟨paid, spent, earned, entered, kept⟩ :=
      executeTx_onlyGas rows meters signs refunds form rfl rfl rfl apart foreign other executed onlyGas
    simp only [processFilteredMessages, onlyGas.silent, List.filter_nil, foldOutcome, debitDelivered, ok_bind,
      Nat.lt_irrefl, if_false, pure_ok, Prod.mk.injEq] at filtered
    obtain ⟨rfl, rfl⟩ := filtered
    rw [sameHeader]
    have same : before = middle.funds := sameFunds.symm
    rw [same]
    exact ⟨paid, spent, earned, entered, kept⟩
  · intro call tx calls decoded context charged fromSelf input output left deducted sent active begun validated ran
      succeeded fewer priced
    obtain ⟨⟨nonce, form⟩, paying, self⟩ := Calls.callotherpay calls decoded
    have rows : call.contract.funds.Loose context.config.getTokenSymbol := by
      rw [contextOf_symbol]
      exact calls.loose (run_loose finished)
    have metered : Metered context.header tx output :=
      Silkworm.Meters.metered_of_ran meters begun validated ran
    have isBridged : input.Bridged host.evm sender := beginTx_isBridged signs form metered.covered begun
    obtain ⟨reserved, sameTx, sameHeader, _, given, charges, _⟩ := beginTx_bridged signs form begun
    have loose := (chargeSender_shifts rows charges).2.2.loose
    obtain ⟨fits, _⟩ := chargeSender_given metered.covered charges
    obtain ⟨row, opened, named, precise⟩ := chargeSender_payer rows paying apart charges
    have base : context.header.baseFeePerGas = some _ := if_pos active
    have most : Exact.effectiveGasPrice tx context.header.baseFeePerGas ≤ tx.maxFeePerGas := by
      rw [base]
      exact metered.effective_le base
    have cheaper : Exact.gasFee context.header tx output < tx.gasLimit * tx.maxFeePerGas :=
      lt_of_le_of_lt (Nat.mul_le_mul_left _ most) (Nat.mul_lt_mul_of_pos_right fewer (Nat.pos_of_ne_zero priced))
    have positive : 0 < Exact.unspentGas context.header tx output := Nat.sub_pos_of_lt cheaper
    have carried := refunds.carried input output sender isBridged ran (sameHeader ▸ other)
    rw [sameTx, sameHeader] at carried
    refine ⟨minerShare_self self, fun egressed message aborted => ?_⟩
    cases found : charged.balances.get? sender with
    | none =>
        have closed := egressFunds_carried egressed found
        have nothing : Exact.unspentGas context.header context.tx output = 0 := by omega
        exact absurd nothing (Nat.ne_of_gt positive)
    | some held =>
        rw [paying] at aborted
        exact refundGas_overflows loose metered base (by exact lt_of_le_of_lt (Nat.le_add_right _ _) fits) cheaper reserved
          apart (by exact le_trans (Nat.le_add_right _ _) carried) found opened named precise egressed aborted

namespace Ledger

theorem executeTransaction_received {input : RunInput} {output : RunOutput} {account : Name}
    (bridged : input.Bridged market account) (ran : executeTransaction input = .ok output) (owner : Name) :
    received output.reservedObjects owner =
      gasShares account input.header input.tx output owner + selectedValue (goesTo owner) output.filteredMessages := by
  have used := executeTransaction_gasUsed ran
  have most : input.header.baseFeePerGas.getD 0 ≤ input.tx.maxFeePerGas := by
    have accepted := bridged.accepted
    simp only [market] at accepted
    split at accepted
    · assumption
    · cases accepted
  have fee : Exact.gasFee input.header input.tx output = gasUsed input.tx * input.tx.maxFeePerGas := by
    rw [Exact.gasFee, used, Exact.effectiveGasPrice_eq bridged.price most]
  simp only [executeTransaction, bridged.funded, bridged.sender, extractReservedAddress_makeReservedAddress, bind_ok,
    require_ok, check_ok, exists_const] at ran
  obtain ⟨_, ⟨⟩, _, ⟨⟩, recipient, _, enough, ran⟩ := ran
  have unspent : input.tx.value + input.tx.gasLimit * input.tx.maxFeePerGas -
      (input.tx.value + gasUsed input.tx * input.tx.maxFeePerGas) = Exact.unspentGas input.header input.tx output := by
    rw [Exact.unspentGas, fee]
    omega
  rw [gasShares, ← unspent, fee, Pi.add_apply]
  split at ran
  · rename_i receiver found
    rw [pure_ok] at ran
    subst ran
    have reserved := (extractReservedAddress_eq_some _ _).mp found
    have carried : ∀ message : FilteredMessage, message.receiver = recipient → message.value = input.tx.value →
        selectedValue (goesTo owner) [message] = (Pi.single receiver input.tx.value : Name → Nat) owner := by
      intro message goes worth
      rw [Pi.single_apply]
      by_cases same : owner = receiver
      · simp [selectedValue, goesTo, goes, reserved, same, worth]
      · have apart : makeReservedAddress receiver ≠ makeReservedAddress owner := fun equal =>
          same (makeReservedAddress_injective equal).symm
        simp [selectedValue, goesTo, goes, reserved, same, apart]
    rw [received_receipt, accumulate_getD, accumulate_getD, accumulate_getD, Table.get?_empty, Option.getD_none,
      Nat.zero_add]
    exact congrArg _ (carried _ rfl rfl).symm
  · simp only [bind_ok, pure_ok] at ran
    obtain ⟨_, _, rfl⟩ := ran
    rw [received_receipt, accumulate_getD, accumulate_getD, Table.get?_empty, Option.getD_none, Nat.zero_add]
    rfl

theorem onlyGas_of_ordinary {input : RunInput} {output : RunOutput} {account : Name} {recipient : Address}
    (bridged : input.Bridged market account) (goes : input.tx.recipient = some recipient)
    (plain : extractReservedAddress recipient = none) (ran : market.executeTransaction input = .ok output) :
    OnlyGas account input output := by
  simp only [market, bridged.funded, Option.isSome_some, if_true] at ran
  have silent : output.filteredMessages = [] := by
    simp only [executeTransaction, goes, bind_ok, require_ok, check_ok, exists_const] at ran
    obtain ⟨_, _, _, _, _, ⟨⟩, _, ran⟩ := ran
    simp only [plain, bind_ok, pure_ok] at ran
    obtain ⟨_, _, rfl⟩ := ran
    rfl
  refine ⟨silent, fun owner => ?_⟩
  rw [executeTransaction_received bridged ran owner, silent]
  exact Nat.le_refl _

theorem market_refunds : market.Refunds where
  shares := by
    intro input output account bridged ran owner
    simp only [market, bridged.funded, Option.isSome_some, if_true] at ran
    rw [executeTransaction_received bridged ran owner]
    exact Nat.le_add_right _ _
  carried := by
    intro input output account bridged ran _
    simp only [market, bridged.funded, Option.isSome_some, if_true] at ran
    rw [executeTransaction_received bridged ran account]
    exact Nat.add_le_add_right (unspentGas_le_shares account input.header input.tx output) _

def paired : List Label := opening ++ act bob (.open bob) 0 ++ pay alice 1000000 "alice" 0 ++ pay bob 1000000 "bob" 0 ++
  act self (.setversion 1) 0 ++ later 1

def enriched : List Label :=
  paired ++ act self (.addopenbal alice (Abi.digits 32 ((2 ^ 62 - 1 - 1000000) * 10 ^ 14)) false) 0

def otherPays (recipient : Address) : Request :=
  .action none [alice, bob]
    (.callotherpay alice bob (Abi.digits 20 recipient.toNat) (Abi.digits 32 5000000000000000) [] 100000)

def otherEnv (recipient : Address) (now : Nat) : Env := marketHost.env view now (otherPays recipient)

def otherTx (recipient : Address) : Transaction where
  nonce := 0
  maxPriorityFeePerGas := 150000000000
  maxFeePerGas := 150000000000
  gasLimit := 100000
  recipient := some recipient
  value := 5000000000000000
  r := 0
  s := bob.val

def otherMiddle (recipient : Address) (world : World) : Contract :=
  refreshPrices (otherEnv recipient world.now) { world.contract with
    config := (world.contract.config.promoteEvmVersion world.now).2
    nextnonces := world.contract.nextnonces.put bob 1 }

def otherContract (recipient : Address) (world : World) : Contract :=
  { otherMiddle recipient world with config := ((otherMiddle recipient world).config.promoteEvmVersion world.now).2 }

def otherContext (recipient : Address) (world : World) : TxContext :=
  contextOf (otherEnv recipient world.now) (bridgeConfig (some alice)) self (otherTx recipient)
    (otherContract recipient world)

def otherCalled (recipient : Address) (world : World) : Outcome Contract :=
  Contract.callotherpay (otherEnv recipient world.now) alice bob (Abi.digits 20 recipient.toNat)
    (Abi.digits 32 5000000000000000) [] 100000 world.contract

def otherStages (recipient : Address) (world : World) :
    Outcome ((Funds × Bool × RunInput) × RunOutput × Funds × Bool × List Inline) := do
  let begun ← beginTx (otherEnv recipient world.now) (otherContext recipient world) (otherContract recipient world).funds
  let result ← market.validateTransaction begun.2.2
  check (result = .ok) "validate_transaction error"
  let output ← market.executeTransaction begun.2.2
  let egress ← egressFunds (otherEnv recipient world.now) (otherContext recipient world).config
    (otherContext recipient world).egresslist none output begun.1
  return (begun, output, egress)

def otherRefund (recipient : Address) (world : World) (input : RunInput) (output : RunOutput) (left : Funds) :
    Outcome Funds :=
  refundGas (otherContext recipient world).header (otherTx recipient) input.sender (some alice) output left

end Ledger

/-- The run sends the payer 0.005 tokens, and the refund no longer fits into the payer's balance. -/
theorem refundGas_overflow : ∃ world begun output left deducted sent,
    run Ledger.marketHost Ledger.enriched (World.start fun _ _ => 0) = .ok world ∧
    Ledger.otherStages (makeReservedAddress Ledger.alice) world = .ok (begun, output, left, deducted, sent) ∧
    output.success = true ∧ output.cumulativeGasUsed < 100000 ∧
    Ledger.otherRefund (makeReservedAddress Ledger.alice) world begun.2.2 output left = .error "accumulation overflow" ∧
    Ledger.otherCalled (makeReservedAddress Ledger.alice) world = .error "accumulation overflow" := by
  obtain ⟨world, reached, seen⟩ := exists_of_view
    (run Ledger.marketHost Ledger.enriched (World.start fun _ _ => 0))
    (fun world => decide ((Ledger.otherStages (makeReservedAddress Ledger.alice) world).toOption.map (fun result => decide
        (result.2.1.success = true ∧ result.2.1.cumulativeGasUsed < 100000 ∧
          (Ledger.otherRefund (makeReservedAddress Ledger.alice) world result.1.2.2 result.2.1 result.2.2.1).map
            (fun _ => ()) = .error "accumulation overflow")) = some true ∧
      (Ledger.otherCalled (makeReservedAddress Ledger.alice) world).map (fun _ => ()) =
        .error "accumulation overflow")) true (by decide +kernel)
  obtain ⟨staged, aborted⟩ := of_decide_eq_true seen
  obtain ⟨⟨begun, output, left, deducted, sent⟩, stages, checked⟩ := exists_of_view _ _ _ staged
  obtain ⟨succeeded, fewer, refused⟩ := of_decide_eq_true checked
  exact ⟨world, begun, output, left, deducted, sent, reached, stages, succeeded, fewer, error_of_map refused,
    error_of_map aborted⟩

theorem run_callotherpay_exact_paired : ∃ world done,
    run Ledger.marketHost Ledger.paired (World.start fun _ _ => 0) = .ok world ∧
    Ledger.otherCalled 5 world = .ok done ∧
    done.funds.valueOf Ledger.bob + 5000000000000000 = world.contract.funds.valueOf Ledger.bob ∧
    done.funds.evmValue = world.contract.funds.evmValue + 5000000000000000 := by
  obtain ⟨world, reached, seen⟩ := exists_of_view (run Ledger.marketHost Ledger.paired (World.start fun _ _ => 0))
    (fun world => (Ledger.otherCalled 5 world).isOk) true (by decide +kernel)
  obtain ⟨done, called⟩ := exists_of_isOk seen
  obtain ⟨charges, _⟩ := run_callotherpay_exact Ledger.marketHost Ledger.market_meters Ledger.market_signs
    Ledger.market_refunds _ _ world reached Ledger.view none [Ledger.alice, Ledger.bob] Ledger.alice Ledger.bob
    (Abi.digits 20 (5 : Address).toNat) (Abi.digits 32 5000000000000000) [] 100000 (by decide) (by decide)
    (by decide)
  obtain ⟨call, after, sent, input, output, _, _, executed, _, bridged, worth, _, goes, _, exact⟩ := charges done called
  obtain ⟨_, _, _, _, ran, _⟩ := executeTx_ok executed
  have value : input.tx.value = 5000000000000000 := by
    have loaded : loadValue (Abi.digits 32 5000000000000000) = .ok 5000000000000000 := by decide +kernel
    exact Except.ok.inj (worth.symm.trans loaded)
  have recipient : (if Abi.digits 20 (5 : Address).toNat = [] then none
      else some (Ledger.market.toEvmcAddress (Abi.digits 20 (5 : Address).toNat))) = some 5 := by
    decide +kernel
  obtain ⟨_, spent, _, entered, _⟩ := exact (Ledger.onlyGas_of_ordinary bridged (goes.trans recipient) (by decide) ran)
  rw [value] at spent entered
  exact ⟨world, done, reached, called, spent, entered⟩

end EosEvm

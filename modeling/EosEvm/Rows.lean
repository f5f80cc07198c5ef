import EosEvm.Delivery
import EosEvm.Egress
import Mathlib.Algebra.Group.Pi.Basic

/-! What a transaction does to each open balance: the amounts it gives and the amounts it
takes, stage by stage. -/

namespace EosEvm

open Abort Words

namespace Funds

/-- Each open balance is given and taken an amount; the statistics stay. -/
structure Shifts (symbol : Symbol) (funds : Funds) (given taken : Name → Nat) (after : Funds) : Prop where
  loose : after.Loose symbol
  opened : ∀ owner, (after.balances.get? owner).isSome = (funds.balances.get? owner).isSome
  values : ∀ owner, after.valueOf owner + taken owner = funds.valueOf owner + given owner
  statistics : after.statistics = funds.statistics

variable {symbol : Symbol} {funds middle after : Funds} {given taken givenLater takenLater : Name → Nat} {owner : Name}
  {amount : Nat} {missing : String}

theorem Shifts.refl (loose : funds.Loose symbol) : Shifts symbol funds 0 0 funds :=
  ⟨loose, fun _ => rfl, fun _ => rfl, rfl⟩

theorem Shifts.trans (first : Shifts symbol funds given taken middle)
    (second : Shifts symbol middle givenLater takenLater after) :
    Shifts symbol funds (given + givenLater) (taken + takenLater) after := by
  refine ⟨second.loose, fun owner => (second.opened owner).trans (first.opened owner), fun owner => ?_,
    second.statistics.trans first.statistics⟩
  have early := first.values owner
  have late := second.values owner
  simp only [Pi.add_apply]
  omega

theorem Loose.credit_shifts (loose : funds.Loose symbol) (credited : funds.credit owner amount missing = .ok after) :
    Shifts symbol funds (Pi.single owner amount) 0 after := by
  have move : Move symbol funds after := .credit _ _ _ _ credited
  obtain ⟨_, values, _, _, _, statistics⟩ := loose.credit_values credited
  refine ⟨loose.move move, move.opened.1, fun other => ?_, statistics⟩
  rw [values other, Pi.single_apply]
  simp only [Pi.zero_apply, Nat.add_zero, eq_comm]

theorem Loose.debit_shifts (loose : funds.Loose symbol) (debited : funds.debit owner amount missing = .ok after) :
    Shifts symbol funds 0 (Pi.single owner amount) after := by
  have move : Move symbol funds after := .debit _ _ _ _ debited
  obtain ⟨values, _, _, statistics⟩ := loose.debit_values debited
  refine ⟨loose.move move, move.opened.1, fun other => ?_, statistics⟩
  rw [← values other, Pi.single_apply]
  simp only [Pi.zero_apply, Nat.add_zero, eq_comm]

theorem Shifts.of_inevm {row : Option BalanceWithDust} (loose : ({ funds with inevm := row } : Funds).Loose symbol) :
    Shifts symbol funds 0 0 { funds with inevm := row } :=
  ⟨loose, fun _ => rfl, fun _ => rfl, rfl⟩

theorem Loose.enterEvm_shifts (loose : funds.Loose symbol) (entered : funds.enterEvm amount = .ok after) :
    Shifts symbol funds 0 0 after := by
  have kept := loose.move (.enters _ _ entered)
  obtain ⟨_, _, _, _, rfl⟩ := enterEvm_ok.mp entered
  exact .of_inevm kept

theorem Loose.leaveTotal_shifts (loose : funds.Loose symbol) {total : Nat} (left : leaveTotal total funds = .ok after) :
    Shifts symbol funds 0 0 after := by
  unfold leaveTotal at left
  split at left
  · cases left
    exact .refl loose
  · have kept := loose.move (.leaves _ _ left)
    obtain ⟨_, _, _, _, rfl⟩ := leaveEvm_ok.mp left
    exact .of_inevm kept

end Funds

variable {symbol : Symbol} {funds after : Funds} {env : Env}

def charges (rc : RuntimeConfig) (tx : Transaction) (ingressAccount : Name) (valueWithMaxGas : Nat) : Name → Nat :=
  match rc.gasPayer with
  | some payer => Pi.single payer (maxGasCost tx) + Pi.single ingressAccount tx.value
  | none => Pi.single ingressAccount valueWithMaxGas

theorem debitPayers_shifts (loose : funds.Loose symbol) {rc : RuntimeConfig} {tx : Transaction} {account : Name}
    {valueWithMaxGas : Nat} (debited : debitPayers rc tx account valueWithMaxGas funds = .ok after) :
    Funds.Shifts symbol funds 0 (charges rc tx account valueWithMaxGas) after := by
  unfold debitPayers at debited
  unfold charges
  cases found : rc.gasPayer with
  | none =>
      simp only [found] at debited
      exact loose.debit_shifts debited
  | some payer =>
      simp only [found, bind_ok] at debited
      obtain ⟨paid, gas, rest⟩ := debited
      have first := loose.debit_shifts gas
      split at rest
      · simpa using first.trans (first.loose.debit_shifts rest)
      · rename_i nothing
        cases rest
        have zero : tx.value = 0 := by omega
        simpa [zero] using first

theorem chargeSender_shifts (loose : funds.Loose symbol) {rc : RuntimeConfig} {tx : Transaction} {account : Name}
    {given : Nat} (charged : chargeSender rc tx account funds = .ok (after, given)) :
    maxGasCost tx + tx.value < max256 ∧ given = u256 (tx.value + maxGasCost tx) ∧
      Funds.Shifts symbol funds 0 (charges rc tx account given) after := by
  simp only [chargeSender, bind_ok, check_ok, exists_const, pure_ok, Prod.mk.injEq] at charged
  obtain ⟨fits, debited, debits, entered, enters, rfl, rfl⟩ := charged
  have first := debitPayers_shifts loose debits
  exact ⟨fits, rfl, by simpa using first.trans (first.loose.enterEvm_shifts enters)⟩

theorem prepareSender_shifts (loose : funds.Loose symbol) {rc : RuntimeConfig} {tx : Transaction} {sender : Address}
    {fromSelf : Bool} {funded : Option (Nat × Nat)}
    (prepared : prepareSender env rc tx sender funds = .ok (after, fromSelf, funded)) :
    funded = none ∧ Funds.Shifts symbol funds 0 0 after ∨
      ∃ account, sender = makeReservedAddress account ∧ tx.isSpecialSignature = true ∧
        maxGasCost tx + tx.value < max256 ∧ funded = some (u256 (tx.value + maxGasCost tx), tx.nonce) ∧
        Funds.Shifts symbol funds 0 (charges rc tx account (u256 (tx.value + maxGasCost tx))) after := by
  simp only [prepareSender] at prepared
  split at prepared
  · rename_i special
    simp only [bind_ok, check_ok, exists_const] at prepared
    obtain ⟨_, prepared⟩ := prepared
    split at prepared
    · simp only [pure_ok, Prod.mk.injEq] at prepared
      obtain ⟨rfl, rfl, rfl⟩ := prepared
      exact Or.inl ⟨rfl, .refl loose⟩
    · rename_i account reserved
      simp only [bind_ok, pure_ok, Prod.mk.injEq] at prepared
      obtain ⟨⟨charged, given⟩, charges, rfl, rfl, rfl⟩ := prepared
      obtain ⟨fits, rfl, shifts⟩ := chargeSender_shifts loose charges
      exact Or.inr ⟨account, (extractReservedAddress_eq_some _ _).mp reserved, special, fits, rfl, shifts⟩
  · simp only [Except.ok.injEq, Prod.mk.injEq] at prepared
    obtain ⟨rfl, rfl, rfl⟩ := prepared
    exact Or.inl ⟨rfl, .refl loose⟩

/-- What the reserved address of an account is left with. -/
def received (objects : List (Name × Account)) (owner : Name) : Nat :=
  ((objects.filter fun object => decide (object.1 = owner)).map fun object => object.2.balance).sum

def receivedOpen (funds : Funds) (objects : List (Name × Account)) (owner : Name) : Nat :=
  if (funds.balances.get? owner).isSome then received objects owner else 0

theorem receivedOpen_congr {other : Funds}
    (same : ∀ owner, (other.balances.get? owner).isSome = (funds.balances.get? owner).isSome)
    (objects : List (Name × Account)) : receivedOpen other objects = receivedOpen funds objects := by
  funext owner
  unfold receivedOpen
  rw [same owner]

theorem received_append_one (done : List (Name × Account)) (object : Name × Account) :
    received (done ++ [object]) = received done + Pi.single object.1 object.2.balance := by
  funext owner
  simp only [received, List.filter_append, List.map_append, List.sum_append, Pi.add_apply]
  by_cases same : object.1 = owner
  · subst same
    simp
  · simp [same, Ne.symm same]

theorem receivedOpen_append_one (funds : Funds) (done : List (Name × Account)) (object : Name × Account) :
    receivedOpen funds (done ++ [object]) = receivedOpen funds done +
      if (funds.balances.get? object.1).isSome then Pi.single object.1 object.2.balance else 0 := by
  funext owner
  simp only [receivedOpen, received_append_one, Pi.add_apply]
  by_cases same : owner = object.1
  · subst same
    split <;> simp
  · split <;> split <;> simp [same]

def deduction (self : Name) (portion : Option Nat) (deducted : Bool) : Name → Nat :=
  if deducted then Pi.single self (portion.getD 0) else 0

section Loop

variable {egresslist : Table Name Unit} {unit : Nat} {portion : Option Nat} {messages : List FilteredMessage}
  {start : Funds} {done : List (Name × Account)} {egress reached : Egress} {object : Name × Account}

def Egress.Credited (symbol : Symbol) (self : Name) (portion : Option Nat) (start : Funds) (done : List (Name × Account))
    (egress : Egress) : Prop :=
  Funds.Shifts symbol start (receivedOpen start done) (deduction self portion egress.deductedMinerCut) egress.funds

theorem Egress.Credited.step (credited : egress.Credited symbol env.self portion start done)
    (stepped : egressObject env egresslist unit portion messages egress object = .ok reached) :
    reached.Credited symbol env.self portion start (done ++ [object]) := by
  unfold Egress.Credited
  rw [receivedOpen_append_one, ← credited.opened]
  simp only [egressObject, bind_ok, check_ok, exists_const] at stepped
  obtain ⟨_, _, stepped⟩ := stepped
  split at stepped
  · rename_i zero
    cases stepped
    have same : (if (egress.funds.balances.get? object.1).isSome then Pi.single object.1 object.2.balance else 0) =
        (0 : Name → Nat) := by
      rw [zero, Pi.single_zero, ite_self]
    rw [same, add_zero]
    exact credited
  · split at stepped
    · rename_i isOpen
      rw [if_pos isOpen]
      simp only [creditReserved, bind_ok] at stepped
      obtain ⟨received, credit, rest⟩ := stepped
      have first := credited.trans (credited.loose.credit_shifts credit)
      rw [add_zero] at first
      split at rest
      · split at rest
        · rename_i share isSelf
          simp only [bind_ok, check_ok, exists_const, pure_ok] at rest
          obtain ⟨fresh, debited, debit, rfl⟩ := rest
          have second := first.trans (first.loose.debit_shifts debit)
          rw [add_zero, deduction, fresh, if_neg Bool.false_ne_true, zero_add] at second
          rw [deduction, if_pos rfl, ← isSelf]
          exact second
        · rw [pure_ok] at rest
          exact rest ▸ first
      · rw [pure_ok] at rest
        exact rest ▸ first
    · rename_i isClosed
      rw [if_neg isClosed, add_zero]
      simp only [sendReserved, bind_ok, check_ok, exists_const, pure_ok] at stepped
      obtain ⟨_, _, _, _, _, _, rfl⟩ := stepped
      exact credited

theorem Egress.Credited.fold {objects : List (Name × Account)}
    (credited : egress.Credited symbol env.self portion start done)
    (folded : foldOutcome (egressObject env egresslist unit portion messages) objects egress = .ok reached) :
    reached.Credited symbol env.self portion start (done ++ objects) := by
  induction objects generalizing done egress with
  | nil =>
      rw [foldOutcome_nil] at folded
      rw [List.append_nil]
      exact folded ▸ credited
  | cons object objects ih =>
      obtain ⟨next, stepped, rest⟩ := (foldOutcome_cons _ _ _ _ _).mp folded
      rw [show done ++ object :: objects = (done ++ [object]) ++ objects by simp]
      exact ih (credited.step stepped) rest

theorem Egress.Credited.begin (loose : start.Loose symbol) (self : Name) (portion : Option Nat)
    (messages : List FilteredMessage) :
    ({ funds := start, needSend := messages.map fun _ => false } : Egress).Credited symbol self portion start [] := by
  have nothing : receivedOpen start [] = 0 := by
    funext owner
    simp [receivedOpen, received]
  unfold Egress.Credited
  rw [nothing]
  exact .refl loose

end Loop

variable {egresslist : Table Name Unit} {config : ConfigWrapper} {portion : Option Nat} {output : RunOutput}
  {deducted : Bool} {sent : List Inline} {header : BlockHeader} {tx : Transaction} {sender : Address}

theorem egressFunds_shifts (loose : funds.Loose symbol)
    (egressed : egressFunds env config egresslist portion output funds = .ok (after, deducted, sent)) :
    Funds.Shifts symbol funds (receivedOpen funds output.reservedObjects) (deduction env.self portion deducted)
      after := by
  have begun := Egress.Credited.begin loose env.self portion output.filteredMessages
  simp only [egressFunds] at egressed
  split at egressed
  · rename_i none
    cases egressed
    rw [none]
    exact begun
  · simp only [bind_ok, pure_ok, Prod.mk.injEq] at egressed
    obtain ⟨unit, _, egress, folded, _, _, left, leaves, rfl, rfl, _⟩ := egressed
    have looped : egress.Credited symbol env.self portion funds output.reservedObjects := begun.fold folded
    have whole := looped.trans (looped.loose.leaveTotal_shifts leaves)
    rw [add_zero, add_zero] at whole
    exact whole

theorem payMiner_shifts (loose : funds.Loose symbol) {miner : Name}
    (paid : payMiner miner portion deducted funds = .ok after) :
    (portion.getD 0 = 0 ∨ deducted = true) ∧
      Funds.Shifts symbol funds (Pi.single miner (portion.getD 0)) 0 after := by
  simp only [payMiner] at paid
  split at paid
  · rename_i zero
    cases paid
    refine ⟨Or.inl zero, ?_⟩
    rw [zero, Pi.single_zero]
    exact .refl loose
  · simp only [bind_ok, check_ok, exists_const] at paid
    exact ⟨Or.inr paid.1, loose.credit_shifts paid.2⟩

def unusedGas (tx : Transaction) (baseFee : Nat) (output : RunOutput) : Nat :=
  maxGasCost tx - u256 (output.cumulativeGasUsed * u256 (tx.priorityFeePerGas baseFee + baseFee))

theorem refundGas_shifts (loose : funds.Loose symbol) {payer : Name}
    (refunded : refundGas header tx sender (some payer) output funds = .ok after) :
    ∃ baseFee account, header.baseFeePerGas = some baseFee ∧ sender = makeReservedAddress account ∧
      0 < unusedGas tx baseFee output ∧
      Funds.Shifts symbol funds (Pi.single payer (unusedGas tx baseFee output))
        (Pi.single account (unusedGas tx baseFee output)) after := by
  simp only [refundGas, bind_ok, check_ok, require_ok, exists_const] at refunded
  obtain ⟨baseFee, found, ⟨_, _, less⟩, account, reserved, taken, debit, credit⟩ := refunded
  have first := loose.debit_shifts debit
  have whole := first.trans (first.loose.credit_shifts credit)
  rw [zero_add, add_zero] at whole
  exact ⟨baseFee, account, found, (extractReservedAddress_eq_some _ _).mp reserved, by unfold unusedGas; omega, whole⟩

theorem settleTx_shifts (loose : funds.Loose symbol) {context : TxContext} {fromSelf : Bool}
    (settled : settleTx env context fromSelf sender output funds = .ok (after, sent)) :
    ∃ portion paid refunded, minerShare env context output = .ok portion ∧
      Funds.Shifts symbol funds
        (receivedOpen funds output.reservedObjects + Pi.single context.miner (portion.getD 0))
        (Pi.single env.self (portion.getD 0)) paid ∧
      refundGas context.header context.tx sender context.rc.gasPayer output paid = .ok refunded ∧
      recordGasFee context.config env.now context.header context.tx portion fromSelf output refunded = .ok after := by
  simp only [settleTx, bind_ok, check_ok, exists_const, pure_ok, Prod.mk.injEq] at settled
  obtain ⟨portion, shared, _, ⟨left, deducted, actions⟩, egressed, paid, pays, refunded, refunds, recorded, records,
    rfl, rfl⟩ := settled
  have first := egressFunds_shifts loose egressed
  obtain ⟨cut, second⟩ := payMiner_shifts first.loose pays
  have whole := first.trans second
  have taken : deduction env.self portion deducted = Pi.single env.self (portion.getD 0) := by
    unfold deduction
    rcases cut with zero | isDeducted
    · rw [zero, Pi.single_zero, ite_self]
    · rw [if_pos isDeducted]
  rw [taken, add_zero] at whole
  exact ⟨portion, paid, refunded, shared, whole, refunds, records⟩

theorem recordGasFee_valueOf {now : Nat} {fromSelf : Bool}
    (recorded : recordGasFee config now header tx portion fromSelf output funds = .ok after) (owner : Name) :
    after.valueOf owner = funds.valueOf owner := by
  obtain ⟨statistics, rfl⟩ := recordGasFee_spec recorded
  rfl

end EosEvm

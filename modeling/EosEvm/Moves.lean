import EosEvm.Execute
import Mathlib.Logic.Relation

/-! A transaction changes the funds by single movements only. What no movement changes, no
transaction changes, whatever the EVM does and in whatever symbol the balances are. -/

namespace EosEvm

open Abort

namespace Funds

/-- One movement, when the configured token has the symbol. -/
inductive Move (symbol : Symbol) (funds : Funds) : Funds → Prop
  | credit (owner : Name) (amount : Nat) (missing : String) (after : Funds)
      (credited : funds.credit owner amount missing = .ok after) : Move symbol funds after
  | debit (owner : Name) (amount : Nat) (missing : String) (after : Funds)
      (debited : funds.debit owner amount missing = .ok after) : Move symbol funds after
  | enters (amount : Nat) (after : Funds) (entered : funds.enterEvm amount = .ok after) : Move symbol funds after
  | leaves (amount : Nat) (after : Funds) (left : funds.leaveEvm amount = .ok after) : Move symbol funds after
  | records (config : ConfigWrapper) (statistics : Statistics) (income : Nat) (gasFeeIncome : BalanceWithDust)
      (configured : config.getTokenSymbol = symbol) (found : funds.getStatistics config = .ok statistics)
      (added : statistics.gasFeeIncome.add income = .ok gasFeeIncome) :
      Move symbol funds { funds with statistics := some { statistics with gasFeeIncome := gasFeeIncome } }

abbrev Moves (symbol : Symbol) : Funds → Funds → Prop := Relation.ReflTransGen (Move symbol)

variable {symbol : Symbol} {funds middle after : Funds}

theorem Moves.one (move : Move symbol funds after) : Moves symbol funds after := Relation.ReflTransGen.single move

theorem Move.opened (move : Move symbol funds after) :
    (∀ owner, (after.balances.get? owner).isSome = (funds.balances.get? owner).isSome) ∧
      after.inevm.isSome = funds.inevm.isSome := by
  cases move with
  | credit owner amount missing after credited =>
      obtain ⟨row, found, changed, _, rfl⟩ := Funds.credit_ok.mp credited
      exact ⟨Table.isSome_put_present changed found, rfl⟩
  | debit owner amount missing after debited =>
      obtain ⟨row, found, changed, _, rfl⟩ := Funds.debit_ok.mp debited
      exact ⟨Table.isSome_put_present changed found, rfl⟩
  | enters amount after entered =>
      obtain ⟨row, found, changed, _, rfl⟩ := enterEvm_ok.mp entered
      exact ⟨fun _ => rfl, by rw [found]; rfl⟩
  | leaves amount after left =>
      obtain ⟨row, found, changed, _, rfl⟩ := leaveEvm_ok.mp left
      exact ⟨fun _ => rfl, by rw [found]; rfl⟩
  | records => exact ⟨fun _ => rfl, rfl⟩

theorem Moves.opened (moves : Moves symbol funds after) :
    (∀ owner, (after.balances.get? owner).isSome = (funds.balances.get? owner).isSome) ∧
      after.inevm.isSome = funds.inevm.isSome := by
  induction moves with
  | refl => exact ⟨fun _ => rfl, rfl⟩
  | tail _ move ih => exact ⟨fun owner => (move.opened.1 owner).trans (ih.1 owner), move.opened.2.trans ih.2⟩

end Funds

variable {symbol : Symbol} {funds after : Funds}

theorem chargeSender_moves {rc : RuntimeConfig} {tx : Transaction} {account : Name} {amount : Nat}
    (charged : chargeSender rc tx account funds = .ok (after, amount)) : Funds.Moves symbol funds after := by
  simp only [chargeSender, bind_ok, check_ok, exists_const, pure_ok, Prod.mk.injEq] at charged
  obtain ⟨_, debited, taken, entered, enters, rfl, _⟩ := charged
  have paid : Funds.Moves symbol funds debited := by
    simp only [debitPayers] at taken
    split at taken
    · simp only [bind_ok] at taken
      obtain ⟨gas, first, rest⟩ := taken
      have payer : Funds.Moves symbol funds gas := .one (.debit _ _ _ gas first)
      split at rest
      · exact payer.tail (.debit _ _ _ _ rest)
      · rw [pure_ok] at rest
        exact rest ▸ payer
    · exact .one (.debit _ _ _ _ taken)
  exact paid.tail (.enters _ _ enters)

theorem prepareSender_moves {env : Env} {rc : RuntimeConfig} {tx : Transaction} {sender : Address}
    {fromSelf : Bool} {funded : Option (Nat × Nat)}
    (prepared : prepareSender env rc tx sender funds = .ok (after, fromSelf, funded)) : Funds.Moves symbol funds after := by
  simp only [prepareSender] at prepared
  split at prepared
  · simp only [bind_ok, check_ok, exists_const] at prepared
    obtain ⟨_, prepared⟩ := prepared
    split at prepared
    · cases prepared
      exact .refl
    · simp only [bind_ok, pure_ok, Prod.mk.injEq] at prepared
      obtain ⟨⟨charged, amount⟩, charges, rfl, _⟩ := prepared
      exact chargeSender_moves charges
  · cases prepared
    exact .refl

theorem egressObject_moves {env : Env} {egresslist : Table Name Unit} {unit : Nat} {portion : Option Nat}
    {messages : List FilteredMessage} {egress reached : Egress} {object : Name × Account}
    (stepped : egressObject env egresslist unit portion messages egress object = .ok reached) :
    Funds.Moves symbol egress.funds reached.funds := by
  simp only [egressObject, bind_ok, check_ok, exists_const] at stepped
  obtain ⟨_, _, stepped⟩ := stepped
  split at stepped
  · rw [pure_ok] at stepped
    exact stepped ▸ .refl
  · split at stepped
    · simp only [creditReserved, bind_ok] at stepped
      obtain ⟨credited, credits, rest⟩ := stepped
      have first : Funds.Moves symbol egress.funds credited := .one (.credit _ _ _ credited credits)
      split at rest
      · split at rest
        · simp only [bind_ok, check_ok, exists_const, pure_ok] at rest
          obtain ⟨_, deducted, deducts, rfl⟩ := rest
          exact first.tail (.debit _ _ _ deducted deducts)
        · rw [pure_ok] at rest
          exact rest ▸ first
      · rw [pure_ok] at rest
        exact rest ▸ first
    · simp only [sendReserved, bind_ok, check_ok, exists_const, pure_ok] at stepped
      obtain ⟨_, _, _, _, _, _, rfl⟩ := stepped
      exact .refl

theorem egressFunds_moves {env : Env} {config : ConfigWrapper} {egresslist : Table Name Unit}
    {portion : Option Nat} {output : RunOutput} {deducted : Bool} {sent : List Inline}
    (egressed : egressFunds env config egresslist portion output funds = .ok (after, deducted, sent)) :
    Funds.Moves symbol funds after := by
  simp only [egressFunds] at egressed
  split at egressed
  · cases egressed
    exact .refl
  · simp only [bind_ok, pure_ok, Prod.mk.injEq] at egressed
    obtain ⟨unit, _, egress, folded, _, _, left, leaves, rfl, _⟩ := egressed
    have looped : Funds.Moves symbol funds egress.funds :=
      foldOutcome_invariant (egressObject env egresslist unit portion output.filteredMessages)
        (fun reached => Funds.Moves symbol funds reached.funds) _ _ _
        (fun _ _ _ _ held stepped => held.trans (egressObject_moves stepped)) .refl folded
    simp only [leaveTotal] at leaves
    split at leaves
    · cases leaves
      exact looped
    · exact looped.tail (.leaves _ _ leaves)

theorem payMiner_moves {miner : Name} {portion : Option Nat} {deducted : Bool}
    (paid : payMiner miner portion deducted funds = .ok after) : Funds.Moves symbol funds after := by
  simp only [payMiner] at paid
  split at paid
  · cases paid
    exact .refl
  · simp only [bind_ok, check_ok, exists_const] at paid
    exact .one (.credit _ _ _ _ paid.2)

theorem refundGas_moves {header : BlockHeader} {tx : Transaction} {sender : Address} {gasPayer : Option Name}
    {output : RunOutput} (refunded : refundGas header tx sender gasPayer output funds = .ok after) :
    Funds.Moves symbol funds after := by
  simp only [refundGas] at refunded
  split at refunded
  · cases refunded
    exact .refl
  · simp only [bind_ok, check_ok, exists_const] at refunded
    obtain ⟨_, _, _, _, _, taken, takes, credited⟩ := refunded
    exact (Funds.Moves.one (.debit _ _ _ taken takes)).tail (.credit _ _ _ _ credited)

theorem recordGasFee_moves {config : ConfigWrapper} {now : Nat} {header : BlockHeader} {tx : Transaction}
    {portion : Option Nat} {fromSelf : Bool} {output : RunOutput}
    (recorded : recordGasFee config now header tx portion fromSelf output funds = .ok after) :
    Funds.Moves config.getTokenSymbol funds after := by
  simp only [recordGasFee] at recorded
  split at recorded
  · cases recorded
    exact .refl
  · simp only [bind_ok, pure_ok] at recorded
    obtain ⟨statistics, found, income, _, gasFeeIncome, added, rfl⟩ := recorded
    exact .one (.records config statistics income gasFeeIncome rfl found added)

theorem executeTx_moves {env : Env} {context : TxContext} {sent : List Inline} {input : RunInput}
    {output : RunOutput} (executed : executeTx env context funds = .ok (after, sent, input, output)) :
    Funds.Moves context.config.getTokenSymbol funds after := by
  obtain ⟨charged, fromSelf, begun, _, _, settled⟩ := executeTx_ok executed
  obtain ⟨sender, funded, _, prepared, _⟩ := beginTx_ok begun
  simp only [settleTx, bind_ok, check_ok, exists_const, pure_ok, Prod.mk.injEq] at settled
  obtain ⟨_, _, _, ⟨left, deducted, actions⟩, egressed, paid, pays, refunded, refunds, recorded, records, rfl, _⟩ :=
    settled
  exact ((((prepareSender_moves prepared).trans (egressFunds_moves egressed)).trans (payMiner_moves pays)).trans
    (refundGas_moves refunds)).trans (recordGasFee_moves records)

theorem processFilteredMessages_moves {env : Env} {config : ConfigWrapper} {receivers : Table Name MessageReceiver}
    {messages : List FilteredMessage} {sent : List Inline}
    (processed : processFilteredMessages env config receivers messages funds = .ok (after, sent)) :
    Funds.Moves symbol funds after := by
  simp only [processFilteredMessages, bind_ok, pure_ok, Prod.mk.injEq] at processed
  obtain ⟨delivered, folded, settled, debited, rfl, _⟩ := processed
  have looped : Funds.Moves symbol funds delivered.1 := by
    refine foldOutcome_invariant (deliverMessage env config receivers)
      (fun reached => Funds.Moves symbol funds reached.1) _ _ _ ?_ .refl folded
    intro current message next _ held stepped
    simp only [deliverMessage, bind_ok, require_ok, check_ok, exists_const, pure_ok] at stepped
    obtain ⟨_, _, _, _, _, _, _, _, _, _, _, _, _, credited, credits, rfl⟩ := stepped
    exact held.tail (.credit _ _ _ credited credits)
  simp only [debitDelivered] at debited
  split at debited
  · exact looped.tail (.debit _ _ _ _ debited)
  · cases debited
    exact looped

end EosEvm

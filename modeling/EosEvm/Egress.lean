import EosEvm.Calls
import EosEvm.LedgerCore

/-! What leaves the EVM. The loop over the reserved objects marks messages and the loop over
the messages sends them; together they send on to each account without an open balance
exactly what its reserved address received. -/

namespace EosEvm

open Abort Words

def goesTo (account : Name) (message : FilteredMessage) : Bool := message.receiver == makeReservedAddress account

/-- The account may receive tokens, and its messages, at most five and without dust, carry the
balance of its reserved address. -/
structure Forwards (env : Env) (egresslist : Table Name Unit) (unit : Nat) (messages : List FilteredMessage)
    (account : Name) (balance : Nat) : Prop where
  foreign : account ≠ env.self
  present : env.isAccount account = true
  allowed : env.hasCode account = false ∨ (egresslist.get? account).isSome = true
  few : (messages.filter (goesTo account)).length ≤ 5
  whole : ∀ message ∈ messages, goesTo account message = true → message.value % unit = 0
  total : selectedValue (goesTo account) messages = balance

theorem markTransfers_few (unit : Nat) (account : Name) (messages : List FilteredMessage) (marks after : List Bool)
    (count balance left : Nat) (sized : marks.length = messages.length) (few : count ≤ 5)
    (marked : markTransfers unit (makeReservedAddress account) messages marks count balance = .ok (left, after)) :
    count + (messages.filter (goesTo account)).length ≤ 5 := by
  induction messages generalizing marks after count balance left with
  | nil => exact few
  | cons message messages ih =>
      cases marks with
      | nil => cases sized
      | cons mark marks =>
          have shorter : marks.length = messages.length := Nat.succ.inj sized
          simp only [markTransfers] at marked
          split at marked
          · rename_i here
            simp only [bind_ok, check_ok, exists_const, pure_ok, Prod.mk.injEq] at marked
            obtain ⟨fewer, _, _, ⟨rest, restMarks⟩, markedRest, _⟩ := marked
            have counted := ih marks restMarks (count + 1) _ rest shorter fewer markedRest
            rw [List.filter_cons_of_pos (by simp [goesTo, here]), List.length_cons]
            omega
          · rename_i elsewhere
            simp only [bind_ok, pure_ok, Prod.mk.injEq] at marked
            obtain ⟨⟨rest, restMarks⟩, markedRest, _⟩ := marked
            rw [List.filter_cons_of_neg (by simp [goesTo, elsewhere])]
            exact ih marks restMarks count _ rest shorter few markedRest

/-- The state of the loop over the reserved objects after some of them. -/
structure Egressing (env : Env) (egresslist : Table Name Unit) (unit : Nat) (messages : List FilteredMessage)
    (start : Funds) (done : List (Name × Account)) (egress : Egress) : Prop where
  opened : ∀ owner, (egress.funds.balances.get? owner).isSome = (start.balances.get? owner).isSome
  inevm : egress.funds.inevm = start.inevm
  total : egress.totalEgress = u256 (reservedTotal done)
  marks : egress.needSend = messages.map (sendsTo (nonOpen start done))
  forwards : ∀ object ∈ done, object.2.balance ≠ 0 → start.balances.get? object.1 = none →
    Forwards env egresslist unit messages object.1 object.2.balance

section Loop

variable {env : Env} {egresslist : Table Name Unit} {unit : Nat} {portion : Option Nat} {messages : List FilteredMessage}
  {start : Funds} {done : List (Name × Account)} {egress reached : Egress} {object : Name × Account}

theorem creditReserved_keeps {account : Name} {amount : Nat}
    (credited : creditReserved env portion account amount egress = .ok reached) :
    reached.funds.inevm = egress.funds.inevm ∧ reached.needSend = egress.needSend ∧
      reached.totalEgress = egress.totalEgress := by
  simp only [creditReserved, Funds.credit_ok, bind_ok] at credited
  obtain ⟨_, ⟨_, _, _, _, rfl⟩, credited⟩ := credited
  split at credited
  · split at credited
    · simp only [Funds.debit_ok, bind_ok, pure_ok] at credited
      obtain ⟨_, _, _, ⟨_, _, _, _, rfl⟩, rfl⟩ := credited
      exact ⟨rfl, rfl, rfl⟩
    · cases credited
      exact ⟨rfl, rfl, rfl⟩
  · cases credited
    exact ⟨rfl, rfl, rfl⟩

theorem Egressing.step (inv : Egressing env egresslist unit messages start done egress)
    (stepped : egressObject env egresslist unit portion messages egress object = .ok reached) :
    Egressing env egresslist unit messages start (done ++ [object]) reached := by
  have moves : Funds.Moves Symbol.none egress.funds reached.funds := egressObject_moves stepped
  have opened : ∀ owner, (reached.funds.balances.get? owner).isSome = (start.balances.get? owner).isSome :=
    fun owner => (moves.opened.1 owner).trans (inv.opened owner)
  have later : ∀ other ∈ done ++ [object], other.2.balance ≠ 0 → start.balances.get? other.1 = none →
      (object.2.balance ≠ 0 → start.balances.get? object.1 = none →
        Forwards env egresslist unit messages object.1 object.2.balance) →
      Forwards env egresslist unit messages other.1 other.2.balance := by
    intro other member nonzero closed here
    rcases List.mem_append.mp member with before | last
    · exact inv.forwards other before nonzero closed
    · cases List.mem_singleton.mp last
      exact here nonzero closed
  simp only [egressObject, bind_ok, check_ok, exists_const] at stepped
  obtain ⟨_, _, stepped⟩ := stepped
  split at stepped
  · rename_i zero
    cases stepped
    refine ⟨opened, inv.inevm, ?_, ?_, fun other member nonzero closed => later other member nonzero closed
      fun nonzero => absurd zero nonzero⟩
    · rw [reservedTotal_append_one, zero, Nat.add_zero]
      exact inv.total
    · rw [nonOpen_append_one, if_neg fun both => both.1 zero, List.append_nil]
      exact inv.marks
  · rename_i nonzero
    have total : u256 (egress.totalEgress + object.2.balance) = u256 (reservedTotal (done ++ [object])) := by
      rw [inv.total, u256_add_left, reservedTotal_append_one]
    split at stepped
    · rename_i isOpen
      rw [inv.opened] at isOpen
      have notClosed : start.balances.get? object.1 ≠ none := by
        intro closed
        rw [closed] at isOpen
        cases isOpen
      obtain ⟨inevm, marks, counted⟩ := creditReserved_keeps stepped
      refine ⟨opened, inevm.trans inv.inevm, counted.trans total, ?_, fun other member nonzero closed =>
        later other member nonzero closed fun _ closed => absurd closed notClosed⟩
      rw [nonOpen_append_one, if_neg fun both => notClosed both.2, List.append_nil]
      exact marks.trans inv.marks
    · rename_i isClosed
      rw [inv.opened] at isClosed
      have closed : start.balances.get? object.1 = none := by simpa using isClosed
      simp only [sendReserved, bind_ok, check_ok, exists_const, pure_ok] at stepped
      obtain ⟨foreign, present, allowed, ⟨left, marks⟩, marked, drained, rfl⟩ := stepped
      simp only at marked drained
      have few := markTransfers_few unit object.1 messages _ _ 0 _ _ (by simp [inv.marks]) (by decide) marked
      rw [inv.marks] at marked
      obtain ⟨rfl, carried, whole⟩ := markTransfers_spec _ _ _ _ _ _ _ _ marked
      refine ⟨opened, inv.inevm, total, ?_, fun other member nonzero closed =>
        later other member nonzero closed fun _ _ => ?_⟩
      · rw [nonOpen_append_one, if_pos ⟨nonzero, closed⟩]
        exact List.map_congr_left fun message _ => (sendsTo_append_one _ _ message).symm
      · refine ⟨foreign, present, allowed, by omega, fun message member here => ?_, ?_⟩
        · exact whole message member (by simpa [goesTo] using here)
        · rw [drained, Nat.zero_add] at carried
          exact carried

theorem Egressing.fold {objects : List (Name × Account)}
    (inv : Egressing env egresslist unit messages start done egress)
    (folded : foldOutcome (egressObject env egresslist unit portion messages) objects egress = .ok reached) :
    Egressing env egresslist unit messages start (done ++ objects) reached := by
  induction objects generalizing done egress with
  | nil =>
      rw [foldOutcome_nil] at folded
      rw [List.append_nil]
      exact folded ▸ inv
  | cons object objects ih =>
      obtain ⟨next, stepped, rest⟩ := (foldOutcome_cons _ _ _ _ _).mp folded
      rw [show done ++ object :: objects = (done ++ [object]) ++ objects by simp]
      exact ih (inv.step stepped) rest

theorem Egressing.begin (unit : Nat) (messages : List FilteredMessage) :
    Egressing env egresslist unit messages start [] { funds := start, needSend := messages.map fun _ => false } :=
  ⟨fun _ => rfl, rfl, rfl, rfl, fun _ member => by cases member⟩

end Loop

theorem leaveTotal_loose {symbol : Symbol} {funds after : Funds} {total : Nat}
    (loose : ∀ row, funds.inevm = some row → row.Loose ∧ (row.balance.symbol = symbol ∨ row.balance.symbol = Symbol.none))
    (left : leaveTotal total funds = .ok after) :
    after.evmValue + total = funds.evmValue ∧ (total ≠ 0 → total / symbol.unit < 2 ^ 62) := by
  unfold leaveTotal at left
  split at left
  · rename_i zero
    cases left
    exact ⟨by omega, fun nonzero => absurd zero nonzero⟩
  · obtain ⟨row, found, changed, taken, rfl⟩ := Funds.leaveEvm_ok.mp left
    obtain ⟨fits, named⟩ := loose row found
    obtain ⟨_, _, _, nonempty, covered, exactly⟩ := fits.sub_spec taken
    refine ⟨by simpa [Funds.evmValue, found] using exactly, fun _ => ?_⟩
    rw [named.resolve_right nonempty] at covered
    have bounded := fits.bounded
    unfold maxAmount at bounded
    omega

variable {env : Env} {config : ConfigWrapper} {egresslist : Table Name Unit} {portion : Option Nat} {output : RunOutput}
  {funds after : Funds} {deducted : Bool} {sent : List Inline}

theorem exists_of_sendsTo {objects : List (Name × Account)} {message : FilteredMessage}
    (selected : sendsTo (nonOpen funds objects) message = true) :
    ∃ object ∈ objects, object.2.balance ≠ 0 ∧ funds.balances.get? object.1 = none ∧ goesTo object.1 message = true := by
  simp only [sendsTo, nonOpen, List.any_eq_true, List.mem_map, List.mem_filter, Bool.and_eq_true, decide_eq_true_eq,
    Option.isNone_iff_eq_none] at selected
  obtain ⟨_, ⟨object, ⟨present, nonzero, closed⟩, rfl⟩, here⟩ := selected
  exact ⟨object, present, nonzero, closed, here⟩

theorem Egressing.message_le {unit : Nat} {messages : List FilteredMessage} {objects : List (Name × Account)}
    {egress : Egress} (inv : Egressing env egresslist unit messages funds objects egress) {message : FilteredMessage}
    (member : message ∈ messages) (selected : sendsTo (nonOpen funds objects) message = true) :
    message.value ≤ reservedTotal objects := by
  obtain ⟨object, present, nonzero, closed, here⟩ := exists_of_sendsTo selected
  have carried := (inv.forwards object present nonzero closed).total
  have part := le_selectedValue (goesTo object.1) messages message member here
  have whole : object.2.balance ≤ reservedTotal objects := List.le_sum_of_mem (List.mem_map_of_mem present)
  omega

theorem egressFunds_exact (loose : funds.Loose config.getTokenSymbol)
    (small : reservedTotal output.reservedObjects < 2 ^ 256)
    (egressed : egressFunds env config egresslist portion output funds = .ok (after, deducted, sent)) :
    sent = (output.filteredMessages.filter (sendsTo (nonOpen funds output.reservedObjects))).map
        (transferOf config config.getTokenSymbol.unit) ∧
      (∀ object ∈ output.reservedObjects, object.2.balance ≠ 0 → funds.balances.get? object.1 = none →
        Forwards env egresslist config.getTokenSymbol.unit output.filteredMessages object.1 object.2.balance) ∧
      after.evmValue + reservedTotal output.reservedObjects = funds.evmValue := by
  simp only [egressFunds] at egressed
  split at egressed
  · rename_i nothing
    simp only [Except.ok.injEq, Prod.mk.injEq] at egressed
    obtain ⟨rfl, rfl, rfl⟩ := egressed
    simp [nothing, reservedTotal, nonOpen, sendsTo]
  · simp only [bind_ok, pure_ok, Prod.mk.injEq] at egressed
    obtain ⟨unit, unitOk, egress, folded, actions, sends, left, leaves, rfl, rfl, rfl⟩ := egressed
    obtain ⟨_, rfl⟩ := BalanceWithDust.pow10Const_ok unitOk
    have inv := (Egressing.begin config.getTokenSymbol.unit output.filteredMessages).fold folded
    rw [List.nil_append] at inv
    obtain ⟨leaving, range⟩ := leaveTotal_loose (inv.inevm ▸ loose.inevm) leaves
    rw [inv.total, u256_of_lt small] at leaving range
    have bound : ∀ message ∈ output.filteredMessages, sendsTo (nonOpen funds output.reservedObjects) message = true →
        message.value / config.getTokenSymbol.unit < 2 ^ 62 := by
      intro message member selected
      have part := inv.message_le member selected
      by_cases zero : reservedTotal output.reservedObjects = 0
      · rw [show message.value = 0 by omega, Nat.zero_div]
        decide
      · exact lt_of_le_of_lt (Nat.div_le_div_right part) (range zero)
    rw [inv.marks] at sends
    obtain ⟨rfl, _⟩ := sendTransfers_spec bound sends
    refine ⟨rfl, inv.forwards, ?_⟩
    rw [leaving, Funds.evmValue, inv.inevm]
    rfl

theorem credit_inevm {owner : Name} {amount : Nat} {missing : String}
    (credited : funds.credit owner amount missing = .ok after) : after.inevm = funds.inevm := by
  obtain ⟨_, _, _, _, rfl⟩ := Funds.credit_ok.mp credited
  rfl

theorem debit_inevm {owner : Name} {amount : Nat} {missing : String}
    (debited : funds.debit owner amount missing = .ok after) : after.inevm = funds.inevm := by
  obtain ⟨_, _, _, _, rfl⟩ := Funds.debit_ok.mp debited
  rfl

theorem prepareSender_evmValue {symbol : Symbol} {rc : RuntimeConfig} {tx : Transaction} {sender : Address}
    {fromSelf : Bool} {funded : Option (Nat × Nat)} (loose : funds.Loose symbol)
    (prepared : prepareSender env rc tx sender funds = .ok (after, fromSelf, funded)) :
    after.evmValue = funds.evmValue + (funded.map Prod.fst).getD 0 := by
  simp only [prepareSender] at prepared
  split at prepared
  · simp only [bind_ok, check_ok, exists_const] at prepared
    obtain ⟨_, prepared⟩ := prepared
    split at prepared
    · simp only [pure_ok, Prod.mk.injEq] at prepared
      obtain ⟨rfl, rfl, rfl⟩ := prepared
      rfl
    · simp only [chargeSender, bind_ok, check_ok, exists_const, pure_ok, Prod.mk.injEq] at prepared
      obtain ⟨_, ⟨_, charged, debited, entered, enters, rfl⟩, rfl, rfl, rfl⟩ := prepared
      have same : charged.inevm = funds.inevm := by
        simp only [debitPayers] at debited
        split at debited
        · simp only [bind_ok] at debited
          obtain ⟨paid, gas, rest⟩ := debited
          split at rest
          · exact (debit_inevm rest).trans (debit_inevm gas)
          · cases rest
            exact debit_inevm gas
        · exact debit_inevm debited
      obtain ⟨row, found, changed, added, rfl⟩ := Funds.enterEvm_ok.mp enters
      rw [same] at found
      obtain ⟨_, _, _, grown⟩ := (loose.inevm row found).1.add_spec added
      simpa [Funds.evmValue, found] using grown
  · simp only [Except.ok.injEq, Prod.mk.injEq] at prepared
    obtain ⟨rfl, rfl, rfl⟩ := prepared
    rfl

theorem settleTx_egress {context : TxContext} {fromSelf : Bool} {sender : Address}
    (settled : settleTx env context fromSelf sender output funds = .ok (after, sent)) :
    ∃ portion left deducted,
      egressFunds env context.config context.egresslist portion output funds = .ok (left, deducted, sent) ∧
        after.evmValue = left.evmValue := by
  simp only [settleTx, bind_ok, check_ok, exists_const, pure_ok, Prod.mk.injEq] at settled
  obtain ⟨portion, _, _, ⟨left, deducted, actions⟩, egressed, paid, pays, refunded, refunds, recorded, records,
    rfl, rfl⟩ := settled
  have paidInevm : paid.inevm = left.inevm := by
    simp only [payMiner] at pays
    split at pays
    · cases pays
      rfl
    · simp only [bind_ok, check_ok, exists_const] at pays
      exact credit_inevm pays.2
  have refundedInevm : refunded.inevm = paid.inevm := by
    simp only [refundGas] at refunds
    split at refunds
    · cases refunds
      rfl
    · simp only [bind_ok, check_ok, require_ok, exists_const] at refunds
      obtain ⟨_, _, _, _, _, taken, debit, credit⟩ := refunds
      exact (credit_inevm credit).trans (debit_inevm debit)
  obtain ⟨statistics, rfl⟩ := recordGasFee_spec records
  refine ⟨portion, left, deducted, egressed, ?_⟩
  simp [Funds.evmValue, refundedInevm, paidInevm]

/-- Whether an action is a transfer to an account. -/
def Inline.pays (account : Name) : Inline → Bool
  | .transfer _ recipient _ _ => recipient == account
  | _ => false

theorem filter_pays_transferOf (config : ConfigWrapper) (unit : Nat) (accounts : List Name) (account : Name)
    (messages : List FilteredMessage) :
    ((messages.filter (sendsTo accounts)).map (transferOf config unit)).filter (Inline.pays account) =
      if account ∈ accounts then (messages.filter (goesTo account)).map (transferOf config unit) else [] := by
  have selects : ∀ message, ((Inline.pays account ∘ transferOf config unit) message && sendsTo accounts message) =
      (decide (account ∈ accounts) && goesTo account message) := by
    intro message
    rw [Bool.eq_iff_iff]
    simp only [Bool.and_eq_true, Function.comp_apply, transferOf, Inline.pays, sendsTo, goesTo, List.any_eq_true,
      beq_iff_eq, decide_eq_true_eq]
    constructor
    · rintro ⟨paid, other, member, here⟩
      rw [here, extractReservedAddress_makeReservedAddress, Option.getD_some] at paid
      exact ⟨paid ▸ member, paid ▸ here⟩
    · rintro ⟨member, here⟩
      exact ⟨by rw [here, extractReservedAddress_makeReservedAddress, Option.getD_some], account, member, here⟩
  rw [List.filter_map, List.filter_filter]
  simp only [selects]
  by_cases member : account ∈ accounts <;> simp [member]

theorem mem_nonOpen {objects : List (Name × Account)} {account : Name} :
    account ∈ nonOpen funds objects ↔
      ∃ object ∈ objects, object.1 = account ∧ object.2.balance ≠ 0 ∧ funds.balances.get? account = none := by
  simp only [nonOpen, List.mem_map, List.mem_filter, Bool.and_eq_true, decide_eq_true_eq, Option.isNone_iff_eq_none]
  constructor
  · rintro ⟨object, ⟨member, nonzero, closed⟩, rfl⟩
    exact ⟨object, member, rfl, nonzero, closed⟩
  · rintro ⟨object, member, rfl, nonzero, closed⟩
    exact ⟨object, ⟨member, nonzero, closed⟩, rfl⟩

theorem nonOpen_congr {other : Funds}
    (same : ∀ owner, (other.balances.get? owner).isSome = (funds.balances.get? owner).isSome)
    (objects : List (Name × Account)) : nonOpen other objects = nonOpen funds objects := by
  have closed : ∀ owner, (other.balances.get? owner).isNone = (funds.balances.get? owner).isNone := by
    intro owner
    rw [← Option.not_isSome, ← Option.not_isSome, same]
  simp only [nonOpen, closed]

theorem executeTx_egress {context : TxContext} {input : RunInput} (loose : funds.Loose context.config.getTokenSymbol)
    (small : reservedTotal output.reservedObjects < 2 ^ 256)
    (executed : executeTx env context funds = .ok (after, sent, input, output)) :
    sent = (output.filteredMessages.filter (sendsTo (nonOpen funds output.reservedObjects))).map
        (transferOf context.config context.config.getTokenSymbol.unit) ∧
      (∀ object ∈ output.reservedObjects, object.2.balance ≠ 0 → funds.balances.get? object.1 = none →
        Forwards env context.egresslist context.config.getTokenSymbol.unit output.filteredMessages object.1
          object.2.balance) ∧
      after.evmValue + reservedTotal output.reservedObjects =
        funds.evmValue + (input.funded.map Prod.fst).getD 0 := by
  obtain ⟨charged, fromSelf, begun, _, _, settled⟩ := executeTx_ok executed
  obtain ⟨sender, funded, _, prepared, rfl⟩ := beginTx_ok begun
  have moves : Funds.Moves context.config.getTokenSymbol funds charged := prepareSender_moves prepared
  have same := moves.opened.1
  obtain ⟨_, left, _, egressed, untouched⟩ := settleTx_egress settled
  obtain ⟨sends, forwards, leaves⟩ := egressFunds_exact (loose.moves moves) small egressed
  rw [nonOpen_congr same] at sends
  refine ⟨sends, fun object member nonzero closed => forwards object member nonzero ?_, ?_⟩
  · have stillClosed := same object.1
    rw [closed] at stillClosed
    simpa using stillClosed
  · rw [untouched, leaves, prepareSender_evmValue loose prepared]

/-- In every reachable state and for every run of the EVM: the transfers sent are the messages
to the accounts without an open balance whose reserved address received something, in the
order of the messages and in exact quantities. Each such account may receive them, and what
they carry is what it received. What all reserved addresses received leaves the EVM. -/
theorem run_egress_exact (host : Host) (holding : Name → Symbol → Nat) (labels : List Label) (world : World)
    (finished : run host labels (World.start holding) = .ok world) (view : ChainView) (request : Request)
    (call : TxCall) (calls : Calls host view world request call) (tx : Transaction) (after : Funds) (sent : List Inline)
    (input : RunInput) (output : RunOutput)
    (executed : executeTx (host.env view world.now request)
      (contextOf (host.env view world.now request) call.rc call.miner tx call.contract) call.contract.funds =
        .ok (after, sent, input, output))
    (small : reservedTotal output.reservedObjects < 2 ^ 256) :
    let config := (contextOf (host.env view world.now request) call.rc call.miner tx call.contract).config
    let unit := config.getTokenSymbol.unit
    let funds := call.contract.funds
    sent = (output.filteredMessages.filter (sendsTo (nonOpen funds output.reservedObjects))).map
        (transferOf config unit) ∧
      (∀ object ∈ output.reservedObjects, object.2.balance ≠ 0 → funds.balances.get? object.1 = none →
        sent.filter (Inline.pays object.1) =
            (output.filteredMessages.filter (goesTo object.1)).map (transferOf config unit) ∧
          (∀ message ∈ output.filteredMessages, goesTo object.1 message = true →
            message.value / unit * unit = message.value) ∧
          Forwards (host.env view world.now request) call.contract.egresslist unit output.filteredMessages object.1
            object.2.balance) ∧
      (∀ account, (funds.balances.get? account).isSome = true ∨
          (∀ object ∈ output.reservedObjects, object.1 = account → object.2.balance = 0) →
        sent.filter (Inline.pays account) = []) ∧
      after.evmValue + reservedTotal output.reservedObjects =
        funds.evmValue + (input.funded.map Prod.fst).getD 0 := by
  intro config unit funds
  have loose := calls.loose (run_loose finished)
  unfold Contract.Loose at loose
  rw [← contextOf_symbol (host.env view world.now request) call.rc call.miner tx call.contract] at loose
  obtain ⟨sends, forwards, leaves⟩ := executeTx_egress loose small executed
  have paid := filter_pays_transferOf config unit (nonOpen funds output.reservedObjects)
  refine ⟨sends, ?_, ?_, leaves⟩
  · intro object member nonzero closed
    have carried := forwards object member nonzero closed
    refine ⟨?_, fun message here goes => ?_, carried⟩
    · rw [sends, paid object.1, if_pos (mem_nonOpen.mpr ⟨object, member, rfl, nonzero, closed⟩)]
    · exact Nat.div_mul_cancel (Nat.dvd_of_mod_eq_zero (carried.whole message here goes))
  · intro account kept
    rw [sends, paid account, if_neg]
    intro member
    obtain ⟨object, present, rfl, nonzero, closed⟩ := mem_nonOpen.mp member
    rcases kept with isOpen | empty
    · rw [closed] at isOpen
      cases isOpen
    · exact nonzero (empty object present rfl)

namespace Ledger

def payBob : Transaction where
  nonce := 0
  maxPriorityFeePerGas := 150000000000
  maxFeePerGas := 150000000000
  gasLimit := 21000
  recipient := some (makeReservedAddress bob)
  value := 200000000000000
  data := bytesOf "memo"
  r := 0
  s := alice.val

def pushBob : Request := .action (some self) [self] (.pushtx self (evm.encodeTransaction payBob) none)

def pushBobEnv (now : Nat) : Env := host.env view now pushBob

def executeBob (world : World) : Outcome (Funds × List Inline × RunInput × RunOutput) :=
  let contract := refreshPrices (pushBobEnv world.now) world.contract
  executeTx (pushBobEnv world.now) (contextOf (pushBobEnv world.now) (Contract.pushtxConfig (pushBobEnv world.now)) self
    payBob contract) contract.funds

theorem executeBob_sends :
    ∃ world after sent input output, run host (opening ++ pay alice 1000000 "alice" 0) (World.start fun _ _ => 0) =
        .ok world ∧
      executeBob world = .ok (after, sent, input, output) ∧ reservedTotal output.reservedObjects < 2 ^ 256 ∧
      sent = [.transfer defaultTokenAccount bob ⟨2, eos⟩ (bytesOf "memo")] ∧
      ∀ message ∈ output.filteredMessages, message.value ≠ 0 := by
  obtain ⟨world, reached, seen⟩ := exists_of_view
    (run host (opening ++ pay alice 1000000 "alice" 0) (World.start fun _ _ => 0))
    (fun world => decide ((executeBob world).toOption.map (fun result => decide
      (reservedTotal result.2.2.2.reservedObjects < 2 ^ 256 ∧
        result.2.1 = [.transfer defaultTokenAccount bob ⟨2, eos⟩ (bytesOf "memo")] ∧
        ∀ message ∈ result.2.2.2.filteredMessages, message.value ≠ 0)) = some true)) true (by decide +kernel)
  obtain ⟨⟨after, sent, input, output⟩, executed, checked⟩ := exists_of_view _ _ _ (of_decide_eq_true seen)
  exact ⟨world, after, sent, input, output, reached, executed, of_decide_eq_true checked⟩

end Ledger

theorem run_egress_exact_payBob :
    ∃ world after sent input output,
      run Ledger.host (Ledger.opening ++ Ledger.pay Ledger.alice 1000000 "alice" 0) (World.start fun _ _ => 0) =
        .ok world ∧
      Ledger.executeBob world = .ok (after, sent, input, output) ∧
      sent = [.transfer defaultTokenAccount Ledger.bob ⟨2, Ledger.eos⟩ (bytesOf "memo")] ∧
      after.evmValue + reservedTotal output.reservedObjects =
        (refreshPrices (Ledger.pushBobEnv world.now) world.contract).funds.evmValue +
          (input.funded.map Prod.fst).getD 0 := by
  obtain ⟨world, after, sent, input, output, reached, executed, small, sends, _⟩ := Ledger.executeBob_sends
  exact ⟨world, after, sent, input, output, reached, executed, sends,
    (run_egress_exact Ledger.host _ _ world reached Ledger.view _ _
      (.pushes (some Ledger.self) [Ledger.self] Ledger.self (Ledger.evm.encodeTransaction Ledger.payBob) none)
      Ledger.payBob after sent input output executed small).2.2.2⟩

theorem sendTransfers_words {unit : Nat} {messages : List FilteredMessage} {selects : FilteredMessage → Bool}
    (sends : sendTransfers config unit messages (messages.map selects) = .ok sent) :
    sent = (messages.filter selects).map fun message => .transfer config.cached.tokenContract
      ((extractReservedAddress message.receiver).getD 0) ⟨i64 (u64 (message.value / unit)), config.getTokenSymbol⟩
      message.data := by
  induction messages generalizing sent with
  | nil =>
      cases sends
      rfl
  | cons message messages ih =>
      simp only [List.map_cons, sendTransfers] at sends
      split at sends
      · rename_i selected
        simp only [bind_ok, pure_ok, Asset.make_ok] at sends
        obtain ⟨quantity, ⟨_, _, rfl⟩, rest, restSends, rfl⟩ := sends
        rw [List.filter_cons_of_pos selected, List.map_cons, ih restSends]
      · rename_i skipped
        rw [List.filter_cons_of_neg skipped]
        exact ih sends

theorem executeTx_transfers {context : TxContext} {input : RunInput}
    (executed : executeTx env context funds = .ok (after, sent, input, output)) :
    sent = (output.filteredMessages.filter (sendsTo (nonOpen funds output.reservedObjects))).map fun message =>
      .transfer context.config.cached.tokenContract ((extractReservedAddress message.receiver).getD 0)
        ⟨i64 (u64 (message.value / context.config.getTokenSymbol.unit)), context.config.getTokenSymbol⟩
        message.data := by
  obtain ⟨charged, fromSelf, begun, _, _, settled⟩ := executeTx_ok executed
  obtain ⟨sender, funded, _, prepared, rfl⟩ := beginTx_ok begun
  have moves : Funds.Moves Symbol.none funds charged := prepareSender_moves prepared
  obtain ⟨_, left, _, egressed, _⟩ := settleTx_egress settled
  simp only [egressFunds] at egressed
  split at egressed
  · rename_i nothing
    cases egressed
    simp [nothing, nonOpen, sendsTo]
  · simp only [bind_ok, pure_ok, Prod.mk.injEq] at egressed
    obtain ⟨unit, unitOk, egress, folded, actions, sends, _, _, _, _, rfl⟩ := egressed
    obtain ⟨_, rfl⟩ := BalanceWithDust.pow10Const_ok unitOk
    have inv := (Egressing.begin context.config.getTokenSymbol.unit output.filteredMessages).fold folded
    rw [List.nil_append] at inv
    rw [inv.marks, nonOpen_congr moves.opened.1] at sends
    exact sendTransfers_words sends

/-- In every reachable state and for every run of the EVM, all transfers are positive exactly
when every message to an account that is not open is, as a word. If what the reserved addresses
received fits in a word, then they are exactly when no such message is without value. -/
theorem run_egress_positive_iff (host : Host) (holding : Name → Symbol → Nat) (labels : List Label) (world : World)
    (finished : run host labels (World.start holding) = .ok world) (view : ChainView) (request : Request)
    (call : TxCall) (calls : Calls host view world request call) (tx : Transaction) (after : Funds) (sent : List Inline)
    (input : RunInput) (output : RunOutput)
    (executed : executeTx (host.env view world.now request)
      (contextOf (host.env view world.now request) call.rc call.miner tx call.contract) call.contract.funds =
        .ok (after, sent, input, output)) :
    ((∀ action ∈ sent, 0 < action.outflow) ↔
        ∀ message ∈ output.filteredMessages, sendsTo (nonOpen call.contract.funds output.reservedObjects) message = true →
          0 < i64 (u64 (message.value / call.contract.config.getTokenSymbol.unit))) ∧
      (reservedTotal output.reservedObjects < 2 ^ 256 →
        ((∀ action ∈ sent, 0 < action.outflow) ↔
          ∀ message ∈ output.filteredMessages,
            sendsTo (nonOpen call.contract.funds output.reservedObjects) message = true → message.value ≠ 0)) := by
  have symbol := contextOf_symbol (host.env view world.now request) call.rc call.miner tx call.contract
  refine ⟨?_, fun small => ?_⟩
  · rw [executeTx_transfers executed, symbol]
    simp only [List.forall_mem_map, List.mem_filter, and_imp, Inline.outflow]
  · have loose := calls.loose (run_loose finished)
    unfold Contract.Loose at loose
    rw [← symbol] at loose
    obtain ⟨sends, forwards, _⟩ := executeTx_egress loose small executed
    rw [sends]
    simp only [List.forall_mem_map, List.mem_filter, and_imp, transferOf, Inline.outflow, Int.natCast_pos]
    refine forall_congr' fun message => forall_congr' fun member => forall_congr' fun selected => ?_
    obtain ⟨object, present, nonzero, closed, here⟩ := exists_of_sendsTo selected
    obtain ⟨units, whole⟩ := Nat.dvd_of_mod_eq_zero ((forwards object present nonzero closed).whole message member here)
    have unitPos := Symbol.unit_pos
      (contextOf (host.env view world.now request) call.rc call.miner tx call.contract).config.getTokenSymbol
    rw [whole, Nat.mul_div_cancel_left _ unitPos, Nat.pos_iff_ne_zero]
    simp [Nat.ne_of_gt unitPos]

namespace Ledger

def knockingEvm : Silkworm :=
  { evm with executeTransaction := fun input => do
      let output ← executeTransaction input
      return { output with filteredMessages := output.filteredMessages.flatMap fun message =>
        [{ message with value := 0, data := [] }, message] } }

def knockingHost : Host := { host with evm := knockingEvm }

def callBob : Request :=
  .action none [alice] (.call alice (Abi.digits 20 (makeReservedAddress bob).toNat) (Abi.digits 32 200000000000000)
    (bytesOf "memo") 21000)

end Ledger

/-- The empty call is sent on as an empty transfer, which the token contract rejects. -/
theorem knocking_sendsEmpty :
    ∃ world sent rest,
      run Ledger.knockingHost (Ledger.versionOne ++ [.submit [Ledger.callBob], .next Ledger.view [] []])
        (World.start fun _ _ => 0) = .ok world ∧
      world.stack = .sent sent :: rest ∧ sent.action = .transfer defaultTokenAccount Ledger.bob ⟨0, Ledger.eos⟩ [] ∧
      step Ledger.knockingHost world (.next Ledger.view [] []) = .error "must transfer positive quantity" := by
  obtain ⟨world, reached, seen⟩ := exists_of_view
    (run Ledger.knockingHost (Ledger.versionOne ++ [.submit [Ledger.callBob], .next Ledger.view [] []])
      (World.start fun _ _ => 0))
    (fun world => decide ((world.stack.head?.map fun pending => match pending with
        | .sent sent => decide (sent.action = .transfer defaultTokenAccount Ledger.bob ⟨0, Ledger.eos⟩ [])
        | .request _ => false) = some true ∧
      (step Ledger.knockingHost world (.next Ledger.view [] [])).map (fun _ => ()) =
        .error "must transfer positive quantity")) true (by decide +kernel)
  obtain ⟨top, refused⟩ := of_decide_eq_true seen
  cases stack : world.stack with
  | nil =>
      rw [stack] at top
      cases top
  | cons pending rest =>
      rw [stack] at top
      cases pending with
      | request => cases top
      | sent sent =>
          exact ⟨world, sent, rest, reached, stack, of_decide_eq_true (Option.some.inj top), error_of_map refused⟩

theorem run_egress_positive_payBob :
    ∃ world after sent input output,
      run Ledger.host (Ledger.opening ++ Ledger.pay Ledger.alice 1000000 "alice" 0) (World.start fun _ _ => 0) =
        .ok world ∧
      Ledger.executeBob world = .ok (after, sent, input, output) ∧ sent ≠ [] ∧ ∀ action ∈ sent, 0 < action.outflow := by
  obtain ⟨world, after, sent, input, output, reached, executed, small, sends, valued⟩ := Ledger.executeBob_sends
  refine ⟨world, after, sent, input, output, reached, executed, by simp [sends], ?_⟩
  exact ((run_egress_positive_iff Ledger.host _ _ world reached Ledger.view _ _
    (.pushes (some Ledger.self) [Ledger.self] Ledger.self (Ledger.evm.encodeTransaction Ledger.payBob) none)
    Ledger.payBob after sent input output executed).2 small).mpr fun message member _ => valued message member

end EosEvm

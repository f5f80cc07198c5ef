import EosEvm.Funds

/-! What one EVM transaction does to the funds: who may lose value in each stage of
`execute_tx`, and that each stage moves value between the open balances, the EVM and the
transfers it sends without creating any. -/

namespace EosEvm

open Abort Words

/-- The amount of tokens an action takes out of the contract account. -/
def Inline.outflow : Inline → Int
  | .transfer _ _ quantity _ => quantity.amount
  | _ => 0

/-- The amount of tokens a list of actions takes out of the contract account. -/
def outflow (actions : List Inline) : Int := (actions.map Inline.outflow).sum

@[simp] theorem outflow_nil : outflow [] = 0 := rfl

@[simp] theorem outflow_cons (action : Inline) (actions : List Inline) :
    outflow (action :: actions) = action.outflow + outflow actions := by
  simp [outflow]

@[simp] theorem outflow_append (first second : List Inline) :
    outflow (first ++ second) = outflow first + outflow second := by
  simp [outflow]

/-- The value of the reserved objects. -/
def reservedTotal (objects : List (Name × Account)) : Nat := (objects.map fun object => object.2.balance).sum

def selectedValue (selects : FilteredMessage → Bool) (messages : List FilteredMessage) : Nat :=
  ((messages.filter selects).map FilteredMessage.value).sum

variable {symbol : Symbol} {funds after : Funds}

theorem chargeSender_spec (sound : funds.Sound symbol) {rc : RuntimeConfig} {tx : Transaction} {account : Name}
    {amount : Nat} (charged : chargeSender rc tx account funds = .ok (after, amount)) :
    Funds.Flow symbol (fun owner => owner = account ∨ rc.gasPayer = some owner) funds after ∧
      after.openTotal + amount = funds.openTotal ∧ after.evmValue = funds.evmValue + amount := by
  simp only [chargeSender, bind_ok, check_ok, exists_const, pure_ok, Prod.mk.injEq] at charged
  obtain ⟨small, debited, taken, entered, enteredEvm, rfl, rfl⟩ := charged
  have whole : u256 (tx.value + maxGasCost tx) = tx.value + maxGasCost tx := by
    apply u256_of_lt
    unfold max256 at small
    omega
  rw [whole] at taken enteredEvm ⊢
  have charge : Funds.Flow symbol (fun owner => owner = account ∨ rc.gasPayer = some owner) funds debited ∧
      debited.openTotal + (tx.value + maxGasCost tx) = funds.openTotal ∧ debited.inevm = funds.inevm := by
    unfold debitPayers at taken
    cases paying : rc.gasPayer with
    | some payer =>
        simp only [paying, bind_ok] at taken
        obtain ⟨paid, gas, rest⟩ := taken
        obtain ⟨flowGas, totalGas, evmGas, _⟩ := Funds.debit_spec sound gas
        have wider : Funds.Flow symbol (fun owner => owner = account ∨ some payer = some owner) funds paid :=
          flowGas.mono fun owner same => Or.inr (by rw [same])
        split at rest
        · obtain ⟨flowValue, totalValue, evmValue, _⟩ := Funds.debit_spec wider.sound rest
          exact ⟨wider.trans (flowValue.mono fun owner same => Or.inl same), by omega, evmValue.trans evmGas⟩
        · rw [pure_ok] at rest
          subst rest
          exact ⟨wider, by omega, evmGas⟩
    | none =>
        simp only [paying] at taken
        obtain ⟨flow, total, evm, _⟩ := Funds.debit_spec sound taken
        exact ⟨flow.mono fun owner same => Or.inl same, by omega, evm⟩
  obtain ⟨flow, total, evm⟩ := charge
  obtain ⟨flowEnter, totalEnter, evmEnter, _⟩ := Funds.enterEvm_spec _ flow.sound enteredEvm
  refine ⟨flow.trans flowEnter, by omega, ?_⟩
  rw [evmEnter]
  simp [Funds.evmValue, evm]

def mayCharge (rc : RuntimeConfig) (tx : Transaction) (sender : Address) (owner : Name) : Prop :=
  tx.isSpecialSignature = true ∧ rc.allowSpecialSignature = true ∧
    ∃ account, sender = makeReservedAddress account ∧ (owner = account ∨ rc.gasPayer = some owner)

theorem prepareSender_spec (sound : funds.Sound symbol) {env : Env} {rc : RuntimeConfig} {tx : Transaction}
    {sender : Address} {fromSelf : Bool} {funded : Option (Nat × Nat)}
    (prepared : prepareSender env rc tx sender funds = .ok (after, fromSelf, funded)) :
    Funds.Flow symbol (mayCharge rc tx sender) funds after ∧
      after.openTotal + (funded.map Prod.fst).getD 0 = funds.openTotal ∧
      after.evmValue = funds.evmValue + (funded.map Prod.fst).getD 0 := by
  simp only [prepareSender] at prepared
  split at prepared
  · rename_i special
    simp only [bind_ok, check_ok, exists_const] at prepared
    obtain ⟨allowed, prepared⟩ := prepared
    split at prepared
    · simp only [pure_ok, Prod.mk.injEq] at prepared
      obtain ⟨rfl, rfl, rfl⟩ := prepared
      exact ⟨Funds.Flow.refl sound, rfl, rfl⟩
    · rename_i account reserved
      simp only [bind_ok, pure_ok, Prod.mk.injEq] at prepared
      obtain ⟨⟨charged, amount⟩, charge, rfl, rfl, rfl⟩ := prepared
      obtain ⟨flow, total, evm⟩ := chargeSender_spec sound charge
      refine ⟨flow.mono fun owner paid => ?_, total, evm⟩
      exact ⟨special, allowed, account, (extractReservedAddress_eq_some sender account).mp reserved, paid⟩
  · simp only [Except.ok.injEq, Prod.mk.injEq] at prepared
    obtain ⟨rfl, rfl, rfl⟩ := prepared
    exact ⟨Funds.Flow.refl sound, rfl, rfl⟩

theorem beginTx_ok {env : Env} {context : TxContext} {fromSelf : Bool} {input : RunInput}
    (begun : beginTx env context funds = .ok (after, fromSelf, input)) :
    ∃ sender funded, env.evm.recoverSender context.tx = some sender ∧
      prepareSender env context.rc context.tx sender funds = .ok (after, fromSelf, funded) ∧
      input = {
        header := context.header
        chainId := context.config.cached.chainid
        gasParams := context.gasParams
        overheadPrice := context.config.cached.gasPrices.overheadPrice.getD 0
        storagePrice := context.config.cached.gasPrices.storagePrice.getD 0
        tx := context.tx
        sender := sender
        db := context.db
        funded := funded } := by
  simp only [beginTx, bind_ok, pure_ok, require_ok, Prod.mk.injEq] at begun
  obtain ⟨_, _, _, _, sender, recovered, ⟨charged, self, funded⟩, prepared, _, _, rfl, rfl, rfl⟩ := begun
  exact ⟨sender, funded, recovered, prepared, rfl⟩

theorem beginTx_preValidated {env : Env} {context : TxContext} {fromSelf : Bool} {input : RunInput}
    (begun : beginTx env context funds = .ok (after, fromSelf, input)) :
    env.evm.preValidateTransaction context.header context.config.cached.chainid context.gasParams context.tx = .ok := by
  simp only [beginTx, checkResult, bind_ok, check_ok, exists_const] at begun
  obtain ⟨_, _, accepted, _⟩ := begun
  exact accepted

/-! The loop over the reserved objects. -/

/-- The accounts of the objects whose balance has to be sent on. -/
def nonOpen (funds : Funds) (objects : List (Name × Account)) : List Name :=
  (objects.filter fun object => decide (object.2.balance ≠ 0) && (funds.balances.get? object.1).isNone).map
    Prod.fst

/-- Whether a message goes to the reserved address of one of the accounts. -/
def sendsTo (accounts : List Name) (message : FilteredMessage) : Bool :=
  accounts.any fun account => message.receiver == makeReservedAddress account

theorem makeReservedAddress_injective {first second : Name}
    (same : makeReservedAddress first = makeReservedAddress second) : first = second := by
  have extracted := extractReservedAddress_makeReservedAddress first
  rw [same, extractReservedAddress_makeReservedAddress] at extracted
  exact (Option.some.inj extracted).symm

theorem selectedValue_cons (selects : FilteredMessage → Bool) (message : FilteredMessage)
    (messages : List FilteredMessage) :
    selectedValue selects (message :: messages) =
      (if selects message then message.value else 0) + selectedValue selects messages := by
  simp only [selectedValue, List.filter_cons]
  split <;> simp

theorem selectedValue_or (first second : FilteredMessage → Bool) (messages : List FilteredMessage)
    (disjoint : ∀ message, first message = true → second message = true → False) :
    selectedValue (fun message => first message || second message) messages =
      selectedValue first messages + selectedValue second messages := by
  induction messages with
  | nil => rfl
  | cons message messages ih =>
      simp only [selectedValue_cons, ih]
      cases inFirst : first message <;> cases inSecond : second message
      · simp
      · simp
        omega
      · simp
        omega
      · exact (disjoint message inFirst inSecond).elim

theorem le_selectedValue (selects : FilteredMessage → Bool) (messages : List FilteredMessage)
    (message : FilteredMessage) (member : message ∈ messages) (selected : selects message = true) :
    message.value ≤ selectedValue selects messages :=
  List.le_sum_of_mem (List.mem_map_of_mem (List.mem_filter.mpr ⟨member, selected⟩))

theorem markTransfers_spec (unit : Nat) (address : Address) (messages : List FilteredMessage)
    (selects : FilteredMessage → Bool) (count balance left : Nat) (marks : List Bool)
    (marked : markTransfers unit address messages (messages.map selects) count balance = .ok (left, marks)) :
    marks = messages.map (fun message => selects message || message.receiver == address) ∧
      left + selectedValue (fun message => message.receiver == address) messages = balance ∧
      ∀ message ∈ messages, message.receiver = address → message.value % unit = 0 := by
  induction messages generalizing count balance left marks with
  | nil =>
      simp only [List.map_nil, markTransfers, Except.ok.injEq, Prod.mk.injEq] at marked
      obtain ⟨rfl, rfl⟩ := marked
      simp [selectedValue]
  | cons message messages ih =>
      simp only [List.map_cons, markTransfers] at marked
      split at marked
      · rename_i here
        simp only [bind_ok, check_ok, exists_const, pure_ok, Prod.mk.injEq] at marked
        obtain ⟨_, whole, enough, ⟨rest, restMarks⟩, markedRest, rfl, rfl⟩ := marked
        obtain ⟨rfl, total, divides⟩ := ih _ _ _ _ markedRest
        refine ⟨by simp [here], ?_, ?_⟩
        · rw [selectedValue_cons]
          simp only [here, beq_self_eq_true, if_true]
          omega
        · intro other member receiver
          rcases List.mem_cons.mp member with rfl | later
          · exact whole
          · exact divides other later receiver
      · rename_i elsewhere
        simp only [bind_ok, pure_ok, Prod.mk.injEq] at marked
        obtain ⟨⟨rest, restMarks⟩, markedRest, rfl, rfl⟩ := marked
        obtain ⟨rfl, total, divides⟩ := ih _ _ _ _ markedRest
        refine ⟨by simp [elsewhere], ?_, ?_⟩
        · rw [selectedValue_cons]
          simp [elsewhere, total]
        · intro other member receiver
          rcases List.mem_cons.mp member with rfl | later
          · exact absurd receiver elsewhere
          · exact divides other later receiver

def transferOf (config : ConfigWrapper) (unit : Nat) (message : FilteredMessage) : Inline :=
  .transfer config.cached.tokenContract ((extractReservedAddress message.receiver).getD 0)
    ⟨(message.value / unit : Nat), config.getTokenSymbol⟩ message.data

theorem sendTransfers_spec {config : ConfigWrapper} {unit : Nat} {messages : List FilteredMessage}
    {selects : FilteredMessage → Bool} {sent : List Inline}
    (small : ∀ message ∈ messages, selects message = true → message.value / unit < 2 ^ 62)
    (sends : sendTransfers config unit messages (messages.map selects) = .ok sent) :
    sent = (messages.filter selects).map (transferOf config unit) ∧
      (sent ≠ [] → config.getTokenSymbol.isValid = true) := by
  induction messages generalizing sent with
  | nil =>
      simp only [sendTransfers, Except.ok.injEq] at sends
      subst sends
      simp
  | cons message messages ih =>
      have smallRest : ∀ other ∈ messages, selects other = true → other.value / unit < 2 ^ 62 :=
        fun other member => small other (List.mem_cons_of_mem _ member)
      simp only [List.map_cons, sendTransfers] at sends
      split at sends
      · rename_i selected
        simp only [bind_ok, pure_ok, Asset.make_ok] at sends
        obtain ⟨quantity, ⟨_, valid, rfl⟩, rest, restSends, rfl⟩ := sends
        obtain ⟨rfl, _⟩ := ih smallRest restSends
        have bound := small message (List.mem_cons_self ..) selected
        have exact64 : i64 (u64 (message.value / unit) : Nat) = (message.value / unit : Nat) := by
          generalize message.value / unit = quotient at bound ⊢
          rw [u64_of_lt (by omega)]
          exact i64_of_range _ (by omega) (by omega)
        refine ⟨?_, fun _ => valid⟩
        simp [selected, exact64, transferOf]
      · rename_i skipped
        obtain ⟨rfl, valid⟩ := ih smallRest sends
        refine ⟨?_, valid⟩
        simp [skipped]

/-- The state of the egress loop after some of the reserved objects. -/
structure Egressed (symbol : Symbol) (unit : Nat) (contract : Name) (portion : Option Nat)
    (messages : List FilteredMessage) (start : Funds) (done : List (Name × Account)) (egress : Egress) : Prop where
  flow : Funds.Flow symbol (fun owner => owner = contract) start egress.funds
  inevm : egress.funds.inevm = start.inevm
  total : egress.totalEgress = u256 (reservedTotal done)
  marks : egress.needSend = messages.map (sendsTo (nonOpen start done))
  whole : ∀ message ∈ messages, sendsTo (nonOpen start done) message = true → message.value % unit = 0
  within : selectedValue (sendsTo (nonOpen start done)) messages ≤ reservedTotal done
  moved : egress.funds.openTotal + selectedValue (sendsTo (nonOpen start done)) messages +
    (if egress.deductedMinerCut then portion.getD 0 else 0) = start.openTotal + reservedTotal done

theorem reservedTotal_append_one (done : List (Name × Account)) (object : Name × Account) :
    reservedTotal (done ++ [object]) = reservedTotal done + object.2.balance := by
  simp [reservedTotal]

theorem nonOpen_append_one (funds : Funds) (done : List (Name × Account)) (object : Name × Account) :
    nonOpen funds (done ++ [object]) = nonOpen funds done ++
      if object.2.balance ≠ 0 ∧ funds.balances.get? object.1 = none then [object.1] else [] := by
  simp only [nonOpen, List.filter_append, List.map_append, List.filter_cons, List.filter_nil,
    Bool.and_eq_true, decide_eq_true_eq, Option.isNone_iff_eq_none]
  split <;> rfl

theorem sendsTo_append_one (accounts : List Name) (account : Name) (message : FilteredMessage) :
    sendsTo (accounts ++ [account]) message =
      (sendsTo accounts message || message.receiver == makeReservedAddress account) := by
  simp [sendsTo]

section EgressLoop

variable {unit : Nat} {env : Env} {portion : Option Nat} {messages : List FilteredMessage} {start : Funds}
  {done : List (Name × Account)} {egress reached : Egress} {object : Name × Account}

theorem Egressed.credit (inv : Egressed symbol unit env.self portion messages start done egress)
    (isOpen : (egress.funds.balances.get? object.1).isSome = true)
    (credited : creditReserved env portion object.1 object.2.balance
      { egress with totalEgress := u256 (egress.totalEgress + object.2.balance) } = .ok reached) :
    Egressed symbol unit env.self portion messages start (done ++ [object]) reached := by
  have same : nonOpen start (done ++ [object]) = nonOpen start done := by
    rw [nonOpen_append_one, if_neg, List.append_nil]
    rintro ⟨_, closed⟩
    rw [inv.flow.opened, closed] at isOpen
    cases isOpen
  have total : u256 (egress.totalEgress + object.2.balance) = u256 (reservedTotal (done ++ [object])) := by
    rw [inv.total, u256_add_left, reservedTotal_append_one]
  have moved := inv.moved
  have within : selectedValue (sendsTo (nonOpen start done)) messages ≤ reservedTotal (done ++ [object]) := by
    rw [reservedTotal_append_one]
    exact inv.within.trans (Nat.le_add_right _ _)
  simp only [creditReserved, bind_ok] at credited
  obtain ⟨received, credit, credited⟩ := credited
  obtain ⟨flowCredit, totalCredit, evmCredit, _⟩ :=
    Funds.credit_spec (fun owner => owner = env.self) inv.flow.sound credit
  have plain : reached = { egress with
        funds := received, totalEgress := u256 (egress.totalEgress + object.2.balance) } →
      Egressed symbol unit env.self portion messages start (done ++ [object]) reached := by
    rintro rfl
    refine ⟨inv.flow.trans flowCredit, evmCredit.trans inv.inevm, total, ?_, ?_, ?_, ?_⟩
    · rw [same]
      exact inv.marks
    · rw [same]
      exact inv.whole
    · rw [same]
      exact within
    · rw [same, reservedTotal_append_one]
      simp only
      omega
  split at credited
  · rename_i share
    split at credited
    · rename_i isSelf
      simp only [bind_ok, check_ok, exists_const, pure_ok] at credited
      obtain ⟨first, deducted, debit, rfl⟩ := credited
      obtain ⟨flowDebit, totalDebit, evmDebit, _⟩ := Funds.debit_spec flowCredit.sound debit
      refine ⟨(inv.flow.trans flowCredit).trans (flowDebit.mono fun owner paid => paid.trans isSelf),
        evmDebit.trans (evmCredit.trans inv.inevm), total, ?_, ?_, ?_, ?_⟩
      · rw [same]
        exact inv.marks
      · rw [same]
        exact inv.whole
      · rw [same]
        exact within
      · rw [same, reservedTotal_append_one]
        rw [first] at moved
        simp only [Option.getD_some, if_true, Bool.false_eq_true, if_false] at moved ⊢
        omega
    · rw [pure_ok] at credited
      exact plain credited.symm
  · rw [pure_ok] at credited
    exact plain credited.symm

theorem Egressed.send (inv : Egressed symbol unit env.self portion messages start done egress)
    (distinct : object.1 ∉ done.map Prod.fst) (nonzero : object.2.balance ≠ 0)
    (isClosed : (egress.funds.balances.get? object.1).isSome ≠ true) {egresslist : Table Name Unit}
    (sent : sendReserved env egresslist unit messages object.1 object.2.balance
      { egress with totalEgress := u256 (egress.totalEgress + object.2.balance) } = .ok reached) :
    Egressed symbol unit env.self portion messages start (done ++ [object]) reached := by
  have added : nonOpen start (done ++ [object]) = nonOpen start done ++ [object.1] := by
    rw [nonOpen_append_one, if_pos]
    refine ⟨nonzero, ?_⟩
    rw [inv.flow.opened] at isClosed
    simpa using isClosed
  have fresh : object.1 ∉ nonOpen start done := by
    intro member
    obtain ⟨other, present, same⟩ := List.mem_map.mp member
    exact distinct (same ▸ List.mem_map_of_mem (List.mem_of_mem_filter present))
  have disjoint : ∀ message, sendsTo (nonOpen start done) message = true →
      (message.receiver == makeReservedAddress object.1) = true → False := by
    intro message selected here
    simp only [sendsTo, List.any_eq_true, beq_iff_eq] at selected here
    obtain ⟨other, member, receiver⟩ := selected
    rw [receiver] at here
    exact fresh (makeReservedAddress_injective here ▸ member)
  simp only [sendReserved, bind_ok, check_ok, exists_const, pure_ok] at sent
  obtain ⟨_, _, _, ⟨left, marks⟩, marked, exact0, rfl⟩ := sent
  simp only at marked exact0
  rw [inv.marks] at marked
  obtain ⟨rfl, balance, divides⟩ := markTransfers_spec _ _ _ _ _ _ _ _ marked
  have moved := inv.moved
  have selects : sendsTo (nonOpen start (done ++ [object])) = fun message =>
      sendsTo (nonOpen start done) message || message.receiver == makeReservedAddress object.1 := by
    funext message
    rw [added, sendsTo_append_one]
  have within := inv.within
  refine ⟨inv.flow, inv.inevm, ?_, ?_, ?_, ?_, ?_⟩
  · simp only
    rw [inv.total, u256_add_left, reservedTotal_append_one]
  · rw [selects]
  · rw [selects]
    intro message member selected
    rcases Bool.or_eq_true _ _ |>.mp selected with before | here
    · exact inv.whole message member before
    · exact divides message member (by simpa using here)
  · rw [selects, selectedValue_or _ _ _ disjoint, reservedTotal_append_one]
    omega
  · rw [selects, selectedValue_or _ _ _ disjoint, reservedTotal_append_one]
    simp only
    omega

theorem Egressed.step (inv : Egressed symbol unit env.self portion messages start done egress)
    (distinct : object.1 ∉ done.map Prod.fst) {egresslist : Table Name Unit}
    (stepped : egressObject env egresslist unit portion messages egress object = .ok reached) :
    Egressed symbol unit env.self portion messages start (done ++ [object]) reached := by
  simp only [egressObject, bind_ok, check_ok, exists_const] at stepped
  obtain ⟨_, _, stepped⟩ := stepped
  split at stepped
  · rename_i zero
    rw [pure_ok] at stepped
    subst stepped
    have same : nonOpen start (done ++ [object]) = nonOpen start done := by
      rw [nonOpen_append_one, if_neg fun both => both.1 zero, List.append_nil]
    have total : reservedTotal (done ++ [object]) = reservedTotal done := by
      rw [reservedTotal_append_one, zero, Nat.add_zero]
    exact ⟨inv.flow, inv.inevm, by rw [total]; exact inv.total, by rw [same]; exact inv.marks,
      by rw [same]; exact inv.whole, by rw [same, total]; exact inv.within, by rw [same, total]; exact inv.moved⟩
  · rename_i nonzero
    split at stepped
    · rename_i isOpen
      exact inv.credit isOpen stepped
    · rename_i isClosed
      exact inv.send distinct nonzero isClosed stepped

theorem Egressed.fold {objects : List (Name × Account)}
    (inv : Egressed symbol unit env.self portion messages start done egress)
    (distinct : ((done ++ objects).map Prod.fst).Nodup) {egresslist : Table Name Unit}
    (folded : foldOutcome (egressObject env egresslist unit portion messages) objects egress = .ok reached) :
    Egressed symbol unit env.self portion messages start (done ++ objects) reached := by
  induction objects generalizing done egress with
  | nil =>
      rw [foldOutcome_nil] at folded
      rw [List.append_nil]
      exact folded ▸ inv
  | cons object objects ih =>
      obtain ⟨next, stepped, rest⟩ := (foldOutcome_cons _ _ _ _ _).mp folded
      have apart : object.1 ∉ done.map Prod.fst := by
        intro member
        rw [List.map_append, List.nodup_append] at distinct
        exact distinct.2.2 _ member object.1 (by simp) rfl
      have shifted : done ++ object :: objects = (done ++ [object]) ++ objects := by simp
      rw [shifted] at distinct ⊢
      exact ih (inv.step apart stepped) distinct rest

end EgressLoop

theorem selectedValue_none (messages : List FilteredMessage) :
    selectedValue (sendsTo (nonOpen funds [])) messages = 0 := by
  have nothing : messages.filter (sendsTo (nonOpen funds [])) = [] :=
    List.filter_eq_nil_iff.mpr (by simp [nonOpen, sendsTo])
  rw [selectedValue, nothing]
  rfl

theorem Egressed.start (sound : funds.Sound symbol) (unit : Nat) (contract : Name) (portion : Option Nat)
    (messages : List FilteredMessage) :
    Egressed symbol unit contract portion messages funds []
      { funds := funds, needSend := messages.map fun _ => false } where
  flow := Funds.Flow.refl sound
  inevm := rfl
  total := rfl
  marks := rfl
  whole := by simp [nonOpen, sendsTo]
  within := by simp [selectedValue_none]
  moved := by simp [selectedValue_none, reservedTotal]

theorem leaveTotal_spec (payers : Name → Prop) (sound : funds.Sound symbol) {total : Nat}
    (left : leaveTotal total funds = .ok after) :
    Funds.Flow symbol payers funds after ∧ after.openTotal = funds.openTotal ∧
      after.evmValue + total = funds.evmValue ∧ after.statistics = funds.statistics := by
  unfold leaveTotal at left
  split at left
  · rename_i zero
    cases left
    exact ⟨Funds.Flow.refl sound, rfl, by omega, rfl⟩
  · exact Funds.leaveEvm_spec payers sound left

theorem egressFunds_ok (sound : funds.Sound symbol) {env : Env} {config : ConfigWrapper}
    {egresslist : Table Name Unit} {portion : Option Nat} {output : RunOutput} {deducted : Bool}
    {sent : List Inline}
    (egressed : egressFunds env config egresslist portion output funds = .ok (after, deducted, sent)) :
    output.reservedObjects = [] ∧ after = funds ∧ deducted = false ∧ sent = [] ∨
      ∃ unit egress, config.getMinimumNativelyRepresentable = .ok unit ∧
        Egressed symbol unit env.self portion output.filteredMessages funds output.reservedObjects egress ∧
        sendTransfers config unit output.filteredMessages egress.needSend = .ok sent ∧
        leaveTotal egress.totalEgress egress.funds = .ok after ∧ deducted = egress.deductedMinerCut := by
  simp only [egressFunds] at egressed
  split at egressed
  · rename_i none
    simp only [Except.ok.injEq, Prod.mk.injEq] at egressed
    obtain ⟨rfl, rfl, rfl⟩ := egressed
    exact Or.inl ⟨none, rfl, rfl, rfl⟩
  · simp only [bind_ok, pure_ok, Prod.mk.injEq] at egressed
    obtain ⟨unit, unitOk, egress, folded, actions, sends, left, leaves, rfl, rfl, rfl⟩ := egressed
    have inv := (Egressed.start sound unit env.self portion output.filteredMessages).fold
      output.distinctReserved folded
    exact Or.inr ⟨unit, egress, unitOk, inv, sends, leaves, rfl⟩

theorem egressFunds_flow (sound : funds.Sound symbol) {env : Env} {config : ConfigWrapper}
    {egresslist : Table Name Unit} {portion : Option Nat} {output : RunOutput} {deducted : Bool}
    {sent : List Inline}
    (egressed : egressFunds env config egresslist portion output funds = .ok (after, deducted, sent)) :
    Funds.Flow symbol (fun owner => owner = env.self) funds after := by
  rcases egressFunds_ok sound egressed with ⟨_, rfl, _, _⟩ | ⟨unit, egress, _, inv, _, leaves, _⟩
  · exact Funds.Flow.refl sound
  · exact inv.flow.trans (leaveTotal_spec _ inv.flow.sound leaves).1

theorem outflow_transferOf (config : ConfigWrapper) (unit : Nat) (messages : List FilteredMessage)
    (whole : ∀ message ∈ messages, message.value % unit = 0) :
    unit * outflow (messages.map (transferOf config unit)) = ((messages.map FilteredMessage.value).sum : Nat) := by
  induction messages with
  | nil => simp
  | cons message messages ih =>
      have tail := ih fun other member => whole other (List.mem_cons_of_mem _ member)
      have head := Nat.div_add_mod message.value unit
      rw [whole message (List.mem_cons_self ..), Nat.add_zero] at head
      simp only [List.map_cons, outflow_cons, List.sum_cons, Nat.cast_add, mul_add, tail, transferOf,
        Inline.outflow]
      rw [← Nat.cast_mul, head]

theorem egressFunds_total (sound : funds.Sound symbol) {env : Env} {config : ConfigWrapper}
    (configured : config.getTokenSymbol = symbol) (precise : symbol.precision ≤ evmPrecision)
    {egresslist : Table Name Unit} {portion : Option Nat} {output : RunOutput} {deducted : Bool}
    {sent : List Inline} (covered : reservedTotal output.reservedObjects ≤ funds.evmValue)
    (egressed : egressFunds env config egresslist portion output funds = .ok (after, deducted, sent)) :
    sent = ((output.filteredMessages.filter
        (sendsTo (nonOpen funds output.reservedObjects))).map (transferOf config symbol.unit)) ∧
      (sent ≠ [] → symbol.isValid = true) ∧
      after.evmValue + reservedTotal output.reservedObjects = funds.evmValue ∧
      after.openTotal + symbol.unit * outflow sent + (if deducted then portion.getD 0 else 0 : Nat) =
        funds.openTotal + reservedTotal output.reservedObjects := by
  rcases egressFunds_ok sound egressed with ⟨none, rfl, rfl, rfl⟩ | ⟨unit, egress, unitOk, inv, sends, leaves, rfl⟩
  · simp [none, reservedTotal, nonOpen, sendsTo]
  · have unitEq : unit = symbol.unit := by
      rw [ConfigWrapper.getMinimumNativelyRepresentable, configured, pow10Const_precision symbol precise] at unitOk
      exact (Except.ok.inj unitOk).symm
    subst unitEq
    have room := Funds.evmValue_lt sound
    have unitLe := symbol.unit_le
    have unitPos := symbol.unit_pos
    have evmSmall : funds.evmValue < 2 ^ 256 := by
      have product : 2 ^ 62 * symbol.unit ≤ 2 ^ 62 * 10 ^ 18 := Nat.mul_le_mul_left _ unitLe
      omega
    have total := inv.total
    rw [u256_of_lt (by omega)] at total
    have moved := inv.moved
    obtain ⟨_, openAfter, evmAfter, _⟩ := leaveTotal_spec (fun owner => owner = env.self) inv.flow.sound leaves
    have evmBefore : egress.funds.evmValue = funds.evmValue := by simp [Funds.evmValue, inv.inevm]
    have bound : ∀ message ∈ output.filteredMessages,
        sendsTo (nonOpen funds output.reservedObjects) message = true →
          message.value / symbol.unit < 2 ^ 62 := by
      intro message member selected
      have part := le_selectedValue _ _ message member selected
      have within := inv.within
      rw [Nat.div_lt_iff_lt_mul unitPos]
      omega
    rw [inv.marks] at sends
    obtain ⟨rfl, valid⟩ := sendTransfers_spec bound sends
    refine ⟨rfl, ?_, by omega, ?_⟩
    · intro nonempty
      rw [← configured]
      exact valid nonempty
    · have out := outflow_transferOf config symbol.unit
        (output.filteredMessages.filter (sendsTo (nonOpen funds output.reservedObjects)))
        fun message member => inv.whole message (List.mem_of_mem_filter member) (List.of_mem_filter member)
      rw [out]
      unfold selectedValue at moved
      omega

/-! The settlement after the run. -/

theorem payMiner_spec (payers : Name → Prop) (sound : funds.Sound symbol) {miner : Name} {portion : Option Nat}
    {deducted : Bool} (paid : payMiner miner portion deducted funds = .ok after) :
    Funds.Flow symbol payers funds after ∧ after.inevm = funds.inevm ∧
      (portion.getD 0 = 0 ∨ deducted = true) ∧ after.openTotal = funds.openTotal + portion.getD 0 := by
  simp only [payMiner] at paid
  split at paid
  · rename_i zero
    cases paid
    exact ⟨Funds.Flow.refl sound, rfl, Or.inl zero, by omega⟩
  · simp only [bind_ok, check_ok, exists_const] at paid
    obtain ⟨cut, credited⟩ := paid
    obtain ⟨flow, total, evm, _⟩ := Funds.credit_spec payers sound credited
    exact ⟨flow, evm, Or.inr cut, total⟩

theorem refundGas_spec (sound : funds.Sound symbol) {header : BlockHeader} {tx : Transaction} {sender : Address}
    {gasPayer : Option Name} {output : RunOutput}
    (refunded : refundGas header tx sender gasPayer output funds = .ok after) :
    Funds.Flow symbol (fun owner => gasPayer.isSome = true ∧ sender = makeReservedAddress owner) funds after ∧
      after.inevm = funds.inevm ∧ after.openTotal = funds.openTotal := by
  simp only [refundGas] at refunded
  split at refunded
  · cases refunded
    exact ⟨Funds.Flow.refl sound, rfl, rfl⟩
  · simp only [bind_ok, check_ok, require_ok, exists_const] at refunded
    obtain ⟨baseFee, _, _, account, reserved, taken, debit, credit⟩ := refunded
    obtain ⟨flowDebit, totalDebit, evmDebit, _⟩ := Funds.debit_spec sound debit
    obtain ⟨flowCredit, totalCredit, evmCredit, _⟩ := Funds.credit_spec
      (fun owner => owner = account) flowDebit.sound credit
    refine ⟨(flowDebit.trans flowCredit).mono ?_, evmCredit.trans evmDebit, by omega⟩
    rintro owner rfl
    exact ⟨rfl, (extractReservedAddress_eq_some sender owner).mp reserved⟩

theorem recordGasFee_spec {config : ConfigWrapper} {now : Nat} {header : BlockHeader} {tx : Transaction}
    {portion : Option Nat} {fromSelf : Bool} {output : RunOutput}
    (recorded : recordGasFee config now header tx portion fromSelf output funds = .ok after) :
    ∃ statistics, after = { funds with statistics := statistics } := by
  simp only [recordGasFee] at recorded
  split at recorded
  · cases recorded
    exact ⟨_, rfl⟩
  · simp only [bind_ok, pure_ok] at recorded
    obtain ⟨_, _, _, _, _, _, rfl⟩ := recorded
    exact ⟨_, rfl⟩

theorem Funds.Sound.withStatistics (sound : funds.Sound symbol) (statistics : Option Statistics) :
    ({ funds with statistics := statistics } : Funds).Sound symbol :=
  ⟨sound.balances, sound.inevm⟩

def maySettle (env : Env) (rc : RuntimeConfig) (sender : Address) (owner : Name) : Prop :=
  owner = env.self ∨ rc.gasPayer.isSome = true ∧ sender = makeReservedAddress owner

theorem settleTx_flow (sound : funds.Sound symbol) {env : Env} {context : TxContext} {fromSelf : Bool}
    {sender : Address} {output : RunOutput} {sent : List Inline}
    (settled : settleTx env context fromSelf sender output funds = .ok (after, sent)) :
    Funds.Flow symbol (maySettle env context.rc sender) funds after := by
  simp only [settleTx, bind_ok, check_ok, exists_const, pure_ok, Prod.mk.injEq] at settled
  obtain ⟨portion, _, _, ⟨left, deducted, actions⟩, egressed, paid, pays, refunded, refunds, recorded, records,
    rfl, rfl⟩ := settled
  have flowEgress := egressFunds_flow sound egressed
  have flowPaid := (payMiner_spec (maySettle env context.rc sender) flowEgress.sound pays).1
  have flowRefund := (refundGas_spec flowPaid.sound refunds).1
  obtain ⟨statistics, rfl⟩ := recordGasFee_spec records
  have flow := ((flowEgress.mono fun _ same => Or.inl same).trans flowPaid).trans
    (flowRefund.mono fun _ paid => Or.inr paid)
  exact ⟨flow.sound.withStatistics statistics, flow.opened, flow.kept⟩

theorem settleTx_total (sound : funds.Sound symbol) {env : Env} {context : TxContext}
    (configured : context.config.getTokenSymbol = symbol) (precise : symbol.precision ≤ evmPrecision)
    {fromSelf : Bool} {sender : Address} {output : RunOutput} {sent : List Inline}
    (covered : reservedTotal output.reservedObjects ≤ funds.evmValue)
    (settled : settleTx env context fromSelf sender output funds = .ok (after, sent)) :
    sent = ((output.filteredMessages.filter
        (sendsTo (nonOpen funds output.reservedObjects))).map (transferOf context.config symbol.unit)) ∧
      (sent ≠ [] → symbol.isValid = true) ∧
      after.evmValue + reservedTotal output.reservedObjects = funds.evmValue ∧
      after.openTotal + symbol.unit * outflow sent = funds.openTotal + reservedTotal output.reservedObjects := by
  simp only [settleTx, bind_ok, check_ok, exists_const, pure_ok, Prod.mk.injEq] at settled
  obtain ⟨portion, _, _, ⟨left, deducted, actions⟩, egressed, paid, pays, refunded, refunds, recorded, records,
    rfl, rfl⟩ := settled
  have flowEgress := egressFunds_flow sound egressed
  obtain ⟨sentEq, valid, evmLeft, openLeft⟩ := egressFunds_total sound configured precise covered egressed
  obtain ⟨flowPaid, evmPaid, cut, openPaid⟩ :=
    payMiner_spec (maySettle env context.rc sender) flowEgress.sound pays
  obtain ⟨_, evmRefund, openRefund⟩ := refundGas_spec flowPaid.sound refunds
  obtain ⟨statistics, rfl⟩ := recordGasFee_spec records
  have evmAfter : ({ refunded with statistics := statistics } : Funds).evmValue = left.evmValue := by
    simp [Funds.evmValue, evmRefund, evmPaid]
  have openAfter : ({ refunded with statistics := statistics } : Funds).openTotal = refunded.openTotal := rfl
  refine ⟨sentEq, valid, by omega, ?_⟩
  simp only at openLeft pays ⊢
  rcases cut with zero | isDeducted
  · rw [zero] at openLeft openPaid
    simp only [ite_self] at openLeft
    omega
  · simp only at isDeducted
    rw [isDeducted, if_pos rfl] at openLeft
    omega

def mayPay (env : Env) (rc : RuntimeConfig) (tx : Transaction) (owner : Name) : Prop :=
  ∃ sender, env.evm.recoverSender tx = some sender ∧
    (mayCharge rc tx sender owner ∨ maySettle env rc sender owner)

theorem executeTx_ok {env : Env} {context : TxContext} {sent : List Inline} {input : RunInput}
    {output : RunOutput} (executed : executeTx env context funds = .ok (after, sent, input, output)) :
    ∃ charged fromSelf, beginTx env context funds = .ok (charged, fromSelf, input) ∧
      env.evm.validateTransaction input = .ok .ok ∧
      env.evm.executeTransaction input = .ok output ∧
      settleTx env context fromSelf input.sender output charged = .ok (after, sent) := by
  simp only [executeTx, checkResult, bind_ok, check_ok, exists_const, pure_ok, Prod.mk.injEq] at executed
  obtain ⟨⟨charged, fromSelf, begunInput⟩, begun, _, validated, rfl, result, ran, ⟨settled, actions⟩, settles,
    rfl, rfl, rfl, rfl⟩ := executed
  exact ⟨charged, fromSelf, begun, validated, ran, settles⟩

theorem executeTx_flow (sound : funds.Sound symbol) {env : Env} {context : TxContext} {sent : List Inline}
    {input : RunInput} {output : RunOutput}
    (executed : executeTx env context funds = .ok (after, sent, input, output)) :
    Funds.Flow symbol (mayPay env context.rc context.tx) funds after := by
  obtain ⟨charged, fromSelf, begun, _, _, settled⟩ := executeTx_ok executed
  obtain ⟨sender, funded, recovered, prepared, rfl⟩ := beginTx_ok begun
  have flowPrepared := (prepareSender_spec sound prepared).1
  have flowSettled := settleTx_flow flowPrepared.sound settled
  exact (flowPrepared.mono fun _ paid => ⟨sender, recovered, Or.inl paid⟩).trans
    (flowSettled.mono fun _ paid => ⟨sender, recovered, Or.inr paid⟩)

theorem deliverMessage_spec (payers : Name → Prop) (sound : funds.Sound symbol) {env : Env}
    {config : ConfigWrapper} {receivers : Table Name MessageReceiver} {sent actions : List Inline}
    {accumulated total : Nat} {message : FilteredMessage}
    (delivered : deliverMessage env config receivers (funds, sent, accumulated) message =
      .ok (after, actions, total)) :
    Funds.Flow symbol payers funds after ∧ after.inevm = funds.inevm ∧
      after.openTotal = funds.openTotal + message.value ∧ total = u256 (accumulated + message.value) ∧
      ∃ handler notice, actions = sent ++ [.onbridgemsg handler notice] := by
  simp only [deliverMessage, bind_ok, check_ok, require_ok, exists_const, pure_ok, Prod.mk.injEq] at delivered
  obtain ⟨_, _, decoded, _, _, _, _, registered, _, _, _, _, _, credited, credit, rfl, rfl, rfl⟩ := delivered
  obtain ⟨flow, openTotal, evm, _⟩ := Funds.credit_spec payers sound credit
  exact ⟨flow, evm, openTotal, rfl, _, _, rfl⟩

theorem deliverMessages_spec (payers : Name → Prop) (sound : funds.Sound symbol) {env : Env}
    {config : ConfigWrapper} {receivers : Table Name MessageReceiver} {messages : List FilteredMessage}
    {sent actions : List Inline} {accumulated total : Nat} (small : accumulated < 2 ^ 256)
    (delivered : foldOutcome (deliverMessage env config receivers) messages (funds, sent, accumulated) =
      .ok (after, actions, total)) :
    Funds.Flow symbol payers funds after ∧ after.inevm = funds.inevm ∧
      after.openTotal = funds.openTotal + (messages.map FilteredMessage.value).sum ∧
      total = u256 (accumulated + (messages.map FilteredMessage.value).sum) ∧
      ∃ notices, actions = sent ++ notices ∧ ∀ action ∈ notices, ∃ handler notice,
        action = .onbridgemsg handler notice := by
  induction messages generalizing funds sent accumulated with
  | nil =>
      simp only [foldOutcome_nil, Prod.mk.injEq] at delivered
      obtain ⟨rfl, rfl, rfl⟩ := delivered
      exact ⟨Funds.Flow.refl sound, rfl, rfl, (u256_of_lt small).symm, [], by simp⟩
  | cons message messages ih =>
      rw [foldOutcome_cons] at delivered
      obtain ⟨⟨credited, noticed, counted⟩, first, rest⟩ := delivered
      obtain ⟨flow, evm, openTotal, rfl, handler, notice, rfl⟩ := deliverMessage_spec payers sound first
      obtain ⟨flowRest, evmRest, openRest, totalRest, notices, rfl, delivers⟩ :=
        ih flow.sound (u256_lt _) rest
      refine ⟨flow.trans flowRest, evmRest.trans evm, ?_, ?_, .onbridgemsg handler notice :: notices, by simp, ?_⟩
      · simp only [List.map_cons, List.sum_cons]
        omega
      · rw [totalRest, u256_add_left]
        simp only [List.map_cons, List.sum_cons, Nat.add_assoc]
      · intro action member
        rcases List.mem_cons.mp member with rfl | later
        · exact ⟨handler, notice, rfl⟩
        · exact delivers action later

theorem processFilteredMessages_spec (sound : funds.Sound symbol) {env : Env} {config : ConfigWrapper}
    {receivers : Table Name MessageReceiver} {messages : List FilteredMessage} {sent : List Inline}
    (processed : processFilteredMessages env config receivers messages funds = .ok (after, sent)) :
    Funds.Flow symbol (fun owner => owner = env.self) funds after ∧ after.inevm = funds.inevm ∧
      after.openTotal = funds.openTotal ∧
      ∀ action ∈ sent, ∃ handler notice, action = .onbridgemsg handler notice := by
  simp only [processFilteredMessages, bind_ok, pure_ok, Prod.mk.injEq] at processed
  obtain ⟨⟨credited, actions, total⟩, delivered, settled, debited, rfl, rfl⟩ := processed
  obtain ⟨flow, evm, openTotal, totalEq, notices, rfl, delivers⟩ :=
    deliverMessages_spec (fun owner => owner = env.self) sound (by decide) delivered
  have small := Funds.openTotal_lt flow.sound
  rw [Nat.zero_add, u256_of_lt (by omega)] at totalEq
  simp only [debitDelivered] at debited
  split at debited
  · obtain ⟨flowDebit, openDebit, evmDebit, _⟩ := Funds.debit_spec flow.sound debited
    exact ⟨flow.trans flowDebit, evmDebit.trans evm, by omega, delivers⟩
  · cases debited
    exact ⟨flow, evm, by omega, delivers⟩

end EosEvm

import EosEvm.Egress

/-! The delivery of bridge messages. Each message is delivered once, in order, and credits the
account it is for; what they carry together is taken from the contract's own balance. -/

namespace EosEvm

open Abort Words

namespace Funds

def symbolOf (funds : Funds) (owner : Name) : Option Symbol :=
  (funds.balances.get? owner).map fun row => row.balance.symbol

variable {symbol : Symbol} {funds after : Funds} {owner : Name} {amount : Nat} {missing : String}

theorem isSome_symbolOf (funds : Funds) (owner : Name) :
    (funds.symbolOf owner).isSome = (funds.balances.get? owner).isSome := by
  simp [symbolOf]

theorem put_values {row changed : BalanceWithDust} (found : funds.balances.get? owner = some row)
    (same : changed.balance.symbol = row.balance.symbol) :
    let replaced := { funds with balances := funds.balances.put owner changed }
    (∀ other, replaced.valueOf other = if owner = other then changed.value else funds.valueOf other) ∧
      (∀ other, replaced.symbolOf other = funds.symbolOf other) ∧
      replaced.openTotal + row.value = funds.openTotal + changed.value := by
  refine ⟨fun other => ?_, fun other => ?_, Table.total_put_present _ _ _ _ _ found⟩
  · simp only [valueOf, Table.get?_put]
    split <;> rfl
  · simp only [symbolOf, Table.get?_put]
    split
    · rename_i equal
      rw [← equal, found, Option.map_some, Option.map_some, same]
    · rfl

theorem Loose.credit_values (loose : funds.Loose symbol) (credited : funds.credit owner amount missing = .ok after) :
    (funds.balances.get? owner).isSome = true ∧
      (∀ other, after.valueOf other = funds.valueOf other + if owner = other then amount else 0) ∧
      (∀ other, after.symbolOf other = funds.symbolOf other) ∧ after.openTotal = funds.openTotal + amount ∧
      after.inevm = funds.inevm ∧ after.statistics = funds.statistics := by
  obtain ⟨row, found, changed, added, rfl⟩ := credit_ok.mp credited
  obtain ⟨_, same, _, value⟩ := (loose.balances owner row found).add_spec added
  obtain ⟨values, symbols, total⟩ := put_values found same
  refine ⟨by rw [found]; rfl, fun other => ?_, symbols, by omega, rfl, rfl⟩
  rw [values other]
  split
  · rename_i equal
    rw [← equal, valueOf_of_get? found, value]
  · rfl

theorem Loose.debit_values (loose : funds.Loose symbol) (debited : funds.debit owner amount missing = .ok after) :
    (∀ other, after.valueOf other + (if owner = other then amount else 0) = funds.valueOf other) ∧
      (∀ other, after.symbolOf other = funds.symbolOf other) ∧
      after.inevm = funds.inevm ∧ after.statistics = funds.statistics := by
  obtain ⟨row, found, changed, taken, rfl⟩ := debit_ok.mp debited
  obtain ⟨_, same, _, _, _, value⟩ := (loose.balances owner row found).sub_spec taken
  obtain ⟨values, symbols, _⟩ := put_values found same
  refine ⟨fun other => ?_, symbols, rfl, rfl⟩
  rw [values other]
  split
  · rename_i equal
    rw [← equal, valueOf_of_get? found, value]
  · rfl

theorem Loose.openTotal_lt (loose : funds.Loose symbol) : funds.openTotal < 2 ^ 256 := by
  have bound := Table.total_le_card BalanceWithDust.value (2 ^ 123) funds.balances
    fun owner row found => Nat.le_of_lt (loose.balances owner row found).value_small
  have card : Fintype.card Name = 2 ^ 64 := Fintype.card_fin _
  rw [card] at bound
  unfold openTotal
  omega

end Funds

def receiverOf (message : FilteredMessage) : Option Name :=
  match Bridge.decodeMessage Bridge.maxSize message.data with
  | .ok (some decoded) => decoded.getAccountAsName.toOption
  | _ => none

/-- A bridge message that can be delivered: it decodes to an account that is registered and
open, and it covers the fee the account asks for. -/
structure Deliverable (env : Env) (config : ConfigWrapper) (receivers : Table Name MessageReceiver) (funds : Funds)
    (message : FilteredMessage) (decoded : Bridge.MessageV0) (receiver : Name) (registered : MessageReceiver) :
    Prop where
  decodes : Bridge.decodeMessage Bridge.maxSize message.data = .ok (some decoded)
  names : decoded.getAccountAsName = .ok receiver
  present : env.isAccount receiver = true
  registers : receivers.get? receiver = some registered
  atomic : decoded.forceAtomic = false ∨ registered.flags &&& forceAtomicFlag ≠ 0
  covers : unsigned registered.minFee.amount * config.getTokenSymbol.unit ≤ message.value
  isOpen : (funds.balances.get? receiver).isSome = true

theorem Deliverable.receiverOf {env : Env} {config : ConfigWrapper} {receivers : Table Name MessageReceiver}
    {funds : Funds} {message : FilteredMessage} {decoded : Bridge.MessageV0} {receiver : Name}
    {registered : MessageReceiver}
    (deliverable : Deliverable env config receivers funds message decoded receiver registered) :
    receiverOf message = some receiver := by
  simp [EosEvm.receiverOf, deliverable.decodes, deliverable.names, Except.toOption]

def noticeOf (now : Nat) (message : FilteredMessage) (decoded : Bridge.MessageV0) (receiver : Name)
    (registered : MessageReceiver) : Inline :=
  .onbridgemsg registered.handler {
    receiver := receiver
    sender := message.sender
    timestamp := now
    value := message.value
    data := decoded.data }

def Delivers (env : Env) (config : ConfigWrapper) (receivers : Table Name MessageReceiver) (funds : Funds)
    (message : FilteredMessage) (action : Inline) : Prop :=
  ∃ decoded receiver registered, Deliverable env config receivers funds message decoded receiver registered ∧
    action = noticeOf env.now message decoded receiver registered

theorem Delivers.congr {env : Env} {config : ConfigWrapper} {receivers : Table Name MessageReceiver} {funds other : Funds}
    {message : FilteredMessage} {action : Inline}
    (same : ∀ owner, (other.balances.get? owner).isSome = (funds.balances.get? owner).isSome)
    (delivers : Delivers env config receivers other message action) :
    Delivers env config receivers funds message action := by
  obtain ⟨decoded, receiver, registered, deliverable, rfl⟩ := delivers
  exact ⟨decoded, receiver, registered, { deliverable with isOpen := same receiver ▸ deliverable.isOpen }, rfl⟩

def carries (owner : Name) (message : FilteredMessage) : Bool := receiverOf message == some owner

/-- What the delivery of messages makes of the funds, before the contract is charged. -/
structure Credits (funds after : Funds) (messages : List FilteredMessage) : Prop where
  values : ∀ owner, after.valueOf owner = funds.valueOf owner + selectedValue (carries owner) messages
  symbols : ∀ owner, after.symbolOf owner = funds.symbolOf owner
  total : after.openTotal = funds.openTotal + (messages.map FilteredMessage.value).sum
  inevm : after.inevm = funds.inevm
  statistics : after.statistics = funds.statistics

section Loop

variable {symbol : Symbol} {env : Env} {config : ConfigWrapper} {receivers : Table Name MessageReceiver}
  {funds after : Funds} {sent actions : List Inline} {accumulated total : Nat} {message : FilteredMessage}
  {messages : List FilteredMessage}

theorem minFee_exact (fee : Int) (unit : Nat) (small : unit ≤ 10 ^ 18) : u256 (unsigned fee * unit) = unsigned fee * unit := by
  have word : unsigned fee < 2 ^ 64 := by
    unfold unsigned
    omega
  have product : unsigned fee * unit ≤ 2 ^ 64 * 10 ^ 18 := Nat.mul_le_mul (Nat.le_of_lt word) small
  exact u256_of_lt (by omega)

theorem deliverMessage_exact (loose : funds.Loose symbol)
    (delivered : deliverMessage env config receivers (funds, sent, accumulated) message = .ok (after, actions, total)) :
    after.Loose symbol ∧ Credits funds after [message] ∧ total = u256 (accumulated + message.value) ∧
      ∃ action, actions = sent ++ [action] ∧ Delivers env config receivers funds message action := by
  simp only [deliverMessage, bind_ok, check_ok, require_ok, exists_const, pure_ok, Prod.mk.injEq] at delivered
  obtain ⟨_, decodes, decoded, rfl, receiver, names, present, registered, registers, atomic, unit, unitOk, covers,
    credited, credit, rfl, rfl, rfl⟩ := delivered
  obtain ⟨_, rfl⟩ := BalanceWithDust.pow10Const_ok unitOk
  rw [minFee_exact _ _ (Symbol.unit_le _)] at covers
  obtain ⟨isOpen, values, symbols, openTotal, inevm, statistics⟩ := loose.credit_values credit
  have deliverable : Deliverable env config receivers funds message decoded receiver registered :=
    ⟨decodes, names, present, registers, atomic, covers, isOpen⟩
  refine ⟨loose.move (.credit _ _ _ _ credit), ⟨fun owner => ?_, symbols, ?_, inevm, statistics⟩, rfl, _, rfl,
    decoded, receiver, registered, deliverable, rfl⟩
  · rw [values owner, selectedValue_cons]
    simp only [carries, deliverable.receiverOf, Option.some_beq_some, beq_iff_eq]
    rfl
  · rw [openTotal]
    simp

theorem Credits.trans {middle : Funds} {front back : List FilteredMessage} (first : Credits funds middle front)
    (second : Credits middle after back) : Credits funds after (front ++ back) where
  values owner := by
    rw [second.values, first.values, Nat.add_assoc]
    simp [selectedValue]
  symbols owner := (second.symbols owner).trans (first.symbols owner)
  total := by
    rw [second.total, first.total, Nat.add_assoc]
    simp
  inevm := second.inevm.trans first.inevm
  statistics := second.statistics.trans first.statistics

theorem Credits.opened (credits : Credits funds after messages) (owner : Name) :
    (after.balances.get? owner).isSome = (funds.balances.get? owner).isSome := by
  rw [← Funds.isSome_symbolOf, ← Funds.isSome_symbolOf, credits.symbols]

theorem deliverMessages_exact (loose : funds.Loose symbol) (small : accumulated < 2 ^ 256)
    (delivered : foldOutcome (deliverMessage env config receivers) messages (funds, sent, accumulated) =
      .ok (after, actions, total)) :
    after.Loose symbol ∧ Credits funds after messages ∧
      total = u256 (accumulated + (messages.map FilteredMessage.value).sum) ∧
      ∃ notices, actions = sent ++ notices ∧ List.Forall₂ (Delivers env config receivers funds) messages notices := by
  induction messages generalizing funds sent accumulated with
  | nil =>
      simp only [foldOutcome_nil, Prod.mk.injEq] at delivered
      obtain ⟨rfl, rfl, rfl⟩ := delivered
      exact ⟨loose, ⟨fun _ => rfl, fun _ => rfl, rfl, rfl, rfl⟩, (u256_of_lt small).symm, [], by simp, .nil⟩
  | cons message messages ih =>
      rw [foldOutcome_cons] at delivered
      obtain ⟨⟨middle, noticed, counted⟩, first, rest⟩ := delivered
      obtain ⟨looseMiddle, credits, rfl, action, rfl, delivers⟩ := deliverMessage_exact loose first
      obtain ⟨looseAfter, creditsRest, totalRest, notices, rfl, deliversRest⟩ := ih looseMiddle (u256_lt _) rest
      refine ⟨looseAfter, credits.trans creditsRest, ?_, action :: notices, by simp, .cons delivers ?_⟩
      · rw [totalRest, u256_add_left]
        simp only [List.map_cons, List.sum_cons, Nat.add_assoc]
      · exact deliversRest.imp fun _ _ later => later.congr credits.opened

theorem processFilteredMessages_exact (loose : funds.Loose symbol)
    (processed : processFilteredMessages env config receivers messages funds = .ok (after, sent)) :
    List.Forall₂ (Delivers env config receivers funds) (messages.filter (isBridgeMessage env.self)) sent ∧
      (∀ owner, after.valueOf owner + (if owner = env.self then
            ((messages.filter (isBridgeMessage env.self)).map FilteredMessage.value).sum else 0) =
          funds.valueOf owner + selectedValue (carries owner) (messages.filter (isBridgeMessage env.self))) ∧
      (∀ owner, after.symbolOf owner = funds.symbolOf owner) ∧ after.inevm = funds.inevm ∧
      after.statistics = funds.statistics := by
  simp only [processFilteredMessages, bind_ok, pure_ok, Prod.mk.injEq] at processed
  obtain ⟨⟨credited, actions, total⟩, delivered, settled, debited, rfl, rfl⟩ := processed
  obtain ⟨looseCredited, credits, totalEq, notices, rfl, delivers⟩ := deliverMessages_exact loose (by decide) delivered
  have small := looseCredited.openTotal_lt
  rw [credits.total] at small
  rw [Nat.zero_add, u256_of_lt (by omega)] at totalEq
  simp only at debited
  rw [totalEq] at debited
  refine ⟨delivers, ?_⟩
  simp only [debitDelivered] at debited
  split at debited
  · obtain ⟨values, symbols, inevm, statistics⟩ := looseCredited.debit_values debited
    refine ⟨fun owner => ?_, fun owner => (symbols owner).trans (credits.symbols owner), inevm.trans credits.inevm,
      statistics.trans credits.statistics⟩
    rw [← credits.values owner, ← values owner]
    simp only [eq_comm]
  · rename_i nothing
    cases debited
    refine ⟨fun owner => ?_, credits.symbols, credits.inevm, credits.statistics⟩
    rw [← credits.values owner, show ((messages.filter (isBridgeMessage env.self)).map FilteredMessage.value).sum = 0 by
      omega, ite_self, Nat.add_zero]

end Loop

/-- In every reachable state and after every run of the EVM, for every list of messages: where
they are processed, each bridge message is delivered once, in order, and covers the fee of its
receiver. The balance of each receiver grows by what its messages carry, that of the contract
shrinks by what all carry, and nothing else changes. A bridge message that cannot be delivered
aborts the processing, and the transaction with it. -/
theorem run_delivery_exact (host : Host) (holding : Name → Symbol → Nat) (labels : List Label) (world : World)
    (finished : run host labels (World.start holding) = .ok world) (view : ChainView) (request : Request)
    (call : TxCall) (calls : Calls host view world request call) (tx : Transaction)
    (decoded : call.txn.getTx host.evm = .ok tx) (funds : Funds) (transfers : List Inline) (input : RunInput)
    (output : RunOutput)
    (executed : executeTx (host.env view world.now request)
      (contextOf (host.env view world.now request) call.rc call.miner tx call.contract) call.contract.funds =
        .ok (funds, transfers, input, output)) :
    let env := host.env view world.now request
    let config := (contextOf env call.rc call.miner tx call.contract).config
    let receivers := call.contract.receivers
    (∀ messages after sent, processFilteredMessages env config receivers messages funds = .ok (after, sent) →
        List.Forall₂ (Delivers env config receivers funds) (messages.filter (isBridgeMessage host.self)) sent ∧
          (∀ owner, after.valueOf owner + (if owner = host.self then
                ((messages.filter (isBridgeMessage host.self)).map FilteredMessage.value).sum else 0) =
              funds.valueOf owner + selectedValue (carries owner) (messages.filter (isBridgeMessage host.self))) ∧
          (∀ owner, after.symbolOf owner = funds.symbolOf owner) ∧ after.inevm = funds.inevm ∧
          after.statistics = funds.statistics) ∧
      (∀ messages, (∃ message ∈ messages.filter (isBridgeMessage host.self),
          ¬ ∃ decoded receiver registered, Deliverable env config receivers funds message decoded receiver registered) →
        ∀ result, processFilteredMessages env config receivers messages funds ≠ .ok result) ∧
      ((∃ message ∈ output.filteredMessages.filter (isBridgeMessage host.self),
          ¬ ∃ decoded receiver registered, Deliverable env config receivers funds message decoded receiver registered) →
        ∀ contract, processTx env call.rc call.miner call.txn call.minInclusionPrice call.contract ≠ .ok contract) := by
  intro env config receivers
  have loose : funds.Loose config.getTokenSymbol := by
    have start := calls.loose (run_loose finished)
    unfold Contract.Loose at start
    rw [← contextOf_symbol env call.rc call.miner tx call.contract] at start
    exact start.moves (executeTx_moves executed)
  have aborts : ∀ messages, (∃ message ∈ messages.filter (isBridgeMessage host.self),
      ¬ ∃ decoded receiver registered, Deliverable env config receivers funds message decoded receiver registered) →
        ∀ result, processFilteredMessages env config receivers messages funds ≠ .ok result := by
    rintro messages ⟨message, member, undeliverable⟩ ⟨after, sent⟩ processed
    obtain ⟨delivers, _⟩ := processFilteredMessages_exact loose processed
    have each := (List.forall₂_and_left _ _).mp (delivers.imp fun message action delivered =>
      show (∃ decoded receiver registered, Deliverable env config receivers funds message decoded receiver registered) ∧
          Delivers env config receivers funds message action from
        ⟨delivered.imp fun _ => Exists.imp fun _ => Exists.imp fun _ => And.left, delivered⟩)
    exact undeliverable (each.1 message member)
  refine ⟨fun messages after sent processed => processFilteredMessages_exact loose processed, aborts, ?_⟩
  intro undeliverable contract processed
  obtain ⟨other, otherFunds, _, _, otherOutput, _, _, _, otherDecoded, _, _, _, _, otherExecuted, filtered, _⟩ :=
    processTx_ok processed
  have sameTx : other = tx := Except.ok.inj (otherDecoded.symm.trans decoded)
  subst sameTx
  have same := Except.ok.inj (otherExecuted.symm.trans executed)
  simp only [Prod.mk.injEq] at same
  obtain ⟨rfl, _, _, rfl⟩ := same
  exact aborts _ undeliverable _ filtered

namespace Ledger

def messageForBob : Bytes :=
  Bridge.messageV0Id ++ Abi.digits 32 0x60 ++ Abi.digits 32 0 ++ Abi.digits 32 0xA0 ++ Abi.digits 32 3 ++ bytesOf "bob" ++
    List.replicate 29 0 ++ Abi.digits 32 2 ++ [1, 2] ++ List.replicate 30 0

def registering : List Label :=
  opening ++ pay alice 1000000 "alice" 0 ++ transact (.action none [bob, self] (.bridgereg bob bob ⟨1, eos⟩)) 0

def tellBob : Transaction := { payBob with recipient := some (makeReservedAddress self), data := messageForBob }

def pushTell : Request := .action (some self) [self] (.pushtx self (evm.encodeTransaction tellBob) none)

def pushTellEnv (now : Nat) : Env := host.env view now pushTell

def tellContext (world : World) : TxContext :=
  contextOf (pushTellEnv world.now) (Contract.pushtxConfig (pushTellEnv world.now)) self tellBob
    (refreshPrices (pushTellEnv world.now) world.contract)

def executeTell (world : World) : Outcome (Funds × List Inline × RunInput × RunOutput) :=
  executeTx (pushTellEnv world.now) (tellContext world)
    (refreshPrices (pushTellEnv world.now) world.contract).funds

def deliverTell (world : World) (funds : Funds) (output : RunOutput) : Outcome (Funds × List Inline) :=
  processFilteredMessages (pushTellEnv world.now) (tellContext world).config
    (refreshPrices (pushTellEnv world.now) world.contract).receivers output.filteredMessages funds

def noticeForBob : Inline :=
  .onbridgemsg bob {
    receiver := bob
    sender := makeReservedAddress alice
    timestamp := 1000000000
    value := 200000000000000
    data := [1, 2] }

end Ledger

theorem run_delivery_exact_tellBob :
    ∃ world funds transfers input output after,
      run Ledger.host Ledger.registering (World.start fun _ _ => 0) = .ok world ∧
      Ledger.executeTell world = .ok (funds, transfers, input, output) ∧
      Ledger.deliverTell world funds output = .ok (after, [Ledger.noticeForBob]) ∧
      after.valueOf Ledger.bob = funds.valueOf Ledger.bob + 200000000000000 := by
  obtain ⟨world, reached, seen⟩ := exists_of_view (run Ledger.host Ledger.registering (World.start fun _ _ => 0))
    (fun world => decide ((Ledger.executeTell world).toOption.map (fun result => decide
      (selectedValue (carries Ledger.bob) (result.2.2.2.filteredMessages.filter (isBridgeMessage Ledger.self)) =
          200000000000000 ∧
        (Ledger.deliverTell world result.1 result.2.2.2).toOption.map Prod.snd = some [Ledger.noticeForBob])) =
          some true)) true (by decide +kernel)
  obtain ⟨⟨funds, transfers, input, output⟩, executed, checked⟩ := exists_of_view _ _ _ (of_decide_eq_true seen)
  obtain ⟨carried, delivers⟩ := of_decide_eq_true checked
  obtain ⟨⟨after, sent⟩, delivered, rfl⟩ := exists_of_view _ _ _ delivers
  have values := ((run_delivery_exact Ledger.host _ _ world reached Ledger.view _ _
    (.pushes (some Ledger.self) [Ledger.self] Ledger.self (Ledger.evm.encodeTransaction Ledger.tellBob) none)
    Ledger.tellBob
    (show (Txn.ofRlp (Ledger.evm.encodeTransaction Ledger.tellBob)).getTx Ledger.evm = .ok Ledger.tellBob by
      decide +kernel)
    funds transfers input output executed).1 _ _ _ delivered).2.1 Ledger.bob
  rw [if_neg (by decide), Nat.add_zero] at values
  exact ⟨world, funds, transfers, input, output, after, reached, executed, delivered, values.trans (congrArg _ carried)⟩

end EosEvm

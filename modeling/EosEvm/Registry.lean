import EosEvm.Lib.Replay
import EosEvm.Delivery
import EosEvm.Egress
import EosEvm.Swap
import EosEvm.Debits
import EosEvm.PricesSchedule
import EosEvm.Timeline
import EosEvm.Books

/-! Whom a transaction can reach. An account is told of messages by the handler of its
registration, and an account with code is paid if it is on the allow list. Both tables are what
the last request about the account made them, and such a request has the authority of those it
concerns. -/

namespace EosEvm

open Abort Words

/-- What a request publishes on an account's registration: the handler and the least fee, or
that there is none. -/
def Request.registers (owner : Name) : Request → Option (Option (Name × Int))
  | .action _ _ (.bridgereg receiver handler minFee) =>
      if receiver = owner then some (some (handler, minFee.amount)) else none
  | .action _ _ (.bridgeunreg receiver) => if receiver = owner then some none else none
  | _ => none

/-- What a request publishes on whether an account is on the allow list. -/
def Request.lists (owner : Name) : Request → Option Bool
  | .action _ _ (.addegress accounts) => if accounts.contains owner then some true else none
  | .action _ _ (.removeegress accounts) => if accounts.contains owner then some false else none
  | _ => none

def Request.Enrols (self : Name) : Request → Prop
  | .action _ auths (.bridgereg receiver _ minFee) => receiver ∈ auths ∧ self ∈ auths ∧ 0 ≤ minFee.amount
  | .action _ auths (.bridgeunreg receiver) => receiver ∈ auths
  | .action _ auths (.addegress _) => self ∈ auths
  | .action _ auths (.removeegress _) => self ∈ auths
  | _ => True

/-- The actions on the two tables, and `open`, in which a registration ends. -/
def Action.isEnrolment : Action → Bool
  | .open _ => true
  | .bridgereg _ _ _ => true
  | .bridgeunreg _ => true
  | .addegress _ => true
  | .removeegress _ => true
  | .swapgastoken _ _ _ _ => true
  | _ => false

def Request.isEnrolment : Request → Bool
  | .action _ _ requested => requested.isEnrolment
  | .transfer _ _ _ _ _ => false

def MessageReceiver.terms (row : MessageReceiver) : Name × Int := (row.handler, row.minFee.amount)

namespace Contract

def standing (contract : Contract) (owner : Name) : Option (Name × Int) × Bool :=
  ((contract.receivers.get? owner).map MessageReceiver.terms, (contract.egresslist.get? owner).isSome)

def SameLists (before after : Contract) : Prop :=
  after.receivers = before.receivers ∧ after.egresslist = before.egresslist

variable {env : Env} {before after : Contract}

theorem SameLists.trans {first second third : Contract} (one : first.SameLists second) (two : second.SameLists third) :
    first.SameLists third := ⟨two.1.trans one.1, two.2.trans one.2⟩

theorem SameLists.standing (same : before.SameLists after) (owner : Name) :
    after.standing owner = before.standing owner := by
  rw [Contract.standing, Contract.standing, same.1, same.2]

theorem refreshPrices_sameLists (env : Env) (before : Contract) : before.SameLists (refreshPrices env before) := by
  rw [refreshPrices_eq]
  exact ⟨rfl, rfl⟩

theorem openInternalBalance_sameLists {owner : Name} (opened : openInternalBalance owner before = .ok after) :
    before.SameLists after := by
  obtain ⟨_, _, rfl⟩ := openInternalBalance_ok opened
  exact ⟨rfl, rfl⟩

theorem processTx_sameLists {rc : RuntimeConfig} {miner : Name} {txn : Txn} {minPrice : Option Nat}
    (processed : processTx env rc miner txn minPrice before = .ok after) : before.SameLists after := by
  obtain ⟨_, _, _, _, _, _, _, _, _, _, _, _, _, _, _, _, rfl⟩ := processTx_ok processed
  exact ⟨rfl, rfl⟩

theorem Bridges.sameLists {request : Request} {payer : Option Name} {tx : Transaction} {middle : Contract}
    (bridges : Bridges env before request payer tx middle) : before.SameLists middle := by
  cases bridges with
  | call | callotherpay =>
      rw [refreshPrices_eq]
      exact ⟨rfl, rfl⟩
  | admincall _ _ _ _ _ _ _ _ address _ numbered _ numbers =>
      obtain ⟨_, rfl, _⟩ := adminNonce_ok numbers
      rw [refreshPrices_eq]
      exact ⟨rfl, rfl⟩
  | ingress token sender quantity memo _ _ received recorded deposited records =>
      obtain ⟨_, rfl⟩ := recordIngressFee_ok records
      obtain ⟨_, _, _, _, rfl⟩ := deposit_ok deposited
      rw [refreshPrices_eq]
      exact ⟨rfl, rfl⟩

theorem Does.sameLists {request : Request} (other : request.isEnrolment = false)
    (did : Does env before request after) : before.SameLists after := by
  cases did with
  | init caller auths chainid fees tokenContract after ran =>
      obtain ⟨_, _, _, _, _, opened⟩ := init_ok ran
      have same := openInternalBalance_sameLists opened
      exact same
  | configures | edits | idles | announces | replies => exact ⟨rfl, rfl⟩
  | swaps => cases other
  | lists caller auths requested _ _ listing =>
      cases requested <;> first | exact listing.elim | cases other
  | opens caller auths requested owner receivers after opening =>
      cases requested <;> first | exact opening.elim | cases other
  | closes caller auths owner after ran =>
      obtain ⟨_, _, _, _, _, _, rfl⟩ := close_ok ran
      exact ⟨rfl, rfl⟩
  | withdraws caller auths owner quantity recipient after ran =>
      obtain ⟨_, _, _, _, _, _, _, _, rfl⟩ := withdraw_ok ran
      exact ⟨rfl, rfl⟩
  | deposits token sender quantity memo receiver after deposited =>
      obtain ⟨_, _, _, _, rfl⟩ := deposit_ok deposited
      rw [refreshPrices_eq]
      exact ⟨rfl, rfl⟩
  | adjustsEvm caller auths id delta subtract after ran =>
      obtain ⟨_, _, _, _, _, _, _,  rfl⟩ := addevmbal_ok ran
      exact ⟨rfl, rfl⟩
  | adjustsOpen caller auths account delta subtract after ran =>
      obtain ⟨_, _, _, _,  rfl⟩ := addopenbal_ok ran
      exact ⟨rfl, rfl⟩
  | migrates caller auths fromName limit after ran =>
      obtain ⟨_, _, _, _, _, rfl⟩ := migratebal_ok ran
      exact ⟨rfl, rfl⟩
  | pushes caller auths miner rlptx minPrice after ready processed =>
      exact (refreshPrices_sameLists env before).trans (processTx_sameLists processed)
  | bridges request payer tx middle after ready bridges dispatched =>
      refine bridges.sameLists.trans ?_
      rcases dispatchTx_ok dispatched with ⟨_, processed⟩ | ⟨_, _, rfl⟩
      · have same := processTx_sameLists processed
        exact same
      · exact ⟨rfl, rfl⟩

theorem addAll_isSome (accounts : List Name) (listed : Table Name Unit) (owner : Name) :
    ((accounts.foldl (fun listed account => listed.put account ()) listed).get? owner).isSome =
      if accounts.contains owner then true else (listed.get? owner).isSome := by
  induction accounts generalizing listed with
  | nil => rfl
  | cons account accounts ih =>
      rw [List.foldl_cons, ih, Table.get?_put]
      by_cases same : account = owner <;> by_cases member : owner ∈ accounts <;> simp [same, member, Ne.symm]

theorem removeAll_isSome (accounts : List Name) (listed : Table Name Unit) (owner : Name) :
    ((accounts.foldl (fun listed account => listed.erase account) listed).get? owner).isSome =
      if accounts.contains owner then false else (listed.get? owner).isSome := by
  induction accounts generalizing listed with
  | nil => rfl
  | cons account accounts ih =>
      rw [List.foldl_cons, ih, Table.get?_erase]
      by_cases same : account = owner <;> by_cases member : owner ∈ accounts <;> simp [same, member, Ne.symm]

theorem swapgastoken_egresslist {newTokenContract : Name} {newSymbol : Symbol} {swapDestAccount : Name}
    {swapMemo : Bytes} (ran : swapgastoken env newTokenContract newSymbol swapDestAccount swapMemo before = .ok after) :
    after.egresslist = before.egresslist := by
  obtain ⟨_, _, _, _, _, _, migrated, ran⟩ := swapgastoken_ok ran
  obtain ⟨_, _, _, _, _, rfl⟩ := migratebal_ok migrated
  rcases ran with rfl | ⟨_, rfl⟩ <;> rfl

/-- Handling a request changes what it publishes on an account, and nothing else of the two. -/
theorem run_standing {request : Request} (ran : request.run env before = .ok after) (owner : Name) :
    after.standing owner =
      ((request.registers owner).getD (before.standing owner).1, (request.lists owner).getD (before.standing owner).2) := by
  cases enrolment : request.isEnrolment with
  | false =>
      rw [((Request.run_does ran).sameLists enrolment).standing]
      cases request with
      | transfer => rfl
      | action caller auths requested => cases requested <;> first | rfl | cases enrolment
  | true =>
      cases request with
      | transfer => cases enrolment
      | action caller auths requested =>
          simp only [Request.run] at ran
          cases requested with
          | addegress accounts =>
              simp only [Action.run, addegress, bind_ok, pure_ok] at ran
              obtain ⟨_, _, _, _, rfl⟩ := ran
              simp only [standing, addAll_isSome, Request.registers, Request.lists, Option.getD_none]
              split <;> rfl
          | removeegress accounts =>
              simp only [Action.run, removeegress, bind_ok, pure_ok] at ran
              obtain ⟨_, _, _, _, rfl⟩ := ran
              simp only [standing, removeAll_isSome, Request.registers, Request.lists, Option.getD_none]
              split <;> rfl
          | «open» name =>
              simp only [Action.run, Contract.open, bind_ok] at ran
              obtain ⟨_, _, _, _, opened⟩ := ran
              exact (openInternalBalance_sameLists opened).standing owner
          | bridgereg receiver handler minFee =>
              simp only [Action.run, bridgereg, Contract.open, bind_ok] at ran
              obtain ⟨_, _, _, _, _, _, _, _, _, _, _, _, _, _, opened⟩ := ran
              rw [(openInternalBalance_sameLists opened).standing]
              simp only [standing, Table.get?_put, Request.registers, Request.lists, Option.getD_none]
              split <;> rfl
          | bridgeunreg receiver =>
              simp only [Action.run, bridgeunreg, bind_ok, pure_ok] at ran
              obtain ⟨_, _, _, _, _, _, rfl⟩ := ran
              simp only [standing, Table.get?_erase, Request.registers, Request.lists, Option.getD_none]
              split <;> rfl
          | swapgastoken newTokenContract newSymbol swapDestAccount swapMemo =>
              have listed := swapgastoken_egresslist ran
              rw [standing, (swapgastoken_renames ran).receivers, listed, Option.map_map]
              rfl
          | _ => cases enrolment

end Contract

/-- A request on the two tables has the authority it needs. -/
theorem Request.run_enrols {env : Env} {request : Request} {before after : Contract}
    (sees : ∀ name, name ∈ env.auths → name ∈ request.auths) (ran : request.run env before = .ok after) :
    request.Enrols env.self := by
  unfold Request.Enrols
  split
  · rename_i caller auths receiver handler minFee
    simp only [Request.run, Action.run, Contract.bridgereg, bind_ok, requireAuth_ok, check_ok, exists_const] at ran
    obtain ⟨_, _, receiving, owning, _, nonneg, _⟩ := ran
    exact ⟨sees _ receiving, sees _ owning, nonneg⟩
  · rename_i caller auths receiver
    simp only [Request.run, Action.run, Contract.bridgeunreg, bind_ok, requireAuth_ok, exists_const] at ran
    obtain ⟨_, _, receiving, _⟩ := ran
    exact sees _ receiving
  · simp only [Request.run, Action.run, Contract.addegress, bind_ok, requireAuth_ok, exists_const] at ran
    obtain ⟨_, _, owning, _⟩ := ran
    exact sees _ owning
  · simp only [Request.run, Action.run, Contract.removeegress, bind_ok, requireAuth_ok, exists_const] at ran
    obtain ⟨_, _, owning, _⟩ := ran
    exact sees _ owning
  · trivial

/-- What the tables say of an account is what was published last. -/
structure World.Enrolled (host : Host) (world : World) (log : List Request) : Prop where
  standing : ∀ owner, world.contract.standing owner =
    (Replay.latest (Request.registers owner) none log, Replay.latest (Request.lists owner) false log)
  authorised : ∀ request ∈ log, request.Enrols host.self

theorem World.Enrolled.step {host : Host} {world next : World} {label : Label} {log : List Request}
    (enrolled : world.Enrolled host log) (stepped : Stepped host world label next) :
    next.Enrolled host (log ++ entries host served world label) := by
  cases stepped with
  | tick | submit =>
      rw [entries, List.append_nil]
      exact ⟨enrolled.standing, enrolled.authorised⟩
  | passed view before after sent rest top away =>
      rw [entries_passed _ top away, List.append_nil]
      exact ⟨enrolled.standing, enrolled.authorised⟩
  | handled view before after request rest holding contract handled =>
      rw [entries_handled _ handled]
      refine ⟨fun owner => ?_, ?_⟩
      · have changed := Contract.run_standing handled.ran owner
        have loaded : (world.handled before after request rest holding contract).contract.standing owner =
            contract.standing owner := rfl
        rw [loaded, changed, Replay.latest_append, Replay.latest_append]
        have start := enrolled.standing owner
        rw [show Contract.load world.tables = world.contract from rfl, start]
        rfl
      · have sees : ∀ name, name ∈ (host.env view world.now request).auths → name ∈ request.auths := by
          cases request <;> exact fun _ member => member
        intro other member
        rcases List.mem_append.mp member with earlier | now
        · exact enrolled.authorised other earlier
        · rw [List.mem_singleton.mp now]
          exact Request.run_enrols sees handled.ran

theorem run_enrolled {host : Host} {holding : Name → Symbol → Nat} {labels : List Label} {world : World}
    (finished : run host labels (World.start holding) = .ok world) :
    world.Enrolled host (noted host served labels (World.start holding)) := by
  have start : (World.start holding).Enrolled host [] := ⟨fun _ => rfl, fun _ member => by cases member⟩
  have reached := run_journal (fun _ => True) served (fun world log => world.Enrolled host log)
    (fun _ _ _ _ _ enrolled stepped => enrolled.step stepped) start (fun _ _ => trivial) finished
  exact reached

section Reach

variable {env : Env} {config : ConfigWrapper} {receivers : Table Name MessageReceiver} {funds after : Funds}
  {sent : List Inline}

def Registered (unit : Nat) (receivers : Table Name MessageReceiver) (action : Inline) : Prop :=
  ∃ handler notice registered, action = .onbridgemsg handler notice ∧
    receivers.get? notice.receiver = some registered ∧ registered.handler = handler ∧
    unsigned registered.minFee.amount * unit ≤ notice.value

theorem processFilteredMessages_registered {messages : List FilteredMessage}
    (processed : processFilteredMessages env config receivers messages funds = .ok (after, sent)) :
    ∀ action ∈ sent, Registered config.getTokenSymbol.unit receivers action := by
  simp only [processFilteredMessages, bind_ok, pure_ok, Prod.mk.injEq] at processed
  obtain ⟨delivered, folded, _, _, _, rfl⟩ := processed
  refine foldOutcome_invariant (deliverMessage env config receivers)
    (fun state => ∀ action ∈ state.2.1, Registered config.getTokenSymbol.unit receivers action) _ _ _ ?_
    (fun _ member => by cases member) folded
  intro state message reached _ held step
  simp only [deliverMessage, bind_ok, check_ok, require_ok, exists_const, pure_ok] at step
  obtain ⟨_, _, decoded, rfl, receiver, _, _, registered, found, _, unit, unitOk, covers, _, _, rfl⟩ := step
  obtain ⟨_, rfl⟩ := BalanceWithDust.pow10Const_ok unitOk
  rw [minFee_exact _ _ (Symbol.unit_le _)] at covers
  intro action member
  rcases List.mem_append.mp member with earlier | now
  · exact held action earlier
  · exact ⟨_, _, registered, List.mem_singleton.mp now, found, rfl, covers⟩

def Payable (env : Env) (egresslist : Table Name Unit) (funds : Funds) (action : Inline) : Prop :=
  ∃ token recipient quantity memo, action = .transfer token recipient quantity memo ∧
    funds.balances.get? recipient = none ∧ env.isAccount recipient = true ∧
    (env.hasCode recipient = false ∨ (egresslist.get? recipient).isSome = true)

theorem executeTx_forwards {context : TxContext} {input : RunInput} {output : RunOutput}
    (executed : executeTx env context funds = .ok (after, sent, input, output)) :
    ∀ object ∈ output.reservedObjects, object.2.balance ≠ 0 → funds.balances.get? object.1 = none →
      Forwards env context.egresslist context.config.getTokenSymbol.unit output.filteredMessages object.1
        object.2.balance := by
  obtain ⟨charged, fromSelf, begun, _, _, settled⟩ := executeTx_ok executed
  obtain ⟨sender, funded, _, prepared, rfl⟩ := beginTx_ok begun
  have moves : Funds.Moves Symbol.none funds charged := prepareSender_moves prepared
  obtain ⟨_, left, _, egressed, _⟩ := settleTx_egress settled
  intro object member nonzero closed
  have stillClosed : charged.balances.get? object.1 = none := by
    have same := moves.opened.1 object.1
    rw [closed] at same
    simpa using same
  simp only [egressFunds] at egressed
  split at egressed
  · rename_i nothing
    simp [nothing] at member
  · simp only [bind_ok, pure_ok, Prod.mk.injEq] at egressed
    obtain ⟨unit, unitOk, egress, folded, _⟩ := egressed
    obtain ⟨_, rfl⟩ := BalanceWithDust.pow10Const_ok unitOk
    have inv := (Egressing.begin context.config.getTokenSymbol.unit output.filteredMessages).fold folded
    exact inv.forwards object member nonzero stillClosed

theorem executeTx_payable {context : TxContext} {input : RunInput} {output : RunOutput}
    (executed : executeTx env context funds = .ok (after, sent, input, output)) :
    ∀ action ∈ sent, Payable env context.egresslist funds action := by
  intro action member
  rw [executeTx_transfers executed] at member
  obtain ⟨message, selected, rfl⟩ := List.mem_map.mp member
  obtain ⟨object, present, nonzero, closed, here⟩ := exists_of_sendsTo (List.mem_filter.mp selected).2
  have forwards := executeTx_forwards executed object present nonzero closed
  have recipient : (extractReservedAddress message.receiver).getD 0 = object.1 := by
    rw [eq_of_beq here, extractReservedAddress_makeReservedAddress, Option.getD_some]
  rw [recipient]
  exact ⟨_, _, _, _, rfl, closed, forwards.present, forwards.allowed⟩

theorem processTx_reaches {rc : RuntimeConfig} {miner : Name} {txn : Txn} {minPrice : Option Nat}
    {before after : Contract} {action : Inline} (fresh : before.effects = [])
    (processed : processTx env rc miner txn minPrice before = .ok after) (member : .sent action ∈ after.effects)
    (payment : action.isPayment = true) :
    Registered before.config.getTokenSymbol.unit before.receivers action ∨
      Payable env before.egresslist before.funds action := by
  obtain ⟨tx, funds, transfers, input, output, delivered, notices, db, _, _, _, _, _, executed, filtered, _, rfl⟩ :=
    processTx_ok processed
  rw [← mem_sentActions] at member
  simp only [fresh, List.nil_append, sentActions_append, sentActions_sent, sentActions_ran, List.append_nil,
    List.mem_append] at member
  have symbol : ((before.config.promoteEvmVersion env.now).2.promoteConsensusParam env.now).2.2.getTokenSymbol =
      before.config.getTokenSymbol := ConfigWrapper.getTokenSymbol_of_token (by simp)
  rcases member with (transfer | notice) | event
  · exact Or.inr (executeTx_payable executed action transfer)
  · exact Or.inl (symbol ▸ processFilteredMessages_registered filtered action notice)
  · rcases mem_txEvents event with ⟨_, rfl⟩ | ⟨_, rfl⟩ <;> cases payment

end Reach

section Steps

variable {host : Host} {view : ChainView} {world next : World} {request : Request}

theorem Calls.keepsLists {call : TxCall} (calls : Calls host view world request call) :
    world.contract.SameLists call.contract ∧ call.contract.effects = [] ∧
      call.contract.config.getTokenSymbol = world.contract.config.getTokenSymbol ∧
      ∀ owner, (call.contract.funds.balances.get? owner).isSome = (world.contract.funds.balances.get? owner).isSome := by
  cases calls with
  | pushes =>
      refine ⟨Contract.refreshPrices_sameLists _ _, ?_, ?_, fun owner => ?_⟩
      · rw [Contract.refreshPrices_eq]
        rfl
      · refine ConfigWrapper.getTokenSymbol_of_token ?_
        rw [refreshPrices_config, ConfigWrapper.refresh_token]
      · rw [Contract.refreshPrices_eq]
  | bridges _ payer tx middle bridges positive =>
      refine ⟨bridges.sameLists, bridges.effects.1, ?_, bridges.opened.1⟩
      obtain ⟨start, started, same⟩ := bridges.config
      refine ConfigWrapper.getTokenSymbol_of_token ?_
      rcases started with rfl | rfl <;> simp [same, ConfigWrapper.refresh_token]

theorem Handled.reaches {others later : List Request} {rest : List Pending} {holding : Name → Symbol → Nat}
    {contract : Contract} {execution : Execution} {action : Inline}
    (handled : Handled host view others later request rest holding contract world)
    (executed : .ran execution ∈ contract.effects) (member : .sent action ∈ contract.effects)
    (payment : action.isPayment = true) :
    Registered world.tables.tokenSymbol.unit world.tables.receivers action ∨
      Payable (host.env view world.now request) world.tables.egresslist world.tables.funds action := by
  rcases handled.calls with silent | ⟨call, calls, processed⟩
  · exact absurd executed (silent execution)
  · obtain ⟨⟨receivers, egresslist⟩, fresh, symbol, opened⟩ := calls.keepsLists
    have reaches := processTx_reaches fresh processed member payment
    rw [receivers, egresslist, symbol] at reaches
    refine reaches.imp id ?_
    rintro ⟨token, recipient, quantity, memo, form, closed, present, allowed⟩
    have same : _ = (world.tables.funds.balances.get? recipient).isSome := opened recipient
    rw [closed] at same
    exact ⟨token, recipient, quantity, memo, form, by simpa using same.symm, present, allowed⟩

theorem Handled.executes {others later : List Request} {rest : List Pending} {holding : Name → Symbol → Nat}
    {contract : Contract} {handler : Name} {notice : BridgeMessage}
    (handled : Handled host view others later request rest holding contract world)
    (member : .sent (.onbridgemsg handler notice) ∈ contract.effects) : ∃ execution, .ran execution ∈ contract.effects := by
  have leaves := (Request.run_does handled.ran).leaves rfl
  generalize contract.effects = effects at leaves member
  cases leaves with
  | nothing => cases member
  | pays | replies | dispatches => simp at member
  | executes _ _ execution executed =>
      obtain ⟨_, _, _, rfl, _⟩ := executed.recorded
      exact ⟨execution, by simp⟩

/-- What a step adds to the history. -/
def World.since (earlier world : World) : List Effect := world.history.drop earlier.history.length

theorem World.since_handled {others later : List Request} {rest : List Pending} {holding : Name → Symbol → Nat}
    {contract : Contract} : world.since (world.handled others later request rest holding contract) = contract.effects := by
  simp [World.since, World.handled]

theorem Stepped.of_since {label : Label} {effect : Effect} (stepped : Stepped host world label next)
    (member : effect ∈ world.since next) :
    ∃ view others later request rest holding contract, label = .next view others later ∧
      Handled host view others later request rest holding contract world ∧ world.since next = contract.effects := by
  cases stepped with
  | tick | submit | passed => simp [World.since] at member
  | handled view others later request rest holding contract handled =>
      exact ⟨view, others, later, request, rest, holding, contract, rfl, handled, World.since_handled⟩

theorem World.Enrolled.listing {log : List Request} {owner : Name} (enrolled : world.Enrolled host log)
    (found : (world.tables.egresslist.get? owner).isSome = true) :
    ∃ front caller auths accounts back, log = front ++ .action caller auths (.addegress accounts) :: back ∧
      owner ∈ accounts ∧ host.self ∈ auths ∧ ∀ request ∈ back, request.lists owner = none := by
  have standing : (world.tables.egresslist.get? owner).isSome = Replay.latest (Request.lists owner) false log :=
    congrArg Prod.snd (enrolled.standing owner)
  rw [found] at standing
  rcases Replay.latest_cases (Request.lists owner) false log with start | ⟨front, entry, back, rfl, published, silent⟩
  · rw [start] at standing
    cases standing
  · rw [← standing] at published
    have authority := enrolled.authorised entry (by simp)
    unfold Request.lists at published
    split at published
    · rename_i caller auths accounts
      split at published
      · rename_i member
        exact ⟨front, caller, auths, accounts, back, rfl, List.contains_iff_mem.mp member, authority, silent⟩
      · cases published
    · split at published <;> cases published
    · cases published

end Steps

namespace Ledger

def callReserved (account : Name) (data : Bytes) : List Label :=
  [.submit [.action none [alice] (.call alice (Abi.digits 20 (makeReservedAddress account).toNat)
    (Abi.digits 32 200000000000000) data 100000)], .next view [] []]

end Ledger

/-- Whatever the EVM does, a transaction pays an account outside only if the account has no open
balance, exists and, where it has code, was put on the allow list by the contract in the last
request on it. -/
theorem run_payments_listed (host : Host) (holding : Name → Symbol → Nat) (labels : List Label) (world next : World)
    (finished : run host labels (World.start holding) = .ok world) (view : ChainView) (others later : List Request)
    (stepped : step host world (.next view others later) = .ok next) (execution : Execution)
    (executed : .ran execution ∈ world.since next) (token recipient : Name) (quantity : Asset) (memo : Bytes)
    (sent : .sent (.transfer token recipient quantity memo) ∈ world.since next) :
    world.tables.funds.balances.get? recipient = none ∧ view.isAccount recipient = true ∧
      (view.hasCode recipient = true → ∃ front caller auths accounts back,
        noted host served labels (World.start holding) = front ++ .action caller auths (.addegress accounts) :: back ∧
        recipient ∈ accounts ∧ host.self ∈ auths ∧ ∀ request ∈ back, request.lists recipient = none) := by
  obtain ⟨_, _, _, request, rest, moved, contract, ⟨⟩, handled, leaves⟩ := (step_ok stepped).of_since sent
  rw [leaves] at sent executed
  rcases handled.reaches executed sent rfl with ⟨_, _, _, ⟨⟩, _⟩ | ⟨_, _, _, _, ⟨⟩, closed, present, allowed⟩
  refine ⟨closed, present, fun hasCode => ?_⟩
  rcases allowed with plain | listed
  · exact absurd (hasCode.symm.trans plain) (by decide)
  · exact (run_enrolled finished).listing listed

namespace Ledger

def allowing : List Label :=
  opening ++ pay alice 1000000 "alice" 0 ++ act self (.addegress [bob]) 0 ++ callReserved bob (bytesOf "memo")

def codeView : ChainView := { view with hasCode := fun _ => true }

def paymentToBob : Effect := .sent (.transfer defaultTokenAccount bob ⟨2, eos⟩ (bytesOf "memo"))

end Ledger

theorem run_payments_listed_bob : ∃ world next,
    run Ledger.host Ledger.allowing (World.start fun _ _ => 0) = .ok world ∧
    step Ledger.host world (.next Ledger.codeView [] []) = .ok next ∧ Ledger.paymentToBob ∈ world.since next ∧
    ∃ caller auths accounts, .action caller auths (.addegress accounts) ∈
      noted Ledger.host served Ledger.allowing (World.start fun _ _ => 0) ∧ Ledger.bob ∈ accounts := by
  obtain ⟨world, finished, seen⟩ := exists_of_view (run Ledger.host Ledger.allowing (World.start fun _ _ => 0))
    (fun world => (step Ledger.host world (.next Ledger.codeView [] [])).toOption.map fun next =>
      decide (Ledger.paymentToBob ∈ world.since next ∧ executions (world.since next) ≠ [])) (some true)
    (by decide +kernel)
  obtain ⟨next, stepped, paid⟩ := exists_of_view _ _ _ seen
  obtain ⟨sent, nonempty⟩ := of_decide_eq_true paid
  obtain ⟨execution, member⟩ := List.exists_mem_of_ne_nil _ nonempty
  obtain ⟨_, _, listed⟩ := run_payments_listed Ledger.host _ _ world next finished _ _ _ stepped execution
    (mem_executions member) _ _ _ _ sent
  obtain ⟨front, caller, auths, accounts, back, log, owner, _⟩ := listed rfl
  exact ⟨world, next, finished, stepped, sent, caller, auths, accounts, by simp [log], owner⟩

end EosEvm

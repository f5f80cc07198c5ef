import EosEvm.Lib.Slots
import EosEvm.Host
import EosEvm.Reconfigure
import EosEvm.LedgerCore

/-! The accounts of the contract as machines of their own. What the contract keeps for an account
is a balance, a counter and a registration; opening, closing, depositing, withdrawing, registering
and their checks are steps of the one account they name. The contract refines the machines side by
side: a sequence of such requests does to each account what its own requests do, in whatever order
the requests of different accounts arrive. -/

namespace EosEvm

open Abort

/-- What the contract keeps for one account. -/
structure AccountState where
  balance : Option BalanceWithDust
  nonce : Option Nat
  receiver : Option MessageReceiver
  deriving DecidableEq

/-- What an account can be asked to do by itself. -/
inductive AccountOp
  | «open»
  | close
  | withdraw (quantity : Asset)
  | deposit (quantity : Asset)
  | register (row : MessageReceiver)
  | unregister
  | assertnonce (nextNonce : Nat)
  deriving DecidableEq

namespace AccountState

def openBalance (symbol : Symbol) : Option BalanceWithDust → Outcome BalanceWithDust
  | some row => .ok row
  | none => do
      let zero ← Asset.make 0 symbol
      return { balance := zero }

def opened (symbol : Symbol) (account : AccountState) : Outcome AccountState := do
  let balance ← openBalance symbol account.balance
  return { account with balance := some balance, nonce := some (account.nonce.getD 0) }

/-- One step of an account. -/
def apply (symbol : Symbol) (account : AccountState) : AccountOp → Outcome AccountState
  | .open => account.opened symbol
  | .close => do
      let row ← require account.balance "account is not open"
      check (row.isZero = true) "cannot close because balance is not zero"
      let nonce ← require account.nonce missingKey
      return { account with balance := none, nonce := if nonce = 0 then none else some nonce }
  | .withdraw quantity => do
      let row ← require account.balance "account is not open"
      check (quantity.amount ≤ row.balance.amount) "overdrawn balance"
      let balance ← { row.balance with symbol := symbol }.sub quantity
      return { account with balance := some { row with balance := balance } }
  | .deposit quantity => do
      let row ← require account.balance "receiving account has not been opened"
      let balance ← row.balance.add quantity
      return { account with balance := some { row with balance := balance } }
  | .register row => ({ account with receiver := some row } : AccountState).opened symbol
  | .unregister => do
      let _ ← require account.receiver "receiver not found"
      return { account with receiver := none }
  | .assertnonce nextNonce => do
      check (account.nonce.getD 0 = nextNonce) "wrong nonce"
      return account

end AccountState

/-- The account that a request is about and what it asks of it, if it asks nothing else and has
the authority for it. -/
def Request.accountOp (self : Name) (config : ConfigWrapper) : Request → Option (Name × AccountOp)
  | .action _ auths (.open owner) => if auths.contains owner then some (owner, .open) else none
  | .action _ auths (.close owner) => if auths.contains owner ∧ owner ≠ self then some (owner, .close) else none
  | .action _ auths (.withdraw owner quantity _) =>
      if auths.contains owner ∧ config.getTokenSymbol = quantity.symbol then some (owner, .withdraw quantity) else none
  | .action _ auths (.bridgereg receiver handler minFee) =>
      if auths.contains receiver ∧ auths.contains self ∧ minFee.symbol = config.getTokenSymbol ∧ 0 ≤ minFee.amount then
        some (receiver, .register { handler := handler, minFee := minFee, flags := forceAtomicFlag })
      else none
  | .action _ auths (.bridgeunreg receiver) => if auths.contains receiver then some (receiver, .unregister) else none
  | .action _ _ (.assertnonce account nextNonce) => some (account, .assertnonce nextNonce)
  | .transfer token sender recipient quantity memo =>
      if recipient = self ∧ sender ≠ self ∧ token = config.cached.tokenContract ∧
          quantity.symbol = config.getTokenSymbol ∧ memo ≠ [] ∧ memo.length ≤ 13 then
        (nameOf memo).toOption.map fun receiver => (receiver, .deposit quantity)
      else none
  | _ => none

/-- What is kept for an account. -/
def Tables.account (tables : Tables) (owner : Name) : AccountState where
  balance := tables.funds.balances.get? owner
  nonce := tables.nextnonces.get? owner
  receiver := tables.receivers.get? owner

def Tables.setAccount (tables : Tables) (owner : Name) (account : AccountState) : Tables :=
  { tables with
    funds := { tables.funds with balances := tables.funds.balances.assign owner account.balance }
    nextnonces := tables.nextnonces.assign owner account.nonce
    receivers := tables.receivers.assign owner account.receiver }

/-- The tables without the accounts. -/
def Tables.withoutAccounts (tables : Tables) : Tables :=
  { tables with
    funds := { tables.funds with balances := Table.empty }
    nextnonces := Table.empty
    receivers := Table.empty }

def accountSlots : Slots Tables Name AccountState Tables where
  read := Tables.account
  write := Tables.setAccount
  shared := Tables.withoutAccounts
  read_write tables owner account other := by
    simp only [Tables.account, Tables.setAccount, Table.get?_assign]
    split <;> rfl
  shared_write _ _ _ := rfl
  ext first second same reads := by
    obtain ⟨_, _, _, ⟨balances, _, _⟩, nextnonces, _, receivers, _⟩ := first
    obtain ⟨_, _, _, ⟨otherBalances, _, _⟩, otherNonces, _, otherReceivers, _⟩ := second
    simp only [Tables.withoutAccounts, Tables.mk.injEq, Funds.mk.injEq, true_and] at same
    simp only [Tables.account, AccountState.mk.injEq] at reads
    simp only [Tables.mk.injEq, Funds.mk.injEq]
    have balance := Table.ext_get? fun owner => (reads owner).1
    have nonce := Table.ext_get? fun owner => (reads owner).2.1
    have receiver := Table.ext_get? fun owner => (reads owner).2.2
    tauto

/-- Handle a request on the tables alone. -/
def handleRequest (host : Host) (now : Nat) (tables : Tables) (item : ChainView × Request) : Outcome Tables := do
  let contract ← item.2.run (host.env item.1 now item.2) (Contract.load tables)
  return contract.store tables

theorem Handled.tables {host : Host} {view : ChainView} {before after : List Request} {request : Request}
    {rest : List Pending} {holding : Name → Symbol → Nat} {contract : Contract} {world : World}
    (handled : Handled host view before after request rest holding contract world) :
    handleRequest host world.now world.tables (view, request) =
      .ok (world.handled before after request rest holding contract).tables := by
  simp only [handleRequest, handled.ran, ok_bind]
  rfl

namespace Contract

/-- What is kept for an account while an action runs. -/
def account (contract : Contract) (owner : Name) : AccountState where
  balance := contract.funds.balances.get? owner
  nonce := contract.nextnonces.get? owner
  receiver := contract.receivers.get? owner

def setAccount (contract : Contract) (owner : Name) (account : AccountState) : Contract :=
  { contract with
    funds := { contract.funds with balances := contract.funds.balances.assign owner account.balance }
    nextnonces := contract.nextnonces.assign owner account.nonce
    receivers := contract.receivers.assign owner account.receiver }

variable (contract : Contract) (owner : Name)

theorem setAccount_balance (row : BalanceWithDust) :
    contract.setAccount owner { contract.account owner with balance := some row } =
      { contract with funds := { contract.funds with balances := contract.funds.balances.put owner row } } := by
  simp only [setAccount, account, Table.assign_get?]
  rfl

theorem openInternalBalance_eq :
    openInternalBalance owner contract =
      ((contract.account owner).opened contract.config.getTokenSymbol).map (contract.setAccount owner) := by
  have nonces : contract.nextnonces.assign owner (some ((contract.nextnonces.get? owner).getD 0)) =
      if (contract.nextnonces.get? owner).isSome then contract.nextnonces else contract.nextnonces.put owner 0 := by
    cases found : contract.nextnonces.get? owner with
    | none => rfl
    | some nonce => exact Table.put_of_get? found
  have written : ∀ row : BalanceWithDust, contract.setAccount owner { contract.account owner with
        balance := some row
        nonce := some ((contract.nextnonces.get? owner).getD 0) } =
      { contract with
        funds := { contract.funds with balances := contract.funds.balances.put owner row }
        nextnonces := if (contract.nextnonces.get? owner).isSome then contract.nextnonces
          else contract.nextnonces.put owner 0 } := by
    intro row
    simp only [setAccount, account, nonces, Table.assign_get?]
    rfl
  unfold openInternalBalance openRow AccountState.opened
  cases found : contract.funds.balances.get? owner with
  | some row =>
      have same := written row
      rw [Table.put_of_get? found] at same
      simp only [account, found] at same ⊢
      exact congrArg Except.ok same.symm
  | none =>
      simp only [account, found, AccountState.openBalance]
      cases Asset.make 0 contract.config.getTokenSymbol with
      | error message => rfl
      | ok zero => exact congrArg Except.ok (written { balance := zero }).symm

variable {contract owner} {env : Env}

theorem close_eq (unfrozen : assertUnfrozen contract.config = .ok ()) (authorised : owner ∈ env.auths)
    (foreign : owner ≠ env.self) :
    close env owner contract =
      ((contract.account owner).apply contract.config.getTokenSymbol .close).map (contract.setAccount owner) := by
  have auth : requireAuth env owner = .ok () := (requireAuth_ok _ _ ()).mpr authorised
  have other : check (owner ≠ env.self) "Cannot close self" = .ok () := (check_ok _ _ ()).mpr foreign
  simp only [close, unfrozen, auth, other, ok_bind, AccountState.apply, account]
  cases contract.funds.balances.get? owner with
  | none => rfl
  | some row =>
      simp only [require, ok_bind]
      cases check (row.isZero = true) "cannot close because balance is not zero" with
      | error message => rfl
      | ok checked =>
          cases found : contract.nextnonces.get? owner with
          | none => rfl
          | some nonce =>
              have nonces : contract.nextnonces.assign owner (if nonce = 0 then none else some nonce) =
                  if nonce = 0 then contract.nextnonces.erase owner else contract.nextnonces := by
                split
                · rfl
                · exact Table.put_of_get? found
              simp only [ok_bind, pure, Except.pure, Except.map, setAccount, nonces, Table.assign_get?]
              rfl

theorem withdraw_eq {quantity : Asset} {recipient : Option Name} (unfrozen : assertUnfrozen contract.config = .ok ())
    (authorised : owner ∈ env.auths) (symbol : contract.config.getTokenSymbol = quantity.symbol) :
    withdraw env owner quantity recipient contract =
      ((contract.account owner).apply contract.config.getTokenSymbol (.withdraw quantity)).map fun account =>
        (contract.setAccount owner account).emit (.transfer contract.config.cached.tokenContract
          (recipient.getD owner) quantity (bytesOf "Withdraw from EVM balance")) := by
  have auth : requireAuth env owner = .ok () := (requireAuth_ok _ _ ()).mpr authorised
  have known : check (contract.config.getTokenSymbol = quantity.symbol) "invalid symbol" = .ok () :=
    (check_ok _ _ ()).mpr symbol
  have written := contract.setAccount_balance owner
  simp only [withdraw, unfrozen, auth, known, ok_bind, AccountState.apply]
  simp only [account] at written ⊢
  cases contract.funds.balances.get? owner with
  | none => rfl
  | some row =>
      simp only [require, ok_bind]
      cases check (quantity.amount ≤ row.balance.amount) "overdrawn balance" with
      | error message => rfl
      | ok checked =>
          simp only [ok_bind]
          cases Asset.sub { row.balance with symbol := contract.config.getTokenSymbol } quantity with
          | error message => rfl
          | ok balance =>
              simp only [ok_bind, pure, Except.pure, Except.map, written]

theorem deposit_eq {quantity : Asset} :
    contract.deposit owner quantity "receiving account has not been opened" =
      ((contract.account owner).apply contract.config.getTokenSymbol (.deposit quantity)).map
        (contract.setAccount owner) := by
  have written := contract.setAccount_balance owner
  simp only [deposit, AccountState.apply]
  simp only [account] at written ⊢
  cases contract.funds.balances.get? owner with
  | none => rfl
  | some row =>
      simp only [require, ok_bind]
      cases row.balance.add quantity with
      | error message => rfl
      | ok balance => simp only [ok_bind, pure, Except.pure, Except.map, written]

theorem open_eq (unfrozen : assertUnfrozen contract.config = .ok ()) (authorised : owner ∈ env.auths) :
    Contract.open env owner contract =
      ((contract.account owner).apply contract.config.getTokenSymbol .open).map (contract.setAccount owner) := by
  have auth : requireAuth env owner = .ok () := (requireAuth_ok _ _ ()).mpr authorised
  simp only [Contract.open, unfrozen, auth, ok_bind]
  exact contract.openInternalBalance_eq owner

theorem bridgereg_eq {handler : Name} {minFee : Asset} (unfrozen : assertUnfrozen contract.config = .ok ())
    (authorised : owner ∈ env.auths) (own : env.self ∈ env.auths)
    (symbol : minFee.symbol = contract.config.getTokenSymbol) (nonneg : 0 ≤ minFee.amount) :
    bridgereg env owner handler minFee contract =
      ((contract.account owner).apply contract.config.getTokenSymbol
        (.register { handler := handler, minFee := minFee, flags := forceAtomicFlag })).map
          (contract.setAccount owner) := by
  have auth : requireAuth env owner = .ok () := (requireAuth_ok _ _ ()).mpr authorised
  have self : requireAuth env env.self = .ok () := (requireAuth_ok _ _ ()).mpr own
  have expected : check (minFee.symbol = contract.config.getTokenSymbol) "unexpected symbol" = .ok () :=
    (check_ok _ _ ()).mpr symbol
  have sign : check (0 ≤ minFee.amount) "min_fee cannot be negative" = .ok () := (check_ok _ _ ()).mpr nonneg
  simp only [bridgereg, Contract.open, unfrozen, auth, self, expected, sign, ok_bind]
  rw [openInternalBalance_eq]
  simp only [account, AccountState.apply, AccountState.opened, Table.get?_put, if_true]
  cases AccountState.openBalance contract.config.getTokenSymbol (contract.funds.balances.get? owner) with
  | error message => rfl
  | ok balance =>
      simp only [ok_bind, pure, Except.pure, Except.map, setAccount, Table.assign, Table.put_put]

theorem bridgeunreg_eq (unfrozen : assertUnfrozen contract.config = .ok ()) (authorised : owner ∈ env.auths) :
    bridgeunreg env owner contract =
      ((contract.account owner).apply contract.config.getTokenSymbol .unregister).map (contract.setAccount owner) := by
  have auth : requireAuth env owner = .ok () := (requireAuth_ok _ _ ()).mpr authorised
  simp only [bridgeunreg, unfrozen, auth, ok_bind, AccountState.apply, account]
  cases contract.receivers.get? owner with
  | none => rfl
  | some row =>
      simp only [require, ok_bind, pure, Except.pure, Except.map, setAccount, Table.assign_get?]
      rfl

theorem assertnonce_eq {nextNonce : Nat} :
    assertnonce owner nextNonce contract =
      ((contract.account owner).apply contract.config.getTokenSymbol (.assertnonce nextNonce)).map
        (contract.setAccount owner) := by
  have unchanged : contract.setAccount owner (contract.account owner) = contract := by
    simp only [setAccount, account, Table.assign_get?]
  change (check ((contract.nextnonces.get? owner).getD 0 = nextNonce) "wrong nonce" >>= fun _ => .ok contract) =
    (check ((contract.nextnonces.get? owner).getD 0 = nextNonce) "wrong nonce" >>= fun _ =>
      .ok (contract.account owner)).map (contract.setAccount owner)
  cases check ((contract.nextnonces.get? owner).getD 0 = nextNonce) "wrong nonce" with
  | error message => rfl
  | ok checked => exact congrArg Except.ok unchanged.symm

theorem transfer_eq {sender recipient : Name} {quantity : Asset} {memo : Bytes}
    (unfrozen : assertUnfrozen contract.config = .ok ()) (current : contract.config.refresh env.now = contract.config)
    (incoming : recipient = env.self ∧ sender ≠ env.self)
    (configured : env.code = contract.config.cached.tokenContract ∧ quantity.symbol = contract.config.getTokenSymbol)
    (short : memo ≠ [] ∧ memo.length ≤ 13) (named : nameOf memo = .ok owner) :
    transfer env sender recipient quantity memo contract =
      ((contract.account owner).apply contract.config.getTokenSymbol (.deposit quantity)).map
        (contract.setAccount owner) := by
  have expected : check (env.code = contract.config.cached.tokenContract ∧
      quantity.symbol = contract.config.getTokenSymbol) "received unexpected token" = .ok () :=
    (check_ok _ _ ()).mpr configured
  have refreshed : refreshPrices env contract = contract := by
    rw [refreshPrices_eq, refreshPrices_config, current]
  have address : ¬ (memo.length = 42 ∧ memo.take 2 = bytesOf "0x") := by omega
  simp only [transfer, unfrozen, expected, ok_bind]
  rw [if_neg (by simp [incoming]), if_neg (by simp [short.1]), if_neg address, if_pos short]
  simp only [handleAccountTransfer, named, ok_bind, refreshed]
  exact deposit_eq

end Contract

section Local

variable (host : Host) (now : Nat) (common : Tables)

def itemOwner (item : ChainView × Request) : Name :=
  ((item.2.accountOp host.self (Contract.load common).config).map Prod.fst).getD 0

def itemStep (account : AccountState) (item : ChainView × Request) : Outcome AccountState := do
  let asked ← require (item.2.accountOp host.self (Contract.load common).config) "not about an account"
  account.apply (Contract.load common).config.getTokenSymbol asked.2

end Local

variable {host : Host} {now : Nat}

/-- What a request about an account comes to. -/
theorem Request.run_accountOp {request : Request} (view : ChainView) (contract : Contract) {owner : Name}
    {asked : AccountOp} (unfrozen : assertUnfrozen contract.config = .ok ())
    (current : contract.config.refresh now = contract.config)
    (about : request.accountOp host.self contract.config = some (owner, asked)) :
    ∃ sent, request.run (host.env view now request) contract =
      ((contract.account owner).apply contract.config.getTokenSymbol asked).map fun account =>
        { contract.setAccount owner account with effects := contract.effects ++ sent } := by
  have silent : ∀ outcome : Outcome AccountState, outcome.map (contract.setAccount owner) =
      outcome.map fun account =>
        { contract.setAccount owner account with effects := contract.effects ++ [] } := by
    intro outcome
    simp only [List.append_nil]
    rfl
  unfold Request.accountOp at about
  split at about
  case h_1 caller auths holder =>
    split at about
    · rename_i authorised
      cases about
      exact ⟨[], (Contract.open_eq unfrozen (List.contains_iff_mem.mp authorised)).trans (silent _)⟩
    · cases about
  case h_2 caller auths holder =>
    split at about
    · rename_i allowed
      cases about
      exact ⟨[], (Contract.close_eq unfrozen (List.contains_iff_mem.mp allowed.1) allowed.2).trans (silent _)⟩
    · cases about
  case h_3 caller auths holder quantity recipient =>
    split at about
    · rename_i allowed
      cases about
      exact ⟨_, Contract.withdraw_eq unfrozen (List.contains_iff_mem.mp allowed.1) allowed.2⟩
    · cases about
  case h_4 caller auths receiver handler minFee =>
    split at about
    · rename_i allowed
      cases about
      obtain ⟨authorised, own, symbol, nonneg⟩ := allowed
      exact ⟨[], (Contract.bridgereg_eq unfrozen (List.contains_iff_mem.mp authorised) (List.contains_iff_mem.mp own)
        symbol nonneg).trans (silent _)⟩
    · cases about
  case h_5 caller auths receiver =>
    split at about
    · rename_i authorised
      cases about
      exact ⟨[], (Contract.bridgeunreg_eq unfrozen (List.contains_iff_mem.mp authorised)).trans (silent _)⟩
    · cases about
  case h_6 caller auths account nextNonce =>
    cases about
    exact ⟨[], Contract.assertnonce_eq.trans (silent _)⟩
  case h_7 token sender recipient quantity memo =>
    split at about
    · rename_i allowed
      obtain ⟨here, away, token, symbol, short⟩ := allowed
      cases named : nameOf memo with
      | error message => simp [named, Except.toOption] at about
      | ok receiver =>
          simp only [named, Except.toOption, Option.map_some, Option.some.injEq, Prod.mk.injEq] at about
          obtain ⟨rfl, rfl⟩ := about
          exact ⟨[], (Contract.transfer_eq unfrozen current ⟨here, away⟩ ⟨token, symbol⟩ short named).trans (silent _)⟩
    · cases about
  case h_8 => cases about

theorem accountSlots_local (common : Tables) {item : ChainView × Request}
    (unfrozen : assertUnfrozen (Contract.load common).config = .ok ())
    (current : (Contract.load common).config.refresh now = (Contract.load common).config)
    (about : (item.2.accountOp host.self (Contract.load common).config).isSome = true) :
    accountSlots.Local common (itemOwner host common) (itemStep host common) (handleRequest host now) item := by
  intro tables same
  obtain ⟨⟨owner, asked⟩, found⟩ := Option.isSome_iff_exists.mp about
  have config : (Contract.load tables).config = (Contract.load common).config := by
    rw [← same]
    rfl
  have named : itemOwner host common item = owner := by simp [itemOwner, found]
  have stepped : itemStep host common (tables.account owner) item =
      (tables.account owner).apply (Contract.load common).config.getTokenSymbol asked := by
    simp only [itemStep, found, require, ok_bind]
  obtain ⟨sent, ran⟩ := Request.run_accountOp item.1 (Contract.load tables) (config ▸ unfrozen) (config ▸ current)
    (config ▸ found)
  have started : (Contract.load tables).account owner = tables.account owner := rfl
  rw [started, config] at ran
  simp only [handleRequest, named, ran]
  change _ = (itemStep host common (tables.account owner) item).map (tables.setAccount owner)
  rw [stepped]
  cases (tables.account owner).apply (Contract.load common).config.getTokenSymbol asked with
  | error message => rfl
  | ok account => rfl

/-- What a sequence of requests asks of an account, in order. -/
def asked (self : Name) (config : ConfigWrapper) (owner : Name) (items : List (ChainView × Request)) : List AccountOp :=
  items.filterMap fun item =>
    (item.2.accountOp self config).bind fun asked => if asked.1 = owner then some asked.2 else none

theorem fold_itemStep (common : Tables) {items : List (ChainView × Request)}
    (about : ∀ item ∈ items, (item.2.accountOp host.self (Contract.load common).config).isSome = true) (owner : Name)
    (account : AccountState) :
    foldOutcome (itemStep host common) (Slots.ownItems (itemOwner host common) owner items) account =
      foldOutcome (AccountState.apply (Contract.load common).config.getTokenSymbol)
        (asked host.self (Contract.load common).config owner items) account := by
  induction items generalizing account with
  | nil => rfl
  | cons item items ih =>
      obtain ⟨⟨holder, operation⟩, found⟩ := Option.isSome_iff_exists.mp (about item (.head _))
      have rest := ih fun other member => about other (.tail _ member)
      have named : itemOwner host common item = holder := by simp [itemOwner, found]
      by_cases own : holder = owner
      · have first : Slots.ownItems (itemOwner host common) owner (item :: items) =
            item :: Slots.ownItems (itemOwner host common) owner items := by
          simp [Slots.ownItems, named, own]
        have asks : asked host.self (Contract.load common).config owner (item :: items) =
            operation :: asked host.self (Contract.load common).config owner items := by
          simp [asked, found, own]
        rw [first, asks]
        simp only [foldOutcome, itemStep, found, require, ok_bind]
        exact congrArg _ (funext rest)
      · have first : Slots.ownItems (itemOwner host common) owner (item :: items) =
            Slots.ownItems (itemOwner host common) owner items := by
          simp [Slots.ownItems, named, own]
        have asks : asked host.self (Contract.load common).config owner (item :: items) =
            asked host.self (Contract.load common).config owner items := by
          simp [asked, found, own]
        rw [first, asks, rest]

theorem fold_handleRequest {tables : Tables} (final : Tables) {items : List (ChainView × Request)}
    (unfrozen : assertUnfrozen (Contract.load tables).config = .ok ())
    (current : (Contract.load tables).config.refresh now = (Contract.load tables).config)
    (about : ∀ item ∈ items, (item.2.accountOp host.self (Contract.load tables).config).isSome = true) :
    foldOutcome (handleRequest host now) items tables = .ok final ↔
      final.withoutAccounts = tables.withoutAccounts ∧
      ∀ owner, foldOutcome (AccountState.apply (Contract.load tables).config.getTokenSymbol)
          (asked host.self (Contract.load tables).config owner items) (tables.account owner) =
        .ok (final.account owner) := by
  rw [accountSlots.fold_local (fun item member => accountSlots_local tables.withoutAccounts unfrozen current
    (about item member)) rfl]
  refine and_congr_right fun _ => forall_congr' fun owner => ?_
  rw [fold_itemStep tables.withoutAccounts about owner]
  rfl

/-- Requests about accounts, handled in one block by an unfrozen contract whose prices are up to
date: the contract does to each account exactly what the machine of the account does with the
requests about it, leaves everything else alone, and comes to the same tables in whatever order
the requests of different accounts are mixed. -/
theorem accounts_interleave (host : Host) (now : Nat) (tables : Tables) (items others : List (ChainView × Request))
    (unfrozen : assertUnfrozen (Contract.load tables).config = .ok ())
    (current : (Contract.load tables).config.refresh now = (Contract.load tables).config)
    (about : ∀ item ∈ items ++ others, (item.2.accountOp host.self (Contract.load tables).config).isSome = true)
    (same : ∀ owner, asked host.self (Contract.load tables).config owner items =
      asked host.self (Contract.load tables).config owner others) (final : Tables) :
    (foldOutcome (handleRequest host now) items tables = .ok final ↔
      final.withoutAccounts = tables.withoutAccounts ∧
      ∀ owner, foldOutcome (AccountState.apply (Contract.load tables).config.getTokenSymbol)
          (asked host.self (Contract.load tables).config owner items) (tables.account owner) =
        .ok (final.account owner)) ∧
    (foldOutcome (handleRequest host now) items tables = .ok final ↔
      foldOutcome (handleRequest host now) others tables = .ok final) := by
  have first := fold_handleRequest final unfrozen current fun item member =>
    about item (List.mem_append_left _ member)
  have second := fold_handleRequest final unfrozen current fun item member =>
    about item (List.mem_append_right _ member)
  refine ⟨first, first.trans (Iff.trans ?_ second.symm)⟩
  simp only [same]

namespace Ledger

def visits : List (ChainView × Request) :=
  [(view, .transfer defaultTokenAccount bob self ⟨50000, eos⟩ (bytesOf "alice")), (view, .action none [bob] (.open bob)),
    (view, .action none [alice] (.withdraw alice ⟨20000, eos⟩ none)), (view, .action none [bob] (.close bob))]

def sortedVisits : List (ChainView × Request) :=
  [(view, .action none [bob] (.open bob)), (view, .action none [bob] (.close bob)),
    (view, .transfer defaultTokenAccount bob self ⟨50000, eos⟩ (bytesOf "alice")),
    (view, .action none [alice] (.withdraw alice ⟨20000, eos⟩ none))]

end Ledger

theorem asked_eq (self : Name) (config : ConfigWrapper) (owner : Name) (items : List (ChainView × Request)) :
    asked self config owner items = (items.map fun item => item.2.accountOp self config).filterMap fun found =>
      found.bind fun asked => if asked.1 = owner then some asked.2 else none := by
  rw [List.filterMap_map]
  rfl

theorem accounts_interleave_visits : ∃ world final,
    run Ledger.host Ledger.opening (World.start fun _ _ => 0) = .ok world ∧
    foldOutcome (handleRequest Ledger.host world.now) Ledger.visits world.tables = .ok final ∧
    foldOutcome (handleRequest Ledger.host world.now) Ledger.sortedVisits world.tables = .ok final ∧
    final.account Ledger.alice = ⟨some { balance := ⟨30000, Ledger.eos⟩ }, some 0, none⟩ ∧
    final.account Ledger.bob = ⟨none, none, none⟩ := by
  let asks (world : World) (items : List (ChainView × Request)) : List (Option (Name × AccountOp)) :=
    items.map fun item => item.2.accountOp Ledger.host.self (Contract.load world.tables).config
  obtain ⟨world, reached, seen⟩ := exists_of_view (run Ledger.host Ledger.opening (World.start fun _ _ => 0))
    (fun world => decide ((assertUnfrozen (Contract.load world.tables).config).isOk = true ∧
      (Contract.load world.tables).config.getEvmVersion world.now = 0 ∧
      (Ledger.visits ++ Ledger.sortedVisits).all (fun item =>
        (item.2.accountOp Ledger.host.self (Contract.load world.tables).config).isSome) = true ∧
      asks world Ledger.visits = [some (Ledger.alice, .deposit ⟨50000, Ledger.eos⟩), some (Ledger.bob, .open),
        some (Ledger.alice, .withdraw ⟨20000, Ledger.eos⟩), some (Ledger.bob, .close)] ∧
      asks world Ledger.sortedVisits = [some (Ledger.bob, .open), some (Ledger.bob, .close),
        some (Ledger.alice, .deposit ⟨50000, Ledger.eos⟩), some (Ledger.alice, .withdraw ⟨20000, Ledger.eos⟩)] ∧
      (foldOutcome (handleRequest Ledger.host world.now) Ledger.visits world.tables).toOption.map
        (fun final => (final.account Ledger.alice, final.account Ledger.bob)) =
          some (⟨some { balance := ⟨30000, Ledger.eos⟩ }, some 0, none⟩, ⟨none, none, none⟩))) true (by decide +kernel)
  obtain ⟨ready, version, about, first, second, later⟩ := of_decide_eq_true seen
  obtain ⟨⟨⟩, unfrozen⟩ := exists_of_isOk ready
  have current : (Contract.load world.tables).config.refresh world.now = (Contract.load world.tables).config := by
    rw [ConfigWrapper.refresh, version]
    rfl
  obtain ⟨final, finished, rows⟩ := exists_of_view _ _ _ later
  obtain ⟨alice, bob⟩ := Prod.mk.inj rows
  have same : ∀ owner, asked Ledger.host.self (Contract.load world.tables).config owner Ledger.visits =
      asked Ledger.host.self (Contract.load world.tables).config owner Ledger.sortedVisits := by
    intro owner
    rw [asked_eq, asked_eq, show List.map _ Ledger.visits = _ from first,
      show List.map _ Ledger.sortedVisits = _ from second]
    have apart : Ledger.alice ≠ Ledger.bob := by decide
    by_cases one : Ledger.alice = owner
    · subst one
      simp [apart.symm]
    · by_cases two : Ledger.bob = owner
      · simp [one, two]
      · simp [one, two]
  have mixed := accounts_interleave Ledger.host world.now world.tables Ledger.visits Ledger.sortedVisits unfrozen current
    (List.all_eq_true.mp about) same final
  exact ⟨world, final, reached, finished, mixed.2.mp finished, alice, bob⟩

/-- What an operation adds to the balance. -/
def AccountOp.amount : AccountOp → Int
  | .deposit quantity => quantity.amount
  | .withdraw quantity => -quantity.amount
  | _ => 0

/-- Deposits and withdrawals. -/
def AccountOp.isMove : AccountOp → Bool
  | .deposit _ | .withdraw _ => true
  | _ => false

namespace AccountState

variable {symbol : Symbol} {account final : AccountState}

theorem apply_move {op : AccountOp} (move : op.isMove = true) (done : account.apply symbol op = .ok final) :
    ∃ row moved, account.balance = some row ∧ moved.dust = row.dust ∧
      moved.balance.amount = row.balance.amount + op.amount ∧ final = { account with balance := some moved } := by
  cases op with
  | deposit quantity =>
      simp only [apply, bind_ok, require_ok, pure_ok, Asset.add_ok] at done
      obtain ⟨row, found, balance, ⟨_, _, _, rfl⟩, rfl⟩ := done
      refine ⟨row, _, found, ?_, ?_, rfl⟩ <;> rfl
  | withdraw quantity =>
      simp only [apply, bind_ok, require_ok, check_ok, exists_const, pure_ok, Asset.sub_ok] at done
      obtain ⟨row, found, _, balance, ⟨_, _, _, rfl⟩, rfl⟩ := done
      refine ⟨row, _, found, ?_, ?_, rfl⟩
      · rfl
      · exact Int.sub_eq_add_neg
  | _ => cases move

theorem fold_moves {ops : List AccountOp} (moves : ∀ op ∈ ops, op.isMove = true) {row : BalanceWithDust}
    (found : account.balance = some row) (done : foldOutcome (apply symbol) ops account = .ok final) :
    ∃ moved, moved.dust = row.dust ∧ moved.balance.amount = row.balance.amount + (ops.map AccountOp.amount).sum ∧
      final = { account with balance := some moved } := by
  induction ops generalizing account row with
  | nil =>
      rw [foldOutcome_nil] at done
      refine ⟨row, rfl, (Int.add_zero _).symm, ?_⟩
      rw [← done, ← found]
  | cons op ops ih =>
      obtain ⟨middle, first, rest⟩ := (foldOutcome_cons _ _ _ _ _).mp done
      obtain ⟨start, moved, present, dust, amount, rfl⟩ := apply_move (moves op (.head _)) first
      obtain rfl := Option.some.inj (present.symm.trans found)
      obtain ⟨last, dusty, total, rfl⟩ := ih (fun other member => moves other (.tail _ member)) rfl rest
      refine ⟨last, dusty.trans dust, ?_, rfl⟩
      rw [total, amount, List.map_cons, List.sum_cons]
      omega

theorem fold_visit {ops : List AccountOp} (moves : ∀ op ∈ ops, op.isMove = true) (closed : account.balance = none)
    (uncounted : account.nonce ≠ some 0)
    (done : foldOutcome (apply symbol) (.open :: ops ++ [.close]) account = .ok final) :
    final = account ∧ (ops.map AccountOp.amount).sum = 0 := by
  obtain ⟨middle, first, last⟩ := (foldOutcome_append _ _ _ _ _).mp done
  obtain ⟨opened, started, moved⟩ := (foldOutcome_cons _ _ _ _ _).mp first
  simp only [apply, AccountState.opened, closed, openBalance, bind_ok, pure_ok, Asset.make_ok] at started
  obtain ⟨row, ⟨zero, ⟨_, _, rfl⟩, rfl⟩, rfl⟩ := started
  obtain ⟨row, dust, amount, rfl⟩ := fold_moves moves rfl moved
  obtain ⟨left, finished, stays⟩ := (foldOutcome_cons _ _ _ _ _).mp last
  rw [foldOutcome_nil] at stays
  simp only [apply, bind_ok, require_ok, check_ok, exists_const, pure_ok, Option.some.injEq, exists_eq_left'] at finished
  obtain ⟨empty, rfl⟩ := finished
  simp only [BalanceWithDust.isZero, Bool.and_eq_true, beq_iff_eq] at empty
  refine ⟨?_, by rw [← empty.2, amount, Int.zero_add]⟩
  rw [← stays]
  obtain ⟨balance, nonce, receiver⟩ := account
  simp only at closed uncounted
  -- The counter goes only where it stands at zero, so where the opening has put it.
  cases nonce with
  | none => simp [closed]
  | some count =>
      have counted : count ≠ 0 := fun absent => uncounted (congrArg some absent)
      simp [closed, counted]

end AccountState

/-- The requests that are not about an account. -/
def withoutOwner (self : Name) (config : ConfigWrapper) (owner : Name) (items : List (ChainView × Request)) :
    List (ChainView × Request) :=
  items.filter fun item => (item.2.accountOp self config).map Prod.fst ≠ some owner

theorem asked_withoutOwner (self : Name) (config : ConfigWrapper) (owner other : Name)
    (items : List (ChainView × Request)) :
    asked self config other (withoutOwner self config owner items) =
      if other = owner then [] else asked self config other items := by
  rw [withoutOwner, asked, List.filterMap_filter]
  split
  · rename_i mine
    refine List.filterMap_eq_nil_iff.mpr fun item _ => ?_
    cases found : item.2.accountOp self config with
    | none => simp
    | some about => simp [mine]
  · rename_i others
    refine List.filterMap_congr fun item _ => ?_
    cases found : item.2.accountOp self config with
    | none => simp
    | some about =>
        by_cases own : about.1 = owner
        · simp [own, Ne.symm others]
        · simp [own]

/-- An account that was not open comes, pays in and takes out as often as it likes, and closes
again, while the contract handles whatever requests about other accounts: the visit has taken out
what it brought, to the unit, and leaves no trace. The account is as it was, and the contract ends
in the same tables as if it had never come. -/
theorem accounts_visit (host : Host) (now : Nat) (tables final : Tables) (items : List (ChainView × Request))
    (unfrozen : assertUnfrozen (Contract.load tables).config = .ok ())
    (current : (Contract.load tables).config.refresh now = (Contract.load tables).config)
    (about : ∀ item ∈ items, (item.2.accountOp host.self (Contract.load tables).config).isSome = true)
    (owner : Name) (closed : tables.funds.balances.get? owner = none) (uncounted : tables.nextnonces.get? owner ≠ some 0)
    (ops : List AccountOp) (moves : ∀ op ∈ ops, op.isMove = true)
    (visit : asked host.self (Contract.load tables).config owner items = .open :: ops ++ [.close])
    (done : foldOutcome (handleRequest host now) items tables = .ok final) :
    (ops.map AccountOp.amount).sum = 0 ∧ final.account owner = tables.account owner ∧
    foldOutcome (handleRequest host now) (withoutOwner host.self (Contract.load tables).config owner items) tables =
      .ok final := by
  have rest : ∀ item ∈ withoutOwner host.self (Contract.load tables).config owner items,
      (item.2.accountOp host.self (Contract.load tables).config).isSome = true :=
    fun item member => about item (List.mem_filter.mp member).1
  obtain ⟨same, each⟩ := (fold_handleRequest final unfrozen current about).mp done
  have own := each owner
  rw [visit] at own
  obtain ⟨unchanged, balanced⟩ := AccountState.fold_visit moves closed uncounted own
  refine ⟨balanced, unchanged, (fold_handleRequest final unfrozen current rest).mpr ⟨same, fun other => ?_⟩⟩
  rw [asked_withoutOwner]
  by_cases mine : other = owner
  · rw [if_pos mine, mine, foldOutcome_nil, unchanged]
  · rw [if_neg mine]
    exact each other

def Ledger.visit : List (ChainView × Request) :=
  [(view, .action none [bob] (.open bob)),
    (view, .transfer defaultTokenAccount alice self ⟨50000, eos⟩ (bytesOf "alice")),
    (view, .transfer defaultTokenAccount bob self ⟨40000, eos⟩ (bytesOf "bob")),
    (view, .action none [bob] (.withdraw bob ⟨30000, eos⟩ none)),
    (view, .action none [alice] (.withdraw alice ⟨20000, eos⟩ none)),
    (view, .action none [bob] (.withdraw bob ⟨10000, eos⟩ none)), (view, .action none [bob] (.close bob))]

theorem accounts_visit_bob : ∃ world final,
    run Ledger.host Ledger.opening (World.start fun _ _ => 0) = .ok world ∧
    foldOutcome (handleRequest Ledger.host world.now) Ledger.visit world.tables = .ok final ∧
    final.account Ledger.bob = world.tables.account Ledger.bob ∧
    foldOutcome (handleRequest Ledger.host world.now)
      (withoutOwner Ledger.host.self (Contract.load world.tables).config Ledger.bob Ledger.visit) world.tables =
        .ok final := by
  obtain ⟨world, reached, seen⟩ := exists_of_view (run Ledger.host Ledger.opening (World.start fun _ _ => 0))
    (fun world => decide ((assertUnfrozen (Contract.load world.tables).config).isOk = true ∧
      (Contract.load world.tables).config.getEvmVersion world.now = 0 ∧
      Ledger.visit.all (fun item =>
        (item.2.accountOp Ledger.host.self (Contract.load world.tables).config).isSome) = true ∧
      world.tables.funds.balances.get? Ledger.bob = none ∧ world.tables.nextnonces.get? Ledger.bob = none ∧
      asked Ledger.host.self (Contract.load world.tables).config Ledger.bob Ledger.visit =
        [.open, .deposit ⟨40000, Ledger.eos⟩, .withdraw ⟨30000, Ledger.eos⟩, .withdraw ⟨10000, Ledger.eos⟩, .close] ∧
      (foldOutcome (handleRequest Ledger.host world.now) Ledger.visit world.tables).isOk = true)) true (by decide +kernel)
  obtain ⟨ready, version, about, closed, uncounted, visit, later⟩ := of_decide_eq_true seen
  obtain ⟨⟨⟩, unfrozen⟩ := exists_of_isOk ready
  obtain ⟨final, finished⟩ := exists_of_isOk later
  have current : (Contract.load world.tables).config.refresh world.now = (Contract.load world.tables).config := by
    rw [ConfigWrapper.refresh, version]
    rfl
  obtain ⟨_, unchanged, traceless⟩ := accounts_visit Ledger.host world.now world.tables final Ledger.visit unfrozen
    current (List.all_eq_true.mp about) Ledger.bob closed (by simp [uncounted])
    [.deposit ⟨40000, Ledger.eos⟩, .withdraw ⟨30000, Ledger.eos⟩, .withdraw ⟨10000, Ledger.eos⟩] (by decide) visit finished
  exact ⟨world, final, reached, finished, unchanged, traceless⟩

end EosEvm

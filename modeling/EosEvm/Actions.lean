import EosEvm.HostCore
import EosEvm.Contract
import EosEvm.Lib.Abi

/-! What handling a request can do to the contract: one lemma for what an action left behind
when it succeeded, and one case per kind of change. The invariants of the runs are proved from
these. -/

namespace EosEvm

open Abort Words

/-- What a setter does to the configuration. -/
inductive ConfigWrapper.Configures (now : Nat) (config : ConfigWrapper) : Action → ConfigWrapper → Prop
  | setfeeparams (fees : FeeParameters) (after : ConfigWrapper)
      (updated : config.setFeeParameters fees true now = .ok after) : Configures now config (.setfeeparams fees) after
  | freeze (value : Bool) (status : UInt32) :
      Configures now config (.freeze value) (config.set fun cached => { cached with status := status })
  | setversion (version : Nat) (after : ConfigWrapper) (updated : config.setEvmVersion version now = .ok after) :
      Configures now config (.setversion version) after
  | updtgasparam (ramPriceMb : Asset) (storagePrice : Nat) (after : ConfigWrapper)
      (updated : config.updateConsensusParameters ramPriceMb storagePrice now = .ok after) :
      Configures now config (.updtgasparam ramPriceMb storagePrice) after
  | setgasparam (gasTxnewaccount gasNewaccount gasTxcreate gasCodedeposit gasSset : Nat) (after : ConfigWrapper)
      (updated : config.updateConsensusParameters2 (some gasTxnewaccount) (some gasNewaccount) (some gasTxcreate)
        (some gasCodedeposit) (some gasSset) now = .ok after) :
      Configures now config (.setgasparam gasTxnewaccount gasNewaccount gasTxcreate gasCodedeposit gasSset) after
  | enqueued (prices : GasPrices) (after : ConfigWrapper) (active : 3 ≤ (config.promoteEvmVersion now).1)
      (queued : (config.promoteEvmVersion now).2.enqueueGasPrices prices now = .ok after) :
      Configures now config (.setgasprices prices) after
  | replaced (prices : GasPrices) (inactive : ¬ 3 ≤ (config.promoteEvmVersion now).1) :
      Configures now config (.setgasprices prices) ((config.promoteEvmVersion now).2.setGasPrices prices)
  | setgaslimit (limit : Nat) :
      Configures now config (.setgaslimit limit)
        (config.set fun cached => { cached with ingressGasLimit := limit })

/-- The form of the transactions the contract makes itself: a legacy transaction without a chain
id, of one price, and with all numbers within their words. -/
structure Transaction.IsBridge (tx : Transaction) (nonce s : Nat) : Prop where
  type : tx.type = 0
  chainId : tx.chainId = none
  nonce : tx.nonce = u64 nonce
  price : tx.maxPriorityFeePerGas = tx.maxFeePerGas
  priced : tx.maxFeePerGas < 2 ^ 64
  limited : tx.gasLimit < 2 ^ 64
  valued : tx.value < 2 ^ 256
  signed : s < 2 ^ 256
  accessList : tx.accessList = []
  oddYParity : tx.oddYParity = false
  r : tx.r = 0
  s : tx.s = s

theorem Transaction.IsBridge.special {tx : Transaction} {nonce s : Nat} (form : tx.IsBridge nonce s) :
    tx.isSpecialSignature = true := by
  simp [Transaction.isSpecialSignature, form.r]

namespace Contract

theorem loadValue_ok {bytes : Bytes} {value : Nat} (loaded : loadValue bytes = .ok value) :
    value = Bridge.load bytes ∧ value < 2 ^ 256 := by
  simp only [loadValue, bind_ok, check_ok, exists_const, pure_ok] at loaded
  obtain ⟨length, rfl⟩ := loaded
  have bound := Abi.number_lt bytes
  rw [length] at bound
  exact ⟨rfl, bound.trans_eq (by norm_num)⟩

theorem name_lt (account : Name) : account.val < 2 ^ 256 := account.isLt.trans (by norm_num)

theorem paddedAddress_lt (address : Address) : 2 ^ 256 - 2 ^ 160 + address.toNat < 2 ^ 256 := by
  have bound := address.isLt
  omega

theorem callTx_isBridge {s value : Nat} (env : Env) (recipient data : Bytes) (gasLimit nonce : Nat) (contract : Contract)
    (valued : value < 2 ^ 256) (signed : s < 2 ^ 256) :
    (callTx env s recipient value data gasLimit nonce contract).IsBridge nonce s :=
  ⟨rfl, rfl, rfl, rfl, u64_lt _, u64_lt _, valued, signed, rfl, rfl, rfl, rfl⟩

theorem ingressTx_isBridge (env : Env) (version : Nat) (destination : Address) (value nonce : Nat)
    (contract : Contract) : (ingressTx env version destination value nonce contract).IsBridge nonce env.self.val :=
  ⟨rfl, rfl, rfl, rfl, u64_lt _, u64_lt _, u256_lt _, name_lt _, rfl, rfl, rfl, rfl⟩

/-- The transaction that `call_` makes from the arguments of an action. -/
def MakesCall (env : Env) (contract : Contract) (s : Nat) (recipient value data : Bytes) (gasLimit nonce : Nat)
    (tx : Transaction) : Prop :=
  ∃ worth, loadValue value = .ok worth ∧ tx = callTx env s recipient worth data gasLimit nonce contract

theorem MakesCall.isBridge {env : Env} {contract : Contract} {s gasLimit nonce : Nat} {recipient value data : Bytes}
    {tx : Transaction} (made : MakesCall env contract s recipient value data gasLimit nonce tx)
    (signed : s < 2 ^ 256) : tx.IsBridge nonce s := by
  obtain ⟨worth, loaded, rfl⟩ := made
  exact callTx_isBridge env recipient data gasLimit nonce contract (loadValue_ok loaded).2 signed

/-- The transaction that `handle_evm_transfer` makes of a quantity and a memo. -/
def MakesIngress (env : Env) (contract : Contract) (version : Nat) (quantity : Asset) (memo : Bytes) (nonce : Nat)
    (tx : Transaction) : Prop :=
  ∃ bridged address unit, quantity.sub contract.config.cached.ingressBridgeFee = .ok bridged ∧
    env.evm.fromHex memo = some address ∧ contract.config.getMinimumNativelyRepresentable = .ok unit ∧
    tx = ingressTx env version (env.evm.toEvmcAddress address) (unsigned bridged.amount * unit) nonce contract

theorem MakesIngress.isBridge {env : Env} {contract : Contract} {version nonce : Nat} {quantity : Asset} {memo : Bytes}
    {tx : Transaction} (made : MakesIngress env contract version quantity memo nonce tx) :
    tx.IsBridge nonce env.self.val := by
  obtain ⟨_, _, _, _, _, _, rfl⟩ := made
  exact ingressTx_isBridge ..

/-- How a request comes to a transaction of the contract's own: who pays, the transaction,
and the contract when it is dispatched. -/
inductive Bridges (env : Env) (before : Contract) : Request → Option Name → Transaction → Contract → Prop
  | call (caller : Option Name) (auths : List Name) (sender : Name) (recipient value data : Bytes)
      (gasLimit nonce : Nat) (tx : Transaction) (authorised : sender ∈ env.auths)
      (next : before.nextnonces.get? sender = some nonce)
      (made : MakesCall env { before with nextnonces := before.nextnonces.put sender (nonce + 1) } sender.val
        recipient value data gasLimit nonce tx) :
      Bridges env before (.action caller auths (.call sender recipient value data gasLimit)) none tx
        (refreshPrices env { before with nextnonces := before.nextnonces.put sender (nonce + 1) })
  | callotherpay (caller : Option Name) (auths : List Name) (payer sender : Name) (recipient value data : Bytes)
      (gasLimit nonce : Nat) (tx : Transaction) (authorised : sender ∈ env.auths) (paying : payer ∈ env.auths)
      (next : before.nextnonces.get? sender = some nonce)
      (made : MakesCall env { before with
          config := (before.config.promoteEvmVersion env.now).2
          nextnonces := before.nextnonces.put sender (nonce + 1) } sender.val
        recipient value data gasLimit nonce tx) :
      Bridges env before (.action caller auths (.callotherpay payer sender recipient value data gasLimit))
        (some payer) tx
        (refreshPrices env { before with
          config := (before.config.promoteEvmVersion env.now).2
          nextnonces := before.nextnonces.put sender (nonce + 1) })
  | admincall (caller : Option Name) (auths : List Name) (sender recipient value data : Bytes) (gasLimit nonce : Nat)
      (address : Address) (tx : Transaction) (numbered : Contract) (authorised : env.self ∈ env.auths)
      (numbers : adminNonce address before = .ok (nonce, numbered))
      (made : MakesCall env numbered (2 ^ 256 - 2 ^ 160 + address.toNat) recipient value data gasLimit nonce tx) :
      Bridges env before (.action caller auths (.admincall sender recipient value data gasLimit)) none tx
        (refreshPrices env numbered)
  | ingress (token sender : Name) (quantity : Asset) (memo : Bytes) (nonce : Nat) (tx : Transaction)
      (received recorded : Contract) (deposited : (refreshPrices env before).deposit env.self quantity missingKey =
        .ok received) (records : received.recordIngressFee = .ok recorded)
      (next : before.nextnonces.get? env.self = some nonce)
      (made : MakesIngress env { recorded with nextnonces := before.nextnonces.put env.self (nonce + 1) }
        (before.config.getEvmVersion env.now) quantity memo nonce tx) :
      Bridges env before (.transfer token sender env.self quantity memo) none tx
        { recorded with nextnonces := before.nextnonces.put env.self (nonce + 1) }

/-- What handling a request does. -/
inductive Does (env : Env) (before : Contract) : Request → Contract → Prop
  | init (caller : Option Name) (auths : List Name) (chainid : Nat) (fees : FeeParameters)
      (tokenContract : Option Name) (after : Contract) (ran : init env chainid fees tokenContract before = .ok after) :
      Does env before (.action caller auths (.init chainid fees tokenContract)) after
  | configures (caller : Option Name) (auths : List Name) (requested : Action) (config : ConfigWrapper)
      (configured : before.config.Configures env.now requested config) :
      Does env before (.action caller auths requested) { before with config := config }
  | swaps (caller : Option Name) (auths : List Name) (newTokenContract : Name) (newSymbol : Symbol)
      (swapDestAccount : Name) (swapMemo : Bytes) (after : Contract)
      (ran : swapgastoken env newTokenContract newSymbol swapDestAccount swapMemo before = .ok after) :
      Does env before (.action caller auths (.swapgastoken newTokenContract newSymbol swapDestAccount swapMemo)) after
  | idles (request : Request)
      (harmless : match request with
        | .action _ _ (.assertnonce _ _) => True
        | .action _ _ (.exec _ none) => True
        | .transfer _ _ _ _ _ => True
        | _ => False) : Does env before request before
  | announces (caller : Option Name) (auths : List Name) (requested : Action)
      (event : requested = .evmtx ∨ ∃ parameters, requested = .configchange parameters)
      (own : env.sender = some env.self) : Does env before (.action caller auths requested) before
  | lists (caller : Option Name) (auths : List Name) (requested : Action) (egresslist : Table Name Unit)
      (receivers : Table Name MessageReceiver)
      (listing : match requested with
        | .addegress _ => True
        | .removeegress _ => True
        | .bridgeunreg _ => True
        | _ => False)
      (listed : ∀ receiver row, receivers.get? receiver = some row → before.receivers.get? receiver = some row) :
      Does env before (.action caller auths requested)
        { before with egresslist := egresslist, receivers := receivers }
  | replies (caller : Option Name) (auths : List Name) (input : ExecInput) (callback : ExecCallback)
      (output : ExecOutput) :
      Does env before (.action caller auths (.exec input (some callback))) (before.emit (.callback callback output))
  | opens (caller : Option Name) (auths : List Name) (requested : Action) (owner : Name)
      (receivers : Table Name MessageReceiver) (after : Contract)
      (opening : match requested with
        | .open _ => True
        | .bridgereg _ _ _ => True
        | _ => False) (opened : openInternalBalance owner { before with receivers := receivers } = .ok after)
      (registered : ∀ receiver row, receivers.get? receiver = some row →
        before.receivers.get? receiver = some row ∨
          0 ≤ row.minFee.amount ∧ row.minFee.symbol = before.config.getTokenSymbol) :
      Does env before (.action caller auths requested) after
  | closes (caller : Option Name) (auths : List Name) (owner : Name) (after : Contract)
      (ran : close env owner before = .ok after) : Does env before (.action caller auths (.close owner)) after
  | withdraws (caller : Option Name) (auths : List Name) (owner : Name) (quantity : Asset) (recipient : Option Name)
      (after : Contract) (ran : withdraw env owner quantity recipient before = .ok after) :
      Does env before (.action caller auths (.withdraw owner quantity recipient)) after
  | deposits (token sender : Name) (quantity : Asset) (memo : Bytes) (receiver : Name) (after : Contract)
      (deposited : (refreshPrices env before).deposit receiver quantity "receiving account has not been opened" =
        .ok after) : Does env before (.transfer token sender env.self quantity memo) after
  | edits (caller : Option Name) (auths : List Name) (requested : Action) (db : Db)
      (editing : match requested with
        | .gc max => db = (before.db.gc max).1
        | .rmgcstore id => before.db.rmgcstore id = .ok db
        | .setkvstore accountId key value => before.db.setkvstore accountId key value = .ok db
        | .rmaccount id => before.db.rmaccount id = .ok db
        | .freezeaccnt id value => before.db.freezeaccnt id value = .ok db
        | _ => False) : Does env before (.action caller auths requested) { before with db := db }
  | adjustsEvm (caller : Option Name) (auths : List Name) (id : Nat) (delta : Bytes) (subtract : Bool)
      (after : Contract) (ran : addevmbal env id delta subtract before = .ok after) :
      Does env before (.action caller auths (.addevmbal id delta subtract)) after
  | adjustsOpen (caller : Option Name) (auths : List Name) (account : Name) (delta : Bytes) (subtract : Bool)
      (after : Contract) (ran : addopenbal env account delta subtract before = .ok after) :
      Does env before (.action caller auths (.addopenbal account delta subtract)) after
  | migrates (caller : Option Name) (auths : List Name) (fromName : Name) (limit : Int) (after : Contract)
      (ran : migratebal fromName limit before = .ok after) :
      Does env before (.action caller auths (.migratebal fromName limit)) after
  | pushes (caller : Option Name) (auths : List Name) (miner : Name) (rlptx : Bytes) (minPrice : Option Nat)
      (after : Contract) (ready : assertUnfrozen before.config = .ok ())
      (processed : processTx env (pushtxConfig env) miner (.ofRlp rlptx) minPrice (refreshPrices env before) =
        .ok after) : Does env before (.action caller auths (.pushtx miner rlptx minPrice)) after
  | bridges (request : Request) (payer : Option Name) (tx : Transaction) (middle after : Contract)
      (ready : assertUnfrozen before.config = .ok ()) (bridges : Bridges env before request payer tx middle)
      (dispatched : dispatchTx env (bridgeConfig payer) tx middle = .ok after) : Does env before request after

variable {env : Env} {before after : Contract}

theorem getAndIncrementNonce_ok {owner : Name} {nonce : Nat}
    (numbered : getAndIncrementNonce owner before = .ok (nonce, after)) :
    before.nextnonces.get? owner = some nonce ∧
      after = { before with nextnonces := before.nextnonces.put owner (nonce + 1) } := by
  simp only [getAndIncrementNonce, bind_ok, require_ok, pure_ok, Prod.mk.injEq] at numbered
  obtain ⟨_, found, rfl, rfl⟩ := numbered
  exact ⟨found, rfl⟩

/-- A reserved address is numbered by its account, any other by its row of the machine's accounts. -/
theorem adminNonce_cases {address : Address} {nonce : Nat} (numbered : adminNonce address before = .ok (nonce, after)) :
    (∃ account, address = makeReservedAddress account ∧ getAndIncrementNonce account before = .ok (nonce, after)) ∨
      (∀ account, address ≠ makeReservedAddress account) ∧ after = before := by
  simp only [adminNonce] at numbered
  split at numbered
  · rename_i account extracted
    exact .inl ⟨account, (extractReservedAddress_eq_some _ _).mp extracted, numbered⟩
  · rename_i ordinary
    simp only [bind_ok, require_ok, pure_ok, Prod.mk.injEq] at numbered
    obtain ⟨_, _, _, _, _, rfl⟩ := numbered
    refine .inr ⟨?_, rfl⟩
    rintro account rfl
    simp at ordinary

theorem adminNonce_ok {address : Address} {nonce : Nat} (numbered : adminNonce address before = .ok (nonce, after)) :
    ∃ nextnonces, after = { before with nextnonces := nextnonces } ∧
      ∀ owner, (before.nextnonces.get? owner).isSome = true → (nextnonces.get? owner).isSome = true := by
  rcases adminNonce_cases numbered with ⟨account, _, counted⟩ | ⟨_, rfl⟩
  · obtain ⟨_, rfl⟩ := getAndIncrementNonce_ok counted
    exact ⟨_, rfl, fun owner => Table.isSome_put _ _ owner _⟩
  · exact ⟨_, rfl, fun _ present => present⟩

theorem deposit_ok {owner : Name} {quantity : Asset} {missing : String}
    (deposited : before.deposit owner quantity missing = .ok after) :
    ∃ row balance, before.funds.balances.get? owner = some row ∧ row.balance.add quantity = .ok balance ∧
      after = { before with funds := { before.funds with
        balances := before.funds.balances.put owner { row with balance := balance } } } := by
  simp only [deposit, bind_ok, require_ok, pure_ok] at deposited
  obtain ⟨row, found, balance, added, rfl⟩ := deposited
  exact ⟨row, balance, found, added, rfl⟩

theorem withdraw_ok {owner : Name} {quantity : Asset} {recipient : Option Name}
    (withdrawn : withdraw env owner quantity recipient before = .ok after) :
    owner ∈ env.auths ∧ before.config.getTokenSymbol = quantity.symbol ∧
      ∃ row balance, before.funds.balances.get? owner = some row ∧ quantity.amount ≤ row.balance.amount ∧
        row.balance.amount - quantity.amount ≤ maxAmount ∧
        balance = ⟨row.balance.amount - quantity.amount, before.config.getTokenSymbol⟩ ∧
        after = ({ before with funds := { before.funds with
          balances := before.funds.balances.put owner { row with balance := balance } } } : Contract).emit
            (.transfer before.config.cached.tokenContract (recipient.getD owner) quantity
              (bytesOf "Withdraw from EVM balance")) := by
  simp only [withdraw, bind_ok, assertUnfrozen_ok, requireAuth_ok, check_ok, require_ok, exists_const, pure_ok,
    Asset.sub_ok] at withdrawn
  obtain ⟨_, authorised, row, found, symbol, enough, balance, ⟨_, _, bounded, shifted⟩, rfl⟩ := withdrawn
  exact ⟨authorised, symbol, row, balance, found, enough, bounded, shifted.symm, rfl⟩

theorem close_ok {owner : Name} (closed : close env owner before = .ok after) :
    owner ≠ env.self ∧ ∃ row nonce, before.funds.balances.get? owner = some row ∧ row.isZero = true ∧
      before.nextnonces.get? owner = some nonce ∧
      after = { before with
        funds := { before.funds with balances := before.funds.balances.erase owner }
        nextnonces := if nonce = 0 then before.nextnonces.erase owner else before.nextnonces } := by
  simp only [close, bind_ok, assertUnfrozen_ok, requireAuth_ok, check_ok, require_ok, exists_const, pure_ok] at closed
  obtain ⟨_, _, other, row, found, zero, nonce, counted, rfl⟩ := closed
  exact ⟨other, row, nonce, found, zero, counted, rfl⟩

theorem adjustEvm_ok {balance delta result : Nat} {subtract : Bool} {funds changed : Funds}
    (adjusted : adjustEvm balance delta subtract funds = .ok (result, changed)) :
    funds.leaveEvm delta = .ok changed ∧ delta ≤ balance ∧ result = balance - delta ∨
      funds.enterEvm delta = .ok changed ∧ result = balance + delta := by
  simp only [adjustEvm] at adjusted
  split at adjusted
  · simp only [bind_ok, check_ok, exists_const, pure_ok, Prod.mk.injEq] at adjusted
    obtain ⟨_, leaves, enough, rfl, rfl⟩ := adjusted
    exact .inl ⟨leaves, enough, rfl⟩
  · simp only [bind_ok, check_ok, exists_const, pure_ok, Prod.mk.injEq] at adjusted
    obtain ⟨_, _, enters, rfl, rfl⟩ := adjusted
    exact .inr ⟨enters, rfl⟩

theorem addevmbal_ok {id : Nat} {delta : Bytes} {subtract : Bool}
    (adjusted : addevmbal env id delta subtract before = .ok after) :
    env.self ∈ env.auths ∧ ∃ row amount balance funds, before.db.accounts.get? id = some row ∧
      adjustEvm row.balance amount subtract before.funds = .ok (balance, funds) ∧
      after = { before with
        funds := funds
        db := { before.db with
          accounts := before.db.accounts.modify id fun row => { row with balance := balance } } } := by
  simp only [addevmbal, bind_ok, requireAuth_ok, require_ok, exists_const, pure_ok] at adjusted
  obtain ⟨authorised, row, found, amount, _, ⟨balance, funds⟩, changed, rfl⟩ := adjusted
  exact ⟨authorised, row, amount, balance, funds, found, changed, rfl⟩

theorem addopenbal_ok {account : Name} {delta : Bytes} {subtract : Bool}
    (adjusted : addopenbal env account delta subtract before = .ok after) :
    env.self ∈ env.auths ∧ ∃ amount funds, adjustOpen account amount subtract before.funds = .ok funds ∧
      after = { before with funds := funds } := by
  simp only [addopenbal, bind_ok, requireAuth_ok, exists_const, pure_ok] at adjusted
  obtain ⟨authorised, _, _, amount, _, funds, changed, rfl⟩ := adjusted
  exact ⟨authorised, amount, funds, changed, rfl⟩

theorem editDb_ok {edit : Db → Outcome Db} (edited : editDb env edit before = .ok after) :
    env.self ∈ env.auths ∧ ∃ db, edit before.db = .ok db ∧ after = { before with db := db } := by
  simp only [editDb, bind_ok, requireAuth_ok, exists_const, pure_ok] at edited
  obtain ⟨authorised, db, done, rfl⟩ := edited
  exact ⟨authorised, db, done, rfl⟩

theorem migratebal_ok {fromName : Name} {limit : Int} (ran : migratebal fromName limit before = .ok after) :
    ∃ inevm stale, before.funds.inevm = some inevm ∧
      stale = (before.migrated fromName limit.toNat).filter
        (fun row => decide (row.2.balance.symbol ≠ inevm.balance.symbol)) ∧ stale ≠ [] ∧
      after = { before with funds := { before.funds with
        balances := stale.foldl (fun balances row => balances.modify row.1 fun row =>
          row.withSymbol inevm.balance.symbol) before.funds.balances } } := by
  simp only [migratebal, bind_ok, require_ok, check_ok, exists_const, pure_ok] at ran
  obtain ⟨inevm, found, some, rfl⟩ := ran
  exact ⟨inevm, _, found, rfl, some, rfl⟩

/-- A swap renames what the contract holds, migrates its own balance, and may send the old
tokens away. -/
theorem swapgastoken_ok {newTokenContract : Name} {newSymbol : Symbol} {swapDestAccount : Name} {swapMemo : Bytes}
    (ran : swapgastoken env newTokenContract newSymbol swapDestAccount swapMemo before = .ok after) :
    env.self ∈ env.auths ∧ ∃ inevm statistics swapped, before.funds.inevm = some inevm ∧
      before.funds.getStatistics (before.config.swapgastoken newTokenContract newSymbol) = .ok statistics ∧
      migratebal env.self 1 { before with
        config := before.config.swapgastoken newTokenContract newSymbol
        receivers := ⟨before.receivers.rows.map fun row =>
          (row.1, { row.2 with minFee := { row.2.minFee with symbol := newSymbol } }),
          (List.pairwise_map).mpr before.receivers.sorted⟩
        funds := { before.funds with
          inevm := some (inevm.withSymbol newSymbol)
          statistics := some {
            gasFeeIncome := statistics.gasFeeIncome.withSymbol newSymbol
            ingressBridgeFeeIncome := statistics.ingressBridgeFeeIncome.withSymbol newSymbol } } } = .ok swapped ∧
      (after = swapped ∨ ∃ held, after =
        swapped.emit (.transfer before.config.cached.tokenContract swapDestAccount held swapMemo)) := by
  simp only [swapgastoken, bind_ok, requireAuth_ok, require_ok, exists_const] at ran
  obtain ⟨authorised, inevm, found, statistics, counted, swapped, migrated, ran⟩ := ran
  refine ⟨authorised, inevm, statistics, swapped, found, counted, migrated, ?_⟩
  split at ran
  · simp only [bind_ok, pure_ok] at ran
    obtain ⟨held, _, rfl⟩ := ran
    exact .inr ⟨held, rfl⟩
  · rw [pure_ok] at ran
    exact .inl ran.symm

theorem init_ok {chainid : Nat} {fees : FeeParameters} {tokenContract : Option Name}
    (inited : init env chainid fees tokenContract before = .ok after) :
    before.config.stored = false ∧ ∃ config inevm,
      (before.config.set fun config => { config with
        version := 0, chainid := chainid, genesisTime := u32 (env.now / 1000000) }).setFeeParameters
          fees false env.now = .ok config ∧
      initialInevm fees before.funds.inevm = .ok inevm ∧
      openInternalBalance env.self { before with
        config := { config with
          cached := { config.cached with tokenContract := tokenContract.getD config.cached.tokenContract } }
        funds := { before.funds with inevm := some inevm } } = .ok after := by
  simp only [init, bind_ok, requireAuth_ok, check_ok, exists_const] at inited
  obtain ⟨_, unstored, _, config, changed, inevm, created, opened⟩ := inited
  exact ⟨unstored, config, inevm, changed, created, opened⟩

theorem recordIngressFee_ok (recorded : before.recordIngressFee = .ok after) :
    ∃ statistics, after = { before with funds := { before.funds with statistics := statistics } } := by
  simp only [recordIngressFee, bind_ok, pure_ok] at recorded
  obtain ⟨_, _, _, _, rfl⟩ := recorded
  exact ⟨_, rfl⟩

theorem refreshPrices_eq (env : Env) (contract : Contract) :
    refreshPrices env contract = { contract with config := (refreshPrices env contract).config } := by
  unfold refreshPrices
  split <;> rfl

theorem handleEvmTransfer_does {token sender : Name} {quantity : Asset} {memo : Bytes}
    (ready : assertUnfrozen before.config = .ok ()) (handled : handleEvmTransfer env quantity memo before = .ok after) :
    Does env before (.transfer token sender env.self quantity memo) after := by
  simp only [handleEvmTransfer, bind_ok, require_ok, check_ok, exists_const] at handled
  obtain ⟨received, deposited, bridged, subtracted, _, recorded, records, address, parsed, unit, scaled,
    ⟨nonce, numbered⟩, numbers, dispatched⟩ := handled
  obtain ⟨next, rfl⟩ := getAndIncrementNonce_ok numbers
  obtain ⟨_, rfl⟩ := recordIngressFee_ok records
  obtain ⟨row, balance, _, _, rfl⟩ := deposit_ok deposited
  have nonces : (refreshPrices env before).nextnonces = before.nextnonces := by rw [refreshPrices_eq]
  simp only [nonces] at next dispatched
  exact .bridges _ none _ _ after ready
    (.ingress token sender quantity memo nonce _ _ _ deposited records next
      ⟨bridged, address, unit, subtracted, parsed, scaled, rfl⟩) dispatched

theorem transfer_does {token sender recipient : Name} {quantity : Asset} {memo : Bytes}
    (ran : transfer env sender recipient quantity memo before = .ok after) :
    Does env before (.transfer token sender recipient quantity memo) after := by
  simp only [transfer, bind_ok] at ran
  obtain ⟨⟨⟩, ready, ran⟩ := ran
  split at ran
  · rw [pure_ok] at ran
    exact ran ▸ .idles _ trivial
  · rename_i incoming
    push Not at incoming
    obtain ⟨rfl, _⟩ := incoming
    simp only [bind_ok, check_ok, exists_const] at ran
    obtain ⟨_, ran⟩ := ran
    split at ran
    · rw [pure_ok] at ran
      exact ran ▸ .idles _ trivial
    · split at ran
      · exact handleEvmTransfer_does ready ran
      · split at ran
        · simp only [handleAccountTransfer, bind_ok] at ran
          obtain ⟨receiver, _, deposited⟩ := ran
          exact .deposits token sender quantity memo receiver after deposited
        · cases ran

theorem exec_does {caller : Option Name} {auths : List Name} {input : ExecInput} {callback : Option ExecCallback}
    (ran : exec env input callback before = .ok after) :
    Does env before (.action caller auths (.exec input callback)) after := by
  simp only [exec, bind_ok, check_ok, exists_const] at ran
  obtain ⟨_, _, _, _, _, _, _, ran⟩ := ran
  split at ran
  · rename_i callback
    rw [pure_ok] at ran
    exact ran ▸ .replies caller auths input callback _
  · rw [pure_ok] at ran
    exact ran ▸ .idles _ trivial

theorem call_does {caller : Option Name} {auths : List Name} {sender : Name} {recipient value data : Bytes}
    {gasLimit : Nat} (ran : call env sender recipient value data gasLimit before = .ok after) :
    Does env before (.action caller auths (.call sender recipient value data gasLimit)) after := by
  simp only [call, bind_ok, requireAuth_ok, exists_const] at ran
  obtain ⟨⟨⟩, ready, authorised, worth, loaded, ⟨nonce, numbered⟩, numbers, dispatched⟩ := ran
  obtain ⟨next, rfl⟩ := getAndIncrementNonce_ok numbers
  exact .bridges _ none _ _ after ready
    (.call caller auths sender recipient value data gasLimit nonce _ authorised next
      ⟨worth, loaded, rfl⟩) dispatched

theorem callotherpay_does {caller : Option Name} {auths : List Name} {payer sender : Name}
    {recipient value data : Bytes} {gasLimit : Nat}
    (ran : callotherpay env payer sender recipient value data gasLimit before = .ok after) :
    Does env before (.action caller auths (.callotherpay payer sender recipient value data gasLimit)) after := by
  simp only [callotherpay, bind_ok, requireAuth_ok, check_ok, exists_const] at ran
  obtain ⟨⟨⟩, ready, authorised, paying, _, worth, loaded, ⟨nonce, numbered⟩, numbers, dispatched⟩ := ran
  obtain ⟨next, rfl⟩ := getAndIncrementNonce_ok numbers
  exact .bridges _ (some payer) _ _ after ready
    (.callotherpay caller auths payer sender recipient value data gasLimit nonce _ authorised paying next
      ⟨worth, loaded, rfl⟩) dispatched

theorem admincall_does {caller : Option Name} {auths : List Name} {sender recipient value data : Bytes}
    {gasLimit : Nat} (ran : admincall env sender recipient value data gasLimit before = .ok after) :
    Does env before (.action caller auths (.admincall sender recipient value data gasLimit)) after := by
  simp only [admincall, bind_ok, requireAuth_ok, check_ok, exists_const] at ran
  obtain ⟨⟨⟩, ready, authorised, worth, loaded, _, address, _, ⟨nonce, numbered⟩, numbers, dispatched⟩ := ran
  exact .bridges _ none _ _ after ready
    (.admincall caller auths sender recipient value data gasLimit nonce address _ numbered authorised numbers
      ⟨worth, loaded, rfl⟩) dispatched

theorem transfer_unknown {env : Env} {sender recipient : Name} {quantity : Asset} {memo : Bytes}
    (unknown : env.code ≠ before.config.cached.tokenContract)
    (ran : transfer env sender recipient quantity memo before = .ok after) : after = before := by
  simp only [transfer, bind_ok] at ran
  obtain ⟨_, _, ran⟩ := ran
  split at ran
  · exact ((pure_ok _ _).mp ran).symm
  · simp only [bind_ok, check_ok, exists_const] at ran
    exact absurd ran.1.1 unknown

end Contract

open Contract in
theorem Action.configures {env : Env} {caller : Option Name} {auths : List Name} {requested : Action}
    {before after : Contract} (setter : match requested with
      | .setfeeparams _ | .freeze _ | .setversion _ | .updtgasparam _ _ | .setgasparam _ _ _ _ _
      | .setgasprices _ | .setgaslimit _ => True
      | _ => False) (ran : requested.run env before = .ok after) :
    Does env before (.action caller auths requested) after := by
  cases requested with
  | setfeeparams fees =>
      simp only [Action.run, Contract.setfeeparams, bind_ok, assertInited_ok, requireAuth_ok, exists_const,
        pure_ok] at ran
      obtain ⟨_, _, config, updated, rfl⟩ := ran
      exact .configures caller auths _ config (.setfeeparams fees config updated)
  | freeze value =>
      simp only [Action.run, Contract.freeze, bind_ok, assertInited_ok, requireAuth_ok, exists_const, pure_ok] at ran
      obtain ⟨_, _, rfl⟩ := ran
      exact .configures caller auths _ _ (.freeze value _)
  | setversion version =>
      simp only [Action.run, Contract.setversion, bind_ok, requireAuth_ok, exists_const, pure_ok] at ran
      obtain ⟨_, config, updated, rfl⟩ := ran
      exact .configures caller auths _ config (.setversion version config updated)
  | updtgasparam ramPriceMb storagePrice =>
      simp only [Action.run, Contract.updtgasparam, bind_ok, requireAuth_ok, exists_const, pure_ok] at ran
      obtain ⟨_, config, updated, rfl⟩ := ran
      exact .configures caller auths _ config (.updtgasparam ramPriceMb storagePrice config updated)
  | setgasparam gasTxnewaccount gasNewaccount gasTxcreate gasCodedeposit gasSset =>
      simp only [Action.run, Contract.setgasparam, bind_ok, requireAuth_ok, exists_const, pure_ok] at ran
      obtain ⟨_, config, updated, rfl⟩ := ran
      exact .configures caller auths _ config (.setgasparam _ _ _ _ _ config updated)
  | setgasprices prices =>
      simp only [Action.run, Contract.setgasprices, bind_ok, requireAuth_ok, check_ok, exists_const] at ran
      obtain ⟨_, _, _, ran⟩ := ran
      split at ran
      · rename_i active
        simp only [bind_ok, pure_ok] at ran
        obtain ⟨config, queued, rfl⟩ := ran
        exact .configures caller auths _ config (.enqueued prices config active queued)
      · rename_i inactive
        rw [pure_ok] at ran
        exact ran ▸ .configures caller auths _ _ (.replaced prices inactive)
  | setgaslimit limit =>
      cases ran
      exact .configures caller auths _ _ (.setgaslimit limit)
  | _ => exact setter.elim

open Contract in
/-- What an action does. -/
theorem Action.run_does {env : Env} {caller : Option Name} {auths : List Name} {requested : Action}
    {before after : Contract} (ran : requested.run env before = .ok after) :
    Does env before (.action caller auths requested) after := by
  cases requested with
  | init chainid fees tokenContract => exact .init caller auths chainid fees tokenContract after ran
  | setfeeparams | freeze | setversion | updtgasparam | setgasparam | setgasprices | setgaslimit =>
      exact Action.configures trivial ran
  | addegress accounts | removeegress accounts =>
      simp only [Action.run, Contract.addegress, Contract.removeegress, bind_ok, assertInited_ok, requireAuth_ok,
        exists_const, pure_ok] at ran
      obtain ⟨_, _, rfl⟩ := ran
      exact .lists caller auths _ _ _ trivial fun _ _ found => found
  | exec input callback => exact exec_does ran
  | pushtx miner rlptx minPrice =>
      simp only [Action.run, Contract.pushtx, bind_ok, check_ok, exists_const] at ran
      obtain ⟨⟨⟩, ready, _, processed⟩ := ran
      exact .pushes caller auths miner rlptx minPrice after ready processed
  | «open» owner =>
      simp only [Action.run, Contract.open, bind_ok, assertUnfrozen_ok, requireAuth_ok, exists_const] at ran
      exact .opens caller auths _ owner before.receivers after trivial ran.2.2 fun _ _ found => Or.inl found
  | close owner => exact .closes caller auths owner after ran
  | withdraw owner quantity recipient => exact .withdraws caller auths owner quantity recipient after ran
  | gc max =>
      simp only [Action.run, Contract.gc, bind_ok, assertUnfrozen_ok, requireAuth_ok, exists_const, pure_ok] at ran
      obtain ⟨_, _, rfl⟩ := ran
      exact .edits caller auths _ _ rfl
  | call sender recipient value data gasLimit => exact call_does ran
  | callotherpay payer sender recipient value data gasLimit => exact callotherpay_does ran
  | admincall sender recipient value data gasLimit => exact admincall_does ran
  | bridgereg receiver handler minFee =>
      simp only [Action.run, Contract.bridgereg, Contract.open, bind_ok, assertUnfrozen_ok, requireAuth_ok, check_ok,
        exists_const] at ran
      obtain ⟨_, _, _, symbol, nonneg, _, _, opened⟩ := ran
      refine .opens caller auths _ receiver _ after trivial opened ?_
      intro other row found
      rw [Table.get?_put] at found
      split at found
      · cases found
        exact Or.inr ⟨nonneg, symbol⟩
      · exact Or.inl found
  | bridgeunreg receiver =>
      simp only [Action.run, Contract.bridgeunreg, bind_ok, assertUnfrozen_ok, requireAuth_ok, require_ok,
        exists_const, pure_ok] at ran
      obtain ⟨_, _, _, _, rfl⟩ := ran
      refine .lists caller auths _ _ _ trivial ?_
      intro other row found
      rw [Table.get?_erase] at found
      split at found
      · cases found
      · exact found
  | assertnonce account nextNonce =>
      simp only [Action.run, Contract.assertnonce, bind_ok, check_ok, exists_const, pure_ok] at ran
      exact ran.2 ▸ .idles _ trivial
  | swapgastoken newTokenContract newSymbol swapDestAccount swapMemo =>
      exact .swaps caller auths newTokenContract newSymbol swapDestAccount swapMemo after ran
  | migratebal fromName limit => exact .migrates caller auths fromName limit after ran
  | evmtx =>
      simp only [Action.run, Contract.event, bind_ok, check_ok, exists_const, pure_ok] at ran
      exact ran.2 ▸ .announces caller auths _ (Or.inl rfl) ran.1
  | configchange parameters =>
      simp only [Action.run, Contract.event, bind_ok, check_ok, exists_const, pure_ok] at ran
      exact ran.2 ▸ .announces caller auths _ (Or.inr ⟨parameters, rfl⟩) ran.1
  | rmgcstore | setkvstore | rmaccount | freezeaccnt =>
      simp only [Action.run, Contract.editDb, bind_ok, requireAuth_ok, exists_const, pure_ok] at ran
      obtain ⟨_, db, edited, rfl⟩ := ran
      exact .edits caller auths _ db edited
  | addevmbal id delta subtract => exact .adjustsEvm caller auths id delta subtract after ran
  | addopenbal account delta subtract => exact .adjustsOpen caller auths account delta subtract after ran

/-- What handling a request does. -/
theorem Request.run_does {env : Env} {request : Request} {before after : Contract}
    (ran : request.run env before = .ok after) : Contract.Does env before request after := by
  cases request with
  | action caller auths requested => exact Action.run_does ran
  | transfer token sender recipient quantity memo => exact Contract.transfer_does ran

end EosEvm

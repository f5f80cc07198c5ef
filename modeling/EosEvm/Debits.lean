import EosEvm.Opened
import EosEvm.Solvency

/-! Who may lose value. The books of the contract stay in order along every run that does
not swap the token, whatever the EVM does, and a balance shrinks only for an account that
authorised it. -/

namespace EosEvm

open Abort

theorem ConfigWrapper.Configures.symbol {now : Nat} {wrapper after : ConfigWrapper} {requested : Action}
    (configures : wrapper.Configures now requested after) :
    after.getTokenSymbol = wrapper.getTokenSymbol ∨
      wrapper.getTokenSymbol = Symbol.none ∧ after.getTokenSymbol.precision ≤ evmPrecision := by
  cases configures with
  | setfeeparams fees after updated =>
      cases charge : fees.ingressBridgeFee with
      | none => exact Or.inl (getTokenSymbol_of_token (setFeeParameters_omitted charge updated).2)
      | some fee =>
          obtain ⟨_, symbol, precise, unset | same⟩ := setFeeParameters_given charge updated
          · exact Or.inr ⟨unset, symbol ▸ precise⟩
          · exact Or.inl (symbol.trans same)
  | freeze | setgaslimit => exact Or.inl rfl
  | setversion version after updated => exact Or.inl (getTokenSymbol_of_token (setEvmVersion_token updated))
  | updtgasparam ramPriceMb storagePrice after updated =>
      exact Or.inl (getTokenSymbol_of_token (updateConsensusParameters_token updated))
  | setgasparam _ _ _ _ _ after updated =>
      exact Or.inl (getTokenSymbol_of_token (updateConsensusParameters2_token updated))
  | enqueued prices after active queued =>
      exact Or.inl (getTokenSymbol_of_token
        ((enqueueGasPrices_token queued).trans (promoteEvmVersion_token wrapper now)))
  | replaced => exact Or.inl (getTokenSymbol_of_token (promoteEvmVersion_token wrapper now))

/-- How the library treats the signatures of the contract's own transactions: one that names
an account is that of its reserved address, one that carries an address is that of the
address, no other signature is that of a reserved address, and such a transaction survives
its encoding. -/
structure Silkworm.Signs (evm : Silkworm) : Prop where
  named : ∀ tx account, tx.r = 0 → tx.s = (account : Name).val →
    evm.recoverSender tx = some (makeReservedAddress account)
  padded : ∀ tx address, tx.r = 0 → tx.s = 2 ^ 256 - 2 ^ 160 + (address : Address).toNat →
    evm.recoverSender tx = some address
  reserved : ∀ tx account, evm.recoverSender tx = some (makeReservedAddress account) → tx.r = 0
  decoded : ∀ tx nonce s, tx.IsBridge nonce s → evm.decodeTransaction (evm.encodeTransaction tx) = some tx

def Request.Bills (account : Name) (owner : Name) : Request → Prop
  | .action _ auths (.withdraw holder _ _) => owner = holder ∧ owner ∈ auths
  | .action _ auths (.call sender _ _ _ _) => owner = sender ∧ owner ∈ auths
  | .action _ auths (.callotherpay payer sender _ _ _ _) => (owner = payer ∨ owner = sender) ∧ owner ∈ auths
  | .action _ auths (.admincall _ _ _ _ _) => account ∈ auths
  | .action _ auths (.addopenbal _ _ _) => account ∈ auths
  | _ => False

/-- The authority a request carries. -/
def Request.auths : Request → List Name
  | .action _ auths _ => auths
  | .transfer _ _ _ _ _ => []

namespace Contract

/-- Every balance is normal and in the configured symbol. -/
structure Booked (contract : Contract) : Prop where
  precise : contract.config.getTokenSymbol.precision ≤ evmPrecision
  sound : contract.funds.Sound contract.config.getTokenSymbol

/-- A step that keeps the books, and in which only payers lose value. -/
structure Books (payers : Name → Prop) (before after : Contract) : Prop where
  booked : after.Booked
  kept : ∀ owner, ¬ payers owner → before.funds.valueOf owner ≤ after.funds.valueOf owner

variable {payers others : Name → Prop} {before middle after : Contract}

theorem Books.trans (first : Books payers before middle) (second : Books payers middle after) :
    Books payers before after :=
  ⟨second.booked, fun owner free => (first.kept owner free).trans (second.kept owner free)⟩

theorem Books.mono (books : Books payers before after) (wider : ∀ owner, payers owner → others owner) :
    Books others before after :=
  ⟨books.booked, fun owner free => books.kept owner fun pays => free (wider owner pays)⟩

theorem Booked.of_unset (booked : before.Booked) (unset : before.config.getTokenSymbol = Symbol.none) :
    (∀ owner, before.funds.balances.get? owner = none) ∧ before.funds.inevm = none :=
  (unset ▸ booked.sound).empty

theorem Booked.configured (booked : before.Booked)
    (symbol : after.config.getTokenSymbol = before.config.getTokenSymbol ∨
      before.config.getTokenSymbol = Symbol.none ∧ after.config.getTokenSymbol.precision ≤ evmPrecision)
    (balances : after.funds.balances = before.funds.balances) (inevm : after.funds.inevm = before.funds.inevm) :
    Books payers before after := by
  refine ⟨?_, fun owner _ => le_of_eq ?_⟩
  · rcases symbol with same | ⟨unset, precise⟩
    · refine ⟨same ▸ booked.precise, ?_, ?_⟩
      · rw [balances, same]
        exact booked.sound.balances
      · rw [inevm, same]
        exact booked.sound.inevm
    · obtain ⟨noBalance, noInevm⟩ := booked.of_unset unset
      refine ⟨precise, ?_, ?_⟩
      · intro owner row found
        rw [balances, noBalance] at found
        cases found
      · intro row found
        rw [inevm, noInevm] at found
        cases found
  · rw [Funds.valueOf, Funds.valueOf, balances]

theorem Booked.keep (booked : before.Booked) (token : after.config.token = before.config.token)
    (balances : after.funds.balances = before.funds.balances) (inevm : after.funds.inevm = before.funds.inevm) :
    Books payers before after :=
  booked.configured (Or.inl (ConfigWrapper.getTokenSymbol_of_token token)) balances inevm

theorem Booked.flow (booked : before.Booked) (token : after.config.token = before.config.token)
    (flow : Funds.Flow before.config.getTokenSymbol payers before.funds after.funds) : Books payers before after := by
  have symbol := ConfigWrapper.getTokenSymbol_of_token token
  exact ⟨⟨symbol ▸ booked.precise, symbol ▸ flow.sound⟩, flow.kept⟩

theorem Booked.refreshPrices (payers : Name → Prop) (booked : before.Booked) (env : Env) :
    Books payers before (refreshPrices env before) := by
  unfold EosEvm.refreshPrices
  split
  · exact booked.keep (ConfigWrapper.processPriceQueue_token _ _) rfl rfl
  · exact booked.keep rfl rfl rfl

theorem processTx_books {env : Env} {rc : RuntimeConfig} {miner : Name} {txn : Txn} {minPrice : Option Nat}
    (booked : before.Booked) (processed : processTx env rc miner txn minPrice before = .ok after) :
    ∃ tx, txn.getTx env.evm = .ok tx ∧ Books (mayPay env rc tx) before after := by
  obtain ⟨tx, funds, transfers, input, output, delivered, notices, db, decoded, _, _, _, _, executed, filtered, _,
    rfl⟩ := processTx_ok processed
  obtain ⟨_, _, begun, _⟩ := executeTx_ok executed
  obtain ⟨sender, _, recovered, _⟩ := beginTx_ok begun
  have flow := executeTx_flow booked.sound executed
  have delivers := (processFilteredMessages_spec flow.sound filtered).1
  refine ⟨tx, decoded, booked.flow ?_ (flow.trans (delivers.mono ?_))⟩
  · simp only [ConfigWrapper.promoteConsensusParam_token, ConfigWrapper.promoteEvmVersion_token]
  · rintro owner rfl
    exact ⟨sender, recovered, Or.inr (Or.inl rfl)⟩

theorem dispatchTx_books {env : Env} {rc : RuntimeConfig} {tx : Transaction} (booked : before.Booked)
    (dispatched : dispatchTx env rc tx before = .ok after) : Books (mayPay env rc tx) before after := by
  have promoted : Books (mayPay env rc tx) before
      { before with config := (before.config.promoteEvmVersion env.now).2 } :=
    booked.keep (ConfigWrapper.promoteEvmVersion_token before.config env.now) rfl rfl
  rcases dispatchTx_ok dispatched with ⟨_, processed⟩ | ⟨_, _, rfl⟩
  · obtain ⟨_, ⟨⟩, books⟩ := processTx_books promoted.booked processed
    exact promoted.trans books
  · exact promoted.trans (promoted.booked.keep rfl rfl rfl)

theorem openInternalBalance_books {owner : Name} (booked : before.Booked)
    (opening : openInternalBalance owner before = .ok after) : Books payers before after := by
  obtain ⟨balances, row, rfl⟩ := openInternalBalance_ok opening
  rcases openRow_ok row with ⟨_, rfl⟩ | ⟨isClosed, valid, rfl⟩
  · exact booked.keep rfl rfl rfl
  · obtain ⟨sound, values, _⟩ := Funds.openRow_spec booked.sound (Symbol.ne_none_of_isValid valid) booked.precise isClosed
    exact ⟨⟨booked.precise, sound⟩, fun other _ => le_of_eq (values other).symm⟩

theorem close_books {env : Env} {owner : Name} (booked : before.Booked)
    (closed : close env owner before = .ok after) : Books payers before after := by
  obtain ⟨_, row, _, found, zero, _, rfl⟩ := close_ok closed
  obtain ⟨sound, values, _⟩ := Funds.closeRow_spec booked.sound found zero
  exact ⟨⟨booked.precise, sound⟩, fun other _ => le_of_eq (values other).symm⟩

theorem deposit_books {owner : Name} {quantity : Asset} {missing : String} (booked : before.Booked)
    (positive : 0 < quantity.amount) (deposited : deposit owner quantity missing before = .ok after) :
    Books payers before after := by
  obtain ⟨row, balance, found, added, rfl⟩ := deposit_ok deposited
  obtain ⟨_, _, bounded, shifted⟩ := (Asset.add_ok _ _ _).mp added
  obtain ⟨normal, symbolRow⟩ := booked.sound.balances owner row found
  have nonneg := normal.nonneg
  have shape : balance = ⟨row.balance.amount + quantity.amount, before.config.getTokenSymbol⟩ := by
    rw [← shifted, symbolRow]
  obtain ⟨sound, _, values, _⟩ := Funds.shift_spec booked.sound quantity.amount found shape (by omega) bounded
  refine ⟨⟨booked.precise, sound⟩, fun other _ => Int.ofNat_le.mp (le_of_le_of_eq ?_ (values other).symm)⟩
  have gained : 0 ≤ quantity.amount * before.config.getTokenSymbol.unit := by positivity
  split <;> omega

theorem withdraw_books {env : Env} {owner : Name} {quantity : Asset} {recipient : Option Name}
    (booked : before.Booked) (withdrawn : withdraw env owner quantity recipient before = .ok after) :
    Books (fun payer => payer = owner ∧ payer ∈ env.auths) before after := by
  obtain ⟨authorised, _, row, balance, found, enough, bounded, shape, rfl⟩ := withdraw_ok withdrawn
  obtain ⟨sound, _, values, _⟩ := Funds.shift_spec booked.sound (-quantity.amount) found shape (by omega) bounded
  refine ⟨⟨booked.precise, sound⟩, fun other free => ?_⟩
  have distinct : owner ≠ other := by
    rintro rfl
    exact free ⟨rfl, authorised⟩
  have value := values other
  rw [if_neg distinct, add_zero] at value
  exact_mod_cast value.ge

theorem addevmbal_books {env : Env} {id : Nat} {delta : Bytes} {subtract : Bool} (booked : before.Booked)
    (adjusted : addevmbal env id delta subtract before = .ok after) : Books payers before after := by
  obtain ⟨_, row, amount, balance, funds, _, changed, rfl⟩ := addevmbal_ok adjusted
  refine booked.flow rfl ?_
  rcases adjustEvm_ok changed with ⟨leaves, _⟩ | ⟨enters, _⟩
  · exact (Funds.leaveEvm_spec payers booked.sound leaves).1
  · exact (Funds.enterEvm_spec payers booked.sound enters).1

theorem addopenbal_books {env : Env} {account : Name} {delta : Bytes} {subtract : Bool} (booked : before.Booked)
    (adjusted : addopenbal env account delta subtract before = .ok after) :
    Books (fun _ => env.self ∈ env.auths) before after := by
  obtain ⟨authorised, amount, funds, changed, rfl⟩ := addopenbal_ok adjusted
  refine booked.flow rfl ?_
  simp only [adjustOpen] at changed
  split at changed
  · exact (Funds.debit_spec booked.sound changed).1.mono fun _ _ => authorised
  · exact (Funds.credit_spec _ booked.sound changed).1

theorem init_books {env : Env} {chainid : Nat} {fees : FeeParameters} {tokenContract : Option Name}
    (booked : before.Booked) (unset : before.config.stored = false → before.config.getTokenSymbol = Symbol.none)
    (inited : init env chainid fees tokenContract before = .ok after) : Books payers before after := by
  obtain ⟨unstored, config, inevm, changed, created, opened⟩ := init_ok inited
  obtain ⟨noBalance, noInevm⟩ := booked.of_unset (unset unstored)
  rw [noInevm] at created
  obtain ⟨precise, named, rfl⟩ := initialInevm_ok changed created
  generalize middleEq : Contract.mk _ _ _ _ _ _ _ = middle at opened
  have begun : Books payers before middle := by
    subst middleEq
    refine ⟨⟨precise, ?_, ?_⟩, fun owner _ => Nat.le_refl _⟩
    · intro owner row found
      rw [noBalance] at found
      cases found
    · rintro row ⟨⟩
      exact ⟨BalanceWithDust.zero_normal _ named precise, rfl⟩
  exact begun.trans (openInternalBalance_books begun.booked opened)

theorem Bridges.bills {env : Env} {request : Request} {payer : Option Name} {tx : Transaction} {owner : Name}
    (signs : env.evm.Signs) (sees : ∀ name, name ∈ env.auths → name ∈ request.auths)
    (bridges : Bridges env before request payer tx middle)
    (pays : mayPay env (bridgeConfig payer) tx owner) : owner = env.self ∨ request.Bills env.self owner := by
  obtain ⟨sender, recovered, ⟨_, _, account, rfl, charged⟩ | own | ⟨paid, rfl⟩⟩ := pays
  · cases bridges with
    | call caller auths holder _ _ _ _ nonce _ authorised _ made =>
        have form := made.isBridge (name_lt _)
        rw [signs.named tx holder form.r form.s, Option.some.injEq] at recovered
        have same := makeReservedAddress_injective recovered
        rcases charged with rfl | none
        · subst same
          exact Or.inr ⟨rfl, sees _ authorised⟩
        · cases none
    | callotherpay caller auths payer holder _ _ _ _ nonce _ authorised paying _ made =>
        have form := made.isBridge (name_lt _)
        rw [signs.named tx holder form.r form.s, Option.some.injEq] at recovered
        have same := makeReservedAddress_injective recovered
        rcases charged with rfl | other
        · subst same
          exact Or.inr ⟨Or.inr rfl, sees _ authorised⟩
        · cases other
          exact Or.inr ⟨Or.inl rfl, sees _ paying⟩
    | admincall caller auths _ _ _ _ _ _ _ _ _ authorised => exact Or.inr (sees _ authorised)
    | ingress _ _ _ _ nonce _ _ _ _ _ _ made =>
        have form := made.isBridge
        rw [signs.named tx env.self form.r form.s, Option.some.injEq] at recovered
        have same := makeReservedAddress_injective recovered
        rcases charged with rfl | none
        · exact Or.inl same.symm
        · cases none
  · exact Or.inl own
  · cases bridges with
    | callotherpay caller auths payer holder _ _ _ _ nonce _ authorised paying _ made =>
        have form := made.isBridge (name_lt _)
        rw [signs.named tx holder form.r form.s, Option.some.injEq] at recovered
        have same := makeReservedAddress_injective recovered
        subst same
        exact Or.inr ⟨Or.inr rfl, sees _ authorised⟩
    | _ => cases paid

theorem Bridges.books (payers : Name → Prop) {env : Env} {request : Request} {payer : Option Name} {tx : Transaction}
    (booked : before.Booked)
    (positive : ∀ token sender recipient quantity memo,
      request = .transfer token sender recipient quantity memo → 0 < quantity.amount)
    (bridges : Bridges env before request payer tx middle) : Books payers before middle := by
  have refreshed : ∀ numbered : Contract, Books payers before numbered →
      Books payers before (EosEvm.refreshPrices env numbered) :=
    fun numbered books => books.trans (books.booked.refreshPrices payers env)
  cases bridges with
  | call => exact refreshed _ (booked.keep rfl rfl rfl)
  | callotherpay => exact refreshed _ (booked.keep (ConfigWrapper.promoteEvmVersion_token _ _) rfl rfl)
  | admincall _ _ _ _ _ _ _ _ address _ numbered _ numbers _ =>
      refine refreshed _ ?_
      obtain ⟨_, rfl, _⟩ := adminNonce_ok numbers
      exact booked.keep rfl rfl rfl
  | ingress token sender quantity memo _ _ received recorded deposited records _ _ =>
      have first : Books payers before (EosEvm.refreshPrices env before) := booked.refreshPrices payers env
      have second : Books payers _ received := deposit_books first.booked (positive _ _ _ _ _ rfl) deposited
      obtain ⟨_, rfl⟩ := recordIngressFee_ok records
      exact (first.trans second).trans (second.booked.keep rfl rfl rfl)

def mayLose (env : Env) (request : Request) (owner : Name) : Prop :=
  owner = env.self ∨ request.Bills env.self owner ∨
    ∃ caller auths miner rlptx minPrice tx sender,
      request = .action caller auths (.pushtx miner rlptx minPrice) ∧ env.sender = some env.self ∧
      env.evm.decodeTransaction rlptx = some tx ∧ env.evm.recoverSender tx = some sender ∧
      sender = makeReservedAddress owner

theorem Does.books {env : Env} {request : Request} (signs : env.evm.Signs)
    (sees : ∀ name, name ∈ env.auths → name ∈ request.auths) (booked : before.Booked)
    (unset : before.config.stored = false → before.config.getTokenSymbol = Symbol.none)
    (positive : ∀ token sender recipient quantity memo,
      request = .transfer token sender recipient quantity memo → 0 < quantity.amount)
    (stays : ∀ caller auths requested, request = .action caller auths requested → requested.isSwap = false)
    (did : Does env before request after) : Books (mayLose env request) before after := by
  cases did with
  | init caller auths chainid fees tokenContract after ran => exact init_books booked unset ran
  | configures caller auths requested config configured => exact booked.configured configured.symbol rfl rfl
  | swaps => cases stays _ _ _ rfl
  | idles | announces | lists | replies | edits => exact booked.keep rfl rfl rfl
  | opens caller auths requested owner receivers after opening ran =>
      have listed : Books (mayLose env (.action caller auths requested)) before { before with receivers := receivers } :=
        booked.keep rfl rfl rfl
      exact listed.trans (openInternalBalance_books listed.booked ran)
  | closes caller auths owner after ran => exact close_books booked ran
  | withdraws caller auths owner quantity recipient after ran =>
      refine (withdraw_books booked ran).mono ?_
      rintro payer ⟨rfl, authorised⟩
      exact Or.inr (Or.inl ⟨rfl, sees _ authorised⟩)
  | deposits token sender quantity memo receiver after deposited =>
      have refreshed := booked.refreshPrices (mayLose env (.transfer token sender env.self quantity memo)) env
      exact refreshed.trans (deposit_books refreshed.booked (positive _ _ _ _ _ rfl) deposited)
  | adjustsEvm caller auths id delta subtract after ran => exact addevmbal_books booked ran
  | adjustsOpen caller auths account delta subtract after ran =>
      exact (addopenbal_books booked ran).mono fun _ authorised => Or.inr (Or.inl (sees _ authorised))
  | migrates caller auths fromName limit after ran => exact absurd ran (migratebal_aborts booked.sound)
  | pushes caller auths miner rlptx minPrice after ready processed =>
      have refreshed := booked.refreshPrices (mayLose env (.action caller auths (.pushtx miner rlptx minPrice))) env
      obtain ⟨tx, decoded, books⟩ := processTx_books refreshed.booked processed
      refine refreshed.trans (books.mono ?_)
      rintro owner ⟨sender, recovered, ⟨_, special, account, rfl, charged⟩ | own | ⟨paid, _⟩⟩
      · have relaxed : env.sender = some env.self := by
          by_contra other
          rw [pushtxConfig, if_neg other] at special
          cases special
        rw [pushtxConfig, if_pos relaxed] at charged
        rcases charged with rfl | none
        · exact Or.inr (Or.inr ⟨_, _, _, _, _, tx, _, rfl, relaxed, (require_ok _ _ _).mp decoded, recovered, rfl⟩)
        · cases none
      · exact Or.inl own
      · unfold pushtxConfig at paid
        split at paid <;> cases paid
  | bridges request payer tx middle after ready bridges dispatched =>
      have first := bridges.books (mayLose env request) booked positive
      refine first.trans ((dispatchTx_books first.booked dispatched).mono ?_)
      intro owner pays
      exact (bridges.bills signs sees pays).imp_right Or.inl

theorem migratebal_one {owner : Name} {row : BalanceWithDust} (found : before.funds.balances.get? owner = some row)
    (ran : migratebal owner 1 before = .ok after) :
    ∃ symbol, after = { before with funds := { before.funds with
      balances := before.funds.balances.modify owner fun row => row.withSymbol symbol } } := by
  obtain ⟨inevm, _, _, rfl, stale, rfl⟩ := migratebal_ok ran
  have visited : before.migrated owner (1 : Int).toNat = [(owner, row)] := Table.take_filter_le _ found
  rw [visited] at stale ⊢
  refine ⟨inevm.balance.symbol, ?_⟩
  by_cases changed : row.balance.symbol ≠ inevm.balance.symbol
  · simp [changed]
  · simp [changed] at stale

theorem swapgastoken_balances {env : Env} {newTokenContract : Name} {newSymbol : Symbol} {swapDestAccount : Name}
    {swapMemo : Bytes} (opened : before.Opened env.self)
    (ran : swapgastoken env newTokenContract newSymbol swapDestAccount swapMemo before = .ok after) {owner : Name}
    (other : owner ≠ env.self) : after.funds.balances.get? owner = before.funds.balances.get? owner := by
  obtain ⟨_, inevm, statistics, swapped, found, _, migrated, ran⟩ := swapgastoken_ok ran
  obtain ⟨row, own⟩ := Option.isSome_iff_exists.mp (opened.own (by rw [found]; rfl))
  obtain ⟨symbol, rfl⟩ := migratebal_one (by exact own) migrated
  have kept := Table.get?_modify before.funds.balances env.self owner fun row => row.withSymbol symbol
  rw [if_neg other.symm] at kept
  rcases ran with rfl | ⟨_, rfl⟩ <;> exact kept

end Contract

/-- A request that swaps the token. -/
def Request.isSwap : Request → Bool
  | .action _ _ requested => requested.isSwap
  | .transfer _ _ _ _ _ => false

variable {host : Host} {world : World} {view : ChainView} {before after : List Request} {request : Request}
  {rest : List Pending} {holding : Name → Symbol → Nat} {contract : Contract}

theorem Handled.books (signs : host.evm.Signs) (booked : world.contract.Booked) (stays : request.isSwap = false)
    (handled : Handled host view before after request rest holding contract world) :
    world.contract.Books (Contract.mayLose (host.env view world.now request) request) contract := by
  have did := Request.run_does handled.ran
  have sees : ∀ name, name ∈ (host.env view world.now request).auths → name ∈ request.auths := by
    cases request <;> exact fun _ member => member
  cases request with
  | action caller auths requested =>
      refine did.books signs sees booked load_unstored (fun _ _ _ _ _ same => by cases same) ?_
      rintro _ _ _ ⟨⟩
      exact stays
  | transfer token sender recipient quantity memo =>
      by_cases known : token = world.tables.tokenContract
      · refine did.books signs sees booked load_unstored ?_ (fun _ _ _ same => by cases same)
        rintro _ _ _ _ _ ⟨⟩
        have moved := handled.moved
        rw [Request.moved, if_pos known] at moved
        exact (TokenContract.move_ok moved).1
      · have same := Contract.transfer_unknown known handled.ran
        subst same
        exact booked.keep rfl rfl rfl

theorem Handled.value_le (signs : host.evm.Signs) (booked : world.contract.Booked)
    (opened : world.contract.Opened host.self)
    (handled : Handled host view before after request rest holding contract world) {owner : Name}
    (other : owner ≠ host.self) (free : ¬ Contract.mayLose (host.env view world.now request) request owner) :
    world.contract.funds.valueOf owner ≤ contract.funds.valueOf owner := by
  cases swap : request.isSwap with
  | false => exact (handled.books signs booked swap).kept owner free
  | true =>
      cases request with
      | transfer => cases swap
      | action caller auths requested =>
          cases requested with
          | swapgastoken =>
              have same := Contract.swapgastoken_balances (by exact opened) handled.ran other
              rw [Funds.valueOf, Funds.valueOf, same]
              rfl
          | _ => cases swap

namespace World

/-- The books are in order, what other accounts ask for is no swap, and what the contract
sent to itself charges those that authorised the request it was sent for. -/
structure Accounted (host : Host) (world : World) : Prop where
  booked : world.contract.Booked
  opened : world.contract.Opened host.self
  requests : ∀ request, .request request ∈ world.stack → request.isForeign host.self = true ∧ request.isSwap = false
  pushed : ∀ sent, .sent sent ∈ world.stack → ∀ miner rlptx, sent.action = .pushtx miner rlptx →
    ∀ tx owner, host.evm.decodeTransaction rlptx = some tx →
      host.evm.recoverSender tx = some (makeReservedAddress owner) →
      owner = host.self ∨ sent.cause.Bills host.self owner

theorem Accounted.stays (accounted : world.Accounted host)
    (handled : Handled host view before after request rest holding contract world) : request.isSwap = false := by
  rcases handled.top.stack_eq with arriving | ⟨sent, _, _, unpacked⟩
  · exact (accounted.requests _ (arriving ▸ List.mem_cons_self ..)).2
  · cases request with
    | transfer => rfl
    | action caller auths requested =>
        rcases (Inline.request_action unpacked).2 with none | plain
        · by_contra swap
          have privileged : ¬ (requested.isAdmin = false ∧ requested.isSwap = false) := fun plain => swap plain.2
          have authorised := Action.run_privileged privileged handled.ran
          simp [Host.env, none] at authorised
        · exact plain.2

theorem pushed_bills (signs : host.evm.Signs) {miner : Name} {rlptx : Bytes} {tx : Transaction} {owner : Name}
    (handled : Handled host view before after request rest holding contract world)
    (sent : .pushtx miner rlptx ∈ sentActions contract.effects) (decoded : host.evm.decodeTransaction rlptx = some tx)
    (recovered : host.evm.recoverSender tx = some (makeReservedAddress owner)) :
    owner = host.self ∨ request.Bills host.self owner := by
  have sees : ∀ name, name ∈ (host.env view world.now request).auths → name ∈ request.auths := by
    cases request <;> exact fun _ member => member
  obtain ⟨made, middle, bridges, rfl, _⟩ := (Request.run_does handled.ran).dispatches rfl sent
  obtain ⟨_, nonce, s, form⟩ := bridges.effects
  rw [Host.env_evm, signs.decoded made nonce s form] at decoded
  cases decoded
  exact bridges.bills signs sees
    ⟨_, recovered, Or.inl ⟨form.special, rfl, owner, rfl, Or.inl rfl⟩⟩

theorem Accounted.step {label : Label} {next : World} (signs : host.evm.Signs) (accounted : world.Accounted host)
    (stays : ∀ request ∈ label.requests, request.isSwap = false) (stepped : Stepped host world label next) :
    next.Accounted host := by
  have requests : ∀ request, .request request ∈ next.stack →
      request.isForeign host.self = true ∧ request.isSwap = false := by
    intro request member
    rcases stepped.mem_stack member with ⟨_, inside, ⟨⟩⟩ | old | ⟨_, _, _, _, _, _, _, _, _, sent⟩
    · exact ⟨stepped.foreign request inside, stays request inside⟩
    · exact accounted.requests request old
    · obtain ⟨_, _, ⟨⟩⟩ := mem_scheduled.mp sent
  have pushed : ∀ sent, .sent sent ∈ next.stack → ∀ miner rlptx, sent.action = .pushtx miner rlptx →
      ∀ tx owner, host.evm.decodeTransaction rlptx = some tx →
        host.evm.recoverSender tx = some (makeReservedAddress owner) →
        owner = host.self ∨ sent.cause.Bills host.self owner := by
    intro sent member miner rlptx action
    rcases stepped.mem_stack member with ⟨_, _, ⟨⟩⟩ | old | ⟨_, _, _, _, _, _, _, handled, rfl, new⟩
    · exact accounted.pushed sent old miner rlptx action
    · obtain ⟨_, inside, ⟨⟩⟩ := mem_scheduled.mp new
      cases action
      exact fun tx owner => pushed_bills signs handled inside
  cases stepped with
  | tick | submit | passed => exact ⟨accounted.booked, accounted.opened, requests, pushed⟩
  | handled view before after request rest holding contract handled =>
      have booked := (handled.books signs accounted.booked (accounted.stays handled)).booked
      have config := handled.reconfigures.2
      have symbol : (world.handled before after request rest holding contract).contract.config.getTokenSymbol =
          contract.config.getTokenSymbol :=
        (congrArg ConfigWrapper.getTokenSymbol config).trans (ConfigWrapper.getTokenSymbol_of_token rfl)
      refine ⟨⟨symbol ▸ booked.precise, ?_⟩, ?_, requests, pushed⟩
      · rw [symbol]
        exact booked.sound
      · have opened := ((Request.run_does handled.ran).opened accounted.opened).1
        exact ⟨opened.counted, opened.own⟩

/-- What runs next was authorised to charge an account: it is a request the account or the
contract authorised, the transaction that the contract sent itself for such a request, or
a callback of `exec`. -/
def Billed (host : Host) (world : World) (owner : Name) : Prop :=
  ∃ pending rest, world.stack = pending :: rest ∧
    match pending with
    | .request request => request.Bills host.self owner
    | .sent sent =>
        (∃ miner rlptx, sent.action = .pushtx miner rlptx ∧ sent.cause.Bills host.self owner) ∨
          ∃ callback output, sent.action = .callback callback output

theorem Accounted.billed (accounted : world.Accounted host)
    (handled : Handled host view before after request rest holding contract world) {owner : Name}
    (other : owner ≠ host.self) (loses : Contract.mayLose (host.env view world.now request) request owner) :
    world.Billed host owner := by
  rcases handled.top.stack_eq with arriving | ⟨sent, leaving, own, unpacked⟩
  · refine ⟨_, _, arriving, ?_⟩
    rcases loses with same | bills | ⟨caller, _, _, _, _, _, _, rfl, same, _⟩
    · exact absurd same other
    · exact bills
    · have foreign := (accounted.requests _ (arriving ▸ List.mem_cons_self ..)).1
      have claimed : caller = some host.self := same
      simp [Request.isForeign, claimed] at foreign
  · refine ⟨_, _, leaving, ?_⟩
    have pushed := accounted.pushed sent (leaving ▸ List.mem_cons_self ..)
    cases action : sent.action with
    | callback callback output => exact Or.inr ⟨callback, output, action⟩
    | onbridgemsg => rw [action] at unpacked; cases unpacked
    | transfer | configchange | evmtx =>
        rw [action] at unpacked
        cases unpacked
        rcases loses with same | bills | ⟨_, _, _, _, _, _, _, ⟨⟩, _⟩
        · exact absurd same other
        · exact bills.elim
    | pushtx miner rlptx =>
        rw [action] at unpacked
        cases unpacked
        rcases loses with same | bills | ⟨_, _, _, _, _, tx, _, ⟨⟩, _, decoded, recovered, rfl⟩
        · exact absurd same other
        · exact bills.elim
        · exact Or.inl ⟨miner, rlptx, action,
            (pushed miner rlptx action tx owner decoded recovered).resolve_left other⟩

end World

/-- In every state reached without a swap, a balance of another account shrinks only in what
was authorised to charge it. -/
theorem run_debits_authorised (host : Host) (signs : host.evm.Signs) (holding : Name → Symbol → Nat)
    (labels : List Label) (world : World) (finished : run host labels (World.start holding) = .ok world)
    (stays : ∀ label ∈ labels, ∀ request ∈ label.requests, request.isSwap = false) (label : Label) (next : World)
    (stepped : step host world label = .ok next) (owner : Name) (other : owner ≠ host.self)
    (lost : next.tables.funds.valueOf owner < world.tables.funds.valueOf owner) : world.Billed host owner := by
  have accounted : world.Accounted host := run_invariant (World.Accounted host)
    (fun _ label _ member accounted stepped => accounted.step signs (stays label member) stepped)
    ⟨⟨Nat.zero_le _, ⟨fun _ _ found => (by cases found), fun _ found => (by cases found)⟩⟩,
      ⟨fun _ isOpen => (by cases isOpen), fun counted => (by cases counted)⟩,
      fun _ member => (by cases member), fun _ member => (by cases member)⟩ finished
  cases step_ok stepped with
  | tick | submit | passed => exact absurd lost (Nat.lt_irrefl _)
  | handled view before after request rest holding contract handled =>
      refine accounted.billed handled other ?_
      by_contra free
      have kept := handled.value_le signs accounted.booked accounted.opened other free
      exact absurd lost (Nat.not_lt.mpr kept)

theorem Ledger.evm_signs : Ledger.evm.Signs where
  named := by
    intro tx account special named
    have small := account.isLt
    simp only [Ledger.evm, Ledger.recoverSender, Transaction.isSpecialSignature, special, named, beq_self_eq_true,
      if_true, if_pos small]
    congr 2
    exact Fin.ext (Nat.mod_eq_of_lt small)
  padded := by
    intro tx address special padded
    have bound := address.isLt
    have large : ¬ 2 ^ 256 - 2 ^ 160 + address.toNat < 2 ^ 64 := by omega
    have marked : 2 ^ 256 - 2 ^ 160 ≤ 2 ^ 256 - 2 ^ 160 + address.toNat := Nat.le_add_right _ _
    simp only [Ledger.evm, Ledger.recoverSender, Transaction.isSpecialSignature, special, padded, beq_self_eq_true,
      if_true, if_neg large, if_pos marked]
    congr 1
    apply BitVec.eq_of_toNat_eq
    rw [BitVec.toNat_ofNat]
    omega
  reserved := by
    intro tx account recovered
    by_contra special
    simp only [Ledger.evm, Ledger.recoverSender, Transaction.isSpecialSignature, beq_iff_eq, if_neg special] at recovered
    split at recovered
    · cases recovered
    · rename_i ordinary
      rw [Option.some.inj recovered] at ordinary
      simp at ordinary
  decoded := fun tx nonce s form => Ledger.decodeTransaction_encodeTransaction form

theorem run_debits_authorised_call :
    let labels := Ledger.opening ++ Ledger.pay Ledger.alice 1000000 "alice" 0 ++
      Ledger.act Ledger.alice (Ledger.callNothing Ledger.alice 21000) 0
    let label : Label := .next Ledger.view [] []
    ∃ world next, run Ledger.host labels (World.start fun _ _ => 0) = .ok world ∧
      step Ledger.host world label = .ok next ∧
      next.tables.funds.valueOf Ledger.alice < world.tables.funds.valueOf Ledger.alice ∧
      world.Billed Ledger.host Ledger.alice := by
  intro labels label
  obtain ⟨world, finished, seen⟩ := exists_of_view (run Ledger.host labels (World.start fun _ _ => 0))
    (fun world => (step Ledger.host world label).toOption.map fun next =>
      decide (next.tables.funds.valueOf Ledger.alice < world.tables.funds.valueOf Ledger.alice)) (some true)
    (by decide +kernel)
  obtain ⟨next, stepped, lost⟩ := exists_of_view _ _ true seen
  rw [decide_eq_true_eq] at lost
  refine ⟨world, next, finished, stepped, lost, ?_⟩
  exact run_debits_authorised Ledger.host Ledger.evm_signs _ labels world finished (by decide +kernel) label next
    stepped Ledger.alice (by decide +kernel) lost

end EosEvm

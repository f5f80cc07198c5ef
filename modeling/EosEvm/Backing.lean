import EosEvm.ConfigToken
import EosEvm.DbTotals
import EosEvm.Execute
import EosEvm.Contract
import EosEvm.Actions

/-! Actions conserve what the contract owes. The liabilities of the contract are the open
balances, the value inside the EVM and the transfers it has sent; an action keeps them,
except for a deposit, which adds the quantity that arrived. -/

namespace EosEvm

open Abort Words

/-- What is assumed of one run: each changed object starts from the account in the
tables, and no value is created, the reserved accounts included. -/
structure RunConserves (input : RunInput) (output : RunOutput) : Prop where
  reads : ∀ address initial current code, DbWrite.object address initial current code ∈ output.writes →
    ∃ handle, (State.fresh input.db false false).readAccount address = .ok (initial, handle)
  conserved : DbWrite.currentTotal output.writes + reservedTotal output.reservedObjects ≤
    DbWrite.initialTotal output.writes + (input.funded.map Prod.fst).getD 0

/-- No run creates value. -/
def Silkworm.Conserves (evm : Silkworm) : Prop :=
  ∀ input output, evm.executeTransaction input = .ok output → RunConserves input output

/-- If the action is a transfer, it is one of the configured token. -/
def Inline.Pays (token : Name × Symbol) : Inline → Prop
  | .transfer contract _ quantity _ => (contract, quantity.symbol) = token ∧ token.2 ≠ Symbol.none
  | _ => True

theorem balanceOf_readAccount {state handle : State} {address : Address} {account : Option Account}
    (read : state.readAccount address = .ok (account, handle)) :
    DbWrite.balanceOf account = state.db.balanceAt address := by
  simp only [State.readAccount] at read
  split at read
  · rename_i absent
    cases read
    simp [DbWrite.balanceOf, Db.balanceAt, absent]
  · rename_i id row found
    simp only [bind_ok, check_ok, exists_const] at read
    obtain ⟨_, read⟩ := read
    have whole : ∀ codeHash, account = some ⟨row.nonce, row.balance, codeHash, 0⟩ →
        DbWrite.balanceOf account = state.db.balanceAt address := by
      rintro codeHash rfl
      simp [DbWrite.balanceOf, Db.balanceAt, found]
    split at read
    · simp only [pure_ok, Prod.mk.injEq] at read
      exact whole _ read.1.symm
    · split at read <;> simp only [pure_ok, Prod.mk.injEq] at read
      · exact whole _ read.1.symm
      · exact whole _ read.1.symm

theorem RunConserves.startsFrom {input : RunInput} {output : RunOutput} (law : RunConserves input output) :
    ∀ write ∈ output.writes, write.StartsFrom input.db := by
  intro write member
  cases write with
  | storage => trivial
  | object address initial current code =>
      obtain ⟨handle, read⟩ := law.reads address initial current code member
      exact balanceOf_readAccount read

theorem outflow_eq_zero (actions : List Inline) (silent : ∀ action ∈ actions, action.outflow = 0) :
    outflow actions = 0 := by
  induction actions with
  | nil => rfl
  | cons action actions ih =>
      rw [outflow_cons, silent action (List.mem_cons_self ..),
        ih fun other member => silent other (List.mem_cons_of_mem _ member), add_zero]

namespace Contract

/-- Balances are normal, and the EVM accounts hold no more than the tokens inside the EVM. -/
structure Backed (contract : Contract) : Prop where
  precise : contract.config.getTokenSymbol.precision ≤ evmPrecision
  sound : contract.funds.Sound contract.config.getTokenSymbol
  unique : contract.db.UniqueAddress
  inside : contract.db.balanceTotal ≤ contract.funds.evmValue
  orderly : ∀ action ∈ sentActions contract.effects, action.Pays contract.config.token

/-- EVM units in one unit of the configured token. -/
def unit (contract : Contract) : Nat := contract.config.getTokenSymbol.unit

def liabilities (contract : Contract) : Int :=
  contract.funds.openTotal + contract.funds.evmValue +
    contract.unit * outflow (sentActions contract.effects)

/-- A step that keeps the contract backed and adds an inflow to what it owes. -/
structure Settles (before after : Contract) (inflow : Int) : Prop where
  backed : after.Backed
  token : after.config.token = before.config.token
  balanced : after.liabilities = before.liabilities + before.unit * inflow

variable {before middle after : Contract} {inflow : Int}

theorem unit_of_token (same : after.config.token = before.config.token) : after.unit = before.unit := by
  unfold unit
  rw [ConfigWrapper.getTokenSymbol_of_token same]

theorem Settles.trans (first : Settles before middle inflow) (second : Settles middle after 0) :
    Settles before after inflow where
  backed := second.backed
  token := second.token.trans first.token
  balanced := by rw [second.balanced, first.balanced, mul_zero, add_zero]

theorem Backed.keep (backed : before.Backed) (token : after.config.token = before.config.token)
    (balances : after.funds.balances = before.funds.balances) (inevm : after.funds.inevm = before.funds.inevm)
    (accounts : after.db.accounts = before.db.accounts)
    (sends : ∃ actions, sentActions after.effects = sentActions before.effects ++ actions ∧
      ∀ action ∈ actions, action.outflow = 0 ∧ ∀ token, action.Pays token) :
    Settles before after 0 := by
  obtain ⟨actions, sentEq, harmless⟩ := sends
  have symbol := ConfigWrapper.getTokenSymbol_of_token token
  have silent := outflow_eq_zero actions fun action member => (harmless action member).1
  have openSame : after.funds.openTotal = before.funds.openTotal := by simp [Funds.openTotal, balances]
  have evmSame : after.funds.evmValue = before.funds.evmValue := by simp [Funds.evmValue, inevm]
  refine ⟨⟨?_, ⟨?_, ?_⟩, ?_, ?_, ?_⟩, token, ?_⟩
  · rw [symbol]
    exact backed.precise
  · rw [balances, symbol]
    exact backed.sound.balances
  · rw [inevm, symbol]
    exact backed.sound.inevm
  · rw [Db.UniqueAddress, accounts]
    exact backed.unique
  · rw [evmSame, Db.balanceTotal, accounts]
    exact backed.inside
  · intro action member
    rw [sentEq] at member
    rw [token]
    rcases List.mem_append.mp member with old | new
    · exact backed.orderly action old
    · exact (harmless action new).2 _
  · unfold liabilities
    rw [openSame, evmSame, unit_of_token token, sentEq, outflow_append, silent, add_zero, mul_zero, add_zero]

theorem Backed.configured (backed : before.Backed) {config : ConfigWrapper} (token : config.token = before.config.token) :
    Settles before { before with config := config } 0 :=
  backed.keep token rfl rfl rfl ⟨[], by simp⟩

theorem processTx_settles {env : Env} (law : env.evm.Conserves) {rc : RuntimeConfig} {miner : Name} {txn : Txn}
    {minPrice : Option Nat} (backed : before.Backed)
    (processed : processTx env rc miner txn minPrice before = .ok after) : Settles before after 0 := by
  obtain ⟨tx, funds, transfers, input, output, delivered, notices, db, _, _, _, _, _, executed, filtered, written,
    rfl⟩ := processTx_ok processed
  generalize configEq : ((before.config.promoteEvmVersion env.now).2.promoteConsensusParam env.now).2.2 = config at *
  have token : config.token = before.config.token := by
    rw [← configEq, ConfigWrapper.promoteConsensusParam_token, ConfigWrapper.promoteEvmVersion_token]
  have symbol := ConfigWrapper.getTokenSymbol_of_token token
  obtain ⟨charged, fromSelf, begun, _, ran, settled⟩ := executeTx_ok executed
  obtain ⟨sender, funded, _, prepared, rfl⟩ := beginTx_ok begun
  obtain ⟨flowPrepared, openPrepared, evmPrepared⟩ := prepareSender_spec backed.sound prepared
  have run := law _ _ ran
  obtain ⟨uniqueAfter, dbTotal⟩ := DbWrite.applyAll_total backed.unique output.distinctWrites run.startsFrom written
  have conserved := run.conserved
  have inside := backed.inside
  have covered : reservedTotal output.reservedObjects ≤ charged.evmValue := by
    simp only at conserved
    omega
  obtain ⟨sentEq, valid, evmSettled, openSettled⟩ :=
    settleTx_total flowPrepared.sound symbol backed.precise covered settled
  have soundFunds := (settleTx_flow flowPrepared.sound settled).sound
  obtain ⟨flowDelivered, evmDelivered, openDelivered, noticed⟩ := processFilteredMessages_spec soundFunds filtered
  have evmAfter : delivered.evmValue = funds.evmValue := by simp [Funds.evmValue, evmDelivered]
  simp only at conserved
  refine ⟨⟨?_, ?_, uniqueAfter, ?_, ?_⟩, token, ?_⟩
  · simp only [symbol]
    exact backed.precise
  · simp only [symbol]
    exact flowDelivered.sound
  · simp only
    omega
  · intro action member
    simp only [sentActions_append, sentActions_sent, sentActions_ran, List.append_nil] at member
    simp only [token]
    rcases List.mem_append.mp member with old | new
    · exact backed.orderly action old
    · rcases List.mem_append.mp new with earlier | event
      · rcases List.mem_append.mp earlier with transfer | notice
        · have named := Symbol.ne_none_of_isValid (valid (List.ne_nil_of_mem transfer))
          rw [sentEq] at transfer
          obtain ⟨message, _, rfl⟩ := List.mem_map.mp transfer
          exact ⟨by rw [← token]; rfl, named⟩
        · obtain ⟨_, _, rfl⟩ := noticed action notice
          trivial
      · rcases mem_txEvents event with ⟨_, rfl⟩ | ⟨_, rfl⟩ <;> trivial
  · have silentNotices : outflow notices = 0 := outflow_eq_zero _ fun action member => by
      obtain ⟨_, _, rfl⟩ := noticed action member
      rfl
    have silentEvents := outflow_eq_zero (txEvents config (before.config.promoteEvmVersion env.now).1
        ((before.config.promoteEvmVersion env.now).2.promoteConsensusParam env.now).1
        ((before.config.promoteEvmVersion env.now).2.promoteConsensusParam env.now).2.1 (txn.getRlptx env.evm))
      fun action member => by
        rcases mem_txEvents member with ⟨_, rfl⟩ | ⟨_, rfl⟩ <;> rfl
    simp only [liabilities, unit, symbol, sentActions_append, sentActions_sent, sentActions_ran,
      List.append_nil, outflow_append, silentNotices, silentEvents, add_zero, mul_zero, mul_add]
    omega

theorem refreshPrices_settles (backed : before.Backed) (env : Env) : Settles before (refreshPrices env before) 0 := by
  unfold refreshPrices
  split
  · exact backed.configured (ConfigWrapper.processPriceQueue_token _ _)
  · exact backed.configured rfl

theorem dispatchTx_settles {env : Env} (law : env.evm.Conserves) {rc : RuntimeConfig} {tx : Transaction}
    (backed : before.Backed) (dispatched : dispatchTx env rc tx before = .ok after) : Settles before after 0 := by
  simp only [dispatchTx] at dispatched
  have promoted := backed.configured (ConfigWrapper.promoteEvmVersion_token before.config env.now)
  split at dispatched
  · exact promoted.trans (processTx_settles law promoted.backed dispatched)
  · simp only [bind_ok, check_ok, exists_const, pure_ok] at dispatched
    obtain ⟨_, rfl⟩ := dispatched
    exact promoted.trans (promoted.backed.keep rfl rfl rfl rfl ⟨_, sentActions_emit _ _, by
      simp [Inline.outflow, Inline.Pays]⟩)

theorem callWith_settles {env : Env} (law : env.evm.Conserves) {rc : RuntimeConfig} {s value gasLimit nonce : Nat}
    {recipient data : Bytes} (backed : before.Backed)
    (called : callWith env rc s recipient value data gasLimit nonce before = .ok after) :
    Settles before after 0 := by
  have refreshed := refreshPrices_settles backed env
  exact refreshed.trans (dispatchTx_settles law refreshed.backed called)

theorem getAndIncrementNonce_settles {owner : Name} {nonce : Nat} (backed : before.Backed)
    (numbered : getAndIncrementNonce owner before = .ok (nonce, after)) : Settles before after 0 := by
  obtain ⟨_, rfl⟩ := getAndIncrementNonce_ok numbered
  exact backed.keep rfl rfl rfl rfl ⟨[], by simp⟩

theorem openInternalBalance_settles {owner : Name} (backed : before.Backed)
    (opened : openInternalBalance owner before = .ok after) : Settles before after 0 := by
  obtain ⟨balances, row, rfl⟩ := openInternalBalance_ok opened
  rcases openRow_ok row with ⟨_, rfl⟩ | ⟨isClosed, valid, rfl⟩
  · exact backed.keep rfl rfl rfl rfl ⟨[], by simp⟩
  · obtain ⟨sound, _, total⟩ := Funds.openRow_spec backed.sound (Symbol.ne_none_of_isValid valid) backed.precise isClosed
    refine ⟨⟨backed.precise, sound, backed.unique, backed.inside, backed.orderly⟩, rfl, ?_⟩
    simp only [liabilities, unit, total, mul_zero, add_zero]
    rfl

theorem close_settles {env : Env} {owner : Name} (backed : before.Backed)
    (closed : close env owner before = .ok after) : Settles before after 0 := by
  obtain ⟨_, row, _, found, zero, _, rfl⟩ := close_ok closed
  obtain ⟨sound, _, total⟩ := Funds.closeRow_spec backed.sound found zero
  refine ⟨⟨backed.precise, sound, backed.unique, backed.inside, backed.orderly⟩, rfl, ?_⟩
  simp only [liabilities, unit, total, mul_zero, add_zero]
  rfl

theorem deposit_settles {owner : Name} {quantity : Asset} {missing : String} (backed : before.Backed)
    (positive : 0 < quantity.amount) (deposited : deposit owner quantity missing before = .ok after) :
    Settles before after quantity.amount := by
  obtain ⟨row, balance, found, added, rfl⟩ := deposit_ok deposited
  obtain ⟨_, _, bounded, shifted⟩ := (Asset.add_ok _ _ _).mp added
  obtain ⟨normal, symbolRow⟩ := backed.sound.balances owner row found
  have nonneg := normal.nonneg
  have shape : balance = ⟨row.balance.amount + quantity.amount, before.config.getTokenSymbol⟩ := by
    rw [← shifted, symbolRow]
  obtain ⟨sound, _, _, total⟩ := Funds.shift_spec backed.sound quantity.amount found shape (by omega) bounded
  refine ⟨⟨backed.precise, sound, backed.unique, backed.inside, backed.orderly⟩, rfl, ?_⟩
  simp only [liabilities, unit, total]
  have evmSame : ({ before.funds with
      balances := before.funds.balances.put owner { row with balance := balance } } : Funds).evmValue =
      before.funds.evmValue := rfl
  rw [evmSame]
  ring

theorem withdraw_settles {env : Env} {owner : Name} {quantity : Asset} {recipient : Option Name}
    (backed : before.Backed) (withdrawn : withdraw env owner quantity recipient before = .ok after) :
    Settles before after 0 := by
  obtain ⟨_, symbol, row, balance, found, enough, bounded, shape, rfl⟩ := withdraw_ok withdrawn
  obtain ⟨normal, symbolRow⟩ := backed.sound.balances owner row found
  have named : before.config.getTokenSymbol ≠ Symbol.none := symbolRow ▸ normal.named
  obtain ⟨sound, _, _, total⟩ := Funds.shift_spec backed.sound (-quantity.amount) found shape (by omega) bounded
  refine ⟨⟨backed.precise, sound, backed.unique, backed.inside, ?_⟩, rfl, ?_⟩
  · intro action member
    rw [sentActions_emit] at member
    rcases List.mem_append.mp member with old | new
    · exact backed.orderly action old
    · rw [List.mem_singleton] at new
      subst new
      exact ⟨Prod.ext rfl symbol.symm, named⟩
  · have evmSame : ({ before.funds with
        balances := before.funds.balances.put owner { row with balance := balance } } : Funds).evmValue =
        before.funds.evmValue := rfl
    simp only [liabilities, sentActions_emit, outflow_append, outflow_cons, outflow_nil, Inline.outflow]
    simp only [emit, unit, total, evmSame]
    ring

theorem recordIngressFee_settles (backed : before.Backed) (recorded : before.recordIngressFee = .ok after) :
    Settles before after 0 := by
  obtain ⟨_, rfl⟩ := recordIngressFee_ok recorded
  exact backed.keep rfl rfl rfl rfl ⟨[], by simp⟩

theorem handleAccountTransfer_settles {env : Env} {quantity : Asset} {memo : Bytes} (backed : before.Backed)
    (positive : 0 < quantity.amount) (handled : handleAccountTransfer env quantity memo before = .ok after) :
    Settles before after quantity.amount := by
  simp only [handleAccountTransfer, bind_ok] at handled
  obtain ⟨receiver, _, deposited⟩ := handled
  have refreshed := refreshPrices_settles backed env
  have settled := deposit_settles refreshed.backed positive deposited
  refine ⟨settled.backed, settled.token.trans refreshed.token, ?_⟩
  rw [settled.balanced, refreshed.balanced, unit_of_token refreshed.token, mul_zero, add_zero]

theorem handleEvmTransfer_settles {env : Env} (law : env.evm.Conserves) {quantity : Asset} {memo : Bytes}
    (backed : before.Backed) (positive : 0 < quantity.amount)
    (handled : handleEvmTransfer env quantity memo before = .ok after) :
    Settles before after quantity.amount := by
  simp only [handleEvmTransfer, bind_ok, check_ok, require_ok, exists_const] at handled
  obtain ⟨received, deposited, bridged, _, _, recorded, records, address, _, unit, _, ⟨nonce, numbered⟩, numbers,
    dispatched⟩ := handled
  have refreshed := refreshPrices_settles backed env
  have receives := deposit_settles refreshed.backed positive deposited
  have recordSettled := recordIngressFee_settles receives.backed records
  have numberSettled := getAndIncrementNonce_settles recordSettled.backed numbers
  have dispatchSettled := dispatchTx_settles law numberSettled.backed dispatched
  have settled := ((receives.trans recordSettled).trans numberSettled).trans dispatchSettled
  refine ⟨settled.backed, settled.token.trans refreshed.token, ?_⟩
  rw [settled.balanced, refreshed.balanced, unit_of_token refreshed.token, mul_zero, add_zero]

theorem transfer_settles {env : Env} (law : env.evm.Conserves) {sender recipient : Name} {quantity : Asset}
    {memo : Bytes} (backed : before.Backed)
    (positive : env.code = before.config.cached.tokenContract → 0 < quantity.amount)
    (handled : transfer env sender recipient quantity memo before = .ok after) :
    ∃ inflow, Settles before after inflow ∧ (inflow = 0 ∨
      inflow = quantity.amount ∧ recipient = env.self ∧ sender ≠ env.self ∧
        (env.code, quantity.symbol) = before.config.token) := by
  simp only [transfer, bind_ok, assertUnfrozen_ok, exists_const] at handled
  obtain ⟨_, handled⟩ := handled
  split at handled
  · rw [pure_ok] at handled
    exact ⟨0, handled ▸ backed.configured rfl, Or.inl rfl⟩
  · rename_i incoming
    push Not at incoming
    simp only [bind_ok, check_ok, exists_const] at handled
    obtain ⟨⟨code, symbol⟩, handled⟩ := handled
    have arrived : quantity.amount = quantity.amount ∧ recipient = env.self ∧ sender ≠ env.self ∧
        (env.code, quantity.symbol) = before.config.token := ⟨rfl, incoming.1, incoming.2, Prod.ext code symbol⟩
    split at handled
    · rw [pure_ok] at handled
      exact ⟨0, handled ▸ backed.configured rfl, Or.inl rfl⟩
    · split at handled
      · exact ⟨_, handleEvmTransfer_settles law backed (positive code) handled, Or.inr arrived⟩
      · split at handled
        · exact ⟨_, handleAccountTransfer_settles backed (positive code) handled, Or.inr arrived⟩
        · cases handled

/-- A step that gives an unused contract its token. -/
structure Begins (before after : Contract) : Prop where
  unset : before.config.getTokenSymbol = Symbol.none
  backed : after.Backed
  free : after.liabilities = 0
  saved : after.config.dirty = true

theorem Begins.trans (first : Begins before middle) (second : Settles middle after 0)
    (dirty : after.config.dirty = middle.config.dirty) : Begins before after :=
  ⟨first.unset, second.backed, by rw [second.balanced, first.free, mul_zero, add_zero], dirty.trans first.saved⟩

theorem Backed.of_unset (backed : before.Backed) (unset : before.config.getTokenSymbol = Symbol.none) :
    (∀ owner, before.funds.balances.get? owner = none) ∧ before.funds.inevm = none ∧
      before.db.balanceTotal = 0 ∧ ∀ action ∈ sentActions before.effects, action.outflow = 0 ∧
        ∀ token, action.Pays token := by
  have sound := backed.sound
  rw [unset] at sound
  obtain ⟨empty, noInevm⟩ := sound.empty
  refine ⟨empty, noInevm, ?_, ?_⟩
  · have inside := backed.inside
    simp only [Funds.evmValue, noInevm, Option.map_none, Option.getD_none] at inside
    omega
  · intro action member
    have pays := backed.orderly action member
    cases action with
    | transfer contract recipient quantity memo => exact absurd unset pays.2
    | _ => exact ⟨rfl, fun _ => trivial⟩

theorem Backed.begins (backed : before.Backed) (unset : before.config.getTokenSymbol = Symbol.none)
    (precise : after.config.getTokenSymbol.precision ≤ evmPrecision) (inevm : Option BalanceWithDust)
    (zero : ∀ row, inevm = some row →
      row.Normal ∧ row.balance.symbol = after.config.getTokenSymbol ∧ row.value = 0)
    (funds : after.funds = { before.funds with inevm := inevm })
    (db : after.db = before.db) (effects : after.effects = before.effects)
    (saved : after.config.dirty = true) : Begins before after := by
  obtain ⟨empty, _, noBalance, silent⟩ := backed.of_unset unset
  have openZero : after.funds.openTotal = 0 := Funds.openTotal_of_empty (by rw [funds]; exact empty)
  have evmZero : after.funds.evmValue = 0 := by
    rw [funds]
    cases found : inevm with
    | none => rfl
    | some row => exact (zero row found).2.2
  have noOutflow : outflow (sentActions after.effects) = 0 := by
    rw [effects]
    exact outflow_eq_zero _ fun action member => (silent action member).1
  refine ⟨unset, ⟨precise, ⟨?_, ?_⟩, ?_, ?_, ?_⟩, ?_, saved⟩
  · intro owner row found
    rw [funds] at found
    simp [empty owner] at found
  · intro row found
    rw [funds] at found
    exact ⟨(zero row found).1, (zero row found).2.1⟩
  · rw [db]
    exact backed.unique
  · rw [db, noBalance]
    exact Nat.zero_le _
  · intro action member
    rw [effects] at member
    exact (silent action member).2 _
  · simp [liabilities, openZero, evmZero, noOutflow]

theorem setfeeparams_settles {env : Env} {fees : FeeParameters} (backed : before.Backed)
    (updated : setfeeparams env fees before = .ok after) : Settles before after 0 ∨ Begins before after := by
  simp only [setfeeparams, bind_ok, assertInited_ok, requireAuth_ok, exists_const, pure_ok] at updated
  obtain ⟨_, _, config, changed, rfl⟩ := updated
  cases charge : fees.ingressBridgeFee with
  | none => exact Or.inl (backed.configured (ConfigWrapper.setFeeParameters_omitted charge changed).2)
  | some fee =>
      obtain ⟨contract, symbol, precise, keeps⟩ := ConfigWrapper.setFeeParameters_given charge changed
      rcases keeps with unset | same
      · rw [← symbol] at precise
        refine Or.inr (backed.begins unset precise before.funds.inevm ?_ rfl rfl rfl
          (ConfigWrapper.setFeeParameters_dirty changed))
        intro row found
        rw [(backed.of_unset unset).2.1] at found
        cases found
      · exact Or.inl (backed.configured (Prod.ext contract (symbol.trans same)))

theorem initialInevm_ok {wrapper config : ConfigWrapper} {fees : FeeParameters} {now : Nat} {row : BalanceWithDust}
    (changed : wrapper.setFeeParameters fees false now = .ok config) (created : initialInevm fees none = .ok row) :
    config.getTokenSymbol.precision ≤ evmPrecision ∧ config.getTokenSymbol ≠ Symbol.none ∧
      row = { balance := ⟨0, config.getTokenSymbol⟩ } := by
  simp only [initialInevm, bind_ok, require_ok, pure_ok, Asset.make_ok] at created
  obtain ⟨fee, charge, zero, ⟨_, valid, rfl⟩, rfl⟩ := created
  obtain ⟨_, symbol, precise, _⟩ := ConfigWrapper.setFeeParameters_given charge changed
  rw [symbol]
  exact ⟨precise, Symbol.ne_none_of_isValid valid, rfl⟩

theorem init_begins {env : Env} {chainid : Nat} {fees : FeeParameters} {tokenContract : Option Name}
    (backed : before.Backed) (fresh : before.config.stored = false → before.config.getTokenSymbol = Symbol.none)
    (inited : init env chainid fees tokenContract before = .ok after) : Begins before after := by
  obtain ⟨unstored, config, inevm, changed, created, opened⟩ := init_ok inited
  have unset := fresh unstored
  rw [(backed.of_unset unset).2.1] at created
  obtain ⟨precise, named, rfl⟩ := initialInevm_ok changed created
  have saved := ConfigWrapper.setFeeParameters_dirty changed
  generalize middleEq : Contract.mk _ _ _ _ _ _ _ = middle at opened
  have begun : Begins before middle := by
    subst middleEq
    refine backed.begins unset precise (some { balance := ⟨0, config.getTokenSymbol⟩ }) ?_ rfl rfl rfl saved
    rintro row ⟨⟩
    exact ⟨BalanceWithDust.zero_normal _ named precise, rfl, by simp [BalanceWithDust.value]⟩
  exact begun.trans (openInternalBalance_settles begun.backed opened) (by rw [openInternalBalance_config opened])

theorem bridgereg_settles {env : Env} {receiver handler : Name} {minFee : Asset} (backed : before.Backed)
    (registered : bridgereg env receiver handler minFee before = .ok after) : Settles before after 0 := by
  simp only [bridgereg, Contract.open, bind_ok, assertUnfrozen_ok, requireAuth_ok, check_ok, exists_const] at registered
  obtain ⟨_, _, _, _, _, _, _, opened⟩ := registered
  generalize middleEq : Contract.mk _ _ _ _ _ _ _ = middle at opened
  have listed : Settles before middle 0 := by
    subst middleEq
    exact backed.keep rfl rfl rfl rfl ⟨[], by simp⟩
  exact listed.trans (openInternalBalance_settles listed.backed opened)

theorem exec_settles {env : Env} {input : ExecInput} {callback : Option ExecCallback} (backed : before.Backed)
    (executed : exec env input callback before = .ok after) : Settles before after 0 := by
  simp only [exec, bind_ok, assertUnfrozen_ok, check_ok, exists_const] at executed
  obtain ⟨_, _, _, _, _, _, executed⟩ := executed
  split at executed
  · rw [pure_ok] at executed
    subst executed
    exact backed.keep rfl rfl rfl rfl ⟨_, sentActions_emit _ _, by simp [Inline.outflow, Inline.Pays]⟩
  · rw [pure_ok] at executed
    exact executed ▸ backed.configured rfl

theorem callotherpay_settles {env : Env} (law : env.evm.Conserves) {payer sender : Name}
    {recipient value data : Bytes} {gasLimit : Nat} (backed : before.Backed)
    (called : callotherpay env payer sender recipient value data gasLimit before = .ok after) :
    Settles before after 0 := by
  simp only [callotherpay, bind_ok, assertUnfrozen_ok, requireAuth_ok, check_ok, exists_const] at called
  obtain ⟨_, _, _, _, _, _, ⟨nonce, numbered⟩, numbers, called⟩ := called
  have promoted := backed.configured (ConfigWrapper.promoteEvmVersion_token before.config env.now)
  have numberSettled := getAndIncrementNonce_settles promoted.backed numbers
  exact (promoted.trans numberSettled).trans (callWith_settles law numberSettled.backed called)

theorem adminNonce_settles {address : Address} {nonce : Nat} (backed : before.Backed)
    (numbered : adminNonce address before = .ok (nonce, after)) : Settles before after 0 := by
  rcases adminNonce_cases numbered with ⟨account, _, counted⟩ | ⟨_, rfl⟩
  · exact getAndIncrementNonce_settles backed counted
  · exact backed.configured rfl

theorem migratebal_aborts {fromName : Name} {limit : Int} {symbol : Symbol} (sound : before.funds.Sound symbol) :
    migratebal fromName limit before ≠ .ok after := by
  intro migrated
  obtain ⟨inevm, _, found, rfl, stale, _⟩ := migratebal_ok migrated
  apply stale
  rw [List.filter_eq_nil_iff]
  intro row member
  have stored := (Table.get?_eq_some before.funds.balances row.1 row.2).mpr
    (List.mem_of_mem_filter (List.mem_of_mem_take member))
  simp [(sound.balances row.1 row.2 stored).2, (sound.inevm inevm found).2]

end Contract

/-- An action keeps what the contract owes, or gives an unused contract its token. -/
theorem Action.run_settles {env : Env} (law : env.evm.Conserves) {action : Action} {before after : Contract}
    (plain : action.isAdmin = false ∧ action.isSwap = false) (backed : before.Backed)
    (fresh : before.config.stored = false → before.config.getTokenSymbol = Symbol.none)
    (ran : action.run env before = .ok after) :
    before.Settles after 0 ∨ before.Begins after := by
  cases action with
  | init chainid fees tokenContract => exact Or.inr (Contract.init_begins backed fresh ran)
  | setfeeparams fees => exact Contract.setfeeparams_settles backed ran
  | addegress accounts | removeegress accounts =>
      simp only [Action.run, Contract.addegress, Contract.removeegress, bind_ok, assertInited_ok, requireAuth_ok,
        exists_const, pure_ok] at ran
      obtain ⟨_, _, rfl⟩ := ran
      exact Or.inl (backed.keep rfl rfl rfl rfl ⟨[], by simp⟩)
  | freeze value =>
      simp only [Action.run, Contract.freeze, bind_ok, assertInited_ok, requireAuth_ok, exists_const, pure_ok] at ran
      obtain ⟨_, _, rfl⟩ := ran
      exact Or.inl (backed.configured rfl)
  | exec input callback => exact Or.inl (Contract.exec_settles backed ran)
  | pushtx miner rlptx minInclusionPrice =>
      simp only [Action.run, Contract.pushtx, bind_ok, assertUnfrozen_ok, check_ok, exists_const] at ran
      obtain ⟨_, _, processed⟩ := ran
      have refreshed := Contract.refreshPrices_settles backed env
      exact Or.inl (refreshed.trans (Contract.processTx_settles law refreshed.backed processed))
  | «open» owner =>
      simp only [Action.run, Contract.open, bind_ok, assertUnfrozen_ok, requireAuth_ok, exists_const] at ran
      exact Or.inl (Contract.openInternalBalance_settles backed ran.2.2)
  | close owner => exact Or.inl (Contract.close_settles backed ran)
  | withdraw owner quantity recipient => exact Or.inl (Contract.withdraw_settles backed ran)
  | gc max =>
      simp only [Action.run, Contract.gc, bind_ok, assertUnfrozen_ok, requireAuth_ok, exists_const, pure_ok] at ran
      obtain ⟨_, _, rfl⟩ := ran
      exact Or.inl (backed.keep rfl rfl rfl (Db.gcLoop_accounts _ _ _) ⟨[], by simp⟩)
  | call sender recipient value data gasLimit =>
      simp only [Action.run, Contract.call, bind_ok, assertUnfrozen_ok, requireAuth_ok, exists_const] at ran
      obtain ⟨_, _, _, _, ⟨nonce, numbered⟩, numbers, called⟩ := ran
      have numberSettled := Contract.getAndIncrementNonce_settles backed numbers
      exact Or.inl (numberSettled.trans (Contract.callWith_settles law numberSettled.backed called))
  | callotherpay payer sender recipient value data gasLimit =>
      exact Or.inl (Contract.callotherpay_settles law backed ran)
  | admincall sender recipient value data gasLimit =>
      simp only [Action.run, Contract.admincall, bind_ok, assertUnfrozen_ok, requireAuth_ok, check_ok,
        exists_const] at ran
      obtain ⟨_, _, _, _, _, _, _, ⟨nonce, numbered⟩, numbers, called⟩ := ran
      have numberSettled := Contract.adminNonce_settles backed numbers
      exact Or.inl (numberSettled.trans (Contract.callWith_settles law numberSettled.backed called))
  | bridgereg receiver handler minFee => exact Or.inl (Contract.bridgereg_settles backed ran)
  | bridgeunreg receiver =>
      simp only [Action.run, Contract.bridgeunreg, bind_ok, assertUnfrozen_ok, requireAuth_ok, require_ok,
        exists_const, pure_ok] at ran
      obtain ⟨_, _, _, _, rfl⟩ := ran
      exact Or.inl (backed.keep rfl rfl rfl rfl ⟨[], by simp⟩)
  | assertnonce account nextNonce =>
      simp only [Action.run, Contract.assertnonce, bind_ok, check_ok, exists_const, pure_ok] at ran
      obtain ⟨_, rfl⟩ := ran
      exact Or.inl (backed.configured rfl)
  | setversion version =>
      simp only [Action.run, Contract.setversion, bind_ok, requireAuth_ok, exists_const, pure_ok] at ran
      obtain ⟨_, config, changed, rfl⟩ := ran
      exact Or.inl (backed.configured (ConfigWrapper.setEvmVersion_token changed))
  | updtgasparam ramPriceMb storagePrice =>
      simp only [Action.run, Contract.updtgasparam, bind_ok, requireAuth_ok, exists_const, pure_ok] at ran
      obtain ⟨_, config, changed, rfl⟩ := ran
      exact Or.inl (backed.configured (ConfigWrapper.updateConsensusParameters_token changed))
  | setgasparam gasTxnewaccount gasNewaccount gasTxcreate gasCodedeposit gasSset =>
      simp only [Action.run, Contract.setgasparam, bind_ok, requireAuth_ok, exists_const, pure_ok] at ran
      obtain ⟨_, config, changed, rfl⟩ := ran
      exact Or.inl (backed.configured (ConfigWrapper.updateConsensusParameters2_token changed))
  | setgasprices prices =>
      simp only [Action.run, Contract.setgasprices, bind_ok, requireAuth_ok, check_ok, exists_const] at ran
      obtain ⟨_, _, _, ran⟩ := ran
      have promoted := ConfigWrapper.promoteEvmVersion_token before.config env.now
      split at ran
      · simp only [bind_ok, pure_ok] at ran
        obtain ⟨config, changed, rfl⟩ := ran
        exact Or.inl (backed.configured ((ConfigWrapper.enqueueGasPrices_token changed).trans promoted))
      · rw [pure_ok] at ran
        subst ran
        exact Or.inl (backed.configured promoted)
  | setgaslimit ingressGasLimit =>
      cases ran
      exact Or.inl (backed.configured rfl)
  | swapgastoken newTokenContract newSymbol swapDestAccount swapMemo => exact absurd plain.2 (by simp [Action.isSwap])
  | migratebal fromName limit => exact absurd ran (Contract.migratebal_aborts backed.sound)
  | evmtx | configchange parameters =>
      simp only [Action.run, Contract.event, bind_ok, check_ok, exists_const, pure_ok] at ran
      obtain ⟨_, rfl⟩ := ran
      exact Or.inl (backed.configured rfl)
  | rmgcstore | setkvstore | rmaccount | addevmbal | addopenbal | freezeaccnt =>
      exact absurd plain.1 (by simp [Action.isAdmin])

end EosEvm

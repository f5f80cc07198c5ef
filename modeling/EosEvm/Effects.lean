import EosEvm.Execute
import EosEvm.Actions

/-! What handling a request leaves behind: nothing, one action it sent, or one executed
transaction with the payments and events sent for it. -/

namespace EosEvm

open Abort

def Inline.isPayment : Inline → Bool
  | .transfer _ _ _ _ => true
  | .onbridgemsg _ _ => true
  | _ => false

theorem sendTransfers_payments {config : ConfigWrapper} {unit : Nat} {messages : List FilteredMessage}
    {marks : List Bool} {sent : List Inline} (sends : sendTransfers config unit messages marks = .ok sent) :
    ∀ action ∈ sent, action.isPayment = true := by
  induction messages generalizing marks sent with
  | nil =>
      cases sends
      exact fun _ member => (by cases member)
  | cons message messages ih =>
      cases marks with
      | nil =>
          cases sends
          exact fun _ member => (by cases member)
      | cons mark marks =>
          simp only [sendTransfers] at sends
          split at sends
          · simp only [bind_ok, pure_ok] at sends
            obtain ⟨quantity, _, rest, tail, rfl⟩ := sends
            intro action member
            rcases List.mem_cons.mp member with rfl | later
            · rfl
            · exact ih tail action later
          · exact ih sends

theorem executeTx_payments {env : Env} {context : TxContext} {funds after : Funds} {sent : List Inline}
    {input : RunInput} {output : RunOutput}
    (executed : executeTx env context funds = .ok (after, sent, input, output)) :
    ∀ action ∈ sent, action.isPayment = true := by
  obtain ⟨charged, fromSelf, _, _, _, settled⟩ := executeTx_ok executed
  simp only [settleTx, bind_ok, check_ok, exists_const, pure_ok, Prod.mk.injEq] at settled
  obtain ⟨_, _, _, ⟨left, deducted, actions⟩, egressed, _, _, _, _, _, _, _, rfl⟩ := settled
  simp only [egressFunds] at egressed
  split at egressed
  · cases egressed
    exact fun _ member => (by cases member)
  · simp only [bind_ok, pure_ok, Prod.mk.injEq] at egressed
    obtain ⟨_, _, _, _, _, sends, _, _, _, _, rfl⟩ := egressed
    exact sendTransfers_payments sends

theorem processFilteredMessages_payments {env : Env} {config : ConfigWrapper}
    {receivers : Table Name MessageReceiver} {messages : List FilteredMessage} {funds after : Funds}
    {sent : List Inline} (processed : processFilteredMessages env config receivers messages funds = .ok (after, sent)) :
    ∀ action ∈ sent, action.isPayment = true := by
  simp only [processFilteredMessages, bind_ok, pure_ok, Prod.mk.injEq] at processed
  obtain ⟨delivered, folded, _, _, _, rfl⟩ := processed
  refine foldOutcome_invariant (deliverMessage env config receivers)
    (fun reached => ∀ action ∈ reached.2.1, action.isPayment = true) _ _ _ ?_ ?_ folded
  · intro current message next _ held stepped
    simp only [deliverMessage, bind_ok, require_ok, check_ok, exists_const, pure_ok] at stepped
    obtain ⟨_, _, _, _, _, _, _, _, _, _, _, _, _, _, _, rfl⟩ := stepped
    intro action member
    rcases List.mem_append.mp member with old | new
    · exact held action old
    · rw [List.mem_singleton.mp new]
      rfl
  · exact fun _ member => (by cases member)

theorem dispatchTx_ok {env : Env} {rc : RuntimeConfig} {tx : Transaction} {before after : Contract}
    (dispatched : dispatchTx env rc tx before = .ok after) :
    1 ≤ (before.config.promoteEvmVersion env.now).1 ∧
        processTx env rc env.self (.ofTx tx) none
          { before with config := (before.config.promoteEvmVersion env.now).2 } = .ok after ∨
      (before.config.promoteEvmVersion env.now).1 = 0 ∧ rc.gasPayer = none ∧
        after = { before with config := (before.config.promoteEvmVersion env.now).2 }.emit
          (.pushtx env.self (env.evm.encodeTransaction tx)) := by
  simp only [dispatchTx] at dispatched
  split at dispatched
  · rename_i active
    exact Or.inl ⟨active, dispatched⟩
  · rename_i inactive
    simp only [bind_ok, check_ok, exists_const, pure_ok] at dispatched
    obtain ⟨⟨unpaid, _⟩, rfl⟩ := dispatched
    exact Or.inr ⟨by omega, unpaid, rfl⟩

/-- The record of a transaction under the values of a configuration. -/
def ConfigWrapper.execution (config : ConfigWrapper) (now version : Nat) (gasParams : GasParameter)
    (sender : Address) (nonce : Nat) : Execution where
  time := now
  sender := sender
  nonce := nonce
  version := version
  gasParams := gasParams
  baseFeePerGas := if 1 ≤ version then some (config.getGasPrice version) else none
  overheadPrice := config.cached.gasPrices.overheadPrice.getD 0
  storagePrice := config.cached.gasPrices.storagePrice.getD 0

def Execution.event (execution : Execution) (rlptx : Bytes) : EvmtxEvent :=
  if 3 ≤ execution.version then
    .v3 execution.version rlptx execution.overheadPrice execution.storagePrice
  else .v1 execution.version rlptx (execution.baseFeePerGas.getD 0)

theorem ConfigWrapper.execution_event (config : ConfigWrapper) {version : Nat} (now : Nat) (gasParams : GasParameter)
    (sender : Address) (nonce : Nat) (rlptx : Bytes) (active : 1 ≤ version) :
    (config.execution now version gasParams sender nonce).event rlptx = txEvent config version rlptx := by
  simp [Execution.event, txEvent, ConfigWrapper.execution, active]

/-- The transaction that a request gives to `process_tx`: the one it pushes, or the one that
the contract makes for it. -/
inductive Contract.Gives (env : Env) (before : Contract) : Request → Txn → Prop
  | pushes (caller : Option Name) (auths : List Name) (miner : Name) (rlptx : Bytes) (minPrice : Option Nat) :
      Gives env before (.action caller auths (.pushtx miner rlptx minPrice)) (.ofRlp rlptx)
  | bridges (request : Request) (payer : Option Name) (tx : Transaction) (middle : Contract)
      (bridges : Bridges env before request payer tx middle) : Gives env before request (.ofTx tx)

/-- The effects of a request whose transaction `process_tx` executed: its payments, then its
events, then its record. -/
structure Executed (env : Env) (request : Request) (txn : Txn) (effects : List Effect) (execution : Execution) :
    Prop where
  given : ∃ before : Contract, before.Gives env request txn
  processed : ∃ rc miner minInclusionPrice before after, before.effects = [] ∧
    processTx env rc miner txn minInclusionPrice before = .ok after ∧ after.effects = effects
  decoded : ∃ tx, txn.getTx env.evm = .ok tx ∧ env.evm.recoverSender tx = some execution.sender ∧
    execution.nonce = tx.nonce
  recorded : ∃ payments config promoted,
    effects = (payments ++ txEvents config execution.version execution.gasParams promoted
      (txn.getRlptx env.evm)).map .sent ++ [.ran execution] ∧
    execution = config.execution env.now execution.version execution.gasParams execution.sender execution.nonce ∧
    ∀ action ∈ payments, action.isPayment = true

/-- What a request can leave behind. -/
inductive Leaves (env : Env) (request : Request) : List Effect → Prop
  | nothing : Leaves env request []
  | pays (token recipient : Name) (quantity : Asset) (memo : Bytes) :
      Leaves env request [.sent (.transfer token recipient quantity memo)]
  | replies (callback : ExecCallback) (output : ExecOutput) :
      Leaves env request [.sent (.callback callback output)]
  | dispatches (tx : Transaction) (nonce s : Nat) (form : tx.IsBridge nonce s) :
      Leaves env request [.sent (.pushtx env.self (env.evm.encodeTransaction tx))]
  | executes (txn : Txn) (effects : List Effect) (execution : Execution)
      (executed : Executed env request txn effects execution) : Leaves env request effects

variable {env : Env} {before after : Contract}

theorem processTx_effects {rc : RuntimeConfig} {miner : Name} {txn : Txn} {minPrice : Option Nat}
    (processed : processTx env rc miner txn minPrice before = .ok after) :
    let versioned := before.config.promoteEvmVersion env.now
    let parameters := versioned.2.promoteConsensusParam env.now
    ∃ tx sender payments,
      txn.getTx env.evm = .ok tx ∧ env.evm.recoverSender tx = some sender ∧
      (parameters.2.1 = false ∨ 1 ≤ versioned.1) ∧ after.config = parameters.2.2 ∧
      after.effects = before.effects ++
        (payments ++ txEvents after.config versioned.1 parameters.1 parameters.2.1 (txn.getRlptx env.evm)).map .sent ++
        [.ran (after.config.execution env.now versioned.1 parameters.1 sender tx.nonce)] ∧
      ∀ action ∈ payments, action.isPayment = true := by
  obtain ⟨tx, funds, transfers, input, output, delivered, notices, db, decoded, _, allowed, _, _, executed, filtered,
    _, rfl⟩ := processTx_ok processed
  obtain ⟨_, _, begun, _, _, _⟩ := executeTx_ok executed
  obtain ⟨sender, _, recovered, _, rfl⟩ := beginTx_ok begun
  refine ⟨tx, sender, transfers ++ notices, decoded, recovered, allowed, rfl, rfl, ?_⟩
  intro action member
  exact (List.mem_append.mp member).elim (executeTx_payments executed action)
    (processFilteredMessages_payments filtered action)

theorem processTx_leaves {rc : RuntimeConfig} {miner : Name} {txn : Txn} {minPrice : Option Nat} {request : Request}
    {loaded : Contract} (given : loaded.Gives env request txn) (fresh : before.effects = [])
    (processed : processTx env rc miner txn minPrice before = .ok after) : Leaves env request after.effects := by
  obtain ⟨tx, sender, payments, decoded, recovered, _, _, effects, paid⟩ := processTx_effects processed
  rw [fresh, List.nil_append] at effects
  let versioned := before.config.promoteEvmVersion env.now
  refine .executes txn _
    (after.config.execution env.now versioned.1 (versioned.2.promoteConsensusParam env.now).1 sender tx.nonce) ?_
  exact {
    given := ⟨loaded, given⟩
    processed := ⟨rc, miner, minPrice, before, after, fresh, processed, rfl⟩
    decoded := ⟨tx, decoded, recovered, rfl⟩
    recorded := ⟨payments, after.config, _, effects, rfl, paid⟩ }

theorem Contract.Bridges.effects {request : Request} {payer : Option Name} {tx : Transaction} {middle : Contract}
    (bridges : Bridges env before request payer tx middle) :
    middle.effects = before.effects ∧ ∃ nonce s, tx.IsBridge nonce s := by
  cases bridges with
  | call _ _ _ _ _ _ _ _ _ _ _ made =>
      rw [Contract.refreshPrices_eq]
      exact ⟨rfl, _, _, made.isBridge (name_lt _)⟩
  | callotherpay _ _ _ _ _ _ _ _ _ _ _ _ _ made =>
      rw [Contract.refreshPrices_eq]
      exact ⟨rfl, _, _, made.isBridge (name_lt _)⟩
  | admincall _ _ _ _ _ _ _ _ address _ numbered _ numbers made =>
      rw [Contract.refreshPrices_eq]
      refine ⟨?_, _, _, made.isBridge (paddedAddress_lt _)⟩
      obtain ⟨_, rfl, _⟩ := adminNonce_ok numbers
      rfl
  | ingress _ _ _ _ _ _ received recorded deposited records _ made =>
      have form := made.isBridge
      obtain ⟨_, rfl⟩ := recordIngressFee_ok records
      obtain ⟨_, _, _, _, rfl⟩ := deposit_ok deposited
      rw [Contract.refreshPrices_eq]
      exact ⟨rfl, _, _, form⟩

theorem Contract.openInternalBalance_effects {owner : Name} (opened : openInternalBalance owner before = .ok after) :
    after.effects = before.effects := by
  obtain ⟨_, _, rfl⟩ := openInternalBalance_ok opened
  rfl

theorem Contract.Does.leaves {request : Request} (fresh : before.effects = []) (did : Does env before request after) :
    Leaves env request after.effects := by
  cases did with
  | init caller auths chainid fees tokenContract after ran =>
      obtain ⟨_, _, _, _, _, opened⟩ := init_ok ran
      rw [openInternalBalance_effects opened, fresh]
      exact .nothing
  | configures | lists | edits =>
      simp only [fresh]
      exact .nothing
  | idles | announces => exact fresh ▸ .nothing
  | swaps caller auths newTokenContract newSymbol swapDestAccount swapMemo after ran =>
      obtain ⟨_, _, _, _, _, _, migrated, ran⟩ := swapgastoken_ok ran
      obtain ⟨_, _, _, _, _, rfl⟩ := migratebal_ok migrated
      rcases ran with rfl | ⟨_, rfl⟩
      · simp only [fresh]
        exact .nothing
      · simp only [Contract.emit, fresh, List.nil_append]
        exact .pays _ _ _ _
  | replies caller auths input callback output =>
      simp only [Contract.emit, fresh, List.nil_append]
      exact .replies callback output
  | opens caller auths requested owner receivers after opening opened =>
      rw [openInternalBalance_effects opened, fresh]
      exact .nothing
  | closes caller auths owner after ran =>
      obtain ⟨_, _, _, _, _, _, rfl⟩ := close_ok ran
      simp only [fresh]
      exact .nothing
  | withdraws caller auths owner quantity recipient after ran =>
      obtain ⟨_, _, _, _, _, _, _, _, rfl⟩ := withdraw_ok ran
      simp only [Contract.emit, fresh, List.nil_append]
      exact .pays _ _ _ _
  | deposits token sender quantity memo receiver after deposited =>
      obtain ⟨_, _, _, _, rfl⟩ := deposit_ok deposited
      rw [Contract.refreshPrices_eq]
      simp only [fresh]
      exact .nothing
  | adjustsEvm caller auths id delta subtract after ran =>
      obtain ⟨_, _, _, _, _, _, _,  rfl⟩ := addevmbal_ok ran
      simp only [fresh]
      exact .nothing
  | adjustsOpen caller auths account delta subtract after ran =>
      obtain ⟨_, _, _, _,  rfl⟩ := addopenbal_ok ran
      simp only [fresh]
      exact .nothing
  | migrates caller auths fromName limit after ran =>
      obtain ⟨_, _, _, _, _, rfl⟩ := migratebal_ok ran
      simp only [fresh]
      exact .nothing
  | pushes caller auths miner rlptx minPrice after ready processed =>
      refine processTx_leaves (.pushes caller auths miner rlptx minPrice : before.Gives env _ _) ?_ processed
      rw [Contract.refreshPrices_eq]
      exact fresh
  | bridges request payer tx middle after ready bridges dispatched =>
      obtain ⟨same, nonce, s, form⟩ := bridges.effects
      rcases dispatchTx_ok dispatched with ⟨_, processed⟩ | ⟨_, _, rfl⟩
      · refine processTx_leaves (.bridges request payer tx middle bridges) ?_ processed
        exact same.trans fresh
      · simp only [Contract.emit, same, fresh, List.nil_append]
        exact .dispatches tx nonce s form

theorem processTx_pushes {rc : RuntimeConfig} {sender miner : Name} {txn : Txn} {minPrice : Option Nat} {rlptx : Bytes}
    (fresh : before.effects = []) (processed : processTx env rc miner txn minPrice before = .ok after) :
    .pushtx sender rlptx ∉ sentActions after.effects := by
  obtain ⟨_, _, payments, _, _, _, _, effects, paid⟩ := processTx_effects processed
  rw [effects, fresh, List.nil_append, sentActions_append, sentActions_sent, sentActions_ran, List.append_nil]
  intro member
  rcases List.mem_append.mp member with payment | event
  · cases paid _ payment
  · rcases mem_txEvents event with ⟨_, ⟨⟩⟩ | ⟨_, ⟨⟩⟩

def Effect.isSilent : Effect → Bool
  | .sent (.transfer _ _ _ _) => true
  | .sent (.onbridgemsg _ _) => true
  | .sent (.callback _ _) => true
  | _ => false

/-- A step without transactions, which counts no nonce. -/
structure Contract.Quiet (before after : Contract) : Prop where
  silent : ∀ effect ∈ after.effects, effect.isSilent = true
  nonces : ∀ owner, (after.nextnonces.get? owner).getD 0 = (before.nextnonces.get? owner).getD 0

theorem Contract.openInternalBalance_nonces {owner : Name} (opened : openInternalBalance owner before = .ok after)
    (other : Name) : (after.nextnonces.get? other).getD 0 = (before.nextnonces.get? other).getD 0 := by
  obtain ⟨_, _, rfl⟩ := openInternalBalance_ok opened
  split
  · rfl
  · rename_i absent
    rw [Option.not_isSome_iff_eq_none] at absent
    rw [Table.get?_put]
    split
    · rename_i same
      simp [← same, absent]
    · rfl

theorem Contract.Does.quiet_or {request : Request} (fresh : before.effects = []) (did : Does env before request after) :
    Quiet before after ∨
      (∃ caller auths miner rlptx minPrice, request = .action caller auths (.pushtx miner rlptx minPrice) ∧
        processTx env (pushtxConfig env) miner (.ofRlp rlptx) minPrice (refreshPrices env before) = .ok after) ∨
      ∃ payer tx middle, Bridges env before request payer tx middle ∧
        dispatchTx env (bridgeConfig payer) tx middle = .ok after := by
  have nothing : ∀ kept : Contract, kept.effects = before.effects → kept.nextnonces = before.nextnonces →
      Quiet before kept := by
    intro kept effects nonces
    refine ⟨?_, by simp [nonces]⟩
    rw [effects, fresh]
    exact fun _ member => (by cases member)
  have one : ∀ (kept : Contract) (effect : Effect), kept.effects = before.effects ++ [effect] →
      kept.nextnonces = before.nextnonces → effect.isSilent = true → Quiet before kept := by
    intro kept effect effects nonces silent
    refine ⟨?_, by simp [nonces]⟩
    rw [effects, fresh]
    simpa using silent
  cases did with
  | init caller auths chainid fees tokenContract after ran =>
      obtain ⟨_, _, _, _, _, opened⟩ := init_ok ran
      have nonces := openInternalBalance_nonces opened
      refine Or.inl ⟨?_, nonces⟩
      rw [openInternalBalance_effects opened, fresh]
      exact fun _ member => (by cases member)
  | configures | lists | edits | idles | announces => exact Or.inl (nothing _ rfl rfl)
  | swaps caller auths newTokenContract newSymbol swapDestAccount swapMemo after ran =>
      obtain ⟨_, _, _, _, _, _, migrated, ran⟩ := swapgastoken_ok ran
      obtain ⟨_, _, _, _, _, rfl⟩ := migratebal_ok migrated
      rcases ran with rfl | ⟨_, rfl⟩
      · exact Or.inl (nothing _ rfl rfl)
      · exact Or.inl (one _ _ rfl rfl rfl)
  | replies caller auths input callback output => exact Or.inl (one _ _ rfl rfl rfl)
  | opens caller auths requested owner receivers after opening opened =>
      have nonces := openInternalBalance_nonces opened
      refine Or.inl ⟨?_, nonces⟩
      rw [openInternalBalance_effects opened, fresh]
      exact fun _ member => (by cases member)
  | closes caller auths owner after ran =>
      obtain ⟨_, _, nonce, _, _, found, rfl⟩ := close_ok ran
      refine Or.inl ⟨by simp [fresh], ?_⟩
      intro other
      split
      · rename_i unused
        rw [Table.get?_erase]
        split
        · rename_i same
          simp [← same, found, unused]
        · rfl
      · rfl
  | withdraws caller auths owner quantity recipient after ran =>
      obtain ⟨_, _, _, _, _, _, _, _, rfl⟩ := withdraw_ok ran
      exact Or.inl (one _ _ rfl rfl rfl)
  | deposits token sender quantity memo receiver after deposited =>
      obtain ⟨_, _, _, _, rfl⟩ := deposit_ok deposited
      rw [Contract.refreshPrices_eq]
      exact Or.inl (nothing _ rfl rfl)
  | adjustsEvm caller auths id delta subtract after ran =>
      obtain ⟨_, _, _, _, _, _, _,  rfl⟩ := addevmbal_ok ran
      exact Or.inl (nothing _ rfl rfl)
  | adjustsOpen caller auths account delta subtract after ran =>
      obtain ⟨_, _, _, _,  rfl⟩ := addopenbal_ok ran
      exact Or.inl (nothing _ rfl rfl)
  | migrates caller auths fromName limit after ran =>
      obtain ⟨_, _, _, _, _, rfl⟩ := migratebal_ok ran
      exact Or.inl (nothing _ rfl rfl)
  | pushes caller auths miner rlptx minPrice after ready processed =>
      exact Or.inr (Or.inl ⟨caller, auths, miner, rlptx, minPrice, rfl, processed⟩)
  | bridges request payer tx middle after ready bridges dispatched =>
      exact Or.inr (Or.inr ⟨payer, tx, middle, bridges, dispatched⟩)

theorem Contract.Does.dispatches {request : Request} {miner : Name} {rlptx : Bytes} (fresh : before.effects = [])
    (did : Does env before request after) (member : .pushtx miner rlptx ∈ sentActions after.effects) :
    ∃ tx middle, Bridges env before request none tx middle ∧ rlptx = env.evm.encodeTransaction tx := by
  rcases did.quiet_or fresh with quiet | ⟨_, _, _, _, _, _, processed⟩ | ⟨payer, tx, middle, bridges, dispatched⟩
  · cases quiet.silent _ (mem_sentActions.mp member)
  · refine absurd member (processTx_pushes ?_ processed)
    rw [Contract.refreshPrices_eq]
    exact fresh
  · obtain ⟨same, _⟩ := bridges.effects
    rcases dispatchTx_ok dispatched with ⟨_, processed⟩ | ⟨_, unpaid, rfl⟩
    · exact absurd member (processTx_pushes (by exact same.trans fresh) processed)
    · simp only [sentActions_emit, same, fresh, sentActions_nil, List.nil_append, List.mem_singleton,
        Inline.pushtx.injEq] at member
      have free : payer = none := unpaid
      subst free
      exact ⟨tx, middle, bridges, member.2⟩

end EosEvm

import EosEvm.Rows
import EosEvm.Delivery
import EosEvm.Debits
import EosEvm.Nonces
import EosEvm.Books

/-! What an account can lose. A request carries a limit: the quantity of a withdrawal, or the value
of a call and the price of all its gas. Whatever the EVM does with a call, and however often the
contract is called by others, an account never loses more than the limits of the requests made in
its name, a call that the contract is still to run included. -/

namespace EosEvm

open Abort Words

def Transaction.fullGas (tx : Transaction) : Nat := tx.gasLimit * tx.maxFeePerGas

def spendingLimit (value fullGas : Nat) (payer : Option Name) (sender : Address) (owner : Name) : Nat :=
  if sender = makeReservedAddress owner then value + fullGas
  else if payer = some owner then fullGas
  else 0

theorem spendingLimit_mono {value lower upper : Nat} (less : lower ≤ upper) (payer : Option Name) (sender : Address)
    (owner : Name) : spendingLimit value lower payer sender owner ≤ spendingLimit value upper payer sender owner := by
  unfold spendingLimit
  split
  · omega
  · split <;> omega

def Transaction.limit (tx : Transaction) : Option Name → Address → Name → Nat := spendingLimit tx.value tx.fullGas

theorem maxGasCost_le (tx : Transaction) : maxGasCost tx ≤ tx.fullGas := Nat.mod_le _ _

theorem unusedGas_le (tx : Transaction) (baseFee : Nat) (output : RunOutput) : unusedGas tx baseFee output ≤ tx.fullGas :=
  (Nat.sub_le _ _).trans (maxGasCost_le tx)

section Execution

variable {env : Env} {context : TxContext} {funds after : Funds} {sent : List Inline} {input : RunInput}
  {output : RunOutput}

theorem charged_spends {symbol : Symbol} {charged paid refunded : Funds} {rc : RuntimeConfig} {tx : Transaction}
    {sender : Address} {fromSelf : Bool} {funded : Option (Nat × Nat)} {header : BlockHeader} {owner : Name}
    (loose : funds.Loose symbol) (between : paid.Loose symbol)
    (prepared : prepareSender env rc tx sender funds = .ok (charged, fromSelf, funded))
    (kept : charged.valueOf owner ≤ paid.valueOf owner)
    (refunds : refundGas header tx sender rc.gasPayer output paid = .ok refunded) :
    funds.valueOf owner ≤ refunded.valueOf owner + tx.limit rc.gasPayer sender owner := by
  have gas := maxGasCost_le tx
  have wrapped : u256 (tx.value + maxGasCost tx) ≤ tx.value + maxGasCost tx := Nat.mod_le _ _
  have before : ∃ due : Name → Nat, charged.valueOf owner + due owner = funds.valueOf owner ∧
      (due = 0 ∨ ∃ account, sender = makeReservedAddress account ∧
        due = charges rc tx account (u256 (tx.value + maxGasCost tx))) := by
    rcases prepareSender_shifts loose prepared with ⟨_, shifts⟩ | ⟨account, named, _, _, _, shifts⟩
    · exact ⟨0, by simpa using shifts.values owner, Or.inl rfl⟩
    · exact ⟨_, by simpa using shifts.values owner, Or.inr ⟨account, named, rfl⟩⟩
  obtain ⟨due, start, owed⟩ := before
  cases found : rc.gasPayer with
  | none =>
      rw [found] at refunds
      cases refunds
      rcases owed with rfl | ⟨account, rfl, rfl⟩
      · simp only [Pi.zero_apply] at start
        omega
      · by_cases here : account = owner
        · subst here
          simp only [charges, found, Pi.single_eq_same] at start
          rw [Transaction.limit, spendingLimit, if_pos rfl]
          omega
        · simp only [charges, found, Pi.single_eq_of_ne (Ne.symm here)] at start
          omega
  | some payer =>
      rw [found] at refunds
      obtain ⟨baseFee, account, _, rfl, _, shifts⟩ := refundGas_shifts between refunds
      have back := shifts.values owner
      have unused := unusedGas_le tx baseFee output
      -- the payer has the gas back that the sender did not use, and the sender paid for it
      by_cases here : account = owner
      · subst here
        rw [Transaction.limit, spendingLimit, if_pos rfl]
        rcases owed with rfl | ⟨other, same, rfl⟩
        · simp only [Pi.zero_apply, Pi.single_eq_same] at start back
          omega
        · obtain rfl := makeReservedAddress_injective same
          by_cases mine : payer = account
          · subst mine
            simp only [charges, found, Pi.add_apply, Pi.single_eq_same] at start back
            omega
          · simp only [charges, found, Pi.add_apply, Pi.single_eq_same, Pi.single_eq_of_ne (Ne.symm mine)] at start back
            omega
      · rw [Transaction.limit, spendingLimit, if_neg fun same => here (makeReservedAddress_injective same)]
        rw [Pi.single_eq_of_ne (Ne.symm here)] at back
        rcases owed with rfl | ⟨other, same, rfl⟩
        · simp only [Pi.zero_apply] at start
          omega
        · obtain rfl := makeReservedAddress_injective same
          by_cases mine : payer = owner
          · subst mine
            simp only [charges, found, Pi.add_apply, Pi.single_eq_same, Pi.single_eq_of_ne (Ne.symm here)] at start back
            rw [if_pos rfl]
            omega
          · simp only [charges, found, Pi.add_apply, Pi.single_eq_of_ne (Ne.symm mine),
              Pi.single_eq_of_ne (Ne.symm here)] at start back
            omega

theorem executeTx_spends (loose : funds.Loose context.config.getTokenSymbol)
    (executed : executeTx env context funds = .ok (after, sent, input, output)) {owner : Name}
    (other : owner ≠ env.self) :
    ∃ sender, env.evm.recoverSender context.tx = some sender ∧
      funds.valueOf owner ≤ after.valueOf owner + context.tx.limit context.rc.gasPayer sender owner := by
  obtain ⟨charged, fromSelf, begun, _, _, settled⟩ := executeTx_ok executed
  obtain ⟨sender, funded, recovered, prepared, rfl⟩ := beginTx_ok begun
  have looseCharged : charged.Loose context.config.getTokenSymbol := loose.moves (prepareSender_moves prepared)
  obtain ⟨portion, paid, refunded, _, shifts, refunds, records⟩ := settleTx_shifts looseCharged settled
  refine ⟨sender, recovered, ?_⟩
  rw [recordGasFee_valueOf records]
  refine charged_spends loose shifts.loose prepared ?_ refunds
  have values := shifts.values owner
  rw [Pi.single_eq_of_ne other] at values
  omega

end Execution

theorem processTx_spends {env : Env} {rc : RuntimeConfig} {miner : Name} {txn : Txn} {minPrice : Option Nat}
    {before after : Contract} (loose : before.Loose)
    (processed : processTx env rc miner txn minPrice before = .ok after) {owner : Name} (other : owner ≠ env.self) :
    ∃ tx sender, txn.getTx env.evm = .ok tx ∧ env.evm.recoverSender tx = some sender ∧
      before.funds.valueOf owner ≤ after.funds.valueOf owner + tx.limit rc.gasPayer sender owner := by
  obtain ⟨tx, funds, transfers, input, output, delivered, notices, db, decoded, _, _, _, _, executed, filtered, _,
    rfl⟩ := processTx_ok processed
  have symbol : ((before.config.promoteEvmVersion env.now).2.promoteConsensusParam env.now).2.2.getTokenSymbol =
      before.config.getTokenSymbol := ConfigWrapper.getTokenSymbol_of_token (by simp)
  unfold Contract.Loose at loose
  rw [← symbol] at loose
  obtain ⟨sender, recovered, spent⟩ := executeTx_spends loose executed other
  have moved : funds.Loose _ := loose.moves (executeTx_moves executed)
  have credited := (processFilteredMessages_exact moved filtered).2.1 owner
  rw [if_neg other] at credited
  refine ⟨tx, sender, decoded, recovered, ?_⟩
  dsimp only at spent ⊢
  omega

def ConfigWrapper.callPrice (config : ConfigWrapper) (now : Nat) : Nat :=
  (config.refresh now).getGasPrice (config.getEvmVersion now)

theorem ConfigWrapper.callPrice_promoteEvmVersion (config : ConfigWrapper) (now : Nat) :
    (config.promoteEvmVersion now).2.callPrice now = config.callPrice now := by
  rw [callPrice, callPrice, getEvmVersion_promoteEvmVersion, (config.promoteEvmVersion_refresh now).2]

/-- What an action that the contract sent itself can still cost an account. -/
def Inline.limit (evm : Silkworm) (owner : Name) : Inline → Nat
  | .pushtx _ rlptx =>
      (evm.decodeTransaction rlptx).elim 0 fun tx =>
        (evm.recoverSender tx).elim 0 fun sender => tx.limit none sender owner
  | _ => 0

def pushedLimit (evm : Silkworm) (owner : Name) (actions : List Inline) : Nat :=
  (actions.map (Inline.limit evm owner)).sum

theorem pushedLimit_eq_zero {evm : Silkworm} {owner : Name} {actions : List Inline}
    (free : ∀ action ∈ actions, action.limit evm owner = 0) : pushedLimit evm owner actions = 0 := by
  refine List.sum_eq_zero fun amount listed => ?_
  obtain ⟨action, member, rfl⟩ := List.mem_map.mp listed
  exact free action member

theorem Inline.limit_pushtx {evm : Silkworm} {owner miner : Name} {rlptx : Bytes} {tx : Transaction} {sender : Address}
    (decoded : evm.decodeTransaction rlptx = some tx) (recovered : evm.recoverSender tx = some sender) :
    (Inline.pushtx miner rlptx).limit evm owner = tx.limit none sender owner := by
  simp only [Inline.limit, decoded, recovered, Option.elim_some]

namespace Contract

variable {env : Env} {before after : Contract} {owner : Name}

theorem processTx_pushedLimit {rc : RuntimeConfig} {miner : Name} {txn : Txn} {minPrice : Option Nat} {evm : Silkworm}
    (fresh : before.effects = []) (processed : processTx env rc miner txn minPrice before = .ok after) :
    pushedLimit evm owner (sentActions after.effects) = 0 := by
  refine pushedLimit_eq_zero fun action member => ?_
  cases action with
  | pushtx => exact absurd member (processTx_pushes fresh processed)
  | _ => rfl

theorem callWith_spends {payer : Option Name} {s value gasLimit nonce : Nat} {recipient data : Bytes} {sender : Address}
    (signs : env.evm.Signs) (signed : ∀ tx : Transaction, tx.r = 0 → tx.s = s → env.evm.recoverSender tx = some sender)
    (valued : value < 2 ^ 256) (small : s < 2 ^ 256) (loose : before.Loose) (fresh : before.effects = [])
    (other : owner ≠ env.self)
    (called : callWith env (bridgeConfig payer) s recipient value data gasLimit nonce before = .ok after) :
    before.funds.valueOf owner + pushedLimit env.evm owner (sentActions after.effects) ≤
      after.funds.valueOf owner +
        spendingLimit value (gasLimit * before.config.callPrice env.now) payer sender owner := by
  obtain ⟨tx, form, limit, dispatched⟩ : ∃ tx : Transaction, tx.IsBridge nonce s ∧
      tx.limit payer sender owner ≤
        spendingLimit value (gasLimit * before.config.callPrice env.now) payer sender owner ∧
      dispatchTx env (bridgeConfig payer) tx (refreshPrices env before) = .ok after := by
    refine ⟨_, callTx_isBridge env recipient data gasLimit nonce before valued small, ?_, called⟩
    rw [ConfigWrapper.callPrice, ← refreshPrices_config]
    exact spendingLimit_mono (Nat.mul_le_mul (Nat.mod_le _ _) (Nat.mod_le _ _)) payer sender owner
  have recovered := signed tx form.r form.s
  have start : (refreshPrices env before).funds = before.funds := by rw [refreshPrices_eq]
  have silent : (refreshPrices env before).effects = [] := by
    rw [refreshPrices_eq]
    exact fresh
  refine le_trans ?_ (Nat.add_le_add_left limit _)
  rw [← start]
  rcases dispatchTx_ok dispatched with ⟨_, processed⟩ | ⟨_, unpaid, rfl⟩
  · obtain ⟨_, _, ⟨⟩, same, spent⟩ :=
      processTx_spends ((loose.refreshPrices env).promoted env.now) processed other
    rw [recovered] at same
    cases same
    rw [processTx_pushedLimit (by exact silent) processed]
    exact spent
  · have free : payer = none := unpaid
    subst free
    rw [sentActions_emit, silent, sentActions_nil, List.nil_append, pushedLimit, List.map_singleton, List.sum_singleton,
      Inline.limit_pushtx (signs.decoded tx nonce s form) recovered]
    exact le_rfl

end Contract

def Request.allowance (owner : Name) (world : World) : Request → Nat
  | .action _ _ (.withdraw holder quantity _) =>
      if holder = owner then quantity.amount.toNat * world.tables.tokenSymbol.unit else 0
  | .action _ _ (.call sender _ value _ gasLimit) =>
      spendingLimit (Bridge.load value) (gasLimit * world.config.callPrice world.now) none (makeReservedAddress sender)
        owner
  | .action _ _ (.callotherpay payer sender _ value _ gasLimit) =>
      spendingLimit (Bridge.load value) (gasLimit * world.config.callPrice world.now) (some payer)
        (makeReservedAddress sender) owner
  | .action _ _ (.admincall sender _ value _ gasLimit) =>
      (toAddress sender).toOption.elim 0 fun address =>
        spendingLimit (Bridge.load value) (gasLimit * world.config.callPrice world.now) none address owner
  | _ => 0

def Request.due (host : Host) (owner : Name) : Request → Nat
  | .action caller _ (.pushtx miner rlptx _) =>
      if caller = some host.self then (Inline.pushtx miner rlptx).limit host.evm owner else 0
  | _ => 0

theorem Request.isSwap_of_plain {request : Request} (plain : request.isPlain = true) : request.isSwap = false := by
  cases request with
  | transfer => rfl
  | action => simpa [Request.isSwap] using (Bool.and_eq_true_iff.mp plain).2

theorem Label.requests_plain {label : Label} (plain : label.isPlain = true) :
    ∀ request ∈ label.requests, request.isPlain = true := by
  cases label with
  | tick => exact fun _ member => (by cases member)
  | submit | next => exact List.all_eq_true.mp plain

theorem Inline.limit_eq_zero {evm : Silkworm} {owner miner : Name} {rlptx : Bytes}
    (strange : ∀ tx, evm.decodeTransaction rlptx = some tx → evm.recoverSender tx ≠ some (makeReservedAddress owner)) :
    (Inline.pushtx miner rlptx).limit evm owner = 0 := by
  rw [Inline.limit]
  cases decoded : evm.decodeTransaction rlptx with
  | none => rfl
  | some tx =>
      cases recovered : evm.recoverSender tx with
      | none => simp [recovered]
      | some sender =>
          have apart : sender ≠ makeReservedAddress owner := fun same => strange tx decoded (same ▸ recovered)
          simp [recovered, Transaction.limit, spendingLimit, apart]

namespace Contract

variable {env : Env} {before after : Contract} {owner : Name} {caller : Option Name} {auths : List Name}

theorem withdraw_spends {holder : Name} {quantity : Asset} {recipient : Option Name} (booked : before.Booked)
    (fresh : before.effects = []) (ran : withdraw env holder quantity recipient before = .ok after) :
    before.funds.valueOf holder + pushedLimit env.evm holder (sentActions after.effects) ≤
      after.funds.valueOf holder + quantity.amount.toNat * before.config.getTokenSymbol.unit := by
  obtain ⟨_, _, row, balance, found, enough, bounded, shape, rfl⟩ := withdraw_ok ran
  obtain ⟨_, _, values, _⟩ := Funds.shift_spec booked.sound (-quantity.amount) found shape (by omega) bounded
  have value := values holder
  rw [if_pos rfl, neg_mul] at value
  have taken : quantity.amount * (before.config.getTokenSymbol.unit : Int) ≤
      (quantity.amount.toNat : Int) * before.config.getTokenSymbol.unit :=
    mul_le_mul_of_nonneg_right (Int.self_le_toNat _) (Int.natCast_nonneg _)
  rw [sentActions_emit, fresh]
  change before.funds.valueOf holder + 0 ≤ Funds.valueOf _ holder + _
  zify
  dsimp only [Contract.emit]
  omega

theorem call_spends {sender : Name} {recipient value data : Bytes} {gasLimit : Nat} (signs : env.evm.Signs)
    (loose : before.Loose) (fresh : before.effects = []) (other : owner ≠ env.self)
    (ran : call env sender recipient value data gasLimit before = .ok after) :
    before.funds.valueOf owner + pushedLimit env.evm owner (sentActions after.effects) ≤
      after.funds.valueOf owner + spendingLimit (Bridge.load value) (gasLimit * before.config.callPrice env.now) none
        (makeReservedAddress sender) owner := by
  simp only [call, bind_ok, assertUnfrozen_ok, requireAuth_ok, exists_const] at ran
  obtain ⟨_, _, amount, loaded, ⟨nonce, middle⟩, numbered, called⟩ := ran
  obtain ⟨rfl, valued⟩ := loadValue_ok loaded
  obtain ⟨_, rfl⟩ := getAndIncrementNonce_ok numbered
  have spent := callWith_spends signs (fun tx r s => signs.named tx sender r s) valued (name_lt _) (by exact loose)
    (by exact fresh) other called
  exact spent

theorem callotherpay_spends {payer sender : Name} {recipient value data : Bytes} {gasLimit : Nat}
    (signs : env.evm.Signs) (loose : before.Loose) (fresh : before.effects = []) (other : owner ≠ env.self)
    (ran : callotherpay env payer sender recipient value data gasLimit before = .ok after) :
    before.funds.valueOf owner + pushedLimit env.evm owner (sentActions after.effects) ≤
      after.funds.valueOf owner + spendingLimit (Bridge.load value) (gasLimit * before.config.callPrice env.now)
        (some payer) (makeReservedAddress sender) owner := by
  simp only [callotherpay, bind_ok, assertUnfrozen_ok, requireAuth_ok, exists_const, check_ok] at ran
  obtain ⟨_, _, _, _, amount, loaded, ⟨nonce, middle⟩, numbered, called⟩ := ran
  obtain ⟨rfl, valued⟩ := loadValue_ok loaded
  obtain ⟨_, rfl⟩ := getAndIncrementNonce_ok numbered
  have spent := callWith_spends signs (fun tx r s => signs.named tx sender r s) valued (name_lt _)
    (by exact loose.promoted env.now) (by exact fresh) other called
  rw [← before.config.callPrice_promoteEvmVersion]
  exact spent

theorem admincall_spends {sender recipient value data : Bytes} {gasLimit : Nat} (signs : env.evm.Signs)
    (loose : before.Loose) (fresh : before.effects = []) (other : owner ≠ env.self)
    (ran : admincall env sender recipient value data gasLimit before = .ok after) :
    before.funds.valueOf owner + pushedLimit env.evm owner (sentActions after.effects) ≤
      after.funds.valueOf owner + (toAddress sender).toOption.elim 0 fun address =>
        spendingLimit (Bridge.load value) (gasLimit * before.config.callPrice env.now) none address owner := by
  simp only [admincall, bind_ok, assertUnfrozen_ok, requireAuth_ok, exists_const, check_ok] at ran
  obtain ⟨_, _, amount, loaded, _, address, named, ⟨nonce, middle⟩, numbered, called⟩ := ran
  obtain ⟨rfl, valued⟩ := loadValue_ok loaded
  obtain ⟨_, rfl, _⟩ := adminNonce_ok numbered
  rw [named]
  have spent := callWith_spends signs (fun tx r s => signs.padded tx address r s) valued (paddedAddress_lt _)
    (by exact loose) (by exact fresh) other
    called
  exact spent

theorem pushtx_spends {miner : Name} {rlptx : Bytes} {minPrice : Option Nat} (loose : before.Loose)
    (fresh : before.effects = []) (other : owner ≠ env.self) (own : env.sender = some env.self)
    (did : Does env before (.action caller auths (.pushtx miner rlptx minPrice)) after) :
    before.funds.valueOf owner + pushedLimit env.evm owner (sentActions after.effects) ≤
      after.funds.valueOf owner + (Inline.pushtx miner rlptx).limit env.evm owner := by
  have processed := did.of_pushtx
  rw [pushtxConfig, if_pos own] at processed
  have start : (refreshPrices env before).funds = before.funds := by rw [refreshPrices_eq]
  have silent : (refreshPrices env before).effects = [] := by
    rw [refreshPrices_eq]
    exact fresh
  obtain ⟨tx, sender, decoded, recovered, spent⟩ := processTx_spends (loose.refreshPrices env) processed other
  rw [processTx_pushedLimit silent processed, Inline.limit_pushtx ((require_ok _ _ _).mp decoded) recovered, ← start]
  exact spent

end Contract

section Handled

variable {host : Host} {world : World} {view : ChainView} {before after : List Request} {request : Request}
  {rest : List Pending} {holding : Name → Symbol → Nat} {contract : Contract} {owner : Name}

theorem Handled.spends (signs : host.evm.Signs) (booked : world.contract.Booked) (loose : world.contract.Loose)
    (plain : request.isPlain = true) (other : owner ≠ host.self)
    (handled : Handled host view before after request rest holding contract world) :
    world.tables.funds.valueOf owner + pushedLimit host.evm owner (sentActions contract.effects) ≤
      contract.funds.valueOf owner + request.allowance owner world + request.due host owner := by
  have stays := Request.isSwap_of_plain plain
  have ran := handled.ran
  -- Who may lose has authorised the request, or the transaction is one the contract sent itself.
  by_cases loses : Contract.mayLose (host.env view world.now request) request owner
  · rcases loses with same | bills | ⟨caller, auths, miner, rlptx, minPrice, tx, sender, rfl, own, decoded, recovered,
      rfl⟩
    · exact absurd same other
    · refine le_trans ?_ (Nat.le_add_right _ _)
      unfold Request.Bills at bills
      split at bills
      · obtain ⟨rfl, _⟩ := bills
        rw [Request.allowance, if_pos rfl]
        exact Contract.withdraw_spends booked rfl ran
      · exact Contract.call_spends signs loose rfl other ran
      · exact Contract.callotherpay_spends signs loose rfl other ran
      · exact Contract.admincall_spends signs loose rfl other ran
      · cases plain
      · exact bills.elim
    · refine le_trans (Contract.pushtx_spends loose rfl other own (Request.run_does ran)) (Nat.add_le_add_left ?_ _)
      rw [Request.due, if_pos (show caller = some host.self from own)]
      exact le_rfl
  · have kept : world.tables.funds.valueOf owner ≤ contract.funds.valueOf owner :=
      (handled.books signs booked stays).kept owner loses
    have unsent : pushedLimit host.evm owner (sentActions contract.effects) = 0 := by
      refine pushedLimit_eq_zero fun action member => ?_
      cases action with
      | pushtx miner rlptx =>
          refine Inline.limit_eq_zero fun tx decoded recovered => ?_
          rcases World.pushed_bills signs handled member decoded recovered with same | bills
          · exact other same
          · exact loses (Or.inr (Or.inl bills))
      | _ => rfl
    omega

end Handled

/-- What a pending action can still cost an account. -/
def Pending.limit (evm : Silkworm) (owner : Name) : Pending → Nat
  | .request _ => 0
  | .sent leaving => leaving.action.limit evm owner

def pendingLimit (evm : Silkworm) (owner : Name) (stack : List Pending) : Nat :=
  (stack.map (Pending.limit evm owner)).sum

@[simp] theorem pendingLimit_append (evm : Silkworm) (owner : Name) (front back : List Pending) :
    pendingLimit evm owner (front ++ back) = pendingLimit evm owner front + pendingLimit evm owner back := by
  simp [pendingLimit]

@[simp] theorem pendingLimit_requests (evm : Silkworm) (owner : Name) (requests : List Request) :
    pendingLimit evm owner (requests.map .request) = 0 := by
  induction requests with
  | nil => rfl
  | cons request requests ih =>
      rw [List.map_cons, pendingLimit, List.map_cons, List.sum_cons]
      exact (Nat.zero_add _).trans ih

theorem pendingLimit_scheduled (evm : Silkworm) (owner : Name) (cause : Request) (effects : List Effect) :
    pendingLimit evm owner (scheduled cause effects) = pushedLimit evm owner (sentActions effects) := by
  rw [pendingLimit, pushedLimit, scheduled, sentActions, List.map_filterMap, List.map_filterMap]
  congr 2
  funext effect
  cases effect <;> rfl

/-- The journal of what the handled requests allow. -/
def allowances (owner : Name) (world : World) (request : Request) : List Nat := [request.allowance owner world]

namespace World

variable {host : Host} {world next : World} {view : ChainView} {before after : List Request} {request : Request}
  {rest : List Pending} {holding : Name → Symbol → Nat} {contract : Contract} {owner : Name} {value : Nat}
  {journal : List Nat}

theorem Traced.due_le (traced : world.Traced host) (unforged : world.Unforged host) (owner : Name)
    (handled : Handled host view before after request rest holding contract world) :
    request.due host owner + pendingLimit host.evm owner rest ≤ pendingLimit host.evm owner world.stack := by
  have below : pendingLimit host.evm owner rest ≤ pendingLimit host.evm owner world.stack := by
    rcases handled.top.stack_eq with top | ⟨sent, top, _⟩
    all_goals
      rw [top, pendingLimit, pendingLimit, List.map_cons, List.sum_cons]
      exact Nat.le_add_left _ _
  unfold Request.due
  split
  · rename_i caller auths miner rlptx minPrice
    split
    · rename_i own
      obtain ⟨sent, top, here, unpacked⟩ := traced.own_request handled.top own
      rcases traced.sent_cases unforged top here unpacked rfl with ⟨_, _, ⟨⟩⟩ | ⟨_, _, ⟨⟩⟩ | ⟨_, _, action, ⟨⟩⟩
      rw [top, pendingLimit, pendingLimit, List.map_cons, List.sum_cons, Pending.limit, action]
    · rwa [Nat.zero_add]
  · rwa [Nat.zero_add]

/-- The account started with a value; it has spent no more than it was asked for. -/
structure Spent (host : Host) (owner : Name) (value : Nat) (world : World) (journal : List Nat) : Prop where
  traced : world.Traced host
  accounted : world.Accounted host
  loose : world.contract.Loose
  plain : ∀ request, .request request ∈ world.stack → request.isPlain = true
  bounded : world.Unforged host →
    value + pendingLimit host.evm owner world.stack ≤ world.tables.funds.valueOf owner + journal.sum

theorem Spent.handled (signs : host.evm.Signs) (other : owner ≠ host.self) (spent : world.Spent host owner value journal)
    (unforged : world.Unforged host) (handled : Handled host view before after request rest holding contract world) :
    value + pendingLimit host.evm owner (world.handled before after request rest holding contract).stack ≤
      contract.funds.valueOf owner + (journal ++ allowances owner world request).sum := by
  have spends := handled.spends signs spent.accounted.booked spent.loose (handled.isPlain spent.plain) other
  have pending : pendingLimit host.evm owner (world.handled before after request rest holding contract).stack =
      pushedLimit host.evm owner (sentActions contract.effects) + pendingLimit host.evm owner rest := by
    simp [World.handled, pendingLimit_scheduled]
  have due := spent.traced.due_le unforged owner handled
  have bounded := spent.bounded unforged
  rw [pending, List.sum_append, allowances, List.sum_singleton]
  omega

theorem Spent.step (signs : host.evm.Signs) (other : owner ≠ host.self) {label : Label} (plain : label.isPlain = true)
    (spent : world.Spent host owner value journal) (stepped : Stepped host world label next) :
    next.Spent host owner value (journal ++ entries host (allowances owner) world label) := by
  have arriving := Label.requests_plain plain
  have accounted := spent.accounted.step signs
    (fun request member => Request.isSwap_of_plain (arriving request member)) stepped
  refine ⟨spent.traced.step stepped, accounted, stepped.loose spent.loose, ?_, fun unforged => ?_⟩
  · intro request member
    rcases stepped.mem_stack member with ⟨_, inside, ⟨⟩⟩ | old | ⟨_, _, _, _, _, _, _, _, _, sent⟩
    · exact arriving request inside
    · exact spent.plain request old
    · obtain ⟨_, _, ⟨⟩⟩ := mem_scheduled.mp sent
  · have earlier := unforged.mono stepped.history_subset
    have bounded := spent.bounded earlier
    cases stepped with
    | tick =>
        rw [entries, List.append_nil]
        exact bounded
    | submit requests idle =>
        rw [idle] at bounded
        rw [entries, List.append_nil, pendingLimit_requests]
        exact bounded
    | passed view before after sent rest top away =>
        rw [top, pendingLimit, List.map_cons, List.sum_cons] at bounded
        rw [entries_passed _ top away, List.append_nil]
        simp only [pendingLimit_append, pendingLimit_requests, Nat.zero_add]
        exact le_trans (Nat.add_le_add_left (Nat.le_add_left _ _) _) bounded
    | handled view before after request rest holding contract handled =>
        rw [entries_handled _ handled]
        exact spent.handled signs other earlier handled

end World

theorem run_accounted {host : Host} (signs : host.evm.Signs) {holding : Name → Symbol → Nat} {labels : List Label}
    {world : World} (stays : ∀ label ∈ labels, ∀ request ∈ label.requests, request.isSwap = false)
    (finished : run host labels (World.start holding) = .ok world) : world.Accounted host :=
  run_invariant (World.Accounted host)
    (fun _ label _ member accounted stepped => accounted.step signs (stays label member) stepped)
    ⟨⟨Nat.zero_le _, ⟨fun _ _ found => (by cases found), fun _ found => (by cases found)⟩⟩,
      ⟨fun _ isOpen => (by cases isOpen), fun counted => (by cases counted)⟩,
      fun _ member => (by cases member), fun _ member => (by cases member)⟩ finished

/-- Over any number of plain requests, and whatever the EVM does with the calls among them, an
account loses no more than the handled requests allow; a call that is still to run is within the
same limit. No callback of `exec` goes to a trusting action of the contract. -/
theorem run_spending_bounded (host : Host) (signs : host.evm.Signs) (holding : Name → Symbol → Nat)
    (labels more : List Label) (world next : World)
    (stays : ∀ label ∈ labels, ∀ request ∈ label.requests, request.isSwap = false)
    (finished : run host labels (World.start holding) = .ok world) (idle : world.stack = [])
    (plain : ∀ label ∈ more, label.isPlain = true) (continued : run host more world = .ok next)
    (unforged : next.Unforged host) (owner : Name) (other : owner ≠ host.self) :
    world.tables.funds.valueOf owner + pendingLimit host.evm owner next.stack ≤
      next.tables.funds.valueOf owner + (noted host (allowances owner) more world).sum := by
  have start : world.Spent host owner (world.tables.funds.valueOf owner) [] := by
    refine ⟨⟨?_, ?_⟩, run_accounted signs stays finished, run_loose finished, ?_, fun _ => ?_⟩
    all_goals rw [idle]
    · exact fun _ member => (by cases member)
    · exact fun _ member => (by cases member)
    · exact fun _ member => (by cases member)
    · exact le_rfl
  have spent := run_journal (fun label => label.isPlain = true) (allowances owner)
    (World.Spent host owner (world.tables.funds.valueOf owner))
    (fun _ _ _ _ plain spent stepped => spent.step signs other plain stepped) start plain continued
  rw [List.nil_append] at spent
  exact spent.bounded unforged

def Ledger.spending : List Label :=
  Ledger.act Ledger.alice (.withdraw Ledger.alice ⟨30000, Ledger.eos⟩ none) 1 ++
    Ledger.act Ledger.alice (Ledger.callNothing Ledger.alice 21000) 1

theorem run_spending_bounded_alice :
    ∃ world next, run Ledger.host (Ledger.opening ++ Ledger.pay Ledger.alice 1000000 "alice" 0)
        (World.start fun _ _ => 0) = .ok world ∧
      run Ledger.host Ledger.spending world = .ok next ∧
      world.tables.funds.valueOf Ledger.alice ≤
        next.tables.funds.valueOf Ledger.alice + (30000 * 10 ^ 14 + 21000 * 150000000000) := by
  obtain ⟨world, finished, seen⟩ := exists_of_view
    (run Ledger.host (Ledger.opening ++ Ledger.pay Ledger.alice 1000000 "alice" 0) (World.start fun _ _ => 0))
    (fun world => (world.stack.isEmpty, (run Ledger.host Ledger.spending world).toOption.map fun next =>
      (next.history.all fun effect => !effect.isCallback,
        (noted Ledger.host (allowances Ledger.alice) Ledger.spending world).sum)))
    (true, some (true, 30000 * 10 ^ 14 + 21000 * 150000000000)) (by decide +kernel)
  obtain ⟨idle, seen⟩ := Prod.mk.inj seen
  obtain ⟨next, continued, seen⟩ := exists_of_view _ _ _ seen
  obtain ⟨history, allowed⟩ := Prod.mk.inj seen
  have unforged : next.Unforged Ledger.host := World.Unforged.of_silent Ledger.host history
  have bounded := run_spending_bounded Ledger.host Ledger.evm_signs _ _ Ledger.spending world next (by decide +kernel)
    finished (List.isEmpty_iff.mp idle) (by decide +kernel) continued unforged Ledger.alice (by decide +kernel)
  rw [allowed] at bounded
  exact ⟨world, next, finished, continued, (Nat.le_add_right _ _).trans bounded⟩

end EosEvm

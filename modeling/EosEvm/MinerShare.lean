import EosEvm.GasIncome
import EosEvm.Lib.Agree

/-! The share of the miner is deducted from the contract's own balance inside the loop over the
reserved objects and paid after it. It is covered by what the contract received, so that
the loop aborts only where it would abort without a miner. -/

namespace EosEvm

open Abort Words

theorem received_of_mem {objects : List (Name × Account)} (distinct : (objects.map Prod.fst).Nodup)
    {object : Name × Account} (member : object ∈ objects) : received objects object.1 = object.2.balance := by
  induction objects with
  | nil => cases member
  | cons first rest ih =>
      rw [List.map_cons, List.nodup_cons] at distinct
      rcases List.mem_cons.mp member with rfl | later
      · have apart : rest.filter (fun other => decide (other.1 = object.1)) = [] := by
          rw [List.filter_eq_nil_iff]
          intro other present same
          exact distinct.1 (List.mem_map.mpr ⟨other, present, of_decide_eq_true same⟩)
        simp [received, apart]
      · have differs : first.1 ≠ object.1 := fun same => distinct.1 (List.mem_map.mpr ⟨object, later, same.symm⟩)
        rw [← ih distinct.2 later]
        simp [received, differs]

theorem received_eq_zero {objects : List (Name × Account)} {owner : Name}
    (empty : ∀ object ∈ objects, object.1 = owner → object.2.balance = 0) : received objects owner = 0 := by
  unfold received
  rw [List.sum_eq_zero]
  intro amount listed
  obtain ⟨object, member, rfl⟩ := List.mem_map.mp listed
  obtain ⟨present, same⟩ := List.mem_filter.mp member
  exact empty object present (of_decide_eq_true same)

/-- Two states of the loop that differ at most in the contract's own balance, once the share
was deducted from it. -/
structure Egress.Aside (symbol : Symbol) (contract : Name) (left right : Egress) : Prop where
  needSend : left.needSend = right.needSend
  totalEgress : left.totalEgress = right.totalEgress
  inevm : left.funds.inevm = right.funds.inevm
  loose : left.funds.Loose symbol
  others : ∀ owner, owner ≠ contract → left.funds.balances.get? owner = right.funds.balances.get? owner
  own : (left.funds.balances.get? contract).isSome = (right.funds.balances.get? contract).isSome
  before : left.deductedMinerCut = false → left.funds.balances.get? contract = right.funds.balances.get? contract

variable {symbol : Symbol} {env : Env} {egresslist : Table Name Unit} {unit share : Nat}
  {messages : List FilteredMessage} {left right : Egress}

theorem credit_agrees {funds other : Funds} {owner : Name} {amount : Nat} {missing : String}
    (same : funds.balances.get? owner = other.balances.get? owner) :
    Agree (fun first second => ∃ row changed, funds.balances.get? owner = some row ∧ row.add amount = .ok changed ∧
        first = { funds with balances := funds.balances.put owner changed } ∧
        second = { other with balances := other.balances.put owner changed })
      (funds.credit owner amount missing) (other.credit owner amount missing) := by
  unfold Funds.credit
  rw [← same]
  refine .same_ok fun row found => .same_ok fun changed added => ?_
  exact .ok ⟨row, changed, (require_ok _ _ _).mp found, added, rfl, rfl⟩

theorem sendReserved_agrees (aside : left.Aside symbol env.self right) (account : Name) (amount : Nat) :
    Agree (Egress.Aside symbol env.self) (sendReserved env egresslist unit messages account amount left)
      (sendReserved env egresslist unit messages account amount right) := by
  unfold sendReserved
  rw [aside.needSend]
  refine .same fun _ => .same fun _ => .same fun _ => .same fun marked => .same fun _ => ?_
  exact .ok ⟨rfl, aside.totalEgress, aside.inevm, aside.loose, aside.others, aside.own, aside.before⟩

theorem creditReserved_agrees_other (aside : left.Aside symbol env.self right) {account : Name}
    (other : account ≠ env.self) (amount : Nat) :
    Agree (Egress.Aside symbol env.self) (creditReserved env (some share) account amount left)
      (creditReserved env none account amount right) := by
  unfold creditReserved
  refine (credit_agrees (aside.others account other)).bind ?_
  rintro _ _ ⟨row, changed, found, added, rfl, rfl⟩
  simp only [if_neg other]
  have fits := ((aside.loose.balances account row found).add_spec added).1
  refine .ok ⟨aside.needSend, aside.totalEgress, aside.inevm, aside.loose.put account fits, ?_, ?_, ?_⟩
  · intro owner foreign
    simp only [Table.get?_put]
    split
    · rfl
    · exact aside.others owner foreign
  · simp only [Table.get?_put, if_neg other]
    exact aside.own
  · intro undeducted
    simp only [Table.get?_put, if_neg other]
    exact aside.before undeducted

theorem creditReserved_agrees_self (aside : left.Aside symbol env.self right) (fresh : left.deductedMinerCut = false)
    {amount : Nat} (covered : share ≤ amount) :
    Agree (Egress.Aside symbol env.self) (creditReserved env (some share) env.self amount left)
      (creditReserved env none env.self amount right) := by
  unfold creditReserved
  refine (credit_agrees (aside.before fresh)).bind ?_
  rintro _ _ ⟨row, changed, found, added, rfl, rfl⟩
  have loose := aside.loose.balances env.self row found
  obtain ⟨rest, taken⟩ := loose.exists_sub_of_add added covered
  have fits := ((loose.add_spec added).1.sub_spec taken).1
  have debited : Funds.debit { left.funds with balances := left.funds.balances.put env.self changed } env.self share
      missingKey = .ok { left.funds with balances := (left.funds.balances.put env.self changed).put env.self rest } := by
    simp only [Funds.debit, bind_ok, require_ok, pure_ok]
    exact ⟨changed, by rw [Table.get?_put, if_pos rfl], rest, taken, rfl⟩
  simp only [debited, check, if_pos fresh, ok_bind]
  refine .ok ⟨aside.needSend, aside.totalEgress, aside.inevm, ?_, ?_, ?_, ?_⟩
  · exact (aside.loose.put env.self (loose.add_spec added).1).put env.self fits
  · intro owner foreign
    simp only [Table.get?_put, if_neg (Ne.symm foreign)]
    exact aside.others owner foreign
  · simp only [Table.get?_put]
    rfl
  · intro undeducted
    cases undeducted

theorem egressObject_agrees (aside : left.Aside symbol env.self right) {object : Name × Account}
    (fresh : object.1 = env.self → left.deductedMinerCut = false)
    (covered : object.1 = env.self → share ≤ object.2.balance) :
    Agree (Egress.Aside symbol env.self) (egressObject env egresslist unit (some share) messages left object)
      (egressObject env egresslist unit none messages right object) := by
  unfold egressObject
  refine .same fun _ => .same fun _ => ?_
  split
  · exact .ok aside
  · have counted : Egress.Aside symbol env.self { left with totalEgress := u256 (left.totalEgress + object.2.balance) }
        { right with totalEgress := u256 (right.totalEgress + object.2.balance) } :=
      ⟨aside.needSend, by simp only [aside.totalEgress], aside.inevm, aside.loose, aside.others, aside.own, aside.before⟩
    have opened : (left.funds.balances.get? object.1).isSome = (right.funds.balances.get? object.1).isSome := by
      by_cases own : object.1 = env.self
      · rw [own]
        exact aside.own
      · rw [aside.others _ own]
    simp only [opened]
    split
    · by_cases own : object.1 = env.self
      · rw [own]
        exact creditReserved_agrees_self counted (fresh own) (covered own)
      · exact creditReserved_agrees_other counted own _
    · exact sendReserved_agrees counted _ _

theorem egressObject_deducted {portion : Option Nat} {object : Name × Account} {egress reached : Egress}
    (stepped : egressObject env egresslist unit portion messages egress object = .ok reached) :
    reached.deductedMinerCut =
      (egress.deductedMinerCut || (portion.isSome && decide (object.1 = env.self ∧ object.2.balance ≠ 0))) := by
  simp only [egressObject, bind_ok, check_ok, exists_const] at stepped
  obtain ⟨_, _, stepped⟩ := stepped
  split at stepped
  · rename_i zero
    cases stepped
    simp [zero]
  · rename_i nonzero
    split at stepped
    · simp only [creditReserved, bind_ok] at stepped
      obtain ⟨_, _, stepped⟩ := stepped
      split at stepped
      · split at stepped
        · rename_i own
          simp only [bind_ok, check_ok, exists_const, pure_ok] at stepped
          obtain ⟨_, _, _, rfl⟩ := stepped
          simp [own, nonzero]
        · rename_i other
          rw [pure_ok] at stepped
          subst stepped
          simp [other]
      · rw [pure_ok] at stepped
        subst stepped
        simp
    · simp only [sendReserved, bind_ok, check_ok, exists_const, pure_ok] at stepped
      obtain ⟨foreign, _, _, _, _, _, rfl⟩ := stepped
      simp [foreign]

theorem egressLoop_agrees {objects : List (Name × Account)} (aside : left.Aside symbol env.self right)
    (distinct : (objects.map Prod.fst).Nodup)
    (fresh : env.self ∈ objects.map Prod.fst → left.deductedMinerCut = false)
    (covered : ∀ object ∈ objects, object.1 = env.self → share ≤ object.2.balance) :
    Agree (Egress.Aside symbol env.self)
      (foldOutcome (egressObject env egresslist unit (some share) messages) objects left)
      (foldOutcome (egressObject env egresslist unit none messages) objects right) := by
  induction objects generalizing left right with
  | nil => exact .ok aside
  | cons object rest ih =>
      rw [List.map_cons, List.nodup_cons] at distinct
      have first : Agree (Egress.Aside symbol env.self)
          (egressObject env egresslist unit (some share) messages left object)
          (egressObject env egresslist unit none messages right object) :=
        egressObject_agrees aside (fun own => fresh (by simp [own])) (covered object List.mem_cons_self)
      refine first.known.bind ?_
      rintro next other ⟨stepped, beside⟩
      refine ih beside distinct.2 (fun listed => ?_) fun later member => covered later (List.mem_cons_of_mem _ member)
      -- The contract's object comes later, so that this round deducted nothing.
      have foreign : object.1 ≠ env.self := fun own => distinct.1 (own ▸ listed)
      rw [egressObject_deducted stepped, fresh (List.mem_map.mpr ?_)]
      · simp [foreign]
      · obtain ⟨later, member, named⟩ := List.mem_map.mp listed
        exact ⟨later, List.mem_cons_of_mem _ member, named⟩

theorem egressLoop_deducted {portion : Option Nat} {objects : List (Name × Account)} {egress reached : Egress}
    (folded : foldOutcome (egressObject env egresslist unit portion messages) objects egress = .ok reached) :
    reached.deductedMinerCut =
      (egress.deductedMinerCut || (portion.isSome && decide (received objects env.self ≠ 0))) := by
  induction objects generalizing egress with
  | nil =>
      rw [foldOutcome_nil] at folded
      simp [← folded, received]
  | cons object rest ih =>
      obtain ⟨next, stepped, folded⟩ := (foldOutcome_cons _ _ _ _ _).mp folded
      rw [ih folded, egressObject_deducted stepped]
      by_cases own : object.1 = env.self
      · have sum : received (object :: rest) env.self = object.2.balance + received rest env.self := by
          simp [received, own]
        rw [sum]
        by_cases zero : object.2.balance = 0
        · simp [zero]
        · cases portion <;> simp [own, zero]
      · have same : received (object :: rest) env.self = received rest env.self := by
          simp [received, own]
        rw [same]
        simp [own]

variable {config : ConfigWrapper} {output : RunOutput} {funds : Funds}

theorem egressFunds_aborts (loose : funds.Loose symbol) (covered : share ≤ received output.reservedObjects env.self)
    {message : String} (aborted : egressFunds env config egresslist (some share) output funds = .error message) :
    egressFunds env config egresslist none output funds = .error message := by
  have same : Agree (fun _ _ => True) (egressFunds env config egresslist (some share) output funds)
      (egressFunds env config egresslist none output funds) := by
    unfold egressFunds
    split
    · exact .ok trivial
    · refine .same fun unit => ?_
      have start : Egress.Aside symbol env.self
          { funds := funds, needSend := output.filteredMessages.map fun _ => false }
          { funds := funds, needSend := output.filteredMessages.map fun _ => false } :=
        ⟨rfl, rfl, rfl, loose, fun _ _ => rfl, rfl, fun _ => rfl⟩
      refine (egressLoop_agrees start output.distinctReserved (fun _ => rfl) ?_).bind ?_
      · intro object member own
        rw [← received_of_mem output.distinctReserved member, own]
        exact covered
      · intro left right aside
        rw [aside.needSend]
        refine .same fun _ => ?_
        have leaves : Agree (fun _ _ => True) (leaveTotal left.totalEgress left.funds)
            (leaveTotal right.totalEgress right.funds) := by
          unfold leaveTotal
          rw [aside.totalEgress]
          split
          · exact .ok trivial
          · unfold Funds.leaveEvm
            rw [aside.inevm]
            exact .same fun _ => .same fun _ => .ok trivial
        exact leaves.bind fun _ _ _ => .ok trivial
  exact same.aborts aborted

theorem egressFunds_deducted {portion : Option Nat} {after : Funds} {deducted : Bool} {sent : List Inline}
    (egressed : egressFunds env config egresslist portion output funds = .ok (after, deducted, sent)) :
    deducted = (portion.isSome && decide (received output.reservedObjects env.self ≠ 0)) := by
  simp only [egressFunds] at egressed
  split at egressed
  · rename_i none
    cases egressed
    simp [none, received]
  · simp only [bind_ok, pure_ok, Prod.mk.injEq] at egressed
    obtain ⟨_, _, _, folded, _, _, _, _, _, rfl, _⟩ := egressed
    rw [egressLoop_deducted folded]
    simp

theorem settleTx_closed {context : TxContext} {fromSelf : Bool} {sender : Address} {after : Funds} {sent : List Inline}
    (settled : settleTx env context fromSelf sender output funds = .ok (after, sent))
    (closed : funds.balances.get? env.self = none) : received output.reservedObjects env.self = 0 := by
  simp only [settleTx, bind_ok, check_ok, exists_const] at settled
  obtain ⟨portion, _, _, ⟨left, deducted, actions⟩, egressed, _⟩ := settled
  simp only [egressFunds] at egressed
  split at egressed
  · rename_i nothing
    simp [nothing, received]
  · simp only [bind_ok] at egressed
    obtain ⟨unit, _, egress, folded, _⟩ := egressed
    have inv := (Egressing.begin unit output.filteredMessages).fold folded
    rw [List.nil_append] at inv
    refine received_eq_zero fun object member own => ?_
    by_contra nonzero
    exact (inv.forwards object member nonzero (own ▸ closed)).foreign own

theorem settleTx_receivedSelf {context : TxContext} {fromSelf : Bool} {sender : Address} {after : Funds}
    {sent : List Inline} (settled : settleTx env context fromSelf sender output funds = .ok (after, sent)) :
    receivedOpen funds output.reservedObjects env.self = received output.reservedObjects env.self := by
  unfold receivedOpen
  split
  · rfl
  · rename_i closed
    exact (settleTx_closed settled (Option.not_isSome_iff_eq_none.mp closed)).symm

/-- What the library credits to the beneficiary for a transaction it accepted: the gas fee, or
in version 3 the fee of the inclusion. -/
structure Silkworm.Pays (evm : Silkworm) : Prop where
  fee : ∀ input output, evm.preValidateTransaction input.header input.chainId input.gasParams input.tx = .ok →
    evm.executeTransaction input = .ok output → input.header.version < 3 →
    output.cumulativeGasUsed * Exact.effectiveGasPrice input.tx input.header.baseFeePerGas ≤
      received output.reservedObjects input.header.beneficiary
  inclusion : ∀ input output, evm.executeTransaction input = .ok output → 3 ≤ input.header.version →
    output.inclusionFee ≤ received output.reservedObjects input.header.beneficiary

/-- The share of a miner, by version. -/
def Exact.minerShare (config : ConfigWrapper) (header : BlockHeader) (tx : Transaction) (output : RunOutput) : Nat :=
  if 3 ≤ header.version then output.inclusionFee
  else if 1 ≤ header.version then
    output.cumulativeGasUsed * Exact.priorityFeePerGas tx (header.baseFeePerGas.getD 0)
  else output.cumulativeGasUsed * tx.maxFeePerGas * config.cached.minerCut / hundredPercent

theorem Metered.minerPortion_eq {header : BlockHeader} {tx : Transaction} (metered : Metered header tx output)
    (capped : config.Capped) {now portion : Nat} (version : config.getEvmVersion now = header.version)
    (portioned : minerPortion config now header tx output = .ok portion) :
    portion = Exact.minerShare config header tx output := by
  rw [metered.minerPortion_exact capped] at portioned
  unfold Exact.minerPortion at portioned
  unfold Exact.minerShare
  rw [version] at portioned
  by_cases three : 3 ≤ header.version
  · rw [if_pos three, Except.ok.injEq] at portioned
    rw [if_pos three, portioned]
  · rw [if_neg three] at portioned ⊢
    by_cases one : 1 ≤ header.version
    · rw [if_pos one] at portioned ⊢
      simp only [bind_ok, require_ok, check_ok, exists_const, pure_ok] at portioned
      obtain ⟨baseFee, found, _, rfl⟩ := portioned
      rw [found, Option.getD_some]
    · rw [if_neg one] at portioned ⊢
      simp only [bind_ok, check_ok, exists_const, pure_ok] at portioned
      exact portioned.2.symm

theorem Silkworm.Pays.covers {evm : Silkworm} (pays : evm.Pays) (capped : config.Capped) {input : RunInput}
    (ran : evm.executeTransaction input = .ok output)
    (accepted : evm.preValidateTransaction input.header input.chainId input.gasParams input.tx = .ok)
    (unpriced : input.header.version = 0 →
      input.header.baseFeePerGas = none ∧ input.tx.maxPriorityFeePerGas = input.tx.maxFeePerGas) :
    Exact.minerShare config input.header input.tx output ≤ received output.reservedObjects input.header.beneficiary := by
  unfold Exact.minerShare
  split
  · rename_i three
    exact pays.inclusion input output ran three
  · rename_i below
    refine le_trans ?_ (pays.fee input output accepted ran (Nat.lt_of_not_le below))
    unfold Exact.effectiveGasPrice
    split
    · exact Nat.mul_le_mul_left _ (Nat.le_add_right _ _)
    · rename_i zero
      obtain ⟨none, same⟩ := unpriced (by omega)
      have price : Exact.priorityFeePerGas input.tx 0 = input.tx.maxFeePerGas := by
        simp [Exact.priorityFeePerGas, same]
      rw [none, Option.getD_none, price, Nat.add_zero]
      exact capped.cut_le _

variable {host : Host} {view : ChainView} {world : World} {request : Request} {call : TxCall}

theorem Calls.ordinary (calls : Calls host view world request call) (admitted : call.rc.allowNonSelfMiner = true) :
    call.rc.allowSpecialSignature = false ∧ call.rc.gasPayer = none := by
  cases calls with
  | pushes =>
      simp only [Contract.pushtxConfig] at admitted ⊢
      split at admitted
      · cases admitted
      · rename_i outside
        rw [if_neg outside]
        exact ⟨rfl, rfl⟩
  | bridges => cases admitted

theorem beginTx_ordinary {context : TxContext} {charged : Funds} {fromSelf : Bool} {input : RunInput}
    (begun : beginTx env context funds = .ok (charged, fromSelf, input))
    (ordinary : context.rc.allowSpecialSignature = false) : charged = funds := by
  obtain ⟨sender, _, _, prepared, _⟩ := beginTx_ok begun
  simp only [prepareSender] at prepared
  split at prepared
  · simp [check, ordinary] at prepared
  · simp only [Except.ok.injEq, Prod.mk.injEq] at prepared
    exact prepared.1.symm

theorem beginTx_miner {context : TxContext} {charged : Funds} {fromSelf : Bool} {input : RunInput} {miner : Name}
    (begun : beginTx env context funds = .ok (charged, fromSelf, input))
    (payable : payableMiner env.self context.miner = some miner) : (funds.balances.get? miner).isSome = true := by
  simp only [beginTx, checkMiner, payable, bind_ok, check_ok, exists_const] at begun
  exact begun.1

theorem checkPrice_unpriced {version : Nat} {tx : Transaction} {minPrice : Option Nat} (zero : version = 0)
    (priced : checkPrice config version tx minPrice = .ok ()) : tx.maxPriorityFeePerGas = tx.maxFeePerGas := by
  subst zero
  simp only [checkPrice, bind_ok, check_ok, exists_const, if_neg (by decide : ¬1 ≤ 0)] at priced
  exact priced.1

theorem settleTx_minerRows {context : TxContext} {fromSelf : Bool} {sender : Address} {after : Funds}
    {sent : List Inline} (loose : funds.Loose symbol) (unpaid : context.rc.gasPayer = none)
    (payable : payableMiner env.self context.miner = some context.miner)
    (opened : (funds.balances.get? context.miner).isSome = true)
    (settled : settleTx env context fromSelf sender output funds = .ok (after, sent)) :
    ∃ portion, minerPortion context.config env.now context.header context.tx output = .ok portion ∧
      after.valueOf context.miner =
        funds.valueOf context.miner + received output.reservedObjects context.miner + portion ∧
      after.valueOf env.self + portion = funds.valueOf env.self + received output.reservedObjects env.self := by
  have foreign : context.miner ≠ env.self := by
    intro same
    simp [payableMiner, same] at payable
  obtain ⟨share, paid, refunded, shared, shifts, refunds, records⟩ := settleTx_shifts loose settled
  rw [unpaid] at refunds
  cases refunds
  rcases minerShare_ok shared with ⟨none, _⟩ | ⟨_, portion, _, rfl, portioned⟩
  · rw [payable] at none
    cases none
  · have own := settleTx_receivedSelf settled
    have mined := shifts.values context.miner
    have kept := shifts.values env.self
    simp only [Pi.add_apply, Pi.single_eq_same, Pi.single_eq_of_ne foreign, receivedOpen,
      if_pos opened, Option.getD_some] at mined
    simp only [Pi.add_apply, Pi.single_eq_same, Pi.single_eq_of_ne foreign.symm, own, Option.getD_some] at kept
    refine ⟨portion, portioned, ?_, ?_⟩
    · rw [recordGasFee_valueOf records]
      omega
    · rw [recordGasFee_valueOf records]
      omega

/-- For every transaction executed with a miner, the share is paid to the miner out of what the
contract received, and neither its deduction nor its payment aborts where the transaction would
not abort without a miner, but for the credit to the miner itself. The cut is bounded in every
reachable state. -/
theorem minerShare_covered (host : Host) (meters : host.evm.Meters) (pays : host.evm.Pays) (world : World)
    (loose : world.contract.Loose) (capped : world.config.cached.minerCut ≤ 90000) (view : ChainView)
    (request : Request) (call : TxCall) (calls : Calls host view world request call) (tx : Transaction)
    (foreign : call.miner ≠ host.self) (named : call.miner.val ≠ 0)
    (admitted : call.rc.allowNonSelfMiner = true ∨ call.miner = host.self) :
    let env := host.env view world.now request
    let context := contextOf env call.rc call.miner tx call.contract
    let funds := call.contract.funds
    let share := Exact.minerShare context.config context.header tx
    checkPrice context.config context.header.version tx call.minInclusionPrice = .ok () →
    (∀ after sent input output, executeTx env context funds = .ok (after, sent, input, output) →
      minerPortion context.config env.now context.header tx output = .ok (share output) ∧
      after.valueOf call.miner =
        funds.valueOf call.miner + received output.reservedObjects call.miner + share output ∧
      after.valueOf host.self + share output = funds.valueOf host.self + received output.reservedObjects host.self) ∧
    (∀ charged fromSelf input output, beginTx env context funds = .ok (charged, fromSelf, input) →
      env.evm.validateTransaction input = .ok .ok → env.evm.executeTransaction input = .ok output →
      ∀ portion, minerPortion context.config env.now context.header tx output = .ok portion →
        (∀ message, egressFunds env context.config context.egresslist (some portion) output charged = .error message →
          egressFunds env context.config context.egresslist none output charged = .error message) ∧
        ∀ left deducted sent,
          egressFunds env context.config context.egresslist (some portion) output charged = .ok (left, deducted, sent) →
          portion ≠ 0 → deducted = true) ∧
    ∀ holding labels reached, run host labels (World.start holding) = .ok reached →
      reached.contract.Loose ∧ reached.config.cached.minerCut ≤ 90000 := by
  intro env context funds share priced
  have payable : payableMiner host.self call.miner = some call.miner := by simp [payableMiner, foreign, named]
  obtain ⟨special, unpaid⟩ := calls.ordinary (admitted.resolve_right foreign)
  have version : context.config.getEvmVersion env.now = context.header.version :=
    contextOf_version env call.rc call.miner tx call.contract
  have cut : context.config.Capped :=
    ((calls.capped capped).promoteEvmVersion world.now).promoteConsensusParam world.now
  have rows : funds.Loose context.config.getTokenSymbol := by
    rw [contextOf_symbol]
    exact calls.loose loose
  refine ⟨?_, ?_, fun holding labels reached finished => ⟨run_loose finished, run_capped finished⟩⟩
  · intro after sent input output executed
    obtain ⟨charged, fromSelf, begun, validated, ran, settled⟩ := executeTx_ok executed
    have metered : Metered context.header tx output := Silkworm.Meters.metered_of_ran meters begun validated ran
    have opened : (funds.balances.get? call.miner).isSome = true := beginTx_miner begun payable
    have same : charged = funds := beginTx_ordinary begun special
    subst same
    obtain ⟨portion, portioned, mined, kept⟩ := settleTx_minerRows rows unpaid payable opened settled
    have exact : portion = share output := metered.minerPortion_eq cut version portioned
    subst exact
    exact ⟨portioned, mined, kept⟩
  · intro charged fromSelf input output begun validated ran portion portioned
    have metered : Metered context.header tx output := Silkworm.Meters.metered_of_ran meters begun validated ran
    have same : charged = funds := beginTx_ordinary begun special
    subst same
    have exact : portion = share output := metered.minerPortion_eq cut version portioned
    have covered : portion ≤ received output.reservedObjects host.self := by
      have accepted := beginTx_preValidated begun
      obtain ⟨sender, funded, _, _, rfl⟩ := beginTx_ok begun
      have unpriced : context.header.version = 0 → context.header.baseFeePerGas = none := contextOf_unpriced
      rw [exact]
      exact pays.covers cut ran accepted fun zero => ⟨unpriced zero, checkPrice_unpriced zero priced⟩
    refine ⟨fun message aborted => egressFunds_aborts rows covered aborted, ?_⟩
    intro left deducted sent egressed nonzero
    rw [egressFunds_deducted egressed, Option.isSome_some, Bool.true_and, decide_eq_true_eq]
    exact Nat.ne_of_gt (lt_of_lt_of_le (Nat.pos_of_ne_zero nonzero) covered)

namespace Ledger

theorem accumulate_getD (table : Table Name Nat) (account owner : Name) (amount : Nat) :
    ((accumulate table account amount).get? owner).getD 0 =
      (table.get? owner).getD 0 + (Pi.single account amount : Name → Nat) owner := by
  unfold accumulate
  rw [Table.get?_put]
  by_cases same : account = owner
  · subst same
    rw [if_pos rfl, Option.getD_some, Pi.single_eq_same]
  · rw [if_neg same, Pi.single_eq_of_ne (Ne.symm same), Nat.add_zero]

theorem received_receipt (tx : Transaction) (table : Table Name Nat) (messages : List FilteredMessage)
    (changed : Option DbWrite) (owner : Name) :
    received (receipt tx table messages changed).reservedObjects owner = (table.get? owner).getD 0 := by
  have distinct := (receipt tx table messages changed).distinctReserved
  cases found : table.get? owner with
  | none =>
      refine received_eq_zero fun object member named => ?_
      obtain ⟨row, present, rfl⟩ := List.mem_map.mp member
      exact absurd (named ▸ present) ((Table.get?_eq_none table owner).mp found row.2)
  | some amount =>
      have member := List.mem_map_of_mem (f := reservedObject) ((Table.get?_eq_some table owner amount).mp found)
      exact received_of_mem distinct member

theorem executeTransaction_fee {input : RunInput} {output : RunOutput} (ran : executeTransaction input = .ok output) :
    gasUsed input.tx * input.tx.maxFeePerGas ≤ received output.reservedObjects input.header.beneficiary ∧
      output.inclusionFee = 0 := by
  simp only [executeTransaction, bind_ok, require_ok, check_ok, exists_const] at ran
  obtain ⟨funded, _, account, _, recipient, _, _, ran⟩ := ran
  split at ran
  · rw [pure_ok] at ran
    subst ran
    rw [received_receipt, accumulate_getD, accumulate_getD, Pi.single_eq_same]
    exact ⟨by omega, rfl⟩
  · simp only [bind_ok, pure_ok] at ran
    obtain ⟨_, _, rfl⟩ := ran
    rw [received_receipt, accumulate_getD, Pi.single_eq_same]
    exact ⟨by omega, rfl⟩

theorem executeOrdinary_fee {input : RunInput} {output : RunOutput} (ran : executeOrdinary input = .ok output) :
    gasUsed input.tx * Exact.effectiveGasPrice input.tx input.header.baseFeePerGas =
        received output.reservedObjects input.header.beneficiary ∧ output.inclusionFee = 0 := by
  simp only [executeOrdinary, bind_ok, require_ok, check_ok, exists_const, pure_ok] at ran
  obtain ⟨_, _, _, _, _, rfl⟩ := ran
  rw [received_receipt, accumulate_getD, Pi.single_eq_same, Table.get?_empty, Option.getD_none, Nat.zero_add]
  exact ⟨rfl, rfl⟩

theorem market_pays : market.Pays where
  fee := by
    intro input output accepted ran below
    simp only [market] at ran
    split at ran
    · rw [executeTransaction_gasUsed ran]
      refine le_trans (Nat.mul_le_mul_left _ ?_) (executeTransaction_fee ran).1
      simp only [market] at accepted
      split at accepted
      · unfold Exact.effectiveGasPrice Exact.priorityFeePerGas
        omega
      · cases accepted
    · rw [executeOrdinary_gasUsed ran]
      exact (executeOrdinary_fee ran).1.le
  inclusion := by
    intro input output ran latest
    simp only [market] at ran
    split at ran
    · rw [(executeTransaction_fee ran).2]
      exact Nat.zero_le _
    · rw [(executeOrdinary_fee ran).2]
      exact Nat.zero_le _

end Ledger

theorem minerShare_covered_mined : ∃ world after sent input output,
    run Ledger.marketHost Ledger.ordinaryFunded (World.start fun _ _ => 0) = .ok world ∧
    Ledger.mined Ledger.alice world = .ok (after, sent, input, output) ∧
    after.valueOf Ledger.alice = (Ledger.mineContract Ledger.alice world).funds.valueOf Ledger.alice +
      received output.reservedObjects Ledger.alice + 420000000000000 ∧
    after.valueOf Ledger.self + 420000000000000 = (Ledger.mineContract Ledger.alice world).funds.valueOf Ledger.self +
      received output.reservedObjects Ledger.self := by
  obtain ⟨world, reached, seen⟩ := exists_of_view
    (run Ledger.marketHost Ledger.ordinaryFunded (World.start fun _ _ => 0))
    (fun world => decide ((Ledger.mined Ledger.alice world).toOption.map (fun result => decide
      ((checkPrice (Ledger.mineContext Ledger.alice world).config (Ledger.mineContext Ledger.alice world).header.version
          Ledger.ordinary none).isOk = true ∧
        Exact.minerShare (Ledger.mineContext Ledger.alice world).config (Ledger.mineContext Ledger.alice world).header
          Ledger.ordinary result.2.2.2 = 420000000000000)) = some true)) true (by decide +kernel)
  obtain ⟨⟨after, sent, input, output⟩, executed, checked⟩ := exists_of_view _ _ _ (of_decide_eq_true seen)
  obtain ⟨priced, share⟩ := of_decide_eq_true checked
  obtain ⟨⟨⟩, priced⟩ := exists_of_isOk priced
  have foreign : Ledger.alice ≠ Ledger.self := by decide
  have named : Ledger.alice.val ≠ 0 := by decide
  obtain ⟨paid, _⟩ := minerShare_covered Ledger.marketHost Ledger.market_meters Ledger.market_pays world
    (run_loose reached) (run_capped reached) Ledger.view _ _
    (.pushes none [Ledger.alice] Ledger.alice (Ledger.evm.encodeTransaction Ledger.ordinary) none) Ledger.ordinary
    foreign named (Or.inl rfl) priced
  obtain ⟨_, mined, kept⟩ := paid after sent input output executed
  refine ⟨world, after, sent, input, output, reached, executed, ?_, ?_⟩
  · rw [← share]
    exact mined
  · rw [← share]
    exact kept

end EosEvm

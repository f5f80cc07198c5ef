import EosEvm.Solvency
import EosEvm.Reconfigure

/-! A run on the bank. What the accounts have in the contract they can take out of it, all of them
and in any order: a withdrawal within the balance is accepted, and the transfer it sends is
covered by what the contract holds. -/

namespace EosEvm

open Abort

variable {host : Host} {world : World}

theorem step_submit (idle : world.stack = []) {requests : List Request}
    (foreign : requests.all (Request.isForeign host.self) = true) :
    step host world (.submit requests) = .ok { world with stack := requests.map .request } := by
  rw [step, (check_ok _ _ ()).mpr ⟨idle, foreign⟩]
  rfl

theorem step_top {request : Request} {rest : List Pending} (view : ChainView) (top : Top host world.stack request rest) :
    step host world (.next view [] []) = handle host view [] [] request rest world := by
  have quiet : check (request.notifies = true ∨ ([] : List Request) = [] ∧ ([] : List Request) = [])
      "no account is notified" = .ok () := (check_ok _ _ ()).mpr (Or.inr ⟨rfl, rfl⟩)
  rw [step, (check_ok _ _ ()).mpr (by rfl), ok_bind, next]
  rcases top.stack_eq with arriving | ⟨sent, leaving, own, unpacked⟩
  · rw [arriving]
    change (check _ _ >>= fun _ => handle host view [] [] request rest world) = _
    rw [quiet, ok_bind]
  · rw [leaving]
    dsimp only
    rw [if_neg (by simp [own]), unpacked]
    change (check _ _ >>= fun _ => handle host view [] [] request rest world) = _
    rw [quiet, ok_bind]

theorem Handled.step {view : ChainView} {request : Request} {rest : List Pending} {holding : Name → Symbol → Nat}
    {contract : Contract} (handled : Handled host view [] [] request rest holding contract world) :
    step host world (.next view [] []) = .ok (world.handled [] [] request rest holding contract) := by
  rw [step_top view handled.top, handle, handled.moved, ok_bind, handled.ran, ok_bind]
  rfl

namespace World

/-- The whole units of an account's balance. -/
def amountOf (world : World) (owner : Name) : Int :=
  ((world.tables.funds.balances.get? owner).map fun row => row.balance.amount).getD 0

theorem config_handled {view : ChainView} {before after : List Request} {request : Request} {rest : List Pending}
    {holding : Name → Symbol → Nat} {contract : Contract}
    (handled : Handled host view before after request rest holding contract world)
    (same : contract.config = world.config) :
    (world.handled before after request rest holding contract).config = world.config := by
  rw [handled.reconfigures.2, same]
  rfl

theorem held_of_config {other : World} (same : other.config = world.config) :
    other.held = other.holding world.tables.tokenContract world.tables.tokenSymbol := by
  change other.holding other.config.cached.tokenContract other.config.getTokenSymbol = _
  rw [same]
  rfl

end World

/-- The request to withdraw from an account, and the transaction it takes. -/
def withdrawal (view : ChainView) (symbol : Symbol) (ask : Name × Nat) : List Label :=
  [.submit [.action none [ask.1] (.withdraw ask.1 ⟨ask.2, symbol⟩ none)], .next view [] [], .next view [] []]

/-- What is asked for an account. -/
def askedFor (owner : Name) (asks : List (Name × Nat)) : Nat :=
  ((asks.filter fun ask => decide (ask.1 = owner)).map Prod.snd).sum

theorem askedFor_cons (owner : Name) (ask : Name × Nat) (asks : List (Name × Nat)) :
    askedFor owner (ask :: asks) = (if ask.1 = owner then ask.2 else 0) + askedFor owner asks := by
  unfold askedFor
  by_cases mine : ask.1 = owner <;> simp [mine]

def ConfigWrapper.payment (config : ConfigWrapper) (owner : Name) (amount : Nat) : Inline :=
  .transfer config.cached.tokenContract owner ⟨amount, config.getTokenSymbol⟩ (bytesOf "Withdraw from EVM balance")

namespace Contract

variable {contract : Contract} {owner : Name} {row : BalanceWithDust} {amount : Nat}

def paidOut (contract : Contract) (row : BalanceWithDust) (amount : Nat) : BalanceWithDust :=
  ⟨⟨row.balance.amount - amount, contract.config.getTokenSymbol⟩, row.dust⟩

def payOut (contract : Contract) (owner : Name) (row : BalanceWithDust) (amount : Nat) : Contract :=
  { contract with
    funds := { contract.funds with balances := contract.funds.balances.put owner (contract.paidOut row amount) }
    effects := contract.effects ++ [.sent (contract.config.payment owner amount)] }

theorem withdraw_accepts (env : Env) (ready : assertUnfrozen contract.config = .ok ()) (authorised : owner ∈ env.auths)
    (found : contract.funds.balances.get? owner = some row) (normal : row.Normal)
    (enough : (amount : Int) ≤ row.balance.amount) :
    contract.withdraw env owner ⟨amount, contract.config.getTokenSymbol⟩ none = .ok (contract.payOut owner row amount) := by
  have bounded := normal.bounded
  have subtracts : ({ row.balance with symbol := contract.config.getTokenSymbol } : Asset).sub
      ⟨amount, contract.config.getTokenSymbol⟩ =
        .ok ⟨row.balance.amount - amount, contract.config.getTokenSymbol⟩ := by
    refine (Asset.sub_ok _ _ _).mpr ⟨rfl, ?_, ?_, rfl⟩ <;> unfold maxAmount at * <;> dsimp only <;> omega
  rw [withdraw, ready, ok_bind, (requireAuth_ok _ _ ()).mpr authorised, ok_bind, found]
  simp only [Abort.require, ok_bind, (check_ok _ _ ()).mpr enough, subtracts]
  rfl

end Contract

/-- The token contract pays what the contract holds. -/
def TokenContract.Pays (tokens : TokenContract) : Prop :=
  ∀ self token recipient symbol amount holding, 0 < amount → recipient ≠ self → amount ≤ holding token symbol →
    ∃ moved, tokens.move self token self recipient ⟨(amount : Nat), symbol⟩ holding = .ok moved

theorem TokenContract.Pays.moves {tokens : TokenContract} (pays : tokens.Pays) {self token recipient : Name}
    {symbol : Symbol} {amount : Nat} {holding : Name → Symbol → Nat} (positive : 0 < amount) (other : recipient ≠ self)
    (covered : amount ≤ holding token symbol) :
    tokens.move self token self recipient ⟨amount, symbol⟩ holding =
      .ok (Function.update holding token (Function.update (holding token) symbol (holding token symbol - amount))) := by
  obtain ⟨moved, done⟩ := pays self token recipient symbol amount holding positive other covered
  obtain ⟨_, _, _, rfl⟩ := tokens.sound done
  rw [done, holdingAfter, if_pos rfl]
  rfl

namespace World

theorem Solvent.accepts (law : host.evm.Conserves) (solvent : world.Solvent host) (idle : world.stack = [])
    (ready : assertUnfrozen world.config = .ok ()) (view : ChainView) {owner : Name} {row : BalanceWithDust} {amount : Nat}
    (found : world.tables.funds.balances.get? owner = some row) (enough : (amount : Int) ≤ row.balance.amount) :
    ∃ middle sent, run host [.submit [.action none [owner] (.withdraw owner ⟨amount, world.tables.tokenSymbol⟩ none)],
        .next view [] []] world = .ok middle ∧ middle.Solvent host ∧ middle.config = world.config ∧
      middle.holding = world.holding ∧ middle.stack = [.sent sent] ∧ sent.action = world.config.payment owner amount ∧
      middle.tables.funds.balances = world.tables.funds.balances.put owner (world.contract.paidOut row amount) := by
  let request : Request := .action none [owner] (.withdraw owner ⟨amount, world.tables.tokenSymbol⟩ none)
  let waiting : World := { world with stack := [.request request] }
  obtain ⟨normal, _⟩ := solvent.backed.sound.balances owner row found
  have submitted : EosEvm.step host world (.submit [request]) = .ok waiting := step_submit idle (by rfl)
  have handled : Handled host view [] [] request [] world.holding (world.contract.payOut owner row amount) waiting :=
    ⟨.request request [], fun _ member => (by cases member), Or.inr ⟨rfl, rfl⟩, rfl,
      Contract.withdraw_accepts _ ready (List.mem_singleton_self _) found normal enough⟩
  have afterwards : (waiting.handled [] [] request [] world.holding (world.contract.payOut owner row amount)).Solvent host :=
    (solvent.step law (by rfl) (step_ok submitted)).step law (by rfl) (step_ok handled.step)
  refine ⟨_, ⟨world.config.payment owner amount, request, _⟩, ?_, afterwards, config_handled handled rfl, rfl, rfl, rfl,
    rfl⟩
  exact (foldOutcome_cons _ _ _ _ _).mpr ⟨_, submitted, (foldOutcome_cons _ _ _ _ _).mpr ⟨_, handled.step, rfl⟩⟩

theorem Solvent.pays (pays : host.token.Pays) (solvent : world.Solvent host)
    (ready : assertUnfrozen world.config = .ok ()) (view : ChainView)
    {owner : Name} {amount : Nat} {sent : Sent} (other : owner ≠ host.self) (positive : 0 < amount)
    (top : world.stack = [.sent sent]) (sends : sent.action = world.config.payment owner amount) :
    ∃ final, EosEvm.step host world (.next view [] []) = .ok final ∧ final.config = world.config ∧ final.stack = [] ∧
      final.tables.funds = world.tables.funds ∧ final.held + amount = world.held := by
  -- The transfer is pending, so the holding covers it along with everything that is owed.
  have covered : amount ≤ world.held := by
    have total := solvent.covered
    have pending : pendingOutflow world.stack = amount := by
      rw [top, pendingOutflow_cons, Pending.outflow, sends]
      rfl
    rw [pending] at total
    simp only [Contract.liabilities, World.contract, Contract.load, sentActions_nil, outflow_nil, mul_zero, add_zero]
      at total
    have scaled : world.contract.unit * amount ≤ world.contract.unit * world.held := by
      unfold World.contract Contract.load
      push_cast [← Int.ofNat_le]
      omega
    exact Nat.le_of_mul_le_mul_left scaled (Symbol.unit_pos _)
  let transfer : Request := .transfer world.tables.tokenContract host.self owner
    ⟨amount, world.contract.config.getTokenSymbol⟩ (bytesOf "Withdraw from EVM balance")
  have unpacked : sent.action.request host = some transfer := by
    rw [sends]
    rfl
  have own : sent.action.isForeign host.self = false := by
    rw [sends]
    rfl
  let holding := Function.update world.holding world.tables.tokenContract
    (Function.update (world.holding world.tables.tokenContract) world.tables.tokenSymbol (world.held - amount))
  have moved : transfer.moved host world = .ok holding := (if_pos rfl).trans (pays.moves positive other covered)
  have ran : transfer.run (host.env view world.now transfer) (Contract.load world.tables) =
      .ok (Contract.load world.tables) := by
    have ready : assertUnfrozen (Contract.load world.tables).config = .ok () := ready
    simp only [transfer, Request.run, Contract.transfer, ready, ok_bind]
    exact if_pos (Or.inr rfl)
  have handled : Handled host view [] [] transfer [] holding (Contract.load world.tables) world :=
    ⟨top ▸ .sent sent transfer [] own unpacked, fun _ member => (by cases member), Or.inr ⟨rfl, rfl⟩, moved, ran⟩
  have config := config_handled handled rfl
  refine ⟨_, handled.step, config, rfl, rfl, ?_⟩
  rw [held_of_config config]
  have left : holding world.tables.tokenContract world.tables.tokenSymbol = world.held - amount :=
    (congrFun (Function.update_self ..) _).trans (Function.update_self ..)
  change holding world.tables.tokenContract world.tables.tokenSymbol + amount = world.held
  omega

theorem Solvent.redeem (law : host.evm.Conserves) (pays : host.token.Pays) (solvent : world.Solvent host)
    (idle : world.stack = [])
    (ready : assertUnfrozen world.config = .ok ()) (view : ChainView) {owner : Name} {amount : Nat}
    (other : owner ≠ host.self) (positive : 0 < amount) (enough : (amount : Int) ≤ world.amountOf owner) :
    ∃ final, run host (withdrawal view world.tables.tokenSymbol (owner, amount)) world = .ok final ∧
      final.Solvent host ∧ final.stack = [] ∧ final.config = world.config ∧
      (∀ account, final.amountOf account = world.amountOf account - if owner = account then amount else 0) ∧
      final.held + amount = world.held := by
  obtain ⟨row, found⟩ : ∃ row, world.tables.funds.balances.get? owner = some row := by
    cases found : world.tables.funds.balances.get? owner with
    | some row => exact ⟨row, rfl⟩
    | none =>
        simp only [amountOf, found, Option.map_none, Option.getD_none] at enough
        omega
  have within : (amount : Int) ≤ row.balance.amount := by simpa [amountOf, found] using enough
  obtain ⟨middle, sent, asked, between, config, holding, top, sends, balances⟩ :=
    solvent.accepts law idle ready view found within
  obtain ⟨final, paid, same, empty, funds, held⟩ :=
    between.pays pays (config ▸ ready) view other positive top (config ▸ sends)
  refine ⟨final, ?_, ?_, empty, same.trans config, ?_, ?_⟩
  · exact (foldOutcome_append ..).mpr ⟨middle, asked, (foldOutcome_cons _ _ _ _ _).mpr ⟨final, paid, rfl⟩⟩
  · exact between.step law (by rfl) (step_ok paid)
  · intro account
    rw [amountOf, funds, balances, Table.get?_put]
    split
    · rename_i here
      subst here
      simp [amountOf, found, Contract.paidOut]
    · simp [amountOf]
  · rw [held, held_of_config config, holding]
    rfl

theorem Solvent.redeems (law : host.evm.Conserves) (pays : host.token.Pays) (view : ChainView) (asks : List (Name × Nat))
    (solvent : world.Solvent host) (idle : world.stack = []) (ready : assertUnfrozen world.config = .ok ())
    (fits : ∀ ask ∈ asks, ask.1 ≠ host.self ∧ 0 < ask.2 ∧ (askedFor ask.1 asks : Int) ≤ world.amountOf ask.1) :
    ∃ final, run host (asks.flatMap (withdrawal view world.tables.tokenSymbol)) world = .ok final ∧
      final.stack = [] ∧ (∀ owner, final.amountOf owner = world.amountOf owner - askedFor owner asks) ∧
      final.held + (asks.map Prod.snd).sum = world.held := by
  induction asks generalizing world with
  | nil => exact ⟨world, rfl, idle, fun owner => (Int.sub_zero _).symm, rfl⟩
  | cons ask asks ih =>
      obtain ⟨other, positive, enough⟩ := fits ask (.head _)
      rw [askedFor_cons, if_pos rfl] at enough
      obtain ⟨next, paid, solvent, empty, config, amounts, held⟩ :=
        solvent.redeem law pays idle ready view other positive (by omega)
      have symbol : next.tables.tokenSymbol = world.tables.tokenSymbol :=
        congrArg ConfigWrapper.getTokenSymbol config
      -- What is still asked of an account is within what its balance has left.
      have rest : ∀ later ∈ asks, later.1 ≠ host.self ∧ 0 < later.2 ∧
          (askedFor later.1 asks : Int) ≤ next.amountOf later.1 := by
        intro later member
        obtain ⟨apart, some, covered⟩ := fits later (.tail _ member)
        refine ⟨apart, some, ?_⟩
        rw [askedFor_cons] at covered
        rw [amounts]
        push_cast at covered ⊢
        omega
      obtain ⟨final, finished, done, left, sum⟩ := ih solvent empty (config ▸ ready) rest
      rw [symbol] at finished
      refine ⟨final, (foldOutcome_append ..).mpr ⟨next, paid, finished⟩, done, ?_, ?_⟩
      · intro owner
        rw [left, amounts, askedFor_cons]
        push_cast
        omega
      · rw [List.map_cons, List.sum_cons]
        omega

end World

/-- If the token contract pays what the contract holds, then in every state that a plain run
reaches between transactions and in which the contract is not frozen, all that the accounts ask
for within their balances is paid out, in any order: every withdrawal and its transfer succeed,
each balance falls by what was asked for it, and the holding by the sum. -/
theorem run_redeemable (host : Host) (law : host.evm.Conserves) (pays : host.token.Pays)
    (holding : Name → Symbol → Nat) (labels : List Label)
    (plain : ∀ label ∈ labels, label.isPlain = true) (world : World)
    (finished : run host labels (World.start holding) = .ok world) (idle : world.stack = [])
    (ready : assertUnfrozen world.config = .ok ()) (view : ChainView) (asks : List (Name × Nat))
    (fits : ∀ ask ∈ asks, ask.1 ≠ host.self ∧ 0 < ask.2 ∧ (askedFor ask.1 asks : Int) ≤ world.amountOf ask.1) :
    ∃ final, run host (asks.flatMap (withdrawal view world.tables.tokenSymbol)) world = .ok final ∧
      final.stack = [] ∧ (∀ owner, final.amountOf owner = world.amountOf owner - askedFor owner asks) ∧
      final.held + (asks.map Prod.snd).sum = world.held := by
  have solvent : world.Solvent host := run_invariant (World.Solvent host)
    (fun _ label _ member solvent stepped => solvent.step law (plain label member) stepped)
    (World.solvent_start host holding) finished
  exact solvent.redeems law pays view asks idle ready fits

theorem Ledger.token_pays : Ledger.token.Pays := by
  intro self token recipient symbol amount holding positive other covered
  exact ⟨_, (Ledger.moveTokens_ok ..).mpr ⟨Int.natCast_pos.mpr positive, other.symm, fun _ => covered, rfl⟩⟩

def Ledger.depositors : List Label :=
  Ledger.opening ++ Ledger.pay Ledger.alice 1000000 "alice" 0 ++
    Ledger.pay Ledger.bob 500000 "0x0123456789012345678901234567890123456789" 1

theorem run_redeemable_alice : ∃ world final, run Ledger.host Ledger.depositors (World.start fun _ _ => 0) = .ok world ∧
    run Ledger.host ([(Ledger.alice, 300000), (Ledger.alice, 700000)].flatMap
      (withdrawal Ledger.view world.tables.tokenSymbol)) world = .ok final ∧
    world.amountOf Ledger.alice = 1000000 ∧ final.amountOf Ledger.alice = 0 ∧ final.held + 1000000 = world.held := by
  obtain ⟨world, finished, seen⟩ := exists_of_view (run Ledger.host Ledger.depositors (World.start fun _ _ => 0))
    (fun world => decide (world.stack = [] ∧ (world.config.stored = true ∧ world.config.cached.version = 0) ∧
      world.config.cached.status &&& frozenFlag = 0 ∧ world.amountOf Ledger.alice = 1000000)) true (by decide +kernel)
  obtain ⟨idle, inited, unfrozen, amount⟩ := of_decide_eq_true seen
  have fits : ∀ ask ∈ [(Ledger.alice, 300000), (Ledger.alice, 700000)], ask.1 ≠ Ledger.host.self ∧ 0 < ask.2 ∧
      (askedFor ask.1 [(Ledger.alice, 300000), (Ledger.alice, 700000)] : Int) ≤ world.amountOf ask.1 := by
    intro ask member
    simp only [List.mem_cons, List.not_mem_nil, or_false] at member
    rcases member with rfl | rfl
    · exact ⟨by decide +kernel, by decide, by rw [amount]; decide⟩
    · exact ⟨by decide +kernel, by decide, by rw [amount]; decide⟩
  obtain ⟨final, paid, _, amounts, held⟩ := run_redeemable Ledger.host Ledger.evm_conserves Ledger.token_pays _ _
    (by decide +kernel) world
    finished idle ((assertUnfrozen_ok _ ()).mpr ⟨inited, unfrozen⟩) Ledger.view _ fits
  refine ⟨world, final, finished, paid, amount, ?_, held⟩
  rw [amounts, amount]
  rfl

end EosEvm

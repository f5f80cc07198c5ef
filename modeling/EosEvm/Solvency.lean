import EosEvm.Host
import EosEvm.Ledger

/-! The contract is solvent along every run of the chain: the EVM accounts hold no more
than the tokens inside the EVM, and what the contract owes, the transfers it has sent
but that have not run yet included, never exceeds the tokens it holds. -/

namespace EosEvm

open Abort

/-- An administrative action or a swap needs the authority of the contract. -/
theorem Action.run_privileged {env : Env} {action : Action} {before after : Contract}
    (privileged : ¬ (action.isAdmin = false ∧ action.isSwap = false)) (ran : action.run env before = .ok after) :
    env.self ∈ env.auths := by
  cases action with
  | swapgastoken => exact (Contract.swapgastoken_ok ran).1
  | rmgcstore | setkvstore | rmaccount | freezeaccnt =>
      simp only [Action.run] at ran
      exact (Contract.editDb_ok ran).1
  | addevmbal => exact (Contract.addevmbal_ok ran).1
  | addopenbal => exact (Contract.addopenbal_ok ran).1
  | _ => exact absurd ⟨rfl, rfl⟩ privileged

/-- Neither an administrative action nor a swap of the token. -/
def Request.isPlain : Request → Bool
  | .action _ _ requested => !requested.isAdmin && !requested.isSwap
  | .transfer _ _ _ _ _ => true

/-- A step in which other accounts send plain requests only. -/
def Label.isPlain : Label → Bool
  | .tick _ => true
  | .submit requests => requests.all Request.isPlain
  | .next _ before after => (before ++ after).all Request.isPlain

/-- What a pending action will take from the holding of the contract. -/
def Pending.outflow : Pending → Int
  | .request _ => 0
  | .sent pending => pending.action.outflow

/-- What the pending actions will take. -/
def pendingOutflow (stack : List Pending) : Int := (stack.map Pending.outflow).sum

@[simp] theorem pendingOutflow_cons (pending : Pending) (stack : List Pending) :
    pendingOutflow (pending :: stack) = pending.outflow + pendingOutflow stack := by
  simp [pendingOutflow]

@[simp] theorem pendingOutflow_append (front back : List Pending) :
    pendingOutflow (front ++ back) = pendingOutflow front + pendingOutflow back := by
  simp [pendingOutflow]

@[simp] theorem pendingOutflow_requests (requests : List Request) :
    pendingOutflow (requests.map .request) = 0 := by
  induction requests with
  | nil => rfl
  | cons request requests ih =>
      rw [List.map_cons, pendingOutflow_cons, ih]
      exact add_zero _

theorem pendingOutflow_scheduled (cause : Request) (effects : List Effect) :
    pendingOutflow (scheduled cause effects) = outflow (sentActions effects) := by
  -- every scheduled action carries all effects, so the induction is on a part of them
  suffices part : ∀ (schedules : Effect → Option Pending) (shown : List Effect),
      (∀ action, schedules (.sent action) = some (.sent { action := action, cause := cause, effects := effects })) →
      (∀ execution, schedules (.ran execution) = none) →
      pendingOutflow (shown.filterMap schedules) = outflow (sentActions shown) from
    part _ effects (fun _ => rfl) (fun _ => rfl)
  intro schedules shown sends runs
  induction shown with
  | nil => rfl
  | cons effect shown ih =>
      cases effect with
      | ran execution =>
          rw [List.filterMap_cons_none (runs execution)]
          exact ih
      | sent action =>
          have head : sentActions (.sent action :: shown) = action :: sentActions shown := rfl
          rw [head, outflow_cons, ← ih, List.filterMap_cons_some (sends action), pendingOutflow_cons]
          rfl

/-- The stack holds foreign plain requests and transfers of the configured token. -/
structure Orderly (account : Name) (token : Name × Symbol) (stack : List Pending) : Prop where
  requests : ∀ request, .request request ∈ stack → request.isForeign account = true ∧ request.isPlain = true
  pays : ∀ sent, .sent sent ∈ stack → sent.action.Pays token

theorem orderly_requests {account : Name} {token : Name × Symbol} {requests : List Request}
    (foreign : ∀ request ∈ requests, request.isForeign account = true)
    (plain : ∀ request ∈ requests, request.isPlain = true) : Orderly account token (requests.map .request) := by
  constructor
  · intro request member
    obtain ⟨_, inside, ⟨⟩⟩ := List.mem_map.mp member
    exact ⟨foreign request inside, plain request inside⟩
  · intro sent member
    obtain ⟨_, _, ⟨⟩⟩ := List.mem_map.mp member

theorem Orderly.append {account : Name} {token : Name × Symbol} {front back : List Pending}
    (first : Orderly account token front) (second : Orderly account token back) : Orderly account token (front ++ back) := by
  constructor
  · intro request member
    exact (List.mem_append.mp member).elim (first.requests request) (second.requests request)
  · intro sent member
    exact (List.mem_append.mp member).elim (first.pays sent) (second.pays sent)

theorem Orderly.tail {account : Name} {token : Name × Symbol} {pending : Pending} {rest : List Pending}
    (orderly : Orderly account token (pending :: rest)) : Orderly account token rest :=
  ⟨fun request member => orderly.requests request (List.mem_cons_of_mem _ member),
    fun sent member => orderly.pays sent (List.mem_cons_of_mem _ member)⟩

theorem Orderly.of_unset {account : Name} {token : Name × Symbol} {stack : List Pending}
    (orderly : Orderly account token stack) (unset : token.2 = Symbol.none) (other : Name × Symbol) :
    pendingOutflow stack = 0 ∧ Orderly account other stack := by
  have harmless : ∀ sent, .sent sent ∈ stack → sent.action.outflow = 0 ∧ sent.action.Pays other := by
    intro sent member
    have pays := orderly.pays sent member
    cases action : sent.action with
    | transfer =>
        rw [action] at pays
        exact absurd unset pays.2
    | _ => exact ⟨rfl, trivial⟩
  refine ⟨List.sum_eq_zero ?_, orderly.requests, fun sent member => (harmless sent member).2⟩
  intro amount member
  obtain ⟨pending, inside, rfl⟩ := List.mem_map.mp member
  cases pending with
  | request => rfl
  | sent sent => exact (harmless sent inside).1

theorem TokenContract.move_ok {tokens : TokenContract} {self token sender recipient : Name} {quantity : Asset}
    {holding moved : Name → Symbol → Nat} (done : tokens.move self token sender recipient quantity holding = .ok moved) :
    0 < quantity.amount ∧ sender ≠ recipient ∧
      (moved token quantity.symbol : Int) = holding token quantity.symbol -
        (if sender = self then quantity.amount else 0) + (if recipient = self then quantity.amount else 0) ∧
      ∀ symbol, symbol ≠ quantity.symbol → moved token symbol = holding token symbol := by
  obtain ⟨positive, distinct, enough, rfl⟩ := tokens.sound done
  refine ⟨positive, distinct, ?_, ?_⟩
  · simp only [holdingAfter, Function.update_self]
    split
    · rename_i own
      have away : recipient ≠ self := fun same => distinct (own.trans same.symm)
      have held := enough own
      rw [if_neg away]
      omega
    · split <;> omega
  · intro symbol other
    simp [holdingAfter, Function.update_of_ne other]

theorem Inline.request_action {host : Host} {action : Inline} {sender : Option Name} {auths : List Name}
    {requested : Action} (unpacked : action.request host = some (.action sender auths requested)) :
    action.outflow = 0 ∧ (auths = [] ∨ requested.isAdmin = false ∧ requested.isSwap = false) := by
  cases action with
  | transfer => cases unpacked
  | onbridgemsg => cases unpacked
  | callback reply output =>
      obtain ⟨_, _, same⟩ := Option.map_eq_some_iff.mp unpacked
      cases same
      exact ⟨rfl, Or.inl rfl⟩
  | configchange | evmtx =>
      cases unpacked
      exact ⟨rfl, Or.inl rfl⟩
  | pushtx =>
      cases unpacked
      exact ⟨rfl, Or.inr ⟨rfl, rfl⟩⟩

theorem load_store_token {contract : Contract} {tables : Tables}
    (kept : contract.config.dirty = true ∨ contract.config.token = (Contract.load tables).config.token) :
    (Contract.load (contract.store tables)).config.token = contract.config.token := by
  cases dirty : contract.config.dirty with
  | true => simp [Contract.load, Contract.store, ConfigWrapper.flush, ConfigWrapper.load, dirty,
      ConfigWrapper.token, ConfigWrapper.getTokenSymbol]
  | false =>
      rw [dirty] at kept
      rw [kept.resolve_left (by simp)]
      simp [Contract.load, Contract.store, ConfigWrapper.flush, ConfigWrapper.load, dirty,
        ConfigWrapper.token, ConfigWrapper.getTokenSymbol]

theorem Inline.request_transfer {host : Host} {action : Inline} {token sender recipient : Name} {quantity : Asset}
    {memo : Bytes} (unpacked : action.request host = some (.transfer token sender recipient quantity memo)) :
    action = .transfer token recipient quantity memo ∧ sender = host.self := by
  cases action with
  | transfer =>
      cases unpacked
      exact ⟨rfl, rfl⟩
  | callback reply output =>
      obtain ⟨_, _, same⟩ := Option.map_eq_some_iff.mp unpacked
      cases same
  | _ => cases unpacked

theorem load_unstored {tables : Tables} (unstored : (Contract.load tables).config.stored = false) :
    (Contract.load tables).config.getTokenSymbol = Symbol.none := by
  cases found : tables.config with
  | none => simp [Contract.load, ConfigWrapper.load, found, ConfigWrapper.getTokenSymbol]
  | some row => simp [Contract.load, ConfigWrapper.load, found] at unstored

namespace World

/-- The contract as the next action finds it. -/
def contract (world : World) : Contract := Contract.load world.tables

/-- What the contract holds of the configured token. -/
def held (world : World) : Nat := world.holding world.tables.tokenContract world.tables.tokenSymbol

/-- The contract is backed, and what it owes is covered by what it holds. -/
structure Solvent (host : Host) (world : World) : Prop where
  backed : world.contract.Backed
  orderly : Orderly host.self world.contract.config.token world.stack
  covered : world.contract.liabilities + world.contract.unit * pendingOutflow world.stack ≤
    world.contract.unit * world.held

variable {host : Host} {world : World} {view : ChainView} {before after : List Request} {request : Request}
  {rest : List Pending} {holding : Name → Symbol → Nat} {contract : Contract}

theorem Solvent.transfer_moves {token sender recipient : Name} {quantity : Asset} {memo : Bytes}
    (law : host.evm.Conserves) (solvent : world.Solvent host)
    (handled : Handled host view before after (.transfer token sender recipient quantity memo) rest holding contract
      world) :
    ∃ inflow, world.contract.Settles contract inflow ∧
      (world.held : Int) + inflow + pendingOutflow rest ≤
        holding world.tables.tokenContract world.tables.tokenSymbol + pendingOutflow world.stack := by
  have moved := handled.moved
  simp only [Request.moved] at moved
  obtain ⟨inflow, settles, arrived⟩ := Contract.transfer_settles law solvent.backed
    (fun same => by
      have configured : token = world.tables.tokenContract := same
      rw [if_pos configured] at moved
      exact (TokenContract.move_ok moved).1) handled.ran
  rw [Host.env_self] at arrived
  refine ⟨inflow, settles, ?_⟩
  rcases handled.top.stack_eq with arriving | ⟨sent, leaving, own, unpacked⟩
  · have foreign := (solvent.orderly.requests _ (arriving ▸ List.mem_cons_self ..)).1
    have away : sender ≠ host.self := by simpa [Request.isForeign] using foreign
    have unchanged : pendingOutflow world.stack = pendingOutflow rest := by
      rw [arriving, pendingOutflow_cons]
      exact zero_add _
    rw [unchanged]
    split at moved
    · rename_i configured
      obtain ⟨positive, _, changed, kept⟩ := TokenContract.move_ok moved
      rw [if_neg away] at changed
      subst configured
      by_cases symbol : world.tables.tokenSymbol = quantity.symbol
      · rw [World.held, symbol, changed]
        rcases arrived with rfl | ⟨rfl, received, _⟩
        · split <;> omega
        · rw [if_pos received]
          omega
      · have nothing : inflow = 0 := arrived.resolve_right fun came => symbol (congrArg Prod.snd came.2.2.2).symm
        rw [World.held, kept _ symbol, nothing]
        omega
    · rename_i other
      cases moved
      have nothing : inflow = 0 := arrived.resolve_right fun came => other (congrArg Prod.fst came.2.2.2)
      rw [World.held, nothing]
      omega
  · obtain ⟨action, rfl⟩ := Inline.request_transfer unpacked
    have pays := solvent.orderly.pays sent (leaving ▸ List.mem_cons_self ..)
    rw [action] at pays
    have configured : token = world.tables.tokenContract := congrArg Prod.fst pays.1
    have symbol : quantity.symbol = world.tables.tokenSymbol := congrArg Prod.snd pays.1
    have nothing : inflow = 0 := arrived.resolve_right fun came => came.2.2.1 rfl
    rw [if_pos configured] at moved
    obtain ⟨_, distinct, changed, _⟩ := TokenContract.move_ok moved
    rw [if_pos rfl, if_neg fun same => distinct same.symm, symbol, configured] at changed
    have taken : pendingOutflow world.stack = quantity.amount + pendingOutflow rest := by
      rw [leaving, pendingOutflow_cons, Pending.outflow, action]
      rfl
    rw [taken, nothing, World.held, changed]
    omega

theorem Solvent.moves (law : host.evm.Conserves) (solvent : world.Solvent host)
    (handled : Handled host view before after request rest holding contract world) :
    (∃ inflow, world.contract.Settles contract inflow ∧
      (world.held : Int) + inflow + pendingOutflow rest ≤
        holding world.tables.tokenContract world.tables.tokenSymbol + pendingOutflow world.stack) ∨
      world.contract.Begins contract := by
  cases request with
  | transfer token sender recipient quantity memo => exact Or.inl (solvent.transfer_moves law handled)
  | action sender auths requested =>
      have same : world.holding = holding := Except.ok.inj handled.moved
      have popped : pendingOutflow world.stack = pendingOutflow rest ∧
          (requested.isAdmin = false ∧ requested.isSwap = false) := by
        rcases handled.top.stack_eq with arriving | ⟨sent, leaving, _, unpacked⟩
        · have plain := (solvent.orderly.requests _ (arriving ▸ List.mem_cons_self ..)).2
          refine ⟨?_, by simpa [Request.isPlain] using plain⟩
          rw [arriving, pendingOutflow_cons]
          exact zero_add _
        · obtain ⟨silent, harmless⟩ := Inline.request_action unpacked
          refine ⟨?_, ?_⟩
          · rw [leaving, pendingOutflow_cons, Pending.outflow, silent, zero_add]
          · rcases harmless with none | plain
            · by_contra privileged
              have authorised := Action.run_privileged privileged handled.ran
              simp [Host.env, none] at authorised
            · exact plain
      rcases Action.run_settles law popped.2 solvent.backed load_unstored handled.ran with settles | begins
      · refine Or.inl ⟨0, settles, ?_⟩
        rw [popped.1, World.held, same]
        omega
      · exact Or.inr begins

theorem backed_of_store {tables : Tables} (backed : contract.Backed)
    (token : (Contract.load (contract.store tables)).config.token = contract.config.token) :
    (Contract.load (contract.store tables)).Backed where
  precise := by
    rw [ConfigWrapper.getTokenSymbol_of_token token]
    exact backed.precise
  sound := by
    rw [ConfigWrapper.getTokenSymbol_of_token token]
    exact backed.sound
  unique := backed.unique
  inside := backed.inside
  orderly := by
    intro action member
    cases member

theorem liabilities_of_store {tables : Tables}
    (token : (Contract.load (contract.store tables)).config.token = contract.config.token) :
    (Contract.load (contract.store tables)).liabilities + contract.unit * outflow (sentActions contract.effects) =
      contract.liabilities := by
  have same := Contract.unit_of_token token
  simp only [Contract.liabilities]
  simp only [Contract.load, Contract.store, sentActions_nil, outflow_nil, mul_zero, add_zero]

theorem orderly_handled
    (handled : Handled host view before after request rest holding contract world)
    (plain : ∀ other ∈ before ++ after, other.isPlain = true) (backed : contract.Backed)
    (pays : Orderly host.self contract.config.token rest) :
    Orderly host.self contract.config.token (world.handled before after request rest holding contract).stack := by
  have others : ∀ part : List Request, (∀ other ∈ part, other ∈ before ++ after) →
      Orderly host.self contract.config.token (part.map .request) := fun part inside =>
    orderly_requests (fun other member => handled.foreign other (inside other member))
      (fun other member => plain other (inside other member))
  have sends : Orderly host.self contract.config.token (scheduled request contract.effects) := by
    constructor
    · intro other member
      obtain ⟨_, _, ⟨⟩⟩ := mem_scheduled.mp member
    · intro sent member
      obtain ⟨action, inside, same⟩ := mem_scheduled.mp member
      cases same
      exact backed.orderly action inside
  exact ((others before fun other member => List.mem_append_left _ member).append sends).append
    (others after fun other member => List.mem_append_right _ member) |>.append pays

theorem solvent_handled
    (handled : Handled host view before after request rest holding contract world)
    (plain : ∀ other ∈ before ++ after, other.isPlain = true) (backed : contract.Backed)
    (pays : Orderly host.self contract.config.token rest)
    (saved : contract.config.dirty = true ∨ contract.config.token = world.contract.config.token)
    (covered : contract.liabilities + contract.unit * pendingOutflow rest ≤
      contract.unit * holding contract.config.token.1 contract.config.token.2) :
    (world.handled before after request rest holding contract).Solvent host := by
  have token := load_store_token saved
  have pending : pendingOutflow (world.handled before after request rest holding contract).stack =
      outflow (sentActions contract.effects) + pendingOutflow rest := by
    simp only [World.handled, pendingOutflow_append, pendingOutflow_requests, pendingOutflow_scheduled]
    omega
  have owed := liabilities_of_store token
  have held : (world.handled before after request rest holding contract).held =
      holding contract.config.token.1 contract.config.token.2 := by
    rw [← token]
    rfl
  refine ⟨backed_of_store backed token, ?_, ?_⟩
  · have orderly := orderly_handled handled plain backed pays
    rw [← token] at orderly
    exact orderly
  · have unit : (world.handled before after request rest holding contract).contract.unit = contract.unit :=
      Contract.unit_of_token token
    have liabilities : (world.handled before after request rest holding contract).contract.liabilities =
        (Contract.load (contract.store world.tables)).liabilities := rfl
    rw [unit, held, pending, liabilities, mul_add]
    omega

theorem Solvent.handled (law : host.evm.Conserves) (solvent : world.Solvent host)
    (handled : Handled host view before after request rest holding contract world)
    (plain : ∀ other ∈ before ++ after, other.isPlain = true) :
    (world.handled before after request rest holding contract).Solvent host := by
  have below : Orderly host.self world.contract.config.token rest := by
    have orderly := solvent.orderly
    rcases handled.top.stack_eq with arriving | ⟨_, leaving, _⟩
    · exact (arriving ▸ orderly).tail
    · exact (leaving ▸ orderly).tail
  rcases solvent.moves law handled with ⟨inflow, settles, moved⟩ | begins
  · have token := settles.token
    refine solvent_handled handled plain settles.backed (token ▸ below) (Or.inr token) ?_
    have covered := solvent.covered
    have scaled := Int.mul_le_mul_of_nonneg_left moved (Int.natCast_nonneg world.contract.unit)
    rw [settles.balanced, Contract.unit_of_token token, token]
    simp only [mul_add] at scaled
    have same : (holding world.contract.config.token.1 world.contract.config.token.2 : Int) =
        holding world.tables.tokenContract world.tables.tokenSymbol := rfl
    rw [same]
    omega
  · obtain ⟨nothing, pays⟩ := below.of_unset begins.unset contract.config.token
    refine solvent_handled handled plain begins.backed pays (Or.inl begins.saved) ?_
    rw [begins.free, nothing, mul_zero, add_zero]
    exact mul_nonneg (Int.natCast_nonneg _) (Int.natCast_nonneg _)

theorem Solvent.step (law : host.evm.Conserves) {label : Label} {next : World} (solvent : world.Solvent host)
    (plain : label.isPlain = true) (stepped : Stepped host world label next) : next.Solvent host := by
  cases stepped with
  | tick now idle later => exact ⟨solvent.backed, solvent.orderly, solvent.covered⟩
  | submit requests idle foreign =>
      refine ⟨solvent.backed, orderly_requests foreign (List.all_eq_true.mp plain), ?_⟩
      have covered := solvent.covered
      rw [idle] at covered
      rw [pendingOutflow_requests]
      exact covered
  | passed view before after sent rest top away foreign =>
      have orderly := solvent.orderly
      have covered := solvent.covered
      have plain := List.all_eq_true.mp plain
      rw [top] at orderly covered
      have silent : Pending.outflow (.sent sent) = 0 := by
        cases action : sent.action with
        | transfer => rw [action] at away; cases away
        | _ => simp [Pending.outflow, action, Inline.outflow]
      rw [pendingOutflow_cons, silent, zero_add] at covered
      refine ⟨solvent.backed, ?_, ?_⟩
      · rw [← List.map_append]
        exact (orderly_requests foreign plain).append orderly.tail
      · simp only [pendingOutflow_append, pendingOutflow_requests, zero_add]
        exact covered
  | handled view before after request rest holding contract handled =>
      exact solvent.handled law handled (List.all_eq_true.mp plain)

theorem solvent_start (host : Host) (holding : Name → Symbol → Nat) : (World.start holding).Solvent host where
  backed := {
    precise := Nat.zero_le evmPrecision
    sound := ⟨fun owner row found => (by cases found), fun row found => (by cases found)⟩
    unique := Table.unique_empty
    inside := Nat.le_refl 0
    orderly := fun action member => (by cases member) }
  orderly := ⟨fun request member => (by cases member), fun sent member => (by cases member)⟩
  covered := by
    have owed : (World.start holding).contract.liabilities = 0 := rfl
    have none : pendingOutflow (World.start holding).stack = 0 := rfl
    rw [owed, none, mul_zero, add_zero]
    exact mul_nonneg (Int.natCast_nonneg _) (Int.natCast_nonneg _)

end World

/-- In every run of plain requests the EVM accounts never hold more than the tokens inside
the EVM, and what the contract owes, its pending transfers included, never exceeds what it
holds. Only a pending transfer of a negative quantity, which aborts when it runs, can make
the balances alone exceed the holding. -/
theorem run_solvent (host : Host) (law : host.evm.Conserves) (holding : Name → Symbol → Nat)
    (labels : List Label) (plain : ∀ label ∈ labels, label.isPlain = true) (world : World)
    (finished : run host labels (World.start holding) = .ok world) :
    world.tables.db.balanceTotal ≤ world.tables.funds.evmValue ∧
    (world.tables.funds.openTotal + world.tables.funds.evmValue : Int) +
        world.tables.tokenSymbol.unit * pendingOutflow world.stack ≤ world.tables.tokenSymbol.unit * world.held ∧
    ((∀ pending ∈ world.stack, 0 ≤ pending.outflow) →
      world.tables.funds.openTotal + world.tables.funds.evmValue ≤ world.tables.tokenSymbol.unit * world.held) := by
  have solvent : world.Solvent host := run_invariant (World.Solvent host)
    (fun _ label _ member solvent stepped => solvent.step law (plain label member) stepped)
    (World.solvent_start host holding) finished
  have covered : (world.tables.funds.openTotal + world.tables.funds.evmValue : Int) +
      world.tables.tokenSymbol.unit * pendingOutflow world.stack ≤ world.tables.tokenSymbol.unit * world.held := by
    have total := solvent.covered
    simp only [Contract.liabilities, World.contract, Contract.load, sentActions_nil, outflow_nil, mul_zero,
      add_zero] at total
    exact total
  refine ⟨solvent.backed.inside, covered, ?_⟩
  intro nonnegative
  have pending : 0 ≤ pendingOutflow world.stack := List.sum_nonneg fun amount member => by
    obtain ⟨pending, inside, rfl⟩ := List.mem_map.mp member
    exact nonnegative pending inside
  have scaled := mul_nonneg (Int.natCast_nonneg world.tables.tokenSymbol.unit) pending
  have bound : (world.tables.funds.openTotal + world.tables.funds.evmValue : Int) ≤
      world.tables.tokenSymbol.unit * world.held := by omega
  exact_mod_cast bound

theorem run_solvent_deposit :
    let labels := Ledger.opening ++ Ledger.pay Ledger.alice 1000000 "alice" 0 ++
      Ledger.pay Ledger.bob 500000 "0x0123456789012345678901234567890123456789" 1 ++
      Ledger.act Ledger.alice (.withdraw Ledger.alice ⟨30000, Ledger.eos⟩ none) 1
    ∃ world, run Ledger.host labels (World.start fun _ _ => 0) = .ok world ∧
      world.tables.db.balanceTotal ≤ world.tables.funds.evmValue ∧
      (world.tables.funds.openTotal + world.tables.funds.evmValue : Int) +
        world.tables.tokenSymbol.unit * pendingOutflow world.stack ≤ world.tables.tokenSymbol.unit * world.held ∧
      ((∀ pending ∈ world.stack, 0 ≤ pending.outflow) →
        world.tables.funds.openTotal + world.tables.funds.evmValue ≤
          world.tables.tokenSymbol.unit * world.held) := by
  intro labels
  obtain ⟨world, finished⟩ : ∃ world, run Ledger.host labels (World.start fun _ _ => 0) = .ok world :=
    exists_of_isOk (by decide +kernel)
  exact ⟨world, finished, run_solvent Ledger.host Ledger.evm_conserves (fun _ _ => 0) labels
    (by decide +kernel) world finished⟩

end EosEvm

import EosEvm.Ledger
import EosEvm.Solvency

/-! The books balance. Along every run of plain requests, what the contract owes and what it
has ever sent out is together what it was ever given to credit, unit by unit. -/

namespace EosEvm

open Abort

def Request.deposited (self tokenContract : Name) : Request → Int
  | .action _ _ _ => 0
  | .transfer _ sender recipient quantity memo =>
      if recipient ≠ self ∨ sender = self ∨ memo = [] ∧ sender = tokenContract then 0 else quantity.amount

/-- The deposits that a request is noted with. -/
def deposits (self : Name) (world : World) (request : Request) : List Int :=
  [request.deposited self world.tables.tokenContract]

namespace Contract

variable {before after : Contract}

theorem transfer_deposits {env : Env} (law : env.evm.Conserves) {token sender recipient : Name} {quantity : Asset}
    {memo : Bytes} (backed : before.Backed)
    (positive : env.code = before.config.cached.tokenContract → 0 < quantity.amount)
    (handled : transfer env sender recipient quantity memo before = .ok after) :
    Settles before after ((Request.transfer token sender recipient quantity memo).deposited env.self
      before.config.cached.tokenContract) := by
  simp only [transfer, bind_ok, assertUnfrozen_ok, exists_const] at handled
  obtain ⟨_, handled⟩ := handled
  rw [Request.deposited]
  split at handled
  · rename_i leaving
    rw [pure_ok] at handled
    rw [if_pos (leaving.elim Or.inl fun own => Or.inr (Or.inl own))]
    exact handled ▸ backed.configured rfl
  · rename_i incoming
    push Not at incoming
    simp only [bind_ok, check_ok, exists_const] at handled
    obtain ⟨⟨code, _⟩, handled⟩ := handled
    split at handled
    · rename_i kept
      rw [pure_ok] at handled
      rw [if_pos (Or.inr (Or.inr kept))]
      exact handled ▸ backed.configured rfl
    · rename_i credited
      rw [if_neg (by tauto)]
      split at handled
      · exact handleEvmTransfer_settles law backed (positive code) handled
      · split at handled
        · exact handleAccountTransfer_settles backed (positive code) handled
        · cases handled

theorem Backed.liabilities_of_unset (backed : before.Backed) (unset : before.config.getTokenSymbol = Symbol.none) :
    before.liabilities = 0 ∧ outflow (sentActions before.effects) = 0 := by
  obtain ⟨empty, noInevm, _, silent⟩ := backed.of_unset unset
  have nothing : outflow (sentActions before.effects) = 0 :=
    outflow_eq_zero _ fun action member => (silent action member).1
  refine ⟨?_, nothing⟩
  simp [liabilities, Funds.openTotal_of_empty empty, Funds.evmValue, noInevm, nothing]

end Contract

/-- The journal of all requests that are handled. -/
def served (_ : World) (request : Request) : List Request := [request]

/-- What every allowed step preserves, together with the journal it extends, holds at the end of
the run with the journal of the run. -/
theorem run_journal {ε : Type} {host : Host} {world next : World} {labels : List Label} (allowed : Label → Prop)
    (note : World → Request → List ε) (invariant : World → List ε → Prop)
    (preserved : ∀ world label next journal, allowed label → invariant world journal →
      Stepped host world label next → invariant next (journal ++ entries host note world label))
    {journal : List ε} (start : invariant world journal) (all : ∀ label ∈ labels, allowed label)
    (finished : run host labels world = .ok next) : invariant next (journal ++ noted host note labels world) := by
  induction labels generalizing world journal with
  | nil =>
      rw [run, foldOutcome_nil] at finished
      rw [noted, List.append_nil]
      exact finished ▸ start
  | cons label labels ih =>
      obtain ⟨middle, stepped, tail⟩ := (foldOutcome_cons (step host) label labels world next).mp finished
      simp only [noted, stepped]
      rw [← List.append_assoc]
      exact ih (preserved world label middle journal (all label (.head _)) start (step_ok stepped))
        (fun other member => all other (.tail _ member)) tail

theorem Handled.isPlain {host : Host} {world : World} {view : ChainView} {before after : List Request}
    {request : Request} {rest : List Pending} {holding : Name → Symbol → Nat} {contract : Contract}
    (plain : ∀ request, .request request ∈ world.stack → request.isPlain = true)
    (handled : Handled host view before after request rest holding contract world) : request.isPlain = true := by
  rcases handled.top.stack_eq with arriving | ⟨sent, leaving, _, unpacked⟩
  · exact plain _ (arriving ▸ List.mem_cons_self ..)
  · cases request with
    | transfer => rfl
    | action sender auths requested =>
        rw [Request.isPlain, Bool.and_eq_true, Bool.not_eq_true', Bool.not_eq_true']
        rcases (Inline.request_action unpacked).2 with none | free
        · by_contra privileged
          have authorised := Action.run_privileged privileged handled.ran
          simp [Host.env, none] at authorised
        · exact free

namespace World

/-- The contract is solvent, and its books balance with the journal of its deposits. -/
structure Balanced (host : Host) (world : World) (journal : List Int) : Prop where
  solvent : world.Solvent host
  balanced : world.contract.liabilities + world.contract.unit * outflow (sentActions world.history) =
    world.contract.unit * journal.sum
  unused : world.contract.config.getTokenSymbol = Symbol.none → outflow (sentActions world.history) = 0

variable {host : Host} {world next : World} {view : ChainView} {before after : List Request} {request : Request}
  {rest : List Pending} {holding : Name → Symbol → Nat} {contract : Contract} {journal : List Int}

theorem Solvent.deposits (law : host.evm.Conserves) (solvent : world.Solvent host)
    (handled : Handled host view before after request rest holding contract world) :
    world.contract.Settles contract (request.deposited host.self world.tables.tokenContract) ∨
      world.contract.Begins contract ∧ request.deposited host.self world.tables.tokenContract = 0 := by
  cases request with
  | transfer token sender recipient quantity memo =>
      have moved := handled.moved
      simp only [Request.moved] at moved
      refine Or.inl (Contract.transfer_deposits law solvent.backed (fun same => ?_) handled.ran)
      rw [if_pos (show token = world.tables.tokenContract from same)] at moved
      exact (TokenContract.move_ok moved).1
  | action sender auths requested =>
      have plain : requested.isAdmin = false ∧ requested.isSwap = false := by
        simpa [Request.isPlain] using handled.isPlain fun _ member => (solvent.orderly.requests _ member).2
      rcases Action.run_settles law plain solvent.backed load_unstored handled.ran with settles | begins
      · exact Or.inl settles
      · exact Or.inr ⟨begins, rfl⟩

theorem Balanced.handled (law : host.evm.Conserves) (balanced : world.Balanced host journal)
    (handled : Handled host view before after request rest holding contract world)
    (plain : ∀ other ∈ before ++ after, other.isPlain = true) :
    (world.handled before after request rest holding contract).Balanced host
      (journal ++ EosEvm.deposits host.self world request) := by
  have solvent := balanced.solvent.handled law handled plain
  have sent : outflow (sentActions (world.handled before after request rest holding contract).history) =
      outflow (sentActions world.history) + outflow (sentActions contract.effects) := by
    simp [World.handled]
  have noted : (journal ++ EosEvm.deposits host.self world request).sum =
      journal.sum + request.deposited host.self world.tables.tokenContract := by
    simp [EosEvm.deposits]
  have equation := balanced.balanced
  rcases balanced.solvent.deposits law handled with settles | ⟨begins, nothing⟩
  · have token := load_store_token (Or.inr settles.token : contract.config.dirty = true ∨
      contract.config.token = (Contract.load world.tables).config.token)
    have owed := liabilities_of_store token
    have unit : (world.handled before after request rest holding contract).contract.unit = world.contract.unit :=
      Contract.unit_of_token (token.trans settles.token)
    refine ⟨solvent, ?_, fun unset => ?_⟩
    · have added := settles.balanced
      rw [Contract.unit_of_token settles.token] at owed
      rw [unit, sent, noted, mul_add, mul_add]
      change (Contract.load (contract.store world.tables)).liabilities + _ = _
      omega
    · have before : world.contract.config.getTokenSymbol = Symbol.none :=
        (ConfigWrapper.getTokenSymbol_of_token (token.trans settles.token)).symm.trans unset
      have same : contract.config.getTokenSymbol = Symbol.none :=
        (ConfigWrapper.getTokenSymbol_of_token settles.token).trans before
      rw [sent, balanced.unused before, (settles.backed.liabilities_of_unset same).2, add_zero]
  · have token := load_store_token (Or.inl begins.saved : contract.config.dirty = true ∨
      contract.config.token = (Contract.load world.tables).config.token)
    have owed := liabilities_of_store token
    have unit : (world.handled before after request rest holding contract).contract.unit = contract.unit :=
      Contract.unit_of_token token
    have unused := balanced.unused begins.unset
    have zero : journal.sum = 0 := by
      rw [unused, (balanced.solvent.backed.liabilities_of_unset begins.unset).1, mul_zero, add_zero] at equation
      have positive := Symbol.unit_pos world.contract.config.getTokenSymbol
      exact (mul_eq_zero.mp equation.symm).resolve_left (Int.natCast_ne_zero.mpr positive.ne')
    refine ⟨solvent, ?_, fun unset => ?_⟩
    · rw [unit, sent, noted, unused, zero, nothing, zero_add, add_zero, mul_zero]
      exact owed.trans begins.free
    · have same : contract.config.getTokenSymbol = Symbol.none :=
        (ConfigWrapper.getTokenSymbol_of_token token).symm.trans unset
      rw [sent, unused, (begins.backed.liabilities_of_unset same).2, add_zero]

theorem Balanced.step (law : host.evm.Conserves) {label : Label} (balanced : world.Balanced host journal)
    (plain : label.isPlain = true) (stepped : Stepped host world label next) :
    next.Balanced host (journal ++ entries host (EosEvm.deposits host.self) world label) := by
  have solvent := balanced.solvent.step law plain stepped
  cases stepped with
  | tick | submit =>
      rw [entries, List.append_nil]
      exact ⟨solvent, balanced.balanced, balanced.unused⟩
  | passed view before after sent rest top away =>
      rw [entries_passed _ top away, List.append_nil]
      exact ⟨solvent, balanced.balanced, balanced.unused⟩
  | handled view before after request rest holding contract handled =>
      rw [entries_handled _ handled]
      exact balanced.handled law handled (List.all_eq_true.mp plain)

end World

/-- In every run of plain requests the open balances, the tokens inside the EVM and all that the
contract ever sent out, pending transfers included, add up exactly to the deposits it accepted. -/
theorem run_balanced (host : Host) (law : host.evm.Conserves) (holding : Name → Symbol → Nat) (labels : List Label)
    (plain : ∀ label ∈ labels, label.isPlain = true) (world : World)
    (finished : run host labels (World.start holding) = .ok world) :
    (world.tables.funds.openTotal + world.tables.funds.evmValue : Int) +
        world.tables.tokenSymbol.unit * outflow (sentActions world.history) =
      world.tables.tokenSymbol.unit * (noted host (deposits host.self) labels (World.start holding)).sum := by
  have start : (World.start holding).Balanced host [] :=
    ⟨World.solvent_start host holding, by simp [World.contract, World.start, Contract.load, Contract.liabilities,
      Funds.openTotal, Funds.evmValue], fun _ => rfl⟩
  have balanced := run_journal (fun label => label.isPlain = true) (deposits host.self) (World.Balanced host)
    (fun _ _ _ _ plain balanced stepped => balanced.step law plain stepped) start plain finished
  have equation := balanced.balanced
  simp only [Contract.liabilities, World.contract, Contract.load, sentActions_nil, outflow_nil, mul_zero, add_zero,
    List.nil_append] at equation
  exact equation

def Ledger.dealings : List Label :=
  Ledger.opening ++ Ledger.pay Ledger.alice 1000000 "alice" 0 ++
    Ledger.pay Ledger.bob 500000 "0x0123456789012345678901234567890123456789" 1 ++
    Ledger.act Ledger.alice (.withdraw Ledger.alice ⟨30000, Ledger.eos⟩ none) 1

theorem run_balanced_dealings :
    ∃ world, run Ledger.host Ledger.dealings (World.start fun _ _ => 0) = .ok world ∧
      (noted Ledger.host (deposits Ledger.self) Ledger.dealings (World.start fun _ _ => 0)).sum = 1500000 ∧
      outflow (sentActions world.history) = 30000 ∧
      (world.tables.funds.openTotal + world.tables.funds.evmValue : Int) +
          world.tables.tokenSymbol.unit * outflow (sentActions world.history) =
        world.tables.tokenSymbol.unit * 1500000 := by
  obtain ⟨world, finished, seen⟩ := exists_of_view (run Ledger.host Ledger.dealings (World.start fun _ _ => 0))
    (fun world => outflow (sentActions world.history)) 30000 (by decide +kernel)
  have noted : (noted Ledger.host (deposits Ledger.self) Ledger.dealings (World.start fun _ _ => 0)).sum = 1500000 := by
    decide +kernel
  have equation := run_balanced Ledger.host Ledger.evm_conserves (fun _ _ => 0) Ledger.dealings (by decide +kernel)
    world finished
  rw [show Ledger.host.self = Ledger.self from rfl, noted] at equation
  exact ⟨world, finished, noted, seen, equation⟩

end EosEvm

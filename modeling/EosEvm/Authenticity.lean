import EosEvm.Host
import EosEvm.Effects
import EosEvm.LedgerCore

/-! Where the actions that only the contract itself may send come from. The events
`evmtx` and `configchange` and the relaxed form of `pushtx` trust the sender of the
action alone, so that everything the contract sends matters. A callback of `exec` is
sent to an account and an action of the caller's choice. -/

namespace EosEvm

open Abort

/-- Sent by `process_tx` for the execution of the transaction that the cause gave it: the
event holds the encoding of this transaction and the values it ran under. -/
def Sent.Announces (host : Host) (sent : Sent) (execution : Execution) (requested : Action) : Prop :=
  ∃ view txn, Executed (host.env view execution.time sent.cause) sent.cause txn sent.effects execution ∧
    (sent.action = .evmtx (execution.event (txn.getRlptx host.evm)) ∧ requested = .evmtx ∨
      sent.action = .configchange execution.gasParams ∧ requested = .configchange execution.gasParams)

/-- Sent by `dispatch_tx`, with a transaction of the contract's own. -/
def Sent.Dispatches (host : Host) (sent : Sent) (requested : Action) : Prop :=
  ∃ tx nonce s, tx.IsBridge nonce s ∧
    sent.action = .pushtx host.self (host.evm.encodeTransaction tx) ∧ sent.effects = [.sent sent.action] ∧
    requested = .pushtx host.self (host.evm.encodeTransaction tx) none

/-- Every event that can be accepted next was sent by `process_tx` for a transaction it
executed in the same action, and every `pushtx` with the relaxed configuration was sent by
`dispatch_tx`. -/
def World.Authentic (host : Host) (world : World) : Prop :=
  ∀ view before after sender auths requested rest holding contract,
    Handled host view before after (.action sender auths requested) rest holding contract world →
    ((requested = .evmtx ∨ ∃ parameters, requested = .configchange parameters) →
      ∃ sent execution, world.stack = .sent sent :: rest ∧ .ran execution ∈ world.history ∧
        sent.Announces host execution requested) ∧
    (∀ miner rlptx minPrice, requested = .pushtx miner rlptx minPrice →
      Contract.pushtxConfig (host.env view world.now (.action sender auths requested)) ≠ {} →
      ∃ sent, world.stack = .sent sent :: rest ∧ sent.Dispatches host requested)

def Action.isTrusting : Action → Bool
  | .evmtx => true
  | .configchange _ => true
  | .pushtx _ _ _ => true
  | _ => false

/-- No callback went to one of the trusting actions of the contract. -/
def World.Unforged (host : Host) (world : World) : Prop :=
  ∀ callback output requested, .sent (.callback callback output) ∈ world.history →
    callback.contract = host.self → host.unpackAction callback.action output = some requested →
    requested.isTrusting = false

/-- Requests come from other accounts, and what the contract sent was left behind by a
request that was handled. -/
structure World.Traced (host : Host) (world : World) : Prop where
  requests : ∀ request, .request request ∈ world.stack → request.isForeign host.self = true
  sent : ∀ sent, .sent sent ∈ world.stack → sent.action ∈ sentActions sent.effects ∧
    (∃ view now, Leaves (host.env view now sent.cause) sent.cause sent.effects) ∧ sent.effects ⊆ world.history

theorem World.Traced.step {host : Host} {world next : World} {label : Label} (traced : world.Traced host)
    (stepped : Stepped host world label next) : next.Traced host := by
  refine ⟨?_, ?_⟩
  · intro request member
    rcases stepped.mem_stack member with ⟨_, inside, ⟨⟩⟩ | old | ⟨_, _, _, _, _, _, _, _, _, sent⟩
    · exact stepped.foreign request inside
    · exact traced.requests request old
    · obtain ⟨_, _, ⟨⟩⟩ := mem_scheduled.mp sent
  · intro sent member
    rcases stepped.mem_stack member with ⟨_, _, ⟨⟩⟩ | old | ⟨view, _, _, request, _, _, contract, handled, rfl, new⟩
    · obtain ⟨action, leaves, recorded⟩ := traced.sent sent old
      exact ⟨action, leaves, fun effect inside => stepped.history_subset (recorded inside)⟩
    · obtain ⟨action, inside, ⟨⟩⟩ := mem_scheduled.mp new
      refine ⟨inside, ⟨view, world.now, ?_⟩, List.subset_append_right _ _⟩
      exact (Request.run_does handled.ran).leaves rfl

theorem Leaves.of_event {env : Env} {request : Request} {effects : List Effect} {action : Inline}
    (leaves : Leaves env request effects) (member : action ∈ sentActions effects)
    (event : (∃ event, action = .evmtx event) ∨ ∃ parameters, action = .configchange parameters) :
    ∃ txn execution, Executed env request txn effects execution ∧ execution.time = env.now ∧
      .ran execution ∈ effects ∧
      (action = .evmtx (execution.event (txn.getRlptx env.evm)) ∨ action = .configchange execution.gasParams) := by
  cases leaves with
  | nothing => cases member
  | pays | replies | dispatches =>
      simp only [sentActions, List.filterMap_cons, List.filterMap_nil, List.mem_singleton] at member
      subst member
      simp at event
  | executes txn effects execution executed =>
      refine ⟨txn, execution, executed, ?_⟩
      obtain ⟨payments, config, promoted, rfl, same, paid⟩ := executed.recorded
      refine ⟨by rw [same]; rfl, List.mem_append_right _ (List.mem_singleton_self _), ?_⟩
      simp only [sentActions_append, sentActions_sent, sentActions_ran, List.append_nil] at member
      rcases List.mem_append.mp member with payment | inside
      · rcases event with ⟨_, rfl⟩ | ⟨_, rfl⟩ <;> cases paid _ payment
      · rcases mem_txEvents inside with ⟨_, change⟩ | ⟨active, told⟩
        · exact Or.inr change
        · rw [told, same, config.execution_event _ _ _ _ _ active]
          exact Or.inl rfl

theorem Leaves.of_pushtx {env : Env} {request : Request} {miner : Name} {effects : List Effect} {rlptx : Bytes}
    (leaves : Leaves env request effects) (member : .pushtx miner rlptx ∈ sentActions effects) :
    ∃ tx nonce s, tx.IsBridge nonce s ∧ miner = env.self ∧ rlptx = env.evm.encodeTransaction tx ∧
      effects = [.sent (.pushtx miner rlptx)] := by
  cases leaves with
  | nothing => cases member
  | pays | replies => simp [sentActions] at member
  | dispatches tx nonce s form =>
      simp only [sentActions, List.filterMap_cons, List.filterMap_nil, List.mem_singleton, Inline.pushtx.injEq]
        at member
      obtain ⟨rfl, rfl⟩ := member
      exact ⟨tx, nonce, s, form, rfl, rfl, rfl⟩
  | executes txn effects execution executed =>
      obtain ⟨payments, config, promoted, rfl, _, paid⟩ := executed.recorded
      simp only [sentActions_append, sentActions_sent, sentActions_ran, List.append_nil] at member
      rcases List.mem_append.mp member with payment | inside
      · cases paid _ payment
      · rcases mem_txEvents inside with ⟨_, ⟨⟩⟩ | ⟨_, ⟨⟩⟩

variable {host : Host} {world : World} {view : ChainView} {before after : List Request} {sender : Option Name}
  {auths : List Name} {requested : Action} {rest : List Pending} {holding : Name → Symbol → Nat} {contract : Contract}

theorem World.Traced.own_request (traced : world.Traced host)
    (top : Top host world.stack (.action sender auths requested) rest) (own : sender = some host.self) :
    ∃ sent, world.stack = .sent sent :: rest ∧ sent.action.isForeign host.self = false ∧
      sent.action.request host = some (.action sender auths requested) := by
  rcases top.stack_eq with arriving | sent
  · have foreign := traced.requests _ (arriving ▸ List.mem_cons_self ..)
    simp [Request.isForeign, own] at foreign
  · exact sent

theorem World.Traced.sent_cases (traced : world.Traced host) (unforged : world.Unforged host) {sent : Sent}
    (top : world.stack = .sent sent :: rest) (own : sent.action.isForeign host.self = false)
    (unpacked : sent.action.request host = some (.action sender auths requested))
    (trusting : requested.isTrusting = true) :
    (∃ event, sent.action = .evmtx event ∧ requested = .evmtx) ∨
      (∃ parameters, sent.action = .configchange parameters ∧ requested = .configchange parameters) ∨
      ∃ miner rlptx, sent.action = .pushtx miner rlptx ∧ requested = .pushtx miner rlptx none := by
  obtain ⟨inside, _, recorded⟩ := traced.sent sent (top ▸ List.mem_cons_self ..)
  cases action : sent.action with
  | transfer => rw [action] at unpacked; cases unpacked
  | onbridgemsg => rw [action] at unpacked; cases unpacked
  | callback callback output =>
      rw [action] at unpacked own inside
      obtain ⟨unpackedAction, found, same⟩ := Option.map_eq_some_iff.mp unpacked
      cases same
      have here : callback.contract = host.self := by simpa [Inline.isForeign] using own
      have harmless := unforged callback output _ (recorded (mem_sentActions.mp inside)) here found
      rw [harmless] at trusting
      cases trusting
  | evmtx event =>
      rw [action] at unpacked
      cases unpacked
      exact Or.inl ⟨event, rfl, rfl⟩
  | configchange parameters =>
      rw [action] at unpacked
      cases unpacked
      exact Or.inr (Or.inl ⟨parameters, rfl, rfl⟩)
  | pushtx miner rlptx =>
      rw [action] at unpacked
      cases unpacked
      exact Or.inr (Or.inr ⟨miner, rlptx, rfl, rfl⟩)

theorem World.Traced.authentic (traced : world.Traced host) (unforged : world.Unforged host) :
    world.Authentic host := by
  intro view before after sender auths requested rest holding contract handled
  refine ⟨?_, ?_⟩
  · intro event
    have own : sender = some host.self := by
      have ran := handled.ran
      rcases event with rfl | ⟨parameters, rfl⟩ <;>
        simp only [Request.run, Action.run, Contract.event, bind_ok, check_ok, exists_const] at ran <;>
        exact ran.1
    have trusting : requested.isTrusting = true := by
      rcases event with rfl | ⟨parameters, rfl⟩ <;> rfl
    obtain ⟨sent, top, here, unpacked⟩ := traced.own_request handled.top own
    obtain ⟨inside, ⟨earlier, now, leaves⟩, recorded⟩ := traced.sent sent (top ▸ List.mem_cons_self ..)
    rcases traced.sent_cases unforged top here unpacked trusting with
      ⟨published, action, rfl⟩ | ⟨parameters, action, rfl⟩ | ⟨miner, rlptx, _, rfl⟩
    · obtain ⟨txn, execution, executed, rfl, ran, kind⟩ := leaves.of_event inside (Or.inl ⟨published, action⟩)
      rcases kind with same | other
      · exact ⟨sent, execution, top, recorded ran, earlier, txn, executed, Or.inl ⟨same, rfl⟩⟩
      · rw [action] at other
        cases other
    · obtain ⟨txn, execution, executed, rfl, ran, kind⟩ := leaves.of_event inside (Or.inr ⟨parameters, action⟩)
      rcases kind with other | same
      · rw [action] at other
        cases other
      · have parametersEq : parameters = execution.gasParams := by
          rw [action] at same
          exact Inline.configchange.inj same
        exact ⟨sent, execution, top, recorded ran, earlier, txn, executed, Or.inr ⟨same, by rw [parametersEq]⟩⟩
    · simp at event
  · rintro miner rlptx minPrice rfl relaxed
    have own : sender = some host.self := by
      by_contra other
      exact relaxed (if_neg other)
    obtain ⟨sent, top, here, unpacked⟩ := traced.own_request handled.top own
    obtain ⟨inside, ⟨_, _, leaves⟩, _⟩ := traced.sent sent (top ▸ List.mem_cons_self ..)
    rcases traced.sent_cases unforged top here unpacked rfl with ⟨_, _, ⟨⟩⟩ | ⟨_, _, ⟨⟩⟩ | ⟨_, _, action, ⟨⟩⟩
    obtain ⟨tx, nonce, s, form, rfl, rfl, effects⟩ := leaves.of_pushtx (action ▸ inside)
    exact ⟨sent, top, tx, nonce, s, form, action, by rw [effects, action], rfl⟩

theorem run_traced {labels : List Label} {holding : Name → Symbol → Nat}
    (finished : run host labels (World.start holding) = .ok world) : world.Traced host :=
  run_invariant (World.Traced host) (fun _ _ _ _ traced stepped => traced.step stepped)
    ⟨fun _ member => (by cases member), fun _ member => (by cases member)⟩ finished

/-- In every run in which no callback goes to a trusting action of the contract, every
event is authentic and every relaxed `pushtx` comes from `dispatch_tx`. -/
theorem run_authentic (host : Host) (holding : Name → Symbol → Nat) (labels : List Label) (world : World)
    (finished : run host labels (World.start holding) = .ok world) (unforged : world.Unforged host) :
    world.Authentic host :=
  (run_traced finished).authentic unforged

namespace Ledger

def forgery : Action :=
  .exec { context := none, sender := none, recipient := List.replicate 20 0, data := [], value := none }
    (some { contract := self, action := evmtxName })

def forged : Sent where
  action := .callback { contract := self, action := evmtxName } { status := 0, data := [], context := none }
  cause := .action none [alice] forgery
  effects := [.sent (.callback { contract := self, action := evmtxName } { status := 0, data := [], context := none })]

end Ledger

/-- Anyone can have `exec` send an `evmtx` of the contract to itself, for no transaction. -/
theorem exec_forges_evmtx :
    ∃ world, run Ledger.host (Ledger.opening ++ Ledger.act Ledger.alice Ledger.forgery 0)
        (World.start fun _ _ => 0) = .ok world ∧
      ¬ world.Authentic Ledger.host := by
  obtain ⟨world, finished, seen⟩ := exists_of_view
    (run Ledger.host (Ledger.opening ++ Ledger.act Ledger.alice Ledger.forgery 0) (World.start fun _ _ => 0))
    (fun world => (world.stack, world.history)) ([.sent Ledger.forged], Ledger.forged.effects) (by decide +kernel)
  obtain ⟨stack, history⟩ := Prod.mk.inj seen
  refine ⟨world, finished, ?_⟩
  intro authentic
  have handled : Handled Ledger.host Ledger.view [] [] (.action (some Ledger.self) [] .evmtx) [] world.holding
      (Contract.load world.tables) world :=
    { top := stack ▸ .sent Ledger.forged _ [] (by decide +kernel) (by decide +kernel)
      foreign := fun _ member => (by cases member)
      notified := Or.inr ⟨rfl, rfl⟩
      moved := rfl
      ran := rfl }
  obtain ⟨_, execution, _, ran, _⟩ := (authentic _ _ _ _ _ _ _ _ _ handled).1 (Or.inl rfl)
  rw [history] at ran
  simp [Ledger.forged] at ran

/-- A callback of `exec` that was sent. -/
def Effect.isCallback : Effect → Bool
  | .sent (.callback _ _) => true
  | _ => false

def Pending.isEvent : Pending → Bool
  | .sent ⟨.evmtx _, _, _⟩ => true
  | _ => false

theorem Pending.eq_of_isEvent {stack : List Pending} (single : stack.map isEvent = [true]) :
    ∃ sent event, stack = [.sent sent] ∧ sent.action = .evmtx event := by
  obtain ⟨pending, rfl, event⟩ := List.map_eq_singleton_iff.mp single
  unfold isEvent at event
  split at event
  · exact ⟨_, _, rfl, rfl⟩
  · cases event

theorem World.Unforged.of_silent (host : Host) {world : World}
    (silent : world.history.all (fun effect => !effect.isCallback) = true) : world.Unforged host := by
  intro callback output requested member
  exact absurd (List.all_eq_true.mp silent _ member) (by simp [Effect.isCallback])

/-- In version 0 a bridge transfer has the contract send itself the transaction. In version 1
a call leaves its event to be handled. -/
theorem run_authentic_ingress_call :
    (∃ world, run Ledger.host (Ledger.opening ++
        Ledger.pay Ledger.bob 500000 "0x0123456789012345678901234567890123456789" 0)
        (World.start fun _ _ => 0) = .ok world ∧
      world.stack ≠ [] ∧ world.Unforged Ledger.host ∧ world.Authentic Ledger.host) ∧
    ∃ world sent execution, run Ledger.host (Ledger.versionOne ++
        Ledger.act Ledger.alice (Ledger.callNothing Ledger.alice 21000) 0) (World.start fun _ _ => 0) = .ok world ∧
      world.Unforged Ledger.host ∧ world.stack = [.sent sent] ∧ .ran execution ∈ world.history ∧
      sent.Announces Ledger.host execution .evmtx := by
  refine ⟨?_, ?_⟩
  · obtain ⟨world, finished, seen⟩ := exists_of_view
      (run Ledger.host (Ledger.opening ++
        Ledger.pay Ledger.bob 500000 "0x0123456789012345678901234567890123456789" 0) (World.start fun _ _ => 0))
      (fun world => (world.stack.isEmpty, world.history.all fun effect => !effect.isCallback)) (false, true)
      (by decide +kernel)
    obtain ⟨stack, history⟩ := Prod.mk.inj seen
    have unforged := World.Unforged.of_silent Ledger.host history
    refine ⟨world, finished, ?_, unforged, run_authentic Ledger.host _ _ world finished unforged⟩
    intro empty
    simp [empty] at stack
  · obtain ⟨world, finished, seen⟩ := exists_of_view
      (run Ledger.host (Ledger.versionOne ++ Ledger.act Ledger.alice (Ledger.callNothing Ledger.alice 21000) 0)
        (World.start fun _ _ => 0))
      (fun world => (world.stack.map Pending.isEvent, world.history.all fun effect => !effect.isCallback))
      ([true], true) (by decide +kernel)
    obtain ⟨stack, history⟩ := Prod.mk.inj seen
    obtain ⟨sent, event, stack, action⟩ := Pending.eq_of_isEvent stack
    have unforged := World.Unforged.of_silent Ledger.host history
    have handled : Handled Ledger.host Ledger.view [] [] (.action (some Ledger.self) [] .evmtx) [] world.holding
        (Contract.load world.tables) world :=
      { top := stack ▸ .sent sent _ [] (by rw [action]; rfl) (by rw [action]; rfl)
        foreign := fun _ member => (by cases member)
        notified := Or.inr ⟨rfl, rfl⟩
        moved := rfl
        ran := rfl }
    obtain ⟨found, execution, top, ran, announces⟩ :=
      (run_authentic Ledger.host _ _ world finished unforged _ _ _ _ _ _ _ _ _ handled).1 (Or.inl rfl)
    exact ⟨world, found, execution, finished, unforged, top, ran, announces⟩

end EosEvm

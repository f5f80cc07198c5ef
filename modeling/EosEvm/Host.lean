import EosEvm.HostCore
import EosEvm.Contract

/-! What one step of the chain can do, and how an invariant of the steps holds along
every run. -/

namespace EosEvm

open Abort

/-- The request that is handled next, and what stays pending below it. -/
inductive Top (host : Host) : List Pending → Request → List Pending → Prop
  | request (request : Request) (rest : List Pending) : Top host (.request request :: rest) request rest
  | sent (sent : Sent) (request : Request) (rest : List Pending) (own : sent.action.isForeign host.self = false)
      (unpacked : sent.action.request host = some request) : Top host (.sent sent :: rest) request rest

theorem Top.stack_eq {host : Host} {stack rest : List Pending} {request : Request}
    (top : Top host stack request rest) :
    stack = .request request :: rest ∨ ∃ sent, stack = .sent sent :: rest ∧
      sent.action.isForeign host.self = false ∧ sent.action.request host = some request := by
  cases top with
  | request => exact Or.inl rfl
  | sent sent _ _ own unpacked => exact Or.inr ⟨sent, rfl, own, unpacked⟩

/-- A request that was handled. -/
structure Handled (host : Host) (view : ChainView) (before after : List Request) (request : Request)
    (rest : List Pending) (holding : Name → Symbol → Nat) (contract : Contract) (world : World) : Prop where
  top : Top host world.stack request rest
  foreign : ∀ other ∈ before ++ after, other.isForeign host.self = true
  notified : request.notifies = true ∨ before = [] ∧ after = []
  moved : request.moved host world = .ok holding
  ran : request.run (host.env view world.now request) (Contract.load world.tables) = .ok contract

/-- The world after a request was handled. -/
def World.handled (world : World) (before after : List Request) (request : Request) (rest : List Pending)
    (holding : Name → Symbol → Nat) (contract : Contract) : World :=
  { world with
    tables := contract.store world.tables
    holding := holding
    stack := before.map .request ++ scheduled request contract.effects ++ after.map .request ++ rest
    history := world.history ++ contract.effects }

/-- What a step can do. -/
inductive Stepped (host : Host) (world : World) : Label → World → Prop
  | tick (now : Nat) (idle : world.stack = []) (later : world.now ≤ now) :
      Stepped host world (.tick now) { world with now := now }
  | submit (requests : List Request) (idle : world.stack = [])
      (foreign : ∀ other ∈ requests, other.isForeign host.self = true) :
      Stepped host world (.submit requests) { world with stack := requests.map .request }
  | passed (view : ChainView) (before after : List Request) (sent : Sent) (rest : List Pending)
      (top : world.stack = .sent sent :: rest) (away : sent.action.isForeign host.self = true)
      (foreign : ∀ other ∈ before ++ after, other.isForeign host.self = true) :
      Stepped host world (.next view before after)
        { world with stack := before.map .request ++ after.map .request ++ rest }
  | handled (view : ChainView) (before after : List Request) (request : Request) (rest : List Pending)
      (holding : Name → Symbol → Nat) (contract : Contract)
      (handled : Handled host view before after request rest holding contract world) :
      Stepped host world (.next view before after) (world.handled before after request rest holding contract)

variable {host : Host} {world next : World}

theorem handle_ok {view : ChainView} {before after : List Request} {request : Request} {rest : List Pending}
    (top : Top host world.stack request rest)
    (foreign : ∀ other ∈ before ++ after, other.isForeign host.self = true)
    (notified : request.notifies = true ∨ before = [] ∧ after = [])
    (done : handle host view before after request rest world = .ok next) :
    Stepped host world (.next view before after) next := by
  simp only [handle, bind_ok, pure_ok] at done
  obtain ⟨holding, moved, contract, ran, rfl⟩ := done
  exact .handled view before after request rest holding contract ⟨top, foreign, notified, moved, ran⟩

theorem step_ok {label : Label} (stepped : step host world label = .ok next) : Stepped host world label next := by
  cases label with
  | tick now =>
      simp only [step, bind_ok, check_ok, exists_const, pure_ok] at stepped
      obtain ⟨⟨idle, later⟩, rfl⟩ := stepped
      exact .tick now idle later
  | submit requests =>
      simp only [step, bind_ok, check_ok, exists_const, pure_ok] at stepped
      obtain ⟨⟨idle, foreign⟩, rfl⟩ := stepped
      exact .submit requests idle (List.all_eq_true.mp foreign)
  | next view before after =>
      simp only [step, bind_ok, check_ok, exists_const] at stepped
      obtain ⟨allowed, stepped⟩ := stepped
      have foreign := List.all_eq_true.mp allowed
      cases stack : world.stack with
      | nil =>
          simp only [EosEvm.next, stack] at stepped
          cases stepped
      | cons pending rest =>
          cases pending with
          | request request =>
              simp only [EosEvm.next, stack, bind_ok, check_ok, exists_const] at stepped
              exact handle_ok (stack ▸ .request request rest) foreign stepped.1 stepped.2
          | sent sent =>
              simp only [EosEvm.next, stack] at stepped
              split at stepped
              · rename_i away
                rw [pure_ok] at stepped
                subst stepped
                exact .passed view before after sent rest stack away foreign
              · rename_i own
                simp only [bind_ok, require_ok, check_ok, exists_const] at stepped
                obtain ⟨request, unpacked, notified, done⟩ := stepped
                rw [Bool.not_eq_true] at own
                exact handle_ok (stack ▸ .sent sent request rest own unpacked) foreign notified done

/-- The requests that other accounts send in a step. -/
def Label.requests : Label → List Request
  | .tick _ => []
  | .submit requests => requests
  | .next _ before after => before ++ after

theorem Stepped.foreign {label : Label} (stepped : Stepped host world label next) :
    ∀ request ∈ label.requests, request.isForeign host.self = true := by
  cases stepped with
  | tick => exact fun _ member => (by cases member)
  | submit requests idle foreign => exact foreign
  | passed _ _ _ _ _ _ _ foreign => exact foreign
  | handled _ _ _ _ _ _ _ handled => exact handled.foreign

theorem Top.rest_subset {stack rest : List Pending} {request : Request} (top : Top host stack request rest) :
    rest ⊆ stack := by
  cases top <;> exact List.subset_cons_self _ _

theorem Stepped.mem_stack {label : Label} {pending : Pending} (stepped : Stepped host world label next)
    (member : pending ∈ next.stack) :
    (∃ request ∈ label.requests, pending = .request request) ∨ pending ∈ world.stack ∨
      ∃ view before after request rest holding contract,
        Handled host view before after request rest holding contract world ∧
        next = world.handled before after request rest holding contract ∧
        pending ∈ scheduled request contract.effects := by
  cases stepped with
  | tick => exact Or.inr (Or.inl member)
  | submit requests idle foreign =>
      obtain ⟨request, inside, rfl⟩ := List.mem_map.mp member
      exact Or.inl ⟨request, inside, rfl⟩
  | passed view before after sent rest top away foreign =>
      rw [← List.map_append] at member
      rcases List.mem_append.mp member with new | old
      · obtain ⟨request, inside, rfl⟩ := List.mem_map.mp new
        exact Or.inl ⟨request, inside, rfl⟩
      · exact Or.inr (Or.inl (top ▸ List.mem_cons_of_mem _ old))
  | handled view before after request rest holding contract handled =>
      simp only [World.handled, List.mem_append] at member
      rcases member with ((first | sent) | last) | old
      · obtain ⟨other, inside, rfl⟩ := List.mem_map.mp first
        exact Or.inl ⟨other, List.mem_append_left _ inside, rfl⟩
      · exact Or.inr (Or.inr ⟨view, before, after, request, rest, holding, contract, handled, rfl, sent⟩)
      · obtain ⟨other, inside, rfl⟩ := List.mem_map.mp last
        exact Or.inl ⟨other, List.mem_append_right _ inside, rfl⟩
      · exact Or.inr (Or.inl (handled.top.rest_subset old))

theorem Stepped.history_subset {label : Label} (stepped : Stepped host world label next) :
    world.history ⊆ next.history := by
  cases stepped with
  | handled => exact List.subset_append_left _ _
  | _ => exact List.Subset.refl _

/-- What every step of a run preserves holds at its end. -/
theorem run_invariant {labels : List Label} (invariant : World → Prop)
    (preserved : ∀ world label next, label ∈ labels → invariant world → Stepped host world label next →
      invariant next)
    (start : invariant world) (finished : run host labels world = .ok next) : invariant next :=
  foldOutcome_invariant (step host) invariant labels world next
    (fun current label after member held stepped => preserved current label after member held (step_ok stepped))
    start finished

/-- A run goes on where another one ended and one more step was taken. -/
theorem run_resume {labels rest : List Label} {label : Label} {reached resumed : World}
    (finished : run host labels world = .ok reached) (stepped : step host reached label = .ok resumed)
    (continued : run host rest resumed = .ok next) : run host (labels ++ label :: rest) world = .ok next := by
  rw [run, foldOutcome_append]
  exact ⟨reached, finished, (foldOutcome_cons _ _ _ _ _).mpr ⟨resumed, stepped, continued⟩⟩

/-- The request on top of the stack, if the contract handles it. -/
def topRequest (host : Host) : List Pending → Option Request
  | .request request :: _ => some request
  | .sent sent :: _ => if sent.action.isForeign host.self then none else sent.action.request host
  | [] => none

/-- Every request that the contract handles in the run is safe where it is handled. -/
def guarded (host : Host) (safe : World → Request → Bool) : List Label → World → Bool
  | [], _ => true
  | label :: labels, world =>
      (match label with
        | .next _ _ _ => (topRequest host world.stack).all (safe world)
        | _ => true) &&
      match step host world label with
      | .ok next => guarded host safe labels next
      | .error _ => true

theorem Top.topRequest {stack rest : List Pending} {request : Request} (top : Top host stack request rest) :
    topRequest host stack = some request := by
  cases top with
  | request => rfl
  | sent sent _ _ own unpacked => simp [EosEvm.topRequest, own, unpacked]

/-- Every step of the run obeys the rule where it is taken. -/
def obeyed (host : Host) (rule : World → Label → Bool) : List Label → World → Bool
  | [], _ => true
  | label :: labels, world =>
      rule world label &&
      match step host world label with
      | .ok next => obeyed host rule labels next
      | .error _ => true

theorem run_history_subset {labels : List Label} (finished : run host labels world = .ok next) :
    world.history ⊆ next.history :=
  run_invariant (fun reached => world.history ⊆ reached.history)
    (fun _ _ _ _ held stepped => List.Subset.trans held stepped.history_subset) (List.Subset.refl _) finished

/-- What every step that obeys the rule preserves holds at the end of the run; what was left
behind on the way is still recorded there. -/
theorem run_obeyed {labels : List Label} (rule : World → Label → Bool) (invariant : World → Prop)
    (preserved : ∀ current label reached, rule current label = true → reached.history ⊆ next.history →
      invariant current → Stepped host current label reached → invariant reached)
    (start : invariant world) (held : obeyed host rule labels world = true)
    (finished : run host labels world = .ok next) : invariant next := by
  induction labels generalizing world with
  | nil =>
      rw [run, foldOutcome_nil] at finished
      exact finished ▸ start
  | cons label labels ih =>
      obtain ⟨middle, stepped, tail⟩ := (foldOutcome_cons (step host) label labels world next).mp finished
      simp only [obeyed, stepped, Bool.and_eq_true] at held
      exact ih (preserved world label middle held.1 (run_history_subset tail) start (step_ok stepped)) held.2 tail

theorem obeyed_true (labels : List Label) (world : World) : obeyed host (fun _ _ => true) labels world = true := by
  induction labels generalizing world with
  | nil => rfl
  | cons label labels ih =>
      simp only [obeyed, Bool.true_and]
      split
      · exact ih _
      · rfl

theorem obeyed_mono {rule weaker : World → Label → Bool} {labels : List Label}
    (weakens : ∀ world label, rule world label = true → weaker world label = true)
    (held : obeyed host rule labels world = true) : obeyed host weaker labels world = true := by
  induction labels generalizing world with
  | nil => rfl
  | cons label labels ih =>
      simp only [obeyed, Bool.and_eq_true] at held ⊢
      refine ⟨weakens world label held.1, ?_⟩
      cases stepped : step host world label with
      | error => rfl
      | ok reached =>
          rw [stepped] at held
          exact ih held.2

theorem obeyed_of_guarded {safe : World → Request → Bool} {labels : List Label}
    (held : guarded host safe labels world = true) :
    obeyed host (fun world label => match label with
      | .next _ _ _ => (topRequest host world.stack).all (safe world)
      | _ => true) labels world = true := by
  induction labels generalizing world with
  | nil => rfl
  | cons label labels ih =>
      simp only [guarded, Bool.and_eq_true] at held
      simp only [obeyed, Bool.and_eq_true]
      refine ⟨held.1, ?_⟩
      cases stepped : step host world label with
      | error => rfl
      | ok reached =>
          rw [stepped] at held
          exact ih held.2

/-- What every step that handles a safe request preserves holds at the end of a guarded run. -/
theorem run_guarded {labels : List Label} {safe : World → Request → Bool} (invariant : World → Prop)
    (preserved : ∀ world label next, invariant world → Stepped host world label next →
      (∀ view before after request rest holding contract, label = .next view before after →
        Handled host view before after request rest holding contract world → safe world request = true) →
      invariant next)
    (start : invariant world) (held : guarded host safe labels world = true)
    (finished : run host labels world = .ok next) : invariant next := by
  refine run_obeyed _ invariant ?_ start (obeyed_of_guarded held) finished
  intro current label reached obeys _ holds stepped
  refine preserved current label reached holds stepped ?_
  rintro view before after request rest holding contract rfl handled
  simpa [handled.top.topRequest] using obeys

/-- What a step leaves in a journal of the requests handled. -/
def entries {ε : Type} (host : Host) (note : World → Request → List ε) (world : World) : Label → List ε
  | .tick _ => []
  | .submit _ => []
  | .next _ _ _ => (topRequest host world.stack).elim [] (note world)

theorem entries_handled {ε : Type} {view : ChainView} {before after : List Request} {request : Request}
    {rest : List Pending} {holding : Name → Symbol → Nat} {contract : Contract} (note : World → Request → List ε)
    (handled : Handled host view before after request rest holding contract world) :
    entries host note world (.next view before after) = note world request := by
  rw [entries, handled.top.topRequest]
  rfl

theorem entries_passed {ε : Type} {view : ChainView} {before after : List Request} {sent : Sent} {rest : List Pending}
    (note : World → Request → List ε) (top : world.stack = .sent sent :: rest)
    (away : sent.action.isForeign host.self = true) : entries host note world (.next view before after) = [] := by
  rw [entries, top, topRequest, if_pos away]
  rfl

/-- The journal of a run. -/
def noted {ε : Type} (host : Host) (note : World → Request → List ε) : List Label → World → List ε
  | [], _ => []
  | label :: labels, world =>
      entries host note world label ++
      match step host world label with
      | .ok next => noted host note labels next
      | .error _ => []

/-- What every safe step preserves, together with the journal it extends, holds at the end of
the run with the journal of the run. -/
theorem run_noted {ε : Type} {labels : List Label} {safe : World → Request → Bool} (note : World → Request → List ε)
    (invariant : World → List ε → Prop)
    (preserved : ∀ world label next journal, invariant world journal → Stepped host world label next →
      (∀ view before after request rest holding contract, label = .next view before after →
        Handled host view before after request rest holding contract world → safe world request = true) →
      invariant next (journal ++ entries host note world label))
    {journal : List ε} (start : invariant world journal) (held : guarded host safe labels world = true)
    (finished : run host labels world = .ok next) : invariant next (journal ++ noted host note labels world) := by
  induction labels generalizing world journal with
  | nil =>
      rw [run, foldOutcome_nil] at finished
      rw [noted, List.append_nil]
      exact finished ▸ start
  | cons label labels ih =>
      obtain ⟨middle, stepped, tail⟩ := (foldOutcome_cons (step host) label labels world next).mp finished
      simp only [guarded, stepped, Bool.and_eq_true] at held
      simp only [noted, stepped]
      rw [← List.append_assoc]
      refine ih (preserved world label middle journal start (step_ok stepped) ?_) held.2 tail
      rintro view before after request rest holding contract rfl handled
      simpa [handled.top.topRequest] using held.1

theorem Stepped.of_topRequest {view : ChainView} {before after : List Request} {request : Request}
    (stepped : Stepped host world (.next view before after) next) (top : topRequest host world.stack = some request) :
    ∃ rest holding contract, Handled host view before after request rest holding contract world ∧
      next = world.handled before after request rest holding contract := by
  cases stepped with
  | passed _ _ _ sent rest stack away =>
      rw [stack] at top
      simp [EosEvm.topRequest, away] at top
  | handled _ _ _ other rest holding contract handled =>
      rw [handled.top.topRequest] at top
      cases top
      exact ⟨rest, holding, contract, handled, rfl⟩

theorem exists_of_unguarded {labels : List Label} {safe : World → Request → Bool}
    (broken : guarded host safe labels world = false) (finished : run host labels world = .ok next) :
    ∃ front label back middle reached request, labels = front ++ label :: back ∧
      run host front world = .ok middle ∧ step host middle label = .ok reached ∧
      run host back reached = .ok next ∧ topRequest host middle.stack = some request ∧
      (∃ view before after, label = .next view before after) ∧ safe middle request = false := by
  induction labels generalizing world with
  | nil => cases broken
  | cons label labels ih =>
      obtain ⟨middle, stepped, tail⟩ := (foldOutcome_cons (step host) label labels world next).mp finished
      simp only [guarded, stepped, Bool.and_eq_false_iff] at broken
      rcases broken with here | later
      · cases label with
        | tick | submit => cases here
        | next view before after =>
            simp only [Option.all_eq_false] at here
            obtain ⟨request, top, refused⟩ := here
            exact ⟨[], _, labels, world, middle, request, rfl, rfl, stepped, tail, top, ⟨view, before, after, rfl⟩,
              refused⟩
      · obtain ⟨front, other, back, reached, afterwards, request, rfl, first, second, rest⟩ := ih later tail
        exact ⟨label :: front, other, back, reached, afterwards, request, rfl,
          (foldOutcome_cons (step host) label front world reached).mpr ⟨middle, stepped, first⟩, second, rest⟩

@[simp] theorem Host.env_self (view : ChainView) (now : Nat) (request : Request) :
    (host.env view now request).self = host.self := rfl

@[simp] theorem Host.env_evm (view : ChainView) (now : Nat) (request : Request) :
    (host.env view now request).evm = host.evm := rfl

@[simp] theorem Host.env_now (view : ChainView) (now : Nat) (request : Request) :
    (host.env view now request).now = now := rfl

theorem mem_scheduled {cause : Request} {effects : List Effect} {pending : Pending} :
    pending ∈ scheduled cause effects ↔
      ∃ action ∈ sentActions effects, pending = .sent { action := action, cause := cause, effects := effects } := by
  simp only [scheduled, sentActions, List.mem_filterMap]
  constructor
  · rintro ⟨effect, member, found⟩
    cases effect with
    | ran execution => cases found
    | sent action => exact ⟨action, ⟨.sent action, member, rfl⟩, (Option.some.inj found).symm⟩
  · rintro ⟨action, ⟨effect, member, found⟩, rfl⟩
    cases effect with
    | ran execution => cases found
    | sent other =>
        cases found
        exact ⟨_, member, rfl⟩

end EosEvm

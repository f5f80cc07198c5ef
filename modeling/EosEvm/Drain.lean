import EosEvm.Nonces
import Mathlib.Logic.Hydra

/-! A transaction ends. What the contract sends while it handles a request are payments, events,
messages and at most one transaction to itself, and that transaction sends no other. So however
the requests on the stack are handled, nothing keeps the stack from running empty, as long as the
other accounts send nothing themselves and no callback of `exec` goes to the contract. -/

namespace Worklist

variable {α : Type} {below : α → α → Prop}

def Pops (below : α → α → Prop) (next items : List α) : Prop :=
  ∃ top rest put, items = top :: rest ∧ next = put ++ rest ∧ ∀ item ∈ put, below item top

theorem pops_wellFounded (descends : WellFounded below) : WellFounded (Pops below) := by
  refine Subrelation.wf (r := InvImage (Relation.CutExpand below) fun items : List α => (items : Multiset α)) ?_
    (InvImage.wf _ descends.cutExpand)
  rintro _ _ ⟨top, rest, put, rfl, rfl, smaller⟩
  change Relation.CutExpand below ((put ++ rest : List α) : Multiset α) ((top :: rest : List α) : Multiset α)
  rw [← Multiset.coe_add, ← Multiset.cons_coe, ← Multiset.singleton_add, Relation.cutExpand_add_right]
  exact Relation.cutExpand_singleton smaller

end Worklist

namespace EosEvm

open Abort

def Inline.rank : Inline → Nat
  | .pushtx _ _ => 1
  | _ => 0

def Pending.rank : Pending → Nat
  | .request _ => 2
  | .sent queued => queued.action.rank

/-- The next action is no callback of `exec` to the contract. -/
def World.calm (host : Host) (world : World) : Prop :=
  ∀ callback output cause effects rest,
    world.stack = .sent ⟨.callback callback output, cause, effects⟩ :: rest → callback.contract ≠ host.self

/-- A step of a transaction in which the other accounts send nothing. -/
def Drains (host : Host) (next world : World) : Prop :=
  world.calm host ∧ ∃ view, step host world (.next view [] []) = .ok next

variable {host : Host} {world next : World}

theorem scheduled_rank {cause : Request} {effects : List Effect} {pending : Pending}
    (member : pending ∈ scheduled cause effects) : pending.rank < 2 := by
  obtain ⟨action, _, rfl⟩ := mem_scheduled.mp member
  cases action with
  | pushtx => exact Nat.one_lt_two
  | _ => exact Nat.zero_lt_two

theorem Handled.sent_rank {view : ChainView} {before after : List Request} {request : Request} {rest : List Pending}
    {holding : Name → Symbol → Nat} {contract : Contract} {sent : Sent} {pending : Pending}
    (calm : world.calm host) (top : world.stack = .sent sent :: rest) (own : sent.action.isForeign host.self = false)
    (unpacked : sent.action.request host = some request)
    (handled : Handled host view before after request rest holding contract world)
    (member : pending ∈ scheduled request contract.effects) : pending.rank < (Pending.sent sent).rank := by
  have ran := handled.ran
  obtain ⟨action, inside, rfl⟩ := mem_scheduled.mp member
  obtain ⟨sentAction, cause, effects⟩ := sent
  cases sentAction with
  | pushtx miner rlptx =>
      cases unpacked
      -- A transaction sends payments and events, but no transaction of its own.
      have processed := (Request.run_does ran).of_pushtx
      have start : (refreshPrices (host.env view world.now (.action (some host.self) [host.self]
          (.pushtx miner rlptx none))) (Contract.load world.tables)).effects = [] := by
        rw [Contract.refreshPrices_eq]
        rfl
      cases action with
      | pushtx => exact absurd inside (processTx_pushes start processed)
      | _ => exact Nat.zero_lt_one
  | transfer token recipient quantity memo =>
      cases unpacked
      simp only [Request.run, Contract.transfer, bind_ok] at ran
      obtain ⟨_, _, ran⟩ := ran
      -- The contract ignores the notification of what it spends.
      have spending : host.self = (host.env view world.now (.transfer token host.self recipient quantity memo)).self := rfl
      rw [if_pos (Or.inr spending), pure_ok] at ran
      subst ran
      cases inside
  | evmtx | configchange =>
      cases unpacked
      simp only [Request.run, Action.run, Contract.event, bind_ok, check_ok, exists_const, pure_ok] at ran
      obtain ⟨_, rfl⟩ := ran
      cases inside
  | onbridgemsg => cases unpacked
  | callback callback output =>
      have here : callback.contract = host.self := by simpa [Inline.isForeign] using own
      exact absurd here (calm callback output cause effects rest top)

theorem Drains.pops (drains : Drains host next world) :
    Worklist.Pops (fun first second => first.rank < second.rank) next.stack world.stack := by
  obtain ⟨calm, view, stepped⟩ := drains
  cases step_ok stepped with
  | passed _ _ _ sent rest top away => exact ⟨_, rest, [], top, rfl, fun _ member => by cases member⟩
  | handled _ _ _ request rest holding contract handled =>
      have stack : (world.handled [] [] request rest holding contract).stack =
          scheduled request contract.effects ++ rest := by simp [World.handled]
      rcases handled.top.stack_eq with arriving | ⟨sent, leaving, own, unpacked⟩
      · exact ⟨_, rest, _, arriving, stack, fun pending member => scheduled_rank member⟩
      · exact ⟨_, rest, _, leaving, stack, fun pending member =>
          handled.sent_rank calm leaving own unpacked member⟩

/-- No transaction goes on for ever: there is no infinite sequence of steps in which the other
accounts send nothing and no callback of `exec` is taken by the contract. -/
theorem run_drains (host : Host) : WellFounded (Drains host) := by
  refine Subrelation.wf (r := InvImage (Worklist.Pops fun first second => first.rank < second.rank) World.stack) ?_
    (InvImage.wf _ (Worklist.pops_wellFounded (measure Pending.rank).wf))
  intro next world drains
  exact drains.pops

end EosEvm

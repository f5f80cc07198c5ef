import EosEvm.Promotion
import EosEvm.Timeline
import EosEvm.Books

/-! The schedule of versions. A transaction runs under the version that the last `setversion` of an
earlier EVM block asked for, whatever else the contract was asked in between and whoever promoted
the pending version first. -/

namespace EosEvm

open Abort Replay

def Request.versionWrites (now : Nat) (request : Request) : List (Access Nat) :=
  request.newVersion.toList.map fun version => .update version now

/-- The journal of the versions asked for. -/
def versionsSet (world : World) (request : Request) : List (Access Nat) := request.versionWrites world.now

/-- The version of a block by a journal: the one asked for last in an earlier block. -/
def versionBy (genesisTime : Nat) (journal : List (Access Nat)) (block : Nat) : Nat :=
  Access.writtenBefore genesisTime block 0 journal

theorem versionBy_append (genesisTime : Nat) (journal later : List (Access Nat)) (block : Nat) :
    versionBy genesisTime (journal ++ later) block =
      Access.writtenBefore genesisTime block (versionBy genesisTime journal block) later :=
  latest_append _ _ _ _

theorem versionBy_reached {genesisTime now block : Nat} (journal : List (Access Nat)) (request : Request)
    (reached : block ≤ timestampToEvmBlockNum genesisTime now) :
    versionBy genesisTime (journal ++ request.versionWrites now) block = versionBy genesisTime journal block := by
  rw [versionBy_append]
  refine latest_of_silent _ _ _ fun access member => ?_
  obtain ⟨version, _, rfl⟩ := List.mem_map.mp member
  exact if_neg (Nat.not_lt.mpr reached)

theorem Request.versionWrites_of_none {request : Request} (unasked : request.newVersion = none) (now : Nat) :
    request.versionWrites now = [] := by
  rw [versionWrites, unasked]
  rfl

theorem Request.newVersion_of_price {request : Request}
    (asked : request.newGasPrice ≠ none ∨ request.newGasPrices ≠ none) : request.newVersion = none := by
  cases request with
  | transfer => rfl
  | action caller auths requested => cases requested <;> first | rfl | simp [newGasPrice, newGasPrices] at asked

namespace Pricing

variable {pricing after : Pricing} {now : Nat} {request : Request}

theorem Accepts.versionIn (accepts : pricing.Accepts now request after) {block : Nat}
    (reached : pricing.blockNum now ≤ block) :
    after.versionIn block =
      Access.writtenBefore pricing.genesisTime block (pricing.versionIn block) (request.versionWrites now) := by
  have unchanged : request.newVersion = none → after.versionIn block = pricing.versionIn block →
      after.versionIn block =
        Access.writtenBefore pricing.genesisTime block (pricing.versionIn block) (request.versionWrites now) := by
    intro unasked same
    rw [request.versionWrites_of_none unasked, same]
    rfl
  cases accepts with
  | rests _ _ unasked => exact unchanged unasked rfl
  | setsPrice _ asked | keepsPrice _ asked | queuesPrice _ _ _ asked =>
      exact unchanged (Request.newVersion_of_price (Or.inl (by simp [asked]))) rfl
  | setsPrices _ asked | keepsPrices _ asked | queuesPrices _ _ _ asked =>
      exact unchanged (Request.newVersion_of_price (Or.inr (by simp [asked]))) rfl
  | schedules version asked =>
      rw [versionIn_scheduled, Request.versionWrites, asked]
      change _ = (if pricing.blockNum now < block then some version else none).getD _
      by_cases later : pricing.blockNum now < block
      · rw [if_pos later, if_pos later]
        rfl
      · rw [if_neg later, if_neg later, ← Nat.le_antisymm reached (Nat.not_lt.mp later)]
        rfl

theorem Accepts.pending (accepts : pricing.Accepts now request after) (asked : request.newVersion ≠ none) :
    after.evmVersion.pendingValue ≠ none := by
  cases accepts with
  | rests _ _ unasked => exact absurd unasked asked
  | setsPrice _ priced | keepsPrice _ priced | queuesPrice _ _ _ priced =>
      exact absurd (Request.newVersion_of_price (Or.inl (by simp [priced]))) asked
  | setsPrices _ priced | keepsPrices _ priced | queuesPrices _ _ _ priced =>
      exact absurd (Request.newVersion_of_price (Or.inr (by simp [priced]))) asked
  | schedules => exact Option.some_ne_none _

end Pricing

theorem Reconfigures.accepts_of_asked {env : Env} {before after : ConfigWrapper} {request : Request}
    {effects : List Effect} (reconfigured : Reconfigures env before request after effects)
    (asked : request.newVersion ≠ none) :
    ∃ middle, before.pricing.Advanced env.now middle ∧ middle.Accepts env.now request after.pricing := by
  cases reconfigured with
  | starts | swaps => exact absurd rfl asked
  | sets caller auths _ _ configured => exact configured.reprices caller auths
  | updates _ _ _ _ _ _ _ plain => exact absurd (Request.unpriced_of_plain plain).2.2 asked
  | transacts _ _ _ _ _ _ _ _ _ plain => exact absurd (Request.unpriced_of_plain plain).2.2 asked

variable {host : Host} {world next : World}

/-- The versions of the transactions that ran, and of the blocks to come, are those of a journal. -/
structure World.Scheduled (world : World) (journal : List (Access Nat)) : Prop where
  timely : world.Timely
  begun : world.config.stored = false → journal = []
  coming : ∀ block, timestampToEvmBlockNum world.config.cached.genesisTime world.now ≤ block →
    world.config.pricing.versionIn block = versionBy world.config.cached.genesisTime journal block
  past : ∀ execution ∈ executions world.history, execution.version =
    versionBy world.config.cached.genesisTime journal
      (timestampToEvmBlockNum world.config.cached.genesisTime execution.time)

section Handled

variable {view : ChainView} {before after : List Request} {request : Request} {rest : List Pending}
  {holding : Name → Symbol → Nat} {contract : Contract} {journal : List (Access Nat)}

theorem Handled.coming (handled : Handled host view before after request rest holding contract world)
    (scheduled : world.Scheduled journal) {block : Nat}
    (reached : timestampToEvmBlockNum
      (world.handled before after request rest holding contract).config.cached.genesisTime world.now ≤ block) :
    (world.handled before after request rest holding contract).config.pricing.versionIn block =
      versionBy (world.handled before after request rest holding contract).config.cached.genesisTime
        (journal ++ request.versionWrites world.now) block := by
  have cases : (world.config.stored = false ∧ request.newVersion = none ∧
      (world.handled before after request rest holding contract).config.pricing.evmVersion =
        world.config.pricing.evmVersion) ∨ ∃ middle, world.config.pricing.Advanced world.now middle ∧
      middle.Accepts world.now request (world.handled before after request rest holding contract).config.pricing := by
    by_cases unasked : request.newVersion = none
    · refine handled.reprices.imp_left ?_
      rintro ⟨unstored, _, _, genesisTime, gasPrice, same⟩
      exact ⟨unstored, unasked, by rw [same]⟩
    · obtain ⟨reconfigured, reloaded⟩ := handled.reconfigures
      rw [reloaded]
      exact Or.inr (reconfigured.accepts_of_asked unasked)
  rcases cases with ⟨unstored, unasked, same⟩ | ⟨middle, advanced, accepts⟩
  · rw [Pricing.versionIn, same, World.unversioned unstored, scheduled.begun unstored,
      request.versionWrites_of_none unasked]
    rfl
  · obtain ⟨kept, version⟩ := advanced.versionIn
    have genesis : (world.handled before after request rest holding contract).config.cached.genesisTime =
        world.config.cached.genesisTime := accepts.version.1.trans kept
    rw [genesis] at reached ⊢
    have current : middle.blockNum world.now ≤ block := by
      rw [Pricing.blockNum, kept]
      exact reached
    rw [accepts.versionIn current, kept, version block reached, versionBy_append, scheduled.coming block reached]
    rfl

theorem World.Scheduled.handled (handled : Handled host view before after request rest holding contract world)
    (scheduled : world.Scheduled journal) :
    (world.handled before after request rest holding contract).Scheduled
      (journal ++ request.versionWrites world.now) := by
  have timely := scheduled.timely.handled handled
  refine ⟨timely, fun unstored => ?_, fun block reached => handled.coming scheduled reached, ?_⟩
  · have unset : world.config.stored = false := by
      by_contra stored
      rw [(handled.keepsGenesis (Bool.not_eq_false _ ▸ stored)).1] at unstored
      cases unstored
    have unasked : request.newVersion = none := by
      by_contra asked
      obtain ⟨reconfigured, reloaded⟩ := handled.reconfigures
      obtain ⟨middle, _, accepts⟩ := reconfigured.accepts_of_asked asked
      have same : (world.handled before after request rest holding contract).config.pricing =
          contract.config.pricing := by
        rw [reloaded]
        rfl
      rw [← same] at accepts
      exact accepts.pending asked (by rw [World.unversioned unstored])
    rw [scheduled.begun unset, request.versionWrites_of_none unasked]
    rfl
  · intro execution member
    have history : executions (world.handled before after request rest holding contract).history =
        executions world.history ++ executions contract.effects := executions_append _ _
    -- what is asked for now counts for no transaction up to now
    have present : execution.time ≤ world.now := (timely.past execution member).2.1
    rw [versionBy_reached journal request (timestampToEvmBlockNum_mono _ present)]
    rw [history] at member
    rcases List.mem_append.mp member with old | new
    · rw [(handled.keepsGenesis (scheduled.timely.begun (List.ne_nil_of_mem old))).2]
      exact scheduled.past execution old
    · rcases handled.reconfigures.1.executions with none | ⟨stored, ran, only, time, current⟩
      · rw [none] at new
        cases new
      · rw [only, List.mem_singleton] at new
        subst new
        rw [(handled.keepsGenesis stored).2, time]
        have version := scheduled.coming _ (Nat.le_refl _)
        exact (current.trans (ConfigWrapper.version_pricing _ _).symm).trans version

end Handled

theorem World.Scheduled.step {label : Label} {journal : List (Access Nat)} (scheduled : world.Scheduled journal)
    (stepped : Stepped host world label next) :
    next.Scheduled (journal ++ entries host versionsSet world label) := by
  have timely := stepped.timely scheduled.timely
  cases stepped with
  | tick now _ later =>
      rw [entries, List.append_nil]
      refine ⟨timely, scheduled.begun, fun block reached => ?_, scheduled.past⟩
      exact scheduled.coming block ((timestampToEvmBlockNum_mono _ later).trans reached)
  | submit =>
      rw [entries, List.append_nil]
      exact ⟨timely, scheduled.begun, scheduled.coming, scheduled.past⟩
  | passed view before after sent rest top away =>
      rw [entries_passed _ top away, List.append_nil]
      exact ⟨timely, scheduled.begun, scheduled.coming, scheduled.past⟩
  | handled view before after request rest holding contract handled =>
      rw [entries_handled _ handled]
      exact scheduled.handled handled

/-- In every run, a transaction ran under the version that the last `setversion` of an earlier EVM
block asked for, and so will the next. -/
theorem run_version_schedule (host : Host) (holding : Name → Symbol → Nat) (labels : List Label) (world : World)
    (finished : run host labels (World.start holding) = .ok world) :
    (∀ execution ∈ executions world.history, execution.version =
      versionBy world.config.cached.genesisTime (noted host versionsSet labels (World.start holding))
        (timestampToEvmBlockNum world.config.cached.genesisTime execution.time)) ∧
    world.config.getEvmVersion world.now =
      versionBy world.config.cached.genesisTime (noted host versionsSet labels (World.start holding))
        (timestampToEvmBlockNum world.config.cached.genesisTime world.now) := by
  have start : (World.start holding).Scheduled [] :=
    ⟨run_timely (show run host [] (World.start holding) = .ok _ from rfl), fun _ => rfl, fun _ _ => rfl,
      fun _ member => (by cases member)⟩
  have scheduled := run_journal (fun _ => True) versionsSet World.Scheduled
    (fun _ _ _ _ _ scheduled stepped => scheduled.step stepped) start (fun _ _ => trivial) finished
  rw [List.nil_append] at scheduled
  refine ⟨scheduled.past, ?_⟩
  rw [← ConfigWrapper.version_pricing]
  exact scheduled.coming _ (Nat.le_refl _)

theorem run_version_schedule_threeCalls :
    ∃ world, run Ledger.host Ledger.threeCalls (World.start fun _ _ => 0) = .ok world ∧
      (executions world.history).map Execution.version = [0, 1, 1] ∧
      noted Ledger.host versionsSet Ledger.threeCalls (World.start fun _ _ => 0) ≠ [] ∧
      ∀ execution ∈ executions world.history, execution.version =
        versionBy world.config.cached.genesisTime (noted Ledger.host versionsSet Ledger.threeCalls
          (World.start fun _ _ => 0)) (timestampToEvmBlockNum world.config.cached.genesisTime execution.time) := by
  obtain ⟨world, finished, seen⟩ := exists_of_view (run Ledger.host Ledger.threeCalls (World.start fun _ _ => 0))
    (fun world => (executions world.history).map Execution.version) [0, 1, 1] (by decide +kernel)
  exact ⟨world, finished, seen, by decide +kernel, (run_version_schedule Ledger.host _ _ world finished).1⟩

end EosEvm

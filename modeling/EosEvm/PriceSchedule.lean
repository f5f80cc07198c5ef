import EosEvm.QueueFront

/-! The price in effect. The queues drop, merge and replace updates and are drained only by
some requests; still the price under which a transaction runs is that of the last accepted
update whose block has come. -/

namespace EosEvm

open Abort Schedule

namespace ConfigWrapper

variable {ν σ : Type} {queue after : Table Nat ν} {limit front activation block : Nat} {value : ν}
  {newFront : Option Nat} {apply : σ → ν → σ}

/-- No row is before the front, and with front 0 there is none. -/
structure Leads (front : Nat) (queue : Table Nat ν) : Prop where
  empty : front = 0 → queue.rows = []
  first : ∀ row ∈ queue.rows, front ≤ row.1

theorem Waits.leads (waits : Waits limit queue) : Leads (frontOf queue) queue :=
  ⟨waits.frontOf_eq_zero.mp, fun _ member => frontOf_le member⟩

theorem Leads.drained {frontAfter : Nat} (leads : Leads front queue) (waits : Waits limit queue)
    (drained : Drained block queue after front frontAfter) : Leads frontAfter after := by
  have left := (waits.drained drained).leads
  rw [drained.front]
  split
  · rw [drained.queue]
    refine ⟨fun zero => ?_, fun row member => leads.first row (List.mem_filter.mp member).1⟩
    simp [later, Table.restrict, leads.empty zero]
  · exact left

theorem Leads.effective_of_idle (leads : Leads front queue) (idle : front = 0 ∨ block < front) (start : σ) :
    effective apply block start queue = start := by
  refine effective_of_later apply start queue fun row member => ?_
  rcases idle with zero | early
  · rw [leads.empty zero] at member
    cases member
  · exact early.trans_le (leads.first row member)

variable [DecidableEq ν]

theorem Leads.enqueueRow (leads : Leads front queue) (bounded : front ≤ activation) (positive : 0 < activation)
    (queued : enqueueRow queue front activation value = .ok (after, newFront)) : Leads (newFront.getD front) after := by
  rcases enqueueRow_ok queued with ⟨_, _, rfl, rfl⟩ | ⟨_, _, found, rfl, rfl⟩ | ⟨last, rfl, rfl⟩
  · exact leads
  · refine ⟨fun zero => ?_, fun row member => ?_⟩
    · simp [Table.modify, leads.empty zero]
    · obtain ⟨original, inside, same⟩ := List.mem_map.mp (mem_modify member)
      exact same ▸ leads.first original inside
  · have rows := Table.rows_put_last queue activation value last
    split
    · rename_i zero
      rw [leads.empty zero] at rows
      refine ⟨fun none => absurd none positive.ne', fun row member => ?_⟩
      rw [rows] at member
      exact le_of_eq (congrArg Prod.fst (List.mem_singleton.mp member)).symm
    · rename_i waiting
      refine ⟨fun zero => absurd zero waiting, fun row member => ?_⟩
      rw [rows] at member
      rcases List.mem_append.mp member with old | new
      · exact leads.first row old
      · rw [List.mem_singleton.mp new]
        exact bounded

theorem enqueueRow_tracks {now : Nat} {start origin : σ} {journal : List (Nat × ν)}
    (tracks : Tracks apply now start queue origin journal) (waits : Waits activation queue)
    (again : ∀ state, apply (apply state value) value = apply state value)
    (covers : ∀ last, queue.last? = some (activation, last) → ∀ state,
      apply (apply state last) value = apply state value)
    (queued : enqueueRow queue front activation value = .ok (after, newFront)) :
    Tracks apply now start after origin (journal ++ [(activation, value)]) := by
  rcases enqueueRow_ok queued with ⟨block, last, rfl, rfl⟩ | ⟨old, _, last, rfl, rfl⟩ | ⟨last, rfl, rfl⟩
  · exact tracks.repeat_last last (waits _ (List.mem_of_getLast? last)).2 again
  · exact tracks.replace_last value last (covers old last)
  · exact tracks.put_last value last

end ConfigWrapper

def activations {ν : Type} (genesisTime : Nat) (updates : List (Nat × ν)) : List (Nat × ν) :=
  updates.map fun update => (ConfigWrapper.activationBlockNum genesisTime update.1, update.2)

/-- The value of the last update whose activation block has come. -/
def lastUpdate {ν : Type} (genesisTime : Nat) (updates : List (Nat × ν)) (start : ν) (block : Nat) : ν :=
  ((updates.filter fun update => decide (ConfigWrapper.activationBlockNum genesisTime update.1 ≤ block)).map
    Prod.snd).getLastD start

theorem lastUpdate_append {ν : Type} (genesisTime : Nat) (updates : List (Nat × ν)) (time : Nat) (value start : ν)
    (block : Nat) :
    lastUpdate genesisTime (updates ++ [(time, value)]) start block =
      if ConfigWrapper.activationBlockNum genesisTime time ≤ block then value
      else lastUpdate genesisTime updates start block := by
  unfold lastUpdate
  split
  · rename_i reached
    simp [List.filter_append, reached]
  · rename_i early
    simp [List.filter_append, early]

theorem activations_append {ν : Type} (genesisTime : Nat) (updates more : List (Nat × ν)) :
    activations genesisTime (updates ++ more) = activations genesisTime updates ++ activations genesisTime more :=
  List.map_append

theorem applied_eq_lastUpdate {ν : Type} (genesisTime : Nat) (updates : List (Nat × ν)) (start : ν) (block : Nat) :
    applied (fun _ value => value) block start (activations genesisTime updates) =
      lastUpdate genesisTime updates start block := by
  induction updates using List.reverseRecOn with
  | nil => rfl
  | append_singleton updates update ih =>
      rw [activations_append, lastUpdate_append, ← ih]
      exact applied_announced _ _ _ _ _ _

theorem lt_of_activation_le {genesisTime time later : Nat}
    (reached : ConfigWrapper.activationBlockNum genesisTime time ≤ timestampToEvmBlockNum genesisTime later) :
    time + 180 * 1000000 < later := by
  by_contra early
  have order := timestampToEvmBlockNum_mono genesisTime (not_lt.mp early)
  exact absurd (reached.trans order) (Nat.not_succ_le_self _)

namespace Pricing

variable {pricing middle after : Pricing} {now : Nat} {request : Request}

/-- In versions 1 and 2, the gas price follows the journal. -/
structure Priced (pricing : Pricing) (now origin : Nat) (journal : List (Nat × Nat)) : Prop where
  bounded : pricing.Bounded now
  versions : ∀ block, pricing.blockNum now ≤ block → 1 ≤ pricing.versionIn block ∧ pricing.versionIn block < 3
  leads : ConfigWrapper.Leads pricing.front pricing.priceQueue
  tracks : Tracks (fun _ price => price) (pricing.blockNum now) pricing.gasPrice pricing.priceQueue origin journal

variable {origin : Nat} {journal : List (Nat × Nat)}

theorem Priced.tick {later : Nat} (priced : pricing.Priced now origin journal) (order : now ≤ later) :
    pricing.Priced later origin journal where
  bounded := priced.bounded.tick order
  versions block reached := priced.versions block ((pricing.blockNum_mono order).trans reached)
  leads := priced.leads
  tracks := priced.tracks.mono (pricing.blockNum_mono order)

theorem Priced.advances (priced : pricing.Priced now origin journal) (advances : pricing.Advances now after) :
    after.Priced now origin journal := by
  have bounded := priced.bounded.advances advances
  obtain ⟨genesis, versions⟩ := advances.versionIn
  have ranges : ∀ block, after.blockNum now ≤ block → 1 ≤ after.versionIn block ∧ after.versionIn block < 3 := by
    intro block reached
    rw [blockNum, genesis] at reached
    rw [versions block reached]
    exact priced.versions block reached
  cases advances with
  | promotes => exact ⟨bounded, ranges, priced.leads, priced.tracks⟩
  | takesPrice front queue active below waiting reached drained =>
      refine ⟨bounded, ranges, priced.leads.drained priced.bounded.priced drained, ?_⟩
      have drain := priced.tracks.drain
      rw [← drained.queue] at drain
      exact drain
  | takesPrices front queue active waiting reached drained =>
      have below := (priced.versions _ (Nat.le_refl _)).2
      exact absurd active (Nat.not_le.mpr below)

theorem Priced.accepts (priced : pricing.Priced now origin journal) (stays : request.newVersion ≠ some 3)
    (accepts : pricing.Accepts now request after) :
    after.Priced now origin (journal ++ (request.newGasPrice.map fun price => (pricing.activation now, price)).toList) := by
  have bounded := priced.bounded.accepts accepts
  obtain ⟨active, below⟩ : 1 ≤ pricing.version now ∧ pricing.version now < 3 := priced.versions _ (Nat.le_refl _)
  cases accepts with
  | rests noPrice noPrices noVersion =>
      rw [noPrice, Option.map_none, Option.toList_none, List.append_nil]
      exact priced
  | setsPrice price asked inactive => omega
  | keepsPrice price asked active below idle same =>
      rw [asked]
      exact ⟨bounded, priced.versions, priced.leads, priced.tracks.keep_current (priced.leads.empty idle) same.symm⟩
  | queuesPrice price queue front asked active below changes queued =>
      rw [asked]
      exact ⟨bounded, priced.versions,
        priced.leads.enqueueRow priced.bounded.front (pricing.activation_pos now) queued,
        ConfigWrapper.enqueueRow_tracks priced.tracks priced.bounded.priced (fun _ => rfl) (fun _ _ _ => rfl) queued⟩
  | setsPrices prices asked noPrice below =>
      rw [noPrice, Option.map_none, Option.toList_none, List.append_nil]
      exact ⟨bounded, priced.versions, priced.leads, priced.tracks⟩
  | keepsPrices prices asked active | queuesPrices prices queue front asked active => omega
  | schedules version asked noPrice noPrices supported empty newer =>
      have lower : version < 3 := by
        rcases Nat.lt_or_eq_of_le supported with lower | three
        · exact lower
        · exact absurd (asked.trans (congrArg some three)) stays
      rw [noPrice, Option.map_none, Option.toList_none, List.append_nil]
      refine ⟨bounded, fun block reached => ?_, priced.leads, ?_⟩
      · rw [versionIn_scheduled]
        split <;> omega
      · rw [if_neg (Nat.ne_of_lt lower)]
        exact priced.tracks

end Pricing

theorem ConfigWrapper.priceIn_of_leads {wrapper : ConfigWrapper}
    (leads : Leads wrapper.cached.queueFrontBlock wrapper.priceQueue) (block : Nat) :
    wrapper.priceIn block = effective (fun _ price => price) block wrapper.cached.gasPrice wrapper.priceQueue := by
  unfold priceIn
  split
  · rename_i idle
    exact (leads.effective_of_idle idle _).symm
  · rfl

section Handled

variable {host : Host} {world next : World} {view : ChainView} {before after : List Request} {request : Request}
  {rest : List Pending} {holding : Name → Symbol → Nat} {contract : Contract}

theorem Pricing.Accepts.version {pricing after : Pricing} {now : Nat} (accepts : pricing.Accepts now request after) :
    after.genesisTime = pricing.genesisTime ∧ after.version now = pricing.version now := by
  cases accepts with
  | schedules version => exact ⟨rfl, (pricing.versionIn_scheduled now version _ _).trans (if_neg (Nat.lt_irrefl _))⟩
  | _ => exact ⟨rfl, rfl⟩

theorem Handled.reprices_active (active : 1 ≤ world.config.getEvmVersion world.now)
    (handled : Handled host view before after request rest holding contract world) :
    ∃ middle, world.config.pricing.Advanced world.now middle ∧
      middle.genesisTime = world.config.cached.genesisTime ∧
      (world.handled before after request rest holding contract).config.cached.genesisTime =
        world.config.cached.genesisTime ∧
      middle.Accepts world.now request (world.handled before after request rest holding contract).config.pricing := by
  rcases handled.reprices with ⟨unstored, _⟩ | ⟨middle, advanced, accepts⟩
  · simp [← ConfigWrapper.version_pricing, Pricing.version, Pricing.versionIn, World.unversioned unstored,
      ValuePromoter.valueIn] at active
  · have genesis := advanced.versionIn.1
    exact ⟨middle, advanced, genesis, accepts.version.1.trans genesis, accepts⟩

theorem Stepped.version {label : Label} (stepped : Stepped host world label next)
    (changed : next.config.getEvmVersion next.now ≠ world.config.getEvmVersion world.now) :
    ∃ now, world.now ≤ now ∧ next = { world with now := now } := by
  cases stepped with
  | tick now _ later => exact ⟨now, later, rfl⟩
  | submit | passed => exact absurd rfl changed
  | handled view before after request rest holding contract handled =>
      refine absurd ?_ changed
      rw [← ConfigWrapper.version_pricing, ← ConfigWrapper.version_pricing]
      change (world.handled before after request rest holding contract).config.pricing.version world.now = _
      rcases handled.reprices with ⟨unstored, _, _, genesisTime, gasPrice, same⟩ | ⟨middle, advanced, accepts⟩
      · rw [same]
        simp [Pricing.version, Pricing.versionIn, World.unversioned unstored, ValuePromoter.valueIn]
      · exact accepts.version.2.trans advanced.version

theorem ValuePromoter.valueIn_of_changed {α : Type} {promoter : ValuePromoter α} {genesisTime earlier block : Nat}
    (changed : promoter.valueIn genesisTime block ≠ promoter.valueIn genesisTime earlier) (order : earlier ≤ block)
    {later : Nat} (reached : block ≤ later) :
    promoter.valueIn genesisTime later = promoter.valueIn genesisTime block := by
  cases pending : promoter.pendingValue with
  | none => simp [valueIn, pending]
  | some value =>
      simp only [valueIn, pending] at changed ⊢
      by_cases active : timestampToEvmBlockNum genesisTime value.time < block
      · rw [if_pos active, if_pos (active.trans_le reached)]
      · have inactive : ¬ timestampToEvmBlockNum genesisTime value.time < earlier :=
          fun early => active (early.trans_le order)
        rw [if_neg active, if_neg inactive] at changed
        exact absurd rfl changed

theorem ConfigWrapper.headerIn_baseFee {wrapper : ConfigWrapper} {block : Nat} (active : 1 ≤ wrapper.versionIn block)
    (below : wrapper.versionIn block < 3) : (wrapper.headerIn block).baseFeePerGas = some (wrapper.priceIn block) := by
  simp only [headerIn, if_neg (Nat.not_le.mpr below), if_pos active]

theorem Reconfigures.plain_of_ran {env : Env} {wrapper changed : ConfigWrapper} {effects : List Effect}
    {execution : Execution} (reconfigured : Reconfigures env wrapper request changed effects)
    (ran : .ran execution ∈ effects) : request.isSetter = false := by
  cases reconfigured with
  | starts | sets => cases ran
  | swaps _ _ _ _ _ _ _ quiet => cases quiet _ ran
  | updates _ _ _ _ _ _ quiet => cases quiet _ ran
  | transacts _ _ _ _ _ _ _ _ _ plain => exact plain

theorem Handled.header {execution : Execution}
    (handled : Handled host view before after request rest holding contract world)
    (ran : .ran execution ∈ contract.effects) :
    execution.time = world.now ∧ execution.header = world.config.headerIn (world.config.blockNum world.now) := by
  obtain ⟨reconfigured, _⟩ := handled.reconfigures
  have plain := reconfigured.plain_of_ran ran
  rcases reconfigured.sameHeader (by
      rintro caller auths rfl
      cases plain) with ⟨_, silent⟩ | ⟨_, headers⟩
  · exact absurd ran (silent execution)
  · exact (headers execution ran).2

end Handled

/-- How a price follows the journal of its updates: what a request asks for, what an update
does, the invariant that ties the configuration to the journal, and what a header shows. -/
structure Tracker (ν σ : Type) where
  asks : Request → Option ν
  apply : σ → ν → σ
  safe : Pricing → Nat → Request → Bool
  holds : σ → List (Nat × ν) → Pricing → Nat → Prop
  shows : Header → σ → Prop
  active : ∀ {origin journal pricing now}, holds origin journal pricing now → 1 ≤ pricing.version now
  tick : ∀ {origin journal pricing now later}, holds origin journal pricing now → now ≤ later →
    holds origin journal pricing later
  advances : ∀ {origin journal pricing now after}, holds origin journal pricing now → pricing.Advances now after →
    holds origin journal after now
  safe_advances : ∀ {pricing now after request}, safe pricing now request = true → pricing.Advances now after →
    safe after now request = true
  accepts : ∀ {origin journal pricing now request after}, holds origin journal pricing now →
    safe pricing now request = true → pricing.Accepts now request after →
    holds origin (journal ++ ((asks request).map fun value => (pricing.activation now, value)).toList) after now
  shown : ∀ {origin journal now} {wrapper : ConfigWrapper}, holds origin journal wrapper.pricing now →
    shows (wrapper.headerIn (wrapper.blockNum now)) (applied apply (wrapper.blockNum now) origin journal)

namespace Tracker

variable {ν σ : Type} (tracker : Tracker ν σ) {genesisTime : Nat} {origin : σ} {past : List Effect}
  {updates : List (Nat × ν)} {host : Host} {world next : World}

/-- The updates that a request makes, with the time at which it makes them. -/
def notes (world : World) (request : Request) : List (Nat × ν) :=
  ((tracker.asks request).map fun value => (world.now, value)).toList

/-- The requests that leave the price to the updates. -/
def allows (world : World) (request : Request) : Bool := tracker.safe world.config.pricing world.now request

/-- The price follows the updates, and every transaction since some point of the run ran under
what they lead to in its block. -/
structure Follows (genesisTime : Nat) (origin : σ) (past : List Effect) (world : World)
    (updates : List (Nat × ν)) : Prop where
  genesis : world.config.cached.genesisTime = genesisTime
  holds : tracker.holds origin (activations genesisTime updates) world.config.pricing world.now
  ran : ∃ ran, world.history = past ++ ran ∧ ∀ execution, .ran execution ∈ ran → execution.time ≤ world.now ∧
    tracker.shows execution.header (applied tracker.apply (timestampToEvmBlockNum genesisTime execution.time) origin
      (activations genesisTime updates))

theorem applied_notes {time : Nat} (past : time ≤ world.now) (request : Request) :
    applied tracker.apply (timestampToEvmBlockNum genesisTime time) origin
        (activations genesisTime (updates ++ tracker.notes world request)) =
      applied tracker.apply (timestampToEvmBlockNum genesisTime time) origin (activations genesisTime updates) := by
  unfold notes
  cases tracker.asks request with
  | none => simp
  | some value =>
      have early : ¬ ConfigWrapper.activationBlockNum genesisTime world.now ≤
          timestampToEvmBlockNum genesisTime time := by
        have order := timestampToEvmBlockNum_mono genesisTime past
        have later := ConfigWrapper.lt_activationBlockNum genesisTime world.now
        omega
      rw [activations_append]
      exact (applied_announced _ _ _ _ _ _).trans (if_neg early)

variable {tracker}

theorem Follows.handled {view : ChainView} {before after : List Request} {request : Request} {rest : List Pending}
    {holding : Name → Symbol → Nat} {contract : Contract} (follows : tracker.Follows genesisTime origin past world updates)
    (safe : tracker.safe world.config.pricing world.now request = true)
    (handled : Handled host view before after request rest holding contract world) :
    tracker.Follows genesisTime origin past (world.handled before after request rest holding contract)
      (updates ++ tracker.notes world request) := by
  obtain ⟨genesis, holds, ran, history, agreed⟩ := follows
  have active := tracker.active holds
  rw [ConfigWrapper.version_pricing] at active
  obtain ⟨middle, advanced, middleGenesis, genesisAfter, accepts⟩ := handled.reprices_active active
  refine ⟨genesisAfter.trans genesis, ?_, ran ++ contract.effects, ?_, ?_⟩
  · have caughtUp : tracker.holds origin (activations genesisTime updates) middle world.now ∧
        tracker.safe middle world.now request = true := by
      clear middleGenesis accepts
      induction advanced with
      | refl => exact ⟨holds, safe⟩
      | tail _ advances ih => exact ⟨tracker.advances ih.1 advances, tracker.safe_advances ih.2 advances⟩
    have accepted := tracker.accepts caughtUp.1 caughtUp.2 accepts
    have entry : ((tracker.asks request).map fun value => (middle.activation world.now, value)).toList =
        activations genesisTime (tracker.notes world request) := by
      rw [Pricing.activation, middleGenesis, genesis, notes]
      cases tracker.asks request <;> rfl
    rw [entry, ← activations_append] at accepted
    exact accepted
  · rw [← List.append_assoc, ← history]
    rfl
  · intro execution member
    rcases List.mem_append.mp member with old | new
    · obtain ⟨time, agree⟩ := agreed execution old
      rw [tracker.applied_notes time]
      exact ⟨time, agree⟩
    · obtain ⟨time, header⟩ := handled.header new
      rw [tracker.applied_notes (le_of_eq time), time, header]
      have shown := tracker.shown holds
      rw [ConfigWrapper.blockNum, genesis] at shown
      exact ⟨Nat.le_refl _, genesis ▸ shown⟩

theorem Follows.step {label : Label} (follows : tracker.Follows genesisTime origin past world updates)
    (stepped : Stepped host world label next)
    (safe : ∀ view before after request rest holding contract, label = .next view before after →
      Handled host view before after request rest holding contract world →
      tracker.safe world.config.pricing world.now request = true) :
    tracker.Follows genesisTime origin past next (updates ++ entries host tracker.notes world label) := by
  cases stepped with
  | tick now _ later =>
      obtain ⟨genesis, holds, ran, history, agreed⟩ := follows
      rw [entries, List.append_nil]
      exact ⟨genesis, tracker.tick holds later, ran, history, fun execution member =>
        ⟨(agreed execution member).1.trans later, (agreed execution member).2⟩⟩
  | submit =>
      rw [entries, List.append_nil]
      exact ⟨follows.genesis, follows.holds, follows.ran⟩
  | passed view before after sent rest top away =>
      rw [entries_passed tracker.notes top away, List.append_nil]
      exact ⟨follows.genesis, follows.holds, follows.ran⟩
  | handled view before after request rest holding contract handled =>
      rw [entries_handled tracker.notes handled]
      exact follows.handled (safe _ _ _ _ _ _ _ rfl handled) handled

/-- Along a run of safe requests the price follows the updates. -/
theorem run_follows {labels : List Label} {begun : World}
    (start : tracker.holds origin [] begun.config.pricing begun.now)
    (safe : guarded host tracker.allows labels begun = true)
    (finished : run host labels begun = .ok world) :
    tracker.Follows begun.config.cached.genesisTime origin begun.history world
      (noted host tracker.notes labels begun) := by
  have started : tracker.Follows begun.config.cached.genesisTime origin begun.history begun [] :=
    ⟨rfl, start, [], (List.append_nil _).symm, fun _ member => (by cases member)⟩
  exact run_noted tracker.notes (fun world => tracker.Follows begun.config.cached.genesisTime origin begun.history world)
    (fun _ _ _ _ follows stepped safe => follows.step stepped safe) started safe finished

end Tracker

/-- The gas price of versions 1 and 2, as long as version 3 is not scheduled. -/
def gasPriceTracker : Tracker Nat Nat where
  asks := Request.newGasPrice
  apply _ price := price
  safe _ _ request := decide (request.newVersion ≠ some 3)
  holds origin journal pricing now := pricing.Priced now origin journal
  shows header price := header.baseFeePerGas = some price
  active priced := (priced.versions _ (Nat.le_refl _)).1
  tick := Pricing.Priced.tick
  advances := Pricing.Priced.advances
  safe_advances safe _ := safe
  accepts priced safe accepts := priced.accepts (of_decide_eq_true safe) accepts
  shown priced := by
    obtain ⟨active, below⟩ := priced.versions _ (Nat.le_refl _)
    refine (ConfigWrapper.headerIn_baseFee active below).trans (congrArg some ?_)
    rw [ConfigWrapper.priceIn_of_leads priced.leads]
    exact priced.tracks _ (Nat.le_refl _)

theorem Pricing.Priced.begin {host : Host} {world begun : World} {label : Label}
    (bounded : world.config.pricing.Bounded world.now) (unset : world.config.getEvmVersion world.now = 0)
    (stepped : Stepped host world label begun) (active : 1 ≤ begun.config.getEvmVersion begun.now)
    (below : begun.config.getEvmVersion begun.now < 3) :
    begun.config.pricing.Priced begun.now world.config.cached.gasPrice [] := by
  obtain ⟨now, later, rfl⟩ := stepped.version (by omega)
  rw [← ConfigWrapper.version_pricing] at unset active below
  obtain ⟨empty, front⟩ := bounded.calm.unpriced unset
  have none : ∀ row, row ∉ world.config.pricing.priceQueue.rows := by simp [empty]
  refine ⟨bounded.tick later, fun block reached => ?_, ⟨fun _ => empty, fun row member => absurd member (none row)⟩,
    fun block _ => effective_of_later _ _ _ fun row member => absurd member (none row)⟩
  have changed : world.config.pricing.version now ≠ world.config.pricing.version world.now := by
    change 1 ≤ world.config.pricing.version now at active
    omega
  have settled : world.config.pricing.versionIn block = world.config.pricing.version now :=
    ValuePromoter.valueIn_of_changed changed (world.config.pricing.blockNum_mono later) reached
  change 1 ≤ world.config.pricing.versionIn block ∧ world.config.pricing.versionIn block < 3
  rw [settled]
  exact ⟨active, below⟩

/-- In versions 1 and 2, from the step on that ends version 0 and as long as version 3 is not
scheduled, a transaction pays the gas price of the last accepted update whose activation block
is at most its own, or the one in force at the end of version 0; and the update it pays was
accepted more than 180 seconds earlier. -/
theorem run_gasPrice_scheduled (host : Host) (holding : Name → Symbol → Nat) (before : List Label) (opening : World)
    (reached : run host before (World.start holding) = .ok opening)
    (unset : opening.config.getEvmVersion opening.now = 0) (label : Label) (begun : World)
    (begins : step host opening label = .ok begun) (active : 1 ≤ begun.config.getEvmVersion begun.now)
    (below : begun.config.getEvmVersion begun.now < 3) (labels : List Label) (world : World)
    (stays : guarded host gasPriceTracker.allows labels begun = true) (finished : run host labels begun = .ok world) :
    (1 ≤ world.config.getEvmVersion world.now ∧ world.config.getEvmVersion world.now < 3) ∧
      ∃ ran, world.history = begun.history ++ ran ∧ ∀ execution, .ran execution ∈ ran →
        execution.baseFeePerGas = some (lastUpdate world.config.cached.genesisTime
          (noted host gasPriceTracker.notes labels begun) opening.config.cached.gasPrice
          (timestampToEvmBlockNum world.config.cached.genesisTime execution.time)) ∧
        ∀ update ∈ noted host gasPriceTracker.notes labels begun,
          ConfigWrapper.activationBlockNum world.config.cached.genesisTime update.1 ≤
            timestampToEvmBlockNum world.config.cached.genesisTime execution.time →
          update.1 + 180 * 1000000 < execution.time := by
  have start := Pricing.Priced.begin (run_bounded reached) unset (step_ok begins) active below
  obtain ⟨genesis, priced, ran, history, agreed⟩ := gasPriceTracker.run_follows start stays finished
  rw [← ConfigWrapper.version_pricing, genesis]
  refine ⟨priced.versions _ (Nat.le_refl _), ran, history, fun execution member => ⟨?_, ?_⟩⟩
  · exact (agreed execution member).2.trans (congrArg some (applied_eq_lastUpdate _ _ _ _))
  · exact fun update _ early => lt_of_activation_le early

/-- The transactions of a history. -/
def executions (history : List Effect) : List Execution :=
  history.filterMap fun effect => match effect with
    | .ran execution => some execution
    | .sent _ => none

def Ledger.repriced : List Label :=
  Ledger.act Ledger.self (.setfeeparams ⟨some 160000000000, none, none⟩) 0 ++
    Ledger.act Ledger.self (.setfeeparams ⟨some 170000000000, none, none⟩) 0 ++
    Ledger.act Ledger.alice (Ledger.callNothing Ledger.alice 21000) 1 ++ Ledger.later 201 ++
    Ledger.act Ledger.alice (Ledger.callNothing Ledger.alice 21000) 1

def Ledger.requestedOne : List Label :=
  Ledger.opening ++ Ledger.pay Ledger.alice 1000000 "alice" 0 ++ Ledger.act Ledger.self (.setversion 1) 0

theorem run_gasPrice_scheduled_repriced :
    ∃ opening begun world, run Ledger.host Ledger.requestedOne (World.start fun _ _ => 0) = .ok opening ∧
      step Ledger.host opening (.tick 1001000000) = .ok begun ∧ run Ledger.host Ledger.repriced begun = .ok world ∧
      (executions world.history).map Execution.baseFeePerGas = [some 150000000000, some 170000000000] ∧
      noted Ledger.host gasPriceTracker.notes Ledger.repriced begun =
        [(1001000000, 160000000000), (1001000000, 170000000000)] ∧
      ∃ ran, world.history = begun.history ++ ran ∧ ∀ execution, .ran execution ∈ ran →
        execution.baseFeePerGas = some (lastUpdate world.config.cached.genesisTime
          (noted Ledger.host gasPriceTracker.notes Ledger.repriced begun) opening.config.cached.gasPrice
          (timestampToEvmBlockNum world.config.cached.genesisTime execution.time)) := by
  obtain ⟨opening, reached, seen⟩ := exists_of_view (run Ledger.host Ledger.requestedOne (World.start fun _ _ => 0))
    (fun opening => decide (opening.config.getEvmVersion opening.now = 0 ∧
      (step Ledger.host opening (.tick 1001000000)).toOption.map (fun begun => decide (
        begun.config.getEvmVersion begun.now = 1 ∧ guarded Ledger.host gasPriceTracker.allows Ledger.repriced begun = true ∧
        noted Ledger.host gasPriceTracker.notes Ledger.repriced begun =
          [(1001000000, 160000000000), (1001000000, 170000000000)] ∧
        (run Ledger.host Ledger.repriced begun).toOption.map
            (fun world => (executions world.history).map Execution.baseFeePerGas) =
          some [some 150000000000, some 170000000000])) = some true)) true (by decide +kernel)
  obtain ⟨unset, later⟩ := of_decide_eq_true seen
  obtain ⟨begun, begins, seen⟩ := exists_of_view _ _ _ later
  obtain ⟨version, stays, updates, later⟩ := of_decide_eq_true seen
  obtain ⟨world, finished, fees⟩ := exists_of_view _ _ _ later
  obtain ⟨_, ran, history, agreed⟩ := run_gasPrice_scheduled Ledger.host _ _ opening reached unset _ begun begins
    (by omega) (by omega) _ world stays finished
  exact ⟨opening, begun, world, reached, begins, finished, fees, updates, ran, history,
    fun execution member => (agreed execution member).1⟩

end EosEvm

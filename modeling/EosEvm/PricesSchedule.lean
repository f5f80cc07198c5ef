import EosEvm.PriceSchedule

/-! The overhead and storage prices of version 3. An update may specify one of the two
prices or both. An update queued for the block of the one before replaces it as a whole, so
that a price which only the earlier update specifies is lost. -/

namespace EosEvm

open Abort Schedule

namespace GasPrices

def covers (prices others : GasPrices) : Bool :=
  (others.overheadPrice.isNone || prices.overheadPrice.isSome) &&
    (others.storagePrice.isNone || prices.storagePrice.isSome)

theorem updated_covered {prices others : GasPrices} (covered : prices.covers others = true) (start : GasPrices) :
    (start.updated others).updated prices = start.updated prices := by
  obtain ⟨overhead, storage⟩ := prices
  obtain ⟨otherOverhead, otherStorage⟩ := others
  simp only [covers, Bool.and_eq_true] at covered
  simp only [updated, mk.injEq]
  refine ⟨?_, ?_⟩
  · cases overhead <;> cases otherOverhead <;> simp_all
  · cases storage <;> cases otherStorage <;> simp_all

theorem covers_self (prices : GasPrices) : prices.covers prices = true := by
  obtain ⟨overhead, storage⟩ := prices
  cases overhead <;> cases storage <;> rfl

def fitsAfter (prices : GasPrices) (activation : Nat) (last : Option (Nat × GasPrices)) : Bool :=
  last.all fun row => decide (row.1 = activation → prices.covers row.2 = true)

theorem fitsAfter_same {prices others : GasPrices} {activation : Nat}
    (fits : prices.fitsAfter activation (some (activation, others)) = true) : prices.covers others = true :=
  of_decide_eq_true fits rfl

end GasPrices

theorem ConfigWrapper.Drained.last? {ν : Type} {block front frontAfter : Nat} {queue after : Table Nat ν}
    {row : Nat × ν} (drained : Drained block queue after front frontAfter) (last : after.last? = some row) :
    queue.last? = some row := by
  rw [drained.queue] at last
  have split := Table.rows_split queue block
  rw [Table.last?, split, List.getLast?_append]
  change (later block queue).rows.getLast?.or _ = some row
  have found : (later block queue).rows.getLast? = some row := last
  rw [found]
  rfl

namespace Pricing

variable {pricing middle after : Pricing} {now : Nat} {request : Request}

def keepsFields (pricing : Pricing) (now : Nat) (request : Request) : Bool :=
  request.newGasPrices.all fun prices => prices.fitsAfter (pricing.activation now) pricing.pricesQueue.last?

theorem keepsFields_advances (keeps : pricing.keepsFields now request = true) (advances : pricing.Advances now after) :
    after.keepsFields now request = true := by
  cases advances with
  | promotes | takesPrice => exact keeps
  | takesPrices front queue active waiting reached drained =>
      unfold keepsFields at keeps ⊢
      cases asked : request.newGasPrices with
      | none => rfl
      | some prices =>
          rw [asked] at keeps
          simp only [Option.all_some] at keeps ⊢
          cases last : queue.last? with
          | none => rfl
          | some row =>
              rw [drained.last? last] at keeps
              exact keeps

theorem covers_of_keepsFields {prices others : GasPrices} (keeps : pricing.keepsFields now request = true)
    (asked : request.newGasPrices = some prices)
    (last : pricing.pricesQueue.last? = some (pricing.activation now, others)) : prices.covers others = true := by
  rw [keepsFields, asked, last, Option.all_some] at keeps
  exact GasPrices.fitsAfter_same keeps

/-- From version 3 on, the overhead and storage prices follow the journal. -/
structure Listed (pricing : Pricing) (now : Nat) (origin : GasPrices) (journal : List (Nat × GasPrices)) : Prop where
  bounded : pricing.Bounded now
  active : 3 ≤ pricing.version now
  leads : ConfigWrapper.Leads pricing.front pricing.pricesQueue
  tracks : Tracks GasPrices.updated (pricing.blockNum now) pricing.gasPrices pricing.pricesQueue origin journal

variable {origin : GasPrices} {journal : List (Nat × GasPrices)}

theorem Listed.tick {later : Nat} (listed : pricing.Listed now origin journal) (order : now ≤ later) :
    pricing.Listed later origin journal where
  bounded := listed.bounded.tick order
  active := listed.active.trans (listed.bounded.calm.version_mono order)
  leads := listed.leads
  tracks := listed.tracks.mono (pricing.blockNum_mono order)

theorem Listed.advances (listed : pricing.Listed now origin journal) (advances : pricing.Advances now after) :
    after.Listed now origin journal := by
  have bounded := listed.bounded.advances advances
  have active : 3 ≤ after.version now := le_of_le_of_eq listed.active advances.version.symm
  cases advances with
  | promotes => exact ⟨bounded, active, listed.leads, listed.tracks⟩
  | takesPrice front queue _ below => exact absurd listed.active (Nat.not_le.mpr below)
  | takesPrices front queue _ waiting reached drained =>
      refine ⟨bounded, active, listed.leads.drained listed.bounded.listed drained, ?_⟩
      have drain := listed.tracks.drain
      rw [← drained.queue] at drain
      exact drain

theorem Listed.accepts (listed : pricing.Listed now origin journal) (keeps : pricing.keepsFields now request = true)
    (accepts : pricing.Accepts now request after) :
    after.Listed now origin
      (journal ++ (request.newGasPrices.map fun prices => (pricing.activation now, prices)).toList) := by
  have bounded := listed.bounded.accepts accepts
  have active := listed.active
  cases accepts with
  | rests noPrice noPrices noVersion =>
      rw [noPrices, Option.map_none, Option.toList_none, List.append_nil]
      exact listed
  | setsPrice | keepsPrice | queuesPrice | setsPrices => omega
  | keepsPrices prices asked _ idle same =>
      rw [asked]
      exact ⟨bounded, active, listed.leads, listed.tracks.keep_current (listed.leads.empty idle) same⟩
  | queuesPrices prices queue front asked _ queued =>
      rw [asked]
      refine ⟨bounded, active, listed.leads.enqueueRow listed.bounded.front (pricing.activation_pos now) queued, ?_⟩
      refine ConfigWrapper.enqueueRow_tracks listed.tracks listed.bounded.listed
        (GasPrices.updated_covered prices.covers_self) (fun last found => GasPrices.updated_covered ?_) queued
      exact covers_of_keepsFields keeps asked found
  | schedules version asked noPrice noPrices supported empty newer =>
      have three : version ≤ 3 := supported
      omega

end Pricing

theorem ConfigWrapper.pricesIn_of_leads {wrapper : ConfigWrapper}
    (leads : Leads wrapper.cached.queueFrontBlock wrapper.pricesQueue) (block : Nat) :
    wrapper.pricesIn block = effective GasPrices.updated block wrapper.cached.gasPrices wrapper.pricesQueue := by
  unfold pricesIn
  split
  · rename_i idle
    exact (leads.effective_of_idle idle _).symm
  · rfl

theorem ConfigWrapper.headerIn_prices {wrapper : ConfigWrapper} {block : Nat} (active : 3 ≤ wrapper.versionIn block) :
    (wrapper.headerIn block).prices = some ((wrapper.pricesIn block).overheadPrice.getD 0,
      (wrapper.pricesIn block).storagePrice.getD 0) := by
  simp only [headerIn, if_pos active]

/-- The overhead and storage prices of version 3, as long as no prices are queued for the block of
queued ones of which they omit a field. -/
def gasPricesTracker : Tracker GasPrices GasPrices where
  asks := Request.newGasPrices
  apply := GasPrices.updated
  safe := Pricing.keepsFields
  holds origin journal pricing now := pricing.Listed now origin journal
  shows header prices := header.prices = some (prices.overheadPrice.getD 0, prices.storagePrice.getD 0)
  active listed := (by decide : 1 ≤ 3).trans listed.active
  tick := Pricing.Listed.tick
  advances := Pricing.Listed.advances
  safe_advances := Pricing.keepsFields_advances
  accepts := Pricing.Listed.accepts
  shown listed := by
    refine (ConfigWrapper.headerIn_prices listed.active).trans ?_
    rw [ConfigWrapper.pricesIn_of_leads listed.leads]
    exact congrArg (fun prices : GasPrices => some (prices.overheadPrice.getD 0, prices.storagePrice.getD 0))
      (listed.tracks _ (Nat.le_refl _))

/-- The updates that specify a field. -/
def specified (field : GasPrices → Option Nat) (updates : List (Nat × GasPrices)) : List (Nat × Nat) :=
  updates.filterMap fun update => (field update.2).map fun price => (update.1, price)

theorem applied_field {field : GasPrices → Option Nat}
    (replaces : ∀ prices update : GasPrices, field (prices.updated update) = (field update).or (field prices))
    (genesisTime : Nat) (updates : List (Nat × GasPrices)) (start : GasPrices) (block : Nat) :
    (field (applied GasPrices.updated block start (activations genesisTime updates))).getD 0 =
      lastUpdate genesisTime (specified field updates) ((field start).getD 0) block := by
  induction updates using List.reverseRecOn with
  | nil => rfl
  | append_singleton updates update ih =>
      have announced : applied GasPrices.updated block start (activations genesisTime (updates ++ [update])) =
          if ConfigWrapper.activationBlockNum genesisTime update.1 ≤ block then
            (applied GasPrices.updated block start (activations genesisTime updates)).updated update.2
          else applied GasPrices.updated block start (activations genesisTime updates) := by
        rw [activations_append]
        exact applied_announced _ _ _ _ _ _
      rw [announced]
      cases found : field update.2 with
      | none =>
          have same : specified field (updates ++ [update]) = specified field updates := by
            simp [specified, List.filterMap_append, found]
          rw [same, ← ih]
          split
          · rw [replaces, found, Option.none_or]
          · rfl
      | some price =>
          have more : specified field (updates ++ [update]) = specified field updates ++ [(update.1, price)] := by
            simp [specified, List.filterMap_append, found]
          rw [more, lastUpdate_append, ← ih]
          split
          · rw [replaces, found, Option.some_or, Option.getD_some]
          · rfl

theorem Pricing.Listed.begin {host : Host} {world begun : World} {label : Label}
    (bounded : world.config.pricing.Bounded world.now) (below : world.config.getEvmVersion world.now < 3)
    (stepped : Stepped host world label begun) (active : 3 ≤ begun.config.getEvmVersion begun.now) :
    begun.config.pricing.Listed begun.now world.config.cached.gasPrices [] := by
  obtain ⟨now, later, rfl⟩ := stepped.version (by omega)
  rw [← ConfigWrapper.version_pricing] at below active
  have empty := bounded.calm.unlisted below
  have none : ∀ row, row ∉ world.config.pricing.pricesQueue.rows := by simp [empty]
  exact ⟨bounded.tick later, active, ⟨fun _ => empty, fun row member => absurd member (none row)⟩,
    fun block _ => effective_of_later _ _ _ fun row member => absurd member (none row)⟩

/-- In version 3, from the step on with which it takes effect, the overhead price of a
transaction is that of the last accepted update that specifies it and whose activation block
is at most that of the transaction, or the one in force when version 3 took effect, and so is
the storage price; if no update is queued for the block of one whose fields it omits. -/
theorem run_gasPrices_scheduled (host : Host) (holding : Name → Symbol → Nat) (before : List Label) (opening : World)
    (reached : run host before (World.start holding) = .ok opening)
    (below : opening.config.getEvmVersion opening.now < 3) (label : Label) (begun : World)
    (begins : step host opening label = .ok begun) (active : 3 ≤ begun.config.getEvmVersion begun.now)
    (labels : List Label) (world : World) (keeps : guarded host gasPricesTracker.allows labels begun = true)
    (finished : run host labels begun = .ok world) :
    3 ≤ world.config.getEvmVersion world.now ∧
      ∃ ran, world.history = begun.history ++ ran ∧ ∀ execution, .ran execution ∈ ran →
        execution.overheadPrice = lastUpdate world.config.cached.genesisTime
          (specified GasPrices.overheadPrice (noted host gasPricesTracker.notes labels begun))
          (opening.config.cached.gasPrices.overheadPrice.getD 0)
          (timestampToEvmBlockNum world.config.cached.genesisTime execution.time) ∧
        execution.storagePrice = lastUpdate world.config.cached.genesisTime
          (specified GasPrices.storagePrice (noted host gasPricesTracker.notes labels begun))
          (opening.config.cached.gasPrices.storagePrice.getD 0)
          (timestampToEvmBlockNum world.config.cached.genesisTime execution.time) := by
  have start := Pricing.Listed.begin (run_bounded reached) below (step_ok begins) active
  obtain ⟨genesis, listed, ran, history, agreed⟩ := gasPricesTracker.run_follows start keeps finished
  rw [← ConfigWrapper.version_pricing, genesis]
  refine ⟨listed.active, ran, history, fun execution member => ?_⟩
  have shown : execution.header.prices = some _ := (agreed execution member).2
  simp only [Execution.header] at shown
  split at shown
  · obtain ⟨overhead, storage⟩ := Prod.mk.inj (Option.some.inj shown)
    exact ⟨overhead.trans (applied_field (fun _ _ => rfl) _ _ _ _),
      storage.trans (applied_field (fun _ _ => rfl) _ _ _ _)⟩
  · cases shown

def Ledger.requestedThree : List Label :=
  Ledger.opening ++ Ledger.pay Ledger.alice 1000000 "alice" 0 ++
    Ledger.act Ledger.self (.setgasprices ⟨some 100, some 100⟩) 0 ++ Ledger.act Ledger.self (.setversion 3) 0

def Ledger.callLater : List Label :=
  Ledger.later 201 ++ Ledger.act Ledger.alice (Ledger.callNothing Ledger.alice 21000) 1

def Ledger.partialUpdates : List Label :=
  Ledger.act Ledger.self (.setgasprices ⟨some 200, none⟩) 0 ++
    Ledger.act Ledger.self (.setgasprices ⟨none, some 300⟩) 0 ++ Ledger.callLater

theorem mem_executions {history : List Effect} {execution : Execution} (member : execution ∈ executions history) :
    .ran execution ∈ history := by
  obtain ⟨effect, inside, same⟩ := List.mem_filterMap.mp member
  cases effect with
  | ran other => exact Option.some.inj same ▸ inside
  | sent action => cases same

/-- The overhead price of the first update is lost. -/
theorem partialUpdates_loseOverhead :
    ∃ opening begun world execution, run Ledger.host Ledger.requestedThree (World.start fun _ _ => 0) = .ok opening ∧
      opening.config.getEvmVersion opening.now < 3 ∧ step Ledger.host opening (.tick 1001000000) = .ok begun ∧
      begun.config.getEvmVersion begun.now = 3 ∧ run Ledger.host Ledger.partialUpdates begun = .ok world ∧
      .ran execution ∈ world.history ∧ execution.version = 3 ∧ execution.overheadPrice = 100 ∧
      lastUpdate world.config.cached.genesisTime
        (specified GasPrices.overheadPrice (noted Ledger.host gasPricesTracker.notes Ledger.partialUpdates begun))
        (opening.config.cached.gasPrices.overheadPrice.getD 0)
        (timestampToEvmBlockNum world.config.cached.genesisTime execution.time) = 200 := by
  obtain ⟨opening, reached, seen⟩ := exists_of_view (run Ledger.host Ledger.requestedThree (World.start fun _ _ => 0))
    (fun opening => decide (opening.config.getEvmVersion opening.now < 3 ∧
      (step Ledger.host opening (.tick 1001000000)).toOption.map (fun begun => decide (
        begun.config.getEvmVersion begun.now = 3 ∧
        (run Ledger.host Ledger.partialUpdates begun).toOption.map (fun world : World => decide (
          ∃ execution ∈ executions world.history, execution.version = 3 ∧ execution.overheadPrice = 100 ∧
            lastUpdate world.config.cached.genesisTime
              (specified GasPrices.overheadPrice (noted Ledger.host gasPricesTracker.notes Ledger.partialUpdates begun))
              (opening.config.cached.gasPrices.overheadPrice.getD 0)
              (timestampToEvmBlockNum world.config.cached.genesisTime execution.time) = 200)) = some true)) =
        some true)) true (by decide +kernel)
  obtain ⟨below, later⟩ := of_decide_eq_true seen
  obtain ⟨begun, begins, seen⟩ := exists_of_view _ _ _ later
  obtain ⟨version, later⟩ := of_decide_eq_true seen
  obtain ⟨world, finished, seen⟩ := exists_of_view _ _ _ later
  obtain ⟨execution, member, facts⟩ := of_decide_eq_true seen
  exact ⟨opening, begun, world, execution, reached, below, begins, version, finished, mem_executions member, facts⟩

def Ledger.separateUpdates : List Label :=
  Ledger.act Ledger.self (.setgasprices ⟨some 200, none⟩) 0 ++ Ledger.later 2 ++
    Ledger.act Ledger.self (.setgasprices ⟨none, some 300⟩) 0 ++ Ledger.callLater

theorem run_gasPrices_scheduled_separate :
    ∃ opening begun world, run Ledger.host Ledger.requestedThree (World.start fun _ _ => 0) = .ok opening ∧
      step Ledger.host opening (.tick 1001000000) = .ok begun ∧
      run Ledger.host Ledger.separateUpdates begun = .ok world ∧
      (executions world.history).map (fun execution => (execution.overheadPrice, execution.storagePrice)) =
        [(200, 300)] ∧
      ∃ ran, world.history = begun.history ++ ran ∧ ∀ execution, .ran execution ∈ ran →
        execution.overheadPrice = lastUpdate world.config.cached.genesisTime
          (specified GasPrices.overheadPrice (noted Ledger.host gasPricesTracker.notes Ledger.separateUpdates begun))
          (opening.config.cached.gasPrices.overheadPrice.getD 0)
          (timestampToEvmBlockNum world.config.cached.genesisTime execution.time) := by
  obtain ⟨opening, reached, seen⟩ := exists_of_view (run Ledger.host Ledger.requestedThree (World.start fun _ _ => 0))
    (fun opening => decide (opening.config.getEvmVersion opening.now < 3 ∧
      (step Ledger.host opening (.tick 1001000000)).toOption.map (fun begun => decide (
        begun.config.getEvmVersion begun.now = 3 ∧
        guarded Ledger.host gasPricesTracker.allows Ledger.separateUpdates begun = true ∧
        (run Ledger.host Ledger.separateUpdates begun).toOption.map (fun world => (executions world.history).map
          fun execution => (execution.overheadPrice, execution.storagePrice)) = some [(200, 300)])) =
        some true)) true (by decide +kernel)
  obtain ⟨below, later⟩ := of_decide_eq_true seen
  obtain ⟨begun, begins, seen⟩ := exists_of_view _ _ _ later
  obtain ⟨version, keeps, later⟩ := of_decide_eq_true seen
  obtain ⟨world, finished, paid⟩ := exists_of_view _ _ _ later
  obtain ⟨_, ran, history, agreed⟩ := run_gasPrices_scheduled Ledger.host _ _ opening reached below _ begun begins
    (by omega) _ world keeps finished
  exact ⟨opening, begun, world, reached, begins, finished, paid, ran, history,
    fun execution member => (agreed execution member).1⟩

end EosEvm

import EosEvm.Repricing

/-! The cached front of the price queues. One field of the configuration fronts two tables;
which one is meant depends on the version in effect, which changes with time alone. The
front is exact as long as no price is queued while version 3 is pending. -/

namespace EosEvm

open Abort Schedule

namespace ConfigWrapper

variable {ν : Type} {queue after : Table Nat ν} {limit front activation : Nat} {value : ν} {newFront : Option Nat}

def Waits (limit : Nat) (queue : Table Nat ν) : Prop := ∀ row ∈ queue.rows, 0 < row.1 ∧ row.1 ≤ limit

theorem frontOf_of_empty (empty : queue.rows = []) : frontOf queue = 0 := by
  simp [frontOf, Table.first?, empty]

theorem frontOf_of_head {row : Nat × ν} {rest : List (Nat × ν)} (rows : queue.rows = row :: rest) :
    frontOf queue = row.1 := by
  simp [frontOf, Table.first?, rows]

theorem Waits.frontOf_eq_zero (waits : Waits limit queue) : frontOf queue = 0 ↔ queue.rows = [] := by
  refine ⟨fun zero => ?_, frontOf_of_empty⟩
  cases rows : queue.rows with
  | nil => rfl
  | cons row rest =>
      have positive := (waits row (rows ▸ List.mem_cons_self ..)).1
      rw [frontOf_of_head rows] at zero
      omega

theorem frontOf_le {row : Nat × ν} (member : row ∈ queue.rows) : frontOf queue ≤ row.1 := by
  have sorted := queue.sorted
  cases rows : queue.rows with
  | nil =>
      rw [rows] at member
      cases member
  | cons first rest =>
      rw [rows] at member sorted
      rw [frontOf_of_head rows]
      rcases List.mem_cons.mp member with rfl | later
      · exact Nat.le_refl _
      · exact Nat.le_of_lt ((List.pairwise_cons.mp sorted).1 row later)

/-- The front is 0 for an empty queue and otherwise its first block. -/
structure Exact (limit front : Nat) (blocks : List Nat) : Prop where
  empty : front = 0 ↔ blocks = []
  first : blocks ≠ [] → front ∈ blocks ∧ ∀ block ∈ blocks, front ≤ block
  bounded : ∀ block ∈ blocks, block ≤ limit

theorem Waits.exact (waits : Waits limit queue) (same : front = frontOf queue) :
    Exact limit front (queue.rows.map Prod.fst) := by
  subst same
  refine ⟨waits.frontOf_eq_zero.trans List.map_eq_nil_iff.symm, fun filled => ⟨?_, ?_⟩, ?_⟩
  · obtain ⟨row, rest, rows⟩ := List.exists_cons_of_ne_nil (mt List.map_eq_nil_iff.mpr filled)
    rw [frontOf_of_head rows, rows]
    exact List.mem_cons_self ..
  · intro block member
    obtain ⟨row, inside, rfl⟩ := List.mem_map.mp member
    exact frontOf_le inside
  · intro block member
    obtain ⟨row, inside, rfl⟩ := List.mem_map.mp member
    exact (waits row inside).2

theorem Drained.frontOf {block frontAfter : Nat} (exact : front = ConfigWrapper.frontOf queue)
    (drained : Drained block queue after front frontAfter) : frontAfter = ConfigWrapper.frontOf after := by
  rw [drained.front]
  split
  · rename_i none
    have kept : after = queue := by
      rw [drained.queue]
      refine later_of_early fun row member => ?_
      by_contra early
      have inside : row ∈ (due block queue).rows :=
        List.mem_filter.mpr ⟨member, by simpa using not_lt.mp early⟩
      rw [none] at inside
      cases inside
    rw [exact, kept]
  · rfl

theorem Waits.drained {block frontAfter : Nat} (waits : Waits limit queue)
    (drained : Drained block queue after front frontAfter) : Waits limit after := by
  rw [drained.queue]
  exact fun row member => waits row (List.mem_filter.mp member).1

theorem Drained.front_le {block frontAfter : Nat} (drained : Drained block queue after front frontAfter)
    (waits : Waits limit queue) (bounded : front ≤ limit) : frontAfter ≤ limit := by
  rw [drained.front]
  split
  · exact bounded
  · cases rows : after.rows with
    | nil =>
        rw [frontOf_of_empty rows]
        exact Nat.zero_le _
    | cons row rest =>
        rw [frontOf_of_head rows]
        exact (waits.drained drained row (rows ▸ List.mem_cons_self ..)).2

theorem Waits.mono {higher : Nat} (waits : Waits limit queue) (order : limit ≤ higher) : Waits higher queue :=
  fun row member => ⟨(waits row member).1, (waits row member).2.trans order⟩

theorem mem_modify {key : Nat} {change : ν → ν} {row : Nat × ν} (member : row ∈ (queue.modify key change).rows) :
    row.1 ∈ queue.rows.map Prod.fst := by
  obtain ⟨original, inside, rfl⟩ := List.mem_map.mp member
  refine List.mem_map.mpr ⟨original, inside, ?_⟩
  split <;> rfl

theorem frontOf_modify (key : Nat) (change : ν → ν) : frontOf (queue.modify key change) = frontOf queue := by
  simp only [frontOf, Table.first?, Table.modify]
  cases queue.rows with
  | nil => rfl
  | cons row rest =>
      simp only [List.map_cons, List.head?_cons]
      split <;> rfl

variable [DecidableEq ν]

theorem enqueueRow_frontOf (exact : front = frontOf queue) (waits : Waits limit queue)
    (queued : enqueueRow queue front activation value = .ok (after, newFront)) :
    newFront.getD front = frontOf after := by
  rcases enqueueRow_ok queued with ⟨_, _, rfl, rfl⟩ | ⟨_, _, _, rfl, rfl⟩ | ⟨last, rfl, rfl⟩
  · exact exact
  · exact exact.trans (frontOf_modify _ _).symm
  · have rows := Table.rows_put_last queue activation value last
    split
    · rename_i zero
      rw [waits.frontOf_eq_zero.mp (exact ▸ zero)] at rows
      exact (frontOf_of_head rows).symm
    · rename_i waiting
      cases kept : queue.rows with
      | nil => exact absurd (exact.trans (frontOf_of_empty kept)) waiting
      | cons row rest =>
          rw [kept] at rows
          exact exact.trans ((frontOf_of_head kept).trans (frontOf_of_head rows).symm)

theorem Waits.enqueueRow (waits : Waits activation queue) (positive : 0 < activation)
    (queued : enqueueRow queue front activation value = .ok (after, newFront)) : Waits activation after := by
  rcases enqueueRow_ok queued with ⟨_, _, rfl, rfl⟩ | ⟨_, _, _, rfl, rfl⟩ | ⟨last, rfl, rfl⟩
  · exact waits
  · intro row member
    obtain ⟨original, inside, same⟩ := List.mem_map.mp (mem_modify member)
    exact same ▸ waits original inside
  · intro row member
    rw [Table.rows_put_last queue activation value last] at member
    rcases List.mem_append.mp member with old | new
    · exact waits row old
    · rw [List.mem_singleton.mp new]
      exact ⟨positive, Nat.le_refl _⟩

theorem enqueueRow_front_le (bounded : front ≤ activation)
    (queued : enqueueRow queue front activation value = .ok (after, newFront)) : newFront.getD front ≤ activation := by
  rcases enqueueRow_ok queued with ⟨_, _, rfl, rfl⟩ | ⟨_, _, _, rfl, rfl⟩ | ⟨_, rfl, rfl⟩
  · exact bounded
  · exact bounded
  · split
    · exact Nat.le_refl _
    · exact bounded

theorem Waits.noInternalError (waits : Waits activation queue) (front : Nat) (value : ν) :
    ConfigWrapper.enqueueRow queue front activation value ≠ .error "internal error" := by
  have inserts : ∀ front, (do
      let queue ← queue.emplace activation value
      return (queue, front) : Outcome (Table Nat ν × Option Nat)) ≠ .error "internal error" := by
    intro front
    by_cases absent : queue.get? activation = none
    · simp [Table.emplace, check, absent, bind, Except.bind, pure, Except.pure]
    · simp [Table.emplace, check, absent, bind, Except.bind]
  simp only [ConfigWrapper.enqueueRow]
  split
  · rename_i block last found
    split
    · simp
    · have bound := (waits _ (List.mem_of_getLast? found)).2
      rw [(check_ok _ _ ()).mpr bound, ok_bind]
      split
      · simp [pure, Except.pure]
      · exact inserts _
  · exact inserts _

theorem enqueue_noInternalError (waits : Waits activation queue) (front : Nat) (value : ν)
    (next : Table Nat ν × Option Nat → ConfigWrapper) :
    (ConfigWrapper.enqueueRow queue front activation value >>= fun queued => pure (next queued) :
      Outcome ConfigWrapper) ≠ .error "internal error" := by
  intro failed
  cases queued : ConfigWrapper.enqueueRow queue front activation value with
  | ok result =>
      rw [queued] at failed
      cases failed
  | error message =>
      rw [queued] at failed
      cases failed
      exact waits.noInternalError front value queued

theorem Waits.enqueueGasPrice {wrapper : ConfigWrapper} {now : Nat}
    (waits : Waits (wrapper.pricing.activation now) wrapper.priceQueue) (price : Nat) :
    wrapper.enqueueGasPrice price now ≠ .error "internal error" := by
  unfold ConfigWrapper.enqueueGasPrice
  split
  · simp
  · exact enqueue_noInternalError waits _ _ _

theorem Waits.enqueueGasPrices {wrapper : ConfigWrapper} {now : Nat}
    (waits : Waits (wrapper.pricing.activation now) wrapper.pricesQueue) (prices : GasPrices) :
    wrapper.enqueueGasPrices prices now ≠ .error "internal error" := by
  unfold ConfigWrapper.enqueueGasPrices
  split
  · simp
  · exact enqueue_noInternalError waits _ _ _

end ConfigWrapper

namespace Pricing

variable {pricing middle after : Pricing} {now : Nat} {request : Request}

/-- Neither the front nor a queued row is later than a change made now. -/
structure Bounded (pricing : Pricing) (now : Nat) : Prop where
  calm : pricing.Calm now
  front : pricing.front ≤ pricing.activation now
  priced : ConfigWrapper.Waits (pricing.activation now) pricing.priceQueue
  listed : ConfigWrapper.Waits (pricing.activation now) pricing.pricesQueue

theorem activation_mono (pricing : Pricing) {later : Nat} (order : now ≤ later) :
    pricing.activation now ≤ pricing.activation later :=
  Nat.succ_le_succ (timestampToEvmBlockNum_mono _ (Nat.add_le_add_right order _))

theorem activation_pos (pricing : Pricing) (now : Nat) : 0 < pricing.activation now := Nat.succ_pos _

theorem Bounded.tick {later : Nat} (bounded : pricing.Bounded now) (order : now ≤ later) : pricing.Bounded later where
  calm := bounded.calm.tick order
  front := bounded.front.trans (pricing.activation_mono order)
  priced := bounded.priced.mono (pricing.activation_mono order)
  listed := bounded.listed.mono (pricing.activation_mono order)

theorem Bounded.advances (bounded : pricing.Bounded now) (advances : pricing.Advances now after) :
    after.Bounded now := by
  have calm := bounded.calm.advances advances
  cases advances with
  | promotes => exact ⟨calm, bounded.front, bounded.priced, bounded.listed⟩
  | takesPrice front queue active below waiting reached drained =>
      exact ⟨calm, drained.front_le bounded.priced bounded.front, bounded.priced.drained drained, bounded.listed⟩
  | takesPrices front queue active waiting reached drained =>
      exact ⟨calm, drained.front_le bounded.listed bounded.front, bounded.priced, bounded.listed.drained drained⟩

theorem Bounded.accepts (bounded : pricing.Bounded now) (accepts : pricing.Accepts now request after) :
    after.Bounded now := by
  have calm := bounded.calm.accepts accepts
  have positive := pricing.activation_pos now
  cases accepts with
  | rests | keepsPrice | keepsPrices => exact bounded
  | setsPrice | setsPrices | schedules => exact ⟨calm, bounded.front, bounded.priced, bounded.listed⟩
  | queuesPrice price queue front asked active below changes queued =>
      exact ⟨calm, ConfigWrapper.enqueueRow_front_le bounded.front queued, bounded.priced.enqueueRow positive queued,
        bounded.listed⟩
  | queuesPrices prices queue front asked active queued =>
      exact ⟨calm, ConfigWrapper.enqueueRow_front_le bounded.front queued, bounded.priced,
        bounded.listed.enqueueRow positive queued⟩

theorem Advanced.bounded (advanced : pricing.Advanced now middle) (bounded : pricing.Bounded now) :
    middle.Bounded now := by
  induction advanced with
  | refl => exact bounded
  | tail _ advances ih => exact ih.advances advances

/-- The front belongs to the queue of every version from now on. -/
structure Fronted (pricing : Pricing) (now : Nat) : Prop where
  bounded : pricing.Bounded now
  below : ∀ block, pricing.blockNum now ≤ block → pricing.versionIn block < 3 →
    pricing.front = ConfigWrapper.frontOf pricing.priceQueue
  active : ∀ block, pricing.blockNum now ≤ block → 3 ≤ pricing.versionIn block →
    pricing.priceQueue.rows = [] ∧ pricing.front = ConfigWrapper.frontOf pricing.pricesQueue

theorem Fronted.tick {later : Nat} (fronted : pricing.Fronted now) (order : now ≤ later) : pricing.Fronted later where
  bounded := fronted.bounded.tick order
  below block reached := fronted.below block ((pricing.blockNum_mono order).trans reached)
  active block reached := fronted.active block ((pricing.blockNum_mono order).trans reached)

theorem Fronted.idle (fronted : pricing.Fronted now) (below : pricing.version now < 3) {block : Nat}
    (reached : pricing.blockNum now ≤ block) (three : 3 ≤ pricing.versionIn block) : pricing.front = 0 := by
  rw [(fronted.active block reached three).2]
  exact ConfigWrapper.frontOf_of_empty (fronted.bounded.calm.unlisted below)

theorem Fronted.advances (fronted : pricing.Fronted now) (advances : pricing.Advances now after) :
    after.Fronted now := by
  have bounded := fronted.bounded.advances advances
  cases advances with
  | promotes =>
      refine ⟨bounded, ?_, ?_⟩
      · intro block reached below
        exact fronted.below block reached
          (lt_of_eq_of_lt (ValuePromoter.valueIn_maybePromote _ _ _ reached).symm below)
      · intro block reached three
        exact fronted.active block reached
          (le_of_le_of_eq three (ValuePromoter.valueIn_maybePromote _ _ _ reached))
  | takesPrice front queue active below waiting reached drained =>
      have exact := drained.frontOf (fronted.below _ (Nat.le_refl _) below)
      refine ⟨bounded, fun _ _ _ => exact, ?_⟩
      exact fun block later three => absurd (fronted.idle below later three) waiting
  | takesPrices front queue active waiting reached drained =>
      obtain ⟨empty, exact⟩ := fronted.active _ (Nat.le_refl _) active
      refine ⟨bounded, ?_, fun _ _ _ => ⟨empty, drained.frontOf exact⟩⟩
      intro block later below
      have rises : pricing.version now ≤ pricing.versionIn block := fronted.bounded.calm.rising.valueIn_mono _ later
      have stays : pricing.versionIn block < 3 := below
      omega

theorem Fronted.accepts (fronted : pricing.Fronted now) (accepts : pricing.Accepts now request after)
    (safe : ∀ price, request.newGasPrice = some price → 1 ≤ pricing.version now → pricing.version now < 3 →
      (∀ block, pricing.blockNum now ≤ block → pricing.versionIn block < 3) ∨
        pricing.front = 0 ∧ pricing.gasPrice = price) : after.Fronted now := by
  have bounded := fronted.bounded.accepts accepts
  cases accepts with
  | rests | keepsPrice | keepsPrices => exact fronted
  | setsPrice | setsPrices => exact ⟨bounded, fronted.below, fronted.active⟩
  | queuesPrice price queue front asked active below changes queued =>
      have stays := (safe price asked active below).resolve_right changes
      have exact := ConfigWrapper.enqueueRow_frontOf (fronted.below _ (Nat.le_refl _) below)
        fronted.bounded.priced queued
      refine ⟨bounded, fun _ _ _ => exact, fun block reached three => ?_⟩
      exact absurd (stays block reached) (Nat.not_lt.mpr three)
  | queuesPrices prices queue front asked active queued =>
      obtain ⟨empty, exact⟩ := fronted.active _ (Nat.le_refl _) active
      refine ⟨bounded, ?_, fun _ _ _ =>
        ⟨empty, ConfigWrapper.enqueueRow_frontOf exact fronted.bounded.listed queued⟩⟩
      intro block later below
      have rises : pricing.version now ≤ pricing.versionIn block := fronted.bounded.calm.rising.valueIn_mono _ later
      have stays : pricing.versionIn block < 3 := below
      omega
  | schedules version asked noPrice noPrices supported empty newer =>
      have below : pricing.version now < 3 := lt_of_lt_of_le newer supported
      have exact := fronted.below _ (Nat.le_refl _) below
      refine ⟨bounded, fun _ _ _ => exact, ?_⟩
      intro block reached three
      have scheduled : (if pricing.blockNum now < block then version else pricing.version now) ≥ 3 := three
      have front : pricing.front = 0 := by
        split at scheduled
        · exact empty (Nat.le_antisymm supported scheduled)
        · omega
      refine ⟨fronted.bounded.priced.frontOf_eq_zero.mp (exact ▸ front), front.trans ?_⟩
      exact (ConfigWrapper.frontOf_of_empty (fronted.bounded.calm.unlisted below)).symm

theorem Advanced.fronted (advanced : pricing.Advanced now middle) (fronted : pricing.Fronted now) :
    middle.Fronted now := by
  induction advanced with
  | refl => exact fronted
  | tail _ advances ih => exact ih.advances advances

theorem Advanced.versionIn (advanced : pricing.Advanced now middle) :
    middle.genesisTime = pricing.genesisTime ∧
      ∀ block, pricing.blockNum now ≤ block → middle.versionIn block = pricing.versionIn block := by
  induction advanced with
  | refl => exact ⟨rfl, fun _ _ => rfl⟩
  | tail _ advances ih =>
      obtain ⟨genesis, version⟩ := advances.versionIn
      refine ⟨genesis.trans ih.1, fun block reached => (version block ?_).trans (ih.2 block reached)⟩
      simpa only [blockNum, ih.1] using reached

theorem Advanced.version (advanced : pricing.Advanced now middle) : middle.version now = pricing.version now := by
  obtain ⟨genesis, version⟩ := advanced.versionIn
  simp only [Pricing.version, blockNum, genesis]
  exact version _ (Nat.le_refl _)

theorem Advanced.of_idle (advanced : pricing.Advanced now middle) (idle : pricing.front = 0) :
    middle.front = 0 ∧ middle.gasPrice = pricing.gasPrice := by
  induction advanced with
  | refl => exact ⟨idle, rfl⟩
  | tail _ advances ih =>
      cases advances with
      | promotes => exact ih
      | takesPrice _ _ _ _ waiting | takesPrices _ _ _ waiting => exact absurd ih.1 waiting

end Pricing

namespace ConfigWrapper

/-- The blocks in the queue of the version in effect. -/
def queuedBlocks (wrapper : ConfigWrapper) (now : Nat) : List Nat :=
  if 3 ≤ wrapper.getEvmVersion now then wrapper.pricesQueue.rows.map Prod.fst
  else wrapper.priceQueue.rows.map Prod.fst

/-- The blocks in the other queue. -/
def otherBlocks (wrapper : ConfigWrapper) (now : Nat) : List Nat :=
  if 3 ≤ wrapper.getEvmVersion now then wrapper.priceQueue.rows.map Prod.fst
  else wrapper.pricesQueue.rows.map Prod.fst

def becomesThree (wrapper : ConfigWrapper) (now : Nat) : Bool :=
  decide (1 ≤ wrapper.getEvmVersion now) && decide (wrapper.getEvmVersion now < 3) &&
    wrapper.cached.evmVersion.pendingValue.any fun pending => decide (3 ≤ pending.value)

theorem versionIn_lt_three {wrapper : ConfigWrapper} {now : Nat} (active : 1 ≤ wrapper.getEvmVersion now)
    (below : wrapper.getEvmVersion now < 3) (stays : wrapper.becomesThree now = false) (block : Nat)
    (reached : wrapper.blockNum now ≤ block) : wrapper.pricing.versionIn block < 3 := by
  simp only [becomesThree, active, below, decide_true, Bool.true_and] at stays
  rw [← version_pricing] at below
  simp only [Pricing.version, Pricing.versionIn, ValuePromoter.valueIn] at below ⊢
  cases pending : wrapper.pricing.evmVersion.pendingValue with
  | none => simpa only [pending] using below
  | some value =>
      have low : value.value < 3 := by
        have same : wrapper.cached.evmVersion.pendingValue = some value := pending
        simpa [same] using stays
      simp only [pending] at below ⊢
      split
      · exact low
      · rename_i inactive
        have before : ¬ timestampToEvmBlockNum wrapper.pricing.genesisTime value.time < wrapper.pricing.blockNum now :=
          fun early => inactive (early.trans_le reached)
        rwa [if_neg before] at below

end ConfigWrapper

/-- The request does not queue a new gas price while version 3 is pending. -/
def keepsQueue (world : World) (request : Request) : Bool :=
  !world.config.becomesThree world.now ||
    request.newGasPrice.all fun price => decide (world.config.cached.gasPrice = price)

section Handled

variable {host : Host} {world : World} {view : ChainView} {before after : List Request} {request : Request}
  {rest : List Pending} {holding : Name → Symbol → Nat} {contract : Contract}

theorem Pricing.Calm.of_unstored (calm : world.config.pricing.Calm world.now)
    (unstored : world.config.stored = false) :
    world.config.pricing.priceQueue.rows = [] ∧ world.config.pricing.pricesQueue.rows = [] ∧
      world.config.pricing.front = 0 := by
  have version : world.config.pricing.version world.now = 0 := by
    simp [Pricing.version, Pricing.versionIn, World.unversioned unstored, ValuePromoter.valueIn]
  obtain ⟨unpriced, front⟩ := calm.unpriced version
  exact ⟨unpriced, calm.unlisted (by omega), front⟩

theorem Pricing.Bounded.handled (bounded : world.config.pricing.Bounded world.now)
    (handled : Handled host view before after request rest holding contract world) :
    (world.handled before after request rest holding contract).config.pricing.Bounded world.now := by
  have calm := bounded.calm.handled handled
  rcases handled.reprices with ⟨unstored, _, _, genesisTime, gasPrice, same⟩ | ⟨middle, advanced, accepts⟩
  · obtain ⟨unpriced, unlisted, front⟩ := bounded.calm.of_unstored unstored
    rw [same] at calm ⊢
    refine ⟨calm, le_of_eq_of_le front (Nat.zero_le _), ?_, ?_⟩
    · intro row member
      simp [unpriced] at member
    · intro row member
      simp [unlisted] at member
  · exact (advanced.bounded bounded).accepts accepts

theorem Pricing.Fronted.handled (fronted : world.config.pricing.Fronted world.now) (keeps : keepsQueue world request = true)
    (handled : Handled host view before after request rest holding contract world) :
    (world.handled before after request rest holding contract).config.pricing.Fronted world.now := by
  have bounded := fronted.bounded.handled handled
  rcases handled.reprices with ⟨unstored, _, _, genesisTime, gasPrice, same⟩ | ⟨middle, advanced, accepts⟩
  · obtain ⟨unpriced, unlisted, front⟩ := fronted.bounded.calm.of_unstored unstored
    rw [same] at bounded ⊢
    exact ⟨bounded, fun _ _ _ => front.trans (ConfigWrapper.frontOf_of_empty unpriced).symm,
      fun _ _ _ => ⟨unpriced, front.trans (ConfigWrapper.frontOf_of_empty unlisted).symm⟩⟩
  · obtain ⟨genesis, versions⟩ := advanced.versionIn
    have version : middle.version world.now = world.config.getEvmVersion world.now :=
      advanced.version.trans (ConfigWrapper.version_pricing _ _)
    refine (advanced.fronted fronted).accepts accepts fun price asked active below => ?_
    rw [version] at active below
    simp only [keepsQueue, asked, Option.all_some, Bool.or_eq_true, Bool.not_eq_true', decide_eq_true_eq] at keeps
    cases pending : world.config.becomesThree world.now with
    | false =>
        refine Or.inl fun block reached => ?_
        rw [Pricing.blockNum, genesis] at reached
        rw [versions block reached]
        exact ConfigWrapper.versionIn_lt_three active below pending block reached
    | true =>
        -- version 3 comes with the block after that of its request, and until then nothing is queued
        have price : world.config.cached.gasPrice = price := keeps.resolve_left (by simp [pending])
        simp only [ConfigWrapper.becomesThree, Bool.and_eq_true, decide_eq_true_eq, Option.any_eq_true] at pending
        obtain ⟨_, value, found, three⟩ := pending
        have reaches : 3 ≤ world.config.pricing.versionIn (max (world.config.pricing.blockNum world.now)
            (world.config.pricing.blockNum value.time + 1)) := by
          have same : world.config.pricing.evmVersion.pendingValue = some value := found
          simp only [Pricing.versionIn, ValuePromoter.valueIn, same]
          rw [if_pos]
          · exact three
          · exact lt_of_lt_of_le (Nat.lt_succ_self _) (le_max_right _ _)
        rw [← ConfigWrapper.version_pricing] at below
        obtain ⟨idle, kept⟩ := advanced.of_idle (fronted.idle below (le_max_left _ _) reaches)
        exact Or.inr ⟨idle, kept.trans price⟩

end Handled

theorem Pricing.bounded_start (holding : Name → Symbol → Nat) :
    (World.start holding).config.pricing.Bounded (World.start holding).now :=
  ⟨⟨fun _ pending => (by cases pending), fun _ => ⟨rfl, rfl⟩, fun _ => rfl⟩, Nat.zero_le _,
    fun _ member => (by cases member), fun _ member => (by cases member)⟩

theorem run_bounded {host : Host} {holding : Name → Symbol → Nat} {labels : List Label} {world : World}
    (finished : run host labels (World.start holding) = .ok world) : world.config.pricing.Bounded world.now := by
  refine run_invariant (fun world => world.config.pricing.Bounded world.now) ?_ (Pricing.bounded_start holding) finished
  intro current label next _ bounded stepped
  cases stepped with
  | tick now _ later => exact bounded.tick later
  | submit | passed => exact bounded
  | handled view before after request rest holding contract handled => exact bounded.handled handled

/-- The cached front is exact in every run that queues no new gas price while version 3 is
pending: it is 0 for an empty queue and otherwise the first block of the queue of the version
in effect, the other queue is empty, and no queued block is too late for the next one. -/
theorem run_queueFront_exact (host : Host) (holding : Name → Symbol → Nat) (labels : List Label) (world : World)
    (keeps : guarded host keepsQueue labels (World.start holding) = true)
    (finished : run host labels (World.start holding) = .ok world) :
    (world.config.cached.queueFrontBlock = 0 ↔ world.config.queuedBlocks world.now = []) ∧
      (world.config.queuedBlocks world.now ≠ [] →
        world.config.cached.queueFrontBlock ∈ world.config.queuedBlocks world.now ∧
          ∀ block ∈ world.config.queuedBlocks world.now, world.config.cached.queueFrontBlock ≤ block) ∧
      world.config.otherBlocks world.now = [] ∧
      (∀ block ∈ world.config.queuedBlocks world.now,
        block ≤ timestampToEvmBlockNum world.config.cached.genesisTime (world.now + 180 * 1000000) + 1) ∧
      (∀ price, world.config.enqueueGasPrice price world.now ≠ .error "internal error") ∧
      ∀ prices, world.config.enqueueGasPrices prices world.now ≠ .error "internal error" := by
  have fronted : world.config.pricing.Fronted world.now := by
    refine run_guarded (fun world => world.config.pricing.Fronted world.now) ?_ ?_ keeps finished
    · intro current label next fronted stepped safe
      cases stepped with
      | tick now _ later => exact fronted.tick later
      | submit | passed => exact fronted
      | handled view before after request rest holding contract handled =>
          exact fronted.handled (safe _ _ _ _ _ _ _ rfl handled) handled
    · exact ⟨Pricing.bounded_start holding, fun _ _ _ => rfl, fun _ _ _ => ⟨rfl, rfl⟩⟩
  obtain ⟨exact, others⟩ : ConfigWrapper.Exact (world.config.pricing.activation world.now)
      world.config.cached.queueFrontBlock (world.config.queuedBlocks world.now) ∧
      world.config.otherBlocks world.now = [] := by
    have version := world.config.version_pricing world.now
    unfold ConfigWrapper.queuedBlocks ConfigWrapper.otherBlocks
    by_cases three : 3 ≤ world.config.getEvmVersion world.now
    · obtain ⟨empty, front⟩ := fronted.active _ (Nat.le_refl _) (le_of_le_of_eq three version.symm)
      rw [if_pos three, if_pos three]
      exact ⟨fronted.bounded.listed.exact front, List.map_eq_nil_iff.mpr empty⟩
    · have below : world.config.pricing.version world.now < 3 := by omega
      have front := fronted.below _ (Nat.le_refl _) below
      rw [if_neg three, if_neg three]
      exact ⟨fronted.bounded.priced.exact front, List.map_eq_nil_iff.mpr (fronted.bounded.calm.unlisted below)⟩
  exact ⟨exact.empty, exact.first, others, exact.bounded, fronted.bounded.priced.enqueueGasPrice,
    fronted.bounded.listed.enqueueGasPrices⟩

def Ledger.strayPrice : List Label :=
  Ledger.versionOne ++ Ledger.act Ledger.self (.setgasprices ⟨some 100, some 100⟩) 0 ++
    Ledger.act Ledger.self (.setversion 3) 0 ++
    Ledger.act Ledger.self (.setfeeparams ⟨some 160000000000, none, none⟩) 0 ++ Ledger.later 2

/-- Version 3 takes effect with an empty queue, a front, and a row in the other queue. -/
theorem strayPrice_leavesFront :
    ∃ world, run Ledger.host Ledger.strayPrice (World.start fun _ _ => 0) = .ok world ∧
      world.config.getEvmVersion world.now = 3 ∧ world.config.queuedBlocks world.now = [] ∧
      world.config.cached.queueFrontBlock = 183 ∧ world.config.otherBlocks world.now = [183] := by
  obtain ⟨world, finished, seen⟩ := exists_of_view
    (run Ledger.host Ledger.strayPrice (World.start fun _ _ => 0))
    (fun world => (world.config.getEvmVersion world.now, world.config.queuedBlocks world.now,
      world.config.cached.queueFrontBlock, world.config.otherBlocks world.now))
    (3, [], 183, [183]) (by decide +kernel)
  simp only [Prod.mk.injEq] at seen
  exact ⟨world, finished, seen⟩

theorem run_queueFront_exact_queued :
    ∃ world, run Ledger.host (Ledger.versionOne ++
        Ledger.act Ledger.self (.setfeeparams ⟨some 160000000000, none, none⟩) 0 ++ Ledger.later 2 ++
        Ledger.act Ledger.self (.setfeeparams ⟨some 170000000000, none, none⟩) 0) (World.start fun _ _ => 0) =
          .ok world ∧
      world.config.queuedBlocks world.now = [183, 184] ∧
      (world.config.queuedBlocks world.now ≠ [] →
        world.config.cached.queueFrontBlock ∈ world.config.queuedBlocks world.now ∧
          ∀ block ∈ world.config.queuedBlocks world.now, world.config.cached.queueFrontBlock ≤ block) := by
  obtain ⟨world, finished, seen⟩ := exists_of_view
    (run Ledger.host (Ledger.versionOne ++
      Ledger.act Ledger.self (.setfeeparams ⟨some 160000000000, none, none⟩) 0 ++ Ledger.later 2 ++
      Ledger.act Ledger.self (.setfeeparams ⟨some 170000000000, none, none⟩) 0) (World.start fun _ _ => 0))
    (fun world => world.config.queuedBlocks world.now) [183, 184] (by decide +kernel)
  exact ⟨world, finished, seen, (run_queueFront_exact Ledger.host _ _ world (by decide +kernel) finished).2.1⟩

end EosEvm

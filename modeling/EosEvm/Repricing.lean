import EosEvm.Headers

/-! What a request does to the prices and the version. Time is made up for first: a pending
version is promoted and the queue of the version is drained. Then the request may change
a price at once, queue it for later, or schedule a version. -/

namespace EosEvm

open Abort Schedule

/-- The part of the configuration that the prices and the version depend on. -/
structure Pricing where
  genesisTime : Nat
  evmVersion : ValuePromoter Nat
  gasPrice : Nat
  gasPrices : GasPrices
  front : Nat
  priceQueue : Table Nat Nat
  pricesQueue : Table Nat GasPrices

def ConfigWrapper.pricing (wrapper : ConfigWrapper) : Pricing where
  genesisTime := wrapper.cached.genesisTime
  evmVersion := wrapper.cached.evmVersion
  gasPrice := wrapper.cached.gasPrice
  gasPrices := wrapper.cached.gasPrices
  front := wrapper.cached.queueFrontBlock
  priceQueue := wrapper.priceQueue
  pricesQueue := wrapper.pricesQueue

def Request.newGasPrice : Request → Option Nat
  | .action _ _ (.setfeeparams fees) => fees.gasPrice
  | .action _ _ (.updtgasparam _ storagePrice) => some storagePrice
  | _ => none

def Request.newGasPrices : Request → Option GasPrices
  | .action _ _ (.setgasprices prices) => some prices
  | .action _ _ (.updtgasparam _ storagePrice) => some { storagePrice := some storagePrice }
  | _ => none

def Request.newVersion : Request → Option Nat
  | .action _ _ (.setversion version) => some version
  | _ => none

namespace Pricing

def blockNum (pricing : Pricing) (time : Nat) : Nat := timestampToEvmBlockNum pricing.genesisTime time

def versionIn (pricing : Pricing) (block : Nat) : Nat := pricing.evmVersion.valueIn pricing.genesisTime block

def version (pricing : Pricing) (now : Nat) : Nat := pricing.versionIn (pricing.blockNum now)

def activation (pricing : Pricing) (now : Nat) : Nat := ConfigWrapper.activationBlockNum pricing.genesisTime now

/-- How time is made up for. -/
inductive Advances (now : Nat) (pricing : Pricing) : Pricing → Prop
  | promotes : Advances now pricing { pricing with
      evmVersion := (pricing.evmVersion.maybePromote pricing.genesisTime now).1 }
  | takesPrice (front : Nat) (queue : Table Nat Nat) (active : 1 ≤ pricing.version now)
      (below : pricing.version now < 3) (waiting : pricing.front ≠ 0) (reached : pricing.front ≤ pricing.blockNum now)
      (drained : ConfigWrapper.Drained (pricing.blockNum now) pricing.priceQueue queue pricing.front front) :
      Advances now pricing { pricing with
        gasPrice := effective (fun _ price => price) (pricing.blockNum now) pricing.gasPrice pricing.priceQueue
        front := front
        priceQueue := queue }
  | takesPrices (front : Nat) (queue : Table Nat GasPrices) (active : 3 ≤ pricing.version now)
      (waiting : pricing.front ≠ 0) (reached : pricing.front ≤ pricing.blockNum now)
      (drained : ConfigWrapper.Drained (pricing.blockNum now) pricing.pricesQueue queue pricing.front front) :
      Advances now pricing { pricing with
        gasPrices := effective GasPrices.updated (pricing.blockNum now) pricing.gasPrices pricing.pricesQueue
        front := front
        pricesQueue := queue }

abbrev Advanced (now : Nat) : Pricing → Pricing → Prop := Relation.ReflTransGen (Advances now)

/-- What a request does to prices and version that are up to date. -/
inductive Accepts (now : Nat) (pricing : Pricing) : Request → Pricing → Prop
  | rests (request : Request) (noPrice : request.newGasPrice = none) (noPrices : request.newGasPrices = none)
      (noVersion : request.newVersion = none) : Accepts now pricing request pricing
  | setsPrice (request : Request) (price : Nat) (asked : request.newGasPrice = some price)
      (inactive : pricing.version now = 0) : Accepts now pricing request { pricing with gasPrice := price }
  | keepsPrice (request : Request) (price : Nat) (asked : request.newGasPrice = some price)
      (active : 1 ≤ pricing.version now) (below : pricing.version now < 3) (idle : pricing.front = 0)
      (same : pricing.gasPrice = price) : Accepts now pricing request pricing
  | queuesPrice (request : Request) (price : Nat) (queue : Table Nat Nat) (front : Option Nat)
      (asked : request.newGasPrice = some price) (active : 1 ≤ pricing.version now) (below : pricing.version now < 3)
      (changes : ¬ (pricing.front = 0 ∧ pricing.gasPrice = price))
      (queued : ConfigWrapper.enqueueRow pricing.priceQueue pricing.front (pricing.activation now) price =
        .ok (queue, front)) :
      Accepts now pricing request { pricing with priceQueue := queue, front := front.getD pricing.front }
  | setsPrices (request : Request) (prices : GasPrices) (asked : request.newGasPrices = some prices)
      (noPrice : request.newGasPrice = none) (below : pricing.version now < 3) :
      Accepts now pricing request { pricing with gasPrices := pricing.gasPrices.updated prices }
  | keepsPrices (request : Request) (prices : GasPrices) (asked : request.newGasPrices = some prices)
      (active : 3 ≤ pricing.version now) (idle : pricing.front = 0)
      (same : pricing.gasPrices.updated prices = pricing.gasPrices) : Accepts now pricing request pricing
  | queuesPrices (request : Request) (prices : GasPrices) (queue : Table Nat GasPrices) (front : Option Nat)
      (asked : request.newGasPrices = some prices) (active : 3 ≤ pricing.version now)
      (queued : ConfigWrapper.enqueueRow pricing.pricesQueue pricing.front (pricing.activation now) prices =
        .ok (queue, front)) :
      Accepts now pricing request { pricing with pricesQueue := queue, front := front.getD pricing.front }
  | schedules (request : Request) (version : Nat) (asked : request.newVersion = some version)
      (noPrice : request.newGasPrice = none) (noPrices : request.newGasPrices = none)
      (supported : version ≤ maxEosEvmVersion) (empty : version = 3 → pricing.front = 0)
      (newer : pricing.version now < version) :
      Accepts now pricing request { pricing with
        evmVersion := { cachedValue := pricing.version now, pendingValue := some { value := version, time := now } }
        gasPrice := if version = 3 then 0 else pricing.gasPrice }

end Pricing

namespace ConfigWrapper

variable {wrapper after : ConfigWrapper} {now : Nat}

theorem version_pricing (wrapper : ConfigWrapper) (now : Nat) :
    wrapper.pricing.version now = wrapper.getEvmVersion now := versionIn_blockNum wrapper now

theorem promoteEvmVersion_pricing (wrapper : ConfigWrapper) (now : Nat) :
    wrapper.pricing.Advances now (wrapper.promoteEvmVersion now).2.pricing := by
  obtain ⟨cut, dirty, same⟩ := promoteEvmVersion_eq wrapper now
  rw [same]
  exact .promotes

theorem promoteConsensusParam_pricing (wrapper : ConfigWrapper) (now : Nat) :
    (wrapper.promoteConsensusParam now).2.2.pricing = wrapper.pricing := by
  obtain ⟨dirty, same⟩ := promoteConsensusParam_eq wrapper now
  rw [same]
  rfl

theorem refresh_pricing (wrapper : ConfigWrapper) (now : Nat) :
    wrapper.pricing.Advanced now (wrapper.refresh now).pricing := by
  have version := wrapper.version_pricing now
  by_cases active : 1 ≤ wrapper.getEvmVersion now
  · rw [refresh, if_pos active, processPriceQueue]
    by_cases idle : wrapper.idleIn (wrapper.blockNum now)
    · rw [processGasPricesQueue_idle idle, processGasPriceQueue_idle idle, ite_self]
    · have busy : wrapper.pricing.front ≠ 0 ∧ wrapper.pricing.front ≤ wrapper.blockNum now := by
        obtain ⟨waiting, reached⟩ := not_or.mp idle
        exact ⟨waiting, not_lt.mp reached⟩
      by_cases three : 3 ≤ wrapper.getEvmVersion now
      · obtain ⟨front, dirty, queue, same, drained⟩ := processGasPricesQueue_busy idle
        rw [if_pos three, same, pricesIn, if_neg idle]
        exact .single (.takesPrices front queue (version ▸ three) busy.1 busy.2 drained)
      · obtain ⟨front, dirty, queue, same, drained⟩ := processGasPriceQueue_busy idle
        rw [if_neg three, same, priceIn, if_neg idle]
        exact .single (.takesPrice front queue (version ▸ active) (by omega) busy.1 busy.2 drained)
  · rw [refresh, if_neg active]

theorem Updates.pricing (updates : wrapper.Updates now after) : wrapper.pricing.Advanced now after.pricing := by
  cases updates with
  | same => exact .refl
  | refreshed => exact refresh_pricing wrapper now
  | promoted => exact (refresh_pricing wrapper now).tail (promoteEvmVersion_pricing _ now)

theorem enqueueGasPrice_pricing {request : Request} {price : Nat} (asked : request.newGasPrice = some price)
    (active : 1 ≤ wrapper.getEvmVersion now) (below : wrapper.getEvmVersion now < 3)
    (queued : wrapper.enqueueGasPrice price now = .ok after) : wrapper.pricing.Accepts now request after.pricing := by
  rw [← version_pricing] at active below
  simp only [enqueueGasPrice] at queued
  split at queued
  · rename_i kept
    cases queued
    exact .keepsPrice request price asked active below kept.1 kept.2
  · rename_i changes
    simp only [bind_ok, pure_ok] at queued
    obtain ⟨⟨queue, front⟩, row, rfl⟩ := queued
    obtain ⟨dirty, same⟩ := setQueueFrontBlock_eq { wrapper with priceQueue := queue } front
    rw [same]
    exact .queuesPrice request price queue front asked active below changes row

theorem updated_of_same {config : Config} {prices : GasPrices} (same : isSameAsCurrentPrice config prices = true) :
    config.gasPrices.updated prices = config.gasPrices := by
  simp only [isSameAsCurrentPrice, Bool.and_eq_true, Bool.or_eq_true, beq_iff_eq] at same
  obtain ⟨overhead, storage⟩ := same
  cases current : config.gasPrices with
  | mk overheadPrice storagePrice =>
      rw [current] at overhead storage
      simp only [GasPrices.updated, GasPrices.mk.injEq]
      refine ⟨?_, ?_⟩
      · rcases overhead with absent | rfl
        · simp [Option.isNone_iff_eq_none.mp absent]
        · simp
      · rcases storage with absent | rfl
        · simp [Option.isNone_iff_eq_none.mp absent]
        · simp

theorem enqueueGasPrices_pricing {request : Request} {prices : GasPrices} (asked : request.newGasPrices = some prices)
    (active : 3 ≤ wrapper.getEvmVersion now) (queued : wrapper.enqueueGasPrices prices now = .ok after) :
    wrapper.pricing.Accepts now request after.pricing := by
  rw [← version_pricing] at active
  simp only [enqueueGasPrices] at queued
  split at queued
  · rename_i kept
    cases queued
    exact .keepsPrices request prices asked active kept.1 (updated_of_same kept.2)
  · simp only [bind_ok, pure_ok] at queued
    obtain ⟨⟨queue, front⟩, row, rfl⟩ := queued
    obtain ⟨dirty, same⟩ := setQueueFrontBlock_eq { wrapper with pricesQueue := queue } front
    rw [same]
    exact .queuesPrices request prices queue front asked active row

theorem Configures.reprices {requested : Action} (caller : Option Name) (auths : List Name)
    (configures : wrapper.Configures now requested after) :
    ∃ middle, wrapper.pricing.Advanced now middle ∧
      middle.Accepts now (.action caller auths requested) after.pricing := by
  have promoted := Relation.ReflTransGen.single (promoteEvmVersion_pricing wrapper now)
  have version : (wrapper.promoteEvmVersion now).2.getEvmVersion now = (wrapper.promoteEvmVersion now).1 := by
    rw [getEvmVersion_promoteEvmVersion, promoteEvmVersion_fst]
  cases configures with
  | setfeeparams fees after updated =>
      refine ⟨_, .refl, ?_⟩
      obtain ⟨priced, cut, fee, done, rfl⟩ := setFeeParameters_eq updated
      rcases setFeeGasPrice_ok done with ⟨none, rfl⟩ | ⟨price, asked, ⟨active, below, queued⟩ | ⟨inactive, rfl⟩⟩
      · exact .rests _ none rfl rfl
      · have accepts := enqueueGasPrice_pricing
          (show (Request.action caller auths (.setfeeparams fees)).newGasPrice = _ from asked) active below queued
        exact accepts
      · exact .setsPrice _ price asked ((version_pricing _ _).trans inactive)
  | freeze | setgaslimit => exact ⟨_, .refl, .rests _ rfl rfl rfl⟩
  | setgasparam _ _ _ _ _ after updated =>
      obtain ⟨_, parameter, rfl⟩ := updateConsensusParameters2_ok updated
      exact ⟨_, .refl, .rests _ rfl rfl rfl⟩
  | setversion version after updated =>
      obtain ⟨supported, empty, _, newer, cut, rfl⟩ := setEvmVersion_ok updated
      rw [← version_pricing] at newer ⊢
      exact ⟨_, .refl, .schedules _ version rfl rfl rfl supported empty newer⟩
  | updtgasparam ramPriceMb storagePrice after updated =>
      refine ⟨_, .refl, ?_⟩
      obtain ⟨scheduled, parameter, rfl, _, active, ⟨three, queued⟩ | ⟨below, queued⟩⟩ :=
        updateConsensusParameters_ok updated
      · have accepts := enqueueGasPrices_pricing
          (show (Request.action caller auths (.updtgasparam ramPriceMb storagePrice)).newGasPrices = _ from rfl)
          (by exact three) queued
        exact accepts
      · have accepts := enqueueGasPrice_pricing
          (show (Request.action caller auths (.updtgasparam ramPriceMb storagePrice)).newGasPrice = _ from rfl)
          (by exact active) (by exact below) queued
        exact accepts
  | enqueued prices after active queued =>
      exact ⟨_, promoted, enqueueGasPrices_pricing rfl (version ▸ active) queued⟩
  | replaced prices inactive =>
      refine ⟨_, promoted, .setsPrices _ prices rfl rfl ?_⟩
      rw [version_pricing, version]
      omega

end ConfigWrapper

theorem started_pricing {wrapper start : ConfigWrapper} {now : Nat}
    (started : start = wrapper ∨ start = (wrapper.promoteEvmVersion now).2) :
    wrapper.pricing.Advanced now start.pricing := by
  rcases started with rfl | rfl
  · exact .refl
  · exact .single (ConfigWrapper.promoteEvmVersion_pricing wrapper now)

theorem Request.unpriced_of_plain {request : Request} (plain : request.isSetter = false) :
    request.newGasPrice = none ∧ request.newGasPrices = none ∧ request.newVersion = none := by
  cases request with
  | transfer => exact ⟨rfl, rfl, rfl⟩
  | action caller auths requested => cases requested <;> first | exact ⟨rfl, rfl, rfl⟩ | cases plain

theorem Reconfigures.reprices {env : Env} {before after : ConfigWrapper} {request : Request} {effects : List Effect}
    (fresh : before.stored = false → before.cached = {})
    (reconfigured : Reconfigures env before request after effects) :
    (before.stored = false ∧ request.newGasPrice = none ∧ request.newGasPrices = none ∧ ∃ genesisTime gasPrice,
        after.pricing = { before.pricing with genesisTime := genesisTime, gasPrice := gasPrice }) ∨
      ∃ middle, before.pricing.Advanced env.now middle ∧ middle.Accepts env.now request after.pricing := by
  cases reconfigured with
  | starts caller auths chainid fees tokenContract token config unstored configured =>
      refine Or.inl ⟨unstored, rfl, rfl, ?_⟩
      obtain ⟨priced, cut, fee, price, rfl⟩ := ConfigWrapper.setFeeParameters_eq configured
      rcases ConfigWrapper.setFeeGasPrice_ok price with ⟨_, rfl⟩ | ⟨price, _, ⟨active, _⟩ | ⟨_, rfl⟩⟩
      · exact ⟨_, _, rfl⟩
      · simp [ConfigWrapper.getEvmVersion, ConfigWrapper.set, fresh unstored, ValuePromoter.getValue] at active
      · exact ⟨_, _, rfl⟩
  | sets caller auths requested after configured => exact Or.inr (configured.reprices caller auths)
  | swaps => exact Or.inr ⟨_, .refl, .rests _ rfl rfl rfl⟩
  | updates _ start after _ started updated _ plain =>
      obtain ⟨noPrice, noPrices, noVersion⟩ := Request.unpriced_of_plain plain
      exact Or.inr ⟨_, (started_pricing started).trans updated.pricing, .rests _ noPrice noPrices noVersion⟩
  | transacts _ start after _ _ _ _ started transacted plain =>
      obtain ⟨noPrice, noPrices, noVersion⟩ := Request.unpriced_of_plain plain
      refine Or.inr ⟨_, ?_, .rests _ noPrice noPrices noVersion⟩
      rw [transacted.config, ConfigWrapper.promoteConsensusParam_pricing]
      exact (started_pricing started).trans ((ConfigWrapper.refresh_pricing start env.now).tail
        (ConfigWrapper.promoteEvmVersion_pricing _ env.now))

def ValuePromoter.Rising (promoter : ValuePromoter Nat) : Prop :=
  ∀ pending, promoter.pendingValue = some pending → promoter.cachedValue ≤ pending.value

theorem ValuePromoter.Rising.maybePromote {promoter : ValuePromoter Nat} (rising : promoter.Rising)
    (genesisTime now : Nat) : (promoter.maybePromote genesisTime now).1.Rising := by
  unfold ValuePromoter.maybePromote
  split
  · unfold promotePending
    split
    · rintro _ ⟨⟩
    · exact rising
  · exact rising

theorem ValuePromoter.Rising.valueIn_mono {promoter : ValuePromoter Nat} (rising : promoter.Rising)
    (genesisTime : Nat) {block later : Nat} (order : block ≤ later) :
    promoter.valueIn genesisTime block ≤ promoter.valueIn genesisTime later := by
  cases pending : promoter.pendingValue with
  | none => simp [valueIn, pending]
  | some value =>
      have below := rising value pending
      simp only [valueIn, pending]
      split <;> split <;> omega

namespace Pricing

variable {pricing middle after : Pricing} {now : Nat} {request : Request}

/-- No price is queued in version 0, and no overhead or storage price below version 3. -/
structure Calm (pricing : Pricing) (now : Nat) : Prop where
  rising : pricing.evmVersion.Rising
  unpriced : pricing.version now = 0 → pricing.priceQueue.rows = [] ∧ pricing.front = 0
  unlisted : pricing.version now < 3 → pricing.pricesQueue.rows = []

theorem blockNum_mono (pricing : Pricing) {later : Nat} (order : now ≤ later) :
    pricing.blockNum now ≤ pricing.blockNum later := timestampToEvmBlockNum_mono _ order

theorem Calm.version_mono {later : Nat} (calm : pricing.Calm now) (order : now ≤ later) :
    pricing.version now ≤ pricing.version later :=
  calm.rising.valueIn_mono _ (pricing.blockNum_mono order)

theorem Calm.tick {later : Nat} (calm : pricing.Calm now) (order : now ≤ later) : pricing.Calm later where
  rising := calm.rising
  unpriced unset := calm.unpriced (Nat.le_zero.mp ((calm.version_mono order).trans_eq unset))
  unlisted below := calm.unlisted ((calm.version_mono order).trans_lt below)

theorem Advances.versionIn (advances : pricing.Advances now after) :
    after.genesisTime = pricing.genesisTime ∧
      ∀ block, pricing.blockNum now ≤ block → after.versionIn block = pricing.versionIn block := by
  cases advances with
  | promotes => exact ⟨rfl, fun block reached => ValuePromoter.valueIn_maybePromote _ _ _ reached⟩
  | takesPrice | takesPrices => exact ⟨rfl, fun _ _ => rfl⟩

theorem Advances.version (advances : pricing.Advances now after) : after.version now = pricing.version now := by
  obtain ⟨genesis, version⟩ := advances.versionIn
  simp only [Pricing.version, blockNum, genesis]
  exact version _ (Nat.le_refl _)

theorem Advances.rising (advances : pricing.Advances now after) (rising : pricing.evmVersion.Rising) :
    after.evmVersion.Rising := by
  cases advances with
  | promotes => exact rising.maybePromote _ _
  | takesPrice | takesPrices => exact rising

theorem Calm.advances (calm : pricing.Calm now) (advances : pricing.Advances now after) : after.Calm now := by
  refine ⟨advances.rising calm.rising, ?_, ?_⟩
  · rw [advances.version]
    intro unset
    cases advances with
    | promotes => exact calm.unpriced unset
    | takesPrice | takesPrices => omega
  · rw [advances.version]
    intro below
    cases advances with
    | promotes | takesPrice => exact calm.unlisted below
    | takesPrices => omega

theorem versionIn_scheduled (pricing : Pricing) (now version gasPrice block : Nat) :
    ({ pricing with
        evmVersion := { cachedValue := pricing.version now, pendingValue := some { value := version, time := now } }
        gasPrice := gasPrice } : Pricing).versionIn block =
      if pricing.blockNum now < block then version else pricing.version now := rfl

theorem Calm.accepts (calm : pricing.Calm now) (accepts : pricing.Accepts now request after) : after.Calm now := by
  cases accepts with
  | rests | keepsPrice | keepsPrices => exact calm
  | setsPrice | setsPrices => exact ⟨calm.rising, calm.unpriced, calm.unlisted⟩
  | queuesPrice price queue front asked active below changes queued =>
      refine ⟨calm.rising, fun unset => ?_, calm.unlisted⟩
      have same : pricing.version now = 0 := unset
      omega
  | queuesPrices prices queue front asked active queued =>
      refine ⟨calm.rising, fun unset => ?_, fun below => ?_⟩
      · have same : pricing.version now = 0 := unset
        omega
      · have same : pricing.version now < 3 := below
        omega
  | schedules version asked noPrice noPrices supported empty newer =>
      have unchanged := pricing.versionIn_scheduled now version
        (if version = 3 then 0 else pricing.gasPrice) (pricing.blockNum now)
      rw [if_neg (Nat.lt_irrefl _)] at unchanged
      refine ⟨?_, fun unset => calm.unpriced (unchanged.symm.trans unset),
        fun below => calm.unlisted (lt_of_eq_of_lt unchanged.symm below)⟩
      rintro _ ⟨⟩
      exact Nat.le_of_lt newer

end Pricing

theorem load_fresh {tables : Tables} (unstored : (Contract.load tables).config.stored = false) :
    (Contract.load tables).config.cached = {} := by
  cases found : tables.config with
  | none => simp [Contract.load, ConfigWrapper.load, found]
  | some row => simp [Contract.load, ConfigWrapper.load, found] at unstored

theorem Handled.reprices {host : Host} {world : World} {view : ChainView} {before after : List Request}
    {request : Request} {rest : List Pending} {holding : Name → Symbol → Nat} {contract : Contract}
    (handled : Handled host view before after request rest holding contract world) :
    (world.config.stored = false ∧ request.newGasPrice = none ∧ request.newGasPrices = none ∧ ∃ genesisTime gasPrice,
        (world.handled before after request rest holding contract).config.pricing =
          { world.config.pricing with genesisTime := genesisTime, gasPrice := gasPrice }) ∨
      ∃ middle, world.config.pricing.Advanced world.now middle ∧
        middle.Accepts world.now request (world.handled before after request rest holding contract).config.pricing := by
  obtain ⟨reconfigured, reloaded⟩ := handled.reconfigures
  rw [reloaded]
  exact reconfigured.reprices load_fresh

theorem World.unversioned {world : World} (unstored : world.config.stored = false) :
    world.config.pricing.evmVersion = { cachedValue := 0 } :=
  congrArg Config.evmVersion (load_fresh unstored)

theorem Pricing.Calm.handled {host : Host} {world : World} {view : ChainView} {before after : List Request}
    {request : Request} {rest : List Pending} {holding : Name → Symbol → Nat} {contract : Contract}
    (calm : world.config.pricing.Calm world.now)
    (handled : Handled host view before after request rest holding contract world) :
    (world.handled before after request rest holding contract).config.pricing.Calm world.now := by
  rcases handled.reprices with ⟨unstored, _, _, genesisTime, gasPrice, same⟩ | ⟨middle, advanced, accepts⟩
  · have unversioned := World.unversioned unstored
    have version : world.config.pricing.version world.now = 0 := by
      simp [Pricing.version, Pricing.versionIn, unversioned, ValuePromoter.valueIn]
    rw [same]
    exact ⟨calm.rising, fun _ => calm.unpriced version, fun _ => calm.unlisted (by omega)⟩
  · refine Pricing.Calm.accepts ?_ accepts
    clear accepts
    induction advanced with
    | refl => exact calm
    | tail _ advances ih => exact ih.advances advances

end EosEvm

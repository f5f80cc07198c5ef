import EosEvm.Effects
import EosEvm.Config
import EosEvm.Host

/-! How a request changes the configuration. A setter changes it as its case says; any
other request at most brings it up to date, and a transaction runs on a configuration
that has been brought up to date. -/

namespace EosEvm

open Abort

def Config.promoted (version : ValuePromoter Nat) (config : Config) : Config :=
  { config with evmVersion := version, minerCut := if 1 ≤ version.cachedValue then 0 else config.minerCut }

namespace ConfigWrapper

/-- The configuration with its prices brought up to date. -/
def refresh (wrapper : ConfigWrapper) (now : Nat) : ConfigWrapper :=
  if 1 ≤ wrapper.getEvmVersion now then wrapper.processPriceQueue now else wrapper

/-- The configuration brought up to date, with or without promotions. -/
inductive Updates (now : Nat) (wrapper : ConfigWrapper) : ConfigWrapper → Prop
  | same : Updates now wrapper wrapper
  | refreshed : Updates now wrapper (wrapper.refresh now)
  | promoted : Updates now wrapper ((wrapper.refresh now).promoteEvmVersion now).2

theorem promoteEvmVersion_twice (wrapper : ConfigWrapper) (now : Nat) :
    ((wrapper.promoteEvmVersion now).2).promoteEvmVersion now =
      (wrapper.getEvmVersion now, (wrapper.promoteEvmVersion now).2) := by
  obtain ⟨cut, dirty, same⟩ := promoteEvmVersion_eq wrapper now
  rw [same]
  simp only [promoteEvmVersion, ValuePromoter.maybePromote_twice, Bool.false_eq_true, if_false,
    ValuePromoter.cachedValue_maybePromote]
  rfl

theorem getEvmVersion_promoteEvmVersion (wrapper : ConfigWrapper) (now : Nat) :
    (wrapper.promoteEvmVersion now).2.getEvmVersion now = wrapper.getEvmVersion now := by
  rw [← promoteEvmVersion_fst, promoteEvmVersion_twice]

theorem refresh_eq (wrapper : ConfigWrapper) (now : Nat) :
    ∃ price prices front dirty priceQueue pricesQueue, wrapper.refresh now =
      { cached := { wrapper.cached with gasPrice := price, gasPrices := prices, queueFrontBlock := front }
        stored := wrapper.stored
        dirty := dirty
        priceQueue := priceQueue
        pricesQueue := pricesQueue } := by
  unfold refresh
  split
  · exact processPriceQueue_eq wrapper now
  · exact ⟨_, _, _, _, _, _, rfl⟩

theorem getEvmVersion_refresh (wrapper : ConfigWrapper) (now : Nat) :
    (wrapper.refresh now).getEvmVersion now = wrapper.getEvmVersion now := by
  obtain ⟨_, _, _, _, _, _, same⟩ := refresh_eq wrapper now
  rw [same]
  rfl

theorem processRows_promoted {ν : Type} (block : Nat) (version : ValuePromoter Nat) (update : Config → ν → Config)
    (commutes : ∀ config value, update (config.promoted version) value = (update config value).promoted version)
    (rows : List (Nat × ν)) (queue : Table Nat ν) (config : Config) :
    processRows block update rows (queue, config.promoted version) =
      ((processRows block update rows (queue, config)).1,
        (processRows block update rows (queue, config)).2.promoted version) := by
  induction rows generalizing queue config with
  | nil => rfl
  | cons row rest ih =>
      simp only [processRows]
      split
      · rw [commutes]
        have continues : ∀ front, processRows block update rest (queue.erase row.1,
              { (update config row.2).promoted version with queueFrontBlock := front }) = _ := fun front =>
          ih (queue.erase row.1) { update config row.2 with queueFrontBlock := front }
        exact continues _
      · rfl

theorem processPriceQueue_promoted (wrapper : ConfigWrapper) (now : Nat) (version : ValuePromoter Nat)
    (same : version.getValue wrapper.cached.genesisTime now = wrapper.getEvmVersion now) :
    (wrapper.set (Config.promoted version)).processPriceQueue now =
      (wrapper.processPriceQueue now).set (Config.promoted version) := by
  have current : (wrapper.set (Config.promoted version)).getEvmVersion now = wrapper.getEvmVersion now := same
  have idle : (wrapper.set (Config.promoted version)).queueIdle now = wrapper.queueIdle now := rfl
  have genesis : (Config.promoted version wrapper.cached).genesisTime = wrapper.cached.genesisTime := rfl
  unfold processPriceQueue
  rw [current]
  split
  · unfold processGasPricesQueue
    rw [idle]
    split
    · rfl
    · have rows := processRows_promoted (timestampToEvmBlockNum wrapper.cached.genesisTime now) version
        (fun config prices => { config with gasPrices := config.gasPrices.updated prices }) (fun _ _ => rfl)
        wrapper.pricesQueue.rows wrapper.pricesQueue wrapper.cached
      simp only [set, Bool.true_or, genesis, rows]
  · unfold processGasPriceQueue
    rw [idle]
    split
    · rfl
    · have rows := processRows_promoted (timestampToEvmBlockNum wrapper.cached.genesisTime now) version
        (fun config price => { config with gasPrice := price }) (fun _ _ => rfl)
        wrapper.priceQueue.rows wrapper.priceQueue wrapper.cached
      simp only [set, Bool.true_or, genesis, rows]

theorem refresh_promoted (wrapper : ConfigWrapper) (now : Nat) (version : ValuePromoter Nat)
    (same : version.getValue wrapper.cached.genesisTime now = wrapper.getEvmVersion now) :
    (wrapper.set (Config.promoted version)).refresh now = (wrapper.refresh now).set (Config.promoted version) := by
  have current : (wrapper.set (Config.promoted version)).getEvmVersion now = wrapper.getEvmVersion now := same
  unfold refresh
  rw [current]
  split
  · exact processPriceQueue_promoted wrapper now version same
  · rfl

theorem promoteEvmVersion_refresh (wrapper : ConfigWrapper) (now : Nat) :
    (((wrapper.promoteEvmVersion now).2.refresh now).promoteEvmVersion now).2 =
        ((wrapper.refresh now).promoteEvmVersion now).2 ∧
      ∀ version, ((wrapper.promoteEvmVersion now).2.refresh now).getGasPrice version =
        (wrapper.refresh now).getGasPrice version := by
  by_cases pending : (wrapper.cached.evmVersion.maybePromote wrapper.cached.genesisTime now).2 = true
  · have promotes : (wrapper.promoteEvmVersion now).2 =
        wrapper.set (Config.promoted (wrapper.cached.evmVersion.maybePromote wrapper.cached.genesisTime now).1) := by
      simp only [promoteEvmVersion, if_pos pending]
      rfl
    have current := getEvmVersion_promoteEvmVersion wrapper now
    rw [promotes] at current ⊢
    have refreshes := refresh_promoted wrapper now
      (wrapper.cached.evmVersion.maybePromote wrapper.cached.genesisTime now).1 current
    rw [refreshes]
    obtain ⟨price, prices, front, dirty, priceQueue, pricesQueue, refreshed⟩ := refresh_eq wrapper now
    rw [refreshed]
    refine ⟨?_, fun version => rfl⟩
    simp only [promoteEvmVersion, set, Config.promoted, if_pos pending, ValuePromoter.maybePromote_twice,
      Bool.false_eq_true, if_false]
  · have keeps : (wrapper.promoteEvmVersion now).2 = wrapper := by
      simp only [promoteEvmVersion, if_neg pending]
    rw [keeps]
    exact ⟨rfl, fun version => rfl⟩

theorem refresh_saves (wrapper : ConfigWrapper) (now : Nat) : Saves wrapper (wrapper.refresh now) := by
  unfold refresh
  split
  · exact processPriceQueue_saves _ _
  · exact Saves.refl _

theorem Updates.saves {now : Nat} {wrapper after : ConfigWrapper} (updates : wrapper.Updates now after) :
    Saves wrapper after := by
  cases updates with
  | same => exact Saves.refl _
  | refreshed => exact refresh_saves _ _
  | promoted => exact (refresh_saves _ _).trans (promoteEvmVersion_saves _ _)

theorem Configures.saves {now : Nat} {wrapper after : ConfigWrapper} {requested : Action}
    (configures : wrapper.Configures now requested after) : Saves wrapper after := by
  cases configures with
  | setfeeparams fees after updated =>
      obtain ⟨_, _, _, _, rfl⟩ := setFeeParameters_eq updated
      exact Or.inl rfl
  | freeze | setgaslimit => exact saves_set _ _
  | setversion version after updated =>
      obtain ⟨_, _, _, _, _, rfl⟩ := setEvmVersion_ok updated
      exact Or.inl rfl
  | updtgasparam ramPriceMb storagePrice after updated =>
      obtain ⟨scheduled, _, rfl, _, _, ⟨_, queued⟩ | ⟨_, queued⟩⟩ := updateConsensusParameters_ok updated
      · exact Saves.trans (Or.inl rfl) (enqueueGasPrices_saves queued)
      · exact Saves.trans (Or.inl rfl) (enqueueGasPrice_saves queued)
  | setgasparam _ _ _ _ _ after updated =>
      obtain ⟨_, _, rfl⟩ := updateConsensusParameters2_ok updated
      exact Or.inl rfl
  | enqueued prices after active queued => exact (promoteEvmVersion_saves _ _).trans (enqueueGasPrices_saves queued)
  | replaced prices inactive => exact (promoteEvmVersion_saves _ _).trans (saves_set _ _)

end ConfigWrapper

theorem refreshPrices_config (env : Env) (contract : Contract) :
    (refreshPrices env contract).config = contract.config.refresh env.now := by
  simp only [refreshPrices, ConfigWrapper.refresh]
  split <;> rfl

/-- What a transaction makes of an up-to-date configuration, and what it leaves behind. -/
structure Transacts (env : Env) (refreshed : ConfigWrapper) (after : ConfigWrapper) (effects : List Effect)
    (sender : Address) (nonce : Nat) : Prop where
  config : after = (((refreshed.promoteEvmVersion env.now).2).promoteConsensusParam env.now).2.2
  effects : ∃ payments rlptx, effects =
    (payments ++ txEvents after (refreshed.getEvmVersion env.now)
      (((refreshed.promoteEvmVersion env.now).2).getConsensusParam env.now)
      (((refreshed.promoteEvmVersion env.now).2).promoteConsensusParam env.now).2.1 rlptx).map .sent ++
    [.ran (after.execution env.now (refreshed.getEvmVersion env.now)
      (((refreshed.promoteEvmVersion env.now).2).getConsensusParam env.now) sender nonce)] ∧
    ∀ action ∈ payments, action.isPayment = true

def Effect.isQuiet : Effect → Bool
  | .sent (.configchange _) => false
  | .sent (.evmtx _) => false
  | .sent _ => true
  | .ran _ => false

def Action.isSetter : Action → Bool
  | .init _ _ _ | .setfeeparams _ | .freeze _ | .setversion _ | .updtgasparam _ _ | .setgasparam _ _ _ _ _
  | .setgasprices _ | .setgaslimit _ => true
  | _ => false

def Request.isSetter : Request → Bool
  | .action _ _ requested => requested.isSetter
  | .transfer _ _ _ _ _ => false

/-- How a request changes the configuration, and what it leaves behind. -/
inductive Reconfigures (env : Env) (before : ConfigWrapper) : Request → ConfigWrapper → List Effect → Prop
  | starts (caller : Option Name) (auths : List Name) (chainid : Nat) (fees : FeeParameters)
      (tokenContract : Option Name) (token : Name) (config : ConfigWrapper) (unstored : before.stored = false)
      (configured : (before.set fun cached => { cached with
          version := 0
          chainid := chainid
          genesisTime := Words.u32 (env.now / 1000000) }).setFeeParameters fees false env.now = .ok config) :
      Reconfigures env before (.action caller auths (.init chainid fees tokenContract))
        { config with cached := { config.cached with tokenContract := token } } []
  | sets (caller : Option Name) (auths : List Name) (requested : Action) (after : ConfigWrapper)
      (configured : before.Configures env.now requested after) :
      Reconfigures env before (.action caller auths requested) after []
  | swaps (caller : Option Name) (auths : List Name) (newTokenContract : Name) (newSymbol : Symbol)
      (swapDestAccount : Name) (swapMemo : Bytes) (effects : List Effect)
      (quiet : ∀ effect ∈ effects, effect.isQuiet = true) :
      Reconfigures env before (.action caller auths (.swapgastoken newTokenContract newSymbol swapDestAccount swapMemo))
        (before.swapgastoken newTokenContract newSymbol) effects
  | updates (request : Request) (start after : ConfigWrapper) (effects : List Effect)
      (started : start = before ∨ start = (before.promoteEvmVersion env.now).2)
      (updated : start.Updates env.now after) (quiet : ∀ effect ∈ effects, effect.isQuiet = true)
      (plain : request.isSetter = false) : Reconfigures env before request after effects
  | transacts (request : Request) (start after : ConfigWrapper) (effects : List Effect) (sender : Address)
      (nonce : Nat) (ready : before.stored = true)
      (started : start = before ∨ start = (before.promoteEvmVersion env.now).2)
      (transacted : Transacts env (start.refresh env.now) after effects sender nonce)
      (plain : request.isSetter = false) : Reconfigures env before request after effects

variable {env : Env} {before after : Contract} {request : Request}

theorem processTx_transacts {rc : RuntimeConfig} {miner : Name} {txn : Txn} {minPrice : Option Nat}
    (fresh : before.effects = []) (processed : processTx env rc miner txn minPrice before = .ok after) :
    ∃ tx sender, txn.getTx env.evm = .ok tx ∧ env.evm.recoverSender tx = some sender ∧
      Transacts env before.config after.config after.effects sender tx.nonce := by
  obtain ⟨tx, sender, payments, decoded, recovered, _, config, effects, paid⟩ := processTx_effects processed
  rw [fresh, List.nil_append, ConfigWrapper.promoteEvmVersion_fst, ConfigWrapper.promoteConsensusParam_fst] at effects
  exact ⟨tx, sender, decoded, recovered, config, payments, _, effects, paid⟩

theorem Transacts.of_promoted {refreshed config : ConfigWrapper} {effects : List Effect} {sender : Address}
    {nonce : Nat} (transacted : Transacts env (refreshed.promoteEvmVersion env.now).2 config effects sender nonce) :
    Transacts env refreshed config effects sender nonce := by
  obtain ⟨configEq, left⟩ := transacted
  rw [ConfigWrapper.promoteEvmVersion_twice] at configEq left
  rw [ConfigWrapper.getEvmVersion_promoteEvmVersion] at left
  exact ⟨configEq, left⟩

theorem stored_of_unfrozen {config : ConfigWrapper} (ready : assertUnfrozen config = .ok ()) :
    config.stored = true := by
  rw [assertUnfrozen_ok] at ready
  exact ready.1.1

theorem Contract.Bridges.config {payer : Option Name} {tx : Transaction} {middle : Contract}
    (bridges : Bridges env before request payer tx middle) :
    ∃ start, (start = before.config ∨ start = (before.config.promoteEvmVersion env.now).2) ∧
      middle.config = start.refresh env.now := by
  cases bridges with
  | call =>
      rw [refreshPrices_config]
      exact ⟨_, Or.inl rfl, rfl⟩
  | callotherpay =>
      rw [refreshPrices_config]
      exact ⟨_, Or.inr rfl, rfl⟩
  | admincall _ _ _ _ _ _ _ _ address _ numbered _ numbers _ =>
      rw [refreshPrices_config]
      refine ⟨_, Or.inl ?_, rfl⟩
      obtain ⟨_, rfl, _⟩ := adminNonce_ok numbers
      rfl
  | ingress _ _ _ _ _ _ received recorded deposited records _ _ =>
      obtain ⟨_, rfl⟩ := recordIngressFee_ok records
      obtain ⟨_, _, _, _, rfl⟩ := deposit_ok deposited
      exact ⟨_, Or.inl rfl, refreshPrices_config env before⟩

theorem Contract.Bridges.isSetter {payer : Option Name} {tx : Transaction} {middle : Contract}
    (bridges : Bridges env before request payer tx middle) : request.isSetter = false := by
  cases bridges <;> rfl

theorem Contract.Bridges.reconfigures {payer : Option Name} {tx : Transaction} {middle : Contract}
    (fresh : before.effects = []) (ready : assertUnfrozen before.config = .ok ())
    (bridges : Bridges env before request payer tx middle)
    (dispatched : dispatchTx env (bridgeConfig payer) tx middle = .ok after) :
    Reconfigures env before.config request after.config after.effects := by
  obtain ⟨start, started, refreshed⟩ := bridges.config
  obtain ⟨effects, _⟩ := bridges.effects
  rcases dispatchTx_ok dispatched with ⟨_, processed⟩ | ⟨_, _, rfl⟩
  · obtain ⟨_, sender, _, _, transacted⟩ := processTx_transacts (by exact effects.trans fresh) processed
    have onRefreshed := transacted.of_promoted
    rw [refreshed] at onRefreshed
    exact .transacts request start _ _ sender _ (stored_of_unfrozen ready) started onRefreshed bridges.isSetter
  · refine .updates request start _ _ started ?_ ?_ bridges.isSetter
    · simp only [Contract.emit, refreshed]
      exact .promoted
    · intro effect member
      simp only [Contract.emit, effects, fresh, List.nil_append, List.mem_singleton] at member
      rw [member]
      rfl

theorem Contract.Does.reconfigures (fresh : before.effects = []) (did : Does env before request after) :
    Reconfigures env before.config request after.config after.effects := by
  have silent : ∀ effect ∈ before.effects, effect.isQuiet = true := by
    rw [fresh]
    exact fun _ member => (by cases member)
  cases did with
  | init caller auths chainid fees tokenContract after ran =>
      obtain ⟨unstored, config, _, configured, _, opened⟩ := init_ok ran
      rw [openInternalBalance_config opened, openInternalBalance_effects opened, fresh]
      exact .starts caller auths chainid fees tokenContract _ config unstored configured
  | configures caller auths requested config configured =>
      simp only [fresh]
      exact .sets caller auths requested config configured
  | swaps caller auths newTokenContract newSymbol swapDestAccount swapMemo after ran =>
      obtain ⟨_, _, _, _, _, _, migrated, ran⟩ := swapgastoken_ok ran
      obtain ⟨_, _, _, _, _, rfl⟩ := migratebal_ok migrated
      rcases ran with rfl | ⟨_, rfl⟩
      · exact .swaps caller auths newTokenContract newSymbol swapDestAccount swapMemo _ silent
      · refine .swaps caller auths newTokenContract newSymbol swapDestAccount swapMemo _ ?_
        intro effect member
        simp only [Contract.emit, fresh, List.nil_append, List.mem_singleton] at member
        rw [member]
        rfl
  | idles request harmless =>
      refine .updates _ _ _ _ (Or.inl rfl) .same silent ?_
      split at harmless <;> first | rfl | cases harmless
  | announces caller auths requested event own =>
      refine .updates _ _ _ _ (Or.inl rfl) .same silent ?_
      rcases event with rfl | ⟨_, rfl⟩ <;> rfl
  | lists caller auths requested egresslist receivers listing =>
      refine .updates _ _ _ _ (Or.inl rfl) .same silent ?_
      split at listing <;> first | rfl | cases listing
  | edits caller auths requested db editing =>
      refine .updates _ _ _ _ (Or.inl rfl) .same silent ?_
      split at editing <;> first | rfl | cases editing
  | replies caller auths input callback output =>
      refine .updates _ _ _ _ (Or.inl rfl) .same ?_ rfl
      intro effect member
      simp only [Contract.emit, fresh, List.nil_append, List.mem_singleton] at member
      rw [member]
      rfl
  | opens caller auths requested owner receivers after opening opened =>
      rw [openInternalBalance_config opened, openInternalBalance_effects opened]
      refine .updates _ _ _ _ (Or.inl rfl) .same silent ?_
      split at opening <;> first | rfl | cases opening
  | closes caller auths owner after ran =>
      obtain ⟨_, _, _, _, _, _, rfl⟩ := close_ok ran
      exact .updates _ _ _ _ (Or.inl rfl) .same silent rfl
  | withdraws caller auths owner quantity recipient after ran =>
      obtain ⟨_, _, _, _, _, _, _, _, rfl⟩ := withdraw_ok ran
      refine .updates _ _ _ _ (Or.inl rfl) .same ?_ rfl
      intro effect member
      simp only [Contract.emit, fresh, List.nil_append, List.mem_singleton] at member
      rw [member]
      rfl
  | deposits token sender quantity memo receiver after deposited =>
      obtain ⟨_, _, _, _, rfl⟩ := deposit_ok deposited
      refine .updates _ _ _ _ (Or.inl rfl) ?_ ?_ rfl
      · simp only [refreshPrices_config]
        exact .refreshed
      · rw [Contract.refreshPrices_eq]
        exact silent
  | adjustsEvm caller auths id delta subtract after ran =>
      obtain ⟨_, _, _, _, _, _, _,  rfl⟩ := addevmbal_ok ran
      exact .updates _ _ _ _ (Or.inl rfl) .same silent rfl
  | adjustsOpen caller auths account delta subtract after ran =>
      obtain ⟨_, _, _, _,  rfl⟩ := addopenbal_ok ran
      exact .updates _ _ _ _ (Or.inl rfl) .same silent rfl
  | migrates caller auths fromName limit after ran =>
      obtain ⟨_, _, _, _, _, rfl⟩ := migratebal_ok ran
      exact .updates _ _ _ _ (Or.inl rfl) .same silent rfl
  | pushes caller auths miner rlptx minPrice after ready processed =>
      have start : (refreshPrices env before).effects = [] := by
        rw [Contract.refreshPrices_eq]
        exact fresh
      obtain ⟨_, sender, _, _, transacted⟩ := processTx_transacts start processed
      rw [refreshPrices_config] at transacted
      exact .transacts _ _ _ _ sender _ (stored_of_unfrozen ready) (Or.inl rfl) transacted rfl
  | bridges request payer tx middle after ready bridges dispatched =>
      exact bridges.reconfigures fresh ready dispatched

theorem Reconfigures.saves {before after : ConfigWrapper} {effects : List Effect}
    (reconfigured : Reconfigures env before request after effects) : before.Saves after := by
  have starting : ∀ start, start = before ∨ start = (before.promoteEvmVersion env.now).2 → before.Saves start := by
    rintro start (rfl | rfl)
    · exact ConfigWrapper.Saves.refl _
    · exact ConfigWrapper.promoteEvmVersion_saves _ _
  cases reconfigured with
  | starts _ _ _ _ _ _ config _ configured =>
      obtain ⟨_, _, _, _, rfl⟩ := ConfigWrapper.setFeeParameters_eq configured
      exact Or.inl rfl
  | sets _ _ _ _ configured => exact configured.saves
  | swaps => exact ConfigWrapper.saves_set _ _
  | updates _ start _ _ started updated _ => exact (starting start started).trans updated.saves
  | transacts _ start _ _ _ _ _ started transacted =>
      rw [transacted.config]
      exact (((starting start started).trans (ConfigWrapper.refresh_saves _ _)).trans
        (ConfigWrapper.promoteEvmVersion_saves _ _)).trans (ConfigWrapper.promoteConsensusParam_saves _ _)

/-- The configuration as the next action finds it. -/
def World.config (world : World) : ConfigWrapper := (Contract.load world.tables).config

theorem load_store_config {contract : Contract} {tables : Tables}
    (saved : (Contract.load tables).config.Saves contract.config) :
    (Contract.load (contract.store tables)).config = { contract.config with
      dirty := false
      stored := contract.config.dirty || (Contract.load tables).config.stored } := by
  cases dirty : contract.config.dirty with
  | true =>
      simp [Contract.load, Contract.store, ConfigWrapper.load, ConfigWrapper.flush, dirty]
  | false =>
      rcases saved with flagged | ⟨cached, _⟩
      · rw [dirty] at flagged
        cases flagged
      · simp only [Contract.load, Contract.store, ConfigWrapper.load, ConfigWrapper.flush, dirty] at cached ⊢
        simp [cached]

theorem Handled.reconfigures {host : Host} {view : ChainView} {others later : List Request} {rest : List Pending}
    {holding : Name → Symbol → Nat} {contract : Contract} {world : World}
    (handled : Handled host view others later request rest holding contract world) :
    Reconfigures (host.env view world.now request) world.config request contract.config contract.effects ∧
      (world.handled others later request rest holding contract).config = { contract.config with
        dirty := false
        stored := contract.config.dirty || world.config.stored } := by
  have reconfigured := (Request.run_does handled.ran).reconfigures rfl
  exact ⟨reconfigured, load_store_config reconfigured.saves⟩

end EosEvm

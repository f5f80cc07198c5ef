import EosEvm.StoragePrice
import EosEvm.Timeline
import EosEvm.Books

/-! The gas parameters of transactions. Parameters come into effect long after the request that
schedules them was checked, and the version may have moved on in between. The checks of the two
actions that schedule them are enough all the same: no transaction runs with parameters outside
of what its version allows. -/

namespace EosEvm

open Abort

/-- The parameters are within the bound that `check_gas_overflow` puts on creating a contract. -/
def GasParameter.Fits (parameter : GasParameter) : Prop :=
  ConfigWrapper.maxCodeSize * parameter.gasTxcreate + parameter.gasCodedeposit ≤ ConfigWrapper.overflowLimit

instance (parameter : GasParameter) : Decidable parameter.Fits :=
  inferInstanceAs (Decidable (_ ≤ _))

/-- The request names exactly these parameters. -/
def Request.names (parameter : GasParameter) : Request → Prop
  | .action _ _ (.setgasparam gasTxnewaccount gasNewaccount gasTxcreate gasCodedeposit gasSset) =>
      parameter = ⟨gasTxnewaccount, gasNewaccount, gasTxcreate, gasCodedeposit, gasSset⟩
  | _ => False

namespace ConfigWrapper

variable {wrapper after : ConfigWrapper} {now : Nat}

theorem checkGasOverflow_fits {gasTxcreate gasCodedeposit : Nat}
    (checked : checkGasOverflow gasTxcreate gasCodedeposit = true) :
    maxCodeSize * gasTxcreate + gasCodedeposit ≤ overflowLimit := by
  simp only [checkGasOverflow, Bool.and_eq_true, decide_eq_true_eq] at checked
  have product : maxCodeSize * gasTxcreate ≤ overflowLimit :=
    (Nat.mul_le_mul_right _ checked.1).trans (Nat.div_mul_le_self _ _)
  omega

theorem gasPerByte_fits {ramPrice : Int} {unit storagePrice minerCut perByte : Nat}
    (computed : gasPerByte ramPrice unit storagePrice minerCut = .ok perByte) :
    maxCodeSize * Words.u64 (contractFixedBytes * perByte) + perByte ≤ overflowLimit := by
  simp only [gasPerByte, bind_ok, check_ok, exists_const, pure_ok] at computed
  obtain ⟨_, _, _, checked, rfl⟩ := computed
  rw [Nat.mul_comm contractFixedBytes]
  exact checkGasOverflow_fits checked

theorem updateConsensusParameters2_all {gasTxnewaccount gasNewaccount gasTxcreate gasCodedeposit gasSset : Nat}
    (updated : wrapper.updateConsensusParameters2 (some gasTxnewaccount) (some gasNewaccount) (some gasTxcreate)
      (some gasCodedeposit) (some gasSset) now = .ok after) :
    (3 ≤ wrapper.getEvmVersion now ∨ gasSsetMin ≤ gasSset) ∧
      after.cached.consensusParameter = {
        cachedValue := wrapper.getConsensusParam now
        pendingValue := some {
          value := ⟨gasTxnewaccount, gasNewaccount, gasTxcreate, gasCodedeposit, gasSset⟩
          time := now } } := by
  simp only [updateConsensusParameters2, bind_ok, check_ok, exists_const, pure_ok] at updated
  obtain ⟨_, promoter, update, rfl⟩ := updated
  obtain ⟨parameter, visited, rfl⟩ := ValuePromoter.update_ok update
  simp only [bind_ok, check_ok, exists_const, pure_ok] at visited
  obtain ⟨checked, rfl⟩ := visited
  exact ⟨checked.imp_right fun every => every gasSset rfl, rfl⟩

theorem getConsensusParam_mem (wrapper : ConfigWrapper) (now : Nat) :
    wrapper.getConsensusParam now ∈ wrapper.cached.consensusParameter.values := by
  rw [getConsensusParam, ValuePromoter.getValue_eq_valueIn]
  exact ValuePromoter.valueIn_mem _ _ _

theorem getEvmVersion_mem (wrapper : ConfigWrapper) (now : Nat) :
    wrapper.getEvmVersion now ∈ wrapper.cached.evmVersion.values := by
  rw [getEvmVersion, ValuePromoter.getValue_eq_valueIn]
  exact ValuePromoter.valueIn_mem _ _ _

/-- Nothing new is scheduled. -/
structure Narrows (wrapper after : ConfigWrapper) : Prop where
  versions : ∀ version ∈ after.cached.evmVersion.values, version ∈ wrapper.cached.evmVersion.values
  parameters : ∀ parameter ∈ after.cached.consensusParameter.values,
    parameter ∈ wrapper.cached.consensusParameter.values

theorem Narrows.of_same (versions : after.cached.evmVersion = wrapper.cached.evmVersion)
    (parameters : after.cached.consensusParameter = wrapper.cached.consensusParameter) : wrapper.Narrows after :=
  ⟨fun _ member => versions ▸ member, fun _ member => parameters ▸ member⟩

theorem Narrows.trans {middle : ConfigWrapper} (first : wrapper.Narrows middle) (second : middle.Narrows after) :
    wrapper.Narrows after :=
  ⟨fun version member => first.versions version (second.versions version member),
    fun parameter member => first.parameters parameter (second.parameters parameter member)⟩

theorem promoteEvmVersion_narrows (wrapper : ConfigWrapper) (now : Nat) :
    wrapper.Narrows (wrapper.promoteEvmVersion now).2 := by
  obtain ⟨_, _, same⟩ := promoteEvmVersion_eq wrapper now
  rw [same]
  exact ⟨fun _ member => ValuePromoter.mem_values_maybePromote member, fun _ member => member⟩

theorem promoteConsensusParam_narrows (wrapper : ConfigWrapper) (now : Nat) :
    wrapper.Narrows (wrapper.promoteConsensusParam now).2.2 := by
  obtain ⟨_, same⟩ := promoteConsensusParam_eq wrapper now
  rw [same]
  exact ⟨fun _ member => member, fun _ member => ValuePromoter.mem_values_maybePromote member⟩

theorem refresh_narrows (wrapper : ConfigWrapper) (now : Nat) : wrapper.Narrows (wrapper.refresh now) := by
  obtain ⟨_, _, _, _, _, _, same⟩ := refresh_eq wrapper now
  rw [same]
  exact .of_same rfl rfl

theorem enqueueGasPrice_narrows {gasPrice : Nat} (queued : wrapper.enqueueGasPrice gasPrice now = .ok after) :
    wrapper.Narrows after := by
  obtain ⟨_, _, _, rfl⟩ := enqueueGasPrice_eq queued
  exact .of_same rfl rfl

theorem enqueueGasPrices_narrows {prices : GasPrices} (queued : wrapper.enqueueGasPrices prices now = .ok after) :
    wrapper.Narrows after := by
  obtain ⟨_, _, _, rfl⟩ := enqueueGasPrices_eq queued
  exact .of_same rfl rfl

theorem Updates.narrows (updates : wrapper.Updates now after) : wrapper.Narrows after := by
  cases updates with
  | same => exact .of_same rfl rfl
  | refreshed => exact refresh_narrows wrapper now
  | promoted => exact (refresh_narrows wrapper now).trans (promoteEvmVersion_narrows _ now)

/-- What is new in the schedule was checked: a version is supported, and parameters are allowed in
the version in effect and fit, unless the request names them. -/
structure Schedules (now : Nat) (request : Request) (wrapper after : ConfigWrapper) : Prop where
  versions : ∀ version ∈ after.cached.evmVersion.values,
    version ∈ wrapper.cached.evmVersion.values ∨ version ≤ maxEosEvmVersion
  parameters : ∀ parameter ∈ after.cached.consensusParameter.values,
    parameter ∈ wrapper.cached.consensusParameter.values ∨
      (3 ≤ wrapper.getEvmVersion now ∨ gasSsetMin ≤ parameter.gasSset) ∧ (parameter.Fits ∨ request.names parameter)

theorem Narrows.schedules (narrows : wrapper.Narrows after) (request : Request) :
    Schedules now request wrapper after :=
  ⟨fun version member => Or.inl (narrows.versions version member),
    fun parameter member => Or.inl (narrows.parameters parameter member)⟩

theorem Schedules.of_same {request : Request} (versions : after.cached.evmVersion = wrapper.cached.evmVersion)
    (parameters : after.cached.consensusParameter = wrapper.cached.consensusParameter) :
    Schedules now request wrapper after :=
  (Narrows.of_same versions parameters).schedules request

theorem Schedules.then {request : Request} {middle : ConfigWrapper} (schedules : Schedules now request wrapper middle)
    (narrows : middle.Narrows after) : Schedules now request wrapper after :=
  ⟨fun version member => schedules.versions version (narrows.versions version member),
    fun parameter member => schedules.parameters parameter (narrows.parameters parameter member)⟩

theorem Schedules.of_updated {request : Request} {gasTxnewaccount gasNewaccount gasTxcreate gasCodedeposit gasSset : Nat}
    (updated : wrapper.updateConsensusParameters2 (some gasTxnewaccount) (some gasNewaccount) (some gasTxcreate)
      (some gasCodedeposit) (some gasSset) now = .ok after)
    (allowed : GasParameter.Fits ⟨gasTxnewaccount, gasNewaccount, gasTxcreate, gasCodedeposit, gasSset⟩ ∨
      request.names ⟨gasTxnewaccount, gasNewaccount, gasTxcreate, gasCodedeposit, gasSset⟩) :
    Schedules now request wrapper after := by
  obtain ⟨checked, scheduled⟩ := updateConsensusParameters2_all updated
  obtain ⟨_, _, rfl⟩ := updateConsensusParameters2_ok updated
  refine ⟨fun _ member => Or.inl member, fun parameter member => ?_⟩
  rw [scheduled] at member
  simp only [ValuePromoter.values, Option.map_some, Option.toList_some, List.mem_cons, List.not_mem_nil,
    or_false] at member
  rcases member with rfl | rfl
  · exact Or.inl (getConsensusParam_mem wrapper now)
  · exact Or.inr ⟨checked, allowed⟩

theorem Configures.schedules {caller : Option Name} {auths : List Name} {requested : Action}
    (configures : wrapper.Configures now requested after) :
    Schedules now (.action caller auths requested) wrapper after := by
  cases configures with
  | setfeeparams fees after updated =>
      obtain ⟨_, _, _, _, _, rfl⟩ := setFeeParameters_frame updated
      exact .of_same rfl rfl
  | freeze | setgaslimit => exact .of_same rfl rfl
  | setversion version after updated =>
      obtain ⟨supported, _, _, _, _, rfl⟩ := setEvmVersion_ok updated
      refine ⟨fun other member => ?_, fun _ member => Or.inl member⟩
      simp only [ValuePromoter.values, Option.map_some, Option.toList_some, List.mem_cons, List.not_mem_nil,
        or_false] at member
      rcases member with rfl | rfl
      · exact Or.inl (getEvmVersion_mem wrapper now)
      · exact Or.inr supported
  | updtgasparam ramPriceMb storagePrice after updated =>
      simp only [updateConsensusParameters, bind_ok, check_ok, exists_const] at updated
      obtain ⟨_, _, _, unit, _, perByte, computed, scheduled, changed, priced⟩ := updated
      refine (Schedules.of_updated changed (Or.inl (gasPerByte_fits computed))).then ?_
      split at priced
      · exact enqueueGasPrices_narrows priced
      · split at priced
        · exact enqueueGasPrice_narrows priced
        · rw [pure_ok] at priced
          exact priced ▸ .of_same rfl rfl
  | setgasparam _ _ _ _ _ after updated => exact Schedules.of_updated updated (Or.inr rfl)
  | enqueued prices after active queued =>
      exact ((promoteEvmVersion_narrows wrapper now).trans (enqueueGasPrices_narrows queued)).schedules _
  | replaced =>
      exact ((promoteEvmVersion_narrows wrapper now).schedules _).then (.of_same rfl rfl)

end ConfigWrapper

theorem Reconfigures.schedules {env : Env} {wrapper config : ConfigWrapper} {request : Request} {effects : List Effect}
    (reconfigured : Reconfigures env wrapper request config effects) :
    ConfigWrapper.Schedules env.now request wrapper config := by
  have starting : ∀ start, start = wrapper ∨ start = (wrapper.promoteEvmVersion env.now).2 →
      wrapper.Narrows start := by
    rintro start (rfl | rfl)
    · exact .of_same rfl rfl
    · exact ConfigWrapper.promoteEvmVersion_narrows wrapper env.now
  cases reconfigured with
  | starts _ _ _ _ _ _ _ _ configured =>
      obtain ⟨_, _, _, _, _, rfl⟩ := ConfigWrapper.setFeeParameters_frame configured
      exact .of_same rfl rfl
  | sets _ _ _ _ configured => exact configured.schedules
  | swaps => exact .of_same rfl rfl
  | updates _ start _ _ started updated => exact ((starting start started).trans updated.narrows).schedules _
  | transacts _ start _ _ _ _ _ started transacted =>
      rw [transacted.config]
      exact ((starting start started).trans ((ConfigWrapper.refresh_narrows start env.now).trans
        ((ConfigWrapper.promoteEvmVersion_narrows _ env.now).trans
          (ConfigWrapper.promoteConsensusParam_narrows _ env.now)))).schedules _

theorem Reconfigures.gasParams {env : Env} {wrapper config : ConfigWrapper} {request : Request} {effects : List Effect}
    (reconfigured : Reconfigures env wrapper request config effects) :
    ∀ execution ∈ EosEvm.executions effects, execution.version = wrapper.getEvmVersion env.now ∧
      execution.gasParams ∈ wrapper.cached.consensusParameter.values := by
  intro execution member
  refine ⟨?_, ?_⟩
  · rcases reconfigured.executions with none | ⟨_, ran, only, _, version⟩
    · rw [none] at member
      cases member
    · rw [only, List.mem_singleton] at member
      exact member ▸ version
  · cases reconfigured with
    | starts | sets => cases member
    | swaps _ _ _ _ _ _ _ quiet =>
        rw [executions_quiet quiet] at member
        cases member
    | updates _ _ _ _ _ _ quiet =>
        rw [executions_quiet quiet] at member
        cases member
    | transacts _ start _ _ _ _ ready started transacted =>
        obtain ⟨payments, rlptx, rfl, _⟩ := transacted.effects
        rw [executions_append, executions_sent] at member
        obtain rfl := List.mem_singleton.mp member
        have inside := ConfigWrapper.getConsensusParam_mem ((start.refresh env.now).promoteEvmVersion env.now).2 env.now
        have first := (ConfigWrapper.promoteEvmVersion_narrows (start.refresh env.now) env.now).parameters _ inside
        have second := (ConfigWrapper.refresh_narrows start env.now).parameters _ first
        rcases started with rfl | rfl
        · exact second
        · exact (ConfigWrapper.promoteEvmVersion_narrows wrapper env.now).parameters _ second

/-- The parameters are allowed in the version, and they fit unless a request named them. -/
structure GasParameter.Valid (log : List Request) (version : Nat) (parameter : GasParameter) : Prop where
  sset : 3 ≤ version ∨ gasSsetMin ≤ parameter.gasSset
  fits : parameter.Fits ∨ ∃ request ∈ log, request.names parameter

theorem GasParameter.Valid.later {log more : List Request} {version later : Nat} {parameter : GasParameter}
    (valid : parameter.Valid log version) (known : log ⊆ more) (rises : version ≤ later) :
    parameter.Valid more later :=
  ⟨valid.sset.imp_left rises.trans', valid.fits.imp_right fun ⟨request, member, named⟩ =>
    ⟨request, known member, named⟩⟩

/-- What is scheduled is valid in the version in effect, and so was what transactions ran with. -/
structure World.Parametrised (world : World) (log : List Request) : Prop where
  timely : world.Timely
  versions : ∀ version ∈ world.config.cached.evmVersion.values, version ≤ maxEosEvmVersion
  parameters : ∀ parameter ∈ world.config.cached.consensusParameter.values,
    parameter.Valid log (world.config.getEvmVersion world.now)
  past : ∀ execution ∈ executions world.history, execution.version ≤ maxEosEvmVersion ∧
    execution.gasParams.Valid log execution.version

variable {host : Host} {world next : World} {log : List Request}

theorem World.Parametrised.tick {now : Nat} (parametrised : world.Parametrised log) (later : world.now ≤ now) :
    ({ world with now := now } : World).Parametrised log := by
  -- A later version asks no more of the parameters than the one they were checked in.
  have rises : world.config.getEvmVersion world.now ≤ world.config.getEvmVersion now := by
    rw [← ConfigWrapper.version_pricing, ← ConfigWrapper.version_pricing]
    exact parametrised.timely.bounded.calm.version_mono later
  exact ⟨parametrised.timely.tick later, parametrised.versions,
    fun parameter member => (parametrised.parameters parameter member).later (fun _ inside => inside) rises,
    parametrised.past⟩

theorem World.Parametrised.handled {view : ChainView} {before after : List Request} {request : Request}
    {rest : List Pending} {holding : Name → Symbol → Nat} {contract : Contract} (parametrised : world.Parametrised log)
    (handled : Handled host view before after request rest holding contract world) :
    (world.handled before after request rest holding contract).Parametrised (log ++ [request]) := by
  obtain ⟨reconfigured, reloaded⟩ := handled.reconfigures
  have version := handled.version
  have schedules : ConfigWrapper.Schedules world.now request world.config
      (world.handled before after request rest holding contract).config := by
    rw [reloaded]
    exact reconfigured.schedules.then (.of_same rfl rfl)
  have known : log ⊆ log ++ [request] := List.subset_append_left _ _
  refine ⟨parametrised.timely.handled handled, ?_, ?_, ?_⟩
  · intro other member
    exact (schedules.versions other member).elim (parametrised.versions other) id
  · intro parameter member
    have valid : parameter.Valid (log ++ [request]) (world.config.getEvmVersion world.now) := by
      rcases schedules.parameters parameter member with old | ⟨sset, fits⟩
      · exact (parametrised.parameters parameter old).later known le_rfl
      · exact ⟨sset, fits.imp_right fun named => ⟨request, by simp, named⟩⟩
    exact version ▸ valid
  · intro execution member
    have history : executions (world.handled before after request rest holding contract).history =
        executions world.history ++ executions contract.effects := executions_append _ _
    rw [history] at member
    rcases List.mem_append.mp member with old | new
    · obtain ⟨supported, valid⟩ := parametrised.past execution old
      exact ⟨supported, valid.later known le_rfl⟩
    · have ran := reconfigured.gasParams execution new
      have current : execution.version = world.config.getEvmVersion world.now := ran.1
      rw [current]
      exact ⟨parametrised.versions _ (ConfigWrapper.getEvmVersion_mem _ _),
        (parametrised.parameters _ ran.2).later known le_rfl⟩

theorem World.Parametrised.step {label : Label} (parametrised : world.Parametrised log)
    (stepped : Stepped host world label next) : next.Parametrised (log ++ entries host served world label) := by
  cases stepped with
  | tick now _ later =>
      rw [entries, List.append_nil]
      exact parametrised.tick later
  | submit requests idle foreign =>
      rw [entries, List.append_nil]
      exact ⟨(Stepped.submit requests idle foreign).timely parametrised.timely, parametrised.versions,
        parametrised.parameters, parametrised.past⟩
  | passed view before after sent rest top away foreign =>
      rw [entries_passed _ top away, List.append_nil]
      exact ⟨(Stepped.passed view before after sent rest top away foreign).timely parametrised.timely,
        parametrised.versions, parametrised.parameters, parametrised.past⟩
  | handled view before after request rest holding contract handled =>
      rw [entries_handled _ handled]
      exact parametrised.handled handled

/-- In every run, whenever parameters are scheduled and however the version moves on: a transaction
runs under a supported version, with a price of a storage slot that is not below the least one
before version 3, and within the bound of `check_gas_overflow`, unless the transaction runs with the
very parameters that a `setgasparam` named. -/
theorem run_parameters_valid (host : Host) (holding : Name → Symbol → Nat) (labels : List Label) (world : World)
    (finished : run host labels (World.start holding) = .ok world) :
    ∀ execution ∈ executions world.history, execution.version ≤ maxEosEvmVersion ∧
      (execution.version < 3 → gasSsetMin ≤ execution.gasParams.gasSset) ∧
      (ConfigWrapper.maxCodeSize * execution.gasParams.gasTxcreate + execution.gasParams.gasCodedeposit ≤
          ConfigWrapper.overflowLimit ∨
        ∃ request ∈ noted host served labels (World.start holding), request.names execution.gasParams) := by
  have start : (World.start holding).Parametrised [] := by
    refine ⟨run_timely ((foldOutcome_nil (step host) _ _).mpr rfl), ?_, ?_, fun _ member => by cases member⟩
    · intro version member
      obtain rfl : version = 0 := List.mem_singleton.mp member
      decide
    · intro parameter member
      obtain rfl : parameter = {} := List.mem_singleton.mp member
      exact ⟨Or.inr (by decide), Or.inl (by decide)⟩
  have reached := run_journal (fun _ => True) served World.Parametrised
    (fun _ _ _ _ _ parametrised stepped => parametrised.step stepped) start (fun _ _ => trivial) finished
  rw [List.nil_append] at reached
  intro execution member
  obtain ⟨supported, valid⟩ := reached.past execution member
  exact ⟨supported, fun below => valid.sset.resolve_left (by omega), valid.fits⟩

def Ledger.parametrised : List Label :=
  Ledger.versionOne ++ Ledger.act Ledger.self (.setgasparam 1 2 3 4 2900) 0 ++ Ledger.later 2 ++
    Ledger.act Ledger.alice (Ledger.callNothing Ledger.alice 21000) 2

theorem run_parameters_valid_set :
    ∃ world execution, run Ledger.host Ledger.parametrised (World.start fun _ _ => 0) = .ok world ∧
      executions world.history = [execution] ∧ execution.gasParams = ⟨1, 2, 3, 4, 2900⟩ ∧
      execution.version ≤ maxEosEvmVersion ∧
      (execution.version < 3 → gasSsetMin ≤ execution.gasParams.gasSset) := by
  obtain ⟨world, finished, seen⟩ := exists_of_view (run Ledger.host Ledger.parametrised (World.start fun _ _ => 0))
    (fun world => (executions world.history).map Execution.gasParams) [⟨1, 2, 3, 4, 2900⟩] (by decide +kernel)
  obtain ⟨execution, only, parameters⟩ := List.map_eq_singleton_iff.mp seen
  obtain ⟨supported, sset, _⟩ := run_parameters_valid Ledger.host _ _ world finished execution (by simp [only])
  exact ⟨world, execution, finished, only, parameters, supported, sset⟩

end EosEvm

import EosEvm.Tidy
import EosEvm.LedgerCore

/-! Swaps of the gas token. A swap gives the configuration, the statistics, the fees and some
balances the new symbol and leaves the amounts as they are, so that the values stay where the
precision does. -/

namespace EosEvm

open Abort

theorem Symbol.unit_injective {first second : Symbol} (precise : first.precision ≤ evmPrecision)
    (other : second.precision ≤ evmPrecision) (same : first.unit = second.unit) : first.precision = second.precision := by
  have exponents := Nat.pow_right_injective (Nat.le_refl 2 |>.trans (by decide : 2 ≤ 10)) same
  omega

namespace BalanceWithDust

variable {row : BalanceWithDust} {symbol : Symbol}

def Regular (row : BalanceWithDust) : Prop :=
  row.balance.symbol.precision ≤ evmPrecision ∧ row.dust < row.balance.symbol.unit

def Vanishes (symbol : Symbol) (row : BalanceWithDust) : Prop := row.balance.amount = 0 ∧ row.dust < symbol.unit

def Survives (symbol : Symbol) (row : BalanceWithDust) : Prop :=
  (row.withSymbol symbol).value = row.value ∧ (row.withSymbol symbol).Regular

theorem survives_of_precision (normal : row.Normal) (same : symbol.precision = row.balance.symbol.precision) :
    row.Survives symbol :=
  ⟨value_withSymbol same, le_of_eq_of_le same normal.precise,
    lt_of_lt_of_eq normal.dusty (unit_of_precision same).symm⟩

theorem survives_of_vanishes (precise : symbol.precision ≤ evmPrecision) (vanishes : row.Vanishes symbol) :
    row.Survives symbol := by
  refine ⟨?_, precise, vanishes.2⟩
  simp [value, withSymbol, vanishes.1]

theorem vanishes_of_survives (normal : row.Normal) (differs : symbol.precision ≠ row.balance.symbol.precision)
    (survives : row.Survives symbol) : row.Vanishes symbol := by
  obtain ⟨same, precise, dusty⟩ := survives
  refine ⟨?_, dusty⟩
  have nonneg := normal.nonneg
  have products : row.balance.amount.toNat * symbol.unit = row.balance.amount.toNat * row.balance.symbol.unit :=
    Nat.add_right_cancel same
  rcases Nat.eq_zero_or_pos row.balance.amount.toNat with zero | positive
  · omega
  · exact absurd (Symbol.unit_injective precise normal.precise (Nat.eq_of_mul_eq_mul_left positive products)) differs

end BalanceWithDust

/-- What an asset denotes, in the smallest EVM unit. -/
def Asset.wei (asset : Asset) : Int := asset.amount * asset.symbol.unit

def Asset.withSymbol (asset : Asset) (symbol : Symbol) : Asset := { asset with symbol := symbol }

theorem Asset.wei_withSymbol_of_precision {asset : Asset} {symbol : Symbol}
    (same : symbol.precision = asset.symbol.precision) : (asset.withSymbol symbol).wei = asset.wei := by
  rw [wei, wei, withSymbol, BalanceWithDust.unit_of_precision same]

theorem Asset.wei_withSymbol_of_zero {asset : Asset} {symbol : Symbol} (zero : asset.amount = 0) :
    (asset.withSymbol symbol).wei = asset.wei := by
  simp [wei, withSymbol, zero]

theorem Asset.zero_of_wei_withSymbol {asset : Asset} {symbol : Symbol} (precise : symbol.precision ≤ evmPrecision)
    (other : asset.symbol.precision ≤ evmPrecision) (differs : symbol.precision ≠ asset.symbol.precision)
    (same : (asset.withSymbol symbol).wei = asset.wei) : asset.amount = 0 := by
  by_contra nonzero
  have units : (symbol.unit : Int) = asset.symbol.unit := mul_left_cancel₀ nonzero same
  exact differs (Symbol.unit_injective precise other (Int.ofNat.inj units))

/-- What the statistics denote; those that are not stored are zero. -/
def Funds.gasFeeValue (funds : Funds) : Nat := (funds.statistics.map fun stored => stored.gasFeeIncome.value).getD 0

def Funds.ingressBridgeFeeValue (funds : Funds) : Nat :=
  (funds.statistics.map fun stored => stored.ingressBridgeFeeIncome.value).getD 0

theorem Funds.statisticsIn_gasFeeValue (funds : Funds) (symbol : Symbol) :
    (funds.statisticsIn symbol).gasFeeIncome.value = funds.gasFeeValue := by
  cases found : funds.statistics with
  | none => simp [statisticsIn, gasFeeValue, found, BalanceWithDust.value]
  | some statistics => simp [statisticsIn, gasFeeValue, found]

theorem Funds.statisticsIn_ingressBridgeFeeValue (funds : Funds) (symbol : Symbol) :
    (funds.statisticsIn symbol).ingressBridgeFeeIncome.value = funds.ingressBridgeFeeValue := by
  cases found : funds.statistics with
  | none => simp [statisticsIn, ingressBridgeFeeValue, found, BalanceWithDust.value]
  | some statistics => simp [statisticsIn, ingressBridgeFeeValue, found]

/-- The contract after a swap and some migrations: the balances they visited are renamed, and
everything else but the other balances. -/
structure Contract.Renamed (symbol : Symbol) (visited : List Name) (before after : Contract) : Prop where
  balances : ∀ owner ∈ visited,
    after.funds.balances.get? owner = (before.funds.balances.get? owner).map fun row => row.withSymbol symbol
  kept : ∀ owner, owner ∉ visited → after.funds.balances.get? owner = before.funds.balances.get? owner
  inevm : ∃ row, before.funds.inevm = some row ∧ after.funds.inevm = some (row.withSymbol symbol)
  statistics : after.funds.statistics = some ⟨(before.funds.statisticsIn symbol).gasFeeIncome.withSymbol symbol,
    (before.funds.statisticsIn symbol).ingressBridgeFeeIncome.withSymbol symbol⟩
  receivers : ∀ receiver, after.receivers.get? receiver = (before.receivers.get? receiver).map fun row =>
    { row with minFee := row.minFee.withSymbol symbol }
  fee : after.config.cached.ingressBridgeFee = before.config.cached.ingressBridgeFee.withSymbol symbol

namespace Contract

variable {before after middle : Contract} {symbol : Symbol} {visited : List Name}

theorem foldl_modify_get? (symbol : Symbol) (rows : List (Name × BalanceWithDust))
    (balances : Table Name BalanceWithDust) (owner : Name) :
    (rows.foldl (fun balances row => balances.modify row.1 fun row => row.withSymbol symbol) balances).get? owner =
      if owner ∈ rows.map Prod.fst then (balances.get? owner).map fun row => row.withSymbol symbol
      else balances.get? owner := by
  induction rows generalizing balances with
  | nil => rfl
  | cons head rows ih =>
      rw [List.foldl_cons, ih, Table.get?_modify, List.map_cons]
      by_cases here : head.1 = owner
      · rw [if_pos here, if_pos (List.mem_cons.mpr (Or.inl here.symm)), Option.map_map]
        exact ite_self _
      · rw [if_neg here]
        exact if_congr (by simp [Ne.symm here]) rfl rfl

theorem mem_migrated {fromName owner : Name} {limit : Nat} {row : BalanceWithDust}
    (visited : (owner, row) ∈ before.migrated fromName limit) : before.funds.balances.get? owner = some row :=
  (Table.get?_eq_some _ _ _).mpr (List.mem_of_mem_filter (List.mem_of_mem_take visited))

theorem migratebal_renames {fromName : Name} {limit : Int} {row : BalanceWithDust}
    (found : before.funds.inevm = some row) (ran : migratebal fromName limit before = .ok after) :
    ∃ balances, after = { before with funds := { before.funds with balances := balances } } ∧
      (∀ owner ∈ (before.migrated fromName limit.toNat).map Prod.fst,
        balances.get? owner = (before.funds.balances.get? owner).map fun stored =>
          stored.withSymbol row.balance.symbol) ∧
      ∀ owner, owner ∉ (before.migrated fromName limit.toNat).map Prod.fst →
        balances.get? owner = before.funds.balances.get? owner := by
  obtain ⟨inevm, _, present, rfl, _, rfl⟩ := migratebal_ok ran
  obtain rfl : row = inevm := Option.some.inj (found.symm.trans present)
  refine ⟨_, rfl, ?_, ?_⟩
  · intro owner visited
    rw [foldl_modify_get?]
    split
    · rfl
    · -- a balance it visits and does not rewrite has the symbol already
      rename_i untouched
      obtain ⟨⟨_, stored⟩, member, rfl⟩ := List.mem_map.mp visited
      have same : stored.balance.symbol = row.balance.symbol := by
        by_contra differs
        exact untouched (List.mem_map_of_mem (List.mem_filter.mpr ⟨member, decide_eq_true differs⟩))
      rw [mem_migrated member, Option.map_some, ← same]
      rfl
  · intro owner missed
    rw [foldl_modify_get?, if_neg]
    intro rewritten
    obtain ⟨stored, member, rfl⟩ := List.mem_map.mp rewritten
    exact missed (List.mem_map_of_mem (List.mem_of_mem_filter member))

theorem Renamed.migratebal {fromName : Name} {limit : Int} (renamed : Renamed symbol visited before middle)
    (ran : migratebal fromName limit middle = .ok after) :
    Renamed symbol (visited ++ (middle.migrated fromName limit.toNat).map Prod.fst) before after := by
  obtain ⟨inevm, present, changed⟩ := renamed.inevm
  obtain ⟨balances, rfl, visits, misses⟩ := migratebal_renames changed ran
  refine ⟨?_, ?_, ⟨inevm, present, changed⟩, renamed.statistics, renamed.receivers, renamed.fee⟩
  · intro owner member
    by_cases again : owner ∈ (middle.migrated fromName limit.toNat).map Prod.fst
    · by_cases earlier : owner ∈ visited
      · rw [visits owner again, renamed.balances owner earlier, Option.map_map]
        rfl
      · rw [visits owner again, renamed.kept owner earlier]
        rfl
    · rw [misses owner again]
      exact renamed.balances owner ((List.mem_append.mp member).resolve_right again)
  · intro owner missed
    rw [List.mem_append, not_or] at missed
    rw [misses owner missed.2]
    exact renamed.kept owner missed.1

theorem swapgastoken_renames {env : Env} {newTokenContract : Name} {newSymbol : Symbol} {swapDestAccount : Name}
    {swapMemo : Bytes} (ran : swapgastoken env newTokenContract newSymbol swapDestAccount swapMemo before = .ok after) :
    Renamed newSymbol ((before.migrated env.self 1).map Prod.fst) before after := by
  obtain ⟨_, inevm, statistics, swapped, found, counted, migrated, ran⟩ := swapgastoken_ok ran
  have stored : statistics = before.funds.statisticsIn newSymbol := (Funds.getStatistics_ok counted).2
  subst stored
  generalize startEq : Contract.mk _ _ _ _ _ _ _ = start at migrated
  have visits : start.migrated env.self 1 = before.migrated env.self 1 := by
    subst startEq
    rfl
  have started : Renamed newSymbol [] before start := by
    subst startEq
    refine ⟨fun _ member => (by cases member), fun _ _ => rfl, ⟨inevm, found, rfl⟩, rfl, ?_, rfl⟩
    intro receiver
    exact Table.lookup_values receiver (fun row : MessageReceiver =>
      { row with minFee := row.minFee.withSymbol newSymbol }) before.receivers.rows
  have renamed := started.migratebal migrated
  rw [List.nil_append, show start.migrated env.self (1 : Int).toNat = _ from visits] at renamed
  rcases ran with rfl | ⟨_, rfl⟩
  · exact renamed
  · exact ⟨renamed.balances, renamed.kept, renamed.inevm, renamed.statistics, renamed.receivers, renamed.fee⟩

/-- What a swap should keep: every balance, the tokens inside the EVM, the statistics and the
fees denote what they did, and the balances are regular. -/
structure KeepsValue (before after : Contract) : Prop where
  balances : ∀ owner, (after.funds.balances.get? owner).map BalanceWithDust.value =
    (before.funds.balances.get? owner).map BalanceWithDust.value
  inevm : after.funds.inevm.map BalanceWithDust.value = before.funds.inevm.map BalanceWithDust.value
  gasFeeIncome : after.funds.gasFeeValue = before.funds.gasFeeValue
  ingressBridgeFeeIncome : after.funds.ingressBridgeFeeValue = before.funds.ingressBridgeFeeValue
  receivers : ∀ receiver, (after.receivers.get? receiver).map (fun row => row.minFee.wei) =
    (before.receivers.get? receiver).map fun row => row.minFee.wei
  fee : after.config.cached.ingressBridgeFee.wei = before.config.cached.ingressBridgeFee.wei
  regular : ∀ owner row, after.funds.balances.get? owner = some row → row.Regular
  regularInevm : ∀ row, after.funds.inevm = some row → row.Regular
  regularStatistics : ∀ statistics, after.funds.statistics = some statistics →
    statistics.gasFeeIncome.Regular ∧ statistics.ingressBridgeFeeIncome.Regular

/-- Whatever is renamed to a symbol, with the balances of the accounts that are visited, is zero
up to dust below its unit. -/
structure Vanishing (symbol : Symbol) (visited : List Name) (before : Contract) : Prop where
  precise : symbol.precision ≤ evmPrecision
  balances : ∀ owner ∈ visited, ∀ row, before.funds.balances.get? owner = some row → row.Vanishes symbol
  inevm : ∀ row, before.funds.inevm = some row → row.Vanishes symbol
  statistics : ∀ statistics, before.funds.statistics = some statistics →
    statistics.gasFeeIncome.Vanishes symbol ∧ statistics.ingressBridgeFeeIncome.Vanishes symbol
  receivers : ∀ receiver row, before.receivers.get? receiver = some row → row.minFee.amount = 0
  fee : before.config.cached.ingressBridgeFee.amount = 0

/-- What is renamed denotes what it did, in a regular form. -/
structure Surviving (symbol : Symbol) (visited : List Name) (before : Contract) : Prop where
  balances : ∀ owner ∈ visited, ∀ row, before.funds.balances.get? owner = some row → row.Survives symbol
  inevm : ∀ row, before.funds.inevm = some row → row.Survives symbol
  statistics : ∀ statistics, before.funds.statistics = some statistics →
    statistics.gasFeeIncome.Survives symbol ∧ statistics.ingressBridgeFeeIncome.Survives symbol
  receivers : ∀ receiver row, before.receivers.get? receiver = some row →
    (row.minFee.withSymbol symbol).wei = row.minFee.wei
  fee : (before.config.cached.ingressBridgeFee.withSymbol symbol).wei = before.config.cached.ingressBridgeFee.wei

theorem Renamed.surviving (renamed : Renamed symbol visited before after) (keeps : before.KeepsValue after) :
    Surviving symbol visited before where
  balances := by
    intro owner member row found
    have changed := renamed.balances owner member
    rw [found, Option.map_some] at changed
    have value := keeps.balances owner
    rw [changed, found] at value
    exact ⟨Option.some.inj value, keeps.regular owner _ changed⟩
  inevm := by
    obtain ⟨inevm, present, changed⟩ := renamed.inevm
    intro row found
    obtain rfl : inevm = row := Option.some.inj (present.symm.trans found)
    have value := keeps.inevm
    rw [changed, present] at value
    exact ⟨Option.some.inj value, keeps.regularInevm _ changed⟩
  statistics := by
    intro statistics found
    have changed := renamed.statistics
    simp only [Funds.statisticsIn, found, Option.getD_some] at changed
    have gas := keeps.gasFeeIncome
    have ingress := keeps.ingressBridgeFeeIncome
    simp only [Funds.gasFeeValue, Funds.ingressBridgeFeeValue, changed, found, Option.map_some, Option.getD_some]
      at gas ingress
    obtain ⟨regularGas, regularIngress⟩ := keeps.regularStatistics _ changed
    exact ⟨⟨gas, regularGas⟩, ingress, regularIngress⟩
  receivers := by
    intro receiver row found
    have value := keeps.receivers receiver
    rw [renamed.receivers, found] at value
    exact Option.some.inj value
  fee := by
    rw [← renamed.fee]
    exact keeps.fee

theorem Renamed.keepsValue (renamed : Renamed symbol visited before after) (tidy : before.Tidy)
    (surviving : Surviving symbol visited before) : before.KeepsValue after := by
  obtain ⟨inevm, present, changed⟩ := renamed.inevm
  have kept := surviving.inevm inevm present
  -- Statistics that are not stored become zero ones, which are regular as the symbol is precise.
  have counted : (before.funds.statisticsIn symbol).gasFeeIncome.Survives symbol ∧
      (before.funds.statisticsIn symbol).ingressBridgeFeeIncome.Survives symbol := by
    cases found : before.funds.statistics with
    | none =>
        have vanishes : (⟨⟨0, symbol⟩, 0⟩ : BalanceWithDust).Vanishes symbol := ⟨rfl, Symbol.unit_pos symbol⟩
        have survives := BalanceWithDust.survives_of_vanishes kept.2.1 vanishes
        simpa only [Funds.statisticsIn, found, Option.getD_none] using ⟨survives, survives⟩
    | some statistics =>
        simpa only [Funds.statisticsIn, found, Option.getD_some] using surviving.statistics statistics found
  have rows : ∀ owner row, before.funds.balances.get? owner = some row → ∃ stored,
      after.funds.balances.get? owner = some stored ∧ stored.value = row.value ∧ stored.Regular := by
    intro owner row found
    obtain ⟨normal, _⟩ := tidy.funds.balances owner row found
    by_cases member : owner ∈ visited
    · have moved := renamed.balances owner member
      rw [found, Option.map_some] at moved
      exact ⟨_, moved, surviving.balances owner member row found⟩
    · exact ⟨row, (renamed.kept owner member).trans found, rfl, normal.precise, normal.dusty⟩
  have closed : ∀ owner, before.funds.balances.get? owner = none → after.funds.balances.get? owner = none := by
    intro owner absent
    by_cases member : owner ∈ visited
    · rw [renamed.balances owner member, absent, Option.map_none]
    · exact (renamed.kept owner member).trans absent
  refine ⟨?_, ?_, ?_, ?_, ?_, ?_, ?_, ?_, ?_⟩
  · intro owner
    cases found : before.funds.balances.get? owner with
    | none => rw [closed owner found]
    | some row =>
        obtain ⟨stored, present, same, _⟩ := rows owner row found
        rw [present, Option.map_some, Option.map_some, same]
  · rw [changed, present, Option.map_some, Option.map_some, kept.1]
  · rw [Funds.gasFeeValue, renamed.statistics, Option.map_some, Option.getD_some, counted.1.1]
    exact Funds.statisticsIn_gasFeeValue _ _
  · rw [Funds.ingressBridgeFeeValue, renamed.statistics, Option.map_some, Option.getD_some, counted.2.1]
    exact Funds.statisticsIn_ingressBridgeFeeValue _ _
  · intro receiver
    cases found : before.receivers.get? receiver with
    | none => rw [renamed.receivers, found]; rfl
    | some row =>
        rw [renamed.receivers, found, Option.map_some, Option.map_some, Option.map_some]
        exact congrArg some (surviving.receivers receiver row found)
  · rw [renamed.fee]
    exact surviving.fee
  · intro owner row found
    cases stored : before.funds.balances.get? owner with
    | none => rw [closed owner stored] at found; cases found
    | some original =>
        obtain ⟨other, present, _, regular⟩ := rows owner original stored
        obtain rfl : other = row := Option.some.inj (present.symm.trans found)
        exact regular
  · intro row found
    obtain rfl : inevm.withSymbol symbol = row := Option.some.inj (changed.symm.trans found)
    exact kept.2
  · intro statistics found
    obtain rfl := Option.some.inj (renamed.statistics.symm.trans found)
    exact ⟨counted.1.2, counted.2.2⟩

theorem surviving_iff (renamed : Renamed symbol visited before after) (tidy : before.Tidy) :
    Surviving symbol visited before ↔
      symbol.precision = before.config.getTokenSymbol.precision ∨ Vanishing symbol visited before := by
  constructor
  · intro surviving
    by_cases same : symbol.precision = before.config.getTokenSymbol.precision
    · exact Or.inl same
    · obtain ⟨inevm, present, _⟩ := renamed.inevm
      have precise : symbol.precision ≤ evmPrecision := (surviving.inevm inevm present).2.1
      have vanishes : ∀ row : BalanceWithDust, row.Normal → row.balance.symbol = before.config.getTokenSymbol →
          row.Survives symbol → row.Vanishes symbol :=
        fun row normal named => BalanceWithDust.vanishes_of_survives normal (by rw [named]; exact same)
      refine Or.inr ⟨precise, ?_, ?_, ?_, ?_, ?_⟩
      · intro owner member row found
        obtain ⟨normal, precision⟩ := tidy.funds.balances owner row found
        exact BalanceWithDust.vanishes_of_survives normal (by rw [precision]; exact same)
          (surviving.balances owner member row found)
      · intro row found
        obtain ⟨normal, named⟩ := tidy.funds.inevm row found
        exact vanishes row normal named (surviving.inevm row found)
      · intro statistics found
        obtain ⟨normalGas, namedGas⟩ := tidy.funds.gasFeeIncome statistics found
        obtain ⟨normalFee, namedFee⟩ := tidy.funds.ingressBridgeFeeIncome statistics found
        obtain ⟨gas, ingress⟩ := surviving.statistics statistics found
        exact ⟨vanishes _ normalGas namedGas gas, vanishes _ normalFee namedFee ingress⟩
      · intro receiver row found
        have named := (tidy.receivers receiver row found).2
        exact Asset.zero_of_wei_withSymbol precise (by rw [named]; exact tidy.precise) (by rw [named]; exact same)
          (surviving.receivers receiver row found)
      · exact Asset.zero_of_wei_withSymbol precise tidy.precise same surviving.fee
  · rintro (same | vanishing)
    · have survives : ∀ row : BalanceWithDust, row.Normal ∧ row.balance.symbol = before.config.getTokenSymbol →
          row.Survives symbol :=
        fun row kept => BalanceWithDust.survives_of_precision kept.1 (by rw [kept.2]; exact same)
      refine ⟨?_, ?_, ?_, ?_, ?_⟩
      · intro owner _ row found
        obtain ⟨normal, precision⟩ := tidy.funds.balances owner row found
        exact BalanceWithDust.survives_of_precision normal (same.trans precision.symm)
      · exact fun row found => survives row (tidy.funds.inevm row found)
      · exact fun statistics found => ⟨survives _ (tidy.funds.gasFeeIncome statistics found),
          survives _ (tidy.funds.ingressBridgeFeeIncome statistics found)⟩
      · intro receiver row found
        exact Asset.wei_withSymbol_of_precision (by rw [(tidy.receivers receiver row found).2]; exact same)
      · exact Asset.wei_withSymbol_of_precision same
    · have survives : ∀ row : BalanceWithDust, row.Vanishes symbol → row.Survives symbol :=
        fun _ => BalanceWithDust.survives_of_vanishes vanishing.precise
      refine ⟨?_, ?_, ?_, ?_, ?_⟩
      · exact fun owner member row found => survives row (vanishing.balances owner member row found)
      · exact fun row found => survives row (vanishing.inevm row found)
      · exact fun statistics found => (vanishing.statistics statistics found).imp (survives _) (survives _)
      · exact fun receiver row found => Asset.wei_withSymbol_of_zero (vanishing.receivers receiver row found)
      · exact Asset.wei_withSymbol_of_zero vanishing.fee

theorem transfer_own {env : Env} {sender recipient : Name} {quantity : Asset} {memo : Bytes}
    (own : sender = env.self) (ran : transfer env sender recipient quantity memo before = .ok after) :
    after = before := by
  simp only [transfer, bind_ok, assertUnfrozen_ok, exists_const] at ran
  rw [if_pos (Or.inr own), pure_ok] at ran
  exact ran.2.symm

end Contract

/-- The requests that follow a swap: migrations, and the transfer that the swap itself sends. -/
def Request.migrates (self : Name) : Request → Bool
  | .action _ _ (.migratebal _ _) => true
  | .transfer _ sender _ _ _ => sender == self
  | _ => false

/-- The accounts whose balances a migration visits. -/
def visits (world : World) : Request → List Name
  | .action _ _ (.migratebal fromName limit) => (world.contract.migrated fromName limit.toNat).map Prod.fst
  | _ => []

variable {host : Host} {world next : World} {visited : List Name}

theorem Handled.renamed {view : ChainView} {others later : List Request} {request : Request} {rest : List Pending}
    {holding : Name → Symbol → Nat} {contract before : Contract} {symbol : Symbol}
    (renamed : Contract.Renamed symbol visited before world.contract) (migrates : request.migrates host.self = true)
    (handled : Handled host view others later request rest holding contract world) :
    Contract.Renamed symbol (visited ++ visits world request) before contract := by
  have ran := handled.ran
  cases request with
  | transfer token sender recipient quantity memo =>
      have same := Contract.transfer_own (show sender = host.self from eq_of_beq migrates) ran
      have none : visits world (.transfer token sender recipient quantity memo) = [] := rfl
      rw [none, List.append_nil]
      exact same ▸ renamed
  | action caller auths requested =>
      cases requested with
      | migratebal fromName limit => exact renamed.migratebal ran
      | _ => cases migrates

theorem Handled.renamed_stored {view : ChainView} {others later : List Request} {request : Request}
    {rest : List Pending} {holding : Name → Symbol → Nat} {contract before : Contract} {symbol : Symbol}
    (renamed : Contract.Renamed symbol visited before contract)
    (handled : Handled host view others later request rest holding contract world) :
    Contract.Renamed symbol visited before (world.handled others later request rest holding contract).contract := by
  have config := handled.reconfigures.2
  refine ⟨renamed.balances, renamed.kept, renamed.inevm, renamed.statistics, renamed.receivers, ?_⟩
  exact (congrArg (·.cached.ingressBridgeFee) config).trans renamed.fee

theorem Stepped.renamed {label : Label} {before : Contract} {symbol : Symbol}
    (renamed : Contract.Renamed symbol visited before world.contract) (stepped : Stepped host world label next)
    (migrates : ∀ view others later request rest holding contract, label = .next view others later →
      Handled host view others later request rest holding contract world → request.migrates host.self = true) :
    Contract.Renamed symbol (visited ++ entries host visits world label) before next.contract := by
  cases stepped with
  | tick | submit =>
      rw [entries, List.append_nil]
      exact renamed
  | passed view others later sent rest top away =>
      rw [entries_passed _ top away, List.append_nil]
      exact renamed
  | handled view others later request rest holding contract handled =>
      rw [entries_handled visits handled]
      exact handled.renamed_stored (handled.renamed renamed (migrates _ _ _ _ _ _ _ rfl handled))

/-- As long as every swap kept the precision, a swap keeps every value, whatever migrations
follow it, exactly if it keeps the precision too or everything it and they rename is zero. -/
theorem run_swap_keepsValue {host : Host} {holding : Name → Symbol → Nat} {labels migrations : List Label}
    {world swapped last : World} {view : ChainView} {others later : List Request} {caller : Option Name}
    {auths : List Name} {newTokenContract : Name} {newSymbol : Symbol} {swapDestAccount : Name} {swapMemo : Bytes}
    (keeps : guarded host keepsPrecision labels (World.start holding) = true)
    (reached : run host labels (World.start holding) = .ok world)
    (swaps : topRequest host world.stack =
      some (.action caller auths (.swapgastoken newTokenContract newSymbol swapDestAccount swapMemo)))
    (accepted : step host world (.next view others later) = .ok swapped)
    (migrates : guarded host (fun _ request => request.migrates host.self) migrations swapped = true)
    (migrated : run host migrations swapped = .ok last) :
    world.contract.KeepsValue last.contract ↔
      newSymbol.precision = world.config.getTokenSymbol.precision ∨
        Contract.Vanishing newSymbol
          ((world.contract.migrated host.self 1).map Prod.fst ++ noted host visits migrations swapped)
          world.contract := by
  have tidy := run_tidy keeps reached
  have start : Contract.Renamed newSymbol ((world.contract.migrated host.self 1).map Prod.fst) world.contract
      swapped.contract := by
    obtain ⟨rest, holding, contract, handled, rfl⟩ := (step_ok accepted).of_topRequest swaps
    exact handled.renamed_stored (Contract.swapgastoken_renames handled.ran)
  have renamed := run_noted visits
    (fun current journal => Contract.Renamed newSymbol journal world.contract current.contract)
    (fun _ _ _ _ renamed stepped safe => stepped.renamed renamed safe) start migrates migrated
  exact Iff.trans ⟨renamed.surviving, renamed.keepsValue tidy⟩ (Contract.surviving_iff renamed tidy)

namespace Ledger

def eosEight : Symbol := ⟨0x534f4508⟩

def sys : Symbol := ⟨0x53595304⟩

def swapTo (symbol : Symbol) : Request := .action none [self] (.swapgastoken bob symbol 0 [])

def beforeSwap (symbol : Symbol) : List Label :=
  opening ++ pay alice 1000000 "alice" 0 ++ [.submit [swapTo symbol]]

def migration : List Label := act alice (.migratebal alice 1) 0

def swapping (symbol : Symbol) (shows : World → World → World → Bool) : Outcome Bool := do
  let world ← run Ledger.host (beforeSwap symbol) (World.start fun _ _ => 0)
  let swapped ← step Ledger.host world (.next view [] [])
  let last ← run Ledger.host migration swapped
  return shows world swapped last

theorem exists_of_swapping (symbol : Symbol) (shows : World → World → World → Bool)
    (seen : swapping symbol shows = .ok true) : ∃ world swapped last,
      run Ledger.host (beforeSwap symbol) (World.start fun _ _ => 0) = .ok world ∧
      step Ledger.host world (.next view [] []) = .ok swapped ∧ run Ledger.host migration swapped = .ok last ∧
      shows world swapped last = true := by
  simp only [swapping, bind_ok, pure_ok] at seen
  obtain ⟨world, reached, swapped, accepted, last, migrated, shown⟩ := seen
  exact ⟨world, swapped, last, reached, accepted, migrated, shown⟩

end Ledger

/-- A swap to a symbol with eight decimals divides the ingress fee and a migrated balance by ten thousand. -/
theorem swap_changesValue : ∃ world swapped last,
    run Ledger.host (Ledger.beforeSwap Ledger.eosEight) (World.start fun _ _ => 0) = .ok world ∧
    topRequest Ledger.host world.stack = some (Ledger.swapTo Ledger.eosEight) ∧
    step Ledger.host world (.next Ledger.view [] []) = .ok swapped ∧
    run Ledger.host Ledger.migration swapped = .ok last ∧
    world.contract.funds.valueOf Ledger.alice = 10 ^ 20 ∧ last.contract.funds.valueOf Ledger.alice = 10 ^ 16 ∧
    world.config.cached.ingressBridgeFee.wei = 10 ^ 16 ∧ last.config.cached.ingressBridgeFee.wei = 10 ^ 12 ∧
    ¬ world.contract.KeepsValue last.contract := by
  obtain ⟨world, swapped, last, reached, accepted, migrated, shown⟩ :=
    Ledger.exists_of_swapping Ledger.eosEight (fun world _ last => decide (
      topRequest Ledger.host world.stack = some (Ledger.swapTo Ledger.eosEight) ∧
      world.contract.funds.valueOf Ledger.alice = 10 ^ 20 ∧ last.contract.funds.valueOf Ledger.alice = 10 ^ 16 ∧
      world.config.cached.ingressBridgeFee.wei = 10 ^ 16 ∧ last.config.cached.ingressBridgeFee.wei = 10 ^ 12))
      (by decide +kernel)
  obtain ⟨top, before, after, fee, newFee⟩ := of_decide_eq_true shown
  refine ⟨world, swapped, last, reached, top, accepted, migrated, before, after, fee, newFee, ?_⟩
  intro keeps
  have same := newFee.symm.trans (keeps.fee.trans fee)
  norm_num at same

theorem run_swap_keepsValue_sys : ∃ world swapped last,
    run Ledger.host (Ledger.beforeSwap Ledger.sys) (World.start fun _ _ => 0) = .ok world ∧
    step Ledger.host world (.next Ledger.view [] []) = .ok swapped ∧
    run Ledger.host Ledger.migration swapped = .ok last ∧
    world.contract.KeepsValue last.contract := by
  obtain ⟨world, swapped, last, reached, accepted, migrated, shown⟩ :=
    Ledger.exists_of_swapping Ledger.sys (fun world swapped _ => decide (
      topRequest Ledger.host world.stack = some (Ledger.swapTo Ledger.sys) ∧
      guarded Ledger.host (fun _ request => request.migrates Ledger.host.self) Ledger.migration swapped = true ∧
      Ledger.sys.precision = world.config.getTokenSymbol.precision)) (by decide +kernel)
  obtain ⟨top, migrates, precision⟩ := of_decide_eq_true shown
  refine ⟨world, swapped, last, reached, accepted, migrated, ?_⟩
  exact (run_swap_keepsValue (by decide +kernel) reached top accepted migrates migrated).mpr (Or.inl precision)

end EosEvm

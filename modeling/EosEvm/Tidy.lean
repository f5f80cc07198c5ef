import EosEvm.Opened
import EosEvm.Solvency
import EosEvm.Dust

/-! Balances after swaps of the token. A swap rewrites some balances at once and the others
later, so that symbols differ between the rows. As long as swaps keep the precision, every
balance stays normal in its own symbol, and all symbols have the precision of the token. -/

namespace EosEvm

open Abort

namespace BalanceWithDust

variable {row : BalanceWithDust} {symbol : Symbol}

def Tidy (precision : Nat) (row : BalanceWithDust) : Prop :=
  row.Normal ∧ row.balance.symbol.precision = precision

theorem unit_of_precision {first second : Symbol} (same : first.precision = second.precision) :
    first.unit = second.unit := by
  rw [Symbol.unit, Symbol.unit, same]

theorem Normal.withSymbol (normal : row.Normal) (named : symbol ≠ Symbol.none)
    (same : symbol.precision = row.balance.symbol.precision) : (row.withSymbol symbol).Normal where
  named := named
  precise := le_of_eq_of_le same normal.precise
  nonneg := normal.nonneg
  bounded := normal.bounded
  dusty := lt_of_lt_of_eq normal.dusty (unit_of_precision same).symm

theorem Normal.withAmount (normal : row.Normal) {amount : Int} (nonneg : 0 ≤ amount) (bounded : amount ≤ maxAmount) :
    ({ row with balance := { row.balance with amount := amount } } : BalanceWithDust).Normal :=
  ⟨normal.named, normal.precise, nonneg, bounded, normal.dusty⟩

theorem value_withSymbol (same : symbol.precision = row.balance.symbol.precision) :
    (row.withSymbol symbol).value = row.value := by
  rw [value, value, withSymbol, unit_of_precision same]

end BalanceWithDust

namespace Funds

/-- Every balance is normal in a symbol of the token's precision; the tokens inside the EVM
and the statistics are in the symbol of the token. -/
structure Tidy (symbol : Symbol) (funds : Funds) : Prop where
  balances : ∀ owner row, funds.balances.get? owner = some row → row.Tidy symbol.precision
  inevm : ∀ row, funds.inevm = some row → row.Normal ∧ row.balance.symbol = symbol
  gasFeeIncome : ∀ statistics, funds.statistics = some statistics →
    statistics.gasFeeIncome.Normal ∧ statistics.gasFeeIncome.balance.symbol = symbol
  ingressBridgeFeeIncome : ∀ statistics, funds.statistics = some statistics →
    statistics.ingressBridgeFeeIncome.Normal ∧ statistics.ingressBridgeFeeIncome.balance.symbol = symbol

variable {symbol : Symbol} {funds after : Funds}

theorem Tidy.put (tidy : funds.Tidy symbol) {row : BalanceWithDust} (owner : Name) (fits : row.Tidy symbol.precision) :
    ({ funds with balances := funds.balances.put owner row } : Funds).Tidy symbol where
  balances := by
    intro other stored found
    rw [Table.get?_put] at found
    split at found
    · cases found
      exact fits
    · exact tidy.balances other stored found
  inevm := tidy.inevm
  gasFeeIncome := tidy.gasFeeIncome
  ingressBridgeFeeIncome := tidy.ingressBridgeFeeIncome

theorem Tidy.getStatistics (tidy : funds.Tidy symbol) {config : ConfigWrapper} {statistics : Statistics}
    (configured : config.getTokenSymbol = symbol) (precise : symbol.precision ≤ evmPrecision)
    (found : funds.getStatistics config = .ok statistics) :
    (statistics.gasFeeIncome.Normal ∧ statistics.gasFeeIncome.balance.symbol = symbol) ∧
      statistics.ingressBridgeFeeIncome.Normal ∧ statistics.ingressBridgeFeeIncome.balance.symbol = symbol := by
  obtain ⟨valid, rfl⟩ := getStatistics_ok found
  rw [configured] at valid ⊢
  cases present : funds.statistics with
  | some stored =>
      rw [statisticsIn, present]
      exact ⟨tidy.gasFeeIncome _ present, tidy.ingressBridgeFeeIncome _ present⟩
  | none =>
      rw [statisticsIn, present]
      have normal := BalanceWithDust.zero_normal symbol (Symbol.ne_none_of_isValid valid) precise
      exact ⟨⟨normal, rfl⟩, normal, rfl⟩

theorem Tidy.move (tidy : funds.Tidy symbol) (precise : symbol.precision ≤ evmPrecision)
    (move : Move symbol funds after) : after.Tidy symbol := by
  cases move with
  | credit owner amount missing after credited =>
      obtain ⟨row, found, changed, added, rfl⟩ := Funds.credit_ok.mp credited
      obtain ⟨normal, same⟩ := tidy.balances owner row found
      obtain ⟨normalAfter, kept, _⟩ := BalanceWithDust.add_spec normal added
      exact tidy.put owner ⟨normalAfter, kept ▸ same⟩
  | debit owner amount missing after debited =>
      obtain ⟨row, found, changed, taken, rfl⟩ := Funds.debit_ok.mp debited
      obtain ⟨normal, same⟩ := tidy.balances owner row found
      obtain ⟨normalAfter, kept, _⟩ := BalanceWithDust.sub_spec normal taken
      exact tidy.put owner ⟨normalAfter, kept ▸ same⟩
  | enters amount after entered =>
      obtain ⟨row, found, changed, added, rfl⟩ := Funds.enterEvm_ok.mp entered
      obtain ⟨normal, same⟩ := tidy.inevm row found
      obtain ⟨normalAfter, kept, _⟩ := BalanceWithDust.add_spec normal added
      refine ⟨tidy.balances, ?_, tidy.gasFeeIncome, tidy.ingressBridgeFeeIncome⟩
      rintro _ ⟨⟩
      exact ⟨normalAfter, kept.trans same⟩
  | leaves amount after left =>
      obtain ⟨row, found, changed, taken, rfl⟩ := Funds.leaveEvm_ok.mp left
      obtain ⟨normal, same⟩ := tidy.inevm row found
      obtain ⟨normalAfter, kept, _⟩ := BalanceWithDust.sub_spec normal taken
      refine ⟨tidy.balances, ?_, tidy.gasFeeIncome, tidy.ingressBridgeFeeIncome⟩
      rintro _ ⟨⟩
      exact ⟨normalAfter, kept.trans same⟩
  | records config statistics income gasFeeIncome configured found added =>
      obtain ⟨⟨normal, same⟩, ingress⟩ := tidy.getStatistics configured precise found
      obtain ⟨normalAfter, kept, _⟩ := BalanceWithDust.add_spec normal added
      refine ⟨tidy.balances, tidy.inevm, ?_, ?_⟩
      · rintro _ ⟨⟩
        exact ⟨normalAfter, kept.trans same⟩
      · rintro _ ⟨⟩
        exact ingress

theorem Tidy.moves (tidy : funds.Tidy symbol) (precise : symbol.precision ≤ evmPrecision)
    (moves : Moves symbol funds after) : after.Tidy symbol := by
  induction moves with
  | refl => exact tidy
  | tail _ move ih => exact ih.move precise move

end Funds

namespace ConfigWrapper

/-- How a request changes the ingress fee, and with it the symbol of the token. -/
inductive Charges (before after : ConfigWrapper) (request : Request) : Prop
  | same (kept : after.cached.ingressBridgeFee = before.cached.ingressBridgeFee)
  | fee (nonneg : 0 ≤ after.cached.ingressBridgeFee.amount) (precise : after.getTokenSymbol.precision ≤ evmPrecision)
      (keeps : before.getTokenSymbol = Symbol.none ∨ after.getTokenSymbol = before.getTokenSymbol)
  | swap (caller : Option Name) (auths : List Name) (newTokenContract : Name) (newSymbol : Symbol)
      (swapDestAccount : Name) (swapMemo : Bytes)
      (swaps : request = .action caller auths (.swapgastoken newTokenContract newSymbol swapDestAccount swapMemo))
      (kept : after.cached.ingressBridgeFee = { before.cached.ingressBridgeFee with symbol := newSymbol })

variable {before after : ConfigWrapper} {request : Request} {now : Nat}

theorem Charges.of_fee {first last : ConfigWrapper} (charges : Charges first last request)
    (start : before.cached.ingressBridgeFee = first.cached.ingressBridgeFee)
    (finish : after.cached.ingressBridgeFee = last.cached.ingressBridgeFee) : Charges before after request := by
  cases charges with
  | same kept => exact .same (finish.trans (kept.trans start.symm))
  | fee nonneg precise keeps =>
      unfold getTokenSymbol at precise keeps
      rw [← finish] at nonneg precise
      rw [← finish, ← start] at keeps
      exact .fee nonneg precise keeps
  | swap caller auths newTokenContract newSymbol swapDestAccount swapMemo swaps kept =>
      exact .swap caller auths newTokenContract newSymbol swapDestAccount swapMemo swaps (by rw [finish, kept, start])

theorem setFeeGasPrice_fee {gasPrice : Option Nat} {allowUnspecified : Bool}
    (priced : before.setFeeGasPrice gasPrice allowUnspecified now = .ok after) :
    after.cached.ingressBridgeFee = before.cached.ingressBridgeFee := by
  rcases setFeeGasPrice_ok priced with ⟨_, rfl⟩ | ⟨_, _, ⟨_, _, queued⟩ | ⟨_, rfl⟩⟩
  · rfl
  · obtain ⟨_, _, _, rfl⟩ := enqueueGasPrice_eq queued
    rfl
  · rfl

theorem setFeeParameters_charges {fees : FeeParameters} {allowUnspecified : Bool}
    (updated : before.setFeeParameters fees allowUnspecified now = .ok after) : Charges before after request := by
  simp only [setFeeParameters, bind_ok, pure_ok] at updated
  obtain ⟨priced, price, cut, mined, charged, charge, rfl⟩ := updated
  have kept : cut.cached.ingressBridgeFee = before.cached.ingressBridgeFee := by
    rw [← setFeeGasPrice_fee price]
    simp only [setFeeMinerCut] at mined
    split at mined <;> simp only [bind_ok, check_ok, exists_const, pure_ok] at mined
    · obtain ⟨_, _, rfl⟩ := mined
      rfl
    · rw [mined.2]
  simp only [setFeeIngressBridgeFee, setIngressBridgeFee] at charge
  split at charge <;> simp only [bind_ok, check_ok, exists_const, pure_ok] at charge
  · obtain ⟨keeps, nonneg, precise, rfl⟩ := charge
    rw [getTokenSymbol, kept] at keeps
    exact .fee nonneg precise keeps
  · rw [← charge.2]
    exact .same kept

theorem refresh_fee (wrapper : ConfigWrapper) (now : Nat) :
    (wrapper.refresh now).cached.ingressBridgeFee = wrapper.cached.ingressBridgeFee := by
  obtain ⟨_, _, _, _, _, _, same⟩ := refresh_eq wrapper now
  rw [same]

theorem promoteEvmVersion_fee (wrapper : ConfigWrapper) (now : Nat) :
    (wrapper.promoteEvmVersion now).2.cached.ingressBridgeFee = wrapper.cached.ingressBridgeFee := by
  obtain ⟨_, _, same⟩ := promoteEvmVersion_eq wrapper now
  rw [same]

theorem promoteConsensusParam_fee (wrapper : ConfigWrapper) (now : Nat) :
    (wrapper.promoteConsensusParam now).2.2.cached.ingressBridgeFee = wrapper.cached.ingressBridgeFee := by
  obtain ⟨_, same⟩ := promoteConsensusParam_eq wrapper now
  rw [same]

theorem Configures.charges {requested : Action} (configures : before.Configures now requested after) :
    Charges before after request := by
  cases configures with
  | setfeeparams fees after updated => exact setFeeParameters_charges updated
  | freeze | setgaslimit => exact .same rfl
  | setversion version after updated =>
      obtain ⟨_, _, _, _, _, rfl⟩ := setEvmVersion_ok updated
      exact .same rfl
  | updtgasparam ramPriceMb storagePrice after updated =>
      obtain ⟨_, _, rfl, _, _, ⟨_, queued⟩ | ⟨_, queued⟩⟩ := updateConsensusParameters_ok updated
      · obtain ⟨_, _, _, rfl⟩ := enqueueGasPrices_eq queued
        exact .same rfl
      · obtain ⟨_, _, _, rfl⟩ := enqueueGasPrice_eq queued
        exact .same rfl
  | setgasparam _ _ _ _ _ after updated =>
      obtain ⟨_, _, rfl⟩ := updateConsensusParameters2_ok updated
      exact .same rfl
  | enqueued prices after active queued =>
      obtain ⟨_, _, _, rfl⟩ := enqueueGasPrices_eq queued
      exact .same (promoteEvmVersion_fee before now)
  | replaced => exact .same (promoteEvmVersion_fee before now)

end ConfigWrapper

theorem refreshPrices_fee (env : Env) (contract : Contract) :
    (refreshPrices env contract).config.cached.ingressBridgeFee = contract.config.cached.ingressBridgeFee := by
  rw [refreshPrices_config]
  exact ConfigWrapper.refresh_fee _ _

namespace Contract

/-- Tidy funds in the configured symbol, fees that are not negative, and nothing at all as
long as there is no symbol. -/
structure Tidy (contract : Contract) : Prop where
  precise : contract.config.getTokenSymbol.precision ≤ evmPrecision
  charges : 0 ≤ contract.config.cached.ingressBridgeFee.amount
  funds : contract.funds.Tidy contract.config.getTokenSymbol
  receivers : ∀ receiver row, contract.receivers.get? receiver = some row →
    0 ≤ row.minFee.amount ∧ row.minFee.symbol = contract.config.getTokenSymbol
  closed : contract.config.getTokenSymbol = Symbol.none →
    (∀ owner, contract.funds.balances.get? owner = none) ∧ ∀ receiver, contract.receivers.get? receiver = none

variable {before after middle : Contract}

theorem Tidy.of_unset (tidy : before.Tidy) (unset : before.config.getTokenSymbol = Symbol.none) :
    before.funds.inevm = none ∧ before.funds.statistics = none := by
  refine ⟨?_, ?_⟩
  · cases found : before.funds.inevm with
    | none => rfl
    | some row =>
        obtain ⟨normal, symbol⟩ := tidy.funds.inevm row found
        exact absurd (symbol.trans unset) normal.named
  · cases found : before.funds.statistics with
    | none => rfl
    | some statistics =>
        obtain ⟨normal, symbol⟩ := tidy.funds.gasFeeIncome statistics found
        exact absurd (symbol.trans unset) normal.named

theorem Tidy.named (tidy : before.Tidy) {owner : Name} {row : BalanceWithDust}
    (found : before.funds.balances.get? owner = some row) : before.config.getTokenSymbol ≠ Symbol.none := by
  intro unset
  rw [(tidy.closed unset).1 owner] at found
  cases found

theorem Tidy.keep (tidy : before.Tidy)
    (fee : after.config.cached.ingressBridgeFee = before.config.cached.ingressBridgeFee)
    (funds : after.funds.Tidy before.config.getTokenSymbol)
    (receivers : ∀ receiver row, after.receivers.get? receiver = some row → before.receivers.get? receiver = some row)
    (closed : before.config.getTokenSymbol = Symbol.none → ∀ owner, after.funds.balances.get? owner = none) :
    after.Tidy := by
  have symbol : after.config.getTokenSymbol = before.config.getTokenSymbol := congrArg Asset.symbol fee
  refine ⟨symbol ▸ tidy.precise, fee ▸ tidy.charges, symbol ▸ funds, ?_, ?_⟩
  · intro receiver row found
    rw [symbol]
    exact tidy.receivers receiver row (receivers receiver row found)
  · intro unset
    rw [symbol] at unset
    refine ⟨closed unset, ?_⟩
    intro receiver
    cases found : after.receivers.get? receiver with
    | none => rfl
    | some row =>
        have stored := receivers receiver row found
        rw [(tidy.closed unset).2 receiver] at stored
        cases stored

theorem Tidy.moves (tidy : before.Tidy)
    (fee : after.config.cached.ingressBridgeFee = before.config.cached.ingressBridgeFee)
    (moves : Funds.Moves before.config.getTokenSymbol before.funds after.funds)
    (receivers : after.receivers = before.receivers) : after.Tidy := by
  refine tidy.keep fee (tidy.funds.moves tidy.precise moves) (fun _ _ found => receivers ▸ found) ?_
  intro unset owner
  have closed := moves.opened.1 owner
  rw [(tidy.closed unset).1 owner] at closed
  simpa using closed

theorem Tidy.put (tidy : before.Tidy) {owner : Name} {row changed : BalanceWithDust}
    (fee : after.config.cached.ingressBridgeFee = before.config.cached.ingressBridgeFee)
    (found : before.funds.balances.get? owner = some row) (fits : changed.Tidy before.config.getTokenSymbol.precision)
    (funds : after.funds = { before.funds with balances := before.funds.balances.put owner changed })
    (receivers : after.receivers = before.receivers) : after.Tidy :=
  tidy.keep fee (funds ▸ tidy.funds.put owner fits) (fun _ _ found => receivers ▸ found)
    fun unset => absurd unset (tidy.named found)

theorem Tidy.charged (tidy : before.Tidy)
    (charges : before.config.Charges after.config (.action none [] .evmtx)) (funds : after.funds = before.funds)
    (receivers : after.receivers = before.receivers) : after.Tidy := by
  cases charges with
  | same kept =>
      refine tidy.keep kept (funds ▸ tidy.funds) (fun _ _ found => receivers ▸ found) ?_
      rw [funds]
      exact fun unset => (tidy.closed unset).1
  | swap _ _ _ _ _ _ swaps => cases swaps
  | fee nonneg precise keeps =>
      rcases keeps with unset | same
      · obtain ⟨noBalance, noReceiver⟩ := tidy.closed unset
        obtain ⟨noInevm, noStatistics⟩ := tidy.of_unset unset
        refine ⟨precise, nonneg, ⟨?_, ?_, ?_, ?_⟩, ?_, ?_⟩
        · simp [funds, noBalance]
        · simp [funds, noInevm]
        · simp [funds, noStatistics]
        · simp [funds, noStatistics]
        · simp [receivers, noReceiver]
        · rw [funds, receivers]
          exact fun _ => ⟨noBalance, noReceiver⟩
      · refine ⟨precise, nonneg, ?_, ?_, ?_⟩
        · rw [funds, same]
          exact tidy.funds
        · rw [receivers, same]
          exact tidy.receivers
        · rw [funds, receivers, same]
          exact tidy.closed

theorem Tidy.refreshPrices (tidy : before.Tidy) (env : Env) : (refreshPrices env before).Tidy := by
  have fee := refreshPrices_fee env before
  rw [refreshPrices_eq] at fee ⊢
  exact tidy.charged (.same fee) rfl rfl

theorem Tidy.opening {owner : Name} (tidy : before.Tidy) (opening : openInternalBalance owner before = .ok after) :
    after.Tidy := by
  obtain ⟨balances, row, rfl⟩ := openInternalBalance_ok opening
  rcases openRow_ok row with ⟨_, rfl⟩ | ⟨_, valid, rfl⟩
  · exact tidy.charged (.same rfl) rfl rfl
  · have named := Symbol.ne_none_of_isValid valid
    refine tidy.keep rfl (tidy.funds.put owner ⟨?_, rfl⟩) (fun _ _ found => found) (fun unset => absurd unset named)
    exact BalanceWithDust.zero_normal _ named tidy.precise

theorem Tidy.registering {owner : Name} {receivers : Table Name MessageReceiver} (tidy : before.Tidy)
    (opening : openInternalBalance owner { before with receivers := receivers } = .ok after)
    (registered : ∀ receiver row, receivers.get? receiver = some row → before.receivers.get? receiver = some row ∨
      0 ≤ row.minFee.amount ∧ row.minFee.symbol = before.config.getTokenSymbol) : after.Tidy := by
  have named : before.config.getTokenSymbol ≠ Symbol.none := by
    intro unset
    obtain ⟨_, row, _⟩ := openInternalBalance_ok opening
    rcases openRow_ok row with ⟨present, _⟩ | ⟨_, valid, _⟩
    · rw [show _ = none from (tidy.closed unset).1 owner] at present
      cases present
    · exact Symbol.ne_none_of_isValid valid unset
  have listed : ({ before with receivers := receivers } : Contract).Tidy := by
    refine ⟨tidy.precise, tidy.charges, tidy.funds, ?_, fun unset => absurd unset named⟩
    intro receiver row found
    rcases registered receiver row found with kept | added
    · exact tidy.receivers receiver row kept
    · exact added
  exact listed.opening opening

theorem Tidy.deposit {owner : Name} {quantity : Asset} {missing : String} (tidy : before.Tidy)
    (positive : 0 < quantity.amount) (deposited : before.deposit owner quantity missing = .ok after) : after.Tidy := by
  obtain ⟨row, balance, found, added, rfl⟩ := deposit_ok deposited
  obtain ⟨_, _, bounded, rfl⟩ := (Asset.add_ok _ _ _).mp added
  obtain ⟨normal, same⟩ := tidy.funds.balances owner row found
  have nonneg := normal.nonneg
  have grown := normal.withAmount (show 0 ≤ row.balance.amount + quantity.amount by omega) bounded
  exact tidy.put rfl found ⟨grown, same⟩ rfl rfl

theorem Tidy.withdraw {env : Env} {owner : Name} {quantity : Asset} {recipient : Option Name} (tidy : before.Tidy)
    (withdrawn : withdraw env owner quantity recipient before = .ok after) : after.Tidy := by
  obtain ⟨_, _, row, _, found, enough, bounded, rfl, rfl⟩ := withdraw_ok withdrawn
  obtain ⟨normal, same⟩ := tidy.funds.balances owner row found
  have renamed := normal.withSymbol (tidy.named found) same.symm
  have shrunk := renamed.withAmount (show 0 ≤ row.balance.amount - quantity.amount by omega) bounded
  exact tidy.put rfl found ⟨shrunk, rfl⟩ rfl rfl

theorem Tidy.close {env : Env} {owner : Name} (tidy : before.Tidy) (closed : close env owner before = .ok after) :
    after.Tidy := by
  obtain ⟨_, row, _, found, _, _, rfl⟩ := close_ok closed
  refine tidy.keep rfl ⟨?_, tidy.funds.inevm, tidy.funds.gasFeeIncome, tidy.funds.ingressBridgeFeeIncome⟩
    (fun _ _ found => found) (fun unset => absurd unset (tidy.named found))
  intro other stored present
  rw [Table.get?_erase] at present
  split at present
  · cases present
  · exact tidy.funds.balances other stored present

theorem Tidy.migratebal {fromName : Name} {limit : Int} (tidy : before.Tidy)
    (ran : migratebal fromName limit before = .ok after) : after.Tidy := by
  obtain ⟨inevm, _, found, _, _, rfl⟩ := migratebal_ok ran
  obtain ⟨normal, symbol⟩ := tidy.funds.inevm inevm found
  refine tidy.keep rfl ⟨?_, tidy.funds.inevm, tidy.funds.gasFeeIncome, tidy.funds.ingressBridgeFeeIncome⟩
    (fun _ _ found => found) (fun unset => absurd (symbol.trans unset) normal.named)
  refine Table.foldl_modify_forall ?_ _ _ tidy.funds.balances
  rintro row ⟨tidyRow, kept⟩
  exact ⟨tidyRow.withSymbol normal.named (by rw [symbol, kept]), by rw [BalanceWithDust.withSymbol, symbol]⟩

theorem Tidy.emit (tidy : before.Tidy) (action : Inline) : (before.emit action).Tidy :=
  tidy.charged (.same rfl) rfl rfl

theorem Tidy.swapgastoken {env : Env} {newTokenContract : Name} {newSymbol : Symbol} {swapDestAccount : Name}
    {swapMemo : Bytes} (tidy : before.Tidy) (named : newSymbol ≠ Symbol.none)
    (same : newSymbol.precision = before.config.getTokenSymbol.precision)
    (ran : swapgastoken env newTokenContract newSymbol swapDestAccount swapMemo before = .ok after) : after.Tidy := by
  obtain ⟨_, inevm, statistics, swapped, found, counted, migrated, ran⟩ := swapgastoken_ok ran
  have precise : newSymbol.precision ≤ evmPrecision := le_of_eq_of_le same tidy.precise
  have renames : ∀ row : BalanceWithDust, row.Normal → row.balance.symbol.precision = newSymbol.precision →
      (row.withSymbol newSymbol).Normal ∧ (row.withSymbol newSymbol).balance.symbol = newSymbol :=
    fun row normal kept => ⟨normal.withSymbol named kept.symm, rfl⟩
  obtain ⟨normalInevm, symbolInevm⟩ := tidy.funds.inevm inevm found
  have counts : (statistics.gasFeeIncome.Normal ∧ statistics.gasFeeIncome.balance.symbol.precision =
      newSymbol.precision) ∧ statistics.ingressBridgeFeeIncome.Normal ∧
      statistics.ingressBridgeFeeIncome.balance.symbol.precision = newSymbol.precision := by
    obtain ⟨_, rfl⟩ := Funds.getStatistics_ok counted
    cases present : before.funds.statistics with
    | some stored =>
        obtain ⟨normalGas, symbolGas⟩ := tidy.funds.gasFeeIncome _ present
        obtain ⟨normalFee, symbolFee⟩ := tidy.funds.ingressBridgeFeeIncome _ present
        rw [Funds.statisticsIn, present]
        exact ⟨⟨normalGas, by rw [Option.getD_some, symbolGas, same]⟩, normalFee, by rw [Option.getD_some, symbolFee, same]⟩
    | none =>
        rw [Funds.statisticsIn, present]
        have normal := BalanceWithDust.zero_normal newSymbol named precise
        exact ⟨⟨normal, rfl⟩, normal, rfl⟩
  generalize renamedEq : Contract.mk _ _ _ _ _ _ _ = renamed at migrated
  have start : renamed.Tidy := by
    subst renamedEq
    refine ⟨precise, tidy.charges, ⟨?_, ?_, ?_, ?_⟩, ?_, fun unset => absurd unset named⟩
    · intro owner row stored
      obtain ⟨normal, kept⟩ := tidy.funds.balances owner row stored
      exact ⟨normal, kept.trans same.symm⟩
    · rintro _ ⟨⟩
      exact renames inevm normalInevm (by rw [symbolInevm, same])
    · rintro _ ⟨⟩
      exact renames _ counts.1.1 counts.1.2
    · rintro _ ⟨⟩
      exact renames _ counts.2.1 counts.2.2
    · intro receiver row stored
      have member := (Table.get?_eq_some _ _ _).mp stored
      obtain ⟨original, inside, same⟩ := List.mem_map.mp member
      cases same
      have registered := (Table.get?_eq_some before.receivers original.1 original.2).mpr inside
      exact ⟨(tidy.receivers _ _ registered).1, rfl⟩
  have middle := start.migratebal migrated
  rcases ran with rfl | ⟨_, rfl⟩
  · exact middle
  · exact middle.emit _

theorem Tidy.recordIngressFee (tidy : before.Tidy) (recorded : before.recordIngressFee = .ok after) : after.Tidy := by
  simp only [Contract.recordIngressFee, bind_ok, pure_ok] at recorded
  obtain ⟨statistics, counted, income, added, rfl⟩ := recorded
  obtain ⟨gas, normal, symbol⟩ := tidy.funds.getStatistics rfl tidy.precise counted
  obtain ⟨_, _, bounded, rfl⟩ := (Asset.add_ok _ _ _).mp added
  refine tidy.keep rfl ⟨tidy.funds.balances, tidy.funds.inevm, ?_, ?_⟩ (fun _ _ found => found)
    fun unset => (tidy.closed unset).1
  · rintro _ ⟨⟩
    exact gas
  · rintro _ ⟨⟩
    have nonneg := normal.nonneg
    have charges := tidy.charges
    exact ⟨normal.withAmount (by omega) bounded, symbol⟩

theorem Tidy.processTx {env : Env} {rc : RuntimeConfig} {miner : Name} {txn : Txn} {minPrice : Option Nat}
    (tidy : before.Tidy) (processed : processTx env rc miner txn minPrice before = .ok after) : after.Tidy := by
  obtain ⟨moves, _⟩ := processTx_opened processed
  obtain ⟨_, _, _, _, _, _, _, _, _, _, _, _, _, _, _, _, rfl⟩ := processTx_ok processed
  exact tidy.moves ((ConfigWrapper.promoteConsensusParam_fee _ _).trans (ConfigWrapper.promoteEvmVersion_fee _ _)) moves rfl

theorem Tidy.dispatchTx {env : Env} {rc : RuntimeConfig} {tx : Transaction} (tidy : before.Tidy)
    (dispatched : dispatchTx env rc tx before = .ok after) : after.Tidy := by
  have promoted : ({ before with config := (before.config.promoteEvmVersion env.now).2 } : Contract).Tidy :=
    tidy.charged (.same (ConfigWrapper.promoteEvmVersion_fee before.config env.now)) rfl rfl
  rcases dispatchTx_ok dispatched with ⟨_, processed⟩ | ⟨_, _, rfl⟩
  · exact promoted.processTx processed
  · exact promoted.emit _

theorem Bridges.tidy {env : Env} {request : Request} {payer : Option Name} {tx : Transaction} (tidy : before.Tidy)
    (positive : ∀ token sender recipient quantity memo,
      request = .transfer token sender recipient quantity memo → 0 < quantity.amount)
    (bridges : Bridges env before request payer tx middle) : middle.Tidy := by
  have renumbered : ∀ nextnonces config, config.cached.ingressBridgeFee = before.config.cached.ingressBridgeFee →
      ({ before with nextnonces := nextnonces, config := config } : Contract).Tidy :=
    fun nextnonces config fee => tidy.charged (.same fee) rfl rfl
  cases bridges with
  | call => exact Tidy.refreshPrices (renumbered _ _ rfl) env
  | callotherpay => exact Tidy.refreshPrices (renumbered _ _ (ConfigWrapper.promoteEvmVersion_fee _ _)) env
  | admincall _ _ _ _ _ _ _ _ address _ numbered _ numbers _ =>
      refine Tidy.refreshPrices ?_ env
      obtain ⟨_, rfl, _⟩ := adminNonce_ok numbers
      exact tidy.charged (.same rfl) rfl rfl
  | ingress token sender quantity memo _ _ received recorded deposited records _ _ =>
      have received := (tidy.refreshPrices env).deposit (positive _ _ _ _ _ rfl) deposited
      exact (received.recordIngressFee records).charged (.same rfl) rfl rfl

theorem Tidy.init {env : Env} {chainid : Nat} {fees : FeeParameters} {tokenContract : Option Name}
    (tidy : before.Tidy) (unset : before.config.stored = false → before.config.getTokenSymbol = Symbol.none)
    (inited : init env chainid fees tokenContract before = .ok after) : after.Tidy := by
  obtain ⟨unstored, config, inevm, changed, created, opened⟩ := init_ok inited
  have charged : ({ before with config := { config with cached := { config.cached with
      tokenContract := tokenContract.getD config.cached.tokenContract } } } : Contract).Tidy :=
    tidy.charged ((ConfigWrapper.setFeeParameters_charges changed).of_fee rfl rfl) rfl rfl
  rw [(tidy.of_unset (unset unstored)).1] at created
  obtain ⟨precise, named, rfl⟩ := initialInevm_ok changed created
  refine Tidy.opening ?_ opened
  refine ⟨charged.precise, charged.charges, ⟨charged.funds.balances, ?_, charged.funds.gasFeeIncome,
    charged.funds.ingressBridgeFeeIncome⟩, charged.receivers, charged.closed⟩
  rintro _ ⟨⟩
  exact ⟨BalanceWithDust.zero_normal _ named precise, rfl⟩

theorem Does.tidy {env : Env} {request : Request} (tidy : before.Tidy)
    (unset : before.config.stored = false → before.config.getTokenSymbol = Symbol.none)
    (positive : ∀ token sender recipient quantity memo,
      request = .transfer token sender recipient quantity memo → 0 < quantity.amount)
    (keeps : ∀ caller auths newTokenContract newSymbol swapDestAccount swapMemo,
      request = .action caller auths (.swapgastoken newTokenContract newSymbol swapDestAccount swapMemo) →
      newSymbol ≠ Symbol.none ∧ newSymbol.precision = before.config.getTokenSymbol.precision)
    (did : Does env before request after) : after.Tidy := by
  cases did with
  | init caller auths chainid fees tokenContract after ran => exact tidy.init unset ran
  | configures caller auths requested config configured => exact tidy.charged configured.charges rfl rfl
  | swaps caller auths newTokenContract newSymbol swapDestAccount swapMemo after ran =>
      obtain ⟨named, same⟩ := keeps _ _ _ _ _ _ rfl
      exact tidy.swapgastoken named same ran
  | idles | announces => exact tidy
  | edits => exact tidy.charged (.same rfl) rfl rfl
  | replies => exact tidy.emit _
  | lists caller auths requested egresslist receivers listing listed =>
      exact tidy.keep rfl tidy.funds listed fun unset => (tidy.closed unset).1
  | opens caller auths requested owner receivers after opening opened registered =>
      exact tidy.registering opened registered
  | closes caller auths owner after ran => exact tidy.close ran
  | withdraws caller auths owner quantity recipient after ran => exact tidy.withdraw ran
  | deposits token sender quantity memo receiver after deposited =>
      exact (tidy.refreshPrices env).deposit (positive _ _ _ _ _ rfl) deposited
  | adjustsEvm caller auths id delta subtract after ran =>
      obtain ⟨_, _, rfl, moves⟩ := addevmbal_moves ran
      exact tidy.moves rfl moves rfl
  | adjustsOpen caller auths holder delta subtract after ran =>
      obtain ⟨_, rfl, moves⟩ := addopenbal_moves ran
      exact tidy.moves rfl moves rfl
  | migrates caller auths fromName limit after ran => exact tidy.migratebal ran
  | pushes caller auths miner rlptx minPrice after ready processed => exact (tidy.refreshPrices env).processTx processed
  | bridges request payer tx middle after ready bridges dispatched =>
      exact (bridges.tidy tidy positive).dispatchTx dispatched

end Contract

/-- A swap names a symbol of the configured precision. -/
def keepsPrecision (world : World) : Request → Bool
  | .action _ _ (.swapgastoken _ newSymbol _ _) =>
      decide (newSymbol ≠ Symbol.none ∧ newSymbol.precision = world.config.getTokenSymbol.precision)
  | _ => true

variable {host : Host} {world next : World}

theorem Handled.positive {view : ChainView} {before after : List Request} {request : Request} {rest : List Pending}
    {holding : Name → Symbol → Nat} {contract : Contract}
    (handled : Handled host view before after request rest holding contract world) :
    contract = world.contract ∨ ∀ token sender recipient quantity memo,
      request = .transfer token sender recipient quantity memo → 0 < quantity.amount := by
  cases request with
  | action => exact Or.inr fun _ _ _ _ _ same => by cases same
  | transfer token sender recipient quantity memo =>
      by_cases known : token = world.tables.tokenContract
      · refine Or.inr ?_
        rintro _ _ _ _ _ ⟨⟩
        have moved := handled.moved
        rw [Request.moved, if_pos known] at moved
        exact (TokenContract.move_ok moved).1
      · exact Or.inl (Contract.transfer_unknown known handled.ran)

theorem Handled.tidy {view : ChainView} {before after : List Request} {request : Request} {rest : List Pending}
    {holding : Name → Symbol → Nat} {contract : Contract} (tidy : world.contract.Tidy)
    (keeps : keepsPrecision world request = true)
    (handled : Handled host view before after request rest holding contract world) : contract.Tidy := by
  rcases handled.positive with rfl | positive
  · exact tidy
  · refine (Request.run_does handled.ran).tidy tidy load_unstored positive ?_
    rintro _ _ _ _ _ _ rfl
    exact of_decide_eq_true keeps

theorem Stepped.tidy {label : Label} (tidy : world.contract.Tidy) (stepped : Stepped host world label next)
    (keeps : ∀ view before after request rest holding contract, label = .next view before after →
      Handled host view before after request rest holding contract world → keepsPrecision world request = true) :
    next.contract.Tidy := by
  cases stepped with
  | tick | submit | passed => exact tidy
  | handled view before after request rest holding contract handled =>
      have kept := handled.tidy tidy (keeps _ _ _ _ _ _ _ rfl handled)
      have config := handled.reconfigures.2
      exact kept.charged (.same (congrArg (·.cached.ingressBridgeFee) config)) rfl rfl

theorem World.start_tidy (holding : Name → Symbol → Nat) : (World.start holding).contract.Tidy :=
  ⟨Nat.zero_le _, Int.le_refl _, ⟨fun _ _ found => (by cases found), fun _ found => (by cases found),
    fun _ found => (by cases found), fun _ found => (by cases found)⟩, fun _ _ found => (by cases found),
    fun _ => ⟨fun _ => rfl, fun _ => rfl⟩⟩

/-- As long as every swap keeps the precision, every state is tidy. -/
theorem run_tidy {holding : Name → Symbol → Nat} {labels : List Label}
    (keeps : guarded host keepsPrecision labels (World.start holding) = true)
    (finished : run host labels (World.start holding) = .ok next) : next.contract.Tidy :=
  run_guarded (fun world => world.contract.Tidy) (fun _ _ _ tidy stepped safe => stepped.tidy tidy safe)
    (World.start_tidy holding) keeps finished

end EosEvm

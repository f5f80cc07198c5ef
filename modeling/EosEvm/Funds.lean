import EosEvm.Dust
import EosEvm.ExecuteCore

/-! The funds as a book of values. Where every balance is normal and in one symbol, the
operators move exact values, and a chain of them is summed up by who may have lost value
and by what happened to the totals. -/

namespace EosEvm

open Abort Words

namespace Funds

/-- The value of an open balance, zero if there is none. -/
def valueOf (funds : Funds) (owner : Name) : Nat :=
  ((funds.balances.get? owner).map BalanceWithDust.value).getD 0

/-- The value of all open balances. -/
def openTotal (funds : Funds) : Nat := funds.balances.total BalanceWithDust.value

/-- The value inside the EVM. -/
def evmValue (funds : Funds) : Nat := (funds.inevm.map BalanceWithDust.value).getD 0

/-- Every balance is normal and in the given symbol. -/
structure Sound (symbol : Symbol) (funds : Funds) : Prop where
  balances : ∀ owner row, funds.balances.get? owner = some row → row.Normal ∧ row.balance.symbol = symbol
  inevm : ∀ row, funds.inevm = some row → row.Normal ∧ row.balance.symbol = symbol

/-- The same balances are open and only payers may have lost value. -/
structure Flow (symbol : Symbol) (payers : Name → Prop) (before after : Funds) : Prop where
  sound : after.Sound symbol
  opened : ∀ owner, (after.balances.get? owner).isSome = (before.balances.get? owner).isSome
  kept : ∀ owner, ¬ payers owner → before.valueOf owner ≤ after.valueOf owner

variable {symbol : Symbol} {payers others : Name → Prop} {funds middle after : Funds}

section Ok

variable {owner : Name} {amount : Nat} {missing : String}

theorem credit_ok : funds.credit owner amount missing = .ok after ↔
    ∃ row, funds.balances.get? owner = some row ∧ ∃ result, row.add amount = .ok result ∧
      { funds with balances := funds.balances.put owner result } = after := by
  simp only [credit, bind_ok, require_ok, pure_ok]

theorem debit_ok : funds.debit owner amount missing = .ok after ↔
    ∃ row, funds.balances.get? owner = some row ∧ ∃ result, row.sub amount = .ok result ∧
      { funds with balances := funds.balances.put owner result } = after := by
  simp only [debit, bind_ok, require_ok, pure_ok]

theorem enterEvm_ok : funds.enterEvm amount = .ok after ↔
    ∃ row, funds.inevm = some row ∧ ∃ result, row.add amount = .ok result ∧ { funds with inevm := some result } = after := by
  simp only [enterEvm, bind_ok, require_ok, pure_ok]

theorem leaveEvm_ok : funds.leaveEvm amount = .ok after ↔
    ∃ row, funds.inevm = some row ∧ ∃ result, row.sub amount = .ok result ∧ { funds with inevm := some result } = after := by
  simp only [leaveEvm, bind_ok, require_ok, pure_ok]

end Ok

theorem Flow.refl (sound : funds.Sound symbol) : Flow symbol payers funds funds :=
  ⟨sound, fun _ => rfl, fun _ _ => Nat.le_refl _⟩

theorem Flow.trans (first : Flow symbol payers funds middle) (second : Flow symbol payers middle after) :
    Flow symbol payers funds after where
  sound := second.sound
  opened owner := (second.opened owner).trans (first.opened owner)
  kept owner free := (first.kept owner free).trans (second.kept owner free)

theorem Flow.mono (flow : Flow symbol payers funds after) (wider : ∀ owner, payers owner → others owner) :
    Flow symbol others funds after :=
  ⟨flow.sound, flow.opened, fun owner free => flow.kept owner fun paid => free (wider owner paid)⟩

theorem valueOf_of_get? {owner : Name} {row : BalanceWithDust} (found : funds.balances.get? owner = some row) :
    funds.valueOf owner = row.value := by
  simp [valueOf, found]

theorem evmValue_lt (sound : funds.Sound symbol) : funds.evmValue < 2 ^ 62 * symbol.unit := by
  cases found : funds.inevm with
  | none =>
      have positive := symbol.unit_pos
      simp only [evmValue, found, Option.map_none, Option.getD_none]
      omega
  | some row =>
      obtain ⟨normal, rfl⟩ := sound.inevm row found
      simpa [evmValue, found] using normal.value_lt

theorem openTotal_lt (sound : funds.Sound symbol) : funds.openTotal < 2 ^ 256 := by
  have bound := Table.total_le_card BalanceWithDust.value (2 ^ 122) funds.balances
    fun owner row found => Nat.le_of_lt (sound.balances owner row found).1.value_small
  have card : Fintype.card Name = 2 ^ 64 := Fintype.card_fin _
  rw [card] at bound
  unfold openTotal
  omega

theorem put_spec (sound : funds.Sound symbol) {owner : Name} {row : BalanceWithDust} (changed : BalanceWithDust)
    (found : funds.balances.get? owner = some row) (normal : changed.Normal)
    (same : changed.balance.symbol = symbol) :
    let replaced := { funds with balances := funds.balances.put owner changed }
    replaced.Sound symbol ∧
      (∀ other, (replaced.balances.get? other).isSome = (funds.balances.get? other).isSome) ∧
      (∀ other, replaced.valueOf other = if owner = other then changed.value else funds.valueOf other) ∧
      replaced.openTotal + row.value = funds.openTotal + changed.value := by
  refine ⟨⟨?_, sound.inevm⟩, ?_, ?_, Table.total_put_present _ _ _ _ _ found⟩
  · intro other stored present
    simp only [Table.get?_put] at present
    split at present
    · cases present
      exact ⟨normal, same⟩
    · exact sound.balances other stored present
  · intro other
    simp only [Table.get?_put]
    split
    · rename_i equal
      simp [← equal, found]
    · rfl
  · intro other
    simp only [valueOf, Table.get?_put]
    split <;> rfl

theorem credit_spec (payers : Name → Prop) (sound : funds.Sound symbol) {owner : Name} {amount : Nat} {missing : String}
    (credited : funds.credit owner amount missing = .ok after) :
    Flow symbol payers funds after ∧ after.openTotal = funds.openTotal + amount ∧
      after.inevm = funds.inevm ∧ after.statistics = funds.statistics := by
  obtain ⟨row, found, changed, added, rfl⟩ := credit_ok.mp credited
  obtain ⟨normal, symbolRow⟩ := sound.balances owner row found
  obtain ⟨normalAfter, symbolAfter, value⟩ := BalanceWithDust.add_spec normal added
  obtain ⟨soundAfter, opened, values, total⟩ :=
    put_spec sound changed found normalAfter (symbolAfter.trans symbolRow)
  refine ⟨⟨soundAfter, opened, ?_⟩, by omega, rfl, rfl⟩
  intro other _
  rw [values other]
  split
  · rename_i equal
    rw [← equal, valueOf_of_get? found]
    omega
  · exact Nat.le_refl _

theorem debit_spec (sound : funds.Sound symbol) {owner : Name} {amount : Nat} {missing : String}
    (debited : funds.debit owner amount missing = .ok after) :
    Flow symbol (fun payer => payer = owner) funds after ∧ after.openTotal + amount = funds.openTotal ∧
      after.inevm = funds.inevm ∧ after.statistics = funds.statistics := by
  obtain ⟨row, found, changed, taken, rfl⟩ := debit_ok.mp debited
  obtain ⟨normal, symbolRow⟩ := sound.balances owner row found
  obtain ⟨normalAfter, symbolAfter, value⟩ := BalanceWithDust.sub_spec normal taken
  obtain ⟨soundAfter, opened, values, total⟩ :=
    put_spec sound changed found normalAfter (symbolAfter.trans symbolRow)
  refine ⟨⟨soundAfter, opened, ?_⟩, by omega, rfl, rfl⟩
  intro other free
  rw [values other, if_neg fun equal => free equal.symm]

theorem enterEvm_spec (payers : Name → Prop) (sound : funds.Sound symbol) {amount : Nat}
    (entered : funds.enterEvm amount = .ok after) :
    Flow symbol payers funds after ∧ after.openTotal = funds.openTotal ∧
      after.evmValue = funds.evmValue + amount ∧ after.statistics = funds.statistics := by
  obtain ⟨row, found, changed, added, rfl⟩ := enterEvm_ok.mp entered
  obtain ⟨normal, symbolRow⟩ := sound.inevm row found
  obtain ⟨normalAfter, symbolAfter, value⟩ := BalanceWithDust.add_spec normal added
  refine ⟨⟨⟨sound.balances, ?_⟩, fun _ => rfl, fun _ _ => Nat.le_refl _⟩, rfl, ?_, rfl⟩
  · rintro stored ⟨⟩
    exact ⟨normalAfter, symbolAfter.trans symbolRow⟩
  · simp [evmValue, found, value]

theorem leaveEvm_spec (payers : Name → Prop) (sound : funds.Sound symbol) {amount : Nat}
    (left : funds.leaveEvm amount = .ok after) :
    Flow symbol payers funds after ∧ after.openTotal = funds.openTotal ∧
      after.evmValue + amount = funds.evmValue ∧ after.statistics = funds.statistics := by
  obtain ⟨row, found, changed, taken, rfl⟩ := leaveEvm_ok.mp left
  obtain ⟨normal, symbolRow⟩ := sound.inevm row found
  obtain ⟨normalAfter, symbolAfter, value⟩ := BalanceWithDust.sub_spec normal taken
  refine ⟨⟨⟨sound.balances, ?_⟩, fun _ => rfl, fun _ _ => Nat.le_refl _⟩, rfl, ?_, rfl⟩
  · rintro stored ⟨⟩
    exact ⟨normalAfter, symbolAfter.trans symbolRow⟩
  · simp [evmValue, found, value]

theorem Sound.empty (sound : funds.Sound Symbol.none) :
    (∀ owner, funds.balances.get? owner = none) ∧ funds.inevm = none := by
  constructor
  · intro owner
    cases found : funds.balances.get? owner with
    | none => rfl
    | some row =>
        obtain ⟨normal, unnamed⟩ := sound.balances owner row found
        exact absurd unnamed normal.named
  · cases found : funds.inevm with
    | none => rfl
    | some row =>
        obtain ⟨normal, unnamed⟩ := sound.inevm row found
        exact absurd unnamed normal.named

theorem openTotal_of_empty (empty : ∀ owner, funds.balances.get? owner = none) : funds.openTotal = 0 := by
  have same : funds.balances = Table.empty := Table.ext_get? fun owner => by rw [empty owner, Table.get?_empty]
  simp [openTotal, same]

theorem shift_spec (sound : funds.Sound symbol) {owner : Name} {row : BalanceWithDust} {balance : Asset}
    (change : Int) (found : funds.balances.get? owner = some row)
    (shifted : balance = ⟨row.balance.amount + change, symbol⟩) (nonneg : 0 ≤ row.balance.amount + change)
    (bounded : row.balance.amount + change ≤ maxAmount) :
    let changed := { funds with balances := funds.balances.put owner { row with balance := balance } }
    changed.Sound symbol ∧
      (∀ other, (changed.balances.get? other).isSome = (funds.balances.get? other).isSome) ∧
      (∀ other, (changed.valueOf other : Int) =
        funds.valueOf other + if owner = other then change * symbol.unit else 0) ∧
      (changed.openTotal : Int) = funds.openTotal + change * symbol.unit := by
  obtain ⟨normal, symbolRow⟩ := sound.balances owner row found
  have normalAfter : ({ row with balance := balance } : BalanceWithDust).Normal := by
    subst shifted
    exact ⟨symbolRow ▸ normal.named, symbolRow ▸ normal.precise, nonneg, bounded, symbolRow ▸ normal.dusty⟩
  have value : (({ row with balance := balance } : BalanceWithDust).value : Int) =
      row.value + change * symbol.unit := by
    subst shifted
    have rowNonneg := normal.nonneg
    simp only [BalanceWithDust.value, symbolRow, Nat.cast_add, Nat.cast_mul, Int.toNat_of_nonneg rowNonneg,
      Int.toNat_of_nonneg nonneg]
    ring
  obtain ⟨soundAfter, opened, values, total⟩ :=
    put_spec sound { row with balance := balance } found normalAfter (by rw [shifted])
  refine ⟨soundAfter, opened, ?_, by omega⟩
  intro other
  rw [values other]
  split
  · rename_i same
    rw [← same, valueOf_of_get? found]
    exact value
  · rw [add_zero]

theorem openRow_spec (sound : funds.Sound symbol) (named : symbol ≠ Symbol.none)
    (precise : symbol.precision ≤ evmPrecision) {owner : Name} (absent : funds.balances.get? owner = none) :
    let opened := { funds with balances := funds.balances.put owner { balance := ⟨0, symbol⟩ } }
    opened.Sound symbol ∧ (∀ other, opened.valueOf other = funds.valueOf other) ∧
      opened.openTotal = funds.openTotal := by
  have zero : ({ balance := ⟨0, symbol⟩ } : BalanceWithDust).value = 0 := by simp [BalanceWithDust.value]
  refine ⟨⟨?_, sound.inevm⟩, ?_, ?_⟩
  · intro other row present
    simp only [Table.get?_put] at present
    split at present
    · cases present
      exact ⟨BalanceWithDust.zero_normal symbol named precise, rfl⟩
    · exact sound.balances other row present
  · intro other
    simp only [valueOf, Table.get?_put]
    split
    · rename_i same
      simp [← same, absent, zero]
    · rfl
  · simp only [openTotal]
    rw [Table.total_put _ _ _ _ absent, zero, Nat.add_zero]

theorem value_of_isZero {row : BalanceWithDust} (zero : row.isZero = true) : row.value = 0 := by
  simp only [BalanceWithDust.isZero, Bool.and_eq_true, beq_iff_eq] at zero
  simp [BalanceWithDust.value, zero.1, zero.2]

theorem closeRow_spec (sound : funds.Sound symbol) {owner : Name} {row : BalanceWithDust}
    (found : funds.balances.get? owner = some row) (zero : row.isZero = true) :
    let closed := { funds with balances := funds.balances.erase owner }
    closed.Sound symbol ∧ (∀ other, closed.valueOf other = funds.valueOf other) ∧
      closed.openTotal = funds.openTotal := by
  refine ⟨⟨?_, sound.inevm⟩, ?_, ?_⟩
  · intro other stored present
    simp only [Table.get?_erase] at present
    split at present
    · cases present
    · exact sound.balances other stored present
  · intro other
    simp only [valueOf, Table.get?_erase]
    split
    · rename_i same
      simp [← same, found, value_of_isZero zero]
    · rfl
  · have total := Table.total_erase BalanceWithDust.value funds.balances owner row found
    rw [value_of_isZero zero] at total
    exact total

def statisticsIn (funds : Funds) (symbol : Symbol) : Statistics :=
  funds.statistics.getD ⟨⟨⟨0, symbol⟩, 0⟩, ⟨⟨0, symbol⟩, 0⟩⟩

theorem getStatistics_ok {funds : Funds} {config : ConfigWrapper} {statistics : Statistics}
    (found : funds.getStatistics config = .ok statistics) :
    config.getTokenSymbol.isValid = true ∧ statistics = funds.statisticsIn config.getTokenSymbol := by
  simp only [getStatistics, bind_ok, pure_ok, Asset.make_ok] at found
  obtain ⟨_, ⟨_, valid, rfl⟩, rfl⟩ := found
  exact ⟨valid, rfl⟩

end Funds

end EosEvm

import EosEvm.Tidy

/-! Balances after any swaps. A swap may give a balance a symbol of another precision, but its
amount stays in range and its dust below one token, and adding and subtracting stay exact in
the symbol the balance has. -/

namespace EosEvm

open Abort Words

namespace BalanceWithDust

variable {row result : BalanceWithDust} {amount : Nat}

/-- Amount in range and dust below one token, whatever the symbol. -/
structure Loose (row : BalanceWithDust) : Prop where
  nonneg : 0 ≤ row.balance.amount
  bounded : row.balance.amount ≤ maxAmount
  dusty : row.dust < 10 ^ 18

theorem zero_loose (symbol : Symbol) : (⟨⟨0, symbol⟩, 0⟩ : BalanceWithDust).Loose :=
  ⟨Int.le_refl 0, by simp [maxAmount], by simp⟩

theorem Loose.withSymbol (loose : row.Loose) (symbol : Symbol) : (row.withSymbol symbol).Loose :=
  ⟨loose.nonneg, loose.bounded, loose.dusty⟩

theorem Loose.withAmount (loose : row.Loose) {amount : Int} (nonneg : 0 ≤ amount) (bounded : amount ≤ maxAmount) :
    ({ row with balance := { row.balance with amount := amount } } : BalanceWithDust).Loose :=
  ⟨nonneg, bounded, loose.dusty⟩

theorem Loose.value_small (loose : row.Loose) : row.value < 2 ^ 123 := by
  obtain ⟨nonneg, bounded, dusty⟩ := loose
  unfold maxAmount at bounded
  have unit := row.balance.symbol.unit_le
  have units : row.balance.amount.toNat ≤ 2 ^ 62 := by omega
  have product : row.balance.amount.toNat * row.balance.symbol.unit ≤ 2 ^ 62 * 10 ^ 18 := Nat.mul_le_mul units unit
  unfold value
  omega

theorem pow10Const_ok {symbol : Symbol} {unit : Nat}
    (found : pow10Const ((evmPrecision : Int) - symbol.precision) = .ok unit) :
    symbol.precision ≤ evmPrecision ∧ unit = symbol.unit := by
  have precise : symbol.precision ≤ evmPrecision := by
    simp only [pow10Const, bind_ok, check_ok, exists_const] at found
    omega
  rw [pow10Const_precision symbol precise] at found
  exact ⟨precise, (Except.ok.inj found).symm⟩

theorem pow10Const_eq_ok (symbol : Symbol) (unit : Nat) :
    pow10Const ((evmPrecision : Int) - symbol.precision) = .ok unit ↔
      symbol.precision ≤ evmPrecision ∧ unit = symbol.unit :=
  ⟨pow10Const_ok, fun found => found.2 ▸ pow10Const_precision symbol found.1⟩

section Words

variable {units quot unit dust rem : Nat}

theorem add_words (bounded : units < 2 ^ 62) (quotBound : quot < 2 ^ 62) (small : unit ≤ 10 ^ 18) (dusty : dust < 10 ^ 18)
    (remBound : rem < unit) :
    (if u64 unit ≤ u64 (dust + u64 rem) then i64 (i64 (units + i64 (u64 quot)) + 1) else i64 (units + i64 (u64 quot))) =
        units + quot + (if unit ≤ dust + rem then 1 else 0 : Nat) ∧
      (if u64 unit ≤ u64 (dust + u64 rem) then sub64 (u64 (dust + u64 rem)) (u64 unit) else u64 (dust + u64 rem)) =
        dust + rem - (if unit ≤ dust + rem then 1 else 0) * unit := by
  rw [u64_of_lt (show unit < 2 ^ 64 by omega), u64_of_lt (show rem < 2 ^ 64 by omega),
    u64_of_lt (show dust + rem < 2 ^ 64 by omega), u64_of_lt (show quot < 2 ^ 64 by omega),
    i64_of_range quot (by omega) (by omega), i64_of_range (units + quot) (by omega) (by omega),
    i64_of_range (units + quot + 1) (by omega) (by omega)]
  by_cases carries : unit ≤ dust + rem
  · rw [if_pos carries, if_pos carries, if_pos carries, sub64_of_le (by omega) carries, Nat.one_mul]
    exact ⟨rfl, rfl⟩
  · rw [if_neg carries, if_neg carries, if_neg carries, Nat.zero_mul]
    exact ⟨(add_zero _).symm, rfl⟩

theorem sub_words_borrowed (available : quot ≤ units) (bounded : units < 2 ^ 62) (small : unit ≤ 10 ^ 18)
    (remBound : rem < unit) (short : dust < rem) :
    sub64 dust (u64 rem) / 2 ^ 63 % 2 = 1 ∧ i64 (i64 (units - i64 (u64 quot)) - 1) = units - quot - 1 ∧
      u64 (sub64 dust (u64 rem) + u64 unit) = dust + unit - rem := by
  rw [u64_of_lt (show rem < 2 ^ 64 by omega), u64_of_lt (show unit < 2 ^ 64 by omega), sub64_of_lt (by omega) short,
    u64_of_lt (show quot < 2 ^ 64 by omega), i64_of_range quot (by omega) (by omega),
    i64_of_range (units - quot) (by omega) (by omega), i64_of_range (units - quot - 1) (by omega) (by omega)]
  refine ⟨by omega, rfl, ?_⟩
  unfold u64
  omega

theorem sub_words (available : quot ≤ units) (bounded : units < 2 ^ 62) (small : unit ≤ 10 ^ 18) (dusty : dust < 10 ^ 18)
    (remBound : rem < unit) (covered : rem ≤ dust) :
    sub64 dust (u64 rem) / 2 ^ 63 % 2 ≠ 1 ∧ i64 (units - i64 (u64 quot)) = units - quot ∧
      sub64 dust (u64 rem) = dust - rem := by
  rw [u64_of_lt (show rem < 2 ^ 64 by omega), sub64_of_le (by omega) covered, u64_of_lt (show quot < 2 ^ 64 by omega),
    i64_of_range quot (by omega) (by omega), i64_of_range (units - quot) (by omega) (by omega)]
  exact ⟨by omega, rfl, rfl⟩

end Words

def carry (row : BalanceWithDust) (amount : Nat) : Nat :=
  if row.balance.symbol.unit ≤ row.dust + amount % row.balance.symbol.unit then 1 else 0

def plus (row : BalanceWithDust) (amount : Nat) : BalanceWithDust where
  balance := ⟨row.balance.amount + (amount / row.balance.symbol.unit : Nat) + row.carry amount, row.balance.symbol⟩
  dust := row.dust + amount % row.balance.symbol.unit - row.carry amount * row.balance.symbol.unit

def borrow (row : BalanceWithDust) (amount : Nat) : Nat :=
  if row.dust < amount % row.balance.symbol.unit then 1 else 0

def minus (row : BalanceWithDust) (amount : Nat) : BalanceWithDust where
  balance := ⟨row.balance.amount - (amount / row.balance.symbol.unit : Nat) - row.borrow amount, row.balance.symbol⟩
  dust := row.dust + row.borrow amount * row.balance.symbol.unit - amount % row.balance.symbol.unit

section Fields

variable (row : BalanceWithDust) (amount : Nat)

@[simp] theorem plus_symbol : (row.plus amount).balance.symbol = row.balance.symbol := rfl

@[simp] theorem minus_symbol : (row.minus amount).balance.symbol = row.balance.symbol := rfl

theorem plus_amount : (row.plus amount).balance.amount =
    row.balance.amount + (amount / row.balance.symbol.unit : Nat) + row.carry amount := rfl

theorem minus_amount : (row.minus amount).balance.amount =
    row.balance.amount - (amount / row.balance.symbol.unit : Nat) - row.borrow amount := rfl

theorem plus_dust : (row.plus amount).dust =
    row.dust + amount % row.balance.symbol.unit - row.carry amount * row.balance.symbol.unit := rfl

theorem minus_dust : (row.minus amount).dust =
    row.dust + row.borrow amount * row.balance.symbol.unit - amount % row.balance.symbol.unit := rfl

end Fields

theorem Loose.add_ok (loose : row.Loose) (amount : Nat) (result : BalanceWithDust) :
    row.add amount = .ok result ↔
      (row.balance.symbol ≠ Symbol.none ∧ row.balance.symbol.precision ≤ evmPrecision) ∧
      (row.plus amount).balance.amount ≤ maxAmount ∧ row.plus amount = result := by
  obtain ⟨⟨stored, symbol⟩, dust⟩ := row
  obtain ⟨nonneg, bounded, dusty⟩ := loose
  simp only at nonneg bounded dusty
  obtain ⟨units, rfl⟩ := Int.eq_ofNat_of_zero_le nonneg
  have limit : ∀ number : Nat, (number : Int) ≤ maxAmount ↔ number < 2 ^ 62 := by
    intro number
    unfold maxAmount
    omega
  have words := fun quotBound : amount / symbol.unit < 2 ^ 62 =>
    add_words ((limit units).mp bounded) quotBound symbol.unit_le dusty (Nat.mod_lt amount symbol.unit_pos)
  simp only [add, bind_ok, check_ok, exists_const, pow10Const_eq_ok, pure_ok, plus, carry]
  constructor
  · rintro ⟨named, _, ⟨precise, rfl⟩, quotBound, _, fits, rfl⟩
    obtain ⟨sum, left⟩ := words ((limit _).mp quotBound)
    rw [sum] at fits ⊢
    rw [left]
    exact ⟨⟨named, precise⟩, fits, rfl⟩
  · rintro ⟨⟨named, precise⟩, fits, rfl⟩
    have quotBound : amount / symbol.unit < 2 ^ 62 := by
      have total := (limit (units + amount / symbol.unit + _)).mp (by exact_mod_cast fits)
      omega
    obtain ⟨sum, left⟩ := words quotBound
    refine ⟨named, _, ⟨precise, rfl⟩, (limit _).mpr quotBound, bounded, ?_, ?_⟩
    · rw [sum]
      exact fits
    · rw [sum, left]

theorem Loose.sub_ok (loose : row.Loose) (amount : Nat) (result : BalanceWithDust) :
    row.sub amount = .ok result ↔
      (row.balance.symbol ≠ Symbol.none ∧ row.balance.symbol.precision ≤ evmPrecision) ∧
      amount / row.balance.symbol.unit + row.borrow amount ≤ row.balance.amount.toNat ∧ row.minus amount = result := by
  obtain ⟨⟨stored, symbol⟩, dust⟩ := row
  obtain ⟨nonneg, bounded, dusty⟩ := loose
  simp only at nonneg bounded dusty
  obtain ⟨units, rfl⟩ := Int.eq_ofNat_of_zero_le nonneg
  unfold maxAmount at bounded
  have remBound := Nat.mod_lt amount symbol.unit_pos
  have spare : 0 ≤ (units : Int) - (amount / symbol.unit : Nat) - 1 ↔ amount / symbol.unit + 1 ≤ units := by omega
  have machine : unsigned (units : Int) = units := by rw [unsigned_of_nonneg nonneg (by omega), Int.toNat_natCast]
  simp only [sub, bind_ok, check_ok, exists_const, pow10Const_eq_ok, machine, minus, borrow, Int.toNat_natCast]
  by_cases short : dust < amount % symbol.unit
  · have words := fun available : amount / symbol.unit ≤ units =>
      sub_words_borrowed available (by omega) symbol.unit_le remBound short
    simp only [if_pos short, Nat.one_mul, Nat.cast_one]
    constructor
    · rintro ⟨named, _, ⟨precise, rfl⟩, available, taken⟩
      obtain ⟨wraps, difference, left⟩ := words available
      rw [if_pos wraps, difference, left] at taken
      simp only [bind_ok, check_ok, exists_const, pure_ok] at taken
      exact ⟨⟨named, precise⟩, spare.mp taken.1, taken.2⟩
    · rintro ⟨⟨named, precise⟩, enough, rfl⟩
      obtain ⟨wraps, difference, left⟩ := words (Nat.le_of_succ_le enough)
      refine ⟨named, _, ⟨precise, rfl⟩, Nat.le_of_succ_le enough, ?_⟩
      rw [if_pos wraps, difference, left]
      exact (bind_ok _ _ _).mpr ⟨(), (check_ok _ _ ()).mpr (spare.mpr enough), rfl⟩
  · have words := fun available : amount / symbol.unit ≤ units =>
      sub_words available (by omega) symbol.unit_le dusty remBound (Nat.le_of_not_lt short)
    simp only [if_neg short, Nat.zero_mul, Nat.add_zero, Nat.cast_zero, sub_zero]
    constructor
    · rintro ⟨named, _, ⟨precise, rfl⟩, available, taken⟩
      obtain ⟨fits, difference, left⟩ := words available
      rw [if_neg fits, difference, left, pure_ok] at taken
      exact ⟨⟨named, precise⟩, available, taken⟩
    · rintro ⟨⟨named, precise⟩, enough, rfl⟩
      obtain ⟨fits, difference, left⟩ := words enough
      refine ⟨named, _, ⟨precise, rfl⟩, enough, ?_⟩
      rw [if_neg fits, difference, left]
      rfl

theorem carry_mul_le (row : BalanceWithDust) (amount : Nat) :
    row.carry amount * row.balance.symbol.unit ≤ row.dust + amount % row.balance.symbol.unit := by
  unfold carry
  split <;> omega

theorem le_borrow_mul (row : BalanceWithDust) (amount : Nat) :
    amount % row.balance.symbol.unit ≤ row.dust + row.borrow amount * row.balance.symbol.unit := by
  have remBound := Nat.mod_lt amount row.balance.symbol.unit_pos
  unfold borrow
  split <;> omega

theorem plus_dust_lt (row : BalanceWithDust) (amount : Nat) (dusty : row.dust < 10 ^ 18) :
    (row.plus amount).dust < 10 ^ 18 := by
  have remBound := Nat.mod_lt amount row.balance.symbol.unit_pos
  have unitBound := row.balance.symbol.unit_le
  rw [plus_dust, carry]
  split <;> omega

theorem minus_dust_lt (row : BalanceWithDust) (amount : Nat) (dusty : row.dust < 10 ^ 18) :
    (row.minus amount).dust < 10 ^ 18 := by
  have unitBound := row.balance.symbol.unit_le
  rw [minus_dust, borrow]
  split <;> omega

theorem Loose.plus_nonneg (loose : row.Loose) (amount : Nat) : 0 ≤ (row.plus amount).balance.amount := by
  have nonneg := loose.nonneg
  have quotient := Int.natCast_nonneg (amount / row.balance.symbol.unit)
  rw [plus_amount]
  omega

theorem Loose.value_plus (loose : row.Loose) (amount : Nat) : (row.plus amount).value = row.value + amount := by
  have nonneg := loose.nonneg
  have carried := row.carry_mul_le amount
  have whole := Nat.div_add_mod amount row.balance.symbol.unit
  have units : (row.plus amount).balance.amount.toNat =
      row.balance.amount.toNat + amount / row.balance.symbol.unit + row.carry amount := by
    have quotient := Int.natCast_nonneg (amount / row.balance.symbol.unit)
    rw [plus_amount]
    omega
  rw [Nat.mul_comm] at whole
  rw [value, units, value, plus_symbol, plus_dust, Nat.add_mul, Nat.add_mul]
  omega

theorem Loose.value_minus (loose : row.Loose)
    (enough : amount / row.balance.symbol.unit + row.borrow amount ≤ row.balance.amount.toNat) :
    (row.minus amount).value + amount = row.value := by
  have nonneg := loose.nonneg
  have covered := row.le_borrow_mul amount
  have whole := Nat.div_add_mod amount row.balance.symbol.unit
  obtain ⟨rest, units⟩ := Nat.exists_eq_add_of_le enough
  have left : (row.minus amount).balance.amount.toNat = rest := by
    rw [minus_amount]
    omega
  rw [Nat.mul_comm] at whole
  rw [value, left, value, units, minus_symbol, minus_dust, Nat.add_mul, Nat.add_mul]
  omega

theorem Loose.add_spec (loose : row.Loose) (added : row.add amount = .ok result) :
    result.Loose ∧ result.balance.symbol = row.balance.symbol ∧ row.balance.symbol.precision ≤ evmPrecision ∧
      result.value = row.value + amount := by
  obtain ⟨⟨_, precise⟩, fits, rfl⟩ := (loose.add_ok amount result).mp added
  exact ⟨⟨loose.plus_nonneg amount, fits, row.plus_dust_lt amount loose.dusty⟩, rfl, precise, loose.value_plus amount⟩

theorem Loose.sub_spec (loose : row.Loose) (taken : row.sub amount = .ok result) :
    result.Loose ∧ result.balance.symbol = row.balance.symbol ∧ row.balance.symbol.precision ≤ evmPrecision ∧
      row.balance.symbol ≠ Symbol.none ∧ amount / row.balance.symbol.unit ≤ row.balance.amount.toNat ∧
      result.value + amount = row.value := by
  obtain ⟨⟨named, precise⟩, enough, rfl⟩ := (loose.sub_ok amount result).mp taken
  have nonneg := loose.nonneg
  have bounded := loose.bounded
  refine ⟨⟨?_, ?_, row.minus_dust_lt amount loose.dusty⟩, rfl, precise, named, Nat.le_of_add_right_le enough,
    loose.value_minus enough⟩
  all_goals
    have quotient := Int.natCast_nonneg (amount / row.balance.symbol.unit)
    rw [minus_amount]
    omega

theorem Loose.exists_sub_of_add (loose : row.Loose) (added : row.add amount = .ok result) {share : Nat}
    (part : share ≤ amount) : ∃ rest, result.sub share = .ok rest := by
  have fits := (loose.add_spec added).1
  obtain ⟨token, _, rfl⟩ := (loose.add_ok amount result).mp added
  refine ⟨_, (fits.sub_ok share _).mpr ⟨token, ?_, rfl⟩⟩
  have nonneg := loose.nonneg
  have quotients : share / row.balance.symbol.unit ≤ amount / row.balance.symbol.unit := Nat.div_le_div_right part
  have first := Nat.div_add_mod share row.balance.symbol.unit
  have second := Nat.div_add_mod amount row.balance.symbol.unit
  simp only [plus, carry, borrow]
  by_cases fewer : share / row.balance.symbol.unit < amount / row.balance.symbol.unit
  · split <;> split <;> omega
  · have equal : share / row.balance.symbol.unit = amount / row.balance.symbol.unit := by omega
    rw [equal] at first ⊢
    split <;> split <;> omega

theorem Loose.exists_add (loose : row.Loose) (named : row.balance.symbol ≠ Symbol.none)
    (precise : row.balance.symbol.precision ≤ evmPrecision)
    (fits : row.value + amount < 2 ^ 62 * row.balance.symbol.unit) : ∃ result, row.add amount = .ok result := by
  refine ⟨_, (loose.add_ok amount _).mpr ⟨⟨named, precise⟩, ?_, rfl⟩⟩
  rw [← loose.value_plus, value] at fits
  have units := Nat.lt_of_mul_lt_mul_right (lt_of_le_of_lt (Nat.le_add_right _ _) fits)
  have symbol : (row.plus amount).balance.symbol = row.balance.symbol := rfl
  unfold maxAmount
  omega

end BalanceWithDust

namespace Funds

/-- Every balance is loose, and so are the tokens inside the EVM, in the symbol of the token
or in none. -/
structure Loose (symbol : Symbol) (funds : Funds) : Prop where
  balances : ∀ owner row, funds.balances.get? owner = some row → row.Loose
  inevm : ∀ row, funds.inevm = some row → row.Loose ∧ (row.balance.symbol = symbol ∨ row.balance.symbol = Symbol.none)

variable {symbol : Symbol} {funds after : Funds}

theorem Loose.put (loose : funds.Loose symbol) {row : BalanceWithDust} (owner : Name) (fits : row.Loose) :
    ({ funds with balances := funds.balances.put owner row } : Funds).Loose symbol := by
  refine ⟨?_, loose.inevm⟩
  intro other stored found
  rw [Table.get?_put] at found
  split at found
  · cases found
    exact fits
  · exact loose.balances other stored found

theorem Loose.putInevm (loose : funds.Loose symbol) {row changed : BalanceWithDust} (found : funds.inevm = some row)
    (fits : changed.Loose) (same : changed.balance.symbol = row.balance.symbol) :
    ({ funds with inevm := some changed } : Funds).Loose symbol := by
  refine ⟨loose.balances, ?_⟩
  rintro _ ⟨⟩
  rw [same]
  exact ⟨fits, (loose.inevm row found).2⟩

theorem Loose.move (loose : funds.Loose symbol) (move : Move symbol funds after) : after.Loose symbol := by
  cases move with
  | credit owner amount missing after credited =>
      obtain ⟨row, found, changed, added, rfl⟩ := Funds.credit_ok.mp credited
      exact loose.put owner ((loose.balances owner row found).add_spec added).1
  | debit owner amount missing after debited =>
      obtain ⟨row, found, changed, taken, rfl⟩ := Funds.debit_ok.mp debited
      exact loose.put owner ((loose.balances owner row found).sub_spec taken).1
  | enters amount after entered =>
      obtain ⟨row, found, changed, added, rfl⟩ := Funds.enterEvm_ok.mp entered
      obtain ⟨fits, same, _⟩ := (loose.inevm row found).1.add_spec added
      exact loose.putInevm found fits same
  | leaves amount after left =>
      obtain ⟨row, found, changed, taken, rfl⟩ := Funds.leaveEvm_ok.mp left
      obtain ⟨fits, same, _⟩ := (loose.inevm row found).1.sub_spec taken
      exact loose.putInevm found fits same
  | records => exact ⟨loose.balances, loose.inevm⟩

theorem Loose.moves (loose : funds.Loose symbol) (moves : Moves symbol funds after) : after.Loose symbol := by
  induction moves with
  | refl => exact loose
  | tail _ move ih => exact ih.move move

end Funds

namespace Contract

/-- Loose funds in the configured symbol. -/
def Loose (contract : Contract) : Prop := contract.funds.Loose contract.config.getTokenSymbol

variable {before after middle : Contract}

theorem Loose.of_symbol (symbol : after.config.getTokenSymbol = before.config.getTokenSymbol)
    (funds : after.funds.Loose before.config.getTokenSymbol) : after.Loose := by
  unfold Loose
  rw [symbol]
  exact funds

theorem Loose.charged (loose : before.Loose)
    (charges : before.config.Charges after.config (.action none [] .evmtx)) (funds : after.funds = before.funds) :
    after.Loose := by
  cases charges with
  | same kept => exact .of_symbol (congrArg Asset.symbol kept) (funds ▸ loose)
  | swap _ _ _ _ _ _ swaps => cases swaps
  | fee nonneg precise keeps =>
      rcases keeps with unset | same
      · refine ⟨by rw [funds]; exact loose.balances, ?_⟩
        intro row found
        rw [funds] at found
        obtain ⟨fits, named | unnamed⟩ := loose.inevm row found
        · exact ⟨fits, Or.inr (named.trans unset)⟩
        · exact ⟨fits, Or.inr unnamed⟩
      · exact .of_symbol same (funds ▸ loose)

theorem Loose.refreshPrices (loose : before.Loose) (env : Env) : (refreshPrices env before).Loose := by
  have fee := refreshPrices_fee env before
  rw [refreshPrices_eq] at fee ⊢
  exact loose.charged (.same fee) rfl

theorem Loose.opening {owner : Name} (loose : before.Loose) (opening : openInternalBalance owner before = .ok after) :
    after.Loose := by
  obtain ⟨balances, row, rfl⟩ := openInternalBalance_ok opening
  rcases openRow_ok row with ⟨_, rfl⟩ | ⟨_, _, rfl⟩
  · exact loose
  · exact Funds.Loose.put loose owner (BalanceWithDust.zero_loose _)

theorem Loose.deposit {owner : Name} {quantity : Asset} {missing : String} (loose : before.Loose)
    (positive : 0 < quantity.amount) (deposited : before.deposit owner quantity missing = .ok after) : after.Loose := by
  obtain ⟨row, balance, found, added, rfl⟩ := deposit_ok deposited
  obtain ⟨_, _, bounded, rfl⟩ := (Asset.add_ok _ _ _).mp added
  have fits := loose.balances owner row found
  have nonneg := fits.nonneg
  exact Funds.Loose.put loose owner (fits.withAmount (by omega) bounded)

theorem Loose.withdraw {env : Env} {owner : Name} {quantity : Asset} {recipient : Option Name} (loose : before.Loose)
    (withdrawn : withdraw env owner quantity recipient before = .ok after) : after.Loose := by
  obtain ⟨_, _, row, _, found, enough, bounded, rfl, rfl⟩ := withdraw_ok withdrawn
  have fits := (loose.balances owner row found).withSymbol before.config.getTokenSymbol
  exact Funds.Loose.put loose owner (fits.withAmount (by omega) bounded)

theorem Loose.close {env : Env} {owner : Name} (loose : before.Loose) (closed : close env owner before = .ok after) :
    after.Loose := by
  obtain ⟨_, _, _, _, _, _, rfl⟩ := close_ok closed
  refine ⟨?_, loose.inevm⟩
  intro other stored present
  rw [Table.get?_erase] at present
  split at present
  · cases present
  · exact loose.balances other stored present

theorem Loose.migratebal {fromName : Name} {limit : Int} (loose : before.Loose)
    (ran : migratebal fromName limit before = .ok after) : after.Loose := by
  obtain ⟨_, _, _, _, _, rfl⟩ := migratebal_ok ran
  exact ⟨Table.foldl_modify_forall (fun _ fits => fits.withSymbol _) _ _ loose.balances, loose.inevm⟩

theorem Loose.swapgastoken {env : Env} {newTokenContract : Name} {newSymbol : Symbol} {swapDestAccount : Name}
    {swapMemo : Bytes} (loose : before.Loose)
    (ran : swapgastoken env newTokenContract newSymbol swapDestAccount swapMemo before = .ok after) : after.Loose := by
  obtain ⟨_, inevm, statistics, swapped, found, counted, migrated, ran⟩ := swapgastoken_ok ran
  have middle : swapped.Loose := by
    refine Loose.migratebal ⟨by exact loose.balances, ?_⟩ migrated
    rintro _ ⟨⟩
    exact ⟨(loose.inevm inevm found).1.withSymbol newSymbol, Or.inl rfl⟩
  rcases ran with rfl | ⟨_, rfl⟩ <;> exact middle

theorem Loose.processTx {env : Env} {rc : RuntimeConfig} {miner : Name} {txn : Txn} {minPrice : Option Nat}
    (loose : before.Loose) (processed : processTx env rc miner txn minPrice before = .ok after) : after.Loose := by
  obtain ⟨moves, _⟩ := processTx_opened processed
  obtain ⟨_, _, _, _, _, _, _, _, _, _, _, _, _, _, _, _, rfl⟩ := processTx_ok processed
  exact .of_symbol (congrArg Asset.symbol
    ((ConfigWrapper.promoteConsensusParam_fee _ _).trans (ConfigWrapper.promoteEvmVersion_fee _ _)))
    (Funds.Loose.moves loose moves)

theorem Loose.promoted (loose : before.Loose) (now : Nat) :
    ({ before with config := (before.config.promoteEvmVersion now).2 } : Contract).Loose :=
  loose.charged (.same (ConfigWrapper.promoteEvmVersion_fee before.config now)) rfl

theorem Bridges.loose {env : Env} {request : Request} {payer : Option Name} {tx : Transaction} (loose : before.Loose)
    (positive : ∀ token sender recipient quantity memo,
      request = .transfer token sender recipient quantity memo → 0 < quantity.amount)
    (bridges : Bridges env before request payer tx middle) : middle.Loose := by
  cases bridges with
  | call => exact Loose.refreshPrices (by exact loose) env
  | callotherpay => exact Loose.refreshPrices (by exact loose.promoted env.now) env
  | admincall _ _ _ _ _ _ _ _ address _ numbered _ numbers _ =>
      refine Loose.refreshPrices ?_ env
      obtain ⟨_, rfl, _⟩ := adminNonce_ok numbers
      exact loose
  | ingress token sender quantity memo _ _ received recorded deposited records _ _ =>
      have received := (loose.refreshPrices env).deposit (positive _ _ _ _ _ rfl) deposited
      obtain ⟨_, rfl⟩ := recordIngressFee_ok records
      exact ⟨received.balances, received.inevm⟩

theorem Loose.init {env : Env} {chainid : Nat} {fees : FeeParameters} {tokenContract : Option Name}
    (loose : before.Loose) (unset : before.config.stored = false → before.config.getTokenSymbol = Symbol.none)
    (inited : init env chainid fees tokenContract before = .ok after) : after.Loose := by
  obtain ⟨unstored, config, inevm, changed, created, opened⟩ := init_ok inited
  refine Loose.opening ⟨by exact loose.balances, ?_⟩ opened
  rintro _ ⟨⟩
  simp only [initialInevm, bind_ok, require_ok, pure_ok, Asset.make_ok] at created
  obtain ⟨fee, charge, zero, ⟨_, _, rfl⟩, rfl⟩ := created
  cases found : before.funds.inevm with
  | some row =>
      obtain ⟨fits, named | unnamed⟩ := loose.inevm _ found
      · exact ⟨fits, Or.inr (named.trans (unset unstored))⟩
      · exact ⟨fits, Or.inr unnamed⟩
  | none =>
      obtain ⟨_, symbol, _⟩ := ConfigWrapper.setFeeParameters_given charge changed
      exact ⟨BalanceWithDust.zero_loose _, Or.inl symbol.symm⟩

theorem Does.loose {env : Env} {request : Request} (loose : before.Loose)
    (unset : before.config.stored = false → before.config.getTokenSymbol = Symbol.none)
    (positive : ∀ token sender recipient quantity memo,
      request = .transfer token sender recipient quantity memo → 0 < quantity.amount)
    (did : Does env before request after) : after.Loose := by
  cases did with
  | init caller auths chainid fees tokenContract after ran => exact loose.init unset ran
  | configures caller auths requested config configured => exact loose.charged configured.charges rfl
  | swaps caller auths newTokenContract newSymbol swapDestAccount swapMemo after ran => exact loose.swapgastoken ran
  | idles | announces | edits | lists | replies => exact loose
  | opens caller auths requested owner receivers after opening opened =>
      exact Loose.opening (by exact loose) opened
  | closes caller auths owner after ran => exact loose.close ran
  | withdraws caller auths owner quantity recipient after ran => exact loose.withdraw ran
  | deposits token sender quantity memo receiver after deposited =>
      exact (loose.refreshPrices env).deposit (positive _ _ _ _ _ rfl) deposited
  | adjustsEvm caller auths id delta subtract after ran =>
      obtain ⟨_, _, rfl, moves⟩ := addevmbal_moves ran
      exact Funds.Loose.moves loose moves
  | adjustsOpen caller auths holder delta subtract after ran =>
      obtain ⟨_, rfl, moves⟩ := addopenbal_moves ran
      exact Funds.Loose.moves loose moves
  | migrates caller auths fromName limit after ran => exact loose.migratebal ran
  | pushes caller auths miner rlptx minPrice after ready processed => exact (loose.refreshPrices env).processTx processed
  | bridges request payer tx middle after ready bridges dispatched =>
      have promoted := (bridges.loose loose positive).promoted env.now
      rcases dispatchTx_ok dispatched with ⟨_, processed⟩ | ⟨_, _, rfl⟩
      · exact promoted.processTx processed
      · exact promoted

end Contract

variable {host : Host} {world next : World}

theorem Stepped.loose {label : Label} (loose : world.contract.Loose) (stepped : Stepped host world label next) :
    next.contract.Loose := by
  cases stepped with
  | tick | submit | passed => exact loose
  | handled view before after request rest holding contract handled =>
      have kept : contract.Loose := by
        rcases handled.positive with rfl | positive
        · exact loose
        · exact (Request.run_does handled.ran).loose loose load_unstored positive
      have config := handled.reconfigures.2
      exact kept.charged (.same (congrArg (·.cached.ingressBridgeFee) config)) rfl

/-- Every reachable balance is loose. -/
theorem run_loose {holding : Name → Symbol → Nat} {labels : List Label}
    (finished : run host labels (World.start holding) = .ok next) : next.contract.Loose := by
  refine run_invariant (fun world => world.contract.Loose) (fun _ _ _ _ loose stepped => stepped.loose loose) ?_ finished
  exact ⟨fun _ _ found => (by cases found), fun _ found => (by cases found)⟩

end EosEvm

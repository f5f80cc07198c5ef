import EosEvm.Dust

/-! The words of the dust operators. The exact operators take the same steps with every
word checked for wrapping, the borrow of dust apart; what the operators compute, the
exact ones compute too. -/

namespace EosEvm

open Abort Words

def exactU64 (number : Int) : Outcome Nat := do
  check (0 ≤ number ∧ number < 2 ^ 64) "unsigned word wraps"
  return number.toNat

def exactI64 (number : Int) : Outcome Int := do
  check (-2 ^ 63 ≤ number ∧ number < 2 ^ 63) "signed word wraps"
  return number

theorem exactU64_natCast {number : Nat} (small : number < 2 ^ 64) : exactU64 number = .ok number := by
  simp only [exactU64, bind_ok, check_ok, exists_const, pure_ok, Int.toNat_natCast, and_true]
  omega

theorem exactI64_of_range {number : Int} (low : -2 ^ 63 ≤ number) (high : number < 2 ^ 63) :
    exactI64 number = .ok number := by
  simp only [exactI64, bind_ok, check_ok, exists_const, pure_ok, and_true]
  exact ⟨low, high⟩

/-- `pow10_const` without wrapping. -/
def exactPow10 : Nat → Outcome Nat
  | 0 => .ok 1
  | exponent + 1 => do
      let power ← exactPow10 exponent
      exactU64 (power * 10 : Nat)

theorem exactPow10_eq (exponent : Nat) (small : exponent ≤ 18) : exactPow10 exponent = .ok (10 ^ exponent) := by
  induction exponent with
  | zero => rfl
  | succ exponent ih =>
      have power : 10 ^ exponent ≤ 10 ^ 17 := Nat.pow_le_pow_right (by decide) (by omega)
      rw [exactPow10, ih (by omega), ok_bind, exactU64_natCast (by omega), Nat.pow_succ]

namespace BalanceWithDust

/-- `operator+=` without wrapping. -/
def addExact (row : BalanceWithDust) (amount : Nat) : Outcome BalanceWithDust := do
  check (row.balance.symbol ≠ Symbol.none) "symbol can't be empty in balance_with_dust"
  check (row.balance.symbol.precision ≤ evmPrecision) "invalid exponent"
  let unit ← exactPow10 (evmPrecision - row.balance.symbol.precision)
  let minAsset ← exactU64 unit
  check (((amount / unit : Nat) : Int) ≤ maxAmount) "accumulation overflow"
  check (row.balance.amount ≤ maxAmount) "accumulation overflow"
  let quot ← exactU64 (amount / unit : Nat)
  let baseAmount ← exactI64 quot
  let sum ← exactI64 (row.balance.amount + baseAmount)
  let rem ← exactU64 (amount % unit : Nat)
  let dust ← exactU64 (row.dust + rem : Nat)
  if minAsset ≤ dust then do
    let carried ← exactI64 (sum + 1)
    let rest ← exactU64 ((dust : Int) - minAsset)
    check (carried ≤ maxAmount) "accumulation overflow"
    return { balance := { row.balance with amount := carried }, dust := rest }
  else do
    check (sum ≤ maxAmount) "accumulation overflow"
    return { balance := { row.balance with amount := sum }, dust := dust }

/-- `operator-=` without wrapping, but for the borrow of dust. -/
def subExact (row : BalanceWithDust) (amount : Nat) : Outcome BalanceWithDust := do
  check (row.balance.symbol ≠ Symbol.none) "symbol can't be empty in balance_with_dust"
  check (row.balance.symbol.precision ≤ evmPrecision) "invalid exponent"
  let unit ← exactPow10 (evmPrecision - row.balance.symbol.precision)
  let minAsset ← exactU64 unit
  let available ← exactU64 row.balance.amount
  check (amount / unit ≤ available) "decrementing more than available"
  let quot ← exactU64 (amount / unit : Nat)
  let difference ← exactI64 (row.balance.amount - quot)
  let rem ← exactU64 (amount % unit : Nat)
  if sub64 row.dust rem / 2 ^ 63 % 2 = 1 then do
    let borrowed ← exactI64 (difference - 1)
    check (0 ≤ borrowed) "decrementing more than available"
    -- the subtraction of the remainder wraps below zero, the addition of a unit wraps back
    let rest ← exactU64 ((row.dust : Int) - rem + minAsset)
    return { balance := { row.balance with amount := borrowed }, dust := rest }
  else do
    let rest ← exactU64 ((row.dust : Int) - rem)
    return { balance := { row.balance with amount := difference }, dust := rest }

theorem exactPow10_unit (symbol : Symbol) : exactPow10 (evmPrecision - symbol.precision) = .ok symbol.unit :=
  exactPow10_eq _ (by simp [evmPrecision])

theorem addExact_of_ok {row result : BalanceWithDust} (normal : row.Normal) {amount : Nat}
    (added : row.add amount = .ok result) : row.addExact amount = .ok result := by
  obtain ⟨fits, rfl⟩ := (add_ok normal amount result).mp added
  obtain ⟨⟨stored, symbol⟩, dust⟩ := row
  obtain ⟨named, precise, nonneg, bounded, dusty⟩ := normal
  simp only at named precise nonneg bounded dusty
  obtain ⟨units, rfl⟩ := Int.eq_ofNat_of_zero_le nonneg
  have unitBound := symbol.unit_le
  have remBound : amount % symbol.unit < symbol.unit := Nat.mod_lt _ symbol.unit_pos
  have split := carry_split symbol.unit units dust (amount / symbol.unit) (amount % symbol.unit) dusty remBound
  rw [Nat.div_add_mod] at split
  simp only [value, ofValue, Int.toNat_natCast, split.1, split.2] at fits ⊢
  clear split
  rw [addExact, (check_ok _ _ ()).mpr named, ok_bind, (check_ok _ _ ()).mpr precise, ok_bind, exactPow10_unit, ok_bind]
  dsimp only
  generalize amount / symbol.unit = quot at *
  generalize amount % symbol.unit = rem at *
  unfold maxAmount at *
  have quotBound : (quot : Int) ≤ 2 ^ 62 - 1 := by split at fits <;> omega
  rw [exactU64_natCast (show symbol.unit < 2 ^ 64 by omega), ok_bind, (check_ok _ _ ()).mpr quotBound, ok_bind,
    (check_ok _ _ ()).mpr bounded, ok_bind, exactU64_natCast (show quot < 2 ^ 64 by omega), ok_bind,
    exactI64_of_range (by omega) (by omega), ok_bind,
    exactI64_of_range (by omega) (by omega), ok_bind, exactU64_natCast (show rem < 2 ^ 64 by omega), ok_bind,
    exactU64_natCast (show dust + rem < 2 ^ 64 by omega), ok_bind]
  by_cases carry : symbol.unit ≤ dust + rem
  · simp only [carry, ↓reduceIte] at fits ⊢
    rw [exactI64_of_range (by omega) (by omega), ok_bind,
      show ((dust + rem : Nat) : Int) - symbol.unit = (dust + rem - symbol.unit : Nat) by omega,
      exactU64_natCast (by omega), ok_bind, (check_ok _ _ ()).mpr (by omega), ok_bind]
    push_cast
    rfl
  · simp only [carry, ↓reduceIte] at fits ⊢
    rw [(check_ok _ _ ()).mpr (by omega), ok_bind]
    push_cast
    rfl

theorem subExact_of_ok {row result : BalanceWithDust} (normal : row.Normal) {amount : Nat}
    (taken : row.sub amount = .ok result) : row.subExact amount = .ok result := by
  obtain ⟨enough, rfl⟩ := (sub_ok normal amount result).mp taken
  obtain ⟨⟨stored, symbol⟩, dust⟩ := row
  obtain ⟨named, precise, nonneg, bounded, dusty⟩ := normal
  simp only at named precise nonneg bounded dusty
  obtain ⟨units, rfl⟩ := Int.eq_ofNat_of_zero_le nonneg
  have unitBound := symbol.unit_le
  have remBound : amount % symbol.unit < symbol.unit := Nat.mod_lt _ symbol.unit_pos
  have whole := Nat.div_add_mod amount symbol.unit
  rw [subExact, (check_ok _ _ ()).mpr named, ok_bind, (check_ok _ _ ()).mpr precise, ok_bind, exactPow10_unit, ok_bind]
  dsimp only
  simp only [value, ofValue, Int.toNat_natCast] at enough ⊢
  generalize amount / symbol.unit = quot at *
  generalize amount % symbol.unit = rem at *
  subst whole
  obtain ⟨quotBound, strict, units', dust'⟩ := borrow_split symbol.unit units dust quot rem dusty remBound enough
  rw [units', dust']
  unfold maxAmount at bounded
  rw [exactU64_natCast (show symbol.unit < 2 ^ 64 by omega), ok_bind, exactU64_natCast (show units < 2 ^ 64 by omega),
    ok_bind, (check_ok _ _ ()).mpr quotBound, ok_bind, exactU64_natCast (show quot < 2 ^ 64 by omega), ok_bind,
    exactI64_of_range (by omega) (by omega), ok_bind, exactU64_natCast (show rem < 2 ^ 64 by omega), ok_bind]
  by_cases less : dust < rem
  · have positive := strict less
    have wrapped : sub64 dust rem = dust + 2 ^ 64 - rem := sub64_of_lt (by omega) less
    rw [if_pos (by rw [wrapped]; omega), exactI64_of_range (by omega) (by omega), ok_bind,
      (check_ok _ _ ()).mpr (by omega), ok_bind,
      show (dust : Int) - rem + symbol.unit = (dust + symbol.unit - rem : Nat) by omega,
      exactU64_natCast (by omega), ok_bind]
    simp only [less, ↓reduceIte, pure_ok, BalanceWithDust.mk.injEq, Asset.mk.injEq, and_true]
    omega
  · have plain : sub64 dust rem = dust - rem := sub64_of_le (by omega) (by omega)
    rw [if_neg (by rw [plain]; omega), show (dust : Int) - rem = (dust - rem : Nat) by omega,
      exactU64_natCast (by omega), ok_bind]
    simp only [less, ↓reduceIte, pure_ok, BalanceWithDust.mk.injEq, Asset.mk.injEq, and_true]
    omega

/-- For a normal balance, and so for a symbol that is not empty: adding aborts exactly when the
sum does not fit and subtracting exactly when the balance does not cover the amount. Otherwise
the result is the normal balance of the sum or difference, and the words of the operator do
not wrap, but for the borrow of dust. -/
theorem add_sub_exact (row : BalanceWithDust) (normal : row.Normal) (amount : Nat) :
    ((row.add amount).isOk = false ↔
        maxAmount < (((row.value + amount) / row.balance.symbol.unit : Nat) : Int)) ∧
      (∀ result, row.add amount = .ok result →
        result.Normal ∧ result.balance.symbol = row.balance.symbol ∧ result.value = row.value + amount ∧
          row.addExact amount = .ok result) ∧
      ((row.sub amount).isOk = false ↔ row.value < amount) ∧
      (∀ result, row.sub amount = .ok result →
        result.Normal ∧ result.balance.symbol = row.balance.symbol ∧ result.value = row.value - amount ∧
          row.subExact amount = .ok result) := by
  refine ⟨?_, ?_, ?_, ?_⟩
  · rw [isOk_eq_false, ← not_le]
    simp only [ne_eq, add_ok normal, not_and]
    exact ⟨fun fails fits => fails _ fits rfl, fun large _ fits => absurd fits large⟩
  · intro result added
    obtain ⟨normal', symbol, value⟩ := add_spec normal added
    exact ⟨normal', symbol, value, addExact_of_ok normal added⟩
  · rw [isOk_eq_false, ← not_le]
    simp only [ne_eq, sub_ok normal, not_and]
    exact ⟨fun fails enough => fails _ enough rfl, fun large _ enough => absurd enough large⟩
  · intro result taken
    obtain ⟨normal', symbol, value⟩ := sub_spec normal taken
    exact ⟨normal', symbol, by omega, subExact_of_ok normal taken⟩

/-- With the empty symbol, whose precision is zero, both operators always abort, also where the
value after them would be within bounds. -/
theorem add_sub_emptySymbol :
    (∀ (amount : Int) (dust x : Nat), let row : BalanceWithDust := { balance := ⟨amount, Symbol.none⟩, dust := dust }
      row.add x = .error "symbol can't be empty in balance_with_dust" ∧
        row.sub x = .error "symbol can't be empty in balance_with_dust") ∧
    let row : BalanceWithDust := { balance := ⟨1, Symbol.none⟩ }
    row.balance.symbol.precision ≤ evmPrecision ∧ 0 ≤ row.balance.amount ∧ row.balance.amount ≤ maxAmount ∧
      row.dust < row.balance.symbol.unit ∧
      ¬ maxAmount < (((row.value + 0) / row.balance.symbol.unit : Nat) : Int) ∧ ¬ row.value < 0 :=
  ⟨fun _ _ _ => ⟨rfl, rfl⟩, by decide⟩

theorem add_sub_exact_borrow :
    let row : BalanceWithDust := { balance := ⟨1, ⟨0x534f4504⟩⟩ }
    row.subExact 90000000000000 = .ok { balance := ⟨0, ⟨0x534f4504⟩⟩, dust := 10000000000000 } :=
  ((add_sub_exact _ ⟨by decide, by decide, by decide, by decide, by decide⟩ 90000000000000).2.2.2
    { balance := ⟨0, ⟨0x534f4504⟩⟩, dust := 10000000000000 } (by decide)).2.2.2

end BalanceWithDust

end EosEvm

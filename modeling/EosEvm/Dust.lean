import Mathlib.Tactic.Ring
import Mathlib.Tactic.Linarith
import EosEvm.DustCore

/-! The dust operators compute exactly. A normal balance is determined by its
value in the smallest EVM unit, and each operator either aborts or produces the
normal balance of the sum or difference. -/

namespace EosEvm

open Abort Words

/-- EVM units in one natively representable unit of the symbol. -/
def Symbol.unit (symbol : Symbol) : Nat := 10 ^ (evmPrecision - symbol.precision)

theorem Symbol.unit_pos (symbol : Symbol) : 0 < symbol.unit := Nat.pow_pos (by decide)

theorem Symbol.unit_le (symbol : Symbol) : symbol.unit ≤ 10 ^ 18 :=
  Nat.pow_le_pow_right (by decide) (by simp [evmPrecision])

theorem pow10Loop_eq (exponent : Nat) (small : exponent ≤ 18) : pow10Loop exponent = 10 ^ exponent := by
  induction exponent with
  | zero => rfl
  | succ exponent ih =>
      have bound : 10 ^ exponent * 10 < 2 ^ 64 := by
        have power : 10 ^ exponent ≤ 10 ^ 17 := Nat.pow_le_pow_right (by decide) (by omega)
        omega
      simp only [pow10Loop, ih (by omega), u64_of_lt bound, Nat.pow_succ]

theorem pow10Const_precision (symbol : Symbol) (small : symbol.precision ≤ evmPrecision) :
    pow10Const ((evmPrecision : Int) - symbol.precision) = .ok symbol.unit := by
  have exponent : ((evmPrecision : Int) - symbol.precision).toNat = evmPrecision - symbol.precision := by
    omega
  have nonneg : (0 : Int) ≤ (evmPrecision : Int) - symbol.precision := by omega
  simp only [pow10Const, bind_ok, check_ok, pure_ok, exists_const, exponent, Symbol.unit]
  exact ⟨nonneg, pow10Loop_eq _ (by simp [evmPrecision])⟩

namespace BalanceWithDust

/-- The value in the smallest EVM unit. -/
def value (row : BalanceWithDust) : Nat :=
  row.balance.amount.toNat * row.balance.symbol.unit + row.dust

/-- Amount in range and dust below one unit, for a usable symbol. -/
structure Normal (row : BalanceWithDust) : Prop where
  named : row.balance.symbol ≠ Symbol.none
  precise : row.balance.symbol.precision ≤ evmPrecision
  nonneg : 0 ≤ row.balance.amount
  bounded : row.balance.amount ≤ maxAmount
  dusty : row.dust < row.balance.symbol.unit

def ofValue (symbol : Symbol) (value : Nat) : BalanceWithDust :=
  { balance := ⟨(value / symbol.unit : Nat), symbol⟩, dust := value % symbol.unit }

@[simp] theorem ofValue_symbol (symbol : Symbol) (value : Nat) :
    (ofValue symbol value).balance.symbol = symbol := rfl

@[simp] theorem value_ofValue (symbol : Symbol) (amount : Nat) : (ofValue symbol amount).value = amount := by
  simp only [value, ofValue, Int.toNat_natCast]
  rw [Nat.mul_comm]
  exact Nat.div_add_mod amount symbol.unit

theorem ofValue_normal (symbol : Symbol) (amount : Nat) (named : symbol ≠ Symbol.none)
    (precise : symbol.precision ≤ evmPrecision) (bounded : ((amount / symbol.unit : Nat) : Int) ≤ maxAmount) :
    (ofValue symbol amount).Normal :=
  ⟨named, precise, Int.natCast_nonneg _, bounded, Nat.mod_lt _ symbol.unit_pos⟩

theorem Normal.eq_ofValue {row : BalanceWithDust} (normal : row.Normal) :
    row = ofValue row.balance.symbol row.value := by
  obtain ⟨⟨amount, symbol⟩, dust⟩ := row
  have nonneg := normal.nonneg
  have dusty := normal.dusty
  simp only at nonneg dusty
  obtain ⟨units, rfl⟩ := Int.eq_ofNat_of_zero_le nonneg
  have split := (Nat.div_mod_unique (b := symbol.unit) (a := units * symbol.unit + dust)
    (d := units) (c := dust) symbol.unit_pos).mpr ⟨by ring, dusty⟩
  simp only [ofValue, value, Int.toNat_natCast, split.1, split.2]

theorem Normal.value_div {row : BalanceWithDust} (normal : row.Normal) :
    ((row.value / row.balance.symbol.unit : Nat) : Int) = row.balance.amount := by
  have same := congrArg (fun other => other.balance.amount) normal.eq_ofValue
  exact same.symm

theorem Normal.value_lt {row : BalanceWithDust} (normal : row.Normal) :
    row.value < 2 ^ 62 * row.balance.symbol.unit := by
  have bounded := normal.bounded
  have dusty := normal.dusty
  have nonneg := normal.nonneg
  unfold maxAmount at bounded
  have units : row.balance.amount.toNat + 1 ≤ 2 ^ 62 := by omega
  calc row.value < row.balance.amount.toNat * row.balance.symbol.unit + row.balance.symbol.unit := by
        unfold value; omega
    _ = (row.balance.amount.toNat + 1) * row.balance.symbol.unit := by ring
    _ ≤ 2 ^ 62 * row.balance.symbol.unit := Nat.mul_le_mul_right _ units

theorem Normal.value_small {row : BalanceWithDust} (normal : row.Normal) : row.value < 2 ^ 122 := by
  have bound := normal.value_lt
  have unit := row.balance.symbol.unit_le
  have product : 2 ^ 62 * row.balance.symbol.unit ≤ 2 ^ 62 * 10 ^ 18 := Nat.mul_le_mul_left _ unit
  omega

theorem zero_normal (symbol : Symbol) (named : symbol ≠ Symbol.none)
    (precise : symbol.precision ≤ evmPrecision) :
    (⟨⟨0, symbol⟩, 0⟩ : BalanceWithDust).Normal :=
  ⟨named, precise, Int.le_refl 0, by simp [maxAmount], symbol.unit_pos⟩

theorem carry_split (unit units dust quot rem : Nat) (dusty : dust < unit) (remBound : rem < unit) :
    (units * unit + dust + (unit * quot + rem)) / unit = units + quot + (if unit ≤ dust + rem then 1 else 0) ∧
      (units * unit + dust + (unit * quot + rem)) % unit =
        if unit ≤ dust + rem then dust + rem - unit else dust + rem := by
  apply (Nat.div_mod_unique (by omega)).mpr
  split
  · have whole : unit * (units + quot + 1) = units * unit + unit * quot + unit := by ring
    omega
  · have whole : unit * (units + quot + 0) = units * unit + unit * quot := by ring
    omega

theorem borrow_split (unit units dust quot rem : Nat) (dusty : dust < unit) (remBound : rem < unit)
    (enough : unit * quot + rem ≤ units * unit + dust) :
    quot ≤ units ∧ (dust < rem → quot < units) ∧
      (units * unit + dust - (unit * quot + rem)) / unit = units - quot - (if dust < rem then 1 else 0) ∧
      (units * unit + dust - (unit * quot + rem)) % unit =
        if dust < rem then dust + unit - rem else dust - rem := by
  have quotBound : quot ≤ units := by
    by_contra larger
    have more : (units + 1) * unit ≤ quot * unit := Nat.mul_le_mul_right unit (by omega)
    have expand : (units + 1) * unit = units * unit + unit := by ring
    have swap : quot * unit = unit * quot := Nat.mul_comm _ _
    omega
  have strict : dust < rem → quot < units := by
    intro less
    by_contra notLess
    have same : quot = units := by omega
    subst same
    have swap : quot * unit = unit * quot := Nat.mul_comm _ _
    omega
  refine ⟨quotBound, strict, ?_⟩
  apply (Nat.div_mod_unique (by omega)).mpr
  obtain ⟨extra, rfl⟩ := Nat.exists_eq_add_of_le quotBound
  split
  · rename_i less
    have positive : 0 < extra := by
      have := strict less
      omega
    obtain ⟨fewer, rfl⟩ : ∃ fewer, extra = fewer + 1 := ⟨extra - 1, by omega⟩
    have whole : unit * (quot + (fewer + 1) - quot - 1) = unit * fewer := by congr 1; omega
    have expand : (quot + (fewer + 1)) * unit = unit * quot + unit * fewer + unit := by ring
    omega
  · have whole : unit * (quot + extra - quot - 0) = unit * extra := by congr 1; omega
    have expand : (quot + extra) * unit = unit * quot + unit * extra := by ring
    omega

theorem add_ok {row : BalanceWithDust} (normal : row.Normal) (amount : Nat) (result : BalanceWithDust) :
    row.add amount = .ok result ↔
      (((row.value + amount) / row.balance.symbol.unit : Nat) : Int) ≤ maxAmount ∧
        result = ofValue row.balance.symbol (row.value + amount) := by
  obtain ⟨⟨stored, symbol⟩, dust⟩ := row
  obtain ⟨named, precise, nonneg, bounded, dusty⟩ := normal
  simp only at named precise nonneg bounded dusty
  obtain ⟨units, rfl⟩ := Int.eq_ofNat_of_zero_le nonneg
  have unitBound := symbol.unit_le
  have remBound : amount % symbol.unit < symbol.unit := Nat.mod_lt _ symbol.unit_pos
  have split := carry_split symbol.unit units dust (amount / symbol.unit) (amount % symbol.unit) dusty remBound
  rw [Nat.div_add_mod] at split
  simp only [add, bind_ok, check_ok, pure_ok, exists_const, pow10Const_precision symbol precise,
    Except.ok.injEq, exists_eq_left', value, ofValue, Int.toNat_natCast, split.1, split.2]
  clear split
  generalize amount / symbol.unit = quot at *
  generalize amount % symbol.unit = rem at *
  rw [u64_of_lt (show symbol.unit < 2 ^ 64 by omega), u64_of_lt (show rem < 2 ^ 64 by omega),
    u64_of_lt (show dust + rem < 2 ^ 64 by omega)]
  unfold maxAmount at bounded ⊢
  by_cases quotBound : (quot : Int) ≤ 2 ^ 62 - 1
  · rw [u64_of_lt (show quot < 2 ^ 64 by omega), i64_of_range quot (by omega) (by omega),
      i64_of_range (units + quot) (by omega) (by omega),
      i64_of_range (units + quot + 1) (by omega) (by omega)]
    by_cases carry : symbol.unit ≤ dust + rem
    · rw [sub64_of_le (by omega) carry]
      simp only [named, carry, quotBound, bounded, ↓reduceIte, ne_eq, not_false_eq_true, true_and,
        Nat.cast_add, Nat.cast_one]
      exact and_congr_right fun _ => eq_comm
    · simp only [named, carry, quotBound, bounded, ↓reduceIte, ne_eq, not_false_eq_true, true_and,
        Nat.cast_add, Nat.add_zero]
      exact and_congr_right fun _ => eq_comm
  · constructor
    · rintro ⟨_, fits, _⟩
      exact absurd fits quotBound
    · rintro ⟨fits, _⟩
      exact absurd fits (by split <;> omega)

theorem sub_ok {row : BalanceWithDust} (normal : row.Normal) (amount : Nat) (result : BalanceWithDust) :
    row.sub amount = .ok result ↔
      amount ≤ row.value ∧ result = ofValue row.balance.symbol (row.value - amount) := by
  obtain ⟨⟨stored, symbol⟩, dust⟩ := row
  obtain ⟨named, precise, nonneg, bounded, dusty⟩ := normal
  simp only at named precise nonneg bounded dusty
  obtain ⟨units, rfl⟩ := Int.eq_ofNat_of_zero_le nonneg
  unfold maxAmount at bounded
  have unitBound := symbol.unit_le
  have remBound : amount % symbol.unit < symbol.unit := Nat.mod_lt _ symbol.unit_pos
  have available : unsigned (units : Int) = units := by
    rw [unsigned_of_nonneg nonneg (by omega), Int.toNat_natCast]
  have whole := Nat.div_add_mod amount symbol.unit
  simp only [sub, bind_ok, check_ok, exists_const, pow10Const_precision symbol precise,
    Except.ok.injEq, exists_eq_left', value, ofValue, Int.toNat_natCast, available]
  generalize amount / symbol.unit = quot at *
  generalize amount % symbol.unit = rem at *
  subst whole
  rw [u64_of_lt (show symbol.unit < 2 ^ 64 by omega), u64_of_lt (show rem < 2 ^ 64 by omega)]
  have enough_of : quot ≤ units → (dust < rem → quot < units) →
      symbol.unit * quot + rem ≤ units * symbol.unit + dust := by
    intro quotBound strict
    obtain ⟨extra, rfl⟩ := Nat.exists_eq_add_of_le quotBound
    have expand : (quot + extra) * symbol.unit = symbol.unit * quot + extra * symbol.unit := by ring
    by_cases less : dust < rem
    · have more : 1 * symbol.unit ≤ extra * symbol.unit :=
        Nat.mul_le_mul_right _ (by have := strict less; omega)
      omega
    · omega
  constructor
  · rintro ⟨_, quotBound, taken⟩
    rw [u64_of_lt (show quot < 2 ^ 64 by omega), i64_of_range quot (by omega) (by omega),
      i64_of_range (units - quot) (by omega) (by omega),
      i64_of_range (units - quot - 1) (by omega) (by omega)] at taken
    by_cases less : dust < rem
    · have wrapped : sub64 dust rem = dust + 2 ^ 64 - rem := sub64_of_lt (by omega) less
      have signBit : (dust + 2 ^ 64 - rem) / 2 ^ 63 % 2 = 1 := by omega
      have rest : u64 (dust + 2 ^ 64 - rem + symbol.unit) = dust + symbol.unit - rem := by
        unfold u64
        omega
      simp only [wrapped, signBit, ↓reduceIte, bind_ok, check_ok, pure_ok, exists_const, rest] at taken
      obtain ⟨positive, same⟩ := taken
      have enough := enough_of quotBound (fun _ => by omega)
      have split := borrow_split symbol.unit units dust quot rem dusty remBound enough
      refine ⟨enough, ?_⟩
      rw [split.2.2.1, split.2.2.2, ← same]
      simp only [less, ↓reduceIte, BalanceWithDust.mk.injEq, Asset.mk.injEq, and_true]
      omega
    · have plain : sub64 dust rem = dust - rem := sub64_of_le (by omega) (by omega)
      have signBit : ¬ (dust - rem) / 2 ^ 63 % 2 = 1 := by omega
      simp only [plain, signBit, ↓reduceIte, pure_ok] at taken
      have enough := enough_of quotBound (fun impossible => absurd impossible less)
      have split := borrow_split symbol.unit units dust quot rem dusty remBound enough
      refine ⟨enough, ?_⟩
      rw [split.2.2.1, split.2.2.2, ← taken]
      simp only [less, ↓reduceIte, BalanceWithDust.mk.injEq, Asset.mk.injEq, and_true]
      omega
  · rintro ⟨enough, same⟩
    have split := borrow_split symbol.unit units dust quot rem dusty remBound enough
    have quotBound := split.1
    refine ⟨named, quotBound, ?_⟩
    rw [u64_of_lt (show quot < 2 ^ 64 by omega), i64_of_range quot (by omega) (by omega),
      i64_of_range (units - quot) (by omega) (by omega),
      i64_of_range (units - quot - 1) (by omega) (by omega), same, split.2.2.1, split.2.2.2]
    by_cases less : dust < rem
    · have strict := split.2.1 less
      have wrapped : sub64 dust rem = dust + 2 ^ 64 - rem := sub64_of_lt (by omega) less
      have signBit : (dust + 2 ^ 64 - rem) / 2 ^ 63 % 2 = 1 := by omega
      have rest : u64 (dust + 2 ^ 64 - rem + symbol.unit) = dust + symbol.unit - rem := by
        unfold u64
        omega
      simp only [wrapped, signBit, less, ↓reduceIte, bind_ok, check_ok, pure_ok, exists_const, rest,
        BalanceWithDust.mk.injEq, Asset.mk.injEq, and_true]
      omega
    · have plain : sub64 dust rem = dust - rem := sub64_of_le (by omega) (by omega)
      have signBit : ¬ (dust - rem) / 2 ^ 63 % 2 = 1 := by omega
      simp only [plain, signBit, less, ↓reduceIte, pure_ok, BalanceWithDust.mk.injEq, Asset.mk.injEq, and_true]
      omega

theorem add_spec {row result : BalanceWithDust} (normal : row.Normal) {amount : Nat}
    (added : row.add amount = .ok result) :
    result.Normal ∧ result.balance.symbol = row.balance.symbol ∧ result.value = row.value + amount := by
  obtain ⟨fits, rfl⟩ := (add_ok normal amount result).mp added
  exact ⟨ofValue_normal _ _ normal.named normal.precise fits, rfl, value_ofValue _ _⟩

theorem sub_spec {row result : BalanceWithDust} (normal : row.Normal) {amount : Nat}
    (taken : row.sub amount = .ok result) :
    result.Normal ∧ result.balance.symbol = row.balance.symbol ∧ result.value + amount = row.value := by
  obtain ⟨enough, rfl⟩ := (sub_ok normal amount result).mp taken
  refine ⟨ofValue_normal _ _ normal.named normal.precise ?_, rfl, ?_⟩
  · have smaller : (row.value - amount) / row.balance.symbol.unit ≤ row.value / row.balance.symbol.unit :=
      Nat.div_le_div_right (Nat.sub_le _ _)
    have whole := normal.value_div
    have bounded := normal.bounded
    omega
  · rw [value_ofValue]
    omega

end BalanceWithDust

end EosEvm

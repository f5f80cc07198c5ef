import EosEvm.Types

/-! `balance_with_dust`: a token amount and the part of it below the smallest
natively representable quantity. The operators work on machine words. -/

namespace EosEvm

open Abort Words

def pow10Loop : Nat → Nat
  | 0 => 1
  | exponent + 1 => u64 (pow10Loop exponent * 10)

/-- `pow10_const`. -/
def pow10Const (exponent : Int) : Outcome Nat := do
  check (0 ≤ exponent) "invalid exponent"
  return pow10Loop exponent.toNat

structure BalanceWithDust where
  balance : Asset
  dust : Nat := 0
  deriving DecidableEq, Repr

namespace BalanceWithDust

def withSymbol (row : BalanceWithDust) (symbol : Symbol) : BalanceWithDust :=
  { row with balance := { row.balance with symbol := symbol } }

def isZero (row : BalanceWithDust) : Bool := row.dust == 0 && row.balance.amount == 0

/-- `balance_with_dust::operator+=`. -/
def add (row : BalanceWithDust) (amount : Nat) : Outcome BalanceWithDust := do
  check (row.balance.symbol ≠ Symbol.none) "symbol can't be empty in balance_with_dust"
  let unit ← pow10Const ((evmPrecision : Int) - row.balance.symbol.precision)
  let minAsset := u64 unit
  let quot := amount / unit
  let rem := amount % unit
  check ((quot : Int) ≤ maxAmount) "accumulation overflow"
  check (row.balance.amount ≤ maxAmount) "accumulation overflow"
  let baseAmount := i64 (u64 quot)
  let sum := i64 (row.balance.amount + baseAmount)
  let dust := u64 (row.dust + u64 rem)
  -- a full unit of dust is carried into the amount
  let carried := if minAsset ≤ dust then i64 (sum + 1) else sum
  let rest := if minAsset ≤ dust then sub64 dust minAsset else dust
  check (carried ≤ maxAmount) "accumulation overflow"
  return { balance := { row.balance with amount := carried }, dust := rest }

/-- `balance_with_dust::operator-=`. -/
def sub (row : BalanceWithDust) (amount : Nat) : Outcome BalanceWithDust := do
  check (row.balance.symbol ≠ Symbol.none) "symbol can't be empty in balance_with_dust"
  let unit ← pow10Const ((evmPrecision : Int) - row.balance.symbol.precision)
  let minAsset := u64 unit
  let quot := amount / unit
  let rem := amount % unit
  check (quot ≤ unsigned row.balance.amount) "decrementing more than available"
  let difference := i64 (row.balance.amount - i64 (u64 quot))
  let dust := sub64 row.dust (u64 rem)
  -- the sign bit tells that the dust wrapped and a unit has to be borrowed
  if dust / 2 ^ 63 % 2 = 1 then
    let borrowed := i64 (difference - 1)
    check (0 ≤ borrowed) "decrementing more than available"
    return { balance := { row.balance with amount := borrowed }, dust := u64 (dust + minAsset) }
  else
    return { balance := { row.balance with amount := difference }, dust := dust }

end BalanceWithDust

end EosEvm

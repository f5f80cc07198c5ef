import Mathlib.Order.Fin.Basic
import EosEvm.Lib.Abort
import EosEvm.Lib.Words

/-! The parts of the contract development kit the contract computes with: account
names, symbols and assets, with the checks their constructors and operators make. -/

namespace EosEvm

open Abort Words

/-- A byte string, in memory order. -/
abbrev Bytes := List UInt8

/-- An account, action or table name: a 64-bit value. -/
abbrev Name := Fin (2 ^ 64)

instance instNeZeroName : NeZero (2 ^ 64 : Nat) := ⟨by decide⟩

def bytesOf (text : String) : Bytes := text.toList.map fun letter => UInt8.ofNat letter.toNat

/-- `name::char_to_value`. -/
def charToValue (letter : UInt8) : Outcome Nat :=
  let code := letter.toNat
  if code = 46 then .ok 0
  else if 49 ≤ code ∧ code ≤ 53 then .ok (code - 49 + 1)
  else if 97 ≤ code ∧ code ≤ 122 then .ok (code - 97 + 6)
  else .error "character is not in allowed character set for names"

def packLetters : Bytes → Nat → Outcome Nat
  | [], value => .ok value
  | letter :: rest, value => do
      let digit ← charToValue letter
      packLetters rest (value * 32 + digit)

/-- The constructor `name(std::string_view)`. -/
def nameOf (text : Bytes) : Outcome Name := do
  check (text.length ≤ 13) "string is too long to be a valid name"
  let letters := text.take 12
  let value ← packLetters letters 0
  let shifted := value * 2 ^ (4 + 5 * (12 - letters.length))
  match text[12]? with
  | none => return Fin.ofNat (2 ^ 64) shifted
  | some letter => do
      let last ← charToValue letter
      check (last ≤ 15) "thirteenth character in name cannot be a letter that comes after j"
      return Fin.ofNat (2 ^ 64) (shifted + last)

def digitToChar (digit : Nat) : UInt8 :=
  (bytesOf ".12345abcdefghijklmnopqrstuvwxyz").getD digit 0

def unpackLetters : Nat → Nat → Bytes
  | 0, _ => []
  | remaining + 1, value =>
      if value = 0 then []
      else
        let shift := if remaining = 0 then 60 else 59
        digitToChar (value / 2 ^ shift) :: unpackLetters remaining (u64 (value * 32))

/-- `name::to_string`. -/
def nameToBytes (name : Name) : Bytes := unpackLetters 13 name.val

/-- A token symbol: the precision is the low byte, the code the bytes above it. -/
structure Symbol where
  raw : Nat
  deriving DecidableEq, Repr

namespace Symbol

def none : Symbol := ⟨0⟩

def precision (symbol : Symbol) : Nat := symbol.raw % 256

def code (symbol : Symbol) : Nat := symbol.raw / 256

def letters (symbol : Symbol) : List Nat :=
  (List.range 7).map fun index => symbol.code / 256 ^ index % 256

def lettersValid : List Nat → Bool
  | [] => true
  | letter :: rest => decide (65 ≤ letter ∧ letter ≤ 90) && (rest.all (· == 0) || lettersValid rest)

/-- `symbol::is_valid`: a non-empty code of capital letters. -/
def isValid (symbol : Symbol) : Bool := lettersValid symbol.letters

end Symbol

theorem Symbol.ne_none_of_isValid {symbol : Symbol} (valid : symbol.isValid = true) :
    symbol ≠ Symbol.none := by
  rintro rfl
  exact absurd valid (by decide)

/-- A quantity of a token. -/
structure Asset where
  amount : Int
  symbol : Symbol
  deriving DecidableEq, Repr

/-- `asset::max_amount`. -/
def maxAmount : Int := 2 ^ 62 - 1

namespace Asset

/-- The constructor `asset(amount, symbol)`. -/
def make (amount : Int) (symbol : Symbol) : Outcome Asset := do
  check (-maxAmount ≤ amount ∧ amount ≤ maxAmount) "magnitude of asset amount must be less than 2^62"
  check (symbol.isValid = true) "invalid symbol name"
  return ⟨amount, symbol⟩

/-- `asset::operator+=`. -/
def add (left right : Asset) : Outcome Asset := do
  check (right.symbol = left.symbol) "attempt to add asset with different symbol"
  check (-maxAmount ≤ left.amount + right.amount) "addition underflow"
  check (left.amount + right.amount ≤ maxAmount) "addition overflow"
  return { left with amount := left.amount + right.amount }

/-- `asset::operator-=`. -/
def sub (left right : Asset) : Outcome Asset := do
  check (right.symbol = left.symbol) "attempt to subtract asset with different symbol"
  check (-maxAmount ≤ left.amount - right.amount) "subtraction underflow"
  check (left.amount - right.amount ≤ maxAmount) "subtraction overflow"
  return { left with amount := left.amount - right.amount }

theorem make_ok (amount : Int) (symbol : Symbol) (asset : Asset) :
    make amount symbol = .ok asset ↔
      (-maxAmount ≤ amount ∧ amount ≤ maxAmount) ∧ symbol.isValid = true ∧ ⟨amount, symbol⟩ = asset := by
  simp only [make, bind_ok, check_ok, pure_ok, exists_const]

theorem add_ok (left right result : Asset) :
    left.add right = .ok result ↔ right.symbol = left.symbol ∧
      -maxAmount ≤ left.amount + right.amount ∧ left.amount + right.amount ≤ maxAmount ∧
      { left with amount := left.amount + right.amount } = result := by
  simp only [add, bind_ok, check_ok, pure_ok, exists_const]

theorem sub_ok (left right result : Asset) :
    left.sub right = .ok result ↔ right.symbol = left.symbol ∧
      -maxAmount ≤ left.amount - right.amount ∧ left.amount - right.amount ≤ maxAmount ∧
      { left with amount := left.amount - right.amount } = result := by
  simp only [sub, bind_ok, check_ok, pure_ok, exists_const]

end Asset

end EosEvm

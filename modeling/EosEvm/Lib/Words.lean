import Mathlib.Algebra.Order.Ring.Nat
import Mathlib.Tactic.NormNum

/-! Machine words as numbers. Unsigned words are naturals reduced modulo a power
of two; a signed 64-bit word is the representative of its class in
`[-2^63, 2^63)`. -/

namespace Words

def u32 (number : Nat) : Nat := number % 2 ^ 32

def u64 (number : Nat) : Nat := number % 2 ^ 64

def u256 (number : Nat) : Nat := number % 2 ^ 256

def max256 : Nat := 2 ^ 256 - 1

def sub64 (left right : Nat) : Nat := (left + 2 ^ 64 - right % 2 ^ 64) % 2 ^ 64

def sub256 (left right : Nat) : Nat := (left + 2 ^ 256 - right % 2 ^ 256) % 2 ^ 256

def i64 (number : Int) : Int := Int.bmod number (2 ^ 64)

def unsigned (number : Int) : Nat := (number % 2 ^ 64).toNat

theorem u32_of_lt {number : Nat} (small : number < 2 ^ 32) : u32 number = number :=
  Nat.mod_eq_of_lt small

theorem u64_of_lt {number : Nat} (small : number < 2 ^ 64) : u64 number = number :=
  Nat.mod_eq_of_lt small

theorem u256_of_lt {number : Nat} (small : number < 2 ^ 256) : u256 number = number :=
  Nat.mod_eq_of_lt small

theorem u64_lt (number : Nat) : u64 number < 2 ^ 64 := Nat.mod_lt _ (by norm_num)

theorem u256_lt (number : Nat) : u256 number < 2 ^ 256 := Nat.mod_lt _ (by norm_num)

theorem u256_add_left (left right : Nat) : u256 (u256 left + right) = u256 (left + right) := by
  simp [u256]

theorem i64_of_range (number : Int) (low : -2 ^ 63 ≤ number) (high : number < 2 ^ 63) :
    i64 number = number := by
  unfold i64
  rw [Int.bmod_eq_of_le_mul_two]
  · norm_num
    omega
  · norm_num
    omega

theorem sub64_of_le {left right : Nat} (bound : left < 2 ^ 64) (less : right ≤ left) :
    sub64 left right = left - right := by
  unfold sub64
  omega

theorem sub64_of_lt {left right : Nat} (bound : right < 2 ^ 64) (less : left < right) :
    sub64 left right = left + 2 ^ 64 - right := by
  unfold sub64
  omega

theorem sub256_of_le {left right : Nat} (bound : left < 2 ^ 256) (less : right ≤ left) :
    sub256 left right = left - right := by
  unfold sub256
  omega

theorem unsigned_of_nonneg {number : Int} (low : 0 ≤ number) (high : number < 2 ^ 63) :
    unsigned number = number.toNat := by
  unfold unsigned
  omega

end Words

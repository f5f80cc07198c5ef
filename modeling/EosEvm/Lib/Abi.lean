import Mathlib.Algebra.Order.Ring.Nat
import Mathlib.Data.List.Induction

/-! Byte strings in the contract ABI: big-endian words, dynamic fields made of a length and
padded bytes, and the tuple of a string, a flag and a byte string. The decoder follows the
offsets in the head. -/

namespace Abi

def number (bytes : List UInt8) : Nat := bytes.foldl (fun value byte => value * 256 + byte.toNat) 0

def digits : Nat → Nat → List UInt8
  | 0, _ => []
  | size + 1, value => digits size (value / 256) ++ [UInt8.ofNat (value % 256)]

theorem length_digits (size value : Nat) : (digits size value).length = size := by
  induction size generalizing value with
  | zero => rfl
  | succ size ih => simp [digits, ih]

theorem number_digits (size value : Nat) (small : value < 256 ^ size) : number (digits size value) = value := by
  induction size generalizing value with
  | zero =>
      have zero : value = 0 := by simpa using small
      simp [digits, number, zero]
  | succ size ih =>
      have upper : value / 256 < 256 ^ size := by
        rw [Nat.div_lt_iff_lt_mul (by omega)]
        simpa [pow_succ] using small
      have front : number (digits size (value / 256)) = value / 256 := ih (value / 256) upper
      have last : (UInt8.ofNat (value % 256)).toNat = value % 256 := by
        simp only [UInt8.toNat_ofNat']
        omega
      simp only [number] at front
      simp only [digits, number, List.foldl_append, List.foldl_cons, List.foldl_nil, front, last]
      omega

theorem number_lt (bytes : List UInt8) : number bytes < 256 ^ bytes.length := by
  induction bytes using List.reverseRecOn with
  | nil => simp [number]
  | append_singleton front last ih =>
      have digit := last.toNat_lt
      simp only [number] at ih
      simp only [number, List.foldl_append, List.foldl_cons, List.foldl_nil, List.length_append, List.length_singleton,
        pow_succ]
      omega

def padded (size : Nat) : Nat := (size + 31) / 32 * 32

theorem le_padded (size : Nat) : size ≤ padded size := by
  unfold padded
  omega

def encodeDynamic (bytes padding : List UInt8) : List UInt8 := digits 32 bytes.length ++ (bytes ++ padding)

/-- The tuple of a string, a flag and a byte string: a head with the offsets of both dynamic
fields, and the fields. -/
def encode (text : List UInt8) (flag : Bool) (data textPadding dataPadding : List UInt8) : List UInt8 :=
  digits 32 96 ++ (digits 32 flag.toNat ++ (digits 32 (96 + 32 + padded text.length) ++
    (encodeDynamic text textPadding ++ encodeDynamic data dataPadding)))

def wordAt (payload : List UInt8) (offset : Nat) : Option Nat :=
  if offset + 32 ≤ payload.length then some (number ((payload.drop offset).take 32)) else none

def dynamicAt (payload : List UInt8) (offset : Nat) : Option (List UInt8) :=
  match wordAt payload offset with
  | some size =>
      if offset + 32 + size ≤ payload.length then some ((payload.drop (offset + 32)).take size) else none
  | none => none

def flagAt (payload : List UInt8) (offset : Nat) : Option Bool :=
  match wordAt payload offset with
  | some 0 => some false
  | some 1 => some true
  | _ => none

def decode (payload : List UInt8) : Option (List UInt8 × Bool × List UInt8) := do
  let textOffset ← wordAt payload 0
  let text ← dynamicAt payload textOffset
  let flag ← flagAt payload 32
  let dataOffset ← wordAt payload 64
  let data ← dynamicAt payload dataOffset
  return (text, flag, data)

theorem wordAt_eq {payload : List UInt8} {offset : Nat} (long : offset + 32 ≤ payload.length) :
    wordAt payload offset = some (number ((payload.drop offset).take 32)) := if_pos long

theorem dynamicAt_eq {payload : List UInt8} {offset size : Nat} (found : wordAt payload offset = some size)
    (long : offset + 32 + size ≤ payload.length) :
    dynamicAt payload offset = some ((payload.drop (offset + 32)).take size) := by
  rw [dynamicAt, found]
  exact if_pos long

end Abi

import EosEvm.Types

/-! EVM block numbers and values that take effect in the EVM block after the one
in which they were written: `block_mapping.hpp` and `value_promoter.hpp`. -/

namespace EosEvm

open Abort

/-- `block_mapping::timestamp_to_evm_block_num` for one-second blocks: the floor of
the seconds since genesis, plus one. Times are in microseconds, genesis in seconds. The source
divides in double precision and returns 32 bits; block times are 32-bit counts of half seconds,
for which both are exact. -/
def timestampToEvmBlockNum (genesisTime timestamp : Nat) : Nat :=
  let seconds := timestamp / 1000000
  if seconds < genesisTime then 0 else 1 + (seconds - genesisTime)

structure PendingValue (α : Type) where
  value : α
  time : Nat
  deriving DecidableEq, Repr

def PendingValue.isActive {α : Type} (pending : PendingValue α) (genesisTime currentTime : Nat) : Bool :=
  decide (timestampToEvmBlockNum genesisTime pending.time < timestampToEvmBlockNum genesisTime currentTime)

structure ValuePromoter (α : Type) where
  cachedValue : α
  pendingValue : Option (PendingValue α) := none
  deriving DecidableEq, Repr

namespace ValuePromoter

variable {α : Type}

def isPendingActive (promoter : ValuePromoter α) (genesisTime currentTime : Nat) : Bool :=
  match promoter.pendingValue with
  | some pending => pending.isActive genesisTime currentTime
  | none => false

def getValue (promoter : ValuePromoter α) (genesisTime currentTime : Nat) : α :=
  match promoter.pendingValue with
  | some pending => if pending.isActive genesisTime currentTime then pending.value else promoter.cachedValue
  | none => promoter.cachedValue

/-- `promote_pending`. -/
def promotePending (promoter : ValuePromoter α) : ValuePromoter α :=
  match promoter.pendingValue with
  | some pending => { cachedValue := pending.value, pendingValue := none }
  | none => promoter

/-- `get_value_and_maybe_promote`: the promoter afterwards and whether it promoted.
The value returned is the cached one. -/
def maybePromote (promoter : ValuePromoter α) (genesisTime currentTime : Nat) : ValuePromoter α × Bool :=
  if promoter.isPendingActive genesisTime currentTime then (promoter.promotePending, true)
  else (promoter, false)

/-- `update`: promote what is in effect, then make the changed value pending. -/
def update (promoter : ValuePromoter α) (visitor : α → Outcome α) (genesisTime currentTime : Nat) :
    Outcome (ValuePromoter α) := do
  let promoted := (promoter.maybePromote genesisTime currentTime).1
  let value ← visitor promoted.cachedValue
  return { promoted with pendingValue := some { value := value, time := currentTime } }

end ValuePromoter

end EosEvm

import EosEvm.Lib.Index

/-! Shared rows with a reference counter. The rows of one table refer to rows of another
one, which keeps for each row a counter of its references; what a counter is ahead of
the references is its slack. -/

namespace EosEvm.Refs

open Table

variable {κ ι α β : Type} [LinearOrder κ] [LinearOrder ι]

def held (counter : β → Nat) (shared : Table ι β) (id : ι) : Nat := ((shared.get? id).map counter).getD 0

def unit (target : Option ι) (id : ι) : Nat := if target == some id then 1 else 0

def references (ref : α → Option ι) (users : Table κ α) (id : ι) : Nat :=
  users.total fun user => unit (ref user) id

def Tallies (ref : α → Option ι) (counter : β → Nat) (slack : ι → Nat) (users : Table κ α)
    (shared : Table ι β) : Prop :=
  ∀ id, references ref users id + slack id = held counter shared id

@[simp] theorem unit_none (id : ι) : unit none id = 0 := rfl

theorem unit_self (id : ι) : unit (some id) id = 1 := by simp [unit]

variable {ref : α → Option ι} {counter : β → Nat} {slack : ι → Nat} {users : Table κ α} {shared after : Table ι β}
  {key : κ} {user : α}

theorem held_of_get? {id : ι} {row : β} (found : shared.get? id = some row) :
    held counter shared id = counter row := by
  simp [held, found]

theorem references_put (ref : α → Option ι) (absent : users.get? key = none) (id : ι) :
    references ref (users.put key user) id = references ref users id + unit (ref user) id :=
  total_put (fun user => unit (ref user) id) users key user absent

theorem references_erase (ref : α → Option ι) (present : users.get? key = some user) (id : ι) :
    references ref (users.erase key) id + unit (ref user) id = references ref users id :=
  total_erase (fun user => unit (ref user) id) users key user present

theorem references_modify (ref : α → Option ι) (present : users.get? key = some user) (change : α → α) (id : ι) :
    references ref (users.modify key change) id + unit (ref user) id =
      references ref users id + unit (ref (change user)) id :=
  total_modify (fun user => unit (ref user) id) users key change user present

theorem tallies_empty : Tallies ref counter (fun _ => 0) (empty : Table κ α) (empty : Table ι β) := fun _ => rfl

theorem Tallies.held_pos (tallies : Tallies ref counter slack users shared)
    (present : users.get? key = some user) {id : ι} (refers : ref user = some id) : 1 ≤ held counter shared id := by
  have counted : unit (ref user) id ≤ references ref users id :=
    le_total (fun other => unit (ref other) id) users key user present
  rw [refers, unit_self] at counted
  have tally := tallies id
  omega

theorem Tallies.put (tallies : Tallies ref counter slack users shared) (absent : users.get? key = none)
    (plain : ref user = none) : Tallies ref counter slack (users.put key user) shared := by
  intro id
  rw [references_put ref absent, plain, unit_none]
  exact tallies id

theorem Tallies.release (tallies : Tallies ref counter slack users shared) (present : users.get? key = some user)
    (dropped : ∀ id, held counter after id + unit (ref user) id = held counter shared id) :
    Tallies ref counter slack (users.erase key) after := by
  intro id
  have tally := tallies id
  have gone := references_erase ref present id
  have less := dropped id
  omega

theorem Tallies.modify (tallies : Tallies ref counter slack users shared) (present : users.get? key = some user)
    {change : α → α} (keeps : ref (change user) = ref user) :
    Tallies ref counter slack (users.modify key change) shared := by
  intro id
  have tally := tallies id
  have changed := references_modify ref present change id
  rw [keeps] at changed
  omega

theorem Tallies.attach (tallies : Tallies ref counter slack users shared) (present : users.get? key = some user)
    {change : α → α} (added : ∀ id, held counter after id = held counter shared id + unit (ref (change user)) id) :
    Tallies ref counter (fun id => slack id + unit (ref user) id) (users.modify key change) after := by
  intro id
  have tally := tallies id
  have changed := references_modify ref present change id
  have more := added id
  change references ref (users.modify key change) id + (slack id + unit (ref user) id) = held counter after id
  omega

end EosEvm.Refs

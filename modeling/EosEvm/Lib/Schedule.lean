import EosEvm.Lib.Table

/-! Changes that take effect at a time. A schedule is a table of changes by the time at
which each takes effect; the state in effect at a time is the start with all changes
up to that time applied, in order. A journal lists the changes as they were announced;
a schedule tracks it if both have the same effect from now on. -/

namespace Table

variable {κ ν : Type} [LinearOrder κ]

def restrict (keeps : κ → Bool) (table : Table κ ν) : Table κ ν :=
  ⟨table.rows.filter fun row => keeps row.1, table.sorted.filter _⟩

@[simp] theorem get?_restrict (keeps : κ → Bool) (table : Table κ ν) (key : κ) :
    (table.restrict keeps).get? key = if keeps key then table.get? key else none := by
  cases found : (table.restrict keeps).get? key with
  | some value =>
      have member := List.mem_filter.mp ((get?_eq_some _ key value).mp found)
      have kept : keeps key = true := member.2
      rw [if_pos kept, (get?_eq_some table key value).mpr member.1]
  | none =>
      split
      · rename_i kept
        cases present : table.get? key with
        | none => rfl
        | some value =>
            have member := (get?_eq_some table key value).mp present
            have inside := (get?_eq_some (table.restrict keeps) key value).mpr (List.mem_filter.mpr ⟨member, kept⟩)
            rw [found] at inside
            cases inside
      · rfl

theorem rows_put_last (table : Table κ ν) (key : κ) (value : ν) (last : ∀ row ∈ table.rows, row.1 < key) :
    (table.put key value).rows = table.rows ++ [(key, value)] := by
  change putRow key value table.rows = table.rows ++ [(key, value)]
  generalize table.rows = rows at last ⊢
  induction rows with
  | nil => rfl
  | cons head rest ih =>
      have below := last head (List.mem_cons_self ..)
      simp only [putRow, not_lt_of_gt below, ne_of_gt below, if_false, List.cons_append]
      rw [ih fun row member => last row (List.mem_cons_of_mem _ member)]

theorem rows_split (table : Table κ ν) (bound : κ) :
    table.rows = (table.restrict fun key => decide (key ≤ bound)).rows ++
      (table.restrict fun key => decide (bound < key)).rows := by
  have sorted := table.sorted
  unfold restrict
  simp only
  generalize table.rows = rows at sorted
  induction rows with
  | nil => rfl
  | cons head rest ih =>
      obtain ⟨below, tail⟩ := List.pairwise_cons.mp sorted
      by_cases early : head.1 ≤ bound
      · simp [early, not_lt.mpr early, ← ih tail]
      · have late := not_le.mp early
        have none : rest.filter (fun row => decide (row.1 ≤ bound)) = [] := by
          rw [List.filter_eq_nil_iff]
          intro row member
          simpa using lt_trans late (below row member)
        have all : rest.filter (fun row => decide (bound < row.1)) = rest := by
          rw [List.filter_eq_self]
          intro row member
          simpa using lt_trans late (below row member)
        simp [early, late, none, all]

end Table

namespace Schedule

variable {ν σ : Type} (apply : σ → ν → σ)

def due (time : Nat) (schedule : Table Nat ν) : Table Nat ν := schedule.restrict fun key => decide (key ≤ time)

def later (time : Nat) (schedule : Table Nat ν) : Table Nat ν := schedule.restrict fun key => decide (time < key)

def effective (time : Nat) (start : σ) (schedule : Table Nat ν) : σ :=
  (due time schedule).rows.foldl (fun state row => apply state row.2) start

theorem due_put_later {time key : Nat} (after : time < key) (schedule : Table Nat ν) (value : ν) :
    due time (schedule.put key value) = due time schedule := by
  apply Table.ext_get?
  intro other
  simp only [due, Table.get?_restrict, Table.get?_put, decide_eq_true_eq]
  split
  · rename_i early
    rw [if_neg (by omega)]
  · rfl

theorem due_modify_later {time key : Nat} (after : time < key) (schedule : Table Nat ν) (change : ν → ν) :
    due time (schedule.modify key change) = due time schedule := by
  apply Table.ext_get?
  intro other
  simp only [due, Table.get?_restrict, Table.get?_modify, decide_eq_true_eq]
  split
  · rename_i early
    rw [if_neg (by omega)]
  · rfl

theorem effective_put_later {time key : Nat} (after : time < key) (start : σ) (schedule : Table Nat ν) (value : ν) :
    effective apply time start (schedule.put key value) = effective apply time start schedule := by
  rw [effective, due_put_later after, effective]

theorem effective_modify_later {time key : Nat} (after : time < key) (start : σ) (schedule : Table Nat ν)
    (change : ν → ν) :
    effective apply time start (schedule.modify key change) = effective apply time start schedule := by
  rw [effective, due_modify_later after, effective]

theorem effective_invariant (invariant : σ → Prop) {schedule : Table Nat ν}
    (keeps : ∀ state, ∀ row ∈ schedule.rows, invariant state → invariant (apply state row.2)) (time : Nat) {start : σ}
    (holds : invariant start) : invariant (effective apply time start schedule) := by
  have inside : ∀ row ∈ (due time schedule).rows, row ∈ schedule.rows := fun row member => (List.mem_filter.mp member).1
  unfold effective
  generalize (due time schedule).rows = rows at inside
  induction rows generalizing start with
  | nil => exact holds
  | cons row rest ih =>
      rw [List.foldl_cons]
      exact ih (keeps start row (inside row (List.mem_cons_self ..)) holds)
        fun other member => inside other (List.mem_cons_of_mem _ member)

theorem effective_lift {τ : Type} (applyWhole : τ → ν → τ) (lift : σ → τ)
    (commutes : ∀ state value, lift (apply state value) = applyWhole (lift state) value) (time : Nat) (start : σ)
    (schedule : Table Nat ν) :
    effective applyWhole time (lift start) schedule = lift (effective apply time start schedule) := by
  unfold effective
  generalize (due time schedule).rows = rows
  induction rows generalizing start with
  | nil => rfl
  | cons row rows ih =>
      rw [List.foldl_cons, List.foldl_cons, ← commutes]
      exact ih (apply start row.2)

theorem effective_put_last {time key : Nat} (reached : key ≤ time) (start : σ) (schedule : Table Nat ν) (value : ν)
    (last : ∀ row ∈ schedule.rows, row.1 < key) :
    effective apply time start (schedule.put key value) = apply (effective apply time start schedule) value := by
  simp only [effective, due, Table.restrict, Table.rows_put_last schedule key value last, List.filter_append,
    List.foldl_append]
  simp [reached]

theorem effective_of_later {time : Nat} (start : σ) (schedule : Table Nat ν)
    (early : ∀ row ∈ schedule.rows, time < row.1) : effective apply time start schedule = start := by
  have nothing : (due time schedule).rows = [] := by
    rw [due, Table.restrict, List.filter_eq_nil_iff]
    intro row member
    simpa using early row member
  rw [effective, nothing]
  rfl

theorem effective_drained {passed time : Nat} (order : passed ≤ time) (start : σ) (schedule : Table Nat ν) :
    effective apply time (effective apply passed start schedule) (later passed schedule) =
      effective apply time start schedule := by
  have split : (due time schedule).rows = (due passed schedule).rows ++ (due time (later passed schedule)).rows := by
    rw [Table.rows_split (due time schedule) passed]
    congr 1
    · congr 1
      apply Table.ext_get?
      intro key
      simp only [due, Table.get?_restrict, decide_eq_true_eq]
      split
      · rw [if_pos (by omega)]
      · rfl
    · congr 1
      apply Table.ext_get?
      intro key
      simp only [due, later, Table.get?_restrict, decide_eq_true_eq]
      split <;> split <;> rfl
  rw [effective, effective, effective, split, List.foldl_append]

def applied (time : Nat) (start : σ) (journal : List (Nat × ν)) : σ :=
  (journal.filter fun entry => decide (entry.1 ≤ time)).foldl (fun state entry => apply state entry.2) start

theorem applied_announced (time : Nat) (start : σ) (journal : List (Nat × ν)) (key : Nat) (value : ν) :
    applied apply time start (journal ++ [(key, value)]) =
      if key ≤ time then apply (applied apply time start journal) value else applied apply time start journal := by
  simp only [applied, List.filter_append, List.foldl_append]
  split
  · rename_i reached
    simp [reached]
  · rename_i early
    simp [early]

def Tracks (now : Nat) (start : σ) (schedule : Table Nat ν) (origin : σ) (journal : List (Nat × ν)) : Prop :=
  ∀ time, now ≤ time → effective apply time start schedule = applied apply time origin journal

section Tracks

variable {apply} {now : Nat} {start origin : σ} {schedule : Table Nat ν} {journal : List (Nat × ν)}

theorem Tracks.mono {later : Nat} (tracks : Tracks apply now start schedule origin journal) (order : now ≤ later) :
    Tracks apply later start schedule origin journal :=
  fun time reached => tracks time (order.trans reached)

theorem Tracks.drain (tracks : Tracks apply now start schedule origin journal) :
    Tracks apply now (effective apply now start schedule) (later now schedule) origin journal :=
  fun time reached => (effective_drained apply reached start schedule).trans (tracks time reached)

theorem Tracks.announce {changed : Table Nat ν} {key : Nat} {value : ν}
    (tracks : Tracks apply now start schedule origin journal)
    (early : ∀ time, time < key → effective apply time start changed = effective apply time start schedule)
    (reached : ∀ time, key ≤ time →
      effective apply time start changed = apply (effective apply time start schedule) value) :
    Tracks apply now start changed origin (journal ++ [(key, value)]) := by
  intro time order
  rw [applied_announced, ← tracks time order]
  split
  · rename_i holds
    exact reached time holds
  · rename_i waits
    exact early time (by omega)

theorem Tracks.put_last {key : Nat} (value : ν) (tracks : Tracks apply now start schedule origin journal)
    (last : ∀ row ∈ schedule.rows, row.1 < key) :
    Tracks apply now start (schedule.put key value) origin (journal ++ [(key, value)]) :=
  tracks.announce (fun _ waits => effective_put_later apply waits start schedule value)
    (fun _ holds => effective_put_last apply holds start schedule value last)

theorem effective_last {key : Nat} {value : ν} (last : schedule.last? = some (key, value)) :
    ∃ before : σ, (∀ time, key ≤ time → effective apply time start schedule = apply before value) ∧
      ∀ changed time, key ≤ time →
        effective apply time start (schedule.modify key fun _ => changed) = apply before changed := by
  obtain ⟨front, rows⟩ : ∃ front, schedule.rows = front ++ [(key, value)] := by
    obtain ⟨front, rows⟩ := List.getLast?_eq_some_iff.mp last
    exact ⟨front, rows⟩
  have sorted := schedule.sorted
  rw [rows, List.pairwise_append] at sorted
  have below : ∀ row ∈ front, row.1 < key := fun row member => sorted.2.2 row member _ (List.mem_singleton_self _)
  have kept : ∀ time, key ≤ time → front.filter (fun row => decide (row.1 ≤ time)) = front := by
    intro time holds
    rw [List.filter_eq_self]
    intro row member
    have earlier := below row member
    simp only [decide_eq_true_eq]
    omega
  refine ⟨front.foldl (fun state row => apply state row.2) start, ?_, ?_⟩
  · intro time holds
    simp [effective, due, Table.restrict, rows, List.filter_append, kept time holds, holds]
  · intro changed time holds
    have modified : (schedule.modify key fun _ => changed).rows = front ++ [(key, changed)] := by
      have unchanged : front.map (fun row => if row.1 = key then (row.1, changed) else row) = front := by
        refine (List.map_congr_left ?_).trans (List.map_id front)
        intro row member
        exact if_neg (below row member).ne
      simp [Table.modify, rows, unchanged]
    simp [effective, due, Table.restrict, modified, List.filter_append, kept time holds, holds]

theorem Tracks.replace_last {key : Nat} {old : ν} (value : ν) (tracks : Tracks apply now start schedule origin journal)
    (last : schedule.last? = some (key, old)) (covers : ∀ state, apply (apply state old) value = apply state value) :
    Tracks apply now start (schedule.modify key fun _ => value) origin (journal ++ [(key, value)]) := by
  obtain ⟨before, whole, replaced⟩ := effective_last last
  refine tracks.announce (fun _ waits => effective_modify_later apply waits start schedule _) ?_
  intro time holds
  rw [replaced value time holds, whole time holds, covers]

theorem Tracks.repeat_last {block key : Nat} {value : ν} (tracks : Tracks apply now start schedule origin journal)
    (last : schedule.last? = some (block, value)) (order : block ≤ key)
    (again : ∀ state, apply (apply state value) value = apply state value) :
    Tracks apply now start schedule origin (journal ++ [(key, value)]) := by
  obtain ⟨before, whole, _⟩ := effective_last last
  refine tracks.announce (fun _ _ => rfl) ?_
  intro time holds
  rw [whole time (order.trans holds), again]

theorem Tracks.keep_current {key : Nat} {value : ν} (tracks : Tracks apply now start schedule origin journal)
    (empty : schedule.rows = []) (same : apply start value = start) :
    Tracks apply now start schedule origin (journal ++ [(key, value)]) := by
  refine tracks.announce (fun _ _ => rfl) ?_
  intro time _
  rw [effective_of_later apply start schedule (by simp [empty]), same]

end Tracks

end Schedule

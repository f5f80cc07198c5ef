import EosEvm.AdminEdits

/-! No two EVM accounts have the same address, whatever the EVM does, so that writing back an
account leaves its address with the balance that was written. -/

namespace EosEvm

open Abort

namespace DbWrite

variable {state updated : State} {write : DbWrite}

def target : DbWrite → Address
  | object address _ _ _ => address
  | storage address _ _ => address

theorem apply_rewrites (unique : state.db.UniqueAddress) (applied : apply state write = .ok updated) :
    ∃ row, state.db.RewritesAt updated.db write.target row := by
  cases write with
  | object address initial current code =>
      simp only [apply, bind_ok] at applied
      obtain ⟨middle, update, applied⟩ := applied
      have first : ∃ row, state.db.RewritesAt middle.db address row := by
        rcases State.updateAccount_rewrites unique update with ⟨_, rfl⟩ | ⟨row, rewritten, _⟩
        · exact ⟨_, Table.rewrites_refl unique address⟩
        · exact ⟨row, rewritten⟩
      obtain ⟨row, rewritten⟩ := first
      have plain : middle = updated → ∃ row, state.db.RewritesAt updated.db address row := by
        rintro rfl
        exact ⟨row, rewritten⟩
      split at applied
      · split at applied
        · obtain ⟨_, second, _⟩ := State.updateAccountCode_rewrites rewritten.unique applied
          exact ⟨_, rewritten.trans second⟩
        · exact plain ((pure_ok _ _).mp applied)
      · exact plain ((pure_ok _ _).mp applied)
  | storage address location current =>
      obtain ⟨row, rewritten, _⟩ := State.updateStorage_rewrites unique applied
      exact ⟨row, rewritten⟩

theorem apply_balanceAt (unique : state.db.UniqueAddress) (applied : apply state write = .ok updated)
    {address : Address} (other : write.object? ≠ some address) :
    updated.db.UniqueAddress ∧ updated.db.balanceAt address = state.db.balanceAt address := by
  obtain ⟨row, rewritten⟩ := apply_rewrites unique applied
  refine ⟨rewritten.unique, ?_⟩
  by_cases here : address = write.target
  · cases write with
    | object => exact absurd (congrArg some here.symm) other
    | storage =>
        subst here
        exact (apply_storage unique applied).here
  · exact (Db.RewritesAt.rebalanced rewritten).elsewhere address here

theorem fold_balanceAt {writes : List DbWrite} {address : Address} (unique : state.db.UniqueAddress)
    (others : ∀ write ∈ writes, write.object? ≠ some address)
    (folded : foldOutcome apply writes state = .ok updated) :
    updated.db.UniqueAddress ∧ updated.db.balanceAt address = state.db.balanceAt address := by
  induction writes generalizing state with
  | nil =>
      rw [foldOutcome_nil] at folded
      subst folded
      exact ⟨unique, rfl⟩
  | cons write writes ih =>
      obtain ⟨middle, applied, rest⟩ := (foldOutcome_cons _ _ _ _ _).mp folded
      obtain ⟨kept, same⟩ := apply_balanceAt unique applied (others write List.mem_cons_self)
      obtain ⟨uniqueAfter, balance⟩ := ih kept (fun later member => others later (List.mem_cons_of_mem _ member)) rest
      exact ⟨uniqueAfter, balance.trans same⟩

theorem fold_written {writes : List DbWrite} {address : Address} {initial current : Option Account} {code : Bytes}
    (unique : state.db.UniqueAddress) (distinct : (writes.filterMap object?).Nodup)
    (member : object address initial current code ∈ writes) (starts : balanceOf initial = state.db.balanceAt address)
    (folded : foldOutcome apply writes state = .ok updated) :
    updated.db.balanceAt address = balanceOf current := by
  induction writes generalizing state with
  | nil => cases member
  | cons write writes ih =>
      obtain ⟨middle, applied, rest⟩ := (foldOutcome_cons _ _ _ _ _).mp folded
      rcases List.mem_cons.mp member with rfl | later
      · simp only [List.filterMap_cons, object?, List.nodup_cons] at distinct
        have step := apply_object unique starts applied
        have others : ∀ other ∈ writes, other.object? ≠ some address := fun other present same =>
          distinct.1 (List.mem_filterMap.mpr ⟨other, present, same⟩)
        exact (fold_balanceAt step.unique others rest).2.trans step.here
      · have other : write.object? ≠ some address := by
          intro same
          rw [List.filterMap_cons_some same, List.nodup_cons] at distinct
          exact distinct.1 (List.mem_filterMap.mpr ⟨_, later, rfl⟩)
        obtain ⟨kept, same⟩ := apply_balanceAt unique applied other
        have fewer : (writes.filterMap object?).Nodup :=
          distinct.sublist (List.Sublist.filterMap _ (List.sublist_cons_self _ _))
        exact ih kept fewer later (starts.trans same.symm) rest

theorem destroy_balanceAt (state : State) (address : Address) :
    state.destroy.balanceAt address = state.db.balanceAt address := by
  unfold State.destroy
  split <;> rfl

theorem applyAll_written {db after : Db} {writes : List DbWrite} {address : Address} {initial current : Option Account}
    {code : Bytes} (unique : db.UniqueAddress) (distinct : (writes.filterMap object?).Nodup)
    (member : object address initial current code ∈ writes) (starts : balanceOf initial = db.balanceAt address)
    (applied : applyAll db writes = .ok after) : after.balanceAt address = balanceOf current := by
  simp only [applyAll, bind_ok, pure_ok] at applied
  obtain ⟨written, folded, rfl⟩ := applied
  rw [destroy_balanceAt]
  exact fold_written unique distinct member starts folded

theorem fold_unique {writes : List DbWrite} (unique : state.db.UniqueAddress)
    (folded : foldOutcome apply writes state = .ok updated) : updated.db.UniqueAddress :=
  foldOutcome_invariant apply (fun state => state.db.UniqueAddress) writes state updated
    (fun _ _ _ _ kept applied => (apply_rewrites kept applied).choose_spec.unique) unique folded

theorem applyAll_unique {db after : Db} {writes : List DbWrite} (unique : db.UniqueAddress)
    (applied : applyAll db writes = .ok after) : after.UniqueAddress := by
  simp only [applyAll, bind_ok, pure_ok] at applied
  obtain ⟨written, folded, rfl⟩ := applied
  have kept : written.db.UniqueAddress := fold_unique unique folded
  unfold State.destroy
  split <;> exact kept

end DbWrite

namespace Contract

variable {env : Env} {before after middle : Contract} {request : Request}

theorem processTx_unique {rc : RuntimeConfig} {miner : Name} {txn : Txn} {minPrice : Option Nat}
    (unique : before.db.UniqueAddress) (processed : processTx env rc miner txn minPrice before = .ok after) :
    after.db.UniqueAddress := by
  obtain ⟨_, _, _, _, _, _, _, _, _, _, _, _, _, _, _, written, rfl⟩ := processTx_ok processed
  exact DbWrite.applyAll_unique unique written

theorem refreshPrices_db (env : Env) (contract : Contract) : (refreshPrices env contract).db = contract.db := by
  rw [refreshPrices_eq]

theorem openInternalBalance_db {owner : Name} (opened : openInternalBalance owner before = .ok after) :
    after.db = before.db := by
  obtain ⟨_, _, rfl⟩ := openInternalBalance_ok opened
  rfl

theorem Bridges.db {payer : Option Name} {tx : Transaction} (bridges : Bridges env before request payer tx middle) :
    middle.db = before.db := by
  cases bridges with
  | call | callotherpay => rw [refreshPrices_db]
  | admincall _ _ _ _ _ _ _ _ address _ numbered _ numbers =>
      rw [refreshPrices_db]
      obtain ⟨_, rfl, _⟩ := adminNonce_ok numbers
      rfl
  | ingress token sender quantity memo _ _ received recorded deposited records =>
      obtain ⟨_, rfl⟩ := recordIngressFee_ok records
      obtain ⟨_, _, _, _, rfl⟩ := deposit_ok deposited
      exact refreshPrices_db env before

theorem edits_unique {requested : Action} {db : Db} (unique : before.db.UniqueAddress)
    (editing : match requested with
      | .gc max => db = (before.db.gc max).1
      | .rmgcstore id => before.db.rmgcstore id = .ok db
      | .setkvstore accountId key value => before.db.setkvstore accountId key value = .ok db
      | .rmaccount id => before.db.rmaccount id = .ok db
      | .freezeaccnt id value => before.db.freezeaccnt id value = .ok db
      | _ => False) : db.UniqueAddress := by
  have unchanged : db.accounts = before.db.accounts → db.UniqueAddress := fun same => by
    unfold Db.UniqueAddress
    rw [same]
    exact unique
  cases requested <;> try exact editing.elim
  case gc max =>
    refine unchanged ?_
    rw [editing]
    exact Db.gcLoop_accounts max max before.db
  case rmgcstore id => exact unchanged (Db.rmgcstore_accounts editing)
  case setkvstore accountId key value => exact unchanged (Db.setkvstore_accounts editing)
  case rmaccount id =>
    simp only [Db.rmaccount, bind_ok, require_ok, pure_ok] at editing
    obtain ⟨_, _, _, _, _, _, rfl⟩ := editing
    exact Table.unique_erase unique id
  case freezeaccnt id value =>
    simp only [Db.freezeaccnt, bind_ok, require_ok, pure_ok] at editing
    obtain ⟨_, _, rfl⟩ := editing
    exact Table.unique_modify unique id fun _ => rfl

theorem Does.unique (unique : before.db.UniqueAddress) (did : Does env before request after) :
    after.db.UniqueAddress := by
  cases did with
  | init caller auths chainid fees tokenContract after ran =>
      obtain ⟨_, _, _, _, _, opened⟩ := init_ok ran
      rw [openInternalBalance_db opened]
      exact unique
  | configures | idles | announces | lists | replies => exact unique
  | swaps caller auths newTokenContract newSymbol swapDestAccount swapMemo after ran =>
      obtain ⟨_, _, _, _, _, _, migrated, ran⟩ := swapgastoken_ok ran
      obtain ⟨_, _, _, _, _, rfl⟩ := migratebal_ok migrated
      rcases ran with rfl | ⟨_, rfl⟩ <;> exact unique
  | opens caller auths requested owner receivers after opening opened =>
      rw [openInternalBalance_db opened]
      exact unique
  | closes caller auths owner after ran =>
      obtain ⟨_, _, _, _, _, _, rfl⟩ := close_ok ran
      exact unique
  | withdraws caller auths owner quantity recipient after ran =>
      obtain ⟨_, _, _, _, _, _, _, _, rfl⟩ := withdraw_ok ran
      exact unique
  | deposits token sender quantity memo receiver after deposited =>
      obtain ⟨_, _, _, _, rfl⟩ := deposit_ok deposited
      have kept : (refreshPrices env before).db.UniqueAddress := (refreshPrices_db env before).symm ▸ unique
      exact kept
  | edits caller auths requested db editing => exact edits_unique unique editing
  | adjustsEvm caller auths id delta subtract after ran =>
      obtain ⟨_, _, _, _, _, _, _,  rfl⟩ := addevmbal_ok ran
      exact Table.unique_modify unique id fun _ => rfl
  | adjustsOpen caller auths holder delta subtract after ran =>
      obtain ⟨_, _, _, _,  rfl⟩ := addopenbal_ok ran
      exact unique
  | migrates caller auths fromName limit after ran =>
      obtain ⟨_, _, _, _, _, rfl⟩ := migratebal_ok ran
      exact unique
  | pushes caller auths miner rlptx minPrice after ready processed =>
      exact processTx_unique ((refreshPrices_db env before).symm ▸ unique) processed
  | bridges request payer tx middle after ready bridges dispatched =>
      have kept : middle.db.UniqueAddress := bridges.db ▸ unique
      rcases dispatchTx_ok dispatched with ⟨_, processed⟩ | ⟨_, _, rfl⟩
      · exact processTx_unique (by exact kept) processed
      · exact kept

end Contract

variable {host : Host} {world next : World}

theorem Stepped.uniqueAddress {label : Label} (unique : world.contract.db.UniqueAddress)
    (stepped : Stepped host world label next) : next.contract.db.UniqueAddress := by
  cases stepped with
  | tick | submit | passed => exact unique
  | handled view before after request rest holding contract handled =>
      have kept : contract.db.UniqueAddress := (Request.run_does handled.ran).unique unique
      exact kept

/-- In every reachable state no two EVM accounts have the same address. -/
theorem run_uniqueAddress {holding : Name → Symbol → Nat} {labels : List Label}
    (finished : run host labels (World.start holding) = .ok world) : world.contract.db.UniqueAddress :=
  run_invariant (fun world => world.contract.db.UniqueAddress)
    (fun _ _ _ _ unique stepped => stepped.uniqueAddress unique) Table.unique_empty finished

end EosEvm

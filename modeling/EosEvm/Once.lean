import EosEvm.Addresses
import EosEvm.Node

/-! No signed transaction runs twice. The EVM takes a transaction only under the nonce that the
tables have for its sender, and writes the next one back; since nothing but `rmaccount` removes or
renumbers an account otherwise, the transactions of a sender are numbered without a gap in every
run. -/

namespace EosEvm

open Abort

namespace Db

variable {before after : Db} {address : Address} {row : Option AccountRow}

/-- The nonce of an address, zero if it has no row. -/
def nonceAt (db : Db) (address : Address) : Nat := ((db.findAccount address).map fun row => row.2.nonce).getD 0

theorem RewritesAt.nonceAt_here (rewritten : before.RewritesAt after address row) :
    after.nonceAt address = (row.map AccountRow.nonce).getD 0 := by
  rw [← rewritten.here, Option.map_map]
  rfl

theorem RewritesAt.nonceAt_elsewhere (rewritten : before.RewritesAt after address row) {other : Address}
    (apart : other ≠ address) : after.nonceAt other = before.nonceAt other := by
  have same : after.findAccount other = before.findAccount other := rewritten.elsewhere other apart
  rw [nonceAt, same, nonceAt]

theorem nonceAt_of_accounts (same : after.accounts = before.accounts) (address : Address) :
    after.nonceAt address = before.nonceAt address := by
  rw [nonceAt, findAccount, same]
  rfl

theorem nonceAt_modify (unique : before.UniqueAddress) (id : Nat) (change : AccountRow → AccountRow)
    (changed : after.accounts = before.accounts.modify id change)
    (addressed : ∀ row, (change row).ethAddress = row.ethAddress) (numbered : ∀ row, (change row).nonce = row.nonce)
    (address : Address) : after.nonceAt address = before.nonceAt address := by
  rw [nonceAt, findAccount, changed, Table.findBy_modify unique id addressed, Option.map_map]
  refine congrArg (Option.getD · 0) (Option.map_congr fun row _ => ?_)
  simp only [Function.comp_apply]
  split
  · exact numbered row.2
  · rfl

end Db

namespace State

variable {state updated : State} {address : Address}

theorem updateAccountCode_nonceAt (unique : state.db.UniqueAddress) {codeHash : Bytes32} {code : Bytes}
    (update : state.updateAccountCode address codeHash code = .ok updated) :
    updated.db.nonceAt address = state.db.nonceAt address := by
  simp only [updateAccountCode, bind_ok, check_ok, exists_const] at update
  obtain ⟨_, attached, _, update⟩ := update
  split at update
  · rename_i id row found
    rw [pure_ok] at update
    subst update
    exact Db.nonceAt_modify unique id (fun row => { row with codeId := some attached.1 }) rfl (fun _ => rfl)
      (fun _ => rfl) address
  · rename_i absent
    have rewritten := emplaceAccount_rewrites (by exact unique) (by exact absent) update
    have zero : state.db.nonceAt address = 0 := by simp [Db.nonceAt, absent]
    exact rewritten.nonceAt_here.trans zero.symm

theorem updateStorage_nonceAt (unique : state.db.UniqueAddress) {location current : Bytes32}
    (update : state.updateStorage address location current = .ok updated) :
    updated.db.nonceAt address = state.db.nonceAt address := by
  simp only [updateStorage, bind_ok, check_ok, exists_const] at update
  obtain ⟨_, update⟩ := update
  split at update
  · split at update
    · rw [pure_ok] at update
      rw [update]
    · split at update
      all_goals
        rw [pure_ok] at update
        subst update
        exact Db.nonceAt_of_accounts rfl address
  · split at update
    · rename_i absent
      simp only [bind_ok, pure_ok] at update
      obtain ⟨created, emplaced, db, stored, rfl⟩ := update
      have rewritten := emplaceAccount_rewrites unique absent emplaced
      rw [Db.nonceAt_of_accounts (storeSlot_accounts stored), rewritten.nonceAt_here, Db.nonceAt, absent]
      rfl
    · simp only [bind_ok, pure_ok] at update
      obtain ⟨db, stored, rfl⟩ := update
      exact Db.nonceAt_of_accounts (storeSlot_accounts stored) address

end State

namespace DbWrite

variable {state updated : State} {write : DbWrite} {writes : List DbWrite} {address : Address}
  {initial current : Option Account} {code : Bytes}

def nonceOf (account : Option Account) : Nat := (account.map Account.nonce).getD 0

theorem apply_numbered (unique : state.db.UniqueAddress) (starts : nonceOf initial = state.db.nonceAt address)
    (applied : apply state (object address initial current code) = .ok updated) :
    updated.db.nonceAt address = nonceOf current := by
  simp only [apply, bind_ok] at applied
  obtain ⟨middle, update, applied⟩ := applied
  have first : middle.db.UniqueAddress ∧ middle.db.nonceAt address = nonceOf current := by
    rcases State.updateAccount_rewrites unique update with ⟨rfl, rfl⟩ | ⟨row, rewritten, same⟩
    · exact ⟨unique, starts.symm⟩
    · have nonces := congrArg (Option.map Prod.fst) same
      simp only [Option.map_map] at nonces
      exact ⟨rewritten.unique, rewritten.nonceAt_here.trans (congrArg (Option.getD · 0) nonces)⟩
  have plain : middle = updated → updated.db.nonceAt address = nonceOf current := by
    rintro rfl
    exact first.2
  split at applied
  · split at applied
    · exact (State.updateAccountCode_nonceAt first.1 applied).trans first.2
    · exact plain ((pure_ok _ _).mp applied)
  · exact plain ((pure_ok _ _).mp applied)

theorem apply_nonceAt (unique : state.db.UniqueAddress) (applied : apply state write = .ok updated)
    (other : write.object? ≠ some address) :
    updated.db.UniqueAddress ∧ updated.db.nonceAt address = state.db.nonceAt address := by
  obtain ⟨row, rewritten⟩ := apply_rewrites unique applied
  refine ⟨rewritten.unique, ?_⟩
  by_cases here : address = write.target
  · cases write with
    | object => exact absurd (congrArg some here.symm) other
    | storage =>
        subst here
        exact State.updateStorage_nonceAt unique applied
  · exact rewritten.nonceAt_elsewhere here

theorem fold_nonceAt (unique : state.db.UniqueAddress) (distinct : (writes.filterMap object?).Nodup)
    (starts : ∀ initial current code, object address initial current code ∈ writes →
      nonceOf initial = state.db.nonceAt address)
    (folded : foldOutcome apply writes state = .ok updated) :
    (∃ initial current code, object address initial current code ∈ writes ∧
        updated.db.nonceAt address = nonceOf current) ∨
      (∀ write ∈ writes, write.object? ≠ some address) ∧ updated.db.nonceAt address = state.db.nonceAt address := by
  induction writes generalizing state with
  | nil =>
      rw [foldOutcome_nil] at folded
      subst folded
      exact Or.inr ⟨fun _ member => (by cases member), rfl⟩
  | cons write writes ih =>
      obtain ⟨middle, applied, rest⟩ := (foldOutcome_cons _ _ _ _ _).mp folded
      have fewer : (writes.filterMap object?).Nodup :=
        distinct.sublist (List.Sublist.filterMap _ (List.sublist_cons_self _ _))
      by_cases here : write.object? = some address
      · cases write with
        | storage => cases here
        | object target initial current code =>
            cases here
            have step := apply_numbered unique (starts initial current code List.mem_cons_self) applied
            simp only [List.filterMap_cons, object?, List.nodup_cons] at distinct
            -- No later write is about the object of this address.
            have others : ∀ other ∈ writes, other.object? ≠ some address := fun other present same =>
              distinct.1 (List.mem_filterMap.mpr ⟨other, present, same⟩)
            refine Or.inl ⟨initial, current, code, List.mem_cons_self, ?_⟩
            have uniqueAfter := (apply_rewrites unique applied).choose_spec.unique
            rcases ih uniqueAfter fewer (fun first last text member => absurd rfl (others _ member)) rest with
              ⟨first, last, text, member, _⟩ | ⟨_, kept⟩
            · exact absurd rfl (others _ member)
            · exact kept.trans step
      · obtain ⟨uniqueAfter, same⟩ := apply_nonceAt unique applied here
        have startsRest : ∀ initial current code, object address initial current code ∈ writes →
            nonceOf initial = middle.db.nonceAt address := fun initial current code member =>
          (starts initial current code (List.mem_cons_of_mem _ member)).trans same.symm
        rcases ih uniqueAfter fewer startsRest rest with ⟨first, last, text, member, written⟩ | ⟨others, kept⟩
        · exact Or.inl ⟨first, last, text, List.mem_cons_of_mem _ member, written⟩
        · exact Or.inr ⟨List.forall_mem_cons.mpr ⟨here, others⟩, kept.trans same⟩

theorem applyAll_nonceAt {db after : Db} (unique : db.UniqueAddress) (distinct : (writes.filterMap object?).Nodup)
    (starts : ∀ initial current code, object address initial current code ∈ writes →
      nonceOf initial = db.nonceAt address) (applied : applyAll db writes = .ok after) :
    (∃ initial current code, object address initial current code ∈ writes ∧ after.nonceAt address = nonceOf current) ∨
      (∀ write ∈ writes, write.object? ≠ some address) ∧ after.nonceAt address = db.nonceAt address := by
  simp only [applyAll, bind_ok, pure_ok] at applied
  obtain ⟨written, folded, rfl⟩ := applied
  have same : written.destroy.nonceAt address = written.db.nonceAt address := by
    unfold State.destroy
    split <;> rfl
  rw [same]
  exact fold_nonceAt unique distinct starts folded

end DbWrite

theorem nonceOf_readAccount {state handle : State} {address : Address} {account : Option Account}
    (read : state.readAccount address = .ok (account, handle)) :
    DbWrite.nonceOf account = state.db.nonceAt address := by
  simp only [State.readAccount] at read
  split at read
  · rename_i absent
    cases read
    simp [DbWrite.nonceOf, Db.nonceAt, absent]
  · rename_i id row found
    simp only [bind_ok, check_ok, exists_const] at read
    obtain ⟨_, read⟩ := read
    have whole : ∀ codeHash, account = some ⟨row.nonce, row.balance, codeHash, 0⟩ →
        DbWrite.nonceOf account = state.db.nonceAt address := by
      rintro codeHash rfl
      simp [DbWrite.nonceOf, Db.nonceAt, found]
    split at read
    · simp only [pure_ok, Prod.mk.injEq] at read
      exact whole _ read.1.symm
    · split at read <;> simp only [pure_ok, Prod.mk.injEq] at read
      · exact whole _ read.1.symm
      · exact whole _ read.1.symm

/-- An address that signs transactions. -/
def Silkworm.Keyed (evm : Silkworm) (address : Address) : Prop :=
  ∃ tx : Transaction, tx.isSpecialSignature = false ∧ evm.recoverSender tx = some address

/-- How the library numbers transactions: it starts from the nonces in the tables, takes a
transaction of an ordinary sender only under the nonce of the sender and lifts it by one, and
leaves the nonce of any other address that signs transactions, where no contract is. -/
structure Silkworm.Sequences (evm : Silkworm) : Prop where
  expected : ∀ input, evm.validateTransaction input = .ok .ok → input.funded = none →
    input.tx.nonce = input.db.nonceAt input.sender
  begins : ∀ input output address initial current code, evm.executeTransaction input = .ok output →
    .object address initial current code ∈ output.writes →
    ∃ handle, (State.fresh input.db false false).readAccount address = .ok (initial, handle)
  lifted : ∀ input output, evm.executeTransaction input = .ok output → input.funded = none →
    evm.Keyed input.sender → ∃ initial current code, .object input.sender initial current code ∈ output.writes
  numbered : ∀ input output address initial current code, evm.executeTransaction input = .ok output →
    .object address initial current code ∈ output.writes → evm.Keyed address →
    DbWrite.nonceOf current = if address = input.sender then input.tx.nonce + 1 else input.db.nonceAt address

/-- The nonces of the transactions of a sender, in the order in which they ran. -/
def noncesRun (address : Address) (history : List Effect) : List Nat :=
  ((executions history).filter fun execution => execution.sender = address).map Execution.nonce

theorem noncesRun_append (address : Address) (first second : List Effect) :
    noncesRun address (first ++ second) = noncesRun address first ++ noncesRun address second := by
  simp [noncesRun, executions_append]

theorem Silkworm.Keyed.ordinary {evm : Silkworm} {address : Address} (signs : evm.Signs) (keyed : evm.Keyed address) :
    extractReservedAddress address = none := by
  obtain ⟨tx, ordinary, recovered⟩ := keyed
  cases extracted : extractReservedAddress address with
  | none => rfl
  | some account =>
      obtain rfl := (extractReservedAddress_eq_some _ _).mp extracted
      have special := signs.reserved tx account recovered
      simp [Transaction.isSpecialSignature, special] at ordinary

def Action.removesAccount : Action → Bool
  | .rmaccount _ => true
  | _ => false

/-- The transactions of a sender that ran are numbered up to the nonce in the tables. -/
structure Sequenced (address : Address) (db : Db) (history : List Effect) : Prop where
  unique : db.UniqueAddress
  nonces : noncesRun address history = List.range (db.nonceAt address)

theorem prepareSender_unfunded {env : Env} {rc : RuntimeConfig} {tx : Transaction} {sender : Address}
    {funds charged : Funds} {fromSelf : Bool} {funded : Option (Nat × Nat)}
    (ordinary : extractReservedAddress sender = none)
    (prepared : prepareSender env rc tx sender funds = .ok (charged, fromSelf, funded)) : funded = none := by
  unfold prepareSender at prepared
  split at prepared
  · simp only [ordinary, bind_ok, check_ok, exists_const, pure_ok, Prod.mk.injEq] at prepared
    exact prepared.2.2.2.symm
  · cases prepared
    rfl

theorem Silkworm.Sequences.nonceAt {evm : Silkworm} (sequences : evm.Sequences) {input : RunInput} {output : RunOutput}
    {address : Address} {after : Db} (keyed : evm.Keyed address) (unique : input.db.UniqueAddress)
    (unfunded : address = input.sender → input.funded = none) (ran : evm.executeTransaction input = .ok output)
    (written : DbWrite.applyAll input.db output.writes = .ok after) :
    after.nonceAt address = if address = input.sender then input.tx.nonce + 1 else input.db.nonceAt address := by
  have starts : ∀ initial current code, .object address initial current code ∈ output.writes →
      DbWrite.nonceOf initial = input.db.nonceAt address := by
    intro initial current code member
    obtain ⟨handle, read⟩ := sequences.begins input output address initial current code ran member
    exact nonceOf_readAccount read
  rcases DbWrite.applyAll_nonceAt unique output.distinctWrites starts written with
    ⟨initial, current, code, member, nonce⟩ | ⟨others, kept⟩
  · rw [nonce]
    exact sequences.numbered input output address initial current code ran member keyed
  · have apart : address ≠ input.sender := by
      rintro rfl
      obtain ⟨initial, current, code, member⟩ := sequences.lifted input output ran (unfunded rfl) keyed
      exact others _ member rfl
    rw [kept, if_neg apart]

namespace Contract

variable {env : Env} {before after : Contract} {address : Address} {history : List Effect}

theorem processTx_sequenced {rc : RuntimeConfig} {miner : Name} {txn : Txn} {minPrice : Option Nat}
    (signs : env.evm.Signs) (sequences : env.evm.Sequences) (keyed : env.evm.Keyed address)
    (fresh : before.effects = []) (sequenced : Sequenced address before.db history)
    (processed : processTx env rc miner txn minPrice before = .ok after) :
    Sequenced address after.db (history ++ after.effects) := by
  refine ⟨processTx_unique sequenced.unique processed, ?_⟩
  obtain ⟨tx, funds, transfers, input, output, delivered, notices, db, _, _, _, _, _, executed, _, written, rfl⟩ :=
    processTx_ok processed
  obtain ⟨charged, fromSelf, begun, validated, ran, _⟩ := executeTx_ok executed
  obtain ⟨sender, funded, recovered, prepared, same⟩ := beginTx_ok begun
  -- Only reserved senders are given a balance and a nonce for the run.
  have unfunded : address = input.sender → input.funded = none := by
    rintro rfl
    rw [same] at keyed ⊢
    exact prepareSender_unfunded (keyed.ordinary signs) prepared
  have nonce := sequences.nonceAt keyed (by rw [same]; exact sequenced.unique) unfunded ran (by rw [same]; exact written)
  have executed : noncesRun address [.ran (executionOf env.now input)] =
      if address = input.sender then [input.tx.nonce] else [] := by
    by_cases here : address = input.sender
    · simp [noncesRun, executions, executionOf, here]
    · simp [noncesRun, executions, executionOf, here, Ne.symm here]
  have silent : ∀ actions : List Inline, noncesRun address (actions.map .sent) = [] := fun actions => by
    rw [noncesRun, executions_sent]
    rfl
  dsimp only
  rw [noncesRun_append, noncesRun_append, noncesRun_append, fresh, silent, executed, nonce, sequenced.nonces]
  have start : input.db.nonceAt address = before.db.nonceAt address := by rw [same]
  split
  · rename_i here
    have expected := sequences.expected input validated (unfunded here)
    rw [← here, start] at expected
    rw [expected, List.range_succ]
    rfl
  · rw [start]
    exact List.append_nil _

theorem edits_nonceAt {requested : Action} (unique : before.db.UniqueAddress) (edits : requested.editsEvm = true)
    (keeps : requested.removesAccount = false) (ran : requested.run env before = .ok after) (address : Address) :
    after.db.nonceAt address = before.db.nonceAt address := by
  cases requested <;> try cases edits
  case gc max =>
    simp only [Action.run, Contract.gc, bind_ok, assertUnfrozen_ok, requireAuth_ok, exists_const, pure_ok] at ran
    obtain ⟨_, _, rfl⟩ := ran
    exact Db.nonceAt_of_accounts (Db.gcLoop_accounts max max before.db) address
  case addevmbal id delta subtract =>
    obtain ⟨_, _, _, balance, _, _, _, rfl⟩ := addevmbal_ok ran
    exact Db.nonceAt_modify unique id (fun row => { row with balance := balance }) rfl (fun _ => rfl) (fun _ => rfl)
      address
  case freezeaccnt id frozen =>
    simp only [Action.run] at ran
    obtain ⟨_, db, edited, rfl⟩ := editDb_ok ran
    simp only [Db.freezeaccnt, bind_ok, require_ok, pure_ok] at edited
    obtain ⟨_, _, rfl⟩ := edited
    exact Db.nonceAt_modify unique id
      (fun row => { row with flags := if frozen then row.flags ||| 1 else row.flags &&& ~~~1 }) rfl (fun _ => rfl)
      (fun _ => rfl) address
  case rmaccount => cases keeps
  all_goals
    simp only [Action.run] at ran
    obtain ⟨_, db, edited, rfl⟩ := editDb_ok ran
  case rmgcstore => exact Db.nonceAt_of_accounts (Db.rmgcstore_accounts edited) address
  case setkvstore => exact Db.nonceAt_of_accounts (Db.setkvstore_accounts edited) address

end Contract

/-- The request does not remove an EVM account. -/
def keepsAccounts (_ : World) : Request → Bool
  | .action _ _ requested => !requested.removesAccount
  | .transfer _ _ _ _ _ => true

theorem Handled.sequenced {host : Host} {world : World} {view : ChainView} {before after : List Request}
    {request : Request} {rest : List Pending} {holding : Name → Symbol → Nat} {contract : Contract} {address : Address}
    (signs : host.evm.Signs) (sequences : host.evm.Sequences) (keyed : host.evm.Keyed address)
    (keeps : keepsAccounts world request = true) (sequenced : Sequenced address world.tables.db world.history)
    (handled : Handled host view before after request rest holding contract world) :
    Sequenced address contract.db (world.history ++ contract.effects) := by
  have did := Request.run_does handled.ran
  rcases did.prepares_or rfl with quiet | ⟨rc, miner, txn, minPrice, start, prepares, processed⟩
  · refine ⟨did.unique sequenced.unique, ?_⟩
    have same : contract.db.nonceAt address = world.tables.db.nonceAt address := by
      rcases did.db_or with same | edits | ⟨execution, ran⟩
      · rw [same]
        rfl
      · cases request with
        | transfer => cases edits
        | action caller auths requested =>
            exact Contract.edits_nonceAt sequenced.unique edits (Bool.not_eq_true' _ ▸ keeps) handled.ran address
      · cases quiet _ ran
    rw [noncesRun_append, same, sequenced.nonces, noncesRun, executions_quiet quiet]
    exact List.append_nil _
  · refine Contract.processTx_sequenced signs sequences keyed prepares.effects ?_ processed
    rw [prepares.db]
    exact sequenced

/-- In every run in which no account is removed by `rmaccount`, the transactions of a sender that
signs them ran under the nonces from zero up to the one in the tables, each once and in order:
none is skipped, and none can run again. -/
theorem run_nonces_sequential (host : Host) (signs : host.evm.Signs) (sequences : host.evm.Sequences)
    (holding : Name → Symbol → Nat) (labels : List Label) (world : World)
    (keeps : guarded host keepsAccounts labels (World.start holding) = true)
    (finished : run host labels (World.start holding) = .ok world) (address : Address)
    (keyed : host.evm.Keyed address) :
    noncesRun address world.history = List.range (world.tables.db.nonceAt address) := by
  have sequenced := run_guarded (fun world => Sequenced address world.tables.db world.history)
    (fun world label next sequenced stepped safe => by
      cases stepped with
      | tick | submit | passed => exact sequenced
      | handled view before after request rest holding contract handled =>
          exact handled.sequenced signs sequences keyed (safe _ _ _ _ _ _ _ rfl handled) sequenced)
    ⟨Table.unique_empty, rfl⟩ keeps finished
  exact sequenced.nonces

namespace Ledger

def renumbered (initial : Option Account) (nonce : Nat) : Account :=
  { credited initial 0 with nonce := nonce + 1 }

def signing : Silkworm where
  __ := evm
  decodeTransaction := fun rlptx => (decodeTransaction rlptx).map fun tx =>
    if tx.isSpecialSignature then tx else { tx with chainId := some 15555 }
  validateTransaction := fun input =>
    .ok (if input.funded.isSome ∨ input.tx.nonce = input.db.nonceAt input.sender then .ok else .wrongNonce)
  executeTransaction := fun input =>
    if input.funded.isSome then executeTransaction input
    else do
      let read ← (State.fresh input.db false false).readAccount input.sender
      return { receipt input.tx Table.empty []
        (some (.object input.sender read.1 (some (renumbered read.1 input.tx.nonce)) [])) with cumulativeGasUsed := 0 }

theorem signing_signs : signing.Signs where
  named := evm_signs.named
  padded := evm_signs.padded
  reserved := evm_signs.reserved
  decoded := by
    intro tx nonce s form
    have decoded : decodeTransaction (encodeTransaction tx) = some tx := evm_signs.decoded tx nonce s form
    simp only [signing]
    rw [show evm.encodeTransaction tx = encodeTransaction tx from rfl, decoded, Option.map_some, if_pos form.special]

theorem signing_writes {input : RunInput} {output : RunOutput} (ran : signing.executeTransaction input = .ok output) :
    (input.funded.isSome = true ∧ ∀ write ∈ output.writes, ∃ address initial handle amount,
        (State.fresh input.db false false).readAccount address = .ok (initial, handle) ∧
        isReservedAddress input.sender = true ∧ write = .object address initial (some (credited initial amount)) []) ∨
      input.funded = none ∧ ∃ initial handle,
        (State.fresh input.db false false).readAccount input.sender = .ok (initial, handle) ∧
        output.writes = [.object input.sender initial (some (renumbered initial input.tx.nonce)) []] := by
  simp only [signing] at ran
  split at ran
  · rename_i funded
    refine Or.inl ⟨funded, ?_⟩
    simp only [executeTransaction, bind_ok, require_ok, check_ok, exists_const] at ran
    obtain ⟨_, _, account, sender, recipient, _, _, ran⟩ := ran
    have reserved : isReservedAddress input.sender = true := by
      rw [(extractReservedAddress_eq_some _ _).mp sender, isReservedAddress_makeReservedAddress]
    split at ran
    · rw [pure_ok] at ran
      subst ran
      exact fun _ member => (by cases member)
    · simp only [bind_ok, pure_ok] at ran
      obtain ⟨⟨initial, handle⟩, read, rfl⟩ := ran
      intro write member
      cases List.mem_singleton.mp member
      exact ⟨recipient, initial, handle, input.tx.value, read, reserved, rfl⟩
  · rename_i unfunded
    simp only [bind_ok, pure_ok] at ran
    obtain ⟨⟨initial, handle⟩, read, rfl⟩ := ran
    exact Or.inr ⟨Option.not_isSome_iff_eq_none.mp unfunded, initial, handle, read, rfl⟩

theorem signing_sequences : signing.Sequences where
  expected := by
    intro input validated unfunded
    simp only [signing, unfunded, Option.isSome_none, Bool.false_eq_true, false_or, Except.ok.injEq] at validated
    by_contra wrong
    rw [if_neg wrong] at validated
    cases validated
  begins := by
    intro input output address initial current code ran member
    rcases signing_writes ran with ⟨_, writes⟩ | ⟨_, first, handle, read, writes⟩
    · obtain ⟨_, _, handle, _, read, _, ⟨⟩⟩ := writes _ member
      exact ⟨handle, read⟩
    · rw [writes] at member
      cases List.mem_singleton.mp member
      exact ⟨handle, read⟩
  lifted := by
    intro input output ran unfunded _
    rcases signing_writes ran with ⟨funded, _⟩ | ⟨_, first, _, _, writes⟩
    · rw [unfunded] at funded
      cases funded
    · exact ⟨first, _, [], writes ▸ List.mem_singleton_self _⟩
  numbered := by
    intro input output address initial current code ran member keyed
    rcases signing_writes ran with ⟨_, writes⟩ | ⟨_, first, _, _, writes⟩
    · obtain ⟨_, _, _, amount, read, reserved, ⟨⟩⟩ := writes _ member
      have apart : address ≠ input.sender := by
        rintro rfl
        have ordinary := keyed.ordinary signing_signs
        simp [extractReservedAddress, reserved] at ordinary
      have nonce : DbWrite.nonceOf initial = input.db.nonceAt address := nonceOf_readAccount read
      rw [if_neg apart, ← nonce]
      cases initial <;> rfl
    · rw [writes] at member
      cases List.mem_singleton.mp member
      rw [if_pos rfl]
      rfl

def signed (nonce : Nat) : Transaction where
  nonce := nonce
  maxPriorityFeePerGas := 150000000000
  maxFeePerGas := 150000000000
  gasLimit := 21000
  recipient := some 1
  value := 0
  r := 5
  s := 0

def signingHost : Host := { host with evm := signing }

def signedTwice : List Label :=
  opening ++ act bob (.pushtx alice (encodeTransaction (signed 0)) none) 0 ++
    act bob (.pushtx alice (encodeTransaction (signed 1)) none) 0

end Ledger

theorem run_nonces_sequential_signed :
    ∃ world, run Ledger.signingHost Ledger.signedTwice (World.start fun _ _ => 0) = .ok world ∧
      Ledger.signing.Keyed 5 ∧ noncesRun 5 world.history = List.range (world.tables.db.nonceAt 5) ∧
      (executions world.history).length = 2 := by
  obtain ⟨world, finished, seen⟩ := exists_of_view
    (run Ledger.signingHost Ledger.signedTwice (World.start fun _ _ => 0))
    (fun world => (executions world.history).length) 2 (by decide +kernel)
  have keyed : Ledger.signing.Keyed 5 := ⟨Ledger.signed 0, rfl, by decide +kernel⟩
  exact ⟨world, finished, keyed, run_nonces_sequential Ledger.signingHost Ledger.signing_signs
    Ledger.signing_sequences _ _ world (by decide +kernel) finished 5 keyed, seen⟩

end EosEvm

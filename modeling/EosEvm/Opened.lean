import EosEvm.Moves
import EosEvm.ConfigToken
import EosEvm.Reconfigure

/-! Which rows exist. An open balance always has a counter for its nonces, and from `init`
on the contract has a balance of its own. -/

namespace EosEvm

open Abort

namespace Contract

/-- Open balances have counters, and the contract has a balance once there are tokens in
the EVM to count. -/
structure Opened (account : Name) (contract : Contract) : Prop where
  counted : ∀ owner, (contract.funds.balances.get? owner).isSome = true → (contract.nextnonces.get? owner).isSome = true
  own : contract.funds.inevm.isSome = true → (contract.funds.balances.get? account).isSome = true

variable {account : Name} {before after : Contract}

theorem Opened.keep (opened : before.Opened account)
    (balances : ∀ owner, (after.funds.balances.get? owner).isSome = (before.funds.balances.get? owner).isSome)
    (inevm : after.funds.inevm.isSome = before.funds.inevm.isSome)
    (nonces : ∀ owner, (before.nextnonces.get? owner).isSome = true → (after.nextnonces.get? owner).isSome = true) :
    after.Opened account := by
  constructor
  · intro owner isOpen
    rw [balances] at isOpen
    exact nonces owner (opened.counted owner isOpen)
  · intro counted
    rw [inevm] at counted
    rw [balances]
    exact opened.own counted

theorem openInternalBalance_opened {owner : Name} (opening : openInternalBalance owner before = .ok after) :
    after.funds.inevm = before.funds.inevm ∧
      (∀ other, (after.funds.balances.get? other).isSome =
        ((before.funds.balances.get? other).isSome || decide (owner = other))) ∧
      ∀ other, (after.nextnonces.get? other).isSome =
        ((before.nextnonces.get? other).isSome || decide (owner = other)) := by
  obtain ⟨balances, row, rfl⟩ := openInternalBalance_ok opening
  refine ⟨rfl, ?_, ?_⟩
  · intro other
    rcases openRow_ok row with ⟨present, rfl⟩ | ⟨_, _, rfl⟩
    · by_cases same : owner = other
      · simp [← same, present]
      · simp [same]
    · by_cases same : owner = other <;> simp [Table.get?_put, same]
  · intro other
    by_cases same : owner = other
    · simp only [← same, decide_true, Bool.or_true]
      split
      · assumption
      · simp
    · split <;> simp [same]

theorem Opened.opening {owner : Name} (opened : before.Opened account)
    (opening : openInternalBalance owner before = .ok after) : after.Opened account := by
  obtain ⟨inevm, balances, nonces⟩ := openInternalBalance_opened opening
  constructor
  · intro other isOpen
    rw [balances, Bool.or_eq_true] at isOpen
    rw [nonces, Bool.or_eq_true]
    exact isOpen.imp_left (opened.counted other)
  · intro counted
    rw [inevm] at counted
    rw [balances, opened.own counted, Bool.true_or]

theorem migratebal_opened {fromName : Name} {limit : Int} (ran : migratebal fromName limit before = .ok after) :
    after.funds.inevm = before.funds.inevm ∧ after.nextnonces = before.nextnonces ∧
      ∀ owner, (after.funds.balances.get? owner).isSome = (before.funds.balances.get? owner).isSome := by
  obtain ⟨_, _, _, _, _, rfl⟩ := migratebal_ok ran
  exact ⟨rfl, rfl, Table.foldl_modify_isSome _ _ _⟩

theorem processTx_opened {env : Env} {rc : RuntimeConfig} {miner : Name} {txn : Txn} {minPrice : Option Nat}
    (processed : processTx env rc miner txn minPrice before = .ok after) :
    Funds.Moves before.config.getTokenSymbol before.funds after.funds ∧ after.nextnonces = before.nextnonces := by
  obtain ⟨_, _, _, _, _, _, _, _, _, _, _, _, _, executed, filtered, _, rfl⟩ := processTx_ok processed
  have moves := executeTx_moves executed
  have symbol : ((before.config.promoteEvmVersion env.now).2.promoteConsensusParam env.now).2.2.getTokenSymbol =
      before.config.getTokenSymbol := ConfigWrapper.getTokenSymbol_of_token (by simp)
  simp only [symbol] at moves
  exact ⟨moves.trans (processFilteredMessages_moves filtered), rfl⟩

theorem Opened.moves {symbol : Symbol} (opened : before.Opened account)
    (moves : Funds.Moves symbol before.funds after.funds)
    (nonces : ∀ owner, (before.nextnonces.get? owner).isSome = true → (after.nextnonces.get? owner).isSome = true) :
    after.Opened account :=
  opened.keep moves.opened.1 moves.opened.2 nonces

theorem Bridges.opened {env : Env} {request : Request} {payer : Option Name} {tx : Transaction} {middle : Contract}
    (bridges : Bridges env before request payer tx middle) :
    (∀ owner, (middle.funds.balances.get? owner).isSome = (before.funds.balances.get? owner).isSome) ∧
      middle.funds.inevm = before.funds.inevm ∧
      ∀ owner, (before.nextnonces.get? owner).isSome = true → (middle.nextnonces.get? owner).isSome = true := by
  cases bridges with
  | call | callotherpay =>
      rw [refreshPrices_eq]
      exact ⟨fun _ => rfl, rfl, fun owner => Table.isSome_put _ _ owner _⟩
  | admincall _ _ _ _ _ _ _ _ address _ numbered _ numbers _ =>
      rw [refreshPrices_eq]
      obtain ⟨_, rfl, kept⟩ := adminNonce_ok numbers
      exact ⟨fun _ => rfl, rfl, kept⟩
  | ingress _ _ _ _ _ _ received recorded deposited records _ _ =>
      obtain ⟨_, rfl⟩ := recordIngressFee_ok records
      obtain ⟨row, balance, found, _, rfl⟩ := deposit_ok deposited
      rw [refreshPrices_eq] at found ⊢
      exact ⟨Table.isSome_put_present _ found, rfl, fun owner => Table.isSome_put _ _ owner _⟩

theorem addevmbal_moves {env : Env} {id : Nat} {delta : Bytes} {subtract : Bool}
    (adjusted : addevmbal env id delta subtract before = .ok after) :
    ∃ funds db, after = { before with funds := funds, db := db } ∧
      Funds.Moves before.config.getTokenSymbol before.funds funds := by
  obtain ⟨_, _, _, balance, funds, _, changed, rfl⟩ := addevmbal_ok adjusted
  refine ⟨funds, _, rfl, ?_⟩
  rcases adjustEvm_ok changed with ⟨leaves, _⟩ | ⟨enters, _⟩
  · exact .one (.leaves _ _ leaves)
  · exact .one (.enters _ _ enters)

theorem addopenbal_moves {env : Env} {account : Name} {delta : Bytes} {subtract : Bool}
    (adjusted : addopenbal env account delta subtract before = .ok after) :
    ∃ funds, after = { before with funds := funds } ∧
      Funds.Moves before.config.getTokenSymbol before.funds funds := by
  obtain ⟨_, _, funds, changed, rfl⟩ := addopenbal_ok adjusted
  refine ⟨funds, rfl, ?_⟩
  simp only [adjustOpen] at changed
  split at changed
  · exact .one (.debit _ _ _ _ changed)
  · exact .one (.credit _ _ _ _ changed)

theorem Does.opened {env : Env} {request : Request} (did : Does env before request after)
    (opened : before.Opened env.self) :
    after.Opened env.self ∧ (before.funds.inevm.isSome = true → after.funds.inevm.isSome = true) := by
  have same : ∀ kept : Contract, kept.funds = before.funds → kept.nextnonces = before.nextnonces →
      kept.Opened env.self ∧ (before.funds.inevm.isSome = true → kept.funds.inevm.isSome = true) := by
    intro kept funds nonces
    exact ⟨opened.keep (by simp [funds]) (by rw [funds]) (by simp [nonces]), by simp [funds]⟩
  cases did with
  | init caller auths chainid fees tokenContract after ran =>
      obtain ⟨_, _, _, _, _, opening⟩ := init_ok ran
      obtain ⟨evm, balances, nonces⟩ := openInternalBalance_opened opening
      refine ⟨⟨?_, ?_⟩, ?_⟩
      · intro other isOpen
        rw [balances, Bool.or_eq_true] at isOpen
        rw [nonces, Bool.or_eq_true]
        exact isOpen.imp_left (opened.counted other)
      · intro _
        rw [balances]
        simp
      · rw [evm]
        exact fun _ => rfl
  | configures | idles | announces | lists | replies | edits => exact same _ rfl rfl
  | swaps caller auths newTokenContract newSymbol swapDestAccount swapMemo after ran =>
      obtain ⟨_, inevm, statistics, swapped, found, _, migrated, ran⟩ := swapgastoken_ok ran
      obtain ⟨evm, nonces, balances⟩ := migratebal_opened migrated
      have kept : swapped.Opened env.self ∧
          (before.funds.inevm.isSome = true → swapped.funds.inevm.isSome = true) := by
        refine ⟨opened.keep balances (by rw [evm, found]; rfl) (by simp [nonces]), ?_⟩
        rw [evm]
        exact fun _ => rfl
      rcases ran with rfl | ⟨_, rfl⟩
      · exact kept
      · exact ⟨kept.1.keep (fun _ => rfl) rfl fun _ present => present, kept.2⟩
  | opens caller auths requested owner receivers after opening ran =>
      have listed : ({ before with receivers := receivers } : Contract).Opened env.self :=
        opened.keep (fun _ => rfl) rfl fun _ present => present
      refine ⟨listed.opening ran, ?_⟩
      rw [(openInternalBalance_opened ran).1]
      exact id
  | closes caller auths owner after ran =>
      obtain ⟨other, _, nonce, _, _, _, rfl⟩ := close_ok ran
      refine ⟨⟨?_, ?_⟩, id⟩
      · intro holder isOpen
        simp only [Table.get?_erase] at isOpen
        split at isOpen
        · cases isOpen
        · rename_i distinct
          have counted := opened.counted holder isOpen
          split
          · rw [Table.get?_erase, if_neg distinct]
            exact counted
          · exact counted
      · intro evm
        rw [Table.get?_erase, if_neg other]
        exact opened.own evm
  | withdraws caller auths owner quantity recipient after ran =>
      obtain ⟨_, _, _, _, found, _, _, _, rfl⟩ := withdraw_ok ran
      exact ⟨opened.keep (Table.isSome_put_present _ found) rfl fun _ present => present, id⟩
  | deposits token sender quantity memo receiver after deposited =>
      obtain ⟨row, balance, found, _, rfl⟩ := deposit_ok deposited
      rw [refreshPrices_eq] at found ⊢
      exact ⟨opened.keep (Table.isSome_put_present _ found) rfl fun _ present => present, id⟩
  | adjustsEvm caller auths id delta subtract after ran =>
      obtain ⟨_, _, rfl, moves⟩ := addevmbal_moves ran
      refine ⟨opened.moves moves fun _ present => present, ?_⟩
      simp [moves.opened.2]
  | adjustsOpen caller auths holder delta subtract after ran =>
      obtain ⟨_, rfl, moves⟩ := addopenbal_moves ran
      refine ⟨opened.moves moves fun _ present => present, ?_⟩
      simp [moves.opened.2]
  | migrates caller auths fromName limit after ran =>
      obtain ⟨evm, nonces, balances⟩ := migratebal_opened ran
      refine ⟨opened.keep balances (by rw [evm]) (by simp [nonces]), ?_⟩
      simp [evm]
  | pushes caller auths miner rlptx minPrice after ready processed =>
      obtain ⟨moves, nonces⟩ := processTx_opened processed
      rw [refreshPrices_eq] at moves nonces
      refine ⟨opened.moves moves (by simp [nonces]), ?_⟩
      simp [moves.opened.2]
  | bridges request payer tx middle after ready bridges dispatched =>
      obtain ⟨balances, inevm, nonces⟩ := bridges.opened
      have middling : middle.Opened env.self := opened.keep balances (by rw [inevm]) nonces
      rcases dispatchTx_ok dispatched with ⟨_, processed⟩ | ⟨_, _, rfl⟩
      · obtain ⟨moves, counters⟩ := processTx_opened processed
        refine ⟨middling.moves moves (by simp [counters]), ?_⟩
        rw [moves.opened.2, inevm]
        exact id
      · refine ⟨middling.keep (fun _ => rfl) rfl fun _ present => present, ?_⟩
        simp [emit, inevm]

end Contract

end EosEvm

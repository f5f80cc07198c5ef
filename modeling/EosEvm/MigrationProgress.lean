import EosEvm.Swap
import EosEvm.Timeline

/-! The migration after a swap ends. Until the next swap no balance gets an earlier symbol again,
so the balances that are left to migrate become fewer with every `migratebal` that does not
abort, and one with a large enough limit leaves none. -/

namespace EosEvm

open Abort

namespace BalanceWithDust

variable {row result : BalanceWithDust} {amount : Nat}

theorem add_symbol (added : row.add amount = .ok result) : result.balance.symbol = row.balance.symbol := by
  simp only [add, bind_ok, check_ok, exists_const, pure_ok] at added
  obtain ⟨_, _, _, _, _, _, rfl⟩ := added
  rfl

theorem sub_symbol (taken : row.sub amount = .ok result) : result.balance.symbol = row.balance.symbol := by
  simp only [sub, bind_ok, check_ok, exists_const] at taken
  obtain ⟨_, _, _, _, taken⟩ := taken
  split at taken
  · simp only [bind_ok, check_ok, exists_const, pure_ok] at taken
    obtain ⟨_, rfl⟩ := taken
    rfl
  · rw [pure_ok] at taken
    subst taken
    rfl

end BalanceWithDust

namespace Funds

variable {symbol : Symbol} {funds middle after : Funds}

/-- The accounts whose balance has another symbol. -/
def stale (symbol : Symbol) (funds : Funds) : List Name :=
  (funds.balances.rows.filter fun row => decide (row.2.balance.symbol ≠ symbol)).map Prod.fst

theorem mem_stale {owner : Name} :
    owner ∈ funds.stale symbol ↔ ∃ row, funds.balances.get? owner = some row ∧ row.balance.symbol ≠ symbol := by
  simp only [stale, List.mem_map, List.mem_filter, decide_eq_true_eq, Table.get?_eq_some]
  constructor
  · rintro ⟨⟨_, row⟩, ⟨member, differs⟩, rfl⟩
    exact ⟨row, member, differs⟩
  · rintro ⟨row, member, differs⟩
    exact ⟨(owner, row), ⟨member, differs⟩, rfl⟩

theorem stale_nodup (symbol : Symbol) (funds : Funds) : (funds.stale symbol).Nodup := by
  refine List.pairwise_map.mpr ((funds.balances.sorted.filter _).imp ?_)
  intro first second less
  exact ne_of_lt less

/-- Every balance has the symbol or the one it had, and the tokens inside the EVM the one they had. -/
structure Named (symbol : Symbol) (funds after : Funds) : Prop where
  balances : ∀ owner row, after.balances.get? owner = some row → row.balance.symbol = symbol ∨
    ∃ old, funds.balances.get? owner = some old ∧ row.balance.symbol = old.balance.symbol
  inevm : after.inevm.map (fun row => row.balance.symbol) = funds.inevm.map (fun row => row.balance.symbol)

theorem Named.of_same (balances : after.balances = funds.balances) (inevm : after.inevm = funds.inevm) :
    Named symbol funds after :=
  ⟨fun _ row found => Or.inr ⟨row, balances ▸ found, rfl⟩, by rw [inevm]⟩

theorem Named.trans (first : Named symbol funds middle) (second : Named symbol middle after) :
    Named symbol funds after := by
  refine ⟨?_, second.inevm.trans first.inevm⟩
  intro owner row found
  rcases second.balances owner row found with named | ⟨old, present, same⟩
  · exact Or.inl named
  · rw [same]
    exact first.balances owner old present

theorem Named.put {owner : Name} {changed : BalanceWithDust}
    (fits : changed.balance.symbol = symbol ∨
      ∃ old, funds.balances.get? owner = some old ∧ changed.balance.symbol = old.balance.symbol) :
    Named symbol funds { funds with balances := funds.balances.put owner changed } := by
  refine ⟨?_, rfl⟩
  intro other row found
  rw [Table.get?_put] at found
  split at found
  · rename_i here
    cases found
    exact here ▸ fits
  · exact Or.inr ⟨row, found, rfl⟩

theorem Move.named (move : Move symbol funds after) : Named symbol funds after := by
  cases move with
  | credit owner amount missing after credited =>
      obtain ⟨row, found, changed, added, rfl⟩ := credit_ok.mp credited
      exact .put (Or.inr ⟨row, found, BalanceWithDust.add_symbol added⟩)
  | debit owner amount missing after debited =>
      obtain ⟨row, found, changed, taken, rfl⟩ := debit_ok.mp debited
      exact .put (Or.inr ⟨row, found, BalanceWithDust.sub_symbol taken⟩)
  | enters amount after entered =>
      obtain ⟨row, found, changed, added, rfl⟩ := enterEvm_ok.mp entered
      refine ⟨fun _ row found => Or.inr ⟨row, found, rfl⟩, ?_⟩
      simp [found, BalanceWithDust.add_symbol added]
  | leaves amount after left =>
      obtain ⟨row, found, changed, taken, rfl⟩ := leaveEvm_ok.mp left
      refine ⟨fun _ row found => Or.inr ⟨row, found, rfl⟩, ?_⟩
      simp [found, BalanceWithDust.sub_symbol taken]
  | records => exact .of_same rfl rfl

theorem Moves.named (moves : Moves symbol funds after) : Named symbol funds after := by
  induction moves with
  | refl => exact .of_same rfl rfl
  | tail _ move ih => exact ih.trans move.named

theorem Named.stale_subset (named : Named symbol funds after) : after.stale symbol ⊆ funds.stale symbol := by
  intro owner member
  obtain ⟨row, found, differs⟩ := mem_stale.mp member
  rcases named.balances owner row found with same | ⟨old, present, same⟩
  · exact absurd same differs
  · exact mem_stale.mpr ⟨old, present, same ▸ differs⟩

theorem stale_length_le (fewer : after.stale symbol ⊆ funds.stale symbol) :
    (after.stale symbol).length ≤ (funds.stale symbol).length :=
  (List.subperm_of_subset (stale_nodup symbol after) fewer).length_le

theorem stale_length_lt {owner : Name} (fewer : after.stale symbol ⊆ funds.stale symbol)
    (listed : owner ∈ funds.stale symbol) (gone : owner ∉ after.stale symbol) :
    (after.stale symbol).length < (funds.stale symbol).length := by
  have apart : (owner :: after.stale symbol).Nodup := List.nodup_cons.mpr ⟨gone, stale_nodup symbol after⟩
  have inside : owner :: after.stale symbol ⊆ funds.stale symbol := List.cons_subset.mpr ⟨listed, fewer⟩
  exact (List.subperm_of_subset apart inside).length_le

end Funds

namespace Contract

variable {env : Env} {symbol : Symbol} {before middle after : Contract}

theorem migratebal_visits {fromName : Name} {limit : Int}
    (inside : before.funds.inevm.map (fun row => row.balance.symbol) = some symbol)
    (ran : migratebal fromName limit before = .ok after) :
    Funds.Named symbol before.funds after.funds ∧
      (∀ owner, owner ∈ after.funds.stale symbol ↔ owner ∈ before.funds.stale symbol ∧
        owner ∉ (before.migrated fromName limit.toNat).map Prod.fst) ∧
      ∃ owner ∈ (before.migrated fromName limit.toNat).map Prod.fst, owner ∈ before.funds.stale symbol := by
  obtain ⟨inevm, _, found, rfl, some, rfl⟩ := migratebal_ok ran
  obtain rfl : inevm.balance.symbol = symbol := by simpa [found] using inside
  set visited := before.migrated fromName limit.toNat with visits
  -- the rows it rewrites are the stale ones among those it visits
  have rewritten : ∀ owner, owner ∈ (visited.filter fun row =>
      decide (row.2.balance.symbol ≠ inevm.balance.symbol)).map Prod.fst ↔
        owner ∈ visited.map Prod.fst ∧ owner ∈ before.funds.stale inevm.balance.symbol := by
    intro owner
    simp only [List.mem_map, List.mem_filter, decide_eq_true_eq, Funds.mem_stale]
    constructor
    · rintro ⟨⟨_, row⟩, ⟨member, differs⟩, rfl⟩
      exact ⟨⟨_, member, rfl⟩, row, mem_migrated member, differs⟩
    · rintro ⟨⟨⟨_, row⟩, member, rfl⟩, stored, present, differs⟩
      obtain rfl : row = stored := Option.some.inj ((mem_migrated member).symm.trans present)
      exact ⟨_, ⟨member, differs⟩, rfl⟩
  refine ⟨⟨?_, rfl⟩, ?_, ?_⟩
  · intro owner row present
    rw [foldl_modify_get?] at present
    split at present
    · obtain ⟨old, _, rfl⟩ := Option.map_eq_some_iff.mp present
      exact Or.inl rfl
    · exact Or.inr ⟨row, present, rfl⟩
  · intro owner
    simp only [Funds.mem_stale, foldl_modify_get?]
    by_cases changed : owner ∈ (visited.filter fun row =>
        decide (row.2.balance.symbol ≠ inevm.balance.symbol)).map Prod.fst
    · rw [if_pos changed]
      refine iff_of_false ?_ fun kept => kept.2 ((rewritten owner).mp changed).1
      rintro ⟨_, renamed, differs⟩
      obtain ⟨old, _, rfl⟩ := Option.map_eq_some_iff.mp renamed
      exact differs rfl
    · rw [if_neg changed, ← Funds.mem_stale]
      refine ⟨fun stale => ⟨stale, fun seen => changed ((rewritten owner).mpr ⟨seen, stale⟩)⟩, And.left⟩
  · obtain ⟨row, member⟩ := List.exists_mem_of_ne_nil _ some
    exact ⟨row.1, (rewritten row.1).mp (List.mem_map_of_mem member)⟩

theorem migratebal_fewer {fromName : Name} {limit : Int}
    (inside : before.funds.inevm.map (fun row => row.balance.symbol) = some symbol)
    (ran : migratebal fromName limit before = .ok after) :
    (after.funds.stale symbol).length < (before.funds.stale symbol).length := by
  obtain ⟨named, left, owner, visited, stale⟩ := migratebal_visits inside ran
  exact Funds.stale_length_lt named.stale_subset stale fun still => ((left owner).mp still).2 visited

theorem migratebal_all {limit : Int} (inside : before.funds.inevm.map (fun row => row.balance.symbol) = some symbol)
    (some : before.funds.stale symbol ≠ []) (enough : (before.funds.balances.rows.length : Int) ≤ limit) :
    ∃ after, migratebal 0 limit before = .ok after ∧ after.funds.stale symbol = [] := by
  have all : before.migrated 0 limit.toNat = before.funds.balances.rows := by
    rw [migrated, List.filter_eq_self.mpr fun row _ => decide_eq_true (Fin.zero_le row.1)]
    exact List.take_of_length_le (by omega)
  obtain ⟨inevm, found, rfl⟩ := Option.map_eq_some_iff.mp inside
  have stale : before.funds.balances.rows.filter (fun row =>
      decide (row.2.balance.symbol ≠ inevm.balance.symbol)) ≠ [] := fun none => some (by rw [Funds.stale, none]; rfl)
  have ran : ∃ after, migratebal 0 limit before = .ok after := by
    simp only [migratebal, found, all, Abort.require, ok_bind]
    rw [(check_ok _ _ ()).mpr stale]
    exact ⟨_, rfl⟩
  obtain ⟨after, ran⟩ := ran
  refine ⟨after, ran, List.eq_nil_iff_forall_not_mem.mpr ?_⟩
  intro owner left
  obtain ⟨kept, missed⟩ := ((migratebal_visits inside ran).2.1 owner).mp left
  obtain ⟨row, present, _⟩ := Funds.mem_stale.mp kept
  exact missed (all ▸ List.mem_map_of_mem ((Table.get?_eq_some _ _ _).mp present))

theorem openInternalBalance_named {owner : Name} (opening : openInternalBalance owner before = .ok after) :
    Funds.Named before.config.getTokenSymbol before.funds after.funds := by
  obtain ⟨balances, row, rfl⟩ := openInternalBalance_ok opening
  rcases openRow_ok row with ⟨_, rfl⟩ | ⟨_, _, rfl⟩
  · exact .of_same rfl rfl
  · exact .put (Or.inl rfl)

theorem deposit_named {owner : Name} {quantity : Asset} {missing : String} (symbol : Symbol)
    (deposited : before.deposit owner quantity missing = .ok after) : Funds.Named symbol before.funds after.funds := by
  obtain ⟨row, balance, found, added, rfl⟩ := deposit_ok deposited
  obtain ⟨_, _, _, rfl⟩ := (Asset.add_ok _ _ _).mp added
  exact .put (Or.inr ⟨row, found, rfl⟩)

theorem withdraw_named {owner : Name} {quantity : Asset} {recipient : Option Name}
    (withdrawn : withdraw env owner quantity recipient before = .ok after) :
    Funds.Named before.config.getTokenSymbol before.funds after.funds := by
  obtain ⟨_, _, _, _, _, _, _, rfl, rfl⟩ := withdraw_ok withdrawn
  exact .put (Or.inl rfl)

theorem close_named {owner : Name} (symbol : Symbol) (closed : close env owner before = .ok after) :
    Funds.Named symbol before.funds after.funds := by
  obtain ⟨_, _, _, _, _, _, rfl⟩ := close_ok closed
  refine ⟨?_, rfl⟩
  intro other stored present
  rw [Table.get?_erase] at present
  split at present
  · cases present
  · exact Or.inr ⟨stored, present, rfl⟩

theorem processTx_named {rc : RuntimeConfig} {miner : Name} {txn : Txn} {minPrice : Option Nat}
    (processed : processTx env rc miner txn minPrice before = .ok after) :
    Funds.Named before.config.getTokenSymbol before.funds after.funds :=
  (processTx_opened processed).1.named

theorem refreshPrices_symbol (env : Env) (contract : Contract) :
    (refreshPrices env contract).config.getTokenSymbol = contract.config.getTokenSymbol :=
  congrArg Asset.symbol (refreshPrices_fee env contract)

theorem refreshPrices_funds (env : Env) (contract : Contract) : (refreshPrices env contract).funds = contract.funds := by
  rw [refreshPrices_eq]

theorem Bridges.named {request : Request} {payer : Option Name} {tx : Transaction}
    (bridges : Bridges env before request payer tx middle) :
    Funds.Named before.config.getTokenSymbol before.funds middle.funds ∧
      middle.config.getTokenSymbol = before.config.getTokenSymbol := by
  cases bridges with
  | call => exact ⟨.of_same (by simp [refreshPrices_funds]) (by simp [refreshPrices_funds]), refreshPrices_symbol _ _⟩
  | callotherpay =>
      refine ⟨.of_same (by simp [refreshPrices_funds]) (by simp [refreshPrices_funds]), ?_⟩
      rw [refreshPrices_symbol]
      exact congrArg Asset.symbol (ConfigWrapper.promoteEvmVersion_fee _ _)
  | admincall _ _ _ _ _ _ _ _ address _ numbered _ numbers _ =>
      obtain ⟨_, rfl, _⟩ := adminNonce_ok numbers
      exact ⟨.of_same (by simp [refreshPrices_funds]) (by simp [refreshPrices_funds]), refreshPrices_symbol _ _⟩
  | ingress token sender quantity memo _ _ received recorded deposited records _ _ =>
      have named : Funds.Named before.config.getTokenSymbol before.funds received.funds :=
        refreshPrices_funds env before ▸ deposit_named _ deposited
      have config : received.config = (refreshPrices env before).config := by
        obtain ⟨_, _, _, _, rfl⟩ := deposit_ok deposited
        rfl
      obtain ⟨_, rfl⟩ := recordIngressFee_ok records
      exact ⟨⟨named.balances, named.inevm⟩,
        (congrArg ConfigWrapper.getTokenSymbol config).trans (refreshPrices_symbol env before)⟩

theorem Does.named {request : Request} (stored : request.isInit = true → before.config.stored = true)
    (keeps : request.isSwap = false)
    (inside : ∀ inevm, before.funds.inevm = some inevm → inevm.balance.symbol = before.config.getTokenSymbol)
    (did : Does env before request after) : Funds.Named before.config.getTokenSymbol before.funds after.funds := by
  cases did with
  | init caller auths chainid fees tokenContract after ran =>
      have unstored := (init_ok ran).1
      rw [stored rfl] at unstored
      cases unstored
  | swaps => cases keeps
  | configures | idles | announces | edits | lists | replies => exact .of_same rfl rfl
  | opens caller auths requested owner receivers after opening opened =>
      have named := openInternalBalance_named opened
      exact ⟨named.balances, named.inevm⟩
  | closes caller auths owner after ran => exact close_named _ ran
  | withdraws caller auths owner quantity recipient after ran => exact withdraw_named ran
  | deposits token sender quantity memo receiver after deposited =>
      exact refreshPrices_funds env before ▸ deposit_named _ deposited
  | adjustsEvm caller auths id delta subtract after ran =>
      obtain ⟨_, _, rfl, moves⟩ := addevmbal_moves ran
      exact moves.named
  | adjustsOpen caller auths holder delta subtract after ran =>
      obtain ⟨_, rfl, moves⟩ := addopenbal_moves ran
      exact moves.named
  | migrates caller auths fromName limit after ran =>
      obtain ⟨inevm, _, found, _⟩ := migratebal_ok ran
      exact (migratebal_visits (by rw [found, Option.map_some, inside inevm found]) ran).1
  | pushes caller auths miner rlptx minPrice after ready processed =>
      have named := processTx_named processed
      rwa [refreshPrices_funds, refreshPrices_symbol] at named
  | bridges request payer tx middle after ready bridges dispatched =>
      obtain ⟨first, symbol⟩ := bridges.named
      rcases dispatchTx_ok dispatched with ⟨_, processed⟩ | ⟨_, _, rfl⟩
      · have named := processTx_named processed
        have promoted : (middle.config.promoteEvmVersion env.now).2.getTokenSymbol = before.config.getTokenSymbol :=
          (congrArg Asset.symbol (ConfigWrapper.promoteEvmVersion_fee _ _)).trans symbol
        exact first.trans (promoted ▸ named)
      · exact ⟨first.balances, first.inevm⟩

end Contract

/-- A mark for every migration that is handled. -/
def migrations (_ : World) : Request → List Unit
  | .action _ _ (.migratebal _ _) => [()]
  | _ => []

/-- The world has the token it started with, and with every migration fewer balances are stale. -/
structure World.Migrates (opening world : World) (journal : List Unit) : Prop where
  stored : world.config.stored = true
  token : world.config.getTokenSymbol = opening.config.getTokenSymbol
  inside : world.contract.funds.inevm.map (fun row => row.balance.symbol) = some opening.config.getTokenSymbol
  stale : world.contract.funds.stale opening.config.getTokenSymbol ⊆
    opening.contract.funds.stale opening.config.getTokenSymbol
  fewer : (world.contract.funds.stale opening.config.getTokenSymbol).length + journal.length ≤
    (opening.contract.funds.stale opening.config.getTokenSymbol).length

variable {host : Host} {world next opening : World} {journal : List Unit}

theorem World.Migrates.handled {view : ChainView} {before after : List Request} {request : Request}
    {rest : List Pending} {holding : Name → Symbol → Nat} {contract : Contract}
    (migrates : opening.Migrates world journal) (set : opening.config.getTokenSymbol ≠ Symbol.none)
    (keeps : request.isSwap = false)
    (handled : Handled host view before after request rest holding contract world) :
    opening.Migrates (world.handled before after request rest holding contract) (journal ++ migrations world request) := by
  have symbol : world.contract.config.getTokenSymbol = opening.config.getTokenSymbol := migrates.token
  have inside := migrates.inside
  have did := Request.run_does handled.ran
  obtain ⟨reconfigured, config⟩ := handled.reconfigures
  have token : contract.config.token = world.config.token :=
    reconfigured.token migrates.stored (migrates.token ▸ set) keeps
  have named : Funds.Named opening.config.getTokenSymbol world.contract.funds contract.funds :=
    symbol ▸ did.named (fun _ => migrates.stored) keeps fun inevm found => by
      rw [found, Option.map_some, ← symbol] at inside
      exact Option.some.inj inside
  have fewer : (contract.funds.stale opening.config.getTokenSymbol).length + (migrations world request).length ≤
      (world.contract.funds.stale opening.config.getTokenSymbol).length := by
    unfold migrations
    split
    · exact Contract.migratebal_fewer inside handled.ran
    · exact Funds.stale_length_le named.stale_subset
  refine ⟨?_, ?_, ?_, ?_, ?_⟩
  · rw [config]
    simp [migrates.stored]
  · rw [config]
    exact (ConfigWrapper.getTokenSymbol_of_token token).trans migrates.token
  · exact named.inevm.trans inside
  · exact List.Subset.trans named.stale_subset migrates.stale
  · have earlier := migrates.fewer
    rw [List.length_append]
    change (contract.funds.stale opening.config.getTokenSymbol).length + (journal.length + _) ≤ _
    omega

/-- Until the next swap, no balance gets an earlier symbol again: the stale balances are some of
those at the opening, fewer by one at least with every migration that was handled. As long as one
is left, `migratebal` from the smallest name with a limit above their number handles all. -/
theorem run_migration_ends (host : Host) (opening : World) (stored : opening.config.stored = true)
    (set : opening.config.getTokenSymbol ≠ Symbol.none)
    (inside : opening.contract.funds.inevm.map (fun row => row.balance.symbol) = some opening.config.getTokenSymbol)
    (labels : List Label) (world : World) (keeps : guarded host keepsToken labels opening = true)
    (finished : run host labels opening = .ok world) :
    world.contract.funds.stale world.config.getTokenSymbol ⊆ opening.contract.funds.stale opening.config.getTokenSymbol ∧
      (world.contract.funds.stale world.config.getTokenSymbol).length + (noted host migrations labels opening).length ≤
        (opening.contract.funds.stale opening.config.getTokenSymbol).length ∧
      ∀ limit : Int, (world.contract.funds.balances.rows.length : Int) ≤ limit →
        world.contract.funds.stale world.config.getTokenSymbol ≠ [] →
        ∃ after, Contract.migratebal 0 limit world.contract = .ok after ∧
          after.funds.stale world.config.getTokenSymbol = [] := by
  have start : opening.Migrates opening [] := ⟨stored, rfl, inside, List.Subset.refl _, Nat.le_refl _⟩
  have migrates := run_noted migrations opening.Migrates ?_ start keeps finished
  · rw [List.nil_append] at migrates
    rw [migrates.token]
    exact ⟨migrates.stale, migrates.fewer, fun limit enough some => Contract.migratebal_all migrates.inside some enough⟩
  · intro world label next journal migrates stepped safe
    cases stepped with
    | tick | submit =>
        simp only [entries, List.append_nil]
        exact ⟨migrates.stored, migrates.token, migrates.inside, migrates.stale, migrates.fewer⟩
    | passed view before after sent rest top away =>
        rw [entries_passed _ top away, List.append_nil]
        exact ⟨migrates.stored, migrates.token, migrates.inside, migrates.stale, migrates.fewer⟩
    | handled view before after request rest holding contract handled =>
        have stays := safe view before after request rest holding contract rfl handled
        rw [entries_handled migrations handled]
        exact migrates.handled set (by simpa [keepsToken] using stays) handled

theorem run_migration_ends_alice : ∃ opening world,
    run Ledger.host (Ledger.beforeSwap Ledger.sys ++ [.next Ledger.view [] []]) (World.start fun _ _ => 0) = .ok opening ∧
      run Ledger.host Ledger.migration opening = .ok world ∧
      opening.contract.funds.stale opening.config.getTokenSymbol = [Ledger.alice] ∧
      world.contract.funds.stale world.config.getTokenSymbol = [] := by
  obtain ⟨opening, reached, seen⟩ := exists_of_view
    (run Ledger.host (Ledger.beforeSwap Ledger.sys ++ [.next Ledger.view [] []]) (World.start fun _ _ => 0))
    (fun opening => decide (opening.config.stored = true ∧ opening.config.getTokenSymbol ≠ Symbol.none ∧
      opening.contract.funds.inevm.map (fun row => row.balance.symbol) = some opening.config.getTokenSymbol ∧
      opening.contract.funds.stale opening.config.getTokenSymbol = [Ledger.alice] ∧
      guarded Ledger.host keepsToken Ledger.migration opening = true ∧
      (noted Ledger.host migrations Ledger.migration opening).length = 1 ∧
      (run Ledger.host Ledger.migration opening).isOk = true)) true (by decide +kernel)
  obtain ⟨stored, set, inside, stale, keeps, one, finishes⟩ := of_decide_eq_true seen
  obtain ⟨world, finished⟩ := exists_of_isOk finishes
  obtain ⟨_, fewer, _⟩ := run_migration_ends Ledger.host opening stored set inside _ world keeps finished
  rw [stale, one] at fewer
  exact ⟨opening, world, reached, finished, stale, List.length_eq_zero_iff.mp (by simpa using fewer)⟩

end EosEvm

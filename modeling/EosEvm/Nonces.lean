import EosEvm.Authenticity
import EosEvm.Debits

/-! The nonces of the reserved addresses. Each transaction that the contract makes takes the
next value of its sender's counter, and runs at once or, in version 0, when the action that
the contract sends itself is reached. -/

namespace EosEvm

open Abort Words

def Effect.nonceOf (owner : Name) : Effect → Option Nat
  | .ran execution => if execution.sender = makeReservedAddress owner then some execution.nonce else none
  | .sent _ => none

/-- The nonces of the transactions that ran for an account's reserved address, in order. -/
def executedNonces (owner : Name) (history : List Effect) : List Nat := history.filterMap (Effect.nonceOf owner)

def Inline.nonceOf (evm : Silkworm) (owner : Name) : Inline → Option Nat
  | .pushtx _ rlptx => (evm.decodeTransaction rlptx).bind fun tx =>
      if evm.recoverSender tx = some (makeReservedAddress owner) then some tx.nonce else none
  | _ => none

def pushedNonces (evm : Silkworm) (owner : Name) (actions : List Inline) : List Nat :=
  actions.filterMap (Inline.nonceOf evm owner)

def Pending.nonceOf (evm : Silkworm) (owner : Name) : Pending → Option Nat
  | .request _ => none
  | .sent queued => queued.action.nonceOf evm owner

def pendingNonces (evm : Silkworm) (owner : Name) (stack : List Pending) : List Nat :=
  stack.filterMap (Pending.nonceOf evm owner)

/-- The next value of an account's counter; there is no row before the first. -/
def nextNonce (owner : Name) (nextnonces : Table Name Nat) : Nat := (nextnonces.get? owner).getD 0

@[simp] theorem executedNonces_append (owner : Name) (first second : List Effect) :
    executedNonces owner (first ++ second) = executedNonces owner first ++ executedNonces owner second :=
  List.filterMap_append

@[simp] theorem executedNonces_sent (owner : Name) (actions : List Inline) :
    executedNonces owner (actions.map .sent) = [] := by
  rw [executedNonces, List.filterMap_map]
  exact List.filterMap_eq_nil_iff.mpr fun _ _ => rfl

@[simp] theorem pendingNonces_append (evm : Silkworm) (owner : Name) (front back : List Pending) :
    pendingNonces evm owner (front ++ back) = pendingNonces evm owner front ++ pendingNonces evm owner back :=
  List.filterMap_append

@[simp] theorem pendingNonces_requests (evm : Silkworm) (owner : Name) (requests : List Request) :
    pendingNonces evm owner (requests.map .request) = [] := by
  rw [pendingNonces, List.filterMap_map]
  exact List.filterMap_eq_nil_iff.mpr fun _ _ => rfl

theorem Inline.nonceOf_foreign {evm : Silkworm} {owner account : Name} {action : Inline}
    (away : action.isForeign account = true) : action.nonceOf evm owner = none := by
  cases action with
  | pushtx => cases away
  | _ => rfl

theorem nonces_of_pushtx {evm : Silkworm} {owner miner : Name} {rlptx : Bytes} {nonce : Nat} {effects : List Effect}
    (one : effects = [.sent (.pushtx miner rlptx)])
    (numbered : (Inline.pushtx miner rlptx).nonceOf evm owner = some nonce) :
    executedNonces owner effects = [] ∧ pushedNonces evm owner (sentActions effects) = [nonce] := by
  subst one
  refine ⟨rfl, ?_⟩
  rw [pushedNonces, sentActions, List.filterMap_cons, List.filterMap_nil, List.filterMap_cons, numbered]
  rfl

@[simp] theorem pendingNonces_scheduled (evm : Silkworm) (owner : Name) (cause : Request) (effects : List Effect) :
    pendingNonces evm owner (scheduled cause effects) = pushedNonces evm owner (sentActions effects) := by
  simp only [pendingNonces, scheduled, pushedNonces, sentActions, List.filterMap_filterMap]
  refine List.filterMap_congr fun effect _ => ?_
  cases effect <;> rfl

variable {env : Env} {before after middle : Contract} {request : Request} {owner : Name}

theorem processTx_counts {rc : RuntimeConfig} {miner : Name} {txn : Txn} {minPrice : Option Nat}
    (fresh : before.effects = []) (processed : processTx env rc miner txn minPrice before = .ok after) :
    ∃ tx, txn.getTx env.evm = .ok tx ∧ after.nextnonces = before.nextnonces ∧
      executedNonces owner after.effects =
        (if env.evm.recoverSender tx = some (makeReservedAddress owner) then [tx.nonce] else []) ∧
      pushedNonces env.evm owner (sentActions after.effects) = [] := by
  obtain ⟨tx, sender, payments, decoded, recovered, _, _, effects, paid⟩ := processTx_effects processed
  refine ⟨tx, decoded, (Contract.processTx_opened processed).2, ?_, ?_⟩
  · rw [effects, fresh, List.nil_append, executedNonces_append, executedNonces_sent, List.nil_append, recovered]
    simp only [executedNonces, Effect.nonceOf, ConfigWrapper.execution, List.filterMap_cons, List.filterMap_nil,
      Option.some.injEq]
    split <;> rename_i same <;> split at same <;> simp_all
  · refine List.filterMap_eq_nil_iff.mpr ?_
    intro action member
    cases action with
    | pushtx miner rlptx => exact absurd member (processTx_pushes fresh processed)
    | _ => rfl

theorem nextNonce_put (nextnonces : Table Name Nat) (account other : Name) (nonce : Nat) :
    nextNonce other (nextnonces.put account nonce) = if account = other then nonce else nextNonce other nextnonces := by
  rw [nextNonce, Table.get?_put]
  split <;> rfl

theorem Contract.Bridges.counts {payer : Option Name} {tx : Transaction} (signs : env.evm.Signs)
    (bridges : Bridges env before request payer tx middle) (owner : Name) :
    if env.evm.recoverSender tx = some (makeReservedAddress owner) then
      tx.nonce = u64 (nextNonce owner before.nextnonces) ∧
        nextNonce owner middle.nextnonces = nextNonce owner before.nextnonces + 1
    else nextNonce owner middle.nextnonces = nextNonce owner before.nextnonces := by
  have named : ∀ account nonce nonces, before.nextnonces.get? account = some nonce →
      tx.nonce = u64 nonce → env.evm.recoverSender tx = some (makeReservedAddress account) →
      nonces = before.nextnonces.put account (nonce + 1) →
      if env.evm.recoverSender tx = some (makeReservedAddress owner) then
        tx.nonce = u64 (nextNonce owner before.nextnonces) ∧
          nextNonce owner nonces = nextNonce owner before.nextnonces + 1
      else nextNonce owner nonces = nextNonce owner before.nextnonces := by
    rintro account nonce nonces found numbered recovered rfl
    rw [recovered, nextNonce_put]
    by_cases same : account = owner
    · subst same
      simp [nextNonce, found, numbered]
    · have distinct : ¬ makeReservedAddress account = makeReservedAddress owner :=
        fun equal => same (makeReservedAddress_injective equal)
      simp [distinct, same]
  cases bridges with
  | call _ _ sender _ _ _ _ nonce _ _ next made =>
      have form := made.isBridge (name_lt _)
      rw [refreshPrices_eq]
      exact named sender nonce _ next form.nonce (signs.named tx sender form.r form.s) rfl
  | callotherpay _ _ _ sender _ _ _ _ nonce _ _ _ next made =>
      have form := made.isBridge (name_lt _)
      rw [refreshPrices_eq]
      exact named sender nonce _ next form.nonce (signs.named tx sender form.r form.s) rfl
  | admincall _ _ _ _ _ _ _ nonce address _ numbered _ numbers made =>
      have form := made.isBridge (paddedAddress_lt _)
      rw [refreshPrices_eq]
      have recovered := signs.padded tx address form.r form.s
      rcases adminNonce_cases numbers with ⟨account, rfl, counted⟩ | ⟨ordinary, rfl⟩
      · obtain ⟨next, rfl⟩ := getAndIncrementNonce_ok counted
        exact named account nonce _ next form.nonce recovered rfl
      · simp [recovered, ordinary owner]
  | ingress _ _ _ _ nonce _ received recorded deposited records next made =>
      have form := made.isBridge
      exact named env.self nonce _ next form.nonce (signs.named tx env.self form.r form.s) rfl

def Request.nonceOf (evm : Silkworm) (owner : Name) : Request → Option Nat
  | .action _ _ (.pushtx miner rlptx _) => (Inline.pushtx miner rlptx).nonceOf evm owner
  | _ => none

/-- What handling a request does to the counter of an account and to its transactions. -/
inductive Counts (env : Env) (owner : Name) (before after : Contract) (request : Request) : Prop
  | quiet (unpushed : request.nonceOf env.evm owner = none)
      (next : nextNonce owner after.nextnonces = nextNonce owner before.nextnonces)
      (executed : executedNonces owner after.effects = [])
      (pushed : pushedNonces env.evm owner (sentActions after.effects) = [])
  | ran (unpushed : request.nonceOf env.evm owner = none)
      (next : nextNonce owner after.nextnonces = nextNonce owner before.nextnonces + 1)
      (executed : executedNonces owner after.effects = [u64 (nextNonce owner before.nextnonces)])
      (pushed : pushedNonces env.evm owner (sentActions after.effects) = [])
  | sent (miner : Name) (rlptx : Bytes) (unpushed : request.nonceOf env.evm owner = none)
      (next : nextNonce owner after.nextnonces = nextNonce owner before.nextnonces + 1)
      (effects : after.effects = [.sent (.pushtx miner rlptx)])
      (pushed : (Inline.pushtx miner rlptx).nonceOf env.evm owner = some (u64 (nextNonce owner before.nextnonces)))
      (inactive : before.config.getEvmVersion env.now = 0) (own : request.notifies = true → owner = env.self)
  | pushed (nonce : Nat) (own : env.sender = some env.self) (numbered : request.nonceOf env.evm owner = some nonce)
      (next : nextNonce owner after.nextnonces = nextNonce owner before.nextnonces)
      (executed : executedNonces owner after.effects = [nonce])
      (pushed : pushedNonces env.evm owner (sentActions after.effects) = [])

theorem Contract.Bridges.version {payer : Option Name} {tx : Transaction}
    (bridges : Bridges env before request payer tx middle) :
    (middle.config.promoteEvmVersion env.now).1 = before.config.getEvmVersion env.now := by
  obtain ⟨start, started, refreshed⟩ := bridges.config
  rw [ConfigWrapper.promoteEvmVersion_fst, refreshed, ConfigWrapper.getEvmVersion_refresh]
  rcases started with rfl | rfl
  · rfl
  · exact ConfigWrapper.getEvmVersion_promoteEvmVersion _ _

theorem Contract.Bridges.own {payer : Option Name} {tx : Transaction} (signs : env.evm.Signs)
    (bridges : Bridges env before request payer tx middle) (notifies : request.notifies = true)
    (recovered : env.evm.recoverSender tx = some (makeReservedAddress owner)) : owner = env.self := by
  cases bridges with
  | ingress _ _ _ _ nonce _ _ _ _ _ _ made =>
      have form := made.isBridge
      rw [signs.named tx env.self form.r form.s, Option.some.injEq] at recovered
      exact (makeReservedAddress_injective recovered).symm
  | _ => cases notifies

theorem Contract.Bridges.unpushed {payer : Option Name} {tx : Transaction} (evm : Silkworm) (owner : Name)
    (bridges : Bridges env before request payer tx middle) : request.nonceOf evm owner = none := by
  cases bridges <;> rfl

theorem Contract.Quiet.counts (quiet : Quiet before after) (unpushed : request.nonceOf env.evm owner = none) :
    Counts env owner before after request := by
  refine .quiet unpushed (quiet.nonces owner) ?_ ?_
  · refine List.filterMap_eq_nil_iff.mpr ?_
    intro effect member
    have silent := quiet.silent effect member
    cases effect with
    | ran => cases silent
    | sent => rfl
  · refine List.filterMap_eq_nil_iff.mpr ?_
    intro action member
    have silent := quiet.silent _ (mem_sentActions.mp member)
    cases action with
    | pushtx => cases silent
    | _ => rfl

theorem processTx_ordinary {rc : RuntimeConfig} {miner : Name} {txn : Txn} {minPrice : Option Nat} {tx : Transaction}
    (signs : env.evm.Signs) (strict : rc.allowSpecialSignature = false) (decoded : txn.getTx env.evm = .ok tx)
    (processed : processTx env rc miner txn minPrice before = .ok after) :
    env.evm.recoverSender tx ≠ some (makeReservedAddress owner) := by
  intro recovered
  obtain ⟨_, _, _, _, _, _, _, _, again, _, _, _, _, executed, _⟩ := processTx_ok processed
  rw [decoded] at again
  cases again
  obtain ⟨_, _, begun, _⟩ := executeTx_ok executed
  obtain ⟨_, _, _, prepared, _⟩ := beginTx_ok begun
  have special : tx.isSpecialSignature = true := by
    simp [Transaction.isSpecialSignature, signs.reserved tx owner recovered]
  simp [prepareSender, special, strict] at prepared

theorem pushes_counts {caller : Option Name} {auths : List Name} {miner : Name} {rlptx : Bytes}
    {minPrice : Option Nat} (signs : env.evm.Signs) (fresh : before.effects = [])
    (processed : processTx env (Contract.pushtxConfig env) miner (.ofRlp rlptx) minPrice (refreshPrices env before) =
      .ok after) : Counts env owner before after (.action caller auths (.pushtx miner rlptx minPrice)) := by
  have start : (refreshPrices env before).effects = [] := by
    rw [Contract.refreshPrices_eq]
    exact fresh
  obtain ⟨tx, read, nonces, executed, pushed⟩ := processTx_counts start processed
  rw [Contract.refreshPrices_eq] at nonces
  have decoded : env.evm.decodeTransaction rlptx = some tx := (require_ok _ _ _).mp read
  split at executed
  · rename_i recovered
    refine .pushed tx.nonce ?_ ?_ (congrArg (nextNonce owner) nonces) executed pushed
    · by_contra other
      exact processTx_ordinary signs (by rw [Contract.pushtxConfig, if_neg other]) read processed recovered
    · simp [Request.nonceOf, Inline.nonceOf, decoded, recovered]
  · rename_i other
    refine .quiet ?_ (congrArg (nextNonce owner) nonces) executed pushed
    simp [Request.nonceOf, Inline.nonceOf, decoded, other]

theorem Contract.Bridges.dispatched_counts {payer : Option Name} {tx : Transaction} (signs : env.evm.Signs)
    (fresh : before.effects = []) (bridges : Bridges env before request payer tx middle)
    (dispatched : dispatchTx env (bridgeConfig payer) tx middle = .ok after) :
    Counts env owner before after request := by
  have counts := bridges.counts signs owner
  have unpushed := bridges.unpushed env.evm owner
  obtain ⟨same, nonce, s, form⟩ := bridges.effects
  rcases dispatchTx_ok dispatched with ⟨_, processed⟩ | ⟨inactive, _, rfl⟩
  · obtain ⟨_, ⟨⟩, nonces, executed, pushed⟩ := processTx_counts (by exact same.trans fresh) processed
    have next : nextNonce owner after.nextnonces = nextNonce owner middle.nextnonces := by rw [nonces]
    split at counts
    · rename_i recovered
      rw [if_pos recovered, counts.1] at executed
      exact .ran unpushed (next.trans counts.2) executed pushed
    · rename_i other
      rw [if_neg other] at executed
      exact .quiet unpushed (next.trans counts) executed pushed
  · have effects : ({ middle with config := (middle.config.promoteEvmVersion env.now).2 }.emit
        (.pushtx env.self (env.evm.encodeTransaction tx))).effects =
        [.sent (.pushtx env.self (env.evm.encodeTransaction tx))] := by
      simp only [emit, same, fresh, List.nil_append]
    have numbered : (Inline.pushtx env.self (env.evm.encodeTransaction tx)).nonceOf env.evm owner =
        if env.evm.recoverSender tx = some (makeReservedAddress owner) then some tx.nonce else none := by
      rw [Inline.nonceOf, signs.decoded tx nonce s form, Option.bind_some]
    split at counts
    · rename_i recovered
      refine .sent _ _ unpushed counts.2 effects
        (by rw [numbered, if_pos recovered, counts.1]) (bridges.version ▸ inactive) ?_
      exact fun notifies => bridges.own signs notifies recovered
    · rename_i other
      rw [if_neg other] at numbered
      refine .quiet unpushed counts ?_ ?_
      · rw [effects]
        rfl
      · rw [effects, pushedNonces, sentActions, List.filterMap_cons, List.filterMap_nil, List.filterMap_cons, numbered]
        rfl

theorem Contract.Does.of_pushtx {caller : Option Name} {auths : List Name} {miner : Name} {rlptx : Bytes}
    {minPrice : Option Nat} (did : Does env before (.action caller auths (.pushtx miner rlptx minPrice)) after) :
    processTx env (pushtxConfig env) miner (.ofRlp rlptx) minPrice (refreshPrices env before) = .ok after := by
  cases did with
  | configures _ _ _ _ configured => cases configured
  | idles _ harmless => exact harmless.elim
  | announces _ _ _ event => exact absurd event (by simp)
  | lists _ _ _ _ _ listing => exact listing.elim
  | opens _ _ _ _ _ _ opening => exact opening.elim
  | edits _ _ _ _ editing => exact editing.elim
  | pushes _ _ _ _ _ _ _ processed => exact processed
  | bridges _ _ _ _ _ _ bridges => cases bridges

theorem Contract.Does.counts (signs : env.evm.Signs) (fresh : before.effects = [])
    (did : Does env before request after) (owner : Name) : Counts env owner before after request := by
  by_cases unpushed : request.nonceOf env.evm owner = none
  · rcases did.quiet_or fresh with quiet | ⟨caller, auths, miner, rlptx, minPrice, rfl, processed⟩ |
      ⟨payer, tx, middle, bridges, dispatched⟩
    · exact quiet.counts unpushed
    · exact pushes_counts signs fresh processed
    · exact bridges.dispatched_counts signs fresh dispatched
  · unfold Request.nonceOf at unpushed
    split at unpushed
    · exact pushes_counts signs fresh did.of_pushtx
    · exact absurd rfl unpushed

variable {host : Host} {world next final : World} {view : ChainView} {others later : List Request}
  {rest : List Pending} {holding : Name → Symbol → Nat} {contract : Contract}

theorem World.Unforged.mono (unforged : final.Unforged host) (recorded : world.history ⊆ final.history) :
    world.Unforged host :=
  fun callback output requested member => unforged callback output requested (recorded member)

theorem World.Traced.top_nonce (traced : world.Traced host) (unforged : world.Unforged host)
    (handled : Handled host view others later request rest holding contract world)
    (counts : Counts (host.env view world.now request) owner world.contract contract request) :
    pendingNonces host.evm owner world.stack =
      (request.nonceOf host.evm owner).toList ++ pendingNonces host.evm owner rest := by
  rcases handled.top.stack_eq with arriving | ⟨sent, leaving, here, unpacked⟩
  · rw [arriving]
    have unpushed : request.nonceOf host.evm owner = none := by
      cases counts with
      | pushed nonce own =>
          have foreign := traced.requests _ (arriving ▸ List.mem_cons_self ..)
          cases request with
          | transfer => rfl
          | action caller auths requested =>
              have claimed : caller = some host.self := own
              simp [Request.isForeign, claimed] at foreign
      | quiet unpushed => exact unpushed
      | ran unpushed => exact unpushed
      | sent _ _ unpushed => exact unpushed
    rw [unpushed]
    rfl
  · have same : sent.action.nonceOf host.evm owner = request.nonceOf host.evm owner := by
      cases request with
      | transfer =>
          obtain ⟨action, _⟩ := Inline.request_transfer unpacked
          rw [action]
          rfl
      | action caller auths requested =>
          cases requested with
          | pushtx miner rlptx minPrice =>
              rcases traced.sent_cases unforged leaving here unpacked rfl with
                ⟨_, _, ⟨⟩⟩ | ⟨_, _, ⟨⟩⟩ | ⟨_, _, action, ⟨⟩⟩
              rw [action]
              rfl
          | _ =>
              cases action : sent.action with
              | pushtx =>
                  rw [action] at unpacked
                  cases unpacked
              | _ => rfl
    rw [leaving, ← same, pendingNonces, List.filterMap_cons, Pending.nonceOf]
    cases sent.action.nonceOf host.evm owner <;> rfl

/-- The nonces of an account's transactions, those that ran and then those that are pending. -/
def World.noncesOf (host : Host) (world : World) (owner : Name) : List Nat :=
  executedNonces owner world.history ++ pendingNonces host.evm owner world.stack

theorem World.pendingNonces_handled (owner : Name) :
    pendingNonces host.evm owner (world.handled others later request rest holding contract).stack =
      pushedNonces host.evm owner (sentActions contract.effects) ++ pendingNonces host.evm owner rest := by
  simp [World.handled]

theorem World.executedNonces_handled (owner : Name) :
    executedNonces owner (world.handled others later request rest holding contract).history =
      executedNonces owner world.history ++ executedNonces owner contract.effects :=
  executedNonces_append _ _ _

/-- The nonces that an account's transactions took, in the order of its counter. -/
def noncesTaken (owner : Name) (nextnonces : Table Name Nat) : List Nat :=
  (List.range (nextNonce owner nextnonces)).map u64

theorem noncesTaken_of_le {nextnonces : Table Name Nat} (small : nextNonce owner nextnonces ≤ 2 ^ 64) :
    noncesTaken owner nextnonces = List.range (nextNonce owner nextnonces) := by
  refine (List.map_congr_left fun nonce member => ?_).trans (List.map_id _)
  exact u64_of_lt ((List.mem_range.mp member).trans_le small)

theorem noncesTaken_same {before after : Table Name Nat} (same : nextNonce owner after = nextNonce owner before) :
    noncesTaken owner after = noncesTaken owner before := by
  rw [noncesTaken, same, noncesTaken]

theorem noncesTaken_next {before after : Table Name Nat} (next : nextNonce owner after = nextNonce owner before + 1) :
    noncesTaken owner after = noncesTaken owner before ++ [u64 (nextNonce owner before)] := by
  rw [noncesTaken, next, List.range_succ, List.map_append, noncesTaken, List.map_singleton]

def World.Numbered (host : Host) (owner : Name) (world : World) : Prop :=
  (world.noncesOf host owner).Perm (noncesTaken owner world.tables.nextnonces)

theorem perm_insert {front back all : List Nat} (nonce : Nat) (same : (front ++ back).Perm all) :
    (front ++ ([nonce] ++ back)).Perm (all ++ [nonce]) := by
  have moved : (front ++ ([nonce] ++ back)).Perm (front ++ (back ++ [nonce])) := List.perm_append_comm.append_left front
  rw [← List.append_assoc front back] at moved
  exact moved.trans (same.append_right _)

theorem World.Numbered.handled (signs : host.evm.Signs) (traced : world.Traced host) (unforged : world.Unforged host)
    (numbered : world.Numbered host owner)
    (handled : Handled host view others later request rest holding contract world) :
    (world.handled others later request rest holding contract).Numbered host owner := by
  have counts := (Request.run_does handled.ran).counts signs rfl owner
  have top := traced.top_nonce unforged handled counts
  have next : (world.handled others later request rest holding contract).tables.nextnonces = contract.nextnonces := rfl
  have loaded : (Contract.load world.tables).nextnonces = world.tables.nextnonces := rfl
  unfold World.Numbered World.noncesOf at numbered ⊢
  rw [top] at numbered
  rw [executedNonces_handled, pendingNonces_handled, next]
  cases counts with
  | quiet unpushed same ran pushed =>
      rw [Host.env_evm] at unpushed pushed
      rw [unpushed] at numbered
      rw [ran, pushed, noncesTaken_same same, List.append_nil]
      exact numbered
  | ran unpushed more ran pushed =>
      rw [Host.env_evm] at unpushed pushed
      rw [unpushed] at numbered
      rw [ran, pushed, noncesTaken_next more, loaded, List.nil_append, List.append_assoc]
      exact perm_insert _ numbered
  | sent miner rlptx unpushed more effects pushed =>
      rw [Host.env_evm] at unpushed pushed
      rw [unpushed] at numbered
      obtain ⟨silent, one⟩ := nonces_of_pushtx effects pushed
      rw [one, silent, noncesTaken_next more, loaded, List.append_nil]
      exact perm_insert _ numbered
  | pushed nonce own pushing same ran pushed =>
      rw [Host.env_evm] at pushing pushed
      rw [pushing] at numbered
      rw [ran, pushed, noncesTaken_same same, List.append_assoc]
      exact numbered

theorem World.Numbered.step (signs : host.evm.Signs) {label : Label} (traced : world.Traced host)
    (unforged : world.Unforged host) (numbered : world.Numbered host owner)
    (stepped : Stepped host world label next) : next.Numbered host owner := by
  cases stepped with
  | tick => exact numbered
  | submit requests idle foreign =>
      have idled : pendingNonces host.evm owner world.stack = [] := by rw [idle]; rfl
      simpa [World.Numbered, World.noncesOf, idled] using numbered
  | passed view before after sent rest top away foreign =>
      have unpushed : sent.action.nonceOf host.evm owner = none := Inline.nonceOf_foreign away
      have popped : pendingNonces host.evm owner world.stack = pendingNonces host.evm owner rest := by
        rw [top, pendingNonces, List.filterMap_cons, Pending.nonceOf, unpushed]
        rfl
      simpa [World.Numbered, World.noncesOf, popped] using numbered
  | handled view before after request rest holding contract handled => exact numbered.handled signs traced unforged handled

/-- An account's transactions run in the order of their nonces, and only the action on top
of the stack can be one of them. -/
structure World.InOrder (host : Host) (owner : Name) (world : World) : Prop where
  nonces : world.noncesOf host owner = noncesTaken owner world.tables.nextnonces
  top : ∀ pending rest, world.stack = pending :: rest → pendingNonces host.evm owner rest = []

theorem pendingNonces_tail {evm : Silkworm} {stack rest : List Pending} {pending : Pending}
    (none : pendingNonces evm owner stack = []) (split : stack = pending :: rest) :
    pendingNonces evm owner rest = [] := by
  rw [split, pendingNonces, List.filterMap_cons] at none
  split at none
  · exact none
  · cases none

/-- No account that is told of a transfer before the contract acts on it in version 0. -/
def Label.calm (world : World) : Label → Bool
  | .next _ before _ => before.isEmpty || decide (1 ≤ world.config.getEvmVersion world.now)
  | _ => true

theorem World.InOrder.handled (signs : host.evm.Signs) (traced : world.Traced host) (unforged : world.Unforged host)
    (ordered : world.InOrder host owner)
    (calm : owner ≠ host.self ∨ Label.calm world (.next view others later) = true)
    (handled : Handled host view others later request rest holding contract world) :
    (world.handled others later request rest holding contract).InOrder host owner := by
  have counts := (Request.run_does handled.ran).counts signs rfl owner
  have top := traced.top_nonce unforged handled counts
  have below : pendingNonces host.evm owner rest = [] := by
    rcases handled.top.stack_eq with arriving | ⟨sent, leaving, _⟩
    · exact ordered.top _ _ arriving
    · exact ordered.top _ _ leaving
  have next : (world.handled others later request rest holding contract).tables.nextnonces = contract.nextnonces := rfl
  have loaded : (Contract.load world.tables).nextnonces = world.tables.nextnonces := rfl
  have pending : pendingNonces host.evm owner (world.handled others later request rest holding contract).stack =
      pushedNonces host.evm owner (sentActions contract.effects) := by
    rw [World.pendingNonces_handled, below, List.append_nil]
  have nonces := ordered.nonces
  rw [World.noncesOf, top, below, List.append_nil] at nonces
  -- when nothing is sent, nothing is pending for the account any more
  have unsent : pushedNonces host.evm owner (sentActions contract.effects) = [] →
      ∀ pending rest', (world.handled others later request rest holding contract).stack = pending :: rest' →
        pendingNonces host.evm owner rest' = [] :=
    fun none _ _ split => pendingNonces_tail (pending.trans none) split
  cases counts with
  | quiet unpushed same ran pushed =>
      rw [Host.env_evm] at unpushed pushed
      refine ⟨?_, unsent pushed⟩
      rw [World.noncesOf, World.executedNonces_handled, pending, ran, pushed, next, noncesTaken_same same, loaded,
        ← nonces, unpushed, List.append_nil]
      rfl
  | ran unpushed more ran pushed =>
      rw [Host.env_evm] at unpushed pushed
      refine ⟨?_, unsent pushed⟩
      rw [World.noncesOf, World.executedNonces_handled, pending, ran, pushed, next, noncesTaken_next more, loaded,
        ← nonces, unpushed]
      simp
  | pushed nonce own pushing same ran pushed =>
      rw [Host.env_evm] at pushing pushed
      refine ⟨?_, unsent pushed⟩
      rw [World.noncesOf, World.executedNonces_handled, pending, ran, pushed, next, noncesTaken_same same, loaded,
        ← nonces, pushing]
      simp
  | sent miner rlptx unpushed more effects pushed inactive own =>
      rw [Host.env_evm] at unpushed pushed
      obtain ⟨silent, one⟩ := nonces_of_pushtx effects pushed
      have first : others = [] := by
        rcases handled.notified with notifies | quiet
        · have version : world.config.getEvmVersion world.now = 0 := inactive
          have obeyed := calm.resolve_left (not_not.mpr (own notifies))
          simpa [Label.calm, version] using obeyed
        · exact quiet.1
      refine ⟨?_, ?_⟩
      · rw [World.noncesOf, World.executedNonces_handled, pending, one, silent, next, noncesTaken_next more, loaded,
          ← nonces, unpushed]
        simp
      · intro top' rest' split
        rw [World.handled, first, effects] at split
        have tail : rest' = later.map .request ++ rest := (List.cons.inj split).2.symm
        rw [tail, pendingNonces_append, pendingNonces_requests, below]
        rfl

theorem World.InOrder.step (signs : host.evm.Signs) {label : Label} (traced : world.Traced host)
    (unforged : world.Unforged host) (ordered : world.InOrder host owner)
    (calm : owner ≠ host.self ∨ Label.calm world label = true) (stepped : Stepped host world label next) :
    next.InOrder host owner := by
  cases stepped with
  | tick => exact ⟨ordered.nonces, ordered.top⟩
  | submit requests idle foreign =>
      have idled : pendingNonces host.evm owner world.stack = [] := by rw [idle]; rfl
      have nonces := ordered.nonces
      rw [World.noncesOf, idled] at nonces
      refine ⟨?_, fun _ _ split => pendingNonces_tail (pendingNonces_requests ..) split⟩
      rw [World.noncesOf, pendingNonces_requests, nonces]
  | passed view before after sent rest top away foreign =>
      have below := ordered.top _ _ top
      have unpushed : sent.action.nonceOf host.evm owner = none := Inline.nonceOf_foreign away
      have popped : pendingNonces host.evm owner world.stack = [] := by
        rw [top, pendingNonces, List.filterMap_cons, Pending.nonceOf, unpushed]
        exact below
      have none : pendingNonces host.evm owner (before.map .request ++ after.map .request ++ rest) = [] := by
        simp [below]
      have nonces := ordered.nonces
      rw [World.noncesOf, popped] at nonces
      refine ⟨?_, fun _ _ split => pendingNonces_tail none split⟩
      rw [World.noncesOf, none, nonces]
  | handled view before after request rest holding contract handled =>
      exact ordered.handled signs traced unforged calm handled

/-- The library refuses a transaction with the largest nonce. -/
structure Silkworm.Limits (evm : Silkworm) : Prop where
  numbered : ∀ header chainId gasParams tx, evm.preValidateTransaction header chainId gasParams tx = .ok →
    tx.nonce + 1 < 2 ^ 64

theorem processTx_limited {rc : RuntimeConfig} {miner : Name} {txn : Txn} {minPrice : Option Nat}
    (limits : env.evm.Limits) (fresh : before.effects = [])
    (processed : processTx env rc miner txn minPrice before = .ok after) :
    ∀ nonce ∈ executedNonces owner after.effects, nonce + 1 < 2 ^ 64 := by
  obtain ⟨tx, decoded, _, nonces, _⟩ := processTx_counts fresh processed
  obtain ⟨_, _, _, _, _, _, _, _, again, _, _, _, _, executed, _⟩ := processTx_ok processed
  rw [decoded] at again
  cases again
  obtain ⟨_, _, begun, _⟩ := executeTx_ok executed
  have small := limits.numbered _ _ _ _ (beginTx_preValidated begun)
  intro nonce member
  rw [nonces] at member
  split at member
  · rw [List.mem_singleton.mp member]
    exact small
  · cases member

theorem Contract.Does.limited (limits : env.evm.Limits) (fresh : before.effects = [])
    (did : Does env before request after) : ∀ nonce ∈ executedNonces owner after.effects, nonce + 1 < 2 ^ 64 := by
  rcases did.quiet_or fresh with quiet | ⟨_, _, _, _, _, _, processed⟩ | ⟨payer, tx, middle, bridges, dispatched⟩
  · intro nonce member
    obtain ⟨effect, inside, numbered⟩ := List.mem_filterMap.mp member
    have silent := quiet.silent effect inside
    cases effect with
    | ran => cases silent
    | sent => cases numbered
  · refine processTx_limited limits ?_ processed
    rw [refreshPrices_eq]
    exact fresh
  · obtain ⟨same, _⟩ := bridges.effects
    rcases dispatchTx_ok dispatched with ⟨_, processed⟩ | ⟨_, _, rfl⟩
    · exact processTx_limited limits (by exact same.trans fresh) processed
    · simp [emit, same, fresh, executedNonces, Effect.nonceOf]

/-- No transaction with the largest nonce has run. -/
theorem run_limited {labels : List Label} (limits : host.evm.Limits)
    (finished : run host labels (World.start holding) = .ok world) (owner : Name) :
    ∀ nonce ∈ executedNonces owner world.history, nonce + 1 < 2 ^ 64 := by
  refine run_invariant (fun reached => ∀ nonce ∈ executedNonces owner reached.history, nonce + 1 < 2 ^ 64) ?_
    (fun _ member => by cases member) finished
  intro current label reached _ small stepped
  cases stepped with
  | tick | submit | passed => exact small
  | handled view before after request rest holding contract handled =>
      intro nonce member
      rw [World.executedNonces_handled] at member
      rcases List.mem_append.mp member with old | new
      · exact small nonce old
      · exact (Request.run_does handled.ran).limited limits rfl nonce new

theorem largest_mem_noncesTaken {nextnonces : Table Name Nat} (passed : 2 ^ 64 ≤ nextNonce owner nextnonces) :
    2 ^ 64 - 1 ∈ noncesTaken owner nextnonces :=
  List.mem_map.mpr ⟨2 ^ 64 - 1, List.mem_range.mpr (by omega), u64_of_lt (by omega)⟩

theorem World.Numbered.nextNonce_lt (numbered : world.Numbered host owner)
    (small : ∀ nonce ∈ executedNonces owner world.history, nonce + 1 < 2 ^ 64) (idle : world.stack = []) :
    nextNonce owner world.tables.nextnonces < 2 ^ 64 := by
  by_contra passed
  rw [World.Numbered, World.noncesOf, idle] at numbered
  have ran := (numbered.mem_iff).mpr (largest_mem_noncesTaken (Nat.le_of_not_lt passed))
  rw [pendingNonces, List.filterMap_nil, List.append_nil] at ran
  have accepted := small _ ran
  omega

theorem World.InOrder.nextNonce_le (ordered : world.InOrder host owner)
    (small : ∀ nonce ∈ executedNonces owner world.history, nonce + 1 < 2 ^ 64) :
    nextNonce owner world.tables.nextnonces ≤ 2 ^ 64 := by
  by_contra passed
  have one : (pendingNonces host.evm owner world.stack).length ≤ 1 := by
    cases split : world.stack with
    | nil => exact Nat.zero_le _
    | cons pending rest =>
        have below := ordered.top pending rest split
        rw [pendingNonces] at below
        rw [pendingNonces, List.filterMap_cons]
        split <;> simp [below]
  have nonces := ordered.nonces
  have length := congrArg List.length nonces
  simp only [World.noncesOf, noncesTaken, List.length_append, List.length_map, List.length_range] at length
  have ran : (executedNonces owner world.history)[2 ^ 64 - 1]? = some (2 ^ 64 - 1) := by
    rw [← List.getElem?_append_left (by omega), ← World.noncesOf, nonces, noncesTaken, List.getElem?_map,
      List.getElem?_range (by omega), Option.map_some, u64_of_lt (by omega)]
  have accepted := small _ (List.mem_of_getElem? ran)
  omega

/-- A request to initialise the contract. -/
def Request.isInit : Request → Bool
  | .action _ _ (.init _ _ _) => true
  | _ => false

/-- `init` makes the row of the tokens inside the EVM. -/
theorem Request.run_init (initial : request.isInit = true) (ran : request.run env before = .ok after) :
    after.funds.inevm.isSome = true := by
  unfold Request.isInit at initial
  split at initial
  · simp only [Request.run, Action.run, Contract.init, bind_ok] at ran
    obtain ⟨_, _, _, _, _, _, _, _, _, _, opening⟩ := ran
    rw [(Contract.openInternalBalance_opened opening).1]
    rfl
  · cases initial

theorem Stepped.opened {label : Label} (stepped : Stepped host world label next)
    (opened : world.contract.Opened host.self) :
    next.contract.Opened host.self ∧
      (world.tables.funds.inevm.isSome = true → next.tables.funds.inevm.isSome = true) := by
  cases stepped with
  | tick | submit | passed => exact ⟨opened, id⟩
  | handled view before after request rest holding contract handled =>
      obtain ⟨kept, evm⟩ := (Request.run_does handled.ran).opened opened
      exact ⟨⟨kept.counted, kept.own⟩, evm⟩

theorem opened_start (host : Host) (holding : Name → Symbol → Nat) :
    (World.start holding).contract.Opened host.self :=
  ⟨fun _ isOpen => (by cases isOpen), fun counted => (by cases counted)⟩

theorem traced_start (host : Host) (holding : Name → Symbol → Nat) : (World.start holding).Traced host :=
  ⟨fun _ member => (by cases member), fun _ member => (by cases member)⟩

theorem run_numbered {labels : List Label} (signs : host.evm.Signs)
    (finished : run host labels (World.start holding) = .ok world) (unforged : world.Unforged host) (owner : Name) :
    world.Numbered host owner := by
  have held : world.Traced host ∧ world.Numbered host owner := by
    refine run_obeyed (fun _ _ => true) (fun reached => reached.Traced host ∧ reached.Numbered host owner) ?_
      ⟨traced_start host holding, List.Perm.refl _⟩ (obeyed_true labels _) finished
    rintro current label reached _ recorded ⟨traced, numbered⟩ stepped
    have known := unforged.mono (List.Subset.trans stepped.history_subset recorded)
    exact ⟨traced.step stepped, numbered.step signs traced known stepped⟩
  exact held.2

theorem run_inOrder {labels : List Label} (signs : host.evm.Signs)
    (finished : run host labels (World.start holding) = .ok world) (unforged : world.Unforged host) {owner : Name}
    (calm : owner ≠ host.self ∨ obeyed host Label.calm labels (World.start holding) = true) :
    world.InOrder host owner := by
  let rule : World → Label → Bool := fun reached label => decide (owner ≠ host.self) || Label.calm reached label
  have obeys : obeyed host rule labels (World.start holding) = true := by
    rcases calm with other | obeys
    · exact obeyed_mono (fun _ _ _ => by simp [rule, other]) (obeyed_true labels _)
    · exact obeyed_mono (fun _ _ calm => by simp [rule, calm]) obeys
  have held : world.Traced host ∧ world.InOrder host owner := by
    refine run_obeyed rule (fun reached => reached.Traced host ∧ reached.InOrder host owner) ?_
      ⟨traced_start host holding, rfl, fun _ _ split => (by cases split)⟩ obeys finished
    rintro current label reached obeys recorded ⟨traced, ordered⟩ stepped
    have known := unforged.mono (List.Subset.trans stepped.history_subset recorded)
    exact ⟨traced.step stepped, ordered.step signs traced known (by simpa [rule] using obeys) stepped⟩
  exact held.2

theorem run_nonces {labels : List Label} (signs : host.evm.Signs) (limits : host.evm.Limits)
    (finished : run host labels (World.start holding) = .ok world) (unforged : world.Unforged host) {owner : Name}
    (calm : owner ≠ host.self ∨ obeyed host Label.calm labels (World.start holding) = true) :
    world.noncesOf host owner = List.range (nextNonce owner world.tables.nextnonces) := by
  have ordered := run_inOrder signs finished unforged calm
  rw [ordered.nonces, noncesTaken_of_le (ordered.nextNonce_le (run_limited limits finished owner))]

theorem run_opened {labels : List Label} (opened : world.contract.Opened host.self)
    (finished : run host labels world = .ok next) :
    next.contract.Opened host.self ∧
      (world.tables.funds.inevm.isSome = true → next.tables.funds.inevm.isSome = true) := by
  refine run_invariant (fun reached => reached.contract.Opened host.self ∧
    (world.tables.funds.inevm.isSome = true → reached.tables.funds.inevm.isSome = true)) ?_ ⟨opened, id⟩ finished
  rintro current label reached _ ⟨opened, counted⟩ stepped
  obtain ⟨kept, evm⟩ := stepped.opened opened
  exact ⟨kept, fun before => evm (counted before)⟩

/-- Once `init` was handled, the contract has a balance of its own. -/
theorem run_own {labels : List Label} (finished : run host labels (World.start holding) = .ok world)
    (initiated : guarded host (fun _ request => !request.isInit) labels (World.start holding) = false) :
    (world.tables.funds.balances.get? host.self).isSome = true := by
  obtain ⟨front, label, back, middle, reached, request, rfl, first, stepped, tail, top, ⟨view, before, after, rfl⟩,
    initial⟩ := exists_of_unguarded initiated finished
  obtain ⟨rest, holding, contract, handled, rfl⟩ := (step_ok stepped).of_topRequest top
  have opened := (run_opened (opened_start host _) first).1
  obtain ⟨kept, counted⟩ := run_opened ((step_ok stepped).opened opened).1 tail
  exact kept.own (counted (Request.run_init (by simpa using initial) handled.ran))

/-- In every run in which no callback of `exec` goes to a trusting action of the contract,
each nonce that an account's counter gave out is that of exactly one of its transactions, run or
pending. They are the nonces from zero up to the counter and run in order, except that the
contract's own may not where another account is told of a transfer first in version 0. There too
they are those up to the counter between chain transactions, and until the counter passes its 64
bits. Every open balance has a counter, and the contract has a balance once `init` was handled. -/
theorem run_nonces_counted (host : Host) (signs : host.evm.Signs) (limits : host.evm.Limits)
    (holding : Name → Symbol → Nat) (labels : List Label) (world : World)
    (finished : run host labels (World.start holding) = .ok world) (unforged : world.Unforged host) :
    (∀ owner, (world.noncesOf host owner).Perm (noncesTaken owner world.tables.nextnonces)) ∧
      (∀ owner, owner ≠ host.self ∨ obeyed host Label.calm labels (World.start holding) = true →
        world.noncesOf host owner = List.range (nextNonce owner world.tables.nextnonces)) ∧
      (∀ owner, world.stack = [] ∨ nextNonce owner world.tables.nextnonces ≤ 2 ^ 64 →
        noncesTaken owner world.tables.nextnonces = List.range (nextNonce owner world.tables.nextnonces)) ∧
      (∀ owner, (world.tables.funds.balances.get? owner).isSome = true →
        (world.tables.nextnonces.get? owner).isSome = true) ∧
      (guarded host (fun _ request => !request.isInit) labels (World.start holding) = false →
        (world.tables.funds.balances.get? host.self).isSome = true) := by
  have numbered := run_numbered signs finished unforged
  refine ⟨numbered, fun _ calm => run_nonces signs limits finished unforged calm, ?_,
    (run_opened (opened_start host holding) finished).1.counted, run_own finished⟩
  rintro owner (idle | small)
  · exact noncesTaken_of_le ((numbered owner).nextNonce_lt (run_limited limits finished owner) idle).le
  · exact noncesTaken_of_le small

namespace Ledger

theorem evm_limits : evm.Limits where
  numbered := by
    intro header chainId gasParams tx accepted
    simp only [evm] at accepted
    split at accepted
    · assumption
    · cases accepted

def answered : List Label :=
  let payment : Request := .transfer defaultTokenAccount bob self ⟨500000, eos⟩
    (bytesOf "0x0123456789012345678901234567890123456789")
  opening ++ [.submit [payment], .next Ledger.view [payment] []] ++
    List.replicate 3 (.next Ledger.view [] [])

end Ledger

/-- The second transfer runs first. -/
theorem ingress_runs_outOfOrder :
    ∃ world, run Ledger.host Ledger.answered (World.start fun _ _ => 0) = .ok world ∧ world.stack = [] ∧
      executedNonces Ledger.self world.history = [1, 0] := by
  obtain ⟨world, finished, seen⟩ := exists_of_view
    (run Ledger.host Ledger.answered (World.start fun _ _ => 0))
    (fun world => (world.stack, executedNonces Ledger.self world.history)) ([], [1, 0]) (by decide +kernel)
  obtain ⟨stack, nonces⟩ := Prod.mk.inj seen
  exact ⟨world, finished, stack, nonces⟩

theorem run_nonces_counted_reopened :
    let labels := Ledger.opening ++ Ledger.pay Ledger.alice 63 "alice" 0 ++
      Ledger.act Ledger.alice (Ledger.callNothing Ledger.alice 21000) 1 ++
      Ledger.act Ledger.alice (Ledger.callNothing Ledger.alice 21000) 1 ++
      Ledger.act Ledger.alice (.close Ledger.alice) 0 ++ Ledger.act Ledger.alice (.open Ledger.alice) 0 ++
      Ledger.pay Ledger.alice 63 "alice" 0 ++ Ledger.act Ledger.alice (Ledger.callNothing Ledger.alice 21000) 1
    ∃ world, run Ledger.host labels (World.start fun _ _ => 0) = .ok world ∧ world.Unforged Ledger.host ∧
      executedNonces Ledger.alice world.history = [0, 1, 2] ∧
      world.noncesOf Ledger.host Ledger.alice = List.range (nextNonce Ledger.alice world.tables.nextnonces) := by
  intro labels
  obtain ⟨world, finished, seen⟩ := exists_of_view (run Ledger.host labels (World.start fun _ _ => 0))
    (fun world => (executedNonces Ledger.alice world.history, world.history.all fun effect => !effect.isCallback))
    ([0, 1, 2], true) (by decide +kernel)
  obtain ⟨nonces, history⟩ := Prod.mk.inj seen
  have unforged := World.Unforged.of_silent Ledger.host history
  refine ⟨world, finished, unforged, nonces, ?_⟩
  exact (run_nonces_counted Ledger.host Ledger.evm_signs Ledger.evm_limits _ labels world finished unforged).2.1
    Ledger.alice (Or.inl (by decide +kernel))

end EosEvm

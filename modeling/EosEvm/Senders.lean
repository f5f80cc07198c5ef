import EosEvm.Nonces
import EosEvm.Books
import EosEvm.Timeline

/-! Who speaks for an account. The transactions that run for an account's reserved address are
those that the account, or the contract for it, authorised: one for each request, in the order of
the requests, and no other. -/

namespace EosEvm

open Abort

/-- A request that makes a transaction of an account's reserved address, with the authority it
takes: that of the account, for `callotherpay` of the payer too, and for `admincall` of the contract. -/
def Request.speaks (self owner : Name) : Request → Bool
  | .action _ auths (.call sender _ _ _ _) => decide (sender = owner) && auths.contains sender
  | .action _ auths (.callotherpay payer sender _ _ _ _) =>
      decide (sender = owner) && auths.contains sender && auths.contains payer
  | .action _ auths (.admincall sender _ _ _ _) =>
      decide ((toAddress sender).toOption = some (makeReservedAddress owner)) && auths.contains self
  | _ => false

def Request.isCall : Request → Bool
  | .action _ _ (.call _ _ _ _ _) => true
  | .action _ _ (.callotherpay _ _ _ _ _ _) => true
  | .action _ _ (.admincall _ _ _ _ _) => true
  | _ => false

theorem Request.speaks_of_uncalled {self owner : Name} {request : Request} (uncalled : request.isCall = false) :
    request.speaks self owner = false := by
  unfold Request.speaks
  split <;> first | rfl | cases uncalled

/-- The requests that make an account's transactions. -/
def speeches (self owner : Name) (_ : World) (request : Request) : List Request :=
  if request.speaks self owner then [request] else []

namespace Contract

variable {env : Env} {before after : Contract} {owner : Name}

theorem dispatchTx_nextnonces {rc : RuntimeConfig} {tx : Transaction}
    (dispatched : dispatchTx env rc tx before = .ok after) : after.nextnonces = before.nextnonces := by
  rcases dispatchTx_ok dispatched with ⟨_, processed⟩ | ⟨_, _, rfl⟩
  · exact (processTx_opened processed).2
  · rfl

theorem callWith_nextnonces {rc : RuntimeConfig} {s value gasLimit nonce : Nat} {recipient data : Bytes}
    (called : callWith env rc s recipient value data gasLimit nonce before = .ok after) :
    after.nextnonces = before.nextnonces := by
  rw [dispatchTx_nextnonces called, refreshPrices_eq]

theorem numbered_nextNonce {account : Name} {nonce : Nat} {numbered : Contract}
    (numbers : getAndIncrementNonce account before = .ok (nonce, numbered)) (owner : Name) :
    nextNonce owner numbered.nextnonces = nextNonce owner before.nextnonces + if account = owner then 1 else 0 := by
  obtain ⟨found, rfl⟩ := getAndIncrementNonce_ok numbers
  rw [nextNonce_put]
  split
  · rename_i same
    subst same
    rw [nextNonce, found]
    rfl
  · rfl

theorem adminNonce_nextNonce {address : Address} {nonce : Nat} {numbered : Contract}
    (numbers : adminNonce address before = .ok (nonce, numbered)) (owner : Name) :
    nextNonce owner numbered.nextnonces =
      nextNonce owner before.nextnonces + if address = makeReservedAddress owner then 1 else 0 := by
  rcases adminNonce_cases numbers with ⟨account, rfl, counted⟩ | ⟨ordinary, rfl⟩
  · rw [numbered_nextNonce counted owner]
    refine congrArg _ (if_congr ⟨fun same => by rw [same], ?_⟩ rfl rfl)
    exact fun same => makeReservedAddress_injective same
  · rw [if_neg (ordinary owner), Nat.add_zero]

theorem Does.uncalled {request : Request} (fresh : before.effects = []) (other : owner ≠ env.self)
    (uncalled : request.isCall = false) (did : Does env before request after) :
    nextNonce owner after.nextnonces = nextNonce owner before.nextnonces := by
  rcases did.quiet_or fresh with quiet | ⟨caller, auths, miner, rlptx, minPrice, rfl, processed⟩ |
    ⟨payer, tx, middle, bridges, dispatched⟩
  · exact quiet.nonces owner
  · rw [(processTx_opened processed).2, refreshPrices_eq]
  · rw [dispatchTx_nextnonces dispatched]
    cases bridges with
    | ingress => exact (nextNonce_put ..).trans (if_neg (Ne.symm other))
    | _ => cases uncalled

theorem spoken {request : Request} (fresh : before.effects = []) (other : owner ≠ env.self)
    (sees : ∀ name, name ∈ env.auths → name ∈ request.auths) (ran : request.run env before = .ok after) :
    nextNonce owner after.nextnonces =
      nextNonce owner before.nextnonces + if request.speaks env.self owner = true then 1 else 0 := by
  cases calling : request.isCall with
  | false =>
      rw [(Request.run_does ran).uncalled fresh other calling, Request.speaks_of_uncalled calling]
      rfl
  | true =>
      unfold Request.isCall at calling
      split at calling
      -- Each call takes its number before it is dispatched, so also where it is only sent.
      · rename_i caller auths sender recipient value data gasLimit
        simp only [Request.run, Action.run, call, bind_ok, requireAuth_ok, exists_const] at ran
        obtain ⟨_, _, authorised, _, _, ⟨nonce, numbered⟩, numbers, called⟩ := ran
        rw [callWith_nextnonces called, numbered_nextNonce numbers owner]
        have allowed : sender ∈ auths := sees _ authorised
        simp [Request.speaks, allowed]
      · rename_i caller auths payer sender recipient value data gasLimit
        simp only [Request.run, Action.run, callotherpay, bind_ok, requireAuth_ok, check_ok, exists_const] at ran
        obtain ⟨_, _, authorised, paying, _, _, _, ⟨nonce, numbered⟩, numbers, called⟩ := ran
        rw [callWith_nextnonces called, numbered_nextNonce numbers owner]
        have allowed : sender ∈ auths := sees _ authorised
        have paid : payer ∈ auths := sees _ paying
        simp [Request.speaks, allowed, paid, setConfig]
      · rename_i caller auths sender recipient value data gasLimit
        simp only [Request.run, Action.run, admincall, bind_ok, requireAuth_ok, check_ok, exists_const] at ran
        obtain ⟨_, _, authorised, _, _, _, address, read, ⟨nonce, numbered⟩, numbers, called⟩ := ran
        rw [callWith_nextnonces called, adminNonce_nextNonce numbers owner]
        have allowed : env.self ∈ auths := sees _ authorised
        simp [Request.speaks, allowed, read, Except.toOption]
      · cases calling

end Contract

variable {host : Host} {world : World} {owner : Name}

theorem World.counted_step {label : Label} {next : World} {journal : List Request} (other : owner ≠ host.self)
    (counted : nextNonce owner world.tables.nextnonces = journal.length) (stepped : Stepped host world label next) :
    nextNonce owner next.tables.nextnonces =
      (journal ++ entries host (speeches host.self owner) world label).length := by
  cases stepped with
  | tick | submit =>
      rw [entries, List.append_nil]
      exact counted
  | passed view before after sent rest top away =>
      rw [entries_passed _ top away, List.append_nil]
      exact counted
  | handled view before after request rest holding contract handled =>
      have sees : ∀ name, name ∈ (host.env view world.now request).auths → name ∈ request.auths := by
        cases request <;> exact fun _ member => member
      have spoken := Contract.spoken (by rfl) (by exact other) sees handled.ran
      rw [show (host.env view world.now request).self = host.self from rfl] at spoken
      rw [entries_handled _ handled, List.length_append, ← counted]
      refine spoken.trans (congrArg _ ?_)
      unfold speeches
      split <;> rfl

/-- In every run in which no callback of `exec` goes to a trusting action of the contract, the
transactions of an account's reserved address that ran, and those the contract is still to run,
are one for each request that spoke for the account with the authority it takes, numbered in the
order of these requests. -/
theorem run_senders_authorised (host : Host) (signs : host.evm.Signs) (limits : host.evm.Limits)
    (holding : Name → Symbol → Nat) (labels : List Label) (world : World)
    (finished : run host labels (World.start holding) = .ok world)
    (unforged : world.Unforged host) (owner : Name) (other : owner ≠ host.self) :
    world.noncesOf host owner =
        List.range (noted host (speeches host.self owner) labels (World.start holding)).length ∧
      (world.stack = [] → executedNonces owner world.history =
        List.range (noted host (speeches host.self owner) labels (World.start holding)).length) := by
  have ordered := run_nonces signs limits finished unforged (Or.inl other)
  have start : nextNonce owner (World.start holding).tables.nextnonces = ([] : List Request).length := rfl
  have counted := run_journal (fun _ => True) (speeches host.self owner)
    (fun world journal => nextNonce owner world.tables.nextnonces = journal.length)
    (fun _ _ _ _ _ counted stepped => World.counted_step other counted stepped) start (fun _ _ => trivial) finished
  rw [List.nil_append] at counted
  rw [counted] at ordered
  refine ⟨ordered, fun idle => ?_⟩
  rw [World.noncesOf, idle] at ordered
  simpa [pendingNonces] using ordered

theorem run_senders_authorised_threeCalls :
    ∃ world, run Ledger.host Ledger.threeCalls (World.start fun _ _ => 0) = .ok world ∧
      (noted Ledger.host (speeches Ledger.self Ledger.alice) Ledger.threeCalls (World.start fun _ _ => 0)).length = 3 ∧
      executedNonces Ledger.alice world.history = [0, 1, 2] := by
  have spoken : (noted Ledger.host (speeches Ledger.self Ledger.alice) Ledger.threeCalls
      (World.start fun _ _ => 0)).length = 3 := by decide +kernel
  obtain ⟨world, finished, seen⟩ := exists_of_view (run Ledger.host Ledger.threeCalls (World.start fun _ _ => 0))
    (fun world => (world.stack.isEmpty, world.history.all fun effect => !effect.isCallback)) (true, true)
    (by decide +kernel)
  obtain ⟨idle, history⟩ := Prod.mk.inj seen
  have unforged := World.Unforged.of_silent Ledger.host history
  obtain ⟨_, executed⟩ := run_senders_authorised Ledger.host Ledger.evm_signs Ledger.evm_limits _ _ world finished
    unforged Ledger.alice (by decide +kernel)
  refine ⟨world, finished, spoken, ?_⟩
  rw [executed (List.isEmpty_iff.mp idle), show Ledger.host.self = Ledger.self from rfl, spoken]
  rfl

end EosEvm

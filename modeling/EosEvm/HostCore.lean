import EosEvm.ActionsCore

/-! The chain around the contract. Actions run depth first: what an action sends is put
on top of the stack of pending actions. A token transfer is a token contract's action
that notifies its sender before its recipient, so that the actions sent by a notified
sender are scheduled before those the contract sends. Other contracts may do anything
except act as the contract: they send any request and never have its account as sender. -/

namespace EosEvm

open Abort

def holdingAfter (self token sender recipient : Name) (quantity : Asset) (holding : Name → Symbol → Nat) :
    Name → Symbol → Nat :=
  let held := holding token quantity.symbol
  let amount := quantity.amount.toNat
  let changed := if sender = self then held - amount else if recipient = self then held + amount else held
  Function.update holding token (Function.update (holding token) quantity.symbol changed)

/-- A token contract, known by what its transfers do to the holding of the contract. It makes none
that is empty, none to the sender, and none that the holding does not cover. -/
structure TokenContract where
  move (self token sender recipient : Name) (quantity : Asset) (holding : Name → Symbol → Nat) :
    Outcome (Name → Symbol → Nat)
  sound : ∀ {self token sender recipient quantity holding moved},
    move self token sender recipient quantity holding = .ok moved →
      0 < quantity.amount ∧ sender ≠ recipient ∧
        (sender = self → quantity.amount.toNat ≤ holding token quantity.symbol) ∧
        moved = holdingAfter self token sender recipient quantity holding

/-- The contract account, the EVM library, the token contract, and the unpacking of action
data that `exec` packed when its callback names the contract itself. -/
structure Host where
  self : Name
  evm : Silkworm
  token : TokenContract
  unpackAction : Name → ExecOutput → Option Action

/-- What an action can see of other accounts. -/
structure ChainView where
  isAccount : Name → Bool
  hasCode : Name → Bool
  tokenBalance : Name → Nat → Option Asset

/-- An action on the contract, or a transfer that notifies it. -/
inductive Request
  | action (sender : Option Name) (auths : List Name) (action : Action)
  | transfer (token sender recipient : Name) (quantity : Asset) (memo : Bytes)
  deriving DecidableEq, Repr

/-- An action the contract sent, with the request it was sent for and all that the
sending action left behind. -/
structure Sent where
  action : Inline
  cause : Request
  effects : List Effect
  deriving DecidableEq, Repr

inductive Pending
  | request (request : Request)
  | sent (sent : Sent)
  deriving DecidableEq, Repr

structure World where
  tables : Tables := {}
  holding : Name → Symbol → Nat
  stack : List Pending := []
  now : Nat := 0
  history : List Effect := []

inductive Label
  | tick (now : Nat)
  | submit (requests : List Request)
  | next (view : ChainView) (before after : List Request)

def Request.isForeign (self : Name) : Request → Bool
  | .action sender _ _ => sender != some self
  | .transfer _ sender _ _ _ => sender != self

def Host.env (host : Host) (view : ChainView) (now : Nat) (request : Request) : Env where
  self := host.self
  evm := host.evm
  now := now
  sender := match request with
    | .action sender _ _ => sender
    | .transfer _ _ _ _ _ => none
  auths := match request with
    | .action _ auths _ => auths
    | .transfer _ _ _ _ _ => []
  code := match request with
    | .action _ _ _ => host.self
    | .transfer token _ _ _ _ => token
  isAccount := view.isAccount
  hasCode := view.hasCode
  tokenBalance := view.tokenBalance

def Request.run (env : Env) : Request → Contract → Outcome Contract
  | .action _ _ requested => requested.run env
  | .transfer _ sender recipient quantity memo => Contract.transfer env sender recipient quantity memo

def Tables.tokenContract (tables : Tables) : Name := (Contract.load tables).config.cached.tokenContract

def Tables.tokenSymbol (tables : Tables) : Symbol := (Contract.load tables).config.getTokenSymbol

/-- The holding after the token part of a request. Only the configured token contract is
known to be one. -/
def Request.moved (host : Host) (world : World) : Request → Outcome (Name → Symbol → Nat)
  | .action _ _ _ => .ok world.holding
  | .transfer token sender recipient quantity _ =>
      if token = world.tables.tokenContract then
        host.token.move host.self token sender recipient quantity world.holding
      else .ok world.holding

def scheduled (cause : Request) (effects : List Effect) : List Pending :=
  effects.filterMap fun effect =>
    match effect with
    | .sent action => some (.sent { action := action, cause := cause, effects := effects })
    | .ran _ => none

/-- Handle a request; `before` and `after` are sent by the other accounts it notifies. -/
def handle (host : Host) (view : ChainView) (before after : List Request) (request : Request)
    (rest : List Pending) (world : World) : Outcome World := do
  let holding ← request.moved host world
  let contract ← request.run (host.env view world.now request) (Contract.load world.tables)
  return { world with
    tables := contract.store world.tables
    holding := holding
    stack := before.map .request ++ scheduled request contract.effects ++ after.map .request ++ rest
    history := world.history ++ contract.effects }

/-- The request that an action sent by the contract amounts to, if it is one on the
contract itself. -/
def Inline.request (host : Host) : Inline → Option Request
  | .transfer token recipient quantity memo => some (.transfer token host.self recipient quantity memo)
  | .onbridgemsg _ _ => none
  | .callback reply output =>
      (host.unpackAction reply.action output).map fun requested => .action (some host.self) [] requested
  | .configchange parameters => some (.action (some host.self) [] (.configchange parameters))
  | .evmtx _ => some (.action (some host.self) [] .evmtx)
  | .pushtx miner rlptx => some (.action (some host.self) [host.self] (.pushtx miner rlptx none))

def Inline.isForeign (self : Name) : Inline → Bool
  | .onbridgemsg handler _ => handler != self
  | .callback reply _ => reply.contract != self
  | _ => false

def Request.notifies : Request → Bool
  | .action _ _ _ => false
  | .transfer _ _ _ _ _ => true

def next (host : Host) (view : ChainView) (before after : List Request) (world : World) : Outcome World :=
  match world.stack with
  | [] => .error "nothing pending"
  | .request request :: rest => do
      check (request.notifies = true ∨ before = [] ∧ after = []) "no account is notified"
      handle host view before after request rest world
  | .sent sent :: rest =>
      if sent.action.isForeign host.self then
        return { world with stack := before.map .request ++ after.map .request ++ rest }
      else do
        let request ← require (sent.action.request host) "unknown action"
        check (request.notifies = true ∨ before = [] ∧ after = []) "no account is notified"
        handle host view before after request rest world

def step (host : Host) (world : World) : Label → Outcome World
  | .tick now => do
      check (world.stack = [] ∧ world.now ≤ now) "time is fixed"
      return { world with now := now }
  | .submit requests => do
      check (world.stack = [] ∧ requests.all (Request.isForeign host.self) = true) "not allowed"
      return { world with stack := requests.map .request }
  | .next view before after => do
      check ((before ++ after).all (Request.isForeign host.self) = true) "not allowed"
      next host view before after world

def run (host : Host) (labels : List Label) (world : World) : Outcome World :=
  foldOutcome (step host) labels world

def World.start (holding : Name → Symbol → Nat) : World := { holding := holding }

end EosEvm

import EosEvm.Lib.Agree
import EosEvm.MigrationProgress

/-! Lazy migration. A balance that still has the symbol of an earlier token behaves like the
migrated one: the operations run side by side, on the funds and on the funds in which that one
balance is renamed. Only a deposit compares the symbols. -/

namespace EosEvm

open Abort Words

namespace BalanceWithDust

variable {row : BalanceWithDust} {symbol : Symbol}

def Fits (symbol : Symbol) (row : BalanceWithDust) : Prop :=
  row.balance.symbol ≠ Symbol.none ∧ row.balance.symbol.precision = symbol.precision

def Renames (symbol : Symbol) (direct migrated : BalanceWithDust) : Prop :=
  direct.Fits symbol ∧ migrated = direct.withSymbol symbol

theorem add_agrees (named : symbol ≠ Symbol.none) (fits : row.Fits symbol) (amount : Nat) :
    Agree (Renames symbol) (row.add amount) ((row.withSymbol symbol).add amount) := by
  have checks : ∀ other : Symbol, other ≠ Symbol.none →
      check (other ≠ Symbol.none) "symbol can't be empty in balance_with_dust" = .ok () :=
    fun other => (check_ok _ _ ()).mpr
  rw [add, add, checks _ fits.1, checks _ (show (row.withSymbol symbol).balance.symbol ≠ Symbol.none from named)]
  rw [show (row.withSymbol symbol).balance.symbol.precision = row.balance.symbol.precision from fits.2.symm]
  refine .same fun _ => .same fun _ => .same fun _ => .same fun _ => .same fun _ => ?_
  exact .ok ⟨fits, rfl⟩

theorem sub_agrees (named : symbol ≠ Symbol.none) (fits : row.Fits symbol) (amount : Nat) :
    Agree (Renames symbol) (row.sub amount) ((row.withSymbol symbol).sub amount) := by
  have checks : ∀ other : Symbol, other ≠ Symbol.none →
      check (other ≠ Symbol.none) "symbol can't be empty in balance_with_dust" = .ok () :=
    fun other => (check_ok _ _ ()).mpr
  rw [sub, sub, checks _ fits.1, checks _ (show (row.withSymbol symbol).balance.symbol ≠ Symbol.none from named)]
  rw [show (row.withSymbol symbol).balance.symbol.precision = row.balance.symbol.precision from fits.2.symm]
  refine .same fun _ => .same fun unit => .same fun _ => ?_
  dsimp only [withSymbol]
  split
  · exact .same fun _ => .ok ⟨fits, rfl⟩
  · exact .ok ⟨fits, rfl⟩

end BalanceWithDust

namespace Funds

/-- The second funds are the first ones with one balance renamed. -/
structure Mirrors (owner : Name) (symbol : Symbol) (direct migrated : Funds) : Prop where
  image : migrated = { direct with balances := direct.balances.modify owner fun row => row.withSymbol symbol }
  fits : ∀ row, direct.balances.get? owner = some row → row.Fits symbol

variable {owner : Name} {symbol : Symbol} {direct migrated : Funds}

theorem Mirrors.get? (mirrors : Mirrors owner symbol direct migrated) (other : Name) :
    migrated.balances.get? other = if owner = other then (direct.balances.get? other).map fun row => row.withSymbol symbol
      else direct.balances.get? other := by
  rw [mirrors.image, Table.get?_modify]

theorem Mirrors.isSome (mirrors : Mirrors owner symbol direct migrated) (other : Name) :
    (direct.balances.get? other).isSome = (migrated.balances.get? other).isSome := by
  rw [mirrors.get?]
  split <;> simp

def Partners (owner : Name) (symbol : Symbol) (other : Name) (row changed : BalanceWithDust) : Prop :=
  (other = owner → BalanceWithDust.Renames symbol row changed) ∧ (other ≠ owner → changed = row)

theorem Partners.amounts {other : Name} {row changed : BalanceWithDust} (partners : Partners owner symbol other row changed) :
    changed.balance.amount = row.balance.amount ∧ changed.dust = row.dust := by
  by_cases mine : other = owner
  · obtain ⟨_, rfl⟩ := partners.1 mine
    exact ⟨rfl, rfl⟩
  · rw [partners.2 mine]
    exact ⟨rfl, rfl⟩

theorem Mirrors.lookup (mirrors : Mirrors owner symbol direct migrated) (other : Name) (missing : String) :
    Agree (Partners owner symbol other) (Abort.require (direct.balances.get? other) missing)
      (Abort.require (migrated.balances.get? other) missing) := by
  refine Agree.require (mirrors.isSome other) ?_
  intro row changed present stored
  rw [mirrors.get?, present] at stored
  refine ⟨?_, ?_⟩
  · rintro rfl
    rw [if_pos rfl] at stored
    exact ⟨mirrors.fits row present, (Option.some.inj stored).symm⟩
  · intro foreign
    rw [if_neg (Ne.symm foreign)] at stored
    exact (Option.some.inj stored).symm

theorem Mirrors.put (mirrors : Mirrors owner symbol direct migrated) {other : Name} {row changed : BalanceWithDust}
    (partners : Partners owner symbol other row changed) :
    Mirrors owner symbol { direct with balances := direct.balances.put other row }
      { migrated with balances := migrated.balances.put other changed } := by
  obtain ⟨rfl, fits⟩ := mirrors
  by_cases mine : other = owner
  · subst mine
    obtain ⟨fitting, rfl⟩ := partners.1 rfl
    refine ⟨?_, ?_⟩
    · refine congrArg (fun balances => { direct with balances := balances }) (Table.ext_get? fun key => ?_)
      simp only [Table.get?_put, Table.get?_modify]
      by_cases here : other = key <;> simp [here]
    · intro stored found
      rw [Table.get?_put, if_pos rfl] at found
      exact Option.some.inj found ▸ fitting
  · obtain rfl := partners.2 mine
    refine ⟨?_, ?_⟩
    · refine congrArg (fun balances => { direct with balances := balances }) (Table.ext_get? fun key => ?_)
      simp only [Table.get?_put, Table.get?_modify]
      by_cases here : other = key
      · subst here
        simp [Ne.symm mine]
      · simp [here]
    · intro stored found
      rw [Table.get?_put, if_neg mine] at found
      exact fits stored found

theorem Mirrors.update (mirrors : Mirrors owner symbol direct migrated)
    {operation : BalanceWithDust → Outcome BalanceWithDust}
    (agrees : ∀ row : BalanceWithDust, row.Fits symbol →
      Agree (BalanceWithDust.Renames symbol) (operation row) (operation (row.withSymbol symbol)))
    (other : Name) (missing : String) :
    Agree (Mirrors owner symbol)
      (do let row ← Abort.require (direct.balances.get? other) missing
          let row ← operation row
          return { direct with balances := direct.balances.put other row })
      (do let row ← Abort.require (migrated.balances.get? other) missing
          let row ← operation row
          return { migrated with balances := migrated.balances.put other row }) := by
  refine (mirrors.lookup other missing).bind fun row changed partners => ?_
  by_cases mine : other = owner
  · obtain ⟨fits, rfl⟩ := partners.1 mine
    exact (agrees row fits).bind fun _ _ renames => .ok (mirrors.put ⟨fun _ => renames, absurd mine⟩)
  · obtain rfl := partners.2 mine
    exact .same fun _ => .ok (mirrors.put ⟨fun same => absurd same mine, fun _ => rfl⟩)

variable (named : symbol ≠ Symbol.none)
include named

theorem Mirrors.credit (mirrors : Mirrors owner symbol direct migrated) (other : Name) (amount : Nat)
    (missing : String) :
    Agree (Mirrors owner symbol) (direct.credit other amount missing) (migrated.credit other amount missing) :=
  mirrors.update (fun _ fits => BalanceWithDust.add_agrees named fits amount) other missing

theorem Mirrors.debit (mirrors : Mirrors owner symbol direct migrated) (other : Name) (amount : Nat)
    (missing : String) :
    Agree (Mirrors owner symbol) (direct.debit other amount missing) (migrated.debit other amount missing) :=
  mirrors.update (fun _ fits => BalanceWithDust.sub_agrees named fits amount) other missing

omit named

theorem Mirrors.enterEvm (mirrors : Mirrors owner symbol direct migrated) (amount : Nat) :
    Agree (Mirrors owner symbol) (direct.enterEvm amount) (migrated.enterEvm amount) := by
  obtain ⟨rfl, fits⟩ := mirrors
  exact .same fun _ => .same fun _ => .ok ⟨rfl, fits⟩

theorem Mirrors.leaveEvm (mirrors : Mirrors owner symbol direct migrated) (amount : Nat) :
    Agree (Mirrors owner symbol) (direct.leaveEvm amount) (migrated.leaveEvm amount) := by
  obtain ⟨rfl, fits⟩ := mirrors
  exact .same fun _ => .same fun _ => .ok ⟨rfl, fits⟩

end Funds

section Execution

variable {owner : Name} {symbol : Symbol} {direct migrated : Funds} (named : symbol ≠ Symbol.none)
  (mirrors : Funds.Mirrors owner symbol direct migrated)
include named mirrors

theorem debitPayers_agrees (rc : RuntimeConfig) (tx : Transaction) (ingressAccount : Name) (valueWithMaxGas : Nat) :
    Agree (Funds.Mirrors owner symbol) (debitPayers rc tx ingressAccount valueWithMaxGas direct)
      (debitPayers rc tx ingressAccount valueWithMaxGas migrated) := by
  unfold debitPayers
  split
  · refine (mirrors.debit named _ _ _).bind fun _ _ paid => ?_
    split
    · exact paid.debit named _ _ _
    · exact .ok paid
  · exact mirrors.debit named _ _ _

theorem prepareSender_agrees (env : Env) (rc : RuntimeConfig) (tx : Transaction) (sender : Address) :
    Agree (Beside (Funds.Mirrors owner symbol)) (prepareSender env rc tx sender direct)
      (prepareSender env rc tx sender migrated) := by
  unfold prepareSender
  split
  · refine .same fun _ => ?_
    split
    · exact .ok ⟨mirrors, rfl⟩
    · rename_i ingressAccount _
      have charges : Agree (Beside (Funds.Mirrors owner symbol)) (chargeSender rc tx ingressAccount direct)
          (chargeSender rc tx ingressAccount migrated) := by
        refine .same fun _ => (debitPayers_agrees named mirrors _ _ _ _).bind fun _ _ charged => ?_
        exact (charged.enterEvm _).bind fun _ _ entered => .ok ⟨entered, rfl⟩
      refine charges.bind ?_
      rintro ⟨_, _⟩ ⟨_, _⟩ ⟨charged, rfl⟩
      exact .ok ⟨charged, rfl⟩
  · exact .ok ⟨mirrors, rfl⟩

theorem payMiner_agrees (miner : Name) (portion : Option Nat) (deductedMinerCut : Bool) :
    Agree (Funds.Mirrors owner symbol) (payMiner miner portion deductedMinerCut direct)
      (payMiner miner portion deductedMinerCut migrated) := by
  unfold payMiner
  split
  · exact .ok mirrors
  · exact .same fun _ => mirrors.credit named _ _ _

theorem refundGas_agrees (header : BlockHeader) (tx : Transaction) (sender : Address) (gasPayer : Option Name)
    (output : RunOutput) :
    Agree (Funds.Mirrors owner symbol) (refundGas header tx sender gasPayer output direct)
      (refundGas header tx sender gasPayer output migrated) := by
  unfold refundGas
  split
  · exact .ok mirrors
  · refine .same fun _ => .same fun _ => .same fun _ => ?_
    exact (mirrors.debit named _ _ _).bind fun _ _ taken => taken.credit named _ _ _

omit named in
theorem recordGasFee_agrees (config : ConfigWrapper) (now : Nat) (header : BlockHeader) (tx : Transaction)
    (portion : Option Nat) (fromSelf : Bool) (output : RunOutput) :
    Agree (Funds.Mirrors owner symbol) (recordGasFee config now header tx portion fromSelf output direct)
      (recordGasFee config now header tx portion fromSelf output migrated) := by
  unfold recordGasFee
  split
  · exact .ok mirrors
  · obtain ⟨rfl, fits⟩ := mirrors
    exact .same fun _ => .same fun _ => .same fun _ => .ok ⟨rfl, fits⟩

omit named in
theorem leaveTotal_agrees (totalEgress : Nat) :
    Agree (Funds.Mirrors owner symbol) (leaveTotal totalEgress direct) (leaveTotal totalEgress migrated) := by
  unfold leaveTotal
  split
  · exact .ok mirrors
  · exact mirrors.leaveEvm _

theorem debitDelivered_agrees (self : Name) (accumulated : Nat) :
    Agree (Funds.Mirrors owner symbol) (debitDelivered self accumulated direct)
      (debitDelivered self accumulated migrated) := by
  unfold debitDelivered
  split
  · exact mirrors.debit named _ _ _
  · exact .ok mirrors

end Execution

/-- The loop over the reserved objects, side by side. -/
structure Egress.Mirrors (owner : Name) (symbol : Symbol) (direct migrated : Egress) : Prop where
  image : migrated = { direct with funds := migrated.funds }
  funds : direct.funds.Mirrors owner symbol migrated.funds

namespace Egress.Mirrors

variable {owner : Name} {symbol : Symbol} {direct migrated : Egress} (named : symbol ≠ Symbol.none)
include named

theorem creditReserved (mirrors : Egress.Mirrors owner symbol direct migrated) (env : Env) (portion : Option Nat)
    (account : Name) (amount : Nat) :
    Agree (Egress.Mirrors owner symbol) (creditReserved env portion account amount direct)
      (creditReserved env portion account amount migrated) := by
  obtain ⟨image, funds⟩ := mirrors
  have deducted : migrated.deductedMinerCut = direct.deductedMinerCut := by rw [image]
  unfold EosEvm.creditReserved
  refine (funds.credit named _ _ _).bind fun credited other mirrored => ?_
  rw [deducted]
  split
  · split
    · refine .same fun _ => (mirrored.debit named _ _ _).bind fun _ _ taken => .ok ⟨?_, taken⟩
      rw [image]
    · exact .ok ⟨by rw [image], mirrored⟩
  · exact .ok ⟨by rw [image], mirrored⟩

theorem egressObject (mirrors : Egress.Mirrors owner symbol direct migrated) (env : Env) (egresslist : Table Name Unit)
    (unit : Nat) (portion : Option Nat) (messages : List FilteredMessage) (object : Name × Account) :
    Agree (Egress.Mirrors owner symbol) (egressObject env egresslist unit portion messages direct object)
      (egressObject env egresslist unit portion messages migrated object) := by
  unfold EosEvm.egressObject
  refine .same fun _ => .same fun _ => ?_
  split
  · exact .ok mirrors
  · obtain ⟨image, funds⟩ := mirrors
    have total : migrated.totalEgress = direct.totalEgress := by rw [image]
    have counted : Egress.Mirrors owner symbol
        { direct with totalEgress := u256 (direct.totalEgress + object.2.balance) }
        { migrated with totalEgress := u256 (migrated.totalEgress + object.2.balance) } := by
      refine ⟨?_, funds⟩
      rw [total, image]
    dsimp only
    rw [funds.isSome]
    split
    · exact counted.creditReserved named _ _ _ _
    · have marks : migrated.needSend = direct.needSend := by rw [image]
      unfold sendReserved
      refine .same fun _ => .same fun _ => .same fun _ => ?_
      dsimp only
      rw [marks]
      refine .same fun _ => .same fun _ => .ok ⟨?_, funds⟩
      rw [total, image]

end Egress.Mirrors

section Execution

variable {owner : Name} {symbol : Symbol} {direct migrated : Funds} (named : symbol ≠ Symbol.none)
  (mirrors : Funds.Mirrors owner symbol direct migrated)
include named mirrors

theorem egressFunds_agrees (env : Env) (config : ConfigWrapper) (egresslist : Table Name Unit) (portion : Option Nat)
    (output : RunOutput) :
    Agree (Beside (Funds.Mirrors owner symbol)) (egressFunds env config egresslist portion output direct)
      (egressFunds env config egresslist portion output migrated) := by
  unfold egressFunds
  split
  · exact .ok ⟨mirrors, rfl⟩
  · refine .same fun unit => ?_
    have start : Egress.Mirrors owner symbol
        { funds := direct, needSend := output.filteredMessages.map fun _ => false }
        { funds := migrated, needSend := output.filteredMessages.map fun _ => false } := ⟨rfl, mirrors⟩
    have loop := Agree.foldOutcome output.reservedObjects start fun _ _ object current =>
      current.egressObject named env egresslist unit portion output.filteredMessages object
    refine loop.bind ?_
    rintro egress _ ⟨image, funds⟩
    rw [image]
    refine .same fun _ => ?_
    exact (leaveTotal_agrees funds egress.totalEgress).bind fun _ _ remaining => .ok ⟨remaining, rfl⟩

theorem settleTx_agrees (env : Env) (context : TxContext) (fromSelf : Bool) (sender : Address) (output : RunOutput) :
    Agree (Beside (Funds.Mirrors owner symbol)) (settleTx env context fromSelf sender output direct)
      (settleTx env context fromSelf sender output migrated) := by
  unfold settleTx
  refine .same fun _ => .same fun _ => (egressFunds_agrees named mirrors _ _ _ _ _).bind ?_
  rintro ⟨_, _⟩ ⟨_, _⟩ ⟨egress, rfl⟩
  refine (payMiner_agrees named egress _ _ _).bind fun _ _ paid => ?_
  refine (refundGas_agrees named paid _ _ _ _ _).bind fun _ _ refunded => ?_
  exact (recordGasFee_agrees refunded _ _ _ _ _ _ _).bind fun _ _ recorded => .ok ⟨recorded, rfl⟩

theorem beginTx_agrees (env : Env) (context : TxContext) :
    Agree (Beside (Funds.Mirrors owner symbol)) (beginTx env context direct) (beginTx env context migrated) := by
  have miner : checkMiner env.self context.miner migrated = checkMiner env.self context.miner direct := by
    unfold checkMiner
    split
    · rw [mirrors.isSome]
    · rfl
  unfold beginTx
  rw [miner]
  refine .same fun _ => .same fun _ => .same fun _ => (prepareSender_agrees named mirrors _ _ _ _).bind ?_
  rintro ⟨_, _⟩ ⟨_, _⟩ ⟨prepared, rfl⟩
  exact .same fun _ => .ok ⟨prepared, rfl⟩

theorem executeTx_agrees (env : Env) (context : TxContext) :
    Agree (Beside (Funds.Mirrors owner symbol)) (executeTx env context direct) (executeTx env context migrated) := by
  unfold executeTx
  refine (beginTx_agrees named mirrors env context).bind ?_
  rintro ⟨_, _⟩ ⟨_, _⟩ ⟨begun, rfl⟩
  refine .same fun _ => .same fun _ => .same fun _ => (settleTx_agrees named begun _ _ _ _ _).bind ?_
  rintro ⟨_, _⟩ ⟨_, _⟩ ⟨settled, rfl⟩
  exact .ok ⟨settled, rfl⟩

theorem processFilteredMessages_agrees (env : Env) (config : ConfigWrapper) (receivers : Table Name MessageReceiver)
    (messages : List FilteredMessage) :
    Agree (Beside (Funds.Mirrors owner symbol)) (processFilteredMessages env config receivers messages direct)
      (processFilteredMessages env config receivers messages migrated) := by
  have start : Beside (Funds.Mirrors owner symbol) (direct, ([] : List Inline), 0) (migrated, [], 0) := ⟨mirrors, rfl⟩
  unfold processFilteredMessages
  refine (Agree.foldOutcome _ start ?_).bind ?_
  · rintro ⟨_, _⟩ ⟨_, _⟩ message ⟨delivered, rfl⟩
    unfold deliverMessage
    refine .same fun _ => .same fun _ => .same fun _ => .same fun _ => .same fun _ => .same fun _ => .same fun _ => ?_
    exact .same fun _ => (delivered.credit named _ _ _).bind fun _ _ credited => .ok ⟨credited, rfl⟩
  · rintro ⟨_, _⟩ ⟨_, _⟩ ⟨delivered, rfl⟩
    exact (debitDelivered_agrees named delivered env.self _).bind fun _ _ settled => .ok ⟨settled, rfl⟩

end Execution

namespace Contract

def Mirrors (owner : Name) (symbol : Symbol) (direct migrated : Contract) : Prop :=
  ∃ funds, migrated = { direct with funds := funds } ∧ direct.funds.Mirrors owner symbol funds

variable {owner : Name} {symbol : Symbol} {direct migrated : Contract}

theorem Mirrors.refreshPrices (mirrors : Mirrors owner symbol direct migrated) (env : Env) :
    Mirrors owner symbol (refreshPrices env direct) (refreshPrices env migrated) := by
  obtain ⟨funds, rfl, mirrored⟩ := mirrors
  refine ⟨funds, ?_, ?_⟩
  · unfold EosEvm.refreshPrices
    split <;> rfl
  · unfold EosEvm.refreshPrices
    split <;> exact mirrored

theorem Mirrors.getAndIncrementNonce (mirrors : Mirrors owner symbol direct migrated) (account : Name) :
    Agree (fun left right => left.1 = right.1 ∧ Mirrors owner symbol left.2 right.2)
      (getAndIncrementNonce account direct) (getAndIncrementNonce account migrated) := by
  obtain ⟨funds, rfl, mirrored⟩ := mirrors
  exact .same fun _ => .ok ⟨rfl, funds, rfl, mirrored⟩

variable (named : symbol ≠ Symbol.none)
include named

theorem Mirrors.processTx (mirrors : Mirrors owner symbol direct migrated) (env : Env) (rc : RuntimeConfig)
    (miner : Name) (txn : Txn) (minPrice : Option Nat) :
    Agree (Mirrors owner symbol) (processTx env rc miner txn minPrice direct)
      (processTx env rc miner txn minPrice migrated) := by
  obtain ⟨funds, rfl, mirrored⟩ := mirrors
  unfold EosEvm.processTx
  refine .same fun _ => .same fun _ => .same fun _ => .same fun _ => .same fun _ => ?_
  refine (executeTx_agrees named mirrored _ _).bind ?_
  rintro ⟨_, _⟩ ⟨_, _⟩ ⟨executed, rfl⟩
  refine (processFilteredMessages_agrees named executed _ _ _ _).bind ?_
  rintro ⟨_, _⟩ ⟨_, _⟩ ⟨delivered, rfl⟩
  exact .same fun _ => .ok ⟨_, rfl, delivered⟩

theorem Mirrors.dispatchTx (mirrors : Mirrors owner symbol direct migrated) (env : Env) (rc : RuntimeConfig)
    (tx : Transaction) :
    Agree (Mirrors owner symbol) (dispatchTx env rc tx direct) (dispatchTx env rc tx migrated) := by
  obtain ⟨funds, rfl, mirrored⟩ := mirrors
  have promoted : Mirrors owner symbol { direct with config := (direct.config.promoteEvmVersion env.now).2 }
      { direct with config := (direct.config.promoteEvmVersion env.now).2, funds := funds } := ⟨funds, rfl, mirrored⟩
  unfold EosEvm.dispatchTx
  dsimp only
  split
  · exact promoted.processTx named _ _ _ _ _
  · exact .same fun _ => .ok ⟨funds, rfl, mirrored⟩

theorem Mirrors.callWith (mirrors : Mirrors owner symbol direct migrated) (env : Env) (rc : RuntimeConfig) (s : Nat)
    (recipient : Bytes) (value : Nat) (data : Bytes) (gasLimit nonce : Nat) :
    Agree (Mirrors owner symbol) (callWith env rc s recipient value data gasLimit nonce direct)
      (callWith env rc s recipient value data gasLimit nonce migrated) := by
  have refreshed := mirrors.refreshPrices env
  obtain ⟨funds, rfl, mirrored⟩ := mirrors
  unfold EosEvm.callWith callTx
  dsimp only
  have config : (EosEvm.refreshPrices env { direct with funds := funds }).config =
      (EosEvm.refreshPrices env direct).config := by
    obtain ⟨_, image, _⟩ := refreshed
    rw [image]
  rw [config]
  exact refreshed.dispatchTx named _ _ _

omit named

theorem Mirrors.deposit (mirrors : Mirrors owner symbol direct migrated) {account : Name} (other : account ≠ owner)
    (quantity : Asset) (missing : String) :
    Agree (Mirrors owner symbol) (direct.deposit account quantity missing)
      (migrated.deposit account quantity missing) := by
  obtain ⟨funds, rfl, mirrored⟩ := mirrors
  refine (mirrored.lookup account missing).bind fun row changed partners => ?_
  obtain rfl := partners.2 other
  exact .same fun _ => .ok ⟨_, rfl, mirrored.put ⟨fun same => absurd same other, fun _ => rfl⟩⟩

theorem deposit_stale {row : BalanceWithDust} {quantity : Asset} {missing : String}
    (found : direct.funds.balances.get? owner = some row) (stale : row.balance.symbol ≠ quantity.symbol) :
    ∀ after, direct.deposit owner quantity missing ≠ .ok after := by
  intro after deposited
  obtain ⟨stored, balance, present, added, _⟩ := deposit_ok deposited
  obtain rfl : row = stored := Option.some.inj (found.symm.trans present)
  exact stale ((Asset.add_ok _ _ _).mp added).1.symm

theorem Mirrors.recordIngressFee (mirrors : Mirrors owner symbol direct migrated) :
    Agree (Mirrors owner symbol) direct.recordIngressFee migrated.recordIngressFee := by
  obtain ⟨funds, rfl, rfl, fits⟩ := mirrors
  exact .same fun _ => .same fun _ => .ok ⟨_, rfl, rfl, fits⟩

theorem Mirrors.withdraw (mirrors : Mirrors owner symbol direct migrated) (named : symbol ≠ Symbol.none)
    (configured : direct.config.getTokenSymbol = symbol) (env : Env) (account : Name) (quantity : Asset)
    (recipient : Option Name) :
    Agree (Mirrors owner symbol) (withdraw env account quantity recipient direct)
      (withdraw env account quantity recipient migrated) := by
  obtain ⟨funds, rfl, mirrored⟩ := mirrors
  unfold Contract.withdraw
  dsimp only
  refine .same fun _ => .same fun _ => (mirrored.lookup account _).bind fun row changed partners => ?_
  obtain ⟨amount, dust⟩ := partners.amounts
  rw [amount, dust, configured]
  refine .same fun _ => .same fun _ => .same_ok fun balance taken => .ok ⟨_, rfl, mirrored.put ?_⟩
  -- what is left has the symbol of the token on both sides
  obtain ⟨_, _, _, rfl⟩ := (Asset.sub_ok _ _ _).mp taken
  exact ⟨fun _ => ⟨⟨named, rfl⟩, rfl⟩, fun _ => rfl⟩

theorem Mirrors.close (mirrors : Mirrors owner symbol direct migrated) (env : Env) (account : Name) :
    Agree (Mirrors owner symbol) (close env account direct) (close env account migrated) := by
  obtain ⟨funds, rfl, mirrored⟩ := mirrors
  unfold Contract.close
  dsimp only
  refine .same fun _ => .same fun _ => .same fun _ => (mirrored.lookup account _).bind fun row changed partners => ?_
  obtain ⟨amount, dust⟩ := partners.amounts
  have zero : changed.isZero = row.isZero := by rw [BalanceWithDust.isZero, BalanceWithDust.isZero, amount, dust]
  rw [zero]
  refine .same fun _ => .same fun _ => .ok ⟨_, rfl, ?_⟩
  obtain ⟨rfl, fits⟩ := mirrored
  refine ⟨?_, ?_⟩
  · refine congrArg (fun balances => { direct.funds with balances := balances }) (Table.ext_get? fun key => ?_)
    simp only [Table.get?_erase, Table.get?_modify]
    by_cases here : account = key <;> simp [here]
  · intro stored found
    rw [Table.get?_erase] at found
    split at found
    · cases found
    · exact fits stored found

section

variable (mirrors : Mirrors owner symbol direct migrated) (named : symbol ≠ Symbol.none)
include mirrors named

theorem Mirrors.addopenbal (env : Env) (account : Name) (delta : Bytes) (subtract : Bool) :
    Agree (Mirrors owner symbol) (addopenbal env account delta subtract direct)
      (addopenbal env account delta subtract migrated) := by
  obtain ⟨funds, rfl, mirrored⟩ := mirrors
  unfold Contract.addopenbal
  refine .same fun _ => (mirrored.lookup account _).bind fun _ _ _ => .same fun _ => ?_
  have adjusts : ∀ amount, Agree (Funds.Mirrors owner symbol) (adjustOpen account amount subtract direct.funds)
      (adjustOpen account amount subtract funds) := by
    intro amount
    unfold adjustOpen
    split
    · exact mirrored.debit named _ _ _
    · exact mirrored.credit named _ _ _
  exact (adjusts _).bind fun _ _ adjusted => .ok ⟨_, rfl, adjusted⟩

theorem Mirrors.pushtx (env : Env) (miner : Name) (rlptx : Bytes) (minPrice : Option Nat) :
    Agree (Mirrors owner symbol) (pushtx env miner rlptx minPrice direct)
      (pushtx env miner rlptx minPrice migrated) := by
  have refreshed := mirrors.refreshPrices env
  obtain ⟨funds, rfl, _⟩ := mirrors
  exact .same fun _ => .same fun _ => refreshed.processTx named _ _ _ _ _

theorem Mirrors.call (env : Env) (sender : Name) (recipient value data : Bytes) (gasLimit : Nat) :
    Agree (Mirrors owner symbol) (call env sender recipient value data gasLimit direct)
      (call env sender recipient value data gasLimit migrated) := by
  have numbers := mirrors.getAndIncrementNonce sender
  obtain ⟨funds, rfl, _⟩ := mirrors
  refine .same fun _ => .same fun _ => .same fun _ => numbers.bind ?_
  rintro ⟨nonce, left⟩ ⟨_, right⟩ ⟨rfl, numbered⟩
  exact numbered.callWith named _ _ _ _ _ _ _ _

theorem Mirrors.callotherpay (env : Env) (payer sender : Name) (recipient value data : Bytes) (gasLimit : Nat) :
    Agree (Mirrors owner symbol) (callotherpay env payer sender recipient value data gasLimit direct)
      (callotherpay env payer sender recipient value data gasLimit migrated) := by
  obtain ⟨funds, rfl, mirrored⟩ := mirrors
  have promoted : Mirrors owner symbol (direct.setConfig (direct.config.promoteEvmVersion env.now).2)
      (Contract.setConfig { direct with funds := funds } (direct.config.promoteEvmVersion env.now).2) :=
    ⟨funds, rfl, mirrored⟩
  refine .same fun _ => .same fun _ => .same fun _ => .same fun _ => .same fun _ => ?_
  refine (promoted.getAndIncrementNonce sender).bind ?_
  rintro ⟨nonce, left⟩ ⟨_, right⟩ ⟨rfl, numbered⟩
  exact numbered.callWith named _ _ _ _ _ _ _ _

theorem Mirrors.admincall (env : Env) (sender recipient value data : Bytes) (gasLimit : Nat) :
    Agree (Mirrors owner symbol) (admincall env sender recipient value data gasLimit direct)
      (admincall env sender recipient value data gasLimit migrated) := by
  have numbers : ∀ address, Agree (fun left right => left.1 = right.1 ∧ Mirrors owner symbol left.2 right.2)
      (adminNonce address direct) (adminNonce address migrated) := by
    intro address
    unfold adminNonce
    split
    · exact mirrors.getAndIncrementNonce _
    · obtain ⟨funds, rfl, mirrored⟩ := mirrors
      exact .same fun _ => .same fun _ => .ok ⟨rfl, funds, rfl, mirrored⟩
  obtain ⟨funds, rfl, _⟩ := mirrors
  refine .same fun _ => .same fun _ => .same fun _ => .same fun _ => .same fun address => (numbers address).bind ?_
  rintro ⟨nonce, left⟩ ⟨_, right⟩ ⟨rfl, numbered⟩
  exact numbered.callWith named _ _ _ _ _ _ _ _

theorem Mirrors.handleEvmTransfer (env : Env) (other : env.self ≠ owner) (quantity : Asset) (memo : Bytes) :
    Agree (Mirrors owner symbol) (handleEvmTransfer env quantity memo direct)
      (handleEvmTransfer env quantity memo migrated) := by
  have received := (mirrors.refreshPrices env).deposit other quantity missingKey
  obtain ⟨_, rfl, _⟩ := mirrors
  unfold Contract.handleEvmTransfer
  refine received.bind ?_
  rintro received _ ⟨funds, rfl, mirrored⟩
  refine .same fun _ => .same fun _ => ?_
  refine (Mirrors.recordIngressFee ⟨funds, rfl, mirrored⟩).bind ?_
  rintro recorded _ ⟨funds, rfl, mirrored⟩
  refine .same fun _ => .same fun _ => ?_
  refine (Mirrors.getAndIncrementNonce ⟨funds, rfl, mirrored⟩ env.self).bind ?_
  rintro ⟨nonce, numbered⟩ ⟨_, _⟩ ⟨rfl, funds, rfl, mirrored⟩
  exact Mirrors.dispatchTx named ⟨funds, rfl, mirrored⟩ _ _ _

end

end Contract

/-- A transfer that is deposited to the balance of an account. -/
def Request.depositsTo (self owner : Name) : Request → Prop
  | .transfer _ sender recipient _ memo =>
      recipient = self ∧ sender ≠ self ∧
        if memo.length = 42 ∧ memo.take 2 = bytesOf "0x" then self = owner
        else memo ≠ [] ∧ memo.length ≤ 13 ∧ nameOf memo = .ok owner
  | .action _ _ _ => False

/-- The operations on open balances. -/
def Request.operates : Request → Bool
  | .transfer _ _ _ _ _ => true
  | .action _ _ (.withdraw _ _ _) => true
  | .action _ _ (.close _) => true
  | .action _ _ (.call _ _ _ _ _) => true
  | .action _ _ (.callotherpay _ _ _ _ _ _) => true
  | .action _ _ (.admincall _ _ _ _ _) => true
  | .action _ _ (.pushtx _ _ _) => true
  | .action _ _ (.addopenbal _ _ _) => true
  | _ => false

namespace Contract

variable {owner : Name} {symbol : Symbol} {direct migrated : Contract}

theorem Mirrors.transfer (mirrors : Mirrors owner symbol direct migrated) (named : symbol ≠ Symbol.none) (env : Env)
    {token sender recipient : Name} {quantity : Asset} {memo : Bytes}
    (elsewhere : ¬ (Request.transfer token sender recipient quantity memo).depositsTo env.self owner) :
    Agree (Mirrors owner symbol) (transfer env sender recipient quantity memo direct)
      (transfer env sender recipient quantity memo migrated) := by
  have evm := mirrors.handleEvmTransfer named env
  have refreshed := mirrors.refreshPrices env
  obtain ⟨funds, rfl, mirrored⟩ := mirrors
  have kept : Mirrors owner symbol direct { direct with funds := funds } := ⟨funds, rfl, mirrored⟩
  unfold Contract.transfer
  refine .same fun _ => ?_
  split
  · exact .ok kept
  · rename_i taken
    obtain ⟨own, foreign⟩ : recipient = env.self ∧ sender ≠ env.self := by
      simpa [not_or] using taken
    refine .same fun _ => ?_
    dsimp only
    split
    · exact .ok kept
    · split
      · rename_i hex
        refine evm ?_ quantity memo
        intro same
        exact elsewhere ⟨own, foreign, by rw [if_pos hex]; exact same⟩
      · rename_i text
        split
        · rename_i short
          refine .same_ok fun receiver read => refreshed.deposit ?_ quantity _
          rintro rfl
          exact elsewhere ⟨own, foreign, by rw [if_neg text]; exact ⟨short.1, short.2, read⟩⟩
        · exact .error _

theorem Mirrors.run (mirrors : Mirrors owner symbol direct migrated) (named : symbol ≠ Symbol.none)
    (configured : direct.config.getTokenSymbol = symbol) (env : Env) {request : Request}
    (operates : request.operates = true) (elsewhere : ¬ request.depositsTo env.self owner) :
    Agree (Mirrors owner symbol) (request.run env direct) (request.run env migrated) := by
  cases request with
  | transfer token sender recipient quantity memo => exact mirrors.transfer named env elsewhere
  | action caller auths requested =>
      cases requested with
      | withdraw account quantity recipient => exact mirrors.withdraw named configured env account quantity recipient
      | close account => exact mirrors.close env account
      | call sender recipient value data gasLimit => exact mirrors.call named env sender recipient value data gasLimit
      | callotherpay payer sender recipient value data gasLimit =>
          exact mirrors.callotherpay named env payer sender recipient value data gasLimit
      | admincall sender recipient value data gasLimit =>
          exact mirrors.admincall named env sender recipient value data gasLimit
      | pushtx miner rlptx minPrice => exact mirrors.pushtx named env miner rlptx minPrice
      | addopenbal account delta subtract => exact mirrors.addopenbal named env account delta subtract
      | _ => cases operates

/-- A deposit to a balance that has not the symbol of the token is refused. -/
theorem run_stale {env : Env} {request : Request} {row : BalanceWithDust}
    (found : direct.funds.balances.get? owner = some row)
    (stale : row.balance.symbol ≠ direct.config.getTokenSymbol) (deposits : request.depositsTo env.self owner) :
    ∀ after, request.run env direct ≠ .ok after := by
  intro after ran
  cases request with
  | action => exact deposits
  | transfer token sender recipient quantity memo =>
      obtain ⟨rfl, foreign, target⟩ := deposits
      simp only [Request.run, Contract.transfer, bind_ok, assertUnfrozen_ok, exists_const] at ran
      obtain ⟨_, ran⟩ := ran
      rw [if_neg (by simp [foreign])] at ran
      simp only [bind_ok, check_ok, exists_const] at ran
      obtain ⟨⟨_, symbol⟩, ran⟩ := ran
      rw [← symbol] at stale
      have kept : (refreshPrices env direct).funds = direct.funds := by rw [refreshPrices_eq]
      have refused : ∀ account missing after, account = owner →
          (refreshPrices env direct).deposit account quantity missing ≠ .ok after := by
        rintro account missing after rfl
        exact deposit_stale (by rw [kept]; exact found) stale after
      split at ran
      · rename_i empty
        rw [empty.1] at target
        simp at target
      · split at ran
        · rename_i hex
          rw [if_pos hex] at target
          simp only [handleEvmTransfer, bind_ok] at ran
          obtain ⟨received, deposited, _⟩ := ran
          exact refused _ _ _ target deposited
        · rename_i text
          rw [if_neg text] at target
          split at ran
          · simp only [handleAccountTransfer, bind_ok] at ran
            obtain ⟨receiver, read, deposited⟩ := ran
            exact refused _ _ _ (Except.ok.inj (read.symm.trans target.2.2)) deposited
          · cases ran

/-- An open balance that `migratebal` would rename. -/
def Stale (owner : Name) (contract : Contract) : Prop :=
  ∃ row inevm, contract.funds.balances.get? owner = some row ∧ contract.funds.inevm = some inevm ∧
    row.balance.symbol ≠ inevm.balance.symbol

def rename (owner : Name) (symbol : Symbol) (contract : Contract) : Contract :=
  { contract with funds := { contract.funds with
    balances := contract.funds.balances.modify owner fun row => row.withSymbol symbol } }

/-- Migrating one balance first makes no difference: an operation succeeds on both sides or on
none, and leaves the same up to the symbol of that balance. -/
structure Transparent (owner : Name) (symbol : Symbol) (direct migrated : Outcome Contract) : Prop where
  succeeds : (∃ left, direct = .ok left) ↔ ∃ right, migrated = .ok right
  amounts : ∀ left right, direct = .ok left → migrated = .ok right → ∀ account,
    (right.funds.balances.get? account).map (fun row => (row.balance.amount, row.dust)) =
      (left.funds.balances.get? account).map fun row => (row.balance.amount, row.dust)
  renamed : ∀ left right, direct = .ok left → migrated = .ok right → right = left.rename owner symbol

theorem Transparent.of_agree {left right : Outcome Contract} (agrees : Agree (Mirrors owner symbol) left right) :
    Transparent owner symbol left right := by
  have renamed : ∀ direct migrated, left = .ok direct → right = .ok migrated → migrated = direct.rename owner symbol := by
    intro direct migrated finished also
    obtain ⟨funds, rfl, rfl, _⟩ := agrees.relates finished also
    rfl
  refine ⟨agrees.finishes, ?_, renamed⟩
  intro direct migrated finished also account
  rw [renamed direct migrated finished also]
  simp only [rename, Table.get?_modify]
  split
  · rw [Option.map_map]
    rfl
  · rfl

theorem migratebal_stale {row inevm : BalanceWithDust} (found : direct.funds.balances.get? owner = some row)
    (inside : direct.funds.inevm = some inevm) (stale : row.balance.symbol ≠ inevm.balance.symbol) :
    migratebal owner 1 direct = .ok (direct.rename owner inevm.balance.symbol) := by
  have visited : direct.migrated owner (1 : Int).toNat = [(owner, row)] := Table.take_filter_le _ found
  simp only [migratebal, bind_ok, require_ok, check_ok, exists_const, pure_ok]
  refine ⟨inevm, inside, ?_⟩
  rw [visited]
  simp [stale, rename]

/-- A transfer that the balance of an account has room for, and that the contract takes in. -/
def Accepts (owner : Name) (contract : Contract) : Request → Prop
  | .transfer token _ _ quantity _ =>
      assertUnfrozen contract.config = .ok () ∧ token = contract.config.cached.tokenContract ∧
        quantity.symbol = contract.config.getTokenSymbol ∧
        ∃ row, contract.funds.balances.get? owner = some row ∧
          -maxAmount ≤ row.balance.amount + quantity.amount ∧ row.balance.amount + quantity.amount ≤ maxAmount
  | .action _ _ _ => False

theorem deposit_succeeds_iff {quantity : Asset} {missing : String} :
    (∃ after, direct.deposit owner quantity missing = .ok after) ↔
      ∃ row, direct.funds.balances.get? owner = some row ∧ quantity.symbol = row.balance.symbol ∧
        -maxAmount ≤ row.balance.amount + quantity.amount ∧ row.balance.amount + quantity.amount ≤ maxAmount := by
  simp only [deposit, bind_ok, require_ok, pure_ok, Asset.add_ok]
  constructor
  · rintro ⟨_, row, found, _, ⟨symbol, least, most, _⟩, _⟩
    exact ⟨row, found, symbol, least, most⟩
  · rintro ⟨row, found, symbol, least, most⟩
    exact ⟨_, row, found, _, ⟨symbol, least, most, rfl⟩, rfl⟩

theorem transfer_succeeds_iff {env : Env} {sender : Name} {quantity : Asset} {memo : Bytes} (foreign : sender ≠ env.self)
    (text : ¬ (memo.length = 42 ∧ memo.take 2 = bytesOf "0x")) (short : memo ≠ [] ∧ memo.length ≤ 13)
    (read : nameOf memo = .ok owner) :
    (∃ after, transfer env sender env.self quantity memo direct = .ok after) ↔
      assertUnfrozen direct.config = .ok () ∧
        (env.code = direct.config.cached.tokenContract ∧ quantity.symbol = direct.config.getTokenSymbol) ∧
        ∃ after, (EosEvm.refreshPrices env direct).deposit owner quantity "receiving account has not been opened" =
          .ok after := by
  have taken : ¬ (env.self ≠ env.self ∨ sender = env.self) := by simp [foreign]
  have unsaid : ¬ (memo = [] ∧ sender = direct.config.cached.tokenContract) := fun empty => short.1 empty.1
  unfold Contract.transfer
  rw [if_neg taken, if_neg unsaid, if_neg text, if_pos short]
  simp only [handleAccountTransfer, read, ok_bind, bind_ok, check_ok, exists_const]
  constructor
  · rintro ⟨after, ⟨⟩, ready, known, deposited⟩
    exact ⟨ready, known, after, deposited⟩
  · rintro ⟨ready, known, after, deposited⟩
    exact ⟨after, (), ready, known, deposited⟩

theorem rename_accepts_iff {host : Host} {request : Request} (view : ChainView) (now : Nat) (other : owner ≠ host.self)
    (deposits : request.depositsTo host.self owner) :
    (∃ after, request.run (host.env view now request) (direct.rename owner direct.config.getTokenSymbol) = .ok after) ↔
      direct.Accepts owner request := by
  cases request with
  | action => exact deposits.elim
  | transfer token sender recipient quantity memo =>
      obtain ⟨rfl, foreign, target⟩ := deposits
      by_cases hex : memo.length = 42 ∧ memo.take 2 = bytesOf "0x"
      · rw [if_pos hex] at target
        exact absurd target.symm other
      · rw [if_neg hex] at target
        have away : sender ≠ (host.env view now (.transfer token sender host.self quantity memo)).self := foreign
        refine (transfer_succeeds_iff away hex ⟨target.1, target.2.1⟩ target.2.2).trans ?_
        rw [deposit_succeeds_iff, refreshPrices_funds]
        simp only [rename, Table.get?_modify, if_true, Option.map_eq_some_iff]
        constructor
        · rintro ⟨ready, ⟨code, symbol⟩, _, ⟨row, found, rfl⟩, _, least, most⟩
          exact ⟨ready, code, symbol, row, found, least, most⟩
        · rintro ⟨ready, code, symbol, row, found, least, most⟩
          exact ⟨ready, ⟨code, symbol⟩, _, ⟨row, found, rfl⟩, symbol, least, most⟩

def OwnNamed (self : Name) (contract : Contract) : Prop :=
  ∀ row, contract.funds.balances.get? self = some row → row.balance.symbol = contract.config.getTokenSymbol

theorem swapgastoken_own {env : Env} {newTokenContract : Name} {newSymbol : Symbol} {swapDestAccount : Name}
    {swapMemo : Bytes} (ran : swapgastoken env newTokenContract newSymbol swapDestAccount swapMemo direct = .ok migrated) :
    migrated.OwnNamed env.self := by
  have renamed := swapgastoken_renames ran
  have token : migrated.config.getTokenSymbol = newSymbol := congrArg Asset.symbol renamed.fee
  intro row found
  cases own : direct.funds.balances.get? env.self with
  | none =>
      by_cases visited : env.self ∈ (direct.migrated env.self 1).map Prod.fst
      · rw [renamed.balances _ visited, own] at found
        cases found
      · rw [renamed.kept _ visited, own] at found
        cases found
  | some old =>
      have visited : direct.migrated env.self 1 = [(env.self, old)] := Table.take_filter_le _ own
      rw [renamed.balances _ (by rw [visited]; exact List.mem_singleton_self _), own] at found
      cases found
      exact token.symm

theorem init_own {env : Env} {chainid : Nat} {fees : FeeParameters} {tokenContract : Option Name}
    (closed : ∀ account, direct.funds.balances.get? account = none)
    (ran : Contract.init env chainid fees tokenContract direct = .ok migrated) : migrated.OwnNamed env.self := by
  obtain ⟨_, _, _, _, _, opened⟩ := init_ok ran
  have named := openInternalBalance_named opened
  intro row found
  rw [openInternalBalance_config opened]
  rcases named.balances _ row found with same | ⟨old, present, _⟩
  · exact same
  · rw [show _ = none from closed env.self] at present
    cases present

theorem load_store_funds (tables : Tables) (funds : Funds) :
    Contract.load (Contract.store { Contract.load tables with funds := funds } tables) =
      { Contract.load tables with funds := funds } := rfl

end Contract

theorem Handled.ownNamed {host : Host} {world : World} {view : ChainView} {before after : List Request}
    {request : Request} {rest : List Pending} {holding : Name → Symbol → Nat} {contract : Contract}
    (tidy : world.contract.Tidy) (own : world.contract.OwnNamed host.self) (keeps : keepsPrecision world request = true)
    (handled : Handled host view before after request rest holding contract world) : contract.OwnNamed host.self := by
  have ran := handled.ran
  have kept := handled.tidy tidy keeps
  by_cases swaps : request.isSwap = true
  · cases request with
    | transfer => cases swaps
    | action caller auths requested =>
        cases requested with
        | swapgastoken => exact Contract.swapgastoken_own ran
        | _ => cases swaps
  by_cases starts : request.isInit = true
  · cases request with
    | transfer => cases starts
    | action caller auths requested =>
        cases requested with
        | init =>
            have checked := ran
            simp only [Request.run, Action.run, Contract.init, bind_ok, check_ok, exists_const] at checked
            obtain ⟨_, _, unstored, _⟩ := checked
            exact Contract.init_own (tidy.closed (load_unstored unstored)).1 ran
        | _ => cases starts
  · rw [Bool.not_eq_true] at swaps starts
    have named : Funds.Named world.config.getTokenSymbol world.contract.funds contract.funds :=
      (Request.run_does ran).named (fun init => by rw [starts] at init; cases init) swaps
        fun inevm found => (tidy.funds.inevm inevm found).2
    intro row found
    have symbol : row.balance.symbol = world.config.getTokenSymbol := by
      rcases named.balances _ row found with same | ⟨old, present, same⟩
      · exact same
      · exact same.trans (own old present)
    by_cases unset : world.config.getTokenSymbol = Symbol.none
    · exact absurd (symbol.trans unset) (kept.funds.balances _ row found).1.named
    · have stored : world.config.stored = true := by
        by_contra unstored
        exact unset (load_unstored (Bool.eq_false_of_not_eq_true unstored))
      have token := handled.reconfigures.1.token stored unset swaps
      rw [symbol, ← ConfigWrapper.getTokenSymbol_of_token token]

/-- In every reachable state the contract's own balance has the symbol of the token. -/
theorem run_ownNamed {host : Host} {holding : Name → Symbol → Nat} {labels : List Label} {world : World}
    (keeps : guarded host keepsPrecision labels (World.start holding) = true)
    (reached : run host labels (World.start holding) = .ok world) : world.contract.OwnNamed host.self := by
  refine (run_guarded (fun current => current.contract.Tidy ∧ current.contract.OwnNamed host.self) ?_ ?_ keeps
    reached).2
  · rintro current label next ⟨tidy, own⟩ stepped safe
    refine ⟨stepped.tidy tidy safe, ?_⟩
    cases stepped with
    | tick | submit | passed => exact own
    | handled view before after request rest holding contract handled =>
        have named := handled.ownNamed tidy own (safe _ _ _ _ _ _ _ rfl handled)
        have config := handled.reconfigures.2
        exact fun row found => (named row found).trans (congrArg ConfigWrapper.getTokenSymbol config).symm
  · exact ⟨World.start_tidy holding, fun _ found => by cases found⟩

/-- As long as every swap kept the precision, migrating a stale balance first makes no difference
to an operation, exactly unless the operation is a deposit that the balance would accept. -/
theorem run_migration_transparent {host : Host} {holding : Name → Symbol → Nat} {labels : List Label} {world : World}
    {owner : Name} (view : ChainView) (request : Request)
    (keeps : guarded host keepsPrecision labels (World.start holding) = true)
    (reached : run host labels (World.start holding) = .ok world) (stale : world.contract.Stale owner)
    (operates : request.operates = true) :
    ∃ migrated, Contract.migratebal owner 1 world.contract = .ok migrated ∧
      (Contract.Transparent owner world.config.getTokenSymbol
          (request.run (host.env view world.now request) world.contract)
          (request.run (host.env view world.now request) (Contract.load (migrated.store world.tables))) ↔
        ¬ (request.depositsTo host.self owner ∧ world.contract.Accepts owner request)) := by
  have tidy := run_tidy keeps reached
  obtain ⟨row, inevm, found, inside, differs⟩ := stale
  obtain ⟨normal, tokens⟩ := tidy.funds.inevm inevm inside
  have symbol : inevm.balance.symbol = world.config.getTokenSymbol := tokens
  have named : world.config.getTokenSymbol ≠ Symbol.none := symbol ▸ normal.named
  have other : owner ≠ host.self := by
    rintro rfl
    exact differs ((run_ownNamed keeps reached row found).trans symbol.symm)
  refine ⟨_, Contract.migratebal_stale found inside differs, ?_⟩
  rw [symbol]
  have loaded : Contract.load ((world.contract.rename owner world.config.getTokenSymbol).store world.tables) =
      world.contract.rename owner world.config.getTokenSymbol := Contract.load_store_funds world.tables _
  rw [loaded]
  have mirrors : world.contract.Mirrors owner world.config.getTokenSymbol
      (world.contract.rename owner world.config.getTokenSymbol) := by
    refine ⟨_, rfl, rfl, ?_⟩
    intro stored present
    obtain ⟨normal, precision⟩ := tidy.funds.balances owner stored present
    exact ⟨normal.named, precision⟩
  have refused : request.depositsTo host.self owner → ∀ after,
      request.run (host.env view world.now request) world.contract ≠ .ok after :=
    fun deposits => Contract.run_stale found (symbol ▸ differs) deposits
  constructor
  · rintro transparent ⟨deposits, accepted⟩
    have succeeded := (Contract.rename_accepts_iff view world.now other deposits).mpr accepted
    obtain ⟨left, finished⟩ := transparent.succeeds.mpr succeeded
    exact refused deposits left finished
  · intro fine
    by_cases deposits : request.depositsTo host.self owner
    · -- the direct deposit is refused, and the later one fails too
      have never : ∀ left, request.run (host.env view world.now request) world.contract = .ok left → False :=
        fun left => refused deposits left
      refine ⟨?_, fun left _ finished => (never left finished).elim, fun left _ finished => (never left finished).elim⟩
      exact ⟨fun ⟨left, finished⟩ => (never left finished).elim, fun succeeded =>
        absurd ⟨deposits, (Contract.rename_accepts_iff view world.now other deposits).mp succeeded⟩ fine⟩
    · exact .of_agree (mirrors.run named rfl _ operates deposits)

namespace Ledger

def swapped : List Label :=
  opening ++ pay alice 1000000 "alice" 0 ++ act self (.swapgastoken bob sys 0 []) 0

def depositNew : Request := .transfer bob alice self ⟨5, sys⟩ (bytesOf "alice")

def withdrawNew : Request := .action none [alice] (.withdraw alice ⟨5, sys⟩ none)

end Ledger

/-- A deposit to a balance that was not migrated is refused, and accepted after the migration. -/
theorem staleDeposit_refused : ∃ world migrated after,
    guarded Ledger.host keepsPrecision Ledger.swapped (World.start fun _ _ => 0) = true ∧
    run Ledger.host Ledger.swapped (World.start fun _ _ => 0) = .ok world ∧
    Contract.migratebal Ledger.alice 1 world.contract = .ok migrated ∧
    Ledger.depositNew.run (Ledger.host.env Ledger.view world.now Ledger.depositNew) world.contract =
      .error "attempt to add asset with different symbol" ∧
    Ledger.depositNew.run (Ledger.host.env Ledger.view world.now Ledger.depositNew)
      (Contract.load (migrated.store world.tables)) = .ok after := by
  obtain ⟨world, reached, seen⟩ := exists_of_view (run Ledger.host Ledger.swapped (World.start fun _ _ => 0))
    (fun world => decide ((Ledger.depositNew.run (Ledger.host.env Ledger.view world.now Ledger.depositNew)
        world.contract).map (fun _ => ()) = .error "attempt to add asset with different symbol" ∧
      (Contract.migratebal Ledger.alice 1 world.contract >>= fun migrated =>
        Ledger.depositNew.run (Ledger.host.env Ledger.view world.now Ledger.depositNew)
          (Contract.load (migrated.store world.tables))).isOk = true)) true (by decide +kernel)
  obtain ⟨refused, accepted⟩ := of_decide_eq_true seen
  obtain ⟨after, finished⟩ := exists_of_isOk accepted
  obtain ⟨migrated, first, second⟩ := (bind_ok _ _ _).mp finished
  exact ⟨world, migrated, after, by decide +kernel, reached, first, error_of_map refused, second⟩

theorem run_migration_transparent_withdraw : ∃ world migrated,
    run Ledger.host Ledger.swapped (World.start fun _ _ => 0) = .ok world ∧
    Contract.migratebal Ledger.alice 1 world.contract = .ok migrated ∧
    Contract.Transparent Ledger.alice world.config.getTokenSymbol
      (Ledger.withdrawNew.run (Ledger.host.env Ledger.view world.now Ledger.withdrawNew) world.contract)
      (Ledger.withdrawNew.run (Ledger.host.env Ledger.view world.now Ledger.withdrawNew)
        (Contract.load (migrated.store world.tables))) := by
  obtain ⟨world, reached, seen⟩ := exists_of_view (run Ledger.host Ledger.swapped (World.start fun _ _ => 0))
    (fun world => decide ((world.contract.funds.balances.get? Ledger.alice).map (fun row => row.balance.symbol) =
        some Ledger.eos ∧
      world.contract.funds.inevm.map (fun row => row.balance.symbol) = some Ledger.sys)) true (by decide +kernel)
  obtain ⟨opened, inside⟩ := of_decide_eq_true seen
  obtain ⟨row, found, symbol⟩ := Option.map_eq_some_iff.mp opened
  obtain ⟨inevm, present, token⟩ := Option.map_eq_some_iff.mp inside
  have stale : world.contract.Stale Ledger.alice := ⟨row, inevm, found, present, by rw [symbol, token]; decide⟩
  obtain ⟨migrated, first, transparent⟩ :=
    run_migration_transparent Ledger.view Ledger.withdrawNew (by decide +kernel) reached stale rfl
  exact ⟨world, migrated, reached, first, transparent.mpr fun deposits => deposits.1⟩

end EosEvm

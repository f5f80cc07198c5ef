import EosEvm.GasPayer

/-! `callotherpay` with the sender as its own gas payer, beside `call`. The charge is split in two
and the refund takes the gas that was not used from a row and puts it back, so that both leave the
same tables unless nothing is refunded or the row holds a full unit of dust. -/

namespace EosEvm

open Abort Words

namespace BalanceWithDust

variable {row first second result : BalanceWithDust} {amount other : Nat}

theorem borrows_le (dust right : Nat) {unit left : Nat} (leftBound : left < unit) :
    (if dust < left then 1 else 0) +
        (if dust + (if dust < left then 1 else 0) * unit - left < right then 1 else 0) ≤
      (if unit ≤ left + right then 1 else 0) +
        if dust < left + right - (if unit ≤ left + right then 1 else 0) * unit then 1 else 0 := by
  split_ifs <;> omega

/-- The same value with no more dust. -/
structure Leaner (row other : BalanceWithDust) : Prop where
  symbol : row.balance.symbol = other.balance.symbol
  value : row.value = other.value
  dust : row.dust ≤ other.dust

def carried (unit amount other : Nat) : Nat := if unit ≤ amount % unit + other % unit then 1 else 0

theorem carried_mod (unit amount other : Nat) :
    carried unit amount other * unit + (amount + other) % unit = amount % unit + other % unit := by
  rw [carried, Nat.add_mod_eq_ite]
  split <;> omega

theorem borrow_minus_le (row : BalanceWithDust) (amount other : Nat) :
    row.borrow amount + (row.minus amount).borrow other ≤
      carried row.balance.symbol.unit amount other + row.borrow (amount + other) := by
  have borrows := borrows_le row.dust (other % row.balance.symbol.unit) (Nat.mod_lt amount row.balance.symbol.unit_pos)
  have remainder := carried_mod row.balance.symbol.unit amount other
  have same : (amount + other) % row.balance.symbol.unit = amount % row.balance.symbol.unit +
      other % row.balance.symbol.unit - carried row.balance.symbol.unit amount other * row.balance.symbol.unit := by
    omega
  unfold borrow
  rw [same]
  exact borrows

theorem Loose.sub_split (loose : row.Loose) (taken : row.sub (amount + other) = .ok result) :
    ∃ middle rest, row.sub amount = .ok middle ∧ middle.sub other = .ok rest ∧ rest.Leaner result := by
  have whole := (loose.sub_spec taken).2.2.2.2.2
  obtain ⟨token, enough, rfl⟩ := (loose.sub_ok _ _).mp taken
  have nonneg := loose.nonneg
  have borrows := row.borrow_minus_le amount other
  have quotients := And.intro (Int.natCast_nonneg (amount / row.balance.symbol.unit))
    (Int.natCast_nonneg (other / row.balance.symbol.unit))
  have quotient : (amount + other) / row.balance.symbol.unit = amount / row.balance.symbol.unit +
      other / row.balance.symbol.unit + carried row.balance.symbol.unit amount other :=
    Nat.add_div row.balance.symbol.unit_pos
  rw [quotient] at enough
  have first := (loose.sub_ok amount _).mpr ⟨token, by omega, rfl⟩
  obtain ⟨fits, _, _, _, _, early⟩ := loose.sub_spec first
  have second : (row.minus amount).sub other = .ok _ := (fits.sub_ok other _).mpr ⟨token, ?_, rfl⟩
  · obtain ⟨_, _, _, _, _, late⟩ := fits.sub_spec second
    refine ⟨_, _, first, second, rfl, by omega, ?_⟩
    have scaled := Nat.mul_le_mul_right row.balance.symbol.unit borrows
    have remainder := carried_mod row.balance.symbol.unit amount other
    have firstDust := row.le_borrow_mul amount
    have secondDust := (row.minus amount).le_borrow_mul other
    rw [Nat.add_mul, Nat.add_mul] at scaled
    simp only [minus_dust, minus_symbol] at secondDust ⊢
    omega
  · simp only [minus_amount, minus_symbol]
    omega

theorem Leaner.gap (leaner : first.Leaner second) :
    first.dust = second.dust ∨ first.dust + second.balance.symbol.unit ≤ second.dust := by
  by_cases same : first.dust = second.dust
  · exact Or.inl same
  · refine Or.inr ?_
    have values := leaner.value
    have dust := leaner.dust
    rw [BalanceWithDust.value, BalanceWithDust.value, leaner.symbol] at values
    have fewer : second.balance.amount.toNat * second.balance.symbol.unit <
        first.balance.amount.toNat * second.balance.symbol.unit := by omega
    have units := Nat.mul_le_mul_right second.balance.symbol.unit (Nat.lt_of_mul_lt_mul_right fewer)
    rw [Nat.succ_mul] at units
    omega

theorem Leaner.eq_of_regular (leaner : first.Leaner second) (nonneg : 0 ≤ first.balance.amount)
    (otherNonneg : 0 ≤ second.balance.amount) (regular : second.dust < second.balance.symbol.unit) : first = second := by
  have dust : first.dust = second.dust := leaner.gap.resolve_right (by omega)
  have values := leaner.value
  rw [BalanceWithDust.value, BalanceWithDust.value, leaner.symbol, dust] at values
  have units := Nat.eq_of_mul_eq_mul_right second.balance.symbol.unit_pos (Nat.add_right_cancel values)
  have amounts : first.balance.amount = second.balance.amount := by omega
  obtain ⟨⟨amount, symbol⟩, dustOf⟩ := first
  obtain ⟨⟨otherAmount, otherSymbol⟩, otherDust⟩ := second
  cases leaner.symbol
  cases dust
  cases amounts
  rfl

theorem Leaner.plus (loose : first.Loose) (otherLoose : second.Loose) (leaner : first.Leaner second) (amount : Nat) :
    (first.plus amount).Leaner (second.plus amount) := by
  refine ⟨leaner.symbol, ?_, ?_⟩
  · rw [loose.value_plus, otherLoose.value_plus, leaner.value]
  · have gap := leaner.gap
    rw [plus_dust, plus_dust, carry, carry, leaner.symbol]
    rcases gap with same | full
    · rw [same]
    · split_ifs <;> omega

theorem Leaner.add (leaner : first.Leaner second) (loose : first.Loose) (otherLoose : second.Loose)
    (added : second.add amount = .ok result) (regular : result.dust < result.balance.symbol.unit) :
    first.add amount = .ok result := by
  obtain ⟨token, fits, rfl⟩ := (otherLoose.add_ok _ _).mp added
  have same : first.plus amount = second.plus amount :=
    (leaner.plus loose otherLoose amount).eq_of_regular (loose.plus_nonneg amount) (otherLoose.plus_nonneg amount) regular
  exact (loose.add_ok _ _).mpr ⟨leaner.symbol ▸ token, same ▸ fits, same⟩

theorem Loose.sub_add (loose : row.Loose) (regular : row.dust < row.balance.symbol.unit)
    (taken : row.sub amount = .ok result) : result.add amount = .ok row := by
  have fits := (loose.sub_spec taken).1
  obtain ⟨token, enough, rfl⟩ := (loose.sub_ok _ _).mp taken
  have whole : (row.minus amount).plus amount = row := by
    refine Leaner.eq_of_regular ⟨rfl, ?_, ?_⟩ ?_ loose.nonneg regular
    · rw [fits.value_plus, loose.value_minus enough]
    · have rest := Nat.mod_lt amount row.balance.symbol.unit_pos
      simp only [plus_dust, carry, minus_dust, minus_symbol, borrow]
      split_ifs <;> omega
    · exact (fits.plus_nonneg amount)
  exact (fits.add_ok _ _).mpr ⟨token, by rw [whole]; exact loose.bounded, whole⟩

theorem plus_regular (regular : row.dust < row.balance.symbol.unit) (amount : Nat) :
    (row.plus amount).dust < (row.plus amount).balance.symbol.unit := by
  have rest := Nat.mod_lt amount row.balance.symbol.unit_pos
  simp only [plus_dust, carry, plus_symbol]
  split_ifs <;> omega

theorem minus_regular (regular : row.dust < row.balance.symbol.unit) (amount : Nat) :
    (row.minus amount).dust < (row.minus amount).balance.symbol.unit := by
  have rest := Nat.mod_lt amount row.balance.symbol.unit_pos
  simp only [minus_dust, borrow, minus_symbol]
  split_ifs <;> omega

theorem sub_join (normal : row.Normal) (taken : row.sub amount = .ok first) (also : first.sub other = .ok second) :
    row.sub (amount + other) = .ok second := by
  have middle := (sub_spec normal taken).1
  obtain ⟨enough, rfl⟩ := (sub_ok normal _ _).mp taken
  obtain ⟨more, rfl⟩ := (sub_ok middle _ _).mp also
  rw [value_ofValue] at more
  rw [sub_ok normal, value_ofValue, ofValue_symbol, Nat.sub_sub]
  exact ⟨by omega, rfl⟩

theorem Loose.normal (loose : row.Loose) (regular : row.dust < row.balance.symbol.unit)
    (taken : row.sub amount = .ok result) : row.Normal := by
  obtain ⟨_, _, precise, named, _⟩ := loose.sub_spec taken
  exact ⟨named, precise, loose.nonneg, loose.bounded, regular⟩

end BalanceWithDust

namespace Funds

def withRow (funds : Funds) (owner : Name) (row : BalanceWithDust) : Funds :=
  { funds with balances := funds.balances.put owner row }

def Trim (funds : Funds) (owner : Name) : Prop :=
  ∀ row, funds.balances.get? owner = some row → row.dust < row.balance.symbol.unit

end Funds

section Charge

variable {funds charged : Funds} {symbol : Symbol} {tx : Transaction} {account : Name} {given : Nat}

theorem given_exact (fits : maxGasCost tx + tx.value < max256) :
    u256 (tx.value + maxGasCost tx) = maxGasCost tx + tx.value := by
  unfold max256 at fits
  rw [Nat.add_comm, u256_of_lt (by omega)]

theorem chargeSender_split (loose : funds.Loose symbol)
    (charges : chargeSender (bridgeConfig none) tx account funds = .ok (charged, given)) :
    ∃ held lean, charged.balances.get? account = some held ∧ held.Loose ∧ lean.Loose ∧ lean.Leaner held ∧
      chargeSender (bridgeConfig (some account)) tx account funds = .ok (charged.withRow account lean, given) := by
  simp only [chargeSender, debitPayers, bridgeConfig, Funds.debit_ok, Funds.enterEvm_ok, bind_ok, check_ok,
    exists_const, pure_ok, Prod.mk.injEq] at charges
  obtain ⟨fits, _, ⟨row, found, held, taken, rfl⟩, _, ⟨inside, present, entered, enters, rfl⟩, rfl, rfl⟩ := charges
  have small := given_exact fits
  have fitsRow := loose.balances account row found
  rw [small] at taken
  have heldLoose := (fitsRow.sub_spec taken).1
  by_cases positive : 0 < tx.value
  · obtain ⟨middle, rest, first, second, leaner⟩ := fitsRow.sub_split taken
    have restLoose := ((fitsRow.sub_spec first).1.sub_spec second).1
    refine ⟨held, rest, by rw [Table.get?_put, if_pos rfl], heldLoose, restLoose, leaner, ?_⟩
    simp only [chargeSender, debitPayers, bridgeConfig, Funds.debit_ok, Funds.enterEvm_ok, if_pos positive, bind_ok,
      check_ok, exists_const, pure_ok, Prod.mk.injEq]
    refine ⟨fits, _, ⟨_, ⟨row, found, middle, first, rfl⟩, middle, by rw [Table.get?_put, if_pos rfl], rest, second, rfl⟩,
      _, ⟨inside, present, entered, enters, rfl⟩, ?_, trivial⟩
    simp only [Funds.withRow, Table.put_put]
  · have zero : tx.value = 0 := Nat.eq_zero_of_not_pos positive
    rw [zero, Nat.add_zero] at taken
    refine ⟨held, held, by rw [Table.get?_put, if_pos rfl], heldLoose, heldLoose, ⟨rfl, rfl, Nat.le_refl _⟩, ?_⟩
    simp only [chargeSender, debitPayers, bridgeConfig, Funds.debit_ok, Funds.enterEvm_ok, if_neg positive, bind_ok,
      check_ok, exists_const, pure_ok, Prod.mk.injEq]
    refine ⟨fits, _, ⟨_, ⟨row, found, held, taken, rfl⟩, rfl⟩, _, ⟨inside, present, entered, enters, rfl⟩, ?_, trivial⟩
    simp only [Funds.withRow, Table.put_put]

theorem chargeSender_join (loose : funds.Loose symbol) (trim : funds.Trim account)
    (charges : chargeSender (bridgeConfig (some account)) tx account funds = .ok (charged, given)) :
    chargeSender (bridgeConfig none) tx account funds = .ok (charged, given) := by
  simp only [chargeSender, debitPayers, bridgeConfig, Funds.debit_ok, Funds.enterEvm_ok, bind_ok, check_ok,
    exists_const, pure_ok, Prod.mk.injEq] at charges ⊢
  obtain ⟨fits, debited, ⟨_, ⟨row, found, middle, first, rfl⟩, value⟩, _, ⟨inside, present, entered, enters, rfl⟩, rfl,
    rfl⟩ := charges
  have small := given_exact fits
  have normal := (loose.balances account row found).normal (trim row found) first
  have whole : ∃ rest, row.sub (maxGasCost tx + tx.value) = .ok rest ∧
      debited = { funds with balances := funds.balances.put account rest } := by
    split at value
    · obtain ⟨_, stored, rest, second, rfl⟩ := Funds.debit_ok.mp value
      rw [Table.get?_put, if_pos rfl] at stored
      cases stored
      exact ⟨rest, BalanceWithDust.sub_join normal first second, by rw [Table.put_put]⟩
    · rename_i positive
      cases value
      rw [Nat.eq_zero_of_not_pos positive]
      exact ⟨middle, first, rfl⟩
  obtain ⟨rest, taken, rfl⟩ := whole
  rw [← small] at taken
  exact ⟨fits, _, ⟨row, found, rest, taken, rfl⟩, _, ⟨inside, present, entered, enters, rfl⟩, rfl, rfl⟩

end Charge

section Loop

variable {env : Env} {egresslist : Table Name Unit} {unit : Nat} {messages : List FilteredMessage}
  {egress reached : Egress} {object : Name × Account} {owner : Name} {held lean result : BalanceWithDust}

def Egress.withRow (egress : Egress) (owner : Name) (row : BalanceWithDust) : Egress :=
  { egress with funds := egress.funds.withRow owner row }

theorem egressObject_withRow (stepped : egressObject env egresslist unit none messages egress object = .ok reached)
    (idle : object.1 ≠ owner ∨ object.2.balance = 0) :
    egressObject env egresslist unit none messages (egress.withRow owner lean) object =
      .ok (reached.withRow owner lean) := by
  simp only [egressObject, bind_ok, check_ok, exists_const] at stepped ⊢
  obtain ⟨codeless, named, stepped⟩ := stepped
  refine ⟨codeless, named, ?_⟩
  split at stepped
  · rename_i zero
    cases stepped
    rw [if_pos zero]
    rfl
  · rename_i nonzero
    rw [if_neg nonzero]
    have apart := idle.resolve_right nonzero
    have same : (egress.withRow owner lean).funds.balances.get? object.1 = egress.funds.balances.get? object.1 := by
      simp only [Egress.withRow, Funds.withRow, Table.get?_put, if_neg apart.symm]
    rw [same]
    split at stepped
    · rename_i isOpen
      rw [if_pos isOpen]
      simp only [creditReserved, Funds.credit_ok, bind_ok, pure_ok] at stepped ⊢
      obtain ⟨_, ⟨row, present, grown, added, rfl⟩, rfl⟩ := stepped
      refine ⟨_, ⟨row, same.trans present, grown, added, rfl⟩, ?_⟩
      simp only [Egress.withRow, Funds.withRow]
      rw [Table.put_comm _ apart.symm]
    · rename_i isClosed
      rw [if_neg isClosed]
      simp only [sendReserved, bind_ok, check_ok, exists_const, pure_ok] at stepped ⊢
      obtain ⟨other, exists_, allowed, marked, marks, zero, rfl⟩ := stepped
      exact ⟨other, exists_, allowed, marked, marks, zero, rfl⟩

theorem egressObject_merges {credit : Account}
    (stepped : egressObject env egresslist unit none messages egress (owner, credit) = .ok reached)
    (found : egress.funds.balances.get? owner = some held) (nonzero : credit.balance ≠ 0)
    (added : held.add credit.balance = .ok result) (also : lean.add credit.balance = .ok result) :
    egressObject env egresslist unit none messages (egress.withRow owner lean) (owner, credit) = .ok reached := by
  simp only [egressObject, bind_ok, check_ok, exists_const, if_neg nonzero, found, Option.isSome_some, if_true,
    creditReserved, Funds.credit_ok, pure_ok, Option.some.injEq] at stepped
  obtain ⟨codeless, named, _, ⟨_, rfl, grown, grows, rfl⟩, rfl⟩ := stepped
  cases added.symm.trans grows
  have present : (egress.withRow owner lean).funds.balances.get? owner = some lean := by
    simp only [Egress.withRow, Funds.withRow, Table.get?_put, if_true]
  simp only [egressObject, bind_ok, check_ok, exists_const, if_neg nonzero, present, Option.isSome_some, if_true,
    creditReserved, Funds.credit_ok, pure_ok, Option.some.injEq]
  refine ⟨codeless, named, _, ⟨_, rfl, _, also, rfl⟩, ?_⟩
  simp only [Egress.withRow, Funds.withRow, Table.put_put]

theorem egressLoop_merges {objects : List (Name × Account)} (distinct : (objects.map Prod.fst).Nodup)
    (folded : foldOutcome (egressObject env egresslist unit none messages) objects egress = .ok reached)
    (found : egress.funds.balances.get? owner = some held) (nonzero : received objects owner ≠ 0)
    (added : held.add (received objects owner) = .ok result) (also : lean.add (received objects owner) = .ok result) :
    foldOutcome (egressObject env egresslist unit none messages) objects (egress.withRow owner lean) = .ok reached := by
  induction objects generalizing egress with
  | nil => exact absurd rfl nonzero
  | cons object rest ih =>
      obtain ⟨next, stepped, remaining⟩ := (foldOutcome_cons _ _ _ _ _).mp folded
      rw [List.map_cons, List.nodup_cons] at distinct
      rw [foldOutcome_cons]
      by_cases idle : object.1 ≠ owner ∨ object.2.balance = 0
      · rw [received_cons_idle idle] at nonzero added also
        exact ⟨_, egressObject_withRow stepped idle,
          ih distinct.2 remaining ((egressObject_row stepped found).1 idle) nonzero added also⟩
      · obtain ⟨own, present⟩ := not_or.mp idle
        have own := not_not.mp own
        obtain ⟨_, whole⟩ := received_cons_own distinct.1 own
        rw [whole] at added also
        obtain ⟨name, credit⟩ := object
        cases own
        exact ⟨next, egressObject_merges stepped found present added also, remaining⟩

end Loop

section Egress

variable {env : Env} {config : ConfigWrapper} {egresslist : Table Name Unit} {output : RunOutput} {funds after : Funds}
  {deducted : Bool} {sent : List Inline} {owner : Name} {held lean result : BalanceWithDust}

theorem egressFunds_merges (egressed : egressFunds env config egresslist none output funds = .ok (after, deducted, sent))
    (found : funds.balances.get? owner = some held) (nonzero : received output.reservedObjects owner ≠ 0)
    (added : held.add (received output.reservedObjects owner) = .ok result)
    (also : lean.add (received output.reservedObjects owner) = .ok result) :
    egressFunds env config egresslist none output (funds.withRow owner lean) = .ok (after, deducted, sent) := by
  simp only [egressFunds] at egressed ⊢
  split at egressed
  · rename_i nothing
    exact absurd (by rw [nothing]; rfl) nonzero
  · rename_i something
    rw [if_neg something]
    simp only [bind_ok, pure_ok, Prod.mk.injEq] at egressed ⊢
    obtain ⟨unit, unitOk, egress, folded, actions, sends, left, leaves, same⟩ := egressed
    have merged := egressLoop_merges output.distinctReserved folded found nonzero added also
    exact ⟨unit, unitOk, egress, merged, actions, sends, left, leaves, same⟩

end Egress

section Execute

variable {env : Env} {context : TxContext} {funds charged left refunded after : Funds} {fromSelf deducted : Bool}
  {input : RunInput} {output : RunOutput} {sent : List Inline} {account : Name} {nonce baseFee : Nat} {symbol : Symbol}

def TxContext.paidBy (context : TxContext) (gasPayer : Option Name) : TxContext :=
  { context with rc := bridgeConfig gasPayer }

theorem prepareSender_reserved {gasPayer : Option Name} (form : context.tx.IsBridge nonce account.val)
    {prepared : Funds × Bool × Option (Nat × Nat)} :
    prepareSender env (bridgeConfig gasPayer) context.tx (makeReservedAddress account) funds = .ok prepared ↔
      ∃ charged given, chargeSender (bridgeConfig gasPayer) context.tx account funds = .ok (charged, given) ∧
        (charged, account == env.self, some (given, context.tx.nonce)) = prepared := by
  simp only [prepareSender, form.special, if_true, extractReservedAddress_makeReservedAddress, bind_ok, check_ok,
    pure_ok]
  constructor
  · rintro ⟨_, _, ⟨charged, given⟩, charges, rfl⟩
    exact ⟨charged, given, charges, rfl⟩
  · rintro ⟨charged, given, charges, rfl⟩
    exact ⟨(), rfl, _, charges, rfl⟩

theorem beginTx_paidBy {first : Option Name} (signs : env.evm.Signs) (form : context.tx.IsBridge nonce account.val)
    (begun : beginTx env (context.paidBy first) funds = .ok (charged, fromSelf, input)) :
    ∃ given, chargeSender (bridgeConfig first) context.tx account funds = .ok (charged, given) ∧
      ∀ second other, chargeSender (bridgeConfig second) context.tx account funds = .ok (other, given) →
        beginTx env (context.paidBy second) funds = .ok (other, fromSelf, input) := by
  have named := signs.named context.tx account form.r form.s
  simp only [beginTx, TxContext.paidBy, named, require_ok, bind_ok, pure_ok, Prod.mk.injEq,
    Option.some.injEq] at begun ⊢
  obtain ⟨_, mined, _, accepted, _, rfl, prepared, prepares, _, unchecked, rfl, rfl, rfl⟩ := begun
  obtain ⟨taken, given, charges, rfl⟩ := (prepareSender_reserved form).mp prepares
  refine ⟨given, charges, fun second other charged => ?_⟩
  exact ⟨_, mined, _, accepted, _, rfl, _, (prepareSender_reserved form).mpr ⟨other, given, charged, rfl⟩, _,
    unchecked, rfl, rfl, rfl⟩

theorem Funds.Trim.charge {tx : Transaction} {given : Nat} (trim : funds.Trim account) (loose : funds.Loose symbol)
    (charges : chargeSender (bridgeConfig none) tx account funds = .ok (charged, given)) : charged.Trim account := by
  simp only [chargeSender, debitPayers, bridgeConfig, Funds.debit_ok, Funds.enterEvm_ok, bind_ok, check_ok,
    exists_const, pure_ok, Prod.mk.injEq] at charges
  obtain ⟨_, _, ⟨row, found, rest, taken, rfl⟩, _, ⟨_, _, _, _, rfl⟩, rfl, _⟩ := charges
  obtain ⟨_, _, rfl⟩ := ((loose.balances account row found).sub_ok _ _).mp taken
  intro stored present
  rw [Table.get?_put, if_pos rfl] at present
  cases present
  exact BalanceWithDust.minus_regular (trim row found) _

theorem Funds.Trim.egress {config : ConfigWrapper} {egresslist : Table Name Unit} (trim : funds.Trim account)
    (loose : funds.Loose symbol)
    (egressed : egressFunds env config egresslist none output funds = .ok (after, deducted, sent)) : after.Trim account := by
  intro stored present
  have opened := (egressFunds_shifts loose egressed).opened account
  rw [present] at opened
  obtain ⟨row, found⟩ := Option.isSome_iff_exists.mp opened.symm
  obtain ⟨keeps, adds⟩ := egressFunds_row egressed found
  by_cases zero : received output.reservedObjects account = 0
  · cases present.symm.trans (keeps zero)
    exact trim _ found
  · obtain ⟨result, added, changed⟩ := adds zero
    cases present.symm.trans changed
    obtain ⟨_, _, rfl⟩ := ((loose.balances account row found).add_ok _ _).mp added
    exact BalanceWithDust.plus_regular (trim row found) _

section Refund

variable {header : BlockHeader} {tx : Transaction} {sender : Address}

theorem refundGas_own (metered : Metered header tx output) (base : header.baseFeePerGas = some baseFee)
    (small : tx.gasLimit * tx.maxFeePerGas < max256) (reserved : sender = makeReservedAddress account) :
    refundGas header tx sender (some account) output funds = .ok refunded ↔
      0 < Exact.unspentGas header tx output ∧ ∃ row rest again, funds.balances.get? account = some row ∧
        row.sub (Exact.unspentGas header tx output) = .ok rest ∧
        rest.add (Exact.unspentGas header tx output) = .ok again ∧ funds.withRow account again = refunded := by
  have unspent : Exact.unspentGas header tx output = tx.gasLimit * tx.maxFeePerGas -
      output.cumulativeGasUsed * (Exact.priorityFeePerGas tx baseFee + baseFee) := by
    simp [Exact.unspentGas, Exact.gasFee, Exact.effectiveGasPrice, base]
  have named := (extractReservedAddress_eq_some _ _).mpr reserved
  rw [metered.refundGas_exact, unspent]
  simp only [Exact.refundGas, base, named, Funds.debit_ok, Funds.credit_ok, bind_ok, require_ok, check_ok, exists_const,
    Option.some.injEq]
  constructor
  · rintro ⟨_, rfl, ⟨_, _, cheaper⟩, _, rfl, _, ⟨row, found, rest, taken, rfl⟩, _, present, again, added, rfl⟩
    rw [Table.get?_put, if_pos rfl] at present
    cases present
    exact ⟨Nat.sub_pos_of_lt cheaper, row, rest, again, found, taken, added, by rw [Funds.withRow, Table.put_put]⟩
  · rintro ⟨positive, row, rest, again, found, taken, added, rfl⟩
    have cheaper := Nat.lt_of_sub_pos positive
    refine ⟨baseFee, rfl, ⟨cheaper.trans small, small, cheaper⟩, account, rfl, _, ⟨row, found, rest, taken, rfl⟩, rest, ?_,
      again, added, by rw [Funds.withRow, Table.put_put]⟩
    rw [Table.get?_put, if_pos rfl]

theorem refundGas_trim (loose : funds.Loose symbol) (trim : funds.Trim account) (metered : Metered header tx output)
    (base : header.baseFeePerGas = some baseFee) (small : tx.gasLimit * tx.maxFeePerGas < max256)
    (reserved : sender = makeReservedAddress account) :
    refundGas header tx sender (some account) output funds = .ok refunded ↔
      0 < Exact.unspentGas header tx output ∧ funds = refunded ∧ ∃ row rest, funds.balances.get? account = some row ∧
        row.sub (Exact.unspentGas header tx output) = .ok rest := by
  rw [refundGas_own metered base small reserved]
  have kept : ∀ {row : BalanceWithDust}, funds.balances.get? account = some row → funds.withRow account row = funds := by
    intro row found
    rw [Funds.withRow, Table.put_of_get? found]
  constructor
  · rintro ⟨positive, row, rest, again, found, taken, added, rfl⟩
    have back := (loose.balances account row found).sub_add (trim row found) taken
    cases added.symm.trans back
    exact ⟨positive, (kept found).symm, row, rest, found, taken⟩
  · rintro ⟨positive, rfl, row, rest, found, taken⟩
    exact ⟨positive, row, rest, row, found, taken, (loose.balances account row found).sub_add (trim row found) taken,
      kept found⟩

end Refund

/-- The stages of a transaction in the name of an account, with whoever pays its gas. -/
structure Paid (env : Env) (context : TxContext) (account : Name) (gasPayer : Option Name) (funds charged left after : Funds)
    (input : RunInput) (output : RunOutput) (sent : List Inline) : Prop where
  bridged : input.Bridged env.evm account
  tx : input.tx = context.tx
  header : input.header = context.header
  small : context.tx.gasLimit * context.tx.maxFeePerGas < max256
  metered : 0 < context.tx.gasLimit → Metered context.header context.tx output
  charges : chargeSender (bridgeConfig gasPayer) context.tx account funds =
    .ok (charged, context.tx.value + context.tx.gasLimit * context.tx.maxFeePerGas)
  ran : env.evm.executeTransaction input = .ok output
  egressed : ∃ deducted, egressFunds env context.config context.egresslist none output charged = .ok (left, deducted, sent)
  refunds : ∃ refunded statistics, refundGas context.header context.tx input.sender gasPayer output left = .ok refunded ∧
    after = { refunded with statistics := statistics }
  begins : ∀ second other, chargeSender (bridgeConfig second) context.tx account funds =
      .ok (other, context.tx.value + context.tx.gasLimit * context.tx.maxFeePerGas) →
    ∃ fromSelf, beginTx env (context.paidBy second) funds = .ok (other, fromSelf, input)
  -- with another gas payer it ends the same, if the funds are the same after the refund
  varies : ∀ second other rest deducted refunded, chargeSender (bridgeConfig second) context.tx account funds =
      .ok (other, context.tx.value + context.tx.gasLimit * context.tx.maxFeePerGas) →
    egressFunds env context.config context.egresslist none output other = .ok (rest, deducted, sent) →
    refundGas context.header context.tx input.sender second output rest = .ok refunded →
    refundGas context.header context.tx input.sender gasPayer output left = .ok refunded →
    executeTx env (context.paidBy second) funds = .ok (after, sent, input, output)

theorem executeTx_paid {gasPayer : Option Name} (meters : env.evm.Meters) (signs : env.evm.Signs)
    (form : context.tx.IsBridge nonce account.val) (self : context.miner = env.self)
    (executed : executeTx env (context.paidBy gasPayer) funds = .ok (after, sent, input, output)) :
    ∃ charged left, Paid env context account gasPayer funds charged left after input output sent := by
  have formed : (context.paidBy gasPayer).tx.IsBridge nonce account.val := form
  have unmined : ∀ second, (context.paidBy second).miner = env.self := fun _ => self
  obtain ⟨bridged, sameTx, sameHeader, _, covered, _, _⟩ := executeTx_bridged meters signs formed executed
  obtain ⟨charged, fromSelf, begun, validated, ran, settled⟩ := executeTx_ok executed
  obtain ⟨given, charges, begins⟩ := beginTx_paidBy signs form begun
  have charges : chargeSender (context.paidBy gasPayer).rc (context.paidBy gasPayer).tx account funds =
    .ok (charged, given) := charges
  obtain ⟨fits, rfl⟩ := chargeSender_given covered charges
  obtain ⟨succeeded, left, deducted, refunded, egressed, refunds, records⟩ := (settleTx_unmined (unmined _)).mp settled
  obtain ⟨statistics, same⟩ := recordGasFee_spec records
  refine ⟨charged, left, bridged, sameTx, sameHeader, lt_of_le_of_lt (Nat.le_add_right _ _) fits, fun limited => ?_, charges,
    ran, ⟨deducted, egressed⟩, ⟨refunded, statistics, refunds, same⟩, fun second other charge => ⟨_, begins second other charge⟩,
    ?_⟩
  · have positive : 0 < (context.paidBy gasPayer).tx.gasLimit := limited
    have metered : Metered (context.paidBy gasPayer).header (context.paidBy gasPayer).tx output :=
      meters.metered_of_ran begun validated ran
    exact metered
  · intro second other rest otherDeducted otherRefunded charge egress refund unchanged
    cases refunds.symm.trans unchanged
    have settles := (settleTx_unmined (unmined second)).mpr
      ⟨succeeded, rest, otherDeducted, refunded, egress, refund, records⟩
    simp only [executeTx, begins second other charge, ok_bind, validated, checkResult, ran, settles, bind_ok, check_ok,
      exists_const, pure_ok]
    trivial

section Compare

variable (loose : funds.Loose symbol) (meters : env.evm.Meters) (signs : env.evm.Signs)
  (form : context.tx.IsBridge nonce account.val) (self : context.miner = env.self)

include loose meters signs form self

theorem Funds.Trim.execute (trim : funds.Trim account)
    (executed : executeTx env (context.paidBy none) funds = .ok (after, sent, input, output)) : after.Trim account := by
  obtain ⟨charged, left, paid⟩ := executeTx_paid meters signs form self executed
  obtain ⟨deducted, egressed⟩ := paid.egressed
  obtain ⟨_, statistics, ⟨⟩, rfl⟩ := paid.refunds
  have kept := (chargeSender_shifts loose paid.charges).2.2.loose
  have regular := (trim.charge loose paid.charges).egress kept egressed
  exact regular

theorem executeTx_refunded
    (executed : executeTx env (context.paidBy (some account)) funds = .ok (after, sent, input, output)) :
    Metered context.header context.tx output ∧ 0 < Exact.unspentGas context.header context.tx output := by
  have formed : (context.paidBy (some account)).tx.IsBridge nonce account.val := form
  have unmined : (context.paidBy (some account)).miner = env.self := self
  obtain ⟨_, _, _, _, metered, positive, _⟩ := executeTx_gasPayer loose meters signs formed unmined rfl executed
  exact ⟨metered, positive⟩

theorem executeTx_gasLeft {other : Funds} {otherSent : List Inline} {otherInput : RunInput} {otherOutput : RunOutput}
    (executed : executeTx env (context.paidBy none) funds = .ok (after, sent, input, output))
    (paying : executeTx env (context.paidBy (some account)) funds = .ok (other, otherSent, otherInput, otherOutput)) :
    otherInput = input ∧ otherOutput = output ∧ context.tx.maxFeePerGas ≠ 0 ∧
      output.cumulativeGasUsed < context.tx.gasLimit := by
  obtain ⟨charged, left, direct⟩ := executeTx_paid meters signs form self executed
  obtain ⟨otherCharged, otherLeft, paid⟩ := executeTx_paid meters signs form self paying
  obtain ⟨_, begins⟩ := direct.begins none charged direct.charges
  obtain ⟨_, alike⟩ := paid.begins none charged direct.charges
  cases begins.symm.trans alike
  cases direct.ran.symm.trans paid.ran
  obtain ⟨_, positive⟩ := executeTx_refunded loose meters signs form self paying
  have most := direct.bridged.most meters
  rw [direct.tx, direct.header] at most
  exact ⟨rfl, rfl, (unspentGas_pos form.price most).mp positive⟩

variable (base : context.header.baseFeePerGas = some baseFee)

include base

theorem executeTx_selfPaid (refunds : env.evm.Refunds)
    (executed : executeTx env (context.paidBy none) funds = .ok (after, sent, input, output))
    (priced : context.tx.maxFeePerGas ≠ 0) (fewer : output.cumulativeGasUsed < context.tx.gasLimit)
    (trim : after.Trim account) :
    executeTx env (context.paidBy (some account)) funds = .ok (after, sent, input, output) := by
  obtain ⟨charged, left, paid⟩ := executeTx_paid meters signs form self executed
  obtain ⟨deducted, egressed⟩ := paid.egressed
  obtain ⟨_, statistics, ⟨⟩, rfl⟩ := paid.refunds
  have metered := paid.metered (lt_of_le_of_lt (Nat.zero_le _) fewer)
  obtain ⟨held, lean, found, heldLoose, leanLoose, leaner, split⟩ := chargeSender_split loose paid.charges
  have most := paid.bridged.most meters
  have enough := (unspentGas_le_shares account input.header input.tx output).trans
    (refunds.shares input output account paid.bridged paid.ran account)
  rw [paid.tx, paid.header] at most enough
  have positive := (unspentGas_pos form.price most).mpr ⟨priced, fewer⟩
  have nonzero : received output.reservedObjects account ≠ 0 := Nat.ne_of_gt (Nat.lt_of_lt_of_le positive enough)
  -- what the account receives brings both forms of its balance to the same
  obtain ⟨result, added, credited⟩ := (egressFunds_row egressed found).2 nonzero
  have also := leaner.add leanLoose heldLoose added (trim result credited)
  have merged := egressFunds_merges egressed found nonzero added also
  have kept := (egressFunds_shifts (chargeSender_shifts loose paid.charges).2.2.loose egressed).loose
  obtain ⟨rest, taken⟩ := heldLoose.exists_sub_of_add added enough
  have refund := (refundGas_trim kept trim metered base paid.small paid.bridged.sender).mpr
    ⟨positive, rfl, result, rest, credited, taken⟩
  exact paid.varies (some account) _ left deducted left split merged refund rfl

theorem executeTx_paidItself (trim : funds.Trim account)
    (executed : executeTx env (context.paidBy (some account)) funds = .ok (after, sent, input, output)) :
    executeTx env (context.paidBy none) funds = .ok (after, sent, input, output) := by
  obtain ⟨charged, left, paid⟩ := executeTx_paid meters signs form self executed
  obtain ⟨deducted, egressed⟩ := paid.egressed
  obtain ⟨refunded, statistics, refund, rfl⟩ := paid.refunds
  have joined := chargeSender_join loose trim paid.charges
  have kept := (egressFunds_shifts (chargeSender_shifts loose paid.charges).2.2.loose egressed).loose
  have regular := (trim.charge loose joined).egress (chargeSender_shifts loose paid.charges).2.2.loose egressed
  obtain ⟨metered, _⟩ := executeTx_refunded loose meters signs form self executed
  obtain ⟨_, rfl, _⟩ := (refundGas_trim kept regular metered base paid.small paid.bridged.sender).mp refund
  exact paid.varies none charged left deducted left joined egressed rfl refund

end Compare

end Execute

section Call

variable {env : Env} {before done : Contract} {sender : Name} {recipient value data : Bytes} {gasLimit : Nat}

def callContract (env : Env) (sender : Name) (nonce : Nat) (contract : Contract) : Contract :=
  { contract with
    config := ((contract.config.refresh env.now).promoteEvmVersion env.now).2
    nextnonces := contract.nextnonces.put sender (nonce + 1) }

theorem callTx_form {worth : Nat} (env : Env) (sender : Name) (recipient data : Bytes) (gasLimit nonce : Nat)
    (contract : Contract) (loaded : loadValue value = .ok worth) :
    (callTx env sender.val recipient worth data gasLimit nonce contract).IsBridge nonce sender.val :=
  Contract.callTx_isBridge env recipient data gasLimit nonce contract (Contract.loadValue_ok loaded).2
    (Contract.name_lt sender)

theorem callWith_active {rc : RuntimeConfig} {worth nonce : Nat} (contract : Contract)
    (active : 1 ≤ contract.config.getEvmVersion env.now) :
    callWith env rc sender.val recipient worth data gasLimit nonce
        { contract with nextnonces := contract.nextnonces.put sender (nonce + 1) } =
      processTx env rc env.self (.ofTx (callTx env sender.val recipient worth data gasLimit nonce contract)) none
        (callContract env sender nonce contract) := by
  have version : 1 ≤ ((contract.config.refresh env.now).promoteEvmVersion env.now).1 := by
    rw [ConfigWrapper.promoteEvmVersion_fst, ConfigWrapper.getEvmVersion_refresh]
    exact active
  have refreshed : refreshPrices env { contract with nextnonces := contract.nextnonces.put sender (nonce + 1) } =
      { contract with
        config := contract.config.refresh env.now
        nextnonces := contract.nextnonces.put sender (nonce + 1) } := by
    rw [Contract.refreshPrices_eq, refreshPrices_config]
  simp only [callWith, callTx, refreshed, refreshPrices_config, dispatchTx, if_pos version]
  rfl

theorem call_ok (active : 1 ≤ before.config.getEvmVersion env.now) :
    Contract.call env sender recipient value data gasLimit before = .ok done ↔
      assertUnfrozen before.config = .ok () ∧ sender ∈ env.auths ∧ ∃ worth nonce, loadValue value = .ok worth ∧
        before.nextnonces.get? sender = some nonce ∧
        processTx env (bridgeConfig none) env.self
          (.ofTx (callTx env sender.val recipient worth data gasLimit nonce before)) none
          (callContract env sender nonce before) = .ok done := by
  simp only [Contract.call, getAndIncrementNonce, bind_ok, requireAuth_ok, require_ok, exists_const, pure_ok]
  constructor
  · rintro ⟨_, ready, authorised, worth, loaded, _, ⟨nonce, numbered, rfl⟩, called⟩
    rw [callWith_active before active] at called
    exact ⟨ready, authorised, worth, nonce, loaded, numbered, called⟩
  · rintro ⟨ready, authorised, worth, nonce, loaded, numbered, processed⟩
    refine ⟨(), ready, authorised, worth, loaded, _, ⟨nonce, numbered, rfl⟩, ?_⟩
    rw [callWith_active before active]
    exact processed

theorem callTx_promoted (worth nonce : Nat) :
    callTx env sender.val recipient worth data gasLimit nonce
        (before.setConfig (before.config.promoteEvmVersion env.now).2) =
      callTx env sender.val recipient worth data gasLimit nonce before := by
  have price := (before.config.promoteEvmVersion_refresh env.now).2
  have version := before.config.getEvmVersion_promoteEvmVersion env.now
  simp only [callTx, refreshPrices_config, Contract.setConfig, version, price]

theorem callContract_promoted (nonce : Nat) :
    callContract env sender nonce (before.setConfig (before.config.promoteEvmVersion env.now).2) =
      callContract env sender nonce before := by
  simp only [callContract, Contract.setConfig, (before.config.promoteEvmVersion_refresh env.now).1]

theorem callotherpay_self (active : 1 ≤ before.config.getEvmVersion env.now) :
    Contract.callotherpay env sender sender recipient value data gasLimit before = .ok done ↔
      assertUnfrozen before.config = .ok () ∧ sender ∈ env.auths ∧ ∃ worth nonce, loadValue value = .ok worth ∧
        before.nextnonces.get? sender = some nonce ∧
        processTx env (bridgeConfig (some sender)) env.self
          (.ofTx (callTx env sender.val recipient worth data gasLimit nonce before)) none
          (callContract env sender nonce before) = .ok done := by
  have promoted : 1 ≤ (before.setConfig (before.config.promoteEvmVersion env.now).2).config.getEvmVersion env.now :=
    active.trans_eq (before.config.getEvmVersion_promoteEvmVersion env.now).symm
  simp only [Contract.callotherpay, getAndIncrementNonce, bind_ok, requireAuth_ok, check_ok, require_ok, exists_const,
    pure_ok, ConfigWrapper.promoteEvmVersion_fst]
  constructor
  · rintro ⟨_, ready, authorised, _, _, worth, loaded, _, ⟨nonce, numbered, rfl⟩, called⟩
    rw [callWith_active _ promoted, callTx_promoted, callContract_promoted] at called
    exact ⟨ready, authorised, worth, nonce, loaded, numbered, called⟩
  · rintro ⟨ready, authorised, worth, nonce, loaded, numbered, processed⟩
    refine ⟨(), ready, authorised, authorised, active, worth, loaded, _, ⟨nonce, numbered, rfl⟩, ?_⟩
    rw [callWith_active _ promoted, callTx_promoted, callContract_promoted]
    exact processed

theorem processTx_executes {contract : Contract} {tx : Transaction} {gasPayer : Option Name}
    (processed : processTx env (bridgeConfig gasPayer) env.self (.ofTx tx) none contract = .ok done) :
    ∃ after sent input output, executeTx env ((contextOf env (bridgeConfig none) env.self tx contract).paidBy gasPayer)
      contract.funds = .ok (after, sent, input, output) := by
  obtain ⟨_, after, sent, input, output, _, _, _, ⟨⟩, _, _, _, _, executed, _⟩ := processTx_ok processed
  exact ⟨after, sent, input, output, executed⟩

theorem processTx_paidBy {contract : Contract} {tx : Transaction} {first second : Option Name}
    (same : executeTx env (contextOf env (bridgeConfig first) env.self tx contract) contract.funds =
      executeTx env (contextOf env (bridgeConfig second) env.self tx contract) contract.funds) :
    processTx env (bridgeConfig first) env.self (.ofTx tx) none contract =
      processTx env (bridgeConfig second) env.self (.ofTx tx) none contract := by
  simp only [contextOf] at same
  simp only [processTx, Txn.getTx, ok_bind, same]
  rfl

/-- The run of the transaction of a `call`. -/
def callRun (env : Env) (sender : Name) (recipient value data : Bytes) (gasLimit : Nat) (contract : Contract) :
    Outcome (RunInput × RunOutput) := do
  let worth ← loadValue value
  let nonce ← require (contract.nextnonces.get? sender) "caller account has not been opened"
  let tx := callTx env sender.val recipient worth data gasLimit nonce contract
  let context := contextOf env (bridgeConfig none) env.self tx (callContract env sender nonce contract)
  let executed ← executeTx env context contract.funds
  return executed.2.2

/-- The gas of a `call` has a price, and not all of it is used. -/
def LeavesGas (env : Env) (sender : Name) (recipient value data : Bytes) (gasLimit : Nat) (contract : Contract) : Prop :=
  ∃ input output, callRun env sender recipient value data gasLimit contract = .ok (input, output) ∧
    input.tx.maxFeePerGas ≠ 0 ∧ output.cumulativeGasUsed < input.tx.gasLimit

theorem leavesGas_iff (meters : env.evm.Meters) (signs : env.evm.Signs) {worth nonce : Nat} {after : Funds}
    {sent : List Inline} {input : RunInput} {output : RunOutput} (loaded : loadValue value = .ok worth)
    (numbered : before.nextnonces.get? sender = some nonce)
    (executed : executeTx env (contextOf env (bridgeConfig none) env.self
      (callTx env sender.val recipient worth data gasLimit nonce before) (callContract env sender nonce before))
        before.funds = .ok (after, sent, input, output)) :
    LeavesGas env sender recipient value data gasLimit before ↔
      (callTx env sender.val recipient worth data gasLimit nonce before).maxFeePerGas ≠ 0 ∧
        output.cumulativeGasUsed < (callTx env sender.val recipient worth data gasLimit nonce before).gasLimit := by
  have form := callTx_form env sender recipient data gasLimit nonce before loaded
  obtain ⟨_, sameTx, _⟩ := executeTx_bridged meters signs (by exact form) executed
  have sameTx : input.tx = callTx env sender.val recipient worth data gasLimit nonce before := sameTx
  have runs : callRun env sender recipient value data gasLimit before = .ok (input, output) := by
    simp only [callRun, loaded, numbered, require, ok_bind, executed]
    rfl
  constructor
  · rintro ⟨_, _, ran, priced, fewer⟩
    cases runs.symm.trans ran
    exact ⟨sameTx ▸ priced, sameTx ▸ fewer⟩
  · rintro ⟨priced, fewer⟩
    exact ⟨input, output, runs, sameTx ▸ priced, sameTx ▸ fewer⟩

section Compare

variable (loose : before.Loose) (active : 1 ≤ before.config.getEvmVersion env.now) (meters : env.evm.Meters)
  (signs : env.evm.Signs)

include loose active meters signs

theorem leavesGas_of_both {other : Contract} (called : Contract.call env sender recipient value data gasLimit before = .ok done)
    (paid : Contract.callotherpay env sender sender recipient value data gasLimit before = .ok other) :
    LeavesGas env sender recipient value data gasLimit before := by
  obtain ⟨_, _, worth, nonce, loaded, numbered, processed⟩ := (call_ok active).mp called
  obtain ⟨_, _, _, _, alsoLoaded, alsoNumbered, paying⟩ := (callotherpay_self active).mp paid
  cases loaded.symm.trans alsoLoaded
  cases numbered.symm.trans alsoNumbered
  obtain ⟨_, _, input, output, executed⟩ := processTx_executes processed
  obtain ⟨_, _, _, _, also⟩ := processTx_executes paying
  have form := callTx_form env sender recipient data gasLimit nonce before loaded
  obtain ⟨_, _, priced, fewer⟩ := executeTx_gasLeft loose meters signs (by exact form) rfl executed also
  exact (leavesGas_iff meters signs loaded numbered executed).mpr ⟨priced, fewer⟩

theorem callotherpay_iff_call (refunds : env.evm.Refunds) (trim : before.funds.Trim sender) :
    Contract.callotherpay env sender sender recipient value data gasLimit before = .ok done ↔
      Contract.call env sender recipient value data gasLimit before = .ok done ∧
        LeavesGas env sender recipient value data gasLimit before := by
  have base : ∀ tx nonce, ∃ baseFee,
      (contextOf env (bridgeConfig none) env.self tx (callContract env sender nonce before)).header.baseFeePerGas =
        some baseFee := by
    intro tx nonce
    refine ⟨_, if_pos ?_⟩
    rw [ConfigWrapper.promoteEvmVersion_fst, callContract, ConfigWrapper.getEvmVersion_promoteEvmVersion,
      ConfigWrapper.getEvmVersion_refresh]
    exact active
  constructor
  · intro paid
    obtain ⟨ready, authorised, worth, nonce, loaded, numbered, paying⟩ := (callotherpay_self active).mp paid
    have form := callTx_form env sender recipient data gasLimit nonce before loaded
    obtain ⟨baseFee, based⟩ := base (callTx env sender.val recipient worth data gasLimit nonce before) nonce
    obtain ⟨after, sent, input, output, executed⟩ := processTx_executes paying
    have direct := executeTx_paidItself loose meters signs (by exact form) rfl based trim executed
    have called : Contract.call env sender recipient value data gasLimit before = .ok done := by
      refine (call_ok active).mpr ⟨ready, authorised, worth, nonce, loaded, numbered, ?_⟩
      rw [← paying]
      exact processTx_paidBy (by exact direct.trans executed.symm)
    exact ⟨called, leavesGas_of_both loose active meters signs called paid⟩
  · rintro ⟨called, leaves⟩
    obtain ⟨ready, authorised, worth, nonce, loaded, numbered, processed⟩ := (call_ok active).mp called
    have form := callTx_form env sender recipient data gasLimit nonce before loaded
    obtain ⟨baseFee, based⟩ := base (callTx env sender.val recipient worth data gasLimit nonce before) nonce
    obtain ⟨after, sent, input, output, executed⟩ := processTx_executes processed
    obtain ⟨priced, fewer⟩ := (leavesGas_iff meters signs loaded numbered executed).mp leaves
    have kept := trim.execute loose meters signs (by exact form) rfl executed
    have paying := executeTx_selfPaid loose meters signs (by exact form) rfl based refunds executed priced fewer kept
    refine (callotherpay_self active).mpr ⟨ready, authorised, worth, nonce, loaded, numbered, ?_⟩
    rw [← processed]
    exact processTx_paidBy (by exact paying.trans executed.symm)

end Compare

end Call

/-- The same balances, tokens inside the EVM, statistics, nonces and EVM tables. -/
structure SameTables (first second : Contract) : Prop where
  balances : first.funds.balances = second.funds.balances
  inevm : first.funds.inevm = second.funds.inevm
  statistics : first.funds.statistics = second.funds.statistics
  nextnonces : first.nextnonces = second.nextnonces
  db : first.db = second.db

/-- Each succeeds when the other does, and with the same tables. -/
def SameResult (first second : Outcome Contract) : Prop :=
  (∀ done, first = .ok done → ∃ other, second = .ok other ∧ SameTables done other) ∧
    ∀ other, second = .ok other → ∃ done, first = .ok done ∧ SameTables done other

/-- In every reachable state from version 1 on. Where the balance of the account holds less than
a unit of dust, as it does as long as every swap keeps the precision, paying one's own gas through
`callotherpay` comes to the same as `call` if and only if a successful `call` leaves gas; and
where the two come to the same, a successful `call` left gas. -/
theorem run_callotherpay_call (host : Host) (meters : host.evm.Meters) (signs : host.evm.Signs)
    (refunds : host.evm.Refunds) (holding : Name → Symbol → Nat) (labels : List Label) (world : World)
    (finished : run host labels (World.start holding) = .ok world)
    (active : 1 ≤ world.config.getEvmVersion world.now) (view : ChainView) (caller : Option Name) (auths : List Name)
    (account : Name) (recipient value data : Bytes) (gasLimit : Nat) :
    let env := host.env view world.now (.action caller auths (.call account recipient value data gasLimit))
    let payerEnv := host.env view world.now
      (.action caller auths (.callotherpay account account recipient value data gasLimit))
    let direct := Contract.call env account recipient value data gasLimit world.contract
    let paying := Contract.callotherpay payerEnv account account recipient value data gasLimit world.contract
    let leavesGas := ∀ done, direct = .ok done → LeavesGas env account recipient value data gasLimit world.contract
    (world.contract.funds.Trim account → (SameResult direct paying ↔ leavesGas)) ∧
      (SameResult direct paying → leavesGas) ∧
      (guarded host keepsPrecision labels (World.start holding) = true → world.contract.funds.Trim account) := by
  intro env payerEnv direct paying leavesGas
  have loose := run_loose finished
  have active : 1 ≤ world.contract.config.getEvmVersion env.now := active
  have needed : SameResult direct paying → leavesGas := by
    rintro ⟨forward, _⟩ done called
    obtain ⟨other, paid, _⟩ := forward done called
    exact leavesGas_of_both loose active meters signs called paid
  refine ⟨fun trim => ⟨needed, fun leaves => ?_⟩, needed, fun keeps row found => ?_⟩
  · refine ⟨fun done called => ⟨done, ?_, rfl, rfl, rfl, rfl, rfl⟩, fun done paid => ⟨done, ?_, rfl, rfl, rfl, rfl, rfl⟩⟩
    · exact (callotherpay_iff_call loose active meters signs refunds trim).mpr ⟨called, leaves done called⟩
    · exact ((callotherpay_iff_call loose active meters signs refunds trim).mp paid).1
  · exact ((run_tidy keeps finished).funds.balances account row found).1.dusty

namespace Ledger

def ownCall (gasLimit : Nat) (world : World) : Outcome Contract :=
  Contract.call (marketHost.env view world.now (.action none [alice] (callNothing alice gasLimit))) alice
    (List.replicate 20 1) (List.replicate 32 0) [] gasLimit world.contract

def ownPayment (gasLimit : Nat) (world : World) : Outcome Contract :=
  let request := Action.callotherpay alice alice (List.replicate 20 1) (List.replicate 32 0) [] gasLimit
  Contract.callotherpay (marketHost.env view world.now (.action none [alice] request)) alice alice
    (List.replicate 20 1) (List.replicate 32 0) [] gasLimit world.contract

def ownRun (gasLimit : Nat) (world : World) : Outcome (RunInput × RunOutput) :=
  callRun (marketHost.env view world.now (.action none [alice] (callNothing alice gasLimit))) alice
    (List.replicate 20 1) (List.replicate 32 0) [] gasLimit world.contract

def refined : List Label := paired ++ act alice (callNothing alice 100000) 1 ++
  act self (.swapgastoken bob eosEight 0 []) 0 ++ act alice (.migratebal alice 1) 0

end Ledger

/-- A call that uses all of its gas succeeds, and is refused with the caller as the gas payer; and
a balance with more than a unit of dust is left in two forms, also where gas is left. -/
theorem callotherpay_call_differ :
    (∃ world done, run Ledger.marketHost Ledger.paired (World.start fun _ _ => 0) = .ok world ∧
      world.config.getEvmVersion world.now = 1 ∧ Ledger.ownCall 21000 world = .ok done ∧
      Ledger.ownPayment 21000 world = .error "invalid gas fee") ∧
    ∃ world done other, run Ledger.marketHost Ledger.refined (World.start fun _ _ => 0) = .ok world ∧
      world.config.getEvmVersion world.now = 1 ∧ Ledger.ownCall 50000 world = .ok done ∧
      Ledger.ownPayment 50000 world = .ok other ∧
      done.funds.balances.get? Ledger.alice = some ⟨⟨684969, Ledger.eosEight⟩, 49990000000000⟩ ∧
      other.funds.balances.get? Ledger.alice = some ⟨⟨684970, Ledger.eosEight⟩, 49980000000000⟩ := by
  constructor
  · obtain ⟨world, reached, seen⟩ := exists_of_view (run Ledger.marketHost Ledger.paired (World.start fun _ _ => 0))
      (fun world => decide (world.config.getEvmVersion world.now = 1 ∧ (Ledger.ownCall 21000 world).isOk = true ∧
        (Ledger.ownPayment 21000 world).map (fun _ => ()) = .error "invalid gas fee")) true (by decide +kernel)
    obtain ⟨version, succeeded, refused⟩ := of_decide_eq_true seen
    obtain ⟨done, called⟩ := exists_of_isOk succeeded
    exact ⟨world, done, reached, version, called, error_of_map refused⟩
  · obtain ⟨world, reached, seen⟩ := exists_of_view (run Ledger.marketHost Ledger.refined (World.start fun _ _ => 0))
      (fun world => decide (world.config.getEvmVersion world.now = 1 ∧
        (Ledger.ownCall 50000 world).toOption.map (fun done => done.funds.balances.get? Ledger.alice) =
          some (some ⟨⟨684969, Ledger.eosEight⟩, 49990000000000⟩) ∧
        (Ledger.ownPayment 50000 world).toOption.map (fun other => other.funds.balances.get? Ledger.alice) =
          some (some ⟨⟨684970, Ledger.eosEight⟩, 49980000000000⟩))) true (by decide +kernel)
    obtain ⟨version, first, second⟩ := of_decide_eq_true seen
    obtain ⟨done, called, left⟩ := exists_of_view _ _ _ first
    obtain ⟨other, paid, leftOther⟩ := exists_of_view _ _ _ second
    exact ⟨world, done, other, reached, version, called, paid, left, leftOther⟩

theorem run_callotherpay_call_paired : ∃ world done,
    run Ledger.marketHost Ledger.paired (World.start fun _ _ => 0) = .ok world ∧
    Ledger.ownCall 100000 world = .ok done ∧ SameResult (Ledger.ownCall 100000 world) (Ledger.ownPayment 100000 world) := by
  obtain ⟨world, reached, seen⟩ := exists_of_view (run Ledger.marketHost Ledger.paired (World.start fun _ _ => 0))
    (fun world => decide (1 ≤ world.config.getEvmVersion world.now ∧ (Ledger.ownCall 100000 world).isOk = true ∧
      (Ledger.ownRun 100000 world).toOption.map (fun result =>
        decide (result.1.tx.maxFeePerGas ≠ 0 ∧ result.2.cumulativeGasUsed < result.1.tx.gasLimit)) = some true)) true
    (by decide +kernel)
  obtain ⟨active, succeeded, runs⟩ := of_decide_eq_true seen
  obtain ⟨done, called⟩ := exists_of_isOk succeeded
  obtain ⟨result, ran, leaves⟩ := exists_of_view _ _ _ runs
  obtain ⟨priced, fewer⟩ := of_decide_eq_true leaves
  obtain ⟨exact, _, regular⟩ := run_callotherpay_call Ledger.marketHost Ledger.market_meters Ledger.market_signs
    Ledger.market_refunds _ _ world reached active Ledger.view none [Ledger.alice] Ledger.alice (List.replicate 20 1)
    (List.replicate 32 0) [] 100000
  have trim := regular (by decide +kernel)
  exact ⟨world, done, reached, called, (exact trim).mpr fun _ _ => ⟨result.1, result.2, ran, priced, fewer⟩⟩

end EosEvm

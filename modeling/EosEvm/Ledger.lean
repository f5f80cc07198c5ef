import EosEvm.LedgerCore
import EosEvm.Backing
import EosEvm.Actions

/-! The ledger keeps the assumptions made of the EVM library. -/

namespace EosEvm

open Abort

namespace Ledger

theorem total_accumulate (received : Table Name Nat) (account : Name) (amount : Nat) :
    (accumulate received account amount).total id = received.total id + amount := by
  cases found : received.get? account with
  | none =>
      rw [accumulate, Table.total_put _ _ _ _ found, found]
      exact congrArg _ (Nat.zero_add amount)
  | some held =>
      have changed := Table.total_put_present id received account (held + amount) held found
      rw [accumulate, found, Option.getD_some]
      simp only [id] at changed ⊢
      omega

theorem reservedTotal_receipt (tx : Transaction) (received : Table Name Nat) (messages : List FilteredMessage)
    (changed : Option DbWrite) : reservedTotal (receipt tx received messages changed).reservedObjects =
      received.total id := by
  rw [receipt, reservedTotal, List.map_map]
  rfl

theorem balanceOf_credited (initial : Option Account) (amount : Nat) :
    DbWrite.balanceOf (some (credited initial amount)) = DbWrite.balanceOf initial + amount := by
  cases initial with
  | none => exact (Nat.zero_add amount).symm
  | some account => rfl

theorem evm_conserves : evm.Conserves := by
  intro input output ran
  simp only [evm, executeTransaction, bind_ok, require_ok, check_ok, exists_const] at ran
  obtain ⟨⟨balance, nonce⟩, funded, account, sender, recipient, _, enough, ran⟩ := ran
  have start : (input.funded.map Prod.fst).getD 0 = balance := by rw [funded]; rfl
  split at ran
  · rw [pure_ok] at ran
    subst ran
    refine ⟨fun _ _ _ _ member => (by cases member), ?_⟩
    rw [reservedTotal_receipt, total_accumulate, total_accumulate, total_accumulate, start]
    simp only [DbWrite.currentTotal, DbWrite.initialTotal, receipt, Option.toList_none, List.map_nil, List.sum_nil,
      Table.total_empty] at enough ⊢
    omega
  · simp only [bind_ok, pure_ok] at ran
    obtain ⟨⟨initial, handle⟩, read, rfl⟩ := ran
    refine ⟨?_, ?_⟩
    · intro address first current code member
      cases List.mem_singleton.mp member
      exact ⟨handle, read⟩
    · rw [reservedTotal_receipt, total_accumulate, total_accumulate, start]
      simp only [DbWrite.currentTotal, DbWrite.initialTotal, receipt, Option.toList_some, List.map_cons,
        List.map_nil, List.sum_cons, List.sum_nil, Table.total_empty, balanceOf_credited] at enough ⊢
      omega

theorem decodeNat_encodeNat (fuel value : Nat) (rest : Bytes) (enough : value < fuel) :
    decodeNat (encodeNat fuel value ++ rest) = some (value, rest) := by
  induction fuel generalizing value with
  | zero => omega
  | succ fuel ih =>
      rw [encodeNat]
      split
      · rename_i small
        have byte : (UInt8.ofNat value).toNat = value := by
          rw [UInt8.toNat_ofNat']
          omega
        simp only [List.cons_append, List.nil_append, decodeNat, byte, if_pos small]
      · have byte : (UInt8.ofNat (value % 128 + 128)).toNat = value % 128 + 128 := by
          rw [UInt8.toNat_ofNat']
          omega
        have large : ¬ value % 128 + 128 < 128 := by omega
        rw [List.cons_append, decodeNat, byte, if_neg large, ih (value / 128) (by omega)]
        simp only [Option.map_some, Option.some.injEq, Prod.mk.injEq, and_true]
        omega

theorem decodeNats_encodeNats (values : List Nat) (rest : Bytes) :
    decodeNats values.length (values.flatMap (fun value => encodeNat (value + 1) value) ++ rest) =
      some (values, rest) := by
  induction values with
  | nil => rfl
  | cons value values ih =>
      rw [List.length_cons, List.flatMap_cons, List.append_assoc, decodeNats,
        decodeNat_encodeNat (value + 1) value _ (Nat.lt_succ_self value)]
      simp only [Option.bind_eq_bind, Option.bind_some, ih]
      rfl

theorem recipientOf_recipientCode (recipient : Option Address) : recipientOf (recipientCode recipient) = recipient := by
  cases recipient with
  | none => rfl
  | some address => simp [recipientCode, recipientOf]

theorem decodeTransaction_encodeTransaction {tx : Transaction} {nonce s : Nat} (form : tx.IsBridge nonce s) :
    decodeTransaction (encodeTransaction tx) = some tx := by
  have numbered := decodeNats_encodeNats (numbers tx) tx.data
  have seven : (numbers tx).length = 7 := rfl
  rw [seven] at numbered
  rw [decodeTransaction, encodeTransaction, numbered]
  obtain ⟨type, chainId, _, price, accessList, oddYParity, _, _⟩ := form
  cases tx
  simp_all [numbers, recipientOf_recipientCode]

end Ledger

end EosEvm

import Mathlib.Tactic

/-!
# Transaction ids

Local and distributed transaction ids are unsigned 32-bit numbers. `TransactionIdPrecedes`
compares normal ids modulo `2 ^ 32` and the special ones as plain numbers.
-/

namespace Hdb.Dtx

abbrev invalidTransactionId : Nat := 0

abbrev firstNormalTransactionId : Nat := 3

def transactionIdIsValid (xid : Nat) : Bool := xid != invalidTransactionId

def transactionIdIsNormal (xid : Nat) : Bool := firstNormalTransactionId ≤ xid

/-- `id1` is logically before `id2`: their difference is negative as a 32-bit `int`. -/
def transactionIdPrecedes (id1 id2 : Nat) : Bool :=
  if !transactionIdIsNormal id1 || !transactionIdIsNormal id2 then id1 < id2
  else 2 ^ 31 ≤ (id1 + 2 ^ 32 - id2) % 2 ^ 32

/-- `id1` is logically after `id2`. -/
def transactionIdFollows (id1 id2 : Nat) : Bool :=
  if !transactionIdIsNormal id1 || !transactionIdIsNormal id2 then id2 < id1
  else 0 < (id1 + 2 ^ 32 - id2) % 2 ^ 32 && (id1 + 2 ^ 32 - id2) % 2 ^ 32 < 2 ^ 31

abbrev invalidDistributedTransactionId : Nat := 0

abbrev firstDistributedTransactionId : Nat := 1

abbrev lastDistributedTransactionId : Nat := 0xffffffff

end Hdb.Dtx

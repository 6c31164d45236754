import Mathlib.Data.String.Basic
import Mathlib.Data.List.Nodup
import Bitgarth.Amounts

/-! # Ledger entries under construction

The rows a rebuild of an account ledger works on, before they are stored. Instants
are nanoseconds since the Unix epoch.
-/

namespace Bitgarth.Ledger

open Amounts

inductive ChainTransactionStatus where
  | pending
  | confirmed
  | dropped
  | failed
deriving DecidableEq, Repr

inductive AccountTransactionDirection where
  | incoming
  | outgoing
  | selfTransfer
deriving DecidableEq, Repr

/-- A row of a ledger rebuild. -/
structure LedgerBuildEntry where
  chainTransactionId : String
  txHash : String
  status : ChainTransactionStatus
  occurredAt : ℤ
  firstSeenAt : ℤ
  blockHeight : Option ℤ
  nonce : Option ℤ
  minTransferIndex : Option ℤ
  direction : AccountTransactionDirection
  value : UnsignedAmount
  fee : Option UnsignedAmount
  balanceDelta : ℤ
  closingBalance : Option UnsignedAmount
  sameBlockParentHashes : List String
  fromAddresses : List String
  toAddresses : List String
deriving DecidableEq, Repr

/-- An entry with its position in the rebuilt list. -/
abbrev IndexedEntry := LedgerBuildEntry × ℕ

/-- What is known about a balance before the first ledger row. -/
inductive NativeBalanceState where
  | knownAmount (amount : UnsignedAmount)
  | canonicalZero
  | unknown
deriving DecidableEq, Repr

namespace NativeBalanceState

/-- The amount a known basis stands for. -/
def amount? : NativeBalanceState → Option UnsignedAmount
  | knownAmount amount => some amount
  | canonicalZero => some UnsignedAmount.zero
  | unknown => none

end NativeBalanceState

namespace LedgerBuildEntry

/-- A confirmed or failed row; only these carry a settled closing balance. -/
def Settled (entry : LedgerBuildEntry) : Prop :=
  entry.status = .confirmed ∨ entry.status = .failed

instance (entry : LedgerBuildEntry) : Decidable entry.Settled :=
  inferInstanceAs (Decidable (_ ∨ _))

/-- The row without its closing balance. -/
def cleared (entry : LedgerBuildEntry) : LedgerBuildEntry :=
  { entry with closingBalance := none }

/-- A confirmed entry without fee, nonce or transfer index, as Bitcoin rows are. -/
def confirmedRow (txHash : String) (height occurredAt balanceDelta : ℤ)
    (parents : List String) : LedgerBuildEntry where
  chainTransactionId := txHash
  txHash := txHash
  status := .confirmed
  occurredAt := occurredAt
  firstSeenAt := occurredAt
  blockHeight := some height
  nonce := none
  minTransferIndex := none
  direction := if balanceDelta < 0 then .outgoing else .incoming
  value := (UnsignedAmount.tryFromSigned balanceDelta.natAbs).getD UnsignedAmount.zero
  fee := none
  balanceDelta := balanceDelta
  closingBalance := none
  sameBlockParentHashes := parents
  fromAddresses := []
  toAddresses := []

end LedgerBuildEntry

section Positions

variable {entries : List LedgerBuildEntry}

theorem mem_entries_of_mem_zipIdx {indexed : IndexedEntry} (member : indexed ∈ entries.zipIdx) :
    indexed.1 ∈ entries := by
  rw [← List.zipIdx_map_fst 0 entries]
  exact List.mem_map_of_mem member

theorem exists_position {entry : LedgerBuildEntry} (member : entry ∈ entries) :
    ∃ index, (entry, index) ∈ entries.zipIdx := by
  rw [← List.zipIdx_map_fst 0 entries] at member
  obtain ⟨⟨found, index⟩, present, rfl⟩ := List.mem_map.mp member
  exact ⟨index, present⟩

theorem zipIdx_map_txHash_nodup (distinct : (entries.map (·.txHash)).Nodup) :
    (entries.zipIdx.map fun indexed => indexed.1.txHash).Nodup := by
  conv at distinct => rw [← List.zipIdx_map_fst 0 entries, List.map_map]
  exact distinct

theorem zipIdx_map_snd_nodup (entries : List LedgerBuildEntry) :
    (entries.zipIdx.map Prod.snd).Nodup := by
  rw [List.zipIdx_map_snd]
  exact List.nodup_range' _ Nat.one_pos

end Positions

/-! ## Lists that differ in closing balances only -/

section Cleared

variable {left right : List LedgerBuildEntry}

theorem mem_of_map_cleared
    (same : left.map LedgerBuildEntry.cleared = right.map LedgerBuildEntry.cleared)
    {row : LedgerBuildEntry} (member : row ∈ left) :
    ∃ twin ∈ right, twin.cleared = row.cleared := by
  have listed : row.cleared ∈ right.map LedgerBuildEntry.cleared := by
    rw [← same]
    exact List.mem_map_of_mem member
  exact List.mem_map.mp listed

theorem map_txHash_eq
    (same : left.map LedgerBuildEntry.cleared = right.map LedgerBuildEntry.cleared) :
    left.map (·.txHash) = right.map (·.txHash) := by
  have hashes := congrArg (List.map LedgerBuildEntry.txHash) same
  simpa only [List.map_map, Function.comp_def, LedgerBuildEntry.cleared] using hashes

theorem settled_iff_of_cleared_eq {one two : LedgerBuildEntry} (same : one.cleared = two.cleared) :
    one.Settled ↔ two.Settled := by
  have status : one.status = two.status :=
    (congrArg LedgerBuildEntry.status same :)
  simp only [LedgerBuildEntry.Settled, status]

end Cleared

end Bitgarth.Ledger

import Mathlib.Data.List.Sort
import Mathlib.Data.Prod.Lex
import Mathlib.Data.String.Basic
import Mathlib.Tactic.Common
import Mathlib.Algebra.GroupWithZero.Nat

/-! # Modes of native accounts

The accounts are taken in their order of admission, and each gets the best mode that the
allowances still have room for. `modesFrom_sublist` says that an account keeps its mode or
betters it when others are left out, and `modesFrom_append` that accounts which come later do
not count.
-/

namespace Bitgarth.Accounts

inductive NativeAccountMode where
  | transactions
  | balanceOnly
  | inactive
deriving DecidableEq, Repr

/-- Greater for the mode that syncs more. -/
def NativeAccountMode.rank : NativeAccountMode → ℕ
  | transactions => 2
  | balanceOnly => 1
  | inactive => 0

def supportedAccountHardCap : ℕ := 5000

/-- Allowances that `try_new` accepts. -/
structure AccountAllowances where
  balanceSync : ℕ
  transactionHistorySync : ℕ
  manual : ℕ
  transactions_le : transactionHistorySync ≤ balanceSync
  sum_le : balanceSync + manual ≤ supportedAccountHardCap
deriving DecidableEq, Repr

/-- What the sync provider of an account's asset supports. -/
structure AccountCapabilities where
  supportsBalanceSync : Bool
  supportsTransactionSync : Bool
deriving DecidableEq, Repr

/-- A native account with the instant of its admission in nanoseconds. -/
structure NativeAccountModeRecord extends AccountCapabilities where
  accountId : String
  admittedAt : ℤ
deriving DecidableEq, Repr

/-- By the instant of admission, then by id. -/
def NativeAccountModeRecord.key (record : NativeAccountModeRecord) : ℤ ×ₗ String :=
  toLex (record.admittedAt, record.accountId)

/-- The modes of accounts in their order, after `balanceCount` and `transactionCount` accounts. -/
def modesFrom (allowances : AccountAllowances) (balanceCount transactionCount : ℕ) :
    List (String × AccountCapabilities) → List (String × NativeAccountMode)
  | [] => []
  | record :: rest =>
    if record.2.supportsBalanceSync = false ∨ allowances.balanceSync ≤ balanceCount then
      (record.1, .inactive) :: modesFrom allowances balanceCount transactionCount rest
    else if record.2.supportsTransactionSync = true ∧
        transactionCount < allowances.transactionHistorySync then
      (record.1, .transactions) ::
        modesFrom allowances (balanceCount + 1) (transactionCount + 1) rest
    else
      (record.1, .balanceOnly) ::
        modesFrom allowances (balanceCount + 1) transactionCount rest

def classifyNativeAccountModes (records : List NativeAccountModeRecord)
    (allowances : AccountAllowances) : List (String × NativeAccountMode) :=
  modesFrom allowances 0 0
    ((records.insertionSort fun left right => left.key ≤ right.key).map fun record =>
      (record.accountId, record.toAccountCapabilities))

/-- The mode of an account that comes after the given numbers of accounts. -/
def modeAfter (allowances : AccountAllowances) (balanceCount transactionCount : ℕ)
    (capabilities : AccountCapabilities) : NativeAccountMode :=
  if capabilities.supportsBalanceSync = false ∨ allowances.balanceSync ≤ balanceCount then
    .inactive
  else if capabilities.supportsTransactionSync = true ∧
      transactionCount < allowances.transactionHistorySync then
    .transactions
  else
    .balanceOnly

/-- How much of the balance allowance a mode takes. -/
def NativeAccountMode.balances : NativeAccountMode → ℕ
  | inactive => 0
  | _ => 1

/-- How much of the transaction history allowance a mode takes. -/
def NativeAccountMode.histories : NativeAccountMode → ℕ
  | transactions => 1
  | _ => 0

section Modes

variable {allowances : AccountAllowances} {balanceCount transactionCount : ℕ}
  {record : String × AccountCapabilities} {records : List (String × AccountCapabilities)}

theorem modesFrom_cons :
    modesFrom allowances balanceCount transactionCount (record :: records) =
      let mode := modeAfter allowances balanceCount transactionCount record.2
      (record.1, mode) :: modesFrom allowances (balanceCount + mode.balances)
        (transactionCount + mode.histories) records := by
  rw [modesFrom, modeAfter]
  split
  · rfl
  · split <;> rfl

@[simp] theorem map_fst_modesFrom :
    (modesFrom allowances balanceCount transactionCount records).map Prod.fst =
      records.map Prod.fst := by
  induction records generalizing balanceCount transactionCount with
  | nil => rfl
  | cons record records ih => rw [modesFrom_cons, List.map_cons, List.map_cons, ih]

theorem modesFrom_append (later : List (String × AccountCapabilities)) :
    modesFrom allowances balanceCount transactionCount records <+:
      modesFrom allowances balanceCount transactionCount (records ++ later) := by
  induction records generalizing balanceCount transactionCount with
  | nil => exact List.nil_prefix
  | cons record records ih =>
    rw [List.cons_append, modesFrom_cons, modesFrom_cons]
    exact (List.prefix_cons_inj _).mpr ih

/-- Nothing is left of the balance allowance, or no more was taken on the left than on the
right. -/
def Ahead (allowances : AccountAllowances) (fewer counts : ℕ × ℕ) : Prop :=
  allowances.balanceSync ≤ counts.1 ∨ fewer ≤ counts

theorem Ahead.skip {fewer : ℕ × ℕ} (ahead : Ahead allowances fewer (balanceCount, transactionCount))
    (balances histories : ℕ) :
    Ahead allowances fewer (balanceCount + balances, transactionCount + histories) := by
  rcases ahead with spent | ⟨balance, history⟩
  · exact .inl (le_trans spent (Nat.le_add_right _ _))
  · exact .inr ⟨le_trans balance (Nat.le_add_right _ _), le_trans history (Nat.le_add_right _ _)⟩

theorem Ahead.modeAfter {fewerBalances fewerHistories : ℕ} (capabilities : AccountCapabilities)
    (ahead : Ahead allowances (fewerBalances, fewerHistories) (balanceCount, transactionCount)) :
    let mode := modeAfter allowances balanceCount transactionCount capabilities
    let better := Accounts.modeAfter allowances fewerBalances fewerHistories capabilities
    mode.rank ≤ better.rank ∧
      Ahead allowances (fewerBalances + better.balances, fewerHistories + better.histories)
        (balanceCount + mode.balances, transactionCount + mode.histories) := by
  rcases ahead with spent | ⟨balance, history⟩
  · have inactive : Accounts.modeAfter allowances balanceCount transactionCount capabilities =
        .inactive := if_pos (.inr spent)
    rw [inactive]
    exact ⟨Nat.zero_le _, .inl (le_trans spent (Nat.le_add_right _ _))⟩
  · simp only at balance history
    unfold Accounts.modeAfter Ahead
    simp only [Prod.mk_le_mk]
    cases supported : capabilities.supportsBalanceSync with
    | false =>
      simp only [true_or, ↓reduceIte, NativeAccountMode.balances, NativeAccountMode.histories]
      omega
    | true =>
      by_cases spent : allowances.balanceSync ≤ balanceCount
      · simp only [spent, or_true, ↓reduceIte, NativeAccountMode.rank]
        exact ⟨Nat.zero_le _, .inl (le_trans spent (Nat.le_add_right _ _))⟩
      · have room : ¬ allowances.balanceSync ≤ fewerBalances := by omega
        simp only [spent, room, Bool.true_eq_false, or_self, ↓reduceIte]
        cases capabilities.supportsTransactionSync with
        | false =>
          simp only [Bool.false_eq_true, false_and, ↓reduceIte, NativeAccountMode.balances,
            NativeAccountMode.histories]
          omega
        | true =>
          simp only [true_and]
          split <;> split <;>
            simp only [NativeAccountMode.rank, NativeAccountMode.balances,
              NativeAccountMode.histories] <;> omega

theorem modesFrom_sublist {fewer : List (String × AccountCapabilities)}
    (sublist : fewer.Sublist records) {fewerBalances fewerHistories : ℕ}
    (ahead : Ahead allowances (fewerBalances, fewerHistories) (balanceCount, transactionCount))
    (distinct : (records.map Prod.fst).Nodup) {id : String} {mode : NativeAccountMode}
    (member : (id, mode) ∈ modesFrom allowances balanceCount transactionCount records)
    (kept : id ∈ fewer.map Prod.fst) :
    ∃ better, (id, better) ∈ modesFrom allowances fewerBalances fewerHistories fewer ∧
      mode.rank ≤ better.rank := by
  induction sublist generalizing fewerBalances fewerHistories balanceCount transactionCount with
  | slnil => exact absurd kept List.not_mem_nil
  | @cons fewer records record sublist ih =>
    rw [List.map_cons, List.nodup_cons] at distinct
    rw [modesFrom_cons] at member
    rcases List.mem_cons.mp member with here | later
    · have same : id = record.1 := congrArg Prod.fst here
      exact absurd ((sublist.map Prod.fst).subset kept) (same ▸ distinct.1)
    · exact ih (ahead.skip _ _) distinct.2 later kept
  | @cons_cons fewer records record sublist ih =>
    rw [List.map_cons, List.nodup_cons] at distinct
    obtain ⟨atLeast, next⟩ := ahead.modeAfter record.2
    rw [modesFrom_cons] at member ⊢
    rcases List.mem_cons.mp member with here | later
    · obtain ⟨rfl, rfl⟩ := Prod.mk.inj here
      exact ⟨_, List.mem_cons_self, atLeast⟩
    · have listed : id ∈ records.map Prod.fst := by
        rw [← @map_fst_modesFrom allowances]
        exact List.mem_map_of_mem later
      have among : id ∈ fewer.map Prod.fst := by
        rcases List.mem_cons.mp kept with same | rest
        · exact absurd listed (same ▸ distinct.1)
        · exact rest
      obtain ⟨better, found, atLeast⟩ := ih next distinct.2 later among
      exact ⟨better, List.mem_cons_of_mem _ found, atLeast⟩

theorem modesFrom_within (balance : balanceCount ≤ allowances.balanceSync)
    (history : transactionCount ≤ allowances.transactionHistorySync) :
    balanceCount + ((modesFrom allowances balanceCount transactionCount records).map
        fun entry => entry.2.balances).sum ≤ allowances.balanceSync ∧
      transactionCount + ((modesFrom allowances balanceCount transactionCount records).map
        fun entry => entry.2.histories).sum ≤ allowances.transactionHistorySync := by
  induction records generalizing balanceCount transactionCount with
  | nil => exact ⟨balance, history⟩
  | cons record records ih =>
    rw [modesFrom_cons]
    simp only [List.map_cons, List.sum_cons, ← Nat.add_assoc]
    refine ih ?_ ?_
    · unfold modeAfter
      split
      · exact balance
      · rename_i room
        split <;> simp only [NativeAccountMode.balances] <;> omega
    · unfold modeAfter
      split
      · exact history
      · split
        · rename_i fits
          exact fits.2
        · exact history

end Modes

end Bitgarth.Accounts

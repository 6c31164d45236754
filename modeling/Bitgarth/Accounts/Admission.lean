import Bitgarth.Accounts.AdmissionText
import Bitgarth.Amounts
import Bitgarth.Foundation.Fallible
import Bitgarth.Foundation.RowSelection
import Mathlib.Data.Prod.Lex
import Mathlib.Data.Int.ConditionallyCompleteOrder
import Mathlib.Order.ConditionallyCompleteLattice.Basic
import Mathlib.Order.WithBot

/-! # The order of admission

Accounts are admitted one after the other, and the table of accounts keeps the text of each
admission's timestamp. A new account is stamped after the newest one, whatever the clock says;
the repair of older databases stamps the accounts again in the order they have; an import
hands the stamps of the accounts that it created around among them. `Queued` is what the
table stands for: the accounts in a line, with ascending stamps.
-/

namespace Bitgarth.Accounts

open Amounts Calendar RowSelection

/-- An account, with the text of its admission where it has one. -/
structure AdmissionRow (δ : Type) where
  accountId : String
  createdAt : String
  admittedAt : Option String
  details : δ
deriving DecidableEq, Repr

/-- The latest instant that a timestamp can hold. -/
def latestInstant : ℤ := yearStart 262143 * nanosecondsPerDay - 1

/-- To whole microseconds. -/
def truncate (value : ℤ) : ℤ := value / microsecond * microsecond

def nextAdmissionTimestamp (now : ℤ) : Option ℤ → Except DbError ℤ
  | some previous =>
    let next := truncate previous + microsecond
    if latestInstant < next then
      .error ⟨"Admission timestamp overflow"⟩
    else
      .ok (max (truncate now) next)
  | none => .ok (truncate now)

variable {δ : Type}

section Operations

variable (parse : String → Option ℤ)

def parseAdmissionTimestamp (raw : String) : Except DbError ℤ :=
  match parse raw with
  | some instant => .ok instant
  | none => .error ⟨"Invalid account admission timestamp"⟩

/-- The greatest of the texts, read. -/
def lastAdmissionTimestamp (rows : List (AdmissionRow δ)) : Except DbError (Option ℤ) :=
  match (rows.filterMap AdmissionRow.admittedAt).max? with
  | none => .ok none
  | some raw => (parseAdmissionTimestamp parse raw).map some

/-- A row inserted with a stamp of its own; ids are unique. -/
def admitAccount (now : ℤ) (rows : List (AdmissionRow δ)) (row : AdmissionRow δ) :
    Except DbError (List (AdmissionRow δ)) := do
  if row.accountId ∈ rows.map AdmissionRow.accountId then
    .error ⟨"Failed to insert account"⟩
  else
    let previous ← lastAdmissionTimestamp parse rows
    let admittedAt ← nextAdmissionTimestamp now previous
    .ok (rows ++ [{ row with admittedAt := some (formatAdmissionTimestamp admittedAt) }])

/-- Ids with their timestamps read, by instant and then by id. -/
def orderedRows (rows : List (String × String)) : Except DbError (List (String × ℤ)) := do
  let read ← rows.mapM fun row => do
    let instant ← parseAdmissionTimestamp parse row.2
    .ok (row.1, instant)
  .ok (read.insertionSort fun left right => toLex (left.2, left.1) ≤ toLex (right.2, right.1))

/-- The stamps of accounts that are stamped one after the other, and the last of them. -/
def assignAdmissions (previous : Option ℤ) :
    List (String × ℤ) → Except DbError (List (String × String) × Option ℤ)
  | [] => .ok ([], previous)
  | (id, requested) :: rest => do
      let admittedAt ← nextAdmissionTimestamp requested previous
      let (assigned, last) ← assignAdmissions (some admittedAt) rest
      .ok ((id, formatAdmissionTimestamp admittedAt) :: assigned, last)

/-- A row updated with the stamp assigned to it. -/
def AdmissionRow.readmit (assigned : List (String × String)) (row : AdmissionRow δ) :
    AdmissionRow δ :=
  match assigned.lookup row.accountId with
  | some admittedAt => { row with admittedAt := some admittedAt }
  | none => row

/-- Accounts with a stamp keep their order; the others follow them. -/
def backfillAccountAdmission (now : ℤ) (rows : List (AdmissionRow δ)) :
    Except DbError (List (AdmissionRow δ)) := do
  let existing ← orderedRows parse <| rows.filterMap fun row =>
    row.admittedAt.map fun admittedAt => (row.accountId, admittedAt)
  let missing ← orderedRows parse <|
    (rows.filter fun row => row.admittedAt.isNone).map fun row => (row.accountId, row.createdAt)
  let (kept, previous) ← assignAdmissions none existing
  let (added, _) ← assignAdmissions previous (missing.map fun row => (row.1, now))
  .ok (rows.map (AdmissionRow.readmit (kept ++ added)))

/-- An account that an import created: its id, its timestamp in the file it came from, and its
position in the file. -/
structure NewAdmission where
  accountId : String
  source : Option ℤ
  index : ℕ
deriving DecidableEq, Repr

/-- With a source timestamp first, then by source timestamp, then by position. -/
def NewAdmission.key (admission : NewAdmission) : Bool ×ₗ (WithBot ℤ ×ₗ ℕ) :=
  toLex (admission.source.isNone, toLex (admission.source, admission.index))

def sortedAdmissions (accounts : List NewAdmission) : List NewAdmission :=
  accounts.insertionSort fun left right => left.key ≤ right.key

/-- The newest stamps handed to the accounts in their order. -/
def reorderNewAdmissions (accounts : List NewAdmission) (rows : List (AdmissionRow δ)) :
    Except DbError (List (AdmissionRow δ)) := do
  if accounts.length < 2 then
    .ok rows
  else if (sortedAdmissions accounts).map NewAdmission.accountId =
      accounts.map NewAdmission.accountId then
    .ok rows
  else
    let newest := ((rows.map fun row => (row.admittedAt : WithBot String)).insertionSort
      fun left right => right ≤ left).take accounts.length
    let timestamps ← newest.mapM fun admittedAt =>
      match admittedAt with
      | some text => .ok text
      | none => .error ⟨"Invalid new admission"⟩
    if timestamps.length ≠ accounts.length then
      .error ⟨"Missing new account admission"⟩
    else
      .ok (rows.map (AdmissionRow.readmit
        (((sortedAdmissions accounts).map NewAdmission.accountId).zip timestamps.reverse)))

/-- An account that an import creates, with its source timestamp and its position. -/
structure CreatedAccount (δ : Type) where
  row : AdmissionRow δ
  source : Option ℤ
  index : ℕ
deriving DecidableEq, Repr

def CreatedAccount.admission (created : CreatedAccount δ) : NewAdmission where
  accountId := created.row.accountId
  source := created.source
  index := created.index

/-- The accounts created in the order of the file, and then put in the order of their source. -/
def importAdmissions (now : ℤ) (created : List (CreatedAccount δ)) (rows : List (AdmissionRow δ)) :
    Except DbError (List (AdmissionRow δ)) := do
  let admitted ← (created.map CreatedAccount.row).foldlM (admitAccount parse now) rows
  reorderNewAdmissions (created.map CreatedAccount.admission) admitted

end Operations

end Bitgarth.Accounts

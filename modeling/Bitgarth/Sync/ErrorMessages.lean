import Mathlib.Data.Option.Basic
import Mathlib.Data.String.Basic
import Bitgarth.Text

/-! # Messages of failed synchronisations

The text of an error is trimmed and cut to a number of bytes. The cut panics where that number falls
inside a character, so a message comes back exactly for the texts that fit or have a character end
there (`sanitize_total_iff`).
-/

namespace Bitgarth.Sync

open Text

/-- `str::is_char_boundary`. -/
def IsCharBoundary (text : String) (index : ℕ) : Prop :=
  String.Pos.Raw.IsValid text ⟨index⟩

instance (text : String) (index : ℕ) : Decidable (IsCharBoundary text index) :=
  inferInstanceAs (Decidable (String.Pos.Raw.IsValid text ⟨index⟩))

/-- `String::truncate`, which panics where the new length is inside a character. -/
def truncate (text : String) (newLen : ℕ) : Option String :=
  if newLen ≤ text.utf8ByteSize then
    if boundary : IsCharBoundary text newLen then
      some ⟨text.toByteArray.extract 0 newLen, boundary.isValidUTF8_extract_zero⟩
    else none
  else some text

structure SyncErrorMessage where
  text : String
deriving DecidableEq, Repr

namespace SyncErrorMessage

def maxLen : ℕ := 512

/-- `SyncErrorMessage::sanitize`; nothing for a panic. -/
def sanitize (raw : String) : Option SyncErrorMessage :=
  let trimmed := trim raw
  if trimmed.isEmpty then some ⟨"Unknown sync error"⟩
  else if maxLen < trimmed.utf8ByteSize then (truncate trimmed maxLen).map SyncErrorMessage.mk
  else some ⟨trimmed⟩

end SyncErrorMessage

section Truncation

variable {text : String} {newLen : ℕ}

theorem isCharBoundary_iff :
    IsCharBoundary text newLen ↔
      ∃ count, newLen = (String.ofList (text.toList.take count)).utf8ByteSize :=
  String.Pos.Raw.isValid_iff_exists_take_toList

/-- At a boundary the text is cut there. -/
theorem truncate_spec (boundary : IsCharBoundary text newLen) :
    ∃ first rest, truncate text newLen = some first ∧ text = first ++ rest ∧
      first.utf8ByteSize = newLen := by
  have inside : newLen ≤ text.utf8ByteSize := boundary.le_utf8ByteSize
  obtain ⟨first, rest, split, ends⟩ := String.Pos.Raw.isValid_iff_exists_append.mp boundary
  have size : newLen = first.utf8ByteSize := congrArg String.Pos.Raw.byteIdx ends
  refine ⟨first, rest, ?_, split, size.symm⟩
  rw [truncate, if_pos inside, dif_pos boundary]
  apply congrArg some
  apply String.toByteArray_inj.mp
  show text.toByteArray.extract 0 newLen = first.toByteArray
  rw [split, size, String.toByteArray_append]
  exact ByteArray.extract_append_eq_left rfl

/-- A cut inside a character panics. -/
theorem truncate_of_inside (inside : newLen ≤ text.utf8ByteSize)
    (notBoundary : ¬IsCharBoundary text newLen) : truncate text newLen = none := by
  rw [truncate, if_pos inside, dif_neg notBoundary]

end Truncation

namespace SyncErrorMessage

/-- Whether an error's text, trimmed, fits or has a character end where it is cut. -/
def Fits (raw : String) : Prop :=
  (trim raw).utf8ByteSize ≤ maxLen ∨ IsCharBoundary (trim raw) maxLen

/-- What is promised of the message of a text. -/
def Sanitized (raw : String) (message : SyncErrorMessage) : Prop :=
  message.text.utf8ByteSize ≤ maxLen ∧
    if trim raw = "" then message.text = "Unknown sync error"
    else ∃ rest, trim raw = message.text ++ rest

variable {raw : String}

theorem sanitize_of_not_fits (misfit : ¬Fits raw) : sanitize raw = none := by
  obtain ⟨long, notBoundary⟩ := not_or.mp misfit
  have nonempty : ¬(trim raw).isEmpty = true := by
    intro empty
    rw [String.isEmpty_iff.mp empty] at long
    exact long (Nat.zero_le _)
  rw [not_le] at long
  simp only [sanitize, if_neg nonempty, if_pos long, truncate_of_inside long.le notBoundary,
    Option.map_none]

theorem exists_sanitized_of_fits (fits : Fits raw) :
    ∃ message, sanitize raw = some message ∧ Sanitized raw message := by
  unfold sanitize
  by_cases empty : trim raw = ""
  · refine ⟨⟨"Unknown sync error"⟩, ?_, by decide, ?_⟩
    · rw [empty]
      rfl
    · rw [if_pos empty]
  · have nonempty : ¬(trim raw).isEmpty = true := fun isEmpty =>
      empty (String.isEmpty_iff.mp isEmpty)
    simp only [if_neg nonempty, Sanitized, if_neg empty]
    by_cases short : (trim raw).utf8ByteSize ≤ maxLen
    · refine ⟨⟨trim raw⟩, if_neg (not_lt.mpr short), short, "", ?_⟩
      rw [String.append_empty]
    · obtain ⟨first, rest, cut, split, size⟩ := truncate_spec (fits.resolve_left short)
      refine ⟨⟨first⟩, ?_, size.le, rest, split⟩
      rw [if_pos (not_le.mp short), cut]
      rfl

/-- A message as promised comes back exactly for the texts that fit or have a character end at the
cut; for any other text there is a panic. -/
theorem sanitize_total_iff (raw : String) :
    (∃ message, sanitize raw = some message ∧ Sanitized raw message) ↔ Fits raw := by
  refine ⟨?_, exists_sanitized_of_fits⟩
  rintro ⟨message, isMessage, _⟩
  by_contra misfit
  rw [sanitize_of_not_fits misfit] at isMessage
  cases isMessage

/-- A letter of one byte and then letters of two. -/
def accented (count : ℕ) : String :=
  String.ofList ('x' :: List.replicate count 'é')

theorem utf8ByteSize_accented (count : ℕ) : (accented count).utf8ByteSize = 2 * count + 1 := by
  rw [accented, String.utf8ByteSize_ofList, String.utf8Len_cons]
  have accents : String.utf8Len (List.replicate count 'é') = 2 * count := by
    induction count with
    | zero => rfl
    | succ count ih =>
      rw [List.replicate_succ, String.utf8Len_cons, ih]
      show 2 * count + 2 = 2 * (count + 1)
      omega
  rw [accents]
  rfl

theorem trim_accented (count : ℕ) : trim (accented count) = accented count := by
  apply trim_eq_self
  intro character member
  rcases List.mem_cons.mp member with rfl | later
  · rfl
  · rw [List.eq_of_mem_replicate later]
    rfl

theorem not_isCharBoundary_accented {count index : ℕ} (positive : 0 < index)
    (even : index % 2 = 0) : ¬IsCharBoundary (accented count) index := by
  intro boundary
  obtain ⟨taken, ends⟩ := isCharBoundary_iff.mp boundary
  rw [accented, String.toList_ofList] at ends
  cases taken with
  | zero =>
    rw [List.take_zero] at ends
    exact absurd ends positive.ne'
  | succ taken =>
    have size := utf8ByteSize_accented (min taken count)
    rw [accented, ← List.take_replicate, ← List.take_succ_cons, ← ends] at size
    omega

/-- The text of 513 bytes whose last letter has two. -/
theorem not_sanitized_accented :
    ¬∃ message, sanitize (accented 256) = some message ∧ Sanitized (accented 256) message := by
  have misfit : ¬Fits (accented 256) := by
    rw [Fits, trim_accented, utf8ByteSize_accented]
    exact not_or.mpr ⟨by decide, not_isCharBoundary_accented (by decide) (by decide)⟩
  rintro ⟨message, isMessage, _⟩
  rw [sanitize_of_not_fits misfit] at isMessage
  cases isMessage

end SyncErrorMessage

end Bitgarth.Sync

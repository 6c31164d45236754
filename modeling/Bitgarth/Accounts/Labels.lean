import Mathlib.Data.List.Basic
import Bitgarth.Foundation.Fallible
import Bitgarth.Text

/-! # Labels of accounts and wallets

A label is kept with single spaces between its words; its key, in lower case, is what must be
unique. The lower case of Unicode text is a parameter. `key_generateMoveAccountLabel_notMem` says
when the label of a moved account is free in the target wallet.
-/

namespace Bitgarth.Accounts

open Fallible Text

def accountLabelMaxLength : ℕ := 255
def walletLabelMaxLength : ℕ := 255

inductive LabelError where
  | empty
  | tooLong (max actual : ℕ)
deriving DecidableEq, Repr

def LabelError.message : LabelError → String
  | .empty => "Label cannot be empty"
  | .tooLong max actual => "Label too long: max " ++ toString max ++ ", got " ++ toString actual

/-- `str::split_whitespace`. -/
def splitWhitespace (text : String) : List String :=
  ((text.toList.splitOnP isWhiteSpace).filter (· ≠ [])).map String.ofList

/-- The words of a text with single spaces between them. -/
def normalizeLabelDisplay (text : String) : String :=
  String.intercalate " " (splitWhitespace text)

structure Label where
  text : String
deriving DecidableEq, Repr

/-- `Label::parse_with_limit`; lengths are in bytes. -/
def Label.parseWithLimit (input : String) (maxLen : ℕ) : Except LabelError Label :=
  let normalized := normalizeLabelDisplay input
  if normalized.isEmpty then .error .empty
  else if maxLen < normalized.utf8ByteSize then .error (.tooLong maxLen normalized.utf8ByteSize)
  else .ok ⟨normalized⟩

/-- The longest start of a text that fits. -/
def truncateChars (maxBytes : ℕ) : List Char → List Char
  | [] => []
  | character :: rest =>
    if character.utf8Size ≤ maxBytes then
      character :: truncateChars (maxBytes - character.utf8Size) rest
    else
      []

def truncateToMaxBytes (input : String) (maxBytes : ℕ) : String :=
  String.ofList (truncateChars maxBytes input.toList)

section Keys

variable (lower : String → String)

/-- `canonicalize_label`, with the lower case of a text. -/
def canonicalizeLabel (input : String) : String :=
  lower (normalizeLabelDisplay input)

def Label.key (label : Label) : String :=
  canonicalizeLabel lower label.text

/-- Cut a base so that the number fits behind it. -/
def numberedLabel (base : String) (number : ℕ) : String :=
  let suffix := " (" ++ toString number ++ ")"
  truncateToMaxBytes base (accountLabelMaxLength - suffix.utf8ByteSize) ++ suffix

/-- The first free label among the numbered ones. -/
def firstFreeNumbered (base : String) (existingLabelKeys : List String) :
    List ℕ → Except LabelError (Option Label)
  | [] => .ok none
  | number :: rest => do
      let label ← Label.parseWithLimit (numberedLabel base number) accountLabelMaxLength
      if label.key lower ∉ existingLabelKeys then
        return some label
      else
        firstFreeNumbered base existingLabelKeys rest

/-- The label of a moved account after its wallet. -/
def moveAccountLabelBase (currentLabel sourceWalletLabel : Label) : String :=
  truncateToMaxBytes (currentLabel.text ++ " moved from wallet " ++ sourceWalletLabel.text)
    accountLabelMaxLength

def generateMoveAccountLabel (currentLabel sourceWalletLabel : Label)
    (existingLabelKeys : List String) : Except LabelError Label := do
  if currentLabel.key lower ∉ existingLabelKeys then
    return currentLabel
  let base := moveAccountLabelBase currentLabel sourceWalletLabel
  let baseLabel ← Label.parseWithLimit base accountLabelMaxLength
  if baseLabel.key lower ∉ existingLabelKeys then
    return baseLabel
  match ← firstFreeNumbered lower base existingLabelKeys (List.range' 2 999) with
  | some label => return label
  | none => Label.parseWithLimit (numberedLabel base 1001) accountLabelMaxLength

/-! ## Free labels -/

/-- What a moved account may be called if its own label is taken. -/
def moveAccountLabelTexts (currentLabel sourceWalletLabel : Label) : List String :=
  let base := moveAccountLabelBase currentLabel sourceWalletLabel
  base :: (List.range' 2 1000).map (numberedLabel base)

/-- Some label that a moved account may get is not in use. -/
def SomeLabelFree (currentLabel sourceWalletLabel : Label) (existingLabelKeys : List String) :
    Prop :=
  currentLabel.key lower ∉ existingLabelKeys ∨
    ∃ text ∈ moveAccountLabelTexts currentLabel sourceWalletLabel, ∃ label,
      Label.parseWithLimit text accountLabelMaxLength = .ok label ∧
      label.key lower ∉ existingLabelKeys

variable {lower} {base : String} {existing : List String}

theorem firstFreeNumbered_eq_ok {numbers : List ℕ} {found : Option Label}
    (done : firstFreeNumbered lower base existing numbers = .ok found) :
    match found with
    | some label => label.key lower ∉ existing ∧ ∃ number ∈ numbers,
        Label.parseWithLimit (numberedLabel base number) accountLabelMaxLength = .ok label
    | none => ∀ number ∈ numbers, ∀ label,
        Label.parseWithLimit (numberedLabel base number) accountLabelMaxLength = .ok label →
        label.key lower ∈ existing := by
  induction numbers with
  | nil =>
    obtain rfl := Except.ok.inj done
    exact fun _ among => absurd among List.not_mem_nil
  | cons number rest ih =>
    obtain ⟨label, parsed, done⟩ := bind_eq_ok.mp done
    split at done
    · rename_i free
      obtain rfl := pure_eq_ok.mp done
      exact ⟨free, number, List.mem_cons_self, parsed⟩
    · rename_i taken
      have later := ih done
      cases found with
      | some other =>
        obtain ⟨free, number, among, isLabel⟩ := later
        exact ⟨free, number, List.mem_cons_of_mem _ among, isLabel⟩
      | none =>
        refine List.forall_mem_cons.mpr ⟨fun other isOther => ?_, later⟩
        rw [parsed] at isOther
        exact Except.ok.inj isOther ▸ not_not.mp taken

theorem key_generateMoveAccountLabel_notMem {currentLabel sourceWalletLabel label : Label}
    (generated : generateMoveAccountLabel lower currentLabel sourceWalletLabel existing =
      .ok label) :
    label.key lower ∉ existing ↔ SomeLabelFree lower currentLabel sourceWalletLabel existing := by
  unfold generateMoveAccountLabel at generated
  unfold SomeLabelFree moveAccountLabelTexts
  split at generated
  · rename_i free
    obtain rfl := pure_eq_ok.mp generated
    exact iff_of_true free (.inl free)
  rename_i taken
  have current : ¬ currentLabel.key lower ∉ existing := taken
  obtain ⟨baseLabel, parsed, generated⟩ := bind_eq_ok.mp generated
  split at generated
  · rename_i free
    obtain rfl := pure_eq_ok.mp generated
    exact iff_of_true free (.inr ⟨_, List.mem_cons_self, baseLabel, parsed, free⟩)
  rename_i baseTaken
  obtain ⟨found, searched, generated⟩ := bind_eq_ok.mp generated
  have result := firstFreeNumbered_eq_ok searched
  cases found with
  | some other =>
    obtain rfl := pure_eq_ok.mp generated
    obtain ⟨free, number, among, isLabel⟩ := result
    refine iff_of_true free (.inr ⟨_, List.mem_cons_of_mem _ (List.mem_map_of_mem ?_), _,
      isLabel, free⟩)
    rw [List.mem_range'_1] at among ⊢
    omega
  | none =>
    refine ⟨fun free => .inr ⟨_, List.mem_cons_of_mem _ (List.mem_map.mpr ⟨1001, ?_, rfl⟩), label,
      generated, free⟩, ?_⟩
    · rw [List.mem_range'_1]
      omega
    · rintro (free | ⟨text, among, other, isOther, free⟩)
      · exact absurd free current
      rcases List.mem_cons.mp among with rfl | among
      · rw [parsed] at isOther
        exact absurd (Except.ok.inj isOther ▸ free) baseTaken
      · obtain ⟨number, inRange, rfl⟩ := List.mem_map.mp among
        rw [List.mem_range'_1] at inRange
        rcases Nat.lt_or_ge number 1001 with below | above
        · exact absurd (result number (List.mem_range'_1.mpr (by omega)) other isOther) free
        · obtain rfl : number = 1001 := by omega
          rw [isOther] at generated
          exact Except.ok.inj generated ▸ free

end Keys

end Bitgarth.Accounts

import Bitgarth.Text
import Mathlib

/-! # Ethereum addresses

An address is kept as its forty lower-case hexadecimal digits. It is written with a checksum in
the case of its letters, and a text in mixed case is read only with the right checksum.
`parse_checksummed` says that what is written is read back.
-/

namespace Bitgarth.Accounts

open Text

attribute [local instance] List.decidableBAll

def isLowerHexDigit (character : Char) : Bool :=
  isAsciiHexDigit character && character.toLower == character

@[ext]
structure EthAddress where
  digits : List Char
  length_digits : digits.length = 40
  lower : ∀ character ∈ digits, isLowerHexDigit character = true
deriving DecidableEq

inductive EthAddressError where
  | wrongLength (actual : ℕ)
  | missingPrefix
  | invalidHex
  | invalidChecksum
deriving DecidableEq, Repr

/-- The digits from an index on, with a letter in upper case where the half byte is 8 or more. -/
def eip55From (nibble : ℕ → ℕ) : ℕ → List Char → List Char
  | _, [] => []
  | index, character :: rest =>
    (if character.isAlpha && decide (8 ≤ nibble index) then character.toUpper else character) ::
      eip55From nibble (index + 1) rest

/-- `eip55_checksum`; `hashNibble` gives the half bytes of the Keccak-256 hash of a text. -/
def eip55Checksum (hashNibble : List Char → ℕ → ℕ) (hex : List Char) : List Char :=
  eip55From (hashNibble hex) 0 hex

/-- `str::len`, in bytes. -/
def byteLength (text : List Char) : ℕ := (text.map Char.utf8Size).sum

def isMixedCase (hex : List Char) : Bool :=
  hex.any Char.isUpper && hex.any Char.isLower

namespace EthAddress

def checksummed (hashNibble : List Char → ℕ → ℕ) (address : EthAddress) : String :=
  String.ofList ('0' :: 'x' :: eip55Checksum hashNibble address.digits)

def normalized (address : EthAddress) : String :=
  String.ofList ('0' :: 'x' :: address.digits)

theorem isAscii_of_isAsciiHexDigit {character : Char}
    (digit : isAsciiHexDigit character = true) : character.toNat < 128 := by
  simp only [isAsciiHexDigit, Bool.or_eq_true, Bool.and_eq_true, decide_eq_true_eq] at digit
  omega

theorem of_ascii {holds : Char → Prop} (each : ∀ code < 128, holds (Char.ofNat code))
    {character : Char} (digit : isAsciiHexDigit character = true) : holds character := by
  have found := each character.toNat (isAscii_of_isAsciiHexDigit digit)
  rwa [Char.ofNat_toNat] at found

theorem isLowerHexDigit_toLower {character : Char} (digit : isAsciiHexDigit character = true) :
    isLowerHexDigit character.toLower = true := by
  have each : ∀ code < 128, isAsciiHexDigit (Char.ofNat code) = true →
      isLowerHexDigit (Char.ofNat code).toLower = true := by decide
  exact @of_ascii (fun c => isAsciiHexDigit c = true → isLowerHexDigit c.toLower = true) each
    character digit digit

/-- The address of forty hexadecimal digits. -/
def ofHex (hex : List Char)
    (valid : (∀ character ∈ hex, isAsciiHexDigit character = true) ∧ hex.length = 40) :
    EthAddress where
  digits := hex.map Char.toLower
  length_digits := (List.length_map _).trans valid.2
  lower := by
    intro character member
    obtain ⟨original, among, rfl⟩ := List.mem_map.mp member
    exact isLowerHexDigit_toLower (valid.1 original among)

def parse (hashNibble : List Char → ℕ → ℕ) (raw : String) :
    Except EthAddressError EthAddress :=
  let input := (trim raw).toList
  if byteLength input ≠ 42 then
    .error (.wrongLength (byteLength input))
  else if ['0', 'x'].isPrefixOf input = false ∧ ['0', 'X'].isPrefixOf input = false then
    .error .missingPrefix
  else
    let hexPart := input.drop 2
    if valid : (∀ character ∈ hexPart, isAsciiHexDigit character = true) ∧ hexPart.length = 40 then
      if isMixedCase hexPart = true ∧
          hexPart ≠ eip55Checksum hashNibble (ofHex hexPart valid).digits then
        .error .invalidChecksum
      else
        .ok (ofHex hexPart valid)
    else
      .error .invalidHex

theorem parse_of_valid {hashNibble : List Char → ℕ → ℕ} {raw : String} {hex : List Char}
    (shape : (trim raw).toList = '0' :: 'x' :: hex)
    (bytes : byteLength ('0' :: 'x' :: hex) = 42)
    (valid : (∀ character ∈ hex, isAsciiHexDigit character = true) ∧ hex.length = 40)
    (cased : hex = eip55Checksum hashNibble (ofHex hex valid).digits) :
    parse hashNibble raw = .ok (ofHex hex valid) := by
  have starts : ['0', 'x'].isPrefixOf ('0' :: 'x' :: hex) = true := rfl
  unfold parse
  simp only [shape, bytes, ne_eq, not_true_eq_false, ↓reduceIte, starts, Bool.true_eq_false,
    false_and, List.drop_succ_cons, List.drop_zero]
  rw [dif_pos valid, if_neg fun mixed => mixed.2 cased]

theorem cased_digit {character : Char} (lower : isLowerHexDigit character = true) (upper : Bool) :
    let cased := if upper then character.toUpper else character
    isAsciiHexDigit cased = true ∧ cased.toLower = character ∧ cased.utf8Size = 1 ∧
      isWhiteSpace cased = false := by
  have digit : isAsciiHexDigit character = true := by
    unfold isLowerHexDigit at lower
    exact (Bool.and_eq_true_iff.mp lower).1
  have each : ∀ code < 128, ∀ upper : Bool, isLowerHexDigit (Char.ofNat code) = true →
      let cased := if upper then (Char.ofNat code).toUpper else Char.ofNat code
      isAsciiHexDigit cased = true ∧ cased.toLower = Char.ofNat code ∧ cased.utf8Size = 1 ∧
        isWhiteSpace cased = false := by decide +kernel
  exact @of_ascii (fun c => ∀ upper : Bool, isLowerHexDigit c = true →
    let cased := if upper then c.toUpper else c
    isAsciiHexDigit cased = true ∧ cased.toLower = c ∧ cased.utf8Size = 1 ∧
      isWhiteSpace cased = false) each character digit upper lower

theorem eip55From_spec (nibble : ℕ → ℕ) (index : ℕ) {hex : List Char}
    (lower : ∀ character ∈ hex, isLowerHexDigit character = true) :
    (eip55From nibble index hex).map Char.toLower = hex ∧
      byteLength (eip55From nibble index hex) = hex.length ∧
      ∀ character ∈ eip55From nibble index hex,
        isAsciiHexDigit character = true ∧ isWhiteSpace character = false := by
  induction hex generalizing index with
  | nil => exact ⟨rfl, rfl, fun _ member => absurd member List.not_mem_nil⟩
  | cons character rest ih =>
    obtain ⟨lowered, size, digits⟩ :=
      ih (index + 1) fun other later => lower other (List.mem_cons_of_mem _ later)
    obtain ⟨digit, restored, one, dark⟩ := cased_digit (lower character List.mem_cons_self)
      (character.isAlpha && decide (8 ≤ nibble index))
    unfold byteLength at size ⊢
    simp only [eip55From, List.map_cons, List.sum_cons, List.length_cons, List.forall_mem_cons]
    refine ⟨?_, ?_, ⟨digit, dark⟩, digits⟩
    · rw [restored, lowered]
    · rw [one, size, Nat.add_comm]

theorem parse_checksummed (hashNibble : List Char → ℕ → ℕ) (address : EthAddress) :
    parse hashNibble (address.checksummed hashNibble) = .ok address := by
  obtain ⟨lowered, size, digits⟩ :=
    eip55From_spec (hashNibble address.digits) 0 address.lower
  have length : (eip55Checksum hashNibble address.digits).length = 40 := by
    have mapped := congrArg List.length lowered
    rw [List.length_map, address.length_digits] at mapped
    exact mapped
  have trimmed : trim (address.checksummed hashNibble) = address.checksummed hashNibble := by
    refine trim_eq_self ?_
    intro character member
    rcases List.mem_cons.mp member with rfl | member
    · rfl
    · rcases List.mem_cons.mp member with rfl | member
      · rfl
      · exact (digits character member).2
  have bytes : byteLength ('0' :: 'x' :: eip55Checksum hashNibble address.digits) = 42 := by
    rw [address.length_digits] at size
    unfold byteLength at size ⊢
    unfold eip55Checksum
    rw [List.map_cons, List.map_cons, List.sum_cons, List.sum_cons, size]
    rfl
  have valid : (∀ character ∈ eip55Checksum hashNibble address.digits,
      isAsciiHexDigit character = true) ∧
        (eip55Checksum hashNibble address.digits).length = 40 :=
    ⟨fun character member => (digits character member).1, length⟩
  have same : ofHex (eip55Checksum hashNibble address.digits) valid = address :=
    EthAddress.ext lowered
  have shape : (trim (address.checksummed hashNibble)).toList =
      '0' :: 'x' :: eip55Checksum hashNibble address.digits := by
    rw [trimmed]
    exact String.toList_ofList
  rw [parse_of_valid shape bytes valid (by rw [same]), same]

theorem normalized_injective : Function.Injective normalized := by
  intro left right same
  have characters := String.ofList_injective same
  exact EthAddress.ext (List.cons.inj (List.cons.inj characters).2).2

end EthAddress

end Bitgarth.Accounts

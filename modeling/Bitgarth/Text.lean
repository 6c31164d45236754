import Mathlib.Data.List.DropRight
import Mathlib.Tactic.Common

/-! # Text as Rust trims and classifies it -/

namespace Bitgarth.Text

/-- The characters `str::trim` removes: those with the Unicode property `White_Space`. -/
def isWhiteSpace (character : Char) : Bool :=
  let code := character.toNat
  (9 ≤ code && code ≤ 13) || code == 32 || code == 133 || code == 160 || code == 5760 ||
    (8192 ≤ code && code ≤ 8202) || code == 8232 || code == 8233 || code == 8239 ||
    code == 8287 || code == 12288

/-- `text.trim().is_empty()`. -/
def isBlank (text : String) : Bool :=
  text.toList.all isWhiteSpace

/-- `str::trim`. -/
def trim (text : String) : String :=
  String.ofList (((text.toList.dropWhile isWhiteSpace).reverse.dropWhile isWhiteSpace).reverse)

/-- `char::is_ascii_hexdigit`. -/
def isAsciiHexDigit (character : Char) : Bool :=
  let code := character.toNat
  (48 ≤ code && code ≤ 57) || (97 ≤ code && code ≤ 102) || (65 ≤ code && code ≤ 70)

/-- `str::to_ascii_lowercase`. -/
def toAsciiLowercase (text : String) : String :=
  String.ofList (text.toList.map Char.toLower)

theorem toNat_toLower (character : Char) :
    ¬(65 ≤ character.toNat ∧ character.toNat ≤ 90) ∧
        character.toLower.toNat = character.toNat ∨
      65 ≤ character.toNat ∧ character.toNat ≤ 90 ∧
        character.toLower.toNat = character.toNat + 32 := by
  unfold Char.toLower
  split <;> rename_i upper
  · have bound : character.val.toNat ≤ 90 := upper.2
    refine .inr ⟨upper.1, bound, ?_⟩
    change (character.val + ('a'.val - 'A'.val)).toNat = character.val.toNat + 32
    rw [UInt32.toNat_add]
    change (character.val.toNat + 32) % 2 ^ 32 = _
    omega
  · exact .inl ⟨upper, rfl⟩

theorem toLower_toLower (character : Char) : character.toLower.toLower = character.toLower := by
  refine dif_neg fun upper => ?_
  have low : 65 ≤ character.toLower.toNat := upper.1
  have high : character.toLower.toNat ≤ 90 := upper.2
  have lower := toNat_toLower character
  omega

theorem isWhiteSpace_toLower_of_isAsciiHexDigit {character : Char}
    (digit : isAsciiHexDigit character = true) : isWhiteSpace character.toLower = false := by
  have lower := toNat_toLower character
  simp only [isAsciiHexDigit, Bool.or_eq_true, Bool.and_eq_true, decide_eq_true_eq] at digit
  simp only [isWhiteSpace, Bool.or_eq_false_iff, Bool.and_eq_false_iff, decide_eq_false_iff_not,
    beq_eq_false_iff_ne, ne_eq]
  omega

theorem isWhiteSpace_toLower (character : Char) :
    isWhiteSpace character.toLower = isWhiteSpace character := by
  rcases toNat_toLower character with ⟨-, same⟩ | ⟨low, high, moved⟩
  · simp only [isWhiteSpace, same]
  · have upper : isWhiteSpace character = false := by
      simp only [isWhiteSpace, Bool.or_eq_false_iff, Bool.and_eq_false_iff,
        decide_eq_false_iff_not, beq_eq_false_iff_ne, ne_eq]
      omega
    rw [upper]
    simp only [isWhiteSpace, Bool.or_eq_false_iff, Bool.and_eq_false_iff, decide_eq_false_iff_not,
      beq_eq_false_iff_ne, ne_eq]
    omega

/-! ## Trimming -/

theorem toList_trim (text : String) :
    (trim text).toList = (text.toList.dropWhile isWhiteSpace).rdropWhile isWhiteSpace := by
  rw [trim, String.toList_ofList]
  rfl

theorem rdropWhile_cons_of_neg {α : Type*} {drop : α → Bool} {first : α} (kept : drop first = false)
    (rest : List α) : (first :: rest).rdropWhile drop = first :: rest.rdropWhile drop := by
  unfold List.rdropWhile
  rw [List.reverse_cons, List.dropWhile_append]
  split <;> rename_i dropped
  · rw [List.isEmpty_iff] at dropped
    simp [dropped, kept]
  · rw [List.reverse_append, List.reverse_singleton, List.singleton_append]

theorem dropWhile_rdropWhile {α : Type*} (drop : α → Bool) (items : List α) :
    (items.rdropWhile drop).dropWhile drop = (items.dropWhile drop).rdropWhile drop := by
  induction items with
  | nil => rfl
  | cons first rest ih =>
    cases kept : drop first with
    | false =>
      rw [rdropWhile_cons_of_neg kept, List.dropWhile_cons_of_neg (by simp [kept]),
        List.dropWhile_cons_of_neg (by simp [kept]), rdropWhile_cons_of_neg kept]
    | true =>
      rw [List.dropWhile_cons_of_pos kept, ← ih]
      by_cases blank : ∀ item ∈ rest, drop item = true
      · rw [List.rdropWhile_eq_nil_iff.mpr blank,
          List.rdropWhile_eq_nil_iff.mpr (List.forall_mem_cons.mpr ⟨kept, blank⟩)]
      · have nonempty : rest.rdropWhile drop ≠ [] := fun empty =>
          blank (List.rdropWhile_eq_nil_iff.mp empty)
        have extended : (first :: rest).rdropWhile drop = first :: rest.rdropWhile drop := by
          unfold List.rdropWhile at nonempty ⊢
          rw [List.reverse_cons, List.dropWhile_append, if_neg, List.reverse_append,
            List.reverse_singleton, List.singleton_append]
          simpa using nonempty
        rw [extended, List.dropWhile_cons_of_pos kept]

theorem trim_rdropWhile (text : List Char) :
    trim (String.ofList (text.rdropWhile isWhiteSpace)) = trim (String.ofList text) := by
  rw [← String.toList_inj, toList_trim, toList_trim, String.toList_ofList, String.toList_ofList,
    dropWhile_rdropWhile, List.rdropWhile_idempotent]

theorem trim_trim (text : String) : trim (trim text) = trim text := by
  rw [← String.toList_inj, toList_trim, toList_trim, dropWhile_rdropWhile,
    List.dropWhile_idempotent, List.rdropWhile_idempotent]

theorem trim_eq_self {text : List Char}
    (dark : ∀ character ∈ text, isWhiteSpace character = false) :
    trim (String.ofList text) = String.ofList text := by
  have kept : ∀ {characters : List Char}, (∀ c ∈ characters, isWhiteSpace c = false) →
      characters.dropWhile isWhiteSpace = characters := by
    intro characters all
    cases characters with
    | nil => rfl
    | cons first rest => exact List.dropWhile_cons_of_neg (by simp [all first List.mem_cons_self])
  unfold trim
  rw [String.toList_ofList, kept dark,
    kept fun c member => dark c (List.mem_reverse.mp member), List.reverse_reverse]

/-! ## Lower case -/

theorem toAsciiLowercase_toAsciiLowercase (text : String) :
    toAsciiLowercase (toAsciiLowercase text) = toAsciiLowercase text := by
  simp only [toAsciiLowercase, String.toList_ofList, List.map_map]
  refine congrArg String.ofList (List.map_congr_left fun character _ => ?_)
  exact toLower_toLower character

theorem dropWhile_map_toLower (text : List Char) :
    (text.map Char.toLower).dropWhile isWhiteSpace =
      (text.dropWhile isWhiteSpace).map Char.toLower := by
  rw [List.dropWhile_map]
  congr 2
  funext character
  exact isWhiteSpace_toLower character

theorem trim_toAsciiLowercase (text : String) :
    trim (toAsciiLowercase text) = toAsciiLowercase (trim text) := by
  rw [← String.toList_inj, toList_trim]
  simp only [toAsciiLowercase, String.toList_ofList, toList_trim, List.rdropWhile,
    dropWhile_map_toLower, ← List.map_reverse]

end Bitgarth.Text

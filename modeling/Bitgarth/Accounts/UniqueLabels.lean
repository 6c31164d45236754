import Mathlib.Data.Finset.Dedup
import Mathlib.Data.Finset.Insert
import Mathlib.Data.String.Basic
import Bitgarth.Accounts.Labels
import Mathlib.Algebra.GroupWithZero.Nat

/-! # Labels made unique by a number

An imported wallet or account whose label is taken gets a number behind it, and so does a moved
account. Every candidate parses to a valid label, and the number that is kept when all the others
are taken is not looked up: the result is fresh exactly when some candidate is
(`Bitgarth.Accounts.labels_deduplicated_iff`).
-/

namespace Bitgarth.Accounts

open Fallible Text

/-! ## The source -/

/-- `WalletDataImportDbError`, as far as labels raise it. -/
inductive WalletDataImportDbError
  | validation (message : String)
  deriving DecidableEq

/-- `trim_to_max_bytes`. -/
def trimToMaxBytes (input : String) (maxBytes : ℕ) : String :=
  String.ofList (truncateChars maxBytes input.toList)

/-- Cut a label so that the number fits behind it. -/
def suffixedLabel (maxLen : ℕ) (base : String) (suffix : ℕ) : String :=
  let suffixText := " (" ++ toString suffix ++ ")"
  trimToMaxBytes base (maxLen - suffixText.utf8ByteSize) ++ suffixText

section Keys

variable (lower : String → String)

/-- The first free label among the numbered ones, in `unique_label_with_numeric_suffix`. -/
def firstFreeSuffixed (preferred : Label) (existingKeys : Finset String) (maxLen : ℕ) :
    List ℕ → Except WalletDataImportDbError (Option Label)
  | [] => .ok none
  | suffix :: rest => do
      let candidate := suffixedLabel maxLen preferred.text suffix
      let parsed ← (Label.parseWithLimit candidate maxLen).mapError fun err =>
        .validation ("Failed to build deterministic label collision suffix: " ++ err.message)
      if parsed.key lower ∉ existingKeys then
        return some parsed
      else
        firstFreeSuffixed preferred existingKeys maxLen rest

/-- `unique_label_with_numeric_suffix`. -/
def uniqueLabelWithNumericSuffix (preferred : Label) (existingKeys : Finset String) (maxLen : ℕ) :
    Except WalletDataImportDbError Label := do
  if preferred.key lower ∉ existingKeys then
    return preferred
  match ← firstFreeSuffixed lower preferred existingKeys maxLen (List.range' 2 999) with
  | some label => return label
  | none =>
    (Label.parseWithLimit (suffixedLabel maxLen preferred.text 1001) maxLen).mapError fun err =>
      .validation ("Failed to generate deterministic fallback label: " ++ err.message)

end Keys

/-! ## Words and their lengths -/

/-- A label as `parse_with_limit` makes them. -/
def Label.Valid (maxLen : ℕ) (label : Label) : Prop :=
  ∃ input, Label.parseWithLimit input maxLen = .ok label

theorem utf8ByteSize_eq (text : String) : text.utf8ByteSize = String.utf8Len text.toList := by
  rw [← String.utf8ByteSize_ofList, String.ofList_toList]

theorem sum_utf8Len_splitOnP (separates : Char → Bool) (chars : List Char) :
    ((chars.splitOnP separates).map String.utf8Len).sum + (chars.splitOnP separates).length ≤
      String.utf8Len chars + 1 := by
  induction chars with
  | nil => simp
  | cons char rest ih =>
    have positive := Char.utf8Size_pos char
    rw [List.splitOnP_cons_eq_if_modifyHead]
    by_cases isSeparator : separates char = true
    · rw [if_pos isSeparator]
      simp only [List.map_cons, List.sum_cons, List.length_cons, String.utf8Len_nil,
        String.utf8Len_cons]
      omega
    · rw [if_neg isSeparator]
      obtain ⟨segment, segments, split⟩ :=
        List.exists_cons_of_ne_nil (List.splitOnP_ne_nil separates rest)
      rw [split] at ih ⊢
      simp only [List.modifyHead_cons, List.map_cons, List.sum_cons, List.length_cons,
        String.utf8Len_cons] at ih ⊢
      omega

theorem mem_splitOnP {separates : Char → Bool} {chars : List Char} {char : Char}
    (among : char ∈ chars) (kept : separates char = false) :
    ∃ segment ∈ chars.splitOnP separates, char ∈ segment := by
  induction chars with
  | nil => exact absurd among List.not_mem_nil
  | cons first rest ih =>
    rw [List.splitOnP_cons_eq_if_modifyHead]
    by_cases isSeparator : separates first = true
    · rw [if_pos isSeparator]
      rcases List.mem_cons.mp among with rfl | later
      · rw [kept] at isSeparator
        cases isSeparator
      · obtain ⟨segment, found, inside⟩ := ih later
        exact ⟨segment, List.mem_cons_of_mem _ found, inside⟩
    · rw [if_neg isSeparator]
      obtain ⟨segment, segments, split⟩ :=
        List.exists_cons_of_ne_nil (List.splitOnP_ne_nil separates rest)
      rw [split] at ih ⊢
      rw [List.modifyHead_cons]
      rcases List.mem_cons.mp among with rfl | later
      · exact ⟨_, List.mem_cons_self, List.mem_cons_self⟩
      · obtain ⟨found, isSegment, inside⟩ := ih later
        rcases List.mem_cons.mp isSegment with rfl | isSegment
        · exact ⟨_, List.mem_cons_self, List.mem_cons_of_mem _ inside⟩
        · exact ⟨found, List.mem_cons_of_mem _ isSegment, inside⟩

theorem kept_of_mem_splitOnP {separates : Char → Bool} {chars segment : List Char} {char : Char}
    (isSegment : segment ∈ chars.splitOnP separates) (inside : char ∈ segment) :
    separates char = false := by
  induction chars generalizing segment with
  | nil =>
    rw [List.splitOnP_nil, List.mem_singleton] at isSegment
    subst isSegment
    exact absurd inside List.not_mem_nil
  | cons first rest ih =>
    rw [List.splitOnP_cons_eq_if_modifyHead] at isSegment
    by_cases isSeparator : separates first = true
    · rw [if_pos isSeparator] at isSegment
      rcases List.mem_cons.mp isSegment with rfl | isSegment
      · exact absurd inside List.not_mem_nil
      · exact ih isSegment inside
    · rw [if_neg isSeparator] at isSegment
      obtain ⟨head, segments, split⟩ :=
        List.exists_cons_of_ne_nil (List.splitOnP_ne_nil separates rest)
      rw [split, List.modifyHead_cons] at isSegment
      rcases List.mem_cons.mp isSegment with rfl | isSegment
      · rcases List.mem_cons.mp inside with rfl | inside
        · exact Bool.eq_false_of_not_eq_true isSeparator
        · exact ih (split ▸ List.mem_cons_self) inside
      · exact ih (split ▸ List.mem_cons_of_mem _ isSegment) inside

theorem utf8Len_intercalate {words : List (List Char)} (nonempty : words ≠ []) :
    String.utf8Len ([' '].intercalate words) + 1 =
      (words.map String.utf8Len).sum + words.length := by
  induction words with
  | nil => exact absurd rfl nonempty
  | cons word rest ih =>
    cases rest with
    | nil => simp
    | cons next others =>
      have size : ' '.utf8Size = 1 := rfl
      have later := ih (List.cons_ne_nil _ _)
      rw [List.intercalate_cons_cons, String.utf8Len_append, String.utf8Len_append,
        String.utf8Len_cons, String.utf8Len_nil, size]
      simp only [List.map_cons, List.sum_cons, List.length_cons] at later ⊢
      omega

/-- The words of a text. -/
def labelWords (text : String) : List (List Char) :=
  (text.toList.splitOnP isWhiteSpace).filter (· ≠ [])

theorem toList_normalizeLabelDisplay (text : String) :
    (normalizeLabelDisplay text).toList = [' '].intercalate (labelWords text) := by
  have words : (String.toList ∘ String.ofList : List Char → List Char) = id :=
    funext fun word => String.toList_ofList
  rw [normalizeLabelDisplay, String.toList_intercalate, splitWhitespace, List.map_map, words,
    List.map_id]
  rfl

theorem utf8ByteSize_normalizeLabelDisplay_le (text : String) :
    (normalizeLabelDisplay text).utf8ByteSize ≤ text.utf8ByteSize := by
  rw [utf8ByteSize_eq, utf8ByteSize_eq, toList_normalizeLabelDisplay]
  by_cases blank : labelWords text = []
  · rw [blank]
    exact Nat.zero_le _
  · have split := sum_utf8Len_splitOnP isWhiteSpace text.toList
    have joined := utf8Len_intercalate blank
    have fewer : (labelWords text).length ≤ (text.toList.splitOnP isWhiteSpace).length :=
      List.length_filter_le _ _
    have same : ((labelWords text).map String.utf8Len).sum =
        ((text.toList.splitOnP isWhiteSpace).map String.utf8Len).sum := by
      rw [labelWords]
      generalize text.toList.splitOnP isWhiteSpace = segments
      induction segments with
      | nil => rfl
      | cons segment rest ih => cases segment <;> simp_all
    omega

theorem labelWords_ne_nil {text : String} {char : Char} (among : char ∈ text.toList)
    (visible : isWhiteSpace char = false) : labelWords text ≠ [] := by
  obtain ⟨segment, found, inside⟩ := mem_splitOnP among visible
  refine @List.ne_nil_of_mem _ segment _ (List.mem_filter.mpr ⟨found, ?_⟩)
  exact decide_eq_true (List.ne_nil_of_mem inside)

theorem normalizeLabelDisplay_isEmpty_iff (text : String) :
    (normalizeLabelDisplay text).isEmpty = true ↔ labelWords text = [] := by
  rw [String.isEmpty_iff, ← String.toList_eq_nil_iff, toList_normalizeLabelDisplay]
  constructor
  · intro empty
    by_contra nonempty
    have joined := utf8Len_intercalate nonempty
    rw [empty, String.utf8Len_nil] at joined
    obtain ⟨word, rest, isWords⟩ := List.exists_cons_of_ne_nil nonempty
    have isWord : word ∈ labelWords text := isWords ▸ List.mem_cons_self
    have visible := of_decide_eq_true (List.mem_filter.mp isWord).2
    have positive : 0 < String.utf8Len word := by
      rw [Nat.pos_iff_ne_zero]
      exact fun zero => visible (String.utf8Len_eq_zero.mp zero)
    rw [isWords] at joined
    simp only [List.map_cons, List.sum_cons, List.length_cons] at joined
    omega
  · intro blank
    rw [blank]
    rfl

theorem parseWithLimit_eq_ok {text : String} {maxLen : ℕ} {char : Char}
    (among : char ∈ text.toList) (visible : isWhiteSpace char = false)
    (short : text.utf8ByteSize ≤ maxLen) :
    Label.parseWithLimit text maxLen = .ok ⟨normalizeLabelDisplay text⟩ := by
  have normalized := utf8ByteSize_normalizeLabelDisplay_le text
  have nonempty : ¬(normalizeLabelDisplay text).isEmpty = true :=
    (normalizeLabelDisplay_isEmpty_iff text).not.mpr (labelWords_ne_nil among visible)
  unfold Label.parseWithLimit
  simp only
  rw [if_neg nonempty, if_neg (by omega)]

theorem Label.Valid.exists_visible {maxLen : ℕ} {label : Label} (valid : label.Valid maxLen) :
    label.text.utf8ByteSize ≤ maxLen ∧
      ∃ char ∈ label.text.toList, isWhiteSpace char = false := by
  obtain ⟨input, parsed⟩ := valid
  unfold Label.parseWithLimit at parsed
  simp only at parsed
  split at parsed
  · cases parsed
  · rename_i nonempty
    split at parsed
    · cases parsed
    · rename_i short
      obtain rfl := Except.ok.inj parsed
      refine ⟨Nat.not_lt.mp short, ?_⟩
      rw [normalizeLabelDisplay_isEmpty_iff] at nonempty
      obtain ⟨word, rest, isWords⟩ := List.exists_cons_of_ne_nil nonempty
      have isWord : word ∈ labelWords input := isWords ▸ List.mem_cons_self
      have filtered := List.mem_filter.mp isWord
      obtain ⟨char, chars, rfl⟩ := List.exists_cons_of_ne_nil (of_decide_eq_true filtered.2)
      refine ⟨char, ?_, kept_of_mem_splitOnP filtered.1 List.mem_cons_self⟩
      rw [toList_normalizeLabelDisplay, isWords]
      cases rest with
      | nil => exact List.mem_cons_self
      | cons next others =>
        rw [List.intercalate_cons_cons]
        exact List.mem_cons_self

/-! ## Cutting -/

theorem utf8Len_truncateChars_le (maxBytes : ℕ) (chars : List Char) :
    String.utf8Len (truncateChars maxBytes chars) ≤ maxBytes := by
  induction chars generalizing maxBytes with
  | nil => exact Nat.zero_le _
  | cons char rest ih =>
    rw [truncateChars]
    split
    · have later := ih (maxBytes - char.utf8Size)
      rw [String.utf8Len_cons]
      omega
    · exact Nat.zero_le _

theorem truncateChars_append {maxBytes : ℕ} {first second : List Char}
    (fits : String.utf8Len first ≤ maxBytes) :
    truncateChars maxBytes (first ++ second) =
      first ++ truncateChars (maxBytes - String.utf8Len first) second := by
  induction first generalizing maxBytes with
  | nil => rfl
  | cons char rest ih =>
    rw [String.utf8Len_cons] at fits
    rw [List.cons_append, truncateChars, if_pos (by omega), ih (by omega), String.utf8Len_cons,
      List.cons_append, Nat.sub_sub, Nat.add_comm char.utf8Size]

theorem utf8ByteSize_trimToMaxBytes_le (input : String) (maxBytes : ℕ) :
    (trimToMaxBytes input maxBytes).utf8ByteSize ≤ maxBytes := by
  rw [trimToMaxBytes, String.utf8ByteSize_ofList]
  exact utf8Len_truncateChars_le _ _

/-! ## Candidates -/

theorem utf8ByteSize_suffix_le {suffix : ℕ} (among : suffix ∈ List.range' 2 1000) :
    (" (" ++ toString suffix ++ ")").utf8ByteSize ≤ 7 := by
  have all : (List.range' 2 1000).all
      (fun suffix => (" (" ++ toString suffix ++ ")").utf8ByteSize ≤ 7) = true := by
    decide +kernel
  exact of_decide_eq_true (List.all_eq_true.mp all suffix among)

theorem parseWithLimit_suffixedLabel {maxLen suffix : ℕ} (base : String) (room : 7 ≤ maxLen)
    (among : suffix ∈ List.range' 2 1000) :
    Label.parseWithLimit (suffixedLabel maxLen base suffix) maxLen =
      .ok ⟨normalizeLabelDisplay (suffixedLabel maxLen base suffix)⟩ := by
  have short := utf8ByteSize_suffix_le among
  have cut := utf8ByteSize_trimToMaxBytes_le base
    (maxLen - (" (" ++ toString suffix ++ ")").utf8ByteSize)
  refine @parseWithLimit_eq_ok _ _ '(' ?_ rfl ?_
  · simp only [suffixedLabel, String.toList_append, List.mem_append]
    exact .inr (.inl (.inl (by decide)))
  · rw [suffixedLabel, String.utf8ByteSize_append]
    omega

/-! ## What is free -/

/-- A label of those tried is free: the preferred one, or one with a number from 2 to 1001. -/
def SomeSuffixFree (lower : String → String) (preferred : Label) (existingKeys : Finset String)
    (maxLen : ℕ) : Prop :=
  preferred.key lower ∉ existingKeys ∨
    ∃ suffix ∈ List.range' 2 1000, ∃ label,
      Label.parseWithLimit (suffixedLabel maxLen preferred.text suffix) maxLen = .ok label ∧
      label.key lower ∉ existingKeys

/-- De-duplication as it is promised: a valid label whose key is free, the preferred one where its
own key is free. -/
def Deduplicated {ε : Type} (lower : String → String) (preferred : Label) (maxLen : ℕ)
    (free : String → Prop) (result : Except ε Label) : Prop :=
  ∃ label, result = .ok label ∧ label.Valid maxLen ∧ free (label.key lower) ∧
    (free (preferred.key lower) → label = preferred)

variable {lower : String → String} {preferred : Label} {existingKeys : Finset String} {maxLen : ℕ}

theorem firstFreeSuffixed_eq (room : 7 ≤ maxLen) {suffixes : List ℕ}
    (among : ∀ suffix ∈ suffixes, suffix ∈ List.range' 2 1000) :
    firstFreeSuffixed lower preferred existingKeys maxLen suffixes =
      .ok ((suffixes.map fun suffix =>
          Label.mk (normalizeLabelDisplay (suffixedLabel maxLen preferred.text suffix))).find?
        fun label => label.key lower ∉ existingKeys) := by
  induction suffixes with
  | nil => rfl
  | cons suffix rest ih =>
    have parsed := parseWithLimit_suffixedLabel preferred.text room (among _ List.mem_cons_self)
    have later := ih fun other member => among other (List.mem_cons_of_mem _ member)
    rw [firstFreeSuffixed, List.map_cons, List.find?_cons]
    simp only [parsed, Except.mapError]
    by_cases free : Label.key lower
        ⟨normalizeLabelDisplay (suffixedLabel maxLen preferred.text suffix)⟩ ∉ existingKeys
    · simp only [free]
      exact if_pos free
    · simp only [free, decide_false]
      exact (if_neg free).trans later

theorem uniqueLabelWithNumericSuffix_spec (room : 7 ≤ maxLen) (valid : preferred.Valid maxLen) :
    ∃ label, uniqueLabelWithNumericSuffix lower preferred existingKeys maxLen = .ok label ∧
      label.Valid maxLen ∧ (preferred.key lower ∉ existingKeys → label = preferred) ∧
      (label.key lower ∉ existingKeys ↔ SomeSuffixFree lower preferred existingKeys maxLen) := by
  unfold uniqueLabelWithNumericSuffix
  by_cases own : preferred.key lower ∉ existingKeys
  · rw [if_pos own]
    exact ⟨preferred, rfl, valid, fun _ => rfl, iff_of_true own (.inl own)⟩
  rw [if_neg own]
  have within (suffix : ℕ) (among : suffix ∈ List.range' 2 999) : suffix ∈ List.range' 2 1000 := by
    rw [List.mem_range'_1] at among ⊢
    omega
  have parses (suffix : ℕ) (among : suffix ∈ List.range' 2 1000) :=
    parseWithLimit_suffixedLabel preferred.text room among
  rw [firstFreeSuffixed_eq room within]
  cases found : ((List.range' 2 999).map fun suffix =>
      Label.mk (normalizeLabelDisplay (suffixedLabel maxLen preferred.text suffix))).find?
    fun label => label.key lower ∉ existingKeys with
  | some label =>
    have free : label.key lower ∉ existingKeys :=
      of_decide_eq_true (@List.find?_some Label (fun label =>
        decide (label.key lower ∉ existingKeys))
        _ _ found)
    obtain ⟨suffix, among, rfl⟩ := List.mem_map.mp (List.mem_of_find?_eq_some found)
    have parsed := parses suffix (within suffix among)
    exact ⟨_, rfl, ⟨_, parsed⟩, fun free => absurd free own,
      iff_of_true free (.inr ⟨suffix, within suffix among, _, parsed, free⟩)⟩
  | none =>
    have last : 1001 ∈ List.range' 2 1000 := by
      rw [List.mem_range'_1]
      omega
    have parsed := parses 1001 last
    refine ⟨⟨normalizeLabelDisplay (suffixedLabel maxLen preferred.text 1001)⟩, ?_, ⟨_, parsed⟩,
      fun free => absurd free own, ?_⟩
    · simp only [parsed]
      rfl
    · refine ⟨fun free => .inr ⟨1001, last, _, parsed, free⟩, ?_⟩
      intro someFree
      obtain free | ⟨suffix, among, label, isLabel, free⟩ := someFree
      · exact absurd free own
      rw [parses suffix among] at isLabel
      obtain rfl := Except.ok.inj isLabel
      by_cases isLast : suffix = 1001
      · subst isLast
        exact free
      · have earlier : suffix ∈ List.range' 2 999 := by
          rw [List.mem_range'_1] at among ⊢
          omega
        have taken := List.find?_eq_none.mp found _ (List.mem_map_of_mem earlier)
        exact absurd (decide_eq_true free) taken

/-! ## Moved accounts -/

variable {currentLabel sourceWalletLabel : Label} {existingLabelKeys : List String}

theorem parseWithLimit_moveAccountLabelBase (valid : currentLabel.Valid accountLabelMaxLength) :
    Label.parseWithLimit (moveAccountLabelBase currentLabel sourceWalletLabel)
        accountLabelMaxLength =
      .ok ⟨normalizeLabelDisplay (moveAccountLabelBase currentLabel sourceWalletLabel)⟩ := by
  obtain ⟨fits, char, among, visible⟩ := valid.exists_visible
  refine @parseWithLimit_eq_ok _ _ char ?_ visible ?_
  · rw [utf8ByteSize_eq] at fits
    rw [moveAccountLabelBase, truncateToMaxBytes, String.toList_ofList, String.append_assoc,
      String.toList_append, truncateChars_append fits]
    exact List.mem_append_left _ among
  · exact utf8ByteSize_trimToMaxBytes_le _ _

theorem parseWithLimit_numberedLabel {number : ℕ} (base : String)
    (among : number ∈ List.range' 2 1000) :
    Label.parseWithLimit (numberedLabel base number) accountLabelMaxLength =
      .ok ⟨normalizeLabelDisplay (numberedLabel base number)⟩ :=
  parseWithLimit_suffixedLabel base (by decide) among

theorem firstFreeNumbered_isOk {base : String} {numbers : List ℕ}
    (among : ∀ number ∈ numbers, number ∈ List.range' 2 1000) :
    ∃ found, firstFreeNumbered lower base existingLabelKeys numbers = .ok found ∧
      ∀ label ∈ found, label.Valid accountLabelMaxLength := by
  induction numbers with
  | nil => exact ⟨none, rfl, nofun⟩
  | cons number rest ih =>
    have parsed := parseWithLimit_numberedLabel base (among _ List.mem_cons_self)
    obtain ⟨found, searched, valid⟩ := ih fun other member =>
      among other (List.mem_cons_of_mem _ member)
    rw [firstFreeNumbered, parsed]
    by_cases free : Label.key lower ⟨normalizeLabelDisplay (numberedLabel base number)⟩ ∉
        existingLabelKeys
    · refine ⟨some _, if_pos free, fun label isLabel => ?_⟩
      obtain rfl := Option.some.inj isLabel
      exact ⟨_, parsed⟩
    · exact ⟨found, (if_neg free).trans searched, valid⟩

theorem generateMoveAccountLabel_isOk (valid : currentLabel.Valid accountLabelMaxLength) :
    ∃ label, generateMoveAccountLabel lower currentLabel sourceWalletLabel existingLabelKeys =
        .ok label ∧
      label.Valid accountLabelMaxLength ∧
      (currentLabel.key lower ∉ existingLabelKeys → label = currentLabel) := by
  unfold generateMoveAccountLabel
  by_cases own : currentLabel.key lower ∉ existingLabelKeys
  · exact ⟨currentLabel, if_pos own, valid, fun _ => rfl⟩
  have parsed := @parseWithLimit_moveAccountLabelBase currentLabel sourceWalletLabel valid
  have within (number : ℕ) (among : number ∈ List.range' 2 999) :
      number ∈ List.range' 2 1000 := by
    rw [List.mem_range'_1] at among ⊢
    omega
  obtain ⟨found, searched, validFound⟩ := @firstFreeNumbered_isOk lower existingLabelKeys
    (moveAccountLabelBase currentLabel sourceWalletLabel) (List.range' 2 999) within
  have last : 1001 ∈ List.range' 2 1000 := by
    rw [List.mem_range'_1]
    omega
  have parsedLast := parseWithLimit_numberedLabel
    (moveAccountLabelBase currentLabel sourceWalletLabel) last
  rw [if_neg own]
  simp only [parsed]
  by_cases baseFree : Label.key lower
      ⟨normalizeLabelDisplay (moveAccountLabelBase currentLabel sourceWalletLabel)⟩ ∉
        existingLabelKeys
  · refine ⟨_, ?_, ⟨_, parsed⟩, fun free => absurd free own⟩
    simp only [bind, Except.bind]
    rw [if_pos baseFree]
    rfl
  · cases found with
    | some label =>
      refine ⟨label, ?_, validFound label rfl, fun free => absurd free own⟩
      simp only [bind, Except.bind]
      rw [if_neg baseFree]
      simp only [searched]
      rfl
    | none =>
      refine ⟨_, ?_, ⟨_, parsedLast⟩, fun free => absurd free own⟩
      simp only [bind, Except.bind]
      rw [if_neg baseFree]
      simp only [searched, parsedLast]

/-- Both de-duplications give what they promise exactly when a label that they try is free. -/
theorem labels_deduplicated_iff (lower : String → String) :
    (∀ (preferred : Label) (existingKeys : Finset String) (maxLen : ℕ), 7 ≤ maxLen →
      preferred.Valid maxLen →
      (Deduplicated lower preferred maxLen (· ∉ existingKeys)
          (uniqueLabelWithNumericSuffix lower preferred existingKeys maxLen) ↔
        SomeSuffixFree lower preferred existingKeys maxLen)) ∧
    (∀ (currentLabel sourceWalletLabel : Label) (existingLabelKeys : List String),
      currentLabel.Valid accountLabelMaxLength →
      (Deduplicated lower currentLabel accountLabelMaxLength (· ∉ existingLabelKeys)
          (generateMoveAccountLabel lower currentLabel sourceWalletLabel existingLabelKeys) ↔
        SomeLabelFree lower currentLabel sourceWalletLabel existingLabelKeys)) := by
  refine ⟨fun preferred existingKeys maxLen room valid => ?_,
    fun currentLabel sourceWalletLabel existingLabelKeys valid => ?_⟩
  · obtain ⟨label, made, isValid, own, fresh⟩ :=
      @uniqueLabelWithNumericSuffix_spec lower preferred existingKeys maxLen room valid
    constructor
    · rintro ⟨other, madeOther, _, free, _⟩
      obtain rfl := Except.ok.inj (made.symm.trans madeOther)
      exact fresh.mp free
    · intro someFree
      exact ⟨label, made, isValid, fresh.mpr someFree, own⟩
  · obtain ⟨label, made, isValid, own⟩ :=
      @generateMoveAccountLabel_isOk lower currentLabel sourceWalletLabel existingLabelKeys valid
    have fresh := key_generateMoveAccountLabel_notMem made
    constructor
    · rintro ⟨other, madeOther, _, free, _⟩
      obtain rfl := Except.ok.inj (made.symm.trans madeOther)
      exact fresh.mp free
    · intro someFree
      exact ⟨label, made, isValid, fresh.mpr someFree, own⟩

/-! ## Labels that are all taken -/

/-- A wallet's or account's label. -/
def labelA : Label := ⟨"a"⟩

theorem labelA_valid : labelA.Valid 255 := ⟨"a", by decide +kernel⟩

theorem labels_deduplicated_iff_labelA :
    (Deduplicated String.toLower labelA 255 (· ∉ ({"a"} : Finset String))
        (uniqueLabelWithNumericSuffix String.toLower labelA {"a"} 255) ↔
      SomeSuffixFree String.toLower labelA {"a"} 255) ∧
    (Deduplicated String.toLower labelA accountLabelMaxLength (· ∉ ["a"])
        (generateMoveAccountLabel String.toLower labelA labelA ["a"]) ↔
      SomeLabelFree String.toLower labelA labelA ["a"]) :=
  ⟨(labels_deduplicated_iff String.toLower).1 labelA {"a"} 255 (by decide) labelA_valid,
    (labels_deduplicated_iff String.toLower).2 labelA labelA ["a"] labelA_valid⟩

/-- The keys of the label and of its numbered forms up to 1001. -/
def takenKeys : List String :=
  labelA.key String.toLower :: (List.range' 2 1000).map fun suffix =>
    Label.key String.toLower ⟨normalizeLabelDisplay (suffixedLabel 255 labelA.text suffix)⟩

/-- The keys that a move of the label out of a wallet of that name tries. -/
def takenMoveKeys : List String :=
  labelA.key String.toLower :: (moveAccountLabelTexts labelA labelA).map fun text =>
    Label.key String.toLower ⟨normalizeLabelDisplay text⟩

/-- With every candidate taken the last one is returned nevertheless. -/
theorem labels_not_deduplicated :
    ¬Deduplicated String.toLower labelA 255 (· ∉ takenKeys.toFinset)
        (uniqueLabelWithNumericSuffix String.toLower labelA takenKeys.toFinset 255) ∧
      ¬Deduplicated String.toLower labelA accountLabelMaxLength (· ∉ takenMoveKeys)
        (generateMoveAccountLabel String.toLower labelA labelA takenMoveKeys) := by
  refine ⟨?_, ?_⟩
  · rintro ⟨label, made, _, free, _⟩
    obtain ⟨other, madeOther, _, _, fresh⟩ := @uniqueLabelWithNumericSuffix_spec String.toLower
      labelA takenKeys.toFinset 255 (by decide) labelA_valid
    obtain rfl := Except.ok.inj (made.symm.trans madeOther)
    obtain own | ⟨suffix, among, candidate, parsed, candidateFree⟩ := fresh.mp free
    · exact own (List.mem_toFinset.mpr List.mem_cons_self)
    · rw [parseWithLimit_suffixedLabel labelA.text (by decide) among] at parsed
      obtain rfl := Except.ok.inj parsed
      exact candidateFree (List.mem_toFinset.mpr (List.mem_cons_of_mem _
        (List.mem_map.mpr ⟨suffix, among, rfl⟩)))
  · rintro ⟨label, made, _, free, _⟩
    obtain own | ⟨text, among, candidate, parsed, candidateFree⟩ :=
      (key_generateMoveAccountLabel_notMem made).mp free
    · exact own List.mem_cons_self
    · have normal : candidate = ⟨normalizeLabelDisplay text⟩ := by
        unfold Label.parseWithLimit at parsed
        simp only at parsed
        split at parsed
        · cases parsed
        · split at parsed
          · cases parsed
          · exact (Except.ok.inj parsed).symm
      subst normal
      exact candidateFree (List.mem_cons_of_mem _ (List.mem_map.mpr ⟨text, among, rfl⟩))

end Bitgarth.Accounts

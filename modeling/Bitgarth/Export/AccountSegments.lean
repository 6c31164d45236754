import Bitgarth.Foundation.FreshNames
import Bitgarth.Foundation.SplitText
import Mathlib.Algebra.GroupWithZero.Nat

/-! # Account names of an export

Labels are cut down to the characters of an account name and to a maximal length. Accounts
whose names coincide after that get a suffix of their identifier, and a number after it where
the suffixed name is taken too.
-/

namespace Bitgarth.Export

def hledgerSegmentMaxLength : ℕ := 255
def hledgerSegmentEmptyFallback : String := "unnamed"
def hledgerCollisionDelimiter : String := "__"
def accountIdSuffixLength : ℕ := 8

/-- A ULID. -/
structure WalletAccountId where
  value : ℕ
  fits : value < 2 ^ 128
deriving DecidableEq, Repr

/-- The digits of Crockford's base 32. -/
def crockfordDigits : List Char := "0123456789ABCDEFGHJKMNPQRSTVWXYZ".toList

/-- `Ulid::to_string`: 26 digits, the highest first. -/
def WalletAccountId.toText (accountId : WalletAccountId) : String :=
  String.ofList ((List.range 26).map fun place =>
    crockfordDigits.getD (accountId.value / 32 ^ (25 - place) % 32) '0')

/-- `str::len`, in bytes of UTF-8. -/
def byteLength (text : String) : ℕ :=
  (text.toList.map Char.utf8Size).sum

/-- The characters before a byte position; `none` where it is inside a character. -/
def charsBefore : ℕ → List Char → Option (List Char)
  | 0, _ => some []
  | _ + 1, [] => some []
  | position + 1, first :: rest =>
    if first.utf8Size ≤ position + 1 then
      (charsBefore (position + 1 - first.utf8Size) rest).map (first :: ·)
    else none

/-- `String::truncate`, which panics inside a character. -/
def truncate (text : String) (position : ℕ) : Option String :=
  (charsBefore position text.toList).map String.ofList

structure HledgerAccountSegments where
  accountId : WalletAccountId
  walletSegment : String
  accountSegment : String
deriving DecidableEq, Repr

def HledgerAccountSegments.compositeKey (segments : HledgerAccountSegments) : String :=
  segments.walletSegment ++ "/" ++ segments.accountSegment

/-- `_` and `-`. -/
def isMark (character : Char) : Bool :=
  character == '_' || character == '-'

/-- `trim_matches` of the marks. -/
def trimMarks (text : String) : String :=
  String.ofList (((text.toList.dropWhile isMark).reverse.dropWhile isMark).reverse)

/-- `normalize_label_for_hledger`. -/
def normalizeLabelForHledger (input : String) : Option String :=
  let filtered := String.ofList (input.toList.filter fun character =>
    character.isAlphanum || isMark character)
  let normalized := trimMarks filtered
  if normalized.isEmpty then
    some hledgerSegmentEmptyFallback
  else if hledgerSegmentMaxLength < byteLength normalized then do
    let truncated ← truncate normalized hledgerSegmentMaxLength
    let normalized := trimMarks truncated
    return if normalized.isEmpty then hledgerSegmentEmptyFallback else normalized
  else
    some normalized

def accountIdSuffix (accountId : WalletAccountId) : String :=
  let start := accountId.toText.toList.length - accountIdSuffixLength
  String.ofList (accountId.toText.toList.drop start)

def appendCollisionSuffix (base suffix : String) : Option String :=
  let decoratedSuffix := hledgerCollisionDelimiter ++ suffix
  if hledgerSegmentMaxLength ≤ byteLength decoratedSuffix then
    some (String.ofList (decoratedSuffix.toList.take hledgerSegmentMaxLength))
  else
    let availableBaseLength := hledgerSegmentMaxLength - byteLength decoratedSuffix
    let basePrefix :=
      if availableBaseLength < byteLength base then truncate base availableBaseLength
      else some base
    basePrefix.map (· ++ decoratedSuffix)

/-- The suffix of an attempt: from the second on it is numbered. -/
def attemptSuffix (suffix : String) (attempt : ℕ) : String :=
  if attempt = 1 then suffix else suffix ++ "_" ++ attempt.repr

/-- The segments an attempt would give an account. -/
def HledgerAccountSegments.attempt (segments : HledgerAccountSegments) (attempt : ℕ) :
    Option HledgerAccountSegments := do
  let suffix := attemptSuffix (accountIdSuffix segments.accountId) attempt
  let accountSegment ← appendCollisionSuffix segments.accountSegment suffix
  return { segments with accountSegment }

/-- One account of `resolve_segment_collisions`. The search for a free key is the source's
`loop`, with a bound on its rounds; the attempts are counted without the 32-bit limit. -/
def resolveCollision (originalKeys : List String) (fuel : ℕ) (usedKeys : List String)
    (segments : HledgerAccountSegments) : Option HledgerAccountSegments :=
  if 1 < originalKeys.count segments.compositeKey then
    FreshNames.firstFree segments.attempt HledgerAccountSegments.compositeKey
      (originalKeys ++ usedKeys) fuel 1
  else
    some segments

/-- `resolve_segment_collisions`. -/
def resolveSegmentCollisions (fuel : ℕ) (segments : List HledgerAccountSegments) :
    Option (List HledgerAccountSegments) :=
  FreshNames.chooseAll HledgerAccountSegments.compositeKey
    (resolveCollision (segments.map HledgerAccountSegments.compositeKey) fuel) [] segments

/-- An account with the labels the user gave it and its wallet. -/
structure LabelledAccount where
  accountId : WalletAccountId
  walletLabel : String
  accountLabel : String
deriving DecidableEq, Repr

/-- The segments `resolve_accounts` starts from. -/
def LabelledAccount.segments (account : LabelledAccount) : Option HledgerAccountSegments := do
  let walletSegment ← normalizeLabelForHledger account.walletLabel
  let accountSegment ← normalizeLabelForHledger account.accountLabel
  return { accountId := account.accountId, walletSegment, accountSegment }

section Bytes

/-- Every character is one byte. -/
def OneByte (text : List Char) : Prop :=
  ∀ character ∈ text, character.utf8Size = 1

variable {text more : List Char} {label base suffix : String}

theorem OneByte.append (plain : OneByte text) (plainMore : OneByte more) :
    OneByte (text ++ more) :=
  List.forall_mem_append.mpr ⟨plain, plainMore⟩

theorem byteLength_of_oneByte (plain : OneByte label.toList) :
    byteLength label = label.toList.length := by
  have ones : label.toList.map Char.utf8Size = label.toList.map fun _ => 1 :=
    List.map_congr_left plain
  rw [byteLength, ones, List.map_const', List.sum_replicate_nat, Nat.mul_one]

theorem charsBefore_of_oneByte (plain : OneByte text) (position : ℕ) :
    charsBefore position text = some (text.take position) := by
  induction text generalizing position with
  | nil => cases position <;> rfl
  | cons first rest ih =>
    obtain ⟨one, plain⟩ := List.forall_mem_cons.mp plain
    cases position with
    | zero => rfl
    | succ position =>
      rw [charsBefore, one, if_pos (Nat.le_add_left 1 position), Nat.add_sub_cancel,
        ih plain]
      rfl

theorem truncate_of_oneByte (plain : OneByte label.toList) (position : ℕ) :
    truncate label position = some (String.ofList (label.toList.take position)) := by
  rw [truncate, charsBefore_of_oneByte plain]
  rfl

theorem OneByte.take (plain : OneByte text) (count : ℕ) : OneByte (text.take count) :=
  fun character member => plain character (List.mem_of_mem_take member)

theorem toList_trimMarks_subset : (trimMarks label).toList ⊆ label.toList := by
  intro character member
  rw [trimMarks, String.toList_ofList, List.mem_reverse] at member
  have member := (List.dropWhile_sublist _).subset member
  exact (List.dropWhile_sublist _).subset (List.mem_reverse.mp member)

theorem length_trimMarks_le : (trimMarks label).toList.length ≤ label.toList.length := by
  rw [trimMarks, String.toList_ofList, List.length_reverse]
  refine (List.dropWhile_sublist _).length_le.trans ?_
  rw [List.length_reverse]
  exact (List.dropWhile_sublist _).length_le

theorem utf8Size_eq_one {character : Char}
    (allowed : (character.isAlphanum || isMark character) = true) : character.utf8Size = 1 := by
  delta Char.isAlphanum Char.isAlpha Char.isUpper Char.isLower Char.isDigit at allowed
  simp only [isMark, Bool.or_eq_true, Bool.and_eq_true, decide_eq_true_eq, beq_iff_eq] at allowed
  have ascii : character.val ≤ 127 := by
    rw [UInt32.le_iff_toNat_le]
    rcases allowed with ((upper | lower) | digit) | rfl | rfl
    · exact (UInt32.le_iff_toNat_le.mp upper.2).trans (by decide)
    · exact (UInt32.le_iff_toNat_le.mp lower.2).trans (by decide)
    · exact (UInt32.le_iff_toNat_le.mp digit.2).trans (by decide)
    · decide
    · decide
  exact if_pos ascii

theorem OneByte.trimMarks (plain : OneByte label.toList) : OneByte (trimMarks label).toList :=
  fun character member => plain character (toList_trimMarks_subset member)

theorem oneByte_of_all (all : text.all (·.utf8Size == 1) = true) : OneByte text :=
  fun character member => beq_iff_eq.mp (List.all_eq_true.mp all character member)

theorem oneByte_fallback : OneByte hledgerSegmentEmptyFallback.toList :=
  oneByte_of_all (by decide)

theorem exists_normalizeLabelForHledger (input : String) :
    ∃ label, normalizeLabelForHledger input = some label ∧ OneByte label.toList ∧
      label.toList.length ≤ hledgerSegmentMaxLength := by
  unfold normalizeLabelForHledger
  generalize isFiltered : String.ofList (input.toList.filter fun character =>
    character.isAlphanum || isMark character) = filtered
  have plain : OneByte filtered.toList := by
    intro character member
    rw [← isFiltered, String.toList_ofList] at member
    exact utf8Size_eq_one (List.mem_filter.mp member).2
  have trimmed := plain.trimMarks
  have short : hledgerSegmentEmptyFallback.toList.length ≤ hledgerSegmentMaxLength := by decide
  dsimp only
  split
  · exact ⟨_, rfl, oneByte_fallback, short⟩
  · split
    · have cut : OneByte ((Export.trimMarks filtered).toList.take hledgerSegmentMaxLength) :=
        trimmed.take _
      rw [truncate_of_oneByte trimmed, Option.bind_eq_bind, Option.bind_some]
      refine ⟨_, rfl, ?_⟩
      split
      · exact ⟨oneByte_fallback, short⟩
      · refine ⟨OneByte.trimMarks (by rwa [String.toList_ofList]), ?_⟩
        refine length_trimMarks_le.trans ?_
        rw [String.toList_ofList]
        exact List.length_take_le _ _
    · next fits =>
        rw [byteLength_of_oneByte trimmed, not_lt] at fits
        exact ⟨_, rfl, trimmed, fits⟩

end Bytes

section Suffix

variable {segments : HledgerAccountSegments} {accountId : WalletAccountId} {attempt : ℕ}
  {base suffix : String}

theorem mem_crockfordDigits (digit : ℕ) : crockfordDigits.getD digit '0' ∈ crockfordDigits := by
  rw [List.getD_eq_getElem?_getD]
  cases found : crockfordDigits[digit]? with
  | none => decide
  | some character => exact List.mem_of_getElem? found

theorem crockfordDigits_plain :
    ∀ character ∈ crockfordDigits, character.utf8Size = 1 ∧ character ≠ '_' := by
  have all : crockfordDigits.all (fun character =>
      character.utf8Size == 1 && character != '_') = true := by decide
  intro character member
  simpa using List.all_eq_true.mp all character member

theorem mem_crockfordDigits_of_mem_toText {character : Char}
    (member : character ∈ accountId.toText.toList) : character ∈ crockfordDigits := by
  rw [WalletAccountId.toText, String.toList_ofList] at member
  obtain ⟨place, _, rfl⟩ := List.mem_map.mp member
  exact mem_crockfordDigits _

theorem accountIdSuffix_spec (accountId : WalletAccountId) :
    (accountIdSuffix accountId).toList.length = accountIdSuffixLength ∧
      OneByte (accountIdSuffix accountId).toList ∧ '_' ∉ (accountIdSuffix accountId).toList := by
  have isDigit : ∀ character ∈ (accountIdSuffix accountId).toList, character ∈ crockfordDigits := by
    intro character member
    rw [accountIdSuffix, String.toList_ofList] at member
    exact mem_crockfordDigits_of_mem_toText (List.mem_of_mem_drop member)
  refine ⟨?_, ?_, ?_⟩
  · rw [accountIdSuffix, String.toList_ofList, List.length_drop, WalletAccountId.toText,
      String.toList_ofList, List.length_map, List.length_range]
    rfl
  · exact fun character member => (crockfordDigits_plain _ (isDigit _ member)).1
  · exact fun member => (crockfordDigits_plain _ (isDigit _ member)).2 rfl

theorem appendCollisionSuffix_of_oneByte (plain : OneByte base.toList)
    (plainSuffix : OneByte suffix.toList) (short : suffix.toList.length < 253) :
    ∃ kept label, appendCollisionSuffix base suffix = some label ∧
      label.toList = kept ++ '_' :: '_' :: suffix.toList ∧ OneByte label.toList ∧
      label.toList.length ≤ hledgerSegmentMaxLength := by
  have decorated : (hledgerCollisionDelimiter ++ suffix).toList = '_' :: '_' :: suffix.toList := by
    rw [String.toList_append]
    rfl
  have plainDecorated : OneByte (hledgerCollisionDelimiter ++ suffix).toList := by
    rw [decorated]
    exact List.forall_mem_cons.mpr ⟨rfl, List.forall_mem_cons.mpr ⟨rfl, plainSuffix⟩⟩
  have length : byteLength (hledgerCollisionDelimiter ++ suffix) = suffix.toList.length + 2 := by
    rw [byteLength_of_oneByte plainDecorated, decorated]
    rfl
  have room : ¬hledgerSegmentMaxLength ≤ suffix.toList.length + 2 := by
    unfold hledgerSegmentMaxLength
    omega
  let available := hledgerSegmentMaxLength - (suffix.toList.length + 2)
  have kept : (if available < byteLength base then truncate base available else some base) =
      some (String.ofList (base.toList.take available)) := by
    rw [byteLength_of_oneByte plain, truncate_of_oneByte plain]
    split
    · rfl
    · next fits =>
        rw [List.take_of_length_le (not_lt.mp fits), String.ofList_toList]
  have bound := List.length_take_le available base.toList
  refine ⟨base.toList.take available,
    String.ofList (base.toList.take available) ++ (hledgerCollisionDelimiter ++ suffix),
    ?_, ?_, ?_, ?_⟩
  · rw [appendCollisionSuffix, length, if_neg room]
    exact congrArg (Option.map (· ++ (hledgerCollisionDelimiter ++ suffix))) kept
  · rw [String.toList_append, String.toList_ofList, decorated]
  · rw [String.toList_append, String.toList_ofList]
    exact (plain.take available).append plainDecorated
  · rw [String.toList_append, String.toList_ofList, decorated, List.length_append]
    simp only [List.length_cons]
    omega

theorem toList_attemptSuffix (suffix : String) (attempt : ℕ) :
    (attemptSuffix suffix attempt).toList =
      if attempt = 1 then suffix.toList
      else suffix.toList ++ '_' :: Nat.toDigits 10 attempt := by
  unfold attemptSuffix
  split
  · rfl
  · rw [String.toList_append, String.toList_append, Nat.toList_repr, List.append_assoc]
    rfl

theorem oneByte_toDigits (number : ℕ) : OneByte (Nat.toDigits 10 number) := by
  intro character member
  have isDigit := Nat.isDigit_of_mem_toDigits (by decide) (by decide) member
  exact utf8Size_eq_one (by simp [Char.isAlphanum, isDigit])

theorem attemptSuffix_spec (accountId : WalletAccountId) (moderate : attempt < 10 ^ 40) :
    OneByte (attemptSuffix (accountIdSuffix accountId) attempt).toList ∧
      (attemptSuffix (accountIdSuffix accountId) attempt).toList.length < 253 := by
  obtain ⟨length, plain, _⟩ := accountIdSuffix_spec accountId
  have digits := (Nat.length_toDigits_le_iff (by decide) (by decide)).mpr moderate
  unfold accountIdSuffixLength at length
  rw [toList_attemptSuffix]
  split
  · exact ⟨plain, by omega⟩
  · refine ⟨plain.append (List.forall_mem_cons.mpr ⟨rfl, oneByte_toDigits attempt⟩), ?_⟩
    rw [List.length_append, List.length_cons]
    omega

theorem exists_attempt (plain : OneByte segments.accountSegment.toList)
    (moderate : attempt < 10 ^ 40) :
    ∃ kept label, segments.attempt attempt =
        some { segments with accountSegment := label } ∧
      label.toList = kept ++ '_' :: '_' ::
        (attemptSuffix (accountIdSuffix segments.accountId) attempt).toList ∧
      OneByte label.toList ∧ label.toList.length ≤ hledgerSegmentMaxLength := by
  obtain ⟨plainSuffix, short⟩ := attemptSuffix_spec segments.accountId moderate
  obtain ⟨kept, label, appended, shape⟩ :=
    appendCollisionSuffix_of_oneByte plain plainSuffix short
  refine ⟨kept, label, ?_, shape⟩
  rw [HledgerAccountSegments.attempt, appended]
  rfl

theorem append_mark_ne {kept kept' suffix : List Char} (some : suffix ≠ [])
    (plain : '_' ∉ suffix) : kept ++ ['_'] ≠ kept' ++ '_' :: '_' :: suffix := by
  intro same
  have ends := congrArg List.getLast? same
  rw [List.getLast?_concat, List.append_cons, List.append_cons,
    List.getLast?_append_of_ne_nil _ some] at ends
  exact plain (List.mem_of_getLast? ends.symm)

theorem attemptSuffix_inj {kept kept' : List Char} {attempt' : ℕ}
    (same : kept ++ '_' :: '_' :: (attemptSuffix (accountIdSuffix accountId) attempt).toList =
      kept' ++ '_' :: '_' :: (attemptSuffix (accountIdSuffix accountId) attempt').toList) :
    attempt = attempt' := by
  obtain ⟨length, _, plain⟩ := accountIdSuffix_spec accountId
  have some : (accountIdSuffix accountId).toList ≠ [] :=
    List.ne_nil_of_length_pos (by rw [length]; decide)
  have pieces (kept : List Char) (attempt : ℕ) :
      kept ++ '_' :: '_' :: (attemptSuffix (accountIdSuffix accountId) attempt).toList =
        (if attempt = 1 then kept ++ ['_']
          else kept ++ '_' :: '_' :: (accountIdSuffix accountId).toList) ++
        '_' :: if attempt = 1 then (accountIdSuffix accountId).toList
          else Nat.toDigits 10 attempt := by
    rw [toList_attemptSuffix]
    split <;> simp
  have noMark (attempt : ℕ) : '_' ∉ if attempt = 1 then (accountIdSuffix accountId).toList
      else Nat.toDigits 10 attempt := by
    split
    · exact plain
    · exact Nat.underscore_not_in_toDigits
  rw [pieces kept, pieces kept'] at same
  obtain ⟨heads, tails⟩ := SplitText.append_cons_inj (noMark attempt) (noMark attempt') same
  by_cases first : attempt = 1 <;> by_cases first' : attempt' = 1
  · rw [first, first']
  · rw [if_pos first, if_neg first'] at heads
    exact absurd heads (append_mark_ne some plain)
  · rw [if_neg first, if_pos first'] at heads
    exact absurd heads.symm (append_mark_ne some plain)
  · rw [if_neg first, if_neg first'] at tails
    have numbers := congrArg (Nat.ofDigitChars 10 · 0) tails
    simpa only [Nat.ofDigitChars_ten_toDigits] using numbers

end Suffix

section Resolution

variable {segments first : HledgerAccountSegments} {originalKeys usedKeys : List String}
  {fuel count : ℕ}

/-- A segment as `normalize_label_for_hledger` leaves it. -/
def Normalized (label : String) : Prop :=
  OneByte label.toList ∧ label.toList.length ≤ hledgerSegmentMaxLength

theorem keptOrFresh_resolveCollision
    (resolved : resolveCollision originalKeys fuel usedKeys segments = some first) :
    FreshNames.KeptOrFresh HledgerAccountSegments.compositeKey originalKeys usedKeys segments
      first := by
  unfold resolveCollision at resolved
  split at resolved
  · obtain ⟨free, _⟩ := FreshNames.firstFree_spec resolved
    rw [List.mem_append, not_or] at free
    exact .inr free
  · next unique =>
      cases resolved
      exact .inl ⟨not_lt.mp unique, rfl⟩

theorem resolveCollision_mono {more : ℕ} (atLeast : fuel ≤ more)
    (resolved : resolveCollision originalKeys fuel usedKeys segments = some first) :
    resolveCollision originalKeys more usedKeys segments = some first := by
  unfold resolveCollision at resolved ⊢
  split
  · next clashes =>
      rw [if_pos clashes] at resolved
      exact FreshNames.firstFree_mono resolved atLeast
  · next unique => rwa [if_neg unique] at resolved

theorem exists_resolveCollision (plain : OneByte segments.accountSegment.toList)
    (few : originalKeys.length + usedKeys.length < fuel) (moderate : fuel < 10 ^ 40) :
    ∃ first, resolveCollision originalKeys fuel usedKeys segments = some first := by
  unfold resolveCollision
  split
  · refine @FreshNames.exists_firstFree _ _ _ _ _ _ _ _
      (fun tried => (segments.attempt tried).getD segments) ?_ ?_ ?_
    · intro tried _ before
      obtain ⟨_, label, given, _⟩ := @exists_attempt segments tried plain (by omega)
      rw [given, Option.getD_some]
    · intro tried within tried' within' same
      obtain ⟨kept, label, given, shape, _⟩ :=
        @exists_attempt segments tried plain (by have := within.2; omega)
      obtain ⟨kept', label', given', shape', _⟩ :=
        @exists_attempt segments tried' plain (by have := within'.2; omega)
      simp only [given, given', Option.getD_some, HledgerAccountSegments.compositeKey] at same
      have labels : label.toList = label'.toList := by
        have texts := congrArg String.toList same
        simp only [String.toList_append] at texts
        exact List.append_cancel_left texts
      rw [shape, shape'] at labels
      exact attemptSuffix_inj labels
    · rwa [List.length_append]
  · exact ⟨segments, rfl⟩

/-- What becomes of an account's segments. -/
structure Resolved (originalKeys : List String) (segments result : HledgerAccountSegments) :
    Prop where
  accountId : result.accountId = segments.accountId
  walletSegment : result.walletSegment = segments.walletSegment
  length : byteLength result.accountSegment ≤ hledgerSegmentMaxLength
  unchanged : originalKeys.count segments.compositeKey = 1 → result = segments

theorem resolved_resolveCollision (normalized : Normalized segments.accountSegment)
    (moderate : fuel < 10 ^ 40)
    (resolved : resolveCollision originalKeys fuel usedKeys segments = some first) :
    Resolved originalKeys segments first := by
  unfold resolveCollision at resolved
  split at resolved
  · next clashes =>
      obtain ⟨_, tried, _, before, given⟩ := FreshNames.firstFree_spec resolved
      obtain ⟨_, label, isLabel, _, plain, bound⟩ :=
        @exists_attempt segments tried normalized.1 (by omega)
      obtain rfl := Option.some.inj (isLabel.symm.trans given)
      refine ⟨rfl, rfl, ?_, fun unique => ?_⟩
      · rwa [byteLength_of_oneByte plain]
      · omega
  · cases resolved
    refine ⟨rfl, rfl, ?_, fun _ => rfl⟩
    rw [byteLength_of_oneByte normalized.1]
    exact normalized.2

theorem length_le_of_nodup {accountIds : List WalletAccountId} (distinct : accountIds.Nodup) :
    accountIds.length ≤ 2 ^ 128 := by
  have injective : Function.Injective WalletAccountId.value := by
    rintro ⟨value, _⟩ ⟨value', _⟩ same
    cases (same : value = value')
    rfl
  have within : (accountIds.map WalletAccountId.value).toFinset ⊆ Finset.range (2 ^ 128) := by
    intro value member
    obtain ⟨accountId, _, rfl⟩ := List.mem_map.mp (List.mem_toFinset.mp member)
    exact Finset.mem_range.mpr accountId.fits
  have counted := Finset.card_le_card within
  rwa [List.toFinset_card_of_nodup (distinct.map injective), Finset.card_range,
    List.length_map] at counted

theorem exists_resolveSegmentCollisions {segments : List HledgerAccountSegments}
    (normalized : ∀ account ∈ segments, Normalized account.accountSegment)
    (distinct : (segments.map HledgerAccountSegments.accountId).Nodup) :
    ∃ resolved,
      (∀ fuel, 2 * segments.length ≤ fuel →
        resolveSegmentCollisions fuel segments = some resolved) ∧
      List.Forall₂ (Resolved (segments.map HledgerAccountSegments.compositeKey)) segments
        resolved ∧
      (resolved.map HledgerAccountSegments.compositeKey).Nodup := by
  have many := length_le_of_nodup distinct
  rw [List.length_map] at many
  have moderate : 2 * segments.length < 10 ^ 40 := by omega
  obtain ⟨resolved, done⟩ : ∃ resolved,
      resolveSegmentCollisions (2 * segments.length) segments = some resolved := by
    refine @FreshNames.exists_chooseAll _ _ _ _ _ _ segments.length ?_ ?_
    · intro used account member few
      refine exists_resolveCollision (normalized account member).1 ?_ moderate
      rw [List.length_map]
      omega
    · rw [List.length_nil, Nat.zero_add]
  refine ⟨resolved, ?_, ?_, ?_⟩
  · intro fuel enough
    exact FreshNames.chooseAll_mono (fun _ _ _ => resolveCollision_mono enough) done
  · refine FreshNames.forall₂_of_chooseAll ?_ done
    intro used account first member chosen
    exact resolved_resolveCollision (normalized account member) moderate chosen
  · refine (@FreshNames.chooseAll_nodup _ _ _ _ _ _ _ _ _ []
      (fun _ _ _ => keptOrFresh_resolveCollision) rfl ?_ done).1
    exact fun key member => absurd member List.not_mem_nil

theorem map_accountId_of_resolved {segments resolved : List HledgerAccountSegments}
    (each : List.Forall₂ (Resolved originalKeys) segments resolved) :
    resolved.map HledgerAccountSegments.accountId =
      segments.map HledgerAccountSegments.accountId := by
  induction each with
  | nil => rfl
  | cons here _ ih => rw [List.map_cons, List.map_cons, here.accountId, ih]

theorem exists_segments (accounts : List LabelledAccount) :
    ∃ segments, accounts.mapM LabelledAccount.segments = some segments ∧
      segments.map HledgerAccountSegments.accountId =
        accounts.map LabelledAccount.accountId ∧
      ∀ account ∈ segments, Normalized account.accountSegment := by
  induction accounts with
  | nil => exact ⟨[], rfl, rfl, fun account member => absurd member List.not_mem_nil⟩
  | cons account rest ih =>
    obtain ⟨segments, done, ids, normalized⟩ := ih
    obtain ⟨walletSegment, wallet, _⟩ := exists_normalizeLabelForHledger account.walletLabel
    obtain ⟨accountSegment, own, isNormalized⟩ :=
      exists_normalizeLabelForHledger account.accountLabel
    have here : account.segments =
        some { accountId := account.accountId, walletSegment, accountSegment } := by
      rw [LabelledAccount.segments, wallet, own]
      rfl
    refine ⟨⟨account.accountId, walletSegment, accountSegment⟩ :: segments, ?_, ?_, ?_⟩
    · rw [List.mapM_cons, here, done]
      rfl
    · rw [List.map_cons, List.map_cons, ids]
    · exact List.forall_mem_cons.mpr ⟨isNormalized, normalized⟩

/-- **Every list of accounts gets usable names**, whatever the labels are. With `n` accounts
no search takes more than `2 * n` attempts; the accounts come back in order under their
wallet's name, no two with one name, and an account whose name was its own keeps it. -/
theorem resolveSegmentCollisions_spec {accounts : List LabelledAccount}
    (distinct : (accounts.map LabelledAccount.accountId).Nodup) :
    ∃ segments resolved, accounts.mapM LabelledAccount.segments = some segments ∧
      (∀ fuel, 2 * accounts.length ≤ fuel →
        resolveSegmentCollisions fuel segments = some resolved) ∧
      resolved.map HledgerAccountSegments.accountId =
        accounts.map LabelledAccount.accountId ∧
      List.Forall₂ (Resolved (segments.map HledgerAccountSegments.compositeKey)) segments
        resolved ∧
      (resolved.map HledgerAccountSegments.compositeKey).Nodup := by
  obtain ⟨segments, done, ids, normalized⟩ := exists_segments accounts
  obtain ⟨resolved, resolves, each, nodup⟩ :=
    exists_resolveSegmentCollisions normalized (ids ▸ distinct)
  have length : segments.length = accounts.length := by
    have lengths := congrArg List.length ids
    rwa [List.length_map, List.length_map] at lengths
  refine ⟨segments, resolved, done, length ▸ resolves, ?_, each, nodup⟩
  rw [← ids, map_accountId_of_resolved each]

/-- Two accounts of one name beside one that has the first suffixed name. -/
theorem resolveSegmentCollisions_spec_suffixed :
    ∃ segments resolved,
      [(⟨⟨1, by decide⟩, "Wallet", "Account"⟩ : LabelledAccount),
        ⟨⟨2, by decide⟩, "Wallet", "Account"⟩,
        ⟨⟨3, by decide⟩, "Wallet", "Account__00000001"⟩].mapM LabelledAccount.segments =
        some segments ∧
      (∀ fuel, 6 ≤ fuel → resolveSegmentCollisions fuel segments = some resolved) ∧
      (resolved.map HledgerAccountSegments.compositeKey).Nodup := by
  obtain ⟨segments, resolved, done, resolves, _, _, nodup⟩ :=
    @resolveSegmentCollisions_spec [⟨⟨1, by decide⟩, "Wallet", "Account"⟩,
      ⟨⟨2, by decide⟩, "Wallet", "Account"⟩,
      ⟨⟨3, by decide⟩, "Wallet", "Account__00000001"⟩] (by decide)
  exact ⟨segments, resolved, done, resolves, nodup⟩

end Resolution

end Bitgarth.Export

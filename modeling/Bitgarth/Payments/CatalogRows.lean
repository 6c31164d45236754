import Bitgarth.Foundation.Fallible
import Bitgarth.Foundation.FirstOccurrences
import Bitgarth.Payments.Catalog

/-! # What skipped rows of the catalog do

The options of a response are rows under their ids, void where the option or its tier does not
parse. Parsing keeps the first row of every id, so leaving out what does not parse changes nothing
exactly when no void row comes before the first other one of its id
(`skipped_rows_have_no_effect_iff`).
-/

namespace Bitgarth.Payments

open Fallible FirstOccurrences JsonValue Text

/-! ## Rows -/

/-- Whether an option parses by itself. -/
def optionParses (tier tierDisplayName : String) (value : Value) : Bool :=
  (parseProductOption value tier tierDisplayName []).1.isOk

/-- Whether a tier parses by itself. -/
def tierParses (value : Value) : Bool :=
  (parseProductTier value []).1.isOk

/-- An array without some of its values. -/
def keepValues (keep : Value → Bool) : Value → Value
  | .array values => .array (values.filter keep)
  | value => value

/-- A tier without the options that do not parse. -/
def withoutUnparseableOptions (value : Value) : Value :=
  match RawProductTier.fromValue value with
  | none => value
  | some raw =>
    value.modifyField 6 "purchase_options"
      (keepValues (optionParses (trim raw.tier) (trim raw.displayName)))

/-- The response without the tiers and options that do not parse. -/
def RawProductOptionsResponse.withoutUnparseable (response : RawProductOptionsResponse) :
    RawProductOptionsResponse :=
  { response with tiers := (response.tiers.filter tierParses).map withoutUnparseableOptions }

/-- The row of an option that has an id. -/
def optionRow (tier tierDisplayName : String) (value : Value) :
    Option (ProductOptionId × Option CentralProductOption) :=
  match value with
  | .object raw =>
    match parseOptionId raw with
    | .error _ => none
    | .ok id => some (id, (parseOptionFields raw id tier tierDisplayName).toOption)
  | _ => none

/-- A row that counts for nothing where its tier does not parse. -/
def voidUnless (parses : Bool) (row : ProductOptionId × Option CentralProductOption) :
    ProductOptionId × Option CentralProductOption :=
  (row.1, if parses then row.2 else none)

/-- The tier of a value, if it parses, and the rows of its options. -/
def tierRows (value : Value) :
    Option CentralProductTier × List (ProductOptionId × Option CentralProductOption) :=
  match RawProductTier.fromValue value with
  | none => (none, [])
  | some raw =>
    let tier := trim raw.tier
    let displayName := trim raw.displayName
    if tier.isEmpty ∨ displayName.isEmpty then (none, [])
    else
      let parsed := (parseTierFields raw tier displayName).toOption
      (parsed, (raw.purchaseOptions.filterMap (optionRow tier displayName)).map
        (voidUnless parsed.isSome))

/-- The rows of a response, in its order. -/
def RawProductOptionsResponse.rows (response : RawProductOptionsResponse) :
    List (ProductOptionId × Option CentralProductOption) :=
  response.tiers.flatMap fun value => (tierRows value).2

section Options

variable {tier tierDisplayName : String} {seen : List ProductOptionId}

theorem parseOptionFields_eq_ok {raw : List (String × Value)} {id : ProductOptionId}
    {option : CentralProductOption}
    (parsed : parseOptionFields raw id tier tierDisplayName = .ok option) :
    option.id = id ∧ option.tier = tier := by
  unfold parseOptionFields at parsed
  obtain ⟨term, _, parsed⟩ := bind_eq_ok.mp parsed
  obtain ⟨termQuantity, _, parsed⟩ := bind_eq_ok.mp parsed
  obtain ⟨termUnit, _, parsed⟩ := bind_eq_ok.mp parsed
  obtain ⟨termLabel, _, parsed⟩ := bind_eq_ok.mp parsed
  obtain ⟨price, _, parsed⟩ := bind_eq_ok.mp parsed
  cases parsed
  exact ⟨rfl, rfl⟩

theorem parseProductOption_eq (value : Value) :
    (parseProductOption value tier tierDisplayName seen).1.toOption.toList =
        firsts seen (optionRow tier tierDisplayName value).toList ∧
      (parseProductOption value tier tierDisplayName seen).2 =
        seenAfter seen (optionRow tier tierDisplayName value).toList := by
  cases value with
  | object raw =>
    simp only [parseProductOption, optionRow]
    cases parseOptionId raw with
    | error error => exact ⟨rfl, rfl⟩
    | ok id =>
      simp only [Option.toList_some, firsts_cons, seenAfter, firsts_nil, List.append_nil]
      split <;> exact ⟨rfl, rfl⟩
  | _ => exact ⟨rfl, rfl⟩

theorem parseProductOptions_eq (values : List Value) :
    parseProductOptions tier tierDisplayName values seen =
      (firsts seen (values.filterMap (optionRow tier tierDisplayName)),
        seenAfter seen (values.filterMap (optionRow tier tierDisplayName))) := by
  induction values generalizing seen with
  | nil => rfl
  | cons value later ih =>
    obtain ⟨kept, known⟩ := @parseProductOption_eq tier tierDisplayName seen value
    have rows : (value :: later).filterMap (optionRow tier tierDisplayName) =
        (optionRow tier tierDisplayName value).toList ++
          later.filterMap (optionRow tier tierDisplayName) := by
      cases row : optionRow tier tierDisplayName value with
      | none => rw [List.filterMap_cons_none row]; rfl
      | some row' => rw [List.filterMap_cons_some row]; rfl
    rw [rows, firsts_append, seenAfter_append, ← kept, ← known]
    simp only [parseProductOptions, ih]

theorem optionParses_iff (value : Value) :
    optionParses tier tierDisplayName value =
      (optionRow tier tierDisplayName value).any fun row => row.2.isSome := by
  cases value with
  | object raw =>
    simp only [optionParses, parseProductOption, optionRow]
    cases parseOptionId raw with
    | error error => rfl
    | ok id =>
      simp only [List.not_mem_nil, if_false, Option.any_some]
      cases parseOptionFields raw id tier tierDisplayName <;> rfl
  | _ => rfl

theorem filterMap_filter_optionParses (values : List Value) :
    (values.filter (optionParses tier tierDisplayName)).filterMap
        (optionRow tier tierDisplayName) =
      solid (values.filterMap (optionRow tier tierDisplayName)) := by
  rw [solid, List.filterMap_filter, List.filter_filterMap]
  apply List.filterMap_congr
  intro value _
  rw [optionParses_iff]
  cases optionRow tier tierDisplayName value with
  | none => rfl
  | some row =>
    rw [Option.any_some, Option.filter_some]

end Options

section Tiers

variable {seen : List ProductOptionId}

theorem map_voidUnless_true (rows : List (ProductOptionId × Option CentralProductOption)) :
    rows.map (voidUnless true) = rows :=
  List.map_id rows

theorem solid_map_voidUnless (parses : Bool)
    (rows : List (ProductOptionId × Option CentralProductOption)) :
    solid (rows.map (voidUnless parses)) = if parses then solid rows else [] := by
  cases parses with
  | true =>
    rw [if_pos rfl]
    exact congrArg solid (map_voidUnless_true rows)
  | false =>
    rw [if_neg Bool.false_ne_true, solid, List.filter_eq_nil_iff]
    intro row member
    obtain ⟨_, _, rfl⟩ := List.mem_map.mp member
    exact Bool.false_ne_true

theorem seenAfter_map_voidUnless (parses : Bool)
    (rows : List (ProductOptionId × Option CentralProductOption)) :
    seenAfter seen (rows.map (voidUnless parses)) = seenAfter seen rows := by
  apply seenAfter_congr
  rw [List.map_map]
  rfl

theorem parseProductTier_eq (value : Value) :
    (parseProductTier value seen).1.toOption =
        (tierRows value).1.map (fun tier => (tier, firsts seen (tierRows value).2)) ∧
      (parseProductTier value seen).2 = seenAfter seen (tierRows value).2 := by
  unfold parseProductTier tierRows
  cases RawProductTier.fromValue value with
  | none => exact ⟨rfl, rfl⟩
  | some raw =>
    dsimp only
    by_cases noTier : (trim raw.tier).isEmpty
    · rw [if_pos noTier, if_pos (.inl noTier)]
      exact ⟨rfl, rfl⟩
    by_cases noName : (trim raw.displayName).isEmpty
    · rw [if_neg noTier, if_pos noName, if_pos (.inr noName)]
      exact ⟨rfl, rfl⟩
    rw [if_neg noTier, if_neg noName, if_neg (not_or.mpr ⟨noTier, noName⟩),
      parseProductOptions_eq, seenAfter_map_voidUnless]
    cases parseTierFields raw (trim raw.tier) (trim raw.displayName) with
    | error error => exact ⟨rfl, rfl⟩
    | ok tier =>
      refine ⟨?_, rfl⟩
      show some (tier, _) = some (tier, _)
      exact congrArg (fun rows => some (tier, firsts seen rows)) (map_voidUnless_true _).symm

theorem solid_tierRows_of_none {value : Value} (fails : (tierRows value).1 = none) :
    solid (tierRows value).2 = [] := by
  unfold tierRows at *
  cases isRaw : RawProductTier.fromValue value with
  | none => rfl
  | some raw =>
    rw [isRaw] at fails
    dsimp only at *
    by_cases missing : (trim raw.tier).isEmpty ∨ (trim raw.displayName).isEmpty
    · rw [if_pos missing]
      rfl
    · rw [if_neg missing] at *
      dsimp only at *
      rw [solid_map_voidUnless, fails]
      rfl

theorem parseProductTiers_eq (values : List Value) :
    parseProductTiers values seen =
      (values.filterMap fun value => (tierRows value).1,
        firsts seen (values.flatMap fun value => (tierRows value).2)) := by
  induction values generalizing seen with
  | nil => rfl
  | cons value later ih =>
    obtain ⟨kept, known⟩ := @parseProductTier_eq seen value
    rw [List.flatMap_cons, firsts_append, ← known]
    simp only [parseProductTiers, ih]
    cases parsed : (parseProductTier value seen).1 with
    | error error =>
      rw [parsed] at kept
      have fails : (tierRows value).1 = none := Option.map_eq_none_iff.mp kept.symm
      simp only [List.filterMap_cons, fails,
        firsts_of_solid_eq_nil (solid_tierRows_of_none fails), List.nil_append]
    | ok result =>
      rw [parsed] at kept
      obtain ⟨tier, isTier, isResult⟩ := Option.map_eq_some_iff.mp kept.symm
      simp only [List.filterMap_cons, isTier, ← isResult]

theorem tierParses_iff (value : Value) : tierParses value = (tierRows value).1.isSome := by
  obtain ⟨kept, _⟩ := @parseProductTier_eq [] value
  have same : (parseProductTier value []).1.toOption.isSome = (tierRows value).1.isSome := by
    rw [kept, Option.isSome_map]
  rw [← same, tierParses]
  cases (parseProductTier value []).1 <;> rfl

theorem parseTierFields_eq_ok {raw : RawProductTier} {tier displayName : String}
    {parsed : CentralProductTier} (isTier : parseTierFields raw tier displayName = .ok parsed) :
    parsed.tier = tier := by
  unfold parseTierFields at isTier
  obtain ⟨presentation, _, isTier⟩ := bind_eq_ok.mp isTier
  obtain ⟨policy, _, isTier⟩ := bind_eq_ok.mp isTier
  cases isTier
  rfl

theorem exists_of_mem_tierRows {value : Value} {id : ProductOptionId}
    {option : CentralProductOption} (member : (id, some option) ∈ (tierRows value).2) :
    ∃ raw tier name, (tierRows value).1 = some tier ∧
      parseOptionFields raw id tier.tier name = .ok option := by
  unfold tierRows at *
  cases isRaw : RawProductTier.fromValue value with
  | none =>
    rw [isRaw] at member
    exact absurd member List.not_mem_nil
  | some raw =>
    rw [isRaw] at member
    dsimp only at *
    by_cases missing : (trim raw.tier).isEmpty ∨ (trim raw.displayName).isEmpty
    · rw [if_pos missing] at member
      exact absurd member List.not_mem_nil
    · rw [if_neg missing] at *
      dsimp only at *
      obtain ⟨row, among, isRow⟩ := List.mem_map.mp member
      cases isTier : parseTierFields raw (trim raw.tier) (trim raw.displayName) with
      | error error =>
        rw [isTier] at isRow
        cases isRow
      | ok tier =>
        rw [isTier] at isRow
        obtain ⟨optionValue, _, ofOption⟩ := List.mem_filterMap.mp among
        have isRow : row = (id, some option) := isRow
        cases isRow
        cases optionValue with
        | object fields =>
          unfold optionRow at ofOption
          dsimp only at ofOption
          split at ofOption
          · cases ofOption
          · next parsedId isId =>
              obtain ⟨isKey, isOption⟩ := Prod.mk.inj (Option.some.inj ofOption)
              refine ⟨fields, tier, trim raw.displayName, rfl, ?_⟩
              rw [parseTierFields_eq_ok isTier, ← isKey]
              exact toOption_eq_some.mp isOption
        | _ => cases ofOption

theorem fromValue_modifyField (keep : Value → Bool) (value : Value) :
    RawProductTier.fromValue (value.modifyField 6 "purchase_options" (keepValues keep)) =
      (RawProductTier.fromValue value).map fun raw =>
        { raw with purchaseOptions := raw.purchaseOptions.filter keep } := by
  have asArray : ∀ options : Value,
      (keepValues keep options).asArray = options.asArray.map (List.filter keep) := by
    intro options
    cases options <;> rfl
  unfold RawProductTier.fromValue
  rw [fields_modifyField]
  cases value.fields 7 with
  | none => rfl
  | some fields =>
    have options : (fields.modify 6 "purchase_options" (keepValues keep)).required 6
        "purchase_options" Value.asArray =
        (fields.required 6 "purchase_options" Value.asArray).map (List.filter keep) := by
      rw [required_modify_self]
      simp only [Fields.required, asArray, Option.map_bind]
      rfl
    simp (disch := decide) only [Option.map_some, Option.bind_eq_bind, Option.bind_some, options,
      required_modify_of_ne, orDefault_modify_of_ne, optional_modify_of_ne, Option.map_bind,
      Option.bind_map, Function.comp_def, Option.pure_def]

theorem tierRows_withoutUnparseableOptions {value : Value} (parses : (tierRows value).1.isSome) :
    tierRows (withoutUnparseableOptions value) =
      ((tierRows value).1, solid (tierRows value).2) := by
  unfold withoutUnparseableOptions
  cases isRaw : RawProductTier.fromValue value with
  | none =>
    simp only [tierRows, isRaw]
    rfl
  | some raw =>
    simp only [tierRows, isRaw, fromValue_modifyField, Option.map_some] at parses ⊢
    split
    · rfl
    · next named =>
        rw [if_neg named] at parses
        dsimp only at parses
        have fields : ∀ options : List Value,
            parseTierFields { raw with purchaseOptions := options } (trim raw.tier)
                (trim raw.displayName) =
              parseTierFields raw (trim raw.tier) (trim raw.displayName) :=
          fun _ => rfl
        rw [filterMap_filter_optionParses]
        simp only [fields, parses, map_voidUnless_true]

end Tiers

section Responses

variable {response : RawProductOptionsResponse}

/-- The tiers of a response that parse. -/
def RawProductOptionsResponse.parsedTiers (response : RawProductOptionsResponse) :
    List CentralProductTier :=
  response.tiers.filterMap fun value => (tierRows value).1

theorem parsedTiers_withoutUnparseable (response : RawProductOptionsResponse) :
    response.withoutUnparseable.parsedTiers = response.parsedTiers := by
  simp only [RawProductOptionsResponse.parsedTiers, RawProductOptionsResponse.withoutUnparseable]
  induction response.tiers with
  | nil => rfl
  | cons value later ih =>
    cases isTier : (tierRows value).1 with
    | none =>
      have fails : ¬tierParses value = true := by
        rw [tierParses_iff, isTier]
        exact Bool.false_ne_true
      rw [List.filter_cons_of_neg fails, ih]
      simp only [List.filterMap_cons, isTier]
    | some tier =>
      have parses : (tierRows value).1.isSome = true := by rw [isTier]; rfl
      rw [List.filter_cons_of_pos (by rw [tierParses_iff, parses]), List.map_cons]
      simp only [List.filterMap_cons, tierRows_withoutUnparseableOptions parses, isTier, ih]

theorem rows_withoutUnparseable (response : RawProductOptionsResponse) :
    response.withoutUnparseable.rows = solid response.rows := by
  simp only [RawProductOptionsResponse.rows, RawProductOptionsResponse.withoutUnparseable]
  induction response.tiers with
  | nil => rfl
  | cons value later ih =>
    rw [List.flatMap_cons, solid_append]
    cases isTier : (tierRows value).1 with
    | none =>
      have fails : ¬tierParses value = true := by
        rw [tierParses_iff, isTier]
        exact Bool.false_ne_true
      rw [List.filter_cons_of_neg fails, ih, solid_tierRows_of_none isTier, List.nil_append]
    | some tier =>
      have parses : (tierRows value).1.isSome = true := by rw [isTier]; rfl
      rw [List.filter_cons_of_pos (by rw [tierParses_iff, parses]), List.map_cons,
        List.flatMap_cons, ih, tierRows_withoutUnparseableOptions parses]

theorem tryIntoProductOptions_eq_ok {result : CentralProductOptions}
    (succeeds : response.tryIntoProductOptions = .ok result) :
    minCatalogSchemaVersion ≤ response.catalogSchemaVersion ∧ response.parsedTiers ≠ [] ∧
      result.tiers = response.parsedTiers ∧ result.options = firsts [] response.rows := by
  unfold RawProductOptionsResponse.tryIntoProductOptions at succeeds
  split at succeeds
  · cases succeeds
  · next supported =>
      split at succeeds
      · cases succeeds
      · rw [parseProductTiers_eq] at succeeds
        dsimp only at succeeds
        split at succeeds
        · cases succeeds
        · next usable =>
            cases succeeds
            exact ⟨not_lt.mp supported, fun none => usable (List.isEmpty_iff.mpr none), rfl, rfl⟩

theorem exists_tryIntoProductOptions_eq_ok
    (supported : minCatalogSchemaVersion ≤ response.catalogSchemaVersion)
    (usable : response.parsedTiers ≠ []) :
    ∃ result, response.tryIntoProductOptions = .ok result ∧
      result.tiers = response.parsedTiers ∧ result.options = firsts [] response.rows := by
  have some : ¬response.tiers.isEmpty = true := by
    intro empty
    apply usable
    rw [RawProductOptionsResponse.parsedTiers, List.isEmpty_iff.mp empty]
    rfl
  have parsed : ¬(response.tiers.filterMap fun value => (tierRows value).1).isEmpty = true :=
    fun empty => usable (List.isEmpty_iff.mp empty)
  unfold RawProductOptionsResponse.tryIntoProductOptions
  rw [if_neg (not_lt.mpr supported), if_neg some, parseProductTiers_eq]
  dsimp only
  rw [if_neg parsed]
  exact ⟨_, rfl, rfl, rfl⟩

theorem option_of_mem_rows {id : ProductOptionId} {option : CentralProductOption}
    (member : (id, some option) ∈ response.rows) :
    option.id = id ∧ ∃ tier ∈ response.parsedTiers, option.tier = tier.tier := by
  obtain ⟨value, inResponse, inTier⟩ := List.mem_flatMap.mp member
  obtain ⟨raw, parsedTier, name, isTier, isOption⟩ := exists_of_mem_tierRows inTier
  obtain ⟨isId, ofTier⟩ := parseOptionFields_eq_ok isOption
  exact ⟨isId, parsedTier, List.mem_filterMap.mpr ⟨value, inResponse, isTier⟩, ofTier⟩
/-- What is promised of skipped rows: without them the response gives the same tiers and options, no
two options have one id, and every option is of a tier that is there. -/
def SkippedHaveNoEffect (response : RawProductOptionsResponse) (result : CentralProductOptions) :
    Prop :=
  (∃ other, response.withoutUnparseable.tryIntoProductOptions = .ok other ∧
      other.tiers = result.tiers ∧ other.options = result.options) ∧
    (result.options.map (·.id)).Nodup ∧
      ∀ option ∈ result.options, ∃ tier ∈ result.tiers, option.tier = tier.tier

theorem options_of_tryIntoProductOptions {result : CentralProductOptions}
    (succeeds : response.tryIntoProductOptions = .ok result) :
    (result.options.map (·.id)).Nodup ∧
      ∀ option ∈ result.options, ∃ tier ∈ result.tiers, option.tier = tier.tier := by
  obtain ⟨_, _, tiers, options⟩ := tryIntoProductOptions_eq_ok succeeds
  rw [options, tiers]
  constructor
  · apply nodup_map_firsts
    intro id option member
    exact (option_of_mem_rows member).1
  · intro option kept
    obtain ⟨id, member, _⟩ := exists_key_of_mem_firsts kept
    exact (option_of_mem_rows member).2

theorem exists_withoutUnparseable_eq_ok {result : CentralProductOptions}
    (succeeds : response.tryIntoProductOptions = .ok result) :
    ∃ other, response.withoutUnparseable.tryIntoProductOptions = .ok other ∧
      other.tiers = result.tiers ∧ other.options = firsts [] (solid response.rows) := by
  obtain ⟨supported, usable, tiers, _⟩ := tryIntoProductOptions_eq_ok succeeds
  rw [← parsedTiers_withoutUnparseable] at usable
  obtain ⟨other, isOther, otherTiers, otherOptions⟩ :=
    @exists_tryIntoProductOptions_eq_ok response.withoutUnparseable supported usable
  refine ⟨other, isOther, ?_, ?_⟩
  · rw [otherTiers, tiers, parsedTiers_withoutUnparseable]
  · rw [otherOptions, rows_withoutUnparseable]

/-- Skipped rows of a response have no effect exactly where none of them, with a valid id, comes
before the first option of its id that parses. -/
theorem skipped_rows_have_no_effect_iff {result : CentralProductOptions}
    (succeeds : response.tryIntoProductOptions = .ok result) :
    SkippedHaveNoEffect response result ↔ Unshadowed response.rows := by
  obtain ⟨_, _, _, options⟩ := tryIntoProductOptions_eq_ok succeeds
  obtain ⟨left, isLeft, leftTiers, leftOptions⟩ := exists_withoutUnparseable_eq_ok succeeds
  rw [← firsts_eq_firsts_solid_iff, ← options, ← leftOptions]
  constructor
  · rintro ⟨⟨other, isOther, _, otherOptions⟩, _⟩
    rw [isLeft] at isOther
    cases isOther
    exact otherOptions.symm
  · intro same
    exact ⟨⟨left, isLeft, leftTiers, same.symm⟩, options_of_tryIntoProductOptions succeeds⟩

/-- An option with a symbol for its currency, or none where that is `null`. -/
def sampleOption (currencySymbol : Value) : Value :=
  .object [("id", .string "premium_12_months_usd"),
    ("term", .object [("quantity", .number (.posInt 12)), ("unit", .string "month"),
      ("label", .string "1 year")]),
    ("price", .object [("minor_units", .number (.posInt 123)), ("currency", .string "USD"),
      ("currency_symbol", currencySymbol), ("decimal_precision", .number (.posInt 2))])]

/-- A response whose only tier has some options. -/
def sampleResponse (options : List Value) : RawProductOptionsResponse where
  catalogSchemaVersion := 4
  tiers := [.object [("tier", .string "premium"), ("display_name", .string "Premium"),
    ("capabilities", .object [("limits", .object [("synced_accounts", .number (.posInt 50)),
      ("history", .object [("max_transactions_per_account", .number (.posInt 50000))])])]),
    ("presentation", .object [("summary", .string "Fifty synced accounts.")]),
    ("purchase_options", .array options)]]
  appCompatibility := none
  pricingSummary := none

/-- An option comes twice, and between the two one of its id that is skipped. -/
theorem skipped_rows_have_no_effect_iff_sample :
    ∃ result, (sampleResponse [sampleOption (.string "$"), sampleOption .null,
        sampleOption (.string "$")]).tryIntoProductOptions = .ok result ∧
      SkippedHaveNoEffect (sampleResponse [sampleOption (.string "$"), sampleOption .null,
        sampleOption (.string "$")]) result := by
  have succeeds : (sampleResponse [sampleOption (.string "$"), sampleOption .null,
      sampleOption (.string "$")]).tryIntoProductOptions.toOption.isSome := by
    decide +kernel
  obtain ⟨result, isResult⟩ := Option.isSome_iff_exists.mp succeeds
  refine ⟨result, toOption_eq_some.mp isResult,
    (skipped_rows_have_no_effect_iff (toOption_eq_some.mp isResult)).mpr ?_⟩
  rw [← firsts_eq_firsts_solid_iff]
  decide +kernel

/-- An option without a symbol takes the id of the one that follows it. -/
theorem not_skippedHaveNoEffect_sample :
    ∃ result,
      (sampleResponse [sampleOption .null, sampleOption (.string "$")]).tryIntoProductOptions
        = .ok result ∧
      ¬SkippedHaveNoEffect (sampleResponse [sampleOption .null, sampleOption (.string "$")])
        result := by
  have found : (sampleResponse [sampleOption .null, sampleOption (.string "$")]
      ).tryIntoProductOptions.toOption.map (·.options.length) = some 0 := by
    decide +kernel
  have left : (sampleResponse [sampleOption .null, sampleOption (.string "$")]
      ).withoutUnparseable.tryIntoProductOptions.toOption.map (·.options.length) = some 1 := by
    decide +kernel
  obtain ⟨result, isResult, none⟩ := Option.map_eq_some_iff.mp found
  refine ⟨result, toOption_eq_some.mp isResult, ?_⟩
  rintro ⟨⟨other, isOther, _, same⟩, _⟩
  rw [isOther] at left
  change some other.options.length = some 1 at left
  rw [same, none] at left
  cases left

end Responses

end Bitgarth.Payments

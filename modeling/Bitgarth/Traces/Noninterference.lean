import Bitgarth.Traces.Har
import Mathlib.Data.List.Forall2

/-! # Traces and secrets

Exchanges that differ in redacted values only, and when the traces of a client do not tell them
apart: the client compares the names of query parameters as they are written, and the URL standard
decodes them first.
-/

namespace Bitgarth.Traces

open SplitText Text

/-! ## Redacted names -/

theorem normalizeRedactionName_idem (name : String) :
    normalizeRedactionName (normalizeRedactionName name) = normalizeRedactionName name := by
  unfold normalizeRedactionName
  rw [trim_toAsciiLowercase, trim_trim, toAsciiLowercase_toAsciiLowercase]

theorem mem_foldl_pushRedactionName {names output : List String}
    (pushed : ∀ name ∈ output, name ≠ "" ∧ normalizeRedactionName name = name) :
    ∀ name ∈ names.foldl pushRedactionName output,
      name ≠ "" ∧ normalizeRedactionName name = name := by
  induction names generalizing output with
  | nil => exact pushed
  | cons first rest ih =>
    apply ih
    unfold pushRedactionName
    dsimp only
    split
    · exact pushed
    · next fresh =>
        rw [not_or] at fresh
        intro name member
        rcases List.mem_append.mp member with earlier | last
        · exact pushed name earlier
        · rw [List.mem_singleton.mp last]
          exact ⟨fresh.1, normalizeRedactionName_idem first⟩

theorem not_isRedacted_empty (defaults custom : List String) :
    ¬IsRedacted (mergeRedactionNames defaults custom) "" := by
  intro redacted
  obtain ⟨name, member, empty⟩ := List.mem_map.mp redacted
  obtain ⟨nonempty, normal⟩ :=
    @mem_foldl_pushRedactionName (defaults ++ custom) [] nofun name member
  rw [normal] at empty
  exact nonempty empty

/-! ## URLs -/

/-- Where the URL standard sees the query: before a fragment, which may have a question mark of its
own. -/
def standardQuery (url : List Char) : Option (List Char × List Char × Option (List Char)) :=
  match splitOnce '#' url with
  | some (before, fragment) =>
    (splitOnce '?' before).map fun (front, query) => (front, query, some fragment)
  | none => (splitOnce '?' url).map fun (front, query) => (front, query, none)

theorem standardQuery_eq_some_iff {url front query : List Char} {fragment : Option (List Char)} :
    standardQuery url = some (front, query, fragment) ↔
      url = joinUrl front query fragment ∧ '?' ∉ front ∧ '#' ∉ front ∧ '#' ∉ query := by
  unfold standardQuery
  constructor
  · intro found
    cases split : splitOnce '#' url with
    | none =>
      have absent := splitOnce_eq_none_iff.mp split
      simp only [split, Option.map_eq_some_iff, Prod.mk.injEq] at found
      obtain ⟨⟨before, after⟩, parts, rfl, rfl, rfl⟩ := found
      obtain ⟨rfl, noMark⟩ := splitOnce_eq_some_iff.mp parts
      simp only [List.mem_append, List.mem_cons, not_or] at absent
      exact ⟨rfl, noMark, absent.1, absent.2.2⟩
    | some parts =>
      obtain ⟨before, after⟩ := parts
      obtain ⟨rfl, absent⟩ := splitOnce_eq_some_iff.mp split
      simp only [split, Option.map_eq_some_iff, Prod.mk.injEq] at found
      obtain ⟨⟨head, tail⟩, parts, rfl, rfl, rfl⟩ := found
      obtain ⟨rfl, noMark⟩ := splitOnce_eq_some_iff.mp parts
      simp only [List.mem_append, List.mem_cons, not_or] at absent
      exact ⟨by simp [joinUrl], noMark, absent.1, absent.2.2⟩
  · rintro ⟨rfl, noMark, noHash, noHashIn⟩
    cases fragment with
    | none =>
      have absent : '#' ∉ front ++ '?' :: query := by simp [noHash, noHashIn]
      simp [joinUrl, splitOnce_eq_none_iff.mpr absent, splitOnce_append_cons query noMark]
    | some fragment =>
      have absent : '#' ∉ front ++ '?' :: query := by simp [noHash, noHashIn]
      have split := splitOnce_append_cons fragment absent
      simp only [List.append_assoc, List.cons_append] at split
      simp [joinUrl, split, splitOnce_append_cons query noMark]

theorem splitUrlQueryAndFragment_of_standardQuery {url front query : List Char}
    {fragment : Option (List Char)} (found : standardQuery url = some (front, query, fragment)) :
    splitUrlQueryAndFragment url = some (front, query, fragment) := by
  obtain ⟨rfl, noMark, -, noHash⟩ := standardQuery_eq_some_iff.mp found
  unfold splitUrlQueryAndFragment
  cases fragment with
  | none => simp [joinUrl, splitOnce_append_cons query noMark, splitOnce_eq_none_iff.mpr noHash]
  | some fragment =>
    simp [joinUrl, splitOnce_append_cons _ noMark, splitOnce_append_cons fragment noHash]

variable (libraries : TraceLibraries)

/-- Parameters that differ at most in a value to be redacted. -/
def SegmentAlike (names : List String) (left right : List Char) : Prop :=
  left = right ∨
    rawName left = rawName right ∧ IsRedacted names (libraries.decodeName (rawName left))

/-- URLs that differ at most in the values of redacted query parameters. -/
def UrlAlike (names : List String) (left right : String) : Prop :=
  left = right ∨ ∃ front query other fragment,
    standardQuery left.toList = some (front, query, fragment) ∧
    standardQuery right.toList = some (front, other, fragment) ∧
    List.Forall₂ (SegmentAlike libraries names) (query.splitOn '&') (other.splitOn '&')

/-- Every parameter whose decoded name is redacted has a name that is redacted as it is written. -/
def PlainNames (names : List String) (url : String) : Prop :=
  ∀ front query fragment, standardQuery url.toList = some (front, query, fragment) →
    ∀ segment ∈ query.splitOn '&', IsRedacted names (libraries.decodeName (rawName segment)) →
      IsRedacted names (rawName segment)

theorem redactSegment_of_isRedacted {names : List String} {segment : List Char}
    (nonempty : ¬IsRedacted names "") (redacted : IsRedacted names (rawName segment)) :
    redactSegment names segment = (rawName segment).toList ++ '=' :: redactedValue.toList := by
  unfold redactSegment
  rw [if_neg]
  · cases split : splitOnce '=' segment with
    | none =>
      have name : rawName segment = String.ofList segment := by simp [rawName, split]
      rw [name] at redacted ⊢
      simp only [if_pos redacted, String.toList_ofList]
    | some parts =>
      have name : rawName segment = String.ofList parts.1 := by simp [rawName, split]
      rw [name] at redacted ⊢
      simp only [if_pos redacted, String.toList_ofList]
  · rintro rfl
    exact nonempty redacted

theorem redactSegment_of_not {names : List String} {segment : List Char}
    (kept : ¬IsRedacted names (rawName segment)) : redactSegment names segment = segment := by
  unfold redactSegment
  split
  · next empty => exact empty.symm
  · cases split : splitOnce '=' segment with
    | none =>
      have name : rawName segment = String.ofList segment := by simp [rawName, split]
      rw [name] at kept
      exact if_neg kept
    | some parts =>
      obtain ⟨front, back⟩ := parts
      have name : rawName segment = String.ofList front := by simp [rawName, split]
      rw [name] at kept
      exact (if_neg kept).trans (splitOnce_eq_some_iff.mp split).1.symm

theorem redactUrl_of_standardQuery {names : List String} {url : String}
    {front query : List Char} {fragment : Option (List Char)}
    (found : standardQuery url.toList = some (front, query, fragment)) :
    redactUrl url names = String.ofList (joinUrl front
      (['&'].intercalate ((query.splitOn '&').map (redactSegment names))) fragment) := by
  unfold redactUrl
  split
  · next empty =>
      -- Without names every segment is kept, and the URL is put together again.
      have kept : (query.splitOn '&').map (redactSegment names) = query.splitOn '&' := by
        refine List.map_congr_left (fun segment _ => ?_) |>.trans (List.map_id _)
        exact redactSegment_of_not (by simp [IsRedacted, empty])
      rw [kept, List.intercalate_splitOn, ← (standardQuery_eq_some_iff.mp found).1,
        String.ofList_toList]
  · rw [splitUrlQueryAndFragment_of_standardQuery found]

theorem map_redactSegment_eq {names : List String} {left right : List (List Char)}
    (nonempty : ¬IsRedacted names "")
    (plain : ∀ segment ∈ left, IsRedacted names (libraries.decodeName (rawName segment)) →
      IsRedacted names (rawName segment))
    (alike : List.Forall₂ (SegmentAlike libraries names) left right) :
    left.map (redactSegment names) = right.map (redactSegment names) := by
  induction alike with
  | nil => rfl
  | @cons first other rest others segment _ ih =>
    have same : redactSegment names first = redactSegment names other := by
      rcases segment with rfl | ⟨name, decoded⟩
      · rfl
      · have redacted := plain first List.mem_cons_self decoded
        rw [redactSegment_of_isRedacted nonempty redacted,
          redactSegment_of_isRedacted nonempty (name ▸ redacted), name]
    rw [List.map_cons, List.map_cons, same,
      ih fun segment member => plain segment (.tail _ member)]

theorem redactUrl_eq_of_urlAlike {names : List String} {left right : String}
    (nonempty : ¬IsRedacted names "") (plain : PlainNames libraries names left)
    (alike : UrlAlike libraries names left right) :
    redactUrl left names = redactUrl right names := by
  rcases alike with rfl | ⟨front, query, other, fragment, foundLeft, foundRight, segments⟩
  · rfl
  · rw [redactUrl_of_standardQuery foundLeft, redactUrl_of_standardQuery foundRight,
      map_redactSegment_eq libraries nonempty (plain front query fragment foundLeft) segments]

/-- A parameter with one more character in its value. -/
def extendValue (segment : List Char) : List Char :=
  if '=' ∈ segment then segment ++ ['x'] else segment ++ ['=', 'x']

theorem rawName_extendValue (segment : List Char) :
    rawName (extendValue segment) = rawName segment := by
  unfold extendValue
  split
  · next valued =>
      cases split : splitOnce '=' segment with
      | none => exact absurd valued (splitOnce_eq_none_iff.mp split)
      | some parts =>
        obtain ⟨rfl, absent⟩ := splitOnce_eq_some_iff.mp split
        rw [List.append_assoc, List.cons_append]
        simp [rawName, splitOnce_append_cons _ absent]
  · next flag =>
      simp [rawName, splitOnce_append_cons ['x'] flag, splitOnce_eq_none_iff.mpr flag]

theorem not_mem_extendValue {character : Char} {segment : List Char} (absent : character ∉ segment)
    (other : character ≠ '=' ∧ character ≠ 'x') : character ∉ extendValue segment := by
  unfold extendValue
  split <;> simp [absent, other]

theorem length_lt_extendValue (segment : List Char) :
    segment.length < (extendValue segment).length := by
  unfold extendValue
  split <;> simp

/-- A parameter whose value is written can be told from another value. -/
theorem exists_urlAlike_of_not_plainNames {names : List String} {url : String}
    (leaks : ¬PlainNames libraries names url) :
    ∃ other, UrlAlike libraries names url other ∧ redactUrl other names ≠ redactUrl url names := by
  unfold PlainNames at leaks
  push Not at leaks
  obtain ⟨front, query, fragment, found, segment, member, decoded, kept⟩ := leaks
  obtain ⟨before, after, pieces⟩ := List.append_of_mem member
  obtain ⟨whole, noMark, noHash, noHashIn⟩ := standardQuery_eq_some_iff.mp found
  let others := before ++ extendValue segment :: after
  have clean : ∀ piece ∈ others, '&' ∉ piece ∧ '#' ∉ piece := by
    have cleanPiece {piece : List Char} (there : piece ∈ query.splitOn '&') :
        '&' ∉ piece ∧ '#' ∉ piece := by
      refine ⟨not_mem_of_mem_splitOn there, fun inside => noHashIn ?_⟩
      rw [← @List.intercalate_splitOn _ query _ _ '&']
      exact mem_intercalate_of_mem there inside
    intro piece there
    rw [pieces] at cleanPiece
    rcases List.mem_append.mp there with earlier | there
    · exact cleanPiece (List.mem_append_left _ earlier)
    · rcases List.mem_cons.mp there with rfl | later
      · have old := cleanPiece (List.mem_append_right before List.mem_cons_self)
        exact ⟨not_mem_extendValue old.1 (by decide), not_mem_extendValue old.2 (by decide)⟩
      · exact cleanPiece (List.mem_append_right _ (.tail _ later))
  have split : (['&'].intercalate others).splitOn '&' = others :=
    List.splitOn_intercalate '&' (fun piece there => (clean piece there).1) (by simp [others])
  have foundOther : standardQuery (String.ofList
      (joinUrl front (['&'].intercalate others) fragment)).toList =
        some (front, ['&'].intercalate others, fragment) := by
    refine standardQuery_eq_some_iff.mpr ⟨String.toList_ofList, noMark, noHash, ?_⟩
    intro inside
    rcases mem_intercalate inside with same | ⟨piece, there, inside⟩
    · exact absurd same (by decide)
    · exact (clean piece there).2 inside
  refine ⟨String.ofList (joinUrl front (['&'].intercalate others) fragment),
    .inr ⟨front, query, _, fragment, found, foundOther, ?_⟩, ?_⟩
  · rw [split, pieces]
    have kept (rest : List (List Char)) :
        List.Forall₂ (SegmentAlike libraries names) rest rest :=
      List.forall₂_same.mpr fun _ _ => .inl rfl
    exact List.rel_append (kept before)
      (.cons (.inr ⟨(rawName_extendValue segment).symm, decoded⟩) (kept after))
  · rw [redactUrl_of_standardQuery found, redactUrl_of_standardQuery foundOther, split, pieces]
    intro same
    have lengths := congrArg List.length (String.ofList_injective same)
    have written : redactSegment names (extendValue segment) = extendValue segment :=
      redactSegment_of_not (rawName_extendValue segment ▸ kept)
    have replaced := length_intercalate_replace ['&'] (before.map (redactSegment names))
      (after.map (redactSegment names)) segment (extendValue segment)
    have longer := length_lt_extendValue segment
    simp only [others, List.map_append, List.map_cons, written,
      redactSegment_of_not kept] at lengths
    unfold joinUrl at lengths
    cases fragment <;> simp only [List.length_append, List.length_cons] at lengths <;> omega

/-! ## Headers -/

/-- Headers that differ at most in a value that the client or the writer redacts. -/
def HeaderAlike (names : List String) (left right : String × String) : Prop :=
  left.1 = right.1 ∧
    (left.2 = right.2 ∨ IsRedacted names left.1 ∨
      writerRedactedHeaders.any (eqIgnoreAsciiCase · left.1))

theorem harHeaders_eq {names : List String} {left right : List (String × String)}
    (alike : List.Forall₂ (HeaderAlike names) left right) :
    harHeaders (redactHeaders left names) = harHeaders (redactHeaders right names) := by
  unfold harHeaders writerRedactHeaders redactHeaders
  simp only [List.map_map]
  induction alike with
  | nil => rfl
  | @cons first other rest others header _ ih =>
    obtain ⟨name, value⟩ := first
    obtain ⟨name', value'⟩ := other
    obtain ⟨rfl, hidden⟩ := header
    rw [List.map_cons, List.map_cons, ih]
    congr 1
    rcases hidden with rfl | redacted | redacted
    · rfl
    · simp only [Function.comp_apply, if_pos redacted]
    · simp only [Function.comp_apply, redacted, ↓reduceIte]

theorem findHeaderValue_eq {names : List String} {left right : List (String × String)}
    (alike : List.Forall₂ (HeaderAlike names) left right) :
    findHeaderValue (redactHeaders left names) "content-type" =
      findHeaderValue (redactHeaders right names) "content-type" := by
  unfold findHeaderValue redactHeaders
  induction alike with
  | nil => rfl
  | @cons first other rest others header _ ih =>
    obtain ⟨name, value⟩ := first
    obtain ⟨name', value'⟩ := other
    obtain ⟨rfl, hidden⟩ := header
    rw [List.map_cons, List.map_cons, List.find?_cons, List.find?_cons]
    dsimp only at hidden ⊢
    cases named : eqIgnoreAsciiCase name "content-type" with
    | false => exact ih
    | true =>
      rcases hidden with rfl | redacted | redacted
      · rfl
      · simp only [if_pos redacted]
      · have lower : toAsciiLowercase name = toAsciiLowercase "content-type" :=
          of_decide_eq_true named
        simp only [eqIgnoreAsciiCase, lower] at redacted
        exact absurd redacted (by decide)

/-! ## JSON bodies -/

mutual

/-- Values that differ at most in entries to be redacted. -/
inductive JsonAlike (names : List String) : Json → Json → Prop where
  | same (value : Json) : JsonAlike names value value
  | array {left right : List Json} (values : JsonsAlike names left right) :
      JsonAlike names (.array left) (.array right)
  | object {left right : List (String × Json)} (entries : EntriesAlike names left right) :
      JsonAlike names (.object left) (.object right)

inductive JsonsAlike (names : List String) : List Json → List Json → Prop where
  | nil : JsonsAlike names [] []
  | cons {first other : Json} {rest others : List Json} (value : JsonAlike names first other)
      (values : JsonsAlike names rest others) : JsonsAlike names (first :: rest) (other :: others)

inductive EntriesAlike (names : List String) :
    List (String × Json) → List (String × Json) → Prop where
  | nil : EntriesAlike names [] []
  | kept {key : String} {first other : Json} {rest others : List (String × Json)}
      (value : JsonAlike names first other) (entries : EntriesAlike names rest others) :
      EntriesAlike names ((key, first) :: rest) ((key, other) :: others)
  | secret {key : String} {first other : Json} {rest others : List (String × Json)}
      (redacted : IsRedacted names key) (entries : EntriesAlike names rest others) :
      EntriesAlike names ((key, first) :: rest) ((key, other) :: others)

end

mutual

theorem redactJsonValue_eq {names : List String} {left right : Json} :
    JsonAlike names left right → redactJsonValue names left = redactJsonValue names right
  | .same _ => rfl
  | .array values => by
      rw [redactJsonValue, redactJsonValue, redactJsonValues_eq values]
  | .object entries => by
      rw [redactJsonValue, redactJsonValue, redactJsonEntries_eq entries]

theorem redactJsonValues_eq {names : List String} {left right : List Json} :
    JsonsAlike names left right → redactJsonValues names left = redactJsonValues names right
  | .nil => rfl
  | .cons value values => by
      rw [redactJsonValues, redactJsonValues, redactJsonValue_eq value, redactJsonValues_eq values]

theorem redactJsonEntries_eq {names : List String} {left right : List (String × Json)} :
    EntriesAlike names left right → redactJsonEntries names left = redactJsonEntries names right
  | .nil => rfl
  | .kept value entries => by
      rw [redactJsonEntries, redactJsonEntries, redactJsonValue_eq value,
        redactJsonEntries_eq entries]
  | .secret redacted entries => by
      rw [redactJsonEntries, redactJsonEntries, if_pos redacted, if_pos redacted,
        redactJsonEntries_eq entries]

end

/-- Bodies that are equal, or both JSON that differs at most in entries to be redacted. -/
def BodyAlike (names : List String) (left right : ByteArray) : Prop :=
  left = right ∨ redactionNameSet names ≠ [] ∧ ∃ value other,
    libraries.fromSlice left = some value ∧ libraries.fromSlice right = some other ∧
      JsonAlike names value other

theorem redactJsonBody_eq {names : List String} {left right : ByteArray}
    (alike : BodyAlike libraries names left right) :
    redactJsonBody libraries left names = redactJsonBody libraries right names := by
  rcases alike with rfl | ⟨some_, value, other, parsedLeft, parsedRight, values⟩
  · rfl
  · unfold redactJsonBody
    rw [if_neg some_, if_neg some_, parsedLeft, parsedRight]
    exact congrArg libraries.toVec (redactJsonValue_eq values)

theorem redactedBodyOption_eq {names : List String} {left right : ByteArray}
    (alike : BodyAlike libraries names left right) :
    redactedBodyOption libraries left names = redactedBodyOption libraries right names := by
  have body := redactJsonBody_eq libraries alike
  rcases alike with rfl | ⟨-, value, other, parsedLeft, parsedRight, -⟩
  · rfl
  · -- An empty body is no JSON.
    have nonempty {bytes : ByteArray} {value : Json}
        (parsed : libraries.fromSlice bytes = some value) : bytes.size ≠ 0 := by
      intro empty
      rw [libraries.fromSlice_empty bytes empty] at parsed
      cases parsed
    unfold redactedBodyOption
    rw [if_neg (nonempty parsedLeft), if_neg (nonempty parsedRight), body]

/-! ## Exchanges -/

/-- Requests that differ in secrets only. -/
structure RequestAlike (client : TracedClient) (left right : Request) : Prop where
  method : left.method = right.method
  url : UrlAlike libraries client.redactedQueryParams left.url right.url
  headers : List.Forall₂ (HeaderAlike client.redactedHeaders) left.headers right.headers
  body : Option.Rel (BodyAlike libraries client.redactedJsonBodyFields) left.body right.body
  timestamp : left.timestamp = right.timestamp

/-- Responses that differ in secrets only. -/
structure ResponseAlike (client : TracedClient) (left right : Response) : Prop where
  status : left.status = right.status
  canonicalReason : left.canonicalReason = right.canonicalReason
  url : UrlAlike libraries client.redactedQueryParams left.url right.url
  headers : List.Forall₂ (HeaderAlike client.redactedHeaders) (collectHeaders left.headers)
    (collectHeaders right.headers)
  timestamp : left.timestamp = right.timestamp

inductive AnswerAlike (client : TracedClient) : Answer → Answer → Prop where
  | sendFailed (error : ReqwestError) (timestamp : ℤ) :
      AnswerAlike client (.sendFailed error timestamp) (.sendFailed error timestamp)
  | bodyReadFailed {left right : Response} (response : ResponseAlike libraries client left right)
      (error : ReqwestError) :
      AnswerAlike client (.responded left (.error error)) (.responded right (.error error))
  | responded {left right : Response} (response : ResponseAlike libraries client left right)
      {leftBody rightBody : ByteArray}
      (body : BodyAlike libraries client.redactedJsonBodyFields leftBody rightBody) :
      AnswerAlike client (.responded left (.ok leftBody)) (.responded right (.ok rightBody))

variable {libraries}

theorem harPostData_congr {left right : List (String × String)}
    (contentType : findHeaderValue left "content-type" = findHeaderValue right "content-type") :
    harPostData libraries left = harPostData libraries right := by
  funext body
  unfold harPostData
  rw [contentType]

theorem harContent_congr {left right : List (String × String)} (body : Option ByteArray)
    (contentType : findHeaderValue left "content-type" = findHeaderValue right "content-type") :
    harContent libraries left body = harContent libraries right body := by
  unfold harContent
  rw [contentType]

theorem RequestAlike.redacted {client : TracedClient} {left right : Request}
    (alike : RequestAlike libraries client left right) :
    harHeaders (redactHeaders left.headers client.redactedHeaders) =
        harHeaders (redactHeaders right.headers client.redactedHeaders) ∧
      harPostData libraries (redactHeaders left.headers client.redactedHeaders) =
        harPostData libraries (redactHeaders right.headers client.redactedHeaders) ∧
      left.body.map (redactJsonBody libraries · client.redactedJsonBodyFields) =
        right.body.map (redactJsonBody libraries · client.redactedJsonBodyFields) := by
  refine ⟨harHeaders_eq alike.headers, harPostData_congr (findHeaderValue_eq alike.headers), ?_⟩
  have body := alike.body
  generalize left.body = leftBody at body ⊢
  generalize right.body = rightBody at body ⊢
  cases body with
  | none => rfl
  | some body => exact congrArg some (redactJsonBody_eq libraries body)

theorem send_eq_of_alike {client : TracedClient} {request other : Request}
    {answer otherAnswer : Answer} (requests : RequestAlike libraries client request other)
    (answers : AnswerAlike libraries client answer otherAnswer)
    (url : redactUrl request.url client.redactedQueryParams =
      redactUrl other.url client.redactedQueryParams) :
    (client.send libraries other otherAnswer).1 = (client.send libraries request answer).1 := by
  obtain ⟨headers, postData, body⟩ := requests.redacted
  unfold TracedClient.send
  cases client.tracingEnabled with
  | false => rfl
  | true =>
    simp only [↓reduceIte, Option.some.injEq]
    cases answers with
    | sendFailed error timestamp =>
      simp only [buildHarDocument, TracedClient.sendFailureInput, requests.method,
        requests.timestamp, url, headers, postData, body]
    | bodyReadFailed response error =>
      have rspHeaders := harHeaders_eq response.headers
      have content := @harContent_congr libraries _ _ none (findHeaderValue_eq response.headers)
      simp only [buildHarDocument, TracedClient.responseInput, statusText, requests.method,
        requests.timestamp, url, headers, postData, body, response.status,
        response.canonicalReason, response.timestamp, rspHeaders, content]
    | responded response rspBody =>
      have rspHeaders := harHeaders_eq response.headers
      have content := fun body => @harContent_congr libraries _ _ body
        (findHeaderValue_eq response.headers)
      simp only [buildHarDocument, TracedClient.responseInput, statusText, requests.method,
        requests.timestamp, url, headers, postData, body, response.status,
        response.canonicalReason, response.timestamp, rspHeaders, content,
        redactedBodyOption_eq libraries rspBody]

theorem forall₂_headerAlike_refl (names : List String) (headers : List (String × String)) :
    List.Forall₂ (HeaderAlike names) headers headers :=
  List.forall₂_same.mpr fun _ _ => ⟨rfl, .inl rfl⟩

theorem AnswerAlike.refl (client : TracedClient) (answer : Answer) :
    AnswerAlike libraries client answer answer := by
  have response (response : Response) : ResponseAlike libraries client response response :=
    ⟨rfl, rfl, .inl rfl, forall₂_headerAlike_refl _ _, rfl⟩
  match answer with
  | .sendFailed error timestamp => exact .sendFailed error timestamp
  | .responded there (.error error) => exact .bodyReadFailed (response there) error
  | .responded there (.ok body) => exact .responded (response there) (.inl rfl)

theorem send_ne_of_redactUrl_ne {client : TracedClient} {request other : Request} {answer : Answer}
    (enabled : client.tracingEnabled = true)
    (url : redactUrl other.url client.redactedQueryParams ≠
      redactUrl request.url client.redactedQueryParams) :
    (client.send libraries other answer).1 ≠ (client.send libraries request answer).1 := by
  intro same
  refine url ?_
  have urls := congrArg (Option.map fun document => document.entries.map (·.request.url)) same
  unfold TracedClient.send at urls
  simp only [enabled, ↓reduceIte, Option.map_some, Option.some.injEq] at urls
  match answer with
  | .sendFailed _ _ => exact (List.cons.inj urls).1
  | .responded _ (.error _) => exact (List.cons.inj urls).1
  | .responded _ (.ok _) => exact (List.cons.inj urls).1

variable (libraries) in
/-- The trace of an exchange is that of every exchange that differs in secrets only. -/
def TracedClient.Noninterfering (client : TracedClient) (request : Request) (answer : Answer) :
    Prop :=
  ∀ other otherAnswer, RequestAlike libraries client request other →
    AnswerAlike libraries client answer otherAnswer →
    (client.send libraries other otherAnswer).1 = (client.send libraries request answer).1

theorem TracedClient.noninterference_iff {client : TracedClient}
    (nonempty : ¬IsRedacted client.redactedQueryParams "") (request : Request) (answer : Answer) :
    client.Noninterfering libraries request answer ↔ (client.tracingEnabled = true →
      PlainNames libraries client.redactedQueryParams request.url) := by
  constructor
  · intro same enabled
    by_contra leaks
    obtain ⟨url, alike, differs⟩ := exists_urlAlike_of_not_plainNames libraries leaks
    refine @send_ne_of_redactUrl_ne libraries client request { request with url } answer enabled
      differs (same _ answer ⟨rfl, alike, forall₂_headerAlike_refl _ _, ?_, rfl⟩ (.refl _ _))
    cases request.body with
    | none => exact .none
    | some body => exact .some (.inl rfl)
  · intro plain other otherAnswer requests answers
    cases enabled : client.tracingEnabled with
    | false => simp [TracedClient.send, enabled]
    | true =>
      refine send_eq_of_alike requests answers ?_
      exact redactUrl_eq_of_urlAlike libraries nonempty (plain enabled) requests.url

/-- A client's traces do not depend on secrets just where every query parameter whose decoded name
is redacted has a name that is redacted as it is written. -/
theorem noninterfering_build_iff (tracingEnabled : Bool)
    (customQueryParams customHeaders customJsonBodyFields : List String) (request : Request)
    (answer : Answer) :
    (TracedClient.build tracingEnabled customQueryParams customHeaders
        customJsonBodyFields).Noninterfering libraries request answer ↔
      (tracingEnabled = true → PlainNames libraries
        (mergeRedactionNames defaultRedactedQueryParams customQueryParams) request.url) := by
  have nonempty := not_isRedacted_empty defaultRedactedQueryParams customQueryParams
  generalize merged : mergeRedactionNames defaultRedactedQueryParams customQueryParams = names
    at nonempty ⊢
  unfold TracedClient.build
  rw [merged]
  exact TracedClient.noninterference_iff nonempty request answer

/-! ## A name that is written with a percent sign -/

def hexValue (digit : Char) : ℕ :=
  if digit.isDigit then digit.toNat - '0'.toNat else digit.toLower.toNat - 'a'.toNat + 10

/-- The decoding of names in ASCII. -/
def decodeAscii : List Char → List Char
  | '%' :: high :: low :: rest =>
    Char.ofNat (16 * hexValue high + hexValue low) :: decodeAscii rest
  | '+' :: rest => ' ' :: decodeAscii rest
  | character :: rest => character :: decodeAscii rest
  | [] => []

/-- Libraries for exchanges in ASCII without bodies. -/
def asciiLibraries : TraceLibraries where
  fromSlice _ := none
  fromSlice_empty _ _ := rfl
  toVec _ := .empty
  queryPairs url := some <|
    match standardQuery url.toList with
    | none => []
    | some (_, query, _) => (query.splitOn '&').map fun segment =>
      let (name, value) := (splitOnce '=' segment).getD (segment, [])
      (String.ofList (decodeAscii name), String.ofList (decodeAscii value))
  decodeName name := String.ofList (decodeAscii name.toList)
  encodeBase64 _ := ""
  toRfc3339Micros _ := "1970-01-01T00:00:00.000000Z"

/-- A request with its API key, under a name that stands for `api_key`. -/
def keyedRequest (key : String) : Request where
  method := "GET"
  url := "https://api.example/v2?api%5Fkey=" ++ key
  headers := []
  body := none
  timestamp := 0

def noAnswer : Answer :=
  .sendFailed ⟨"connection refused", false, true, false, false, false⟩ 0

/-- The traces of two requests that differ in their API keys differ. -/
theorem noninterfering_counterexample :
    RequestAlike asciiLibraries (.buildBlocking true [] []) (keyedRequest "1") (keyedRequest "2") ∧
      AnswerAlike asciiLibraries (.buildBlocking true [] []) noAnswer noAnswer ∧
      ((TracedClient.buildBlocking true [] []).send asciiLibraries (keyedRequest "1") noAnswer).1 ≠
        ((TracedClient.buildBlocking true [] []).send asciiLibraries (keyedRequest "2")
          noAnswer).1 := by
  refine ⟨⟨rfl, ?_, .nil, .none, rfl⟩, .refl _ _, ?_⟩
  · refine .inr ⟨"https://api.example/v2".toList, "api%5Fkey=1".toList, "api%5Fkey=2".toList, none,
      by decide +kernel, by decide +kernel, ?_⟩
    have segments (key : Char) (plain : key ≠ '&') :
        ("api%5Fkey=".toList ++ [key]).splitOn '&' = ["api%5Fkey=".toList ++ [key]] :=
      List.splitOn_eq_singleton (by simp [Ne.symm plain])
    exact segments '1' (by decide) ▸ segments '2' (by decide) ▸
      .cons (.inr ⟨by decide +kernel, by decide +kernel⟩) .nil
  · exact send_ne_of_redactUrl_ne rfl (by decide +kernel)

end Bitgarth.Traces

import Bitgarth.Foundation.SplitText
import Bitgarth.Text

/-! # Redaction of traced requests

What the traced HTTP clients take out of URLs, headers and JSON bodies before a trace is written.
-/

namespace Bitgarth.Traces

open SplitText Text

def redactedValue : String := "***REDACTED***"

def defaultRedactedQueryParams : List String :=
  ["apikey", "api_key", "key", "token", "secret", "password"]

def defaultRedactedHeaders : List String :=
  ["authorization", "cookie", "set-cookie", "x-api-key", "x-cg-demo-api-key", "x-cg-pro-api-key"]

/-! ## Names -/

def normalizeRedactionName (name : String) : String :=
  toAsciiLowercase (trim name)

/-- The set of the names seen is that of the names given out. -/
def pushRedactionName (output : List String) (name : String) : List String :=
  let normalized := normalizeRedactionName name
  if normalized = "" ∨ normalized ∈ output then output else output ++ [normalized]

def mergeRedactionNames (defaults custom : List String) : List String :=
  (defaults ++ custom).foldl pushRedactionName []

def redactionNameSet (names : List String) : List String :=
  names.map normalizeRedactionName

/-- A name is compared in lower case. -/
def IsRedacted (names : List String) (name : String) : Prop :=
  toAsciiLowercase name ∈ redactionNameSet names

instance (names : List String) (name : String) : Decidable (IsRedacted names name) :=
  inferInstanceAs (Decidable (_ ∈ _))

/-! ## URLs -/

def splitUrlQueryAndFragment (url : List Char) :
    Option (List Char × List Char × Option (List Char)) :=
  (splitOnce '?' url).map fun (front, queryAndFragment) =>
    match splitOnce '#' queryAndFragment with
    | some (query, fragment) => (front, query, some fragment)
    | none => (front, queryAndFragment, none)

/-- The name of a parameter as it is written. -/
def rawName (segment : List Char) : String :=
  String.ofList (((splitOnce '=' segment).map (·.1)).getD segment)

def redactSegment (names : List String) (segment : List Char) : List Char :=
  if segment = [] then []
  else
    match splitOnce '=' segment with
    | some (name, value) =>
      if IsRedacted names (String.ofList name) then name ++ '=' :: redactedValue.toList
      else name ++ '=' :: value
    | none =>
      if IsRedacted names (String.ofList segment) then segment ++ '=' :: redactedValue.toList
      else segment

def joinUrl (front query : List Char) (fragment : Option (List Char)) : List Char :=
  match fragment with
  | some fragment => front ++ '?' :: query ++ '#' :: fragment
  | none => front ++ '?' :: query

def redactUrl (url : String) (paramsToRedact : List String) : String :=
  if redactionNameSet paramsToRedact = [] then url
  else
    match splitUrlQueryAndFragment url.toList with
    | none => url
    | some (front, query, fragment) =>
      String.ofList (joinUrl front
        (['&'].intercalate ((query.splitOn '&').map (redactSegment paramsToRedact))) fragment)

/-! ## Headers -/

def redactHeaders (headers : List (String × String)) (headersToRedact : List String) :
    List (String × String) :=
  headers.map fun (name, value) =>
    (name, if IsRedacted headersToRedact name then redactedValue else value)

/-! ## JSON -/

/-- A parsed JSON value, with the entries of an object in the order they are written in. -/
inductive Json where
  | null
  | bool (value : Bool)
  | number (value : String)
  | string (value : String)
  | array (values : List Json)
  | object (entries : List (String × Json))

mutual

def redactJsonValue (fieldsToRedact : List String) : Json → Json
  | .object entries => .object (redactJsonEntries fieldsToRedact entries)
  | .array values => .array (redactJsonValues fieldsToRedact values)
  | .null => .null
  | .bool value => .bool value
  | .number value => .number value
  | .string value => .string value

def redactJsonValues (fieldsToRedact : List String) : List Json → List Json
  | [] => []
  | value :: rest => redactJsonValue fieldsToRedact value :: redactJsonValues fieldsToRedact rest

def redactJsonEntries (fieldsToRedact : List String) : List (String × Json) → List (String × Json)
  | [] => []
  | (key, value) :: rest =>
    (key, if IsRedacted fieldsToRedact key then .string redactedValue
      else redactJsonValue fieldsToRedact value) :: redactJsonEntries fieldsToRedact rest

end

/-- What the traces use of other crates: parsing and printing of JSON, which prints every value,
the pairs of a URL's query and a parameter's name as the URL standard reads them, base 64, and the
text of an instant. -/
structure TraceLibraries where
  fromSlice : ByteArray → Option Json
  fromSlice_empty (bytes : ByteArray) (empty : bytes.size = 0) : fromSlice bytes = none
  toVec : Json → ByteArray
  queryPairs : String → Option (List (String × String))
  decodeName : String → String
  encodeBase64 : ByteArray → String
  toRfc3339Micros : ℤ → String

variable (libraries : TraceLibraries)

def redactJsonBody (bytes : ByteArray) (fieldsToRedact : List String) : ByteArray :=
  if redactionNameSet fieldsToRedact = [] then bytes
  else
    match libraries.fromSlice bytes with
    | none => bytes
    | some value => libraries.toVec (redactJsonValue fieldsToRedact value)

def redactedBodyOption (bytes : ByteArray) (fieldsToRedact : List String) : Option ByteArray :=
  if bytes.size = 0 then none else some (redactJsonBody libraries bytes fieldsToRedact)

end Bitgarth.Traces

import Bitgarth.Traces.Redaction
import Mathlib.Data.Int.ModEq
import Mathlib.Data.List.Infix

/-! # The traces of HTTP exchanges

A traced client keeps what it redacts of a request, sends it, and hands the redacted exchange to the
writer, which makes a HAR document of it.
-/

namespace Bitgarth.Traces

open Text

/-! ## Failures -/

inductive TransportFailureStage where
  | sendFailed
  | responseBodyReadFailed
deriving DecidableEq, Repr

def TransportFailureStage.asHarValue : TransportFailureStage → String
  | sendFailed => "send_failed"
  | responseBodyReadFailed => "response_body_read_failed"

inductive TransportErrorKind where
  | timeout
  | connect
  | request
  | body
  | decode
  | tls
  | unknown
deriving DecidableEq, Repr

def TransportErrorKind.asStr : TransportErrorKind → String
  | timeout => "timeout"
  | connect => "connect"
  | request => "request"
  | body => "body"
  | decode => "decode"
  | tls => "tls"
  | unknown => "unknown"

/-- A transport error without its URL. -/
structure ReqwestError where
  message : String
  timeout : Bool
  connect : Bool
  request : Bool
  body : Bool
  decode : Bool
deriving DecidableEq, Repr

def classifyTransportError (error : ReqwestError) : TransportErrorKind :=
  let mentions (needle : String) : Prop :=
    needle.toList <:+: (toAsciiLowercase error.message).toList
  have (needle : String) : Decidable (mentions needle) := inferInstanceAs (Decidable (_ <:+: _))
  if error.timeout then .timeout
  else if error.connect then .connect
  else if error.body then .body
  else if error.decode then .decode
  else if mentions "tls" ∨ mentions "ssl" ∨ mentions "certificate" ∨ mentions "handshake" then .tls
  else if error.request then .request
  else .unknown

structure TraceFailureMetadata where
  stage : TransportFailureStage
  message : String
  kind : Option String
deriving DecidableEq, Repr

def traceFailure (stage : TransportFailureStage) (error : ReqwestError) : TraceFailureMetadata :=
  ⟨stage, error.message, some (classifyTransportError error).asStr⟩

/-! ## HAR documents -/

structure HarCreator where
  name : String := "BitGarth"
  version : String := "0.4.4"
deriving DecidableEq, Repr

structure HarEntryExtensions where
  failureStage : Option String := none
  transportErrorMessage : Option String := none
  transportErrorKind : Option String := none
  responseBodyReadError : Option String := none
deriving DecidableEq, Repr

structure HarHeader where
  name : String
  value : String
deriving DecidableEq, Repr

structure HarQueryParam where
  name : String
  value : String
deriving DecidableEq, Repr

structure HarPostData where
  mimeType : String
  text : String
  encoding : Option String
deriving DecidableEq, Repr

structure HarContent where
  size : ℕ
  mimeType : String
  text : Option String
  encoding : Option String
deriving DecidableEq, Repr

structure HarRequest where
  method : String
  url : String
  httpVersion : String := "HTTP/1.1"
  headers : List HarHeader
  queryString : List HarQueryParam
  postData : Option HarPostData
  headersSize : ℤ := -1
  bodySize : ℕ
deriving DecidableEq, Repr

structure HarResponse where
  status : ℕ
  statusText : String
  httpVersion : String := "HTTP/1.1"
  headers : List HarHeader
  content : HarContent
  redirectUrl : String := ""
  headersSize : ℤ := -1
  bodySize : ℕ
deriving DecidableEq, Repr

structure HarTimings where
  send : ℤ := -1
  wait : ℤ := -1
  receive : ℤ := -1
deriving DecidableEq, Repr

structure HarEntry where
  startedDateTime : String
  time : ℤ
  request : HarRequest
  response : HarResponse
  timings : HarTimings := {}
  extensions : HarEntryExtensions
deriving DecidableEq, Repr

structure HarDocument where
  version : String := "1.2"
  creator : HarCreator := {}
  entries : List HarEntry
deriving DecidableEq, Repr

/-! ## The writer -/

/-- The headers the writer redacts itself, whatever the client has redacted. -/
def writerRedactedHeaders : List String :=
  ["authorization", "cookie", "set-cookie", "x-api-key", "proxy-authorization"]

def eqIgnoreAsciiCase (left right : String) : Bool :=
  toAsciiLowercase left = toAsciiLowercase right

def writerRedactHeaders (headers : List (String × String)) : List (String × String) :=
  headers.map fun (name, value) =>
    (name, if writerRedactedHeaders.any (eqIgnoreAsciiCase · name) then redactedValue else value)

def findHeaderValue (headers : List (String × String)) (name : String) : Option String :=
  (headers.find? fun header => eqIgnoreAsciiCase header.1 name).map (·.2)

structure HarDocumentInput where
  reqTimestamp : ℤ
  reqMethod : String
  reqUrl : String
  reqHeaders : List (String × String)
  reqBody : Option ByteArray
  rspTimestamp : ℤ
  rspStatus : ℕ
  rspStatusText : String
  rspHeaders : List (String × String)
  rspBody : Option ByteArray
  failure : Option TraceFailureMetadata

section Writer

variable (libraries : TraceLibraries)

def bodyToTextAndEncoding (body : ByteArray) : String × Option String :=
  match String.fromUTF8? body with
  | some text => (text, none)
  | none => (libraries.encodeBase64 body, some "base64")

def harHeaders (headers : List (String × String)) : List HarHeader :=
  (writerRedactHeaders headers).map fun (name, value) => ⟨name, value⟩

def harExtensions : Option TraceFailureMetadata → HarEntryExtensions
  | none => {}
  | some failure => {
      failureStage := some failure.stage.asHarValue
      transportErrorMessage := if failure.stage = .sendFailed then some failure.message else none
      transportErrorKind := failure.kind
      responseBodyReadError :=
        if failure.stage = .sendFailed then none else some failure.message }

/-- The time between the instants in milliseconds, in 32 bits. -/
def elapsedMs (reqTimestamp rspTimestamp : ℤ) : ℤ :=
  ((rspTimestamp - reqTimestamp).tdiv 1000000).bmod (2 ^ 32)

def harPostData (headers : List (String × String)) (body : ByteArray) : Option HarPostData :=
  if body.size = 0 then none
  else
    let (text, encoding) := bodyToTextAndEncoding libraries body
    some ⟨(findHeaderValue headers "content-type").getD "application/octet-stream", text, encoding⟩

def harContent (headers : List (String × String)) (body : Option ByteArray) : HarContent where
  size := (body.map (·.size)).getD 0
  mimeType := (findHeaderValue headers "content-type").getD "application/octet-stream"
  text := (body.filter (·.size ≠ 0)).map fun body => (bodyToTextAndEncoding libraries body).1
  encoding := (body.filter (·.size ≠ 0)).bind fun body => (bodyToTextAndEncoding libraries body).2

def buildHarDocument (input : HarDocumentInput) : HarDocument where
  entries := [{
    startedDateTime := libraries.toRfc3339Micros input.reqTimestamp
    time := elapsedMs input.reqTimestamp input.rspTimestamp
    request := {
      method := input.reqMethod
      url := input.reqUrl
      headers := harHeaders input.reqHeaders
      queryString := ((libraries.queryPairs input.reqUrl).getD []).map fun (name, value) =>
        ⟨name, value⟩
      postData := input.reqBody.bind (harPostData libraries input.reqHeaders)
      bodySize := (input.reqBody.map (·.size)).getD 0 }
    response := {
      status := input.rspStatus
      statusText := input.rspStatusText
      headers := harHeaders input.rspHeaders
      content := harContent libraries input.rspHeaders input.rspBody
      bodySize := (input.rspBody.map (·.size)).getD 0 }
    extensions := harExtensions input.failure }]

end Writer

/-! ## The clients -/

/-- The asynchronous and the blocking client differ in the names their builders take. -/
structure TracedClient where
  tracingEnabled : Bool
  redactedQueryParams : List String
  redactedHeaders : List String
  redactedJsonBodyFields : List String
deriving DecidableEq, Repr

def TracedClient.build (tracingEnabled : Bool) (customQueryParams customHeaders
    customJsonBodyFields : List String) : TracedClient where
  tracingEnabled
  redactedQueryParams := mergeRedactionNames defaultRedactedQueryParams customQueryParams
  redactedHeaders := mergeRedactionNames defaultRedactedHeaders customHeaders
  redactedJsonBodyFields := mergeRedactionNames [] customJsonBodyFields

def TracedClient.buildAsync (tracingEnabled : Bool) (jsonBodyFields : List String) : TracedClient :=
  .build tracingEnabled [] [] jsonBodyFields

def TracedClient.buildBlocking (tracingEnabled : Bool) (queryParams headers : List String) :
    TracedClient :=
  .build tracingEnabled queryParams headers []

structure Request where
  method : String
  url : String
  headers : List (String × String)
  body : Option ByteArray
  timestamp : ℤ

/-- A response before its body is read. A header value may be no text. -/
structure Response where
  status : ℕ
  canonicalReason : Option String
  url : String
  headers : List (String × Option String)
  timestamp : ℤ

inductive Answer where
  | sendFailed (error : ReqwestError) (timestamp : ℤ)
  | responded (response : Response) (body : Except ReqwestError ByteArray)

structure TracedResponse where
  status : ℕ
  body : ByteArray
  url : String

def collectHeaders (headers : List (String × Option String)) : List (String × String) :=
  headers.map fun (name, value) => (name, value.getD "[non-utf8]")

def statusText (response : Response) : String :=
  response.canonicalReason.getD "Unknown"

namespace TracedClient

variable (libraries : TraceLibraries) (client : TracedClient)

def sendFailureInput (request : Request) (error : ReqwestError) (timestamp : ℤ) :
    HarDocumentInput where
  reqTimestamp := request.timestamp
  reqMethod := request.method
  reqUrl := redactUrl request.url client.redactedQueryParams
  reqHeaders := redactHeaders request.headers client.redactedHeaders
  reqBody := request.body.map (redactJsonBody libraries · client.redactedJsonBodyFields)
  rspTimestamp := timestamp
  rspStatus := 0
  rspStatusText := "No Response"
  rspHeaders := []
  rspBody := none
  failure := some (traceFailure .sendFailed error)

def responseInput (request : Request) (response : Response) (rspBody : Option ByteArray)
    (failure : Option TraceFailureMetadata) : HarDocumentInput where
  reqTimestamp := request.timestamp
  reqMethod := request.method
  reqUrl := redactUrl request.url client.redactedQueryParams
  reqHeaders := redactHeaders request.headers client.redactedHeaders
  reqBody := request.body.map (redactJsonBody libraries · client.redactedJsonBodyFields)
  rspTimestamp := response.timestamp
  rspStatus := response.status
  rspStatusText := statusText response
  rspHeaders := redactHeaders (collectHeaders response.headers) client.redactedHeaders
  rspBody
  failure

/-- `send`, with the answer it gets: the document that is written, and what the caller gets. -/
def send (request : Request) (answer : Answer) :
    Option HarDocument × Except ReqwestError TracedResponse :=
  let result :=
    match answer with
    | .sendFailed error _ => .error error
    | .responded _ (.error error) => .error error
    | .responded response (.ok body) =>
      .ok ⟨response.status, body, redactUrl response.url client.redactedQueryParams⟩
  if client.tracingEnabled then
    let input :=
      match answer with
      | .sendFailed error timestamp => client.sendFailureInput libraries request error timestamp
      | .responded response (.error error) =>
        client.responseInput libraries request response none
          (some (traceFailure .responseBodyReadFailed error))
      | .responded response (.ok body) =>
        client.responseInput libraries request response
          (redactedBodyOption libraries body client.redactedJsonBodyFields) none
    (some (buildHarDocument libraries input), result)
  else (none, result)

end TracedClient

end Bitgarth.Traces

import Bitgarth.Foundation.Base128
import Bitgarth.Foundation.Outcomes

/-! # The hand-written protobuf decoder

`ProtoDecoder` walks over the bytes of a message that the device sent. Positions and lengths are
64-bit `usize` values, whose additions panic on overflow in a debug build and wrap in a release
build. Each decoder keeps the positions it held, so that a statement about every step can name
them (`Bitgarth.Trezor.ProtoDecoder.Forward`).
-/

namespace Bitgarth.Trezor

open Outcomes

/-- How the crate is compiled, as far as arithmetic depends on it. -/
inductive Build
  | debug
  | release
  deriving DecidableEq

/-- The details that `TrezorError::protocol_error` is made with. -/
inductive ProtocolError
  | unexpectedEndOfVarint
  | varintTooLong
  | unsupportedWireType (other : UInt64)
  | fieldBeyondData
  | stringBeyondData
  | invalidUtf8 (bytes : List UInt8)
  | unknownScriptType (raw : UInt32)
  | missingXpub
  | messageTooShort (length : ℕ)
  | unknownMessageType (raw : UInt16)
  | messageTruncated (expected got : ℕ)
  deriving DecidableEq

/-- The text of an error; `utf8Error` is the standard library's text for bytes that are not
UTF-8. -/
def ProtocolError.text (utf8Error : List UInt8 → String) : ProtocolError → String
  | .unexpectedEndOfVarint => "Unexpected end of varint"
  | .varintTooLong => "Varint too long"
  | .unsupportedWireType other => "Unsupported wire type: " ++ toString other
  | .fieldBeyondData => "Length-delimited field extends beyond data"
  | .stringBeyondData => "String extends beyond data"
  | .invalidUtf8 bytes => "Invalid UTF-8: " ++ utf8Error bytes
  | .unknownScriptType raw => "Unknown script type: " ++ toString raw
  | .missingXpub => "Missing xpub in PublicKey response"
  | .messageTooShort length => "Message too short: " ++ toString length ++ " bytes"
  | .unknownMessageType raw => "Unknown message type: " ++ toString raw
  | .messageTruncated expected got =>
    "Message truncated: expected " ++ toString expected ++ " payload bytes, got " ++ toString got

/-- How a computation ends without a value. -/
inductive Halt
  | error (details : ProtocolError)
  | panicked
  deriving DecidableEq

/-- A byte slice; none is longer than `isize::MAX`. -/
structure Slice where
  bytes : List UInt8
  fits : bytes.length < 2 ^ 63

/-- `ProtoDecoder`. The positions it held before, latest first, are not in the source. -/
structure ProtoDecoder (data : Slice) where
  pos : ℕ
  passed : List ℕ

/-- `ProtoDecoder::new`. -/
def ProtoDecoder.new (data : Slice) : ProtoDecoder data := { pos := 0, passed := [] }

/-- A method of the decoder: it ends with a value or halts, and leaves a decoder in both cases. -/
abbrev Decoding (data : Slice) := EStateM Halt (ProtoDecoder data)

variable {data : Slice}

/-- `left + right` on `usize`. -/
def addUsize (build : Build) (left right : ℕ) : Decoding data ℕ :=
  if left + right < 2 ^ 64 then pure (left + right)
  else
    match build with
    | .debug => throw .panicked
    | .release => pure ((left + right) % 2 ^ 64)

/-- `left - right` on `usize`. -/
def subUsize (build : Build) (left right : ℕ) : Decoding data ℕ :=
  if right ≤ left then pure (left - right)
  else
    match build with
    | .debug => throw .panicked
    | .release => pure (left + 2 ^ 64 - right)

/-- `self.data[start..stop]`. -/
def sliceOf (start stop : ℕ) : Decoding data (List UInt8) :=
  if start ≤ stop ∧ stop ≤ data.bytes.length then pure ((data.bytes.drop start).take (stop - start))
  else throw .panicked

/-- `self.pos = next`. -/
def moveTo (next : ℕ) : Decoding data Unit :=
  modify fun decoder => { pos := next, passed := decoder.pos :: decoder.passed }

/-- `remaining`. -/
def remaining (build : Build) : Decoding data ℕ := do
  subUsize build data.bytes.length (← get).pos

/-- The loop of `decode_varint`. -/
def varintLoop (build : Build) (result : UInt64) (shift : ℕ) : Decoding data UInt64 := do
  let pos := (← get).pos
  match data.bytes[pos]? with
  | none => throw (.error .unexpectedEndOfVarint)
  | some byte =>
    moveTo (← addUsize build pos 1)
    let next := result ||| ((byte &&& 0x7F).toUInt64 <<< UInt64.ofNat shift)
    if byte &&& 0x80 = 0 then pure next
    else if _tooLong : 63 < shift + 7 then throw (.error .varintTooLong)
    else varintLoop build next (shift + 7)
termination_by 64 - shift

/-- `decode_varint`. -/
def decodeVarint (build : Build) : Decoding data UInt64 := varintLoop build 0 0

/-- `WireType`. -/
inductive WireType
  | varint
  | lengthDelimited
  deriving DecidableEq

/-- The field number in a tag, cut to 32 bits. -/
def tagNumber (tag : UInt64) : UInt32 := (tag >>> 3).toUInt32

/-- The wire type in a tag. -/
def tagWireType (tag : UInt64) : Except ProtocolError WireType :=
  if tag &&& 0x07 = 0 then .ok .varint
  else if tag &&& 0x07 = 2 then .ok .lengthDelimited
  else .error (.unsupportedWireType (tag &&& 0x07))

/-- What `?` does with an error. -/
def orHalt {α : Type} : Except ProtocolError α → Decoding data α
  | .ok value => pure value
  | .error details => throw (.error details)

/-- `decode_tag`. -/
def decodeTag (build : Build) : Decoding data (Option (UInt32 × WireType)) := do
  if data.bytes.length ≤ (← get).pos then pure none
  else
    let tag ← decodeVarint build
    let wireType ← orHalt (tagWireType tag)
    pure (some (tagNumber tag, wireType))

/-- `skip_field`. -/
def skipField (build : Build) : WireType → Decoding data Unit
  | .varint => do
      let _ ← decodeVarint build
  | .lengthDelimited => do
      let len := (← decodeVarint build).toNat
      let pos := (← get).pos
      let stop ← addUsize build pos len
      if data.bytes.length < stop then throw (.error .fieldBeyondData)
      else moveTo stop

/-- `String::from_utf8`. -/
def fromUtf8 (bytes : List UInt8) : Except ProtocolError String :=
  match String.fromUTF8? ⟨bytes.toArray⟩ with
  | some text => .ok text
  | none => .error (.invalidUtf8 bytes)

/-- `decode_string`. -/
def decodeString (build : Build) : Decoding data String := do
  let len := (← decodeVarint build).toNat
  let pos := (← get).pos
  let stop ← addUsize build pos len
  if data.bytes.length < stop then throw (.error .stringBeyondData)
  else
    let text ← orHalt (fromUtf8 (← sliceOf pos stop))
    moveTo stop
    pure text

/-- `decode_uint32`: the low 32 bits. -/
def decodeUint32 (build : Build) : Decoding data UInt32 := do
  pure (← decodeVarint build).toUInt32

/-- What a message's decoder does with a field number. -/
inductive FieldReading (Message : Type)
  | uint32 (store : UInt32 → Message → Except ProtocolError Message)
  | string (store : String → Message → Message)
  | skipped

variable {Message : Type}

/-- One arm of the `match` on the field number. Only a skipped field is read by its wire type. -/
def decodeField (build : Build) (fields : UInt32 → FieldReading Message) (number : UInt32)
    (wireType : WireType) (message : Message) : Decoding data Message :=
  match fields number with
  | .uint32 store => do
      let value ← decodeUint32 build
      orHalt (store value message)
  | .string store => do
      let text ← decodeString build
      pure (store text message)
  | .skipped => do
      skipField build wireType
      pure message

/-- The `while` loop that the message decoders share, for a number of turns; `none` when they do
not suffice. -/
def decodeFields (build : Build) (fields : UInt32 → FieldReading Message) :
    ℕ → Message → Decoding data (Option Message)
  | 0, _ => pure none
  | turns + 1, message => do
      if (← remaining build) = 0 then pure (some message)
      else
        match ← decodeTag build with
        | none => pure (some message)
        | some (number, wireType) =>
          let next ← decodeField build fields number wireType message
          decodeFields build fields turns next

end Bitgarth.Trezor

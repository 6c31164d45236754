import Bitgarth.Trezor.Wire

/-! # The messages exchanged with a Trezor device

The bridge frames each message with its type and the length of its payload. Replies are decoded
field by field; requests are encoded with the writer of the same wire format.
-/

namespace Bitgarth.Trezor

variable {data : Slice}

/-! ## Framing -/

/-- `MessageType`; the first is `Initialize`, which opens a device session. -/
inductive MessageType
  | initializeSession
  | failure
  | getPublicKey
  | publicKey
  | features
  | pinMatrixRequest
  | pinMatrixAck
  | buttonRequest
  | buttonAck
  | passphraseRequest
  | passphraseAck
  deriving DecidableEq

/-- The discriminant of a message type. -/
def MessageType.toU16 : MessageType → UInt16
  | .initializeSession => 0
  | .failure => 3
  | .getPublicKey => 11
  | .publicKey => 12
  | .features => 17
  | .pinMatrixRequest => 18
  | .pinMatrixAck => 19
  | .buttonRequest => 26
  | .buttonAck => 27
  | .passphraseRequest => 41
  | .passphraseAck => 42

/-- `MessageType::from_u16`. -/
def MessageType.fromU16 (value : UInt16) : Option MessageType :=
  match value.toNat with
  | 0 => some .initializeSession
  | 3 => some .failure
  | 11 => some .getPublicKey
  | 12 => some .publicKey
  | 17 => some .features
  | 18 => some .pinMatrixRequest
  | 19 => some .pinMatrixAck
  | 26 => some .buttonRequest
  | 27 => some .buttonAck
  | 41 => some .passphraseRequest
  | 42 => some .passphraseAck
  | _ => none

/-- `encode_message`. -/
def encodeMessage (msgType : MessageType) (payload : List UInt8) : List UInt8 :=
  let typeId := msgType.toU16.toNat
  let length := payload.length % 2 ^ 32
  [UInt8.ofNat (typeId / 2 ^ 8), UInt8.ofNat typeId] ++
    [UInt8.ofNat (length / 2 ^ 24), UInt8.ofNat (length / 2 ^ 16), UInt8.ofNat (length / 2 ^ 8),
      UInt8.ofNat length] ++ payload

/-- `data[index]`. -/
def byteAt (index : ℕ) : Decoding data ℕ :=
  match data.bytes[index]? with
  | some byte => pure byte.toNat
  | none => throw .panicked

/-- `decode_message`. -/
def decodeMessage (build : Build) : Decoding data (MessageType × List UInt8) := do
  if data.bytes.length < 6 then throw (.error (.messageTooShort data.bytes.length))
  else
    let raw := UInt16.ofNat (2 ^ 8 * (← byteAt 0) + (← byteAt 1))
    match MessageType.fromU16 raw with
    | none => throw (.error (.unknownMessageType raw))
    | some msgType =>
      let payloadLen :=
        2 ^ 24 * (← byteAt 2) + 2 ^ 16 * (← byteAt 3) + 2 ^ 8 * (← byteAt 4) + (← byteAt 5)
      let stop ← addUsize build 6 payloadLen
      if data.bytes.length < stop then
        throw (.error (.messageTruncated payloadLen (← subUsize build data.bytes.length 6)))
      else
        let payload ← sliceOf 6 stop
        pure (msgType, payload)

/-! ## Replies -/

/-- A decoder of a reply: its loop for a number of turns, then its last check; `none` when the
turns do not suffice. -/
def decodeWith {Fields Reply : Type} (build : Build) (fields : UInt32 → FieldReading Fields)
    (start : Fields) (finish : Fields → Except ProtocolError Reply) (turns : ℕ) :
    Decoding data (Option Reply) := do
  match ← decodeFields build fields turns start with
  | none => pure none
  | some message =>
    let reply ← orHalt (finish message)
    pure (some reply)

/-- `PublicKeyResponse`. -/
structure PublicKeyResponse where
  xpub : String
  rootFingerprint : Option UInt32
  deriving DecidableEq

namespace PublicKeyResponse

/-- The arms of `PublicKeyResponse::decode`. -/
def fields (number : UInt32) : FieldReading PublicKeyResponse :=
  match number.toNat with
  | 1 => .skipped
  | 2 => .string fun text message => { message with xpub := text }
  | 3 => .uint32 fun value message => .ok { message with rootFingerprint := some value }
  | _ => .skipped

/-- What the decoder starts from. -/
def start : PublicKeyResponse := { xpub := "", rootFingerprint := none }

/-- The check after the loop. -/
def finish (message : PublicKeyResponse) : Except ProtocolError PublicKeyResponse :=
  if message.xpub = "" then .error .missingXpub else .ok message

/-- `PublicKeyResponse::decode`. -/
def decode (build : Build) (data : Slice) (turns : ℕ) :
    EStateM.Result Halt (ProtoDecoder data) (Option PublicKeyResponse) :=
  decodeWith build fields start finish turns (.new data)

end PublicKeyResponse

/-- `FailureResponse`. -/
structure FailureResponse where
  code : Option UInt32
  message : String
  deriving DecidableEq

namespace FailureResponse

/-- The arms of `FailureResponse::decode`. -/
def fields (number : UInt32) : FieldReading FailureResponse :=
  match number.toNat with
  | 1 => .uint32 fun value response => .ok { response with code := some value }
  | 2 => .string fun text response => { response with message := text }
  | _ => .skipped

/-- What the decoder starts from. -/
def start : FailureResponse := { code := none, message := "" }

/-- `FailureResponse::decode`. -/
def decode (build : Build) (data : Slice) (turns : ℕ) :
    EStateM.Result Halt (ProtoDecoder data) (Option FailureResponse) :=
  decodeWith build fields start .ok turns (.new data)

end FailureResponse

namespace ButtonRequestMessage

/-- The arms of `ButtonRequestMessage::decode`: nothing is kept. -/
def fields (number : UInt32) : FieldReading Unit :=
  match number.toNat with
  | 1 => .uint32 fun _ _ => .ok ()
  | _ => .skipped

/-- `ButtonRequestMessage::decode`. -/
def decode (build : Build) (data : Slice) (turns : ℕ) :
    EStateM.Result Halt (ProtoDecoder data) (Option Unit) :=
  decodeWith build fields () .ok turns (.new data)

end ButtonRequestMessage

/-! ## Requests -/

/-- `encode_varint`. -/
def encodeVarint (value : UInt64) : List UInt8 :=
  let byte := (value &&& 0x7F).toUInt8
  if _done : value >>> 7 = 0 then [byte] else (byte ||| 0x80) :: encodeVarint (value >>> 7)
termination_by value.toNat
decreasing_by
  have bound : (value >>> 7).toNat = value.toNat / 128 := by
    rw [UInt64.toNat_shiftRight]
    exact Nat.shiftRight_eq_div_pow _ 7
  have positive : (value >>> 7).toNat ≠ 0 := fun zero => _done (UInt64.toNat_inj.mp zero)
  omega

/-- The value that `WireType` has on the wire. -/
def WireType.code : WireType → UInt64
  | .varint => 0
  | .lengthDelimited => 2

/-- `encode_tag`. -/
def encodeTag (fieldNumber : UInt32) (wireType : WireType) : List UInt8 :=
  encodeVarint ((fieldNumber.toUInt64 <<< 3) ||| wireType.code)

/-- `encode_uint32`. -/
def encodeUint32 (fieldNumber : UInt32) (value : UInt32) : List UInt8 :=
  encodeTag fieldNumber .varint ++ encodeVarint value.toUInt64

/-- `encode_repeated_uint32`. -/
def encodeRepeatedUint32 (fieldNumber : UInt32) (values : List UInt32) : List UInt8 :=
  values.flatMap fun value => encodeTag fieldNumber .varint ++ encodeVarint value.toUInt64

/-- The bytes of a string. -/
def utf8Bytes (text : String) : List UInt8 := text.toUTF8.data.toList

/-- `encode_string`. -/
def encodeString (fieldNumber : UInt32) (value : String) : List UInt8 :=
  encodeTag fieldNumber .lengthDelimited ++ encodeVarint (UInt64.ofNat (utf8Bytes value).length) ++
    utf8Bytes value

/-- `encode_bool`. -/
def encodeBool (fieldNumber : UInt32) (value : Bool) : List UInt8 :=
  encodeTag fieldNumber .varint ++ encodeVarint (if value then 1 else 0)

/-- `InputScriptType`. -/
inductive InputScriptType
  | spendAddress
  | spendWitness
  | spendP2shWitness
  | spendTaproot
  deriving DecidableEq

/-- The discriminant of a script type. -/
def InputScriptType.toU32 : InputScriptType → UInt32
  | .spendAddress => 0
  | .spendWitness => 3
  | .spendP2shWitness => 4
  | .spendTaproot => 5

/-- `InputScriptType::from_u32`. -/
def InputScriptType.fromU32 (value : UInt32) : Option InputScriptType :=
  match value.toNat with
  | 0 => some .spendAddress
  | 3 => some .spendWitness
  | 4 => some .spendP2shWitness
  | 5 => some .spendTaproot
  | _ => none

/-- `GetPublicKeyRequest`. -/
structure GetPublicKeyRequest where
  addressN : List UInt32
  coinName : Option String
  showDisplay : Bool
  scriptType : Option InputScriptType
  deriving DecidableEq

namespace GetPublicKeyRequest

/-- `GetPublicKeyRequest::encode`. -/
def encode (request : GetPublicKeyRequest) : List UInt8 :=
  encodeRepeatedUint32 1 request.addressN ++
    (if request.showDisplay then encodeBool 3 true else []) ++
    request.coinName.elim [] (encodeString 4) ++
    request.scriptType.elim [] fun scriptType => encodeUint32 5 scriptType.toU32

/-- The arms of `GetPublicKeyRequest::decode`. -/
def fields (number : UInt32) : FieldReading GetPublicKeyRequest :=
  match number.toNat with
  | 1 => .uint32 fun value request => .ok { request with addressN := request.addressN ++ [value] }
  | 3 => .uint32 fun value request => .ok { request with showDisplay := value != 0 }
  | 4 => .string fun text request => { request with coinName := some text }
  | 5 => .uint32 fun raw request =>
    match InputScriptType.fromU32 raw with
    | some scriptType => .ok { request with scriptType := some scriptType }
    | none => .error (.unknownScriptType raw)
  | _ => .skipped

/-- What the decoder starts from. -/
def start : GetPublicKeyRequest :=
  { addressN := [], coinName := none, showDisplay := false, scriptType := none }

/-- `GetPublicKeyRequest::decode`. -/
def decode (build : Build) (data : Slice) (turns : ℕ) :
    EStateM.Result Halt (ProtoDecoder data) (Option GetPublicKeyRequest) :=
  decodeWith build fields start .ok turns (.new data)

end GetPublicKeyRequest

end Bitgarth.Trezor

import Bitgarth.Trezor.Totality

/-! # Messages survive the wire

Unframing undoes framing, the reader of the wire format gives an encoded request back, and a reply
is read to what its last fields say, in whatever order the fields come
(`Bitgarth.Trezor.messages_roundTrip`).
-/

namespace Bitgarth.Trezor

open Outcomes ProtoDecoder

section WireFormat

variable {data : Slice} {build : Build} {Message Reply : Type}
  {fields : UInt32 → FieldReading Message} {message : Message}

/-! ## Runs that end -/

/-- A decoder ends with a value, for some number of turns and all larger ones. -/
def Decodes {α : Type} (run : ℕ → EStateM.Result Halt (ProtoDecoder data) (Option α)) (value : α) :
    Prop :=
  ∃ turns after, ∀ extra, run (turns + extra) = .ok (some value) after

/-- A decoder ends with an error, for some number of turns and all larger ones. -/
def Fails {α : Type} (run : ℕ → EStateM.Result Halt (ProtoDecoder data) (Option α))
    (details : ProtocolError) : Prop :=
  ∃ turns after, ∀ extra, run (turns + extra) = .error (.error details) after

theorem decodeFields_end_of_wholeFields {count : ℕ} {next : Message}
    (whole : WholeFields fields count data.bytes message next) :
    ∃ after, ∀ extra,
      decodeFields build fields (1 + count + extra) message (.new data) = .ok (some next)
        after := by
  have split : (ProtoDecoder.new data).unread = data.bytes ++ [] := (List.append_nil _).symm
  obtain ⟨after, reads, same⟩ :=
    @decodeFields_wholeFields _ build _ _ _ _ _ _ _ _ (forward_new data) split whole
  refine ⟨after, fun extra => ?_⟩
  rw [show 1 + count + extra = extra + 1 + count by omega, same]
  exact decodeFields_end extra reads.forward (reads.unread split)

variable {finish : Message → Except ProtocolError Reply}

theorem decodes_of_wholeFields {count : ℕ} {next : Message} {reply : Reply}
    (whole : WholeFields fields count data.bytes message next)
    (finished : finish next = .ok reply) :
    Decodes (fun turns => decodeWith build fields message finish turns (.new data)) reply := by
  obtain ⟨after, ran⟩ := @decodeFields_end_of_wholeFields _ build _ _ _ _ _ whole
  refine ⟨1 + count, after, fun extra => ?_⟩
  change decodeWith build fields message finish _ _ = _
  rw [decodeWith_eq, ran]
  simp only [finished]

theorem fails_of_wholeFields {count : ℕ} {next : Message} {details : ProtocolError}
    (whole : WholeFields fields count data.bytes message next)
    (failed : finish next = .error details) :
    Fails (fun turns => decodeWith build fields message finish turns (.new data)) details := by
  obtain ⟨after, ran⟩ := @decodeFields_end_of_wholeFields _ build _ _ _ _ _ whole
  refine ⟨1 + count, after, fun extra => ?_⟩
  change decodeWith build fields message finish _ _ = _
  rw [decodeWith_eq, ran]
  simp only [failed]

theorem WholeFields.append {first second : ℕ} {read more : List UInt8} {next last : Message}
    (whole : WholeFields fields first read message next)
    (goesOn : WholeFields fields second more next last) :
    WholeFields fields (second + first) (read ++ more) message last := by
  induction whole with
  | nil => exact goesOn
  | cons field _ ih =>
    rw [List.append_assoc, ← Nat.add_assoc]
    exact .cons field (ih goesOn)

theorem WholeField.toWholeFields {field : List UInt8} {next : Message}
    (whole : WholeField fields field message next) : WholeFields fields 1 field message next := by
  have single := WholeFields.cons whole .nil
  rwa [List.append_nil] at single

/-! ## Fields on the wire -/

/-- A field of the wire format. -/
inductive WireField
  | varint (number : UInt32) (value : UInt64)
  | bytes (number : UInt32) (payload : List UInt8)

/-- The bytes of a field; a number need not be in its shortest form. -/
def WireField.Written : WireField → List UInt8 → Prop
  | .varint number value, written =>
    ∃ tag body, written = tag ++ body ∧ IsVarint tag ∧ IsVarint body ∧
      Base128.value tag = 8 * number.toNat ∧ Base128.value body = value.toNat
  | .bytes number payload, written =>
    ∃ tag len, written = tag ++ (len ++ payload) ∧ IsVarint tag ∧ IsVarint len ∧
      Base128.value tag = 8 * number.toNat + 2 ∧ Base128.value len = payload.length

theorem tagNumber_varintValue {tag : List UInt8} {number : UInt32} {code : ℕ} (small : code < 8)
    (made : Base128.value tag = 8 * number.toNat + code) :
    tagNumber (varintValue tag) = number := by
  have bound := number.toNat_lt
  have value : (varintValue tag).toNat = 8 * number.toNat + code := by
    rw [varintValue, UInt64.toNat_ofNat', made]
    omega
  rw [← UInt32.toNat_inj, tagNumber, UInt64.toNat_toUInt32, UInt64.toNat_shiftRight, value]
  simp only [UInt64.toNat_ofNat, Nat.reducePow, Nat.reduceMod, Nat.shiftRight_eq_div_pow]
  omega

theorem and_7_eq_iff {tag code : UInt64} :
    tag &&& 7 = code ↔ tag.toNat % 8 = code.toNat := by
  rw [← UInt64.toNat_inj, UInt64.toNat_and]
  have low : tag.toNat &&& 7 = tag.toNat % 8 := Nat.and_two_pow_sub_one_eq_mod tag.toNat 3
  change tag.toNat &&& 7 = _ ↔ _
  rw [low]

theorem tagWireType_varintValue {tag : List UInt8} {number : UInt32} {wireType : WireType}
    (made : Base128.value tag = 8 * number.toNat + wireType.code.toNat) :
    tagWireType (varintValue tag) = .ok wireType := by
  have bound := number.toNat_lt
  have small : wireType.code.toNat < 8 := by cases wireType <;> decide
  have value : (varintValue tag).toNat = 8 * number.toNat + wireType.code.toNat := by
    rw [varintValue, UInt64.toNat_ofNat', made]
    omega
  have code : varintValue tag &&& 7 = wireType.code := by
    rw [and_7_eq_iff, value]
    omega
  unfold tagWireType
  rw [code]
  cases wireType <;> rfl

/-- The number of a field. -/
def WireField.number : WireField → UInt32
  | .varint number _ | .bytes number _ => number

theorem varintValue_of_value {bytes : List UInt8} {value : UInt64}
    (made : Base128.value bytes = value.toNat) : varintValue bytes = value := by
  rw [varintValue, made, UInt64.ofNat_toNat]

theorem toNat_varintValue {bytes : List UInt8} {value : ℕ} (fits : value < 2 ^ 64)
    (made : Base128.value bytes = value) : (varintValue bytes).toNat = value := by
  rw [varintValue, UInt64.toNat_ofNat', made]
  exact Nat.mod_eq_of_lt fits

theorem wholeField_uint32 {number : UInt32} {value : UInt64} {written : List UInt8} {next : Message}
    {store : UInt32 → Message → Except ProtocolError Message}
    (field : (WireField.varint number value).Written written)
    (reading : fields number = .uint32 store) (stored : store value.toUInt32 message = .ok next) :
    WholeField fields written message next := by
  obtain ⟨tag, body, rfl, isTag, isBody, tagMade, bodyMade⟩ := field
  have numbered := @tagNumber_varintValue _ _ 0 (by decide) tagMade
  refine .uint32 isTag (@tagWireType_varintValue _ _ .varint tagMade) (numbered ▸ reading) isBody ?_
  rw [varintValue_of_value bodyMade]
  exact stored

theorem wholeField_string {number : UInt32} {payload written : List UInt8} {text : String}
    {store : String → Message → Message} (field : (WireField.bytes number payload).Written written)
    (fits : written.length < 2 ^ 64) (reading : fields number = .string store)
    (valid : fromUtf8 payload = .ok text) :
    WholeField fields written message (store text message) := by
  obtain ⟨tag, len, rfl, isTag, isLen, tagMade, lenMade⟩ := field
  have numbered := @tagNumber_varintValue _ _ 2 (by decide) tagMade
  rw [List.length_append, List.length_append] at fits
  exact .string isTag (@tagWireType_varintValue _ _ .lengthDelimited tagMade) (numbered ▸ reading)
    isLen (toNat_varintValue (by omega) lenMade).symm valid

theorem wholeField_skipped {field : WireField} {written : List UInt8}
    (isField : field.Written written)
    (fits : written.length < 2 ^ 64) (reading : fields field.number = .skipped) :
    WholeField fields written message message := by
  cases field with
  | varint number value =>
    obtain ⟨tag, body, rfl, isTag, isBody, tagMade, -⟩ := isField
    have numbered := @tagNumber_varintValue _ _ 0 (by decide) tagMade
    exact .skippedVarint isTag (@tagWireType_varintValue _ _ .varint tagMade)
      (numbered ▸ reading) isBody
  | bytes number payload =>
    obtain ⟨tag, len, rfl, isTag, isLen, tagMade, lenMade⟩ := isField
    have numbered := @tagNumber_varintValue _ _ 2 (by decide) tagMade
    rw [List.length_append, List.length_append] at fits
    exact .skippedBytes isTag (@tagWireType_varintValue _ _ .lengthDelimited tagMade)
      (numbered ▸ reading) isLen (toNat_varintValue (by omega) lenMade).symm

/-! ## The writer -/

theorem toNat_shiftRight_7 (value : UInt64) : (value >>> 7).toNat = value.toNat / 128 := by
  rw [UInt64.toNat_shiftRight]
  exact Nat.shiftRight_eq_div_pow _ 7

theorem encodeVarint_eq (value : UInt64) : encodeVarint value = Base128.encode value.toNat := by
  induction size : value.toNat using Nat.strongRecOn generalizing value with
  | ind size ih =>
    have low : ((value &&& 0x7F).toUInt8).toNat = value.toNat % 128 := by
      rw [UInt64.toNat_toUInt8, UInt64.toNat_and]
      have cut : value.toNat &&& 127 = value.toNat % 128 :=
        Nat.and_two_pow_sub_one_eq_mod value.toNat 7
      change (value.toNat &&& 127) % 256 = _
      rw [cut]
      omega
    have rest : value >>> 7 = 0 ↔ value.toNat < 128 := by
      rw [← UInt64.toNat_inj, toNat_shiftRight_7]
      change value.toNat / 128 = 0 ↔ _
      omega
    rw [encodeVarint]
    by_cases small : value.toNat < 128
    · rw [dif_pos (rest.mpr small), ← size, Base128.encode_of_lt small]
      congr 1
      rw [← UInt8.toNat_inj, low, Base128.toNat_ofNat_of_lt (by omega)]
      exact Nat.mod_eq_of_lt small
    · rw [dif_neg (fun zero => small (rest.mp zero)), ← size, Base128.encode_of_le (by omega),
        ih (value.toNat / 128) (by omega) (value >>> 7) (toNat_shiftRight_7 value)]
      congr 1
      rw [← UInt8.toNat_inj, UInt8.toNat_or, low, Base128.toNat_ofNat_of_lt (by omega),
        Nat.or_comm]
      have joined := Nat.two_pow_add_eq_or_of_lt
        (show value.toNat % 128 < 2 ^ 7 from Nat.mod_lt _ (by decide)) 1
      rw [Nat.mul_one] at joined
      rw [Nat.add_comm]
      exact joined.symm

theorem isVarint_encodeVarint (value : UInt64) : IsVarint (encodeVarint value) := by
  rw [encodeVarint_eq]
  refine ⟨Base128.isNumber_encode _, Base128.length_encode_le ?_⟩
  exact value.toNat_lt.trans (by decide)

theorem value_encodeVarint (value : UInt64) : Base128.value (encodeVarint value) = value.toNat := by
  rw [encodeVarint_eq, Base128.value_encode]

theorem value_encodeTag (number : UInt32) (wireType : WireType) :
    Base128.value (encodeTag number wireType) = 8 * number.toNat + wireType.code.toNat := by
  have bound := number.toNat_lt
  have small : wireType.code.toNat < 2 ^ 3 := by cases wireType <;> decide
  have shifted : number.toUInt64.toNat <<< 3 % 2 ^ 64 = 2 ^ 3 * number.toNat := by
    rw [UInt32.toNat_toUInt64, Nat.shiftLeft_eq, Nat.mul_comm]
    exact Nat.mod_eq_of_lt (by omega)
  rw [encodeTag, value_encodeVarint, UInt64.toNat_or, UInt64.toNat_shiftLeft]
  change number.toUInt64.toNat <<< 3 % 2 ^ 64 ||| wireType.code.toNat = _
  rw [shifted, ← Nat.two_pow_add_eq_or_of_lt small]

theorem written_varint (number : UInt32) (value : UInt64) :
    (WireField.varint number value).Written (encodeTag number .varint ++ encodeVarint value) :=
  ⟨_, _, rfl, isVarint_encodeVarint _, isVarint_encodeVarint _, value_encodeTag number .varint,
    value_encodeVarint value⟩

theorem written_string {number : UInt32} {text : String}
    (fits : (utf8Bytes text).length < 2 ^ 64) :
    (WireField.bytes number (utf8Bytes text)).Written (encodeString number text) := by
  refine ⟨_, _, List.append_assoc _ _ _, isVarint_encodeVarint _, isVarint_encodeVarint _,
    value_encodeTag number .lengthDelimited, ?_⟩
  rw [value_encodeVarint, UInt64.toNat_ofNat']
  exact Nat.mod_eq_of_lt fits

theorem fromUtf8_utf8Bytes (text : String) : fromUtf8 (utf8Bytes text) = .ok text := by
  have back : String.fromUTF8? text.toUTF8 = some text := by
    have valid : text.toUTF8.IsValidUTF8 := text.isValidUTF8
    unfold String.fromUTF8?
    rw [dif_pos valid]
    rfl
  unfold fromUtf8 utf8Bytes
  rw [Array.toArray_toList, show (⟨text.toUTF8.data⟩ : ByteArray) = text.toUTF8 from rfl, back]

end WireFormat

/-! ## Requests -/

namespace GetPublicKeyRequest

variable {request : GetPublicKeyRequest}

theorem wholeFields_repeatedUint32 (values : List UInt32) :
    WholeFields fields values.length (encodeRepeatedUint32 1 values) request
      { request with addressN := request.addressN ++ values } := by
  induction values generalizing request with
  | nil =>
    rw [List.append_nil]
    exact .nil
  | cons value rest ih =>
    have first : WholeField fields (encodeTag 1 .varint ++ encodeVarint value.toUInt64) request
        { request with addressN := request.addressN ++ [value] } := by
      refine wholeField_uint32 (written_varint 1 value.toUInt64) rfl ?_
      rw [UInt32.toUInt32_toUInt64]
    have more := @ih { request with addressN := request.addressN ++ [value] }
    rw [List.append_assoc] at more
    exact .cons first more

theorem wholeField_bool :
    WholeField fields (encodeBool 3 true) request { request with showDisplay := true } :=
  wholeField_uint32 (written_varint 3 1) rfl rfl

theorem wholeField_coinName {coinName : String} (fits : (encodeString 4 coinName).length < 2 ^ 64) :
    WholeField fields (encodeString 4 coinName) request
      { request with coinName := some coinName } := by
  have payload : (utf8Bytes coinName).length < 2 ^ 64 := by
    rw [encodeString, List.length_append] at fits
    omega
  exact @wholeField_string _ fields request 4 _ _ _ _ (written_string payload) fits rfl
    (fromUtf8_utf8Bytes coinName)

theorem wholeField_scriptType (scriptType : InputScriptType) :
    WholeField fields (encodeUint32 5 scriptType.toU32) request
      { request with scriptType := some scriptType } := by
  refine wholeField_uint32 (written_varint 5 scriptType.toU32.toUInt64) rfl ?_
  rw [UInt32.toUInt32_toUInt64]
  cases scriptType <;> rfl

theorem wholeFields_encode (request : GetPublicKeyRequest) (fits : request.encode.length < 2 ^ 64) :
    ∃ count, WholeFields fields count request.encode start request := by
  obtain ⟨addressN, coinName, showDisplay, scriptType⟩ := request
  have address := @wholeFields_repeatedUint32 start addressN
  have display : ∃ count, WholeFields fields count
      (if showDisplay then encodeBool 3 true else []) { start with addressN }
      { start with addressN, showDisplay } := by
    cases showDisplay with
    | false => exact ⟨0, .nil⟩
    | true => exact ⟨1, wholeField_bool.toWholeFields⟩
  have coin : ∃ count, WholeFields fields count
      (coinName.elim [] (encodeString 4)) { start with addressN, showDisplay }
      { start with addressN, showDisplay, coinName } := by
    cases coinName with
    | none => exact ⟨0, .nil⟩
    | some coinName =>
      refine ⟨1, (wholeField_coinName ?_).toWholeFields⟩
      simp only [encode, Option.elim_some, List.length_append] at fits
      omega
  have script : ∃ count, WholeFields fields count
      (scriptType.elim [] fun scriptType => encodeUint32 5 scriptType.toU32)
      { start with addressN, showDisplay, coinName }
      { addressN, coinName, showDisplay, scriptType } := by
    cases scriptType with
    | none => exact ⟨0, .nil⟩
    | some scriptType => exact ⟨1, (wholeField_scriptType scriptType).toWholeFields⟩
  obtain ⟨displayed, display⟩ := display
  obtain ⟨coined, coin⟩ := coin
  obtain ⟨scripted, script⟩ := script
  exact ⟨_, ((address.append display).append coin).append script⟩

end GetPublicKeyRequest

/-! ## Frames -/

theorem fromU16_toU16 (msgType : MessageType) :
    MessageType.fromU16 msgType.toU16 = some msgType := by
  cases msgType <;> rfl

theorem decodeMessage_encodeMessage {build : Build} {framed : Slice} {msgType : MessageType}
    {payload : List UInt8} (short : payload.length < 2 ^ 32)
    (isFrame : framed.bytes = encodeMessage msgType payload) :
    decodeMessage build (.new framed) = .ok (msgType, payload) (.new framed) := by
  have bound := msgType.toU16.toNat_lt
  have raw : UInt16.ofNat (2 ^ 8 * (UInt8.ofNat (msgType.toU16.toNat / 2 ^ 8)).toNat +
      (UInt8.ofNat msgType.toU16.toNat).toNat) = msgType.toU16 := by
    rw [← UInt16.toNat_inj, UInt16.toNat_ofNat', UInt8.toNat_ofNat', UInt8.toNat_ofNat']
    omega
  have length : 2 ^ 24 * (UInt8.ofNat (payload.length % 2 ^ 32 / 2 ^ 24)).toNat +
      2 ^ 16 * (UInt8.ofNat (payload.length % 2 ^ 32 / 2 ^ 16)).toNat +
      2 ^ 8 * (UInt8.ofNat (payload.length % 2 ^ 32 / 2 ^ 8)).toNat +
      (UInt8.ofNat (payload.length % 2 ^ 32)).toNat = payload.length := by
    simp only [UInt8.toNat_ofNat']
    omega
  rw [@decodeMessage_cons _ _ _ _ _ _ _ _ _ payload isFrame]
  simp only [raw, length, fromU16_toU16]
  rw [if_neg (Nat.lt_irrefl _)]
  congr 1
  exact Prod.ext rfl (List.take_length)

/-! ## Replies -/

namespace PublicKeyResponse

/-- The xpub that a field carries. -/
def xpubOf : WireField → Option String
  | .bytes number payload => if number = 2 then (fromUtf8 payload).toOption else none
  | .varint _ _ => none

/-- The root fingerprint that a field carries: the low 32 bits of its value. -/
def fingerprintOf : WireField → Option UInt32
  | .varint number value => if number = 3 then some value.toUInt32 else none
  | .bytes _ _ => none

/-- Field 2 is a text and field 3 a number. -/
def WellTyped : WireField → Prop
  | .bytes number payload => number ≠ 3 ∧ (number = 2 → ∃ text, fromUtf8 payload = .ok text)
  | .varint number _ => number ≠ 2

/-- The message after a field. -/
def take (message : PublicKeyResponse) (field : WireField) : PublicKeyResponse where
  xpub := (xpubOf field).getD message.xpub
  rootFingerprint := (fingerprintOf field).or message.rootFingerprint

variable {message : PublicKeyResponse}

theorem fields_eq_skipped {number : UInt32} (notXpub : number ≠ 2) (notFingerprint : number ≠ 3) :
    fields number = .skipped := by
  unfold fields
  split
  · rfl
  · next two => exact absurd (UInt32.toNat_inj.mp two) notXpub
  · next three => exact absurd (UInt32.toNat_inj.mp three) notFingerprint
  · rfl

theorem wholeField_take {field : WireField} {written : List UInt8} (isField : field.Written written)
    (fits : written.length < 2 ^ 64) (typed : WellTyped field) :
    WholeField fields written message (take message field) := by
  cases field with
  | varint number value =>
    by_cases fingerprint : number = 3
    · subst fingerprint
      exact wholeField_uint32 isField rfl rfl
    · have same : take message (.varint number value) = message := by
        simp only [take, xpubOf, fingerprintOf, if_neg fingerprint, Option.getD_none,
          Option.none_or]
      rw [same]
      exact wholeField_skipped isField fits (fields_eq_skipped typed fingerprint)
  | bytes number payload =>
    by_cases xpub : number = 2
    · subst xpub
      obtain ⟨text, valid⟩ := typed.2 rfl
      have next : take message (.bytes 2 payload) = { message with xpub := text } := by
        simp only [take, xpubOf, fingerprintOf, if_true, valid, Except.toOption, Option.getD_some,
          Option.none_or]
      rw [next]
      exact @wholeField_string _ fields message 2 _ _ _ _ isField fits rfl valid
    · have same : take message (.bytes number payload) = message := by
        simp only [take, xpubOf, fingerprintOf, if_neg xpub, Option.getD_none, Option.none_or]
      rw [same]
      exact wholeField_skipped isField fits (fields_eq_skipped xpub typed.1)

theorem wholeFields_foldl {wire : List WireField} {parts : List (List UInt8)}
    (written : List.Forall₂ WireField.Written wire parts) (fits : parts.flatten.length < 2 ^ 64)
    (typed : ∀ field ∈ wire, WellTyped field) :
    WholeFields fields wire.length parts.flatten message (wire.foldl take message) := by
  induction written generalizing message with
  | nil => exact .nil
  | cons isField _ ih =>
    rw [List.flatten_cons, List.length_append] at fits
    rw [List.flatten_cons, List.foldl_cons]
    exact .cons (wholeField_take isField (by omega) (typed _ List.mem_cons_self))
      (ih (by omega) fun field member => typed field (List.mem_cons_of_mem _ member))

/-- The xpub of the last field that carries one. -/
def lastXpub (wire : List WireField) : String := (wire.filterMap xpubOf).getLast?.getD ""

/-- The fingerprint of the last field that carries one. -/
def lastFingerprint (wire : List WireField) : Option UInt32 :=
  (wire.filterMap fingerprintOf).getLast?

theorem foldl_take (wire : List WireField) :
    wire.foldl take message =
      { xpub := (wire.filterMap xpubOf).getLast?.getD message.xpub
        rootFingerprint :=
          (wire.filterMap fingerprintOf).getLast?.or message.rootFingerprint } := by
  induction wire generalizing message with
  | nil => rfl
  | cons field rest ih =>
    rw [List.foldl_cons, ih, take]
    congr 1
    · cases carried : xpubOf field with
      | none => rw [List.filterMap_cons_none carried, Option.getD_none]
      | some xpub =>
        rw [List.filterMap_cons_some carried, List.getLast?_cons, Option.getD_some,
          Option.getD_some]
    · cases carried : fingerprintOf field with
      | none => rw [List.filterMap_cons_none carried, Option.none_or]
      | some fingerprint =>
        rw [List.filterMap_cons_some carried, List.getLast?_cons]
        cases (rest.filterMap fingerprintOf).getLast? <;> rfl

theorem decode_wire {build : Build} {wire : List WireField} {parts : List (List UInt8)}
    {data : Slice}
    (written : List.Forall₂ WireField.Written wire parts) (isData : data.bytes = parts.flatten)
    (typed : ∀ field ∈ wire, WellTyped field) :
    if lastXpub wire = "" then Fails (decode build data) .missingXpub
    else Decodes (decode build data)
      { xpub := lastXpub wire, rootFingerprint := lastFingerprint wire } := by
  have fits := data.fits
  rw [isData] at fits
  have whole := @wholeFields_foldl start wire parts written (by omega) typed
  rw [← isData, foldl_take] at whole
  change WholeFields _ _ _ _
    (⟨lastXpub wire, (lastFingerprint wire).or none⟩ : PublicKeyResponse) at whole
  rw [Option.or_none] at whole
  by_cases missing : lastXpub wire = ""
  · rw [if_pos missing]
    refine fails_of_wholeFields whole ?_
    rw [finish, if_pos missing]
  · rw [if_neg missing]
    refine decodes_of_wholeFields whole ?_
    rw [finish, if_neg missing]

end PublicKeyResponse

/-- Unframing undoes framing, the wire format gives an encoded request back, and a reply is read to
its last xpub and its last fingerprint; without a last xpub, or with an empty one, it is refused. -/
theorem messages_roundTrip (build : Build) :
    (∀ msgType payload (framed : Slice), payload.length < 2 ^ 32 →
      framed.bytes = encodeMessage msgType payload →
      decodeMessage build (.new framed) = .ok (msgType, payload) (.new framed)) ∧
    (∀ (request : GetPublicKeyRequest) (encoded : Slice), encoded.bytes = request.encode →
      Decodes (GetPublicKeyRequest.decode build encoded) request) ∧
    (∀ (wire : List WireField) parts (data : Slice),
      List.Forall₂ WireField.Written wire parts → data.bytes = parts.flatten →
      (∀ field ∈ wire, PublicKeyResponse.WellTyped field) →
      if PublicKeyResponse.lastXpub wire = "" then
        Fails (PublicKeyResponse.decode build data) .missingXpub
      else
        Decodes (PublicKeyResponse.decode build data)
          { xpub := PublicKeyResponse.lastXpub wire
            rootFingerprint := PublicKeyResponse.lastFingerprint wire }) := by
  refine ⟨fun msgType payload framed short isFrame => decodeMessage_encodeMessage short isFrame,
    fun request encoded isEncoding => ?_, fun wire parts data written isData typed =>
      PublicKeyResponse.decode_wire written isData typed⟩
  have fits := encoded.fits
  rw [isEncoding] at fits
  obtain ⟨count, whole⟩ := request.wholeFields_encode (by omega)
  rw [← isEncoding] at whole
  exact decodes_of_wholeFields whole rfl

/-- An xpub and a fingerprint, each in its own field. -/
def sampleReply : Slice where
  bytes := [0x12, 0x01, 0x78, 0x18, 0x07]
  fits := by decide

/-- A request for the key at `m/84'/0'/0'`. -/
def sampleRequest : GetPublicKeyRequest where
  addressN := [0x80000054, 0x80000000, 0x80000000]
  coinName := some "Bitcoin"
  showDisplay := true
  scriptType := some .spendWitness

theorem messages_roundTrip_sample :
    decodeMessage .debug (.new ⟨[0, 11, 0, 0, 0, 1, 5], by decide⟩) =
        .ok (.getPublicKey, [5]) (.new _) ∧
      Decodes (GetPublicKeyRequest.decode .debug ⟨sampleRequest.encode, by decide +kernel⟩)
        sampleRequest ∧
      Decodes (PublicKeyResponse.decode .debug sampleReply) ⟨"x", some 7⟩ := by
  obtain ⟨frames, requests, replies⟩ := messages_roundTrip .debug
  refine ⟨frames .getPublicKey [5] _ (by decide) (by decide), requests _ _ rfl, ?_⟩
  have typed : ∀ field ∈ [WireField.bytes 2 [0x78], .varint 3 7],
      PublicKeyResponse.WellTyped field := by
    intro field member
    rcases List.mem_cons.mp member with rfl | member
    · exact ⟨by decide, fun _ => ⟨"x", by decide⟩⟩
    · rw [List.mem_singleton.mp member]
      exact (by decide : (3 : UInt32) ≠ 2)
  refine replies [.bytes 2 [0x78], .varint 3 7] [[0x12, 0x01, 0x78], [0x18, 0x07]] sampleReply
    (.cons ?_ (.cons ?_ .nil)) rfl typed
  · exact ⟨[0x12], [0x01], rfl, by decide, by decide, by decide, by decide⟩
  · exact ⟨[0x18], [0x07], rfl, by decide, by decide, by decide, by decide⟩

/-- A field 2 without text. -/
def emptyXpubReply : Slice where
  bytes := [0x12, 0x00]
  fits := by decide

/-- A fingerprint past 32 bits, behind an xpub. -/
def wideFingerprintReply : Slice where
  bytes := [0x12, 0x01, 0x78, 0x18, 0x80, 0x80, 0x80, 0x80, 0x10]
  fits := by decide

/-- A last xpub that is empty is not returned, and neither is a fingerprint past 32 bits. -/
theorem not_lastFields_returned :
    Fails (PublicKeyResponse.decode .debug emptyXpubReply) .missingXpub ∧
      Decodes (PublicKeyResponse.decode .debug wideFingerprintReply) ⟨"x", some 0⟩ := by
  refine ⟨?_, ?_⟩
  · refine @PublicKeyResponse.decode_wire .debug [.bytes 2 []] [[0x12, 0x00]] emptyXpubReply
      (.cons ⟨[0x12], [0x00], rfl, ?_, ?_, ?_, ?_⟩ .nil) rfl ?_
    all_goals try decide
    intro field member
    rw [List.mem_singleton.mp member]
    exact ⟨by decide, fun _ => ⟨"", by decide⟩⟩
  · refine @PublicKeyResponse.decode_wire .debug [.bytes 2 [0x78], .varint 3 (2 ^ 32)]
      [[0x12, 0x01, 0x78], [0x18, 0x80, 0x80, 0x80, 0x80, 0x10]] wideFingerprintReply
      (.cons ⟨[0x12], [0x01], rfl, ?_, ?_, ?_, ?_⟩ (.cons
        ⟨[0x18], [0x80, 0x80, 0x80, 0x80, 0x10], rfl, ?_, ?_, ?_, ?_⟩ .nil)) rfl ?_
    all_goals try decide
    intro field member
    rcases List.mem_cons.mp member with rfl | member
    · exact ⟨by decide, fun _ => ⟨"x", by decide⟩⟩
    · rw [List.mem_singleton.mp member]
      exact (by decide : (3 : UInt32) ≠ 2)

end Bitgarth.Trezor

import Bitgarth.Trezor.Wire

/-! # What the decoder reads, in terms of the bytes ahead

The bytes of whole fields are described without the decoder (`Bitgarth.Trezor.WholeField`), and so
is the start of a length-delimited field whose length takes the position past the largest `usize`
(`Bitgarth.Trezor.Overruns`). One turn of the loop reads a whole field, meets an overrun, or ends
with an error (`Bitgarth.Trezor.whole_or_overruns_or_error`).
-/

namespace Bitgarth.Trezor

open Outcomes

variable {data : Slice} {build : Build} {Message : Type}

/-! ## Positions -/

namespace ProtoDecoder

variable {decoder after final : ProtoDecoder data}

/-- The bytes from the position on. -/
def unread (decoder : ProtoDecoder data) : List UInt8 := data.bytes.drop decoder.pos

/-- No position is beyond the data, and none is before an earlier one. -/
structure Forward (decoder : ProtoDecoder data) : Prop where
  within : decoder.pos ≤ data.bytes.length
  ascending : (decoder.pos :: decoder.passed).IsChain (· ≥ ·)

/-- The decoder moved forward over a number of bytes. -/
structure Reads (decoder after : ProtoDecoder data) (count : ℕ) : Prop where
  pos : after.pos = decoder.pos + count
  forward : after.Forward

theorem forward_new (data : Slice) : (ProtoDecoder.new data).Forward :=
  ⟨Nat.zero_le _, List.IsChain.singleton _⟩

theorem Forward.length_unread (forward : decoder.Forward) :
    decoder.pos + decoder.unread.length = data.bytes.length := by
  have within := forward.within
  rw [unread, List.length_drop]
  omega

theorem Reads.unread {read tail : List UInt8} (ahead : decoder.unread = read ++ tail)
    (reads : decoder.Reads after read.length) : after.unread = tail := by
  rw [ProtoDecoder.unread, reads.pos, ← List.drop_drop]
  change decoder.unread.drop read.length = tail
  rw [ahead, List.drop_left]

theorem Reads.unread_cons {byte : UInt8} {tail : List UInt8}
    (ahead : decoder.unread = byte :: tail) (reads : decoder.Reads after 1) :
    after.unread = tail :=
  @Reads.unread _ _ _ [byte] tail ahead reads

theorem Reads.trans {first second : ℕ} (reads : decoder.Reads after first)
    (goesOn : after.Reads final second) : decoder.Reads final (first + second) :=
  ⟨by rw [goesOn.pos, reads.pos, Nat.add_assoc], goesOn.forward⟩

end ProtoDecoder

open ProtoDecoder

variable {decoder : ProtoDecoder data}

theorem getElem?_of_unread {byte : UInt8} {tail : List UInt8}
    (ahead : decoder.unread = byte :: tail) : data.bytes[decoder.pos]? = some byte := by
  have first : decoder.unread[0]? = some byte := by rw [ahead]; rfl
  rwa [ProtoDecoder.unread, List.getElem?_drop, Nat.add_zero] at first

theorem addUsize_of_lt {left right : ℕ} (fits : left + right < 2 ^ 64) :
    addUsize build left right decoder = .ok (left + right) decoder := by
  unfold addUsize
  rw [if_pos fits]
  rfl

theorem get_eq : (get : Decoding data (ProtoDecoder data)) decoder = .ok decoder decoder := rfl

theorem moveTo_eq (next : ℕ) :
    moveTo next decoder = .ok () { pos := next, passed := decoder.pos :: decoder.passed } := rfl

theorem reads_moveTo {next count : ℕ} (forward : decoder.Forward)
    (here : next = decoder.pos + count) (within : next ≤ data.bytes.length) :
    decoder.Reads { pos := next, passed := decoder.pos :: decoder.passed } count where
  pos := here
  forward :=
    { within := within
      ascending := List.isChain_cons_cons.mpr ⟨here ▸ Nat.le_add_right _ _, forward.ascending⟩ }

theorem not_forward_moveTo {next : ℕ} (back : next < decoder.pos) :
    ¬({ pos := next, passed := decoder.pos :: decoder.passed } : ProtoDecoder data).Forward := by
  intro forward
  have ordered := (List.isChain_cons_cons.mp forward.ascending).1
  simp only [ge_iff_le] at ordered
  omega

/-! ## Varints -/

/-- The bytes of one varint: a number in groups of seven bits, at most ten of them. -/
def IsVarint (bytes : List UInt8) : Prop := Base128.IsNumber bytes ∧ bytes.length ≤ 10

instance : DecidablePred IsVarint := fun _ => inferInstanceAs (Decidable (_ ∧ _))

/-- The value of a varint; bits past the 64th are dropped. -/
def varintValue (bytes : List UInt8) : UInt64 := UInt64.ofNat (Base128.value bytes)

theorem varintLoop_isNumber {bytes tail : List UInt8} {result : UInt64} {shift : ℕ}
    (forward : decoder.Forward) (ahead : decoder.unread = bytes ++ tail)
    (number : Base128.IsNumber bytes) (short : shift + 7 * (bytes.length - 1) ≤ 63)
    (low : result.toNat < 2 ^ shift) :
    ∃ value after, varintLoop build result shift decoder = .ok value after ∧
      value.toNat = (result.toNat + 2 ^ shift * Base128.value bytes) % 2 ^ 64 ∧
      decoder.Reads after bytes.length := by
  induction bytes generalizing decoder result shift with
  | nil => exact number.elim
  | cons byte rest ih =>
    have length := forward.length_unread
    have fits := data.fits
    rw [ahead, List.length_append, List.length_cons] at length
    have reads : decoder.Reads { pos := decoder.pos + 1, passed := decoder.pos :: decoder.passed }
        1 := reads_moveTo forward rfl (by omega)
    have shiftFits : shift < 64 := by omega
    have joined : (result ||| ((byte &&& 0x7F).toUInt64 <<< UInt64.ofNat shift)).toNat =
        (result.toNat + 2 ^ shift * (byte.toNat % 128)) % 2 ^ 64 := by
      rw [Base128.toNat_or_shiftLeft shiftFits low, Base128.toNat_and_127]
    rw [varintLoop, bind_of_ok get_eq]
    simp only [getElem?_of_unread ahead]
    rw [bind_of_ok (addUsize_of_lt (by omega)), bind_of_ok (moveTo_eq _)]
    by_cases last : byte.toNat < 128
    · -- the last byte: what remains of the number is this group
      rw [if_pos ((Base128.and_128_eq_zero_iff byte).mpr last)]
      rw [Base128.isNumber_cons_of_lt last] at number
      subst number
      refine ⟨_, _, rfl, ?_, reads⟩
      rw [joined, Base128.value, Base128.value, Nat.mul_zero, Nat.add_zero]
    · rw [if_neg (fun zero => last ((Base128.and_128_eq_zero_iff byte).mp zero))]
      rw [Base128.isNumber_cons_of_le (by omega)] at number
      have more := number.length_pos
      rw [List.length_cons] at short
      rw [dif_neg (by omega)]
      -- the group fits below the next shift, so nothing is dropped here
      have group : byte.toNat % 128 < 128 := Nat.mod_lt _ (by decide)
      have wider : (2 : ℕ) ^ (shift + 7) = 2 ^ shift * 128 := by rw [pow_add]; norm_num
      have narrow : (2 : ℕ) ^ (shift + 7) ≤ 2 ^ 64 := Nat.pow_le_pow_right (by decide) (by omega)
      have scaled : 2 ^ shift * (byte.toNat % 128) + 2 ^ shift ≤ 2 ^ shift * 128 := by
        rw [← Nat.mul_succ]
        exact Nat.mul_le_mul_left _ group
      have whole : result.toNat + 2 ^ shift * (byte.toNat % 128) < 2 ^ 64 := by omega
      rw [Nat.mod_eq_of_lt whole] at joined
      have next : result.toNat + 2 ^ shift * (byte.toNat % 128) < 2 ^ (shift + 7) := by omega
      obtain ⟨value, after, ran, computed, goesOn⟩ := ih reads.forward (reads.unread_cons ahead)
        number (show shift + 7 + 7 * (rest.length - 1) ≤ 63 by omega) (joined ▸ next)
      refine ⟨value, after, ran, ?_, ?_⟩
      · rw [computed, joined, Base128.value, wider]
        congr 1
        ring
      · rw [List.length_cons, Nat.add_comm]
        exact reads.trans goesOn

variable (build) in
theorem decodeVarint_isVarint {bytes tail : List UInt8} (forward : decoder.Forward)
    (ahead : decoder.unread = bytes ++ tail) (isVarint : IsVarint bytes) :
    ∃ after, decodeVarint build decoder = .ok (varintValue bytes) after ∧
      decoder.Reads after bytes.length := by
  have short := isVarint.2
  obtain ⟨value, after, ran, computed, reads⟩ :=
    @varintLoop_isNumber _ build _ _ _ 0 0 forward ahead isVarint.1 (by omega) (by decide)
  have same : value = varintValue bytes := by
    rw [← UInt64.toNat_inj, computed, varintValue, UInt64.toNat_ofNat']
    simp
  subst same
  exact ⟨after, ran, reads⟩

theorem isNumber_or_error {bytes : List UInt8} {result : UInt64} {shift : ℕ}
    (forward : decoder.Forward) (ahead : decoder.unread = bytes) (shiftFits : shift ≤ 63) :
    (∃ number tail, bytes = number ++ tail ∧ Base128.IsNumber number ∧
      shift + 7 * (number.length - 1) ≤ 63) ∨
    ∃ details after, varintLoop build result shift decoder = .error (.error details) after ∧
      after.Forward := by
  induction bytes generalizing decoder result shift with
  | nil =>
    refine .inr ⟨.unexpectedEndOfVarint, decoder, ?_, forward⟩
    have none : data.bytes[decoder.pos]? = none := by
      rw [List.getElem?_eq_none_iff]
      exact List.drop_eq_nil_iff.mp ahead
    rw [varintLoop, bind_of_ok get_eq]
    simp only [none]
    rfl
  | cons byte tail ih =>
    have length := forward.length_unread
    have fits := data.fits
    rw [ahead, List.length_cons] at length
    have reads : decoder.Reads { pos := decoder.pos + 1, passed := decoder.pos :: decoder.passed }
        1 := reads_moveTo forward rfl (by omega)
    by_cases last : byte.toNat < 128
    · refine .inl ⟨[byte], tail, rfl, (Base128.isNumber_cons_of_lt last).mpr rfl, ?_⟩
      simpa using shiftFits
    · rw [varintLoop, bind_of_ok get_eq]
      simp only [getElem?_of_unread ahead]
      rw [bind_of_ok (addUsize_of_lt (by omega)), bind_of_ok (moveTo_eq _),
        if_neg (fun zero => last ((Base128.and_128_eq_zero_iff byte).mp zero))]
      by_cases tooLong : 63 < shift + 7
      · rw [dif_pos tooLong]
        exact .inr ⟨_, _, rfl, reads.forward⟩
      · rw [dif_neg tooLong]
        refine (ih reads.forward (reads.unread_cons ahead) (by omega)).imp_left ?_
        rintro ⟨number, rest, split, isNumber, short⟩
        have more := isNumber.length_pos
        refine ⟨byte :: number, rest, ?_, (Base128.isNumber_cons_of_le (by omega)).mpr isNumber, ?_⟩
        · rw [split, List.cons_append]
        · rw [List.length_cons]
          omega

theorem isVarint_or_error (forward : decoder.Forward) :
    (∃ bytes tail, decoder.unread = bytes ++ tail ∧ IsVarint bytes) ∨
    ∃ details after, decodeVarint build decoder = .error (.error details) after ∧
      after.Forward := by
  rcases @isNumber_or_error _ build _ _ 0 0 forward rfl (Nat.zero_le 63) with
    ⟨bytes, tail, ahead, number, short⟩ | failed
  · exact .inl ⟨bytes, tail, ahead, number, by omega⟩
  · exact .inr failed

/-! ## Fields -/

/-- The bytes of a field that a message takes in, with the message before and after it. -/
inductive WholeField (fields : UInt32 → FieldReading Message) :
    List UInt8 → Message → Message → Prop
  | uint32 {tag value : List UInt8} {wireType : WireType}
      {store : UInt32 → Message → Except ProtocolError Message} {message next : Message}
      (isTag : IsVarint tag) (wire : tagWireType (varintValue tag) = .ok wireType)
      (reading : fields (tagNumber (varintValue tag)) = .uint32 store) (isValue : IsVarint value)
      (stored : store (varintValue value).toUInt32 message = .ok next) :
      WholeField fields (tag ++ value) message next
  | string {tag len body : List UInt8} {wireType : WireType} {store : String → Message → Message}
      {message : Message} {text : String}
      (isTag : IsVarint tag) (wire : tagWireType (varintValue tag) = .ok wireType)
      (reading : fields (tagNumber (varintValue tag)) = .string store) (isLen : IsVarint len)
      (length : body.length = (varintValue len).toNat) (valid : fromUtf8 body = .ok text) :
      WholeField fields (tag ++ (len ++ body)) message (store text message)
  | skippedVarint {tag value : List UInt8} {message : Message} (isTag : IsVarint tag)
      (wire : tagWireType (varintValue tag) = .ok .varint)
      (reading : fields (tagNumber (varintValue tag)) = .skipped) (isValue : IsVarint value) :
      WholeField fields (tag ++ value) message message
  | skippedBytes {tag len body : List UInt8} {message : Message} (isTag : IsVarint tag)
      (wire : tagWireType (varintValue tag) = .ok .lengthDelimited)
      (reading : fields (tagNumber (varintValue tag)) = .skipped) (isLen : IsVarint len)
      (length : body.length = (varintValue len).toNat) :
      WholeField fields (tag ++ (len ++ body)) message message

/-- A length follows a tag: the field is read as text, or skipped as length-delimited. -/
def TakesLength (fields : UInt32 → FieldReading Message) (tag : UInt64) : Prop :=
  ∃ wireType, tagWireType tag = .ok wireType ∧
    ((∃ store, fields (tagNumber tag) = .string store) ∨
      fields (tagNumber tag) = .skipped ∧ wireType = .lengthDelimited)

/-- A tag and a length that, added to the position after them, exceeds the largest `usize`. -/
def Overruns (fields : UInt32 → FieldReading Message) (start : ℕ) (head : List UInt8) : Prop :=
  ∃ tag len, head = tag ++ len ∧ IsVarint tag ∧ TakesLength fields (varintValue tag) ∧
    IsVarint len ∧ 2 ^ 64 ≤ start + head.length + (varintValue len).toNat

/-- One turn of the loop while bytes remain. -/
def readField (build : Build) (fields : UInt32 → FieldReading Message) (message : Message) :
    Decoding data Message := do
  let tag ← decodeVarint build
  let wireType ← orHalt (tagWireType tag)
  decodeField build fields (tagNumber tag) wireType message

variable {fields : UInt32 → FieldReading Message} {message : Message}

theorem WholeField.ne_nil {field : List UInt8} {next : Message}
    (whole : WholeField fields field message next) : field ≠ [] := by
  cases whole with
  | uint32 isTag | string isTag | skippedVarint isTag | skippedBytes isTag =>
    exact List.append_ne_nil_of_left_ne_nil isTag.1.ne_nil _

variable (build) in
theorem remaining_eq (forward : decoder.Forward) :
    remaining build decoder = .ok decoder.unread.length decoder := by
  have within := forward.within
  rw [remaining, bind_of_ok get_eq]
  unfold subUsize
  rw [if_pos within, unread, List.length_drop]
  rfl

theorem decodeFields_end (turns : ℕ) (forward : decoder.Forward) (done : decoder.unread = []) :
    decodeFields build fields (turns + 1) message decoder = .ok (some message) decoder := by
  have left := remaining_eq build forward
  rw [decodeFields, bind_of_ok left, done]
  rfl

theorem decodeFields_succ (turns : ℕ) (forward : decoder.Forward) (more : decoder.unread ≠ []) :
    decodeFields build fields (turns + 1) message decoder =
      (readField build fields message >>= decodeFields build fields turns) decoder := by
  have left := remaining_eq build forward
  have length := forward.length_unread
  have positive := List.length_pos_iff.mpr more
  have tagged : decodeTag build decoder = (do
      let tag ← decodeVarint build
      let wireType ← orHalt (tagWireType tag)
      pure (some (tagNumber tag, wireType)) : Decoding data _) decoder := by
    rw [decodeTag, bind_of_ok get_eq, if_neg (by omega)]
  rw [decodeFields, bind_of_ok left, if_neg (by omega), bind_eq_of_eq tagged, readField]
  simp only [bind_assoc, pure_bind]

/-! ## What one turn does -/

theorem addUsize_within {len : ℕ} (fits : decoder.pos + len ≤ data.bytes.length) :
    addUsize build decoder.pos len decoder = .ok (decoder.pos + len) decoder := by
  have bound := data.fits
  exact addUsize_of_lt (by omega)

theorem orHalt_ok {α : Type} {value : α} {result : Except ProtocolError α}
    (made : result = .ok value) : orHalt result decoder = .ok value decoder := by
  rw [made]
  rfl

theorem orHalt_error {α : Type} {details : ProtocolError} {result : Except ProtocolError α}
    (failed : result = .error details) :
    orHalt result decoder = .error (.error details) decoder := by
  rw [failed]
  rfl

variable (build fields message) in
theorem readField_tag {tag tail : List UInt8} {wireType : WireType} (forward : decoder.Forward)
    (ahead : decoder.unread = tag ++ tail) (isTag : IsVarint tag)
    (wire : tagWireType (varintValue tag) = .ok wireType) :
    ∃ after, decoder.Reads after tag.length ∧ after.unread = tail ∧
      readField build fields message decoder =
        decodeField build fields (tagNumber (varintValue tag)) wireType message after := by
  obtain ⟨after, ran, reads⟩ := decodeVarint_isVarint build forward ahead isTag
  refine ⟨after, reads, reads.unread ahead, ?_⟩
  rw [readField, bind_of_ok ran, bind_of_ok (orHalt_ok wire)]

theorem sliceOf_body {body tail : List UInt8} (forward : decoder.Forward)
    (ahead : decoder.unread = body ++ tail) :
    sliceOf decoder.pos (decoder.pos + body.length) decoder = .ok body decoder := by
  have length := forward.length_unread
  rw [ahead, List.length_append] at length
  unfold sliceOf
  rw [if_pos ⟨by omega, by omega⟩, Nat.add_sub_cancel_left]
  change EStateM.Result.ok (decoder.unread.take body.length) decoder = _
  rw [ahead, List.take_left]

variable (build) in
theorem decodeString_body {len body tail : List UInt8} {text : String} (forward : decoder.Forward)
    (ahead : decoder.unread = len ++ (body ++ tail)) (isLen : IsVarint len)
    (length : body.length = (varintValue len).toNat) (valid : fromUtf8 body = .ok text) :
    ∃ after, decodeString build decoder = .ok text after ∧
      decoder.Reads after (len ++ body).length := by
  obtain ⟨middle, ran, reads⟩ := decodeVarint_isVarint build forward ahead isLen
  have aheadBody := reads.unread ahead
  have total := reads.forward.length_unread
  rw [aheadBody, List.length_append] at total
  rw [decodeString, bind_of_ok ran, bind_of_ok get_eq, ← length,
    bind_of_ok (addUsize_within (by omega)), if_neg (by omega),
    bind_of_ok (sliceOf_body reads.forward aheadBody), bind_of_ok (orHalt_ok valid),
    bind_of_ok (moveTo_eq _)]
  refine ⟨_, rfl, ?_⟩
  rw [List.length_append]
  exact reads.trans (reads_moveTo reads.forward rfl (by omega))

variable (build) in
theorem skipField_body {len body tail : List UInt8} (forward : decoder.Forward)
    (ahead : decoder.unread = len ++ (body ++ tail)) (isLen : IsVarint len)
    (length : body.length = (varintValue len).toNat) :
    ∃ after, skipField build .lengthDelimited decoder = .ok () after ∧
      decoder.Reads after (len ++ body).length := by
  obtain ⟨middle, ran, reads⟩ := decodeVarint_isVarint build forward ahead isLen
  have aheadBody := reads.unread ahead
  have total := reads.forward.length_unread
  rw [aheadBody, List.length_append] at total
  rw [skipField, bind_of_ok ran, bind_of_ok get_eq, ← length,
    bind_of_ok (addUsize_within (by omega)), if_neg (by omega)]
  refine ⟨_, moveTo_eq _, ?_⟩
  rw [List.length_append]
  exact reads.trans (reads_moveTo reads.forward rfl (by omega))

variable (build) in
theorem readField_wholeField {field tail : List UInt8} {next : Message} (forward : decoder.Forward)
    (ahead : decoder.unread = field ++ tail) (whole : WholeField fields field message next) :
    ∃ after, readField build fields message decoder = .ok next after ∧
      decoder.Reads after field.length := by
  cases whole with
  | @uint32 tag value wireType store _ _ isTag wire reading isValue stored =>
    rw [List.append_assoc] at ahead
    obtain ⟨middle, reads, aheadValue, opened⟩ :=
      readField_tag build fields message forward ahead isTag wire
    obtain ⟨after, ran, goesOn⟩ :=
      decodeVarint_isVarint build reads.forward aheadValue isValue
    have taken : decodeUint32 build middle = .ok (varintValue value).toUInt32 after := by
      rw [decodeUint32, bind_of_ok ran]
      rfl
    refine ⟨after, ?_, ?_⟩
    · rw [opened, decodeField, reading]
      simp only
      rw [bind_of_ok taken, orHalt_ok stored]
    · rw [List.length_append]
      exact reads.trans goesOn
  | string isTag wire reading isLen length valid =>
    rw [List.append_assoc, List.append_assoc] at ahead
    obtain ⟨middle, reads, aheadBody, opened⟩ :=
      readField_tag build fields message forward ahead isTag wire
    obtain ⟨after, ran, goesOn⟩ :=
      decodeString_body build reads.forward aheadBody isLen length valid
    refine ⟨after, ?_, ?_⟩
    · rw [opened, decodeField, reading]
      simp only
      rw [bind_of_ok ran]
      rfl
    · rw [List.length_append]
      exact reads.trans goesOn
  | skippedVarint isTag wire reading isValue =>
    rw [List.append_assoc] at ahead
    obtain ⟨middle, reads, aheadValue, opened⟩ :=
      readField_tag build fields message forward ahead isTag wire
    obtain ⟨after, ran, goesOn⟩ :=
      decodeVarint_isVarint build reads.forward aheadValue isValue
    have skipped : skipField build .varint middle = .ok () after := by
      rw [skipField, bind_of_ok ran]
      rfl
    refine ⟨after, ?_, ?_⟩
    · rw [opened, decodeField, reading]
      simp only
      rw [bind_of_ok skipped]
      rfl
    · rw [List.length_append]
      exact reads.trans goesOn
  | skippedBytes isTag wire reading isLen length =>
    rw [List.append_assoc, List.append_assoc] at ahead
    obtain ⟨middle, reads, aheadBody, opened⟩ :=
      readField_tag build fields message forward ahead isTag wire
    obtain ⟨after, ran, goesOn⟩ :=
      skipField_body build reads.forward aheadBody isLen length
    refine ⟨after, ?_, ?_⟩
    · rw [opened, decodeField, reading]
      simp only
      rw [bind_of_ok ran]
      rfl
    · rw [List.length_append]
      exact reads.trans goesOn

theorem addUsize_of_le {left right : ℕ} (overflows : 2 ^ 64 ≤ left + right) :
    addUsize build left right decoder =
      match build with
      | .debug => .error .panicked decoder
      | .release => .ok ((left + right) % 2 ^ 64) decoder := by
  unfold addUsize
  rw [if_neg (by omega)]
  cases build <;> rfl

/-- A sum that wraps stops before the position it started from. -/
theorem wrapped_lt (forward : decoder.Forward) {len : UInt64}
    (overflows : 2 ^ 64 ≤ decoder.pos + len.toNat) :
    (decoder.pos + len.toNat) % 2 ^ 64 < decoder.pos := by
  have within := forward.within
  have fits := data.fits
  have small := len.toNat_lt
  omega

variable (build) in
theorem decodeString_overrun {len tail : List UInt8} (forward : decoder.Forward)
    (ahead : decoder.unread = len ++ tail) (isLen : IsVarint len)
    (overflows : 2 ^ 64 ≤ decoder.pos + len.length + (varintValue len).toNat) :
    ∃ after, decodeString build decoder = .error .panicked after := by
  obtain ⟨middle, ran, reads⟩ := decodeVarint_isVarint build forward ahead isLen
  rw [← reads.pos] at overflows
  have within := reads.forward.within
  have back := wrapped_lt reads.forward overflows
  rw [decodeString, bind_of_ok ran, bind_of_ok get_eq]
  cases build with
  | debug => exact ⟨middle, bind_of_error (addUsize_of_le overflows)⟩
  | release =>
    rw [bind_of_ok (addUsize_of_le overflows), if_neg (by omega)]
    have panics : sliceOf middle.pos ((middle.pos + (varintValue len).toNat) % 2 ^ 64) middle =
        .error .panicked middle := by
      unfold sliceOf
      rw [if_neg (by omega)]
      rfl
    exact ⟨middle, bind_of_error panics⟩

variable (build) in
theorem skipField_overrun {len tail : List UInt8} (forward : decoder.Forward)
    (ahead : decoder.unread = len ++ tail) (isLen : IsVarint len)
    (overflows : 2 ^ 64 ≤ decoder.pos + len.length + (varintValue len).toNat) :
    (∃ after, skipField build .lengthDelimited decoder = .error .panicked after) ∨
      ∃ after, skipField build .lengthDelimited decoder = .ok () after ∧ ¬after.Forward := by
  obtain ⟨middle, ran, reads⟩ := decodeVarint_isVarint build forward ahead isLen
  rw [← reads.pos] at overflows
  have within := reads.forward.within
  have back := wrapped_lt reads.forward overflows
  rw [skipField, bind_of_ok ran, bind_of_ok get_eq]
  cases build with
  | debug => exact .inl ⟨middle, bind_of_error (addUsize_of_le overflows)⟩
  | release =>
    rw [bind_of_ok (addUsize_of_le overflows), if_neg (by omega)]
    exact .inr ⟨_, moveTo_eq _, not_forward_moveTo back⟩

theorem readField_overruns {head tail : List UInt8} (forward : decoder.Forward)
    (ahead : decoder.unread = head ++ tail) (overruns : Overruns fields decoder.pos head) :
    (∃ after, readField build fields message decoder = .error .panicked after) ∨
      ∃ after, readField build fields message decoder = .ok message after ∧ ¬after.Forward := by
  obtain ⟨tag, len, rfl, isTag, ⟨wireType, wire, taken⟩, isLen, overflows⟩ := overruns
  rw [List.append_assoc] at ahead
  obtain ⟨middle, reads, aheadLen, opened⟩ :=
    readField_tag build fields message forward ahead isTag wire
  rw [List.length_append, ← Nat.add_assoc, ← reads.pos] at overflows
  rw [opened, decodeField]
  rcases taken with ⟨store, reading⟩ | ⟨reading, rfl⟩
  · obtain ⟨after, ran⟩ := decodeString_overrun build reads.forward aheadLen isLen overflows
    simp only [reading]
    exact .inl ⟨after, bind_of_error ran⟩
  · simp only [reading]
    rcases skipField_overrun build reads.forward aheadLen isLen overflows with
      ⟨after, ran⟩ | ⟨after, ran, back⟩
    · exact .inl ⟨after, bind_of_error ran⟩
    · refine .inr ⟨after, ?_, back⟩
      rw [bind_of_ok ran]
      rfl

variable (build) in
theorem body_or_overrun_or_beyond {len tail : List UInt8} (forward : decoder.Forward)
    (ahead : decoder.unread = len ++ tail) (isLen : IsVarint len) :
    (∃ body rest, tail = body ++ rest ∧ body.length = (varintValue len).toNat) ∨
    2 ^ 64 ≤ decoder.pos + len.length + (varintValue len).toNat ∨
    ∃ after, decodeVarint build decoder = .ok (varintValue len) after ∧ after.Forward ∧
      addUsize build after.pos (varintValue len).toNat after =
        .ok (after.pos + (varintValue len).toNat) after ∧
      data.bytes.length < after.pos + (varintValue len).toNat := by
  obtain ⟨after, ran, reads⟩ := decodeVarint_isVarint build forward ahead isLen
  have total := reads.forward.length_unread
  rw [reads.unread ahead] at total
  by_cases within : (varintValue len).toNat ≤ tail.length
  · refine .inl ⟨tail.take (varintValue len).toNat, tail.drop (varintValue len).toNat,
      (List.take_append_drop _ _).symm, ?_⟩
    rw [List.length_take, Nat.min_eq_left within]
  · by_cases overflows : 2 ^ 64 ≤ decoder.pos + len.length + (varintValue len).toNat
    · exact .inr (.inl overflows)
    · rw [← reads.pos] at overflows
      exact .inr (.inr ⟨after, ran, reads.forward, addUsize_of_lt (by omega), by omega⟩)

variable (build) in
theorem decodeString_cases (forward : decoder.Forward) :
    (∃ len body rest text, decoder.unread = len ++ (body ++ rest) ∧ IsVarint len ∧
      body.length = (varintValue len).toNat ∧ fromUtf8 body = .ok text) ∨
    (∃ len rest, decoder.unread = len ++ rest ∧ IsVarint len ∧
      2 ^ 64 ≤ decoder.pos + len.length + (varintValue len).toNat) ∨
    ∃ details after, decodeString build decoder = .error (.error details) after ∧
      after.Forward := by
  rcases @isVarint_or_error _ build _ forward with ⟨len, tail, ahead, isLen⟩ |
    ⟨details, after, ran, kept⟩
  swap
  · exact .inr (.inr ⟨details, after, bind_of_error ran, kept⟩)
  rcases body_or_overrun_or_beyond build forward ahead isLen with
    ⟨body, rest, rfl, length⟩ | overflows | ⟨after, ran, kept, stops, beyond⟩
  · cases valid : fromUtf8 body with
    | ok text => exact .inl ⟨len, body, rest, text, ahead, isLen, length, valid⟩
    | error details =>
      obtain ⟨middle, ran, reads⟩ := decodeVarint_isVarint build forward ahead isLen
      have aheadBody := reads.unread ahead
      have total := reads.forward.length_unread
      rw [aheadBody, List.length_append] at total
      refine .inr (.inr ⟨details, middle, ?_, reads.forward⟩)
      rw [decodeString, bind_of_ok ran, bind_of_ok get_eq, ← length,
        bind_of_ok (addUsize_within (by omega)), if_neg (by omega),
        bind_of_ok (sliceOf_body reads.forward aheadBody)]
      exact bind_of_error (orHalt_error valid)
  · exact .inr (.inl ⟨len, tail, ahead, isLen, overflows⟩)
  · refine .inr (.inr ⟨.stringBeyondData, after, ?_, kept⟩)
    rw [decodeString, bind_of_ok ran, bind_of_ok get_eq, bind_of_ok stops, if_pos beyond]
    rfl

variable (build) in
theorem skipField_cases (forward : decoder.Forward) :
    (∃ len body rest, decoder.unread = len ++ (body ++ rest) ∧ IsVarint len ∧
      body.length = (varintValue len).toNat) ∨
    (∃ len rest, decoder.unread = len ++ rest ∧ IsVarint len ∧
      2 ^ 64 ≤ decoder.pos + len.length + (varintValue len).toNat) ∨
    ∃ details after, skipField build .lengthDelimited decoder = .error (.error details) after ∧
      after.Forward := by
  rcases @isVarint_or_error _ build _ forward with ⟨len, tail, ahead, isLen⟩ |
    ⟨details, after, ran, kept⟩
  swap
  · exact .inr (.inr ⟨details, after, bind_of_error ran, kept⟩)
  rcases body_or_overrun_or_beyond build forward ahead isLen with
    ⟨body, rest, rfl, length⟩ | overflows | ⟨after, ran, kept, stops, beyond⟩
  · exact .inl ⟨len, body, rest, ahead, isLen, length⟩
  · exact .inr (.inl ⟨len, tail, ahead, isLen, overflows⟩)
  · refine .inr (.inr ⟨.fieldBeyondData, after, ?_, kept⟩)
    rw [skipField, bind_of_ok ran, bind_of_ok get_eq, bind_of_ok stops, if_pos beyond]
    rfl

variable (build fields message) in
theorem whole_or_overruns_or_error (forward : decoder.Forward) :
    (∃ field tail next, decoder.unread = field ++ tail ∧ WholeField fields field message next) ∨
    (∃ head tail, decoder.unread = head ++ tail ∧ Overruns fields decoder.pos head) ∨
    ∃ details after, readField build fields message decoder = .error (.error details) after ∧
      after.Forward := by
  rcases @isVarint_or_error _ build _ forward with ⟨tag, afterTag, ahead, isTag⟩ |
    ⟨details, after, ran, kept⟩
  swap
  · exact .inr (.inr ⟨details, after, bind_of_error ran, kept⟩)
  cases wire : tagWireType (varintValue tag) with
  | error details =>
    obtain ⟨after, ran, reads⟩ := decodeVarint_isVarint build forward ahead isTag
    refine .inr (.inr ⟨details, after, ?_, reads.forward⟩)
    rw [readField, bind_of_ok ran]
    exact bind_of_error (orHalt_error wire)
  | ok wireType =>
    obtain ⟨middle, reads, aheadField, opened⟩ :=
      readField_tag build fields message forward ahead isTag wire
    -- an overrun after the tag, seen from before it
    have overrun {len rest : List UInt8} (aheadLen : middle.unread = len ++ rest)
        (isLen : IsVarint len) (takes : TakesLength fields (varintValue tag))
        (overflows : 2 ^ 64 ≤ middle.pos + len.length + (varintValue len).toNat) :
        ∃ head tail, decoder.unread = head ++ tail ∧ Overruns fields decoder.pos head := by
      refine ⟨tag ++ len, rest, ?_, tag, len, rfl, isTag, takes, isLen, ?_⟩
      · rw [ahead, ← aheadField, aheadLen, List.append_assoc]
      · rw [reads.pos] at overflows
        rw [List.length_append]
        omega
    cases reading : fields (tagNumber (varintValue tag)) with
    | uint32 store =>
      rw [decodeField, reading] at opened
      rcases @isVarint_or_error _ build _ reads.forward with ⟨value, rest, aheadValue, isValue⟩ |
        ⟨details, after, ran, kept⟩
      · cases stored : store (varintValue value).toUInt32 message with
        | ok next =>
          refine .inl ⟨tag ++ value, rest, next, ?_, .uint32 isTag wire reading isValue stored⟩
          rw [ahead, ← aheadField, aheadValue, List.append_assoc]
        | error details =>
          obtain ⟨after, ran, goesOn⟩ :=
            decodeVarint_isVarint build reads.forward aheadValue isValue
          have taken : decodeUint32 build middle = .ok (varintValue value).toUInt32 after := by
            rw [decodeUint32, bind_of_ok ran]
            rfl
          refine .inr (.inr ⟨details, after, ?_, goesOn.forward⟩)
          rw [opened]
          simp only
          rw [bind_of_ok taken, orHalt_error stored]
      · refine .inr (.inr ⟨details, after, ?_, kept⟩)
        rw [opened]
        exact bind_of_error (bind_of_error ran)
    | string store =>
      rw [decodeField, reading] at opened
      rcases decodeString_cases build reads.forward with
        ⟨len, body, rest, text, aheadLen, isLen, length, valid⟩ |
        ⟨len, rest, aheadLen, isLen, overflows⟩ | ⟨details, after, ran, kept⟩
      · refine .inl ⟨tag ++ (len ++ body), rest, store text message, ?_,
          .string isTag wire reading isLen length valid⟩
        rw [ahead, ← aheadField, aheadLen]
        simp only [List.append_assoc]
      · exact .inr (.inl (overrun aheadLen isLen ⟨wireType, wire, .inl ⟨store, reading⟩⟩
          overflows))
      · refine .inr (.inr ⟨details, after, ?_, kept⟩)
        rw [opened]
        exact bind_of_error ran
    | skipped =>
      rw [decodeField, reading] at opened
      cases wireType with
      | varint =>
        rcases @isVarint_or_error _ build _ reads.forward with
          ⟨value, rest, aheadValue, isValue⟩ | ⟨details, after, ran, kept⟩
        · refine .inl ⟨tag ++ value, rest, message, ?_,
            .skippedVarint isTag wire reading isValue⟩
          rw [ahead, ← aheadField, aheadValue, List.append_assoc]
        · refine .inr (.inr ⟨details, after, ?_, kept⟩)
          rw [opened]
          exact bind_of_error (bind_of_error ran)
      | lengthDelimited =>
        rcases skipField_cases build reads.forward with
          ⟨len, body, rest, aheadLen, isLen, length⟩ |
          ⟨len, rest, aheadLen, isLen, overflows⟩ | ⟨details, after, ran, kept⟩
        · refine .inl ⟨tag ++ (len ++ body), rest, message, ?_,
            .skippedBytes isTag wire reading isLen length⟩
          rw [ahead, ← aheadField, aheadLen]
          simp only [List.append_assoc]
        · exact .inr (.inl (overrun aheadLen isLen ⟨_, wire, .inr ⟨reading, rfl⟩⟩ overflows))
        · refine .inr (.inr ⟨details, after, ?_, kept⟩)
          rw [opened]
          exact bind_of_error ran

end Bitgarth.Trezor

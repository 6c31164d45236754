import Bitgarth.Trezor.Fields
import Bitgarth.Trezor.Messages

/-! # When a decoder ends in order

Over whole runs of the loop: behind whole fields the decoder stands at the next byte, and as long
as no overrun is met each turn moves ahead or ends the run. So a decoder ends without a panic, at
positions that never go back, exactly when the bytes do not begin with whole fields and an overrun
(`Bitgarth.Trezor.decoders_total_iff`).
-/

namespace Bitgarth.Trezor

open Outcomes ProtoDecoder

variable {data : Slice} {build : Build} {Message Reply : Type}
  {fields : UInt32 → FieldReading Message} {message : Message} {decoder : ProtoDecoder data}

/-! ## Runs of fields -/

/-- A number of whole fields, one after another. -/
inductive WholeFields (fields : UInt32 → FieldReading Message) :
    ℕ → List UInt8 → Message → Message → Prop
  | nil {message : Message} : WholeFields fields 0 [] message message
  | cons {count : ℕ} {field rest : List UInt8} {message next last : Message}
      (whole : WholeField fields field message next)
        (more : WholeFields fields count rest next last) :
      WholeFields fields (count + 1) (field ++ rest) message last

/-- The bytes begin with whole fields and, behind them, an overrun. -/
def MeetsOverrun (fields : UInt32 → FieldReading Message) (message : Message) (start : ℕ)
    (bytes : List UInt8) : Prop :=
  ∃ count read head tail next, bytes = read ++ (head ++ tail) ∧
    WholeFields fields count read message next ∧ Overruns fields (start + read.length) head

theorem not_meetsOverrun_of_wholeField {start : ℕ} {bytes field tail : List UInt8} {next : Message}
    (free : ¬MeetsOverrun fields message start bytes) (ahead : bytes = field ++ tail)
    (whole : WholeField fields field message next) :
    ¬MeetsOverrun fields next (start + field.length) tail := by
  rintro ⟨count, read, head, rest, last, split, more, overruns⟩
  refine free ⟨count + 1, field ++ read, head, rest, last, ?_, .cons whole more, ?_⟩
  · rw [ahead, split, List.append_assoc]
  · rw [List.length_append, ← Nat.add_assoc]
    exact overruns

theorem decodeFields_wholeFields {count : ℕ} {read tail : List UInt8} {next : Message}
    (forward : decoder.Forward) (ahead : decoder.unread = read ++ tail)
    (more : WholeFields fields count read message next) :
    ∃ after, decoder.Reads after read.length ∧
      ∀ turns, decodeFields build fields (turns + count) message decoder =
        decodeFields build fields turns next after := by
  induction more generalizing decoder with
  | nil => exact ⟨decoder, ⟨rfl, forward⟩, fun turns => rfl⟩
  | cons whole _ ih =>
    rw [List.append_assoc] at ahead
    obtain ⟨middle, ran, reads⟩ := readField_wholeField build forward ahead whole
    obtain ⟨after, goesOn, same⟩ := ih reads.forward (reads.unread ahead)
    refine ⟨after, ?_, fun turns => ?_⟩
    · rw [List.length_append]
      exact reads.trans goesOn
    · have unread : decoder.unread ≠ [] := by
        rw [ahead]
        exact List.append_ne_nil_of_left_ne_nil whole.ne_nil _
      rw [← Nat.add_assoc, decodeFields_succ _ forward unread, bind_of_ok ran]
      exact same turns

/-! ## Runs in order -/

/-- The decoder that a run leaves. -/
def leaves {ε σ α : Type} : EStateM.Result ε σ α → σ
  | .ok _ after => after
  | .error _ after => after

/-- A decoder, run for any number of turns, ends in order: from some number of turns on it ends
with a value or an error, it never panics, and its position never goes back nor beyond the data. -/
structure Total {α : Type} (run : ℕ → EStateM.Result Halt (ProtoDecoder data) (Option α)) :
    Prop where
  ends : ∃ turns, (∃ value after, ∀ extra, run (turns + extra) = .ok (some value) after) ∨
    ∃ details after, ∀ extra, run (turns + extra) = .error (.error details) after
  noPanic : ∀ turns after, run turns ≠ .error .panicked after
  forward : ∀ turns, (leaves (run turns)).Forward

variable (build) in
theorem decodeFields_forward (turns : ℕ) (forward : decoder.Forward)
    (free : ¬MeetsOverrun fields message decoder.pos decoder.unread) :
    (∀ after, decodeFields build fields turns message decoder ≠ .error .panicked after) ∧
      (leaves (decodeFields build fields turns message decoder)).Forward := by
  induction turns generalizing decoder message with
  | zero => exact ⟨fun after => nofun, forward⟩
  | succ turns ih =>
    by_cases done : decoder.unread = []
    · rw [decodeFields_end turns forward done]
      exact ⟨fun after => nofun, forward⟩
    · rw [decodeFields_succ turns forward done]
      rcases whole_or_overruns_or_error build fields message forward with
        ⟨field, tail, next, ahead, whole⟩ | ⟨head, tail, ahead, overruns⟩ |
        ⟨details, after, ran, kept⟩
      · obtain ⟨after, ran, reads⟩ := readField_wholeField build forward ahead whole
        rw [bind_of_ok ran]
        refine ih reads.forward ?_
        rw [reads.pos, reads.unread ahead]
        exact not_meetsOverrun_of_wholeField free ahead whole
      · exact absurd ⟨0, [], head, tail, message, ahead, .nil, overruns⟩ free
      · rw [bind_of_error ran]
        exact ⟨fun after => nofun, kept⟩

variable (build) in
theorem decodeFields_ends (forward : decoder.Forward)
    (free : ¬MeetsOverrun fields message decoder.pos decoder.unread) :
    ∃ turns,
      (∃ value after, ∀ extra,
        decodeFields build fields (turns + extra) message decoder = .ok (some value) after) ∨
      ∃ details after, ∀ extra,
        decodeFields build fields (turns + extra) message decoder = .error (.error details)
          after := by
  induction length : decoder.unread.length using Nat.strongRecOn generalizing decoder message with
  | ind size ih =>
    by_cases done : decoder.unread = []
    · refine ⟨1, .inl ⟨message, decoder, fun extra => ?_⟩⟩
      rw [Nat.add_comm]
      exact decodeFields_end extra forward done
    · have opened (turns : ℕ) := @decodeFields_succ _ build _ _ fields message turns forward done
      rcases whole_or_overruns_or_error build fields message forward with
        ⟨field, tail, next, ahead, whole⟩ | ⟨head, tail, ahead, overruns⟩ |
        ⟨details, after, ran, kept⟩
      · obtain ⟨after, ran, reads⟩ := readField_wholeField build forward ahead whole
        have shorter : after.unread.length < size := by
          have positive := List.length_pos_iff.mpr whole.ne_nil
          rw [reads.unread ahead, ← length, ahead, List.length_append]
          omega
        have stillFree : ¬MeetsOverrun fields next after.pos after.unread := by
          rw [reads.pos, reads.unread ahead]
          exact not_meetsOverrun_of_wholeField free ahead whole
        obtain ⟨turns, ended⟩ := ih _ shorter reads.forward stillFree rfl
        have same (extra : ℕ) : decodeFields build fields (turns + 1 + extra) message decoder =
            decodeFields build fields (turns + extra) next after := by
          rw [Nat.add_right_comm, opened, bind_of_ok ran]
        refine ⟨turns + 1, ?_⟩
        simp only [same]
        exact ended
      · exact absurd ⟨0, [], head, tail, message, ahead, .nil, overruns⟩ free
      · refine ⟨1, .inr ⟨details, after, fun extra => ?_⟩⟩
        rw [Nat.add_comm, opened]
        exact bind_of_error ran

/-! ## The check after the loop -/

variable {finish : Message → Except ProtocolError Reply}

/-- The check after the loop moves nothing and panics nowhere. -/
theorem decodeWith_eq (turns : ℕ) :
    decodeWith build fields message finish turns decoder =
      match decodeFields build fields turns message decoder with
      | .ok none after => .ok none after
      | .ok (some last) after =>
        match finish last with
        | .ok reply => .ok (some reply) after
        | .error details => .error (.error details) after
      | .error halt after => .error halt after := by
  rw [decodeWith]
  cases ran : decodeFields build fields turns message decoder with
  | error halt after => exact bind_of_error ran
  | ok value after =>
    rw [bind_of_ok ran]
    cases value with
    | none => rfl
    | some last =>
      cases finished : finish last with
      | ok reply =>
        simp only [finished]
        rfl
      | error details =>
        simp only [finished]
        rfl

theorem leaves_decodeWith (turns : ℕ) :
    leaves (decodeWith build fields message finish turns decoder) =
      leaves (decodeFields build fields turns message decoder) := by
  rw [decodeWith_eq]
  split
  · next ran => rw [ran]; rfl
  · next ran =>
      rw [ran]
      split <;> rfl
  · next ran => rw [ran]; rfl

theorem decodeWith_eq_panicked_iff {turns : ℕ} {after : ProtoDecoder data} :
    decodeWith build fields message finish turns decoder = .error .panicked after ↔
      decodeFields build fields turns message decoder = .error .panicked after := by
  rw [decodeWith_eq]
  constructor
  · intro panics
    split at panics
    · cases panics
    · split at panics <;> cases panics
    · next ran =>
        rw [ran]
        cases panics
        rfl
  · intro panics
    rw [panics]

theorem total_decodeWith_iff :
    Total (fun turns => decodeWith build fields message finish turns (.new data)) ↔
      ¬MeetsOverrun fields message 0 data.bytes := by
  constructor
  · rintro total ⟨count, read, head, tail, next, split, more, overruns⟩
    obtain ⟨middle, reads, same⟩ :=
      @decodeFields_wholeFields _ build _ _ _ _ _ _ _ _ (forward_new data) split more
    have aheadHead := @Reads.unread _ (.new data) middle read _ split reads
    have start : middle.pos = 0 + read.length := reads.pos
    rw [← start] at overruns
    have unread : middle.unread ≠ [] := by
      obtain ⟨tag, len, rfl, isTag, -⟩ := overruns
      rw [aheadHead, List.append_assoc]
      exact List.append_ne_nil_of_left_ne_nil isTag.1.ne_nil _
    -- the run that stops right behind the overrun
    have opened := same 1
    rw [decodeFields_succ 0 reads.forward unread] at opened
    rcases readField_overruns reads.forward aheadHead overruns with
      ⟨after, ran⟩ | ⟨after, ran, back⟩
    · rw [bind_of_error ran] at opened
      exact total.noPanic _ _ (decodeWith_eq_panicked_iff.mpr opened)
    · rw [bind_of_ok ran] at opened
      have kept := total.forward (1 + count)
      rw [leaves_decodeWith, opened] at kept
      exact back kept
  · intro free
    have forward := forward_new data
    refine ⟨?_, fun turns after panics => ?_, fun turns => ?_⟩
    · obtain ⟨turns, ⟨last, after, ran⟩ | ⟨details, after, ran⟩⟩ :=
        decodeFields_ends build forward free
      · refine ⟨turns, ?_⟩
        cases finished : finish last with
        | ok reply =>
          refine .inl ⟨reply, after, fun extra => ?_⟩
          rw [decodeWith_eq, ran]
          simp only [finished]
        | error details =>
          refine .inr ⟨details, after, fun extra => ?_⟩
          rw [decodeWith_eq, ran]
          simp only [finished]
      · refine ⟨turns, .inr ⟨details, after, fun extra => ?_⟩⟩
        rw [decodeWith_eq, ran]
    · exact (decodeFields_forward build turns forward free).1 after
        (decodeWith_eq_panicked_iff.mp panics)
    · rw [leaves_decodeWith]
      exact (decodeFields_forward build turns forward free).2

/-! ## Framing -/

/-- What `decode_message` does with six bytes and more: all its indices lie within them, and the
stop of the payload cannot overflow. -/
theorem decodeMessage_cons {b0 b1 b2 b3 b4 b5 : UInt8} {rest : List UInt8}
    (framed : data.bytes = b0 :: b1 :: b2 :: b3 :: b4 :: b5 :: rest) :
    decodeMessage build decoder =
      let raw := UInt16.ofNat (2 ^ 8 * b0.toNat + b1.toNat)
      let length := 2 ^ 24 * b2.toNat + 2 ^ 16 * b3.toNat + 2 ^ 8 * b4.toNat + b5.toNat
      match MessageType.fromU16 raw with
      | none => .error (.error (.unknownMessageType raw)) decoder
      | some msgType =>
        if rest.length < length then
          .error (.error (.messageTruncated length rest.length)) decoder
        else .ok (msgType, rest.take length) decoder := by
  have byte (index : ℕ) {value : UInt8}
      (isByte : (b0 :: b1 :: b2 :: b3 :: b4 :: b5 :: rest)[index]? = some value) :
      byteAt index decoder = .ok value.toNat decoder := by
    unfold byteAt
    rw [framed, isByte]
    rfl
  have long : data.bytes.length = 6 + rest.length := by
    rw [framed]
    simp only [List.length_cons]
    omega
  rw [decodeMessage, if_neg (by omega), bind_of_ok (byte 0 rfl), bind_of_ok (byte 1 rfl)]
  cases known : MessageType.fromU16 (UInt16.ofNat (2 ^ 8 * b0.toNat + b1.toNat)) with
  | none =>
    simp only [known]
    rfl
  | some msgType =>
    simp only [known]
    rw [bind_of_ok (byte 2 rfl), bind_of_ok (byte 3 rfl), bind_of_ok (byte 4 rfl),
      bind_of_ok (byte 5 rfl)]
    generalize length_eq :
      2 ^ 24 * b2.toNat + 2 ^ 16 * b3.toNat + 2 ^ 8 * b4.toNat + b5.toNat = length
    have small : length < 2 ^ 32 := by
      have h2 := b2.toNat_lt
      have h3 := b3.toNat_lt
      have h4 := b4.toNat_lt
      have h5 := b5.toNat_lt
      omega
    rw [bind_of_ok (addUsize_of_lt (by omega)), long]
    by_cases truncated : rest.length < length
    · rw [if_pos (by omega), if_pos truncated]
      have got : subUsize build (6 + rest.length) 6 decoder = .ok rest.length decoder := by
        unfold subUsize
        rw [if_pos (by omega), Nat.add_sub_cancel_left]
        rfl
      rw [bind_of_ok got]
      rfl
    · rw [if_neg (by omega), if_neg truncated]
      have payload : sliceOf 6 (6 + length) decoder = .ok (rest.take length) decoder := by
        unfold sliceOf
        rw [if_pos (by omega), Nat.add_sub_cancel_left, framed]
        rfl
      rw [bind_of_ok payload]
      rfl

/-- `decode_message` ends with a value or an error on every slice. -/
theorem decodeMessage_total (build : Build) (data : Slice) :
    (∃ message, decodeMessage build (.new data) = .ok message (.new data)) ∨
      ∃ details, decodeMessage build (.new data) = .error (.error details) (.new data) := by
  by_cases short : data.bytes.length < 6
  · refine .inr ⟨.messageTooShort data.bytes.length, ?_⟩
    rw [decodeMessage, if_pos short]
    rfl
  · match framed : data.bytes with
    | b0 :: b1 :: b2 :: b3 :: b4 :: b5 :: rest =>
      rw [decodeMessage_cons framed]
      simp only
      split
      · exact .inr ⟨_, rfl⟩
      · split
        · exact .inr ⟨_, rfl⟩
        · exact .inl ⟨_, rfl⟩
    | [] | [_] | [_, _] | [_, _, _] | [_, _, _, _] | [_, _, _, _, _] =>
      rw [framed] at short
      simp only [List.length_cons, List.length_nil] at short
      omega

/-! ## The decoders of the replies -/

/-- Each decoder of a reply ends in order exactly when its bytes do not begin with whole fields
and an overrun; unframing always does. -/
theorem decoders_total_iff (build : Build) (data : Slice) :
    (Total (PublicKeyResponse.decode build data) ↔
      ¬MeetsOverrun PublicKeyResponse.fields PublicKeyResponse.start 0 data.bytes) ∧
    (Total (FailureResponse.decode build data) ↔
      ¬MeetsOverrun FailureResponse.fields FailureResponse.start 0 data.bytes) ∧
    (Total (ButtonRequestMessage.decode build data) ↔
      ¬MeetsOverrun ButtonRequestMessage.fields () 0 data.bytes) ∧
    ((∃ message, decodeMessage build (.new data) = .ok message (.new data)) ∨
      ∃ details, decodeMessage build (.new data) = .error (.error details) (.new data)) :=
  ⟨total_decodeWith_iff, total_decodeWith_iff, total_decodeWith_iff, decodeMessage_total build data⟩

/-- Field 1 with the length `2 ^ 64 - 11`: the stop of its body wraps to 0. -/
def wrappingReply : Slice where
  bytes := [0x0A, 0xF5, 0xFF, 0xFF, 0xFF, 0xFF, 0xFF, 0xFF, 0xFF, 0xFF, 0x01]
  fits := by decide

theorem not_total_wrappingReply :
    ¬Total (PublicKeyResponse.decode .debug wrappingReply) ∧
      ¬Total (PublicKeyResponse.decode .release wrappingReply) := by
  have meets : MeetsOverrun PublicKeyResponse.fields PublicKeyResponse.start 0
      wrappingReply.bytes := by
    refine ⟨0, [], wrappingReply.bytes, [], _, rfl, .nil, [0x0A], _, rfl, ?_, ?_, ?_, ?_⟩
    · exact ⟨by decide, by decide⟩
    · exact ⟨.lengthDelimited, by decide, .inr ⟨rfl, rfl⟩⟩
    · exact ⟨by decide, by decide⟩
    · decide
  exact ⟨fun total => total_decodeWith_iff.mp total meets,
    fun total => total_decodeWith_iff.mp total meets⟩

end Bitgarth.Trezor

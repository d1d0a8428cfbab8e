import FileServer.Checksum.Bursts
import FileServer.Protocol.Streams

/-!
# Altered frames

A change of at most four bytes in a row, behind the header, is seen by the
checksum, so that the decoder does not emit the altered frame.  The lengths in
the header have 32 bits; of a longer message they describe only a part.
-/

namespace FileServer.Protocol

open FileServer.Checksum FileServer.Encoding

def received (frame : Bytes) : Message := (MessageHeader.decodeFrom frame).2.extract frame

theorem not_emitted {frame : Bytes}
    (whole : (MessageHeader.decodeFrom frame).2.totalNeeded = frame.length)
    (broken : ¬(received frame).Verified) {d : Decoder} (sound : d.Sound) {later : Bytes}
    (arrived : d.buffer = frame ++ later) : d.tryParseMessage.1 = none := by
  have least := (MessageHeader.decodeFrom frame).2.length_le_totalNeeded
  have enough : kHeaderSize ≤ frame.length := by omega
  have extracted : (MessageHeader.decodeFrom frame).2.extract (frame ++ later) = received frame :=
    MessageHeader.extract_append (le_of_eq whole) later
  have front : frameAt d.buffer = .skip := by
    have long : ¬(frame ++ later).length < kHeaderSize := by
      rw [List.length_append]
      omega
    have complete : ¬(frame ++ later).length < (MessageHeader.decodeFrom frame).2.totalNeeded := by
      rw [whole, List.length_append]
      omega
    rw [arrived, frameAt, if_neg long, MessageHeader.decodeFrom_append enough]
    simp only [if_neg complete, extracted, if_neg broken]
    split <;> rfl
  obtain ⟨_, attempted⟩ := Decoder.attempts_tryParse sound
  rw [front] at attempted
  exact attempted.1

section Bursts

variable {msg : Message} (body : msg.jsonBody.length < 2 ^ 32)
  (data : msg.binaryData.length < 2 ^ 32) {before window window' after : Bytes}
  (cut : Encoder.encode msg = before ++ window ++ after) (region : kHeaderSize ≤ before.length)
  (short : window.length ≤ 4) (length : window'.length = window.length) (altered : window' ≠ window)
include body data cut region length

theorem received_altered : ∃ front,
    msg.jsonBody ++ msg.binaryData = front ++ window ++ after ∧
      (received (before ++ window' ++ after)).header = (Encoder.sent msg).header ∧
      (received (before ++ window' ++ after)).jsonBody ++
        (received (before ++ window' ++ after)).binaryData = front ++ window' ++ after ∧
      (MessageHeader.decodeFrom (before ++ window' ++ after)).2.totalNeeded =
        (before ++ window' ++ after).length := by
  rw [Encoder.encode_eq] at cut
  have size := MessageHeader.length_encodeTo (Encoder.sent msg).header
  obtain ⟨front, rfl⟩ : (Encoder.sent msg).header.encodeTo <+: before := by
    refine List.prefix_of_prefix_length_le ⟨msg.jsonBody ++ msg.binaryData, ?_⟩
      ⟨window ++ after, List.append_assoc .. |>.symm⟩ (by omega)
    rw [← List.append_assoc, cut]
  have rest : msg.jsonBody ++ msg.binaryData = front ++ window ++ after := by
    simpa [List.append_assoc] using cut
  have frame : (Encoder.sent msg).header.encodeTo ++ front ++ window' ++ after =
      (Encoder.sent msg).header.encodeTo ++ (front ++ window' ++ after) := by
    simp only [List.append_assoc]
  have decoded : (MessageHeader.decodeFrom
      ((Encoder.sent msg).header.encodeTo ++ front ++ window' ++ after)).2 =
        (Encoder.sent msg).header := by
    rw [frame, MessageHeader.decodeFrom_encodeTo]
  have lengths := congrArg List.length rest
  simp only [List.length_append] at lengths
  have bodyLength : (Encoder.sent msg).header.bodyLength.toNat = msg.jsonBody.length := by
    rw [Encoder.sent, Encoder.unsealed, UInt32.toNat_ofNat']
    exact Nat.mod_eq_of_lt body
  have dataLength : (Encoder.sent msg).header.dataLength.toNat = msg.binaryData.length := by
    rw [Encoder.sent, Encoder.unsealed, UInt32.toNat_ofNat']
    exact Nat.mod_eq_of_lt data
  have whole : (Encoder.sent msg).header.totalNeeded =
      ((Encoder.sent msg).header.encodeTo ++ front ++ window' ++ after).length := by
    simp only [MessageHeader.totalNeeded, bodyLength, dataLength, List.length_append, size, length]
    omega
  refine ⟨front, rest, ?_, ?_, ?_⟩
  · rw [received, decoded]
    rfl
  · obtain ⟨raw, _, _⟩ := MessageHeader.extract_raw (le_of_eq whole)
    rw [whole, List.take_length, frame, ← size, List.take_left, List.append_assoc] at raw
    rw [received, decoded, frame]
    exact List.append_cancel_left raw
  · rw [decoded, whole]

include short altered in
/-- The checksum of an altered frame is wrong, and no decoder emits it. -/
theorem burst_rejected :
    Encoder.crc32 ({ (received (before ++ window' ++ after)).header with checksum := 0 }.encodeTo ++
        (received (before ++ window' ++ after)).jsonBody ++
          (received (before ++ window' ++ after)).binaryData) ≠
      (received (before ++ window' ++ after)).header.checksum ∧
    ∀ d : Decoder, d.Sound → ∀ later, d.buffer = before ++ window' ++ after ++ later →
      d.tryParseMessage.1 = none := by
  obtain ⟨front, rest, header, tail, whole⟩ := received_altered body data cut region length
  have broken : ¬(received (before ++ window' ++ after)).Verified := by
    intro verified
    rw [Message.Verified, header, List.append_assoc, tail, Encoder.sent,
      List.append_assoc (Encoder.unsealed msg).encodeTo, rest] at verified
    have checks := congrArg UInt32.toBitVec verified
    simp only [Encoder.crc32_toBitVec, ← List.append_assoc] at checks
    exact check_ne_of_burst (by decide) (by omega) length altered checks
  exact ⟨broken, fun d sound later arrived => not_emitted whole broken sound arrived⟩

end Bursts

def letterMessage : Message := { jsonBody := [0x7B, 0x7D], binaryData := [7] }

theorem burst_rejected_letter :
    (Decoder.tryParseMessage { buffer := (Encoder.encode letterMessage).take 26 ++ [8] }).1 = none :=
  (@burst_rejected letterMessage (by decide) (by decide) ((Encoder.encode letterMessage).take 26)
    [7] [8] [] (by decide +kernel) (by decide +kernel) (by decide) rfl (by decide)).2
      { buffer := (Encoder.encode letterMessage).take 26 ++ [8] } (Decoder.sound_of_waitHeader rfl) []
      (by simp)

section Long

/-- The checksum register is empty after the header with this number. -/
def longHeader : MessageHeader := { requestId := 58124033 }

theorem register_longHeader :
    longHeader.encodeTo.foldl (feed Encoder.polynomial) (BitVec.allOnes 32) = 0#32 := by
  decide +kernel

theorem register_zeros (count : Nat) :
    (List.replicate count 0).foldl (feed Encoder.polynomial) 0#32 = 0#32 := by
  induction count with
  | zero => rfl
  | succ count inductionHypothesis =>
      have still : feed Encoder.polynomial 0#32 0 = 0#32 := by decide
      rw [List.replicate_succ, List.foldl_cons, still, inductionHypothesis]

theorem crc32_zeros (count : Nat) :
    Encoder.crc32 (longHeader.encodeTo ++ List.replicate count 0) = 0xFFFFFFFF := by
  apply UInt32.toBitVec_inj.mp
  rw [Encoder.crc32_toBitVec, check, List.foldl_append, register_longHeader, register_zeros]
  rfl

def sealed : MessageHeader := { longHeader with checksum := 0xFFFFFFFF }

def zeros (count : Nat) : Message :=
  { header := longHeader, jsonBody := List.replicate count 0, binaryData := [] }

theorem encode_zeros {count : Nat} (wraps : UInt32.ofNat count = 0) :
    Encoder.encode (zeros count) = sealed.encodeTo ++ List.replicate count 0 := by
  have unsealed : Encoder.unsealed (zeros count) = longHeader := by
    simp only [Encoder.unsealed, zeros, List.length_replicate, wraps]
    rfl
  have crc : Encoder.crc32 ((Encoder.unsealed (zeros count)).encodeTo ++
      (zeros count).jsonBody ++ (zeros count).binaryData) = 0xFFFFFFFF := by
    rw [unsealed]
    simpa [zeros] using crc32_zeros count
  rw [Encoder.encode_eq, Encoder.sent, crc, unsealed]
  simp [zeros, sealed]

/-- Behind the header of an empty frame anything may stand. -/
theorem emitted_sealed (rest : Bytes) :
    ({ buffer := sealed.encodeTo ++ rest } : Decoder).tryParseMessage.1 ≠ none := by
  have decoded : MessageHeader.decodeFrom (sealed.encodeTo ++ rest) = (true, sealed) := by
    rw [MessageHeader.decodeFrom_encodeTo]
    rfl
  have enough : ¬(sealed.encodeTo ++ rest).length < kHeaderSize := by
    rw [List.length_append, MessageHeader.length_encodeTo]
    omega
  have empty : sealed.extract (sealed.encodeTo ++ rest) = ⟨sealed, [], []⟩ := by
    simp [MessageHeader.extract, sealed, longHeader]
  have verified : (⟨sealed, [], []⟩ : Message).Verified := by
    show Encoder.crc32 (longHeader.encodeTo ++ [] ++ []) = 0xFFFFFFFF
    simpa using crc32_zeros 0
  have front : frameAt (sealed.encodeTo ++ rest) = .take sealed.totalNeeded ⟨sealed, [], []⟩ := by
    rw [frameAt, if_neg enough, decoded]
    simp only [if_true, empty, if_pos verified]
    rw [if_neg]
    exact enough
  obtain ⟨_, attempted⟩ :=
    Decoder.attempts_tryParse (d := { buffer := sealed.encodeTo ++ rest })
      (Decoder.sound_of_waitHeader rfl)
  rw [front] at attempted
  rw [attempted.1]
  exact Option.some_ne_none _

/-- Four gigabytes of zeros are sent under the length zero: whatever becomes of
the last of them, the frame is emitted. -/
theorem long_undetected : ¬∀ (msg : Message) (before window window' after : Bytes),
    Encoder.encode msg = before ++ window ++ after → kHeaderSize ≤ before.length →
    window.length ≤ 4 → window'.length = window.length → window' ≠ window →
    ∀ d : Decoder, d.Sound → ∀ later, d.buffer = before ++ window' ++ after ++ later →
      d.tryParseMessage.1 = none := by
  intro rejected
  have cut : ∀ count, UInt32.ofNat (count + 1) = 0 → Encoder.encode (zeros (count + 1)) =
      sealed.encodeTo ++ List.replicate count 0 ++ [0] ++ [] := by
    intro count wraps
    rw [encode_zeros wraps, List.replicate_succ', List.append_nil, List.append_assoc]
  have region : ∀ count, kHeaderSize ≤ (sealed.encodeTo ++ List.replicate count 0).length := by
    intro count
    rw [List.length_append, MessageHeader.length_encodeTo]
    omega
  have altered := rejected _ _ [0] [1] [] (cut (2 ^ 32 - 1) (by decide)) (region _) (by decide) rfl
    (by decide)
  let rest : Bytes := List.replicate (2 ^ 32 - 1) 0 ++ [1]
  have sound : Decoder.Sound { buffer := sealed.encodeTo ++ rest } := Decoder.sound_of_waitHeader rfl
  refine emitted_sealed rest (altered _ sound [] ?_)
  rw [List.append_nil, List.append_nil, List.append_assoc]

end Long

end FileServer.Protocol

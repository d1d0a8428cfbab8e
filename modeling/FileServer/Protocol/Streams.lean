import FileServer.Protocol.Decoder
import Mathlib.Data.List.Forall2

/-!
# Streams of frames

What a decoder emits for a stream, whatever the pieces it arrives in.  Frames
in a row are decoded however they are cut; a dropped byte ends the loop of
`Feed` early, so that other streams depend on where they were cut.
-/

namespace FileServer.Protocol

open FileServer.Encoding FileServer.Sequence

/-- The message can be sent: its magic number is the protocol's and its lengths
fit the header. -/
structure Message.Sendable (msg : Message) : Prop where
  magic : msg.header.magic = kProtocolMagic
  body : msg.jsonBody.length < 2 ^ 32
  data : msg.binaryData.length < 2 ^ 32

structure Message.SentAs (msg emitted : Message) : Prop where
  version : emitted.header.version = msg.header.version
  msgType : emitted.header.msgType = msg.header.msgType
  requestId : emitted.header.requestId = msg.header.requestId
  jsonBody : emitted.jsonBody = msg.jsonBody
  binaryData : emitted.binaryData = msg.binaryData
  bodyLength : emitted.header.bodyLength.toNat = msg.jsonBody.length
  dataLength : emitted.header.dataLength.toNat = msg.binaryData.length

namespace Encoder

/-- The header with its lengths, before the checksum is filled in. -/
def unsealed (msg : Message) : MessageHeader :=
  { msg.header with
    bodyLength := .ofNat msg.jsonBody.length, dataLength := .ofNat msg.binaryData.length
    checksum := 0 }

def sent (msg : Message) : Message :=
  { msg with header := { unsealed msg with
      checksum := crc32 ((unsealed msg).encodeTo ++ msg.jsonBody ++ msg.binaryData) } }

theorem encode_eq (msg : Message) :
    encode msg = (sent msg).header.encodeTo ++ msg.jsonBody ++ msg.binaryData := rfl

theorem sent_verified (msg : Message) : (sent msg).Verified := rfl

theorem sent_sentAs {msg : Message} (sendable : msg.Sendable) : msg.SentAs (sent msg) where
  version := rfl
  msgType := rfl
  requestId := rfl
  jsonBody := rfl
  binaryData := rfl
  bodyLength := by
    rw [sent, unsealed, UInt32.toNat_ofNat']
    exact Nat.mod_eq_of_lt sendable.body
  dataLength := by
    rw [sent, unsealed, UInt32.toNat_ofNat']
    exact Nat.mod_eq_of_lt sendable.data

theorem length_encode {msg : Message} (sendable : msg.Sendable) :
    (encode msg).length = (sent msg).header.totalNeeded := by
  have as := sent_sentAs sendable
  rw [encode_eq, List.length_append, List.length_append, MessageHeader.length_encodeTo,
    MessageHeader.totalNeeded, as.bodyLength, as.dataLength]

theorem frameAt_encode {msg : Message} (sendable : msg.Sendable) (rest : Bytes) :
    frameAt (encode msg ++ rest) = .take (encode msg).length (sent msg) := by
  have as := sent_sentAs sendable
  have size := length_encode sendable
  have long : ¬(encode msg ++ rest).length < (sent msg).header.totalNeeded := by
    rw [List.length_append, size]
    omega
  have header : ¬(encode msg ++ rest).length < kHeaderSize := by
    have least := (sent msg).header.length_le_totalNeeded
    omega
  have decoded : MessageHeader.decodeFrom (encode msg ++ rest) = (true, (sent msg).header) := by
    rw [encode_eq, List.append_assoc, List.append_assoc, MessageHeader.decodeFrom_encodeTo]
    exact congrArg (·, _) (decide_eq_true sendable.magic)
  have extracted : (sent msg).header.extract (encode msg ++ rest) = sent msg := by
    have front := MessageHeader.length_encodeTo (sent msg).header
    simp only [MessageHeader.extract, as.bodyLength, as.dataLength, encode_eq, List.append_assoc,
      ← List.drop_drop, ← front, List.drop_left, List.take_left]
    rfl
  simp only [frameAt, if_neg header, decoded, if_true, if_neg long, extracted,
    if_pos (sent_verified msg), size]

theorem encode_of_take {stream : Bytes} {count : Nat} {msg : Message}
    (taken : frameAt stream = .take count msg) : encode msg = stream.take count := by
  simp only [frameAt] at taken
  split at taken
  · cases taken
  next enough =>
  split at taken
  next matched =>
    split at taken
    · cases taken
    next whole =>
    split at taken
    next verified =>
      cases taken
      generalize read : (MessageHeader.decodeFrom stream).2 = header at verified whole ⊢
      obtain ⟨raw, body, data⟩ := MessageHeader.extract_raw (Nat.le_of_not_lt whole)
      have written := MessageHeader.encodeTo_decodeFrom (Nat.le_of_not_lt enough)
      rw [read] at written
      have opened : unsealed (header.extract stream) = { header with checksum := 0 } := by
        rw [unsealed, body, data, UInt32.ofNat_toNat, UInt32.ofNat_toNat]
        rfl
      have same : sent (header.extract stream) = header.extract stream := by
        rw [sent, opened]
        exact congrArg (fun checksum => { header.extract stream with
          header := { header with checksum } }) verified
      rw [encode_eq, same, ← raw, ← written]
      rfl
    · cases taken
  · cases taken

/-- The frames of a batch, as cuts of its encoding. -/
def cuts (msgs : List Message) : List (Cut UInt8 Message) :=
  msgs.map fun msg => ⟨encode msg, some (sent msg)⟩

theorem cuts_raw (msgs : List Message) : (cuts msgs).flatMap Cut.raw = encodeBatch msgs := by
  simp [cuts, encodeBatch, List.flatMap_map]

theorem cuts_items (msgs : List Message) : Scanner.items (cuts msgs) = msgs.map sent := by
  simp [cuts, Scanner.items, List.filterMap_map]

theorem cuts_clean (msgs : List Message) : Scanner.Clean (cuts msgs) := by
  simp [cuts, Scanner.Clean]

theorem scans_encodeBatch {msgs : List Message} (sendable : ∀ msg ∈ msgs, msg.Sendable) :
    frames.Scans (encodeBatch msgs) (cuts msgs) [] := by
  induction msgs with
  | nil => exact .stop []
  | cons msg msgs inductionHypothesis =>
      have split : encodeBatch (msg :: msgs) = encode msg ++ encodeBatch msgs := by
        simp [encodeBatch]
      have taken : frames.verdict (encode msg ++ encodeBatch msgs) =
          .take (encode msg).length (sent msg) := by
        rw [frames_verdict, frameAt_encode (sendable msg List.mem_cons_self)]
      have others := inductionHypothesis fun other membership => sendable other (by simp [membership])
      rw [← @List.drop_left _ (encode msg) (encodeBatch msgs)] at others
      have scans := Scanner.Scans.take taken others
      rwa [List.take_left, ← split] at scans

end Encoder

theorem length_lt_of_wait {buffer later : Bytes} {msg : Message} {msgs : List Message}
    (sendable : msg.Sendable) (waits : frameAt buffer = .wait)
    (continued : buffer ++ later = Encoder.encodeBatch (msg :: msgs)) :
    buffer.length < (Encoder.encode msg).length := by
  by_contra whole
  rw [Encoder.encodeBatch, List.flatMap_cons, List.append_eq_append_iff] at continued
  rcases continued with ⟨missing, frame, _⟩ | ⟨extra, rfl, _⟩
  · have lengths := congrArg List.length frame
    rw [List.length_append] at lengths
    obtain rfl : missing = [] := List.eq_nil_of_length_eq_zero (by omega)
    rw [List.append_nil] at frame
    have taken := Encoder.frameAt_encode sendable []
    rw [List.append_nil, frame, waits] at taken
    cases taken
  · rw [Encoder.frameAt_encode sendable] at waits
    cases waits

section Batches

variable {msgs : List Message} (sendable : ∀ msg ∈ msgs, msg.Sendable)
include sendable

/-- Before all of a batch has arrived the decoder has emitted its first
messages and waits for the next one. -/
theorem feeds_front {earlier later : List Bytes}
    (cut : (earlier ++ later).flatten = Encoder.encodeBatch msgs) :
    ∃ front others, msgs = front ++ others ∧
      (Decoder.feeds earlier).1.flatten = front.map Encoder.sent ∧
      Encoder.encodeBatch front ++ (Decoder.feeds earlier).2.buffer = earlier.flatten ∧
      frameAt (Decoder.feeds earlier).2.buffer = .wait ∧
      (Decoder.feeds earlier).2.buffer ++ later.flatten = Encoder.encodeBatch others := by
  obtain ⟨_, results, rest⟩ := Decoder.feeds_spec earlier
  have scans := frames.scans_feeds earlier
  have stops := frames.stops_feeds earlier
  have through := scans.append later.flatten
  rw [← List.flatten_append, cut] at through
  obtain ⟨more, whole, continued⟩ := through.resume (Encoder.scans_encodeBatch sendable) frames.nil
  obtain ⟨front, others, rfl, begun, left⟩ := List.map_eq_append_iff.mp whole
  have frontCuts : (frames.feeds earlier).1.flatten = Encoder.cuts front := begun.symm
  have otherCuts : more = Encoder.cuts others := left.symm
  rw [frontCuts] at scans stops
  refine ⟨front, others, rfl, ?_, ?_, ?_, ?_⟩
  · rw [results, ← Scanner.items_flatten, frontCuts, Encoder.cuts_items]
  · rw [rest, ← Encoder.cuts_raw]
    exact scans.join
  · rw [rest]
    rcases stops with waits | ⟨cut, last, skipped⟩
    · exact waits
    · exact absurd skipped (Encoder.cuts_clean front cut (List.mem_of_mem_getLast? last))
  · rw [rest, ← Encoder.cuts_raw, ← otherCuts]
    simpa using continued.join.symm

/-- All of a batch is emitted, and nothing is left over. -/
theorem feeds_encodeBatch {pieces : List Bytes}
    (cut : pieces.flatten = Encoder.encodeBatch msgs) :
    (Decoder.feeds pieces).1.flatten = msgs.map Encoder.sent ∧
      (Decoder.feeds pieces).2.buffer = [] := by
  obtain ⟨front, others, rfl, emitted, _, waits, left⟩ :=
    feeds_front sendable (show (pieces ++ []).flatten = _ by simpa using cut)
  cases others with
  | nil =>
      refine ⟨?_, ?_⟩
      · rw [emitted, List.append_nil]
      · simpa [Encoder.encodeBatch] using left
  | cons msg others =>
      rw [List.flatten_nil, List.append_nil, Encoder.encodeBatch, List.flatMap_cons] at left
      rw [left, Encoder.frameAt_encode (sendable msg (by simp))] at waits
      cases waits

/-- Decoding undoes encoding under any segmentation. -/
theorem decode_encodeBatch {pieces : List Bytes}
    (cut : pieces.flatten = Encoder.encodeBatch msgs) :
    List.Forall₂ Message.SentAs msgs (Decoder.feeds pieces).1.flatten ∧
      (∀ earlier later, pieces = earlier ++ later → ∀ before msg after, msgs = before ++ msg :: after →
        (before.length < (Decoder.feeds earlier).1.flatten.length ↔
          (Encoder.encodeBatch (before ++ [msg])).length ≤ earlier.flatten.length)) ∧
      (Decoder.feeds pieces).2.buffer = [] ∧ (Decoder.feeds pieces).2.state = .kWaitHeader := by
  obtain ⟨emitted, empty⟩ := feeds_encodeBatch sendable cut
  refine ⟨?_, ?_, empty, ?_⟩
  · rw [emitted, List.forall₂_map_right_iff, List.forall₂_same]
    intro msg membership
    exact Encoder.sent_sentAs (sendable msg (by simp [membership]))
  · rintro earlier later rfl before msg after split
    obtain ⟨front', others', whole, emitted', arrived', waits', left'⟩ :=
      feeds_front sendable cut
    rw [emitted', List.length_map, ← arrived', List.length_append]
    rw [whole] at split
    have pending : ∀ first rest, others' = first :: rest →
        (Decoder.feeds earlier).2.buffer.length < (Encoder.encode first).length := by
      rintro first rest rfl
      exact length_lt_of_wait (sendable first (by simp [whole])) waits' left'
    rcases List.append_eq_append_iff.mp split with ⟨missing, rfl, rest⟩ | ⟨emittedToo, rfl, rest⟩
    · cases missing with
      | nil =>
          have short := pending msg after rest
          simp only [Encoder.encodeBatch, List.append_nil, List.flatMap_append,
            List.flatMap_singleton, List.length_append]
          omega
      | cons first missing =>
          have short := pending first _ rest
          simp only [Encoder.encodeBatch, List.flatMap_append, List.flatMap_cons,
            List.flatMap_nil, List.length_append, List.length_cons]
          omega
    · cases emittedToo with
      | nil =>
          have short := pending msg after rest.symm
          simp only [Encoder.encodeBatch, List.append_nil, List.flatMap_append,
            List.flatMap_singleton, List.length_append]
          omega
      | cons first emittedToo =>
          obtain ⟨rfl, _⟩ := List.cons.inj rest
          simp only [Encoder.encodeBatch, List.flatMap_append, List.flatMap_cons,
            List.flatMap_nil, List.length_append, List.length_cons, List.length_nil]
          omega
  · cases state : (Decoder.feeds pieces).2.state with
    | kWaitHeader => rfl
    | kWaitBody =>
        have enough := ((Decoder.feeds_spec pieces).1 state).1
        rw [empty] at enough
        cases enough

end Batches

/-- Two messages, the first of them with a body and data. -/
def sampleBatch : List Message :=
  [⟨{ msgType := 1, requestId := 7 }, [123, 125], [5]⟩, ⟨{ msgType := 2, requestId := 8 }, [], []⟩]

/-- The encoding of the two, cut within a header and by an empty piece. -/
def samplePieces : List Bytes :=
  [(Encoder.encodeBatch sampleBatch).take 30, [], (Encoder.encodeBatch sampleBatch).drop 30]

theorem decode_sampleBatch :
    List.Forall₂ Message.SentAs sampleBatch (Decoder.feeds samplePieces).1.flatten ∧
      (Decoder.feeds samplePieces).2.buffer = [] :=
  have decoded := decode_encodeBatch
    (show ∀ msg ∈ sampleBatch, msg.Sendable by
        simp only [sampleBatch, List.forall_mem_cons]
        exact ⟨⟨rfl, by decide, by decide⟩, ⟨rfl, by decide, by decide⟩, by simp⟩)
    (show samplePieces.flatten = _ by simp [samplePieces])
  ⟨decoded.1, decoded.2.2.1⟩

theorem scans_raw {stream rest : Bytes} {cuts : List (Cut UInt8 Message)}
    (scans : frames.Scans stream cuts rest) :
    ∀ cut ∈ cuts, match cut.item with
      | some msg => cut.raw = Encoder.encode msg
      | none => cut.raw.length = 1 := by
  induction scans with
  | stop => simp
  | skip _ _ inductionHypothesis => exact List.forall_mem_cons.mpr ⟨rfl, inductionHypothesis⟩
  | take taken _ inductionHypothesis =>
      exact List.forall_mem_cons.mpr ⟨(Encoder.encode_of_take taken).symm, inductionHypothesis⟩

/-- Every message is the encoding of one part of the stream; the other bytes
were dropped one by one or are still in the buffer. -/
theorem emitted_encoded (pieces : List Bytes) :
    (∀ earlier piece later, pieces = earlier ++ piece :: later →
      ∃ msgs d, Decoder.Loop { (Decoder.feeds earlier).2 with
          buffer := (Decoder.feeds earlier).2.buffer ++ piece } msgs d ∧
        Decoder.feeds (earlier ++ [piece]) = ((Decoder.feeds earlier).1 ++ [msgs], d)) ∧
      ∃ cuts : List (Cut UInt8 Message),
        cuts.flatMap Cut.raw ++ (Decoder.feeds pieces).2.buffer = pieces.flatten ∧
        Scanner.items cuts = (Decoder.feeds pieces).1.flatten ∧
        ∀ cut ∈ cuts, match cut.item with
          | some msg => cut.raw = Encoder.encode msg
          | none => cut.raw.length = 1 := by
  constructor
  · rintro earlier piece later -
    obtain ⟨sound, _, _⟩ := Decoder.feeds_spec earlier
    obtain ⟨_, loop, _, _⟩ := Decoder.feed_spec sound piece
    exact ⟨_, _, loop, Decoder.feeds_append earlier piece⟩
  · obtain ⟨_, results, rest⟩ := Decoder.feeds_spec pieces
    have scans := frames.scans_feeds pieces
    refine ⟨(frames.feeds pieces).1.flatten, ?_, ?_, scans_raw scans⟩
    · rw [rest]
      exact scans.join
    · rw [results, Scanner.items_flatten]

/-- Frames one after another, then at most one byte at which no frame starts,
then an incomplete frame. -/
inductive Steady : Bytes → Prop where
  | incomplete {stream : Bytes} : frameAt stream = .wait → Steady stream
  | dropped {first : UInt8} {stream : Bytes} : frameAt (first :: stream) = .skip →
      frameAt stream = .wait → Steady (first :: stream)
  | frame {stream : Bytes} {count : Nat} {msg : Message} : frameAt stream = .take count msg →
      Steady (stream.drop count) → Steady stream

theorem steady_iff_settled {stream : Bytes} : Steady stream ↔ frames.Settled stream := by
  constructor
  · intro steady
    induction steady with
    | @incomplete stream waits => exact ⟨[], stream, .stop stream, by simp [Scanner.Tidy], waits⟩
    | @dropped first stream skipped waits =>
        exact ⟨_, stream, .skip skipped (.stop stream), by simp [Scanner.Tidy], waits⟩
    | frame taken _ inductionHypothesis =>
        obtain ⟨cuts, rest, scans, tidy, waits⟩ := inductionHypothesis
        refine ⟨_, rest, .take taken scans, ?_, waits⟩
        cases cuts with
        | nil => simp [Scanner.Tidy]
        | cons cut cuts =>
            rw [Scanner.Tidy, List.dropLast_cons_cons]
            exact List.forall_mem_cons.mpr ⟨by simp, tidy⟩
  · rintro ⟨cuts, rest, scans, tidy, waits⟩
    induction scans with
    | stop => exact .incomplete waits
    | @skip first stream cuts rest skipped scans inductionHypothesis =>
        cases cuts with
        | nil =>
            rw [scans.eq_of_nil] at waits
            exact .dropped skipped waits
        | cons cut cuts =>
            rw [Scanner.Tidy, List.dropLast_cons_cons] at tidy
            exact absurd rfl (tidy _ List.mem_cons_self)
    | @take stream count msg cuts rest taken scans inductionHypothesis =>
        refine .frame taken (inductionHypothesis ?_ waits)
        cases cuts with
        | nil => simp [Scanner.Tidy]
        | cons cut cuts =>
            rw [Scanner.Tidy, List.dropLast_cons_cons] at tidy
            exact (List.forall_mem_cons.mp tidy).2

theorem outcome_eq (pieces : List Bytes) :
    frames.outcome pieces =
      ((Decoder.feeds pieces).1.flatten, (Decoder.feeds pieces).2.buffer) := by
  obtain ⟨_, results, rest⟩ := Decoder.feeds_spec pieces
  rw [Scanner.outcome, results, rest, Scanner.items_flatten]

/-- Exactly the steady streams are decoded alike however they are cut, and
leave nothing for an empty piece to bring out. -/
theorem cuts_agree_iff (stream : Bytes) :
    ((∀ first second : List Bytes, first.flatten = stream → second.flatten = stream →
      (Decoder.feeds first).1.flatten = (Decoder.feeds second).1.flatten ∧
        (Decoder.feeds first).2.buffer = (Decoder.feeds second).2.buffer) ↔ Steady stream) ∧
    ((∀ pieces : List Bytes, pieces.flatten = stream →
      ((Decoder.feeds pieces).2.feed []).1 = [] ∧
        ((Decoder.feeds pieces).2.feed []).2.buffer = (Decoder.feeds pieces).2.buffer) ↔
      Steady stream) := by
  constructor
  · rw [steady_iff_settled, ← Scanner.outcome_agree_iff]
    simp only [outcome_eq, Prod.mk.injEq]
  · rw [steady_iff_settled, ← Scanner.outcome_idle_iff]
    simp only [outcome_eq, Prod.mk.injEq, Decoder.feeds_append, List.flatten_append,
      List.flatten_singleton, List.append_right_eq_self]

section Cut

/-- A byte that belongs to no frame, and a message after it. -/
def strayStream : Bytes := 0 :: Encoder.encode ⟨{ msgType := 1, requestId := 7 }, [], []⟩

/-- The message stays in the buffer when it arrives together with the stray
byte, and is emitted when an empty piece follows. -/
theorem cut_dependent : ¬∀ stream : Bytes, ∀ first second : List Bytes,
    first.flatten = stream → second.flatten = stream →
      (Decoder.feeds first).1.flatten = (Decoder.feeds second).1.flatten ∧
        (Decoder.feeds first).2.buffer = (Decoder.feeds second).2.buffer := by
  intro independent
  have same := (independent strayStream [strayStream] [strayStream, []] (by simp) (by simp)).2
  revert same
  decide +kernel

end Cut

end FileServer.Protocol

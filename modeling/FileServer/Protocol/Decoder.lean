import FileServer.Protocol.Codec
import FileServer.Sequence.Scanner

/-!
# The decoder

`Decoder` with its buffer and its two states.  Its loop stops when a message
is incomplete, and also after it has dropped a byte; what it does to the buffer
is the scan of one stream for frames.
-/

namespace FileServer.Protocol

open FileServer.Checksum FileServer.Encoding FileServer.Sequence

inductive Decoder.State where
  | kWaitHeader | kWaitBody
  deriving DecidableEq

structure Decoder where
  state : Decoder.State := .kWaitHeader
  buffer : Bytes := []
  currentHeader : MessageHeader := {}
  deriving DecidableEq

/-- Size of the frame that a header announces. -/
def MessageHeader.totalNeeded (h : MessageHeader) : Nat :=
  kHeaderSize + h.bodyLength.toNat + h.dataLength.toNat

def MessageHeader.extract (h : MessageHeader) (buffer : Bytes) : Message where
  header := h
  jsonBody := (buffer.drop kHeaderSize).take h.bodyLength.toNat
  binaryData := (buffer.drop (kHeaderSize + h.bodyLength.toNat)).take h.dataLength.toNat

/-- The checksum of the frame is the one its header carries. -/
def Message.Verified (msg : Message) : Prop :=
  Encoder.crc32 ({ msg.header with checksum := 0 }.encodeTo ++ msg.jsonBody ++ msg.binaryData) =
    msg.header.checksum

instance (msg : Message) : Decidable msg.Verified := inferInstanceAs (Decidable (_ = _))

namespace Decoder

/-- `TryParseMessage` in the state `kWaitBody`. -/
def parseBody (d : Decoder) : Option Message × Decoder :=
  if d.buffer.length < d.currentHeader.totalNeeded then
    (none, d)
  else
    let msg := d.currentHeader.extract d.buffer
    if msg.Verified then
      (some msg, { d with
        buffer := d.buffer.drop d.currentHeader.totalNeeded, state := .kWaitHeader })
    else
      (none, { d with buffer := d.buffer.drop 1, state := .kWaitHeader })

def tryParseMessage (d : Decoder) : Option Message × Decoder :=
  match d.state with
  | .kWaitHeader =>
      if d.buffer.length < kHeaderSize then
        (none, d)
      else
        let (matched, header) := MessageHeader.decodeFrom d.buffer
        if matched then
          { d with currentHeader := header, state := .kWaitBody }.parseBody
        else
          (none, { d with currentHeader := header, buffer := d.buffer.drop 1 })
  | .kWaitBody => d.parseBody

/-- The loop of `Feed`, which ends with the first attempt that fails. -/
inductive Loop : Decoder → List Message → Decoder → Prop where
  | stop {d d' : Decoder} : d.tryParseMessage = (none, d') → Loop d [] d'
  | next {d d' last : Decoder} {msg : Message} {msgs : List Message} :
      d.tryParseMessage = (some msg, d') → Loop d' msgs last → Loop d (msg :: msgs) last

def feedLoop : Nat → Decoder → List Message × Decoder
  | 0, d => ([], d)
  | fuel + 1, d =>
      match d.tryParseMessage with
      | (none, d) => ([], d)
      | (some msg, d) =>
          let (msgs, d) := feedLoop fuel d
          (msg :: msgs, d)

def feed (d : Decoder) (data : Bytes) : List Message × Decoder :=
  let d := { d with buffer := d.buffer ++ data }
  feedLoop (d.buffer.length + 1) d

def feeds (pieces : List Bytes) : List (List Message) × Decoder :=
  pieces.foldl (fun (all, d) piece =>
    let (msgs, d) := d.feed piece
    (all ++ [msgs], d)) ([], {})

end Decoder

theorem MessageHeader.length_le_totalNeeded (h : MessageHeader) :
    kHeaderSize ≤ h.totalNeeded := by
  rw [totalNeeded]
  omega

theorem MessageHeader.extract_raw {h : MessageHeader} {buffer : Bytes}
    (enough : h.totalNeeded ≤ buffer.length) :
    buffer.take kHeaderSize ++ (h.extract buffer).jsonBody ++ (h.extract buffer).binaryData =
        buffer.take h.totalNeeded ∧
      (h.extract buffer).jsonBody.length = h.bodyLength.toNat ∧
      (h.extract buffer).binaryData.length = h.dataLength.toNat := by
  rw [totalNeeded] at enough
  refine ⟨?_, ?_, ?_⟩
  · simp only [extract, totalNeeded, List.take_add]
  · rw [extract, List.length_take_of_le (by rw [List.length_drop]; omega)]
  · rw [extract, List.length_take_of_le (by rw [List.length_drop]; omega)]

theorem MessageHeader.extract_append {h : MessageHeader} {buffer : Bytes}
    (enough : h.totalNeeded ≤ buffer.length) (later : Bytes) :
    h.extract (buffer ++ later) = h.extract buffer := by
  rw [totalNeeded] at enough
  have part : ∀ offset width, offset + width ≤ buffer.length →
      ((buffer ++ later).drop offset).take width = (buffer.drop offset).take width := by
    intro offset width inRange
    rw [List.drop_append_of_le_length (by omega), List.take_append_of_le_length (by
      rw [List.length_drop]
      omega)]
  rw [extract, extract, part _ _ (by omega), part _ _ (by omega)]

def frameAt (stream : Bytes) : Verdict Message :=
  if stream.length < kHeaderSize then
    .wait
  else
    let (matched, header) := MessageHeader.decodeFrom stream
    if matched then
      if stream.length < header.totalNeeded then
        .wait
      else if (header.extract stream).Verified then
        .take header.totalNeeded (header.extract stream)
      else
        .skip
    else
      .skip

theorem frameAt_append {front : Bytes} (rest : Bytes) (decided : frameAt front ≠ .wait) :
    frameAt (front ++ rest) = frameAt front := by
  unfold frameAt at decided ⊢
  by_cases short : front.length < kHeaderSize
  · simp [short] at decided
  · have enough : ¬(front ++ rest).length < kHeaderSize := by
      rw [List.length_append]
      omega
    rw [if_neg short] at decided ⊢
    rw [if_neg enough, MessageHeader.decodeFrom_append (Nat.le_of_not_lt short)]
    generalize MessageHeader.decodeFrom front = result at decided ⊢
    obtain ⟨matched, header⟩ := result
    cases matched with
    | false => rfl
    | true =>
        by_cases partly : front.length < header.totalNeeded
        · simp [partly] at decided
        · have whole : ¬(front ++ rest).length < header.totalNeeded := by
            rw [List.length_append]
            omega
          simp only [partly, whole, if_false, if_true,
            MessageHeader.extract_append (Nat.le_of_not_lt partly)]

theorem frameAt_nil : frameAt [] = .wait := by decide

theorem frameAt_bounded {input : Bytes} {count : Nat} {msg : Message}
    (taken : frameAt input = .take count msg) : 0 < count ∧ count ≤ input.length := by
  simp only [frameAt] at taken
  split at taken
  · cases taken
  · split at taken
    · split at taken
      · cases taken
      · next enough =>
          split at taken
          · cases taken
            have positive := MessageHeader.length_le_totalNeeded
              (MessageHeader.decodeFrom input).2
            rw [kHeaderSize] at positive
            omega
          · cases taken
    · cases taken

def frames : Scanner UInt8 Message where
  verdict := frameAt
  stable _ rest decided := frameAt_append rest decided
  nil := frameAt_nil
  bounded _ _ _ taken := frameAt_bounded taken

theorem frames_verdict (stream : Bytes) : frames.verdict stream = frameAt stream := rfl

namespace Decoder

/-- The header kept is the one in front of the buffer. -/
def Sound (d : Decoder) : Prop :=
  d.state = .kWaitBody → kHeaderSize ≤ d.buffer.length ∧
    MessageHeader.decodeFrom d.buffer = (true, d.currentHeader)

theorem sound_fresh : Sound {} := by simp [Sound]

theorem sound_of_waitHeader {d : Decoder} (waits : d.state = .kWaitHeader) : d.Sound := by
  simp [Sound, waits]

/-- What an attempt does with a buffer, by what stands in front. -/
def Attempts (d : Decoder) (result : Option Message × Decoder) : Prop :=
  result.2.Sound ∧
    match frameAt d.buffer with
    | .wait => result.1 = none ∧ result.2.buffer = d.buffer
    | .skip => result.1 = none ∧ result.2.buffer = d.buffer.drop 1
    | .take count msg => result.1 = some msg ∧ result.2.buffer = d.buffer.drop count

theorem attempts_parseBody {d : Decoder} (waits : d.state = .kWaitBody) (sound : d.Sound) :
    d.Attempts d.parseBody := by
  obtain ⟨enough, decoded⟩ := sound waits
  simp only [Attempts, frameAt, if_neg (Nat.not_lt.mpr enough), decoded, if_true, parseBody]
  by_cases partly : d.buffer.length < d.currentHeader.totalNeeded
  · simpa [partly] using sound
  · simp only [partly, if_false]
    by_cases verified : (d.currentHeader.extract d.buffer).Verified
    · simpa [verified] using sound_of_waitHeader rfl
    · simpa [verified] using sound_of_waitHeader rfl

theorem attempts_tryParse {d : Decoder} (sound : d.Sound) : d.Attempts d.tryParseMessage := by
  unfold tryParseMessage
  cases waits : d.state with
  | kWaitBody => exact attempts_parseBody waits sound
  | kWaitHeader =>
      by_cases short : d.buffer.length < kHeaderSize
      · simpa [Attempts, frameAt, short] using sound
      · simp only [short, if_false]
        cases decoded : MessageHeader.decodeFrom d.buffer with
        | mk matched header =>
            cases matched with
            | true =>
                exact attempts_parseBody (d := { d with currentHeader := header, state := .kWaitBody })
                  rfl fun _ => ⟨Nat.le_of_not_lt short, decoded⟩
            | false =>
                simpa [Attempts, frameAt, short, decoded] using sound_of_waitHeader rfl

theorem feedLoop_spec (fuel : Nat) {d : Decoder} (sound : d.Sound)
    (enough : d.buffer.length < fuel) :
    (d.feedLoop fuel).2.Sound ∧ Loop d (d.feedLoop fuel).1 (d.feedLoop fuel).2 ∧
      (d.feedLoop fuel).1 = Scanner.items (frames.advance fuel d.buffer).1 ∧
      (d.feedLoop fuel).2.buffer = (frames.advance fuel d.buffer).2 := by
  induction fuel generalizing d with
  | zero => omega
  | succ fuel inductionHypothesis =>
      obtain ⟨kept, attempted⟩ := attempts_tryParse sound
      cases tried : d.tryParseMessage with
      | mk result next =>
          rw [tried] at kept attempted
          cases front : frameAt d.buffer with
          | wait =>
              rw [front] at attempted
              obtain ⟨rfl, same⟩ := attempted
              simp only [feedLoop, tried, Scanner.advance, frames_verdict, front]
              exact ⟨kept, .stop tried, rfl, same⟩
          | skip =>
              rw [front] at attempted
              obtain ⟨rfl, same⟩ := attempted
              simp only [feedLoop, tried, Scanner.advance, frames_verdict, front]
              exact ⟨kept, .stop tried, rfl, same⟩
          | take count msg =>
              rw [front] at attempted
              obtain ⟨rfl, same⟩ := attempted
              have bounds := frames.bounded _ _ _ ((frames_verdict _).trans front)
              have shorter : next.buffer.length < fuel := by
                rw [same, List.length_drop]
                omega
              obtain ⟨sound', loop, results, rest⟩ := inductionHypothesis kept shorter
              simp only [feedLoop, tried, Scanner.advance, frames_verdict, front]
              rw [same] at results rest
              exact ⟨sound', .next tried loop, by simp [Scanner.items, results], rest⟩

theorem feed_spec {d : Decoder} (sound : d.Sound) (data : Bytes) :
    (d.feed data).2.Sound ∧
      Loop { d with buffer := d.buffer ++ data } (d.feed data).1 (d.feed data).2 ∧
      (d.feed data).1 = Scanner.items (frames.feed d.buffer data).1 ∧
      (d.feed data).2.buffer = (frames.feed d.buffer data).2 := by
  refine feedLoop_spec _ ?_ (Nat.lt_succ_self _)
  intro waits
  obtain ⟨enough, decoded⟩ := sound waits
  refine ⟨by rw [List.length_append]; omega, ?_⟩
  rw [MessageHeader.decodeFrom_append enough]
  exact decoded

theorem feeds_append (pieces : List Bytes) (piece : Bytes) :
    feeds (pieces ++ [piece]) =
      ((feeds pieces).1 ++ [((feeds pieces).2.feed piece).1], ((feeds pieces).2.feed piece).2) := by
  simp [feeds]

/-- A fresh decoder is fed as the scan of the stream is. -/
theorem feeds_spec (pieces : List Bytes) :
    (feeds pieces).2.Sound ∧ (feeds pieces).1 = (frames.feeds pieces).1.map Scanner.items ∧
      (feeds pieces).2.buffer = (frames.feeds pieces).2 := by
  induction pieces using List.reverseRecOn with
  | nil => exact ⟨sound_fresh, rfl, rfl⟩
  | append_singleton pieces piece inductionHypothesis =>
      obtain ⟨sound, results, rest⟩ := inductionHypothesis
      obtain ⟨sound', _, results', rest'⟩ := feed_spec sound piece
      rw [feeds_append, Scanner.feeds_append]
      rw [rest] at results' rest'
      exact ⟨sound', by simp [results, results'], rest'⟩

end Decoder

end FileServer.Protocol

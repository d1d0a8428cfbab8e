import FileServer.Protocol.Streams

/-!
# One way of a connection

The bytes of frames that were written and have not been read, and the decoder of
the reader, which the bytes reach in pieces of any size.
-/

namespace FileServer.Protocol

open FileServer.Encoding

structure Pipe where
  unread : Bytes := []
  decoder : Decoder := {}

namespace Pipe

def write (pipe : Pipe) (msg : Message) : Pipe :=
  { pipe with unread := pipe.unread ++ Encoder.encode msg }

/-- Some bytes arrive and are fed to the decoder. -/
def read (pipe : Pipe) (count : Nat) : List Message × Pipe :=
  let (msgs, decoder) := pipe.decoder.feed (pipe.unread.take count)
  (msgs, ⟨pipe.unread.drop count, decoder⟩)

/-- The pipe that `written` was written to and `emitted` was read from. -/
def Carries (written emitted : List Message) (pipe : Pipe) : Prop :=
  ∃ pieces, pieces.flatten ++ pipe.unread = Encoder.encodeBatch written ∧
    (Decoder.feeds pieces).1.flatten = emitted ∧ (Decoder.feeds pieces).2 = pipe.decoder

variable {written emitted : List Message} {pipe : Pipe}

theorem carries_start : Carries [] [] {} := ⟨[], rfl, rfl, rfl⟩

theorem Carries.write (carries : Carries written emitted pipe) (msg : Message) :
    Carries (written ++ [msg]) emitted (pipe.write msg) := by
  obtain ⟨pieces, bytes, results, decoder⟩ := carries
  refine ⟨pieces, ?_, results, decoder⟩
  simp only [Pipe.write, Encoder.encodeBatch, List.flatMap_append, List.flatMap_singleton]
  rw [← List.append_assoc, bytes, Encoder.encodeBatch]

theorem Carries.read (carries : Carries written emitted pipe) (count : Nat) :
    Carries written (emitted ++ (pipe.read count).1) (pipe.read count).2 := by
  obtain ⟨pieces, bytes, results, decoder⟩ := carries
  refine ⟨pieces ++ [pipe.unread.take count], ?_, ?_, ?_⟩
  · rw [← bytes, List.flatten_append, List.flatten_singleton, List.append_assoc]
    exact congrArg (pieces.flatten ++ ·) (List.take_append_drop count pipe.unread)
  · rw [Decoder.feeds_append, List.flatten_append, List.flatten_singleton, results, decoder]
    rfl
  · rw [Decoder.feeds_append, decoder]
    rfl

section Sendable

variable (carries : Carries written emitted pipe) (sendable : ∀ msg ∈ written, msg.Sendable)
include carries sendable

theorem Carries.front : emitted <+: written.map Encoder.sent := by
  obtain ⟨pieces, bytes, results, _⟩ := carries
  have cut : (pieces ++ [pipe.unread]).flatten = Encoder.encodeBatch written := by simpa using bytes
  obtain ⟨front, others, rfl, begun, _⟩ := feeds_front sendable cut
  rw [← results, begun, List.map_append]
  exact List.prefix_append _ _

theorem Carries.complete (arrived : pipe.unread = []) : emitted = written.map Encoder.sent := by
  obtain ⟨pieces, bytes, results, _⟩ := carries
  rw [← results]
  exact (feeds_encodeBatch sendable (by rw [← bytes, arrived, List.append_nil])).1

end Sendable

end Pipe

end FileServer.Protocol

import FileServer.Service.Reading

/-!
# Files as byte arrays

`WriteChunk` and `ReadChunk` on one path, one call at a time.  A write whose
first open fails empties a file that exists, and a read of an impossible size
throws; otherwise the file is the byte array that was written.
-/

namespace FileServer.Service

open FileServer.Encoding FileServer.Sequence FileServer.Transition

def content (world : World) (filepath : Bytes) : Bytes := (world.files filepath).getD []

structure Chunk where
  data : Bytes
  offset : Int64
  outcome : Outcome

/-- Successful calls of `WriteChunk` on one path. -/
def chunkWrites (filepath : Bytes) (initial : World) : System World Chunk where
  initial
  step world chunk :=
    let (written, next) := world.writeChunk chunk.outcome filepath chunk.data chunk.offset
    if written < 0 then none else some next

abbrev ChunkEvent := Event World Chunk

/-- The call changes the bytes of its range and no others. -/
def WritesChunk (filepath : Bytes) (event : ChunkEvent) : Prop :=
  WritesRange 0 (content event.before filepath) (content event.after filepath) event.action.data
    event.action.offset.toInt.toNat

def slice (bytes : Bytes) (offset : Int64) (size : UInt64) : Bytes :=
  if offset < 0 then [] else (bytes.drop offset.toInt.toNat).take size.toNat

/-- A file that exists is opened at the first try, or is not emptied after it,
or holds nothing but its gap outside the range. -/
def Preserves (filepath : Bytes) (event : ChunkEvent) : Prop :=
  event.action.outcome.opens = true ∨ event.action.outcome.creates = false ∨
    ∀ position < (content event.before filepath).length,
      (event.action.offset.toInt ≤ position ∧
        position < event.action.offset.toInt + event.action.data.length) ∨
      (event.action.data ≠ [] ∧ position < event.action.offset.toInt ∧
        (content event.before filepath)[position]? = some 0)

def Readable (opens : Bool) (length : Nat) (offset : Int64) (size : UInt64) : Prop :=
  offset < 0 ∨ length ≤ offset.toInt ∨ size = 0 ∨ opens = true ∧ size.toNat < 2 ^ 63

section Writes

variable {filepath data : Bytes} {offset : Int64} {outcome : Outcome} {world : World}

theorem content_setFile (world : World) (filepath : Bytes) (bytes : Option Bytes) :
    content (world.setFile filepath bytes) filepath = bytes.getD [] := by
  rw [content, files_setFile, if_pos rfl]

theorem content_writeChunk (succeeded : ¬(world.writeChunk outcome filepath data offset).1 < 0) :
    0 ≤ offset.toInt ∧ offset.toInt + data.length < 2 ^ 63 ∧
      content (world.writeChunk outcome filepath data offset).2 filepath =
        overlay 0 (if outcome.opens = true ∨ outcome.creates = false then content world filepath
          else []) offset.toInt.toNat data := by
  have opened : content (world.openChunk outcome filepath).2 filepath =
      if outcome.opens = true ∨ outcome.creates = false then content world filepath else [] := by
    unfold World.openChunk
    by_cases present : (world.files filepath).isSome = true ∧ outcome.opens = true
    · rw [if_pos present, if_pos (.inl present.2)]
    · rw [if_neg present]
      cases creates : outcome.creates with
      | false => simp
      | true =>
          simp only [if_true, content_setFile, Option.getD_some, Bool.true_eq_false, or_false]
          split
          next opens =>
            have absent : world.files filepath = none := by
              cases found : world.files filepath with
              | none => rfl
              | some bytes => exact absurd ⟨by rw [found]; rfl, opens⟩ present
            rw [content, absent]
            rfl
          · rfl
  have negative : (-1 : Int64) < 0 := by decide
  unfold World.writeChunk at succeeded ⊢
  generalize world.openChunk outcome filepath = start at succeeded opened ⊢
  obtain ⟨ready, middle⟩ := start
  cases ready with
  | false => exact absurd negative succeeded
  | true =>
      simp only [Bool.not_true, Bool.false_eq_true, if_false] at succeeded ⊢
      by_cases sought : offset < 0 ∨ outcome.seeks = false
      · rw [if_pos (by simpa using sought)] at succeeded
        exact absurd negative succeeded
      have started : 0 ≤ offset.toInt := by
        have forward := (not_or.mp sought).1
        rwa [Int64.not_lt, Int64.le_iff_toInt_le, Int64.toInt_zero] at forward
      rw [if_neg (by simpa using sought)] at succeeded ⊢
      by_cases fits : offset.toInt + data.length < 2 ^ 63
      · cases part : outcome.written with
        | some count =>
            simp only [fits, if_true, part] at succeeded
            exact absurd negative succeeded
        | none =>
            simp only [fits, if_true]
            refine ⟨started, trivial, ?_⟩
            rw [content_setFile, ← opened]
            rfl
      · simp only [fits, if_false] at succeeded
        exact absurd negative succeeded

theorem length_writeChunk (bounded : (content world filepath).length < 2 ^ 63)
    (succeeded : ¬(world.writeChunk outcome filepath data offset).1 < 0) :
    (content (world.writeChunk outcome filepath data offset).2 filepath).length < 2 ^ 63 := by
  obtain ⟨started, fits, result⟩ := content_writeChunk succeeded
  have long := (writesRange_overlay 0 (if outcome.opens = true ∨ outcome.creates = false then
    content world filepath else []) data offset.toInt.toNat).length
  have start : (if outcome.opens = true ∨ outcome.creates = false then content world filepath
      else []).length < 2 ^ 63 := by
    split
    · exact bounded
    · simp
  rw [result, long]
  split
  · exact start
  · omega

/-- A successful call is a write of its range exactly when nothing else is
lost. -/
theorem writesChunk_iff {event : ChunkEvent}
    (stepped : (chunkWrites filepath world).step event.before event.action = some event.after) :
    WritesChunk filepath event ↔ Preserves filepath event := by
  obtain ⟨before, chunk, after⟩ := event
  simp only [chunkWrites] at stepped
  split at stepped
  · cases stepped
  next succeeded =>
  obtain rfl := Option.some.inj stepped
  obtain ⟨started, _, result⟩ := content_writeChunk succeeded
  have offset : (chunk.offset.toInt.toNat : Int) = chunk.offset.toInt := Int.toNat_of_nonneg started
  by_cases kept : chunk.outcome.opens = true ∨ chunk.outcome.creates = false
  · rw [if_pos kept] at result
    refine iff_of_true ?_ (kept.elim .inl fun shut => .inr (.inl shut))
    rw [WritesChunk, result]
    exact writesRange_overlay _ _ _ _
  · rw [if_neg kept] at result
    obtain ⟨shut, creates⟩ := not_or.mp kept
    rw [WritesChunk, result, overlay_nil_eq_iff]
    have low : ∀ position : Nat, chunk.offset.toInt.toNat ≤ position ↔
        chunk.offset.toInt ≤ position := fun position => by omega
    have high : ∀ position : Nat, position < chunk.offset.toInt.toNat + chunk.data.length ↔
        position < chunk.offset.toInt + chunk.data.length := fun position => by omega
    have below : ∀ position : Nat, position < chunk.offset.toInt.toNat ↔
        position < chunk.offset.toInt := fun position => by omega
    simp only [low, high, below]
    constructor
    · exact fun lossless => .inr (.inr lossless)
    · exact fun preserves => (preserves.resolve_left shut).resolve_left creates

end Writes

section Reads

variable {filepath : Bytes} {world : World}

theorem slice_eq_nil_iff (bytes : Bytes) (offset : Int64) (size : UInt64) :
    slice bytes offset size = [] ↔ offset < 0 ∨ bytes.length ≤ offset.toInt ∨ size = 0 := by
  unfold slice
  split
  next before => exact iff_of_true rfl (.inl before)
  next started =>
    have forward : 0 ≤ offset.toInt := by
      rwa [Int64.not_lt, Int64.le_iff_toInt_le, Int64.toInt_zero] at started
    have none : size.toNat = 0 ↔ size = 0 := (@UInt64.toNat_inj size 0)
    rw [List.take_eq_nil_iff, List.drop_eq_nil_iff, none, or_comm]
    simp only [started, false_or]
    rw [← Int.ofNat_le, Int.toNat_of_nonneg forward]

/-- `ReadChunk` returns the bytes of the range, except that it throws for an
impossible size inside the file. -/
theorem readChunk_eq_slice_iff (named : filepath ≠ [])
    (bounded : (content world filepath).length < 2 ^ 63) (opens : Bool) (offset : Int64)
    (size : UInt64) :
    world.readChunk opens filepath offset size =
        .ok (slice (content world filepath) offset size) ↔
      Readable opens (content world filepath).length offset size := by
  cases opens with
  | false =>
      have empty : world.readChunk false filepath offset size = .ok [] := by
        simp [World.readChunk]
      rw [empty, Except.ok.injEq, eq_comm, slice_eq_nil_iff]
      simp [Readable]
  | true =>
      cases found : world.files filepath with
      | none =>
          have empty : world.readChunk true filepath offset size = .ok [] := by
            simp [World.readChunk, found]
          have nothing : content world filepath = [] := by
            rw [content, found]
            rfl
          have past : offset < 0 ∨ ((0 : Nat) : Int) ≤ offset.toInt := by
            rw [Int64.lt_iff_toInt_lt, Int64.toInt_zero]
            omega
          rw [empty, nothing]
          refine iff_of_true ?_ (past.imp_right .inl)
          rw [Except.ok.injEq, eq_comm, slice_eq_nil_iff]
          exact past.imp_right .inl
      | some bytes =>
          have stored : content world filepath = bytes := by
            rw [content, found]
            rfl
          rw [stored] at bounded ⊢
          have length : (Int64.ofNat bytes.length).toInt = bytes.length :=
            Int64.toInt_ofNat_of_lt bounded
          by_cases before : offset < 0
          · refine iff_of_true ?_ (.inl before)
            simp [World.readChunk, named, found, before, slice]
          have forward : 0 ≤ offset.toInt := by
            rwa [Int64.not_lt, Int64.le_iff_toInt_le, Int64.toInt_zero] at before
          have remaining : (Int64.ofNat bytes.length - offset).toInt =
              bytes.length - offset.toInt := by
            have high := offset.toInt_lt
            rw [toInt_sub (by omega) (by omega), length]
          have ended : Int64.ofNat bytes.length - offset ≤ 0 ↔ bytes.length ≤ offset.toInt := by
            rw [Int64.le_iff_toInt_le, remaining, Int64.toInt_zero]
            omega
          by_cases past : bytes.length ≤ offset.toInt
          · refine iff_of_true ?_ (.inr (.inl past))
            have nothing : slice bytes offset size = [] :=
              (slice_eq_nil_iff _ _ _).mpr (.inr (.inl past))
            simp [World.readChunk, named, found, ended.mpr past, nothing]
          by_cases fits : size.toNat < 2 ^ 63
          · refine iff_of_true ?_ (.inr (.inr (.inr ⟨rfl, fits⟩)))
            rw [readChunk_ok named found bounded forward (by omega) fits, slice, if_neg before]
          · have wrapped : size.toInt64.toInt < 0 := by
              have high := size.toNat_lt
              have signed : size.toInt64.toInt = size.toBitVec.toInt := rfl
              have unsigned : size.toBitVec.toNat = size.toNat := rfl
              rw [signed, BitVec.toInt_eq_toNat_cond, unsigned, if_neg (by omega)]
              omega
            have impossible : size.toInt64 < 0 := by
              rwa [Int64.lt_iff_toInt_lt, Int64.toInt_zero]
            have unclamped : ¬Int64.ofNat bytes.length - offset < size.toInt64 := by
              rw [Int64.lt_iff_toInt_lt, remaining]
              omega
            have throws : world.readChunk true filepath offset size = .error .std := by
              simp [World.readChunk, named, found, before, ended.not.mpr past, unclamped,
                impossible]
            rw [throws]
            refine iff_of_false (fun answered => by cases answered) ?_
            rintro (early | late | none | ⟨_, possible⟩)
            · exact before early
            · exact past late
            · exact fits (by rw [none]; decide)
            · exact fits possible

end Reads

/-- Successful writes of chunks and a read after them are those of a byte array
exactly when no write loses other bytes and the read is possible. -/
theorem chunks_byte_array_iff {filepath : Bytes} {initial world : World}
    {history : List ChunkEvent} (named : filepath ≠ [])
    (bounded : (content initial filepath).length < 2 ^ 63)
    (run : Run (chunkWrites filepath initial) history world) (opens : Bool) (offset : Int64)
    (size : UInt64) :
    ((∀ event ∈ history, WritesChunk filepath event) ∧
        world.readChunk opens filepath offset size =
          .ok (slice (content world filepath) offset size)) ↔
      (∀ event ∈ history, Preserves filepath event) ∧
        Readable opens (content world filepath).length offset size := by
  have short : (content world filepath).length < 2 ^ 63 := by
    refine run.invariant (fun world => (content world filepath).length < 2 ^ 63) bounded ?_
    intro before chunk after short stepped
    simp only [chunkWrites] at stepped
    split at stepped
    · cases stepped
    next succeeded =>
      obtain rfl := Option.some.inj stepped
      exact length_writeChunk short succeeded
  rw [readChunk_eq_slice_iff named short]
  refine and_congr_left fun _ => forall_congr' fun event => forall_congr' fun member => ?_
  exact writesChunk_iff (run.event member).2

def singleByte : World := (emptyWorld id).setFile [0x61] (some [7])

theorem chunks_byte_array_sample :
    (singleByte.writeChunk {} [0x61] [8] 2).2.readChunk true [0x61] 0 5 = .ok [7, 0, 8] := by
  have run : Run (chunkWrites [0x61] singleByte)
      [⟨singleByte, ⟨[8], 2, {}⟩, (singleByte.writeChunk {} [0x61] [8] 2).2⟩]
      (singleByte.writeChunk {} [0x61] [8] 2).2 := .next .start rfl
  have preserves : ∀ event ∈ [(⟨singleByte, ⟨[8], 2, {}⟩,
      (singleByte.writeChunk {} [0x61] [8] 2).2⟩ : ChunkEvent)], Preserves [0x61] event := by
    intro event member
    rw [List.mem_singleton.mp member]
    exact .inl rfl
  exact ((chunks_byte_array_iff (by decide) (by decide) run true 0 5).mpr
    ⟨preserves, .inr (.inr (.inr ⟨rfl, by decide⟩))⟩).2

/-- A read of 2^63 bytes from the file of one byte throws. -/
theorem large_read_throws : ¬∀ (filepath : Bytes) (initial world : World) (history : List ChunkEvent),
    filepath ≠ [] → Run (chunkWrites filepath initial) history world →
    ∀ offset size, world.readChunk true filepath offset size =
      .ok (slice (content world filepath) offset size) := by
  intro reads
  have read := reads [0x61] singleByte singleByte [] (by decide) .start 0 0x8000000000000000
  have readable := (readChunk_eq_slice_iff (by decide) (by decide) true 0 0x8000000000000000).mp read
  rcases readable with before | past | none | ⟨_, possible⟩
  · exact absurd before (by decide)
  · rw [Int64.toInt_zero] at past
    exact absurd past (by decide)
  · exact absurd none (by decide)
  · exact absurd possible (by decide)

end FileServer.Service

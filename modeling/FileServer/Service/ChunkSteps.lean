import FileServer.Service.ByteArrays

/-!
# The steps of WriteChunk

`WriteChunk` opens, creates, closes, reopens, seeks and writes one after
another, without a lock.  Of concurrent calls with disjoint ranges each survives
when no file is created after it has put bytes.
-/

namespace FileServer.Service

open FileServer.Sequence FileServer.Transition

/-- The operations on a stream. -/
inductive FileCall where
  /-- `in | out | ate`. -/
  | openExisting (filepath : Bytes)
  /-- `out`, which creates the file or empties it. -/
  | create (filepath : Bytes)
  | close
  /-- `in | out`. -/
  | reopen (filepath : Bytes)
  | seek (offset : Int64)
  | write (filepath data : Bytes) (position : Nat)
  /-- Of what is left in the buffer. -/
  | flush (filepath data : Bytes) (position : Nat)

/-- Whether it succeeds; a successful `write` has left the buffer up to a
number of bytes. -/
abbrev FileCall.Answer : FileCall → Type
  | .write .. => Option Nat
  | _ => Bool

structure FileOutcome where
  succeeds : Bool := true
  /-- The number of bytes that reach the disk before a flush. -/
  count : Nat := 0
  deriving Inhabited

def FileCall.bytes (outcome : FileOutcome) : FileCall → Bytes
  | .write _ data _ => data.take outcome.count
  | .flush _ data position =>
      if outcome.succeeds ∧ position + data.length < 2 ^ 63 then data
      else data.take outcome.count
  | _ => []

def World.put (world : World) (filepath : Bytes) (position : Nat) (bytes : Bytes) : World :=
  world.setFile filepath (some (overlay 0 (content world filepath) position bytes))

/-- Perform an operation. -/
def serveFile (outcome : FileOutcome) : (call : FileCall) → World → call.Answer × World
  | .openExisting filepath, world => ((world.files filepath).isSome ∧ outcome.succeeds, world)
  | .create filepath, world =>
      (outcome.succeeds, if outcome.succeeds then world.setFile filepath (some []) else world)
  | .close, world => (outcome.succeeds, world)
  | .reopen filepath, world => ((world.files filepath).isSome ∧ outcome.succeeds, world)
  | .seek offset, world => (0 ≤ offset ∧ outcome.succeeds, world)
  | .write filepath data position, world =>
      let bytes := data.take outcome.count
      (if outcome.succeeds ∧ position + data.length < 2 ^ 63 then some bytes.length else none,
        world.put filepath position bytes)
  | .flush filepath data position, world =>
      (outcome.succeeds ∧ position + data.length < 2 ^ 63,
        world.put filepath position ((FileCall.flush filepath data position).bytes outcome))

abbrev FileProgram (α : Type) := Program FileCall FileCall.Answer Empty α

def stream (call : FileCall) : FileProgram call.Answer := .send call .ok

namespace StorageManager

/-- `WriteChunk` from the seek on. -/
def putChunk (filepath data : Bytes) (offset : Int64) : FileProgram Int64 := do
  if !(← stream (.seek offset)) then return -1
  match ← stream (.write filepath data offset.toInt.toNat) with
  | none => return -1
  | some count =>
      if !(← stream (.flush filepath (data.drop count) (offset.toInt.toNat + count))) then
        return -1
      if !(← stream .close) then return -1
      return .ofNat data.length

def writeChunk (filepath data : Bytes) (offset : Int64) : FileProgram Int64 := do
  if ← stream (.openExisting filepath) then putChunk filepath data offset
  else
    let _ ← stream (.create filepath)
    let _ ← stream .close
    if !(← stream (.reopen filepath)) then return -1
    putChunk filepath data offset

end StorageManager

structure ChunkCall where
  filepath : Bytes
  data : Bytes
  offset : Int64

def chunkCalls (filepath : Bytes) (world : World) :
    Deployment ChunkCall Empty FileCall FileCall.Answer FileOutcome World Empty Int64 where
  serve := serveFile
  handler call := StorageManager.writeChunk call.filepath call.data call.offset
  refusal failure := nomatch failure
  front order := nomatch order
  lost _ := -1
  direct call := call.filepath = filepath
  initial := world

abbrev ChunkState := Interleaved ChunkCall Empty FileCall FileCall.Answer World Empty Int64
abbrev ChunkJob := Job ChunkCall FileCall FileCall.Answer Empty Int64
abbrev ChunkStep := Event ChunkState (Move ChunkCall Empty FileOutcome)

namespace ChunkCall

def Covers (call : ChunkCall) (position : Int) : Prop :=
  call.offset.toInt ≤ position ∧ position < call.offset.toInt + call.data.length

/-- The first bytes of the data stand at the offset. -/
structure Stands (call : ChunkCall) (count : Nat) (bytes : Bytes) : Prop where
  fits : count ≤ call.data.length
  inside : ∀ index < count, bytes[call.offset.toInt.toNat + index]? = call.data[index]?

end ChunkCall

def performed (event : ChunkStep) : Option (FileCall × FileOutcome) :=
  match event.action with
  | .advance job outcome =>
      match event.before.jobs[job]? with
      | some ⟨_, .call call _⟩ => some (call, outcome)
      | _ => none
  | _ => none

def creates (event : ChunkStep) : Bool :=
  match performed event with
  | some (.create _, outcome) => outcome.succeeds
  | _ => false

/-- Bytes of the call reach the disk. -/
def puts (index : Nat) (event : ChunkStep) : Bool :=
  match event.action, performed event with
  | .advance job _, some (call, outcome) => job = index ∧ !(call.bytes outcome).isEmpty
  | _, _ => false

/-- No file is created after bytes of the call have been written. -/
def CreatesFirst (index : Nat) (history : List ChunkStep) : Prop :=
  history.Pairwise fun later earlier => creates later = true → puts index earlier = false

section Contents

variable {call : ChunkCall} {count position : Nat} {bytes data : Bytes}

theorem ChunkCall.stands_zero : call.Stands 0 bytes :=
  ⟨Nat.zero_le _, fun _ below => absurd below (Nat.not_lt_zero _)⟩

theorem ChunkCall.Stands.mono {fewer : Nat} (stands : call.Stands count bytes)
    (less : fewer ≤ count) : call.Stands fewer bytes :=
  ⟨less.trans stands.fits, fun index below => stands.inside index (below.trans_le less)⟩

theorem content_put (world : World) (filepath : Bytes) (position : Nat) (bytes : Bytes) :
    content (world.put filepath position bytes) filepath =
      overlay 0 (content world filepath) position bytes := by
  simp [World.put, content, files_setFile]

theorem ChunkCall.Stands.frame (stands : call.Stands count bytes)
    (outside : ∀ index < count, ∀ later < data.length,
      call.offset.toInt.toNat + index ≠ position + later) :
    call.Stands count (overlay 0 bytes position data) where
  fits := stands.fits
  inside := by
    intro index below
    have write := writesRange_overlay 0 bytes data position
    have found := stands.inside index below
    have inData : index < call.data.length := below.trans_le stands.fits
    rw [List.getElem?_eq_getElem inData] at found
    have present := (List.getElem?_eq_some_iff.mp found).1
    rw [write.outside _ present, stands.inside index below]
    by_contra inside
    rw [not_or, Nat.not_lt, Nat.not_le] at inside
    obtain ⟨later, reached⟩ := Nat.exists_eq_add_of_le inside.1
    exact outside index below later (by omega) reached

theorem ChunkCall.Stands.extend (stands : call.Stands count bytes)
    (next : data <+: call.data.drop count) :
    call.Stands (count + data.length)
      (overlay 0 bytes (call.offset.toInt.toNat + count) data) where
  fits := by
    have less := next.length_le
    rw [List.length_drop] at less
    have fits := stands.fits
    omega
  inside := by
    intro index below
    have write := writesRange_overlay 0 bytes data (call.offset.toInt.toNat + count)
    by_cases early : index < count
    · have kept : call.Stands count (overlay 0 bytes (call.offset.toInt.toNat + count) data) :=
        stands.frame fun index below later _ => by omega
      exact kept.inside index early
    · obtain ⟨later, rfl⟩ := Nat.exists_eq_add_of_le (Nat.le_of_not_lt early)
      have inData : later < data.length := by omega
      rw [← Nat.add_assoc, write.inside later inData, ← List.getElem?_drop]
      exact (List.prefix_iff_getElem?.mp next later inData).symm ▸
        List.getElem?_eq_getElem inData

end Contents

structure ChunkCall.Next (call : ChunkCall) (count : Nat) (filepath data : Bytes)
    (position : Nat) : Prop where
  filepath : filepath = call.filepath
  data : data = call.data.drop count
  position : position = call.offset.toInt.toNat + count
  forward : 0 ≤ call.offset.toInt

/-- What is left of a call writes the bytes that are left, and succeeds only
after all of them. -/
def ChunkCall.Keeps (call : ChunkCall) : Nat → FileProgram Int64 → Prop
  | count, .done result =>
      ∀ written, result = .ok written → 0 ≤ written.toInt → count = call.data.length
  | count, .call (.write filepath data position) next =>
      call.Next count filepath data position ∧ call.Keeps count (next none) ∧
        ∀ more ≤ data.length, call.Keeps (count + more) (next (some more))
  | count, .call (.flush filepath data position) next =>
      call.Next count filepath data position ∧ call.Keeps count (next false) ∧
        call.Keeps call.data.length (next true)
  | count, .call (.openExisting _) next => ∀ answer, call.Keeps count (next answer)
  | count, .call (.create _) next => count = 0 ∧ ∀ answer, call.Keeps count (next answer)
  | count, .call .close next => ∀ answer, call.Keeps count (next answer)
  | count, .call (.reopen _) next => ∀ answer, call.Keeps count (next answer)
  | count, .call (.seek offset) next =>
      call.Keeps count (next false) ∧ (0 ≤ offset.toInt → call.Keeps count (next true))

section Calls

variable {call : ChunkCall} {count : Nat}

theorem keeps_failure : call.Keeps count (pure (-1) : FileProgram Int64) := by
  intro written same nonneg
  cases same
  exact absurd nonneg (by decide)

theorem keeps_putChunk (call : ChunkCall) :
    call.Keeps 0 (StorageManager.putChunk call.filepath call.data call.offset) := by
  refine ⟨keeps_failure, fun forward => ?_⟩
  refine ⟨⟨rfl, rfl, rfl, forward⟩, keeps_failure, ?_⟩
  intro count fits
  rw [Nat.zero_add]
  refine ⟨⟨rfl, rfl, rfl, forward⟩, keeps_failure, fun closed => ?_⟩
  cases closed with
  | true => exact fun _ _ _ => rfl
  | false => exact keeps_failure

theorem keeps_writeChunk (call : ChunkCall) :
    call.Keeps 0 (StorageManager.writeChunk call.filepath call.data call.offset) := by
  intro opened
  cases opened with
  | true => exact keeps_putChunk call
  | false =>
      refine ⟨rfl, fun created closed reopened => ?_⟩
      cases reopened with
      | true => exact keeps_putChunk call
      | false => exact keeps_failure

end Calls

section Steps

variable {call : ChunkCall} {count : Nat} {request : FileCall}
  {next : request.Answer → FileProgram Int64} {outcome : FileOutcome} {world : World}

theorem ChunkCall.Keeps.step (keeps : call.Keeps count (.call request next)) :
    ∃ more, call.Keeps more (next (serveFile outcome request world).1) ∧
      (call.Stands count (content world call.filepath) →
        call.Stands more (content (serveFile outcome request world).2 call.filepath)) ∧
      (0 < more → 0 < count ∨ 0 ≤ call.offset.toInt ∧ request.bytes outcome ≠ []) := by
  cases request with
  | openExisting filepath => exact ⟨count, keeps _, id, .inl⟩
  | create filepath =>
      obtain ⟨rfl, continued⟩ := keeps
      exact ⟨0, continued _, fun _ => ChunkCall.stands_zero, .inl⟩
  | close => exact ⟨count, keeps _, id, .inl⟩
  | reopen filepath => exact ⟨count, keeps _, id, .inl⟩
  | seek offset =>
      refine ⟨count, ?_, id, .inl⟩
      have continued : ∀ answer : Bool, (answer = true → 0 ≤ offset.toInt) →
          call.Keeps count (next answer) := by
        intro answer forward
        cases answer with
        | true => exact keeps.2 (forward rfl)
        | false => exact keeps.1
      refine continued _ fun found => ?_
      rw [← Int64.toInt_zero]
      exact Int64.le_iff_toInt_le.mp (of_decide_eq_true found).1
  | write filepath data position =>
      obtain ⟨⟨rfl, rfl, rfl, forward⟩, failed, continued⟩ := keeps
      have part := fun stands : call.Stands count (content world call.filepath) =>
        stands.extend (List.take_prefix outcome.count (call.data.drop count))
      simp only [← content_put] at part
      by_cases whole : outcome.succeeds ∧
          call.offset.toInt.toNat + count + (call.data.drop count).length < 2 ^ 63
      · refine ⟨count + ((call.data.drop count).take outcome.count).length, ?_, part, ?_⟩
        · simp only [serveFile, if_pos whole]
          exact continued _ (List.length_take_le' _ _)
        · intro positive
          rcases Nat.eq_zero_or_pos count with none | some
          · refine .inr ⟨forward, fun nothing => ?_⟩
            rw [FileCall.bytes] at nothing
            rw [nothing, none] at positive
            exact absurd positive (by decide)
          · exact .inl some
      · refine ⟨count, ?_, fun stands => (part stands).mono (Nat.le_add_right _ _), .inl⟩
        simp only [serveFile, if_neg whole]
        exact failed
  | flush filepath data position =>
      obtain ⟨⟨rfl, rfl, rfl, forward⟩, failed, continued⟩ := keeps
      by_cases whole : outcome.succeeds ∧
          call.offset.toInt.toNat + count + (call.data.drop count).length < 2 ^ 63
      · refine ⟨call.data.length, ?_, fun stands => ?_, ?_⟩
        · simp only [serveFile, whole, and_self, decide_true]
          exact continued
        · have part := stands.extend (List.prefix_refl (call.data.drop count))
          rw [← content_put, List.length_drop, Nat.add_sub_cancel' stands.fits] at part
          simp only [serveFile, FileCall.bytes, if_pos whole]
          exact part
        · intro positive
          rcases Nat.eq_zero_or_pos count with none | some
          · refine .inr ⟨forward, fun nothing => ?_⟩
            rw [FileCall.bytes, if_pos whole, none, List.drop_zero] at nothing
            rw [nothing] at positive
            exact absurd positive (by decide)
          · exact .inl some
      · refine ⟨count, ?_, fun stands => ?_, .inl⟩
        · simp only [serveFile, whole, decide_false]
          exact failed
        · have part := stands.extend (List.take_prefix outcome.count (call.data.drop count))
          rw [← content_put] at part
          simp only [serveFile, FileCall.bytes, if_neg whole]
          exact part.mono (Nat.le_add_right _ _)

theorem ChunkCall.Keeps.frame (keeps : call.Keeps count (.call request next))
    {other : ChunkCall} {held : Nat}
    (same : other.filepath = call.filepath)
    (stands : other.Stands held (content world other.filepath))
    (forward : 0 < held → 0 ≤ other.offset.toInt)
    (disjoint : ∀ position, call.Covers position → ¬other.Covers position)
    (created : (∃ filepath, request = .create filepath) → outcome.succeeds = true → held = 0) :
    other.Stands held (content (serveFile outcome request world).2 other.filepath) := by
  have put : ∀ filepath data position, call.Next count filepath data position → ∀ bytes,
      bytes <+: data → other.Stands held
        (content (world.put filepath position bytes) other.filepath) := by
    rintro filepath data position ⟨rfl, rfl, rfl, ahead⟩ bytes part
    rw [same] at stands ⊢
    rw [content_put]
    refine stands.frame fun index below later inData equal => ?_
    have short := part.length_le
    rw [List.length_drop] at short
    have reached := forward (by omega)
    have within := stands.fits
    refine disjoint (call.offset.toInt + count + later) ⟨by omega, by omega⟩ ⟨by omega, by omega⟩
  cases request with
  | openExisting | close | reopen | seek => exact stands
  | create filepath =>
      simp only [serveFile]
      split
      next succeeds =>
        rw [created ⟨filepath, rfl⟩ succeeds]
        exact ChunkCall.stands_zero
      · exact stands
  | write filepath data position =>
      exact put filepath data position keeps.1 _ (List.take_prefix _ _)
  | flush filepath data position =>
      refine put filepath data position keeps.1 _ ?_
      simp only [FileCall.bytes]
      split
      · exact List.prefix_refl _
      · exact List.take_prefix _ _

end Steps

/-- A call has written a part of its data, which stands unless the file has been
created since; once it has written anything, a step has put its bytes. -/
structure Held (filepath : Bytes) (history : List ChunkStep) (state : ChunkState) (index : Nat)
    (job : ChunkJob) (count : Nat) : Prop where
  path : job.request.filepath = filepath
  keeps : job.request.Keeps count job.rest
  stands : CreatesFirst index history →
    job.request.Stands count (content state.scene.world filepath)
  put : 0 < count → 0 ≤ job.request.offset.toInt ∧ ∃ event ∈ history, puts index event = true

/-- No two calls have a position in common. -/
def Apart (state : ChunkState) : Prop :=
  ∀ (first second : Nat) (job other : ChunkJob), state.jobs[first]? = some job → state.jobs[second]? = some other →
    first ≠ second → ∀ position, job.request.Covers position → ¬other.request.Covers position

section Runs

variable {filepath : Bytes} {world : World} {history : List ChunkStep} {state : ChunkState}

theorem held_of_run (run : Run (chunkCalls filepath world).system history state)
    (apart : Apart state) : ∀ (index : Nat) (job : ChunkJob), state.jobs[index]? = some job →
      ∃ count, Held filepath history state index job count := by
  induction run with
  | start => simp [Deployment.system]
  | @next older before move after earlier stepped inductionHypothesis =>
      have alone := Deployment.sessions_eq_nil earlier
      have apart' : Apart before := by
        intro first second job other found found' distinct
        obtain ⟨rest, still, _⟩ := Deployment.job_of_step alone stepped found
        obtain ⟨rest', still', _⟩ := Deployment.job_of_step alone stepped found'
        exact apart first second ⟨job.request, rest⟩ ⟨other.request, rest'⟩ still still' distinct
      have held := inductionHypothesis apart'
      have seen : ∀ index, (∃ event ∈ older, puts index event = true) →
          ∃ event ∈ (⟨before, move, after⟩ : ChunkStep) :: older, puts index event = true := by
        rintro index ⟨event, inOlder, puts⟩
        exact ⟨event, List.mem_cons_of_mem _ inOlder, puts⟩
      rcases Deployment.step_of_no_orders alone stepped with
        ⟨request, _, accepted, rfl⟩ | ⟨index, outcome, request, call, next, rfl, found, rfl⟩
      · intro index job current
        rw [List.getElem?_append] at current
        split at current
        · obtain ⟨count, holds⟩ := held index job current
          exact ⟨count, holds.path, holds.keeps, fun clean =>
            holds.stands (List.pairwise_cons.mp clean).2, fun positive =>
            ⟨(holds.put positive).1, seen index (holds.put positive).2⟩⟩
        · obtain rfl := List.mem_singleton.mp (List.mem_of_getElem? current)
          exact ⟨0, of_decide_eq_true accepted, keeps_writeChunk request,
            fun _ => ChunkCall.stands_zero, fun positive => absurd positive (by decide)⟩
      · obtain ⟨count, holds⟩ := held index _ found
        obtain rfl : request.filepath = filepath := holds.path
        intro other job current
        by_cases same : index = other
        · subst same
          rw [List.getElem?_set_self (List.getElem?_eq_some_iff.mp found).1] at current
          cases current
          obtain ⟨more, keeps, stands, bytes⟩ := @ChunkCall.Keeps.step _ _ _ _ outcome
            before.scene.world holds.keeps
          refine ⟨more, rfl, keeps, fun clean =>
            stands (holds.stands (List.pairwise_cons.mp clean).2), fun positive => ?_⟩
          rcases bytes positive with some | ⟨forward, bytes⟩
          · exact ⟨(holds.put some).1, seen index (holds.put some).2⟩
          · refine ⟨forward, _, List.mem_cons_self, ?_⟩
            simpa [Service.puts, performed, found] using bytes
        · rw [List.getElem?_set_ne same] at current
          obtain ⟨kept, standing⟩ := held other job current
          refine ⟨kept, standing.path, standing.keeps, fun clean => ?_, fun positive =>
            ⟨(standing.put positive).1, seen other (standing.put positive).2⟩⟩
          obtain ⟨created, clean'⟩ := List.pairwise_cons.mp clean
          have frame := @ChunkCall.Keeps.frame _ _ _ _ outcome before.scene.world holds.keeps
            job.request kept standing.path
            (standing.path ▸ standing.stands clean') (fun positive => (standing.put positive).1)
            (apart' index other _ job found current same) (by
              rintro ⟨path, rfl⟩ succeeds
              by_contra positive
              obtain ⟨_, event, seen, puts⟩ := standing.put (Nat.pos_of_ne_zero positive)
              have quiet := created event seen (by simp only [creates, performed, found, succeeds])
              rw [puts] at quiet
              cases quiet)
          rw [standing.path] at frame
          exact frame

/-- Each call that has returned success has left its data in the file, however
the steps of the calls are interleaved, when no file was created after it had put
bytes. -/
theorem chunks_survive (run : Run (chunkCalls filepath world).system history state)
    (apart : Apart state) (index : Nat) (job : ChunkJob) (made : state.jobs[index]? = some job)
    (clean : CreatesFirst index history) (written : Int64)
    (finished : job.rest = .done (.ok written)) (success : 0 ≤ written.toInt) :
    job.request.Stands job.request.data.length (content state.scene.world filepath) := by
  obtain ⟨count, held⟩ := held_of_run run apart index job made
  have keeps := held.keeps
  rw [finished] at keeps
  rw [← keeps written rfl success]
  exact held.stands clean

end Runs

section Sequential

variable {α : Type} {filepath data : Bytes} {offset : Int64} {world : World}

def performAll (outcomes : List FileOutcome) (program : FileProgram α) (world : World) :
    Except Empty α × World :=
  (chunkCalls [] (emptyWorld id)).run outcomes program world

theorem performAll_stream (outcomes : List FileOutcome) {call : FileCall}
    (next : call.Answer → FileProgram α) : performAll outcomes (stream call >>= next) world =
      performAll outcomes.tail (next (serveFile (outcomes.headD default) call world).1)
        (serveFile (outcomes.headD default) call world).2 := rfl

theorem performAll_pure (outcomes : List FileOutcome) (value : α) :
    performAll outcomes (pure value) world = (.ok value, world) := rfl

theorem put_put (front back : Bytes) (position : Nat) :
    (world.put filepath position front).put filepath (position + front.length) back =
      world.put filepath position (front ++ back) := by
  rw [World.put, content_put, overlay_append, World.put, setFile_setFile]
  rfl

theorem writeChunk_cases {start : Bytes} (found : world.files filepath = some start) :
    world.writeChunk { seeks := false } filepath data offset = (-1, world) ∧
      (0 ≤ offset → (∀ count, world.writeChunk { written := some count } filepath data offset =
          (-1, world.put filepath offset.toInt.toNat (data.take count))) ∧
        (offset.toInt + data.length < 2 ^ 63 → world.writeChunk {} filepath data offset =
          (.ofNat data.length, world.put filepath offset.toInt.toNat data))) := by
  have opened : ∀ seeks written, world.openChunk { seeks, written } filepath = (true, world) := by
    intro seeks written
    simp [World.openChunk, found]
  refine ⟨?_, fun forward => ?_⟩
  · simp only [World.writeChunk, opened]
    simp
  · have sought : ¬offset < 0 := Int64.not_lt.mpr forward
    refine ⟨fun count => ?_, fun fits => ?_⟩
    · simp only [World.writeChunk, opened]
      simp [sought, World.put, content]
    · simp only [World.writeChunk, opened, if_pos fits]
      simp [sought, World.put, content]

theorem performAll_putChunk (outcomes : List FileOutcome) {start : Bytes}
    (found : world.files filepath = some start) : ∃ seeks written,
    performAll outcomes (StorageManager.putChunk filepath data offset) world =
      (.ok (world.writeChunk { seeks, written } filepath data offset).1,
        (world.writeChunk { seeks, written } filepath data offset).2) := by
  obtain ⟨unsought, sought⟩ := @writeChunk_cases filepath data offset world start found
  rw [StorageManager.putChunk, performAll_stream]
  by_cases seeks : 0 ≤ offset ∧ (outcomes.headD default).succeeds = true
  · obtain ⟨partially, wholly⟩ := sought seeks.1
    have answer : serveFile (outcomes.headD default) (.seek offset) world = (true, world) :=
      Prod.ext (decide_eq_true seeks) rfl
    have forward : 0 ≤ offset.toInt := by
      rw [← Int64.toInt_zero]
      exact Int64.le_iff_toInt_le.mp seeks.1
    rw [answer, if_neg (by simp), performAll_stream]
    generalize outcomes.tail = rest
    dsimp only
    by_cases whole : (rest.headD default).succeeds ∧ offset.toInt.toNat + data.length < 2 ^ 63
    · have answer : serveFile (rest.headD default) (.write filepath data offset.toInt.toNat)
          world = (some (data.take (rest.headD default).count).length,
            world.put filepath offset.toInt.toNat (data.take (rest.headD default).count)) :=
        Prod.ext (if_pos whole) rfl
      have fits : offset.toInt + data.length < 2 ^ 63 := by omega
      rw [answer]
      generalize first : data.take (rest.headD default).count = front
      have parts : front ++ data.drop front.length = data := by
        rw [← first, List.length_take]
        rcases Nat.le_total (rest.headD default).count data.length with less | more
        · rw [Nat.min_eq_left less, List.take_append_drop]
        · rw [Nat.min_eq_right more, List.drop_length, List.take_of_length_le more, List.append_nil]
      have length := congrArg List.length parts
      rw [List.length_append] at length
      dsimp only
      rw [performAll_stream]
      generalize rest.tail = last
      by_cases flushed : (last.headD default).succeeds ∧
          offset.toInt.toNat + front.length + (data.drop front.length).length < 2 ^ 63
      · have answer : (serveFile (last.headD default) (.flush filepath (data.drop front.length)
            (offset.toInt.toNat + front.length)) (world.put filepath offset.toInt.toNat front)) =
            (true, world.put filepath offset.toInt.toNat data) := by
          simp only [serveFile, FileCall.bytes, flushed, and_self, if_true, decide_true, put_put,
            parts]
        rw [answer]
        simp only [Bool.not_true, Bool.false_eq_true, if_false]
        rw [performAll_stream]
        cases closed : (last.tail.headD default).succeeds with
        | true =>
            refine ⟨true, none, ?_⟩
            rw [wholly fits]
            simp only [serveFile, closed]
            rfl
        | false =>
            refine ⟨true, some data.length, ?_⟩
            rw [partially, List.take_length]
            simp only [serveFile, closed]
            rfl
      · have answer : (serveFile (last.headD default) (.flush filepath (data.drop front.length)
            (offset.toInt.toNat + front.length)) (world.put filepath offset.toInt.toNat front)) =
            (false, world.put filepath offset.toInt.toNat
              (data.take (front.length + (last.headD default).count))) := by
          have more : front ++ (data.drop front.length).take (last.headD default).count =
              data.take (front.length + (last.headD default).count) := by
            conv_rhs => rw [← parts, List.take_length_add_append]
          simp only [serveFile, FileCall.bytes, flushed, if_false, decide_false, put_put, more]
        rw [answer]
        refine ⟨true, some (front.length + (last.headD default).count), ?_⟩
        rw [partially]
        rfl
    · refine ⟨true, some (rest.headD default).count, ?_⟩
      have answer : (serveFile (rest.headD default) (.write filepath data offset.toInt.toNat)
          world).1 = none := if_neg whole
      rw [partially]
      exact answer ▸ rfl
  · refine ⟨false, none, ?_⟩
    have answer : (serveFile (outcomes.headD default) (.seek offset) world).1 = false :=
      decide_eq_false seeks
    rw [answer, if_pos (by decide), performAll_pure, unsought]
    rfl

theorem writeChunk_of_openChunk {outcome : Outcome} {opened : World}
    (opens : world.openChunk outcome filepath = (true, opened)) :
    (opened.files filepath).isSome ∧ world.writeChunk outcome filepath data offset =
      opened.writeChunk { seeks := outcome.seeks, written := outcome.written } filepath data
        offset := by
  have stands : (opened.files filepath).isSome := by
    simp only [World.openChunk] at opens
    split at opens
    next existing =>
      cases opens
      exact existing.1
    · obtain ⟨reopened, rfl⟩ := Prod.mk.inj opens
      exact (of_decide_eq_true reopened).1
  have again : opened.openChunk { seeks := outcome.seeks, written := outcome.written } filepath =
      (true, opened) := by
    simp [World.openChunk, stands]
  refine ⟨stands, ?_⟩
  simp only [World.writeChunk, opens, again]

theorem performAll_writeChunk (outcomes : List FileOutcome) :
    ∃ outcome, performAll outcomes (StorageManager.writeChunk filepath data offset) world =
      (.ok (world.writeChunk outcome filepath data offset).1,
        (world.writeChunk outcome filepath data offset).2) := by
  have continued : ∀ (outcome : Outcome) opened rest,
      (∀ seeks written, world.openChunk { outcome with seeks, written } filepath = (true, opened)) →
      ∃ outcome, performAll rest (StorageManager.putChunk filepath data offset) opened =
        (.ok (world.writeChunk outcome filepath data offset).1,
          (world.writeChunk outcome filepath data offset).2) := by
    intro outcome opened rest opens
    obtain ⟨stands, _⟩ := @writeChunk_of_openChunk filepath data offset world _ _ (opens true none)
    obtain ⟨start, found⟩ := Option.isSome_iff_exists.mp stands
    obtain ⟨seeks, written, put⟩ := @performAll_putChunk filepath data offset opened rest start found
    refine ⟨{ outcome with seeks, written }, ?_⟩
    rw [put, (writeChunk_of_openChunk (opens seeks written)).2]
  rw [StorageManager.writeChunk, performAll_stream]
  by_cases existing : (world.files filepath).isSome ∧ (outcomes.headD default).succeeds = true
  · have answer : serveFile (outcomes.headD default) (.openExisting filepath) world =
        (true, world) := Prod.ext (decide_eq_true existing) rfl
    rw [answer, if_pos rfl]
    exact continued {} world _ (by simp [World.openChunk, existing.1])
  · have answer : serveFile (outcomes.headD default) (.openExisting filepath) world =
        (false, world) := Prod.ext (decide_eq_false existing) rfl
    rw [answer, if_neg (by simp), performAll_stream, performAll_stream, performAll_stream]
    generalize outcomes.tail = first
    generalize made : (serveFile (first.headD default) (.create filepath) world).2 = created
    have opens : ∀ seeks written, world.openChunk
        { opens := (outcomes.headD default).succeeds, creates := (first.headD default).succeeds
          reopens := (first.tail.tail.headD default).succeeds, seeks, written } filepath =
        (decide ((created.files filepath).isSome ∧
          (first.tail.tail.headD default).succeeds = true), created) := by
      intro seeks written
      rw [← made]
      exact if_neg existing
    by_cases reopened : (created.files filepath).isSome ∧
        (first.tail.tail.headD default).succeeds = true
    · have answer : serveFile (first.tail.tail.headD default) (.reopen filepath) created =
          (true, created) := Prod.ext (decide_eq_true reopened) rfl
      rw [show serveFile (first.tail.headD default) .close created =
        ((first.tail.headD default).succeeds, created) from rfl]
      rw [answer, if_neg (by simp)]
      exact continued
        { opens := (outcomes.headD default).succeeds, creates := (first.headD default).succeeds
          reopens := (first.tail.tail.headD default).succeeds } created _ fun seeks written =>
            (opens seeks written).trans (by rw [decide_eq_true reopened])
    · have answer : serveFile (first.tail.tail.headD default) (.reopen filepath) created =
          (false, created) := Prod.ext (decide_eq_false reopened) rfl
      rw [show serveFile (first.tail.headD default) .close created =
        ((first.tail.headD default).succeeds, created) from rfl]
      rw [answer, if_pos (by simp), performAll_pure]
      refine ⟨{ opens := (outcomes.headD default).succeeds
                creates := (first.headD default).succeeds
                reopens := (first.tail.tail.headD default).succeeds }, ?_⟩
      rw [World.writeChunk, opens true none, decide_eq_false reopened]
      rfl

end Sequential

def firstByte : ChunkCall := ⟨[0x61], [7], 0⟩
def secondByte : ChunkCall := ⟨[0x61], [8], 1⟩

theorem apart_bytes {state : ChunkState} {first second : FileProgram Int64}
    (jobs : state.jobs = [⟨firstByte, first⟩, ⟨secondByte, second⟩]) : Apart state := by
  have firstOffset : firstByte.offset.toInt = 0 := by decide
  have secondOffset : secondByte.offset.toInt = 1 := by decide
  have firstLength : firstByte.data.length = 1 := rfl
  have secondLength : secondByte.data.length = 1 := rfl
  intro index position job other found found' distinct
  rw [jobs] at found found'
  intro place covered covered'
  obtain ⟨low, high⟩ := covered
  obtain ⟨low', high'⟩ := covered'
  rcases index with _ | _ | index <;> rcases position with _ | _ | position <;>
    simp at found found' distinct
  all_goals
    subst job other
    simp only [firstOffset, secondOffset, firstLength, secondLength] at low high low' high'
    omega

def createdTwice : List (Move ChunkCall Empty FileOutcome) :=
  [.request firstByte, .request secondByte, .advance 0 {}, .advance 1 {}] ++
    List.replicate 7 (.advance 0 {}) ++ List.replicate 7 (.advance 1 {})

theorem createdTwice_enabled : ((chunkCalls [0x61] (emptyWorld id)).system.execute
    (chunkCalls [0x61] (emptyWorld id)).system.initial createdTwice).isSome := by decide +kernel

theorem firstByte_lost : ¬∀ (filepath : Bytes) (world : World) (history : List ChunkStep)
    (state : ChunkState), Run (chunkCalls filepath world).system history state → Apart state →
    (∀ job ∈ state.jobs, ∃ written, job.rest = .done (.ok written) ∧ 0 ≤ written.toInt) →
    ∀ job ∈ state.jobs,
      job.request.Stands job.request.data.length (content state.scene.world filepath) := by
  intro survive
  have run := (chunkCalls [0x61] (emptyWorld id)).system.run createdTwice createdTwice_enabled
  have jobs : (((chunkCalls [0x61] (emptyWorld id)).system.execute
      (chunkCalls [0x61] (emptyWorld id)).system.initial createdTwice).get createdTwice_enabled).jobs =
        [⟨firstByte, .done (.ok 1)⟩, ⟨secondByte, .done (.ok 1)⟩] := rfl
  have left : content (((chunkCalls [0x61] (emptyWorld id)).system.execute
      (chunkCalls [0x61] (emptyWorld id)).system.initial createdTwice).get
        createdTwice_enabled).scene.world [0x61] = [0, 8] := rfl
  have stands := survive _ _ _ _ run (apart_bytes jobs)
  rw [jobs, left] at stands
  have lost := (stands (by simp) ⟨firstByte, .done (.ok 1)⟩ List.mem_cons_self).inside 0 (by decide)
  exact absurd lost (by decide)

def createdEarly : List (Move ChunkCall Empty FileOutcome) :=
  [.request firstByte, .request secondByte, .advance 0 {}, .advance 1 {}, .advance 0 {},
    .advance 1 {}] ++ List.replicate 6 (.advance 0 {}) ++ List.replicate 6 (.advance 1 {})

theorem createdEarly_enabled : ((chunkCalls [0x61] (emptyWorld id)).system.execute
    (chunkCalls [0x61] (emptyWorld id)).system.initial createdEarly).isSome := by decide +kernel

theorem bytes_survive : firstByte.Stands firstByte.data.length
    (content (((chunkCalls [0x61] (emptyWorld id)).system.execute
      (chunkCalls [0x61] (emptyWorld id)).system.initial createdEarly).get
        createdEarly_enabled).scene.world [0x61]) := by
  have run := (chunkCalls [0x61] (emptyWorld id)).system.run createdEarly createdEarly_enabled
  have jobs : (((chunkCalls [0x61] (emptyWorld id)).system.execute
      (chunkCalls [0x61] (emptyWorld id)).system.initial createdEarly).get
        createdEarly_enabled).jobs =
      [⟨firstByte, .done (.ok 1)⟩, ⟨secondByte, .done (.ok 1)⟩] := rfl
  have clean : CreatesFirst 0 ((chunkCalls [0x61] (emptyWorld id)).system.events
      (chunkCalls [0x61] (emptyWorld id)).system.initial createdEarly) := by
    unfold CreatesFirst
    decide +kernel
  exact chunks_survive run (apart_bytes jobs) 0 ⟨firstByte, .done (.ok 1)⟩ (by rw [jobs]; rfl)
    clean 1 rfl (by decide)

end FileServer.Service

import FileServer.Storage.Programs

/-!
# The chunk store is immutable and bounded

What holds in every run of a storage node, with requests in any order, calls
that fail anywhere, and failures of the process and of the power: what is
published, what becomes of it, and what is answered.
-/

namespace FileServer.Storage

open FileServer.Files FileServer.Metadata FileServer.Relational FileServer.Transition

namespace Store

variable (store : Store)

theorem upholds : store.server.Upholds store.promise where
  initially := by
    refine List.forall_mem_cons.mpr ⟨⟨?_, ?_, Nat.zero_le _⟩, by simp [server, Volume.empty]⟩
    · intro name file _ found
      cases found
    · rintro cid content ⟨file, found, _⟩
      cases found
  taken taken request world valid := fun names membership => (valid names membership).later request
  boots taken launch world valid :=
    (keeps_init valid).widen fun _ _ keeping => ⟨keeping.retains, keeping.valid⟩
  handles taken process request world valid membership := keeps_dispatch valid membership
  fails taken damage world after valid failed := Valid.fail valid failed

def Handles (state : State) (request : Request) : Prop :=
  ∃ process rest, state.activity = .serving process (some ⟨request, rest⟩)

abbrev Step := Event State (Turn Launch Request Inquiry Outcome Damage)

def Answers (event : Step) (request : Request) (result : Except Failure Reply) : Prop :=
  event.action = .finish ∧
    ∃ process, event.before.activity = .serving process (some ⟨request, .done result⟩)

/-- The power fails. -/
def Loses (event : Step) : Prop :=
  ∃ directory contents, event.action = .fail (.power directory contents)

variable {store} {history : List Step} {state : State}

section Steps

variable (run : Run store.server.system history state) {event : Step}
include run

theorem sound_of_event (membership : event ∈ history) :
    store.server.Sound store.promise event.before ∧
      store.server.step event.before event.action = some event.after := by
  obtain ⟨reached, stepped⟩ := run.event membership
  exact ⟨Server.sound_of_reachable store.upholds reached, stepped⟩

/-- A step keeps the chunk files, except those that the request removes, or the
power takes back. -/
theorem published_of_event (membership : event ∈ history) {cid : Ident} {content : Bytes}
    (found : event.before.world.published cid = some content) :
    event.after.world.published cid = some content ∨
      (∃ request, Handles event.before request ∧ Removes request cid) ∨ Loses event := by
  obtain ⟨sound, stepped⟩ := sound_of_event run membership
  rcases sound.change stepped with
    same | ⟨_, _, booted⟩ | ⟨process, task, active, handled⟩ | ⟨damage, turn, failed⟩
  · rw [same]
    exact .inl found
  · exact .inl (booted.published cid content not_false found)
  · by_cases removes : Removes task.request cid
    · exact .inr (.inl ⟨_, ⟨process, task.rest, active⟩, removes⟩)
    · exact .inl (handled.retains.published cid content removes found)
  · cases damage with
    | crash =>
        obtain same := Option.some.inj failed
        rw [← same]
        exact .inl found
    | power directory contents => exact .inr (.inr ⟨directory, contents, turn⟩)

theorem held_of_event (membership : event ∈ history) {cid : Ident} {P : Bytes → Prop}
    (kept : ∀ request, Handles event.before request → ¬ Removes request cid)
    (held : Held cid P event.before.world) : Held cid P event.after.world := by
  obtain ⟨sound, stepped⟩ := sound_of_event run membership
  rcases sound.change stepped with
    same | ⟨_, _, booted⟩ | ⟨process, task, active, handled⟩ | ⟨damage, turn, failed⟩
  · rw [same]
    exact held
  · exact booted.held cid P not_false held
  · exact handled.retains.held cid P (kept _ ⟨process, task.rest, active⟩) held
  · exact held.fail failed

theorem refused_of_event (membership : event ∈ history) {request : Request} {cid : Ident}
    {content : Bytes} (handles : Handles event.before request) (put : request.cmd = .put)
    (chunk : request.chunkId = some (.ident cid))
    (found : event.before.world.published cid = some content)
    (different : ¬ store.Same request.data content) :
    (event.after.world = event.before.world ∨ Loses event) ∧
      ∀ result, Answers event request result → ∃ failure, result = .error failure := by
  obtain ⟨sound, stepped⟩ := sound_of_event run membership
  constructor
  · rcases sound.change stepped with
      same | ⟨_, booting, _⟩ | ⟨process, task, active, handled⟩ | ⟨damage, turn, failed⟩
    · exact .inl same
    · obtain ⟨_, _, serving⟩ := handles
      cases booting.symm.trans serving
    · obtain ⟨_, rest, serving⟩ := handles
      cases active.symm.trans serving
      exact .inl (handled.refused cid content put chunk found different)
    · cases damage with
      | crash => exact .inl (Option.some.inj failed).symm
      | power directory contents => exact .inr ⟨directory, contents, turn⟩
  · rintro result ⟨_, process, finished⟩
    cases result with
    | error failure => exact ⟨failure, rfl⟩
    | ok reply =>
        have held := (sound.handled finished).stored cid reply put chunk rfl
        obtain ⟨content', published, same⟩ := held.published
        rw [found] at published
        obtain rfl := Option.some.inj published
        exact absurd same different

theorem read_of_event (membership : event ∈ history) {reading : Request} {cid : Ident}
    {data : Bytes} {length : Value} {result : Except Failure Reply}
    (held : Held cid (store.Same data) event.before.world)
    (reads : reading.cmd = .get ∨ reading.cmd = .stat)
    (chunk : reading.chunkId = some (.ident cid))
    (keyed : reading.serviceKey.getD "" = store.secret) (sized : reading.length = some length)
    (matched : equalsNumber data.length length = true)
    (described : reading.sha256 = some (.digest (store.digest data)))
    (answers : Answers event reading result) :
    ∃ content, (content = data ∨ store.Collision content data) ∧
      result = .ok (.content data.length (store.digest data)
        (if reading.cmd = .get then content else [])) := by
  obtain ⟨_, process, finished⟩ := answers
  obtain ⟨content, published, sameLength, sameDigest⟩ := held.published
  have answered := ((sound_of_event run membership).1.handled finished).read cid content length reads
    chunk keyed published sized (sameLength ▸ matched) (sameDigest ▸ described)
  rw [sameLength, sameDigest] at answered
  refine ⟨content, ?_, answered⟩
  by_cases equal : content = data
  · exact .inl equal
  · exact .inr ⟨equal, sameLength, sameDigest⟩

end Steps

/-- In every run the published chunks fit in the capacity and are the whole
contents of puts with valid tickets; only a request to remove the chunk changes
or removes its file, unless the power takes back what has not been reported; a
put of other content under the identifier changes nothing and is refused; what a
put has reported is held and read until a request to remove it; and a start
leaves no temporary file. -/
theorem chunks_immutable (run : Run store.server.system history state) :
    (∀ earlier, Visited history state earlier → earlier.world.used ≤ store.capacity ∧
      ∀ cid content, earlier.world.published cid = some content →
        ∃ entry ∈ earlier.taken, store.Authorizes entry.1 entry.2 cid content) ∧
    (∀ event ∈ history, ∀ cid content, event.before.world.published cid = some content →
      event.after.world.published cid = some content ∨
        (∃ request, Handles event.before request ∧ Removes request cid) ∨ Loses event) ∧
    (∀ event ∈ history, ∀ request cid content, Handles event.before request →
      request.cmd = .put → request.chunkId = some (.ident cid) →
      event.before.world.published cid = some content → content ≠ request.data →
      ¬ store.Collision content request.data →
      (event.after.world = event.before.world ∨ Loses event) ∧
        ∀ result, Answers event request result → ∃ failure, result = .error failure) ∧
    (∀ later event earlier, history = later ++ event :: earlier → ∀ request cid reply,
      request.cmd = .put → request.chunkId = some (.ident cid) →
      Answers event request (.ok reply) →
      (∀ other ∈ later, ∀ removal, Handles other.before removal → ¬ Removes removal cid) →
      (∃ content, state.world.published cid = some content ∧
        (content = request.data ∨ store.Collision content request.data)) ∧
      ∀ other ∈ later, ∀ reading length result, reading.cmd = .get ∨ reading.cmd = .stat →
        reading.chunkId = some (.ident cid) → reading.serviceKey.getD "" = store.secret →
        reading.length = some length → equalsNumber request.data.length length = true →
        reading.sha256 = some (.digest (store.digest request.data)) →
        Answers other reading result →
        ∃ content, (content = request.data ∨ store.Collision content request.data) ∧
          result = .ok (.content request.data.length (store.digest request.data)
            (if reading.cmd = .get then content else []))) ∧
    (∀ event ∈ history, ∀ process, event.action = .finish →
      event.before.activity = .booting (.done (.ok process)) →
      ∀ serial, event.after.world.names.get? (.temporary serial) = none) := by
  refine ⟨?_, ?_, ?_, ?_, ?_⟩
  · intro earlier seen
    have valid := (Server.sound_of_reachable store.upholds (run.reached seen)).valid
    refine ⟨valid.here.bounded, fun cid content found => ?_⟩
    exact valid.here.justified cid content (Valid.refers valid found)
  · exact fun event membership cid content => published_of_event run membership
  · intro event membership request cid content handles put chunk found different apart
    apply refused_of_event run membership handles put chunk found
    rintro ⟨length, digest⟩
    exact apart ⟨different, length, digest⟩
  · rintro later event earlier rfl request cid reply put chunk answers unremoved
    have inHistory : ∀ other ∈ later, other ∈ later ++ event :: earlier := fun other inLater =>
      List.mem_append_left _ inLater
    have here : event ∈ later ++ event :: earlier := by simp
    obtain ⟨sound, stepped⟩ := sound_of_event run here
    obtain ⟨turn, process, finished⟩ := answers
    have unchanged : event.after.world = event.before.world := by
      rw [turn] at stepped
      simp only [Server.step, finished] at stepped
      rw [← Option.some.inj stepped]
    have held : Held cid (store.Same request.data) event.after.world := by
      rw [unchanged]
      exact (sound.handled finished).stored cid reply put chunk rfl
    obtain ⟨now, before⟩ := run.since (fun state => Held cid (store.Same request.data) state.world)
      held fun other inLater => held_of_event run (inHistory other inLater) (unremoved other inLater)
    constructor
    · obtain ⟨content, published, length, digest⟩ := now.published
      refine ⟨content, published, ?_⟩
      by_cases equal : content = request.data
      · exact .inl equal
      · exact .inr ⟨equal, length, digest⟩
    · intro other inLater reading length result
      exact read_of_event run (inHistory other inLater) (before other inLater)
  · intro event membership process turn booted
    obtain ⟨sound, stepped⟩ := sound_of_event run membership
    have unchanged : event.after.world = event.before.world := by
      rw [turn] at stepped
      simp only [Server.step, booted] at stepped
      rw [← Option.some.inj stepped]
    rw [unchanged]
    exact sound.booted booted _ List.mem_cons_self

section Letter

def letterTicket : Ticket := ⟨some (.ident 5), 7, 1,
  0xca978112ca1bbdcafac231b39a23dc4da786eff8147c4e72b9807785afee48bb, 1, 2, 3, 60⟩

/-- The functions of the standard library where the run below uses them. -/
def letterStore : Store where
  nodeId := 1
  secret := "secret"
  capacity := 1
  writeFault := false
  syncFault := false
  digest data :=
    if data = [0x61] then 0xca978112ca1bbdcafac231b39a23dc4da786eff8147c4e72b9807785afee48bb else 0
  mac ticket :=
    if ticket = letterTicket then "93bc04682cae71c5aa90ab445217662a399686eccf6fad8e23a3f0cb0cde1c43"
    else ""
  dumps _ volume :=
    ("\x7b\"node_id\": \"n1\", \"volume\": \"" ++ hexText 32 volume ++ "\"\x7d").toList.map
      fun c => UInt8.ofNat c.toNat
  loads text := if text = [] then none else some (1, 2)

def putLetter : Request where
  now := 0
  serviceKey := some "secret"
  cmd := .put
  chunkId := some (.ident 7)
  authorization := some ⟨letterTicket,
    "93bc04682cae71c5aa90ab445217662a399686eccf6fad8e23a3f0cb0cde1c43"⟩
  length := none
  sha256 := none
  inst := none
  volume := none
  data := [0x61]
  bounded := by decide

/-- A first start, a put that is interrupted once, and a crash. -/
def depositLetter : List (Turn Launch Request Inquiry Outcome Damage) :=
  [.launch ⟨2, 3⟩] ++ List.replicate 8 (.proceed .done) ++ [.finish, .request putLetter,
    .proceed .done, .proceed .done, .proceed (.named 0), .proceed .interrupted,
    .proceed (.wrote 1)] ++ List.replicate 6 (.proceed .done) ++ [.finish, .fail .crash]

theorem depositLetter_enabled : (letterStore.server.system.execute
    letterStore.server.system.initial depositLetter).isSome := by
  decide +kernel

theorem chunks_immutable_letter :
    ((letterStore.server.system.execute letterStore.server.system.initial depositLetter).get
      depositLetter_enabled).world.used ≤ 1 ∧
    ((letterStore.server.system.execute letterStore.server.system.initial depositLetter).get
      depositLetter_enabled).world.published 7 = some [0x61] := by
  have kept := chunks_immutable (letterStore.server.system.run depositLetter depositLetter_enabled)
  exact ⟨(kept.1 _ (.last _ _)).1, by decide +kernel⟩

end Letter

end Store

end FileServer.Storage

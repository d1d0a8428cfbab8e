import FileServer.Cluster.Invariant
import FileServer.Gateway.Rejections

/-!
# Valid copies and the disks

A copy turns valid after a `stat` that its node has answered, so its file was
there.  It stays there unless a remove of an earlier deletion is executed when
the copy counts as valid again.
-/

namespace FileServer.Cluster

open FileServer.Gateway FileServer.Metadata FileServer.Relational FileServer.Storage
  FileServer.Transition

namespace Deployment

/-- The process that runs on the node has the instance and the volume. -/
def Serves (s : Site) (κ : Deployment) (target : Target) : Prop :=
  κ.running target.node = some target.inst ∧ (s.hosts target.inst).2 = target.volume

/-- The volume holds the chunk as it is recorded. -/
def Holds (s : Site) (κ : Deployment) (target : Target) : Prop :=
  ∃ chunk content, κ.core.db.chunks.get? target.chunk = some chunk ∧
    (κ.disks (target.node, target.volume)).get? target.chunk = some content ∧
    content.length = chunk.length ∧ chunk.sha = some (s.digest content)

/-- Every valid copy of a published object is on the disk of the process that
is registered and runs. -/
def Stored (s : Site) (κ : Deployment) : Prop :=
  ∀ target : Target, κ.core.db.phase target.chunk = some .published →
    κ.core.db.Valid target.chunk target.node → κ.core.db.Registered target → κ.Serves s target →
    κ.Holds s target

/-- A remove that its process accepts finds a copy, of an object that is not
deleted, that is valid or whose successful `stat` is about to make it valid. -/
structure Destroys (s : Site) (κ : Deployment) (remote : Remote) (target : Target) : Prop where
  asked : remote = ⟨target.node, .remove target.chunk target.inst target.volume⟩
  serves : κ.Serves s target
  found : ((κ.disks (target.node, target.volume)).get? target.chunk).isSome
  registered : κ.core.db.Registered target
  live : κ.core.db.phase target.chunk ≠ some .deleted
  counted : κ.core.db.Valid target.chunk target.node ∨ ∃ v : Verifier,
    target ∈ v.verified κ.core ∨ v.asking κ.core = some target ∧ κ.Answered v

end Deployment

/-- No remove outlives its deletion until the copy is back. -/
def Timely (s : Site) (event : Event Deployment Move) : Prop :=
  ∀ remote ∈ event.action.delivers event.before, ∀ target,
    ¬event.before.Destroys s remote target

namespace Deployment

variable {s : Site} {κ κ' : Deployment}

/-- What has been verified under the present registration is on the disk. -/
structure Present (s : Site) (κ : Deployment) : Prop where
  answered : ∀ (v : Verifier) (target : Target), v.asking κ.core = some target → κ.Answered v →
    κ.core.db.phase target.chunk ≠ some .deleted → κ.core.db.Registered target →
    κ.Serves s target → κ.Holds s target
  verified : ∀ (v : Verifier) (target : Target), target ∈ v.verified κ.core →
    κ.core.db.phase target.chunk ≠ some .deleted → κ.core.db.Registered target →
    κ.Serves s target → κ.Holds s target
  valid : ∀ target : Target, κ.core.db.Valid target.chunk target.node →
    κ.core.db.phase target.chunk ≠ some .deleted → κ.core.db.Registered target →
    κ.Serves s target → κ.Holds s target

theorem Present.stored (present : Present s κ) : κ.Stored s :=
  fun target phase valid registered serves =>
    present.valid target valid (ne_of_eq_of_ne phase (by simp)) registered serves

theorem Present.initial : Present s Deployment.initial where
  answered := by
    intro v target asking
    cases v <;> cases asking
  verified := by
    intro v target verified
    cases v <;> cases verified
  valid := by
    rintro target ⟨row, stored, _⟩
    simp [Deployment.initial, State.initial, Database.empty] at stored

/-- A chunk keeps its record and its file through a transaction. -/
theorem Holds.grown {target : Target} (holds : κ.Holds s target) {drawn : List Ident}
    (grown : Grown drawn κ.core.db κ'.core.db) (disks : κ'.disks = κ.disks) :
    κ'.Holds s target := by
  obtain ⟨chunk, content, stored, file, sized, matched⟩ := holds
  obtain ⟨chunk', stored', kept, _⟩ := grown.chunks _ chunk stored
  exact ⟨chunk', content, stored', disks ▸ file, sized.trans kept.length.symm,
    kept.sha _ matched⟩

/-- An answer in hand was there before, and no new call has been made. -/
theorem answered_follow {action : Action} {core : State} {v : Verifier}
    (answered : (κ.follow s action core).Answered v) :
    κ.Answered v ∧ ∀ remote, κ.request core action ≠ some (v, remote) := by
  obtain ⟨sent, call, success⟩ := answered
  rw [Option.mem_def, follow_calls] at call
  split at call
  · next w remote out =>
      split at call
      · cases call
        cases success
      · next other =>
          refine ⟨⟨sent, call, success⟩, ?_⟩
          rintro remote' same
          cases out.symm.trans same
          exact other rfl
  · next silent => exact ⟨⟨sent, call, success⟩, fun remote same => by simp [silent] at same⟩

theorem answer_answered {v : Verifier} (allowed : κ.Allows s v.answer) : κ.Answered v := by
  cases v with
  | confirm i => exact allowed
  | worker w => exact allowed
  | reconcile => exact allowed rfl

theorem Present.metadata (present : Present s κ) (sound : Sound s κ) {action : Action}
    {core : State} (allowed : κ.Allows s action)
    (stepped : Metadata.metadata.step κ.core action = some core) :
    Present s (κ.follow s action core) := by
  obtain ⟨same, disks, running, _⟩ := κ.follow_frame s action core
  have later := sound.metadata allowed stepped
  have after := later.hosting
  rw [same] at after
  have invariant := reachable_invariant sound.reached
  obtain ⟨_, _, drawn, _, effect⟩ := reachable_effect sound.reached stepped
  have serves : ∀ target, (κ.follow s action core).Serves s target → κ.Serves s target := by
    intro target served
    simpa only [Serves, running] using served
  have kept : ∀ target, κ.Holds s target → (κ.follow s action core).Holds s target :=
    fun target holds => holds.grown (same.symm ▸ effect.steps.grown) disks
  have live : ∀ cid, core.db.phase cid ≠ some .deleted → κ.core.db.phase cid ≠ some .deleted := by
    intro cid alive dead
    obtain ⟨state, known, advances⟩ := effect.steps.grown.phase dead
    exact alive (known.trans (congrArg some advances.deleted))
  refine ⟨?_, ?_, ?_⟩
  · intro v target asking answered alive registered served
    rw [same] at asking alive registered
    obtain ⟨before, silent⟩ := answered_follow answered
    rcases v.asking_step (happens stepped) asking with asked | ⟨rfl, _⟩
    · have earlier := sound.hosting.registeredBefore after sound.reached stepped
        (v.asking_seen invariant sound.hosting asked) registered
      exact kept target (present.answered v target asked before (live _ alive) earlier
        (serves target served))
    · obtain ⟨length, sha, sent, _⟩ := ask_request (κ := κ)
        (reachable_invariant (sound.reached.next stepped))
        (pending_described sound.reached stepped sound.checks) asking
      exact absurd sent (silent _)
  · intro v target verified alive registered served
    rw [same] at verified alive registered
    rcases v.verified_step (happens stepped) sound.hosting verified with
      before | ⟨rfl, asked, unchanged⟩
    · have earlier := sound.hosting.registeredBefore after sound.reached stepped
        (v.verified_seen invariant before) registered
      exact kept target (present.verified v target before (live _ alive) earlier (serves target served))
    · exact kept target (present.answered v target asked (answer_answered allowed) (live _ alive)
        (unchanged ▸ registered) (serves target served))
  · intro target valid alive registered served
    rw [same] at valid alive registered
    by_cases before : κ.core.db.Valid target.chunk target.node
    · have earlier := valid_registered sound.reached stepped before valid registered
      exact kept target (present.valid target before (live _ alive) earlier (serves target served))
    · obtain ⟨v, source, _, chunk, node, earlier, registered', verified⟩ :=
        publishes_verified sound.reached sound.hosting stepped before valid
      obtain rfl : source = target := registered'.unique registered chunk node
      exact kept source (present.verified v source verified (live _ alive) earlier
        (serves source served))

/-- A request leaves every file in place, but for the remove of that file. -/
theorem perform_keeps {now : Time} {node node' : Node} {message : Message}
    (performed : perform s now node message = .ok node') {cid : Ident} {content : Bytes}
    (stored : node.files.get? cid = some content) :
    node'.files.get? cid = some content ∨ message = .remove cid node.inst node.volume := by
  cases message with
  | put other claims data =>
      simp only [perform, bind_eq_ok, require_eq_ok, pure_eq_ok] at performed
      obtain ⟨_, accepted, _, _, rfl⟩ := performed
      obtain ⟨_, _, _, ⟨_, _, rfl⟩ | ⟨absent, _, rfl⟩⟩ := Node.put_ok _ _ accepted
      · exact .inl stored
      · refine .inl ?_
        rw [Table.get?_upsert, if_neg, stored]
        rintro rfl
        rw [absent] at stored
        cases stored
  | stat other length sha =>
      simp only [perform, bind_eq_ok, pure_eq_ok] at performed
      obtain ⟨_, _, rfl⟩ := performed
      exact .inl stored
  | remove other inst volume =>
      obtain ⟨⟨rfl, rfl⟩, rfl⟩ := (Node.remove_ok _).mp performed
      by_cases same : cid = other
      · exact .inr (same ▸ rfl)
      · refine .inl ?_
        rw [Table.get?_erase, if_neg same, stored]

theorem Holds.execute {target : Target} (holds : κ.Holds s target) (serves : κ.Serves s target)
    {remote : Remote}
    (other : remote ≠ ⟨target.node, .remove target.chunk target.inst target.volume⟩) :
    (κ.execute s remote).2.Holds s target := by
  obtain ⟨chunk, content, stored, file, intact⟩ := holds
  refine ⟨chunk, content, by rwa [execute_frame], ?_, intact⟩
  unfold Deployment.execute
  split
  · exact file
  · next node runs =>
      split
      · next node' performed =>
          obtain ⟨inst, running, rfl⟩ := node_eq_some.mp runs
          simp only [Function.update_apply]
          split
          · next same =>
              obtain ⟨onNode, onVolume⟩ := Prod.mk.inj same
              rw [onNode, onVolume] at file
              refine (perform_keeps performed file).resolve_right fun removes => other ?_
              rw [← onNode, serves.1, Option.some.injEq] at running
              cases remote
              simp_all
          · exact file
      · exact file

theorem Holds.stat {target : Target} (serves : κ.Serves s target) {length : Nat}
    {sha : Option Sha} (described : Described κ.core.db target.chunk length sha)
    (success : (κ.execute s ⟨target.node, .stat target.chunk length sha⟩).1 = true) :
    κ.Holds s target := by
  unfold Deployment.execute at success
  split at success
  · cases success
  · next node runs =>
      obtain ⟨inst, running, rfl⟩ := node_eq_some.mp runs
      obtain rfl := Option.some.inj (running.symm.trans serves.1)
      split at success
      · next node' performed =>
          simp only [perform, bind_eq_ok, pure_eq_ok] at performed
          obtain ⟨content, found, _⟩ := performed
          obtain ⟨file, _, sized, matched⟩ := (Node.read_eq_ok _).mp found
          obtain ⟨chunk, stored, length, fixed⟩ := described _ matched
          exact ⟨chunk, content, stored, serves.2 ▸ file, sized.trans length.symm, fixed⟩
      · cases success

theorem Present.execute (present : Present s κ) {remote : Remote}
    (timely : ∀ target, ¬κ.Destroys s remote target) : Present s (κ.execute s remote).2 := by
  have kept : ∀ target, κ.Holds s target → κ.core.db.phase target.chunk ≠ some .deleted →
      κ.core.db.Registered target → κ.Serves s target → (κ.core.db.Valid target.chunk target.node ∨ ∃ v : Verifier,
        target ∈ v.verified κ.core ∨ v.asking κ.core = some target ∧ κ.Answered v) →
      (κ.execute s remote).2.Holds s target := by
    intro target holds live registered serves counted
    refine holds.execute serves fun removes =>
      timely target ⟨removes, serves, ?_, registered, live, counted⟩
    obtain ⟨_, content, _, file, _⟩ := holds
    rw [file]
    rfl
  rw [execute_frame] at kept ⊢
  refine ⟨?_, ?_, ?_⟩
  · intro v target asking answered live registered serves
    exact kept target (present.answered v target asking answered live registered serves) live
      registered serves (.inr ⟨v, .inr ⟨asking, answered⟩⟩)
  · intro v target verified live registered serves
    exact kept target (present.verified v target verified live registered serves) live registered
      serves (.inr ⟨v, .inl verified⟩)
  · intro target valid live registered serves
    exact kept target (present.valid target valid live registered serves) live registered serves
      (.inl valid)

theorem Present.step (present : Present s κ) (sound : Sound s κ) {move : Move}
    (taken : Takes s κ move κ') (timely : Timely s ⟨κ, move, κ'⟩) : Present s κ' := by
  cases taken with
  | metadata action core allowed stepped => exact present.metadata sound allowed stepped
  | send claims data held => exact ⟨present.answered, present.verified, present.valid⟩
  | deliver v remote sent =>
      have executed := present.execute (timely remote (by simp [Move.delivers, pending, sent]))
      refine ⟨?_, executed.verified, executed.valid⟩
      rintro w target asking ⟨call, known, success⟩ live registered serves
      by_cases same : w = v
      · subst same
        rw [execute_frame] at asking registered serves
        obtain ⟨_, length, sha, waits, described⟩ := sound.asked w target asking
        rw [sent, Option.some.injEq] at waits
        obtain ⟨rfl, _⟩ := Sent.mk.inj waits
        simp only [Option.mem_def, Function.update_self, Option.some.injEq] at known
        subst known
        have served : κ.Serves s target := serves
        have holds : κ.Holds s target := Holds.stat served described (Option.some.inj success)
        exact holds.execute served (by simp)
      · simp only [Option.mem_def, Function.update_of_ne same] at known
        have answered : (κ.execute s remote).2.Answered w := by
          rw [execute_frame]
          exact ⟨call, known, success⟩
        exact executed.answered w target asking answered live registered serves
  | drift k remote sent =>
      have executed := present.execute (timely remote sent)
      exact ⟨executed.answered, executed.verified, executed.valid⟩
  | start inst fresh free =>
      have before : ∀ target, κ.core.db.Registered target →
          Function.update κ.running (s.hosts inst).1 (some inst) target.node = some target.inst →
          κ.running target.node = some target.inst := by
        rintro target ⟨node, stored, known, _⟩ runs
        rw [Function.update_apply] at runs
        split at runs
        · cases runs
          exact absurd (known ▸ sound.registered _ node stored) fresh
        · exact runs
      refine ⟨?_, ?_, ?_⟩
      · intro v target asking answered live registered serves
        exact present.answered v target asking answered live registered
          ⟨before target registered serves.1, serves.2⟩
      · intro v target verified live registered serves
        exact present.verified v target verified live registered
          ⟨before target registered serves.1, serves.2⟩
      · intro target valid live registered serves
        exact present.valid target valid live registered
          ⟨before target registered serves.1, serves.2⟩
  | stop nid =>
      have before : ∀ target : Target,
          Function.update κ.running nid none target.node = some target.inst →
          κ.running target.node = some target.inst := by
        intro target runs
        rw [Function.update_apply] at runs
        split at runs
        · cases runs
        · exact runs
      refine ⟨?_, ?_, ?_⟩
      · intro v target asking answered live registered serves
        exact present.answered v target asking answered live registered
          ⟨before target serves.1, serves.2⟩
      · intro v target verified live registered serves
        exact present.verified v target verified live registered ⟨before target serves.1, serves.2⟩
      · intro target valid live registered serves
        exact present.valid target valid live registered ⟨before target serves.1, serves.2⟩
  | report nid node runs => exact ⟨present.answered, present.verified, present.valid⟩

end Deployment

/-- In a run that executes every remove in time, each valid copy of a published
object is on its disk in every state. -/
theorem valid_stored {s : Site} {history : List (Event Deployment Move)} {κ earlier : Deployment}
    (run : Run (cluster s) history κ) (timely : ∀ event ∈ history, Timely s event)
    (seen : Visited history κ earlier) : earlier.Stored s := by
  have kept : earlier.Sound s ∧ earlier.Present s := by
    refine run.visitedUnder (fun κ => κ.Sound s ∧ κ.Present s) (Timely s)
      ⟨.initial, .initial⟩ ?_ timely seen
    rintro before move after ⟨sound, present⟩ timely stepped
    exact ⟨sound.step (takes stepped), present.step sound (takes stepped) timely⟩
  exact kept.2.stored

section Outlived

def sampleSite : Site := site sampleDigest 100

def Harmless (event : Event Deployment Move) : Prop :=
  ∀ remote ∈ event.action.delivers event.before, ∀ cid inst volume,
    remote.message ≠ .remove cid inst volume

theorem Harmless.timely {s : Site} {event : Event Deployment Move} (harmless : Harmless event) :
    Timely s event := by
  intro remote delivered target destroys
  exact harmless remote delivered _ _ _ (by rw [destroys.asked])

instance (event : Event Deployment Move) : Decidable (Harmless event) :=
  match delivered : event.action.delivers event.before with
  | none => isTrue (by simp [Harmless, delivered])
  | some ⟨_, .remove cid inst volume⟩ => isFalse (by simp [Harmless, delivered])
  | some ⟨_, .put ..⟩ => isTrue (by simp [Harmless, delivered])
  | some ⟨_, .stat ..⟩ => isTrue (by simp [Harmless, delivered])

def uploadedSite : Deployment :=
  ((cluster sampleSite).execute (cluster sampleSite).initial
    (uploadMoves (sampleDigest [5]) 100)).get (by decide +kernel)

/-- The copies of the upload are on their disks. -/
theorem valid_stored_uploaded : uploadedSite.Stored sampleSite := by
  have harmless : ∀ event ∈ (cluster sampleSite).events (cluster sampleSite).initial
      (uploadMoves (sampleDigest [5]) 100), Harmless event := by decide +kernel
  exact valid_stored ((cluster sampleSite).run _ _)
    (fun event membership => (harmless event membership).timely) (.last _ _)

def repairMoves (token : Ident) : List Move :=
  [.metadata (.claim 0 installation token), .metadata (.begin 0 installation),
    .metadata (.fetch 0 true), .metadata (.sendPut 0 installation), .deliver (.worker 0),
    .metadata (.putDone 0), .metadata (.sendStat 0), .deliver (.worker 0), .metadata (.statDone 0),
    .metadata (.commit 0 installation)]

def condemnMove (nid : NodeId) : Move :=
  .metadata (.request installation "owner" (.badReplica 1000 1002 nid) id)

/-- The first remove of a surplus copy times out undelivered, a second one
succeeds, a repair brings the copy back, and the first remove arrives. -/
def outlivedMoves : List Move :=
  uploadMoves (sampleDigest [5]) 100 ++
    [.metadata (.tick 1), condemnMove 1] ++ repairMoves 5000 ++
    [.metadata (.maintain installation), .metadata (.scan installation), .metadata .visit,
      .metadata .visit, .metadata (.page [1002] false), .metadata (.review installation),
      .metadata .stopMaintenance, .metadata (.tick 33)] ++ roundMoves 99 ++
    [.metadata (.claim 0 installation 5001), .metadata (.begin 0 installation),
      .metadata (.sendRemove 0), .metadata (.raise 0 "timed out"), .metadata (.fail 0),
      .metadata (.tick 3)] ++ roundMoves 99 ++
    [.metadata (.claim 0 installation 5002), .metadata (.begin 0 installation),
      .metadata (.sendRemove 0), .deliver (.worker 0), .metadata (.removeDone 0),
      .metadata (.commit 0 installation), condemnMove 3] ++ repairMoves 5003 ++ [.drift 0]

def outlived : Deployment :=
  ((cluster sampleSite).execute (cluster sampleSite).initial outlivedMoves).get
    (by decide +kernel)

/-- The repaired copy counts as valid and its file is gone. -/
theorem late_remove_destroys :
    ¬∀ κ, Reachable (cluster sampleSite) κ → κ.Stored sampleSite := by
  intro stored
  have reached : Reachable (cluster sampleSite) outlived :=
    ⟨_, (cluster sampleSite).run outlivedMoves (by decide +kernel)⟩
  have published : outlived.core.db.phase 1002 = some .published := by decide +kernel
  have valid : outlived.core.db.Valid 1002 1 :=
    ⟨⟨201, .valid, .used⟩, by decide +kernel, rfl⟩
  have known : (outlived.core.db.nodes.get? 1).map (fun node => (node.inst, node.volume)) =
      some (101, 201) := by decide +kernel
  obtain ⟨node, located, same⟩ := Option.map_eq_some_iff.mp known
  obtain ⟨inst, volume⟩ := Prod.mk.inj same
  have serves : outlived.Serves sampleSite ⟨1002, 1, 101, 201⟩ := by
    exact ⟨by decide +kernel, rfl⟩
  obtain ⟨_, _, _, file, _⟩ := stored outlived reached ⟨1002, 1, 101, 201⟩ published valid
    ⟨node, located, inst, volume⟩ serves
  have absent : (outlived.disks (1, 201)).get? 1002 = none := by decide +kernel
  exact absurd (absent.symm.trans file) (by simp)

end Outlived

end FileServer.Cluster

import FileServer.Cluster.System

/-!
# The invariant of the cluster

What is known of processes was reported by them, and what a `stat` asks for is
the chunk as it is recorded.
-/

namespace FileServer.Cluster

open FileServer.Metadata FileServer.Relational FileServer.Storage FileServer.Transition

/-- The chunk is recorded with the length and the checksum asked for. -/
def Described (db : Database) (cid : Ident) (length : Nat) (sha : Option Sha) : Prop :=
  ∀ checksum ∈ sha, ∃ chunk, db.chunks.get? cid = some chunk ∧ chunk.length = length ∧
    chunk.sha = some checksum

theorem Described.grown {db db' : Database} {drawn : List Ident} {cid : Ident} {length : Nat}
    {sha : Option Sha} (described : Described db cid length sha) (grown : Grown drawn db db') :
    Described db' cid length sha := by
  intro checksum given
  obtain ⟨chunk, stored, sized, fixed⟩ := described checksum given
  obtain ⟨chunk', stored', kept, _⟩ := grown.chunks cid chunk stored
  exact ⟨chunk', stored', kept.length.trans sized, kept.sha checksum fixed⟩

/-- The checks still to make were read from the tables. -/
theorem pending_described {σ σ' : State} {action : Action}
    (reached : Reachable Metadata.metadata σ)
    (stepped : Metadata.metadata.step σ action = some σ')
    (described : ∀ check ∈ σ.maintenance.pending,
      Described σ.db check.chunk check.length check.sha) :
    ∀ check ∈ σ'.maintenance.pending, Described σ'.db check.chunk check.length check.sha := by
  obtain ⟨_, _, drawn, _, effect⟩ := reachable_effect reached stepped
  have kept : ∀ check ∈ σ.maintenance.pending,
      Described σ'.db check.chunk check.length check.sha :=
    fun check membership => (described check membership).grown effect.steps.grown
  rcases (happens stepped).maintenanceThread with same | move
  · exact same ▸ kept
  · generalize σ'.maintenance = after at move ⊢
    generalize σ.maintenance = before at move kept
    generalize σ'.db = db at move kept ⊢
    cases move with
    | visit view views =>
        intro check membership checksum given
        simp only [Maintenance.pending, Database.unverifiedOn] at membership
        obtain ⟨⟨_, row⟩, _, unverified⟩ := List.mem_filterMap.mp (List.mem_of_mem_take membership)
        split at unverified
        · obtain ⟨chunk, stored, rfl⟩ := Option.map_eq_some_iff.mp unverified
          exact ⟨chunk, stored, rfl, given⟩
        · cases unverified
    | ask | answer => simpa [Maintenance.pending] using kept
    | reverify view check valid left views db judged =>
        intro other membership
        exact kept other (List.mem_cons_of_mem _ membership)
    | _ => simp [Maintenance.pending]

namespace Deployment

variable {s : Site} {κ κ' : Deployment}

section Frames

theorem execute_frame (remote : Remote) : (κ.execute s remote).2 =
    { κ with disks := (κ.execute s remote).2.disks } := by
  unfold execute
  split
  · rfl
  · split <;> rfl

theorem mem_unread {action : Action} {report : Report} (unread : report ∈ κ.unread action) :
    report ∈ κ.reports := by
  unfold Deployment.unread at unread
  split at unread
  · exact List.mem_of_mem_eraseP unread
  · exact unread

theorem dial_frame (call : Option (Verifier × Remote)) : κ.dial call =
    { κ with calls := (κ.dial call).calls, adrift := (κ.dial call).adrift } := by
  unfold dial
  split <;> rfl

theorem follow_frame (κ : Deployment) (s : Site) (action : Action) (core : State) :
    (κ.follow s action core).core = core ∧ (κ.follow s action core).disks = κ.disks ∧
      (κ.follow s action core).running = κ.running ∧
      (κ.follow s action core).started = κ.started ∧
      (κ.follow s action core).reports = κ.unread action ∧
      (κ.follow s action core).tickets = κ.tickets ++ κ.released action := by
  unfold follow
  rw [dial_frame]
  exact ⟨rfl, rfl, rfl, rfl, rfl, rfl⟩

/-- A new call replaces the last one; the others stay as they are. -/
theorem follow_calls (action : Action) (core : State) (v : Verifier) :
    (κ.follow s action core).calls v =
      match κ.request core action with
      | some (w, remote) => if v = w then some ⟨remote, none⟩ else κ.calls v
      | none => κ.calls v := by
  unfold follow dial
  split
  · next absent => simp only [absent]
  · next w remote sent => simp only [sent, Function.update_apply]

end Frames

/-- What holds of the processes and of the calls that are out. -/
structure Sound (s : Site) (κ : Deployment) : Prop where
  reached : Reachable Metadata.metadata κ.core
  hosting : Hosting s.hosts κ.core
  processes : ∀ nid inst, κ.running nid = some inst → inst ∈ κ.started ∧ (s.hosts inst).1 = nid
  reports : ∀ report ∈ κ.reports, report.inst ∈ κ.started ∧
    s.hosts report.inst = (report.node, report.volume)
  beats : ∀ i beat, κ.core.beats i = some beat → beat.inst ∈ κ.started
  registered : ∀ nid node, κ.core.db.nodes.get? nid = some node → node.inst ∈ κ.started
  checks : ∀ check ∈ κ.core.maintenance.pending,
    Described κ.core.db check.chunk check.length check.sha
  asked : ∀ (v : Verifier) (target : Target), v.asking κ.core = some target →
    ∃ answer length sha, κ.calls v = some ⟨⟨target.node, .stat target.chunk length sha⟩, answer⟩ ∧
      Described κ.core.db target.chunk length sha

theorem Sound.initial : Sound s Deployment.initial where
  reached := ⟨[], .start⟩
  hosting := .initial
  processes := by simp [Deployment.initial]
  reports := by simp [Deployment.initial]
  beats := by simp [Deployment.initial, State.initial]
  registered := by simp [Deployment.initial, State.initial, Database.empty]
  checks := by simp [Deployment.initial, State.initial, Maintenance.pending]
  asked := by
    intro v target asking
    cases v <;> cases asking

theorem request_asking {core : State} {action : Action} {v : Verifier} {remote : Remote}
    {target : Target} (sent : κ.request core action = some (v, remote))
    (asking : v.asking core = some target) : action = v.ask := by
  cases action with
  | sendRemove w =>
      simp only [request] at sent
      split at sent
      · next job deletion here =>
          cases sent
          simp [Verifier.asking, here] at asking
      · cases sent
  | sendPut w c =>
      simp only [request] at sent
      split at sent
      · next job repair ticket here =>
          cases sent
          simp [Verifier.asking, here] at asking
      · cases sent
  | sendStat w =>
      simp only [request] at sent
      split at sent <;> cases sent
      rfl
  | confirmAsk i =>
      simp only [request, Option.bind_eq_some_iff, Option.map_eq_some_iff] at sent
      obtain ⟨_, _, _, _, same⟩ := sent
      cases same
      rfl
  | checkAsk =>
      simp only [request] at sent
      split at sent <;> cases sent
      rfl
  | _ => cases sent

theorem ask_request {core : State} {v : Verifier} {target : Target} (invariant : core.Invariant)
    (described : ∀ check ∈ core.maintenance.pending,
      Described core.db check.chunk check.length check.sha)
    (asking : v.asking core = some target) :
    ∃ length sha, κ.request core v.ask = some (v, ⟨target.node, .stat target.chunk length sha⟩) ∧
      Described core.db target.chunk length sha := by
  cases v with
  | confirm i =>
      simp only [Verifier.asking] at asking
      split at asking
      · next op present =>
          split at asking
          · obtain ⟨position, first, rfl⟩ := Option.map_eq_some_iff.mp asking
            obtain ⟨chunk, stored, _, sized, fixed⟩ := (invariant.confirms i op present).chunk
            refine ⟨op.length, some op.sha, ?_, ?_⟩
            · simp [Verifier.ask, request, present, first, Confirming.target]
            · rintro checksum ⟨⟩
              exact ⟨chunk, stored, sized, fixed⟩
          · cases asking
      · cases asking
  | worker w =>
      simp only [Verifier.asking] at asking
      split at asking
      · next job repair checking =>
          cases asking
          obtain ⟨_, known⟩ := (invariant.workers w).repair job repair (by rw [checking]; rfl)
          obtain ⟨chunk, _, _, stored, sized, fixed, _⟩ := known.chunk
          refine ⟨repair.length, repair.sha, ?_, ?_⟩
          · simp [Verifier.ask, request, checking, Repair.asked]
          · intro checksum given
            exact ⟨chunk, stored, sized, fixed.trans given⟩
      · cases asking
  | reconcile =>
      simp only [Verifier.asking] at asking
      split at asking
      · next view check left views here =>
          cases asking
          refine ⟨check.length, check.sha, ?_, ?_⟩
          · simp [Verifier.ask, request, here, Check.target]
          · exact described check (by simp [here, Maintenance.pending])
      · cases asking

/-- A heartbeat that is received was reported by its process. -/
theorem Sound.hosted (sound : Sound s κ) {action : Action} {core : State}
    (allowed : κ.Allows s action) : Hosted s.hosts ⟨κ.core, action, core⟩ := by
  rintro i c nid inst volume capacity free rfl
  obtain ⟨report, membership, rfl, rfl, rfl, _⟩ := allowed
  exact (sound.reports report membership).2

theorem Sound.metadata (sound : Sound s κ) {action : Action} {core : State}
    (allowed : κ.Allows s action) (stepped : Metadata.metadata.step κ.core action = some core) :
    Sound s (κ.follow s action core) := by
  obtain ⟨same, _, running, started, reports, _⟩ := κ.follow_frame s action core
  have reached := sound.reached.next stepped
  have hosted : Hosted s.hosts ⟨κ.core, action, core⟩ := sound.hosted allowed
  have known := happens stepped
  have checks := pending_described sound.reached stepped sound.checks
  obtain ⟨focus, focuses, drawn, _, effect⟩ := reachable_effect sound.reached stepped
  refine ⟨by rwa [same], ?_, ?_, ?_, ?_, ?_, by rwa [same], ?_⟩
  · rw [same]
    exact sound.hosting.step sound.reached stepped hosted
  · rw [running, started]
    exact sound.processes
  · rw [reports, started]
    exact fun report unread => sound.reports report (mem_unread unread)
  · rw [same, started]
    intro i beat stored
    rcases known.beats stored with before | ⟨c, capacity, free, rfl⟩
    · exact sound.beats i beat before
    · obtain ⟨report, membership, _, inst, _⟩ := allowed
      exact inst ▸ (sound.reports report membership).1
  · rw [same, started]
    intro nid node stored
    rcases node_reported sound.reached stepped stored with
      ⟨old, before, inst, _⟩ | ⟨i, beat, received, _, inst, _⟩
    · exact inst ▸ sound.registered nid old before
    · exact inst ▸ sound.beats i beat received
  · intro v target asking
    rw [same] at asking
    rw [same, follow_calls]
    by_cases asks : action = v.ask
    · subst asks
      obtain ⟨length, sha, sent, described⟩ :=
        ask_request (κ := κ) (reachable_invariant reached) checks asking
      simp only [sent, if_true]
      exact ⟨none, length, sha, rfl, described⟩
    · have before : v.asking κ.core = some target :=
        (v.asking_step known asking).resolve_right fun issued => asks issued.1
      obtain ⟨answer, length, sha, call, described⟩ := sound.asked v target before
      refine ⟨answer, length, sha, ?_, described.grown effect.steps.grown⟩
      split
      · next w remote sent =>
          rw [if_neg, call]
          rintro rfl
          exact asks (request_asking sent asking)
      · exact call

theorem node_eq_some {nid : NodeId} {node : Node} : κ.node s nid = some node ↔
    ∃ inst, κ.running nid = some inst ∧ node = ⟨nid, (s.hosts inst).2, inst, s.capacity inst,
      κ.disks (nid, (s.hosts inst).2)⟩ := by
  simp only [Deployment.node, Option.map_eq_some_iff, @eq_comm _ node]

theorem Sound.step (sound : Sound s κ) {move : Move} (taken : Takes s κ move κ') :
    Sound s κ' := by
  cases taken with
  | metadata action core allowed stepped => exact sound.metadata allowed stepped
  | send claims data held =>
      exact ⟨sound.reached, sound.hosting, sound.processes, sound.reports, sound.beats,
        sound.registered, sound.checks, sound.asked⟩
  | deliver v remote sent =>
      rw [execute_frame]
      refine ⟨sound.reached, sound.hosting, sound.processes, sound.reports, sound.beats,
        sound.registered, sound.checks, ?_⟩
      intro w target asking
      obtain ⟨answer, length, sha, call, described⟩ := sound.asked w target asking
      by_cases same : w = v
      · subst same
        obtain ⟨rfl, rfl⟩ := Sent.mk.inj (Option.some.inj (call.symm.trans sent))
        exact ⟨_, length, sha, Function.update_self _ _ _, described⟩
      · exact ⟨answer, length, sha, (Function.update_of_ne same _ _).trans call, described⟩
  | drift k remote sent =>
      rw [execute_frame]
      exact ⟨sound.reached, sound.hosting, sound.processes, sound.reports, sound.beats,
        sound.registered, sound.checks, sound.asked⟩
  | start inst fresh free =>
      refine ⟨sound.reached, sound.hosting, ?_, ?_, ?_, ?_, sound.checks, sound.asked⟩
      · intro nid other runs
        simp only [Function.update_apply] at runs
        split at runs
        · next same =>
            cases runs
            exact ⟨Finset.mem_insert_self _ _, same.symm⟩
        · obtain ⟨known, hosted⟩ := sound.processes nid other runs
          exact ⟨Finset.mem_insert_of_mem known, hosted⟩
      · intro report membership
        obtain ⟨known, hosted⟩ := sound.reports report membership
        exact ⟨Finset.mem_insert_of_mem known, hosted⟩
      · exact fun i beat stored => Finset.mem_insert_of_mem (sound.beats i beat stored)
      · exact fun nid node stored => Finset.mem_insert_of_mem (sound.registered nid node stored)
  | stop nid =>
      refine ⟨sound.reached, sound.hosting, ?_, sound.reports, sound.beats, sound.registered,
        sound.checks, sound.asked⟩
      intro other inst runs
      simp only [Function.update_apply] at runs
      split at runs
      · cases runs
      · exact sound.processes other inst runs
  | report nid node runs =>
      refine ⟨sound.reached, sound.hosting, sound.processes, ?_, sound.beats, sound.registered,
        sound.checks, sound.asked⟩
      intro report membership
      rcases List.mem_append.mp membership with old | new
      · exact sound.reports report old
      · obtain rfl := List.mem_singleton.mp new
        obtain ⟨inst, running, rfl⟩ := node_eq_some.mp runs
        obtain ⟨known, hosted⟩ := sound.processes nid inst running
        exact ⟨known, Prod.ext hosted rfl⟩

end Deployment

theorem reachable_sound {s : Site} {κ : Deployment} (reached : Reachable (cluster s) κ) :
    κ.Sound s :=
  reached.invariant _ .initial fun _ _ _ sound stepped => sound.step (takes stepped)

end FileServer.Cluster

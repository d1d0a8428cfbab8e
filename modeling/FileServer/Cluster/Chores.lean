import FileServer.Cluster.Guarding
import Mathlib.Data.Fintype.EquivFin

/-!
# What the chores do

A chore is a step of the service, a delivery or a report.  None of them stops
or starts a process, registers another one or records a chunk.
-/

namespace FileServer.Cluster

open FileServer.Metadata FileServer.Relational FileServer.Storage FileServer.Transition

/-- The configuration by which a task thread acts. -/
def Configured (c : Config) : Action → Prop
  | .claim _ d _ | .begin _ d | .sendPut _ d | .commit _ d => d = c
  | _ => True

inductive Attends (c : Config) (w : Nat) (σ : State) : Action → State → Prop where
  | tick (elapsed) : Attends c w σ (.tick elapsed) { σ with now := σ.now + elapsed }
  | beat (i nid inst volume capacity free beat) (absent : σ.beats i = none)
      (accepted : heartbeat c σ.now nid inst volume capacity free = .ok beat) :
      Attends c w σ (.beat i c nid inst volume capacity free)
        { σ with beats := Function.update σ.beats i (some beat) }
  | refuse (i nid inst volume capacity free) :
      Attends c w σ (.beat i c nid inst volume capacity free) σ
  | register (i beat db) (present : σ.beats i = some beat)
      (registered : σ.db.register c beat = .ok db) :
      Attends c w σ (.register i c) { σ with db, beats := Function.update σ.beats i none }
  | reject (i) : Attends c w σ (.register i c) { σ with beats := Function.update σ.beats i none }
  | worker (action worker db) (move : WorkerMove σ w action (σ.workers w) worker db)
      (configured : Configured c action) :
      Attends c w σ action { σ with
        db, issued := σ.issued ∪ action.issues.toFinset
        workers := Function.update σ.workers w worker }
  | maintenance (action maintenance db)
      (move : MaintenanceMove σ action σ.maintenance maintenance db)
      (unbroken : action ≠ .skipNode ∧ action ≠ .stopMaintenance) :
      Attends c w σ action { σ with db, issued := σ.issued ∪ action.issues.toFinset, maintenance }

theorem Chore.attends {c : Config} {w : Nat} {chore : Chore} {action : Action} {σ σ' : State}
    (move : chore.move c w = .metadata action) (happened : Happens σ action σ') :
    Attends c w σ action σ' := by
  cases happened with
  | tick elapsed => exact .tick elapsed
  | request | requestBy => cases chore <;> cases move
  | beat i d nid inst volume capacity free beat absent accepted =>
      obtain rfl : d = c := by cases chore <;> cases move; rfl
      exact .beat i nid inst volume capacity free beat absent accepted
  | refuse i d nid inst volume capacity free =>
      obtain rfl : d = c := by cases chore <;> cases move; rfl
      exact .refuse i nid inst volume capacity free
  | register i d beat db present registered =>
      obtain rfl : d = c := by cases chore <;> cases move; rfl
      exact .register i beat db present registered
  | reject i d =>
      obtain rfl : d = c := by cases chore <;> cases move; rfl
      exact .reject i
  | dropBeat => cases chore <;> cases move
  | confirm _ i op db confirms => cases chore <;> cases move <;> cases confirms
  | worker _ v worker db works =>
      obtain rfl : v = w := by
        generalize σ.workers v = before at works
        cases chore <;> cases move <;> cases works <;> rfl
      refine .worker action worker db works ?_
      cases chore <;> cases move <;> trivial
  | maintenance _ maintenance db maintains =>
      refine .maintenance action maintenance db maintains ?_
      cases chore <;> cases move <;> simp

/-- What a chore does. -/
inductive Undertakes (s : Site) (c : Config) (w : Nat) (σ : Upkeep) : Upkeep → Prop where
  | service (action core slept) (allowed : σ.deployment.Allows s action)
      (stepped : Metadata.metadata.step σ.deployment.core action = some core)
      (attends : Attends c w σ.deployment.core action core)
      (registered : ∀ i, action = .register i c → ∀ beat ∈ σ.deployment.core.beats i,
        ∃ node ∈ σ.deployment.core.db.nodes.get? beat.node, node.inst = beat.inst)
      (answered : ∀ valid, action = .checkAnswer valid →
        ∃ sent ∈ σ.deployment.calls .reconcile, sent.answer = some valid)
      (rested : action = .sendPut w c → σ.Rested c w)
      (sleeps : action = .fetch w true ∧ slept = σ.deployment.core.now ∨
        action ≠ .fetch w true ∧ slept = σ.slept) :
      Undertakes s c w σ ⟨σ.deployment.follow s action core, slept⟩
  | deliver (v remote) (turn : v = .reconcile ∨ v = .worker w)
      (awaits : (σ.deployment.awaited v).isSome = true)
      (sent : σ.deployment.calls v = some ⟨remote, none⟩) :
      Undertakes s c w σ ⟨{ (σ.deployment.execute s remote).2 with
        calls := Function.update σ.deployment.calls v
          (some ⟨remote, some (σ.deployment.execute s remote).1⟩) }, σ.slept⟩
  | report (nid node) (runs : σ.deployment.node s nid = some node) :
      Undertakes s c w σ ⟨{ σ.deployment with
        reports := σ.deployment.reports ++
          [⟨nid, node.inst, node.volume, node.capacity, Deployment.free s node⟩] }, σ.slept⟩

/-- The processes, their registrations and the chunks are as they were, and so
are the objects whose uploads have ended. -/
structure Framed (κ κ' : Deployment) : Prop where
  running : κ'.running = κ.running
  nodes : SameNodes κ.core.db κ'.core.db
  chunks : κ'.core.db.chunks = κ.core.db.chunks
  known : ∀ cid, κ.core.db.phase cid ≠ some .staging →
    κ'.core.db.chunkObject cid = κ.core.db.chunkObject cid

namespace Framed

variable {κ κ' κ'' : Deployment}

theorem refl (κ : Deployment) : Framed κ κ := ⟨rfl, .refl _, rfl, fun _ _ => rfl⟩

theorem phase (framed : Framed κ κ') {cid : Ident} (settled : κ.core.db.phase cid ≠ some .staging) :
    κ'.core.db.phase cid = κ.core.db.phase cid := by
  rw [Database.phase, framed.known cid settled, Database.phase]

theorem trans (earlier : Framed κ κ') (later : Framed κ' κ'') : Framed κ κ'' where
  running := later.running.trans earlier.running
  nodes := earlier.nodes.trans later.nodes
  chunks := later.chunks.trans earlier.chunks
  known := fun cid settled =>
    (later.known cid (earlier.phase settled ▸ settled)).trans (earlier.known cid settled)

theorem nodeIds (framed : Framed κ κ') {nid : NodeId} : nid ∈ κ'.nodeIds ↔ nid ∈ κ.nodeIds := by
  simp only [Deployment.mem_nodeIds]
  constructor
  · rintro ⟨node, stored⟩
    obtain ⟨old, located, _⟩ := framed.nodes.before stored
    exact ⟨old, located⟩
  · rintro ⟨node, stored⟩
    obtain ⟨new, located, _⟩ := framed.nodes.after stored
    exact ⟨new, located⟩

theorem recordedBytes (framed : Framed κ κ') : κ'.recordedBytes = κ.recordedBytes := by
  simp only [Deployment.recordedBytes, framed.chunks]

end Framed

theorem registered_again {s : Site} {c : Config} {κ : Deployment} {db : Database}
    (reached : Reachable (cluster s) κ) {i : Nat} {beat : Beat} {node : NodeRow}
    (present : κ.core.beats i = some beat)
    (stored : κ.core.db.nodes.get? beat.node = some node) (registered : node.inst = beat.inst)
    (registration : Database.Registration c κ.core.db db beat) :
    ¬κ.core.db.Remounts beat ∧ SameNodes κ.core.db db := by
  have sound := reachable_sound reached
  have mounted : node.volume = beat.volume := by
    have hosted := sound.hosting.nodes beat.node node stored
    rw [registered, sound.hosting.beats i beat present, Prod.mk.injEq] at hosted
    exact hosted.2.symm
  constructor
  · rintro ⟨node', located, changed⟩
    obtain rfl := Option.some.inj (stored.symm.trans located)
    rcases changed with inst | volume
    · exact inst registered
    · exact volume mounted
  · intro nid
    rw [registration.nodes]
    split
    · next same => simp [same, stored, Database.registered, registered, mounted]
    · rfl

/-- There is an identifier that no chunk has. -/
theorem exists_unrecorded {db : Database} (consistent : Consistent db) :
    ∃ cid, db.phase cid = none := by
  obtain ⟨cid, absent⟩ := Infinite.exists_notMem_finset (db.chunks.rows.map Prod.fst).toFinset
  refine ⟨cid, (Database.phase_eq_none consistent.linked).mpr ?_⟩
  refine Option.eq_none_iff_forall_ne_some.mpr fun chunk stored => absent ?_
  exact List.mem_toFinset.mpr (List.mem_map.mpr ⟨_, (Table.mem_rows_iff _).mpr stored, rfl⟩)

/-- No chore records a chunk or ends an upload that has ended. -/
theorem Attends.known {c : Config} {w : Nat} {σ σ' : State} {action : Action}
    (attends : Attends c w σ action σ') (consistent : Consistent σ.db) {cid : Ident}
    (settled : σ.db.phase cid ≠ some .staging) :
    σ'.db.chunks = σ.db.chunks ∧ σ'.db.chunkObject cid = σ.db.chunkObject cid := by
  cases attends with
  | register i beat db present accepted =>
      have registration := Database.register_ok accepted
      refine ⟨registration.chunks, ?_⟩
      simp only [Database.chunkObject, registration.chunks, registration.uploads,
        registration.objects]
  | worker _ worker db move configured =>
      have life := move.life
      exact ⟨life.chunks, by simp only [Database.chunkObject, life.chunks, life.uploads, life.objects]⟩
  | maintenance _ maintenance db move unbroken => exact move.known consistent settled
  | _ => exact ⟨rfl, rfl⟩

/-- No chore changes what it must leave alone. -/
theorem Undertakes.framed {s : Site} {c : Config} {w : Nat} {σ σ' : Upkeep}
    (reached : Reachable (cluster s) σ.deployment) (undertakes : Undertakes s c w σ σ') :
    Framed σ.deployment σ'.deployment := by
  obtain ⟨κ, slept⟩ := σ
  have sound := reachable_sound reached
  have consistent := (reachable_invariant sound.reached).consistent
  cases undertakes with
  | service action core _ allowed stepped attends registered =>
      obtain ⟨same, _, running, _⟩ := κ.follow_frame s action core
      have others : (∀ i d, action ≠ .register i d) → SameNodes κ.core.db core.db :=
        sameNodes_step sound.reached stepped
      obtain ⟨absent, unrecorded⟩ := exists_unrecorded consistent
      obtain ⟨chunks, _⟩ := attends.known consistent (show κ.core.db.phase absent ≠ _ by
        simp [unrecorded])
      refine ⟨running, ?_, by rw [same, chunks], fun cid settled => by
        rw [same, (attends.known consistent settled).2]⟩
      rw [same]
      cases attends with
      | register i beat db present accepted =>
          obtain ⟨node, stored, inst⟩ := registered i rfl beat present
          exact (registered_again reached present stored inst (Database.register_ok accepted)).2
      | worker _ worker db move configured =>
          generalize κ.core.workers w = before at move
          exact others (by cases move <;> simp)
      | maintenance _ maintenance db move unbroken =>
          generalize κ.core.maintenance = before at move
          exact others (by cases move <;> simp)
      | _ => exact .refl _
  | deliver v remote =>
      rw [Deployment.execute_frame]
      exact ⟨rfl, .refl _, rfl, fun _ _ => rfl⟩
  | report => exact ⟨rfl, .refl _, rfl, fun _ _ => rfl⟩

/-- The chunk of a published object in a cluster that is reachable and
available. -/
structure Tended (s : Site) (c : Config) (cid : Ident) (length required : Nat) (κ : Deployment) :
    Prop where
  reached : Reachable (cluster s) κ
  available : κ.Available s c
  known : ∃ chunk upload oid object, κ.core.db.chunkObject cid = some (chunk, upload, oid, object) ∧
    object.state = .published ∧ chunk.length = length ∧ object.replicas = required

theorem Deployment.Available.framed {s : Site} {c : Config} {κ κ' : Deployment}
    (available : κ.Available s c) (framed : Framed κ κ') : κ'.Available s c := by
  refine ⟨fun nid node stored => ?_, fun nid node stored => ?_, fun nid node stored => ?_⟩
  · obtain ⟨old, before, inst, _⟩ := framed.nodes.before stored
    rw [framed.running, available.running nid old before, inst]
  · obtain ⟨old, before, _⟩ := framed.nodes.before stored
    exact available.configured nid old before
  · obtain ⟨old, before, inst, volume⟩ := framed.nodes.before stored
    rw [framed.recordedBytes, ← inst, ← volume]
    exact available.room nid old before

namespace Tended

variable {s : Site} {c : Config} {cid : Ident} {length required : Nat} {κ κ' : Deployment}

theorem published (tended : Tended s c cid length required κ) :
    κ.core.db.phase cid = some .published := by
  obtain ⟨_, _, _, object, known, state, _⟩ := tended.known
  rw [Database.phase, known, Option.map_some, state]

theorem consistent (tended : Tended s c cid length required κ) : Consistent κ.core.db :=
  (reachable_invariant (reachable_sound tended.reached).reached).consistent

theorem framed (tended : Tended s c cid length required κ) (reached : Reachable (cluster s) κ')
    (framed : Framed κ κ') : Tended s c cid length required κ' where
  reached := reached
  available := tended.available.framed framed
  known := by
    rw [framed.known cid (by simp [tended.published])]
    exact tended.known

end Tended

section Steps

variable {s : Site} {c : Config} {w : Nat} {σ σ' : Upkeep}

theorem upkeep_step {chore : Chore} (stepped : σ.step s c w chore = some σ') :
    σ.Permits s c w chore ∧ (cluster s).step σ.deployment (chore.move c w) = some σ'.deployment ∧
      σ'.slept = if chore = .fetch true then σ.deployment.core.now else σ.slept := by
  simp only [Upkeep.step] at stepped
  split at stepped
  · next permits =>
      obtain ⟨after, taken, rfl⟩ := Option.map_eq_some_iff.mp stepped
      exact ⟨permits, taken, rfl⟩
  · cases stepped

theorem undertakes {chore : Chore} (stepped : σ.step s c w chore = some σ') :
    Undertakes s c w σ σ' := by
  obtain ⟨permits, taken, sleeps⟩ := upkeep_step stepped
  obtain ⟨κ', slept⟩ := σ'
  have moved := takes taken
  dsimp only at moved sleeps
  generalize same : chore.move c w = move at moved
  cases moved with
  | metadata action core allowed served =>
      refine .service action core slept allowed served (chore.attends same (happens served))
        ?_ ?_ ?_ ?_
      · rintro i rfl
        cases chore <;> cases same
        exact permits
      · rintro valid rfl
        cases chore <;> cases same
        exact permits
      · rintro rfl
        cases chore <;> cases same
        exact permits
      · by_cases fetches : chore = .fetch true
        · subst fetches
          cases same
          exact .inl ⟨rfl, by simpa using sleeps⟩
        · refine .inr ⟨?_, by simpa [fetches] using sleeps⟩
          rintro rfl
          apply fetches
          cases chore <;> cases same
          rfl
  | deliver v remote sent =>
      have awake : slept = σ.slept := by
        rw [sleeps, if_neg]
        rintro rfl
        cases same
      subst awake
      cases chore with
      | checkDeliver =>
          cases same
          exact .deliver _ remote (.inl rfl) permits sent
      | deliver =>
          cases same
          exact .deliver _ remote (.inr rfl) permits sent
      | _ => cases same
  | report nid node runs =>
      have awake : slept = σ.slept := by
        rw [sleeps, if_neg]
        rintro rfl
        cases same
      subst awake
      exact .report nid node runs
  | send | drift | start | stop => cases chore <;> cases same

end Steps

end FileServer.Cluster

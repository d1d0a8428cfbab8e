import FileServer.Cluster.Progress

/-!
# Heartbeats during the upkeep

Every registered process reports itself, and its heartbeat is received and
registered at once.
-/

namespace FileServer.Cluster

open FileServer.Metadata FileServer.Relational FileServer.Storage FileServer.Transition

/-- Only finitely many heartbeats are being handled. -/
theorem reachable_slot {σ : State} (reached : Reachable Metadata.metadata σ) :
    ∃ i, σ.beats i = none := by
  have bounded : ∃ bound, ∀ i, bound ≤ i → σ.beats i = none := by
    refine reached.invariant (fun σ => ∃ bound, ∀ i, bound ≤ i → σ.beats i = none)
      ⟨0, fun _ _ => rfl⟩ ?_
    rintro before action after ⟨bound, free⟩ stepped
    by_cases beats : ∃ j c nid inst volume capacity rest,
        action = .beat j c nid inst volume capacity rest
    · obtain ⟨j, c, nid, inst, volume, capacity, rest, rfl⟩ := beats
      refine ⟨max bound (j + 1), fun i beyond => Option.eq_none_iff_forall_ne_some.mpr ?_⟩
      intro beat stored
      rcases (happens stepped).beats stored with old | ⟨_, _, _, same⟩
      · simp [free i (le_trans (le_max_left _ _) beyond)] at old
      · cases same
        omega
    · refine ⟨bound, fun i beyond => Option.eq_none_iff_forall_ne_some.mpr ?_⟩
      intro beat stored
      rcases (happens stepped).beats stored with old | ⟨c, capacity, rest, rfl⟩
      · simp [free i beyond] at old
      · exact beats ⟨_, _, _, _, _, _, _, rfl⟩
  obtain ⟨bound, free⟩ := bounded
  exact ⟨bound, free bound le_rfl⟩

namespace Deployment

variable {s : Site} {κ : Deployment}

theorem Recorded.occupied_le (recorded : κ.Recorded s) (disk : NodeId × Ident) :
    κ.occupied disk ≤ κ.recordedBytes := by
  have covers : ∀ cid chunk, κ.core.db.chunks.get? cid = some chunk →
      cid ∈ (κ.core.db.chunks.rows.map Prod.fst).toFinset := fun cid chunk stored =>
    List.mem_toFinset.mpr (List.mem_map.mpr ⟨_, (Table.mem_rows_iff _).mpr stored, rfl⟩)
  have described : ∀ cid content, (κ.disks disk).get? cid = some content →
      ∃ chunk, κ.core.db.chunks.get? cid = some chunk ∧ chunk.length = content.length := by
    intro cid content present
    obtain ⟨chunk, stored, sized, _⟩ := recorded.files disk cid content present _ rfl
    exact ⟨chunk, stored, sized⟩
  rw [occupied, recordedBytes, Table.sum_eq_sum_keys _ _ covers, Table.sum_eq_sum_keys]
  · refine Finset.sum_le_sum fun cid _ => ?_
    cases present : (κ.disks disk).get? cid with
    | none => exact Nat.zero_le _
    | some content =>
        obtain ⟨chunk, stored, sized⟩ := described cid content present
        simp [stored, sized]
  · intro cid content present
    obtain ⟨chunk, stored, _⟩ := described cid content present
    exact covers cid chunk stored

/-- The heartbeat of the node has just been registered. -/
structure Prompt (κ : Deployment) (node : NodeRow) : Prop where
  state : node.state = .healthy
  heartbeat : node.heartbeat = κ.core.now
  capacity : (2 * κ.recordedBytes : Int) ≤ node.capacity
  free : (κ.recordedBytes : Int) ≤ node.freeBytes

end Deployment

/-- Nothing changes but registrations. -/
structure Undisturbed (σ σ' : Upkeep) : Prop where
  now : σ'.deployment.core.now = σ.deployment.core.now
  tasks : σ'.deployment.core.db.tasks = σ.deployment.core.db.tasks
  replicas : σ'.deployment.core.db.replicas = σ.deployment.core.db.replicas
  workers : σ'.deployment.core.workers = σ.deployment.core.workers
  maintenance : σ'.deployment.core.maintenance = σ.deployment.core.maintenance

theorem Undisturbed.refl (σ : Upkeep) : Undisturbed σ σ := ⟨rfl, rfl, rfl, rfl, rfl⟩

theorem Undisturbed.trans {σ σ' σ'' : Upkeep} (earlier : Undisturbed σ σ')
    (later : Undisturbed σ' σ'') : Undisturbed σ σ'' :=
  ⟨later.now.trans earlier.now, later.tasks.trans earlier.tasks,
    later.replicas.trans earlier.replicas, later.workers.trans earlier.workers,
    later.maintenance.trans earlier.maintenance⟩

section Rounds

variable {s : Site} {c : Config} {w : Nat} {σ : Upkeep}

theorem leads_report {nid : NodeId} {node : Node} (runs : σ.deployment.node s nid = some node) :
    ∃ σ', Upkeep.Leads s c w σ σ' ∧ σ'.deployment.core = σ.deployment.core ∧
      ⟨nid, node.inst, node.volume, node.capacity, Deployment.free s node⟩ ∈
        σ'.deployment.reports := by
  obtain ⟨κ, slept⟩ := σ
  refine ⟨⟨{ κ with reports := κ.reports ++
    [⟨nid, node.inst, node.volume, node.capacity, Deployment.free s node⟩] }, slept⟩,
    @Upkeep.Leads.single s c w _ _ (.report nid) ?_, rfl, List.mem_append_right _ List.mem_cons_self⟩
  have permits : Upkeep.Permits s c w ⟨κ, slept⟩ (.report nid) := trivial
  rw [Upkeep.step, if_pos permits, Chore.move, Deployment.step, runs]
  rfl

/-- A heartbeat is received. -/
theorem leads_beat {i : Nat} {report : Report} {address : String}
    (reported : report ∈ σ.deployment.reports) (absent : σ.deployment.core.beats i = none)
    (configured : c.nodes.lookup report.node = some address) (fits : report.free ≤ report.capacity)
    (bounded : report.capacity ≤ 2 ^ 60) :
    ∃ σ', Upkeep.Leads s c w σ σ' ∧ σ'.deployment.core = { σ.deployment.core with
      beats := Function.update σ.deployment.core.beats i (some ⟨report.node, address, report.inst,
        report.volume, report.capacity, report.free, σ.deployment.core.now⟩) } := by
  have accepted : heartbeat c σ.deployment.core.now report.node report.inst report.volume
      report.capacity report.free = .ok ⟨report.node, address, report.inst, report.volume,
        report.capacity, report.free, σ.deployment.core.now⟩ := by
    have bounds : (0 : Int) ≤ report.free ∧ (report.free : Int) ≤ report.capacity ∧
        (report.capacity : Int) ≤ 2 ^ 60 := ⟨by omega, by omega, by exact_mod_cast bounded⟩
    simp only [heartbeat, found, configured, require, if_pos bounds]
    rfl
  have stepped : Metadata.metadata.step σ.deployment.core (.beat i c report.node report.inst
      report.volume report.capacity report.free) = some { σ.deployment.core with
        beats := Function.update σ.deployment.core.beats i (some ⟨report.node, address, report.inst,
          report.volume, report.capacity, report.free, σ.deployment.core.now⟩) } := by
    simp only [Metadata.metadata, State.step, absent, accepted]
  exact ⟨_, leads_act (show Chore.move c w (.beat i report) = _ from rfl) trivial
    ⟨report, reported, rfl, rfl, rfl, rfl, rfl⟩ stepped, (Deployment.follow_frame _ _ _ _).1⟩

theorem leads_register (reached : Reachable (cluster s) σ.deployment) {i : Nat} {beat : Beat}
    {node : NodeRow} (present : σ.deployment.core.beats i = some beat)
    (stored : σ.deployment.core.db.nodes.get? beat.node = some node)
    (registered : node.inst = beat.inst) :
    ∃ σ' db, Upkeep.Leads s c w σ σ' ∧
      Database.Registration c σ.deployment.core.db db beat ∧
      ¬σ.deployment.core.db.Remounts beat ∧
      σ'.deployment.core = { σ.deployment.core with
        db, beats := Function.update σ.deployment.core.beats i none } := by
  obtain ⟨db, accepted⟩ : ∃ db, σ.deployment.core.db.register c beat = .ok db := by
    simp only [Database.register, stored, registered, Option.mem_def, Option.some.injEq, forall_eq',
      ne_eq, not_true_eq_false, false_implies]
    exact ⟨_, rfl⟩
  have registration := Database.register_ok accepted
  have stepped : Metadata.metadata.step σ.deployment.core (.register i c) =
      some { σ.deployment.core with
        db, beats := Function.update σ.deployment.core.beats i none } := by
    simp only [Metadata.metadata, State.step, present, accepted]
  refine ⟨_, db, leads_act (show Chore.move c w (.register i) = _ from rfl) ?_ trivial stepped,
    registration, (registered_again reached present stored registered registration).1,
    (Deployment.follow_frame _ _ _ _).1⟩
  intro other beaten
  obtain rfl := Option.some.inj (present.symm.trans beaten)
  exact ⟨node, stored, registered⟩

theorem process_available (attended : Attended s c σ.deployment) {nid : NodeId}
    {node : NodeRow} (stored : σ.deployment.core.db.nodes.get? nid = some node) :
    ∃ process, σ.deployment.node s nid = some process ∧ process.nodeId = nid ∧
      process.inst = node.inst ∧ process.volume = node.volume ∧
      process.files = σ.deployment.disks (nid, node.volume) ∧
      process.used ≤ σ.deployment.recordedBytes ∧
      2 * σ.deployment.recordedBytes ≤ process.capacity ∧
      2 * σ.deployment.recordedBytes ≤ s.size (nid, node.volume) ∧ process.capacity ≤ 2 ^ 60 := by
  obtain ⟨sound, recorded⟩ := reachable_recorded attended.reached
  have running := attended.available.running nid node stored
  have hosted := sound.hosting.nodes nid node stored
  obtain ⟨roomy, spacious, bounded⟩ := attended.available.room nid node stored
  exact ⟨⟨nid, node.volume, node.inst, s.capacity node.inst,
    σ.deployment.disks (nid, node.volume)⟩,
    Deployment.node_eq_some.mpr ⟨node.inst, running, by simp [hosted]⟩, rfl, rfl, rfl, rfl,
    recorded.occupied_le (nid, node.volume), roomy, spacious, bounded⟩

theorem beat_once (attended : Attended s c σ.deployment) {nid : NodeId}
    {node : NodeRow} (stored : σ.deployment.core.db.nodes.get? nid = some node) :
    ∃ σ' node', Upkeep.Leads s c w σ σ' ∧ Undisturbed σ σ' ∧
      σ'.deployment.core.db.nodes.get? nid = some node' ∧ σ'.deployment.Prompt node' ∧
      ∀ other, other ≠ nid →
        σ'.deployment.core.db.nodes.get? other = σ.deployment.core.db.nodes.get? other := by
  obtain ⟨i, absent⟩ := reachable_slot (reachable_sound attended.reached).reached
  obtain ⟨address, configured⟩ := attended.available.configured nid node stored
  obtain ⟨process, serves, here, inst, volume, _, used, roomy, spacious, bounded⟩ :=
    process_available attended stored
  obtain ⟨reporting, reports, unchanged, reported⟩ := @leads_report s c w σ nid _ serves
  obtain ⟨beaten, beats, received⟩ := @leads_beat s c w _ _ _ _
    reported (unchanged ▸ absent) configured
    (le_trans (min_le_left _ _) (Nat.sub_le _ _)) bounded
  rw [unchanged] at received
  have proceeds := reports.trans beats
  have present := (congrFun (congrArg State.beats received) i).trans (Function.update_self _ _ _)
  have before : beaten.deployment.core.db.nodes.get? nid = some node := by
    rw [received]
    exact stored
  obtain ⟨σ', db, registers, registration, settled, result⟩ := leads_register (c := c) (w := w)
    (proceeds.attended attended).reached present before inst.symm
  rw [received] at registration settled result
  have same : db.replicas = σ.deployment.core.db.replicas := by
    rw [registration.replicas]
    simp [settled, Table.mapRows]
  have bytes : σ'.deployment.recordedBytes = σ.deployment.recordedBytes :=
    ((proceeds.trans registers).framed attended.reached).recordedBytes
  have located := (congrArg (fun core => core.db.nodes.get? nid) result).trans registration.stored
  refine ⟨σ', _, proceeds.trans registers, ⟨?_, ?_, ?_, ?_, ?_⟩, located, ⟨rfl, ?_, ?_, ?_⟩, ?_⟩
  · rw [result]
  · rw [result]
    exact registration.tasks
  · rw [result]
    exact same
  · rw [result]
  · rw [result]
  · rw [result]
    rfl
  · simp only [bytes, Database.registered]
    exact_mod_cast roomy
  · rw [bytes]
    simp only [Database.registered, Deployment.free, here, volume]
    push_cast
    omega
  · intro other different
    rw [result]
    exact (registration.nodes other).trans (if_neg different)

theorem beat_all (attended : Attended s c σ.deployment) :
    ∃ σ', Upkeep.Leads s c w σ σ' ∧ Undisturbed σ σ' ∧
      ∀ nid node, σ'.deployment.core.db.nodes.get? nid = some node → σ'.deployment.Prompt node := by
  have some_nodes : ∀ nids : List NodeId, ∃ σ', Upkeep.Leads s c w σ σ' ∧ Undisturbed σ σ' ∧
      ∀ nid ∈ nids, ∀ node, σ'.deployment.core.db.nodes.get? nid = some node →
        σ'.deployment.Prompt node := by
    intro nids
    induction nids with
    | nil => exact ⟨σ, .refl, .refl σ, by simp⟩
    | cons nid rest inductionHypothesis =>
        obtain ⟨middle, proceeds, undisturbed, prompt⟩ := inductionHypothesis
        cases present : middle.deployment.core.db.nodes.get? nid with
        | none =>
            refine ⟨middle, proceeds, undisturbed, ?_⟩
            intro other membership node stored
            rcases List.mem_cons.mp membership with rfl | later
            · simp [present] at stored
            · exact prompt other later node stored
        | some node =>
            obtain ⟨σ', node', more, still, stored', fresh, others⟩ :=
              beat_once (w := w) (proceeds.attended attended) present
            refine ⟨σ', proceeds.trans more, undisturbed.trans still, ?_⟩
            intro other membership found stored
            by_cases same : other = nid
            · subst same
              obtain rfl := Option.some.inj (stored.symm.trans stored')
              exact fresh
            · rw [others other same] at stored
              obtain ⟨state, heartbeat, capacity, free⟩ := prompt other
                (List.mem_of_ne_of_mem same membership) found stored
              have bytes : σ'.deployment.recordedBytes = middle.deployment.recordedBytes :=
                (more.framed (proceeds.reached attended.reached)).recordedBytes
              exact ⟨state, by rw [heartbeat, still.now], bytes ▸ capacity, bytes ▸ free⟩
  obtain ⟨σ', proceeds, undisturbed, prompt⟩ := some_nodes σ.deployment.nodeIds
  refine ⟨σ', proceeds, undisturbed, fun nid node stored => prompt nid ?_ node stored⟩
  exact (proceeds.framed attended.reached).nodeIds.mp (Deployment.mem_nodeIds.mpr ⟨node, stored⟩)

end Rounds

end FileServer.Cluster

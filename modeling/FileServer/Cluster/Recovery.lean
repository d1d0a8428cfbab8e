import FileServer.Cluster.Copying
import FileServer.Cluster.Presence

/-!
# Recovery

While all nodes are available the upkeep restores the copies of every chunk
that has enough copies and spare nodes.
-/

namespace FileServer.Cluster

open FileServer.Gateway FileServer.Metadata FileServer.Relational FileServer.Storage
  FileServer.Transition

section Recovery

variable {s : Site} {c : Config} {w : Nat} {cid : Ident} {length required : Nat} {σ : Upkeep}

theorem healthy_le_kept {κ : Deployment} (consistent : Consistent κ.core.db) {db : Database}
    {now : Time} (rows : ∀ nid, db.replicas.get? (cid, nid) = κ.core.db.replicas.get? (cid, nid)) :
    (Database.healthy c now db cid).length ≤ (κ.kept s cid).length := by
  have covered : (Database.healthy c now db cid).map Source.node ⊆ κ.kept s cid := by
    intro nid membership
    obtain ⟨row, _, stored, _, valid, _⟩ := Database.mem_healthy.mp membership
    rw [rows] at stored
    exact Deployment.mem_kept.mpr ⟨Deployment.mem_nodeIds.mpr
      (consistent.replicaNode cid nid row stored), row, stored, .inl valid⟩
  simpa using (List.Nodup.subperm Database.healthy_nodup covered).length_le

theorem kept_le_healthy {κ : Deployment} (consistent : Consistent κ.core.db)
    (prompt : ∀ nid node, κ.core.db.nodes.get? nid = some node → κ.Prompt node)
    (judged : κ.Judged cid) :
    (κ.kept s cid).length ≤ (Database.healthy c κ.core.now κ.core.db cid).length := by
  have covered : κ.kept s cid ⊆
      (Database.healthy c κ.core.now κ.core.db cid).map Source.node :=
    fun nid kept => kept_healthy consistent prompt judged kept
  simpa using (List.Nodup.subperm Deployment.kept_nodup covered).length_le

/-- A task thread that rests works on nothing. -/
theorem engaged_of_idle (idle : σ.deployment.core.workers w = .idle) :
    σ.Engaged s c w cid length required := by
  intro job working
  rw [idle] at working
  cases working

/-- All copies of the chunk are judged, and the threads rest. -/
theorem leads_judged (cid : Ident) (attended : Attended s c σ.deployment) :
    ∃ σ', Upkeep.Leads s c w σ σ' ∧
      σ'.deployment.core.workers = σ.deployment.core.workers ∧
      σ'.deployment.core.maintenance = .idle ∧ σ'.deployment.Judged cid := by
  obtain ⟨σ', leads, workers, idle, none⟩ := gets_verified (w := w) attended
  refine ⟨σ', leads, workers, idle, fun nid row stored unverified => ?_⟩
  have waits := Database.mem_waiting.mpr ⟨row, stored, unverified⟩
  simp [none] at waits

/-- If as many copies as there should be are kept, as many come to be healthy. -/
theorem leads_enough (tended : Tended s c cid length required σ.deployment)
    (idle : σ.deployment.core.workers w = .idle)
    (enough : required ≤ (σ.deployment.kept s cid).length) :
    ∃ σ', Upkeep.Leads s c w σ σ' ∧ σ'.deployment.Enough c cid required := by
  obtain ⟨rested, judges, workers, _, judged⟩ := leads_judged (w := w) cid tended.attended
  obtain ⟨σ', beats, undisturbed, prompt⟩ := beat_all (w := w) (judges.tended tended).attended
  have leads := judges.trans beats
  rcases leads_holds tended (engaged_of_idle idle) leads with
    ⟨late, reaches, healthy, _⟩ | ⟨made, copies, _⟩
  · exact ⟨late, reaches, healthy⟩
  · have judged : σ'.deployment.Judged cid := by
      simp only [Deployment.Judged, undisturbed.replicas]
      exact judged
    refine ⟨σ', leads, le_trans ?_
      (kept_le_healthy (s := s) (leads.tended tended).consistent prompt judged)⟩
    rw [copies.kept_length]
    exact Nat.le_add_right_of_le enough

theorem leads_due (tended : Tended s c cid length required σ.deployment)
    (idle : σ.deployment.core.workers w = .idle) (rests : σ.deployment.core.maintenance = .idle)
    (few : (σ.deployment.kept s cid).length < required) :
    ∃ σ', Upkeep.Leads s c w σ σ' ∧ σ'.deployment.core.workers w = .idle ∧
      σ'.deployment.core.db.nextTask σ'.deployment.core.now = some ⟨.repair, cid, none⟩ ∧
      ∀ nid node, σ'.deployment.core.db.nodes.get? nid = some node → σ'.deployment.Prompt node := by
  have consistent := tended.consistent
  obtain ⟨chunk, upload, oid, object, known, published, sized, copies⟩ := tended.known
  obtain ⟨maintained, maintains, tidied, _, tables⟩ := maintenance_moves (w := w) tended.attended
    .maintain (.maintain c) rests rfl trivial trivial trivial trivial
  obtain ⟨row, stored, active⟩ := @Database.maintain_enqueues c
    σ.deployment.core.now _ cid consistent _ _ _ _ known published
    (fun db rows => copies ▸ lt_of_le_of_lt (healthy_le_kept consistent rows) few)
  rw [← tables] at stored
  obtain ⟨late, ticks, core, _⟩ := @leads_tick s c w maintained
    ((row.lease - maintained.deployment.core.now).toNat + 1)
  have leads := maintains.trans ticks
  have serving : Serving s c ⟨.repair, cid, none⟩ row.lease late := by
    refine ⟨(leads.tended tended).attended, ⟨row, by rw [core]; exact stored, active⟩, ?_⟩
    rw [core]
    have past := Int.self_le_toNat (row.lease - maintained.deployment.core.now)
    refine lt_of_le_of_lt (sub_le_iff_le_add'.mp past) (Int.add_lt_add_left ?_ _)
    exact_mod_cast Nat.lt_succ_self _
  obtain ⟨due, comes, _, resting, next⟩ := comes_due (w := w) serving (by
      rw [core]
      exact (congrFun tidied.workers w).trans idle) (by rw [core]; exact stored) le_rfl
  have toDue := leads.trans comes
  obtain ⟨σ', beats, undisturbed, prompt⟩ := beat_all (w := w) (toDue.tended tended).attended
  refine ⟨σ', toDue.trans beats, ?_, ?_, prompt⟩
  · rw [undisturbed.workers]
    exact resting
  · rw [← next]
    simp only [Database.nextTask, undisturbed.tasks, undisturbed.now]

theorem leads_recovered (tended : Tended s c cid length required σ.deployment)
    (idle : σ.deployment.core.workers w = .idle)
    (recoverable : σ.deployment.Recoverable s c cid length required) :
    ∃ σ', Upkeep.Leads s c w σ σ' ∧ σ'.deployment.Enough c cid required := by
  by_contra never
  have few : ∀ σ', Upkeep.Leads s c w σ σ' → ¬σ'.deployment.Enough c cid required :=
    fun σ' leads enough => never ⟨σ', leads, enough⟩
  clear never
  generalize lacking : required - (σ.deployment.kept s cid).length = copies
  induction copies using Nat.strong_induction_on generalizing σ with
  | _ copies inductionHypothesis =>
      have lacks : ∀ σ', Upkeep.Leads s c w σ σ' → σ'.deployment.core.workers w = .idle →
          (σ'.deployment.kept s cid).length < required := by
        intro σ' leads resting
        by_contra enough
        obtain ⟨late, later, healthy⟩ := leads_enough (leads.tended tended) resting (not_lt.mp enough)
        exact few late (leads.trans later) healthy
      have holds : ∀ σ₁ σ₂, Upkeep.Leads s c w σ σ₁ → σ₁.deployment.core.workers w = .idle →
          Upkeep.Leads s c w σ₁ σ₂ → σ₁.Holds s c w cid length required σ₂ := by
        intro σ₁ σ₂ leads resting later
        refine (leads_holds (leads.tended tended) (engaged_of_idle resting) later).resolve_left ?_
        rintro ⟨late, reaches, enough, _⟩
        exact few late (leads.trans reaches) enough
      obtain ⟨enough, copyable⟩ := recoverable.resolve_left (not_le.mpr (lacks σ .refl idle))
      obtain ⟨rested, judges, workers, rests, judged⟩ := leads_judged (w := w) cid tended.attended
      have resting : rested.deployment.core.workers w = .idle := by rw [workers, idle]
      obtain ⟨due, dues, waiting, next, prompt⟩ := leads_due (judges.tended tended) resting rests
        (lacks rested judges resting)
      have toDue := judges.trans dues
      obtain ⟨_, undue, _⟩ := holds rested due judges resting dues
      obtain ⟨made, before, _⟩ := holds σ due .refl idle toDue
      have kept := before.kept_length
      have spare := before.spare_length
      have less := lacks due toDue waiting
      have room : ∃ nid ∈ due.deployment.nodeIds, due.deployment.Spare cid nid := by
        obtain ⟨nid, free⟩ := List.exists_mem_of_length_pos
          (show 0 < (due.deployment.spare cid).length by omega)
        exact ⟨nid, Deployment.mem_spare.mp free⟩
      obtain ⟨copied, target, copies', ends, free, keeps⟩ := copy_made (toDue.tended tended) waiting
        next prompt (undue.judged judged) (fun σ' leads => by
          obtain ⟨_, copies, _⟩ := holds σ σ' .refl idle (toDue.trans leads)
          exact copyable.copies copies) (fun σ' leads => few σ' (toDue.trans leads)) room
      obtain ⟨more, after, _⟩ := holds due copied toDue waiting copies'
      have fresh : target ∈ more :=
        ((after.keeps target).mp keeps).resolve_left fun old => old.not_spare free
      have positive := List.length_pos_of_mem fresh
      have grown := after.kept_length
      have shrunk := after.spare_length
      have leads := toDue.trans copies'
      exact inductionHypothesis _ (by omega) (leads.tended tended) ends
        (.inr ⟨by omega, copyable.copies (before.trans after)⟩)
        (fun σ' later => few σ' (leads.trans later)) rfl

theorem recoverable_of_enough (tended : Tended s c cid length required σ.deployment)
    (idle : σ.deployment.core.workers w = .idle) {σ' : Upkeep}
    (leads : Upkeep.Leads s c w σ σ') (enough : σ'.deployment.Enough c cid required) :
    σ.deployment.Recoverable s c cid length required := by
  have ⟨late, reaches, healthy, made, copies, _, copyable⟩ : ∃ late, Upkeep.Leads s c w σ late ∧
      late.deployment.Enough c cid required ∧ σ.Holds s c w cid length required late :=
    (leads_holds tended (engaged_of_idle idle) leads).elim id
      fun holds => ⟨σ', leads, enough, holds⟩
  have counted : required ≤ (late.deployment.kept s cid).length :=
    le_trans healthy (healthy_le_kept (reaches.tended tended).consistent fun _ => rfl)
  have kept := copies.kept_length
  have spare := copies.spare_length
  by_cases none : made = []
  · subst none
    rw [List.length_nil, add_zero] at kept
    exact .inl (kept ▸ counted)
  · exact .inr ⟨by omega, copyable none⟩

end Recovery

/-- While every node is available, maintenance and the task thread can restore
the copies of a chunk of a published object if and only if it is recoverable. -/
theorem chunks_recovered {s : Site} {c : Config} {w : Nat} {κ : Deployment}
    (reached : Reachable (cluster s) κ) (available : κ.Available s c)
    (idle : κ.core.workers w = .idle) {cid oid : Ident} {chunk : ChunkRow} {upload : UploadRow}
    {object : ObjectRow} (known : κ.core.db.chunkObject cid = some (chunk, upload, oid, object))
    (published : object.state = .published) :
    (∃ σ, Reachable (upkeep s c w κ) σ ∧ object.replicas ≤
      (Database.healthy c σ.deployment.core.now σ.deployment.core.db cid).length) ↔
        κ.Recoverable s c cid chunk.length object.replicas := by
  have tended : Tended s c cid chunk.length object.replicas κ :=
    ⟨reached, available, chunk, upload, oid, object, known, published, rfl, rfl⟩
  constructor
  · rintro ⟨σ, reaches, enough⟩
    exact recoverable_of_enough (σ := ⟨κ, 0⟩) tended idle (leads_of_reachable reaches) enough
  · intro recoverable
    obtain ⟨σ, leads, healthy⟩ := leads_recovered (σ := ⟨κ, 0⟩) tended idle recoverable
    exact ⟨σ, leads.reachable, healthy⟩

section Condemned

/-- A read error condemns one of the two copies of an upload. -/
def condemnedMoves : List Move :=
  uploadMoves (sampleDigest [5]) 100 ++ [.metadata (.tick 1), condemnMove 1]

def condemned : Deployment :=
  ((cluster sampleSite).execute (cluster sampleSite).initial condemnedMoves).get
    (by decide +kernel)

theorem condemned_reached : Reachable (cluster sampleSite) condemned :=
  ⟨_, (cluster sampleSite).run condemnedMoves (by decide +kernel)⟩

theorem condemned_known : condemned.core.db.chunkObject 1002 =
    some (⟨1001, 0, 1, some (sampleDigest [5]), .confirmed⟩, ⟨1000, .completed, 1000⟩, 1000,
      ⟨"owner", "file", 1, 4, 2, .published⟩) := by
  decide +kernel

theorem condemned_available : condemned.Available sampleSite installation :=
  .of_rows (by decide +kernel)

theorem condemned_recoverable : condemned.Recoverable sampleSite installation 1002 1 2 := by
  have free : ∀ row ∈ (condemned.core.db.replicasOf 1002).map Prod.snd, row.state ≠ .reserved := by
    decide +kernel
  have copyable : condemned.Copyable sampleSite installation 1002 1 := by
    refine ⟨⟨2, by decide +kernel, by decide +kernel⟩, fun nid row stored reserved => ?_, by decide⟩
    refine absurd reserved (free row (List.mem_map.mpr ⟨(nid, row), ?_, rfl⟩))
    exact (condemned.core.db.mem_replicasOf).mpr stored
  exact .inr ⟨by decide +kernel, copyable⟩

/-- The third node takes a copy in its place. -/
theorem chunks_recovered_condemned : ∃ σ, Reachable (upkeep sampleSite installation 0 condemned) σ ∧
    2 ≤ (Database.healthy installation σ.deployment.core.now σ.deployment.core.db 1002).length :=
  (chunks_recovered condemned_reached condemned_available (by decide +kernel) condemned_known
    rfl).mpr condemned_recoverable

end Condemned

end FileServer.Cluster

import FileServer.Cluster.Clearance
import FileServer.Cluster.Copying
import FileServer.Cluster.Presence
import FileServer.Metadata.Cleanup

/-!
# Removal of the copies of a deleted object

A pass over the nodes finds every file that is left, also one that no task is
left for, and the task thread removes it.
-/

namespace FileServer.Storage

open FileServer.Metadata FileServer.Relational

theorem Node.inventory_reads {node : Node} {cursor : Option Ident} {cid : Ident} {content : Bytes}
    (present : node.files.get? cid = some content) (beyond : ∀ last ∈ cursor, last < cid) :
    cid ∈ (node.inventory cursor).1 ∨ (node.inventory cursor).2 = true ∧
      ∀ last, (node.inventory cursor).1.getLast? = some last → last < cid := by
  simp only [Node.inventory, decide_eq_true_eq]
  generalize same : ((node.files.rows.map Prod.fst).filter fun id =>
    ∀ last ∈ cursor, last < id).insertionSort (· ≤ ·) = names
  have listed : cid ∈ names := by
    rw [← same, List.mem_insertionSort, List.mem_filter]
    exact ⟨List.mem_map.mpr ⟨_, (Table.mem_rows_iff _).mpr present, rfl⟩, decide_eq_true beyond⟩
  have increasing : names.Pairwise (· < ·) := by
    have distinct : names.Nodup := by
      rw [← same, (List.perm_insertionSort _ _).nodup_iff]
      exact node.files.keysNodup.filter _
    have ordered : names.Pairwise (· ≤ ·) := by
      rw [← same]
      exact List.pairwise_insertionSort _ _
    exact (ordered.and distinct).imp fun both => Nat.lt_of_le_of_ne both.1 both.2
  rw [← List.take_append_drop 256 names] at listed increasing
  rcases List.mem_append.mp listed with inPage | behind
  · exact .inl inPage
  · refine .inr ⟨?_, fun last ends => ?_⟩
    · have := List.length_pos_of_mem behind
      rw [List.length_drop] at this
      omega
    · exact (List.pairwise_append.mp increasing).2.2 last (List.mem_of_getLast? ends) cid behind

end FileServer.Storage

namespace FileServer.Cluster

open FileServer.Gateway FileServer.Metadata FileServer.Relational FileServer.Storage
  FileServer.Transition

/-- The volume of the node has a file of the chunk. -/
def Deployment.Lingers (cid : Ident) (nid : NodeId) (κ : Deployment) : Prop :=
  ∃ node content, κ.core.db.nodes.get? nid = some node ∧
    (κ.disks (nid, node.volume)).get? cid = some content

section Removal

variable {s : Site} {c : Config} {w : Nat} {cid : Ident} {nid : NodeId} {σ : Upkeep}

theorem Deployment.Lingers.framed {κ κ' : Deployment} (kept : κ.Lingers cid nid)
    (framed : Framed κ κ') (disks : κ'.disks = κ.disks) : κ'.Lingers cid nid := by
  obtain ⟨node, content, stored, present⟩ := kept
  obtain ⟨node', after, _, volume⟩ := framed.nodes.after stored
  exact ⟨node', content, after, by rw [disks, volume]; exact present⟩

theorem gets_reviewed_deleted (attended : Attended s c σ.deployment)
    (deleted : σ.deployment.core.db.phase cid = some .deleted) {view : NodeView} {ids : List Ident}
    {last : Option Ident} {more : Bool} {views : List NodeView}
    (here : σ.deployment.core.maintenance = .listing view ids last more views)
    (heard : cid ∈ ids ∨ σ.deployment.core.db.Outstanding ⟨.delete, cid, some view.node⟩) :
    Gets s c w σ fun σ' => σ'.deployment.core.db.Outstanding ⟨.delete, cid, some view.node⟩ := by
  induction ids generalizing σ with
  | nil => exact .here (heard.resolve_left List.not_mem_nil)
  | cons id rest inductionHypothesis =>
      obtain ⟨σ', leads, tidied, there, same⟩ := maintenance_moves (w := w) attended .review
        (.review c view id rest last more views) here rfl trivial trivial trivial trivial
      have ⟨still, kept⟩ := tidied.deletions cid deleted
      refine .next leads tidied (inductionHypothesis (leads.attended attended) still there ?_)
      rcases heard with listed | outstanding
      · rcases List.mem_cons.mp listed with rfl | later
        · right
          rw [same]
          exact Database.reviewFile_deleted deleted
        · exact .inl later
      · exact .inr (kept _ outstanding)

theorem gets_listed_deleted (attended : Attended s c σ.deployment)
    (deleted : σ.deployment.core.db.phase cid = some .deleted) {view : NodeView}
    {cursor : Option Ident} {views : List NodeView}
    (here : σ.deployment.core.maintenance = .paging view cursor views)
    (kept : σ.deployment.Lingers cid view.node) (beyond : ∀ last ∈ cursor, last < cid) :
    Gets s c w σ fun σ' => σ'.deployment.core.db.Outstanding ⟨.delete, cid, some view.node⟩ := by
  obtain ⟨node, content, stored, present⟩ := id kept
  generalize bound : (σ.deployment.beyond (view.node, node.volume) cursor).card = files
  induction files using Nat.strong_induction_on generalizing σ cursor node content with
  | _ files inductionHypothesis =>
      obtain ⟨process, serves, _, _, _, same, _⟩ := process_available attended stored
      have listed : σ.deployment.listed s = some (process.inventory cursor) := by
        simp only [Deployment.listed, here, serves, Option.map_some]
      obtain ⟨paged, pages, tidied, there, _⟩ := maintenance_moves (w := w) attended
        (.page (process.inventory cursor).1 (process.inventory cursor).2)
        (.page view cursor views _ _) here rfl trivial listed trivial trivial
      have attended' := pages.attended attended
      have deleted' := (tidied.deletions cid deleted).1
      rcases Node.inventory_reads (same.symm ▸ present) beyond with inPage | ⟨more, past⟩
      · exact .next pages tidied (gets_reviewed_deleted attended' deleted' there (.inl inPage))
      · obtain ⟨reviewed, reviews, tidied', done⟩ := gets_reviewed (w := w) attended' there
        have attended'' := reviews.attended attended'
        obtain ⟨last, page, fewer⟩ := beyond_page same more
        rw [more, page] at done
        obtain ⟨turned, turns, still, reached, _⟩ := maintenance_moves (w := w) attended'' .visit
          (.turn view last views) done rfl trivial trivial trivial trivial
        have toTurned := (pages.trans reviews).trans turns
        have unmoved := (tidied.trans tidied').trans still
        have kept' := kept.framed (toTurned.framed attended.reached) unmoved.disks
        obtain ⟨node', content', stored', present'⟩ := id kept'
        obtain ⟨_, before, _, volume⟩ := (toTurned.framed attended.reached).nodes.before stored'
        obtain rfl := Option.some.inj (stored.symm.trans before)
        refine .next pages tidied (.next reviews tidied' (.next turns still
          (inductionHypothesis _ ?_ (turns.attended attended'') (unmoved.deletions cid deleted).1
            reached kept' ?_ node' content' stored' present' rfl)))
        · rw [← bound, ← volume]
          simp only [Deployment.beyond, unmoved.disks] at fewer ⊢
          exact fewer
        · rintro _ ⟨⟩
          exact past last page

theorem gets_scanned_deleted (attended : Attended s c σ.deployment)
    (deleted : σ.deployment.core.db.phase cid = some .deleted) {views : List NodeView}
    (here : σ.deployment.core.maintenance = .scanning views)
    (judged : σ.deployment.core.db.waiting = ∅) {view : NodeView} (visits : view ∈ views)
    (kept : σ.deployment.Lingers cid view.node) :
    Gets s c w σ fun σ' => σ'.deployment.core.db.Outstanding ⟨.delete, cid, some view.node⟩ := by
  induction views generalizing σ with
  | nil => cases visits
  | cons head rest inductionHypothesis =>
      have none : σ.deployment.core.db.unverifiedOn head.node = [] := by
        refine List.eq_nil_iff_forall_not_mem.mpr fun check checked => ?_
        have waits := waits_of_check checked
        simp [judged] at waits
      obtain ⟨visited, visiting, tidied, there, _⟩ := maintenance_moves (w := w) attended .visit
        (.visit head rest) here rfl trivial trivial trivial trivial
      rw [none] at there
      have attended' := visiting.attended attended
      obtain ⟨paging, pages, tidied', listing, _⟩ := maintenance_moves (w := w) attended' .visit
        (.checked head rest) there rfl trivial trivial trivial trivial
      have attended'' := pages.attended attended'
      have toPaging := visiting.trans pages
      have unmoved := tidied.trans tidied'
      have kept' := kept.framed (toPaging.framed attended.reached) unmoved.disks
      refine .next visiting tidied (.next pages tidied' ?_)
      by_cases found : view.node = head.node
      · rw [found] at kept' ⊢
        exact gets_listed_deleted attended'' (unmoved.deletions cid deleted).1 listing kept' (by simp)
      · have later : view ∈ rest := by
          refine List.mem_of_ne_of_mem ?_ visits
          rintro rfl
          exact found rfl
        obtain ⟨node, stored⟩ := visited_registered attended''
          (show head ∈ paging.deployment.core.maintenance.views by simp [listing, Maintenance.views])
        refine (gets_listed attended'' listing stored).then attended'' ?_
        intro listed still leads last scanning
        have ever := unmoved.trans last
        exact inductionHypothesis still (ever.deletions cid deleted).1 scanning
          (Finset.subset_empty.mp (judged ▸ ever.waiting)) later
          (kept'.framed (leads.framed attended''.reached) last.disks)

theorem leads_noticed (abandoned : Abandoned s c w cid σ) (nid : NodeId) :
    ∃ σ', Upkeep.Leads s c w σ σ' ∧
      σ'.deployment.core.workers = σ.deployment.core.workers ∧
      σ'.deployment.core.maintenance = .idle ∧ (σ'.deployment.Cleared cid nid ∨
        σ'.deployment.core.db.Outstanding ⟨.delete, cid, some nid⟩) := by
  obtain ⟨rested, judges, workers, resting, judged⟩ := gets_verified (w := w) abandoned.attended
  have abandoned' := abandoned.leads judges
  obtain ⟨maintained, maintains, tidied, there, _⟩ := maintenance_moves (w := w)
    abandoned'.attended .maintain (.maintain c) resting rfl trivial trivial trivial trivial
  obtain ⟨beaten, beats, undisturbed, prompt⟩ :=
    beat_all (w := w) (maintains.attended abandoned'.attended)
  have toBeaten := (judges.trans maintains).trans beats
  obtain ⟨scanned, scans, tidied', scanning, unread⟩ := maintenance_moves (w := w)
    (toBeaten.attended abandoned.attended) .scan (.scan c)
    (undisturbed.maintenance.trans there) rfl trivial trivial trivial trivial
  have toScanned := toBeaten.trans scans
  have given := abandoned.leads toScanned
  have same : scanned.deployment.core.workers = σ.deployment.core.workers := by
    rw [tidied'.workers, undisturbed.workers, tidied.workers, workers]
  have done : ∀ σ', Upkeep.Leads s c w scanned σ' → Tidied scanned σ' →
      (σ'.deployment.Cleared cid nid ∨
        σ'.deployment.core.db.Outstanding ⟨.delete, cid, some nid⟩) →
      ∃ σ', Upkeep.Leads s c w σ σ' ∧ σ'.deployment.core.workers = σ.deployment.core.workers ∧
        σ'.deployment.core.maintenance = .idle ∧ (σ'.deployment.Cleared cid nid ∨
          σ'.deployment.core.db.Outstanding ⟨.delete, cid, some nid⟩) := by
    intro σ' leads kept left
    have given' := given.leads leads
    obtain ⟨last, ends, still, idle⟩ := gets_idle (w := w) given'.attended
    refine ⟨last, (toScanned.trans leads).trans ends,
      (kept.trans still).workers.trans same, idle, left.imp ?_ ?_⟩
    · exact fun cleared => cleared.leads given' ends
    · exact (still.deletions cid given'.deleted).2 nid
  by_cases outstanding : scanned.deployment.core.db.Outstanding ⟨.delete, cid, some nid⟩
  · exact done scanned .refl (.refl _) (.inr outstanding)
  by_cases kept : scanned.deployment.Lingers cid nid
  · obtain ⟨node, content, stored, present⟩ := id kept
    have judged' : scanned.deployment.core.db.waiting = ∅ := by
      refine Finset.subset_empty.mp (Finset.Subset.trans tidied'.waiting ?_)
      have replicas : beaten.deployment.core.db.waiting = maintained.deployment.core.db.waiting := by
        simp only [Database.waiting, undisturbed.replicas]
      rw [replicas, ← judged]
      exact tidied.waiting
    rw [unread] at stored
    obtain ⟨σ', leads, still, noticed⟩ := gets_scanned_deleted (w := w) given.attended given.deleted
      scanning judged' (mem_liveNodes prompt stored) kept
    exact done σ' leads still (.inr noticed)
  · refine done scanned .refl (.refl _) (.inl ⟨outstanding, fun node stored => ?_, ?_⟩)
    · refine Option.eq_none_iff_forall_ne_some.mpr fun content present => kept ?_
      exact ⟨node, content, stored, present⟩
    · intro view ids last more views listing
      rw [scanning] at listing
      cases listing

theorem execute_remove (attended : Attended s c σ.deployment) {node : NodeRow}
    (located : σ.deployment.core.db.nodes.get? nid = some node) :
    (σ.deployment.execute s ⟨nid, .remove cid node.inst node.volume⟩).1 = true ∧
      ((σ.deployment.execute s ⟨nid, .remove cid node.inst node.volume⟩).2.disks
        (nid, node.volume)).get? cid = none := by
  obtain ⟨process, serves, named, inst, volume, _⟩ := process_available attended located
  have performed : Deployment.perform s σ.deployment.core.now process
      (.remove cid node.inst node.volume) =
        .ok { process with files := process.files.erase cid } :=
    (Node.remove_ok process).mpr ⟨⟨inst.symm, volume.symm⟩, rfl⟩
  have result : σ.deployment.execute s ⟨nid, .remove cid node.inst node.volume⟩ =
      (true, { σ.deployment with
        disks := Function.update σ.deployment.disks (nid, process.volume)
          (process.files.erase cid) }) := by
    simp only [Deployment.execute, serves, performed]
  rw [result]
  refine ⟨rfl, ?_⟩
  dsimp only
  rw [volume, Function.update_self, Table.get?_erase, if_pos rfl]

theorem removes (attended : Attended s c σ.deployment) {job : Job} {deletion : Deletion}
    {node : NodeRow} (here : σ.deployment.core.workers w = .removing job deletion)
    (located : σ.deployment.core.db.nodes.get? deletion.node = some node)
    (inst : node.inst = deletion.inst) (volume : node.volume = deletion.volume) :
    ∃ σ', Upkeep.Leads s c w σ σ' ∧ σ'.deployment.core.workers w = .removed job deletion ∧
      σ'.deployment.core.db = σ.deployment.core.db ∧
      σ'.deployment.core.now = σ.deployment.core.now ∧
      σ'.deployment.core.maintenance = σ.deployment.core.maintenance ∧
      (σ'.deployment.disks (deletion.node, node.volume)).get? job.task.chunk = none := by
  obtain ⟨sent, sends, _, _, calls⟩ := worker_keeps (s := s) (c := c) σ (.waiting job deletion)
    (show Chore.move c w .sendRemove = _ from rfl) trivial trivial
    (by simp only [Metadata.metadata, State.step, State.workerStep, here])
  have call : sent.deployment.calls (.worker w) = some ⟨⟨deletion.node,
      .remove job.task.chunk node.inst node.volume⟩, none⟩ := by
    rw [calls, Deployment.follow_calls]
    simp [Deployment.request, State.setWorker, inst, volume]
  have awaited : (sent.deployment.awaited (.worker w)).isSome = true := by
    simp only [Deployment.awaited, sends.worker]
    rfl
  obtain ⟨accepted, gone⟩ := @execute_remove s c job.task.chunk _ _
    (sends.leads.attended attended) _ (sends.db.symm ▸ located)
  obtain ⟨answered, delivers, core, disks, answer, _⟩ := leads_deliver (c := c)
    (show Chore.move c w .deliver = _ from rfl) awaited (by simp) call
  rw [accepted] at answer
  have there : answered.deployment.core.workers w = .waiting job deletion := by
    rw [core]
    exact sends.worker
  obtain ⟨σ', ends, _⟩ := worker_keeps (s := s) (c := c) answered (.removed job deletion)
    (show Chore.move c w .removeDone = _ from rfl) trivial ⟨_, answer, rfl⟩
    (by simp only [Metadata.metadata, State.step, State.workerStep, there])
  refine ⟨σ', (sends.leads.trans delivers).trans ends.leads, ends.worker, ?_, ?_, ?_, ?_⟩
  · rw [ends.db, core, sends.db]
  · rw [ends.now, core, sends.now]
  · rw [ends.maintenance, core, sends.maintenance]
  · rw [ends.disks, disks]
    exact gone

theorem file_removed (abandoned : Abandoned s c w cid σ)
    (idle : σ.deployment.core.workers w = .idle) (rests : σ.deployment.core.maintenance = .idle)
    (next : σ.deployment.core.db.nextTask σ.deployment.core.now = some ⟨.delete, cid, some nid⟩)
    (registered : nid ∈ σ.deployment.nodeIds) :
    ∃ σ', Upkeep.Leads s c w σ σ' ∧ σ'.deployment.core.workers w = .idle ∧
      σ'.deployment.core.maintenance = .idle ∧ σ'.deployment.Cleared cid nid := by
  obtain ⟨claimed, token, claims, there, now, untouched, tables⟩ := @leads_claim s c w σ _ idle next
  obtain ⟨row, stored, _⟩ := Database.nextTask_eq_some next
  generalize chosen : Job.mk ⟨.delete, cid, some nid⟩ token = job at there
  have task : job.task = ⟨.delete, cid, some nid⟩ := by rw [← chosen]
  obtain rfl : job.task.chunk = cid := by rw [task]
  have fenced : claimed.deployment.core.db.Fence claimed.deployment.core.now job := by
    refine ⟨Database.claimed c σ.deployment.core.now token row, ?_, by rw [← chosen]; rfl, rfl, ?_⟩
    · rw [task, tables]
      simp [Database.claim, Database.modifyTask, Database.claimed, stored]
    · rw [now]
      have lasting : 0 < c.lease :=
        lt_of_lt_of_le (Nat.lt_of_lt_of_le (by decide) (Nat.le_add_right 40 _)) c.leaseBounds.1
      exact Int.lt_add_of_pos_right _ (by exact_mod_cast lasting)
  have given := abandoned.leads claims
  obtain ⟨node, located⟩ := Deployment.mem_nodeIds.mp
    ((claims.framed abandoned.attended.reached).nodeIds.mpr registered)
  obtain ⟨deletion, db, begun, target, inst, volume, nodes, tasks⟩ :=
    Database.deleteBegin_deleted (c := c) fenced (by rw [task]) located given.deleted
  obtain ⟨begun, begins, _⟩ := worker_works (s := s) (show Chore.move c w .begin = _ from rfl)
    trivial trivial (show Metadata.metadata.step claimed.deployment.core (.begin w c) =
      some (State.setWorker { claimed.deployment.core with db } w (.removing job deletion)) by
        have kind : job.task.kind = .delete := by rw [task]
        simp only [Metadata.metadata, State.step, State.workerStep, State.beginJob, there, kind,
          begun])
  have stillThere : begun.deployment.core.db.nodes.get? deletion.node = some node := by
    rw [begins.db, nodes, target, located]
  obtain ⟨removed, removes, done, sameTables, still, unmoved, gone⟩ := removes (c := c)
    (begins.leads.attended given.attended) begins.worker stillThere inst volume
  have toRemoved := begins.leads.trans removes
  obtain ⟨db', committed, finished⟩ := @Database.deleteCommit_ends removed.deployment.core.now
    removed.deployment.core.db job deletion node (by
      rw [sameTables, still, begins.now, begins.db]
      simp only [Database.Fence, tasks]
      exact fenced) (by rw [sameTables]; exact stillThere) inst volume
  obtain ⟨σ', commits, _⟩ := worker_works (s := s) (c := c)
    (show Chore.move c w .commit = _ from rfl) trivial trivial
    (show Metadata.metadata.step removed.deployment.core (.commit w c) =
      some (State.setWorker { removed.deployment.core with db := db' } w .idle) by
        simp only [Metadata.metadata, State.step, State.workerStep, State.commitJob, done,
          committed])
  have leads := (claims.trans toRemoved).trans commits.leads
  have resting : σ'.deployment.core.maintenance = .idle := by
    rw [commits.maintenance, unmoved, begins.maintenance, untouched, rests]
  refine ⟨σ', leads, commits.worker, resting, ?_, fun other stored => ?_, ?_⟩
  · rw [commits.db, ← task]
    exact finished
  · have framed := (toRemoved.trans commits.leads).framed given.attended.reached
    obtain ⟨old, before, _, same⟩ := framed.nodes.before stored
    obtain rfl := Option.some.inj (located.symm.trans before)
    rw [commits.disks, ← target, ← same]
    exact gone
  · intro view ids last more views listing
    rw [resting] at listing
    cases listing

/-- A deletion that is outstanding comes to be next in line. -/
theorem leads_cleared (abandoned : Abandoned s c w cid σ)
    (idle : σ.deployment.core.workers w = .idle) (registered : nid ∈ σ.deployment.nodeIds) :
    ∃ σ', Upkeep.Leads s c w σ σ' ∧ σ'.deployment.core.workers w = .idle ∧
      σ'.deployment.Cleared cid nid := by
  obtain ⟨noticed, notices, workers, rests, left⟩ := leads_noticed abandoned nid
  have resting : noticed.deployment.core.workers w = .idle := by rw [workers, idle]
  rcases left with cleared | ⟨row, stored, active⟩
  · exact ⟨noticed, notices, resting, cleared⟩
  have given := abandoned.leads notices
  obtain ⟨late, ticks, core, _⟩ := @leads_tick s c w noticed
    ((row.lease - noticed.deployment.core.now).toNat + 1)
  have serving : Serving s c ⟨.delete, cid, some nid⟩ row.lease late := by
    refine ⟨ticks.attended given.attended, ⟨row, by rw [core]; exact stored, active⟩, ?_⟩
    rw [core]
    have past := Int.self_le_toNat (row.lease - noticed.deployment.core.now)
    refine lt_of_le_of_lt (sub_le_iff_le_add'.mp past) (Int.add_lt_add_left ?_ _)
    exact_mod_cast Nat.lt_succ_self _
  obtain ⟨due, comes, errand, waiting, next⟩ := comes_due (w := w) serving
    (by rw [core]; exact resting) (by rw [core]; exact stored) le_rfl
  have toDue := ticks.trans comes
  obtain ⟨σ', removes, ends, _, cleared⟩ := file_removed (given.leads toDue) waiting
    (by rw [errand.maintenance, core]; exact rests) next
    (((notices.trans toDue).framed abandoned.attended.reached).nodeIds.mpr registered)
  exact ⟨σ', (notices.trans toDue).trans removes, ends, cleared⟩

theorem leads_all_cleared (abandoned : Abandoned s c w cid σ)
    (idle : σ.deployment.core.workers w = .idle) (nids : List NodeId)
    (registered : ∀ nid ∈ nids, nid ∈ σ.deployment.nodeIds) :
    ∃ σ', Upkeep.Leads s c w σ σ' ∧ σ'.deployment.core.workers w = .idle ∧
      ∀ nid ∈ nids, σ'.deployment.Cleared cid nid := by
  induction nids with
  | nil => exact ⟨σ, .refl, idle, by simp⟩
  | cons nid rest inductionHypothesis =>
      obtain ⟨middle, earlier, resting, others⟩ := inductionHypothesis fun other later =>
        registered other (List.mem_cons_of_mem _ later)
      have given := abandoned.leads earlier
      obtain ⟨σ', later, ends, cleared⟩ := leads_cleared given resting
        ((earlier.framed abandoned.attended.reached).nodeIds.mpr
          (registered nid List.mem_cons_self))
      refine ⟨σ', earlier.trans later, ends, fun other membership => ?_⟩
      rcases List.mem_cons.mp membership with rfl | listed
      · exact cleared
      · exact (others other listed).leads given later

end Removal

/-- The owner deletes an upload with two copies. -/
def deletedMoves : List Move :=
  uploadMoves (sampleDigest [5]) 100 ++ [.metadata (.request installation "owner" (.delete 1000) id)]

def deletedDeployment : Deployment :=
  ((cluster sampleSite).execute (cluster sampleSite).initial deletedMoves).get
    (by decide +kernel)

end FileServer.Cluster

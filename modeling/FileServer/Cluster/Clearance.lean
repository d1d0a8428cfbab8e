import FileServer.Cluster.Passes
import FileServer.Metadata.Deletions

/-!
# Clearance of the copies of a deleted object

A node is cleared of a chunk when its volume has no file of it, no deletion is
outstanding there and no list about to be reviewed names it.  No chore undoes
that once the object is deleted.
-/

namespace FileServer.Cluster

open FileServer.Metadata FileServer.Relational FileServer.Storage FileServer.Transition

/-- Nothing of the chunk is left on the node. -/
structure Deployment.Cleared (cid : Ident) (nid : NodeId) (κ : Deployment) : Prop where
  tasks : ¬κ.core.db.Outstanding ⟨.delete, cid, some nid⟩
  files : ∀ node, κ.core.db.nodes.get? nid = some node → (κ.disks (nid, node.volume)).get? cid = none
  listing : ∀ view ids last more views, κ.core.maintenance = .listing view ids last more views →
    view.node = nid → cid ∉ ids

/-- The upkeep while the object of a chunk is deleted and the task thread
repairs something else. -/
structure Abandoned (s : Site) (c : Config) (w : Nat) (cid : Ident) (σ : Upkeep) : Prop where
  attended : Attended s c σ.deployment
  deleted : σ.deployment.core.db.phase cid = some .deleted
  apart : ∀ job, (σ.deployment.core.workers w).repairing = some job → job.task.chunk ≠ cid

section Steps

variable {s : Site} {c : Config} {w : Nat} {cid : Ident} {nid : NodeId} {σ σ' : Upkeep}

theorem Abandoned.settled (abandoned : Abandoned s c w cid σ) :
    σ.deployment.core.db.phase cid ≠ some .staging := by
  simp [abandoned.deleted]

/-- No repair of the chunk begins. -/
theorem Abandoned.step (abandoned : Abandoned s c w cid σ) {chore : Chore}
    (stepped : σ.step s c w chore = some σ') : Abandoned s c w cid σ' := by
  have leads : Upkeep.Leads s c w σ σ' := .single stepped
  have framed := leads.framed abandoned.attended.reached
  refine ⟨leads.attended abandoned.attended,
    (framed.phase abandoned.settled).trans abandoned.deleted, ?_⟩
  have undertaken := undertakes stepped
  obtain ⟨κ, slept⟩ := σ
  cases undertaken with
  | service action core _ allowed served attends =>
      dsimp only
      rw [(κ.follow_frame s action core).1]
      cases attends with
      | worker _ worker db move configured =>
          intro job repairs
          dsimp only at repairs
          rw [Function.update_self] at repairs
          rintro rfl
          rcases move.repairing repairs with before | published
          · exact abandoned.apart job before rfl
          · simp [abandoned.deleted] at published
      | _ => exact abandoned.apart
  | deliver v remote =>
      rw [Deployment.execute_frame]
      exact abandoned.apart
  | report => exact abandoned.apart

/-- A request that arrives stores no file of the chunk. -/
theorem Abandoned.executed (abandoned : Abandoned s c w cid σ) {v : Verifier} {remote : Remote}
    (turn : v = .reconcile ∨ v = .worker w) (awaits : σ.deployment.awaited v = some remote)
    {disk : NodeId × Ident} (absent : (σ.deployment.disks disk).get? cid = none) :
    ((σ.deployment.execute s remote).2.disks disk).get? cid = none := by
  have executed := @Deployment.executed s σ.deployment remote
  generalize (σ.deployment.execute s remote).1 = answer at executed
  generalize (σ.deployment.execute s remote).2 = after at executed ⊢
  cases executed with
  | keep => exact absent
  | store inst chunk claims data runs message =>
      have other : chunk ≠ cid := by
        rcases turn with rfl | rfl
        · simp only [Deployment.awaited] at awaits
          split at awaits <;> cases awaits
          cases message
        · simp only [Deployment.awaited] at awaits
          split at awaits
          · cases awaits
            cases message
          · next job repair ticket here =>
              cases awaits
              cases message
              exact abandoned.apart job (by rw [here]; rfl)
          · cases awaits
            cases message
          · cases awaits
      simp only [Function.update_apply]
      split
      · next same =>
          rw [← same, Table.get?_upsert, if_neg (Ne.symm other)]
          exact absent
      · exact absent
  | erase inst chunk runs message =>
      simp only [Function.update_apply]
      split
      · next same =>
          rw [← same, Table.get?_erase]
          split
          · rfl
          · exact absent
      · exact absent

theorem Deployment.Cleared.step (cleared : σ.deployment.Cleared cid nid)
    (abandoned : Abandoned s c w cid σ) {chore : Chore}
    (stepped : σ.step s c w chore = some σ') : σ'.deployment.Cleared cid nid := by
  have leads : Upkeep.Leads s c w σ σ' := .single stepped
  have framed := leads.framed abandoned.attended.reached
  have settled := abandoned.settled
  have consistent := abandoned.attended.consistent
  have attended := abandoned.attended
  -- The volume is the same, so only its files matter.
  have mounted : (∀ volume, (σ.deployment.disks (nid, volume)).get? cid = none →
      (σ'.deployment.disks (nid, volume)).get? cid = none) →
      ∀ node, σ'.deployment.core.db.nodes.get? nid = some node →
        (σ'.deployment.disks (nid, node.volume)).get? cid = none := by
    intro kept node stored
    obtain ⟨old, before, _, volume⟩ := framed.nodes.before stored
    exact kept _ (volume ▸ cleared.files old before)
  have undertaken := undertakes stepped
  obtain ⟨κ, slept⟩ := σ
  cases undertaken with
  | service action core _ allowed served attends =>
      obtain ⟨same, disks, _⟩ := κ.follow_frame s action core
      refine ⟨?_, mounted fun volume absent => by rw [disks]; exact absent, ?_⟩ <;> dsimp only <;>
        rw [same]
      · cases attends with
        | register i beat db present registered =>
            have tasks := (Database.register_ok registered).tasks
            exact fun outstanding => cleared.tasks (outstanding.of_tasks tasks)
        | worker _ worker db move configured =>
            exact fun outstanding => cleared.tasks (move.deletions abandoned.apart outstanding)
        | maintenance _ maintenance db move unbroken =>
            exact fun outstanding => cleared.tasks
              (move.deletions_heard consistent settled cleared.listing outstanding)
        | _ => exact cleared.tasks
      · cases attends with
        | maintenance _ maintenance db move unbroken =>
            have unheard := cleared.listing
            generalize here : κ.core.maintenance = before at move unheard
            intro view ids last more views now located
            dsimp only at now
            subst now
            cases move with
            | page _ cursor _ _ _ =>
                subst located
                obtain ⟨node, stored⟩ := visited_registered attended
                  (show view ∈ κ.core.maintenance.views by simp [here, Maintenance.views])
                obtain ⟨process, serves, _, _, _, files, _⟩ := process_available attended stored
                have listed : κ.listed s = some (ids, more) := allowed
                simp only [Deployment.listed, here, serves, Option.map_some, Option.some.injEq]
                  at listed
                intro membership
                have inPage : cid ∈ (process.inventory cursor).1 := by rw [listed]; exact membership
                have absent := cleared.files node stored
                rw [Node.inventory] at inPage
                have present := List.mem_of_mem_take inPage
                rw [List.mem_insertionSort, List.mem_filter, List.mem_map] at present
                obtain ⟨⟨⟨_, content⟩, stored, rfl⟩, _⟩ := present
                rw [files] at stored
                simp [(Table.mem_rows_iff _).mp stored] at absent
            | review c _ other _ _ _ _ =>
                exact fun membership => unheard view _ last more views rfl located
                  (List.mem_cons_of_mem _ membership)
        | _ => exact cleared.listing
  | deliver v remote turn awaits sent =>
      refine ⟨?_, mounted fun volume absent => ?_, ?_⟩
      · rw [Deployment.execute_frame]
        exact cleared.tasks
      · obtain ⟨out, waits⟩ := Option.isSome_iff_exists.mp awaits
        obtain ⟨_, call⟩ := reachable_dialed attended.reached _ _ waits
        obtain ⟨rfl, _⟩ := Sent.mk.inj (Option.some.inj (sent.symm.trans call))
        exact abandoned.executed turn waits absent
      · rw [Deployment.execute_frame]
        exact cleared.listing
  | report => exact ⟨cleared.tasks, cleared.files, cleared.listing⟩

theorem Abandoned.leads (abandoned : Abandoned s c w cid σ) (leads : Upkeep.Leads s c w σ σ') :
    Abandoned s c w cid σ' := by
  induction leads with
  | refl => exact abandoned
  | tail _ stepped inductionHypothesis => exact inductionHypothesis.step stepped

theorem Deployment.Cleared.leads (cleared : σ.deployment.Cleared cid nid)
    (abandoned : Abandoned s c w cid σ) (leads : Upkeep.Leads s c w σ σ') :
    σ'.deployment.Cleared cid nid := by
  induction leads with
  | refl => exact cleared
  | tail earlier stepped inductionHypothesis =>
      exact inductionHypothesis.step (abandoned.leads earlier) stepped

end Steps

end FileServer.Cluster

import FileServer.Cluster.Recovery

/-!
# Dead ends

A chunk of a published object that a healthy node still holds may be out of
reach of the upkeep.  A copy that a read error has called bad is neither read
nor verified again, and its node is not chosen to take another.
-/

namespace FileServer.Cluster

open FileServer.Gateway FileServer.Metadata FileServer.Relational FileServer.Storage
  FileServer.Transition

/-- Only finitely many task threads are at work. -/
theorem reachable_idle {σ : State} (reached : Reachable Metadata.metadata σ) :
    ∃ w, σ.workers w = .idle := by
  have bounded : ∃ bound, ∀ w, bound ≤ w → σ.workers w = .idle := by
    refine reached.invariant (fun σ => ∃ bound, ∀ w, bound ≤ w → σ.workers w = .idle)
      ⟨0, fun _ _ => rfl⟩ ?_
    rintro before action after ⟨bound, idle⟩ stepped
    cases happens stepped with
    | worker _ v worker db move =>
        refine ⟨max bound (v + 1), fun w beyond => ?_⟩
        have other : w ≠ v := by
          have past := le_trans (le_max_right bound (v + 1)) beyond
          omega
        have before := idle w (le_trans (le_max_left bound (v + 1)) beyond)
        exact (Function.update_of_ne other _ _).trans before
    | _ => exact ⟨bound, idle⟩
  obtain ⟨bound, idle⟩ := bounded
  exact ⟨bound, idle bound le_rfl⟩

namespace Deployment

section Ends

variable (s : Site) (c : Config) (κ : Deployment) (cid : Ident) (length required : Nat)

/-- A healthy node has the chunk on its volume as it is recorded, and its row is
neither `deleting` nor `gone`. -/
def Held : Prop :=
  ∃ nid node row, κ.core.db.nodes.get? nid = some node ∧ node.state = .healthy ∧
    κ.Readable s cid nid ∧ κ.core.db.replicas.get? (cid, nid) = some row ∧
    row.state ≠ .deleting ∧ row.state ≠ .gone

/-- The upkeep with some task thread can bring the chunk to as many healthy
copies. -/
def Restores : Prop :=
  ∃ w σ, κ.core.workers w = .idle ∧ Reachable (upkeep s c w κ) σ ∧
    required ≤ (Database.healthy c σ.deployment.core.now σ.deployment.core.db cid).length

/-- Too few copies count, and no repair completes: too few nodes can take one, no
copy that counts can be read, a reservation has lost its charge, or the transfer
outlasts the lease. -/
inductive DeadEnd : Prop where
  | crowded (few : (κ.kept s cid).length < required)
      (full : (κ.kept s cid).length + (κ.spare cid).length < required)
  | unread (few : (κ.kept s cid).length < required)
      (lost : ∀ nid ∈ κ.kept s cid, ¬κ.Readable s cid nid)
  | uncharged (few : (κ.kept s cid).length < required) (nid row)
      (stored : κ.core.db.replicas.get? (cid, nid) = some row) (reserved : row.state = .reserved)
      (lost : row.charged ≠ .reserved)
  | late (few : (κ.kept s cid).length < required)
      (long : (c.lease - 1) * c.bandwidth < length * c.repairWorkers)

end Ends

variable {s : Site} {c : Config} {κ : Deployment} {cid : Ident} {length required : Nat}

theorem held_of_bad {nid : NodeId}
    (healthy : (κ.core.db.nodes.get? nid).map NodeRow.state = some .healthy)
    (readable : κ.Readable s cid nid)
    (bad : (κ.core.db.replicas.get? (cid, nid)).map ReplicaRow.state = some .bad) :
    κ.Held s cid := by
  obtain ⟨node, registered, state⟩ := Option.map_eq_some_iff.mp healthy
  obtain ⟨row, stored, condemned⟩ := Option.map_eq_some_iff.mp bad
  exact ⟨nid, node, row, registered, state, readable, stored, by simp [condemned],
    by simp [condemned]⟩

theorem deadEnd_iff :
    κ.DeadEnd s c cid length required ↔ ¬κ.Recoverable s c cid length required := by
  constructor
  · rintro stuck (enough | ⟨enough, source, charged, timely⟩)
    · cases stuck <;> omega
    · cases stuck with
      | crowded few full => omega
      | unread few lost =>
          obtain ⟨nid, kept, readable⟩ := source
          exact lost nid kept readable
      | uncharged few nid row stored reserved lost => exact lost (charged nid row stored reserved)
      | late few long => omega
  · intro stuck
    have few : (κ.kept s cid).length < required := lt_of_not_ge fun enough => stuck (.inl enough)
    by_contra alive
    refine stuck (.inr ⟨?_, ?_, ?_, ?_⟩)
    · exact le_of_not_gt fun full => alive (.crowded few full)
    · by_contra none
      exact alive (.unread few fun nid kept readable => none ⟨nid, kept, readable⟩)
    · intro nid row stored reserved
      by_contra lost
      exact alive (.uncharged few nid row stored reserved lost)
    · exact le_of_not_gt fun long => alive (.late few long)

end Deployment

section Stuck

/-- The copy that a read error has condemned is still there. -/
theorem condemned_held : condemned.Held sampleSite 1002 := by
  have healthy : (condemned.core.db.nodes.get? 1).map NodeRow.state = some .healthy := by
    decide +kernel
  exact Deployment.held_of_bad healthy (by decide +kernel) (by decide +kernel)

def stuckMoves : List Move := condemnedMoves ++ [condemnMove 2]

def stuck : Deployment :=
  ((cluster sampleSite).execute (cluster sampleSite).initial stuckMoves).get (by decide +kernel)

end Stuck

end FileServer.Cluster

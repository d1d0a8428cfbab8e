import FileServer.Cluster.Keeping

/-!
# Runs of the upkeep

The chores that lead from one state to another.  What the upkeep relies on
stays true along them, and so do the copies as long as too few are healthy.
-/

namespace FileServer.Cluster

open FileServer.Metadata FileServer.Relational FileServer.Storage FileServer.Transition

/-- A cluster that is reachable and available. -/
structure Attended (s : Site) (c : Config) (κ : Deployment) : Prop where
  reached : Reachable (cluster s) κ
  available : κ.Available s c

theorem Attended.consistent {s : Site} {c : Config} {κ : Deployment} (attended : Attended s c κ) :
    Consistent κ.core.db :=
  (reachable_invariant (reachable_sound attended.reached).reached).consistent

theorem Tended.attended {s : Site} {c : Config} {cid : Ident} {length required : Nat}
    {κ : Deployment} (tended : Tended s c cid length required κ) : Attended s c κ :=
  ⟨tended.reached, tended.available⟩

/-- Chores lead from the first state to the second. -/
inductive Upkeep.Leads (s : Site) (c : Config) (w : Nat) (σ : Upkeep) : Upkeep → Prop where
  | refl : Upkeep.Leads s c w σ σ
  | tail {middle last : Upkeep} {chore : Chore} (earlier : Upkeep.Leads s c w σ middle)
      (stepped : middle.step s c w chore = some last) : Upkeep.Leads s c w σ last

section Runs

variable {s : Site} {c : Config} {w : Nat} {cid : Ident} {length required : Nat} {σ σ' : Upkeep}

theorem Upkeep.Leads.single {chore : Chore} (stepped : σ.step s c w chore = some σ') :
    Upkeep.Leads s c w σ σ' :=
  .tail .refl stepped

theorem Upkeep.Leads.trans {σ'' : Upkeep} (earlier : Upkeep.Leads s c w σ σ')
    (later : Upkeep.Leads s c w σ' σ'') : Upkeep.Leads s c w σ σ'' := by
  induction later with
  | refl => exact earlier
  | tail _ stepped inductionHypothesis => exact inductionHypothesis.tail stepped

theorem Upkeep.Leads.reached (leads : Upkeep.Leads s c w σ σ')
    (reached : Reachable (cluster s) σ.deployment) : Reachable (cluster s) σ'.deployment := by
  induction leads with
  | refl => exact reached
  | tail _ stepped inductionHypothesis =>
      exact inductionHypothesis.next (upkeep_step stepped).2.1

theorem Upkeep.Leads.reachable {κ : Deployment} (leads : Upkeep.Leads s c w ⟨κ, 0⟩ σ) :
    Reachable (upkeep s c w κ) σ := by
  induction leads with
  | refl => exact ⟨[], .start⟩
  | tail _ stepped inductionHypothesis => exact inductionHypothesis.next stepped

theorem leads_of_reachable {κ : Deployment} (reachable : Reachable (upkeep s c w κ) σ) :
    Upkeep.Leads s c w ⟨κ, 0⟩ σ := by
  obtain ⟨history, run⟩ := reachable
  induction run with
  | start => exact .refl
  | next _ stepped inductionHypothesis => exact inductionHypothesis.tail stepped

theorem Upkeep.Leads.framed (leads : Upkeep.Leads s c w σ σ')
    (reached : Reachable (cluster s) σ.deployment) : Framed σ.deployment σ'.deployment := by
  induction leads with
  | refl => exact .refl _
  | tail earlier stepped inductionHypothesis =>
      exact inductionHypothesis.trans ((undertakes stepped).framed (earlier.reached reached))

theorem Upkeep.Leads.attended (leads : Upkeep.Leads s c w σ σ')
    (attended : Attended s c σ.deployment) : Attended s c σ'.deployment :=
  ⟨leads.reached attended.reached, attended.available.framed (leads.framed attended.reached)⟩

theorem Upkeep.Leads.tended (leads : Upkeep.Leads s c w σ σ')
    (tended : Tended s c cid length required σ.deployment) :
    Tended s c cid length required σ'.deployment :=
  tended.framed (leads.reached tended.reached) (leads.framed tended.reached)

/-- The reservations, the source and the pace of a repair stay. -/
theorem Deployment.Copyable.copies {κ κ' : Deployment} {made : List NodeId}
    (copyable : κ.Copyable s c cid length) (copies : Deployment.Copies s cid made κ κ') :
    κ'.Copyable s c cid length where
  source := by
    obtain ⟨nid, kept, readable⟩ := copyable.source
    obtain ⟨registered, keeps⟩ := Deployment.mem_kept.mp kept
    exact ⟨nid, Deployment.mem_kept.mpr ⟨copies.nodeIds.mpr registered,
      (copies.keeps nid).mpr (.inl keeps)⟩, (copies.readable nid keeps).mpr readable⟩
  charged := copies.charged.mpr copyable.charged
  timely := copyable.timely

/-- What can be copied could be before, if no copy has been made. -/
theorem Deployment.Copyable.before {κ κ' : Deployment} (copyable : κ'.Copyable s c cid length)
    (steady : Deployment.Steady s cid κ κ') : κ.Copyable s c cid length where
  source := by
    obtain ⟨nid, kept, readable⟩ := copyable.source
    obtain ⟨registered, keeps⟩ := Deployment.mem_kept.mp kept
    have kept : κ.Keeps s cid nid := by simpa using (steady.keeps nid).mp keeps
    exact ⟨nid, Deployment.mem_kept.mpr ⟨steady.nodeIds.mp registered, kept⟩,
      (steady.readable nid kept).mp readable⟩
  charged := steady.charged.mp copyable.charged
  timely := copyable.timely

/-- Unless enough copies come to be healthy, those that count are kept, and one
is made only where one could be made from the first. -/
theorem leads_holds (tended : Tended s c cid length required σ.deployment)
    (engaged : σ.Engaged s c w cid length required) (leads : Upkeep.Leads s c w σ σ') :
    (∃ late, Upkeep.Leads s c w σ late ∧ late.deployment.Enough c cid required ∧
      σ.Holds s c w cid length required late) ∨ σ.Holds s c w cid length required σ' := by
  induction leads with
  | refl => exact .inr ⟨[], .refl _, engaged, by simp⟩
  | @tail middle last chore earlier stepped inductionHypothesis =>
      rcases inductionHypothesis with enough | holds
      · exact .inl enough
      have ⟨made, copies, busy, copyable⟩ := holds
      rcases holds_step (earlier.tended tended) busy (undertakes stepped) with
        enough | ⟨more, copies', busy', copyable'⟩
      · exact .inl ⟨middle, earlier, enough, holds⟩
      refine .inr ⟨made ++ more, copies.trans copies', busy', fun some => ?_⟩
      by_cases none : made = []
      · subst none
        exact (copyable' (by simpa using some)).before copies
      · exact copyable none

theorem leads_act {chore : Chore} {action : Action} {core : State}
    (move : chore.move c w = .metadata action) (permits : σ.Permits s c w chore)
    (allowed : σ.deployment.Allows s action)
    (stepped : Metadata.metadata.step σ.deployment.core action = some core) :
    Upkeep.Leads s c w σ ⟨σ.deployment.follow s action core,
      if chore = .fetch true then σ.deployment.core.now else σ.slept⟩ := by
  refine @Upkeep.Leads.single s c w _ _ chore ?_
  have taken : σ.deployment.core.step action = some core := stepped
  rw [Upkeep.step, if_pos permits, move, Deployment.step, if_pos allowed, taken]
  rfl

theorem leads_deliver {chore : Chore} {v : Verifier} {remote : Remote}
    (move : chore.move c w = .deliver v) (permits : σ.Permits s c w chore)
    (silent : chore ≠ .fetch true) (sent : σ.deployment.calls v = some ⟨remote, none⟩) :
    ∃ σ', Upkeep.Leads s c w σ σ' ∧ σ'.deployment.core = σ.deployment.core ∧
      σ'.deployment.disks = (σ.deployment.execute s remote).2.disks ∧
      σ'.deployment.calls v = some ⟨remote, some (σ.deployment.execute s remote).1⟩ ∧
      σ'.slept = σ.slept := by
  refine ⟨⟨{ (σ.deployment.execute s remote).2 with
    calls := Function.update σ.deployment.calls v
      (some ⟨remote, some (σ.deployment.execute s remote).1⟩) }, σ.slept⟩,
    @Upkeep.Leads.single s c w _ _ chore ?_, ?_, rfl, Function.update_self _ _ _, rfl⟩
  · rw [Upkeep.step, if_pos permits, move, Deployment.step, sent, if_neg silent]
    rfl
  · rw [Deployment.execute_frame]

/-- Time passes. -/
theorem leads_tick (elapsed : Nat) :
    ∃ σ', Upkeep.Leads s c w σ σ' ∧
      σ'.deployment.core = { σ.deployment.core with now := σ.deployment.core.now + elapsed } ∧
      σ'.deployment.disks = σ.deployment.disks ∧ σ'.deployment.buffers = σ.deployment.buffers ∧
      σ'.slept = σ.slept := by
  have stepped : Metadata.metadata.step σ.deployment.core (.tick elapsed) =
      some { σ.deployment.core with now := σ.deployment.core.now + elapsed } := rfl
  exact ⟨_, leads_act (show Chore.move c w (.tick elapsed) = _ from rfl) trivial trivial stepped,
    rfl, rfl, rfl, rfl⟩

end Runs

end FileServer.Cluster

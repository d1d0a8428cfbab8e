import FileServer.Metadata.Invariant

/-!
# The capacity of a node

The counters of a node are the charges of its replica rows.  Reservations
leave them within the capacity, so only a heartbeat that lowers the capacity
can put them above it.
-/

namespace FileServer.Metadata

open FileServer.Relational FileServer.Transition

theorem Database.chargedBytes_nonneg (db : Database) (kind : Charge) (nid : NodeId) :
    0 ≤ db.chargedBytes kind nid :=
  db.replicas.sum_nonneg fun key row _ => by split <;> omega

namespace NodeRow

def Fits (node : NodeRow) : Prop := node.reserved + node.usedBytes ≤ node.capacity

end NodeRow

section Moves

variable {focus : Focus} {drawn : List Ident} {db db' : Database} {nid : NodeId}

theorem Moves.sameNode (moves : Moves focus drawn db db') (other : focus ≠ .register nid) :
    Option.Rel SameNode (db.nodes.get? nid) (db'.nodes.get? nid) := by
  cases moves.nodes with
  | same nodes instances => exact nodes nid
  | register node row owner located others =>
      have different : nid ≠ node := by
        rintro rfl
        exact other owner
      rw [others nid different]
      cases db.nodes.get? nid with
      | none => exact .none
      | some node => exact .some (.refl node)

theorem Moves.fits (moves : Moves focus drawn db db') (other : focus ≠ .register nid)
    (fits : ∀ node, db.nodes.get? nid = some node → node.Fits) :
    ∀ node, db'.nodes.get? nid = some node → node.Fits := by
  intro node located
  have related := moves.sameNode other
  rw [located] at related
  cases before : db.nodes.get? nid with
  | none => simp [before] at related
  | some old =>
      rw [before, Option.rel_some_some] at related
      have capacity := related.capacity
      have held := fits old before
      rcases moves.budget nid old node before located with shrunk | room
      · unfold NodeRow.Fits at held ⊢
        omega
      · exact room

theorem Steps.fits (steps : Steps focus drawn db db') (other : focus ≠ .register nid)
    (fits : ∀ node, db.nodes.get? nid = some node → node.Fits) :
    ∀ node, db'.nodes.get? nid = some node → node.Fits := by
  induction steps with
  | refl => exact fits
  | tail _ moves inductionHypothesis => exact moves.fits other inductionHypothesis

theorem Database.Registration.fits {c : Config} {beat : Beat}
    (registration : Database.Registration c db db' beat) (bounded : 0 ≤ beat.capacity)
    (kept : ∀ old new, db.nodes.get? nid = some old → db'.nodes.get? nid = some new →
      old.capacity ≤ new.capacity)
    (fits : ∀ node, db.nodes.get? nid = some node → node.Fits) :
    ∀ node, db'.nodes.get? nid = some node → node.Fits := by
  intro node located
  have result := registration.nodes nid
  rw [located] at result
  by_cases here : nid = beat.node
  · subst here
    rw [if_pos rfl, Option.some.injEq] at result
    subst node
    cases before : db.nodes.get? beat.node with
    | none => simpa [NodeRow.Fits, Database.registered] using bounded
    | some old =>
        have held := fits old before
        have raised := kept old _ before located
        simp only [NodeRow.Fits, Database.registered, before, Option.elim_some] at held raised ⊢
        omega
  · rw [if_neg here] at result
    exact fits node result.symm

end Moves

/-- A heartbeat waiting for its transaction has passed the checks. -/
theorem beats_bounded {σ : State} (reached : Reachable metadata σ) (i : Nat) (beat : Beat)
    (waiting : σ.beats i = some beat) : 0 ≤ beat.free ∧ beat.free ≤ beat.capacity := by
  revert i beat
  refine reached.invariant (fun σ => ∀ i beat, σ.beats i = some beat →
    0 ≤ beat.free ∧ beat.free ≤ beat.capacity) (by simp [metadata, State.initial]) ?_
  intro σ action σ' bounded stepped i beat waiting
  cases happens stepped with
  | beat j c nid inst volume capacity free fresh absent accepted =>
      by_cases same : i = j
      · subst same
        simp only [Function.update_self, Option.some.injEq] at waiting
        subst fresh
        simp only [heartbeat, bind_eq_ok, require_eq_ok, pure_eq_ok] at accepted
        obtain ⟨_, _, _, bounds, rfl⟩ := accepted
        exact ⟨bounds.1, bounds.2.1⟩
      · exact bounded i beat (by simpa [Function.update_of_ne same] using waiting)
  | register j | reject j | dropBeat j =>
      by_cases same : i = j
      · simp [same] at waiting
      · exact bounded i beat (by simpa [Function.update_of_ne same] using waiting)
  | tick | request | requestBy | refuse | confirm | worker | maintenance => exact bounded i beat waiting

def LowersCapacity (nid : NodeId) (event : Event State Action) : Prop :=
  (∃ i c, event.action = .register i c) ∧
    ∃ old new, event.before.db.nodes.get? nid = some old ∧
      event.after.db.nodes.get? nid = some new ∧ new.capacity < old.capacity

theorem step_fits {σ σ' : State} {action : Action} {nid : NodeId} (reached : Reachable metadata σ)
    (stepped : metadata.step σ action = some σ') (kept : ¬LowersCapacity nid ⟨σ, action, σ'⟩)
    (fits : ∀ node, σ.db.nodes.get? nid = some node → node.Fits) :
    ∀ node, σ'.db.nodes.get? nid = some node → node.Fits := by
  obtain ⟨focus, focuses, _, _, effect⟩ := reachable_effect reached stepped
  by_cases other : focus = .register nid
  · subst other
    cases focuses with
    | request c owner command ident focus focused => cases focused
    | requestBy _ _ _ _ _ move =>
        cases move with
        | command _ _ _ _ _ focused => cases focused
    | register i c beat db present registered =>
        have result : σ'.db = db := by
          have taken : σ.step (.register i c) = some σ' := stepped
          simp only [State.step, present, registered, Option.some.injEq] at taken
          exact taken ▸ rfl
        have bounded := beats_bounded reached i beat present
        refine (result ▸ Database.register_ok registered).fits (by omega) ?_ fits
        intro old new before after
        by_contra lowered
        exact kept ⟨⟨i, c, rfl⟩, old, new, before, after, by omega⟩
  · exact effect.steps.fits other fits

/-- The counters of a node are the lengths of the chunks its replica rows are
charged for, and they fit its capacity unless a heartbeat has lowered it. -/
theorem counters_accounted {history : List (Event State Action)} {σ : State}
    (run : Run metadata history σ) {nid : NodeId} {node : NodeRow}
    (stored : σ.db.nodes.get? nid = some node) :
    node.reserved = σ.db.chargedBytes .reserved nid ∧
    node.usedBytes = σ.db.chargedBytes .used nid ∧
    0 ≤ node.reserved ∧ 0 ≤ node.usedBytes ∧
    ((∀ event ∈ history, ¬LowersCapacity nid event) →
      node.reserved + node.usedBytes ≤ node.capacity) := by
  obtain ⟨reserved, used⟩ :=
    (reachable_invariant run.reachable).consistent.accounted nid node stored
  refine ⟨reserved, used, reserved ▸ σ.db.chargedBytes_nonneg _ _,
    used ▸ σ.db.chargedBytes_nonneg _ _, fun kept => ?_⟩
  have fits : Reachable metadata σ ∧ ∀ node, σ.db.nodes.get? nid = some node → node.Fits := by
    refine run.invariantUnder
      (fun σ => Reachable metadata σ ∧ ∀ node, σ.db.nodes.get? nid = some node → node.Fits)
      (fun event => ¬LowersCapacity nid event) ⟨Run.start.reachable, ?_⟩ ?_ kept
    · simp [metadata, State.initial, Database.empty]
    · rintro before action after ⟨reached, fits⟩ unlowered stepped
      exact ⟨reached.next stepped, step_fits reached stepped unlowered fits⟩
  exact fits.2 node stored

/-- Each copy of the uploaded byte is charged to its node. -/
theorem counters_accounted_uploaded : ∃ (σ : State) (node : NodeRow),
    Reachable metadata σ ∧ σ.db.nodes.get? 1 = some node ∧ node.usedBytes = 1 ∧
      node.usedBytes = σ.db.chargedBytes .used 1 ∧
      node.reserved + node.usedBytes ≤ node.capacity := by
  have stored : uploaded.db.nodes.get? 1 =
      some ⟨"first:9000", 101, 201, 0, 100, 100, 0, 1, .healthy⟩ := by decide +kernel
  have raised : ∀ event ∈ metadata.events metadata.initial uploadActions,
      ∀ old ∈ event.before.db.nodes.get? 1, ∀ new ∈ event.after.db.nodes.get? 1,
        old.capacity ≤ new.capacity := by decide +kernel
  obtain ⟨_, used, _, _, fits⟩ := counters_accounted uploaded_run stored
  refine ⟨_, _, uploaded_run.reachable, stored, rfl, used, fits ?_⟩
  rintro event membership ⟨_, old, new, before, after, lowered⟩
  have kept := raised event membership old before new after
  omega

end FileServer.Metadata

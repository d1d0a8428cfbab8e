import FileServer.Metadata.Capacity

/-!
# Instances of a node

A registration that replaces the instance of a node retires the old one, and a
retired instance is not accepted again.  So an instance is current during one
stretch of a run only, and what was read under it is either still true or
never true again.
-/

namespace FileServer.Metadata

open FileServer.Relational FileServer.Transition

section Identities

variable {focus : Focus} {drawn : List Ident} {db db' : Database}

theorem Steps.sameNode (steps : Steps focus drawn db db') {nid : NodeId}
    (other : focus ≠ .register nid) :
    Option.Rel SameNode (db.nodes.get? nid) (db'.nodes.get? nid) := by
  induction steps with
  | refl =>
      cases db.nodes.get? nid with
      | none => exact .none
      | some node => exact .some (.refl node)
  | @tail middle next _ moves inductionHypothesis =>
      have later := moves.sameNode other
      generalize middle.nodes.get? nid = between at inductionHypothesis later
      generalize db.nodes.get? nid = before at inductionHypothesis
      cases inductionHypothesis with
      | none => exact later
      | some first =>
          generalize next.nodes.get? nid = after at later
          cases later with
          | some second => exact .some (first.trans second)

theorem Steps.instances (steps : Steps focus drawn db db') : db.instances ⊆ db'.instances := by
  induction steps with
  | refl => exact fun _ => id
  | tail _ moves inductionHypothesis =>
      cases moves.nodes with
      | same _ instances => exact instances ▸ inductionHypothesis
      | register _ _ _ _ _ _ kept => exact inductionHypothesis.trans kept

theorem Steps.registeredBefore (steps : Steps focus drawn db db') (consistent : Consistent db')
    {nid : NodeId} {node : NodeRow} (stored : db'.nodes.get? nid = some node)
    (seen : db.Seen nid node.inst) : ∃ old, db.nodes.get? nid = some old ∧ old.inst = node.inst := by
  rcases seen with registered | retired
  · exact registered
  · exact absurd (steps.instances retired) (consistent.retired nid node stored)

end Identities

section Steps

variable {σ σ' : State} {action : Action}

theorem Focuses.registration {nid : NodeId} (focuses : Focuses σ action (.register nid))
    (stepped : metadata.step σ action = some σ') :
    ∃ i c beat, action = .register i c ∧ σ.beats i = some beat ∧ beat.node = nid ∧
      Database.Registration c σ.db σ'.db beat := by
  cases focuses with
  | request _ _ _ _ _ focused => cases focused
  | requestBy _ _ _ _ _ move =>
      cases move with
      | command _ _ _ _ _ focused => cases focused
  | register i c beat db present registered =>
      have taken : σ.step (.register i c) = some σ' := stepped
      simp only [State.step, present, registered, Option.some.injEq] at taken
      subst taken
      exact ⟨i, c, beat, rfl, present, rfl, Database.register_ok registered⟩

theorem replaces_registration (reached : Reachable metadata σ)
    (stepped : metadata.step σ action = some σ') {nid : NodeId} {old new : NodeRow}
    (before : σ.db.nodes.get? nid = some old) (after : σ'.db.nodes.get? nid = some new)
    (changed : new.inst ≠ old.inst) :
    ∃ i c beat, action = .register i c ∧ σ.beats i = some beat ∧ beat.inst = new.inst ∧
      old.heartbeat + c.dead ≤ beat.time ∧ (nid, old.inst) ∈ σ'.db.instances := by
  obtain ⟨focus, focuses, _, _, effect⟩ := reachable_effect reached stepped
  by_cases same : focus = .register nid
  · subst same
    obtain ⟨i, c, beat, taken, present, rfl, registration⟩ := focuses.registration stepped
    rw [registration.stored, Option.some.injEq] at after
    subst after
    have different : old.inst ≠ beat.inst := Ne.symm changed
    have dead := Int.add_le_of_le_sub_left (registration.fresh old before different).2
    exact ⟨i, c, beat, taken, present, rfl, dead,
      (registration.instances _).mpr (.inr ⟨old, before, different, rfl⟩)⟩
  · have related := effect.steps.sameNode same
    rw [before, after, Option.rel_some_some] at related
    exact absurd related.inst changed

/-- The time of a heartbeat was read before it is registered. -/
theorem beats_past (reached : Reachable metadata σ) (i : Nat) (beat : Beat)
    (present : σ.beats i = some beat) : beat.time ≤ σ.now := by
  revert i beat
  refine reached.invariant (fun σ => ∀ i beat, σ.beats i = some beat → beat.time ≤ σ.now) ?_ ?_
  · intro i beat present
    simp [metadata, State.initial] at present
  intro σ action σ' earlier stepped i beat present
  have dropped : ∀ j, Function.update σ.beats j none i = some beat → beat.time ≤ σ.now := by
    intro j present
    by_cases same : i = j
    · simp [same] at present
    · exact earlier i beat (by rwa [Function.update_of_ne same] at present)
  cases happens stepped with
  | tick elapsed => exact (earlier i beat present).trans (by simp)
  | beat j c nid inst volume capacity free reported absent accepted =>
      by_cases same : i = j
      · simp only [same, Function.update_self, Option.some.injEq] at present
        subst present
        simp only [heartbeat, bind_eq_ok, found_eq_ok, require_eq_ok, pure_eq_ok] at accepted
        obtain ⟨_, _, _, _, rfl⟩ := accepted
        exact le_rfl
      · simp only [Function.update_of_ne same] at present
        exact earlier i beat present
  | register j | reject j | dropBeat j => exact dropped j present
  | request | requestBy | refuse | confirm | worker | maintenance => exact earlier i beat present

end Steps

section Runs

variable {history : List (Event State Action)} {σ : State}

theorem instances_kept (run : Run metadata history σ) {τ : State} (seen : Visited history σ τ) :
    τ.db.instances ⊆ σ.db.instances :=
  run.visited (fun τ σ => τ.db.instances ⊆ σ.db.instances) (fun _ _ => id)
    (fun _ _ _ first second => first.trans second)
    (fun _ _ _ reached stepped => by
      obtain ⟨_, _, _, _, effect⟩ := reachable_effect reached stepped
      exact effect.steps.instances)
    seen

/-- An instance that was replaced never returns, the current one is not
retired, it was registered when its predecessor was dead, and a heartbeat that
is refused changes nothing. -/
theorem instances_once (run : Run metadata history σ) :
    (∀ event ∈ history, ∀ nid old new, event.before.db.nodes.get? nid = some old →
      event.after.db.nodes.get? nid = some new → new.inst ≠ old.inst →
      (∀ node, σ.db.nodes.get? nid = some node → node.inst ≠ old.inst) ∧
      ∃ i c beat, event.action = .register i c ∧ event.before.beats i = some beat ∧
        beat.inst = new.inst ∧ old.heartbeat + c.dead ≤ beat.time ∧
        beat.time ≤ event.before.now) ∧
    (∀ nid node, σ.db.nodes.get? nid = some node → (nid, node.inst) ∉ σ.db.instances) ∧
    (∀ i c nid inst volume capacity free failure σ',
      metadata.step σ (.beat i c nid inst volume capacity free) = some σ' →
      heartbeat c σ.now nid inst volume capacity free = .error failure → σ' = σ) ∧
    ∀ i c beat failure σ', metadata.step σ (.register i c) = some σ' →
      σ.beats i = some beat → σ.db.register c beat = .error failure → σ'.db = σ.db := by
  have consistent := (reachable_invariant run.reachable).consistent
  refine ⟨?_, consistent.retired, ?_, ?_⟩
  · intro event membership nid old new before after changed
    obtain ⟨reached, stepped⟩ := run.event membership
    obtain ⟨i, c, beat, registers, present, inst, dead, retired⟩ :=
      replaces_registration reached stepped before after changed
    refine ⟨?_, i, c, beat, registers, present, inst, dead, beats_past reached i beat present⟩
    intro node stored same
    exact consistent.retired nid node stored
      (same ▸ instances_kept run (run.visitedAfter membership) retired)
  · intro i c nid inst volume capacity free failure σ' stepped refused
    have taken : σ.step (.beat i c nid inst volume capacity free) = some σ' := stepped
    simp only [State.step, refused] at taken
    split at taken
    · next equality => cases equality
    · exact (Option.some.inj taken).symm
    · cases taken
  · intro i c beat failure σ' stepped present refused
    have taken : σ.step (.register i c) = some σ' := stepped
    simp only [State.step, present, refused, Option.some.injEq] at taken
    rw [← taken]

end Runs

/-- The first process of a node is replaced by a second one. -/
theorem instances_once_replaced : ∃ σ, Reachable metadata σ ∧
    (∃ node, σ.db.nodes.get? 1 = some node ∧ node.inst = 111) ∧
    ∀ node, σ.db.nodes.get? 1 = some node → node.inst ≠ 101 := by
  let actions := heartbeatActions 1 ++ [.tick 5, .beat 1 installation 1 111 201 100 100]
  have run := metadata.run actions (by decide +kernel)
  have stepped := (Option.some_get (show (metadata.step ((metadata.execute metadata.initial
    actions).get (by decide +kernel)) (.register 1 installation)).isSome by decide +kernel)).symm
  have before : ((metadata.execute metadata.initial actions).get (by decide +kernel)).db.nodes.get? 1 =
      some ⟨"first:9000", 101, 201, 0, 100, 100, 0, 0, .healthy⟩ := by decide +kernel
  have after : ((metadata.step ((metadata.execute metadata.initial actions).get (by decide +kernel))
      (.register 1 installation)).get (by decide +kernel)).db.nodes.get? 1 =
        some ⟨"first:9000", 111, 201, 5, 100, 100, 0, 0, .healthy⟩ := by decide +kernel
  exact ⟨_, (run.next stepped).reachable, ⟨_, after, rfl⟩,
    ((instances_once (run.next stepped)).1 _ List.mem_cons_self 1 _ _ before after (by decide)).1⟩

end FileServer.Metadata

import FileServer.Cluster.Custody

/-!
# Steps of the maintenance thread

A verdict is what a `stat` of the copy finds, so the maintenance thread only
writes down which copies count.
-/

namespace FileServer.Cluster

open FileServer.Metadata FileServer.Relational FileServer.Storage FileServer.Transition

theorem sameNodes_step {σ σ' : State} {action : Action} (reached : Reachable Metadata.metadata σ)
    (stepped : Metadata.metadata.step σ action = some σ') (other : ∀ i c, action ≠ .register i c) :
    SameNodes σ.db σ'.db := by
  obtain ⟨focus, focuses, _, _, effect⟩ := reachable_effect reached stepped
  refine .of_rel fun nid => effect.steps.sameNode ?_
  rintro rfl
  obtain ⟨i, c, _, same, _⟩ := focuses.registration stepped
  exact other i c same

namespace Deployment

variable {s : Site} {κ κ' : Deployment} {cid : Ident} {nid : NodeId}

theorem Untouched.follow {action : Action} {core : State}
    (reached : Reachable Metadata.metadata κ.core)
    (stepped : Metadata.metadata.step κ.core action = some core)
    (other : ∀ i c, action ≠ .register i c) (aside : Aside cid κ.core.db core.db) :
    Untouched cid κ (κ.follow s action core) := by
  obtain ⟨same, disks, running, _⟩ := κ.follow_frame s action core
  refine ⟨?_, ?_, running, fun disk => by rw [disks]⟩
  · rw [same]
    exact aside
  · rw [same]
    exact sameNodes_step reached stepped other

/-- The maintenance thread neither waits for an answer nor has one. -/
def Unjudged : Maintenance → Prop
  | .asking .. | .judged .. => False
  | _ => True

theorem verdict_unjudged (quiet : Unjudged κ.core.maintenance) : κ.verdict cid nid = none := by
  unfold verdict
  split
  · next here =>
      rw [here] at quiet
      exact quiet.elim
  · next here =>
      rw [here] at quiet
      exact quiet.elim
  · rfl

/-- Neither before nor after the step is there a verdict. -/
theorem Untouched.steady_unjudged (untouched : Untouched cid κ κ')
    (before : Unjudged κ.core.maintenance) (after : Unjudged κ'.core.maintenance) :
    Steady s cid κ κ' := by
  refine untouched.steady_of_verdict fun nid _ => ?_
  rw [verdict_unjudged before, verdict_unjudged after]
  simp only [Option.getD_none, decide_eq_true_eq]
  exact untouched.readable nid

theorem verdict_asking {view : NodeView} {check : Check} {left : List Check}
    {views : List NodeView} (here : κ.core.maintenance = .asking view check left views) :
    κ.verdict cid nid = if view.node = nid ∧ check.chunk = cid ∧ κ.Current view then
      (κ.calls .reconcile).bind Sent.answer else none := by
  simp only [verdict, here]

theorem verdict_judged {view : NodeView} {check : Check} {valid : Bool} {left : List Check}
    {views : List NodeView} (here : κ.core.maintenance = .judged view check valid left views) :
    κ.verdict cid nid = if view.node = nid ∧ check.chunk = cid ∧ κ.Current view then some valid
      else none := by
  simp only [verdict, here]

section Service

variable {core : State} (reached : Reachable (cluster s) κ)
include reached

theorem steady_move {action : Action} {before after : Maintenance} {db : Database}
    (settled : κ.core.db.phase cid ≠ some .staging)
    (stepped : Metadata.metadata.step κ.core action = some core)
    (move : MaintenanceMove κ.core action before after db) (here : κ.core.maintenance = before)
    (there : core.maintenance = after) (result : core.db = db) (quiet : Unjudged before)
    (later : Unjudged after) : Steady s cid κ (κ.follow s action core) := by
  have sound := reachable_sound reached
  have consistent := (reachable_invariant sound.reached).consistent
  have other : ∀ i c, action ≠ .register i c := by
    cases move <;> simp
  refine Untouched.steady_unjudged (.follow sound.reached stepped other ?_) (here ▸ quiet) ?_
  · rw [result]
    refine move.aside consistent settled ?_
    rintro view check valid left views rfl
    exact quiet.elim
  · rw [(κ.follow_frame s action core).1, there]
    exact later

/-- A `stat` goes out. -/
theorem steady_ask (stepped : Metadata.metadata.step κ.core .checkAsk = some core) :
    Steady s cid κ (κ.follow s .checkAsk core) := by
  have sound := reachable_sound reached
  have untouched : Aside cid κ.core.db core.db → Untouched cid κ (κ.follow s .checkAsk core) :=
    .follow sound.reached stepped (by simp)
  cases happens stepped with
  | confirm _ _ _ _ move => cases move
  | worker _ _ _ _ move => cases move
  | maintenance _ maintenance db move =>
      generalize here : κ.core.maintenance = before at move
      cases move with
      | ask view check left views =>
          specialize untouched (.refl cid _)
          refine untouched.steady_of_verdict fun nid _ => ?_
          have silent : κ.verdict cid nid = none := verdict_unjudged (by rw [here]; trivial)
          obtain ⟨same, _⟩ := κ.follow_frame s .checkAsk _
          rw [silent, verdict_asking (by rw [same]), follow_calls]
          simp only [request, if_true, Option.bind_some, ite_self, Option.getD_none,
            decide_eq_true_eq]
          exact untouched.readable nid

theorem steady_answer {valid : Bool}
    (stepped : Metadata.metadata.step κ.core (.checkAnswer valid) = some core)
    (answered : ∃ sent ∈ κ.calls .reconcile, sent.answer = some valid) :
    Steady s cid κ (κ.follow s (.checkAnswer valid) core) := by
  have sound := reachable_sound reached
  have untouched : Aside cid κ.core.db core.db →
      Untouched cid κ (κ.follow s (.checkAnswer valid) core) :=
    .follow sound.reached stepped (by simp)
  cases happens stepped with
  | confirm _ _ _ _ move => cases move
  | worker _ _ _ _ move => cases move
  | maintenance _ maintenance db move =>
      generalize here : κ.core.maintenance = before at move
      cases move with
      | answer view check left views =>
          specialize untouched (.refl cid _)
          refine untouched.steady_of_verdict fun nid _ => ?_
          obtain ⟨sent, call, answer⟩ := answered
          obtain ⟨same, _⟩ := κ.follow_frame s (.checkAnswer valid) _
          rw [verdict_asking here, verdict_judged (by rw [same]), call, Option.bind_some, answer]
          simp only [untouched.current]
          split
          · rfl
          · simp only [Option.getD_none, decide_eq_true_eq]
            exact untouched.readable nid

omit reached in
/-- The verdict on a copy of the chunk is written down. -/
theorem steady_judged {view : NodeView} {check : Check} {valid : Bool} {left : List Check}
    {views : List NodeView} {row row' : ReplicaRow}
    (here : κ.core.maintenance = .judged view check valid left views)
    (judgement : Database.Judged κ.core.db core.db view check valid row row')
    (concerned : check.chunk = cid) (current : κ.Current view)
    (nodes : SameNodes κ.core.db core.db) (there : core.maintenance = .checks view left views) :
    Steady s cid κ (κ.follow s .reverify core) := by
  subst concerned
  obtain ⟨same, disks, running, _⟩ := κ.follow_frame s .reverify core
  have readable : ∀ nid, (κ.follow s .reverify core).Readable s check.chunk nid ↔
      κ.Readable s check.chunk nid := by
    intro nid
    simp only [readable_iff, running, disks, same, judgement.life.chunks]
  have silent : ∀ nid, (κ.follow s .reverify core).verdict check.chunk nid = none := fun nid =>
    verdict_unjudged (by rw [same, there]; trivial)
  have others : ∀ nid, nid ≠ view.node →
      core.db.replicas.get? (check.chunk, nid) = κ.core.db.replicas.get? (check.chunk, nid) :=
    fun nid different => judgement.others _ _ (by simp [different])
  have state := judgement.state
  refine ⟨running, same ▸ nodes, same ▸ judgement.life.chunks, ?_, ?_, ?_, fun nid _ => readable nid,
    ?_, ?_, by simp, List.nodup_nil⟩
  · rw [same]
    simp only [Database.chunkObject, judgement.life.chunks, judgement.life.uploads,
      judgement.life.objects]
  · intro nid
    simp only [Keeps, Option.mem_def, same, silent, Option.getD_none, readable, List.not_mem_nil,
      or_false, decide_eq_true_eq]
    by_cases target : nid = view.node
    · subst target
      rw [verdict_judged here, if_pos ⟨rfl, rfl, current⟩]
      simp only [judgement.before, judgement.after, Option.some.injEq, exists_eq_left',
        Option.getD_some]
      by_cases unverified : row.state = .unverified
      · cases valid <;> simp [state, unverified]
      · simp [state, unverified]
    · rw [others nid target, verdict_judged here, if_neg fun wrong => target wrong.1.symm]
      simp only [Option.getD_none, decide_eq_true_eq]
  · intro nid
    simp only [Spare, Option.mem_def, same, List.not_mem_nil, not_false_eq_true, and_true]
    by_cases target : nid = view.node
    · subst target
      simp only [judgement.before, judgement.after, Option.some.injEq, forall_eq']
      by_cases unverified : row.state = .unverified
      · cases valid <;> simp [state, unverified]
      · simp [state, unverified]
    · rw [others nid target]
  · simp only [Charged, same]
    have charged : (row'.state = .reserved → row'.charged = .reserved) ↔
        (row.state = .reserved → row.charged = .reserved) := by
      by_cases unverified : row.state = .unverified
      · cases valid <;> simp [state, unverified]
      · rw [state, if_neg unverified]
        exact forall_congr' fun reserved => by rw [judgement.charged reserved]
    constructor
    · intro all nid other stored
      by_cases target : nid = view.node
      · subst target
        obtain rfl := Option.some.inj (judgement.before.symm.trans stored)
        exact charged.mp (all _ row' judgement.after)
      · exact all nid other ((others nid target).trans stored)
    · intro all nid other stored
      by_cases target : nid = view.node
      · subst target
        obtain rfl := Option.some.inj (judgement.after.symm.trans stored)
        exact charged.mpr (all _ row judgement.before)
      · exact all nid other ((others nid target).symm.trans stored)
  · intro nid other stored unverified
    rw [same] at stored
    by_cases target : nid = view.node
    · subst target
      obtain rfl := Option.some.inj (judgement.after.symm.trans stored)
      rw [state] at unverified
      split at unverified
      · next before => exact ⟨row, judgement.before, before⟩
      · exact ⟨row, judgement.before, unverified⟩
    · exact ⟨other, (others nid target).symm.trans stored, unverified⟩

/-- What a verdict does to a copy. -/
theorem steady_reverify (stepped : Metadata.metadata.step κ.core .reverify = some core) :
    Steady s cid κ (κ.follow s .reverify core) := by
  have sound := reachable_sound reached
  have consistent := (reachable_invariant sound.reached).consistent
  have nodes : SameNodes κ.core.db core.db := sameNodes_step sound.reached stepped (by simp)
  have taken : κ.core.step .reverify = some core := stepped
  have untouched : Aside cid κ.core.db core.db → Untouched cid κ (κ.follow s .reverify core) :=
    .follow sound.reached stepped (by simp)
  obtain ⟨same, _⟩ := κ.follow_frame s .reverify core
  -- the verdict counts for no copy of the chunk that waits for one
  have unconcerned : ∀ {view check valid left views},
      κ.core.maintenance = .judged view check valid left views → Unjudged core.maintenance →
      Aside cid κ.core.db core.db → (∀ row, κ.core.db.replicas.get? (cid, view.node) = some row →
        ¬(check.chunk = cid ∧ κ.Current view)) → Steady s cid κ (κ.follow s .reverify core) := by
    intro view check valid left views here quiet aside apart
    refine (untouched aside).steady_of_verdict fun nid waits => ?_
    obtain ⟨row, stored, _⟩ := waits
    rw [verdict_unjudged (by rw [same]; exact quiet), verdict_judged here, if_neg]
    · simp only [Option.getD_none, decide_eq_true_eq]
      exact (untouched aside).readable nid
    · rintro ⟨rfl, concerned, current⟩
      exact apart row stored ⟨concerned, current⟩
  simp only [State.step, State.maintenanceStep] at taken
  split at taken
  · next view check valid left views here =>
      split at taken
      · next db judged =>
          cases taken
          by_cases concerned : check.chunk = cid ∧ κ.Current view
          · obtain ⟨concerned, current⟩ := concerned
            obtain ⟨node, located, volume, inst⟩ := current
            obtain ⟨row, row', judgement⟩ :=
              Database.reverify_judged consistent located volume inst judged
            exact steady_judged here judgement concerned ⟨node, located, volume, inst⟩
              nodes rfl
          · refine unconcerned here trivial ?_ fun _ _ => concerned
            by_cases different : check.chunk = cid
            · obtain ⟨_, node, _, located, outcome⟩ := Database.reverify_ok judged
              rcases outcome with ⟨volume, inst, _⟩ | ⟨_, rfl⟩
              · exact absurd ⟨different, node, located, volume, inst⟩ concerned
              · exact .refl cid _
            · exact .reverify (Ne.symm different) judged
      · next failure raised =>
          cases taken
          refine unconcerned here trivial (.refl cid _) ?_
          rintro row stored ⟨rfl, node, located, _⟩
          simp only [Database.reverify, found, stored, Option.mem_def.mp located, bind, Except.bind]
            at raised
          split at raised <;> cases raised
  · cases taken

end Service

theorem execute_stat {chunk : ChunkRow} (stored : κ.core.db.chunks.get? cid = some chunk) :
    κ.execute s ⟨nid, .stat cid chunk.length chunk.sha⟩ = (decide (κ.Readable s cid nid), κ) := by
  cases runs : κ.node s nid with
  | none => simp [execute, runs, Readable]
  | some node =>
      have readable : κ.Readable s cid nid ↔
          (Node.read s.digest (node.files.get? cid) chunk.length chunk.sha).toOption.isSome = true := by
        simp [Readable, runs, stored]
      obtain ⟨inst, _, rfl⟩ := node_eq_some.mp runs
      simp only [execute, runs, perform, readable]
      cases Node.read s.digest ((κ.disks (nid, (s.hosts inst).2)).get? cid) chunk.length chunk.sha with
      | error failure => rfl
      | ok content =>
          refine Prod.ext rfl ?_
          exact congrArg (fun disks => { κ with disks }) (Function.update_eq_self _ _)

theorem execute_stat_keeps {remote : Remote} {length : Nat} {sha : Option Sha}
    (stat : remote.message = .stat cid length sha) : (κ.execute s remote).2 = κ := by
  have executed := @executed s κ remote
  generalize (κ.execute s remote).1 = answer at executed
  generalize (κ.execute s remote).2 = after at executed ⊢
  cases executed with
  | keep => rfl
  | store inst cid claims data runs message => simp [stat] at message
  | erase inst cid runs message => simp [stat] at message

theorem asked_recorded (reached : Reachable (cluster s) κ) {view : NodeView} {check : Check}
    {left : List Check} {views : List NodeView}
    (here : κ.core.maintenance = .asking view check left views) :
    ∃ chunk, κ.core.db.chunks.get? check.chunk = some chunk ∧ chunk.length = check.length ∧
      chunk.sha = check.sha := by
  have sound := reachable_sound reached
  have waits : check ∈ κ.core.maintenance.pending := by simp [here, Maintenance.pending]
  obtain ⟨checksum, given⟩ := Option.ne_none_iff_exists'.mp (pending_hashed sound.reached waits)
  obtain ⟨chunk, stored, sized, fixed⟩ := sound.checks check waits checksum given
  exact ⟨chunk, stored, sized, fixed.trans given.symm⟩

theorem steady_deliver (reached : Reachable (cluster s) κ)
    (awaits : (κ.awaited .reconcile).isSome = true) {remote : Remote}
    (sent : κ.calls .reconcile = some ⟨remote, none⟩) :
    Steady s cid κ { (κ.execute s remote).2 with
      calls := Function.update κ.calls .reconcile (some ⟨remote, some (κ.execute s remote).1⟩) } := by
  obtain ⟨awaited, awaits⟩ := Option.isSome_iff_exists.mp awaits
  obtain ⟨answer, call⟩ := reachable_dialed reached _ _ awaits
  obtain ⟨rfl, _⟩ := Sent.mk.inj (Option.some.inj (sent.symm.trans call))
  simp only [awaited] at awaits
  split at awaits
  · next view check left views here =>
      cases awaits
      obtain ⟨chunk, stored, sized, fixed⟩ := asked_recorded reached here
      rw [← sized, ← fixed, execute_stat stored]
      have untouched : Untouched cid κ { κ with
          calls := Function.update κ.calls .reconcile (some
            ⟨⟨view.node, .stat check.chunk chunk.length chunk.sha⟩,
              some (decide (κ.Readable s check.chunk view.node))⟩) } :=
        ⟨.refl cid _, .refl _, rfl, fun _ => rfl⟩
      refine untouched.steady_of_verdict fun nid _ => ?_
      have later : ∀ calls, ({ κ with calls } : Deployment).verdict cid nid =
          if view.node = nid ∧ check.chunk = cid ∧ κ.Current view then
            (calls .reconcile).bind Sent.answer else none := fun calls => verdict_asking here
      rw [verdict_asking here, later]
      simp only [Function.update_self, Option.bind_some, sent]
      split
      · next concerned =>
          obtain ⟨rfl, rfl, _⟩ := concerned
          rfl
      · simp only [Option.getD_none, decide_eq_true_eq]
        exact untouched.readable nid
  · cases awaits

end Deployment

end FileServer.Cluster

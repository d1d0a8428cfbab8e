import FileServer.Cluster.Beats
import FileServer.Metadata.Deletions

/-!
# Passes of the maintenance thread

The maintenance thread finishes what it does, whatever it is at, and a pass
over nodes that have just reported themselves verifies copies until none waits.
-/

namespace FileServer.Metadata

open FileServer.Relational FileServer.Transition

namespace Database

def waiting (db : Database) : Finset (Ident × NodeId) :=
  ((db.replicas.rows.filter fun entry => entry.2.state = .unverified).map Prod.fst).toFinset

theorem mem_waiting {db : Database} {key : Ident × NodeId} : key ∈ db.waiting ↔
    ∃ row, db.replicas.get? key = some row ∧ row.state = .unverified := by
  simp only [waiting, List.mem_toFinset, List.mem_map, List.mem_filter, Prod.exists,
    decide_eq_true_eq, Table.mem_rows_iff]
  constructor
  · rintro ⟨cid, nid, row, ⟨stored, unverified⟩, rfl⟩
    exact ⟨row, stored, unverified⟩
  · rintro ⟨row, stored, unverified⟩
    exact ⟨key.1, key.2, row, ⟨stored, unverified⟩, rfl⟩

end Database

theorem Steps.waiting {focus : Focus} {drawn : List Ident} {db db' : Database}
    (steps : Steps focus drawn db db') (other : ∀ nid, focus ≠ .register nid) :
    db'.waiting ⊆ db.waiting := by
  induction steps with
  | refl => exact Finset.Subset.refl _
  | @tail middle next _ moves inductionHypothesis =>
      refine Finset.Subset.trans ?_ inductionHypothesis
      rintro ⟨cid, nid⟩ membership
      obtain ⟨row, stored, unverified⟩ := Database.mem_waiting.mp membership
      have move := moves.rowOrigin stored
      generalize present : middle.replicas.get? (cid, nid) = old at move
      cases move with
      | keep => exact Database.mem_waiting.mpr ⟨row, present, unverified⟩
      | unverify row owner => exact absurd owner (other nid)
      | remount row volume owner => exact absurd owner (other nid)
      | refund row => exact Database.mem_waiting.mpr ⟨row, present, unverified⟩
      | verdict row volume state charged valid owner _ judged =>
          rcases judged with ⟨_, rfl, _⟩ | ⟨rfl, _⟩ <;> cases unverified
      | retire row => by_cases gone : row.state = .gone <;> simp [gone] at unverified
      | reserve | settle | mark | delete | vanish | discard => cases unverified

theorem waiting_step {σ σ' : State} {action : Action} (reached : Reachable metadata σ)
    (stepped : metadata.step σ action = some σ') (other : ∀ i c, action ≠ .register i c) :
    σ'.db.waiting ⊆ σ.db.waiting := by
  obtain ⟨focus, focuses, _, _, effect⟩ := reachable_effect reached stepped
  refine effect.steps.waiting ?_
  rintro nid rfl
  obtain ⟨i, c, _, same, _⟩ := focuses.registration stepped
  exact other i c same

end FileServer.Metadata

namespace FileServer.Cluster

open FileServer.Metadata FileServer.Relational FileServer.Storage FileServer.Transition

/-- What the maintenance thread leaves alone. -/
structure Tidied (σ σ' : Upkeep) : Prop where
  workers : σ'.deployment.core.workers = σ.deployment.core.workers
  now : σ'.deployment.core.now = σ.deployment.core.now
  disks : σ'.deployment.disks = σ.deployment.disks
  waiting : σ'.deployment.core.db.waiting ⊆ σ.deployment.core.db.waiting
  deletions : ∀ cid, σ.deployment.core.db.phase cid = some .deleted →
    σ'.deployment.core.db.phase cid = some .deleted ∧
      ∀ nid, σ.deployment.core.db.Outstanding ⟨.delete, cid, some nid⟩ →
        σ'.deployment.core.db.Outstanding ⟨.delete, cid, some nid⟩

/-- What the maintenance thread has no part in. -/
theorem Tidied.of_db {σ σ' : Upkeep}
    (workers : σ'.deployment.core.workers = σ.deployment.core.workers)
    (now : σ'.deployment.core.now = σ.deployment.core.now)
    (disks : σ'.deployment.disks = σ.deployment.disks)
    (db : σ'.deployment.core.db = σ.deployment.core.db) : Tidied σ σ' :=
  ⟨workers, now, disks, by rw [db], fun cid deleted => by rw [db]; exact ⟨deleted, fun _ => id⟩⟩

theorem Tidied.refl (σ : Upkeep) : Tidied σ σ := .of_db rfl rfl rfl rfl

theorem Tidied.trans {σ σ' σ'' : Upkeep} (earlier : Tidied σ σ') (later : Tidied σ' σ'') :
    Tidied σ σ'' :=
  ⟨later.workers.trans earlier.workers, later.now.trans earlier.now,
    later.disks.trans earlier.disks, Finset.Subset.trans later.waiting earlier.waiting,
    fun cid deleted =>
      have ⟨still, kept⟩ := earlier.deletions cid deleted
      have ⟨ever, stays⟩ := later.deletions cid still
      ⟨ever, fun nid outstanding => stays nid (kept nid outstanding)⟩⟩

section Maintenance

variable {s : Site} {c : Config} {w : Nat} {σ : Upkeep}

/-- The maintenance thread gets from one state to another. -/
def Gets (s : Site) (c : Config) (w : Nat) (σ : Upkeep) (goal : Upkeep → Prop) :
    Prop :=
  ∃ σ', Upkeep.Leads s c w σ σ' ∧ Tidied σ σ' ∧ goal σ'

theorem Gets.here {goal : Upkeep → Prop} (holds : goal σ) : Gets s c w σ goal :=
  ⟨σ, .refl, .refl σ, holds⟩

theorem Gets.next {σ' : Upkeep} {goal : Upkeep → Prop} (proceeds : Upkeep.Leads s c w σ σ')
    (tidied : Tidied σ σ') (later : Gets s c w σ' goal) : Gets s c w σ goal := by
  obtain ⟨last, more, still, holds⟩ := later
  exact ⟨last, proceeds.trans more, tidied.trans still, holds⟩

theorem Gets.then {goal goal' : Upkeep → Prop} (first : Gets s c w σ goal)
    (attended : Attended s c σ.deployment)
    (later : ∀ σ', Attended s c σ'.deployment → Upkeep.Leads s c w σ σ' →
      Tidied σ σ' → goal σ' → Gets s c w σ' goal') : Gets s c w σ goal' := by
  obtain ⟨σ', proceeds, tidied, holds⟩ := first
  exact .next proceeds tidied (later σ' (proceeds.attended attended) proceeds tidied holds)

theorem maintenance_acts (attended : Attended s c σ.deployment) {chore : Chore}
    {action : Action} {core : State} (move : chore.move c w = .metadata action)
    (permits : σ.Permits s c w chore) (allowed : σ.deployment.Allows s action)
    (stepped : Metadata.metadata.step σ.deployment.core action = some core)
    (moves : MaintenanceMove σ.deployment.core action σ.deployment.core.maintenance
      core.maintenance core.db)
    (other : ∀ i c, action ≠ .register i c) (silent : chore ≠ .fetch true)
    (workers : core.workers = σ.deployment.core.workers)
    (now : core.now = σ.deployment.core.now) :
    Upkeep.Leads s c w σ ⟨σ.deployment.follow s action core, σ.slept⟩ ∧
      Tidied σ ⟨σ.deployment.follow s action core, σ.slept⟩ := by
  obtain ⟨same, disks, _⟩ := σ.deployment.follow_frame s action core
  have proceeds := leads_act move permits allowed stepped
  rw [if_neg silent] at proceeds
  refine ⟨proceeds, ?_, ?_, disks, ?_, fun cid deleted => ?_⟩
  · rw [same, workers]
  · rw [same, now]
  · rw [same]
    exact waiting_step (reachable_sound attended.reached).reached stepped other
  · have settled : σ.deployment.core.db.phase cid ≠ some .staging := by simp [deleted]
    rw [same]
    refine ⟨?_, fun nid => moves.deletions_kept attended.consistent settled⟩
    rw [Database.phase, (moves.known attended.consistent settled).2]
    exact deleted

/-- A step between the checks. -/
theorem maintenance_moves (attended : Attended s c σ.deployment) (chore : Chore)
    {action : Action} {before after : Maintenance} {db : Database}
    (moves : MaintenanceMove σ.deployment.core action before after db)
    (here : σ.deployment.core.maintenance = before) (move : chore.move c w = .metadata action)
    (permits : σ.Permits s c w chore) (allowed : σ.deployment.Allows s action)
    (quiet : Deployment.Unjudged before) (later : Deployment.Unjudged after) :
    ∃ σ', Upkeep.Leads s c w σ σ' ∧ Tidied σ σ' ∧ σ'.deployment.core.maintenance = after ∧
      σ'.deployment.core.db = db := by
  have silent : chore ≠ .fetch true := by
    rintro rfl
    cases move
    cases moves
  have other : ∀ i c, action ≠ .register i c := by
    cases moves <;> simp
  have stepped : Metadata.metadata.step σ.deployment.core action = some { σ.deployment.core with
      db, issued := σ.deployment.core.issued ∪ action.issues.toFinset, maintenance := after } := by
    cases moves with
    | reverify | broken | answer => exact quiet.elim
    | ask => exact later.elim
    | skip | stop => cases chore <;> cases move
    | _ => simp [Metadata.metadata, State.step, State.maintenanceStep, here, Action.issues]
  obtain ⟨proceeds, tidied⟩ := maintenance_acts attended move permits allowed stepped
    (here ▸ moves) other silent rfl rfl
  obtain ⟨same, _⟩ := σ.deployment.follow_frame s action _
  exact ⟨_, proceeds, tidied, by rw [same], by rw [same]⟩

theorem gets_reviewed (attended : Attended s c σ.deployment) {view : NodeView}
    {ids : List Ident} {last : Option Ident} {more : Bool} {views : List NodeView}
    (here : σ.deployment.core.maintenance = .listing view ids last more views) :
    Gets s c w σ fun σ' => σ'.deployment.core.maintenance = .listing view [] last more views := by
  induction ids generalizing σ with
  | nil => exact .here here
  | cons id rest inductionHypothesis =>
      obtain ⟨σ', proceeds, tidied, there, _⟩ := maintenance_moves (w := w) attended .review
        (.review c view id rest last more views) here rfl trivial trivial trivial trivial
      exact .next proceeds tidied (inductionHypothesis (proceeds.attended attended) there)

def Deployment.beyond (κ : Deployment) (disk : NodeId × Ident) (cursor : Option Ident) :
    Finset Ident :=
  ((κ.disks disk).rows.map Prod.fst).toFinset.filter fun id => ∀ last ∈ cursor, last < id

theorem beyond_page {κ : Deployment} {disk : NodeId × Ident} {node : Node}
    (files : node.files = κ.disks disk) {cursor : Option Ident}
    (more : (node.inventory cursor).2 = true) :
    ∃ last, (node.inventory cursor).1.getLast? = some last ∧
      (κ.beyond disk (some last)).card < (κ.beyond disk cursor).card := by
  simp only [Node.inventory, decide_eq_true_eq] at more ⊢
  have full : (((node.files.rows.map Prod.fst).filter fun id =>
      ∀ last ∈ cursor, last < id).insertionSort (· ≤ ·)).take 256 ≠ [] := by
    intro empty
    rw [List.take_eq_nil_iff] at empty
    rcases empty with wrong | empty
    · cases wrong
    · rw [empty] at more
      cases more
  obtain ⟨last, page⟩ := Option.isSome_iff_exists.mp (List.getLast?_isSome.mpr full)
  refine ⟨last, page, Finset.card_lt_card ?_⟩
  have listed := List.mem_of_mem_take (List.mem_of_getLast? page)
  rw [List.mem_insertionSort, List.mem_filter, files] at listed
  have present : last ∈ κ.beyond disk cursor :=
    Finset.mem_filter.mpr ⟨List.mem_toFinset.mpr listed.1, of_decide_eq_true listed.2⟩
  refine Finset.ssubset_iff_subset_ne.mpr ⟨?_, ?_⟩
  · intro id membership
    obtain ⟨stored, after⟩ := Finset.mem_filter.mp membership
    refine Finset.mem_filter.mpr ⟨stored, fun first begun => ?_⟩
    exact lt_trans ((Finset.mem_filter.mp present).2 first begun) (after last rfl)
  · intro same
    rw [← same] at present
    exact lt_irrefl last ((Finset.mem_filter.mp present).2 last rfl)

theorem gets_listed (attended : Attended s c σ.deployment) {view : NodeView}
    {cursor : Option Ident} {views : List NodeView} {node : NodeRow}
    (here : σ.deployment.core.maintenance = .paging view cursor views)
    (stored : σ.deployment.core.db.nodes.get? view.node = some node) :
    Gets s c w σ fun σ' => σ'.deployment.core.maintenance = .scanning views := by
  generalize bound : (σ.deployment.beyond (view.node, node.volume) cursor).card = files
  induction files using Nat.strong_induction_on generalizing σ cursor node with
  | _ files inductionHypothesis =>
      obtain ⟨process, serves, _, _, _, same, _⟩ := process_available attended stored
      have listed : σ.deployment.listed s = some (process.inventory cursor) := by
        simp only [Deployment.listed, here, serves, Option.map_some]
      obtain ⟨paged, pages, tidied, there, _⟩ := maintenance_moves (w := w) attended
        (.page (process.inventory cursor).1 (process.inventory cursor).2)
        (.page view cursor views _ _) here rfl trivial listed trivial trivial
      have attended' := pages.attended attended
      obtain ⟨reviewed, reviews, kept, done⟩ := gets_reviewed (w := w) attended' there
      have attended'' := reviews.attended attended'
      cases more : (process.inventory cursor).2 with
      | false =>
          rw [more] at done
          obtain ⟨σ', visits, still, reached, _⟩ := maintenance_moves (w := w) attended'' .visit
            (.listed view _ views) done rfl trivial trivial trivial trivial
          exact .next pages tidied (.next reviews kept (.next visits still (.here reached)))
      | true =>
          obtain ⟨last, page, fewer⟩ := beyond_page same more
          rw [more, page] at done
          obtain ⟨σ', visits, still, reached, _⟩ := maintenance_moves (w := w) attended'' .visit
            (.turn view last views) done rfl trivial trivial trivial trivial
          have proceeds := (pages.trans reviews).trans visits
          obtain ⟨node', stored', _, volume⟩ := (proceeds.framed attended.reached).nodes.after stored
          have disks := ((tidied.trans kept).trans still).disks
          refine .next proceeds ((tidied.trans kept).trans still)
            (inductionHypothesis _ ?_ (proceeds.attended attended) reached stored' rfl)
          rw [← bound, volume]
          simpa only [Deployment.beyond, disks] using fewer

theorem visited_registered (attended : Attended s c σ.deployment) {view : NodeView}
    (visits : view ∈ σ.deployment.core.maintenance.views) :
    ∃ node, σ.deployment.core.db.nodes.get? view.node = some node := by
  have invariant := reachable_invariant (reachable_sound attended.reached).reached
  rcases invariant.maintenance.views view visits with ⟨node, stored, _⟩ | retired
  · exact ⟨node, stored⟩
  · exact invariant.consistent.registered _ _ retired

/-- A `stat` goes out. -/
theorem asks (attended : Attended s c σ.deployment) {view : NodeView}
    {check : Check} {left : List Check} {views : List NodeView}
    (here : σ.deployment.core.maintenance = .checks view (check :: left) views) :
    ∃ σ', Upkeep.Leads s c w σ σ' ∧ Tidied σ σ' ∧
      σ'.deployment.core.maintenance = .asking view check left views ∧
      σ'.deployment.core.db = σ.deployment.core.db := by
  have stepped : Metadata.metadata.step σ.deployment.core .checkAsk = some { σ.deployment.core with
      maintenance := .asking view check left views } := by
    simp only [Metadata.metadata, State.step, State.maintenanceStep, here]
  obtain ⟨proceeds, tidied⟩ := maintenance_acts (w := w) attended
    (show Chore.move c w .checkAsk = _ from rfl) trivial trivial stepped
    (here ▸ .ask view check left views) (by simp) (by simp) rfl rfl
  obtain ⟨same, _⟩ := σ.deployment.follow_frame s .checkAsk _
  exact ⟨_, proceeds, tidied, by rw [same], by rw [same]⟩

/-- The `stat` that is out is executed. -/
theorem delivers (attended : Attended s c σ.deployment) {view : NodeView}
    {check : Check} {left : List Check} {views : List NodeView} {remote : Remote}
    (here : σ.deployment.core.maintenance = .asking view check left views)
    (sent : σ.deployment.calls .reconcile = some ⟨remote, none⟩) :
    ∃ σ' valid, Upkeep.Leads s c w σ σ' ∧ Tidied σ σ' ∧
      σ'.deployment.core = σ.deployment.core ∧
      σ'.deployment.calls .reconcile = some ⟨remote, some valid⟩ := by
  have awaits : σ.deployment.awaited .reconcile =
      some ⟨view.node, .stat check.chunk check.length check.sha⟩ := by
    simp only [Deployment.awaited, here]
  have awaited : (σ.deployment.awaited .reconcile).isSome = true := by rw [awaits]; rfl
  obtain ⟨answer, call⟩ := reachable_dialed attended.reached _ _ awaits
  obtain ⟨rfl, _⟩ := Sent.mk.inj (Option.some.inj (sent.symm.trans call))
  obtain ⟨σ', proceeds, same, disks, answered, _⟩ := leads_deliver (w := w)
    (show Chore.move c w .checkDeliver = _ from rfl) awaited (by simp) sent
  rw [@Deployment.execute_stat_keeps s σ.deployment _ _ _ _ rfl] at disks
  exact ⟨σ', _, proceeds, .of_db (by rw [same]) (by rw [same]) disks (by rw [same]), same, answered⟩

theorem answers (attended : Attended s c σ.deployment) {view : NodeView}
    {check : Check} {left : List Check} {views : List NodeView} {remote : Remote} {valid : Bool}
    (here : σ.deployment.core.maintenance = .asking view check left views)
    (call : σ.deployment.calls .reconcile = some ⟨remote, some valid⟩) :
    ∃ σ', Upkeep.Leads s c w σ σ' ∧ Tidied σ σ' ∧
      σ'.deployment.core.maintenance = .judged view check valid left views ∧
      σ'.deployment.core.db = σ.deployment.core.db := by
  have stepped : Metadata.metadata.step σ.deployment.core (.checkAnswer valid) =
      some { σ.deployment.core with maintenance := .judged view check valid left views } := by
    simp only [Metadata.metadata, State.step, State.maintenanceStep, here]
  have answered : ∃ sent ∈ σ.deployment.calls .reconcile, sent.answer = some valid :=
    ⟨_, call, rfl⟩
  have allowed : σ.deployment.Allows s (.checkAnswer valid) := by
    rintro rfl
    exact answered
  obtain ⟨proceeds, tidied⟩ := maintenance_acts (w := w) attended
    (show Chore.move c w (.checkAnswer valid) = _ from rfl) answered allowed stepped
    (here ▸ .answer view check left views valid) (by simp) (by simp) rfl rfl
  obtain ⟨same, _⟩ := σ.deployment.follow_frame s (.checkAnswer valid) _
  exact ⟨_, proceeds, tidied, by rw [same], by rw [same]⟩

theorem gets_answered (attended : Attended s c σ.deployment) {view : NodeView}
    {check : Check} {left : List Check} {views : List NodeView}
    (here : σ.deployment.core.maintenance = .asking view check left views) :
    Gets s c w σ fun σ' => (∃ valid,
      σ'.deployment.core.maintenance = .judged view check valid left views) ∧
        σ'.deployment.core.db = σ.deployment.core.db := by
  have awaits : σ.deployment.awaited .reconcile =
      some ⟨view.node, .stat check.chunk check.length check.sha⟩ := by
    simp only [Deployment.awaited, here]
  obtain ⟨answer, call⟩ := reachable_dialed attended.reached _ _ awaits
  cases answer with
  | some valid =>
      obtain ⟨σ', proceeds, tidied, there, same⟩ := answers (w := w) attended here call
      exact ⟨σ', proceeds, tidied, ⟨valid, there⟩, same⟩
  | none =>
      obtain ⟨delivered, valid, delivery, kept, same, answered⟩ :=
        delivers (w := w) attended here call
      obtain ⟨σ', proceeds, tidied, there, still⟩ := answers (w := w) (delivery.attended attended)
        (same ▸ here) answered
      exact .next delivery kept ⟨σ', proceeds, tidied, ⟨valid, there⟩, by rw [still, same]⟩

/-- The verdict is written down. -/
theorem gets_reverified (attended : Attended s c σ.deployment) {view : NodeView}
    {check : Check} {valid : Bool} {left : List Check} {views : List NodeView}
    (here : σ.deployment.core.maintenance = .judged view check valid left views) :
    Gets s c w σ fun σ' => (σ'.deployment.core.maintenance = .checks view left views ∨
      σ'.deployment.core.maintenance = .idle) ∧
        ((check.chunk, view.node) ∈ σ.deployment.core.db.waiting → σ.deployment.Current view →
          (check.chunk, view.node) ∉ σ'.deployment.core.db.waiting) := by
  have consistent := (reachable_invariant (reachable_sound attended.reached).reached).consistent
  have acts : ∀ core, Metadata.metadata.step σ.deployment.core .reverify = some core →
      MaintenanceMove σ.deployment.core .reverify σ.deployment.core.maintenance core.maintenance
        core.db →
      core.workers = σ.deployment.core.workers → core.now = σ.deployment.core.now →
      ∃ σ', Upkeep.Leads s c w σ σ' ∧ Tidied σ σ' ∧ σ'.deployment.core = core := by
    intro core stepped moves workers now
    obtain ⟨proceeds, tidied⟩ := maintenance_acts (w := w) attended
      (show Chore.move c w .reverify = _ from rfl) trivial trivial stepped moves
      (by simp) (by simp) workers now
    exact ⟨_, proceeds, tidied, (σ.deployment.follow_frame s .reverify core).1⟩
  cases judged : σ.deployment.core.db.reverify view check valid with
  | ok db =>
      obtain ⟨σ', proceeds, tidied, same⟩ := acts { σ.deployment.core with
        db, maintenance := .checks view left views }
        (by simp only [Metadata.metadata, State.step, State.maintenanceStep, here, judged])
        (here ▸ .reverify view check valid left views db judged) rfl rfl
      refine ⟨σ', proceeds, tidied, .inl (by rw [same]), ?_⟩
      rintro - ⟨node, located, volume, inst⟩ membership
      obtain ⟨row, row', judgement⟩ :=
        Database.reverify_judged consistent located volume inst judged
      rw [same] at membership
      obtain ⟨found, stored, unverified⟩ := Database.mem_waiting.mp membership
      obtain rfl := Option.some.inj (judgement.after.symm.trans stored)
      have state := judgement.state.symm.trans unverified
      by_cases before : row.state = .unverified
      · cases valid <;> simp [before] at state
      · rw [if_neg before] at state
        exact before state
  | error failure =>
      obtain ⟨σ', proceeds, tidied, same⟩ := acts { σ.deployment.core with maintenance := .idle }
        (by simp only [Metadata.metadata, State.step, State.maintenanceStep, here, judged])
        (here ▸ .broken view check valid left views) rfl rfl
      refine ⟨σ', proceeds, tidied, .inr (by rw [same]), ?_⟩
      rintro waits ⟨node, located, _⟩ -
      obtain ⟨row, stored, _⟩ := Database.mem_waiting.mp waits
      simp only [Database.reverify, found, stored, Option.mem_def.mp located, bind, Except.bind]
        at judged
      split at judged <;> cases judged

theorem gets_checked (attended : Attended s c σ.deployment) {view : NodeView}
    {left : List Check} {views : List NodeView}
    (here : σ.deployment.core.maintenance = .checks view left views) :
    Gets s c w σ fun σ' => σ'.deployment.core.maintenance = .scanning views ∨
      σ'.deployment.core.maintenance = .idle := by
  induction left generalizing σ with
  | nil =>
      obtain ⟨node, stored⟩ := visited_registered attended
        (show view ∈ σ.deployment.core.maintenance.views by simp [here, Maintenance.views])
      obtain ⟨σ', visits, tidied, there, same⟩ := maintenance_moves (w := w) attended .visit
        (.checked view views) here rfl trivial trivial trivial trivial
      refine .next visits tidied ((gets_listed (visits.attended attended) there
        (by rw [same]; exact stored)).then (visits.attended attended) fun σ'' _ _ _ done => ?_)
      exact .here (.inl done)
  | cons check left inductionHypothesis =>
      obtain ⟨asked, asking, tidied, there, _⟩ := asks (w := w) attended here
      have attended' := asking.attended attended
      refine .next asking tidied ((gets_answered attended' there).then attended' ?_)
      rintro judged attended'' _ _ ⟨⟨valid, verdict⟩, _⟩
      refine (gets_reverified attended'' verdict).then attended'' ?_
      rintro σ' later _ _ ⟨next | idle, _⟩
      · exact inductionHypothesis later next
      · exact .here (.inr idle)

theorem gets_scanned (attended : Attended s c σ.deployment)
    {views : List NodeView} (here : σ.deployment.core.maintenance = .scanning views) :
    Gets s c w σ fun σ' => σ'.deployment.core.maintenance = .idle := by
  induction views generalizing σ with
  | nil =>
      obtain ⟨σ', proceeds, tidied, there, _⟩ := maintenance_moves (w := w) attended .visit
        .finish here rfl trivial trivial trivial trivial
      exact .next proceeds tidied (.here there)
  | cons view views inductionHypothesis =>
      obtain ⟨σ', visits, tidied, there, _⟩ := maintenance_moves (w := w) attended .visit
        (.visit view views) here rfl trivial trivial trivial trivial
      have attended' := visits.attended attended
      refine .next visits tidied ((gets_checked attended' there).then attended' ?_)
      rintro σ'' later _ _ (next | idle)
      · exact inductionHypothesis later next
      · exact .here idle

theorem gets_ended (attended : Attended s c σ.deployment) {view : NodeView}
    {left : List Check} {views : List NodeView}
    (here : σ.deployment.core.maintenance = .checks view left views ∨
      σ.deployment.core.maintenance = .idle) :
    Gets s c w σ fun σ' => σ'.deployment.core.maintenance = .idle := by
  rcases here with checks | idle
  · refine (gets_checked attended checks).then attended ?_
    rintro σ' later _ _ (next | idle)
    · exact gets_scanned later next
    · exact .here idle
  · exact .here idle

theorem gets_idle (attended : Attended s c σ.deployment) :
    Gets s c w σ fun σ' => σ'.deployment.core.maintenance = .idle := by
  cases here : σ.deployment.core.maintenance with
  | idle => exact .here here
  | maintained =>
      obtain ⟨σ', proceeds, tidied, there, _⟩ := maintenance_moves (w := w) attended .scan
        (.scan c) here rfl trivial trivial trivial trivial
      exact .next proceeds tidied (gets_scanned (proceeds.attended attended) there)
  | scanning views => exact gets_scanned attended here
  | checks view left views => exact gets_ended attended (.inl here)
  | asking view check left views =>
      refine (gets_answered attended here).then attended ?_
      rintro σ' later _ _ ⟨⟨valid, verdict⟩, _⟩
      exact (gets_reverified later verdict).then later fun σ'' still _ _ done =>
        gets_ended still done.1
  | judged view check valid left views =>
      exact (gets_reverified attended here).then attended fun σ' later _ _ done =>
        gets_ended later done.1
  | paging view cursor views =>
      obtain ⟨node, stored⟩ := visited_registered attended
        (show view ∈ σ.deployment.core.maintenance.views by simp [here, Maintenance.views])
      exact (gets_listed attended here stored).then attended fun σ' later _ _ done =>
        gets_scanned later done
  | listing view ids last more views =>
      refine (gets_reviewed attended here).then attended fun σ' later _ _ done => ?_
      cases more with
      | false =>
          obtain ⟨σ'', visits, still, reached, _⟩ := maintenance_moves (w := w) later .visit
            (.listed view last views) done rfl trivial trivial trivial trivial
          exact .next visits still (gets_scanned (visits.attended later) reached)
      | true =>
          cases last with
          | none =>
              obtain ⟨σ'', visits, still, reached, _⟩ := maintenance_moves (w := w) later .visit
                (.fault view views) done rfl trivial trivial trivial trivial
              exact .next visits still (.here reached)
          | some last =>
              obtain ⟨σ'', visits, still, reached, _⟩ := maintenance_moves (w := w) later .visit
                (.turn view last views) done rfl trivial trivial trivial trivial
              have attended' := visits.attended later
              obtain ⟨node, stored⟩ := visited_registered attended'
                (show view ∈ σ''.deployment.core.maintenance.views by
                  simp [reached, Maintenance.views])
              exact .next visits still ((gets_listed attended' reached stored).then attended'
                fun σ' later _ _ done => gets_scanned later done)

theorem unverifiedOn_ne_nil {db : Database} (consistent : Consistent db) {other : Ident}
    {nid : NodeId} (waits : (other, nid) ∈ db.waiting) : db.unverifiedOn nid ≠ [] := by
  obtain ⟨row, stored, unverified⟩ := Database.mem_waiting.mp waits
  obtain ⟨chunk, present⟩ := consistent.replicaChunk other nid row stored
  intro empty
  rw [Database.unverifiedOn, List.take_eq_nil_iff] at empty
  rcases empty with wrong | empty
  · cases wrong
  · have missed := List.filterMap_eq_nil_iff.mp empty ((other, nid), row)
      ((Table.mem_rows_iff _).mpr stored)
    simp [unverified, present] at missed

theorem waits_of_check {db : Database} {check : Check} {nid : NodeId}
    (checked : check ∈ db.unverifiedOn nid) : (check.chunk, nid) ∈ db.waiting := by
  obtain ⟨⟨⟨other, here⟩, row⟩, listed, selected⟩ :=
    List.mem_filterMap.mp (List.mem_of_mem_take checked)
  simp only at selected
  split at selected
  · next waits =>
      obtain ⟨chunk, _, rfl⟩ := Option.map_eq_some_iff.mp selected
      obtain ⟨rfl, unverified⟩ := waits
      exact Database.mem_waiting.mpr ⟨row, (Table.mem_rows_iff _).mp listed, unverified⟩
  · cases selected

theorem current_of_framed {κ κ' : Deployment} (framed : Framed κ κ') {view : NodeView}
    (current : κ.Current view) :
    κ'.Current view := by
  obtain ⟨node, located, volume, inst⟩ := current
  obtain ⟨node', located', sameInst, sameVolume⟩ := framed.nodes.after located
  exact ⟨node', located', sameVolume.trans volume, sameInst.trans inst⟩

theorem gets_fewer (attended : Attended s c σ.deployment)
    {views : List NodeView} (here : σ.deployment.core.maintenance = .scanning views)
    (current : ∀ view ∈ views, σ.deployment.Current view) {view : NodeView} (visits : view ∈ views)
    {other : Ident} (waits : (other, view.node) ∈ σ.deployment.core.db.waiting) :
    Gets s c w σ fun σ' => σ'.deployment.core.maintenance = .idle ∧
      ∃ key ∈ σ.deployment.core.db.waiting, key ∉ σ'.deployment.core.db.waiting := by
  induction views generalizing σ with
  | nil => cases visits
  | cons head rest inductionHypothesis =>
      have consistent := (reachable_invariant (reachable_sound attended.reached).reached).consistent
      obtain ⟨visited, visiting, tidied, there, same⟩ := maintenance_moves (w := w) attended .visit
        (.visit head rest) here rfl trivial trivial trivial trivial
      have attended' := visiting.attended attended
      cases found : σ.deployment.core.db.unverifiedOn head.node with
      | nil =>
          rw [found] at there
          have later : view ∈ rest := by
            refine List.mem_of_ne_of_mem ?_ visits
            rintro rfl
            exact unverifiedOn_ne_nil consistent waits found
          obtain ⟨paging, pages, kept, listing, _⟩ := maintenance_moves (w := w) attended' .visit
            (.checked head rest) there rfl trivial trivial trivial trivial
          have attended'' := pages.attended attended'
          obtain ⟨node, stored⟩ := visited_registered attended''
            (show head ∈ paging.deployment.core.maintenance.views by
              simp [listing, Maintenance.views])
          refine .next visiting tidied (.next pages kept
            ((gets_listed attended'' listing stored).then attended'' ?_))
          intro listed still proceeds last scanning
          have fewer := ((tidied.trans kept).trans last).waiting
          have framed := ((visiting.trans pages).trans proceeds).framed attended.reached
          by_cases remains : (other, view.node) ∈ listed.deployment.core.db.waiting
          · refine (inductionHypothesis still scanning (fun view membership =>
              current_of_framed framed (current view (List.mem_cons_of_mem _ membership))) later
              remains).then still ?_
            rintro σ' _ _ _ ⟨idle, key, before, after⟩
            exact .here ⟨idle, key, fewer before, after⟩
          · refine (gets_scanned still scanning).then still fun σ' _ _ end_ idle => ?_
            exact .here ⟨idle, _, waits, fun again => remains (end_.waiting again)⟩
      | cons check left =>
          rw [found] at there
          have queued : (check.chunk, head.node) ∈ σ.deployment.core.db.waiting :=
            waits_of_check (found ▸ List.mem_cons_self)
          obtain ⟨asked, asking, kept, out, unread⟩ := asks (w := w) attended' there
          have attended'' := asking.attended attended'
          refine .next visiting tidied (.next asking kept
            ((gets_answered attended'' out).then attended'' ?_))
          rintro judged still proceeds last ⟨⟨valid, verdict⟩, unchanged⟩
          have framed := ((visiting.trans asking).trans proceeds).framed attended.reached
          refine (gets_reverified still verdict).then still ?_
          rintro reverified again _ _ ⟨next, verified⟩
          have gone := verified (by rw [unchanged, unread, same]; exact queued)
            (current_of_framed framed (current head List.mem_cons_self))
          refine (gets_ended again next).then again fun σ' _ _ end_ idle => ?_
          exact .here ⟨idle, _, queued, fun remains => gone (end_.waiting remains)⟩

theorem Deployment.Prompt.alive {κ : Deployment} {node : NodeRow} (prompt : κ.Prompt node) :
    node.Alive c κ.core.now := by
  refine ⟨prompt.state, ?_⟩
  rw [prompt.heartbeat, sub_self]
  exact_mod_cast lt_of_lt_of_le Nat.two_pos c.suspectBounds.1

/-- When all nodes have just reported themselves, all of them are visited. -/
theorem mem_liveNodes {κ : Deployment}
    (prompt : ∀ nid node, κ.core.db.nodes.get? nid = some node → κ.Prompt node) {nid : NodeId}
    {node : NodeRow} (stored : κ.core.db.nodes.get? nid = some node) :
    ⟨nid, node.address, node.volume, node.inst⟩ ∈ κ.core.db.liveNodes c κ.core.now := by
  refine List.mem_map.mpr ⟨(nid, node), List.mem_filter.mpr ⟨(Table.mem_rows_iff _).mpr stored, ?_⟩,
    rfl⟩
  exact decide_eq_true (prompt nid node stored).alive

theorem current_liveNodes {κ : Deployment} {view : NodeView}
    (listed : view ∈ κ.core.db.liveNodes c κ.core.now) : κ.Current view := by
  obtain ⟨⟨nid, node⟩, membership, rfl⟩ := List.mem_map.mp listed
  exact ⟨node, (Table.mem_rows_iff _).mp (List.mem_filter.mp membership).1, rfl, rfl⟩

/-- Passes are made until no copy waits. -/
theorem gets_verified (attended : Attended s c σ.deployment) :
    ∃ σ', Upkeep.Leads s c w σ σ' ∧
      σ'.deployment.core.workers = σ.deployment.core.workers ∧
      σ'.deployment.core.maintenance = .idle ∧ σ'.deployment.core.db.waiting = ∅ := by
  generalize bound : σ.deployment.core.db.waiting.card = copies
  induction copies using Nat.strong_induction_on generalizing σ with
  | _ copies inductionHypothesis =>
      obtain ⟨idle, rests, tidied, resting⟩ := gets_idle (w := w) attended
      obtain ⟨maintained, maintains, kept, there, _⟩ := maintenance_moves (w := w)
        (rests.attended attended) .maintain (.maintain c) resting rfl trivial trivial trivial trivial
      have started := rests.trans maintains
      obtain ⟨beaten, beats, undisturbed, prompt⟩ := beat_all (w := w) (started.attended attended)
      have proceeds := started.trans beats
      have attended' := proceeds.attended attended
      have same : beaten.deployment.core.db.waiting = maintained.deployment.core.db.waiting := by
        simp only [Database.waiting, undisturbed.replicas]
      have fewer := (tidied.trans kept).waiting
      have workers := undisturbed.workers.trans (tidied.trans kept).workers
      rcases Finset.eq_empty_or_nonempty beaten.deployment.core.db.waiting with none | waits
      · obtain ⟨σ', ends, last, idle⟩ := gets_idle (w := w) attended'
        refine ⟨σ', proceeds.trans ends, last.workers.trans workers, idle, ?_⟩
        exact Finset.subset_empty.mp (none ▸ last.waiting)
      · obtain ⟨⟨other, nid⟩, waits⟩ := waits
        obtain ⟨scanned, scans, still, scanning, unread⟩ := maintenance_moves (w := w) attended' .scan
          (.scan c) (undisturbed.maintenance.trans there) rfl trivial trivial trivial trivial
        obtain ⟨row, stored, _⟩ := Database.mem_waiting.mp waits
        have consistent :=
          (reachable_invariant (reachable_sound attended'.reached).reached).consistent
        obtain ⟨node, located⟩ := consistent.replicaNode other nid row stored
        obtain ⟨verified, verifies, last, _, key, before, after⟩ :=
          gets_fewer (w := w) (scans.attended attended') scanning (fun view listed =>
            current_of_framed (scans.framed attended'.reached) (current_liveNodes listed))
            (mem_liveNodes prompt located) (by rw [unread]; exact waits)
        have reaches := (proceeds.trans scans).trans verifies
        rw [unread] at before
        have shrinks : verified.deployment.core.db.waiting ⊂ σ.deployment.core.db.waiting := by
          refine Finset.ssubset_iff_subset_ne.mpr ⟨?_, ?_⟩
          · exact Finset.Subset.trans (still.trans last).waiting (same ▸ fewer)
          · intro equal
            exact after (equal ▸ fewer (same ▸ before))
        obtain ⟨σ', more, others, idle, none⟩ := inductionHypothesis _
          (bound ▸ Finset.card_lt_card shrinks) (reaches.attended attended) rfl
        exact ⟨σ', reaches.trans more, others.trans ((still.trans last).workers.trans workers),
          idle, none⟩

end Maintenance

end FileServer.Cluster

import FileServer.Database.Migrations
import Mathlib.Data.List.Infix

/-!
# Upgrades

Runs of the migrations, interleaved and stopped anywhere, never record a version
that has not been applied, and a run that comes to its end leaves the store at
the last version.
-/

namespace FileServer.Migrations

open FileServer.Metadata FileServer.Relational FileServer.Transition

section Discipline

/-- What runs of the migrations rely on and guarantee. -/
def discipline (origin : Store) : Discipline Unit Query Rows Store Failure Unit where
  Valid scene := Valid origin scene.world
  Later scene later := Later origin scene.world later.world
  Allowed _ query scene := query.Permitted origin scene.world
  Issued _ _ := True
  Handled _ result scene := result = .ok () →
    ∀ migration ∈ migrations, ∀ statement ∈ migration.statements,
      Holds origin scene.world statement

theorem coherent {origin : Store} (consistent : origin.Consistent) :
    (discipline origin).Coherent (migrating origin) where
  refl _ := later_refl
  trans _ _ _ earlier later := fun statement held => later statement (earlier statement held)
  initially := consistent.valid
  performed _ query outcome _ valid permitted := serve_sound valid query outcome permitted
  stable _ _ _ _ later handled := fun finished migration known statement inside =>
    later statement (handled finished migration known statement inside)

variable {origin : Store} {scene : Scene Query Rows Store} {statement : Statement}
  {migration : Migration}

/-- What an answer says of the store it was read from. -/
theorem assured_q {query : Query} (post : Bool → Store → Prop)
    (permitted : query.Permitted origin scene.world)
    (known : ∀ outcome store rows, Valid origin store → Later origin scene.world store →
      (serve outcome query store).1 = some rows → post rows (serve outcome query store).2) :
    (discipline origin).Assured (migrating origin) () (q query)
      (Setting.onResult (fun rows scene => post rows scene.world) fun _ _ => True) scene := by
  intro later follows valid
  constructor
  · cases query with
    | execute statement => exact Permits.later permitted follows
    | selectVersion | showCharged => trivial
  · intro outcome
    show Setting.onResult _ _ ((serve outcome query later.world).1.elim _ _) _
    cases answered : (serve outcome query later.world).1 with
    | none => trivial
    | some rows => exact known outcome later.world rows valid follows answered

theorem assured_execute (permits : Permits origin scene.world statement) :
    (discipline origin).Assured (migrating origin) () (q (.execute statement))
      (Setting.onResult (fun _ later => Holds origin later.world statement ∧
        Later origin scene.world later.world) fun _ _ => True) scene := by
  refine assured_q (fun _ store => Holds origin store statement ∧ Later origin scene.world store)
    permits fun outcome store rows valid follows answered => ?_
  simp only [serve] at answered ⊢
  cases executed : store.execute statement with
  | none => simp [executed] at answered
  | some after =>
      obtain ⟨holds, later⟩ := holds_of_execute valid (permits.later follows) executed
      cases succeeds : outcome.succeeds with
      | false => simp [executed, succeeds] at answered
      | true => exact ⟨holds, fun other held => later other (follows other held)⟩

def Done (origin : Store) (migration : Migration) (store : Store) : Prop :=
  ∀ statement ∈ migration.statements, Holds origin store statement

theorem assured_apply (permits : Permits origin scene.world statement) :
    (discipline origin).Assured (migrating origin) () (apply statement)
      (Setting.onResult (fun _ later => Holds origin later.world statement ∧
        Later origin scene.world later.world) fun _ _ => True) scene := by
  have added : ∀ present later, Later origin scene.world later.world →
      (present = true → Holds origin later.world statement) →
      (discipline origin).Assured (migrating origin) ()
        (if present then pure () else do
          let _ ← q (.execute statement)
          pure ())
        (Setting.onResult (fun _ later => Holds origin later.world statement ∧
          Later origin scene.world later.world) fun _ _ => True) later := by
    intro present later follows there
    cases present with
    | true => exact ⟨there rfl, follows⟩
    | false =>
        refine Discipline.assured_bind.mpr ((assured_execute (permits.later follows)).mono ?_)
        intro result last held
        cases result with
        | error failure => trivial
        | ok rows => exact ⟨held.1, fun other here => held.2 other (follows other here)⟩
  by_cases column : statement = .addCharged
  · subst column
    rw [apply, if_pos rfl]
    refine Discipline.assured_bind.mpr ((assured_q (fun rows store => Later origin scene.world store ∧
      (rows = true → Holds origin store .addCharged))
      (show Query.Permitted origin scene.world .showCharged from trivial) ?_).mono ?_)
    · intro outcome store rows valid follows answered
      refine ⟨follows, fun present => ?_⟩
      simp only [serve, Option.ite_none_right_eq_some, Option.some.injEq] at answered
      exact answered.2.trans present
    · intro result later held
      cases result with
      | error failure => trivial
      | ok rows => exact added rows later held.1 held.2
  · rw [apply, if_neg column]
    exact added false scene later_refl (by simp)

theorem ordered : ∀ migration ∈ migrations, ∀ tail ∈ migration.statements.tails,
    ∀ statement ∈ tail.head?,
      (∀ version ∈ statement.version?, version = migration.version ∧
        ∀ other ∈ migration.statements, other.version? = none → other ∉ tail) ∧
      (statement = .updateCharged → migration.version = 2) := by
  decide

theorem versions_distinct : ∀ migration ∈ migrations, ∀ other ∈ migrations,
    other.version = migration.version → other = migration := by
  decide

/-- A statement may be executed once those before it have been. -/
theorem permits_of_suffix {store : Store} (known : migration ∈ migrations)
    (early : origin.recorded migration.version = false) {rest : List Statement}
    (tail : statement :: rest <:+ migration.statements)
    (before : ∀ other ∈ migration.statements, other ∉ statement :: rest →
      Holds origin store other) : Permits origin store statement := by
  obtain ⟨records, charges⟩ :=
    ordered migration known _ ((List.mem_tails _ _).mpr tail) statement rfl
  have recording : ∀ version, statement.version? = some version →
      origin.migrated.recorded version = true ∧ Applied origin version store := by
    intro version recorded
    obtain ⟨rfl, last⟩ := records version recorded
    constructor
    · simp only [migrations, List.mem_cons, List.not_mem_nil, or_false] at known
      rcases known with rfl | rfl <;> rfl
    · intro other inMigrations same statement inside silent
      obtain rfl := versions_distinct _ known _ inMigrations same
      exact before statement inside (last statement inside silent)
  cases statement with
  | insertIgnoreVersion version => exact recording version rfl
  | insertVersion version => exact recording version rfl
  | updateCharged =>
      rw [charges rfl] at early
      exact early
  | createTable | insertIgnoreAllocator | addCharged => trivial

theorem holds_recorded {store : Store} {version : Nat} (known : migration ∈ migrations)
    (inside : statement ∈ migration.statements) (records : statement.version? = some version)
    (recorded : store.recorded migration.version = true) : Holds origin store statement := by
  obtain ⟨front, rest, split⟩ := List.append_of_mem inside
  have tail : statement :: rest ∈ migration.statements.tails :=
    (List.mem_tails _ _).mpr ⟨front, split.symm⟩
  obtain ⟨rfl, _⟩ := (ordered migration known _ tail statement rfl).1 version records
  cases statement with
  | insertIgnoreVersion | insertVersion =>
      cases records
      exact recorded
  | createTable | insertIgnoreAllocator | addCharged | updateCharged => cases records

theorem assured_migrate (known : migration ∈ migrations) :
    (discipline origin).Assured (migrating origin) () (migrate migration)
      (Setting.onResult (fun _ later => Done origin migration later.world ∧
        Later origin scene.world later.world) fun _ _ => True) scene := by
  have executed : ∀ later, Later origin scene.world later.world →
      origin.recorded migration.version = false →
      (discipline origin).Assured (migrating origin) () (Program.each apply migration.statements)
        (Setting.onResult (fun _ later => Done origin migration later.world ∧
          Later origin scene.world later.world) fun _ _ => True) later := by
    intro later follows early
    refine Discipline.Assured.each (fun rest last => rest <:+ migration.statements ∧
      Later origin scene.world last.world ∧ ∀ statement ∈ migration.statements, statement ∉ rest →
        Holds origin last.world statement) ?_ ?_ ?_
    · rintro statement rest last ⟨tail, reached, before⟩
      refine (assured_apply (permits_of_suffix known early tail before)).mono ?_
      intro result final held
      cases result with
      | error failure => trivial
      | ok _ =>
          refine ⟨(List.suffix_cons statement rest).trans tail,
            fun other here => held.2 other (reached other here), ?_⟩
          intro other inside remains
          by_cases same : other = statement
          · exact same ▸ held.1
          · exact held.2 other (before other inside (by simp [same, remains]))
    · exact fun last ⟨_, reached, before⟩ =>
        ⟨fun statement inside => before statement inside List.not_mem_nil, reached⟩
    · exact ⟨List.suffix_refl _, follows, fun statement inside outside => absurd inside outside⟩
  refine Discipline.assured_bind.mpr
    ((assured_execute (show Permits origin scene.world (.createTable .schemaVersion) from
      trivial)).mono ?_)
  intro result later held
  cases result with
  | error failure => trivial
  | ok _ =>
      refine Discipline.assured_bind.mpr ((assured_q (fun rows store => Later origin later.world store ∧
        if rows = true then Done origin migration store
        else origin.recorded migration.version = false)
        (show Query.Permitted origin later.world (.selectVersion migration.version) from trivial)
        ?_).mono ?_)
      · intro outcome store rows valid follows answered
        refine ⟨follows, ?_⟩
        simp only [serve, Option.ite_none_right_eq_some, Option.some.injEq] at answered
        split
        · next present =>
            intro statement inside
            have recorded : store.recorded migration.version = true := answered.2.trans present
            cases silent : statement.version? with
            | none => exact valid.applied _ recorded migration known rfl statement inside silent
            | some version => exact holds_recorded known inside silent recorded
        · next absent =>
            by_contra early
            rw [Bool.not_eq_false] at early
            exact absent (answered.2.symm.trans (valid.kept _ early))
      · intro result last now
        cases result with
        | error failure => trivial
        | ok rows =>
            have reached : Later origin scene.world last.world :=
              fun other here => now.1 other (held.2 other here)
            cases rows with
            | true => exact ⟨by simpa using now.2, reached⟩
            | false => exact executed last reached (by simpa using now.2)

theorem assured_main :
    (discipline origin).Assured (migrating origin) () main ((discipline origin).Handled ()) scene := by
  refine Discipline.Assured.each (fun rest later => rest <:+ migrations ∧
    ∀ migration ∈ migrations, migration ∉ rest → Done origin migration later.world) ?_ ?_ ?_
  · rintro migration rest later ⟨tail, before⟩
    refine (assured_migrate (tail.subset List.mem_cons_self)).mono ?_
    intro result last held
    cases result with
    | error failure => exact fun finished => by cases finished
    | ok _ =>
        refine ⟨(List.suffix_cons migration rest).trans tail, fun other known remains => ?_⟩
        by_cases same : other = migration
        · exact same ▸ held.1
        · exact fun statement inside =>
            held.2 statement (before other known (by simp [same, remains]) statement inside)
  · exact fun last held _ migration known => held.2 migration known List.not_mem_nil
  · exact ⟨List.suffix_refl _, fun migration known outside => absurd known outside⟩

theorem kept {origin : Store} (consistent : origin.Consistent) :
    (discipline origin).Kept (migrating origin) where
  toCoherent := coherent consistent
  direct _ _ _ _ := trivial
  handled _ _ _ _ := assured_main
  ordered order := order.elim

theorem Valid.eq_migrated {store : Store} (valid : Valid origin store)
    (complete : ∀ migration ∈ migrations, Done origin migration store) :
    store = origin.migrated := by
  have first := complete distributed (by simp [migrations])
  have second := complete replicaAccounting (by simp [migrations])
  have created : store.created = origin.migrated.created := by
    funext name
    cases name <;> exact first (.createTable _) (by simp [distributed])
  have recorded : store.recorded = origin.migrated.recorded := by
    funext version
    rw [Bool.eq_iff_iff]
    refine ⟨valid.recorded version, fun last => ?_⟩
    simp only [Store.migrated, Bool.or_eq_true, beq_iff_eq] at last
    rcases last with (rfl | rfl) | early
    · exact first (.insertIgnoreVersion 1) (by simp [distributed])
    · exact second (.insertVersion 2) (by simp [replicaAccounting])
    · exact valid.kept version early
  have allocated := first .insertIgnoreAllocator (by simp [distributed])
  obtain ⟨column, replicas⟩ := second .updateCharged (by simp [replicaAccounting])
  cases store
  simp only at created recorded replicas
  subst created recorded replicas
  simp only [Holds] at allocated column
  subst allocated column
  rfl

end Discipline

section Alone

variable {origin store after : Store}

theorem perform_q (query : Query) :
    (q query).perform (serve {}) store =
      ((serve {} query store).1.elim (.error .runtimeError) .ok, (serve {} query store).2) := rfl

theorem perform_execute {statement : Statement} (executed : store.execute statement = some after) :
    (q (.execute statement)).perform (serve {}) store = (.ok false, after) := by
  simp [perform_q, serve, executed]

theorem perform_apply {statement : Statement} (unguarded : statement ≠ .addCharged)
    (executed : store.execute statement = some after) :
    (apply statement).perform (serve {}) store = (.ok (), after) := by
  rw [apply, if_neg unguarded]
  show ((q (.execute statement) >>= fun _ => pure ()).perform (serve {}) store) = _
  rw [Program.perform_bind, perform_execute executed]
  rfl

theorem perform_each {statements : List Statement} (unguarded : .addCharged ∉ statements)
    (executed : statements.foldlM Store.execute store = some after) :
    (Program.each apply statements).perform (serve {}) store = (.ok (), after) := by
  induction statements generalizing store with
  | nil =>
      cases executed
      rfl
  | cons statement rest inductionHypothesis =>
      simp only [List.foldlM_cons, Option.bind_eq_bind, Option.bind_eq_some_iff] at executed
      obtain ⟨next, first, others⟩ := executed
      simp only [List.mem_cons, not_or] at unguarded
      rw [Program.each, Program.perform_bind, perform_apply (Ne.symm unguarded.1) first]
      exact inductionHypothesis unguarded.2 others

/-- The tables are there, in whatever state the first migration was left. -/
theorem perform_distributed (valid : Valid origin store) :
    ∃ after, (migrate distributed).perform (serve {}) store = (.ok (), after) ∧
      after.created .replicas = true ∧ after.created .schemaVersion = true := by
  have created : store.execute (.createTable .schemaVersion) = some { store with
      created := Function.update store.created .schemaVersion true } := by
    simp [Store.execute, TableName.references]
  rw [migrate, Program.perform_bind, perform_execute created]
  simp only [Program.perform_bind, perform_q, serve]
  cases recorded : store.recorded 1 with
  | true =>
      have replicas := valid.applied 1 recorded distributed (by simp [migrations]) rfl
        (.createTable .replicas) (by simp [distributed]) rfl
      exact ⟨_, by simp [distributed, recorded]; rfl, by simpa [Holds] using replicas, by simp⟩
  | false =>
      obtain ⟨after, executed, tables⟩ : ∃ after, distributed.statements.foldlM Store.execute
          { store with created := Function.update store.created .schemaVersion true } =
            some after ∧ after.created .replicas = true ∧ after.created .schemaVersion = true := by
        simp [distributed, Store.execute, TableName.references, Function.update_apply]
      refine ⟨after, ?_, tables⟩
      have ran := perform_each (by decide) executed
      simpa [distributed, recorded] using ran

theorem perform_addCharged (replicas : store.created .replicas = true) :
    ∃ after, (apply .addCharged).perform (serve {}) store = (.ok (), after) ∧
      after.column = true ∧ after.created = store.created ∧ after.recorded = store.recorded := by
  rw [apply, if_pos rfl, Program.perform_bind]
  cases column : store.column with
  | true => exact ⟨store, by simp [perform_q, serve, replicas, column]; rfl, column, rfl, rfl⟩
  | false =>
      obtain ⟨after, executed, added⟩ : ∃ after, store.execute .addCharged = some after ∧
          after.column = true ∧ after.created = store.created ∧ after.recorded = store.recorded := by
        simp [Store.execute, replicas, column]
      refine ⟨after, ?_, added⟩
      simp only [perform_q, serve, replicas, column, and_self, if_true, Option.elim_some,
        Bool.false_eq_true, if_false, Program.perform_bind, executed]
      rfl

/-- The second migration continues wherever it was left. -/
theorem perform_replicaAccounting (replicas : store.created .replicas = true)
    (versions : store.created .schemaVersion = true) :
    ∃ after, (migrate replicaAccounting).perform (serve {}) store = (.ok (), after) := by
  have created : store.execute (.createTable .schemaVersion) = some store := by
    have same : Function.update store.created .schemaVersion true = store.created := by
      rw [← versions, Function.update_eq_self]
    simp [Store.execute, versions, same]
  rw [migrate, Program.perform_bind, perform_execute created]
  simp only [Program.perform_bind, perform_q, serve, versions, and_self, if_true, Option.elim_some]
  cases recorded : store.recorded replicaAccounting.version with
  | true => exact ⟨store, rfl⟩
  | false =>
      obtain ⟨added, ran, column, tables, recordings⟩ := perform_addCharged replicas
      obtain ⟨after, executed⟩ : ∃ after,
          [Statement.updateCharged, .insertVersion 2].foldlM Store.execute added = some after := by
        have unrecorded : store.recorded 2 = false := recorded
        simp [Store.execute, column, tables, recordings, replicas, versions, unrecorded]
      refine ⟨after, ?_⟩
      show (Program.each apply [.addCharged, .updateCharged, .insertVersion 2]).perform _ store = _
      rw [Program.each, Program.perform_bind, ran]
      exact perform_each (by decide) executed

/-- Undisturbed runs succeed, in whatever state the earlier ones were stopped. -/
theorem perform_main (valid : Valid origin store) :
    ∃ after, main.perform (serve {}) store = (.ok (), after) := by
  obtain ⟨middle, first, replicas, versions⟩ := perform_distributed valid
  obtain ⟨after, second⟩ := perform_replicaAccounting replicas versions
  refine ⟨after, ?_⟩
  show (Program.each migrate [distributed, replicaAccounting]).perform _ store = _
  simp only [Program.each, Program.perform_bind, first, second]
  rfl

end Alone

section Runs

variable {store : Store} {history : List (Event _ _)}
  {state : Interleaved Unit Empty Query Rows Store Failure Unit}

/-- The rows of two stores agree in all but their charges. -/
def SameReplicas (store other : Store) : Prop :=
  (store.replicas.mapRows fun _ => Replica.uncharged) =
    other.replicas.mapRows fun _ => Replica.uncharged

/-- All rows have the charge that the service relies on. -/
def Charged (store : Store) : Prop :=
  ∀ key row, store.replicas.get? key = some row → ∃ charged, row.charged = some charged ∧
    (⟨row.volume, row.state, charged⟩ : ReplicaRow).Classified

theorem charged_migrated (early : store.recorded 2 = false) : Charged store.migrated := by
  intro key row stored
  simp only [Store.migrated, early, Bool.false_eq_true, if_false, Table.get?_mapRows,
    Option.map_eq_some_iff] at stored
  obtain ⟨old, _, rfl⟩ := stored
  refine ⟨chargeOf old.state, rfl, ?_⟩
  constructor <;> cases here : old.state <;> simp [Replica.charge, chargeOf, here]

theorem Valid.sameReplicas {origin : Store} (valid : Valid origin store) :
    SameReplicas store origin := by
  have same := congrArg (fun table => table.mapRows fun _ => Replica.uncharged) valid.charges
  simp only [mapRows_mapRows] at same
  exact same

/-- However runs of the migrations are interleaved and wherever they are stopped,
a recorded version has been applied, no row changes but for its charge, a run
that comes to its end leaves the store at the last version, and a new one can
come to its end. -/
theorem migrations_converge (consistent : store.Consistent)
    (run : Run (migrating store).system history state) :
    (∀ version, state.scene.world.recorded version = true →
      Applied store version state.scene.world) ∧
    SameReplicas state.scene.world store ∧
    (store.recorded 2 = false → state.scene.world.recorded 2 = true → Charged state.scene.world) ∧
    (∀ job ∈ state.jobs, job.rest = .done (.ok ()) → state.scene.world = store.migrated) ∧
    ∃ last, (migrating store).system.Leads state last ∧
      last.jobs[state.jobs.length]? = some ⟨(), .done (.ok ())⟩ ∧
      last.scene.world = store.migrated := by
  have sound := Discipline.sound_of_run (kept consistent) run
  have valid : Valid store state.scene.world := sound.valid
  refine ⟨valid.applied, valid.sameReplicas, ?_, ?_, ?_⟩
  · intro early recorded key row stored
    have done := valid.applied 2 recorded replicaAccounting (by simp [migrations]) rfl .updateCharged
      (by simp [replicaAccounting]) rfl
    exact charged_migrated early key row (done.2 ▸ stored)
  · intro job membership finished
    have handled := sound.jobs job membership
    rw [finished] at handled
    exact valid.eq_migrated (handled rfl)
  · have started : (migrating store).system.Leads state
        { state with jobs := state.jobs ++ [⟨(), main⟩] } := ⟨[.request ()], rfl⟩
    have found : ({ state with jobs := state.jobs ++ [⟨(), main⟩] } :
        Interleaved Unit Empty Query Rows Store Failure Unit).jobs[state.jobs.length]? =
          some ⟨(), main⟩ := List.getElem?_concat_length
    obtain ⟨last, leads, finished, _⟩ := (migrating store).leads_alone {} found
    obtain ⟨after, succeeds⟩ := perform_main valid
    rw [show (migrating store).serve {} = serve {} from rfl, succeeds] at finished
    obtain ⟨_, lastRun, _⟩ := run.leads (.inl rfl) (started.trans leads)
    have sound := Discipline.sound_of_run (kept consistent) lastRun
    have handled := sound.jobs _ (List.mem_of_getElem? finished)
    exact ⟨last, started.trans leads, finished, sound.valid.eq_migrated (handled rfl)⟩

end Runs

section Sample

def released : Store where
  created := fun _ => true
  recorded := fun version => version == 1
  allocated := true
  column := false
  replicas := ⟨[((1, 1), ⟨5, .valid, none⟩), ((1, 2), ⟨6, .gone, none⟩)], by decide⟩

theorem released_consistent : released.Consistent := by
  intro version recorded migration known same statement inside silent
  obtain rfl : version = 1 := by simpa [released] using recorded
  simp only [migrations, List.mem_cons, List.not_mem_nil, or_false] at known
  rcases known with rfl | rfl
  · cases statement with
    | createTable | insertIgnoreAllocator => rfl
    | insertIgnoreVersion | insertVersion => cases silent
    | addCharged | updateCharged => simp [distributed] at inside
  · cases same

/-- Two runs have both found the column absent; one has added it and is stopped,
and the other fails to add it. -/
def halfwayMoves : List (Move Unit Empty Outcome) :=
  [.request (), .request ()] ++ List.replicate 5 (.advance 0 {}) ++
    List.replicate 5 (.advance 1 {}) ++ [.advance 0 {}, .advance 1 {}]

theorem halfway_enabled :
    ((migrating released).system.execute (migrating released).system.initial halfwayMoves).isSome := by
  decide +kernel

def halfway : Interleaved Unit Empty Query Rows Store Failure Unit :=
  ((migrating released).system.execute (migrating released).system.initial halfwayMoves).get
    halfway_enabled

theorem migrations_converge_halfway :
    halfway.scene.world.column = true ∧ halfway.scene.world.recorded 2 = false ∧
    ∃ last, (migrating released).system.Leads halfway last ∧
      last.jobs[halfway.jobs.length]? = some ⟨(), .done (.ok ())⟩ ∧
      last.scene.world = released.migrated := by
  have run := (migrating released).system.run halfwayMoves halfway_enabled
  exact ⟨by decide +kernel, by decide +kernel,
    (migrations_converge released_consistent run).2.2.2.2⟩

end Sample

end FileServer.Migrations

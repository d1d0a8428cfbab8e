import FileServer.Metadata.Charging
import FileServer.Transition.Alone

/-!
# The migrations of the database

`migrate.py` brings a database from any version to the last one.  Every
statement commits by itself, so a run can be stopped between any two of them,
and several runs can be under way.
-/

namespace FileServer.Migrations

open FileServer.Metadata FileServer.Relational FileServer.Transition

inductive TableName where
  | schemaVersion | allocator | nodes | objects | uploads | chunks | replicas | tasks | instances
  deriving DecidableEq

/-- The tables that its foreign keys refer to. -/
def TableName.references : TableName → List TableName
  | .uploads => [.objects]
  | .chunks => [.uploads]
  | .replicas => [.chunks, .nodes]
  | _ => []

inductive Statement where
  | createTable (name : TableName)
  | insertIgnoreAllocator
  | insertIgnoreVersion (version : Nat)
  | addCharged
  | updateCharged
  | insertVersion (version : Nat)
  deriving DecidableEq

def Statement.version? : Statement → Option Nat
  | .insertIgnoreVersion version | .insertVersion version => some version
  | _ => none

structure Migration where
  version : Nat
  statements : List Statement
  deriving DecidableEq

def distributed : Migration where
  version := 1
  statements := [
    .createTable .schemaVersion, .createTable .allocator, .insertIgnoreAllocator,
    .createTable .nodes, .createTable .objects, .createTable .uploads, .createTable .chunks,
    .createTable .replicas, .createTable .tasks, .createTable .instances,
    .insertIgnoreVersion 1]

def replicaAccounting : Migration where
  version := 2
  statements := [.addCharged, .updateCharged, .insertVersion 2]

/-- In the order of their files. -/
def migrations : List Migration := [distributed, replicaAccounting]

/-- A row of `ds_replicas`, which has a charge once the column is there. -/
structure Replica where
  volume : Ident
  state : ReplicaState
  charged : Option Charge
  deriving DecidableEq

/-- The `CASE` of the second migration. -/
def chargeOf : ReplicaState → Charge
  | .valid | .bad | .unverified | .deleting => .used
  | .gone => .none
  | _ => .reserved

def Replica.charge (row : Replica) : Replica := { row with charged := some (chargeOf row.state) }

def Replica.uncharged (row : Replica) : Replica := { row with charged := none }

structure Store where
  created : TableName → Bool
  /-- `ds_schema_version`. -/
  recorded : Nat → Bool
  /-- The row of `ds_allocator`. -/
  allocated : Bool
  /-- `ds_replicas` has the column `charged`. -/
  column : Bool
  replicas : Table (Ident × NodeId) Replica

namespace Store

/-- What a statement does; `none` is an error of the database. -/
def execute (store : Store) : Statement → Option Store
  | .createTable name =>
      if store.created name ∨ ∀ other ∈ name.references, store.created other then
        some { store with created := Function.update store.created name true }
      else none
  | .insertIgnoreAllocator =>
      if store.created .allocator then some { store with allocated := true } else none
  | .insertIgnoreVersion version =>
      if store.created .schemaVersion then
        some { store with recorded := Function.update store.recorded version true }
      else none
  | .addCharged =>
      if store.created .replicas ∧ !store.column then
        some { store with
          column := true
          replicas := store.replicas.mapRows fun _ row => { row with charged := some .reserved } }
      else none
  | .updateCharged =>
      if store.created .replicas ∧ store.column then
        some { store with replicas := store.replicas.mapRows fun _ => Replica.charge }
      else none
  | .insertVersion version =>
      if store.created .schemaVersion ∧ !store.recorded version then
        some { store with recorded := Function.update store.recorded version true }
      else none

end Store

inductive Query where
  | execute (statement : Statement)
  | selectVersion (version : Nat)
  | showCharged

/-- Whether there are rows; `none` is a `RuntimeError`. -/
abbrev Rows (_ : Query) := Option Bool

structure Outcome where
  succeeds : Bool := true
  /-- A statement whose answer is lost may have been executed. -/
  applied : Bool := false
  deriving Inhabited

def serve (outcome : Outcome) : Query → Store → Option Bool × Store
  | .execute statement, store =>
      match store.execute statement with
      | some after =>
          if outcome.succeeds then (some false, after)
          else (none, if outcome.applied then after else store)
      | none => (none, store)
  | .selectVersion version, store =>
      (if outcome.succeeds ∧ store.created .schemaVersion then some (store.recorded version)
        else none, store)
  | .showCharged, store =>
      (if outcome.succeeds ∧ store.created .replicas then some store.column else none, store)

inductive Failure where
  | runtimeError

abbrev Migrating (α : Type) := Program Query Rows Failure α

def q (query : Query) : Migrating Bool :=
  .send query fun rows => rows.elim (.error .runtimeError) .ok

def apply (statement : Statement) : Migrating Unit := do
  let present ← if statement = .addCharged then q .showCharged else pure false
  if present then pure ()
  else do
    let _ ← q (.execute statement)
    pure ()

def migrate (migration : Migration) : Migrating Unit := do
  let _ ← q (.execute (.createTable .schemaVersion))
  let recorded ← q (.selectVersion migration.version)
  if recorded then pure () else Program.each apply migration.statements

def main : Migrating Unit := Program.each migrate migrations

/-- Any number of runs, each stopped anywhere or not. -/
def migrating (store : Store) :
    Deployment Unit Empty Query Rows Outcome Store Failure Unit where
  serve
  handler _ := main
  refusal _ := ()
  front := Empty.elim
  lost _ := ()
  direct _ := true
  initial := store

def Store.migrated (store : Store) : Store where
  created := fun _ => true
  recorded := fun version => version == 1 || version == 2 || store.recorded version
  allocated := true
  column := true
  replicas := if store.recorded 2 then store.replicas
    else store.replicas.mapRows fun _ => Replica.charge

section Contract

variable (origin : Store)

def Holds (store : Store) : Statement → Prop
  | .createTable name => store.created name = true
  | .insertIgnoreAllocator => store.allocated = true
  | .insertIgnoreVersion version | .insertVersion version => store.recorded version = true
  | .addCharged => store.column = true
  | .updateCharged => store.column = true ∧ store.replicas = origin.migrated.replicas

def Applied (version : Nat) (store : Store) : Prop :=
  ∀ migration ∈ migrations, migration.version = version →
    ∀ statement ∈ migration.statements, statement.version? = none → Holds origin store statement

/-- What holds in any store that migrations reach. -/
structure Valid (store : Store) : Prop where
  applied : ∀ version, store.recorded version = true → Applied origin version store
  recorded : ∀ version, store.recorded version = true → origin.migrated.recorded version = true
  kept : ∀ version, origin.recorded version = true → store.recorded version = true
  untouched : origin.recorded 2 = true → store.replicas = origin.replicas
  charges : (store.replicas.mapRows fun _ => Replica.charge) =
    origin.replicas.mapRows fun _ => Replica.charge

def Later (store later : Store) : Prop :=
  ∀ statement, Holds origin store statement → Holds origin later statement

def Permits (store : Store) : Statement → Prop
  | .insertIgnoreVersion version | .insertVersion version =>
      origin.migrated.recorded version = true ∧ Applied origin version store
  | .updateCharged => origin.recorded 2 = false
  | _ => True

end Contract

/-- A recorded version has been applied. -/
def Store.Consistent (store : Store) : Prop :=
  ∀ version, store.recorded version = true → Applied store version store

section Effects

variable {origin store after : Store} {statement : Statement}

theorem mapRows_mapRows {Key Row : Type} {f g : Key → Row → Row} (table : Table Key Row) :
    (table.mapRows f).mapRows g = table.mapRows fun key row => g key (f key row) := by
  simp [Table.mapRows, Function.comp_def]

theorem Store.Consistent.valid (consistent : origin.Consistent) : Valid origin origin where
  applied := consistent
  recorded version recorded := by simp [Store.migrated, recorded]
  kept _ := id
  untouched _ := rfl
  charges := rfl

theorem Applied.later {version : Nat} (applied : Applied origin version store)
    (later : Later origin store after) : Applied origin version after :=
  fun migration known same statement inside silent =>
    later _ (applied migration known same statement inside silent)

theorem Permits.later (permits : Permits origin store statement)
    (later : Later origin store after) : Permits origin after statement := by
  cases statement with
  | insertIgnoreVersion | insertVersion => exact ⟨permits.1, permits.2.later later⟩
  | createTable | insertIgnoreAllocator | addCharged | updateCharged => exact permits

theorem Valid.column (valid : Valid origin store) (recorded : store.recorded 2 = true) :
    store.column = true :=
  valid.applied 2 recorded replicaAccounting (by simp [migrations]) rfl .addCharged
    (by simp [replicaAccounting]) rfl

inductive Executed (store : Store) : Statement → Store → Prop where
  | createTable (name) : Executed store (.createTable name)
      { store with created := Function.update store.created name true }
  | insertIgnoreAllocator : Executed store .insertIgnoreAllocator { store with allocated := true }
  | insertIgnoreVersion (version) : Executed store (.insertIgnoreVersion version)
      { store with recorded := Function.update store.recorded version true }
  | addCharged (absent : store.column = false) : Executed store .addCharged
      { store with
        column := true
        replicas := store.replicas.mapRows fun _ row => { row with charged := some .reserved } }
  | updateCharged (present : store.column = true) : Executed store .updateCharged
      { store with replicas := store.replicas.mapRows fun _ => Replica.charge }
  | insertVersion (version) : Executed store (.insertVersion version)
      { store with recorded := Function.update store.recorded version true }

theorem executed_of_execute (executed : store.execute statement = some after) :
    Executed store statement after := by
  cases statement with
  | createTable | insertIgnoreAllocator | insertIgnoreVersion | insertVersion =>
      simp only [Store.execute, Option.ite_none_right_eq_some, Option.some.injEq] at executed
      obtain ⟨_, rfl⟩ := executed
      constructor
  | addCharged =>
      simp only [Store.execute, Option.ite_none_right_eq_some, Option.some.injEq] at executed
      obtain ⟨⟨_, absent⟩, rfl⟩ := executed
      exact .addCharged (by simpa using absent)
  | updateCharged =>
      simp only [Store.execute, Option.ite_none_right_eq_some, Option.some.injEq] at executed
      obtain ⟨⟨_, present⟩, rfl⟩ := executed
      exact .updateCharged present

theorem later_record (version : Nat) : Later origin store
    { store with recorded := Function.update store.recorded version true } := by
  intro other held
  cases other with
  | insertIgnoreVersion another | insertVersion another =>
      by_cases same : another = version
      · simp [Holds, same]
      · simpa [Holds, same] using held
  | createTable | insertIgnoreAllocator | addCharged | updateCharged => exact held

theorem holds_of_execute (valid : Valid origin store) (permits : Permits origin store statement)
    (executed : store.execute statement = some after) :
    Holds origin after statement ∧ Later origin store after := by
  cases executed_of_execute executed with
  | createTable name =>
      refine ⟨Function.update_self .., fun other held => ?_⟩
      cases other with
      | createTable another =>
          by_cases same : another = name
          · simp [Holds, same]
          · simpa [Holds, same] using held
      | insertIgnoreAllocator | insertIgnoreVersion | addCharged | updateCharged | insertVersion =>
          exact held
  | insertIgnoreAllocator =>
      refine ⟨rfl, fun other held => ?_⟩
      cases other with
      | insertIgnoreAllocator => rfl
      | createTable | insertIgnoreVersion | addCharged | updateCharged | insertVersion =>
          exact held
  | addCharged absent =>
      refine ⟨rfl, fun other held => ?_⟩
      cases other with
      | addCharged => rfl
      | updateCharged => simp [held.1] at absent
      | createTable | insertIgnoreVersion | insertIgnoreAllocator | insertVersion => exact held
  | updateCharged present =>
      have done : (store.replicas.mapRows fun _ => Replica.charge) = origin.migrated.replicas := by
        have early : origin.recorded 2 = false := permits
        simp [Store.migrated, early, valid.charges]
      refine ⟨⟨present, done⟩, fun other held => ?_⟩
      cases other with
      | updateCharged => exact ⟨present, done⟩
      | createTable | insertIgnoreVersion | insertIgnoreAllocator | insertVersion | addCharged =>
          exact held
  | insertIgnoreVersion version => exact ⟨Function.update_self .., later_record version⟩
  | insertVersion version => exact ⟨Function.update_self .., later_record version⟩

theorem Valid.record (valid : Valid origin store) {version : Nat}
    (last : origin.migrated.recorded version = true) (applied : Applied origin version store) :
    Valid origin { store with recorded := Function.update store.recorded version true } := by
  have later : Later origin store
    { store with recorded := Function.update store.recorded version true } := later_record version
  refine ⟨?_, ?_, ?_, valid.untouched, valid.charges⟩
  · intro another here
    by_cases fresh : another = version
    · subst fresh
      exact applied.later later
    · simp only [Function.update_of_ne fresh] at here
      exact (valid.applied another here).later later
  · intro another here
    by_cases fresh : another = version
    · exact fresh ▸ last
    · simp only [Function.update_of_ne fresh] at here
      exact valid.recorded another here
  · exact fun another here => later (.insertVersion another) (valid.kept another here)

theorem valid_of_execute (valid : Valid origin store) (permits : Permits origin store statement)
    (executed : store.execute statement = some after) : Valid origin after := by
  have later := (holds_of_execute valid permits executed).2
  cases executed_of_execute executed with
  | createTable | insertIgnoreAllocator =>
      exact ⟨fun version here => (valid.applied version here).later later, valid.recorded,
        valid.kept, valid.untouched, valid.charges⟩
  | addCharged absent =>
      refine ⟨fun version here => (valid.applied version here).later later, valid.recorded,
        valid.kept, fun here => ?_, ?_⟩
      · simp [valid.column (valid.kept 2 here)] at absent
      · rw [mapRows_mapRows, ← valid.charges]
        rfl
  | updateCharged =>
      have early : origin.recorded 2 = false := permits
      refine ⟨fun version here => (valid.applied version here).later later, valid.recorded,
        valid.kept, by simp [early], ?_⟩
      rw [mapRows_mapRows, ← valid.charges]
      rfl
  | insertIgnoreVersion version => exact valid.record permits.1 permits.2
  | insertVersion version => exact valid.record permits.1 permits.2

def Query.Permitted (origin store : Store) : Query → Prop
  | .execute statement => Permits origin store statement
  | _ => True

theorem later_refl : Later origin store store := fun _ => id

theorem serve_sound (valid : Valid origin store) (query : Query) (outcome : Outcome)
    (permitted : query.Permitted origin store) :
    Valid origin (serve outcome query store).2 ∧ Later origin store (serve outcome query store).2 := by
  cases query with
  | selectVersion | showCharged => exact ⟨valid, later_refl⟩
  | execute statement =>
      cases executed : store.execute statement with
      | none =>
          simp only [serve, executed]
          exact ⟨valid, later_refl⟩
      | some after =>
          have done := valid_of_execute valid permitted executed
          have later := (holds_of_execute valid permitted executed).2
          simp only [serve, executed]
          split
          · exact ⟨done, later⟩
          · dsimp only
            split
            · exact ⟨done, later⟩
            · exact ⟨valid, later_refl⟩

end Effects

end FileServer.Migrations

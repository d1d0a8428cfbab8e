import FileServer.Metadata.Selection
import FileServer.Metadata.Tasks
import FileServer.Metadata.Maintenance
import FileServer.Transition.Run

/-!
# The metadata service as a transition system

A state holds the tables, the clock and every operation that is between two
transactions.  One action is one transaction, one remote call being issued or
answered, or the passing of time; every choice the environment makes is part
of the action.  A transaction that raises leaves the tables as they were.  A
request names its row by an identifier, or by any JSON value; a `confirm` names
an identifier, since no node accepts a ticket for anything else.
-/

namespace FileServer.Metadata

open FileServer.Transition

/-- A task thread of `Worker.run`. -/
inductive Worker where
  | idle
  | claimed (job : Job)
  | removing (job : Job) (deletion : Deletion)
  | waiting (job : Job) (deletion : Deletion)
  | removed (job : Job) (deletion : Deletion)
  | fetching (job : Job) (repair : Repair) (left : List Source)
  | fetched (job : Job) (repair : Repair) (sha : Sha)
  | putting (job : Job) (repair : Repair) (ticket : Claims)
  | stored (job : Job) (repair : Repair)
  | checking (job : Job) (repair : Repair)
  | verified (job : Job) (repair : Repair)
  | failing (job : Job) (reason : String)
  deriving DecidableEq

def Worker.job? : Worker → Option Job
  | .idle => none
  | .claimed job | .removing job _ | .waiting job _ | .removed job _ | .fetching job _ _
  | .fetched job _ _ | .putting job _ _ | .stored job _ | .checking job _ | .verified job _
  | .failing job _ => some job

/-- The maintenance thread; `views` are the nodes still to visit. -/
inductive Maintenance where
  | idle
  | maintained
  | scanning (views : List NodeView)
  | checks (view : NodeView) (left : List Check) (views : List NodeView)
  | asking (view : NodeView) (check : Check) (left : List Check) (views : List NodeView)
  | judged (view : NodeView) (check : Check) (valid : Bool) (left : List Check)
      (views : List NodeView)
  | paging (view : NodeView) (cursor : Option Ident) (views : List NodeView)
  | listing (view : NodeView) (ids : List Ident) (last : Option Ident) (more : Bool)
      (views : List NodeView)
  deriving DecidableEq

/-- `issued` are the identifiers drawn by `ident()` or reported by a node. -/
structure State where
  db : Database
  now : Time
  issued : Finset Ident
  beats : Nat → Option Beat
  confirms : Nat → Option Confirming
  workers : Nat → Worker
  maintenance : Maintenance

inductive Action where
  | tick (elapsed : Nat)
  | request (c : Config) (owner : String) (command : Command) (ident : Nat → Ident)
  | requestBy (c : Config) (e : StrictEngine) (request : Internal) (ident : Nat → Ident)
  | beat (i : Nat) (c : Config) (nid : NodeId) (inst volume : Ident) (capacity free : Int)
  | register (i : Nat) (c : Config)
  | dropBeat (i : Nat)
  | confirm (i : Nat) (c : Config) (upload : Ident) (owner : Option String) (seq : Int)
  | confirmAsk (i : Nat)
  | confirmStat (i : Nat)
  | confirmCommit (i : Nat) (c : Config)
  | dropConfirm (i : Nat)
  | claim (w : Nat) (c : Config) (token : Ident)
  | begin (w : Nat) (c : Config)
  | sendRemove (w : Nat)
  | removeDone (w : Nat)
  | fetch (w : Nat) (success : Bool)
  | sendPut (w : Nat) (c : Config)
  | putDone (w : Nat)
  | sendStat (w : Nat)
  | statDone (w : Nat)
  | commit (w : Nat) (c : Config)
  | raise (w : Nat) (reason : String)
  | fail (w : Nat)
  | crash (w : Nat)
  | maintain (c : Config)
  | scan (c : Config)
  | visit
  | checkAsk
  | checkAnswer (valid : Bool)
  | reverify
  | page (ids : List Ident) (more : Bool)
  | review (c : Config)
  | skipNode
  | stopMaintenance

namespace State

/-- Before the first service process starts. -/
def initial : State :=
  ⟨.empty, 0, ∅, fun _ => none, fun _ => none, fun _ => .idle, .idle⟩

/-- `ident()` never repeats an identifier. -/
def Fresh (σ : State) (ids : List Ident) : Prop :=
  ids.Nodup ∧ ∀ id ∈ ids, id ∉ σ.issued

instance (σ : State) (ids : List Ident) : Decidable (σ.Fresh ids) :=
  inferInstanceAs (Decidable (_ ∧ _))

def issue (σ : State) (ids : List Ident) : State :=
  { σ with issued := σ.issued ∪ ids.toFinset }

def setWorker (σ : State) (w : Nat) (worker : Worker) : State :=
  { σ with workers := Function.update σ.workers w worker }

/-- The tables after a transaction, which are the old ones when it raised. -/
def outcome {α : Type} (σ : State) (result : Attempt (α × Database)) : Database :=
  match result with
  | .ok (_, db) => db
  | .error _ => σ.db

/-- The first transaction of the job a thread has claimed. -/
def beginJob (σ : State) (c : Config) (w : Nat) (job : Job) : State :=
  match job.task.kind with
  | .delete =>
      match σ.db.deleteBegin c σ.now job with
      | .ok (deletion, db) => { σ with db }.setWorker w (.removing job deletion)
      | .error failure => σ.setWorker w (.failing job failure.message)
  | .repair =>
      match σ.db.repairBegin c σ.now job with
      | .ok (some repair, db) => { σ with db }.setWorker w (.fetching job repair repair.sources)
      | .ok (none, db) => { σ with db }.setWorker w .idle
      | .error failure => σ.setWorker w (.failing job failure.message)

def commitJob (σ : State) (c : Config) (w : Nat) : Option State :=
  match σ.workers w with
  | .removed job deletion =>
      match σ.db.deleteCommit σ.now job deletion with
      | .ok db => some ({ σ with db }.setWorker w .idle)
      | .error failure => some (σ.setWorker w (.failing job failure.message))
  | .verified job repair =>
      match σ.db.repairCommit c σ.now job repair with
      | .ok db => some ({ σ with db }.setWorker w .idle)
      | .error failure => some (σ.setWorker w (.failing job failure.message))
  | _ => none

/-- The maintenance thread moves on; `none` when the action does not fit. -/
def maintenanceStep (σ : State) : Action → Option State
  | .maintain c =>
      match σ.maintenance with
      | .idle => some { σ with db := σ.db.maintain c σ.now, maintenance := .maintained }
      | _ => none
  | .scan c =>
      match σ.maintenance with
      | .maintained => some { σ with maintenance := .scanning (σ.db.liveNodes c σ.now) }
      | _ => none
  | .visit =>
      match σ.maintenance with
      | .scanning [] => some { σ with maintenance := .idle }
      | .scanning (view :: views) =>
          some { σ with maintenance := .checks view (σ.db.unverifiedOn view.node) views }
      | .checks view [] views => some { σ with maintenance := .paging view none views }
      | .listing _ [] _ false views => some { σ with maintenance := .scanning views }
      | .listing view [] (some last) true views =>
          some { σ with maintenance := .paging view (some last) views }
      | .listing _ [] none true _ => some { σ with maintenance := .idle }
      | _ => none
  | .checkAsk =>
      match σ.maintenance with
      | .checks view (check :: left) views =>
          some { σ with maintenance := .asking view check left views }
      | _ => none
  | .checkAnswer valid =>
      match σ.maintenance with
      | .asking view check left views =>
          some { σ with maintenance := .judged view check valid left views }
      | _ => none
  | .reverify =>
      match σ.maintenance with
      | .judged view check valid left views =>
          match σ.db.reverify view check valid with
          | .ok db => some { σ with db, maintenance := .checks view left views }
          | .error _ => some { σ with maintenance := .idle }
      | _ => none
  | .page ids more =>
      match σ.maintenance with
      | .paging view _ views =>
          some { σ with
            issued := σ.issued ∪ ids.toFinset
            maintenance := .listing view ids ids.getLast? more views }
      | _ => none
  | .review c =>
      match σ.maintenance with
      | .listing view (cid :: ids) last more views =>
          some { σ with
            db := σ.db.reviewFile c σ.now view cid
            maintenance := .listing view ids last more views }
      | _ => none
  | .skipNode =>
      match σ.maintenance with
      | .checks _ _ views | .asking _ _ _ views | .judged _ _ _ _ views | .paging _ _ views
      | .listing _ _ _ _ views => some { σ with maintenance := .scanning views }
      | _ => none
  | .stopMaintenance => some { σ with maintenance := .idle }
  | _ => none

def workerStep (σ : State) : Action → Option State
  | .claim w c token =>
      match σ.workers w, σ.db.nextTask σ.now with
      | .idle, some task =>
          if σ.Fresh [token] then
            some (({ σ with db := σ.db.claim c σ.now task token }.issue [token]).setWorker w
              (.claimed ⟨task, token⟩))
          else none
      | _, _ => none
  | .begin w c =>
      match σ.workers w with
      | .claimed job => some (σ.beginJob c w job)
      | _ => none
  | .sendRemove w =>
      match σ.workers w with
      | .removing job deletion => some (σ.setWorker w (.waiting job deletion))
      | _ => none
  | .removeDone w =>
      match σ.workers w with
      | .waiting job deletion => some (σ.setWorker w (.removed job deletion))
      | _ => none
  | .fetch w success =>
      match σ.workers w with
      | .fetching job repair (_ :: left) =>
          match success, repair.sha with
          | true, some sha => some (σ.setWorker w (.fetched job repair sha))
          | true, none => none
          | false, _ => some (σ.setWorker w (.fetching job repair left))
      | _ => none
  | .sendPut w c =>
      match σ.workers w with
      | .fetched job repair sha =>
          some (σ.setWorker w (.putting job repair
            ⟨repair.upload, job.task.chunk, repair.length, sha, repair.target,
              repair.volume, repair.inst, σ.now + c.authTtl⟩))
      | _ => none
  | .putDone w =>
      match σ.workers w with
      | .putting job repair _ => some (σ.setWorker w (.stored job repair))
      | _ => none
  | .sendStat w =>
      match σ.workers w with
      | .stored job repair => some (σ.setWorker w (.checking job repair))
      | _ => none
  | .statDone w =>
      match σ.workers w with
      | .checking job repair => some (σ.setWorker w (.verified job repair))
      | _ => none
  | .commit w c => σ.commitJob c w
  | .raise w reason =>
      match σ.workers w, (σ.workers w).job? with
      | .failing _ _, _ => none
      | _, some job => some (σ.setWorker w (.failing job (reason.take 255).toString))
      | _, none => none
  | .fail w =>
      match σ.workers w with
      | .failing job reason =>
          some ({ σ with db := σ.db.failTask σ.now job reason }.setWorker w .idle)
      | _ => none
  | .crash w => some (σ.setWorker w .idle)
  | _ => none

def confirmStep (σ : State) : Action → Option State
  | .confirm i c upload owner seq =>
      match σ.confirms i, σ.db.confirmBegin c σ.now upload owner seq with
      | none, .ok op => some { σ with confirms := Function.update σ.confirms i (some op) }
      | none, .error _ => some σ
      | some _, _ => none
  | .confirmAsk i =>
      match σ.confirms i with
      | some op =>
          if op.left ≠ [] ∧ op.asked = false then
            some { σ with
              confirms := Function.update σ.confirms i (some { op with asked := true }) }
          else none
      | none => none
  | .confirmStat i =>
      match σ.confirms i with
      | some op =>
          if op.asked = true then
            some { σ with
              confirms := Function.update σ.confirms i
                (some { op with left := op.left.tail, asked := false }) }
          else none
      | none => none
  | .confirmCommit i c =>
      match σ.confirms i with
      | some op =>
          if op.left = [] then
            some { σ with
              db := σ.outcome (σ.db.confirmCommit c σ.now op)
              confirms := Function.update σ.confirms i none }
          else none
      | none => none
  | .dropConfirm i => some { σ with confirms := Function.update σ.confirms i none }
  | _ => none

/-- One action; `none` when it is not enabled. -/
def step (σ : State) (action : Action) : Option State :=
  match action with
  | .tick elapsed => some { σ with now := σ.now + elapsed }
  | .request c owner command ident =>
      if σ.Fresh (command.drawn c ident) then
        some ({ σ with
          db := σ.outcome (σ.db.dispatch c σ.now ident owner command) }.issue
            (command.drawn c ident))
      else none
  | .requestBy c e request ident =>
      if σ.Fresh (request.drawn c ident) then
        some ({ σ with
          db := σ.outcome (σ.db.dispatchBy e.toEngine c σ.now ident request) }.issue
            (request.drawn c ident))
      else none
  | .beat i c nid inst volume capacity free =>
      match σ.beats i, heartbeat c σ.now nid inst volume capacity free with
      | none, .ok beat => some { σ with beats := Function.update σ.beats i (some beat) }
      | none, .error _ => some σ
      | some _, _ => none
  | .register i c =>
      match σ.beats i with
      | some beat =>
          match σ.db.register c beat with
          | .ok db => some { σ with db, beats := Function.update σ.beats i none }
          | .error _ => some { σ with beats := Function.update σ.beats i none }
      | none => none
  | .dropBeat i => some { σ with beats := Function.update σ.beats i none }
  | .confirm .. | .confirmAsk _ | .confirmStat _ | .confirmCommit .. | .dropConfirm _ =>
      σ.confirmStep action
  | .claim .. | .begin .. | .sendRemove _ | .removeDone _ | .fetch .. | .sendPut .. | .putDone _
  | .sendStat _ | .statDone _ | .commit .. | .raise .. | .fail _ | .crash _ =>
      σ.workerStep action
  | .maintain _ | .scan _ | .visit | .checkAsk | .checkAnswer _ | .reverify | .page ..
  | .review _ | .skipNode | .stopMaintenance => σ.maintenanceStep action

end State

/-- The metadata service from empty tables. -/
def metadata : System State Action := ⟨State.initial, State.step⟩

theorem step_request {σ : State} {c : Config} {owner : String} {command : Command}
    {ident : Nat → Ident} {reply : Reply} {db : Database} (fresh : σ.Fresh (command.drawn c ident))
    (served : σ.db.dispatch c σ.now ident owner command = .ok (reply, db)) :
    metadata.step σ (.request c owner command ident) =
      some ({ σ with db }.issue (command.drawn c ident)) := by
  simp only [metadata, State.step, if_pos fresh, served, State.outcome]

section Installation

/-- An installation with one user, three nodes and two replicas. -/
def installation : Config where
  users := [("owner", "token")]
  nodes := [(1, "first:9000"), (2, "second:9000"), (3, "third:9000")]
  chunk := 4
  replicas := 2
  ttl := 1000
  authTtl := 2
  suspect := 3
  dead := 5
  repairWorkers := 1
  bandwidth := 1024
  lease := 40
  maxChunks := 8
  confirmFault := false
  responseFault := false
  chunkBounds := by decide
  replicasBounds := by decide
  ttlBounds := by decide
  authTtlBounds := by decide
  suspectBounds := by decide
  deadBounds := by decide
  repairWorkersBounds := by decide
  bandwidthBounds := by decide
  leaseBounds := by decide
  maxChunksBounds := by decide

/-- A heartbeat of a node's first process is received and registered. -/
def heartbeatActions (nid : NodeId) : List Action :=
  [.beat nid installation nid (100 + nid) (200 + nid) 100 100, .register nid installation]

/-- An object of one byte is uploaded to the first two nodes and published. -/
def uploadActions : List Action :=
  heartbeatActions 1 ++ heartbeatActions 2 ++ heartbeatActions 3 ++
    [.request installation "owner" (.init 1 "file") (1000 + ·),
      .request installation "owner" (.prepare 1001 0 (some 7)) id,
      .confirm 0 installation 1001 (some "owner") 0,
      .confirmAsk 0, .confirmStat 0, .confirmAsk 0, .confirmStat 0,
      .confirmCommit 0 installation,
      .request installation "owner" (.complete 1001) id]

def uploaded : State :=
  (metadata.execute metadata.initial uploadActions).get (by decide +kernel)

theorem uploaded_run : Run metadata (metadata.events metadata.initial uploadActions) uploaded :=
  metadata.run uploadActions _

/-- The first node falls silent and a repair of its copy reserves the third. -/
def repairActions : List Action :=
  uploadActions ++ [.tick 4] ++ heartbeatActions 2 ++ heartbeatActions 3 ++
    [.maintain installation, .stopMaintenance, .claim 0 installation 5000, .begin 0 installation]

def repairing : State :=
  (metadata.execute metadata.initial repairActions).get (by decide +kernel)

theorem repairing_run : Run metadata (metadata.events metadata.initial repairActions) repairing :=
  metadata.run repairActions _

end Installation

end FileServer.Metadata

import FileServer.Metadata.Selection
import FileServer.Metadata.Verification
import FileServer.Storage.Node

/-!
# The cluster

The metadata service together with the storage nodes it calls.  A request is
on its way until it is delivered, also after its sender has given up; the
process that runs on the node by then executes it in one step.  An answer is
used only for the call it belongs to.
-/

namespace FileServer.Cluster

open FileServer.Metadata FileServer.Relational FileServer.Storage FileServer.Transition

/-- A write authorization as a node reads it. -/
def authorization (claims : Claims) : Ticket :=
  ⟨some (.ident claims.upload), claims.chunk, claims.length, claims.sha, claims.node,
    claims.volume, claims.inst, claims.expires⟩

def claimed (ticket : Ticket) : Option Claims :=
  (ticket.upload.bind Value.ident?).map fun upload =>
    ⟨upload, ticket.chunk, ticket.length, ticket.sha, ticket.node, ticket.volume, ticket.inst,
      ticket.expires⟩

theorem claimed_of_put {digest : Bytes → Sha} {now : Time} {node node' : Node} {cid : Ident}
    {ticket : Ticket} {data : Bytes} (accepted : node.put digest now cid ticket data = .ok node') :
    ∃ claims, claimed ticket = some claims ∧ authorization claims = ticket := by
  obtain ⟨checked, _⟩ := Node.put_ok _ _ accepted
  simp only [Node.checkTarget, bind_eq_ok, require_eq_ok, found_eq_ok] at checked
  obtain ⟨_, _, _, _, value, named, _, _, spelled⟩ := checked
  obtain ⟨upload, identified⟩ := Option.isSome_iff_exists.mp spelled
  cases value <;> cases identified
  obtain ⟨upload, cid, length, sha, node, volume, inst, expires⟩ := ticket
  obtain rfl : upload = _ := named
  exact ⟨_, rfl, rfl⟩

inductive Message where
  | put (cid : Ident) (claims : Claims) (data : Bytes)
  | stat (cid : Ident) (length : Nat) (sha : Option Sha)
  | remove (cid inst volume : Ident)
  deriving DecidableEq

/-- A request to a node. -/
structure Remote where
  node : NodeId
  message : Message
  deriving DecidableEq

/-- A call of the metadata service; `answer` tells whether its request, once it
was executed, succeeded. -/
structure Sent where
  remote : Remote
  answer : Option Bool
  deriving DecidableEq

structure Report where
  node : NodeId
  inst : Ident
  volume : Ident
  capacity : Nat
  free : Nat
  deriving DecidableEq

/-- The node and the volume of the process that has an instance, its configured
capacity, and the size of each disk. -/
structure Site where
  digest : Bytes → Sha
  hosts : Ident → NodeId × Ident
  capacity : Ident → Nat
  size : NodeId × Ident → Nat

/-- `disks` are the chunk files of each node's volumes, `buffers` what the task
threads have fetched, `adrift` the requests nobody waits for and `tickets` the
authorizations handed out. -/
structure Deployment where
  core : State
  disks : NodeId × Ident → Table Ident Bytes
  running : NodeId → Option Ident
  started : Finset Ident
  calls : Verifier → Option Sent
  buffers : Nat → Bytes
  adrift : List Remote
  tickets : List Claims
  reports : List Report

inductive Move where
  | metadata (action : Action)
  | send (claims : Claims) (data : Bytes)
  | deliver (v : Verifier)
  | drift (k : Nat)
  | start (inst : Ident)
  | stop (nid : NodeId)
  | report (nid : NodeId)

namespace Deployment

/-- Before the first process starts. -/
def initial : Deployment :=
  ⟨.initial, fun _ => .empty, fun _ => none, ∅, fun _ => none, fun _ => [], [], [], []⟩

section Storage

variable (s : Site) (κ : Deployment)

def node (nid : NodeId) : Option Node :=
  (κ.running nid).map fun inst =>
    ⟨nid, (s.hosts inst).2, inst, s.capacity inst, κ.disks (nid, (s.hosts inst).2)⟩

/-- `Storage.dispatch` for one request. -/
def perform (now : Time) (node : Node) : Message → Attempt Node
  | .put cid claims data => do
      let node' ← node.put s.digest now cid (authorization claims) data
      require (node'.used ≤ s.size (node.nodeId, node.volume)) ⟨.internal, "internal service error"⟩
      return node'
  | .stat cid length sha => do
      let _ ← Node.read s.digest (node.files.get? cid) length sha
      return node
  | .remove cid inst volume => node.remove cid inst volume

/-- A request reaches its node. -/
def execute (remote : Remote) : Bool × Deployment :=
  match κ.node s remote.node with
  | none => (false, κ)
  | some node =>
      match perform s κ.core.now node remote.message with
      | .ok node' =>
          (true, { κ with
            disks := Function.update κ.disks (remote.node, node.volume) node'.files })
      | .error _ => (false, κ)

/-- The free bytes a process reports. -/
def free (node : Node) : Nat :=
  min (node.capacity - node.used) (s.size (node.nodeId, node.volume) - node.used)

end Storage

section Service

variable (s : Site) (κ : Deployment)

/-- The request of the call was executed and succeeded. -/
def Answered (v : Verifier) : Prop := ∃ sent ∈ κ.calls v, sent.answer = some true

instance (v : Verifier) : Decidable (κ.Answered v) :=
  inferInstanceAs (Decidable (∃ sent ∈ κ.calls v, sent.answer = some true))

/-- What a task thread reads from the source it has reached. -/
def fetched (w : Nat) : Option Bytes :=
  match κ.core.workers w with
  | .fetching job repair (source :: _) =>
      (κ.node s source.node).bind fun node =>
        (Node.read s.digest (node.files.get? job.task.chunk) repair.length repair.sha).toOption
  | _ => none

/-- The page of its files that a node lists. -/
def listed : Option (List Ident × Bool) :=
  match κ.core.maintenance with
  | .paging view cursor _ => (κ.node s view.node).map fun node => node.inventory cursor
  | _ => none

def Allows : Action → Prop
  | .removeDone w | .putDone w | .statDone w => κ.Answered (.worker w)
  | .confirmStat i => κ.Answered (.confirm i)
  | .checkAnswer valid => valid = true → κ.Answered .reconcile
  | .fetch w success => success = true → (κ.fetched s w).isSome
  | .page ids more => κ.listed s = some (ids, more)
  | .beat _ _ nid inst volume capacity free =>
      ∃ report ∈ κ.reports, report.node = nid ∧ report.inst = inst ∧ report.volume = volume ∧
        (report.capacity : Int) = capacity ∧ (report.free : Int) = free
  | _ => True

instance (action : Action) : Decidable (κ.Allows s action) := by
  unfold Allows
  split <;> infer_instance

/-- The requests of a call that were not delivered. -/
def pending (v : Verifier) : List Remote :=
  match κ.calls v with
  | some ⟨remote, none⟩ => [remote]
  | _ => []

/-- A new call leaves what the last one sent adrift. -/
def dial : Option (Verifier × Remote) → Deployment
  | none => κ
  | some (v, remote) =>
      { κ with
        calls := Function.update κ.calls v (some ⟨remote, none⟩)
        adrift := κ.adrift ++ κ.pending v }

def request (core : State) : Action → Option (Verifier × Remote)
  | .sendRemove w =>
      match core.workers w with
      | .waiting job deletion =>
          some (.worker w, ⟨deletion.node, .remove job.task.chunk deletion.inst deletion.volume⟩)
      | _ => none
  | .sendPut w _ =>
      match core.workers w with
      | .putting job repair ticket =>
          some (.worker w, ⟨repair.target, .put job.task.chunk ticket (κ.buffers w)⟩)
      | _ => none
  | .sendStat w =>
      match core.workers w with
      | .checking job repair =>
          some (.worker w, ⟨repair.target, .stat job.task.chunk repair.length repair.sha⟩)
      | _ => none
  | .confirmAsk i =>
      (core.confirms i).bind fun op => op.left.head?.map fun position =>
        (.confirm i, ⟨position.node, .stat op.chunk op.length (some op.sha)⟩)
  | .checkAsk =>
      match core.maintenance with
      | .asking view check _ _ =>
          some (.reconcile, ⟨view.node, .stat check.chunk check.length check.sha⟩)
      | _ => none
  | _ => none

def released : Action → List Claims
  | .request c owner command ident =>
      match κ.core.db.dispatch c κ.core.now ident owner command with
      | .ok (.prepared _ _ _ positions, _) => positions.map Position.authorization
      | _ => []
  | .requestBy c e asked ident =>
      match κ.core.db.dispatchBy e.toEngine c κ.core.now ident asked with
      | .ok (.prepared _ _ _ assigned, _) => assigned.filterMap fun entry => claimed entry.authorization
      | _ => []
  | _ => []

def filled : Action → Nat → Bytes
  | .fetch w true => Function.update κ.buffers w ((κ.fetched s w).getD [])
  | _ => κ.buffers

/-- The heartbeats that have not been received. -/
def unread : Action → List Report
  | .beat _ _ nid inst volume capacity free =>
      κ.reports.eraseP fun report =>
        report.node = nid ∧ report.inst = inst ∧ report.volume = volume ∧
          (report.capacity : Int) = capacity ∧ (report.free : Int) = free
  | _ => κ.reports

def follow (action : Action) (core : State) : Deployment :=
  let next := { κ with
    core
    buffers := κ.filled s action
    tickets := κ.tickets ++ κ.released action
    reports := κ.unread action }
  next.dial (κ.request core action)

end Service

/-- One step; `none` when it is not enabled. -/
def step (s : Site) (κ : Deployment) : Move → Option Deployment
  | .metadata action =>
      if κ.Allows s action then (κ.core.step action).map (κ.follow s action) else none
  | .send claims data =>
      if claims ∈ κ.tickets then
        some { κ with adrift := κ.adrift ++ [⟨claims.node, .put claims.chunk claims data⟩] }
      else none
  | .deliver v =>
      match κ.calls v with
      | some ⟨remote, none⟩ =>
          let (answer, next) := κ.execute s remote
          some { next with calls := Function.update κ.calls v (some ⟨remote, some answer⟩) }
      | _ => none
  | .drift k =>
      match κ.adrift[k]? with
      | some remote => some { (κ.execute s remote).2 with adrift := κ.adrift.eraseIdx k }
      | none => none
  | .start inst =>
      if inst ∉ κ.started ∧ κ.running (s.hosts inst).1 = none then
        some { κ with
          running := Function.update κ.running (s.hosts inst).1 (some inst)
          started := insert inst κ.started }
      else none
  | .stop nid => some { κ with running := Function.update κ.running nid none }
  | .report nid =>
      match κ.node s nid with
      | some node =>
          some { κ with
            reports := κ.reports ++ [⟨nid, node.inst, node.volume, node.capacity, free s node⟩] }
      | none => none

end Deployment

/-- The cluster from empty tables and disks. -/
def cluster (s : Site) : System Deployment Move := ⟨Deployment.initial, Deployment.step s⟩

def Move.delivers (κ : Deployment) : Move → Option Remote
  | .deliver v => (κ.pending v).head?
  | .drift k => κ.adrift[k]?
  | _ => none

inductive Takes (s : Site) (κ : Deployment) : Move → Deployment → Prop where
  | metadata (action core) (allowed : κ.Allows s action)
      (stepped : Metadata.metadata.step κ.core action = some core) :
      Takes s κ (.metadata action) (κ.follow s action core)
  | send (claims data) (held : claims ∈ κ.tickets) :
      Takes s κ (.send claims data)
        { κ with adrift := κ.adrift ++ [⟨claims.node, .put claims.chunk claims data⟩] }
  | deliver (v remote) (sent : κ.calls v = some ⟨remote, none⟩) :
      Takes s κ (.deliver v) { (κ.execute s remote).2 with
        calls := Function.update κ.calls v (some ⟨remote, some (κ.execute s remote).1⟩) }
  | drift (k remote) (sent : κ.adrift[k]? = some remote) :
      Takes s κ (.drift k) { (κ.execute s remote).2 with adrift := κ.adrift.eraseIdx k }
  | start (inst) (fresh : inst ∉ κ.started) (free : κ.running (s.hosts inst).1 = none) :
      Takes s κ (.start inst) { κ with
        running := Function.update κ.running (s.hosts inst).1 (some inst)
        started := insert inst κ.started }
  | stop (nid) : Takes s κ (.stop nid) { κ with running := Function.update κ.running nid none }
  | report (nid node) (runs : κ.node s nid = some node) :
      Takes s κ (.report nid) { κ with
        reports := κ.reports ++
          [⟨nid, node.inst, node.volume, node.capacity, Deployment.free s node⟩] }

theorem takes {s : Site} {κ κ' : Deployment} {move : Move}
    (stepped : (cluster s).step κ move = some κ') : Takes s κ move κ' := by
  have taken : κ.step s move = some κ' := stepped
  cases move with
  | metadata action =>
      simp only [Deployment.step] at taken
      split at taken
      · next allowed =>
          obtain ⟨core, reached, rfl⟩ := Option.map_eq_some_iff.mp taken
          exact .metadata action core allowed reached
      · cases taken
  | send claims data =>
      simp only [Deployment.step] at taken
      split at taken
      · next held =>
          cases taken
          exact .send claims data held
      · cases taken
  | deliver v =>
      simp only [Deployment.step] at taken
      split at taken
      · next remote sent =>
          cases taken
          exact .deliver v remote sent
      · cases taken
  | drift k =>
      simp only [Deployment.step] at taken
      split at taken
      · next remote sent =>
          cases taken
          exact .drift k remote sent
      · cases taken
  | start inst =>
      simp only [Deployment.step] at taken
      split at taken
      · next enabled =>
          cases taken
          exact .start inst enabled.1 enabled.2
      · cases taken
  | stop nid =>
      cases taken
      exact .stop nid
  | report nid =>
      simp only [Deployment.step] at taken
      split at taken
      · next node runs =>
          cases taken
          exact .report nid node runs
      · cases taken

section Installation

/-- One process on each of the three nodes, and disks of the given size. -/
def site (digest : Bytes → Sha) (size : Nat) : Site where
  digest := digest
  hosts := fun inst => (inst - 100, inst + 100)
  capacity := fun _ => 100
  size := fun _ => size

/-- A process reports itself and is registered. -/
def reportMoves (nid : NodeId) (free : Nat) : List Move :=
  [.report nid, .metadata (.beat nid installation nid (100 + nid) (200 + nid) 100 free),
    .metadata (.register nid installation)]

def roundMoves (free : Nat) : List Move :=
  reportMoves 1 free ++ reportMoves 2 free ++ reportMoves 3 free

/-- An object of one byte is uploaded to the first two nodes and published. -/
def uploadMoves (sha : Sha) (free : Nat) : List Move :=
  [.start 101, .start 102, .start 103] ++ roundMoves free ++
    [.metadata (.request installation "owner" (.init 1 "file") (1000 + ·)),
      .metadata (.request installation "owner" (.prepare 1001 0 (some sha)) id),
      .send ⟨1001, 1002, 1, sha, 1, 201, 101, 2⟩ [5],
      .send ⟨1001, 1002, 1, sha, 2, 202, 102, 2⟩ [5], .drift 0, .drift 0,
      .metadata (.confirm 0 installation 1001 (some "owner") 0),
      .metadata (.confirmAsk 0), .deliver (.confirm 0), .metadata (.confirmStat 0),
      .metadata (.confirmAsk 0), .deliver (.confirm 0), .metadata (.confirmStat 0),
      .metadata (.confirmCommit 0 installation),
      .metadata (.request installation "owner" (.complete 1001) id)]

end Installation

end FileServer.Cluster

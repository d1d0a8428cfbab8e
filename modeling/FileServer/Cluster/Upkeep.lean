import FileServer.Cluster.Calls

/-!
# Upkeep

The cluster while only its background work goes on: one maintenance thread and
one task thread of the service, the heartbeats of the registered processes, and
nodes that answer every call.  The task thread waits, before it writes a copy,
as long as the repair bandwidth asks for.
-/

namespace FileServer.Cluster

open FileServer.Metadata FileServer.Relational FileServer.Storage FileServer.Transition

namespace Deployment

section Copies

variable (s : Site) (κ : Deployment) (cid : Ident) (nid : NodeId)

/-- A `stat` of the chunk as it is recorded would succeed. -/
def Readable : Prop :=
  ∃ node ∈ κ.node s nid, ∃ chunk ∈ κ.core.db.chunks.get? cid,
    (Node.read s.digest (node.files.get? cid) chunk.length chunk.sha).toOption.isSome = true

instance : Decidable (κ.Readable s cid nid) := by
  unfold Readable
  infer_instance

/-- The node is registered as the maintenance thread read it. -/
def Current (view : NodeView) : Prop :=
  ∃ node ∈ κ.core.db.nodes.get? view.node, node.volume = view.volume ∧ node.inst = view.inst

instance (view : NodeView) : Decidable (κ.Current view) := by
  unfold Current
  infer_instance

/-- The verdict on a copy that the maintenance thread has in hand. -/
def verdict : Option Bool :=
  match κ.core.maintenance with
  | .asking view check _ _ =>
      if view.node = nid ∧ check.chunk = cid ∧ κ.Current view then
        (κ.calls .reconcile).bind Sent.answer
      else none
  | .judged view check valid _ _ =>
      if view.node = nid ∧ check.chunk = cid ∧ κ.Current view then some valid else none
  | _ => none

/-- The copy is valid, or its verification finds it so. -/
def Keeps : Prop :=
  ∃ row ∈ κ.core.db.replicas.get? (cid, nid), row.state = .valid ∨
    row.state = .unverified ∧ (κ.verdict cid nid).getD (κ.Readable s cid nid) = true

instance : Decidable (κ.Keeps s cid nid) := by
  unfold Keeps
  infer_instance

/-- A repair may choose the node, or has chosen it. -/
def Spare : Prop :=
  ∀ row ∈ κ.core.db.replicas.get? (cid, nid), row.state = .gone ∨ row.state = .reserved

instance : Decidable (κ.Spare cid nid) := by
  unfold Spare
  infer_instance

def nodeIds : List NodeId := κ.core.db.nodes.rows.map Prod.fst

/-- The nodes whose copies count or will count. -/
def kept : List NodeId := κ.nodeIds.filter fun nid => κ.Keeps s cid nid

/-- The nodes to which the chunk can be copied. -/
def spare : List NodeId := κ.nodeIds.filter fun nid => κ.Spare cid nid

end Copies

/-- A repair can copy the chunk: there is a copy to read, an earlier
reservation is intact, and the wait of the thread ends within its lease. -/
structure Copyable (s : Site) (c : Config) (κ : Deployment) (cid : Ident) (length : Nat) :
    Prop where
  source : ∃ nid ∈ κ.kept s cid, κ.Readable s cid nid
  charged : ∀ nid row, κ.core.db.replicas.get? (cid, nid) = some row → row.state = .reserved →
    row.charged = .reserved
  timely : length * c.repairWorkers ≤ (c.lease - 1) * c.bandwidth

/-- Enough copies count, or enough can be made. -/
def Recoverable (s : Site) (c : Config) (κ : Deployment) (cid : Ident) (length required : Nat) :
    Prop :=
  required ≤ (κ.kept s cid).length ∨
    required ≤ (κ.kept s cid).length + (κ.spare cid).length ∧ κ.Copyable s c cid length

def recordedBytes (κ : Deployment) : Nat := κ.core.db.chunks.sum fun _ chunk => chunk.length

/-- Every node is up, configured and has free capacity: its process is the one
registered, and holds twice what there is. -/
structure Available (s : Site) (c : Config) (κ : Deployment) : Prop where
  running : ∀ nid node, κ.core.db.nodes.get? nid = some node → κ.running nid = some node.inst
  configured : ∀ nid node, κ.core.db.nodes.get? nid = some node →
    ∃ address, c.nodes.lookup nid = some address
  room : ∀ nid node, κ.core.db.nodes.get? nid = some node →
    2 * κ.recordedBytes ≤ s.capacity node.inst ∧ 2 * κ.recordedBytes ≤ s.size (nid, node.volume) ∧
      s.capacity node.inst ≤ 2 ^ 60

theorem Available.of_rows {s : Site} {c : Config} {κ : Deployment}
    (rows : ∀ entry ∈ κ.core.db.nodes.rows, κ.running entry.1 = some entry.2.inst ∧
      (c.nodes.lookup entry.1).isSome = true ∧
      2 * κ.recordedBytes ≤ s.capacity entry.2.inst ∧
      2 * κ.recordedBytes ≤ s.size (entry.1, entry.2.volume) ∧
      s.capacity entry.2.inst ≤ 2 ^ 60) : κ.Available s c where
  running := fun _ _ stored => (rows _ ((Table.mem_rows_iff _).mpr stored)).1
  configured := fun _ _ stored =>
    Option.isSome_iff_exists.mp (rows _ ((Table.mem_rows_iff _).mpr stored)).2.1
  room := fun _ _ stored => (rows _ ((Table.mem_rows_iff _).mpr stored)).2.2

end Deployment

/-- What happens during the upkeep. -/
inductive Chore where
  | tick (elapsed : Nat)
  | report (nid : NodeId)
  | beat (i : Nat) (report : Report)
  | register (i : Nat)
  | maintain
  | scan
  | visit
  | checkAsk
  | checkDeliver
  | checkAnswer (valid : Bool)
  | reverify
  | page (ids : List Ident) (more : Bool)
  | review
  | claim (token : Ident)
  | begin
  | sendRemove
  | removeDone
  | fetch (success : Bool)
  | sendPut
  | putDone
  | sendStat
  | statDone
  | deliver
  | commit
  | raise (reason : String)
  | fail
  deriving DecidableEq

/-- The chore as a move of the cluster, by the task thread `w`. -/
def Chore.move (c : Config) (w : Nat) : Chore → Move
  | .tick elapsed => .metadata (.tick elapsed)
  | .report nid => .report nid
  | .beat i ⟨nid, inst, volume, capacity, free⟩ =>
      .metadata (.beat i c nid inst volume capacity free)
  | .register i => .metadata (.register i c)
  | .maintain => .metadata (.maintain c)
  | .scan => .metadata (.scan c)
  | .visit => .metadata .visit
  | .checkAsk => .metadata .checkAsk
  | .checkDeliver => .deliver .reconcile
  | .checkAnswer valid => .metadata (.checkAnswer valid)
  | .reverify => .metadata .reverify
  | .page ids more => .metadata (.page ids more)
  | .review => .metadata (.review c)
  | .claim token => .metadata (.claim w c token)
  | .begin => .metadata (.begin w c)
  | .sendRemove => .metadata (.sendRemove w)
  | .removeDone => .metadata (.removeDone w)
  | .fetch success => .metadata (.fetch w success)
  | .sendPut => .metadata (.sendPut w c)
  | .putDone => .metadata (.putDone w)
  | .sendStat => .metadata (.sendStat w)
  | .statDone => .metadata (.statDone w)
  | .deliver => .deliver (.worker w)
  | .commit => .metadata (.commit w c)
  | .raise reason => .metadata (.raise w reason)
  | .fail => .metadata (.fail w)

/-- `slept` is when the task thread began to wait. -/
structure Upkeep where
  deployment : Deployment
  slept : Time

namespace Upkeep

variable (s : Site) (c : Config) (w : Nat) (σ : Upkeep)

/-- The repair has read all its sources in vain. -/
def exhausted : Bool :=
  match σ.deployment.core.workers w with
  | .fetching _ _ [] => true
  | _ => false

/-- The thread has waited for its transfer. -/
def Rested : Prop :=
  match σ.deployment.core.workers w with
  | .fetched _ repair _ =>
      (repair.length * c.repairWorkers : Int) ≤ (σ.deployment.core.now - σ.slept) * c.bandwidth
  | _ => True

instance : Decidable (σ.Rested c w) := by
  unfold Rested
  split <;> infer_instance

/-- Only registered processes send heartbeats, calls end with their answers,
and a thread gives up for no other reason than a failure. -/
def Permits : Chore → Prop
  | .register i => ∀ beat ∈ σ.deployment.core.beats i,
      ∃ node ∈ σ.deployment.core.db.nodes.get? beat.node, node.inst = beat.inst
  | .checkDeliver => (σ.deployment.awaited .reconcile).isSome = true
  | .checkAnswer valid =>
      ∃ sent ∈ σ.deployment.calls .reconcile, sent.answer = some valid
  | .fetch success => (σ.deployment.fetched s w).isSome = success
  | .sendPut => σ.Rested c w
  | .deliver => (σ.deployment.awaited (.worker w)).isSome = true
  | .raise _ => σ.exhausted w = true ∨ (σ.deployment.awaited (.worker w)).isSome = true ∧
      ∃ sent ∈ σ.deployment.calls (.worker w), sent.answer = some false
  | _ => True

instance (chore : Chore) : Decidable (σ.Permits s c w chore) := by
  unfold Permits
  split <;> infer_instance

def step (chore : Chore) : Option Upkeep :=
  if σ.Permits s c w chore then
    (σ.deployment.step s (chore.move c w)).map fun after =>
      ⟨after, if chore = .fetch true then σ.deployment.core.now else σ.slept⟩
  else none

end Upkeep

/-- The upkeep that goes on from a state of the cluster. -/
def upkeep (s : Site) (c : Config) (w : Nat) (κ : Deployment) : System Upkeep Chore :=
  ⟨⟨κ, 0⟩, fun σ => σ.step s c w⟩

end FileServer.Cluster

import FileServer.Cluster.Chores
import FileServer.Metadata.Leases
import FileServer.Metadata.Room

/-!
# Copies and the chores

As long as too few copies of a chunk are healthy, no chore loses one that
counts, and only the end of a repair adds one.
-/

namespace FileServer.Cluster

open FileServer.Metadata FileServer.Relational FileServer.Storage FileServer.Transition

namespace Deployment

variable {s : Site} {κ κ' : Deployment} {cid : Ident} {target : NodeId}

/-- A step of a task thread that is not about the chunk. -/
theorem steady_worker (reached : Reachable (cluster s) κ) {w : Nat} {action : Action}
    {before after : Worker} {db : Database} {core : State}
    (moves : WorkerMove κ.core w action before after db)
    (stepped : Metadata.metadata.step κ.core action = some core) (result : core.db = db)
    (maintenance : core.maintenance = κ.core.maintenance) (aside : Aside cid κ.core.db db) :
    Steady s cid κ (κ.follow s action core) := by
  have other : ∀ i c, action ≠ .register i c := by
    cases moves <;> simp
  refine (Untouched.follow (reachable_sound reached).reached stepped other
    (result ▸ aside)).steady ?_ ?_
  · rw [(κ.follow_frame s action core).1, maintenance]
  · rw [follow_calls]
    split
    · next v remote sent =>
        rw [if_neg]
        rintro rfl
        rcases request_sends sent with ⟨_, wrong⟩ | ⟨_, asks⟩ | ⟨_, wrong, _⟩
        · cases wrong
        · exact worker_silent moves asks
        · cases wrong
    · rfl

theorem untouched_execute {remote : Remote} (calls : Verifier → Option Sent)
    (other : (∀ chunk claims data, remote.message = .put chunk claims data → chunk ≠ cid) ∧
      ∀ chunk inst volume, remote.message = .remove chunk inst volume → chunk ≠ cid) :
    Untouched cid κ { (κ.execute s remote).2 with calls } := by
  have executed := @executed s κ remote
  generalize (κ.execute s remote).1 = answer at executed
  generalize (κ.execute s remote).2 = after at executed ⊢
  cases executed with
  | keep => exact ⟨.refl cid _, .refl _, rfl, fun _ => rfl⟩
  | store inst chunk claims data runs message =>
      refine ⟨.refl cid _, .refl _, rfl, fun disk => ?_⟩
      simp only [Function.update_apply]
      split
      · next same =>
          rw [same, Table.get?_upsert, if_neg (Ne.symm (other.1 chunk claims data message))]
      · rfl
  | erase inst chunk runs message =>
      refine ⟨.refl cid _, .refl _, rfl, fun disk => ?_⟩
      simp only [Function.update_apply]
      split
      · next same =>
          rw [same, Table.get?_erase, if_neg (Ne.symm (other.2 chunk inst _ message))]
      · rfl

/-- What a step leaves alone that is about the chunk on one node. -/
structure Turned (cid : Ident) (target : NodeId) (κ κ' : Deployment) : Prop where
  running : κ'.running = κ.running
  nodes : SameNodes κ.core.db κ'.core.db
  chunks : κ'.core.db.chunks = κ.core.db.chunks
  known : κ'.core.db.chunkObject cid = κ.core.db.chunkObject cid
  maintenance : κ'.core.maintenance = κ.core.maintenance
  calls : κ'.calls .reconcile = κ.calls .reconcile
  rows : ∀ nid, nid ≠ target →
    κ'.core.db.replicas.get? (cid, nid) = κ.core.db.replicas.get? (cid, nid)
  files : ∀ nid volume, nid ≠ target →
    (κ'.disks (nid, volume)).get? cid = (κ.disks (nid, volume)).get? cid

theorem Keeps.registered {nid : NodeId} (keeps : κ.Keeps s cid nid)
    (consistent : Consistent κ.core.db) : nid ∈ κ.nodeIds := by
  obtain ⟨row, stored, _⟩ := keeps
  exact mem_nodeIds.mpr (consistent.replicaNode cid nid row stored)

def SameCharge (cid : Ident) (target : NodeId) (κ κ' : Deployment) : Prop :=
  (∀ row, κ'.core.db.replicas.get? (cid, target) = some row → row.state = .reserved →
    row.charged = .reserved) ↔ ∀ row, κ.core.db.replicas.get? (cid, target) = some row →
      row.state = .reserved → row.charged = .reserved

namespace Turned

variable (turned : Turned cid target κ κ')
include turned

theorem current (view : NodeView) : κ'.Current view ↔ κ.Current view := by
  simp only [Current, Option.mem_def]
  constructor
  · rintro ⟨node', stored, volume, inst⟩
    obtain ⟨node, before, sameInst, sameVolume⟩ := turned.nodes.before stored
    exact ⟨node, before, sameVolume.trans volume, sameInst.trans inst⟩
  · rintro ⟨node, stored, volume, inst⟩
    obtain ⟨node', after, sameInst, sameVolume⟩ := turned.nodes.after stored
    exact ⟨node', after, sameVolume.trans volume, sameInst.trans inst⟩

theorem verdict (nid : NodeId) : κ'.verdict cid nid = κ.verdict cid nid := by
  simp only [Deployment.verdict, turned.maintenance, turned.calls, turned.current]

theorem readable {nid : NodeId} (other : nid ≠ target) :
    κ'.Readable s cid nid ↔ κ.Readable s cid nid := by
  simp only [readable_iff, turned.running, turned.chunks, turned.files nid _ other]

theorem keeps {nid : NodeId} (other : nid ≠ target) :
    κ'.Keeps s cid nid ↔ κ.Keeps s cid nid := by
  have readable : (κ'.Readable s cid nid : Bool) = (κ.Readable s cid nid : Bool) :=
    decide_eq_decide.mpr (turned.readable other)
  simp only [Keeps, turned.rows nid other, turned.verdict, readable]

theorem spare {nid : NodeId} (other : nid ≠ target) : κ'.Spare cid nid ↔ κ.Spare cid nid := by
  simp only [Spare, turned.rows nid other]

theorem charged (charging : SameCharge cid target κ κ') : κ'.Charged cid ↔ κ.Charged cid := by
  constructor
  · intro all nid row stored reserved
    by_cases same : nid = target
    · subst same
      exact charging.mp (all nid) row stored reserved
    · rw [← turned.rows nid same] at stored
      exact all nid row stored reserved
  · intro all nid row stored reserved
    by_cases same : nid = target
    · subst same
      exact charging.mpr (all nid) row stored reserved
    · rw [turned.rows nid same] at stored
      exact all nid row stored reserved

theorem steady (before : κ.Spare cid target) (after : κ'.Spare cid target)
    (charging : SameCharge cid target κ κ') : Steady s cid κ κ' where
  running := turned.running
  nodes := turned.nodes
  chunks := turned.chunks
  known := turned.known
  keeps := by
    intro nid
    simp only [List.not_mem_nil, or_false]
    by_cases same : nid = target
    · subst same
      exact ⟨fun keeps => absurd after keeps.not_spare, fun keeps => absurd before keeps.not_spare⟩
    · exact turned.keeps same
  spare := by
    intro nid
    simp only [List.not_mem_nil, not_false_eq_true, and_true]
    by_cases same : nid = target
    · subst same
      exact ⟨fun _ => before, fun _ => after⟩
    · exact turned.spare same
  readable := by
    intro nid keeps
    refine turned.readable ?_
    rintro rfl
    exact keeps.not_spare before
  charged := turned.charged charging
  verified := by
    intro nid row stored unverified
    by_cases same : nid = target
    · subst same
      rcases after row stored with gone | reserved
      · simp [gone] at unverified
      · simp [reserved] at unverified
    · rw [turned.rows nid same] at stored
      exact ⟨row, stored, unverified⟩
  taken := by simp
  distinct := List.nodup_nil

theorem made (registered : target ∈ κ.nodeIds)
    (reserved : ∃ row, κ.core.db.replicas.get? (cid, target) = some row ∧ row.state = .reserved ∧
      row.charged = .reserved)
    (valid : ∃ row, κ'.core.db.replicas.get? (cid, target) = some row ∧ row.state = .valid) :
    Copies s cid [target] κ κ' := by
  obtain ⟨old, stored, state, charge⟩ := reserved
  obtain ⟨new, stored', state'⟩ := valid
  have before : κ.Spare cid target := by
    intro row here
    obtain rfl := Option.some.inj (stored.symm.trans here)
    exact .inr state
  refine ⟨turned.running, turned.nodes, turned.chunks, turned.known, ?_, ?_, ?_, ?_, ?_, ?_,
    List.nodup_singleton _⟩
  · intro nid
    simp only [List.mem_singleton]
    by_cases same : nid = target
    · subst same
      exact ⟨fun _ => .inr rfl, fun _ => ⟨new, stored', .inl state'⟩⟩
    · simp only [same, or_false, turned.keeps same]
  · intro nid
    simp only [List.mem_singleton]
    by_cases same : nid = target
    · subst same
      refine ⟨fun spare => ?_, fun other => absurd rfl other.2⟩
      rcases spare new stored' with gone | reserved
      · simp [state'] at gone
      · simp [state'] at reserved
    · simp only [same, not_false_eq_true, and_true, turned.spare same]
  · intro nid keeps
    refine turned.readable ?_
    rintro rfl
    exact keeps.not_spare before
  · refine turned.charged ⟨fun _ row here _ => ?_, fun _ row here reserved => ?_⟩
    · obtain rfl := Option.some.inj (stored.symm.trans here)
      exact charge
    · obtain rfl := Option.some.inj (stored'.symm.trans here)
      simp [state'] at reserved
  · intro nid row here unverified
    by_cases same : nid = target
    · subst same
      obtain rfl := Option.some.inj (stored'.symm.trans here)
      simp [state'] at unverified
    · rw [turned.rows nid same] at here
      exact ⟨row, here, unverified⟩
  · intro nid membership
    obtain rfl := List.mem_singleton.mp membership
    exact ⟨registered, before⟩

end Turned

theorem Turned.follow (reached : Reachable (cluster s) κ) {w : Nat} {action : Action}
    {before after : Worker} {db : Database} {core : State}
    (moves : WorkerMove κ.core w action before after db)
    (stepped : Metadata.metadata.step κ.core action = some core)
    (maintenance : core.maintenance = κ.core.maintenance)
    (chunks : core.db.chunks = κ.core.db.chunks)
    (known : core.db.chunkObject cid = κ.core.db.chunkObject cid)
    (rows : ∀ nid, nid ≠ target →
      core.db.replicas.get? (cid, nid) = κ.core.db.replicas.get? (cid, nid)) :
    Turned cid target κ (κ.follow s action core) := by
  obtain ⟨same, disks, running, _⟩ := κ.follow_frame s action core
  have other : ∀ i c, action ≠ .register i c := by
    cases moves <;> simp
  refine ⟨running, ?_, ?_, ?_, ?_, ?_, ?_, ?_⟩
  · rw [same]
    exact sameNodes_step (reachable_sound reached).reached stepped other
  · rw [same, chunks]
  · rw [same, known]
  · rw [same, maintenance]
  · rw [follow_calls]
    split
    · next v remote sent =>
        rw [if_neg]
        rintro rfl
        rcases request_sends sent with ⟨_, wrong⟩ | ⟨_, asks⟩ | ⟨_, wrong, _⟩
        · cases wrong
        · exact worker_silent moves asks
        · cases wrong
    · rfl
  · rw [same]
    exact rows
  · intro nid volume _
    rw [disks]

/-- A request about the chunk on one node is delivered. -/
theorem Turned.deliver {w : Nat} {remote : Remote} {sent : Option Sent}
    (others : ∀ nid volume, nid ≠ target → ((κ.execute s remote).2.disks (nid, volume)).get? cid =
      (κ.disks (nid, volume)).get? cid) :
    Turned cid target κ { (κ.execute s remote).2 with
      calls := Function.update κ.calls (.worker w) sent } := by
  refine ⟨?_, ?_, ?_, ?_, ?_, ?_, ?_, others⟩
  · rw [execute_frame]
  · rw [execute_frame]
    exact .refl _
  · rw [execute_frame]
  · rw [execute_frame]
  · rw [execute_frame]
  · dsimp only
    rw [Function.update_of_ne (by simp)]
  · rw [execute_frame]
    exact fun _ _ => rfl

def Leased (c : Config) (κ : Deployment) (job : Job) (since : Time) : Prop :=
  ∀ row, κ.core.db.tasks.get? job.task = some row → row.state = .running →
    row.token = some job.token → row.lease ≤ since + c.lease

structure Pursues (c : Config) (κ : Deployment) (cid : Ident) (length required : Nat) (job : Job)
    (repair : Repair) (since : Time) : Prop where
  spare : κ.Spare cid repair.target
  leased : κ.Leased c job since
  length : repair.length = length
  required : repair.required = required
  chunk : ∃ chunk, κ.core.db.chunks.get? cid = some chunk ∧ chunk.length = repair.length ∧
    chunk.sha = repair.sha

/-- A copy that counts can be read. -/
def Sourced (s : Site) (κ : Deployment) (cid : Ident) : Prop :=
  ∃ nid, κ.Keeps s cid nid ∧ κ.Readable s cid nid

def Found (s : Site) (c : Config) (cid : Ident) (length required : Nat) (κ : Deployment)
    (slept : Time) : Worker → Prop
  | .idle | .failing .. => True
  | .claimed job => κ.Leased c job κ.core.now
  | .removing .. | .waiting .. | .removed .. => False
  | .fetching job repair left =>
      κ.Pursues c cid length required job repair κ.core.now ∧
        ∀ source ∈ left, κ.Keeps s cid source.node
  | .fetched job repair _ =>
      κ.Pursues c cid length required job repair slept ∧ κ.Sourced s cid
  | .putting job repair _ | .stored job repair | .checking job repair | .verified job repair =>
      κ.Pursues c cid length required job repair slept ∧ κ.Sourced s cid ∧
        (length * c.repairWorkers : Int) ≤ (κ.core.now - slept) * c.bandwidth

section Found

variable {c : Config} {length required : Nat} {slept : Time}

def Runs (κ κ' : Deployment) : Prop :=
  ∀ key row, κ'.core.db.tasks.get? key = some row → row.state = .running →
    κ.core.db.tasks.get? key = some row

theorem Leased.later {job : Job} {since since' : Time} (leased : κ.Leased c job since)
    (runs : Runs κ κ') (later : since ≤ since') : κ'.Leased c job since' :=
  fun row stored running token =>
    le_trans (leased row (runs _ row stored running) running token) (Int.add_le_add_right later _)

theorem Pursues.steady {job : Job} {repair : Repair} {since since' : Time}
    (pursues : κ.Pursues c cid length required job repair since) (steady : Steady s cid κ κ')
    (runs : Runs κ κ') (later : since ≤ since') :
    κ'.Pursues c cid length required job repair since' where
  spare := (steady.spare _).mpr ⟨pursues.spare, by simp⟩
  leased := pursues.leased.later runs later
  length := pursues.length
  required := pursues.required
  chunk := by rw [steady.chunks]; exact pursues.chunk

theorem Sourced.steady (sourced : κ.Sourced s cid) (steady : Steady s cid κ κ') :
    κ'.Sourced s cid := by
  obtain ⟨nid, keeps, readable⟩ := sourced
  exact ⟨nid, (steady.keeps nid).mpr (.inl keeps), (steady.readable nid keeps).mpr readable⟩

theorem Found.steady {worker : Worker} (found : Found s c cid length required κ slept worker)
    (steady : Steady s cid κ κ') (runs : Runs κ κ') (later : κ.core.now ≤ κ'.core.now) :
    Found s c cid length required κ' slept worker := by
  have waited : ∀ amount : Int, amount ≤ (κ.core.now - slept) * c.bandwidth →
      amount ≤ (κ'.core.now - slept) * c.bandwidth := fun amount waits =>
    le_trans waits (mul_le_mul_of_nonneg_right (sub_le_sub_right later _) (Int.natCast_nonneg _))
  cases worker with
  | idle | failing => trivial
  | removing | waiting | removed => exact found
  | claimed job => exact found.later runs later
  | fetching job repair left =>
      obtain ⟨pursues, sources⟩ := found
      exact ⟨pursues.steady steady runs later, fun source listed =>
        (steady.keeps _).mpr (.inl (sources source listed))⟩
  | fetched job repair sha =>
      obtain ⟨pursues, sourced⟩ := found
      exact ⟨pursues.steady steady runs le_rfl, sourced.steady steady⟩
  | putting job repair | stored job repair | checking job repair | verified job repair =>
      obtain ⟨pursues, sourced, waits⟩ := found
      exact ⟨pursues.steady steady runs le_rfl, sourced.steady steady, waited _ waits⟩

end Found

end Deployment

/-- What the task thread has found if it works on the chunk. -/
def Upkeep.Engaged (s : Site) (c : Config) (w : Nat) (cid : Ident) (length required : Nat)
    (σ : Upkeep) : Prop :=
  ∀ job, (σ.deployment.core.workers w).job? = some job → job.task.chunk = cid →
    Deployment.Found s c cid length required σ.deployment σ.slept (σ.deployment.core.workers w)

/-- As many copies are healthy as there should be. -/
def Deployment.Enough (c : Config) (cid : Ident) (required : Nat) (κ : Deployment) : Prop :=
  required ≤ (Database.healthy c κ.core.now κ.core.db cid).length

/-- A chore keeps the copies, and makes one only where one can be made. -/
def Upkeep.Holds (s : Site) (c : Config) (w : Nat) (cid : Ident) (length required : Nat)
    (σ σ' : Upkeep) : Prop :=
  ∃ made, Deployment.Copies s cid made σ.deployment σ'.deployment ∧
    σ'.Engaged s c w cid length required ∧ (made ≠ [] → σ.deployment.Copyable s c cid length)

theorem running_kept {σ σ' : State} {action : Action} (reached : Reachable metadata σ)
    (stepped : metadata.step σ action = some σ') (claimless : ∀ w c token, action ≠ .claim w c token)
    {key : TaskKey} {row : TaskRow} (stored : σ'.db.tasks.get? key = some row)
    (running : row.state = .running) : σ.db.tasks.get? key = some row := by
  obtain ⟨focus, focuses, _, _, effect⟩ := reachable_effect reached stepped
  refine (effect.steps.running stored running).resolve_right ?_
  rintro rfl
  cases focuses with
  | request c owner command ident focus focused => cases focused
  | requestBy _ _ _ _ _ move =>
      cases move with
      | command _ _ _ _ _ focused => cases focused
  | claim w c token => exact claimless w c token rfl

theorem fetched_isSome {s : Site} {w : Nat} {κ : Deployment} {job : Job} {repair : Repair}
    {source : Source} {left : List Source}
    (here : κ.core.workers w = .fetching job repair (source :: left))
    (described : ∃ chunk, κ.core.db.chunks.get? job.task.chunk = some chunk ∧
      chunk.length = repair.length ∧ chunk.sha = repair.sha) :
    (κ.fetched s w).isSome = true ↔ κ.Readable s job.task.chunk source.node := by
  obtain ⟨chunk, stored, sized, fixed⟩ := described
  simp only [Deployment.fetched, here, Deployment.Readable, stored, Option.mem_def,
    Option.some.injEq, exists_eq_left', sized, fixed]
  cases κ.node s source.node <;> simp

section Steps

variable {s : Site} {c : Config} {w : Nat} {cid : Ident} {length required : Nat} {σ σ' : Upkeep}

/-- The task thread stays where it is, and so do the copies. -/
theorem holds_steady (engaged : σ.Engaged s c w cid length required)
    (steady : Deployment.Steady s cid σ.deployment σ'.deployment)
    (runs : Deployment.Runs σ.deployment σ'.deployment)
    (worker : σ'.deployment.core.workers w = σ.deployment.core.workers w)
    (slept : σ'.slept = σ.slept)
    (later : σ.deployment.core.now ≤ σ'.deployment.core.now) :
    σ.Holds s c w cid length required σ' := by
  refine ⟨[], steady, fun job working concerned => ?_, by simp⟩
  rw [worker] at working ⊢
  rw [slept]
  exact (engaged job working concerned).steady steady runs later

theorem holds_found (steady : Deployment.Steady s cid σ.deployment σ'.deployment)
    (found : Deployment.Found s c cid length required σ'.deployment σ'.slept
      (σ'.deployment.core.workers w)) : σ.Holds s c w cid length required σ' :=
  ⟨[], steady, fun _ _ _ => found, by simp⟩

theorem holds_foreign (reached : Reachable (cluster s) σ.deployment) {action : Action}
    {before after : Worker} {db : Database} {core : State} {slept : Time}
    (move : WorkerMove σ.deployment.core w action before after db)
    (stepped : Metadata.metadata.step σ.deployment.core action = some core) (result : core.db = db)
    (there : core.workers w = after)
    (maintenance : core.maintenance = σ.deployment.core.maintenance)
    (claimless : ∀ w c token, action ≠ .claim w c token)
    (apart : ∀ job, before.job? = some job → cid ≠ job.task.chunk) :
    σ.Holds s c w cid length required ⟨σ.deployment.follow s action core, slept⟩ := by
  refine ⟨[], Deployment.steady_worker reached move stepped result maintenance (move.aside apart),
    fun job working concerned => ?_, by simp⟩
  dsimp only at working
  rw [(σ.deployment.follow_frame s action core).1, there] at working
  rcases move.job working with same | ⟨c, claims, _⟩
  · exact absurd concerned.symm (apart job same)
  · exact absurd claims (claimless w c job.token)

theorem holds_claim (reached : Reachable (cluster s) σ.deployment) {token : Ident} {task : TaskKey}
    {core : State} {slept : Time}
    (move : WorkerMove σ.deployment.core w (.claim w c token) .idle (.claimed ⟨task, token⟩)
      (σ.deployment.core.db.claim c σ.deployment.core.now task token))
    (stepped : Metadata.metadata.step σ.deployment.core (.claim w c token) = some core)
    (result : core.db = σ.deployment.core.db.claim c σ.deployment.core.now task token)
    (there : core.workers w = .claimed ⟨task, token⟩)
    (maintenance : core.maintenance = σ.deployment.core.maintenance)
    (now : core.now = σ.deployment.core.now) :
    σ.Holds s c w cid length required ⟨σ.deployment.follow s (.claim w c token) core, slept⟩ := by
  obtain ⟨same, _⟩ := σ.deployment.follow_frame s (.claim w c token) core
  refine holds_found (Deployment.steady_worker reached move stepped result maintenance
    (move.aside (by rintro _ ⟨⟩))) ?_
  dsimp only
  rw [same, there]
  intro row stored running owned
  rw [same, result] at stored
  rw [same, now]
  simp only [Database.claim, Database.modifyTask, Table.get?_modify_self,
    Option.map_eq_some_iff] at stored
  obtain ⟨old, _, rfl⟩ := stored
  exact le_rfl

theorem holds_begin (tended : Tended s c cid length required σ.deployment) {job : Job}
    {repair : Repair} {db : Database} {core : State}
    (concerned : job.task.chunk = cid)
    (found : σ.deployment.Leased c job σ.deployment.core.now)
    (move : WorkerMove σ.deployment.core w (.begin w c) (.claimed job)
      (.fetching job repair repair.sources) db)
    (begun : σ.deployment.core.db.repairBegin c σ.deployment.core.now job = .ok (some repair, db))
    (stepped : Metadata.metadata.step σ.deployment.core (.begin w c) = some core)
    (result : core.db = db) (there : core.workers w = .fetching job repair repair.sources)
    (maintenance : core.maintenance = σ.deployment.core.maintenance)
    (now : core.now = σ.deployment.core.now) :
    σ.Holds s c w cid length required ⟨σ.deployment.follow s (.begin w c) core, σ.slept⟩ := by
  obtain ⟨same, _⟩ := σ.deployment.follow_frame s (.begin w c) core
  have undertaken := Database.repairBegin_undertaken begun
  have life := undertaken.life
  rw [concerned] at undertaken
  obtain ⟨chunk, upload, oid, object, known, published, sized, copies⟩ := tended.known
  obtain ⟨_, _, _, _, known', long, fixed, wanted⟩ := undertaken.known
  cases known.symm.trans known'
  obtain ⟨stored, _⟩ := (Database.chunkObject_eq_some _).mp known
  have turned : Deployment.Turned cid repair.target σ.deployment
      (σ.deployment.follow s (.begin w c) core) := by
    refine .follow tended.reached move stepped maintenance (by rw [result, life.chunks]) ?_
      (result ▸ undertaken.others)
    rw [result, Database.chunkObject, life.chunks, life.uploads, life.objects, Database.chunkObject]
  obtain ⟨row, after, state, fresh⟩ := undertaken.after
  have spare : (σ.deployment.follow s (.begin w c) core).Spare cid repair.target := by
    intro other present
    rw [same, result] at present
    obtain rfl := Option.some.inj (after.symm.trans present)
    exact .inr state
  have steady : Deployment.Steady s cid σ.deployment (σ.deployment.follow s (.begin w c) core) := by
    refine turned.steady (fun old before => (undertaken.before old before).imp_right And.left) spare
      ⟨fun charged old before reserved => ?_, fun charged other present reserved => ?_⟩
    · obtain ⟨_, kept⟩ := (undertaken.before old before).resolve_left (by simp [reserved])
      rw [same, result] at charged
      exact charged old kept reserved
    · rw [same, result] at present
      obtain rfl := Option.some.inj (after.symm.trans present)
      by_cases free : ∀ old, σ.deployment.core.db.replicas.get? (cid, repair.target) = some old →
          old.state = .gone
      · exact fresh free
      · simp only [not_forall] at free
        obtain ⟨old, before, held⟩ := free
        obtain ⟨reserved', kept⟩ := (undertaken.before old before).resolve_left held
        obtain rfl := Option.some.inj (after.symm.trans kept)
        exact charged row before reserved'
  refine holds_found steady ?_
  dsimp only
  rw [same, there]
  refine ⟨⟨spare, ?_, long.trans sized, wanted.trans copies, chunk, ?_, long.symm, fixed.symm⟩, ?_⟩
  · intro row stored running token
    rw [same, result, undertaken.tasks] at stored
    rw [same, now]
    exact found row stored running token
  · rw [same, result, life.chunks]
    exact stored
  · intro source listed
    rw [undertaken.sources] at listed
    obtain ⟨row, _, stored, _, valid, _⟩ :=
      Database.mem_healthy.mp (List.mem_map_of_mem (f := Source.node) listed)
    exact (steady.keeps _).mpr (.inl ⟨row, stored, .inl valid⟩)

theorem holds_commit (tended : Tended s c cid length required σ.deployment) {job : Job}
    {repair : Repair} {db : Database} {core : State} (concerned : job.task.chunk = cid)
    (found : Deployment.Found s c cid length required σ.deployment σ.slept (.verified job repair))
    (move : WorkerMove σ.deployment.core w (.commit w c) (.verified job repair) .idle db)
    (committed : σ.deployment.core.db.repairCommit c σ.deployment.core.now job repair = .ok db)
    (stepped : Metadata.metadata.step σ.deployment.core (.commit w c) = some core)
    (result : core.db = db) (there : core.workers w = .idle)
    (maintenance : core.maintenance = σ.deployment.core.maintenance) :
    σ.deployment.Enough c cid required ∨
      σ.Holds s c w cid length required ⟨σ.deployment.follow s (.commit w c) core, σ.slept⟩ := by
  obtain ⟨same, _⟩ := σ.deployment.follow_frame s (.commit w c) core
  have life := move.life
  obtain ⟨pursues, sourced, waited⟩ := found
  obtain ⟨_, node, replica, copied, fenced, _, _, located, _, _, stored, reserved, charged, outcome,
    rfl⟩ := Database.repairCommit_ok committed
  rw [concerned] at stored outcome
  rcases outcome with ⟨enough, _⟩ | ⟨_, settled⟩
  · rw [pursues.required] at enough
    exact .inl enough
  refine .inr ⟨[repair.target], ?_, fun _ working => ?_, fun _ => ⟨?_, ?_, ?_⟩⟩
  · have rows : ∀ nid, core.db.replicas.get? (cid, nid) = if nid = repair.target then
        some { replica with state := .valid, charged := .used }
        else σ.deployment.core.db.replicas.get? (cid, nid) := by
      intro nid
      rw [result, settled, Database.settle_eq]
      simp only [Database.modifyTask]
      split
      · next here =>
          subst here
          simp [stored]
      · next other => exact Table.get?_modify_of_ne _ _ (by simp [other])
    have turned : Deployment.Turned cid repair.target σ.deployment
        (σ.deployment.follow s (.commit w c) core) := by
      refine .follow tended.reached move stepped maintenance (by rw [result, life.chunks]) ?_
        fun nid other => (rows nid).trans (if_neg other)
      rw [result, Database.chunkObject, life.chunks, life.uploads, life.objects,
        Database.chunkObject]
    refine turned.made (Deployment.mem_nodeIds.mpr ⟨node, located⟩)
      ⟨replica, stored, reserved, charged⟩
      ⟨{ replica with state := .valid, charged := .used }, ?_, rfl⟩
    rw [same]
    exact (rows _).trans (if_pos rfl)
  · dsimp only at working
    rw [same, there] at working
    cases working
  · obtain ⟨nid, keeps, readable⟩ := sourced
    exact ⟨nid, Deployment.mem_kept.mpr ⟨keeps.registered tended.consistent, keeps⟩, readable⟩
  · intro nid row present waiting
    obtain rfl := tended.consistent.single cid nid repair.target row replica tended.published present
      stored waiting reserved
    obtain rfl := Option.some.inj (stored.symm.trans present)
    exact charged
  · obtain ⟨row, leased, token, running, early⟩ := fenced
    have bound := pursues.leased row leased running token
    have lasting : σ.deployment.core.now - σ.slept ≤ (c.lease : Int) - 1 :=
      Int.le_sub_one_of_lt (sub_lt_iff_lt_add'.mpr (lt_of_lt_of_le early bound))
    have within := le_trans waited (mul_le_mul_of_nonneg_right lasting (Int.natCast_nonneg _))
    have leases : 1 ≤ c.lease :=
      le_trans (Nat.le_add_right_of_le (by decide)) c.leaseBounds.1
    zify [leases]
    exact within

theorem holds_concerned (tended : Tended s c cid length required σ.deployment) {action : Action}
    {before after : Worker} {db : Database} {core : State} {slept : Time} {job : Job}
    (working : before.job? = some job) (concerned : job.task.chunk = cid)
    (found : Deployment.Found s c cid length required σ.deployment σ.slept before)
    (here : σ.deployment.core.workers w = before)
    (move : WorkerMove σ.deployment.core w action before after db) (configured : Configured c action)
    (allowed : σ.deployment.Allows s action)
    (stepped : Metadata.metadata.step σ.deployment.core action = some core) (result : core.db = db)
    (there : core.workers w = after)
    (maintenance : core.maintenance = σ.deployment.core.maintenance)
    (now : core.now = σ.deployment.core.now)
    (rested : action = .sendPut w c → σ.Rested c w)
    (sleeps : action = .fetch w true ∧ slept = σ.deployment.core.now ∨
      action ≠ .fetch w true ∧ slept = σ.slept) :
    σ.deployment.Enough c cid required ∨
      σ.Holds s c w cid length required ⟨σ.deployment.follow s action core, slept⟩ := by
  obtain ⟨same, _⟩ := σ.deployment.follow_frame s action core
  obtain ⟨chunk, upload, oid, object, known, published, sized, copies⟩ := tended.known
  -- most steps leave the tables alone
  have steady : Aside cid σ.deployment.core.db db →
      Deployment.Steady s cid σ.deployment (σ.deployment.follow s action core) :=
    Deployment.steady_worker tended.reached move stepped result maintenance
  have still : db = σ.deployment.core.db → ∀ {worker : Worker},
      Deployment.Found s c cid length required σ.deployment slept worker →
      Deployment.Found s c cid length required (σ.deployment.follow s action core) slept worker := by
    intro unchanged worker found
    refine found.steady (steady (unchanged ▸ .refl cid _)) (fun key row stored _ => ?_) ?_
    · rw [same, result, unchanged] at stored
      exact stored
    · rw [same, now]
  have holds : db = σ.deployment.core.db →
      Deployment.Found s c cid length required σ.deployment slept after →
      σ.Holds s c w cid length required ⟨σ.deployment.follow s action core, slept⟩ := by
    intro unchanged found
    have worker : (σ.deployment.follow s action core).core.workers w = after := by
      rw [same, there]
    refine holds_found (steady (unchanged ▸ .refl cid _)) ?_
    dsimp only
    rw [worker]
    exact still unchanged found
  have awake : action ≠ .fetch w true → slept = σ.slept := fun other =>
    (sleeps.resolve_left fun fetches => other fetches.1).2
  cases move with
  | claim => cases working
  | deleteBegin d job deletion db deletes begun =>
      obtain rfl := Option.some.inj working
      cases configured
      obtain ⟨_, _, _, _, _, guarded, _⟩ := Database.deleteBegin_ok begun
      rw [concerned] at guarded
      obtain ⟨_, _, healthy⟩ := guarded _ known (by simp [published])
      rw [← copies]
      exact .inl healthy
  | repairBegin d job repair db repairs begun =>
      obtain rfl := Option.some.inj working
      cases configured
      obtain rfl := awake (by simp)
      exact .inr (holds_begin tended concerned found (.repairBegin c job repair db repairs begun)
        begun stepped result there maintenance now)
  | repairExit d job db repairs begun =>
      obtain rfl := Option.some.inj working
      cases configured
      obtain ⟨_, _, _, _, stored, owned, located, _, outcome⟩ := Database.repairBegin_ok begun
      rw [concerned] at stored outcome
      have known' := (Database.chunkObject_eq_some σ.deployment.core.db).mpr
        ⟨stored, owned, rfl, located⟩
      cases known.symm.trans known'
      rcases outcome with ⟨enough, _⟩ | ⟨_, _, _, _, _, _, wrong⟩
      · rw [← copies]
        exact .inl enough
      · cases wrong
  | sendRemove | removeDone | deleteCommit => exact found.elim
  | fetched job repair source left sha fixed =>
      obtain rfl := Option.some.inj working
      obtain rfl : slept = σ.deployment.core.now := by simpa using sleeps
      obtain ⟨pursues, sources⟩ := found
      refine .inr (holds rfl ⟨pursues, source.node, sources source List.mem_cons_self, ?_⟩)
      have read := allowed rfl
      rw [fetched_isSome here (concerned ▸ pursues.chunk), concerned] at read
      exact read
  | lost job repair source left =>
      obtain rfl := awake (by simp)
      obtain ⟨pursues, sources⟩ := found
      exact .inr (holds rfl ⟨pursues, fun other listed => sources other (List.mem_cons_of_mem _ listed)⟩)
  | sendPut d job repair sha =>
      cases configured
      obtain rfl := awake (by simp)
      obtain ⟨pursues, sourced⟩ := found
      have waits := rested rfl
      simp only [Upkeep.Rested, here, pursues.length] at waits
      exact .inr (holds rfl ⟨pursues, sourced, waits⟩)
  | putDone | sendStat | statDone =>
      obtain rfl := awake (by simp)
      exact .inr (holds rfl found)
  | repairCommit d job repair db committed =>
      obtain rfl := Option.some.inj working
      cases configured
      obtain rfl := awake (by simp)
      exact holds_commit tended concerned found (.repairCommit c job repair db committed) committed
        stepped result there maintenance
  | fail job reason =>
      refine .inr (holds_found (steady (.modifyTask cid _ _ _)) ?_)
      dsimp only
      rw [same, there]
      trivial
  | refuse | abort | raise | crash => exact .inr (holds rfl trivial)

theorem steady_answer_worker (reached : Reachable (cluster s) σ.deployment)
    (engaged : σ.Engaged s c w cid length required)
    (awaits : (σ.deployment.awaited (.worker w)).isSome = true) {remote : Remote}
    (sent : σ.deployment.calls (.worker w) = some ⟨remote, none⟩) :
    Deployment.Steady s cid σ.deployment { (σ.deployment.execute s remote).2 with
      calls := Function.update σ.deployment.calls (.worker w)
        (some ⟨remote, some (σ.deployment.execute s remote).1⟩) } := by
  obtain ⟨awaited, awaits⟩ := Option.isSome_iff_exists.mp awaits
  obtain ⟨answer, call⟩ := reachable_dialed reached _ _ awaits
  obtain ⟨rfl, _⟩ := Sent.mk.inj (Option.some.inj (sent.symm.trans call))
  have apart : (∀ chunk claims data, remote.message = .put chunk claims data → chunk ≠ cid) →
      (∀ chunk inst volume, remote.message = .remove chunk inst volume → chunk ≠ cid) →
      Deployment.Steady s cid σ.deployment { (σ.deployment.execute s remote).2 with
        calls := Function.update σ.deployment.calls (.worker w)
          (some ⟨remote, some (σ.deployment.execute s remote).1⟩) } := fun puts removes =>
    (@Deployment.untouched_execute s _ cid _ _ ⟨puts, removes⟩).steady
      (by rw [Deployment.execute_frame])
      (by simp only [Function.update_of_ne (show Verifier.reconcile ≠ .worker w by simp)])
  simp only [Deployment.awaited] at awaits
  split at awaits
  · next job deletion here =>
      cases awaits
      refine apart (by simp) ?_
      rintro _ _ _ ⟨⟩ concerned
      have found := engaged job (by rw [here]; rfl) concerned
      rw [here] at found
      exact found
  · next job repair ticket here =>
      cases awaits
      by_cases concerned : job.task.chunk = cid
      · have found := engaged job (by rw [here]; rfl) concerned
        rw [here] at found
        obtain ⟨pursues, _⟩ := found
        refine (Deployment.Turned.deliver fun nid volume other => ?_).steady pursues.spare (by
          rw [Deployment.execute_frame]
          exact pursues.spare) (by rw [Deployment.execute_frame]; exact .rfl)
        have executed := @Deployment.executed s σ.deployment
          ⟨repair.target, .put job.task.chunk ticket (σ.deployment.buffers w)⟩
        generalize (σ.deployment.execute s _).1 = answer at executed
        generalize (σ.deployment.execute s _).2 = after at executed ⊢
        cases executed with
        | keep => rfl
        | store =>
            dsimp only
            rw [Function.update_of_ne (by simp [other])]
        | erase _ _ _ message => cases message
      · refine apart ?_ (by simp)
        rintro _ _ _ ⟨⟩
        exact concerned
  · next job repair here =>
      cases awaits
      exact apart (by simp) (by simp)
  · cases awaits

theorem steady_maintenance (tended : Tended s c cid length required σ.deployment) {action : Action}
    {before after : Maintenance} {db : Database} {core : State}
    (move : MaintenanceMove σ.deployment.core action before after db)
    (here : σ.deployment.core.maintenance = before)
    (unbroken : action ≠ .skipNode ∧ action ≠ .stopMaintenance)
    (stepped : Metadata.metadata.step σ.deployment.core action = some core) (result : core.db = db)
    (there : core.maintenance = after)
    (answered : ∀ valid, action = .checkAnswer valid →
      ∃ sent ∈ σ.deployment.calls .reconcile, sent.answer = some valid) :
    Deployment.Steady s cid σ.deployment (σ.deployment.follow s action core) := by
  have settled : σ.deployment.core.db.phase cid ≠ some .staging := by simp [tended.published]
  have moves : Deployment.Unjudged before → Deployment.Unjudged after →
      Deployment.Steady s cid σ.deployment (σ.deployment.follow s action core) :=
    Deployment.steady_move tended.reached settled stepped move here there result
  cases move with
  | ask => exact Deployment.steady_ask tended.reached stepped
  | answer => exact Deployment.steady_answer tended.reached stepped (answered _ rfl)
  | reverify | broken => exact Deployment.steady_reverify tended.reached stepped
  | skip => exact absurd rfl unbroken.1
  | stop => exact absurd rfl unbroken.2
  | _ => exact moves trivial trivial

/-- A heartbeat of the registered process leaves them alone, too. -/
theorem steady_register (reached : Reachable (cluster s) σ.deployment) {i : Nat} {beat : Beat}
    {db : Database} (present : σ.deployment.core.beats i = some beat)
    (accepted : σ.deployment.core.db.register c beat = .ok db)
    (registered : ∃ node ∈ σ.deployment.core.db.nodes.get? beat.node, node.inst = beat.inst) :
    Deployment.Steady s cid σ.deployment (σ.deployment.follow s (.register i c)
      { σ.deployment.core with
        db, beats := Function.update σ.deployment.core.beats i none }) := by
  obtain ⟨node, stored, inst⟩ := registered
  have registration := Database.register_ok accepted
  obtain ⟨settled, nodes⟩ := registered_again reached present stored inst registration
  obtain ⟨same, disks, running, _⟩ := σ.deployment.follow_frame s (.register i c)
    { σ.deployment.core with db, beats := Function.update σ.deployment.core.beats i none }
  refine Deployment.Untouched.steady ⟨?_, ?_, running, fun disk => by rw [disks]⟩ ?_ ?_
  · rw [same]
    exact .register registration settled
  · rw [same]
    exact nodes
  · rw [same]
  · rw [Deployment.follow_calls]
    rfl

/-- As long as too few copies are healthy, a chore keeps those that count. -/
theorem holds_step (tended : Tended s c cid length required σ.deployment)
    (engaged : σ.Engaged s c w cid length required) (undertakes : Undertakes s c w σ σ') :
    σ.deployment.Enough c cid required ∨ σ.Holds s c w cid length required σ' := by
  have sound := reachable_sound tended.reached
  cases undertakes with
  | service action core slept allowed stepped attends registered answered rested sleeps =>
      obtain ⟨same, disks, running, _⟩ := σ.deployment.follow_frame s action core
      have quiet : Deployment.Steady s cid σ.deployment (σ.deployment.follow s action core) →
          core.workers w = σ.deployment.core.workers w →
          σ.deployment.core.now ≤ core.now → (∀ w c token, action ≠ .claim w c token) →
          action ≠ .fetch w true →
          σ.Holds s c w cid length required ⟨σ.deployment.follow s action core, slept⟩ := by
        intro steady worker later claimless other
        refine holds_steady engaged steady (fun key row stored running => ?_) ?_
          (sleeps.resolve_left fun fetches => other fetches.1).2 ?_
        · rw [same] at stored
          exact running_kept sound.reached stepped claimless stored running
        · rw [same, worker]
        · rw [same]
          exact later
      have idle : core.db = σ.deployment.core.db → core.maintenance = σ.deployment.core.maintenance →
          σ.deployment.request core action = none →
          Deployment.Steady s cid σ.deployment (σ.deployment.follow s action core) := by
        intro unchanged maintenance silent
        refine Deployment.Untouched.steady ⟨?_, ?_, running, fun disk => by rw [disks]⟩ ?_ ?_
        · rw [same, unchanged]
          exact .refl cid _
        · rw [same, unchanged]
          exact .refl _
        · rw [same, maintenance]
        · rw [Deployment.follow_calls, silent]
      cases attends with
      | tick elapsed =>
          exact .inr (quiet (idle rfl rfl rfl) rfl
            (Int.le_add_of_nonneg_right (Int.natCast_nonneg _)) (by simp) (by simp))
      | beat | refuse | reject =>
          exact .inr (quiet (idle rfl rfl rfl) rfl le_rfl (by simp) (by simp))
      | register i beat db present accepted =>
          exact .inr (quiet (steady_register tended.reached present accepted
            (registered i rfl beat present)) rfl le_rfl (by simp) (by simp))
      | worker _ worker db move configured =>
          by_cases concerned : ∃ job, (σ.deployment.core.workers w).job? = some job ∧
              job.task.chunk = cid
          · obtain ⟨job, working, concerned⟩ := concerned
            exact holds_concerned tended working concerned (engaged job working concerned) rfl move
              configured allowed stepped rfl (Function.update_self _ _ _) rfl rfl rested sleeps
          · have apart : ∀ job, (σ.deployment.core.workers w).job? = some job →
                cid ≠ job.task.chunk := fun job working same => concerned ⟨job, working, same.symm⟩
            by_cases claims : ∃ v d token, action = .claim v d token
            · obtain ⟨v, d, token, rfl⟩ := claims
              cases configured
              generalize here : σ.deployment.core.workers w = before at move
              cases move with
              | claim _ _ task next fresh =>
                  exact .inr (holds_claim tended.reached (.claim c token task next fresh) stepped rfl
                    (Function.update_self _ _ _) rfl rfl)
            · exact .inr (holds_foreign tended.reached move stepped rfl (Function.update_self _ _ _)
                rfl (fun v d token same => claims ⟨v, d, token, same⟩) apart)
      | maintenance _ maintenance db move unbroken =>
          have silent : (∀ w c token, action ≠ .claim w c token) ∧ action ≠ .fetch w true := by
            generalize σ.deployment.core.maintenance = before at move
            cases move <;> simp
          exact .inr (quiet (steady_maintenance tended move rfl unbroken stepped rfl rfl answered) rfl
            le_rfl silent.1 silent.2)
  | deliver v remote turn awaits sent =>
      right
      rcases turn with rfl | rfl
      · refine holds_steady engaged (Deployment.steady_deliver tended.reached awaits sent) ?_ ?_ rfl ?_
        · rw [Deployment.execute_frame]
          exact fun _ _ stored _ => stored
        · rw [Deployment.execute_frame]
        · rw [Deployment.execute_frame]
      · refine holds_steady engaged (steady_answer_worker tended.reached engaged awaits sent) ?_ ?_
          rfl ?_
        · rw [Deployment.execute_frame]
          exact fun _ _ stored _ => stored
        · rw [Deployment.execute_frame]
        · rw [Deployment.execute_frame]
  | report nid node runs =>
      exact .inr (holds_steady engaged (Deployment.Untouched.steady
        ⟨.refl cid _, .refl _, rfl, fun _ => rfl⟩ rfl rfl) (fun _ _ stored _ => stored) rfl rfl le_rfl)

end Steps

end FileServer.Cluster

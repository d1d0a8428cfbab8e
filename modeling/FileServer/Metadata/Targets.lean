import FileServer.Metadata.Copies

/-!
# Targets of repairs

A repair prefers the row that an earlier attempt has reserved to any free node,
also when its node has gone; otherwise it finds a node whenever one is admitted.
-/

namespace FileServer.Metadata

open FileServer.Relational FileServer.Transition

namespace Database

variable {c : Config} {now : Time} {db : Database} {cid : Ident} {length : Nat}
  {excluded : List NodeId} {nid : NodeId} {node : NodeRow}

theorem reserveLoop_chooses {nodes : List (NodeId × NodeRow)}
    (candidate : ∃ entry ∈ nodes, entry.1 ∉ excluded ∧ entry.2.Admits c now length) :
    (reserveLoop c now cid length 1 excluded nodes [] db).1.length = 1 := by
  induction nodes with
  | nil => simp at candidate
  | cons entry rest inductionHypothesis =>
      rcases entry with ⟨nid, node⟩
      obtain ⟨found, membership, outside, admits⟩ := candidate
      have continued : ¬(nid ∉ excluded ∧ node.Admits c now length) →
          ∃ entry ∈ rest, entry.1 ∉ excluded ∧ entry.2.Admits c now length := by
        intro refused
        rcases List.mem_cons.mp membership with rfl | inRest
        · exact absurd ⟨outside, admits⟩ refused
        · exact ⟨found, inRest, outside, admits⟩
      simp only [reserveLoop]
      split
      next ineligible =>
        apply inductionHypothesis
        apply continued
        rintro ⟨outside, alive, _⟩
        exact ineligible.elim outside fun dead => dead alive
      next eligible =>
        split
        next small =>
          apply inductionHypothesis
          apply continued
          rintro ⟨_, _, room⟩
          exact absurd small (not_lt.mpr room)
        · rfl

theorem reserve_possible (located : db.nodes.get? nid = some node) (outside : nid ∉ excluded)
    (admits : node.Admits c now length) :
    ∃ result, reserve c now db cid length 1 excluded = .ok result := by
  have listed : (nid, node) ∈ db.nodesByLoad :=
    (List.perm_insertionSort _ _).mem_iff.mpr (db.nodes.mem_rows_iff.mpr located)
  have chosen : (reserveLoop c now cid length 1 excluded db.nodesByLoad [] db).1.length = 1 :=
    reserveLoop_chooses ⟨_, listed, outside, admits⟩
  exact ⟨_, bind_eq_ok.mpr ⟨(), require_eq_ok.mpr chosen, rfl⟩⟩

/-- The transaction commits with a target that is alive. -/
def FindsTarget (c : Config) (now : Time) (db : Database) (job : Job) : Prop :=
  ∃ repair after node, db.repairBegin c now job = .ok (some repair, after) ∧
    after.nodes.get? repair.target = some node ∧ node.Alive c now

/-- No repair has reserved a node that is not alive. -/
def PendingAlive (c : Config) (now : Time) (db : Database) (cid : Ident) : Prop :=
  ∀ nid row, db.replicas.get? (cid, nid) = some row → row.state = .reserved →
    ∃ node, db.nodes.get? nid = some node ∧ node.Alive c now

theorem repairTarget_finds {chunk : ChunkRow} {oid : Ident} {object : ObjectRow}
    {sources : List Source} (present : sources ≠ []) (located : db.nodes.get? nid = some node)
    (free : ∀ row, db.replicas.get? (cid, nid) = some row → row.state = .gone)
    (admits : node.Admits c now chunk.length) (alive : db.PendingAlive c now cid) :
    ∃ repair after target, db.repairTarget c now cid chunk oid object sources =
        .ok (repair, after) ∧
      after.nodes.get? repair.target = some target ∧ target.Alive c now := by
  cases search : (db.replicasOf cid).find? fun entry => entry.2.state = .reserved with
  | some pending =>
      have reserved := List.find?_some search
      simp only [decide_eq_true_eq] at reserved
      have stored := db.mem_replicasOf.mp (List.mem_of_find?_eq_some search)
      obtain ⟨target, located, living⟩ := alive pending.1 pending.2 stored reserved
      refine ⟨⟨chunk.length, chunk.sha, chunk.upload, oid, object.replicas, sources, pending.1,
        target.address, target.volume, target.inst⟩, db, target, ?_, located, living⟩
      simp only [repairTarget, search]
      refine bind_eq_ok.mpr ⟨(), require_eq_ok.mpr present, ?_⟩
      refine bind_eq_ok.mpr ⟨(pending.1, db), rfl, ?_⟩
      refine bind_eq_ok.mpr ⟨target, found_eq_ok.mpr located, ?_⟩
      exact bind_eq_ok.mpr ⟨(), require_eq_ok.mpr living, rfl⟩
  | none =>
      have outside : nid ∉ ((db.replicasOf cid).filter fun entry =>
          entry.2.state ≠ .gone).map Prod.fst := by
        intro excluded
        obtain ⟨⟨_, row⟩, listed, rfl⟩ := List.mem_map.mp excluded
        obtain ⟨stored, live⟩ := List.mem_filter.mp listed
        exact of_decide_eq_true live (free row (db.mem_replicasOf.mp stored))
      obtain ⟨⟨chosen, after⟩, taken⟩ :=
        @reserve_possible c now db cid chunk.length _ nid node located outside admits
      obtain ⟨targets, selection, rfl, counted, rfl⟩ := db.reserve_ok taken
      obtain ⟨⟨target, picked⟩, rfl⟩ := List.length_eq_one_iff.mp counted
      have stands := selection.stored (target, picked) (by simp)
      have living := (selection.admitted (target, picked) (by simp)).1
      have located : (reserveAll cid chunk.length [(target, picked)] db).nodes.get? target =
          some (picked.adjust chunk.length 0) := by
        simp only [reserveAll, List.foldl_cons, List.foldl_nil, db.reserveOn_eq,
          Table.get?_modify_self, stands, Option.map_some]
      have adjusted : (picked.adjust chunk.length 0).Alive c now := living
      refine ⟨⟨chunk.length, chunk.sha, chunk.upload, oid, object.replicas, sources, target,
        picked.address, picked.volume, picked.inst⟩, _, _, ?_, located, adjusted⟩
      simp only [repairTarget, search]
      refine bind_eq_ok.mpr ⟨(), require_eq_ok.mpr present, ?_⟩
      refine bind_eq_ok.mpr ⟨([target], reserveAll cid chunk.length [(target, picked)] db), taken,
        ?_⟩
      refine bind_eq_ok.mpr ⟨target, rfl, ?_⟩
      refine bind_eq_ok.mpr ⟨(target, reserveAll cid chunk.length [(target, picked)] db), rfl, ?_⟩
      refine bind_eq_ok.mpr ⟨_, found_eq_ok.mpr located, ?_⟩
      exact bind_eq_ok.mpr ⟨(), require_eq_ok.mpr adjusted, rfl⟩

theorem repairBegin_finds {job : Job} {chunk : ChunkRow} {upload : UploadRow} {oid : Ident}
    {object : ObjectRow} (fenced : db.Fence now job)
    (known : db.chunkObject job.task.chunk = some (chunk, upload, oid, object))
    (published : object.state = .published) (sources : healthy c now db job.task.chunk ≠ [])
    (few : (healthy c now db job.task.chunk).length < object.replicas)
    (located : db.nodes.get? nid = some node)
    (free : ∀ row, db.replicas.get? (job.task.chunk, nid) = some row → row.state = .gone)
    (admits : node.Admits c now chunk.length) (alive : db.PendingAlive c now job.task.chunk) :
    db.FindsTarget c now job := by
  obtain ⟨repair, after, target, targeted, found, living⟩ :=
    @repairTarget_finds c now db job.task.chunk nid node chunk oid object _ sources located free
      admits alive
  refine ⟨repair, after, target, ?_, found, living⟩
  simp only [repairBegin, fence]
  refine bind_eq_ok.mpr ⟨(), require_eq_ok.mpr fenced, ?_⟩
  refine bind_eq_ok.mpr ⟨_, found_eq_ok.mpr known, ?_⟩
  refine bind_eq_ok.mpr ⟨(), require_eq_ok.mpr published, ?_⟩
  rw [if_neg (not_le.mpr few)]
  exact bind_eq_ok.mpr ⟨_, targeted, rfl⟩

end Database

section Repairs

variable {σ : State} {c : Config} {job : Job} {chunk : ChunkRow} {upload : UploadRow}
  {oid : Ident} {object : ObjectRow}

/-- A repair that is needed finds a target, although a node without a live row
is admitted, exactly when the node of a pending reservation is alive. -/
theorem repair_finds_target_iff (reached : Reachable metadata σ) (fenced : σ.db.Fence σ.now job)
    (known : σ.db.chunkObject job.task.chunk = some (chunk, upload, oid, object))
    (published : object.state = .published)
    (sources : Database.healthy c σ.now σ.db job.task.chunk ≠ [])
    (few : (Database.healthy c σ.now σ.db job.task.chunk).length < object.replicas)
    {nid : NodeId} {node : NodeRow} (located : σ.db.nodes.get? nid = some node)
    (free : ∀ row, σ.db.replicas.get? (job.task.chunk, nid) = some row → row.state = .gone)
    (admits : node.Admits c σ.now chunk.length) :
    σ.db.FindsTarget c σ.now job ↔ σ.db.PendingAlive c σ.now job.task.chunk := by
  have consistent := (reachable_invariant reached).consistent
  have phase : σ.db.phase job.task.chunk = some .published := by
    rw [Database.phase, known, Option.map_some, published]
  constructor
  · rintro ⟨repair, after, target, begun, _, _⟩
    obtain ⟨chunk', upload', object', _, _, _, _, _, outcome⟩ := Database.repairBegin_ok begun
    rcases outcome with ⟨_, finished, _⟩ | ⟨_, _, picked, pickedNode, targeted, _, _⟩
    · cases finished
    · intro other row stored reserved
      rcases targeted.choice with ⟨pending, storedPending, pendingReserved, rfl⟩ | ⟨none, _⟩
      · obtain rfl := consistent.single _ _ _ _ _ phase stored storedPending reserved
          pendingReserved
        exact targeted.live
      · exact absurd reserved (none other row stored)
  · intro alive
    exact Database.repairBegin_finds fenced known published sources few located free admits alive

end Repairs

section Attempts

def fourNodes : Config :=
  { installation with
    nodes := [(1, "first:9000"), (2, "second:9000"), (3, "third:9000"), (4, "fourth:9000")]
    replicasBounds := by decide }

def aliveActions (nodes : List NodeId) : List Action :=
  nodes.flatMap fun nid =>
    [.beat nid fourNodes nid (100 + nid) (200 + nid) 100 100, .register nid fourNodes]

/-- An object on the first two nodes, of which the first falls silent. -/
def needyActions : List Action :=
  aliveActions [1, 2, 3, 4] ++
    [.request fourNodes "owner" (.init 1 "file") (1000 + ·),
      .request fourNodes "owner" (.prepare 1001 0 (some 7)) id,
      .confirm 0 fourNodes 1001 (some "owner") 0,
      .confirmAsk 0, .confirmStat 0, .confirmAsk 0, .confirmStat 0, .confirmCommit 0 fourNodes,
      .request fourNodes "owner" (.complete 1001) id, .tick 4] ++ aliveActions [2, 3] ++
    [.maintain fourNodes, .stopMaintenance, .claim 0 fourNodes 5000]

def needy : State :=
  (metadata.execute metadata.initial needyActions).get (by decide +kernel)

theorem needy_run : Run metadata (metadata.events metadata.initial needyActions) needy :=
  metadata.run needyActions _

def publishedChunk : ChunkRow := ⟨1001, 0, 1, some 7, .confirmed⟩
def publishedFile : ObjectRow := ⟨"owner", "file", 1, 4, 2, .published⟩

/-- The repair finds the third node. -/
theorem repair_finds_target_needy : needy.db.FindsTarget fourNodes needy.now
    ⟨⟨.repair, 1002, none⟩, 5000⟩ := by
  have located : needy.db.nodes.get? 3 =
      some ⟨"third:9000", 103, 203, 4, 100, 100, 0, 0, .healthy⟩ := by decide +kernel
  have free : needy.db.replicas.get? (1002, 3) = none := by decide +kernel
  have known : needy.db.chunkObject 1002 = some (publishedChunk, ⟨1000, .completed, 1000⟩, 1000,
      publishedFile) := by decide +kernel
  have unreserved : ∀ entry ∈ needy.db.replicasOf 1002, entry.2.state ≠ .reserved := by
    decide +kernel
  refine (repair_finds_target_iff needy_run.reachable (by decide +kernel) known rfl
    (by decide +kernel) (by decide +kernel) located (fun row stored => ?_) (by decide)).mpr ?_
  · rw [free] at stored
    cases stored
  · intro nid row stored reserved
    exact absurd reserved (unreserved (nid, row) (needy.db.mem_replicasOf.mpr stored))

/-- The repair has reserved the third node and crashes; then the third node
falls silent and the fourth comes back. -/
def stuckActions : List Action :=
  needyActions ++ [.begin 0 fourNodes, .crash 0, .tick 50] ++ aliveActions [2, 4] ++
    [.claim 0 fourNodes 5001]

def stuck : State :=
  (metadata.execute metadata.initial stuckActions).get (by decide +kernel)

theorem stuck_run : Run metadata (metadata.events metadata.initial stuckActions) stuck :=
  metadata.run stuckActions _

theorem repair_stuck : ¬∀ (σ : State) (c : Config) (job : Job) (chunk : ChunkRow)
    (upload : UploadRow) (oid : Ident) (object : ObjectRow) (nid : NodeId) (node : NodeRow),
    Reachable metadata σ → job.task.kind = .repair → σ.db.Fence σ.now job →
    σ.db.chunkObject job.task.chunk = some (chunk, upload, oid, object) →
    object.state = .published → Database.healthy c σ.now σ.db job.task.chunk ≠ [] →
    (Database.healthy c σ.now σ.db job.task.chunk).length < object.replicas →
    σ.db.nodes.get? nid = some node →
    (∀ row, σ.db.replicas.get? (job.task.chunk, nid) = some row → row.state = .gone) →
    node.Admits c σ.now chunk.length → σ.db.FindsTarget c σ.now job := by
  intro finds
  have located : stuck.db.nodes.get? 4 =
      some ⟨"fourth:9000", 104, 204, 54, 100, 100, 0, 0, .healthy⟩ := by decide +kernel
  have free : stuck.db.replicas.get? (1002, 4) = none := by decide +kernel
  have known : stuck.db.chunkObject 1002 = some (publishedChunk, ⟨1000, .completed, 1000⟩, 1000,
      publishedFile) := by decide +kernel
  obtain ⟨repair, after, target, begun, _⟩ := finds stuck fourNodes ⟨⟨.repair, 1002, none⟩, 5001⟩
    publishedChunk _ _ publishedFile 4 _ stuck_run.reachable rfl (by decide +kernel) known rfl
    (by decide +kernel) (by decide +kernel) located
    (fun row stored => by rw [free] at stored; cases stored) (by decide)
  have failed : (stuck.db.repairBegin fourNodes stuck.now
      ⟨⟨.repair, 1002, none⟩, 5001⟩).toOption.isSome = false := by decide +kernel
  rw [begun] at failed
  cases failed

end Attempts

end FileServer.Metadata

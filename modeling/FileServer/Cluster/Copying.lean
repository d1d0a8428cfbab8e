import FileServer.Cluster.Errands
import FileServer.Metadata.Room

/-!
# Copying a chunk

The task thread takes the repair of the chunk and makes a copy of it on a spare
node.
-/

namespace FileServer.Cluster

open FileServer.Metadata FileServer.Relational FileServer.Storage FileServer.Transition

theorem put_succeeds {digest : Bytes → Sha} {node : Node} {now : Time} {cid : Ident}
    {claims : Claims} {data : Bytes} (early : now ≤ claims.expires)
    (addressed : claims.node = node.nodeId ∧ claims.chunk = cid ∧ claims.volume = node.volume ∧
      claims.inst = node.inst) (sized : data.length = claims.length)
    (hashed : digest data = claims.sha)
    (same : ∀ existing, node.files.get? cid = some existing → existing.length = data.length ∧
      digest existing = claims.sha) (room : node.used + data.length ≤ node.capacity) :
    ∃ node', node.put digest now cid (authorization claims) data = .ok node' ∧
      node'.used ≤ node.used + data.length ∧ ∃ content, node'.files.get? cid = some content ∧
        content.length = claims.length ∧ digest content = claims.sha := by
  have checked : node.checkTarget now cid (authorization claims) = .ok ⟨⟩ := by
    simp only [Node.checkTarget, bind_eq_ok, require_eq_ok, found_eq_ok]
    exact ⟨⟨⟩, early, ⟨⟩, addressed, _, rfl, ⟨⟩, rfl, rfl⟩
  cases present : node.files.get? cid with
  | some existing =>
      obtain ⟨long, matched⟩ := same existing present
      refine ⟨node, ?_, Nat.le_add_right _ _, existing, present, long.trans sized, matched⟩
      simp only [Node.put, bind_eq_ok, require_eq_ok, present]
      exact ⟨⟨⟩, checked, ⟨⟩, ⟨sized, hashed⟩, ⟨⟩, long, ⟨⟩, matched, rfl⟩
  | none =>
      refine ⟨{ node with files := node.files.upsert cid data fun _ => data }, ?_, ?_, data, ?_,
        sized, hashed⟩
      · simp only [Node.put, bind_eq_ok, require_eq_ok, present]
        exact ⟨⟨⟩, checked, ⟨⟩, ⟨sized, hashed⟩, ⟨⟩, room, rfl⟩
      · simp only [Node.used, Table.sum_upsert_absent _ _ _ _ present]
        exact le_rfl
      · simp [Table.get?_upsert, present]

/-- A step of the task thread. -/
structure Works (s : Site) (c : Config) (w : Nat) (worker : Worker) (db : Database)
    (σ σ' : Upkeep) : Prop where
  leads : Upkeep.Leads s c w σ σ'
  worker : σ'.deployment.core.workers w = worker
  db : σ'.deployment.core.db = db
  now : σ'.deployment.core.now = σ.deployment.core.now
  disks : σ'.deployment.disks = σ.deployment.disks
  running : σ'.deployment.running = σ.deployment.running
  maintenance : σ'.deployment.core.maintenance = σ.deployment.core.maintenance

section Copying

variable {s : Site} {c : Config} {w : Nat} {cid : Ident} {length required : Nat} {σ : Upkeep}

theorem worker_works {chore : Chore} {action : Action} {after : Worker} {db : Database}
    (move : chore.move c w = .metadata action) (permits : σ.Permits s c w chore)
    (allowed : σ.deployment.Allows s action)
    (stepped : Metadata.metadata.step σ.deployment.core action =
      some (State.setWorker { σ.deployment.core with db } w after)) :
    ∃ σ', Works s c w after db σ σ' ∧
      σ'.deployment.buffers = σ.deployment.filled s action ∧
      σ'.slept = (if chore = .fetch true then σ.deployment.core.now else σ.slept) ∧
      σ'.deployment.calls = (σ.deployment.follow s action
        (State.setWorker { σ.deployment.core with db } w after)).calls := by
  obtain ⟨same, disks, running, _⟩ := σ.deployment.follow_frame s action
    (State.setWorker { σ.deployment.core with db } w after)
  refine ⟨_, ⟨leads_act move permits allowed stepped, ?_, ?_, ?_, disks, running, ?_⟩,
    Deployment.follow_buffers _ _ _ _, rfl, rfl⟩
  · rw [same]
    exact Function.update_self _ _ _
  · rw [same]
    rfl
  · rw [same]
    rfl
  · rw [same]
    rfl

/-- A step of the task thread that leaves the tables alone. -/
theorem worker_keeps (σ : Upkeep) (after : Worker) {chore : Chore} {action : Action}
    (move : chore.move c w = .metadata action) (permits : σ.Permits s c w chore)
    (allowed : σ.deployment.Allows s action)
    (stepped : Metadata.metadata.step σ.deployment.core action =
      some (σ.deployment.core.setWorker w after)) :
    ∃ σ', Works s c w after σ.deployment.core.db σ σ' ∧
      σ'.deployment.buffers = σ.deployment.filled s action ∧
      σ'.slept = (if chore = .fetch true then σ.deployment.core.now else σ.slept) ∧
      σ'.deployment.calls = (σ.deployment.follow s action
        (σ.deployment.core.setWorker w after)).calls :=
  worker_works move permits allowed stepped

def Deployment.Judged (κ : Deployment) (cid : Ident) : Prop :=
  ∀ nid row, κ.core.db.replicas.get? (cid, nid) = some row → row.state ≠ .unverified

theorem Deployment.Copies.judged {κ κ' : Deployment} {made : List NodeId}
    (copies : Deployment.Copies s cid made κ κ') (judged : κ.Judged cid) : κ'.Judged cid := by
  intro nid row stored unverified
  obtain ⟨row', stored', unverified'⟩ := copies.verified nid row stored unverified
  exact judged nid row' stored' unverified'

/-- Every copy that is kept is healthy once it has been verified and the nodes
have reported themselves. -/
theorem kept_healthy {κ : Deployment} (consistent : Consistent κ.core.db)
    (prompt : ∀ nid node, κ.core.db.nodes.get? nid = some node → κ.Prompt node)
    (judged : κ.Judged cid) {nid : NodeId} (kept : nid ∈ κ.kept s cid) :
    nid ∈ (Database.healthy c κ.core.now κ.core.db cid).map Source.node := by
  obtain ⟨registered, row, stored, valid⟩ := Deployment.mem_kept.mp kept
  obtain ⟨node, located⟩ := Deployment.mem_nodeIds.mp registered
  have state : row.state = .valid :=
    valid.resolve_right fun unverified => judged nid row stored unverified.1
  exact Database.mem_healthy.mpr ⟨row, node, stored, located, state,
    consistent.mounted cid nid row node stored located (.inr state),
    (prompt nid node located).alive⟩

theorem begins (tended : Tended s c cid length required σ.deployment) {job : Job} {row : TaskRow}
    (here : σ.deployment.core.workers w = .claimed job) (task : job.task = ⟨.repair, cid, none⟩)
    (stored : σ.deployment.core.db.tasks.get? job.task = some row)
    (token : row.token = some job.token) (running : row.state = .running)
    (leased : σ.deployment.core.now < row.lease)
    (prompt : ∀ nid node, σ.deployment.core.db.nodes.get? nid = some node →
      σ.deployment.Prompt node) (judged : σ.deployment.Judged cid)
    (copyable : σ.deployment.Copyable s c cid length)
    (few : ¬σ.deployment.Enough c cid required)
    (room : ∃ nid ∈ σ.deployment.nodeIds, σ.deployment.Spare cid nid) :
    ∃ σ' repair db, Works s c w (.fetching job repair repair.sources) db σ σ' ∧
      Database.Aimed cid row.lease job repair db ∧
      repair.required = required ∧ repair.length = length ∧
      σ.deployment.Spare cid repair.target ∧
      ∃ source ∈ repair.sources, σ.deployment.Readable s cid source.node := by
  obtain ⟨chunk, upload, oid, object, known, published, sized, copies⟩ := tended.known
  have consistent := tended.consistent
  have fenced : ∀ now, now < row.lease → σ.deployment.core.db.Fence now job :=
    fun now early => ⟨row, stored, token, running, early⟩
  obtain rfl : job.task.chunk = cid := by rw [task]
  obtain ⟨recorded, owned, _, found⟩ :=
    (Database.chunkObject_eq_some σ.deployment.core.db).mp known
  obtain ⟨nid, registered, free⟩ := room
  obtain ⟨node, located⟩ := Deployment.mem_nodeIds.mp registered
  have admits : (∀ row, σ.deployment.core.db.replicas.get? (job.task.chunk, nid) = some row →
      row.charged = .none) → node.Admits c σ.deployment.core.now chunk.length := by
    intro uncharged
    obtain ⟨fits, used⟩ := Database.charges_fit consistent located recorded uncharged
    obtain ⟨_, _, capacity, reported⟩ := prompt nid node located
    refine ⟨(prompt nid node located).alive, ?_⟩
    simp only [Deployment.recordedBytes] at capacity reported
    omega
  obtain ⟨origin, kept, readable⟩ := copyable.source
  obtain ⟨source, listed, rfl⟩ := List.mem_map.mp
    (kept_healthy (c := c) consistent prompt judged kept)
  have fewer : (Database.healthy c σ.deployment.core.now σ.deployment.core.db
      job.task.chunk).length < object.replicas := by
    rw [copies]
    exact not_le.mp few
  obtain ⟨repair, db, begun⟩ := Database.repairBegin_spare consistent (fenced _ leased) known
    published fewer (List.ne_nil_of_mem listed)
    (fun nid node stored => (prompt nid node stored).alive) located free admits
  have undertaken := Database.repairBegin_undertaken begun
  obtain ⟨_, _, _, _, known', length', _, required'⟩ := undertaken.known
  cases known.symm.trans known'
  have stepped : Metadata.metadata.step σ.deployment.core (.begin w c) =
      some (State.setWorker { σ.deployment.core with db } w
        (.fetching job repair repair.sources)) := by
    have kind : job.task.kind = .repair := by rw [task]
    simp only [Metadata.metadata, State.step, State.workerStep, State.beginJob, here, kind, begun]
  obtain ⟨σ', works, _⟩ := worker_works (s := s)
    (show Chore.move c w .begin = _ from rfl) trivial trivial stepped
  refine ⟨σ', repair, db, works, Database.repairBegin_aims begun task fenced copyable.charged,
    required'.trans copies, length'.trans sized, fun row stored => ?_, source, ?_, readable⟩
  · exact (undertaken.before row stored).imp_right And.left
  · rw [undertaken.sources]
    exact listed

theorem Works.readable {worker : Worker} {db : Database} {σ' : Upkeep}
    (works : Works s c w worker db σ σ') (chunks : db.chunks = σ.deployment.core.db.chunks)
    (nid : NodeId) : σ'.deployment.Readable s cid nid ↔ σ.deployment.Readable s cid nid := by
  simp only [Deployment.readable_iff, works.running, works.db, chunks, works.disks]

theorem fetched_content {job : Job} {repair : Repair} {source : Source} {left : List Source}
    {sha : Sha} {content : Bytes}
    (here : σ.deployment.core.workers w = .fetching job repair (source :: left))
    (known : repair.sha = some sha) (read : σ.deployment.fetched s w = some content) :
    content.length ≤ 4 * 1024 * 1024 ∧ content.length = repair.length ∧
      s.digest content = sha := by
  simp only [Deployment.fetched, here, Option.bind_eq_some_iff] at read
  obtain ⟨node, _, succeeded⟩ := read
  cases result : Node.read s.digest (node.files.get? job.task.chunk) repair.length repair.sha with
  | error failure => simp [result, Except.toOption] at succeeded
  | ok bytes =>
      obtain rfl : bytes = content := by simpa [result, Except.toOption] using succeeded
      obtain ⟨_, small, sized, hashed⟩ := (Node.read_eq_ok s.digest).mp result
      exact ⟨small, sized, (Option.some.inj (known.symm.trans hashed)).symm⟩

theorem fetches {limit : Time} {job : Job} {repair : Repair} {left : List Source}
    (here : σ.deployment.core.workers w = .fetching job repair left)
    (aimed : Database.Aimed cid limit job repair σ.deployment.core.db)
    (readable : ∃ source ∈ left, σ.deployment.Readable s cid source.node) :
    ∃ σ' sha, Works s c w (.fetched job repair sha) σ.deployment.core.db σ σ' ∧
      repair.sha = some sha ∧ σ'.slept = σ.deployment.core.now ∧
      (σ'.deployment.buffers w).length ≤ 4 * 1024 * 1024 ∧
      (σ'.deployment.buffers w).length = repair.length ∧
      s.digest (σ'.deployment.buffers w) = sha := by
  have concerned : job.task.chunk = cid := by rw [aimed.task]
  induction left generalizing σ with
  | nil => simp at readable
  | cons source left inductionHypothesis =>
      cases read : σ.deployment.fetched s w with
      | none =>
          obtain ⟨next, works, _⟩ := worker_keeps (s := s) (c := c) σ
            (.fetching job repair left)
            (show Chore.move c w (.fetch false) = _ from rfl)
            (by simp only [Upkeep.Permits, read]; rfl) (by simp [Deployment.Allows])
            (by simp only [Metadata.metadata, State.step, State.workerStep, here])
          have missed : ¬σ.deployment.Readable s cid source.node := by
            rw [← concerned, ← fetched_isSome here (concerned.symm ▸ aimed.chunk), read]
            simp
          obtain ⟨origin, listed, there⟩ := readable
          have later : origin ∈ left := by
            rcases List.mem_cons.mp listed with rfl | later
            · exact absurd there missed
            · exact later
          obtain ⟨σ', sha, more, known, slept, content⟩ :=
            inductionHypothesis works.worker (works.db.symm ▸ aimed)
              ⟨origin, later, (works.readable rfl _).mpr there⟩
          exact ⟨σ', sha, ⟨works.leads.trans more.leads, more.worker, more.db.trans works.db,
            more.now.trans works.now, more.disks.trans works.disks,
            more.running.trans works.running, more.maintenance.trans works.maintenance⟩, known,
            slept.trans works.now, content⟩
      | some content =>
          obtain ⟨sha, known⟩ := fetched_hashed here read
          obtain ⟨σ', works, buffers, slept, _⟩ := worker_keeps (s := s) (c := c) σ
            (.fetched job repair sha)
            (show Chore.move c w (.fetch true) = _ from rfl)
            (by simp only [Upkeep.Permits, read]; rfl)
            (by simp only [Deployment.Allows, read]; simp)
            (by simp only [Metadata.metadata, State.step, State.workerStep, here, known])
          have filled : σ'.deployment.buffers w = content := by
            rw [buffers]
            simp [Deployment.filled, read]
          refine ⟨σ', sha, works, known, slept, ?_⟩
          rw [filled]
          exact fetched_content here known read

theorem le_recordedBytes {κ : Deployment} {chunk : ChunkRow}
    (stored : κ.core.db.chunks.get? cid = some chunk) : chunk.length ≤ κ.recordedBytes := by
  rw [Deployment.recordedBytes, Table.sum]
  refine List.single_le_sum (fun _ _ => Nat.zero_le _) _ (List.mem_map.mpr ⟨(cid, chunk), ?_, rfl⟩)
  exact (Table.mem_rows_iff _).mpr stored

theorem execute_put (attended : Attended s c σ.deployment) {target : NodeId} {node : NodeRow} {chunk : ChunkRow} {ticket : Claims} {data : Bytes}
    (located : σ.deployment.core.db.nodes.get? target = some node)
    (stored : σ.deployment.core.db.chunks.get? cid = some chunk)
    (addressed : ticket.node = target ∧ ticket.chunk = cid ∧ ticket.volume = node.volume ∧
      ticket.inst = node.inst) (described : chunk.length = ticket.length ∧ chunk.sha = some ticket.sha)
    (early : σ.deployment.core.now ≤ ticket.expires) (sized : data.length = ticket.length)
    (hashed : s.digest data = ticket.sha) (small : data.length ≤ 4 * 1024 * 1024) :
    (σ.deployment.execute s ⟨target, .put cid ticket data⟩).1 = true ∧
      (σ.deployment.execute s ⟨target, .put cid ticket data⟩).2.Readable s cid target := by
  obtain ⟨process, serves, named, inst, volume, files, used, roomy, spacious, _⟩ :=
    process_available attended located
  obtain ⟨_, recorded⟩ := reachable_recorded attended.reached
  have fits := le_recordedBytes stored
  obtain ⟨node', accepted, grown, content, present, long, matched⟩ :=
    @put_succeeds s.digest process σ.deployment.core.now cid ticket data early
      (by rw [named, volume, inst]; exact addressed) sized hashed (by
        intro existing present
        rw [files] at present
        obtain ⟨chunk', stored', sized', fixed⟩ :=
          recorded.files (target, node.volume) cid existing present _ rfl
        obtain rfl := Option.some.inj (stored.symm.trans stored')
        exact ⟨by omega, Option.some.inj (fixed.symm.trans described.2)⟩) (by omega)
  have performed : Deployment.perform s σ.deployment.core.now process (.put cid ticket data) =
      .ok node' := by
    simp only [Deployment.perform, bind_eq_ok, require_eq_ok, pure_eq_ok, named, volume]
    exact ⟨node', accepted, ⟨⟩, by omega, rfl⟩
  have result : σ.deployment.execute s ⟨target, .put cid ticket data⟩ =
      (true, { σ.deployment with
        disks := Function.update σ.deployment.disks (target, process.volume) node'.files }) := by
    simp only [Deployment.execute, serves, performed]
  obtain ⟨inst', running, same⟩ := Deployment.node_eq_some.mp serves
  have mounted : (s.hosts inst').2 = process.volume := by rw [same]
  rw [result]
  refine ⟨rfl, Deployment.readable_iff.mpr ⟨inst', chunk, running, stored, ?_⟩⟩
  dsimp only
  rw [mounted, Function.update_self]
  have intact : Node.read s.digest (node'.files.get? cid) chunk.length chunk.sha = .ok content :=
    (Node.read_eq_ok s.digest).mpr ⟨present, by omega, by omega, by rw [described.2, matched]⟩
  rw [intact]
  rfl

theorem puts (attended : Attended s c σ.deployment) {limit : Time} {job : Job} {repair : Repair}
    {sha : Sha} (here : σ.deployment.core.workers w = .fetched job repair sha)
    (aimed : Database.Aimed cid limit job repair σ.deployment.core.db)
    (known : repair.sha = some sha) (rested : σ.Rested c w)
    (small : (σ.deployment.buffers w).length ≤ 4 * 1024 * 1024)
    (sized : (σ.deployment.buffers w).length = repair.length)
    (hashed : s.digest (σ.deployment.buffers w) = sha) :
    ∃ σ', Upkeep.Leads s c w σ σ' ∧ σ'.deployment.core.workers w = .stored job repair ∧
      σ'.deployment.core.db = σ.deployment.core.db ∧
      σ'.deployment.core.now = σ.deployment.core.now ∧
      σ'.deployment.Readable s cid repair.target := by
  have concerned : job.task.chunk = cid := by rw [aimed.task]
  generalize issued : Claims.mk repair.upload job.task.chunk repair.length sha repair.target
    repair.volume repair.inst (σ.deployment.core.now + c.authTtl) = ticket
  obtain ⟨sent, sends, buffers, _, calls⟩ := worker_keeps (s := s) (c := c) σ
    (.putting job repair ticket)
    (show Chore.move c w .sendPut = _ from rfl) rested trivial
    (by simp only [Metadata.metadata, State.step, State.workerStep, here, issued])
  have filled : sent.deployment.buffers = σ.deployment.buffers := buffers
  have call : sent.deployment.calls (.worker w) =
      some ⟨⟨repair.target, .put cid ticket (σ.deployment.buffers w)⟩, none⟩ := by
    rw [calls, Deployment.follow_calls]
    simp [Deployment.request, State.setWorker, concerned]
  have awaited : (sent.deployment.awaited (.worker w)).isSome = true := by
    simp only [Deployment.awaited, sends.worker]
    rfl
  obtain ⟨chunk, stored, long, fixed⟩ := aimed.chunk
  obtain ⟨node, located, volume, inst⟩ := aimed.node
  have addressed : ticket.node = repair.target ∧ ticket.chunk = cid ∧ ticket.volume = node.volume ∧
      ticket.inst = node.inst := by
    subst issued
    exact ⟨rfl, concerned, volume.symm, inst.symm⟩
  have described : ticket.length = repair.length ∧ ticket.sha = sha := by
    subst issued
    exact ⟨rfl, rfl⟩
  have early : sent.deployment.core.now ≤ ticket.expires := by
    subst issued
    rw [sends.now]
    exact Int.le_add_of_nonneg_right (Int.natCast_nonneg _)
  obtain ⟨accepted, readable⟩ := execute_put (sends.leads.attended attended)
    (sends.db.symm ▸ located) (sends.db.symm ▸ stored) addressed
    ⟨long.trans described.1.symm, by rw [fixed, known, described.2]⟩
    early (sized.trans described.1.symm) (hashed.trans described.2.symm) small
  obtain ⟨put, delivers, core, disks, answered, _⟩ := leads_deliver (c := c)
    (show Chore.move c w .deliver = _ from rfl) awaited (by simp) call
  rw [accepted] at answered
  have there : put.deployment.core.workers w = .putting job repair ticket := by
    rw [core]
    exact sends.worker
  have leads := sends.leads.trans delivers
  obtain ⟨σ', ends, _⟩ := worker_keeps (s := s) (c := c) put (.stored job repair)
    (show Chore.move c w .putDone = _ from rfl) trivial ⟨_, answered, rfl⟩
    (by simp only [Metadata.metadata, State.step, State.workerStep, there])
  refine ⟨σ', leads.trans ends.leads, ends.worker, ?_, ?_, ?_⟩
  · rw [ends.db, core, sends.db]
  · rw [ends.now, core, sends.now]
  · have running := (delivers.framed (sends.leads.reached attended.reached)).running
    rw [ends.readable rfl, Deployment.readable_iff, disks, core, running]
    rw [Deployment.readable_iff, Deployment.execute_frame] at readable
    exact readable

theorem checks {limit : Time} {job : Job} {repair : Repair}
    (here : σ.deployment.core.workers w = .stored job repair)
    (aimed : Database.Aimed cid limit job repair σ.deployment.core.db)
    (readable : σ.deployment.Readable s cid repair.target) :
    ∃ σ', Upkeep.Leads s c w σ σ' ∧ σ'.deployment.core.workers w = .verified job repair ∧
      σ'.deployment.core.db = σ.deployment.core.db ∧
      σ'.deployment.core.now = σ.deployment.core.now := by
  obtain ⟨sent, sends, _, _, calls⟩ := worker_keeps (s := s) (c := c) σ (.checking job repair)
    (show Chore.move c w .sendStat = _ from rfl) trivial trivial
    (by simp only [Metadata.metadata, State.step, State.workerStep, here])
  have concerned : job.task.chunk = cid := by rw [aimed.task]
  obtain ⟨chunk, stored, sized, fixed⟩ := aimed.chunk
  have call : sent.deployment.calls (.worker w) =
      some ⟨⟨repair.target, .stat cid chunk.length chunk.sha⟩, none⟩ := by
    rw [calls, Deployment.follow_calls]
    simp [Deployment.request, State.setWorker, concerned, sized, fixed]
  have awaited : (sent.deployment.awaited (.worker w)).isSome = true := by
    simp only [Deployment.awaited, sends.worker]
    rfl
  have found := @Deployment.execute_stat s sent.deployment cid repair.target chunk
    (sends.db.symm ▸ stored)
  obtain ⟨asked, delivers, core, _, answered, _⟩ := leads_deliver (c := c)
    (show Chore.move c w .deliver = _ from rfl) awaited (by simp) call
  rw [found, decide_eq_true ((sends.readable rfl _).mpr readable)] at answered
  have there : asked.deployment.core.workers w = .checking job repair := by
    rw [core]
    exact sends.worker
  obtain ⟨σ', ends, _⟩ := worker_keeps (s := s) (c := c) asked (.verified job repair)
    (show Chore.move c w .statDone = _ from rfl) trivial ⟨_, answered, rfl⟩
    (by simp only [Metadata.metadata, State.step, State.workerStep, there])
  refine ⟨σ', (sends.leads.trans delivers).trans ends.leads, ends.worker, ?_, ?_⟩
  · rw [ends.db, core, sends.db]
  · rw [ends.now, core, sends.now]

/-- The copy is written down. -/
theorem commits {limit : Time} {job : Job} {repair : Repair}
    (here : σ.deployment.core.workers w = .verified job repair)
    (aimed : Database.Aimed cid limit job repair σ.deployment.core.db)
    (early : σ.deployment.core.now < limit)
    (few : ¬σ.deployment.Enough c cid repair.required) :
    ∃ σ', Upkeep.Leads s c w σ σ' ∧ σ'.deployment.core.workers w = .idle ∧
      σ'.deployment.Keeps s cid repair.target := by
  obtain ⟨db, committed, _, ⟨row, stored, valid⟩, _⟩ := aimed.commits (c := c) early (not_le.mp few)
  have stepped : Metadata.metadata.step σ.deployment.core (.commit w c) =
      some (State.setWorker { σ.deployment.core with db } w .idle) := by
    simp only [Metadata.metadata, State.step, State.workerStep, State.commitJob, here, committed]
  obtain ⟨σ', works, _⟩ := worker_works (s := s) (c := c)
    (show Chore.move c w .commit = _ from rfl) trivial trivial stepped
  exact ⟨σ', works.leads, works.worker, row, by rw [works.db]; exact stored, .inl valid⟩

/-- The thread waits for its transfer within the lease. -/
theorem rests {job : Job} {repair : Repair} {sha : Sha}
    (here : σ.deployment.core.workers w = .fetched job repair sha)
    (slept : σ.slept = σ.deployment.core.now)
    (timely : repair.length * c.repairWorkers ≤ (c.lease - 1) * c.bandwidth) :
    ∃ σ', Upkeep.Leads s c w σ σ' ∧ σ'.Rested c w ∧
      σ'.deployment.core =
        { σ.deployment.core with now := σ.deployment.core.now + (c.lease - 1 : Nat) } ∧
      σ'.deployment.buffers = σ.deployment.buffers := by
  obtain ⟨σ', ticks, core, _, buffers, same⟩ := @leads_tick s c w σ (c.lease - 1)
  refine ⟨σ', ticks, ?_, core, buffers⟩
  simp only [Upkeep.Rested, core, here, same, slept]
  rw [add_sub_cancel_left]
  exact_mod_cast timely

theorem copy_made (tended : Tended s c cid length required σ.deployment)
    (idle : σ.deployment.core.workers w = .idle)
    (next : σ.deployment.core.db.nextTask σ.deployment.core.now = some ⟨.repair, cid, none⟩)
    (prompt : ∀ nid node, σ.deployment.core.db.nodes.get? nid = some node →
      σ.deployment.Prompt node) (judged : σ.deployment.Judged cid)
    (copyable : ∀ σ', Upkeep.Leads s c w σ σ' → σ'.deployment.Copyable s c cid length)
    (few : ∀ σ', Upkeep.Leads s c w σ σ' → ¬σ'.deployment.Enough c cid required)
    (room : ∃ nid ∈ σ.deployment.nodeIds, σ.deployment.Spare cid nid) :
    ∃ σ' target, Upkeep.Leads s c w σ σ' ∧ σ'.deployment.core.workers w = .idle ∧
      σ.deployment.Spare cid target ∧ σ'.deployment.Keeps s cid target := by
  obtain ⟨claimed, token, claims, there, now, _, tables⟩ := @leads_claim s c w σ _ idle next
  obtain ⟨row, stored, _⟩ := Database.nextTask_eq_some next
  have present : claimed.deployment.core.db.tasks.get? ⟨.repair, cid, none⟩ =
      some (Database.claimed c σ.deployment.core.now token row) := by
    rw [tables]
    simp [Database.claim, Database.modifyTask, Database.claimed, stored]
  have lasting : 0 < c.lease :=
    lt_of_lt_of_le (Nat.lt_of_lt_of_le (by decide) (Nat.le_add_right 40 _)) c.leaseBounds.1
  have leased : claimed.deployment.core.now <
      (Database.claimed c σ.deployment.core.now token row).lease := by
    rw [now]
    exact Int.lt_add_of_pos_right _ (by exact_mod_cast lasting)
  have sameNodes : claimed.deployment.core.db.nodes = σ.deployment.core.db.nodes := by
    rw [tables]
    rfl
  have sameReplicas : claimed.deployment.core.db.replicas = σ.deployment.core.db.replicas := by
    rw [tables]
    rfl
  have stillPrompt : ∀ nid node, claimed.deployment.core.db.nodes.get? nid = some node →
      claimed.deployment.Prompt node := by
    intro nid node located
    rw [sameNodes] at located
    obtain ⟨state, heartbeat, capacity, free⟩ := prompt nid node located
    have bytes := (claims.framed tended.reached).recordedBytes
    exact ⟨state, heartbeat.trans now.symm, bytes ▸ capacity, bytes ▸ free⟩
  have stillSpare : ∀ nid, claimed.deployment.Spare cid nid ↔ σ.deployment.Spare cid nid := by
    intro nid
    simp only [Deployment.Spare, sameReplicas]
  obtain ⟨begun, repair, db, begins, aimed, enough, sized, spare, source, listed, readable⟩ :=
    begins (claims.tended tended) there rfl present rfl rfl leased stillPrompt
      (by simp only [Deployment.Judged, sameReplicas]; exact judged) (copyable _ claims)
      (few _ claims) (by
        obtain ⟨nid, registered, free⟩ := room
        exact ⟨nid, (claims.framed tended.reached).nodeIds.mpr registered,
          (stillSpare nid).mpr free⟩)
  have toBegun := claims.trans begins.leads
  have begunChunks : db.chunks = claimed.deployment.core.db.chunks := by
    rw [← begins.db]
    exact (begins.leads.framed (claims.reached tended.reached)).chunks
  obtain ⟨fetched, sha, fetches, known, slept, small, long, hashed⟩ :=
    fetches (s := s) (c := c) begins.worker (begins.db.symm ▸ aimed)
      ⟨source, listed, (begins.readable begunChunks _).mpr readable⟩
  have toFetched := toBegun.trans fetches.leads
  obtain ⟨rested, rests, waited, core, buffers⟩ := rests (s := s) (c := c) fetches.worker
    (slept.trans fetches.now.symm) (sized ▸ (copyable _ claims).timely)
  have toRested := toFetched.trans rests
  have aimed : Database.Aimed cid (Database.claimed c σ.deployment.core.now token row).lease
      ⟨⟨.repair, cid, none⟩, token⟩ repair rested.deployment.core.db := by
    rw [core, fetches.db, begins.db]
    exact aimed
  obtain ⟨stored, puts, storing, storedTables, still, copied⟩ :=
    puts (toRested.tended tended).attended (by rw [core]; exact fetches.worker) aimed known waited
      (by rw [buffers]; exact small) (by rw [buffers]; exact long) (by rw [buffers]; exact hashed)
  have toStored := toRested.trans puts
  obtain ⟨checked, checks, verified, checkedTables, unmoved⟩ :=
    checks (c := c) storing (storedTables.symm ▸ aimed) copied
  have toChecked := toStored.trans checks
  obtain ⟨σ', commits, ends, keeps⟩ := commits (s := s) (c := c) verified
    (by rw [checkedTables, storedTables]; exact aimed) (by
      rw [unmoved, still, core, fetches.now, begins.now, now]
      exact Int.add_lt_add_left (by exact_mod_cast Nat.sub_one_lt_of_lt lasting) _) (by
      rw [enough]
      exact few _ toChecked)
  exact ⟨σ', repair.target, toChecked.trans commits, ends, (stillSpare _).mp spare, keeps⟩

end Copying

end FileServer.Cluster

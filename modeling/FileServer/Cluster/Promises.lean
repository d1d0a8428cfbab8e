import FileServer.Cluster.Contents
import FileServer.Gateway.Rejections
import FileServer.Metadata.Pledges

/-!
# Space that is promised

A reservation whose file is not written yet counts on free bytes of the disk.
They are there as long as no demand trusts a report older than a confirmed
write, nothing is written outside a reservation, and no volume is replaced by
one with less room.
-/

namespace FileServer.Cluster

open FileServer.Gateway FileServer.Metadata FileServer.Relational FileServer.Storage
  FileServer.Transition

namespace Deployment

section Space

variable (s : Site) (κ : Deployment) (nid : NodeId) (volume : Ident)

def unwritten (disk : NodeId × Ident) (cid : Ident) : Int :=
  if (κ.disks disk).get? cid = none then κ.core.db.lengthOf cid else 0

/-- The bytes of the reserved rows of a node whose files are not on the volume. -/
def promised : Int := κ.core.db.pledged (κ.unwritten (nid, volume)) nid

/-- The bytes that are free on the disk. -/
def room : Int := s.size (nid, volume) - κ.occupied (nid, volume)

/-- No node has promised more than is free on its disk. -/
def Backed : Prop :=
  ∀ nid node, κ.core.db.nodes.get? nid = some node →
    κ.promised nid node.volume ≤ κ.room s nid node.volume

end Space

/-- A demand counts on reported bytes that are not free any more, a file that
nothing is reserved for takes promised ones, or another volume with too little
room is mounted. -/
inductive Overcommits (s : Site) (κ : Deployment) : Move → Prop where
  | demand (action c bytes nid node) (demands : Demands κ.core nid action c bytes)
      (located : κ.core.db.nodes.get? nid = some node) (alive : node.Alive c κ.core.now)
      (stale : κ.room s nid node.volume - κ.promised nid node.volume <
        min (bytes : Int) (node.freeBytes - node.reserved)) :
      Overcommits s κ (.metadata action)
  | write (move remote inst node cid claims data) (delivered : move.delivers κ = some remote)
      (message : remote.message = .put cid claims data) (accepted : (κ.execute s remote).1 = true)
      (runs : κ.running remote.node = some inst)
      (located : κ.core.db.nodes.get? remote.node = some node)
      (volume : node.volume = (s.hosts inst).2)
      (absent : (κ.disks (remote.node, node.volume)).get? cid = none)
      (unreserved : ∀ row, κ.core.db.replicas.get? (cid, remote.node) = some row →
        row.state ≠ .reserved)
      (full : κ.room s remote.node node.volume - κ.promised remote.node node.volume <
        data.length) : Overcommits s κ move
  | remount (i c beat db node) (present : κ.core.beats i = some beat)
      (registered : κ.core.db.register c beat = .ok db)
      (located : κ.core.db.nodes.get? beat.node = some node) (moved : node.volume ≠ beat.volume)
      (full : κ.room s beat.node beat.volume < κ.promised beat.node beat.volume) :
      Overcommits s κ (.metadata (.register i c))

section Steps

variable {s : Site} {κ κ' : Deployment}

theorem unwritten_nonneg (disk : NodeId × Ident) (cid : Ident) : 0 ≤ κ.unwritten disk cid := by
  unfold unwritten
  split <;> omega

theorem unwritten_le (disk : NodeId × Ident) (cid : Ident) :
    κ.unwritten disk cid ≤ κ.core.db.lengthOf cid := by
  unfold unwritten
  split <;> omega

/-- A transaction changes no file and no recorded length. -/
theorem pledged_grown (consistent : Consistent κ.core.db) {drawn : List Ident}
    (grown : Grown drawn κ.core.db κ'.core.db) (disks : κ'.disks = κ.disks) (disk : NodeId × Ident)
    (nid : NodeId) :
    κ.core.db.pledged (κ'.unwritten disk) nid = κ.core.db.pledged (κ.unwritten disk) nid := by
  refine Database.pledged_congr (fun cid other row stored => ?_) nid
  obtain ⟨chunk, located⟩ := consistent.replicaChunk cid other row stored
  obtain ⟨chunk', located', kept, _⟩ := grown.chunks cid chunk located
  simp only [unwritten, disks, Database.lengthOf_of_stored located,
    Database.lengthOf_of_stored located', kept.length]

theorem room_nonneg (recorded : Recorded s κ) (nid : NodeId) (volume : Ident) :
    0 ≤ κ.room s nid volume := by
  have fits := recorded.fits (nid, volume)
  unfold room
  omega

/-- A node that is not registered has nothing reserved. -/
theorem promised_absent (consistent : Consistent κ.core.db) {nid : NodeId}
    (absent : κ.core.db.nodes.get? nid = none) (volume : Ident) : κ.promised nid volume = 0 := by
  unfold promised Database.pledged
  refine κ.core.db.replicas.sum_eq_zero fun key row stored => if_neg ?_
  rintro ⟨rfl, _⟩
  obtain ⟨node, located⟩ := consistent.replicaNode key.1 key.2 row stored
  rw [absent] at located
  cases located

theorem Backed.metadata (backed : Backed s κ) (sound : Sound s κ) (recorded : Recorded s κ)
    {action : Action} {core : State}
    (stepped : Metadata.metadata.step κ.core action = some core)
    (spared : ¬Overcommits s κ (.metadata action)) : Backed s (κ.follow s action core) := by
  obtain ⟨same, disks, _⟩ := κ.follow_frame s action core
  have consistent := (reachable_invariant sound.reached).consistent
  obtain ⟨focus, focuses, drawn, _, effect⟩ := reachable_effect sound.reached stepped
  have grown : Grown drawn κ.core.db (κ.follow s action core).core.db :=
    same.symm ▸ effect.steps.grown
  intro nid node' located'
  have kept : (κ.follow s action core).room s nid node'.volume = κ.room s nid node'.volume := by
    simp only [room, occupied, disks]
  rw [kept]
  have before : κ.core.db.pledged ((κ.follow s action core).unwritten (nid, node'.volume)) nid =
      κ.promised nid node'.volume :=
    pledged_grown consistent grown disks (nid, node'.volume) nid
  have measured : Measured κ.core action
      ((κ.follow s action core).unwritten (nid, node'.volume)) nid core.db := by
    refine .step sound.reached stepped (unwritten_nonneg _) fun cid => ?_
    have bounded := (κ.follow s action core).unwritten_le (nid, node'.volume) cid
    rwa [same] at bounded
  have result : (κ.follow s action core).promised nid node'.volume =
      core.db.pledged ((κ.follow s action core).unwritten (nid, node'.volume)) nid := by
    rw [promised, same]
  rw [result]
  rw [same] at located'
  by_cases other : focus = .register nid
  · subst other
    cases focuses with
    | request c owner command ident focus focused => cases focused
    | requestBy _ _ _ _ _ move =>
        cases move with
        | command _ _ _ _ _ focused => cases focused
    | register i c beat db present registered =>
        have stays : core.db.pledged
            ((κ.follow s (.register i c) core).unwritten (beat.node, node'.volume)) beat.node ≤
            κ.promised beat.node node'.volume := by
          rcases measured with less | ⟨_, _, _, demands, _⟩
          · exact before ▸ less
          · cases demands
        have volume : node'.volume = beat.volume := by
          have taken : κ.core.step (.register i c) = some core := stepped
          simp only [State.step, present, registered, Option.some.injEq] at taken
          have stored := (Database.register_ok registered).stored
          have reached : core.db = db := taken ▸ rfl
          rw [reached, stored, Option.some.injEq] at located'
          exact located' ▸ rfl
        cases known : κ.core.db.nodes.get? beat.node with
        | none =>
            rw [promised_absent consistent known] at stays
            exact stays.trans (room_nonneg recorded _ _)
        | some node =>
            refine stays.trans ?_
            by_cases moved : node.volume = beat.volume
            · rw [volume, ← moved]
              exact backed beat.node node known
            · rw [volume]
              by_contra full
              exact spared (.remount i c beat db node present registered known moved
                (not_le.mp full))
  · have related := effect.steps.sameNode other
    rw [located'] at related
    cases known : κ.core.db.nodes.get? nid with
    | none => simp [known] at related
    | some node =>
        rw [known, Option.rel_some_some] at related
        have held := backed nid node known
        rw [← related.volume] at held
        rcases measured with less | ⟨c, bytes, _, demands, registered, alive, grown⟩
        · exact less.trans (before ▸ held)
        · obtain rfl := Option.some.inj (known.symm.trans registered)
          by_contra beyond
          refine spared (.demand action c bytes nid node demands known alive ?_)
          rw [before] at grown
          rw [← related.volume]
          omega

theorem space_other {disk : NodeId × Ident} (files : Table Ident Bytes) {nid : NodeId}
    {volume : Ident} (other : (nid, volume) ≠ disk) :
    Deployment.promised { κ with disks := Function.update κ.disks disk files } nid volume =
        κ.promised nid volume ∧
      Deployment.room s { κ with disks := Function.update κ.disks disk files } nid volume =
        κ.room s nid volume := by
  constructor
  · have same : Deployment.unwritten { κ with disks := Function.update κ.disks disk files }
        (nid, volume) = κ.unwritten (nid, volume) := by
      funext cid
      simp only [unwritten, Function.update_of_ne other]
    simp only [promised, same]
  · simp only [room, occupied, Function.update_of_ne other]

theorem promised_file {nid : NodeId} {volume : Ident} {files : Table Ident Bytes} {cid : Ident}
    (others : ∀ other, other ≠ cid → files.get? other = (κ.disks (nid, volume)).get? other) :
    Deployment.promised { κ with disks := Function.update κ.disks (nid, volume) files } nid volume =
      κ.promised nid volume + (κ.core.db.replicas.get? (cid, nid)).elim 0 fun row =>
        if row.state = .reserved then
          (if files.get? cid = none then (κ.core.db.lengthOf cid : Int) else 0) -
            κ.unwritten (nid, volume) cid else 0 := by
  unfold promised
  rw [@Database.pledged_weight κ.core.db (κ.unwritten (nid, volume)) _ cid]
  · simp only [unwritten, Function.update_self]
  · intro other different
    simp only [unwritten, Function.update_self, others other different]

theorem Backed.execute (backed : Backed s κ) (recorded : Recorded s κ) {move : Move}
    {remote : Remote} (delivered : move.delivers κ = some remote)
    (authorized : remote.Authorized κ.core.db) (spared : ¬Overcommits s κ move) :
    Backed s (κ.execute s remote).2 := by
  have done := κ.executed (s := s) remote
  generalize (κ.execute s remote).2 = κ' at done ⊢
  generalize success : (κ.execute s remote).1 = answer at done
  cases done with
  | keep => exact backed
  | store inst cid claims data runs message chunk sized hashed absent fits =>
      intro nid node located
      have held := backed nid node located
      by_cases here : (nid, node.volume) = (remote.node, (s.hosts inst).2)
      · obtain ⟨rfl, volume⟩ := Prod.mk.inj here
        rw [← volume] at absent ⊢
        have length : κ.core.db.lengthOf cid = data.length := by
          have described := authorized cid claims data message
          rw [← chunk, described.lengthOf, sized]
        have shrunk : Deployment.room s { κ with
            disks := Function.update κ.disks (remote.node, node.volume)
              ((κ.disks (remote.node, node.volume)).upsert cid data fun _ => data) }
            remote.node node.volume = κ.room s remote.node node.volume - data.length := by
          simp only [room, occupied, Function.update_self, Table.sum_upsert_absent _ _ _ _ absent]
          omega
        rw [shrunk, promised_file fun other (different : other ≠ cid) => by
          rw [Table.get?_upsert, if_neg different]]
        simp only [Table.get?_upsert, absent, if_true, unwritten, length]
        by_cases reserved : ∃ row, κ.core.db.replicas.get? (cid, remote.node) = some row ∧
            row.state = .reserved
        · obtain ⟨row, stored, state⟩ := reserved
          simp only [stored, state, Option.elim_some, if_true]
          simp
          omega
        · have room : (data.length : Int) ≤
              κ.room s remote.node node.volume - κ.promised remote.node node.volume := by
            by_contra full
            exact spared (.write move remote inst node cid claims data delivered message success
              runs located volume absent (fun row stored state => reserved ⟨row, stored, state⟩)
              (not_le.mp full))
          cases stored : κ.core.db.replicas.get? (cid, remote.node) with
          | none =>
              simp only [Option.elim_none]
              omega
          | some row =>
              have unreserved : row.state ≠ .reserved := fun state => reserved ⟨row, stored, state⟩
              simp only [Option.elim_some, if_neg unreserved]
              omega
      · obtain ⟨promised, room⟩ := space_other (s := s) (κ := κ) _ here
        exact (promised.trans_le held).trans_eq room.symm
  | erase inst cid runs message =>
      intro nid node located
      have held := backed nid node located
      by_cases here : (nid, node.volume) = (remote.node, (s.hosts inst).2)
      · obtain ⟨rfl, volume⟩ := Prod.mk.inj here
        rw [← volume]
        have total := (κ.disks (remote.node, node.volume)).sum_erase cid
          fun _ content => content.length
        have grown : Deployment.room s { κ with
            disks := Function.update κ.disks (remote.node, node.volume)
              ((κ.disks (remote.node, node.volume)).erase cid) } remote.node node.volume =
            κ.room s remote.node node.volume +
              ((κ.disks (remote.node, node.volume)).get? cid).elim 0 fun content => content.length := by
          simp only [room, occupied, Function.update_self]
          omega
        have freed : (κ.core.db.lengthOf cid : Int) - κ.unwritten (remote.node, node.volume) cid =
            ((κ.disks (remote.node, node.volume)).get? cid).elim 0 fun content => content.length := by
          cases file : (κ.disks (remote.node, node.volume)).get? cid with
          | none => simp [unwritten, file]
          | some content =>
              have described := recorded.files _ cid content file
              simp [unwritten, file, described.lengthOf]
        rw [grown, promised_file fun other (different : other ≠ cid) => by
          rw [Table.get?_erase, if_neg different]]
        simp only [Table.get?_erase, if_true, freed]
        cases stored : κ.core.db.replicas.get? (cid, remote.node) with
        | none =>
            simp only [Option.elim_none]
            omega
        | some row =>
            simp only [Option.elim_some]
            split <;> omega
      · obtain ⟨promised, room⟩ := space_other (s := s) (κ := κ) _ here
        exact (promised.trans_le held).trans_eq room.symm

theorem Backed.step (backed : Backed s κ) (sound : Sound s κ) (recorded : Recorded s κ)
    {move : Move} (taken : Takes s κ move κ') (spared : ¬Overcommits s κ move) : Backed s κ' := by
  cases taken with
  | metadata action core allowed stepped => exact backed.metadata sound recorded stepped spared
  | deliver v remote sent =>
      exact backed.execute recorded (by simp [Move.delivers, pending, sent])
        (fun cid claims data put => recorded.calls v _ sent cid claims data put) spared
  | drift k remote sent =>
      have delivered : Move.delivers κ (.drift k) = some remote := sent
      exact backed.execute recorded delivered
        (recorded.adrift remote (List.mem_of_getElem? sent)) spared
  | send | start | stop | report => exact backed

end Steps

end Deployment

/-- In a run that never overcommits, every node can still write what is
reserved on it, in every state. -/
theorem promises_backed {s : Site} {history : List (Event Deployment Move)}
    {κ earlier : Deployment} (run : Run (cluster s) history κ)
    (spared : ∀ event ∈ history, ¬event.before.Overcommits s event.action)
    (seen : Visited history κ earlier) : earlier.Backed s := by
  have kept : (earlier.Sound s ∧ earlier.Recorded s) ∧ earlier.Backed s := by
    refine run.visitedUnder (fun κ => (κ.Sound s ∧ κ.Recorded s) ∧ κ.Backed s)
      (fun event => ¬event.before.Overcommits s event.action) ⟨⟨.initial, .initial⟩, ?_⟩ ?_
      spared seen
    · intro nid node located
      simp [cluster, Deployment.initial, State.initial, Database.empty] at located
    · rintro before move after ⟨⟨sound, recorded⟩, backed⟩ spared stepped
      have taken := takes stepped
      exact ⟨⟨sound.step taken, recorded.step sound taken⟩, backed.step sound recorded taken spared⟩
  exact kept.2

section Stale

/-- Three empty disks, and an upload that reserves a byte on two of them. -/
def initMoves : List Move :=
  [.start 101, .start 102, .start 103] ++ roundMoves 100 ++
    [.metadata (.request installation "owner" (.init 1 "file") (1000 + ·))]

def initialized : Deployment :=
  ((cluster (site sampleDigest 100)).execute (cluster (site sampleDigest 100)).initial
    initMoves).get (by decide +kernel)

/-- The byte reserved on the first node is free on its disk. -/
theorem promises_backed_initialized : initialized.promised 1 201 = 1 ∧
    initialized.promised 1 201 ≤ initialized.room (site sampleDigest 100) 1 201 := by
  have sufficient : ∀ event ∈ (cluster (site sampleDigest 100)).events
      (cluster (site sampleDigest 100)).initial initMoves,
      ∀ entry ∈ event.before.core.db.nodes.rows,
        1 ≤ event.before.room (site sampleDigest 100) entry.1 entry.2.volume -
          event.before.promised entry.1 entry.2.volume := by decide +kernel
  have mounted : ∀ event ∈ (cluster (site sampleDigest 100)).events
      (cluster (site sampleDigest 100)).initial initMoves, ∀ i ∈ [1, 2, 3],
      ∀ beat ∈ event.before.core.beats i, ∀ node ∈ event.before.core.db.nodes.get? beat.node,
        node.volume = beat.volume := by decide +kernel
  have located : ∃ node, initialized.core.db.nodes.get? 1 = some node ∧ node.volume = 201 := by
    have known : (initialized.core.db.nodes.get? 1).map NodeRow.volume = some 201 := by
      decide +kernel
    exact Option.map_eq_some_iff.mp known
  obtain ⟨node, stored, volume⟩ := located
  refine ⟨by decide +kernel, volume ▸ promises_backed
    ((cluster (site sampleDigest 100)).run initMoves (by decide +kernel)) ?_ (.last _ _) 1 node stored⟩
  intro event membership overcommits
  have listed := System.action_mem_of_mem_events membership
  have enough := sufficient event membership
  have stays := mounted event membership
  generalize event.action = action at listed overcommits
  cases overcommits with
  | demand action c bytes nid node demands known alive stale =>
      have room := enough (nid, node) ((Table.mem_rows_iff _).mpr known)
      cases demands <;> simp [initMoves, roundMoves, reportMoves] at listed
      obtain ⟨_, _, ⟨rfl, _⟩, _⟩ := listed
      simp at room stale
      omega
  | write _ remote inst node cid claims data delivered =>
      cases action <;> simp [initMoves, roundMoves, reportMoves, Move.delivers] at listed delivered
  | remount i c beat db node present registered known moved =>
      have slot : i ∈ [1, 2, 3] := by
        simp [initMoves, roundMoves, reportMoves] at listed
        rcases listed with ⟨rfl, _⟩ | ⟨rfl, _⟩ | ⟨rfl, _⟩ <;> simp
      exact moved (stays i slot beat present node known)

/-- The byte of a published object fills the disks of two nodes, which have not
reported again; one of them is chosen for the next object. -/
def staleMoves : List Move :=
  uploadMoves (sampleDigest [5]) 1 ++
    [.metadata (.request installation "owner" (.init 1 "second") (2000 + ·))]

def stale : Deployment :=
  ((cluster (site sampleDigest 1)).execute (cluster (site sampleDigest 1)).initial staleMoves).get
    (by decide +kernel)

/-- A byte is promised on a full disk. -/
theorem stale_report_overcommits : ¬∀ κ, Reachable (cluster (site sampleDigest 1)) κ →
    κ.Backed (site sampleDigest 1) := by
  intro backed
  have reached : Reachable (cluster (site sampleDigest 1)) stale :=
    ⟨_, (cluster (site sampleDigest 1)).run staleMoves (by decide +kernel)⟩
  have known : (stale.core.db.nodes.get? 1).map NodeRow.volume = some 201 := by decide +kernel
  obtain ⟨node, stored, volume⟩ := Option.map_eq_some_iff.mp known
  have held := backed stale reached 1 node stored
  have promised : stale.promised 1 201 = 1 := by decide +kernel
  have room : stale.room (site sampleDigest 1) 1 201 = 0 := by decide +kernel
  rw [volume, promised, room] at held
  omega

end Stale

end FileServer.Cluster

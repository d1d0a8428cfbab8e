import FileServer.Cluster.Invariant

/-!
# What is on the disks

A write authorization describes its chunk as it is recorded, and a node stores
nothing else under it.  So every file is the recorded content of its chunk, and
no disk is over its size.
-/

namespace FileServer.Cluster

open FileServer.Metadata FileServer.Relational FileServer.Storage FileServer.Transition

/-- A `put` carries an authorization that describes the chunk as recorded. -/
def Remote.Authorized (db : Database) (remote : Remote) : Prop :=
  ∀ cid claims data, remote.message = .put cid claims data →
    Described db claims.chunk claims.length (some claims.sha)

theorem Remote.Authorized.grown {db db' : Database} {drawn : List Ident} {remote : Remote}
    (authorized : remote.Authorized db) (grown : Grown drawn db db') : remote.Authorized db' :=
  fun cid claims data put => (authorized cid claims data put).grown grown

theorem Described.of_stored {db : Database} {cid : Ident} {chunk : ChunkRow} {sha : Sha}
    (stored : db.chunks.get? cid = some chunk) (fixed : chunk.sha = some sha) :
    Described db cid chunk.length (some sha) := by
  rintro checksum ⟨⟩
  exact ⟨chunk, stored, rfl, fixed⟩

theorem Described.lengthOf {db : Database} {cid : Ident} {length : Nat} {sha : Sha}
    (described : Described db cid length (some sha)) : db.lengthOf cid = length := by
  obtain ⟨chunk, stored, sized, _⟩ := described sha rfl
  exact (Database.lengthOf_of_stored stored).trans sized

namespace Deployment

variable {s : Site} {κ κ' : Deployment}

def occupied (κ : Deployment) (disk : NodeId × Ident) : Nat :=
  (κ.disks disk).sum fun _ content => content.length

/-- What a request does to the disks. -/
inductive Executed (s : Site) (κ : Deployment) (remote : Remote) : Bool → Deployment → Prop where
  | keep (answer) : Executed s κ remote answer κ
  | store (inst cid claims data) (runs : κ.running remote.node = some inst)
      (message : remote.message = .put cid claims data) (chunk : claims.chunk = cid)
      (sized : data.length = claims.length) (hashed : s.digest data = claims.sha)
      (absent : (κ.disks (remote.node, (s.hosts inst).2)).get? cid = none)
      (fits : κ.occupied (remote.node, (s.hosts inst).2) + data.length ≤
        s.size (remote.node, (s.hosts inst).2)) :
      Executed s κ remote true { κ with
        disks := Function.update κ.disks (remote.node, (s.hosts inst).2)
          ((κ.disks (remote.node, (s.hosts inst).2)).upsert cid data fun _ => data) }
  | erase (inst cid) (runs : κ.running remote.node = some inst)
      (message : remote.message = .remove cid inst (s.hosts inst).2) :
      Executed s κ remote true { κ with
        disks := Function.update κ.disks (remote.node, (s.hosts inst).2)
          ((κ.disks (remote.node, (s.hosts inst).2)).erase cid) }

theorem executed (remote : Remote) :
    Executed s κ remote (κ.execute s remote).1 (κ.execute s remote).2 := by
  unfold execute
  split
  · exact .keep _
  · next node runs =>
      obtain ⟨inst, running, rfl⟩ := node_eq_some.mp runs
      split
      · next node' performed =>
          have kept : Executed s κ remote true { κ with
              disks := Function.update κ.disks (remote.node, (s.hosts inst).2)
                (κ.disks (remote.node, (s.hosts inst).2)) } := by
            rw [Function.update_eq_self]
            exact .keep _
          cases asked : remote.message with
          | put cid claims data =>
              simp only [perform, asked, bind_eq_ok, require_eq_ok, pure_eq_ok] at performed
              obtain ⟨_, accepted, _, fits, rfl⟩ := performed
              obtain ⟨checked, sized, hashed, ⟨_, _, rfl⟩ | ⟨absent, _, rfl⟩⟩ :=
                Node.put_ok _ _ accepted
              · exact kept
              · simp only [Node.checkTarget, bind_eq_ok, require_eq_ok] at checked
                obtain ⟨_, _, _, ⟨_, chunk, _⟩, _⟩ := checked
                refine .store inst cid claims data running asked chunk sized hashed absent ?_
                simpa only [Node.used, occupied, Table.sum_upsert_absent _ _ _ _ absent] using fits
          | stat cid length sha =>
              simp only [perform, asked, bind_eq_ok, pure_eq_ok] at performed
              obtain ⟨_, _, rfl⟩ := performed
              exact kept
          | remove cid other volume =>
              simp only [perform, asked] at performed
              obtain ⟨⟨rfl, rfl⟩, rfl⟩ := (Node.remove_ok _).mp performed
              exact .erase other cid running asked
      · exact .keep _

def Writes (db : Database) : Worker → Prop
  | .fetched _ repair sha => repair.sha = some sha
  | .putting _ _ claims => Described db claims.chunk claims.length (some claims.sha)
  | _ => True

theorem Writes.grown {db db' : Database} {drawn : List Ident} {worker : Worker}
    (writes : Writes db worker) (grown : Grown drawn db db') : Writes db' worker := by
  cases worker with
  | putting job repair claims => exact Described.grown writes grown
  | fetched job repair sha => exact writes
  | _ => trivial

theorem Writes.move {σ : State} {action : Action} {w : Nat} {before worker : Worker}
    {db : Database} (move : WorkerMove σ w action before worker db) (here : σ.workers w = before)
    (invariant : σ.Invariant) (writes : Writes σ.db before) : Writes db worker := by
  cases move with
  | fetched job repair source left sha known => exact known
  | sendPut c job repair sha =>
      obtain ⟨_, known⟩ := (invariant.workers w).repair job repair (by rw [here]; rfl)
      obtain ⟨chunk, _, _, stored, sized, fixed, _⟩ := known.chunk
      rw [writes] at fixed
      exact sized ▸ Described.of_stored stored fixed
  | _ => trivial

/-- The files and the writes that are out. -/
structure Recorded (s : Site) (κ : Deployment) : Prop where
  tickets : ∀ claims ∈ κ.tickets, Described κ.core.db claims.chunk claims.length (some claims.sha)
  threads : ∀ w, Writes κ.core.db (κ.core.workers w)
  calls : ∀ v sent, κ.calls v = some sent → sent.remote.Authorized κ.core.db
  adrift : ∀ remote ∈ κ.adrift, remote.Authorized κ.core.db
  files : ∀ disk cid content, (κ.disks disk).get? cid = some content →
    Described κ.core.db cid content.length (some (s.digest content))
  fits : ∀ disk, κ.occupied disk ≤ s.size disk

theorem Recorded.initial : Recorded s Deployment.initial where
  tickets := by simp [Deployment.initial]
  threads := fun _ => trivial
  calls := by simp [Deployment.initial]
  adrift := by simp [Deployment.initial]
  files := by simp [Deployment.initial]
  fits := by simp [Deployment.initial, occupied]

/-- The tickets of an answer name the chunk that is fixed by then. -/
theorem dispatchBy_prepared {e : Engine} {c : Config} {now : Time} {db db' : Database}
    {ident : Nat → Ident} {request : Internal} {cid : Ident} {length : Nat} {sha : Sha}
    {assigned : List Assigned}
    (dispatched : db.dispatchBy e c now ident request =
      .ok (.prepared cid length sha assigned, db')) :
    Described db' cid length (some sha) ∧ ∀ entry ∈ assigned, entry.authorization.chunk = cid ∧
      entry.authorization.length = length ∧ entry.authorization.sha = sha := by
  cases kind : request.cmd <;>
    simp only [Database.dispatchBy, kind, bind_eq_ok, require_eq_ok, pure_eq_ok,
      Prod.mk.injEq, reduceCtorEq, false_and, and_false, exists_false] at dispatched
  obtain ⟨_, _, sel, _, prepared⟩ := dispatched
  simp only [Database.prepareBy, bind_eq_ok, require_eq_ok, found_eq_ok, pure_eq_ok, Prod.mk.injEq,
    Prod.exists, Response.prepared.injEq] at prepared
  obtain ⟨_, _, _, _, _, _, _, _, _, _, _, _, chunk, chosen, _, _, _, placed, _, _,
    ⟨rfl, rfl, rfl, rfl⟩, rfl⟩ := prepared
  constructor
  · refine @Described.of_stored _ _ { chunk with sha := some _ } _ ?_ rfl
    simp [Database.chunksAtBy_stored chosen]
  · obtain ⟨_, rfl⟩ := (mapM_guarded_eq_ok _ _ _ _).mp placed
    intro entry membership
    obtain ⟨_, _, rfl⟩ := List.mem_map.mp membership
    exact ⟨rfl, rfl, rfl⟩

theorem released_described {action : Action} {core : State}
    (stepped : Metadata.metadata.step κ.core action = some core) {claims : Claims}
    (released : claims ∈ κ.released action) :
    Described core.db claims.chunk claims.length (some claims.sha) := by
  unfold Deployment.released at released
  split at released
  · next c owner command ident =>
      split at released
      · next cid length sha positions db dispatched =>
          have result : core.db = db := by
            cases happens stepped with
            | request _ _ _ _ fresh =>
                show κ.core.outcome _ = db
                rw [dispatched]
                rfl
            | confirm _ _ _ _ move => cases move
            | worker _ _ _ _ move => cases move
            | maintenance _ _ _ move => cases move
          obtain ⟨upload, seq, checksum, prepared⟩ := Database.dispatch_prepared dispatched
          obtain ⟨_, _, _, chunk, _, _, _, _, _, _, _, _, _, selected, _, after, placed, _, reply⟩ :=
            Database.prepare_ok prepared
          cases reply
          obtain ⟨stored, _⟩ := κ.core.db.chunkAt_eq_some selected
          rw [← (Database.positions_ok.mp placed).2, List.map_map] at released
          obtain ⟨entry, _, rfl⟩ := List.mem_map.mp released
          refine @Described.of_stored _ _ { chunk with sha := some sha } _ ?_ rfl
          rw [result, after]
          simp [stored]
      · cases released
  · next c e request ident =>
      split at released
      · next cid length sha assigned db dispatched =>
          have result : core.db = db := by
            cases happens stepped with
            | requestBy _ _ _ _ fresh =>
                show κ.core.outcome _ = db
                rw [dispatched]
                rfl
            | confirm _ _ _ _ move => cases move
            | worker _ _ _ _ move => cases move
            | maintenance _ _ _ move => cases move
          obtain ⟨entry, membership, taken⟩ := List.mem_filterMap.mp released
          obtain ⟨described, named⟩ := dispatchBy_prepared dispatched
          obtain ⟨rfl, rfl, rfl⟩ := named entry membership
          obtain ⟨upload, _, rfl⟩ := Option.map_eq_some_iff.mp taken
          exact result ▸ described
      · cases released
  · cases released

theorem request_authorized {core : State} {action : Action} {v : Verifier} {remote : Remote}
    (threads : ∀ w, Writes core.db (core.workers w))
    (sent : κ.request core action = some (v, remote)) : remote.Authorized core.db := by
  intro cid claims data put
  unfold Deployment.request at sent
  split at sent
  · split at sent
    · cases sent
      cases put
    · cases sent
  · next w c =>
      split at sent
      · next job repair ticket here =>
          cases sent
          cases put
          have writes := threads w
          rwa [here] at writes
      · cases sent
  · split at sent
    · cases sent
      cases put
    · cases sent
  · simp only [Option.bind_eq_some_iff, Option.map_eq_some_iff] at sent
    obtain ⟨_, _, _, _, same⟩ := sent
    cases same
    cases put
  · split at sent
    · cases sent
      cases put
    · cases sent
  · cases sent

theorem pending_sent {v : Verifier} {remote : Remote} (waiting : remote ∈ κ.pending v) :
    κ.calls v = some ⟨remote, none⟩ := by
  unfold pending at waiting
  split at waiting
  · next call =>
      obtain rfl := List.mem_singleton.mp waiting
      exact call
  · cases waiting

theorem mem_follow_adrift {action : Action} {core : State} {remote : Remote}
    (adrift : remote ∈ (κ.follow s action core).adrift) :
    remote ∈ κ.adrift ∨ ∃ v, κ.calls v = some ⟨remote, none⟩ := by
  unfold follow dial at adrift
  split at adrift
  · exact .inl adrift
  · next v sent request =>
      rcases List.mem_append.mp adrift with before | waiting
      · exact .inl before
      · exact .inr ⟨v, pending_sent waiting⟩

theorem Recorded.metadata (recorded : Recorded s κ) (reached : Reachable Metadata.metadata κ.core)
    {action : Action} {core : State} (stepped : Metadata.metadata.step κ.core action = some core) :
    Recorded s (κ.follow s action core) := by
  obtain ⟨same, disks, _, _, _, tickets⟩ := κ.follow_frame s action core
  obtain ⟨_, _, _, _, effect⟩ := reachable_effect reached stepped
  have grown := effect.steps.grown
  have threads : ∀ w, Writes core.db (core.workers w) := by
    intro w
    rcases (happens stepped).workers w with kept | move
    · exact kept ▸ (recorded.threads w).grown grown
    · exact .move move rfl (reachable_invariant reached) (recorded.threads w)
  refine ⟨?_, by rwa [same], ?_, ?_, ?_, ?_⟩
  · rw [same, tickets]
    intro claims membership
    rcases List.mem_append.mp membership with before | released
    · exact (recorded.tickets claims before).grown grown
    · exact released_described stepped released
  · rw [same]
    intro v sent call
    rw [follow_calls] at call
    have before : ∀ w sent, κ.calls w = some sent → sent.remote.Authorized core.db :=
      fun w sent call => (recorded.calls w sent call).grown grown
    split at call
    · next w remote request =>
        split at call
        · cases call
          exact request_authorized threads request
        · exact before v sent call
    · exact before v sent call
  · rw [same]
    intro remote adrift
    rcases mem_follow_adrift adrift with before | ⟨v, call⟩
    · exact (recorded.adrift remote before).grown grown
    · exact (recorded.calls v _ call).grown grown
  · rw [same, disks]
    exact fun disk cid content file => (recorded.files disk cid content file).grown grown
  · intro disk
    simpa only [occupied, disks] using recorded.fits disk

theorem Recorded.execute (recorded : Recorded s κ) {remote : Remote}
    (authorized : remote.Authorized κ.core.db) : Recorded s (κ.execute s remote).2 := by
  have done := κ.executed (s := s) remote
  generalize (κ.execute s remote).2 = κ' at done ⊢
  generalize (κ.execute s remote).1 = answer at done
  cases done with
  | keep => exact recorded
  | store inst cid claims data runs message chunk sized hashed absent fits =>
      refine ⟨recorded.tickets, recorded.threads, recorded.calls, recorded.adrift, ?_, ?_⟩
      · intro disk other content file
        simp only [Function.update_apply] at file
        split at file
        · next here =>
            rw [Table.get?_upsert, absent] at file
            split at file
            · next same =>
                cases file
                have written := authorized cid claims data message
                rw [← sized, ← hashed, chunk] at written
                exact same ▸ written
            · exact recorded.files _ other content file
        · exact recorded.files disk other content file
      · intro disk
        by_cases here : disk = (remote.node, (s.hosts inst).2)
        · subst here
          simpa only [occupied, Function.update_self, Table.sum_upsert_absent _ _ _ _ absent]
            using fits
        · simpa only [occupied, Function.update_of_ne here] using recorded.fits disk
  | erase inst cid runs message =>
      refine ⟨recorded.tickets, recorded.threads, recorded.calls, recorded.adrift, ?_, ?_⟩
      · intro disk other content file
        simp only [Function.update_apply] at file
        split at file
        · rw [Table.get?_erase] at file
          split at file
          · cases file
          · exact recorded.files _ other content file
        · exact recorded.files disk other content file
      · intro disk
        by_cases here : disk = (remote.node, (s.hosts inst).2)
        · subst here
          have less := recorded.fits (remote.node, (s.hosts inst).2)
          have total := Table.sum_erase (κ.disks (remote.node, (s.hosts inst).2)) cid
            fun _ content => content.length
          simp only [occupied, Function.update_self] at less ⊢
          omega
        · simpa only [occupied, Function.update_of_ne here] using recorded.fits disk

theorem Recorded.step (recorded : Recorded s κ) (sound : Sound s κ) {move : Move}
    (taken : Takes s κ move κ') : Recorded s κ' := by
  cases taken with
  | metadata action core allowed stepped => exact recorded.metadata sound.reached stepped
  | send claims data held =>
      refine ⟨recorded.tickets, recorded.threads, recorded.calls, ?_, recorded.files, recorded.fits⟩
      intro remote adrift
      rcases List.mem_append.mp adrift with before | new
      · exact recorded.adrift remote before
      · obtain rfl := List.mem_singleton.mp new
        intro cid claims' data' put
        cases put
        exact recorded.tickets claims held
  | deliver v remote sent =>
      have after := recorded.execute (recorded.calls v _ sent)
      rw [execute_frame] at after ⊢
      refine ⟨after.tickets, after.threads, ?_, after.adrift, after.files, after.fits⟩
      intro w call known
      simp only [Function.update_apply] at known
      split at known
      · cases known
        exact fun cid claims data put => recorded.calls v _ sent cid claims data put
      · exact recorded.calls w call known
  | drift k remote sent =>
      have after := recorded.execute (recorded.adrift remote (List.mem_of_getElem? sent))
      rw [execute_frame] at after ⊢
      exact ⟨after.tickets, after.threads, after.calls,
        fun other adrift => recorded.adrift other (List.mem_of_mem_eraseIdx adrift),
        after.files, after.fits⟩
  | start inst fresh free =>
      exact ⟨recorded.tickets, recorded.threads, recorded.calls, recorded.adrift, recorded.files,
        recorded.fits⟩
  | stop nid =>
      exact ⟨recorded.tickets, recorded.threads, recorded.calls, recorded.adrift, recorded.files,
        recorded.fits⟩
  | report nid node runs =>
      exact ⟨recorded.tickets, recorded.threads, recorded.calls, recorded.adrift, recorded.files,
        recorded.fits⟩

end Deployment

/-- Every file is the recorded content of its chunk. -/
theorem reachable_recorded {s : Site} {κ : Deployment} (reached : Reachable (cluster s) κ) :
    κ.Sound s ∧ κ.Recorded s :=
  reached.invariant (fun κ => κ.Sound s ∧ κ.Recorded s) ⟨.initial, .initial⟩
    fun _ _ _ known stepped =>
      ⟨known.1.step (takes stepped), known.2.step known.1 (takes stepped)⟩

end FileServer.Cluster

import FileServer.Client.Retries
import FileServer.Metadata.Checksums

/-!
# Resumed uploads

An upload that is resumed sends the chunks that are not confirmed.  It
publishes the file it was given exactly when the confirmed ones already carry
that file's pieces.
-/

namespace FileServer.Client

open FileServer.Gateway (Failure Result)
open FileServer.Metadata FileServer.Sequence FileServer.Storage FileServer.Transition

def AsksStatus : ClientExchange → Prop
  | ⟨.request request _, _, _⟩ => request.cmd = .status
  | _ => False

def Carries (digest : Bytes → Sha) (file : Bytes) (db : Database) (upload : Ident)
    (object : ObjectRow) : Prop :=
  ∀ seq < chunkCount object.size object.chunkSize, ∃ cid chunk,
    db.chunks.get? cid = some chunk ∧ chunk.upload = upload ∧ chunk.seq = seq ∧
      chunk.sha = some (digest (piece object.chunkSize file seq))

def CarriesConfirmed (digest : Bytes → Sha) (file : Bytes) (db : Database) (upload : Ident) : Prop :=
  ∀ cid chunk row object, db.chunks.get? cid = some chunk → chunk.upload = upload →
    chunk.state = .confirmed → db.uploads.get? upload = some row →
    db.objects.get? row.object = some object →
    chunk.sha = some (digest (piece object.chunkSize file chunk.seq))

variable {digest : Bytes → Sha} {e : Engine} {client : Account} {history : List (Event State Action)}
  {σ : State} {trace : List ClientExchange}

def Carried (history : List (Event State Action)) (exchange : ClientExchange) (command : Command)
    (reply : Reply) : Prop :=
  ∃ event ∈ history, (event.before.db, event.after.db) ∈ transactions exchange ∧
    ∃ c now ident user,
      event.before.db.dispatch c now ident user command = .ok (reply, event.after.db)

theorem request_carried {cmd : Cmd} {fields : Fields} {value : Result} (command : Command)
    (run : Run Metadata.metadata history σ) (pass : cmd ∈ Gateway.allowed)
    (named : ∀ user, (⟨user, cmd, fields, none, none⟩ : Internal).command? = some command)
    (executed : Program.Executes (Serves digest e) (client.request cmd fields []) trace (.ok value))
    (recorded : Recorded history trace) :
    ∃ effect reply, asked (client.frame cmd fields) [] (.ok value) effect ∈ trace ∧
      Carried history (asked (client.frame cmd fields) [] (.ok value) effect) command reply ∧
      value = .metadata reply.response := by
  obtain ⟨lost, effect, rfl, served, _⟩ := executes_attempt executed
  have last : asked (client.frame cmd fields) [] (.ok value) effect ∈
      lost ++ [asked (client.frame cmd fields) [] (.ok value) effect] := by simp
  obtain ⟨c, answered⟩ := served.answer
  obtain ⟨user, now, ident, db, response, db', dispatched, exchanges, rfl⟩ :=
    Gateway.passed_ok pass answered
  have inside : (db, db') ∈ transactions (asked (client.frame cmd fields) []
      (.ok (.metadata response)) effect) := by
    simp [transactions, asked, exchanges, Gateway.requestOf]
  have consistent := recorded.consistent run last inside
  obtain ⟨event, listed, rfl, rfl⟩ := recorded _ last _ inside
  obtain ⟨reply, carried, rfl⟩ :=
    (Database.dispatchBy_ok_iff consistent (named user)).mp dispatched
  exact ⟨effect, reply, last, ⟨event, listed, inside, c, now, ident, user, carried⟩, rfl⟩

theorem send_carried {file : Bytes} {upload : Ident} {chunkSize seq : Nat} {value : Result}
    (run : Run Metadata.metadata history σ)
    (executed : Program.Executes (Serves digest e) (client.send digest file upload chunkSize seq)
      trace (.ok value))
    (recorded : Recorded history trace) :
    ∃ exchange ∈ trace, ∃ reply, Carried history exchange
      (.prepare upload seq (some (digest (piece chunkSize file seq)))) reply := by
  obtain ⟨lost, effect, rfl, served, _⟩ := executes_attempt executed
  refine ⟨_, List.mem_append_right _ (List.mem_singleton_self _), ?_⟩
  obtain ⟨c, answered⟩ := served.answer
  obtain ⟨user, now, ident, db, response, db', rest, dispatched, exchanges⟩ :=
    Gateway.upload_ok rfl answered
  generalize last : asked _ _ (.ok value) effect = exchange at *
  have inside : (db, db') ∈ transactions exchange := by
    simp [transactions, ← last, asked, exchanges, Gateway.requestOf]
  have consistent := recorded.consistent run (by simp) inside
  obtain ⟨event, listed, rfl, rfl⟩ := recorded exchange (by simp) _ inside
  obtain ⟨reply, carried, _⟩ := (Database.dispatchBy_ok_iff consistent rfl).mp dispatched
  exact ⟨reply, event, listed, inside, c, now, ident, user, carried⟩

theorem askStatus_read {upload : Ident} {cursor : Option Nat} {page : Status}
    (run : Run Metadata.metadata history σ)
    (executed : Program.Executes (Serves digest e) (client.askStatus upload cursor) trace (.ok page))
    (recorded : Recorded history trace) :
    ∃ exchange ∈ trace, AsksStatus exchange ∧ ∃ τ, Visited history σ τ ∧
      (∃ step ∈ transactions exchange, step.1 = τ.db) ∧ ∃ now owner expires confirmed,
        τ.db.status now owner upload (cursor.getD 0 : Nat) = .ok (.status page.object page.state
          expires confirmed page.chunkSize page.size page.missing page.nextCursor) := by
  rcases Program.executes_bind.mp executed with ⟨_, _, failed⟩ | ⟨value, _, _, rfl, asking, read⟩
  · cases failed
  obtain ⟨rfl, read⟩ := Program.executes_lift.mp read
  rw [List.append_nil] at recorded ⊢
  obtain ⟨effect, reply, membership, ⟨event, listed, inside, c, now, ident, user, carried⟩, rfl⟩ :=
    request_carried (.status upload (cursor.getD 0 : Nat)) run (by decide)
      (fun user => by cases cursor <;> rfl) asking recorded
  refine ⟨_, membership, rfl, event.before, .inr ⟨event, listed, rfl⟩, ⟨_, inside, rfl⟩, now, user, ?_⟩
  simp only [Database.dispatch, bind_eq_ok, pure_eq_ok, Prod.mk.injEq] at carried
  obtain ⟨_, _, answer, answered, rfl, _⟩ := carried
  rw [answered]
  cases answer with
  | status object state expires confirmed chunkSize size missing next =>
      cases read
      exact ⟨expires, confirmed, rfl⟩
  | _ => cases read

section Chunks

variable {file : Bytes} {upload cid : Ident} {chunk : ChunkRow} {chunkSize : Nat}

theorem send_fixes {seq : Nat} {value : Result} (run : Run Metadata.metadata history σ)
    (executed : Program.Executes (Serves digest e) (client.send digest file upload chunkSize seq)
      trace (.ok value))
    (recorded : Recorded history trace) (present : σ.db.chunks.get? cid = some chunk)
    (owned : chunk.upload = upload) (numbered : chunk.seq = seq) :
    chunk.sha = some (digest (piece chunkSize file seq)) := by
  obtain ⟨exchange, _, reply, event, listed, _, c, now, ident, user, carried⟩ :=
    send_carried run executed recorded
  simp only [Database.dispatch, bind_eq_ok] at carried
  obtain ⟨_, _, prepared⟩ := carried
  obtain ⟨row, object, other, old, fixed, located, _, _, _, _, _, _, same, selected, _, after, _⟩ :=
    Database.prepare_ok prepared
  obtain ⟨before, part, place⟩ := Database.chunkAt_eq_some _ selected
  have changed : event.after.db.chunks.get? other = some { old with sha := some fixed } := by
    rw [after]
    simp [before]
  obtain ⟨_, grown⟩ := visited_grown run (run.visitedAfter listed)
  obtain ⟨new, stored, kept, _⟩ := grown.chunks other _ changed
  have shaped := (reachable_invariant run.reachable).consistent.shaped
  obtain rfl := shaped.seqUnique _ _ _ _ present stored
    (owned.trans (part.symm.trans kept.upload.symm))
    (numbered.trans ((Int.ofNat.inj place).symm.trans kept.seq.symm))
  obtain rfl := Option.some.inj (present.symm.trans stored)
  rw [same]
  exact kept.sha fixed rfl

theorem sendMissing_fixes {row : UploadRow} {object : ObjectRow} {fuel cursor : Nat}
    (run : Run Metadata.metadata history σ)
    (executed : Program.Executes (Serves digest e)
      (client.sendMissing digest file upload chunkSize fuel cursor) trace (.ok ()))
    (recorded : Recorded history trace) (stored : σ.db.uploads.get? upload = some row)
    (located : σ.db.objects.get? row.object = some object) (sized : object.chunkSize = chunkSize)
    (agree : ∀ exchange ∈ trace, AsksStatus exchange → ∀ step ∈ transactions exchange,
      CarriesConfirmed digest file step.1 upload)
    (present : σ.db.chunks.get? cid = some chunk) (owned : chunk.upload = upload)
    (reached : cursor ≤ chunk.seq) : chunk.sha = some (digest (piece chunkSize file chunk.seq)) := by
  induction fuel generalizing cursor trace with
  | zero => cases (Program.executes_done.mp executed).2
  | succ fuel inductionHypothesis =>
      rcases Program.executes_bind.mp executed with ⟨_, _, failed⟩ | ⟨page, front, rest, rfl, asking, executed⟩
      · cases failed
      rcases Program.executes_bind.mp executed with ⟨_, _, failed⟩ | ⟨_, sends, last, rfl, sending, continued⟩
      · cases failed
      obtain ⟨exchange, inFront, asks, τ, seen, ⟨step, inside, same⟩, now, owner, expires, confirmed, read⟩ :=
        askStatus_read run asking fun exchange membership => recorded exchange (by simp [membership])
      obtain ⟨row', object', before, locatedBefore, _, _, _, _, _, listed⟩ :=
        Database.status_ok (reachable_invariant (run.reached seen)).consistent read
      by_cases beyond : ∃ next, page.nextCursor = some next ∧ next ≤ chunk.seq
      · obtain ⟨next, follows, reached⟩ := beyond
        rw [follows] at continued
        exact inductionHypothesis continued
          (fun exchange membership => recorded exchange (by simp [membership]))
          (fun exchange membership => agree exchange (by simp [membership])) reached
      obtain ⟨old, presentBefore, kept⟩ := chunk_present run seen before present owned
      by_cases pending : old.state = .confirmed
      · have carried := agree exchange (by simp [inFront]) asks step inside
        rw [same] at carried
        have fixed := carried cid old row' object' presentBefore (kept.upload ▸ owned) pending before
          locatedBefore
        obtain ⟨_, _, storedLater, _, locatedLater, keptObject⟩ :=
          upload_kept run seen before locatedBefore
        obtain rfl := Option.some.inj (stored.symm.trans storedLater)
        obtain rfl := Option.some.inj (located.symm.trans locatedLater)
        rw [← sized, keptObject.chunkSize, kept.seq]
        exact kept.sha _ fixed
      · have awaited : chunk.seq ∈ page.missing := by
          rw [kept.seq]
          refine listed cid old presentBefore (kept.upload ▸ owned) ?_ ?_ pending
          · exact kept.seq ▸ Int.ofNat_le.mpr reached
          · intro stop follows
            exact Nat.lt_of_not_le fun short => beyond ⟨stop, follows, kept.seq ▸ short⟩
        obtain ⟨part, result, inSends, sent⟩ := sending.all_ok _ awaited
        refine send_fixes run sent (fun exchange membership => recorded exchange ?_) present owned rfl
        simp [inSends membership]

end Chunks

theorem complete_published {upload oid : Ident} (run : Run Metadata.metadata history σ)
    (executed : Program.Executes (Serves digest e) (client.request .complete (uploadFields upload) [])
      trace (.ok (published oid)))
    (recorded : Recorded history trace) :
    ∃ τ, Visited history σ τ ∧ ∃ row object, τ.db.uploads.get? upload = some row ∧
      row.object = oid ∧ τ.db.objects.get? oid = some object ∧ object.state = .published := by
  obtain ⟨_, reply, _, ⟨event, listed, _, c, now, ident, user, carried⟩, answered⟩ :=
    request_carried (.complete upload) run (by decide) (fun _ => rfl) executed recorded
  simp only [Database.dispatch, bind_eq_ok] at carried
  obtain ⟨_, _, completed⟩ := carried
  have linked := (reachable_invariant (run.event listed).1).consistent.linked
  obtain ⟨row, object, stored, located, _, rfl, outcome⟩ := Database.complete_ok completed
  cases answered
  refine ⟨event.after, run.visitedAfter listed, ?_⟩
  rcases outcome with ⟨_, closed, same⟩ | ⟨opened, _, _, _, done⟩
  · rw [same]
    exact ⟨row, object, stored, rfl, located, closed⟩
  · have staging := (linked.paired upload row object stored located).uploading_iff.mp opened
    rw [done]
    exact ⟨{ row with state := .completed }, { object with state := .published },
      by simp [Database.publish, stored, opened], rfl,
      by simp [Database.publish, located, staging], rfl⟩

section Published

variable {file : Bytes} {upload : Ident} {row : UploadRow} {object : ObjectRow}

theorem carries_of_chunks (run : Run Metadata.metadata history σ)
    (stored : σ.db.uploads.get? upload = some row)
    (located : σ.db.objects.get? row.object = some object)
    (fixed : ∀ cid chunk, σ.db.chunks.get? cid = some chunk → chunk.upload = upload →
      chunk.sha = some (digest (piece object.chunkSize file chunk.seq))) :
    Carries digest file σ.db upload object := by
  intro seq inRange
  obtain ⟨cid, chunk, present, owned, rfl⟩ :=
    (reachable_invariant run.reachable).consistent.shaped.numbered upload row object stored located
      seq inRange
  exact ⟨cid, chunk, present, owned, rfl, fixed cid chunk present owned⟩

/-- A chunk keeps the checksum it was confirmed with. -/
theorem Carries.confirmed (carries : Carries digest file σ.db upload object)
    (run : Run Metadata.metadata history σ) (stored : σ.db.uploads.get? upload = some row)
    (located : σ.db.objects.get? row.object = some object) {τ : State}
    (seen : Visited history σ τ) : CarriesConfirmed digest file τ.db upload := by
  intro cid old row' object' before owned pending storedBefore locatedBefore
  obtain ⟨_, grown⟩ := visited_grown run seen
  obtain ⟨chunk, present, kept, _⟩ := grown.chunks cid old before
  obtain ⟨_, _, storedLater, _, locatedLater, keptObject⟩ :=
    upload_kept run seen storedBefore locatedBefore
  obtain rfl := Option.some.inj (stored.symm.trans storedLater)
  obtain rfl := Option.some.inj (located.symm.trans locatedLater)
  have shaped := (reachable_invariant run.reachable).consistent.shaped
  have part : chunk.upload = upload := kept.upload.trans owned
  have inRange := (shaped.bounded cid chunk row object present (part ▸ stored) located).1
  obtain ⟨other, chunk', present', owned', numbered, fixed⟩ := carries _ inRange
  obtain rfl := shaped.seqUnique _ _ _ _ present present' (part.trans owned'.symm) numbered.symm
  obtain rfl := Option.some.inj (present.symm.trans present')
  cases given : old.sha with
  | none =>
      exact absurd given ((reachable_invariant (run.reached seen)).consistent.shaped.confirmedSha
        cid old before pending)
  | some sha =>
      rw [← kept.sha sha given, fixed, keptObject.chunkSize, kept.seq]

end Published

def PublishedIn (history : List (Event State Action)) (σ : State) (upload oid : Ident) : Prop :=
  ∃ τ, Visited history σ τ ∧ ∃ row object, τ.db.uploads.get? upload = some row ∧
    row.object = oid ∧ τ.db.objects.get? oid = some object ∧ object.state = .published

theorem continueUpload_fixes {file : Bytes} {fuel : Nat} {upload oid : Ident}
    (run : Run Metadata.metadata history σ)
    (executed : Program.Executes (Serves digest e) (client.continueUpload digest file fuel upload)
      trace (.ok (published oid)))
    (recorded : Recorded history trace) :
    ∃ row object, σ.db.uploads.get? upload = some row ∧
      σ.db.objects.get? row.object = some object ∧ PublishedIn history σ upload oid ∧
      object.size = file.length ∧ ((∀ exchange ∈ trace, AsksStatus exchange → ∀ step ∈ transactions exchange,
        CarriesConfirmed digest file step.1 upload) → ∀ cid chunk,
        σ.db.chunks.get? cid = some chunk → chunk.upload = upload →
          chunk.sha = some (digest (piece object.chunkSize file chunk.seq))) := by
  rcases Program.executes_bind.mp executed with
    ⟨_, _, failed⟩ | ⟨status, front, rest, rfl, asking, executed⟩
  · cases failed
  rcases Program.executes_lift_bind.mp executed with ⟨_, _, _, failed⟩ | ⟨_, fits, executed⟩
  · cases failed
  obtain ⟨exchange, inFront, asks, τ, seen, ⟨step, inside, same⟩, now, owner, expires, confirmed, read⟩ :=
    askStatus_read run asking fun exchange membership => recorded exchange (by simp [membership])
  have reached := run.reached seen
  obtain ⟨before, old, storedBefore, locatedBefore, _, sameOid, sameState, sameWidth, sameSize, _⟩ :=
    Database.status_ok (reachable_invariant reached).consistent read
  obtain ⟨row, object, stored, sameObject, located, kept⟩ :=
    upload_kept run seen storedBefore locatedBefore
  have sized : object.size = file.length := by
    rw [kept.size, ← sameSize]
    exact (require_eq_ok.mp fits).symm
  by_cases closed : status.state = .completed
  · rw [if_pos closed] at executed
    obtain ⟨rfl, answered⟩ := Program.executes_pure.mp executed
    cases answered
    have completed := sameState.symm.trans closed
    have paired := (reachable_invariant reached).consistent.linked.paired _ before old storedBefore
      locatedBefore
    refine ⟨row, object, stored, located, ⟨τ, seen, before, old, storedBefore, sameOid.symm, sameOid ▸ locatedBefore,
      paired.completed_iff.mp completed⟩, sized, fun agree cid chunk present owned => ?_⟩
    obtain ⟨first, presentBefore, keptChunk⟩ := chunk_present run seen storedBefore present owned
    have part := keptChunk.upload ▸ owned
    have carried := agree exchange (by simp [inFront]) asks step inside
    rw [same] at carried
    rw [kept.chunkSize, keptChunk.seq]
    exact keptChunk.sha _ (carried cid first before old presentBefore part
      (completed_confirmed reached storedBefore completed cid first presentBefore part)
      storedBefore locatedBefore)
  · rw [if_neg closed] at executed
    rcases Program.executes_bind.mp executed with
      ⟨_, _, failed⟩ | ⟨_, sends, last, rfl, sending, completing⟩
    · cases failed
    refine ⟨row, object, stored, located, complete_published run completing
      fun exchange membership => recorded exchange (by simp [membership]), sized, fun agree cid chunk present owned => ?_⟩
    have width : object.chunkSize = status.chunkSize := kept.chunkSize.trans sameWidth.symm
    rw [width]
    exact sendMissing_fixes run sending (fun exchange membership => recorded exchange
      (by simp [membership])) stored located width
      (fun exchange membership => agree exchange (by simp [membership])) present owned (Nat.zero_le _)

/-- A resumed upload publishes an object of the file's size.  Its chunks are
the pieces of the file exactly when those found confirmed are. -/
theorem resumed_carries_iff {file : Bytes} {name : Value} {fuel : Nat} {upload oid : Ident}
    (run : Run Metadata.metadata history σ)
    (executed : Program.Executes (Serves digest e)
      (client.upload digest file name fuel (some upload)) trace (.ok (published oid)))
    (recorded : Recorded history trace) :
    ∃ row object, σ.db.uploads.get? upload = some row ∧ row.object = oid ∧
      σ.db.objects.get? oid = some object ∧ object.state ≠ .staging ∧ object.size = file.length ∧
      (Carries digest file σ.db upload object ↔ ∀ exchange ∈ trace, AsksStatus exchange →
        ∀ step ∈ transactions exchange, CarriesConfirmed digest file step.1 upload) := by
  obtain ⟨row, object, stored, located, ⟨τ, seen, before, old, storedBefore, rfl, locatedBefore, state⟩,
    sized, fixed⟩ := continueUpload_fixes run executed recorded
  obtain ⟨_, _, storedLater, sameObject, locatedLater, kept⟩ :=
    upload_kept run seen storedBefore locatedBefore
  obtain rfl := Option.some.inj (stored.symm.trans storedLater)
  obtain rfl := Option.some.inj (located.symm.trans locatedLater)
  refine ⟨row, object, stored, sameObject, sameObject ▸ located, ?_, sized, ?_, ?_⟩
  · intro staging
    have advances := kept.advances
    rw [state, staging] at advances
    cases advances
  · intro carries exchange membership _ step inside
    obtain ⟨event, listed, same, _⟩ := recorded exchange membership step inside
    rw [← same]
    exact carries.confirmed run stored located (.inr ⟨event, listed, rfl⟩)
  · exact fun agree => carries_of_chunks run stored located (fixed agree)

section Changed

/-- A checksum that tells files of one byte apart. -/
def firstByte : Bytes → Sha
  | [] => 0
  | byte :: _ => byte.toNat

def sentActions : List Action := uploadActions.dropLast

def sent : State :=
  (Metadata.metadata.execute Metadata.metadata.initial sentActions).get (by decide +kernel)

def askSent : Action := .request installation "owner" (.status 1001 0) id

def sentAsked : State := (Metadata.metadata.step sent askSent).get (by decide +kernel)

def sentAskedAgain : State := (Metadata.metadata.step sentAsked askSent).get (by decide +kernel)

def sentCompleted : State :=
  (Metadata.metadata.step sentAskedAgain (.request installation "owner" (.complete 1001) id)).get
    (by decide +kernel)

def resumedHistory : List (Event State Action) :=
  ⟨sentAskedAgain, .request installation "owner" (.complete 1001) id, sentCompleted⟩ ::
    ⟨sentAsked, askSent, sentAskedAgain⟩ :: ⟨sent, askSent, sentAsked⟩ ::
      Metadata.metadata.events Metadata.metadata.initial sentActions

theorem sent_run : Run Metadata.metadata
    (Metadata.metadata.events Metadata.metadata.initial sentActions) sent :=
  Metadata.metadata.run sentActions _

theorem resumed_run : Run Metadata.metadata resumedHistory sentCompleted :=
  .next (.next (.next sent_run (Option.some_get _).symm) (Option.some_get _).symm)
    (Option.some_get _).symm

def sentStatus : Reply := .status 1000 .uploading 1000 1 4 1 [] none

/-- The upload is resumed with another file of one byte. -/
def resumedTrace : List ClientExchange :=
  [asked (owner.frame .status (statusFields 1001 none)) [] (.ok (.metadata (.reply sentStatus)))
      ⟨Gateway.passedOn "owner" (owner.frame .status (statusFields 1001 none)) sentStatus sent
        sentAsked, id⟩,
    asked (owner.frame .status (statusFields 1001 (some 0))) []
      (.ok (.metadata (.reply sentStatus)))
      ⟨Gateway.passedOn "owner" (owner.frame .status (statusFields 1001 (some 0))) sentStatus
        sentAsked sentAskedAgain, id⟩,
    asked (owner.frame .complete (uploadFields 1001)) [] (.ok (published 1000))
      ⟨Gateway.passedOn "owner" (owner.frame .complete (uploadFields 1001)) (.published 1000)
        sentAskedAgain sentCompleted, id⟩]

theorem resumed_recorded : Recorded resumedHistory resumedTrace := by
  simp [Recorded, resumedTrace, resumedHistory, asked, transactions, Gateway.passedOn,
    Gateway.requestOf]

theorem resumed_executed :
    Program.Executes (Serves firstByte .plain)
      (owner.upload firstByte [5] (.text "file") 1 (some 1001)) resumedTrace
      (.ok (published 1000)) := by
  have asked : Reachable Metadata.metadata sentAsked := sent_run.reachable.next (Option.some_get _).symm
  refine continueUpload_answered
    (.answered installation (owner_passed firstByte .plain sentStatus ?_ rfl sent_run.reachable
      (Option.some_get _).symm ?_)) rfl rfl (by decide) rfl rfl
    (.answered installation (owner_passed firstByte .plain sentStatus ?_ rfl asked
      (Option.some_get _).symm ?_))
    (.answered installation (owner_passed firstByte .plain (.published 1000) ?_ rfl
      (asked.next (Option.some_get _).symm) (Option.some_get _).symm ?_))
  all_goals decide +kernel

/-- The condition decides whether the resumed upload has published its file. -/
theorem resumed_carries_changed : ∃ row object, sentCompleted.db.uploads.get? 1001 = some row ∧
    row.object = 1000 ∧ sentCompleted.db.objects.get? 1000 = some object ∧
    object.state ≠ .staging ∧ object.size = 1 ∧
    (Carries firstByte [5] sentCompleted.db 1001 object ↔ ∀ exchange ∈ resumedTrace,
      AsksStatus exchange → ∀ step ∈ transactions exchange,
        CarriesConfirmed firstByte [5] step.1 1001) :=
  resumed_carries_iff resumed_run resumed_executed resumed_recorded

/-- The upload publishes the content of an earlier file. -/
theorem resumed_upload_publishes_other : ¬∀ history σ trace oid, Run Metadata.metadata history σ →
    Program.Executes (Serves firstByte .plain)
      (owner.upload firstByte [5] (.text "file") 1 (some 1001)) trace (.ok (published oid)) →
    Recorded history trace → ∀ object, σ.db.objects.get? oid = some object →
    Carries firstByte [5] σ.db 1001 object := by
  intro carries
  have located : sentCompleted.db.objects.get? 1000 =
      some ⟨"owner", "file", 1, 4, 2, .published⟩ := by decide +kernel
  obtain ⟨cid, chunk, present, _, _, fixed⟩ :=
    carries _ _ _ _ resumed_run resumed_executed resumed_recorded _ located 0 (by decide)
  have rows : sentCompleted.db.chunks.rows = [(1002, ⟨1001, 0, 1, some 7, .confirmed⟩)] := by
    decide +kernel
  have only : cid = 1002 ∧ chunk = ⟨1001, 0, 1, some 7, .confirmed⟩ := by
    simpa [rows] using sentCompleted.db.chunks.mem_rows_iff.mpr present
  rw [only.2] at fixed
  exact absurd fixed (by decide)

end Changed

end FileServer.Client

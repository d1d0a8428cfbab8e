import FileServer.Client.Sending

/-!
# What a download delivers

A download leaves the target alone until the temporary file holds every chunk.
When the sessions of one file have sent the chunks of the object, the file that
then takes the target's place is that file.
-/

namespace FileServer.Client

open FileServer.Gateway (Failure Result)
open FileServer.Metadata FileServer.Sequence FileServer.Storage FileServer.Transition

def Received : ClientExchange → Bytes → Prop
  | ⟨.request _ _, answer, _⟩, data =>
      ∃ length sha, (answer : Except Failure Result) = .ok (.content length sha data)
  | _, _ => False

/-- No content received collides with a piece of the file. -/
def Distinct (digest : Bytes → Sha) (file : Bytes) (chunkSize : Nat) (trace : List ClientExchange) :
    Prop :=
  ∀ exchange ∈ trace, ∀ data, Received exchange data → ∀ seq,
    digest data = digest (piece chunkSize file seq) → data = piece chunkSize file seq

/-- The checksums of the object's chunks are those of the file's pieces. -/
structure Holds (digest : Bytes → Sha) (file : Bytes) (db : Database) (oid upload : Ident)
    (object : ObjectRow) : Prop where
  stored : ∃ row, db.uploads.get? upload = some row ∧ row.object = oid
  located : db.objects.get? oid = some object
  sized : object.size = file.length
  carried : ∀ cid chunk sha, db.chunks.get? cid = some chunk → chunk.upload = upload →
    chunk.sha = some sha → sha = digest (piece object.chunkSize file chunk.seq)

variable {digest : Bytes → Sha} {e : Engine} {client : Account} {history : List (Event State Action)}
  {σ : State} {trace : List ClientExchange} {file : Bytes} {oid upload : Ident} {object : ObjectRow}

theorem manifest_read {answer : Result} {whole : Manifest} (run : Run Metadata.metadata history σ)
    (holds : Holds digest file σ.db oid upload object)
    (executed : Program.Executes (Serves digest e)
      (client.request .manifest (objectFields oid none) []) trace (.ok answer))
    (recorded : Recorded history trace) (read : manifest answer = .ok whole) :
    whole = ⟨file.length, object.chunkSize, pieceCount file.length object.chunkSize⟩ := by
  obtain ⟨effect, reply, _, ⟨event, listed, _, c, now, ident, user, carried⟩, rfl⟩ :=
    request_carried (.manifest oid) run (by decide) (fun _ => rfl) executed recorded
  simp only [Database.dispatch, Database.manifest, bind_eq_ok, pure_eq_ok, Prod.mk.injEq] at carried
  obtain ⟨_, _, _, ⟨old, found, _, _, rfl⟩, rfl, _⟩ := carried
  obtain ⟨before, _, _⟩ := Database.object_ok.mp found
  obtain ⟨_, grown⟩ := visited_grown run (.inr ⟨event, listed, rfl⟩)
  obtain ⟨new, after, kept⟩ := grown.objects oid old before
  obtain rfl := Option.some.inj (holds.located.symm.trans after)
  cases read
  rw [← holds.sized, kept.size, kept.chunkSize]
  rfl

theorem download_carried {seq length : Nat} {sha : Option Sha} {data : Bytes}
    (run : Run Metadata.metadata history σ)
    (executed : Program.Executes (Serves digest e)
      (client.request .download (objectFields oid (some seq)) []) trace
      (.ok (.content length sha data)))
    (recorded : Recorded history trace) :
    ∃ exchange ∈ trace, Received exchange data ∧ ∃ cid size positions,
      Carried history exchange (.locations oid seq) (.located cid size sha positions) := by
  obtain ⟨lost, effect, rfl, served, _⟩ := executes_attempt executed
  refine ⟨_, List.mem_append_right _ (List.mem_singleton_self _), ⟨length, sha, rfl⟩, ?_⟩
  obtain ⟨c, answered⟩ := served.answer
  obtain ⟨user, now, ident, db, db', cid, size, positions, rest, dispatched, exchanges⟩ :=
    Gateway.download_ok rfl answered
  generalize last : asked _ _ (.ok (.content length sha data)) effect = exchange at *
  have inside : (db, db') ∈ transactions exchange := by
    simp [transactions, ← last, asked, exchanges, Gateway.requestOf]
  have consistent := recorded.consistent run (by simp) inside
  obtain ⟨event, listed, rfl, rfl⟩ := recorded exchange (by simp) _ inside
  obtain ⟨reply, carried, same⟩ := (Database.dispatchBy_ok_iff consistent rfl).mp dispatched
  have answer : reply = .located cid size sha positions := by
    cases reply <;> cases same
    rfl
  exact ⟨cid, size, positions, event, listed, inside, c, now, ident, user, answer ▸ carried⟩

theorem fetch_piece {whole : Manifest} {seq : Nat} {data : Bytes}
    (run : Run Metadata.metadata history σ) (holds : Holds digest file σ.db oid upload object)
    (executed : Program.Executes (Serves digest e) (client.fetch digest oid whole seq) trace (.ok data))
    (recorded : Recorded history trace) (distinct : Distinct digest file object.chunkSize trace) :
    data = piece object.chunkSize file seq := by
  rcases Program.executes_bind.mp executed with ⟨_, _, failed⟩ | ⟨answer, _, _, rfl, asking, executed⟩
  · cases failed
  rcases Program.executes_lift_bind.mp executed with ⟨_, _, _, failed⟩ | ⟨chunk, read, executed⟩
  · cases failed
  rcases Program.executes_lift_bind.mp executed with ⟨_, _, _, failed⟩ | ⟨_, checked, executed⟩
  · cases failed
  obtain ⟨rfl, same⟩ := Program.executes_pure.mp executed
  obtain rfl := Except.ok.inj same
  rw [List.append_nil] at recorded distinct
  obtain ⟨_, _, fits⟩ := require_eq_ok.mp checked
  cases answer with
  | metadata response => cases read
  | content length sha data =>
      cases read
      obtain ⟨exchange, membership, received, cid, size, positions, event, listed, _, c, now, ident,
        user, carried⟩ := download_carried run asking recorded
      simp only [Database.dispatch, Database.locations, bind_eq_ok, pure_eq_ok, Prod.mk.injEq,
        found_eq_ok] at carried
      obtain ⟨_, _, _, ⟨_, _, uploader, chosen, _, _, ⟨_, old⟩, selected, answered⟩, rfl, _⟩ := carried
      obtain ⟨rfl, _, fixed, _⟩ := Reply.located.inj answered
      obtain ⟨row, storedBefore, same⟩ := Database.uploadOf_eq_some _ chosen
      obtain ⟨before, part, place⟩ := Database.chunkAt_eq_some _ selected
      obtain ⟨_, grown⟩ := visited_grown run (.inr ⟨event, listed, rfl⟩)
      obtain ⟨new, after, kept, _⟩ := grown.chunks _ old before
      obtain ⟨row', storedAfter, sameObject⟩ := grown.uploads uploader row storedBefore
      obtain ⟨row'', stored, owned⟩ := holds.stored
      have linked := (reachable_invariant run.reachable).consistent.linked
      obtain rfl := linked.uploadUnique _ _ _ _ storedAfter stored
        (sameObject.trans (same.trans owned.symm))
      have numbered : new.seq = seq := kept.seq.trans (Int.ofNat.inj place)
      have sent := holds.carried _ new _ after (kept.upload.trans part)
        (kept.sha _ (fixed.trans fits.symm))
      rw [numbered] at sent
      exact distinct exchange membership data received seq sent

section Files

variable {files : Local} {answer : Except Failure Unit} {effect : Effect}

theorem Serves.target {call : Call} {answer : call.Answer}
    (served : Serves digest e call answer effect) (other : call ≠ .replace) :
    (effect.change files).target = files.target := by
  cases served with
  | replaced => exact absurd rfl other
  | _ => rfl

theorem Serves.create (served : Serves digest e .create answer effect) (created : answer = .ok ()) :
    (effect.change files).temporary = some [] := by
  cases served with
  | created => rfl
  | raised => cases created

theorem Serves.write {data : Bytes} (served : Serves digest e (.write data) answer effect)
    (written : answer = .ok ()) :
    (effect.change files).temporary = files.temporary.map (· ++ data) := by
  cases served with
  | written => rfl
  | raised => cases written

theorem Serves.flush (served : Serves digest e .flush answer effect) (flushed : answer = .ok ()) :
    effect.change files = files := by
  cases served with
  | flushed => rfl
  | raised => cases flushed

theorem Serves.replace (served : Serves digest e .replace answer effect) :
    (answer = .ok () → (effect.change files).target = files.temporary) ∧
      (answer ≠ .ok () → (effect.change files).target = files.target) := by
  cases served with
  | replaced => simp
  | raised => exact ⟨by rintro ⟨⟩, fun _ => rfl⟩

theorem filesAfter_append (earlier later : List ClientExchange) (files : Local) :
    filesAfter (earlier ++ later) files = filesAfter later (filesAfter earlier files) :=
  List.foldl_append

theorem requests_files
    (requests : ∀ exchange ∈ trace, ∃ request data, exchange.call = .request request data)
    (served : ∀ exchange ∈ trace, Serves digest e exchange.call exchange.answer exchange.effect) :
    filesAfter trace files = files := by
  induction trace with
  | nil => rfl
  | cons exchange rest inductionHypothesis =>
      obtain ⟨request, data, same⟩ := requests exchange List.mem_cons_self
      have first := served exchange List.mem_cons_self
      rcases exchange with ⟨call, answer, effect⟩
      obtain rfl : call = .request request data := same
      obtain ⟨_, _, _, _, kept, _⟩ := Serves.begun first
      have change : effect.change files = files := congrFun kept files
      show filesAfter rest (effect.change files) = files
      rw [change]
      exact inductionHypothesis (fun other membership => requests other (List.mem_cons_of_mem _ membership))
        fun other membership => served other (List.mem_cons_of_mem _ membership)

theorem fetch_files {whole : Manifest} {seq : Nat} {result : Except Failure Bytes}
    (executed : Program.Executes (Serves digest e) (client.fetch digest oid whole seq) trace result) :
    filesAfter trace files = files := by
  have calls : (client.fetch digest oid whole seq).Calls
      fun call => ∃ request data, call = .request request data :=
    .bind (calls_attempt ⟨_, _, rfl⟩ 2) fun _ => .lift_bind fun _ => .lift_bind fun _ => trivial
  exact requests_files (calls.executes executed) fun _ membership => executed.served membership

theorem fetchAll_files {width : Nat} {whole : Manifest} {seqs : List Nat} {total : Nat}
    {written : Bytes} {result : Except Failure Nat} (begun : files.temporary = some written)
    (executed : Program.Executes (Serves digest e) (client.fetchAll digest oid whole seqs total) trace
      result)
    (pieces : ∀ part seq data, part ⊆ trace →
      Program.Executes (Serves digest e) (client.fetch digest oid whole seq) part (.ok data) →
      data = piece width file seq) :
    (filesAfter trace files).target = files.target ∧ ∀ last, result = .ok last →
      (filesAfter trace files).temporary = some (written ++ seqs.flatMap (piece width file)) := by
  induction seqs generalizing trace total written files with
  | nil =>
      obtain ⟨rfl, rfl⟩ := Program.executes_pure.mp executed
      exact ⟨rfl, fun _ _ => by simpa [filesAfter] using begun⟩
  | cons seq rest inductionHypothesis =>
      rcases Program.executes_bind.mp executed with
        ⟨failure, fetched, rfl⟩ | ⟨data, front, later, rfl, fetched, executed⟩
      · rw [fetch_files fetched]
        exact ⟨rfl, by rintro _ ⟨⟩⟩
      obtain rfl := pieces front seq data (List.subset_append_left _ _) fetched
      rw [filesAfter_append, fetch_files fetched]
      obtain ⟨answer, effect, tail, rfl, served, ended⟩ := Program.executes_send_bind.mp executed
      have target : (effect.change files).target = files.target := served.target (by simp)
      rcases ended with ⟨failure, rfl, rfl, rfl⟩ | ⟨_, rfl, continued⟩
      · exact ⟨target, by rintro _ ⟨⟩⟩
      have appended : (effect.change files).temporary =
          some (written ++ piece width file seq) := by
        rw [served.write rfl, begun, Option.map_some]
      obtain ⟨kept, stored⟩ := inductionHypothesis appended continued
        fun part seq data inTail => pieces part seq data fun exchange inside =>
          List.mem_append_right _ (List.mem_cons_of_mem _ (inTail inside))
      refine ⟨kept.trans target, fun last same => ?_⟩
      rw [List.flatMap_cons, ← List.append_assoc]
      exact stored last same

/-- The target is replaced by the whole file or not at all. -/
def Delivered (file : Bytes) (trace : List ClientExchange) (files : Local)
    (result : Except Failure Unit) : Prop :=
  (filesAfter trace files).target = some file ∨
    (filesAfter trace files).target = files.target ∧ result ≠ .ok ()

theorem save_delivered {width : Nat} {result : Except Failure Unit} (positive : 0 < width)
    (begun : files.temporary = some [])
    (executed : Program.Executes (Serves digest e)
      (client.save digest oid ⟨file.length, width, pieceCount file.length width⟩) trace result)
    (pieces : ∀ part seq data, part ⊆ trace →
      Program.Executes (Serves digest e)
        (client.fetch digest oid ⟨file.length, width, pieceCount file.length width⟩ seq) part
        (.ok data) → data = piece width file seq) :
    Delivered file trace files result := by
  rcases Program.executes_bind.mp executed with
    ⟨failure, fetched, rfl⟩ | ⟨total, front, rest, rfl, fetched, executed⟩
  · exact .inr ⟨(fetchAll_files begun fetched pieces).1, by simp⟩
  obtain ⟨kept, stored⟩ := fetchAll_files begun fetched fun part seq data inFront =>
    pieces part seq data (List.subset_append_of_subset_left _ inFront)
  have whole : (filesAfter front files).temporary = some file := by
    rw [stored total rfl, List.nil_append]
    exact congrArg some (flatMap_piece positive file)
  rw [Delivered, filesAfter_append, ← kept]
  generalize filesAfter front files = files at *
  rcases Program.executes_lift_bind.mp executed with ⟨_, _, rfl, rfl⟩ | ⟨_, _, executed⟩
  · exact .inr ⟨rfl, by simp⟩
  obtain ⟨answer, effect, rest, rfl, served, ended⟩ := Program.executes_send_bind.mp executed
  rcases ended with ⟨_, rfl, rfl, rfl⟩ | ⟨_, rfl, replacing⟩
  · exact .inr ⟨served.target (by simp), by simp⟩
  rw [filesAfter, List.foldl_cons, served.flush rfl]
  obtain ⟨answer, effect, rest, rfl, moved, ended⟩ := Program.executes_send_bind.mp replacing
  rcases ended with ⟨_, rfl, rfl, rfl⟩ | ⟨_, rfl, syncing⟩
  · exact .inr ⟨moved.replace.2 (by simp), by simp⟩
  obtain ⟨answer, effect', rfl, last, _⟩ := Program.executes_send.mp syncing
  refine .inl ?_
  show (effect'.change (effect.change files)).target = some file
  rw [last.target (by simp), moved.replace.1 rfl, whole]

theorem discard_delivered {width : Nat} {whole : Manifest} {result : Except Failure Unit}
    (same : whole = ⟨file.length, width, pieceCount file.length width⟩) (positive : 0 < width)
    (begun : files.temporary = some [])
    (executed : Program.Executes (Serves digest e) (do
      let saved ← (client.save digest oid whole).capture
      discard
      saved) trace result)
    (pieces : ∀ part seq data, part ⊆ trace →
      Program.Executes (Serves digest e) (client.fetch digest oid whole seq) part (.ok data) →
      data = piece width file seq) :
    Delivered file trace files result := by
  subst same
  rcases Program.executes_bind.mp executed with
    ⟨_, captured, _⟩ | ⟨saved, front, rest, rfl, captured, ending⟩
  · obtain ⟨_, same, _⟩ := Program.executes_capture.mp captured
    cases same
  obtain ⟨outcome, same, saving⟩ := Program.executes_capture.mp captured
  obtain rfl := Except.ok.inj same
  have delivered := save_delivered positive begun saving fun part seq data inFront =>
    pieces part seq data (List.subset_append_of_subset_left _ inFront)
  obtain ⟨answer, effect, tail, rfl, removed, ended⟩ := Program.executes_send_bind.mp ending
  have target : ∀ files : Local, (effect.change files).target = files.target := fun files =>
    removed.target (by simp)
  have ends : tail = [] ∧ (saved ≠ .ok () → result ≠ .ok ()) := by
    rcases ended with ⟨_, rfl, rfl, rfl⟩ | ⟨_, rfl, finished⟩
    · simp
    · obtain ⟨rfl, rfl⟩ := Program.executes_lift.mp finished
      simp
  obtain ⟨rfl, failed⟩ := ends
  rw [Delivered, filesAfter_append]
  show (effect.change (filesAfter front files)).target = some file ∨
    (effect.change (filesAfter front files)).target = files.target ∧ result ≠ .ok ()
  rw [target]
  exact delivered.imp_right fun untouched => ⟨untouched.1, failed untouched.2⟩

end Files

theorem download_delivered {files : Local} {result : Except Failure Unit}
    (run : Run Metadata.metadata history σ) (holds : Holds digest file σ.db oid upload object)
    (executed : Program.Executes (Serves digest e) (client.download digest oid) trace result)
    (recorded : Recorded history trace) (distinct : Distinct digest file object.chunkSize trace) :
    Delivered file trace files result := by
  have requests : (client.request .manifest (objectFields oid none) []).Calls
      fun call => ∃ request data, call = .request request data :=
    calls_attempt ⟨_, _, rfl⟩ 2
  rcases Program.executes_bind.mp executed with
    ⟨failure, asking, rfl⟩ | ⟨answer, front, rest, rfl, asking, reading⟩
  · exact .inr ⟨congrArg Local.target (requests_files (requests.executes asking)
      fun _ membership => asking.served membership), by simp⟩
  have untouched : filesAfter front files = files :=
    requests_files (requests.executes asking) fun _ membership => asking.served membership
  rw [Delivered, filesAfter_append, untouched]
  rcases Program.executes_lift_bind.mp reading with ⟨_, _, rfl, rfl⟩ | ⟨whole, read, creating⟩
  · exact .inr ⟨rfl, by simp⟩
  have described := manifest_read run holds asking
    (fun exchange membership => recorded exchange (by simp [membership])) read
  obtain ⟨answer, effect, rest, rfl, served, ended⟩ := Program.executes_send_bind.mp creating
  have kept : (effect.change files).target = files.target := served.target (by simp)
  rcases ended with ⟨_, rfl, rfl, rfl⟩ | ⟨_, rfl, saving⟩
  · exact .inr ⟨kept, by simp⟩
  have positive : 0 < object.chunkSize :=
    (reachable_invariant run.reachable).consistent.shaped.sized oid object holds.located
  have begun : (effect.change files).temporary = some [] := served.create rfl
  have delivered := discard_delivered described positive begun saving
    fun part seq data inRest fetched => fetch_piece run holds fetched
      (fun exchange inside => recorded exchange (List.mem_append_right _
        (List.mem_cons_of_mem _ (inRest inside))))
      fun exchange inside => distinct exchange (List.mem_append_right _
        (List.mem_cons_of_mem _ (inRest inside)))
  rw [Delivered, kept] at delivered
  exact delivered

theorem upload_finished {name : Value} {fuel : Nat} {start : Option Ident}
    (run : Run Metadata.metadata history σ)
    (executed : Program.Executes (Serves digest e) (client.upload digest file name fuel start) trace
      (.ok (published oid)))
    (recorded : Recorded history trace) :
    ∃ upload row object, σ.db.uploads.get? upload = some row ∧ row.object = oid ∧
      σ.db.objects.get? oid = some object ∧ object.size = file.length := by
  have continued : ∃ upload part, part ⊆ trace ∧ Program.Executes (Serves digest e)
      (client.continueUpload digest file fuel upload) part (.ok (published oid)) := by
    cases start with
    | some upload => exact ⟨upload, trace, List.Subset.refl _, executed⟩
    | none =>
        rcases Program.executes_bind.mp executed with
          ⟨_, _, failed⟩ | ⟨upload, front, rest, rfl, _, continued⟩
        · cases failed
        · exact ⟨upload, rest, List.subset_append_right _ _, continued⟩
  obtain ⟨upload, part, inTrace, continued⟩ := continued
  obtain ⟨row, object, stored, located, ⟨τ, seen, before, old, storedBefore, rfl, locatedBefore, _⟩,
    sized, _⟩ := continueUpload_fixes run continued
      fun exchange membership => recorded exchange (inTrace membership)
  obtain ⟨_, _, storedLater, sameObject, _⟩ := upload_kept run seen storedBefore locatedBefore
  obtain rfl := Option.some.inj (stored.symm.trans storedLater)
  exact ⟨upload, row, object, stored, sameObject, sameObject ▸ located, sized⟩

theorem sessions_hold {sessions : List (List ClientExchange)} {name : Value} {fuel : Nat}
    {start : Option Ident} (run : Run Metadata.metadata history σ)
    (sessioned : ∀ trace ∈ sessions, Session digest e client file trace ∧ Recorded history trace)
    (returned : trace ∈ sessions)
    (executed : Program.Executes (Serves digest e) (client.upload digest file name fuel start) trace
      (.ok (published oid)))
    (sent : ∀ upload row, σ.db.uploads.get? upload = some row → row.object = oid →
      SentBy history sessions upload) :
    ∃ upload object, Holds digest file σ.db oid upload object := by
  obtain ⟨upload, row, object, stored, owned, located, sized⟩ :=
    upload_finished run executed (sessioned trace returned).2
  refine ⟨upload, object, ⟨row, stored, owned⟩, located, sized, fun cid chunk sha present part fixed => ?_⟩
  obtain ⟨chunkSize, ⟨row', object', stored', located', rfl⟩, same⟩ :=
    sent_carries run sessioned (sent upload row stored owned) present part fixed
  obtain rfl := Option.some.inj (stored.symm.trans stored')
  rw [owned, located, Option.some.injEq] at located'
  rw [same, located']

/-- When an upload of the file has returned, a download of the object delivers
the file, or raises and leaves the target as it was or with the whole file. -/
theorem download_delivers {sessions : List (List ClientExchange)} {uploading : List ClientExchange}
    {name : Value} {fuel : Nat} {start : Option Ident} {reader : Account} {files : Local}
    {result : Except Failure Unit} (run : Run Metadata.metadata history σ)
    (sessioned : ∀ trace ∈ sessions, Session digest e client file trace ∧ Recorded history trace)
    (returned : uploading ∈ sessions)
    (executed : Program.Executes (Serves digest e) (client.upload digest file name fuel start)
      uploading (.ok (published oid)))
    (sent : ∀ upload row, σ.db.uploads.get? upload = some row → row.object = oid →
      SentBy history sessions upload)
    (downloaded : Program.Executes (Serves digest e) (reader.download digest oid) trace result)
    (recorded : Recorded history trace)
    (distinct : ∀ object, σ.db.objects.get? oid = some object →
      Distinct digest file object.chunkSize trace) :
    (result = .ok () → (filesAfter trace files).target = some file) ∧
      ∀ failure, result = .error failure → (filesAfter trace files).target = files.target ∨
        (filesAfter trace files).target = some file := by
  obtain ⟨upload, object, holds⟩ := sessions_hold run sessioned returned executed sent
  have delivered : Delivered file trace files result :=
    download_delivered run holds downloaded recorded (distinct object holds.located)
  rcases delivered with whole | ⟨untouched, failed⟩
  · exact ⟨fun _ => whole, fun _ _ => .inr whole⟩
  · exact ⟨fun succeeded => absurd succeeded failed, fun _ _ => .inl untouched⟩

section Byte

def describeByte : Action := .request installation "owner" (.manifest 1000) id

def locateByte : Action := .request installation "owner" (.locations 1000 0) id

def byteDescribed : State := (Metadata.metadata.step bytePublished describeByte).get (by decide +kernel)

def byteLocated : State := (Metadata.metadata.step byteDescribed locateByte).get (by decide +kernel)

def byteRead : State := (Metadata.metadata.step byteLocated describeByte).get (by decide +kernel)

def byteRecord : List (Event State Action) :=
  ⟨byteLocated, describeByte, byteRead⟩ :: ⟨byteDescribed, locateByte, byteLocated⟩ ::
    ⟨bytePublished, describeByte, byteDescribed⟩ :: byteHistory

theorem byteRecord_run : Run Metadata.metadata byteRecord byteRead :=
  .next (.next (.next byte_run (Option.some_get _).symm) (Option.some_get _).symm)
    (Option.some_get _).symm

def byteManifest : Reply := .manifest 1000 "file" 1 4 1

def fetchByte : Gateway.Request := owner.frame .download (objectFields 1000 (some 0))

def byteLocations : Reply := .located 1002 1 (some 7) [(1, "first:9000"), (2, "second:9000")]

/-- The copy on the first node is read. -/
def byteFetched : Gateway.Exchanges :=
  [Gateway.requestOf ⟨"owner", .locations, fetchByte.fields, none, none⟩
      (.ok (.reply byteLocations)) ⟨[(byteDescribed.db, byteLocated.db)], none⟩,
    Gateway.readOf "first:9000" 1002 1 (some 7) (.ok [7]) ⟨[], some [7]⟩,
    Gateway.requestOf ⟨"owner", .manifest, fetchByte.fields, none, none⟩
      (.ok (.reply byteManifest)) ⟨[(byteLocated.db, byteRead.db)], none⟩]

def byteDownload : List ClientExchange :=
  [asked (owner.frame .manifest (objectFields 1000 none)) [] (.ok (.metadata (.reply byteManifest)))
      ⟨Gateway.passedOn "owner" (owner.frame .manifest (objectFields 1000 none)) byteManifest
        bytePublished byteDescribed, id⟩,
    ⟨.create, .ok (), ⟨[], fun files => { files with temporary := some [] }⟩⟩,
    asked fetchByte [] (.ok (.content 1 (some 7) [7])) ⟨byteFetched, id⟩,
    ⟨.write [7], .ok (),
      ⟨[], fun files => { files with temporary := files.temporary.map (· ++ [7]) }⟩⟩,
    ⟨.flush, .ok (), ⟨[], id⟩⟩,
    ⟨.replace, .ok (), ⟨[], fun files => ⟨files.temporary, none⟩⟩⟩,
    ⟨.sync, .ok (), ⟨[], id⟩⟩,
    ⟨.discard, .ok (), ⟨[], fun files => { files with temporary := none }⟩⟩]

theorem byteDownload_recorded : Recorded byteRecord byteDownload := by
  have listed : ∀ before action after, ⟨before, action, after⟩ ∈ byteRecord →
      ∃ event ∈ byteRecord, event.before.db = before.db ∧ event.after.db = after.db :=
    fun before action after membership => ⟨_, membership, rfl, rfl⟩
  simp only [Recorded, byteDownload, byteFetched, asked, transactions, Gateway.passedOn,
    Gateway.readOf, Gateway.requestOf, List.forall_mem_cons, List.flatMap_cons, List.flatMap_nil,
    List.append_nil, List.cons_append, List.nil_append, List.not_mem_nil, false_implies,
    implies_true, and_true, true_and]
  refine ⟨listed bytePublished describeByte byteDescribed ?_,
    listed byteDescribed locateByte byteLocated ?_, listed byteLocated describeByte byteRead ?_⟩
  all_goals simp [byteRecord]

theorem byte_fetched : Serves firstByte .plain (.request fetchByte [])
    (.ok (.content 1 (some 7) [7]) : Except Failure Result) ⟨byteFetched, id⟩ := by
  have described : Reachable Metadata.metadata byteDescribed :=
    byte_run.reachable.next (Option.some_get _).symm
  have located : Gateway.Serves firstByte .plain installation
      (.metadata ⟨"owner", .locations, fetchByte.fields, none, none⟩) (.ok (.reply byteLocations))
      ⟨[(byteDescribed.db, byteLocated.db)], none⟩ := by
    have replied : (byteDescribed.db.dispatch installation byteDescribed.now id "owner"
        (.locations 1000 0)).map Prod.fst = .ok byteLocations := by decide +kernel
    exact .stepped (show Cmd.locations ≠ .confirm by decide) rfl described
      (Option.some_get _).symm replied
  have revalidated : Gateway.Serves firstByte .plain installation
      (.metadata ⟨"owner", .manifest, fetchByte.fields, none, none⟩) (.ok (.reply byteManifest))
      ⟨[(byteLocated.db, byteRead.db)], none⟩ := by
    have replied : (byteLocated.db.dispatch installation byteLocated.now id "owner"
        (.manifest 1000)).map Prod.fst = .ok byteManifest := by decide +kernel
    exact .stepped (show Cmd.manifest ≠ .confirm by decide) rfl
      (described.next (Option.some_get _).symm) (Option.some_get _).symm replied
  have read : Gateway.Serves firstByte .plain installation
      (.get "first:9000" 1002 ([7] : Bytes).length (some 7)) (.ok [7]) ⟨[], some [7]⟩ :=
    .read (some [7])
  exact .answered installation (Gateway.download_executes (owner_authenticated _ _) rfl located
    read rfl revalidated)

theorem byte_downloaded : Program.Executes (Serves firstByte .plain)
    (owner.download firstByte 1000) byteDownload (.ok ()) := by
  refine Program.executes_bind.mpr (.inr ⟨.metadata (.reply byteManifest), [_], _, rfl,
    attempt_answered (.answered installation (owner_passed firstByte .plain byteManifest ?_ rfl
      byte_run.reachable (Option.some_get _).symm ?_)), ?_⟩)
  · decide +kernel
  · decide +kernel
  refine Program.executes_lift_bind.mpr (.inr ⟨⟨1, 4, 1⟩, rfl, ?_⟩)
  refine Program.executes_send_bind.mpr ⟨_, _, _, rfl, .created, .inr ⟨(), rfl, ?_⟩⟩
  refine Program.executes_bind.mpr (.inr ⟨.ok (), [_, _, _, _, _], [_], rfl, ?_, ?_⟩)
  · refine Program.executes_capture.mpr ⟨.ok (), rfl, ?_⟩
    refine Program.executes_bind.mpr (.inr ⟨1, [_, _], _, rfl, ?_, ?_⟩)
    · refine Program.executes_bind.mpr (.inr ⟨[7], [_], [_], rfl, ?_, ?_⟩)
      · refine Program.executes_bind.mpr
          (.inr ⟨.content 1 (some 7) [7], [_], [], rfl, attempt_answered byte_fetched, ?_⟩)
        refine Program.executes_lift_bind.mpr (.inr ⟨⟨1, some 7, [7]⟩, rfl, ?_⟩)
        exact Program.executes_lift_bind.mpr
          (.inr ⟨(), by decide +kernel, Program.executes_pure.mpr ⟨rfl, rfl⟩⟩)
      · exact Program.executes_send_bind.mpr ⟨_, _, _, rfl, .written [7],
          .inr ⟨(), rfl, Program.executes_pure.mpr ⟨rfl, rfl⟩⟩⟩
    refine Program.executes_lift_bind.mpr (.inr ⟨(), rfl, ?_⟩)
    refine Program.executes_send_bind.mpr ⟨_, _, _, rfl, .flushed, .inr ⟨(), rfl, ?_⟩⟩
    refine Program.executes_send_bind.mpr ⟨_, _, _, rfl, .replaced, .inr ⟨(), rfl, ?_⟩⟩
    exact Program.executes_send.mpr ⟨_, _, rfl, .synced, rfl⟩
  · refine Program.executes_send_bind.mpr ⟨_, _, _, rfl, .discarded, .inr ⟨(), rfl, ?_⟩⟩
    exact Program.executes_lift.mpr ⟨rfl, rfl⟩

/-- A file of one byte is sent, stored on two nodes, read back and replaces
what the target held. -/
theorem download_delivers_byte :
    (filesAfter byteDownload ⟨some [5, 5], none⟩).target = some [7] := by
  have uploaded : Recorded byteRecord byteUpload := by
    intro exchange membership step inside
    obtain ⟨event, listed, same⟩ := byte_recorded exchange membership step inside
    exact ⟨event, by simp [byteRecord, listed], same⟩
  have sessioned : ∀ trace ∈ [byteUpload],
      Session firstByte .plain owner [7] trace ∧ Recorded byteRecord trace := by
    rw [List.forall_mem_singleton]
    exact ⟨⟨.text "file", 1, none, [], _, by simpa using byte_uploaded⟩, uploaded⟩
  have sent : ∀ upload row, byteRead.db.uploads.get? upload = some row → row.object = 1000 →
      SentBy byteRecord [byteUpload] upload := by
    intro upload row _ _ event listed prepares
    have quiet : ∀ action ∈ statActions ++ uploadActions.take 6,
        ∀ db upload, ¬Prepares db upload action := by
      rintro action membership db upload prepares
      cases prepares <;> simp [statActions, uploadActions, heartbeatActions] at membership
    simp only [byteRecord, byteHistory, List.mem_cons, List.mem_append] at listed
    rcases listed with rfl | rfl | rfl | rfl | rfl | early | rfl | rfl | rfl | rfl | rfl | early
    case inr.inr.inr.inr.inr.inr.inr.inl =>
      exact ⟨byteUpload, List.mem_singleton_self _,
        asked sendByte [7] (.ok (.metadata (.confirmed 1))) ⟨byteSent, id⟩, by simp [byteUpload],
        by simp [transactions, asked, byteSent, Gateway.requestOf]⟩
    all_goals first
      | cases prepares
      | exact absurd prepares (quiet _ (List.mem_append_left _
          (System.action_mem_of_mem_events early)) _ _)
      | exact absurd prepares (quiet _ (List.mem_append_right _
          (System.action_mem_of_mem_events early)) _ _)
  have distinct : ∀ object, byteRead.db.objects.get? 1000 = some object →
      Distinct firstByte [7] object.chunkSize byteDownload := by
    intro object located exchange membership data received seq same
    have width : object = ⟨"owner", "file", 1, 4, 2, .published⟩ := by
      have stored : byteRead.db.objects.get? 1000 =
          some ⟨"owner", "file", 1, 4, 2, .published⟩ := by decide +kernel
      exact Option.some.inj (located.symm.trans stored)
    have content : data = [7] := by
      simp only [byteDownload, List.mem_cons, List.not_mem_nil, or_false] at membership
      rcases membership with rfl | rfl | rfl | rfl | rfl | rfl | rfl | rfl
      case inr.inr.inl =>
        obtain ⟨_, _, answered⟩ := received
        cases answered
        rfl
      case inl =>
        obtain ⟨_, _, other⟩ := received
        cases other
      all_goals cases received
    subst width content
    cases seq with
    | zero => rfl
    | succ seq =>
        have past : piece 4 ([7] : Bytes) (seq + 1) = [] := by
          rw [← List.length_eq_zero_iff, length_piece, List.length_singleton]
          omega
        rw [past] at same
        exact absurd same (by decide)
  exact (download_delivers byteRecord_run sessioned (List.mem_singleton_self _) byte_uploaded sent
    byte_downloaded byteDownload_recorded distinct).1 rfl

end Byte

end FileServer.Client

import FileServer.Gateway.Handlers
import FileServer.Metadata.System

/-!
# Rejected uploads

An upload whose data does not fit its chunk is rejected at the checksum, before
anything is called, or at the length, which the gateway learns from a
`prepare` that has been committed by then.
-/

namespace FileServer.Gateway

open FileServer.Metadata FileServer.Storage FileServer.Transition

def prepareCall (owner : String) (fields : Fields) : Call :=
  .metadata ⟨owner, .prepare, fields, none, none⟩

/-- The data of an upload does not fit: not the checksum it gives, or not the
length of the chunk it prepares. -/
def Misfit (digest : Bytes → Sha) (owner : String) (fields : Fields) (data : Bytes)
    (trace : Exchanges) : Prop :=
  fields.sha256 ≠ some (.digest (digest data)) ∨
    ∃ cid length sha positions effect rest,
      trace = ⟨prepareCall owner fields, .ok (.prepared cid length sha positions), effect⟩ :: rest ∧
        data.length ≠ length

section Handler

variable {digest : Bytes → Sha} {e : Engine} {c : Config}

theorem dispatch_upload {request : Request} {owner : String} {data : Bytes}
    (authenticated : authenticate c request = .ok owner) (uploads : request.cmd = .upload) :
    dispatch digest c request data = upload digest c owner request.fields data := by
  simp only [dispatch, authenticated, uploads]
  rfl

theorem prepare_served {owner : String} {fields : Fields} {response : Response} {effect : Effect}
    (served : Serves digest e c (prepareCall owner fields) (.ok response) effect) :
    ∃ now ident db db', db.dispatchBy e c now ident ⟨owner, .prepare, fields, none, none⟩ =
        .ok (response, db') ∧ effect = ⟨[(db, db')], none⟩ :=
  Serves.dispatched (show Cmd.prepare ≠ .confirm by decide) served

theorem prepare_fixes {owner : String} {fields : Fields} {response : Response} {now : Time}
    {ident : Nat → Ident} {db db' : Database}
    (prepared : db.dispatchBy e c now ident ⟨owner, .prepare, fields, none, none⟩ =
      .ok (response, db')) :
    ∃ cid chunk, db.addressed e fields = some (cid, chunk) ∧ (db' = db ↔ chunk.sha ≠ none) := by
  simp only [Database.dispatchBy, bind_eq_ok, require_eq_ok] at prepared
  obtain ⟨_, _, sel, selected, prepared⟩ := prepared
  obtain ⟨position, sha, cid, chunk, located, sequence, given, chosen, free, _, rfl⟩ :=
    Database.prepareBy_ok prepared
  refine ⟨cid, chunk, ?_, Database.fixed_eq_iff (Database.chunksAtBy_stored chosen) free⟩
  simp [Database.addressed, selected, Except.toOption, sequence, chosen]

theorem misfit_rejected {owner : String} {fields : Fields} {data : Bytes} {trace : Exchanges}
    {result : Except Failure Result}
    (executed : Program.Executes (Serves digest e c) (upload digest c owner fields data) trace result)
    (misfit : Misfit digest owner fields data trace) :
    (fields.sha256 ≠ some (.digest (digest data)) ∧ trace = [] ∧
        result = .error (.error ⟨.checksum, "upload checksum mismatch"⟩)) ∨
      (fields.sha256 = some (.digest (digest data)) ∧
        (∃ now ident db db' cid length sha positions,
          db.dispatchBy e c now ident ⟨owner, .prepare, fields, none, none⟩ =
            .ok (.prepared cid length sha positions, db') ∧
          trace = [⟨prepareCall owner fields, .ok (.prepared cid length sha positions),
            ⟨[(db, db')], none⟩⟩]) ∧
        result = .error (.error ⟨.invalid, "wrong chunk length"⟩)) := by
  rcases Program.executes_lift_bind.mp executed with
    ⟨failure, refused, rfl, rfl⟩ | ⟨_, accepted, continued⟩
  · simp only [demand, require] at refused
    split at refused
    · cases refused
    · next mismatch => exact .inl ⟨mismatch, rfl, by simp_all⟩
  · have matched := require_eq_ok.mp accepted
    obtain ⟨answer, effect, rest, rfl, served, ended⟩ :=
      Program.executes_send_bind.mp continued
    rcases misfit with mismatch | ⟨cid, length, sha, positions, _, _, equality, different⟩
    · exact absurd matched mismatch
    obtain ⟨first, rfl⟩ := List.cons.inj equality
    cases first
    obtain ⟨now, ident, db, db', dispatched, rfl⟩ := prepare_served served
    rcases ended with ⟨failure, answered, _⟩ | ⟨response, answered, delivered⟩
    · cases answered
    · cases answered
      rcases Program.executes_lift_bind.mp delivered with
        ⟨failure, refused, rfl, rfl⟩ | ⟨_, accepted, _⟩
      · refine .inr ⟨matched, ⟨now, ident, db, db', cid, length, sha, positions, dispatched, rfl⟩, ?_⟩
        simp_all [demand, require]
      · exact absurd (require_eq_ok.mp accepted) different

/-- A rejected upload leaves the tables as they were exactly when its data does
not have the checksum it gives or the checksum of its chunk was fixed before. -/
theorem rejections_unchanged {request : Request} {owner : String} {data : Bytes}
    {trace : Exchanges} {result : Except Failure Result}
    (authenticated : authenticate c request = .ok owner) (uploads : request.cmd = .upload)
    (executed : Program.Executes (Serves digest e c) (dispatch digest c request data) trace result)
    (misfit : Misfit digest owner request.fields data trace) :
    (∃ failure, result = .error failure) ∧
      ((∀ exchange ∈ trace, ∀ step ∈ exchange.effect.transactions, step.2 = step.1) ↔
        request.fields.sha256 ≠ some (.digest (digest data)) ∨
          ∀ exchange ∈ trace, ∀ step ∈ exchange.effect.transactions,
            ∀ entry ∈ step.1.addressed e request.fields, entry.2.sha ≠ none) := by
  rw [dispatch_upload authenticated uploads] at executed
  rcases misfit_rejected executed misfit with
    ⟨mismatch, rfl, rfl⟩ | ⟨matched, ⟨now, ident, db, db', cid, length, sha, positions, prepared,
      rfl⟩, rfl⟩
  · exact ⟨⟨_, rfl⟩, by simp [mismatch]⟩
  · obtain ⟨_, chunk, addressed, unchanged⟩ := prepare_fixes prepared
    refine ⟨⟨_, rfl⟩, ?_⟩
    simp [matched, addressed, unchanged]

end Handler

section Rejected

/-- SHA-256 of the two contents below. -/
def sampleDigest : Bytes → Sha
  | [0, 0] => 0x96a296d224f285c67bee93c30f8a309157f0daa35dc5b87e410b78630a09cfc7
  | [5] => 0xe77b9a9ae9e30b0dbdb6f510a264ef9de781501d7b6b92ae89eb059c5ab743db
  | _ => 0

/-- An object of one byte has been initialized. -/
def stagedActions : List Action :=
  heartbeatActions 1 ++ heartbeatActions 2 ++ heartbeatActions 3 ++
    [.request installation "owner" (.init 1 "file") (1000 + ·)]

def staged : State :=
  (Metadata.metadata.execute Metadata.metadata.initial stagedActions).get (by decide +kernel)

def sendFirst (data : Bytes) : Request where
  owner := some (.text "owner")
  token := some (.text "token")
  cmd := .upload
  fields := {
    uploadId := some (.ident 1001), objectId := none, seq := some (.int 0)
    sha256 := some (.digest (sampleDigest data)), size := none, name := none, cursor := none }

/-- What an upload of two bytes prepares. -/
def longPrepared : Response × Database :=
  (staged.db.dispatchBy .plain installation 0 id
    ⟨"owner", .prepare, (sendFirst [0, 0]).fields, none, none⟩).toOption.get (by decide +kernel)

def longLocations : List Assigned :=
  [⟨1, "first:9000", ⟨some (.ident 1001), 1002, 1, sampleDigest [0, 0], 1, 201, 101, 2⟩⟩,
    ⟨2, "second:9000", ⟨some (.ident 1001), 1002, 1, sampleDigest [0, 0], 2, 202, 102, 2⟩⟩]

theorem longPrepared_response :
    longPrepared.1 = .prepared 1002 1 (sampleDigest [0, 0]) longLocations := by
  decide +kernel

theorem longPrepared_served : staged.db.dispatchBy .plain installation 0 id
    ⟨"owner", .prepare, (sendFirst [0, 0]).fields, none, none⟩ = .ok longPrepared :=
  eq_ok_get _

def longTrace : Exchanges :=
  [⟨prepareCall "owner" (sendFirst [0, 0]).fields,
    .ok (.prepared 1002 1 (sampleDigest [0, 0]) longLocations),
    ⟨[(staged.db, longPrepared.2)], none⟩⟩]

theorem longCredential : authenticate installation (sendFirst [0, 0]) = .ok "owner" := by
  decide +kernel

theorem long_rejected :
    Program.Executes (Serves sampleDigest .plain installation)
      (dispatch sampleDigest installation (sendFirst [0, 0]) [0, 0]) longTrace
      (.error (.error ⟨.invalid, "wrong chunk length"⟩)) := by
  rw [dispatch_upload longCredential rfl]
  have served : Serves sampleDigest .plain installation
      (prepareCall "owner" (sendFirst [0, 0]).fields)
      (.ok (.prepared 1002 1 (sampleDigest [0, 0]) longLocations))
      ⟨[(staged.db, longPrepared.2)], none⟩ := by
    rw [← longPrepared_response]
    exact .answered (by decide) longPrepared_served
  refine Program.executes_lift_bind.mpr (.inr ⟨(), by decide +kernel, ?_⟩)
  refine Program.executes_send_bind.mpr ⟨_, _, [], rfl, served, .inr ⟨_, rfl, ?_⟩⟩
  exact Program.executes_lift_bind.mpr (.inl ⟨_, by decide +kernel, rfl, rfl⟩)

theorem long_misfit : Misfit sampleDigest "owner" (sendFirst [0, 0]).fields [0, 0] longTrace :=
  .inr ⟨1002, 1, _, _, _, [], rfl, by decide⟩

theorem long_addressed (data : Bytes) : staged.db.addressed .plain (sendFirst data).fields =
    some (1002, ⟨1001, 0, 1, none, .pending⟩) := by
  show staged.db.addressed .plain (sendFirst []).fields = _
  decide +kernel

/-- The upload of two bytes changes the tables. -/
theorem rejections_unchanged_long : ¬∀ exchange ∈ longTrace,
    ∀ step ∈ exchange.effect.transactions, step.2 = step.1 := by
  intro unchanged
  obtain ⟨_, exactly⟩ := rejections_unchanged longCredential rfl long_rejected long_misfit
  rcases exactly.mp unchanged with mismatch | fixed
  · exact mismatch rfl
  · exact fixed _ List.mem_cons_self _ List.mem_cons_self _ (long_addressed _) rfl

/-- The rejected upload fixes the checksum of a fresh chunk, and an upload of
data of the right length is then refused. -/
theorem rejection_poisons :
    Reachable Metadata.metadata staged ∧
      Program.Executes (Serves sampleDigest .plain installation)
        (dispatch sampleDigest installation (sendFirst [0, 0]) [0, 0]) longTrace
        (.error (.error ⟨.invalid, "wrong chunk length"⟩)) ∧
      Misfit sampleDigest "owner" (sendFirst [0, 0]).fields [0, 0] longTrace ∧
      ∃ exchange ∈ longTrace, ∃ step ∈ exchange.effect.transactions,
        step.1 = staged.db ∧ step.2 ≠ step.1 ∧
        (step.1.dispatchBy .plain installation 0 id
            ⟨"owner", .prepare, (sendFirst [5]).fields, none, none⟩).toOption.isSome ∧
        (step.2.dispatchBy .plain installation 0 id
            ⟨"owner", .prepare, (sendFirst [5]).fields, none, none⟩).map Prod.fst =
          .error ⟨.conflict, "checksum already fixed for this chunk"⟩ := by
  refine ⟨⟨_, Metadata.metadata.run stagedActions (by decide +kernel)⟩, long_rejected, long_misfit,
    _, List.mem_cons_self, (staged.db, longPrepared.2), List.mem_cons_self, rfl, ?_,
    by decide +kernel, by decide +kernel⟩
  intro same
  have before : (staged.db.chunks.get? 1002).map ChunkRow.sha = some none := by decide +kernel
  have after : (longPrepared.2.chunks.get? 1002).map ChunkRow.sha =
      some (some (sampleDigest [0, 0])) := by decide +kernel
  rw [same, before] at after
  cases after

end Rejected

end FileServer.Gateway

import FileServer.Metadata.Additions
import FileServer.Metadata.Readiness

/-!
# Where a checksum comes from

The chunks of a completed upload are confirmed, a confirmed chunk has a
checksum, and every checksum was given by a `prepare` of its chunk.
-/

namespace FileServer.Metadata

open FileServer.Relational FileServer.Transition

theorem completed_confirmed {σ : State} (reached : Reachable metadata σ) {upload : Ident}
    {row : UploadRow} (stored : σ.db.uploads.get? upload = some row)
    (completed : row.state = .completed) : σ.db.AllConfirmed upload := by
  obtain ⟨history, run⟩ := reached
  induction run generalizing upload row with
  | start => simp [metadata, State.initial, Database.empty] at stored
  | @next history before action after earlier stepped inductionHypothesis =>
      intro cid chunk present owned
      have linked := (reachable_invariant (earlier.reachable.next stepped)).consistent.linked
      have linkedBefore := (reachable_invariant earlier.reachable).consistent.linked
      obtain ⟨object, located⟩ := linked.uploadObject upload row stored
      have published : object.state = .published :=
        (linked.paired upload row object stored located).completed_iff.mp completed
      rcases step_publishes earlier.reachable stepped with
        ⟨focus, drawn, quiet, steps⟩ | ⟨other, row', object', publishes⟩
      · obtain ⟨old, locatedBefore, state⟩ := steps.published quiet located published
        obtain ⟨other, row', storedBefore, same⟩ := linkedBefore.objectUpload _ old locatedBefore
        have seen : Visited (⟨before, action, after⟩ :: history) after before :=
          (Visited.last history before).next action
        obtain ⟨_, grown⟩ := visited_grown (earlier.next stepped) seen
        obtain ⟨later, storedLater, kept⟩ := grown.uploads other row' storedBefore
        obtain rfl := linked.uploadUnique _ _ _ _ storedLater stored (kept.trans same)
        have frozen := (run_frozen (earlier.next stepped) seen storedBefore (same ▸ locatedBefore)
          (by simp [state]) cid chunk owned).mp present
        have closed := (linkedBefore.paired _ row' old storedBefore
          (same ▸ locatedBefore)).completed_iff.mpr state
        exact inductionHypothesis storedBefore closed cid chunk frozen owned
      · rw [publishes.result] at stored present
        by_cases same : upload = other
        · subst other
          exact (Database.checkChunks_ok publishes.checked (cid, chunk)
            (before.db.mem_chunksOf.mpr ⟨present, owned⟩)).1
        · simp only [Database.publish, Table.get?_modify, if_neg same] at stored
          exact inductionHypothesis stored completed cid chunk present owned

theorem LifeMove.checksum {focus : Focus} {drawn : List Ident} {db db' : Database}
    (life : LifeMove focus drawn db db') {cid : Ident} {chunk' : ChunkRow} {sha : Sha}
    (stored : db'.chunks.get? cid = some chunk') (fixed : chunk'.sha = some sha) :
    (∃ chunk, db.chunks.get? cid = some chunk ∧ chunk.sha = some sha) ∨ focus = .prepare cid sha := by
  cases life with
  | same objects uploads chunks | publish _ _ _ _ _ _ _ _ objects uploads chunks
  | retire _ _ _ _ _ objects uploads chunks =>
      exact .inl ⟨chunk', by rw [← chunks, stored], fixed⟩
  | fixSha other _ given owner _ _ _ objects uploads chunks =>
      rw [chunks, Table.get?_modify] at stored
      split at stored
      next same =>
        obtain ⟨chunk, _, rfl⟩ := Option.map_eq_some_iff.mp stored
        obtain rfl := Option.some.inj fixed
        exact .inr (same ▸ owner)
      · exact .inl ⟨chunk', stored, fixed⟩
  | confirm other _ _ _ _ objects uploads chunks =>
      rw [chunks, Table.get?_modify] at stored
      split at stored
      · obtain ⟨chunk, found, rfl⟩ := Option.map_eq_some_iff.mp stored
        exact .inl ⟨chunk, found, fixed⟩
      · exact .inl ⟨chunk', stored, fixed⟩
  | create oid upload object row ids creation =>
      by_cases new : ∃ seq < chunkCount object.size object.chunkSize, cid = ids seq
      · obtain ⟨seq, inRange, rfl⟩ := new
        rw [(creation.created seq inRange).1, Option.some.injEq] at stored
        subst chunk'
        cases fixed
      · simp only [not_exists, not_and] at new
        exact .inl ⟨chunk', by rw [← creation.others cid new, stored], fixed⟩

theorem Steps.checksum {focus : Focus} {drawn : List Ident} {db db' : Database}
    (steps : Steps focus drawn db db') {cid : Ident} {chunk' : ChunkRow} {sha : Sha}
    (stored : db'.chunks.get? cid = some chunk') (fixed : chunk'.sha = some sha) :
    (∃ chunk, db.chunks.get? cid = some chunk ∧ chunk.sha = some sha) ∨ focus = .prepare cid sha := by
  induction steps generalizing chunk' with
  | refl => exact .inl ⟨chunk', stored, fixed⟩
  | tail _ moves inductionHypothesis =>
      rcases moves.life.checksum stored fixed with ⟨chunk, before, same⟩ | owner
      · exact inductionHypothesis before same
      · exact .inr owner

structure Fixes (db db' : Database) (cid : Ident) (sha : Sha) : Prop where
  before : ∃ old, db.chunks.get? cid = some old ∧ old.sha = none
  after : ∃ new, db'.chunks.get? cid = some new ∧ new.sha = some sha

theorem not_fixes {db db' : Database} (same : db'.chunks = db.chunks) {cid : Ident} {sha : Sha} :
    ¬Fixes db db' cid sha := by
  rintro ⟨⟨old, before, unset⟩, new, after, fixed⟩
  rw [same, before, Option.some.injEq] at after
  rw [← after, unset] at fixed
  cases fixed

theorem Fixes.focus {db db' : Database} {focus : Focus} {drawn : List Ident} {cid : Ident}
    {sha : Sha} (fixes : Fixes db db' cid sha) (steps : Steps focus drawn db db') :
    focus = .prepare cid sha := by
  obtain ⟨old, before, unset⟩ := fixes.before
  obtain ⟨new, after, fixed⟩ := fixes.after
  refine (steps.checksum after fixed).resolve_left ?_
  rintro ⟨chunk, present, same⟩
  obtain rfl := Option.some.inj (before.symm.trans present)
  rw [unset] at same
  cases same

theorem Command.Focuses.fixes {db db' : Database} {owner : String} {command : Command}
    {focus : Focus} {drawn : List Ident} {cid : Ident} {sha : Sha}
    (focuses : command.Focuses db owner focus) (steps : Steps focus drawn db db')
    (fixes : Fixes db db' cid sha) :
    ∃ chunk seq, db.chunks.get? cid = some chunk ∧ (chunk.seq : Int) = seq ∧
      command = .prepare chunk.upload seq (some sha) := by
  obtain rfl := fixes.focus steps
  cases focuses with
  | prepare upload seq sha cid chunk row object stored found owned selected =>
      obtain ⟨present, rfl, place⟩ := Database.chunkAt_eq_some _ selected
      exact ⟨chunk, seq, present, place, rfl⟩

theorem Database.confirmCommit_fixes {db db' : Database} {c : Config} {now : Time}
    {op : Confirming} {bytes : Nat} (committed : db.confirmCommit c now op = .ok (bytes, db'))
    {cid : Ident} {sha : Sha} : ¬Fixes db db' cid sha := by
  obtain ⟨_, _, settled, _, _, _, _, _, _, executed, rfl⟩ := confirmCommit_ok committed
  rintro ⟨⟨old, before, unset⟩, new, after, fixed⟩
  simp only [confirmLoop_chunks executed, Table.get?_modify] at after
  split at after
  · rw [before, Option.map_some, Option.some.injEq] at after
    rw [← after] at fixed
    exact absurd (unset.symm.trans fixed) (by simp)
  · rw [before, Option.some.injEq] at after
    rw [← after, unset] at fixed
    cases fixed

theorem Database.retire_chunks {db : Database} {c : Config} {now : Time} {upload : Ident}
    {row : UploadRow} {state : UploadState} (stored : db.uploads.get? upload = some row) :
    (Database.retire c now db upload state).chunks = db.chunks := by
  obtain ⟨looped, retirement⟩ := Database.retire_ok c now stored state
  exact retirement.same.chunks.trans retirement.loop.same.chunks

theorem Database.dispatchBy_fixes {e : Engine} {db db' : Database} {c : Config} {now : Time}
    {ident : Nat → Ident} {request : Internal} {response : Response} (consistent : Consistent db)
    (dispatched : db.dispatchBy e c now ident request = .ok (response, db')) {cid : Ident} {sha : Sha}
    (fixes : Fixes db db' cid sha) : request.cmd = .prepare := by
  by_contra other
  cases kind : request.cmd <;>
    simp only [dispatchBy, kind, bind_eq_ok, require_eq_ok, pure_eq_ok, Prod.exists,
      Prod.mk.injEq] at dispatched
  case prepare => exact other kind
  case init =>
    obtain ⟨_, _, reply, after, initialized, _, rfl⟩ := dispatched
    have focus : Focus.none = .prepare cid sha :=
      fixes.focus (.single (init_moves consistent initialized))
    cases focus
  case status | manifest | locations =>
    obtain ⟨_, _, _, _, _, _, _, rfl⟩ := dispatched
    exact absurd fixes (not_fixes rfl)
  case complete =>
    obtain ⟨_, _, sel, _, reply, after, completed, _, rfl⟩ := dispatched
    have chunks : after.chunks = db.chunks := by
      rcases completeBy_changes completed with rfl | ⟨oid, rfl⟩
      · rfl
      · rfl
    exact not_fixes chunks fixes
  case cancel =>
    obtain ⟨_, _, sel, _, reply, after, cancelled, _, rfl⟩ := dispatched
    rcases cancelBy_changes cancelled with rfl | ⟨_, _, state, stored, rfl⟩
    · exact absurd fixes (not_fixes rfl)
    · exact not_fixes (retire_chunks stored) fixes
  case delete =>
    obtain ⟨_, _, sel, _, reply, after, deleted, _, rfl⟩ := dispatched
    rcases deleteBy_changes deleted with rfl | ⟨_, _, stored, _, rfl⟩
    · exact absurd fixes (not_fixes rfl)
    · exact not_fixes (retire_chunks stored) fixes
  case badReplica =>
    obtain ⟨_, _, sel, _, reply, after, marked, _, rfl⟩ := dispatched
    simp only [badReplicaBy, bind_eq_ok, found_eq_ok, require_eq_ok, pure_eq_ok,
      Prod.mk.injEq] at marked
    obtain ⟨_, _, _, _, _, _, _, _, _, rfl⟩ := marked
    exact not_fixes (by rw [enqueue_eq]; rfl) fixes
  all_goals simp at dispatched

/-- The request asks to prepare a chunk of the upload. -/
inductive Prepares (db : Database) (upload : Ident) : Action → Prop where
  | request (c user seq sha ident) :
      Prepares db upload (.request c user (.prepare upload seq sha) ident)
  | requestBy (c e request ident cid chunk) (prepares : request.cmd = .prepare)
      (addressed : db.addressed e.toEngine request.fields = some (cid, chunk))
      (owned : chunk.upload = upload) : Prepares db upload (.requestBy c e request ident)

theorem checksum_prepared {history : List (Event State Action)} {σ : State}
    (run : Run metadata history σ) {cid : Ident} {chunk : ChunkRow} {sha : Sha}
    (stored : σ.db.chunks.get? cid = some chunk) (fixed : chunk.sha = some sha) :
    ∃ event ∈ history, Fixes event.before.db event.after.db cid sha ∧
      Prepares event.before.db chunk.upload event.action := by
  induction run generalizing chunk with
  | start => simp [metadata, State.initial, Database.empty] at stored
  | @next history before action after earlier stepped inductionHypothesis =>
      obtain ⟨focus, focuses, drawn, _, effect⟩ := reachable_effect earlier.reachable stepped
      by_cases known : ∃ old, before.db.chunks.get? cid = some old ∧ old.sha = some sha
      · obtain ⟨old, present, same⟩ := known
        obtain ⟨new, later, kept, _⟩ := effect.steps.grown.chunks cid old present
        obtain rfl := Option.some.inj (stored.symm.trans later)
        obtain ⟨event, listed, prepared⟩ := inductionHypothesis present same
        rw [kept.upload]
        exact ⟨event, List.mem_cons_of_mem _ listed, prepared⟩
      obtain rfl := (effect.steps.checksum stored fixed).resolve_left known
      have fixes : ∀ old, before.db.chunks.get? cid = some old →
          Fixes before.db after.db cid sha ∧ chunk.upload = old.upload := by
        intro old present
        obtain ⟨new, later, kept, _⟩ := effect.steps.grown.chunks cid old present
        obtain rfl := Option.some.inj (stored.symm.trans later)
        refine ⟨⟨⟨old, present, ?_⟩, chunk, stored, fixed⟩, kept.upload⟩
        cases given : old.sha with
        | none => rfl
        | some other =>
            obtain rfl := Option.some.inj ((kept.sha other given).symm.trans fixed)
            exact absurd ⟨old, present, given⟩ known
      cases focuses with
      | request c owner command ident focus focused =>
          cases focused with
          | prepare upload seq sha cid old row object storedUpload found owned selected =>
              obtain ⟨present, part, place⟩ := Database.chunkAt_eq_some _ selected
              obtain ⟨fixes, kept⟩ := fixes old present
              exact ⟨_, List.mem_cons_self, fixes, (kept.trans part) ▸ .request c owner seq _ ident⟩
      | requestBy c e request ident focus move =>
          cases happens stepped with
          | requestBy _ _ _ _ fresh =>
              simp only at fixes ⊢
              generalize before.outcome
                (before.db.dispatchBy e.toEngine c before.now ident request) = result
                at move fixes ⊢
              cases move with
              | command command reply focus db' dispatched focused steps drawn other =>
                  cases focused
                  exact absurd rfl (other _ _ _)
              | prepare sel position sha cid old prepares selects sequence given chosen =>
                  obtain ⟨fixes, kept⟩ := fixes old (Database.chunksAtBy_stored chosen)
                  refine ⟨_, List.mem_cons_self, fixes,
                    .requestBy c e request ident cid old prepares ?_ kept.symm⟩
                  simp only [Database.addressed, selects, sequence, chosen, Except.toOption,
                    Option.bind_some]
          | confirm _ _ _ _ move => cases move
          | worker _ _ _ _ move => cases move
          | maintenance _ _ _ move => cases move

end FileServer.Metadata

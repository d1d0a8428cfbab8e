import FileServer.Metadata.Objects
import FileServer.Metadata.Repetitions

/-!
# Repeated requests

A successful request leaves a fact behind that no later step undoes, and the
fact is enough for a repetition of the request to change nothing.
-/

namespace FileServer.Metadata

open FileServer.Relational FileServer.Transition

inductive Command.Repeatable : Command → Prop where
  | prepare (upload seq sha) : Repeatable (.prepare upload seq sha)
  | complete (upload) : Repeatable (.complete upload)
  | cancel (upload) : Repeatable (.cancel upload)
  | delete (object) : Repeatable (.delete object)

/-- What a successful request leaves for good. -/
inductive Command.Done (db : Database) : Command → Prop where
  | prepare (upload seq sha cid chunk) (stored : db.chunks.get? cid = some chunk)
      (owned : chunk.upload = upload) (place : (chunk.seq : Int) = seq)
      (fixed : chunk.sha = some sha) : Done db (.prepare upload seq (some sha))
  | complete (upload row object) (stored : db.uploads.get? upload = some row)
      (located : db.objects.get? row.object = some object) (opened : object.state ≠ .staging) :
      Done db (.complete upload)
  | cancel (upload row object) (stored : db.uploads.get? upload = some row)
      (located : db.objects.get? row.object = some object) (deleted : object.state = .deleted) :
      Done db (.cancel upload)
  | delete (oid object) (located : db.objects.get? oid = some object)
      (deleted : object.state = .deleted) : Done db (.delete oid)

section Commands

variable {db db' : Database} {drawn : List Ident} {command : Command}

theorem Command.Done.grown (done : command.Done db) (grown : Grown drawn db db') :
    command.Done db' := by
  cases done with
  | prepare upload seq sha cid chunk stored owned place fixed =>
      obtain ⟨chunk', stored', kept, _⟩ := grown.chunks cid chunk stored
      exact .prepare upload seq sha cid chunk' stored' (kept.upload.trans owned)
        (by rw [kept.seq, place]) (kept.sha sha fixed)
  | complete upload row object stored located opened =>
      obtain ⟨row', stored', same⟩ := grown.uploads upload row stored
      obtain ⟨object', located', kept⟩ := grown.objects _ object located
      exact .complete upload row' object' stored' (same ▸ located') (kept.opened opened)
  | cancel upload row object stored located deleted =>
      obtain ⟨row', stored', same⟩ := grown.uploads upload row stored
      obtain ⟨object', located', kept⟩ := grown.objects _ object located
      exact .cancel upload row' object' stored' (same ▸ located')
        (Advances.deleted (deleted ▸ kept.advances))
  | delete oid object located deleted =>
      obtain ⟨object', located', kept⟩ := grown.objects _ object located
      exact .delete oid object' located' (Advances.deleted (deleted ▸ kept.advances))

namespace Database

variable {c : Config} {now : Time} {ident : Nat → Ident} {owner : String} {reply : Reply}

theorem prepare_done {upload : Ident} {seq : Int} {sha : Option Sha}
    (prepared : prepare c now db owner upload seq sha = .ok (reply, db')) :
    Command.Done db' (.prepare upload seq sha) := by
  obtain ⟨_, _, cid, chunk, fixed, _, _, _, _, _, _, _, rfl, selected, _, rfl, _⟩ :=
    prepare_ok prepared
  obtain ⟨stored, owned, place⟩ := db.chunkAt_eq_some selected
  refine .prepare upload seq fixed cid { chunk with sha := some fixed } ?_ owned place rfl
  rw [Table.get?_modify_self, stored, Option.map_some]

theorem complete_done (consistent : Consistent db) {upload : Ident}
    (completed : complete now db owner upload = .ok (reply, db')) :
    Command.Done db' (.complete upload) := by
  obtain ⟨row, object, stored, located, _, _, outcome⟩ := complete_ok completed
  rcases outcome with ⟨_, published, rfl⟩ | ⟨opened, _, _, _, rfl⟩
  · exact .complete upload row object stored located (by simp [published])
  · have staging := (consistent.linked.paired upload row object stored located).uploading_iff.mp opened
    refine .complete upload { row with state := .completed } { object with state := .published }
      ?_ ?_ (by simp)
    · simp [publish, Table.get?_modify_self, stored, opened]
    · simp [publish, Table.get?_modify_self, located, staging]

theorem cancel_done (consistent : Consistent db) {upload : Ident}
    (cancelled : cancel c now db owner upload = .ok (reply, db')) :
    Command.Done db' (.cancel upload) := by
  simp only [cancel, bind_eq_ok, Prod.exists, active_ok] at cancelled
  obtain ⟨row, object, ⟨stored, located, _⟩, outcome⟩ := cancelled
  split at outcome
  · next already =>
      simp only [pure_eq_ok, Prod.mk.injEq] at outcome
      obtain ⟨_, rfl⟩ := outcome
      have paired := consistent.linked.paired upload row object stored located
      refine .cancel upload row object stored located ?_
      generalize row.state = state at already paired
      generalize object.state = phase at paired ⊢
      cases paired <;> simp_all
  · simp only [bind_eq_ok, require_eq_ok, pure_eq_ok, Prod.mk.injEq, exists_const] at outcome
    obtain ⟨_, rfl, rfl⟩ := outcome
    obtain ⟨_, retirement⟩ := retire_ok c now stored .cancelled
    obtain ⟨stored', located'⟩ := retirement.deleted located
    exact .cancel upload _ _ stored' located' rfl

theorem delete_done {oid : Ident}
    (deleted : delete c now db owner oid = .ok (reply, db')) :
    Command.Done db' (.delete oid) := by
  simp only [delete, bind_eq_ok, found_eq_ok, require_eq_ok, exists_const] at deleted
  obtain ⟨object, located, _, outcome⟩ := deleted
  split at outcome
  · next already =>
      simp only [pure_eq_ok, Prod.mk.injEq] at outcome
      obtain ⟨_, rfl⟩ := outcome
      exact .delete oid object located already
  · simp only [bind_eq_ok, found_eq_ok, pure_eq_ok, Prod.mk.injEq] at outcome
    obtain ⟨upload, selected, _, rfl⟩ := outcome
    obtain ⟨row, stored, rfl⟩ := db.uploadOf_eq_some selected
    obtain ⟨_, retirement⟩ := retire_ok c now stored .cancelled
    obtain ⟨_, located'⟩ := retirement.deleted located
    exact .delete row.object _ located' rfl

/-- A request that succeeds leaves its fact behind. -/
theorem dispatch_done (consistent : Consistent db) (repeatable : command.Repeatable)
    (dispatched : dispatch c now ident db owner command = .ok (reply, db')) :
    command.Done db' := by
  simp only [dispatch, bind_eq_ok] at dispatched
  obtain ⟨_, _, dispatched⟩ := dispatched
  cases repeatable with
  | prepare upload seq sha => exact prepare_done dispatched
  | complete upload => exact complete_done consistent dispatched
  | cancel upload => exact cancel_done consistent dispatched
  | delete oid => exact delete_done dispatched

/-- The fact keeps a repetition from changing anything. -/
theorem dispatch_again (consistent : Consistent db) (done : command.Done db)
    (dispatched : dispatch c now ident db owner command = .ok (reply, db')) : db' = db := by
  simp only [dispatch, bind_eq_ok] at dispatched
  obtain ⟨_, _, dispatched⟩ := dispatched
  cases done with
  | prepare upload seq sha cid chunk stored owned place fixed =>
      obtain ⟨_, _, other, chunk', _, _, _, _, _, _, _, _, same, selected, _, rfl, _⟩ :=
        prepare_ok dispatched
      obtain rfl := Option.some.inj same
      obtain ⟨stored', owned', place'⟩ := db.chunkAt_eq_some selected
      obtain rfl := consistent.shaped.seqUnique other cid chunk' chunk stored' stored
        (owned'.trans owned.symm) (Int.ofNat_inj.mp (place'.trans place.symm))
      have kept : db.chunks.modify other (fun row => { row with sha := some sha }) = db.chunks := by
        refine db.chunks.modify_eq_self fun row located => ?_
        obtain rfl := Option.some.inj (stored.symm.trans located)
        rw [← fixed]
      rw [kept]
  | complete upload row object stored located opened =>
      obtain ⟨row', object', stored', located', _, _, outcome⟩ := complete_ok dispatched
      obtain rfl := Option.some.inj (stored.symm.trans stored')
      obtain rfl := Option.some.inj (located.symm.trans located')
      rcases outcome with ⟨_, _, same⟩ | ⟨uploading, _⟩
      · exact same
      · exact absurd ((consistent.linked.paired upload row object stored located).uploading_iff.mp
          uploading) opened
  | cancel upload row object stored located deleted =>
      simp only [cancel, bind_eq_ok, Prod.exists, active_ok] at dispatched
      obtain ⟨row', _, ⟨stored', _⟩, outcome⟩ := dispatched
      obtain rfl := Option.some.inj (stored.symm.trans stored')
      have paired := consistent.linked.paired upload row object stored located
      have ended : row.state = .cancelled ∨ row.state = .expired := by
        generalize row.state = state at paired ⊢
        rw [deleted] at paired
        cases paired <;> simp
      rw [if_pos ended, pure_eq_ok, Prod.mk.injEq] at outcome
      exact outcome.2.symm
  | delete oid object located deleted =>
      simp only [delete, bind_eq_ok, found_eq_ok, require_eq_ok, exists_const] at dispatched
      obtain ⟨object', located', _, outcome⟩ := dispatched
      obtain rfl := Option.some.inj (located.symm.trans located')
      rw [if_pos deleted, pure_eq_ok, Prod.mk.injEq] at outcome
      exact outcome.2.symm

end Database

end Commands

section Confirms

variable {focus : Focus} {drawn : List Ident} {db db' : Database}

namespace Database

/-- No copy of the chunk is reserved while its object is uploaded. -/
def Unreserved (db : Database) (cid : Ident) : Prop :=
  db.phase cid = some .staging →
    ∀ nid row, db.replicas.get? (cid, nid) = some row → row.state ≠ .reserved

end Database

/-- The locations of a `confirm` are all those of its chunk. -/
def Confirming.Covers (op : Confirming) (db : Database) : Prop :=
  db.phase op.chunk = some .staging → ∀ nid row, db.replicas.get? (op.chunk, nid) = some row →
    nid ∈ op.positions.map Position.node

theorem Moves.stagingBefore (moves : Moves focus drawn db db') (consistent : Consistent db)
    {cid : Ident} (known : db.chunks.get? cid ≠ none) (staging : db'.phase cid = some .staging) :
    db.phase cid = some .staging := by
  rcases (moves.life.phase consistent.linked cid).staging staging with same | absent
  · exact same
  · exact absurd ((Database.phase_eq_none consistent.linked).mp absent) known

theorem Moves.unreserved (moves : Moves focus drawn db db') (consistent : Consistent db)
    {cid : Ident} (known : db.chunks.get? cid ≠ none) (unreserved : db.Unreserved cid) :
    db'.Unreserved cid := by
  intro staging nid row stored reserved
  have before := moves.stagingBefore consistent known staging
  have move := moves.rowOrigin stored
  generalize earlier : db.replicas.get? (cid, nid) = old at move
  cases move with
  | keep => exact unreserved before nid row earlier reserved
  | reserve _ volume free mounted alone phases =>
      rcases phases with published | ⟨_, absent⟩
      · rw [staging] at published
        cases published
      · rw [before] at absent
        cases absent
  | remount old volume owner oldReserved => exact unreserved before nid old earlier oldReserved
  | refund old => exact unreserved before nid old earlier reserved
  | verdict old volume state charged valid owner unverified judged =>
      rcases judged with ⟨_, rfl, _⟩ | ⟨rfl, _⟩ <;> simp at reserved
  | retire old => by_cases gone : old.state = .gone <;> simp [gone] at reserved
  | settle | mark | unverify | delete | vanish | discard => simp at reserved

theorem Steps.unreserved (steps : Steps focus drawn db db') (consistent : Consistent db)
    {cid : Ident} (known : db.chunks.get? cid ≠ none) (unreserved : db.Unreserved cid) :
    db'.Unreserved cid := by
  induction steps with
  | refl => exact unreserved
  | tail earlier moves inductionHypothesis =>
      obtain ⟨chunk, stored⟩ := Option.ne_none_iff_exists'.mp known
      obtain ⟨chunk', stored', _⟩ := (Steps.grown earlier).chunks cid chunk stored
      exact moves.unreserved (Steps.consistent earlier consistent) (by simp [stored'])
        inductionHypothesis

theorem Moves.covers (moves : Moves focus drawn db db') (consistent : Consistent db)
    {op : Confirming} (known : db.chunks.get? op.chunk ≠ none) (covers : op.Covers db) :
    op.Covers db' := by
  intro staging nid row stored
  have before := moves.stagingBefore consistent known staging
  have present : db.replicas.get? (op.chunk, nid) ≠ none := by
    intro absent
    rw [(moves.sameRows consistent (by simp [staging]) known nid).mpr absent] at stored
    cases stored
  obtain ⟨old, earlier⟩ := Option.ne_none_iff_exists'.mp present
  exact covers before nid old earlier

theorem Steps.covers (steps : Steps focus drawn db db') (consistent : Consistent db)
    {op : Confirming} (known : db.chunks.get? op.chunk ≠ none) (covers : op.Covers db) :
    op.Covers db' := by
  induction steps with
  | refl => exact covers
  | tail earlier moves inductionHypothesis =>
      obtain ⟨chunk, stored⟩ := Option.ne_none_iff_exists'.mp known
      obtain ⟨chunk', stored', _⟩ := (Steps.grown earlier).chunks _ chunk stored
      exact moves.covers (Steps.consistent earlier consistent) (by simp [stored'])
        inductionHypothesis

namespace Database

variable {c : Config} {now : Time}

theorem confirmBegin_covers (consistent : Consistent db) {upload : Ident} {owner : Option String}
    {seq : Int} {op : Confirming} (begun : db.confirmBegin c now upload owner seq = .ok op) :
    op.Covers db := by
  obtain ⟨row, object, cid, chunk, sha, stored, located, opened, selected, _, placed, counted,
    shape⟩ := confirmBegin_ok begun
  obtain ⟨present, owned, _⟩ := db.chunkAt_eq_some selected
  have staging := (consistent.linked.paired upload row object stored located).uploading_iff.mp opened
  have rows := consistent.replicated cid chunk row object present (owned ▸ stored) located staging
  have same : op.chunk = cid := by rw [shape]
  rw [Confirming.Covers, same]
  intro _ nid replica copy
  obtain ⟨_, nodes⟩ := positions_ok.mp placed
  have listed : op.positions.map Position.node = (db.writable cid).map Prod.fst := by
    rw [← nodes, List.map_map]
    rfl
  have distinct : ((db.writable cid).map Prod.fst).Nodup :=
    (db.copies_nodup cid).sublist (List.filter_sublist.map _)
  have inRows : (db.writable cid).map Prod.fst ⊆ (db.replicasOf cid).map Prod.fst := by
    intro other membership
    obtain ⟨⟨_, old, node⟩, listed, rfl⟩ := List.mem_map.mp membership
    exact List.mem_map_of_mem (db.mem_replicasOf.mpr (db.mem_writable.mp listed).1)
  have enough : ((db.replicasOf cid).map Prod.fst).length ≤
      ((db.writable cid).map Prod.fst).length := by
    rw [← listed, List.length_map, List.length_map, counted, rows]
  have all := (distinct.subperm inRows).perm_of_length_le enough
  rw [listed, all.mem_iff]
  exact List.mem_map_of_mem (db.mem_replicasOf.mpr copy)

theorem confirmLoop_settles {cid : Ident} {length : Nat} {positions : List Position}
    (executed : positions.foldlM (confirmReplica cid length) db = .ok db') {nid : NodeId}
    {row : ReplicaRow} (stored : db'.replicas.get? (cid, nid) = some row)
    (reserved : row.state = .reserved) : nid ∉ positions.map Position.node ∧
      ∃ old, db.replicas.get? (cid, nid) = some old ∧ old.state = .reserved := by
  induction positions generalizing db with
  | nil =>
      simp only [List.foldlM_nil, pure_eq_ok] at executed
      exact ⟨by simp, row, executed ▸ stored, reserved⟩
  | cons position rest inductionHypothesis =>
      simp only [List.foldlM_cons, bind_eq_ok] at executed
      obtain ⟨middle, body, later⟩ := executed
      obtain ⟨outside, old, between, oldReserved⟩ := inductionHypothesis later
      obtain ⟨replica, present, rfl⟩ := confirmReplica_ok body
      by_cases same : nid = position.node
      · subst same
        split at between
        · simp only [settle_eq, Table.get?_modify_self, present, Option.map_some,
            Option.some.injEq] at between
          simp [← between] at oldReserved
        · next unreserved =>
            obtain rfl := Option.some.inj (present.symm.trans between)
            exact absurd oldReserved unreserved
      · refine ⟨by simp [same, outside], old, ?_, oldReserved⟩
        split at between
        · simpa [settle_eq, Table.get?_modify, same] using between
        · exact between

theorem confirmLoop_idle {cid : Ident} {length : Nat} {positions : List Position}
    (executed : positions.foldlM (confirmReplica cid length) db = .ok db')
    (unreserved : ∀ nid row, db.replicas.get? (cid, nid) = some row → row.state ≠ .reserved) :
    db' = db := by
  refine foldlM_invariant (fun middle => middle = db) _ positions ?_ executed rfl
  rintro _ position next _ rfl body
  obtain ⟨replica, present, rfl⟩ := confirmReplica_ok body
  rw [if_neg (unreserved _ _ present)]

theorem confirmCommit_done (consistent : Consistent db) {op : Confirming} (covers : op.Covers db)
    {chunk : ChunkRow} (located : db.chunks.get? op.chunk = some chunk)
    (owned : chunk.upload = op.upload) {bytes : Nat}
    (committed : db.confirmCommit c now op = .ok (bytes, db')) : db'.Unreserved op.chunk ∧
      db'.chunks.get? op.chunk = some { chunk with state := .confirmed } := by
  obtain ⟨row, object, settled, stored, found, opened, _, _, _, executed, rfl⟩ :=
    confirmCommit_ok committed
  have staging : db.phase op.chunk = some .staging := by
    rw [← (consistent.linked.paired _ row object stored found).uploading_iff.mp opened]
    exact phase_of_object located (owned ▸ stored) found
  refine ⟨fun _ nid row present reserved => ?_, ?_⟩
  · obtain ⟨outside, old, before, _⟩ := confirmLoop_settles executed present reserved
    exact outside (covers staging nid old before)
  · rw [confirmLoop_chunks executed, Table.get?_modify_self, located, Option.map_some]

theorem confirmCommit_again (consistent : Consistent db) {op : Confirming} {chunk : ChunkRow}
    (located : db.chunks.get? op.chunk = some chunk) (owned : chunk.upload = op.upload)
    (confirmed : chunk.state = .confirmed) (unreserved : db.Unreserved op.chunk) {bytes : Nat}
    (committed : db.confirmCommit c now op = .ok (bytes, db')) : db' = db := by
  obtain ⟨row, object, settled, stored, found, opened, _, _, _, executed, rfl⟩ :=
    confirmCommit_ok committed
  have staging : db.phase op.chunk = some .staging := by
    rw [← (consistent.linked.paired _ row object stored found).uploading_iff.mp opened]
    exact phase_of_object located (owned ▸ stored) found
  obtain rfl := confirmLoop_idle executed (unreserved staging)
  have kept : settled.chunks.modify op.chunk (fun row => { row with state := .confirmed }) =
      settled.chunks := by
    refine settled.chunks.modify_eq_self fun row present => ?_
    obtain rfl := Option.some.inj (located.symm.trans present)
    rw [← confirmed]
  rw [kept]

end Database

end Confirms

/-- The `confirm` in the slot serves this request. -/
def Requested (i : Nat) (upload : Ident) (owner : Option String) (seq : Int) :
    List (Event State Action) → Prop :=
  Since (fun event => event.after.confirms i ≠ none)
    (fun event => ∃ c, event.action = .confirm i c upload owner seq ∧ event.after.confirms i ≠ none)
    fun _ => True

/-- The second transaction of the `confirm` in the slot succeeds. -/
def Confirms (i : Nat) (event : Event State Action) : Prop :=
  ∃ c op result, event.action = .confirmCommit i c ∧ event.before.confirms i = some op ∧
    op.left = [] ∧ event.before.db.confirmCommit c event.before.now op = .ok result

def Confirmed (upload : Ident) (owner : Option String) (seq : Int)
    (history : List (Event State Action)) : Prop :=
  ∃ i, Since (fun _ => True) (Confirms i) (Requested i upload owner seq) history

section Runs

variable {history : List (Event State Action)} {σ : State}

theorem reachable_covers (run : Run metadata history σ) (i : Nat) (op : Confirming)
    (present : σ.confirms i = some op) : op.Covers σ.db := by
  revert i op
  refine run.historyInvariant
    (fun _ σ => ∀ i op, σ.confirms i = some op → op.Covers σ.db) ?_ ?_
  · intro i op present
    simp [metadata, State.initial] at present
  intro _ σ action σ' earlier inductionHypothesis stepped i op present
  have invariant := reachable_invariant earlier.reachable
  rcases (happens stepped).confirms i with same | move
  · obtain ⟨_, _, _, _, effect⟩ := reachable_effect earlier.reachable stepped
    rw [same] at present
    obtain ⟨chunk, stored, _⟩ := (invariant.confirms i op present).chunk
    exact effect.steps.covers invariant.consistent (by simp [stored])
      (inductionHypothesis i op present)
  · rw [present] at move
    generalize σ'.db = db at move ⊢
    cases move with
    | begin c upload owner seq _ absent begun =>
        exact Database.confirmBegin_covers invariant.consistent begun
    | ask old before => exact inductionHypothesis i old before
    | stat old before => exact inductionHypothesis i old before

theorem requested_chunk (run : Run metadata history σ) {i : Nat} {upload : Ident}
    {owner : Option String} {seq : Int} (requested : Requested i upload owner seq history) :
    ∃ op chunk, σ.confirms i = some op ∧ op.upload = upload ∧
      σ.db.chunks.get? op.chunk = some chunk ∧ chunk.upload = upload ∧ (chunk.seq : Int) = seq := by
  induction run with
  | start => cases requested
  | @next history σ action σ' earlier stepped inductionHypothesis =>
      obtain ⟨_, _, _, _, effect⟩ := reachable_effect earlier.reachable stepped
      rcases requested with ⟨⟨c, begins, started⟩, _⟩ | ⟨continued, before⟩
      · simp only at begins started
        subst begins
        have taken : σ.step (.confirm i c upload owner seq) = some σ' := stepped
        simp only [State.step, State.confirmStep] at taken
        split at taken
        · next op absent begun =>
            cases taken
            obtain ⟨_, _, cid, chunk, _, _, _, _, selected, _, _, _, shape⟩ :=
              Database.confirmBegin_ok begun
            obtain ⟨stored, owned, place⟩ := σ.db.chunkAt_eq_some selected
            refine ⟨op, chunk, by simp, by rw [shape], ?_, owned, place⟩
            rw [shape]
            exact stored
        · next absent refused =>
            cases taken
            exact absurd absent started
        · cases taken
      · obtain ⟨op, chunk, present, named, stored, owned, place⟩ := inductionHypothesis before
        obtain ⟨chunk', stored', kept, _⟩ := effect.steps.grown.chunks _ chunk stored
        have facts : ∀ new : Confirming, new.chunk = op.chunk → new.upload = op.upload →
            σ'.confirms i = some new → ∃ op chunk, σ'.confirms i = some op ∧ op.upload = upload ∧
              σ'.db.chunks.get? op.chunk = some chunk ∧ chunk.upload = upload ∧
              (chunk.seq : Int) = seq :=
          fun new chunk upload present' => ⟨new, chunk', present', upload.trans named,
            chunk ▸ stored', kept.upload.trans owned, by rw [kept.seq, place]⟩
        rcases (happens stepped).confirms i with same | move
        · exact facts op rfl rfl (same.trans present)
        · simp only at continued
          generalize σ'.confirms i = new at move continued facts
          generalize σ'.db = db at move facts ⊢
          cases move with
          | begin _ _ _ _ _ absent => simp [present] at absent
          | refuse | commit | abort | drop => exact absurd rfl continued
          | ask old before' =>
              obtain rfl := Option.some.inj (present.symm.trans before')
              exact facts { op with asked := true } rfl rfl rfl
          | stat old before' =>
              obtain rfl := Option.some.inj (present.symm.trans before')
              exact facts { op with left := op.left.tail, asked := false } rfl rfl rfl

theorem confirmed_chunk (run : Run metadata history σ) {upload : Ident}
    {owner : Option String} {seq : Int} (confirmed : Confirmed upload owner seq history) :
    ∃ cid chunk, σ.db.chunks.get? cid = some chunk ∧ chunk.upload = upload ∧
      (chunk.seq : Int) = seq ∧ chunk.state = .confirmed ∧ σ.db.Unreserved cid := by
  obtain ⟨i, since⟩ := confirmed
  induction run with
  | start => cases since
  | @next history σ action σ' earlier stepped inductionHypothesis =>
      have invariant := reachable_invariant earlier.reachable
      obtain ⟨_, _, _, _, effect⟩ := reachable_effect earlier.reachable stepped
      rcases since with ⟨⟨c, op, ⟨bytes, db⟩, commits, present, finished, committed⟩, requested⟩ |
        ⟨_, before⟩
      · simp only at commits present committed
        subst commits
        obtain ⟨op', chunk, present', named, stored, owned, place⟩ :=
          requested_chunk earlier requested
        obtain rfl := Option.some.inj (present.symm.trans present')
        have taken : σ.step (.confirmCommit i c) = some σ' := stepped
        simp only [State.step, State.confirmStep, present, finished, if_true, committed,
          State.outcome, Option.some.injEq] at taken
        subst taken
        obtain ⟨unreserved, after⟩ := Database.confirmCommit_done invariant.consistent
          (reachable_covers earlier i op present) stored (owned.trans named.symm) committed
        exact ⟨op.chunk, _, after, owned, place, rfl, unreserved⟩
      · obtain ⟨cid, chunk, stored, owned, place, state, unreserved⟩ := inductionHypothesis before
        obtain ⟨chunk', stored', kept, _⟩ := effect.steps.grown.chunks cid chunk stored
        exact ⟨cid, chunk', stored', kept.upload.trans owned, by rw [kept.seq, place],
          kept.confirmed state,
          effect.steps.unreserved invariant.consistent (by simp [stored]) unreserved⟩

theorem command_done (run : Run metadata history σ) {event : Event State Action}
    (membership : event ∈ history) {c : Config} {owner : String} {command : Command}
    {ident : Nat → Ident} {result : Reply × Database} (repeatable : command.Repeatable)
    (requests : event.action = .request c owner command ident)
    (succeeded : event.before.db.dispatch c event.before.now ident owner command = .ok result) :
    command.Done σ.db := by
  obtain ⟨reached, stepped⟩ := run.event membership
  have done := Database.dispatch_done (reachable_invariant reached).consistent repeatable succeeded
  obtain ⟨before, action, after⟩ := event
  simp only at requests
  subst requests
  have taken : before.step (.request c owner command ident) = some after := stepped
  simp only [State.step] at taken
  split at taken
  · cases taken
    obtain ⟨_, grown⟩ := visited_grown run (run.visitedAfter membership)
    simp only [State.issue, State.outcome, succeeded] at grown
    exact done.grown grown
  · cases taken

theorem request_settled (run : Run metadata history σ) {event : Event State Action}
    (membership : event ∈ history) {c : Config} {e : StrictEngine} {request : Internal}
    {ident : Nat → Ident} {result : Response × Database} (repeatable : request.cmd.Repeatable)
    (requests : event.action = .requestBy c e request ident)
    (succeeded : event.before.db.dispatchBy e.toEngine c event.before.now ident request =
      .ok result) :
    ∃ id, event.before.db.settles e.toEngine request = some id ∧ σ.db.Settled request.cmd id := by
  obtain ⟨reached, stepped⟩ := run.event membership
  obtain ⟨id, settles, settled⟩ :=
    Database.dispatchBy_settled (reachable_invariant reached).consistent repeatable succeeded
  refine ⟨id, settles, ?_⟩
  obtain ⟨before, action, after⟩ := event
  simp only at requests
  subst requests
  have taken : before.step (.requestBy c e request ident) = some after := stepped
  simp only [State.step] at taken
  split at taken
  · cases taken
    obtain ⟨_, grown⟩ := visited_grown run (run.visitedAfter membership)
    simp only [State.issue, State.outcome, succeeded] at grown
    exact settled.grown grown
  · cases taken

theorem ident_steady (run : Run metadata history σ) {event : Event State Action}
    (membership : event ∈ history) {c : Config} {e : StrictEngine} {request : Internal}
    {ident : Nat → Ident} {result : Response × Database} (repeatable : request.cmd.Repeatable)
    (requests : event.action = .requestBy c e request ident)
    (succeeded : event.before.db.dispatchBy e.toEngine c event.before.now ident request =
      .ok result) {id : Ident}
    (uploads : request.cmd ≠ .delete → request.fields.uploadId = some (.ident id))
    (objects : request.cmd = .delete → request.fields.objectId = some (.ident id)) (e' : Engine) :
    ¬σ.db.Strays e' σ.now request (event.before.db.settles e.toEngine request) := by
  obtain ⟨settled, settles, _⟩ := request_settled run membership repeatable requests succeeded
  obtain ⟨_, grown⟩ := visited_grown run (.inr ⟨event, membership, rfl⟩)
  rw [settles]
  exact Database.not_strays_of_ident (reachable_invariant run.reachable).consistent grown uploads
    objects settles

/-- A request that has succeeded changes nothing when it is repeated, unless its
key finds another row by then. -/
theorem requests_replay (run : Run metadata history σ) :
    (∀ event ∈ history, ∀ c owner command ident result, Command.Repeatable command →
      event.action = .request c owner command ident →
      event.before.db.dispatch c event.before.now ident owner command = .ok result →
      ∀ c' ident' σ', metadata.step σ (.request c' owner command ident') = some σ' →
        σ'.db = σ.db) ∧
    (∀ event ∈ history, ∀ c e request ident result, Cmd.Repeatable request.cmd →
      event.action = .requestBy c e request ident →
      event.before.db.dispatchBy e.toEngine c event.before.now ident request = .ok result →
      ∀ c' e' ident' σ', metadata.step σ (.requestBy c' e' request ident') = some σ' →
        ¬σ.db.Strays e'.toEngine σ.now request (event.before.db.settles e.toEngine request) →
        σ'.db = σ.db) ∧
    ∀ upload owner seq, Confirmed upload owner seq history → ∀ i,
      (∀ c σ', metadata.step σ (.confirm i c upload owner seq) = some σ' → σ'.db = σ.db) ∧
      (Requested i upload owner seq history → ∀ c σ',
        metadata.step σ (.confirmCommit i c) = some σ' → σ'.db = σ.db) := by
  have consistent := (reachable_invariant run.reachable).consistent
  refine ⟨?_, ?_, fun upload owner seq confirmed i => ⟨?_, ?_⟩⟩
  · intro event membership c owner command ident result repeatable requests succeeded c' ident' σ'
      stepped
    have done := command_done run membership repeatable requests succeeded
    have taken : σ.step (.request c' owner command ident') = some σ' := stepped
    simp only [State.step] at taken
    split at taken
    · cases taken
      simp only [State.issue]
      cases again : σ.db.dispatch c' σ.now ident' owner command with
      | error failure => rfl
      | ok result => exact Database.dispatch_again consistent done again
    · cases taken
  · intro event membership c e request ident result repeatable requests succeeded c' e' ident' σ'
      stepped steady
    obtain ⟨id, settles, settled⟩ := request_settled run membership repeatable requests succeeded
    have taken : σ.step (.requestBy c' e' request ident') = some σ' := stepped
    simp only [State.step] at taken
    split at taken
    · cases taken
      simp only [State.issue]
      cases again : σ.db.dispatchBy e'.toEngine c' σ.now ident' request with
      | error failure => rfl
      | ok result =>
          refine Database.dispatchBy_again consistent repeatable (fun other same => ?_) steady again
          rw [settles, Option.mem_some_iff] at same
          exact same ▸ settled
    · cases taken
  · intro c σ' stepped
    have taken : σ.step (.confirm i c upload owner seq) = some σ' := stepped
    simp only [State.step, State.confirmStep] at taken
    split at taken
    · cases taken
      rfl
    · cases taken
      rfl
    · cases taken
  · intro requested c σ' stepped
    obtain ⟨op, chunk, present, named, stored, owned, place⟩ := requested_chunk run requested
    obtain ⟨cid, chunk', stored', owned', place', state, unreserved⟩ :=
      confirmed_chunk run confirmed
    obtain rfl := consistent.shaped.seqUnique cid op.chunk chunk' chunk stored' stored
      (owned'.trans owned.symm) (Int.ofNat_inj.mp (place'.trans place.symm))
    obtain rfl := Option.some.inj (stored.symm.trans stored')
    have taken : σ.step (.confirmCommit i c) = some σ' := stepped
    simp only [State.step, State.confirmStep, present] at taken
    split at taken
    · cases taken
      simp only
      cases again : σ.db.confirmCommit c σ.now op with
      | error failure => rfl
      | ok result =>
          exact Database.confirmCommit_again consistent stored (owned.trans named.symm) state
            unreserved again
    · cases taken

end Runs

section Samples

def deleteZero : Internal where
  owner := "owner"
  cmd := .delete
  fields := ⟨none, some (.int 0), none, none, none, none, none⟩
  chunk := none
  node := none

def deleteAction : Action := .requestBy installation .sorted deleteZero id

def publishedActions : List Action :=
  heartbeatActions 1 ++ heartbeatActions 2 ++ heartbeatActions 3 ++ publishActions laterObject

def laterPublished : State :=
  (metadata.execute metadata.initial publishedActions).get (by decide +kernel)

def laterDeleted : State := (metadata.step laterPublished deleteAction).get (by decide +kernel)

theorem laterDeleted_run : Run metadata (⟨laterPublished, deleteAction, laterDeleted⟩ ::
    metadata.events metadata.initial publishedActions) laterDeleted :=
  .next (metadata.run publishedActions _) (Option.some_get _).symm

theorem deleteZero_succeeds : ∃ result, laterPublished.db.dispatchBy StrictEngine.sorted.toEngine
    installation laterPublished.now id deleteZero = .ok result :=
  toOption_isSome.mp (by decide +kernel)

/-- Another object is published, whose identifier does not equal zero. -/
def otherPublished : State :=
  (metadata.execute laterDeleted (publishActions 1000)).get (by decide +kernel)

theorem otherPublished_run : Run metadata (metadata.events laterDeleted (publishActions 1000) ++
    ⟨laterPublished, deleteAction, laterDeleted⟩ ::
      metadata.events metadata.initial publishedActions) otherPublished :=
  laterDeleted_run.execute _ (Option.some_get _).symm

/-- A younger object is published, whose identifier equals zero and sorts first. -/
def earlierPublished : State :=
  (metadata.execute laterDeleted (publishActions earlierObject)).get (by decide +kernel)

theorem earlierPublished_run : Run metadata
    (metadata.events laterDeleted (publishActions earlierObject) ++
      ⟨laterPublished, deleteAction, laterDeleted⟩ ::
        metadata.events metadata.initial publishedActions) earlierPublished :=
  laterDeleted_run.execute _ (Option.some_get _).symm

def otherReplayed : State := (metadata.step otherPublished deleteAction).get (by decide +kernel)

def earlierReplayed : State := (metadata.step earlierPublished deleteAction).get (by decide +kernel)

/-- The first object deleted under the number is found again. -/
theorem requests_replay_other : otherReplayed.db = otherPublished.db := by
  obtain ⟨result, succeeded⟩ := deleteZero_succeeds
  refine (requests_replay otherPublished_run).2.1 ⟨laterPublished, deleteAction, laterDeleted⟩
    (List.mem_append_right _ List.mem_cons_self) installation .sorted deleteZero id result .delete rfl
    succeeded installation .sorted id otherReplayed (Option.some_get _).symm ?_
  intro strays
  cases strays with
  | chunk _ _ _ _ _ prepares => cases prepares
  | upload _ _ _ _ ends => rcases ends with ends | ends <;> cases ends
  | object sel oid row deletes selects found other owned live =>
      cases selects
      have first : (otherPublished.db.objectsBy StrictEngine.sorted.toEngine
          (StrictEngine.sorted.equals 0)).head? =
            some (laterObject, ⟨"owner", "file", 1, 4, 2, .deleted⟩) := by decide +kernel
      cases first.symm.trans found
      exact live rfl

/-- A repeated request deletes a second object. -/
theorem requests_replay_younger :
    ¬∀ history σ, Run metadata history σ →
      ∀ event ∈ history, ∀ c e request ident result, Cmd.Repeatable request.cmd →
        event.action = .requestBy c e request ident →
        event.before.db.dispatchBy e.toEngine c event.before.now ident request = .ok result →
        ∀ σ', metadata.step σ (.requestBy c e request ident) = some σ' → σ'.db = σ.db := by
  intro replays
  obtain ⟨result, succeeded⟩ := deleteZero_succeeds
  have same : earlierReplayed.db = earlierPublished.db :=
    replays _ _ earlierPublished_run ⟨laterPublished, deleteAction, laterDeleted⟩
      (List.mem_append_right _ List.mem_cons_self) installation .sorted deleteZero id result .delete
      rfl succeeded earlierReplayed (Option.some_get _).symm
  have before : (earlierPublished.db.objects.get? earlierObject).map ObjectRow.state =
      some .published := by decide +kernel
  have after : (earlierReplayed.db.objects.get? earlierObject).map ObjectRow.state =
      some .deleted := by decide +kernel
  rw [same, before] at after
  cases after

end Samples

end FileServer.Metadata

import FileServer.Service.Paths
import FileServer.Service.Reading
import FileServer.Transition.Agreement

/-!
# The records and files of a user

What is done to the records and files of one user does not depend on those of
others.
-/

namespace FileServer.Service

open FileServer.Relational FileServer.Transition

/-- Two worlds with the same records and files of a user. -/
structure Agree (userId : Int) (world other : World) : Prop where
  collate : world.collate = other.collate
  rows : ∀ fileId info, info.userId = userId →
    (world.fileInfo.get? fileId = some info ↔ other.fileInfo.get? fileId = some info)
  files : ∀ fileId info, world.fileInfo.get? fileId = some info → info.userId = userId →
    world.files info.filepath = other.files info.filepath

def serveNext (call : Call) (state : List Outcome × World) :
    call.Answer × List Outcome × World :=
  let (answer, world) := serve (state.1.headD default) call state.2
  (answer, state.1.tail, world)

theorem execute_eq_perform {α : Type} (outcomes : List Outcome) (world : World)
    (program : Handler α) : execute outcomes world program =
      ((program.perform serveNext (outcomes, world)).1,
        (program.perform serveNext (outcomes, world)).2.2) := by
  induction program generalizing outcomes world with
  | done result => rfl
  | call call next inductionHypothesis => exact inductionHypothesis _ _ _

def Alike {Faults : Type} (userId : Int) (state other : Faults × World) : Prop :=
  state.1 = other.1 ∧ Agree userId state.2 other.2

def Has (userId fileId : Int) (filepath : Bytes) (world : World) : Prop :=
  ∃ info, world.fileInfo.get? fileId = some info ∧ info.userId = userId ∧ info.filepath = filepath

def nextId? (world : World) : Option Int :=
  if world.fileInfo.get? (world.lastInsertId + 1) = none then some (world.lastInsertId + 1)
  else none

def Concerns (fileId : Int) (filepath : Bytes) : Call → Prop
  | .findById id | .updateUploadSize id _ | .updateStatus id _ | .extendUpload id .. => id = fileId
  | .writeChunk path .. | .getFileSize path | .deleteFile path => path = filepath
  | .localtime | .createUserDir _ => True
  | .findIncompleteByKey .. | .insert _ => False

theorem maxOn?_eq_of_perm {Row : Type} {rows rows' : List Row} {key : Row → Int}
    (perm : rows.Perm rows')
    (distinct : ∀ row ∈ rows, ∀ row' ∈ rows, key row = key row' → row = row') :
    rows.maxOn? key = rows'.maxOn? key := by
  cases found : rows'.maxOn? key with
  | none =>
      have empty : rows' = [] := by
        by_contra nonempty
        have present := (@List.isSome_maxOn?_iff _ _ _ _ key _).mpr nonempty
        rw [found] at present
        cases present
      rw [empty] at perm
      rw [perm.eq_nil]
      rfl
  | some last =>
      have inLast := List.maxOn?_mem found
      have inRows := perm.mem_iff.mpr inLast
      have present := @List.isSome_maxOn?_of_mem _ _ _ _ key _ _ inRows
      obtain ⟨first, greatest⟩ := Option.isSome_iff_exists.mp present
      have inFirst := List.maxOn?_mem greatest
      have above := @List.le_apply_get_maxOn?_of_mem _ _ _ _ _ key _ _ inRows
      have below := @List.le_apply_get_maxOn?_of_mem _ _ _ _ _ key _ _ (perm.mem_iff.mp inFirst)
      simp only [greatest, found, Option.get_some] at above below
      rw [greatest, distinct first inFirst last inRows (le_antisymm below above)]

section Worlds

variable {userId fileId : Int} {world other : World} {filepath : Bytes} {info : FileInfo}

theorem Agree.found (agree : Agree userId world other)
    (found : world.fileInfo.get? fileId = some info) (owned : info.userId = userId) :
    other.fileInfo.get? fileId = some info :=
  (agree.rows fileId info owned).mp found

theorem Agree.symm (agree : Agree userId world other) : Agree userId other world where
  collate := agree.collate.symm
  rows fileId info owned := (agree.rows fileId info owned).symm
  files fileId info found owned :=
    (agree.files fileId info ((agree.rows fileId info owned).mpr found) owned).symm

/-- The files of a path, changed in the same way. -/
theorem Agree.setFile (agree : Agree userId world other) (content : Option Bytes) :
    Agree userId (world.setFile filepath content) (other.setFile filepath content) where
  collate := agree.collate
  rows := agree.rows
  files fileId info found owned := by
    rw [files_setFile, files_setFile, agree.files fileId info found owned]

/-- A record of the user, changed in the same way. -/
theorem Agree.modifyRow (agree : Agree userId world other) (has : Has userId fileId filepath world)
    {f : FileInfo → FileInfo} (path : ∀ info, (f info).filepath = info.filepath) :
    Agree userId (world.modifyRow fileId f) (other.modifyRow fileId f) := by
  obtain ⟨row, found, owned, _⟩ := has
  have found' := agree.found found owned
  refine ⟨agree.collate, ?_, ?_⟩
  · intro id info mine
    rw [get?_modifyRow, get?_modifyRow]
    split
    next same => rw [same, found, found']
    · exact agree.rows id info mine
  · intro id info changed mine
    rw [get?_modifyRow] at changed
    split at changed
    next same =>
      rw [same, found, Option.map_some, Option.some.injEq] at changed
      rw [← changed, path]
      exact agree.files fileId row found owned
    · exact agree.files id info changed mine

theorem Has.modifyRow (has : Has userId fileId filepath world) {f : FileInfo → FileInfo}
    (user : ∀ info, (f info).userId = info.userId)
    (path : ∀ info, (f info).filepath = info.filepath) :
    Has userId fileId filepath (world.modifyRow fileId f) := by
  obtain ⟨row, found, owned, rfl⟩ := has
  exact ⟨f row, get?_modifyRow_self found, (user row).trans owned, path row⟩

theorem writeChunk_alike (same : world.files filepath = other.files filepath) (outcome : Outcome)
    (data : Bytes) (offset : Int64) :
    (world.writeChunk outcome filepath data offset).1 =
        (other.writeChunk outcome filepath data offset).1 ∧
      ∃ content, (world.writeChunk outcome filepath data offset).2 =
          world.setFile filepath content ∧
        (other.writeChunk outcome filepath data offset).2 = other.setFile filepath content := by
  have opened : ∃ success content, world.openChunk outcome filepath =
        (success, world.setFile filepath content) ∧
      other.openChunk outcome filepath = (success, other.setFile filepath content) := by
    simp only [World.openChunk, ← same]
    split
    · exact ⟨true, _, by rw [setFile_self rfl], by rw [setFile_self same.symm]⟩
    · split
      · exact ⟨_, some [], rfl, by simp [files_setFile]⟩
      · refine ⟨_, _, by rw [setFile_self rfl], ?_⟩
        rw [setFile_self same.symm, same]
  obtain ⟨success, content, first, second⟩ := opened
  simp only [World.writeChunk, first, second, files_setFile, if_true, setFile_setFile]
  split
  · exact ⟨rfl, content, rfl, rfl⟩
  split
  · exact ⟨rfl, content, rfl, rfl⟩
  split
  · exact ⟨rfl, _, rfl, rfl⟩
  · exact ⟨rfl, _, rfl, rfl⟩

theorem Agree.rows_perm (agree : Agree userId world other) {keep : Int × FileInfo → Bool}
    (own : ∀ row, keep row = true → row.2.userId = userId) :
    (world.fileInfo.rows.filter keep).Perm (other.fileInfo.rows.filter keep) := by
  apply (List.perm_ext_iff_of_nodup (world.fileInfo.rows_nodup.filter _)
    (other.fileInfo.rows_nodup.filter _)).mpr
  rintro ⟨fileId, info⟩
  simp only [List.mem_filter, Table.mem_rows_iff]
  constructor
  · rintro ⟨found, kept⟩
    exact ⟨agree.found found (own _ kept), kept⟩
  · rintro ⟨found, kept⟩
    exact ⟨agree.symm.found found (own _ kept), kept⟩

theorem rows_inj {keep : Int × FileInfo → Bool} {row row' : Int × FileInfo}
    (listed : row ∈ world.fileInfo.rows.filter keep)
    (listed' : row' ∈ world.fileInfo.rows.filter keep) (same : row.1 = row'.1) : row = row' := by
  obtain ⟨id, info⟩ := row
  obtain ⟨id', info'⟩ := row'
  obtain rfl : id = id' := same
  have found := (Table.mem_rows_iff _).mp (List.mem_of_mem_filter listed)
  have found' := (Table.mem_rows_iff _).mp (List.mem_of_mem_filter listed')
  rw [Option.some.inj (found.symm.trans found')]

theorem Agree.byUser (agree : Agree userId world other) :
    world.byUser userId = other.byUser userId := by
  have perm := @Agree.rows_perm _ _ _ agree
    (fun row => row.2.userId = userId ∧ ¬row.2.isDeleted) fun row kept => (by simp_all)
  have sorted : ∀ rows : List (Int × FileInfo),
      (rows.mergeSort fun row other => other.1 ≤ row.1).Pairwise fun row other =>
        decide (other.1 ≤ row.1) = true :=
    fun rows => List.pairwise_mergeSort (fun _ _ _ first second => by simp_all; omega)
      (fun _ _ => by simp; omega) rows
  refine List.Perm.eq_of_pairwise ?_ (sorted _) (sorted _)
    (((List.mergeSort_perm _ _).trans perm).trans (List.mergeSort_perm _ _).symm)
  intro row row' listed listed' below above
  rw [World.byUser, List.mem_mergeSort] at listed listed'
  simp only [decide_eq_true_eq] at below above
  exact rows_inj listed (perm.mem_iff.mpr listed') (le_antisymm above below)

theorem Agree.incomplete (agree : Agree userId world other) (filename : Bytes) (filesize : Int64)
    (md5 : Bytes) : world.incomplete userId filename filesize md5 =
      other.incomplete userId filename filesize md5 := by
  have matches' : other.matchesKey userId filename filesize md5 =
      world.matchesKey userId filename filesize md5 := by
    funext info
    rw [World.matchesKey, World.matchesKey, agree.collate]
  rw [World.incomplete, World.incomplete, matches']
  have perm := @Agree.rows_perm _ _ _ agree
    (fun row => world.matchesKey userId filename filesize md5 row.2) fun row kept =>
      (by simp_all [World.matchesKey])
  apply maxOn?_eq_of_perm perm
  exact fun row listed row' listed' same => rows_inj listed listed' same

theorem serve_alike (agree : Agree userId world other) (has : Has userId fileId filepath world)
    (outcome : Outcome) {call : Call} (concerns : Concerns fileId filepath call) :
    (serve outcome call world).1 = (serve outcome call other).1 ∧
      Agree userId (serve outcome call world).2 (serve outcome call other).2 ∧
      Has userId fileId filepath (serve outcome call world).2 := by
  obtain ⟨row, found, owned, path⟩ := id has
  have found' := agree.found found owned
  have sameFile : world.files filepath = other.files filepath := by
    rw [← path]
    exact agree.files fileId row found owned
  have untouched : ∀ content, Has userId fileId filepath (world.setFile filepath content) :=
    fun _ => has
  cases call with
  | findById id =>
      obtain rfl : id = fileId := concerns
      simp only [serve, found, found']
      exact ⟨trivial, agree, has⟩
  | updateUploadSize id uploadSize =>
      obtain rfl : id = fileId := concerns
      simp only [serve]
      split
      · exact ⟨trivial, agree.modifyRow has fun _ => rfl, has.modifyRow (fun _ => rfl) fun _ => rfl⟩
      · exact ⟨trivial, agree, has⟩
  | updateStatus id status =>
      obtain rfl : id = fileId := concerns
      simp only [serve]
      split
      · exact ⟨trivial, agree.modifyRow has fun _ => rfl, has.modifyRow (fun _ => rfl) fun _ => rfl⟩
      · exact ⟨trivial, agree, has⟩
  | extendUpload id user offset finish =>
      obtain rfl : id = fileId := concerns
      have same : world.extends? id user offset finish = other.extends? id user offset finish := by
        rw [World.extends?, World.extends?, found, found']
      simp only [serve, same]
      split
      · exact ⟨trivial, agree.modifyRow has fun _ => rfl, has.modifyRow (fun _ => rfl) fun _ => rfl⟩
      · exact ⟨trivial, agree, has⟩
  | writeChunk path data offset =>
      obtain rfl : path = filepath := concerns
      obtain ⟨same, content, first, second⟩ := writeChunk_alike sameFile outcome data offset
      refine ⟨same, ?_, ?_⟩
      · simp only [serve, first, second]
        exact agree.setFile content
      · simp only [serve, first]
        exact untouched content
  | getFileSize path =>
      obtain rfl : path = filepath := concerns
      simp only [serve, sameFile]
      exact ⟨trivial, agree, has⟩
  | deleteFile path =>
      obtain rfl : path = filepath := concerns
      simp only [serve, sameFile]
      split
      · exact ⟨rfl, agree.setFile none, untouched none⟩
      · exact ⟨rfl, agree, has⟩
  | localtime | createUserDir => exact ⟨rfl, agree, has⟩
  | findIncompleteByKey | insert => cases concerns

end Worlds

section Programs

variable {α : Type} {userId fileId : Int}

theorem serveNext_alike {filepath : Bytes} (call : Call) (concerns : Concerns fileId filepath call)
    (state other : List Outcome × World)
    (related : Alike userId state other ∧ Has userId fileId filepath state.2) :
    (serveNext call state).1 = (serveNext call other).1 ∧
      Alike userId (serveNext call state).2 (serveNext call other).2 ∧
      Has userId fileId filepath (serveNext call state).2.2 := by
  obtain ⟨⟨sameOutcomes, agree⟩, has⟩ := related
  obtain ⟨same, agreeAfter, hasAfter⟩ :=
    serve_alike agree has (state.1.headD default) concerns
  rw [sameOutcomes] at same agreeAfter
  refine ⟨?_, ⟨?_, ?_⟩, hasAfter⟩
  · simp only [serveNext, sameOutcomes, same]
  · simp only [serveNext, sameOutcomes]
  · simp only [serveNext, sameOutcomes]
    exact agreeAfter

variable {world other : World} {outcomes : List Outcome}

theorem agrees_findById {next : Option FileInfo → Handler α} {refused : Except Failure α}
    (agree : Agree userId world other)
    (own : ∀ info, info.userId = userId → (next (some info)).Calls (Concerns fileId info.filepath))
    (absent : next none = .done refused)
    (foreign : ∀ info, info.userId ≠ userId → next (some info) = .done refused) :
    Program.Agrees serveNext (fun _ => Alike userId) (.call (.findById fileId) next)
      (outcomes, world) (outcomes, other) := by
  have refusal : ∀ found : Option FileInfo, (∀ info, found = some info → info.userId ≠ userId) →
      next found = .done refused := by
    rintro (_ | info) foreigner
    · exact absent
    · exact foreign info (foreigner info rfl)
  let found (world : World) : Option FileInfo :=
    if (outcomes.headD default).succeeds then world.fileInfo.get? fileId else none
  by_cases own' : ∃ info, found world = some info ∧ info.userId = userId
  · obtain ⟨info, read, owned⟩ := own'
    have present : (outcomes.headD default).succeeds = true ∧
        world.fileInfo.get? fileId = some info := by
      simpa [found] using read
    have read' : found other = some info := by
      simp only [found, present.1, if_true, agree.found present.2 owned]
    have related : Alike userId (outcomes.tail, world) (outcomes.tail, other) ∧
        Has userId fileId info.filepath world :=
      ⟨⟨rfl, agree⟩, info, present.2, owned, rfl⟩
    obtain ⟨result, last, last', ran, ran', alike, _⟩ :=
      Program.agrees_of_calls (own info owned) serveNext_alike related
    refine ⟨result, last, last', ?_, ?_, alike⟩
    · show (next (found world)).perform serveNext _ = _
      rw [read]
      exact ran
    · show (next (found other)).perform serveNext _ = _
      rw [read']
      exact ran'
  · have foreigner : ∀ info, found world = some info → info.userId ≠ userId :=
      fun info read owned => own' ⟨info, read, owned⟩
    have foreigner' : ∀ info, found other = some info → info.userId ≠ userId := by
      intro info read owned
      have present : (outcomes.headD default).succeeds = true ∧
          other.fileInfo.get? fileId = some info := by
        simpa [found] using read
      refine foreigner info ?_ owned
      simp only [found, present.1, if_true, agree.symm.found present.2 owned]
    refine ⟨refused, (outcomes.tail, world), (outcomes.tail, other), ?_, ?_, rfl, agree⟩
    · show (next (found world)).perform serveNext _ = _
      rw [refusal _ foreigner]
      rfl
    · show (next (found other)).perform serveNext _ = _
      rw [refusal _ foreigner']
      rfl

theorem Agree.insert (agree : Agree userId world other) (outcome : Outcome) {file : FileInfo}
    (same : outcome.succeeds = true ∨ outcome.applied = true →
      nextId? world = nextId? other ∧ world.files file.filepath = other.files file.filepath) :
    (serve outcome (.insert file) world).1 = (serve outcome (.insert file) other).1 ∧
      Agree userId (serve outcome (.insert file) world).2 (serve outcome (.insert file) other).2 := by
  have refused : ∀ before : World, nextId? before = none → before.insertRow file = none := by
    intro before taken
    by_contra present
    obtain ⟨⟨id, after⟩, inserted⟩ := Option.ne_none_iff_exists'.mp present
    obtain ⟨fresh, _⟩ := insertRow_eq_some.mp inserted
    rw [nextId?, if_pos fresh] at taken
    cases taken
  have accepted : ∀ before : World, ∀ id, nextId? before = some id →
      ∃ after, before.insertRow file = some (id, after) := by
    intro before id given
    rw [nextId?] at given
    split at given
    next fresh =>
      obtain rfl := Option.some.inj given
      exact ⟨_, insertRow_eq_some.mpr ⟨fresh, rfl, rfl⟩⟩
    · cases given
  have answered : ∀ before : World, ¬(outcome.succeeds = true ∨ outcome.applied = true) →
      serve outcome (.insert file) before = (-1, before) := by
    intro before idle
    simp only [serve]
    cases before.insertRow file with
    | none => rfl
    | some pair => simp_all
  by_cases takes : outcome.succeeds = true ∨ outcome.applied = true
  · obtain ⟨sameId, sameFile⟩ := same takes
    cases given : nextId? world with
    | none =>
        rw [given] at sameId
        simp only [serve, refused world given, refused other sameId.symm]
        exact ⟨trivial, agree⟩
    | some id =>
        rw [given] at sameId
        obtain ⟨after, inserted⟩ := accepted world id given
        obtain ⟨after', inserted'⟩ := accepted other id sameId.symm
        obtain ⟨rows, files⟩ := insertRow_rows inserted
        obtain ⟨rows', files'⟩ := insertRow_rows inserted'
        have agreeAfter : Agree userId after after' := by
          refine ⟨?_, ?_, ?_⟩
          · obtain ⟨_, _, rfl⟩ := insertRow_eq_some.mp inserted
            obtain ⟨_, _, rfl⟩ := insertRow_eq_some.mp inserted'
            exact agree.collate
          · intro fileId info mine
            rw [rows, rows']
            split
            · rfl
            · exact agree.rows fileId info mine
          · intro fileId info found mine
            rw [rows] at found
            rw [files, files']
            split at found
            · obtain rfl := Option.some.inj found
              exact sameFile
            · exact agree.files fileId info found mine
        simp only [serve, inserted, inserted']
        split
        · exact ⟨rfl, agreeAfter⟩
        next failed =>
          rw [if_pos (takes.resolve_left failed), if_pos (takes.resolve_left failed)]
          exact ⟨rfl, agreeAfter⟩
  · rw [answered world takes, answered other takes]
    exact ⟨rfl, agree⟩

theorem agrees_uploadStart (agree : Agree userId world other) {filename : Bytes} {filesize : Int64}
    {md5 : Bytes} (same : Inserts world userId filename filesize md5 outcomes →
      nextId? world = nextId? other ∧
        world.files (newRow userId filename filesize md5 outcomes).filepath =
          other.files (newRow userId filename filesize md5 outcomes).filepath) :
    Program.Agrees serveNext (fun _ => Alike userId)
      (FileService.uploadStart userId filename filesize md5) (outcomes, world) (outcomes, other) := by
  unfold FileService.uploadStart
  split
  · exact Program.agrees_done ⟨rfl, agree⟩
  next accepted =>
  have searched := agree.incomplete (sanitizeFilename filename) filesize md5
  refine Program.agrees_call ?_ ?_
  · simp only [serveNext, serve, searched]
  generalize existing : (serveNext (.findIncompleteByKey userId (sanitizeFilename filename) filesize
    md5) (outcomes, world)).1 = row
  cases row with
  | some row => exact Program.agrees_done ⟨rfl, agree⟩
  | none =>
      have inserting : (fourth outcomes).succeeds = true ∨ (fourth outcomes).applied = true →
          Inserts world userId filename filesize md5 outcomes := by
        refine fun takes => ⟨accepted, ?_, takes⟩
        rintro ⟨succeeds, found⟩
        simp only [serveNext, serve, succeeds, if_true] at existing
        rw [existing] at found
        cases found
      obtain ⟨sameId, agreeAfter⟩ := @Agree.insert userId world other agree (fourth outcomes)
        (newRow userId filename filesize md5 outcomes) fun takes => same (inserting takes)
      refine Program.agrees_call rfl (Program.agrees_call rfl (Program.agrees_call sameId ?_))
      show Program.Agrees _ _ (if _ then _ else _) _ _
      split
      · exact Program.agrees_done ⟨rfl, agreeAfter⟩
      · exact Program.agrees_done ⟨rfl, agreeAfter⟩

end Programs

end FileServer.Service

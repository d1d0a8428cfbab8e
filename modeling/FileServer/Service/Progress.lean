import FileServer.Service.System

/-!
# Upload progress of the microservices

`upload_size` is a written prefix: a range is confirmed only after it has been
written, and confirmations extend the prefix.
-/

namespace FileServer.Service

open FileServer.Encoding FileServer.Relational FileServer.Sequence FileServer.Transition

abbrev ServiceScene := Scene Call Call.Answer World
abbrev Journal := List (Performed Call Call.Answer)

/-- A successful `WriteChunk` has written the position of the file. -/
def WrittenIn (journal : Journal) (filepath : Bytes) (position : Int) : Prop :=
  ∃ data offset written, ⟨.writeChunk filepath data offset, written⟩ ∈ journal ∧
    0 ≤ written.toInt ∧ offset.toInt ≤ position ∧ position < offset.toInt + data.length

/-- An `UPDATE` of `ConfirmUploadChunk` covers the position, which had been
written before. -/
def ConfirmedIn (journal : Journal) (fileId : Int) (filepath : Bytes) (position : Int) : Prop :=
  ∃ later userId offset finish affected earlier,
    journal = later ++ ⟨.extendUpload fileId userId offset finish, affected⟩ :: earlier ∧
      offset.toInt ≤ position ∧ position < finish.toInt ∧ WrittenIn earlier filepath position

theorem WrittenIn.append {journal : Journal} {filepath : Bytes} {position : Int}
    (written : WrittenIn journal filepath position) (newer : Journal) :
    WrittenIn (newer ++ journal) filepath position := by
  obtain ⟨data, offset, count, membership, rest⟩ := written
  exact ⟨data, offset, count, List.mem_append_right _ membership, rest⟩

theorem ConfirmedIn.append {journal : Journal} {fileId : Int} {filepath : Bytes} {position : Int}
    (confirmed : ConfirmedIn journal fileId filepath position) (newer : Journal) :
    ConfirmedIn (newer ++ journal) fileId filepath position := by
  obtain ⟨later, userId, offset, finish, affected, earlier, rfl, rest⟩ := confirmed
  exact ⟨newer ++ later, userId, offset, finish, affected, earlier, by simp, rest⟩

/-- What becomes of a row. -/
structure Grown (info info' : FileInfo) : Prop where
  userId : info'.userId = info.userId
  filepath : info'.filepath = info.filepath
  filesize : info'.filesize = info.filesize
  uploadSize : info.uploadSize.toInt ≤ info'.uploadSize.toInt

theorem Grown.refl (info : FileInfo) : Grown info info := ⟨rfl, rfl, rfl, le_refl _⟩

theorem Grown.trans {first second third : FileInfo} (earlier : Grown first second)
    (later : Grown second third) : Grown first third :=
  ⟨later.userId.trans earlier.userId, later.filepath.trans earlier.filepath,
    later.filesize.trans earlier.filesize, earlier.uploadSize.trans later.uploadSize⟩

/-- The upload of a row is a written prefix of its file. -/
structure Prefix (journal : Journal) (fileId : Int) (info : FileInfo) : Prop where
  nonneg : 0 ≤ info.uploadSize.toInt
  bounded : info.uploadSize.toInt ≤ info.filesize.toInt
  confirmed : ∀ position, 0 ≤ position → position < info.uploadSize.toInt →
    ConfirmedIn journal fileId info.filepath position

/-- Before the status was set, the whole file had been written. -/
def CompletedAfter (scene : ServiceScene) (earlier : Journal) (fileId : Int) : Prop :=
  ∃ info, scene.world.fileInfo.get? fileId = some info ∧
    ∀ position, 0 ≤ position → position < info.filesize.toInt →
      WrittenIn earlier info.filepath position

def RangeWritten (scene : ServiceScene) (fileId : Int) (offset finish : Int) : Prop :=
  ∃ info, scene.world.fileInfo.get? fileId = some info ∧ 0 ≤ offset ∧ offset ≤ finish ∧
    ∀ position, offset ≤ position → position < finish →
      WrittenIn scene.journal info.filepath position

def RangeValid (scene : ServiceScene) (fileId : Int) (filepath : Bytes) (offset size : Int64) :
    Prop :=
  ∃ info, scene.world.fileInfo.get? fileId = some info ∧ info.filepath = filepath ∧
    0 ≤ offset.toInt ∧ 0 < size.toInt ∧ offset.toInt + size.toInt ≤ info.filesize.toInt

structure Continues (scene later : ServiceScene) : Prop where
  journal : ∃ newer, later.journal = newer ++ scene.journal
  rows : ∀ fileId info, scene.world.fileInfo.get? fileId = some info →
    ∃ info', later.world.fileInfo.get? fileId = some info' ∧ Grown info info'

def progress : Discipline Request Call Call.Answer World Failure Reply where
  Valid scene :=
    (∀ fileId info, scene.world.fileInfo.get? fileId = some info →
      Prefix scene.journal fileId info) ∧
    ∀ later fileId ok earlier,
      scene.journal = later ++ ⟨.updateStatus fileId .kCompleted, ok⟩ :: earlier →
        CompletedAfter scene earlier fileId
  Later := Continues
  Allowed _ call scene := match call with
    | .insert file => file.uploadSize = 0 ∧ 0 ≤ file.filesize.toInt
    | .updateUploadSize .. => False
    | .extendUpload fileId _ offset finish => RangeWritten scene fileId offset.toInt finish.toInt
    | .updateStatus fileId .kCompleted => ∃ info, scene.world.fileInfo.get? fileId = some info ∧
        info.uploadSize = info.filesize
    | _ => True
  Issued request scene := match request with
    | .uploadData .. | .uploadFinalize .. => False
    | .confirmUploadChunk fileId _ offset size =>
        RangeWritten scene fileId offset.toInt (offset.toInt + size.toInt)
    | _ => True
  Handled request result scene := match request, result with
    | _, .error .overflow => False
    | .prepareUploadChunk fileId _ offset size, .ok reply => reply.code = 0 →
        RangeValid scene fileId reply.filepath offset size
    | .writeChunk filepath _ offset size _, .ok reply => reply.code = 0 →
        ∀ position, offset.toInt ≤ position → position < offset.toInt + size.toInt →
          WrittenIn scene.journal filepath position
    | _, _ => True

theorem ConfirmedIn.writtenIn {journal : Journal} {fileId : Int} {filepath : Bytes}
    {position : Int} (confirmed : ConfirmedIn journal fileId filepath position) :
    WrittenIn journal filepath position := by
  obtain ⟨later, userId, offset, finish, affected, earlier, rfl, _, _, written⟩ := confirmed
  have appended := written.append (later ++ [⟨.extendUpload fileId userId offset finish, affected⟩])
  rwa [List.append_assoc] at appended

theorem Prefix.append {journal : Journal} {fileId : Int} {info : FileInfo}
    (written : Prefix journal fileId info) (newer : Journal) :
    Prefix (newer ++ journal) fileId info :=
  ⟨written.nonneg, written.bounded, fun position low high =>
    (written.confirmed position low high).append newer⟩

theorem CompletedAfter.continues {scene later : ServiceScene} {earlier : Journal} {fileId : Int}
    (completed : CompletedAfter scene earlier fileId) (continues : Continues scene later) :
    CompletedAfter later earlier fileId := by
  obtain ⟨info, found, written⟩ := completed
  obtain ⟨info', found', grown⟩ := continues.rows fileId info found
  refine ⟨info', found', ?_⟩
  rw [grown.filesize, grown.filepath]
  exact written

theorem RangeWritten.continues {scene later : ServiceScene} {fileId : Int} {offset finish : Int}
    (range : RangeWritten scene fileId offset finish) (continues : Continues scene later) :
    RangeWritten later fileId offset finish := by
  obtain ⟨info, found, nonneg, ordered, written⟩ := range
  obtain ⟨info', found', grown⟩ := continues.rows fileId info found
  obtain ⟨newer, journal⟩ := continues.journal
  refine ⟨info', found', nonneg, ordered, ?_⟩
  rw [grown.filepath, journal]
  exact fun position low high => (written position low high).append newer

theorem RangeValid.continues {scene later : ServiceScene} {fileId : Int} {filepath : Bytes}
    {offset size : Int64} (range : RangeValid scene fileId filepath offset size)
    (continues : Continues scene later) : RangeValid later fileId filepath offset size := by
  obtain ⟨info, found, path, rest⟩ := range
  obtain ⟨info', found', grown⟩ := continues.rows fileId info found
  refine ⟨info', found', grown.filepath.trans path, ?_⟩
  rwa [grown.filesize]

theorem Continues.refl (scene : ServiceScene) : Continues scene scene :=
  ⟨⟨[], rfl⟩, fun _ info found => ⟨info, found, .refl info⟩⟩

theorem Continues.trans {first second third : ServiceScene} (earlier : Continues first second)
    (later : Continues second third) : Continues first third := by
  obtain ⟨⟨newer, journal⟩, rows⟩ := earlier
  obtain ⟨⟨newer', journal'⟩, rows'⟩ := later
  refine ⟨⟨newer' ++ newer, by rw [journal', journal, List.append_assoc]⟩, ?_⟩
  intro fileId info found
  obtain ⟨info', found', grown⟩ := rows fileId info found
  obtain ⟨info'', found'', grown'⟩ := rows' fileId info' found'
  exact ⟨info'', found'', grown.trans grown'⟩

section Performed

variable {collate : Bytes → Bytes} {request : Request} {call : Call} {scene : ServiceScene}
  (valid : progress.Valid scene) (allowed : progress.Allowed request call scene)
include allowed

theorem continues_perform (outcome : Outcome) :
    Continues scene ((microservices collate).perform outcome call scene).2 := by
  refine ⟨⟨[_], rfl⟩, ?_⟩
  intro fileId info found
  have rewrites := serve_rewrites outcome call scene.world fileId
  rw [found] at rewrites
  show ∃ info', (serve outcome call scene.world).2.fileInfo.get? fileId = some info' ∧ _
  generalize (serve outcome call scene.world).2.fileInfo.get? fileId = row at rewrites ⊢
  cases rewrites with
  | keep => exact ⟨info, rfl, .refl info⟩
  | uploadSize => exact allowed.elim
  | extend _ finish =>
      obtain ⟨_, _, _, ordered, _⟩ := allowed
      exact ⟨_, rfl, rfl, rfl, rfl, ordered⟩
  | status => exact ⟨_, rfl, rfl, rfl, rfl, le_refl _⟩

include valid

theorem prefix_perform (outcome : Outcome) (fileId : Int) (info : FileInfo)
    (found : (serve outcome call scene.world).2.fileInfo.get? fileId = some info)
    (answer : call.Answer) : Prefix (⟨call, answer⟩ :: scene.journal) fileId info := by
  have rewrites := serve_rewrites outcome call scene.world fileId
  rw [found] at rewrites
  generalize before : scene.world.fileInfo.get? fileId = row at rewrites
  cases rewrites with
  | keep => exact (valid.1 fileId info before).append [_]
  | insert =>
      have zero : info.uploadSize.toInt = 0 := by
        rw [allowed.1]
        rfl
      exact ⟨zero.ge, zero.trans_le allowed.2, fun position low high => by omega⟩
  | uploadSize => exact allowed.elim
  | extend old finish uploading fits =>
      obtain ⟨row, same, _, ordered, written⟩ := allowed
      obtain rfl := Option.some.inj (before.symm.trans same)
      have earlier := valid.1 fileId old before
      refine ⟨earlier.nonneg.trans ordered, Int64.le_iff_toInt_le.mp fits, ?_⟩
      intro position low high
      by_cases confirmed : position < old.uploadSize.toInt
      · exact (earlier.confirmed position low confirmed).append [_]
      · have reached := Int.not_lt.mp confirmed
        exact ⟨[], old.userId, old.uploadSize, finish, answer, scene.journal, rfl, reached, high,
          written position reached high⟩
  | status old status =>
      have earlier := (valid.1 fileId old before).append [⟨.updateStatus fileId status, answer⟩]
      exact ⟨earlier.nonneg, earlier.bounded, earlier.confirmed⟩

theorem performed_progress (outcome : Outcome) :
    progress.Valid ((microservices collate).perform outcome call scene).2 ∧
      progress.Later scene ((microservices collate).perform outcome call scene).2 := by
  have continues : Continues scene ((microservices collate).perform outcome call scene).2 :=
    continues_perform allowed outcome
  refine ⟨⟨fun fileId info found => prefix_perform valid allowed outcome fileId info found _, ?_⟩,
    continues⟩
  intro later fileId ok earlier split
  cases later with
  | nil =>
      obtain ⟨entry, rfl⟩ := List.cons.inj split
      obtain ⟨rfl, _⟩ := Performed.mk.inj entry
      obtain ⟨info, found, complete⟩ := allowed
      have written := valid.1 fileId info found
      have completed : CompletedAfter scene scene.journal fileId := by
        refine ⟨info, found, ?_⟩
        rw [← complete]
        exact fun position low high => (written.confirmed position low high).writtenIn
      exact completed.continues continues
  | cons newest later =>
      obtain ⟨_, journal⟩ := List.cons.inj split
      exact (valid.2 later fileId ok earlier journal).continues continues

end Performed

theorem coherent_progress : progress.Coherent (microservices collate) where
  refl := Continues.refl
  trans _ _ _ := Continues.trans
  initially := by
    refine ⟨fun fileId info found => ?_, fun later fileId ok earlier split => ?_⟩
    · cases found
    · cases later <;> cases split
  performed request call outcome scene valid allowed := performed_progress valid allowed outcome
  stable request result scene later continues handled := by
    obtain ⟨newer, journal⟩ := continues.journal
    cases result with
    | error failure => exact handled
    | ok reply =>
        cases request with
        | prepareUploadChunk => exact fun accepted => (handled accepted).continues continues
        | writeChunk =>
            intro accepted position low high
            rw [journal]
            exact (handled accepted position low high).append newer
        | _ => trivial

/-- What a read row still says. -/
def Snapshot (scene : ServiceScene) (fileId : Int) (info : FileInfo) : Prop :=
  ∃ row, scene.world.fileInfo.get? fileId = some row ∧ Grown info row

theorem Snapshot.continues {scene later : ServiceScene} {fileId : Int} {info : FileInfo}
    (snapshot : Snapshot scene fileId info) (continues : Continues scene later) :
    Snapshot later fileId info := by
  obtain ⟨row, found, grown⟩ := snapshot
  obtain ⟨row', found', grown'⟩ := continues.rows fileId row found
  exact ⟨row', found', grown.trans grown'⟩

section Rules

variable {α β : Type} {collate : Bytes → Bytes} {request : Request} {scene : ServiceScene}
  {post : Except Failure β → ServiceScene → Prop}

theorem assured_ask {call : Call} {next : call.Answer → Handler β}
    (allowed : ∀ later, Continues scene later → progress.Valid later →
      progress.Allowed request call later)
    (continued : ∀ later outcome, Continues scene later → progress.Valid later →
      Continues scene ((microservices collate).perform outcome call later).2 →
      progress.Assured (microservices collate) request
        (next ((microservices collate).perform outcome call later).1)
        post ((microservices collate).perform outcome call later).2) :
    progress.Assured (microservices collate) request (ask call >>= next) post scene :=
  coherent_progress.call allowed continued

theorem assured_findById {fileId : Int} {next : Option FileInfo → Handler β}
    (missing : ∀ later, Continues scene later →
      progress.Assured (microservices collate) request (next none) post later)
    (found : ∀ info later, Continues scene later → Snapshot later fileId info →
      progress.Assured (microservices collate) request (next (some info)) post later) :
    progress.Assured (microservices collate) request (ask (.findById fileId) >>= next) post scene := by
  refine assured_ask (fun _ _ _ => trivial) ?_
  intro later outcome _ _ continues
  show progress.Assured (microservices collate) request
    (next (if outcome.succeeds then later.world.fileInfo.get? fileId else none)) post _
  split
  · cases row : later.world.fileInfo.get? fileId with
    | none => exact missing _ continues
    | some info => exact found info _ continues ⟨info, row, .refl info⟩
  · exact missing _ continues

variable {fileId userId : Int} {offset size : Int64}

/-- The checks of `validate_chunk` evaluate without overflow. -/
theorem inRange_eq_ok (userId : Int) (offset size : Int64) (info : FileInfo) :
    ∃ valid, inRange userId offset size info = .ok valid ∧ (valid = true →
      0 ≤ offset.toInt ∧ 0 < size.toInt ∧
        offset.toInt + size.toInt ≤ info.filesize.toInt) := by
  have zero : (0 : Int64).toInt = 0 := rfl
  have top := info.filesize.toInt_lt
  unfold inRange
  split
  · exact ⟨false, rfl, by simp⟩
  split
  · exact ⟨false, rfl, by simp⟩
  split
  · exact ⟨false, rfl, by simp⟩
  next nonneg =>
  split
  · exact ⟨false, rfl, by simp⟩
  next positive =>
  split
  · exact ⟨false, rfl, by simp⟩
  next inFile =>
  rw [Int64.lt_iff_toInt_lt, zero] at nonneg
  rw [Int64.le_iff_toInt_le, zero] at positive
  rw [Int64.lt_iff_toInt_lt] at inFile
  have difference : sub info.filesize offset = .ok (info.filesize - offset) :=
    checkedSub_eq_ok (by omega) (by omega)
  simp only [difference, bind, Except.bind]
  split
  · exact ⟨false, rfl, by simp⟩
  next fits =>
  rw [Int64.lt_iff_toInt_lt, toInt_sub (by omega) (by omega)] at fits
  have valid : 0 ≤ offset.toInt ∧ 0 < size.toInt ∧
      offset.toInt + size.toInt ≤ info.filesize.toInt := by omega
  split
  · exact ⟨false, rfl, by simp⟩
  split
  · have sum : add offset size = .ok (offset + size) := checkedAdd_eq_ok (by omega) (by omega)
    simp only [sum]
    split
    · exact ⟨false, rfl, by simp⟩
    · exact ⟨true, rfl, fun _ => valid⟩
  · exact ⟨true, rfl, fun _ => valid⟩

theorem assured_validateChunk {next : Option FileInfo → Handler β}
    (invalid : ∀ later, Continues scene later →
      progress.Assured (microservices collate) request (next none) post later)
    (valid : ∀ info later, Continues scene later → Snapshot later fileId info →
      0 ≤ offset.toInt → 0 < size.toInt →
      offset.toInt + size.toInt ≤ info.filesize.toInt →
      progress.Assured (microservices collate) request (next (some info)) post later) :
    progress.Assured (microservices collate) request
      (validateChunk fileId userId offset size >>= next) post scene := by
  refine Discipline.assured_bind.mpr ?_
  unfold validateChunk
  refine assured_findById invalid ?_
  intro info later continues snapshot
  obtain ⟨verdict, evaluated, inFile⟩ := inRange_eq_ok userId offset size info
  simp only [evaluated]
  refine Discipline.assured_lift_bind.mpr ?_
  show progress.Assured (microservices collate) request
    (next (if verdict = true then some info else none)) post later
  cases verdict with
  | false => exact invalid later continues
  | true =>
      obtain ⟨nonneg, positive, fits⟩ := inFile rfl
      exact valid info later continues snapshot nonneg positive fits

end Rules

section Handlers

variable {scene : ServiceScene}

theorem assured_uploadStart (userId : Int) (filename : Bytes) (filesize : Int64) (md5 : Bytes) :
    progress.Assured (microservices collate) (.uploadStart userId filename filesize md5)
      (handler (.uploadStart userId filename filesize md5))
      (progress.Handled (.uploadStart userId filename filesize md5)) scene := by
  refine Discipline.assured_bind.mpr ?_
  unfold FileService.uploadStart
  split
  · trivial
  next accepted =>
  have positive : 0 ≤ filesize.toInt := by
    by_contra negative
    exact accepted (.inr (Int64.le_iff_toInt_le.mpr (Int.le_of_lt (Int.not_le.mp negative))))
  refine assured_ask (fun _ _ _ => trivial) fun later outcome _ _ _ => ?_
  split
  · trivial
  refine assured_ask (fun _ _ _ => trivial) fun later outcome _ _ _ => ?_
  refine assured_ask (fun _ _ _ => trivial) fun later outcome _ _ _ => ?_
  refine assured_ask (fun _ _ _ => ⟨rfl, positive⟩) fun later outcome _ _ _ => ?_
  split <;> trivial

theorem assured_delete (fileId userId : Int) :
    progress.Assured (microservices collate) (.delete fileId userId) (handler (.delete fileId userId))
      (progress.Handled (.delete fileId userId)) scene := by
  refine Discipline.assured_bind.mpr ?_
  refine assured_findById (fun _ _ => trivial) fun info later _ _ => ?_
  show progress.Assured _ _ (if _ then _ else _) _ _
  split
  · trivial
  refine assured_ask (fun _ _ _ => trivial) fun later outcome _ _ _ => ?_
  refine assured_ask (fun _ _ _ => trivial) fun later outcome _ _ _ => ?_
  trivial

theorem assured_prepareUploadChunk (fileId userId : Int) (offset size : Int64) :
    progress.Assured (microservices collate) (.prepareUploadChunk fileId userId offset size)
      (prepareUploadChunk fileId userId offset size)
      (progress.Handled (.prepareUploadChunk fileId userId offset size)) scene := by
  refine assured_validateChunk (fun later _ => ?_) fun info later _ snapshot nonneg positive fits => ?_
  · intro accepted
    cases accepted
  · intro _
    obtain ⟨row, found, grown⟩ := snapshot
    exact ⟨row, found, grown.filepath, nonneg, positive, grown.filesize ▸ fits⟩

theorem assured_finalizeUpload (fileId userId : Int) :
    progress.Assured (microservices collate) (.finalizeUpload fileId userId)
      (finalizeUpload fileId userId) (progress.Handled (.finalizeUpload fileId userId)) scene := by
  refine assured_findById (fun _ _ => trivial) fun info later _ snapshot => ?_
  show progress.Assured _ _ (if _ then _ else _) _ _
  split
  · trivial
  split
  · trivial
  split
  · trivial
  next complete =>
  refine assured_ask (fun _ _ _ => trivial) fun later' outcome _ _ continues => ?_
  split
  · trivial
  refine assured_ask (fun final continues' valid => ?_) fun _ _ _ _ _ => trivial
  obtain ⟨row, found, grown⟩ := (snapshot.continues continues).continues continues'
  refine ⟨row, found, ?_⟩
  have bounded := (valid.1 fileId row found).bounded
  have reached := grown.uploadSize
  rw [not_not.mp complete, ← grown.filesize] at reached
  exact Int64.toInt.inj (le_antisymm bounded reached)

theorem assured_confirmUploadChunk (fileId userId : Int) (offset size : Int64)
    (issued : progress.Issued (.confirmUploadChunk fileId userId offset size) scene) :
    progress.Assured (microservices collate) (.confirmUploadChunk fileId userId offset size)
      (confirmUploadChunk fileId userId offset size)
      (progress.Handled (.confirmUploadChunk fileId userId offset size)) scene := by
  refine assured_validateChunk (fun _ _ => trivial) fun info later continues _ nonneg _ fits => ?_
  refine Discipline.assured_bind.mpr ?_
  have top := info.filesize.toInt_lt
  have sum : add offset size = .ok (offset + size) := checkedAdd_eq_ok (by omega) (by omega)
  have finish := toInt_add (x := offset) (y := size) (by omega) (by omega)
  unfold confirmChunk
  refine Discipline.assured_lift_bind.mpr ?_
  rw [sum]
  refine assured_ask (fun final continues' _ => ?_) fun final outcome _ _ _ => ?_
  · show RangeWritten final fileId offset.toInt (offset + size).toInt
    rw [finish]
    exact (RangeWritten.continues issued continues).continues continues'
  split
  · trivial
  split
  · exact assured_findById (fun _ _ => trivial) fun _ _ _ _ => trivial
  · refine assured_findById (fun _ _ => trivial) fun _ _ _ _ => ?_
    show progress.Assured (microservices collate) _ (if _ then _ else _) _ _
    split
    · trivial
    · exact assured_findById (fun _ _ => trivial) fun _ _ _ _ => trivial

theorem assured_writeChunk (filepath : Bytes) (userId : Int) (offset size : Int64) (data : Bytes) :
    progress.Assured (microservices collate) (.writeChunk filepath userId offset size data)
      (writeChunk filepath userId offset size data)
      (progress.Handled (.writeChunk filepath userId offset size data)) scene := by
  unfold writeChunk
  split
  · intro accepted
    cases accepted
  next checked =>
  simp only [not_or, not_not] at checked
  refine assured_ask (fun _ _ _ => trivial) fun later outcome _ _ _ => ?_
  split
  · intro accepted
    cases accepted
  refine assured_ask (fun _ _ _ => trivial) fun later outcome _ _ _ => ?_
  intro accepted position low high
  have all : (serve outcome (.writeChunk filepath data offset) later.world).1 =
      .ofNat data.length := by
    by_contra part
    exact absurd (accepted.symm.trans (if_neg part)) (by decide)
  have sizes : size = .ofNat data.length := checked.2.2.2.1
  refine ⟨data, offset, _, List.mem_cons_self, ?_⟩
  rw [← sizes] at all
  show 0 ≤ Int64.toInt (serve outcome (.writeChunk filepath data offset) later.world).1 ∧ _
  rw [all]
  have written := writeChunk_written later.world outcome filepath data offset
  have answer : (later.world.writeChunk outcome filepath data offset).1 = size := all
  generalize later.world.writeChunk outcome filepath data offset = result at written answer
  have failed : ¬size.toInt = -1 := by omega
  cases written with
  | unopened | opened | part => exact absurd (congrArg Int64.toInt answer.symm) failed
  | whole start _ sought fits =>
      have length : size.toInt = data.length := by
        rw [sizes]
        exact Int64.toInt_ofNat_of_lt (by omega)
      omega

theorem handled_of_accepted {request : Request} {reply : Reply}
    (answered : (∃ timedOut, reply = (microservices collate).lost timedOut) ∨
      ∃ result, progress.Handled request result scene ∧ reply = (microservices collate).reply result)
    (accepted : ¬reply.code ≠ 0) : progress.Handled request (.ok reply) scene := by
  rcases answered with ⟨timedOut, rfl⟩ | ⟨result, handled, rfl⟩
  · refine absurd (show (if timedOut then (-3 : Int) else -1) ≠ 0 from ?_) accepted
    cases timedOut <;> decide
  · cases result with
    | error failure => exact absurd (show (-1 : Int) ≠ 0 by decide) accepted
    | ok reply => exact handled

theorem answered_uploadData (message : UploadData) :
    progress.Answered (microservices collate) (uploadData message) scene := by
  unfold uploadData
  split
  · trivial
  intro later _ _
  refine ⟨trivial, fun prepared answered => ?_⟩
  show progress.Answered (microservices collate) (if _ then _ else _) later
  split
  · trivial
  next accepted =>
  have range : RangeValid later message.fileId prepared.filepath message.offset
      (.ofNat message.data.length) := handled_of_accepted answered accepted (not_not.mp accepted)
  generalize Int64.ofNat message.data.length = size at range ⊢
  have sum : add message.offset size = .ok (message.offset + size) := by
    obtain ⟨info, _, _, nonneg, positive, fits⟩ := range
    have top := info.filesize.toInt_lt
    exact checkedAdd_eq_ok (by omega) (by omega)
  rw [sum]
  show progress.Answered (microservices collate) (if _ then _ else _) later
  split
  · trivial
  intro written' continues _
  refine ⟨trivial, fun written answered => ?_⟩
  show progress.Answered (microservices collate) (if _ then _ else _) written'
  split
  · trivial
  next complete =>
  rw [not_or] at complete
  have covered := handled_of_accepted answered complete.1 (not_not.mp complete.1)
  intro confirmed' continues' _
  refine ⟨?_, fun confirmed _ => ?_⟩
  · obtain ⟨info, found, path, nonneg, positive, _⟩ := range.continues continues
    rw [← path] at covered
    refine RangeWritten.continues ?_ continues'
    exact ⟨info, found, nonneg, by omega, covered⟩
  · show progress.Answered (microservices collate) (if _ then _ else _) confirmed'
    split <;> trivial

end Handlers
theorem kept_progress : progress.Kept (microservices collate) where
  toCoherent := coherent_progress
  direct request scene forwards _ := by
    cases request with
    | uploadData | uploadFinalize | confirmUploadChunk => cases forwards
    | _ => trivial
  handled request scene _ issued := by
    cases request with
    | uploadStart userId filename filesize md5 => exact assured_uploadStart userId filename filesize md5
    | uploadData | uploadFinalize => exact issued.elim
    | delete fileId userId => exact assured_delete fileId userId
    | prepareUploadChunk fileId userId offset size =>
        exact assured_prepareUploadChunk fileId userId offset size
    | confirmUploadChunk fileId userId offset size =>
        exact assured_confirmUploadChunk fileId userId offset size issued
    | finalizeUpload fileId userId => exact assured_finalizeUpload fileId userId
    | writeChunk filepath userId offset size data =>
        exact assured_writeChunk filepath userId offset size data
  ordered message scene _ := answered_uploadData message

/-- In every interleaving `upload_size` grows within the file over positions
that were written before they were confirmed, a file is completed only after
all of it was written, and no handler overflows. -/
theorem upload_progress {history : List (Event _ _)} {state}
    (run : Run (microservices collate).system history state) :
    (∀ earlier, Visited history state earlier → ∀ fileId info,
      earlier.scene.world.fileInfo.get? fileId = some info →
        ∃ info', state.scene.world.fileInfo.get? fileId = some info' ∧
          info'.filesize = info.filesize ∧ info.uploadSize ≤ info'.uploadSize) ∧
      (∀ fileId info, state.scene.world.fileInfo.get? fileId = some info →
        info.uploadSize ≤ info.filesize ∧
          ∀ position, 0 ≤ position → position < info.uploadSize.toInt →
            ConfirmedIn state.scene.journal fileId info.filepath position) ∧
      (∀ later fileId ok earlier,
        state.scene.journal = later ++ ⟨.updateStatus fileId .kCompleted, ok⟩ :: earlier →
          ∃ info, state.scene.world.fileInfo.get? fileId = some info ∧
            ∀ position, 0 ≤ position → position < info.filesize.toInt →
              WrittenIn earlier info.filepath position) ∧
      ∀ job ∈ state.jobs, job.rest ≠ .done (.error .overflow) := by
  have sound := Discipline.sound_of_run kept_progress run
  refine ⟨?_, ?_, sound.valid.2, ?_⟩
  · intro earlier seen fileId info found
    have continues : Continues earlier.scene state.scene :=
      Discipline.later_of_run kept_progress run seen
    obtain ⟨info', found', grown⟩ := continues.rows fileId info found
    exact ⟨info', found', grown.filesize, Int64.le_iff_toInt_le.mpr grown.uploadSize⟩
  · intro fileId info found
    have written := sound.valid.1 fileId info found
    exact ⟨Int64.le_iff_toInt_le.mpr written.bounded, written.confirmed⟩
  · intro job membership failed
    have assured := sound.jobs job membership
    rw [failed] at assured
    generalize job.request = request at assured
    cases request <;> exact assured

/-- A file of two bytes is uploaded and completed. -/
def sampleUpload : List (Move Request UploadData Outcome) :=
  [.request (.uploadStart 1 [97] 2 []), .advance 0 {}, .advance 0 {}, .advance 0 {}, .advance 0 {},
    .order ⟨1, 1, 0, [7, 8]⟩, .deliver 0, .advance 1 {}, .answer 0,
    .deliver 0, .advance 2 {}, .advance 2 {}, .answer 0,
    .deliver 0, .advance 3 {}, .advance 3 {}, .advance 3 {}, .answer 0,
    .request (.finalizeUpload 1 1), .advance 4 {}, .advance 4 {}, .advance 4 {}]

theorem sampleUpload_enabled :
    ((microservices id).system.execute (microservices id).system.initial sampleUpload).isSome := by
  decide +kernel

theorem upload_progress_sample :
    ((((microservices id).system.execute (microservices id).system.initial sampleUpload).get
        sampleUpload_enabled).scene.world.fileInfo.get? 1).map
        (fun info => (info.status, info.uploadSize)) = some (.kCompleted, 2) ∧
      ∀ job ∈ (((microservices id).system.execute (microservices id).system.initial sampleUpload).get
        sampleUpload_enabled).jobs, job.rest ≠ .done (.error .overflow) :=
  ⟨by decide +kernel,
    (upload_progress ((microservices id).system.run sampleUpload sampleUpload_enabled)).2.2.2⟩

end FileServer.Service

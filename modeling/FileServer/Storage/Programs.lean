import FileServer.Storage.Publication

/-!
# The programs of a storage process

The contracts of every command and of a start: what each of their calls does to
the chunk files, and what is answered.
-/

namespace FileServer.Storage

open FileServer.Files FileServer.Metadata FileServer.Relational FileServer.Transition

namespace Store

variable {store : Store} {taken : List (Process × Request)} {disk : Disk} {process : Process}
  {request : Request} {cid : Ident}

theorem check_eq {α : Type} (result : Attempt α) :
    check result = liftM (result.mapError Failure.refused) := rfl

theorem keeps_check_bind {α β : Type} {effect : Disk → Disk → Prop} {result : Attempt α}
    {next : α → Script β} {post : Except Failure β → Disk → Prop}
    (failed : ∀ error, result = .error error → post (.error (.refused error)) disk)
    (continued : ∀ value, result = .ok value → (next value).Keeps perform effect post disk) :
    (check result >>= next).Keeps perform effect post disk := by
  rw [check_eq, Program.keeps_lift_bind]
  cases result with
  | error error => exact failed error rfl
  | ok value => exact continued value rfl

theorem keeps_field_bind {α β : Type} {effect : Disk → Disk → Prop} {value : Option α}
    {next : α → Script β} {post : Except Failure β → Disk → Prop}
    (failed : value = none → post (.error .malformed) disk)
    (continued : ∀ found, value = some found → (next found).Keeps perform effect post disk) :
    ((liftM (field value) : Script α) >>= next).Keeps perform effect post disk := by
  rw [Program.keeps_lift_bind]
  cases value with
  | none => exact failed rfl
  | some found => exact continued found rfl

theorem genuine_of_verify {authorization : Authorization} {content : Bytes} {done : Unit}
    (verified : store.verify process request.now cid authorization = .ok done)
    (length : content.length = authorization.claims.length)
    (digest : store.digest content = authorization.claims.sha) :
    store.Genuine process request.now cid content authorization := by
  simp only [verify, bind_eq_ok, require_eq_ok] at verified
  obtain ⟨_, coded, _, unexpired, _, ⟨node, chunk, volume, inst⟩, _⟩ := verified
  exact ⟨coded.symm, unexpired, node, chunk, volume, inst, length.symm, digest.symm⟩

theorem Handled.refused (put : request.cmd = .put) (failure : Failure) :
    store.Handled request (.error failure) disk where
  stored _ _ _ _ succeeded := by cases succeeded
  read _ _ _ reads := by
    rw [put] at reads
    rcases reads with reads | reads
    · cases reads
    · cases reads

theorem Handled.held (put : request.cmd = .put) (chunk : request.chunkId = some (.ident cid))
    (held : Held cid (store.Same request.data) disk) (reply : Reply) :
    store.Handled request (.ok reply) disk where
  stored _ _ _ named _ := by
    rw [chunk] at named
    cases named
    exact held
  read _ _ _ reads := by
    rw [put] at reads
    rcases reads with reads | reads
    · cases reads
    · cases reads

theorem keeps_put (put : request.cmd = .put) (chunk : request.chunkId = some (.ident cid))
    (valid : store.Valid taken disk) (membership : (process, request) ∈ taken) :
    (store.put process request cid).Keeps perform
      (Allowed store taken request)
      (store.Handled request) disk := by
  refine keeps_field_bind (fun _ => .refused put _) fun authorization brought => ?_
  refine keeps_check_bind (fun _ _ => .refused put _) fun _ verified => ?_
  refine keeps_check_bind (fun _ _ => .refused put _) fun _ checked => ?_
  obtain ⟨sized, matched⟩ := require_eq_ok.mp checked
  have justified : store.Justified taken cid request.data :=
    ⟨_, membership, put, rfl, authorization, brought, genuine_of_verify verified sized matched⟩
  refine Program.keeps_bind.mpr (keeps_present (Handling.same valid) ?_)
  dsimp only [Setting.onResult]
  split
  next there =>
    obtain ⟨file, referred⟩ := Option.isSome_iff_exists.mp there
    obtain ⟨content, stored⟩ := valid.here.fixed _ file rfl referred
    have refers : Refers disk.inodes disk.names (.chunk cid) content := ⟨file, referred, stored⟩
    refine Program.keeps_bind.mpr (keeps_size (Handling.same valid) ?_)
    rw [refers.contentOf]
    refine keeps_check_bind (fun _ _ => .refused put _) fun _ _ => ?_
    refine Program.keeps_bind.mpr (keeps_read (Handling.same valid) ?_)
    rw [refers.contentOf]
    refine keeps_check_bind (fun _ _ => .refused put _) fun _ compared => ?_
    obtain ⟨length, digest⟩ := require_eq_ok.mp compared
    have same : store.Same request.data content := ⟨length, digest.trans matched.symm⟩
    have settled : ∀ content', disk.published cid = some content' →
        store.Same request.data content' := by
      intro content' found
      rw [Disk.published, refers.contentOf] at found
      exact Option.some.inj found ▸ same
    refine Program.keeps_bind.mpr (keeps_syncdir ⟨Handling.same valid, .refused put _⟩ ?_)
    exact ⟨Handling.of_keeping chunk settled valid.sync,
      .held put chunk (Everywhere.sync ⟨content, refers, same⟩) _⟩
  next missing =>
    have absent : disk.names.get? (.chunk cid) = none := by simpa using missing
    refine Program.keeps_bind.mpr (keeps_entries (Handling.same valid) ?_)
    refine keeps_check_bind (fun _ _ => .refused put _) fun _ room => ?_
    rw [Disk.sum_entries, require_eq_ok] at room
    refine Program.keeps_bind.mpr
      (keeps_mkstemp ⟨Handling.same valid, .refused put _⟩ fun serial free => ?_)
    have unpublished : ∀ content', disk.published cid = some content' →
        store.Same request.data content' := by
      intro content' found
      rw [published_of_absent absent] at found
      cases found
    refine ⟨Handling.of_keeping chunk unpublished (valid.create free rfl), ?_⟩
    have writing : Writing store taken request cid disk.inodes.length serial false [] _ :=
      .begin valid absent room free
    refine Program.keeps_bind.mpr (Program.keeps_bind.mpr ((keeps_fill chunk writing).mono ?_))
    intro result after filled
    cases result with
    | error failure => exact .refused put _
    | ok _ =>
        refine (keeps_expose put chunk justified filled).mono ?_
        intro result after exposed
        cases result with
        | error failure => exact .refused put _
        | ok _ => exact .held put chunk (exposed rfl) _

theorem Handled.reading (reads : request.cmd = .get ∨ request.cmd = .stat)
    (chunk : request.chunkId = some (.ident cid)) {result : Except Failure Reply}
    (answered : ∀ content length, disk.published cid = some content →
      request.length = some length → equalsNumber content.length length = true →
      request.sha256 = some (.digest (store.digest content)) →
      result = .ok (.content content.length (store.digest content)
        (if request.cmd = .get then content else []))) :
    store.Handled request result disk where
  stored _ _ put := by
    rcases reads with reads | reads
    · cases reads.symm.trans put
    · cases reads.symm.trans put
  read other content length _ named _ found sized matched described := by
    rw [chunk] at named
    cases named
    exact answered content length found sized matched described

theorem keeps_get (reads : request.cmd = .get ∨ request.cmd = .stat)
    (chunk : request.chunkId = some (.ident cid)) (valid : store.Valid taken disk) :
    (store.get request cid).Keeps perform
      (Allowed store taken request)
      (store.Handled request) disk := by
  refine Program.keeps_bind.mpr (keeps_present (Handling.same valid) ?_)
  refine keeps_check_bind (fun error absent => ?_) fun _ there => ?_
  · refine .reading reads chunk fun content length found => ?_
    obtain ⟨file, referred, _⟩ := valid.refers found
    simp [referred, require] at absent
  obtain ⟨file, referred⟩ := Option.isSome_iff_exists.mp (require_eq_ok.mp there)
  obtain ⟨content, stored⟩ := valid.here.fixed _ file rfl referred
  have refers : Refers disk.inodes disk.names (.chunk cid) content := ⟨file, referred, stored⟩
  have published : disk.published cid = some content := refers.contentOf
  have bounded := (valid.here.justified cid content refers).length_le
  refine Program.keeps_bind.mpr (keeps_size (Handling.same valid) ?_)
  rw [refers.contentOf]
  refine keeps_check_bind (fun error oversized => ?_) fun _ _ => ?_
  · simp only [require, if_pos bounded] at oversized
    cases oversized
  refine Program.keeps_bind.mpr (keeps_read (Handling.same valid) ?_)
  rw [refers.contentOf]
  refine keeps_field_bind (fun missing => ?_) fun length given => ?_
  · refine .reading reads chunk fun _ length _ sized => ?_
    cases missing.symm.trans sized
  refine keeps_check_bind (fun error different => ?_) fun _ matched => ?_
  · refine .reading reads chunk fun content' length' found sized same => ?_
    cases published.symm.trans found
    cases given.symm.trans sized
    rw [require, if_pos same] at different
    cases different
  refine keeps_field_bind (fun missing => ?_) fun sha256 described => ?_
  · refine .reading reads chunk fun _ _ _ _ _ digested => ?_
    cases missing.symm.trans digested
  refine keeps_check_bind (fun error different => ?_) fun _ digested => ?_
  · refine .reading reads chunk fun content' length' found _ _ same => ?_
    cases published.symm.trans found
    cases described.symm.trans same
    rw [require, if_pos rfl] at different
    cases different
  · refine .reading reads chunk fun content' length' found _ _ _ => ?_
    cases published.symm.trans found
    rfl

theorem keeps_remove (removes : request.cmd = .remove)
    (chunk : request.chunkId = some (.ident cid)) (valid : store.Valid taken disk) :
    (remove process request cid).Keeps perform
      (Allowed store taken request)
      (store.Handled request) disk := by
  have handled : ∀ result disk, store.Handled request result disk := by
    intro result disk
    refine ⟨fun _ _ put => ?_, fun _ _ _ reads => ?_⟩
    · cases removes.symm.trans put
    · rcases reads with reads | reads
      · cases removes.symm.trans reads
      · cases removes.symm.trans reads
  have allowed : ∀ {before after}, Keeping store taken (Removes request) before after →
      Allowed store taken request before after := fun keeping =>
    ⟨⟨keeping.retains, fun _ _ put => by cases removes.symm.trans put⟩, keeping.valid⟩
  have synced : ∀ disk, store.Valid taken disk →
      (syncdir >>= fun _ => (pure .removed : Script Reply)).Keeps perform
        (Allowed store taken request)
        (store.Handled request) disk := fun disk valid =>
    Program.keeps_bind.mpr (keeps_syncdir ⟨Handling.same valid, handled _ _⟩
      ⟨allowed valid.sync, handled _ _⟩)
  refine keeps_check_bind (fun _ _ => handled _ _) fun _ _ => ?_
  have unlinked : Keeping store taken (Removes request) disk (disk.unlink (.chunk cid)) := by
    refine valid.unlink fun other same => ?_
    cases same
    exact ⟨removes, chunk⟩
  exact Program.keeps_bind.mpr (keeps_unlinkAny ⟨Handling.same valid, handled _ _⟩
    (fun _ => synced _ valid) ⟨allowed unlinked, synced _ unlinked.valid⟩)

theorem keeps_dispatch (valid : store.Valid taken disk) (membership : (process, request) ∈ taken) :
    (store.dispatch process request).Keeps perform
      (Allowed store taken request)
      (store.Handled request) disk := by
  have refused : ∀ failure, (request.serviceKey.getD "" = store.secret →
      ∀ cid, request.chunkId ≠ some (.ident cid)) →
      store.Handled request (.error failure) disk := by
    intro failure unfit
    refine ⟨fun _ _ _ _ succeeded => ?_, fun cid _ _ _ named keyed => ?_⟩
    · cases succeeded
    · exact absurd named (unfit keyed cid)
  refine keeps_check_bind (fun error denied => refused _ fun keyed => ?_) fun _ _ => ?_
  · rw [require, if_pos keyed] at denied
    cases denied
  refine keeps_check_bind (fun error unnamed => refused _ fun _ cid named => ?_) fun cid named => ?_
  · rw [bind_ident?_eq_some.mpr named] at unnamed
    cases unnamed
  have chunk := bind_ident?_eq_some.mp (found_eq_ok.mp named)
  cases command : request.cmd with
  | put => exact keeps_put command chunk valid membership
  | get => exact keeps_get (.inl command) chunk valid
  | stat => exact keeps_get (.inr command) chunk valid
  | remove => exact keeps_remove command chunk valid
  | other =>
      refine ⟨fun _ _ put => ?_, fun _ _ _ reads => ?_⟩
      · cases command.symm.trans put
      · rcases reads with reads | reads
        · cases command.symm.trans reads
        · cases command.symm.trans reads

section Starting

variable {launch : Launch}

theorem keeps_identify (valid : store.Valid taken disk) :
    (store.identify launch).Keeps perform
      (Keeping store taken fun _ => False)
      (fun _ after => store.Valid taken after) disk := by
  refine Program.keeps_bind.mpr (keeps_present valid.same ?_)
  dsimp only [Setting.onResult]
  split
  · refine Program.keeps_bind.mpr (keeps_read valid.same ?_)
    cases contentOf disk.inodes disk.names .identity with
    | none => exact valid
    | some text =>
        refine keeps_field_bind (fun _ => valid) fun record _ => ?_
        split
        · exact valid
        · exact valid
  next missing =>
    have absent : disk.names.get? .identity = none := by simpa using missing
    have made : Keeping store taken (fun _ => False) disk (disk.create .identity) :=
      valid.create absent rfl
    refine Program.keeps_bind.mpr (keeps_create ⟨valid.same, valid⟩ fun _ => ⟨made, ?_⟩)
    have synced : ∀ disk, store.Valid taken disk →
        (syncdir >>= fun _ => (pure launch.volume : Script Ident)).Keeps perform
          (Keeping store taken fun _ => False)
          (fun _ after => store.Valid taken after) disk := fun disk valid =>
      Program.keeps_bind.mpr (keeps_syncdir ⟨valid.same, valid⟩
        ⟨valid.sync, Everywhere.sync valid.here⟩)
    refine Program.keeps_bind.mpr (Program.keeps_ensure.mpr (Program.keeps_bind.mpr ?_))
    have closed : ∀ (result : Except Failure Unit) disk file, store.Valid taken disk →
        (close file).Keeps perform
          (Keeping store taken fun _ => False)
          (Setting.onResult
            (fun _ => Setting.onResult
              (fun _ => (syncdir >>= fun _ => (pure launch.volume : Script Ident)).Keeps perform
                (Keeping store taken fun _ => False)
                fun _ after => store.Valid taken after)
              (fun _ after => store.Valid taken after) result)
            fun _ after => store.Valid taken after) disk := by
      intro result disk file valid
      apply keeps_close valid.same valid
      cases result with
      | error failure => exact valid
      | ok _ => exact synced disk valid
    refine (keeps_writeAll false (fun content after => store.Valid taken after ∧
      after.inodes[disk.inodes.length]? = some ⟨content, false⟩) ?_ ?_
      ⟨made.valid, List.getElem?_concat_length⟩ le_rfl).mono ?_
    · exact fun _ _ held => held.1.same
    · rintro content after part ⟨held, current⟩
      have appended : Keeping store taken (fun _ => False) after
          (after.append disk.inodes.length part) := held.append current part
      refine ⟨appended, appended.valid, ?_⟩
      show (after.inodes.modify _ _)[_]? = _
      rw [List.getElem?_modify_eq, current]
      rfl
    · intro result after written
      cases result with
      | error failure =>
          obtain ⟨_, held, _⟩ := written
          exact closed _ after _ held
      | ok _ =>
          have held : store.Valid taken after := written.1
          have flushed : Keeping store taken (fun _ => False) after
              (after.flush disk.inodes.length) := held.flush _
          dsimp only [Setting.onResult]
          exact keeps_fsync ⟨held.same, closed _ after _ held⟩
            ⟨flushed, closed _ _ _ flushed.valid⟩

theorem keeps_sweep {listed : List (Name × Nat)} (valid : store.Valid taken disk)
    (temporary : ∀ entry ∈ listed, entry.1.isTemporary = true)
    (covered : ∀ serial, disk.names.get? (.temporary serial) ≠ none →
      .temporary serial ∈ listed.map Prod.fst) :
    (Program.each (fun entry : Name × Nat => unlink entry.1) listed).Keeps perform
      (Keeping store taken fun _ => False)
      (Setting.onResult
        (fun _ after => store.Valid taken after ∧
          ∀ serial, after.names.get? (.temporary serial) = none)
        fun _ _ => True) disk := by
  apply Program.Keeps.each (fun rest after => store.Valid taken after ∧
    (∀ entry ∈ rest, entry.1.isTemporary = true) ∧
    ∀ serial, after.names.get? (.temporary serial) ≠ none →
      .temporary serial ∈ rest.map Prod.fst)
  · rintro entry rest after ⟨held, kinds, left⟩
    have removed : Keeping store taken (fun _ => False) after (after.unlink entry.1) := by
      refine held.unlink fun cid same => ?_
      have kind := kinds entry List.mem_cons_self
      rw [same] at kind
      cases kind
    refine keeps_unlink ⟨held.same, trivial⟩ ⟨removed, removed.valid, ?_, ?_⟩
    · exact fun other membership => kinds other (List.mem_cons_of_mem _ membership)
    · intro serial present
      rw [show (after.unlink entry.1).names = after.names.erase entry.1 from rfl,
        after.names.get?_erase] at present
      split at present
      · exact absurd rfl present
      next different =>
        rcases List.mem_cons.mp (left serial present) with same | inRest
        · exact absurd same different
        · exact inRest
  · rintro after ⟨held, _, left⟩
    refine ⟨held, fun serial => ?_⟩
    by_contra present
    cases left serial present
  · exact ⟨valid, temporary, covered⟩

theorem keeps_init (valid : store.Valid taken disk) :
    (store.init launch).Keeps perform
      (Keeping store taken fun _ => False)
      (Setting.onResult
        (fun _ after => ∀ names ∈ after.directories, ∀ serial,
          names.get? (.temporary serial) = none)
        fun _ _ => True) disk := by
  refine Program.keeps_bind.mpr ((keeps_identify valid).mono ?_)
  intro result disk valid
  cases result with
  | error failure => trivial
  | ok volume =>
      refine Program.keeps_bind.mpr (keeps_entries valid.same ?_)
      refine Program.keeps_bind.mpr ((keeps_sweep valid ?_ ?_).mono ?_)
      · exact fun entry membership => (List.mem_filter.mp membership).2
      · intro serial present
        obtain ⟨file, referred⟩ := Option.ne_none_iff_exists'.mp present
        have row := disk.names.mem_rows_iff.mpr referred
        have listed := List.mem_map_of_mem (f := fun entry : Name × Nat =>
          (entry.1, (disk.inodes[entry.2]?.map Inode.content).elim 0 List.length)) row
        exact List.mem_map_of_mem (f := Prod.fst) (List.mem_filter.mpr ⟨listed, rfl⟩)
      · intro result disk swept
        cases result with
        | error failure => trivial
        | ok _ =>
            obtain ⟨valid, clean⟩ := swept
            refine Program.keeps_bind.mpr (keeps_syncdir ⟨valid.same, trivial⟩
              ⟨valid.sync, ?_⟩)
            exact List.forall_mem_cons.mpr ⟨clean, by simp [Volume.sync]⟩

end Starting

end Store

end FileServer.Storage

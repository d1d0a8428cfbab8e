import FileServer.Storage.Retention

/-!
# What a storage process does to the chunk files

Contracts of the programs of `Storage`.  The steps of a put are followed from
the new file, which is written and synchronised, to its publication; wherever
it stops, the directory is valid and the other files are as they were.
-/

namespace FileServer.Storage

open FileServer.Files FileServer.Metadata FileServer.Relational FileServer.Transition

structure Removes (request : Request) (cid : Ident) : Prop where
  remove : request.cmd = .remove
  chunk : request.chunkId = some (.ident cid)

namespace Store

variable (store : Store)

/-- As far as length and SHA-256 tell. -/
def Same (data content : Bytes) : Prop :=
  content.length = data.length ∧ store.digest content = store.digest data

/-- What a call for a request does: a put of other content under the identifier
changes nothing. -/
structure Handling (request : Request) (before after : Disk) : Prop where
  retains : Retains (Removes request) before after
  refused : ∀ cid content, request.cmd = .put → request.chunkId = some (.ident cid) →
    before.published cid = some content → ¬ store.Same request.data content → after = before

/-- What is answered: a put has succeeded when the content is held, and the
content is read with its length and checksum. -/
structure Handled (request : Request) (result : Except Failure Reply) (disk : Disk) : Prop where
  stored : ∀ cid reply, request.cmd = .put → request.chunkId = some (.ident cid) →
    result = .ok reply → Held cid (store.Same request.data) disk
  read : ∀ cid content length, request.cmd = .get ∨ request.cmd = .stat →
    request.chunkId = some (.ident cid) → request.serviceKey.getD "" = store.secret →
    disk.published cid = some content → request.length = some length →
    equalsNumber content.length length = true →
    request.sha256 = some (.digest (store.digest content)) →
    result = .ok (.content content.length (store.digest content)
      (if request.cmd = .get then content else []))

def promise : Server.Promise Request Disk Process Failure Reply where
  Valid := store.Valid
  Booting := Retains fun _ => False
  Booted _ disk := ∀ names ∈ disk.directories, ∀ serial, names.get? (.temporary serial) = none
  Handling _ := store.Handling
  Handled _ := store.Handled

variable {store} {taken : List (Process × Request)} {disk : Disk}

/-- What a call for a request may do to a valid directory. -/
abbrev Allowed (store : Store) (taken : List (Process × Request)) (request : Request)
    (before after : Disk) : Prop :=
  store.Handling request before after ∧ store.Valid taken after

section Writing

variable {effect : Disk → Disk → Prop} {file : Nat}

/-- The writes leave all of the data, or some of it when one of them fails. -/
theorem keeps_writeAll (fault : Bool) (written : Bytes → Disk → Prop)
    (unchanged : ∀ content disk, written content disk → effect disk disk)
    (step : ∀ content disk part, written content disk →
      effect disk (disk.append file part) ∧ written (content ++ part) (disk.append file part))
    {bound : Nat} {view content : Bytes} (initially : written content disk)
    (enough : view.length ≤ bound) :
    (writeAll fault file bound view).Keeps perform effect
      (Setting.onResult (fun _ after => written (content ++ view) after)
        fun _ after => ∃ part, written part after) disk := by
  induction bound generalizing view content disk with
  | zero =>
      obtain rfl := List.eq_nil_of_length_eq_zero (Nat.le_zero.mp enough)
      rw [List.append_nil]
      exact initially
  | succ bound inductionHypothesis =>
      cases view with
      | nil =>
          rw [List.append_nil]
          exact initially
      | cons first rest =>
          cases fault with
          | true => exact ⟨content, initially⟩
          | false =>
              refine Program.keeps_bind.mpr (keeps_write ⟨unchanged _ _ initially, _, initially⟩ ?_)
              intro count most
              obtain ⟨allowed, continued⟩ := step content disk ((first :: rest).take count) initially
              refine ⟨allowed, ?_⟩
              show Program.Keeps perform effect (if 0 < count then
                writeAll false file bound ((first :: rest).drop count) else raise .shortWrite) _ _
              split
              next progress =>
                have left : ((first :: rest).drop count).length ≤ bound := by
                  rw [List.length_drop]
                  omega
                have whole := inductionHypothesis continued left
                rw [List.append_assoc, List.take_append_drop] at whole
                exact whole
              · exact ⟨_, continued⟩

end Writing

section Put

variable {request : Request} {cid : Ident}

/-- A call that keeps what is held, in a state where nothing else is published
under the identifier. -/
theorem Handling.of_keeping {after : Disk} (chunk : request.chunkId = some (.ident cid))
    (settled : ∀ content, disk.published cid = some content → store.Same request.data content)
    (keeping : Keeping store taken (Removes request) disk after) :
    Allowed store taken request disk after := by
  refine ⟨⟨keeping.retains, ?_⟩, keeping.valid⟩
  intro other content _ named found different
  rw [chunk] at named
  cases named
  exact absurd (settled content found) different

/-- A call that changes nothing. -/
theorem Handling.same (valid : store.Valid taken disk) : Allowed store taken request disk disk :=
  ⟨⟨.refl _ _, fun _ _ _ _ _ _ => rfl⟩, valid⟩

structure Writing (store : Store) (taken : List (Process × Request)) (request : Request)
    (cid : Ident) (file serial : Nat) (synced : Bool) (content : Bytes) (disk : Disk) : Prop where
  valid : store.Valid taken disk
  absent : disk.names.get? (.chunk cid) = none
  temporary : disk.names.get? (.temporary serial) = some file
  current : disk.inodes[file]? = some ⟨content, synced⟩
  room : disk.used + request.data.length ≤ store.capacity

variable {file serial : Nat} {synced : Bool} {content : Bytes}

theorem published_of_absent (absent : disk.names.get? (.chunk cid) = none) :
    disk.published cid = none := by
  rw [Disk.published, contentOf, absent]
  rfl

theorem Writing.settled (writing : Writing store taken request cid file serial synced content disk)
    (content' : Bytes) (found : disk.published cid = some content') :
    store.Same request.data content' := by
  rw [published_of_absent writing.absent] at found
  cases found

theorem Writing.begin (valid : store.Valid taken disk)
    (absent : disk.names.get? (.chunk cid) = none)
    (room : disk.used + request.data.length ≤ store.capacity)
    (free : disk.names.get? (.temporary serial) = none) :
    Writing store taken request cid disk.inodes.length serial false []
      (disk.create (.temporary serial)) where
  valid :=
    (valid.create free rfl : Keeping store taken (Removes request) disk (disk.create _)).valid
  absent := by
    show (disk.names.upsert _ _ _).get? _ = none
    rw [disk.names.get?_upsert, if_neg (by simp)]
    exact absent
  temporary := by
    show (disk.names.upsert _ _ _).get? _ = some _
    rw [disk.names.get?_upsert, if_pos rfl, free]
    rfl
  current := List.getElem?_concat_length
  room := by
    have named := valid.here.name disk.inodes.length free rfl
    show bytesUnder Name.isChunk (disk.inodes ++ [⟨[], false⟩]) (disk.names.upsert _ _ _) + _ ≤ _
    rw [named.fixed.bytesUnder_extends (extends_append _ _), bytesUnder_upsert_of_not _ free rfl]
    exact room

/-- A change of the files that have not reached the disk. -/
theorem Writing.extend {inodes : List (Inode UInt8)} {content' : Bytes} {synced' : Bool}
    (writing : Writing store taken request cid file serial synced content disk)
    (extension : Extends disk.inodes inodes) (current : inodes[file]? = some ⟨content', synced'⟩) :
    Writing store taken request cid file serial synced' content' { disk with inodes } where
  valid :=
    (writing.valid.extend extension :
      Keeping store taken (Removes request) disk { disk with inodes }).valid
  absent := writing.absent
  temporary := writing.temporary
  current := current
  room := by
    show bytesUnder Name.isChunk inodes disk.names + _ ≤ _
    rw [writing.valid.here.fixed.bytesUnder_extends extension]
    exact writing.room

theorem Writing.append (writing : Writing store taken request cid file serial false content disk)
    (part : Bytes) :
    Writing store taken request cid file serial false (content ++ part) (disk.append file part) := by
  refine writing.extend (extends_modify writing.current _) ?_
  rw [List.getElem?_modify_eq, writing.current]
  rfl

theorem Writing.flush (writing : Writing store taken request cid file serial synced content disk) :
    Writing store taken request cid file serial true content (disk.flush file) := by
  refine writing.extend (extends_flush _ _) ?_
  rw [List.getElem?_modify_eq, writing.current]
  rfl

theorem keeps_discard {post : Except Failure Unit → Disk → Prop}
    (chunk : request.chunkId = some (.ident cid)) (valid : store.Valid taken disk)
    (settled : ∀ content, disk.published cid = some content → store.Same request.data content)
    (stays : ∀ result after, Retains (Removes request) disk after → post result after) :
    (discard (.temporary serial)).Keeps perform
      (Allowed store taken request)
      post disk := by
  refine Program.keeps_bind.mpr (keeps_present (Handling.same valid) ?_)
  show Program.Keeps perform _ (if (disk.names.get? (.temporary serial)).isSome then
    unlink (.temporary serial) else pure ()) post disk
  split
  · have removed : Keeping store taken (Removes request) disk (disk.unlink (.temporary serial)) :=
      valid.unlink (by simp)
    exact keeps_unlink ⟨Handling.same valid, stays _ _ (.refl _ _)⟩
      ⟨Handling.of_keeping chunk settled removed, stays _ _ removed.retains⟩
  · exact stays _ _ (.refl _ _)

theorem keeps_fill (chunk : request.chunkId = some (.ident cid))
    (writing : Writing store taken request cid file serial false [] disk) :
    (Program.recover
      (do
        writeAll store.writeFault file request.data.length request.data
        if store.syncFault then raise .os
        fsync file
        close file)
      fun failure => do
        close file
        discard (.temporary serial)
        raise failure).Keeps perform
      (Allowed store taken request)
      (Setting.onResult
        (fun _ after => Writing store taken request cid file serial true request.data after)
        fun _ _ => True) disk := by
  have failed : ∀ failure disk synced content,
      Writing store taken request cid file serial synced content disk →
      Program.Keeps perform
        (Allowed store taken request)
        (do
          close file
          discard (.temporary serial)
          raise failure : Script Unit)
        (Setting.onResult
          (fun _ after => Writing store taken request cid file serial true request.data after)
          fun _ _ => True) disk := by
    intro failure disk synced content writing
    refine Program.keeps_bind.mpr (keeps_close (Handling.same writing.valid) trivial ?_)
    refine Program.keeps_bind.mpr (keeps_discard chunk writing.valid writing.settled ?_)
    intro result after _
    cases result with
    | error failure => trivial
    | ok _ => trivial
  refine Program.keeps_recover.mpr (Program.keeps_bind.mpr ?_)
  refine (keeps_writeAll _ (Writing store taken request cid file serial false) ?_ ?_ writing
    le_rfl).mono ?_
  · exact fun content disk writing => Handling.same writing.valid
  · intro content disk part writing
    exact ⟨Handling.of_keeping chunk writing.settled (writing.valid.append writing.current part),
      writing.append part⟩
  intro result disk written
  cases result with
  | error failure =>
      obtain ⟨content, writing⟩ := written
      exact failed failure disk _ content writing
  | ok _ =>
      have writing : Writing store taken request cid file serial false request.data disk := written
      dsimp only [Setting.onResult]
      split
      · exact failed _ disk _ _ writing
      · refine Program.keeps_bind.mpr (keeps_fsync ⟨Handling.same writing.valid, failed _ _ _ _ writing⟩ ?_)
        have flushed := writing.flush
        refine ⟨Handling.of_keeping chunk writing.settled (writing.valid.flush file), ?_⟩
        dsimp only [Setting.onResult]
        exact keeps_close (Handling.same flushed.valid) (failed _ _ _ _ flushed) flushed

theorem keeps_expose (put : request.cmd = .put) (chunk : request.chunkId = some (.ident cid))
    (justified : store.Justified taken cid request.data)
    (writing : Writing store taken request cid file serial true request.data disk) :
    (Program.ensure
      (do
        link (.temporary serial) (.chunk cid)
        unlink (.temporary serial)
        syncdir)
      (discard (.temporary serial))).Keeps perform
      (Allowed store taken request)
      (fun result after => result = .ok () → Held cid (store.Same request.data) after) disk := by
  have stays : ¬ Removes request cid := by
    rintro ⟨remove, _⟩
    rw [put] at remove
    cases remove
  have cleaned : ∀ (result : Except Failure Unit) disk, store.Valid taken disk →
      (∀ content, disk.published cid = some content → store.Same request.data content) →
      (result = .ok () → Held cid (store.Same request.data) disk) →
      (discard (.temporary serial)).Keeps perform
        (Allowed store taken request)
        (Setting.onResult
          (fun _ after => result = .ok () → Held cid (store.Same request.data) after)
          fun failure after => Except.error failure = .ok () →
            Held cid (store.Same request.data) after) disk := by
    intro result disk valid settled held
    apply keeps_discard chunk valid settled
    intro removed after retains
    cases removed with
    | error failure => exact fun impossible => by cases impossible
    | ok _ => exact fun succeeded => retains.held cid _ stays (held succeeded)
  have failed : ∀ {disk}, (.error .os : Except Failure Unit) = .ok () →
      Held cid (store.Same request.data) disk := fun impossible => by cases impossible
  have linked : Keeping store taken (Removes request) disk (disk.link file (.chunk cid)) :=
    writing.valid.link writing.absent writing.current justified writing.room
  have exposed : ∀ after, Retains (Removes request) (disk.link file (.chunk cid)) after →
      after.published cid = some request.data := by
    intro after retains
    refine retains.published cid _ stays (Refers.contentOf ⟨file, ?_, writing.current⟩)
    show (disk.names.upsert _ _ _).get? _ = some _
    rw [disk.names.get?_upsert, if_pos rfl, writing.absent]
    rfl
  have settled : ∀ after, Retains (Removes request) (disk.link file (.chunk cid)) after →
      ∀ content, after.published cid = some content → store.Same request.data content := by
    intro after retains content found
    rw [exposed after retains] at found
    obtain rfl := Option.some.inj found
    exact ⟨rfl, rfl⟩
  refine Program.keeps_ensure.mpr (Program.keeps_bind.mpr (keeps_link writing.temporary ?_ ?_))
  · exact ⟨Handling.same writing.valid, cleaned _ _ writing.valid writing.settled failed⟩
  intro _
  refine ⟨Handling.of_keeping chunk writing.settled linked, ?_⟩
  have unlinked : Keeping store taken (Removes request) (disk.link file (.chunk cid))
      ((disk.link file (.chunk cid)).unlink (.temporary serial)) := linked.valid.unlink (by simp)
  refine Program.keeps_bind.mpr (keeps_unlink ?_ ?_)
  · exact ⟨Handling.same linked.valid, cleaned _ _ linked.valid (settled _ (.refl _ _)) failed⟩
  refine ⟨Handling.of_keeping chunk (settled _ (.refl _ _)) unlinked, ?_⟩
  have there := settled _ unlinked.retains
  have synced : Keeping store taken (Removes request) _ _ := unlinked.valid.sync
  have kept := unlinked.retains.trans synced.retains
  dsimp only [Setting.onResult]
  refine keeps_syncdir ⟨Handling.same unlinked.valid, cleaned _ _ unlinked.valid there failed⟩
    ⟨Handling.of_keeping chunk there synced, cleaned _ _ synced.valid (settled _ kept) fun _ => ?_⟩
  refine Everywhere.sync ⟨request.data, ?_, rfl, rfl⟩
  exact unlinked.valid.refers (exposed _ unlinked.retains)

end Put

end Store

end FileServer.Storage

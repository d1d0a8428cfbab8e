import FileServer.Storage.Dispatch

/-!
# What the chunk files keep

In every directory that may be found after a failure, the chunk files have
reached the disk, are those of requests with valid tickets, and fit in the
capacity.  The lemmas say which calls keep this and the files themselves.
-/

namespace FileServer.Storage

open FileServer.Files FileServer.Metadata FileServer.Relational FileServer.Transition

theorem ident?_eq_some {value : Value} {cid : Ident} :
    value.ident? = some cid ↔ value = .ident cid := by
  cases value <;> simp [Value.ident?]

theorem bind_ident?_eq_some {value : Option Value} {cid : Ident} :
    value.bind Value.ident? = some cid ↔ value = some (.ident cid) := by
  rw [Option.bind_eq_some_iff]
  constructor
  · rintro ⟨_, rfl, same⟩
    rw [ident?_eq_some.mp same]
  · rintro rfl
    exact ⟨_, rfl, rfl⟩

/-- A file is in every directory that may be found after a failure, whole and
with the property. -/
def Held (cid : Ident) (P : Bytes → Prop) (disk : Disk) : Prop :=
  Everywhere (fun inodes names => ∃ content, Refers inodes names (.chunk cid) content ∧ P content)
    disk

theorem Held.published {cid : Ident} {P : Bytes → Prop} {disk : Disk} (held : Held cid P disk) :
    ∃ content, disk.published cid = some content ∧ P content := by
  obtain ⟨content, refers, holds⟩ := held.here
  exact ⟨content, refers.contentOf, holds⟩

theorem durable_held (cid : Ident) (P : Bytes → Prop) :
    Durable fun (inodes : List (Inode UInt8)) (names : Table Name Nat) =>
      ∃ content, Refers inodes names (.chunk cid) content ∧ P content := by
  rintro inodes inodes' names extension ⟨content, refers, holds⟩
  exact ⟨content, refers.extends extension, holds⟩

/-- The chunk files stay, except those that may be removed. -/
structure Retains (removed : Ident → Prop) (before after : Disk) : Prop where
  published : ∀ cid content, ¬ removed cid → before.published cid = some content →
    after.published cid = some content
  held : ∀ cid P, ¬ removed cid → Held cid P before → Held cid P after

theorem Retains.refl (removed : Ident → Prop) (disk : Disk) : Retains removed disk disk :=
  ⟨fun _ _ _ found => found, fun _ _ _ held => held⟩

theorem Retains.trans {removed : Ident → Prop} {first second third : Disk}
    (earlier : Retains removed first second) (later : Retains removed second third) :
    Retains removed first third where
  published cid content kept found := later.published cid content kept
    (earlier.published cid content kept found)
  held cid P kept held := later.held cid P kept (earlier.held cid P kept held)

namespace Store

variable (store : Store)

/-- Different contents that SHA-256 does not tell apart. -/
structure Collision (content data : Bytes) : Prop where
  different : content ≠ data
  length : content.length = data.length
  digest : store.digest content = store.digest data

/-- A valid ticket of the process for the chunk and its content. -/
structure Genuine (process : Process) (now : Time) (cid : Ident) (content : Bytes)
    (authorization : Authorization) : Prop where
  mac : authorization.mac = store.mac authorization.claims
  unexpired : now ≤ authorization.claims.expires
  node : authorization.claims.node = store.nodeId
  chunk : authorization.claims.chunk = cid
  volume : authorization.claims.volume = process.volume
  inst : authorization.claims.inst = process.inst
  length : authorization.claims.length = content.length
  sha : authorization.claims.sha = store.digest content

/-- The request brings the content with a valid ticket for the chunk. -/
structure Authorizes (process : Process) (request : Request) (cid : Ident) (content : Bytes) :
    Prop where
  put : request.cmd = .put
  data : request.data = content
  ticket : ∃ authorization, request.authorization = some authorization ∧
    store.Genuine process request.now cid content authorization

def Justified (taken : List (Process × Request)) (cid : Ident) (content : Bytes) : Prop :=
  ∃ entry ∈ taken, store.Authorizes entry.1 entry.2 cid content

theorem Justified.length_le {store : Store} {taken : List (Process × Request)} {cid : Ident}
    {content : Bytes} (justified : store.Justified taken cid content) :
    content.length ≤ 4 * 1024 * 1024 := by
  obtain ⟨⟨_, request⟩, _, authorizes⟩ := justified
  exact authorizes.data ▸ request.bounded

/-- What holds of a directory. -/
structure Sound (taken : List (Process × Request)) (inodes : List (Inode UInt8))
    (names : Table Name Nat) : Prop where
  fixed : Fixed Name.isChunk inodes names
  justified : ∀ cid content, Refers inodes names (.chunk cid) content →
    store.Justified taken cid content
  bounded : bytesUnder Name.isChunk inodes names ≤ store.capacity

/-- It holds of every directory that may be found after a failure. -/
def Valid (taken : List (Process × Request)) (disk : Disk) : Prop :=
  Everywhere (store.Sound taken) disk

variable {store} {taken : List (Process × Request)} {inodes inodes' : List (Inode UInt8)}
  {names : Table Name Nat} {disk : Disk}

theorem Sound.later (sound : store.Sound taken inodes names) (entry : Process × Request) :
    store.Sound (entry :: taken) inodes names where
  fixed := sound.fixed
  justified cid content refers := by
    obtain ⟨earlier, membership, authorizes⟩ := sound.justified cid content refers
    exact ⟨earlier, List.mem_cons_of_mem _ membership, authorizes⟩
  bounded := sound.bounded

theorem durable_sound (taken : List (Process × Request)) : Durable (store.Sound taken) := by
  intro inodes inodes' names extension sound
  refine ⟨sound.fixed.extends extension, ?_, ?_⟩
  · intro cid content refers
    apply sound.justified
    apply sound.fixed.refers rfl
    rw [← sound.fixed.contentOf_extends extension rfl]
    exact refers.contentOf
  · rw [sound.fixed.bytesUnder_extends extension]
    exact sound.bounded

theorem Sound.name (sound : store.Sound taken inodes names) {name : Name} (file : Nat)
    (absent : names.get? name = none) (other : name.isChunk = false) :
    store.Sound taken inodes (names.upsert name file fun _ => file) where
  fixed := sound.fixed.upsert (by simp [other]) absent
  justified cid content refers := by
    obtain ⟨index, found, stored⟩ := refers
    have different : Name.chunk cid ≠ name := by
      rintro rfl
      cases other
    rw [names.get?_upsert, if_neg different] at found
    exact sound.justified cid content ⟨index, found, stored⟩
  bounded := by
    rw [bytesUnder_upsert_of_not file absent other]
    exact sound.bounded

theorem Sound.chunk (sound : store.Sound taken inodes names) {cid : Ident} {file : Nat}
    {content : Bytes} (absent : names.get? (.chunk cid) = none)
    (stored : Stored inodes file content) (justified : store.Justified taken cid content)
    (room : bytesUnder Name.isChunk inodes names + content.length ≤ store.capacity) :
    store.Sound taken inodes (names.upsert (.chunk cid) file fun _ => file) where
  fixed := sound.fixed.upsert (fun _ => ⟨content, stored⟩) absent
  justified other content' refers := by
    obtain ⟨index, found, stored'⟩ := refers
    rw [names.get?_upsert] at found
    split at found
    next same =>
      cases same
      rw [absent] at found
      obtain rfl := Option.some.inj found
      rw [← stored.inj stored']
      exact justified
    · exact sound.justified other content' ⟨index, found, stored'⟩
  bounded := by
    rw [bytesUnder_upsert absent stored]
    exact room

theorem Sound.erase (sound : store.Sound taken inodes names) (name : Name) :
    store.Sound taken inodes (names.erase name) where
  fixed := sound.fixed.erase name
  justified cid content refers := by
    obtain ⟨index, found, stored⟩ := refers
    rw [names.get?_erase] at found
    split at found
    · cases found
    · exact sound.justified cid content ⟨index, found, stored⟩
  bounded := (bytesUnder_erase_le name).trans sound.bounded

/-- What a call may do to a valid directory. -/
structure Keeping (store : Store) (taken : List (Process × Request)) (removed : Ident → Prop)
    (before after : Disk) : Prop where
  retains : Retains removed before after
  valid : store.Valid taken after

variable {removed : Ident → Prop}

theorem Valid.same (valid : store.Valid taken disk) : Keeping store taken removed disk disk :=
  ⟨.refl _ _, valid⟩

theorem Valid.refers (valid : store.Valid taken disk) {cid : Ident} {content : Bytes}
    (found : disk.published cid = some content) :
    Refers disk.inodes disk.names (.chunk cid) content :=
  valid.here.fixed.refers rfl found

/-- The files grow, and those that have reached the disk stay. -/
theorem Valid.extend (valid : store.Valid taken disk) (extension : Extends disk.inodes inodes) :
    Keeping store taken removed disk { disk with inodes } where
  valid := Everywhere.extends valid (durable_sound taken) extension
  retains :=
    { published := by
        intro cid content _ found
        show contentOf inodes disk.names (.chunk cid) = some content
        rw [valid.here.fixed.contentOf_extends extension rfl]
        exact found
      held := fun cid P _ held => Everywhere.extends held (durable_held cid P) extension }

theorem Valid.change (valid : store.Valid taken disk)
    (sound : store.Sound taken disk.inodes names)
    (kept : ∀ cid file, ¬ removed cid → disk.names.get? (.chunk cid) = some file →
      names.get? (.chunk cid) = some file) :
    Keeping store taken removed disk (disk.change names) where
  valid := Everywhere.change valid sound
  retains :=
    { published := by
        intro cid content stays found
        obtain ⟨file, referred, stored⟩ := valid.refers found
        exact Refers.contentOf ⟨file, kept cid file stays referred, stored⟩
      held := by
        intro cid P stays held
        obtain ⟨content, ⟨file, referred, stored⟩, holds⟩ := held.here
        exact Everywhere.change held ⟨content, ⟨file, kept cid file stays referred, stored⟩, holds⟩ }

theorem Keeping.trans {first second third : Disk} (earlier : Keeping store taken removed first second)
    (later : Keeping store taken removed second third) :
    Keeping store taken removed first third :=
  ⟨earlier.retains.trans later.retains, later.valid⟩

theorem Valid.create (valid : store.Valid taken disk) {name : Name}
    (absent : disk.names.get? name = none) (other : name.isChunk = false) :
    Keeping store taken removed disk (disk.create name) := by
  have named : Keeping store taken removed disk
      (disk.change (disk.names.upsert name disk.inodes.length fun _ => disk.inodes.length)) := by
    refine valid.change (valid.here.name _ absent other) ?_
    intro cid file _ found
    have different : Name.chunk cid ≠ name := by
      rintro rfl
      cases other
    rw [disk.names.get?_upsert, if_neg different]
    exact found
  exact named.trans (named.valid.extend (extends_append _ _))

theorem Valid.append (valid : store.Valid taken disk) {file : Nat} {content : Bytes}
    (current : disk.inodes[file]? = some ⟨content, false⟩) (data : Bytes) :
    Keeping store taken removed disk (disk.append file data) :=
  valid.extend (extends_modify current _)

theorem Valid.flush (valid : store.Valid taken disk) (file : Nat) :
    Keeping store taken removed disk (disk.flush file) :=
  valid.extend (extends_flush _ _)

theorem Valid.link (valid : store.Valid taken disk) {cid : Ident} {file : Nat} {content : Bytes}
    (absent : disk.names.get? (.chunk cid) = none) (stored : Stored disk.inodes file content)
    (justified : store.Justified taken cid content)
    (room : disk.used + content.length ≤ store.capacity) :
    Keeping store taken removed disk (disk.link file (.chunk cid)) := by
  refine valid.change (valid.here.chunk absent stored justified room) ?_
  intro other index _ found
  have different : Name.chunk other ≠ .chunk cid := by
    rintro same
    rw [same, absent] at found
    cases found
  rw [disk.names.get?_upsert, if_neg different]
  exact found

theorem Valid.unlink (valid : store.Valid taken disk) {name : Name}
    (allowed : ∀ cid, name = .chunk cid → removed cid) :
    Keeping store taken removed disk (disk.unlink name) := by
  refine valid.change (valid.here.erase name) ?_
  intro cid file stays found
  have different : Name.chunk cid ≠ name := fun same => stays (allowed cid same.symm)
  rw [disk.names.get?_erase, if_neg different]
  exact found

theorem Valid.sync (valid : store.Valid taken disk) :
    Keeping store taken removed disk disk.sync where
  valid := Everywhere.sync valid.here
  retains := ⟨fun _ _ _ found => found, fun _ _ _ held => Everywhere.sync held.here⟩

theorem Valid.fail (valid : store.Valid taken disk) {damage : Damage} {after : Disk}
    (failed : disk.fail damage = some after) : store.Valid taken after := by
  cases damage with
  | crash =>
      obtain rfl := Option.some.inj failed
      exact valid
  | power directory contents =>
      obtain ⟨names, found, recovered⟩ := Option.bind_eq_some_iff.mp failed
      split at recovered
      next survives =>
        obtain rfl := Option.some.inj recovered
        exact Everywhere.recovered valid (durable_sound taken) (List.mem_of_getElem? found) survives
      · cases recovered

end Store

theorem Held.fail {cid : Ident} {P : Bytes → Prop} {disk after : Disk} {damage : Damage}
    (held : Held cid P disk) (failed : disk.fail damage = some after) : Held cid P after := by
  cases damage with
  | crash =>
      obtain rfl := Option.some.inj failed
      exact held
  | power directory contents =>
      obtain ⟨names, found, recovered⟩ := Option.bind_eq_some_iff.mp failed
      split at recovered
      next survives =>
        obtain rfl := Option.some.inj recovered
        exact Everywhere.recovered held (durable_held cid P) (List.mem_of_getElem? found) survives
      · cases recovered

end FileServer.Storage

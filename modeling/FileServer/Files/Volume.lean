import FileServer.Relational.Table

/-!
# Files under names

A volume has files and a directory.  Several names may refer to one file, and a
file may have none.  The content of a file has reached the disk when the file
is synchronised; the changes of the directory reach it in order, all of them
when the directory is synchronised.
-/

namespace FileServer.Files

open FileServer.Relational

universe u v

/-- A file, and whether its content has reached the disk. -/
structure Inode (α : Type v) where
  content : List α
  synced : Bool

/-- `earlier` are the directories since the last synchronisation; a failure of
the power may bring back any of them. -/
structure Volume (Name : Type u) (α : Type v) where
  inodes : List (Inode α)
  names : Table Name Nat
  earlier : List (Table Name Nat)

variable {Name : Type u} {α : Type v}

namespace Volume

section Operations

variable [DecidableEq Name] (volume : Volume Name α)

def empty : Volume Name α := ⟨[], .empty, []⟩

def directories : List (Table Name Nat) := volume.names :: volume.earlier

def change (names : Table Name Nat) : Volume Name α :=
  { volume with names, earlier := volume.directories }

/-- A new file is open at the index it gets. -/
def create (name : Name) : Volume Name α :=
  { volume.change (volume.names.upsert name volume.inodes.length fun _ => volume.inodes.length) with
    inodes := volume.inodes ++ [⟨[], false⟩] }

def append (file : Nat) (data : List α) : Volume Name α :=
  { volume with inodes := volume.inodes.modify file fun inode => ⟨inode.content ++ data, false⟩ }

/-- `fsync` of an open file. -/
def flush (file : Nat) : Volume Name α :=
  { volume with inodes := volume.inodes.modify file fun inode => ⟨inode.content, true⟩ }

def link (file : Nat) (target : Name) : Volume Name α :=
  volume.change (volume.names.upsert target file fun _ => file)

def unlink (name : Name) : Volume Name α := volume.change (volume.names.erase name)

/-- `fsync` of the directory. -/
def sync : Volume Name α := { volume with earlier := [] }

/-- What a failure of the power may leave of the files: those that have not
reached the disk are left with any content. -/
def Survives (contents : List (List α)) : Prop :=
  contents.length = volume.inodes.length ∧
    ∀ entry ∈ volume.inodes.zip contents, entry.1.synced = true → entry.2 = entry.1.content

instance [DecidableEq α] (contents : List (List α)) : Decidable (volume.Survives contents) :=
  inferInstanceAs (Decidable (_ ∧ _))

/-- What is found after a failure of the power. -/
def recovered (names : Table Name Nat) (contents : List (List α)) : Volume Name α :=
  ⟨contents.map fun content => ⟨content, true⟩, names, []⟩

end Operations

end Volume

def Stored (inodes : List (Inode α)) (file : Nat) (content : List α) : Prop :=
  inodes[file]? = some ⟨content, true⟩

/-- What has reached the disk stays as it is. -/
def Extends (inodes inodes' : List (Inode α)) : Prop :=
  ∀ file content, Stored inodes file content → Stored inodes' file content

theorem Stored.inj {inodes : List (Inode α)} {file : Nat} {content content' : List α}
    (found : Stored inodes file content) (again : Stored inodes file content') :
    content = content' :=
  congrArg Inode.content (Option.some.inj (found.symm.trans again))

theorem extends_append (inodes : List (Inode α)) (inode : Inode α) :
    Extends inodes (inodes ++ [inode]) := by
  intro file content found
  rw [Stored, List.getElem?_append_left (List.getElem?_eq_some_iff.mp found).1]
  exact found

/-- A write to a file that has not reached the disk. -/
theorem extends_modify {inodes : List (Inode α)} {file : Nat} {content : List α}
    (current : inodes[file]? = some ⟨content, false⟩) (f : Inode α → Inode α) :
    Extends inodes (inodes.modify file f) := by
  intro other content' found
  have different : file ≠ other := by
    rintro rfl
    cases current.symm.trans found
  rw [Stored, List.getElem?_modify_ne _ _ different]
  exact found

theorem extends_flush (inodes : List (Inode α)) (file : Nat) :
    Extends inodes (inodes.modify file fun inode => ⟨inode.content, true⟩) := by
  intro other content found
  by_cases same : file = other
  · subst same
    rw [Stored, List.getElem?_modify_eq, found]
    rfl
  · rw [Stored, List.getElem?_modify_ne _ _ same]
    exact found

theorem Volume.Survives.extends {volume : Volume Name α} {contents : List (List α)}
    (survives : volume.Survives contents) :
    Extends volume.inodes (contents.map fun content => ⟨content, true⟩) := by
  intro file content found
  obtain ⟨inside, stored⟩ := List.getElem?_eq_some_iff.mp found
  have inContents : file < contents.length := by
    rw [survives.1]
    exact inside
  have paired : (volume.inodes[file], contents[file]) ∈ volume.inodes.zip contents := by
    rw [← List.getElem_zip (h := by simpa using ⟨inside, inContents⟩)]
    exact List.getElem_mem _
  have kept : contents[file] = volume.inodes[file].content :=
    survives.2 _ paired (congrArg Inode.synced stored)
  rw [Stored, List.getElem?_map, List.getElem?_eq_getElem inContents, kept, stored]
  rfl

section Names

variable [DecidableEq Name]

def contentOf (inodes : List (Inode α)) (names : Table Name Nat) (name : Name) :
    Option (List α) :=
  (names.get? name).bind fun file => inodes[file]?.map Inode.content

def Refers (inodes : List (Inode α)) (names : Table Name Nat) (name : Name)
    (content : List α) : Prop :=
  ∃ file, names.get? name = some file ∧ Stored inodes file content

theorem Refers.contentOf {inodes : List (Inode α)} {names : Table Name Nat} {name : Name}
    {content : List α} (refers : Refers inodes names name content) :
    contentOf inodes names name = some content := by
  obtain ⟨file, found, stored⟩ := refers
  rw [Files.contentOf, found, Option.bind_some, stored]
  rfl

theorem Refers.extends {inodes inodes' : List (Inode α)} {names : Table Name Nat} {name : Name}
    {content : List α} (refers : Refers inodes names name content)
    (extension : Extends inodes inodes') : Refers inodes' names name content := by
  obtain ⟨file, found, stored⟩ := refers
  exact ⟨file, found, extension _ _ stored⟩

/-- The names of a kind refer to files that have reached the disk. -/
def Fixed (kind : Name → Bool) (inodes : List (Inode α)) (names : Table Name Nat) : Prop :=
  ∀ name file, kind name = true → names.get? name = some file → ∃ content, Stored inodes file content

def bytesUnder (kind : Name → Bool) (inodes : List (Inode α)) (names : Table Name Nat) : Nat :=
  names.sum fun name file =>
    if kind name then (inodes[file]?.map Inode.content).elim 0 List.length else 0

section Fixed

variable {kind : Name → Bool} {inodes inodes' : List (Inode α)} {names : Table Name Nat}

theorem Fixed.extends (fixed : Fixed kind inodes names) (extension : Extends inodes inodes') :
    Fixed kind inodes' names := by
  intro name file marked found
  obtain ⟨content, stored⟩ := fixed name file marked found
  exact ⟨content, extension _ _ stored⟩

theorem Fixed.refers (fixed : Fixed kind inodes names) {name : Name} (marked : kind name = true)
    {content : List α} (found : contentOf inodes names name = some content) :
    Refers inodes names name content := by
  obtain ⟨file, referred, read⟩ := Option.bind_eq_some_iff.mp found
  obtain ⟨stored, same⟩ := fixed name file marked referred
  rw [same] at read
  obtain rfl := Option.some.inj read
  exact ⟨file, referred, same⟩

theorem Fixed.contentOf_extends (fixed : Fixed kind inodes names)
    (extension : Extends inodes inodes') {name : Name} (marked : kind name = true) :
    contentOf inodes' names name = contentOf inodes names name := by
  unfold contentOf
  cases found : names.get? name with
  | none => rfl
  | some file =>
      obtain ⟨content, stored⟩ := fixed name file marked found
      simp only [Option.bind_some]
      rw [stored, extension _ _ stored]

theorem Fixed.bytesUnder_extends (fixed : Fixed kind inodes names)
    (extension : Extends inodes inodes') : bytesUnder kind inodes' names = bytesUnder kind inodes names := by
  apply names.sum_congr
  intro name file found
  split
  next marked =>
    obtain ⟨content, stored⟩ := fixed name file marked found
    rw [stored, extension _ _ stored]
  · rfl

theorem Fixed.upsert (fixed : Fixed kind inodes names) {name : Name} {file : Nat}
    (stored : kind name = true → ∃ content, Stored inodes file content)
    (absent : names.get? name = none) :
    Fixed kind inodes (names.upsert name file fun _ => file) := by
  intro other index marked found
  rw [names.get?_upsert] at found
  split at found
  next same =>
    subst same
    rw [absent] at found
    obtain rfl := Option.some.inj found
    exact stored marked
  · exact fixed other index marked found

theorem Fixed.erase (fixed : Fixed kind inodes names) (name : Name) :
    Fixed kind inodes (names.erase name) := by
  intro other index marked found
  rw [names.get?_erase] at found
  split at found
  · cases found
  · exact fixed other index marked found

theorem bytesUnder_upsert {name : Name} {file : Nat} {content : List α}
    (absent : names.get? name = none) (stored : Stored inodes file content) :
    bytesUnder kind inodes (names.upsert name file fun _ => file) =
      bytesUnder kind inodes names + if kind name then content.length else 0 := by
  rw [bytesUnder, names.sum_upsert_absent file (fun _ => file) _ absent, stored]
  rfl

theorem bytesUnder_upsert_of_not {name : Name} (file : Nat) (absent : names.get? name = none)
    (unmarked : kind name = false) :
    bytesUnder kind inodes (names.upsert name file fun _ => file) = bytesUnder kind inodes names := by
  rw [bytesUnder, names.sum_upsert_absent file (fun _ => file) _ absent, if_neg (by simp [unmarked]),
    add_zero]
  rfl

theorem bytesUnder_erase_le (name : Name) :
    bytesUnder kind inodes (names.erase name) ≤ bytesUnder kind inodes names := by
  rw [bytesUnder, bytesUnder, ← names.sum_erase name]
  exact Nat.le_add_right _ _

end Fixed

end Names

/-- A property of what may be found after a failure of the power. -/
def Everywhere (P : List (Inode α) → Table Name Nat → Prop) (volume : Volume Name α) : Prop :=
  ∀ names ∈ volume.directories, P volume.inodes names

/-- A property that what has reached the disk decides. -/
def Durable (P : List (Inode α) → Table Name Nat → Prop) : Prop :=
  ∀ inodes inodes' names, Extends inodes inodes' → P inodes names → P inodes' names

section Everywhere

variable {P : List (Inode α) → Table Name Nat → Prop} {volume : Volume Name α}

theorem Everywhere.here (everywhere : Everywhere P volume) : P volume.inodes volume.names :=
  everywhere _ List.mem_cons_self

theorem Everywhere.change (everywhere : Everywhere P volume) {names : Table Name Nat}
    (changed : P volume.inodes names) : Everywhere P (volume.change names) :=
  List.forall_mem_cons.mpr ⟨changed, everywhere⟩

theorem Everywhere.extends (everywhere : Everywhere P volume) (durable : Durable P)
    {inodes : List (Inode α)} (extension : Extends volume.inodes inodes) :
    Everywhere P { volume with inodes } :=
  fun names membership => durable _ _ _ extension (everywhere names membership)

theorem Everywhere.sync (here : P volume.inodes volume.names) : Everywhere P volume.sync :=
  List.forall_mem_cons.mpr ⟨here, by simp [Volume.sync]⟩

theorem Everywhere.recovered (everywhere : Everywhere P volume) (durable : Durable P)
    {names : Table Name Nat} (membership : names ∈ volume.directories)
    {contents : List (List α)} (survives : volume.Survives contents) :
    Everywhere P (Volume.recovered names contents) :=
  List.forall_mem_cons.mpr
    ⟨durable _ _ _ survives.extends (everywhere names membership), by simp [Volume.recovered]⟩

end Everywhere


end FileServer.Files

import FileServer.Files.Volume
import FileServer.Storage.Node
import FileServer.Transition.Crashes

/-!
# The data directory of a storage node

The calls that `Storage` makes to the operating system.  A call may fail, and
then has no effect, or be interrupted; a write may be partial.  Reading does
not fail: the disks are sound.
-/

namespace FileServer.Storage

open FileServer.Files FileServer.Metadata FileServer.Transition

/-- The names in the directory: `.identity`, those that match `ID`, and those
of `mkstemp`. -/
inductive Name where
  | identity
  | chunk (cid : Ident)
  | temporary (serial : Nat)
  deriving DecidableEq

def Name.isChunk : Name → Bool
  | .chunk _ => true
  | _ => false

def Name.isTemporary : Name → Bool
  | .temporary _ => true
  | _ => false

abbrev Disk := Volume Name UInt8

namespace Disk

variable (disk : Disk)

def published (cid : Ident) : Option Bytes := contentOf disk.inodes disk.names (.chunk cid)

/-- The total size of the published chunks. -/
def used : Nat := bytesUnder Name.isChunk disk.inodes disk.names

/-- The directory with the sizes of the files. -/
def entries : List (Name × Nat) :=
  disk.names.rows.map fun entry =>
    (entry.1, (disk.inodes[entry.2]?.map Inode.content).elim 0 List.length)

/-- The sizes of the chunk files, as `put` adds them up. -/
theorem sum_entries :
    ((disk.entries.filter fun entry => entry.1.isChunk).map Prod.snd).sum = disk.used := by
  unfold entries used bytesUnder Relational.Table.sum
  induction disk.names.rows with
  | nil => rfl
  | cons entry rest inductionHypothesis =>
      rcases entry with ⟨name, file⟩
      simp only [List.map_cons, List.sum_cons, List.filter_cons]
      split
      · rw [List.map_cons, List.sum_cons, inductionHypothesis]
      · rw [inductionHypothesis, zero_add]

end Disk

inductive Call where
  | present (name : Name)
  | size (name : Name)
  | read (name : Name)
  | entries
  | mkstemp
  | create (name : Name)
  | write (file : Nat) (data : Bytes)
  | fsync (file : Nat)
  | close (file : Nat)
  | link (source target : Name)
  | unlink (name : Name)
  | syncdir

/-- An `OSError` is `none`; `unlink` answers whether the name was there, and
`mkstemp` with an open file and its name. -/
abbrev Call.Answer : Call → Type
  | .present _ => Bool
  | .size _ => Option Nat
  | .read _ => Option Bytes
  | .entries => List (Name × Nat)
  | .mkstemp => Option (Nat × Nat)
  | .create _ => Option Nat
  | .write _ _ => Option Nat
  | .fsync _ => Option Unit
  | .close _ => Option Unit
  | .link _ _ => Option Unit
  | .unlink _ => Option Bool
  | .syncdir => Option Unit

inductive Outcome where
  | done
  | fails
  | interrupted
  | wrote (count : Nat)
  | named (serial : Nat)
  deriving DecidableEq

/-- A call that does something or fails. -/
def Outcome.attempt {α : Type} (outcome : Outcome) (disk : Disk) (performed : Option (α × Disk)) :
    Option (Option α × Disk) :=
  match outcome with
  | .interrupted => none
  | .fails => some (none, disk)
  | _ => some (performed.elim (none, disk) fun result => (some result.1, result.2))

/-- What a call does.  A name of `mkstemp` that is taken is tried in vain. -/
def perform (outcome : Outcome) : (call : Call) → Disk → Option (call.Answer × Disk)
  | .present name, disk => some ((disk.names.get? name).isSome, disk)
  | .size name, disk =>
      some ((contentOf disk.inodes disk.names name).map List.length, disk)
  | .read name, disk => some (contentOf disk.inodes disk.names name, disk)
  | .entries, disk => some (disk.entries, disk)
  | .mkstemp, disk =>
      match outcome with
      | .fails => some (none, disk)
      | .named serial =>
          if disk.names.get? (.temporary serial) = none then
            some (some (disk.inodes.length, serial), disk.create (.temporary serial))
          else none
      | _ => none
  | .create name, disk =>
      outcome.attempt disk
        (if disk.names.get? name = none then some (disk.inodes.length, disk.create name) else none)
  | .write file data, disk =>
      match outcome with
      | .wrote count => some (some (min count data.length), disk.append file (data.take count))
      | _ => outcome.attempt disk (some (data.length, disk.append file data))
  | .fsync file, disk => outcome.attempt disk (some ((), disk.flush file))
  | .close _, disk => outcome.attempt disk (some ((), disk))
  | .link source target, disk =>
      outcome.attempt disk (match disk.names.get? source with
        | some file =>
            if disk.names.get? target = none then some ((), disk.link file target) else none
        | none => none)
  | .unlink name, disk =>
      outcome.attempt disk (if (disk.names.get? name).isSome then some (true, disk.unlink name)
        else some (false, disk))
  | .syncdir, disk => outcome.attempt disk (some ((), disk.sync))

/-- The process is gone, or the power with it: then a directory since the last
`syncdir` is found, and the files that were not synchronised with any content. -/
inductive Damage where
  | crash
  | power (directory : Nat) (contents : List Bytes)

def Disk.fail (disk : Disk) : Damage → Option Disk
  | .crash => some disk
  | .power directory contents =>
      (disk.directories[directory]?).bind fun names =>
        if disk.Survives contents then some (.recovered names contents) else none

/-- Exceptions: `Error` with a code of the metadata service, the two others of
`Storage`, `OSError`, and those for malformed values. -/
inductive Failure where
  | refused (error : Error)
  | shortWrite
  | otherNode
  | os
  | malformed
  deriving DecidableEq

abbrev Script := Program Call Call.Answer Failure

def check {α : Type} (result : Attempt α) : Script α := .done (result.mapError .refused)

def raise {α : Type} (failure : Failure) : Script α := .done (.error failure)

/-- The value of a call, or its `OSError`. -/
def valueOf {α : Type} : Option α → Except Failure α
  | some value => .ok value
  | none => .error .os

def present (name : Name) : Script Bool := .send (.present name) .ok
def size (name : Name) : Script Nat := .send (.size name) valueOf
def read (name : Name) : Script Bytes := .send (.read name) valueOf
def entries : Script (List (Name × Nat)) := .send .entries .ok
def mkstemp : Script (Nat × Nat) := .send .mkstemp valueOf
def create (name : Name) : Script Nat := .send (.create name) valueOf
def write (file : Nat) (data : Bytes) : Script Nat := .send (.write file data) valueOf
def fsync (file : Nat) : Script Unit := .send (.fsync file) valueOf
def close (file : Nat) : Script Unit := .send (.close file) valueOf
def link (source target : Name) : Script Unit := .send (.link source target) valueOf
def syncdir : Script Unit := .send .syncdir valueOf

/-- `path.unlink(missing_ok=True)`. -/
def unlinkAny (name : Name) : Script Unit :=
  .send (.unlink name) fun answer => (valueOf answer).map fun _ => ()

def unlink (name : Name) : Script Unit :=
  .send (.unlink name) fun answer => (valueOf answer).bind fun there =>
    if there then .ok () else .error .os

section Contracts

variable {effect : Disk → Disk → Prop} {disk : Disk}

theorem attempt_eq_some {α : Type} {outcome : Outcome} {performed : Option (α × Disk)}
    {answer : Option α} {after : Disk}
    (attempted : outcome.attempt disk performed = some (answer, after)) :
    (answer = none ∧ after = disk) ∨
      ∃ value, performed = some (value, after) ∧ answer = some value := by
  have either : some (performed.elim (none, disk) fun result => (some result.1, result.2)) =
      some (answer, after) →
      (answer = none ∧ after = disk) ∨
        ∃ value, performed = some (value, after) ∧ answer = some value := by
    intro same
    cases performed with
    | none =>
        cases same
        exact .inl ⟨rfl, rfl⟩
    | some result =>
        cases same
        exact .inr ⟨_, rfl, rfl⟩
  cases outcome with
  | interrupted => cases attempted
  | fails =>
      cases attempted
      exact .inl ⟨rfl, rfl⟩
  | done => exact either attempted
  | wrote count => exact either attempted
  | named serial => exact either attempted

theorem keeps_present {name : Name} {post : Except Failure Bool → Disk → Prop}
    (unchanged : effect disk disk) (held : post (.ok (disk.names.get? name).isSome) disk) :
    (present name).Keeps perform effect post disk := by
  intro outcome answer after performed
  cases performed
  exact ⟨unchanged, held⟩

theorem keeps_size {name : Name} {post : Except Failure Nat → Disk → Prop}
    (unchanged : effect disk disk)
    (held : post (valueOf ((contentOf disk.inodes disk.names name).map List.length)) disk) :
    (size name).Keeps perform effect post disk := by
  intro outcome answer after performed
  cases performed
  exact ⟨unchanged, held⟩

theorem keeps_read {name : Name} {post : Except Failure Bytes → Disk → Prop}
    (unchanged : effect disk disk)
    (held : post (valueOf (contentOf disk.inodes disk.names name)) disk) :
    (read name).Keeps perform effect post disk := by
  intro outcome answer after performed
  cases performed
  exact ⟨unchanged, held⟩

theorem keeps_entries {post : Except Failure (List (Name × Nat)) → Disk → Prop}
    (unchanged : effect disk disk) (held : post (.ok disk.entries) disk) :
    entries.Keeps perform effect post disk := by
  intro outcome answer after performed
  cases performed
  exact ⟨unchanged, held⟩

theorem keeps_mkstemp {post : Except Failure (Nat × Nat) → Disk → Prop}
    (failed : effect disk disk ∧ post (.error .os) disk)
    (made : ∀ serial, disk.names.get? (.temporary serial) = none →
      effect disk (disk.create (.temporary serial)) ∧
        post (.ok (disk.inodes.length, serial)) (disk.create (.temporary serial))) :
    mkstemp.Keeps perform effect post disk := by
  intro outcome answer after performed
  simp only [perform] at performed
  split at performed
  · cases performed
    exact failed
  next serial =>
    split at performed
    next absent =>
      cases performed
      exact made serial absent
    · cases performed
  · cases performed

theorem keeps_create {name : Name} {post : Except Failure Nat → Disk → Prop}
    (failed : effect disk disk ∧ post (.error .os) disk)
    (made : disk.names.get? name = none →
      effect disk (disk.create name) ∧ post (.ok disk.inodes.length) (disk.create name)) :
    (create name).Keeps perform effect post disk := by
  intro outcome answer after performed
  rcases attempt_eq_some performed with ⟨rfl, rfl⟩ | ⟨value, created, rfl⟩
  · exact failed
  · split at created
    next absent =>
      cases created
      exact made absent
    · cases created

theorem keeps_write {file : Nat} {data : Bytes} {post : Except Failure Nat → Disk → Prop}
    (failed : effect disk disk ∧ post (.error .os) disk)
    (wrote : ∀ count ≤ data.length, effect disk (disk.append file (data.take count)) ∧
      post (.ok count) (disk.append file (data.take count))) :
    (write file data).Keeps perform effect post disk := by
  intro outcome answer after performed
  have whole := wrote data.length le_rfl
  rw [List.take_length] at whole
  simp only [perform] at performed
  split at performed
  next count =>
    cases performed
    have taken := wrote (min count data.length) (min_le_right _ _)
    rw [← List.take_eq_take_min] at taken
    exact taken
  · rcases attempt_eq_some performed with ⟨rfl, rfl⟩ | ⟨value, written, rfl⟩
    · exact failed
    · cases written
      exact whole

theorem keeps_fsync {file : Nat} {post : Except Failure Unit → Disk → Prop}
    (failed : effect disk disk ∧ post (.error .os) disk)
    (flushed : effect disk (disk.flush file) ∧ post (.ok ()) (disk.flush file)) :
    (fsync file).Keeps perform effect post disk := by
  intro outcome answer after performed
  rcases attempt_eq_some performed with ⟨rfl, rfl⟩ | ⟨value, synced, rfl⟩
  · exact failed
  · cases synced
    exact flushed

theorem keeps_close {file : Nat} {post : Except Failure Unit → Disk → Prop}
    (unchanged : effect disk disk) (failed : post (.error .os) disk) (closed : post (.ok ()) disk) :
    (close file).Keeps perform effect post disk := by
  intro outcome answer after performed
  rcases attempt_eq_some performed with ⟨rfl, rfl⟩ | ⟨value, succeeded, rfl⟩
  · exact ⟨unchanged, failed⟩
  · cases succeeded
    exact ⟨unchanged, closed⟩

theorem keeps_syncdir {post : Except Failure Unit → Disk → Prop}
    (failed : effect disk disk ∧ post (.error .os) disk)
    (synced : effect disk disk.sync ∧ post (.ok ()) disk.sync) :
    syncdir.Keeps perform effect post disk := by
  intro outcome answer after performed
  rcases attempt_eq_some performed with ⟨rfl, rfl⟩ | ⟨value, succeeded, rfl⟩
  · exact failed
  · cases succeeded
    exact synced

theorem keeps_link {source target : Name} {file : Nat} {post : Except Failure Unit → Disk → Prop}
    (referred : disk.names.get? source = some file)
    (failed : effect disk disk ∧ post (.error .os) disk)
    (linked : disk.names.get? target = none →
      effect disk (disk.link file target) ∧ post (.ok ()) (disk.link file target)) :
    (link source target).Keeps perform effect post disk := by
  intro outcome answer after performed
  rcases attempt_eq_some performed with ⟨rfl, rfl⟩ | ⟨value, succeeded, rfl⟩
  · exact failed
  · rw [referred] at succeeded
    dsimp only at succeeded
    split at succeeded
    next absent =>
      cases succeeded
      exact linked absent
    · cases succeeded

theorem keeps_unlink {name : Name} {post : Except Failure Unit → Disk → Prop}
    (failed : effect disk disk ∧ post (.error .os) disk)
    (unlinked : effect disk (disk.unlink name) ∧ post (.ok ()) (disk.unlink name)) :
    (unlink name).Keeps perform effect post disk := by
  intro outcome answer after performed
  rcases attempt_eq_some performed with ⟨rfl, rfl⟩ | ⟨value, succeeded, rfl⟩
  · exact failed
  · split at succeeded
    · cases succeeded
      exact unlinked
    · cases succeeded
      exact failed

theorem keeps_unlinkAny {name : Name} {post : Except Failure Unit → Disk → Prop}
    (failed : effect disk disk ∧ post (.error .os) disk)
    (absent : disk.names.get? name = none → post (.ok ()) disk)
    (unlinked : effect disk (disk.unlink name) ∧ post (.ok ()) (disk.unlink name)) :
    (unlinkAny name).Keeps perform effect post disk := by
  intro outcome answer after performed
  rcases attempt_eq_some performed with ⟨rfl, rfl⟩ | ⟨value, succeeded, rfl⟩
  · exact failed
  · split at succeeded
    · cases succeeded
      exact unlinked
    next missing =>
      cases succeeded
      exact ⟨failed.1, absent (by simpa using missing)⟩

end Contracts

end FileServer.Storage

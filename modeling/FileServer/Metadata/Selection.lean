import FileServer.Metadata.Dispatch
import Mathlib.Data.Nat.Digits.Defs
import Mathlib.Data.Rat.Defs

/-!
# Commands named by JSON values

A request names an upload or an object by any JSON value, which `literal`
renders into the statement.  A text selects the row whose identifier it is; a
number selects every row whose identifier MySQL takes for that number.  The
commands here are those of `dispatch` with the rows selected in this way.
-/

namespace FileServer.Metadata

open FileServer.Relational FileServer.Transition

/-- A JSON value.  A text that is an identifier or a checksum is the one it
spells, `text` is any other text, and a `float` without a value is one of
`nan` and `inf`. -/
inductive Value where
  | null
  | bool (value : Bool)
  | int (value : Int)
  | float (value : Option Rat)
  | ident (id : Ident)
  | digest (sha : Sha)
  | text (value : String)
  | other
  deriving DecidableEq

def hexDigit (n : Nat) : Char :=
  if n < 10 then Char.ofNat (48 + n) else Char.ofNat (87 + n)

def hexText (width n : Nat) : String :=
  String.ofList ((List.range width).reverse.map fun place => hexDigit (n / 16 ^ place % 16))

namespace Value

/-- The value as a Python `str`. -/
def text? : Value → Option String
  | .ident id => some (hexText 32 id)
  | .digest sha => some (hexText 64 sha)
  | .text value => some value
  | _ => none

def ident? : Value → Option Ident
  | .ident id => some id
  | _ => none

def int? : Value → Option Int
  | .int value => some value
  | _ => none

/-- The value when it is a checksum of 64 hexadecimal digits. -/
def sha? : Value → Option Sha
  | .digest sha => some sha
  | _ => none

def number? : Value → Option Rat
  | .bool value => some (if value then 1 else 0)
  | .int value => some value
  | .float value => value
  | _ => none

end Value

/-- What MySQL decides: the identifiers a number equals, the identifier that a
text other than its digits equals under the collation of the column, the order
of rows that a statement does not sort, and whether it updates rows that it
compares with a number. -/
structure Engine where
  equals : Rat → Ident → Bool
  collates : String → Option Ident
  order : List Ident → List Ident
  order_perm : ∀ ids, (order ids).Perm ids
  updates : Rat → List Ident → Bool
  updates_of_subset : ∀ {number ids ids'}, ids' ⊆ ids → updates number ids = true →
    updates number ids' = true

/-- An engine in strict SQL mode, where such an update reaches only identifiers
that spell the number, and no two of these spell the same one. -/
structure StrictEngine extends Engine where
  alone : ∀ {number ids}, updates number ids = true → ∀ first ∈ ids, ∀ second ∈ ids,
    equals number first = true → equals number second = true → first = second

/-- The number at the start of an identifier's text, with its exponent. -/
def leadingNumber (id : Ident) : Rat :=
  let digits := (List.range 32).reverse.map fun place => id / 16 ^ place % 16
  let exponent := match digits.dropWhile (· < 10) with
    | 14 :: rest => rest.takeWhile (· < 10)
    | _ => []
  (Nat.ofDigits 10 (digits.takeWhile (· < 10)).reverse : Rat) *
    10 ^ Nat.ofDigits 10 exponent.reverse

/-- An engine that reads a table in the order of its rows. -/
def Engine.plain : Engine where
  equals number id := number = leadingNumber id
  collates _ := none
  order ids := ids
  order_perm _ := .refl _
  updates _ _ := true
  updates_of_subset _ _ := rfl

/-- The same engine when it refuses to update what it compares with a number. -/
def StrictEngine.plain : StrictEngine where
  toEngine := { Engine.plain with updates := fun _ _ => false, updates_of_subset := fun _ => id }
  alone refused := by cases refused

/-- The same engine when it reads a table in the order of its primary key. -/
def StrictEngine.sorted : StrictEngine where
  toEngine := { StrictEngine.plain.toEngine with
    order := fun ids => ids.insertionSort (· ≤ ·)
    order_perm := fun ids => ids.perm_insertionSort _ }
  alone refused := by cases refused

abbrev Selector := Ident → Bool

/-- The comparison of an identifier column with the literal of a value; a
literal that is no SQL fails the statement. -/
def Engine.selector (e : Engine) : Option Value → Attempt Selector
  | some (.bool value) => .ok (e.equals (if value then 1 else 0))
  | some (.int value) => .ok (e.equals value)
  | some (.float (some value)) => .ok (e.equals value)
  | some (.float none) => .error ⟨.internal, "internal service error"⟩
  | some (.ident id) => .ok fun other => other = id
  | some (.text value) => .ok fun other => e.collates value = some other
  | _ => .ok fun _ => false

/-- Whether an update of the rows that a key selects goes through. -/
def Engine.writes (e : Engine) (key : Option Value) (ids : List Ident) : Bool :=
  ((key.bind Value.number?).map fun number => e.updates number ids).getD true

/-- The commands of the services, and any other text. -/
inductive Cmd where
  | init | status | prepare | complete | cancel | manifest | locations | delete | badReplica
  | confirm | heartbeat | upload | download | other
  deriving DecidableEq

namespace Cmd

/-- The metadata commands that select uploads by `upload_id`. -/
def selectsUploads : Cmd → Bool
  | .status | .prepare | .complete | .cancel => true
  | _ => false

/-- The metadata commands that select objects by `object_id`. -/
def selectsObjects : Cmd → Bool
  | .manifest | .locations | .delete | .badReplica => true
  | _ => false

end Cmd

/-- The fields a user's request may carry. -/
structure Fields where
  uploadId : Option Value
  objectId : Option Value
  seq : Option Value
  sha256 : Option Value
  size : Option Value
  name : Option Value
  cursor : Option Value
  deriving DecidableEq

/-- A request to the metadata service; `chunk` and `node` are the fields
`chunk_id` and `node_id`, which only the gateway itself adds. -/
structure Internal where
  owner : String
  cmd : Cmd
  fields : Fields
  chunk : Option Ident
  node : Option NodeId
  deriving DecidableEq

def Internal.drawn (c : Config) (ident : Nat → Ident) (request : Internal) : List Ident :=
  match request.cmd with
  | .init => (Command.init ((request.fields.size.bind Value.int?).getD (-1))
      ((request.fields.name.bind Value.text?).getD "")).drawn c ident
  | _ => []

/-- The claims of a write authorization as they are signed, with the upload as
the request named it. -/
structure Ticket where
  upload : Option Value
  chunk : Ident
  length : Nat
  sha : Sha
  node : NodeId
  volume : Ident
  inst : Ident
  expires : Time
  deriving DecidableEq

structure Assigned where
  node : NodeId
  address : String
  authorization : Ticket
  deriving DecidableEq

/-- What the metadata service answers. -/
inductive Response where
  | reply (reply : Reply)
  | prepared (chunk : Ident) (length : Nat) (sha : Sha) (positions : List Assigned)
  | confirmed (bytes : Nat)
  deriving DecidableEq

namespace Database

variable (e : Engine) (c : Config) (now : Time) (db : Database) (sel : Selector)

def uploadsBy : List (Ident × UploadRow × ObjectRow) :=
  (e.order ((db.uploads.rows.filter fun entry => sel entry.1).map Prod.fst)).filterMap fun id =>
    (db.uploads.get? id).bind fun row =>
      (db.objects.get? row.object).map fun object => (id, row, object)

def objectsBy : List (Ident × ObjectRow) :=
  (e.order ((db.objects.rows.filter fun entry => sel entry.1).map Prod.fst)).filterMap fun id =>
    (db.objects.get? id).map fun object => (id, object)

/-- The chunks at one position of the uploads selected. -/
def chunksAtBy (seq : Int) : List (Ident × ChunkRow) :=
  (e.order ((db.chunks.rows.filter fun entry =>
    sel entry.2.upload ∧ (entry.2.seq : Int) = seq).map Prod.fst)).filterMap fun id =>
    (db.chunks.get? id).map fun chunk => (id, chunk)

/-- The chunks of the uploads selected, `ORDER BY seq`. -/
def chunksBy : List (Ident × ChunkRow) :=
  (db.chunks.rows.filter fun entry => sel entry.2.upload).insertionSort
    fun first second => first.2.seq ≤ second.2.seq

/-- The chunk that an upload or a position names. -/
def addressed (fields : Fields) : Option (Ident × ChunkRow) :=
  (e.selector fields.uploadId).toOption.bind fun sel =>
    (fields.seq.bind Value.int?).bind fun seq => (db.chunksAtBy e sel seq).head?

def activeBy (owner : String) : Attempt (UploadRow × ObjectRow) := do
  let (_, row, object) ← found (db.uploadsBy e sel).head? ⟨.notFound, "upload not found"⟩
  require (object.owner = owner) ⟨.forbidden, "object belongs to another user"⟩
  return (row, object)

def objectBy (owner : String) : Attempt (Ident × ObjectRow) := do
  let (oid, row) ← found (db.objectsBy e sel).head? ⟨.notFound, "object not found"⟩
  require (row.owner = owner) ⟨.forbidden, "object belongs to another user"⟩
  require (row.state ≠ .deleted) ⟨.deleted, "object deleted"⟩
  require (row.state = .published) ⟨.notPublished, "object not published"⟩
  return (oid, row)

def statusBy (owner : String) (cursor : Option Value) : Attempt Reply := do
  let (row, object) ← activeBy e db sel owner
  let cursor ← found ((cursor.getD (.int 0)).int?) ⟨.invalid, "invalid request"⟩
  require (0 ≤ cursor) ⟨.invalid, "invalid request"⟩
  let missing := (((db.chunksBy sel).filter fun entry =>
    entry.2.state ≠ .confirmed ∧ cursor ≤ entry.2.seq).map fun entry => entry.2.seq).take 257
  let confirmed := (((db.chunksBy sel).filter fun entry =>
    entry.2.state = .confirmed).map fun entry => entry.2.length).sum
  return .status row.object row.state row.expires confirmed object.chunkSize object.size
    (missing.take 256) (if 256 < missing.length then missing[255]?.map (· + 1) else none)

/-- The locations of a chunk that may be written, with tickets that name the
upload by the key of the request. -/
def positionsBy (cid : Ident) (upload : Option Value) (length : Nat) (sha : Sha) :
    Attempt (List Assigned) :=
  ((db.copies cid).filter fun entry =>
    entry.2.1.volume = entry.2.2.volume ∧
      (entry.2.1.state = .reserved ∨ entry.2.1.state = .valid)).mapM fun entry => do
    require (entry.2.2.Alive c now)
      ⟨.unavailable, "assigned node unavailable; retry after recovery"⟩
    pure ⟨entry.1, entry.2.2.address,
      ⟨upload, cid, length, sha, entry.1, entry.2.2.volume, entry.2.2.inst, now + c.authTtl⟩⟩

def prepareBy (owner : String) (upload seq sha : Option Value) :
    Attempt (Response × Database) := do
  let (row, object) ← activeBy e db sel owner
  require (row.state = .uploading ∧ now < row.expires) ⟨.expired, "upload not active"⟩
  let seq ← found (seq.bind Value.int?) ⟨.invalid, "invalid request"⟩
  require (0 ≤ seq) ⟨.invalid, "invalid request"⟩
  let sha ← found (sha.bind Value.sha?) ⟨.invalid, "invalid request"⟩
  let (cid, chunk) ← found (db.chunksAtBy e sel seq).head? ⟨.notFound, "chunk not found"⟩
  require (chunk.sha = none ∨ chunk.sha = some sha)
    ⟨.conflict, "checksum already fixed for this chunk"⟩
  let db := { db with chunks := db.chunks.modify cid fun row => { row with sha := some sha } }
  let located ← positionsBy c now db cid upload chunk.length sha
  require (located.length = object.replicas) ⟨.unavailable, "replica locations unavailable"⟩
  return (.prepared cid chunk.length sha located, db)

/-- The two updates that publish; the second concerns every upload selected. -/
def publishBy (oid : Ident) : Database :=
  { db with
    objects := db.objects.modify oid fun row =>
      if row.state = .staging then { row with state := .published } else row
    uploads := db.uploads.mapRows fun id row =>
      if sel id ∧ row.state = .uploading then { row with state := .completed } else row }

def completeBy (owner : String) (upload : Option Value) : Attempt (Reply × Database) := do
  let (row, object) ← activeBy e db sel owner
  if row.state = .completed ∧ object.state = .published then
    return (.published row.object, db)
  else
    require (row.state = .uploading ∧ now < row.expires) ⟨.expired, "upload not active"⟩
    let chunks := db.chunksBy sel
    require (chunks.length = chunkCount object.size object.chunkSize)
      ⟨.incomplete, "chunk count mismatch"⟩
    checkChunks db object 0 chunks
    require (e.writes upload (db.uploads.rows.map Prod.fst))
      ⟨.internal, "internal service error"⟩
    return (.published row.object, db.publishBy sel row.object)

def retireBy (upload : Option Value) (state : UploadState) : Attempt Database := do
  require (e.writes upload (db.uploads.rows.map Prod.fst)) ⟨.internal, "internal service error"⟩
  match (db.uploads.rows.filter fun entry => sel entry.1).map Prod.fst with
  | [] => return db
  | [upload] => return retire c now db upload state
  | _ => .error ⟨.internal, "internal service error"⟩

def cancelBy (owner : String) (upload : Option Value) : Attempt (Reply × Database) := do
  let (row, _) ← activeBy e db sel owner
  if row.state = .cancelled ∨ row.state = .expired then
    return (.upload row.state, db)
  else
    require (row.state = .uploading ∧ now < row.expires) ⟨.expired, "upload not active"⟩
    return (.upload .cancelled, ← retireBy e c now db sel upload .cancelled)

/-- The first upload of the objects selected. -/
def uploadOfBy : Option Ident :=
  (e.order ((db.uploads.rows.filter fun entry => sel entry.2.object).map Prod.fst)).head?

def deleteBy (owner : String) : Attempt (Reply × Database) := do
  let (_, row) ← found (db.objectsBy e sel).head? ⟨.notFound, "object not found"⟩
  require (row.owner = owner) ⟨.forbidden, "object belongs to another user"⟩
  if row.state = .deleted then
    return (.deleted, db)
  else
    let upload ← found (db.uploadOfBy e sel) ⟨.internal, "internal service error"⟩
    return (.deleted, retire c now db upload .cancelled)

/-- The object read is named by its own identifier from here on. -/
def manifestBy (owner : String) : Attempt Reply := do
  let (oid, _) ← objectBy e db sel owner
  manifest db owner oid

def locationsBy (owner : String) (seq : Option Value) : Attempt Reply := do
  let (oid, _) ← objectBy e db sel owner
  locations c now db owner oid ((seq.bind Value.int?).getD (-1))

def badReplicaBy (owner : String) (chunk : Option Ident) (node : Option NodeId) :
    Attempt (Reply × Database) := do
  let _ ← objectBy e db sel owner
  let cid ← found chunk ⟨.internal, "internal service error"⟩
  let nid ← found node ⟨.internal, "internal service error"⟩
  require (∃ chunk ∈ db.chunks.get? cid, ∃ upload ∈ db.uploads.get? chunk.upload,
      sel upload.object) ⟨.invalid, "unrelated chunk"⟩
  let db := db.modifyReplica cid nid fun row =>
    if row.state = .valid then { row with state := .bad } else row
  return (.accepted, enqueue now db .repair cid none 0)

/-- `dispatch` of a request, but for the two transactions of `confirm`. -/
def dispatchBy (ident : Nat → Ident) (request : Internal) : Attempt (Response × Database) := do
  match request.cmd with
  | .heartbeat => do
    require (∃ nid ∈ request.node, (c.nodes.lookup nid).isSome) ⟨.invalid, "unconfigured node"⟩
    .error ⟨.invalid, "invalid request"⟩
  | cmd => do
    require ((c.users.lookup request.owner).isSome) ⟨.auth, "unknown owner"⟩
    match cmd with
    | .init =>
        let (reply, db) ← init c now db request.owner
          ((request.fields.size.bind Value.int?).getD (-1))
          ((request.fields.name.bind Value.text?).getD "") ident
        return (.reply reply, db)
    | .status =>
        let sel ← e.selector request.fields.uploadId
        return (.reply (← statusBy e db sel request.owner request.fields.cursor), db)
    | .prepare =>
        let sel ← e.selector request.fields.uploadId
        prepareBy e c now db sel request.owner request.fields.uploadId request.fields.seq
          request.fields.sha256
    | .complete =>
        let sel ← e.selector request.fields.uploadId
        let (reply, db) ← completeBy e now db sel request.owner request.fields.uploadId
        return (.reply reply, db)
    | .cancel =>
        let sel ← e.selector request.fields.uploadId
        let (reply, db) ← cancelBy e c now db sel request.owner request.fields.uploadId
        return (.reply reply, db)
    | .manifest =>
        let sel ← e.selector request.fields.objectId
        return (.reply (← manifestBy e db sel request.owner), db)
    | .locations =>
        let sel ← e.selector request.fields.objectId
        return (.reply (← locationsBy e c now db sel request.owner request.fields.seq), db)
    | .delete =>
        let sel ← e.selector request.fields.objectId
        let (reply, db) ← deleteBy e c now db sel request.owner
        return (.reply reply, db)
    | .badReplica =>
        let sel ← e.selector request.fields.objectId
        let (reply, db) ← badReplicaBy e now db sel request.owner request.chunk request.node
        return (.reply reply, db)
    | _ => .error ⟨.invalid, "unknown metadata command"⟩

section Prepare

variable {e : Engine} {c : Config} {now : Time} {db db' : Database}

theorem prepareBy_ok {sel : Selector} {owner : String} {upload seq sha : Option Value}
    {response : Response}
    (prepared : prepareBy e c now db sel owner upload seq sha = .ok (response, db')) :
    ∃ position checksum cid chunk located, seq.bind Value.int? = some position ∧
      sha.bind Value.sha? = some checksum ∧
      (db.chunksAtBy e sel position).head? = some (cid, chunk) ∧
      (chunk.sha = none ∨ chunk.sha = some checksum) ∧
      response = .prepared cid chunk.length checksum located ∧
      db' = { db with
        chunks := db.chunks.modify cid fun row => { row with sha := some checksum } } := by
  simp only [prepareBy, bind_eq_ok, require_eq_ok, found_eq_ok, pure_eq_ok, Prod.mk.injEq] at prepared
  obtain ⟨⟨row, object⟩, _, _, _, position, sequence, _, _, checksum, given, ⟨cid, chunk⟩, chosen,
    _, free, located, _, _, _, rfl, rfl⟩ := prepared
  exact ⟨position, checksum, cid, chunk, located, sequence, given, chosen, free, rfl, rfl⟩

theorem chunksAtBy_stored {sel : Selector} {seq : Int} {cid : Ident} {chunk : ChunkRow}
    (chosen : (db.chunksAtBy e sel seq).head? = some (cid, chunk)) :
    db.chunks.get? cid = some chunk := by
  have membership := List.mem_of_mem_head? chosen
  simp only [chunksAtBy, List.mem_filterMap, Option.map_eq_some_iff] at membership
  obtain ⟨id, _, row, stored, equality⟩ := membership
  cases equality
  exact stored

theorem fixed_eq_iff {cid : Ident} {chunk : ChunkRow} {sha : Sha}
    (stored : db.chunks.get? cid = some chunk) (free : chunk.sha = none ∨ chunk.sha = some sha) :
    { db with chunks := db.chunks.modify cid fun row => { row with sha := some sha } } = db ↔
      chunk.sha ≠ none := by
  constructor
  · intro same fresh
    have after := congrArg (fun tables : Database => (tables.chunks.get? cid).map ChunkRow.sha) same
    simp [stored, fresh] at after
  · intro taken
    have kept : db.chunks.modify cid (fun row => { row with sha := some sha }) = db.chunks := by
      apply Table.modify_eq_self
      intro row located
      obtain rfl := Option.some.inj (stored.symm.trans located)
      rw [← free.resolve_left taken]
    rw [kept]

end Prepare

end Database

end FileServer.Metadata

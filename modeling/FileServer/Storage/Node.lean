import FileServer.Metadata.Selection

/-!
# A storage node

The chunk files of one node and the commands of `Storage.dispatch`, each of
them one step under the node's locks.  The service credential and the code of
an authorization have been checked.
-/

namespace FileServer.Storage

open FileServer.Metadata FileServer.Relational FileServer.Transition

abbrev Bytes := List UInt8

/-- A running process with the directory it serves. -/
structure Node where
  nodeId : NodeId
  volume : Ident
  inst : Ident
  capacity : Nat
  files : Table Ident Bytes

namespace Node

variable (digest : Bytes → Sha) (node : Node)

def used : Nat := node.files.sum fun _ content => content.length

def checkTarget (now : Time) (cid : Ident) (ticket : Ticket) : Attempt Unit := do
  require (now ≤ ticket.expires) ⟨.expired, "authorization expired"⟩
  require (ticket.node = node.nodeId ∧ ticket.chunk = cid ∧ ticket.volume = node.volume ∧
    ticket.inst = node.inst) ⟨.auth, "wrong write target"⟩
  let upload ← found ticket.upload ⟨.internal, "internal service error"⟩
  require upload.text?.isSome ⟨.internal, "internal service error"⟩
  require upload.ident?.isSome ⟨.auth, "wrong write target"⟩

/-- `put`: the file is published whole, or found to be there already. -/
def put (now : Time) (cid : Ident) (ticket : Ticket) (data : Bytes) : Attempt Node := do
  checkTarget node now cid ticket
  require (data.length = ticket.length ∧ digest data = ticket.sha)
    ⟨.checksum, "content mismatch"⟩
  match node.files.get? cid with
  | some existing => do
      require (existing.length = data.length) ⟨.conflict, "immutable chunk length conflict"⟩
      require (digest existing = ticket.sha) ⟨.conflict, "immutable chunk conflict"⟩
      return node
  | none => do
      require (node.used + data.length ≤ node.capacity) ⟨.capacity, "node full"⟩
      return { node with files := node.files.upsert cid data fun _ => data }

theorem put_ok {now : Time} {cid : Ident} {ticket : Ticket} {data : Bytes} {node' : Node}
    (accepted : node.put digest now cid ticket data = .ok node') :
    node.checkTarget now cid ticket = .ok ⟨⟩ ∧ data.length = ticket.length ∧
      digest data = ticket.sha ∧
      ((∃ existing, node.files.get? cid = some existing ∧ node' = node) ∨
        node.files.get? cid = none ∧ node.used + data.length ≤ node.capacity ∧
          node' = { node with files := node.files.upsert cid data fun _ => data }) := by
  simp only [put, bind_eq_ok, require_eq_ok] at accepted
  obtain ⟨_, checked, _, ⟨sized, matched⟩, published⟩ := accepted
  refine ⟨checked, sized, matched, ?_⟩
  split at published
  · next existing present =>
      simp only [bind_eq_ok, require_eq_ok, pure_eq_ok] at published
      obtain ⟨_, _, _, _, rfl⟩ := published
      exact .inl ⟨existing, present, rfl⟩
  · next absent =>
      simp only [bind_eq_ok, require_eq_ok, pure_eq_ok] at published
      obtain ⟨_, fits, rfl⟩ := published
      exact .inr ⟨absent, fits, rfl⟩

def Intact (copy : Option Bytes) (length : Nat) (sha : Option Sha) : Prop :=
  ∃ content ∈ copy, content.length = length ∧ sha = some (digest content)

instance (copy : Option Bytes) (length : Nat) (sha : Option Sha) :
    Decidable (Intact digest copy length sha) :=
  match copy with
  | none => isFalse (by simp [Intact])
  | some content =>
      decidable_of_iff (content.length = length ∧ sha = some (digest content)) (by simp [Intact])

/-- `get`; `stat` is the same without the content. -/
def read (copy : Option Bytes) (length : Nat) (sha : Option Sha) : Attempt Bytes := do
  let content ← found copy ⟨.missing, "chunk absent"⟩
  require (content.length ≤ 4 * 1024 * 1024) ⟨.corrupt, "oversized chunk"⟩
  require (content.length = length ∧ sha = some (digest content))
    ⟨.corrupt, "chunk checksum mismatch"⟩
  return content

theorem read_eq_ok {copy : Option Bytes} {length : Nat} {sha : Option Sha} {content : Bytes} :
    read digest copy length sha = .ok content ↔
      copy = some content ∧ content.length ≤ 4 * 1024 * 1024 ∧ content.length = length ∧
        sha = some (digest content) := by
  simp only [read, bind_eq_ok, found_eq_ok, require_eq_ok, pure_eq_ok]
  constructor
  · rintro ⟨_, stored, _, fits, _, ⟨sized, matched⟩, rfl⟩
    exact ⟨stored, fits, sized, matched⟩
  · rintro ⟨stored, fits, sized, matched⟩
    exact ⟨content, stored, ⟨⟩, fits, ⟨⟩, ⟨sized, matched⟩, rfl⟩

def remove (cid inst volume : Ident) : Attempt Node := do
  require (inst = node.inst ∧ volume = node.volume) ⟨.stale, "delete target changed"⟩
  return { node with files := node.files.erase cid }

theorem remove_ok {cid inst volume : Ident} {node' : Node} :
    node.remove cid inst volume = .ok node' ↔ (inst = node.inst ∧ volume = node.volume) ∧
      node' = { node with files := node.files.erase cid } := by
  simp only [remove, bind_eq_ok, require_eq_ok, pure_eq_ok, exists_const, @eq_comm _ node']

/-- `inventory`: the next 256 chunk files by name, and whether there are more. -/
def inventory (cursor : Option Ident) : List Ident × Bool :=
  let names := ((node.files.rows.map Prod.fst).filter fun id =>
    ∀ last ∈ cursor, last < id).insertionSort (· ≤ ·)
  (names.take 256, 256 < names.length)

end Node

end FileServer.Storage

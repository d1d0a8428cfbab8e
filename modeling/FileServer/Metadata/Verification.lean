import FileServer.Metadata.Epochs

/-!
# Valid copies are verified

A `confirm`, a repair and the reconciliation read the registration of a node,
ask it for a chunk outside any transaction and publish the answer later.  The
retired instances rule out that a registration read earlier was replaced and
came back, so whatever is published was asked under the registration that the
node still has.
-/

namespace FileServer.Metadata

open FileServer.Relational FileServer.Transition

/-- A chunk asked of a node, under the registration that was read. -/
structure Target where
  chunk : Ident
  node : NodeId
  inst : Ident
  volume : Ident
  deriving DecidableEq

/-- The operations that publish a copy after asking its node. -/
inductive Verifier where
  | confirm (i : Nat)
  | worker (w : Nat)
  | reconcile
  deriving DecidableEq

def Confirming.target (op : Confirming) (position : Position) : Target :=
  ⟨op.chunk, position.node, position.authorization.inst, position.authorization.volume⟩

/-- The locations whose `stat` has succeeded. -/
def Confirming.answered (op : Confirming) : List Position :=
  op.positions.take (op.positions.length - op.left.length)

def Repair.asked (repair : Repair) (cid : Ident) : Target :=
  ⟨cid, repair.target, repair.inst, repair.volume⟩

def Check.target (check : Check) (view : NodeView) : Target :=
  ⟨check.chunk, view.node, view.inst, view.volume⟩

namespace Verifier

/-- The action that issues the `stat`. -/
def ask : Verifier → Action
  | .confirm i => .confirmAsk i
  | .worker w => .sendStat w
  | .reconcile => .checkAsk

def answer : Verifier → Action
  | .confirm i => .confirmStat i
  | .worker w => .statDone w
  | .reconcile => .checkAnswer true

/-- The second transaction. -/
def commit (c : Config) : Verifier → Action
  | .confirm i => .confirmCommit i c
  | .worker w => .commit w c
  | .reconcile => .reverify

/-- The target whose `stat` is out. -/
def asking (σ : State) : Verifier → Option Target
  | .confirm i =>
      match σ.confirms i with
      | some op => if op.asked then op.left.head?.map op.target else none
      | none => none
  | .worker w =>
      match σ.workers w with
      | .checking job repair => some (repair.asked job.task.chunk)
      | _ => none
  | .reconcile =>
      match σ.maintenance with
      | .asking view check _ _ => some (check.target view)
      | _ => none

/-- The targets whose `stat` has succeeded. -/
def verified (σ : State) : Verifier → List Target
  | .confirm i =>
      match σ.confirms i with
      | some op => op.answered.map op.target
      | none => []
  | .worker w =>
      match σ.workers w with
      | .verified job repair => [repair.asked job.task.chunk]
      | _ => []
  | .reconcile =>
      match σ.maintenance with
      | .judged view check true _ _ => [check.target view]
      | _ => []

end Verifier

namespace Database

def Registered (db : Database) (target : Target) : Prop :=
  ∃ node, db.nodes.get? target.node = some node ∧ node.inst = target.inst ∧
    node.volume = target.volume

theorem Registered.unique {db : Database} {first second : Target} (registered : db.Registered first)
    (registered' : db.Registered second) (chunk : first.chunk = second.chunk)
    (node : first.node = second.node) : first = second := by
  obtain ⟨row, stored, inst, volume⟩ := registered
  obtain ⟨row', stored', inst', volume'⟩ := registered'
  rw [← node, stored, Option.some.injEq] at stored'
  subst row'
  cases first
  cases second
  simp_all

def Valid (db : Database) (cid : Ident) (nid : NodeId) : Prop :=
  ∃ row, db.replicas.get? (cid, nid) = some row ∧ row.state = .valid

end Database

/-- The `stat` is out and was issued under the present registration. -/
def Asked (v : Verifier) (target : Target) : List (Event State Action) → Prop :=
  Since (fun event => event.before.db.Registered target ∧ v.asking event.after = some target)
    (fun event => event.action = v.ask ∧ event.before.db.Registered target ∧
      v.asking event.after = some target)
    fun _ => True

/-- A `stat` issued under the present registration has succeeded. -/
def Answered (v : Verifier) (target : Target) : List (Event State Action) → Prop :=
  Since (fun event => event.before.db.Registered target ∧ target ∈ v.verified event.after)
    (fun event => event.action = v.answer ∧ event.before.db.Registered target ∧
      v.asking event.before = some target ∧ target ∈ v.verified event.after)
    (Asked v target)

/-- The copy became valid by the second transaction of an operation whose
`stat`, issued under the present registration, had succeeded; it has been valid
under this registration since. -/
def Owed (v : Verifier) (target : Target) : List (Event State Action) → Prop :=
  Since (fun event => event.before.db.Registered target ∧
      event.after.db.Valid target.chunk target.node)
    (fun event => (∃ c, event.action = v.commit c) ∧ event.before.db.Registered target ∧
      target ∈ v.verified event.before ∧ ¬event.before.db.Valid target.chunk target.node ∧
      event.after.db.Valid target.chunk target.node)
    (Answered v target)

/-- A heartbeat comes from the process of its instance, which serves one node
and one volume. -/
def Hosted (hosts : Ident → NodeId × Ident) (event : Event State Action) : Prop :=
  ∀ i c nid inst volume capacity free,
    event.action = .beat i c nid inst volume capacity free → hosts inst = (nid, volume)

/-- What is known of processes was reported by them. -/
structure Hosting (hosts : Ident → NodeId × Ident) (σ : State) : Prop where
  beats : ∀ i beat, σ.beats i = some beat → hosts beat.inst = (beat.node, beat.volume)
  nodes : ∀ nid node, σ.db.nodes.get? nid = some node → hosts node.inst = (nid, node.volume)
  confirms : ∀ i op, σ.confirms i = some op → op.left <:+ op.positions ∧
    ∀ position ∈ op.positions, hosts position.authorization.inst =
      (position.node, position.authorization.volume)

theorem Confirming.answered_eq (op : Confirming) {done : List Position}
    (split : done ++ op.left = op.positions) : op.answered = done := by
  simp [answered, ← split]

section Identities

variable {focus : Focus} {drawn : List Ident} {db db' : Database} {hosts : Ident → NodeId × Ident}

theorem Steps.registered (steps : Steps focus drawn db db') {target : Target}
    (registered : db.Registered target) (other : focus ≠ .register target.node) :
    db'.Registered target := by
  obtain ⟨node, stored, inst, volume⟩ := registered
  have related := steps.sameNode other
  rw [stored] at related
  cases located : db'.nodes.get? target.node with
  | none => simp [located] at related
  | some node' =>
      rw [located, Option.rel_some_some] at related
      exact ⟨node', located, related.inst.trans inst, related.volume.trans volume⟩

/-- A copy turns valid in the second transaction of a `confirm` or a repair,
or by the verdict of the reconciliation. -/
theorem Steps.valid (steps : Steps focus drawn db db') {cid : Ident} {nid : NodeId}
    (valid : db'.Valid cid nid) :
    db.Valid cid nid ∨ focus.Settles cid nid ∨ focus = .verdict cid nid true := by
  induction steps with
  | refl => exact .inl valid
  | @tail middle next _ moves inductionHypothesis =>
      obtain ⟨row, stored, state⟩ := valid
      have move := moves.rowOrigin stored
      generalize before : middle.replicas.get? (cid, nid) = old at move
      cases move with
      | keep => exact inductionHypothesis ⟨row, before, state⟩
      | settle old owner => exact .inr (.inl owner)
      | refund old => exact inductionHypothesis ⟨old, before, state⟩
      | verdict old volume state' charged judgement owner unverified judged =>
          rcases judged with ⟨rfl, _⟩ | ⟨rfl, _⟩
          · exact .inr (.inr owner)
          · simp at state
      | remount old volume owner reserved => simp [reserved] at state
      | retire old => by_cases gone : old.state = .gone <;> simp [gone] at state
      | reserve | mark | unverify | delete | vanish | discard => simp at state

end Identities

section Steps

variable {σ σ' : State} {action : Action} {hosts : Ident → NodeId × Ident}

/-- A heartbeat that waits to be registered has waited or has been received. -/
theorem Happens.beats (happens : Happens σ action σ') {i : Nat} {beat : Beat}
    (stored : σ'.beats i = some beat) : σ.beats i = some beat ∨
      ∃ c capacity free, action = .beat i c beat.node beat.inst beat.volume capacity free := by
  have dropped : ∀ j, Function.update σ.beats j none i = some beat → σ.beats i = some beat := by
    intro j stored
    by_cases same : i = j
    · simp [same] at stored
    · rwa [Function.update_of_ne same] at stored
  cases happens with
  | beat j c nid inst volume capacity free reported absent accepted =>
      by_cases same : i = j
      · simp only [same, Function.update_self, Option.some.injEq] at stored
        subst stored
        simp only [heartbeat, bind_eq_ok, found_eq_ok, require_eq_ok, pure_eq_ok] at accepted
        obtain ⟨_, _, _, _, rfl⟩ := accepted
        exact .inr ⟨c, capacity, free, same ▸ rfl⟩
      · simp only [Function.update_of_ne same] at stored
        exact .inl stored
  | register j | reject j | dropBeat j => exact .inl (dropped j stored)
  | tick | request | requestBy | refuse | confirm | worker | maintenance => exact .inl stored

theorem node_reported (reached : Reachable metadata σ)
    (stepped : metadata.step σ action = some σ') {nid : NodeId} {node : NodeRow}
    (stored : σ'.db.nodes.get? nid = some node) :
    (∃ old, σ.db.nodes.get? nid = some old ∧ node.inst = old.inst ∧ node.volume = old.volume) ∨
      ∃ i beat, σ.beats i = some beat ∧ beat.node = nid ∧ node.inst = beat.inst ∧
        node.volume = beat.volume := by
  obtain ⟨focus, focuses, _, _, effect⟩ := reachable_effect reached stepped
  by_cases same : focus = .register nid
  · subst same
    obtain ⟨i, c, beat, _, present, rfl, registration⟩ := focuses.registration stepped
    obtain rfl := Option.some.inj (registration.stored.symm.trans stored)
    exact .inr ⟨i, beat, present, rfl, rfl, rfl⟩
  · have related := effect.steps.sameNode same
    rw [stored] at related
    cases before : σ.db.nodes.get? nid with
    | none => simp [before] at related
    | some old =>
        rw [before, Option.rel_some_some] at related
        exact .inl ⟨old, rfl, related.inst, related.volume⟩

theorem Hosting.initial : Hosting hosts State.initial where
  beats := by simp [State.initial]
  nodes := by simp [State.initial, Database.empty]
  confirms := by simp [State.initial]

theorem Hosting.beatsStep (hosting : Hosting hosts σ) (happens : Happens σ action σ')
    (hosted : Hosted hosts ⟨σ, action, σ'⟩) (i : Nat) (beat : Beat)
    (stored : σ'.beats i = some beat) : hosts beat.inst = (beat.node, beat.volume) := by
  rcases happens.beats stored with before | ⟨c, capacity, free, received⟩
  · exact hosting.beats i beat before
  · exact hosted i c _ _ _ capacity free received

theorem Hosting.nodesStep (hosting : Hosting hosts σ) (reached : Reachable metadata σ)
    (stepped : metadata.step σ action = some σ') (nid : NodeId) (node : NodeRow)
    (stored : σ'.db.nodes.get? nid = some node) : hosts node.inst = (nid, node.volume) := by
  rcases node_reported reached stepped stored with
    ⟨old, before, inst, volume⟩ | ⟨i, beat, received, rfl, inst, volume⟩
  · rw [inst, volume]
    exact hosting.nodes nid old before
  · rw [inst, volume]
    exact hosting.beats i beat received

theorem Hosting.confirmsStep (hosting : Hosting hosts σ) (happens : Happens σ action σ') (i : Nat)
    (op : Confirming) (stored : σ'.confirms i = some op) : op.left <:+ op.positions ∧
      ∀ position ∈ op.positions, hosts position.authorization.inst =
        (position.node, position.authorization.volume) := by
  rcases happens.confirms i with same | move
  · exact hosting.confirms i op (same ▸ stored)
  · rw [stored] at move
    generalize σ'.db = db at move
    cases move with
    | begin c upload owner seq _ absent begun =>
        obtain ⟨_, _, _, _, _, _, _, _, _, _, placed, _, shape⟩ := Database.confirmBegin_ok begun
        refine ⟨by rw [shape], fun position membership => ?_⟩
        rw [← (Database.positions_ok.mp placed).2] at membership
        obtain ⟨⟨nid, replica, node⟩, inRows, rfl⟩ := List.mem_map.mp membership
        exact hosting.nodes nid node (σ.db.mem_writable.mp inRows).2.1
    | ask old present => exact hosting.confirms i old present
    | stat old present =>
        obtain ⟨suffix, known⟩ := hosting.confirms i old present
        exact ⟨(List.tail_suffix old.left).trans suffix, known⟩

theorem Hosting.step (hosting : Hosting hosts σ) (reached : Reachable metadata σ)
    (stepped : metadata.step σ action = some σ') (hosted : Hosted hosts ⟨σ, action, σ'⟩) :
    Hosting hosts σ' where
  beats := hosting.beatsStep (happens stepped) hosted
  nodes := hosting.nodesStep reached stepped
  confirms := hosting.confirmsStep (happens stepped)

/-- Whoever is asked was registered when the operation began. -/
theorem Verifier.asking_seen (invariant : σ.Invariant) (hosting : Hosting hosts σ) {v : Verifier}
    {target : Target} (asking : v.asking σ = some target) :
    σ.db.Seen target.node target.inst := by
  cases v with
  | confirm i =>
      simp only [Verifier.asking] at asking
      split at asking
      · next op present =>
          split at asking
          · obtain ⟨position, first, rfl⟩ := Option.map_eq_some_iff.mp asking
            exact (invariant.confirms i op present).seen position
              ((hosting.confirms i op present).1.subset (List.mem_of_mem_head? first))
          · cases asking
      · cases asking
  | worker w =>
      simp only [Verifier.asking] at asking
      split at asking
      · next job repair checking =>
          cases asking
          exact ((invariant.workers w).repair job repair (by rw [checking]; rfl)).2.seen
      · cases asking
  | reconcile =>
      simp only [Verifier.asking] at asking
      split at asking
      · next view check left views here =>
          cases asking
          exact invariant.maintenance.views view (by simp [here, Maintenance.views])
      · cases asking

theorem Verifier.verified_seen (invariant : σ.Invariant) {v : Verifier} {target : Target}
    (verified : target ∈ v.verified σ) : σ.db.Seen target.node target.inst := by
  cases v with
  | confirm i =>
      simp only [Verifier.verified] at verified
      split at verified
      · next op present =>
          obtain ⟨position, membership, rfl⟩ := List.mem_map.mp verified
          exact (invariant.confirms i op present).seen position (List.mem_of_mem_take membership)
      · cases verified
  | worker w =>
      simp only [Verifier.verified] at verified
      split at verified
      · next job repair checked =>
          obtain rfl := List.mem_singleton.mp verified
          exact ((invariant.workers w).repair job repair (by rw [checked]; rfl)).2.seen
      · cases verified
  | reconcile =>
      simp only [Verifier.verified] at verified
      split at verified
      · next view check left views here =>
          obtain rfl := List.mem_singleton.mp verified
          exact invariant.maintenance.views view (by simp [here, Maintenance.views])
      · cases verified

/-- A `stat` that is out was out before or has just been issued. -/
theorem Verifier.asking_step (happens : Happens σ action σ') {v : Verifier} {target : Target}
    (asking : v.asking σ' = some target) :
    v.asking σ = some target ∨ action = v.ask ∧ σ'.db = σ.db := by
  cases v with
  | confirm i =>
      rcases happens.confirms i with same | move
      · exact .inl (by simpa only [Verifier.asking, same] using asking)
      · simp only [Verifier.asking] at asking
        generalize σ'.confirms i = new at asking move
        generalize σ'.db = db at move ⊢
        cases move with
        | begin c upload owner seq op absent begun =>
            obtain ⟨_, _, _, _, _, _, _, _, _, _, _, _, shape⟩ := Database.confirmBegin_ok begun
            have silent : op.asked = false := by rw [shape]
            simp [silent] at asking
        | ask op present => exact .inr ⟨rfl, rfl⟩
        | stat op present => simp at asking
        | refuse | commit | abort | drop => simp at asking
  | worker w =>
      rcases happens.workers w with same | move
      · exact .inl (by simpa only [Verifier.asking, same] using asking)
      · simp only [Verifier.asking] at asking
        generalize σ'.workers w = new at asking move
        generalize σ'.db = db at move ⊢
        generalize σ.workers w = old at move
        cases move with
        | sendStat job repair => exact .inr ⟨rfl, rfl⟩
        | _ => cases asking
  | reconcile =>
      rcases happens.maintenanceThread with same | move
      · exact .inl (by simpa only [Verifier.asking, same] using asking)
      · simp only [Verifier.asking] at asking
        generalize σ'.maintenance = new at asking move
        generalize σ'.db = db at move ⊢
        generalize σ.maintenance = old at move
        cases move with
        | ask view check left views => exact .inr ⟨rfl, rfl⟩
        | _ => cases asking

/-- A success was known before or is the answer to the `stat` that was out. -/
theorem Verifier.verified_step (happens : Happens σ action σ') (hosting : Hosting hosts σ)
    {v : Verifier} {target : Target} (verified : target ∈ v.verified σ') :
    target ∈ v.verified σ ∨
      action = v.answer ∧ v.asking σ = some target ∧ σ'.db = σ.db := by
  cases v with
  | confirm i =>
      rcases happens.confirms i with same | move
      · exact .inl (by simpa only [Verifier.verified, same] using verified)
      · simp only [Verifier.verified, Verifier.asking] at verified ⊢
        generalize σ'.confirms i = new at verified move
        generalize σ'.db = db at move ⊢
        cases move with
        | begin c upload owner seq op absent begun =>
            obtain ⟨_, _, _, _, _, _, _, _, _, _, _, _, shape⟩ := Database.confirmBegin_ok begun
            have unanswered : op.answered = [] := op.answered_eq (by rw [shape, List.nil_append])
            simp [unanswered] at verified
        | ask op present =>
            simp only [present]
            exact .inl verified
        | stat op present asked =>
            simp only [present, asked, if_true]
            obtain ⟨done, split⟩ := (hosting.confirms i op present).1
            rw [op.answered_eq split]
            cases left : op.left with
            | nil =>
                rw [left] at split
                simp only [left, List.tail_nil] at verified
                rw [Confirming.answered_eq _ split] at verified
                exact .inl verified
            | cons position rest =>
                rw [left, List.append_cons] at split
                simp only [left, List.tail_cons] at verified
                rw [Confirming.answered_eq _ split, List.map_append, List.mem_append] at verified
                rcases verified with before | new
                · exact .inl before
                · exact .inr ⟨rfl, congrArg some (List.mem_singleton.mp new).symm, trivial⟩
        | refuse | commit | abort | drop => simp at verified
  | worker w =>
      rcases happens.workers w with same | move
      · exact .inl (by simpa only [Verifier.verified, same] using verified)
      · simp only [Verifier.verified, Verifier.asking] at verified ⊢
        generalize σ'.workers w = new at verified move
        generalize σ'.db = db at move ⊢
        generalize σ.workers w = old at move ⊢
        cases move with
        | statDone job repair =>
            exact .inr ⟨rfl, congrArg some (List.mem_singleton.mp verified).symm, rfl⟩
        | _ => cases verified
  | reconcile =>
      rcases happens.maintenanceThread with same | move
      · exact .inl (by simpa only [Verifier.verified, same] using verified)
      · simp only [Verifier.verified, Verifier.asking] at verified ⊢
        generalize σ'.maintenance = new at verified move
        generalize σ'.db = db at move ⊢
        generalize σ.maintenance = old at move ⊢
        cases move with
        | answer view check left views valid =>
            cases valid with
            | false => cases verified
            | true => exact .inr ⟨rfl, congrArg some (List.mem_singleton.mp verified).symm, rfl⟩
        | _ => cases verified

theorem Database.confirmLoop_valid {db db' : Database} {cid : Ident} {length : Nat}
    {positions : List Position}
    (executed : positions.foldlM (Database.confirmReplica cid length) db = .ok db') {nid : NodeId}
    {row : ReplicaRow} (stored : db'.replicas.get? (cid, nid) = some row)
    (valid : row.state = .valid) : ∃ old, db.replicas.get? (cid, nid) = some old ∧
      (old.state = .reserved ∨ old.state = .valid) := by
  refine foldlM_invariant (fun middle : Database => ∀ row,
    middle.replicas.get? (cid, nid) = some row → row.state = .reserved ∨ row.state = .valid →
      ∃ old, db.replicas.get? (cid, nid) = some old ∧
        (old.state = .reserved ∨ old.state = .valid)) _ positions ?_ executed
    (fun row stored written => ⟨row, stored, written⟩) row stored (.inr valid)
  intro middle position next _ earlier body row stored written
  obtain ⟨old, present, rfl⟩ := Database.confirmReplica_ok body
  split at stored
  · next reserved =>
      rw [Database.settle_eq] at stored
      by_cases same : nid = position.node
      · exact same ▸ earlier old (same ▸ present) (.inl reserved)
      · refine earlier row ?_ written
        simpa [Table.get?_modify, same] using stored
  · exact earlier row stored written

/-- A `confirm` publishes copies on the nodes it asked. -/
theorem Hosting.confirmCommit (hosting : Hosting hosts σ) (consistent : Consistent σ.db) {i : Nat} {c : Config}
    {op : Confirming} {bytes : Nat} {db : Database} (present : σ.confirms i = some op)
    (finished : op.left = []) (committed : σ.db.confirmCommit c σ.now op = .ok (bytes, db))
    {nid : NodeId} (after : db.Valid op.chunk nid) :
    ∃ target, target.chunk = op.chunk ∧ target.node = nid ∧ σ.db.Registered target ∧
      target ∈ (Verifier.confirm i).verified σ := by
  obtain ⟨_, _, settled, _, _, _, _, _, same, executed, rfl⟩ := Database.confirmCommit_ok committed
  obtain ⟨row, stored, valid⟩ := after
  obtain ⟨old, before, written⟩ := Database.confirmLoop_valid executed stored valid
  obtain ⟨node, located⟩ := consistent.replicaNode _ _ old before
  have listed := σ.db.mem_writable.mpr ⟨before, located,
    consistent.mounted _ _ old node before located written, written⟩
  have known : node.inst ∈ op.positions.map fun position => position.authorization.inst := by
    rw [← same]
    exact List.mem_map.mpr ⟨_, listed, rfl⟩
  obtain ⟨position, membership, inst⟩ := List.mem_map.mp known
  have hosted := (hosting.confirms i op present).2 position membership
  rw [inst, hosting.nodes nid node located, Prod.mk.injEq] at hosted
  obtain ⟨rfl, volume⟩ := hosted
  refine ⟨op.target position, rfl, rfl, ⟨node, located, inst.symm, volume⟩, ?_⟩
  have all : op.answered = op.positions := op.answered_eq (by rw [finished, List.append_nil])
  simp only [Verifier.verified, present, all]
  exact List.mem_map_of_mem membership

/-- A verdict publishes the copy that was asked for. -/
theorem Database.reverify_valid {db db' : Database} {view : NodeView} {check : Check} {valid : Bool}
    (judged : db.reverify view check valid = .ok db')
    (before : ¬db.Valid check.chunk view.node) (after : db'.Valid check.chunk view.node) :
    db.Registered (check.target view) := by
  obtain ⟨replica, node, stored, located, outcome⟩ := Database.reverify_ok judged
  rcases outcome with ⟨volume, inst, _⟩ | ⟨_, rfl⟩
  · exact ⟨node, located, inst, volume⟩
  · exact absurd after before

theorem publishes_verified (reached : Reachable metadata σ) (hosting : Hosting hosts σ)
    (stepped : metadata.step σ action = some σ') {cid : Ident} {nid : NodeId}
    (before : ¬σ.db.Valid cid nid) (after : σ'.db.Valid cid nid) :
    ∃ (v : Verifier) (target : Target), (∃ c, action = v.commit c) ∧ target.chunk = cid ∧
      target.node = nid ∧ σ.db.Registered target ∧ σ'.db.Registered target ∧
      target ∈ v.verified σ := by
  obtain ⟨focus, focuses, _, _, effect⟩ := reachable_effect reached stepped
  have publishes := (effect.steps.valid after).resolve_left before
  suffices found : ∃ (v : Verifier) (target : Target), (∃ c, action = v.commit c) ∧
      target.chunk = cid ∧ target.node = nid ∧ σ.db.Registered target ∧ target ∈ v.verified σ by
    obtain ⟨v, target, commits, chunk, rfl, registered, verified⟩ := found
    refine ⟨v, target, commits, chunk, rfl, registered, ?_, verified⟩
    apply effect.steps.registered registered
    rintro rfl
    rcases publishes with ⟨_, same, _⟩ | same <;> cases same
  have consistent := (reachable_invariant reached).consistent
  have taken : σ.step action = some σ' := stepped
  cases focuses with
  | none | claim | exit | review | register =>
      rcases publishes with ⟨_, same, _⟩ | same <;> cases same
  | request c owner command ident focus focused =>
      cases focused <;> rcases publishes with ⟨_, same, _⟩ | same <;> cases same
  | requestBy c e request ident focus move =>
      generalize σ.outcome (σ.db.dispatchBy e.toEngine c σ.now ident request) = result at move
      cases move with
      | command _ _ _ _ _ focused =>
          cases focused <;> rcases publishes with ⟨_, same, _⟩ | same <;> cases same
      | same | prepare | retire | report =>
          rcases publishes with ⟨_, same, _⟩ | same <;> cases same
  | confirm i c op bytes db present finished committed =>
      rcases publishes with ⟨nodes, same, inNodes⟩ | same
      · cases same
        simp only [State.step, State.confirmStep, present, finished, if_true, committed,
          State.outcome, Option.some.injEq] at taken
        subst taken
        obtain ⟨target, chunk, node, registered, verified⟩ :=
          hosting.confirmCommit consistent present finished committed after
        exact ⟨.confirm i, target, ⟨c, rfl⟩, chunk, node, registered, verified⟩
      · cases same
  | repair w c job repair db verified repairs committed =>
      rcases publishes with ⟨nodes, same, inNodes⟩ | same
      · cases same
        obtain rfl := List.mem_singleton.mp inNodes
        obtain ⟨_, node, _, _, _, _, _, stored, volume, inst, _⟩ :=
          Database.repairCommit_ok committed
        exact ⟨.worker w, repair.asked job.task.chunk, ⟨c, rfl⟩, rfl, rfl,
          ⟨node, stored, inst, volume⟩, by simp [Verifier.verified, verified]⟩
      · cases same
  | verdict view check valid left views db answered judged =>
      rcases publishes with ⟨nodes, same, inNodes⟩ | same
      · cases same
      · cases same
        simp only [State.step, State.maintenanceStep, answered, judged, Option.some.injEq] at taken
        subst taken
        exact ⟨.reconcile, check.target view, ⟨installation, rfl⟩, rfl, rfl,
          Database.reverify_valid judged before after, by simp [Verifier.verified, answered]⟩

theorem valid_registered (reached : Reachable metadata σ)
    (stepped : metadata.step σ action = some σ') {target : Target}
    (before : σ.db.Valid target.chunk target.node) (after : σ'.db.Valid target.chunk target.node)
    (registered : σ'.db.Registered target) : σ.db.Registered target := by
  obtain ⟨focus, focuses, _, _, effect⟩ := reachable_effect reached stepped
  obtain ⟨node', located, inst, volume⟩ := registered
  obtain ⟨old, stored, valid⟩ := before
  obtain ⟨node, known⟩ := (reachable_invariant reached).consistent.replicaNode _ _ old stored
  by_cases same : focus = .register target.node
  · subst same
    obtain ⟨i, c, beat, _, present, sameNode, registration⟩ := focuses.registration stepped
    have kept : ¬σ.db.Remounts beat := by
      intro changed
      obtain ⟨row, present', valid'⟩ := after
      rw [registration.get?_replicas, stored, Option.map_some, if_pos ⟨changed, sameNode.symm⟩,
        Option.some.injEq] at present'
      simp [← present', Database.remounted, valid] at valid'
    rw [← sameNode, registration.stored, Option.some.injEq] at located
    subst located
    have unchanged : node.inst = beat.inst ∧ node.volume = beat.volume := by
      by_contra different
      exact kept ⟨node, sameNode ▸ known, by tauto⟩
    exact ⟨node, known, unchanged.1.trans inst, unchanged.2.trans volume⟩
  · have related := effect.steps.sameNode same
    rw [known, located, Option.rel_some_some] at related
    exact ⟨node, known, related.inst.symm.trans inst, related.volume.symm.trans volume⟩

theorem Hosting.registeredBefore (hosting : Hosting hosts σ) (after : Hosting hosts σ')
    (reached : Reachable metadata σ) (stepped : metadata.step σ action = some σ')
    {target : Target} (seen : σ.db.Seen target.node target.inst)
    (registered : σ'.db.Registered target) : σ.db.Registered target := by
  obtain ⟨_, _, _, _, effect⟩ := reachable_effect reached stepped
  obtain ⟨node', located, inst, volume⟩ := registered
  obtain ⟨node, stored, same⟩ := effect.steps.registeredBefore
    (reachable_invariant (reached.next stepped)).consistent located (inst ▸ seen)
  have hosted := after.nodes target.node node' located
  rw [← same, hosting.nodes target.node node stored, Prod.mk.injEq] at hosted
  exact ⟨node, stored, same.trans inst, hosted.2.trans volume⟩

end Steps

section Runs

/-- What is asked, answered and published has its history. -/
structure Witnessed (history : List (Event State Action)) (σ : State) : Prop where
  asked : ∀ (v : Verifier) (target : Target), v.asking σ = some target →
    σ.db.Registered target → Asked v target history
  answered : ∀ (v : Verifier) (target : Target), target ∈ v.verified σ →
    σ.db.Registered target → Answered v target history
  owed : ∀ target : Target, σ.db.Valid target.chunk target.node → σ.db.Registered target →
    ∃ v, Owed v target history

variable {history : List (Event State Action)} {σ σ' : State} {action : Action}
  {hosts : Ident → NodeId × Ident}

theorem Witnessed.initial : Witnessed [] State.initial where
  asked := by
    intro v target asking
    cases v <;> cases asking
  answered := by
    intro v target verified
    cases v <;> cases verified
  owed := by
    rintro target ⟨row, stored, _⟩
    simp [State.initial, Database.empty] at stored

theorem Witnessed.step (witnessed : Witnessed history σ) (hosting : Hosting hosts σ)
    (after : Hosting hosts σ') (reached : Reachable metadata σ)
    (stepped : metadata.step σ action = some σ') :
    Witnessed (⟨σ, action, σ'⟩ :: history) σ' where
  asked := by
    intro v target asking registered
    rcases v.asking_step (happens stepped) asking with before | ⟨asks, same⟩
    · have seen := v.asking_seen (reachable_invariant reached) hosting before
      have earlier := hosting.registeredBefore after reached stepped seen registered
      exact .inr ⟨⟨earlier, asking⟩, witnessed.asked v target before earlier⟩
    · exact .inl ⟨⟨asks, same ▸ registered, asking⟩, trivial⟩
  answered := by
    intro v target verified registered
    rcases v.verified_step (happens stepped) hosting verified with before | ⟨answers, asking, same⟩
    · have seen := v.verified_seen (reachable_invariant reached) before
      have earlier := hosting.registeredBefore after reached stepped seen registered
      exact .inr ⟨⟨earlier, verified⟩, witnessed.answered v target before earlier⟩
    · have earlier : σ.db.Registered target := same ▸ registered
      exact .inl ⟨⟨answers, earlier, asking, verified⟩, witnessed.asked v target asking earlier⟩
  owed := by
    intro target valid registered
    by_cases before : σ.db.Valid target.chunk target.node
    · have earlier := valid_registered reached stepped before valid registered
      obtain ⟨v, owed⟩ := witnessed.owed target before earlier
      exact ⟨v, .inr ⟨⟨earlier, valid⟩, owed⟩⟩
    · obtain ⟨v, source, commits, chunk, node, earlier, later, verified⟩ :=
        publishes_verified reached hosting stepped before valid
      obtain rfl : source = target := later.unique registered chunk node
      exact ⟨v, .inl ⟨⟨commits, earlier, verified, before, valid⟩,
        witnessed.answered v source verified earlier⟩⟩

theorem run_witnessed (run : Run metadata history σ)
    (hosted : ∀ event ∈ history, Hosted hosts event) :
    Hosting hosts σ ∧ Witnessed history σ := by
  revert hosted
  refine run.historyInvariant (fun history σ => (∀ event ∈ history, Hosted hosts event) →
    Hosting hosts σ ∧ Witnessed history σ) (fun _ => ⟨.initial, .initial⟩) ?_
  intro history σ action σ' earlier inductionHypothesis stepped hosted
  obtain ⟨hosting, witnessed⟩ :=
    inductionHypothesis fun event membership => hosted event (List.mem_cons_of_mem _ membership)
  have after := hosting.step earlier.reachable stepped (hosted _ List.mem_cons_self)
  exact ⟨after, witnessed.step hosting after earlier.reachable stepped⟩

/-- A reserved or valid copy is on the volume of its node, and a valid one owes
its state to an answer asked for under the node's present registration. -/
theorem valid_verified (run : Run metadata history σ)
    (hosted : ∀ event ∈ history, Hosted hosts event) {cid : Ident} {nid : NodeId}
    {row : ReplicaRow} (stored : σ.db.replicas.get? (cid, nid) = some row)
    (written : row.state = .reserved ∨ row.state = .valid) :
    ∃ node, σ.db.nodes.get? nid = some node ∧ row.volume = node.volume ∧
      (row.state = .valid → ∃ v, Owed v ⟨cid, nid, node.inst, node.volume⟩ history) := by
  have consistent := (reachable_invariant run.reachable).consistent
  obtain ⟨node, located⟩ := consistent.replicaNode cid nid row stored
  refine ⟨node, located, consistent.mounted cid nid row node stored located written, ?_⟩
  intro valid
  exact (run_witnessed run hosted).2.owed ⟨cid, nid, node.inst, node.volume⟩ ⟨row, stored, valid⟩
    ⟨node, located, rfl, rfl⟩

end Runs

/-- The copy on the first node was verified under its first registration. -/
theorem valid_verified_uploaded : ∃ v, Owed v ⟨1002, 1, 101, 201⟩
    (metadata.events metadata.initial uploadActions) := by
  have hosted : ∀ event ∈ metadata.events metadata.initial uploadActions,
      Hosted (fun inst => (inst - 100, inst + 100)) event := by
    intro event membership i c nid inst volume capacity free beats
    have listed := System.action_mem_of_mem_events membership
    rw [beats] at listed
    simp only [uploadActions, heartbeatActions, List.cons_append, List.nil_append, List.mem_cons,
      List.not_mem_nil, Action.beat.injEq, reduceCtorEq, or_false, false_or] at listed
    rcases listed with ⟨_, _, rfl, rfl, rfl, _⟩ | ⟨_, _, rfl, rfl, rfl, _⟩ |
      ⟨_, _, rfl, rfl, rfl, _⟩ <;> rfl
  have stored : uploaded.db.replicas.get? (1002, 1) = some ⟨201, .valid, .used⟩ := by
    decide +kernel
  obtain ⟨node, located, _, owed⟩ := valid_verified uploaded_run hosted stored (.inr rfl)
  have known : uploaded.db.nodes.get? 1 =
      some ⟨"first:9000", 101, 201, 0, 100, 100, 0, 1, .healthy⟩ := by decide +kernel
  obtain rfl := Option.some.inj (known.symm.trans located)
  exact owed rfl

end FileServer.Metadata

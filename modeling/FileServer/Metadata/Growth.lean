import FileServer.Metadata.Consistency
import Mathlib.Logic.Relation

/-!
# Sequences of moves

A transaction makes finitely many moves.  They preserve the invariant, and
what an operation learned in one transaction is still true, in the sense of
`Grown`, when its next transaction runs.
-/

namespace FileServer.Metadata

open FileServer.Relational

/-- The moves of one transaction, in order. -/
abbrev Steps (focus : Focus) (drawn : List Ident) : Database → Database → Prop :=
  Relation.ReflTransGen (Moves focus drawn)

theorem Steps.consistent {focus : Focus} {drawn : List Ident} {db db' : Database}
    (steps : Steps focus drawn db db') (consistent : Consistent db) : Consistent db' := by
  induction steps with
  | refl => exact consistent
  | tail _ moves inductionHypothesis => exact moves.preserve inductionHypothesis

namespace Database

def Seen (db : Database) (nid : NodeId) (inst : Ident) : Prop :=
  (∃ node, db.nodes.get? nid = some node ∧ node.inst = inst) ∨ (nid, inst) ∈ db.instances

end Database

/-- What later tables retain of earlier ones. -/
structure Grown (drawn : List Ident) (db db' : Database) : Prop where
  objects : ∀ oid object, db.objects.get? oid = some object →
    ∃ object', db'.objects.get? oid = some object' ∧ ObjectKept object object'
  uploads : ∀ upload row, db.uploads.get? upload = some row →
    ∃ row', db'.uploads.get? upload = some row' ∧ row'.object = row.object
  chunks : ∀ cid chunk, db.chunks.get? cid = some chunk →
    ∃ chunk', db'.chunks.get? cid = some chunk' ∧ ChunkKept chunk chunk' ∧
      ∀ state, db.phase cid = some state → state ≠ .staging → chunk' = chunk
  absent : ∀ cid, db.chunks.get? cid = none → cid ∉ drawn → db'.chunks.get? cid = none
  replicas : ∀ cid nid row, db.replicas.get? (cid, nid) = some row →
    ∃ row', db'.replicas.get? (cid, nid) = some row'
  nodes : ∀ nid node, db.nodes.get? nid = some node → ∃ node', db'.nodes.get? nid = some node'
  seen : ∀ nid inst, db.Seen nid inst → db'.Seen nid inst

namespace Grown

variable {drawn : List Ident} {db db' db'' : Database}

theorem refl (db : Database) : Grown drawn db db where
  objects := fun _ object stored => ⟨object, stored, .refl _⟩
  uploads := fun _ row stored => ⟨row, stored, rfl⟩
  chunks := fun _ chunk stored => ⟨chunk, stored, .refl _, fun _ _ _ => rfl⟩
  absent := fun _ absent _ => absent
  replicas := fun _ _ row stored => ⟨row, stored⟩
  nodes := fun _ node stored => ⟨node, stored⟩
  seen := fun _ _ seen => seen

theorem phase (grown : Grown drawn db db') {cid : Ident} {state : ObjectState}
    (known : db.phase cid = some state) :
    ∃ state', db'.phase cid = some state' ∧ Advances state state' := by
  obtain ⟨chunk, row, object, stored, owned, located, rfl⟩ := Database.phase_eq_some.mp known
  obtain ⟨chunk', stored', kept, _⟩ := grown.chunks cid chunk stored
  obtain ⟨row', owned', same⟩ := grown.uploads _ row owned
  obtain ⟨object', located', keptObject⟩ := grown.objects _ object located
  exact ⟨object'.state, Database.phase_of_object stored' (kept.upload ▸ owned') (same ▸ located'),
    keptObject.advances⟩

theorem phase_ne_staging (grown : Grown drawn db db') {cid : Ident} {state : ObjectState}
    (known : db.phase cid = some state) (opened : state ≠ .staging) :
    db'.phase cid ≠ some .staging := by
  obtain ⟨state', known', advances⟩ := grown.phase known
  intro staging
  rw [staging, Option.some.injEq] at known'
  subst state'
  cases advances
  exact opened rfl

theorem trans (earlier : Grown drawn db db') (later : Grown drawn db' db'') :
    Grown drawn db db'' where
  objects := by
    intro oid object stored
    obtain ⟨object', stored', kept⟩ := earlier.objects oid object stored
    obtain ⟨object'', stored'', kept'⟩ := later.objects oid object' stored'
    exact ⟨object'', stored'', kept.trans kept'⟩
  uploads := by
    intro upload row stored
    obtain ⟨row', stored', same⟩ := earlier.uploads upload row stored
    obtain ⟨row'', stored'', same'⟩ := later.uploads upload row' stored'
    exact ⟨row'', stored'', same'.trans same⟩
  chunks := by
    intro cid chunk stored
    obtain ⟨chunk', stored', kept, frozen⟩ := earlier.chunks cid chunk stored
    obtain ⟨chunk'', stored'', kept', frozen'⟩ := later.chunks cid chunk' stored'
    refine ⟨chunk'', stored'', kept.trans kept', fun state known opened => ?_⟩
    obtain ⟨state', known', _⟩ := earlier.phase known
    have opened' : state' ≠ .staging := by
      rintro rfl
      exact earlier.phase_ne_staging known opened known'
    rw [frozen' state' known' opened', frozen state known opened]
  absent := fun cid absent outside => later.absent cid (earlier.absent cid absent outside) outside
  replicas := by
    intro cid nid row stored
    obtain ⟨row', stored'⟩ := earlier.replicas cid nid row stored
    exact later.replicas cid nid row' stored'
  nodes := by
    intro nid node stored
    obtain ⟨node', stored'⟩ := earlier.nodes nid node stored
    exact later.nodes nid node' stored'
  seen := fun nid inst seen => later.seen nid inst (earlier.seen nid inst seen)

end Grown

theorem NodesMove.seen {db db' : Database} (nodes : NodesMove focus db db') {nid : NodeId} {inst : Ident}
    (seen : db.Seen nid inst) : db'.Seen nid inst := by
  cases nodes with
  | same nodes instances =>
      rcases seen with ⟨node, stored, rfl⟩ | retired
      · have related := nodes nid
        rw [stored] at related
        cases after : db'.nodes.get? nid with
        | none => simp [after] at related
        | some node' =>
            rw [after, Option.rel_some_some] at related
            exact .inl ⟨node', after, related.inst⟩
      · exact .inr (instances ▸ retired)
  | register other registered owner located others fresh kept retired only =>
      rcases seen with ⟨node, stored, rfl⟩ | earlier
      · by_cases same : nid = other
        · subst other
          by_cases changed : node.inst = registered.inst
          · exact .inl ⟨registered, located, changed.symm⟩
          · exact .inr (retired node stored changed)
        · exact .inl ⟨node, by rw [others nid same, stored], rfl⟩
      · exact .inr (kept earlier)

theorem Moves.grown {focus : Focus} {drawn : List Ident} {db db' : Database}
    (moves : Moves focus drawn db db') : Grown drawn db db' where
  objects := fun _ _ => moves.life.objects
  uploads := by
    intro upload row stored
    obtain ⟨row', stored', same, _⟩ := moves.life.uploads stored
    exact ⟨row', stored', same⟩
  chunks := by
    intro cid chunk stored
    obtain ⟨chunk', stored', kept, frozen⟩ := moves.life.chunks stored
    exact ⟨chunk', stored', kept, fun state known opened => frozen (by simp [known, opened])⟩
  absent := by
    intro cid absent outside
    cases stored : db'.chunks.get? cid with
    | none => rfl
    | some chunk =>
        obtain ⟨_, _, _, _, _, creation, seq, inRange, rfl⟩ := moves.life.newChunk absent stored
        exact absurd (creation.freshChunk seq inRange).2 outside
  replicas := fun cid nid row stored =>
    Option.ne_none_iff_exists'.mp ((moves.rows cid nid).persists (by simp [stored]))
  nodes := fun _ _ => moves.nodes.persists
  seen := fun _ _ => moves.nodes.seen

theorem Steps.grown {focus : Focus} {drawn : List Ident} {db db' : Database}
    (steps : Steps focus drawn db db') : Grown drawn db db' := by
  induction steps with
  | refl => exact .refl _
  | tail _ moves inductionHypothesis => exact inductionHypothesis.trans moves.grown

end FileServer.Metadata

import FileServer.Metadata.Checksums

/-!
# Copies of chunks with a checksum

A copy is written only after the checksum of its chunk was fixed, so what the
reconciliation checks it against is never missing.
-/

namespace FileServer.Metadata

open FileServer.Relational FileServer.Transition

/-- The checksum of the chunk is fixed. -/
def Database.Hashed (db : Database) (cid : Ident) : Prop :=
  ∃ chunk sha, db.chunks.get? cid = some chunk ∧ chunk.sha = some sha

def ReplicaRow.Written (row : ReplicaRow) : Prop :=
  row.state = .valid ∨ row.state = .unverified ∨ row.state = .bad

/-- Every copy that was written has a checksum to be checked against. -/
def Database.WrittenHashed (db : Database) : Prop :=
  ∀ cid nid row, db.replicas.get? (cid, nid) = some row → row.Written → db.Hashed cid

theorem Database.Hashed.grown {db db' : Database} {drawn : List Ident} {cid : Ident}
    (hashed : db.Hashed cid) (grown : Grown drawn db db') : db'.Hashed cid := by
  obtain ⟨chunk, sha, stored, fixed⟩ := hashed
  obtain ⟨chunk', stored', kept, _⟩ := grown.chunks cid chunk stored
  exact ⟨chunk', sha, stored', kept.sha sha fixed⟩

/-- The chunks of a published object have their checksums. -/
theorem published_hashed {σ : State} (reached : Reachable metadata σ) {cid : Ident}
    (published : σ.db.phase cid = some .published) : σ.db.Hashed cid := by
  have consistent := (reachable_invariant reached).consistent
  obtain ⟨chunk, row, object, stored, owned, located, state⟩ := Database.phase_eq_some.mp published
  have completed := (consistent.linked.paired _ row object owned located).completed_iff.mpr state
  have confirmed := completed_confirmed reached owned completed cid chunk stored rfl
  obtain ⟨sha, fixed⟩ :=
    Option.ne_none_iff_exists'.mp (consistent.shaped.confirmedSha cid chunk stored confirmed)
  exact ⟨chunk, sha, stored, fixed⟩

theorem Steps.writtenHashed {focus : Focus} {drawn : List Ident} {db db' : Database}
    (steps : Steps focus drawn db db') (settled : ∀ cid nid, focus.Settles cid nid → db.Hashed cid)
    (written : db.WrittenHashed) : db'.WrittenHashed := by
  induction steps with
  | refl => exact written
  | @tail middle next earlier moves inductionHypothesis =>
      intro cid nid row stored counted
      have before : ∀ old, middle.replicas.get? (cid, nid) = some old → old.Written →
          next.Hashed cid := fun old present counted =>
        (inductionHypothesis cid nid old present counted).grown moves.grown
      have fresh : focus.Settles cid nid → next.Hashed cid := fun owner =>
        (settled cid nid owner).grown (Steps.grown (earlier.tail moves))
      have move := moves.rowOrigin stored
      generalize present : middle.replicas.get? (cid, nid) = old at move
      cases move with
      | keep => exact before row present counted
      | settle old owner => exact fresh owner
      | discard old owner => exact fresh owner
      | mark old valid => exact before old present (.inl valid)
      | unverify old owner read =>
          exact before old present (read.imp_right .inr)
      | verdict old volume state charged judgement owner unverified =>
          exact before old present (.inr (.inl unverified))
      | refund old => exact before old present counted
      | remount old volume owner reserved =>
          simp [ReplicaRow.Written, reserved] at counted
      | retire old => by_cases gone : old.state = .gone <;> simp [ReplicaRow.Written, gone] at counted
      | reserve | delete | vanish => simp [ReplicaRow.Written] at counted

theorem reachable_writtenHashed {σ : State} (reached : Reachable metadata σ) :
    σ.db.WrittenHashed := by
  obtain ⟨history, run⟩ := reached
  induction run with
  | start =>
      intro cid nid row stored
      simp [metadata, State.initial, Database.empty] at stored
  | @next history before action after earlier stepped inductionHypothesis =>
      obtain ⟨focus, focuses, drawn, _, effect⟩ := reachable_effect earlier.reachable stepped
      refine effect.steps.writtenHashed ?_ inductionHypothesis
      rintro cid nid ⟨nodes, rfl, _⟩
      cases focuses with
      | request c owner command ident focus focused => cases focused
      | requestBy _ _ _ _ _ move =>
          cases move with
          | command _ _ _ _ _ focused => cases focused
      | confirm i c op bytes db present finished committed =>
          obtain ⟨chunk, stored, _, _, fixed⟩ :=
            ((reachable_invariant earlier.reachable).confirms i op present).chunk
          exact ⟨chunk, op.sha, stored, fixed⟩
      | repair w c job repair db verified repairs committed =>
          obtain ⟨object, _, _, _, _, found, published, _⟩ := Database.repairCommit_ok committed
          obtain ⟨_, known⟩ := ((reachable_invariant earlier.reachable).workers w).repair job repair
            (by rw [verified]; rfl)
          obtain ⟨chunk, upload, object', stored, _, _, owner, owned, belongs, located, _⟩ :=
            known.chunk
          apply published_hashed earlier.reachable
          obtain rfl := Option.some.inj (found.symm.trans located)
          rw [← published]
          exact Database.phase_of_object stored (owner ▸ owned) (belongs ▸ located)

theorem pending_hashed {σ : State} (reached : Reachable metadata σ) {check : Check}
    (waits : check ∈ σ.maintenance.pending) : check.sha ≠ none := by
  obtain ⟨history, run⟩ := reached
  induction run generalizing check with
  | start => simp [metadata, State.initial, Maintenance.pending] at waits
  | @next history before action after earlier stepped inductionHypothesis =>
      rcases (happens stepped).maintenanceThread with same | move
      · exact inductionHypothesis (same ▸ waits)
      · have written := reachable_writtenHashed earlier.reachable
        generalize after.maintenance = maintenance at move waits
        generalize here : before.maintenance = old at move inductionHypothesis
        generalize after.db = db at move
        cases move with
        | visit view views =>
            simp only [Maintenance.pending, Database.unverifiedOn] at waits
            obtain ⟨⟨⟨cid, nid⟩, row⟩, listed, selected⟩ :=
              List.mem_filterMap.mp (List.mem_of_mem_take waits)
            simp only at selected
            split at selected
            · next state =>
                obtain ⟨chunk, stored, rfl⟩ := Option.map_eq_some_iff.mp selected
                obtain ⟨chunk', sha, stored', fixed⟩ := written cid nid row
                  (before.db.replicas.mem_rows_iff.mp listed) (.inr (.inl state.2))
                obtain rfl := Option.some.inj (stored.symm.trans stored')
                simp [fixed]
            · cases selected
        | ask view next left views | answer view next left views =>
            exact inductionHypothesis (by simpa [Maintenance.pending] using waits)
        | reverify view next valid left views db judged =>
            exact inductionHypothesis (List.mem_cons_of_mem _ waits)
        | _ => simp [Maintenance.pending] at waits

end FileServer.Metadata

import FileServer.Metadata.Readiness
import FileServer.Sequence.Paging

/-!
# Following the pages of `status`

A client asks for one page after another while chunks are confirmed.  The pages
together list every chunk that is not confirmed in any of the states they are
read from.
-/

namespace FileServer.Metadata

open FileServer.Relational FileServer.Sequence FileServer.Transition

/-- The pages of `status` from a cursor to the end, each read from one of the
states. -/
inductive Following (owner : String) (upload : Ident) : List State → Nat → List Nat → Prop where
  | last {σ : State} {cursor : Nat} {oid state expires confirmed chunkSize size missing}
      (page : σ.db.status σ.now owner upload cursor =
        .ok (.status oid state expires confirmed chunkSize size missing none)) :
      Following owner upload [σ] cursor missing
  | next {σ : State} {states : List State} {cursor : Nat}
      {oid state expires confirmed chunkSize size missing next rest}
      (page : σ.db.status σ.now owner upload cursor =
        .ok (.status oid state expires confirmed chunkSize size missing (some next)))
      (later : Following owner upload states next rest) :
      Following owner upload (σ :: states) cursor (missing ++ rest)

namespace Database

variable {db : Database} {now : Time} {upload : Ident} {row : UploadRow} {object : ObjectRow}

theorem mem_unconfirmed {seq : Nat} :
    seq ∈ db.unconfirmed upload 0 ↔ ∃ cid chunk, db.chunks.get? cid = some chunk ∧
      chunk.upload = upload ∧ chunk.state ≠ .confirmed ∧ chunk.seq = seq := by
  simp only [unconfirmed, List.mem_map, List.mem_filter, Prod.exists, mem_chunksOf,
    decide_eq_true_eq]
  constructor
  · rintro ⟨cid, chunk, ⟨⟨present, owned⟩, pending, _⟩, same⟩
    exact ⟨cid, chunk, present, owned, pending, same⟩
  · rintro ⟨cid, chunk, present, owned, pending, same⟩
    exact ⟨cid, chunk, ⟨⟨present, owned⟩, pending, Int.natCast_nonneg _⟩, same⟩

theorem unconfirmed_from (cursor : Nat) :
    db.unconfirmed upload cursor = (db.unconfirmed upload 0).filter (cursor ≤ ·) := by
  rw [unconfirmed, unconfirmed, List.filter_map, List.filter_filter]
  congr 1
  apply List.filter_congr
  intro entry _
  simp only [Function.comp_apply, ← Bool.decide_and, decide_eq_decide, Nat.cast_le,
    Int.natCast_nonneg, and_true]
  exact and_comm

theorem unconfirmed_increasing (shaped : Shaped db) (stored : db.uploads.get? upload = some row)
    (located : db.objects.get? row.object = some object) (cursor : Int) :
    (db.unconfirmed upload cursor).Pairwise (· < ·) := by
  refine List.Pairwise.sublist (List.filter_sublist.map _) ?_
  rw [chunksOf_numbered shaped stored located]
  exact List.pairwise_lt_range

theorem status_page {owner : String} {cursor : Nat} {oid : Ident} {state : UploadState}
    {expires : Time} {confirmed chunkSize size : Nat} {missing : List Nat} {next : Option Nat}
    (read : db.status now owner upload cursor =
      .ok (.status oid state expires confirmed chunkSize size missing next)) :
    page 256 (db.unconfirmed upload 0) cursor = (missing, next) := by
  simp only [status, bind_eq_ok, require_eq_ok, pure_eq_ok, Prod.exists, active_ok,
    exists_const, Reply.status.injEq] at read
  obtain ⟨row, object, _, _, _, _, _, _, _, _, rfl, rfl⟩ := read
  rw [← unconfirmed, unconfirmed_from]
  rfl

theorem status_readable (stored : db.uploads.get? upload = some row)
    (located : db.objects.get? row.object = some object) (cursor : Nat) :
    db.status now object.owner upload cursor = .ok (.status row.object row.state row.expires
      (db.confirmedBytes upload) object.chunkSize object.size
      (page 256 (db.unconfirmed upload 0) cursor).1
      (page 256 (db.unconfirmed upload 0) cursor).2) := by
  rw [status_eq stored located (Int.natCast_nonneg cursor), unconfirmed_from]
  rfl

end Database

section Following

variable {owner : String} {upload : Ident} {states : List State} {cursor : Nat} {seqs : List Nat}

theorem Following.paging (following : Following owner upload states cursor seqs) :
    Paging 256 (states.map fun σ => σ.db.unconfirmed upload 0) cursor seqs := by
  induction following with
  | last page => exact .last (Database.status_page page)
  | next page _ inductionHypothesis => exact .next (Database.status_page page) inductionHypothesis

theorem Paging.following
    (readable : ∀ σ ∈ states, ∃ row object, σ.db.uploads.get? upload = some row ∧
      σ.db.objects.get? row.object = some object ∧ object.owner = owner)
    (paging : Paging 256 (states.map fun σ => σ.db.unconfirmed upload 0) cursor seqs) :
    Following owner upload states cursor seqs := by
  generalize listed : states.map (fun σ => σ.db.unconfirmed upload 0) = lists at paging
  induction paging generalizing states with
  | @last values cursor missing read =>
      obtain ⟨σ, rfl, same⟩ := List.map_eq_singleton_iff.mp listed
      obtain ⟨row, object, stored, located, rfl⟩ := readable σ List.mem_cons_self
      have page : σ.db.status σ.now object.owner upload cursor = _ :=
        Database.status_readable stored located cursor
      rw [same, read] at page
      exact .last page
  | @next values lists cursor missing next later read _ inductionHypothesis =>
      obtain ⟨σ, rest, rfl, same, others⟩ := List.map_eq_cons_iff.mp listed
      obtain ⟨row, object, stored, located, rfl⟩ := readable σ List.mem_cons_self
      have page : σ.db.status σ.now object.owner upload cursor = _ :=
        Database.status_readable stored located cursor
      rw [same, read] at page
      exact .next page (inductionHypothesis
        (fun σ membership => readable σ (List.mem_cons_of_mem _ membership)) others)

end Following

section Runs

variable {history : List (Event State Action)} {σ τ : State} {upload : Ident} {row : UploadRow}
  {object : ObjectRow}

/-- A chunk that has been confirmed stays confirmed. -/
theorem unconfirmed_subset (run : Run metadata history σ) (seen : Visited history σ τ)
    (stored : τ.db.uploads.get? upload = some row) :
    σ.db.unconfirmed upload 0 ⊆ τ.db.unconfirmed upload 0 := by
  intro seq listed
  obtain ⟨cid, chunk, present, owned, pending, rfl⟩ := Database.mem_unconfirmed.mp listed
  obtain ⟨old, before, kept⟩ := chunk_present run seen stored present owned
  refine Database.mem_unconfirmed.mpr ⟨cid, old, before, kept.upload ▸ owned, ?_, kept.seq.symm⟩
  exact fun confirmed => pending (kept.confirmed confirmed)

theorem unconfirmed_bounded (reached : Reachable metadata σ)
    (stored : σ.db.uploads.get? upload = some row)
    (located : σ.db.objects.get? row.object = some object) :
    (σ.db.unconfirmed upload 0).Pairwise (· < ·) ∧
      ∀ seq ∈ σ.db.unconfirmed upload 0, seq < chunkCount object.size object.chunkSize := by
  have shaped := (reachable_invariant reached).consistent.shaped
  refine ⟨Database.unconfirmed_increasing shaped stored located 0, fun seq listed => ?_⟩
  obtain ⟨cid, chunk, present, owned, _, rfl⟩ := Database.mem_unconfirmed.mp listed
  exact (shaped.bounded cid chunk row object present (owned ▸ stored) located).1

variable (reached : Reachable metadata σ) (stored : σ.db.uploads.get? upload = some row)
  (located : σ.db.objects.get? row.object = some object)
include reached stored located

theorem upload_later (leads : metadata.Leads σ τ) :
    Reachable metadata τ ∧ τ.db.unconfirmed upload 0 ⊆ σ.db.unconfirmed upload 0 ∧
      ∃ row' object', τ.db.uploads.get? upload = some row' ∧
        τ.db.objects.get? row'.object = some object' ∧ ObjectKept object object' := by
  obtain ⟨history, run⟩ := reached
  obtain ⟨history', run', seen⟩ := run.leads (.last history σ) leads
  obtain ⟨row', object', stored', _, located', kept⟩ := upload_kept run' seen stored located
  exact ⟨run'.reachable, unconfirmed_subset run' seen stored, row', object', stored', located', kept⟩

theorem unconfirmed_later (leads : metadata.Leads σ τ) :
    (τ.db.unconfirmed upload 0).Pairwise (· < ·) ∧
      ∀ seq ∈ τ.db.unconfirmed upload 0, seq < chunkCount object.size object.chunkSize := by
  obtain ⟨reached', _, row', object', stored', located', kept⟩ :=
    upload_later reached stored located leads
  rw [← kept.size, ← kept.chunkSize]
  exact unconfirmed_bounded reached' stored' located'

theorem following_ends (states : Nat → State) (first : metadata.Leads σ (states 0))
    (later : ∀ index, metadata.Leads (states index) (states (index + 1))) :
    ∃ count ≤ chunkCount object.size object.chunkSize / 256, ∃ seqs,
      Following object.owner upload ((List.range (count + 1)).map states) 0 seqs := by
  have leads : ∀ index, metadata.Leads σ (states index) := by
    intro index
    induction index with
    | zero => exact first
    | succ index inductionHypothesis => exact inductionHypothesis.trans (later index)
  obtain ⟨count, few, seqs, paging⟩ := Paging.exists_of_bounded (by decide : 0 < 256)
    (fun index => (states index).db.unconfirmed upload 0)
    (fun index => (unconfirmed_later reached stored located (leads index)).1)
    (fun index => (unconfirmed_later reached stored located (leads index)).2) 0
  refine ⟨count, few, seqs, Paging.following ?_ (by rwa [List.map_map])⟩
  intro τ membership
  obtain ⟨index, _, rfl⟩ := List.mem_map.mp membership
  obtain ⟨_, _, row', object', stored', located', kept⟩ :=
    upload_later reached stored located (leads index)
  exact ⟨row', object', stored', located', kept.owner⟩

/-- The pages list chunks in order, and every chunk that is not confirmed when
the last of them is read. -/
theorem following_lists {owner : String} {states : List State} {last : State} {seqs : List Nat}
    (leads : ∀ τ ∈ states ++ [last], metadata.Leads σ τ)
    (ordered : (states ++ [last]).Pairwise metadata.Leads)
    (following : Following owner upload (states ++ [last]) 0 seqs) :
    seqs.Pairwise (· < ·) ∧ last.db.unconfirmed upload 0 ⊆ seqs ∧
      ((∀ τ ∈ states, τ.db.unconfirmed upload 0 = last.db.unconfirmed upload 0) →
        seqs = last.db.unconfirmed upload 0) := by
  have paging := following.paging
  have sorted : ∀ values ∈ (states ++ [last]).map fun σ => σ.db.unconfirmed upload 0,
      values.Pairwise (· < ·) := by
    intro values membership
    obtain ⟨τ, listed, rfl⟩ := List.mem_map.mp membership
    exact (unconfirmed_later reached stored located (leads τ listed)).1
  refine ⟨(paging.increasing (by decide) sorted).1, fun seq pending => ?_, fun unchanged => ?_⟩
  · refine paging.complete (by decide) sorted (fun values membership => ?_) (Nat.zero_le seq)
    obtain ⟨τ, listed, rfl⟩ := List.mem_map.mp membership
    rcases List.mem_append.mp listed with earlier | isLast
    · obtain ⟨reached', _, row', object', stored', located', _⟩ :=
        upload_later reached stored located (leads τ listed)
      have leadsOn := (List.pairwise_append.mp ordered).2.2 τ earlier last (by simp)
      exact (upload_later reached' stored' located' leadsOn).2.1 pending
    · obtain rfl := List.mem_singleton.mp isLast
      exact pending
  · have whole := (unconfirmed_later reached stored located (leads last (by simp))).1
    rw [paging.exact (by decide) whole ?_, List.filter_eq_self.mpr (by simp)]
    intro values membership
    obtain ⟨τ, listed, rfl⟩ := List.mem_map.mp membership
    rcases List.mem_append.mp listed with earlier | isLast
    · exact unchanged τ earlier
    · rw [List.mem_singleton.mp isLast]

end Runs

end FileServer.Metadata

import FileServer.Gateway.Rejections

/-!
# Copies condemned by reads

The download handler marks a copy after any failure of its attempt: the read,
the check of the content or the revalidation that follows it.
-/

namespace FileServer.Gateway

open FileServer.Metadata FileServer.Storage FileServer.Transition

/-- A read: where the chunk was asked for, as what, and the copy held there. -/
structure Reading where
  address : String
  cid : Ident
  length : Nat
  sha : Option Sha
  copy : Option Bytes

abbrev GatewayExchange := Exchange Call Call.Answer Effect

def reading? (exchange : GatewayExchange) : Option Reading :=
  match exchange.call with
  | .get address cid length sha => some ⟨address, cid, length, sha, exchange.effect.copy⟩
  | _ => none

def locatedIn : GatewayExchange → List (NodeId × String)
  | ⟨.metadata _, answer, _⟩ =>
      match (answer : Except Failure Response) with
      | .ok (.reply (.located _ _ _ positions)) => positions
      | _ => []
  | _ => []

def ReadBad (digest : Bytes → Sha) (located : List (NodeId × String)) (last : Option Reading)
    (chunk : Option Ident) (node : Option NodeId) : Prop :=
  ∃ reading ∈ last, chunk = some reading.cid ∧
    (∃ nid, node = some nid ∧ (nid, reading.address) ∈ located) ∧
    ¬Node.Intact digest reading.copy reading.length reading.sha

/-- Every mark is of a copy that is missing or does not match. -/
def MarksBad (digest : Bytes → Sha) (located : List (NodeId × String)) :
    Option Reading → Exchanges → Prop
  | _, [] => True
  | last, exchange :: rest =>
      (∀ request, exchange.call = .metadata request → request.cmd = .badReplica →
        ReadBad digest located last request.chunk request.node) ∧
      MarksBad digest located ((reading? exchange).or last) rest

def Undisturbed (digest : Bytes → Sha) : GatewayExchange → Prop
  | ⟨.get _ _ length sha, answer, effect⟩ =>
      Node.Intact digest effect.copy length sha →
        ∃ content, (answer : Except Failure Bytes) = .ok content
  | ⟨.metadata request, answer, _⟩ =>
      request.cmd = .manifest → ∃ response, (answer : Except Failure Response) = .ok response
  | _ => True

section Handler

variable {digest : Bytes → Sha} {e : Engine} {c : Config} {owner : String} {fields : Fields}

theorem get_served {address : String} {cid : Ident} {length : Nat} {sha : Option Sha}
    {answer : Except Failure Bytes} {effect : Effect}
    (served : Serves digest e c (.get address cid length sha) answer effect) :
    (∃ failure, failure ≠ .other ∧ answer = .error failure) ∨
      ∃ content, answer = .ok content ∧ content.length = length ∧ sha = some (digest content) ∧
        Node.Intact digest effect.copy length sha := by
  cases served with
  | refused raised copy => exact .inl ⟨_, raised, rfl⟩
  | read copy =>
      cases obtained : Node.read digest copy length sha with
      | error failure => exact .inl ⟨.error failure, by simp, rfl⟩
      | ok content =>
          obtain ⟨stored, _, sized, matched⟩ := (Node.read_eq_ok digest).mp obtained
          exact .inr ⟨content, rfl, sized, matched, content, stored, sized, matched⟩

theorem metadata_served {request : Internal} {answer : Except Failure Response} {effect : Effect}
    (served : Serves digest e c (.metadata request) answer effect) : answer ≠ .error .other := by
  rintro rfl
  generalize failed : (Except.error .other : Except Failure Response) = answer at served
  cases served with
  | refused raised copy =>
      cases failed
      exact raised rfl
  | unconfirmed confirms named now db raised =>
      cases failed
      exact raised rfl
  | transaction single now ident db given =>
      rcases given with rfl | ⟨failure, raised, rfl⟩
      · exact reply_ne_other failed.symm
      · cases failed
        exact raised rfl
  | confirmed confirms named now now' later begun given =>
      rcases given with rfl | ⟨failure, raised, rfl⟩
      · exact reply_ne_other failed.symm
      · cases failed
        exact raised rfl

def readOf (address : String) (cid : Ident) (length : Nat) (sha : Option Sha)
    (answer : Except Failure Bytes) (effect : Effect) : GatewayExchange :=
  ⟨.get address cid length sha, answer, effect⟩

def requestOf (request : Internal) (answer : Except Failure Response) (effect : Effect) :
    GatewayExchange :=
  ⟨.metadata request, answer, effect⟩

theorem dispatch_download {request : Request} {data : Bytes}
    (authenticated : authenticate c request = .ok owner) (downloads : request.cmd = .download) :
    dispatch digest c request data = download digest owner request.fields := by
  simp only [dispatch, authenticated, downloads]
  rfl

/-- An attempt ends at the read or at the revalidation. -/
theorem executes_readCopy {cid : Ident} {length : Nat} {sha : Option Sha} {address : String}
    {trace : Exchanges} {result : Except Failure Result}
    (executed : Program.Executes (Serves digest e c)
      (readCopy digest owner fields cid length sha address) trace result) :
    (∃ failure effect, failure ≠ .other ∧ result = .error failure ∧
      trace = [readOf address cid length sha (.error failure) effect]) ∨
    ∃ content effect answer effect',
      Node.Intact digest effect.copy length sha ∧
      trace = [readOf address cid length sha (.ok content) effect,
        requestOf ⟨owner, .manifest, fields, none, none⟩ answer effect'] ∧
      ((∃ failure, failure ≠ .other ∧ answer = .error failure ∧ result = .error failure) ∨
        ∃ response, answer = .ok response ∧ result = .ok (.content content.length sha content)) := by
  obtain ⟨answer, effect, rest, rfl, served, continued⟩ := Program.executes_send_bind.mp executed
  rcases get_served served with
    ⟨failure, raised, rfl⟩ | ⟨content, rfl, sized, matched, intact⟩
  · rcases continued with ⟨_, same, rfl, rfl⟩ | ⟨_, same, _⟩
    · cases same
      exact .inl ⟨failure, effect, raised, rfl, rfl⟩
    · cases same
  · rcases continued with ⟨_, same, _⟩ | ⟨_, same, checked⟩
    · cases same
    cases same
    rcases Program.executes_lift_bind.mp checked with ⟨_, refused, _⟩ | ⟨_, _, revalidated⟩
    · simp [demand, require, sized, matched] at refused
    obtain ⟨answer, effect', rest, rfl, served, ended⟩ :=
      Program.executes_send_bind.mp revalidated
    have answered := metadata_served served
    refine .inr ⟨content, effect, answer, effect', intact, ?_⟩
    rcases ended with ⟨failure, rfl, rfl, rfl⟩ | ⟨response, rfl, returned⟩
    · exact ⟨rfl, .inl ⟨failure, fun other => answered (other ▸ rfl), rfl, rfl⟩⟩
    · obtain ⟨rfl, rfl⟩ := Program.executes_pure.mp returned
      exact ⟨rfl, .inr ⟨response, rfl, rfl⟩⟩

section Marks

variable {located : List (NodeId × String)} {last : Option Reading}

theorem marksBad_nil : MarksBad digest located last [] := trivial

theorem marksBad_read {address : String} {cid : Ident} {length : Nat} {sha : Option Sha}
    {answer : Except Failure Bytes} {effect : Effect} {rest : Exchanges} :
    MarksBad digest located last (readOf address cid length sha answer effect :: rest) ↔
      MarksBad digest located (some ⟨address, cid, length, sha, effect.copy⟩) rest := by
  simp [MarksBad, readOf, reading?]

theorem marksBad_request {request : Internal} {answer : Except Failure Response} {effect : Effect}
    {rest : Exchanges} :
    MarksBad digest located last (requestOf request answer effect :: rest) ↔
      (request.cmd = .badReplica →
        ReadBad digest located last request.chunk request.node) ∧
      MarksBad digest located last rest := by
  simp [MarksBad, requestOf, reading?]

theorem readBad_iff {address : String} {cid : Ident} {length : Nat} {sha : Option Sha}
    {copy : Option Bytes} {nid : NodeId} (assigned : (nid, address) ∈ located) :
    ReadBad digest located (some ⟨address, cid, length, sha, copy⟩) (some cid) (some nid) ↔
      ¬Node.Intact digest copy length sha := by
  simp [ReadBad, assigned]

theorem undisturbed_read {address : String} {cid : Ident} {length : Nat} {sha : Option Sha}
    {answer : Except Failure Bytes} {effect : Effect} :
    Undisturbed digest (readOf address cid length sha answer effect) ↔
      (Node.Intact digest effect.copy length sha → ∃ content, answer = .ok content) := Iff.rfl

theorem undisturbed_request {request : Internal} {answer : Except Failure Response}
    {effect : Effect} :
    Undisturbed digest (requestOf request answer effect) ↔
      (request.cmd = .manifest → ∃ response, answer = .ok response) := Iff.rfl

end Marks

/-- The marks of the loop are right exactly when no attempt on an intact copy
fails. -/
theorem readAny_marksBad {located : List (NodeId × String)} {cid : Ident} {length : Nat}
    {sha : Option Sha} {positions : List (NodeId × String)} (assigned : positions ⊆ located)
    {last : Option Reading} {trace : Exchanges} {result : Except Failure Result}
    (executed : Program.Executes (Serves digest e c)
      (readAny digest owner fields cid length sha positions) trace result) :
    MarksBad digest located last trace ↔ ∀ exchange ∈ trace, Undisturbed digest exchange := by
  induction positions generalizing last trace with
  | nil =>
      obtain ⟨rfl, _⟩ := Program.executes_done.mp executed
      simp [marksBad_nil]
  | cons position rest inductionHypothesis =>
      rcases position with ⟨nid, address⟩
      have here : (nid, address) ∈ located := assigned List.mem_cons_self
      have others : rest ⊆ located := fun other inRest => assigned (List.mem_cons_of_mem _ inRest)
      rcases Program.executes_recover.mp executed with
        ⟨value, attempted, rfl⟩ | ⟨failure, earlier, later, rfl, attempted, handled⟩
      · rcases executes_readCopy attempted with
          ⟨_, _, _, same, _⟩ | ⟨content, effect, answer, effect', _, rfl, ended⟩
        · cases same
        · rcases ended with ⟨_, _, _, same⟩ | ⟨response, rfl, _⟩
          · cases same
          · simp [marksBad_read, marksBad_request, marksBad_nil, undisturbed_read,
              undisturbed_request]
      · have raised : failure ≠ .other := by
          rcases executes_readCopy attempted with
            ⟨failure', _, raised, same, _⟩ | ⟨_, _, _, _, _, _, ended⟩
          · exact Except.error.inj same ▸ raised
          · rcases ended with ⟨failure', raised, _, same⟩ | ⟨_, _, same⟩
            · exact Except.error.inj same ▸ raised
            · cases same
        rw [if_neg raised] at handled
        obtain ⟨answer, effect, rest', rfl, _, ended⟩ := Program.executes_send_bind.mp handled
        -- what follows the mark is the rest of the loop, if anything
        have following : ∀ last, MarksBad digest located last rest' ↔
            ∀ exchange ∈ rest', Undisturbed digest exchange := by
          intro last
          rcases ended with ⟨_, _, rfl, _⟩ | ⟨_, _, continued⟩
          · simp [marksBad_nil]
          · exact inductionHypothesis others continued
        have marked : ∀ last, MarksBad digest located last
              (requestOf ⟨owner, .badReplica, fields, some cid, some nid⟩ answer effect :: rest') ↔
            ReadBad digest located last (some cid) (some nid) ∧
              ∀ exchange ∈ rest', Undisturbed digest exchange := by
          intro last
          simp [marksBad_request, following]
        rcases executes_readCopy attempted with
          ⟨_, _, _, _, rfl⟩ | ⟨content, _, answer', _, intact, rfl, unended⟩
        · show MarksBad digest located last (_ :: requestOf _ answer effect :: rest') ↔
            ∀ exchange ∈ _ :: requestOf _ answer effect :: rest', Undisturbed digest exchange
          rw [marksBad_read, marked, readBad_iff here]
          simp [undisturbed_read, undisturbed_request]
        · have failed : ∃ failure, answer' = .error failure := by
            rcases unended with ⟨failure, _, same, _⟩ | ⟨_, _, same⟩
            · exact ⟨failure, same⟩
            · cases same
          obtain ⟨_, rfl⟩ := failed
          show MarksBad digest located last (_ :: _ :: requestOf _ answer effect :: rest') ↔
            ∀ exchange ∈ _ :: _ :: requestOf _ answer effect :: rest', Undisturbed digest exchange
          rw [marksBad_read, marksBad_request, marked, readBad_iff here]
          simp [undisturbed_request, intact]

/-- A download marks only copies that are bad exactly when every read of an
intact copy brings its content and every revalidation succeeds. -/
theorem marks_justified {request : Request} {owner : String} {data : Bytes} {trace : Exchanges}
    {result : Except Failure Result} (authenticated : authenticate c request = .ok owner)
    (downloads : request.cmd = .download)
    (executed : Program.Executes (Serves digest e c) (dispatch digest c request data) trace result) :
    MarksBad digest (trace.flatMap locatedIn) none trace ↔
      ∀ exchange ∈ trace, Undisturbed digest exchange := by
  rw [dispatch_download authenticated downloads] at executed
  obtain ⟨answer, effect, rest, rfl, served, ended⟩ := Program.executes_send_bind.mp executed
  generalize ask : (⟨owner, .locations, request.fields, none, none⟩ : Internal) = asked at answer
  show MarksBad digest (List.flatMap locatedIn (requestOf asked answer effect :: rest)) none
      (requestOf asked answer effect :: rest) ↔
    ∀ exchange ∈ requestOf asked answer effect :: rest, Undisturbed digest exchange
  have settled : MarksBad digest (List.flatMap locatedIn (requestOf asked answer effect :: rest))
      none rest ↔ ∀ exchange ∈ rest, Undisturbed digest exchange := by
    rcases ended with ⟨_, _, rfl, _⟩ | ⟨response, rfl, continued⟩
    · simp [marksBad_nil]
    · unfold collect at continued
      split at continued
      · refine readAny_marksBad ?_ continued
        rw [List.flatMap_cons]
        exact List.subset_append_left _ _
      · obtain ⟨rfl, _⟩ := Program.executes_done.mp continued
        simp [marksBad_nil]
  rw [marksBad_request, List.forall_mem_cons, undisturbed_request]
  subst asked
  simpa using settled

end Handler

section Condemned

/-- An object of one byte is uploaded to the first two nodes and published. -/
def publishedActions : List Action :=
  stagedActions ++
    [.request installation "owner" (.prepare 1001 0 (some (sampleDigest [5]))) id,
      .confirm 0 installation 1001 (some "owner") 0,
      .confirmAsk 0, .confirmStat 0, .confirmAsk 0, .confirmStat 0,
      .confirmCommit 0 installation,
      .request installation "owner" (.complete 1001) id]

def published : State :=
  (Metadata.metadata.execute Metadata.metadata.initial publishedActions).get (by decide +kernel)

/-- The user reads the only chunk of the object. -/
def fetchFirst : Request where
  owner := some (.text "owner")
  token := some (.text "token")
  cmd := .download
  fields := {
    uploadId := none, objectId := some (.ident 1000), seq := some (.int 0), sha256 := none
    size := none, name := none, cursor := none }

theorem fetchCredential : authenticate installation fetchFirst = .ok "owner" := by
  decide +kernel

/-- A request of the download without an argument of its own. -/
def fetchAsk (cmd : Cmd) : Internal := ⟨"owner", cmd, fetchFirst.fields, none, none⟩

def fetchMark : Internal := ⟨"owner", .badReplica, fetchFirst.fields, some 1002, some 1⟩

def fetchLocated : Response × Database :=
  (published.db.dispatchBy .plain installation 0 id (fetchAsk .locations)).toOption.get
    (by decide +kernel)

def fetchMarked : Response × Database :=
  (published.db.dispatchBy .plain installation 0 id fetchMark).toOption.get (by decide +kernel)

def fetchManifest : Response × Database :=
  (fetchMarked.2.dispatchBy .plain installation 0 id (fetchAsk .manifest)).toOption.get
    (by decide +kernel)

/-- The revalidation after reading the first copy times out. -/
def timeoutTrace : Exchanges :=
  [requestOf (fetchAsk .locations) (.ok fetchLocated.1) ⟨[(published.db, fetchLocated.2)], none⟩,
    readOf "first:9000" 1002 1 (some (sampleDigest [5])) (.ok [5]) ⟨[], some [5]⟩,
    requestOf (fetchAsk .manifest) (.error .os) ⟨[], none⟩,
    requestOf fetchMark (.ok fetchMarked.1) ⟨[(published.db, fetchMarked.2)], none⟩,
    readOf "second:9000" 1002 1 (some (sampleDigest [5])) (.ok [5]) ⟨[], some [5]⟩,
    requestOf (fetchAsk .manifest) (.ok fetchManifest.1)
      ⟨[(fetchMarked.2, fetchManifest.2)], none⟩]

theorem fetchLocated_response : fetchLocated.1 = .reply (.located 1002 1 (some (sampleDigest [5]))
    [(1, "first:9000"), (2, "second:9000")]) := by
  decide +kernel

theorem timeout_executed :
    Program.Executes (Serves sampleDigest .plain installation)
      (dispatch sampleDigest installation fetchFirst []) timeoutTrace
      (.ok (.content 1 (some (sampleDigest [5])) [5])) := by
  rw [dispatch_download fetchCredential rfl]
  have located : Serves sampleDigest .plain installation (.metadata (fetchAsk .locations))
      (.ok fetchLocated.1) ⟨[(published.db, fetchLocated.2)], none⟩ :=
    .answered (by decide) (eq_ok_get _)
  have marked : Serves sampleDigest .plain installation (.metadata fetchMark)
      (.ok fetchMarked.1) ⟨[(published.db, fetchMarked.2)], none⟩ :=
    .answered (by decide) (eq_ok_get _)
  have revalidated : Serves sampleDigest .plain installation (.metadata (fetchAsk .manifest))
      (.ok fetchManifest.1) ⟨[(fetchMarked.2, fetchManifest.2)], none⟩ :=
    .answered (by decide) (eq_ok_get _)
  have lost : Serves sampleDigest .plain installation (.metadata (fetchAsk .manifest))
      (.error .os) ⟨[], none⟩ := .refused (by decide) none
  have content : ∀ address, Serves sampleDigest .plain installation
      (.get address 1002 1 (some (sampleDigest [5]))) (.ok [5]) ⟨[], some [5]⟩ :=
    fun address => .read (some [5])
  refine Program.executes_send_bind.mpr ⟨_, _, _, rfl, located, .inr ⟨_, rfl, ?_⟩⟩
  rw [fetchLocated_response]
  refine Program.executes_recover.mpr (.inr ⟨.os, [_, _], [_, _, _], rfl, ?_, ?_⟩)
  · refine Program.executes_send_bind.mpr ⟨_, _, _, rfl, content _, .inr ⟨_, rfl, ?_⟩⟩
    refine Program.executes_lift_bind.mpr (.inr ⟨(), by decide +kernel, ?_⟩)
    exact Program.executes_send_bind.mpr ⟨_, _, _, rfl, lost, .inl ⟨.os, rfl, rfl, rfl⟩⟩
  · rw [if_neg (by decide)]
    refine Program.executes_send_bind.mpr ⟨_, _, _, rfl, marked, .inr ⟨_, rfl, ?_⟩⟩
    refine Program.executes_recover.mpr (.inl ⟨_, ?_, rfl⟩)
    refine Program.executes_send_bind.mpr ⟨_, _, _, rfl, content _, .inr ⟨_, rfl, ?_⟩⟩
    refine Program.executes_lift_bind.mpr (.inr ⟨(), by decide +kernel, ?_⟩)
    exact Program.executes_send_bind.mpr
      ⟨_, _, _, rfl, revalidated, .inr ⟨_, rfl, Program.executes_pure.mpr ⟨rfl, rfl⟩⟩⟩

/-- A timeout of the revalidation makes the marks of the run unjustified. -/
theorem marks_justified_timeout :
    ¬MarksBad sampleDigest (timeoutTrace.flatMap locatedIn) none timeoutTrace := by
  intro justified
  have smooth := (marks_justified fetchCredential rfl timeout_executed).mp justified
  obtain ⟨_, answered⟩ := smooth (requestOf (fetchAsk .manifest) (.error .os) ⟨[], none⟩)
    (by simp [timeoutTrace]) rfl
  cases answered

/-- The copy on the first node is intact whenever it is read, and its row turns
from valid to bad. -/
theorem good_copy_condemned :
    Reachable Metadata.metadata published ∧
      Program.Executes (Serves sampleDigest .plain installation)
        (dispatch sampleDigest installation fetchFirst []) timeoutTrace
        (.ok (.content 1 (some (sampleDigest [5])) [5])) ∧
      (∀ exchange ∈ timeoutTrace, ∀ reading ∈ reading? exchange,
        Node.Intact sampleDigest reading.copy reading.length reading.sha) ∧
      ¬MarksBad sampleDigest (timeoutTrace.flatMap locatedIn) none timeoutTrace ∧
      ∃ exchange ∈ timeoutTrace, ∃ step ∈ exchange.effect.transactions,
        (step.1.replicas.get? (1002, 1)).map ReplicaRow.state = some .valid ∧
        (step.2.replicas.get? (1002, 1)).map ReplicaRow.state = some .bad := by
  refine ⟨⟨_, Metadata.metadata.run publishedActions (by decide +kernel)⟩, timeout_executed, ?_, ?_,
    requestOf fetchMark (.ok fetchMarked.1) ⟨[(published.db, fetchMarked.2)], none⟩,
    by simp [timeoutTrace], (published.db, fetchMarked.2), by simp [requestOf], by decide +kernel,
    by decide +kernel⟩
  · simp only [timeoutTrace, List.forall_mem_cons]
    refine ⟨by simp [reading?, requestOf], ?_, by simp [reading?, requestOf],
      by simp [reading?, requestOf], ?_, by simp [reading?, requestOf], by simp⟩
    · simp [reading?, readOf, Node.Intact]
    · simp [reading?, readOf, Node.Intact]
  · simp only [timeoutTrace, marksBad_request, marksBad_read, fetchMark]
    rintro ⟨_, _, unjustified, _⟩
    obtain ⟨reading, same, _, _, bad⟩ := unjustified trivial
    cases same
    exact bad (by decide +kernel)

end Condemned

end FileServer.Gateway

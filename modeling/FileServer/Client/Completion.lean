import FileServer.Client.Resumption
import FileServer.Metadata.Paging

/-!
# What an upload sends and leaves

An upload sends the chunks that the pages of `status` list.  A chunk that is
sent is confirmed when its answer arrives, so that no chunk is missing once the
last page has been read and its chunks are sent.
-/

namespace FileServer.Gateway

open FileServer.Metadata FileServer.Storage FileServer.Transition

variable {digest : Bytes → Sha} {e : Engine} {c : Config} {request : Request} {data : Bytes}
  {trace : Exchanges}

/-- An answer to a `confirm` comes from its second transaction. -/
theorem Serves.committed {request : Internal} (confirms : request.cmd = .confirm)
    {response : Response} {effect : Effect}
    (served : Serves digest e c (.metadata request) (.ok response) effect) :
    ∃ upload seq now now' db db' op bytes after,
      confirmed? request.fields = some (upload, seq) ∧ Later db db' ∧
      db.confirmBegin c now upload (some request.owner) seq = .ok op ∧
      db'.confirmCommit c now' op = .ok (bytes, after) ∧
      effect = ⟨[(db, db), (db', after)], none⟩ := by
  generalize answered : (Except.ok response : Except Failure Response) = answer at served
  cases served with
  | refused raised copy => cases answered
  | unconfirmed confirms => cases answered
  | transaction single => exact absurd confirms single
  | @confirmed _ confirms upload seq named now now' db db' later op begun _ given =>
      rcases given with rfl | ⟨failure, _, rfl⟩
      · cases committing : db'.confirmCommit c now' op with
        | error failure => simp [committing, reply, Except.map] at answered
        | ok result =>
            exact ⟨upload, seq, now, now', db, db', op, result.1, result.2, named, later,
              begun, committing, rfl⟩
      · cases answered

theorem upload_confirmed {value : Result} (uploads : request.cmd = .upload)
    (executed : Program.Executes (Serves digest e c) (dispatch digest c request data) trace
      (.ok value)) :
    ∃ user response effect,
      requestOf ⟨user, .confirm, request.fields, none, none⟩ (.ok response) effect ∈ trace := by
  rcases dispatch_authenticated executed with ⟨_, _, failed⟩ | ⟨user, authenticated⟩
  · cases failed
  rw [dispatch_upload authenticated uploads] at executed
  rcases Program.executes_lift_bind.mp executed with ⟨_, _, _, failed⟩ | ⟨_, _, continued⟩
  · cases failed
  obtain ⟨answer, effect, rest, rfl, _, ended⟩ := Program.executes_send_bind.mp continued
  rcases ended with ⟨_, _, _, failed⟩ | ⟨response, rfl, delivered⟩
  · cases failed
  unfold deliver at delivered
  split at delivered
  · rcases Program.executes_lift_bind.mp delivered with ⟨_, _, _, failed⟩ | ⟨_, _, delivered⟩
    · cases failed
    rcases Program.executes_bind.mp delivered with
      ⟨_, _, failed⟩ | ⟨_, earlier, later, rfl, _, confirmed⟩
    · cases failed
    obtain ⟨answer', effect', last, rfl, _, returned⟩ := Program.executes_send_bind.mp confirmed
    rcases returned with ⟨_, _, _, failed⟩ | ⟨response', answered, _⟩
    · cases failed
    obtain rfl : answer' = .ok response' := answered
    exact ⟨user, response', effect', List.mem_cons_of_mem _ (List.mem_append_right _
      List.mem_cons_self)⟩
  · cases (Program.executes_done.mp delivered).2

end FileServer.Gateway

namespace FileServer.Client

open FileServer.Gateway (Failure Result)
open FileServer.Metadata FileServer.Relational FileServer.Sequence FileServer.Storage
  FileServer.Transition

def delivered : ClientExchange → Option Nat
  | ⟨.request request _, answer, _⟩ =>
      match request.cmd, (answer : Except Failure Result) with
      | .upload, .ok _ => (request.fields.seq.bind Value.int?).map Int.toNat
      | _, _ => none
  | _ => none

def sentSeqs (trace : List ClientExchange) : List Nat := trace.filterMap delivered

def Read (trace : List ClientExchange) (db : Database) : Prop :=
  ∃ exchange ∈ trace, AsksStatus exchange ∧ ∃ step ∈ transactions exchange, step.1 = db

variable {digest : Bytes → Sha} {e : Engine} {client : Account} {history : List (Event State Action)}
  {σ : State} {trace : List ClientExchange} {file : Bytes} {upload : Ident} {chunkSize : Nat}

theorem send_sent {seq : Nat} {value : Result}
    (executed : Program.Executes (Serves digest e) (client.send digest file upload chunkSize seq)
      trace (.ok value)) : sentSeqs trace = [seq] := by
  obtain ⟨lost, effect, rfl, _, resent⟩ := executes_attempt executed
  have unanswered : lost.filterMap delivered = [] := by
    refine List.filterMap_eq_nil_iff.mpr fun exchange membership => ?_
    obtain ⟨effect', rfl, _⟩ := resent exchange membership
    rfl
  rw [sentSeqs, List.filterMap_append, unanswered]
  rfl

/-- A request for something else sends no chunk. -/
def SendsNone (call : Call) : Prop :=
  ∃ request data, call = .request request data ∧ request.cmd ≠ .upload

theorem sentSeqs_eq_nil (sendsNone : ∀ exchange ∈ trace, SendsNone exchange.call) :
    sentSeqs trace = [] := by
  refine List.filterMap_eq_nil_iff.mpr fun exchange membership => ?_
  obtain ⟨request, data, same, other⟩ := sendsNone exchange membership
  rcases exchange with ⟨call, answer, effect⟩
  obtain rfl : call = .request request data := same
  rcases request with ⟨owner, token, cmd, fields⟩
  cases cmd with
  | upload => exact absurd rfl other
  | _ => rfl

theorem askStatus_sent {cursor : Option Nat} {result : Except Failure Status}
    (executed : Program.Executes (Serves digest e) (client.askStatus upload cursor) trace result) :
    sentSeqs trace = [] := by
  have asks : (client.askStatus upload cursor).Calls SendsNone :=
    calls_askStatus ⟨_, _, rfl, by simp [Account.frame]⟩
  exact sentSeqs_eq_nil (asks.executes executed)

theorem send_confirms {seq : Nat} {value : Result} (run : Run Metadata.metadata history σ)
    (executed : Program.Executes (Serves digest e) (client.send digest file upload chunkSize seq)
      trace (.ok value))
    (recorded : Recorded history trace) :
    ∃ cid chunk, σ.db.chunks.get? cid = some chunk ∧ chunk.upload = upload ∧ chunk.seq = seq ∧
      chunk.state = .confirmed := by
  obtain ⟨lost, effect, rfl, served, _⟩ := executes_attempt executed
  obtain ⟨c, answered⟩ := served.answer
  obtain ⟨user, response, effect', confirmed⟩ := Gateway.upload_confirmed rfl answered
  obtain ⟨_, _, now, now', db, db', op, bytes, after, named, later, begun, committed, rfl⟩ :=
    Gateway.Serves.committed rfl (answered.served confirmed)
  cases named
  generalize last : asked _ _ (.ok value) effect = exchange at recorded
  have inside : ∀ step ∈ [(db, db), (db', after)], step ∈ transactions exchange := by
    intro step membership
    rw [← last]
    exact List.mem_flatMap.mpr ⟨_, confirmed, membership⟩
  obtain ⟨first, inHistory, rfl, _⟩ := recorded exchange (by simp) _ (inside (db, db) (by simp))
  obtain ⟨second, inHistory', rfl, rfl⟩ :=
    recorded exchange (by simp) _ (inside (db', after) (by simp))
  obtain ⟨_, _, cid, chunk, _, _, _, _, selected, _, _, _, shape⟩ := Database.confirmBegin_ok begun
  obtain ⟨present, owned, numbered⟩ := Database.chunkAt_eq_some _ selected
  obtain ⟨between, presentBetween, _⟩ := later.chunks cid chunk present
  obtain ⟨_, _, settled, _, _, _, _, _, _, executed, done⟩ := Database.confirmCommit_ok committed
  have marked : second.after.db.chunks.get? cid = some { between with state := .confirmed } := by
    rw [done, Database.confirmLoop_chunks executed, shape, Table.get?_modify_self, presentBetween,
      Option.map_some]
  obtain ⟨_, grown⟩ := visited_grown run (.inr ⟨first, inHistory, rfl⟩)
  obtain ⟨_, grown'⟩ := visited_grown run (run.visitedAfter inHistory')
  obtain ⟨new, stored, kept, _⟩ := grown.chunks cid chunk present
  obtain ⟨_, stored', kept', _⟩ := grown'.chunks cid _ marked
  obtain rfl := Option.some.inj (stored.symm.trans stored')
  exact ⟨cid, new, stored, kept.upload.trans owned,
    kept.seq.trans (Int.ofNat.inj numbered), kept'.confirmed rfl⟩

theorem Read.mono {first second : List ClientExchange} {db : Database} (read : Read first db)
    (subset : first ⊆ second) : Read second db := by
  obtain ⟨exchange, membership, done⟩ := read
  exact ⟨exchange, subset membership, done⟩

theorem askStatus_page {cursor : Nat} {page : Status} (run : Run Metadata.metadata history σ)
    (executed : Program.Executes (Serves digest e) (client.askStatus upload (some cursor)) trace
      (.ok page))
    (recorded : Recorded history trace) :
    ∃ τ, Visited history σ τ ∧ Read trace τ.db ∧ (∃ row object,
      τ.db.uploads.get? upload = some row ∧ τ.db.objects.get? row.object = some object) ∧
      Sequence.page 256 (τ.db.unconfirmed upload 0) cursor = (page.missing, page.nextCursor) := by
  obtain ⟨exchange, membership, asks, τ, seen, read, now, owner, expires, confirmed, answered⟩ :=
    askStatus_read run executed recorded
  obtain ⟨row, object, stored, located, _⟩ :=
    Database.status_ok (reachable_invariant (run.reached seen)).consistent answered
  exact ⟨τ, seen, ⟨exchange, membership, asks, read⟩, ⟨row, object, stored, located⟩,
    Database.status_page answered⟩

theorem sendMissing_pages {fuel cursor : Nat} (run : Run Metadata.metadata history σ)
    (executed : Program.Executes (Serves digest e)
      (client.sendMissing digest file upload chunkSize fuel cursor) trace (.ok ()))
    (recorded : Recorded history trace) :
    (∃ states : List State,
      (∀ τ ∈ states, Visited history σ τ ∧ Read trace τ.db ∧ ∃ row object,
        τ.db.uploads.get? upload = some row ∧ τ.db.objects.get? row.object = some object) ∧
      Paging 256 (states.map fun τ => τ.db.unconfirmed upload 0) cursor (sentSeqs trace)) ∧
    ∀ seq ∈ sentSeqs trace, ∃ cid chunk, σ.db.chunks.get? cid = some chunk ∧
      chunk.upload = upload ∧ chunk.seq = seq ∧ chunk.state = .confirmed := by
  induction fuel generalizing cursor trace with
  | zero => cases (Program.executes_done.mp executed).2
  | succ fuel inductionHypothesis =>
      rcases Program.executes_bind.mp executed with
        ⟨_, _, failed⟩ | ⟨page, front, rest, rfl, asking, executed⟩
      · cases failed
      rcases Program.executes_bind.mp executed with
        ⟨_, _, failed⟩ | ⟨_, sends, last, rfl, sending, continued⟩
      · cases failed
      obtain ⟨τ, seen, read, rows, listed⟩ :=
        askStatus_page run asking fun exchange membership => recorded exchange (by simp [membership])
      have first : sentSeqs sends = page.missing := by
        rw [sentSeqs, sending.all_filterMap fun _ _ _ executed => send_sent executed, List.map_id']
      have confirmed : ∀ seq ∈ page.missing, ∃ cid chunk, σ.db.chunks.get? cid = some chunk ∧
          chunk.upload = upload ∧ chunk.seq = seq ∧ chunk.state = .confirmed := by
        intro seq awaited
        obtain ⟨part, result, inSends, executed⟩ := sending.all_ok seq awaited
        exact send_confirms run executed fun exchange membership =>
          recorded exchange (by simp [inSends membership])
      have split : sentSeqs (front ++ (sends ++ last)) = page.missing ++ sentSeqs last := by
        have asked : sentSeqs front = [] := askStatus_sent asking
        rw [sentSeqs] at asked first
        rw [sentSeqs, List.filterMap_append, List.filterMap_append, asked, first, List.nil_append,
          sentSeqs]
      rw [split]
      have readHere : Read (front ++ (sends ++ last)) τ.db := read.mono (by simp)
      cases follows : page.nextCursor with
      | none =>
          rw [follows] at continued listed
          obtain ⟨rfl, _⟩ := Program.executes_pure.mp continued
          rw [show sentSeqs [] = [] from rfl, List.append_nil page.missing]
          refine ⟨⟨[τ], ?_, .last listed⟩, confirmed⟩
          rw [List.forall_mem_singleton]
          exact ⟨seen, readHere, rows⟩
      | some next =>
          rw [follows] at continued listed
          obtain ⟨⟨states, visited, paging⟩, later⟩ := inductionHypothesis continued
            fun exchange membership => recorded exchange (by simp [membership])
          refine ⟨⟨τ :: states, ?_, .next listed paging⟩, List.forall_mem_append.mpr
            ⟨confirmed, later⟩⟩
          refine List.forall_mem_cons.mpr ⟨⟨seen, readHere, rows⟩, fun other membership => ?_⟩
          obtain ⟨seenOther, readOther, rowsOther⟩ := visited other membership
          exact ⟨seenOther, readOther.mono (by simp), rowsOther⟩

/-- Each chunk that is missing in all the tables that are read is sent once,
and none is missing in the end. -/
structure SendsMissing (trace : List ClientExchange) (upload : Ident) (db : Database) : Prop where
  once : (sentSeqs trace).Pairwise (· < ·)
  listed : ∀ seq ∈ sentSeqs trace, ∃ before, Read trace before ∧ seq ∈ before.unconfirmed upload 0
  covered : ∀ seq, (∀ before, Read trace before → seq ∈ before.unconfirmed upload 0) →
    seq ∈ sentSeqs trace
  complete : db.unconfirmed upload 0 = []

/-- The run has come past its sends: it returns, or it asks to complete the upload. -/
def PastSends (client : Account) (upload : Ident) (trace : List ClientExchange)
    (result : Except Failure Result) : Prop :=
  (∃ value, result = .ok value) ∨ ∃ answer effect,
    asked (client.frame .complete (uploadFields upload)) [] answer effect ∈ trace

def AsksFor (client : Account) (upload : Ident) (trace : List ClientExchange) : Prop :=
  ∃ cursor answer effect,
    asked (client.frame .status (statusFields upload cursor)) [] answer effect ∈ trace

/-- The loop, once it has ended. -/
theorem sendMissing_sends {fuel : Nat} (run : Run Metadata.metadata history σ)
    (executed : Program.Executes (Serves digest e)
      (client.sendMissing digest file upload chunkSize fuel 0) trace (.ok ()))
    (recorded : Recorded history trace) : SendsMissing trace upload σ.db := by
  obtain ⟨⟨states, visited, paging⟩, confirmed⟩ := sendMissing_pages run executed recorded
  have sorted : ∀ values ∈ states.map fun τ => τ.db.unconfirmed upload 0,
      values.Pairwise (· < ·) := by
    intro values membership
    obtain ⟨τ, listed, rfl⟩ := List.mem_map.mp membership
    obtain ⟨seen, _, row, object, stored, located⟩ := visited τ listed
    exact (unconfirmed_bounded (run.reached seen) stored located).1
  obtain ⟨increasing, listed⟩ := paging.increasing (by decide) sorted
  refine ⟨increasing, fun seq membership => ?_, fun seq everywhere => ?_, ?_⟩
  · obtain ⟨_, values, inMap, present⟩ := listed seq membership
    obtain ⟨τ, inStates, rfl⟩ := List.mem_map.mp inMap
    exact ⟨τ.db, (visited τ inStates).2.1, present⟩
  · refine paging.complete (by decide) sorted (fun values membership => ?_) (Nat.zero_le seq)
    obtain ⟨τ, inStates, rfl⟩ := List.mem_map.mp membership
    exact everywhere τ.db (visited τ inStates).2.1
  · refine List.eq_nil_iff_forall_not_mem.mpr fun seq pending => ?_
    have shaped := (reachable_invariant run.reachable).consistent.shaped
    obtain ⟨cid, chunk, present, owned, unconfirmed, rfl⟩ := Database.mem_unconfirmed.mp pending
    by_cases membership : chunk.seq ∈ sentSeqs trace
    · obtain ⟨other, chunk', present', owned', numbered, closed⟩ := confirmed _ membership
      obtain rfl := shaped.seqUnique _ _ _ _ present present' (owned.trans owned'.symm) numbered.symm
      obtain rfl := Option.some.inj (present.symm.trans present')
      exact unconfirmed closed
    · obtain ⟨values, inMap, absent⟩ := paging.absent (by decide) sorted (Nat.zero_le _) membership
      obtain ⟨τ, inStates, rfl⟩ := List.mem_map.mp inMap
      obtain ⟨seen, _, row', object', stored', _⟩ := visited τ inStates
      exact absent (unconfirmed_subset run seen stored' pending)

/-- What is done before and after the loop sends nothing. -/
theorem SendsMissing.extend {front sends back : List ClientExchange} {db : Database}
    (missing : SendsMissing sends upload db) (before : sentSeqs front = [])
    (after : sentSeqs back = []) : SendsMissing (front ++ (sends ++ back)) upload db := by
  have same : sentSeqs (front ++ (sends ++ back)) = sentSeqs sends := by
    rw [sentSeqs] at before after
    rw [sentSeqs, List.filterMap_append, List.filterMap_append, before, after, List.nil_append,
      List.append_nil, sentSeqs]
  have inside : sends ⊆ front ++ (sends ++ back) := by simp
  refine ⟨same ▸ missing.once, ?_, ?_, missing.complete⟩
  · rw [same]
    intro seq membership
    obtain ⟨before, read, present⟩ := missing.listed seq membership
    exact ⟨before, read.mono inside, present⟩
  · rw [same]
    exact fun seq everywhere => missing.covered seq fun before read =>
      everywhere before (read.mono inside)

section Requests

/-- A request that does not ask to complete the upload. -/
def Continues (client : Account) (upload : Ident) (call : Call) : Prop :=
  call ≠ .request (client.frame .complete (uploadFields upload)) []

theorem calls_askStatus_continues {cursor : Option Nat} :
    (client.askStatus upload cursor).Calls (Continues client upload) :=
  calls_askStatus (by simp [Continues, Account.frame])

theorem PastSends.continues {failure : Failure}
    (past : PastSends client upload trace (.error failure))
    (continues : ∀ exchange ∈ trace, Continues client upload exchange.call) : False := by
  rcases past with ⟨_, failed⟩ | ⟨answer, effect, membership⟩
  · cases failed
  · exact continues _ membership rfl

end Requests

theorem continueUpload_sendsMissing {fuel : Nat} {result : Except Failure Result}
    (run : Run Metadata.metadata history σ)
    (executed : Program.Executes (Serves digest e) (client.continueUpload digest file fuel upload)
      trace result)
    (recorded : Recorded history trace) (past : PastSends client upload trace result) :
    SendsMissing trace upload σ.db := by
  rcases Program.executes_bind.mp executed with
    ⟨_, asking, rfl⟩ | ⟨status, front, rest, rfl, asking, executed⟩
  · exact (past.continues (calls_askStatus_continues.executes asking)).elim
  have began := calls_askStatus_continues.executes asking
  rcases Program.executes_lift_bind.mp executed with ⟨_, _, rfl, rfl⟩ | ⟨_, _, executed⟩
  · rw [List.append_nil] at past
    exact (past.continues began).elim
  by_cases closed : status.state = .completed
  · rw [if_pos closed] at executed
    obtain ⟨rfl, _⟩ := Program.executes_pure.mp executed
    rw [List.append_nil] at recorded ⊢
    obtain ⟨exchange, inFront, asks, τ, seen, read, now, owner, expires, confirmed, answered⟩ :=
      askStatus_read run asking recorded
    have reached := run.reached seen
    obtain ⟨row, object, stored, located, _, _, same, _⟩ :=
      Database.status_ok (reachable_invariant reached).consistent answered
    have nothing : τ.db.unconfirmed upload 0 = [] := by
      rw [Database.unconfirmed_empty_iff]
      exact completed_confirmed reached stored (same.symm.trans closed)
    have quiet : sentSeqs front = [] := askStatus_sent asking
    refine ⟨quiet ▸ .nil, by simp [quiet], fun seq everywhere => ?_, ?_⟩
    · have present := everywhere τ.db ⟨exchange, inFront, asks, read⟩
      rw [nothing] at present
      cases present
    · exact List.subset_nil.mp (nothing ▸ unconfirmed_subset run seen stored)
  · rw [if_neg closed] at executed
    rcases Program.executes_bind.mp executed with
      ⟨_, sending, rfl⟩ | ⟨_, sends, last, rfl, sending, completing⟩
    · refine (past.continues fun exchange membership => ?_).elim
      rcases List.mem_append.mp membership with inFront | inSends
      · exact began exchange inFront
      · have sends : (client.sendMissing digest file upload status.chunkSize fuel 0).Calls
            (Continues client upload) := by
          apply calls_sendMissing <;> simp [Continues, Account.frame]
        exact sends.executes sending exchange inSends
    · have ends : (client.request .complete (uploadFields upload) []).Calls SendsNone :=
        calls_attempt ⟨_, _, rfl, by simp [Account.frame]⟩ 2
      exact (sendMissing_sends run sending fun exchange membership =>
        recorded exchange (by simp [membership])).extend (askStatus_sent asking)
          (sentSeqs_eq_nil (ends.executes completing))

def NamesOnly (client : Account) (upload : Ident) (call : Call) : Prop :=
  ∀ other cursor, call = .request (client.frame .status (statusFields other cursor)) [] →
    other = upload

theorem namesOnly_status (cursor : Option Nat) :
    NamesOnly client upload (.request (client.frame .status (statusFields upload cursor)) []) := by
  intro other cursor' same
  simp only [Account.frame, statusFields, Call.request.injEq, Gateway.Request.mk.injEq,
    Fields.mk.injEq, Option.some.injEq, Value.ident.injEq] at same
  exact same.1.2.2.2.1.symm

theorem namesOnly_other {cmd : Cmd} {fields : Fields} {data : Bytes} (different : cmd ≠ .status) :
    NamesOnly client upload (.request (client.frame cmd fields) data) := by
  intro other cursor same
  simp only [Account.frame, Call.request.injEq, Gateway.Request.mk.injEq] at same
  exact absurd same.1.2.2.1 different

theorem continueUpload_asksFor {fuel : Nat} {other : Ident} {result : Except Failure Result}
    (executed : Program.Executes (Serves digest e) (client.continueUpload digest file fuel other)
      trace result)
    (asks : AsksFor client upload trace) : upload = other := by
  have names : (client.continueUpload digest file fuel other).Calls (NamesOnly client other) :=
    .bind (calls_askStatus (namesOnly_status none)) fun _ => .lift_bind fun _ =>
      calls_finish (fun cursor => namesOnly_status cursor)
        (fun _ => namesOnly_other (by decide)) (namesOnly_other (by decide))
  obtain ⟨cursor, answer, effect, membership⟩ := asks
  exact names.executes executed _ membership upload cursor rfl

section Fuel

variable {row : UploadRow} {object : ObjectRow} (run : Run Metadata.metadata history σ)
  (stored : σ.db.uploads.get? upload = some row)
  (located : σ.db.objects.get? row.object = some object)
include run stored located

theorem sendMissing_fuel {fuel cursor : Nat} {result : Except Failure Unit} (more : Nat)
    (within : cursor ≤ chunkCount object.size object.chunkSize)
    (enough : chunkCount object.size object.chunkSize < cursor + 256 * fuel)
    (executed : Program.Executes (Serves digest e)
      (client.sendMissing digest file upload chunkSize fuel cursor) trace result)
    (recorded : Recorded history trace) :
    Program.Executes (Serves digest e)
      (client.sendMissing digest file upload chunkSize (fuel + more) cursor) trace result := by
  induction fuel generalizing cursor trace with
  | zero => omega
  | succ fuel inductionHypothesis =>
      rw [Nat.add_right_comm]
      refine Program.executes_bind.mpr ?_
      rcases Program.executes_bind.mp executed with
        failed | ⟨page, front, rest, rfl, asking, executed⟩
      · exact .inl failed
      refine .inr ⟨page, front, rest, rfl, asking, Program.executes_bind.mpr ?_⟩
      rcases Program.executes_bind.mp executed with
        failed | ⟨_, sends, last, rfl, sending, continued⟩
      · exact .inl failed
      refine .inr ⟨(), sends, last, rfl, sending, ?_⟩
      cases follows : page.nextCursor with
      | none =>
          rw [follows] at continued
          exact continued
      | some next =>
          rw [follows] at continued
          obtain ⟨τ, seen, _, ⟨before, old, storedBefore, locatedBefore⟩, listed⟩ :=
            askStatus_page run asking fun exchange membership =>
              recorded exchange (by simp [membership])
          obtain ⟨sorted, bounded⟩ :=
            unconfirmed_bounded (run.reached seen) storedBefore locatedBefore
          obtain ⟨_, _, storedLater, _, locatedLater, kept⟩ :=
            upload_kept run seen storedBefore locatedBefore
          obtain rfl := Option.some.inj (stored.symm.trans storedLater)
          obtain rfl := Option.some.inj (located.symm.trans locatedLater)
          rw [← kept.size, ← kept.chunkSize] at bounded
          rcases page_cases (by decide : 0 < 256) with
            ended | ⟨filled, final, back, split, full, read⟩
          · cases (Prod.mk.inj (listed.symm.trans ended)).2.symm.trans follows
          have same := Option.some.inj ((Prod.mk.inj (listed.symm.trans read)).2.symm.trans follows)
          have advanced := filter_advances sorted split
          have last := bounded final (filter_page sorted split (by simp)).2.1
          exact inductionHypothesis (by omega) (by omega) continued fun exchange membership =>
            recorded exchange (by simp [membership])

theorem continueUpload_fuel {fuel : Nat} {result : Except Failure Result} (more : Nat)
    (enough : chunkCount object.size object.chunkSize / 256 < fuel)
    (executed : Program.Executes (Serves digest e) (client.continueUpload digest file fuel upload)
      trace result)
    (recorded : Recorded history trace) :
    Program.Executes (Serves digest e) (client.continueUpload digest file (fuel + more) upload)
      trace result := by
  refine Program.executes_bind.mpr ?_
  rcases Program.executes_bind.mp executed with
    failed | ⟨status, front, rest, rfl, asking, executed⟩
  · exact .inl failed
  refine .inr ⟨status, front, rest, rfl, asking, Program.executes_lift_bind.mpr ?_⟩
  rcases Program.executes_lift_bind.mp executed with failed | ⟨_, fits, executed⟩
  · exact .inl failed
  refine .inr ⟨(), fits, ?_⟩
  by_cases closed : status.state = .completed
  · rw [if_pos closed] at executed ⊢
    exact executed
  rw [if_neg closed] at executed ⊢
  refine Program.executes_bind.mpr ?_
  have pages : ∀ {part : List ClientExchange} {ending : Except Failure Unit}, part ⊆ rest →
      Program.Executes (Serves digest e)
        (client.sendMissing digest file upload status.chunkSize fuel 0) part ending →
      Program.Executes (Serves digest e)
        (client.sendMissing digest file upload status.chunkSize (fuel + more) 0) part ending :=
    fun inRest sending => sendMissing_fuel run stored located more (Nat.zero_le _) (by omega) sending
      fun exchange membership => recorded exchange (List.mem_append_right _ (inRest membership))
  rcases Program.executes_bind.mp executed with
    ⟨failure, sending, rfl⟩ | ⟨_, sends, last, rfl, sending, completing⟩
  · exact .inl ⟨failure, pages (List.Subset.refl _) sending, rfl⟩
  · exact .inr ⟨(), sends, last, rfl, pages (List.subset_append_left _ _) sending, completing⟩

end Fuel

section Started

variable {name : Value} {fuel : Nat} {start : Option Ident} {result : Except Failure Result}
  (executed : Program.Executes (Serves digest e) (client.upload digest file name fuel start)
    trace result)
include executed

theorem upload_continued (asks : AsksFor client upload trace) :
    ∃ front rest, trace = front ++ rest ∧ (∀ exchange ∈ front, SendsNone exchange.call ∧
      Continues client upload exchange.call) ∧
      Program.Executes (Serves digest e) (client.continueUpload digest file fuel upload) rest
        result ∧
      ∀ fuel', Program.Executes (Serves digest e)
        (client.continueUpload digest file fuel' upload) rest result →
        Program.Executes (Serves digest e) (client.upload digest file name fuel' start) trace
          result := by
  cases start with
  | some other =>
      obtain rfl := continueUpload_asksFor executed asks
      exact ⟨[], trace, rfl, by simp, executed, fun _ executed => executed⟩
  | none =>
      have opens : (client.init file name).Calls fun call =>
          SendsNone call ∧ Continues client upload call ∧ ∀ cursor, call ≠
            .request (client.frame .status (statusFields upload cursor)) [] :=
        .bind (calls_attempt ⟨⟨_, _, rfl, by simp [Account.frame]⟩,
          by simp [Continues, Account.frame], by simp [Account.frame]⟩ 2) fun _ => trivial
      obtain ⟨cursor, answer, effect, membership⟩ := asks
      rcases Program.executes_bind.mp executed with
        ⟨failure, opening, _⟩ | ⟨other, front, rest, rfl, opening, continued⟩
      · exact absurd rfl ((opens.executes opening _ membership).2.2 cursor)
      have inRest := (List.mem_append.mp membership).resolve_left fun inFront =>
        (opens.executes opening _ inFront).2.2 cursor rfl
      obtain rfl := continueUpload_asksFor continued ⟨cursor, answer, effect, inRest⟩
      refine ⟨front, rest, rfl, fun exchange inFront => ?_, continued, fun fuel' again =>
        Program.executes_bind.mpr (.inr ⟨upload, front, rest, rfl, opening, again⟩)⟩
      obtain ⟨sendsNone, continues, _⟩ := opens.executes opening exchange inFront
      exact ⟨sendsNone, continues⟩

theorem upload_sendsMissing (run : Run Metadata.metadata history σ)
    (recorded : Recorded history trace) (asks : AsksFor client upload trace)
    (past : PastSends client upload trace result) : SendsMissing trace upload σ.db := by
  obtain ⟨front, rest, rfl, quiet, continued, _⟩ := upload_continued executed asks
  have past' : PastSends client upload rest result := by
    rcases past with returned | ⟨answer, effect, membership⟩
    · exact .inl returned
    · refine .inr ⟨answer, effect, (List.mem_append.mp membership).resolve_left fun inFront => ?_⟩
      exact (quiet _ inFront).2 rfl
  have missing := (continueUpload_sendsMissing run continued (fun exchange membership =>
    recorded exchange (by simp [membership])) past').extend
      (sentSeqs_eq_nil fun exchange inFront => (quiet exchange inFront).1)
      (rfl : sentSeqs [] = [])
  rwa [List.append_nil] at missing

end Started

/-- Following the pages of `status` ends, however chunks are confirmed
meanwhile.  It lists chunks in order, every one that is not confirmed at the
last page among them, and nothing else when nothing is confirmed meanwhile.  An
upload whose sends succeed sends each missing chunk once and leaves none. -/
theorem paging_complete {row : UploadRow} {object : ObjectRow} (run : Run Metadata.metadata history σ)
    (stored : σ.db.uploads.get? upload = some row)
    (located : σ.db.objects.get? row.object = some object) :
    (∀ states : Nat → State, Metadata.metadata.Leads σ (states 0) →
      (∀ index, Metadata.metadata.Leads (states index) (states (index + 1))) →
      ∃ count ≤ chunkCount object.size object.chunkSize / 256, ∃ seqs,
        Following object.owner upload ((List.range (count + 1)).map states) 0 seqs) ∧
    (∀ owner states last seqs, (∀ τ ∈ states ++ [last], Metadata.metadata.Leads σ τ) →
      (states ++ [last]).Pairwise Metadata.metadata.Leads →
      Following owner upload (states ++ [last]) 0 seqs →
      seqs.Pairwise (· < ·) ∧ last.db.unconfirmed upload 0 ⊆ seqs ∧
        ((∀ τ ∈ states, τ.db.unconfirmed upload 0 = last.db.unconfirmed upload 0) →
          seqs = last.db.unconfirmed upload 0)) ∧
    ∀ digest e client file name fuel start trace result,
      Program.Executes (Serves digest e) (Account.upload client digest file name fuel start) trace
        result →
      Recorded history trace → AsksFor client upload trace →
      (PastSends client upload trace result → SendsMissing trace upload σ.db) ∧
        (chunkCount object.size object.chunkSize / 256 < fuel → ∀ more,
          Program.Executes (Serves digest e)
            (Account.upload client digest file name (fuel + more) start) trace result) := by
  refine ⟨following_ends run.reachable stored located, fun owner states last seqs leads ordered
    following => following_lists run.reachable stored located leads ordered following, ?_⟩
  intro digest e client file name fuel start trace result executed recorded asks
  refine ⟨upload_sendsMissing executed run recorded asks, fun enough more => ?_⟩
  obtain ⟨front, rest, rfl, _, continued, again⟩ := upload_continued executed asks
  exact again (fuel + more) (continueUpload_fuel run stored located more enough continued
    fun exchange membership => recorded exchange (by simp [membership]))

section Paged

/-- Chunks of one byte. -/
def byteChunks : Config :=
  { installation with
    chunk := 1
    chunkBounds := by decide
    leaseBounds := by decide
    maxChunks := 300
    maxChunksBounds := by decide }

def pagedNodes : State :=
  (Metadata.metadata.execute Metadata.metadata.initial
    [.beat 1 byteChunks 1 101 201 1000 1000, .register 1 byteChunks,
      .beat 2 byteChunks 2 102 202 1000 1000, .register 2 byteChunks]).get (by decide +kernel)

/-- An upload of 258 bytes when `init` has reserved its first chunks. -/
def pagedTables (count : Nat) : Database where
  nodes := ⟨[(1, ⟨"first:9000", 101, 201, 0, 1000, 1000, count, 0, .healthy⟩),
    (2, ⟨"second:9000", 102, 202, 0, 1000, 1000, count, 0, .healthy⟩)], by simp⟩
  objects := ⟨[(1000, ⟨"owner", "file", 258, 1, 2, .staging⟩)], by simp⟩
  uploads := ⟨[(1001, ⟨1000, .uploading, 1000⟩)], by simp⟩
  chunks := ⟨(List.range count).map fun seq =>
    (1000 + (seq + 2), ⟨1001, seq, 1, none, .pending⟩), by
    rw [List.map_map]
    exact List.nodup_range.map fun first second same => by simpa using same⟩
  replicas := ⟨(List.range count).flatMap fun seq =>
    [((1000 + (seq + 2), 1), ⟨201, .reserved, .reserved⟩),
      ((1000 + (seq + 2), 2), ⟨202, .reserved, .reserved⟩)], by
    induction count with
    | zero => simp
    | succ count inductionHypothesis =>
        rw [List.range_succ, List.flatMap_append, List.map_append, List.nodup_append]
        refine ⟨inductionHypothesis, by simp, ?_⟩
        simp only [List.mem_map, List.mem_flatMap, List.mem_range]
        rintro key ⟨entry, ⟨seq, inRange, membership⟩, rfl⟩ other last
        simp at membership last
        rcases membership with rfl | rfl <;> rcases last with rfl | rfl <;> simp <;> omega⟩
  tasks := .empty
  instances := ∅

theorem reserve_paged {db : Database} {count : Nat} (nodes : db.nodes = (pagedTables count).nodes)
    (left : count < 258) (cid : Ident) : db.reserve byteChunks 0 cid 1 2 [] =
      .ok ([1, 2], (db.reserveOn cid 1 201 1).reserveOn cid 2 202 1) := by
  have sorted : db.nodesByLoad = (pagedTables count).nodes.rows := by
    simp [Database.nodesByLoad, nodes, pagedTables, List.insertionSort]
  have room : ¬(1000 - (count : Int)) < 1 := by omega
  have suspect : byteChunks.suspect = 3 := rfl
  simp [Database.reserve, sorted, pagedTables, Database.reserveLoop, NodeRow.Alive, room, suspect,
    require]

theorem initChunk_paged (count : Nat) (left : count < 258) :
    Database.initChunk byteChunks 0 258 1001 (1000 + ·) (pagedTables count) count =
      .ok (pagedTables (count + 1)) := by
  have length : min byteChunks.chunk (258 - count * byteChunks.chunk) = 1 := by
    show min 1 (258 - count * 1) = 1
    omega
  have fresh : (pagedTables count).chunks.get? (1000 + (count + 2)) = none := by
    rw [Table.get?, List.lookup_eq_none_iff]
    simp only [pagedTables, List.mem_map, List.mem_range]
    rintro _ ⟨seq, inRange, rfl⟩
    simp; omega
  have absent : ∀ node, (pagedTables count).replicas.get? (1000 + (count + 2), node) = none := by
    intro node
    refine Option.eq_none_iff_forall_ne_some.mpr fun row stored => ?_
    have listed := (pagedTables count).replicas.mem_rows_iff.mpr stored
    simp only [pagedTables, List.mem_flatMap, List.mem_range] at listed
    obtain ⟨seq, inRange, membership⟩ := listed
    simp at membership
    omega
  have absent' : ((pagedTables count).replicas.insertNew (1000 + (count + 2), 1)
      ⟨201, .reserved, .reserved⟩ (absent 1)).get? (1000 + (count + 2), 2) = none := by
    simp [absent]
  let opened : Database := { pagedTables count with
    chunks := (pagedTables count).chunks.insertNew (1000 + (count + 2))
      ⟨1001, count, 1, none, .pending⟩ fresh }
  have nodes : opened.nodes = (pagedTables count).nodes := rfl
  have reserved := reserve_paged nodes left (1000 + (count + 2))
  simp only [Database.initChunk, length]
  rw [Table.insert?, dif_pos fresh]
  refine bind_eq_ok.mpr ⟨_, rfl, bind_eq_ok.mpr ⟨_, reserved, congrArg Except.ok ?_⟩⟩
  refine Database.ext ?_ rfl rfl ?_ ?_ rfl rfl
  · exact Table.ext (by
      simp [pagedTables, opened, Database.reserveOn, Table.modify, Table.mapRows])
  · exact Table.ext (by
      simp [pagedTables, opened, Database.reserveOn, Table.insertNew, List.range_succ])
  · show ((pagedTables count).replicas.upsert _ _ _).upsert _ _ _ = _
    rw [Table.upsert_of_absent _ (absent 1), Table.upsert_of_absent _ absent']
    exact Table.ext (by simp [pagedTables, Table.insertNew, List.range_succ])

theorem initLoop_paged (count : Nat) (few : count ≤ 258) :
    (List.range count).foldlM (Database.initChunk byteChunks 0 258 1001 (1000 + ·))
      (pagedTables 0) = .ok (pagedTables count) := by
  induction count with
  | zero => rfl
  | succ count inductionHypothesis =>
      rw [List.range_succ, List.foldlM_append, inductionHypothesis (by omega)]
      exact bind_eq_ok.mpr ⟨_, rfl, bind_eq_ok.mpr ⟨_, initChunk_paged count (by omega), rfl⟩⟩

theorem init_paged : pagedNodes.db.dispatch byteChunks pagedNodes.now (1000 + ·) "owner"
    (.init 258 "file") = .ok (.initialized 1000 1001 1 258, pagedTables 258) := by
  have same : pagedNodes.db = { pagedTables 0 with objects := .empty, uploads := .empty } := by
    refine Database.ext (Table.ext ?_) (Table.ext ?_) (Table.ext ?_) (Table.ext ?_) (Table.ext ?_)
      (Table.ext ?_) ?_ <;> decide +kernel
  have clock : pagedNodes.now = 0 := by decide +kernel
  rw [same, clock]
  refine bind_eq_ok.mpr ⟨⟨⟩, rfl, bind_eq_ok.mpr ⟨⟨⟩, rfl, bind_eq_ok.mpr ⟨⟨⟩, rfl, ?_⟩⟩⟩
  refine bind_eq_ok.mpr ⟨(pagedTables 0).objects, rfl, ?_⟩
  refine bind_eq_ok.mpr ⟨(pagedTables 0).uploads, rfl, ?_⟩
  have loop := initLoop_paged 258 (le_refl _)
  exact bind_eq_ok.mpr ⟨_, loop, rfl⟩

def initPaged : Action := .request byteChunks "owner" (.init 258 "file") (1000 + ·)

def paged : State :=
  { pagedNodes with db := pagedTables 258 }.issue
    ((Command.init 258 "file").drawn byteChunks (1000 + ·))

set_option maxRecDepth 100000 in
theorem step_initPaged : Metadata.metadata.step pagedNodes initPaged = some paged := by
  have issued : pagedNodes.issued = ∅ := by decide +kernel
  have fresh : pagedNodes.Fresh ((Command.init 258 "file").drawn byteChunks (1000 + ·)) := by
    have drawn : (Command.init 258 "file").drawn byteChunks (1000 + ·) =
        (List.range 260).map (1000 + ·) := rfl
    rw [drawn]
    refine ⟨List.nodup_range.map fun first second same => Nat.add_left_cancel same, ?_⟩
    simp [issued]
  exact step_request fresh init_paged

def confirmLast : List Action :=
  [.request byteChunks "owner" (.prepare 1001 257 (some 7)) id,
    .confirm 0 byteChunks 1001 (some "owner") 257, .confirmAsk 0, .confirmStat 0, .confirmAsk 0,
    .confirmStat 0, .confirmCommit 0 byteChunks]

set_option maxRecDepth 100000 in
def lastConfirmed : State :=
  (Metadata.metadata.execute paged confirmLast).get (by decide +kernel)

set_option maxRecDepth 100000 in
theorem first_page : paged.db.status paged.now "owner" 1001 0 =
    .ok (.status 1000 .uploading 1000 0 1 258 (List.range 256) (some 256)) := by
  decide +kernel

set_option maxRecDepth 100000 in
theorem quiet_page : paged.db.status paged.now "owner" 1001 256 =
    .ok (.status 1000 .uploading 1000 0 1 258 [256, 257] none) := by
  decide +kernel

set_option maxRecDepth 100000 in
theorem last_page : lastConfirmed.db.status lastConfirmed.now "owner" 1001 256 =
    .ok (.status 1000 .uploading 1000 1 1 258 [256] none) := by
  decide +kernel

/-- The chunk that the second page would list last is confirmed between the
pages; without that the pages list every chunk.  The upload that is resumed
leaves none. -/
theorem paging_complete_pages :
    (Following "owner" 1001 [paged, lastConfirmed] 0 (List.range 257) ∧
      lastConfirmed.db.unconfirmed 1001 0 ⊆ List.range 257) ∧
    (∃ count ≤ 1, ∃ seqs, Following "owner" 1001
      ((List.range (count + 1)).map fun index => if index = 0 then paged else lastConfirmed)
        0 seqs) ∧
    List.range 258 = paged.db.unconfirmed 1001 0 ∧
    SendsMissing resumedTrace 1001 sentCompleted.db := by
  obtain ⟨history, run⟩ := (Metadata.metadata.run _ _).reachable.next step_initPaged
  have stored : paged.db.uploads.get? 1001 = some ⟨1000, .uploading, 1000⟩ := rfl
  have located : paged.db.objects.get? 1000 = some ⟨"owner", "file", 258, 1, 2, .staging⟩ := rfl
  have stored' : sentCompleted.db.uploads.get? 1001 = some ⟨1000, .completed, 1000⟩ := by
    decide +kernel
  have located' : sentCompleted.db.objects.get? 1000 =
      some ⟨"owner", "file", 1, 4, 2, .published⟩ := by decide +kernel
  obtain ⟨ends, lists, _⟩ := paging_complete run stored located
  obtain ⟨_, _, sends⟩ := paging_complete resumed_run stored' located'
  have stays : ∀ τ, Metadata.metadata.Leads τ τ := fun _ => ⟨[], rfl⟩
  have moves : Metadata.metadata.Leads paged lastConfirmed :=
    ⟨confirmLast, (Option.some_get _).symm⟩
  have between : Following "owner" 1001 [paged, lastConfirmed] 0 (List.range 257) := by
    rw [List.range_succ]
    exact .next first_page (.last last_page)
  have quiet : Following "owner" 1001 [paged, paged] 0 (List.range 258) := by
    rw [List.range_succ, List.range_succ, List.append_assoc]
    exact .next first_page (.last quiet_page)
  refine ⟨⟨between, ?_⟩, ?_, ?_, ?_⟩
  · exact (lists "owner" [paged] lastConfirmed _ (by simp [stays, moves]) (by simp [moves])
      between).2.1
  · exact ends (fun index => if index = 0 then paged else lastConfirmed) (stays _) fun index => by
      cases index with
      | zero => simpa only [if_pos, zero_add, one_ne_zero, if_false] using moves
      | succ index => simpa only [Nat.succ_ne_zero, if_false] using stays lastConfirmed
  · exact (lists "owner" [paged] paged _ (by simp [stays]) (by simp [stays]) quiet).2.2 (by simp)
  · exact (sends firstByte .plain owner [5] (.text "file") 1 (some 1001) _ _ resumed_executed
      resumed_recorded ⟨none, _, _, List.mem_cons_self⟩).1 (.inl ⟨_, rfl⟩)

end Paged

end FileServer.Client

import FileServer.Client.Sessions
import FileServer.Metadata.Additions
import FileServer.Metadata.Naming

/-!
# What is done for a request

A request is sent at most three times; its value comes from the last of them.
The transactions run for it are those of the commands that the gateway derives
from it.
-/

namespace FileServer.Gateway

open FileServer.Metadata FileServer.Storage FileServer.Transition

variable {digest : Bytes → Sha} {e : Engine} {c : Config} {request : Request} {data : Bytes}
  {trace : Exchanges} {result : Except Failure Result}

theorem dispatch_authenticated
    (executed : Program.Executes (Serves digest e c) (dispatch digest c request data) trace result) :
    (trace = [] ∧ ∃ failure, result = .error failure) ∨
      ∃ user, authenticate c request = .ok user := by
  rcases Program.executes_lift_bind.mp executed with
    ⟨failure, _, rfl, rfl⟩ | ⟨user, authenticated, _⟩
  · exact .inl ⟨rfl, failure, rfl⟩
  · exact .inr ⟨user, authenticated⟩

theorem dispatch_proper
    (executed : Program.Executes (Serves digest e c) (dispatch digest c request data) trace result) :
    ∀ exchange ∈ trace, ∃ user, Proper user request trace exchange.call := by
  rcases dispatch_authenticated executed with ⟨rfl, _⟩ | ⟨user, authenticated⟩
  · simp
  · intro exchange membership
    exact ⟨user, (dispatch_handled authenticated executed).proper exchange membership⟩

theorem executes_passed (pass : request.cmd ∈ allowed)
    (executed : Program.Executes (Serves digest e c) (dispatch digest c request data) trace result) :
    (trace = [] ∧ ∃ failure, result = .error failure) ∨ ∃ user answer effect,
      Serves digest e c (.metadata ⟨user, request.cmd, request.fields, none, none⟩) answer effect ∧
      trace = [requestOf ⟨user, request.cmd, request.fields, none, none⟩ answer effect] ∧
      result = answer.map Result.metadata := by
  rcases dispatch_authenticated executed with done | ⟨user, authenticated⟩
  · exact .inl done
  rw [dispatch_passed pass authenticated] at executed
  rcases Program.executes_lift_bind.mp executed with ⟨failure, _, rfl, rfl⟩ | ⟨_, _, executed⟩
  · exact .inl ⟨rfl, failure, rfl⟩
  obtain ⟨answer, effect, rest, rfl, served, ended⟩ := Program.executes_send_bind.mp executed
  refine .inr ⟨user, answer, effect, served, ?_⟩
  rcases ended with ⟨failure, rfl, rfl, rfl⟩ | ⟨response, rfl, returned⟩
  · exact ⟨rfl, rfl⟩
  · obtain ⟨rfl, rfl⟩ := Program.executes_pure.mp returned
    exact ⟨rfl, rfl⟩

/-- A command that is passed on and answered has been one transaction. -/
theorem passed_ok {value : Result} (pass : request.cmd ∈ allowed)
    (executed : Program.Executes (Serves digest e c) (dispatch digest c request data) trace
      (.ok value)) :
    ∃ user now ident db response db',
      db.dispatchBy e c now ident ⟨user, request.cmd, request.fields, none, none⟩ =
        .ok (response, db') ∧
      trace = [requestOf ⟨user, request.cmd, request.fields, none, none⟩ (.ok response)
        ⟨[(db, db')], none⟩] ∧
      value = .metadata response := by
  rcases executes_passed pass executed with
    ⟨_, _, failed⟩ | ⟨user, answer, effect, served, rfl, answered⟩
  · cases failed
  cases answer with
  | error failure => cases answered
  | ok response =>
      cases answered
      have single : request.cmd ≠ .confirm := by
        intro confirms
        rw [confirms] at pass
        exact absurd pass (by decide)
      obtain ⟨now, ident, db, db', dispatched, rfl⟩ := Serves.dispatched single served
      exact ⟨user, now, ident, db, response, db', dispatched, rfl, rfl⟩

/-- What is answered has begun with a transaction. -/
theorem dispatch_opened {value : Result}
    (executed : Program.Executes (Serves digest e c) (dispatch digest c request data) trace
      (.ok value)) :
    ∃ user cmd now ident db response db' rest,
      db.dispatchBy e c now ident ⟨user, cmd, request.fields, none, none⟩ = .ok (response, db') ∧
      trace = requestOf ⟨user, cmd, request.fields, none, none⟩ (.ok response)
        ⟨[(db, db')], none⟩ :: rest ∧
      (cmd = request.cmd ∨ request.cmd = .upload ∧ cmd = .prepare ∨
        request.cmd = .download ∧ cmd = .locations) := by
  rcases dispatch_authenticated executed with ⟨_, _, failed⟩ | ⟨user, authenticated⟩
  · cases failed
  obtain ⟨cmd, response, effect, rest, rfl, single, opened⟩ :=
    (dispatch_handled authenticated executed).opened value rfl
  obtain ⟨now, ident, db, db', dispatched, rfl⟩ :=
    Serves.dispatched single (executed.served List.mem_cons_self)
  exact ⟨user, cmd, now, ident, db, response, db', rest, dispatched, rfl, opened⟩

theorem upload_ok {value : Result} (uploads : request.cmd = .upload)
    (executed : Program.Executes (Serves digest e c) (dispatch digest c request data) trace
      (.ok value)) :
    ∃ user now ident db response db' rest,
      db.dispatchBy e c now ident ⟨user, .prepare, request.fields, none, none⟩ =
        .ok (response, db') ∧
      trace = requestOf ⟨user, .prepare, request.fields, none, none⟩ (.ok response)
        ⟨[(db, db')], none⟩ :: rest := by
  obtain ⟨user, cmd, now, ident, db, response, db', rest, dispatched, rfl, opened⟩ :=
    dispatch_opened executed
  rcases opened with same | ⟨_, rfl⟩ | ⟨downloads, _⟩
  · rw [same, uploads] at dispatched
    simp [Database.dispatchBy] at dispatched
  · exact ⟨user, now, ident, db, response, db', rest, dispatched, rfl⟩
  · rw [uploads] at downloads
    cases downloads

theorem download_ok {length : Nat} {sha : Option Sha} {content : Bytes}
    (downloads : request.cmd = .download)
    (executed : Program.Executes (Serves digest e c) (dispatch digest c request data) trace
      (.ok (.content length sha content))) :
    ∃ user now ident db db' cid size positions rest,
      db.dispatchBy e c now ident ⟨user, .locations, request.fields, none, none⟩ =
        .ok (.reply (.located cid size sha positions), db') ∧
      trace = requestOf ⟨user, .locations, request.fields, none, none⟩
        (.ok (.reply (.located cid size sha positions))) ⟨[(db, db')], none⟩ :: rest := by
  rcases dispatch_authenticated executed with ⟨_, _, failed⟩ | ⟨_, authenticated⟩
  · cases failed
  obtain ⟨user, cmd, now, ident, db, response, db', rest, dispatched, rfl, opened⟩ :=
    dispatch_opened executed
  have sourced := (dispatch_handled authenticated executed).sourced _ rfl
  cases sourced with
  | content located listed read =>
      obtain ⟨_, _, _, same⟩ := located
      cases same
      rcases opened with same | ⟨uploads, _⟩ | ⟨_, rfl⟩
      · rw [same, downloads] at dispatched
        simp [Database.dispatchBy] at dispatched
      · rw [downloads] at uploads
        cases uploads
      · exact ⟨user, now, ident, db, db', _, _, _, rest, dispatched, rfl⟩

/-- The exchanges of a command that is passed on, which one step of the metadata
service answers. -/
def passedOn (user : String) (request : Request) (reply : Reply) (σ σ' : State) : Exchanges :=
  [requestOf ⟨user, request.cmd, request.fields, none, none⟩ (.ok reply.response)
    ⟨[(σ.db, σ'.db)], none⟩]

theorem Serves.stepped {σ σ' : State} {user : String} {cmd : Cmd} {fields : Fields}
    {command : Command} {ident : Nat → Ident} {reply : Reply} (single : cmd ≠ .confirm)
    (named : (⟨user, cmd, fields, none, none⟩ : Internal).command? = some command)
    (reached : Reachable Metadata.metadata σ)
    (stepped : Metadata.metadata.step σ (.request c user command ident) = some σ')
    (replied : (σ.db.dispatch c σ.now ident user command).map Prod.fst = .ok reply) :
    Serves digest e c (.metadata ⟨user, cmd, fields, none, none⟩) (.ok reply.response)
      ⟨[(σ.db, σ'.db)], none⟩ := by
  have dispatched : σ.db.dispatch c σ.now ident user command = .ok (reply, σ'.db) := by
    cases happens stepped with
    | request _ _ _ _ fresh =>
        cases result : σ.db.dispatch c σ.now ident user command with
        | error failure => simp [result, Except.map] at replied
        | ok answer =>
            simp only [result, Except.map, Except.ok.injEq] at replied
            subst replied
            rfl
    | confirm _ _ _ _ move => cases move
    | worker _ _ _ _ move => cases move
    | maintenance _ _ _ move => cases move
  have consistent := (reachable_invariant reached).consistent
  exact .answered single ((Database.dispatchBy_ok_iff consistent named).mpr ⟨reply, dispatched, rfl⟩)

theorem passed_executes {σ σ' : State} {user : String} {command : Command} {ident : Nat → Ident}
    {reply : Reply} (pass : request.cmd ∈ allowed)
    (authenticated : authenticate c request = .ok user)
    (named : (⟨user, request.cmd, request.fields, none, none⟩ : Internal).command? = some command)
    (reached : Reachable Metadata.metadata σ)
    (stepped : Metadata.metadata.step σ (.request c user command ident) = some σ')
    (replied : (σ.db.dispatch c σ.now ident user command).map Prod.fst = .ok reply) :
    Program.Executes (Serves digest e c) (dispatch digest c request [])
      (passedOn user request reply σ σ') (.ok (.metadata reply.response)) := by
  have single : request.cmd ≠ .confirm := by
    intro confirms
    rw [confirms] at pass
    exact absurd pass (by decide)
  rw [dispatch_passed pass authenticated]
  refine Program.executes_lift_bind.mpr (.inr ⟨(), require_eq_ok.mpr rfl, ?_⟩)
  exact Program.executes_send_bind.mpr ⟨_, _, _, rfl, .stepped single named reached stepped replied,
    .inr ⟨_, rfl, Program.executes_pure.mpr ⟨rfl, rfl⟩⟩⟩

theorem upload_executes {user : String} {cid : Ident} {length : Nat} {sha : Sha}
    {positions : List Assigned} {effect last : Effect} {stored : Exchanges} {response : Response}
    (authenticated : authenticate c request = .ok user) (uploads : request.cmd = .upload)
    (matched : request.fields.sha256 = some (.digest (digest data)))
    (prepared : Serves digest e c (.metadata ⟨user, .prepare, request.fields, none, none⟩)
      (.ok (.prepared cid length sha positions)) effect)
    (sized : data.length = length)
    (puts : Program.Executes (Serves digest e c) (Program.each
      (fun position => put position.address cid position.authorization data) positions)
      stored (.ok ()))
    (confirmed : Serves digest e c (.metadata ⟨user, .confirm, request.fields, none, none⟩)
      (.ok response) last)
    (kept : c.responseFault = false) :
    Program.Executes (Serves digest e c) (dispatch digest c request data)
      (requestOf ⟨user, .prepare, request.fields, none, none⟩
          (.ok (.prepared cid length sha positions)) effect ::
        (stored ++ [requestOf ⟨user, .confirm, request.fields, none, none⟩ (.ok response) last]))
      (.ok (.metadata response)) := by
  rw [dispatch_upload authenticated uploads]
  refine Program.executes_lift_bind.mpr (.inr ⟨(), require_eq_ok.mpr matched, ?_⟩)
  refine Program.executes_send_bind.mpr ⟨_, _, _, rfl, prepared, .inr ⟨_, rfl, ?_⟩⟩
  refine Program.executes_lift_bind.mpr (.inr ⟨(), require_eq_ok.mpr sized, ?_⟩)
  refine Program.executes_bind.mpr (.inr ⟨(), stored, [_], rfl, puts, ?_⟩)
  refine Program.executes_send_bind.mpr ⟨_, _, [], rfl, confirmed, .inr ⟨_, rfl, ?_⟩⟩
  exact Program.executes_lift_bind.mpr
    (.inr ⟨(), require_eq_ok.mpr kept, Program.executes_pure.mpr ⟨rfl, rfl⟩⟩)

theorem download_executes {user : String} {cid : Ident} {nid : NodeId} {address : String}
    {sha : Option Sha} {content : Bytes} {others : List (NodeId × String)}
    {effect got last : Effect} {response : Response}
    (authenticated : authenticate c request = .ok user) (downloads : request.cmd = .download)
    (located : Serves digest e c (.metadata ⟨user, .locations, request.fields, none, none⟩)
      (.ok (.reply (.located cid content.length sha ((nid, address) :: others)))) effect)
    (read : Serves digest e c (.get address cid content.length sha) (.ok content) got)
    (matched : sha = some (digest content))
    (revalidated : Serves digest e c (.metadata ⟨user, .manifest, request.fields, none, none⟩)
      (.ok response) last) :
    Program.Executes (Serves digest e c) (dispatch digest c request data)
      [requestOf ⟨user, .locations, request.fields, none, none⟩
          (.ok (.reply (.located cid content.length sha ((nid, address) :: others)))) effect,
        readOf address cid content.length sha (.ok content) got,
        requestOf ⟨user, .manifest, request.fields, none, none⟩ (.ok response) last]
      (.ok (.content content.length sha content)) := by
  rw [dispatch_download authenticated downloads]
  refine Program.executes_send_bind.mpr ⟨_, _, _, rfl, located, .inr ⟨_, rfl, ?_⟩⟩
  refine Program.executes_recover.mpr (.inl ⟨_, ?_, rfl⟩)
  refine Program.executes_send_bind.mpr ⟨_, _, _, rfl, read, .inr ⟨_, rfl, ?_⟩⟩
  refine Program.executes_lift_bind.mpr (.inr ⟨(), require_eq_ok.mpr ⟨rfl, matched⟩, ?_⟩)
  exact Program.executes_send_bind.mpr
    ⟨_, _, _, rfl, revalidated, .inr ⟨_, rfl, Program.executes_pure.mpr ⟨rfl, rfl⟩⟩⟩

theorem dispatch_transactions
    (executed : Program.Executes (Serves digest e c) (dispatch digest c request data) trace result) :
    ∀ exchange ∈ trace, ∀ step ∈ exchange.effect.transactions, ∃ user call,
      Proper user request trace (.metadata call) ∧ (step.2 = step.1 ∨
        (call.cmd ≠ .confirm ∧ ∃ now ident response,
          step.1.dispatchBy e c now ident call = .ok (response, step.2)) ∨
        call.cmd = .confirm ∧ ∃ now op bytes,
          step.1.confirmCommit c now op = .ok (bytes, step.2)) := by
  intro exchange membership step inEffect
  obtain ⟨user, proper⟩ := dispatch_proper executed exchange membership
  have served := executed.served membership
  rcases exchange with ⟨call, answer, effect⟩
  cases call with
  | put address cid authorization content =>
      cases served with
      | refused raised copy => cases inEffect
      | stored accepted => cases inEffect
  | get address cid length sha =>
      cases served with
      | refused raised copy => cases inEffect
      | read copy => cases inEffect
  | metadata call => exact ⟨user, call, proper, Serves.transactions served step inEffect⟩

theorem dispatch_addsNone (other : request.cmd ≠ .init)
    (executed : Program.Executes (Serves digest e c) (dispatch digest c request data) trace result) :
    ∀ exchange ∈ trace, ∀ step ∈ exchange.effect.transactions, AddsNone step.1 step.2 := by
  intro exchange membership step inEffect
  obtain ⟨user, call, proper, done⟩ := dispatch_transactions executed exchange membership step inEffect
  have kept : call.cmd ≠ .init := by
    cases proper with
    | passed => exact other
    | prepare | confirm | locations | manifest | mark => simp
  rcases done with same | ⟨_, now, ident, response, dispatched⟩ | ⟨_, now, op, bytes, committed⟩
  · rw [same]
    exact .refl step.1
  · exact Database.dispatchBy_addsNone kept dispatched
  · exact Database.confirmCommit_addsNone committed

end FileServer.Gateway

namespace FileServer.Client

open FileServer.Gateway (Exchanges Failure Request Result)
open FileServer.Metadata FileServer.Sequence FileServer.Storage FileServer.Transition

variable {digest : Bytes → Sha} {e : Engine} {request : Request} {data : Bytes}

def asked (request : Request) (data : Bytes) (answer : Except Failure Result) (effect : Effect) :
    ClientExchange :=
  ⟨.request request data, answer, effect⟩

theorem executes_attempt {left : Nat} {trace : List ClientExchange}
    {result : Except Failure Result}
    (executed : Program.Executes (Serves digest e) (attempt request data left) trace result) :
    ∃ lost effect, trace = lost ++ [asked request data result effect] ∧
      Serves digest e (.request request data) result effect ∧
      ∀ exchange ∈ lost, ∃ effect', exchange = asked request data (.error .os) effect' ∧
        Serves digest e (.request request data) (.error .os : Except Failure Result) effect' := by
  induction left generalizing trace with
  | zero =>
      obtain ⟨answer, effect, rfl, served, rfl⟩ := Program.executes_send.mp executed
      exact ⟨[], effect, rfl, served, by simp⟩
  | succ left inductionHypothesis =>
      rcases Program.executes_recover.mp executed with
        ⟨value, sent, rfl⟩ | ⟨failure, earlier, later, rfl, sent, handled⟩
      · obtain ⟨answer, effect, rfl, served, same⟩ := Program.executes_send.mp sent
        obtain rfl : answer = .ok value := same.symm
        exact ⟨[], effect, rfl, served, by simp⟩
      · obtain ⟨answer, effect, rfl, served, same⟩ := Program.executes_send.mp sent
        obtain rfl : answer = .error failure := same.symm
        by_cases again : failure = .os
        · subst again
          obtain ⟨lost, effect', rfl, served', others⟩ := inductionHypothesis handled
          refine ⟨asked request data (.error .os) effect :: lost, effect', rfl, served', ?_⟩
          exact List.forall_mem_cons.mpr ⟨⟨effect, rfl, served⟩, others⟩
        · rw [if_neg again] at handled
          obtain ⟨rfl, rfl⟩ := Program.executes_done.mp handled
          exact ⟨[], effect, rfl, served, by simp⟩

section Calls

variable {allowed : Call → Prop} {client : Account} {digest : Bytes → Sha} {file : Bytes}
  {upload : Ident}

theorem calls_attempt (permitted : allowed (.request request data)) (left : Nat) :
    (attempt request data left).Calls allowed := by
  induction left with
  | zero => exact ⟨permitted, fun _ => trivial⟩
  | succ left inductionHypothesis =>
      refine .recover ⟨permitted, fun _ => trivial⟩ fun failure => ?_
      split
      · exact inductionHypothesis
      · trivial

theorem calls_askStatus {cursor : Option Nat}
    (asks : allowed (.request (client.frame .status (statusFields upload cursor)) [])) :
    (client.askStatus upload cursor).Calls allowed :=
  .bind (calls_attempt asks 2) fun _ => trivial

theorem calls_sendMissing {chunkSize fuel cursor : Nat}
    (asks : ∀ cursor, allowed (.request (client.frame .status (statusFields upload cursor)) []))
    (sends : ∀ seq, allowed (.request (client.frame .upload
      (chunkFields upload seq (digest (piece chunkSize file seq)))) (piece chunkSize file seq))) :
    (client.sendMissing digest file upload chunkSize fuel cursor).Calls allowed := by
  induction fuel generalizing cursor with
  | zero => trivial
  | succ fuel inductionHypothesis =>
      refine .bind (calls_askStatus (asks (some cursor))) fun page => ?_
      refine .bind (.all fun seq _ => calls_attempt (sends seq) 2) fun _ => ?_
      split
      · trivial
      · exact inductionHypothesis

theorem calls_finish {status : Status} {fuel : Nat}
    (asks : ∀ cursor, allowed (.request (client.frame .status (statusFields upload cursor)) []))
    (sends : ∀ seq, allowed (.request (client.frame .upload
      (chunkFields upload seq (digest (piece status.chunkSize file seq))))
      (piece status.chunkSize file seq)))
    (completes : allowed (.request (client.frame .complete (uploadFields upload)) [])) :
    (if status.state = .completed then return published status.object
      else do
        client.sendMissing digest file upload status.chunkSize fuel 0
        client.request .complete (uploadFields upload) [] : Handler Result).Calls allowed := by
  split
  · trivial
  · exact .bind (calls_sendMissing asks sends) fun _ => calls_attempt completes 2

end Calls

theorem attempt_answered {left : Nat} {value : Result} {effect : Effect}
    (served : Serves digest e (.request request data) (.ok value : Except Failure Result) effect) :
    Program.Executes (Serves digest e) (attempt request data left)
      [asked request data (.ok value) effect] (.ok value) := by
  have sent : Program.Executes (Serves digest e) (call request data)
      [asked request data (.ok value) effect] (.ok value) :=
    Program.executes_send.mpr ⟨_, effect, rfl, served, rfl⟩
  cases left with
  | zero => exact sent
  | succ left => exact Program.executes_recover.mpr (.inl ⟨value, sent, rfl⟩)

theorem attempt_again {left : Nat} {effect : Effect} {trace : List ClientExchange}
    {result : Except Failure Result}
    (served : Serves digest e (.request request data) (.error .os : Except Failure Result) effect)
    (again : Program.Executes (Serves digest e) (attempt request data left) trace result) :
    Program.Executes (Serves digest e) (attempt request data (left + 1))
      (asked request data (.error .os) effect :: trace) result := by
  refine Program.executes_recover.mpr (.inr ⟨.os, [_], trace, rfl, ?_, ?_⟩)
  · exact Program.executes_send.mpr ⟨_, effect, rfl, served, rfl⟩
  · rw [if_pos rfl]
    exact again

theorem askStatus_answered {client : Account} {upload : Ident} {cursor : Option Nat}
    {value : Result} {page : Status} {effect : Effect}
    (served : Serves digest e (.request (client.frame .status (statusFields upload cursor)) [])
      (.ok value : Except Failure Result) effect)
    (read : status value = .ok page) :
    Program.Executes (Serves digest e) (client.askStatus upload cursor)
      [asked (client.frame .status (statusFields upload cursor)) [] (.ok value) effect] (.ok page) :=
  Program.executes_bind.mpr (.inr ⟨value, [_], [], rfl, attempt_answered served,
    Program.executes_lift.mpr ⟨rfl, read.symm⟩⟩)

theorem continueUpload_sent {client : Account} {file : Bytes} {upload : Ident}
    {value listed result : Result} {opening page : Status} {first second last : Effect}
    {sends : List ClientExchange}
    (earlier : Serves digest e (.request (client.frame .status (statusFields upload none)) [])
      (.ok value : Except Failure Result) first)
    (read : status value = .ok opening) (fits : file.length = opening.size)
    (opened : opening.state ≠ .completed)
    (later : Serves digest e (.request (client.frame .status (statusFields upload (some 0))) [])
      (.ok listed : Except Failure Result) second)
    (awaited : status listed = .ok page)
    (sent : Program.Executes (Serves digest e)
      (Program.all (client.send digest file upload opening.chunkSize) page.missing) sends (.ok ()))
    (ended : page.nextCursor = none)
    (completed : Serves digest e (.request (client.frame .complete (uploadFields upload)) [])
      (.ok result : Except Failure Result) last) :
    Program.Executes (Serves digest e) (client.continueUpload digest file 1 upload)
      (asked (client.frame .status (statusFields upload none)) [] (.ok value) first ::
        asked (client.frame .status (statusFields upload (some 0))) [] (.ok listed) second ::
        (sends ++ [asked (client.frame .complete (uploadFields upload)) [] (.ok result) last]))
      (.ok result) := by
  refine Program.executes_bind.mpr
    (.inr ⟨opening, [_], _ :: _, rfl, askStatus_answered earlier read, ?_⟩)
  refine Program.executes_lift_bind.mpr (.inr ⟨(), require_eq_ok.mpr fits, ?_⟩)
  rw [if_neg opened]
  refine Program.executes_bind.mpr (.inr ⟨(), _ :: sends, [_], rfl, ?_, attempt_answered completed⟩)
  refine Program.executes_bind.mpr (.inr ⟨page, [_], sends, rfl, askStatus_answered later awaited, ?_⟩)
  refine Program.executes_bind.mpr (.inr ⟨(), sends, [], (List.append_nil _).symm, sent, ?_⟩)
  rw [ended]
  exact Program.executes_pure.mpr ⟨rfl, rfl⟩

/-- An upload that finds every chunk confirmed. -/
theorem continueUpload_answered {client : Account} {file : Bytes} {upload : Ident}
    {value result : Result} {page : Status} {first second last : Effect}
    (earlier : Serves digest e (.request (client.frame .status (statusFields upload none)) [])
      (.ok value : Except Failure Result) first)
    (read : status value = .ok page) (fits : file.length = page.size)
    (opened : page.state ≠ .completed) (nothing : page.missing = []) (ended : page.nextCursor = none)
    (later : Serves digest e (.request (client.frame .status (statusFields upload (some 0))) [])
      (.ok value : Except Failure Result) second)
    (completed : Serves digest e (.request (client.frame .complete (uploadFields upload)) [])
      (.ok result : Except Failure Result) last) :
    Program.Executes (Serves digest e) (client.continueUpload digest file 1 upload)
      [asked (client.frame .status (statusFields upload none)) [] (.ok value) first,
        asked (client.frame .status (statusFields upload (some 0))) [] (.ok value) second,
        asked (client.frame .complete (uploadFields upload)) [] (.ok result) last] (.ok result) := by
  have sent : Program.Executes (Serves digest e)
      (Program.all (client.send digest file upload page.chunkSize) page.missing) [] (.ok ()) := by
    rw [nothing]
    exact Program.executes_pure.mpr ⟨rfl, rfl⟩
  exact continueUpload_sent earlier read fits opened later read sent ended completed

theorem Serves.answer {value : Result} {effect : Effect}
    (served : Serves digest e (.request request data) (.ok value : Except Failure Result) effect) :
    ∃ c, Program.Executes (Gateway.Serves digest e c) (Gateway.dispatch digest c request data)
      effect.exchanges (.ok value) := by
  generalize given : (Except.ok value : Except Failure Result) = answer at served
  cases served with
  | answered c executed =>
      cases given
      exact ⟨c, executed⟩
  | failed => cases given
  | raised onFiles => exact absurd rfl (onFiles request data)

theorem Serves.lost {c : Config} {trace : Exchanges} {result : Except Failure Result}
    (executed : Program.Executes (Gateway.Serves digest e c)
      (Gateway.dispatch digest c request data) trace result) (failure : Failure) :
    Serves digest e (.request request data) (.error failure : Except Failure Result) ⟨trace, id⟩ := by
  have failed := Serves.failed c executed trace.length failure
  rwa [List.take_length] at failed

theorem Serves.begun {answer : Except Failure Result} {effect : Effect}
    (served : Serves digest e (.request request data) answer effect) :
    ∃ c trace result, effect.exchanges ⊆ trace ∧ effect.change = id ∧
      Program.Executes (Gateway.Serves digest e c) (Gateway.dispatch digest c request data)
        trace result := by
  cases served with
  | answered c executed => exact ⟨c, _, _, List.Subset.refl _, rfl, executed⟩
  | failed c executed reached failure => exact ⟨c, _, _, List.take_subset _ _, rfl, executed⟩
  | raised onFiles => exact absurd rfl (onFiles request data)

end FileServer.Client

import FileServer.Client.Resumption

/-!
# What the sessions of an upload send

Calls of `upload` for one file may run side by side, crash and be resumed.
Where no one else sends chunks of the upload, every checksum of its chunks is
that of a piece of the file.
-/

namespace FileServer.Client

open FileServer.Gateway (Failure Result)
open FileServer.Metadata FileServer.Sequence FileServer.Storage FileServer.Transition

def Cut (db : Database) (upload : Ident) (chunkSize : Nat) : Prop :=
  ∃ row object, db.uploads.get? upload = some row ∧ db.objects.get? row.object = some object ∧
    object.chunkSize = chunkSize

inductive Sends (client : Account) (digest : Bytes → Sha) (file : Bytes) (db : Database) :
    Call → Prop where
  | init (name : Value) :
      Sends client digest file db (.request (client.frame .init (initFields file.length name)) [])
  | status (upload : Ident) (cursor : Option Nat) :
      Sends client digest file db (.request (client.frame .status (statusFields upload cursor)) [])
  | chunk (upload : Ident) (seq : Nat) {chunkSize : Nat} (cut : Cut db upload chunkSize) :
      Sends client digest file db (.request
        (client.frame .upload (chunkFields upload seq (digest (piece chunkSize file seq))))
        (piece chunkSize file seq))
  | complete (upload : Ident) :
      Sends client digest file db (.request (client.frame .complete (uploadFields upload)) [])

/-- A call of `upload` for the file, as far as it has come: it may crash after
any of its exchanges. -/
def Session (digest : Bytes → Sha) (e : Engine) (client : Account) (file : Bytes)
    (trace : List ClientExchange) : Prop :=
  ∃ name fuel start rest result, Program.Executes (Serves digest e)
    (client.upload digest file name fuel start) (trace ++ rest) result

def SentBy (history : List (Event State Action)) (sessions : List (List ClientExchange))
    (upload : Ident) : Prop :=
  ∀ event ∈ history, Prepares event.before.db upload event.action →
    ∃ trace ∈ sessions, ∃ exchange ∈ trace,
      (event.before.db, event.after.db) ∈ transactions exchange

variable {digest : Bytes → Sha} {e : Engine} {client : Account} {history : List (Event State Action)}
  {σ : State} {trace : List ClientExchange} {file : Bytes}

theorem continueUpload_sends {fuel : Nat} {upload : Ident} {result : Except Failure Result}
    (run : Run Metadata.metadata history σ)
    (executed : Program.Executes (Serves digest e) (client.continueUpload digest file fuel upload)
      trace result)
    (recorded : Recorded history trace) :
    ∀ exchange ∈ trace, Sends client digest file σ.db exchange.call := by
  have asks : (client.askStatus upload none).Calls (Sends client digest file σ.db) :=
    calls_askStatus (.status upload none)
  rcases Program.executes_bind.mp executed with
    ⟨failure, asking, _⟩ | ⟨status, front, rest, rfl, asking, continued⟩
  · exact asks.executes asking
  obtain ⟨_, _, _, τ, seen, _, now, owner, expires, confirmed, read⟩ :=
    askStatus_read run asking fun exchange membership => recorded exchange (by simp [membership])
  obtain ⟨row, object, stored, located, _, _, _, width, _⟩ :=
    Database.status_ok (reachable_invariant (run.reached seen)).consistent read
  obtain ⟨row', object', stored', _, located', kept⟩ := upload_kept run seen stored located
  have cut : Cut σ.db upload status.chunkSize :=
    ⟨row', object', stored', located', kept.chunkSize.trans width.symm⟩
  intro exchange membership
  rcases List.mem_append.mp membership with inFront | inRest
  · exact asks.executes asking exchange inFront
  · exact (Program.Calls.lift_bind fun _ => calls_finish (fun cursor => .status upload cursor)
      (fun seq => .chunk upload seq cut) (.complete upload)).executes continued exchange inRest

theorem upload_sends {name : Value} {fuel : Nat} {start : Option Ident}
    {result : Except Failure Result} (run : Run Metadata.metadata history σ)
    (executed : Program.Executes (Serves digest e) (client.upload digest file name fuel start)
      trace result)
    (recorded : Recorded history trace) :
    ∀ exchange ∈ trace, Sends client digest file σ.db exchange.call := by
  cases start with
  | some upload => exact continueUpload_sends run executed recorded
  | none =>
      have opens : (client.init file name).Calls (Sends client digest file σ.db) :=
        .bind (calls_attempt (.init name) 2) fun _ => trivial
      rcases Program.executes_bind.mp executed with
        ⟨failure, opening, _⟩ | ⟨upload, front, rest, rfl, opening, continued⟩
      · exact opens.executes opening
      intro exchange membership
      rcases List.mem_append.mp membership with inFront | inRest
      · exact opens.executes opening exchange inFront
      · exact continueUpload_sends run continued
          (fun exchange membership => recorded exchange (by simp [membership])) exchange inRest

theorem serves_total (digest : Bytes → Sha) (e : Engine) (call : Call) :
    ∃ answer effect, Serves digest e call answer effect ∧ effect.exchanges = [] := by
  cases call with
  | request request data =>
      have refused : ∀ call, ∃ answer effect,
          Gateway.Serves digest e installation call answer effect ∧ True :=
        fun call => ⟨call.fail .os, ⟨[], none⟩, .refused (by simp) none, trivial⟩
      obtain ⟨trace, result, executed, _⟩ :=
        Program.exists_executes refused (Gateway.dispatch digest installation request data)
      exact ⟨.error .os, ⟨trace.take 0, id⟩, .failed installation executed 0 .os, rfl⟩
  | create | write data | flush | replace | sync | discard =>
      exact ⟨_, ⟨[], _⟩, .raised (by simp) .os none, rfl⟩

theorem Session.sends (session : Session digest e client file trace)
    (run : Run Metadata.metadata history σ) (recorded : Recorded history trace) :
    ∀ exchange ∈ trace, Sends client digest file σ.db exchange.call ∧
      Serves digest e exchange.call exchange.answer exchange.effect := by
  obtain ⟨name, fuel, start, rest, result, executed⟩ := session
  obtain ⟨silent, last, executed, quiet⟩ := executed.cut (serves_total digest e)
  have extended : Recorded history (trace ++ silent) := by
    intro exchange membership step inside
    rcases List.mem_append.mp membership with inTrace | inSilent
    · exact recorded exchange inTrace step inside
    · simp [transactions, quiet exchange inSilent] at inside
  intro exchange membership
  have inWhole := List.mem_append_left silent membership
  exact ⟨upload_sends run executed extended exchange inWhole, executed.served inWhole⟩

theorem Sends.fixes {exchange : ClientExchange} (sends : Sends client digest file σ.db exchange.call)
    (served : Serves digest e exchange.call exchange.answer exchange.effect)
    {db db' : Database} (inside : (db, db') ∈ transactions exchange) (consistent : Consistent db)
    {cid : Ident} {sha : Sha} (fixes : Fixes db db' cid sha) :
    ∃ chunk chunkSize, db.chunks.get? cid = some chunk ∧ Cut σ.db chunk.upload chunkSize ∧
      sha = digest (piece chunkSize file chunk.seq) := by
  obtain ⟨inner, membership, inEffect⟩ := List.mem_flatMap.mp inside
  obtain ⟨request, data, same⟩ : ∃ request data, exchange.call = .request request data := by
    cases called : exchange.call <;> rw [called] at sends <;> cases sends <;> exact ⟨_, _, rfl⟩
  obtain ⟨call, answer, effect⟩ := exchange
  obtain rfl : call = .request request data := same
  obtain ⟨c, trace, result, begun, _, executed⟩ := Serves.begun served
  obtain ⟨user, call, proper, done⟩ :=
    Gateway.dispatch_transactions executed inner (begun membership) _ inEffect
  rcases done with kept | ⟨single, now, ident, response, dispatched⟩ | ⟨_, now, op, bytes, committed⟩
  · exact absurd fixes (not_fixes (congrArg Database.chunks kept))
  · have prepares := Database.dispatchBy_fixes consistent dispatched fixes
    have uploads : request.cmd = .upload ∧ call = ⟨user, .prepare, request.fields, none, none⟩ := by
      cases proper with
      | passed pass =>
          rw [show request.cmd = .prepare from prepares] at pass
          exact absurd pass (by decide)
      | prepare uploads => exact ⟨uploads, rfl⟩
      | confirm | locations | manifest | mark => cases prepares
    obtain ⟨uploads, rfl⟩ := uploads
    cases sends with
    | init | status | complete => cases uploads
    | chunk upload seq cut =>
        obtain ⟨reply, carried, _⟩ := (Database.dispatchBy_ok_iff consistent rfl).mp dispatched
        obtain ⟨focus, focuses, steps⟩ := Database.dispatch_steps consistent carried
        obtain ⟨chunk, place, present, same, command⟩ := focuses.fixes steps fixes
        obtain ⟨rfl, rfl, fixed⟩ := Command.prepare.inj command
        obtain rfl := Option.some.inj fixed
        obtain rfl : chunk.seq = seq := Int.ofNat.inj same
        exact ⟨chunk, _, present, cut, rfl⟩
  · exact absurd fixes (Database.confirmCommit_fixes committed)

theorem sent_carries {sessions : List (List ClientExchange)} {upload : Ident}
    (run : Run Metadata.metadata history σ)
    (sessioned : ∀ trace ∈ sessions, Session digest e client file trace ∧ Recorded history trace)
    (sent : SentBy history sessions upload) {cid : Ident} {chunk : ChunkRow} {sha : Sha}
    (present : σ.db.chunks.get? cid = some chunk) (owned : chunk.upload = upload)
    (fixed : chunk.sha = some sha) :
    ∃ chunkSize, Cut σ.db upload chunkSize ∧ sha = digest (piece chunkSize file chunk.seq) := by
  obtain ⟨event, listed, fixes, prepared⟩ := checksum_prepared run present fixed
  rw [owned] at prepared
  obtain ⟨trace, listedTrace, exchange, membership, inside⟩ := sent event listed prepared
  obtain ⟨session, recorded⟩ := sessioned trace listedTrace
  obtain ⟨sends, served⟩ := session.sends run recorded exchange membership
  obtain ⟨old, chunkSize, before, cut, same⟩ :=
    sends.fixes served inside (recorded.consistent run membership inside) fixes
  obtain ⟨_, grown⟩ := visited_grown run (.inr ⟨event, listed, rfl⟩)
  obtain ⟨new, after, kept, _⟩ := grown.chunks cid old before
  obtain rfl := Option.some.inj (present.symm.trans after)
  exact ⟨chunkSize, owned ▸ kept.upload.symm ▸ cut, kept.seq.symm ▸ same⟩

section Byte

/-- The nodes are registered. -/
def byteBegun : State :=
  (Metadata.metadata.execute Metadata.metadata.initial (uploadActions.take 6)).get (by decide +kernel)

def openByte : Action := .request installation "owner" (.init 1 "file") (1000 + ·)

def byteOpened : State := (Metadata.metadata.step byteBegun openByte).get (by decide +kernel)

def byteAsked : State := (Metadata.metadata.step byteOpened askSent).get (by decide +kernel)

def byteListed : State := (Metadata.metadata.step byteAsked askSent).get (by decide +kernel)

def prepareByte : Action := .request installation "owner" (.prepare 1001 0 (some 7)) id

def bytePrepared : State := (Metadata.metadata.step byteListed prepareByte).get (by decide +kernel)

def confirmByte : Action := .confirm 0 installation 1001 (some "owner") 0

def byteConfirming : State := (Metadata.metadata.step bytePrepared confirmByte).get (by decide +kernel)

/-- The copies are verified. -/
def statActions : List Action := [.confirmAsk 0, .confirmStat 0, .confirmAsk 0, .confirmStat 0]

def byteVerified : State :=
  (Metadata.metadata.execute byteConfirming statActions).get (by decide +kernel)

def byteConfirmed : State :=
  (Metadata.metadata.step byteVerified (.confirmCommit 0 installation)).get (by decide +kernel)

def completeByte : Action := .request installation "owner" (.complete 1001) id

def bytePublished : State :=
  (Metadata.metadata.step byteConfirmed completeByte).get (by decide +kernel)

def byteHistory : List (Event State Action) :=
  ⟨byteConfirmed, completeByte, bytePublished⟩ ::
    ⟨byteVerified, .confirmCommit 0 installation, byteConfirmed⟩ ::
    (Metadata.metadata.events byteConfirming statActions ++
      ⟨bytePrepared, confirmByte, byteConfirming⟩ :: ⟨byteListed, prepareByte, bytePrepared⟩ ::
      ⟨byteAsked, askSent, byteListed⟩ :: ⟨byteOpened, askSent, byteAsked⟩ ::
      ⟨byteBegun, openByte, byteOpened⟩ ::
      Metadata.metadata.events Metadata.metadata.initial (uploadActions.take 6))

theorem byteListed_run : Run Metadata.metadata (⟨byteAsked, askSent, byteListed⟩ ::
    ⟨byteOpened, askSent, byteAsked⟩ :: ⟨byteBegun, openByte, byteOpened⟩ ::
      Metadata.metadata.events Metadata.metadata.initial (uploadActions.take 6)) byteListed :=
  .next (.next (.next (Metadata.metadata.run (uploadActions.take 6) _) (Option.some_get _).symm)
    (Option.some_get _).symm) (Option.some_get _).symm

theorem byteConfirmed_run : Run Metadata.metadata byteHistory.tail byteConfirmed :=
  .next (.execute (.next (.next byteListed_run (Option.some_get _).symm) (Option.some_get _).symm)
    statActions (Option.some_get _).symm) (Option.some_get _).symm

theorem byte_run : Run Metadata.metadata byteHistory bytePublished :=
  .next byteConfirmed_run (Option.some_get _).symm

def initByte : Gateway.Request := owner.frame .init (initFields 1 (.text "file"))

def sendByte : Gateway.Request := owner.frame .upload (chunkFields 1001 0 7)

def byteStatus : Reply := .status 1000 .uploading 1000 0 4 1 [0] none

/-- The two locations of the chunk. -/
def bytePositions : List Position :=
  [⟨1, "first:9000", ⟨1001, 1002, 1, 7, 1, 201, 101, 2⟩⟩,
    ⟨2, "second:9000", ⟨1001, 1002, 1, 7, 2, 202, 102, 2⟩⟩]

/-- The chunk is prepared, stored on both nodes and confirmed. -/
def byteSent : Gateway.Exchanges :=
  [Gateway.requestOf ⟨"owner", .prepare, sendByte.fields, none, none⟩
      (.ok (.prepared 1002 1 7 (bytePositions.map Position.assigned)))
      ⟨[(byteListed.db, bytePrepared.db)], none⟩,
    ⟨.put "first:9000" 1002 ⟨some (.ident 1001), 1002, 1, 7, 1, 201, 101, 2⟩ [7], .ok (),
      ⟨[], none⟩⟩,
    ⟨.put "second:9000" 1002 ⟨some (.ident 1001), 1002, 1, 7, 2, 202, 102, 2⟩ [7], .ok (),
      ⟨[], none⟩⟩,
    Gateway.requestOf ⟨"owner", .confirm, sendByte.fields, none, none⟩ (.ok (.confirmed 1))
      ⟨[(bytePrepared.db, bytePrepared.db), (byteVerified.db, byteConfirmed.db)], none⟩]

def byteUpload : List ClientExchange :=
  [asked initByte [] (.ok (.metadata (.reply (.initialized 1000 1001 4 1))))
      ⟨Gateway.passedOn "owner" initByte (.initialized 1000 1001 4 1) byteBegun byteOpened, id⟩,
    asked (owner.frame .status (statusFields 1001 none)) [] (.ok (.metadata (.reply byteStatus)))
      ⟨Gateway.passedOn "owner" (owner.frame .status (statusFields 1001 none)) byteStatus byteOpened
        byteAsked, id⟩,
    asked (owner.frame .status (statusFields 1001 (some 0))) []
      (.ok (.metadata (.reply byteStatus)))
      ⟨Gateway.passedOn "owner" (owner.frame .status (statusFields 1001 (some 0))) byteStatus
        byteAsked byteListed, id⟩,
    asked sendByte [7] (.ok (.metadata (.confirmed 1))) ⟨byteSent, id⟩,
    asked (owner.frame .complete (uploadFields 1001)) [] (.ok (published 1000))
      ⟨Gateway.passedOn "owner" (owner.frame .complete (uploadFields 1001)) (.published 1000)
        byteConfirmed bytePublished, id⟩]

theorem confirmByte_kept : byteConfirming.db = bytePrepared.db := by
  have taken : bytePrepared.step confirmByte = some byteConfirming := (Option.some_get _).symm
  simp only [State.step, State.confirmStep, confirmByte] at taken
  split at taken
  · rw [← Option.some.inj taken]
  · rw [← Option.some.inj taken]
  · cases taken

theorem byte_recorded : Recorded byteHistory byteUpload := by
  have listed : ∀ before action after, ⟨before, action, after⟩ ∈ byteHistory →
      ∃ event ∈ byteHistory, event.before.db = before.db ∧ event.after.db = after.db :=
    fun before action after membership => ⟨_, membership, rfl, rfl⟩
  simp only [Recorded, byteUpload, byteSent, asked, transactions, Gateway.passedOn,
    Gateway.requestOf, List.forall_mem_cons, List.flatMap_cons, List.flatMap_nil, List.append_nil,
    List.cons_append, List.nil_append, List.not_mem_nil, false_implies, implies_true, and_true]
  refine ⟨listed byteBegun openByte byteOpened ?_, listed byteOpened askSent byteAsked ?_,
    listed byteAsked askSent byteListed ?_, ⟨listed byteListed prepareByte bytePrepared ?_,
      ⟨⟨bytePrepared, confirmByte, byteConfirming⟩, ?_, rfl, confirmByte_kept⟩,
      listed byteVerified (.confirmCommit 0 installation) byteConfirmed ?_⟩,
    listed byteConfirmed completeByte bytePublished ?_⟩
  all_goals simp [byteHistory]

/-- The `confirm` with the locations that are not verified yet. -/
def byteOp (left : List Position) : Confirming :=
  ⟨1001, some "owner", 1002, 1, 7, bytePositions, left, false⟩

theorem byteCommit : byteVerified.db.confirmCommit installation 0 (byteOp bytePositions) =
    .ok (1, byteConfirmed.db) := by
  have present : byteVerified.confirms 0 = some (byteOp []) := by decide +kernel
  have clock : byteVerified.now = 0 := by decide +kernel
  have counted : ((byteVerified.db.confirmCommit installation 0 (byteOp [])).map
      Prod.fst).toOption = some 1 := by decide +kernel
  have taken : byteVerified.step (.confirmCommit 0 installation) = some byteConfirmed :=
    (Option.some_get _).symm
  show byteVerified.db.confirmCommit installation 0 (byteOp []) = _
  cases result : byteVerified.db.confirmCommit installation 0 (byteOp []) with
  | error failure => simp [result, Except.map, Except.toOption] at counted
  | ok done =>
      obtain ⟨bytes, db⟩ := done
      simp only [result, Except.map, Except.toOption, Option.some.injEq] at counted
      simp only [State.step, State.confirmStep, present, clock, State.outcome, result] at taken
      rw [counted, ← Option.some.inj taken]

theorem byte_confirmed : Gateway.Serves firstByte .plain installation
    (.metadata ⟨"owner", .confirm, sendByte.fields, none, none⟩) (.ok (.confirmed 1))
    ⟨[(bytePrepared.db, bytePrepared.db), (byteVerified.db, byteConfirmed.db)], none⟩ := by
  have started : (bytePrepared.db.confirmBegin installation 0 1001 (some "owner") 0).toOption =
      some (byteOp bytePositions) := by decide +kernel
  have begun : bytePrepared.db.confirmBegin installation 0 1001 (some "owner") 0 =
      .ok (byteOp bytePositions) := by
    cases result : bytePrepared.db.confirmBegin installation 0 1001 (some "owner") 0 with
    | error failure => simp [result, Except.toOption] at started
    | ok op => simpa [result, Except.toOption] using started
  have verified : Run Metadata.metadata byteHistory.tail.tail byteVerified :=
    .execute (.next (.next byteListed_run (Option.some_get _).symm) (Option.some_get _).symm)
      statActions (Option.some_get _).symm
  have seen : Visited byteHistory.tail.tail byteVerified bytePrepared :=
    .inr ⟨⟨bytePrepared, confirmByte, byteConfirming⟩, by simp [byteHistory], rfl⟩
  obtain ⟨_, grown⟩ := visited_grown verified seen
  have served : Gateway.Serves firstByte .plain installation
      (.metadata ⟨"owner", .confirm, sendByte.fields, none, none⟩) _ _ :=
    .confirmed rfl rfl 0 0 grown.later begun (.inl rfl)
  rw [byteCommit] at served
  exact served

def emptyNode (nid : NodeId) : Node := ⟨nid, 200 + nid, 100 + nid, 100, .empty⟩

theorem byte_stored {nid : NodeId} (address : String)
    (accepted : ((emptyNode nid).put firstByte 0 1002
      ⟨some (.ident 1001), 1002, 1, 7, nid, 200 + nid, 100 + nid, 2⟩ [7]).toOption.isSome) :
    Gateway.Serves firstByte .plain installation (.put address 1002
      ⟨some (.ident 1001), 1002, 1, 7, nid, 200 + nid, 100 + nid, 2⟩ [7]) (.ok ()) ⟨[], none⟩ :=
  .stored (eq_ok_get accepted)

theorem byte_sent : Serves firstByte .plain (.request sendByte [7])
    (.ok (.metadata (.confirmed 1)) : Except Failure Result) ⟨byteSent, id⟩ := by
  have replied : (byteListed.db.dispatch installation byteListed.now id "owner"
      (.prepare 1001 0 (some 7))).map Prod.fst = .ok (.prepared 1002 1 7 bytePositions) := by
    decide +kernel
  have puts : Program.Executes (Gateway.Serves firstByte .plain installation)
      (Program.each (fun position : Assigned =>
        Gateway.put position.address 1002 position.authorization [7])
        (bytePositions.map Position.assigned))
      [⟨.put "first:9000" 1002 ⟨some (.ident 1001), 1002, 1, 7, 1, 201, 101, 2⟩ [7], .ok (),
          ⟨[], none⟩⟩,
        ⟨.put "second:9000" 1002 ⟨some (.ident 1001), 1002, 1, 7, 2, 202, 102, 2⟩ [7], .ok (),
          ⟨[], none⟩⟩] (.ok ()) := by
    refine Program.executes_send_bind.mpr ⟨_, _, _, rfl, byte_stored _ ?_, .inr ⟨_, rfl, ?_⟩⟩
    · decide +kernel
    refine Program.executes_send_bind.mpr ⟨_, _, _, rfl, byte_stored _ ?_, .inr ⟨_, rfl, ?_⟩⟩
    · decide +kernel
    exact Program.executes_pure.mpr ⟨rfl, rfl⟩
  exact .answered installation (Gateway.upload_executes (owner_authenticated _ _) rfl rfl
    (.stepped (show Cmd.prepare ≠ .confirm by decide) rfl byteListed_run.reachable
      (Option.some_get _).symm replied) rfl puts byte_confirmed rfl)

theorem byte_uploaded : Program.Executes (Serves firstByte .plain)
    (owner.upload firstByte [7] (.text "file") 1 none) byteUpload (.ok (published 1000)) := by
  have begun : Run Metadata.metadata
      (Metadata.metadata.events Metadata.metadata.initial (uploadActions.take 6)) byteBegun :=
    Metadata.metadata.run (uploadActions.take 6) _
  have opened : Reachable Metadata.metadata byteOpened :=
    begun.reachable.next (Option.some_get _).symm
  refine Program.executes_bind.mpr (.inr ⟨1001, [_], [_, _, _, _], rfl, ?_, ?_⟩)
  · refine Program.executes_bind.mpr (.inr ⟨.metadata (.reply (.initialized 1000 1001 4 1)), [_],
      [], rfl, attempt_answered (.answered installation (owner_passed firstByte .plain
        (.initialized 1000 1001 4 1) ?_ rfl begun.reachable (Option.some_get _).symm ?_)),
      Program.executes_lift.mpr ⟨rfl, rfl⟩⟩)
    all_goals decide +kernel
  · have delivered : Program.Executes (Serves firstByte .plain) (owner.send firstByte [7] 1001 4 0)
        [asked sendByte [7] (.ok (.metadata (.confirmed 1))) ⟨byteSent, id⟩]
        (.ok (.metadata (.confirmed 1))) := attempt_answered byte_sent
    have nothing : Program.Executes (Serves firstByte .plain)
        (Program.all (owner.send firstByte [7] 1001 4) []) [] (.ok ()) :=
      Program.executes_pure.mpr ⟨rfl, rfl⟩
    have sent : Program.Executes (Serves firstByte .plain)
        (Program.all (owner.send firstByte [7] 1001 4) [0])
        ([asked sendByte [7] (.ok (.metadata (.confirmed 1))) ⟨byteSent, id⟩] ++ []) (.ok ()) :=
      delivered.all_succeed nothing
    refine continueUpload_sent
      (.answered installation (owner_passed firstByte .plain byteStatus ?_ rfl opened
        (Option.some_get _).symm ?_)) rfl rfl (by decide)
      (.answered installation (owner_passed firstByte .plain byteStatus ?_ rfl
        (opened.next (Option.some_get _).symm) (Option.some_get _).symm ?_)) rfl sent rfl
      (.answered installation (owner_passed firstByte .plain (.published 1000) ?_ rfl
        byteConfirmed_run.reachable (Option.some_get _).symm ?_))
    all_goals decide +kernel

end Byte

end FileServer.Client

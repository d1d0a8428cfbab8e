import FileServer.Client.Requests

/-!
# Objects created by an upload

A request that is sent again may already have been carried out.  An upload
creates exactly one object when no `init` whose answer did not arrive was
committed.
-/

namespace FileServer.Client

open FileServer.Gateway (Exchanges Failure Request Result)
open FileServer.Metadata FileServer.Storage FileServer.Transition

/-- Every transaction run for the exchanges is a step of the metadata service. -/
def Recorded (history : List (Event State Action)) (trace : List ClientExchange) : Prop :=
  ∀ exchange ∈ trace, ∀ step ∈ transactions exchange,
    ∃ event ∈ history, event.before.db = step.1 ∧ event.after.db = step.2

/-- One transaction of the session creates an object and reserves its copies,
and no other adds any. -/
def CreatedOnce (trace : List ClientExchange) : Prop :=
  ∃ earlier step later oid upload object,
    trace.flatMap transactions = earlier ++ step :: later ∧
      Opens step.1 step.2 oid upload object ∧
      ∀ other ∈ earlier ++ later, AddsNone other.1 other.2

def InitLost : ClientExchange → Prop
  | ⟨.request request _, answer, _⟩ =>
      request.cmd = .init ∧ ∃ failure, (answer : Except Failure Result) = .error failure
  | _ => False

/-- A request other than `init`. -/
def Quiet (call : Call) : Prop := ∃ request data, call = .request request data ∧ request.cmd ≠ .init

section Quiet

variable {data : Bytes} {client : Account} {digest : Bytes → Sha} {file : Bytes}

theorem quiet_request {cmd : Cmd} {fields : Fields} (other : cmd ≠ .init) :
    Quiet (.request (client.frame cmd fields) data) :=
  ⟨_, _, rfl, other⟩

theorem calls_continueUpload {fuel : Nat} {upload : Ident} :
    (client.continueUpload digest file fuel upload).Calls Quiet := by
  refine .bind (calls_askStatus (quiet_request (by decide))) fun status => .lift_bind fun _ => ?_
  exact calls_finish (fun _ => quiet_request (by decide)) (fun _ => quiet_request (by decide))
    (quiet_request (by decide))

end Quiet

section Transactions

variable {digest : Bytes → Sha} {e : Engine}

/-- Requests other than `init` add nothing. -/
theorem quiet_addsNone {exchange : ClientExchange} (quiet : Quiet exchange.call)
    (served : Serves digest e exchange.call exchange.answer exchange.effect) :
    ∀ step ∈ transactions exchange, AddsNone step.1 step.2 := by
  rcases exchange with ⟨_, answer, effect⟩
  obtain ⟨request, data, rfl, other⟩ := quiet
  obtain ⟨c, trace, result, begun, _, executed⟩ := Serves.begun served
  intro step inExchange
  obtain ⟨inner, membership, inEffect⟩ := List.mem_flatMap.mp inExchange
  exact Gateway.dispatch_addsNone other executed inner (begun membership) step inEffect

theorem init_opens {request : Request} {data : Bytes} {answer : Except Failure Result}
    {effect : Effect} (opening : request.cmd = .init)
    (served : Serves digest e (.request request data) answer effect) :
    ∀ step ∈ transactions (asked request data answer effect), Consistent step.1 →
      step.2 = step.1 ∨ ∃ oid upload object, Opens step.1 step.2 oid upload object := by
  obtain ⟨c, trace, result, begun, _, executed⟩ := Serves.begun served
  intro step inExchange consistent
  obtain ⟨inner, membership, inEffect⟩ := List.mem_flatMap.mp inExchange
  have inTrace := begun membership
  rcases Gateway.executes_passed (by rw [opening]; decide) executed with
    ⟨rfl, _⟩ | ⟨user, answer, effect, served, rfl, _⟩
  · cases inTrace
  obtain rfl := List.mem_singleton.mp inTrace
  rw [opening] at served
  rcases Gateway.Serves.transactions served step inEffect with
    same | ⟨_, now, ident, response, dispatched⟩ | ⟨confirms, _⟩
  · exact .inl same
  · simp only [Database.dispatchBy, bind_eq_ok, pure_eq_ok, Prod.mk.injEq, Prod.exists] at dispatched
    obtain ⟨_, _, reply, after, initialized, _, rfl⟩ := dispatched
    exact .inr ⟨_, _, _, Database.init_opens consistent initialized⟩
  · cases confirms

theorem init_answered {request : Request} {data : Bytes} {value : Result} {effect : Effect}
    (opening : request.cmd = .init)
    (served : Serves digest e (.request request data) (.ok value : Except Failure Result) effect) :
    ∃ step, transactions (asked request data (.ok value) effect) = [step] ∧
      (Consistent step.1 → ∃ oid upload object, Opens step.1 step.2 oid upload object) := by
  obtain ⟨c, executed⟩ := served.answer
  obtain ⟨user, now, ident, db, response, db', dispatched, trace, _⟩ :=
    Gateway.passed_ok (by rw [opening]; decide) executed
  refine ⟨(db, db'), by simp [transactions, asked, trace, Gateway.requestOf], fun consistent => ?_⟩
  simp only [opening, Database.dispatchBy, bind_eq_ok, pure_eq_ok, Prod.mk.injEq,
    Prod.exists] at dispatched
  obtain ⟨_, _, reply, after, initialized, _, rfl⟩ := dispatched
  exact ⟨_, _, _, Database.init_opens consistent initialized⟩

end Transactions

/-- Of two places in a list one is not a given place. -/
theorem mem_others {α : Type} {earlier later front back : List α} {single first second : α}
    (same : earlier ++ single :: later = front ++ second :: back) (inFront : first ∈ front) :
    first ∈ earlier ++ later ∨ second ∈ earlier ++ later := by
  rcases List.append_eq_append_iff.mp same with ⟨middle, rfl, rest⟩ | ⟨middle, rfl, _⟩
  · cases middle with
    | nil =>
        rw [List.append_nil] at inFront
        exact .inl (List.mem_append_left _ inFront)
    | cons head middle =>
        obtain ⟨_, rfl⟩ := List.cons.inj rest
        exact .inr (List.mem_append_right _ (List.mem_append_right _ List.mem_cons_self))
  · exact .inl (List.mem_append_left _ (List.mem_append_left _ inFront))

section Sessions

variable {digest : Bytes → Sha} {e : Engine} {client : Account} {history : List (Event State Action)}
  {σ : State} {trace : List ClientExchange}

theorem Recorded.consistent (recorded : Recorded history trace)
    (run : Run Metadata.metadata history σ) {exchange : ClientExchange} (membership : exchange ∈ trace)
    {step : Database × Database} (inExchange : step ∈ transactions exchange) :
    Consistent step.1 := by
  obtain ⟨event, listed, before, _⟩ := recorded exchange membership step inExchange
  rw [← before]
  exact (reachable_invariant (run.reached (.inr ⟨event, listed, rfl⟩))).consistent

/-- An upload that returns has created exactly one object, with one set of
reservations, exactly when every `init` whose answer was lost left the tables
as they were. -/
theorem created_once_iff {file : Bytes} {name : Value} {fuel : Nat} {value : Result}
    (run : Run Metadata.metadata history σ)
    (executed : Program.Executes (Serves digest e) (client.upload digest file name fuel none) trace
      (.ok value))
    (recorded : Recorded history trace) :
    CreatedOnce trace ↔ ∀ exchange ∈ trace, InitLost exchange →
      ∀ step ∈ transactions exchange, step.2 = step.1 := by
  rcases Program.executes_bind.mp executed with
    ⟨_, _, failed⟩ | ⟨upload, first, rest, rfl, opened, continued⟩
  · cases failed
  rcases Program.executes_bind.mp opened with
    ⟨_, _, failed⟩ | ⟨initialized, front, none, rfl, opening, named⟩
  · cases failed
  obtain ⟨rfl, _⟩ := Program.executes_lift.mp named
  obtain ⟨lost, effect, rfl, served, resent⟩ := executes_attempt opening
  rw [List.append_nil] at recorded ⊢
  have started : (client.frame .init (initFields file.length name)).cmd = .init := rfl
  generalize client.frame .init (initFields file.length name) = request at *
  obtain ⟨step, only, opens⟩ := init_answered started served
  have answered : asked request [] (.ok initialized) effect ∈
      lost ++ [asked request [] (.ok initialized) effect] ++ rest := by simp
  obtain ⟨oid, number, object, opens⟩ := opens (recorded.consistent run answered (by simp [only]))
  have others : ∀ exchange ∈ rest, ∀ step ∈ transactions exchange, AddsNone step.1 step.2 :=
    fun exchange membership => quiet_addsNone (calls_continueUpload.executes continued exchange membership)
      (continued.served membership)
  have whole : (lost ++ [asked request [] (.ok initialized) effect] ++ rest).flatMap transactions =
      lost.flatMap transactions ++ step :: rest.flatMap transactions := by
    simp [only]
  constructor
  · rintro ⟨earlier, single, later, _, _, _, split, _, alone⟩ exchange membership unanswered step' inStep
    rw [whole] at split
    rcases List.mem_append.mp membership with inFront | inRest
    · rcases List.mem_append.mp inFront with inLost | isLast
      · obtain ⟨effect', rfl, served'⟩ := resent exchange inLost
        rcases init_opens started served' step' inStep
            (recorded.consistent run membership inStep) with same | ⟨_, _, _, opens'⟩
        · exact same
        · rcases mem_others split.symm (List.mem_flatMap.mpr ⟨_, inLost, inStep⟩) with again | again
          · exact absurd (alone _ again) opens'.not_addsNone
          · exact absurd (alone _ again) opens.not_addsNone
      · obtain rfl := List.mem_singleton.mp isLast
        obtain ⟨_, _, failed⟩ := unanswered
        cases failed
    · obtain ⟨request', data, same, quiet⟩ := calls_continueUpload.executes continued exchange inRest
      rcases exchange with ⟨call, answer, effect'⟩
      obtain rfl : call = .request request' data := same
      exact absurd unanswered.1 quiet
  · intro kept
    refine ⟨_, step, _, oid, number, object, whole, opens, ?_⟩
    intro other membership
    rcases List.mem_append.mp membership with inLost | inRest
    · obtain ⟨exchange, listed, inStep⟩ := List.mem_flatMap.mp inLost
      obtain ⟨effect', rfl, _⟩ := resent exchange listed
      rw [kept (asked request [] (.error .os) effect') (by simp [listed]) ⟨started, .os, rfl⟩ other inStep]
      exact .refl other.1
    · obtain ⟨exchange, listed, inStep⟩ := List.mem_flatMap.mp inRest
      exact others exchange listed other inStep

end Sessions

section Doubled

def owner : Account := ⟨.text "owner", .text "token"⟩

def openEmpty (first : Ident) : Action :=
  .request installation "owner" (.init 0 "file") (first + ·)

def askSecond : Action := .request installation "owner" (.status 2001 0) id

/-- An `init` for an empty file is carried out. -/
def openedOnce : State :=
  (Metadata.metadata.step Metadata.metadata.initial (openEmpty 1000)).get (by decide +kernel)

/-- It is carried out once more. -/
def openedTwice : State :=
  (Metadata.metadata.step openedOnce (openEmpty 2000)).get (by decide +kernel)

def askedOnce : State := (Metadata.metadata.step openedTwice askSecond).get (by decide +kernel)

def askedTwice : State := (Metadata.metadata.step askedOnce askSecond).get (by decide +kernel)

def completedSecond : State :=
  (Metadata.metadata.step askedTwice (.request installation "owner" (.complete 2001) id)).get
    (by decide +kernel)

def doubledHistory : List (Event State Action) :=
  [⟨askedTwice, .request installation "owner" (.complete 2001) id, completedSecond⟩,
    ⟨askedOnce, askSecond, askedTwice⟩, ⟨openedTwice, askSecond, askedOnce⟩,
    ⟨openedOnce, openEmpty 2000, openedTwice⟩,
    ⟨Metadata.metadata.initial, openEmpty 1000, openedOnce⟩]

theorem doubled_run : Run Metadata.metadata doubledHistory completedSecond :=
  .next (.next (.next (.next (.next .start (Option.some_get _).symm) (Option.some_get _).symm)
    (Option.some_get _).symm) (Option.some_get _).symm) (Option.some_get _).symm

def initEmpty : Request := owner.frame .init (initFields 0 (.text "file"))

def secondStatus : Reply := .status 2000 .uploading 1000 0 4 0 [] none

/-- The upload of an empty file after the answer of its first `init` was lost. -/
def doubledTrace : List ClientExchange :=
  [asked initEmpty [] (.error .os)
      ⟨Gateway.passedOn "owner" initEmpty (.initialized 1000 1001 4 0) Metadata.metadata.initial
        openedOnce, id⟩,
    asked initEmpty [] (.ok (.metadata (.reply (.initialized 2000 2001 4 0))))
      ⟨Gateway.passedOn "owner" initEmpty (.initialized 2000 2001 4 0) openedOnce openedTwice, id⟩,
    asked (owner.frame .status (statusFields 2001 none)) []
      (.ok (.metadata (.reply secondStatus)))
      ⟨Gateway.passedOn "owner" (owner.frame .status (statusFields 2001 none)) secondStatus
        openedTwice askedOnce, id⟩,
    asked (owner.frame .status (statusFields 2001 (some 0))) []
      (.ok (.metadata (.reply secondStatus)))
      ⟨Gateway.passedOn "owner" (owner.frame .status (statusFields 2001 (some 0))) secondStatus
        askedOnce askedTwice, id⟩,
    asked (owner.frame .complete (uploadFields 2001)) [] (.ok (published 2000))
      ⟨Gateway.passedOn "owner" (owner.frame .complete (uploadFields 2001)) (.published 2000)
        askedTwice completedSecond, id⟩]

theorem doubled_recorded : Recorded doubledHistory doubledTrace := by
  simp [Recorded, doubledTrace, doubledHistory, asked, transactions, Gateway.passedOn,
    Gateway.requestOf]

theorem owner_authenticated (cmd : Cmd) (fields : Fields) :
    Gateway.authenticate installation (owner.frame cmd fields) = .ok "owner" := by
  show Gateway.authenticate installation (owner.frame .init noFields) = _
  decide +kernel

theorem openedOnce_reached : Reachable Metadata.metadata openedOnce :=
  ⟨_, .next .start (Option.some_get _).symm⟩

theorem openedTwice_reached : Reachable Metadata.metadata openedTwice :=
  openedOnce_reached.next (Option.some_get _).symm

theorem askedOnce_reached : Reachable Metadata.metadata askedOnce :=
  openedTwice_reached.next (Option.some_get _).symm

theorem askedTwice_reached : Reachable Metadata.metadata askedTwice :=
  askedOnce_reached.next (Option.some_get _).symm

variable (digest : Bytes → Sha) (e : Engine)

theorem owner_passed {cmd : Cmd} {fields : Fields} {command : Command} {ident : Nat → Ident}
    {σ σ' : State} (reply : Reply) (pass : cmd ∈ Gateway.allowed)
    (named : (⟨"owner", cmd, fields, none, none⟩ : Internal).command? = some command)
    (reached : Reachable Metadata.metadata σ)
    (stepped : Metadata.metadata.step σ (.request installation "owner" command ident) = some σ')
    (replied : (σ.db.dispatch installation σ.now ident "owner" command).map Prod.fst = .ok reply) :
    Program.Executes (Gateway.Serves digest e installation)
      (Gateway.dispatch digest installation (owner.frame cmd fields) [])
      (Gateway.passedOn "owner" (owner.frame cmd fields) reply σ σ')
      (.ok (.metadata reply.response)) :=
  Gateway.passed_executes pass (owner_authenticated cmd fields) named reached stepped replied

theorem doubled_executed :
    Program.Executes (Serves digest e) (owner.upload digest [] (.text "file") 1 none) doubledTrace
      (.ok (published 2000)) := by
  refine Program.executes_bind.mpr (.inr ⟨2001, [_, _], [_, _, _], rfl, ?_, ?_⟩)
  · refine Program.executes_bind.mpr (.inr ⟨.metadata (.reply (.initialized 2000 2001 4 0)), [_, _],
      [], rfl, ?_, Program.executes_lift.mpr ⟨rfl, rfl⟩⟩)
    refine attempt_again (.lost (owner_passed digest e _ ?_ rfl ⟨_, .start⟩
        (Option.some_get _).symm ?_) .os)
      (attempt_answered (.answered installation
        (owner_passed digest e (.initialized 2000 2001 4 0) ?_ rfl openedOnce_reached
          (Option.some_get _).symm ?_)))
    all_goals decide +kernel
  · refine continueUpload_answered
      (.answered installation (owner_passed digest e secondStatus ?_ rfl openedTwice_reached
        (Option.some_get _).symm ?_)) rfl rfl (by decide) rfl rfl
      (.answered installation (owner_passed digest e secondStatus ?_ rfl askedOnce_reached
        (Option.some_get _).symm ?_))
      (.answered installation (owner_passed digest e (.published 2000) ?_ rfl askedTwice_reached
        (Option.some_get _).symm ?_))
    all_goals decide +kernel

/-- The condition decides whether the upload created one object. -/
theorem created_once_doubled : CreatedOnce doubledTrace ↔
    ∀ exchange ∈ doubledTrace, InitLost exchange →
      ∀ step ∈ transactions exchange, step.2 = step.1 :=
  created_once_iff doubled_run (doubled_executed (fun _ => 0) .plain) doubled_recorded

/-- The upload has created two objects. -/
theorem retried_init_creates_two : ¬∀ history σ trace value, Run Metadata.metadata history σ →
    Program.Executes (Serves (fun _ => 0) .plain)
      (owner.upload (fun _ => 0) [] (.text "file") 1 none) trace (.ok value) →
    Recorded history trace → CreatedOnce trace := by
  intro once
  obtain ⟨earlier, single, later, _, _, _, split, _, alone⟩ := once _ _ _ _ doubled_run
    (doubled_executed (fun _ => 0) .plain) doubled_recorded
  have first : ¬AddsNone Metadata.metadata.initial.db openedOnce.db := by
    intro none
    exact absurd (none.objects 1000 (by decide +kernel)) (by decide +kernel)
  have second : ¬AddsNone openedOnce.db openedTwice.db := by
    intro none
    exact absurd (none.objects 2000 (by decide +kernel)) (by decide +kernel)
  have whole : doubledTrace.flatMap transactions =
      [(Metadata.metadata.initial.db, openedOnce.db)] ++ (openedOnce.db, openedTwice.db) ::
        [(openedTwice.db, askedOnce.db), (askedOnce.db, askedTwice.db),
          (askedTwice.db, completedSecond.db)] := rfl
  rw [whole] at split
  rcases mem_others split.symm (List.mem_singleton_self _) with again | again
  · exact first (alone _ again)
  · exact second (alone _ again)

end Doubled

end FileServer.Client

import FileServer.Protocol.Conversations
import Mathlib.Data.List.Count

/-!
# The slots and the calls of a service

Over every run of `Server` the slots that are free and those that are taken add up
to the concurrency, and every call ends with what became of its request.
-/

namespace FileServer.Protocol.Wire

open FileServer.Encoding FileServer.Transition

section Runs

variable {V : Type} {values : Values V}

/-- The `Error` that a caller raises for a failure of the server. -/
def Failure.remote (values : Values V) : Failure → CallFailure V
  | .error code message => .remote (values.text code) (values.text message)
  | .other => .remote (values.text "INTERNAL") (values.text "internal service error")

variable (values) in
/-- How a call ends whose response was not cut. -/
inductive Ended (conversation : Conversation V) :
    Except (CallFailure V) (Dict V × Bytes) → Prop where
  | here (failure : Failure) : Ended conversation (.error (.here failure))
  | returned (result : Dict V) (binary : Bytes) (once : conversation.dispatched =
        [(conversation.fields, conversation.data, .ok (result, binary))]) :
      Ended conversation (.ok (result.set "code" (values.text "OK"), binary))
  | raised (failure : Failure) (once : conversation.dispatched =
        [(conversation.fields, conversation.data, .error failure)]) :
      Ended conversation (.error (failure.remote values))
  | undispatched (failure : Failure) (none : conversation.dispatched = []) :
      Ended conversation (.error (failure.remote values))
  | unsent (failure : Failure) (result : Dict V) (binary : Bytes) (once : conversation.dispatched =
        [(conversation.fields, conversation.data, .ok (result, binary))]) :
      Ended conversation (.error (failure.remote values))

theorem conclude_apology (documented : values.Documented) {failure : Failure} (told : failure.Told) :
    conclude values (apology values failure) [] = .error (failure.remote values) := by
  cases failure with
  | error code message => exact conclude_error documented message told
  | other =>
      have failed : "INTERNAL" ≠ "OK" := by decide
      exact conclude_error documented "internal service error" failed

theorem ended_of_reply (documented : values.Documented) {conversation : Conversation V}
    {fields : Dict V} {binary : Bytes} (reply : Reply values conversation fields binary) :
    Ended values conversation (conclude values fields binary) := by
  cases reply with
  | dispatched work told once =>
      cases work with
      | ok value =>
          obtain ⟨result, data⟩ := value
          rw [conclude_result documented]
          exact .returned result data once
      | error failure =>
          have concluded := conclude_apology documented (told failure rfl)
          rw [show response values (.error failure) = (apology values failure, []) from rfl, concluded]
          exact .raised failure once
  | undispatched failure told none =>
      rw [conclude_apology documented told]
      exact .undispatched failure none
  | unsent failure told result data once =>
      rw [conclude_apology documented told]
      exact .unsent failure result data once

theorem seat_of_acted {conversation next : Conversation V} {free : Bool}
    {action : ConversationAction V} {seat : Seat} (sound : Sound values conversation)
    (acted : conversation.Acted values free action next seat) :
    (seat = .keep ∧ next.server.occupied = conversation.server.occupied) ∨
      (seat = .take ∧ free = true ∧ conversation.server.occupied = false ∧ next.server.occupied = true) ∨
      seat = .give ∧ conversation.server.occupied = true ∧ next.server.occupied = false := by
  cases acted with
  | fails | send | read => exact .inl ⟨rfl, rfl⟩
  | connect connecting => exact .inl ⟨rfl, by rw [sound.opening connecting]; rfl⟩
  | acquire some queued => exact .inr (.inl ⟨rfl, some, by rw [queued]; rfl, rfl⟩)
  | refuse _ queued => exact .inl ⟨rfl, by rw [queued]; rfl⟩
  | spawn stage | receive _ _ _ _ _ stage | garble _ _ stage | receiveFails stage
  | respond _ _ _ _ _ stage | cutOff _ _ _ _ _ stage | unsendable _ _ _ _ _ stage
  | apologize _ _ _ _ stage => exact .inl ⟨rfl, by rw [stage]; rfl⟩
  | dispatch work _ _ _ stage =>
      refine .inl ⟨rfl, ?_⟩
      rw [stage]
      cases work <;> rfl
  | giveUp _ occupied => exact .inl ⟨rfl, occupied.symm⟩
  | spawnFails stage | leave stage => exact .inr (.inr ⟨rfl, by rw [stage]; rfl, rfl⟩)

variable (values) in
structure Kept (concurrency : Nat) (service : Service V) : Prop where
  slots : service.slots + service.conversations.countP (·.server.occupied) = concurrency
  released : service.overreleased = false
  sound : ∀ conversation ∈ service.conversations, Sound values conversation

theorem sound_new (fields : Dict V) (data : Bytes) : Sound values { fields, data } where
  request := .inl rfl
  served := ⟨rfl, rfl, rfl⟩
  once := .inl rfl
  opening _ := rfl
  ended _ finished := by cases finished

/-- What `dispatch` raises is not taken for a result. -/
def Tells (event : Event (Service V) (ServiceAction V)) : Prop :=
  ∀ index failure, event.action = .act index (.dispatch (.error failure)) → failure.Told

variable {concurrency : Nat} {before after : Service V} {action : ServiceAction V}

theorem kept_step (documented : values.Documented) (kept : Kept values concurrency before)
    (tells : Tells ⟨before, action, after⟩)
    (stepped : (service values concurrency).step before action = some after) :
    Kept values concurrency after := by
  cases action with
  | call fields data =>
      obtain rfl := Option.some.inj stepped
      refine ⟨?_, kept.released, ?_⟩
      · rw [List.countP_append, ← Nat.add_assoc, kept.slots]
        rfl
      · intro conversation membership
        rcases List.mem_append.mp membership with older | newer
        · exact kept.sound conversation older
        · obtain rfl := List.mem_singleton.mp newer
          exact sound_new fields data
  | act index action =>
      simp only [service, Service.step, Option.bind_eq_bind, Option.bind_eq_some_iff,
        Option.pure_def, Option.some.injEq] at stepped
      obtain ⟨conversation, found, ⟨next, seat⟩, stepped, rfl⟩ := stepped
      have membership := List.mem_of_getElem? found
      obtain ⟨inRange, here⟩ := List.getElem?_eq_some_iff.mp found
      have acted := Conversation.acted_of_step stepped
      have sound := kept.sound conversation membership
      have told : ∀ work, action = .dispatch work → ∀ failure, work = .error failure → failure.Told := by
        rintro work rfl failure rfl
        exact tells index failure rfl
      have all : ∀ other ∈ before.conversations.set index next, Sound values other := by
        intro other membership
        rcases List.mem_or_eq_of_mem_set membership with older | rfl
        · exact kept.sound other older
        · exact sound.step documented told acted
      have count := List.countP_set (p := (·.server.occupied)) inRange (a := next)
      have positive : conversation.server.occupied = true →
          0 < before.conversations.countP (·.server.occupied) := fun occupied =>
        List.countP_pos_iff.mpr ⟨conversation, membership, occupied⟩
      have slots := kept.slots
      rw [here] at count
      rcases seat_of_acted sound acted with
        ⟨rfl, same⟩ | ⟨rfl, free, vacant, occupied⟩ | ⟨rfl, occupied, vacant⟩
      · refine ⟨?_, kept.released, all⟩
        simp only [Service.seat]
        rw [count, same]
        split
        next occupied =>
          have some := positive occupied
          omega
        · omega
      · refine ⟨?_, kept.released, all⟩
        have some : 0 < before.slots := by simpa using free
        simp only [Service.seat]
        rw [count, vacant, occupied]
        simp
        omega
      · have some := positive occupied
        have room : before.slots < concurrency := by omega
        simp only [Service.seat, if_pos room]
        refine ⟨?_, kept.released, all⟩
        simp only
        rw [count, vacant, occupied]
        simp
        omega

theorem kept_of_run (documented : values.Documented)
    {history : List (Event (Service V) (ServiceAction V))} {state : Service V}
    (run : Run (service values concurrency) history state) (tells : ∀ event ∈ history, Tells event) :
    Kept values concurrency state := by
  induction run with
  | start => exact ⟨rfl, rfl, fun _ membership => absurd membership List.not_mem_nil⟩
  | next run stepped inductionHypothesis =>
      obtain ⟨last, earlier⟩ := List.forall_mem_cons.mp tells
      exact kept_step documented (inductionHypothesis earlier) last stepped

/-- In every run of the service its slots add up, and each call was dispatched once at
most, as it was given, and ended with what became of it. -/
theorem calls_concluded (documented : values.Documented)
    {history : List (Event (Service V) (ServiceAction V))} {state : Service V}
    (run : Run (service values concurrency) history state) (tells : ∀ event ∈ history, Tells event) :
    state.slots + state.conversations.countP (·.server.occupied) = concurrency ∧
      state.overreleased = false ∧ ∀ conversation ∈ state.conversations,
        (conversation.dispatched = [] ∨ ∃ work,
          conversation.dispatched = [(conversation.fields, conversation.data, work)]) ∧
        ∀ result, conversation.caller = .ended result → conversation.cut = false →
          Ended values conversation result := by
  have kept := kept_of_run documented run tells
  refine ⟨kept.slots, kept.released, fun conversation membership => ?_⟩
  have sound := kept.sound conversation membership
  refine ⟨sound.once, fun result finished whole => ?_⟩
  rcases sound.ended result finished with cut | ⟨failure, rfl⟩ | ⟨_, fields, binary, reply, rfl⟩
  · rw [whole] at cut
    cases cut
  · exact .here failure
  · exact ended_of_reply documented reply

end Runs

section Sample

def mark (s : String) : Bytes := (s.toList.flatMap fun c => 1 :: bigEndian 4 c.toNat) ++ [0]

def unmark : Bytes → List (List Char)
  | 1 :: a :: b :: c :: d :: rest =>
      match unmark rest with
      | [] => []
      | chars :: more => (Char.ofNat (unsigned [a, b, c, d]) :: chars) :: more
  | 0 :: rest => [] :: unmark rest
  | _ => []

def pairs : List (List Char) → List (String × String)
  | key :: value :: rest => (String.ofList key, String.ofList value) :: pairs rest
  | _ => []

/-- A module that writes texts with marks. -/
def sampleValues : Values String where
  loads bytes :=
    if distinct : ((pairs (unmark bytes)).map Prod.fst).Nodup then some ⟨_, distinct⟩ else none
  dumps fields := fields.fields.flatMap fun field => mark field.1 ++ mark field.2
  isDict _ := true
  text := id
  text? := some

theorem unmark_mark (s : String) (rest : Bytes) : unmark (mark s ++ rest) = s.toList :: unmark rest := by
  rw [mark, List.append_assoc, List.singleton_append]
  induction s.toList with
  | nil => rfl
  | cons c chars inductionHypothesis =>
      have bound : c.toNat < 256 ^ 4 := by
        have valid := c.valid
        have small : c.toNat < 0x110000 := by
          rcases valid with low | ⟨_, high⟩
          · exact Nat.lt_trans low (by decide)
          · exact high
        exact Nat.lt_trans small (by decide)
      have code := unsigned_bigEndian_of_lt bound
      obtain ⟨first, second, third, fourth, word⟩ : ∃ first second third fourth,
          bigEndian 4 c.toNat = [first, second, third, fourth] := ⟨_, _, _, _, rfl⟩
      rw [word] at code
      rw [List.flatMap_cons, word]
      simp only [List.cons_append, List.nil_append, unmark, inductionHypothesis, code,
        Char.ofNat_toNat]

theorem sampleValues_documented : sampleValues.Documented where
  texts _ := rfl
  dict _ := rfl
  roundTrip fields := by
    obtain ⟨fields, distinct⟩ := fields
    have read : pairs (unmark (fields.flatMap fun field => mark field.1 ++ mark field.2)) = fields := by
      clear distinct
      induction fields with
      | nil => rfl
      | cons field rest inductionHypothesis =>
          rw [List.flatMap_cons, List.append_assoc, unmark_mark, unmark_mark, pairs,
            inductionHypothesis, String.ofList_toList, String.ofList_toList]
    simp only [sampleValues, read, dif_pos distinct]

def Conversation.returned? {V : Type} (conversation : Conversation V) : Option (Dict V × Bytes) :=
  match conversation.caller with
  | .ended (.ok result) => some result
  | _ => none

theorem ended_of_returned {V : Type} {conversation : Conversation V} {result : Dict V × Bytes}
    (returned : conversation.returned? = some result) : conversation.caller = .ended (.ok result) := by
  unfold Conversation.returned? at returned
  split at returned
  next ended => rw [ended, Option.some.inj returned]
  · cases returned

/-- Two calls at a service with one slot: one is dispatched and returns, the other is
refused. -/
def crowd : List (ServiceAction String) :=
  [.call ⟨[("cmd", "a")], by simp⟩ [7], .call ⟨[], by simp⟩ [], .act 0 .connect, .act 1 .connect,
    .act 0 (.send 1000), .act 1 (.send 1000), .act 0 .accept, .act 1 .accept, .act 0 (.spawn true),
    .act 1 (.read []),
    .act 0 (.receive [(Encoder.encode (framed 1 1 (mark "cmd" ++ mark "a") [7]))]),
    .act 0 (.dispatch (.ok (⟨[], by simp⟩, [8]))), .act 0 (.respond 1000),
    .act 0 (.read [Encoder.encode (framed 2 1 (mark "code" ++ mark "OK") [8])]), .act 0 .leave]

theorem crowd_runs : ((service sampleValues 1).execute (service sampleValues 1).initial crowd).isSome := by
  decide +kernel

theorem calls_concluded_crowd : ∃ history state, Run (service sampleValues 1) history state ∧
    state.slots + state.conversations.countP (·.server.occupied) = 1 ∧
      ∃ conversation ∈ state.conversations, ∃ result,
        conversation.caller = .ended (.ok result) ∧
          Ended sampleValues conversation (.ok result) := by
  have run := (service sampleValues 1).run crowd crowd_runs
  obtain ⟨slots, _, ends⟩ := calls_concluded sampleValues_documented run (by
    intro event membership index failure acted
    have listed := System.action_mem_of_mem_events membership
    simp [acted, crowd] at listed)
  have first : ∃ conversation ∈ (((service sampleValues 1).execute (service sampleValues 1).initial
      crowd).get crowd_runs).conversations, conversation.cut = false ∧
        conversation.returned?.isSome = true := by
    decide +kernel
  obtain ⟨conversation, membership, whole, returned⟩ := first
  obtain ⟨result, returned⟩ := Option.isSome_iff_exists.mp returned
  have finished := ended_of_returned returned
  exact ⟨_, _, run, slots, conversation, membership, result, finished,
    (ends conversation membership).2 _ finished whole⟩

end Sample

end FileServer.Protocol.Wire

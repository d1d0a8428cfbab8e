import FileServer.Users.Requests
import Mathlib.Data.List.TakeWhile

/-!
# Tokens

Whom a token authenticates, and what becomes of it when the account is given
another one.
-/

namespace FileServer.Users

open FileServer.Relational FileServer.Transition

variable {collate : Bytes → Bytes} {world world' : World}

section Digits

theorem hexDigit_injective : ∀ digit < 16, ∀ digit' < 16, hexDigit digit = hexDigit digit' →
    digit = digit' := by
  decide

/-- The hexadecimal digits determine a number. -/
theorem mod_pow_congr {number number' : Nat} (places : Nat)
    (same : ∀ place < places, number / 16 ^ place % 16 = number' / 16 ^ place % 16) :
    number % 16 ^ places = number' % 16 ^ places := by
  induction places with
  | zero => simp [Nat.mod_one]
  | succ places inductionHypothesis =>
      rw [Nat.mod_pow_succ, Nat.mod_pow_succ, same places (Nat.lt_succ_self _),
        inductionHypothesis fun place inside => same place (Nat.lt_succ_of_lt inside)]

theorem hex16_injective {number number' : UInt64} (same : hex16 number = hex16 number') :
    number = number' := by
  have digits : ∀ place < 16, number.toNat / 16 ^ place % 16 = number'.toNat / 16 ^ place % 16 := by
    intro place inside
    have listed := List.map_inj_left.mp same (15 - place) (List.mem_range.mpr (by omega))
    rw [show 15 - (15 - place) = place by omega] at listed
    exact hexDigit_injective _ (Nat.mod_lt _ (by decide)) _ (Nat.mod_lt _ (by decide)) listed
  have equal := mod_pow_congr 16 digits
  have bound := number.toNat_lt
  have bound' := number'.toNat_lt
  rw [Nat.mod_eq_of_lt (by omega), Nat.mod_eq_of_lt (by omega)] at equal
  exact UInt64.toNat_inj.mp equal

theorem tokenOf_injective {ms random ms' random' : UInt64}
    (same : tokenOf ms random = tokenOf ms' random') : ms = ms' ∧ random = random' := by
  obtain ⟨first, second⟩ := List.append_inj same (by simp [hex16])
  exact ⟨hex16_injective first, hex16_injective second⟩

end Digits

section Draws

def Call.token? : Call → Option Bytes
  | .insert user => some user.token
  | .updateToken _ token => some token
  | _ => none

/-- What an event draws for a request from the clock and the random numbers. -/
def drawn (event : Happening) : Option (Nat × UInt64 × UInt64) :=
  match event.action with
  | .advance index outcome =>
      match event.before.jobs[index]? with
      | some ⟨_, .call .generateToken _⟩ => some (index, outcome.ms, outcome.random)
      | _ => none
  | _ => none

def draws (history : List Happening) : List (Nat × UInt64 × UInt64) := history.filterMap drawn

def Drew (history : List Happening) (index : Nat) (token : Bytes) : Prop :=
  ∃ ms random, (index, ms, random) ∈ draws history ∧ token = tokenOf ms random

theorem Drew.next {history : List Happening} {index : Nat} {token : Bytes}
    (drew : Drew history index token) (event : Happening) : Drew (event :: history) index token := by
  obtain ⟨ms, random, listed, rfl⟩ := drew
  refine ⟨ms, random, ?_, rfl⟩
  rw [draws, List.filterMap_cons]
  split
  · exact listed
  · exact List.mem_cons_of_mem _ listed

theorem Drew.index_eq {history : List Happening} {index index' : Nat} {token : Bytes}
    (fresh : ((draws history).map Prod.snd).Nodup) (drew : Drew history index token)
    (drew' : Drew history index' token) : index = index' := by
  obtain ⟨ms, random, listed, rfl⟩ := drew
  obtain ⟨ms', random', listed', same⟩ := drew'
  obtain ⟨rfl, rfl⟩ := tokenOf_injective same
  exact (Prod.mk.inj (List.inj_on_of_nodup_map fresh listed listed' rfl)).1

def Authenticates (collate : Bytes → Bytes) (world : World) (id : Int) : Request → Prop
  | .register username password => ∃ user, world.user.get? id = some user ∧
      user.username = username ∧ user.password = password
  | .login username password => ∃ user, world.user.get? id = some user ∧
      collate user.username = collate username ∧ cString user.password = password
  | _ => False

theorem Authenticates.keeps {id : Int} {request : Request}
    (authenticates : Authenticates collate world id request) (keeps : world.Keeps world') :
    Authenticates collate world' id request := by
  cases request with
  | register | login =>
      obtain ⟨user, stored, knows⟩ := authenticates
      obtain ⟨token, stored'⟩ := keeps id user stored
      exact ⟨{ user with token }, stored', knows⟩
  | _ => exact authenticates

theorem handler_call {request : Request} {call : Call} {next : call.Answer → Handler Reply}
    (begun : handler request = .call call next) : call.token? = none ∧
      ∀ answer call' next', next answer = .call call' next' → call'.token? = none := by
  cases request with
  | register username password =>
      rw [handler_register] at begun
      split at begun
      · cases begun
      · split at begun
        · cases begun
        · cases begun
          refine ⟨rfl, fun found call' next' continued => ?_⟩
          cases found <;> cases continued
          rfl
  | login username password =>
      rw [handler_login] at begun
      cases begun
      refine ⟨rfl, fun found call' next' continued => ?_⟩
      cases found with
      | none => cases continued
      | some row =>
          simp only [Option.elim] at continued
          split at continued <;> cases continued
          rfl
  | verifyToken token =>
      rw [handler_verifyToken] at begun
      split at begun
      · cases begun
      · cases begun
        refine ⟨rfl, fun found call' next' continued => ?_⟩
        cases continued
  | getUserById | getUserByUsername =>
      cases begun
      refine ⟨rfl, fun found call' next' continued => ?_⟩
      cases continued

theorem Point.writes {request : Request} {call : Call} {next : call.Answer → Handler Reply}
    (point : Point collate world request (.call call next)) {token : Bytes}
    (carries : call.token? = some token) :
    (∀ answer, ∃ reply, next answer = .done (.ok reply)) ∧
      ((∃ username password, request = .register username password ∧
          call = .insert ⟨username, password, token⟩) ∨
        ∃ id, call = .updateToken id token ∧ Authenticates collate world id request) := by
  generalize rest : Program.call call next = program at point
  cases point with
  | start =>
      rw [(handler_call rest.symm).1] at carries
      cases carries
  | registering | matching =>
      cases rest
      cases carries
  | inserting username password other given fits drawn =>
      rw [respond_enroll] at rest
      cases rest
      cases carries
      exact ⟨fun answer => ⟨_, rfl⟩, .inl ⟨username, password, rfl, rfl⟩⟩
  | updating username password id user other stored named knows drawn =>
      rw [respond_renew] at rest
      cases rest
      cases carries
      exact ⟨fun answer => ⟨_, rfl⟩, .inr ⟨id, rfl, user, stored, named, knows⟩⟩

theorem Point.draws {request : Request} {call call' : Call} {next : call.Answer → Handler Reply}
    {next' : call'.Answer → Handler Reply} {outcome : Outcome}
    (point : Point collate world request (.call call next))
    (continued : next (serve collate outcome call world).1 = .call call' next') {token : Bytes}
    (carries : call'.token? = some token) :
    call = .generateToken ∧ token = tokenOf outcome.ms outcome.random := by
  generalize rest : Program.call call next = program at point
  cases point with
  | start =>
      rw [(handler_call rest.symm).2 _ _ _ continued] at carries
      cases carries
  | registering =>
      cases rest
      dsimp only at continued
      rw [respond_enroll] at continued
      cases continued
      cases carries
      exact ⟨rfl, rfl⟩
  | matching =>
      cases rest
      dsimp only at continued
      rw [respond_renew] at continued
      cases continued
      cases carries
      exact ⟨rfl, rfl⟩
  | inserting =>
      rw [respond_enroll] at rest
      cases rest
      cases continued
  | updating =>
      rw [respond_renew] at rest
      cases rest
      cases continued

end Draws

section Issues

variable {history : List Happening} {before after state earlier : Service}

theorem token_written (alone : before.sessions = []) {move : Move Request Empty Outcome}
    (stepped : (service collate).step before move = some after) {id : Int} {user : User}
    (stored : after.scene.world.user.get? id = some user)
    (changed : ∀ old, before.scene.world.user.get? id = some old → old.token ≠ user.token) :
    ∃ (index : Nat) (request : Request) (call : Call) (next : call.Answer → Handler Reply),
      before.jobs[index]? = some ⟨request, .call call next⟩ ∧
      call.token? = some user.token ∧ (∀ username password,
        call = .insert ⟨username, password, user.token⟩ →
          user.username = username ∧ user.password = password) ∧
      (∀ other token, call = .updateToken other token → other = id) ∧
      ∃ outcome, after.jobs[index]? =
        some ⟨request, next (serve collate outcome call before.scene.world).1⟩ := by
  rcases Deployment.step_of_no_orders alone stepped with
    ⟨_, _, _, rfl⟩ | ⟨index, outcome, request, call, next, _, current, rfl⟩
  · exact absurd rfl (changed user stored)
  · have continued : (before.jobs.set index ⟨request, next (serve collate outcome call
        before.scene.world).1⟩)[index]? =
          some ⟨request, next (serve collate outcome call before.scene.world).1⟩ :=
      List.getElem?_set_self (List.getElem?_eq_some_iff.mp current).1
    have writes := serve_writes collate outcome call before.scene.world
    have written : (serve collate outcome call before.scene.world).2.user.get? id = some user :=
      stored
    generalize (serve collate outcome call before.scene.world).2 = world at writes written
    cases writes with
    | nothing => exact absurd rfl (changed user written)
    | inserted new skipped other _ created =>
        obtain ⟨_, _, _, rfl⟩ := World.insertRow_eq_some.mp created
        rw [Table.get?_insertNew] at written
        split at written
        · cases written
          refine ⟨index, request, _, next, current, rfl, ?_, ?_, outcome, continued⟩
          · intro username password same
            have equal := Call.insert.inj same
            exact ⟨congrArg User.username equal, congrArg User.password equal⟩
          · intro _ _ wrong
            cases wrong
        · exact absurd rfl (changed user written)
    | updated other token =>
        rw [World.get?_setToken, Option.map_eq_some_iff] at written
        obtain ⟨old, stored', rfl⟩ := written
        by_cases here : id = other
        · simp only [if_pos here]
          refine ⟨index, request, _, next, current, rfl, ?_, ?_, outcome, continued⟩
          · intro _ _ wrong
            cases wrong
          · intro _ _ same
            cases same
            exact here.symm
        · simp only [if_neg here] at changed
          exact absurd rfl (changed old stored')

/-- A token that an account has had was drawn by a request that gives its
credentials and has ended; one that is about to be written has been drawn. -/
structure Issued (collate : Bytes → Bytes) (history : List Happening) (state : Service) :
    Prop where
  carried : ∀ index request call next token, state.jobs[index]? = some ⟨request, .call call next⟩ →
    call.token? = some token → Drew history index token
  past : ∀ earlier id user, Visited history state earlier →
    earlier.scene.world.user.get? id = some user → ∃ index request reply,
      state.jobs[index]? = some ⟨request, .done (.ok reply)⟩ ∧
        Authenticates collate state.scene.world id request ∧ Drew history index user.token

theorem Issued.step (issued : Issued collate history before) (sound : Sound collate history before)
    (alone : before.sessions = []) {move : Move Request Empty Outcome}
    (stepped : (service collate).step before move = some after) :
    Issued collate (⟨before, move, after⟩ :: history) after := by
  have keeps := keeps_of_step alone stepped
  refine ⟨fun index request call next token found carries => ?_,
    fun earlier id user seen stored => ?_⟩
  · rcases Deployment.step_of_no_orders alone stepped with
      ⟨request', rfl, _, rfl⟩ | ⟨position, outcome, request', call', next', rfl, current, rfl⟩
    · rw [List.getElem?_append] at found
      split at found
      · exact (issued.carried index request call next token found carries).next _
      · rw [List.getElem?_singleton, Option.ite_none_right_eq_some] at found
        obtain ⟨begun, begins⟩ := Job.mk.inj (Option.some.inj found.2)
        rw [(handler_call begins).1] at carries
        cases carries
    · by_cases here : position = index
      · subst here
        rw [List.getElem?_set_self (List.getElem?_eq_some_iff.mp current).1] at found
        obtain ⟨_, continued⟩ := Job.mk.inj (Option.some.inj found)
        have point := (sound.stages position _ current).resolve_right (by
          rintro ⟨_, ended, _⟩
          cases ended)
        obtain ⟨rfl, rfl⟩ := point.2.1.draws continued carries
        refine ⟨outcome.ms, outcome.random, ?_, rfl⟩
        simp only [draws, List.filterMap_cons, drawn, current]
        exact List.mem_cons_self
      · rw [List.getElem?_set_ne here] at found
        exact (issued.carried index request call next token found carries).next _
  · have older : ∀ token, (∃ index request reply,
        before.jobs[index]? = some ⟨request, .done (.ok reply)⟩ ∧
          Authenticates collate before.scene.world id request ∧ Drew history index token) →
        ∃ index request reply, after.jobs[index]? = some ⟨request, .done (.ok reply)⟩ ∧
          Authenticates collate after.scene.world id request ∧
            Drew (⟨before, move, after⟩ :: history) index token := by
      rintro token ⟨index, request, reply, ended, authenticates, drew⟩
      obtain ⟨rest, found, kept⟩ := Deployment.job_of_step alone stepped ended
      exact ⟨index, request, reply, kept _ rfl ▸ found, authenticates.keeps keeps, drew.next _⟩
    rcases visited_cons.mp seen with rfl | seen
    · by_cases same : ∃ old, before.scene.world.user.get? id = some old ∧ old.token = user.token
      · obtain ⟨old, stored', equal⟩ := same
        exact equal ▸ older _ (issued.past before id old (.last _ _) stored')
      · obtain ⟨index, request, call, next, current, carries, inserts, updates, outcome, found⟩ :=
          token_written alone stepped stored fun old stored' equal => same ⟨old, stored', equal⟩
        have point := (sound.stages index _ current).resolve_right (by
          rintro ⟨_, ended, _⟩
          cases ended)
        obtain ⟨ends, credentials⟩ := point.2.1.writes carries
        obtain ⟨reply, ended⟩ := ends (serve collate outcome call before.scene.world).1
        refine ⟨index, request, reply, ended ▸ found, ?_,
          (issued.carried index request call next _ current carries).next _⟩
        rcases credentials with ⟨username, password, rfl, inserted⟩ | ⟨other, updated, authenticates⟩
        · exact ⟨user, stored, inserts username password inserted⟩
        · exact updates other _ updated ▸ authenticates.keeps keeps
    · exact older _ (issued.past earlier id user seen stored)

theorem issued_of_run (run : Run (service collate).system history state) :
    Issued collate history state := by
  refine run.historyInvariant (Issued collate) ⟨?_, ?_⟩ ?_
  · intro index request call next token found
    cases found
  · rintro earlier id user (rfl | ⟨_, membership, _⟩) stored
    · cases stored
    · cases membership
  · intro history before move after earlier issued stepped
    exact issued.step (sound_of_run earlier) (Deployment.sessions_eq_nil earlier) stepped

/-- An account whose token a request finds. -/
theorem AtOnce.verified {token : Bytes} {id : Int}
    (once : AtOnce collate (.verifyToken token) (.userId id) world world') (positive : 0 < id) :
    ∃ user, world.user.get? id = some user ∧ collate user.token = collate token := by
  obtain ⟨outcomes, ran⟩ := once
  rw [handler_verifyToken] at ran
  split at ran
  · rw [run_done] at ran
    cases ran
    cases positive
  · rw [run_next, run_done] at ran
    obtain ⟨answered, _⟩ := Prod.mk.inj ran
    cases answered
    cases found : (serve collate (outcomes.headD default) (.findByToken token) world).1 with
    | none =>
        rw [found] at positive
        cases positive
    | some row =>
        simp only [serve] at found
        split at found
        · obtain ⟨user, stored, _, holds⟩ := World.select_some found
          exact ⟨user, stored, (of_decide_eq_true holds).1⟩
        · cases found

end Issues

/-- A token that is accepted for an account is, up to the collation, one that a
registration of it drew, or a login with its name and its password. -/
theorem token_authenticates {history : List Happening} {state : Service}
    (run : Run (service collate).system history state) {index : Nat} {token : Bytes} {id : Int}
    (verified : state.jobs[index]? = some ⟨.verifyToken token, .done (.ok (.userId id))⟩)
    (positive : 0 < id) : ∃ issuer request reply issued,
      state.jobs[issuer]? = some ⟨request, .done (.ok reply)⟩ ∧
        Authenticates collate state.scene.world id request ∧ Drew history issuer issued ∧
          collate issued = collate token := by
  obtain ⟨later, event, earlier, rfl, _, once, _⟩ := (sound_of_run run).tookEffect verified
  obtain ⟨user, stored, same⟩ := once.verified positive
  have seen : Visited (later ++ event :: earlier) state event.before :=
    .inr ⟨event, by simp, rfl⟩
  obtain ⟨issuer, request, reply, ended, authenticates, drew⟩ :=
    (issued_of_run run).past event.before id user seen stored
  exact ⟨issuer, request, reply, user.token, ended, authenticates, drew, same⟩

/-- The login of the sample. -/
theorem token_authenticates_sample : ∃ issuer request reply issued,
    sample.jobs[issuer]? = some ⟨request, .done (.ok reply)⟩ ∧
      Authenticates caseless sample.scene.world 1 request ∧ Drew sampleHistory issuer issued ∧
        caseless issued = caseless (tokenOf 2 3) :=
  token_authenticates sample_run (show sample.jobs[3]? = some ⟨.verifyToken (tokenOf 2 3),
    .done (.ok (.userId 1))⟩ from rfl) (by decide)

section Replacement

variable {history : List Happening} {before after state : Service}

/-- Requests with the credentials of two accounts are different. -/
theorem Authenticates.id_eq (valid : world.Valid collate) {id id' : Int} {request : Request}
    (authenticates : Authenticates collate world id request)
    (authenticates' : Authenticates collate world id' request) : id = id' := by
  cases request with
  | register username password =>
      obtain ⟨user, stored, rfl, _⟩ := authenticates
      obtain ⟨user', stored', same, _⟩ := authenticates'
      exact valid.unique id user id' user' stored stored' (by rw [same])
  | login username password =>
      obtain ⟨user, stored, named, _⟩ := authenticates
      obtain ⟨user', stored', named', _⟩ := authenticates'
      exact valid.unique id user id' user' stored stored' (named.trans named'.symm)
  | _ => exact authenticates.elim

/-- No two accounts ever have the same token. -/
theorem holder_unique (run : Run (service collate).system history state)
    (fresh : ((draws history).map Prod.snd).Nodup) {earlier earlier' : Service}
    (seen : Visited history state earlier) (seen' : Visited history state earlier') {id id' : Int}
    {user user' : User} (stored : earlier.scene.world.user.get? id = some user)
    (stored' : earlier'.scene.world.user.get? id' = some user') (same : user.token = user'.token) :
    id = id' := by
  obtain ⟨index, request, _, ended, authenticates, drew⟩ :=
    (issued_of_run run).past earlier id user seen stored
  obtain ⟨index', request', _, ended', authenticates', drew'⟩ :=
    (issued_of_run run).past earlier' id' user' seen' stored'
  obtain rfl := Drew.index_eq fresh drew (same ▸ drew')
  obtain ⟨rfl, _⟩ := Job.mk.inj (Option.some.inj (ended.symm.trans ended'))
  exact authenticates.id_eq (sound_of_run run).valid authenticates'

theorem written_fresh (run : Run (service collate).system history before)
    (fresh : ((draws history).map Prod.snd).Nodup) {index : Nat} {request : Request} {call : Call}
    {next : call.Answer → Handler Reply} {token : Bytes}
    (current : before.jobs[index]? = some ⟨request, .call call next⟩)
    (carries : call.token? = some token) {earlier : Service} (seen : Visited history before earlier)
    {id : Int} {user : User} (stored : earlier.scene.world.user.get? id = some user) :
    user.token ≠ token := by
  rintro rfl
  have issued := issued_of_run run
  obtain ⟨index', _, _, ended, _, drew⟩ := issued.past earlier id user seen stored
  obtain rfl := (issued.carried index request call next _ current carries).index_eq fresh drew
  cases current.symm.trans ended

theorem replaced_gone {later earlier : List Happening} {event : Happening}
    (run : Run (service collate).system (later ++ event :: earlier) state)
    (fresh : ((draws (later ++ event :: earlier)).map Prod.snd).Nodup) {id : Int} {user user' : User}
    (stored : event.before.scene.world.user.get? id = some user)
    (stored' : event.after.scene.world.user.get? id = some user')
    (replaced : user'.token ≠ user.token) (other : Int) (row : User)
    (present : state.scene.world.user.get? other = some row) : row.token ≠ user.token := by
  induction later generalizing state other row with
  | nil =>
      intro same
      have ended : state = event.after := by cases run with | next => rfl
      subst ended
      obtain rfl := holder_unique run fresh (.last _ _) (.inr ⟨event, by simp, rfl⟩) present stored same
      obtain rfl := Option.some.inj (present.symm.trans stored')
      exact replaced same
  | cons head tail inductionHypothesis =>
      intro same
      have seen : Visited (head :: tail ++ event :: earlier) state event.before :=
        .inr ⟨event, by simp, rfl⟩
      obtain rfl := holder_unique run fresh (.last _ _) seen present stored same
      rw [List.cons_append] at run fresh
      cases run with
      | next older stepped =>
          have fresher := fresh.sublist
            (((List.sublist_cons_self _ _).filterMap drawn).map Prod.snd)
          obtain ⟨index, request, call, next, current, carries, _⟩ := token_written
            (Deployment.sessions_eq_nil older) stepped present fun old there equal =>
              inductionHypothesis older fresher other old there (equal.trans same)
          exact written_fresh older fresher current carries (.inr ⟨event, by simp, rfl⟩) stored
            same.symm

end Replacement

theorem replaced_unfound {later earlier : List Happening} {event : Happening}
    {state : Service} (run : Run (service collate).system (later ++ event :: earlier) state)
    (fresh : ((draws (later ++ event :: earlier)).map Prod.snd).Nodup)
    (distinguishes : ∀ ms random ms' random',
      collate (tokenOf ms random) = collate (tokenOf ms' random') →
        tokenOf ms random = tokenOf ms' random')
    {id : Int} {user user' : User} (stored : event.before.scene.world.user.get? id = some user)
    (stored' : event.after.scene.world.user.get? id = some user')
    (replaced : user'.token ≠ user.token) {token : Bytes}
    (same : collate token = collate user.token) (outcome : Outcome) :
    (serve collate outcome (.findByToken token) state.scene.world).1 = none := by
  have refused : state.scene.world.select (World.holding collate token) = none := by
    rw [(sound_of_run run).valid.select_none]
    intro other row present
    have gone := replaced_gone run fresh stored stored' replaced other row present
    have past := (issued_of_run run).past
    obtain ⟨_, _, _, _, _, ms, random, _, drawn⟩ := past state other row (.last _ _) present
    obtain ⟨_, _, _, _, _, ms', random', _, drawn'⟩ :=
      past event.before id user (.inr ⟨event, by simp, rfl⟩) stored
    simp only [World.holding, decide_eq_false_iff_not, not_and_or]
    refine .inl fun holds => gone ?_
    rw [drawn, drawn']
    exact distinguishes _ _ _ _ (drawn' ▸ drawn ▸ holds.trans same)
  simp only [serve, refused, ite_self]

section Sample

theorem hexDigit_plain : ∀ digit < 16, hexDigit digit ≠ 0x20 ∧
    ¬(0x41 ≤ hexDigit digit ∧ hexDigit digit ≤ 0x5A) := by
  decide

theorem caseless_tokenOf (ms random : UInt64) : caseless (tokenOf ms random) = tokenOf ms random := by
  have plain : ∀ byte ∈ tokenOf ms random, byte ≠ 0x20 ∧ ¬(0x41 ≤ byte ∧ byte ≤ 0x5A) := by
    intro byte listed
    rcases List.mem_append.mp listed with listed | listed
    · obtain ⟨place, _, rfl⟩ := List.mem_map.mp listed
      exact hexDigit_plain _ (Nat.mod_lt _ (by decide))
    · obtain ⟨place, _, rfl⟩ := List.mem_map.mp listed
      exact hexDigit_plain _ (Nat.mod_lt _ (by decide))
  have kept : (tokenOf ms random).reverse.dropWhile (· = 0x20) = (tokenOf ms random).reverse := by
    rw [List.dropWhile_eq_self_iff]
    intro inside spaced
    exact (plain _ (List.mem_reverse.mp (List.getElem_mem inside))).1 (of_decide_eq_true spaced)
  rw [caseless, kept, List.reverse_reverse]
  refine (List.map_congr_left fun byte listed => ?_).trans (List.map_id _)
  exact if_neg (plain byte listed).2

def beforeLogin : Service := ((service caseless).system.execute (service caseless).system.initial
  (sampleMoves.take 11)).get (by decide +kernel)

theorem login_enabled : ((service caseless).step beforeLogin (.advance 2 {})).isSome := by
  decide +kernel

def afterLogin : Service := ((service caseless).step beforeLogin (.advance 2 {})).get login_enabled

def loginHistory : List Happening := ⟨beforeLogin, .advance 2 {}, afterLogin⟩ ::
  (service caseless).system.events (service caseless).system.initial (sampleMoves.take 11)

theorem login_run : Run (service caseless).system loginHistory afterLogin :=
  ((service caseless).system.run (sampleMoves.take 11) (by decide +kernel)).next
    (Option.some_get login_enabled).symm

end Sample

end FileServer.Users

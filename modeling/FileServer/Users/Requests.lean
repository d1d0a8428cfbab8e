import FileServer.Users.Accounts

/-!
# Requests on accounts

Whatever the order in which the statements of several requests are performed,
each request takes effect at one moment: between its first and its last
statement the table is as it was, and at that moment it does what it would do
undisturbed.
-/

namespace FileServer.Users

open FileServer.Relational FileServer.Transition

variable {collate : Bytes → Bytes} {world world' : World} {outcome : Outcome}

section Statements

/-- What is written fits the buffers of a later `SELECT`. -/
def Call.Fits : Call → Prop
  | .insert user => user.fetch.isSome = true
  | .updateToken _ token => token.length ≤ 128
  | _ => True

theorem World.insertRow_eq_some {skipped : Nat} {user : User} {id : Int} :
    world.insertRow collate skipped user = some (id, world') ↔
      (∀ other row, world.user.get? other = some row →
        collate row.username ≠ collate user.username) ∧
      id = world.lastInsertId + 1 + skipped ∧ ∃ fresh : world.user.get? id = none,
        world' = ⟨world.user.insertNew id user fresh, id⟩ := by
  have free : world.user.rows.any (named collate user.username) = false ↔
      ∀ other row, world.user.get? other = some row →
        collate row.username ≠ collate user.username := by
    simp only [List.any_eq_false, named, decide_eq_true_eq, Prod.forall, Table.mem_rows_iff]
  simp only [World.insertRow]
  by_cases taken : world.user.rows.any (named collate user.username) = true
  · rw [if_pos taken]
    have used := free.not.mp (by simp [taken])
    constructor
    · intro wrong
      cases wrong
    · exact fun inserted => absurd inserted.1 used
  · rw [if_neg taken]
    simp only [Option.map_eq_some_iff, Table.insert?_eq_some, Prod.mk.injEq]
    constructor
    · rintro ⟨_, ⟨fresh, rfl⟩, rfl, rfl⟩
      exact ⟨free.mp (by simpa using taken), rfl, fresh, rfl⟩
    · rintro ⟨_, rfl, fresh, rfl⟩
      exact ⟨_, ⟨fresh, rfl⟩, rfl, rfl⟩

theorem World.Valid.insertRow_eq_none (valid : world.Valid collate) {skipped : Nat} {user : User} :
    world.insertRow collate skipped user = none ↔
      ∃ id row, world.user.get? id = some row ∧ collate row.username = collate user.username := by
  rw [← not_iff_not, ← Ne, Option.ne_none_iff_exists']
  constructor
  · rintro ⟨⟨id, inserted⟩, created⟩ ⟨other, row, stored, same⟩
    exact (insertRow_eq_some.mp created).1 other row stored same
  · intro free
    have fresh : world.user.get? (world.lastInsertId + 1 + skipped) = none := by
      by_contra taken
      obtain ⟨row, stored⟩ := Option.ne_none_iff_exists'.mp taken
      have bound := (valid.numbered _ row stored).2
      omega
    exact ⟨_, insertRow_eq_some.mpr
      ⟨fun other row stored same => free ⟨other, row, stored, same⟩, rfl, fresh, rfl⟩⟩

inductive Writes (collate : Bytes → Bytes) (world : World) : Call → World → Prop where
  | nothing (call) : Writes collate world call world
  | inserted (user skipped id) (after : World)
      (created : world.insertRow collate skipped user = some (id, after)) :
      Writes collate world (.insert user) after
  | updated (id token) : Writes collate world (.updateToken id token) (world.setToken id token)

theorem serve_writes (collate : Bytes → Bytes) (outcome : Outcome) (call : Call) (world : World) :
    Writes collate world call (serve collate outcome call world).2 := by
  cases call with
  | insert user =>
      simp only [serve]
      split
      · next id inserted created =>
          split
          · exact .inserted user outcome.skipped id inserted created
          · split
            · exact .inserted user outcome.skipped id inserted created
            · exact .nothing _
      · exact .nothing _
  | updateToken id token =>
      simp only [serve]
      split
      · exact .updated id token
      · exact .nothing _
  | findByUsername | findById | findByToken | generateToken => exact .nothing _

theorem World.get?_setToken (world : World) (id other : Int) (token : Bytes) :
    (world.setToken id token).user.get? other =
      (world.user.get? other).map fun user => if other = id then { user with token } else user := by
  rw [World.setToken, Table.get?_modify]
  split
  · next same => simp [same]
  · next different => simp

theorem Writes.keeps {call : Call} (writes : Writes collate world call world') :
    world.Keeps world' := by
  intro id user stored
  cases writes with
  | nothing => exact ⟨user.token, stored⟩
  | inserted new skipped other after created =>
      obtain ⟨_, _, fresh, rfl⟩ := World.insertRow_eq_some.mp created
      refine ⟨user.token, ?_⟩
      rw [Table.get?_insertNew, if_neg, stored]
      rintro rfl
      cases fresh.symm.trans stored
  | updated other token =>
      rw [World.get?_setToken, stored]
      by_cases same : id = other
      · exact ⟨token, by simp [same]⟩
      · exact ⟨user.token, by simp [same]⟩

theorem User.fetch_isSome {user : User} : user.fetch.isSome = true ↔
    user.username.length ≤ 64 ∧ user.password.length ≤ 128 ∧ user.token.length ≤ 128 := by
  unfold User.fetch
  split <;> simp_all

theorem World.Valid.writes (valid : world.Valid collate) {call : Call} (fits : call.Fits)
    (writes : Writes collate world call world') : world'.Valid collate := by
  cases writes with
  | nothing => exact valid
  | inserted new skipped id after created =>
      obtain ⟨free, rfl, fresh, rfl⟩ := World.insertRow_eq_some.mp created
      have started := valid.started
      refine ⟨fun other user stored => ?_, by dsimp only; omega, ?_, fun other user stored => ?_⟩
      · rw [Table.get?_insertNew] at stored
        split at stored
        · dsimp only
          omega
        · have numbered := valid.numbered other user stored
          dsimp only
          omega
      · intro other user other' user' stored stored' same
        rw [Table.get?_insertNew] at stored stored'
        split at stored
        · next here =>
            cases stored
            split at stored'
            · next there => rw [here, there]
            · exact absurd same.symm (free other' user' stored')
        · split at stored'
          · cases stored'
            exact absurd same (free other user stored)
          · exact valid.unique other user other' user' stored stored' same
      · rw [Table.get?_insertNew] at stored
        split at stored
        · cases stored
          exact fits
        · exact valid.fits other user stored
  | updated id token =>
      have renamed : ∀ other user, (world.setToken id token).user.get? other = some user →
          ∃ old, world.user.get? other = some old ∧ old.username = user.username ∧
            old.password = user.password ∧ (user.token = old.token ∨ user.token = token) := by
        intro other user stored
        rw [World.get?_setToken, Option.map_eq_some_iff] at stored
        obtain ⟨old, stored, rfl⟩ := stored
        refine ⟨old, stored, ?_⟩
        split <;> simp
      refine ⟨fun other user stored => ?_, valid.started, ?_, fun other user stored => ?_⟩
      · obtain ⟨old, before, _⟩ := renamed other user stored
        exact valid.numbered other old before
      · intro other user other' user' stored stored' same
        obtain ⟨old, before, name, _⟩ := renamed other user stored
        obtain ⟨old', before', name', _⟩ := renamed other' user' stored'
        exact valid.unique other old other' old' before before' (by rw [name, name', same])
      · obtain ⟨old, before, name, password, written⟩ := renamed other user stored
        have bounds := User.fetch_isSome.mp (valid.fits other old before)
        rw [name, password] at bounds
        refine User.fetch_isSome.mpr ⟨bounds.1, bounds.2.1, ?_⟩
        rcases written with same | same
        · exact same ▸ bounds.2.2
        · exact same ▸ fits

end Statements

section Points

def respond (program : Handler Bytes) : Handler Reply := program >>= fun token => pure (.token token)

/-- Where a request that waits for a call has got to, and what it relies on. -/
inductive Point (collate : Bytes → Bytes) (world : World) : Request → Handler Reply → Prop where
  | start (request) : Point collate world request (handler request)
  | registering (username password) (given : ¬(username = [] ∨ password = []))
      (fits : ¬(64 < username.length ∨ 128 < password.length)) :
      Point collate world (.register username password) (.call .generateToken fun token =>
        respond (UserService.enroll username password token))
  | inserting (username password token) (given : ¬(username = [] ∨ password = []))
      (fits : ¬(64 < username.length ∨ 128 < password.length)) (drawn : ∃ ms random, token = tokenOf ms random) :
      Point collate world (.register username password)
        (respond (UserService.enroll username password token))
  | matching (username password id user) (stored : world.user.get? id = some user)
      (named : collate user.username = collate username) (knows : cString user.password = password) :
      Point collate world (.login username password) (.call .generateToken fun token =>
        respond (UserService.renew id token))
  | updating (username password id user token) (stored : world.user.get? id = some user)
      (named : collate user.username = collate username) (knows : cString user.password = password)
      (drawn : ∃ ms random, token = tokenOf ms random) :
      Point collate world (.login username password) (respond (UserService.renew id token))

theorem Point.keeps {request : Request} {rest : Handler Reply} (point : Point collate world request rest)
    (keeps : world.Keeps world') : Point collate world' request rest := by
  cases point with
  | start => exact .start request
  | registering username password given fits => exact .registering username password given fits
  | inserting username password token given fits drawn =>
      exact .inserting username password token given fits drawn
  | matching username password id user stored named knows =>
      obtain ⟨token, stored'⟩ := keeps id user stored
      exact .matching username password id { user with token } stored' named knows
  | updating username password id user token stored named knows drawn =>
      obtain ⟨other, stored'⟩ := keeps id user stored
      exact .updating username password id { user with token := other } token stored' named knows drawn

/-- The request, performed without interruption, ends so. -/
def AtOnce (collate : Bytes → Bytes) (request : Request) (reply : Reply) (world world' : World) :
    Prop :=
  ∃ outcomes, (service collate).run outcomes (handler request) world = (.ok reply, world')

/-- After its next call a request waits for another one, and the table is as it
was; or it has ended, as it would have at once. -/
def Continues (collate : Bytes → Bytes) (request : Request) (rest : Handler Reply)
    (world world' : World) : Prop :=
  (world' = world ∧ Point collate world request rest ∧ ∃ call next, rest = .call call next) ∨
    ∃ reply, rest = .done (.ok reply) ∧ AtOnce collate request reply world world'

theorem handler_register (username password : Bytes) : handler (.register username password) =
    if username = [] ∨ password = [] then .done (.ok (.token []))
    else if 64 < username.length ∨ 128 < password.length then .done (.ok (.token []))
    else .call (.findByUsername username) fun found =>
      found.elim (.call .generateToken fun token =>
        respond (UserService.enroll username password token)) fun _ => .done (.ok (.token [])) := by
  simp only [handler, UserService.register]
  split
  · rfl
  · split
    · rfl
    · refine congrArg (Program.call (Call.findByUsername username)) (funext fun found => ?_)
      cases found <;> rfl

theorem handler_login (username password : Bytes) : handler (.login username password) =
    .call (.findByUsername username) fun found =>
      found.elim (.done (.ok (.token []))) fun row =>
        if row.2.password ≠ password then .done (.ok (.token []))
        else .call .generateToken fun token => respond (UserService.renew row.1 token) := by
  refine congrArg (Program.call (Call.findByUsername username)) (funext fun found => ?_)
  rcases found with _ | ⟨id, user⟩
  · rfl
  · show respond (if user.password ≠ password then pure []
      else ask .generateToken >>= fun token => UserService.renew id token) = _
    simp only [Option.elim]
    split <;> rfl

theorem handler_verifyToken (token : Bytes) : handler (.verifyToken token) =
    if token = [] then .done (.ok (.userId (-1)))
    else .call (.findByToken token) fun found =>
      .done (.ok (.userId (found.elim (-1) Prod.fst))) := by
  simp only [handler, UserService.verifyToken]
  split
  · rfl
  · refine congrArg (Program.call (Call.findByToken token)) (funext fun found => ?_)
    cases found <;> rfl

theorem respond_enroll (username password token : Bytes) :
    respond (UserService.enroll username password token) =
      .call (.insert ⟨username, password, token⟩) fun id =>
        .done (.ok (.token (if id ≤ 0 then [] else token))) := by
  refine congrArg (Program.call (Call.insert _)) (funext fun id => ?_)
  show (if (id : Int) ≤ 0 then _ else _ : Handler Bytes) >>= _ = _
  split <;> rfl

theorem respond_renew (id : Int) (token : Bytes) : respond (UserService.renew id token) =
    .call (.updateToken id token) fun stored =>
      .done (.ok (.token (if stored = true then token else []))) := by
  refine congrArg (Program.call (Call.updateToken id token)) (funext fun stored => ?_)
  cases stored <;> rfl

theorem run_call {α : Type} (outcome : Outcome) (outcomes : List Outcome) (call : Call)
    (next : call.Answer → Handler α) (world : World) :
    (service collate).run (outcome :: outcomes) (.call call next) world =
      (service collate).run outcomes (next (serve collate outcome call world).1)
        (serve collate outcome call world).2 := rfl

theorem run_next {α : Type} (outcomes : List Outcome) (call : Call)
    (next : call.Answer → Handler α) (world : World) :
    (service collate).run outcomes (.call call next) world =
      (service collate).run outcomes.tail
        (next (serve collate (outcomes.headD default) call world).1)
        (serve collate (outcomes.headD default) call world).2 := by
  cases outcomes <;> rfl

theorem run_done {α : Type} (outcomes : List Outcome) (result : Except Empty α) (world : World) :
    (service collate).run outcomes (.done result) world = (result, world) := by
  cases outcomes <;> rfl

theorem atOnce_first {request : Request} {call : Call} {next : call.Answer → Handler Reply}
    {reply : Reply} (handled : handler request = .call call next)
    (ended : next (serve collate outcome call world).1 = .done (.ok reply)) :
    AtOnce collate request reply world (serve collate outcome call world).2 :=
  ⟨[outcome], by rw [handled, run_call, ended, run_done]⟩

/-- The row that a free name does not find. -/
theorem World.Valid.named_none (valid : world.Valid collate) {username : Bytes} :
    world.select (World.named collate username) = none ↔
      ∀ id user, world.user.get? id = some user → collate user.username ≠ collate username := by
  simp only [valid.select_none, World.named, decide_eq_false_iff_not, ne_eq]

theorem World.Valid.named_some (valid : world.Valid collate) {id : Int} {user : User}
    {username : Bytes} (stored : world.user.get? id = some user)
    (named : collate user.username = collate username) :
    world.select (World.named collate username) =
      some (id, ⟨cString user.username, cString user.password, cString user.token⟩) := by
  cases chosen : world.select (World.named collate username) with
  | none => exact absurd named (valid.named_none.mp chosen id user stored)
  | some row =>
      obtain ⟨found, stored', fetched, matched⟩ := World.select_some chosen
      have same := valid.unique id user row.1 found stored stored'
        (named.trans (of_decide_eq_true matched).symm)
      obtain rfl := Option.some.inj (stored.symm.trans (same ▸ stored'))
      obtain ⟨_, read⟩ := User.fetch_eq_some.mp fetched
      rw [← read, same]

section Steps

variable (valid : world.Valid collate)
include valid

theorem enrolled {username password token : Bytes} (given : ¬(username = [] ∨ password = []))
    (fits : ¬(64 < username.length ∨ 128 < password.length)) {ms random : UInt64}
    (drawn : token = tokenOf ms random) (outcome : Outcome) :
    AtOnce collate (.register username password)
      (.token (if (serve collate outcome (.insert ⟨username, password, token⟩) world).1 ≤ 0 then []
        else token)) world (serve collate outcome (.insert ⟨username, password, token⟩) world).2 := by
  subst drawn
  cases found : world.select (World.named collate username) with
  | none =>
      refine ⟨[{}, { ms, random }, outcome], ?_⟩
      have free : (serve collate {} (.findByUsername username) world).1 = none := found
      rw [handler_register, if_neg given, if_neg fits, run_call, free, Option.elim, run_call,
        respond_enroll, run_call, run_done]
      rfl
  | some row =>
      obtain ⟨user, stored, _, named⟩ := World.select_some found
      have refused : world.insertRow collate outcome.skipped
          ⟨username, password, tokenOf ms random⟩ = none :=
        valid.insertRow_eq_none.mpr ⟨row.1, user, stored, of_decide_eq_true named⟩
      have kept : (serve collate outcome (.insert ⟨username, password, tokenOf ms random⟩) world) =
          (if outcome.succeeds then -2 else -1, world) := by
        simp only [serve, refused]
      have negative : (if outcome.succeeds then (-2 : Int) else -1) ≤ 0 := by
        split <;> omega
      rw [kept]
      dsimp only
      rw [if_pos negative]
      have taken : (serve collate {} (.findByUsername username) world).1 = some row := found
      refine ⟨[{}], ?_⟩
      rw [handler_register, if_neg given, if_neg fits, run_call, taken, Option.elim, run_done]
      rfl

theorem admitted {username password token : Bytes} {id : Int} {user : User}
    (stored : world.user.get? id = some user) (named : collate user.username = collate username)
    (knows : cString user.password = password) {ms random : UInt64}
    (drawn : token = tokenOf ms random) (outcome : Outcome) :
    AtOnce collate (.login username password)
      (.token (if (serve collate outcome (.updateToken id token) world).1 = true then token else []))
      world (serve collate outcome (.updateToken id token) world).2 := by
  subst drawn
  refine ⟨[{}, { ms, random }, outcome], ?_⟩
  have found : (serve collate {} (.findByUsername username) world).1 =
      some (id, ⟨cString user.username, cString user.password, cString user.token⟩) :=
    valid.named_some stored named
  rw [handler_login, run_call, found, Option.elim, if_neg (not_not.mpr knows), run_call,
    respond_renew, run_call, run_done]
  rfl

/-- A request reads the table, or it takes effect. -/
theorem Point.step {request : Request} {call : Call} {next : call.Answer → Handler Reply}
    (point : Point collate world request (.call call next)) (outcome : Outcome) :
    call.Fits ∧ Continues collate request (next (serve collate outcome call world).1) world
      (serve collate outcome call world).2 := by
  generalize rest : Program.call call next = program at point
  cases point with
  | start =>
      have handled := rest.symm
      cases request with
      | register username password =>
          rw [handler_register] at rest
          split at rest
          · cases rest
          · next given =>
              split at rest
              · cases rest
              · next fits =>
                  cases rest
                  refine ⟨trivial, ?_⟩
                  cases found : (serve collate outcome (.findByUsername username) world).1 with
                  | none => exact .inl ⟨rfl, .registering username password given fits, _, _, rfl⟩
                  | some row => exact .inr ⟨_, rfl, atOnce_first handled (by rw [found]; rfl)⟩
      | login username password =>
          rw [handler_login] at rest
          cases rest
          refine ⟨trivial, ?_⟩
          cases found : (serve collate outcome (.findByUsername username) world).1 with
          | none => exact .inr ⟨_, rfl, atOnce_first handled (by rw [found]; rfl)⟩
          | some row =>
              simp only [Option.elim]
              split
              · next wrong =>
                  refine .inr ⟨_, rfl, atOnce_first handled ?_⟩
                  rw [found, Option.elim, if_pos wrong]
              · next right =>
                  have selected : world.select (World.named collate username) = some row := by
                    simp only [serve] at found
                    split at found
                    · exact found
                    · cases found
                  obtain ⟨user, stored, fetched, named⟩ := World.select_some selected
                  obtain ⟨_, read⟩ := User.fetch_eq_some.mp fetched
                  rw [read, not_not] at right
                  exact .inl ⟨rfl, .matching username password row.1 user stored
                    (of_decide_eq_true named) right, _, _, rfl⟩
      | verifyToken token =>
          rw [handler_verifyToken] at rest
          split at rest
          · cases rest
          · cases rest
            exact ⟨trivial, .inr ⟨_, rfl, atOnce_first handled rfl⟩⟩
      | getUserById id =>
          cases rest
          exact ⟨trivial, .inr ⟨_, rfl, atOnce_first handled rfl⟩⟩
      | getUserByUsername username =>
          cases rest
          exact ⟨trivial, .inr ⟨_, rfl, atOnce_first handled rfl⟩⟩
  | registering username password given fits =>
      cases rest
      exact ⟨trivial, .inl ⟨rfl, .inserting username password _ given fits ⟨_, _, rfl⟩, _, _,
        respond_enroll ..⟩⟩
  | inserting username password token given fits drawn =>
      rw [respond_enroll] at rest
      cases rest
      obtain ⟨ms, random, rfl⟩ := drawn
      refine ⟨User.fetch_isSome.mpr ?_, .inr ⟨_, rfl, enrolled valid given fits rfl outcome⟩⟩
      simp only [tokenOf_length]
      omega
  | matching username password id user stored named knows =>
      cases rest
      exact ⟨trivial, .inl ⟨rfl, .updating username password id user _ stored named knows
        ⟨_, _, rfl⟩, _, _, respond_renew ..⟩⟩
  | updating username password id user token stored named knows drawn =>
      rw [respond_renew] at rest
      cases rest
      obtain ⟨ms, random, rfl⟩ := drawn
      refine ⟨?_, .inr ⟨_, rfl, admitted valid stored named knows rfl outcome⟩⟩
      simp [Call.Fits]

end Steps

end Points

section Runs

/-- The event starts a request, or performs a call of it. -/
def Concerns (index : Nat) (event : Happening) : Prop :=
  (∃ request, event.action = .request request ∧ index = event.before.jobs.length) ∨
    ∃ outcome, event.action = .advance index outcome

/-- The request has left the table as it was. -/
def Idle (history : List Happening) (index : Nat) : Prop :=
  ∀ event ∈ history, Concerns index event → event.after.scene.world = event.before.scene.world

/-- At one event of its own the request took effect, at once; the others left
the table as it was. -/
def TookEffect (collate : Bytes → Bytes) (history : List Happening) (index : Nat)
    (request : Request) (reply : Reply) : Prop :=
  ∃ later event earlier, history = later ++ event :: earlier ∧ Concerns index event ∧
    AtOnce collate request reply event.before.scene.world event.after.scene.world ∧
    Idle (later ++ earlier) index

def Stage (collate : Bytes → Bytes) (history : List Happening) (world : World) (index : Nat)
    (job : Job Request Call Call.Answer Empty Reply) : Prop :=
  (Idle history index ∧ Point collate world job.request job.rest ∧
      ∃ call next, job.rest = .call call next) ∨
    ∃ reply, job.rest = .done (.ok reply) ∧ TookEffect collate history index job.request reply

variable {history : List Happening} {before after state earlier : Service} {index : Nat}
  {job : Job Request Call Call.Answer Empty Reply}

theorem Idle.next (idle : Idle history index) {event : Happening}
    (unchanged : Concerns index event → event.after.scene.world = event.before.scene.world) :
    Idle (event :: history) index :=
  List.forall_mem_cons.mpr ⟨unchanged, idle⟩

/-- What another request does leaves it where it is. -/
theorem Stage.other (stage : Stage collate history before.scene.world index job)
    {event : Happening} (apart : ¬Concerns index event)
    (keeps : before.scene.world.Keeps after.scene.world) :
    Stage collate (event :: history) after.scene.world index job := by
  rcases stage with ⟨idle, point, waits⟩ | ⟨reply, ended, later, own, earlier, rfl, concerns, once, idle⟩
  · exact .inl ⟨idle.next fun concerned => absurd concerned apart, point.keeps keeps, waits⟩
  · exact .inr ⟨reply, ended, event :: later, own, earlier, rfl, concerns, once,
      idle.next fun concerned => absurd concerned apart⟩

theorem handler_begins (request : Request) : (∃ call next, handler request = .call call next) ∨
    ∃ reply, handler request = .done (.ok reply) := by
  cases request with
  | register username password =>
      rw [handler_register]
      split
      · exact .inr ⟨_, rfl⟩
      · split
        · exact .inr ⟨_, rfl⟩
        · exact .inl ⟨_, _, rfl⟩
  | login username password => exact .inl ⟨_, _, handler_login ..⟩
  | verifyToken token =>
      rw [handler_verifyToken]
      split
      · exact .inr ⟨_, rfl⟩
      · exact .inl ⟨_, _, rfl⟩
  | getUserById id => exact .inl ⟨_, _, rfl⟩
  | getUserByUsername username => exact .inl ⟨_, _, rfl⟩

/-- The table is valid, and every request is at one of its stages. -/
structure Sound (collate : Bytes → Bytes) (history : List Happening) (state : Service) :
    Prop where
  valid : state.scene.world.Valid collate
  stages : ∀ index job, state.jobs[index]? = some job →
    Stage collate history state.scene.world index job
  started : ∀ index, state.jobs.length ≤ index → Idle history index

theorem Sound.step (sound : Sound collate history before)
    (alone : before.sessions = []) {move : Move Request Empty Outcome}
    (stepped : (service collate).step before move = some after) :
    Sound collate (⟨before, move, after⟩ :: history) after := by
  rcases Deployment.step_of_no_orders alone stepped with
    ⟨request, rfl, _, rfl⟩ | ⟨position, outcome, request, call, next, rfl, current, rfl⟩
  · refine ⟨sound.valid, fun index job found => ?_, fun index beyond => ?_⟩
    · rw [List.getElem?_append] at found
      split at found
      · next inside =>
          refine (sound.stages index job found).other ?_ (.refl _)
          rintro (⟨_, _, here⟩ | ⟨_, wrong⟩)
          · exact absurd here (Nat.ne_of_lt inside)
          · cases wrong
      · next outside =>
          rw [List.getElem?_singleton, Option.ite_none_right_eq_some] at found
          obtain ⟨here, same⟩ := found
          cases same
          have place : index = before.jobs.length := by omega
          have idle := sound.started index (by omega)
          rcases handler_begins request with ⟨call, next, begun⟩ | ⟨reply, ended⟩
          · exact .inl ⟨idle.next fun _ => rfl, .start request, call, next, begun⟩
          · refine .inr ⟨reply, ended, [], _, history, rfl, .inl ⟨request, rfl, place⟩, ⟨[], ?_⟩, idle⟩
            rw [ended, run_done]
    · exact (sound.started index (by simp at beyond; omega)).next fun _ => rfl
  · have inside := (List.getElem?_eq_some_iff.mp current).1
    have writes := serve_writes collate outcome call before.scene.world
    have stage := (sound.stages position _ current).resolve_right (by
      rintro ⟨_, ended, _⟩
      cases ended)
    obtain ⟨idle, point, _⟩ := stage
    obtain ⟨fits, continues⟩ := point.step sound.valid outcome
    have concerns : Concerns position ⟨before, .advance position outcome, { before with
        scene := ((service collate).perform outcome call before.scene).2
        jobs := before.jobs.set position
          ⟨request, next ((service collate).perform outcome call before.scene).1⟩ }⟩ :=
      .inr ⟨outcome, rfl⟩
    refine ⟨sound.valid.writes fits writes, fun index job found => ?_, fun index beyond => ?_⟩
    · by_cases here : position = index
      · subst here
        rw [List.getElem?_set_self inside] at found
        cases found
        rcases continues with ⟨same, point, waits⟩ | ⟨reply, ended, once⟩
        · refine .inl ⟨idle.next fun _ => same, ?_, waits⟩
          exact point.keeps writes.keeps
        · exact .inr ⟨reply, ended, [], _, history, rfl, concerns, once, idle⟩
      · rw [List.getElem?_set_ne here] at found
        refine (sound.stages index job found).other ?_ writes.keeps
        rintro (⟨_, wrong, _⟩ | ⟨_, same⟩)
        · cases wrong
        · cases same
          exact here rfl
    · have beyond : before.jobs.length ≤ index := by simpa using beyond
      refine (sound.started index beyond).next ?_
      rintro (⟨_, wrong, _⟩ | ⟨_, same⟩)
      · cases wrong
      · cases same
        omega

theorem sound_of_run (run : Run (service collate).system history state) :
    Sound collate history state := by
  refine run.historyInvariant (Sound collate) ?_ ?_
  · refine ⟨⟨?_, le_rfl, ?_, ?_⟩, ?_, fun index _ event membership => by cases membership⟩
    · intro id user stored
      cases stored
    · intro id user id' user' stored
      cases stored
    · intro id user stored
      cases stored
    · intro index job found
      cases found
  · intro history before move after earlier sound stepped
    exact sound.step (Deployment.sessions_eq_nil earlier) stepped

theorem Sound.tookEffect (sound : Sound collate history state) {request : Request} {reply : Reply}
    (ended : state.jobs[index]? = some ⟨request, .done (.ok reply)⟩) :
    TookEffect collate history index request reply := by
  rcases sound.stages index _ ended with ⟨_, _, _, _, waits⟩ | ⟨_, same, effect⟩
  · cases waits
  · cases same
    exact effect

theorem keeps_of_step (alone : before.sessions = []) {move : Move Request Empty Outcome}
    (stepped : (service collate).step before move = some after) :
    before.scene.world.Keeps after.scene.world := by
  rcases Deployment.step_of_no_orders alone stepped with
    ⟨_, _, _, rfl⟩ | ⟨_, outcome, _, call, _, _, _, rfl⟩
  · exact .refl _
  · exact (serve_writes collate outcome call before.scene.world).keeps

theorem keeps_of_run (run : Run (service collate).system history state)
    (seen : Visited history state earlier) : earlier.scene.world.Keeps state.scene.world := by
  refine run.visited (fun first second => first.scene.world.Keeps second.scene.world)
    (fun _ => .refl _) (fun _ _ _ => .trans) ?_ seen
  rintro before move after ⟨history, run⟩ stepped
  exact keeps_of_step (Deployment.sessions_eq_nil run) stepped

end Runs

/-- Every request that has been answered took effect at one moment between its
start and its end, as if nothing else had been going on. -/
theorem requests_atomic {history : List Happening} {state : Service}
    (run : Run (service collate).system history state) {index : Nat} {request : Request}
    {reply : Reply} (ended : state.jobs[index]? = some ⟨request, .done (.ok reply)⟩) :
    TookEffect collate history index request reply :=
  (sound_of_run run).tookEffect ended

section Sample

/-- Texts that differ in the case of their letters or in spaces at their ends. -/
def caseless (bytes : Bytes) : Bytes :=
  (bytes.reverse.dropWhile (· = 0x20)).reverse.map fun byte =>
    if 0x41 ≤ byte ∧ byte ≤ 0x5A then byte + 0x20 else byte

/-- Two registrations of one name, a login and a look at its token. -/
def sampleMoves : List (Move Request Empty Outcome) :=
  [.request (.register [0x61] [1]), .request (.register [0x41] [2]), .advance 0 {}, .advance 1 {},
    .advance 0 { ms := 1, random := 1 }, .advance 1 { ms := 1, random := 2 }, .advance 0 {},
    .advance 1 {}, .request (.login [0x41] [1]), .advance 2 {},
    .advance 2 { ms := 2, random := 3 }, .advance 2 {}, .request (.verifyToken (tokenOf 2 3)),
    .advance 3 {}]

theorem sample_enabled : ((service caseless).system.execute (service caseless).system.initial
    sampleMoves).isSome := by
  decide +kernel

def sample : Service := ((service caseless).system.execute (service caseless).system.initial
  sampleMoves).get sample_enabled

def sampleHistory : List Happening :=
  (service caseless).system.events (service caseless).system.initial sampleMoves

theorem sample_run : Run (service caseless).system sampleHistory sample :=
  (service caseless).system.run sampleMoves sample_enabled

/-- The second registration is refused, after its insertion. -/
theorem requests_atomic_sample : TookEffect caseless sampleHistory 1 (.register [0x41] [2])
    (.token []) :=
  requests_atomic sample_run rfl

end Sample

end FileServer.Users

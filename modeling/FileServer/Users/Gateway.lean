import FileServer.Routing.Refusals
import FileServer.Users.Tokens

/-!
# Tokens at the gateway

The accounts that the gateway asks for are those of the table, so what becomes
of a token there decides what its bearer can do to records and files.
-/

namespace FileServer.Users

open FileServer.Json FileServer.Relational FileServer.Transition
open FileServer.Protocol (Message)
open FileServer.Routing (Accounts Delivery)

def returned {α : Type} (collate : Bytes → Bytes) (outcomes : List Outcome) (world : World)
    (method : Handler α) : α :=
  match ((service collate).run outcomes method world).1 with
  | .ok value => value

/-- The methods of UserService on its table. -/
def accounts (collate : Bytes → Bytes) (outcomes : List Outcome) (world : World) : Accounts where
  register username password :=
    returned collate outcomes world (UserService.register username password)
  login username password := returned collate outcomes world (UserService.login username password)
  verifyToken token := returned collate outcomes world (UserService.verifyToken token)

theorem verifyToken_eq (token : Bytes) : UserService.verifyToken token =
    if token = [] then .done (.ok (-1))
    else .call (.findByToken token) fun found => .done (.ok (found.elim (-1) Prod.fst)) := by
  rw [UserService.verifyToken]
  split
  · rfl
  · refine congrArg (Program.call (Call.findByToken token)) (funext fun found => ?_)
    cases found <;> rfl

/-- Once the token of an account has been replaced, requests that carry it, or a
text that the database takes for it, change no record and no file. -/
theorem replaced_token_harmless {collate : Bytes → Bytes} {later earlier : List Happening}
    {event : Happening} {state : Service}
    (run : Run (service collate).system (later ++ event :: earlier) state)
    (fresh : ((draws (later ++ event :: earlier)).map Prod.snd).Nodup)
    (distinguishes : ∀ ms random ms' random',
      collate (tokenOf ms random) = collate (tokenOf ms' random') →
        tokenOf ms random = tokenOf ms' random')
    {id : Int} {user user' : User} (stored : event.before.scene.world.user.get? id = some user)
    (stored' : event.after.scene.world.user.get? id = some user')
    (replaced : user'.token ≠ user.token) {library : Library} {request : Message}
    (carries : ∀ token, (request.getJson library).value "token" [] Value.getString = .ok token →
      collate token = collate user.token)
    (outcomes : List Outcome) (deliveries : List Delivery) (files : FileServer.Service.World) :
    (Routing.Services.respond library (accounts collate outcomes state.scene.world) deliveries
      files request).2 = files := by
  refine Routing.Services.respond_unmoved fun token tokenRead named => ?_
  have unfound := replaced_unfound run fresh distinguishes stored stored' replaced
    (carries token tokenRead) (outcomes.headD default)
  simp only [accounts, returned, verifyToken_eq, if_neg named, run_next, run_done, unfound,
    Option.elim]

/-- A request of the sample's first token, after the login. -/
def staleRequest : Value :=
  .object [("cmd", .string (text "delete")), ("file_id", .number 1),
    ("token", .string (tokenOf 1 1))]

theorem replaced_token_harmless_sample :
    (Routing.Services.respond (sampleLibrary [staleRequest])
      (accounts caseless [] afterLogin.scene.world) [] Routing.shared
      ⟨{}, staleRequest.print, []⟩).2 = Routing.shared := by
  have user : beforeLogin.scene.world.user.get? 1 = some ⟨[0x61], [1], tokenOf 1 1⟩ := by
    decide +kernel
  have user' : afterLogin.scene.world.user.get? 1 = some ⟨[0x61], [1], tokenOf 2 3⟩ := by
    decide +kernel
  have fresh : ((draws loginHistory).map Prod.snd).Nodup := by decide +kernel
  have json : (⟨{}, staleRequest.print, []⟩ : Message).getJson (sampleLibrary [staleRequest]) =
      staleRequest := rfl
  refine @replaced_token_harmless caseless [] _ ⟨beforeLogin, .advance 2 {}, afterLogin⟩ afterLogin
    login_run fresh
    (fun ms random ms' random' same => by rwa [caseless_tokenOf, caseless_tokenOf] at same)
    1 _ _ user user' (by decide +kernel) _ _ ?_ [] [] Routing.shared
  intro token tokenRead
  rw [json] at tokenRead
  obtain rfl : tokenOf 1 1 = token := Except.ok.inj tokenRead
  rfl

end FileServer.Users

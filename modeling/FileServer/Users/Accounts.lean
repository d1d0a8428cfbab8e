import FileServer.Relational.Table
import FileServer.Transition.Interleaving

/-!
# Accounts

The `user` table with the statements of `UserDAO`, the methods of `UserService`
and the process that serves them to many callers at once.  The database compares
texts by a collation, and rows are read into buffers as C strings.
-/

namespace FileServer.Users

open FileServer.Relational FileServer.Transition

abbrev Bytes := List UInt8

/-- A row of `user`; its id is the key. -/
structure User where
  username : Bytes
  password : Bytes
  token : Bytes
  deriving DecidableEq

structure World where
  user : Table Int User
  lastInsertId : Int

def hexDigit (digit : Nat) : UInt8 :=
  if digit < 10 then .ofNat (0x30 + digit) else .ofNat (0x61 + (digit - 10))

/-- `std::setw(16)` hexadecimal digits, padded with zeros. -/
def hex16 (number : UInt64) : Bytes :=
  (List.range 16).map fun place => hexDigit (number.toNat / 16 ^ (15 - place) % 16)

/-- `GenerateToken`. -/
def tokenOf (ms random : UInt64) : Bytes := hex16 ms ++ hex16 random

/-- A buffer up to its first zero byte. -/
def cString (bytes : Bytes) : Bytes := bytes.takeWhile (· ≠ 0)

/-- A row in the buffers of a `SELECT`; `mysql_stmt_fetch` reports texts that
are too long for them. -/
def User.fetch (user : User) : Option User :=
  if user.username.length ≤ 64 ∧ user.password.length ≤ 128 ∧ user.token.length ≤ 128 then
    some ⟨cString user.username, cString user.password, cString user.token⟩
  else none

/-- The statements, and the generation of a token. -/
inductive Call where
  | findByUsername (username : Bytes)
  | findById (id : Int)
  | findByToken (token : Bytes)
  | generateToken
  | insert (user : User)
  | updateToken (userId : Int) (token : Bytes)
  deriving DecidableEq

abbrev Call.Answer : Call → Type
  | .findByUsername _ | .findById _ | .findByToken _ => Option (Int × User)
  | .generateToken => Bytes
  | .insert _ => Int
  | .updateToken .. => Bool

/-- What becomes of a call. -/
structure Outcome where
  /-- The statement succeeds. -/
  succeeds : Bool := true
  /-- One that does not succeed may have taken effect. -/
  applied : Bool := false
  /-- Ids that the database leaves out. -/
  skipped : Nat := 0
  /-- The clock. -/
  ms : UInt64 := 0
  /-- What the random number generator returns. -/
  random : UInt64 := 0
  deriving DecidableEq, Inhabited

namespace World

variable (collate : Bytes → Bytes) (world : World)

/-- The first row a `SELECT` finds. -/
def select (matching : Int × User → Bool) : Option (Int × User) :=
  (world.user.rows.find? matching).bind fun row => row.2.fetch.map fun user => (row.1, user)

/-- `WHERE username = ?`. -/
def named (username : Bytes) (row : Int × User) : Bool :=
  collate row.2.username = collate username

/-- `WHERE token = ? AND token != ''`. -/
def holding (token : Bytes) (row : Int × User) : Bool :=
  collate row.2.token = collate token ∧ collate row.2.token ≠ collate []

/-- A row under the next id, unless its user name is taken. -/
def insertRow (skipped : Nat) (user : User) : Option (Int × World) :=
  let id := world.lastInsertId + 1 + skipped
  if world.user.rows.any (named collate user.username) then none
  else (world.user.insert? id user).map fun table => (id, ⟨table, id⟩)

def setToken (userId : Int) (token : Bytes) : World :=
  { world with user := world.user.modify userId fun user => { user with token } }

end World

def serve (collate : Bytes → Bytes) (outcome : Outcome) :
    (call : Call) → World → call.Answer × World
  | .findByUsername username, world =>
      (if outcome.succeeds then world.select (World.named collate username) else none, world)
  | .findById id, world =>
      (if outcome.succeeds then world.select fun row => row.1 = id else none, world)
  | .findByToken token, world =>
      (if outcome.succeeds then world.select (World.holding collate token) else none, world)
  | .generateToken, world => (tokenOf outcome.ms outcome.random, world)
  | .insert user, world =>
      match world.insertRow collate outcome.skipped user with
      | some (id, inserted) =>
          if outcome.succeeds then (id, inserted)
          else (-1, if outcome.applied then inserted else world)
      | none => (if outcome.succeeds then -2 else -1, world)
  | .updateToken userId token, world =>
      (outcome.succeeds,
        if outcome.succeeds ∨ outcome.applied then world.setToken userId token else world)

abbrev Handler (α : Type) := Program Call Call.Answer Empty α

def ask (call : Call) : Handler call.Answer := .send call .ok

namespace UserService

/-- `Register` once the name is known to be free. -/
def enroll (username password token : Bytes) : Handler Bytes := do
  let id ← ask (.insert ⟨username, password, token⟩)
  if id ≤ 0 then return []
  return token

def register (username password : Bytes) : Handler Bytes := do
  if username = [] ∨ password = [] then return []
  if 64 < username.length ∨ 128 < password.length then return []
  match ← ask (.findByUsername username) with
  | some _ => return []
  | none =>
      let token ← ask .generateToken
      enroll username password token

/-- `Login` once the password has been compared. -/
def renew (userId : Int) (token : Bytes) : Handler Bytes := do
  if !(← ask (.updateToken userId token)) then return []
  return token

def login (username password : Bytes) : Handler Bytes := do
  match ← ask (.findByUsername username) with
  | none => return []
  | some (id, user) =>
      if user.password ≠ password then return []
      let token ← ask .generateToken
      renew id token

def verifyToken (token : Bytes) : Handler Int := do
  if token = [] then return -1
  match ← ask (.findByToken token) with
  | none => return -1
  | some (id, _) => return id

def getUserById (userId : Int) : Handler (Option (Int × User)) := ask (.findById userId)

def getUserByUsername (username : Bytes) : Handler (Option (Int × User)) :=
  ask (.findByUsername username)

end UserService

inductive Request where
  | register (username password : Bytes)
  | login (username password : Bytes)
  | verifyToken (token : Bytes)
  | getUserById (userId : Int)
  | getUserByUsername (username : Bytes)
  deriving DecidableEq

inductive Reply where
  | token (token : Bytes)
  | userId (userId : Int)
  | user (user : Option (Int × User))
  deriving DecidableEq

def handler : Request → Handler Reply
  | .register username password => do return .token (← UserService.register username password)
  | .login username password => do return .token (← UserService.login username password)
  | .verifyToken token => do return .userId (← UserService.verifyToken token)
  | .getUserById userId => do return .user (← UserService.getUserById userId)
  | .getUserByUsername username => do return .user (← UserService.getUserByUsername username)

/-- The worker threads of the process, on one table. -/
def service (collate : Bytes → Bytes) :
    Deployment Request Empty Call Call.Answer Outcome World Empty Reply where
  serve := serve collate
  handler
  refusal := Empty.elim
  front := Empty.elim
  lost _ := .token []
  direct _ := true
  initial := ⟨.empty, 0⟩

abbrev Service := Interleaved Request Empty Call Call.Answer World Empty Reply
abbrev Happening := Event Service (Move Request Empty Outcome)

section Rows

variable {collate : Bytes → Bytes} {world world' : World}

/-- What every table satisfies. -/
structure World.Valid (collate : Bytes → Bytes) (world : World) : Prop where
  numbered : ∀ id user, world.user.get? id = some user → 0 < id ∧ id ≤ world.lastInsertId
  started : 0 ≤ world.lastInsertId
  unique : ∀ id user id' user', world.user.get? id = some user →
    world.user.get? id' = some user' → collate user.username = collate user'.username → id = id'
  fits : ∀ id user, world.user.get? id = some user → user.fetch.isSome = true

/-- Accounts stay; only their tokens change. -/
def World.Keeps (world world' : World) : Prop :=
  ∀ id user, world.user.get? id = some user → ∃ token,
    world'.user.get? id = some { user with token }

theorem World.Keeps.refl (world : World) : world.Keeps world :=
  fun _ user stored => ⟨user.token, stored⟩

theorem World.Keeps.trans {world'' : World} (earlier : world.Keeps world')
    (later : world'.Keeps world'') : world.Keeps world'' := by
  intro id user stored
  obtain ⟨token, stored'⟩ := earlier id user stored
  exact later id { user with token } stored'

theorem User.fetch_eq_some {user read : User} : user.fetch = some read ↔
    (user.username.length ≤ 64 ∧ user.password.length ≤ 128 ∧ user.token.length ≤ 128) ∧
      read = ⟨cString user.username, cString user.password, cString user.token⟩ := by
  unfold User.fetch
  split
  · next fits => simp [fits, eq_comm]
  · next wide => simp [wide]

@[simp]
theorem tokenOf_length (ms random : UInt64) : (tokenOf ms random).length = 32 := by
  simp [tokenOf, hex16]

theorem World.select_some {matching : Int × User → Bool} {row : Int × User}
    (selected : world.select matching = some row) : ∃ user,
      world.user.get? row.1 = some user ∧ user.fetch = some row.2 ∧
        matching (row.1, user) = true := by
  obtain ⟨id, read⟩ := row
  simp only [World.select, Option.bind_eq_some_iff, Option.map_eq_some_iff, Prod.mk.injEq] at selected
  obtain ⟨⟨_, user⟩, chosen, read, fetched, rfl, rfl⟩ := selected
  exact ⟨user, (Table.mem_rows_iff _).mp (List.mem_of_find?_eq_some chosen), fetched,
    List.find?_some (p := matching) chosen⟩

theorem World.Valid.select_none (valid : world.Valid collate) {matching : Int × User → Bool} :
    world.select matching = none ↔
      ∀ id user, world.user.get? id = some user → matching (id, user) = false := by
  constructor
  · intro nothing id user stored
    simp only [World.select, Option.bind_eq_none_iff] at nothing
    by_contra matched
    obtain ⟨row, chosen⟩ := Option.ne_none_iff_exists'.mp (fun none =>
      matched (by simpa using List.find?_eq_none.mp none _ (world.user.mem_rows_iff.mpr stored)))
    have fits := valid.fits row.1 row.2
      (world.user.mem_rows_iff.mp (List.mem_of_find?_eq_some chosen))
    have empty := nothing row chosen
    rw [Option.map_eq_none_iff] at empty
    simp [empty] at fits
  · intro unmatched
    have nothing : world.user.rows.find? matching = none := by
      rw [List.find?_eq_none]
      rintro ⟨id, user⟩ membership
      simp [unmatched id user (world.user.mem_rows_iff.mp membership)]
    rw [World.select, nothing]
    rfl

end Rows

end FileServer.Users

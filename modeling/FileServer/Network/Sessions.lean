import FileServer.Relational.Table
import FileServer.Sequence.Unrepeated
import FileServer.Transition.Run

/-!
# The sessions of a server

`TcpServerWrapper` adds a session when a connection has been made and removes it
when the connection is gone.  The threads of several connections do so at the
same time, and a new connection may be found at the address of an old one.
-/

namespace FileServer.Network

open FileServer.Relational FileServer.Sequence FileServer.Transition

/-- A session points weakly to its connection: the place among all of them. -/
structure Session where
  id : UInt64
  conn : Nat
  deriving DecidableEq

structure TcpConnectionManager where
  nextId : UInt64
  sessions : Table UInt64 Session

/-- Where the thread of a connection is. -/
inductive Stage where
  | accepted
  /-- `AddSession` has drawn the id. -/
  | numbered (id : UInt64)
  | registered (id : UInt64)
  | removed (id : UInt64)
  /-- The last `shared_ptr` is gone. -/
  | destroyed (id : UInt64)
  deriving DecidableEq

namespace Stage

def id? : Stage → Option UInt64
  | .accepted => none
  | .numbered id | .registered id | .removed id | .destroyed id => some id

def isAlive : Stage → Bool
  | .destroyed _ => false
  | _ => true

def session? : Stage → Option UInt64
  | .registered id => some id
  | _ => none

end Stage

structure TcpConnection where
  address : Nat
  stage : Stage
  deriving DecidableEq

def TcpConnection.location? (conn : TcpConnection) : Option Nat :=
  if conn.stage.isAlive then some conn.address else none

structure TcpServerWrapper where
  manager : TcpConnectionManager
  connections : List TcpConnection

inductive Action where
  /-- A connection is made, at an address that is free. -/
  | accept (address : Nat)
  /-- `fetch_add` in `AddSession`. -/
  | fetchId (conn : Nat)
  /-- The rest of `AddSession`, under the mutex. -/
  | addSession (conn : Nat)
  /-- `RemoveSession`, which may find the sessions in any order. -/
  | removeSession (conn : Nat) (found : Option UInt64)
  | destroy (conn : Nat)

namespace TcpServerWrapper

def getConnection (server : TcpServerWrapper) (session : Session) : Option Nat :=
  (server.connections[session.conn]?).bind TcpConnection.location?

/-- The scan of `RemoveSession` ends at the session, or at none. -/
def Finds (server : TcpServerWrapper) (address : Nat) : Option UInt64 → Prop
  | some id => ∃ session ∈ server.manager.sessions.get? id,
      server.getConnection session = some address
  | none => ∀ entry ∈ server.manager.sessions.rows, server.getConnection entry.2 ≠ some address

instance (server : TcpServerWrapper) (address : Nat) :
    (found : Option UInt64) → Decidable (server.Finds address found)
  | some id => inferInstanceAs (Decidable (∃ session ∈ server.manager.sessions.get? id, _))
  | none => inferInstanceAs (Decidable (∀ entry ∈ server.manager.sessions.rows, _))

def erase (manager : TcpConnectionManager) : Option UInt64 → TcpConnectionManager
  | some id => { manager with sessions := manager.sessions.erase id }
  | none => manager

def connectionCount (server : TcpServerWrapper) : Nat := server.manager.sessions.rows.length

def initial : TcpServerWrapper := ⟨⟨1, .empty⟩, []⟩

def step (server : TcpServerWrapper) : Action → Option TcpServerWrapper
  | .accept address =>
      if ∀ other ∈ server.connections, other.stage.isAlive → other.address ≠ address then
        some { server with connections := server.connections ++ [⟨address, .accepted⟩] }
      else none
  | .fetchId conn =>
      match server.connections[conn]? with
      | some ⟨address, .accepted⟩ =>
          let id := server.manager.nextId
          some {
            manager := { server.manager with nextId := id + 1 }
            connections := server.connections.set conn ⟨address, .numbered id⟩ }
      | _ => none
  | .addSession conn =>
      match server.connections[conn]? with
      | some ⟨address, .numbered id⟩ =>
          some {
            manager := { server.manager with
              sessions := server.manager.sessions.upsert id ⟨id, conn⟩ fun _ => ⟨id, conn⟩ }
            connections := server.connections.set conn ⟨address, .registered id⟩ }
      | _ => none
  | .removeSession conn found =>
      match server.connections[conn]? with
      | some ⟨address, .registered id⟩ =>
          if server.Finds address found then
            some {
              manager := erase server.manager found
              connections := server.connections.set conn ⟨address, .removed id⟩ }
          else none
      | _ => none
  | .destroy conn =>
      match server.connections[conn]? with
      | some ⟨address, .removed id⟩ =>
          some { server with
            connections := server.connections.set conn ⟨address, .destroyed id⟩ }
      | _ => none

def system : System TcpServerWrapper Action := ⟨initial, step⟩

/-- What a step does to its connection and to the sessions. -/
inductive Moved (server : TcpServerWrapper) : Action → TcpServerWrapper → Prop where
  | accept (address) (free : ∀ other ∈ server.connections, other.stage.isAlive →
        other.address ≠ address) :
      Moved server (.accept address)
        { server with connections := server.connections ++ [⟨address, .accepted⟩] }
  | fetchId (conn address) (found : server.connections[conn]? = some ⟨address, .accepted⟩) :
      Moved server (.fetchId conn) {
        manager := { server.manager with nextId := server.manager.nextId + 1 }
        connections := server.connections.set conn ⟨address, .numbered server.manager.nextId⟩ }
  | addSession (conn address id)
      (found : server.connections[conn]? = some ⟨address, .numbered id⟩) :
      Moved server (.addSession conn) {
        manager := { server.manager with
          sessions := server.manager.sessions.upsert id ⟨id, conn⟩ fun _ => ⟨id, conn⟩ }
        connections := server.connections.set conn ⟨address, .registered id⟩ }
  | removeSession (conn address id chosen)
      (found : server.connections[conn]? = some ⟨address, .registered id⟩)
      (finds : server.Finds address chosen) :
      Moved server (.removeSession conn chosen) {
        manager := erase server.manager chosen
        connections := server.connections.set conn ⟨address, .removed id⟩ }
  | destroy (conn address id)
      (found : server.connections[conn]? = some ⟨address, .removed id⟩) :
      Moved server (.destroy conn) { server with
        connections := server.connections.set conn ⟨address, .destroyed id⟩ }

theorem moved_of_step {server after : TcpServerWrapper} {action : Action}
    (stepped : server.step action = some after) : Moved server action after := by
  cases action with
  | accept address =>
      simp only [step, Option.ite_none_right_eq_some, Option.some.injEq] at stepped
      obtain ⟨free, rfl⟩ := stepped
      exact .accept address free
  | fetchId conn =>
      simp only [step] at stepped
      split at stepped
      next address found =>
        cases stepped
        exact .fetchId conn address found
      · cases stepped
  | addSession conn =>
      simp only [step] at stepped
      split at stepped
      next address id found =>
        cases stepped
        exact .addSession conn address id found
      · cases stepped
  | removeSession conn chosen =>
      simp only [step] at stepped
      split at stepped
      next address id found =>
        simp only [Option.ite_none_right_eq_some, Option.some.injEq] at stepped
        obtain ⟨finds, rfl⟩ := stepped
        exact .removeSession conn address id chosen found finds
      · cases stepped
  | destroy conn =>
      simp only [step] at stepped
      split at stepped
      next address id found =>
        cases stepped
        exact .destroy conn address id found
      · cases stepped

section Views

variable (server : TcpServerWrapper)

def ids : List (Option UInt64) := server.connections.map fun conn => conn.stage.id?

def locations : List (Option Nat) := server.connections.map TcpConnection.location?

def registered : List (Option UInt64) := server.connections.map fun conn => conn.stage.session?

def drawn : Nat := server.ids.countP Option.isSome

def put (manager : TcpConnectionManager) (conn : Nat) (connection : TcpConnection) :
    TcpServerWrapper := ⟨manager, server.connections.set conn connection⟩

def add (connection : TcpConnection) : TcpServerWrapper :=
  { server with connections := server.connections ++ [connection] }

section Puts

variable (manager : TcpConnectionManager) (conn : Nat) (connection : TcpConnection)

theorem ids_put :
    (server.put manager conn connection).ids = server.ids.set conn connection.stage.id? :=
  List.map_set ..

theorem locations_put : (server.put manager conn connection).locations =
    server.locations.set conn connection.location? :=
  List.map_set ..

theorem registered_put : (server.put manager conn connection).registered =
    server.registered.set conn connection.stage.session? :=
  List.map_set ..

theorem ids_add : (server.add connection).ids = server.ids ++ [connection.stage.id?] :=
  List.map_append ..

theorem locations_add :
    (server.add connection).locations = server.locations ++ [connection.location?] :=
  List.map_append ..

theorem registered_add :
    (server.add connection).registered = server.registered ++ [connection.stage.session?] :=
  List.map_append ..

end Puts

end Views

/-- The sessions are those of the registered connections. -/
structure Sound (server : TcpServerWrapper) : Prop where
  next : server.manager.nextId.toNat = server.drawn + 1
  below : ∀ (place : Nat) id, server.ids[place]? = some (some id) → id.toNat ≤ server.drawn
  distinct : Unrepeated server.ids
  apart : Unrepeated server.locations
  held : ∀ (place : Nat) id, server.registered[place]? = some (some id) →
    server.manager.sessions.get? id = some ⟨id, place⟩
  listed : ∀ id session, server.manager.sessions.get? id = some session → session.id = id ∧
    server.registered[session.conn]? = some (some id)
  counted : server.connectionCount = server.registered.countP Option.isSome

theorem sound_initial : Sound initial where
  next := rfl
  below _ _ held := by simp [ids, initial] at held
  distinct := fun _ _ _ held => by simp [ids, initial] at held
  apart := fun _ _ _ held => by simp [locations, initial] at held
  held _ _ held := by simp [registered, initial] at held
  listed _ _ held := by simp [initial] at held
  counted := rfl

section Steps

variable {server after : TcpServerWrapper} {manager : TcpConnectionManager} {conn address : Nat}
  {id : UInt64} {old new : Stage}

theorem drawn_le (server : TcpServerWrapper) : server.drawn ≤ server.connections.length := by
  simpa [drawn, ids] using List.countP_le_length (p := Option.isSome) (l := server.ids)

theorem getConnection_eq_some {session : Session} :
    server.getConnection session = some address ↔
      server.locations[session.conn]? = some (some address) := by
  simp [getConnection, locations, Option.bind_eq_some_iff]

/-- A stage that keeps the id and does not come back to life. -/
theorem Sound.advance (sound : Sound server)
    (found : server.connections[conn]? = some ⟨address, old⟩) (same : new.id? = old.id?)
    (alive : new.isAlive = true → old.isAlive = true) (nextId : manager.nextId = server.manager.nextId)
    (held : ∀ (place : Nat) id, (server.registered.set conn new.session?)[place]? = some (some id) →
      manager.sessions.get? id = some ⟨id, place⟩)
    (listed : ∀ id session, manager.sessions.get? id = some session → session.id = id ∧
      (server.registered.set conn new.session?)[session.conn]? = some (some id))
    (counted : manager.sessions.rows.length =
      (server.registered.set conn new.session?).countP Option.isSome) :
    Sound (server.put manager conn ⟨address, new⟩) := by
  have ids : (server.put manager conn ⟨address, new⟩).ids = server.ids := map_set_same found same
  have drawn : (server.put manager conn ⟨address, new⟩).drawn = server.drawn :=
    congrArg (List.countP Option.isSome) ids
  refine ⟨?_, ?_, ?_, ?_, ?_, ?_, ?_⟩
  · rw [drawn, ← sound.next, ← nextId]
    rfl
  · rw [ids, drawn]
    exact sound.below
  · rw [ids]
    exact sound.distinct
  · by_cases there : new.isAlive = true
    · have locations : (server.put manager conn ⟨address, new⟩).locations = server.locations :=
        map_set_same found (by simp [TcpConnection.location?, there, alive there])
      rw [locations]
      exact sound.apart
    · rw [locations_put]
      exact sound.apart.set conn fun _ here => absurd (by simp [TcpConnection.location?, there]) here
  · rw [registered_put]
    exact held
  · rw [registered_put]
    exact listed
  · rw [registered_put]
    exact counted

theorem Sound.unlisted (sound : Sound server)
    (found : server.connections[conn]? = some ⟨address, .numbered id⟩) :
    server.manager.sessions.get? id = none := by
  cases stored : server.manager.sessions.get? id with
  | none => rfl
  | some session =>
      obtain ⟨_, there⟩ := sound.listed id session stored
      simp only [registered, List.getElem?_map, Option.map_eq_some_iff] at there
      obtain ⟨other, placed, here⟩ := there
      have numbered : other.stage.id? = some id := by
        revert here
        cases other.stage <;> simp [Stage.session?, Stage.id?]
      have same := sound.distinct session.conn conn id (by simp [ids, placed, numbered])
        (by simp [ids, found, Stage.id?])
      rw [same, found] at placed
      cases placed
      simp [Stage.session?] at here

theorem Sound.finds (sound : Sound server) {chosen : Option UInt64}
    (found : server.connections[conn]? = some ⟨address, .registered id⟩) :
    server.Finds address chosen ↔ chosen = some id := by
  have own := sound.held conn id (by simp [registered, found, Stage.session?])
  have here : server.locations[conn]? = some (some address) := by
    simp [locations, found, TcpConnection.location?, Stage.isAlive]
  constructor
  · intro finds
    cases chosen with
    | none =>
        have missed := finds (id, ⟨id, conn⟩) (server.manager.sessions.mem_rows_iff.mpr own)
        exact absurd (getConnection_eq_some.mpr here) missed
    | some other =>
        obtain ⟨session, stored, located⟩ := finds
        have same := sound.apart session.conn conn address (getConnection_eq_some.mp located) here
        obtain ⟨_, there⟩ := sound.listed other session stored
        rw [same] at there
        simpa [registered, found, Stage.session?, eq_comm] using there
  · rintro rfl
    exact ⟨⟨id, conn⟩, own, getConnection_eq_some.mpr here⟩

theorem Sound.accept (sound : Sound server)
    (free : ∀ other ∈ server.connections, other.stage.isAlive → other.address ≠ address) :
    Sound (server.add ⟨address, .accepted⟩) := by
  have drawn : (server.add ⟨address, .accepted⟩).drawn = server.drawn := by
    rw [TcpServerWrapper.drawn, ids_add, List.countP_append]
    rfl
  refine ⟨?_, ?_, ?_, ?_, ?_, ?_, ?_⟩
  · rw [drawn]
    exact sound.next
  · intro place id held
    rw [ids_add] at held
    exact drawn ▸ sound.below place id (getElem?_append_none.mp held)
  · rw [ids_add]
    exact sound.distinct.append (by simp [Stage.id?])
  · rw [locations_add]
    refine sound.apart.append fun place _ taken => ?_
    simp only [locations, List.getElem?_map, Option.map_eq_some_iff] at taken
    obtain ⟨other, placed, located⟩ := taken
    rw [show (⟨address, .accepted⟩ : TcpConnection).location? = some address from rfl] at located
    simp only [TcpConnection.location?, Option.ite_none_right_eq_some, Option.some.injEq] at located
    exact free other (List.mem_of_getElem? placed) located.1 located.2
  · intro place id held
    rw [registered_add] at held
    exact sound.held place id (getElem?_append_none.mp held)
  · intro id session stored
    obtain ⟨same, there⟩ := sound.listed id session stored
    rw [registered_add]
    exact ⟨same, getElem?_append_none.mpr there⟩
  · rw [registered_add, List.countP_append]
    exact sound.counted

theorem Sound.fetchId (sound : Sound server)
    (found : server.connections[conn]? = some ⟨address, .accepted⟩)
    (few : server.connections.length + 1 < 2 ^ 64) :
    Sound (server.put { server.manager with nextId := server.manager.nextId + 1 } conn
      ⟨address, .numbered server.manager.nextId⟩) := by
  let after := server.put { server.manager with nextId := server.manager.nextId + 1 } conn
    ⟨address, .numbered server.manager.nextId⟩
  have ids : after.ids = server.ids.set conn (some server.manager.nextId) := ids_put ..
  have unnumbered : server.ids[conn]? = some none := by
    simp [TcpServerWrapper.ids, found, Stage.id?]
  have drawn : after.drawn = server.drawn + 1 := by
    rw [TcpServerWrapper.drawn, ids]
    simpa [TcpServerWrapper.drawn] using countP_isSome_set unnumbered (some server.manager.nextId)
  have registered : after.registered = server.registered := map_set_same found rfl
  have locations : after.locations = server.locations := map_set_same found rfl
  have bound : server.drawn + 1 ≤ server.connections.length := by
    have counted := drawn_le after
    rwa [drawn, show after.connections.length = server.connections.length from
      List.length_set] at counted
  have next := sound.next
  refine ⟨?_, ?_, ?_, ?_, ?_, ?_, ?_⟩
  · show (server.manager.nextId + 1).toNat = after.drawn + 1
    rw [drawn, UInt64.toNat_add, next]
    exact Nat.mod_eq_of_lt (by simp; omega)
  · show ∀ (place : Nat) id, after.ids[place]? = some (some id) → id.toNat ≤ after.drawn
    intro place id held
    rw [ids, List.getElem?_set] at held
    rw [drawn]
    split at held
    · split at held
      · cases held
        exact next.le
      · cases held
    · exact (sound.below place id held).trans (Nat.le_succ _)
  · show Unrepeated after.ids
    rw [ids]
    refine sound.distinct.set conn fun place _ taken => ?_
    have := sound.below place _ taken
    omega
  · exact locations.symm ▸ sound.apart
  · exact registered.symm ▸ sound.held
  · exact registered.symm ▸ sound.listed
  · exact sound.counted.trans (congrArg _ registered.symm)

theorem Sound.addSession (sound : Sound server)
    (found : server.connections[conn]? = some ⟨address, .numbered id⟩) :
    Sound (server.put { server.manager with
      sessions := server.manager.sessions.upsert id ⟨id, conn⟩ fun _ => ⟨id, conn⟩ } conn
      ⟨address, .registered id⟩) := by
  have absent := sound.unlisted found
  have unregistered : server.registered[conn]? = some none := by
    simp [registered, found, Stage.session?]
  have inside := (List.getElem?_eq_some_iff.mp unregistered).1
  refine sound.advance found rfl (fun _ => rfl) rfl ?_ ?_ ?_
  · intro place other held
    rw [List.getElem?_set] at held
    rw [Table.get?_upsert]
    split at held
    · next here =>
        subst here
        obtain rfl : id = other := by simpa [inside, Stage.session?] using held
        simp [absent]
    · have stored := sound.held place other held
      rw [if_neg (by rintro rfl; simp [absent] at stored)]
      exact stored
  · intro other session stored
    rw [Table.get?_upsert] at stored
    split at stored
    · next same =>
        subst same
        simp only [absent, Option.elim_none, Option.some.injEq] at stored
        subst stored
        exact ⟨rfl, List.getElem?_set_self inside⟩
    · obtain ⟨same, there⟩ := sound.listed other session stored
      refine ⟨same, ?_⟩
      rw [List.getElem?_set_ne (by rintro rfl; simp [unregistered] at there)]
      exact there
  · have length : (server.manager.sessions.upsert id ⟨id, conn⟩ fun _ => ⟨id, conn⟩).rows.length =
        server.connectionCount + 1 := by
      simp [Table.upsert, absent, Table.insertNew, connectionCount]
    have counted := countP_isSome_set unregistered (some id)
    simp only [Option.isSome_none, Option.isSome_some, Bool.false_eq_true, if_false, if_true] at counted
    rw [length, sound.counted]
    exact counted.symm

theorem Sound.removeSession (sound : Sound server)
    (found : server.connections[conn]? = some ⟨address, .registered id⟩) :
    Sound (server.put (erase server.manager (some id)) conn ⟨address, .removed id⟩) := by
  have own : server.registered[conn]? = some (some id) := by
    simp [registered, found, Stage.session?]
  have stored := sound.held conn id own
  refine sound.advance found rfl (fun _ => rfl) rfl ?_ ?_ ?_
  · intro place other held
    rw [List.getElem?_set] at held
    split at held
    · split at held <;> cases held
    · next elsewhere =>
        have there := sound.held place other held
        refine (Table.get?_erase ..).trans ?_
        rw [if_neg, there]
        rintro rfl
        rw [stored] at there
        cases there
        exact elsewhere rfl
  · intro other session there
    have kept := (Table.get?_erase ..).symm.trans there
    split at kept
    · cases kept
    · next different =>
        obtain ⟨same, placed⟩ := sound.listed other session kept
        refine ⟨same, ?_⟩
        rw [List.getElem?_set_ne]
        · exact placed
        · rintro rfl
          rw [own] at placed
          cases placed
          exact different rfl
  · have length := server.manager.sessions.sum_erase id fun _ _ => 1
    simp only [Table.sum, List.map_const', List.sum_replicate, Nat.nsmul_eq_mul, mul_one, stored,
      Option.elim_some] at length
    have counted := countP_isSome_set own none
    have before := sound.counted
    simp only [connectionCount] at before
    simp only [Option.isSome_none, Option.isSome_some, Bool.false_eq_true, if_false, if_true] at counted
    show (server.manager.sessions.erase id).rows.length = (server.registered.set conn none).countP _
    omega

theorem Sound.step {action : Action} (sound : Sound server)
    (stepped : server.step action = some after) (few : after.connections.length + 1 < 2 ^ 64) :
    Sound after := by
  cases moved_of_step stepped with
  | accept address free => exact sound.accept free
  | fetchId conn address found =>
      rw [List.length_set] at few
      exact sound.fetchId found few
  | addSession conn address id found => exact sound.addSession found
  | removeSession conn address id chosen found finds =>
      obtain rfl := (sound.finds found).mp finds
      exact sound.removeSession found
  | destroy conn address id found =>
      have same : server.registered.set conn (Stage.destroyed id).session? = server.registered :=
        (List.map_set ..).symm.trans (map_set_same found rfl)
      refine sound.advance found rfl (fun _ => rfl) rfl ?_ ?_ ?_
      · rw [same]
        exact sound.held
      · rw [same]
        exact sound.listed
      · rw [same]
        exact sound.counted

end Steps

end TcpServerWrapper

open TcpServerWrapper

section Runs

variable {history : List (Event TcpServerWrapper Action)} {state : TcpServerWrapper}

theorem length_of_step {before after : TcpServerWrapper} {action : Action}
    (stepped : before.step action = some after) :
    before.connections.length ≤ after.connections.length := by
  cases moved_of_step stepped <;> simp

theorem sound_of_run (run : Run system history state)
    (few : state.connections.length + 1 < 2 ^ 64) : Sound state :=
  run.invariant (fun state => state.connections.length + 1 < 2 ^ 64 → Sound state)
    (fun _ => sound_initial) (fun _ _ _ sound stepped few =>
      (sound (Nat.lt_of_le_of_lt (Nat.succ_le_succ (length_of_step stepped)) few)).step stepped few) few

/-- Whatever the threads of the connections do when, the sessions are those of the
connections that have been added and not yet removed; no two connections draw one
id, and a connection removes its own session. -/
theorem sessions_follow_connections (run : Run system history state)
    (few : state.connections.length + 1 < 2 ^ 64) :
    (∀ id session, state.manager.sessions.get? id = some session ↔ session.id = id ∧
      ∃ address, state.connections[session.conn]? = some ⟨address, .registered id⟩) ∧
    state.connectionCount = state.connections.countP (fun conn => conn.stage.session?.isSome) ∧
    (∀ (place other : Nat) conn conn' id, state.connections[place]? = some conn →
      state.connections[other]? = some conn' → conn.stage.id? = some id →
      conn'.stage.id? = some id → place = other) ∧
    ∀ conn address id chosen, state.connections[conn]? = some ⟨address, .registered id⟩ →
      ((state.step (.removeSession conn chosen)).isSome ↔ chosen = some id) := by
  have sound := sound_of_run run few
  refine ⟨fun id session => ⟨fun stored => ?_, ?_⟩, ?_, ?_, ?_⟩
  · obtain ⟨same, there⟩ := sound.listed id session stored
    simp only [registered, List.getElem?_map, Option.map_eq_some_iff] at there
    obtain ⟨⟨address, stage⟩, placed, here⟩ := there
    refine ⟨same, address, placed.trans ?_⟩
    cases stage with
    | registered other =>
        cases here
        rfl
    | accepted | numbered | removed | destroyed => cases here
  · rintro ⟨rfl, address, placed⟩
    exact sound.held session.conn session.id (by simp [registered, placed, Stage.session?])
  · rw [sound.counted, registered, List.countP_map]
    rfl
  · intro place other conn conn' id first second drew drew'
    exact sound.distinct place other id (by simp [ids, first, drew]) (by simp [ids, second, drew'])
  · intro conn address id chosen found
    rw [← sound.finds found]
    simp only [TcpServerWrapper.step, found]
    split
    · next finds => simp [finds]
    · next missed => simp [missed]

end Runs

section Sample

/-- The third connection is made at the address of the first one. -/
def reusedActions : List Action :=
  [.accept 1, .accept 2, .fetchId 0, .fetchId 1, .addSession 1, .addSession 0,
    .removeSession 0 (some 1), .destroy 0, .accept 1, .fetchId 2, .addSession 2]

theorem reused_enabled : (system.execute system.initial reusedActions).isSome := by
  decide +kernel

def reused : TcpServerWrapper := (system.execute system.initial reusedActions).get reused_enabled

theorem sessions_follow_connections_reused :
    reused.manager.sessions.get? 3 = some ⟨3, 2⟩ ∧ reused.manager.sessions.get? 1 = none ∧
      (reused.step (.removeSession 2 (some 3))).isSome := by
  have run := system.run reusedActions reused_enabled
  have few : reused.connections.length + 1 < 2 ^ 64 := by decide +kernel
  have placed : reused.connections[2]? = some ⟨1, .registered 3⟩ := by decide +kernel
  have follow := sessions_follow_connections run few
  exact ⟨(follow.1 3 ⟨3, 2⟩).mpr ⟨rfl, 1, placed⟩, by decide +kernel,
    (follow.2.2.2 2 1 3 (some 3) placed).mpr rfl⟩

end Sample

end FileServer.Network

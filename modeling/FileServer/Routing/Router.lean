import FileServer.Protocol.Responses
import FileServer.Transition.Program

/-!
# The router

`MakeResponse`, which both servers share, and `RequestRouter`.
-/

namespace FileServer.Routing

open FileServer.Json FileServer.Protocol FileServer.Transition

/-- The methods of `UserService`. -/
structure Accounts where
  register : Bytes → Bytes → Bytes
  login : Bytes → Bytes → Bytes
  verifyToken : Bytes → Int

variable (library : Library)

def responseJson (code : Int) (msg : Bytes) (data : Value) : Value :=
  .object (("code", .number code) :: (if data.isEmpty then [] else [("data", data)]) ++
    [("msg", .string msg)])

def makeResponse (request : Message) (code : Int) (msg : Bytes) (data : Value := .null)
    (binary : Bytes := []) : Reads (Response library) :=
  setJson library request (responseJson code msg data) binary

section Router

variable {Call : Type} {Answer : Call → Type}

abbrev Handler (Call : Type) (Answer : Call → Type) (library : Library) :=
  Message → Program Call Answer Exception (Response library)

def find (handlers : List (String × Handler Call Answer library)) (cmd : Bytes) :
    Option (Handler Call Answer library) :=
  (handlers.find? fun handler => text handler.1 = cmd).map (·.2)

def route (handlers : List (String × Handler Call Answer library)) :
    Handler Call Answer library := fun request =>
  let cmd := request.getCmd library
  match find library handlers cmd with
  | none => setJson library request
      (.object [("code", .number (-3)), ("msg", .string (text "未知命令: " ++ cmd))]) []
  | some handler => handler request

theorem route_induction {library : Library}
    {handlers : List (String × Handler Call Answer library)} {request : Message}
    {motive : Program Call Answer Exception (Response library) → Prop}
    (unknown : motive (setJson library request (.object [("code", .number (-3)),
      ("msg", .string (text "未知命令: " ++ request.getCmd library))]) []))
    (known : ∀ handler ∈ handlers, request.getCmd library = text handler.1 →
      motive (handler.2 request)) :
    motive (route library handlers request) := by
  simp only [route]
  cases found : find library handlers (request.getCmd library) with
  | none => exact unknown
  | some handler =>
      obtain ⟨named, listed, rfl⟩ := Option.map_eq_some_iff.mp found
      have same : text named.1 = request.getCmd library := by simpa using List.find?_some listed
      exact known named (List.mem_of_find?_eq_some listed) same.symm

end Router

end FileServer.Routing

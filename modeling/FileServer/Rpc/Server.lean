import FileServer.Protocol.Fields
import FileServer.Rpc.Replies

/-!
# The RPC server

`RpcServer`: the callback that reads the method of a frame, and the task that
makes a response of what the method returns or throws.
-/

namespace FileServer.Rpc

open FileServer.Json FileServer.Protocol FileServer.Transition

variable (library : Library)

/-- A `std::exception` of a method becomes a result. -/
def caught (binary : Bool) : Reads Value → Reads Value
  | .ok result => .ok result
  | .error .other => .error .other
  | .error exception => .ok (.object [("code", .number (-1)),
      ("msg", .string ((if binary then [] else text "RPC异常: ") ++ library.what exception))])

def unknownMethod (method : Bytes) : Value :=
  .object [("code", .number (-2)), ("msg", .string (text "未知方法: " ++ method))]

/-- `OnMessage` reads the method of a frame before it submits the task. -/
def getMethod (msg : Message) : Reads Bytes :=
  (msg.getJson library).value "method" [] Value.getString

def execute (registered : Bytes → Option Bool) (method : Bytes) (does : Reads Value) :
    Reads Value :=
  match registered method with
  | some binary => caught library binary does
  | none => .ok (unknownMethod method)

def processTask (registered : Bytes → Option Bool) (msg : Message) (does : Reads Value) :
    Reads (Response library) := do
  let method ← getMethod library msg
  let result ← execute library registered method does
  setJson library msg result []

def rpcServer (registered : Bytes → Option Bool) : Processor library where
  Work := Reads Value
  accept msg := (getMethod library msg).map fun _ => ()
  process := processTask library registered
  replies msg work response processed := by
    simp only [processTask, bind_eq_ok] at processed
    obtain ⟨_, _, result, _, made⟩ := processed
    exact (setJson_ok made).1

/-- The body of a frame is empty or an object, whose method is a string or missing. -/
def Named (msg : Message) : Prop := (msg.getJson library).Optional "method" .text

/-- The result of a method can be serialised, or it throws a `std::exception` whose
text can. -/
def Sendable : Reads Value → Prop
  | .ok result => result.isText = true
  | .error .other => False
  | .error exception => isUtf8 (library.what exception) = true

def Completes (registered : Bytes → Option Bool) (msg : Message) (does : Reads Value) : Prop :=
  Named library msg ∧
    ((registered ((msg.getJson library).textAt "method")).isSome = true → Sendable library does)

variable {library} {registered : Bytes → Option Bool} {msg : Message} {does : Reads Value}

theorem accept_iff : (rpcServer library registered).accept msg = .ok () ↔ Named library msg := by
  have named : Returns (getMethod library msg) (fun _ => True) ↔ Named library msg := by
    rw [getMethod, returns_value readsKind_getString, and_true, Named]
  rw [← named, rpcServer]
  constructor
  · intro accepted
    obtain ⟨method, read, _⟩ := map_eq_ok.mp accepted
    exact ⟨method, read, trivial⟩
  · rintro ⟨method, read, _⟩
    exact map_eq_ok.mpr ⟨method, read, rfl⟩

theorem isUtf8_unknown {method : Bytes} :
    (unknownMethod method).isText = isUtf8 method := by
  rw [unknownMethod, ← isUtf8_append method (isUtf8_text "未知方法: ")]
  simp [Value.isText, fieldsText]

theorem caught_iff {binary : Bool} :
    Returns (caught library binary does) (fun result => result.isText = true) ↔
      Sendable library does := by
  have prefixed : ∀ what, isUtf8 ((if binary then [] else text "RPC异常: ") ++ what) = isUtf8 what := by
    intro what
    cases binary with
    | true => rfl
    | false => exact isUtf8_append what (isUtf8_text _)
  cases does with
  | ok result => simp [caught, Sendable]
  | error exception =>
      cases exception with
      | other => simp [caught, Sendable]
      | std | json =>
          rw [caught, returns_ok, Sendable, ← prefixed]
          · simp [Value.isText, fieldsText]
          · intro other
            cases other
          · intro other
            cases other

theorem process_iff (documented : library.Documented) :
    (∃ response, (rpcServer library registered).process msg does = .ok response) ↔
      Completes library registered msg does := by
  have ended : ∀ method, isUtf8 method = true →
      (Returns (execute library registered method does) (fun result => result.isText = true) ↔
        ((registered method).isSome = true → Sendable library does)) := by
    intro method valid
    unfold execute
    cases registered method with
    | none => simp [isUtf8_unknown, valid]
    | some binary => simp [caught_iff]
  have sent : (∃ response, (rpcServer library registered).process msg does = .ok response) ↔
      Returns (processTask library registered msg does) fun _ => True := by
    simp [Returns, rpcServer]
  rw [sent, processTask, returns_bind, getMethod, returns_value readsKind_getString, Completes, Named]
  refine and_congr_right fun _ => ?_
  rw [returns_bind, ← ended _ (textAt_isUtf8 (getJson_isText documented msg))]
  exact Returns.congr fun result _ => returns_setJson documented

end FileServer.Rpc

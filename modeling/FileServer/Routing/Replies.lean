import FileServer.Routing.Answers
import FileServer.Routing.Chunks
import FileServer.Rpc.Server

/-!
# Replies of the servers

Which frames `RpcServer`, and `BusinessProcessor` with the handlers of either
server, answer exactly once.
-/

namespace FileServer.Routing

open FileServer.Json FileServer.Protocol FileServer.Rpc FileServer.Transition

section Replying

variable {library : Library} {request : Message}

theorem replying_ite {Call : Type} {Answer : Call → Type} {condition : Prop} [Decidable condition]
    {program other : Program Call Answer Exception (Response library)}
    (first : Replying request program) (second : Replying request other) :
    Replying request (if condition then program else other) := by
  split
  · exact first
  · exact second

namespace Server

theorem replying_authenticated
    {next : Int → Program ServiceCall ServiceCall.Answer Exception (Response library)}
    (replying : ∀ userId, Replying request (next userId)) :
    Replying request (authenticated library request next) :=
  .bind fun _ => .bind fun userId => replying_ite replying_makeResponse (replying userId)

theorem replying_entrance {refusal : String}
    {method : Bytes → Bytes → Program ServiceCall ServiceCall.Answer Exception Bytes} :
    Replying request (entrance library method refusal request) :=
  .bind fun _ => .bind fun _ => .bind fun _ =>
    replying_ite replying_makeResponse replying_makeResponse

theorem handlers_replying :
    ∀ handler ∈ handlers library, Replying request (handler.2 request) := by
  simp only [handlers, List.forall_mem_cons]
  refine ⟨replying_entrance, replying_entrance, ?_, ?_, ?_, ?_, ?_, ?_, ?_, by simp⟩
  · exact replying_authenticated fun _ => .bind fun _ => .bind fun _ => .bind fun _ => .bind fun _ =>
      replying_ite replying_makeResponse replying_makeResponse
  · exact replying_authenticated fun _ => .bind fun _ => .bind fun _ => .bind fun _ =>
      replying_ite replying_makeResponse replying_makeResponse
  · exact replying_authenticated fun _ => .bind fun _ => .bind fun _ =>
      replying_ite replying_makeResponse replying_makeResponse
  · refine replying_authenticated fun _ => .bind fun _ => .bind fun found => ?_
    cases found with
    | none => exact replying_makeResponse
    | some info => exact replying_ite replying_makeResponse replying_makeResponse
  · exact replying_authenticated fun _ => .bind fun _ => .bind fun _ => .bind fun _ => .bind fun _ =>
      replying_ite replying_makeResponse replying_makeResponse
  · exact replying_authenticated fun _ => .bind fun _ => replying_makeResponse
  · exact replying_authenticated fun _ => .bind fun _ => .bind fun _ =>
      replying_ite replying_makeResponse replying_makeResponse

end Server

namespace Gateway

theorem replying_authenticated {next : Value → Int → GatewayProgram (Response library)}
    (replying : ∀ j uid, Replying request (next j uid)) :
    Replying request (authenticated library request next) :=
  .bind fun _ => .bind fun uid => replying_ite replying_makeResponse (replying _ uid)

theorem replying_forward {r : Value} :
    Replying request (liftM (forward library request r) : GatewayProgram (Response library)) := by
  intro answers response made
  change forward library request r = .ok response at made
  simp only [forward, bind_eq_ok] at made
  obtain ⟨_, _, _, _, made⟩ := made
  exact (setJson_ok made).1

theorem replying_entrance {method : String} :
    Replying request (entrance library method request) :=
  .bind fun _ => replying_forward

theorem replying_withFile {method : String} {owner : Bool} :
    Replying request (withFile library method owner request) :=
  replying_authenticated fun _ _ => .bind fun _ => .bind fun _ => replying_forward

theorem replying_uploadData : Replying request (uploadData library request) := by
  have confirming : ∀ args size, Replying request (do
      let confirmed ← callRpc .fileService "ConfirmUploadChunk" args
      let code ← liftM (confirmed.value "code" (-1) Value.getInt)
      if code ≠ 0 then
        let msg ← liftM (confirmed.value "msg" (text "进度确认失败") Value.getString)
        liftM (makeResponse library request code msg)
      else
        let uploadSize ← liftM (confirmed.atKey "upload_size")
        liftM (makeResponse library request 0 (text "ok")
          (.object [("upload_size", uploadSize), ("written", .number size)])) :
      GatewayProgram (Response library)) :=
    fun _ _ => .bind fun _ => .bind fun _ => replying_ite (.bind fun _ => replying_makeResponse)
      (.bind fun _ => replying_makeResponse)
  refine replying_authenticated fun _ _ => .bind fun _ => .bind fun _ => .bind fun _ => .bind fun _ => ?_
  refine replying_ite (.bind fun _ => replying_makeResponse) (.bind fun _ => ?_)
  refine replying_ite (.bind fun _ => replying_makeResponse) (.bind fun _ => .bind fun _ => .bind fun _ => ?_)
  refine replying_ite (.bind fun _ => ?_) (.bind fun _ => ?_)
  · exact replying_ite (.bind fun _ => replying_makeResponse) (confirming _ _)
  · exact replying_ite (.bind fun _ => replying_makeResponse) (confirming _ _)

theorem handlers_replying :
    ∀ handler ∈ handlers library, Replying request (handler.2 request) := by
  simp only [handlers, List.forall_mem_cons]
  refine ⟨replying_entrance, replying_entrance, ?_, replying_uploadData, replying_withFile,
    replying_withFile, ?_, ?_, replying_withFile, by simp⟩
  · exact replying_authenticated fun _ _ => .bind fun _ => .bind fun _ => .bind fun _ =>
      .bind fun _ => replying_forward
  · exact replying_authenticated fun _ _ => .bind fun _ => .bind fun _ => .bind fun _ =>
      .bind fun _ => .bind fun _ => replying_makeResponse
  · exact replying_authenticated fun _ _ => .bind fun _ => replying_makeResponse

end Gateway

end Replying

section Processors

variable (library : Library) {Call : Type} {Answer : Call → Type}

/-- `BusinessProcessor` with the task handler of both servers, which routes the
request and sends the response. -/
def businessProcessor (handlers : List (String × Handler Call Answer library))
    (replying : ∀ request, ∀ handler ∈ handlers, Replying request (handler.2 request)) :
    Processor library where
  Work := (call : Call) → Answer call
  accept _ := .ok ()
  process msg answers := (route library handlers msg).result answers
  replies msg answers response processed := by
    have routed : Replying msg (route library handlers msg) :=
      route_induction replying_setJson fun handler listed _ => replying msg handler listed
    exact routed answers response processed

def Accepts (conditions : List (String × Prop)) (cmd : Bytes) : Prop :=
  ∀ condition, conditions.find? (fun condition => text condition.1 = cmd) = some condition →
    condition.2

/-- What takes requests from a connection. -/
inductive Front where
  | rpcServer (registered : Bytes → Option Bool)
  | serverMain
  | gatewayMain

namespace Front

def processor : Front → Processor library
  | .rpcServer registered => Rpc.rpcServer library registered
  | .serverMain => businessProcessor library (Server.handlers library) fun _ =>
      Server.handlers_replying
  | .gatewayMain => businessProcessor library (Gateway.handlers library) fun _ =>
      Gateway.handlers_replying

def Ready : Front → Message → Prop
  | .rpcServer _ => Named library
  | .serverMain | .gatewayMain => fun _ => True

/-- The task of the frame ends with a response. -/
def Good : (front : Front) → Message → (front.processor library).Work → Prop
  | .rpcServer registered => Completes library registered
  | .serverMain => fun msg answers =>
      Accepts (Server.conditions answers (msg.getJson library) msg.binaryData) (msg.getCmd library)
  | .gatewayMain => fun msg answers =>
      Accepts (Gateway.conditions answers (msg.getJson library) msg.binaryData) (msg.getCmd library)

end Front

end Processors

section Routes

variable {library : Library} {Call : Type} {Answer : Call → Type}
  {handlers : List (String × Handler Call Answer library)} {conditions : List (String × Prop)}
  {answers : (call : Call) → Answer call} {request : Message}

theorem route_responds (documented : library.Documented)
    (respond : List.Forall₂ (fun handler condition => handler.1 = condition.1 ∧
      (Responds ((handler.2 request).result answers) ↔ condition.2)) handlers conditions) :
    Responds ((route library handlers request).result answers) ↔
      Accepts conditions (request.getCmd library) := by
  have unknown : Responds (setJson library request (.object [("code", .number (-3)),
      ("msg", .string (text "未知命令: " ++ request.getCmd library))]) []) := by
    refine (returns_setJson documented).mpr ?_
    have valid := isUtf8_append (request.getCmd library) (isUtf8_text "未知命令: ")
    simp [Value.isText, fieldsText, valid, getCmd_isUtf8 documented]
  simp only [route, find, Accepts]
  induction respond with
  | nil => exact iff_of_true unknown (fun condition found => absurd found (by simp))
  | @cons handler condition handlers conditions same _ inductionHypothesis =>
      simp only [List.find?_cons, ← same.1]
      by_cases named : text handler.1 = request.getCmd library
      · simp only [named, decide_true, Option.map_some, Option.some.injEq, forall_eq']
        exact same.2
      · simp only [named, decide_false]
        exact inductionHypothesis

theorem ready_iff (front : Front) {msg : Message} :
    (front.processor library).accept msg = .ok () ↔ front.Ready library msg := by
  cases front with
  | rpcServer registered => exact accept_iff
  | serverMain | gatewayMain => exact iff_of_true rfl trivial

theorem good_iff (documented : library.Documented) (front : Front) {msg : Message}
    {work : (front.processor library).Work} :
    (∃ response, (front.processor library).process msg work = .ok response) ↔
      front.Good library msg work := by
  have returned : (∃ response, (front.processor library).process msg work = .ok response) ↔
      Responds ((front.processor library).process msg work) := by
    simp [Responds, Returns]
  cases front with
  | rpcServer registered => exact process_iff documented
  | serverMain =>
      exact returned.trans (route_responds documented (Server.handlers_respond documented))
  | gatewayMain =>
      exact returned.trans (route_responds documented (Gateway.handlers_respond documented))

end Routes

/-- In a run every frame is answered once, and no exception leaves the callback,
exactly as long as the callback can read the frames and the tasks can make their
responses. -/
theorem answered_once_iff {library : Library} (documented : library.Documented) (front : Front)
    {history : List (Event (Pool library) (PoolStep (front.processor library).Work))}
    {pool : Pool library} (run : Run (front.processor library).system history pool) :
    (∀ earlier, Visited history pool earlier → Answered earlier) ↔
      ∀ event ∈ history, Meets (front.Ready library) (front.Good library) event := by
  rw [answered_iff run]
  refine forall_congr' fun event => forall_congr' fun _ => ?_
  unfold Meets
  cases event.action with
  | receive msgs => exact forall_congr' fun msg => forall_congr' fun _ => ready_iff front
  | finish index work =>
      exact forall_congr' fun msg => forall_congr' fun _ => good_iff documented front

section Malformed

theorem documented_sample {texts : List Value} (all : ∀ value ∈ texts, value.isText = true) :
    (sampleLibrary texts).Documented where
  parsed body := by
    show ((texts.find? _).getD .discarded).isText = true
    cases found : texts.find? fun value => value.print = body with
    | none => rfl
    | some value => exact all value (List.mem_of_find?_eq_some found)
  dumped j := by
    simp only [sampleLibrary]
    split <;> simp_all

/-- A frame whose body is not JSON. -/
def malformed : Message := ⟨{}, [0x78], []⟩

def loginRequest : Value :=
  .object [("cmd", .string (text "login")), ("password", .string [112]), ("username", .string [117])]

/-- The exception of the malformed frame leaves the callback. -/
theorem frames_unanswered : ¬∀ (library : Library) (front : Front)
    (history : List (Event (Pool library) (PoolStep (front.processor library).Work)))
    (pool : Pool library), library.Documented → Run (front.processor library).system history pool →
    ∀ earlier, Visited history pool earlier → Answered earlier := by
  intro answered
  have last := answered (sampleLibrary []) (.rpcServer fun _ => none) _ _
    (documented_sample (by simp))
    (((Front.rpcServer fun _ => none).processor (sampleLibrary [])).system.run
      [.receive [malformed]] rfl) _ (.last _ _)
  cases last.1

/-- A login is received and answered. -/
theorem answered_once_login : ∃ history pool,
    Run (Front.serverMain.processor (sampleLibrary [loginRequest])).system history pool ∧
      ((∀ earlier, Visited history pool earlier → Answered earlier) ↔
        ∀ event ∈ history, Meets (Front.serverMain.Ready (sampleLibrary [loginRequest]))
          (Front.serverMain.Good (sampleLibrary [loginRequest])) event) := by
  let answers (call : ServiceCall) : call.Answer :=
    (Server.serve sampleAccounts [] (Service.emptyWorld id) call).1
  have run := (Front.serverMain.processor (sampleLibrary [loginRequest])).system.run
    [.receive [⟨{}, loginRequest.print, []⟩], .finish 0 answers] rfl
  exact ⟨_, _, run, answered_once_iff (documented_sample (by simp [loginRequest, Value.isText,
    fieldsText, isUtf8])) .serverMain run⟩

end Malformed

end FileServer.Routing

import FileServer.Protocol.Json

/-!
# Responses

A response frame, with the JSON that its body was serialised from.
-/

namespace FileServer.Protocol

open FileServer.Json

def kResponse : UInt32 := 0x02

structure Response (library : Library) where
  requestId : UInt32
  json : Value
  body : Bytes
  binaryData : Bytes
  serialized : library.dump json = .ok body

namespace Response

variable {library : Library}

def message (response : Response library) : Message where
  header := {
    msgType := kResponse, bodyLength := .ofNat response.body.length
    dataLength := .ofNat response.binaryData.length, requestId := response.requestId }
  jsonBody := response.body
  binaryData := response.binaryData

def code (response : Response library) : Reads Int :=
  response.json.value "code" (-1) Value.getInt

end Response

def setJson (library : Library) (request : Message) (json : Value) (binary : Bytes) :
    Reads (Response library) :=
  match serialized : library.dump json with
  | .ok body => .ok ⟨request.header.requestId, json, body, binary, serialized⟩
  | .error exception => .error exception

theorem setJson_ok {library : Library} {request : Message} {json : Value} {binary : Bytes}
    {response : Response library} (made : setJson library request json binary = .ok response) :
    response.requestId = request.header.requestId ∧ response.json = json ∧
      response.binaryData = binary := by
  unfold setJson at made
  split at made
  · obtain rfl := Except.ok.inj made
    exact ⟨rfl, rfl, rfl⟩
  · cases made

end FileServer.Protocol

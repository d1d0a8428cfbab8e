import FileServer.Protocol.Json
import FileServer.Rpc.Pending

/-!
# The two clients

`FileClient` and `RpcClient` as synchronous clients.
-/

namespace FileServer.Rpc

open FileServer.Json FileServer.Protocol FileServer.Transition

structure ClientResponse where
  code : Int
  msg : Bytes
  data : Value
  binaryData : Bytes

/-- The reading of a response in `OnMessage` of `FileClient`. -/
def readResponse (library : Library) (msg : Message) : Reads ClientResponse := do
  let j := msg.getJson library
  let code ← j.value "code" (-1) Value.getInt
  let text ← j.value "msg" [] Value.getString
  let data ← j.value "data" (.object []) .ok
  return { code, msg := text, data, binaryData := msg.binaryData }

def fileClient (library : Library) : SyncClient ClientResponse where
  notConnected := ⟨-1, text "未连接", .null, []⟩
  timeout := ⟨-2, text "请求超时", .null, []⟩
  response msg := (readResponse library msg).toOption

def rpcClient (library : Library) : SyncClient Value where
  notConnected := .object [("code", .number (-1)), ("msg", .string (text "未连接"))]
  timeout := .object [("code", .number (-3)), ("msg", .string (text "RPC超时"))]
  response msg := some (msg.getJson library)

def emptyLibrary : Library where
  parse _ := .object []
  dump _ := .ok [0x7B, 0x7D]

def reply (requestId : UInt32) : Message := ⟨{ requestId }, [], []⟩

/-- Two calls; the second is answered first, the first times out, and its response
comes too late. -/
def crossing : List ClientAction :=
  [.call true, .call true, .fetchId 1, .fetchId 0, .setPending 0, .setPending 1,
    .resolvePending (reply 1), .timeout 0, .resolvePending (reply 9), .resolvePending (reply 2),
    .erase 0, .get 1, .resolvePending (reply 2)]

end FileServer.Rpc

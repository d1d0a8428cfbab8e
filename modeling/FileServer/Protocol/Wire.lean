import FileServer.Protocol.Streams
import FileServer.Transition.Guarded

/-!
# The other implementation

`wire.py` reads and writes the same frames with `struct`, `json` and `zlib`.
What `json` does with a text is a parameter.
-/

namespace FileServer.Protocol

open FileServer.Checksum FileServer.Encoding FileServer.Transition

namespace Wire

inductive Failure where
  | error (code message : String)
  | other
  deriving DecidableEq

structure Json (α : Type) where
  loads : Bytes → Option α
  dumps : α → Bytes
  isDict : α → Bool

def HEADER : List Nat := [2, 2, 4, 4, 4, 4, 4]
def MAX_JSON : Nat := 1024 * 1024
def MAX_DATA : Nat := 4 * 1024 * 1024

/-- The reflected check with polynomial `0xEDB88320`. -/
def crc32 (data : Bytes) : Nat := (check 0xEDB88320#32 data).toNat

/-- What is still to arrive at a socket, by the parts it arrives in. -/
abbrev Socket := List Bytes

/-- `recv`: at most the bytes asked for, and none only at the end. -/
def recv (size : Nat) : Socket → Bytes × Socket
  | [] => ([], [])
  | [] :: parts => recv size parts
  | part :: parts => (part.take size, part.drop size :: parts)

theorem recv_spec (size : Nat) (sock : Socket) :
    (recv size sock).1 ++ (recv size sock).2.flatten = sock.flatten ∧
      (recv size sock).1.length ≤ size ∧
      (0 < size → (recv size sock).1 = [] → sock.flatten = []) := by
  induction sock with
  | nil => simp [recv]
  | cons part parts inductionHypothesis =>
      cases part with
      | nil => simpa [recv] using inductionHypothesis
      | cons first part =>
          refine ⟨?_, List.length_take_le _ _, ?_⟩
          · simp only [recv, List.flatten_cons, ← List.append_assoc, List.take_append_drop]
          · intro asked nothing
            obtain ⟨size, rfl⟩ := Nat.exists_eq_succ_of_ne_zero (Nat.pos_iff_ne_zero.mp asked)
            cases nothing

def exactLoop (size : Nat) (out : Bytes) (sock : Socket) : Except Failure (Bytes × Socket) :=
  if _more : out.length < size then
    match _received : recv (min (size - out.length) 65536) sock with
    | ([], _) => .error (.error "TRUNCATED" "connection ended before complete frame")
    | (first :: part, sock) => exactLoop size (out ++ first :: part) sock
  else
    .ok (out, sock)
termination_by size - out.length
decreasing_by
  rw [List.length_append, List.length_cons]
  omega

def exact (sock : Socket) (size : Nat) : Except Failure (Bytes × Socket) := exactLoop size [] sock

def require (condition : Prop) [Decidable condition] (code message : String) :
    Except Failure Unit :=
  Transition.require condition (.error code message)

section Frames

variable {α : Type} (json : Json α)

def receive (sock : Socket) : Except Failure ((α × Bytes × Nat) × Socket) := do
  let (raw, sock) ← exact sock HEADER.sum
  match unpack HEADER raw with
  | [magic, version, kind, jl, bl, rid, crc] => do
      require (magic = 0x4D46 ∧ version = 1 ∧ (kind = 1 ∨ kind = 2)) "PROTOCOL" "invalid header"
      require (jl ≤ MAX_JSON ∧ bl ≤ MAX_DATA) "LIMIT" "frame too large"
      let (body, sock) ← exact sock (jl + bl)
      require (crc32 (raw.take 20 ++ List.replicate 4 0 ++ body) = crc) "PROTOCOL" "CRC mismatch"
      let fields ← found (json.loads (body.take jl)) (.error "INVALID" "invalid JSON")
      require (json.isDict fields) "INVALID" "invalid request"
      return ((fields, body.drop jl, rid), sock)
  | _ => .error .other

/-- The bytes that `send` writes; `struct` raises for a number that does not
fit its field. -/
def send (fields : α) (data : Bytes) (rid kind : Nat) : Except Failure Bytes := do
  let body := json.dumps fields
  require (body.length ≤ MAX_JSON ∧ data.length ≤ MAX_DATA) "LIMIT" "frame too large"
  Transition.require (kind < 2 ^ 32 ∧ rid < 2 ^ 32) .other
  let raw := pack (HEADER.zip [0x4D46, 1, kind, body.length, data.length, rid, 0])
  let crc := crc32 (raw ++ body ++ data)
  return raw.take 20 ++ pack [(4, crc)] ++ body ++ data

end Frames

/-- What is asked for and arrives is read, in whatever parts. -/
theorem exactLoop_spec (size : Nat) (out : Bytes) (sock : Socket) (within : out.length ≤ size)
    (enough : size ≤ out.length + sock.flatten.length) :
    ∃ rest, exactLoop size out sock = .ok ((out ++ sock.flatten).take size, rest) ∧
      rest.flatten = (out ++ sock.flatten).drop size := by
  fun_induction exactLoop size out sock with
  | case1 out sock more ended received =>
      obtain ⟨_, _, atEnd⟩ := recv_spec (min (size - out.length) 65536) sock
      rw [received] at atEnd
      rw [atEnd (by omega) rfl, List.length_nil] at enough
      omega
  | case2 out sock more first part left received inductionHypothesis =>
      obtain ⟨joined, bounded, _⟩ := recv_spec (min (size - out.length) 65536) sock
      rw [received] at joined bounded
      rw [← joined, List.length_append] at enough
      simp only [← joined, ← List.append_assoc]
      refine inductionHypothesis ?_ ?_
      · rw [List.length_append]
        simp only at bounded
        omega
      · rw [List.length_append]
        simp only at enough
        omega
  | case3 out sock complete =>
      have size_eq : size = out.length := by omega
      exact ⟨sock, by rw [size_eq, List.take_left], by rw [size_eq, List.drop_left]⟩

theorem exact_spec {sock : Socket} {front rest : Bytes} (arrived : sock.flatten = front ++ rest) :
    ∃ left, exact sock front.length = .ok (front, left) ∧ left.flatten = rest := by
  have read := exactLoop_spec front.length [] sock (Nat.zero_le _) (by simp [arrived])
  rw [List.nil_append, arrived, List.take_left, List.drop_left] at read
  exact read

theorem crc32_eq (data : Bytes) : crc32 data = (Encoder.crc32 data).toNat := by
  rw [crc32, ← UInt32.toNat_toBitVec, Encoder.crc32_toBitVec]
  rfl

end Wire

theorem MessageHeader.encodeTo_checksum (h : MessageHeader) (checksum : UInt32) :
    { h with checksum }.encodeTo = h.encodeTo.take 20 ++ bigEndian 4 checksum.toNat := by
  rw [encodeTo, encodeTo, List.take_left' (by simp)]

namespace Wire

variable {α : Type} {json : Json α}

theorem receive_encode {msg : Message} (sendable : msg.Sendable)
    (version : msg.header.version = kProtocolVersion)
    (kind : msg.header.msgType = 1 ∨ msg.header.msgType = 2)
    (body : msg.jsonBody.length ≤ MAX_JSON) (data : msg.binaryData.length ≤ MAX_DATA)
    {fields : α} (parsed : json.loads msg.jsonBody = some fields) (dict : json.isDict fields = true)
    {sock : Socket} {rest : Bytes} (arrived : sock.flatten = Encoder.encode msg ++ rest) :
    ∃ left, receive json sock =
        .ok ((fields, msg.binaryData, msg.header.requestId.toNat), left) ∧
      left.flatten = rest := by
  have as := Encoder.sent_sentAs sendable
  have verified := Encoder.sent_verified msg
  have magic : (Encoder.sent msg).header.magic = kProtocolMagic := sendable.magic
  have version' : (Encoder.sent msg).header.version = kProtocolVersion := version
  have contents : (Encoder.sent msg).jsonBody = msg.jsonBody ∧
      (Encoder.sent msg).binaryData = msg.binaryData := ⟨rfl, rfl⟩
  rw [Message.Verified, contents.1, contents.2] at verified
  rw [Encoder.encode_eq, List.append_assoc, List.append_assoc] at arrived
  rw [← as.requestId]
  rw [← as.msgType] at kind
  have bodyLength := as.bodyLength
  have dataLength := as.dataLength
  generalize (Encoder.sent msg).header = h at *
  obtain ⟨left, header, later⟩ := exact_spec arrived
  rw [← List.append_assoc] at later
  obtain ⟨last, content, final⟩ := exact_spec later
  have numbers := MessageHeader.unpack_encodeTo h []
  rw [List.append_nil] at numbers
  have cleared : ({ h with checksum := 0 } : MessageHeader).encodeTo =
      h.encodeTo.take 20 ++ List.replicate 4 0 := MessageHeader.encodeTo_checksum h 0
  have checked : crc32 (h.encodeTo.take 20 ++ List.replicate 4 0 ++
      (msg.jsonBody ++ msg.binaryData)) = h.checksum.toNat := by
    rw [← cleared, ← List.append_assoc, crc32_eq]
    exact congrArg UInt32.toNat verified
  have kinds : h.msgType.toNat = 1 ∨ h.msgType.toNat = 2 :=
    kind.imp (congrArg UInt32.toNat) (congrArg UInt32.toNat)
  refine ⟨last, ?_, final⟩
  simp only [receive, bind_eq_ok]
  refine ⟨(h.encodeTo, left), ?_, ?_⟩
  · rw [MessageHeader.length_encodeTo] at header
    exact header
  · rw [show unpack HEADER h.encodeTo = _ from numbers]
    simp only [MessageHeader.numbers, magic, version', bodyLength, dataLength, bind_eq_ok]
    refine ⟨(), require_eq_ok.mpr ⟨rfl, rfl, kinds⟩, (), require_eq_ok.mpr ⟨body, data⟩, ?_⟩
    refine ⟨(msg.jsonBody ++ msg.binaryData, last), ?_, (), require_eq_ok.mpr checked, fields, ?_,
      (), require_eq_ok.mpr dict, ?_⟩
    · rw [List.length_append] at content
      exact content
    · rw [List.take_left, found_eq_ok]
      exact parsed
    · rw [List.drop_left]
      rfl

def framed (kind rid : UInt32) (body data : Bytes) : Message :=
  ⟨{ msgType := kind, requestId := rid }, body, data⟩

/-- What Python writes is what the C++ encoder writes. -/
theorem send_eq (fields : α) (data : Bytes) (kind rid : UInt32)
    (body : (json.dumps fields).length ≤ MAX_JSON) (limit : data.length ≤ MAX_DATA) :
    send json fields data rid.toNat kind.toNat =
      .ok (Encoder.encode (framed kind rid (json.dumps fields) data)) := by
  generalize written : Encoder.unsealed (framed kind rid (json.dumps fields) data) = h
  have bodyLength : h.bodyLength.toNat = (json.dumps fields).length := by
    rw [← written, Encoder.unsealed, UInt32.toNat_ofNat']
    exact Nat.mod_eq_of_lt (lt_of_le_of_lt body (by decide))
  have dataLength : h.dataLength.toNat = data.length := by
    rw [← written, Encoder.unsealed, UInt32.toNat_ofNat']
    exact Nat.mod_eq_of_lt (lt_of_le_of_lt limit (by decide))
  have raw : pack (HEADER.zip [0x4D46, 1, kind.toNat, (json.dumps fields).length, data.length,
      rid.toNat, 0]) = h.encodeTo := by
    rw [MessageHeader.encodeTo_eq_pack, ← bodyLength, ← dataLength, ← written]
    rfl
  simp only [send, bind_eq_ok, raw]
  refine ⟨(), require_eq_ok.mpr ⟨body, limit⟩, (),
    require_eq_ok.mpr ⟨kind.toNat_lt, rid.toNat_lt⟩, ?_⟩
  rw [crc32_eq, Encoder.encode_eq, Encoder.sent, written, MessageHeader.encodeTo_checksum]
  simp [pack, framed]
  rfl

/-- The two implementations read each other's frames, and compute one checksum. -/
theorem implementations_agree (json : Json α) :
    (∀ (kind rid : UInt32) (b data : Bytes) (fields : α), kind = 1 ∨ kind = 2 →
      b.length ≤ MAX_JSON → data.length ≤ MAX_DATA → json.loads b = some fields →
      json.isDict fields = true → ∀ (fragments : Socket) (rest : Bytes),
        fragments.flatten = Encoder.encode (framed kind rid b data) ++ rest →
        ∃ left, receive json fragments = .ok ((fields, data, rid.toNat), left) ∧
          left.flatten = rest) ∧
      (∀ (kind rid : UInt32) (fields : α) (data : Bytes), kind = 1 ∨ kind = 2 →
        (json.dumps fields).length ≤ MAX_JSON → data.length ≤ MAX_DATA →
        ∃ bytes, send json fields data rid.toNat kind.toNat = .ok bytes ∧
          ∀ pieces : List Bytes, pieces.flatten = bytes →
            ∃ msg, (Decoder.feeds pieces).1.flatten = [msg] ∧
              msg.jsonBody = json.dumps fields ∧ msg.binaryData = data ∧
              msg.header.requestId = rid ∧ msg.header.msgType = kind) ∧
      ∀ bytes : Bytes, (Encoder.crc32 bytes).toNat = crc32 bytes := by
  refine ⟨?_, ?_, fun bytes => (crc32_eq bytes).symm⟩
  · intro kind rid b data fields kinds body limit parsed dict fragments rest arrived
    have sendable : (framed kind rid b data).Sendable :=
      ⟨rfl, lt_of_le_of_lt body (by decide), lt_of_le_of_lt limit (by decide)⟩
    exact receive_encode sendable rfl kinds body limit parsed dict arrived
  · intro kind rid fields data _ body limit
    refine ⟨_, send_eq fields data kind rid body limit, ?_⟩
    intro pieces cut
    have sendable : (framed kind rid (json.dumps fields) data).Sendable :=
      ⟨rfl, lt_of_le_of_lt body (by decide), lt_of_le_of_lt limit (by decide)⟩
    have whole : pieces.flatten = Encoder.encodeBatch [framed kind rid (json.dumps fields) data] := by
      simpa [Encoder.encodeBatch] using cut
    obtain ⟨emitted, _⟩ := feeds_encodeBatch (by simpa using sendable) whole
    exact ⟨_, emitted, rfl, rfl, rfl, rfl⟩

def emptyObject : Json Unit where
  loads text := if text = [123, 125] then some () else none
  dumps _ := [123, 125]
  isDict _ := true

theorem implementations_agree_emptyObject :
    ∃ left, receive emptyObject [Encoder.encode (framed 1 7 [123, 125] [5])] =
      .ok (((), [5], 7), left) ∧ left.flatten = [] :=
  (implementations_agree emptyObject).1 1 7 [123, 125] [5] () (by simp) (by decide) (by decide)
    rfl rfl _ [] (by simp)

end Wire

end FileServer.Protocol

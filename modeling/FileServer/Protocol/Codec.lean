import FileServer.Checksum.Reflected
import FileServer.Encoding.BigEndian

/-!
# The message codec

`MessageHeader`, `Message` and `Encoder`.  Every multi-byte field travels in
network byte order, and the checksum covers the header with a checksum of zero,
the JSON body and the binary data.
-/

namespace FileServer.Protocol

open FileServer.Checksum FileServer.Encoding

abbrev Bytes := List UInt8

def kProtocolMagic : UInt16 := 0x4D46
def kProtocolVersion : UInt16 := 0x0001
def kHeaderSize : Nat := 24

structure MessageHeader where
  magic : UInt16 := kProtocolMagic
  version : UInt16 := kProtocolVersion
  msgType : UInt32 := 0
  bodyLength : UInt32 := 0
  dataLength : UInt32 := 0
  requestId : UInt32 := 0
  checksum : UInt32 := 0
  deriving DecidableEq

structure Message where
  header : MessageHeader := {}
  jsonBody : Bytes
  binaryData : Bytes
  deriving DecidableEq

namespace MessageHeader

def encodeTo (h : MessageHeader) : Bytes :=
  bigEndian 2 h.magic.toNat ++ bigEndian 2 h.version.toNat ++ bigEndian 4 h.msgType.toNat ++
    bigEndian 4 h.bodyLength.toNat ++ bigEndian 4 h.dataLength.toNat ++
    bigEndian 4 h.requestId.toNat ++ bigEndian 4 h.checksum.toNat

/-- `DecodeFrom`: whether the magic number is the protocol's, and the header
read. -/
def decodeFrom (buffer : Bytes) : Bool × MessageHeader :=
  let word offset width := unsigned ((buffer.drop offset).take width)
  let header : MessageHeader := {
    magic := .ofNat (word 0 2), version := .ofNat (word 2 2), msgType := .ofNat (word 4 4)
    bodyLength := .ofNat (word 8 4), dataLength := .ofNat (word 12 4)
    requestId := .ofNat (word 16 4), checksum := .ofNat (word 20 4) }
  (header.magic = kProtocolMagic, header)

def widths : List Nat := [2, 2, 4, 4, 4, 4, 4]

def numbers (h : MessageHeader) : List Nat :=
  [h.magic.toNat, h.version.toNat, h.msgType.toNat, h.bodyLength.toNat, h.dataLength.toNat,
    h.requestId.toNat, h.checksum.toNat]

theorem encodeTo_eq_pack (h : MessageHeader) : h.encodeTo = pack (widths.zip h.numbers) := by
  simp [encodeTo, pack, widths, numbers]

@[simp]
theorem length_encodeTo (h : MessageHeader) : h.encodeTo.length = kHeaderSize := by
  simp [encodeTo, kHeaderSize]

theorem decodeFrom_numbers {buffer : Bytes} {h : MessageHeader}
    (read : unpack widths buffer = h.numbers) :
    decodeFrom buffer = (decide (h.magic = kProtocolMagic), h) := by
  simp only [unpack, widths, numbers, List.cons.injEq, List.drop_drop] at read
  obtain ⟨magic, version, msgType, bodyLength, dataLength, requestId, checksum, _⟩ := read
  simp only [Nat.reduceAdd] at magic version msgType bodyLength dataLength requestId checksum
  simp only [decodeFrom, List.drop_zero, magic, version, msgType, bodyLength, dataLength,
    requestId, checksum, UInt16.ofNat_toNat, UInt32.ofNat_toNat]

theorem unpack_encodeTo (h : MessageHeader) (rest : Bytes) :
    unpack widths (h.encodeTo ++ rest) = h.numbers := by
  have fit : ∀ field ∈ widths.zip h.numbers, field.2 < 256 ^ field.1 := by
    simpa [widths, numbers] using ⟨h.magic.toNat_lt, h.version.toNat_lt, h.msgType.toNat_lt,
      h.bodyLength.toNat_lt, h.dataLength.toNat_lt, h.requestId.toNat_lt, h.checksum.toNat_lt⟩
  have read := unpack_pack _ fit rest
  rw [← encodeTo_eq_pack] at read
  simpa [widths, numbers] using read

theorem decodeFrom_encodeTo (h : MessageHeader) (rest : Bytes) :
    decodeFrom (h.encodeTo ++ rest) = (decide (h.magic = kProtocolMagic), h) :=
  decodeFrom_numbers (unpack_encodeTo h rest)

/-- The header read is the one written in front. -/
theorem encodeTo_decodeFrom {buffer : Bytes} (enough : kHeaderSize ≤ buffer.length) :
    (decodeFrom buffer).2.encodeTo = buffer.take kHeaderSize := by
  have written := pack_unpack widths buffer (by simpa [widths, kHeaderSize] using enough)
  have fits : ∀ offset width, unsigned ((buffer.drop offset).take width) < 256 ^ width := by
    intro offset width
    exact lt_of_lt_of_le (unsigned_lt _) (Nat.pow_le_pow_right (by decide) (List.length_take_le _ _))
  have small : ∀ offset, unsigned ((buffer.drop offset).take 2) % 2 ^ 16 =
      unsigned ((buffer.drop offset).take 2) := fun offset => Nat.mod_eq_of_lt (fits offset 2)
  have word : ∀ offset, unsigned ((buffer.drop offset).take 4) % 2 ^ 32 =
      unsigned ((buffer.drop offset).take 4) := fun offset => Nat.mod_eq_of_lt (fits offset 4)
  rw [encodeTo_eq_pack]
  simp only [numbers, decodeFrom, UInt16.toNat_ofNat', UInt32.toNat_ofNat', small, word]
  simpa [unpack, widths, kHeaderSize, List.drop_drop] using written

theorem decodeFrom_append {buffer : Bytes} (enough : kHeaderSize ≤ buffer.length)
    (later : Bytes) : decodeFrom (buffer ++ later) = decodeFrom buffer := by
  have within : ∀ offset width, offset + width ≤ kHeaderSize →
      ((buffer ++ later).drop offset).take width = (buffer.drop offset).take width := by
    intro offset width inHeader
    rw [List.drop_append_of_le_length (by omega), List.take_append_of_le_length (by
      rw [List.length_drop]
      omega)]
  simp (disch := decide) only [decodeFrom, within]

end MessageHeader

namespace Encoder

/-- An entry of the table that `InitCRC32Table` fills. -/
def crc32Entry (i : UInt32) : UInt32 :=
  (List.range 8).foldl (fun crc _ =>
    if crc &&& 1 ≠ 0 then (crc >>> 1) ^^^ 0xEDB88320 else crc >>> 1) i

def crc32Table : List UInt32 := (List.range 256).map fun i => crc32Entry (.ofNat i)

def crc32 (data : Bytes) : UInt32 :=
  data.foldl (fun (crc : UInt32) byte =>
    crc32Table.getD ((crc ^^^ byte.toUInt32) &&& 0xFF).toNat 0 ^^^ (crc >>> 8)) 0xFFFFFFFF ^^^
    0xFFFFFFFF

def encode (msg : Message) : Bytes :=
  let h := { msg.header with
    bodyLength := .ofNat msg.jsonBody.length, dataLength := .ofNat msg.binaryData.length
    checksum := 0 }
  let crc := crc32 (h.encodeTo ++ msg.jsonBody ++ msg.binaryData)
  { h with checksum := crc }.encodeTo ++ msg.jsonBody ++ msg.binaryData

def encodeBatch (msgs : List Message) : Bytes := msgs.flatMap encode

def polynomial : BitVec 32 := 0xEDB88320#32

theorem shift_toBitVec (crc : UInt32) :
    (if crc &&& 1 ≠ 0 then (crc >>> 1) ^^^ 0xEDB88320 else crc >>> 1 : UInt32).toBitVec =
      shift polynomial crc.toBitVec := by
  have low : (crc &&& 1).toBitVec = BitVec.setWidth 32 (BitVec.ofBool (crc.toBitVec.getLsbD 0)) :=
    BitVec.and_one_eq_setWidth_ofBool_getLsbD
  unfold shift
  cases bit : crc.toBitVec.getLsbD 0 with
  | false =>
      have zero : crc &&& 1 = 0 := UInt32.toBitVec_inj.mp (by rw [low, bit]; rfl)
      simp [zero]
  | true =>
      have one : crc &&& 1 = 1 := UInt32.toBitVec_inj.mp (by rw [low, bit]; rfl)
      simp [one, polynomial]

theorem crc32Entry_toBitVec (i : UInt32) :
    (crc32Entry i).toBitVec = shifts polynomial 8 i.toBitVec := by
  simp only [crc32Entry, shifts, ← shift_toBitVec]
  rfl

theorem crc32Table_getD (i : UInt32) (inRange : i.toNat < 256) :
    crc32Table.getD i.toNat 0 = crc32Entry i := by
  rw [List.getD_eq_getElem _ _ (by simpa [crc32Table] using inRange)]
  simp [crc32Table]

theorem feed_toBitVec (crc : UInt32) (byte : UInt8) :
    (crc32Table.getD ((crc ^^^ byte.toUInt32) &&& 0xFF).toNat 0 ^^^ (crc >>> 8)).toBitVec =
      feed polynomial crc.toBitVec byte := by
  have inRange : ((crc ^^^ byte.toUInt32) &&& 0xFF).toNat < 256 := by
    rw [UInt32.toNat_and]
    exact Nat.lt_succ_of_le Nat.and_le_right
  have low : ∀ position, ((crc ^^^ byte.toUInt32) &&& 0xFF).toBitVec.getLsbD position =
      (decide (position < 8) && (crc ^^^ byte.toUInt32).toBitVec.getLsbD position) := by
    intro position
    have mask : (255#32).getLsbD position = decide (position < 8) := by
      rw [BitVec.getLsbD_ofNat, show (255 : Nat) = 2 ^ 8 - 1 from rfl, Nat.testBit_two_pow_sub_one]
      by_cases inByte : position < 8
      · simp [inByte, Nat.lt_trans inByte]
      · simp [inByte]
    rw [UInt32.toBitVec_and, BitVec.getLsbD_and, Bool.and_comm]
    exact congrArg (· && _) mask
  have high : (crc ^^^ byte.toUInt32).toBitVec >>> 8 = (crc >>> 8).toBitVec := by
    have small : byte.toUInt32.toBitVec >>> 8 = 0#32 := by
      apply BitVec.eq_of_toNat_eq
      have bound := byte.toNat_lt
      simp [BitVec.toNat_ushiftRight, Nat.shiftRight_eq_div_pow]
      omega
    rw [UInt32.toBitVec_xor, BitVec.ushiftRight_xor_distrib, small, BitVec.xor_zero]
    rfl
  rw [crc32Table_getD _ inRange, UInt32.toBitVec_xor, crc32Entry_toBitVec, ← high,
    ← shifts_split 8 _ _ low]
  rfl

theorem crc32_toBitVec (data : Bytes) : (crc32 data).toBitVec = check polynomial data := by
  have loop : ∀ crc : UInt32, (data.foldl (fun (crc : UInt32) byte =>
      crc32Table.getD ((crc ^^^ byte.toUInt32) &&& 0xFF).toNat 0 ^^^ (crc >>> 8)) crc).toBitVec =
        data.foldl (feed polynomial) crc.toBitVec := by
    induction data with
    | nil => exact fun _ => rfl
    | cons byte data inductionHypothesis =>
        intro crc
        rw [List.foldl_cons, inductionHypothesis, feed_toBitVec, List.foldl_cons]
  rw [crc32, UInt32.toBitVec_xor, loop]
  rfl

end Encoder

end FileServer.Protocol

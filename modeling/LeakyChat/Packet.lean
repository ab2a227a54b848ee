/-
The packet classes, their wire format and the factory that decodes them.
Every constructor of a class fixes the class's own tag, so the tag of a packet
is its constructor here; `deserialise` reads the tag byte again and skips it,
the factory having switched on that same byte.
-/
import LeakyChat.Codec

namespace LeakyChat

open Wire

structure PacketType where
  byte : UInt8
deriving DecidableEq, Repr

namespace PacketType

def message : PacketType := ⟨0⟩
def error : PacketType := ⟨1⟩
def request : PacketType := ⟨2⟩
def fieldReq : PacketType := ⟨3⟩
def userList : PacketType := ⟨4⟩
def connectionSetup : PacketType := ⟨5⟩
def control : PacketType := ⟨6⟩

end PacketType

structure RequestType where
  byte : UInt8
deriving DecidableEq, Repr

namespace RequestType

def requestUserList : RequestType := ⟨0⟩
def setUsername : RequestType := ⟨1⟩
def disconnect : RequestType := ⟨2⟩
def error : RequestType := ⟨3⟩

end RequestType

structure ControlField where
  byte : UInt8
deriving DecidableEq, Repr

namespace ControlField

def ack : ControlField := ⟨0⟩
def nack : ControlField := ⟨1⟩
def error : ControlField := ⟨2⟩

end ControlField

abbrev SequenceNo := UInt64

structure MessagePacket where
  seq : SequenceNo
  mSender : Str
  mReceiver : Str
  mPayload : Payload
deriving DecidableEq

structure RequestPacket where
  seq : SequenceNo
  mRequestType : RequestType
deriving DecidableEq

structure FieldReqPacket where
  seq : SequenceNo
  mRequestType : RequestType
  mField : Str
deriving DecidableEq

structure UserListPacket where
  seq : SequenceNo
  mUserList : StrVector
deriving DecidableEq

structure ConnectionSetupPacket where
  seq : SequenceNo
deriving DecidableEq

structure ControlPacket where
  seq : SequenceNo
  mControl : ControlField
  mReplyTo : SequenceNo
deriving DecidableEq

/-- A packet behind a base class pointer. -/
inductive Packet where
  | message (pkt : MessagePacket)
  | error (seq : SequenceNo)
  | request (pkt : RequestPacket)
  | fieldReq (pkt : FieldReqPacket)
  | userList (pkt : UserListPacket)
  | connectionSetup (pkt : ConnectionSetupPacket)
  | control (pkt : ControlPacket)
deriving DecidableEq

def Packet.mPacketType : Packet → PacketType
  | .message _ => .message
  | .error _ => .error
  | .request _ => .request
  | .fieldReq _ => .fieldReq
  | .userList _ => .userList
  | .connectionSetup _ => .connectionSetup
  | .control _ => .control

def MessagePacket.setSender (pkt : MessagePacket) (uname : Str) : MessagePacket :=
  { pkt with mSender := uname }

/-- `Packet::serialise`, the part every class writes first. -/
def serialiseHeader (type : PacketType) (seq : SequenceNo) (b : MemBuffer) :
    MemBuffer :=
  (b.writeU8 type.byte).writeU64 seq

def MessagePacket.serialise (pkt : MessagePacket) (b : MemBuffer) : MemBuffer :=
  (((serialiseHeader .message pkt.seq b).writeString pkt.mSender).writeString
    pkt.mReceiver).writePayload pkt.mPayload

def RequestPacket.serialise (pkt : RequestPacket) (b : MemBuffer) : MemBuffer :=
  (serialiseHeader .request pkt.seq b).writeU8 pkt.mRequestType.byte

def FieldReqPacket.serialise (pkt : FieldReqPacket) (b : MemBuffer) : MemBuffer :=
  ((serialiseHeader .fieldReq pkt.seq b).writeU8 pkt.mRequestType.byte).writeString
    pkt.mField

def UserListPacket.serialise (pkt : UserListPacket) (b : MemBuffer) : MemBuffer :=
  (serialiseHeader .userList pkt.seq b).writeStrVector pkt.mUserList

def ConnectionSetupPacket.serialise (pkt : ConnectionSetupPacket) (b : MemBuffer) :
    MemBuffer :=
  serialiseHeader .connectionSetup pkt.seq b

/-- The reply number is cast to 32 bits on its way out. -/
def ControlPacket.serialise (pkt : ControlPacket) (b : MemBuffer) : MemBuffer :=
  ((serialiseHeader .control pkt.seq b).writeU8 pkt.mControl.byte).writeU32
    pkt.mReplyTo.toUInt32

def Packet.serialise : Packet → MemBuffer → MemBuffer
  | .message pkt => pkt.serialise
  | .error seq => serialiseHeader .error seq
  | .request pkt => pkt.serialise
  | .fieldReq pkt => pkt.serialise
  | .userList pkt => pkt.serialise
  | .connectionSetup pkt => pkt.serialise
  | .control pkt => pkt.serialise

/-- `Packet::deserialise`: the tag byte, then the sequence number. -/
def deserialiseHeader : Decoder SequenceNo := do
  let _ ← readU8
  readU64

def MessagePacket.deserialise : Decoder MessagePacket := do
  let seq ← deserialiseHeader
  let mSender ← readString
  let mReceiver ← readString
  let mPayload ← readPayload
  return ⟨seq, mSender, mReceiver, mPayload⟩

def RequestPacket.deserialise : Decoder RequestPacket := do
  let seq ← deserialiseHeader
  let requestType ← readU8
  return ⟨seq, ⟨requestType⟩⟩

def FieldReqPacket.deserialise : Decoder FieldReqPacket := do
  let seq ← deserialiseHeader
  let requestType ← readU8
  let mField ← readString
  return ⟨seq, ⟨requestType⟩, mField⟩

def UserListPacket.deserialise : Decoder UserListPacket := do
  let seq ← deserialiseHeader
  let mUserList ← readStrVector
  return ⟨seq, mUserList⟩

def ConnectionSetupPacket.deserialise : Decoder ConnectionSetupPacket := do
  let seq ← deserialiseHeader
  return ⟨seq⟩

/-- `ptr >> (uint32_t&) field` on an uninitialised 64-bit field: the upper
four bytes stay as they were. -/
def readLow32 : Decoder UInt64 := do
  let old ← uninit 8
  let low ← readOver (⟨old.1.take 4, by simp [old.2]⟩ : Block 4)
  return UInt64.ofNat (leNat (low.1 ++ old.1.drop 4))

def ControlPacket.deserialise : Decoder ControlPacket := do
  let seq ← deserialiseHeader
  let control ← readU8
  let mReplyTo ← readLow32
  return ⟨seq, ⟨control⟩, mReplyTo⟩

/-- `buffer.view()[0]`, which has no meaning on an empty view. -/
def peekType : Decoder PacketType := fun r =>
  match r.buf.view with
  | [] => .error .undefined
  | byte :: _ => .ok (⟨byte⟩, r)

/-- A packet of class `ERROR` is built without reading anything; `std::make_unique<Packet>`
makes its number zero. -/
def readErrorPacket : Decoder Packet := return .error 0

def unknownPacketType (type : PacketType) : Fault :=
  .runtimeError ("Unknown packet type : " ++ toString type.byte.toNat)

/-- The `switch` of the factory. -/
def decodeAs (type : PacketType) : Decoder Packet :=
  if type = .message then .message <$> MessagePacket.deserialise
  else if type = .request then .request <$> RequestPacket.deserialise
  else if type = .fieldReq then .fieldReq <$> FieldReqPacket.deserialise
  else if type = .userList then .userList <$> UserListPacket.deserialise
  else if type = .error then readErrorPacket
  else if type = .connectionSetup then
    .connectionSetup <$> ConnectionSetupPacket.deserialise
  else if type = .control then .control <$> ControlPacket.deserialise
  else throw (unknownPacketType type)

def Packet.getPacketFactory : Decoder Packet := do
  let packetType ← peekType
  decodeAs packetType

def headerBytes (type : PacketType) (seq : SequenceNo) : List UInt8 :=
  u8Bytes type.byte ++ u64Bytes seq

def MessagePacket.body (pkt : MessagePacket) : List UInt8 :=
  strBytes pkt.mSender ++ (strBytes pkt.mReceiver ++ payloadBytes pkt.mPayload)

def FieldReqPacket.body (pkt : FieldReqPacket) : List UInt8 :=
  u8Bytes pkt.mRequestType.byte ++ strBytes pkt.mField

def ControlPacket.body (pkt : ControlPacket) : List UInt8 :=
  u8Bytes pkt.mControl.byte ++ u32Bytes pkt.mReplyTo.toUInt32

def Packet.seq : Packet → SequenceNo
  | .message pkt => pkt.seq
  | .error seq => seq
  | .request pkt => pkt.seq
  | .fieldReq pkt => pkt.seq
  | .userList pkt => pkt.seq
  | .connectionSetup pkt => pkt.seq
  | .control pkt => pkt.seq

/-- What a class writes behind the header. -/
def Packet.body : Packet → List UInt8
  | .message pkt => pkt.body
  | .error _ => []
  | .request pkt => u8Bytes pkt.mRequestType.byte
  | .fieldReq pkt => pkt.body
  | .userList pkt => strVectorBytes pkt.mUserList
  | .connectionSetup _ => []
  | .control pkt => pkt.body

def Packet.bytes (pkt : Packet) : List UInt8 :=
  headerBytes pkt.mPacketType pkt.seq ++ pkt.body

@[simp]
theorem serialiseHeader_view (type : PacketType) (seq : SequenceNo) (b : MemBuffer) :
    (serialiseHeader type seq b).view = b.view ++ headerBytes type seq := by
  simp [serialiseHeader, headerBytes]

@[simp]
theorem Packet.serialise_view (pkt : Packet) (b : MemBuffer) :
    (pkt.serialise b).view = b.view ++ pkt.bytes := by
  cases pkt with
  | message pkt =>
      simp [Packet.serialise, MessagePacket.serialise, Packet.bytes, Packet.body,
        MessagePacket.body, Packet.mPacketType, Packet.seq]
  | error seq =>
      simp [Packet.serialise, Packet.bytes, Packet.body, Packet.mPacketType,
        Packet.seq]
  | request pkt =>
      simp [Packet.serialise, RequestPacket.serialise, Packet.bytes, Packet.body,
        Packet.mPacketType, Packet.seq]
  | fieldReq pkt =>
      simp [Packet.serialise, FieldReqPacket.serialise, Packet.bytes, Packet.body,
        FieldReqPacket.body, Packet.mPacketType, Packet.seq]
  | userList pkt =>
      simp [Packet.serialise, UserListPacket.serialise, Packet.bytes, Packet.body,
        Packet.mPacketType, Packet.seq]
  | connectionSetup pkt =>
      simp [Packet.serialise, ConnectionSetupPacket.serialise, Packet.bytes,
        Packet.body, Packet.mPacketType, Packet.seq]
  | control pkt =>
      simp [Packet.serialise, ControlPacket.serialise, Packet.bytes, Packet.body,
        ControlPacket.body, Packet.mPacketType, Packet.seq]

theorem deserialiseHeader_decodes (type : PacketType) (seq : SequenceNo) :
    Decodes deserialiseHeader (headerBytes type seq) seq :=
  (readU8_decodes type.byte).bind (readU64_decodes seq)

theorem MessagePacket.deserialise_decodes (pkt : MessagePacket) :
    Decodes MessagePacket.deserialise (Packet.message pkt).bytes pkt := by
  apply (deserialiseHeader_decodes _ pkt.seq).bind
  apply (readString_decodes pkt.mSender).bind
  apply (readString_decodes pkt.mReceiver).bind
  exact (readPayload_decodes pkt.mPayload).map
    fun payload => (⟨pkt.seq, pkt.mSender, pkt.mReceiver, payload⟩ : MessagePacket)

theorem RequestPacket.deserialise_decodes (pkt : RequestPacket) :
    Decodes RequestPacket.deserialise (Packet.request pkt).bytes pkt := by
  apply (deserialiseHeader_decodes _ pkt.seq).bind
  exact (readU8_decodes pkt.mRequestType.byte).map
    fun type => (⟨pkt.seq, ⟨type⟩⟩ : RequestPacket)

theorem FieldReqPacket.deserialise_decodes (pkt : FieldReqPacket) :
    Decodes FieldReqPacket.deserialise (Packet.fieldReq pkt).bytes pkt := by
  apply (deserialiseHeader_decodes _ pkt.seq).bind
  apply (readU8_decodes pkt.mRequestType.byte).bind
  exact (readString_decodes pkt.mField).map
    fun field => (⟨pkt.seq, pkt.mRequestType, field⟩ : FieldReqPacket)

theorem UserListPacket.deserialise_decodes (pkt : UserListPacket) :
    Decodes UserListPacket.deserialise (Packet.userList pkt).bytes pkt := by
  apply (deserialiseHeader_decodes _ pkt.seq).bind
  exact (readStrVector_decodes pkt.mUserList).map
    fun users => (⟨pkt.seq, users⟩ : UserListPacket)

theorem ConnectionSetupPacket.deserialise_decodes (pkt : ConnectionSetupPacket) :
    Decodes ConnectionSetupPacket.deserialise (Packet.connectionSetup pkt).bytes
      pkt := by
  apply (deserialiseHeader_decodes _ pkt.seq).bind
  exact Reads.pure Reader.view pkt

/-- Peeking at the tag takes nothing from the buffer. -/
theorem getPacketFactory_decodes {type : PacketType} {bytes : List UInt8}
    {pkt : Packet} (hdecode : Decodes (decodeAs type) (u8Bytes type.byte ++ bytes) pkt) :
    Decodes Packet.getPacketFactory (u8Bytes type.byte ++ bytes) pkt := by
  intro r rest hview
  obtain ⟨r', hrun, hrest⟩ := hdecode r rest hview
  refine ⟨r', ?_, hrest⟩
  have hcons : r.buf.view = type.byte :: (bytes ++ rest) := by
    simpa [Reader.view, MemBuffer.u8Bytes_eq] using hview
  change (peekType r >>= fun p => decodeAs p.1 p.2) = _
  simp only [peekType, hcons]
  exact hrun

/-- The classes whose wire format carries every field in full. -/
def wholeClasses : List PacketType :=
  [.message, .request, .fieldReq, .userList, .connectionSetup]

theorem decodeAs_decodes (pkt : Packet) (hclass : pkt.mPacketType ∈ wholeClasses) :
    Decodes (decodeAs pkt.mPacketType) pkt.bytes pkt := by
  cases pkt with
  | message pkt => exact (pkt.deserialise_decodes).map Packet.message
  | request pkt => exact (pkt.deserialise_decodes).map Packet.request
  | fieldReq pkt => exact (pkt.deserialise_decodes).map Packet.fieldReq
  | userList pkt => exact (pkt.deserialise_decodes).map Packet.userList
  | connectionSetup pkt => exact (pkt.deserialise_decodes).map Packet.connectionSetup
  | error seq => exact absurd hclass (show PacketType.error ∉ wholeClasses by decide)
  | control pkt =>
      exact absurd hclass (show PacketType.control ∉ wholeClasses by decide)

theorem Packet.bytes_decodes (pkt : Packet)
    (hclass : pkt.mPacketType ∈ wholeClasses) :
    Decodes Packet.getPacketFactory pkt.bytes pkt := by
  have hdecode := decodeAs_decodes pkt hclass
  rw [Packet.bytes, headerBytes, List.append_assoc] at hdecode ⊢
  exact getPacketFactory_decodes hdecode

/-- A buffer that holds a serialised packet and then `rest` is decoded into
that packet, and `rest` is what it holds afterwards, whatever uninitialised
locals held. -/
theorem getPacketFactory_serialise (pkt : Packet)
    (hclass : pkt.mPacketType ∈ wholeClasses) (rest : List UInt8) (stack : Stack)
    (buf : MemBuffer)
    (hbuf : buf.view = (pkt.serialise MemBuffer.empty).view ++ rest) :
    ∃ r, Packet.getPacketFactory ⟨buf, stack⟩ = .ok (pkt, r) ∧
      r.buf.view = rest := by
  rw [Packet.serialise_view, MemBuffer.empty_view, List.nil_append] at hbuf
  exact pkt.bytes_decodes hclass ⟨buf, stack⟩ rest hbuf

/-- An acknowledgement from a sender the server has not stamped yet. -/
def sampleAck : Packet :=
  .message ⟨7, .empty, ⟨[101, 118, 101], by decide⟩, ⟨.e2eAck, ⟨[1, 0, 255], by decide⟩⟩⟩

theorem getPacketFactory_serialise_sampleAck :
    ∃ r, Packet.getPacketFactory
        ⟨(sampleAck.serialise MemBuffer.empty).writeBytes [9, 9], fun _ => 170⟩ =
          .ok (sampleAck, r) ∧ r.buf.view = [9, 9] :=
  getPacketFactory_serialise sampleAck (by decide) [9, 9] (fun _ => 170) _
    (MemBuffer.writeBytes_view _ _)

end LeakyChat

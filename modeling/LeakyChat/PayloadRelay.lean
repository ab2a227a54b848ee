/-
An end-to-end payload on its way through the server.  It is written into a
message, the message is serialised, decoded at the server, stamped with its
sender and serialised again, and the receiver reads the payload out of what it
decodes.
-/
import LeakyChat.E2EPayload
import LeakyChat.Packet

namespace LeakyChat

open Wire

/-- Anything with an `operator<<` into a `Payload`. -/
inductive E2EValue where
  | init (v : E2EInit)
  | ack (v : E2EAck)
  | msg (v : E2EMsg)
deriving DecidableEq

/-- Which of the three classes, and so which `operator>>`. -/
inductive E2EClass where
  | init
  | ack
  | msg
deriving DecidableEq, Repr

namespace E2EValue

def cls : E2EValue → E2EClass
  | .init _ => .init
  | .ack _ => .ack
  | .msg _ => .msg

def toPayload : E2EValue → Except Fault Payload
  | .init v => v.toPayload
  | .ack v => v.toPayload
  | .msg v => v.toPayload

/-- What `operator<<` writes. -/
def bytes : E2EValue → List UInt8
  | .init v => v.bytes
  | .ack v => v.bytes
  | .msg v => u32Bytes v.seqno ++ v.data.bytes

/-- The type a payload gets, by which the receiver chooses a handler. -/
def type : E2EValue → Payload.Kind
  | .init _ => .e2eInit
  | .ack _ => .e2eAck
  | .msg v => v.data.type

/-- The `operator>>` of a class. -/
def ofPayload (cls : E2EClass) (pl : Payload) (stack : Stack) : Except Fault E2EValue :=
  match cls with
  | .init => .init <$> E2EInit.ofPayload pl stack
  | .ack => .ack <$> E2EAck.ofPayload pl stack
  | .msg => .msg <$> E2EMsg.ofPayload pl stack

variable {v : E2EValue} {pl : Payload}

/-- What fits a string is written. -/
theorem exists_toPayload (hfits : v.bytes.length ≤ maxSize) : ∃ pl, v.toPayload = .ok pl := by
  cases v with
  | init v => exact ⟨⟨.e2eInit, ⟨v.bytes, hfits⟩⟩, E2EInit.toPayload_eq_ok.mpr ⟨rfl, rfl⟩⟩
  | ack v => exact ⟨⟨.e2eAck, ⟨v.bytes, hfits⟩⟩, E2EAck.toPayload_eq_ok.mpr ⟨rfl, rfl⟩⟩
  | msg v =>
      exact ⟨⟨v.data.type, ⟨u32Bytes v.seqno ++ v.data.bytes, hfits⟩⟩,
        E2EMsg.toPayload_eq_ok.mpr ⟨rfl, rfl⟩⟩

theorem toPayload_type (hpl : v.toPayload = .ok pl) : pl.type = v.type := by
  cases v with
  | init v => exact (E2EInit.toPayload_eq_ok.mp hpl).1
  | ack v => exact (E2EAck.toPayload_eq_ok.mp hpl).1
  | msg v => exact (E2EMsg.toPayload_eq_ok.mp hpl).1

theorem ofPayload_toPayload (hpl : v.toPayload = .ok pl) (stack : Stack) :
    ofPayload v.cls pl stack = .ok v := by
  cases v with
  | init v => exact congrArg (Functor.map E2EValue.init) (E2EInit.ofPayload_toPayload hpl stack)
  | ack v => exact congrArg (Functor.map E2EValue.ack) (E2EAck.ofPayload_toPayload hpl stack)
  | msg v => exact congrArg (Functor.map E2EValue.msg) (E2EMsg.ofPayload_toPayload hpl stack)

end E2EValue

namespace MessagePacket

/-- What the other end of a connection decodes of a message. -/
def transfer (pkt : MessagePacket) (stack : Stack) : Except Fault Packet :=
  let sent := ((Packet.message pkt).serialise (MemBuffer.ofCapacity 1024)).view
  match Packet.getPacketFactory ⟨(MemBuffer.ofCapacity sent.length).writeBytes sent, stack⟩ with
  | .error fault => .error fault
  | .ok (packet, _) => .ok packet

/-- A message sent to the server, stamped there with `sender`, and sent on. -/
def relay (pkt : MessagePacket) (sender : Str) (server receiver : Stack) :
    Except Fault Packet :=
  match pkt.transfer server with
  | .error fault => .error fault
  | .ok (.message received) => (received.setSender sender).transfer receiver
  | .ok other => .ok other

theorem transfer_eq (pkt : MessagePacket) (stack : Stack) :
    pkt.transfer stack = .ok (.message pkt) := by
  obtain ⟨r, hrun, _⟩ := getPacketFactory_serialise (.message pkt)
    (show PacketType.message ∈ wholeClasses by decide) [] stack
    ((MemBuffer.ofCapacity
      ((Packet.message pkt).serialise (MemBuffer.ofCapacity 1024)).view.length).writeBytes
        ((Packet.message pkt).serialise (MemBuffer.ofCapacity 1024)).view) (by simp)
  simp only [transfer, hrun]

theorem relay_eq (pkt : MessagePacket) (sender : Str) (server receiver : Stack) :
    pkt.relay sender server receiver = .ok (.message (pkt.setSender sender)) := by
  simp only [relay, transfer_eq]

end MessagePacket

/-- An end-to-end value is written into a payload, and comes out at the receiver as it went in
at the sender, in a payload of the same type, from the sender the server has stamped. -/
theorem E2EValue.relay_roundTrip {v : E2EValue} (hfits : v.bytes.length ≤ maxSize)
    (seq : SequenceNo) (mSender mReceiver sender : Str) (server receiver stack : Stack) :
    ∃ (pl : Payload) (received : MessagePacket), v.toPayload = .ok pl ∧
      MessagePacket.relay ⟨seq, mSender, mReceiver, pl⟩ sender server receiver =
        .ok (.message received) ∧
      received.mSender = sender ∧
      received.mPayload.type = v.type ∧
      E2EValue.ofPayload v.cls received.mPayload stack = .ok v := by
  obtain ⟨pl, hpl⟩ := exists_toPayload hfits
  refine ⟨pl, ⟨seq, sender, mReceiver, pl⟩, hpl, ?_, rfl, ?_, ?_⟩
  · exact MessagePacket.relay_eq _ sender server receiver
  · exact toPayload_type hpl
  · exact ofPayload_toPayload hpl stack

/-- One value of each class, and of a message both alternatives. -/
theorem E2EValue.relay_roundTrip_sample :
    (∃ pl received, (E2EValue.init ⟨1, 2, ⟨[77, 0], by decide⟩⟩).toPayload = .ok pl ∧
      MessagePacket.relay ⟨0, .empty, .empty, pl⟩ ⟨[77], by decide⟩ (fun _ => 255)
        (fun _ => 254) = .ok (.message received) ∧
      received.mSender = ⟨[77], by decide⟩ ∧ received.mPayload.type = .e2eInit ∧
      E2EValue.ofPayload .init received.mPayload (fun _ => 253) =
        .ok (.init ⟨1, 2, ⟨[77, 0], by decide⟩⟩)) ∧
    (∃ pl received, (E2EValue.ack ⟨1, ⟨[77, 0], by decide⟩⟩).toPayload = .ok pl ∧
      MessagePacket.relay ⟨0, .empty, .empty, pl⟩ ⟨[77], by decide⟩ (fun _ => 255)
        (fun _ => 254) = .ok (.message received) ∧
      received.mSender = ⟨[77], by decide⟩ ∧ received.mPayload.type = .e2eAck ∧
      E2EValue.ofPayload .ack received.mPayload (fun _ => 253) =
        .ok (.ack ⟨1, ⟨[77, 0], by decide⟩⟩)) ∧
    (∃ pl received, (E2EValue.msg ⟨2, .plain ⟨[77, 0], by decide⟩⟩).toPayload = .ok pl ∧
      MessagePacket.relay ⟨0, .empty, .empty, pl⟩ ⟨[77], by decide⟩ (fun _ => 255)
        (fun _ => 254) = .ok (.message received) ∧
      received.mSender = ⟨[77], by decide⟩ ∧ received.mPayload.type = .plainText ∧
      E2EValue.ofPayload .msg received.mPayload (fun _ => 253) =
        .ok (.msg ⟨2, .plain ⟨[77, 0], by decide⟩⟩)) ∧
    ∃ pl received, (E2EValue.msg ⟨2, .cipher ⟨Block.zero 12, ⟨[77, 0], by decide⟩,
        Block.zero 16⟩⟩).toPayload = .ok pl ∧
      MessagePacket.relay ⟨0, .empty, .empty, pl⟩ ⟨[77], by decide⟩ (fun _ => 255)
        (fun _ => 254) = .ok (.message received) ∧
      received.mSender = ⟨[77], by decide⟩ ∧ received.mPayload.type = .e2eMsg ∧
      E2EValue.ofPayload .msg received.mPayload (fun _ => 253) =
        .ok (.msg ⟨2, .cipher ⟨Block.zero 12, ⟨[77, 0], by decide⟩, Block.zero 16⟩⟩) :=
  ⟨relay_roundTrip (v := .init ⟨1, 2, ⟨[77, 0], by decide⟩⟩) (by decide) 0 .empty .empty _ _ _ _,
    relay_roundTrip (v := .ack ⟨1, ⟨[77, 0], by decide⟩⟩) (by decide) 0 .empty .empty _ _ _ _,
    relay_roundTrip (v := .msg ⟨2, .plain ⟨[77, 0], by decide⟩⟩) (by decide) 0 .empty .empty
      _ _ _ _,
    relay_roundTrip (v := .msg ⟨2, .cipher ⟨Block.zero 12, ⟨[77, 0], by decide⟩, Block.zero 16⟩⟩)
      (by decide) 0 .empty .empty _ _ _ _⟩

end LeakyChat

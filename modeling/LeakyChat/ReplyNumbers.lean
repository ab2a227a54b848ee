/-
The number of the request a reply is for.  It goes out in 32 bits, and comes in
over half of a field that nobody has initialised.
-/
import LeakyChat.ClientWaits
import LeakyChat.ServerNames

namespace LeakyChat

open Program
open Wire

/-- Reading the lower half of a field leaves the upper one as it was. -/
theorem readLow32_run (low : Block 4) {r : Reader} {rest : List UInt8}
    (hview : r.view = low.1 ++ rest) :
    ∃ r', readLow32 r =
        .ok (UInt64.ofNat (leNat (low.1 ++ Wire.segment r.stack 4 4)), r') ∧
      r'.view = rest := by
  let old : Block 8 := ⟨(List.range 8).map r.stack, by simp⟩
  have hlocal : uninit 8 r = .ok (old, { r with stack := fun i => r.stack (8 + i) }) := rfl
  obtain ⟨r', hread, hrest⟩ := readOver_decodes ⟨old.1.take 4, by simp [old.2]⟩ low
    { r with stack := fun i => r.stack (8 + i) } rest hview
  have hupper : old.1.drop 4 = Wire.segment r.stack 4 4 := rfl
  refine ⟨r', ?_, hrest⟩
  rw [readLow32, run_bind hlocal, run_bind hread, hupper]
  rfl

theorem deserialiseHeader_stack {seq : SequenceNo} {r r' : Reader}
    (hrun : deserialiseHeader r = .ok (seq, r')) : r'.stack = fun i => r.stack (9 + i) := by
  obtain ⟨type, r₁, htype, hseq⟩ := of_run_bind hrun
  rw [readU64_stack hseq, readU8_stack htype]
  funext i
  exact congrArg r.stack (Nat.add_assoc 1 8 i).symm

/-- The upper half of what `mReplyTo` of a fresh packet holds.  The memory goes
to the tag, the sequence number, the control field and the lower half first. -/
def leftover (memory : Stack) : Nat := leNat (Wire.segment memory 14 4)

/-- The number that is read where `q` was written. -/
def numberRead (q : SequenceNo) (memory : Stack) : SequenceNo :=
  UInt64.ofNat (q.toNat % 2 ^ 32 + 2 ^ 32 * leftover memory)

theorem leftover_lt (memory : Stack) : leftover memory < 2 ^ 32 := by
  have hlt := leNat_lt (Wire.segment memory 14 4)
  rwa [Wire.segment_length] at hlt

/-- Two numbers are taken for each other if they agree in the lower half and
the upper half of the second was left in memory. -/
theorem numberRead_eq_iff (q q' : SequenceNo) (memory : Stack) :
    numberRead q memory = q' ↔
      q.toNat % 2 ^ 32 = q'.toNat % 2 ^ 32 ∧ leftover memory = q'.toNat / 2 ^ 32 := by
  have hleftover := leftover_lt memory
  have hq' : q'.toNat < 2 ^ 64 := q'.toNat_lt
  rw [numberRead, ← UInt64.toNat_inj, UInt64.toNat_ofNat']
  omega

theorem numberRead_bytes (q : SequenceNo) (memory : Stack) :
    UInt64.ofNat (leNat (u32Bytes q.toUInt32 ++ Wire.segment memory 14 4)) =
      numberRead q memory := by
  have hlow : leNat (u32Bytes q.toUInt32) = q.toNat % 2 ^ 32 := by
    rw [u32Bytes, leNat_leBytes_of_lt q.toUInt32.toNat_lt, UInt64.toNat_toUInt32]
  rw [leNat_append, hlow, u32Bytes, leBytes_length]
  rfl

theorem ControlPacket.deserialise_run (pkt : ControlPacket) {r : Reader} {rest : List UInt8}
    (hview : r.view = (Packet.control pkt).bytes ++ rest) :
    ∃ r', ControlPacket.deserialise r =
        .ok (⟨pkt.seq, pkt.mControl, numberRead pkt.mReplyTo r.stack⟩, r') ∧
      r'.view = rest := by
  rw [Packet.bytes, List.append_assoc] at hview
  obtain ⟨r₁, hheader, hview₁⟩ := deserialiseHeader_decodes _ pkt.seq r _ hview
  rw [Packet.body, ControlPacket.body, List.append_assoc] at hview₁
  obtain ⟨r₂, hcontrol, hview₂⟩ := readU8_decodes pkt.mControl.byte r₁ _ hview₁
  obtain ⟨r₃, hlow, hview₃⟩ :=
    readLow32_run ⟨u32Bytes pkt.mReplyTo.toUInt32, leBytes_length _ _⟩ hview₂
  have hupper : Wire.segment r₂.stack 4 4 = Wire.segment r.stack 14 4 := by
    rw [readU8_stack hcontrol, deserialiseHeader_stack hheader]
    rfl
  refine ⟨r₃, ?_, hview₃⟩
  rw [hupper, numberRead_bytes] at hlow
  rw [ControlPacket.deserialise, run_bind hheader, run_bind hcontrol, run_bind hlow]
  rfl

/-- What the client decodes of a reply. -/
def ControlPacket.received (pkt : ControlPacket) (memory : Stack) : Except Fault Packet :=
  let bytes := ((Packet.control pkt).serialise (MemBuffer.ofCapacity 1024)).view
  match Packet.getPacketFactory
    ⟨(MemBuffer.ofCapacity bytes.length).writeBytes bytes, memory⟩ with
  | .error fault => .error fault
  | .ok (packet, _) => .ok packet

theorem getPacketFactory_control (pkt : ControlPacket) {r : Reader} {rest : List UInt8}
    (hview : r.view = (Packet.control pkt).bytes ++ rest) :
    ∃ r', Packet.getPacketFactory r =
        .ok (.control ⟨pkt.seq, pkt.mControl, numberRead pkt.mReplyTo r.stack⟩, r') ∧
      r'.view = rest := by
  obtain ⟨r', hrun, hrest⟩ := pkt.deserialise_run hview
  have htype : peekType r = .ok (PacketType.control, r) := by
    have hcons : r.buf.view = PacketType.control.byte ::
        (u64Bytes pkt.seq ++ (Packet.control pkt).body ++ rest) := by
      rw [Packet.bytes, headerBytes, MemBuffer.u8Bytes_eq] at hview
      exact hview
    rw [peekType, hcons]
  refine ⟨r', ?_, hrest⟩
  rw [Packet.getPacketFactory, run_bind htype]
  exact run_map Packet.control hrun

theorem ControlPacket.received_eq (pkt : ControlPacket) (memory : Stack) :
    pkt.received memory =
      .ok (.control ⟨pkt.seq, pkt.mControl, numberRead pkt.mReplyTo memory⟩) := by
  have hbytes : ((Packet.control pkt).serialise (MemBuffer.ofCapacity 1024)).view =
      (Packet.control pkt).bytes := by
    rw [Packet.serialise_view, MemBuffer.ofCapacity_view, List.nil_append]
  have hview : Reader.view ⟨(MemBuffer.ofCapacity (Packet.control pkt).bytes.length).writeBytes
      (Packet.control pkt).bytes, memory⟩ = (Packet.control pkt).bytes ++ [] := by
    rw [Reader.view, MemBuffer.writeBytes_view, MemBuffer.ofCapacity_view, List.append_nil,
      List.nil_append]
  obtain ⟨r, hrun, _⟩ := getPacketFactory_control pkt hview
  unfold received
  rw [hbytes]
  simp only
  rw [hrun]

/-- The wait for the reply to request `seq` ends with `pkt` wherever that is the
next packet. -/
def Client.Accepts (seq : SequenceNo) (pkt : Packet) : Prop :=
  ∀ c : Client, c.mail.packets.head? = some pkt →
    ∃ polls c', waitUntilAck polls seq c = .ok (isAck pkt, c') ∧
      await polls (replyVerdict seq) c = .ok (pkt, c')

/-- No wait for the reply to request `seq` ends with `pkt`. -/
def Client.Refuses (seq : SequenceNo) (pkt : Packet) : Prop :=
  ∀ (polls : Nat) (c c' : Client), await polls (replyVerdict seq) c ≠ .ok (pkt, c')

theorem Client.accepts_of_isReplyTo {seq : SequenceNo} {pkt : Packet}
    (hreply : isReplyTo seq pkt = true) : Accepts seq pkt := by
  intro c hhead
  obtain ⟨rest, hpackets⟩ := List.head?_eq_some_iff.mp hhead
  have hfirst : c.mail.packets.find? (isReplyTo seq) = some pkt := by
    rw [hpackets, List.find?_cons_of_pos hreply]
  obtain ⟨polls, c', hrun⟩ := (await_reply_iff hfirst).mpr (Or.inr (by
    rw [hpackets, List.takeWhile_cons_of_neg (by simpa using hreply)]
    intro other hother
    cases hother))
  exact ⟨polls, c', run_bind hrun, hrun⟩

theorem Client.refuses_of_not_isReplyTo {seq : SequenceNo} {pkt : Packet}
    (hreply : ¬ isReplyTo seq pkt = true) : Refuses seq pkt := by
  intro polls c c' hrun
  obtain ⟨mail, hreceive⟩ := await_ok_iff.mp ⟨c', hrun⟩
  have htaken := List.find?_some (SelectiveReceive.find?_of_receive hreceive)
  rw [decide_eq_true_eq, replyVerdict_take_iff] at htaken
  exact hreply htaken

/-- What a client relies on, `memory` being what the packets that replies are
decoded into hold, by the request replied to: the reply is read as it was
written, ends the wait for it, and no reply to another request does. -/
structure ControlPacket.Answers (pkt : ControlPacket) (memory : SequenceNo → Stack) :
    Prop where
  decoded : ∃ received : ControlPacket,
    pkt.received (memory pkt.mReplyTo) = .ok (.control received) ∧
      received.mReplyTo = pkt.mReplyTo ∧ received.mControl = pkt.mControl ∧
      Client.Accepts pkt.mReplyTo (.control received)
  others : ∀ (other : ControlPacket) received, other.mReplyTo ≠ pkt.mReplyTo →
    other.received (memory other.mReplyTo) = .ok received →
    Client.Refuses pkt.mReplyTo received

theorem ControlPacket.answers_iff (pkt : ControlPacket) (memory : SequenceNo → Stack) :
    pkt.Answers memory ↔ ∀ q, numberRead q (memory q) = pkt.mReplyTo ↔ q = pkt.mReplyTo := by
  constructor
  · intro hanswers q
    constructor
    · intro hread
      by_contra hne
      have hrefuses := hanswers.others ⟨0, .ack, q⟩ _ hne (received_eq _ _)
      have haccepts : Client.Accepts pkt.mReplyTo
          (.control ⟨0, .ack, numberRead q (memory q)⟩) :=
        Client.accepts_of_isReplyTo (by simpa [Client.isReplyTo] using hread)
      obtain ⟨polls, c', _, hrun⟩ := haccepts (Client.afterArrivals [_]) rfl
      exact hrefuses polls _ c' hrun
    · rintro rfl
      obtain ⟨received, hrun, hnumber, _⟩ := hanswers.decoded
      rw [received_eq, Except.ok.injEq, Packet.control.injEq] at hrun
      subst hrun
      exact hnumber
  · intro hread
    constructor
    · have hself := (hread pkt.mReplyTo).mpr rfl
      exact ⟨_, received_eq _ _, hself, rfl,
        Client.accepts_of_isReplyTo (by simpa [Client.isReplyTo] using hself)⟩
    · intro other received hne hrun
      rw [received_eq, Except.ok.injEq] at hrun
      rw [← hrun]
      apply Client.refuses_of_not_isReplyTo
      simpa [Client.isReplyTo, hread other.mReplyTo] using hne

namespace Server

/-- What `handleLogin` replies. -/
def loginReply (hash : Str → UInt64) (env : ServerEnv) (sid : SID) (pkt : FieldReqPacket)
    (s : Server) : ControlPacket :=
  ⟨env.replySeq, (login hash sid pkt.mField s).1, pkt.seq⟩

/-- The reply to a login is right exactly if the memory it is read into held the
upper half of the request's number, and that of no reply to a request with the
same lower half does. -/
theorem loginReply_answers_iff (P : Primitives) (hash : Str → UInt64) (env : ServerEnv)
    (sid : SID) (pkt : FieldReqPacket) (s : Server) (memory : SequenceNo → Stack) :
    handleLogin P hash env sid pkt s =
        sendPacket P env sid (.control (loginReply hash env sid pkt s))
          (login hash sid pkt.mField s).2 ∧
      ((loginReply hash env sid pkt s).Answers memory ↔
        leftover (memory pkt.seq) = pkt.seq.toNat / 2 ^ 32 ∧
          ∀ other : SequenceNo, other ≠ pkt.seq →
            other.toNat % 2 ^ 32 = pkt.seq.toNat % 2 ^ 32 →
            leftover (memory other) ≠ pkt.seq.toNat / 2 ^ 32) := by
  refine ⟨handleLogin_eq env sid pkt s, ?_⟩
  rw [ControlPacket.answers_iff]
  change (∀ q, numberRead q (memory q) = pkt.seq ↔ q = pkt.seq) ↔ _
  simp only [numberRead_eq_iff]
  constructor
  · intro hread
    refine ⟨((hread pkt.seq).mpr rfl).2, fun other hne hlow hupper => ?_⟩
    exact hne ((hread other).mp ⟨hlow, hupper⟩)
  · rintro ⟨hself, hothers⟩ q
    constructor
    · rintro ⟨hlow, hupper⟩
      by_contra hne
      exact hothers q hne hlow hupper
    · rintro rfl
      exact ⟨rfl, hself⟩

def sampleLogin : FieldReqPacket := ⟨5, .setUsername, .empty⟩

/-- The reply to request 5 read into memory that holds ones is taken for one to
another request, and the reply to request `2 ^ 32` read into zeros is too. -/
theorem loginReply_not_answers :
    ¬ (loginReply (fun _ => 0) ⟨Block.zero 12, 0, 0⟩ 0 sampleLogin fresh).Answers
        (fun _ _ => 255) ∧
      numberRead 5 (fun _ => 255) = 0xFFFFFFFF00000005 ∧
      numberRead 0x100000000 (fun _ => 0) = 0 := by
  refine ⟨?_, by decide, by decide⟩
  rw [ControlPacket.answers_iff]
  intro hread
  have hself := (hread 5).mpr rfl
  exact absurd hself (by decide)

end Server

end LeakyChat

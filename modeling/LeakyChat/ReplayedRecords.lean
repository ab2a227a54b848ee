/-
An established connection whose records an attacker has on tape.  No number in a
packet is looked at and both directions have one key, so each record is taken
wherever and however often it is played back.
-/
import LeakyChat.Library.Rekey
import LeakyChat.Library.Transition
import LeakyChat.RecordStream
import LeakyChat.ReplyNumbers

namespace LeakyChat

open Transition
open Rekey (Side)

/-- The packet that is read has the class of the one that was written, and is that one
unless its class loses fields on the way. -/
structure Packet.ReadAs (written read : Packet) : Prop where
  type : read.mPacketType = written.mPacketType
  whole : written.mPacketType ∈ wholeClasses → read = written

theorem Packet.ReadAs.message {written : Packet} {msg : MessagePacket}
    (hread : written.ReadAs (.message msg)) : written = .message msg := by
  have hclass : written.mPacketType ∈ wholeClasses := by
    rw [← hread.type]
    exact (by decide : PacketType.message ∈ wholeClasses)
  exact (hread.whole hclass).symm

/-- The factory makes a packet of the bytes of any packet. -/
theorem getPacketFactory_readAs (pkt : Packet) {r : Reader} (hview : r.view = pkt.bytes) :
    ∃ pkt' r', Packet.getPacketFactory r = .ok (pkt', r') ∧ pkt.ReadAs pkt' := by
  have hrest : r.view = pkt.bytes ++ [] := by
    rw [hview, List.append_nil]
  by_cases hclass : pkt.mPacketType ∈ wholeClasses
  · obtain ⟨r', hrun, _⟩ := pkt.bytes_decodes hclass r [] hrest
    exact ⟨pkt, r', hrun, rfl, fun _ => rfl⟩
  · cases pkt with
    | error seq =>
        have hcons : r.buf.view =
            PacketType.error.byte :: (u64Bytes seq ++ (Packet.error seq).body) := by
          rw [Packet.bytes, headerBytes, MemBuffer.u8Bytes_eq] at hview
          exact hview
        have htype : peekType r = .ok (PacketType.error, r) := by
          rw [peekType, hcons]
        refine ⟨.error 0, r, ?_, rfl, fun hwhole => absurd hwhole hclass⟩
        rw [Packet.getPacketFactory, Program.run_bind htype]
        rfl
    | control pkt =>
        obtain ⟨r', hrun, _⟩ := getPacketFactory_control pkt hrest
        exact ⟨_, r', hrun, rfl, fun hwhole => absurd hwhole hclass⟩
    | message pkt => exact absurd (show PacketType.message ∈ wholeClasses by decide) hclass
    | request pkt => exact absurd (show PacketType.request ∈ wholeClasses by decide) hclass
    | fieldReq pkt => exact absurd (show PacketType.fieldReq ∈ wholeClasses by decide) hclass
    | userList pkt => exact absurd (show PacketType.userList ∈ wholeClasses by decide) hclass
    | connectionSetup pkt =>
        exact absurd (show PacketType.connectionSetup ∈ wholeClasses by decide) hclass

/-- A packet, and the bytes `sendPacket` has put on the network for it. -/
structure Record where
  packet : Packet
  bytes : List UInt8

/-- The two handlers of a connection, the records of what each has sent, those the
attacker has delivered to each, and the packets each has received. -/
structure TappedConnection where
  handler : Side → NetworkHandler
  sent : Side → List Record
  delivered : Side → List Record
  received : Side → List Packet

namespace TappedConnection

inductive Action where
  | send (side : Side) (nonce : Nonce) (packet : Packet) (bytesSent : Int)
  | deliver (side origin : Side) (record : Record) (chunk : Chunk) (stack : Stack)
  | poll (side : Side) (stack : Stack)

variable (P : Primitives)

/-- One end has called `receivePacket`. -/
def receive (t : TappedConnection) (side : Side) (records : List Record)
    (result : NetworkHandler × Except Fault (Option Packet)) : TappedConnection :=
  { t with
    handler := Function.update t.handler side result.1
    delivered := Function.update t.delivered side (t.delivered side ++ records)
    received := Function.update t.received side
      (t.received side ++ result.2.toOption.join.toList) }

/-- The attacker delivers, to either end, whole records that either end has sent; what it
never delivers is lost. -/
inductive Step : TappedConnection → Action → TappedConnection → Prop
  | send {t : TappedConnection} {side : Side} {nonce : Nonce} {packet : Packet}
      {bytesSent : Int} {bytes : List UInt8}
      (hsend : (t.handler side).sendPacket P nonce packet bytesSent = .ok (0, some bytes)) :
      Step t (.send side nonce packet bytesSent)
        { t with sent := Function.update t.sent side (t.sent side ++ [⟨packet, bytes⟩]) }
  | deliver {t : TappedConnection} {side origin : Side} {record : Record} {chunk : Chunk}
      {stack : Stack} (hrecord : record ∈ t.sent origin) (hchunk : chunk.1 = record.bytes) :
      Step t (.deliver side origin record chunk stack)
        (t.receive side [record] ((t.handler side).receivePacket P (.chunk chunk) stack))
  | poll {t : TappedConnection} {side : Side} {stack : Stack} :
      Step t (.poll side stack)
        (t.receive side [] ((t.handler side).receivePacket P .idle stack))

/-- Both ends are established under one key, and nothing has been sent. -/
def system : System TappedConnection Action where
  init t := ∃ key, ∀ side, (∃ c, (t.handler side).EstablishedWith c ∧ c.mKey = key) ∧
    t.sent side = [] ∧ t.delivered side = [] ∧ t.received side = []
  step := Step P

/-- The record is the packet under the key. -/
def Sealed (key : Key) (record : Record) : Prop :=
  ∃ nonce, ∃ plaintext : Str, plaintext.1 = record.packet.bytes ∧
    record.bytes = (P.encrypt key nonce plaintext).bytes

structure Good (key : Key) (t : TappedConnection) : Prop where
  handler : ∀ side, ∃ c, (t.handler side).EstablishedWith c ∧ c.mKey = key
  sent : ∀ side, ∀ record ∈ t.sent side, Sealed P key record
  delivered : ∀ side, ∀ record ∈ t.delivered side, ∃ origin, record ∈ t.sent origin
  received : ∀ side,
    List.Forall₂ (fun record pkt => record.packet.ReadAs pkt) (t.delivered side) (t.received side)

variable {P} {key : Key} {t t' : TappedConnection}

/-- A record is received as its packet, and leaves the handler as it was. -/
theorem receivePacket_sealed (hopens : P.GcmOpensSealed) {h : NetworkHandler} {c : CryptoSession}
    (hh : h.EstablishedWith c) {record : Record} (hsealed : Sealed P c.mKey record)
    {chunk : Chunk} (hchunk : chunk.1 = record.bytes) (stack : Stack) :
    ∃ pkt, h.receivePacket P (.chunk chunk) stack = (h, .ok (some pkt)) ∧
      record.packet.ReadAs pkt := by
  obtain ⟨nonce, plaintext, htext, hbytes⟩ := hsealed
  obtain ⟨memory, hincoming⟩ := hh.incoming_sealed hopens nonce plaintext stack
  obtain ⟨pkt, r, hfactory, hread⟩ := getPacketFactory_readAs record.packet
    (r := ⟨(MemBuffer.ofCapacity plaintext.1.length).writeBytes plaintext.1, memory⟩)
    (by simp [Reader.view, htext])
  refine ⟨pkt, ?_, hread⟩
  have hpkt : h.incoming P chunk.1 stack = .ok pkt := by
    rw [hchunk, hbytes, hincoming, hfactory]
    rfl
  rw [NetworkHandler.receivePacket, if_pos hh.ready]
  simp only [hpkt]

/-- A call of `receivePacket` that returns what its records say. -/
theorem Good.receive (hgood : Good P key t) {side : Side} {records : List Record}
    {result : Except Fault (Option Packet)}
    (hrecords : ∀ record ∈ records, ∃ origin, record ∈ t.sent origin)
    (hresult : List.Forall₂ (fun record pkt => record.packet.ReadAs pkt) records
      result.toOption.join.toList) :
    Good P key (t.receive side records (t.handler side, result)) := by
  have hhandler : (t.receive side records (t.handler side, result)).handler = t.handler :=
    Function.update_eq_self _ _
  refine ⟨?_, hgood.sent, ?_, ?_⟩
  · rw [hhandler]
    exact hgood.handler
  · intro x record hrecord
    by_cases hx : x = side
    · subst hx
      simp only [TappedConnection.receive, Function.update_self, List.mem_append] at hrecord
      exact hrecord.elim (hgood.delivered x record) (hrecords record)
    · simp only [TappedConnection.receive, Function.update_of_ne hx] at hrecord
      exact hgood.delivered x record hrecord
  · intro x
    by_cases hx : x = side
    · subst hx
      simp only [TappedConnection.receive, Function.update_self]
      exact List.rel_append (hgood.received x) hresult
    · simp only [TappedConnection.receive, Function.update_of_ne hx]
      exact hgood.received x

theorem good_step (hopens : P.GcmOpensSealed) (hgood : Good P key t) {action : Action}
    (hstep : Step P t action t') : Good P key t' := by
  cases hstep with
  | @send side nonce packet bytesSent bytes hsend =>
      obtain ⟨c, hc, hkey⟩ := hgood.handler side
      obtain ⟨plaintext, htext, hbytes⟩ := hc.sendPacket_ok hsend
      rw [hkey] at hbytes
      have hmono : ∀ x, t.sent x ⊆
          Function.update t.sent side (t.sent side ++ [⟨packet, bytes⟩]) x := by
        intro x record hrecord
        by_cases hx : x = side
        · subst hx
          rw [Function.update_self]
          exact List.mem_append_left _ hrecord
        · rwa [Function.update_of_ne hx]
      refine ⟨hgood.handler, ?_, ?_, hgood.received⟩
      · intro x record hrecord
        by_cases hx : x = side
        · subst hx
          simp only [Function.update_self, List.mem_append, List.mem_singleton] at hrecord
          rcases hrecord with hrecord | rfl
          · exact hgood.sent x record hrecord
          · exact ⟨nonce, plaintext, htext, hbytes⟩
        · simp only [Function.update_of_ne hx] at hrecord
          exact hgood.sent x record hrecord
      · intro x record hrecord
        obtain ⟨origin, horigin⟩ := hgood.delivered x record hrecord
        exact ⟨origin, hmono origin horigin⟩
  | @deliver side origin record chunk stack hrecord hchunk =>
      obtain ⟨c, hc, hkey⟩ := hgood.handler side
      have hsealed := hgood.sent origin record hrecord
      rw [← hkey] at hsealed
      obtain ⟨pkt, hreceive, hread⟩ := receivePacket_sealed hopens hc hsealed hchunk stack
      rw [hreceive]
      exact hgood.receive (by simpa using ⟨origin, hrecord⟩)
        (List.Forall₂.cons hread List.Forall₂.nil)
  | @poll side stack =>
      obtain ⟨c, hc, _⟩ := hgood.handler side
      have hreceive : (t.handler side).receivePacket P .idle stack =
          (t.handler side, .ok none) := by
        rw [NetworkHandler.receivePacket, if_pos hc.ready]
      rw [hreceive]
      exact hgood.receive (by simp) List.Forall₂.nil

theorem good_of_reachable (hopens : P.GcmOpensSealed) (hreach : Reachable (system P) t) :
    ∃ key, Good P key t := by
  apply hreach.invariant
  · rintro start ⟨key, hstart⟩
    refine ⟨key, fun side => (hstart side).1, ?_, ?_, ?_⟩
    · intro side record hrecord
      rw [(hstart side).2.1] at hrecord
      cases hrecord
    · intro side record hrecord
      rw [(hstart side).2.2.1] at hrecord
      cases hrecord
    · intro side
      rw [(hstart side).2.2.1, (hstart side).2.2.2]
      exact List.Forall₂.nil
  · rintro s action t ⟨key, hgood⟩ hstep
    exact ⟨key, good_step hopens hgood hstep⟩

theorem map_packet_eq {records : List Record} {packets : List Packet}
    (hread : List.Forall₂ (fun record pkt => record.packet.ReadAs pkt) records packets)
    (hwhole : ∀ record ∈ records, record.packet.mPacketType ∈ wholeClasses) :
    packets = records.map (·.packet) := by
  induction hread with
  | nil => rfl
  | cons hhead _ ih =>
      rw [List.forall_mem_cons] at hwhole
      rw [List.map_cons, hhead.whole hwhole.1, ← ih hwhole.2]

/-- What one end has received is, packet for packet, what was delivered to it, all of it
sent at one end or the other.  It is a subsequence of what the other end sent as far as
the attacker only drops records of that end. -/
theorem received_of_delivered (hopens : P.GcmOpensSealed) (hreach : Reachable (system P) t)
    (side : Side) :
    List.Forall₂ (fun record pkt => record.packet.ReadAs pkt) (t.delivered side)
      (t.received side) ∧
    (∀ record ∈ t.delivered side, ∃ origin, record ∈ t.sent origin) ∧
    ((∀ record ∈ t.delivered side, record.packet.mPacketType ∈ wholeClasses) →
      (t.delivered side).Sublist (t.sent side.other) →
        (t.received side).Sublist ((t.sent side.other).map (·.packet))) := by
  obtain ⟨key, hgood⟩ := good_of_reachable hopens hreach
  refine ⟨hgood.received side, hgood.delivered side, ?_⟩
  intro hwhole hsublist
  rw [map_packet_eq (hgood.received side) hwhole]
  exact hsublist.map _

theorem exists_recorded : ∃ t record, Reachable (system .clear) t ∧
    t.sent .left = [record] ∧ t.sent .right = [] ∧ (∀ side, t.delivered side = []) ∧
    record.packet.mPacketType ∈ wholeClasses ∧ ∃ chunk : Chunk, chunk.1 = record.bytes := by
  let start : TappedConnection :=
    ⟨fun _ => Sample.handler, fun _ => [], fun _ => [], fun _ => []⟩
  have hhandler : ∃ c, Sample.handler.EstablishedWith c ∧ c.mKey = Sample.session.mKey :=
    ⟨Sample.session, Sample.handler_established, rfl⟩
  have hstart : Reachable (system .clear) start :=
    Reachable.of_init ⟨_, fun _ => ⟨hhandler, rfl, rfl, rfl⟩⟩
  let bytes := (Primitives.clear.encrypt Sample.session.mKey (Sample.nonce 1) (Sample.text 1)).bytes
  have hsend : Sample.handler.sendPacket .clear (Sample.nonce 1) (.message (Sample.message 1)) 0 =
      .ok (0, some bytes) :=
    Sample.handler_established.sendPacket_eq (Sample.nonce 1) rfl (Int.le_refl 0)
  have hlength : bytes.length = 72 :=
    (EncryptedData.bytes_length _).trans (congrArg (· + 36) (Sample.bytes_length 1))
  have hchunk : bytes ≠ [] ∧ bytes.length ≤ recvBufferSize := by
    rw [ne_eq, ← List.length_eq_zero_iff, hlength]
    decide
  have hstep : (system .clear).step start
      (.send .left (Sample.nonce 1) (.message (Sample.message 1)) 0) _ := Step.send hsend
  have hclass : PacketType.message ∈ wholeClasses := by
    decide
  exact ⟨_, ⟨.message (Sample.message 1), bytes⟩, hstart.step hstep, rfl, rfl, fun _ => rfl,
    hclass, ⟨bytes, hchunk⟩, rfl⟩

theorem exists_delivered (hreach : Reachable (system P) t) (side : Side) {origin : Side}
    {record : Record} (hrecord : record ∈ t.sent origin) {chunk : Chunk}
    (hchunk : chunk.1 = record.bytes) : ∃ t', Reachable (system P) t' ∧ t'.sent = t.sent ∧
      t'.delivered = Function.update t.delivered side (t.delivered side ++ [record]) := by
  have hstep : (system P).step t (.deliver side origin record chunk fun _ => 0) _ :=
    Step.deliver hrecord hchunk
  exact ⟨_, hreach.step hstep, rfl, rfl⟩

theorem received_of_delivered_sample : ∃ t record, Reachable (system .clear) t ∧
    t.delivered .right = [record] ∧
    (t.received .right).Sublist ((t.sent .left).map (·.packet)) := by
  obtain ⟨t, record, hreach, hleft, _, hnone, hwhole, chunk, hchunk⟩ := exists_recorded
  have hrecord : record ∈ t.sent .left := by
    rw [hleft]
    exact List.mem_singleton_self record
  obtain ⟨u, hu, hsent, hdelivered⟩ := exists_delivered hreach .right hrecord hchunk
  have hright : u.delivered .right = [record] := by
    rw [hdelivered, Function.update_self, hnone, List.nil_append]
  refine ⟨u, record, hu, hright, ?_⟩
  apply (received_of_delivered Primitives.clear_gcmOpensSealed hu .right).2.2
  · rw [hright]
    exact List.forall_mem_singleton.mpr hwhole
  · rw [hright, hsent]
    exact hleft ▸ List.Sublist.refl _

/-- The attacker delivers the one record there is twice to the other end, and once to the
end it comes from. -/
theorem received_twice_and_reflected : ∃ t, Reachable (system .clear) t ∧
    ¬ (t.received .right).Sublist ((t.sent .left).map (·.packet)) ∧
    ¬ (t.received .left).Sublist ((t.sent .right).map (·.packet)) := by
  obtain ⟨t, record, hreach, hleft, hright, hnone, hwhole, chunk, hchunk⟩ := exists_recorded
  have hrecord : record ∈ t.sent .left := by
    rw [hleft]
    exact List.mem_singleton_self record
  obtain ⟨u, hu, huSent, huDelivered⟩ := exists_delivered hreach .right hrecord hchunk
  obtain ⟨v, hv, hvSent, hvDelivered⟩ :=
    exists_delivered hu .right (huSent.symm ▸ hrecord) hchunk
  obtain ⟨w, hw, hwSent, hwDelivered⟩ :=
    exists_delivered hv .left (hvSent.symm ▸ huSent.symm ▸ hrecord) hchunk
  obtain ⟨key, hgood⟩ := good_of_reachable Primitives.clear_gcmOpensSealed hw
  have htwice : w.delivered .right = [record, record] := by
    simp [hwDelivered, hvDelivered, huDelivered, hnone]
  have honce : w.delivered .left = [record] := by
    simp [hwDelivered, hvDelivered, huDelivered, hnone]
  have hlength : ∀ side, (w.received side).length = (w.delivered side).length :=
    fun side => (hgood.received side).length_eq.symm
  refine ⟨w, hw, ?_, ?_⟩
  · intro hsublist
    have hle := hsublist.length_le
    rw [hlength, htwice, hwSent, hvSent, huSent, hleft] at hle
    exact absurd hle (Nat.not_succ_le_self 1)
  · intro hsublist
    have hle := hsublist.length_le
    rw [hlength, honce, hwSent, hvSent, huSent, hright] at hle
    exact absurd hle (Nat.not_succ_le_zero 0)

end TappedConnection

end LeakyChat

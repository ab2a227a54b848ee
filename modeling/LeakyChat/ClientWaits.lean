/-
Where the waits of the client end.  `poll` serves the queue before the socket,
and a packet that is put back into the queue keeps it from being empty, so a
wait that has put one back never looks at the socket again.
-/
import LeakyChat.Client

namespace LeakyChat

open Program
open SelectiveReceive

namespace Client

def isReplyTo (seq : SequenceNo) : Packet → Bool
  | .control ctlPkt => ctlPkt.mReplyTo = seq
  | _ => false

theorem replyVerdict_take_iff (seq : SequenceNo) (pkt : Packet) :
    replyVerdict seq pkt = .take ↔ isReplyTo seq pkt = true := by
  cases pkt with
  | control ctlPkt =>
      by_cases hseq : ctlPkt.mReplyTo = seq <;> simp [replyVerdict, isReplyTo, hseq]
  | _ => simp [replyVerdict, isReplyTo]

theorem replyVerdict_keep_iff (seq : SequenceNo) (pkt : Packet) :
    replyVerdict seq pkt = .keep ↔ pkt.mPacketType ≠ .control := by
  cases pkt with
  | control ctlPkt =>
      by_cases hseq : ctlPkt.mReplyTo = seq <;>
        simp [replyVerdict, hseq, Packet.mPacketType]
  | _ => simp [replyVerdict, Packet.mPacketType, PacketType.control, PacketType.message,
      PacketType.error, PacketType.request, PacketType.fieldReq, PacketType.userList,
      PacketType.connectionSetup]

theorem await_ok_iff {polls : Nat} {verdict : Packet → Verdict} {c : Client}
    {pkt : Packet} :
    (∃ c', await polls verdict c = .ok (pkt, c')) ↔
      ∃ mail, receive verdict polls c.mail = some (pkt, mail) := by
  unfold await
  cases receive verdict polls c.mail with
  | none => simp
  | some result =>
      obtain ⟨pkt', mail⟩ := result
      simp

/-- Where `waitForPred` and `waitForType` get to the first packet they want. -/
theorem await_keep_iff {wanted : Packet → Prop} [DecidablePred wanted] {c : Client}
    {first : Packet} (hfirst : c.mail.packets.find? (fun pkt => wanted pkt) = some first) :
    (∃ polls c', await polls (fun pkt => if wanted pkt then .take else .keep) c =
        .ok (first, c')) ↔
      (∃ pkt, some pkt ∈ c.mail.queue ∧ wanted pkt) ∨
        c.mail.packets.head? = some first := by
  have htake : ∀ pkt : Packet,
      (if wanted pkt then Verdict.take else .keep) = .take ↔ wanted pkt := by
    intro pkt
    by_cases hpkt : wanted pkt <;> simp [hpkt]
  have hkeep : ∀ pkt : Packet, (if wanted pkt then Verdict.take else .keep) = .take ∨
      (if wanted pkt then Verdict.take else .keep) = .keep := by
    intro pkt
    by_cases hpkt : wanted pkt <;> simp [hpkt]
  have hfind : c.mail.packets.find?
      (fun pkt => (if wanted pkt then Verdict.take else .keep) = .take) = some first := by
    simpa only [htake] using hfirst
  have hreceive := receive_first_iff_of_keep hkeep hfind
  simp only [htake] at hreceive
  rw [← hreceive]
  exact exists_congr fun polls => await_ok_iff

/-- Where `waitUntilAck` gets to the first reply to its request. -/
theorem await_reply_iff {seq : SequenceNo} {c : Client} {first : Packet}
    (hfirst : c.mail.packets.find? (isReplyTo seq) = some first) :
    (∃ polls c', await polls (replyVerdict seq) c = .ok (first, c')) ↔
      (∃ pkt, some pkt ∈ c.mail.queue ∧ isReplyTo seq pkt = true) ∨
        ∀ pkt ∈ c.mail.packets.takeWhile (fun pkt => ¬ isReplyTo seq pkt),
          pkt.mPacketType = .control := by
  have htake : (fun pkt => decide (replyVerdict seq pkt = .take)) = isReplyTo seq := by
    funext pkt
    rw [Bool.eq_iff_iff, decide_eq_true_eq]
    exact replyVerdict_take_iff seq pkt
  rw [← htake] at hfirst
  have hreceive := receive_first_iff hfirst
  simp only [replyVerdict_take_iff, earlier, ne_eq, replyVerdict_keep_iff,
    not_not] at hreceive
  rw [← hreceive]
  exact exists_congr fun polls => await_ok_iff

/-- With the packet a wait looks for queued or arrived, the wait stops and
yields the first such packet exactly if one is queued already, or no packet in
front of the first one is put back. -/
theorem waits_yield_first_iff (c : Client) :
    (∀ (pred : Packet → Bool) first, c.mail.packets.find? pred = some first →
      ((∃ polls c', waitForPred polls pred c = .ok (first, c')) ↔
        (∃ pkt, some pkt ∈ c.mail.queue ∧ pred pkt = true) ∨
          c.mail.packets.head? = some first)) ∧
    (∀ type first, c.mail.packets.find? (·.mPacketType = type) = some first →
      ((∃ polls c', waitForType polls type c = .ok (first, c')) ↔
        (∃ pkt, some pkt ∈ c.mail.queue ∧ pkt.mPacketType = type) ∨
          c.mail.packets.head? = some first)) ∧
    ∀ seq ctlPkt, c.mail.packets.find? (isReplyTo seq) = some (.control ctlPkt) →
      ((∃ polls c', waitUntilAck polls seq c =
          .ok (decide (ctlPkt.mControl = .ack), c')) ↔
        (∃ pkt, some pkt ∈ c.mail.queue ∧ isReplyTo seq pkt = true) ∨
          ∀ pkt ∈ c.mail.packets.takeWhile (fun pkt => ¬ isReplyTo seq pkt),
            pkt.mPacketType = .control) := by
  refine ⟨?_, ?_, ?_⟩
  · intro pred first hfirst
    exact await_keep_iff (by simpa using hfirst)
  · intro type first hfirst
    exact await_keep_iff hfirst
  · intro seq ctlPkt hfirst
    rw [← await_reply_iff hfirst]
    constructor
    · rintro ⟨polls, c', hrun⟩
      obtain ⟨pkt, c₁, hawait, _⟩ := of_run_bind hrun
      obtain ⟨mail, hreceive⟩ := await_ok_iff.mp ⟨c₁, hawait⟩
      have hsame := find?_of_receive hreceive
      simp only [replyVerdict_take_iff, Bool.decide_eq_true] at hsame
      rw [hfirst, Option.some.injEq] at hsame
      subst hsame
      exact ⟨polls, c₁, hawait⟩
    · rintro ⟨polls, c', hrun⟩
      exact ⟨polls, c', run_bind hrun⟩

def sampleMessage : Packet := .message ⟨1, .empty, .empty, ⟨.plainText, .empty⟩⟩

def sampleReply (seq : SequenceNo) : Packet := .control ⟨0, .ack, seq⟩

def sampleUserList : Packet := .userList ⟨0, ⟨[], by decide⟩⟩

/-- The queue is empty and these packets have arrived. -/
def afterArrivals (pkts : List Packet) : Client :=
  { fresh with mail := ⟨[], pkts.map some⟩ }

theorem waits_yield_first_iff_sample :
    ((∃ polls c', waitForType polls .userList (afterArrivals [sampleUserList]) =
        .ok (sampleUserList, c')) ↔
      (∃ pkt, some pkt ∈ (afterArrivals [sampleUserList]).mail.queue ∧
        pkt.mPacketType = .userList) ∨
      (afterArrivals [sampleUserList]).mail.packets.head? = some sampleUserList) ∧
    ((∃ polls c', waitUntilAck polls 2 (afterArrivals [sampleReply 1, sampleReply 2]) =
        .ok (decide (ControlField.ack = .ack), c')) ↔
      (∃ pkt, some pkt ∈ (afterArrivals [sampleReply 1, sampleReply 2]).mail.queue ∧
        isReplyTo 2 pkt = true) ∨
      ∀ pkt ∈ (afterArrivals [sampleReply 1, sampleReply 2]).mail.packets.takeWhile
        (fun pkt => ¬ isReplyTo 2 pkt), pkt.mPacketType = .control) :=
  ⟨(waits_yield_first_iff (afterArrivals [sampleUserList])).2.1 .userList sampleUserList
      (by decide),
    (waits_yield_first_iff (afterArrivals [sampleReply 1, sampleReply 2])).2.2 2
      ⟨0, .ack, 2⟩ (by decide)⟩

/-- The user list has arrived behind a message, and no number of polls yields it. -/
theorem waitForType_behind_message :
    (afterArrivals [sampleMessage, sampleUserList]).mail.packets.find?
        (·.mPacketType = .userList) = some sampleUserList ∧
      ∀ polls result, waitForType polls .userList
        (afterArrivals [sampleMessage, sampleUserList]) ≠ .ok result := by
  refine ⟨by decide, ?_⟩
  rintro polls ⟨pkt, c'⟩ hrun
  obtain ⟨mail, hreceive⟩ := await_ok_iff.mp ⟨c', hrun⟩
  have hstuck : Stuck (fun pkt => if pkt.mPacketType = .userList then .take else .keep)
      (afterArrivals [sampleMessage, sampleUserList]).mail :=
    ⟨by simp [afterArrivals], sampleMessage, by decide, by decide⟩
  rw [receive_of_stuck hstuck] at hreceive
  cases hreceive

end Client

end LeakyChat

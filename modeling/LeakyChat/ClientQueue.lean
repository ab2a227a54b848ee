/-
What the waits of the client leave in `pktQueue`: in which order, and whether
all of it.
-/
import LeakyChat.ClientWaits
import LeakyChat.Library.Requeue

namespace LeakyChat

open Program Transition
open SelectiveReceive

namespace Client

/-- A CONTROL packet that answers another request. -/
def AnswersOther (seq : SequenceNo) (pkt : Packet) : Prop :=
  pkt.mPacketType = .control ∧ isReplyTo seq pkt = false

theorem replyVerdict_lose_iff (seq : SequenceNo) (pkt : Packet) :
    replyVerdict seq pkt = .lose ↔ AnswersOther seq pkt := by
  have htake := replyVerdict_take_iff seq pkt
  have hkeep := replyVerdict_keep_iff seq pkt
  unfold AnswersOther
  cases hverdict : replyVerdict seq pkt with
  | take =>
      rw [hverdict] at htake
      simp [htake.mp rfl]
  | keep =>
      rw [hverdict] at hkeep
      simp [hkeep.mp rfl]
  | lose =>
      rw [hverdict] at htake hkeep
      simpa using And.intro hkeep htake

theorem receive_of_await {polls : Nat} {verdict : Packet → Verdict} {c c' : Client}
    {pkt : Packet} (hrun : await polls verdict c = .ok (pkt, c')) :
    receive verdict polls c.mail = some (pkt, c'.mail) := by
  unfold await at hrun
  split at hrun
  · rename_i pkt' mail hreceive
    rw [Except.ok.injEq, Prod.mk.injEq] at hrun
    obtain ⟨rfl, rfl⟩ := hrun
    exact hreceive
  · cases hrun

/-- A wait leaves `pktQueue` in the order of arrival exactly if what was queued in
front of the packet it returns and what was queued behind it repeat the same
packets, as they do where there are none on one side. -/
theorem waits_keepOrder_iff (c : Client) (polls : Nat) :
    (∀ (pred : Packet → Bool) pkt c', waitForPred polls pred c = .ok (pkt, c') →
      (KeepsOrder pred c.mail c'.mail ↔ Alike (front pred c.mail) (behind pred c.mail))) ∧
    ∀ type pkt c', waitForType polls type c = .ok (pkt, c') →
      (KeepsOrder (·.mPacketType = type) c.mail c'.mail ↔
        Alike (front (·.mPacketType = type) c.mail) (behind (·.mPacketType = type) c.mail)) := by
  constructor
  · intro pred pkt c' hrun
    exact keepsOrder_iff (fun _ => rfl) (receive_of_await hrun)
  · intro type pkt c' hrun
    exact keepsOrder_iff (fun pkt => by simp only [decide_eq_true_eq]) (receive_of_await hrun)

/-- A client with these packets queued and nothing on its socket. -/
def afterQueued (pkts : List Packet) : Client :=
  { fresh with mail := ⟨pkts.map some, []⟩ }

theorem waits_keepOrder_iff_sample :
    waitForType 2 .userList (afterQueued [sampleMessage, sampleUserList]) =
        .ok (sampleUserList, afterQueued [sampleMessage]) ∧
      KeepsOrder (·.mPacketType = .userList)
        (afterQueued [sampleMessage, sampleUserList]).mail (afterQueued [sampleMessage]).mail := by
  have hrun : waitForType 2 .userList (afterQueued [sampleMessage, sampleUserList]) =
      .ok (sampleUserList, afterQueued [sampleMessage]) := rfl
  exact ⟨hrun, ((waits_keepOrder_iff _ 2).2 .userList _ _ hrun).mpr (alike_nil_right _)⟩

/-- An INIT and the text that was sent after it. -/
def queuedInit : Packet := .message ⟨1, .empty, .empty, ⟨.e2eInit, .empty⟩⟩

def queuedText : Packet := .message ⟨2, .empty, .empty, ⟨.e2eMsg, .empty⟩⟩

/-- Two messages of one peer with the user list between them: the wait for the list
leaves the later message in front of the earlier one. -/
theorem waitForType_swaps :
    waitForType 2 .userList (afterQueued [queuedInit, sampleUserList, queuedText]) =
        .ok (sampleUserList, afterQueued [queuedText, queuedInit]) ∧
      ¬ KeepsOrder (·.mPacketType = .userList)
        (afterQueued [queuedInit, sampleUserList, queuedText]).mail
        (afterQueued [queuedText, queuedInit]).mail := by
  refine ⟨rfl, ?_⟩
  rintro ⟨arrived, hsocket, hkept⟩
  have hnone : arrived = [] := by simpa [afterQueued] using hsocket
  rw [hnone] at hkept
  exact absurd hkept (by decide)

/-- A call of `waitUntilAck` that returns has gone through its turns.  At any point
of them every packet is accounted for, and no null pointer has been pushed,
exactly if no CONTROL packet that answers another request was looked at. -/
theorem waitUntilAck_conserves_iff (seq : SequenceNo) (c : Client) :
    (∀ polls result c', waitUntilAck polls seq c = .ok (result, c') →
      ∃ turns reply, Run (waiting (replyVerdict seq)) ⟨c.mail, none⟩ turns
        ⟨c'.mail, some reply⟩ ∧ isReplyTo seq reply = true ∧ result = isAck reply) ∧
    ∀ turns w, Run (waiting (replyVerdict seq)) ⟨c.mail, none⟩ turns w →
      (Conserves c.mail w ↔
        ∀ turn ∈ turns, ∀ pkt ∈ turn.examined, ¬ AnswersOther seq pkt) ∧
      ((∀ turn ∈ turns, turn.pushed ≠ some none) ↔
        ∀ turn ∈ turns, ∀ pkt ∈ turn.examined, ¬ AnswersOther seq pkt) := by
  constructor
  · intro polls result c' hrun
    obtain ⟨reply, c₁, hawait, hreturn⟩ := of_run_bind hrun
    cases hreturn
    have hreceive := receive_of_await hawait
    obtain ⟨turns, hturns⟩ := run_of_receive hreceive
    have htaken := List.find?_some (find?_of_receive hreceive)
    rw [decide_eq_true_eq, replyVerdict_take_iff] at htaken
    exact ⟨turns, reply, hturns, htaken, rfl⟩
  · intro turns w hrun
    simp only [← replyVerdict_lose_iff]
    exact conserves_iff hrun

theorem waitUntilAck_conserves_iff_sample :
    waitUntilAck 2 2 (afterQueued [sampleMessage, sampleReply 2]) =
        .ok (true, afterQueued [sampleMessage]) ∧
      Conserves (afterQueued [sampleMessage, sampleReply 2]).mail
        ⟨(afterQueued [sampleMessage]).mail, some (sampleReply 2)⟩ := by
  have hrun : Run (waiting (replyVerdict 2))
      ⟨(afterQueued [sampleMessage, sampleReply 2]).mail, none⟩
      [⟨some sampleMessage, some (some sampleMessage)⟩, ⟨some (sampleReply 2), none⟩]
      ⟨(afterQueued [sampleMessage]).mail, some (sampleReply 2)⟩ :=
    Run.cons (.keeps rfl rfl) (Run.cons (.takes rfl rfl) (Run.nil _))
  refine ⟨rfl, (((waitUntilAck_conserves_iff 2 _).2 _ _ hrun).1).mpr ?_⟩
  simp [AnswersOther, sampleMessage, sampleReply, isReplyTo, Packet.mPacketType,
    PacketType.message, PacketType.control]

/-- The reply to request 1 comes while the reply to request 2 is waited for: a null
pointer is queued in its place. -/
theorem waitUntilAck_loses :
    ∃ turns w, Run (waiting (replyVerdict 2))
        ⟨(afterArrivals [sampleReply 1, sampleReply 2]).mail, none⟩ turns w ∧
      (∃ turn ∈ turns, turn.pushed = some none) ∧ w.mail.queue = [none] ∧
      ¬ Conserves (afterArrivals [sampleReply 1, sampleReply 2]).mail w := by
  have hrun : Run (waiting (replyVerdict 2))
      ⟨(afterArrivals [sampleReply 1, sampleReply 2]).mail, none⟩
      [⟨some (sampleReply 1), some none⟩] ⟨⟨[none], [some (sampleReply 2)]⟩, none⟩ :=
    Run.cons (.loses rfl rfl) (Run.nil _)
  refine ⟨_, _, hrun, ⟨_, List.mem_singleton.mpr rfl, rfl⟩, rfl, ?_⟩
  intro hconserves
  have hnone := (conserves_iff hrun).1.mp hconserves
  exact hnone _ (List.mem_singleton.mpr rfl) _ rfl rfl

end Client

end LeakyChat

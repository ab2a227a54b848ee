/-
Setups that complete.  Two clients that are logged in and know nothing of each
other can come to one session, and what the one then sends the other reads.
-/
import LeakyChat.ChatDelivery

namespace LeakyChat

open Transition
open Rekey (Side)
open Wire
open Program

namespace Client

variable {P : Primitives} {env : Env} {peer : Str} {c : Client}

theorem Bounded.setSession (hc : c.Bounded) {s : E2ESession}
    (hs : s.sequenceNo.toNat + 1 < 2 ^ 32) : (c.setSession peer s).Bounded := by
  intro other s' hother
  by_cases hpeer : other = peer
  · subst hpeer
    rw [setSession_self, Option.some.injEq] at hother
    rwa [← hother]
  · rw [setSession_of_ne c hpeer] at hother
    exact hc other s' hother

theorem mail_arrive_of_empty (hmail : c.mail = ⟨[], []⟩) (items : List (Option Packet)) :
    (c.arrive items).mail = ⟨[], items⟩ := by
  change c.mail.arrived items = _
  rw [hmail]
  rfl

/-- The first INIT to a peer. -/
theorem initiateE2E_first (P : Primitives) (hnone : c.mE2ESessions peer = none)
    (hresult : env.sendResult = 0) : ∃ s pl key,
    initiateE2E P env peer c = .ok (true, { c.setSession peer s with
      curSeqNo := c.curSeqNo + 1
      sent := c.sent ++ [.message ⟨c.curSeqNo, .empty, peer, pl⟩] }) ∧
    E2EInit.toPayload ⟨1, env.timestamp, key⟩ = .ok pl ∧ key.1.length = 256 ∧
    s.sequenceNo = 1 ∧ s.sessState = .initSent ∧ s.mCrypto.mEstablished = false ∧
    s.sessTimestamp = env.timestamp := by
  obtain ⟨pl, hsend, hpl⟩ :=
    (E2ESession.fresh env.freshExponent env.oldExponent).sendInit_eq P .initSent env.timestamp
  have hsession : c.session env peer = E2ESession.fresh env.freshExponent env.oldExponent := by
    rw [session, hnone, Option.getD_none]
  have hmethod : onSession env peer (fun session => session.initiate P env.timestamp) c =
      .ok (pl, c.setSession peer _) := onSession_run (by rw [hsession]; exact hsend)
  have hget : (get : ClientM Client) c = .ok (c, c) := rfl
  refine ⟨{ E2ESession.fresh env.freshExponent env.oldExponent with
    sequenceNo := 1
    sessState := .initSent
    sessTimestamp := env.timestamp }, pl, _, ?_, hpl, (P.publicKey _).2, rfl, rfl, rfl, rfl⟩
  rw [initiateE2E, run_bind hget, if_neg (by simp [hnone])]
  refine (run_bind hmethod).trans ?_
  change Except.ok (decide (env.sendResult = 0), _) = _
  rw [hresult]
  rfl

/-- The first INIT of a peer, in the receive loop. -/
theorem receiveLoop_first (P : Primitives) (env : Env) {msg : MessagePacket} {init : E2EInit}
    (hmail : c.mail = ⟨[], [some (.message msg)]⟩) (hnone : c.mE2ESessions msg.mSender = none)
    (hpl : E2EInit.toPayload init = .ok msg.mPayload) (hkey : init.key.1.length = 256)
    (hnumber : init.seqno = 1) :
    ∃ s ackpl key, receiveLoop P env c = .ok ((), { c.setSession msg.mSender s with
      mail := ⟨[], []⟩
      curSeqNo := c.curSeqNo + 1
      sent := c.sent ++ [.message ⟨c.curSeqNo, .empty, msg.mSender, ackpl⟩] }) ∧
    E2EAck.toPayload ⟨1, key⟩ = .ok ackpl ∧ key.1.length = 256 ∧ s.sequenceNo = 1 ∧
    s.sessState = .established ∧ s.sessTimestamp = init.timestamp ∧
    s.mCrypto.mEstablished = true := by
  obtain ⟨d, hd⟩ : ∃ d : Client, d = { c with mail := ⟨[], []⟩ } := ⟨_, rfl⟩
  have hfresh : (E2ESession.fresh env.freshExponent env.oldExponent).accepts init = true := by
    simp [E2ESession.accepts, E2ESession.fresh, hnumber]
  have hfits : FitsBignum init.key.1 := fitsBignum_of_length (hkey.trans_le (by decide))
  obtain ⟨old, ackpl, haccept, hack⟩ :=
    (E2ESession.fresh env.freshExponent env.oldExponent).acceptInit_eq P hfits env.initExponent
      fun _ => rfl
  have hhandle := E2ESession.handleInit_eq P (E2ESession.fresh env.freshExponent env.oldExponent)
    (E2EInit.ofPayload_toPayload hpl env.initStack) env.initExponent
  rw [if_pos hfresh, haccept] at hhandle
  have hsession : d.session env msg.mSender =
      E2ESession.fresh env.freshExponent env.oldExponent := by
    rw [hd, session]
    exact congrArg (Option.getD · _) hnone
  have hmethod : onSession env msg.mSender (fun session =>
      session.handleInit P msg.mPayload env.initStack env.initExponent) d =
        .ok (some ackpl, d.setSession msg.mSender _) :=
    onSession_run (by rw [hsession]; exact hhandle)
  have htype := (E2EInit.toPayload_eq_ok.mp hpl).1
  have hcontrol : msg.mPayload.isE2EControl = true := isE2EControl_init htype
  have hpoll : poll c = .ok (some (.message msg), d) := by
    rw [hd]
    change Except.ok (c.mail.poll.1, { c with mail := c.mail.poll.2 }) = _
    rw [hmail]
    rfl
  rw [hnumber] at hack
  refine ⟨⟨⟨env.freshExponent, P.deriveKey (P.sharedSecret env.freshExponent init.key), true⟩, old,
    init.timestamp, .established, init.seqno⟩, ackpl, _, ?_, hack, (P.publicKey _).2, hnumber, rfl,
    rfl, rfl⟩
  rw [receiveLoop, run_bind hpoll]
  simp only [if_pos hcontrol]
  rw [handleE2EPacket, if_pos htype, handleE2EInit]
  refine (run_bind ((run_bind hmethod).trans rfl)).trans ?_
  rw [hd]
  rfl

/-- The ACK to it. -/
theorem handleE2EAck_first (P : Primitives) (env : Env) {msg : MessagePacket} {s : E2ESession}
    {key : Str} (hs : c.mE2ESessions msg.mSender = some s) (hstate : s.sessState = .initSent)
    (hcrypto : s.mCrypto.mEstablished = false)
    (hpl : E2EAck.toPayload ⟨s.sequenceNo, key⟩ = .ok msg.mPayload)
    (hkey : key.1.length = 256) :
    ∃ s', handleE2EAck P env msg c = .ok ((), c.setSession msg.mSender s') ∧
      s'.sequenceNo = s.sequenceNo ∧ s'.sessState = .established ∧
      s'.sessTimestamp = s.sessTimestamp ∧ s'.mCrypto.mEstablished = true := by
  have hhandle := E2ESession.handleAck_eq P s (E2EAck.ofPayload_toPayload hpl env.ackStack)
  have hfits : FitsBignum (E2EAck.mk s.sequenceNo key).key.1 :=
    fitsBignum_of_length (hkey.trans_le (by decide))
  rw [if_pos ⟨Or.inl hstate, rfl⟩, E2ESession.acceptAck_eq P s hfits hcrypto] at hhandle
  have hmethod : onSession env msg.mSender (fun session =>
      session.handleAck P msg.mPayload env.ackStack) c = .ok (none, c.setSession msg.mSender _) :=
    onSession_run (by rw [session_of_some hs]; exact hhandle)
  exact ⟨_, (run_bind hmethod).trans rfl, rfl, rfl, rfl, rfl⟩

end Client

namespace Worker

open Client (mailSlot Goal)

variable {P : Primitives} {env : Env} {peer : Str} {c : Client} {w : Worker}

theorem tidy_of_none (hc : c.Bounded) : Tidy ⟨c, none⟩ := ⟨hc, by rintro _ _ _ _ ⟨⟩⟩

/-- An idle client that has read all its packets. -/
structure Idle (w : Worker) : Prop where
  task : w.task = none
  mail : w.client.mail = ⟨[], []⟩
  bounded : w.client.Bounded

/-- Its session with a peer is established since `timestamp`. -/
structure Talks (w : Worker) (peer : Str) (timestamp : UInt64) (session : E2ESession) : Prop where
  idle : Idle w
  there : w.client.mE2ESessions peer = some session
  state : session.sessState = .established
  since : session.sessTimestamp = timestamp
  crypto : session.mCrypto.mEstablished = true

theorem Idle.tidy (hw : Idle w) : w.Tidy := by
  obtain ⟨client, task⟩ := w
  have htask : task = none := hw.task
  rw [htask]
  exact tidy_of_none hw.bounded

/-- A login waits for its reply, and ends when an ACK under its number is there. -/
theorem run_login (P : Primitives) (env : Env) (hc : Idle ⟨c, none⟩) (username : Str) :
    ∃ c' q, Run (ownSteps P) ⟨c, none⟩ [.start env (.login username), .turn, .turn]
        ⟨c', some q⟩ ∧
      c'.mail = ⟨[], []⟩ ∧ c'.mE2ESessions = c.mE2ESessions ∧
      c'.sent = c.sent ++ [.fieldReq ⟨c.curSeqNo, .setUsername, username⟩] ∧
      (∀ d : Client, d.Bounded → Tidy ⟨d, some q⟩) ∧
      ∀ (d : Client) (reply : ControlPacket), d.Bounded →
        d.mail = ⟨[], [some (.control reply)]⟩ → reply.mReplyTo = c.curSeqNo →
          Run (ownSteps P) ⟨d, some q⟩ [.turn, .finish] ⟨{ d with mail := ⟨[], []⟩ }, none⟩ := by
  obtain ⟨d, hd⟩ : ∃ d : Client, d = { c with curSeqNo := c.curSeqNo + 1 } := ⟨_, rfl⟩
  have hseq : Client.nextSeqNo c = .ok (c.curSeqNo, d) := by
    rw [hd]
    rfl
  have hsend : Client.sendPacket env (.fieldReq ⟨c.curSeqNo, .setUsername, username⟩) d =
      .ok (env.sendResult, { d with
        sent := d.sent ++ [.fieldReq ⟨c.curSeqNo, .setUsername, username⟩] }) := rfl
  have hbound : d.Bounded := by
    rw [hd]
    exact hc.bounded
  refine ⟨_, _, Run.cons ⟨Step.start rfl rfl, hc.tidy, by rintro _ ⟨⟩⟩
    (Run.cons ⟨Step.turn rfl (.step hseq), ⟨hc.bounded, fits_of_ne (by rintro _ _ ⟨⟩)⟩,
      by rintro _ ⟨⟩⟩ (Run.cons ⟨Step.turn rfl (.step hsend), ⟨hbound,
        fits_of_ne (by rintro _ _ ⟨⟩)⟩, by rintro _ ⟨⟩⟩ (Run.nil _))), ?_, ?_, ?_,
    fun d hd => ⟨hd, fits_of_ne (by rintro _ _ ⟨⟩)⟩, ?_⟩
  · rw [hd]
    exact hc.mail
  · rw [hd]
  · rw [hd]
  intro d reply hd hmail hreply
  have hpoll : (mailSlot.mail d).poll = (some (.control reply), ⟨[], []⟩) := by
    change d.mail.poll = _
    rw [hmail]
    rfl
  have hverdict : (Goal.reply c.curSeqNo).verdict (.control reply) = .take := if_pos hreply
  exact Run.cons ⟨Step.turn rfl (.take hpoll hverdict), ⟨hd, fits_of_ne (by rintro _ _ ⟨⟩)⟩,
    by rintro _ ⟨⟩⟩ (Run.cons ⟨Step.finish rfl, ⟨hd, fits_of_ne (by rintro _ _ ⟨⟩)⟩,
      by rintro _ ⟨⟩⟩ (Run.nil _))

/-- An operation that makes the first INIT to a peer, and ends when the ACK is there. -/
theorem run_setup (P : Primitives) (hc : c.Bounded) (hnone : c.mE2ESessions peer = none)
    (hresult : env.sendResult = 0) : ∃ c' s seq pl key q,
    Run (ownSteps P) ⟨c, none⟩ [.start env (.setupE2E peer false), .turn] ⟨c', some q⟩ ∧
    c'.Bounded ∧ c'.mail = c.mail ∧ c'.mE2ESessions peer = some s ∧
    c'.sent = c.sent ++ [.message ⟨seq, .empty, peer, pl⟩] ∧
    E2EInit.toPayload ⟨1, env.timestamp, key⟩ = .ok pl ∧ key.1.length = 256 ∧
    (∀ d : Client, d.Bounded → Tidy ⟨d, some q⟩) ∧
    ∀ (d : Client) (msg : MessagePacket) (ackkey : Str), d.Bounded →
      d.mail = ⟨[], [some (.message msg)]⟩ → msg.mSender = peer → d.mE2ESessions peer = some s →
      E2EAck.toPayload ⟨1, ackkey⟩ = .ok msg.mPayload → ackkey.1.length = 256 → ∃ d' s',
        Run (ownSteps P) ⟨d, some q⟩ [.turn, .turn, .turn, .finish] ⟨d', none⟩ ∧
        Talks ⟨d', none⟩ peer env.timestamp s' := by
  obtain ⟨s, pl, key, hrun, hpl, hkey, hnumber, hstate, hcrypto, hsince⟩ :=
    Client.initiateE2E_first P hnone hresult
  have hstart : Worker.Step P ⟨c, none⟩ (.start env (.setupE2E peer false)) _ :=
    Step.start rfl rfl
  refine ⟨_, s, c.curSeqNo, pl, key, _, Run.cons ⟨hstart, tidy_of_none hc, by rintro _ ⟨⟩⟩
    (Run.cons ⟨Step.turn rfl (.step hrun), ⟨hc, fits_of_ne (by rintro _ _ ⟨⟩)⟩, by rintro _ ⟨⟩⟩
      (Run.nil _)), ?_, rfl, Client.setSession_self c peer s, rfl, hpl, hkey,
    fun d hd => ⟨hd, fits_of_ne (by rintro _ _ ⟨⟩)⟩, ?_⟩
  · exact hc.setSession (by rw [hnumber]; decide)
  rintro d msg ackkey hd hmail rfl hs hack hackkey
  have htype := (E2EAck.toPayload_eq_ok.mp hack).1
  have hpoll : (mailSlot.mail d).poll = (some (.message msg), ⟨[], []⟩) := by
    change d.mail.poll = _
    rw [hmail]
    rfl
  have hverdict : (Goal.control msg.mSender).verdict (.message msg) = .take := by
    refine if_pos ?_
    simp [Client.isE2ePkt, Client.isE2EControl_ack htype]
  obtain ⟨d₁, hd₁⟩ : ∃ d₁ : Client, d₁ = { d with mail := ⟨[], []⟩ } := ⟨_, rfl⟩
  have hbound : d₁.Bounded := hd₁ ▸ hd
  have hs₁ : d₁.mE2ESessions msg.mSender = some s := by
    rw [hd₁]
    exact hs
  obtain ⟨s', hhandle, hrest⟩ := Client.handleE2EAck_first P env hs₁ hstate hcrypto
    (hnumber ▸ hack) hackkey
  have hderived : Client.derivedMessage (.message msg) d₁ = .ok (msg, d₁) := rfl
  have hafter : (d₁.setSession msg.mSender s').Bounded := hbound.setSession (by
    rw [hrest.1, hnumber]
    decide)
  refine ⟨d₁.setSession msg.mSender s', s', ?_, ⟨⟨rfl, by rw [hd₁]; rfl, hafter⟩,
    Client.setSession_self d₁ _ s', hrest.2.1, hrest.2.2.1.trans hsince, hrest.2.2.2⟩⟩
  refine Run.cons ⟨Step.turn rfl (.take hpoll hverdict), ⟨hd, fits_of_ne (by rintro _ _ ⟨⟩)⟩,
    by rintro _ ⟨⟩⟩ ?_
  change Run (ownSteps P) ⟨{ d with mail := ⟨[], []⟩ }, _⟩ _ _
  rw [← hd₁]
  refine Run.cons ⟨Step.turn rfl (.step hderived), ⟨hbound, fits_of_ne (by rintro _ _ ⟨⟩)⟩,
    by rintro _ ⟨⟩⟩ ?_
  have hne : msg.mPayload.type ≠ .e2eInit := by
    rw [htype]
    decide
  simp only [if_neg hne, if_pos htype, Script.bind]
  refine Run.cons ⟨Step.turn rfl (.step hhandle), ⟨hbound, fits_of_ne (by rintro _ _ ⟨⟩)⟩,
    by rintro _ ⟨⟩⟩ ?_
  exact Run.cons ⟨Step.finish rfl, ⟨hafter, fits_of_ne (by rintro _ _ ⟨⟩)⟩, by rintro _ ⟨⟩⟩
    (Run.nil _)

/-- A round of the receive loop that takes up the first INIT of a peer. -/
theorem run_answer (P : Primitives) (env : Env) (hc : c.Bounded) {msg : MessagePacket}
    {timestamp : UInt64} {key : Str} (hmail : c.mail = ⟨[], [some (.message msg)]⟩)
    (hnone : c.mE2ESessions msg.mSender = none)
    (hpl : E2EInit.toPayload ⟨1, timestamp, key⟩ = .ok msg.mPayload)
    (hkey : key.1.length = 256) : ∃ c' s seq ackpl ackkey,
    Run (ownSteps P) ⟨c, none⟩ [.whole env .receive] ⟨c', none⟩ ∧
    Talks ⟨c', none⟩ msg.mSender timestamp s ∧
    .message ⟨seq, .empty, msg.mSender, ackpl⟩ ∈ c'.sent ∧
    E2EAck.toPayload ⟨1, ackkey⟩ = .ok ackpl ∧ ackkey.1.length = 256 := by
  obtain ⟨s, ackpl, ackkey, hrun, hack, hackkey, hnumber, hstate, hsince, hcrypto⟩ :=
    Client.receiveLoop_first P env hmail hnone hpl hkey rfl
  refine ⟨_, s, c.curSeqNo, ackpl, ackkey, Run.cons ⟨Step.whole rfl rfl (by rintro _ ⟨⟩) hrun,
    tidy_of_none hc, by rintro _ ⟨⟩⟩ (Run.nil _), ⟨⟨rfl, rfl, ?_⟩, Client.setSession_self c _ s,
    hstate, hsince, hcrypto⟩, List.mem_append_right _ List.mem_cons_self, hack, hackkey⟩
  exact hc.setSession (by rw [hnumber]; decide)

theorem refreshStaleTask_fresh (P : Primitives) {env : Env} {s : E2ESession}
    (hfresh : s.isStale env.now = false) :
    Client.refreshStaleTask P env peer s = .done ⟨⟩ := by
  rw [Client.refreshStaleTask, if_neg (by rw [hfresh]; decide)]

/-- The user turns to a peer whose session is not stale. -/
theorem run_connect (P : Primitives) {env : Env} {s : E2ESession} (hc : Idle ⟨c, none⟩)
    (hthere : c.mE2ESessions peer = some s) (hfresh : s.isStale env.now = false) :
    Run (ownSteps P) ⟨c, none⟩ [.start env (.connectTo peer), .turn, .finish]
      ⟨{ c with connected := peer }, none⟩ := by
  have hrun : (modifyGet fun c => (c.mE2ESessions peer, { c with connected := peer }) :
      ClientM (Option E2ESession)) c = .ok (some s, { c with connected := peer }) := by
    rw [← hthere]
    rfl
  refine Run.cons ⟨Step.start rfl rfl, hc.tidy, by rintro _ ⟨⟩⟩ (Run.cons ⟨Step.turn rfl
    (.step hrun), ⟨hc.bounded, fits_of_ne (by rintro _ _ ⟨⟩)⟩, by rintro _ ⟨⟩⟩ ?_)
  change Run (ownSteps P) ⟨_, some (((Client.refreshStaleTask P env peer s).bind fun _ =>
    .done true).bind fun _ => .done PUnit.unit)⟩ _ _
  rw [refreshStaleTask_fresh P hfresh]
  exact Run.cons ⟨Step.finish rfl, ⟨hc.bounded, fits_of_ne (by rintro _ _ ⟨⟩)⟩, by rintro _ ⟨⟩⟩
    (Run.nil _)

/-- A text for the peer goes out under the session. -/
theorem run_send (P : Primitives) {env : Env} {s : E2ESession} (hc : Idle ⟨c, none⟩)
    (hthere : c.mE2ESessions c.connected = some s) (hfresh : s.isStale env.now = false)
    {text : Str} {pl : Payload} (hpl : s.encrypt P env.nonce text = .ok pl) :
    Run (ownSteps P) ⟨c, none⟩ [.start env (.send text), .turn, .turn, .finish]
      ⟨{ c with
        curSeqNo := c.curSeqNo + 1
        sent := c.sent ++ [.message ⟨c.curSeqNo, .empty, c.connected, pl⟩] }, none⟩ := by
  obtain ⟨d, hd⟩ : ∃ d : Client, d = { c with curSeqNo := c.curSeqNo + 1 } := ⟨_, rfl⟩
  have hthere' : d.mE2ESessions d.connected = some s := by
    rw [hd]
    exact hthere
  have hsame : d.setSession d.connected s = d := by
    rw [Client.setSession, ← hthere', Function.update_eq_self]
  have hget : Client.getSession env d.connected d = .ok (s, d) := by
    rw [Client.getSession_run, Client.session_of_some hthere', hsame]
  have hbound : d.Bounded := by
    rw [hd]
    exact hc.bounded
  have hstart : Client.sendStart env c = .ok ((c.curSeqNo, c.connected, s), d) := by
    have hfirst : Client.nextSeqNo c = .ok (c.curSeqNo, d) := by
      rw [hd]
      rfl
    have hconnected : d.connected = c.connected := by rw [hd]
    rw [Client.sendStart, run_bind hfirst]
    refine (run_bind (rfl : (modifyGet fun c => (c.connected, c) : ClientM Str) d =
      .ok (d.connected, d))).trans ?_
    rw [run_bind hget, hconnected]
    rfl
  have hsend : Client.sendText P env c.curSeqNo c.connected text d = .ok (c.curSeqNo, { d with
      sent := d.sent ++ [.message ⟨c.curSeqNo, .empty, c.connected, pl⟩] }) := by
    have hconnected : c.connected = d.connected := by rw [hd]
    rw [Client.sendText, hconnected, run_bind hget, hpl]
    rfl
  refine Run.cons ⟨Step.start rfl rfl, hc.tidy, by rintro _ ⟨⟩⟩ (Run.cons ⟨Step.turn rfl
    (.step hstart), ⟨hc.bounded, fits_of_ne (by rintro _ _ ⟨⟩)⟩, by rintro _ ⟨⟩⟩ ?_)
  change Run (ownSteps P) ⟨_, some (((Client.refreshStaleTask P env c.connected s).bind fun _ =>
    .step (Client.sendText P env c.curSeqNo c.connected text) fun seq => .done seq).bind fun _ =>
      .done PUnit.unit)⟩ _ _
  rw [refreshStaleTask_fresh P hfresh]
  refine Run.cons ⟨Step.turn rfl (.step hsend), ⟨hbound, fits_of_ne (by rintro _ _ ⟨⟩)⟩,
    by rintro _ ⟨⟩⟩ ?_
  rw [hd]
  exact Run.cons ⟨Step.finish rfl, ⟨hc.bounded, fits_of_ne (by rintro _ _ ⟨⟩)⟩, by rintro _ ⟨⟩⟩
    (Run.nil _)

end Worker

namespace ChatNetwork

variable {P : Primitives} {hash : Str → UInt64} {base t : ChatNetwork} {ends : Side → SID}
  {handler : Side → NetworkHandler} {w : Side → Worker} {name : Side → Str} {side : Side}

theorem fits_login (hkeeps : GcmKeepsLength P) (seq : SequenceNo) {username : Str}
    (hshort : username.1.length ≤ 64000) : Fits P (.fieldReq ⟨seq, .setUsername, username⟩) := by
  have hsize : recvBufferSize = 65536 := rfl
  apply fits_of_length hkeeps
  simp only [Packet.bytes, headerBytes, Packet.body, FieldReqPacket.body, List.length_append,
    strBytes_length, u8Bytes, u64Bytes, leBytes_length]
  omega

theorem fits_reply (hkeeps : GcmKeepsLength P) (seq : SequenceNo) :
    Fits P (.control ⟨0, .ack, seq⟩) := by
  apply fits_of_length hkeeps
  simp only [Packet.bytes, headerBytes, Packet.body, ControlPacket.body, List.length_append,
    u8Bytes, u32Bytes, u64Bytes, leBytes_length]
  decide

/-- A client that is idle can log in under a free name. -/
theorem exists_logged_in (hopens : P.GcmOpensSealed) (hkeeps : GcmKeepsLength P)
    (hgood : Good P hash t) (hcareful : t.Careful) {sid : SID} {host : Host}
    (hopen : Open t sid host) (env : Env) (hidle : host.worker.Idle)
    (hseq : numberRead host.worker.client.curSeqNo (fun _ => 0) = host.worker.client.curSeqNo)
    {username : Str} (hnonempty : username ≠ .empty) (hshort : username.1.length ≤ 64000)
    (hfree : t.server.usernames.contains hash username = false) :
    ∃ u c texts, Leads P hash t (t.server.usernames.insert hash sid username)
        ((sid, username) :: t.logins) sid (host.handler, ⟨c, none⟩, texts) u ∧
      Worker.Idle ⟨c, none⟩ ∧ c.mE2ESessions = host.worker.client.mE2ESessions := by
  obtain ⟨c, hc⟩ : ∃ c, host.worker = ⟨c, none⟩ := ⟨_, by rw [← hidle.task]⟩
  rw [hc] at hidle hseq
  obtain ⟨c₁, q, hrun, hmail, hsessions, hsent, hwaits, hreplied⟩ :=
    Worker.run_login P env hidle username
  have hrequested : .fieldReq ⟨c.curSeqNo, .setUsername, username⟩ ∈ c₁.sent := by
    rw [hsent]
    exact List.mem_append_right _ List.mem_cons_self
  have hbound₁ : c₁.Bounded := by
    rw [Client.Bounded, hsessions]
    exact hidle.bounded
  rw [← hc] at hrun
  obtain ⟨u₁, texts₁, hleads₁⟩ := exists_works hopens hgood
    (fun other host' _ hhost' => hcareful other host' hhost') hopen.there hrun
  have hgood₁ := careful_good hopens hgood hleads₁.run.choose_spec
  have hcareful₁ := careful_core hcareful hleads₁.core (hwaits c₁ hbound₁)
  obtain ⟨posted₁, hhost₁⟩ := hleads₁.exists_host
  have hopen₁ : Open u₁ sid ⟨host.handler, ⟨c₁, some q⟩, posted₁, texts₁⟩ :=
    ⟨hhost₁, hopen.client, hleads₁.connections ▸ hopen.server⟩
  rw [← hleads₁.usernames] at hfree
  obtain ⟨u₂, hleads₂⟩ := exists_login hopens hgood₁ hcareful₁ hopen₁ hrequested hnonempty hfree
    (fits_login hkeeps _ hshort) (fits_reply hkeeps _)
  rw [hleads₁.usernames, hleads₁.logins] at hleads₂
  have hgood₂ := careful_good hopens hgood₁ hleads₂.run.choose_spec
  have hcareful₂ := careful_core hcareful₁ hleads₂.core (hwaits _ hbound₁)
  obtain ⟨posted₂, hhost₂⟩ := hleads₂.exists_host
  have hdone := hreplied (c₁.arrive [some (.control ⟨0, .ack, numberRead c.curSeqNo fun _ => 0⟩)])
    ⟨0, .ack, numberRead c.curSeqNo fun _ => 0⟩ hbound₁
    (Client.mail_arrive_of_empty hmail _) hseq
  obtain ⟨u₃, texts₃, hleads₃⟩ := exists_works hopens hgood₂
    (fun other host' _ hhost' => hcareful₂ other host' hhost') hhost₂ hdone
  rw [hleads₂.usernames, hleads₂.logins] at hleads₃
  refine ⟨u₃, _, texts₃, (hleads₁.trans hleads₂).trans hleads₃, ⟨rfl, rfl, hbound₁⟩, ?_⟩
  rw [hc]
  exact hsessions

/-- The packets of a setup and of a text are short enough if the names and the text are. -/
theorem fits_between (hkeeps : GcmKeepsLength P) {length : Nat}
    (hshort : (name .left).1.length + (name .right).1.length + length ≤ 64000)
    (seq : SequenceNo) {pl : Payload} (hpl : pl.data.1.length ≤ length + 276) (side : Side) :
    Fits P (.message ⟨seq, .empty, name side.other, pl⟩) ∧
      Fits P (.message ⟨seq, name side, name side.other, pl⟩) := by
  have hempty : Str.empty.1.length = 0 := rfl
  have hboth : (name side).1.length + (name side.other).1.length =
      (name .left).1.length + (name .right).1.length := by
    cases side with
    | left => rfl
    | right => exact Nat.add_comm _ _
  have hsize : recvBufferSize = 65536 := rfl
  constructor
  · refine fits_message hkeeps ?_
    simp only
    omega
  · refine fits_message hkeeps ?_
    simp only
    omega

theorem length_of_init {seqno : UInt32} {timestamp : UInt64} {key : Str} {pl : Payload}
    (hpl : E2EInit.toPayload ⟨seqno, timestamp, key⟩ = .ok pl) (hkey : key.1.length = 256) :
    pl.data.1.length = 276 := by
  rw [(E2EInit.toPayload_eq_ok.mp hpl).2]
  simp only [E2EInit.bytes, List.length_append, strBytes_length, u32Bytes, u64Bytes,
    leBytes_length, hkey]

theorem length_of_ack {seqno : UInt32} {key : Str} {pl : Payload}
    (hpl : E2EAck.toPayload ⟨seqno, key⟩ = .ok pl) (hkey : key.1.length = 256) :
    pl.data.1.length = 268 := by
  rw [(E2EAck.toPayload_eq_ok.mp hpl).2]
  simp only [E2EAck.bytes, List.length_append, strBytes_length, u32Bytes, leBytes_length, hkey]

theorem length_of_text (hkeeps : GcmKeepsLength P) {session : E2ESession}
    (hstate : session.sessState = .established) (hcrypto : session.mCrypto.mEstablished = true)
    {nonce : Nonce} {text : Str} {pl : Payload}
    (hpl : session.encrypt P nonce text = .ok pl) :
    pl.data.1.length = text.1.length + 40 := by
  obtain ⟨eData, hencrypt, hdata⟩ := E2ESession.encrypt_eq_ok P hstate hpl
  rw [CryptoSession.encrypt, if_pos hcrypto] at hencrypt
  cases hencrypt
  rw [(E2EMsg.toPayload_eq_ok.mp hdata).2, List.length_append, u32Bytes, leBytes_length]
  have hsealed := hkeeps session.mCrypto.mKey nonce text
  have hnonce : (P.encrypt session.mCrypto.mKey nonce text).nonce.1.length = 12 := nonce.2
  have htag := (P.encrypt session.mCrypto.mKey nonce text).tag.2
  simp only [E2EData.bytes, List.length_append, strBytes_length, hnonce, htag]
  rw [Primitives.encrypt, hsealed]
  omega

/-- A setup between two clients that are idle and have no session completes. -/
theorem Scene.setup (hopens : P.GcmOpensSealed) (hkeeps : GcmKeepsLength P)
    (hbase : base.Careful) (hin : LoggedIn hash base ends handler name)
    (hshort : (name .left).1.length + (name .right).1.length ≤ 64000)
    (hscene : Scene P hash base ends handler w t) (hidle : ∀ side, (w side).Idle)
    (hnone : ∀ side, (w side).client.mE2ESessions (name side.other) = none) {env : Env}
    (hresult : env.sendResult = 0) :
    ∃ u w', ∃ session : Side → E2ESession, Scene P hash base ends handler w' u ∧
      ∀ side, (w' side).Talks (name side.other) env.timestamp (session side) := by
  have hfits : ∀ (seq : SequenceNo) (pl : Payload), pl.data.1.length ≤ 0 + 276 → ∀ side,
      Fits P (.message ⟨seq, .empty, name side.other, pl⟩) ∧
        Fits P (.message ⟨seq, name side, name side.other, pl⟩) :=
    fun seq pl => fits_between hkeeps hshort seq
  obtain ⟨cl, hcl⟩ : ∃ cl, w .left = ⟨cl, none⟩ := ⟨_, by rw [← (hidle .left).task]⟩
  obtain ⟨cr, hcr⟩ : ∃ cr, w .right = ⟨cr, none⟩ := ⟨_, by rw [← (hidle .right).task]⟩
  have hnoneL := hnone .left
  have hnoneR := hnone .right
  have hidleL := hidle .left
  have hidleR := hidle .right
  rw [hcl] at hnoneL hidleL
  rw [hcr] at hnoneR hidleR
  obtain ⟨c₁, s, seq, pl, key, q, hrun, hbound₁, hmail₁, hthere₁, hsent, hpl, hkey, hwaits,
    hanswered⟩ := Worker.run_setup P hidleL.bounded hnoneL hresult
  rw [← hcl] at hrun
  obtain ⟨u₁, w₁, hscene₁, hleft₁, hright₁⟩ := hscene.works .left hopens hbase
    hin.ends_ne (hidle .right).tidy hrun
  have htidy₁ : ∀ side, (w₁ side).Tidy := by
    rintro (_ | _)
    · exact hleft₁ ▸ hwaits c₁ hbound₁
    · exact hright₁ ▸ (hidle .right).tidy
  have hrequested : .message ⟨seq, .empty, name .right, pl⟩ ∈ (w₁ .left).client.sent := by
    rw [hleft₁, hsent]
    exact List.mem_append_right _ List.mem_cons_self
  have hlength := length_of_init hpl hkey
  obtain ⟨u₂, w₂, hscene₂, hleft₂, hright₂⟩ := hscene₁.message .left hopens hbase hin
    htidy₁ hrequested (hfits seq pl (by omega) .left).1 (hfits seq pl (by omega) .left).2
  have hthere₂ : w₂ .right = ⟨cr.arrive [some (.message ⟨seq, name .left, name .right,
      pl⟩)], none⟩ := by
    refine hright₂.trans ?_
    rw [show w₁ Side.left.other = ⟨cr, none⟩ from hright₁.trans hcr]
    rfl
  obtain ⟨c₂, s₂, seq₂, ackpl, ackkey, hrun₂, htalks₂, hsent₂, hack, hackkey⟩ :=
    Worker.run_answer P env (c := cr.arrive [some (.message ⟨seq, name .left,
      name .right, pl⟩)]) hidleR.bounded (Client.mail_arrive_of_empty hidleR.mail _) hnoneR hpl
      hkey
  rw [← hthere₂] at hrun₂
  have htidy₂ : (w₂ .left).Tidy := hleft₂ ▸ htidy₁ .left
  obtain ⟨u₃, w₃, hscene₃, hright₃, hleft₃⟩ := hscene₂.works .right hopens hbase
    hin.ends_ne htidy₂ hrun₂
  have hleft : w₃ .left = ⟨c₁, some q⟩ := hleft₃.trans (hleft₂.trans hleft₁)
  have htidy₃ : ∀ side, (w₃ side).Tidy := by
    rintro (_ | _)
    · exact hleft ▸ hwaits c₁ hbound₁
    · exact hright₃ ▸ htalks₂.idle.tidy
  rw [← congrArg (fun w => w.client.sent) hright₃] at hsent₂
  have hlength₂ := length_of_ack hack hackkey
  obtain ⟨u₄, w₄, hscene₄, hright₄, hleft₄⟩ := hscene₃.message .right hopens hbase hin
    htidy₃ hsent₂ (hfits seq₂ ackpl (by omega) .right).1 (hfits seq₂ ackpl (by omega) .right).2
  have hthere₄ : w₄ .left = ⟨c₁.arrive [some (.message ⟨seq₂, name .right, name .left, ackpl⟩)],
      some q⟩ := by
    refine hleft₄.trans ?_
    rw [show w₃ Side.right.other = ⟨c₁, some q⟩ from hleft]
    rfl
  obtain ⟨c₅, s₅, hrun₅, htalks₅⟩ := hanswered (c₁.arrive _)
    ⟨seq₂, name .right, name .left, ackpl⟩ ackkey hbound₁
    (Client.mail_arrive_of_empty (hmail₁.trans hidleL.mail) _) rfl hthere₁ hack hackkey
  rw [← hthere₄] at hrun₅
  have htidy₄ : (w₄ .right).Tidy := hright₄ ▸ htidy₃ .right
  obtain ⟨u₅, w₅, hscene₅, hleft₅, hright₅⟩ := hscene₄.works .left hopens hbase
    hin.ends_ne htidy₄ hrun₅
  refine ⟨u₅, w₅, fun side => side.rec s₅ s₂, hscene₅, ?_⟩
  rintro (_ | _)
  · exact hleft₅ ▸ htalks₅
  · have hright : w₅ .right = ⟨c₂, none⟩ := hright₅.trans (hright₄.trans hright₃)
    exact hright ▸ htalks₂

/-- A text that one of the two then sends comes to the other. -/
theorem Scene.text (side : Side) (hopens : P.GcmOpensSealed) (hkeeps : GcmKeepsLength P)
    (hbase : base.Careful) (hin : LoggedIn hash base ends handler name) {text : Str}
    (hshort : (name .left).1.length + (name .right).1.length + text.1.length ≤ 64000)
    (hscene : Scene P hash base ends handler w t) {session : Side → E2ESession}
    {timestamp : UInt64}
    (htalks : ∀ side, (w side).Talks (name side.other) timestamp (session side)) {env : Env}
    (hfresh : ¬ timestamp + 60000000000 < env.now) :
    ∃ u w' msg, Scene P hash base ends handler w' u ∧ (∀ x, (w' x).client.Bounded ∧
        (w' x).client.mE2ESessions (name x.other) = some (session x)) ∧
      (w' side.other).client.mail = ⟨[], [some (.message msg)]⟩ ∧ msg.mSender = name side ∧
      (session side).encrypt P env.nonce text = .ok msg.mPayload := by
  obtain ⟨c, hc⟩ : ∃ c, w side = ⟨c, none⟩ := ⟨_, by rw [← (htalks side).idle.task]⟩
  have htalk := htalks side
  rw [hc] at htalk
  have hstale : (session side).isStale env.now = false := by
    rw [E2ESession.isStale, if_neg (by rw [htalk.state]; decide), htalk.since]
    exact decide_eq_false hfresh
  have hkept := hkeeps (session side).mCrypto.mKey env.nonce text
  have hsmall : 64040 ≤ maxSize := by decide
  obtain ⟨pl, hpl⟩ : ∃ pl, (session side).encrypt P env.nonce text = .ok pl :=
    E2ESession.encrypt_ok P (fun _ => htalk.crypto) (by omega) (by omega)
  have hconnect := Worker.run_connect P htalk.idle htalk.there hstale
  have hconnected : Worker.Idle ⟨{ c with connected := name side.other }, none⟩ :=
    ⟨rfl, htalk.idle.mail, htalk.idle.bounded⟩
  have hsend := Worker.run_send P hconnected htalk.there hstale hpl
  have hrun := hconnect.append hsend
  rw [← hc] at hrun
  obtain ⟨u₁, w₁, hscene₁, hself₁, hrest₁⟩ := hscene.works side hopens hbase hin.ends_ne
    (htalks side.other).idle.tidy hrun
  have hrest₁' : w₁ side.other = w side.other := hrest₁
  have htidy₁ : ∀ x, (w₁ x).Tidy := by
    intro x
    by_cases hx : x = side
    · rw [hx, hself₁]
      exact Worker.tidy_of_none htalk.idle.bounded
    · rw [Rekey.Side.eq_other_of_ne hx, hrest₁]
      exact (htalks side.other).idle.tidy
  have hsent : .message ⟨c.curSeqNo, .empty, name side.other, pl⟩ ∈ (w₁ side).client.sent := by
    rw [hself₁]
    exact List.mem_append_right _ List.mem_cons_self
  have hlength := length_of_text hkeeps htalk.state htalk.crypto hpl
  have hfits := fits_between hkeeps hshort c.curSeqNo (le_of_eq_of_le hlength (by omega)) side
  obtain ⟨u₂, w₂, hscene₂, hself₂, hrest₂⟩ := hscene₁.message side hopens hbase hin htidy₁ hsent
    hfits.1 hfits.2
  rw [hrest₁] at hrest₂
  refine ⟨u₂, w₂, ⟨c.curSeqNo, name side, name side.other, pl⟩, hscene₂, fun x => ?_, ?_, rfl,
    hpl⟩
  · by_cases hx : x = side
    · rw [hx, hself₂, hself₁]
      exact ⟨htalk.idle.bounded, htalk.there⟩
    · rw [Rekey.Side.eq_other_of_ne hx, hrest₂]
      exact ⟨(htalks side.other).idle.bounded, (htalks side.other).there⟩
  · rw [hrest₂]
    exact Client.mail_arrive_of_empty (htalks side.other).idle.mail _

theorem exists_scene (hgood : Good P hash t) {hosts : Side → Host}
    (hhosts : ∀ side, t.hosts (ends side) = some (hosts side)) :
    Scene P hash t ends (fun side => (hosts side).handler) (fun side => (hosts side).worker) t where
  run := ⟨[], Run.nil t⟩
  good := hgood
  connections := rfl
  usernames := rfl
  logins := rfl
  both side := ⟨(hosts side).texts, core_of_some (hhosts side)⟩
  others _ _ := rfl

/-- A setup, and a text that has come to the other under its session. -/
theorem exists_talk (hopens : P.GcmOpensSealed) (hkeeps : GcmKeepsLength P)
    (hgood : Good P hash t) (hcareful : t.Careful) {hosts : Side → Host}
    (hhosts : ∀ side, t.hosts (ends side) = some (hosts side))
    (hin : LoggedIn hash t ends (fun side => (hosts side).handler) name)
    (hidle : ∀ side, (hosts side).worker.Idle)
    (hnone : ∀ side, (hosts side).worker.client.mE2ESessions (name side.other) = none)
    {text : Str} (hshort : (name .left).1.length + (name .right).1.length + text.1.length ≤ 64000)
    {env : Env} (hresult : env.sendResult = 0) (hfresh : ¬ env.timestamp + 60000000000 < env.now) :
    ∃ (labels : List Label) (u : ChatNetwork) (hosts' : Side → Host) (msg : MessagePacket)
      (session : Side → E2ESession), Run (careful P hash) t labels u ∧
      u.logins = t.logins ∧ (∀ side, u.hosts (ends side) = some (hosts' side) ∧
        (hosts' side).worker.client.mE2ESessions (name side.other) = some (session side) ∧
        (session side).sessState = .established) ∧
      (hosts' .right).worker.client.mail = ⟨[], [some (.message msg)]⟩ ∧
      msg.mSender = name .left ∧
      (session .left).encrypt P env.nonce text = .ok msg.mPayload := by
  obtain ⟨u₁, w₁, session, hscene₁, htalks⟩ := (exists_scene hgood hhosts).setup hopens hkeeps
    hcareful hin (by omega) hidle hnone hresult
  obtain ⟨u₂, w₂, msg, hscene₂, hthere, hmail, hsender, hpl⟩ :=
    hscene₁.text .left hopens hkeeps hcareful hin hshort htalks hfresh
  have hhosts' : ∀ side, ∃ host, u₂.hosts (ends side) = some host ∧ host.worker = w₂ side := by
    intro side
    obtain ⟨texts, hcore⟩ := hscene₂.both side
    obtain ⟨posted, hhost⟩ := host_of_core hcore
    exact ⟨_, hhost, rfl⟩
  choose hosts' hhosts' hworkers using hhosts'
  obtain ⟨labels, hrun⟩ := hscene₂.run
  refine ⟨labels, u₂, hosts', msg, session, hrun, hscene₂.logins, fun side => ?_, ?_, hsender, hpl⟩
  · rw [hworkers side]
    exact ⟨hhosts' side, (hthere side).2, (htalks side).state⟩
  · rw [hworkers .right]
    exact hmail

end ChatNetwork

end LeakyChat

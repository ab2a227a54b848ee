/-
What the client's operations do to its end-to-end sessions and what they send.
A refresh takes an established session out of `ESTABLISHED` until it is
answered; nothing else does.
-/
import LeakyChat.ClientWaits
import LeakyChat.Library.Transition

namespace LeakyChat

open Program
open SelectiveReceive

namespace Client

/-- The session an operation finds under a name, a fresh one if there is none. -/
def session (c : Client) (env : Env) (peer : Str) : E2ESession :=
  (c.mE2ESessions peer).getD (E2ESession.fresh env.freshExponent env.oldExponent)

@[simp]
theorem setSession_self (c : Client) (peer : Str) (s : E2ESession) :
    (c.setSession peer s).mE2ESessions peer = some s := by
  simp [setSession]

theorem setSession_of_ne (c : Client) {peer other : Str} (hne : other ≠ peer)
    (s : E2ESession) : (c.setSession peer s).mE2ESessions other = c.mE2ESessions other := by
  simp [setSession, hne]

@[simp]
theorem setSession_setSession (c : Client) (peer : Str) (s t : E2ESession) :
    (c.setSession peer s).setSession peer t = c.setSession peer t := by
  simp [setSession]

theorem session_of_some {c : Client} {peer : Str} {s : E2ESession}
    (hs : c.mE2ESessions peer = some s) (env : Env) : c.session env peer = s := by
  rw [session, hs, Option.getD_some]

theorem getSession_run (env : Env) (peer : Str) (c : Client) :
    getSession env peer c =
      .ok (c.session env peer, c.setSession peer (c.session env peer)) := by
  have hget : (get : ClientM Client) c = .ok (c, c) := rfl
  rw [getSession, run_bind hget]
  cases hs : c.mE2ESessions peer with
  | some s =>
      have hsame : c.setSession peer s = c := by
        rw [setSession, ← hs, Function.update_eq_self]
      rw [session_of_some hs env, hsame]
      rfl
  | none =>
      rw [session, hs, Option.getD_none]
      rfl

theorem attempt_ok {α : Type} {result : Except Fault α} {c d : Client} {a : α}
    (hrun : attempt result c = .ok (a, d)) : result = .ok a ∧ d = c := by
  cases result with
  | error fault => cases hrun
  | ok b =>
      change Except.ok (b, c) = .ok (a, d) at hrun
      rw [Except.ok.injEq, Prod.mk.injEq] at hrun
      exact ⟨by rw [hrun.1], hrun.2.symm⟩

/-- A method call that returns has replaced the session, and nothing else. -/
theorem onSession_ok {α : Type} {env : Env} {peer : Str}
    {call : E2ESession → E2ESession × Except Fault α} {c d : Client} {a : α}
    (hrun : onSession env peer call c = .ok (a, d)) :
    ∃ t, call (c.session env peer) = (t, .ok a) ∧ d = c.setSession peer t := by
  rw [onSession, run_bind (getSession_run env peer c)] at hrun
  rcases hcall : call (c.session env peer) with ⟨t, result⟩
  rw [hcall] at hrun
  obtain ⟨_, c₁, hput, hattempt⟩ := of_run_bind hrun
  have hc₁ : c₁ = c.setSession peer t := by
    rw [← setSession_setSession c peer (c.session env peer) t]
    exact ((Prod.mk.injEq ..).mp (Except.ok.inj hput)).2.symm
  obtain ⟨rfl, rfl⟩ := attempt_ok hattempt
  exact ⟨t, rfl, hc₁⟩

/-- A method call whose method returns. -/
theorem onSession_run {α : Type} {env : Env} {peer : Str}
    {call : E2ESession → E2ESession × Except Fault α} {c : Client} {t : E2ESession} {a : α}
    (hcall : call (c.session env peer) = (t, .ok a)) :
    onSession env peer call c = .ok (a, c.setSession peer t) := by
  rw [onSession, run_bind (getSession_run env peer c), hcall]
  simp only
  have hput : putSession peer t (c.setSession peer (c.session env peer)) =
      .ok ((), c.setSession peer t) := by
    rw [← setSession_setSession c peer (c.session env peer) t]
    rfl
  rw [run_bind hput]
  rfl

def Established (c : Client) (peer : Str) : Prop :=
  ∃ s, c.mE2ESessions peer = some s ∧ s.sessState = .established

def isPlainText : Packet → Bool
  | .message msg => msg.mPayload.type = .plainText
  | _ => false

/-- The peers are still in agreement, and no plain text has been sent on top of
`base`. -/
structure Calm (peers : Set Str) (base : List Packet) (c : Client) : Prop where
  established : ∀ peer ∈ peers, c.Established peer
  quiet : ∃ pkts, c.sent = base ++ pkts ∧ ∀ pkt ∈ pkts, isPlainText pkt = false

variable {peers : Set Str} {base : List Packet}

theorem Calm.sent {c : Client} (hc : Calm peers base c) {pkt : Packet}
    (hpkt : isPlainText pkt = false) :
    Calm peers base { c with sent := c.sent ++ [pkt] } := by
  obtain ⟨hestablished, pkts, hsent, hquiet⟩ := hc
  refine ⟨hestablished, pkts ++ [pkt], ?_, ?_⟩
  · rw [hsent, List.append_assoc]
  · intro other hother
    rcases List.mem_append.mp hother with hother | hother
    · exact hquiet other hother
    · rw [List.mem_singleton.mp hother]
      exact hpkt

theorem calm_sendPacket (env : Env) {pkt : Packet} (hpkt : isPlainText pkt = false) :
    Keeps (Calm peers base) (sendPacket env pkt) :=
  (Keeps.modify fun _ hc => hc.sent hpkt).bind fun _ => Keeps.pure _

theorem calm_nextSeqNo : Keeps (Calm peers base) nextSeqNo :=
  Keeps.get.bind fun _ =>
    (Keeps.modify fun _ hc => ⟨hc.established, hc.quiet⟩).bind fun _ => Keeps.pure _

theorem calm_await (polls : Nat) (verdict : Packet → Verdict) :
    Keeps (Calm peers base) (await polls verdict) := by
  intro c pkt d hc hrun
  unfold await at hrun
  cases hreceive : receive verdict polls c.mail with
  | none => simp [hreceive] at hrun
  | some result =>
      simp only [hreceive, Except.ok.injEq, Prod.mk.injEq] at hrun
      rw [← hrun.2]
      exact ⟨hc.established, hc.quiet⟩

theorem calm_derivedMessage (pkt : Packet) : Keeps (Calm peers base) (derivedMessage pkt) := by
  cases pkt with
  | message msg => exact Keeps.pure msg
  | _ => exact Keeps.throw _

/-- A method that leaves established sessions established may be called on any
of them. -/
theorem calm_onSession {α : Type} {env : Env} {peer : Str}
    {call : E2ESession → E2ESession × Except Fault α}
    (hcall : ∀ s t a, peer ∈ peers → s.sessState = .established → call s = (t, .ok a) →
      t.sessState = .established) :
    Keeps (Calm peers base) (onSession env peer call) := by
  intro c a d hc hrun
  obtain ⟨t, hmethod, rfl⟩ := onSession_ok hrun
  refine ⟨?_, hc.quiet⟩
  intro other hother
  obtain ⟨s, hs, hstate⟩ := hc.established other hother
  by_cases hne : other = peer
  · subst hne
    rw [session_of_some hs] at hmethod
    exact ⟨t, setSession_self c other t, hcall s t a hother hstate hmethod⟩
  · exact ⟨s, by rw [setSession_of_ne c hne]; exact hs, hstate⟩

variable (P : Primitives)

theorem isPlainText_ack {seq : SequenceNo} {peer : Str} {pl : Payload}
    (hpl : pl.type = .e2eAck) : isPlainText (.message ⟨seq, .empty, peer, pl⟩) = false := by
  simp [isPlainText, hpl, Payload.Kind.e2eAck, Payload.Kind.plainText]

theorem isPlainText_init {seq : SequenceNo} {peer : Str} {pl : Payload}
    (hpl : pl.type = .e2eInit) : isPlainText (.message ⟨seq, .empty, peer, pl⟩) = false := by
  simp [isPlainText, hpl, Payload.Kind.e2eInit, Payload.Kind.plainText]

theorem calm_handleE2EInit (env : Env) (msg : MessagePacket) :
    Keeps (Calm peers base) (handleE2EInit P env msg) := by
  intro c b d hc hrun
  obtain ⟨reply, c₁, hcall, hrest⟩ := of_run_bind hrun
  have hc₁ : Calm peers base c₁ :=
    calm_onSession (fun s t a _ hs ht => E2ESession.handleInit_established P hs ht)
      c reply c₁ hc hcall
  cases reply with
  | none => exact Keeps.pure false c₁ b d hc₁ hrest
  | some ackpl =>
      obtain ⟨t, hhandle, _⟩ := onSession_ok hcall
      have htype := E2ESession.handleInit_reply P hhandle
      have hsend : Keeps (Calm peers base) (nextSeqNo >>= fun seq =>
          sendPacket env (.message ⟨seq, .empty, msg.mSender, ackpl⟩) >>= fun _ =>
            pure true) :=
        calm_nextSeqNo.bind fun seq =>
          (calm_sendPacket env (isPlainText_ack htype)).bind fun _ => Keeps.pure true
      exact hsend c₁ b d hc₁ hrest

theorem calm_handleE2EAck (env : Env) (msg : MessagePacket) :
    Keeps (Calm peers base) (handleE2EAck P env msg) :=
  (calm_onSession fun _ _ _ _ hs ht => E2ESession.handleAck_established P hs ht).bind
    fun _ => Keeps.pure ()

/-- Sending an INIT for a session that is not to stay established. -/
theorem calm_sendInit {env : Env} {peer : Str} (hpeer : peer ∉ peers)
    {call : E2ESession → E2ESession × Except Fault Payload}
    (hcall : ∀ s t pl, call s = (t, .ok pl) → pl.type = .e2eInit) :
    Keeps (Calm peers base) (onSession env peer call >>= fun pl =>
      nextSeqNo >>= fun seq =>
        sendPacket env (.message ⟨seq, .empty, peer, pl⟩) >>= fun res =>
          pure (decide (res = 0))) := by
  intro c b d hc hrun
  obtain ⟨pl, c₁, honce, hrest⟩ := of_run_bind hrun
  have hc₁ : Calm peers base c₁ :=
    calm_onSession (fun _ _ _ hmem => absurd hmem hpeer) c pl c₁ hc honce
  obtain ⟨t, hmethod, _⟩ := onSession_ok honce
  have hsend : Keeps (Calm peers base) (nextSeqNo >>= fun seq =>
      sendPacket env (.message ⟨seq, .empty, peer, pl⟩) >>= fun res =>
        pure (decide (res = 0))) :=
    calm_nextSeqNo.bind fun seq =>
      (calm_sendPacket env (isPlainText_init (hcall _ _ _ hmethod))).bind fun _ => Keeps.pure _
  exact hsend c₁ b d hc₁ hrest

theorem calm_initiateE2E (env : Env) (peer : Str) :
    Keeps (Calm peers base) (initiateE2E P env peer) := by
  intro c b d hc hrun
  obtain ⟨c', c₁, hget, hrest⟩ := of_run_bind hrun
  have hc₁ : Calm peers base c₁ := Keeps.get c c' c₁ hc hget
  have hsame : c' = c₁ := by
    cases hget
    rfl
  subst hsame
  by_cases hpeer : peer ∈ peers
  · obtain ⟨s, hs, hstate⟩ := hc₁.established peer hpeer
    rw [if_pos (by simp [hs, hstate])] at hrest
    exact Keeps.pure true c' b d hc₁ hrest
  · refine Keeps.ite (fun _ => Keeps.pure true) (fun _ => ?_) c' b d hc₁ hrest
    exact calm_sendInit hpeer fun _ _ _ hsend => E2ESession.sendInit_type P hsend

theorem calm_refreshE2E (env : Env) {peer : Str} (hpeer : peer ∉ peers) :
    Keeps (Calm peers base) (refreshE2E P env peer) :=
  calm_sendInit hpeer fun _ _ _ hsend => E2ESession.sendInit_type P hsend

theorem calm_setupE2E (env : Env) {peer : Str} {refresh : Bool}
    (hpeer : refresh = true → peer ∉ peers) :
    Keeps (Calm peers base) (setupE2E P env peer refresh) := by
  have hstart : Keeps (Calm peers base)
      (if refresh then refreshE2E P env peer else initiateE2E P env peer) :=
    Keeps.ite (fun hrefresh => calm_refreshE2E P env (hpeer hrefresh))
      fun _ => calm_initiateE2E P env peer
  unfold setupE2E
  refine hstart.bind fun started => ?_
  refine Keeps.ite (fun _ => Keeps.pure false) fun _ => ?_
  refine (calm_await _ _).bind fun pkt => (calm_derivedMessage pkt).bind fun msg => ?_
  apply Keeps.ite
  · intro _
    refine (calm_handleE2EInit P env msg).bind fun accepted => ?_
    refine Keeps.ite (fun _ => Keeps.pure true) fun _ => ?_
    refine (calm_await _ _).bind fun pkt => (calm_derivedMessage pkt).bind fun ack => ?_
    exact (calm_handleE2EAck P env ack).bind fun _ => Keeps.pure true
  · intro _
    apply Keeps.ite
    · exact fun _ => (calm_handleE2EAck P env msg).bind fun _ => Keeps.pure true
    · exact fun _ => Keeps.pure false

theorem calm_handleE2EPacket (env : Env) (msg : MessagePacket) :
    Keeps (Calm peers base) (handleE2EPacket P env msg) := by
  unfold handleE2EPacket
  apply Keeps.ite
  · exact fun _ => (calm_handleE2EInit P env msg).bind fun _ => Keeps.pure _
  · exact fun _ => Keeps.ite (fun _ => calm_handleE2EAck P env msg) fun _ => Keeps.pure _

theorem getSession_ok {env : Env} {peer : Str} {c d : Client} {s : E2ESession}
    (hrun : getSession env peer c = .ok (s, d)) :
    s = c.session env peer ∧ d = c.setSession peer s := by
  rw [getSession_run, Except.ok.injEq, Prod.mk.injEq] at hrun
  rw [← hrun.1]
  exact ⟨rfl, hrun.2.symm⟩

theorem calm_getSession (env : Env) (peer : Str) :
    Keeps (Calm peers base) (getSession env peer) := by
  intro c s d hc hrun
  rw [getSession_run, Except.ok.injEq, Prod.mk.injEq] at hrun
  rw [← hrun.2]
  refine ⟨?_, hc.quiet⟩
  intro other hother
  obtain ⟨t, ht, hstate⟩ := hc.established other hother
  by_cases hne : other = peer
  · subst hne
    rw [session_of_some ht]
    exact ⟨t, setSession_self c other t, hstate⟩
  · exact ⟨t, by rw [setSession_of_ne c hne]; exact ht, hstate⟩

theorem calm_attempt {α : Type} (result : Except Fault α) :
    Keeps (Calm peers base) (attempt result) := by
  cases result with
  | ok a => exact Keeps.pure a
  | error fault => exact Keeps.throw _

theorem calm_poll : Keeps (Calm peers base) poll := by
  intro c item d hc hrun
  cases hrun
  exact ⟨hc.established, hc.quiet⟩

theorem calm_receiveLoop (env : Env) : Keeps (Calm peers base) (receiveLoop P env) := by
  refine calm_poll.bind fun item => ?_
  cases item with
  | none => exact Keeps.pure _
  | some pkt =>
      cases pkt with
      | message msg =>
          apply Keeps.ite
          · exact fun _ => calm_handleE2EPacket P env msg
          · intro _
            refine Keeps.bind ?_ fun _ => Keeps.pure _
            exact (calm_getSession env msg.mSender).bind fun _ => calm_attempt _
      | _ => exact Keeps.pure _

theorem calm_login (env : Env) (username : Str) :
    Keeps (Calm peers base) (login env username) :=
  calm_nextSeqNo.bind fun _ => (calm_sendPacket env rfl).bind fun _ =>
    (calm_await _ _).bind fun _ => Keeps.pure _

theorem calm_getUsers (env : Env) : Keeps (Calm peers base) (getUsers env) := by
  refine calm_nextSeqNo.bind fun _ => (calm_sendPacket env rfl).bind fun _ => ?_
  exact Keeps.ite (fun _ => Keeps.pure _) fun _ => (calm_await _ _).bind fun _ => Keeps.pure _

theorem calm_quit (env : Env) : Keeps (Calm peers base) (quit env) :=
  calm_nextSeqNo.bind fun _ => (calm_sendPacket env rfl).bind fun _ => Keeps.pure _

/-- An ACK the wait can complete the exchange with this number by. -/
def AckFor (env : Env) (seqno : UInt32) (msg : MessagePacket) : Prop :=
  ∃ ack, E2EAck.ofPayload msg.mPayload env.ackStack = .ok ack ∧ ack.seqno = seqno

/-- What the peer's end-to-end packets have to begin with to answer an INIT
sent under `seqno` at `timestamp`: an INIT that goes before it, or the ACK for
it, which an INIT that does not go before it may precede. -/
inductive Answers (env : Env) (seqno : UInt32) (timestamp : UInt64) : List Packet → Prop
  | init {msg : MessagePacket} {init : E2EInit} {rest : List Packet}
      (htype : msg.mPayload.type = .e2eInit)
      (hparse : E2EInit.ofPayload msg.mPayload env.initStack = .ok init)
      (hbefore : seqno < init.seqno ∨ init.seqno = seqno ∧ init.timestamp < timestamp) :
      Answers env seqno timestamp (.message msg :: rest)
  | late {msg ackMsg : MessagePacket} {init : E2EInit} {rest : List Packet}
      (htype : msg.mPayload.type = .e2eInit)
      (hparse : E2EInit.ofPayload msg.mPayload env.initStack = .ok init)
      (hafter : ¬ (seqno < init.seqno ∨ init.seqno = seqno ∧ init.timestamp < timestamp))
      (hack : AckFor env seqno ackMsg) :
      Answers env seqno timestamp (.message msg :: .message ackMsg :: rest)
  | ack {msg : MessagePacket} {rest : List Packet}
      (htype : msg.mPayload.type = .e2eAck) (hack : AckFor env seqno msg) :
      Answers env seqno timestamp (.message msg :: rest)

/-- The INIT of a refresh gets out and is answered. -/
def RefreshAnswered (env : Env) (c : Client) (peer : Str) : Prop :=
  env.sendResult = 0 ∧ Answers env ((c.session env peer).sequenceNo + 1) env.timestamp
    (c.mail.packets.filter (isE2ePkt peer))

/-- A wait that returns has left the sessions alone, and the packets behind the
one it returns. -/
theorem waitForPred_ok {polls : Nat} {pred : Packet → Bool} {c d : Client} {pkt : Packet}
    (hrun : waitForPred polls pred c = .ok (pkt, d)) :
    c.mail.packets.filter pred = pkt :: d.mail.packets.filter pred ∧
      d.mE2ESessions = c.mE2ESessions := by
  obtain ⟨mail, hreceive⟩ := await_ok_iff.mp ⟨d, hrun⟩
  have hd : d = { c with mail := mail } := by
    simp only [waitForPred, await, hreceive, Except.ok.injEq, Prod.mk.injEq] at hrun
    exact hrun.2.symm
  have htake : ∀ pkt, decide ((if pred pkt then Verdict.take else .keep) = .take) =
      pred pkt := by
    intro pkt
    cases pred pkt <;> rfl
  have hwanted := receive_wanted hreceive
  simp only [Mailbox.wanted, htake] at hwanted
  rw [hd]
  exact ⟨hwanted, rfl⟩

theorem derivedMessage_ok {pkt : Packet} {msg : MessagePacket} {c d : Client}
    (hrun : derivedMessage pkt c = .ok (msg, d)) : pkt = .message msg ∧ d = c := by
  cases pkt with
  | message msg' =>
      cases hrun
      exact ⟨rfl, rfl⟩
  | _ => cases hrun

theorem isE2ePkt_message {peer : Str} {msg : MessagePacket}
    (hpkt : isE2ePkt peer (.message msg) = true) : msg.mSender = peer :=
  (of_decide_eq_true hpkt).2

theorem refreshE2E_run (env : Env) (peer : Str) (c : Client) :
    ∃ d, refreshE2E P env peer c = .ok (decide (env.sendResult = 0), d) ∧
      d.mail = c.mail ∧ d.mE2ESessions = (c.setSession peer
        ((c.session env peer).refreshed env.timestamp env.exponent)).mE2ESessions := by
  obtain ⟨pl, hrefresh, _⟩ := (c.session env peer).refresh_eq P env.timestamp env.exponent
  rw [refreshE2E, run_bind (onSession_run hrefresh)]
  exact ⟨_, rfl, rfl, rfl⟩

/-- How a session waiting for an answer takes an INIT. -/
theorem handleE2EInit_ok {env : Env} {msg : MessagePacket} {c d : Client} {b : Bool}
    {s : E2ESession} (hs : c.mE2ESessions msg.mSender = some s)
    (hrun : handleE2EInit P env msg c = .ok (b, d)) :
    ∃ init, E2EInit.ofPayload msg.mPayload env.initStack = .ok init ∧
      b = s.accepts init ∧ (b = true → d.Established msg.mSender) ∧
      (b = false → d.mail = c.mail ∧ d.mE2ESessions msg.mSender = some s) := by
  obtain ⟨reply, c₁, hcall, hrest⟩ := of_run_bind hrun
  obtain ⟨t, hhandle, rfl⟩ := onSession_ok hcall
  rw [session_of_some hs] at hhandle
  obtain ⟨init, hparse⟩ := E2ESession.handleInit_ok P hhandle
  rw [E2ESession.handleInit_eq P s hparse] at hhandle
  refine ⟨init, hparse, ?_⟩
  by_cases haccepts : s.accepts init = true
  · rw [if_pos haccepts] at hhandle
    obtain ⟨hstate, ackpl, rfl, _⟩ := E2ESession.acceptInit_ok P hhandle
    cases hrest
    refine ⟨haccepts.symm, fun _ => ⟨t, setSession_self c _ t, hstate⟩, ?_⟩
    intro hfalse
    cases hfalse
  · rw [if_neg haccepts, Prod.mk.injEq, Except.ok.injEq] at hhandle
    obtain ⟨rfl, rfl⟩ := hhandle
    cases hrest
    refine ⟨by simpa using haccepts, ?_, fun _ => ⟨rfl, setSession_self c _ s⟩⟩
    intro htrue
    cases htrue

theorem established_iff_of_some {c : Client} {peer : Str} {s : E2ESession}
    (hs : c.mE2ESessions peer = some s) : c.Established peer ↔ s.sessState = .established := by
  constructor
  · rintro ⟨t, ht, hstate⟩
    rw [hs, Option.some.injEq] at ht
    exact ht ▸ hstate
  · exact fun hstate => ⟨s, hs, hstate⟩

/-- How a session in use takes a payload as the answer. -/
theorem handleE2EAck_ok {env : Env} {msg : MessagePacket} {c d : Client}
    {s : E2ESession} (hs : c.mE2ESessions msg.mSender = some s)
    (hstate : s.sessState ≠ .unitialized)
    (hrun : handleE2EAck P env msg c = .ok ((), d)) :
    d.Established msg.mSender ↔ s.sessState = .established ∨ AckFor env s.sequenceNo msg := by
  obtain ⟨reply, c₁, hcall, hrest⟩ := of_run_bind hrun
  cases hrest
  obtain ⟨t, hhandle, rfl⟩ := onSession_ok hcall
  rw [session_of_some hs] at hhandle
  rw [established_iff_of_some (setSession_self c _ t)]
  by_cases hestablished : s.sessState = .established
  · exact iff_of_true (E2ESession.handleAck_established P hestablished hhandle)
      (Or.inl hestablished)
  · have hawaits : s.sessState = .initSent ∨ s.sessState = .refreshSent := by
      cases hcase : s.sessState <;> simp_all
    obtain ⟨ack, hparse⟩ := E2ESession.handleAck_ok P hawaits hhandle
    rw [E2ESession.handleAck_eq P s hparse] at hhandle
    by_cases hseq : ack.seqno = s.sequenceNo
    · rw [if_pos ⟨hawaits, hseq⟩] at hhandle
      exact iff_of_true (E2ESession.acceptAck_ok P hhandle) (Or.inr ⟨ack, hparse, hseq⟩)
    · rw [if_neg fun hboth => hseq hboth.2, Prod.mk.injEq] at hhandle
      obtain ⟨rfl, _⟩ := hhandle
      apply iff_of_false hestablished
      rintro (hstate | ⟨ack', hparse', hseq'⟩)
      · exact hestablished hstate
      · rw [hparse, Except.ok.injEq] at hparse'
        exact hseq (hparse' ▸ hseq')

/-- A first packet that is an ACK, or nothing of the kind. -/
theorem answers_ack_iff {env : Env} {seqno : UInt32} {timestamp : UInt64}
    {msg : MessagePacket} {rest : List Packet} (hinit : msg.mPayload.type ≠ .e2eInit) :
    Answers env seqno timestamp (.message msg :: rest) ↔
      msg.mPayload.type = .e2eAck ∧ AckFor env seqno msg := by
  constructor
  · intro hanswers
    cases hanswers with
    | init htype => exact absurd htype hinit
    | late htype => exact absurd htype hinit
    | ack htype hack => exact ⟨htype, hack⟩
  · rintro ⟨htype, hack⟩
    exact Answers.ack htype hack

/-- A first packet that is an INIT which does not go before the one sent. -/
theorem answers_late_iff {env : Env} {seqno : UInt32} {timestamp : UInt64}
    {msg ackMsg : MessagePacket} {init : E2EInit} {rest : List Packet}
    (htype : msg.mPayload.type = .e2eInit)
    (hparse : E2EInit.ofPayload msg.mPayload env.initStack = .ok init)
    (hafter : ¬ (seqno < init.seqno ∨ init.seqno = seqno ∧ init.timestamp < timestamp)) :
    Answers env seqno timestamp (.message msg :: .message ackMsg :: rest) ↔
      AckFor env seqno ackMsg := by
  constructor
  · intro hanswers
    cases hanswers with
    | init _ hparse' hbefore =>
        rw [hparse, Except.ok.injEq] at hparse'
        subst hparse'
        exact absurd hbefore hafter
    | late _ _ _ hack => exact hack
    | ack hack =>
        rw [htype] at hack
        cases hack
  · exact Answers.late htype hparse hafter

/-- A wait for the peer's next end-to-end packet. -/
theorem nextMessage_ok {polls : Nat} {peer : Str} {c d : Client} {msg : MessagePacket}
    (hrun : (waitForPred polls (isE2ePkt peer) >>= derivedMessage) c = .ok (msg, d)) :
    c.mail.packets.filter (isE2ePkt peer) =
        .message msg :: d.mail.packets.filter (isE2ePkt peer) ∧
      d.mE2ESessions = c.mE2ESessions ∧ msg.mSender = peer := by
  obtain ⟨pkt, c₁, hwait, hderived⟩ := of_run_bind hrun
  obtain ⟨rfl, rfl⟩ := derivedMessage_ok hderived
  obtain ⟨hpackets, hsessions⟩ := waitForPred_ok hwait
  refine ⟨hpackets, hsessions, isE2ePkt_message ?_⟩
  have hmem : .message msg ∈ c.mail.packets.filter (isE2ePkt peer) := by
    rw [hpackets]
    exact List.mem_cons_self
  exact (List.mem_filter.mp hmem).2

/-- The wait for an ACK after an INIT that was not taken up. -/
theorem nextAck_ok {env : Env} {peer : Str} {c d : Client} {b : Bool} {s : E2ESession}
    (hs : c.mE2ESessions peer = some s) (hstate : s.sessState ≠ .unitialized)
    (hrun : (do
      let msg ← derivedMessage (← waitForPred env.polls (isE2ePkt peer))
      handleE2EAck P env msg
      return true : ClientM Bool) c = .ok (b, d)) :
    ∃ msg rest, c.mail.packets.filter (isE2ePkt peer) = .message msg :: rest ∧
      (d.Established peer ↔ s.sessState = .established ∨ AckFor env s.sequenceNo msg) := by
  obtain ⟨pkt, c₁, hwait, hrest⟩ := of_run_bind hrun
  obtain ⟨msg, c₂, hderived, hanswer⟩ := of_run_bind hrest
  obtain ⟨hpackets, hkept, hsender⟩ := nextMessage_ok ((run_bind hwait).trans hderived)
  obtain ⟨_, c₃, hhandle, hlast⟩ := of_run_bind hanswer
  cases hlast
  subst hsender
  rw [← hkept] at hs
  exact ⟨msg, _, hpackets, handleE2EAck_ok P hs hstate hhandle⟩

/-- The waits of a call for a session in use leave it established exactly if it
was so before, or the peer has answered. -/
theorem answer_ok {env : Env} {peer : Str} {c d : Client} {b : Bool} {s : E2ESession}
    (hs : c.mE2ESessions peer = some s) (hstate : s.sessState ≠ .unitialized)
    (hrun : (do
      let msgPkt ← derivedMessage (← waitForPred env.polls (isE2ePkt peer))
      if msgPkt.mPayload.type = .e2eInit then
        if ← handleE2EInit P env msgPkt then return true
        let ackMsgPkt ← derivedMessage (← waitForPred env.polls (isE2ePkt peer))
        handleE2EAck P env ackMsgPkt
        return true
      else if msgPkt.mPayload.type = .e2eAck then
        handleE2EAck P env msgPkt
        return true
      else return false : ClientM Bool) c = .ok (b, d)) :
    d.Established peer ↔ s.sessState = .established ∨
      Answers env s.sequenceNo s.sessTimestamp (c.mail.packets.filter (isE2ePkt peer)) := by
  obtain ⟨pkt, c₁, hwait, hrest⟩ := of_run_bind hrun
  obtain ⟨msg, c₂, hderived, hanswer⟩ := of_run_bind hrest
  obtain ⟨hpackets, hkept, hsender⟩ := nextMessage_ok ((run_bind hwait).trans hderived)
  subst hsender
  rw [hpackets]
  rw [← hkept] at hs
  by_cases hinit : msg.mPayload.type = .e2eInit
  · rw [if_pos hinit] at hanswer
    obtain ⟨accepted, c₃, hhandle, hlast⟩ := of_run_bind hanswer
    obtain ⟨init, hparse, hb, haccepted, hrejected⟩ := handleE2EInit_ok P hs hhandle
    have hbefore : accepted = true ↔ s.sequenceNo < init.seqno ∨
        init.seqno = s.sequenceNo ∧ init.timestamp < s.sessTimestamp := by
      rw [hb, E2ESession.accepts, decide_eq_true_iff]
    cases accepted with
    | true =>
        cases hlast
        exact iff_of_true (haccepted rfl) (Or.inr (.init hinit hparse (hbefore.mp rfl)))
    | false =>
        rw [if_neg Bool.false_ne_true] at hlast
        obtain ⟨hmail₃, hs₃⟩ := hrejected rfl
        obtain ⟨ackMsg, rest, hpackets₃, hiff⟩ := nextAck_ok P hs₃ hstate hlast
        rw [hiff, ← hmail₃, hpackets₃, answers_late_iff hinit hparse]
        exact fun hbef => Bool.false_ne_true (hbefore.mpr hbef)
  · rw [if_neg hinit] at hanswer
    rw [answers_ack_iff hinit]
    by_cases hack : msg.mPayload.type = .e2eAck
    · rw [if_pos hack] at hanswer
      obtain ⟨_, c₃, hhandle, hlast⟩ := of_run_bind hanswer
      cases hlast
      rw [handleE2EAck_ok P hs hstate hhandle, and_iff_right hack]
    · rw [if_neg hack] at hanswer
      cases hanswer
      rw [established_iff_of_some hs, or_iff_left fun hboth => hack hboth.1]

/-- A refresh that returns has left the session established exactly if it was
answered. -/
theorem setupE2E_refresh_established {env : Env} {peer : Str} {c d : Client} {b : Bool}
    (hrun : setupE2E P env peer true c = .ok (b, d)) :
    d.Established peer ↔ RefreshAnswered env c peer := by
  obtain ⟨c₁, hrefresh, hmail, hsessions⟩ := refreshE2E_run P env peer c
  have hs : c₁.mE2ESessions peer =
      some ((c.session env peer).refreshed env.timestamp env.exponent) := by
    rw [hsessions, setSession_self]
  have hwaits : ((c.session env peer).refreshed env.timestamp env.exponent).sessState ≠
      .established := by
    rintro ⟨⟩
  rw [setupE2E, if_pos rfl, run_bind hrefresh] at hrun
  unfold RefreshAnswered
  by_cases hsend : env.sendResult = 0
  · rw [if_neg (by simp [hsend])] at hrun
    rw [answer_ok P hs (by rintro ⟨⟩) hrun, hmail, or_iff_right hwaits, and_iff_right hsend]
    rfl
  · rw [if_pos (by simp [hsend])] at hrun
    cases hrun
    rw [established_iff_of_some hs]
    exact iff_of_false hwaits fun hboth => hsend hboth.1

theorem refreshStale_ok {env : Env} {peer : Str} {s : E2ESession} {c d : Client}
    (hrun : refreshStale P env peer s c = .ok ((), d)) :
    if s.isStale env.now = true then ∃ b, setupE2E P env peer true c = .ok (b, d)
    else d = c := by
  unfold refreshStale at hrun
  by_cases hstale : s.isStale env.now = true
  · rw [if_pos hstale] at hrun ⊢
    obtain ⟨b, c₁, hsetup, hlast⟩ := of_run_bind hrun
    cases hlast
    exact ⟨b, hsetup⟩
  · rw [if_neg hstale] at hrun ⊢
    cases hrun
    rfl

/-- If its refresh is answered, a session that was established is so again, and
nothing in plain text has been sent. -/
theorem refreshStale_calm {env : Env} {peer other : Str} {s : E2ESession} {c d : Client}
    (hc : Calm {other} base c) (hs : c.mE2ESessions peer = some s)
    (hanswered : peer = other → s.isStale env.now = true → RefreshAnswered env c peer)
    (hrun : refreshStale P env peer s c = .ok ((), d)) : Calm {other} base d := by
  have hcases := refreshStale_ok P hrun
  by_cases hstale : s.isStale env.now = true
  · rw [if_pos hstale] at hcases
    obtain ⟨b, hsetup⟩ := hcases
    by_cases hpeer : peer = other
    · subst hpeer
      have hquiet : Calm ∅ base c := ⟨by rintro _ ⟨⟩, hc.quiet⟩
      have hkeeps : Keeps (Calm ∅ base) (setupE2E P env peer true) :=
        calm_setupE2E P env fun _ => id
      refine ⟨?_, (hkeeps c b d hquiet hsetup).quiet⟩
      rintro _ rfl
      exact (setupE2E_refresh_established P hsetup).mpr (hanswered rfl hstale)
    · have hkeeps : Keeps (Calm {other} base) (setupE2E P env peer true) :=
        calm_setupE2E P env fun _ => hpeer
      exact hkeeps c b d hc hsetup
  · rw [if_neg hstale] at hcases
    rw [hcases]
    exact hc

theorem Established.calm {c : Client} {peer : Str} (hc : c.Established peer) :
    Calm {peer} c.sent c :=
  ⟨by rintro _ rfl; exact hc, [], by simp, by simp⟩

theorem connectTo_established {env : Env} {uname peer : Str} {c d : Client} {b : Bool}
    (hc : c.Established peer)
    (hanswered : uname = peer → (c.session env peer).isStale env.now = true →
      RefreshAnswered env c peer)
    (hrun : connectTo P env uname c = .ok (b, d)) : d.Established peer := by
  obtain ⟨_, c₁, hmodify, hrest⟩ := of_run_bind hrun
  cases hmodify
  obtain ⟨found, c₂, hget, hrest₂⟩ := of_run_bind hrest
  cases hget
  obtain ⟨_, c₃, hrefresh, hlast⟩ := of_run_bind hrest₂
  cases hlast
  have hcalm : Calm {peer} c.sent { c with connected := uname } :=
    ⟨hc.calm.established, hc.calm.quiet⟩
  cases hs : c.mE2ESessions uname with
  | none =>
      simp only [hs] at hrefresh
      cases hrefresh
      exact hcalm.established peer rfl
  | some s =>
      simp only [hs] at hrefresh
      refine (refreshStale_calm P hcalm hs ?_ hrefresh).established peer rfl
      rintro rfl hstale
      exact hanswered rfl (by rw [session_of_some hs]; exact hstale)

/-- A send leaves the established session of a peer established and, if it is
to that peer, sends nothing in plain text. -/
theorem send_established {env : Env} {text : Str} {peer : Str} {c e : Client}
    {seq : SequenceNo} (hc : c.Established peer)
    (hanswered : c.connected = peer → (c.session env peer).isStale env.now = true →
      RefreshAnswered env c peer)
    (hrun : send P env text c = .ok (seq, e)) :
    e.Established peer ∧ (c.connected = peer →
      ∃ pkts, e.sent = c.sent ++ pkts ∧ ∀ pkt ∈ pkts, isPlainText pkt = false) := by
  obtain ⟨_, c₁, hnext, hrest₁⟩ := of_run_bind hrun
  have hcalm₁ := calm_nextSeqNo c _ c₁ hc.calm hnext
  cases hnext
  obtain ⟨_, _, hread, hrest₂⟩ := of_run_bind hrest₁
  cases hread
  obtain ⟨s, c₂, hget₂, hrest₃⟩ := of_run_bind hrest₂
  have hcalm₂ := calm_getSession env _ _ _ _ hcalm₁ hget₂
  obtain ⟨hs, hc₂⟩ := getSession_ok hget₂
  have hs₂ : c₂.mE2ESessions c.connected = some s := by
    rw [hc₂]
    exact setSession_self _ _ s
  obtain ⟨_, c₃, hrefresh, hrest₄⟩ := of_run_bind hrest₃
  have hcalm₃ : Calm {peer} c.sent c₃ := by
    refine refreshStale_calm P hcalm₂ hs₂ ?_ hrefresh
    rintro rfl hstale
    have hsession : c₂.session env c.connected = c.session env c.connected := by
      rw [session_of_some hs₂, hs]
      rfl
    have hrefreshed := hanswered rfl (by rw [← hsession, session_of_some hs₂]; exact hstale)
    rw [RefreshAnswered, hsession, hc₂]
    exact hrefreshed
  obtain ⟨s₄, c₄, hget₄, hrest₅⟩ := of_run_bind hrest₄
  have hcalm₄ := calm_getSession env _ _ _ _ hcalm₃ hget₄
  obtain ⟨_, hc₄⟩ := getSession_ok hget₄
  obtain ⟨pl, c₅, hattempt, hlast⟩ := of_run_bind hrest₅
  obtain ⟨hencrypt, rfl⟩ := attempt_ok hattempt
  cases hlast
  refine ⟨hcalm₄.established peer rfl, ?_⟩
  intro hpeer
  obtain ⟨t, ht, hstate⟩ := hcalm₄.established peer rfl
  rw [hc₄, ← hpeer, setSession_self, Option.some.injEq] at ht
  have hcipher : pl.type ≠ .plainText := by
    rw [ne_eq, E2ESession.encrypt_type P hencrypt, not_not, ht]
    exact hstate
  exact (hcalm₄.sent (by simpa [isPlainText] using hcipher)).quiet

end Client

end LeakyChat

/-
How a call of `setupE2E` comes out: where it waits, and whether the session is
established when it returns `true`.  A call that is no refresh sends nothing
for a session in use, and an ACK it cannot use counts as an answer.
-/
import LeakyChat.ClientSessions

namespace LeakyChat

open Program
open Transition

namespace E2ESession

variable {P : Primitives} {s t : E2ESession} {refresh : Bool} {now : UInt64} {exponent : Nat}

/-- The number and time of the INIT whose ACK a call then waits for. -/
def awaited (s : E2ESession) (refresh : Bool) (now : UInt64) : UInt32 × UInt64 :=
  if s.sends refresh then (s.sequenceNo + 1, now) else (s.sequenceNo, s.sessTimestamp)

/-- The session a call waits with. -/
theorem setup_session {sent : Option Payload}
    (hsetup : s.setup P refresh now exponent = (t, .ok sent)) :
    t.sessState ≠ .unitialized ∧
      (t.sessState = .established ↔ refresh = false ∧ s.sessState = .established) ∧
      (t.sequenceNo, t.sessTimestamp) = s.awaited refresh now := by
  cases refresh with
  | true =>
      obtain ⟨pl, hrefresh, _⟩ := s.refresh_eq P now exponent
      simp only [setup, ↓reduceIte, hrefresh, Prod.mk.injEq] at hsetup
      rw [← hsetup.1]
      simp [refreshed, awaited, sends]
  | false =>
      by_cases hstate : s.sessState = .unitialized
      · obtain ⟨pl, hsend, _⟩ := s.sendInit_eq P .initSent now
        simp only [setup, hstate, ne_eq, not_true_eq_false, Bool.false_eq_true, ↓reduceIte,
          initiate, hsend, Prod.mk.injEq] at hsetup
        rw [← hsetup.1]
        simp [hstate, awaited, sends]
      · simp only [setup, hstate, ne_eq, not_false_eq_true, Bool.false_eq_true, ↓reduceIte,
          Prod.mk.injEq] at hsetup
        rw [← hsetup.1]
        simp [hstate, awaited, sends]

end E2ESession

namespace Client

variable {P : Primitives} {env : Env} {peer : Str} {c d : Client}

/-- A session in use is one of the table. -/
theorem some_of_session (hstate : (c.session env peer).sessState ≠ .unitialized) :
    c.mE2ESessions peer = some (c.session env peer) := by
  cases hs : c.mE2ESessions peer with
  | none =>
      rw [session, hs] at hstate
      exact absurd rfl hstate
  | some s => rw [session_of_some hs]

theorem started_ok {refresh started : Bool}
    (hrun : (if refresh then refreshE2E P env peer else initiateE2E P env peer) c =
      .ok (started, d)) :
    ∃ s, d.mE2ESessions peer = some s ∧ d.mail = c.mail ∧ s.sessState ≠ .unitialized ∧
      (s.sessState = .established ↔
        refresh = false ∧ (c.session env peer).sessState = .established) ∧
      (s.sequenceNo, s.sessTimestamp) = (c.session env peer).awaited refresh env.timestamp := by
  obtain ⟨s, sent, hsetup, hleaves⟩ := started_leaves hrun
  obtain ⟨hused, hestablished, hawaited⟩ := E2ESession.setup_session hsetup
  have hsession := hleaves.session
  refine ⟨s, ?_, hleaves.mail, hused, hestablished, hawaited⟩
  rw [← hsession] at hused ⊢
  exact some_of_session hused

/-- A stale session that is refreshed, with an ACK of the peer for a number. -/
theorem exists_refreshed (seqno : UInt32) : ∃ (c d : Client) (ackpl : Payload) (key : PublicKey),
    Reachable (system .clear) (c.heard ackpl) ∧
      (c.session (sampleEnv 60000000001) bob).sequenceNo = 1 ∧ ackpl.type = .e2eAck ∧
      E2EAck.ofPayload ackpl zeros = .ok ⟨seqno, key.toStr⟩ ∧
      setupE2E .clear (sampleEnv 60000000001) bob true (c.heard ackpl) = .ok (true, d) := by
  obtain ⟨c, crypto, old, hreach, _, hmail, hs⟩ := reachable_sample
  obtain ⟨ackpl, key, htype, hparse⟩ := ackpl_ok seqno
  obtain ⟨t, hhandle⟩ : ∃ t,
      ((sampleSession crypto old).refreshed 60000000001 3).handleAck .clear ackpl zeros =
        (t, .ok none) := by
    rw [E2ESession.handleAck_eq .clear _ hparse]
    split
    · rw [E2ESession.acceptAck_eq .clear _ key.fitsBignum rfl]
      exact ⟨_, rfl⟩
    · exact ⟨_, rfl⟩
  obtain ⟨d, hsetup, _⟩ := setupE2E_heard hs htype hhandle
  have hheard := hreach.step (arrive_step c ackpl hmail (sampleEnv 0))
  exact ⟨c, d, ackpl, key, hheard, by rw [session_of_some hs]; rfl, htype, hparse, hsetup⟩

theorem heard_packets {c : Client} {pl : Payload} (htype : pl.type = .e2eAck) :
    (c.heard pl).mail.packets.filter (isE2ePkt bob) = [fromBob pl] := by
  simp [heard, SelectiveReceive.Mailbox.packets, fromBob, isE2ePkt, Payload.isE2EControl, htype]

/-- A call that returns `true` leaves the session established exactly if it waited
with an established session, or the peer's INITs and ACKs begin with an answer
to the INIT it waited with. -/
theorem setupE2E_true_iff {refresh : Bool}
    (hrun : setupE2E P env peer refresh c = .ok (true, d)) :
    d.Established peer ↔
      (refresh = false ∧ (c.session env peer).sessState = .established) ∨
      Answers env ((c.session env peer).awaited refresh env.timestamp).1
        ((c.session env peer).awaited refresh env.timestamp).2
        (c.mail.packets.filter (isE2ePkt peer)) := by
  unfold setupE2E at hrun
  obtain ⟨started, c₁, hstart, hanswer⟩ := of_run_bind hrun
  obtain ⟨s, hs, hmail, hused, hestablished, hawaited⟩ := started_ok hstart
  by_cases hfailed : (!started) = true
  · rw [if_pos hfailed] at hanswer
    cases hanswer
  rw [if_neg hfailed] at hanswer
  rw [answer_ok P hs hused hanswer, hestablished, ← hawaited, hmail]

/-- An ACK under the number of the refresh. -/
theorem setupE2E_true_iff_sample : ∃ c d,
    setupE2E .clear (sampleEnv 60000000001) bob true c = .ok (true, d) ∧ d.Established bob := by
  obtain ⟨c, d, ackpl, key, _, hseq, htype, hparse, hsetup⟩ := exists_refreshed 2
  refine ⟨_, d, hsetup, (setupE2E_true_iff hsetup).mpr (Or.inr ?_)⟩
  rw [heard_packets htype]
  refine Answers.ack htype ⟨_, hparse, ?_⟩
  change (2 : UInt32) = (c.session (sampleEnv 60000000001) bob).sequenceNo + 1
  rw [hseq]
  rfl

/-- An ACK under another number. -/
theorem setupE2E_true_unestablished : ∃ c d, Reachable (system .clear) c ∧
    setupE2E .clear (sampleEnv 60000000001) bob true c = .ok (true, d) ∧
      ¬ d.Established bob := by
  obtain ⟨c, d, ackpl, key, hreach, hseq, htype, hparse, hsetup⟩ := exists_refreshed 1
  refine ⟨_, d, hreach, hsetup, ?_⟩
  rw [setupE2E_refresh_established .clear hsetup, RefreshAnswered, heard_packets htype]
  rintro ⟨_, hanswers⟩
  have hother : ackpl.type ≠ .e2eInit := by
    rw [htype]
    decide
  obtain ⟨_, ack, hparse', hnumber⟩ : _ ∧ AckFor (sampleEnv 60000000001)
      ((c.session (sampleEnv 60000000001) bob).sequenceNo + 1) ⟨0, bob, .empty, ackpl⟩ :=
    (answers_ack_iff hother).mp hanswers
  cases hparse.symm.trans hparse'
  rw [hseq] at hnumber
  cases hnumber

/-- The states in which a call starts to wait: after its beginning, and after an INIT
that it has refused. -/
inductive StartsWait (P : Primitives) (env : Env) (uname : Str) (refresh : Bool) (c : Client) :
    Client → Prop
  | first {d : Client}
      (hstart : (if refresh then refreshE2E P env uname else initiateE2E P env uname) c =
        .ok (true, d)) :
      StartsWait P env uname refresh c d
  | second {c₁ c₂ d : Client} {msg : MessagePacket}
      (hstart : (if refresh then refreshE2E P env uname else initiateE2E P env uname) c =
        .ok (true, c₁))
      (hwait : waitForPred env.polls (isE2ePkt uname) c₁ = .ok (.message msg, c₂))
      (htype : msg.mPayload.type = .e2eInit)
      (hrefused : handleE2EInit P env msg c₂ = .ok (false, d)) :
      StartsWait P env uname refresh c d

/-- The calls of `setupE2E` that an action makes, and the state it makes them in. -/
inductive Action.Calls (env : Env) (c : Client) : Action → Str → Bool → Client → Prop
  | setupE2E (uname : Str) (refresh : Bool) :
      Calls env c (.setupE2E uname refresh) uname refresh c
  | connectTo {uname : Str} {s : E2ESession} (hs : c.mE2ESessions uname = some s)
      (hstale : s.isStale env.now = true) :
      Calls env c (.connectTo uname) uname true { c with connected := uname }
  | send (msg : Str) (hstale : (c.session env c.connected).isStale env.now = true) :
      Calls env c (.send msg) c.connected true
        (Client.setSession { c with curSeqNo := c.curSeqNo + 1 } c.connected
          (c.session env c.connected))

/-- An action starts to wait for a peer's INIT or ACK in state `d`. -/
def Action.WaitsAt (P : Primitives) (env : Env) (action : Action) (c : Client) (peer : Str)
    (d : Client) : Prop :=
  ∃ refresh c', action.Calls env c peer refresh c' ∧ StartsWait P env peer refresh c' d

theorem avoids_attempt {α : Type} (result : Except Fault α) :
    Avoids .waiting (attempt result) := by
  cases result with
  | ok a => exact Avoids.pure a
  | error fault => exact fun _ => nofun

theorem avoids_onSession {α : Type} (call : E2ESession → E2ESession × Except Fault α) :
    Avoids .waiting (onSession env peer call) := by
  intro c
  rw [onSession, run_bind (getSession_run env peer c)]
  exact avoids_attempt _ _

theorem avoids_sendInit {α : Type} (call : E2ESession → E2ESession × Except Fault α)
    (packet : SequenceNo → α → Packet) :
    Avoids .waiting (onSession env peer call >>= fun pl => nextSeqNo >>= fun seq =>
      sendPacket env (packet seq pl) >>= fun res => pure (decide (res = 0))) :=
  (avoids_onSession call).bind fun _ => fun _ => nofun

theorem avoids_start (refresh : Bool) :
    Avoids .waiting (if refresh then refreshE2E P env peer else initiateE2E P env peer) := by
  apply Avoids.ite
  · exact avoids_sendInit _ _
  · refine Avoids.bind (fun _ => nofun) fun _ => ?_
    exact Avoids.ite (Avoids.pure true) (avoids_sendInit _ _)

theorem avoids_handleE2EInit (msg : MessagePacket) :
    Avoids .waiting (handleE2EInit P env msg) := by
  refine (avoids_onSession _).bind fun response => ?_
  cases response with
  | none => exact Avoids.pure false
  | some response => exact fun _ => nofun

theorem avoids_handleE2EAck (msg : MessagePacket) : Avoids .waiting (handleE2EAck P env msg) :=
  (avoids_onSession _).bind fun _ => Avoids.pure _

theorem avoids_derivedMessage (pkt : Packet) : Avoids .waiting (derivedMessage pkt) := by
  cases pkt with
  | message msg => exact Avoids.pure msg
  | _ => exact fun _ => nofun

/-- What follows the second wait of a call waits no more. -/
theorem avoids_secondAck (pkt : Packet) :
    Avoids .waiting (derivedMessage pkt >>= fun ackMsg =>
      handleE2EAck P env ackMsg >>= fun _ => pure true) :=
  (avoids_derivedMessage pkt).bind fun ackMsg =>
    (avoids_handleE2EAck ackMsg).bind fun _ => Avoids.pure true

theorem avoids_firstAck (msg : MessagePacket) :
    Avoids .waiting (if msg.mPayload.type = .e2eAck then
      handleE2EAck P env msg >>= fun _ => pure true else pure false) :=
  Avoids.ite ((avoids_handleE2EAck msg).bind fun _ => Avoids.pure true) (Avoids.pure false)

/-- A call that goes on waiting is in one of the waits it starts. -/
theorem startsWait_of_waiting {refresh : Bool}
    (hrun : setupE2E P env peer refresh c = .error .waiting) :
    ∃ d, StartsWait P env peer refresh c d ∧
      waitForPred env.polls (isE2ePkt peer) d = .error .waiting := by
  unfold setupE2E at hrun
  rcases run_bind_error_iff.mp hrun with hstart | ⟨started, c₁, hstart, hrun⟩
  · exact absurd hstart (avoids_start refresh c)
  cases started with
  | false => cases hrun
  | true =>
      rw [if_neg (by decide)] at hrun
      rcases run_bind_error_iff.mp hrun with hwait | ⟨pkt, c₂, hwait, hrun⟩
      · exact ⟨c₁, StartsWait.first hstart, hwait⟩
      obtain ⟨msg, rfl, _⟩ := waitForPred_takes hwait
      change (if msg.mPayload.type = Payload.Kind.e2eInit then (_ : ClientM Bool) else _) c₂ = _
        at hrun
      by_cases hinit : msg.mPayload.type = .e2eInit
      · rw [if_pos hinit] at hrun
        rcases run_bind_error_iff.mp hrun with hhandle | ⟨accepted, c₃, hhandle, hrun⟩
        · exact absurd hhandle (avoids_handleE2EInit msg c₂)
        cases accepted with
        | true => cases hrun
        | false =>
            refine ⟨c₃, StartsWait.second hstart hwait hinit hhandle, ?_⟩
            rw [if_neg Bool.false_ne_true] at hrun
            rcases run_bind_error_iff.mp hrun with hagain | ⟨pkt, c₄, _, hrun⟩
            · exact hagain
            · exact absurd hrun (avoids_secondAck pkt c₄)
      · rw [if_neg hinit] at hrun
        exact absurd hrun (avoids_firstAck msg c₂)

/-- A call goes on waiting exactly if one of the waits it starts does. -/
theorem setupE2E_waiting_iff {refresh : Bool} :
    setupE2E P env peer refresh c = .error .waiting ↔
      ∃ d, StartsWait P env peer refresh c d ∧
        waitForPred env.polls (isE2ePkt peer) d = .error .waiting := by
  refine ⟨startsWait_of_waiting, ?_⟩
  rintro ⟨d, hstarts, hwait⟩
  cases hstarts with
  | first hstart =>
      rw [setupE2E, run_bind hstart, if_neg (by decide)]
      exact run_bind_error hwait
  | second hstart hfirst htype hrefused =>
      rw [setupE2E, run_bind hstart, if_neg (by decide), run_bind hfirst]
      refine (run_bind rfl).trans ?_
      rw [if_pos htype, run_bind hrefused, if_neg Bool.false_ne_true]
      exact run_bind_error hwait

theorem refreshStale_waiting_iff {s : E2ESession} :
    refreshStale P env peer s c = .error .waiting ↔
      s.isStale env.now = true ∧ setupE2E P env peer true c = .error .waiting := by
  unfold refreshStale
  by_cases hstale : s.isStale env.now = true
  · rw [if_pos hstale, run_bind_error_iff, and_iff_right hstale]
    exact or_iff_left (by rintro ⟨_, _, _, ⟨⟩⟩)
  · rw [if_neg hstale]
    exact iff_of_false nofun fun hboth => hstale hboth.1

/-- What an operation returns does not matter to an action. -/
theorem discard_waiting {α : Type} (m : ClientM α) :
    (m >>= fun _ => pure PUnit.unit) c = .error .waiting ↔ m c = .error .waiting :=
  run_bind_error_iff.trans (or_iff_left (by rintro ⟨_, _, _, ⟨⟩⟩))

theorem connectTo_waiting_iff {uname : Str} :
    Client.perform P env (.connectTo uname) c = .error .waiting ↔
      ∃ s, c.mE2ESessions uname = some s ∧ s.isStale env.now = true ∧
        setupE2E P env uname true { c with connected := uname } = .error .waiting := by
  have hconnect : connectTo P env uname c =
      (Option.forM (c.mE2ESessions uname) (refreshStale P env uname) >>= fun _ =>
        pure true) { c with connected := uname } := rfl
  refine (discard_waiting _).trans ?_
  rw [hconnect, run_bind_error_iff, or_iff_left (by rintro ⟨_, _, _, ⟨⟩⟩)]
  cases hs : c.mE2ESessions uname with
  | none => exact iff_of_false nofun (by rintro ⟨_, ⟨⟩, _⟩)
  | some s =>
      change refreshStale P env uname s _ = .error .waiting ↔ _
      rw [refreshStale_waiting_iff]
      simp

theorem send_waiting_iff {msg : Str} :
    Client.perform P env (.send msg) c = .error .waiting ↔
      (c.session env c.connected).isStale env.now = true ∧
        setupE2E P env c.connected true
          (Client.setSession { c with curSeqNo := c.curSeqNo + 1 } c.connected
            (c.session env c.connected)) = .error .waiting := by
  let c₁ : Client := { c with curSeqNo := c.curSeqNo + 1 }
  have hget : getSession env c.connected c₁ =
      .ok (c.session env c.connected, c₁.setSession c.connected (c.session env c.connected)) :=
    getSession_run env c.connected c₁
  have hrest : Avoids .waiting (getSession env c.connected >>= fun session =>
      attempt (session.encrypt P env.nonce msg) >>= fun pl =>
        sendPacket env (.message ⟨c.curSeqNo, .empty, c.connected, pl⟩) >>= fun _ =>
          pure c.curSeqNo) := by
    refine Avoids.bind ?_ fun session => (avoids_attempt _).bind fun _ => fun _ => nofun
    intro c'
    rw [getSession_run]
    exact nofun
  have hsend : send P env msg c =
      (getSession env c.connected >>= fun session =>
        refreshStale P env c.connected session >>= fun _ =>
          getSession env c.connected >>= fun session =>
            attempt (session.encrypt P env.nonce msg) >>= fun pl =>
              sendPacket env (.message ⟨c.curSeqNo, .empty, c.connected, pl⟩) >>= fun _ =>
                pure c.curSeqNo) c₁ := rfl
  refine (discard_waiting _).trans ?_
  rw [hsend, run_bind hget, run_bind_error_iff, refreshStale_waiting_iff]
  exact or_iff_left fun ⟨_, c₂, _, hlast⟩ => hrest c₂ hlast

theorem receiveLoop_avoids : Avoids .waiting (receiveLoop P env) := by
  refine Avoids.bind (fun _ => nofun) fun item => ?_
  cases item with
  | none => exact Avoids.pure _
  | some pkt =>
      cases pkt with
      | message msg =>
          apply Avoids.ite
          · refine Avoids.ite ((avoids_handleE2EInit msg).bind fun _ => Avoids.pure _) ?_
            exact Avoids.ite (avoids_handleE2EAck msg) (Avoids.pure _)
          · refine Avoids.bind ?_ fun _ => Avoids.pure _
            refine Avoids.bind (fun c' => ?_) fun _ => avoids_attempt _
            rw [getSession_run]
            exact nofun
      | _ => exact Avoids.pure _

/-- The waits of connecting, sending and setting up are those of the calls made;
receiving and quitting do not wait. -/
theorem perform_waiting_iff {action : Action} (hlogin : ∀ username, action ≠ .login username)
    (husers : action ≠ .getUsers) :
    Client.perform P env action c = .error .waiting ↔
      ∃ peer d, action.WaitsAt P env c peer d ∧
        waitForPred env.polls (isE2ePkt peer) d = .error .waiting := by
  have hcalls : (∃ peer d, action.WaitsAt P env c peer d ∧
      waitForPred env.polls (isE2ePkt peer) d = .error .waiting) ↔
      ∃ peer refresh c', action.Calls env c peer refresh c' ∧
        setupE2E P env peer refresh c' = .error .waiting := by
    simp only [setupE2E_waiting_iff, Action.WaitsAt]
    constructor
    · rintro ⟨peer, d, ⟨refresh, c', hcall, hstarts⟩, hwait⟩
      exact ⟨peer, refresh, c', hcall, d, hstarts, hwait⟩
    · rintro ⟨peer, refresh, c', hcall, d, hstarts, hwait⟩
      exact ⟨peer, d, ⟨refresh, c', hcall, hstarts⟩, hwait⟩
  rw [hcalls]
  cases action with
  | login username => exact absurd rfl (hlogin username)
  | getUsers => exact absurd rfl husers
  | connectTo uname =>
      rw [connectTo_waiting_iff]
      constructor
      · rintro ⟨s, hs, hstale, hwait⟩
        exact ⟨_, _, _, .connectTo hs hstale, hwait⟩
      · rintro ⟨_, _, _, hcall, hwait⟩
        cases hcall with
        | connectTo hs hstale => exact ⟨_, hs, hstale, hwait⟩
  | send msg =>
      rw [send_waiting_iff]
      constructor
      · rintro ⟨hstale, hwait⟩
        exact ⟨_, _, _, .send msg hstale, hwait⟩
      · rintro ⟨_, _, _, hcall, hwait⟩
        cases hcall with
        | send msg hstale => exact ⟨hstale, hwait⟩
  | setupE2E uname refresh =>
      refine (discard_waiting _).trans ?_
      constructor
      · exact fun hwait => ⟨_, _, _, .setupE2E uname refresh, hwait⟩
      · rintro ⟨_, _, _, ⟨⟩, hwait⟩
        exact hwait
  | receive => exact iff_of_false (receiveLoop_avoids c) (by rintro ⟨_, _, _, ⟨⟩, _⟩)
  | quit => exact iff_of_false nofun (by rintro ⟨_, _, _, ⟨⟩, _⟩)
  | arrive item => exact iff_of_false nofun (by rintro ⟨_, _, _, ⟨⟩, _⟩)

/-- A call that is a refresh, or for no established session, waits with an INIT of
its client outstanding. -/
theorem startsWait_outstanding {refresh : Bool} (hc : Announced P c)
    (hstate : ¬ (refresh = false ∧ (c.session env peer).sessState = .established))
    (hstarts : StartsWait P env peer refresh c d) : d.Outstanding P peer := by
  have hkeeps : Keeps (Held (Announced P) Set.univ)
      (if refresh then refreshE2E P env peer else initiateE2E P env peer) :=
    Keeps.ite (fun _ => announced_kept.keeps_refreshE2E trivial)
      fun _ => announced_kept.keeps_initiateE2E trivial
  have hawaits : ∀ {c₁ : Client}, (if refresh then refreshE2E P env peer
      else initiateE2E P env peer) c = .ok (true, c₁) →
      ∃ s, c₁.mE2ESessions peer = some s ∧ s.Awaits := by
    intro c₁ hstart
    obtain ⟨s, hs, _, hused, hestablished, _⟩ := started_ok hstart
    have hopen : s.sessState ≠ .established := fun hcase => hstate (hestablished.mp hcase)
    refine ⟨s, hs, ?_⟩
    unfold E2ESession.Awaits
    cases hcase : s.sessState <;> simp_all
  cases hstarts with
  | first hstart =>
      obtain ⟨s, hs, hwaits⟩ := hawaits hstart
      exact (hkeeps c true d (held_univ hc) hstart).holds.outstanding peer s hs hwaits
  | second hstart hwait htype hrefused =>
      obtain ⟨s, hs, hwaits⟩ := hawaits hstart
      obtain ⟨msg, hmsg, hsender, _⟩ := waitForPred_takes hwait
      cases hmsg
      have hwaited :=
        announced_kept.keeps_await _ _ _ _ _ (hkeeps c true _ (held_univ hc) hstart) hwait
      have hlast := announced_kept.keeps_handleE2EInit trivial trivial _ false d hwaited hrefused
      rw [← (waitForPred_ok hwait).2, ← hsender] at hs
      obtain ⟨_, _, _, _, hkept⟩ := handleE2EInit_ok P hs hrefused
      rw [← hsender]
      exact hlast.holds.outstanding _ s (hkept rfl).2 hwaits

/-- Performing an action waits for nobody but with an INIT of this client outstanding,
exactly if the action is no set-up of an established session. -/
theorem waits_outstanding_iff (hreach : Reachable (system P) c) (env : Env) (action : Action) :
    (∀ peer d, action.WaitsAt P env c peer d → d.Outstanding P peer) ↔
      ∀ uname, action = .setupE2E uname false →
        (c.session env uname).sessState ≠ .established := by
  have hannounced := announced_of_reachable hreach
  constructor
  · rintro houtstanding uname rfl hstate
    have hused : (c.session env uname).sessState ≠ .unitialized := by simp [hstate]
    have hstart : initiateE2E P env uname c = .ok (true, c) := by
      have hget : (get : ClientM Client) c = .ok (c, c) := rfl
      rw [initiateE2E, run_bind hget, if_pos ((any_session_iff c env uname).mpr hused)]
      rfl
    obtain ⟨s, _, _, hs, hawaits, _⟩ := houtstanding uname c
      ⟨false, c, .setupE2E uname false, StartsWait.first hstart⟩
    rw [session_of_some hs] at hstate
    exact hawaits.ne_established hstate
  · rintro hallowed peer d ⟨refresh, c', hcall, hstarts⟩
    cases hcall with
    | setupE2E uname refresh =>
        refine startsWait_outstanding hannounced ?_ hstarts
        rintro ⟨rfl, hstate⟩
        exact hallowed peer rfl hstate
    | connectTo hs hstale =>
        have hconnected := announced_kept.frame hannounced { c with connected := peer } rfl rfl
        refine startsWait_outstanding hconnected ?_ hstarts
        rintro ⟨⟨⟩, _⟩
    | send msg hstale =>
        have hcounted := announced_kept.frame hannounced
          { c with curSeqNo := c.curSeqNo + 1 } rfl rfl
        refine startsWait_outstanding (announced_kept.session trivial env hcounted) ?_ hstarts
        rintro ⟨⟨⟩, _⟩

/-- A new client that sets up a session waits with its INIT outstanding. -/
theorem waits_outstanding_iff_sample :
    ∃ d, (Action.setupE2E bob false).WaitsAt .clear (sampleEnv 0) fresh bob d ∧
      d.Outstanding .clear bob := by
  obtain ⟨pl, hsend, _⟩ := (E2ESession.fresh 1 2).sendInit_eq .clear .initSent 0
  have hstart : ∃ d, initiateE2E .clear (sampleEnv 0) bob fresh = .ok (true, d) := by
    have hget : (get : ClientM Client) fresh = .ok (fresh, fresh) := rfl
    have hmethod : onSession (sampleEnv 0) bob (fun session => session.initiate .clear 0) fresh =
        .ok (pl, fresh.setSession bob _) := onSession_run hsend
    rw [initiateE2E, run_bind hget]
    exact ⟨_, run_bind hmethod⟩
  obtain ⟨d, hstart⟩ := hstart
  have hwaits : (Action.setupE2E bob false).WaitsAt .clear (sampleEnv 0) fresh bob d :=
    ⟨false, fresh, .setupE2E bob false, StartsWait.first hstart⟩
  refine ⟨d, hwaits, (waits_outstanding_iff (Reachable.of_init rfl) _ _).mpr ?_ bob d hwaits⟩
  rintro _ ⟨⟩ ⟨⟩

/-- A client sets up the session that an INIT of `bob` has established already: it
sends nothing, and with nothing in its mailbox it waits for ever. -/
theorem setupE2E_waits_forever : ∃ c, Reachable (system .clear) c ∧ ∀ env,
    (Action.setupE2E bob false).WaitsAt .clear env c bob c ∧ ¬ c.Outstanding .clear bob ∧
      setupE2E .clear env bob false c = .error .waiting := by
  obtain ⟨c, crypto, old, hreach, _, hmail, hs⟩ := reachable_sample
  refine ⟨c, hreach, fun env => ?_⟩
  have hused : (c.session env bob).sessState ≠ .unitialized := by
    rw [session_of_some hs]
    rintro ⟨⟩
  have hstart : initiateE2E .clear env bob c = .ok (true, c) := by
    have hget : (get : ClientM Client) c = .ok (c, c) := rfl
    rw [initiateE2E, run_bind hget, if_pos ((any_session_iff c env bob).mpr hused)]
    rfl
  have hstarts : StartsWait .clear env bob false c c := StartsWait.first hstart
  have hnone : ∀ result, SelectiveReceive.receive
      (fun pkt => if isE2ePkt bob pkt then .take else .keep) env.polls c.mail ≠ some result := by
    rintro ⟨pkt, mail⟩ hreceive
    have hfind := SelectiveReceive.find?_of_receive hreceive
    rw [hmail] at hfind
    cases hfind
  have hwait : waitForPred env.polls (isE2ePkt bob) c = .error .waiting := by
    rw [waitForPred, await, Option.eq_none_iff_forall_ne_some.mpr hnone]
  refine ⟨⟨false, c, .setupE2E bob false, hstarts⟩, ?_,
    setupE2E_waiting_iff.mpr ⟨c, hstarts, hwait⟩⟩
  rintro ⟨s, _, _, hs', hawaits, _⟩
  cases hs.symm.trans hs'
  exact hawaits.ne_established rfl

end Client

end LeakyChat

/-
A call of `setupE2E` as the client runs it, and the same call cut at its waits.
Whatever else is in the mailbox, the client does with the INITs and ACKs of its
peer what the steps of the call do.
-/
import LeakyChat.ClientE2E
import LeakyChat.SetupPair

namespace LeakyChat

open Program

namespace Client

/-- The INIT or ACK a packet takes to a peer. -/
def control (peer : Str) : Packet → Option Payload
  | .message msg =>
      if msg.mPayload.isE2EControl ∧ msg.mReceiver = peer then some msg.mPayload else none
  | _ => none

/-- The INITs and ACKs sent to a peer so far. -/
def controls (c : Client) (peer : Str) : List Payload := c.sent.filterMap (control peer)

/-- The INIT or ACK of a peer that a packet brings. -/
def controlOf (peer : Str) : Packet → Option Payload
  | .message msg =>
      if msg.mPayload.isE2EControl ∧ msg.mSender = peer then some msg.mPayload else none
  | _ => none

/-- The INITs and ACKs of a peer that have not been examined. -/
def unexamined (c : Client) (peer : Str) : List Payload :=
  c.mail.packets.filterMap (controlOf peer)

variable {P : Primitives} {env : Env} {peer : Str} {c d : Client}

theorem session_setSession (c : Client) (env : Env) (peer : Str) (s : E2ESession) :
    (c.setSession peer s).session env peer = s :=
  session_of_some (setSession_self c peer s) env

/-- What a client has after a method call and what it sends about it. -/
def sentControl (c : Client) (peer : Str) (s : E2ESession) (pl : Payload) : Client :=
  { c.setSession peer s with
    curSeqNo := c.curSeqNo + 1
    sent := c.sent ++ [.message ⟨c.curSeqNo, .empty, peer, pl⟩] }

theorem controls_sentControl {pl : Payload} (hpl : pl.isE2EControl = true) (s : E2ESession) :
    (c.sentControl peer s pl).controls peer = c.controls peer ++ [pl] := by
  simp [controls, sentControl, control, hpl]

theorem session_sentControl (s : E2ESession) (pl : Payload) :
    (c.sentControl peer s pl).session env peer = s :=
  session_setSession c env peer s

theorem isE2EControl_init {pl : Payload} (htype : pl.type = .e2eInit) :
    pl.isE2EControl = true := by
  simp [Payload.isE2EControl, htype]

theorem isE2EControl_ack {pl : Payload} (htype : pl.type = .e2eAck) :
    pl.isE2EControl = true := by
  simp [Payload.isE2EControl, htype]

/-- Where a step of a call leaves the client: with the session, the mailbox it
had, and what it sends to the peer. -/
structure Leaves (env : Env) (peer : Str) (c d : Client) (s : E2ESession)
    (sent : Option Payload) : Prop where
  session : d.session env peer = s
  mail : d.mail = c.mail
  controls : d.controls peer = c.controls peer ++ sent.toList

theorem Leaves.unexamined {s : E2ESession} {sent : Option Payload}
    (hleaves : Leaves env peer c d s sent) : d.unexamined peer = c.unexamined peer := by
  rw [Client.unexamined, hleaves.mail, Client.unexamined]

theorem leaves_sentControl {pl : Payload} (hpl : pl.isE2EControl = true) (s : E2ESession) :
    Leaves env peer c (c.sentControl peer s pl) s (some pl) :=
  ⟨session_sentControl s pl, rfl, controls_sentControl hpl s⟩

theorem leaves_setSession (s : E2ESession) : Leaves env peer c (c.setSession peer s) s none :=
  ⟨session_setSession c env peer s, rfl, (List.append_nil _).symm⟩

/-- A method that makes a payload, and the message that takes it to the peer. -/
theorem sendInit_leaves {call : E2ESession → E2ESession × Except Fault Payload} {b : Bool}
    (hcall : ∀ s t pl, call s = (t, .ok pl) → pl.type = .e2eInit)
    (hrun : (onSession env peer call >>= fun pl =>
      nextSeqNo >>= fun seq =>
        sendPacket env (.message ⟨seq, .empty, peer, pl⟩) >>= fun res =>
          pure (decide (res = 0))) c = .ok (b, d)) :
    ∃ s pl, call (c.session env peer) = (s, .ok pl) ∧ Leaves env peer c d s (some pl) := by
  obtain ⟨pl, c₁, honce, hrest⟩ := of_run_bind hrun
  obtain ⟨s, hmethod, rfl⟩ := onSession_ok honce
  cases hrest
  exact ⟨s, pl, hmethod, leaves_sentControl (isE2EControl_init (hcall _ _ _ hmethod)) s⟩

theorem refreshE2E_leaves {started : Bool}
    (hrun : refreshE2E P env peer c = .ok (started, d)) :
    ∃ s pl, (c.session env peer).setup P true env.timestamp env.exponent = (s, .ok (some pl)) ∧
      Leaves env peer c d s (some pl) := by
  obtain ⟨s, pl, hmethod, hleaves⟩ :=
    sendInit_leaves (fun _ _ _ hsend => E2ESession.sendInit_type P hsend) hrun
  have hrefresh : (c.session env peer).refresh P env.timestamp env.exponent = (s, .ok pl) :=
    hmethod
  refine ⟨s, pl, ?_, hleaves⟩
  simp only [E2ESession.setup, ↓reduceIte, hrefresh]
  rfl

/-- Whether there is a session in use, as `initiateE2E` asks. -/
theorem any_session_iff (c : Client) (env : Env) (peer : Str) :
    (c.mE2ESessions peer).any (·.sessState ≠ .unitialized) = true ↔
      (c.session env peer).sessState ≠ .unitialized := by
  cases hs : c.mE2ESessions peer with
  | none => simp [session, hs, E2ESession.fresh]
  | some s => simp [session_of_some hs]

theorem initiateE2E_leaves {started : Bool}
    (hrun : initiateE2E P env peer c = .ok (started, d)) :
    ∃ s sent, (c.session env peer).setup P false env.timestamp env.exponent = (s, .ok sent) ∧
      Leaves env peer c d s sent := by
  obtain ⟨_, _, hget, hrest⟩ := of_run_bind hrun
  cases hget
  by_cases hused : (c.mE2ESessions peer).any (·.sessState ≠ .unitialized) = true
  · rw [if_pos hused] at hrest
    cases hrest
    have hstate := (any_session_iff c env peer).mp hused
    refine ⟨c.session env peer, none, ?_, rfl, rfl, (List.append_nil _).symm⟩
    simp only [E2ESession.setup, hstate, ne_eq, not_false_eq_true, Bool.false_eq_true,
      ↓reduceIte]
  · rw [if_neg hused] at hrest
    obtain ⟨s, pl, hmethod, hleaves⟩ :=
      sendInit_leaves (fun _ _ _ hsend => E2ESession.sendInit_type P hsend) hrest
    have hinitiate : (c.session env peer).initiate P env.timestamp = (s, .ok pl) := hmethod
    have hstate := (any_session_iff c env peer).not.mp hused
    refine ⟨s, some pl, ?_, hleaves⟩
    simp only [E2ESession.setup, hstate, Bool.false_eq_true, ↓reduceIte, hinitiate]
    rfl

/-- Before its first wait, a call has set up the session. -/
theorem started_leaves {refresh started : Bool}
    (hrun : (if refresh then refreshE2E P env peer else initiateE2E P env peer) c =
      .ok (started, d)) :
    ∃ s sent, (c.session env peer).setup P refresh env.timestamp env.exponent =
        (s, .ok sent) ∧ Leaves env peer c d s sent := by
  cases refresh with
  | true =>
      obtain ⟨s, pl, hsetup, hleaves⟩ := refreshE2E_leaves hrun
      exact ⟨s, some pl, hsetup, hleaves⟩
  | false => exact initiateE2E_leaves hrun

/-- An INIT that is examined. -/
theorem handleE2EInit_examines {msg : MessagePacket} {b : Bool} (wait : Option Wait)
    (hsender : msg.mSender = peer) (htype : msg.mPayload.type = .e2eInit)
    (hwait : wait ≠ some .second) (hrun : handleE2EInit P env msg c = .ok (b, d)) :
    ∃ s reply next, (c.session env peer).examine P wait msg.mPayload env.initStack
        env.initExponent = (s, .ok (reply, next)) ∧ Leaves env peer c d s reply ∧
      next = if b then none else wait.map fun _ => .second := by
  obtain ⟨reply, c₁, hcall, hrest⟩ := of_run_bind hrun
  rw [hsender] at hcall hrest
  obtain ⟨s, hhandle, rfl⟩ := onSession_ok hcall
  have hexamine : (c.session env peer).examine P wait msg.mPayload env.initStack
      env.initExponent =
        (s, .ok (reply, if reply.isSome then none else wait.map fun _ => .second)) := by
    simp only [E2ESession.examine, if_pos (And.intro hwait htype), hhandle]
    rfl
  refine ⟨s, reply, _, hexamine, ?_⟩
  cases reply with
  | none =>
      cases hrest
      exact ⟨leaves_setSession s, rfl⟩
  | some ackpl =>
      cases hrest
      have hack := isE2EControl_ack (E2ESession.handleInit_reply P hhandle)
      exact ⟨leaves_sentControl hack s, rfl⟩

/-- Anything else, and whatever comes in the second wait. -/
theorem handleE2EAck_examines {msg : MessagePacket} (wait : Option Wait)
    (hsender : msg.mSender = peer)
    (htype : ¬ (wait ≠ some .second ∧ msg.mPayload.type = .e2eInit))
    (hrun : handleE2EAck P env msg c = .ok ((), d)) :
    ∃ s, (c.session env peer).examine P wait msg.mPayload env.ackStack env.initExponent =
        (s, .ok (none, none)) ∧ Leaves env peer c d s none := by
  obtain ⟨_, c₁, hcall, hrest⟩ := of_run_bind hrun
  rw [hsender] at hcall
  obtain ⟨s, hhandle, rfl⟩ := onSession_ok hcall
  cases hrest
  refine ⟨s, ?_, leaves_setSession s⟩
  simp only [E2ESession.examine, if_neg htype, hhandle]
  rfl

/-- The receive loop examines an INIT or ACK as a client in no call. -/
theorem handleE2EPacket_examines {msg : MessagePacket} (hsender : msg.mSender = peer)
    (hcontrol : msg.mPayload.isE2EControl = true)
    (hrun : handleE2EPacket P env msg c = .ok ((), d)) :
    ∃ stack s reply, (c.session env peer).examine P none msg.mPayload stack env.initExponent =
        (s, .ok (reply, none)) ∧ Leaves env peer c d s reply := by
  unfold handleE2EPacket at hrun
  by_cases htype : msg.mPayload.type = .e2eInit
  · rw [if_pos htype] at hrun
    obtain ⟨b, c₁, hinit, hrest⟩ := of_run_bind hrun
    cases hrest
    obtain ⟨s, reply, next, hexamine, hleaves, hnext⟩ :=
      handleE2EInit_examines none hsender htype (by rintro ⟨⟩) hinit
    have hnone : next = none := by simpa using hnext
    exact ⟨_, s, reply, hnone ▸ hexamine, hleaves⟩
  · have hack : msg.mPayload.type = .e2eAck := by
      simpa [Payload.isE2EControl, htype] using hcontrol
    rw [if_neg htype, if_pos hack] at hrun
    obtain ⟨s, hexamine, hleaves⟩ :=
      handleE2EAck_examines none hsender (fun h => htype h.2) hrun
    exact ⟨_, s, none, hexamine, hleaves⟩

theorem isE2ePkt_eq (peer : Str) (pkt : Packet) :
    isE2ePkt peer pkt = (controlOf peer pkt).isSome := by
  cases pkt with
  | message msg =>
      by_cases hpkt : msg.mPayload.isE2EControl ∧ msg.mSender = peer <;>
        simp [isE2ePkt, controlOf, hpkt]
  | _ => rfl

theorem controlOf_eq_some {pkt : Packet} {pl : Payload} (hpkt : controlOf peer pkt = some pl) :
    ∃ msg, pkt = .message msg ∧ msg.mSender = peer ∧ msg.mPayload.isE2EControl = true ∧
      msg.mPayload = pl := by
  cases pkt with
  | message msg =>
      by_cases hmsg : msg.mPayload.isE2EControl ∧ msg.mSender = peer
      · simp only [controlOf, if_pos hmsg, Option.some.injEq] at hpkt
        exact ⟨msg, rfl, hmsg.2, hmsg.1, hpkt⟩
      · simp [controlOf, if_neg hmsg] at hpkt
  | _ => cases hpkt

/-- What a wait looks for is all that is examined. -/
theorem filterMap_wanted (peer : Str) (mail : SelectiveReceive.Mailbox Packet) :
    (mail.wanted fun pkt => if isE2ePkt peer pkt then .take else .keep).filterMap
      (controlOf peer) = mail.packets.filterMap (controlOf peer) := by
  rw [SelectiveReceive.Mailbox.wanted, List.filterMap_filter]
  congr 1
  funext pkt
  cases hpkt : controlOf peer pkt with
  | none => simp [isE2ePkt_eq, hpkt]
  | some pl => simp [isE2ePkt_eq, hpkt]

/-- A wait takes the first INIT or ACK of the peer, and leaves the others. -/
theorem waitForPred_takes {polls : Nat} {pkt : Packet}
    (hrun : waitForPred polls (isE2ePkt peer) c = .ok (pkt, d)) :
    ∃ msg, pkt = .message msg ∧ msg.mSender = peer ∧ msg.mPayload.isE2EControl = true ∧
      c.unexamined peer = msg.mPayload :: d.unexamined peer ∧ d = { c with mail := d.mail } := by
  obtain ⟨mail, hreceive⟩ := await_ok_iff.mp ⟨d, hrun⟩
  have hd : d = { c with mail := mail } := by
    rw [waitForPred, await, hreceive] at hrun
    cases hrun
    rfl
  subst hd
  have hfind := SelectiveReceive.find?_of_receive hreceive
  have hpkt : isE2ePkt peer pkt = true := by
    simpa using List.find?_some hfind
  rw [isE2ePkt_eq] at hpkt
  obtain ⟨pl, hpl⟩ := Option.isSome_iff_exists.mp hpkt
  obtain ⟨msg, rfl, hsender, hcontrol, rfl⟩ := controlOf_eq_some hpl
  refine ⟨msg, rfl, hsender, hcontrol, ?_, rfl⟩
  have hwanted := congrArg (List.filterMap (controlOf peer))
    (SelectiveReceive.receive_wanted hreceive)
  rwa [filterMap_wanted, List.filterMap_cons_some hpl, filterMap_wanted] at hwanted

/-- How a call gets through its waits: it examines what comes from the peer until
there is nothing more to wait for. -/
inductive Waits (P : Primitives) (env : Env) (peer : Str) :
    Client → Option Wait → Client → Prop
  | done (c : Client) : Waits P env peer c none c
  | examine {c c' d : Client} {wait : Wait} {pl : Payload} {stack : Stack} {exponent : Nat}
      {s : E2ESession} {reply : Option Payload} {next : Option Wait}
      (hexamine : (c.session env peer).examine P (some wait) pl stack exponent =
        (s, .ok (reply, next)))
      (hsession : c'.session env peer = s)
      (hunexamined : c.unexamined peer = pl :: c'.unexamined peer)
      (hcontrols : c'.controls peer = c.controls peer ++ reply.toList)
      (hrest : Waits P env peer c' next d) :
      Waits P env peer c (some wait) d

/-- A wait, and what is done with the packet it takes. -/
theorem Waits.of_takes {c₁ c₂ : Client} {wait : Wait} {pl : Payload} {stack : Stack}
    {exponent : Nat} {s : E2ESession} {reply : Option Payload} {next : Option Wait}
    (hmail : c₁ = { c with mail := c₁.mail })
    (htaken : c.unexamined peer = pl :: c₁.unexamined peer)
    (hexamine : (c₁.session env peer).examine P (some wait) pl stack exponent =
      (s, .ok (reply, next)))
    (hleaves : Leaves env peer c₁ c₂ s reply) (hrest : Waits P env peer c₂ next d) :
    Waits P env peer c (some wait) d := by
  have hsession : c₁.session env peer = c.session env peer := by
    rw [hmail]
    rfl
  have hcontrols : c₁.controls peer = c.controls peer := by
    rw [hmail]
    rfl
  rw [hsession] at hexamine
  refine Waits.examine hexamine hleaves.session ?_ ?_ hrest
  · rw [htaken, hleaves.unexamined]
  · rw [hleaves.controls, hcontrols]

/-- The wait for the ACK after an INIT that has been refused. -/
theorem second_waits
    (hrun : (waitForPred env.polls (isE2ePkt peer) >>= fun pkt => derivedMessage pkt >>=
      fun msg => handleE2EAck P env msg >>= fun _ => pure true) c = .ok (true, d)) :
    Waits P env peer c (some .second) d := by
  obtain ⟨pkt, c₁, hwait, hrun⟩ := of_run_bind hrun
  obtain ⟨msg, rfl, hsender, _, htaken, hmail⟩ := waitForPred_takes hwait
  obtain ⟨_, c₂, hderived, hrun⟩ := of_run_bind hrun
  cases hderived
  obtain ⟨_, c₃, hhandle, hrun⟩ := of_run_bind hrun
  cases hrun
  obtain ⟨s, hexamine, hleaves⟩ := handleE2EAck_examines (some .second) hsender
    (fun hsecond => hsecond.1 rfl) hhandle
  exact Waits.of_takes hmail htaken hexamine hleaves (Waits.done d)

/-- A call that returns has set up the session, and then waited as `Waits` says. -/
theorem setupE2E_waits {refresh : Bool} (hrun : setupE2E P env peer refresh c = .ok (true, d)) :
    ∃ s sent c₁, (c.session env peer).setup P refresh env.timestamp env.exponent =
        (s, .ok sent) ∧ Leaves env peer c c₁ s sent ∧ Waits P env peer c₁ (some .first) d := by
  unfold setupE2E at hrun
  obtain ⟨started, c₁, hstart, hrun⟩ := of_run_bind hrun
  obtain ⟨s, sent, hsetup, hstarted⟩ := started_leaves hstart
  refine ⟨s, sent, c₁, hsetup, hstarted, ?_⟩
  by_cases hfailed : (!started) = true
  · rw [if_pos hfailed] at hrun
    cases hrun
  rw [if_neg hfailed] at hrun
  obtain ⟨pkt, c₂, hwait, hrun⟩ := of_run_bind hrun
  obtain ⟨msg, rfl, hsender, hcontrol, htaken, hmail⟩ := waitForPred_takes hwait
  obtain ⟨_, c₃, hderived, hrun⟩ := of_run_bind hrun
  cases hderived
  by_cases hinit : msg.mPayload.type = .e2eInit
  · rw [if_pos hinit] at hrun
    obtain ⟨established, c₃, hhandle, hrun⟩ := of_run_bind hrun
    obtain ⟨s', reply, next, hexamine, hleaves, hnext⟩ :=
      handleE2EInit_examines (some .first) hsender hinit (by rintro ⟨⟩) hhandle
    refine Waits.of_takes hmail htaken hexamine hleaves ?_
    cases established with
    | true =>
        cases hrun
        exact hnext ▸ Waits.done d
    | false => exact hnext ▸ second_waits hrun
  · have hack : msg.mPayload.type = .e2eAck := by
      simpa [Payload.isE2EControl, hinit] using hcontrol
    rw [if_neg hinit, if_pos hack] at hrun
    obtain ⟨_, c₃, hhandle, hrun⟩ := of_run_bind hrun
    cases hrun
    obtain ⟨s', hexamine, hleaves⟩ := handleE2EAck_examines (some .first) hsender
      (fun hfirst => hinit hfirst.2) hhandle
    exact Waits.of_takes hmail htaken hexamine hleaves (Waits.done d)

end Client

end LeakyChat

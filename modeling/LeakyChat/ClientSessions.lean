/-
What the client's operations do to its end-to-end sessions: they make fresh
ones and call methods of them, and only of the peers the operation is about.
Every session a client has is a session that such calls lead to, and one that
awaits an ACK has its INIT among the packets sent.
-/
import LeakyChat.ClientRun
import LeakyChat.ClientSetup
import LeakyChat.SessionStates

namespace LeakyChat

open Program
open Transition
open E2ESession (Call)

namespace Client

theorem keeps_attempt {α : Type} {inv : Client → Prop} (result : Except Fault α) :
    Keeps inv (attempt result) := by
  cases result with
  | ok a => exact Keeps.pure a
  | error fault => exact Keeps.throw _

/-- A property of the sessions and of what has been sent that survives all that
operations about `peers` do to them with the packets of `mail`. -/
structure Kept (P : Primitives) (peers : Set Str) (mail : Set Packet) (inv : Client → Prop) :
    Prop where
  frame : ∀ {c : Client}, inv c → ∀ d : Client, d.mE2ESessions = c.mE2ESessions →
    d.sent = c.sent → inv d
  packet : ∀ {c : Client} (pkt : Packet), inv c → inv { c with sent := c.sent ++ [pkt] }
  make : ∀ {c : Client} {peer : Str} (exponent oldExponent : Nat), peer ∈ peers →
    c.mE2ESessions peer = none → inv c → inv (c.setSession peer (.fresh exponent oldExponent))
  start : ∀ {c : Client} {peer : Str} {s t : E2ESession} {call : Call} {pl : Payload}
    (seq : SequenceNo), peer ∈ peers → c.mE2ESessions peer = some s → call.Starts →
    call.Allowed s → s.run P call = (t, .ok (some pl)) → inv c →
    inv { c.setSession peer t with sent := c.sent ++ [.message ⟨seq, .empty, peer, pl⟩] }
  handleInit : ∀ {c : Client} {msg : MessagePacket} {s : E2ESession} (stack : Stack)
    (exponent : Nat), msg.mSender ∈ peers → .message msg ∈ mail →
    c.mE2ESessions msg.mSender = some s → inv c →
    inv (c.setSession msg.mSender (s.handleInit P msg.mPayload stack exponent).1)
  handleAck : ∀ {c : Client} {msg : MessagePacket} {s : E2ESession} (stack : Stack),
    msg.mSender ∈ peers → .message msg ∈ mail → c.mE2ESessions msg.mSender = some s → inv c →
    inv (c.setSession msg.mSender (s.handleAck P msg.mPayload stack).1)

/-- The property, and that nothing but `mail` is in the mailbox. -/
structure Held (inv : Client → Prop) (mail : Set Packet) (c : Client) : Prop where
  holds : inv c
  mail : ∀ pkt ∈ c.mail.packets, pkt ∈ mail

theorem held_univ {inv : Client → Prop} {c : Client} (hc : inv c) : Held inv Set.univ c :=
  ⟨hc, fun _ _ => trivial⟩

namespace Kept

variable {P : Primitives} {peers : Set Str} {mail : Set Packet} {inv : Client → Prop}
  (hkept : Kept P peers mail inv) {env : Env} {peer : Str}

include hkept

theorem keeps_sendPacket (pkt : Packet) : Keeps (Held inv mail) (sendPacket env pkt) :=
  (Keeps.modify fun _ hc => ⟨hkept.packet pkt hc.holds, hc.mail⟩).bind fun _ => Keeps.pure _

theorem keeps_nextSeqNo : Keeps (Held inv mail) nextSeqNo := by
  intro c seq d hc hrun
  cases hrun
  exact ⟨hkept.frame hc.holds _ rfl rfl, hc.mail⟩

theorem keeps_await (polls : Nat) (verdict : Packet → SelectiveReceive.Verdict) :
    Keeps (Held inv mail) (await polls verdict) := by
  intro c pkt d hc hrun
  obtain ⟨mail, hreceive⟩ := await_ok_iff.mp ⟨d, hrun⟩
  rw [await, hreceive] at hrun
  cases hrun
  exact ⟨hkept.frame hc.holds _ rfl rfl,
    fun pkt hpkt => hc.mail pkt (SelectiveReceive.receive_subset hreceive hpkt)⟩

theorem keeps_poll : Keeps (Held inv mail) poll := by
  intro c item d hc hrun
  cases hrun
  exact ⟨hkept.frame hc.holds _ rfl rfl,
    fun pkt hpkt => hc.mail pkt ((SelectiveReceive.polled_poll c.mail).packets_subset hpkt)⟩

theorem session (hpeer : peer ∈ peers) {c : Client} (env : Env) (hc : inv c) :
    inv (c.setSession peer (c.session env peer)) := by
  cases hs : c.mE2ESessions peer with
  | none =>
      rw [Client.session, hs]
      exact hkept.make _ _ hpeer hs hc
  | some s =>
      rw [session_of_some hs]
      refine hkept.frame hc _ ?_ rfl
      rw [setSession, ← hs, Function.update_eq_self]

theorem keeps_getSession (hpeer : peer ∈ peers) : Keeps (Held inv mail) (getSession env peer) := by
  intro c s d hc hrun
  obtain ⟨rfl, rfl⟩ := getSession_ok hrun
  exact ⟨hkept.session hpeer env hc.holds, hc.mail⟩

/-- A call that sends an INIT, with the message that takes it to the peer. -/
theorem keeps_sendInit (hpeer : peer ∈ peers)
    {method : E2ESession → E2ESession × Except Fault Payload} {allowed : E2ESession → Prop}
    (hmethod : ∀ s, allowed s → ∃ call : Call, call.Starts ∧ call.Allowed s ∧
      s.run P call = ((method s).1, (method s).2.map some)) {c d : Client} {b : Bool}
    (hallowed : allowed (c.session env peer)) (hc : Held inv mail c)
    (hrun : (onSession env peer method >>= fun pl =>
      nextSeqNo >>= fun seq =>
        sendPacket env (.message ⟨seq, .empty, peer, pl⟩) >>= fun res =>
          pure (decide (res = 0))) c = .ok (b, d)) : Held inv mail d := by
  obtain ⟨pl, c₁, honce, hrest⟩ := of_run_bind hrun
  obtain ⟨t, hcall, rfl⟩ := onSession_ok honce
  cases hrest
  obtain ⟨call, hstarts, hcallAllowed, hcallRun⟩ := hmethod _ hallowed
  rw [hcall] at hcallRun
  have hstarted := hkept.start c.curSeqNo hpeer (setSession_self c peer _) hstarts hcallAllowed
    hcallRun (hkept.session hpeer env hc.holds)
  rw [setSession_setSession] at hstarted
  exact ⟨hkept.frame hstarted _ rfl rfl, hc.mail⟩

theorem keeps_initiateE2E (hpeer : peer ∈ peers) :
    Keeps (Held inv mail) (initiateE2E P env peer) := by
  intro c b d hc hrun
  obtain ⟨_, _, hget, hrest⟩ := of_run_bind hrun
  cases hget
  by_cases hused : (c.mE2ESessions peer).any (·.sessState ≠ .unitialized) = true
  · rw [if_pos hused] at hrest
    cases hrest
    exact hc
  · rw [if_neg hused] at hrest
    have hstate := (any_session_iff c env peer).not.mp hused
    have hmethod : ∀ s : E2ESession, s.sessState = .unitialized →
        ∃ call : Call, call.Starts ∧ call.Allowed s ∧ s.run P call =
          ((s.initiate P env.timestamp).1, (s.initiate P env.timestamp).2.map some) :=
      fun s hs => ⟨.initiate env.timestamp, trivial, hs, rfl⟩
    exact hkept.keeps_sendInit hpeer hmethod (not_not.mp hstate) hc hrest

theorem keeps_refreshE2E (hpeer : peer ∈ peers) :
    Keeps (Held inv mail) (refreshE2E P env peer) := by
  intro c b d hc hrun
  have hmethod : ∀ s : E2ESession, True →
      ∃ call : Call, call.Starts ∧ call.Allowed s ∧ s.run P call =
        ((s.refresh P env.timestamp env.exponent).1,
          (s.refresh P env.timestamp env.exponent).2.map some) :=
    fun s _ => ⟨.refresh env.timestamp env.exponent, trivial, trivial, rfl⟩
  exact hkept.keeps_sendInit hpeer hmethod trivial hc hrun

theorem keeps_handleE2EInit {msg : MessagePacket} (hpeer : msg.mSender ∈ peers)
    (hmsg : .message msg ∈ mail) :
    Keeps (Held inv mail) (handleE2EInit P env msg) := by
  intro c b d hc hrun
  obtain ⟨reply, c₁, hcall, hrest⟩ := of_run_bind hrun
  obtain ⟨t, hhandle, rfl⟩ := onSession_ok hcall
  have hhandled := hkept.handleInit env.initStack env.initExponent hpeer hmsg
    (setSession_self c msg.mSender _) (hkept.session hpeer env hc.holds)
  rw [hhandle, setSession_setSession] at hhandled
  cases reply with
  | none =>
      cases hrest
      exact ⟨hhandled, hc.mail⟩
  | some ackpl =>
      have hsend : Keeps (Held inv mail) (nextSeqNo >>= fun seq =>
          sendPacket env (.message ⟨seq, .empty, msg.mSender, ackpl⟩) >>= fun _ => pure true) :=
        hkept.keeps_nextSeqNo.bind fun seq =>
          (hkept.keeps_sendPacket _).bind fun _ => Keeps.pure true
      exact hsend _ b d ⟨hhandled, hc.mail⟩ hrest

theorem keeps_handleE2EAck {msg : MessagePacket} (hpeer : msg.mSender ∈ peers)
    (hmsg : .message msg ∈ mail) :
    Keeps (Held inv mail) (handleE2EAck P env msg) := by
  intro c b d hc hrun
  obtain ⟨reply, c₁, hcall, hrest⟩ := of_run_bind hrun
  obtain ⟨t, hhandle, rfl⟩ := onSession_ok hcall
  cases hrest
  have hhandled := hkept.handleAck env.ackStack hpeer hmsg
    (setSession_self c msg.mSender _) (hkept.session hpeer env hc.holds)
  rw [hhandle, setSession_setSession] at hhandled
  exact ⟨hhandled, hc.mail⟩

theorem keeps_handleE2EPacket {msg : MessagePacket} (hpeer : msg.mSender ∈ peers)
    (hmsg : .message msg ∈ mail) : Keeps (Held inv mail) (handleE2EPacket P env msg) := by
  unfold handleE2EPacket
  apply Keeps.ite
  · exact fun _ => (hkept.keeps_handleE2EInit hpeer hmsg).bind fun _ => Keeps.pure _
  · exact fun _ => Keeps.ite (fun _ => hkept.keeps_handleE2EAck hpeer hmsg) fun _ => Keeps.pure _

/-- A wait for the peer of a call yields messages of that peer only. -/
theorem keeps_nextMessage {α : Type} {next : MessagePacket → ClientM α} (polls : Nat)
    (hnext : ∀ msg : MessagePacket, msg.mSender = peer → .message msg ∈ mail →
      Keeps (Held inv mail) (next msg)) :
    Keeps (Held inv mail) (waitForPred polls (isE2ePkt peer) >>= fun pkt =>
      derivedMessage pkt >>= fun msg => next msg) := by
  intro c a d hc hrun
  obtain ⟨pkt, c₁, hwait, hrest⟩ := of_run_bind hrun
  obtain ⟨msg, rfl, hsender, _⟩ := waitForPred_takes hwait
  obtain ⟨_, c₂, hderived, hlast⟩ := of_run_bind hrest
  cases hderived
  obtain ⟨rest, hreceive⟩ := await_ok_iff.mp ⟨c₁, hwait⟩
  have hmsg := List.mem_of_find?_eq_some (SelectiveReceive.find?_of_receive hreceive)
  exact hnext msg hsender (hc.mail _ hmsg) c₁ a d (hkept.keeps_await _ _ _ _ _ hc hwait) hlast

theorem keeps_setupE2E (hpeer : peer ∈ peers) (refresh : Bool) :
    Keeps (Held inv mail) (setupE2E P env peer refresh) := by
  have hstart : Keeps (Held inv mail)
      (if refresh then refreshE2E P env peer else initiateE2E P env peer) :=
    Keeps.ite (fun _ => hkept.keeps_refreshE2E hpeer) fun _ => hkept.keeps_initiateE2E hpeer
  refine hstart.bind fun started => ?_
  refine Keeps.ite (fun _ => Keeps.pure false) fun _ => ?_
  refine hkept.keeps_nextMessage _ fun msg hsender hmsg => ?_
  apply Keeps.ite
  · intro _
    refine (hkept.keeps_handleE2EInit (hsender ▸ hpeer) hmsg).bind fun accepted => ?_
    refine Keeps.ite (fun _ => Keeps.pure true) fun _ => ?_
    refine hkept.keeps_nextMessage _ fun ack hackSender hack => ?_
    exact (hkept.keeps_handleE2EAck (hackSender ▸ hpeer) hack).bind fun _ => Keeps.pure true
  · intro _
    apply Keeps.ite
    · exact fun _ =>
        (hkept.keeps_handleE2EAck (hsender ▸ hpeer) hmsg).bind fun _ => Keeps.pure true
    · exact fun _ => Keeps.pure false

theorem keeps_refreshStale (hpeer : peer ∈ peers) (s : E2ESession) :
    Keeps (Held inv mail) (refreshStale P env peer s) :=
  Keeps.ite (fun _ => (hkept.keeps_setupE2E hpeer true).bind fun _ => Keeps.pure _)
    fun _ => Keeps.pure _

theorem keeps_connectTo (hpeer : peer ∈ peers) : Keeps (Held inv mail) (connectTo P env peer) := by
  intro c b d hc hrun
  obtain ⟨_, c₁, hmodify, hrest⟩ := of_run_bind hrun
  cases hmodify
  obtain ⟨_, _, hget, hrest⟩ := of_run_bind hrest
  cases hget
  obtain ⟨_, c₂, hrefresh, hlast⟩ := of_run_bind hrest
  cases hlast
  have hc₁ : Held inv mail { c with connected := peer } :=
    ⟨hkept.frame hc.holds _ rfl rfl, hc.mail⟩
  cases hs : c.mE2ESessions peer with
  | none =>
      simp only [hs] at hrefresh
      cases hrefresh
      exact hc₁
  | some s =>
      simp only [hs] at hrefresh
      exact hkept.keeps_refreshStale hpeer s _ _ _ hc₁ hrefresh

theorem send {msg : Str} {c d : Client} {seq : SequenceNo} (hpeer : c.connected ∈ peers)
    (hc : Held inv mail c) (hrun : send P env msg c = .ok (seq, d)) : Held inv mail d := by
  obtain ⟨_, c₁, hnext, hrest⟩ := of_run_bind hrun
  have hc₁ := hkept.keeps_nextSeqNo _ _ _ hc hnext
  cases hnext
  obtain ⟨_, _, hget, hrest⟩ := of_run_bind hrest
  cases hget
  have hremaining : Keeps (Held inv mail) (getSession env c.connected >>= fun session =>
      refreshStale P env c.connected session >>= fun _ =>
        getSession env c.connected >>= fun session =>
          attempt (session.encrypt P env.nonce msg) >>= fun pl =>
            sendPacket env (.message ⟨c.curSeqNo, .empty, c.connected, pl⟩) >>= fun _ =>
              pure c.curSeqNo) := by
    refine (hkept.keeps_getSession hpeer).bind fun session => ?_
    refine (hkept.keeps_refreshStale hpeer session).bind fun _ => ?_
    refine (hkept.keeps_getSession hpeer).bind fun session => ?_
    refine (keeps_attempt _).bind fun pl => ?_
    exact (hkept.keeps_sendPacket _).bind fun _ => Keeps.pure _
  exact hremaining _ _ _ hc₁ hrest

theorem keeps_login (username : Str) : Keeps (Held inv mail) (login env username) :=
  hkept.keeps_nextSeqNo.bind fun _ => (hkept.keeps_sendPacket _).bind fun _ =>
    (hkept.keeps_await _ _).bind fun _ => Keeps.pure _

theorem keeps_getUsers : Keeps (Held inv mail) (getUsers env) := by
  refine hkept.keeps_nextSeqNo.bind fun _ => (hkept.keeps_sendPacket _).bind fun _ => ?_
  exact Keeps.ite (fun _ => Keeps.pure _) fun _ =>
    (hkept.keeps_await _ _).bind fun _ => Keeps.pure _

theorem keeps_quit : Keeps (Held inv mail) (quit env) :=
  hkept.keeps_nextSeqNo.bind fun _ => (hkept.keeps_sendPacket _).bind fun _ => Keeps.pure _

theorem receiveLoop {c d : Client}
    (hpeer : ∀ msg, c.mail.poll.1 = some (.message msg) → msg.mSender ∈ peers)
    (hc : Held inv mail c) (hrun : receiveLoop P env c = .ok ((), d)) : Held inv mail d := by
  obtain ⟨item, c₁, hpoll, hrest⟩ := of_run_bind hrun
  have hc₁ := hkept.keeps_poll _ _ _ hc hpoll
  have hitem : c.mail.poll.1 = item := by
    cases hpoll
    rfl
  cases item with
  | none =>
      cases hrest
      exact hc₁
  | some pkt =>
      cases pkt with
      | message msg =>
          have hmsg : Packet.message msg ∈ c.mail.packets := by
            rw [(SelectiveReceive.polled_poll c.mail).packets_eq, hitem]
            exact List.mem_append_left _ (List.mem_singleton.mpr rfl)
          have hkeeps : Keeps (Held inv mail)
              (if msg.mPayload.isE2EControl then handleE2EPacket P env msg
                else decryptMessage P env msg >>= fun _ => pure ()) := by
            apply Keeps.ite
            · exact fun _ => hkept.keeps_handleE2EPacket (hpeer msg hitem) (hc.mail _ hmsg)
            · intro _
              refine Keeps.bind ?_ fun _ => Keeps.pure _
              exact (hkept.keeps_getSession (hpeer msg hitem)).bind fun _ => keeps_attempt _
          exact hkeeps _ _ _ hc₁ hrest
      | _ =>
          cases hrest
          exact hc₁

end Kept

/-- The peers whose sessions an action is about. -/
def Action.about (c : Client) : Action → Set Str
  | .connectTo uname => {uname}
  | .send _ => {c.connected}
  | .setupE2E uname _ => {uname}
  | .receive => {peer | ∃ msg, c.mail.poll.1 = some (.message msg) ∧ msg.mSender = peer}
  | _ => ∅

/-- The packets an action brings into the mailbox. -/
def Action.brings : Action → Set Packet
  | .arrive item => {pkt | item = some pkt}
  | _ => ∅

variable {P : Primitives}

theorem arrive_packets (m : SelectiveReceive.Mailbox Packet) (item : Option Packet) :
    ({ m with socket := m.socket ++ [item] } : SelectiveReceive.Mailbox Packet).packets =
      m.packets ++ item.toList := by
  cases item <;> simp [SelectiveReceive.Mailbox.packets, List.reduceOption_append]

theorem Kept.perform {peers : Set Str} {mail : Set Packet} {inv : Client → Prop}
    (hkept : Kept P peers mail inv) {c d : Client} {env : Env} {action : Action}
    (habout : action.about c ⊆ peers) (hbrings : action.brings ⊆ mail) (hc : Held inv mail c)
    (hstep : (system P).step c (env, action) d) : Held inv mail d := by
  cases action with
  | login username =>
      exact ((hkept.keeps_login username).bind fun _ => Keeps.pure _) c _ d hc hstep
  | connectTo uname =>
      exact ((hkept.keeps_connectTo (habout rfl)).bind fun _ => Keeps.pure _) c _ d hc hstep
  | send msg =>
      obtain ⟨seq, c₁, hsend, hlast⟩ := of_run_bind hstep
      cases hlast
      exact hkept.send (habout rfl) hc hsend
  | getUsers => exact (hkept.keeps_getUsers.bind fun _ => Keeps.pure _) c _ d hc hstep
  | setupE2E uname refresh =>
      exact ((hkept.keeps_setupE2E (habout rfl) refresh).bind fun _ => Keeps.pure _)
        c _ d hc hstep
  | receive => exact hkept.receiveLoop (fun msg hmsg => habout ⟨msg, hmsg, rfl⟩) hc hstep
  | quit => exact hkept.keeps_quit c _ d hc hstep
  | arrive item =>
      cases hstep
      refine ⟨hkept.frame hc.holds _ rfl rfl, ?_⟩
      intro pkt hpkt
      rw [arrive_packets, List.mem_append, Option.mem_toList] at hpkt
      exact hpkt.elim (hc.mail pkt) fun hitem => hbrings hitem

/-- An action leaves alone the sessions it is not about. -/
theorem session_of_step {c d : Client} {label : Env × Action} {peer : Str}
    (hpeer : peer ∉ label.2.about c) (hstep : (system P).step c label d) :
    d.mE2ESessions peer = c.mE2ESessions peer := by
  have hkept : Kept P {other | other ≠ peer} Set.univ
      fun c' => c'.mE2ESessions peer = c.mE2ESessions peer := by
    constructor
    case frame => exact fun hc d hsessions _ => by rw [hsessions, hc]
    case packet => exact fun _ hc => hc
    case make =>
      intro c' other _ _ hother _ hc
      rw [setSession_of_ne c' (Ne.symm hother), hc]
    case start =>
      intro c' other _ t _ _ _ hother _ _ _ _ hc
      exact (setSession_of_ne c' (Ne.symm hother) t).trans hc
    case handleInit =>
      intro c' _ _ _ _ hother _ _ hc
      rw [setSession_of_ne c' (Ne.symm hother), hc]
    case handleAck =>
      intro c' _ _ _ hother _ _ hc
      rw [setSession_of_ne c' (Ne.symm hother), hc]
  exact (hkept.perform (fun other hother => fun heq => hpeer (heq ▸ hother))
    (Set.subset_univ _) (held_univ rfl) hstep).holds

/-- An INIT of this client waits for the peer's answer: the session awaits an ACK,
and the INIT under its number, time and key is among the packets handed to `sendPacket`,
whatever that returned. -/
def Outstanding (P : Primitives) (c : Client) (peer : Str) : Prop :=
  ∃ s pl seq, c.mE2ESessions peer = some s ∧ s.Awaits ∧ s.OwnInit P pl ∧
    .message ⟨seq, .empty, peer, pl⟩ ∈ c.sent

/-- The INIT of every session that awaits an ACK has been sent. -/
structure Announced (P : Primitives) (c : Client) : Prop where
  unspent : ∀ peer s, c.mE2ESessions peer = some s → s.Unspent
  outstanding : ∀ peer s, c.mE2ESessions peer = some s → s.Awaits → c.Outstanding P peer

theorem Outstanding.mono {c d : Client} {peer : Str} (hc : c.Outstanding P peer)
    (hsession : d.mE2ESessions peer = c.mE2ESessions peer) (hsent : c.sent ⊆ d.sent) :
    d.Outstanding P peer := by
  obtain ⟨s, pl, seq, hs, hawaits, hpl, hmem⟩ := hc
  exact ⟨s, pl, seq, hsession ▸ hs, hawaits, hpl, hsent hmem⟩

/-- One session is replaced, and something may have been sent. -/
theorem Announced.setSession {c d : Client} (hc : Announced P c) {peer : Str} {t : E2ESession}
    (hsessions : d.mE2ESessions = (c.setSession peer t).mE2ESessions) (hsent : c.sent ⊆ d.sent)
    (ht : t.Unspent) (houtstanding : t.Awaits → d.Outstanding P peer) : Announced P d := by
  constructor
  · intro other s hs
    by_cases hother : other = peer
    · rw [hother, hsessions, setSession_self, Option.some.injEq] at hs
      exact hs ▸ ht
    · rw [hsessions, setSession_of_ne c hother] at hs
      exact hc.unspent other s hs
  · intro other s hs hawaits
    by_cases hother : other = peer
    · rw [hother, hsessions, setSession_self, Option.some.injEq] at hs
      exact hother ▸ houtstanding (hs ▸ hawaits)
    · have hsame : d.mE2ESessions other = c.mE2ESessions other := by
        rw [hsessions, setSession_of_ne c hother]
      exact (hc.outstanding other s (hsame ▸ hs) hawaits).mono hsame hsent

theorem announced_kept : Kept P Set.univ Set.univ (Announced P) := by
  have hhandled : ∀ {c : Client} {peer : Str} {s t : E2ESession}, c.mE2ESessions peer = some s →
      t.Unspent → (t.Awaits → t = s) → Announced P c → Announced P (c.setSession peer t) := by
    intro c peer s t hs ht hsame hc
    refine hc.setSession rfl (fun _ hmem => hmem) ht fun hawaits => ?_
    have hts := hsame hawaits
    subst hts
    refine (hc.outstanding peer t hs hawaits).mono ?_ fun _ hmem => hmem
    rw [setSession_self, hs]
  constructor
  case frame =>
    intro c hc d hsessions hsent
    refine ⟨fun peer s hs => hc.unspent peer s (hsessions ▸ hs), fun peer s hs hawaits => ?_⟩
    exact (hc.outstanding peer s (hsessions ▸ hs) hawaits).mono (congrFun hsessions peer)
      (by rw [hsent]; exact fun _ hmem => hmem)
  case packet =>
    intro c pkt hc
    refine ⟨hc.unspent, fun peer s hs hawaits => ?_⟩
    exact (hc.outstanding peer s hs hawaits).mono rfl fun _ hmem => List.mem_append_left _ hmem
  case make =>
    intro c peer exponent oldExponent _ _ hc
    refine hc.setSession rfl (fun _ hmem => hmem) (E2ESession.unspent_fresh _ _) fun hawaits => ?_
    rcases hawaits with hstate | hstate <;> cases hstate
  case start =>
    intro c peer s t call pl seq _ hs hstarts hallowed hrun hc
    have hsound := E2ESession.run_sound (P := P) (hc.unspent peer s hs) hallowed
    obtain ⟨pl', hresult, hown, _⟩ := E2ESession.run_own (P := P) hstarts s
    rw [hrun] at hsound hresult hown
    cases hresult
    refine hc.setSession rfl (fun _ hmem => List.mem_append_left _ hmem) hsound.unspent
      fun hawaits => ⟨t, pl, seq, setSession_self c peer t, hawaits, hown, ?_⟩
    exact List.mem_append_right _ (List.mem_singleton.mpr rfl)
  case handleInit =>
    intro c msg s stack exponent _ _ hs hc
    have hunspent := hc.unspent _ s hs
    exact hhandled hs (E2ESession.handleInit_sound hunspent _ stack exponent).unspent
      (E2ESession.handleInit_awaits hunspent _ stack exponent) hc
  case handleAck =>
    intro c msg s stack _ _ hs hc
    have hunspent := hc.unspent _ s hs
    exact hhandled hs (E2ESession.handleAck_sound hunspent _ stack).unspent
      (E2ESession.handleAck_awaits hunspent _ stack) hc

theorem announced_of_reachable {c : Client} (hreach : Reachable (system P) c) :
    Announced P c := by
  apply hreach.invariant
  · rintro _ rfl
    exact ⟨by rintro _ _ ⟨⟩, by rintro _ _ ⟨⟩⟩
  · intro c label d hc hstep
    have hheld := announced_kept.perform (Set.subset_univ _) (Set.subset_univ _)
      (held_univ hc) hstep
    exact hheld.holds

end Client

end LeakyChat

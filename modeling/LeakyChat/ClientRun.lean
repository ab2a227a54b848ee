/-
Runs of the client: requests of the user, packets that arrive, rounds of the
receive loop, in any order and with any clock.  A session that is established
stays so as long as each refresh of it is answered, and nothing is sent to its
peer in plain text.
-/
import LeakyChat.ClientE2E
import LeakyChat.DHKeyExchange

namespace LeakyChat

open Program
open Transition

namespace Client

inductive Action where
  | login (username : Str)
  | connectTo (uname : Str)
  | send (msg : Str)
  | getUsers
  | setupE2E (uname : Str) (refresh : Bool)
  | receive
  | quit
  | arrive (item : Option Packet)

variable (P : Primitives)

def perform (env : Env) : Action → ClientM PUnit
  | .login username => do let _ ← login env username
  | .connectTo uname => do let _ ← connectTo P env uname
  | .send msg => do let _ ← send P env msg
  | .getUsers => do let _ ← getUsers env
  | .setupE2E uname refresh => do let _ ← setupE2E P env uname refresh
  | .receive => receiveLoop P env
  | .quit => quit env
  | .arrive item =>
      modify fun c => { c with mail := { c.mail with socket := c.mail.socket ++ [item] } }

/-- An operation that an exception leaves ends the run with it. -/
def system : System Client (Env × Action) where
  init c := c = fresh
  step c label d := perform P label.1 label.2 c = .ok (⟨⟩, d)

/-- The peer whose session an action refreshes. -/
def refreshed (c : Client) (env : Env) : Action → Option Str
  | .connectTo uname =>
      if (c.mE2ESessions uname).any (·.isStale env.now) then some uname else none
  | .send _ =>
      if (c.session env c.connected).isStale env.now then some c.connected else none
  | .setupE2E uname true => some uname
  | _ => none

def Answered (peer : Str) (c : Client) (label : Env × Action) : Prop :=
  c.refreshed label.1 label.2 = some peer → RefreshAnswered label.1 c peer

/-- The runs in which each refresh of the peer's session is answered. -/
def answering (peer : Str) : System Client (Env × Action) where
  init := (system P).init
  step c label d := (system P).step c label d ∧ Answered peer c label

variable {P}

theorem established_of_keeps {α : Type} {m : ClientM α} {peer : Str} {c d : Client}
    (hkeeps : Keeps (Calm {peer} c.sent) m) (hc : c.Established peer)
    (hrun : (m >>= fun _ => pure PUnit.unit) c = .ok (⟨⟩, d)) : d.Established peer := by
  obtain ⟨a, c₁, hm, hlast⟩ := of_run_bind hrun
  cases hlast
  exact (hkeeps c a d hc.calm hm).established peer rfl

theorem established_step {peer : Str} {c d : Client} {label : Env × Action}
    (hc : c.Established peer) (hstep : (answering P peer).step c label d) :
    d.Established peer := by
  obtain ⟨env, action⟩ := label
  obtain ⟨hrun, hanswered⟩ := hstep
  cases action with
  | login username => exact established_of_keeps (calm_login env username) hc hrun
  | getUsers => exact established_of_keeps (calm_getUsers env) hc hrun
  | quit => exact (calm_quit env c _ d hc.calm hrun).established peer rfl
  | receive => exact (calm_receiveLoop P env c _ d hc.calm hrun).established peer rfl
  | arrive item =>
      cases hrun
      exact hc
  | connectTo uname =>
      obtain ⟨b, c₁, hconnect, hlast⟩ := of_run_bind hrun
      cases hlast
      refine connectTo_established P hc ?_ hconnect
      rintro rfl hstale
      obtain ⟨s, hs, _⟩ := hc
      rw [session_of_some hs] at hstale
      exact hanswered (if_pos (by simpa [hs] using hstale))
  | send msg =>
      obtain ⟨seq, c₁, hsend, hlast⟩ := of_run_bind hrun
      cases hlast
      refine (send_established P hc ?_ hsend).1
      rintro rfl hstale
      exact hanswered (if_pos hstale)
  | setupE2E uname refresh =>
      by_cases hrefresh : refresh = true ∧ uname = peer
      · obtain ⟨rfl, rfl⟩ := hrefresh
        obtain ⟨b, c₁, hsetup, hlast⟩ := of_run_bind hrun
        cases hlast
        exact (setupE2E_refresh_established P hsetup).mpr (hanswered rfl)
      · refine established_of_keeps (calm_setupE2E P env ?_) hc hrun
        rintro htrue rfl
        exact hrefresh ⟨htrue, rfl⟩

/-- Once a peer's session is established, a send to the peer hands over nothing
in plain text, in every run in which each refresh of the session is answered. -/
theorem send_hides_text {peer : Str} {c d e : Client} {steps : List (Env × Action)}
    {env : Env} {msg : Str} {seq : SequenceNo} (hc : c.Established peer)
    (hrun : Run (answering P peer) c steps d) (hconnected : d.connected = peer)
    (hanswered : Answered peer d (env, .send msg))
    (hsend : send P env msg d = .ok (seq, e)) :
    ∃ pkts, e.sent = d.sent ++ pkts ∧ ∀ pkt ∈ pkts, isPlainText pkt = false := by
  have hd : d.Established peer :=
    hrun.preserves (fun _ _ _ hs hstep => established_step hs hstep) hc
  refine (send_established P hd ?_ hsend).2 hconnected
  rintro rfl hstale
  exact hanswered (if_pos hstale)

def bob : Str := ⟨[98, 111, 98], by decide⟩

def zeros : Stack := fun _ => 0

def sampleEnv (now : UInt64) : Env where
  polls := 1
  sendResult := 0
  now := now
  timestamp := now
  exponent := 3
  initExponent := 4
  freshExponent := 1
  oldExponent := 2
  nonce := Block.zero _
  initStack := zeros
  ackStack := zeros
  msgStack := zeros

/-- A session with `bob` that has taken up his INIT. -/
def sampleSession (crypto old : CryptoSession) : E2ESession :=
  ⟨crypto, old, 0, .established, 1⟩

def fromBob (pl : Payload) : Packet := .message ⟨0, bob, .empty, pl⟩

/-- What `bob` sent has arrived. -/
def heard (c : Client) (pl : Payload) : Client :=
  { c with mail := ⟨[], [some (fromBob pl)]⟩ }

theorem arrive_step (c : Client) (pl : Payload) (hmail : c.mail = ⟨[], []⟩) (env : Env) :
    (system .clear).step c (env, .arrive (some (fromBob pl))) (c.heard pl) := by
  change Except.ok (PUnit.unit,
    { c with mail := { c.mail with socket := c.mail.socket ++ [some (fromBob pl)] } }) = _
  rw [hmail]
  rfl

/-- An INIT of `bob` that a client takes up. -/
theorem init_handled : ∃ pl crypto old ackpl, pl.type = .e2eInit ∧ pl.data.1.length = 276 ∧
    (E2ESession.fresh 1 2).handleInit .clear pl zeros 4 =
      (sampleSession crypto old, .ok (some ackpl)) := by
  obtain ⟨pl, hpl⟩ := E2ESession.init_toPayload_ok 1 0 (Primitives.clear.publicKey 5)
  have hparse := E2EInit.ofPayload_toPayload hpl zeros
  have hfits : FitsBignum (E2EInit.mk 1 0 (Primitives.clear.publicKey 5).toStr).key.1 :=
    PublicKey.fitsBignum _
  obtain ⟨old, ackpl, haccept, _⟩ := (E2ESession.fresh 1 2).acceptInit_eq .clear hfits 4
    fun _ => rfl
  have hhandle := E2ESession.handleInit_eq .clear (E2ESession.fresh 1 2) hparse 4
  rw [if_pos (by simp [E2ESession.accepts, E2ESession.fresh]), haccept] at hhandle
  obtain ⟨htype, hdata⟩ := E2EInit.toPayload_eq_ok.mp hpl
  have hlength : pl.data.1.length = 276 := by
    rw [hdata, E2EInit.bytes, List.length_append, List.length_append,
      E2ESession.strBytes_publicKey_length]
    rfl
  exact ⟨pl, _, old, ackpl, htype, hlength, hhandle⟩

/-- The receive loop on an INIT of `bob`. -/
theorem receive_init {msg : MessagePacket} {s : E2ESession} {ackpl : Payload}
    (hsender : msg.mSender = bob) (htype : msg.mPayload.type = .e2eInit)
    (hhandle : (E2ESession.fresh 1 2).handleInit .clear msg.mPayload zeros 4 =
      (s, .ok (some ackpl))) :
    (system .clear).step { fresh with mail := ⟨[], [some (.message msg)]⟩ }
      (sampleEnv 0, .receive)
      { fresh.setSession bob s with
        curSeqNo := 1, sent := [.message ⟨0, .empty, bob, ackpl⟩] } := by
  have hcontrol : msg.mPayload.isE2EControl = true := by simp [Payload.isE2EControl, htype]
  have hmethod : onSession (sampleEnv 0) bob
      (fun session => session.handleInit .clear msg.mPayload zeros 4) fresh =
        .ok (some ackpl, fresh.setSession bob s) := onSession_run hhandle
  change (if msg.mPayload.isE2EControl = true then handleE2EPacket .clear (sampleEnv 0) msg
    else _) fresh = _
  rw [if_pos hcontrol, handleE2EPacket, if_pos htype, handleE2EInit]
  simp only [hsender]
  exact run_bind ((run_bind hmethod).trans rfl)

theorem connectTo_step {c : Client} {s : E2ESession} (hs : c.mE2ESessions bob = some s)
    (env : Env) (hstale : s.isStale env.now = false) :
    (system .clear).step c (env, .connectTo bob) { c with connected := bob } := by
  have hrefresh : refreshStale .clear env bob s { c with connected := bob } =
      .ok (⟨⟩, { c with connected := bob }) := by
    rw [refreshStale, if_neg (by simp [hstale])]
    rfl
  have hforM : Option.forM (c.mE2ESessions bob) (refreshStale .clear env bob)
      { c with connected := bob } = .ok (⟨⟩, { c with connected := bob }) := by
    rw [hs]
    exact hrefresh
  have hconnect : connectTo .clear env bob c = .ok (true, { c with connected := bob }) := by
    change (Option.forM (c.mE2ESessions bob) (refreshStale .clear env bob) >>= fun _ =>
      pure true) { c with connected := bob } = _
    rw [run_bind hforM]
    rfl
  exact (run_bind hconnect).trans rfl

/-- A client that has taken up an INIT of `bob` and is connected to him. -/
theorem reachable_sample :
    ∃ c crypto old, Reachable (system .clear) c ∧ c.connected = bob ∧
      c.mail = ⟨[], []⟩ ∧ c.mE2ESessions bob = some (sampleSession crypto old) := by
  obtain ⟨pl, crypto, old, ackpl, htype, _, hhandle⟩ := init_handled
  have hfresh : Reachable (system .clear) fresh := Reachable.of_init rfl
  have harrived := hfresh.step (arrive_step fresh pl rfl (sampleEnv 0))
  have hsender : (⟨0, bob, .empty, pl⟩ : MessagePacket).mSender = bob := rfl
  have htaken := harrived.step (receive_init hsender htype hhandle)
  have hsession : ({ fresh.setSession bob (sampleSession crypto old) with
      curSeqNo := 1, sent := [.message ⟨0, .empty, bob, ackpl⟩] } : Client).mE2ESessions bob =
        some (sampleSession crypto old) := setSession_self fresh bob _
  exact ⟨_, crypto, old, htaken.step (connectTo_step hsession (sampleEnv 0) rfl),
    rfl, rfl, hsession⟩

/-- An ACK of `bob` under a number. -/
theorem ackpl_ok (seqno : UInt32) : ∃ (pl : Payload) (key : PublicKey), pl.type = .e2eAck ∧
    E2EAck.ofPayload pl zeros = .ok ⟨seqno, key.toStr⟩ := by
  obtain ⟨pl, hpl⟩ := E2ESession.ack_toPayload_ok seqno (Primitives.clear.publicKey 5)
  exact ⟨pl, _, (E2EAck.toPayload_eq_ok.mp hpl).1, E2EAck.ofPayload_toPayload hpl zeros⟩

/-- A refresh to which an ACK of `bob` has arrived as the answer. -/
theorem setupE2E_heard {c : Client} {s t : E2ESession} {pl : Payload} {now : UInt64}
    (hs : c.mE2ESessions bob = some s) (htype : pl.type = .e2eAck)
    (hhandle : (s.refreshed now 3).handleAck .clear pl zeros = (t, .ok none)) :
    ∃ d, setupE2E .clear (sampleEnv now) bob true (c.heard pl) = .ok (true, d) ∧
      d.mE2ESessions bob = some t := by
  obtain ⟨c₁, hrefresh, hmail₁, hsessions⟩ :=
    refreshE2E_run .clear (sampleEnv now) bob (c.heard pl)
  have hs₁ : c₁.mE2ESessions bob = some (s.refreshed now 3) := by
    rw [hsessions, setSession_self, session_of_some (c := c.heard pl) hs]
    rfl
  obtain ⟨c₂, hwait, hs₂⟩ : ∃ c₂, waitForPred 1 (isE2ePkt bob) c₁ = .ok (fromBob pl, c₂) ∧
      c₂.mE2ESessions bob = some (s.refreshed now 3) := by
    have htake : isE2ePkt bob (fromBob pl) = true := by
      simp [isE2ePkt, fromBob, Payload.isE2EControl, htype]
    refine ⟨{ c₁ with mail := ⟨[], []⟩ }, ?_, hs₁⟩
    rw [waitForPred, await, hmail₁, heard,
      SelectiveReceive.receive_taken (by rw [if_pos htake]) 0 rfl]
  have hanswer : onSession (sampleEnv now) bob
      (fun session => session.handleAck .clear pl zeros) c₂ = .ok (none, c₂.setSession bob t) := by
    apply onSession_run
    rw [session_of_some hs₂]
    exact hhandle
  refine ⟨_, ?_, setSession_self c₂ bob t⟩
  rw [setupE2E, if_pos rfl, run_bind hrefresh, if_neg (by simp [sampleEnv])]
  refine (run_bind hwait).trans ?_
  change (if pl.type = .e2eInit then _ else if pl.type = .e2eAck then
    handleE2EAck .clear (sampleEnv now) ⟨0, bob, .empty, pl⟩ >>= fun _ => pure true
    else _) c₂ = _
  rw [if_neg (by rw [htype]; decide), if_pos htype]
  exact run_bind ((run_bind hanswer).trans rfl)

def sampleText : Str := ⟨[104, 105], by decide⟩

/-- A send that takes a stale session through a refresh. -/
theorem send_run {c d : Client} {s t : E2ESession} {now : UInt64} {b : Bool} {pl : Payload}
    (hs : c.mE2ESessions c.connected = some s) (hstale : s.isStale now = true)
    (hsetup : setupE2E .clear (sampleEnv now) c.connected true
      { c with curSeqNo := c.curSeqNo + 1 } = .ok (b, d))
    (ht : d.mE2ESessions c.connected = some t)
    (hpl : t.encrypt .clear (Block.zero _) sampleText = .ok pl) :
    ∃ e, send .clear (sampleEnv now) sampleText c = .ok (c.curSeqNo, e) ∧
      ∃ pkts, e.sent = c.sent ++ pkts ∧
        .message ⟨c.curSeqNo, .empty, c.connected, pl⟩ ∈ pkts := by
  have hquiet : Calm ∅ c.sent { c with curSeqNo := c.curSeqNo + 1 } :=
    ⟨by rintro _ ⟨⟩, [], by simp, by simp⟩
  have hkeeps : Keeps (Calm ∅ c.sent) (setupE2E .clear (sampleEnv now) c.connected true) :=
    calm_setupE2E .clear _ fun _ => id
  obtain ⟨pkts, hsent, _⟩ := (hkeeps _ b d hquiet hsetup).quiet
  have hsame : ∀ {c' : Client} {s : E2ESession}, c'.mE2ESessions c.connected = some s →
      getSession (sampleEnv now) c.connected c' = .ok (s, c') := by
    intro c' s hs
    rw [getSession_run, session_of_some hs, setSession, ← hs, Function.update_eq_self]
  have hget : getSession (sampleEnv now) c.connected { c with curSeqNo := c.curSeqNo + 1 } =
      .ok (s, { c with curSeqNo := c.curSeqNo + 1 }) := hsame hs
  have hrefresh : refreshStale .clear (sampleEnv now) c.connected s
      { c with curSeqNo := c.curSeqNo + 1 } = .ok (⟨⟩, d) := by
    rw [refreshStale, if_pos (by exact hstale), run_bind hsetup]
    rfl
  refine ⟨{ d with sent := d.sent ++ [.message ⟨c.curSeqNo, .empty, c.connected, pl⟩] }, ?_,
    pkts ++ [.message ⟨c.curSeqNo, .empty, c.connected, pl⟩], ?_,
    List.mem_append_right _ (List.mem_singleton.mpr rfl)⟩
  · change (getSession (sampleEnv now) c.connected >>= fun session =>
      refreshStale .clear (sampleEnv now) c.connected session >>= fun _ =>
      getSession (sampleEnv now) c.connected >>= fun session =>
      attempt (session.encrypt .clear (Block.zero _) sampleText) >>= fun pl =>
      sendPacket (sampleEnv now) (.message ⟨c.curSeqNo, .empty, c.connected, pl⟩) >>= fun _ =>
      pure c.curSeqNo) { c with curSeqNo := c.curSeqNo + 1 } = _
    rw [run_bind hget, run_bind hrefresh, run_bind (hsame ht), hpl]
    rfl
  · simp only [hsent, List.append_assoc]

theorem sampleText_encrypt (s : E2ESession)
    (hcrypto : s.sessState = .established → s.mCrypto.mEstablished = true) :
    ∃ pl, s.encrypt .clear (Block.zero _) sampleText = .ok pl :=
  have hshort : sampleText.1.length + 40 ≤ maxSize := by decide
  E2ESession.encrypt_ok .clear hcrypto (by decide) hshort

/-- A session that goes stale, and the ACK for its refresh has arrived. -/
theorem send_hides_text_sample : ∃ c steps d e seq,
    c.Established bob ∧ Run (answering .clear bob) c steps d ∧ steps ≠ [] ∧
      send .clear (sampleEnv 60000000001) sampleText d = .ok (seq, e) ∧
      ∃ pkts, e.sent = d.sent ++ pkts ∧ ∀ pkt ∈ pkts, isPlainText pkt = false := by
  obtain ⟨c, crypto, old, _, hconnected, hmail, hs⟩ := reachable_sample
  obtain ⟨ackpl, key, htype, hparse⟩ := ackpl_ok 2
  have hstale : (sampleSession crypto old).isStale 60000000001 = true := by
    simp [sampleSession, E2ESession.isStale]
  obtain ⟨t, hhandle, hcrypto⟩ : ∃ t,
      ((sampleSession crypto old).refreshed 60000000001 3).handleAck .clear ackpl zeros =
        (t, .ok none) ∧ t.mCrypto.mEstablished = true := by
    rw [E2ESession.handleAck_eq .clear _ hparse, if_pos ⟨Or.inr rfl, rfl⟩,
      E2ESession.acceptAck_eq .clear _ key.fitsBignum rfl]
    exact ⟨_, rfl, rfl⟩
  obtain ⟨d, hsetup, hd⟩ :=
    setupE2E_heard (c := { c with curSeqNo := c.curSeqNo + 1 }) hs htype hhandle
  obtain ⟨pl, hpl⟩ := sampleText_encrypt t fun _ => hcrypto
  rw [← hconnected] at hsetup hd
  obtain ⟨e, hsend, _⟩ :=
    send_run (c := c.heard ackpl) (by rw [← hconnected] at hs; exact hs) hstale hsetup hd hpl
  have hestablished : c.Established bob := ⟨_, hs, rfl⟩
  have hrun : Run (answering .clear bob) c
      [(sampleEnv 0, .arrive (some (fromBob ackpl)))] (c.heard ackpl) :=
    Run.cons ⟨arrive_step c ackpl hmail (sampleEnv 0), by rintro ⟨⟩⟩ (Run.nil _)
  have hanswered : Answered bob (c.heard ackpl) (sampleEnv 60000000001, .send sampleText) := by
    intro _
    have hpackets : (c.heard ackpl).mail.packets.filter (isE2ePkt bob) = [fromBob ackpl] := by
      simp [heard, SelectiveReceive.Mailbox.packets, fromBob, isE2ePkt,
        Payload.isE2EControl, htype]
    have hsession : (c.heard ackpl).session (sampleEnv 60000000001) bob =
        sampleSession crypto old := session_of_some (c := c.heard ackpl) hs _
    rw [RefreshAnswered, hpackets, hsession]
    exact ⟨rfl, Answers.ack htype ⟨_, hparse, rfl⟩⟩
  exact ⟨c, _, _, e, _, hestablished, hrun, by simp, hsend,
    send_hides_text hestablished hrun hconnected hanswered hsend⟩

/-- A stale session, an ACK under another number as the answer to its refresh:
the text of the send goes out as it is. -/
theorem send_wrongAck : ∃ c steps d seq e,
    Reachable (system .clear) c ∧ c.Established bob ∧ Run (system .clear) c steps d ∧
      d.connected = bob ∧
      send .clear (sampleEnv 60000000001) sampleText d = .ok (seq, e) ∧
      ∃ pkts, e.sent = d.sent ++ pkts ∧ ∃ pkt ∈ pkts, isPlainText pkt = true := by
  obtain ⟨c, crypto, old, hreach, hconnected, hmail, hs⟩ := reachable_sample
  obtain ⟨ackpl, key, htype, hparse⟩ := ackpl_ok 1
  have hstale : (sampleSession crypto old).isStale 60000000001 = true := by
    simp [sampleSession, E2ESession.isStale]
  have hhandle := E2ESession.handleAck_eq .clear
    ((sampleSession crypto old).refreshed 60000000001 3) hparse
  rw [if_neg (by rintro ⟨_, ⟨⟩⟩)] at hhandle
  obtain ⟨d, hsetup, hd⟩ :=
    setupE2E_heard (c := { c with curSeqNo := c.curSeqNo + 1 }) hs htype hhandle
  obtain ⟨pl, hpl⟩ := sampleText_encrypt
    ((sampleSession crypto old).refreshed 60000000001 3) fun hfalse => by cases hfalse
  rw [← hconnected] at hs hsetup hd
  obtain ⟨e, hsend, pkts, hsent, hmem⟩ :=
    send_run (c := c.heard ackpl) hs hstale hsetup hd hpl
  rw [hconnected] at hs
  refine ⟨c, _, c.heard ackpl, _, e, hreach, ⟨_, hs, rfl⟩,
    Run.cons (arrive_step c ackpl hmail (sampleEnv 0)) (Run.nil _), hconnected, hsend,
    pkts, hsent, _, hmem, ?_⟩
  have htext := (E2ESession.encrypt_type .clear hpl).mpr (by simp [E2ESession.refreshed])
  simp [isPlainText, htext]

end Client

end LeakyChat

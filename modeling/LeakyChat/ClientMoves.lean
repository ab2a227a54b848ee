/-
What a client does to its end-to-end sessions and what it sends, move by move.
Between two waits an operation makes moves only, and it handles no message but
those it has taken from the mailbox.
-/
import LeakyChat.ClientScripts
import LeakyChat.ClientSessions
import Mathlib.Logic.Relation

namespace LeakyChat

open Program
open SelectiveReceive
open Relation (ReflTransGen)
open E2ESession (Call)

namespace Client

/-- No session has come to the last number. -/
def Bounded (c : Client) : Prop :=
  ∀ peer s, c.mE2ESessions peer = some s → s.sequenceNo.toNat + 1 < 2 ^ 32

/-- `texts` are those the user has asked to send, `known` the packets that were taken.  An
INIT or ACK goes out with the call that makes it. -/
inductive Move (P : Primitives) (texts : Set Str) (known : Set Packet) : Client → Client → Prop
  | frame {c d : Client} (hsessions : d.mE2ESessions = c.mE2ESessions) (hsent : d.sent = c.sent) :
      Move P texts known c d
  | make {c : Client} {peer : Str} (exponent oldExponent : Nat)
      (hnone : c.mE2ESessions peer = none) :
      Move P texts known c (c.setSession peer (.fresh exponent oldExponent))
  | request {c : Client} {pkt : Packet} (hpkt : ∀ msg, pkt ≠ .message msg) :
      Move P texts known c { c with sent := c.sent ++ [pkt] }
  | text {c : Client} {peer text : Str} {s : E2ESession} {nonce : Nonce} {pl : Payload}
      (seq : SequenceNo) (htext : text ∈ texts) (hs : c.mE2ESessions peer = some s)
      (hpl : s.encrypt P nonce text = .ok pl) :
      Move P texts known c { c with sent := c.sent ++ [.message ⟨seq, .empty, peer, pl⟩] }
  | start {c : Client} {peer : Str} {s t : E2ESession} {call : Call} {pl : Payload}
      (seq : SequenceNo) (hs : c.mE2ESessions peer = some s) (hstarts : call.Starts)
      (hallowed : call.Allowed s) (hbound : s.sequenceNo.toNat + 1 < 2 ^ 32)
      (hrun : s.run P call = (t, .ok (some pl))) :
      Move P texts known c
        { c.setSession peer t with sent := c.sent ++ [.message ⟨seq, .empty, peer, pl⟩] }
  | ignore {c : Client} {msg : MessagePacket} {s t : E2ESession} {stack : Stack} {exponent : Nat}
      (hmsg : .message msg ∈ known) (htype : msg.mPayload.type = .e2eInit)
      (hs : c.mE2ESessions msg.mSender = some s)
      (hrun : s.handleInit P msg.mPayload stack exponent = (t, .ok none)) :
      Move P texts known c (c.setSession msg.mSender t)
  | answer {c : Client} {msg : MessagePacket} {s t : E2ESession} {stack : Stack} {exponent : Nat}
      {pl : Payload} (seq : SequenceNo) (hmsg : .message msg ∈ known)
      (htype : msg.mPayload.type = .e2eInit) (hs : c.mE2ESessions msg.mSender = some s)
      (hrun : s.handleInit P msg.mPayload stack exponent = (t, .ok (some pl))) :
      Move P texts known c
        { c.setSession msg.mSender t with
          sent := c.sent ++ [.message ⟨seq, .empty, msg.mSender, pl⟩] }
  | ack {c : Client} {msg : MessagePacket} {s t : E2ESession} {stack : Stack}
      {reply : Option Payload} (hmsg : .message msg ∈ known)
      (htype : msg.mPayload.type = .e2eAck) (hs : c.mE2ESessions msg.mSender = some s)
      (hrun : s.handleAck P msg.mPayload stack = (t, .ok reply)) :
      Move P texts known c (c.setSession msg.mSender t)

abbrev Moves (P : Primitives) (texts : Set Str) (known : Set Packet) : Client → Client → Prop :=
  ReflTransGen (Move P texts known)

variable {P : Primitives} {texts texts' : Set Str} {known known' : Set Packet} {env : Env}
  {peer : Str} {c d : Client}

theorem Move.mono (htexts : texts ⊆ texts') (hknown : known ⊆ known')
    (hmove : Move P texts known c d) : Move P texts' known' c d := by
  cases hmove with
  | frame hsessions hsent => exact .frame hsessions hsent
  | make exponent oldExponent hnone => exact .make exponent oldExponent hnone
  | request hpkt => exact .request hpkt
  | text seq htext hs hpl => exact .text seq (htexts htext) hs hpl
  | start seq hs hstarts hallowed hbound hrun => exact .start seq hs hstarts hallowed hbound hrun
  | ignore hmsg htype hs hrun => exact .ignore (hknown hmsg) htype hs hrun
  | answer seq hmsg htype hs hrun => exact .answer seq (hknown hmsg) htype hs hrun
  | ack hmsg htype hs hrun => exact .ack (hknown hmsg) htype hs hrun

theorem Moves.mono (htexts : texts ⊆ texts') (hknown : known ⊆ known')
    (hmoves : Moves P texts known c d) : Moves P texts' known' c d := by
  have hle : Move P texts known ≤ Move P texts' known' :=
    fun _ _ hmove => hmove.mono htexts hknown
  exact ReflTransGen.mono hle _ _ hmoves

/-- What has been sent stays sent, and more comes behind it. -/
theorem Moves.sent_prefix (hmoves : Moves P texts known c d) : c.sent <+: d.sent := by
  induction hmoves with
  | refl => exact List.prefix_refl _
  | tail _ hmove ih =>
      refine ih.trans ?_
      cases hmove with
      | frame hsessions hsent => exact ⟨[], (List.append_nil _).trans hsent.symm⟩
      | make exponent oldExponent hnone => exact List.prefix_refl _
      | ignore hmsg htype hs hrun => exact List.prefix_refl _
      | ack hmsg htype hs hrun => exact List.prefix_refl _
      | _ => exact List.prefix_append _ _

theorem Moves.sent_subset (hmoves : Moves P texts known c d) : c.sent ⊆ d.sent :=
  hmoves.sent_prefix.subset

/-- A program that makes moves, and leaves the mailbox alone. -/
def MovesOnly {α : Type} (P : Primitives) (texts : Set Str) (known : Set Packet) (m : ClientM α) :
    Prop :=
  ∀ c a d, c.Bounded → m c = .ok (a, d) → Moves P texts known c d ∧ d.mail = c.mail

theorem moves_nextSeqNo : MovesOnly P texts known nextSeqNo := by
  intro c seq d _ hrun
  cases hrun
  exact ⟨.single (.frame rfl rfl), rfl⟩

theorem moves_request {pkt : Packet} (hpkt : ∀ msg, pkt ≠ .message msg) :
    MovesOnly P texts known (sendPacket env pkt) := by
  intro c result d _ hrun
  cases hrun
  exact ⟨.single (.request hpkt), rfl⟩

theorem moves_session (c : Client) (env : Env) (peer : Str) :
    Moves P texts known c (c.setSession peer (c.session env peer)) := by
  cases hs : c.mE2ESessions peer with
  | none =>
      rw [session, hs]
      exact .single (.make _ _ hs)
  | some s =>
      rw [session_of_some hs]
      refine .single (.frame ?_ rfl)
      rw [setSession, ← hs, Function.update_eq_self]

theorem moves_getSession (env : Env) (peer : Str) :
    MovesOnly P texts known (getSession env peer) := by
  intro c s d _ hrun
  obtain ⟨rfl, rfl⟩ := getSession_ok hrun
  exact ⟨moves_session c env peer, rfl⟩

theorem Bounded.session (hbound : c.Bounded) (env : Env) (peer : Str) :
    (c.session env peer).sequenceNo.toNat + 1 < 2 ^ 32 := by
  cases hs : c.mE2ESessions peer with
  | none =>
      rw [Client.session, hs]
      exact (by decide : (0 : UInt32).toNat + 1 < 2 ^ 32)
  | some s =>
      rw [session_of_some hs]
      exact hbound peer s hs

/-- A call that sends an INIT, with the message that takes it to the peer. -/
theorem moves_sendInit {method : E2ESession → E2ESession × Except Fault Payload}
    {allowed : E2ESession → Prop}
    (hmethod : ∀ s, allowed s → ∃ call : Call, call.Starts ∧ call.Allowed s ∧
      s.run P call = ((method s).1, (method s).2.map some)) {b : Bool}
    (hallowed : allowed (c.session env peer)) (hbound : c.Bounded)
    (hrun : (onSession env peer method >>= fun pl =>
      nextSeqNo >>= fun seq =>
        sendPacket env (.message ⟨seq, .empty, peer, pl⟩) >>= fun res =>
          pure (decide (res = 0))) c = .ok (b, d)) :
    Moves P texts known c d ∧ d.mail = c.mail := by
  obtain ⟨pl, c₁, honce, hrest⟩ := of_run_bind hrun
  obtain ⟨t, hcall, rfl⟩ := onSession_ok honce
  cases hrest
  obtain ⟨call, hstarts, hcallAllowed, hcallRun⟩ := hmethod _ hallowed
  rw [hcall] at hcallRun
  have hstart : Move P texts known (c.setSession peer (c.session env peer)) _ :=
    Move.start c.curSeqNo (setSession_self c peer _) hstarts hcallAllowed
      (hbound.session env peer) hcallRun
  rw [setSession_setSession] at hstart
  exact ⟨((moves_session c env peer).tail hstart).tail (.frame rfl rfl), rfl⟩

theorem moves_initiateE2E (env : Env) (peer : Str) :
    MovesOnly P texts known (initiateE2E P env peer) := by
  intro c b d hbound hrun
  obtain ⟨_, _, hget, hrest⟩ := of_run_bind hrun
  cases hget
  by_cases hused : (c.mE2ESessions peer).any (·.sessState ≠ .unitialized) = true
  · rw [if_pos hused] at hrest
    cases hrest
    exact ⟨.refl, rfl⟩
  · rw [if_neg hused] at hrest
    have hstate := (any_session_iff c env peer).not.mp hused
    have hmethod : ∀ s : E2ESession, s.sessState = .unitialized →
        ∃ call : Call, call.Starts ∧ call.Allowed s ∧ s.run P call =
          ((s.initiate P env.timestamp).1, (s.initiate P env.timestamp).2.map some) :=
      fun s hs => ⟨.initiate env.timestamp, trivial, hs, rfl⟩
    exact moves_sendInit hmethod (not_not.mp hstate) hbound hrest

theorem moves_refreshE2E (env : Env) (peer : Str) :
    MovesOnly P texts known (refreshE2E P env peer) := by
  intro c b d hbound hrun
  have hmethod : ∀ s : E2ESession, True →
      ∃ call : Call, call.Starts ∧ call.Allowed s ∧ s.run P call =
        ((s.refresh P env.timestamp env.exponent).1,
          (s.refresh P env.timestamp env.exponent).2.map some) :=
    fun s _ => ⟨.refresh env.timestamp env.exponent, trivial, trivial, rfl⟩
  exact moves_sendInit hmethod trivial hbound hrun

theorem moves_handleE2EInit (env : Env) {msg : MessagePacket} (hmsg : .message msg ∈ known)
    (htype : msg.mPayload.type = .e2eInit) :
    MovesOnly P texts known (handleE2EInit P env msg) := by
  intro c b d _ hrun
  obtain ⟨reply, c₁, hcall, hrest⟩ := of_run_bind hrun
  obtain ⟨t, hhandle, rfl⟩ := onSession_ok hcall
  have hs := setSession_self c msg.mSender (c.session env msg.mSender)
  have hsession : Moves P texts known c _ := moves_session c env msg.mSender
  cases reply with
  | none =>
      cases hrest
      have hignore : Move P texts known _ _ := Move.ignore hmsg htype hs hhandle
      rw [setSession_setSession] at hignore
      exact ⟨hsession.tail hignore, rfl⟩
  | some ackpl =>
      cases hrest
      have hanswer : Move P texts known _ _ :=
        Move.answer c.curSeqNo hmsg htype hs hhandle
      rw [setSession_setSession] at hanswer
      exact ⟨(hsession.tail hanswer).tail (.frame rfl rfl), rfl⟩

theorem moves_handleE2EAck (env : Env) {msg : MessagePacket} (hmsg : .message msg ∈ known)
    (htype : msg.mPayload.type = .e2eAck) :
    MovesOnly P texts known (handleE2EAck P env msg) := by
  intro c b d _ hrun
  obtain ⟨reply, c₁, hcall, hrest⟩ := of_run_bind hrun
  obtain ⟨t, hhandle, rfl⟩ := onSession_ok hcall
  cases hrest
  have hack : Move P texts known _ _ := Move.ack hmsg htype
    (setSession_self c msg.mSender (c.session env msg.mSender)) hhandle
  rw [setSession_setSession] at hack
  exact ⟨(moves_session c env msg.mSender).tail hack, rfl⟩

theorem moves_sendText (env : Env) (seq : SequenceNo) (peer : Str) {msg : Str}
    (hmsg : msg ∈ texts) : MovesOnly P texts known (sendText P env seq peer msg) := by
  intro c b d _ hrun
  obtain ⟨session, c₁, hget, hrest⟩ := of_run_bind hrun
  obtain ⟨rfl, rfl⟩ := getSession_ok hget
  obtain ⟨pl, c₂, hattempt, hlast⟩ := of_run_bind hrest
  obtain ⟨hpl, rfl⟩ := attempt_ok hattempt
  cases hlast
  exact ⟨(moves_session c env peer).tail (.text seq hmsg (setSession_self c peer _) hpl), rfl⟩

theorem moves_sendStart (env : Env) : MovesOnly P texts known (sendStart env) := by
  intro c start d _ hrun
  obtain ⟨seq, c₁, hseq, hrest⟩ := of_run_bind hrun
  cases hseq
  obtain ⟨_, _, hget, hrest⟩ := of_run_bind hrest
  cases hget
  obtain ⟨_, _, hsession, hlast⟩ := of_run_bind hrest
  obtain ⟨rfl, rfl⟩ := getSession_ok hsession
  cases hlast
  exact ⟨(ReflTransGen.single (.frame rfl rfl)).trans (moves_session _ env _), rfl⟩

/-- The packet that ends the second wait of `setupE2E` is an ACK; it is not looked at
there. -/
def Goal.Fits : Goal → Packet → Prop
  | .answer _ => fun pkt => ∀ msg, pkt = .message msg → msg.mPayload.type = .e2eAck
  | _ => fun _ => True

/-- Whatever fits the waits, the steps between them only make moves. -/
def Safe {α : Type} (P : Primitives) (texts : Set Str) : Set Packet → Task α → Prop
  | _, .done _ => True
  | known, .step m next => ∀ c a d, c.Bounded → m c = .ok (a, d) →
      Moves P texts known c d ∧ d.mail = c.mail ∧ Safe P texts known (next a)
  | known, .wait goal next => ∀ pkt, goal.verdict pkt = .take → goal.Fits pkt →
      Safe P texts (insert pkt known) (next pkt)

section

variable {α β : Type} {p q : Task α}

theorem Safe.mono (htexts : texts ⊆ texts') (hp : Safe P texts known p) :
    Safe P texts' known p := by
  induction p generalizing known with
  | done a => trivial
  | step m rest ih =>
      intro c a d hbound hrun
      obtain ⟨hmoves, hmail, hrest⟩ := hp c a d hbound hrun
      exact ⟨hmoves.mono htexts Set.Subset.rfl, hmail, ih a hrest⟩
  | wait goal rest ih => exact fun pkt hverdict hfits => ih pkt (hp pkt hverdict hfits)

theorem Safe.step {γ : Type} {m : ClientM γ} {next : γ → Task α} (hm : MovesOnly P texts known m)
    (hnext : ∀ a, Safe P texts known (next a)) : Safe P texts known (.step m next) := by
  intro c a d hbound hrun
  obtain ⟨hmoves, hmail⟩ := hm c a d hbound hrun
  exact ⟨hmoves, hmail, hnext a⟩

theorem Safe.ite {cond : Prop} [Decidable cond] (hp : cond → Safe P texts known p)
    (hq : ¬ cond → Safe P texts known q) : Safe P texts known (if cond then p else q) := by
  by_cases hcond : cond
  · rw [if_pos hcond]
    exact hp hcond
  · rw [if_neg hcond]
    exact hq hcond

/-- What goes on after an operation may have taken more packets. -/
theorem Safe.bind {next : α → Task β} (hp : Safe P texts known p)
    (hnext : ∀ a known', known ⊆ known' → Safe P texts known' (next a)) :
    Safe P texts known (p.bind next) := by
  induction p generalizing known with
  | done a => exact hnext a known Set.Subset.rfl
  | step m rest ih =>
      intro c a d hbound hrun
      obtain ⟨hmoves, hmail, hrest⟩ := hp c a d hbound hrun
      exact ⟨hmoves, hmail, ih a hrest hnext⟩
  | wait goal rest ih =>
      intro pkt hverdict hfits
      refine ih pkt (hp pkt hverdict hfits) fun a known' hknown => hnext a known' ?_
      exact (Set.subset_insert pkt known).trans hknown

end

/-- A packet that is taken for a message is one. -/
theorem safe_derivedMessage {α : Type} {pkt : Packet} {next : MessagePacket → Task α}
    (hnext : ∀ msg, pkt = .message msg → Safe P texts known (next msg)) :
    Safe P texts known (.step (derivedMessage pkt) next) := by
  intro c msg d _ hrun
  obtain ⟨hpkt, rfl⟩ := derivedMessage_ok hrun
  exact ⟨.refl, rfl, hnext msg hpkt⟩

theorem safe_setupE2ETask (env : Env) (uname : Str) (refresh : Bool) :
    Safe P texts known (setupE2ETask P env uname refresh) := by
  refine Safe.step ?_ fun started => Safe.ite (fun _ => trivial) fun _ pkt _ _ => ?_
  · cases refresh with
    | true => exact moves_refreshE2E env uname
    | false => exact moves_initiateE2E env uname
  refine safe_derivedMessage fun msgPkt hpkt => ?_
  have hmsg : Packet.message msgPkt ∈ insert pkt known := hpkt ▸ Set.mem_insert pkt known
  refine Safe.ite (fun hinit => ?_) fun _ => Safe.ite (fun hack => ?_) fun _ => trivial
  · refine Safe.step (moves_handleE2EInit env hmsg hinit) fun accepted => ?_
    refine Safe.ite (fun _ => trivial) fun _ ackPkt _ hfits => ?_
    refine safe_derivedMessage fun ackMsgPkt hackPkt => ?_
    exact Safe.step (moves_handleE2EAck env (hackPkt ▸ Set.mem_insert ackPkt _)
      (hfits ackMsgPkt hackPkt)) fun _ => trivial
  · exact Safe.step (moves_handleE2EAck env hmsg hack) fun _ => trivial

theorem safe_refreshStaleTask (env : Env) (peer : Str) (session : E2ESession) :
    Safe P texts known (refreshStaleTask P env peer session) :=
  Safe.ite (fun _ => (safe_setupE2ETask env peer true).bind fun _ _ _ => trivial)
    fun _ => trivial

theorem safe_connectToTask (env : Env) (uname : Str) :
    Safe P texts known (connectToTask P env uname) := by
  refine Safe.step ?_ fun session => ?_
  · intro c session d _ hrun
    cases hrun
    exact ⟨.single (.frame rfl rfl), rfl⟩
  · cases session with
    | none => exact trivial
    | some session =>
        exact (safe_refreshStaleTask env uname session).bind fun _ _ _ => trivial

theorem safe_sendTask (env : Env) {msg : Str} (hmsg : msg ∈ texts) :
    Safe P texts known (sendTask P env msg) := by
  refine Safe.step (moves_sendStart env) fun start => ?_
  refine (safe_refreshStaleTask env _ _).bind fun _ known' _ => ?_
  exact Safe.step (moves_sendText env _ _ hmsg) fun seq => trivial

/-- The texts an action asks to send. -/
def Action.wording : Action → Set Str
  | .send msg => {msg}
  | _ => ∅

theorem safe_actionTask {action : Action} {p : Task PUnit}
    (htask : actionTask P env action = some p) (htexts : action.wording ⊆ texts) :
    Safe P texts known p := by
  cases action with
  | login username =>
      cases htask
      refine Safe.step moves_nextSeqNo fun seq => Safe.step (moves_request (by rintro _ ⟨⟩)) ?_
      exact fun _ _ _ _ => trivial
  | connectTo uname =>
      cases htask
      exact (safe_connectToTask env uname).bind fun _ _ _ => trivial
  | send msg =>
      cases htask
      exact (safe_sendTask env (htexts rfl)).bind fun _ _ _ => trivial
  | getUsers =>
      cases htask
      have hasked : Safe P texts known (getUsersTask env) := by
        refine Safe.step moves_nextSeqNo fun seq => ?_
        refine Safe.step (moves_request (by rintro _ ⟨⟩)) fun res => ?_
        exact Safe.ite (fun _ => trivial) fun _ _ _ _ => trivial
      exact hasked.bind fun _ _ _ => trivial
  | setupE2E uname refresh =>
      cases htask
      exact (safe_setupE2ETask env uname refresh).bind fun _ _ _ => trivial
  | _ => cases htask

theorem moves_handleE2EPacket (env : Env) {msg : MessagePacket} (hmsg : .message msg ∈ known) :
    MovesOnly P texts known (handleE2EPacket P env msg) := by
  intro c b d hbound hrun
  unfold handleE2EPacket at hrun
  by_cases hinit : msg.mPayload.type = .e2eInit
  · rw [if_pos hinit] at hrun
    obtain ⟨accepted, c₁, hhandle, hlast⟩ := of_run_bind hrun
    cases hlast
    exact moves_handleE2EInit env hmsg hinit c accepted d hbound hhandle
  · rw [if_neg hinit] at hrun
    by_cases hack : msg.mPayload.type = .e2eAck
    · rw [if_pos hack] at hrun
      exact moves_handleE2EAck env hmsg hack c b d hbound hrun
    · rw [if_neg hack] at hrun
      cases hrun
      exact ⟨.refl, rfl⟩

theorem moves_decryptMessage (env : Env) (msg : MessagePacket) :
    MovesOnly P texts known (decryptMessage P env msg) := by
  intro c b d hbound hrun
  obtain ⟨s, c₁, hget, hattempt⟩ := of_run_bind hrun
  obtain ⟨_, rfl⟩ := attempt_ok hattempt
  exact moves_getSession env msg.mSender c s d hbound hget

/-- A round of the receive loop knows the packets of the mailbox only. -/
theorem moves_receiveLoop (env : Env) {b : Unit} (hbound : c.Bounded)
    (hrun : receiveLoop P env c = .ok (b, d)) :
    Moves P texts {pkt | pkt ∈ c.mail.packets} c d ∧ d.mail = c.mail.poll.2 := by
  obtain ⟨item, c₁, hpoll, hrest⟩ := of_run_bind hrun
  cases hpoll
  have hpolled : Moves P texts {pkt | pkt ∈ c.mail.packets} c { c with mail := c.mail.poll.2 } :=
    .single (.frame rfl rfl)
  have hhead : ∀ msg, c.mail.poll.1 = some (.message msg) →
      Packet.message msg ∈ {pkt | pkt ∈ c.mail.packets} := by
    intro msg hmsg
    rw [Set.mem_ofPred_eq, (polled_poll c.mail).packets_eq, hmsg]
    exact List.mem_append_left _ (List.mem_singleton.mpr rfl)
  have hdone : ∀ {m : ClientM Unit}, MovesOnly P texts {pkt | pkt ∈ c.mail.packets} m →
      m { c with mail := c.mail.poll.2 } = .ok (b, d) →
      Moves P texts {pkt | pkt ∈ c.mail.packets} c d ∧ d.mail = c.mail.poll.2 := by
    intro m hm hlast
    obtain ⟨hmoves, hmail⟩ := hm { c with mail := c.mail.poll.2 } b d hbound hlast
    exact ⟨hpolled.trans hmoves, hmail⟩
  cases hitem : c.mail.poll.1 with
  | none =>
      rw [hitem] at hrest
      cases hrest
      exact ⟨hpolled, rfl⟩
  | some pkt =>
      rw [hitem] at hrest
      cases pkt with
      | message msg =>
          by_cases hcontrol : msg.mPayload.isE2EControl = true
          · simp only [if_pos hcontrol] at hrest
            exact hdone (moves_handleE2EPacket env (hhead msg hitem)) hrest
          · simp only [if_neg hcontrol] at hrest
            obtain ⟨text, c₂, hdecrypt, hlast⟩ := of_run_bind hrest
            cases hlast
            obtain ⟨hmoves, hmail⟩ := moves_decryptMessage env msg
              { c with mail := c.mail.poll.2 } text d hbound hdecrypt
            exact ⟨hpolled.trans hmoves, hmail⟩
      | _ =>
          cases hrest
          exact ⟨hpolled, rfl⟩

/-- What an operation without a wait does. -/
theorem moves_perform {action : Action} (htask : actionTask P env action = none)
    (hown : ∀ item, action ≠ .arrive item) (hbound : c.Bounded)
    (hrun : perform P env action c = .ok (⟨⟩, d)) :
    Moves P texts {pkt | pkt ∈ c.mail.packets} c d ∧ d.mail.packets ⊆ c.mail.packets := by
  cases action with
  | receive =>
      obtain ⟨hmoves, hmail⟩ := moves_receiveLoop env hbound hrun
      refine ⟨hmoves, ?_⟩
      rw [hmail]
      exact (polled_poll c.mail).packets_subset
  | quit =>
      cases hrun
      have hfirst : Move P texts {pkt | pkt ∈ c.mail.packets} c
          { c with curSeqNo := c.curSeqNo + 1 } := .frame rfl rfl
      exact ⟨(ReflTransGen.single hfirst).tail (.request (by rintro _ ⟨⟩)), List.Subset.refl _⟩
  | arrive item => exact absurd rfl (hown item)
  | _ => cases htask

end Client

namespace Worker

open Client (actionTask mailSlot Goal Safe Moves)

variable {P : Primitives} {texts texts' : Set Str} {known known' : Set Packet} {w w' : Worker}
  {label : Label}

/-- What the wait that is going on will take fits it. -/
def Fits (w : Worker) : Prop :=
  ∀ goal next pkt rest, w.task = some (.wait goal next) →
    w.client.mail.poll = (some pkt, rest) → goal.verdict pkt = .take → goal.Fits pkt

/-- The texts a label asks to send. -/
def Label.wording : Label → List Str
  | .start _ (.send msg) => [msg]
  | _ => []

/-- Nothing but `known` packets is in the mailbox or has been taken. -/
structure Sound (P : Primitives) (texts : Set Str) (known : Set Packet) (w : Worker) : Prop where
  mail : ∀ pkt ∈ w.client.mail.packets, pkt ∈ known
  task : ∀ p, w.task = some p → ∃ taken ⊆ known, Safe P texts taken p

theorem Sound.mono (hw : Sound P texts known w) (htexts : texts ⊆ texts')
    (hknown : known ⊆ known') : Sound P texts' known' w where
  mail pkt hpkt := hknown (hw.mail pkt hpkt)
  task p hp := by
    obtain ⟨taken, htaken, hsafe⟩ := hw.task p hp
    exact ⟨taken, htaken.trans hknown, hsafe.mono htexts⟩

theorem sound_fresh : Sound P texts known ⟨.fresh, none⟩ where
  mail := by rintro pkt ⟨⟩
  task := by rintro p ⟨⟩

/-- Packets that arrive are known. -/
theorem Sound.arrive (hw : Sound P texts known w) {item : Option Packet}
    (hitem : ∀ pkt, item = some pkt → pkt ∈ known) :
    Sound P texts known { w with client := w.client.arrive [item] } where
  mail pkt hpkt := by
    have harrived := Client.arrive_packets w.client.mail item
    have hpackets : pkt ∈ w.client.mail.packets ++ item.toList := harrived ▸ hpkt
    rcases List.mem_append.mp hpackets with hold | hnew
    · exact hw.mail pkt hold
    · exact hitem pkt (Option.mem_toList.mp hnew)
  task := hw.task

/-- What a poll takes from the mailbox was in it, and so was what it leaves. -/
theorem known_of_poll (hmail : ∀ pkt ∈ w.client.mail.packets, pkt ∈ known)
    {item : Option Packet} {rest : Mailbox Packet} (hpoll : w.client.mail.poll = (item, rest)) :
    (∀ pkt, item = some pkt → pkt ∈ known) ∧ ∀ pkt ∈ rest.packets, pkt ∈ known := by
  have hpolled := polled_poll w.client.mail
  rw [hpoll] at hpolled
  refine ⟨fun pkt hpkt => hmail pkt ?_, fun pkt hpkt => hmail pkt (hpolled.packets_subset hpkt)⟩
  rw [hpolled.packets_eq, hpkt]
  exact List.mem_append_left _ (List.mem_singleton.mpr rfl)

/-- Putting a packet back keeps what is known. -/
theorem known_of_push {rest : Mailbox Packet} {item : Option Packet}
    (hrest : ∀ pkt ∈ rest.packets, pkt ∈ known) (hitem : ∀ pkt, item = some pkt → pkt ∈ known) :
    ∀ pkt ∈ (rest.push item).packets, pkt ∈ known := fun pkt hpkt =>
  (mem_push_packets hpkt).elim (hitem pkt) (hrest pkt)

/-- A turn of the operation makes moves, with packets that were there. -/
theorem moves_turn (hw : Sound P texts known w) (hbound : w.client.Bounded) (hfits : w.Fits)
    {p q : Client.Task PUnit} {c : Client} (htask : w.task = some p)
    (hturn : Script.Turn mailSlot Goal.verdict w.client p c q) :
    Moves P texts known w.client c ∧ Sound P texts known ⟨c, some q⟩ := by
  obtain ⟨taken, htaken, hsafe⟩ := hw.task p htask
  have hpolled : ∀ m : Mailbox Packet,
      Moves P texts known w.client { w.client with mail := m } :=
    fun m => .single (.frame rfl rfl)
  cases hturn with
  | step hrun =>
      obtain ⟨hmoves, hmail, hnext⟩ := hsafe _ _ _ hbound hrun
      refine ⟨hmoves.mono Set.Subset.rfl htaken, ?_, ?_⟩
      · rw [hmail]
        exact hw.mail
      · rintro _ ⟨⟩
        exact ⟨taken, htaken, hnext⟩
  | @empty goal next rest hpoll =>
      refine ⟨hpolled rest, (known_of_poll hw.mail hpoll).2, ?_⟩
      rintro _ ⟨⟩
      exact ⟨taken, htaken, hsafe⟩
  | @take goal next pkt rest hpoll hverdict =>
      obtain ⟨hpkt, hrest⟩ := known_of_poll hw.mail hpoll
      refine ⟨hpolled rest, hrest, ?_⟩
      rintro _ ⟨⟩
      refine ⟨insert pkt taken, Set.insert_subset (hpkt pkt rfl) htaken, ?_⟩
      exact hsafe pkt hverdict (hfits goal next pkt rest htask hpoll hverdict)
  | @keep goal next pkt rest hpoll hverdict =>
      obtain ⟨hpkt, hrest⟩ := known_of_poll hw.mail hpoll
      refine ⟨hpolled _, known_of_push hrest fun pkt' hpkt' => hpkt pkt' hpkt', ?_⟩
      rintro _ ⟨⟩
      exact ⟨taken, htaken, hsafe⟩
  | @lose goal next pkt rest hpoll hverdict =>
      obtain ⟨hpkt, hrest⟩ := known_of_poll hw.mail hpoll
      refine ⟨hpolled _, known_of_push hrest (by rintro _ ⟨⟩), ?_⟩
      rintro _ ⟨⟩
      exact ⟨taken, htaken, hsafe⟩

/-- All that a step of the worker does to its client are moves, with packets that were
there and texts that were asked for. -/
theorem moves_step (hw : Sound P texts known w) (hbound : w.client.Bounded) (hfits : w.Fits)
    (hown : ∀ item, label ≠ .arrive item) (hwording : ∀ text ∈ label.wording, text ∈ texts)
    (hstep : Step P w label w') :
    Moves P texts known w.client w'.client ∧ Sound P texts known w' := by
  cases hstep with
  | @start env action p hidle htask =>
      refine ⟨.refl, hw.mail, ?_⟩
      rintro _ ⟨⟩
      refine ⟨∅, Set.empty_subset _, Client.safe_actionTask htask fun text htext => ?_⟩
      cases action with
      | send msg => exact hwording text (List.mem_singleton.mpr htext)
      | _ => exact htext.elim
  | @whole env action c hidle htask hnotArrive hrun =>
      obtain ⟨hmoves, hmail⟩ := Client.moves_perform htask hnotArrive hbound hrun
      refine ⟨hmoves.mono Set.Subset.rfl hw.mail, fun pkt hpkt => hw.mail pkt (hmail hpkt), ?_⟩
      intro p hp
      exact hw.task p hp
  | turn htask hturn => exact moves_turn hw hbound hfits htask hturn
  | finish htask => exact ⟨.refl, hw.mail, by rintro _ ⟨⟩⟩
  | arrive item => exact absurd rfl (hown item)

end Worker

end LeakyChat

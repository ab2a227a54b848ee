/-
A client behind the server, among connections that may send anything.  What the
client does to the session it keeps under a name comes from its own operations
on that name, and from messages that the connection registered under the name
has sent.
-/
import LeakyChat.ClientSessions
import LeakyChat.ReplayedRecords
import LeakyChat.ServerNames
import Mathlib.Logic.Relation

namespace LeakyChat

open Transition
open Relation (ReflTransGen)
open E2ESession (Call)

namespace E2ESession

/-- What a call handles is among the payloads. -/
def Call.Uses (pls : Set Payload) : Call → Prop
  | .handleInit pl _ _ => pl ∈ pls
  | .handleAck pl _ => pl ∈ pls
  | _ => True

/-- A session is made, or a method of it is called. -/
inductive Touches (P : Primitives) (pls : Set Payload) :
    Option E2ESession → Option E2ESession → Prop
  | make (exponent oldExponent : Nat) : Touches P pls none (some (.fresh exponent oldExponent))
  | call {s : E2ESession} {call : Call} (hallowed : call.Allowed s) (huses : call.Uses pls) :
      Touches P pls (some s) (some (s.run P call).1)

variable {P : Primitives} {pls pls' : Set Payload} {s t : Option E2ESession}

theorem Touches.mono (hpls : pls ⊆ pls') (htouches : Touches P pls s t) : Touches P pls' s t := by
  cases htouches with
  | make exponent oldExponent => exact .make exponent oldExponent
  | @call s call hallowed huses =>
      refine .call hallowed ?_
      cases call with
      | handleInit pl stack exponent => exact hpls huses
      | handleAck pl stack => exact hpls huses
      | _ => trivial

end E2ESession

namespace Client

variable {P : Primitives}

/-- The payloads under a sender's name. -/
def payloadsOf (mail : Set Packet) (peer : Str) : Set Payload :=
  {pl | ∃ msg : MessagePacket, .message msg ∈ mail ∧ msg.mSender = peer ∧ msg.mPayload = pl}

/-- Nothing is done to the session of a peer but with payloads under the peer's name. -/
theorem touched_kept (P : Primitives) (mail : Set Packet) (peer : Str) (first : Option E2ESession) :
    Kept P Set.univ mail fun c =>
      ReflTransGen (E2ESession.Touches P (payloadsOf mail peer)) first (c.mE2ESessions peer) := by
  have hset : ∀ {c : Client} {other : Str} {s t : Option E2ESession} {u : E2ESession},
      c.mE2ESessions other = s → t = some u →
      (other = peer → E2ESession.Touches P (payloadsOf mail peer) s t) →
      ReflTransGen (E2ESession.Touches P (payloadsOf mail peer)) first (c.mE2ESessions peer) →
      ReflTransGen (E2ESession.Touches P (payloadsOf mail peer)) first
        ((c.setSession other u).mE2ESessions peer) := by
    rintro c other s t u hs rfl htouches hc
    by_cases hother : other = peer
    · subst hother
      rw [setSession_self]
      exact (hs ▸ hc).tail (htouches rfl)
    · rw [setSession_of_ne c (Ne.symm hother)]
      exact hc
  constructor
  case frame => exact fun hc d hsessions _ => hsessions ▸ hc
  case packet => exact fun _ hc => hc
  case make =>
    exact fun exponent oldExponent _ hs hc => hset hs rfl (fun _ => .make exponent oldExponent) hc
  case start =>
    intro c other s t call pl _ _ hs hstarts hallowed hrun hc
    have huses : call.Uses (payloadsOf mail peer) := by
      cases call <;> first | exact trivial | exact hstarts.elim
    refine hset hs rfl (fun _ => ?_) hc
    have htouches := E2ESession.Touches.call (P := P) hallowed huses
    rwa [hrun] at htouches
  case handleInit =>
    intro c msg s stack exponent _ hmsg hs hc
    refine hset hs rfl (fun hsender => ?_) hc
    have huses : (Call.handleInit msg.mPayload stack exponent).Uses (payloadsOf mail peer) :=
      ⟨msg, hmsg, hsender, rfl⟩
    have hallowed : (Call.handleInit msg.mPayload stack exponent).Allowed s := trivial
    exact E2ESession.Touches.call hallowed huses
  case handleAck =>
    intro c msg s stack _ hmsg hs hc
    refine hset hs rfl (fun hsender => ?_) hc
    have huses : (Call.handleAck msg.mPayload stack).Uses (payloadsOf mail peer) :=
      ⟨msg, hmsg, hsender, rfl⟩
    have hallowed : (Call.handleAck msg.mPayload stack).Allowed s := trivial
    exact E2ESession.Touches.call hallowed huses

end Client

namespace Server

variable {P : Primitives} {hash : Str → UInt64} {s t : Server} {logins : Logins}

/-- A packet the server has handed to the handler of a connection. -/
def Hands (P : Primitives) (s : Server) (sending : Sending) : Prop :=
  ∃ (handler : NetworkHandler) (env : ServerEnv) (result : Int),
    s.connections.data[sending.sid]? = some handler ∧
    handler.sendPacket P env.nonce sending.packet env.bytesSent = .ok (result, sending.record)

/-- What `sendPacket` adds. -/
theorem sendPacket_hands {env : ServerEnv} {sid : SID} {pkt : Packet}
    (hrun : sendPacket P env sid pkt s = .ok (⟨⟩, t)) :
    ∃ sending, t.sent = s.sent ++ [sending] ∧ sending.packet = pkt ∧ Hands P s sending := by
  obtain ⟨handler, result, record, hget, hsend, rfl⟩ := sendPacket_ok hrun
  exact ⟨⟨sid, pkt, record⟩, rfl, rfl, handler, env, result, hget, hsend⟩

/-- One packet goes out, and it is a message only if `pkt` is one, under the name that
the connection `pkt` came from has. -/
def Emits (P : Primitives) (s : Server) (sid : SID) (pkt : Packet) (t : Server) : Prop :=
  ∃ sending, t.sent = s.sent ++ [sending] ∧ Hands P s sending ∧
    ∀ msg, sending.packet = .message msg → ∃ req, pkt = .message req ∧
      s.usernames.mData[sid]? = some msg.mSender ∧ msg = req.setSender msg.mSender

/-- A reply that is not a message, from a server with the same connections. -/
theorem emits_of_reply {env : ServerEnv} {sid rcvr : SID} {pkt reply : Packet} {u : Server}
    (hsend : sendPacket P env rcvr reply u = .ok (⟨⟩, t))
    (hreply : ∀ msg, reply ≠ .message msg) (hconnections : u.connections = s.connections)
    (hsent : u.sent = s.sent) : Emits P s sid pkt t := by
  obtain ⟨sending, ht, rfl, hhands⟩ := sendPacket_hands hsend
  rw [hsent] at ht
  rw [Hands, hconnections] at hhands
  exact ⟨sending, ht, hhands, fun msg hmsg => absurd hmsg (hreply msg)⟩

theorem handleLogin_emits {env : ServerEnv} {sid : SID} {req : FieldReqPacket} {pkt : Packet}
    (hrun : handleLogin P hash env sid req s = .ok (⟨⟩, t)) : Emits P s sid pkt t := by
  have hlogin : (login hash sid req.mField s).2.connections = s.connections ∧
      (login hash sid req.mField s).2.sent = s.sent := by
    unfold login
    split <;> exact ⟨rfl, rfl⟩
  exact emits_of_reply ((handleLogin_eq env sid req s).symm.trans hrun) (by rintro _ ⟨⟩)
    hlogin.1 hlogin.2

theorem handleQuit_emits {env : ServerEnv} {sid : SID} {req : RequestPacket} {pkt : Packet}
    (hrun : handleQuit P env sid req s = .ok (⟨⟩, t)) : Emits P s sid pkt t := by
  obtain ⟨u, hsend, rfl⟩ := handleQuit_sends hrun
  exact emits_of_reply (t := u) hsend (by rintro _ ⟨⟩) rfl rfl

theorem getUserList_emits {env : ServerEnv} {sid : SID} {pkt : Packet}
    (hrun : getUserList P env sid s = .ok (⟨⟩, t)) : Emits P s sid pkt t := by
  obtain ⟨reply, _, hsend⟩ := getUserList_sends hrun
  exact emits_of_reply hsend (by rintro _ ⟨⟩) rfl rfl

theorem handleMessage_emits {env : ServerEnv} {sid : SID} {req : MessagePacket}
    (hrun : handleMessage P hash env sid req s = .ok (⟨⟩, t)) :
    t.sent = s.sent ∨ Emits P s sid (.message req) t := by
  rw [handleMessage_eq] at hrun
  split at hrun
  · cases hrun
  · rename_i name hname
    split at hrun
    · cases hrun
      exact Or.inl rfl
    · obtain ⟨sending, ht, hpacket, hhands⟩ := sendPacket_hands hrun
      refine Or.inr ⟨sending, ht, hhands, ?_⟩
      intro msg hmsg
      cases hpacket.symm.trans hmsg
      exact ⟨req, rfl, hname, rfl⟩

theorem handlePacket_sent {env : ServerEnv} {sid : SID} {pkt : Packet}
    (hrun : handlePacket P hash env sid pkt s = .ok (⟨⟩, t)) :
    t.sent = s.sent ∨ Emits P s sid pkt t := by
  cases pkt with
  | fieldReq req => exact Or.inr (handleLogin_emits hrun)
  | request req =>
      by_cases hquit : req.mRequestType = .disconnect
      · rw [handlePacket_quit P hash env sid hquit] at hrun
        exact Or.inr (handleQuit_emits hrun)
      · rw [handlePacket_list P hash env sid hquit] at hrun
        exact Or.inr (getUserList_emits hrun)
  | message req => exact handleMessage_emits hrun
  | _ =>
      cases hrun
      exact Or.inl rfl

/-- What a step has sent was handed out in it, and is a message only if a message was
handled, under the name that its sender's connection has. -/
theorem sending_of_step {label : Label} (hstep : Step P hash s label t) {sending : Sending}
    (hsending : sending ∈ t.sent) :
    sending ∈ s.sent ∨ Hands P s sending ∧
      ∀ msg, sending.packet = .message msg → ∃ env sid req,
        label = .packet env sid (.message req) ∧
          s.usernames.mData[sid]? = some msg.mSender ∧ msg = req.setSender msg.mSender := by
  cases hstep with
  | packet hopen hrun =>
      rename_i env sid pkt
      rcases handlePacket_sent hrun with hsame | ⟨last, ht, hhands, hmessage⟩
      · exact Or.inl (hsame ▸ hsending)
      · rw [ht, List.mem_append, List.mem_singleton] at hsending
        rcases hsending with hold | rfl
        · exact Or.inl hold
        · refine Or.inr ⟨hhands, fun msg hmsg => ?_⟩
          obtain ⟨req, rfl, hname⟩ := hmessage msg hmsg
          exact ⟨env, sid, req, rfl, hname⟩
  | _ => exact Or.inl hsending

/-- A connection that is open after a step has the handler it had, or it is new. -/
theorem open_of_step {label : Label} (hstep : Step P hash s label t) {sid : SID}
    {handler : NetworkHandler} (hget : t.connections.data[sid]? = some handler)
    (hconnected : handler.connected = true) :
    s.connections.data[sid]? = some handler ∨ s.connections.data.length ≤ sid := by
  have hclose : ∀ other, (s.connections.close other).data[sid]? = some handler →
      s.connections.data[sid]? = some handler := by
    intro other hclosed
    rw [SocketSet.close, List.getElem?_modify, Option.map_eq_map, Option.map_eq_some_iff] at hclosed
    obtain ⟨handler', hget', hsame⟩ := hclosed
    by_cases hother : other = sid
    · rw [if_pos hother] at hsame
      rw [← hsame] at hconnected
      cases hconnected
    · rw [if_neg hother] at hsame
      rw [hget']
      exact congrArg some hsame
  cases hstep with
  | connect hhandler =>
      by_cases hsid : sid < s.connections.data.length
      · left
        rw [SocketSet.insert, List.getElem?_append_left hsid] at hget
        exact hget
      · exact Or.inr (Nat.le_of_not_lt hsid)
  | wait idx revents =>
      rw [waitForRead_data] at hget
      exact Or.inl hget
  | packet hopen hrun =>
      rcases (handlePacket_ok hrun).1 with hsame | hclosed
      · exact Or.inl (hsame ▸ hget)
      · exact Or.inl (hclose _ (hclosed ▸ hget))
  | drop other => exact Or.inl (hclose other hget)

theorem length_le_of_step {label : Label} (hstep : Step P hash s label t) :
    s.connections.data.length ≤ t.connections.data.length := by
  cases hstep with
  | connect hhandler => simp [SocketSet.insert]
  | wait idx revents => simp [waitForRead_data]
  | packet hopen hrun =>
      rcases (handlePacket_ok hrun).1 with hsame | hclosed
      · rw [hsame]
      · simp [hclosed, SocketSet.close]
  | drop other => simp [SocketSet.close]

end Server

/-- A message that the server has handled: the connection it came from, and the names as
they were then. -/
structure Relay where
  origin : SID
  usernames : IndexedSocketMap Str
  packet : MessagePacket

/-- It came from the connection registered under the name. -/
def Relay.From (hash : Str → UInt64) (relay : Relay) (name : Str) : Prop :=
  relay.usernames.getSID hash name = some relay.origin

/-- The connection of the client: its number at the server, and its handler here. -/
structure Account where
  sid : SID
  handler : NetworkHandler

structure Deployment where
  server : Server
  logins : Server.Logins
  relays : List Relay
  account : Option Account
  client : Client

namespace Deployment

inductive Label where
  | server (label : Server.Label)
  | join (handler peer : NetworkHandler)
  | act (env : Env) (action : Client.Action)
  | receive (env : Env) (recv : Recv) (stack : Stack)

/-- The message a step of the server handles. -/
def handled (s : Server) : Server.Label → List Relay
  | .packet _ sid (.message msg) => [⟨sid, s.usernames, msg⟩]
  | _ => []

/-- A message comes from a connection that has logged in, and no name is empty. -/
def Assumed (logins : Server.Logins) : Server.Label → Prop
  | .packet _ sid (.message _) => ∃ name, Server.registered logins sid = some name
  | .packet _ _ (.fieldReq req) => req.mField ≠ .empty
  | _ => True

variable (P : Primitives) (hash : Str → UInt64)

/-- The server handles any packets whatsoever, from any connections, the client's among
them: an operation of the client that waits is one step here, and follows the replies it
waits for.  What the client's `recv` returns is a record the server has handed to the
socket of its connection. -/
inductive Step : Deployment → Label → Deployment → Prop
  | server {t : Deployment} {label : Server.Label} {server : Server} {logins : Server.Logins}
      (hassumed : Assumed t.logins label)
      (hserver : (Server.system P hash).step (t.server, t.logins) label (server, logins)) :
      Step t (.server label)
        { t with server := server, logins := logins, relays := t.relays ++ handled t.server label }
  | join {t : Deployment} {handler peer : NetworkHandler} {session peerSession : CryptoSession}
      (hnone : t.account = none) (hhandler : handler.EstablishedWith session)
      (hpeer : peer.EstablishedWith peerSession) (hkey : peerSession.mKey = session.mKey) :
      Step t (.join handler peer)
        { t with
          server := { t.server with connections := t.server.connections.insert handler }
          account := some ⟨t.server.connections.data.length, peer⟩ }
  | act {t : Deployment} {env : Env} {action : Client.Action} {client : Client}
      (haction : ∀ item, action ≠ .arrive item)
      (hclient : (Client.system P).step t.client (env, action) client) :
      Step t (.act env action) { t with client := client }
  | receive {t : Deployment} {env : Env} {recv : Recv} {stack : Stack} {account : Account}
      {handler : NetworkHandler} {item : Option Packet} {client : Client}
      (haccount : t.account = some account)
      (hrecv : ∀ chunk, recv = .chunk chunk → ∃ sending ∈ t.server.sent,
        sending.sid = account.sid ∧ sending.record = some chunk.1)
      (hrun : account.handler.receivePacket P recv stack = (handler, .ok item))
      (hclient : (Client.system P).step t.client (env, .arrive item) client) :
      Step t (.receive env recv stack)
        { t with account := some { account with handler := handler }, client := client }

def system : System Deployment Label where
  init t := t = ⟨.fresh, [], [], none, .fresh⟩
  step := Step P hash

/-- The message is one of these, stamped with the name of the connection it came from. -/
def Sourced (relays : List Relay) (msg : MessagePacket) : Prop :=
  ∃ relay ∈ relays, relay.From hash msg.mSender ∧ relay.packet.setSender msg.mSender = msg

/-- The connection of the client is under a key as long as its ends are open. -/
structure Linked (s : Server) (account : Account) (key : Key) : Prop where
  lt : account.sid < s.connections.data.length
  server : ∀ handler, s.connections.data[account.sid]? = some handler →
    handler.connected = true → ∃ c, handler.EstablishedWith c ∧ c.mKey = key
  client : account.handler.connected = true →
    ∃ c, account.handler.EstablishedWith c ∧ c.mKey = key
  sealed : ∀ sending ∈ s.sent, sending.sid = account.sid → ∀ bytes,
    sending.record = some bytes → TappedConnection.Sealed P key ⟨sending.packet, bytes⟩

structure Good (t : Deployment) : Prop where
  reachable : Reachable (Server.system P hash) (t.server, t.logins)
  named : ∀ login ∈ t.logins, login.2 ≠ .empty
  sent : ∀ sending ∈ t.server.sent, sending.sid < t.server.connections.data.length
  messages : ∀ sending ∈ t.server.sent, ∀ msg, sending.packet = .message msg →
    Sourced hash t.relays msg
  linked : ∀ account, t.account = some account → ∃ key, Linked P t.server account key
  mail : ∀ msg, .message msg ∈ t.client.mail.packets → Sourced hash t.relays msg

variable {P hash} {t t' : Deployment}

theorem Sourced.append {relays more : List Relay} {msg : MessagePacket}
    (hmsg : Sourced hash relays msg) : Sourced hash (relays ++ more) msg := by
  obtain ⟨relay, hmem, hrelay⟩ := hmsg
  exact ⟨relay, List.mem_append_left _ hmem, hrelay⟩

/-- A handler that has put a record on its socket is open. -/
theorem sealed_of_hands {s : Server} {account : Account} {key : Key}
    (hlinked : Linked P s account key) {sending : Sending} (hhands : Server.Hands P s sending)
    (hsid : sending.sid = account.sid) {bytes : List UInt8}
    (hrecord : sending.record = some bytes) :
    TappedConnection.Sealed P key ⟨sending.packet, bytes⟩ := by
  obtain ⟨handler, env, result, hget, hsend⟩ := hhands
  rw [hsid] at hget
  rw [hrecord] at hsend
  have hready : handler.ready = true := by
    by_contra hclosed
    rw [NetworkHandler.sendPacket, if_neg hclosed] at hsend
    cases hsend
  obtain ⟨c, hc, rfl⟩ := hlinked.server handler hget (of_decide_eq_true hready).1
  obtain ⟨plaintext, htext, hbytes⟩ := hc.sendPacket_ok hsend
  exact ⟨env.nonce, plaintext, htext, hbytes⟩

theorem Linked.step {s u : Server} {account : Account} {key : Key}
    (hlinked : Linked P s account key) {label : Server.Label}
    (hstep : Server.Step P hash s label u) : Linked P u account key := by
  refine ⟨hlinked.lt.trans_le (Server.length_le_of_step hstep), ?_, hlinked.client, ?_⟩
  · intro handler hget hconnected
    rcases Server.open_of_step hstep hget hconnected with hold | hnew
    · exact hlinked.server handler hold hconnected
    · exact absurd hlinked.lt (Nat.not_lt.mpr hnew)
  · intro sending hsending hsid bytes hrecord
    rcases Server.sending_of_step hstep hsending with hold | ⟨hhands, _⟩
    · exact hlinked.sealed sending hold hsid bytes hrecord
    · exact sealed_of_hands hlinked hhands hsid hrecord

theorem good_server (hgood : Good P hash t) {label : Server.Label} {server : Server}
    {logins : Server.Logins} (hassumed : Assumed t.logins label)
    (hserver : (Server.system P hash).step (t.server, t.logins) label (server, logins)) :
    Good P hash { t with
      server := server, logins := logins, relays := t.relays ++ handled t.server label } := by
  obtain ⟨hstep, hlogins⟩ : Server.Step P hash t.server label server ∧
      logins = Server.grants hash t.server label ++ t.logins := hserver
  have hserverGood := Server.good_of_reachable hgood.reachable
  constructor
  · exact hgood.reachable.step ⟨hstep, hlogins⟩
  · intro login hlogin
    rw [hlogins, List.mem_append] at hlogin
    rcases hlogin with hlogin | hlogin
    · unfold Server.grants at hlogin
      split at hlogin
      · split at hlogin
        · cases hlogin
        · rw [List.mem_singleton.mp hlogin]
          exact hassumed
      · cases hlogin
    · exact hgood.named login hlogin
  · intro sending hsending
    have hle := Server.length_le_of_step hstep
    rcases Server.sending_of_step hstep hsending with hold | ⟨⟨_, _, _, hget, _⟩, _⟩
    · exact (hgood.sent sending hold).trans_le hle
    · exact (List.getElem?_eq_some_iff.mp hget).1.trans_le hle
  · intro sending hsending msg hmsg
    rcases Server.sending_of_step hstep hsending with hold | ⟨_, hmessage⟩
    · exact (hgood.messages sending hold msg hmsg).append
    · obtain ⟨env, sid, req, rfl, hname, hstamped⟩ := hmessage msg hmsg
      -- the sender's own name is not empty, so the index finds the sender under it
      obtain ⟨name, hregistered⟩ := hassumed
      have hsame := hname.symm.trans (hserverGood.stored sid name hregistered)
      rw [Option.some.injEq] at hsame
      have hnonempty := hgood.named _ (Server.mem_of_registered hregistered)
      rw [← hsame] at hnonempty
      exact ⟨⟨sid, t.server.usernames, req⟩, List.mem_append_right _ List.mem_cons_self,
        (hserverGood.indexed.getSID_iff hnonempty).mpr hname, hstamped.symm⟩
  · intro account haccount
    obtain ⟨key, hlinked⟩ := hgood.linked account haccount
    exact ⟨key, hlinked.step hstep⟩
  · exact fun msg hmsg => (hgood.mail msg hmsg).append

theorem good_join (hgood : Good P hash t) {handler peer : NetworkHandler}
    {session peerSession : CryptoSession} (hhandler : handler.EstablishedWith session)
    (hpeer : peer.EstablishedWith peerSession) (hkey : peerSession.mKey = session.mKey) :
    Good P hash { t with
      server := { t.server with connections := t.server.connections.insert handler }
      account := some ⟨t.server.connections.data.length, peer⟩ } := by
  have hlength : (t.server.connections.insert handler).data.length =
      t.server.connections.data.length + 1 := by
    simp [SocketSet.insert]
  have hstep : (Server.system P hash).step (t.server, t.logins) (.connect handler)
      ({ t.server with connections := t.server.connections.insert handler }, t.logins) :=
    ⟨Server.Step.connect hhandler, rfl⟩
  refine ⟨hgood.reachable.step hstep, hgood.named, ?_, hgood.messages, ?_, hgood.mail⟩
  · intro sending hsending
    exact (hgood.sent sending hsending).trans_le (hlength ▸ Nat.le_succ _)
  · rintro account haccount
    cases haccount
    refine ⟨session.mKey, hlength ▸ Nat.lt_succ_self _, ?_, fun _ => ⟨peerSession, hpeer, hkey⟩, ?_⟩
    · intro handler' hget _
      rw [SocketSet.insert, List.getElem?_concat_length, Option.some.injEq] at hget
      exact ⟨session, hget ▸ hhandler, rfl⟩
    · intro sending hsending hsid
      exact absurd (hgood.sent sending hsending) (hsid ▸ Nat.lt_irrefl _)

/-- The packets that may be in the mailbox. -/
def mailOf (hash : Str → UInt64) (relays : List Relay) : Set Packet :=
  {pkt | ∀ msg, pkt = .message msg → Sourced hash relays msg}

theorem Good.held (hgood : Good P hash t) {inv : Client → Prop} (hclient : inv t.client) :
    Client.Held inv (mailOf hash t.relays) t.client := by
  refine ⟨hclient, ?_⟩
  rintro _ hpkt msg rfl
  exact hgood.mail msg hpkt

/-- All that an action of the client does to the session under a name. -/
theorem Good.touched (hgood : Good P hash t) {env : Env} {action : Client.Action} {client : Client}
    (hbrings : action.brings ⊆ mailOf hash t.relays)
    (hclient : (Client.system P).step t.client (env, action) client) (name : Str) :
    Client.Held (fun c => ReflTransGen
        (E2ESession.Touches P (Client.payloadsOf (mailOf hash t.relays) name))
        (t.client.mE2ESessions name) (c.mE2ESessions name))
      (mailOf hash t.relays) client :=
  (Client.touched_kept P _ name _).perform (Set.subset_univ _) hbrings (hgood.held .refl) hclient

theorem Good.client (hgood : Good P hash t) {env : Env} {action : Client.Action} {client : Client}
    (hbrings : action.brings ⊆ mailOf hash t.relays)
    (hclient : (Client.system P).step t.client (env, action) client) :
    Good P hash { t with client := client } := by
  have hheld := hgood.touched hbrings hclient .empty
  exact ⟨hgood.reachable, hgood.named, hgood.sent, hgood.messages, hgood.linked,
    fun msg hmsg => hheld.mail _ hmsg msg rfl⟩

/-- What the client receives is what the server has sent it, if it is a message. -/
theorem Good.received (hopens : P.GcmOpensSealed) (hgood : Good P hash t) {account : Account}
    {recv : Recv} {stack : Stack} {handler : NetworkHandler} {item : Option Packet}
    (haccount : t.account = some account)
    (hrecv : ∀ chunk, recv = .chunk chunk → ∃ sending ∈ t.server.sent,
      sending.sid = account.sid ∧ sending.record = some chunk.1)
    (hrun : account.handler.receivePacket P recv stack = (handler, .ok item)) :
    (handler = account.handler ∨ handler = account.handler.close) ∧
      {pkt | item = some pkt} ⊆ mailOf hash t.relays := by
  obtain ⟨key, hlinked⟩ := hgood.linked account haccount
  rcases Server.receivePacket_cases hrun with ⟨rfl, hhandler⟩ | ⟨⟨pkt, rfl⟩, rfl, hconnected⟩
  · exact ⟨hhandler, by rintro _ ⟨⟩⟩
  · refine ⟨Or.inl rfl, ?_⟩
    rintro _ ⟨⟩ msg rfl
    obtain ⟨c, hc, rfl⟩ := hlinked.client hconnected
    cases recv with
    | idle =>
        rw [NetworkHandler.receivePacket, if_pos hc.ready] at hrun
        cases congrArg Prod.snd hrun
    | closed =>
        rw [NetworkHandler.receivePacket, if_pos hc.ready] at hrun
        cases congrArg Prod.snd hrun
    | chunk chunk =>
        obtain ⟨sending, hsending, hsid, hrecord⟩ := hrecv chunk rfl
        have hsealed := hlinked.sealed sending hsending hsid _ hrecord
        have hchunk : chunk.1 = (⟨sending.packet, chunk.1⟩ : Record).bytes := rfl
        obtain ⟨pkt, hreceive, hread⟩ :=
          TappedConnection.receivePacket_sealed hopens hc hsealed hchunk stack
        rw [hrun, Prod.mk.injEq, Except.ok.injEq, Option.some.injEq] at hreceive
        obtain ⟨_, rfl⟩ := hreceive
        exact hgood.messages sending hsending msg hread.message

theorem good_step (hopens : P.GcmOpensSealed) (hgood : Good P hash t) {label : Label}
    (hstep : Step P hash t label t') : Good P hash t' := by
  cases hstep with
  | server hassumed hserver => exact good_server hgood hassumed hserver
  | join hnone hhandler hpeer hkey => exact good_join hgood hhandler hpeer hkey
  | @act env action client haction hclient =>
      refine hgood.client ?_ hclient
      cases action with
      | arrive item => exact absurd rfl (haction item)
      | _ => exact Set.empty_subset _
  | @receive env recv stack account handler item client haccount hrecv hrun hclient =>
      obtain ⟨hhandler, hitem⟩ := hgood.received hopens haccount hrecv hrun
      have hbrings : (Client.Action.arrive item).brings ⊆ mailOf hash t.relays := hitem
      have hclientGood := hgood.client hbrings hclient
      refine ⟨hclientGood.reachable, hclientGood.named, hclientGood.sent, hclientGood.messages,
        ?_, hclientGood.mail⟩
      rintro _ ⟨⟩
      obtain ⟨key, hlinked⟩ := hgood.linked _ haccount
      refine ⟨key, hlinked.lt, hlinked.server, ?_, hlinked.sealed⟩
      rcases hhandler with rfl | rfl
      · exact hlinked.client
      · rintro ⟨⟩

theorem good_of_reachable (hopens : P.GcmOpensSealed) (hreach : Reachable (system P hash) t) :
    Good P hash t := by
  apply hreach.invariant
  · rintro _ rfl
    refine ⟨Reachable.of_init rfl, ?_, ?_, ?_, ?_, ?_⟩
    · rintro _ ⟨⟩
    · rintro _ ⟨⟩
    · rintro _ ⟨⟩
    · rintro _ ⟨⟩
    · rintro _ ⟨⟩
  · exact fun _ _ _ hgood hstep => good_step hopens hgood hstep

/-- The client's own operations on the session under a name. -/
def Label.Names (client : Client) (name : Str) : Label → Prop
  | .act _ (.connectTo uname) => uname = name
  | .act _ (.send _) => client.connected = name
  | .act _ (.setupE2E uname _) => uname = name
  | _ => False

/-- The payloads that came from the connection registered under a name. -/
def relayedFrom (hash : Str → UInt64) (relays : List Relay) (name : Str) : Set Payload :=
  {pl | ∃ relay ∈ relays, relay.From hash name ∧ relay.packet.mPayload = pl}

theorem payloadsOf_subset (relays : List Relay) (name : Str) :
    Client.payloadsOf (mailOf hash relays) name ⊆ relayedFrom hash relays name := by
  rintro _ ⟨msg, hmsg, rfl, rfl⟩
  obtain ⟨relay, hmem, hfrom, hstamped⟩ := hmsg msg rfl
  have hpayload : (relay.packet.setSender msg.mSender).mPayload = msg.mPayload :=
    congrArg MessagePacket.mPayload hstamped
  exact ⟨relay, hmem, hfrom, hpayload⟩

/-- The session under a name changes in the client's own operations on that name, or when
a message comes in that the connection registered under the name has sent; and all that
happens to it are calls of its methods, with payloads from such messages. -/
theorem session_changes (hopens : P.GcmOpensSealed) (hreach : Reachable (system P hash) t)
    {label : Label} (hstep : (system P hash).step t label t') (name : Str) :
    (t'.client.mE2ESessions name = t.client.mE2ESessions name ∨
      label.Names t.client name ∨
      ∃ env relay, label = .act env .receive ∧ relay ∈ t.relays ∧ relay.From hash name ∧
        t.client.mail.poll.1 = some (.message (relay.packet.setSender name))) ∧
    ReflTransGen (E2ESession.Touches P (relayedFrom hash t.relays name))
      (t.client.mE2ESessions name) (t'.client.mE2ESessions name) := by
  have hgood := good_of_reachable hopens hreach
  cases hstep with
  | server hassumed hserver => exact ⟨Or.inl rfl, .refl⟩
  | join hnone hhandler hpeer hkey => exact ⟨Or.inl rfl, .refl⟩
  | receive haccount hrecv hrun hclient =>
      have hsame := Client.session_of_step (Set.notMem_empty name) hclient
      exact ⟨Or.inl hsame, hsame ▸ .refl⟩
  | @act env action client haction hclient =>
      have hbrings : action.brings ⊆ mailOf hash t.relays := by
        cases action with
        | arrive item => exact absurd rfl (haction item)
        | _ => exact Set.empty_subset _
      have hmono : E2ESession.Touches P (Client.payloadsOf (mailOf hash t.relays) name) ≤
          E2ESession.Touches P (relayedFrom hash t.relays name) :=
        fun _ _ htouches => htouches.mono (payloadsOf_subset t.relays name)
      refine ⟨?_, ReflTransGen.mono hmono _ _ (hgood.touched hbrings hclient name).holds⟩
      · by_cases habout : name ∈ action.about t.client
        · right
          cases action with
          | connectTo uname => exact Or.inl habout.symm
          | send msg => exact Or.inl habout.symm
          | setupE2E uname refresh => exact Or.inl habout.symm
          | receive =>
              right
              obtain ⟨msg, hhead, rfl⟩ := habout
              have hmem : Packet.message msg ∈ t.client.mail.packets := by
                rw [(SelectiveReceive.polled_poll t.client.mail).packets_eq, hhead]
                exact List.mem_append_left _ (List.mem_singleton.mpr rfl)
              obtain ⟨relay, hrelay, hfrom, hstamped⟩ := hgood.mail msg hmem
              exact ⟨env, relay, rfl, hrelay, hfrom, by rw [hstamped, hhead]⟩
          | _ => exact habout.elim
        · exact Or.inl (Client.session_of_step habout hclient)

theorem login_step (hgood : Good P hash t) {sid : SID}
    (hopen : t.server.connections.IsOpen sid) (env : ServerEnv) (pkt : FieldReqPacket)
    (hname : pkt.mField ≠ .empty) (hfree : t.server.usernames.contains hash pkt.mField = false) :
    ∃ t', (system P hash).step t (.server (.packet env sid (.fieldReq pkt))) t' ∧
      t'.server.connections = t.server.connections ∧
      t'.server.usernames = t.server.usernames.insert hash sid pkt.mField ∧
      t'.logins = (sid, pkt.mField) :: t.logins ∧ t'.client = t.client ∧
      t'.account = t.account := by
  obtain ⟨record, hrun⟩ : ∃ record, Server.handleLogin P hash env sid pkt t.server = .ok (⟨⟩, _) :=
    Server.handleLogin_run (Server.good_of_reachable hgood.reachable) hopen env pkt
  have hlogin : (Server.login hash sid pkt.mField t.server).2 =
      { t.server with usernames := t.server.usernames.insert hash sid pkt.mField } := by
    rw [Server.login, if_neg (by simp [hfree])]
  have hgrants : Server.grants hash t.server (.packet env sid (.fieldReq pkt)) =
      [(sid, pkt.mField)] := if_neg (by simp [hfree])
  rw [hlogin] at hrun
  have hstep : Server.Step P hash t.server (.packet env sid (.fieldReq pkt)) _ :=
    Server.Step.packet hopen hrun
  exact ⟨_, Step.server hname ⟨hstep, rfl⟩, rfl, rfl, congrArg (· ++ t.logins) hgrants, rfl, rfl⟩

/-- The two connections of `connectedTwice`, the second of them the client's. -/
theorem reachable_joined : Reachable (system .clear fun _ => 0)
    ⟨Server.connectedTwice, [], [], some ⟨1, Server.sampleHandler⟩, .fresh⟩ := by
  have hinit : Reachable (system .clear fun _ => 0) ⟨.fresh, [], [], none, .fresh⟩ :=
    Reachable.of_init rfl
  have hconnect : (system .clear fun _ => 0).step ⟨.fresh, [], [], none, .fresh⟩
      (.server (.connect Server.sampleHandler)) _ :=
    Step.server trivial ⟨Server.Step.connect Server.sampleHandler_established, rfl⟩
  exact (hinit.step hconnect).step (Step.join rfl Server.sampleHandler_established
    Server.sampleHandler_established rfl)

/-- Both have logged in, the first connection as `bob`. -/
theorem reachable_named : ∃ t, Reachable (system .clear fun _ => 0) t ∧
    t.server.connections = Server.connectedTwice.connections ∧
    t.server.usernames.mData = [Client.bob, Server.alice] ∧
    t.server.usernames.getSID (fun _ => 0) Server.alice = some 1 ∧
    Server.registered t.logins 0 = some Client.bob ∧ t.client = .fresh ∧
    t.account = some ⟨1, Server.sampleHandler⟩ := by
  have hgood := good_of_reachable Primitives.clear_gcmOpensSealed reachable_joined
  obtain ⟨u, hstep, hconnections, husernames, hlogins, hclient, haccount⟩ := login_step hgood
    (Server.connectedTwice_isOpen 0 (by decide)) Server.sampleEnv ⟨5, .setUsername, Client.bob⟩
    (show Client.bob ≠ .empty by decide) rfl
  have hu := reachable_joined.step hstep
  have huGood := good_of_reachable Primitives.clear_gcmOpensSealed hu
  have huOpen : u.server.connections.IsOpen 1 :=
    hconnections ▸ Server.connectedTwice_isOpen 1 (by decide)
  obtain ⟨v, hstep', hconnections', husernames', hlogins', hclient', haccount'⟩ := login_step huGood
    huOpen Server.sampleEnv ⟨6, .setUsername, Server.alice⟩ (show Server.alice ≠ .empty by decide)
    (by rw [husernames]; rfl)
  refine ⟨v, hu.step hstep', hconnections'.trans hconnections, ?_, ?_, ?_,
    hclient'.trans hclient, haccount'.trans haccount⟩
  · rw [husernames', husernames]
    rfl
  · rw [husernames', husernames]
    rfl
  · rw [hlogins', hlogins]
    rfl

/-- A message of the first connection goes to the client's. -/
theorem relay_step (hconnections : t.server.connections = Server.connectedTwice.connections)
    (hnames : t.server.usernames.mData = [Client.bob, Server.alice])
    (hfound : t.server.usernames.getSID (fun _ => 0) Server.alice = some 1)
    (hregistered : Server.registered t.logins 0 = some Client.bob) {req : MessagePacket}
    (hreceiver : req.mReceiver = Server.alice)
    (hlength : (Packet.message (req.setSender Client.bob)).bytes.length + 36 ≤ recvBufferSize) :
    ∃ (t' : Deployment) (chunk : Chunk), (system .clear fun _ => 0).step t
        (.server (.packet Server.sampleEnv 0 (.message req))) t' ∧
      t'.relays = t.relays ++ [⟨0, t.server.usernames, req⟩] ∧
      ⟨1, .message (req.setSender Client.bob), some chunk.1⟩ ∈ t'.server.sent ∧
      t'.client = t.client ∧ t'.account = t.account := by
  have hfits : (Packet.message (req.setSender Client.bob)).bytes.length ≤ maxSize :=
    (Nat.le_of_add_right_le hlength).trans (by decide)
  obtain ⟨plaintext, htext⟩ : ∃ plaintext : Str,
      plaintext.1 = (Packet.message (req.setSender Client.bob)).bytes := ⟨⟨_, hfits⟩, rfl⟩
  let bytes := (Primitives.clear.encrypt (Block.zero 32) (Block.zero 12) plaintext).bytes
  have hbytes : bytes.length = plaintext.1.length + 36 := EncryptedData.bytes_length _
  have hchunk : bytes ≠ [] ∧ bytes.length ≤ recvBufferSize := by
    refine ⟨?_, by rw [hbytes, htext]; exact hlength⟩
    rw [ne_eq, ← List.length_eq_zero_iff, hbytes]
    exact Nat.succ_ne_zero _
  have hsend : Server.sampleHandler.sendPacket .clear (Block.zero 12)
      (.message (req.setSender Client.bob)) 0 = .ok (0, some bytes) :=
    Server.sampleHandler_established.sendPacket_eq _ htext (Int.le_refl 0)
  have hget : t.server.connections.data[1]? = some Server.sampleHandler := by
    rw [hconnections]
    rfl
  have hrun : Server.handlePacket .clear (fun _ => 0) Server.sampleEnv 0 (.message req) t.server =
      .ok (⟨⟩, { t.server with sent := t.server.sent ++
        [⟨1, .message (req.setSender Client.bob), some bytes⟩] }) := by
    have hsender : t.server.usernames.mData[0]? = some Client.bob := by
      rw [hnames]
      rfl
    change Server.handleMessage .clear (fun _ => 0) Server.sampleEnv 0 req t.server = _
    rw [Server.handleMessage_eq, hsender, hreceiver, hfound]
    simp only [Server.sendPacket, hget, Server.sampleEnv, hsend]
  have hopen : t.server.connections.IsOpen 0 :=
    hconnections ▸ Server.connectedTwice_isOpen 0 (by decide)
  have hstep : Server.Step .clear (fun _ => 0) t.server
      (.packet Server.sampleEnv 0 (.message req)) _ := Server.Step.packet hopen hrun
  exact ⟨_, ⟨bytes, hchunk⟩, Step.server ⟨_, hregistered⟩ ⟨hstep, rfl⟩, rfl,
    List.mem_append_right _ List.mem_cons_self, rfl, rfl⟩

/-- The client's `recv` returns the record of a message. -/
theorem receive_step (hreach : Reachable (system .clear hash) t) {account : Account}
    (haccount : t.account = some account) (hconnected : account.handler.connected = true)
    {msg : MessagePacket} {chunk : Chunk}
    (hsent : ⟨account.sid, .message msg, some chunk.1⟩ ∈ t.server.sent) (env : Env) :
    ∃ t', (system .clear hash).step t (.receive env (.chunk chunk) fun _ => 0) t' ∧
      t'.client = { t.client with
        mail := { t.client.mail with
          socket := t.client.mail.socket ++ [some (.message msg)] } } := by
  obtain ⟨key, hlinked⟩ :=
    (good_of_reachable Primitives.clear_gcmOpensSealed hreach).linked _ haccount
  obtain ⟨c, hc, rfl⟩ := hlinked.client hconnected
  have hsealed := hlinked.sealed _ hsent rfl chunk.1 rfl
  obtain ⟨pkt, hpoll, hread⟩ := TappedConnection.receivePacket_sealed
    Primitives.clear_gcmOpensSealed hc hsealed rfl fun _ => 0
  have hpkt : pkt = .message msg := hread.whole (show PacketType.message ∈ wholeClasses by decide)
  rw [hpkt] at hpoll
  have harrive : (Client.system .clear).step t.client (env, .arrive (some (.message msg))) _ := rfl
  exact ⟨_, Step.receive haccount (by rintro _ ⟨⟩; exact ⟨_, hsent, rfl, rfl⟩) hpoll harrive, rfl⟩

/-- An INIT of `bob` reaches the client, who takes it up. -/
theorem session_changes_sample : ∃ t t', Reachable (system .clear fun _ => 0) t ∧
    (system .clear fun _ => 0).step t (.act (Client.sampleEnv 0) .receive) t' ∧
    t'.client.mE2ESessions Client.bob ≠ t.client.mE2ESessions Client.bob ∧
    ∃ relay ∈ t.relays, relay.From (fun _ => 0) Client.bob ∧
      t.client.mail.poll.1 = some (.message (relay.packet.setSender Client.bob)) := by
  obtain ⟨pl, crypto, old, ackpl, htype, hdata, hhandle⟩ := Client.init_handled
  obtain ⟨t, ht, hconnections, hnames, hfound, hregistered, hclient, haccount⟩ := reachable_named
  have hlength : (Packet.message ⟨0, Client.bob, Server.alice, pl⟩).bytes.length + 36 ≤
      recvBufferSize := by
    simp only [Packet.bytes, headerBytes, Packet.body, MessagePacket.body, payloadBytes, u8Bytes,
      u64Bytes, List.length_append, Wire.leBytes_length, strBytes_length, hdata]
    decide
  obtain ⟨u, chunk, hrelay, _, huSent, huClient, huAccount⟩ :=
    relay_step hconnections hnames hfound hregistered
      (show (⟨0, .empty, Server.alice, pl⟩ : MessagePacket).mReceiver = _ from rfl) hlength
  have hu := ht.step hrelay
  obtain ⟨v, hreceive, hvClient⟩ :=
    receive_step hu (huAccount.trans haccount) rfl huSent (Client.sampleEnv 0)
  have hv := hu.step hreceive
  rw [huClient, hclient] at hvClient
  have hact := Client.receive_init
    (show (⟨0, Client.bob, Server.alice, pl⟩ : MessagePacket).mSender = _ from rfl) htype hhandle
  obtain ⟨d, hd⟩ : ∃ d : Client, d = { Client.fresh.setSession Client.bob
      (Client.sampleSession crypto old) with
        curSeqNo := 1, sent := [.message ⟨0, .empty, Client.bob, ackpl⟩] } := ⟨_, rfl⟩
  have hstep : (system .clear fun _ => 0).step v (.act (Client.sampleEnv 0) .receive)
      { v with client := d } :=
    Step.act (by rintro _ ⟨⟩) (by rw [hvClient, hd]; exact hact)
  have hsession : d.mE2ESessions Client.bob = some (Client.sampleSession crypto old) := by
    rw [hd]
    exact Client.setSession_self Client.fresh Client.bob _
  have hchanged : d.mE2ESessions Client.bob ≠ v.client.mE2ESessions Client.bob := by
    rw [hsession, hvClient]
    rintro ⟨⟩
  refine ⟨v, _, hv, hstep, hchanged, ?_⟩
  rcases (session_changes Primitives.clear_gcmOpensSealed hv hstep Client.bob).1
    with hsame | hnames | ⟨_, relay, _, hmem, hfrom, hhead⟩
  · exact absurd hsame hchanged
  · exact hnames.elim
  · exact ⟨relay, hmem, hfrom, hhead⟩

end Deployment

end LeakyChat

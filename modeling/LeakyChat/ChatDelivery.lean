/-
What can happen in the system.  While the connections are open, a packet that a
client has handed out can come to the server, and what the server makes of it
to the client it is for; nothing else has to happen for it.
-/
import LeakyChat.ChatAgreement

namespace LeakyChat

open Transition
open Rekey (Side)
open Wire
open Program

namespace ChatNetwork

/-- All of a client but the records it has put on its socket. -/
def core (t : ChatNetwork) (sid : SID) : Option (NetworkHandler × Worker × List Str) :=
  (t.hosts sid).map fun host => (host.handler, host.worker, host.texts)

/-- A packet that fits a vector, and its record the buffer of a `recv`. -/
def Fits (P : Primitives) (pkt : Packet) : Prop :=
  ∃ plaintext : Str, plaintext.1 = pkt.bytes ∧
    ∀ key nonce, (P.encrypt key nonce plaintext).bytes.length ≤ recvBufferSize

/-- What is sealed is as long as the text. -/
def GcmKeepsLength (P : Primitives) : Prop :=
  ∀ key nonce text, (P.gcmSeal key nonce text).1.1.length = text.1.length

/-- The client's connection is open at both ends. -/
structure Open (t : ChatNetwork) (sid : SID) (host : Host) : Prop where
  there : t.hosts sid = some host
  client : host.handler.connected = true
  server : t.server.connections.IsOpen sid

variable {P : Primitives} {hash : Str → UInt64} {t u : ChatNetwork} {sid : SID} {host : Host}

theorem core_setHost (t : ChatNetwork) (sid : SID) (host : Host) :
    (t.setHost sid host).core =
      Function.update t.core sid (some (host.handler, host.worker, host.texts)) := by
  funext other
  by_cases hother : other = sid
  · subst hother
    rw [Function.update_self, core, setHost_self, Option.map_some]
  · rw [Function.update_of_ne hother, core, setHost_of_ne t hother, core]

theorem core_of_some (hhost : t.hosts sid = some host) :
    t.core sid = some (host.handler, host.worker, host.texts) := by
  rw [core, hhost, Option.map_some]

theorem host_of_core {handler : NetworkHandler} {worker : Worker} {texts : List Str}
    (hcore : t.core sid = some (handler, worker, texts)) :
    ∃ posted, t.hosts sid = some ⟨handler, worker, posted, texts⟩ := by
  rw [core, Option.map_eq_some_iff] at hcore
  obtain ⟨⟨handler', worker', posted, texts'⟩, hhost, hsame⟩ := hcore
  cases hsame
  exact ⟨posted, hhost⟩

theorem careful_of_core (hcareful : t.Careful) (hcore : u.core = t.core) : u.Careful := by
  intro sid host hhost
  have hthere := core_of_some hhost
  rw [hcore] at hthere
  obtain ⟨posted, hold⟩ := host_of_core hthere
  have hold' : (⟨host.handler, host.worker, posted, host.texts⟩ : Host).worker = host.worker := rfl
  rw [← hold']
  exact hcareful sid _ hold

theorem fits_of_length (hkeeps : GcmKeepsLength P) {pkt : Packet}
    (hlength : pkt.bytes.length + 36 ≤ recvBufferSize) : Fits P pkt := by
  have hsmall : recvBufferSize ≤ maxSize := by decide
  refine ⟨⟨pkt.bytes, by omega⟩, rfl, fun key nonce => ?_⟩
  rw [EncryptedData.bytes_length]
  have hsealed := hkeeps key nonce ⟨pkt.bytes, by omega⟩
  simp only at hsealed
  rw [Primitives.encrypt, hsealed]
  exact hlength

/-- A message has two names and a payload, and seventy bytes around them. -/
theorem fits_message (hkeeps : GcmKeepsLength P) {msg : MessagePacket}
    (hlength : msg.mSender.1.length + msg.mReceiver.1.length + msg.mPayload.data.1.length + 70 ≤
      recvBufferSize) : Fits P (.message msg) := by
  apply fits_of_length hkeeps
  have hbytes : (Packet.message msg).bytes.length = msg.mSender.1.length +
      msg.mReceiver.1.length + msg.mPayload.data.1.length + 34 := by
    simp only [Packet.bytes, headerBytes, Packet.body, MessagePacket.body, payloadBytes,
      List.length_append, strBytes_length, u8Bytes, u64Bytes, leBytes_length]
    omega
  omega

/-- A record that is under the key of an end is received as its packet. -/
theorem exists_chunk (hopens : P.GcmOpensSealed) {pkt : Packet} (hfits : Fits P pkt)
    (key : Key) (nonce : Nonce) : ∃ chunk : Chunk,
      (∀ {h : NetworkHandler} {c : CryptoSession} {bytesSent : Int}, h.EstablishedWith c →
        c.mKey = key → 0 ≤ bytesSent → h.sendPacket P nonce pkt bytesSent =
          .ok (0, some chunk.1)) ∧
      ∀ {h : NetworkHandler} {c : CryptoSession} (stack : Stack), h.EstablishedWith c →
        c.mKey = key → pkt.mPacketType ∈ wholeClasses →
          h.receivePacket P (.chunk chunk) stack = (h, .ok (some pkt)) := by
  obtain ⟨plaintext, htext, hlength⟩ := hfits
  have hnonempty : (P.encrypt key nonce plaintext).bytes ≠ [] := by
    rw [ne_eq, ← List.length_eq_zero_iff, EncryptedData.bytes_length]
    exact Nat.succ_ne_zero _
  refine ⟨⟨_, hnonempty, hlength key nonce⟩, ?_, ?_⟩
  · rintro h c bytesSent hh rfl hsent
    exact hh.sendPacket_eq nonce htext hsent
  · rintro h c stack hh rfl hclass
    have hpkt := hh.incoming_record hopens nonce htext hclass stack
    rw [NetworkHandler.receivePacket, if_pos hh.ready]
    simp only [hpkt]

/-- Both ends of an open connection are under one key. -/
theorem Open.ends (hgood : Good P hash t) (hopen : Open t sid host) :
    ∃ key handler, t.server.connections.data[sid]? = some handler ∧
      (∃ c, handler.EstablishedWith c ∧ c.mKey = key) ∧
      ∃ c, host.handler.EstablishedWith c ∧ c.mKey = key := by
  obtain ⟨key, hlinked, _⟩ := (hgood.hosts sid host hopen.there).linked
  obtain ⟨handler, hget, hconnected⟩ := hopen.server
  exact ⟨key, handler, hget, hlinked.server handler hget hconnected,
    hlinked.client hopen.client⟩

/-- A packet that the server can have from `sid`, and the reply that it sends to `rcvr` for it,
which is received as `item`. -/
structure Exchange (P : Primitives) (hash : Str → UInt64) (t : ChatNetwork) (sid rcvr : SID) where
  pkt : Packet
  reply : Packet
  item : Packet
  env : ServerEnv
  usernames : IndexedSocketMap Str
  chunk : Chunk
  stack : Stack
  fits : Fits P pkt
  whole : pkt.mPacketType ∈ wholeClasses
  assumed : Deployment.Assumed t.logins (.packet env sid pkt)
  handled : Server.handlePacket P hash env sid pkt t.server = .ok (⟨⟩, { t.server with
    usernames := usernames
    sent := t.server.sent ++ [⟨rcvr, reply, some chunk.1⟩] })
  received : ∀ {h : NetworkHandler} {c : CryptoSession} {key : Key}, h.EstablishedWith c →
    c.mKey = key → TappedConnection.Sealed P key ⟨reply, chunk.1⟩ →
      h.receivePacket P (.chunk chunk) stack = (h, .ok (some item))

namespace Exchange

variable {rcvr : SID}

/-- The packet has been put on the socket. -/
def posting (x : Exchange P hash t sid rcvr) (host : Host) (bytes : List UInt8) : ChatNetwork :=
  t.setHost sid { host with posted := host.posted ++ [⟨x.pkt, bytes⟩] }

/-- The server has handled the packet. -/
def handling (x : Exchange P hash t sid rcvr) (host : Host) (bytes : List UInt8) : ChatNetwork :=
  { x.posting host bytes with
    server := { t.server with
      usernames := x.usernames
      sent := t.server.sent ++ [⟨rcvr, x.reply, some x.chunk.1⟩] }
    logins := Server.grants hash t.server (.packet x.env sid x.pkt) ++ t.logins
    relays := t.relays ++ Deployment.handled t.server (.packet x.env sid x.pkt) }

variable {x : Exchange P hash t sid rcvr} {bytes : List UInt8}

theorem core_posting (x : Exchange P hash t sid rcvr) (hhost : t.hosts sid = some host)
    (bytes : List UInt8) : (x.posting host bytes).core = t.core := by
  rw [posting, core_setHost, ← core_of_some hhost, Function.update_eq_self]

theorem core_handling (x : Exchange P hash t sid rcvr) (hhost : t.hosts sid = some host)
    (bytes : List UInt8) : (x.handling host bytes).core = t.core :=
  x.core_posting hhost bytes

theorem hosts_handling (x : Exchange P hash t sid rcvr) (host : Host) (bytes : List UInt8) :
    (x.handling host bytes).hosts sid =
      some { host with posted := host.posted ++ [⟨x.pkt, bytes⟩] } :=
  setHost_self t sid _

/-- The packet is put on the socket, and the server's handler reads it from there. -/
theorem exists_posted (x : Exchange P hash t sid rcvr) (hopens : P.GcmOpensSealed)
    (hgood : Good P hash t) (hopen : Open t sid host)
    (hpkt : x.pkt ∈ host.worker.client.sent) :
    ∃ bytes, Step P hash t (.post sid (Block.zero 12) x.pkt 0) (x.posting host bytes) ∧
      ∃ (chunk : Chunk) (handler : NetworkHandler), chunk.1 = bytes ∧
        t.server.connections.data[sid]? = some handler ∧
        handler.receivePacket P (.chunk chunk) (fun _ => 0) = (handler, .ok (some x.pkt)) := by
  obtain ⟨key, handler, hget, ⟨c, hc, hkey⟩, ⟨c', hc', hkey'⟩⟩ := hopen.ends hgood
  obtain ⟨chunk, hsend, hreceive⟩ := exists_chunk hopens x.fits key (Block.zero 12)
  refine ⟨chunk.1, Step.post hopen.there hpkt (hsend hc' hkey' (Int.le_refl 0)), ?_⟩
  exact ⟨chunk, handler, rfl, hget, hreceive _ hc hkey x.whole⟩

/-- The server handles the packet. -/
theorem step_handling (hopen : Open t sid host) (hread : ∃ (chunk : Chunk)
      (handler : NetworkHandler), chunk.1 = bytes ∧
        t.server.connections.data[sid]? = some handler ∧
        handler.receivePacket P (.chunk chunk) (fun _ => 0) = (handler, .ok (some x.pkt))) :
    Step P hash (x.posting host bytes) (.server (.packet x.env sid x.pkt))
      (x.handling host bytes) := by
  have hserver : (Server.system P hash).step (t.server, t.logins) (.packet x.env sid x.pkt)
      ({ t.server with
        usernames := x.usernames
        sent := t.server.sent ++ [⟨rcvr, x.reply, some x.chunk.1⟩] },
        Server.grants hash t.server (.packet x.env sid x.pkt) ++ t.logins) :=
    ⟨Server.Step.packet hopen.server x.handled, rfl⟩
  refine Step.server x.assumed ?_ hserver
  rintro _ _ _ host' ⟨⟩ hhost'
  rw [posting, setHost_self, Option.some.injEq] at hhost'
  rw [← hhost']
  obtain ⟨chunk, handler, hchunk, hget, hreceive⟩ := hread
  exact ⟨⟨x.pkt, bytes⟩, List.mem_append_right _ List.mem_cons_self, chunk, handler, _, hchunk,
    hget, hreceive⟩

/-- The client that the reply is for reads it. -/
theorem receive_eq (hgood : Good P hash (x.handling host bytes)) {host' : Host}
    (hopen : Open (x.handling host bytes) rcvr host') :
    host'.handler.receivePacket P (.chunk x.chunk) x.stack =
      (host'.handler, .ok (some x.item)) := by
  have hsent : ⟨rcvr, x.reply, some x.chunk.1⟩ ∈ (x.handling host bytes).server.sent :=
    List.mem_append_right _ List.mem_cons_self
  obtain ⟨key, hlinked, _⟩ := (hgood.hosts rcvr host' hopen.there).linked
  obtain ⟨c, hc, hkey⟩ := hlinked.client hopen.client
  exact x.received hc hkey (hlinked.sealed _ hsent rfl x.chunk.1 rfl)

theorem step_received (hgood : Good P hash (x.handling host bytes)) {host' : Host}
    (hopen : Open (x.handling host bytes) rcvr host') :
    Step P hash (x.handling host bytes) (.receive rcvr (.chunk x.chunk) x.stack)
      ((x.handling host bytes).setHost rcvr { host' with
        worker := { host'.worker with client := host'.worker.client.arrive [some x.item] } }) := by
  refine Step.receive hopen.there ?_ (receive_eq hgood hopen) (Worker.Step.arrive _)
  rintro _ ⟨⟩
  exact ⟨_, List.mem_append_right _ List.mem_cons_self, rfl, rfl⟩

/-- A connection that is open stays so, and its client is as it was, its socket apart. -/
theorem open_handling (x : Exchange P hash t sid rcvr) (hopen : Open t sid host) {host' : Host}
    (hopen' : Open t rcvr host') (bytes : List UInt8) :
    ∃ posted, Open (x.handling host bytes) rcvr { host' with posted := posted } := by
  have hthere := core_of_some hopen'.there
  rw [← x.core_handling hopen.there bytes] at hthere
  obtain ⟨posted, hhost'⟩ := host_of_core hthere
  exact ⟨posted, hhost', hopen'.client, hopen'.server⟩

end Exchange

/-- A run through careful states that has come to `u`, where the connections are as they
were and `sid` has what is said. -/
structure Leads (P : Primitives) (hash : Str → UInt64) (t : ChatNetwork)
    (usernames : IndexedSocketMap Str) (logins : Server.Logins) (sid : SID)
    (kept : NetworkHandler × Worker × List Str) (u : ChatNetwork) : Prop where
  run : ∃ labels, Run (careful P hash) t labels u
  connections : u.server.connections = t.server.connections
  usernames : u.server.usernames = usernames
  logins : u.logins = logins
  core : u.core = Function.update t.core sid (some kept)

/-- The packet comes to the server, and the reply to the client that it is for. -/
theorem Exchange.leads {rcvr : SID} (x : Exchange P hash t sid rcvr) (hopens : P.GcmOpensSealed)
    (hgood : Good P hash t) (hcareful : t.Careful) (hopen : Open t sid host) {host' : Host}
    (hopen' : Open t rcvr host') (hpkt : x.pkt ∈ host.worker.client.sent) :
    ∃ u, Leads P hash t x.usernames
      (Server.grants hash t.server (.packet x.env sid x.pkt) ++ t.logins) rcvr
      (host'.handler, { host'.worker with client := host'.worker.client.arrive [some x.item] },
        host'.texts) u := by
  obtain ⟨bytes, hpost, hread⟩ := x.exists_posted hopens hgood hopen hpkt
  have hposting := good_step hopens hgood hcareful hpost
  have hcareful' := careful_of_core hcareful (x.core_posting hopen.there bytes)
  have hhandle := step_handling (x := x) hopen hread
  have hhandling := good_step hopens hposting hcareful' hhandle
  have hcareful'' := careful_of_core hcareful (x.core_handling hopen.there bytes)
  obtain ⟨posted, hlastOpen⟩ := x.open_handling hopen hopen' bytes
  have hlast := step_received hhandling hlastOpen
  refine ⟨_, ⟨_, Run.cons ⟨hpost, hcareful⟩ (Run.cons ⟨hhandle, hcareful'⟩
    (Run.cons ⟨hlast, hcareful''⟩ (Run.nil _)))⟩, rfl, rfl, rfl, ?_⟩
  rw [core_setHost, x.core_handling hopen.there bytes]

/-- A message for the connection its receiver's name leads to, stamped with the name of the
one it comes from. -/
theorem exists_messageExchange (hopens : P.GcmOpensSealed) (hgood : Good P hash t) {rcvr : SID}
    {host' : Host} (hopen' : Open t rcvr host') {req : MessagePacket} {name : Str}
    (hname : Server.registered t.logins sid = some name)
    (hfound : t.server.usernames.getSID hash req.mReceiver = some rcvr)
    (hfits : Fits P (.message req)) (hfits' : Fits P (.message (req.setSender name))) :
    ∃ x : Exchange P hash t sid rcvr, x.pkt = .message req ∧
      x.item = .message (req.setSender name) ∧ x.usernames = t.server.usernames := by
  have hclass : PacketType.message ∈ wholeClasses := by decide
  have hsender := (Server.good_of_reachable hgood.reachable).stored sid name hname
  obtain ⟨key, handler, hget, ⟨c, hc, hkey⟩, _⟩ := hopen'.ends hgood
  obtain ⟨chunk, hsend, hreceive⟩ := exists_chunk hopens hfits' key (Block.zero 12)
  have hrun : Server.handlePacket P hash ⟨Block.zero 12, 0, 0⟩ sid (.message req) t.server =
      .ok (⟨⟩, { t.server with
        usernames := t.server.usernames
        sent := t.server.sent ++ [⟨rcvr, .message (req.setSender name), some chunk.1⟩] }) := by
    change Server.handleMessage P hash ⟨Block.zero 12, 0, 0⟩ sid req t.server = _
    rw [Server.handleMessage_eq, hsender, hfound]
    simp only [Server.sendPacket, hget, hsend hc hkey (Int.le_refl 0)]
  refine ⟨⟨.message req, .message (req.setSender name), .message (req.setSender name),
    ⟨Block.zero 12, 0, 0⟩, t.server.usernames, chunk, fun _ => 0, hfits, hclass, ⟨name, hname⟩,
    hrun, ?_⟩, rfl, rfl, rfl⟩
  rintro h d _ hh rfl hsealed
  obtain ⟨pkt, hpkt, hread⟩ :=
    TappedConnection.receivePacket_sealed hopens hh hsealed rfl fun _ => 0
  rw [hpkt, hread.whole hclass]

/-- A message that a client has handed out comes to the client its receiver's name leads
to, stamped with the name of the first. -/
theorem exists_message (hopens : P.GcmOpensSealed) (hgood : Good P hash t)
    (hcareful : t.Careful) {rcvr : SID} {host' : Host} (hopen : Open t sid host)
    (hopen' : Open t rcvr host') {req : MessagePacket} {name : Str}
    (hreq : .message req ∈ host.worker.client.sent)
    (hname : Server.registered t.logins sid = some name)
    (hfound : t.server.usernames.getSID hash req.mReceiver = some rcvr)
    (hfits : Fits P (.message req)) (hfits' : Fits P (.message (req.setSender name))) :
    ∃ u, Leads P hash t t.server.usernames t.logins rcvr
      (host'.handler, { host'.worker with
        client := host'.worker.client.arrive [some (.message (req.setSender name))] },
        host'.texts) u := by
  obtain ⟨x, hpkt, hitem, husernames⟩ :=
    exists_messageExchange hopens hgood hopen' hname hfound hfits hfits'
  have hleads := x.leads hopens hgood hcareful hopen hopen' (hpkt ▸ hreq)
  rwa [hitem, husernames, hpkt] at hleads

/-- Uninitialised memory that is blank stays so. -/
def Blank (r : Reader) : Prop := r.stack = fun _ => 0

theorem blank_readOver {n : Nat} (old : Block n) : Keeps Blank (readOver old) :=
  fun _ _ _ hr hrun => (readOver_stack hrun).trans hr

theorem blank_readNat (width : Nat) : Keeps Blank (readNat width) := by
  intro r n r' hr hrun
  exact (readNat_stack hrun).trans (funext fun i => congrFun hr (width + i))

theorem blank_readTimes (n : Nat) : Keeps Blank (readTimes readByte n) := by
  induction n with
  | zero => exact Keeps.pure _
  | succ n ih =>
      refine Keeps.bind ?_ fun byte => ih.bind fun rest => Keeps.pure _
      exact (blank_readOver _).bind fun _ => Keeps.pure _

theorem blank_checkSize (n bound : Nat) : Keeps Blank (checkSize n bound) := by
  intro r fits r' hr hrun
  by_cases hn : n ≤ bound
  · rw [checkSize, dif_pos hn] at hrun
    cases hrun
    exact hr
  · rw [checkSize, dif_neg hn] at hrun
    cases hrun

theorem blank_readByteVector : Keeps Blank readByteVector := by
  refine Keeps.bind ((blank_readNat 8).bind fun _ => Keeps.pure _) fun size => ?_
  exact (blank_checkSize _ _).bind fun _ => (blank_readTimes _).bind fun _ => Keeps.pure _

theorem blank_ofRecord : Keeps Blank EncryptedData.ofRecord :=
  (blank_readOver _).bind fun _ => blank_readByteVector.bind fun _ =>
    (blank_readOver _).bind fun _ => Keeps.pure _

/-- A reply that is read over blank memory. -/
theorem receive_control (hopens : P.GcmOpensSealed) {h : NetworkHandler} {c : CryptoSession}
    (hh : h.EstablishedWith c) {reply : ControlPacket} {chunk : Chunk}
    (hsealed : TappedConnection.Sealed P c.mKey ⟨.control reply, chunk.1⟩) :
    h.receivePacket P (.chunk chunk) (fun _ => 0) = (h, .ok (some (.control
      ⟨reply.seq, reply.mControl, numberRead reply.mReplyTo fun _ => 0⟩))) := by
  obtain ⟨nonce, plaintext, htext, hbytes⟩ := hsealed
  have hrecord : chunk.1 = (P.encrypt c.mKey nonce plaintext).bytes := hbytes
  have hplaintext : plaintext.1 = (Packet.control reply).bytes := htext
  obtain ⟨r, hrun, _⟩ := EncryptedData.ofRecord_decodes (P.encrypt c.mKey nonce plaintext)
    ⟨(MemBuffer.ofCapacity chunk.1.length).writeBytes chunk.1, fun _ => 0⟩ []
    (by simp [Reader.view, hrecord])
  have hblank : r.stack = fun _ => 0 :=
    blank_ofRecord ⟨(MemBuffer.ofCapacity chunk.1.length).writeBytes chunk.1, fun _ => 0⟩ _ r
      rfl hrun
  have hdecrypt : c.decrypt P (P.encrypt c.mKey nonce plaintext) = .ok plaintext := by
    rw [CryptoSession.decrypt, if_pos hh.established]
    exact P.decrypt_encrypt hopens c.mKey nonce plaintext
  have hview : Reader.view ⟨(MemBuffer.ofCapacity plaintext.1.length).writeBytes plaintext.1,
      r.stack⟩ = (Packet.control reply).bytes ++ [] := by
    simp [Reader.view, hplaintext]
  obtain ⟨r', hfactory, _⟩ := getPacketFactory_control reply hview
  have hincoming : h.incoming P chunk.1 (fun _ => 0) = .ok (.control
      ⟨reply.seq, reply.mControl, numberRead reply.mReplyTo r.stack⟩) := by
    simp only [NetworkHandler.incoming, hrun, hh.crypto, hdecrypt, hfactory]
  rw [NetworkHandler.receivePacket, if_pos hh.ready]
  simp only [hincoming, hblank]

/-- A login under a name that is free. -/
theorem exists_loginExchange (hopens : P.GcmOpensSealed) (hgood : Good P hash t)
    (hopen : Open t sid host) {req : FieldReqPacket} (hnonempty : req.mField ≠ .empty)
    (hfree : t.server.usernames.contains hash req.mField = false) (hfits : Fits P (.fieldReq req))
    (hfits' : Fits P (.control ⟨0, .ack, req.seq⟩)) :
    ∃ x : Exchange P hash t sid sid, x.pkt = .fieldReq req ∧
      x.item = .control ⟨0, .ack, numberRead req.seq fun _ => 0⟩ ∧
      x.usernames = t.server.usernames.insert hash sid req.mField ∧
      Server.grants hash t.server (.packet x.env sid x.pkt) = [(sid, req.mField)] := by
  have hclass : PacketType.fieldReq ∈ wholeClasses := by decide
  obtain ⟨key, handler, hget, ⟨c, hc, hkey⟩, _⟩ := hopen.ends hgood
  obtain ⟨chunk, hsend, _⟩ := exists_chunk hopens hfits' key (Block.zero 12)
  have hlogin : Server.login hash sid req.mField t.server = (.ack,
      { t.server with usernames := t.server.usernames.insert hash sid req.mField }) := by
    rw [Server.login, if_neg (by simp [hfree])]
  have hrun : Server.handlePacket P hash ⟨Block.zero 12, 0, 0⟩ sid (.fieldReq req) t.server =
      .ok (⟨⟩, { t.server with
        usernames := t.server.usernames.insert hash sid req.mField
        sent := t.server.sent ++ [⟨sid, .control ⟨0, .ack, req.seq⟩, some chunk.1⟩] }) := by
    change Server.handleLogin P hash ⟨Block.zero 12, 0, 0⟩ sid req t.server = _
    rw [Server.handleLogin_eq, hlogin]
    simp only [Server.sendPacket, hget, hsend hc hkey (Int.le_refl 0)]
  refine ⟨⟨.fieldReq req, .control ⟨0, .ack, req.seq⟩,
    .control ⟨0, .ack, numberRead req.seq fun _ => 0⟩, ⟨Block.zero 12, 0, 0⟩,
    t.server.usernames.insert hash sid req.mField, chunk, fun _ => 0, hfits, hclass, hnonempty,
    hrun, ?_⟩, rfl, rfl, rfl, if_neg (by simp [hfree])⟩
  rintro h d _ hh rfl hsealed
  exact receive_control hopens hh hsealed

/-- A login the client asks for under a free name is granted, and the reply comes to it. -/
theorem exists_login (hopens : P.GcmOpensSealed) (hgood : Good P hash t)
    (hcareful : t.Careful) (hopen : Open t sid host) {req : FieldReqPacket}
    (hreq : .fieldReq req ∈ host.worker.client.sent) (hnonempty : req.mField ≠ .empty)
    (hfree : t.server.usernames.contains hash req.mField = false) (hfits : Fits P (.fieldReq req))
    (hfits' : Fits P (.control ⟨0, .ack, req.seq⟩)) :
    ∃ u, Leads P hash t (t.server.usernames.insert hash sid req.mField)
      ((sid, req.mField) :: t.logins) sid
      (host.handler, { host.worker with
        client := host.worker.client.arrive [some (.control
          ⟨0, .ack, numberRead req.seq fun _ => 0⟩)] }, host.texts) u := by
  obtain ⟨x, hpkt, hitem, husernames, hgrants⟩ :=
    exists_loginExchange hopens hgood hopen hnonempty hfree hfits hfits'
  have hleads := x.leads hopens hgood hcareful hopen hopen (hpkt ▸ hreq)
  rwa [hgrants, hitem, husernames] at hleads

end ChatNetwork

namespace Worker

variable {P : Primitives} {w w' : Worker}

/-- A state that careful runs go through. -/
def Tidy (w : Worker) : Prop := w.client.Bounded ∧ w.Fits

/-- A client between two arrivals. -/
def ownSteps (P : Primitives) : System Worker Label :=
  (system P).restrict fun w label => w.Tidy ∧ ∀ item, label ≠ .arrive item

/-- Only one of the waits looks for something special. -/
theorem fits_of_ne (hne : ∀ peer next, w.task ≠ some (.wait (.answer peer) next)) : w.Fits := by
  intro goal next pkt rest htask _ _
  cases goal with
  | answer peer => exact absurd htask (hne peer next)
  | _ => trivial

end Worker

namespace ChatNetwork

section

variable {P : Primitives} {hash : Str → UInt64} {t u : ChatNetwork} {sid : SID} {host : Host}
  {usernames : IndexedSocketMap Str} {logins : Server.Logins}
  {kept : NetworkHandler × Worker × List Str}

theorem careful_good (hopens : P.GcmOpensSealed) (hgood : Good P hash t)
    {labels : List Label} (hrun : Run (careful P hash) t labels u) : Good P hash u :=
  hrun.preserves (fun _ _ _ hs hstep => good_step hopens hs hstep.2 hstep.1) hgood

theorem careful_core (hcareful : t.Careful)
    (hcore : u.core = Function.update t.core sid (some kept)) (hkept : kept.2.1.Tidy) :
    u.Careful := by
  intro other host' hhost'
  have hthere := core_of_some hhost'
  rw [hcore] at hthere
  by_cases hsid : other = sid
  · rw [hsid, Function.update_self, Option.some.injEq] at hthere
    rw [hthere] at hkept
    exact hkept
  · rw [Function.update_of_ne hsid] at hthere
    obtain ⟨posted, hold⟩ := host_of_core hthere
    have htidy := hcareful other _ hold
    exact htidy

/-- The client at the end of such a run. -/
theorem Leads.exists_host {handler : NetworkHandler} {worker : Worker} {texts : List Str}
    (hleads : Leads P hash t usernames logins sid (handler, worker, texts) u) :
    ∃ posted, u.hosts sid = some ⟨handler, worker, posted, texts⟩ := by
  apply host_of_core
  rw [hleads.core, Function.update_self]

theorem Leads.trans (hleads : Leads P hash t usernames logins sid kept u)
    {usernames' : IndexedSocketMap Str} {logins' : Server.Logins}
    {kept' : NetworkHandler × Worker × List Str} {v : ChatNetwork}
    (hleads' : Leads P hash u usernames' logins' sid kept' v) :
    Leads P hash t usernames' logins' sid kept' v := by
  obtain ⟨first, hfirst⟩ := hleads.run
  obtain ⟨last, hlast⟩ := hleads'.run
  refine ⟨⟨first ++ last, hfirst.append hlast⟩, hleads'.connections.trans hleads.connections,
    hleads'.usernames, hleads'.logins, ?_⟩
  rw [hleads'.core, hleads.core, Function.update_idem]

/-- One client goes on by itself. -/
theorem exists_works (hopens : P.GcmOpensSealed) (hgood : Good P hash t)
    (hothers : ∀ other host', other ≠ sid → t.hosts other = some host' → host'.worker.Tidy)
    (hhost : t.hosts sid = some host) {labels : List Worker.Label} {worker : Worker}
    (hrun : Run (Worker.ownSteps P) host.worker labels worker) :
    ∃ u texts, Leads P hash t t.server.usernames t.logins sid (host.handler, worker, texts) u := by
  obtain ⟨first, hfirst⟩ : ∃ first, first = host.worker := ⟨_, rfl⟩
  rw [← hfirst] at hrun
  induction hrun generalizing host t with
  | nil =>
      refine ⟨t, host.texts, ⟨[], Run.nil t⟩, rfl, rfl, rfl, ?_⟩
      rw [hfirst, ← core_of_some hhost, Function.update_eq_self]
  | @cons w₀ w₁ w₂ label labels head tail ih =>
      subst hfirst
      obtain ⟨hstep, htidy, hown⟩ := head
      have hcareful : t.Careful := by
        intro other host' hhost'
        by_cases hother : other = sid
        · rw [hother, hhost, Option.some.injEq] at hhost'
          rw [← hhost']
          exact htidy
        · exact hothers other host' hother hhost'
      have hnet : Step P hash t (.own sid label) _ := Step.own hhost hown hstep
      obtain ⟨u, texts, hleads⟩ := ih (good_step hopens hgood hcareful hnet)
        (fun other host' hother hhost' => hothers other host' hother (by
          rwa [setHost_of_ne t hother] at hhost')) (setHost_self t sid _) rfl
      have honce : Leads P hash t t.server.usernames t.logins sid _ _ :=
        ⟨⟨_, Run.cons ⟨hnet, hcareful⟩ (Run.nil _)⟩, rfl, rfl, rfl, core_setHost _ _ _⟩
      exact ⟨u, texts, honce.trans hleads⟩

end

/-- A careful run of `base` has come to `t`, and nothing but the clients of the two ends
has changed, which are at `w` now. -/
structure Scene (P : Primitives) (hash : Str → UInt64) (base : ChatNetwork) (ends : Side → SID)
    (handler : Side → NetworkHandler) (w : Side → Worker) (t : ChatNetwork) : Prop where
  run : ∃ labels, Run (careful P hash) base labels t
  good : Good P hash t
  connections : t.server.connections = base.server.connections
  usernames : t.server.usernames = base.server.usernames
  logins : t.logins = base.logins
  both : ∀ side, ∃ texts, t.core (ends side) = some (handler side, w side, texts)
  others : ∀ sid, (∀ side, sid ≠ ends side) → t.core sid = base.core sid

variable {P : Primitives} {hash : Str → UInt64} {base t : ChatNetwork} {ends : Side → SID}
  {handler : Side → NetworkHandler} {w : Side → Worker} {side : Side} {worker : Worker}

theorem Scene.careful (hscene : Scene P hash base ends handler w t) (hbase : base.Careful)
    (htidy : ∀ side, (w side).Tidy) : t.Careful := by
  intro sid host hhost
  have hthere := core_of_some hhost
  by_cases hsid : ∃ side, sid = ends side
  · obtain ⟨side, rfl⟩ := hsid
    obtain ⟨texts, hcore⟩ := hscene.both side
    rw [hthere, Option.some.injEq, Prod.mk.injEq, Prod.mk.injEq] at hcore
    rw [hcore.2.1]
    exact htidy side
  · rw [hscene.others sid fun side hside => hsid ⟨side, hside⟩] at hthere
    obtain ⟨posted, hold⟩ := host_of_core hthere
    have hsame : (⟨host.handler, host.worker, posted, host.texts⟩ : Host).worker = host.worker :=
      rfl
    rw [← hsame]
    exact hbase sid _ hold

/-- The scene after one more step that changes one client only. -/
theorem Scene.update (hscene : Scene P hash base ends handler w t)
    (hends : ∀ side, ends side.other ≠ ends side) {u : ChatNetwork} {texts : List Str}
    (hrun : ∃ labels, Run (ChatNetwork.careful P hash) t labels u) (hgood : Good P hash u)
    (hconnections : u.server.connections = t.server.connections)
    (husernames : u.server.usernames = t.server.usernames) (hlogins : u.logins = t.logins)
    (hcore : u.core = Function.update t.core (ends side) (some (handler side, worker, texts))) :
    ∃ w', Scene P hash base ends handler w' u ∧ w' side = worker ∧
      w' side.other = w side.other := by
  obtain ⟨first, hfirst⟩ := hscene.run
  obtain ⟨last, hlast⟩ := hrun
  refine ⟨Function.update w side worker, ⟨⟨first ++ last, hfirst.append hlast⟩, hgood,
    hconnections.trans hscene.connections, husernames.trans hscene.usernames,
    hlogins.trans hscene.logins, fun x => ?_, fun sid hsid => ?_⟩,
    Function.update_self _ _ _, Function.update_of_ne side.other_ne _ _⟩
  · by_cases hx : x = side
    · subst hx
      rw [hcore, Function.update_self, Function.update_self]
      exact ⟨texts, rfl⟩
    · have hne : ends x ≠ ends side := by
        rw [Rekey.Side.eq_other_of_ne hx]
        exact hends side
      rw [hcore, Function.update_of_ne hne, Function.update_of_ne hx]
      exact hscene.both x
  · rw [hcore, Function.update_of_ne (hsid side)]
    exact hscene.others sid hsid

/-- One client goes on by itself. -/
theorem Scene.works (side : Side) (hopens : P.GcmOpensSealed) (hbase : base.Careful)
    (hends : ∀ side, ends side.other ≠ ends side)
    (hscene : Scene P hash base ends handler w t) (hother : (w side.other).Tidy)
    {labels : List Worker.Label} (hrun : Run (Worker.ownSteps P) (w side) labels worker) :
    ∃ u w', Scene P hash base ends handler w' u ∧ w' side = worker ∧
      w' side.other = w side.other := by
  obtain ⟨texts, hcore⟩ := hscene.both side
  obtain ⟨posted, hhost⟩ := host_of_core hcore
  have hothers : ∀ other host', other ≠ ends side → t.hosts other = some host' →
      host'.worker.Tidy := by
    intro other host' hne hhost'
    have hthere := core_of_some hhost'
    by_cases hsid : other = ends side.other
    · obtain ⟨texts', hcore'⟩ := hscene.both side.other
      rw [← hsid, hthere, Option.some.injEq, Prod.mk.injEq, Prod.mk.injEq] at hcore'
      rw [hcore'.2.1]
      exact hother
    · have hapart : ∀ x, other ≠ ends x := by
        intro x
        by_cases hx : x = side
        · rwa [hx]
        · rwa [Rekey.Side.eq_other_of_ne hx]
      rw [hscene.others other hapart] at hthere
      obtain ⟨posted', hold⟩ := host_of_core hthere
      have htidy := hbase other _ hold
      exact htidy
  obtain ⟨u, texts', hleads⟩ := exists_works hopens hscene.good hothers hhost hrun
  obtain ⟨w', hscene', hself, hrest⟩ := hscene.update hends hleads.run
    (careful_good hopens hscene.good hleads.run.choose_spec) hleads.connections hleads.usernames
    hleads.logins hleads.core
  exact ⟨u, w', hscene', hself, hrest⟩

/-- Both are connected and logged in under a name that leads to them. -/
structure LoggedIn (hash : Str → UInt64) (base : ChatNetwork) (ends : Side → SID)
    (handler : Side → NetworkHandler) (name : Side → Str) : Prop where
  ends_ne : ∀ side : Side, ends side.other ≠ ends side
  client : ∀ side, (handler side).connected = true
  server : ∀ side, base.server.connections.IsOpen (ends side)
  named : ∀ side, Server.registered base.logins (ends side) = some (name side)
  found : ∀ side, base.server.usernames.getSID hash (name side) = some (ends side)

/-- A message of one client comes to the other. -/
theorem Scene.message (side : Side) (hopens : P.GcmOpensSealed) (hbase : base.Careful)
    {name : Side → Str}
    (hin : LoggedIn hash base ends handler name) (hscene : Scene P hash base ends handler w t)
    (htidy : ∀ side, (w side).Tidy) {seq : SequenceNo} {pl : Payload}
    (hreq : .message ⟨seq, .empty, name side.other, pl⟩ ∈ (w side).client.sent)
    (hfits : Fits P (.message ⟨seq, .empty, name side.other, pl⟩))
    (hfits' : Fits P (.message ⟨seq, name side, name side.other, pl⟩)) :
    ∃ u w', Scene P hash base ends handler w' u ∧ w' side = w side ∧
      w' side.other = { w side.other with
        client := (w side.other).client.arrive
          [some (.message ⟨seq, name side, name side.other, pl⟩)] } := by
  obtain ⟨hends, hclient, hserver, hnamed, hfound⟩ := hin
  have hcareful := hscene.careful hbase htidy
  have hopen : ∀ x, ∃ host, Open t (ends x) host ∧ host.handler = handler x ∧
      host.worker = w x := by
    intro x
    obtain ⟨texts, hcore⟩ := hscene.both x
    obtain ⟨posted, hhost⟩ := host_of_core hcore
    refine ⟨_, ⟨hhost, hclient x, ?_⟩, rfl, rfl⟩
    rw [hscene.connections]
    exact hserver x
  obtain ⟨host, hhost, hhandler, hworker⟩ := hopen side
  obtain ⟨host', hhost', hhandler', hworker'⟩ := hopen side.other
  rw [← hworker] at hreq
  rw [← hscene.logins] at hnamed
  rw [← hscene.usernames] at hfound
  obtain ⟨u, ⟨labels, hrun⟩, hconnections, husernames, hlogins, hcore⟩ :=
    exists_message hopens hscene.good hcareful hhost hhost' hreq (hnamed side)
      (hfound side.other) hfits hfits'
  rw [hhandler', hworker'] at hcore
  obtain ⟨w', hscene', hself, hrest⟩ := hscene.update hends ⟨labels, hrun⟩
    (careful_good hopens hscene.good hrun) hconnections husernames hlogins hcore
  rw [Rekey.Side.other_other] at hrest
  exact ⟨u, w', hscene', hrest, hself⟩

end ChatNetwork

end LeakyChat

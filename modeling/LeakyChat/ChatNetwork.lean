/-
The whole system: a server, any number of clients that take their operations in
turns, and connections that may send anything.  What is in a client's mailbox
under a name, the client that is logged in under the name has sent it.
-/
import LeakyChat.ClientPair
import LeakyChat.PeerIsolation

namespace LeakyChat

open Transition
open Deployment (Assumed handled sealed_of_hands)

/-- A client behind the server: its end of the connection, the client with the operation
that is going on, the records it has put on its socket, and what its user has asked to
send. -/
structure Host where
  handler : NetworkHandler
  worker : Worker
  posted : List Record
  texts : List Str

/-- `hosts` has the connections that are a client's; the others may be anyone's. -/
structure ChatNetwork where
  server : Server
  logins : Server.Logins
  relays : List Relay
  hosts : SID → Option Host

namespace ChatNetwork

inductive Label where
  | server (label : Server.Label)
  | join (handler peer : NetworkHandler)
  | own (sid : SID) (label : Worker.Label)
  | post (sid : SID) (nonce : Nonce) (pkt : Packet) (bytesSent : Int)
  | receive (sid : SID) (recv : Recv) (stack : Stack)

def setHost (t : ChatNetwork) (sid : SID) (host : Host) : ChatNetwork :=
  { t with hosts := Function.update t.hosts sid (some host) }

variable (P : Primitives) (hash : Str → UInt64)

/-- The server's handler has read the packet from a record of the host. -/
def ReadFrom (t : ChatNetwork) (sid : SID) (host : Host) (pkt : Packet) : Prop :=
  ∃ record ∈ host.posted, ∃ (chunk : Chunk) (handler : NetworkHandler) (stack : Stack),
    chunk.1 = record.bytes ∧ t.server.connections.data[sid]? = some handler ∧
      handler.receivePacket P (.chunk chunk) stack = (handler, .ok (some pkt))

/-- Records may be delayed, reordered, repeated and lost on their way. -/
inductive Step : ChatNetwork → Label → ChatNetwork → Prop
  | server {t : ChatNetwork} {label : Server.Label} {server : Server} {logins : Server.Logins}
      (hassumed : Assumed t.logins label)
      (hread : ∀ env sid pkt host, label = .packet env sid pkt → t.hosts sid = some host →
        ReadFrom P t sid host pkt)
      (hserver : (Server.system P hash).step (t.server, t.logins) label (server, logins)) :
      Step t (.server label)
        { t with server := server, logins := logins, relays := t.relays ++ handled t.server label }
  | join {t : ChatNetwork} {handler peer : NetworkHandler} {session peerSession : CryptoSession}
      (hhandler : handler.EstablishedWith session) (hpeer : peer.EstablishedWith peerSession)
      (hkey : peerSession.mKey = session.mKey) :
      Step t (.join handler peer)
        ({ t with server := { t.server with
            connections := t.server.connections.insert handler } }.setHost
          t.server.connections.data.length ⟨peer, ⟨.fresh, none⟩, [], []⟩)
  | own {t : ChatNetwork} {sid : SID} {host : Host} {label : Worker.Label} {worker : Worker}
      (hhost : t.hosts sid = some host) (hown : ∀ item, label ≠ .arrive item)
      (hworker : Worker.Step P host.worker label worker) :
      Step t (.own sid label)
        (t.setHost sid { host with worker := worker, texts := host.texts ++ label.wording })
  | post {t : ChatNetwork} {sid : SID} {host : Host} {nonce : Nonce} {pkt : Packet}
      {bytesSent result : Int} {bytes : List UInt8} (hhost : t.hosts sid = some host)
      (hpkt : pkt ∈ host.worker.client.sent)
      (hsend : host.handler.sendPacket P nonce pkt bytesSent = .ok (result, some bytes)) :
      Step t (.post sid nonce pkt bytesSent)
        (t.setHost sid { host with posted := host.posted ++ [⟨pkt, bytes⟩] })
  | receive {t : ChatNetwork} {sid : SID} {host : Host} {recv : Recv} {stack : Stack}
      {handler : NetworkHandler} {item : Option Packet} {worker : Worker}
      (hhost : t.hosts sid = some host)
      (hrecv : ∀ chunk, recv = .chunk chunk → ∃ sending ∈ t.server.sent,
        sending.sid = sid ∧ sending.record = some chunk.1)
      (hrun : host.handler.receivePacket P recv stack = (handler, .ok item))
      (hworker : Worker.Step P host.worker (.arrive item) worker) :
      Step t (.receive sid recv stack)
        (t.setHost sid { host with handler := handler, worker := worker })

def system : System ChatNetwork Label where
  init t := t = ⟨.fresh, [], [], fun _ => none⟩
  step := Step P hash

/-- No session is at the last number, and nothing but an ACK ends the second wait of
`setupE2E`, which does not look. -/
def Careful (t : ChatNetwork) : Prop :=
  ∀ sid host, t.hosts sid = some host → host.worker.client.Bounded ∧ host.worker.Fits

/-- The runs through careful states. -/
def careful : System ChatNetwork Label := (system P hash).restrict fun t _ => t.Careful

/-- The message is for this connection, and stamped with the name of the one it came from. -/
def Delivered (relays : List Relay) (sid : SID) (msg : MessagePacket) : Prop :=
  ∃ relay ∈ relays, relay.From hash msg.mSender ∧
    relay.usernames.getSID hash relay.packet.mReceiver = some sid ∧
    relay.packet.setSender msg.mSender = msg

/-- The packets that may be in the mailbox of a client. -/
def mailOf (relays : List Relay) (sid : SID) : Set Packet :=
  {pkt | ∀ msg, pkt = .message msg → Delivered hash relays sid msg}

/-- A client and its connection. -/
structure HostGood (t : ChatNetwork) (sid : SID) (host : Host) : Prop where
  linked : ∃ key, Deployment.Linked P t.server ⟨sid, host.handler⟩ key ∧
    ∀ record ∈ host.posted, TappedConnection.Sealed P key record
  posted : ∀ record ∈ host.posted, record.packet ∈ host.worker.client.sent
  worker : host.worker.Sound P {text | text ∈ host.texts} (mailOf hash t.relays sid)

/-- A message came from a connection that is there, and if it is a client's, the client
has sent it; the names it was routed by are those of logins. -/
structure RelayGood (t : ChatNetwork) (relay : Relay) : Prop where
  lt : relay.origin < t.server.connections.data.length
  sent : ∀ host, t.hosts relay.origin = some host →
    .message relay.packet ∈ host.worker.client.sent
  named : ∀ name sid, relay.usernames.getSID hash name = some sid → (sid, name) ∈ t.logins

structure Good (t : ChatNetwork) : Prop where
  reachable : Reachable (Server.system P hash) (t.server, t.logins)
  named : ∀ login ∈ t.logins, login.2 ≠ .empty
  sent : ∀ sending ∈ t.server.sent, sending.sid < t.server.connections.data.length
  messages : ∀ sending ∈ t.server.sent, ∀ msg, sending.packet = .message msg →
    Delivered hash t.relays sending.sid msg
  relays : ∀ relay ∈ t.relays, RelayGood hash t relay
  hosts : ∀ sid host, t.hosts sid = some host → HostGood P hash t sid host

variable {P hash} {t t' : ChatNetwork} {sid : SID} {host : Host}

theorem mailOf_mono (relays more : List Relay) (sid : SID) :
    mailOf hash relays sid ⊆ mailOf hash (relays ++ more) sid := by
  intro pkt hpkt msg hmsg
  obtain ⟨relay, hmem, hrelay⟩ := hpkt msg hmsg
  exact ⟨relay, List.mem_append_left _ hmem, hrelay⟩

@[simp]
theorem setHost_self (t : ChatNetwork) (sid : SID) (host : Host) :
    (t.setHost sid host).hosts sid = some host := Function.update_self _ _ _

theorem setHost_of_ne (t : ChatNetwork) {other : SID} (hother : other ≠ sid) (host : Host) :
    (t.setHost sid host).hosts other = t.hosts other := Function.update_of_ne hother _ _

theorem setHost_hosts {other : SID} {host' : Host}
    (hother : (t.setHost sid host).hosts other = some host') :
    other = sid ∧ host' = host ∨ other ≠ sid ∧ t.hosts other = some host' := by
  by_cases hsid : other = sid
  · subst hsid
    rw [setHost_self, Option.some.injEq] at hother
    exact Or.inl ⟨rfl, hother.symm⟩
  · rw [setHost_of_ne t hsid] at hother
    exact Or.inr ⟨hsid, hother⟩

end ChatNetwork

namespace Server

variable {P : Primitives} {hash : Str → UInt64} {s t : Server} {logins : Logins}

/-- A message goes to the connection its receiver's name leads to. -/
theorem handleMessage_sent {env : ServerEnv} {sid : SID} {req : MessagePacket}
    (hrun : handleMessage P hash env sid req s = .ok (⟨⟩, t)) {sending : Sending}
    (hsending : sending ∈ t.sent) :
    sending ∈ s.sent ∨ s.usernames.getSID hash req.mReceiver = some sending.sid := by
  rw [handleMessage_eq] at hrun
  split at hrun
  · cases hrun
  · split at hrun
    · cases hrun
      exact Or.inl hsending
    · rename_i rcvr hrcvr
      obtain ⟨_, _, record, _, _, rfl⟩ := sendPacket_ok hrun
      rcases List.mem_append.mp hsending with hold | hnew
      · exact Or.inl hold
      · rw [List.mem_singleton.mp hnew]
        exact Or.inr hrcvr

/-- No login is granted under the empty name. -/
theorem named_of_grants {label : Label} (hassumed : Assumed logins label) {login : SID × Str}
    (hlogin : login ∈ grants hash s label) : login.2 ≠ .empty := by
  unfold grants at hlogin
  split at hlogin
  · split at hlogin
    · cases hlogin
    · rw [List.mem_singleton.mp hlogin]
      exact hassumed
  · cases hlogin

/-- The names of the index are those of logins. -/
theorem mem_logins_of_getSID (hreach : Reachable (system P hash) (s, logins)) {name : Str}
    {sid : SID} (hfound : s.usernames.getSID hash name = some sid) : (sid, name) ∈ logins :=
  mem_of_registered ((good_of_reachable hreach).registered_getSID hfound)

end Server

namespace ChatNetwork

variable {P : Primitives} {hash : Str → UInt64} {t t' : ChatNetwork} {sid : SID} {host : Host}

/-- What is read from a record of a client is the packet that it was made from. -/
theorem HostGood.readAs_of_read (hopens : P.GcmOpensSealed) (hhost : HostGood P hash t sid host)
    (hopen : t.server.connections.IsOpen sid) {record : Record} (hrecord : record ∈ host.posted)
    {chunk : Chunk} (hchunk : chunk.1 = record.bytes) {handler : NetworkHandler}
    (hget : t.server.connections.data[sid]? = some handler) {stack : Stack} {pkt : Packet}
    (hreceive : handler.receivePacket P (.chunk chunk) stack = (handler, .ok (some pkt))) :
    record.packet.ReadAs pkt := by
  obtain ⟨key, hlinked, hposted⟩ := hhost.linked
  obtain ⟨handler', hget', hconnected⟩ := hopen
  rw [hget, Option.some.injEq] at hget'
  subst hget'
  obtain ⟨c, hc, rfl⟩ := hlinked.server handler hget hconnected
  obtain ⟨pkt', hreceive', hread⟩ :=
    TappedConnection.receivePacket_sealed hopens hc (hposted record hrecord) hchunk stack
  rw [hreceive, Prod.mk.injEq, Except.ok.injEq, Option.some.injEq] at hreceive'
  obtain ⟨_, rfl⟩ := hreceive'
  exact hread

/-- A packet that has come from a client's connection has been sent by the client, if it is
a message. -/
theorem sent_of_readFrom (hopens : P.GcmOpensSealed) (hhost : HostGood P hash t sid host)
    {msg : MessagePacket} (hopen : t.server.connections.IsOpen sid)
    (hread : ReadFrom P t sid host (.message msg)) :
    .message msg ∈ host.worker.client.sent := by
  obtain ⟨record, hrecord, chunk, handler, stack, hchunk, hget, hreceive⟩ := hread
  rw [← (hhost.readAs_of_read hopens hopen hrecord hchunk hget hreceive).message]
  exact hhost.posted record hrecord

theorem HostGood.server (hhost : HostGood P hash t sid host) {label : Server.Label}
    {server : Server} {logins : Server.Logins} {more : List Relay}
    (hstep : Server.Step P hash t.server label server) :
    HostGood P hash { t with server := server, logins := logins, relays := t.relays ++ more }
      sid host := by
  obtain ⟨key, hlinked, hposted⟩ := hhost.linked
  exact ⟨⟨key, hlinked.step hstep, hposted⟩, hhost.posted,
    hhost.worker.mono Set.Subset.rfl (mailOf_mono t.relays more sid)⟩

theorem RelayGood.server {relay : Relay} (hrelay : RelayGood hash t relay) {server : Server}
    {logins : Server.Logins} {relays : List Relay}
    (hlength : t.server.connections.data.length ≤ server.connections.data.length)
    (hlogins : t.logins ⊆ logins) :
    RelayGood hash { t with server := server, logins := logins, relays := relays } relay where
  lt := hrelay.lt.trans_le hlength
  sent := hrelay.sent
  named name sid hfound := hlogins (hrelay.named name sid hfound)

/-- The message a step of the server handles. -/
theorem good_handled (hopens : P.GcmOpensSealed) (hgood : Good P hash t) {label : Server.Label}
    {server : Server} (hstep : Server.Step P hash t.server label server)
    (hread : ∀ env sid pkt host, label = .packet env sid pkt → t.hosts sid = some host →
      ReadFrom P t sid host pkt) {relay : Relay} (hrelay : relay ∈ handled t.server label) :
    RelayGood hash t relay := by
  cases hstep with
  | @packet _ env sid pkt hopen hrun =>
      cases pkt with
      | message msg =>
          cases List.mem_singleton.mp hrelay
          refine ⟨hopen.lt, fun host hhost => ?_, fun name sid' hfound => ?_⟩
          · exact sent_of_readFrom hopens (hgood.hosts sid host hhost) hopen
              (hread env sid _ host rfl hhost)
          · exact Server.mem_logins_of_getSID hgood.reachable hfound
      | _ => cases hrelay
  | _ => cases hrelay

/-- A message that the server sends on. -/
theorem delivered_of_sent (hgood : Good P hash t) {label : Server.Label} {server : Server}
    (hassumed : Assumed t.logins label) (hstep : Server.Step P hash t.server label server)
    {sending : Sending} (hsending : sending ∈ server.sent) {msg : MessagePacket}
    (hmsg : sending.packet = .message msg) :
    Delivered hash (t.relays ++ handled t.server label) sending.sid msg := by
  have hserverGood := Server.good_of_reachable hgood.reachable
  have hold : sending ∈ t.server.sent →
      Delivered hash (t.relays ++ handled t.server label) sending.sid msg := fun hbefore =>
    mailOf_mono t.relays _ _ (fun msg hmsg => hgood.messages sending hbefore msg hmsg) msg hmsg
  rcases Server.sending_of_step hstep hsending with hbefore | ⟨_, hmessage⟩
  · exact hold hbefore
  · obtain ⟨env, sid, req, rfl, hname, hstamped⟩ := hmessage msg hmsg
    cases hstep with
    | packet hopen hrun =>
        rcases Server.handleMessage_sent hrun hsending with hbefore | hreceiver
        · exact hold hbefore
        · -- the sender's own name is not empty, so the index finds the sender under it
          obtain ⟨name, hregistered⟩ := hassumed
          have hsame := hname.symm.trans (hserverGood.stored sid name hregistered)
          rw [Option.some.injEq] at hsame
          have hnonempty := hgood.named _ (Server.mem_of_registered hregistered)
          rw [← hsame] at hnonempty
          exact ⟨⟨sid, t.server.usernames, req⟩, List.mem_append_right _ List.mem_cons_self,
            (hserverGood.indexed.getSID_iff hnonempty).mpr hname, hreceiver, hstamped.symm⟩

theorem good_server (hopens : P.GcmOpensSealed) (hgood : Good P hash t) {label : Server.Label}
    {server : Server} {logins : Server.Logins} (hassumed : Assumed t.logins label)
    (hread : ∀ env sid pkt host, label = .packet env sid pkt → t.hosts sid = some host →
      ReadFrom P t sid host pkt)
    (hserver : (Server.system P hash).step (t.server, t.logins) label (server, logins)) :
    Good P hash { t with
      server := server, logins := logins, relays := t.relays ++ handled t.server label } := by
  obtain ⟨hstep, hlogins⟩ : Server.Step P hash t.server label server ∧
      logins = Server.grants hash t.server label ++ t.logins := hserver
  have hle := Server.length_le_of_step hstep
  constructor
  · exact hgood.reachable.step ⟨hstep, hlogins⟩
  · intro login hlogin
    rw [hlogins, List.mem_append] at hlogin
    exact hlogin.elim (Server.named_of_grants hassumed) (hgood.named login)
  · intro sending hsending
    rcases Server.sending_of_step hstep hsending with hold | ⟨⟨_, _, _, hget, _⟩, _⟩
    · exact (hgood.sent sending hold).trans_le hle
    · exact (List.getElem?_eq_some_iff.mp hget).1.trans_le hle
  · exact fun sending hsending msg hmsg => delivered_of_sent hgood hassumed hstep hsending hmsg
  · intro relay hrelay
    have hsubset : t.logins ⊆ logins := hlogins ▸ List.subset_append_right _ _
    rcases List.mem_append.mp hrelay with hold | hnew
    · exact (hgood.relays relay hold).server hle hsubset
    · exact (good_handled hopens hgood hstep hread hnew).server hle hsubset
  · exact fun sid host hhost => (hgood.hosts sid host hhost).server hstep

theorem HostGood.of_server (hhost : HostGood P hash t sid host)
    (hserver : ∀ key, Deployment.Linked P t.server ⟨sid, host.handler⟩ key →
      Deployment.Linked P t'.server ⟨sid, host.handler⟩ key)
    (hrelays : t'.relays = t.relays) : HostGood P hash t' sid host := by
  obtain ⟨key, hlinked, hposted⟩ := hhost.linked
  refine ⟨⟨key, hserver key hlinked, hposted⟩, hhost.posted, ?_⟩
  rw [hrelays]
  exact hhost.worker

/-- A host joins, under a key that both ends have. -/
theorem good_join (hgood : Good P hash t) {handler peer : NetworkHandler}
    {session peerSession : CryptoSession} (hhandler : handler.EstablishedWith session)
    (hpeer : peer.EstablishedWith peerSession) (hkey : peerSession.mKey = session.mKey) :
    Good P hash ({ t with server := { t.server with
        connections := t.server.connections.insert handler } }.setHost
      t.server.connections.data.length ⟨peer, ⟨.fresh, none⟩, [], []⟩) := by
  have hlength : (t.server.connections.insert handler).data.length =
      t.server.connections.data.length + 1 := by
    simp [SocketSet.insert]
  have hconnect : Server.Step P hash t.server (.connect handler)
      { t.server with connections := t.server.connections.insert handler } :=
    Server.Step.connect hhandler
  have hlt : ∀ {sid : SID}, sid < t.server.connections.data.length →
      sid < (t.server.connections.insert handler).data.length :=
    fun hsid => hlength ▸ Nat.lt_succ_of_lt hsid
  have hreach : (Server.system P hash).step (t.server, t.logins) (.connect handler)
      ({ t.server with connections := t.server.connections.insert handler }, t.logins) :=
    ⟨hconnect, rfl⟩
  refine ⟨hgood.reachable.step hreach, hgood.named, fun sending hsending =>
    hlt (hgood.sent sending hsending), hgood.messages, ?_, ?_⟩
  · intro relay hrelay
    obtain ⟨horigin, hsent, hnamed⟩ := hgood.relays relay hrelay
    refine ⟨hlt horigin, fun host hhost => ?_, hnamed⟩
    rcases setHost_hosts hhost with ⟨hsame, _⟩ | ⟨_, hold⟩
    · exact absurd horigin (hsame ▸ Nat.lt_irrefl _)
    · exact hsent host hold
  · intro sid host hhost
    rcases setHost_hosts hhost with ⟨rfl, rfl⟩ | ⟨_, hold⟩
    · refine ⟨⟨session.mKey, ⟨hlength ▸ Nat.lt_succ_self _, ?_, fun _ => ⟨peerSession, hpeer, hkey⟩,
        ?_⟩, by rintro _ ⟨⟩⟩, by rintro _ ⟨⟩, Worker.sound_fresh⟩
      · intro handler' hget _
        have hnew : (t.server.connections.data ++ [handler])[t.server.connections.data.length]? =
            some handler' := hget
        rw [List.getElem?_concat_length, Option.some.injEq] at hnew
        exact ⟨session, hnew ▸ hhandler, rfl⟩
      · intro sending hsending hsid
        exact absurd (hgood.sent sending hsending) (hsid ▸ Nat.lt_irrefl _)
    · exact (hgood.hosts sid host hold).of_server (fun _ hlinked => hlinked.step hconnect) rfl

/-- A host changes, and has sent no less. -/
theorem Good.setHost (hgood : Good P hash t) {host' : Host} (hhost : t.hosts sid = some host)
    (hgrow : host.worker.client.sent ⊆ host'.worker.client.sent)
    (hhost' : HostGood P hash t sid host') : Good P hash (t.setHost sid host') := by
  refine ⟨hgood.reachable, hgood.named, hgood.sent, hgood.messages, ?_, ?_⟩
  · intro relay hrelay
    obtain ⟨horigin, hsent, hnamed⟩ := hgood.relays relay hrelay
    refine ⟨horigin, fun other hother => ?_, hnamed⟩
    rcases setHost_hosts hother with ⟨hsame, rfl⟩ | ⟨_, hold⟩
    · exact hgrow (hsent host (hsame ▸ hhost))
    · exact hsent other hold
  · intro other host'' hother
    rcases setHost_hosts hother with ⟨rfl, rfl⟩ | ⟨_, hold⟩
    · exact hhost'.of_server (fun _ => id) rfl
    · exact (hgood.hosts other host'' hold).of_server (fun _ => id) rfl

/-- What a step of a host's own does to its client, and that nothing gets in by it. -/
theorem HostGood.own (hhost : HostGood P hash t sid host) (hbound : host.worker.client.Bounded)
    (hfits : host.worker.Fits) {label : Worker.Label} (hown : ∀ item, label ≠ .arrive item)
    {worker : Worker} (hworker : Worker.Step P host.worker label worker) :
    Client.Moves P {text | text ∈ host.texts ++ label.wording} (mailOf hash t.relays sid)
        host.worker.client worker.client ∧
      HostGood P hash t sid
        { host with worker := worker, texts := host.texts ++ label.wording } := by
  have hold : {text | text ∈ host.texts} ⊆ {text | text ∈ host.texts ++ label.wording} :=
    fun text htext => List.mem_append_left _ htext
  obtain ⟨hmoves, hsound⟩ := Worker.moves_step (hhost.worker.mono hold Set.Subset.rfl) hbound hfits
    hown (fun text htext => List.mem_append_right _ htext) hworker
  exact ⟨hmoves, hhost.linked,
    fun record hrecord => hmoves.sent_subset (hhost.posted record hrecord), hsound⟩

/-- A record is under the key of the connection. -/
theorem HostGood.post (hhost : HostGood P hash t sid host) {nonce : Nonce} {pkt : Packet}
    {bytesSent result : Int} {bytes : List UInt8} (hpkt : pkt ∈ host.worker.client.sent)
    (hsend : host.handler.sendPacket P nonce pkt bytesSent = .ok (result, some bytes)) :
    HostGood P hash t sid { host with posted := host.posted ++ [⟨pkt, bytes⟩] } := by
  obtain ⟨key, hlinked, hposted⟩ := hhost.linked
  have hready : host.handler.ready = true := by
    by_contra hclosed
    rw [NetworkHandler.sendPacket, if_neg hclosed] at hsend
    cases hsend
  obtain ⟨c, hc, hkey⟩ := hlinked.client (of_decide_eq_true hready).1
  obtain ⟨plaintext, htext, hbytes⟩ := hc.sendPacket_ok hsend
  rw [hkey] at hbytes
  refine ⟨⟨key, hlinked, fun record hrecord => ?_⟩, fun record hrecord => ?_, hhost.worker⟩
  · rcases List.mem_append.mp hrecord with hold | hnew
    · exact hposted record hold
    · rw [List.mem_singleton.mp hnew]
      exact ⟨nonce, plaintext, htext, hbytes⟩
  · rcases List.mem_append.mp hrecord with hold | hnew
    · exact hhost.posted record hold
    · rw [List.mem_singleton.mp hnew]
      exact hpkt

/-- What the server has sent a host comes out of the record again. -/
theorem HostGood.receive_sending (hopens : P.GcmOpensSealed) (hhost : HostGood P hash t sid host)
    (hconnected : host.handler.connected = true) {sending : Sending}
    (hsending : sending ∈ t.server.sent) (hsid : sending.sid = sid) {chunk : Chunk}
    (hrecord : sending.record = some chunk.1) (stack : Stack) :
    ∃ pkt, host.handler.receivePacket P (.chunk chunk) stack = (host.handler, .ok (some pkt)) ∧
      sending.packet.ReadAs pkt := by
  obtain ⟨key, hlinked, -⟩ := hhost.linked
  obtain ⟨c, hc, rfl⟩ := hlinked.client hconnected
  have hchunk : chunk.1 = (⟨sending.packet, chunk.1⟩ : Record).bytes := rfl
  exact TappedConnection.receivePacket_sealed hopens hc
    (hlinked.sealed sending hsending hsid _ hrecord) hchunk stack

/-- A packet is received from bytes that have come in, and is what the server has made them
from. -/
theorem HostGood.readAs_of_receive (hopens : P.GcmOpensSealed) (hhost : HostGood P hash t sid host)
    {recv : Recv} {stack : Stack} {handler : NetworkHandler} {pkt : Packet}
    (hrun : host.handler.receivePacket P recv stack = (handler, .ok (some pkt))) :
    ∃ chunk, recv = .chunk chunk ∧ ∀ sending ∈ t.server.sent, sending.sid = sid →
      sending.record = some chunk.1 → sending.packet.ReadAs pkt := by
  rcases Server.receivePacket_cases hrun with ⟨⟨⟩, -⟩ | ⟨-, -, hconnected⟩
  cases recv with
  | idle =>
      rw [NetworkHandler.receivePacket] at hrun
      split at hrun <;> cases congrArg Prod.snd hrun
  | closed =>
      rw [NetworkHandler.receivePacket] at hrun
      split at hrun <;> cases congrArg Prod.snd hrun
  | chunk chunk =>
      refine ⟨chunk, rfl, fun sending hsending hsid hrecord => ?_⟩
      obtain ⟨pkt', hreceive, hread⟩ :=
        hhost.receive_sending hopens hconnected hsending hsid hrecord stack
      rw [hrun, Prod.mk.injEq, Except.ok.injEq, Option.some.injEq] at hreceive
      obtain ⟨_, rfl⟩ := hreceive
      exact hread

/-- What a host receives is what the server has sent it, if it is a message. -/
theorem HostGood.receive (hopens : P.GcmOpensSealed) (hgood : Good P hash t)
    (hhost : HostGood P hash t sid host) {recv : Recv} {stack : Stack} {handler : NetworkHandler}
    {item : Option Packet}
    (hrecv : ∀ chunk, recv = .chunk chunk → ∃ sending ∈ t.server.sent,
      sending.sid = sid ∧ sending.record = some chunk.1)
    (hrun : host.handler.receivePacket P recv stack = (handler, .ok item)) :
    HostGood P hash t sid { host with
      handler := handler
      worker := { host.worker with client := host.worker.client.arrive [item] } } := by
  obtain ⟨key, hlinked, hposted⟩ := hhost.linked
  have hitem : ∀ pkt, item = some pkt → pkt ∈ mailOf hash t.relays sid := by
    rintro _ rfl msg rfl
    obtain ⟨chunk, hchunk, hread⟩ := hhost.readAs_of_receive hopens hrun
    obtain ⟨sending, hsending, rfl, hrecord⟩ := hrecv chunk hchunk
    exact hgood.messages sending hsending msg (hread sending hsending rfl hrecord).message
  refine ⟨⟨key, ⟨hlinked.lt, hlinked.server, ?_, hlinked.sealed⟩, hposted⟩, hhost.posted,
    hhost.worker.arrive hitem⟩
  rcases Server.receivePacket_cases hrun with ⟨-, rfl | rfl⟩ | ⟨-, rfl, -⟩
  · exact hlinked.client
  · rintro ⟨⟩
  · exact hlinked.client

theorem good_step (hopens : P.GcmOpensSealed) (hgood : Good P hash t) (hcareful : t.Careful)
    {label : Label} (hstep : Step P hash t label t') : Good P hash t' := by
  cases hstep with
  | server hassumed hread hserver => exact good_server hopens hgood hassumed hread hserver
  | join hhandler hpeer hkey => exact good_join hgood hhandler hpeer hkey
  | @own sid host label worker hhost hown hworker =>
      obtain ⟨hbound, hfits⟩ := hcareful sid host hhost
      obtain ⟨hmoves, hhost'⟩ := (hgood.hosts sid host hhost).own hbound hfits hown hworker
      exact hgood.setHost hhost hmoves.sent_subset hhost'
  | post hhost hpkt hsend =>
      exact hgood.setHost hhost (List.Subset.refl _) ((hgood.hosts _ _ hhost).post hpkt hsend)
  | receive hhost hrecv hrun hworker =>
      cases hworker
      exact hgood.setHost hhost (List.Subset.refl _)
        ((hgood.hosts _ _ hhost).receive hopens hgood hrecv hrun)

theorem good_of_reachable (hopens : P.GcmOpensSealed) (hreach : Reachable (careful P hash) t) :
    Good P hash t := by
  apply hreach.invariant
  · rintro _ rfl
    refine ⟨Reachable.of_init rfl, ?_, ?_, ?_, ?_, ?_⟩
    · rintro _ ⟨⟩
    · rintro _ ⟨⟩
    · rintro _ ⟨⟩
    · rintro _ ⟨⟩
    · rintro _ _ ⟨⟩
  · exact fun _ _ _ hgood hstep => good_step hopens hgood hstep.2 hstep.1

end ChatNetwork

end LeakyChat

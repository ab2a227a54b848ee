/-
The order of messages across the whole system.  Where each connection carries its
records in order and none of them twice, as TCP does, the messages that a client
gets from another are in the order in which the other has handed them out, and
none comes twice.
-/
import LeakyChat.ChatSessions
import LeakyChat.Library.Channel

namespace LeakyChat

open Channel (TakenFrom)
open Transition
open Deployment (Assumed handled)
open Rekey (Side)

/-- The system with its places in the streams: how many records of a client the server has
passed, and how many of the server's sendings a client has.  `arrived` is what has come into a
client's mailbox. -/
structure ChatOrder where
  net : ChatNetwork
  read : SID → Nat
  received : SID → Nat
  arrived : SID → List Packet

namespace ChatOrder

open ChatNetwork (Good)

/-- The record, and its place in the stream that it is taken from. -/
inductive Label where
  | server (label : Server.Label) (place : Nat)
  | join (handler peer : NetworkHandler)
  | own (sid : SID) (label : Worker.Label)
  | post (sid : SID) (nonce : Nonce) (pkt : Packet) (bytesSent : Int)
  | receive (sid : SID) (recv : Recv) (stack : Stack) (place : Nat) (item : Option Packet)

def Label.net : Label → ChatNetwork.Label
  | .server label _ => .server label
  | .join handler peer => .join handler peer
  | .own sid label => .own sid label
  | .post sid nonce pkt bytesSent => .post sid nonce pkt bytesSent
  | .receive sid recv stack _ _ => .receive sid recv stack

variable (P : Primitives) (hash : Str → UInt64)

/-- The server's handler has read the packet from this record of the host. -/
def ReadAt (t : ChatOrder) (sid : SID) (host : Host) (place : Nat) (pkt : Packet) : Prop :=
  ∃ record, host.posted[place]? = some record ∧
    ∃ (chunk : Chunk) (handler : NetworkHandler) (stack : Stack),
      chunk.1 = record.bytes ∧ t.net.server.connections.data[sid]? = some handler ∧
        handler.receivePacket P (.chunk chunk) stack = (handler, .ok (some pkt))

/-- A record is read behind those that have been read before, a client puts its packets on the
socket as it hands them out, and takes what the server has sent in order. -/
def InOrder (t : ChatOrder) : Label → Prop
  | .server (.packet _ sid pkt) place => t.read sid ≤ place ∧
      ∀ host, t.net.hosts sid = some host → ReadAt P t sid host place pkt
  | .post sid _ pkt _ => ∀ host, t.net.hosts sid = some host →
      host.worker.client.sent[host.posted.length]? = some pkt
  | .receive sid recv stack place item =>
      (∀ host, t.net.hosts sid = some host →
        (host.handler.receivePacket P recv stack).2 = .ok item) ∧
      ∀ chunk, recv = .chunk chunk → t.received sid ≤ place ∧ ∃ sending,
        t.net.server.sent[place]? = some sending ∧ sending.sid = sid ∧
          sending.record = some chunk.1
  | _ => True

/-- The places after a step. -/
def advance (t : ChatOrder) (net : ChatNetwork) : Label → ChatOrder
  | .server (.packet _ sid _) place =>
      { t with net := net, read := Function.update t.read sid (place + 1) }
  | .receive sid recv _ place item =>
      { t with
        net := net
        received := match recv with
          | .chunk _ => Function.update t.received sid (place + 1)
          | _ => t.received
        arrived := Function.update t.arrived sid (t.arrived sid ++ item.toList) }
  | _ => { t with net := net }

@[simp]
theorem advance_net (t : ChatOrder) (net : ChatNetwork) (label : Label) :
    (t.advance net label).net = net := by
  cases label with
  | server label place => cases label <;> rfl
  | _ => rfl

/-- The careful runs of the system in which the streams are in order. -/
def system : System ChatOrder Label where
  init t := t = ⟨⟨.fresh, [], [], fun _ => none⟩, fun _ => 0, fun _ => 0, fun _ => []⟩
  step t label t' := ∃ net, (ChatNetwork.careful P hash).step t.net label.net net ∧
    InOrder P t label ∧ t' = t.advance net label

/-- A packet that is a message. -/
def messageOf : Packet → Option MessagePacket
  | .message msg => some msg
  | _ => none

/-- What the server sends on, and to which connection. -/
def sentOn (sending : Sending) : Option (SID × MessagePacket) :=
  (messageOf sending.packet).map fun msg => (sending.sid, msg)

/-- What the server makes of a message. -/
def stamped (relay : Relay) : Option (SID × MessagePacket) :=
  (relay.usernames.mData[relay.origin]?).bind fun name =>
    (relay.usernames.getSID hash relay.packet.mReceiver).map fun sid =>
      (sid, relay.packet.setSender name)

/-- A message of the server for this connection. -/
def sentTo (sid : SID) (sending : Sending) : Option MessagePacket :=
  if sending.sid = sid then messageOf sending.packet else none

/-- Each hop takes from the one before it in order. -/
structure Ordered (t : ChatOrder) : Prop where
  good : Good P hash t.net
  posted : ∀ sid host, t.net.hosts sid = some host →
    host.posted.map (·.packet) <+: host.worker.client.sent
  relayed : ∀ sid host, t.net.hosts sid = some host →
    TakenFrom (fun record : Record => messageOf record.packet) host.posted (t.read sid)
      ((t.net.relays.filter fun relay => relay.origin = sid).map (·.packet))
  named : ∀ relay ∈ t.net.relays, ∀ name, relay.usernames.mData[relay.origin]? = some name →
    relay.From hash name
  sent : t.net.server.sent.filterMap sentOn = t.net.relays.filterMap (stamped hash)
  arrived : ∀ sid, TakenFrom (sentTo sid) t.net.server.sent (t.received sid)
    ((t.arrived sid).filterMap messageOf)

variable {P hash} {t : ChatOrder} {net : ChatNetwork}

theorem messageOf_readAs {written read : Packet} (hread : written.ReadAs read) :
    messageOf read = messageOf written := by
  cases read with
  | message msg => rw [hread.message]
  | _ =>
      cases written with
      | message msg => cases hread.whole (show PacketType.message ∈ wholeClasses by decide)
      | _ => rfl

theorem stamped_eq_some {relay : Relay} {sid : SID} {msg : MessagePacket}
    (hstamped : stamped hash relay = some (sid, msg)) :
    relay.usernames.mData[relay.origin]? = some msg.mSender ∧
      relay.usernames.getSID hash relay.packet.mReceiver = some sid ∧
      relay.packet.setSender msg.mSender = msg := by
  obtain ⟨name, hname, hrest⟩ := Option.bind_eq_some_iff.mp hstamped
  obtain ⟨sid', hsid, heq⟩ := Option.map_eq_some_iff.mp hrest
  rw [Prod.mk.injEq] at heq
  obtain ⟨rfl, rfl⟩ := heq
  exact ⟨hname, hsid, rfl⟩

theorem sent_handleMessage {s u : Server} {env : ServerEnv} {sid : SID} {req : MessagePacket}
    (hrun : Server.handleMessage P hash env sid req s = .ok (⟨⟩, u)) :
    ∃ more, u.sent = s.sent ++ more ∧
      more.filterMap sentOn = [⟨sid, s.usernames, req⟩].filterMap (stamped hash) := by
  rw [Server.handleMessage_eq] at hrun
  split at hrun
  · cases hrun
  · rename_i sender hsender
    split at hrun
    · rename_i hnone
      cases hrun
      refine ⟨[], (List.append_nil _).symm, ?_⟩
      have hstamped : stamped hash ⟨sid, s.usernames, req⟩ = none := by
        rw [stamped, hsender, Option.bind_some, hnone, Option.map_none]
      rw [List.filterMap_cons_none hstamped]
      rfl
    · rename_i rcvr hrcvr
      obtain ⟨handler, result, record, -, -, rfl⟩ := Server.sendPacket_ok hrun
      have hstamped : stamped hash ⟨sid, s.usernames, req⟩ = some (rcvr, req.setSender sender) := by
        rw [stamped, hsender, Option.bind_some, hrcvr, Option.map_some]
      refine ⟨[⟨rcvr, .message (req.setSender sender), record⟩], rfl, ?_⟩
      rw [List.filterMap_cons_some hstamped]
      rfl

/-- At most one message goes out, and it is the one that came in, stamped. -/
theorem sent_step {s u : Server} {label : Server.Label}
    (hstep : Server.Step P hash s label u) :
    ∃ more, u.sent = s.sent ++ more ∧
      more.filterMap sentOn = (handled s label).filterMap (stamped hash) := by
  cases hstep with
  | @packet _ env sid pkt hopen hrun =>
      by_cases hmessage : ∃ req, pkt = .message req
      · obtain ⟨req, rfl⟩ := hmessage
        exact sent_handleMessage hrun
      · have hnothing : handled s (.packet env sid pkt) = [] := by
          cases pkt with
          | message req => exact absurd ⟨req, rfl⟩ hmessage
          | _ => rfl
        rw [hnothing]
        rcases Server.handlePacket_sent hrun with hsame | ⟨sending, hsent, -, hreply⟩
        · exact ⟨[], hsame.trans (List.append_nil _).symm, rfl⟩
        · refine ⟨[sending], hsent, ?_⟩
          have hnone : sentOn sending = none := by
            cases hpacket : sending.packet with
            | message msg =>
                obtain ⟨req, hreq, -⟩ := hreply msg hpacket
                exact absurd ⟨req, hreq⟩ hmessage
            | _ => rw [sentOn, hpacket]; rfl
          rw [List.filterMap_cons_none hnone]
          rfl
  | _ => exact ⟨[], (List.append_nil _).symm, rfl⟩

/-- The server knows by its name the connection that it has a message from. -/
theorem from_of_handled {t : ChatNetwork} (hgood : Good P hash t) {label : Server.Label}
    (hassumed : Assumed t.logins label) {relay : Relay} (hrelay : relay ∈ handled t.server label)
    {name : Str} (hname : relay.usernames.mData[relay.origin]? = some name) :
    relay.From hash name := by
  cases label with
  | packet env sid pkt =>
      cases pkt with
      | message msg =>
          cases List.mem_singleton.mp hrelay
          obtain ⟨registered, hregistered⟩ := hassumed
          have hserverGood := Server.good_of_reachable hgood.reachable
          have hsame := hname.symm.trans (hserverGood.stored sid registered hregistered)
          rw [Option.some.injEq] at hsame
          have hnonempty := hgood.named _ (Server.mem_of_registered hregistered)
          rw [← hsame] at hnonempty
          exact (hserverGood.indexed.getSID_iff hnonempty).mpr hname
      | _ => cases hrelay
  | _ => cases hrelay

/-- What is read at a place is the packet that was put there. -/
theorem ReadAt.record (hopens : P.GcmOpensSealed) (hgood : Good P hash t.net) {sid : SID}
    {host : Host} (hhost : t.net.hosts sid = some host) {place : Nat} {pkt : Packet}
    (hopen : t.net.server.connections.IsOpen sid) (hread : ReadAt P t sid host place pkt) :
    ∃ record, host.posted[place]? = some record ∧ messageOf pkt = messageOf record.packet := by
  obtain ⟨record, hrecord, chunk, handler, stack, hchunk, hget, hreceive⟩ := hread
  exact ⟨record, hrecord, messageOf_readAs ((hgood.hosts sid host hhost).readAs_of_read hopens hopen
    (List.mem_of_getElem? hrecord) hchunk hget hreceive)⟩

/-- Nothing has come from a connection that is not there yet. -/
theorem relays_of_new (hgood : Good P hash t.net) {sid : SID}
    (hnew : t.net.server.connections.data.length ≤ sid) :
    (t.net.relays.filter fun relay => relay.origin = sid) = [] := by
  refine List.filter_eq_nil_iff.mpr fun relay hrelay horigin => ?_
  have hlt := (hgood.relays relay hrelay).lt
  rw [of_decide_eq_true horigin] at hlt
  exact Nat.not_lt.mpr hnew hlt

theorem filter_handled (s : Server) (label : Server.Label) (sid : SID) :
    ((handled s label).filter fun relay => relay.origin = sid).map (·.packet) =
      match label with
      | .packet _ origin pkt => if origin = sid then (messageOf pkt).toList else []
      | _ => [] := by
  cases label with
  | packet env origin pkt =>
      cases pkt with
      | message msg =>
          by_cases horigin : origin = sid
          · simp [handled, messageOf, horigin]
          · simp [handled, horigin]
      | _ => simp [handled, messageOf]
  | _ => rfl

/-- What the server takes from a client's stream. -/
theorem Ordered.relayed_server (hopens : P.GcmOpensSealed) (hordered : Ordered P hash t)
    {label : Server.Label} {server : Server} {place : Nat}
    (hstep : Server.Step P hash t.net.server label server)
    (horder : InOrder P t (.server label place)) {sid : SID} {host : Host}
    (hhost : t.net.hosts sid = some host) :
    TakenFrom (fun record : Record => messageOf record.packet) host.posted
      ((t.advance net (.server label place)).read sid)
      (((t.net.relays ++ handled t.net.server label).filter fun relay =>
        relay.origin = sid).map (·.packet)) := by
  have hbefore := hordered.relayed sid host hhost
  rw [List.filter_append, List.map_append, filter_handled]
  cases label with
  | packet env origin pkt =>
      obtain ⟨hplace, hread⟩ := horder
      dsimp only [advance]
      by_cases horigin : origin = sid
      · subst horigin
        rw [Function.update_self, if_pos rfl]
        cases hstep with
        | packet hopen hrun =>
            obtain ⟨record, hrecord, hpacket⟩ :=
              (hread host hhost).record hopens hordered.good hhost hopen
            rw [hpacket]
            exact hbefore.take hplace hrecord
      · rw [Function.update_of_ne (Ne.symm horigin), if_neg horigin, List.append_nil]
        exact hbefore
  | _ =>
      rw [List.append_nil]
      exact hbefore

theorem Ordered.server (hopens : P.GcmOpensSealed) (hordered : Ordered P hash t)
    {label : Server.Label} {server : Server} {logins : Server.Logins} {place : Nat}
    (hassumed : Assumed t.net.logins label) (hstep : Server.Step P hash t.net.server label server)
    (horder : InOrder P t (.server label place))
    (hgood : Good P hash { t.net with
      server := server, logins := logins, relays := t.net.relays ++ handled t.net.server label }) :
    Ordered P hash (t.advance { t.net with
      server := server, logins := logins, relays := t.net.relays ++ handled t.net.server label }
      (.server label place)) := by
  obtain ⟨more, hsent, hmore⟩ := sent_step hstep
  have hplaces : ∀ net, (t.advance net (.server label place)).received = t.received ∧
      (t.advance net (.server label place)).arrived = t.arrived := by
    intro net
    cases label <;> exact ⟨rfl, rfl⟩
  obtain ⟨hreceived, harrived⟩ := hplaces { t.net with
    server := server, logins := logins, relays := t.net.relays ++ handled t.net.server label }
  have hsame := t.advance_net { t.net with
    server := server, logins := logins, relays := t.net.relays ++ handled t.net.server label }
    (.server label place)
  constructor
  · rw [hsame]
    exact hgood
  · rw [hsame]
    exact hordered.posted
  · rw [hsame]
    intro sid host hhost
    exact hordered.relayed_server hopens hstep horder hhost
  · rw [hsame]
    intro relay hrelay name hname
    rcases List.mem_append.mp hrelay with hold | hnew
    · exact hordered.named relay hold name hname
    · exact from_of_handled hordered.good hassumed hnew hname
  · rw [hsame]
    dsimp only
    rw [hsent, List.filterMap_append, List.filterMap_append, hordered.sent, hmore]
  · rw [hsame, hreceived, harrived]
    dsimp only
    rw [hsent]
    exact fun sid => (hordered.arrived sid).append more

/-- A client hands out more, or puts more on its socket. -/
theorem Ordered.setHost (hordered : Ordered P hash t) {sid : SID} {host host' : Host}
    (hhost : t.net.hosts sid = some host)
    (hposted : host'.posted.map (·.packet) <+: host'.worker.client.sent)
    (hgrow : host.posted <+: host'.posted) (hgood : Good P hash (t.net.setHost sid host')) :
    Ordered P hash { t with net := t.net.setHost sid host' } := by
  refine ⟨hgood, ?_, ?_, hordered.named, hordered.sent, hordered.arrived⟩
  · intro other host'' hother
    rcases ChatNetwork.setHost_hosts hother with ⟨rfl, rfl⟩ | ⟨-, hold⟩
    · exact hposted
    · exact hordered.posted other host'' hold
  · intro other host'' hother
    rcases ChatNetwork.setHost_hosts hother with ⟨rfl, rfl⟩ | ⟨-, hold⟩
    · obtain ⟨more, hmore⟩ := hgrow
      rw [← hmore]
      exact (hordered.relayed other host hhost).append more
    · exact hordered.relayed other host'' hold

/-- A client comes, of which nothing has been read. -/
theorem Ordered.join (hordered : Ordered P hash t) {handler peer : NetworkHandler}
    (hgood : Good P hash ({ t.net with server := { t.net.server with
      connections := t.net.server.connections.insert handler } }.setHost
      t.net.server.connections.data.length ⟨peer, ⟨.fresh, none⟩, [], []⟩)) :
    Ordered P hash { t with net := ({ t.net with server := { t.net.server with
      connections := t.net.server.connections.insert handler } }.setHost
      t.net.server.connections.data.length ⟨peer, ⟨.fresh, none⟩, [], []⟩) } := by
  refine ⟨hgood, ?_, ?_, hordered.named, hordered.sent, hordered.arrived⟩
  · intro sid host hhost
    rcases ChatNetwork.setHost_hosts hhost with ⟨rfl, rfl⟩ | ⟨-, hold⟩
    · exact List.nil_prefix
    · exact hordered.posted sid host hold
  · intro sid host hhost
    rcases ChatNetwork.setHost_hosts hhost with ⟨rfl, rfl⟩ | ⟨-, hold⟩
    · change TakenFrom _ [] _ ((t.net.relays.filter _).map _)
      rw [relays_of_new hordered.good (Nat.le_refl _)]
      exact Channel.takenFrom_nil _ _ _
    · exact hordered.relayed sid host hold

theorem Ordered.receive (hopens : P.GcmOpensSealed) (hordered : Ordered P hash t) {sid : SID}
    {host : Host} (hhost : t.net.hosts sid = some host) {recv : Recv} {stack : Stack}
    {place : Nat} {item : Option Packet} {handler : NetworkHandler} {worker : Worker}
    (horder : InOrder P t (.receive sid recv stack place item))
    (hrun : host.handler.receivePacket P recv stack = (handler, .ok item))
    (hworker : Worker.Step P host.worker (.arrive item) worker)
    (hgood : Good P hash (t.net.setHost sid { host with handler := handler, worker := worker })) :
    Ordered P hash (t.advance
      (t.net.setHost sid { host with handler := handler, worker := worker })
      (.receive sid recv stack place item)) := by
  have hset : Ordered P hash { t with
      net := t.net.setHost sid { host with handler := handler, worker := worker } } := by
    cases hworker
    exact hordered.setHost hhost (hordered.posted sid host hhost) (List.prefix_refl _) hgood
  refine ⟨hset.good, hset.posted, hset.relayed, hset.named, hset.sent, fun other => ?_⟩
  obtain ⟨-, hrecv⟩ := horder
  dsimp only [advance]
  by_cases hother : other = sid
  swap
  · have hsame : (match recv with
        | .chunk _ => Function.update t.received sid (place + 1)
        | _ => t.received) other = t.received other := by
      cases recv with
      | chunk chunk => exact Function.update_of_ne hother _ _
      | _ => rfl
    rw [hsame, Function.update_of_ne hother]
    exact hset.arrived other
  subst hother
  rw [Function.update_self, List.filterMap_append]
  have hbefore := hset.arrived other
  cases item with
  | none =>
      have hlater : t.received other ≤ (match recv with
          | .chunk _ => Function.update t.received other (place + 1)
          | _ => t.received) other := by
        cases recv with
        | chunk chunk =>
            dsimp only
            rw [Function.update_self]
            exact Nat.le_succ_of_le (hrecv chunk rfl).1
        | _ => exact Nat.le_refl _
      rw [Option.toList_none, List.filterMap_nil, List.append_nil]
      exact hbefore.pass hlater
  | some pkt =>
      obtain ⟨chunk, rfl, hread⟩ :=
        (hordered.good.hosts other host hhost).readAs_of_receive hopens hrun
      obtain ⟨hplace, sending, hsending, hsid, hrecord⟩ := hrecv chunk rfl
      have hto : (some pkt).toList.filterMap messageOf = (sentTo other sending).toList := by
        rw [sentTo, if_pos hsid, ← messageOf_readAs
          (hread sending (List.mem_of_getElem? hsending) hsid hrecord)]
        cases hmessage : messageOf pkt <;> simp [hmessage]
      dsimp only
      rw [Function.update_self, hto]
      exact hbefore.take hplace hsending

theorem ordered_step (hopens : P.GcmOpensSealed) (hordered : Ordered P hash t) {label : Label}
    {t' : ChatOrder} (hstep : (system P hash).step t label t') : Ordered P hash t' := by
  obtain ⟨net, ⟨hnet, hcareful⟩, horder, rfl⟩ := hstep
  have hgood := ChatNetwork.good_step hopens hordered.good hcareful hnet
  cases label with
  | server label place =>
      cases hnet with
      | server hassumed hread hserver =>
          exact hordered.server hopens hassumed hserver.1 horder hgood
  | join handler peer =>
      cases hnet with
      | join hhandler hpeer hkey => exact hordered.join hgood
  | own sid label =>
      cases hnet with
      | @own _ host _ worker hhost hown hworker =>
          obtain ⟨hbound, hfits⟩ := hcareful sid host hhost
          obtain ⟨hmoves, -⟩ :=
            (hordered.good.hosts sid host hhost).own hbound hfits hown hworker
          exact hordered.setHost hhost
            ((hordered.posted sid host hhost).trans hmoves.sent_prefix) (List.prefix_refl _) hgood
  | post sid nonce pkt bytesSent =>
      cases hnet with
      | @post _ host _ _ _ result bytes hhost hpkt hsend =>
          refine hordered.setHost hhost ?_ (List.prefix_append _ _) hgood
          rw [List.map_append, List.map_singleton]
          refine Channel.prefix_concat (hordered.posted sid host hhost) ?_
          rw [List.length_map]
          exact horder host hhost
  | receive sid recv stack place item =>
      cases hnet with
      | @receive _ host _ _ handler item' worker hhost hrecv hrun hworker =>
          obtain rfl : item' = item := by
            have hitem := horder.1 host hhost
            rw [hrun] at hitem
            exact Except.ok.inj hitem
          exact hordered.receive hopens hhost horder hrun hworker hgood

theorem ordered_of_reachable (hopens : P.GcmOpensSealed) (hreach : Reachable (system P hash) t) :
    Ordered P hash t := by
  refine hreach.invariant ?_ fun _ _ _ hordered hstep => ordered_step hopens hordered hstep
  rintro _ rfl
  refine ⟨ChatNetwork.good_of_reachable hopens (Reachable.of_init rfl), ?_, ?_, ?_,
    rfl, fun _ => Channel.takenFrom_nil _ _ _⟩
  · rintro _ _ ⟨⟩
  · rintro _ _ ⟨⟩
  · rintro _ ⟨⟩

/-- What a message has for us that is stamped with the name. -/
def payloadFrom (name : Str) (msg : MessagePacket) : Option Payload :=
  if msg.mSender = name then some msg.mPayload else none

def payloadTo (name : Str) (msg : MessagePacket) : Option Payload :=
  if msg.mReceiver = name then some msg.mPayload else none

/-- What has come into the mailbox of a client under the name, in order. -/
def gotFrom (t : ChatOrder) (sid : SID) (name : Str) : List Payload :=
  ((t.arrived sid).filterMap messageOf).filterMap (payloadFrom name)

/-- What a client has handed out for the name, in order. -/
def handedTo (c : Client) (name : Str) : List Payload :=
  (c.sent.filterMap messageOf).filterMap (payloadTo name)

/-- What the server has taken from a client, the client has handed out. -/
theorem Ordered.relayed_handed (hordered : Ordered P hash t) {sid : SID}
    (hhost : t.net.IsHost sid) (name : Str) :
    (((t.net.relays.filter fun relay => relay.origin = sid).map (·.packet)).filterMap
      (payloadTo name)).Sublist (handedTo (t.net.clientAt sid) name) := by
  rcases hhost with hthere | hlater
  · obtain ⟨host, hhost⟩ := Option.ne_none_iff_exists'.mp hthere
    rw [ChatNetwork.clientAt_of_some hhost]
    refine ((hordered.relayed sid host hhost).sublist.filterMap _).trans ?_
    have hposted : host.posted.filterMap (fun record => messageOf record.packet) =
        (host.posted.map (·.packet)).filterMap messageOf := by
      rw [List.filterMap_map]
      rfl
    rw [hposted]
    exact ((hordered.posted sid host hhost).sublist.filterMap _).filterMap _
  · rw [relays_of_new hordered.good hlater]
    exact List.nil_sublist _

/-- What comes to a client under a name, of what the server has stamped. -/
def pick (sid : SID) (name : Str) (sent : SID × MessagePacket) : Option Payload :=
  if sent.1 = sid then payloadFrom name sent.2 else none

/-- What the server sends to a client under a name. -/
theorem sentTo_from (sent : List Sending) (sid : SID) (name : Str) :
    (sent.filterMap (sentTo sid)).filterMap (payloadFrom name) =
      (sent.filterMap sentOn).filterMap (pick sid name) := by
  have hsame : ∀ sending : Sending, (sentTo sid sending).bind (payloadFrom name) =
      (sentOn sending).bind (pick sid name) := by
    intro sending
    rw [sentTo, sentOn]
    by_cases hsid : sending.sid = sid
    · rw [if_pos hsid]
      cases messageOf sending.packet with
      | none => rfl
      | some msg => exact (if_pos hsid).symm
    · rw [if_neg hsid]
      cases messageOf sending.packet with
      | none => rfl
      | some msg => exact (if_neg hsid).symm
  rw [List.filterMap_filterMap, List.filterMap_filterMap, funext hsame]

theorem Ordered.got_stamped (hordered : Ordered P hash t) (sid : SID) (name : Str) :
    (t.gotFrom sid name).Sublist
      ((t.net.relays.filterMap (stamped hash)).filterMap (pick sid name)) := by
  have hgot := (hordered.arrived sid).sublist.filterMap (payloadFrom name)
  rwa [sentTo_from, hordered.sent] at hgot

/-- What comes to one under the other's name has come from the other, for the one. -/
theorem Ordered.of_picked (hordered : Ordered P hash t) {ends : Side → SID} {name : Side → Str}
    (hbetween : t.net.Between ends name) {relay : Relay} (hrelay : relay ∈ t.net.relays)
    {side : Side} {payload : Payload}
    (hpicked : (stamped hash relay).bind (pick (ends side) (name side.other)) = some payload) :
    relay.origin = ends side.other ∧ payloadTo (name side) relay.packet = some payload := by
  obtain ⟨⟨sid, msg⟩, hstamped, hpick⟩ := Option.bind_eq_some_iff.mp hpicked
  obtain ⟨hname, hreceiver, hsame⟩ := stamped_eq_some hstamped
  rw [pick] at hpick
  split at hpick
  swap
  · cases hpick
  rename_i hsid
  obtain rfl : sid = ends side := hsid
  rw [payloadFrom] at hpick
  split at hpick
  swap
  · cases hpick
  rename_i hsender
  obtain rfl := Option.some.inj hpick
  have hnamed := (hordered.good.relays relay hrelay).named
  have horigin : relay.origin = ends side.other := (hbetween.only side.other _
    (hnamed _ _ (hordered.named relay hrelay _ hname))).mpr hsender
  have hto : relay.packet.mReceiver = name side :=
    (hbetween.only side _ (hnamed _ _ hreceiver)).mp rfl
  have hpayload : (relay.packet.setSender msg.mSender).mPayload = msg.mPayload :=
    congrArg MessagePacket.mPayload hsame
  exact ⟨horigin, (if_pos hto).trans (congrArg some hpayload)⟩

/-- What the server stamps with the one's name for the other has come from the one, for the
other. -/
theorem Ordered.stamped_relayed (hordered : Ordered P hash t) {ends : Side → SID}
    {name : Side → Str} (hbetween : t.net.Between ends name) (side : Side) :
    ((t.net.relays.filterMap (stamped hash)).filterMap
      (pick (ends side) (name side.other))).Sublist
      (((t.net.relays.filter fun relay => relay.origin = ends side.other).map
        (·.packet)).filterMap (payloadTo (name side))) := by
  rw [List.filterMap_filterMap, List.filterMap_map, List.filterMap_filter]
  refine Channel.sublist_filterMap_of_le fun relay hrelay payload hpicked => ?_
  obtain ⟨horigin, hto⟩ := hordered.of_picked hbetween hrelay hpicked
  rw [if_pos (decide_eq_true horigin)]
  exact hto

end ChatOrder

end LeakyChat

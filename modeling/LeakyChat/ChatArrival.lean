/-
Connections that lose nothing.  Where the server reads the next record of each
client, and each open socket gets the next that was sent to it, every message
that has been read was passed on, and every one that has come was the next.
-/
import LeakyChat.ChatOrder

namespace LeakyChat

open Channel (TakenAll)
open Transition
open Deployment (handled)
open Rekey (Side)

namespace ChatOrder

open ChatNetwork (Good Exchange Open)

/-- The record is the next, and the socket that gets it is open. -/
def NextInLine (t : ChatOrder) : Label → Prop
  | .server (.packet _ sid _) place => place = t.read sid
  | .receive sid (.chunk _) _ place _ =>
      (∀ host, t.net.hosts sid = some host → host.handler.connected = true) ∧
      ∀ i sending, t.received sid ≤ i → i < place → t.net.server.sent[i]? = some sending →
        sending.sid ≠ sid
  | _ => True

variable (P : Primitives) (hash : Str → UInt64)

/-- The runs in which no record is lost on its way. -/
def reliable : System ChatOrder Label := (system P hash).restrict NextInLine

/-- Each hop has taken all that the one before it has passed on, up to its place. -/
structure Exact (t : ChatOrder) : Prop where
  ordered : Ordered P hash t
  unread : ∀ sid, t.net.server.connections.data.length ≤ sid → t.read sid = 0
  relayed : ∀ sid host, t.net.hosts sid = some host →
    TakenAll (fun record : Record => messageOf record.packet) host.posted (t.read sid)
      ((t.net.relays.filter fun relay => relay.origin = sid).map (·.packet))
  arrived : ∀ sid, TakenAll (sentTo sid) t.net.server.sent (t.received sid)
    ((t.arrived sid).filterMap messageOf)

variable {P hash} {t t' : ChatOrder} {sid : SID} {host : Host}

/-- All that the server reads from a client's stream it relays. -/
theorem Exact.relayed_server (hopens : P.GcmOpensSealed) (hexact : Exact P hash t)
    {label : Server.Label} {server : Server} {place : Nat}
    (hstep : Server.Step P hash t.net.server label server)
    (horder : InOrder P t (.server label place)) (hnext : NextInLine t (.server label place))
    (hhost : t.net.hosts sid = some host) :
    TakenAll (fun record : Record => messageOf record.packet) host.posted
      ((t.advance t.net (.server label place)).read sid)
      (((t.net.relays ++ handled t.net.server label).filter fun relay =>
        relay.origin = sid).map (·.packet)) := by
  have hbefore := hexact.relayed sid host hhost
  rw [List.filter_append, List.map_append, filter_handled]
  cases label with
  | packet env origin pkt =>
      obtain ⟨hplace, hread⟩ := horder
      have hsame : place = t.read origin := hnext
      dsimp only [advance]
      by_cases horigin : origin = sid
      · subst horigin
        rw [Function.update_self, if_pos rfl]
        cases hstep with
        | packet hopen hrun =>
            obtain ⟨record, hrecord, hpacket⟩ :=
              (hread host hhost).record hopens hexact.ordered.good hhost hopen
            rw [hpacket]
            refine hbefore.take hplace (fun j _ hle hlt _ => ?_) hrecord
            exact absurd (hsame ▸ hle) (Nat.not_le.mpr hlt)
      · rw [Function.update_of_ne (Ne.symm horigin), if_neg horigin, List.append_nil]
        exact hbefore
  | _ =>
      rw [List.append_nil]
      exact hbefore

/-- What comes to an open socket is the next. -/
theorem Exact.arrived_receive (hopens : P.GcmOpensSealed) (hexact : Exact P hash t)
    (hhost : t.net.hosts sid = some host) {recv : Recv} {stack : Stack} {place : Nat}
    {item : Option Packet} {handler : NetworkHandler}
    (horder : InOrder P t (.receive sid recv stack place item))
    (hnext : NextInLine t (.receive sid recv stack place item))
    (hrun : host.handler.receivePacket P recv stack = (handler, .ok item)) (net : ChatNetwork)
    (other : SID) :
    TakenAll (sentTo other) t.net.server.sent
      ((t.advance net (.receive sid recv stack place item)).received other)
      (((t.advance net (.receive sid recv stack place item)).arrived other).filterMap
        messageOf) := by
  have hbefore := hexact.arrived other
  obtain ⟨-, hrecv⟩ := horder
  have hhostGood := hexact.ordered.good.hosts sid host hhost
  cases recv with
  | chunk chunk =>
      dsimp only [advance]
      by_cases hother : other = sid
      swap
      · rw [Function.update_of_ne hother, Function.update_of_ne hother]
        exact hbefore
      subst hother
      obtain ⟨hplace, sending, hsending, hsid, hrecord⟩ := hrecv chunk rfl
      obtain ⟨pkt, hreceive, hread⟩ := hhostGood.receive_sending hopens (hnext.1 host hhost)
        (List.mem_of_getElem? hsending) hsid hrecord stack
      rw [hrun, Prod.mk.injEq, Except.ok.injEq] at hreceive
      obtain ⟨-, rfl⟩ := hreceive
      have hto : (some pkt).toList.filterMap messageOf = (sentTo other sending).toList := by
        rw [sentTo, if_pos hsid, ← messageOf_readAs hread]
        cases hmessage : messageOf pkt <;> simp [hmessage]
      rw [Function.update_self, Function.update_self, List.filterMap_append, hto]
      refine hbefore.take hplace (fun j passed hle hlt hpassed => ?_) hsending
      exact if_neg (hnext.2 j passed hle hlt hpassed)
  | _ =>
      have hnothing : item = none := by
        cases item with
        | none => rfl
        | some pkt =>
            obtain ⟨chunk, hchunk, -⟩ := hhostGood.readAs_of_receive hopens hrun
            cases hchunk
      dsimp only [advance]
      by_cases hother : other = sid
      · subst hother
        rw [Function.update_self, hnothing, Option.toList_none, List.append_nil]
        exact hbefore
      · rw [Function.update_of_ne hother]
        exact hbefore

/-- A client goes on, or puts more on its socket. -/
theorem Exact.setHost (hexact : Exact P hash t) (hhost : t.net.hosts sid = some host)
    {host' : Host} (hgrow : host.posted <+: host'.posted) {other : SID} {host'' : Host}
    (hother : (t.net.setHost sid host').hosts other = some host'') :
    TakenAll (fun record : Record => messageOf record.packet) host''.posted (t.read other)
      ((t.net.relays.filter fun relay => relay.origin = other).map (·.packet)) := by
  rcases ChatNetwork.setHost_hosts hother with ⟨rfl, rfl⟩ | ⟨-, hold⟩
  · obtain ⟨more, hmore⟩ := hgrow
    rw [← hmore]
    exact (hexact.relayed other host hhost).append more
  · exact hexact.relayed other host'' hold

theorem Exact.server (hopens : P.GcmOpensSealed) (hexact : Exact P hash t)
    {label : Server.Label} {server : Server} {logins : Server.Logins} {place : Nat}
    (hstep : Server.Step P hash t.net.server label server)
    (horder : InOrder P t (.server label place)) (hnext : NextInLine t (.server label place))
    (hordered : Ordered P hash (t.advance { t.net with
      server := server, logins := logins, relays := t.net.relays ++ handled t.net.server label }
      (.server label place))) :
    Exact P hash (t.advance { t.net with
      server := server, logins := logins, relays := t.net.relays ++ handled t.net.server label }
      (.server label place)) := by
  obtain ⟨more, hsent, -⟩ := sent_step hstep
  have hlength := Server.length_le_of_step hstep
  refine ⟨hordered, fun sid hsid => ?_, fun sid host hhost => ?_, fun sid => ?_⟩
  · cases label with
    | packet env origin pkt =>
        have hlater : t.net.server.connections.data.length ≤ sid := hlength.trans hsid
        have hbefore := hexact.unread sid hlater
        cases hstep with
        | packet hopen hrun =>
            have hne : sid ≠ origin := fun hsame => Nat.not_lt.mpr (hsame ▸ hlater) hopen.lt
            exact (Function.update_of_ne hne _ _).trans hbefore
    | _ => exact hexact.unread sid (hlength.trans hsid)
  · cases label <;> exact hexact.relayed_server hopens hstep horder hnext hhost
  · have htaken := (hexact.arrived sid).append more
    rw [← hsent] at htaken
    cases label <;> exact htaken

theorem exact_step (hopens : P.GcmOpensSealed) (hexact : Exact P hash t) {label : Label}
    (hstep : (reliable P hash).step t label t') : Exact P hash t' := by
  obtain ⟨hsystem, hnext⟩ := hstep
  have hordered := ordered_step hopens hexact.ordered hsystem
  obtain ⟨net, ⟨hnet, hcareful⟩, horder, rfl⟩ := hsystem
  cases label with
  | server label place =>
      cases hnet with
      | server hassumed hread hserver =>
          exact hexact.server hopens hserver.1 horder hnext hordered
  | join handler peer =>
      cases hnet with
      | join hhandler hpeer hkey =>
          refine ⟨hordered, fun sid hsid => ?_, fun sid host hhost => ?_, hexact.arrived⟩
          · have hlength : (t.net.server.connections.insert handler).data.length =
                t.net.server.connections.data.length + 1 := by simp [SocketSet.insert]
            have hlater : (t.net.server.connections.insert handler).data.length ≤ sid := hsid
            rw [hlength] at hlater
            exact hexact.unread sid (Nat.le_of_succ_le hlater)
          · rcases ChatNetwork.setHost_hosts hhost with ⟨rfl, rfl⟩ | ⟨-, hold⟩
            · change TakenAll _ [] (t.read _) ((t.net.relays.filter _).map _)
              rw [relays_of_new hexact.ordered.good (Nat.le_refl _),
                hexact.unread _ (Nat.le_refl _)]
              exact Channel.takenAll_nil _ _
            · exact hexact.relayed sid host hold
  | own sid label =>
      cases hnet with
      | own hhost hown hworker =>
          exact ⟨hordered, hexact.unread, fun other host' hother =>
            hexact.setHost hhost (by exact List.prefix_refl _) hother, hexact.arrived⟩
  | post sid nonce pkt bytesSent =>
      cases hnet with
      | post hhost hpkt hsend =>
          exact ⟨hordered, hexact.unread, fun other host' hother =>
            hexact.setHost hhost (List.prefix_append _ _) hother, hexact.arrived⟩
  | receive sid recv stack place item =>
      cases hnet with
      | @receive _ host _ _ handler item' worker hhost hrecv hrun hworker =>
          obtain rfl : item' = item := by
            have hitem := horder.1 host hhost
            rw [hrun] at hitem
            exact Except.ok.inj hitem
          exact ⟨hordered, hexact.unread, fun other host' hother =>
            hexact.setHost hhost (by exact List.prefix_refl _) hother,
            hexact.arrived_receive hopens hhost horder hnext hrun _⟩

theorem exact_of_reachable (hopens : P.GcmOpensSealed) (hreach : Reachable (reliable P hash) t) :
    Exact P hash t := by
  refine hreach.invariant ?_ fun _ _ _ hexact hstep => exact_step hopens hexact hstep
  rintro start hstart
  refine ⟨ordered_of_reachable hopens (Reachable.of_init hstart), ?_, ?_, ?_⟩ <;> cases hstart
  · exact fun _ _ => rfl
  · rintro _ _ ⟨⟩
  · exact fun _ => Channel.takenAll_nil _ _

/-- Everything the client has handed out has been read. -/
def AllRead (t : ChatOrder) (sid : SID) : Prop :=
  ∀ host, t.net.hosts sid = some host →
    host.posted.length = host.worker.client.sent.length ∧ t.read sid = host.posted.length

/-- Everything the server has sent to it has come. -/
def AllTaken (t : ChatOrder) (sid : SID) : Prop :=
  ∀ i sending, t.received sid ≤ i → t.net.server.sent[i]? = some sending → sending.sid ≠ sid

variable (hash) in
/-- A client goes on with its operations. -/
theorem run_own {sid : SID} {host : Host} (hothers : ∀ other host', other ≠ sid →
      t.net.hosts other = some host' → host'.worker.Tidy)
    (hhost : t.net.hosts sid = some host) {labels : List Worker.Label} {w : Worker}
    (hrun : Run (Worker.ownSteps P) host.worker labels w) :
    ∃ steps texts, Run (reliable P hash) t steps
      { t with net := t.net.setHost sid { host with worker := w, texts := texts } } := by
  obtain ⟨first, hfirst⟩ : ∃ first, first = host.worker := ⟨_, rfl⟩
  rw [← hfirst] at hrun
  induction hrun generalizing host t with
  | nil =>
      have hsame : t.net.setHost sid host = t.net := by
        rw [ChatNetwork.setHost, ← hhost, Function.update_eq_self]
      refine ⟨[], host.texts, ?_⟩
      rw [hfirst, hsame]
      exact Run.nil t
  | @cons _ middle last label labels head tail ih =>
      subst hfirst
      obtain ⟨hstep, htidy, hown⟩ := head
      have hcareful : t.net.Careful := by
        intro other host' hhost'
        by_cases hother : other = sid
        · rw [hother, hhost, Option.some.injEq] at hhost'
          rw [← hhost']
          exact htidy
        · exact hothers other host' hother hhost'
      have hnet : ChatNetwork.Step P hash t.net (.own sid label) _ :=
        ChatNetwork.Step.own hhost hown hstep
      have hset := ChatNetwork.setHost_self t.net sid
        { host with worker := middle, texts := host.texts ++ label.wording }
      have hnext := show (reliable P hash).step t (.own sid label) _ from
        ⟨⟨_, ⟨hnet, hcareful⟩, trivial, rfl⟩, trivial⟩
      have hothers' : ∀ other host', other ≠ sid →
          (t.net.setHost sid { host with
            worker := middle, texts := host.texts ++ label.wording }).hosts other = some host' →
          host'.worker.Tidy := by
        intro other host' hother hhost'
        rw [ChatNetwork.setHost_of_ne t.net hother] at hhost'
        exact hothers other host' hother hhost'
      obtain ⟨steps, texts, hrest⟩ := ih (t := t.advance _ (.own sid label)) hothers' hset rfl
      refine ⟨_ :: steps, texts, Run.cons hnext ?_⟩
      simp only [advance, ChatNetwork.setHost, Function.update_idem] at hrest ⊢
      exact hrest

theorem allTaken_of_length (hlength : t.net.server.sent.length ≤ t.received sid) :
    t.AllTaken sid := fun _ _ hle hsending =>
  absurd (hlength.trans hle) (Nat.not_le.mpr (List.getElem?_eq_some_iff.mp hsending).1)

/-- An exchange in order: the packet is the next of the client, and nothing has been passed
that is still to come. -/
theorem run_exchange (hopens : P.GcmOpensSealed) (hgood : Good P hash t.net)
    (hcareful : t.net.Careful) {sid rcvr : SID} (x : Exchange P hash t.net sid rcvr)
    {host host' : Host} (hopen : Open t.net sid host) (hopen' : Open t.net rcvr host')
    (hnext : host.worker.client.sent[host.posted.length]? = some x.pkt)
    (hread : t.read sid = host.posted.length)
    (hreceived : t.received rcvr ≤ t.net.server.sent.length) (htaken : t.AllTaken rcvr) :
    ∃ (u : ChatOrder) (bytes : List UInt8) (posted : List Record),
      (∃ steps, Run (reliable P hash) t steps u) ∧
      (x.handling host bytes).hosts rcvr = some { host' with posted := posted } ∧
      u.net = (x.handling host bytes).setHost rcvr { host' with
        posted := posted
        worker := { host'.worker with client := host'.worker.client.arrive [some x.item] } } ∧
      u.read = Function.update t.read sid (host.posted.length + 1) ∧
      u.received = Function.update t.received rcvr (t.net.server.sent.length + 1) ∧
      u.arrived = Function.update t.arrived rcvr (t.arrived rcvr ++ [x.item]) ∧
      u.AllTaken rcvr := by
  have hpkt := List.mem_of_getElem? hnext
  obtain ⟨bytes, hpost, chunk, handler, hchunk, hget, hreceive⟩ :=
    x.exists_posted hopens hgood hopen hpkt
  have hposting := ChatNetwork.good_step hopens hgood hcareful hpost
  have hcareful' := ChatNetwork.careful_of_core hcareful (x.core_posting hopen.there bytes)
  have hhandle := Exchange.step_handling (x := x) hopen ⟨chunk, handler, hchunk, hget, hreceive⟩
  have hhandling := ChatNetwork.good_step hopens hposting hcareful' hhandle
  have hcareful'' := ChatNetwork.careful_of_core hcareful (x.core_handling hopen.there bytes)
  obtain ⟨posted, hlastOpen⟩ := x.open_handling hopen hopen' bytes
  have hlast := Exchange.step_received hhandling hlastOpen
  have hfirst : (reliable P hash).step t (.post sid (Block.zero 12) x.pkt 0)
      { t with net := x.posting host bytes } := by
    refine ⟨⟨_, ⟨hpost, hcareful⟩, fun other hother => ?_, rfl⟩, trivial⟩
    rw [hopen.there, Option.some.injEq] at hother
    rw [← hother]
    exact hnext
  have hsecond : (reliable P hash).step { t with net := x.posting host bytes }
      (.server (.packet x.env sid x.pkt) host.posted.length)
      { t with
        net := x.handling host bytes
        read := Function.update t.read sid (host.posted.length + 1) } := by
    refine ⟨⟨_, ⟨hhandle, hcareful'⟩, ⟨hread.le, fun other hother => ?_⟩, rfl⟩, hread.symm⟩
    rw [Exchange.posting, ChatNetwork.setHost_self, Option.some.injEq] at hother
    rw [← hother]
    exact ⟨⟨x.pkt, bytes⟩, List.getElem?_concat_length, chunk, handler, _, hchunk, hget, hreceive⟩
  have hthird : (reliable P hash).step
      { t with
        net := x.handling host bytes
        read := Function.update t.read sid (host.posted.length + 1) }
      (.receive rcvr (.chunk x.chunk) x.stack t.net.server.sent.length (some x.item))
      (advance { t with
        net := x.handling host bytes
        read := Function.update t.read sid (host.posted.length + 1) }
        ((x.handling host bytes).setHost rcvr { host' with
          posted := posted
          worker := { host'.worker with client := host'.worker.client.arrive [some x.item] } })
        (.receive rcvr (.chunk x.chunk) x.stack t.net.server.sent.length (some x.item))) := by
    refine ⟨⟨_, ⟨hlast, hcareful''⟩, ⟨fun other hother => ?_, ?_⟩, rfl⟩, fun other hother => ?_,
      fun i sending hle hlt hsending => ?_⟩
    · rw [hlastOpen.there, Option.some.injEq] at hother
      rw [← hother, Exchange.receive_eq hhandling hlastOpen]
    · rintro _ ⟨⟩
      exact ⟨hreceived, _, List.getElem?_concat_length, rfl, rfl⟩
    · rw [hlastOpen.there, Option.some.injEq] at hother
      rw [← hother]
      exact hlastOpen.client
    · have hbefore : (t.net.server.sent ++ [_])[i]? = some sending := hsending
      rw [List.getElem?_append_left hlt] at hbefore
      exact htaken i sending hle hbefore
  refine ⟨_, bytes, posted, ⟨_, Run.cons hfirst (Run.cons hsecond (Run.cons hthird (Run.nil _)))⟩,
    hlastOpen.there, rfl, rfl, rfl, rfl, allTaken_of_length ?_⟩
  change (t.net.server.sent ++ [_]).length ≤ Function.update t.received rcvr _ rcvr
  rw [Function.update_self]
  exact (List.length_append).le

/-- Nothing but the client at `sid` and its places has changed, and what has been sent to it. -/
structure Apart (t u : ChatOrder) (sid : SID) : Prop where
  hosts : ∀ other, other ≠ sid → u.net.hosts other = t.net.hosts other
  read : ∀ other, other ≠ sid → u.read other = t.read other
  received : ∀ other, other ≠ sid → u.received other = t.received other
  connections : u.net.server.connections = t.net.server.connections
  sent : ∃ more, u.net.server.sent = t.net.server.sent ++ more ∧ ∀ sending ∈ more, sending.sid = sid

theorem Apart.trans {u v : ChatOrder} (hfirst : Apart t u sid) (hlast : Apart u v sid) :
    Apart t v sid where
  hosts other hother := (hlast.hosts other hother).trans (hfirst.hosts other hother)
  read other hother := (hlast.read other hother).trans (hfirst.read other hother)
  received other hother := (hlast.received other hother).trans (hfirst.received other hother)
  connections := hlast.connections.trans hfirst.connections
  sent := by
    obtain ⟨more, hmore, hto⟩ := hfirst.sent
    obtain ⟨more', hmore', hto'⟩ := hlast.sent
    refine ⟨more ++ more', by rw [hmore', hmore, List.append_assoc], fun sending hsending => ?_⟩
    exact (List.mem_append.mp hsending).elim (hto sending) (hto' sending)

/-- The client alone has changed. -/
theorem apart_setHost (t : ChatOrder) (sid : SID) (host : Host) :
    Apart t { t with net := t.net.setHost sid host } sid where
  hosts other hother := ChatNetwork.setHost_of_ne t.net hother host
  read _ _ := rfl
  received _ _ := rfl
  connections := rfl
  sent := ⟨[], (List.append_nil _).symm, by rintro _ ⟨⟩⟩

theorem AllTaken.apart {u : ChatOrder} {other : SID} (htaken : t.AllTaken other)
    (hapart : Apart t u sid) (hother : other ≠ sid) : u.AllTaken other := by
  obtain ⟨more, hmore, hto⟩ := hapart.sent
  intro i sending hle hsending
  rw [hapart.received other hother] at hle
  rw [hmore] at hsending
  by_cases hlt : i < t.net.server.sent.length
  · rw [List.getElem?_append_left hlt] at hsending
    exact htaken i sending hle hsending
  · rw [List.getElem?_append_right (Nat.not_lt.mp hlt)] at hsending
    rw [hto sending (List.mem_of_getElem? hsending)]
    exact hother.symm

/-- An idle client that has nothing on the way, in either direction. -/
structure Ready (t : ChatOrder) (sid : SID) (host : Host) : Prop where
  ends : Open t.net sid host
  idle : host.worker.Idle
  handed : host.posted.length = host.worker.client.sent.length
  read : t.read sid = host.posted.length
  taken : t.AllTaken sid

theorem Ready.apart {u : ChatOrder} {other : SID} (hready : t.Ready other host)
    (hapart : Apart t u sid) (hother : other ≠ sid) : u.Ready other host where
  ends := ⟨(hapart.hosts other hother).trans hready.ends.there, hready.ends.client,
    hapart.connections ▸ hready.ends.server⟩
  idle := hready.idle
  handed := hready.handed
  read := (hapart.read other hother).trans hready.read
  taken := hready.taken.apart hapart hother

theorem Ready.allRead (hready : t.Ready sid host) : t.AllRead sid := by
  intro host' hhost'
  rw [hready.ends.there, Option.some.injEq] at hhost'
  exact hhost' ▸ ⟨hready.handed, hready.read⟩

/-- The one more packet that a client hands out is its next. -/
theorem Ready.next (hready : t.Ready sid host) {c : Client} {pkt : Packet}
    (hsent : c.sent = host.worker.client.sent ++ [pkt]) :
    c.sent[host.posted.length]? = some pkt := by
  rw [hready.handed, hsent]
  exact List.getElem?_concat_length

/-- A ready client makes steps of its own. -/
theorem Ready.own (hash : Str → UInt64) (hready : t.Ready sid host) (hcareful : t.net.Careful)
    {labels : List Worker.Label} {w : Worker}
    (hrun : Run (Worker.ownSteps P) host.worker labels w) (htidy : w.Tidy) :
    ∃ steps texts u, Run (reliable P hash) t steps u ∧
      u = { t with net := t.net.setHost sid { host with worker := w, texts := texts } } ∧
      Apart t u sid ∧ u.net.Careful ∧
      Open u.net sid { host with worker := w, texts := texts } := by
  obtain ⟨steps, texts, hsteps⟩ := run_own hash
    (fun other host' _ hhost' => hcareful other host' hhost') hready.ends.there hrun
  exact ⟨steps, texts, _, hsteps, rfl, apart_setHost t sid _, hcareful.setHost sid htidy,
    ChatNetwork.setHost_self _ _ _, hready.ends.client, hready.ends.server⟩

/-- A client's packet is answered to the client itself. -/
theorem exists_answered (hopens : P.GcmOpensSealed) (hreach : Reachable (reliable P hash) t)
    (hcareful : t.net.Careful) (x : Exchange P hash t.net sid sid) (hopen : Open t.net sid host)
    (hnext : host.worker.client.sent[host.posted.length]? = some x.pkt)
    (hread : t.read sid = host.posted.length) (htaken : t.AllTaken sid) :
    ∃ (u : ChatOrder) (bytes : List UInt8), Reachable (reliable P hash) u ∧ Apart t u sid ∧
      u.net.hosts sid = some { host with
        posted := host.posted ++ [⟨x.pkt, bytes⟩]
        worker := { host.worker with client := host.worker.client.arrive [some x.item] } } ∧
      u.read sid = host.posted.length + 1 ∧ u.AllTaken sid ∧
      u.net.server.usernames = x.usernames ∧
      u.net.logins = Server.grants hash t.net.server (.packet x.env sid x.pkt) ++ t.net.logins ∧
      u.net.core = Function.update t.net.core sid (some (host.handler,
        { host.worker with client := host.worker.client.arrive [some x.item] }, host.texts)) := by
  have hexact := exact_of_reachable hopens hreach
  obtain ⟨u, bytes, posted, ⟨steps, hrun⟩, hthere, hnet, hread', hreceived', -, htaken'⟩ :=
    run_exchange hopens hexact.ordered.good hcareful x hopen hopen hnext hread
      (hexact.arrived sid).le htaken
  have hposted : posted = host.posted ++ [⟨x.pkt, bytes⟩] := by
    have hself := hthere.symm.trans (x.hosts_handling _ _)
    rw [Option.some.injEq, Host.mk.injEq] at hself
    exact hself.2.2.1
  have hsent : u.net.server.sent = t.net.server.sent ++ [⟨sid, x.reply, some x.chunk.1⟩] := by
    rw [hnet]
    rfl
  refine ⟨u, bytes, hreach.run hrun, ⟨fun other hother => ?_, fun other hother => ?_,
    fun other hother => ?_, ?_, [_], hsent, fun sending hsending => ?_⟩, ?_, ?_, htaken',
    ?_, ?_, ?_⟩
  · rw [hnet, ChatNetwork.setHost_of_ne _ hother]
    exact ChatNetwork.setHost_of_ne _ hother _
  · rw [hread', Function.update_of_ne hother]
  · rw [hreceived', Function.update_of_ne hother]
  · rw [hnet]
    rfl
  · rw [List.mem_singleton.mp hsending]
  · rw [hnet, ← hposted]
    exact ChatNetwork.setHost_self _ _ _
  · rw [hread', Function.update_self]
  · rw [hnet]
    rfl
  · rw [hnet]
    rfl
  · rw [hnet, ← x.core_handling hopen.there bytes]
    exact ChatNetwork.core_setHost _ _ _

/-- A client that has nothing on the way logs in under a free name, and has nothing on the way
again. -/
theorem exists_ready (hopens : P.GcmOpensSealed) (hkeeps : ChatNetwork.GcmKeepsLength P)
    (hreach : Reachable (reliable P hash) t) (hcareful : t.net.Careful)
    (hready : t.Ready sid host) (env : Env)
    (hseq : numberRead host.worker.client.curSeqNo (fun _ => 0) = host.worker.client.curSeqNo)
    {username : Str} (hnonempty : username ≠ .empty) (hshort : username.1.length ≤ 64000)
    (hfree : t.net.server.usernames.contains hash username = false) :
    ∃ u host', Reachable (reliable P hash) u ∧ u.net.Careful ∧ Apart t u sid ∧
      u.Ready sid host' ∧
      host'.worker.client.mE2ESessions = host.worker.client.mE2ESessions ∧
      u.net.server.usernames = t.net.server.usernames.insert hash sid username ∧
      u.net.logins = (sid, username) :: t.net.logins := by
  obtain ⟨c, hc⟩ : ∃ c, host.worker = ⟨c, none⟩ := ⟨_, by rw [← hready.idle.task]⟩
  have hidle := hready.idle
  rw [hc] at hidle hseq
  obtain ⟨c₁, q, hrun, hmail, hsessions, hsent, hwaits, hreplied⟩ :=
    Worker.run_login P env hidle username
  have hbound₁ : c₁.Bounded := by
    rw [Client.Bounded, hsessions]
    exact hidle.bounded
  have hnext : c₁.sent[host.posted.length]? = _ := hready.next (by rw [hsent, hc])
  rw [← hc] at hrun
  obtain ⟨steps₁, texts₁, t₁, hrun₁, ht₁, hapart₁, hcareful₁, hopen₁⟩ :=
    hready.own hash hcareful hrun (hwaits c₁ hbound₁)
  have hserver₁ : t₁.net.server = t.net.server := by
    rw [ht₁]
    rfl
  obtain ⟨x, hpkt, hitem, husernames, hgrants⟩ := ChatNetwork.exists_loginExchange hopens
    (exact_of_reachable hopens (hreach.run hrun₁)).ordered.good hopen₁ hnonempty
    (by rw [hserver₁]; exact hfree) (ChatNetwork.fits_login hkeeps _ hshort)
    (ChatNetwork.fits_reply hkeeps _)
  obtain ⟨t₂, bytes, hreach₂, hapart₂, hthere₂, hread₂, htaken₂, hnames₂, hlogins₂, hcore₂⟩ :=
    exists_answered hopens (hreach.run hrun₁) hcareful₁ x hopen₁
      (hnext.trans (congrArg some hpkt.symm)) (by rw [ht₁]; exact hready.read)
      (by rw [ht₁]; exact hready.taken)
  have hcareful₂ := ChatNetwork.careful_core hcareful₁ hcore₂ (hwaits _ hbound₁)
  have hdone := hreplied (c₁.arrive [some (.control ⟨0, .ack, numberRead c.curSeqNo fun _ => 0⟩)])
    ⟨0, .ack, numberRead c.curSeqNo fun _ => 0⟩ hbound₁
    (Client.mail_arrive_of_empty hmail _) hseq
  rw [← hitem] at hdone
  obtain ⟨steps₃, texts₃, hrun₃⟩ := run_own hash
    (fun other host' _ hhost' => hcareful₂ other host' hhost') hthere₂ hdone
  have hidle₃ : Worker.Idle ⟨{ c₁.arrive [some x.item] with mail := ⟨[], []⟩ }, none⟩ :=
    ⟨rfl, rfl, hbound₁⟩
  refine ⟨_, _, hreach₂.run hrun₃, hcareful₂.setHost sid hidle₃.tidy,
    (hapart₁.trans hapart₂).trans (apart_setHost t₂ sid _),
    ⟨⟨ChatNetwork.setHost_self _ _ _, hready.ends.client, ?_⟩, hidle₃, ?_, ?_, htaken₂⟩, ?_, ?_, ?_⟩
  · exact (hapart₁.trans hapart₂).connections ▸ hready.ends.server
  · change (host.posted ++ [_]).length = c₁.sent.length
    rw [hsent, List.length_append, List.length_append, hready.handed, hc]
    rfl
  · change t₂.read sid = (host.posted ++ [_]).length
    rw [hread₂, List.length_append]
    rfl
  · rw [hc]
    exact hsessions
  · change t₂.net.server.usernames = _
    rw [hnames₂, husernames, hserver₁]
  · change t₂.net.logins = _
    rw [hlogins₂, hgrants, ht₁]
    rfl

/-- A client joins by a new connection. -/
theorem exists_join (hreach : Reachable (reliable P hash) t) (hcareful : t.net.Careful)
    {handler peer : NetworkHandler} {session peerSession : CryptoSession}
    (hhandler : handler.EstablishedWith session) (hpeer : peer.EstablishedWith peerSession)
    (hkey : peerSession.mKey = session.mKey) :
    ∃ u, Reachable (reliable P hash) u ∧ u.net.Careful ∧
      u.net.server = { t.net.server with
        connections := t.net.server.connections.insert handler } ∧
      u.net.logins = t.net.logins ∧
      u.net.hosts = Function.update t.net.hosts t.net.server.connections.data.length
        (some ⟨peer, ⟨.fresh, none⟩, [], []⟩) ∧
      u.read = t.read := by
  have hstep : ChatNetwork.Step P hash t.net (.join handler peer) _ :=
    ChatNetwork.Step.join hhandler hpeer hkey
  have hfresh : Worker.Tidy ⟨.fresh, none⟩ := Worker.tidy_of_none (by rintro _ _ ⟨⟩)
  have hnext : (reliable P hash).step t (.join handler peer) _ :=
    ⟨⟨_, ⟨hstep, hcareful⟩, trivial, rfl⟩, trivial⟩
  exact ⟨_, hreach.step hnext, hcareful.setHost _ hfresh, rfl, rfl, rfl, rfl⟩

open ChatNetwork (sampleEnds sampleName clear_keepsLength)

/-- Two clients that have just joined. -/
theorem exists_joined : ∃ t, Reachable (reliable .clear fun _ => 0) t ∧ t.net.Careful ∧
    t.net.server = Server.connectedTwice ∧ t.net.logins = [] ∧
    ∀ side, t.Ready (sampleEnds side) ⟨Server.sampleHandler, ⟨.fresh, none⟩, [], []⟩ := by
  obtain ⟨t, ht, htCareful, htServer, htLogins, htHosts, htRead⟩ := exists_join
    (Reachable.of_init rfl : Reachable (reliable .clear fun _ => 0) _) (by rintro _ _ ⟨⟩)
    Server.sampleHandler_established Server.sampleHandler_established rfl
  obtain ⟨u, hu, huCareful, huServer, huLogins, huHosts, huRead⟩ :=
    exists_join ht htCareful Server.sampleHandler_established Server.sampleHandler_established rfl
  have hserver : u.net.server = Server.connectedTwice := by
    rw [huServer, htServer]
    rfl
  refine ⟨u, hu, huCareful, hserver, huLogins.trans htLogins, fun side => ⟨⟨?_, rfl, ?_⟩,
    ⟨rfl, rfl, by rintro _ _ ⟨⟩⟩, rfl, ?_, ?_⟩⟩
  · rw [huHosts, htServer, htHosts]
    cases side <;> rfl
  · rw [hserver]
    exact Server.connectedTwice_isOpen _ (by cases side <;> decide)
  · rw [huRead, htRead]
    rfl
  · intro i sending _ hsending
    rw [hserver] at hsending
    cases hsending

end ChatOrder

end LeakyChat

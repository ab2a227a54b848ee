/-
The server process as a whole: `run` takes in the clients that are waiting, and
then serves a connection that is ready.  What is proved of the runs of the server
holds of it, and the descriptors it has open are those of its connections.
-/
import LeakyChat.ConnectionSetter
import LeakyChat.ServerNames

namespace LeakyChat

open Transition

/-- The descriptor that `close` has closed between two states of a connection; nothing else
changes `mSocket`. -/
def NetworkHandler.closedSocket (states : NetworkHandler × NetworkHandler) : Option Int :=
  if states.2.mSocket = states.1.mSocket then none else some states.1.mSocket

def SocketSet.released (before after : SocketSet) : Finset Int :=
  ((before.data.zip after.data).filterMap NetworkHandler.closedSocket).toFinset

/-- The sockets of the open connections. -/
def SocketSet.sockets (s : SocketSet) : List Int :=
  (s.data.filter (·.connected)).map (·.mSocket)

/-- `Server::run`, in `processConnections` or about to ask for a connection to read; `idx` is
the static of `waitForRead`. -/
structure ServerRun where
  process : ServerProcess
  idx : Nat
  accepting : Bool

namespace ServerRun

inductive Label where
  | accept (result : Int)
  | round
deriving DecidableEq

variable {Cert : Type} (P : Primitives) (A : Authority Cert) (hash : Str → UInt64)
  (listening : Finset Int)

/-- A call of `getConnections`, which is repeated as long as it returns 0, or the rest of the
loop. -/
inductive Step : ServerRun → Label → ServerRun → Prop
  | accept {t : ServerRun} {accepted : Option (Unopened t.process.descriptors)} {clientIP : Str}
      {first : Opening} {turns : Nat → Turn} {n : Nat} {result : Int} {after : ServerProcess}
      (haccepting : t.accepting = true)
      (hcall : ConnectionSetter.getConnections P A t.process accepted clientIP first turns n =
        some (result, after)) :
      Step t (.accept result) { t with process := after, accepting := decide (result = 0) }
  | round {t : ServerRun} {env : ServerEnv} {revents : Nat → Int16} {recv : Recv} {stack : Stack}
      {server : Server} {idx : Nat} (haccepting : t.accepting = false)
      (hround : Server.round P hash env t.idx revents recv stack t.process.server =
        .ok (server, idx)) :
      Step t .round
        { process :=
            { server := server
              descriptors := t.process.descriptors \
                t.process.server.connections.released server.connections }
          idx := idx
          accepting := true }

/-- It starts with a socket that listens, and what the process has open besides. -/
def system : System ServerRun Label where
  init t := t = ⟨⟨.fresh, listening⟩, 0, true⟩
  step := Step P A hash

/-- Each descriptor is one of those the process has started with, or that of one open
connection; a closed connection has none, and no open one is forgotten when the loop asks
whether there is any. -/
structure Accounted (t : ServerRun) : Prop where
  descriptors : ∀ fd, fd ∈ t.process.descriptors ↔
    fd ∈ listening ∨ fd ∈ t.process.server.connections.sockets
  valid : ∀ fd ∈ t.process.server.connections.sockets, 0 ≤ fd ∧ fd ∉ listening
  own : t.process.server.connections.sockets.Nodup
  closed : ∀ handler ∈ t.process.server.connections.data, handler.connected = false →
    handler.mSocket = -1
  active : t.process.server.connections.sockets.length ≤
    t.process.server.connections.numActiveConnections

end ServerRun

namespace SocketSet

theorem filterMap_zip_self (data : List NetworkHandler) :
    (data.zip data).filterMap NetworkHandler.closedSocket = [] := by
  induction data with
  | nil => rfl
  | cons handler data ih =>
      have hsame : NetworkHandler.closedSocket (handler, handler) = none := if_pos rfl
      rw [List.zip_cons_cons, List.filterMap_cons_none hsame, ih]

theorem released_same {before after : SocketSet} (hsame : after.data = before.data) :
    before.released after = ∅ := by
  rw [released, hsame, filterMap_zip_self]
  rfl

/-- The vector around one of the connections. -/
theorem exists_split {s : SocketSet} {sid : SID} {handler : NetworkHandler}
    (hget : s.data[sid]? = some handler) : ∃ front rest, s.data = front ++ handler :: rest ∧
      (s.close sid).data = front ++ handler.close :: rest := by
  obtain ⟨hsid, hhandler⟩ := List.getElem?_eq_some_iff.mp hget
  refine ⟨s.data.take sid, s.data.drop (sid + 1), ?_, ?_⟩
  · rw [← hhandler, List.getElem_cons_drop, List.take_append_drop]
  · rw [close, List.modify_eq_take_cons_drop hsid, hhandler]

theorem sockets_append {s : SocketSet} {front rest : List NetworkHandler}
    {handler : NetworkHandler} (hdata : s.data = front ++ handler :: rest) :
    s.sockets = (front.filter (·.connected)).map (·.mSocket) ++
      ((if handler.connected then [handler.mSocket] else []) ++
        (rest.filter (·.connected)).map (·.mSocket)) := by
  rw [sockets, hdata, List.filter_append, List.map_append, List.filter_cons]
  split <;> rfl

theorem released_close {s : SocketSet} {sid : SID} {handler : NetworkHandler}
    (hget : s.data[sid]? = some handler) :
    s.released (s.close sid) = if handler.mSocket = -1 then ∅ else {handler.mSocket} := by
  obtain ⟨front, rest, hdata, hclosed⟩ := exists_split hget
  rw [released, hdata, hclosed, List.zip_append rfl, List.filterMap_append, filterMap_zip_self,
    List.nil_append, List.zip_cons_cons]
  by_cases hsocket : handler.mSocket = -1
  · have hnone : NetworkHandler.closedSocket (handler, handler.close) = none :=
      if_pos hsocket.symm
    rw [if_pos hsocket, List.filterMap_cons_none hnone, filterMap_zip_self]
    rfl
  · have hsome : NetworkHandler.closedSocket (handler, handler.close) = some handler.mSocket :=
      if_neg (Ne.symm hsocket)
    rw [if_neg hsocket, List.filterMap_cons_some hsome, filterMap_zip_self]
    rfl

/-- Closing a connection. -/
theorem close_of_open {s : SocketSet} {sid : SID} {handler : NetworkHandler}
    (hget : s.data[sid]? = some handler) (hopen : handler.connected = true) :
    ∃ front rest, s.sockets = front ++ handler.mSocket :: rest ∧
      (s.close sid).sockets = front ++ rest := by
  obtain ⟨front, rest, hdata, hclosed⟩ := exists_split hget
  refine ⟨(front.filter (·.connected)).map (·.mSocket),
    (rest.filter (·.connected)).map (·.mSocket), ?_, ?_⟩
  · rw [sockets_append hdata, if_pos hopen]
    rfl
  · rw [sockets_append hclosed]
    rfl

theorem close_of_closed {s : SocketSet} {sid : SID} {handler : NetworkHandler}
    (hget : s.data[sid]? = some handler) (hclosed : handler.connected = false) :
    (s.close sid).sockets = s.sockets := by
  obtain ⟨front, rest, hdata, hafter⟩ := exists_split hget
  rw [sockets_append hdata, sockets_append hafter, hclosed]
  rfl

theorem sockets_insert (s : SocketSet) {handler : NetworkHandler}
    (hopen : handler.connected = true) :
    (s.insert handler).sockets = s.sockets ++ [handler.mSocket] := by
  rw [sockets, insert, List.filter_append, List.map_append, List.filter_cons_of_pos hopen]
  rfl

end SocketSet

namespace Server

variable {P : Primitives} {hash : Str → UInt64} {s t : Server}

/-- All that a round does to the connections: `waitForRead` has counted them, and one of them
may be closed. -/
theorem serve_closes {env : ServerEnv} {idx idx' : Nat} {revents : Nat → Int16} {recv : Recv}
    {stack : Stack} (hserve : serve P hash env idx revents recv stack s = .ok (t, idx')) :
    t.connections.numActiveConnections = s.connections.sockets.length ∧
      (t.connections.data = s.connections.data ∨
        ∃ sid, t.connections.data = (s.connections.close sid).data) := by
  have hcount : (s.connections.waitForRead idx revents).2.1.numActiveConnections =
      s.connections.sockets.length := by
    have hlength : (s.connections.activeConnections revents).length =
        s.connections.sockets.length := by
      simp [SocketSet.activeConnections, SocketSet.sockets]
    unfold SocketSet.waitForRead
    by_cases hnone : (s.connections.activeConnections revents).length = 0
    · rw [if_pos hnone]
      exact hlength
    · rw [if_neg hnone]
      exact hlength
  have hdata := waitForRead_data s.connections idx revents
  unfold serve at hserve
  rcases hread : s.connections.waitForRead idx revents with ⟨found, connections, idx₁⟩
  rw [hread] at hserve hcount hdata
  cases found with
  | error fault => cases hserve
  | ok found =>
      cases found with
      | none =>
          cases hserve
          exact ⟨hcount, Or.inl hdata⟩
      | some sid =>
          simp only at hserve hcount hdata
          cases hget : connections.data[sid]? with
          | none =>
              rw [hget] at hserve
              cases hserve
          | some handler =>
              rcases hreceive : handler.receivePacket P recv stack with ⟨handler', result⟩
              simp only [hget, hreceive] at hserve
              have hgetS : s.connections.data[sid]? = some handler := hdata ▸ hget
              cases result with
              | error fault => cases hserve
              | ok result =>
                  rcases receivePacket_cases hreceive with
                    ⟨rfl, rfl | rfl⟩ | ⟨⟨pkt, rfl⟩, rfl, _⟩
                  · cases hserve
                    exact ⟨hcount, Or.inl ((set_handler connections hget).trans hdata)⟩
                  · cases hserve
                    refine ⟨hcount, Or.inr ⟨sid, ?_⟩⟩
                    rw [SocketSet.close, List.modify_eq_set_getElem?, hgetS, hdata]
                    rfl
                  · simp only [set_handler connections hget] at hserve
                    split at hserve
                    · cases hserve
                    · next handled hhandle =>
                      cases hserve
                      rcases (handlePacket_ok hhandle).1 with hsame | hclosed
                      · rw [hsame]
                        exact ⟨hcount, Or.inl hdata⟩
                      · rw [hclosed]
                        refine ⟨hcount, Or.inr ⟨sid, ?_⟩⟩
                        rw [SocketSet.close, SocketSet.close, hdata]

end Server

namespace ServerRun

variable {Cert : Type} {P : Primitives} {A : Authority Cert} {hash : Str → UInt64}
  {listening : Finset Int} {t t' : ServerRun}

/-- What `getConnections` can do: nothing, or a connection more, with the descriptor that has
been accepted. -/
theorem getConnections_cases {s after : ServerProcess}
    {accepted : Option (Unopened s.descriptors)} {clientIP : Str} {first : Opening}
    {turns : Nat → Turn} {n : Nat} {result : Int}
    (hcall : ConnectionSetter.getConnections P A s accepted clientIP first turns n =
      some (result, after)) :
    after = s ∨ ∃ (clientSocket : Unopened s.descriptors) (handler : NetworkHandler),
      handler.mSocket = clientSocket.1 ∧ handler.connected = true ∧
      (∃ session, handler.EstablishedWith session) ∧
      after = { server := { s.server with connections := s.server.connections.insert handler }
                descriptors := insert clientSocket.1 s.descriptors } := by
  by_cases hconnects : ∃ clientSocket, accepted = some clientSocket ∧
      (ConnectionSetter.handshake P A clientSocket.1 clientIP first turns n).phase = .returned 0
  · obtain ⟨clientSocket, rfl, hphase⟩ := hconnects
    rw [ConnectionSetter.getConnections_connected hphase, Option.some.injEq,
      Prod.mk.injEq] at hcall
    obtain ⟨session, hhandler⟩ :=
      Handshake.Good.establishedWith (ConnectionSetter.handshake_good clientSocket.1) hphase
    exact Or.inr ⟨clientSocket, _, ConnectionSetter.handshake_socket clientSocket.1,
      (of_decide_eq_true hhandler.ready).1, ⟨session, hhandler⟩, hcall.2.symm⟩
  · refine Or.inl (ConnectionSetter.getConnections_unchanged hcall ?_)
    rintro clientSocket rfl hphase
    exact hconnects ⟨clientSocket, rfl, hphase⟩

theorem Accounted.accept (ht : Accounted listening t) {handler : NetworkHandler}
    (hsocket : 0 ≤ handler.mSocket ∧ handler.mSocket ∉ t.process.descriptors)
    (hopen : handler.connected = true) (accepting : Bool) :
    Accounted listening { t with
      process :=
        { server := { t.process.server with
            connections := t.process.server.connections.insert handler }
          descriptors := insert handler.mSocket t.process.descriptors }
      accepting := accepting } := by
  have hnew := (not_congr (ht.descriptors handler.mSocket)).mp hsocket.2
  rw [not_or] at hnew
  have hsockets := t.process.server.connections.sockets_insert hopen
  constructor
  · intro fd
    simp only [hsockets, Finset.mem_insert, List.mem_append, List.mem_singleton,
      ht.descriptors fd]
    tauto
  · intro fd hfd
    rw [hsockets, List.mem_append, List.mem_singleton] at hfd
    rcases hfd with hold | rfl
    · exact ht.valid fd hold
    · exact ⟨hsocket.1, hnew.1⟩
  · rw [hsockets, List.nodup_append]
    refine ⟨ht.own, List.nodup_singleton _, ?_⟩
    rintro fd hfd _ hlast rfl
    rw [List.mem_singleton.mp hlast] at hfd
    exact hnew.2 hfd
  · intro other hother hclosed
    rcases List.mem_append.mp hother with hold | hlast
    · exact ht.closed other hold hclosed
    · rw [List.mem_singleton.mp hlast, hopen] at hclosed
      cases hclosed
  · rw [hsockets, List.length_append]
    exact Nat.succ_le_succ ht.active

/-- A round keeps the account if the sockets of the connections it has closed, and no others,
are released. -/
theorem Accounted.round (ht : Accounted listening t) {server : Server} {idx : Nat}
    {released : Finset Int}
    (hreleased : t.process.server.connections.released server.connections = released)
    (hfewer : server.connections.sockets.Sublist t.process.server.connections.sockets)
    (hkept : ∀ fd, fd ∈ server.connections.sockets ↔
      fd ∈ t.process.server.connections.sockets ∧ fd ∉ released)
    (hvalid : ∀ fd ∈ released, fd ∉ listening)
    (hclosed : ∀ handler ∈ server.connections.data, handler.connected = false →
      handler.mSocket = -1)
    (hactive : server.connections.sockets.length ≤ server.connections.numActiveConnections) :
    Accounted listening ⟨⟨server, t.process.descriptors \
      t.process.server.connections.released server.connections⟩, idx, true⟩ where
  descriptors fd := by
    have hdescriptors := ht.descriptors fd
    have hhere := hkept fd
    have hapart := hvalid fd
    simp only [hreleased, Finset.mem_sdiff]
    tauto
  valid fd hfd := ht.valid fd ((hkept fd).mp hfd).1
  own := ht.own.sublist hfewer
  closed := hclosed
  active := hactive

/-- A round after which the connections are as they were. -/
theorem Accounted.same (ht : Accounted listening t) {server : Server} {idx : Nat}
    (hactive : t.process.server.connections.sockets.length ≤
      server.connections.numActiveConnections)
    (hdata : server.connections.data = t.process.server.connections.data) :
    Accounted listening ⟨⟨server, t.process.descriptors \
      t.process.server.connections.released server.connections⟩, idx, true⟩ := by
  have hsockets : server.connections.sockets = t.process.server.connections.sockets := by
    rw [SocketSet.sockets, hdata, SocketSet.sockets]
  refine ht.round (SocketSet.released_same hdata) (hsockets ▸ List.Sublist.refl _) (fun fd => ?_)
    (fun fd hfd => absurd hfd (Finset.notMem_empty fd)) (hdata ▸ ht.closed) (hsockets ▸ hactive)
  rw [hsockets]
  exact (and_iff_left (Finset.notMem_empty fd)).symm

/-- A round that has closed a connection. -/
theorem Accounted.close (ht : Accounted listening t) {server : Server} {idx : Nat} {sid : SID}
    (hactive : t.process.server.connections.sockets.length ≤
      server.connections.numActiveConnections)
    (hdata : server.connections.data = (t.process.server.connections.close sid).data) :
    Accounted listening ⟨⟨server, t.process.descriptors \
      t.process.server.connections.released server.connections⟩, idx, true⟩ := by
  cases hget : t.process.server.connections.data[sid]? with
  | none =>
      refine ht.same hactive (hdata.trans ?_)
      rw [SocketSet.close, List.modify_eq_self (List.getElem?_eq_none_iff.mp hget)]
  | some handler =>
      have hsockets : server.connections.sockets =
          (t.process.server.connections.close sid).sockets := by
        rw [SocketSet.sockets, hdata, SocketSet.sockets]
      have hreleased : t.process.server.connections.released server.connections =
          if handler.mSocket = -1 then ∅ else {handler.mSocket} := by
        rw [← SocketSet.released_close hget, SocketSet.released, hdata, SocketSet.released]
      have hclosed : ∀ other ∈ server.connections.data, other.connected = false →
          other.mSocket = -1 := by
        obtain ⟨front, rest, hbefore, hafter⟩ := SocketSet.exists_split hget
        intro other hother hother'
        rw [hdata, hafter] at hother
        have hthere := ht.closed other
        rw [hbefore] at hthere
        rcases List.mem_append.mp hother with hfront | hrest
        · exact hthere (List.mem_append_left _ hfront) hother'
        · rcases List.mem_cons.mp hrest with rfl | hrest
          · rfl
          · exact hthere (List.mem_append_right _ (List.mem_cons_of_mem _ hrest)) hother'
      cases hopen : handler.connected with
      | false =>
          have hsocket := ht.closed handler (List.mem_of_getElem? hget) hopen
          rw [if_pos hsocket] at hreleased
          rw [SocketSet.close_of_closed hget hopen] at hsockets
          refine ht.round hreleased (hsockets ▸ List.Sublist.refl _) (fun fd => ?_)
            (fun fd hfd => absurd hfd (Finset.notMem_empty fd)) hclosed (hsockets ▸ hactive)
          rw [hsockets]
          exact (and_iff_left (Finset.notMem_empty fd)).symm
      | true =>
          obtain ⟨front, rest, hbefore, hafter⟩ := SocketSet.close_of_open hget hopen
          rw [hafter] at hsockets
          have hmem : handler.mSocket ∈ t.process.server.connections.sockets := by
            rw [hbefore]
            exact List.mem_append_right _ List.mem_cons_self
          obtain ⟨hnonneg, hapart⟩ := ht.valid _ hmem
          rw [if_neg (by omega)] at hreleased
          have hsub : (front ++ rest).Sublist (front ++ handler.mSocket :: rest) :=
            (List.Sublist.refl front).append (List.sublist_cons_self _ rest)
          have hown := ht.own
          rw [hbefore] at hown
          refine ht.round hreleased (hsockets ▸ hbefore ▸ hsub) (fun fd => ?_) (fun fd hfd => ?_)
            hclosed ?_
          · have hnodup := List.nodup_middle.mp hown
            have hother := (List.nodup_cons.mp hnodup).1
            rw [hsockets, hbefore, Finset.mem_singleton, List.mem_append, List.mem_append,
              List.mem_cons]
            refine ⟨fun hthere => ⟨hthere.imp_right Or.inr, ?_⟩, by tauto⟩
            rintro rfl
            exact hother (List.mem_append.mpr hthere)
          · rw [Finset.mem_singleton.mp hfd]
            exact hapart
          · rw [hsockets]
            rw [hbefore] at hactive
            exact hsub.length_le.trans hactive

theorem accounted_step (ht : Accounted listening t) {label : Label}
    (hstep : Step P A hash t label t') : Accounted listening t' := by
  cases hstep with
  | @accept accepted clientIP first turns n result after haccepting hcall =>
      rcases getConnections_cases hcall with rfl | ⟨clientSocket, handler, hsocket, hopen, _, rfl⟩
      · exact ⟨ht.descriptors, ht.valid, ht.own, ht.closed, ht.active⟩
      · rw [← hsocket]
        exact ht.accept (hsocket ▸ clientSocket.2) hopen _
  | @round env revents recv stack server idx haccepting hround =>
      unfold Server.round at hround
      by_cases hactive : t.process.server.connections.hasActive = true
      · rw [if_pos hactive] at hround
        obtain ⟨hcounted, hsame | ⟨sid, hclosed⟩⟩ := Server.serve_closes hround
        · exact ht.same hcounted.ge hsame
        · exact ht.close hcounted.ge hclosed
      · rw [if_neg hactive] at hround
        cases hround
        exact ht.same ht.active rfl

/-- A step of the process is a run of the server. -/
theorem server_step {label : Label} (hstep : Step P A hash t label t') (logins : Server.Logins) :
    ∃ labels logins', Run (Server.system P hash) (t.process.server, logins) labels
      (t'.process.server, logins') := by
  cases hstep with
  | accept haccepting hcall =>
      rcases getConnections_cases hcall with rfl | ⟨_, _, _, _, ⟨session, hhandler⟩, rfl⟩
      · exact ⟨_, _, Run.nil _⟩
      · exact ⟨_, _, Run.cons ⟨Server.Step.connect hhandler, rfl⟩ (Run.nil _)⟩
  | round haccepting hround => exact Server.round_run hround

/-- However clients connect, their handshakes go and their connections end: the server is in a
state that its own runs reach, and each descriptor the process has open is one of those it has
started with or that of one open connection. -/
theorem accounted_of_reachable (hreach : Reachable (system P A hash listening) t) :
    (∃ logins, Reachable (Server.system P hash) (t.process.server, logins)) ∧
      Accounted listening t := by
  refine hreach.invariant (P := fun t =>
    (∃ logins, Reachable (Server.system P hash) (t.process.server, logins)) ∧
      Accounted listening t) ?_ ?_
  · rintro _ rfl
    refine ⟨⟨[], Reachable.of_init rfl⟩, ?_, ?_, List.nodup_nil, ?_, Nat.le_refl 0⟩
    · exact fun fd => (or_iff_left List.not_mem_nil).symm
    · rintro _ ⟨⟩
    · rintro _ ⟨⟩
  · rintro s label u ⟨⟨logins, hserver⟩, hs⟩ hstep
    obtain ⟨labels, logins', hrun⟩ := server_step hstep logins
    obtain ⟨start, before, hinit, hbefore⟩ := hserver
    exact ⟨⟨logins', start, before ++ labels, hinit, hbefore.append hrun⟩, accounted_step hs hstep⟩

/-- The only connection is asked, and has ended. -/
theorem round_closes {handler : NetworkHandler} (hready : handler.ready = true) (env : ServerEnv)
    (stack : Stack) :
    Server.round P hash env 0 (fun _ => 1) .closed stack
        { Server.fresh with connections := ⟨[handler], 1⟩ } =
      .ok ({ Server.fresh with connections := ⟨[handler.close], 1⟩ }, 0) := by
  have hconnected : handler.connected = true := (of_decide_eq_true hready).1
  have hwait : (SocketSet.mk [handler] 1).waitForRead 0 (fun _ => 1) =
      (.ok (some 0), ⟨[handler], 1⟩, 0) := by
    simp [SocketSet.waitForRead, SocketSet.activeConnections, hconnected, RoundRobin.scan,
      SocketSet.probe]
  have hactive : (SocketSet.mk [handler] 1).hasActive = true := rfl
  rw [Server.round, if_pos hactive, Server.serve, hwait]
  simp [NetworkHandler.receivePacket, hready]

/-- A client connects on descriptor 3, and completes its handshake. -/
theorem exists_accepted : ∃ (turns : Nat → Turn) (handler : NetworkHandler),
    handler.ready = true ∧ handler.mSocket = 3 ∧
    ConnectionSetter.getConnections .clear Network.sampleAuthority ⟨.fresh, {4}⟩
      (some ⟨3, by decide, by decide⟩) .empty ⟨Network.undisturbed (Block.zero 32) 0 0, false⟩
      turns 2 = some (0, ⟨{ Server.fresh with connections := ⟨[handler], 1⟩ }, {3, 4}⟩) := by
  obtain ⟨turns, hturns⟩ : ∃ turns : Nat → Turn, turns = fun n => if n = 0 then
      ⟨⟨Network.undisturbed (Block.zero 32) 3
        (strBytes Network.sampleCredentials.signature).length, false⟩,
        .chunk (vectorChunk (challengeOf (Block.zero 32)) NetworkHandler.sampleChallenge_fits)⟩
      else ⟨⟨Network.undisturbed (Block.zero 32) 0 256, false⟩,
        .chunk (Primitives.clear.publicKey 2).chunk⟩ := ⟨_, rfl⟩
  have hopening : ServerHandshake.opening Network.sampleAuthority
      (NetworkHandler.fresh.setSocket 3) .empty
      ⟨Network.undisturbed (Block.zero 32) 0 0, false⟩ =
        Network.serverCertified Network.sampleCredentials Network.sampleHandler .empty := by
    rw [ServerHandshake.opening, Handshake.sends_whole]
    exact Network.start_server Network.sampleCredentials _ _
  have hchallenge : ServerHandshake.turn .clear Network.sampleAuthority
      (Network.serverCertified Network.sampleCredentials Network.sampleHandler .empty) (turns 0) =
        Network.serverKeyed Network.sampleCredentials Network.sampleHandler .empty 3 := by
    rw [hturns, ServerHandshake.turn]
    exact Handshake.sends_whole.trans (Network.receive_challenge Network.sampleCredentials _ _ _ _)
  have hkeys : ServerHandshake.turn .clear Network.sampleAuthority
      (Network.serverKeyed Network.sampleCredentials Network.sampleHandler .empty 3) (turns 1) =
        Network.serverEstablished .clear Network.sampleCredentials Network.sampleHandler .empty 3
          (Primitives.clear.publicKey 2) := by
    rw [hturns, ServerHandshake.turn]
    exact Handshake.sends_whole.trans (Network.server_publicKey Network.sampleCredentials _ _ _ _)
  have hwhole : ConnectionSetter.handshake .clear Network.sampleAuthority 3 .empty
      ⟨Network.undisturbed (Block.zero 32) 0 0, false⟩ turns 2 =
        Network.serverEstablished .clear Network.sampleCredentials Network.sampleHandler .empty 3
          (Primitives.clear.publicKey 2) := by
    change ServerHandshake.turn .clear Network.sampleAuthority (ServerHandshake.turn .clear
      Network.sampleAuthority (ServerHandshake.opening Network.sampleAuthority _ _ _) (turns 0))
        (turns 1) = _
    rw [hopening, hchallenge, hkeys]
  obtain ⟨handler, hhandler⟩ : ∃ handler, handler = (Network.serverEstablished .clear
      Network.sampleCredentials Network.sampleHandler .empty 3
        (Primitives.clear.publicKey 2)).handler := ⟨_, rfl⟩
  refine ⟨turns, handler, by rw [hhandler]; rfl, by rw [hhandler]; rfl, ?_⟩
  refine (ConnectionSetter.getConnections_connected (by rw [hwhole]; rfl)).trans ?_
  rw [hwhole, ← hhandler]
  rfl

/-- The process listens on descriptor 4 and accepts a client on descriptor 3, which
then goes. -/
theorem accounted_of_reachable_sample : ∃ t u : ServerRun, ∃ handler : NetworkHandler,
    Reachable (system .clear Network.sampleAuthority (fun _ => 0) {4}) t ∧
    t.process.descriptors = {3, 4} ∧ t.process.server.connections.data = [handler] ∧
    Run (system .clear Network.sampleAuthority (fun _ => 0) {4}) t [.accept (-1), .round] u ∧
    u.process.descriptors = {4} ∧ u.process.server.connections.data = [handler.close] ∧
    Accounted {4} t ∧ Accounted {4} u := by
  obtain ⟨turns, handler, hready, hsocket, hcall⟩ := exists_accepted
  have haccept : Step .clear Network.sampleAuthority (fun _ => 0) ⟨⟨.fresh, {4}⟩, 0, true⟩ _ _ :=
    Step.accept rfl hcall
  have hreach : Reachable (system .clear Network.sampleAuthority (fun _ => 0) {4}) _ :=
    (Reachable.of_init rfl).step haccept
  have hnone : ConnectionSetter.getConnections .clear Network.sampleAuthority
      ⟨{ Server.fresh with connections := ⟨[handler], 1⟩ }, {3, 4}⟩ none .empty
      ⟨Network.undisturbed (Block.zero 32) 0 0, false⟩ turns 0 = some (-1, _) := rfl
  have hends : Run (system .clear Network.sampleAuthority (fun _ => 0) {4})
      ⟨⟨{ Server.fresh with connections := ⟨[handler], 1⟩ }, {3, 4}⟩, 0, true⟩
      [.accept (-1), .round] _ :=
    Run.cons (Step.accept rfl hnone)
      (Run.cons (Step.round rfl (round_closes hready Server.sampleEnv fun _ => 0)) (Run.nil _))
  refine ⟨_, _, handler, hreach, rfl, rfl, hends, ?_, rfl, (accounted_of_reachable hreach).2,
    (accounted_of_reachable (hreach.run hends)).2⟩
  have hget : (SocketSet.mk [handler] 1).data[0]? = some handler := rfl
  have hreleased : (SocketSet.mk [handler] 1).released ⟨[handler.close], 1⟩ = {3} := by
    rw [← hsocket]
    exact (SocketSet.released_close hget).trans (if_neg (by rw [hsocket]; decide))
  change ({3, 4} : Finset Int) \ (SocketSet.mk [handler] 1).released ⟨[handler.close], 1⟩ = {4}
  rw [hreleased]
  decide

end ServerRun

end LeakyChat

/-
The server: who is connected, under which name each connection has logged in,
and what it does with a packet from one of them.
-/
import LeakyChat.Library.Program
import LeakyChat.Library.Transition
import LeakyChat.SocketMap

namespace LeakyChat

open Transition

/-- A packet handed to the `sendPacket` of a connection, and the bytes that
went to its socket. -/
structure Sending where
  sid : SID
  packet : Packet
  record : Option (List UInt8)

/-- `sent` is everything handed to `sendPacket` so far. -/
structure Server where
  connections : SocketSet
  usernames : IndexedSocketMap Str
  sent : List Sending

/-- What a handler finds outside: the nonce, what `send` returns, and what the
`seq` of a reply, which nobody sets, holds. -/
structure ServerEnv where
  nonce : Nonce
  bytesSent : Int
  replySeq : SequenceNo

abbrev ServerM := StateT Server (Except Fault)

namespace SocketSet

/-- `connections[sid].close()`. -/
def close (s : SocketSet) (sid : SID) : SocketSet :=
  { s with data := s.data.modify sid NetworkHandler.close }

/-- The socket id is that of an open connection. -/
def IsOpen (s : SocketSet) (sid : SID) : Prop :=
  ∃ nh, s.data[sid]? = some nh ∧ nh.connected = true

theorem IsOpen.lt {s : SocketSet} {sid : SID} (hopen : s.IsOpen sid) : sid < s.data.length := by
  obtain ⟨nh, hget, _⟩ := hopen
  exact (List.getElem?_eq_some_iff.mp hget).1

end SocketSet

namespace Server

/-- `Server()`. -/
def fresh : Server := ⟨.empty, .empty, []⟩

section

variable (P : Primitives) (hash : Str → UInt64) (env : ServerEnv)

/-- `connections[sid].sendPacket(pkt)`. -/
def sendPacket (sid : SID) (pkt : Packet) : ServerM PUnit := fun s =>
  match s.connections.data[sid]? with
  | none => .error .undefined
  | some handler =>
      match handler.sendPacket P env.nonce pkt env.bytesSent with
      | .error fault => .error fault
      | .ok (_, record) => .ok (⟨⟩, { s with sent := s.sent ++ [⟨sid, pkt, record⟩] })

/-- `usernames[sid]`. -/
def username (sid : SID) : ServerM Str := fun s =>
  match s.usernames.mData[sid]? with
  | none => .error .undefined
  | some name => .ok (name, s)

/-- The part of `handleLogin` before it replies. -/
def login (sid : SID) (requestedUname : Str) (s : Server) : ControlField × Server :=
  if s.usernames.contains hash requestedUname then (.nack, s)
  else (.ack, { s with usernames := s.usernames.insert hash sid requestedUname })

def handleLogin (sid : SID) (pkt : FieldReqPacket) : ServerM PUnit := do
  let control ← modifyGet (login hash sid pkt.mField)
  sendPacket P env sid (.control ⟨env.replySeq, control, pkt.seq⟩)

/-- `UserListPacket(usernames.data())`. -/
def userListPacket (s : Server) : Except Fault UserListPacket :=
  match s.usernames.data s.connections with
  | .error fault => .error fault
  | .ok names =>
      if hlength : names.length ≤ maxSize / 32 then .ok ⟨env.replySeq, ⟨names, hlength⟩⟩
      else .error .lengthError

def getUserList (sid : SID) : ServerM PUnit := fun s =>
  match userListPacket env s with
  | .error fault => .error fault
  | .ok reply => sendPacket P env sid (.userList reply) s

def handleQuit (sid : SID) (pkt : RequestPacket) : ServerM PUnit := do
  sendPacket P env sid (.control ⟨env.replySeq, .ack, pkt.seq⟩)
  modify fun s => { s with connections := s.connections.close sid }

def handleMessage (sid : SID) (pkt : MessagePacket) : ServerM PUnit := do
  let sender ← username sid
  let pkt := pkt.setSender sender
  match (← get).usernames.getSID hash pkt.mReceiver with
  | none => return ⟨⟩
  | some rcvr => sendPacket P env rcvr (.message pkt)

/-- The `switch` of `run`; every field request is taken for a login. -/
def handlePacket (sid : SID) : Packet → ServerM PUnit
  | .fieldReq pkt => handleLogin P hash env sid pkt
  | .request pkt =>
      if pkt.mRequestType = .disconnect then handleQuit P env sid pkt
      else getUserList P env sid
  | .message pkt => handleMessage P hash env sid pkt
  | _ => return ⟨⟩

theorem handlePacket_quit (sid : SID) {pkt : RequestPacket}
    (hquit : pkt.mRequestType = .disconnect) :
    handlePacket P hash env sid (.request pkt) = handleQuit P env sid pkt := if_pos hquit

theorem handlePacket_list (sid : SID) {pkt : RequestPacket}
    (hlist : pkt.mRequestType ≠ .disconnect) :
    handlePacket P hash env sid (.request pkt) = getUserList P env sid := if_neg hlist

/-- The loop of `run` once `waitForRead` is called; `idx` is its static. -/
def serve (idx : Nat) (revents : Nat → Int16) (recv : Recv) (stack : Stack) (s : Server) :
    Except Fault (Server × Nat) :=
  match s.connections.waitForRead idx revents with
  | (.error fault, _, _) => .error fault
  | (.ok none, connections, idx) => .ok ({ s with connections := connections }, idx)
  | (.ok (some sid), connections, idx) =>
      match connections.data[sid]? with
      | none => .error .undefined
      | some handler =>
          let received := handler.receivePacket P recv stack
          let s := { s with connections :=
            { connections with data := connections.data.set sid received.1 } }
          match received.2 with
          | .error fault => .error fault
          | .ok none => .ok (s, idx)
          | .ok (some pkt) =>
              match handlePacket P hash env sid pkt s with
              | .error fault => .error fault
              | .ok (_, s) => .ok (s, idx)

/-- A round of the loop of `run`, after `handleConnect`. -/
def round (idx : Nat) (revents : Nat → Int16) (recv : Recv) (stack : Stack) (s : Server) :
    Except Fault (Server × Nat) :=
  if s.connections.hasActive then serve P hash env idx revents recv stack s
  else .ok (s, idx)

end

/-- What can happen next: a connection whose handshake succeeded is added, the
open connections are polled, a packet from one of them is handled, or one
drops. -/
inductive Label where
  | connect (handler : NetworkHandler)
  | wait (idx : Nat) (revents : Nat → Int16)
  | packet (env : ServerEnv) (sid : SID) (pkt : Packet)
  | drop (sid : SID)

/-- The logins granted so far, the last one first. -/
abbrev Logins := List (SID × Str)

/-- The name under which a connection has logged in last. -/
def registered (logins : Logins) (sid : SID) : Option Str :=
  (logins.find? fun login => login.1 = sid).map (·.2)

/-- The login a step grants. -/
def grants (hash : Str → UInt64) (s : Server) : Label → Logins
  | .packet _ sid (.fieldReq pkt) =>
      if s.usernames.contains hash pkt.mField then [] else [(sid, pkt.mField)]
  | _ => []

variable (P : Primitives) (hash : Str → UInt64)

inductive Step : Server → Label → Server → Prop
  | connect {s : Server} {handler : NetworkHandler} {session : CryptoSession}
      (hhandler : handler.EstablishedWith session) :
      Step s (.connect handler) { s with connections := s.connections.insert handler }
  | wait {s : Server} (idx : Nat) (revents : Nat → Int16) :
      Step s (.wait idx revents)
        { s with connections := (s.connections.waitForRead idx revents).2.1 }
  | packet {s t : Server} {env : ServerEnv} {sid : SID} {pkt : Packet}
      (hopen : s.connections.IsOpen sid)
      (hrun : handlePacket P hash env sid pkt s = .ok (⟨⟩, t)) :
      Step s (.packet env sid pkt) t
  | drop {s : Server} (sid : SID) :
      Step s (.drop sid) { s with connections := s.connections.close sid }

/-- Runs of the server, which remember the logins granted. -/
def system : System (Server × Logins) Label where
  init s := s = (fresh, [])
  step s label t := Step P hash s.1 label t.1 ∧ t.2 = grants hash s.1 label ++ s.2

variable {P hash}

theorem waitForRead_data (connections : SocketSet) (idx : Nat) (revents : Nat → Int16) :
    (connections.waitForRead idx revents).2.1.data = connections.data := by
  unfold SocketSet.waitForRead
  by_cases hnone : (connections.activeConnections revents).length = 0
  · rw [if_pos hnone]
  · rw [if_neg hnone]

/-- How `receivePacket` can turn out: nothing happens, the connection closes, or
an open connection has delivered a packet. -/
theorem receivePacket_cases {handler handler' : NetworkHandler} {recv : Recv} {stack : Stack}
    {result : Option Packet}
    (hreceive : handler.receivePacket P recv stack = (handler', .ok result)) :
    result = none ∧ (handler' = handler ∨ handler' = handler.close) ∨
      (∃ pkt, result = some pkt) ∧ handler' = handler ∧ handler.connected = true := by
  unfold NetworkHandler.receivePacket at hreceive
  by_cases hready : handler.ready = true
  · rw [if_pos hready] at hreceive
    cases recv with
    | idle =>
        cases hreceive
        exact Or.inl ⟨rfl, Or.inl rfl⟩
    | closed =>
        cases hreceive
        exact Or.inl ⟨rfl, Or.inr rfl⟩
    | chunk bytes =>
        cases hincoming : handler.incoming P bytes.1 stack with
        | ok pkt =>
            simp only [hincoming] at hreceive
            cases hreceive
            exact Or.inr ⟨⟨pkt, rfl⟩, rfl, (of_decide_eq_true hready).1⟩
        | error fault =>
            cases fault with
            | undefined =>
                simp only [hincoming] at hreceive
                cases hreceive
            | _ =>
                simp only [hincoming] at hreceive
                cases hreceive
                exact Or.inl ⟨rfl, Or.inl rfl⟩
  · rw [if_neg hready] at hreceive
    cases hreceive
    exact Or.inl ⟨rfl, Or.inl rfl⟩

section

variable {s t : Server} {sid : SID} {handler : NetworkHandler} {logins : Logins}

theorem set_handler (connections : SocketSet) (hget : connections.data[sid]? = some handler) :
    connections.data.set sid handler = connections.data := by
  obtain ⟨hsid, hhandler⟩ := List.getElem?_eq_some_iff.mp hget
  rw [← hhandler, List.set_getElem_self]

/-- A connection from which no packet comes is as it was, or drops. -/
theorem silent_run (hget : s.connections.data[sid]? = some handler) {handler' : NetworkHandler}
    (hhandler : handler' = handler ∨ handler' = handler.close) :
    ∃ labels, Run (system P hash) (s, logins) labels
      ({ s with connections :=
        { s.connections with data := s.connections.data.set sid handler' } }, logins) := by
  rcases hhandler with rfl | rfl
  · rw [set_handler s.connections hget]
    exact ⟨_, Run.nil _⟩
  · have hclose : s.connections.data.set sid handler.close =
        s.connections.data.modify sid NetworkHandler.close := by
      rw [List.modify_eq_set_getElem?, hget]
      rfl
    rw [hclose]
    exact ⟨_, Run.cons ⟨Step.drop sid, rfl⟩ (Run.nil _)⟩

theorem packet_run (hget : s.connections.data[sid]? = some handler)
    (hconnected : handler.connected = true) {env : ServerEnv} {pkt : Packet}
    (hhandle : handlePacket P hash env sid pkt { s with connections :=
      { s.connections with data := s.connections.data.set sid handler } } = .ok (⟨⟩, t)) :
    ∃ labels logins', Run (system P hash) (s, logins) labels (t, logins') := by
  rw [set_handler s.connections hget] at hhandle
  have hopen : s.connections.IsOpen sid := ⟨handler, hget, hconnected⟩
  exact ⟨_, _, Run.cons ⟨Step.packet hopen hhandle, rfl⟩ (Run.nil _)⟩

end

/-- What is served is a run. -/
theorem serve_run {env : ServerEnv} {idx idx' : Nat} {revents : Nat → Int16} {recv : Recv}
    {stack : Stack} {s t : Server} {logins : Logins}
    (hserve : serve P hash env idx revents recv stack s = .ok (t, idx')) :
    ∃ labels logins', Run (system P hash) (s, logins) labels (t, logins') := by
  have hwait : (system P hash).step (s, logins) (.wait idx revents)
      ({ s with connections := (s.connections.waitForRead idx revents).2.1 }, logins) :=
    ⟨Step.wait idx revents, rfl⟩
  unfold serve at hserve
  rcases hread : s.connections.waitForRead idx revents with ⟨found, connections, idx₁⟩
  rw [hread] at hserve hwait
  cases found with
  | error fault => cases hserve
  | ok found =>
      cases found with
      | none =>
          cases hserve
          exact ⟨_, _, Run.cons hwait (Run.nil _)⟩
      | some sid =>
          simp only at hserve hwait
          cases hget : connections.data[sid]? with
          | none =>
              rw [hget] at hserve
              cases hserve
          | some handler =>
              rcases hreceive : handler.receivePacket P recv stack with ⟨handler', result⟩
              simp only [hget, hreceive] at hserve
              cases result with
              | error fault => cases hserve
              | ok result =>
                  rcases receivePacket_cases hreceive with
                    ⟨rfl, hsilent⟩ | ⟨⟨pkt, rfl⟩, rfl, hconnected⟩
                  · cases hserve
                    obtain ⟨labels, hrun⟩ :=
                      silent_run (s := { s with connections := connections }) hget hsilent
                    exact ⟨_, _, Run.cons hwait hrun⟩
                  · simp only at hserve
                    split at hserve
                    · cases hserve
                    · next handled hhandle =>
                      cases hserve
                      obtain ⟨labels, logins', hrun⟩ := packet_run
                        (s := { s with connections := connections }) hget hconnected hhandle
                      exact ⟨_, _, Run.cons hwait hrun⟩

/-- A round of the server's loop that completes is a run. -/
theorem round_run {env : ServerEnv} {idx idx' : Nat} {revents : Nat → Int16} {recv : Recv}
    {stack : Stack} {s t : Server} {logins : Logins}
    (hround : round P hash env idx revents recv stack s = .ok (t, idx')) :
    ∃ labels logins', Run (system P hash) (s, logins) labels (t, logins') := by
  unfold round at hround
  by_cases hactive : s.connections.hasActive = true
  · rw [if_pos hactive] at hround
    exact serve_run hround
  · rw [if_neg hactive] at hround
    cases hround
    exact ⟨_, _, Run.nil _⟩

end Server

end LeakyChat

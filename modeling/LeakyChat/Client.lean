/-
The client: its requests to the server and to its peers, the waits between
them, and its receive loop.
-/
import LeakyChat.E2ESession
import LeakyChat.Library.SelectiveReceive
import LeakyChat.Packet

namespace LeakyChat

open Program
open SelectiveReceive (Mailbox Verdict receive)

/-- Why an operation does not complete: an exception, or a wait that goes on. -/
inductive Interrupt where
  | threw (fault : Fault)
  | waiting

/-- `mail` is `pktQueue` together with what the calls of `receivePacket` to
come return; `sent` is every packet handed to `sendPacket` so far. -/
structure Client where
  connected : Str
  mail : Mailbox Packet
  curSeqNo : SequenceNo
  mE2ESessions : Str → Option E2ESession
  sent : List Packet

/-- What an operation finds outside: how often it may poll, what `sendPacket`
returns where the client looks at it, the clock, random numbers and whatever
uninitialised memory holds. -/
structure Env where
  polls : Nat
  sendResult : Int
  now : UInt64
  timestamp : UInt64
  exponent : Nat
  initExponent : Nat
  freshExponent : Nat
  oldExponent : Nat
  nonce : Nonce
  initStack : Stack
  ackStack : Stack
  msgStack : Stack

abbrev ClientM := StateT Client (Except Interrupt)

namespace Client

/-- `Client()`. -/
def fresh : Client := ⟨.empty, ⟨[], []⟩, 0, fun _ => none, []⟩

/-- Let an exception out. -/
def attempt {α : Type} : Except Fault α → ClientM α
  | .ok a => pure a
  | .error fault => throw (.threw fault)

/-- `serverSocket.sendPacket(pkt)`. -/
def sendPacket (env : Env) (pkt : Packet) : ClientM Int := do
  modify fun c => { c with sent := c.sent ++ [pkt] }
  return env.sendResult

/-- `curSeqNo++`. -/
def nextSeqNo : ClientM SequenceNo := do
  let seq := (← get).curSeqNo
  modify fun c => { c with curSeqNo := c.curSeqNo + 1 }
  return seq

def setSession (c : Client) (peer : Str) (session : E2ESession) : Client :=
  { c with mE2ESessions := Function.update c.mE2ESessions peer session }

def putSession (peer : Str) (session : E2ESession) : ClientM Unit :=
  modify fun c => c.setSession peer session

/-- `mE2ESessions[peer]`, which makes a session where there is none. -/
def getSession (env : Env) (peer : Str) : ClientM E2ESession := do
  match (← get).mE2ESessions peer with
  | some session => return session
  | none => do
      let session := E2ESession.fresh env.freshExponent env.oldExponent
      putSession peer session
      return session

/-- Call a method of `mE2ESessions[peer]`. -/
def onSession {α : Type} (env : Env) (peer : Str)
    (call : E2ESession → E2ESession × Except Fault α) : ClientM α := do
  let session ← getSession env peer
  let (session, result) := call session
  putSession peer session
  attempt result

def poll : ClientM (Option Packet) :=
  modifyGet fun c => (c.mail.poll.1, { c with mail := c.mail.poll.2 })

/-- The loop the waits have in common. -/
def await (polls : Nat) (verdict : Packet → Verdict) : ClientM Packet := fun c =>
  match receive verdict polls c.mail with
  | some (pkt, mail) => .ok (pkt, { c with mail := mail })
  | none => .error .waiting

def waitForPred (polls : Nat) (pred : Packet → Bool) : ClientM Packet :=
  await polls fun pkt => if pred pkt then .take else .keep

def waitForType (polls : Nat) (type : PacketType) : ClientM Packet :=
  await polls fun pkt => if pkt.mPacketType = type then .take else .keep

/-- `pkt` has been moved from when a reply to another request is pushed back. -/
def replyVerdict (seq : SequenceNo) : Packet → Verdict
  | .control ctlPkt => if ctlPkt.mReplyTo = seq then .take else .lose
  | _ => .keep

def isAck : Packet → Bool
  | .control ctlPkt => ctlPkt.mControl = .ack
  | _ => false

def waitUntilAck (polls : Nat) (seq : SequenceNo) : ClientM Bool := do
  let ctlPkt ← await polls (replyVerdict seq)
  return isAck ctlPkt

/-- `getDerivedPacket<MessagePacket>`: a `static_cast`. -/
def derivedMessage : Packet → ClientM MessagePacket
  | .message msgPkt => pure msgPkt
  | _ => throw (.threw .undefined)

variable (P : Primitives)

def initiateE2E (env : Env) (username : Str) : ClientM Bool := do
  if ((← get).mE2ESessions username).any (·.sessState ≠ .unitialized) then return true
  let pl ← onSession env username fun session => session.initiate P env.timestamp
  let seq ← nextSeqNo
  let res ← sendPacket env (.message ⟨seq, .empty, username, pl⟩)
  return res = 0

def refreshE2E (env : Env) (username : Str) : ClientM Bool := do
  let pl ← onSession env username fun session =>
    session.refresh P env.timestamp env.exponent
  let seq ← nextSeqNo
  let res ← sendPacket env (.message ⟨seq, .empty, username, pl⟩)
  return res = 0

/-- Returns whether the connection is established. -/
def handleE2EInit (env : Env) (packet : MessagePacket) : ClientM Bool := do
  let peer := packet.mSender
  let response ← onSession env peer fun session =>
    session.handleInit P packet.mPayload env.initStack env.initExponent
  match response with
  | some response => do
      let seq ← nextSeqNo
      let _ ← sendPacket env (.message ⟨seq, .empty, peer, response⟩)
      return true
  | none => return false

def handleE2EAck (env : Env) (packet : MessagePacket) : ClientM Unit := do
  let peer := packet.mSender
  let _ ← onSession env peer fun session =>
    session.handleAck P packet.mPayload env.ackStack

/-- The lambda of `setupE2E`. -/
def isE2ePkt (uname : Str) : Packet → Bool
  | .message msg => msg.mPayload.isE2EControl ∧ msg.mSender = uname
  | _ => false

def setupE2E (env : Env) (uname : Str) (refresh : Bool) : ClientM Bool := do
  let started ← (if refresh then refreshE2E P env uname else initiateE2E P env uname)
  if !started then return false
  let msgPkt ← derivedMessage (← waitForPred env.polls (isE2ePkt uname))
  if msgPkt.mPayload.type = .e2eInit then
    if ← handleE2EInit P env msgPkt then return true
    let ackMsgPkt ← derivedMessage (← waitForPred env.polls (isE2ePkt uname))
    handleE2EAck P env ackMsgPkt
    return true
  else if msgPkt.mPayload.type = .e2eAck then
    handleE2EAck P env msgPkt
    return true
  else return false

def handleE2EPacket (env : Env) (pkt : MessagePacket) : ClientM Unit := do
  if pkt.mPayload.type = .e2eInit then
    let _ ← handleE2EInit P env pkt
  else if pkt.mPayload.type = .e2eAck then
    handleE2EAck P env pkt

def login (env : Env) (username : Str) : ClientM Bool := do
  let seq ← nextSeqNo
  let _ ← sendPacket env (.fieldReq ⟨seq, .setUsername, username⟩)
  waitUntilAck env.polls seq

/-- `if (session.isStale()) setupE2E(peer, true);` what `setupE2E` returns is
not looked at. -/
def refreshStale (env : Env) (peer : Str) (session : E2ESession) : ClientM PUnit := do
  if session.isStale env.now then
    let _ ← setupE2E P env peer true

def connectTo (env : Env) (uname : Str) : ClientM Bool := do
  modify fun c => { c with connected := uname }
  let session := (← get).mE2ESessions uname
  session.forM (refreshStale P env uname)
  return true

def send (env : Env) (msg : Str) : ClientM SequenceNo := do
  let seq ← nextSeqNo
  let connected := (← get).connected
  let session ← getSession env connected
  refreshStale P env connected session
  let session ← getSession env connected
  let pl ← attempt (session.encrypt P env.nonce msg)
  let _ ← sendPacket env (.message ⟨seq, .empty, connected, pl⟩)
  return seq

def userList : Packet → List Str
  | .userList pkt => pkt.mUserList.1
  | _ => []

def getUsers (env : Env) : ClientM (List Str) := do
  let seq ← nextSeqNo
  let res ← sendPacket env (.request ⟨seq, .requestUserList⟩)
  if res ≠ 0 then return []
  let reply ← waitForType env.polls .userList
  return userList reply

def decryptMessage (env : Env) (pkt : MessagePacket) : ClientM Str := do
  let session ← getSession env pkt.mSender
  attempt (session.decrypt P pkt.mPayload env.msgStack)

def quit (env : Env) : ClientM Unit := do
  let seq ← nextSeqNo
  let _ ← sendPacket env (.request ⟨seq, .disconnect⟩)

/-- One round of the receive loop of `clientLoop`; packets that are not
messages are dropped there. -/
def receiveLoop (env : Env) : ClientM Unit := do
  match ← poll with
  | some (.message msgPkt) =>
      if msgPkt.mPayload.isE2EControl then handleE2EPacket P env msgPkt
      else
        let _ ← decryptMessage P env msgPkt
  | _ => return ()

end Client

end LeakyChat

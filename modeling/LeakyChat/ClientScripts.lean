/-
The client's operations cut at their waits, and a client that takes them in
turns while packets arrive.  Whenever it is at rest it is where it would be had
each operation been one step, on all that arrived while it went on.
-/
import LeakyChat.ClientRun
import LeakyChat.Library.Script

namespace LeakyChat

open Program
open SelectiveReceive
open Transition

/-- The environment of an operation whose waits may poll so often. -/
def Env.polling (env : Env) (polls : Nat) : Env := { env with polls := polls }

namespace Client

def mailSlot : MailSlot Client Packet where
  mail := Client.mail
  put c mail := { c with mail := mail }
  mail_put _ _ := rfl
  put_mail _ := rfl
  put_put _ _ _ := rfl

/-- What the waits are for: `waitUntilAck`, `waitForType` in `getUsers`, and the
two calls of `waitForPred` in `setupE2E`. -/
inductive Goal where
  | reply (seq : SequenceNo)
  | userList
  | control (peer : Str)
  | answer (peer : Str)

def Goal.verdict : Goal → Packet → Verdict
  | .reply seq => replyVerdict seq
  | .userList => fun pkt => if pkt.mPacketType = .userList then .take else .keep
  | .control peer => fun pkt => if isE2ePkt peer pkt then .take else .keep
  | .answer peer => fun pkt => if isE2ePkt peer pkt then .take else .keep

abbrev Task (α : Type) := Script Client Interrupt Goal Packet α

/-- The whole operation, each wait with so many polls. -/
abbrev whole {α : Type} (polls : Nat) (p : Task α) : ClientM α :=
  p.run mailSlot Goal.verdict .waiting polls

variable (P : Primitives) (env : Env)

def loginTask (username : Str) : Task Bool :=
  .step nextSeqNo fun seq =>
    .step (sendPacket env (.fieldReq ⟨seq, .setUsername, username⟩)) fun _ =>
      .wait (.reply seq) fun ctlPkt => .done (isAck ctlPkt)

def getUsersTask : Task (List Str) :=
  .step nextSeqNo fun seq =>
    .step (sendPacket env (.request ⟨seq, .requestUserList⟩)) fun res =>
      if res ≠ 0 then .done [] else .wait .userList fun reply => .done (userList reply)

def setupE2ETask (uname : Str) (refresh : Bool) : Task Bool :=
  .step (if refresh then refreshE2E P env uname else initiateE2E P env uname) fun started =>
    if !started then .done false
    else .wait (.control uname) fun pkt =>
      .step (derivedMessage pkt) fun msgPkt =>
        if msgPkt.mPayload.type = .e2eInit then
          .step (handleE2EInit P env msgPkt) fun accepted =>
            if accepted then .done true
            else .wait (.answer uname) fun ackPkt =>
              .step (derivedMessage ackPkt) fun ackMsgPkt =>
                .step (handleE2EAck P env ackMsgPkt) fun _ => .done true
        else if msgPkt.mPayload.type = .e2eAck then
          .step (handleE2EAck P env msgPkt) fun _ => .done true
        else .done false

def refreshStaleTask (peer : Str) (session : E2ESession) : Task PUnit :=
  if session.isStale env.now then (setupE2ETask P env peer true).bind fun _ => .done ⟨⟩
  else .done ⟨⟩

def connectToTask (uname : Str) : Task Bool :=
  .step (modifyGet fun c => (c.mE2ESessions uname, { c with connected := uname })) fun session =>
    match session with
    | none => .done true
    | some session => (refreshStaleTask P env uname session).bind fun _ => .done true

/-- `send` before it looks at the clock. -/
def sendStart : ClientM (SequenceNo × Str × E2ESession) := do
  let seq ← nextSeqNo
  let connected ← modifyGet fun c => (c.connected, c)
  let session ← getSession env connected
  return (seq, connected, session)

/-- `send` after it. -/
def sendText (seq : SequenceNo) (connected msg : Str) : ClientM SequenceNo := do
  let session ← getSession env connected
  let pl ← attempt (session.encrypt P env.nonce msg)
  let _ ← sendPacket env (.message ⟨seq, .empty, connected, pl⟩)
  return seq

def sendTask (msg : Str) : Task SequenceNo :=
  .step (sendStart env) fun start =>
    (refreshStaleTask P env start.2.1 start.2.2).bind fun _ =>
      .step (sendText P env start.1 start.2.1 msg) fun seq => .done seq

/-- The operations that may wait. -/
def actionTask : Action → Option (Task PUnit)
  | .login username => some ((loginTask env username).bind fun _ => .done ⟨⟩)
  | .connectTo uname => some ((connectToTask P env uname).bind fun _ => .done ⟨⟩)
  | .send msg => some ((sendTask P env msg).bind fun _ => .done ⟨⟩)
  | .getUsers => some ((getUsersTask env).bind fun _ => .done ⟨⟩)
  | .setupE2E uname refresh => some ((setupE2ETask P env uname refresh).bind fun _ => .done ⟨⟩)
  | _ => none

variable {P env} {polls : Nat}

theorem whole_bind {α β : Type} (p : Task α) (f : α → Task β) :
    whole polls (p.bind f) = whole polls p >>= fun a => whole polls (f a) :=
  Script.run_bind_script p f

/-- The wait of a script is the client's. -/
theorem await_goal (goal : Goal) :
    Script.await mailSlot Goal.verdict .waiting polls goal = await polls goal.verdict := by
  funext c
  have hmail : mailSlot.mail c = c.mail := rfl
  rw [Script.await, await, hmail]
  cases receive goal.verdict polls c.mail <;> rfl

theorem loginTask_whole (username : Str) :
    whole polls (loginTask env username) = login (env.polling polls) username := by
  simp only [loginTask, Script.run, await_goal]
  rfl

theorem getUsersTask_whole : whole polls (getUsersTask env) = getUsers (env.polling polls) := by
  unfold getUsers getUsersTask
  simp only [Script.run]
  refine bind_congr fun seq => bind_congr fun res => ?_
  by_cases hres : res ≠ 0
  · simp only [if_pos hres]
    rfl
  · simp only [if_neg hres, Script.run, await_goal]
    rfl

theorem setupE2ETask_whole (uname : Str) (refresh : Bool) :
    whole polls (setupE2ETask P env uname refresh) =
      setupE2E P (env.polling polls) uname refresh := by
  unfold setupE2E setupE2ETask
  simp only [Script.run]
  refine bind_congr fun started => ?_
  cases started with
  | false => rfl
  | true =>
      change (Script.await mailSlot Goal.verdict .waiting polls (.control uname) >>= fun pkt =>
        derivedMessage pkt >>= fun msgPkt => _) = _
      rw [await_goal]
      refine bind_congr fun pkt => bind_congr fun msgPkt => ?_
      by_cases hinit : msgPkt.mPayload.type = .e2eInit
      · simp only [if_pos hinit, Script.run]
        refine bind_congr fun accepted => ?_
        cases accepted with
        | true => rfl
        | false =>
            change (Script.await mailSlot Goal.verdict .waiting polls (.answer uname) >>= fun pkt =>
              derivedMessage pkt >>= fun msgPkt => _) = _
            rw [await_goal]
            rfl
      · simp only [if_neg hinit]
        by_cases hack : msgPkt.mPayload.type = .e2eAck
        · simp only [if_pos hack]
          rfl
        · simp only [if_neg hack]
          rfl

theorem refreshStaleTask_whole (peer : Str) (session : E2ESession) :
    whole polls (refreshStaleTask P env peer session) =
      refreshStale P (env.polling polls) peer session := by
  unfold refreshStale refreshStaleTask
  by_cases hstale : session.isStale env.now = true
  · have hpolling : session.isStale (env.polling polls).now = true := hstale
    rw [if_pos hstale, if_pos hpolling, whole_bind, setupE2ETask_whole]
    rfl
  · have hpolling : ¬ session.isStale (env.polling polls).now = true := hstale
    rw [if_neg hstale, if_neg hpolling]
    rfl

theorem connectToTask_whole (uname : Str) :
    whole polls (connectToTask P env uname) = connectTo P (env.polling polls) uname := by
  funext c
  have hstart : (modifyGet fun c => (c.mE2ESessions uname, { c with connected := uname }) :
      ClientM (Option E2ESession)) c =
        .ok (c.mE2ESessions uname, { c with connected := uname }) := rfl
  rw [connectToTask, whole, Script.run, run_bind hstart]
  change _ = (Option.forM (c.mE2ESessions uname) (refreshStale P (env.polling polls) uname) >>=
    fun _ => pure true) { c with connected := uname }
  cases hs : c.mE2ESessions uname with
  | none => rfl
  | some session =>
      change whole polls ((refreshStaleTask P env uname session).bind fun _ => .done true) _ = _
      rw [whole_bind, refreshStaleTask_whole]
      rfl

theorem sendTask_whole (msg : Str) :
    whole polls (sendTask P env msg) = send P (env.polling polls) msg := by
  have hsend : send P (env.polling polls) msg = sendStart env >>= fun start =>
      refreshStale P (env.polling polls) start.2.1 start.2.2 >>= fun _ =>
        sendText P env start.1 start.2.1 msg := by
    unfold send sendStart sendText
    simp only [bind_assoc, pure_bind]
    rfl
  rw [hsend, sendTask, whole, Script.run]
  refine bind_congr fun start => ?_
  rw [← whole, whole_bind, refreshStaleTask_whole]
  refine bind_congr fun _ => ?_
  simp only [Script.run, bind_pure]

/-- An operation cut at its waits is the operation. -/
theorem actionTask_whole {action : Action} {p : Task PUnit}
    (htask : actionTask P env action = some p) (polls : Nat) :
    whole polls p = perform P (env.polling polls) action := by
  cases action with
  | login username =>
      cases htask
      rw [whole_bind, loginTask_whole]
      rfl
  | connectTo uname =>
      cases htask
      rw [whole_bind, connectToTask_whole]
      rfl
  | send msg =>
      cases htask
      rw [whole_bind, sendTask_whole]
      rfl
  | getUsers =>
      cases htask
      rw [whole_bind, getUsersTask_whole]
      rfl
  | setupE2E uname refresh =>
      cases htask
      rw [whole_bind, setupE2ETask_whole]
      rfl
  | _ => cases htask

open Script (Frames Framed)

/-- Items arrive at the socket. -/
abbrev arrive (items : List (Option Packet)) (c : Client) : Client :=
  Script.arrive mailSlot items c

theorem frames_nextSeqNo : Frames mailSlot nextSeqNo := by
  intro c seq d items hrun
  cases hrun
  rfl

theorem frames_sendPacket (pkt : Packet) : Frames mailSlot (sendPacket env pkt) := by
  intro c result d items hrun
  cases hrun
  rfl

theorem frames_attempt {α : Type} (result : Except Fault α) :
    Frames mailSlot (attempt result) := by
  intro c a d items hrun
  obtain ⟨rfl, rfl⟩ := attempt_ok hrun
  rfl

theorem frames_getSession (peer : Str) : Frames mailSlot (getSession env peer) := by
  intro c s d items hrun
  obtain ⟨rfl, rfl⟩ := getSession_ok hrun
  rw [getSession_run]
  rfl

theorem frames_onSession {α : Type} (peer : Str)
    (call : E2ESession → E2ESession × Except Fault α) :
    Frames mailSlot (onSession env peer call) := by
  intro c a d items hrun
  obtain ⟨t, hcall, rfl⟩ := onSession_ok hrun
  exact onSession_run (c := arrive items c) hcall

theorem frames_derivedMessage (pkt : Packet) : Frames mailSlot (derivedMessage pkt) := by
  intro c msg d items hrun
  obtain ⟨rfl, rfl⟩ := derivedMessage_ok hrun
  rfl

theorem frames_sendInit (peer : Str) (call : E2ESession → E2ESession × Except Fault Payload) :
    Frames mailSlot (onSession env peer call >>= fun pl =>
      nextSeqNo >>= fun seq =>
        sendPacket env (.message ⟨seq, .empty, peer, pl⟩) >>= fun res =>
          pure (decide (res = 0))) :=
  (frames_onSession peer call).bind fun _ => frames_nextSeqNo.bind fun _ =>
    (frames_sendPacket _).bind fun _ => Script.Frames.pure mailSlot _

theorem frames_initiateE2E (peer : Str) : Frames mailSlot (initiateE2E P env peer) := by
  intro c started d items hrun
  obtain ⟨_, _, hget, hrest⟩ := of_run_bind hrun
  cases hget
  have hget : (get : ClientM Client) (arrive items c) = .ok (arrive items c, arrive items c) := rfl
  rw [initiateE2E, run_bind hget]
  by_cases hused : (c.mE2ESessions peer).any (·.sessState ≠ .unitialized) = true
  · rw [if_pos hused] at hrest
    cases hrest
    exact if_pos hused ▸ rfl
  · rw [if_neg hused] at hrest
    have hsame : ¬ ((arrive items c).mE2ESessions peer).any (·.sessState ≠ .unitialized) = true :=
      hused
    rw [if_neg hsame]
    exact frames_sendInit peer _ c started d items hrest

theorem frames_refreshE2E (peer : Str) : Frames mailSlot (refreshE2E P env peer) :=
  frames_sendInit peer _

theorem frames_handleE2EInit (msg : MessagePacket) : Frames mailSlot (handleE2EInit P env msg) := by
  refine (frames_onSession _ _).bind fun response => ?_
  cases response with
  | none => exact Script.Frames.pure mailSlot _
  | some response =>
      exact frames_nextSeqNo.bind fun _ => (frames_sendPacket _).bind fun _ =>
        Script.Frames.pure mailSlot _

theorem frames_handleE2EAck (msg : MessagePacket) : Frames mailSlot (handleE2EAck P env msg) :=
  (frames_onSession _ _).bind fun _ => Script.Frames.pure mailSlot _

theorem framed_setupE2ETask (uname : Str) (refresh : Bool) :
    (setupE2ETask P env uname refresh).Framed mailSlot := by
  refine ⟨(frames_refreshE2E uname).ite (frames_initiateE2E uname), fun started => ?_⟩
  refine Framed.ite (fun _ => trivial) fun _ pkt => ⟨frames_derivedMessage pkt, fun msgPkt => ?_⟩
  apply Framed.ite
  · refine fun _ => ⟨frames_handleE2EInit msgPkt, fun accepted => ?_⟩
    refine Framed.ite (fun _ => trivial) fun _ ackPkt => ⟨frames_derivedMessage ackPkt, ?_⟩
    exact fun ackMsgPkt => ⟨frames_handleE2EAck ackMsgPkt, fun _ => trivial⟩
  · intro _
    exact Framed.ite (fun _ => ⟨frames_handleE2EAck msgPkt, fun _ => trivial⟩) fun _ => trivial

theorem framed_refreshStaleTask (peer : Str) (session : E2ESession) :
    (refreshStaleTask P env peer session).Framed mailSlot := by
  exact Framed.ite (fun _ => (framed_setupE2ETask peer true).bind fun _ => trivial)
    fun _ => trivial

theorem framed_connectToTask (uname : Str) : (connectToTask P env uname).Framed mailSlot := by
  refine ⟨?_, fun session => ?_⟩
  · intro c session d items hrun
    cases hrun
    rfl
  · cases session with
    | none => trivial
    | some session => exact (framed_refreshStaleTask uname session).bind fun _ => trivial

theorem framed_sendTask (msg : Str) : (sendTask P env msg).Framed mailSlot := by
  refine ⟨?_, fun start => ?_⟩
  · refine frames_nextSeqNo.bind fun seq => Frames.bind ?_ fun connected =>
      (frames_getSession connected).bind fun _ => Script.Frames.pure mailSlot _
    intro c connected d items hrun
    cases hrun
    rfl
  · refine (framed_refreshStaleTask _ _).bind fun _ => ⟨?_, fun _ => trivial⟩
    exact (frames_getSession _).bind fun _ => (frames_attempt _).bind fun _ =>
      (frames_sendPacket _).bind fun _ => Script.Frames.pure mailSlot _

theorem framed_actionTask {action : Action} {p : Task PUnit}
    (htask : actionTask P env action = some p) : p.Framed mailSlot := by
  cases action with
  | login username =>
      cases htask
      exact ⟨frames_nextSeqNo, fun _ => ⟨frames_sendPacket _, fun _ _ => trivial⟩⟩
  | connectTo uname =>
      cases htask
      exact (framed_connectToTask uname).bind fun _ => trivial
  | send msg =>
      cases htask
      exact (framed_sendTask msg).bind fun _ => trivial
  | getUsers =>
      cases htask
      refine Framed.bind ⟨frames_nextSeqNo, fun _ => ⟨frames_sendPacket _, fun _ => ?_⟩⟩
        fun _ => trivial
      exact Framed.ite (fun _ => trivial) fun _ _ => trivial
  | setupE2E uname refresh =>
      cases htask
      exact (framed_setupE2ETask uname refresh).bind fun _ => trivial
  | _ => cases htask

end Client

/-- `task` is what is left of the operation that is going on. -/
structure Worker where
  client : Client
  task : Option (Client.Task PUnit)

namespace Worker

open Client (actionTask mailSlot Goal)

inductive Label where
  | start (env : Env) (action : Client.Action)
  | whole (env : Env) (action : Client.Action)
  | turn
  | finish
  | arrive (item : Option Packet)

/-- Packets arrive at any time; the next operation starts when the last has come to its
end. -/
inductive Step (P : Primitives) : Worker → Label → Worker → Prop
  | start {w : Worker} {env : Env} {action : Client.Action} {p : Client.Task PUnit}
      (hidle : w.task = none) (htask : actionTask P env action = some p) :
      Step P w (.start env action) { w with task := some p }
  | whole {w : Worker} {env : Env} {action : Client.Action} {c : Client}
      (hidle : w.task = none) (htask : actionTask P env action = none)
      (hown : ∀ item, action ≠ .arrive item)
      (hrun : Client.perform P env action w.client = .ok (⟨⟩, c)) :
      Step P w (.whole env action) { w with client := c }
  | turn {w : Worker} {p q : Client.Task PUnit} {c : Client} (htask : w.task = some p)
      (hturn : Script.Turn mailSlot Goal.verdict w.client p c q) :
      Step P w .turn ⟨c, some q⟩
  | finish {w : Worker} (htask : w.task = some (.done ⟨⟩)) :
      Step P w .finish { w with task := none }
  | arrive {w : Worker} (item : Option Packet) :
      Step P w (.arrive item) { w with client := w.client.arrive [item] }

def system (P : Primitives) : System Worker Label where
  init w := w = ⟨.fresh, none⟩
  step := Step P

/-- The operations that are asked for, whatever the number of polls, and what arrives. -/
def Label.asks : Label → List (Env × Client.Action)
  | .start env action => [(env.polling 0, action)]
  | .whole env action => [(env.polling 0, action)]
  | _ => []

def Label.brings : Label → List (Option Packet)
  | .arrive item => [item]
  | _ => []

/-- The same of the operations as steps. -/
def operation : Env × Client.Action → List (Env × Client.Action)
  | (_, .arrive _) => []
  | (env, action) => [(env.polling 0, action)]

def arrival : Env × Client.Action → List (Option Packet)
  | (_, .arrive item) => [item]
  | _ => []

/-- A run in which each operation is one step, with these operations and arrivals. -/
structure Serial (P : Primitives) (c : Client) (labels : List Label) (items : List (Option Packet))
    (ops : List (Env × Client.Action)) (steps : List (Env × Client.Action)) (d : Client) :
    Prop where
  run : Run (Client.system P) c steps d
  asked : labels.flatMap Label.asks = steps.flatMap operation ++ ops
  brought : labels.flatMap Label.brings = steps.flatMap arrival ++ items

/-- Where the turns of a worker have got to: at rest there is a run of whole operations;
in an operation there is one to its start, and all that the rest of it comes to the whole
comes to, with what has arrived since. -/
def Follows (P : Primitives) (c : Client) (labels : List Label) (w : Worker) : Prop :=
  match w.task with
  | none => ∃ steps, Serial P c labels [] [] steps w.client
  | some p => p.Framed mailSlot ∧ ∃ env action whole steps start items,
      actionTask P env action = some whole ∧
      Serial P c labels items [(env.polling 0, action)] steps start ∧
      ∀ more u, Script.Completes mailSlot Goal.verdict .waiting (w.client.arrive more) p ⟨⟩ u →
        Script.Completes mailSlot Goal.verdict .waiting (start.arrive (items ++ more)) whole ⟨⟩ u

variable {P : Primitives} {c d : Client} {labels : List Label} {label : Label} {w w' : Worker}
  {items : List (Option Packet)} {ops steps : List (Env × Client.Action)}

theorem arrival_run (env : Env) (items : List (Option Packet)) (c : Client) :
    Run (Client.system P) c (items.map fun item => (env, .arrive item)) (c.arrive items) := by
  induction items generalizing c with
  | nil =>
      rw [Client.arrive, Script.arrive_nil]
      exact Run.nil c
  | cons item items ih =>
      have hfirst : (Client.system P).step c (env, .arrive item) (c.arrive [item]) := rfl
      have hrest := ih (c.arrive [item])
      rw [Client.arrive, Client.arrive, Script.arrive_arrive] at hrest
      exact Run.cons hfirst hrest

theorem arrivals_operation (env : Env) (items : List (Option Packet)) :
    (items.map fun item => (env, Client.Action.arrive item)).flatMap operation = [] := by
  induction items with
  | nil => rfl
  | cons item items ih => exact ih

theorem arrivals_arrival (env : Env) (items : List (Option Packet)) :
    (items.map fun item => (env, Client.Action.arrive item)).flatMap arrival = items := by
  induction items with
  | nil => rfl
  | cons item items ih => exact congrArg (item :: ·) ih

/-- One more label is still to be followed. -/
theorem Serial.next (hserial : Serial P c labels items ops steps d) (label : Label) :
    Serial P c (labels ++ [label]) (items ++ label.brings) (ops ++ label.asks) steps d where
  run := hserial.run
  asked := by
    rw [List.flatMap_append, hserial.asked, List.flatMap_singleton, List.append_assoc]
  brought := by
    rw [List.flatMap_append, hserial.brought, List.flatMap_singleton, List.append_assoc]

theorem Serial.silent (hserial : Serial P c labels items ops steps d) {label : Label}
    (hasks : label.asks = []) (hbrings : label.brings = []) :
    Serial P c (labels ++ [label]) items ops steps d := by
  have hnext := hserial.next label
  rwa [hasks, hbrings, List.append_nil, List.append_nil] at hnext

theorem Serial.brings (hserial : Serial P c labels items ops steps d) (item : Option Packet) :
    Serial P c (labels ++ [.arrive item]) (items ++ [item]) ops steps d := by
  have hnext := hserial.next (.arrive item)
  have hasks : (Label.arrive item).asks = [] := rfl
  rwa [hasks, List.append_nil] at hnext

/-- The arrivals, one after another. -/
theorem Serial.arrivals (hserial : Serial P c labels items ops steps d) (env : Env) :
    Serial P c labels [] ops (steps ++ items.map fun item => (env, .arrive item))
      (d.arrive items) where
  run := hserial.run.append (arrival_run env items d)
  asked := by
    rw [hserial.asked, List.flatMap_append, arrivals_operation, List.append_nil]
  brought := by
    rw [hserial.brought, List.flatMap_append, arrivals_arrival, List.append_nil]

/-- What arrived during an operation, and then the operation. -/
theorem Serial.operation {u : Client} {env : Env} {action : Client.Action} {polls : Nat}
    (hserial : Serial P c labels items [(env.polling 0, action)] steps d)
    (hown : ∀ item, action ≠ .arrive item)
    (hrun : Client.perform P (env.polling polls) action (d.arrive items) = .ok (⟨⟩, u)) :
    ∃ steps, Serial P c labels [] [] steps u := by
  obtain ⟨first, harrived⟩ : ∃ first,
      Serial P c labels [] [(env.polling 0, action)] first (d.arrive items) :=
    ⟨_, hserial.arrivals env⟩
  have hlast : (Client.system P).step (d.arrive items) (env.polling polls, action) u := hrun
  have hlabel : Worker.operation (env.polling polls, action) = [(env.polling 0, action)] ∧
      arrival (env.polling polls, action) = [] := by
    cases action with
    | arrive item => exact absurd rfl (hown item)
    | _ => exact ⟨rfl, rfl⟩
  refine ⟨_, harrived.run.snoc hlast, ?_, ?_⟩
  · rw [harrived.asked, List.flatMap_append, List.flatMap_singleton, hlabel.1, List.append_nil]
  · rw [harrived.brought, List.flatMap_append, List.flatMap_singleton, hlabel.2, List.append_nil,
      List.append_nil]

theorem action_of_task {env : Env} {action : Client.Action} {p : Client.Task PUnit}
    (htask : actionTask P env action = some p) (item : Option Packet) : action ≠ .arrive item := by
  rintro rfl
  cases htask

theorem follows_step (hfollows : Follows P c labels w) (hstep : Step P w label w') :
    Follows P c (labels ++ [label]) w' := by
  cases hstep with
  | @start env action p hidle htask =>
      rw [Follows, hidle] at hfollows
      obtain ⟨steps, hserial⟩ := hfollows
      exact ⟨Client.framed_actionTask htask, env, action, p, steps, w.client, [], htask,
        hserial.next (.start env action), fun more u hdone => hdone⟩
  | @whole env action d hidle htask hown hrun =>
      rw [Follows, hidle] at hfollows ⊢
      obtain ⟨steps, hserial⟩ := hfollows
      have hlast : Client.perform P (env.polling env.polls) action (w.client.arrive []) =
          .ok (⟨⟩, d) := by
        rw [Client.arrive, Script.arrive_nil]
        exact hrun
      exact (hserial.next (.whole env action)).operation hown hlast
  | @turn p q d htask hturn =>
      rw [Follows, htask] at hfollows
      obtain ⟨hp, env, action, whole, steps, start, items, haction, hserial, hcomes⟩ := hfollows
      exact ⟨hturn.framed hp, env, action, whole, steps, start, items, haction,
        hserial.silent rfl rfl, fun more u hdone => hcomes more u (hturn.completes hp hdone)⟩
  | finish htask =>
      rw [Follows, htask] at hfollows
      obtain ⟨_, env, action, whole, steps, start, items, haction, hserial, hcomes⟩ := hfollows
      have hlater : Serial P c (labels ++ [.finish]) items _ steps start := hserial.silent rfl rfl
      obtain ⟨polls, hrun⟩ := hcomes [] w.client (by
        rw [Client.arrive, Script.arrive_nil]
        exact ⟨0, rfl⟩)
      have hwhole : Client.whole polls whole (start.arrive (items ++ [])) = .ok (⟨⟩, w.client) :=
        hrun
      rw [Client.actionTask_whole haction, List.append_nil] at hwhole
      exact hlater.operation (action_of_task haction) hwhole
  | arrive item =>
      cases htask : w.task with
      | none =>
          rw [Follows, htask] at hfollows
          obtain ⟨steps, hserial⟩ := hfollows
          exact ⟨_, (hserial.brings item).arrivals (Client.sampleEnv 0)⟩
      | some p =>
          rw [Follows, htask] at hfollows
          obtain ⟨hp, env, action, whole, steps, start, items, haction, hserial, hcomes⟩ := hfollows
          refine ⟨hp, env, action, whole, steps, start, _, haction, hserial.brings item,
            fun more u hdone => ?_⟩
          rw [Client.arrive, Client.arrive, Script.arrive_arrive] at hdone
          have hwhole := hcomes ([item] ++ more) u hdone
          rwa [← List.append_assoc] at hwhole

theorem follows_run (hrun : Run (system P) w labels w') {before : List Label}
    (hfollows : Follows P c before w) : Follows P c (before ++ labels) w' := by
  induction hrun generalizing before with
  | nil => rwa [List.append_nil]
  | cons head tail ih =>
      have hnext := ih (follows_step hfollows head)
      rwa [List.append_assoc, List.singleton_append] at hnext

/-- A worker that is at rest again is where a run takes the client in which each of its
operations is one step, the same operations in the same order, and the same packets arrive
in the same order: what arrived during an operation comes before it. -/
theorem rests_serially (hrun : Run (system P) ⟨c, none⟩ labels ⟨d, none⟩) :
    ∃ steps, Run (Client.system P) c steps d ∧
      steps.flatMap operation = labels.flatMap Label.asks ∧
      steps.flatMap arrival = labels.flatMap Label.brings := by
  have hstart : Follows P c [] ⟨c, none⟩ := ⟨[], Run.nil c, rfl, rfl⟩
  obtain ⟨steps, hserial⟩ := follows_run hrun hstart
  have hasked := hserial.asked
  have hbrought := hserial.brought
  rw [List.append_nil] at hasked hbrought
  exact ⟨steps, hserial.run, hasked.symm, hbrought.symm⟩

/-- The user list comes while `getUsers` waits for it. -/
theorem rests_serially_sample : ∃ d steps, Run (Client.system .clear) Client.fresh steps d ∧
    steps.flatMap operation = [((Client.sampleEnv 0).polling 0, .getUsers)] ∧
    steps.flatMap arrival = [some Client.sampleUserList] := by
  let asking : Client :=
    { Client.fresh with curSeqNo := 1, sent := [.request ⟨0, .requestUserList⟩] }
  have hrun : Run (system .clear) ⟨Client.fresh, none⟩
      [.start (Client.sampleEnv 0) .getUsers, .turn, .turn, .arrive (some Client.sampleUserList),
        .turn, .finish] ⟨asking, none⟩ := by
    refine Run.cons (Step.start rfl rfl) ?_
    refine Run.cons (Step.turn rfl (.step rfl)) ?_
    refine Run.cons (Step.turn rfl (.step rfl)) ?_
    refine Run.cons (Step.arrive _) ?_
    refine Run.cons (Step.turn rfl (.take rfl rfl)) ?_
    exact Run.cons (Step.finish rfl) (Run.nil _)
  obtain ⟨steps, hsteps, hasked, hbrought⟩ := rests_serially hrun
  exact ⟨asking, steps, hsteps, hasked, hbrought⟩

end Worker

end LeakyChat

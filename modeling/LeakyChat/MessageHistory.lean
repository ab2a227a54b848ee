/-
The history of messages that the UI draws.  The UI thread adds a line before it
queues the request the line is for, `clientLoop` marks the line once it has
served the request, and both go on at the same time.
-/
import LeakyChat.RequestLoop
import LeakyChat.UserMessages

namespace LeakyChat

open Transition
open UI (Effect Typing)

/-- What a call of `clientLoop` brings that is marked in the history. -/
inductive Outcome where
  | login (success : Bool)
  | users (names : List Str)
  | e2e (success : Bool)

/-- The mark, as the lambda given to `editMessage` makes it. -/
def Outcome.mark (outcome : Outcome) (msg : Message) : Message :=
  match outcome with
  | .login true => { msg with text := msg.text ++ ascii "\n  Login Succeeded" }
  | .login false =>
      { msg with text := msg.text ++ ascii "\n  \x1b[31mLogin Failed. Please retry\x1b[0m" }
  | .users names =>
      { msg with text := msg.text ++ ascii "\nActive Users: \n" ++
          names.flatMap (fun usr => ascii "  " ++ usr.1 ++ ascii "\n") ++ ascii "\n" }
  | .e2e true => { msg with text := msg.text ++ ascii "\n E2E Connection Succeeded" }
  | .e2e false => { msg with text := msg.text ++ ascii "\n E2E Connection Failed" }

/-- `editMessage`: every message with the number is edited. -/
def editMessage (id : SequenceNo) (transform : Message → Message) (messages : List Message) :
    List Message :=
  messages.map fun msg => if msg.id = some id then transform msg else msg

/-- The value of a call that succeeds. -/
def Client.resultOf {α : Type} (m : ClientM α) (c : Client) : Option α :=
  (m c).toOption.map Prod.fst

/-- What the calls of a request come to. -/
def Client.outcome (P : Primitives) (env : Env) (c : Client) : Client.Action → Option Outcome
  | .login username => (Client.resultOf (Client.login env username) c).map .login
  | .getUsers => (Client.resultOf (Client.getUsers env) c).map .users
  | .setupE2E uname refresh => (Client.resultOf (Client.setupE2E P env uname refresh) c).map .e2e
  | _ => none

/-- The line for what a round of the receive loop has decrypted. -/
def Client.incoming (P : Primitives) (env : Env) (c : Client) : Option Message :=
  match c.mail.poll with
  | (some (.message msgPkt), mail) =>
      if msgPkt.mPayload.isE2EControl then none
      else
        (Client.resultOf (Client.decryptMessage P env msgPkt) { c with mail := mail }).map
          fun text => ⟨some 0, msgPkt.mSender.1, text.1, false⟩
  | _ => none

/-- `acts` is what the UI thread has still to do of a handler, and `result` what the last call
for the request that is served has brought. -/
structure MessageHistory where
  process : ClientProcess
  acts : List UI.Act
  result : Option Outcome
  messages : List Message

namespace MessageHistory

/-- The lines that a step adds, and the requests whose lines it marks. -/
structure Label where
  event : Option ClientProcess.Event
  added : List Message
  marked : List (ClientRequest × Outcome)

def Label.requests (label : Label) : List ClientRequest :=
  label.event.elim [] ClientProcess.Event.added

def Label.handedOut (label : Label) : List ClientRequest :=
  label.event.elim [] ClientProcess.Event.handedOut

/-- Steps of the process that the history has no part in. -/
def Silent : ClientProcess.Event → Prop
  | .key _ => False
  | .perform _ => False
  | .noInput => False
  | .uiLoop => False
  | .tryGetRequest (some _) => False
  | .call _ => False
  | .served => False
  | .receive _ => False
  | .checkConnected false => False
  | _ => True

def disconnected : Message := ⟨some 0, [], ascii "Server desconnected", false⟩

variable (P : Primitives)

inductive Step : MessageHistory → Label → MessageHistory → Prop
  | key {t : MessageHistory} {c : UInt8} {typing : Typing} {acts : List UI.Act}
      {process : ClientProcess} (hidle : t.acts = [])
      (hkey : t.process.ui.typing.noteKey c = .ok (typing, acts))
      (hstep : ClientProcess.Step P t.process (.key c) process) :
      Step t ⟨some (.key c), [], []⟩ { t with process := process, acts := acts }
  | addMessage {t : MessageHistory} {msg : Message} {acts : List UI.Act}
      (hacts : t.acts = .addMessage msg :: acts) :
      Step t ⟨none, [msg], []⟩ { t with acts := acts, messages := t.messages ++ [msg] }
  | perform {t : MessageHistory} {shared : Effect} {acts : List UI.Act} {process : ClientProcess}
      (hacts : t.acts = .effect shared :: acts)
      (hstep : ClientProcess.Step P t.process (.perform shared) process) :
      Step t ⟨some (.perform shared), [], []⟩ { t with process := process, acts := acts }
  | idle {t : MessageHistory} {event : ClientProcess.Event} {process : ClientProcess}
      (hevent : event = .noInput ∨ event = .uiLoop) (hidle : t.acts = [])
      (hstep : ClientProcess.Step P t.process event process) :
      Step t ⟨some event, [], []⟩ { t with process := process }
  | taken {t : MessageHistory} {request : ClientRequest} {process : ClientProcess}
      (hstep : ClientProcess.Step P t.process (.tryGetRequest (some request)) process) :
      Step t ⟨some (.tryGetRequest (some request)), [], []⟩
        { t with process := process, result := none }
  | call {t : MessageHistory} {env : Env} {request : ClientRequest} {action : Client.Action}
      {calls : List Client.Action} {process : ClientProcess}
      (hpoint : t.process.loopPoint = .serving request (action :: calls))
      (hstep : ClientProcess.Step P t.process (.call env) process) :
      Step t ⟨some (.call env), [], []⟩
        { t with process := process, result := t.process.client.outcome P env action }
  | served {t : MessageHistory} {request : ClientRequest} {process : ClientProcess}
      (hpoint : t.process.loopPoint = .serving request [])
      (hstep : ClientProcess.Step P t.process .served process) :
      Step t ⟨some .served, [], t.result.toList.map fun outcome => (request, outcome)⟩
        { t with
          process := process
          messages := t.result.elim t.messages fun outcome =>
            editMessage request.id outcome.mark t.messages }
  | receive {t : MessageHistory} {env : Env} {process : ClientProcess}
      (hstep : ClientProcess.Step P t.process (.receive env) process) :
      Step t ⟨some (.receive env), (t.process.client.incoming P env).toList, []⟩
        { t with
          process := process
          messages := t.messages ++ (t.process.client.incoming P env).toList }
  | disconnected {t : MessageHistory} {process : ClientProcess}
      (hstep : ClientProcess.Step P t.process (.checkConnected false) process) :
      Step t ⟨some (.checkConnected false), [disconnected], []⟩
        { t with process := process, messages := t.messages ++ [disconnected] }
  | silent {t : MessageHistory} {event : ClientProcess.Event} {process : ClientProcess}
      (hevent : Silent event) (hstep : ClientProcess.Step P t.process event process) :
      Step t ⟨some event, [], []⟩ { t with process := process }

def system : System MessageHistory Label where
  init t := ∃ process, (ClientProcess.system P).init process ∧ t = ⟨process, [], none, []⟩
  step := Step P

/-- `nextRequestId` has not come back to 0. -/
def Numbered (t : MessageHistory) : Prop := t.process.ui.typing.nextRequestId ≠ 0

/-- The request that `clientLoop` is serving. -/
def inHand (p : ClientProcess) : List ClientRequest :=
  match p.loopPoint with
  | .serving request _ => [request]
  | _ => []

/-- A line with the marks on it. -/
def amended (marks : List (ClientRequest × Outcome)) (msg : Message) : Message :=
  marks.foldl (fun msg mark => if msg.id = some mark.1.id then mark.2.mark msg else msg) msg

/-- What holds of a history with so many lines added, marks made and requests queued. -/
structure Kept (added : List Message) (marks : List (ClientRequest × Outcome))
    (requests : List ClientRequest) (t : MessageHistory) : Prop where
  messages : t.messages = added.map (amended marks)
  lines : ∃ noted, UI.Act.Rest t.acts noted ∧
    added.filter Message.keyed = ((requests ++ noted.toList).map (·.line)).filter Message.keyed
  ordered : (requests ++ UI.Act.requests t.acts).Pairwise fun first later => first.id < later.id
  bounded : ∀ request ∈ requests ++ UI.Act.requests t.acts, request.id ≠ 0 ∧
    (t.Numbered → request.id < t.process.ui.typing.nextRequestId)
  marked : (marks.map Prod.fst ++ (inHand t.process ++ t.process.ui.requests)).Sublist requests

variable {P : Primitives} {p q : ClientProcess} {event : ClientProcess.Event}
  {added more : List Message} {marks : List (ClientRequest × Outcome)}
  {requests : List ClientRequest} {t : MessageHistory}

@[simp]
theorem mark_id (outcome : Outcome) (msg : Message) : (outcome.mark msg).id = msg.id := by
  cases outcome with
  | login success => cases success <;> rfl
  | users names => rfl
  | e2e success => cases success <;> rfl

@[simp]
theorem amended_id (marks : List (ClientRequest × Outcome)) (msg : Message) :
    (amended marks msg).id = msg.id := by
  unfold amended
  induction marks generalizing msg with
  | nil => rfl
  | cons mark marks ih =>
      rw [List.foldl_cons, ih]
      split
      · exact mark_id _ _
      · rfl

theorem amended_of_forall_ne {msg : Message} (hnone : ∀ mark ∈ marks, msg.id ≠ some mark.1.id) :
    amended marks msg = msg := by
  unfold amended
  induction marks with
  | nil => rfl
  | cons mark marks ih =>
      rw [List.foldl_cons, if_neg (hnone mark List.mem_cons_self)]
      exact ih fun mark hmark => hnone mark (List.mem_cons_of_mem _ hmark)

/-- A line that is marked later. -/
theorem amended_concat (marks : List (ClientRequest × Outcome)) (request : ClientRequest)
    (outcome : Outcome) (lines : List Message) :
    lines.map (amended (marks ++ [(request, outcome)])) =
      editMessage request.id outcome.mark (lines.map (amended marks)) := by
  rw [editMessage, List.map_map]
  refine List.map_congr_left fun msg _ => ?_
  rw [amended, List.foldl_append]
  rfl

theorem inHand_of_ne (hpoint : ∀ request calls, p.loopPoint ≠ .serving request calls) :
    inHand p = [] := by
  unfold inHand
  split
  · rename_i request calls hserving
    exact absurd hserving (hpoint request calls)
  · rfl

theorem inHand_of_eq {request : ClientRequest} {calls : List Client.Action}
    (hpoint : p.loopPoint = .serving request calls) : inHand p = [request] := by
  rw [inHand, hpoint]

/-- A request in the hands of `clientLoop` has come out of the queue, and a request in the
queue has been put there. -/
theorem inHand_step (hstep : ClientProcess.Step P p event q) :
    (inHand q ++ q.ui.requests).Sublist (inHand p ++ p.ui.requests ++ event.added) := by
  have hkept : inHand q = inHand p → q.ui.requests = p.ui.requests ++ event.added →
      (inHand q ++ q.ui.requests).Sublist (inHand p ++ p.ui.requests ++ event.added) :=
    fun hhand hrequests => by rw [hhand, hrequests, List.append_assoc]
  have hdropped : inHand q = [] → q.ui.requests = p.ui.requests →
      (inHand q ++ q.ui.requests).Sublist (inHand p ++ p.ui.requests ++ event.added) :=
    fun hhand hrequests => by
      rw [hhand, hrequests, List.append_assoc, List.nil_append]
      exact (List.sublist_append_left _ _).trans (List.sublist_append_right _ _)
  cases hstep with
  | @perform shared pending hpoint =>
      cases shared with
      | addRequest request => exact hkept rfl rfl
      | clearRunning => exact hkept rfl (List.append_nil _).symm
      | release => exact hkept rfl (List.append_nil _).symm
  | @taken request ui hpoint hrunning htry =>
      obtain ⟨-, hrequests, -⟩ := UI.tryGetRequest_some htry
      rw [inHand_of_ne (p := p) (by rw [hpoint]; rintro _ _ ⟨⟩), hrequests]
      exact List.sublist_append_left (request :: ui.requests) _
  | refused hpoint hrunning htry =>
      obtain ⟨rfl, -⟩ := UI.tryGetRequest_none htry
      exact hdropped rfl rfl
  | call hpoint hcall =>
      exact hkept (inHand_of_eq hpoint).symm (List.append_nil _).symm
  | receive hpoint hcall =>
      refine hdropped (inHand_of_ne fun request calls => ?_) rfl
      dsimp only
      split <;> rintro ⟨⟩
  | connect hpoint => exact hdropped rfl rfl
  | acquire hpoint hsem => exact hdropped rfl rfl
  | served hpoint => exact hdropped rfl rfl
  | leave hpoint hrunning => exact hdropped rfl rfl
  | stillConnected hpoint => exact hdropped rfl rfl
  | disconnected hpoint => exact hdropped rfl rfl
  | join hpoint hmonitor => exact hdropped rfl rfl
  | _ => exact hkept rfl (List.append_nil _).symm

theorem tryGetRequest_typing (ui : UI) : ui.tryGetRequest.2.typing = ui.typing := by
  unfold UI.tryGetRequest
  split <;> rfl

/-- Only a key changes what is typed. -/
theorem typing_step (hstep : ClientProcess.Step P p event q) (hkey : ∀ c, event ≠ .key c) :
    q.ui.typing = p.ui.typing := by
  cases hstep with
  | key hpoint hhandled => exact absurd rfl (hkey _)
  | @perform shared pending hpoint => cases shared <;> rfl
  | taken hpoint hrunning htry =>
      have htyping := tryGetRequest_typing p.ui
      rwa [htry] at htyping
  | refused hpoint hrunning htry =>
      have htyping := tryGetRequest_typing p.ui
      rwa [htry] at htyping
  | _ => rfl

theorem requests_of_event (hevent : ∀ shared, event ≠ .perform shared) : event.added = [] := by
  cases event with
  | perform shared => exact absurd rfl (hevent shared)
  | _ => rfl

/-- The part of a step that the process has in it. -/
theorem Kept.marked_step (hkept : Kept added marks requests t)
    (hstep : ClientProcess.Step P t.process event q) :
    (marks.map Prod.fst ++ (inHand q ++ q.ui.requests)).Sublist (requests ++ event.added) := by
  refine ((inHand_step hstep).append_left (marks.map Prod.fst)).trans ?_
  rw [← List.append_assoc]
  exact hkept.marked.append_right event.added

/-- Where the UI thread does not go on with a handler. -/
theorem Kept.process (hkept : Kept added marks requests t)
    (hstep : ClientProcess.Step P t.process event q) (hkey : ∀ c, event ≠ .key c)
    (hevent : event.added = []) (result : Option Outcome) :
    Kept added marks requests { t with process := q, result := result } := by
  have hmarked := hkept.marked_step hstep
  rw [hevent, List.append_nil] at hmarked
  refine ⟨hkept.messages, hkept.lines, hkept.ordered, fun request hrequest => ?_, hmarked⟩
  rw [Numbered, typing_step hstep hkey]
  exact hkept.bounded request hrequest

/-- No mark is on a line that is added. -/
theorem Kept.unmarked (hkept : Kept added marks requests t) {msg : Message}
    (hmsg : msg.id = none ∨ msg.id = some 0 ∨
      ∃ request ∈ UI.Act.requests t.acts, msg.id = some request.id) :
    amended marks msg = msg := by
  refine amended_of_forall_ne fun mark hmark hsame => ?_
  have hrequest : mark.1 ∈ requests := hkept.marked.subset
    (List.mem_append_left _ (List.mem_map_of_mem hmark))
  rw [hsame] at hmsg
  rcases hmsg with ⟨⟨⟩⟩ | hzero | ⟨request, hlater, hid⟩
  · exact (hkept.bounded _ (List.mem_append_left _ hrequest)).1 (Option.some.inj hzero)
  · have hlt := (List.pairwise_append.mp hkept.ordered).2.2 _ hrequest _ hlater
    rw [Option.some.inj hid] at hlt
    exact absurd hlt (UInt64.lt_irrefl _)

theorem Kept.messages_concat (hkept : Kept added marks requests t) {msg : Message}
    (hmsg : amended marks msg = msg) :
    t.messages ++ [msg] = (added ++ [msg]).map (amended marks) := by
  rw [List.map_append, List.map_singleton, hmsg, ← hkept.messages]

theorem eq_none_or_zero {msg : Message} (hmsg : msg.keyed = false) :
    msg.id = none ∨ msg.id = some 0 := by
  unfold Message.keyed at hmsg
  cases hid : msg.id with
  | none => exact Or.inl rfl
  | some id =>
      rw [hid] at hmsg
      exact Or.inr (congrArg some (by simpa using hmsg))

/-- A line that is under no number. -/
theorem Kept.unkeyed (hkept : Kept added marks requests t) {msg : Message}
    (hmsg : msg.keyed = false) :
    Kept (added ++ [msg]) marks requests { t with messages := t.messages ++ [msg] } := by
  have hnone := hkept.unmarked ((eq_none_or_zero hmsg).imp_right Or.inl)
  obtain ⟨noted, hrest, hlines⟩ := hkept.lines
  refine ⟨hkept.messages_concat hnone, ⟨noted, hrest, ?_⟩, hkept.ordered, hkept.bounded,
    hkept.marked⟩
  rw [List.filter_append, List.filter_singleton, hmsg, cond_false, List.append_nil, hlines]

theorem line_id (request : ClientRequest) :
    request.line.id = some 0 ∨ request.line.id = some request.id := by
  unfold ClientRequest.line
  cases request.type with
  | quit => exact Or.inl rfl
  | _ => exact Or.inr rfl

/-- The UI thread adds a line. -/
theorem Kept.addMessage (hkept : Kept added marks requests t) {msg : Message}
    {acts : List UI.Act} (hacts : t.acts = .addMessage msg :: acts) :
    Kept (added ++ [msg]) marks requests
      { t with acts := acts, messages := t.messages ++ [msg] } := by
  obtain ⟨noted, hrest, hlines⟩ := hkept.lines
  have hrequests : UI.Act.requests t.acts = UI.Act.requests acts := by
    rw [hacts]
    rfl
  rw [hacts] at hrest
  cases hrest with
  | addMessage hmsg hrest =>
      have hnew := hkept.unkeyed hmsg
      obtain ⟨-, -, hfiltered⟩ := hnew.lines
      refine ⟨hnew.messages, ⟨none, hrest, ?_⟩, hrequests ▸ hkept.ordered,
        hrequests ▸ hkept.bounded, hkept.marked⟩
      rw [List.filter_append, List.filter_singleton, hmsg, cond_false, List.append_nil, hlines]
  | @line acts request hrest =>
      have hqueued : request ∈ UI.Act.requests t.acts := by
        rw [hrequests]
        cases hrest with
        | addRequest request hrest => exact List.mem_cons_self
      have hnone : amended marks request.line = request.line :=
        hkept.unmarked ((line_id request).elim (fun hzero => Or.inr (Or.inl hzero))
          fun hid => Or.inr (Or.inr ⟨request, hqueued, hid⟩))
      refine ⟨hkept.messages_concat hnone, ⟨some request, hrest, ?_⟩, hrequests ▸ hkept.ordered,
        hrequests ▸ hkept.bounded, hkept.marked⟩
      rw [List.filter_append, hlines, ← List.filter_append]
      simp

/-- The UI thread does something that it shares with the client thread. -/
theorem Kept.perform (hkept : Kept added marks requests t) {shared : Effect}
    {acts : List UI.Act} (hacts : t.acts = .effect shared :: acts)
    (hstep : ClientProcess.Step P t.process (.perform shared) q) :
    Kept added marks (requests ++ ClientProcess.Event.added (.perform shared))
      { t with process := q, acts := acts } := by
  have hmarked := hkept.marked_step hstep
  have hall : requests ++ ClientProcess.Event.added (.perform shared) ++ UI.Act.requests acts =
      requests ++ UI.Act.requests t.acts := by
    rw [hacts, List.append_assoc]
    cases shared <;> rfl
  have hbounded : ∀ request ∈ requests ++ UI.Act.requests t.acts, request.id ≠ 0 ∧
      (q.ui.typing.nextRequestId ≠ 0 → request.id < q.ui.typing.nextRequestId) := by
    rw [typing_step hstep (by rintro _ ⟨⟩)]
    exact hkept.bounded
  obtain ⟨noted, hrest, hlines⟩ := hkept.lines
  rw [hacts] at hrest
  refine ⟨hkept.messages, ?_, hall ▸ hkept.ordered, hall ▸ hbounded, hmarked⟩
  cases hrest with
  | effect hshared hrest =>
      have hnone : ClientProcess.Event.added (.perform shared) = [] := by
        cases shared with
        | addRequest request => cases hshared
        | _ => rfl
      exact ⟨none, hrest, by rw [hlines, hnone, List.append_nil]⟩
  | addRequest request hrest =>
      refine ⟨none, hrest, ?_⟩
      rw [hlines]
      exact congrArg (fun lines => List.filter Message.keyed (List.map _ lines))
        (List.append_nil _).symm

theorem lt_succ_of_ne_zero {n : SequenceNo} (hn : n + 1 ≠ 0) : n < n + 1 := by
  rw [UInt64.lt_iff_toNat_lt, UInt64.toNat_add]
  have hlt := n.toNat_lt
  have hne : (n + 1).toNat ≠ 0 := fun hzero => hn (UInt64.toNat_inj.mp hzero)
  rw [UInt64.toNat_add] at hne
  simp only [UInt64.toNat_one] at hne ⊢
  omega

/-- A handler starts. -/
theorem Kept.key (hkept : Kept added marks requests t) (hnumbered : t.Numbered)
    (hidle : t.acts = []) {c : UInt8} {typing : Typing} {acts : List UI.Act}
    (hkey : t.process.ui.typing.noteKey c = .ok (typing, acts))
    (hstep : ClientProcess.Step P t.process (.key c) q) :
    Kept added marks requests { t with process := q, acts := acts } := by
  have hmarked := hkept.marked_step hstep
  rw [show ClientProcess.Event.added (.key c) = [] from rfl, List.append_nil] at hmarked
  obtain ⟨noted, hrest, hlines⟩ := hkept.lines
  have hordered := hkept.ordered
  have hbounded := hkept.bounded
  rw [hidle] at hrest hordered hbounded
  have hempty : UI.Act.requests [] = [] := rfl
  rw [hempty, List.append_nil] at hordered hbounded
  cases hrest with
  | nil =>
      obtain ⟨hrest, hrequests⟩ := Typing.asks_noteKey hkey
      have htyping : q.ui.typing = typing := by
        have hhandled := UI.Typing.unnoted_noteKey t.process.ui.typing c
        rw [hkey] at hhandled
        cases hstep with
        | key hpoint hhandle =>
            rw [← hhandled] at hhandle
            cases hhandle
            rfl
      rcases hrequests with ⟨hnext, hnone⟩ | ⟨hnext, request, hone, hid⟩
      · refine ⟨hkept.messages, ⟨none, hrest, hlines⟩, ?_, ?_, hmarked⟩
        · rw [hnone, List.append_nil]
          exact hordered
        · rw [hnone, List.append_nil]
          intro old hold
          rw [Numbered, htyping, hnext]
          exact hbounded old hold
      · have hlt : ∀ old ∈ requests, old.id < request.id := fun old hold =>
          hid ▸ (hbounded old hold).2 hnumbered
        refine ⟨hkept.messages, ⟨none, hrest, hlines⟩, ?_, ?_, hmarked⟩
        · rw [hone]
          refine List.pairwise_append.mpr ⟨hordered, List.pairwise_singleton _ _, ?_⟩
          rintro old hold _ hnew
          rw [List.mem_singleton.mp hnew]
          exact hlt old hold
        · rw [hone]
          intro old hold
          rw [Numbered, htyping, hnext]
          rcases List.mem_append.mp hold with hbefore | hnew
          · refine ⟨(hbounded old hbefore).1, fun hwrap => UInt64.lt_trans (hlt old hbefore) ?_⟩
            rw [hid]
            exact lt_succ_of_ne_zero hwrap
          · rw [List.mem_singleton.mp hnew, hid]
            exact ⟨hnumbered, lt_succ_of_ne_zero⟩

/-- The line of the request that is served is marked. -/
theorem Kept.mark (hkept : Kept added marks requests t) {request : ClientRequest}
    (hpoint : t.process.loopPoint = .serving request [])
    (hstep : ClientProcess.Step P t.process .served q) (outcome : Outcome) :
    Kept added (marks ++ [(request, outcome)]) requests
      { t with process := q, messages := editMessage request.id outcome.mark t.messages } := by
  have hmarked := hkept.marked
  rw [inHand_of_eq hpoint] at hmarked
  refine ⟨?_, hkept.lines, hkept.ordered, ?_, ?_⟩
  · rw [amended_concat, ← hkept.messages]
  · rw [Numbered, typing_step hstep (by rintro _ ⟨⟩)]
    exact hkept.bounded
  · have hleft : inHand q = [] ∧ q.ui.requests = t.process.ui.requests := by
      cases hstep with
      | served hpoint => exact ⟨rfl, rfl⟩
    rw [List.map_append, hleft.1, hleft.2, List.append_assoc]
    exact hmarked

theorem incoming_unkeyed {env : Env} {c : Client} {msg : Message}
    (hmsg : msg ∈ (c.incoming P env).toList) : msg.keyed = false := by
  rw [Option.mem_toList, Client.incoming] at hmsg
  split at hmsg
  · split at hmsg
    · cases hmsg
    · obtain ⟨text, -, rfl⟩ := Option.map_eq_some_iff.mp hmsg
      rfl
  · cases hmsg

theorem added_of_silent (hevent : Silent event) : event.added = [] ∧ ∀ c, event ≠ .key c := by
  refine ⟨requests_of_event ?_, ?_⟩
  · rintro shared rfl
    exact hevent
  · rintro c rfl
    exact hevent

/-- Where a step adds no line, marks none and queues nothing. -/
theorem Kept.of_plain (hkept : Kept added marks requests t) (hadded : event.added = []) :
    Kept (added ++ []) (marks ++ []) (requests ++ Label.requests ⟨some event, [], []⟩) t := by
  rw [show Label.requests ⟨some event, [], []⟩ = [] from hadded, List.append_nil,
    List.append_nil, List.append_nil]
  exact hkept

theorem kept_step {t' : MessageHistory} {label : Label} (hkept : Kept added marks requests t)
    (hnumbered : t.Numbered) (hstep : Step P t label t') :
    Kept (added ++ label.added) (marks ++ label.marked) (requests ++ label.requests) t' := by
  cases hstep with
  | key hidle hkey hstep => exact (hkept.key hnumbered hidle hkey hstep).of_plain rfl
  | addMessage hacts =>
      rw [show Label.requests ⟨none, _, _⟩ = [] from rfl, List.append_nil, List.append_nil]
      exact hkept.addMessage hacts
  | perform hacts hstep =>
      rw [List.append_nil, List.append_nil]
      exact hkept.perform hacts hstep
  | idle hevent hidle hstep =>
      rcases hevent with rfl | rfl
      · exact (hkept.process hstep (by rintro _ ⟨⟩) rfl t.result).of_plain rfl
      · exact (hkept.process hstep (by rintro _ ⟨⟩) rfl t.result).of_plain rfl
  | taken hstep => exact (hkept.process hstep (by rintro _ ⟨⟩) rfl none).of_plain rfl
  | call hpoint hstep => exact (hkept.process hstep (by rintro _ ⟨⟩) rfl _).of_plain rfl
  | silent hevent hstep =>
      obtain ⟨hadded, hkey⟩ := added_of_silent hevent
      exact (hkept.process hstep hkey hadded t.result).of_plain hadded
  | @served request q hpoint hstep =>
      rw [show Label.requests ⟨some .served, _, _⟩ = [] from rfl, List.append_nil,
        List.append_nil]
      obtain ⟨process, acts, result, messages⟩ := t
      cases result with
      | none =>
          rw [Option.toList_none, List.map_nil, List.append_nil]
          exact hkept.process hstep (by rintro _ ⟨⟩) rfl none
      | some outcome => exact hkept.mark hpoint hstep outcome
  | @receive env q hstep =>
      have hprocess := hkept.process hstep (by rintro _ ⟨⟩) rfl t.result
      rw [show Label.requests ⟨some (.receive env), _, _⟩ = [] from rfl, List.append_nil,
        List.append_nil]
      cases hline : t.process.client.incoming P env with
      | none =>
          rw [Option.toList_none, List.append_nil, List.append_nil]
          exact hprocess
      | some msg =>
          exact hprocess.unkeyed (incoming_unkeyed (Option.mem_toList.mpr hline))
  | disconnected hstep =>
      rw [show Label.requests ⟨some (.checkConnected false), _, _⟩ = [] from rfl,
        List.append_nil, List.append_nil]
      exact (hkept.process hstep (by rintro _ ⟨⟩) rfl t.result).unkeyed rfl

theorem kept {labels : List Label} {t' : MessageHistory} (hinit : (system P).init t)
    (hrun : Run ((system P).restrict fun t _ => t.Numbered) t labels t') :
    Kept (labels.flatMap Label.added) (labels.flatMap Label.marked)
      (labels.flatMap Label.requests) t' := by
  let sofar : List Label → MessageHistory → Prop := fun labels t =>
    Kept (labels.flatMap Label.added) (labels.flatMap Label.marked)
      (labels.flatMap Label.requests) t
  have hfresh : sofar [] t := by
    obtain ⟨_, ⟨sem, -, rfl⟩, rfl⟩ := hinit
    exact ⟨rfl, ⟨none, UI.Act.Rest.nil, rfl⟩, List.Pairwise.nil, by rintro _ ⟨⟩,
      List.Sublist.refl _⟩
  refine hrun.records ?_ hfresh
  intro before s label u hs hstep
  simp only [sofar, List.flatMap_append, List.flatMap_singleton]
  exact kept_step hs hstep.2 hstep.1

end MessageHistory

end LeakyChat

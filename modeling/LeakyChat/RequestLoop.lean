/-
The client process: the UI thread, the thread of `clientLoop`, `networkMonitor`
and `main`, in any interleaving.  Requests pass from the UI thread to
`clientLoop` through a queue, and `clientBackendSem` wakes the loop.
-/
import LeakyChat.ClientRun
import LeakyChat.Library.Wakeup
import LeakyChat.UserInterface

namespace LeakyChat

open Transition
open UI (Effect Typing)

/-- The calls that the branch of a request in `clientLoop` makes. -/
def ClientRequest.calls (request : ClientRequest) : List Client.Action :=
  match request.type with
  | .login => [.login request.username]
  | .sendMessage => [.connectTo request.username, .send request.message]
  | .getUsers => [.getUsers]
  | .e2e => [.setupE2E request.username false]
  | .quit => [.quit]

/-- The thread of `UI::run`: at the head of its loop, in `processInput` with so
much of a handler to go, or at its end. -/
inductive UIPoint where
  | loopHead
  | reading (pending : List Effect)
  | ended

/-- The thread of `clientLoop`: before the loop, at `acquire`, at the head of the
inner loop, in the branch of a request with so many calls to go, in the receive
part, after it, at `netmon.join()`, or at its end. -/
inductive LoopPoint where
  | connecting
  | acquiring
  | draining
  | serving (request : ClientRequest) (calls : List Client.Action)
  | receiving
  | received
  | joining
  | ended

/-- Between the return of `acquire` and the `false` of `tryGetRequest`. -/
def LoopPoint.drains : LoopPoint → Bool
  | .draining => true
  | .serving _ _ => true
  | _ => false

inductive MonitorPoint where
  | unstarted
  | loopHead
  | polling
  | ended

/-- `main`: at `clientThread.join()`, in `ui.stop()` before its release, at
`uiThread.join()`, or behind `ui.stop()`, with the UI thread joined or not. -/
inductive MainPoint where
  | joining
  | stopping
  | joiningUI
  | stopped (joined : Bool)

structure ClientProcess where
  ui : UI
  client : Client
  clientBackendSem : BinarySemaphore
  running : Bool
  uiPoint : UIPoint
  loopPoint : LoopPoint
  monitorPoint : MonitorPoint
  mainPoint : MainPoint

namespace ClientProcess

/-- What happens in a step, and in which thread.  `arrive` is the network. -/
inductive Event where
  | uiLoop
  | key (c : UInt8)
  | perform (effect : Effect)
  | noInput
  | connect
  | acquire
  | tryGetRequest (result : Option ClientRequest)
  | call (env : Env)
  | served
  | leave
  | receive (env : Env)
  | checkConnected (connected : Bool)
  | join
  | monitorLoop
  | monitorPoll (readable : Bool)
  | stop
  | stopRelease
  | stopJoin
  | arrive (item : Option Packet)

/-- After `ui.start()`, where `clientThread` starts. -/
def fresh (sem : BinarySemaphore) : ClientProcess :=
  ⟨UI.fresh.start, Client.fresh, sem, true, .loopHead, .connecting, .unstarted, .joining⟩

/-- The effect of a handler on what the threads share. -/
def perform (p : ClientProcess) : Effect → ClientProcess
  | .addRequest request =>
      { p with
        ui := p.ui.addRequest request
        clientBackendSem := p.clientBackendSem.release }
  | .clearRunning => { p with ui := { p.ui with running := false } }
  | .release => { p with clientBackendSem := p.clientBackendSem.release }

/-- Which thread moves is left open.  What ends the process as a whole is no step
of a thread. -/
inductive Step (P : Primitives) : ClientProcess → Event → ClientProcess → Prop
  | uiLoop {p : ClientProcess} (hpoint : p.uiPoint = .loopHead) :
      Step P p .uiLoop { p with uiPoint := if p.ui.running then .reading [] else .ended }
  | key {p : ClientProcess} {c : UInt8} {typing : Typing} {effects : List Effect}
      (hpoint : p.uiPoint = .reading []) (hkey : p.ui.typing.handleKey c = .ok (typing, effects)) :
      Step P p (.key c) { p with ui := { p.ui with typing := typing }, uiPoint := .reading effects }
  | perform {p : ClientProcess} {effect : Effect} {pending : List Effect}
      (hpoint : p.uiPoint = .reading (effect :: pending)) :
      Step P p (.perform effect) { p.perform effect with uiPoint := .reading pending }
  | noInput {p : ClientProcess} (hpoint : p.uiPoint = .reading []) :
      Step P p .noInput { p with uiPoint := .loopHead }
  | connect {p : ClientProcess} (hpoint : p.loopPoint = .connecting) :
      Step P p .connect { p with loopPoint := .acquiring, monitorPoint := .loopHead }
  | acquire {p : ClientProcess} {sem : BinarySemaphore} (hpoint : p.loopPoint = .acquiring)
      (hsem : p.clientBackendSem.acquire = some sem) :
      Step P p .acquire { p with clientBackendSem := sem, loopPoint := .draining }
  /-- `tryGetRequest` holds `requestMutex`, as `addRequest` does. -/
  | taken {p : ClientProcess} {request : ClientRequest} {ui : UI}
      (hpoint : p.loopPoint = .draining) (hrunning : p.running = true)
      (htry : p.ui.tryGetRequest = (some request, ui)) :
      Step P p (.tryGetRequest (some request))
        { p with ui := ui, loopPoint := .serving request request.calls }
  | refused {p : ClientProcess} {ui : UI} (hpoint : p.loopPoint = .draining)
      (hrunning : p.running = true) (htry : p.ui.tryGetRequest = (none, ui)) :
      Step P p (.tryGetRequest none) { p with ui := ui, loopPoint := .receiving }
  | call {p : ClientProcess} {request : ClientRequest} {action : Client.Action}
      {calls : List Client.Action} {env : Env} {client : Client}
      (hpoint : p.loopPoint = .serving request (action :: calls))
      (hcall : Client.perform P env action p.client = .ok (⟨⟩, client)) :
      Step P p (.call env) { p with client := client, loopPoint := .serving request calls }
  | served {p : ClientProcess} {request : ClientRequest}
      (hpoint : p.loopPoint = .serving request []) :
      Step P p .served
        { p with running := p.running && request.type ≠ .quit, loopPoint := .draining }
  /-- The inner loop asks `running` first, and then `if (!running) break;`. -/
  | leave {p : ClientProcess} (hpoint : p.loopPoint = .draining) (hrunning : p.running = false) :
      Step P p .leave { p with loopPoint := .joining }
  | receive {p : ClientProcess} {env : Env} {client : Client} (hpoint : p.loopPoint = .receiving)
      (hcall : Client.perform P env .receive p.client = .ok (⟨⟩, client)) :
      Step P p (.receive env)
        { p with
          client := client
          loopPoint := if p.client.mail.poll.1.isSome then .receiving else .received }
  /-- Only this thread clears its `running`, so `while (running)` goes round. -/
  | stillConnected {p : ClientProcess} (hpoint : p.loopPoint = .received) :
      Step P p (.checkConnected true) { p with loopPoint := .acquiring }
  | disconnected {p : ClientProcess} (hpoint : p.loopPoint = .received) :
      Step P p (.checkConnected false) { p with running := false, loopPoint := .joining }
  | join {p : ClientProcess} (hpoint : p.loopPoint = .joining)
      (hmonitor : p.monitorPoint = .ended) : Step P p .join { p with loopPoint := .ended }
  | monitorLoop {p : ClientProcess} (hpoint : p.monitorPoint = .loopHead) :
      Step P p .monitorLoop { p with monitorPoint := if p.running then .polling else .ended }
  | readable {p : ClientProcess} (hpoint : p.monitorPoint = .polling) :
      Step P p (.monitorPoll true)
        { p with clientBackendSem := p.clientBackendSem.release, monitorPoint := .loopHead }
  | quiet {p : ClientProcess} (hpoint : p.monitorPoint = .polling) :
      Step P p (.monitorPoll false) { p with monitorPoint := .loopHead }
  | stop {p : ClientProcess} (hpoint : p.mainPoint = .joining) (hloop : p.loopPoint = .ended) :
      Step P p .stop
        { p with
          ui := { p.ui with running := false }
          mainPoint := if p.ui.running then .stopping else .stopped false }
  | stopRelease {p : ClientProcess} (hpoint : p.mainPoint = .stopping) :
      Step P p .stopRelease
        { p with clientBackendSem := p.clientBackendSem.release, mainPoint := .joiningUI }
  | stopJoin {p : ClientProcess} (hpoint : p.mainPoint = .joiningUI) (hui : p.uiPoint = .ended) :
      Step P p .stopJoin { p with mainPoint := .stopped true }
  | arrive {p : ClientProcess} {env : Env} {item : Option Packet} {client : Client}
      (hcall : Client.perform P env (.arrive item) p.client = .ok (⟨⟩, client)) :
      Step P p (.arrive item) { p with client := client }

/-- `clientBackendSem` starts at 1. -/
def system (P : Primitives) : System ClientProcess Event where
  init p := ∃ sem : BinarySemaphore, sem.count = 1 ∧ p = fresh sem
  step := Step P

variable {P : Primitives} {p q : ClientProcess} {event : Event}

/-- What a step takes out of the queue and what it puts in. -/
def Event.handedOut : Event → List ClientRequest
  | .tryGetRequest result => result.toList
  | _ => []

def Event.added : Event → List ClientRequest
  | .perform (.addRequest request) => [request]
  | _ => []

/-- Requests are queued that `tryGetRequest` will not hand out. -/
def Stranded (p : ClientProcess) : Prop := p.ui.running = false ∧ p.ui.requests ≠ []

/-- `running` is cleared only while nothing is queued, and nothing is queued once
it has been. -/
def Orderly (p : ClientProcess) : Event → Prop
  | .perform (.addRequest _) => p.ui.running = true
  | .perform .clearRunning => p.ui.requests = []
  | .stop => p.ui.requests = []
  | _ => True

/-- All that a step can do to the queue and to `running` of the UI. -/
inductive QueueStep (p : ClientProcess) : Event → ClientProcess → Prop
  | untouched {event : Event} {q : ClientProcess} (hout : event.handedOut = [])
      (hin : event.added = []) (horderly : Orderly p event)
      (hrunning : q.ui.running = p.ui.running) (hrequests : q.ui.requests = p.ui.requests) :
      QueueStep p event q
  | added {q : ClientProcess} (request : ClientRequest)
      (hrunning : q.ui.running = p.ui.running)
      (hrequests : q.ui.requests = p.ui.requests ++ [request]) :
      QueueStep p (.perform (.addRequest request)) q
  | cleared {event : Event} {q : ClientProcess} (hout : event.handedOut = [])
      (hin : event.added = []) (horderly : Orderly p event ↔ p.ui.requests = [])
      (hrunning : q.ui.running = false) (hrequests : q.ui.requests = p.ui.requests) :
      QueueStep p event q
  | taken {q : ClientProcess} (request : ClientRequest) (hrunning : p.ui.running = true)
      (hsame : q.ui.running = p.ui.running) (hrequests : p.ui.requests = request :: q.ui.requests) :
      QueueStep p (.tryGetRequest (some request)) q

theorem queueStep_of_step (hstep : Step P p event q) : QueueStep p event q := by
  cases hstep with
  | @perform effect pending hpoint =>
      cases effect with
      | addRequest request => exact QueueStep.added request rfl rfl
      | clearRunning => exact QueueStep.cleared rfl rfl Iff.rfl rfl rfl
      | release => exact QueueStep.untouched rfl rfl trivial rfl rfl
  | @taken request ui hpoint hrunning htry =>
      obtain ⟨hrun, hrequests, hsame⟩ := UI.tryGetRequest_some htry
      exact QueueStep.taken request hrun hsame hrequests
  | refused hpoint hrunning htry =>
      obtain ⟨rfl, -⟩ := UI.tryGetRequest_none htry
      exact QueueStep.untouched rfl rfl trivial rfl rfl
  | stop hpoint hloop => exact QueueStep.cleared rfl rfl Iff.rfl rfl rfl
  | _ => exact QueueStep.untouched rfl rfl trivial rfl rfl

theorem requests_of_step (hstep : Step P p event q) :
    event.handedOut ++ q.ui.requests = p.ui.requests ++ event.added := by
  cases queueStep_of_step hstep with
  | untouched hout hin horderly hrunning hrequests =>
      rw [hout, hin, hrequests, List.nil_append, List.append_nil]
  | added request hrunning hrequests => exact hrequests
  | cleared hout hin horderly hrunning hrequests =>
      rw [hout, hin, hrequests, List.nil_append, List.append_nil]
  | taken request hrunning hsame hrequests =>
      rw [hrequests]
      exact (List.append_nil _).symm

/-- Every request that was added has been handed out, or waits behind those that
have. -/
theorem handedOut_append_requests {events : List Event} (hinit : (system P).init p)
    (hrun : Run (system P) p events q) :
    events.flatMap Event.handedOut ++ q.ui.requests = events.flatMap Event.added := by
  obtain ⟨sem, -, rfl⟩ := hinit
  exact hrun.flow fun _ _ _ => requests_of_step

theorem not_stranded_of_step (hstep : Step P p event q) (horderly : Orderly p event)
    (hp : ¬ p.Stranded) : ¬ q.Stranded := by
  rintro ⟨hstopped, hremain⟩
  cases queueStep_of_step hstep with
  | untouched hout hin _ hrunning hrequests =>
      exact hp ⟨hrunning.symm.trans hstopped, hrequests ▸ hremain⟩
  | added request hrunning hrequests =>
      have hrun : p.ui.running = true := horderly
      exact Bool.false_ne_true (hstopped.symm.trans (hrunning.trans hrun))
  | cleared hout hin hclear hrunning hrequests =>
      exact hremain (hrequests.trans (hclear.mp horderly))
  | taken request hrunning hsame hrequests =>
      exact Bool.false_ne_true (hstopped.symm.trans (hsame.trans hrunning))

theorem not_stranded {events : List Event} (hinit : (system P).init p)
    (hrun : Run ((system P).restrict Orderly) p events q) : ¬ q.Stranded := by
  refine hrun.preserves (P := fun p => ¬ p.Stranded) ?_ ?_
  · exact fun p event q hp hstep => not_stranded_of_step hstep.1 hstep.2 hp
  · obtain ⟨sem, -, rfl⟩ := hinit
    exact fun hstranded => hstranded.2 rfl

/-- In `processInput`, with this line so far. -/
def withInput (p : ClientProcess) (line : InputLine) : ClientProcess :=
  { p with
    ui := { p.ui with typing := { p.ui.typing with input := line } }
    uiPoint := .reading [] }

/-- Typing at the end of the line. -/
theorem run_types (p : ClientProcess) (start final : Str) (text : List UInt8)
    (htext : ∀ c ∈ text, Typing.Printable c) (hfinal : final.1 = start.1 ++ text) :
    Run ((system P).restrict Orderly) (p.withInput (.ofText start)) (text.map Event.key)
      (p.withInput (.ofText final)) := by
  induction text generalizing start with
  | nil =>
      obtain rfl : final = start := Subtype.ext (hfinal.trans (List.append_nil _))
      exact Run.nil _
  | cons c text ih =>
      have hsize : (start.1 ++ [c]).length ≤ maxSize := by
        have hle := final.2
        rw [hfinal] at hle
        simp only [List.length_append, List.length_cons, List.length_nil] at hle ⊢
        omega
      let longer : Str := ⟨start.1 ++ [c], hsize⟩
      have hkey : (p.withInput (.ofText start)).ui.typing.handleKey c =
          .ok ((p.withInput (.ofText longer)).ui.typing, []) :=
        Typing.handleKey_printable (htext c List.mem_cons_self) rfl rfl
      have hrest := ih longer (fun a ha => htext a (List.mem_cons_of_mem c ha))
        (hfinal.trans (List.append_cons _ _ _))
      exact Run.cons ⟨Step.key rfl hkey, trivial⟩ hrest

def quitRequest : ClientRequest := ⟨.quit, 1, .empty, .empty⟩

/-- `/quit` has been typed and its request queued, `running` is not cleared yet,
and `clientLoop` comes to `acquire`. -/
def quitQueued (sem : BinarySemaphore) : ClientProcess :=
  ⟨⟨true, [quitRequest], ⟨.empty, .empty, 2⟩⟩, Client.fresh, sem.release, true,
    .reading [.clearRunning], .acquiring, .loopHead, .joining⟩

def quitEvents : List Event :=
  .uiLoop :: ((ascii "/quit").map .key ++
    [.key 10, .perform (.addRequest quitRequest), .connect])

theorem run_quitQueued (sem : BinarySemaphore) :
    Run ((system P).restrict Orderly) (fresh sem) quitEvents (quitQueued sem) := by
  have hall : (ascii "/quit").all (fun c => decide (Typing.Printable c)) = true := rfl
  have hprintable : ∀ c ∈ ascii "/quit", Typing.Printable c := fun c hc =>
    of_decide_eq_true (List.all_eq_true.mp hall c hc)
  have htyped := run_types (P := P) (fresh sem) .empty ⟨ascii "/quit", by decide⟩
    (ascii "/quit") hprintable rfl
  have hsubmit : Typing.handleKey ⟨.empty, .ofText ⟨ascii "/quit", by decide⟩, 1⟩ 10 =
      .ok (⟨.empty, .empty, 2⟩, [.addRequest quitRequest, .clearRunning]) := rfl
  refine Run.cons ⟨Step.uiLoop rfl, trivial⟩ (Run.append htyped ?_)
  refine Run.cons ⟨Step.key rfl hsubmit, trivial⟩ ?_
  exact Run.cons ⟨Step.perform rfl, rfl⟩ (Run.cons ⟨Step.connect rfl, trivial⟩ (Run.nil _))

/-- In an orderly run the requests are handed out in the order in which they were
added, `tryGetRequest` refuses only when all have been, and once the UI has
stopped all have been. -/
theorem requests_handed_out {events : List Event} (hinit : (system P).init p)
    (hrun : Run ((system P).restrict Orderly) p events q) :
    events.flatMap Event.handedOut ++ q.ui.requests = events.flatMap Event.added ∧
      (∀ r, (system P).step q (.tryGetRequest none) r → q.ui.requests = []) ∧
      (q.ui.running = false → events.flatMap Event.handedOut = events.flatMap Event.added) := by
  have hall := handedOut_append_requests hinit hrun.of_restrict
  have hdrained : q.ui.running = false → q.ui.requests = [] := fun hstopped =>
    by_contra fun hrequests => not_stranded hinit hrun ⟨hstopped, hrequests⟩
  refine ⟨hall, ?_, ?_⟩
  · intro r hstep
    cases hstep with
    | refused hpoint hrunning htry =>
        obtain ⟨-, hstopped | hempty⟩ := UI.tryGetRequest_none htry
        · exact hdrained hstopped
        · exact hempty
  · intro hstopped
    rwa [hdrained hstopped, List.append_nil] at hall

/-- `clientLoop` takes the request before `running` is cleared. -/
theorem requests_handed_out_sample :
    ∃ events q, Run (system .clear) (fresh ⟨1, 1, Nat.one_pos, Nat.le_refl 1⟩) events q ∧
      q.ui.running = false ∧ q.running = false ∧
      events.flatMap Event.handedOut = [quitRequest] := by
  let sem : BinarySemaphore := ⟨1, 1, Nat.one_pos, Nat.le_refl 1⟩
  obtain ⟨client, hcall⟩ : ∃ client, Client.perform .clear (Client.sampleEnv 0) .quit
      Client.fresh = .ok (⟨⟩, client) := ⟨_, rfl⟩
  have hserved : Run ((system .clear).restrict Orderly) (quitQueued sem)
      [.acquire, .tryGetRequest (some quitRequest), .call (Client.sampleEnv 0), .served,
        .perform .clearRunning] _ :=
    Run.cons ⟨Step.acquire rfl rfl, trivial⟩ <|
    Run.cons ⟨Step.taken rfl rfl rfl, trivial⟩ <|
    Run.cons ⟨Step.call rfl hcall, trivial⟩ <|
    Run.cons ⟨Step.served rfl, trivial⟩ <|
    Run.cons ⟨Step.perform rfl, rfl⟩ (Run.nil _)
  have hrun := (run_quitQueued sem).append hserved
  obtain ⟨-, -, hall⟩ := requests_handed_out ⟨sem, rfl, rfl⟩ hrun
  exact ⟨_, _, hrun.of_restrict, rfl, rfl, hall rfl⟩

/-- `running` is cleared before `clientLoop` takes the request: `tryGetRequest`
says no though the request is there. -/
theorem tryGetRequest_refuses_quit :
    ¬ ∀ (p q r : ClientProcess) (events : List Event), (system .clear).init p →
      Run (system .clear) p events q → (system .clear).step q (.tryGetRequest none) r →
      q.ui.requests = [] := by
  intro hclaim
  let sem : BinarySemaphore := ⟨1, 1, Nat.one_pos, Nat.le_refl 1⟩
  have hrun : Run (system .clear) (fresh sem) (quitEvents ++ [.perform .clearRunning, .acquire])
      _ :=
    (run_quitQueued sem).of_restrict.append
      (Run.cons (Step.perform rfl) (Run.cons (Step.acquire rfl rfl) (Run.nil _)))
  have hempty := hclaim _ _ _ _ ⟨sem, rfl, rfl⟩ hrun (Step.refused rfl rfl rfl)
  cases hempty

theorem stranded_of_not_orderly (hstep : Step P p event q) (hdisorder : ¬ Orderly p event) :
    q.Stranded := by
  cases queueStep_of_step hstep with
  | untouched hout hin horderly hrunning hrequests => exact absurd horderly hdisorder
  | added request hrunning hrequests =>
      have hstopped : p.ui.running = false := Bool.not_eq_true _ ▸ hdisorder
      refine ⟨hrunning.trans hstopped, ?_⟩
      rw [hrequests]
      exact List.append_ne_nil_of_right_ne_nil _ (List.cons_ne_nil _ _)
  | cleared hout hin hclear hrunning hrequests =>
      exact ⟨hrunning, fun hempty => hdisorder (hclear.mpr (hrequests.symm.trans hempty))⟩
  | taken request hrunning hsame hrequests => exact absurd trivial hdisorder

theorem Stranded.of_step (hp : p.Stranded) (hstep : Step P p event q) :
    q.Stranded ∧ event.handedOut = [] := by
  obtain ⟨hstopped, hremain⟩ := hp
  cases queueStep_of_step hstep with
  | untouched hout hin horderly hrunning hrequests =>
      exact ⟨⟨hrunning.trans hstopped, hrequests ▸ hremain⟩, hout⟩
  | added request hrunning hrequests =>
      refine ⟨⟨hrunning.trans hstopped, ?_⟩, rfl⟩
      rw [hrequests]
      exact List.append_ne_nil_of_left_ne_nil hremain _
  | cleared hout hin hclear hrunning hrequests => exact ⟨⟨hrunning, hrequests ▸ hremain⟩, hout⟩
  | taken request hrunning hsame hrequests =>
      exact absurd (hstopped.symm.trans hrunning) Bool.false_ne_true

/-- What is queued at a step that is not orderly, or put in by it, is never handed
out. -/
theorem never_handed_out {events : List Event} {r : ClientProcess} (hstep : Step P p event q)
    (hdisorder : ¬ Orderly p event) (hrun : Run (system P) q events r) :
    q.ui.requests ≠ [] ∧ r.ui.requests = q.ui.requests ++ events.flatMap Event.added := by
  have hq := stranded_of_not_orderly hstep hdisorder
  have hflow := hrun.flow fun _ _ _ => requests_of_step
  have hnone : events.flatMap Event.handedOut = [] := by
    clear hstep hdisorder hflow
    induction hrun with
    | nil s => rfl
    | cons head tail ih =>
        obtain ⟨hnext, hhead⟩ := hq.of_step head
        rw [List.flatMap_cons, hhead, ih hnext, List.nil_append]
  exact ⟨hq.2, by rwa [hnone] at hflow⟩

/-- Neither `running` is ever set again. -/
def Live (p : ClientProcess) : Prop := p.ui.running = true ∧ p.running = true

/-- `clientLoop` as the consumer of the queue. -/
def wakeup (p : ClientProcess) : Wakeup.State ClientRequest :=
  ⟨p.ui.requests, p.clientBackendSem.count, p.loopPoint.drains⟩

theorem live_of_step (hstep : Step P p event q) (hq : q.Live) : p.Live := by
  obtain ⟨hui, hrunning⟩ := hq
  refine ⟨?_, ?_⟩
  · cases queueStep_of_step hstep with
    | untouched hout hin horderly hsame hrequests => exact hsame.symm.trans hui
    | added request hsame hrequests => exact hsame.symm.trans hui
    | cleared hout hin hclear hstopped hrequests =>
        exact absurd (hstopped.symm.trans hui) Bool.false_ne_true
    | taken request hrun hsame hrequests => exact hrun
  · cases hstep with
    | @perform effect pending hpoint => cases effect <;> exact hrunning
    | served hpoint => exact (Bool.and_eq_true_iff.mp hrunning).1
    | disconnected hpoint => cases hrunning
    | _ => exact hrunning

/-- As long as both run, a step of the process is a move of the consumer or of a
producer, or does not touch what they share. -/
theorem wakeup_of_step (hstep : Step P p event q) (hq : q.Live) :
    q.wakeup = p.wakeup ∨ ∃ move, Wakeup.Step p.wakeup move q.wakeup := by
  cases hstep with
  | @perform effect pending hpoint =>
      cases effect with
      | addRequest request =>
          exact Or.inr ⟨.put request, Wakeup.Step.put request _
            p.clientBackendSem.release_count_pos⟩
      | clearRunning => cases hq.1
      | release =>
          exact Or.inr ⟨.signal, Wakeup.Step.signal _ p.clientBackendSem.release_count_pos⟩
  | @acquire sem hpoint hsem =>
      have hwakeup : p.wakeup = ⟨p.ui.requests, sem.count + 1, false⟩ := by
        rw [wakeup, hpoint, BinarySemaphore.acquire_eq_some hsem]
        rfl
      rw [hwakeup]
      exact Or.inr ⟨.wake, Wakeup.Step.wake sem.count⟩
  | @taken request ui hpoint hrunning htry =>
      obtain ⟨-, hrequests, -⟩ := UI.tryGetRequest_some htry
      have hwakeup : p.wakeup = ⟨request :: ui.requests, p.clientBackendSem.count, true⟩ := by
        rw [wakeup, hpoint, hrequests]
        rfl
      rw [hwakeup]
      exact Or.inr ⟨.take request, Wakeup.Step.take request⟩
  | @refused ui hpoint hrunning htry =>
      obtain ⟨rfl, hempty⟩ := UI.tryGetRequest_none htry
      have hrequests : p.ui.requests = [] := hempty.resolve_left fun hstopped =>
        Bool.false_ne_true (hstopped.symm.trans hq.1)
      have hwakeup : p.wakeup = ⟨[], p.clientBackendSem.count, true⟩ := by
        rw [wakeup, hpoint, hrequests]
        rfl
      have hslept : ClientProcess.wakeup { p with loopPoint := .receiving } =
          ⟨[], p.clientBackendSem.count, false⟩ := by
        rw [wakeup, hrequests]
        rfl
      exact Or.inr ⟨.sleep, hwakeup ▸ hslept ▸ Wakeup.Step.sleep⟩
  | readable hpoint =>
      exact Or.inr ⟨.signal, Wakeup.Step.signal _ p.clientBackendSem.release_count_pos⟩
  | stopRelease hpoint =>
      exact Or.inr ⟨.signal, Wakeup.Step.signal _ p.clientBackendSem.release_count_pos⟩
  | leave hpoint hrunning => exact absurd (hrunning.symm.trans hq.2) Bool.false_ne_true
  | disconnected hpoint => cases hq.2
  | stop hpoint hloop => cases hq.1
  | connect hpoint => exact Or.inl (by rw [wakeup, wakeup, hpoint]; rfl)
  | call hpoint hcall => exact Or.inl (by rw [wakeup, wakeup, hpoint]; rfl)
  | served hpoint => exact Or.inl (by rw [wakeup, wakeup, hpoint]; rfl)
  | stillConnected hpoint => exact Or.inl (by rw [wakeup, wakeup, hpoint]; rfl)
  | join hpoint hmonitor => exact Or.inl (by rw [wakeup, wakeup, hpoint]; rfl)
  | receive hpoint hcall =>
      refine Or.inl ?_
      rw [wakeup, wakeup, hpoint]
      split <;> rfl
  | _ => exact Or.inl rfl

theorem signalled (hreach : Reachable (system P) p) (hlive : p.Live) : p.wakeup.Signalled := by
  refine hreach.invariant (P := fun p => p.Live → p.wakeup.Signalled) ?_ ?_ hlive
  · rintro _ ⟨sem, hcount, rfl⟩ - - -
    change 0 < sem.count
    omega
  · intro p event q hp hstep hq
    have hsignalled := hp (live_of_step hstep hq)
    rcases wakeup_of_step hstep hq with hsame | ⟨move, hmove⟩
    · exact hsame ▸ hsignalled
    · exact hmove.signalled hsignalled

/-- While the UI and the client run, the client does not sleep on a request: where
it is not draining the queue and the queue holds something, the semaphore is up,
and `acquire` returns. -/
theorem acquire_of_requests (hreach : Reachable (system P) p) (hui : p.ui.running = true)
    (hrunning : p.running = true) (houtside : p.loopPoint.drains = false)
    (hrequests : p.ui.requests ≠ []) :
    0 < p.clientBackendSem.count ∧
      (p.loopPoint = .acquiring → ∃ q, (system P).step p .acquire q) := by
  have hcount : 0 < p.clientBackendSem.count :=
    signalled hreach ⟨hui, hrunning⟩ houtside hrequests
  refine ⟨hcount, fun hpoint => ?_⟩
  obtain ⟨sem, hsem⟩ := BinarySemaphore.acquire_of_pos hcount
  exact ⟨_, Step.acquire hpoint hsem⟩

theorem acquire_of_requests_sample :
    let p := quitQueued ⟨1, 1, Nat.one_pos, Nat.le_refl 1⟩
    0 < p.clientBackendSem.count ∧ ∃ q, (system .clear).step p .acquire q := by
  intro p
  have hreach : Reachable (system .clear) p :=
    ⟨_, _, ⟨_, rfl, rfl⟩, (run_quitQueued _).of_restrict⟩
  obtain ⟨hcount, hacquire⟩ := acquire_of_requests hreach rfl rfl rfl (List.cons_ne_nil _ _)
  exact ⟨hcount, hacquire rfl⟩

theorem client_of_step (hstep : Step P p event q) :
    q.client = p.client ∨ ∃ label, (Client.system P).step p.client label q.client := by
  cases hstep with
  | @perform effect pending hpoint => cases effect <;> exact Or.inl rfl
  | @call request action calls env client hpoint hcall => exact Or.inr ⟨(env, action), hcall⟩
  | @receive env client hpoint hcall => exact Or.inr ⟨(env, .receive), hcall⟩
  | @arrive env item client hcall => exact Or.inr ⟨(env, .arrive item), hcall⟩
  | _ => exact Or.inl rfl

/-- What is proved of the runs of the client holds of it in the process. -/
theorem client_reachable (hreach : Reachable (system P) p) :
    Reachable (Client.system P) p.client := by
  have hfollows : ∃ client, Reachable (Client.system P) client ∧ client = p.client := by
    refine hreach.simulation (R := fun p client => client = p.client) ?_ ?_
    · rintro _ ⟨sem, -, rfl⟩
      exact ⟨Client.fresh, rfl, rfl⟩
    · rintro p event q _ rfl hstep
      rcases client_of_step hstep with hsame | ⟨label, hlabel⟩
      · exact Or.inl hsame.symm
      · exact Or.inr ⟨label, q.client, hlabel, rfl⟩
  obtain ⟨client, hclient, rfl⟩ := hfollows
  exact hclient

end ClientProcess

end LeakyChat

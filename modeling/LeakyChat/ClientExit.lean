/-
How the client process comes to its end.  `clientLoop` leaves its loop only
after a `/quit` that it was handed or a connection that was lost, while Ctrl-C
and `/quit` stop the UI on their own.  Besides that an exception that leaves a
thread, `exit` and a signal end the process.
-/
import LeakyChat.RequestLoop

namespace LeakyChat

open Transition

namespace ClientProcess

/-- `netmon.join()` is still to come, or behind. -/
def Left (p : ClientProcess) : Prop := p.loopPoint = .joining ∨ p.loopPoint = .ended

/-- Where the threads are while `running` is set, and after. -/
structure Placed (p : ClientProcess) : Prop where
  left : p.Left → p.running = false
  cleared : p.running = false → p.loopPoint = .draining ∨ p.Left
  main : p.mainPoint ≠ .joining → p.loopPoint = .ended
  stopped : p.mainPoint ≠ .joining → p.ui.running = false
  started : p.monitorPoint = .unstarted → p.loopPoint = .connecting

variable {P : Primitives} {p q : ClientProcess} {event : Event} {events : List Event}

theorem Placed.joining (hp : p.Placed) (hended : p.loopPoint ≠ .ended) :
    p.mainPoint = .joining :=
  Classical.by_contradiction fun hmain => hended (hp.main hmain)

/-- A run in which the connection is not found lost. -/
def Undisturbed (P : Primitives) (p q : ClientProcess) : Prop :=
  ∃ events, Run (system P) p events q ∧ .checkConnected false ∉ events

theorem Undisturbed.refl (P : Primitives) (p : ClientProcess) : Undisturbed P p p :=
  ⟨[], Run.nil p, by rintro ⟨⟩⟩

theorem Undisturbed.trans {r : ClientProcess} (hfirst : Undisturbed P p q)
    (hlast : Undisturbed P q r) : Undisturbed P p r := by
  obtain ⟨first, hrun, hnone⟩ := hfirst
  obtain ⟨last, hrest, hlater⟩ := hlast
  exact ⟨first ++ last, hrun.append hrest, fun hmem => (List.mem_append.mp hmem).elim hnone hlater⟩

theorem Undisturbed.step (hstep : Step P p event q) (hevent : event ≠ .checkConnected false) :
    Undisturbed P p q :=
  ⟨[event], Run.cons hstep (Run.nil q), fun hmem => hevent (List.mem_singleton.mp hmem).symm⟩

/-- `networkMonitor` sees that `running` is cleared, after a round at most. -/
theorem exists_monitor_ended (hcleared : p.running = false)
    (hstarted : p.monitorPoint ≠ .unstarted) :
    Undisturbed P p { p with monitorPoint := .ended } := by
  obtain ⟨ui, client, sem, running, uiPoint, loopPoint, monitorPoint, mainPoint⟩ := p
  cases hcleared
  have hlast : Undisturbed P ⟨ui, client, sem, false, uiPoint, loopPoint, .loopHead, mainPoint⟩
      ⟨ui, client, sem, false, uiPoint, loopPoint, .ended, mainPoint⟩ :=
    Undisturbed.step (Step.monitorLoop rfl) (by rintro ⟨⟩)
  cases monitorPoint with
  | unstarted => exact absurd rfl hstarted
  | loopHead => exact hlast
  | polling => exact (Undisturbed.step (Step.quiet rfl) (by rintro ⟨⟩)).trans hlast
  | ended => exact Undisturbed.refl P _

theorem exists_joined (hp : p.Placed) (hjoining : p.loopPoint = .joining) :
    Undisturbed P p { p with loopPoint := .ended, monitorPoint := .ended } := by
  have hmonitor : Undisturbed P p { p with monitorPoint := .ended } :=
    exists_monitor_ended (hp.left (Or.inl hjoining)) fun hunstarted =>
      absurd (hjoining.symm.trans (hp.started hunstarted)) (by rintro ⟨⟩)
  exact hmonitor.trans (Undisturbed.step (Step.join hjoining rfl) (by rintro ⟨⟩))

/-- The UI thread finishes the handler it is in, once the UI has stopped. -/
theorem exists_handled (pending : List UI.Effect) (hui : p.ui.running = false)
    (hpoint : p.uiPoint = .reading pending) :
    ∃ q, Undisturbed P p q ∧ q.ui.running = false ∧ q.uiPoint = .reading [] ∧
      q.mainPoint = p.mainPoint := by
  induction pending generalizing p with
  | nil => exact ⟨p, Undisturbed.refl P p, hui, hpoint, rfl⟩
  | cons effect pending ih =>
      have hperformed : ({ p.perform effect with uiPoint := .reading pending } :
          ClientProcess).ui.running = false ∧
          ({ p.perform effect with uiPoint := .reading pending } :
            ClientProcess).mainPoint = p.mainPoint := by
        cases effect with
        | clearRunning => exact ⟨rfl, rfl⟩
        | _ => exact ⟨hui, rfl⟩
      obtain ⟨q, hrest, hq, hidle, hmain⟩ := ih hperformed.1 rfl
      have hfirst : Undisturbed P p _ :=
        Undisturbed.step (Step.perform hpoint) (by rintro ⟨⟩)
      exact ⟨q, hfirst.trans hrest, hq, hidle, hmain.trans hperformed.2⟩

/-- Once the UI has stopped, its thread comes to its end. -/
theorem exists_ui_ended (hui : p.ui.running = false) :
    ∃ q, Undisturbed P p q ∧ q.uiPoint = .ended ∧ q.mainPoint = p.mainPoint := by
  have hlast : ∀ {p : ClientProcess}, p.ui.running = false → p.uiPoint = .loopHead →
      ∃ q, Undisturbed P p q ∧ q.uiPoint = .ended ∧ q.mainPoint = p.mainPoint :=
    fun hui hpoint => ⟨_, Undisturbed.step (Step.uiLoop hpoint) (by rintro ⟨⟩),
      if_neg (Bool.not_eq_true _ ▸ hui), rfl⟩
  cases hpoint : p.uiPoint with
  | ended => exact ⟨p, Undisturbed.refl P p, hpoint, rfl⟩
  | loopHead => exact hlast hui hpoint
  | reading pending =>
      obtain ⟨q, hhandled, hq, hidle, hmain⟩ := exists_handled (P := P) pending hui hpoint
      have hout : Undisturbed P q { q with uiPoint := .loopHead } :=
        Undisturbed.step (Step.noInput hidle) (by rintro ⟨⟩)
      obtain ⟨r, hended, hr, hsame⟩ := hlast (p := { q with uiPoint := .loopHead }) hq rfl
      exact ⟨r, hhandled.trans (hout.trans hended), hr, hsame.trans hmain⟩

theorem exists_stop (hmain : p.mainPoint = .joining) (hloop : p.loopPoint = .ended) :
    ∃ q, Step P p .stop q ∧ q.ui.running = false ∧
      q.mainPoint = if p.ui.running then .stopping else .stopped false :=
  ⟨_, Step.stop hmain hloop, rfl, rfl⟩

/-- Behind its release, `ui.stop()` joins the UI thread. -/
theorem exists_uiJoined (hui : p.ui.running = false) (hmain : p.mainPoint = .joiningUI) :
    ∃ q r, Undisturbed P p q ∧ (system P).step q .stopJoin r ∧ r.mainPoint = .stopped true := by
  obtain ⟨q, hended, hpoint, hsame⟩ := exists_ui_ended (P := P) hui
  exact ⟨q, _, hended, Step.stopJoin (hsame.trans hmain) hpoint, rfl⟩

/-- What ends the process: `main` returns, after which a UI thread that was not
joined is destroyed joinable; an exception leaves a thread; `exit(1)` is called
in `setupConnection`; or a signal comes. -/
inductive Ending where
  | main (joined : Bool)
  | thrown (fault : Fault)
  | exit
  | signal

/-- The threads of a process, or how it has ended. -/
inductive Life where
  | running (p : ClientProcess)
  | ended (ending : Ending)

inductive LifeEvent where
  | step (event : Event)
  | finish (ending : Ending)

/-- What can end the process where its threads are. -/
inductive Ends (P : Primitives) (p : ClientProcess) : Ending → Prop
  | main {joined : Bool} (hmain : p.mainPoint = .stopped joined) : Ends P p (.main joined)
  | key {c : UInt8} {fault : Fault} (hpoint : p.uiPoint = .reading [])
      (hkey : p.ui.typing.handleKey c = .error fault) : Ends P p (.thrown fault)
  | call {request : ClientRequest} {action : Client.Action} {calls : List Client.Action}
      {env : Env} {fault : Fault} (hpoint : p.loopPoint = .serving request (action :: calls))
      (hcall : Client.perform P env action p.client = .error (.threw fault)) :
      Ends P p (.thrown fault)
  | receive {env : Env} {fault : Fault} (hpoint : p.loopPoint = .receiving)
      (hcall : Client.perform P env .receive p.client = .error (.threw fault)) :
      Ends P p (.thrown fault)
  /-- What the handshake calls, and the start of the monitor's thread, may fail. -/
  | connect {fault : Fault} (hpoint : p.loopPoint = .connecting) : Ends P p (.thrown fault)
  | exit (hpoint : p.loopPoint = .connecting) : Ends P p .exit
  | signal : Ends P p .signal

inductive LifeStep (P : Primitives) : Life → LifeEvent → Life → Prop
  | step {p q : ClientProcess} {event : Event} (hstep : Step P p event q) :
      LifeStep P (.running p) (.step event) (.running q)
  | finish {p : ClientProcess} {ending : Ending} (hends : Ends P p ending) :
      LifeStep P (.running p) (.finish ending) (.ended ending)

def lives (P : Primitives) : System Life LifeEvent where
  init life := ∃ p, (system P).init p ∧ life = .running p
  step := LifeStep P

/-- `clientLoop` has found the connection lost. -/
def lost : LifeEvent := .step (.checkConnected false)

theorem past_joining (hstep : Step P p event q) (hmain : p.mainPoint ≠ .joining) :
    q.mainPoint ≠ .joining := by
  cases hstep with
  | @perform effect pending hpoint => cases effect <;> exact hmain
  | stop hpoint hloop => exact absurd hpoint hmain
  | stopRelease hpoint => rintro ⟨⟩
  | stopJoin hpoint hui => rintro ⟨⟩
  | _ => exact hmain

/-- Behind `ui.stop()` nothing is released for the UI thread, and it is not joined. -/
theorem stopped_step {joined : Bool} (hstep : Step P p event q)
    (hmain : p.mainPoint = .stopped joined) :
    q.mainPoint = .stopped joined ∧ event ≠ .stopRelease ∧ event ≠ .stopJoin := by
  cases hstep with
  | @perform effect pending hpoint => cases effect <;> exact ⟨hmain, by rintro ⟨⟩, by rintro ⟨⟩⟩
  | stop hpoint hloop => exact absurd (hmain.symm.trans hpoint) (by rintro ⟨⟩)
  | stopRelease hpoint => exact absurd (hmain.symm.trans hpoint) (by rintro ⟨⟩)
  | stopJoin hpoint hui => exact absurd (hmain.symm.trans hpoint) (by rintro ⟨⟩)
  | _ => exact ⟨hmain, by rintro ⟨⟩, by rintro ⟨⟩⟩

theorem not_joined {joined : Bool} (hrun : Run (system P) p events q)
    (hstopped : p.mainPoint = .stopped joined) :
    .stopRelease ∉ events ∧ .stopJoin ∉ events := by
  induction hrun with
  | nil p => exact ⟨by rintro ⟨⟩, by rintro ⟨⟩⟩
  | cons head tail ih =>
      obtain ⟨hnext, hrelease, hjoin⟩ := stopped_step head hstopped
      obtain ⟨hnone, hnever⟩ := ih hnext
      rw [List.mem_cons, not_or, List.mem_cons, not_or]
      exact ⟨⟨hrelease.symm, hnone⟩, hjoin.symm, hnever⟩

/-- While `main` waits for `clientLoop`, only a handler of the UI stops the UI. -/
theorem ui_running_of_step (hstep : Step P p event q) (hmain : q.mainPoint = .joining) :
    q.ui.running = true ↔ p.ui.running = true ∧ event ≠ .perform .clearRunning := by
  have hsame : q.ui.running = p.ui.running → event ≠ .perform .clearRunning →
      (q.ui.running = true ↔ p.ui.running = true ∧ event ≠ .perform .clearRunning) :=
    fun hrunning hevent => by rw [hrunning, and_iff_left hevent]
  cases hstep with
  | @perform effect pending hpoint =>
      cases effect with
      | addRequest request => exact hsame rfl (by rintro ⟨⟩)
      | clearRunning => exact ⟨by rintro ⟨⟩, fun hkept => absurd rfl hkept.2⟩
      | release => exact hsame rfl (by rintro ⟨⟩)
  | taken hpoint hrunning htry =>
      exact hsame (UI.tryGetRequest_some htry).2.2 (by rintro ⟨⟩)
  | refused hpoint hrunning htry =>
      obtain ⟨rfl, -⟩ := UI.tryGetRequest_none htry
      exact hsame rfl (by rintro ⟨⟩)
  | stop hpoint hloop =>
      dsimp only at hmain
      split at hmain <;> cases hmain
  | _ => exact hsame rfl (by rintro ⟨⟩)

theorem ui_running_of_run (hrun : Run (system P) p events q) (hmain : q.mainPoint = .joining) :
    q.ui.running = true ↔ p.ui.running = true ∧ .perform .clearRunning ∉ events := by
  induction hrun with
  | nil p => exact (and_iff_left (by rintro ⟨⟩)).symm
  | @cons p middle q event events head tail ih =>
      have hmiddle : middle.mainPoint = .joining := by
        by_contra hpast
        exact tail.preserves (P := fun p => p.mainPoint ≠ .joining)
          (fun _ _ _ hs hstep => past_joining hstep hs) hpast hmain
      rw [ih hmain, ui_running_of_step head hmiddle, List.mem_cons, not_or, and_assoc,
        ne_comm]

/-- `main`'s `ui.stop()` comes to its release and to the join of the UI thread if
and only if no handler has cleared `running` before it is called; otherwise it
returns at once, and nothing releases or joins later. -/
theorem stop_joins_iff {r : ClientProcess} (hinit : (system P).init p)
    (hrun : Run (system P) p events q) (hstop : (system P).step q .stop r) :
    ((∃ later t, Run (system P) r later t ∧ .stopRelease ∈ later ∧ .stopJoin ∈ later) ↔
      .perform .clearRunning ∉ events) ∧
    (.perform .clearRunning ∈ events → r.mainPoint = .stopped false ∧
      ∀ later t, Run (system P) r later t → .stopRelease ∉ later ∧ .stopJoin ∉ later) := by
  obtain ⟨sem, -, rfl⟩ := hinit
  cases hstop with
  | stop hmain hloop =>
      have hui : q.ui.running = true ↔ .perform .clearRunning ∉ events :=
        (ui_running_of_run hrun hmain).trans (and_iff_right rfl)
      have hreturns : .perform .clearRunning ∈ events → (if q.ui.running = true then
          MainPoint.stopping else .stopped false) = .stopped false :=
        fun hcleared => if_neg fun hrunning => hui.mp hrunning hcleared
      refine ⟨⟨?_, fun hkept => ?_⟩, fun hcleared => ⟨hreturns hcleared, fun later t hlater =>
        not_joined hlater (hreturns hcleared)⟩⟩
      · rintro ⟨later, t, hlater, hrelease, -⟩ hcleared
        exact (not_joined hlater (hreturns hcleared)).1 hrelease
      · have hstopping : (if q.ui.running = true then MainPoint.stopping else .stopped false) =
            .stopping := if_pos (hui.mpr hkept)
        obtain ⟨t, u, ⟨later, hended, -⟩, hlast, -⟩ := exists_uiJoined (P := P)
          (p := { q with
            ui := { q.ui with running := false }
            clientBackendSem := q.clientBackendSem.release
            mainPoint := .joiningUI }) rfl rfl
        refine ⟨.stopRelease :: (later ++ [.stopJoin]), _,
          Run.cons (Step.stopRelease hstopping) (hended.snoc hlast), List.mem_cons_self, ?_⟩
        exact List.mem_cons_of_mem _ (List.mem_append_right _ (List.mem_singleton.mpr rfl))

/-- `/quit` is served before its handler goes on to clear `running`. -/
theorem stop_joins_iff_sample :
    ∃ events q r t, Run (system .clear) (fresh ⟨1, 1, Nat.one_pos, Nat.le_refl 1⟩) events q ∧
      (system .clear).step q .stop r ∧
      ∃ later, Run (system .clear) r later t ∧ .stopRelease ∈ later ∧ .stopJoin ∈ later := by
  let sem : BinarySemaphore := ⟨1, 1, Nat.one_pos, Nat.le_refl 1⟩
  obtain ⟨client, hcall⟩ : ∃ client, Client.perform .clear (Client.sampleEnv 0) .quit
      Client.fresh = .ok (⟨⟩, client) := ⟨_, rfl⟩
  obtain ⟨q, hended, hmain, hloop⟩ : ∃ q, Run (system .clear) (quitQueued sem)
      [.acquire, .tryGetRequest (some quitRequest), .call (Client.sampleEnv 0), .served, .leave,
        .monitorLoop, .join] q ∧ q.mainPoint = .joining ∧ q.loopPoint = .ended :=
    ⟨_, Run.cons (Step.acquire rfl rfl) <| Run.cons (Step.taken rfl rfl rfl) <|
      Run.cons (Step.call rfl hcall) <| Run.cons (Step.served rfl) <|
      Run.cons (Step.leave rfl rfl) <| Run.cons (Step.monitorLoop rfl) <|
      Run.cons (Step.join rfl rfl) (Run.nil _), rfl, rfl⟩
  have hrun := (run_quitQueued sem).of_restrict.append hended
  obtain ⟨r, hstop, -, -⟩ := exists_stop (P := .clear) hmain hloop
  have hkept : Event.perform .clearRunning ∉ quitEvents ++ [.acquire,
      .tryGetRequest (some quitRequest), .call (Client.sampleEnv 0), .served, .leave,
      .monitorLoop, .join] := by
    simp [quitEvents]
  obtain ⟨later, t, hlater, hjoined⟩ := (stop_joins_iff ⟨sem, rfl, rfl⟩ hrun hstop).1.mpr hkept
  exact ⟨_, q, r, t, hrun, hstop, later, hlater, hjoined⟩

end ClientProcess

end LeakyChat

/-
What the history says of a request.  Numbers are not given twice, so that the
one line under the number of a request is marked with what its own call has
brought, and no other line with that.
-/
import LeakyChat.MessageHistory
import Mathlib.Data.List.Nodup

namespace LeakyChat

open Transition
open UI (Effect Typing)

namespace MessageHistory

variable {P : Primitives} {p q : ClientProcess} {event : ClientProcess.Event}
  {added : List Message} {marks : List (ClientRequest × Outcome)}
  {requests : List ClientRequest} {labels : List Label} {s t : MessageHistory}

theorem filter_eq_nil_of_ids {id : SequenceNo} (hid : id ≠ 0) {lines : List ClientRequest}
    (hlines : ∀ request ∈ lines, request.id ≠ id) :
    (lines.map (·.line)).filter (fun msg => msg.id = some id) = [] := by
  refine List.filter_eq_nil_iff.mpr fun msg hmsg hsame => ?_
  obtain ⟨request, hrequest, rfl⟩ := List.mem_map.mp hmsg
  have hsame : request.line.id = some id := of_decide_eq_true hsame
  rcases line_id request with hzero | hown
  · exact hid (Option.some.inj (hsame.symm.trans hzero))
  · exact hlines request hrequest (Option.some.inj (hown.symm.trans hsame))

theorem line_id_of_ne {request : ClientRequest} (htype : request.type ≠ .quit) :
    request.line.id = some request.id := by
  unfold ClientRequest.line
  cases hkind : request.type with
  | quit => exact absurd hkind htype
  | _ => rfl

theorem noted_sublist {acts : List UI.Act} {noted : Option ClientRequest}
    (hrest : UI.Act.Rest acts noted) : noted.toList.Sublist (UI.Act.requests acts) := by
  cases hrest with
  | addRequest request hrest => exact List.Sublist.cons_cons _ (List.nil_sublist _)
  | _ => exact List.nil_sublist _

/-- Among requests under different numbers, one has the number. -/
theorem filter_line {request : ClientRequest} (hid : request.id ≠ 0)
    (hordered : requests.Pairwise fun first later => first.id < later.id)
    (hrequest : request ∈ requests) (htype : request.type ≠ .quit) :
    (requests.map (·.line)).filter (fun msg => msg.id = some request.id) = [request.line] := by
  obtain ⟨front, back, rfl⟩ := List.append_of_mem hrequest
  obtain ⟨-, hback, hfront⟩ := List.pairwise_append.mp hordered
  have hline := line_id_of_ne htype
  have hbefore := filter_eq_nil_of_ids hid fun other hother hsame =>
    UInt64.lt_irrefl _ (hsame ▸ hfront other hother request List.mem_cons_self)
  have hafter := filter_eq_nil_of_ids hid fun other hother hsame =>
    UInt64.lt_irrefl _ (hsame ▸ (List.pairwise_cons.mp hback).1 other hother)
  rw [List.map_append, List.map_cons, List.filter_append, List.filter_cons,
    if_pos (decide_eq_true hline), hbefore, hafter, List.nil_append]

theorem Kept.filter_added (hkept : Kept added marks requests t) {request : ClientRequest}
    (hrequest : request ∈ requests) (htype : request.type ≠ .quit) :
    added.filter (fun msg => msg.id = some request.id) = [request.line] := by
  obtain ⟨hid, -⟩ := hkept.bounded request (List.mem_append_left _ hrequest)
  obtain ⟨noted, hrest, hlines⟩ := hkept.lines
  have hkeyed : ∀ lines : List Message,
      (lines.filter Message.keyed).filter (fun msg => msg.id = some request.id) =
        lines.filter fun msg => msg.id = some request.id := by
    intro lines
    rw [List.filter_filter]
    refine List.filter_congr fun msg _ => ?_
    by_cases hsame : msg.id = some request.id
    · simp [Message.keyed, hsame, hid]
    · simp [hsame]
  rw [← hkeyed, hlines, hkeyed]
  exact filter_line hid (hkept.ordered.sublist ((noted_sublist hrest).append_left _))
    (List.mem_append_left _ hrequest) htype

/-- The mark that was made for a request. -/
def markFor (marks : List (ClientRequest × Outcome)) (request : ClientRequest) : Option Outcome :=
  (marks.find? fun mark => mark.1 = request).map Prod.snd

theorem amended_line {request : ClientRequest} (htype : request.type ≠ .quit)
    (hordered : (marks.map Prod.fst).Pairwise fun first later => first.id < later.id)
    (hown : ∀ mark ∈ marks, mark.1.id = request.id → mark.1 = request) :
    amended marks request.line =
      (markFor marks request).elim request.line (·.mark request.line) := by
  have hline := line_id_of_ne htype
  induction marks with
  | nil => rfl
  | cons mark marks ih =>
      rw [List.map_cons, List.pairwise_cons] at hordered
      by_cases hmark : mark.1 = request
      · have hid : request.line.id = some mark.1.id := hmark ▸ hline
        have hlater : amended marks (mark.2.mark request.line) = mark.2.mark request.line := by
          refine amended_of_forall_ne fun later hlater hsame => ?_
          rw [mark_id, hid, Option.some.injEq] at hsame
          have hlt := hordered.1 _ (List.mem_map_of_mem hlater)
          exact UInt64.lt_irrefl _ (hsame ▸ hlt)
        have hfound : (mark :: marks).find? (fun mark => mark.1 = request) = some mark :=
          List.find?_cons_of_pos (decide_eq_true hmark)
        rw [markFor, hfound, amended, List.foldl_cons, if_pos hid]
        exact hlater
      · have hid : request.line.id ≠ some mark.1.id := fun hsame =>
          hmark (hown mark List.mem_cons_self (Option.some.inj (hline.symm.trans hsame)).symm)
        have hpassed : (mark :: marks).find? (fun mark => mark.1 = request) =
            marks.find? fun mark => mark.1 = request :=
          List.find?_cons_of_neg (by simpa using hmark)
        rw [markFor, hpassed, amended, List.foldl_cons, if_neg hid]
        exact ih hordered.2 fun later hlater => hown later (List.mem_cons_of_mem _ hlater)

/-- Requests that are queued have numbers of their own. -/
theorem Kept.eq_of_id (hkept : Kept added marks requests t) {first later : ClientRequest}
    (hfirst : first ∈ requests) (hlater : later ∈ requests) (hid : first.id = later.id) :
    first = later := by
  have hnodup : (requests.map ClientRequest.id).Nodup := by
    refine List.pairwise_map.mpr ((List.pairwise_append.mp hkept.ordered).1.imp ?_)
    exact fun hlt hsame => UInt64.lt_irrefl _ (hsame ▸ hlt)
  exact List.inj_on_of_nodup_map hnodup hfirst hlater hid

/-- The history has one line under the number of a request, which is its line with the mark
that was made for it, if one was. -/
theorem Kept.filter_messages (hkept : Kept added marks requests t) {request : ClientRequest}
    (hrequest : request ∈ requests) (htype : request.type ≠ .quit) :
    t.messages.filter (fun msg => msg.id = some request.id) =
      [(markFor marks request).elim request.line (·.mark request.line)] := by
  have hmarks : (marks.map Prod.fst).Sublist requests :=
    (List.sublist_append_left _ _).trans hkept.marked
  have hordered := (List.pairwise_append.mp hkept.ordered).1.sublist hmarks
  have hown : ∀ mark ∈ marks, mark.1.id = request.id → mark.1 = request := fun mark hmark hid =>
    hkept.eq_of_id (hmarks.subset (List.mem_map_of_mem hmark)) hrequest hid
  have hids : (fun msg : Message => decide (msg.id = some request.id)) ∘ amended marks =
      fun msg => decide (msg.id = some request.id) := by
    funext msg
    rw [Function.comp_apply, amended_id]
  rw [hkept.messages, List.filter_map, hids, hkept.filter_added hrequest htype, List.map_singleton,
    amended_line htype hordered hown]

/-- Lines under no number stay as they were added. -/
theorem Kept.filter_unkeyed (hkept : Kept added marks requests t) :
    t.messages.filter (fun msg => !msg.keyed) = added.filter fun msg => !msg.keyed := by
  have hkeyed : (fun msg : Message => !msg.keyed) ∘ amended marks = fun msg => !msg.keyed := by
    funext msg
    rw [Function.comp_apply, Message.keyed, amended_id, ← Message.keyed]
  rw [hkept.messages, List.filter_map, hkeyed]
  refine (List.map_congr_left fun msg hmsg => ?_).trans (List.map_id _)
  have hunkeyed : msg.keyed = false := by simpa using List.of_mem_filter hmsg
  exact hkept.unmarked ((eq_none_or_zero hunkeyed).imp_right Or.inl)

/-- The request is for something that is marked in the history. -/
def marking (request : ClientRequest) : Bool :=
  match request.type with
  | .sendMessage => false
  | .quit => false
  | _ => true

/-- The one call that the branch of a request makes is in the run, made by a client
in a state that its own model reaches, and brings this. -/
def Brings (P : Primitives) (s : MessageHistory) (labels : List Label) (request : ClientRequest)
    (outcome : Outcome) : Prop :=
  ∃ before call rest u env action, labels = before ++ call :: rest ∧ Run (system P) s before u ∧
    u.process.loopPoint = .serving request [action] ∧ request.calls = [action] ∧
    call.event = some (.call env) ∧ Reachable (Client.system P) u.process.client ∧
    u.process.client.outcome P env action = some outcome

theorem Brings.append {request : ClientRequest} {outcome : Outcome}
    (hbrings : Brings P s labels request outcome) (more : List Label) :
    Brings P s (labels ++ more) request outcome := by
  obtain ⟨before, call, rest, u, env, action, rfl, hcall⟩ := hbrings
  exact ⟨before, call, rest ++ more, u, env, action, by simp, hcall⟩

/-- A request of which so many calls are to come, and what it has brought in the run. -/
inductive Serves (P : Primitives) (s : MessageHistory) (labels : List Label)
    (request : ClientRequest) : List Client.Action → Option Outcome → Prop
  | asked : Serves P s labels request request.calls none
  | answered {outcome : Outcome} (hmarking : marking request = true)
      (hbrings : Brings P s labels request outcome) : Serves P s labels request [] (some outcome)
  | unmarked {calls : List Client.Action} (htype : marking request = false)
      (hcalls : calls <:+ request.calls) : Serves P s labels request calls none

theorem Serves.append {request : ClientRequest} {calls : List Client.Action}
    {result : Option Outcome} (hserves : Serves P s labels request calls result)
    (more : List Label) : Serves P s (labels ++ more) request calls result := by
  cases hserves with
  | asked => exact Serves.asked
  | answered hmarking hbrings => exact Serves.answered hmarking (hbrings.append more)
  | unmarked htype hcalls => exact Serves.unmarked htype hcalls

theorem resultOf_bind {α : Type} {m : ClientM α} {c d : Client}
    (hrun : (m >>= fun _ => pure PUnit.unit) c = .ok (⟨⟩, d)) :
    ∃ a, Client.resultOf m c = some a := by
  obtain ⟨a, c₁, hm, -⟩ := Program.of_run_bind hrun
  exact ⟨a, by rw [Client.resultOf, hm]; rfl⟩

theorem outcome_of_calls {env : Env} {c d : Client} {request : ClientRequest}
    {action : Client.Action} {calls : List Client.Action} (hmarking : marking request = true)
    (hcalls : request.calls = action :: calls)
    (hcall : Client.perform P env action c = .ok (⟨⟩, d)) :
    calls = [] ∧ ∃ outcome, c.outcome P env action = some outcome := by
  unfold ClientRequest.calls at hcalls
  unfold marking at hmarking
  cases hkind : request.type with
  | sendMessage =>
      rw [hkind] at hmarking
      cases hmarking
  | quit =>
      rw [hkind] at hmarking
      cases hmarking
  | login =>
      rw [hkind] at hcalls
      cases hcalls
      obtain ⟨success, hresult⟩ := resultOf_bind hcall
      exact ⟨rfl, .login success, congrArg (Option.map Outcome.login) hresult⟩
  | getUsers =>
      rw [hkind] at hcalls
      cases hcalls
      obtain ⟨names, hresult⟩ := resultOf_bind hcall
      exact ⟨rfl, .users names, congrArg (Option.map Outcome.users) hresult⟩
  | e2e =>
      rw [hkind] at hcalls
      cases hcalls
      obtain ⟨success, hresult⟩ := resultOf_bind hcall
      exact ⟨rfl, .e2e success, congrArg (Option.map Outcome.e2e) hresult⟩

theorem outcome_of_unmarked {env : Env} {c : Client} {request : ClientRequest}
    {action : Client.Action} (hmarking : marking request = false)
    (haction : action ∈ request.calls) : c.outcome P env action = none := by
  unfold ClientRequest.calls at haction
  unfold marking at hmarking
  cases hkind : request.type with
  | sendMessage =>
      rw [hkind] at haction
      rcases List.mem_cons.mp haction with rfl | hsend
      · rfl
      · rw [List.mem_singleton.mp hsend]
        rfl
  | quit =>
      rw [hkind] at haction
      rw [List.mem_singleton.mp haction]
      rfl
  | _ =>
      rw [hkind] at hmarking
      cases hmarking

theorem Serves.call {env : Env} {d : Client} {request : ClientRequest}
    {action : Client.Action} {calls : List Client.Action} {result : Option Outcome}
    (hserves : Serves P s labels request (action :: calls) result)
    (hrun : Run (system P) s labels t) (hreach : Reachable (Client.system P) t.process.client)
    (hpoint : t.process.loopPoint = .serving request (action :: calls))
    (hcall : Client.perform P env action t.process.client = .ok (⟨⟩, d)) :
    Serves P s (labels ++ [⟨some (.call env), [], []⟩]) request calls
      (t.process.client.outcome P env action) := by
  have hsuffix : action :: calls <:+ request.calls := by
    generalize hlist : action :: calls = list at hserves
    cases hserves with
    | asked => exact List.suffix_refl _
    | answered hmarking hbrings => cases hlist
    | unmarked htype hcalls => exact hcalls
  cases hmarking : marking request with
  | false =>
      rw [outcome_of_unmarked hmarking (hsuffix.subset List.mem_cons_self)]
      exact Serves.unmarked hmarking ((List.suffix_cons action calls).trans hsuffix)
  | true =>
      have hall : request.calls = action :: calls := by
        generalize hlist : action :: calls = list at hserves
        cases hserves with
        | asked => rfl
        | answered hmarking hbrings => cases hlist
        | unmarked htype hcalls => exact absurd (htype.symm.trans hmarking) Bool.false_ne_true
      obtain ⟨rfl, outcome, houtcome⟩ := outcome_of_calls hmarking hall hcall
      rw [houtcome]
      exact Serves.answered hmarking
        ⟨labels, _, [], t, env, action, rfl, hrun, hpoint, hall, rfl, hreach, houtcome⟩

theorem calls_ne_nil (request : ClientRequest) : request.calls ≠ [] := by
  unfold ClientRequest.calls
  cases request.type <;> exact List.cons_ne_nil _ _

/-- A request that has been served has brought something exactly if it is marked. -/
theorem Serves.last {request : ClientRequest} {result : Option Outcome}
    (hserves : Serves P s labels request [] result) :
    (result.toList.map fun outcome => (request, outcome)).map Prod.fst =
      [request].filter marking := by
  generalize hlist : [] = list at hserves
  cases hserves with
  | asked => exact absurd hlist.symm (calls_ne_nil request)
  | unmarked htype hcalls =>
      rw [List.filter_cons_of_neg (by rw [htype]; exact Bool.false_ne_true)]
      rfl
  | answered hmarking hbrings =>
      rw [List.filter_cons_of_pos hmarking]
      rfl

theorem Serves.brings {request : ClientRequest} {calls : List Client.Action} {outcome : Outcome}
    (hserves : Serves P s labels request calls (some outcome)) :
    Brings P s labels request outcome := by
  cases hserves with
  | answered hmarking hbrings => exact hbrings

/-- What holds of the requests that a run has handed out, and of the marks it has made. -/
structure Marked (P : Primitives) (s : MessageHistory) (labels : List Label)
    (t : MessageHistory) : Prop where
  run : Run (system P) s labels t
  reachable : Reachable (ClientProcess.system P) t.process
  serves : ∀ request calls, t.process.loopPoint = .serving request calls →
    Serves P s labels request calls t.result
  inOrder : (labels.flatMap Label.marked).map Prod.fst ++ (inHand t.process).filter marking =
    (labels.flatMap Label.handedOut).filter marking
  outcomes : ∀ mark ∈ labels.flatMap Label.marked, Brings P s labels mark.1 mark.2

/-- A request that is taken, a call and the end of a branch change what is served. -/
def Serving : ClientProcess.Event → Prop
  | .tryGetRequest (some _) => True
  | .call _ => True
  | .served => True
  | _ => False

/-- Nothing else does. -/
theorem serving_step (hstep : ClientProcess.Step P p event q) (hevent : ¬ Serving event)
    (request : ClientRequest) (calls : List Client.Action) :
    q.loopPoint = .serving request calls ↔ p.loopPoint = .serving request calls := by
  have hneither : (∀ request calls, p.loopPoint ≠ .serving request calls) →
      (∀ request calls, q.loopPoint ≠ .serving request calls) →
      (q.loopPoint = .serving request calls ↔ p.loopPoint = .serving request calls) :=
    fun hp hq => iff_of_false (hq request calls) (hp request calls)
  cases hstep with
  | @perform shared pending hpoint => cases shared <;> exact Iff.rfl
  | taken hpoint hrunning htry => exact absurd trivial hevent
  | call hpoint hcall => exact absurd trivial hevent
  | served hpoint => exact absurd trivial hevent
  | connect hpoint => exact hneither (by rw [hpoint]; rintro _ _ ⟨⟩) (by rintro _ _ ⟨⟩)
  | acquire hpoint hsem => exact hneither (by rw [hpoint]; rintro _ _ ⟨⟩) (by rintro _ _ ⟨⟩)
  | refused hpoint hrunning htry =>
      exact hneither (by rw [hpoint]; rintro _ _ ⟨⟩) (by rintro _ _ ⟨⟩)
  | leave hpoint hrunning =>
      exact hneither (by rw [hpoint]; rintro _ _ ⟨⟩) (by rintro _ _ ⟨⟩)
  | receive hpoint hcall =>
      refine hneither (by rw [hpoint]; rintro _ _ ⟨⟩) fun request calls => ?_
      dsimp only
      split <;> rintro ⟨⟩
  | stillConnected hpoint => exact hneither (by rw [hpoint]; rintro _ _ ⟨⟩) (by rintro _ _ ⟨⟩)
  | disconnected hpoint => exact hneither (by rw [hpoint]; rintro _ _ ⟨⟩) (by rintro _ _ ⟨⟩)
  | join hpoint hmonitor => exact hneither (by rw [hpoint]; rintro _ _ ⟨⟩) (by rintro _ _ ⟨⟩)
  | _ => exact Iff.rfl

theorem inHand_congr (hserving : ∀ request calls,
    q.loopPoint = .serving request calls ↔ p.loopPoint = .serving request calls) :
    inHand q = inHand p := by
  cases hpoint : p.loopPoint with
  | serving request calls =>
      rw [inHand_of_eq hpoint, inHand_of_eq ((hserving request calls).mpr hpoint)]
  | _ =>
      have hp : ∀ request calls, p.loopPoint ≠ .serving request calls := by
        rw [hpoint]
        rintro _ _ ⟨⟩
      rw [inHand_of_ne hp, inHand_of_ne fun request calls hq =>
        hp request calls ((hserving request calls).mp hq)]

theorem handedOut_of_not_serving (hevent : ¬ Serving event) : event.handedOut = [] := by
  cases event with
  | tryGetRequest result =>
      cases result with
      | none => rfl
      | some request => exact absurd trivial hevent
  | _ => rfl

/-- A step of which each request that was in hand, or is handed out, is marked or in hand. -/
theorem Marked.of_step {u : MessageHistory} {label : Label} (hmarked : Marked P s labels t)
    (hstep : Step P t label u) (hreach : Reachable (ClientProcess.system P) u.process)
    (hserves : ∀ request calls, u.process.loopPoint = .serving request calls →
      Serves P s (labels ++ [label]) request calls u.result)
    (horder : label.marked.map Prod.fst ++ (inHand u.process).filter marking =
      (inHand t.process).filter marking ++ label.handedOut.filter marking)
    (hmarks : ∀ mark ∈ label.marked, Brings P s labels mark.1 mark.2) :
    Marked P s (labels ++ [label]) u where
  run := hmarked.run.snoc hstep
  reachable := hreach
  serves := hserves
  inOrder := by
    rw [List.flatMap_append, List.flatMap_append, List.flatMap_singleton,
      List.flatMap_singleton, List.map_append, List.append_assoc, horder, ← List.append_assoc,
      hmarked.inOrder, List.filter_append]
  outcomes mark hmark := by
    rw [List.flatMap_append, List.flatMap_singleton] at hmark
    rcases List.mem_append.mp hmark with hold | hnew
    · exact (hmarked.outcomes mark hold).append _
    · exact (hmarks mark hnew).append _

/-- A step that marks nothing and hands nothing out. -/
theorem Marked.of_plain {u : MessageHistory} {label : Label} (hmarked : Marked P s labels t)
    (hstep : Step P t label u) (hreach : Reachable (ClientProcess.system P) u.process)
    (hmark : label.marked = []) (hout : label.handedOut = [])
    (hserving : ∀ request calls, u.process.loopPoint = .serving request calls ↔
      t.process.loopPoint = .serving request calls)
    (hresult : u.result = t.result) : Marked P s (labels ++ [label]) u := by
  refine hmarked.of_step hstep hreach (fun request calls hpoint => ?_) ?_ ?_
  · rw [hresult]
    exact (hmarked.serves request calls ((hserving request calls).mp hpoint)).append [label]
  · rw [hmark, hout, inHand_congr hserving]
    exact (List.append_nil _).symm
  · rw [hmark]
    rintro _ ⟨⟩

/-- A step that is no part of the branch of a request. -/
theorem Marked.process (hmarked : Marked P s labels t) {acts : List UI.Act}
    {messages lines : List Message}
    (hstep : Step P t ⟨some event, lines, []⟩ ⟨q, acts, t.result, messages⟩)
    (hprocess : ClientProcess.Step P t.process event q) (hevent : ¬ Serving event) :
    Marked P s (labels ++ [⟨some event, lines, []⟩]) ⟨q, acts, t.result, messages⟩ :=
  hmarked.of_plain hstep (hmarked.reachable.step hprocess) rfl (handedOut_of_not_serving hevent)
    (serving_step hprocess hevent) rfl

theorem not_serving_of_silent (hevent : Silent event) : ¬ Serving event := by
  intro hserving
  cases event with
  | tryGetRequest result =>
      cases result with
      | none => exact hserving
      | some request => exact hevent
  | call env => exact hevent
  | served => exact hevent
  | _ => exact hserving

theorem marked_step {u : MessageHistory} {label : Label} (hmarked : Marked P s labels t)
    (hstep : Step P t label u) : Marked P s (labels ++ [label]) u := by
  have hwhole := hstep
  cases hstep with
  | key hidle hkey hstep => exact hmarked.process hwhole hstep (by rintro ⟨⟩)
  | addMessage hacts =>
      exact hmarked.of_plain hwhole hmarked.reachable rfl rfl (fun _ _ => Iff.rfl) rfl
  | perform hacts hstep => exact hmarked.process hwhole hstep (by rintro ⟨⟩)
  | idle hevent hidle hstep =>
      rcases hevent with rfl | rfl
      · exact hmarked.process hwhole hstep (by rintro ⟨⟩)
      · exact hmarked.process hwhole hstep (by rintro ⟨⟩)
  | receive hstep => exact hmarked.process hwhole hstep (by rintro ⟨⟩)
  | disconnected hstep => exact hmarked.process hwhole hstep (by rintro ⟨⟩)
  | silent hevent hstep =>
      exact hmarked.process hwhole hstep (not_serving_of_silent hevent)
  | @taken request q hstep =>
      have hreach := hmarked.reachable.step hstep
      cases hstep with
      | taken hpoint hrunning htry =>
          refine hmarked.of_step hwhole hreach ?_ ?_ (by rintro _ ⟨⟩)
          · rintro _ _ ⟨⟩
            exact Serves.asked
          · have hidle : inHand t.process = [] := inHand_of_ne (by rw [hpoint]; rintro _ _ ⟨⟩)
            rw [hidle]
            rfl
  | @call env request action calls q hpoint hstep =>
      have hreach := hmarked.reachable.step hstep
      have hserves := hmarked.serves request (action :: calls) hpoint
      cases hstep with
      | call hpoint' hcall =>
          rw [hpoint] at hpoint'
          cases hpoint'
          refine hmarked.of_step hwhole hreach ?_ ?_ (by rintro _ ⟨⟩)
          · rintro _ _ ⟨⟩
            exact hserves.call hmarked.run (ClientProcess.client_reachable hmarked.reachable)
              hpoint hcall
          · rw [inHand_of_eq hpoint]
            exact (List.append_nil _).symm
  | @served request q hpoint hstep =>
      have hreach := hmarked.reachable.step hstep
      have hserves := hmarked.serves request [] hpoint
      cases hstep with
      | served hpoint' =>
          refine hmarked.of_step hwhole hreach (by rintro _ _ ⟨⟩) ?_ fun mark hmark => ?_
          · rw [inHand_of_eq hpoint, hserves.last]
            rfl
          · obtain ⟨outcome, hresult, rfl⟩ := List.mem_map.mp hmark
            rw [Option.mem_toList] at hresult
            exact (hresult ▸ hserves).brings

theorem marked (hinit : (system P).init s) (hrun : Run (system P) s labels t) :
    Marked P s labels t := by
  have hfresh : Marked P s [] s := by
    obtain ⟨_, ⟨sem, hsem, rfl⟩, rfl⟩ := hinit
    exact ⟨Run.nil _, Reachable.of_init ⟨sem, hsem, rfl⟩, by rintro _ _ ⟨⟩, rfl, by rintro _ ⟨⟩⟩
  exact hrun.records (P := Marked P s) (fun _ _ _ _ hs hstep => marked_step hs hstep) hfresh

/-- In every order of the steps: of each request but `/quit` that has been queued the
history has exactly one line under its number, as it was typed, with the outcome of the
request's own call in the run once it has been served; the lines under no number stay as
they were added. -/
theorem request_marked_once (hinit : (system P).init s)
    (hrun : Run ((system P).restrict fun t _ => t.Numbered) s labels t) :
    (∀ request ∈ labels.flatMap Label.requests, request.type ≠ .quit →
      t.messages.filter (fun msg => msg.id = some request.id) =
        [(markFor (labels.flatMap Label.marked) request).elim request.line
          (·.mark request.line)]) ∧
    (labels.flatMap Label.marked).map Prod.fst ++ (inHand t.process).filter marking =
      (labels.flatMap Label.handedOut).filter marking ∧
    (∀ mark ∈ labels.flatMap Label.marked, Brings P s labels mark.1 mark.2) ∧
    t.messages.filter (fun msg => !msg.keyed) =
      (labels.flatMap Label.added).filter (fun msg => !msg.keyed) := by
  have hkept := kept hinit hrun
  have hmarked := marked hinit hrun.of_restrict
  exact ⟨fun request hrequest htype => hkept.filter_messages hrequest htype, hmarked.inOrder,
    hmarked.outcomes, hkept.filter_unkeyed⟩

def whoRequest : ClientRequest := ⟨.getUsers, 1, .empty, .empty⟩

/-- `/who` has been typed, and the branch of its request is under way. -/
def whoAsked : MessageHistory :=
  ⟨⟨⟨true, [], ⟨.empty, .empty, 2⟩⟩, .fresh, ⟨0, 1, Nat.one_pos, Nat.zero_le 1⟩, true,
    .reading [], .serving whoRequest [.getUsers], .loopHead, .joining⟩, [], none,
    [whoRequest.line]⟩

/-- The run in which `/who` is typed and comes to `clientLoop`. -/
theorem run_whoAsked : Run ((system .clear).restrict fun t _ => t.Numbered)
    ⟨.fresh ⟨1, 1, Nat.one_pos, Nat.le_refl 1⟩, [], none, []⟩
    [⟨some .uiLoop, [], []⟩, ⟨some (.key 47), [], []⟩, ⟨some (.key 119), [], []⟩,
      ⟨some (.key 104), [], []⟩, ⟨some (.key 111), [], []⟩, ⟨some (.key 10), [], []⟩,
      ⟨none, [whoRequest.line], []⟩, ⟨some (.perform (.addRequest whoRequest)), [], []⟩,
      ⟨some .connect, [], []⟩, ⟨some .acquire, [], []⟩,
      ⟨some (.tryGetRequest (some whoRequest)), [], []⟩] whoAsked := by
  have hone : (1 : SequenceNo) ≠ 0 := by decide
  have htwo : (2 : SequenceNo) ≠ 0 := by decide
  exact Run.cons ⟨Step.idle (Or.inr rfl) rfl (ClientProcess.Step.uiLoop rfl), hone⟩ <|
    Run.cons ⟨Step.key rfl rfl (ClientProcess.Step.key rfl rfl), hone⟩ <|
    Run.cons ⟨Step.key rfl rfl (ClientProcess.Step.key rfl rfl), hone⟩ <|
    Run.cons ⟨Step.key rfl rfl (ClientProcess.Step.key rfl rfl), hone⟩ <|
    Run.cons ⟨Step.key rfl rfl (ClientProcess.Step.key rfl rfl), hone⟩ <|
    Run.cons ⟨Step.key rfl rfl (ClientProcess.Step.key rfl rfl), hone⟩ <|
    Run.cons ⟨Step.addMessage rfl, htwo⟩ <|
    Run.cons ⟨Step.perform rfl (ClientProcess.Step.perform rfl), htwo⟩ <|
    Run.cons ⟨Step.silent trivial (ClientProcess.Step.connect rfl), htwo⟩ <|
    Run.cons ⟨Step.silent trivial (ClientProcess.Step.acquire rfl rfl), htwo⟩ <|
    Run.cons ⟨Step.taken (ClientProcess.Step.taken rfl rfl rfl), htwo⟩ (Run.nil _)

/-- `/who` is answered with no users. -/
theorem request_marked_once_sample : ∃ t labels t', (system .clear).init t ∧
    Run (system .clear) t labels t' ∧
    t'.messages.filter (fun msg => msg.id = some 1) =
      [(Outcome.users []).mark (.numbered 1 (ascii "/who"))] := by
  let c : Client := { Client.fresh with mail := ⟨[], [some Client.sampleUserList]⟩ }
  obtain ⟨d, hcall⟩ : ∃ d, Client.perform .clear (Client.sampleEnv 1) .getUsers c = .ok (⟨⟩, d) :=
    ⟨_, rfl⟩
  have htwo : (2 : SequenceNo) ≠ 0 := by decide
  have harrive : Step .clear whoAsked ⟨some (.arrive (some Client.sampleUserList)), [], []⟩
      { whoAsked with process := { whoAsked.process with client := c } } :=
    Step.silent trivial
      (@ClientProcess.Step.arrive .clear whoAsked.process (Client.sampleEnv 1) _ _ rfl)
  have hserved : Run ((system .clear).restrict fun t _ => t.Numbered)
      { whoAsked with process := { whoAsked.process with client := c } }
      [⟨some (.call (Client.sampleEnv 1)), [], []⟩,
        ⟨some .served, [], [(whoRequest, .users [])]⟩] _ :=
    Run.cons ⟨Step.call rfl (ClientProcess.Step.call rfl hcall), htwo⟩ <|
    Run.cons ⟨Step.served rfl (ClientProcess.Step.served rfl), htwo⟩ (Run.nil _)
  have hrun := run_whoAsked.append (Run.cons ⟨harrive, htwo⟩ hserved)
  have hinit : (system .clear).init ⟨.fresh ⟨1, 1, Nat.one_pos, Nat.le_refl 1⟩, [], none, []⟩ :=
    ⟨_, ⟨_, rfl, rfl⟩, rfl⟩
  have hqueued : whoRequest ∈ [whoRequest] := List.mem_cons_self
  obtain ⟨hlines, -⟩ := request_marked_once hinit hrun
  exact ⟨_, _, _, hinit, hrun.of_restrict, hlines whoRequest hqueued (by rintro ⟨⟩)⟩

end MessageHistory

end LeakyChat

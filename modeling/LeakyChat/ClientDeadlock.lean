/-
Clients that set up end-to-end sessions with each other, each in one call of
`setupE2E` at a time.  A client in a call examines what its peer sends and sets
all else aside; one in none examines whatever comes.
-/
import LeakyChat.DHKeyExchange
import LeakyChat.Library.Transition
import LeakyChat.Library.WaitFor
import LeakyChat.SetupPair
import Mathlib.Algebra.BigOperators.Group.Finset.Piecewise
import Mathlib.Data.Fintype.Prod

namespace LeakyChat

open Relation Transition WaitFor

/-- `session (p, q)` is the session of `p` for `q`; `point p` is the peer that
the call of `p` waits for, if it is in one; `flight (p, q)` are the INITs and ACKs
from `p` that `q` has not examined; `stamps` are the times of all INITs. -/
structure Peers (N : Type) where
  session : N × N → E2ESession
  point : N → Option (N × Wait)
  flight : N × N → List Payload
  stamps : List UInt64

namespace Peers

variable {N : Type} [DecidableEq N] (P : Primitives)

/-- The wait a client is in for one of the others. -/
def waitOn (point : Option (N × Wait)) (q : N) : Option Wait :=
  point.bind fun waiting => if waiting.1 = q then some waiting.2 else none

def party (s : Peers N) (p q : N) : Party :=
  ⟨s.session (p, q), waitOn (s.point p) q, s.flight (p, q)⟩

/-- The relay keeps the order in which one client sends to another. -/
def post (flight : N × N → List Payload) (route : N × N) (sent : Option Payload) :
    N × N → List Payload :=
  Function.update flight route (flight route ++ sent.toList)

/-- What a step of `p` that concerns `q` leaves. -/
def turn (s : Peers N) (p q : N) (session : E2ESession) (next : Option Wait)
    (flight : N × N → List Payload) (stamps : List UInt64) : Peers N where
  session := Function.update s.session (p, q) session
  point := Function.update s.point p (next.map fun wait => (q, wait))
  flight := flight
  stamps := stamps

/-- Whether a client may examine what another has sent. -/
def Free (s : Peers N) (p q : N) : Prop :=
  s.point p = none ∨ ∃ wait, s.point p = some (q, wait)

inductive Label (N : Type) where
  | call (p q : N) (refresh : Bool) (now : UInt64) (exponent : Nat)
  | examine (p q : N) (stack : Stack) (exponent : Nat)

/-- The timestamps of INITs are all distinct. -/
inductive Step : Peers N → Label N → Peers N → Prop
  | call {s : Peers N} {p q : N} {refresh : Bool} {now : UInt64} {exponent : Nat}
      {session : E2ESession} {sent : Option Payload} (hidle : s.point p = none)
      (hsetup : (s.session (p, q)).setup P refresh now exponent = (session, .ok sent))
      (hdistinct : (s.session (p, q)).sends refresh = true → now ∉ s.stamps) :
      Step s (.call p q refresh now exponent)
        (s.turn p q session (some .first) (post s.flight (p, q) sent)
          (if (s.session (p, q)).sends refresh then now :: s.stamps else s.stamps))
  | examine {s : Peers N} {p q : N} {stack : Stack} {exponent : Nat} {pl : Payload}
      {rest : List Payload} {session : E2ESession} {reply : Option Payload}
      {next : Option Wait} (hfree : s.Free p q) (hflight : s.flight (q, p) = pl :: rest)
      (hexamine : (s.session (p, q)).examine P (waitOn (s.point p) q) pl stack exponent =
        (session, .ok (reply, next))) :
      Step s (.examine p q stack exponent)
        (s.turn p q session next
          (post (Function.update s.flight (q, p) rest) (p, q) reply) s.stamps)

/-- No sessions yet; `mE2ESessions[peer]` makes a fresh one. -/
def start (exponent oldExponent : N × N → Nat) : Peers N where
  session route := E2ESession.fresh (exponent route) (oldExponent route)
  point _ := none
  flight _ := []
  stamps := []

def system : System (Peers N) (Label N) where
  init s := ∃ exponent oldExponent, s = start exponent oldExponent
  step := Step P

/-- Only what has been sent already is examined. -/
def examining : System (Peers N) (Label N) :=
  (system P).restrict fun _ label => ∃ p q stack exponent, label = .examine p q stack exponent

/-- Some clients are in calls that nothing under way brings to an end. -/
def Deadlocked (s : Peers N) : Prop :=
  ∃ clients : Set N, clients.Nonempty ∧ (∀ p ∈ clients, s.point p ≠ none) ∧
    ∀ labels t, Run (examining P) s labels t → ∀ p ∈ clients, t.point p ≠ none

/-- The call of `p` is for `q`, from which nothing is under way to `p`. -/
def Blocked (s : Peers N) (p q : N) : Prop :=
  waitOn (s.point p) q ≠ none ∧ s.flight (q, p) = []

/-- What a call has to meet: its peer is another client; it sends an INIT under
a higher number, or something of the peer is under way; and if the peer is blocked
on the caller, then on the caller directly and not through others. -/
def Meets (s : Peers N) : Label N → Prop
  | .call p q refresh _ _ =>
      p ≠ q ∧
      (if (s.session (p, q)).sends refresh then (s.session (p, q)).HasNext
        else s.flight (q, p) ≠ []) ∧
      (TransGen s.Blocked q p → s.Blocked q p)
  | .examine _ _ _ _ => True

/-- The invariant: any two are linked, nobody has to do with itself, and no
cycle is blocked. -/
structure Good (s : Peers N) : Prop where
  joined : ∀ p q, p ≠ q → Joined s.stamps (s.party p q) (s.party q p)
  self : ∀ p, waitOn (s.point p) p = none ∧ s.flight (p, p) = []
  acyclic : Acyclic s.Blocked

variable {P} {s t : Peers N} {p q x y : N} {session : E2ESession} {next : Option Wait}
  {flight : N × N → List Payload} {stamps : List UInt64}

theorem waitOn_ne_none {point : Option (N × Wait)} (hwait : waitOn point q ≠ none) :
    ∃ wait, point = some (q, wait) := by
  cases point with
  | none => exact (hwait rfl).elim
  | some waiting =>
      obtain ⟨r, wait⟩ := waiting
      by_cases hr : r = q
      · exact ⟨wait, by rw [hr]⟩
      · exact (hwait (if_neg hr)).elim

theorem waitOn_map_self (next : Option Wait) (q : N) :
    waitOn (next.map fun wait => (q, wait)) q = next := by
  cases next with
  | none => rfl
  | some wait => exact if_pos rfl

theorem waitOn_map_of_ne (next : Option Wait) (hne : q ≠ y) :
    waitOn (next.map fun wait => (q, wait)) y = none := by
  cases next with
  | none => rfl
  | some wait => exact if_neg hne

theorem Free.waitOn_of_ne (hfree : s.Free p q) (hne : q ≠ y) : waitOn (s.point p) y = none := by
  rcases hfree with hidle | ⟨wait, hpoint⟩
  · rw [hidle]
    rfl
  · rw [hpoint]
    exact if_neg hne

theorem turn_party_self : (s.turn p q session next flight stamps).party p q =
    ⟨session, next, flight (p, q)⟩ := by
  simp only [party, turn, Function.update_self, waitOn_map_self]

theorem turn_party_peer (hne : p ≠ q) : (s.turn p q session next flight stamps).party q p =
    ⟨s.session (q, p), waitOn (s.point q) p, flight (q, p)⟩ := by
  have hroute : (q, p) ≠ (p, q) := fun heq => hne (Prod.ext_iff.mp heq).2
  simp only [party, turn, Function.update_of_ne hroute, Function.update_of_ne (Ne.symm hne)]

/-- A step of `p` that concerns `q` leaves all other pairs alone. -/
theorem turn_party_of_ne (hfree : s.Free p q) (hroute : (x, y) ≠ (p, q))
    (hflight : flight (x, y) = s.flight (x, y)) :
    (s.turn p q session next flight stamps).party x y = s.party x y := by
  simp only [party, turn, Function.update_of_ne hroute, hflight, Party.mk.injEq, true_and,
    and_true]
  by_cases hx : x = p
  · have hy : q ≠ y := fun heq => hroute (by rw [hx, heq])
    rw [hx, Function.update_self, waitOn_map_of_ne next hy, hfree.waitOn_of_ne hy]
  · rw [Function.update_of_ne hx]

theorem joined_turn (hgood : s.Good) (hpq : p ≠ q) (hfree : s.Free p q)
    (hflight : ∀ route, route ≠ (p, q) → route ≠ (q, p) → flight route = s.flight route)
    (hstamps : s.stamps ⊆ stamps)
    (hjoined : Joined stamps ⟨session, next, flight (p, q)⟩
      ⟨s.session (q, p), waitOn (s.point q) p, flight (q, p)⟩) (hxy : x ≠ y) :
    Joined stamps ((s.turn p q session next flight stamps).party x y)
      ((s.turn p q session next flight stamps).party y x) := by
  by_cases hself : (x, y) = (p, q)
  · obtain ⟨rfl, rfl⟩ := Prod.mk.inj hself
    rw [turn_party_self, turn_party_peer hpq]
    exact hjoined
  · by_cases hpeer : (x, y) = (q, p)
    · obtain ⟨rfl, rfl⟩ := Prod.mk.inj hpeer
      rw [turn_party_self, turn_party_peer hpq]
      exact hjoined.symm
    · have hself' : (y, x) ≠ (q, p) := by
        rintro ⟨⟩
        exact hself rfl
      have hpeer' : (y, x) ≠ (p, q) := by
        rintro ⟨⟩
        exact hpeer rfl
      rw [turn_party_of_ne hfree hself (hflight _ hself hpeer),
        turn_party_of_ne hfree hpeer' (hflight _ hpeer' hself')]
      exact (hgood.joined x y hxy).mono hstamps

/-- A step of `p` that concerns `q` adds no edge but the one between them. -/
theorem blocked_turn (hflight : ∀ route, route ≠ (q, p) → flight route = [] →
      s.flight route = []) (hblocked : (s.turn p q session next flight stamps).Blocked x y) :
    s.Blocked x y ∨ x = p ∧ y = q := by
  obtain ⟨hwait, hempty⟩ := hblocked
  by_cases hx : x = p
  · subst hx
    by_cases hy : q = y
    · exact Or.inr ⟨rfl, hy.symm⟩
    · simp only [turn, Function.update_self, waitOn_map_of_ne next hy, ne_eq,
        not_true_eq_false] at hwait
  · have hroute : (y, x) ≠ (q, p) := fun heq => hx (Prod.ext_iff.mp heq).2
    refine Or.inl ⟨?_, hflight _ hroute hempty⟩
    simpa only [turn, Function.update_of_ne hx] using hwait

/-- Nothing leads from a client whose call nothing blocks. -/
theorem not_reflTransGen (hpq : p ≠ q) (hwait : waitOn (s.point q) p ≠ none)
    (hflight : s.flight (p, q) ≠ []) : ¬ ReflTransGen s.Blocked q p := by
  intro hpath
  rcases hpath.cases_head with heq | ⟨y, hblocked, _⟩
  · exact hpq heq.symm
  · obtain ⟨wait, hpoint⟩ := waitOn_ne_none hwait
    obtain ⟨wait', hpoint'⟩ := waitOn_ne_none hblocked.1
    rw [hpoint, Option.some.injEq, Prod.mk.injEq] at hpoint'
    exact hflight (hpoint'.1 ▸ hblocked.2)

theorem acyclic_turn (hgood : s.Good)
    (hflight : ∀ route, route ≠ (q, p) → flight route = [] → s.flight route = [])
    (hback : next ≠ none → flight (q, p) = [] → ¬ ReflTransGen s.Blocked q p) :
    Acyclic (s.turn p q session next flight stamps).Blocked := by
  by_cases hedge : (s.turn p q session next flight stamps).Blocked p q
  · refine hgood.acyclic.insert (hback ?_ hedge.2) (fun x y => blocked_turn hflight)
    have hwait := hedge.1
    simpa only [turn, Function.update_self, waitOn_map_self] using hwait
  · apply hgood.acyclic.mono
    intro x y hblocked
    rcases blocked_turn hflight hblocked with hold | ⟨rfl, rfl⟩
    · exact hold
    · exact (hedge hblocked).elim

theorem self_turn (hgood : s.Good) (hpq : p ≠ q)
    (hflight : ∀ route, route ≠ (p, q) → route ≠ (q, p) → flight route = s.flight route) (x : N) :
    waitOn ((s.turn p q session next flight stamps).point x) x = none ∧ flight (x, x) = [] := by
  have hself : (x, x) ≠ (p, q) := by
    rintro ⟨⟩
    exact hpq rfl
  have hpeer : (x, x) ≠ (q, p) := by
    rintro ⟨⟩
    exact hpq rfl
  refine ⟨?_, (hflight _ hself hpeer).trans (hgood.self x).2⟩
  by_cases hx : x = p
  · subst hx
    simp only [turn, Function.update_self, waitOn_map_of_ne next (Ne.symm hpq)]
  · simp only [turn, Function.update_of_ne hx]
    exact (hgood.self x).1

/-- What a step of `p` that concerns `q` has to leave them in. -/
theorem good_turn (hgood : s.Good) (hpq : p ≠ q) (hfree : s.Free p q)
    (hflight : ∀ route, route ≠ (p, q) → route ≠ (q, p) → flight route = s.flight route)
    (hsent : flight (p, q) = [] → s.flight (p, q) = []) (hstamps : s.stamps ⊆ stamps)
    (hjoined : Joined stamps ⟨session, next, flight (p, q)⟩
      ⟨s.session (q, p), waitOn (s.point q) p, flight (q, p)⟩)
    (hback : next ≠ none → flight (q, p) = [] → ¬ ReflTransGen s.Blocked q p) :
    (s.turn p q session next flight stamps).Good where
  joined x y hxy := joined_turn hgood hpq hfree hflight hstamps hjoined hxy
  self := self_turn hgood hpq hflight
  acyclic := by
    apply acyclic_turn hgood ?_ hback
    intro route hroute hempty
    by_cases hself : route = (p, q)
    · rw [hself] at hempty ⊢
      exact hsent hempty
    · rw [← hflight route hself hroute]
      exact hempty

theorem post_self (sent : Option Payload) (route : N × N) :
    post flight route sent route = flight route ++ sent.toList := Function.update_self _ _ _

theorem post_of_ne (sent : Option Payload) {route route' : N × N} (hne : route' ≠ route) :
    post flight route sent route' = flight route' := Function.update_of_ne hne _ _

theorem good_call (hgood : s.Good) {refresh : Bool} {now : UInt64} {exponent : Nat}
    (hmeets : s.Meets (.call p q refresh now exponent))
    (hstep : Step P s (.call p q refresh now exponent) t) : t.Good := by
  obtain ⟨hpq, hsends, hchain⟩ := hmeets
  have hroute : (q, p) ≠ (p, q) := fun heq => hpq (Prod.ext_iff.mp heq).2
  cases hstep with
  | @call _ _ _ _ _ session sent hidle hsetup hdistinct =>
      have hbefore : Joined s.stamps ⟨s.session (p, q), none, s.flight (p, q)⟩ (s.party q p) := by
        have hjoined := hgood.joined p q hpq
        rwa [party, hidle] at hjoined
      apply good_turn hgood hpq (Or.inl hidle)
      · intro route hself _
        exact post_of_ne sent hself
      · rw [post_self]
        exact fun hempty => (List.append_eq_nil_iff.mp hempty).1
      · split
        · exact List.subset_cons_self now s.stamps
        · exact List.Subset.refl s.stamps
      · rw [post_self, post_of_ne sent hroute]
        by_cases hs : (s.session (p, q)).sends refresh = true
        · rw [if_pos hs] at hsends
          obtain ⟨session', init, hsetup', hjoined⟩ :=
            hbefore.setup_sends (P := P) hs hsends (hdistinct hs) exponent
          rw [hsetup, Prod.mk.injEq, Except.ok.injEq] at hsetup'
          obtain ⟨rfl, rfl⟩ := hsetup'
          rw [if_pos hs]
          exact hjoined
        · rw [if_neg hs] at hsends
          rw [E2ESession.setup_silent (Bool.not_eq_true _ ▸ hs), Prod.mk.injEq,
            Except.ok.injEq] at hsetup
          obtain ⟨rfl, rfl⟩ := hsetup
          rw [if_neg hs, Option.toList_none, List.append_nil]
          exact hbefore.setup_silent hsends
      · -- a path from the peer back to the caller would be an edge, and then the
        intro _ hempty hpath
        rw [post_of_ne sent hroute] at hempty
        rcases reflTransGen_iff_eq_or_transGen.mp hpath with heq | hpath
        · exact hpq heq
        · obtain ⟨hwait, hnone⟩ := hchain hpath
          exact hbefore.symm.flight_ne_nil hwait rfl hnone hempty

theorem Free.of_step {stack : Stack} {exponent : Nat}
    (hstep : Step P s (.examine p q stack exponent) t) :
    s.Free p q ∧ s.flight (q, p) ≠ [] := by
  cases hstep with
  | examine hfree hflight => exact ⟨hfree, by rw [hflight]; exact List.cons_ne_nil _ _⟩

theorem Good.ne_of_flight (hgood : s.Good) (hflight : s.flight (q, p) ≠ []) : p ≠ q := by
  rintro rfl
  exact hflight (hgood.self p).2

/-- What is under way to a client that is free to examine it can be examined. -/
theorem exists_examine (hgood : s.Good) (hfree : s.Free p q) (hflight : s.flight (q, p) ≠ [])
    (stack : Stack) (exponent : Nat) : ∃ t, Step P s (.examine p q stack exponent) t := by
  have hjoined := hgood.joined p q (hgood.ne_of_flight hflight)
  obtain ⟨pl, rest, hcons⟩ := List.exists_cons_of_ne_nil hflight
  rw [party, party, hcons] at hjoined
  obtain ⟨session, reply, next, hexamine, _⟩ := hjoined.examine (P := P) stack exponent
  exact ⟨_, Step.examine hfree hcons hexamine⟩

theorem good_examine (hgood : s.Good) {stack : Stack} {exponent : Nat}
    (hstep : Step P s (.examine p q stack exponent) t) : t.Good := by
  obtain ⟨hfree, hflight⟩ := Free.of_step hstep
  have hpq := hgood.ne_of_flight hflight
  have hroute : (q, p) ≠ (p, q) := fun heq => hpq (Prod.ext_iff.mp heq).2
  cases hstep with
  | @examine _ _ _ _ pl rest session reply next _ hcons hexamine =>
      have hbefore := hgood.joined p q hpq
      rw [party, party, hcons] at hbefore
      obtain ⟨session', reply', next', hexamine', hjoined, _, hback⟩ :=
        hbefore.examine (P := P) stack exponent
      rw [hexamine, Prod.mk.injEq, Except.ok.injEq, Prod.mk.injEq] at hexamine'
      obtain ⟨rfl, rfl, rfl⟩ := hexamine'
      apply good_turn hgood hpq hfree
      · intro route hself hpeer
        rw [post_of_ne reply hself, Function.update_of_ne hpeer]
      · rw [post_self, Function.update_of_ne (Ne.symm hroute)]
        exact fun hempty => (List.append_eq_nil_iff.mp hempty).1
      · exact List.Subset.refl s.stamps
      · rw [post_self, post_of_ne reply hroute, Function.update_self,
          Function.update_of_ne (Ne.symm hroute)]
        exact hjoined
      · intro hnext hempty
        rw [post_of_ne reply hroute, Function.update_self] at hempty
        obtain ⟨hwait, hsent⟩ := hback hnext hempty
        exact not_reflTransGen hpq hwait hsent

theorem good_step {label : Label N} (hgood : s.Good) (hmeets : s.Meets label)
    (hstep : Step P s label t) : t.Good := by
  cases label with
  | call p q refresh now exponent => exact good_call hgood hmeets hstep
  | examine p q stack exponent => exact good_examine hgood hstep

theorem good_start (exponent oldExponent : N × N → Nat) : (start exponent oldExponent).Good where
  joined p q _ := by
    have hfresh : ∀ route, ((start exponent oldExponent).session route).Settled 0 :=
      fun route => ⟨rfl, Or.inl rfl, fun _ => rfl⟩
    exact Or.inl (Linked.quiet 0 (hfresh (p, q)) (hfresh (q, p)))
  self _ := ⟨rfl, rfl⟩
  acyclic p hcycle := by
    obtain ⟨q, hblocked, _⟩ := TransGen.head'_iff.mp hcycle
    exact hblocked.1 rfl

/-- An INIT can be answered by an ACK, an ACK by nothing. -/
def weigh (pl : Payload) : Nat := if pl.type = .e2eInit then 2 else 1

def weight [Fintype N] (s : Peers N) : Nat := ∑ route, ((s.flight route).map weigh).sum

theorem sum_update {ι : Type} [Fintype ι] [DecidableEq ι] {β : Type} (g : β → Nat) (f : ι → β)
    (i : ι) (b : β) : ∑ j, g (Function.update f i b j) + g (f i) = ∑ j, g (f j) + g b := by
  have hupdate : ∀ j, g (Function.update f i b j) = Function.update (fun j => g (f j)) i (g b) j :=
    fun j => Function.apply_update (fun _ => g) f i b j
  rw [Finset.sum_congr rfl fun j _ => hupdate j, Finset.sum_update_of_mem (Finset.mem_univ i),
    ← Finset.add_sum_erase Finset.univ (fun j => g (f j)) (Finset.mem_univ i),
    Finset.sdiff_singleton_eq_erase]
  omega

theorem weight_update [Fintype N] (flight : N × N → List Payload) (route : N × N)
    (pls : List Payload) :
    ∑ i, ((Function.update flight route pls i).map weigh).sum +
        ((flight route).map weigh).sum =
      ∑ i, ((flight i).map weigh).sum + (pls.map weigh).sum :=
  sum_update (fun pls => (pls.map weigh).sum) flight route pls

theorem weight_examine [Fintype N] (hgood : s.Good) {stack : Stack} {exponent : Nat}
    (hstep : Step P s (.examine p q stack exponent) t) : t.weight < s.weight := by
  obtain ⟨hfree, hflight⟩ := Free.of_step hstep
  have hpq := hgood.ne_of_flight hflight
  have hroute : (p, q) ≠ (q, p) := fun heq => hpq (Prod.ext_iff.mp heq).1
  cases hstep with
  | @examine _ _ _ _ pl rest session reply next _ hcons hexamine =>
      have hbefore := hgood.joined p q hpq
      rw [party, party, hcons] at hbefore
      obtain ⟨_, reply', _, hexamine', _, hreply, _⟩ := hbefore.examine (P := P) stack exponent
      rw [hexamine, Prod.mk.injEq, Except.ok.injEq, Prod.mk.injEq] at hexamine'
      obtain ⟨_, rfl, _⟩ := hexamine'
      have htaken := weight_update s.flight (q, p) rest
      have hposted := weight_update (Function.update s.flight (q, p) rest) (p, q)
        (s.flight (p, q) ++ reply.toList)
      rw [hcons, List.map_cons, List.sum_cons] at htaken
      rw [Function.update_of_ne hroute, List.map_append, List.sum_append] at hposted
      have hless : (reply.toList.map weigh).sum < weigh pl := by
        cases reply with
        | none =>
            simp only [Option.toList_none, List.map_nil, List.sum_nil, weigh]
            split <;> decide
        | some ack =>
            obtain ⟨hinit, hack⟩ := hreply ack rfl
            simp only [Option.toList_some, List.map_cons, List.map_nil, List.sum_cons,
              List.sum_nil, weigh, hinit, hack]
            decide
      have hsum : (s.turn p q session next
          (post (Function.update s.flight (q, p) rest) (p, q) reply) s.stamps).weight =
          ∑ i, ((Function.update (Function.update s.flight (q, p) rest) (p, q)
            (s.flight (p, q) ++ reply.toList) i).map weigh).sum := by
        simp only [weight, turn, post, Function.update_of_ne hroute]
      rw [hsum, weight]
      omega

/-- Where somebody is in a call, something can be examined. -/
theorem exists_free [Finite N] (hgood : s.Good) (hcall : s.point p ≠ none) :
    ∃ x y, s.Free x y ∧ s.flight (y, x) ≠ [] := by
  by_contra hstuck
  have hempty : ∀ x y, s.Free x y → s.flight (y, x) = [] := by
    intro x y hfree
    by_contra hflight
    exact hstuck ⟨x, y, hfree, hflight⟩
  have hblocked : ∀ x q wait, s.point x = some (q, wait) → s.Blocked x q := by
    intro x q wait hpoint
    refine ⟨?_, hempty x q (Or.inr ⟨wait, hpoint⟩)⟩
    rw [hpoint]
    simp [waitOn]
  obtain ⟨⟨q, wait⟩, hpoint⟩ := Option.ne_none_iff_exists'.mp hcall
  obtain ⟨x, y, hlast, hend⟩ := hgood.acyclic.exists_last (hblocked p q wait hpoint)
  have hidle : s.point y = none := by
    by_contra hpointy
    obtain ⟨⟨z, wait'⟩, hpointy⟩ := Option.ne_none_iff_exists'.mp hpointy
    exact hend z (hblocked y z wait' hpointy)
  have hxy : x ≠ y := by
    rintro rfl
    exact hlast.1 (hgood.self x).1
  have hjoined := hgood.joined x y hxy
  have hnone : waitOn (s.point y) x = none := by
    rw [hidle]
    rfl
  exact hjoined.flight_ne_nil hlast.1 hnone hlast.2 (hempty y x (Or.inl hidle))

/-- From a good state, everybody gets out of the call. -/
theorem exists_run_idle [Fintype N] (hgood : s.Good) :
    ∃ labels t, Run (examining P) s labels t ∧ ∀ p, t.point p = none := by
  have hstep : ∀ s : Peers N, s.Good → (∃ p, s.point p ≠ none) →
      ∃ label t, (examining P).step s label t ∧ t.Good ∧ t.weight < s.weight := by
    rintro s hs ⟨p, hcall⟩
    obtain ⟨x, y, hfree, hflight⟩ := exists_free hs hcall
    obtain ⟨t, hstep⟩ := exists_examine (P := P) hs hfree hflight (fun _ => 0) 0
    exact ⟨_, t, ⟨hstep, x, y, _, _, rfl⟩, good_examine hs hstep, weight_examine hs hstep⟩
  obtain ⟨labels, t, hrun, _, hclosed⟩ := exists_run_closing weight hstep hgood
  refine ⟨labels, t, hrun, fun p => ?_⟩
  by_contra hpoint
  exact hclosed ⟨p, hpoint⟩

/-- If every call meets the condition, no clients are ever deadlocked. -/
theorem not_deadlocked [Fintype N] {labels : List (Label N)} (hinit : (system P).init s)
    (hrun : Run ((system P).restrict Meets) s labels t) : ¬ t.Deadlocked P := by
  have hgood : t.Good := by
    apply hrun.preserves (fun s label t hs hstep => good_step hs hstep.2 hstep.1)
    obtain ⟨exponent, oldExponent, rfl⟩ := hinit
    exact good_start exponent oldExponent
  rintro ⟨clients, ⟨p, hp⟩, _, hstays⟩
  obtain ⟨labels, u, hidle, hnone⟩ := exists_run_idle (P := P) hgood
  exact hstays labels u hidle p hp (hnone p)

/-- A call that has sent its INIT. -/
def called (s : Peers N) (p q : N) (session : E2ESession) (init : Payload) (now : UInt64) :
    Peers N :=
  s.turn p q session (some .first) (post s.flight (p, q) (some init)) (now :: s.stamps)

theorem exists_call {refresh : Bool} {n : UInt32} (hidle : s.point p = none)
    (hsettled : (s.session (p, q)).Settled n)
    (hsends : (s.session (p, q)).sends refresh = true) {now : UInt64} (hnow : now ∉ s.stamps)
    (exponent : Nat) :
    ∃ session init, Step P s (.call p q refresh now exponent) (s.called p q session init now) := by
  obtain ⟨session, init, hsetup, _, _⟩ :=
    E2ESession.setup_sends (P := P) hsettled hsends now exponent
  have hstep := Step.call hidle hsetup fun _ => hnow
  rw [if_pos hsends] at hstep
  exact ⟨session, init, hstep⟩

section

variable {init : Payload} {now : UInt64}

@[simp]
theorem called_stamps : (s.called p q session init now).stamps = now :: s.stamps := rfl

theorem called_session_of_ne {route : N × N} (hne : route ≠ (p, q)) :
    (s.called p q session init now).session route = s.session route :=
  Function.update_of_ne hne _ _

@[simp]
theorem called_point_self : (s.called p q session init now).point p = some (q, .first) :=
  Function.update_self _ _ _

theorem called_point_of_ne (hne : x ≠ p) :
    (s.called p q session init now).point x = s.point x := Function.update_of_ne hne _ _

theorem called_flight_of_ne {route : N × N} (hne : route ≠ (p, q)) :
    (s.called p q session init now).flight route = s.flight route := post_of_ne _ hne

theorem blocked_of_point (wait : Wait) (hpoint : s.point p = some (q, wait))
    (hempty : s.flight (q, p) = []) : s.Blocked p q := by
  refine ⟨?_, hempty⟩
  rw [hpoint]
  simp [waitOn]

end

/-- Clients each blocked on another of them examine nothing, and what the others
examine leaves them so. -/
theorem blocked_examine {clients : Set N} (hclients : ∀ x ∈ clients, ∃ y ∈ clients, s.Blocked x y)
    {stack : Stack} {exponent : Nat} (hstep : Step P s (.examine p q stack exponent) t) :
    ∀ x ∈ clients, ∃ y ∈ clients, t.Blocked x y := by
  obtain ⟨hfree, hflight⟩ := Free.of_step hstep
  have hout : p ∉ clients := by
    intro hp
    obtain ⟨y, _, hwait, hempty⟩ := hclients p hp
    obtain ⟨wait, hpoint⟩ := waitOn_ne_none hwait
    rcases hfree with hidle | ⟨wait', hpoint'⟩
    · rw [hidle] at hpoint
      cases hpoint
    · rw [hpoint, Option.some.injEq, Prod.mk.injEq] at hpoint'
      exact hflight (hpoint'.1 ▸ hempty)
  intro x hx
  obtain ⟨y, hy, hwait, hempty⟩ := hclients x hx
  have hxp : x ≠ p := fun heq => hout (heq ▸ hx)
  have hyp : y ≠ p := fun heq => hout (heq ▸ hy)
  have hself : (y, x) ≠ (p, q) := fun heq => hyp (Prod.ext_iff.mp heq).1
  have hpeer : (y, x) ≠ (q, p) := fun heq => hxp (Prod.ext_iff.mp heq).2
  refine ⟨y, hy, ?_⟩
  cases hstep with
  | @examine _ _ _ _ _ rest _ reply _ _ _ _ =>
      refine ⟨?_, ?_⟩
      · simpa only [turn, Function.update_of_ne hxp] using hwait
      · exact (post_of_ne reply hself).trans ((Function.update_of_ne hpeer _ _).trans hempty)

theorem deadlocked_of_blocked (clients : Set N) (hsome : clients.Nonempty)
    (hclients : ∀ x ∈ clients, ∃ y ∈ clients, s.Blocked x y) : s.Deadlocked P := by
  have hcall : ∀ s : Peers N, (∀ x ∈ clients, ∃ y ∈ clients, s.Blocked x y) →
      ∀ x ∈ clients, s.point x ≠ none := by
    intro s hs x hx hidle
    obtain ⟨y, _, hwait, _⟩ := hs x hx
    exact hwait (by rw [hidle]; rfl)
  refine ⟨clients, hsome, hcall s hclients, fun labels t hrun => hcall t ?_⟩
  apply hrun.preserves (fun s label t hs hstep => ?_) hclients
  obtain ⟨hexamine, p, q, stack, exponent, rfl⟩ := hstep
  exact blocked_examine hs hexamine

/-- A call that closes a chain of blocked clients of more than one link is never
got out of, nor are those of the chain. -/
theorem deadlocked_of_chain (hgood : s.Good) (hpq : p ≠ q) (hchain : TransGen s.Blocked q p)
    (hdirect : ¬ s.Blocked q p) {refresh : Bool} {now : UInt64} {exponent : Nat}
    (hstep : Step P s (.call p q refresh now exponent) t) : t.Deadlocked P := by
  have hroute : (q, p) ≠ (p, q) := fun heq => hpq (Prod.ext_iff.mp heq).2
  cases hstep with
  | @call _ _ _ _ _ session sent hidle _ _ =>
      have hnone : waitOn (s.point q) p = none := by
        by_contra hwait
        obtain ⟨z, hblocked, _⟩ := TransGen.head'_iff.mp hchain
        obtain ⟨wait, hpoint⟩ := waitOn_ne_none hwait
        obtain ⟨wait', hpoint'⟩ := waitOn_ne_none hblocked.1
        rw [hpoint, Option.some.injEq, Prod.mk.injEq] at hpoint'
        exact hdirect (hpoint'.1 ▸ hblocked)
      have hempty : s.flight (q, p) = [] := by
        have hjoined := hgood.joined p q hpq
        rw [party, hidle] at hjoined
        exact hjoined.flight_eq_nil hnone
      apply deadlocked_of_blocked
        {x | ReflTransGen s.Blocked q x ∧ ReflTransGen s.Blocked x p}
        ⟨q, ReflTransGen.refl, hchain.to_reflTransGen⟩
      rintro x ⟨hbefore, hafter⟩
      by_cases hx : x = p
      · refine ⟨q, ⟨ReflTransGen.refl, hchain.to_reflTransGen⟩, ?_, ?_⟩
        · simp [hx, turn, waitOn]
        · rw [hx]
          exact (post_of_ne sent hroute).trans hempty
      · rcases hafter.cases_head with heq | ⟨y, hblocked, hrest⟩
        · exact (hx heq).elim
        · refine ⟨y, ⟨hbefore.tail hblocked, hrest⟩, ?_, ?_⟩
          · simpa only [turn, Function.update_of_ne hx] using hblocked.1
          · have hother : (y, x) ≠ (p, q) := by
              rintro ⟨⟩
              exact hdirect hblocked
            exact (post_of_ne sent hother).trans hblocked.2

def sampleStart (n : Nat) : Peers (Fin n) := start (fun _ => 1) (fun _ => 2)

theorem init_sampleStart (n : Nat) : (system .clear).init (sampleStart n) :=
  ⟨fun _ => 1, fun _ => 2, rfl⟩

/-- The first call of a client in a state that has not touched its session. -/
theorem exists_sampleCall {n : Nat} {s : Peers (Fin n)} {p q : Fin n} (hidle : s.point p = none)
    (hsession : s.session (p, q) = (sampleStart n).session (p, q)) {now : UInt64}
    (hnow : now ∉ s.stamps) :
    ∃ session init, Step .clear s (.call p q false now 0) (s.called p q session init now) := by
  have hsettled : (s.session (p, q)).Settled 0 := by
    rw [hsession]
    exact ⟨rfl, Or.inl rfl, fun _ => rfl⟩
  have hsends : (s.session (p, q)).sends false = true := by
    rw [hsession]
    rfl
  exact exists_call hidle hsettled hsends hnow 0

theorem sampleCall_meets {n : Nat} {s : Peers (Fin n)} {p q : Fin n} (hpq : p ≠ q)
    (hsession : s.session (p, q) = (sampleStart n).session (p, q))
    (hchain : TransGen s.Blocked q p → s.Blocked q p) (now : UInt64) :
    s.Meets (.call p q false now 0) := by
  have hsends : (s.session (p, q)).sends false = true := by
    rw [hsession]
    rfl
  refine ⟨hpq, ?_, hchain⟩
  rw [if_pos hsends, hsession]
  exact (by decide : (0 : UInt32) < 0 + 1)

/-- Two clients call each other at once. -/
theorem not_deadlocked_sample :
    ∃ t : Peers (Fin 2), t.point 0 ≠ none ∧ t.point 1 ≠ none ∧ ¬ t.Deadlocked .clear := by
  obtain ⟨a, init, hfirst⟩ := exists_sampleCall (s := sampleStart 2) (p := 0) (q := 1) rfl rfl
    (List.not_mem_nil : (1 : UInt64) ∉ [])
  generalize hs : (sampleStart 2).called 0 1 a init 1 = s at hfirst
  have hidle : s.point 1 = none := by
    rw [← hs, called_point_of_ne (by decide)]
    rfl
  have hcaller : s.point 0 = some (1, .first) := by
    rw [← hs, called_point_self]
  have hsession : s.session (1, 0) = (sampleStart 2).session (1, 0) := by
    rw [← hs, called_session_of_ne (by decide)]
  have hflight : s.flight (1, 0) = [] := by
    rw [← hs, called_flight_of_ne (by decide)]
    rfl
  have hnow : (2 : UInt64) ∉ s.stamps := by
    rw [← hs]
    exact (by decide : (2 : UInt64) ∉ [1])
  obtain ⟨b, init', hsecond⟩ := exists_sampleCall hidle hsession hnow
  have hmeets : (sampleStart 2).Meets (.call 0 1 false 1 0) := by
    refine sampleCall_meets (by decide) rfl (fun hpath => ?_) 1
    obtain ⟨_, hblocked, _⟩ := TransGen.head'_iff.mp hpath
    exact (hblocked.1 rfl).elim
  have hmeets' : s.Meets (.call 1 0 false 2 0) :=
    sampleCall_meets (by decide) hsession (fun _ => blocked_of_point .first hcaller hflight) 2
  refine ⟨s.called 1 0 b init' 2, ?_, ?_, not_deadlocked (init_sampleStart 2)
    (Run.cons ⟨hfirst, hmeets⟩ (Run.cons ⟨hsecond, hmeets'⟩ (Run.nil _)))⟩
  · rw [called_point_of_ne (by decide), hcaller]
    exact Option.some_ne_none _
  · rw [called_point_self]
    exact Option.some_ne_none _

/-- Three clients call each other in a ring, each before it has examined the call
for it. -/
theorem deadlocked_ring :
    ¬ ∀ (n : Nat) (s t : Peers (Fin n)) (labels : List (Label (Fin n))),
      (system .clear).init s → Run (system .clear) s labels t → ¬ t.Deadlocked .clear := by
  intro hnever
  obtain ⟨a, init, hfirst⟩ := exists_sampleCall (s := sampleStart 3) (p := 0) (q := 1) rfl rfl
    (List.not_mem_nil : (1 : UInt64) ∉ [])
  obtain ⟨b, init', hsecond⟩ := exists_sampleCall (s := (sampleStart 3).called 0 1 a init 1)
    (p := 1) (q := 2) rfl rfl (by rw [called_stamps]; exact (by decide : (2 : UInt64) ∉ [1]))
  obtain ⟨c, init'', hthird⟩ := exists_sampleCall
    (s := ((sampleStart 3).called 0 1 a init 1).called 1 2 b init' 2) (p := 2) (q := 0) rfl rfl
    (by rw [called_stamps, called_stamps]; exact (by decide : (3 : UInt64) ∉ [2, 1]))
  refine hnever 3 _ _ _ (init_sampleStart 3)
    (Run.cons hfirst (Run.cons hsecond (Run.cons hthird (Run.nil _)))) ?_
  apply deadlocked_of_blocked Set.univ Set.univ_nonempty
  intro p _
  match p with
  | 0 => exact ⟨1, trivial, blocked_of_point .first rfl rfl⟩
  | 1 => exact ⟨2, trivial, blocked_of_point .first rfl rfl⟩
  | 2 => exact ⟨0, trivial, blocked_of_point .first rfl rfl⟩

end Peers

end LeakyChat

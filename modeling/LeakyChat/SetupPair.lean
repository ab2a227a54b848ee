/-
`setupE2E` at the two ends of a pair of clients, cut at its waits: how far each
end is in a call for the other, its session for the other, and the INITs and
ACKs it has sent that the other has not examined.
-/
import LeakyChat.E2ESession

namespace LeakyChat

/-- The wait a call of `setupE2E` is in: for an INIT or ACK of its peer, or for
the ACK that comes after an INIT it has refused. -/
inductive Wait where
  | first
  | second
deriving DecidableEq

namespace E2ESession

variable (P : Primitives)

/-- What a call of `setupE2E` does before it waits, with the INIT it sends. -/
def setup (s : E2ESession) (refresh : Bool) (now : UInt64) (exponent : Nat) :
    E2ESession × Except Fault (Option Payload) :=
  if refresh then
    let (s, pl) := s.refresh P now exponent
    (s, pl.map some)
  else if s.sessState ≠ .unitialized then (s, .ok none)
  else
    let (s, pl) := s.initiate P now
    (s, pl.map some)

/-- Whether a call sends anything. -/
def sends (s : E2ESession) (refresh : Bool) : Bool :=
  refresh || decide (s.sessState = .unitialized)

/-- What an INIT or ACK does where it is examined, in the wait of a call or in
the receive loop: what is sent back, and where the call then waits. -/
def examine (s : E2ESession) (wait : Option Wait) (pl : Payload) (stack : Stack)
    (exponent : Nat) : E2ESession × Except Fault (Option Payload × Option Wait) :=
  if wait ≠ some .second ∧ pl.type = .e2eInit then
    let (s, reply) := s.handleInit P pl stack exponent
    (s, reply.map fun reply =>
      (reply, if reply.isSome then none else wait.map fun _ => .second))
  else
    let (s, reply) := s.handleAck P pl stack
    (s, reply.map fun _ => (none, none))

/-- The next number an INIT can carry is greater. -/
def HasNext (s : E2ESession) : Prop := s.sequenceNo < s.sequenceNo + 1

/-- No exchange of the session is under way. -/
structure Settled (s : E2ESession) (n : UInt32) : Prop where
  number : s.sequenceNo = n
  state : s.sessState = .unitialized ∨ s.sessState = .established
  crypto : s.sessState = .unitialized → s.mCrypto.mEstablished = false

/-- The session has sent an INIT under its number and waits for the ACK. -/
structure Pending (s : E2ESession) (n : UInt32) (t : UInt64) : Prop where
  number : s.sequenceNo = n
  state : s.sessState = .initSent ∨ s.sessState = .refreshSent
  crypto : s.mCrypto.mEstablished = false
  timestamp : s.sessTimestamp = t

theorem Settled.crypto_of_ne {s : E2ESession} {n : UInt32} (hs : s.Settled n)
    (hstate : s.sessState ≠ .established) : s.mCrypto.mEstablished = false :=
  hs.crypto (hs.state.resolve_right hstate)

theorem Pending.accepts {s : E2ESession} {n : UInt32} {t time : UInt64} (hs : s.Pending n t)
    (hlt : time < t) : s.sequenceNo < n ∨ n = s.sequenceNo ∧ time < s.sessTimestamp :=
  Or.inr ⟨hs.number.symm, by rwa [hs.timestamp]⟩

theorem Pending.refuses {s : E2ESession} {n : UInt32} {t time : UInt64} (hs : s.Pending n t)
    (hlt : t < time) : ¬ (s.sequenceNo < n ∨ n = s.sequenceNo ∧ time < s.sessTimestamp) := by
  rw [hs.number, hs.timestamp]
  rintro (hless | ⟨_, hless⟩)
  · exact UInt32.lt_irrefl n hless
  · exact UInt64.lt_asymm hlt hless

end E2ESession

namespace Payload

def IsInit (pl : Payload) (n : UInt32) (t : UInt64) : Prop :=
  ∃ key : PublicKey, E2EInit.toPayload ⟨n, t, key.toStr⟩ = .ok pl

def IsAck (pl : Payload) (n : UInt32) : Prop :=
  ∃ key : PublicKey, E2EAck.toPayload ⟨n, key.toStr⟩ = .ok pl

theorem IsInit.type {pl : Payload} {n : UInt32} {t : UInt64} (hinit : pl.IsInit n t) :
    pl.type = .e2eInit := by
  obtain ⟨key, hpl⟩ := hinit
  exact (E2EInit.toPayload_eq_ok.mp hpl).1

theorem IsAck.type {pl : Payload} {n : UInt32} (hack : pl.IsAck n) : pl.type = .e2eAck := by
  obtain ⟨key, hpl⟩ := hack
  exact (E2EAck.toPayload_eq_ok.mp hpl).1

end Payload

namespace E2ESession

variable {P : Primitives} {s : E2ESession} {n : UInt32} {t : UInt64} {pl : Payload}
  {stack : Stack} {exponent : Nat}

/-- A call that sends leaves the session waiting for an ACK. -/
theorem setup_sends {refresh : Bool} (hs : s.Settled n) (hsends : s.sends refresh = true)
    (now : UInt64) (exponent : Nat) :
    ∃ t pl, s.setup P refresh now exponent = (t, .ok (some pl)) ∧
      t.Pending (n + 1) now ∧ pl.IsInit (n + 1) now := by
  have hnumber := hs.number
  cases refresh with
  | true =>
      obtain ⟨pl, hsend, hpl⟩ := (s.rotate exponent).sendInit_eq P .refreshSent now
      have hsetup : s.setup P true now exponent = (s.refreshed now exponent, .ok (some pl)) := by
        simp only [setup, ↓reduceIte, refresh, hsend]
        rfl
      refine ⟨_, pl, hsetup, ⟨congrArg (· + 1) hnumber, Or.inr rfl, rfl, rfl⟩, ?_⟩
      exact ⟨_, hnumber ▸ hpl⟩
  | false =>
      have hstate : s.sessState = .unitialized := by simpa [sends] using hsends
      obtain ⟨pl, hsend, hpl⟩ := s.sendInit_eq P .initSent now
      have hsetup : s.setup P false now exponent =
          ({ s with
            sequenceNo := s.sequenceNo + 1
            sessState := .initSent
            sessTimestamp := now }, .ok (some pl)) := by
        simp only [setup, hstate, ne_eq, not_true_eq_false, Bool.false_eq_true, ↓reduceIte,
          initiate, hsend]
        rfl
      refine ⟨_, pl, hsetup, ⟨congrArg (· + 1) hnumber, Or.inl rfl, hs.crypto hstate, rfl⟩, ?_⟩
      exact ⟨_, hnumber ▸ hpl⟩

/-- One that does not only waits. -/
theorem setup_silent {refresh : Bool} (hsends : s.sends refresh = false) (now : UInt64)
    (exponent : Nat) : s.setup P refresh now exponent = (s, .ok none) := by
  obtain ⟨hrefresh, hstate⟩ : refresh = false ∧ ¬ s.sessState = .unitialized := by
    simpa [sends] using hsends
  simp only [setup, hrefresh, hstate, ne_eq, not_false_eq_true, Bool.false_eq_true, ↓reduceIte]

/-- An INIT that comes later, or with the same number and an earlier time, is
answered with an ACK. -/
theorem examine_accepts {wait : Option Wait} (hwait : wait ≠ some .second)
    (hinit : pl.IsInit n t)
    (hcrypto : s.sessState ≠ .established → s.mCrypto.mEstablished = false)
    (haccepts : s.sequenceNo < n ∨ n = s.sequenceNo ∧ t < s.sessTimestamp)
    (stack : Stack) (exponent : Nat) :
    ∃ s' ackpl, s.examine P wait pl stack exponent = (s', .ok (some ackpl, none)) ∧
      s'.Settled n ∧ ackpl.IsAck n := by
  have htype := hinit.type
  obtain ⟨key, hpl⟩ := hinit
  have hparse := E2EInit.ofPayload_toPayload hpl stack
  have hfits : FitsBignum (E2EInit.mk n t key.toStr).key.1 := key.fitsBignum
  obtain ⟨old, ackpl, haccept, hack⟩ := s.acceptInit_eq P hfits exponent hcrypto
  obtain ⟨s', haccept, hnumber, hstate⟩ : ∃ s', s.acceptInit P ⟨n, t, key.toStr⟩ exponent =
      (s', .ok (some ackpl)) ∧ s'.sequenceNo = n ∧ s'.sessState = .established :=
    ⟨_, haccept, rfl, rfl⟩
  have hhandle := s.handleInit_eq P hparse exponent
  have htaken : s.accepts ⟨n, t, key.toStr⟩ = true := decide_eq_true haccepts
  rw [if_pos htaken, haccept] at hhandle
  refine ⟨s', ackpl, ?_, ⟨hnumber, Or.inr hstate, ?_⟩, ⟨_, hack⟩⟩
  · simp only [examine, if_pos (And.intro hwait htype), hhandle]
    rfl
  · intro hnone
    rw [hstate] at hnone
    cases hnone

/-- Any other INIT is refused, and a call then waits for the ACK. -/
theorem examine_refuses (hinit : pl.IsInit n t)
    (hrefuses : ¬ (s.sequenceNo < n ∨ n = s.sequenceNo ∧ t < s.sessTimestamp))
    (stack : Stack) (exponent : Nat) :
    s.examine P (some .first) pl stack exponent = (s, .ok (none, some .second)) := by
  have htype := hinit.type
  obtain ⟨key, hpl⟩ := hinit
  have hparse := E2EInit.ofPayload_toPayload hpl stack
  have hhandle : s.handleInit P pl stack exponent = (s, .ok none) := by
    rw [s.handleInit_eq P hparse, if_neg (by simpa [accepts] using hrefuses)]
  have hfirst : some Wait.first ≠ some .second := by rintro ⟨⟩
  simp only [examine, if_pos (And.intro hfirst htype), hhandle]
  rfl

/-- The ACK that is waited for ends the call. -/
theorem examine_completes (hs : s.Pending n t) (hack : pl.IsAck n) (wait : Option Wait)
    (stack : Stack) (exponent : Nat) :
    ∃ s', s.examine P wait pl stack exponent = (s', .ok (none, none)) ∧ s'.Settled n := by
  have htype : ¬ (wait ≠ some .second ∧ pl.type = .e2eInit) := by
    rw [hack.type]
    rintro ⟨_, htype⟩
    cases htype
  obtain ⟨key, hpl⟩ := hack
  have hparse := E2EAck.ofPayload_toPayload hpl stack
  have hhandle := s.handleAck_eq P hparse
  rw [if_pos ⟨hs.state, hs.number.symm⟩, s.acceptAck_eq P key.fitsBignum hs.crypto] at hhandle
  have hexamine : s.examine P wait pl stack exponent =
      ({ s with
        mCrypto := ⟨s.mCrypto.mDH, P.deriveKey (P.sharedSecret s.mCrypto.mDH key.toStr), true⟩
        sessState := .established }, .ok (none, none)) := by
    simp only [examine, if_neg htype, hhandle]
    rfl
  refine ⟨_, hexamine, ⟨hs.number, Or.inr rfl, ?_⟩⟩
  rintro ⟨⟩

end E2ESession

/-- One end: its session for the other, the wait of a call for the other, and
what it has sent that the other has not examined. -/
structure Party where
  session : E2ESession
  wait : Option Wait
  flight : List Payload

/-- Where two clients can stand with each other, the one with the oldest call
that waits first.  `stamps` are the timestamps of all INITs so far. -/
inductive Linked (stamps : List UInt64) : Party → Party → Prop
  | quiet {s t : E2ESession} (n : UInt32) (hs : s.Settled n) (ht : t.Settled n) :
      Linked stamps ⟨s, none, []⟩ ⟨t, none, []⟩
  | asked {s t : E2ESession} (n : UInt32) {time : UInt64} {init : Payload} (wait : Option Wait)
      (hs : s.Pending (n + 1) time) (ht : t.Settled n) (hnext : n < n + 1)
      (hinit : init.IsInit (n + 1) time) (htime : time ∈ stamps)
      (hwait : wait ≠ some .second) :
      Linked stamps ⟨s, some .first, [init]⟩ ⟨t, wait, []⟩
  | answered {s t : E2ESession} (n : UInt32) {time : UInt64} {ack : Payload} (wait : Wait)
      (hs : s.Pending n time) (ht : t.Settled n) (hack : ack.IsAck n) :
      Linked stamps ⟨s, some wait, []⟩ ⟨t, none, [ack]⟩
  /-- The other end has answered, and calls in turn. -/
  | answeredAsked {s t : E2ESession} (n : UInt32) {time time' : UInt64} {ack init : Payload}
      (wait : Wait) (hs : s.Pending n time) (ht : t.Pending (n + 1) time')
      (hnext : n < n + 1) (hack : ack.IsAck n) (hinit : init.IsInit (n + 1) time')
      (htime : time' ∈ stamps) :
      Linked stamps ⟨s, some wait, []⟩ ⟨t, some .first, [ack, init]⟩
  /-- Both have called at once; the earlier call wins. -/
  | crossed {s t : E2ESession} (n : UInt32) {time time' : UInt64} {init init' : Payload}
      (hs : s.Pending n time) (ht : t.Pending n time') (hlt : time < time')
      (hinit : init.IsInit n time) (hinit' : init'.IsInit n time') :
      Linked stamps ⟨s, some .first, [init]⟩ ⟨t, some .first, [init']⟩
  | refused {s t : E2ESession} (n : UInt32) {time time' : UInt64} {init : Payload}
      (hs : s.Pending n time) (ht : t.Pending n time') (hlt : time < time')
      (hinit : init.IsInit n time) :
      Linked stamps ⟨s, some .second, [init]⟩ ⟨t, some .first, []⟩
  | won {s t : E2ESession} (n : UInt32) {time time' : UInt64} {init' ack : Payload}
      (hs : s.Pending n time) (ht : t.Settled n) (hlt : time < time')
      (hinit' : init'.IsInit n time') (hack : ack.IsAck n) :
      Linked stamps ⟨s, some .first, []⟩ ⟨t, none, [init', ack]⟩
  | wonAsked {s t : E2ESession} (n : UInt32) {time time' last : UInt64}
      {init' ack init : Payload} (hs : s.Pending n time) (ht : t.Pending (n + 1) last)
      (hnext : n < n + 1) (hlt : time < time') (hinit' : init'.IsInit n time')
      (hack : ack.IsAck n) (hinit : init.IsInit (n + 1) last) (hlast : last ∈ stamps) :
      Linked stamps ⟨s, some .first, []⟩ ⟨t, some .first, [init', ack, init]⟩

def Joined (stamps : List UInt64) (a b : Party) : Prop := Linked stamps a b ∨ Linked stamps b a

theorem Joined.symm {stamps : List UInt64} {a b : Party} (hjoined : Joined stamps a b) :
    Joined stamps b a := Or.symm hjoined

theorem Linked.mono {stamps stamps' : List UInt64} {a b : Party} (hlinked : Linked stamps a b)
    (hle : stamps ⊆ stamps') : Linked stamps' a b := by
  cases hlinked with
  | quiet n hs ht => exact Linked.quiet n hs ht
  | asked n wait hs ht hnext hinit htime hwait =>
      exact Linked.asked n wait hs ht hnext hinit (hle htime) hwait
  | answered n wait hs ht hack => exact Linked.answered n wait hs ht hack
  | answeredAsked n wait hs ht hnext hack hinit htime =>
      exact Linked.answeredAsked n wait hs ht hnext hack hinit (hle htime)
  | crossed n hs ht hlt hinit hinit' => exact Linked.crossed n hs ht hlt hinit hinit'
  | refused n hs ht hlt hinit => exact Linked.refused n hs ht hlt hinit
  | won n hs ht hlt hinit' hack => exact Linked.won n hs ht hlt hinit' hack
  | wonAsked n hs ht hnext hlt hinit' hack hinit hlast =>
      exact Linked.wonAsked n hs ht hnext hlt hinit' hack hinit (hle hlast)

theorem Joined.mono {stamps stamps' : List UInt64} {a b : Party} (hjoined : Joined stamps a b)
    (hle : stamps ⊆ stamps') : Joined stamps' a b :=
  hjoined.imp (fun hlinked => hlinked.mono hle) (fun hlinked => hlinked.mono hle)

namespace Joined

variable {P : Primitives} {stamps : List UInt64} {s : E2ESession} {wait : Option Wait}
  {flight : List Payload} {b : Party}

/-- Where a call sends its INIT to. -/
theorem setup_sends {refresh : Bool} {now : UInt64}
    (hjoined : Joined stamps ⟨s, none, flight⟩ b) (hsends : s.sends refresh = true)
    (hnext : s.HasNext) (hdistinct : now ∉ stamps) (exponent : Nat) :
    ∃ s' init, s.setup P refresh now exponent = (s', .ok (some init)) ∧
      Joined (now :: stamps) ⟨s', some .first, flight ++ [init]⟩ b := by
  have hnow : now ∈ now :: stamps := List.mem_cons_self
  rcases hjoined with hlinked | hlinked
  · cases hlinked with
    | quiet n hs ht =>
        obtain ⟨s', init, hsetup, hs', hinit⟩ := E2ESession.setup_sends hs hsends now exponent
        have hn : n < n + 1 := hs.number ▸ hnext
        exact ⟨s', init, hsetup, Or.inl (Linked.asked n none hs' ht hn hinit hnow (by simp))⟩
  · cases hlinked with
    | quiet n ht hs =>
        obtain ⟨s', init, hsetup, hs', hinit⟩ := E2ESession.setup_sends hs hsends now exponent
        have hn : n < n + 1 := hs.number ▸ hnext
        exact ⟨s', init, hsetup, Or.inl (Linked.asked n none hs' ht hn hinit hnow (by simp))⟩
    | @asked t _ n time init' _ ht hs hn hinit' htime =>
        obtain ⟨s', init, hsetup, hs', hinit⟩ := E2ESession.setup_sends hs hsends now exponent
        refine ⟨s', init, hsetup, ?_⟩
        have hne : now ≠ time := fun heq => hdistinct (heq ▸ htime)
        rcases UInt64.lt_or_lt_of_ne hne with hlt | hlt
        · exact Or.inl (Linked.crossed (n + 1) hs' ht hlt hinit hinit')
        · exact Or.inr (Linked.crossed (n + 1) ht hs' hlt hinit' hinit)
    | answered n wait ht hs hack =>
        obtain ⟨s', init, hsetup, hs', hinit⟩ := E2ESession.setup_sends hs hsends now exponent
        have hn : n < n + 1 := hs.number ▸ hnext
        exact ⟨s', init, hsetup, Or.inr (Linked.answeredAsked n wait ht hs' hn hack hinit hnow)⟩
    | won n ht hs hlt hinit' hack =>
        obtain ⟨s', init, hsetup, hs', hinit⟩ := E2ESession.setup_sends hs hsends now exponent
        have hn : n < n + 1 := hs.number ▸ hnext
        exact ⟨s', init, hsetup, Or.inr (Linked.wonAsked n ht hs' hn hlt hinit' hack hinit hnow)⟩

/-- A call that sends nothing hears the INIT that is under way. -/
theorem setup_silent (hjoined : Joined stamps ⟨s, none, flight⟩ b) (hflight : b.flight ≠ []) :
    Joined stamps ⟨s, some .first, flight⟩ b := by
  rcases hjoined with hlinked | hlinked
  · cases hlinked with
    | quiet => exact (hflight rfl).elim
  · cases hlinked with
    | quiet => exact (hflight rfl).elim
    | asked n wait hs ht hnext hinit htime hwait =>
        exact Or.inr (Linked.asked n _ hs ht hnext hinit htime (by simp))
    | answered => exact (hflight rfl).elim
    | won => exact (hflight rfl).elim

/-- An INIT that is taken up is answered, and nothing is waited for. -/
theorem answer {t : E2ESession} {wait' : Option Wait} {pl : Payload} {rest : List Payload}
    {n : UInt32} {time : UInt64} (hwait : wait ≠ some .second) (hinit : pl.IsInit n time)
    (hcrypto : s.sessState ≠ .established → s.mCrypto.mEstablished = false)
    (haccepts : s.sequenceNo < n ∨ n = s.sequenceNo ∧ time < s.sessTimestamp)
    (hjoined : ∀ (s' : E2ESession) (ack : Payload), s'.Settled n → ack.IsAck n →
      Joined stamps ⟨s', none, flight ++ [ack]⟩ ⟨t, wait', rest⟩) (stack : Stack)
    (exponent : Nat) :
    ∃ s' reply next, s.examine P wait pl stack exponent = (s', .ok (reply, next)) ∧
      Joined stamps ⟨s', next, flight ++ reply.toList⟩ ⟨t, wait', rest⟩ ∧
      (∀ ack ∈ reply, pl.type = .e2eInit ∧ ack.type = .e2eAck) ∧
      (next ≠ none → rest = [] → wait' ≠ none ∧ flight ≠ []) := by
  obtain ⟨s', ack, hexamine, hs', hack⟩ :=
    E2ESession.examine_accepts (P := P) hwait hinit hcrypto haccepts stack exponent
  refine ⟨s', some ack, none, hexamine, hjoined s' ack hs' hack, ?_, fun hnone => absurd rfl hnone⟩
  rintro _ ⟨⟩
  exact ⟨hinit.type, hack.type⟩

/-- What an INIT or ACK that is examined does.  An answer is an ACK to an INIT,
and a call that waits on for want of more has its own INIT before a call. -/
theorem examine {t : E2ESession} {wait' : Option Wait} {pl : Payload} {rest : List Payload}
    (hjoined : Joined stamps ⟨s, wait, flight⟩ ⟨t, wait', pl :: rest⟩) (stack : Stack)
    (exponent : Nat) :
    ∃ s' reply next, s.examine P wait pl stack exponent = (s', .ok (reply, next)) ∧
      Joined stamps ⟨s', next, flight ++ reply.toList⟩ ⟨t, wait', rest⟩ ∧
      (∀ ack ∈ reply, pl.type = .e2eInit ∧ ack.type = .e2eAck) ∧
      (next ≠ none → rest = [] → wait' ≠ none ∧ flight ≠ []) := by
  have hfirst : some Wait.first ≠ some .second := by simp
  rcases hjoined with hlinked | hlinked
  · cases hlinked with
    | answered n wait hs ht hack =>
        obtain ⟨s', hexamine, hs'⟩ :=
          E2ESession.examine_completes (P := P) hs hack (some wait) stack exponent
        exact ⟨s', none, none, hexamine, Or.inl (Linked.quiet n hs' ht), by simp, by simp⟩
    | answeredAsked n wait hs ht hnext hack hinit htime =>
        obtain ⟨s', hexamine, hs'⟩ :=
          E2ESession.examine_completes (P := P) hs hack (some wait) stack exponent
        exact ⟨s', none, none, hexamine,
          Or.inr (Linked.asked n none ht hs' hnext hinit htime (by simp)), by simp, by simp⟩
    | @crossed _ _ n time time' init init' hs ht hlt hinit hinit' =>
        have hexamine := E2ESession.examine_refuses (P := P) hinit' (hs.refuses hlt) stack exponent
        exact ⟨s, none, some .second, hexamine, Or.inl (Linked.refused n hs ht hlt hinit),
          by simp, by simp⟩
    | won n hs ht hlt hinit' hack =>
        have hexamine := E2ESession.examine_refuses (P := P) hinit' (hs.refuses hlt) stack exponent
        exact ⟨s, none, some .second, hexamine, Or.inl (Linked.answered n .second hs ht hack),
          by simp, by simp⟩
    | wonAsked n hs ht hnext hlt hinit' hack hinit hlast =>
        have hexamine := E2ESession.examine_refuses (P := P) hinit' (hs.refuses hlt) stack exponent
        exact ⟨s, none, some .second, hexamine,
          Or.inl (Linked.answeredAsked n .second hs ht hnext hack hinit hlast), by simp, by simp⟩
  · cases hlinked with
    | asked n wait ht hs hnext hinit htime hwait =>
        exact answer hwait hinit hs.crypto_of_ne (Or.inl (hs.number ▸ hnext))
          (fun _ _ hs' hack => Or.inr (Linked.answered (n + 1) .first ht hs' hack)) stack exponent
    | crossed n ht hs hlt hinit hinit' =>
        exact answer hfirst hinit (fun _ => hs.crypto) (hs.accepts hlt)
          (fun _ _ hs' hack => Or.inr (Linked.won n ht hs' hlt hinit' hack)) stack exponent
    | refused n ht hs hlt hinit =>
        exact answer hfirst hinit (fun _ => hs.crypto) (hs.accepts hlt)
          (fun _ _ hs' hack => Or.inr (Linked.answered n .second ht hs' hack)) stack exponent

/-- A call that nothing is under way to has its INIT under way, if the other end
is in no call for it. -/
theorem flight_ne_nil (hjoined : Joined stamps ⟨s, wait, flight⟩ b) (hwait : wait ≠ none)
    (hnone : b.wait = none) (hempty : b.flight = []) : flight ≠ [] := by
  rcases hjoined with hlinked | hlinked
  · cases hlinked with
    | quiet => exact (hwait rfl).elim
    | asked => simp
    | answered => cases hempty
    | answeredAsked => cases hnone
    | crossed => cases hnone
    | refused => cases hnone
    | won => cases hempty
    | wonAsked => cases hnone
  · cases hlinked with
    | quiet => exact (hwait rfl).elim
    | asked => cases hnone
    | answered => cases hnone
    | answeredAsked => cases hnone
    | crossed => cases hnone
    | refused => cases hnone
    | won => cases hnone
    | wonAsked => cases hnone

/-- Where neither is in a call for the other, nothing is under way. -/
theorem flight_eq_nil (hjoined : Joined stamps ⟨s, none, flight⟩ b) (hnone : b.wait = none) :
    b.flight = [] := by
  rcases hjoined with hlinked | hlinked
  · cases hlinked with
    | quiet => rfl
  · cases hlinked with
    | quiet => rfl
    | asked => cases hnone
    | answered => cases hnone
    | won => cases hnone

end Joined

end LeakyChat

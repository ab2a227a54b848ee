/-
The number and the time of an end-to-end session.  Its own INITs set both, and
so does every INIT of the peer that it answers, to any value of the field: the
number can come to the end of its range, and the time so near to it that a
minute later is past it.
-/
import LeakyChat.SessionStates
import Mathlib.Data.Set.Insert

namespace LeakyChat

open Transition

/-- The number an INIT or an ACK is sent under. -/
inductive Numbered : Payload → UInt32 → Prop
  | init {init : E2EInit} {pl : Payload} (hpl : init.toPayload = .ok pl) :
      Numbered pl init.seqno
  | ack {ack : E2EAck} {pl : Payload} (hpl : ack.toPayload = .ok pl) :
      Numbered pl ack.seqno

theorem Numbered.of_init {init : E2EInit} {pl : Payload} {n : UInt32}
    (hpl : init.toPayload = .ok pl) (hn : Numbered pl n) : n = init.seqno := by
  have hparse := E2EInit.ofPayload_toPayload hpl fun _ => 0
  cases hn with
  | init hother =>
      rw [E2EInit.ofPayload_toPayload hother, Except.ok.injEq] at hparse
      rw [hparse]
  | ack hother =>
      have htype := (E2EInit.toPayload_eq_ok.mp hpl).1
      rw [(E2EAck.toPayload_eq_ok.mp hother).1] at htype
      cases htype

theorem Numbered.of_ack {ack : E2EAck} {pl : Payload} {n : UInt32}
    (hpl : ack.toPayload = .ok pl) (hn : Numbered pl n) : n = ack.seqno := by
  have hparse := E2EAck.ofPayload_toPayload hpl fun _ => 0
  cases hn with
  | init hother =>
      have htype := (E2EAck.toPayload_eq_ok.mp hpl).1
      rw [(E2EInit.toPayload_eq_ok.mp hother).1] at htype
      cases htype
  | ack hother =>
      rw [E2EAck.ofPayload_toPayload hother, Except.ok.injEq] at hparse
      rw [hparse]

namespace E2ESession

/-- The INITs that are answered with an ACK: `establish` throws in a session
that says it is not established and has a key all the same, and at a key that is no
`BIGNUM`. -/
def TakesUp (s : E2ESession) (init : E2EInit) : Prop :=
  s.accepts init = true ∧
    (s.sessState = .established ∨ s.mCrypto.mEstablished = false) ∧ FitsBignum init.key.1

variable {P : Primitives} {s t : E2ESession}

theorem run_starts (P : Primitives) {call : Call} (hstarts : call.Starts) (s : E2ESession) :
    ∃ (init : E2EInit) (pl : Payload), (s.run P call).2 = .ok (some pl) ∧
      init.toPayload = .ok pl ∧ init.seqno = s.sequenceNo + 1 ∧
      (s.run P call).1.sequenceNo = s.sequenceNo + 1 ∧
      (s.run P call).1.sessState ≠ .unitialized := by
  obtain ⟨pl, hsent, hpl, hawaits⟩ := run_own (P := P) hstarts s
  have hseqno : (s.run P call).1.sequenceNo = s.sequenceNo + 1 := by
    cases call with
    | initiate now =>
        obtain ⟨t, pl', hrun, _, _, hseqno, _⟩ := run_initiate (P := P) s now
        rw [hrun, hseqno]
    | refresh now exponent =>
        rw [run_refresh]
        rfl
    | handleInit pl stack exponent => exact hstarts.elim
    | handleAck pl stack => exact hstarts.elim
  refine ⟨_, pl, hsent, hpl, hseqno, hseqno, ?_⟩
  rcases hawaits with hstate | hstate <;> simp [hstate]

/-- An INIT that is taken up leaves its own number and time. -/
theorem handleInit_takes (P : Primitives) {init : E2EInit} {pl : Payload} {stack : Stack}
    (hparse : E2EInit.ofPayload pl stack = .ok init) (htakes : s.TakesUp init)
    (exponent : Nat) :
    ∃ t ack key, s.handleInit P pl stack exponent = (t, .ok (some ack)) ∧
      E2EAck.toPayload ⟨init.seqno, key⟩ = .ok ack ∧ t.sessState = .established ∧
      t.sessTimestamp = init.timestamp ∧ t.sequenceNo = init.seqno := by
  obtain ⟨haccepts, hcrypto, hkey⟩ := htakes
  obtain ⟨old, ack, haccept, hack⟩ := s.acceptInit_eq P hkey exponent
    fun hstate => hcrypto.resolve_left hstate
  have hhandle := handleInit_eq P s hparse exponent
  rw [if_pos haccepts, haccept] at hhandle
  exact ⟨_, ack, _, hhandle, hack, rfl, rfl, rfl⟩

/-- The state, the number and the time, which a call that throws leaves alone. -/
def progress (s : E2ESession) : E2EState × UInt32 × UInt64 :=
  (s.sessState, s.sequenceNo, s.sessTimestamp)

/-- An INIT that is accepted and not answered throws. -/
theorem acceptInit_throws (P : Primitives) {init : E2EInit} (haccepts : s.accepts init = true)
    (hkeeps : ¬ s.TakesUp init) (exponent : Nat) :
    ∃ t fault, s.acceptInit P init exponent = (t, .error fault) ∧ t.progress = s.progress := by
  by_cases hcrypto : s.sessState = .established ∨ s.mCrypto.mEstablished = false
  · have hkey : ¬ FitsBignum init.key.1 := fun hkey => hkeeps ⟨haccepts, hcrypto, hkey⟩
    refine ⟨_, _, s.acceptInit_unfit P hkey exponent fun hstate => hcrypto.resolve_left hstate, ?_⟩
    split <;> rfl
  · rw [not_or, Bool.not_eq_false] at hcrypto
    exact ⟨s, _, acceptInit_established P hcrypto.1 hcrypto.2 init exponent, rfl⟩

/-- Any other INIT leaves the state, the number and the time as they were. -/
theorem handleInit_keeps (P : Primitives) {pl : Payload} {stack : Stack}
    (hkeeps : ∀ init, E2EInit.ofPayload pl stack = .ok init → ¬ s.TakesUp init)
    (exponent : Nat) :
    (s.handleInit P pl stack exponent).1.progress = s.progress ∧
      ∀ ack, (s.handleInit P pl stack exponent).2 ≠ .ok (some ack) := by
  cases hparse : E2EInit.ofPayload pl stack with
  | error fault =>
      rw [handleInit, hparse]
      exact ⟨rfl, by rintro _ ⟨⟩⟩
  | ok init =>
      rw [handleInit_eq P s hparse]
      by_cases haccepts : s.accepts init = true
      · obtain ⟨t, fault, hthrown, hsame⟩ :=
          acceptInit_throws P haccepts (hkeeps init hparse) exponent
        rw [if_pos haccepts, hthrown]
        exact ⟨hsame, by rintro _ ⟨⟩⟩
      · rw [if_neg haccepts]
        exact ⟨rfl, by rintro _ ⟨⟩⟩

theorem handleAck_fields (P : Primitives) (s : E2ESession) (pl : Payload) (stack : Stack) :
    (s.handleAck P pl stack).1.sequenceNo = s.sequenceNo ∧
      (s.handleAck P pl stack).1.sessTimestamp = s.sessTimestamp ∧
      (s.sessState = .unitialized → (s.handleAck P pl stack).1.sessState = .unitialized) ∧
      ∀ reply, (s.handleAck P pl stack).2 ≠ .ok (some reply) := by
  unfold handleAck
  split
  · exact ⟨rfl, rfl, id, by rintro _ ⟨⟩⟩
  · rename_i hstate
    split
    · exact ⟨rfl, rfl, id, by rintro _ ⟨⟩⟩
    · split
      · exact ⟨rfl, rfl, id, by rintro _ ⟨⟩⟩
      · have hinitialized : s.sessState ≠ .unitialized := by
          intro huninit
          simp [huninit] at hstate
        unfold acceptAck
        split
        · exact ⟨rfl, rfl, id, by rintro _ ⟨⟩⟩
        · exact ⟨rfl, rfl, fun huninit => absurd huninit hinitialized, by rintro _ ⟨⟩⟩

/-- The numbers a session sends and accepts in a call. -/
inductive Uses (P : Primitives) (s : E2ESession) : Call → UInt32 → Prop
  | sent {call : Call} {pl : Payload} {n : UInt32}
      (hsent : (s.run P call).2 = .ok (some pl)) (hn : Numbered pl n) : Uses P s call n
  | init {pl : Payload} {stack : Stack} {exponent : Nat} {init : E2EInit} {ack : Payload}
      (hparse : E2EInit.ofPayload pl stack = .ok init)
      (hanswered : (s.handleInit P pl stack exponent).2 = .ok (some ack)) :
      Uses P s (.handleInit pl stack exponent) init.seqno
  | ack {pl : Payload} {stack : Stack} {ack : E2EAck} (hawaits : s.Awaits)
      (hparse : E2EAck.ofPayload pl stack = .ok ack) (hseqno : ack.seqno = s.sequenceNo) :
      Uses P s (.handleAck pl stack) ack.seqno

/-- There is a number left for the INIT of a call. -/
def Call.HasNext (s : E2ESession) (call : Call) : Prop :=
  call.Starts → s.sequenceNo ≠ 4294967295

theorem next_of_ne {n : UInt32} (hn : n ≠ 4294967295) : n < n + 1 := by
  have hnat : n.toNat ≠ 4294967295 := fun heq => hn (UInt32.toNat_inj.mp heq)
  have hlt := n.toNat_lt
  rw [UInt32.lt_iff_toNat_lt, UInt32.toNat_add]
  simp only [UInt32.toNat_one]
  omega

/-- The number after a call is not below the one before, nor below any that the
call uses. -/
def Call.Raises (P : Primitives) (s : E2ESession) (call : Call) : Prop :=
  s.sequenceNo ≤ (s.run P call).1.sequenceNo ∧
    ∀ n, Uses P s call n → n ≤ (s.run P call).1.sequenceNo

theorem Call.Starts.raises (P : Primitives) {call : Call} (hstarts : call.Starts)
    (hnext : call.HasNext s) : call.Raises P s := by
  obtain ⟨init, pl, hsent, hpl, hinit, hseqno, _⟩ := run_starts P hstarts s
  unfold Call.Raises
  rw [hseqno]
  refine ⟨UInt32.le_of_lt (next_of_ne (hnext hstarts)), ?_⟩
  intro n hn
  cases hn with
  | sent hsent' hn =>
      rw [hsent, Except.ok.injEq, Option.some.injEq] at hsent'
      subst hsent'
      rw [hn.of_init hpl, hinit]
      exact UInt32.le_refl _
  | init => exact hstarts.elim
  | ack => exact hstarts.elim

theorem TakesUp.le {init : E2EInit} (htakes : s.TakesUp init) : s.sequenceNo ≤ init.seqno := by
  have haccepts := htakes.1
  simp only [accepts, decide_eq_true_eq] at haccepts
  rcases haccepts with hlt | ⟨heq, _⟩
  · exact UInt32.le_of_lt hlt
  · exact heq ▸ UInt32.le_refl _

theorem handleInit_raises (P : Primitives) (s : E2ESession) (pl : Payload) (stack : Stack)
    (exponent : Nat) : Call.Raises P s (.handleInit pl stack exponent) := by
  by_cases htakes : ∃ init, E2EInit.ofPayload pl stack = .ok init ∧ s.TakesUp init
  · obtain ⟨init, hparse, htakes⟩ := htakes
    obtain ⟨t, ack, key, hhandle, hack, _, _, hseqno⟩ := handleInit_takes P hparse htakes exponent
    simp only [Call.Raises, run, hhandle, hseqno]
    refine ⟨htakes.le, ?_⟩
    intro n hn
    cases hn with
    | sent hsent hn =>
        simp only [run, hhandle, Except.ok.injEq, Option.some.injEq] at hsent
        subst hsent
        exact hn.of_ack hack ▸ UInt32.le_refl _
    | init hparse' _ =>
        rw [hparse, Except.ok.injEq] at hparse'
        exact hparse' ▸ UInt32.le_refl _
  · obtain ⟨hsame, hsilent⟩ := handleInit_keeps P
      (fun init hparse htaken => htakes ⟨init, hparse, htaken⟩) exponent
    have hnumber : (s.handleInit P pl stack exponent).1.sequenceNo = s.sequenceNo :=
      congrArg (fun progress => progress.2.1) hsame
    simp only [Call.Raises, run, hnumber]
    refine ⟨UInt32.le_refl _, ?_⟩
    intro n hn
    cases hn with
    | sent hsent _ => exact absurd hsent (hsilent _)
    | init _ hanswered => exact absurd hanswered (hsilent _)

theorem handleAck_raises (P : Primitives) (s : E2ESession) (pl : Payload) (stack : Stack) :
    Call.Raises P s (.handleAck pl stack) := by
  obtain ⟨hseqno, _, _, hsilent⟩ := handleAck_fields P s pl stack
  simp only [Call.Raises, run, hseqno]
  refine ⟨UInt32.le_refl _, ?_⟩
  intro n hn
  cases hn with
  | sent hsent _ => exact absurd hsent (hsilent _)
  | ack _ _ hsame => exact hsame ▸ UInt32.le_refl _

/-- As long as there is a next number, a call does not lower the number, and uses
none above the one it leaves. -/
theorem run_numbers (P : Primitives) {call : Call} (hnext : call.HasNext s) :
    call.Raises P s := by
  by_cases hstarts : call.Starts
  · exact hstarts.raises P hnext
  · cases call with
    | initiate now => exact absurd trivial hstarts
    | refresh now exponent => exact absurd trivial hstarts
    | handleInit pl stack exponent => exact handleInit_raises P s pl stack exponent
    | handleAck pl stack => exact handleAck_raises P s pl stack

/-- A session, and the numbers it has sent or accepted. -/
structure Counted where
  session : E2ESession
  used : Set UInt32

/-- The lives of a session whose methods are called as one likes. -/
def counting (P : Primitives) : System Counted Call where
  init s := (∃ exponent oldExponent, s.session = fresh exponent oldExponent) ∧ s.used = ∅
  step s call t :=
    t = ⟨(s.session.run P call).1, s.used ∪ {n | Uses P s.session call n}⟩

/-- The call does not lower the number, and if it sends an INIT, then under a
number above all that were used. -/
structure Advances (P : Primitives) (s : Counted) (call : Call) : Prop where
  keeps : s.session.sequenceNo ≤ (s.session.run P call).1.sequenceNo
  starts : call.Starts → ∃ (init : E2EInit) (pl : Payload),
    (s.session.run P call).2 = .ok (some pl) ∧ init.toPayload = .ok pl ∧
      ∀ n ∈ s.used, n < init.seqno

/-- No number that was used is above that of the session. -/
def Counted.Bounded (s : Counted) : Prop := ∀ n ∈ s.used, n ≤ s.session.sequenceNo

theorem Counted.Bounded.step {s t : Counted} {call : Call} (hs : s.Bounded)
    (hnext : call.HasNext s.session) (hstep : (counting P).step s call t) :
    t.Bounded ∧ s.session.sequenceNo ≤ t.session.sequenceNo := by
  obtain rfl := hstep
  obtain ⟨hle, hused⟩ := run_numbers P hnext
  refine ⟨?_, hle⟩
  rintro n (hn | hn)
  · exact UInt32.le_trans (hs n hn) hle
  · exact hused n hn

theorem Counted.Bounded.run {s t : Counted} {calls : List Call}
    (hrun : Run ((counting P).restrict fun s call => call.HasNext s.session) s calls t)
    (hs : s.Bounded) : t.Bounded ∧ s.session.sequenceNo ≤ t.session.sequenceNo := by
  induction hrun with
  | nil s => exact ⟨hs, UInt32.le_refl _⟩
  | cons head tail ih =>
      obtain ⟨hbounded, hle⟩ := hs.step head.2 head.1
      obtain ⟨hlast, hle'⟩ := ih hbounded
      exact ⟨hlast, UInt32.le_trans hle hle'⟩

theorem Counted.Bounded.advances {s : Counted} (hs : s.Bounded) {call : Call}
    (hnext : call.HasNext s.session) : Advances P s call := by
  refine ⟨(run_numbers P hnext).1, ?_⟩
  intro hstarts
  obtain ⟨init, pl, hsent, hpl, hinit, _, _⟩ := run_starts P hstarts s.session
  refine ⟨init, pl, hsent, hpl, ?_⟩
  intro n hn
  rw [hinit]
  exact UInt32.lt_of_le_of_lt (hs n hn) (next_of_ne (hnext hstarts))

/-- After the last number comes 0. -/
theorem hasNext_of_advances {s : Counted} {call : Call} (hadvances : Advances P s call) :
    call.HasNext s.session := by
  intro hstarts hlast
  obtain ⟨_, _, _, _, _, hseqno, _⟩ := run_starts P hstarts s.session
  have hkeeps := hadvances.keeps
  rw [hseqno, hlast] at hkeeps
  exact absurd hkeeps (by decide)

/-- In a life in which no INIT was sent after the last number the number never
went down, and a call goes on so exactly if it sends none after the last number
either. -/
theorem advances_iff {s t : Counted} {labels : List Call} (hinit : (counting P).init s)
    (hrun : Run ((counting P).restrict fun s call => call.HasNext s.session) s labels t) :
    s.session.sequenceNo ≤ t.session.sequenceNo ∧
      ∀ call, Advances P t call ↔ call.HasNext t.session := by
  have hempty : s.Bounded := by
    intro n hn
    rw [hinit.2] at hn
    exact hn.elim
  obtain ⟨hbounded, hle⟩ := hempty.run hrun
  exact ⟨hle, fun call => ⟨hasNext_of_advances, hbounded.advances⟩⟩

/-- The payloads of the peer are an INIT and an ACK as it serialises them. -/
def Call.WellFormed : Call → Prop
  | .handleInit pl _ _ => ∃ init : E2EInit, init.toPayload = .ok pl
  | .handleAck pl _ => ∃ ack : E2EAck, ack.toPayload = .ok pl
  | _ => True

/-- A session that is established by an INIT under a given number and time. -/
theorem exists_answered (seqno : UInt32) (timestamp : UInt64) (hseqno : 0 < seqno) :
    ∃ init pl t ack key, E2EInit.ofPayload pl (fun _ => 0) = .ok init ∧
      Call.WellFormed (.handleInit pl (fun _ => 0) 4) ∧ init.timestamp = timestamp ∧
      (fresh 3 2).handleInit .clear pl (fun _ => 0) 4 = (t, .ok (some ack)) ∧
      E2EAck.toPayload ⟨seqno, key⟩ = .ok ack ∧ t.sessState = .established ∧
      t.sessTimestamp = timestamp ∧ t.sequenceNo = seqno := by
  obtain ⟨pl, hpl⟩ := init_toPayload_ok seqno timestamp (Primitives.clear.publicKey 5)
  have hparse := E2EInit.ofPayload_toPayload hpl fun _ => 0
  have htakes : (fresh 3 2).TakesUp
      ⟨seqno, timestamp, (Primitives.clear.publicKey 5).toStr⟩ :=
    ⟨by simp [accepts, fresh, hseqno], Or.inr rfl, PublicKey.fitsBignum _⟩
  obtain ⟨t, ack, key, hhandle, hack, hstate, htime, hnumber⟩ :=
    handleInit_takes .clear hparse htakes 4
  exact ⟨_, pl, t, ack, key, hparse, ⟨_, hpl⟩, rfl, hhandle, hack, hstate, htime, hnumber⟩

theorem exists_counted (seqno : UInt32) (hseqno : 0 < seqno) : ∃ call t,
    call.WellFormed ∧ ¬ call.Starts ∧ (counting .clear).step ⟨fresh 3 2, ∅⟩ call t ∧
      t.session.sequenceNo = seqno ∧ seqno ∈ t.used := by
  obtain ⟨_, pl, t, ack, key, _, hformed, _, hhandle, hack, _, _, hnumber⟩ :=
    exists_answered seqno 0 hseqno
  refine ⟨.handleInit pl (fun _ => 0) 4, _, hformed, id, rfl, ?_, ?_⟩
  · simp only [run, hhandle, hnumber]
  · exact Or.inr (.sent (by rw [run, hhandle]) (.ack hack))

theorem advances_iff_sample : ∃ t, Reachable (counting .clear) t ∧
    t.session.sequenceNo = 4294967294 ∧ Advances .clear t (.refresh 9 6) := by
  obtain ⟨call, t, _, hreply, hstep, hnumber, _⟩ := exists_counted 4294967294 (by decide)
  have hinit : (counting .clear).init ⟨fresh 3 2, ∅⟩ := ⟨⟨3, 2, rfl⟩, rfl⟩
  have hnext : call.HasNext (fresh 3 2) := fun hstarts => absurd hstarts hreply
  refine ⟨t, (Reachable.of_init hinit).step hstep, hnumber, ?_⟩
  apply ((advances_iff hinit (Run.cons ⟨hstep, hnext⟩ (Run.nil t))).2 _).mpr
  intro _
  rw [hnumber]
  decide

/-- A peer names the last number; the INIT of the next refresh goes out under 0. -/
theorem not_advances_last : ∃ t,
    Reachable ((counting .clear).restrict fun _ call => call.WellFormed) t ∧
      4294967295 ∈ t.used ∧ t.session.sequenceNo = 4294967295 ∧
      (t.session.run .clear (.refresh 9 6)).1.sequenceNo = 0 ∧
      ¬ Advances .clear t (.refresh 9 6) := by
  obtain ⟨call, t, hformed, _, hstep, hnumber, hused⟩ := exists_counted 4294967295 (by decide)
  have hinit : (counting .clear).init ⟨fresh 3 2, ∅⟩ := ⟨⟨3, 2, rfl⟩, rfl⟩
  obtain ⟨_, _, _, _, _, hafter, _⟩ :=
    run_starts .clear (show (Call.refresh 9 6).Starts from trivial) t.session
  have hlabel : ((counting .clear).restrict fun _ call => call.WellFormed).step
      ⟨fresh 3 2, ∅⟩ call t := ⟨hstep, hformed⟩
  refine ⟨t, ⟨_, _, hinit, Run.cons hlabel (Run.nil t)⟩, hused, hnumber, ?_, ?_⟩
  · rw [hafter, hnumber]
    rfl
  · intro hadvances
    exact hasNext_of_advances hadvances trivial hnumber

/-- A minute after it the clock has not wrapped. -/
def InTime (timestamp : UInt64) : Prop := timestamp.toNat + 60000000000 < 2 ^ 64

instance (timestamp : UInt64) : Decidable (InTime timestamp) :=
  inferInstanceAs (Decidable (_ < _))

/-- The times a call sets are in time: its clock, or what the INIT it answers
names. -/
def Call.InTime (s : E2ESession) : Call → Prop
  | .initiate now => E2ESession.InTime now
  | .refresh now _ => E2ESession.InTime now
  | .handleInit pl stack _ => ∀ init, E2EInit.ofPayload pl stack = .ok init →
      s.TakesUp init → E2ESession.InTime init.timestamp
  | .handleAck _ _ => True

/-- What a session is stale by, on exact integers. -/
def Overdue (s : E2ESession) (now : UInt64) : Prop :=
  (60000000000 : Int) < (now.toNat : Int) - (s.sessTimestamp.toNat : Int)

/-- `isStale` is right at every time, and its sum does not wrap. -/
structure StaleRight (s : E2ESession) : Prop where
  stale : ∀ now, s.isStale now = true ↔ s.Overdue now
  fits : (s.sessTimestamp + 60000000000).toNat = s.sessTimestamp.toNat + 60000000000

theorem isStale_eq (hstate : s.sessState ≠ .unitialized) (now : UInt64) :
    s.isStale now = decide (s.sessTimestamp + 60000000000 < now) := by
  rw [isStale, if_neg hstate]

/-- A sum that wraps makes `isStale` wrong at the last time there is. -/
theorem staleRight_iff (hstate : s.sessState ≠ .unitialized) :
    s.StaleRight ↔ InTime s.sessTimestamp := by
  have hlt := s.sessTimestamp.toNat_lt
  have hsum : (s.sessTimestamp + 60000000000).toNat =
      (s.sessTimestamp.toNat + 60000000000) % 2 ^ 64 := UInt64.toNat_add _ _
  constructor
  · intro hright
    by_contra hlate
    unfold InTime at hlate
    have hstale : s.isStale 18446744073709551615 = true := by
      rw [isStale_eq hstate, decide_eq_true_eq, UInt64.lt_iff_toNat_lt, hsum]
      change _ < 18446744073709551615
      omega
    have hoverdue := (hright.stale _).mp hstale
    rw [Overdue] at hoverdue
    change (60000000000 : Int) < 18446744073709551615 - _ at hoverdue
    omega
  · intro htime
    unfold InTime at htime
    have hfits : (s.sessTimestamp + 60000000000).toNat =
        s.sessTimestamp.toNat + 60000000000 := by
      rw [hsum, Nat.mod_eq_of_lt htime]
    refine ⟨?_, hfits⟩
    intro now
    rw [isStale_eq hstate, decide_eq_true_eq, UInt64.lt_iff_toNat_lt, hfits, Overdue]
    omega

/-- In every state but `UNITIALIZED` the answer of `isStale` is right. -/
def Dependable (s : E2ESession) : Prop := s.sessState ≠ .unitialized → s.StaleRight

theorem Dependable.of_progress (hs : s.Dependable) (hsame : t.progress = s.progress) :
    t.Dependable := by
  simp only [progress, Prod.mk.injEq] at hsame
  obtain ⟨hstate, _, htime⟩ := hsame
  intro hinitialized
  rw [staleRight_iff hinitialized, htime]
  rw [hstate] at hinitialized
  exact (staleRight_iff hinitialized).mp (hs hinitialized)

/-- The lives of a session whose methods are called as one likes. -/
def lives (P : Primitives) : System E2ESession Call where
  init s := ∃ exponent oldExponent, s = fresh exponent oldExponent
  step s call t := t = (s.run P call).1

theorem Dependable.run_iff (P : Primitives) (hs : s.Dependable) (call : Call) :
    (s.run P call).1.Dependable ↔ call.InTime s := by
  have hset : ∀ {t : E2ESession}, t.sessState ≠ .unitialized →
      (t.Dependable ↔ E2ESession.InTime t.sessTimestamp) := by
    intro t hstate
    rw [← staleRight_iff hstate]
    exact ⟨fun ht => ht hstate, fun hright _ => hright⟩
  cases call with
  | initiate now =>
      obtain ⟨t, pl, hrun, _, hawaits, _, htime⟩ := run_initiate (P := P) s now
      rw [hrun, hset (by rcases hawaits with hstate | hstate <;> simp [hstate]), htime]
      rfl
  | refresh now exponent =>
      rw [run_refresh, hset (by simp [refreshed])]
      rfl
  | handleInit pl stack exponent =>
      by_cases htakes : ∃ init, E2EInit.ofPayload pl stack = .ok init ∧ s.TakesUp init
      · obtain ⟨init, hparse, htakes⟩ := htakes
        obtain ⟨t, ack, key, hhandle, _, hstate, htime, _⟩ :=
          handleInit_takes P hparse htakes exponent
        rw [run, hhandle, hset (by simp [hstate]), htime]
        constructor
        · intro hinTime init' hparse' _
          rw [hparse, Except.ok.injEq] at hparse'
          exact hparse' ▸ hinTime
        · intro hinTime
          exact hinTime init hparse htakes
      · have hkeeps : ∀ init, E2EInit.ofPayload pl stack = .ok init → ¬ s.TakesUp init :=
          fun init hparse htaken => htakes ⟨init, hparse, htaken⟩
        obtain ⟨hsame, _⟩ := handleInit_keeps P hkeeps exponent
        exact ⟨fun _ init hparse htaken => absurd htaken (hkeeps init hparse),
          fun _ => hs.of_progress hsame⟩
  | handleAck pl stack =>
      obtain ⟨_, htime, huninit, _⟩ := handleAck_fields P s pl stack
      refine ⟨fun _ => trivial, ?_⟩
      intro _ hstate
      rw [staleRight_iff hstate, run, htime]
      have hbefore : s.sessState ≠ .unitialized := fun hs => hstate (huninit hs)
      exact (staleRight_iff hbefore).mp (hs hbefore)

/-- In a life in which every time that was set is in time, `isStale` is right in
each state; and it is right after the next call exactly if the time that sets is
in time. -/
theorem dependable_iff (hreach : Reachable ((lives P).restrict fun s call => call.InTime s) s) :
    s.Dependable ∧ ∀ call : Call, (s.run P call).1.Dependable ↔ call.InTime s := by
  have hs : s.Dependable := by
    apply hreach.invariant
    · rintro _ ⟨exponent, oldExponent, rfl⟩ hstate
      exact absurd rfl hstate
    · rintro s call t hs ⟨rfl, hinTime⟩
      exact (hs.run_iff P call).mpr hinTime
  exact ⟨hs, hs.run_iff P⟩

theorem exists_lived (timestamp : UInt64) : ∃ call t, call.WellFormed ∧
    (lives .clear).step (fresh 3 2) call t ∧ (InTime timestamp → call.InTime (fresh 3 2)) ∧
      t.sessState = .established ∧ t.sessTimestamp = timestamp := by
  obtain ⟨init, pl, t, ack, _, hparse, hformed, htime, hhandle, _, hstate, hset, _⟩ :=
    exists_answered 1 timestamp (by decide)
  have hstep : (lives .clear).step (fresh 3 2) (.handleInit pl (fun _ => 0) 4) t :=
    (congrArg Prod.fst hhandle).symm
  refine ⟨_, t, hformed, hstep, ?_, hstate, hset⟩
  intro hinTime init' hparse' _
  rw [hparse, Except.ok.injEq] at hparse'
  rw [← hparse', htime]
  exact hinTime

theorem dependable_iff_sample : ∃ t, Reachable (lives .clear) t ∧
    t.sessState = .established ∧ t.sessTimestamp = 5 ∧ t.Dependable := by
  obtain ⟨call, t, _, hstep, hinTime, hstate, hset⟩ := exists_lived 5
  have hreach : Reachable ((lives .clear).restrict fun s call => call.InTime s) t :=
    ⟨fresh 3 2, [call], ⟨3, 2, rfl⟩, Run.cons ⟨hstep, hinTime (by decide)⟩ (Run.nil t)⟩
  exact ⟨t, hreach.of_restrict, hstate, hset, (dependable_iff hreach).1⟩

/-- A peer names the last time there is: by a sum that has wrapped the session is
stale at a time long before. -/
theorem not_dependable_last : ∃ t,
    Reachable ((lives .clear).restrict fun _ call => call.WellFormed) t ∧
      t.sessState = .established ∧ t.sessTimestamp = 18446744073709551615 ∧
      t.isStale 60000000000 = true ∧ ¬ t.Overdue 60000000000 ∧ ¬ t.Dependable := by
  obtain ⟨call, t, hformed, hstep, _, hstate, hset⟩ := exists_lived 18446744073709551615
  have huninit : t.sessState ≠ .unitialized := by simp [hstate]
  have hstale : t.isStale 60000000000 = true := by
    rw [isStale_eq huninit, hset]
    decide
  have hahead : ¬ t.Overdue 60000000000 := by
    rw [Overdue, hset]
    decide
  refine ⟨t, ⟨fresh 3 2, [call], ⟨3, 2, rfl⟩, Run.cons ⟨hstep, hformed⟩ (Run.nil t)⟩, hstate,
    hset, hstale, hahead, ?_⟩
  intro ht
  exact hahead (((ht huninit).stale _).mp hstale)

end E2ESession

end LeakyChat

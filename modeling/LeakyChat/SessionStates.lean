/-
The states an end-to-end session goes through under the calls a client makes
of it, whatever its peer sends.  The state and the key session change
together; when two INITs under one number cross, their times decide.
-/
import LeakyChat.DHKeyExchange
import LeakyChat.E2EParsing
import LeakyChat.E2ESession
import LeakyChat.Library.Transition

namespace LeakyChat

open Transition

namespace E2ESession

/-- A call of one of the four methods, with the clock, the random number and the
uninitialised memory it finds. -/
inductive Call where
  | initiate (now : UInt64)
  | refresh (now : UInt64) (exponent : Nat)
  | handleInit (pl : Payload) (stack : Stack) (exponent : Nat)
  | handleAck (pl : Payload) (stack : Stack)

/-- `Client` initiates a session in `UNITIALIZED` only. -/
def Call.Allowed (s : E2ESession) : Call → Prop
  | .initiate _ => s.sessState = .unitialized
  | _ => True

/-- The calls that send an INIT. -/
def Call.Starts : Call → Prop
  | .initiate _ => True
  | .refresh _ _ => True
  | _ => False

variable (P : Primitives)

def run (s : E2ESession) : Call → E2ESession × Except Fault (Option Payload)
  | .initiate now => ((s.initiate P now).1, (s.initiate P now).2.map some)
  | .refresh now exponent =>
      ((s.refresh P now exponent).1, (s.refresh P now exponent).2.map some)
  | .handleInit pl stack exponent => s.handleInit P pl stack exponent
  | .handleAck pl stack => s.handleAck P pl stack

/-- The lives of a session; a call that throws leaves it as far as it got. -/
def calls : System E2ESession Call where
  init s := ∃ exponent oldExponent, s = fresh exponent oldExponent
  step s call t := call.Allowed s ∧ (s.run P call).1 = t

/-- The big-number operations in the call succeed. -/
def Call.Computes (P : Primitives) (s : E2ESession) (call : Call) : Prop :=
  (s.run P call).2 ≠ .error Primitives.bin2bnFailed

/-- The session says it is established when its key session is. -/
def Synced (s : E2ESession) : Prop :=
  s.sessState = .established ↔ s.mCrypto.mEstablished = true

/-- A session that does not say it is established has a key session to establish. -/
def Unspent (s : E2ESession) : Prop :=
  s.sessState ≠ .established → s.mCrypto.mEstablished = false

/-- An INIT of this session waits for its ACK. -/
def Awaits (s : E2ESession) : Prop :=
  s.sessState = .initSent ∨ s.sessState = .refreshSent

/-- A call that throws for the length of a vector or a failing `BN_bin2bn` if it throws,
and for the latter only leaves a session that is not synced any more. -/
structure Sound (s : E2ESession) (r : E2ESession × Except Fault (Option Payload)) : Prop where
  unspent : r.1.Unspent
  synced : s.Synced → r.2 ≠ .error Primitives.bin2bnFailed → r.1.Synced
  fault : ∀ fault, r.2 = .error fault →
    fault = .lengthError ∨ fault = Primitives.bin2bnFailed

variable {P} {s t : E2ESession}

theorem synced_fresh (exponent oldExponent : Nat) : (fresh exponent oldExponent).Synced := by
  simp [Synced, fresh, CryptoSession.fresh]

theorem Synced.unspent (hs : s.Synced) : s.Unspent := by
  intro hstate
  rw [← Bool.not_eq_true]
  exact fun htrue => hstate (hs.mpr htrue)

theorem unspent_fresh (exponent oldExponent : Nat) : (fresh exponent oldExponent).Unspent :=
  (synced_fresh exponent oldExponent).unspent

theorem Awaits.ne_established (hawaits : s.Awaits) : s.sessState ≠ .established := by
  rcases hawaits with hstate | hstate <;> simp [hstate]

theorem Unspent.unchanged (hs : s.Unspent) : Sound s (s, .ok none) :=
  ⟨hs, fun hsynced _ => hsynced, by rintro _ ⟨⟩⟩

theorem Unspent.thrown (hs : s.Unspent) : Sound s (s, .error .lengthError) :=
  ⟨hs, fun hsynced _ => hsynced, by rintro _ ⟨⟩; exact Or.inl rfl⟩

/-- What a failing `BN_bin2bn` leaves may be out of step, as long as nothing is spent. -/
theorem sound_bin2bnFailed (ht : t.Unspent) : Sound s (t, .error Primitives.bin2bnFailed) :=
  ⟨ht, fun _ hcomputes => absurd rfl hcomputes, by rintro _ ⟨⟩; exact Or.inr rfl⟩

theorem Synced.sound (ht : t.Synced) (reply : Option Payload) : Sound s (t, .ok reply) :=
  ⟨ht.unspent, fun _ _ => ht, by rintro _ ⟨⟩⟩

/-- A key pair that is not established yet goes out in an INIT. -/
theorem sendInit_sound (hcrypto : s.mCrypto.mEstablished = false) {state : E2EState}
    (hstate : state ≠ .established) (now : UInt64) :
    Sound t ((s.sendInit P state now).1, (s.sendInit P state now).2.map some) := by
  obtain ⟨pl, hsend, _⟩ := s.sendInit_eq P state now
  rw [hsend]
  apply Synced.sound
  simp [Synced, hcrypto, hstate]

theorem acceptInit_sound (hs : s.Unspent) (init : E2EInit) (exponent : Nat) :
    Sound s (s.acceptInit P init exponent) := by
  by_cases hkey : FitsBignum init.key.1
  · obtain ⟨old, ackpl, haccept, _⟩ := s.acceptInit_eq P hkey exponent hs
    rw [haccept]
    apply Synced.sound
    simp [Synced]
  · rw [s.acceptInit_unfit P hkey exponent hs]
    apply sound_bin2bnFailed
    split
    · exact fun _ => rfl
    · exact hs

theorem acceptAck_sound (hcrypto : s.mCrypto.mEstablished = false) (ack : E2EAck) :
    Sound s (s.acceptAck P ack) := by
  by_cases hkey : FitsBignum ack.key.1
  · rw [s.acceptAck_eq P hkey hcrypto]
    apply Synced.sound
    simp [Synced]
  · rw [acceptAck, CryptoSession.establish_unfit P hcrypto hkey]
    exact sound_bin2bnFailed fun _ => hcrypto

theorem handleInit_sound (hs : s.Unspent) (pl : Payload) (stack : Stack) (exponent : Nat) :
    Sound s (s.handleInit P pl stack exponent) := by
  cases hparse : E2EInit.ofPayload pl stack with
  | error fault =>
      cases E2EInit.ofPayload_error hparse
      rw [handleInit, hparse]
      exact hs.thrown
  | ok init =>
      rw [handleInit_eq P s hparse]
      split
      · exact acceptInit_sound hs init exponent
      · exact hs.unchanged

theorem handleAck_sound (hs : s.Unspent) (pl : Payload) (stack : Stack) :
    Sound s (s.handleAck P pl stack) := by
  by_cases hawaits : s.Awaits
  · have hcrypto : s.mCrypto.mEstablished = false := hs hawaits.ne_established
    cases hparse : E2EAck.ofPayload pl stack with
    | error fault =>
        cases E2EAck.ofPayload_error hparse
        rw [handleAck, if_neg (by unfold Awaits at hawaits; tauto), hparse]
        exact hs.thrown
    | ok ack =>
        rw [handleAck_eq P s hparse]
        split
        · exact acceptAck_sound hcrypto ack
        · exact hs.unchanged
  · rw [handleAck, if_pos (by unfold Awaits at hawaits; tauto)]
    exact hs.unchanged

/-- An INIT that is accepted is answered, if its key is a `BIGNUM`. -/
theorem handleInit_takesUp (P : Primitives) (hs : s.Unspent) {init : E2EInit} {pl : Payload}
    (hpl : init.toPayload = .ok pl) (haccepts : s.accepts init = true)
    (hkey : FitsBignum init.key.1) (stack : Stack) (exponent : Nat) :
    ∃ t ack, s.handleInit P pl stack exponent = (t, .ok (some ack)) ∧
      t.sessState = .established ∧
      ∃ key : PublicKey, E2EAck.toPayload ⟨init.seqno, key.toStr⟩ = .ok ack := by
  obtain ⟨old, ack, haccept, hack⟩ := s.acceptInit_eq P hkey exponent hs
  have hhandle := s.handleInit_eq P (E2EInit.ofPayload_toPayload hpl stack) exponent
  rw [if_pos haccepts, haccept] at hhandle
  exact ⟨_, ack, hhandle, rfl, _, hack⟩

/-- The ACK for the number it awaits establishes a session. -/
theorem handleAck_establishes (hs : s.Unspent) (hawaits : s.Awaits) {key : PublicKey}
    {pl : Payload} (hpl : E2EAck.toPayload ⟨s.sequenceNo, key.toStr⟩ = .ok pl) (stack : Stack) :
    (s.handleAck P pl stack).1.sessState = .established := by
  have hcrypto := hs hawaits.ne_established
  rw [handleAck_eq P s (E2EAck.ofPayload_toPayload hpl stack), if_pos ⟨hawaits, rfl⟩,
    s.acceptAck_eq P key.fitsBignum hcrypto]

theorem run_sound (hs : s.Unspent) {call : Call} (hallowed : call.Allowed s) :
    Sound s (s.run P call) := by
  cases call with
  | initiate now =>
      have hstate : s.sessState = .unitialized := hallowed
      exact sendInit_sound (hs (by simp [hstate])) (by decide) now
  | refresh now exponent => exact sendInit_sound rfl (by decide) now
  | handleInit pl stack exponent => exact handleInit_sound hs pl stack exponent
  | handleAck pl stack => exact handleAck_sound hs pl stack

theorem unspent_of_reachable (hreach : Reachable (calls P) s) : s.Unspent := by
  apply hreach.invariant
  · rintro _ ⟨exponent, oldExponent, rfl⟩
    exact unspent_fresh exponent oldExponent
  · rintro s call t hs ⟨hallowed, rfl⟩
    exact (run_sound hs hallowed).unspent

theorem synced_of_reachable (hreach : Reachable ((calls P).restrict (Call.Computes P)) s) :
    s.Synced := by
  apply hreach.invariant
  · rintro _ ⟨exponent, oldExponent, rfl⟩
    exact synced_fresh exponent oldExponent
  · rintro s call t hs ⟨⟨hallowed, rfl⟩, hcomputes⟩
    exact (run_sound hs.unspent hallowed).synced hs hcomputes

theorem encrypt_ne_notEstablished (hs : s.Synced) (nonce : Nonce) (text : Str) :
    s.encrypt P nonce text ≠ .error CryptoSession.notEstablished := by
  have hbuffer : ∀ type buf, Payload.ofBuffer type buf ≠ .error CryptoSession.notEstablished := by
    intro type buf
    unfold Payload.ofBuffer Str.ofBytes
    split
    · rintro ⟨⟩
    · rename_i fault hdata
      split at hdata
      · cases hdata
      · cases hdata
        simp [CryptoSession.notEstablished]
  unfold encrypt
  split
  · rename_i hstate
    have hcrypto : s.mCrypto.encrypt P nonce text = .ok (P.encrypt s.mCrypto.mKey nonce text) := by
      rw [CryptoSession.encrypt, if_pos (hs.mp hstate)]
    rw [hcrypto]
    exact hbuffer _ _
  · exact hbuffer _ _

/-- In every life of a session in which the big-number operations succeed, its state says
whether the key session is established; so no call establishes it a second time, and it has
a key whenever it encrypts. -/
theorem established_iff (hreach : Reachable ((calls P).restrict (Call.Computes P)) s) :
    (s.sessState = .established ↔ s.mCrypto.mEstablished = true) ∧
    (∀ call : Call, call.Allowed s →
      (s.run P call).2 ≠ .error CryptoSession.alreadyEstablished) ∧
    ∀ nonce text, s.encrypt P nonce text ≠ .error CryptoSession.notEstablished := by
  have hs := synced_of_reachable hreach
  refine ⟨hs, ?_, encrypt_ne_notEstablished hs⟩
  intro call hallowed hthrown
  rcases (run_sound hs.unspent hallowed).fault _ hthrown with hfault | hfault
  · cases hfault
  · simp [CryptoSession.alreadyEstablished, Primitives.bin2bnFailed] at hfault

/-- A session that has taken up an INIT. -/
theorem established_iff_sample : ∃ s, Reachable (calls .clear) s ∧
    s.sessState = .established ∧ s.mCrypto.mEstablished = true := by
  obtain ⟨pl, hpl⟩ := init_toPayload_ok 1 0 (Primitives.clear.publicKey 5)
  obtain ⟨t, ack, hhandle, hstate, _⟩ := handleInit_takesUp .clear (unspent_fresh 1 2) hpl
    (by simp [accepts, fresh]) (PublicKey.fitsBignum _) (fun _ => 0) 4
  have hfresh : Reachable ((calls .clear).restrict (Call.Computes .clear)) (fresh 1 2) :=
    Reachable.of_init ⟨1, 2, rfl⟩
  have hcomputes : (Call.handleInit pl (fun _ => 0) 4).Computes .clear (fresh 1 2) := by
    rw [Call.Computes, run, hhandle]
    rintro ⟨⟩
  have hstep : ((calls .clear).restrict (Call.Computes .clear)).step (fresh 1 2)
      (.handleInit pl (fun _ => 0) 4) t := ⟨⟨trivial, congrArg Prod.fst hhandle⟩, hcomputes⟩
  have hreach := hfresh.step hstep
  exact ⟨t, hreach.of_restrict, hstate, (established_iff hreach).1.mp hstate⟩

/-- The INIT under the number, time and key pair the session has. -/
def OwnInit (P : Primitives) (s : E2ESession) (pl : Payload) : Prop :=
  E2EInit.toPayload
    ⟨s.sequenceNo, s.sessTimestamp, (s.mCrypto.getPublicKey P).toStr⟩ = .ok pl

theorem sendInit_own (s : E2ESession) {state : E2EState}
    (hstate : state = .initSent ∨ state = .refreshSent) (now : UInt64) :
    ∃ pl, (s.sendInit P state now).2.map some = .ok (some pl) ∧
      OwnInit P (s.sendInit P state now).1 pl ∧ (s.sendInit P state now).1.Awaits := by
  obtain ⟨pl, hsend, hpl⟩ := s.sendInit_eq P state now
  rw [hsend]
  exact ⟨pl, rfl, hpl, hstate⟩

/-- What goes out with a call is the INIT of the session it leaves. -/
theorem run_own {call : Call} (hstarts : call.Starts) (s : E2ESession) :
    ∃ pl, (s.run P call).2 = .ok (some pl) ∧ OwnInit P (s.run P call).1 pl ∧
      (s.run P call).1.Awaits := by
  cases call with
  | initiate now => exact sendInit_own s (Or.inl rfl) now
  | refresh now exponent => exact sendInit_own (s.rotate exponent) (Or.inr rfl) now
  | handleInit pl stack exponent => exact hstarts.elim
  | handleAck pl stack => exact hstarts.elim

theorem run_refresh (s : E2ESession) (now : UInt64) (exponent : Nat) :
    (s.run P (.refresh now exponent)).1 = s.refreshed now exponent := by
  obtain ⟨pl, hrefresh, _⟩ := s.refresh_eq P now exponent
  rw [run, hrefresh]

/-- A session that still awaits an ACK after an INIT came in is as it was. -/
theorem handleInit_awaits (hs : s.Unspent) (pl : Payload) (stack : Stack) (exponent : Nat)
    (hawaits : (s.handleInit P pl stack exponent).1.Awaits) :
    (s.handleInit P pl stack exponent).1 = s := by
  cases hparse : E2EInit.ofPayload pl stack with
  | error fault => rw [handleInit, hparse]
  | ok init =>
      rw [handleInit_eq P s hparse] at hawaits ⊢
      by_cases haccepts : s.accepts init = true
      · rw [if_pos haccepts] at hawaits ⊢
        by_cases hkey : FitsBignum init.key.1
        · obtain ⟨_, _, haccept, _⟩ := s.acceptInit_eq P hkey exponent hs
          rw [haccept] at hawaits
          exact absurd rfl hawaits.ne_established
        · rw [s.acceptInit_unfit P hkey exponent hs] at hawaits ⊢
          by_cases hstate : s.sessState = .established
          · rw [if_pos hstate] at hawaits
            exact absurd hstate hawaits.ne_established
          · rw [if_neg hstate]
      · rw [if_neg haccepts]

theorem handleAck_awaits (hs : s.Unspent) (pl : Payload) (stack : Stack)
    (hawaits : (s.handleAck P pl stack).1.Awaits) : (s.handleAck P pl stack).1 = s := by
  by_cases hstate : s.sessState ≠ .initSent ∧ s.sessState ≠ .refreshSent
  · rw [handleAck, if_pos hstate]
  · cases hparse : E2EAck.ofPayload pl stack with
    | error fault => rw [handleAck, if_neg hstate, hparse]
    | ok ack =>
        rw [handleAck_eq P s hparse] at hawaits ⊢
        split at hawaits
        · rename_i hmatching
          have hbefore : s.Awaits := hmatching.1
          rw [if_pos hmatching]
          by_cases hkey : FitsBignum ack.key.1
          · rw [s.acceptAck_eq P hkey (hs hbefore.ne_established)] at hawaits
            exact absurd rfl hawaits.ne_established
          · obtain ⟨fault, hthrown⟩ := s.acceptAck_error P (Or.inr hkey)
            rw [hthrown]
        · rename_i hother
          rw [if_neg hother]

/-- What two sessions make of each other's INIT: one answers it with an ACK, and
that ACK establishes both. -/
structure OneAnswers (P : Primitives) (a b : E2ESession × Except Fault (Option Payload))
    (stack : Stack) : Prop where
  one : Xor (∃ ack, a.2 = .ok (some ack)) (∃ ack, b.2 = .ok (some ack))
  first : ∀ ack, a.2 = .ok (some ack) →
    a.1.sessState = .established ∧ (b.1.handleAck P ack stack).1.sessState = .established
  second : ∀ ack, b.2 = .ok (some ack) →
    b.1.sessState = .established ∧ (a.1.handleAck P ack stack).1.sessState = .established

theorem OneAnswers.symm {a b : E2ESession × Except Fault (Option Payload)} {stack : Stack}
    (hone : OneAnswers P a b stack) : OneAnswers P b a stack :=
  ⟨hone.one.symm, hone.second, hone.first⟩

variable {a b : E2ESession} {plA plB : Payload}

theorem oneAnswers_of_lt (ha : a.Unspent) (hb : b.Unspent) (hbAwaits : b.Awaits)
    (hseq : a.sequenceNo = b.sequenceNo) (hplA : OwnInit P a plA) (hplB : OwnInit P b plB)
    (hlt : b.sessTimestamp < a.sessTimestamp) (stackA stackB stack : Stack)
    (exponentA exponentB : Nat) :
    OneAnswers P (a.handleInit P plB stackA exponentA) (b.handleInit P plA stackB exponentB)
      stack := by
  have htakes : a.accepts ⟨b.sequenceNo, b.sessTimestamp, (b.mCrypto.getPublicKey P).toStr⟩ =
      true := by
    simp [accepts, hseq, hlt]
  obtain ⟨t, ack, hanswer, ht, key, hack⟩ :=
    handleInit_takesUp P ha hplB htakes (PublicKey.fitsBignum _) stackA exponentA
  have hrefuses : b.handleInit P plA stackB exponentB = (b, .ok none) := by
    rw [handleInit_eq P b (E2EInit.ofPayload_toPayload hplA stackB), if_neg]
    simp [accepts, hseq, UInt64.le_of_lt hlt]
  rw [hanswer, hrefuses]
  refine ⟨Or.inl ⟨⟨ack, rfl⟩, by rintro ⟨_, ⟨⟩⟩⟩, ?_, by rintro _ ⟨⟩⟩
  rintro _ ⟨⟩
  exact ⟨ht, handleAck_establishes hb hbAwaits hack stack⟩

/-- Two sessions that have sent an INIT under one number, each before the other's
came in, both get established by the one ACK there is, exactly if the times in
the INITs differ. -/
theorem crossed_iff (ha : Reachable (calls P) a) (hb : Reachable (calls P) b)
    (haAwaits : a.Awaits) (hbAwaits : b.Awaits) (hseq : a.sequenceNo = b.sequenceNo)
    (hplA : OwnInit P a plA) (hplB : OwnInit P b plB) (stackA stackB stack : Stack)
    (exponentA exponentB : Nat) :
    OneAnswers P (a.handleInit P plB stackA exponentA) (b.handleInit P plA stackB exponentB)
      stack ↔ a.sessTimestamp ≠ b.sessTimestamp := by
  have haUnspent := unspent_of_reachable ha
  have hbUnspent := unspent_of_reachable hb
  constructor
  · intro hone hequal
    have hrefuses : ∀ {c d : E2ESession} {pl : Payload}, c.sequenceNo = d.sequenceNo →
        c.sessTimestamp = d.sessTimestamp → OwnInit P d pl → ∀ stack exponent ack,
        (c.handleInit P pl stack exponent).2 ≠ .ok (some ack) := by
      intro c d pl hseq hequal hpl stack exponent ack
      rw [handleInit_eq P c (E2EInit.ofPayload_toPayload hpl stack), if_neg]
      · rintro ⟨⟩
      · simp [accepts, hseq, hequal]
    rcases hone.one with ⟨⟨ack, hack⟩, _⟩ | ⟨⟨ack, hack⟩, _⟩
    · exact hrefuses hseq hequal hplB stackA exponentA ack hack
    · exact hrefuses hseq.symm hequal.symm hplA stackB exponentB ack hack
  · intro hdiffer
    rcases UInt64.lt_or_lt_of_ne hdiffer with hlt | hlt
    · exact (oneAnswers_of_lt hbUnspent haUnspent haAwaits hseq.symm hplB hplA hlt
        stackB stackA stack exponentB exponentA).symm
    · exact oneAnswers_of_lt haUnspent hbUnspent hbAwaits hseq hplA hplB hlt
        stackA stackB stack exponentA exponentB

theorem run_initiate (s : E2ESession) (now : UInt64) : ∃ t pl,
    s.run P (.initiate now) = (t, .ok (some pl)) ∧ OwnInit P t pl ∧ t.Awaits ∧
      t.sequenceNo = s.sequenceNo + 1 ∧ t.sessTimestamp = now := by
  obtain ⟨pl, hsend, hpl⟩ := s.sendInit_eq P .initSent now
  refine ⟨{ s with sequenceNo := s.sequenceNo + 1, sessState := .initSent, sessTimestamp := now },
    pl, ?_, hpl, Or.inl rfl, rfl, rfl⟩
  rw [run, initiate, hsend]
  rfl

/-- A session initiated at a given time. -/
theorem exists_initiated (exponent : Nat) (now : UInt64) : ∃ s pl,
    Reachable (calls .clear) s ∧ s.Awaits ∧ s.sequenceNo = 1 ∧ s.sessTimestamp = now ∧
      OwnInit .clear s pl := by
  have hfresh : Reachable (calls .clear) (fresh exponent 2) :=
    Reachable.of_init ⟨exponent, 2, rfl⟩
  obtain ⟨s, pl, hrun, hpl, hawaits, hseq, htime⟩ :=
    run_initiate (P := .clear) (fresh exponent 2) now
  have hallowed : (Call.initiate now).Allowed (fresh exponent 2) := rfl
  exact ⟨s, pl, hfresh.step ⟨hallowed, congrArg Prod.fst hrun⟩, hawaits,
    by simp [hseq, fresh], htime, hpl⟩

theorem crossed_iff_sample : ∃ a b plA plB,
    Reachable (calls .clear) a ∧ Reachable (calls .clear) b ∧
      OwnInit .clear a plA ∧ OwnInit .clear b plB ∧
      OneAnswers .clear (a.handleInit .clear plB (fun _ => 0) 4)
        (b.handleInit .clear plA (fun _ => 0) 6) fun _ => 0 := by
  obtain ⟨a, plA, ha, haAwaits, haSeq, haTime, hplA⟩ := exists_initiated 3 7
  obtain ⟨b, plB, hb, hbAwaits, hbSeq, hbTime, hplB⟩ := exists_initiated 5 9
  refine ⟨a, b, plA, plB, ha, hb, hplA, hplB, ?_⟩
  exact (crossed_iff ha hb haAwaits hbAwaits (haSeq.trans hbSeq.symm) hplA hplB _ _ _ 4 6).mpr
    (by rw [haTime, hbTime]; decide)

/-- Both clocks show the same time: neither INIT is answered. -/
theorem not_crossed_sameTime : ∃ a b plA plB,
    Reachable (calls .clear) a ∧ Reachable (calls .clear) b ∧
      a.Awaits ∧ b.Awaits ∧ a.sequenceNo = b.sequenceNo ∧
      OwnInit .clear a plA ∧ OwnInit .clear b plB ∧
      (a.handleInit .clear plB (fun _ => 0) 4).2 = .ok none ∧
      (b.handleInit .clear plA (fun _ => 0) 6).2 = .ok none ∧
      ¬ OneAnswers .clear (a.handleInit .clear plB (fun _ => 0) 4)
        (b.handleInit .clear plA (fun _ => 0) 6) fun _ => 0 := by
  obtain ⟨a, plA, ha, haAwaits, haSeq, haTime, hplA⟩ := exists_initiated 3 7
  obtain ⟨b, plB, hb, hbAwaits, hbSeq, hbTime, hplB⟩ := exists_initiated 5 7
  have hrefusesA : (a.handleInit .clear plB (fun _ => 0) 4).2 = .ok none := by
    rw [handleInit_eq .clear a (E2EInit.ofPayload_toPayload hplB _), if_neg]
    simp [accepts, haSeq, hbSeq, haTime, hbTime]
  have hrefusesB : (b.handleInit .clear plA (fun _ => 0) 6).2 = .ok none := by
    rw [handleInit_eq .clear b (E2EInit.ofPayload_toPayload hplA _), if_neg]
    simp [accepts, haSeq, hbSeq, haTime, hbTime]
  refine ⟨a, b, plA, plB, ha, hb, haAwaits, hbAwaits, haSeq.trans hbSeq.symm, hplA, hplB,
    hrefusesA, hrefusesB, ?_⟩
  intro hone
  rcases hone.one with ⟨⟨ack, hack⟩, _⟩ | ⟨⟨ack, hack⟩, _⟩
  · rw [hrefusesA] at hack
    cases hack
  · rw [hrefusesB] at hack
    cases hack

end E2ESession

end LeakyChat

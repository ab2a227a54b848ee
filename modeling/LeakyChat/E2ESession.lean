/-
The end-to-end session: key exchange by INIT and ACK payloads, rekeying, and
the encryption of messages under the current and the previous key.
-/
import LeakyChat.E2EPayload
import Mathlib.Tactic.Tauto

namespace LeakyChat

inductive E2EState where
  | unitialized
  | initSent
  | established
  | refreshSent
deriving DecidableEq, Repr

structure E2ESession where
  mCrypto : CryptoSession
  oldCrypto : CryptoSession
  sessTimestamp : UInt64
  sessState : E2EState
  sequenceNo : UInt32
deriving DecidableEq

namespace E2ESession

/-- `E2ESession()`; both crypto sessions draw an exponent. -/
def fresh (exponent oldExponent : Nat) : E2ESession where
  mCrypto := .fresh exponent
  oldCrypto := .fresh oldExponent
  sessTimestamp := 0 - 1
  sessState := .unitialized
  sequenceNo := 0

/-- `oldCrypto = std::move(mCrypto); mCrypto = CryptoSession();` -/
def rotate (s : E2ESession) (exponent : Nat) : E2ESession :=
  { s with oldCrypto := s.mCrypto, mCrypto := .fresh exponent }

/-- `60s` in the nanoseconds of `system_clock::duration` behind the session's time,
with the unsigned sum wrapping. -/
def isStale (s : E2ESession) (now : UInt64) : Bool :=
  if s.sessState = .unitialized then false
  else decide (s.sessTimestamp + 60000000000 < now)

variable (P : Primitives)

/-- The common part of `initiate` and `refresh`: send an INIT under the next
number and the current time. -/
def sendInit (s : E2ESession) (state : E2EState) (now : UInt64) :
    E2ESession × Except Fault Payload :=
  let s := { s with sequenceNo := s.sequenceNo + 1 }
  match E2EInit.toPayload ⟨s.sequenceNo, now, (s.mCrypto.getPublicKey P).toStr⟩ with
  | .error fault => (s, .error fault)
  | .ok pl => ({ s with sessState := state, sessTimestamp := now }, .ok pl)

def initiate (s : E2ESession) (now : UInt64) : E2ESession × Except Fault Payload :=
  s.sendInit P .initSent now

def refresh (s : E2ESession) (now : UInt64) (exponent : Nat) :
    E2ESession × Except Fault Payload :=
  (s.rotate exponent).sendInit P .refreshSent now

/-- The test `handleInit` puts an INIT to. -/
def accepts (s : E2ESession) (init : E2EInit) : Bool :=
  s.sequenceNo < init.seqno ∨
    init.seqno = s.sequenceNo ∧ init.timestamp < s.sessTimestamp

/-- The branch of `handleInit` that answers with an ACK. -/
def acceptInit (s : E2ESession) (init : E2EInit) (exponent : Nat) :
    E2ESession × Except Fault (Option Payload) :=
  let s := if s.sessState = .established then s.rotate exponent else s
  match s.mCrypto.establish P init.key with
  | .error fault => (s, .error fault)
  | .ok crypto =>
      let s := { s with mCrypto := crypto }
      match E2EAck.toPayload ⟨init.seqno, (crypto.getPublicKey P).toStr⟩ with
      | .error fault => (s, .error fault)
      | .ok ackpl =>
          ({ s with
            sessState := .established
            sessTimestamp := init.timestamp
            sequenceNo := init.seqno }, .ok (some ackpl))

def handleInit (s : E2ESession) (pl : Payload) (stack : Stack) (exponent : Nat) :
    E2ESession × Except Fault (Option Payload) :=
  match E2EInit.ofPayload pl stack with
  | .error fault => (s, .error fault)
  | .ok initpl =>
      if s.accepts initpl then s.acceptInit P initpl exponent
      else (s, .ok none)

/-- The branch of `handleAck` that completes an exchange. -/
def acceptAck (s : E2ESession) (ack : E2EAck) :
    E2ESession × Except Fault (Option Payload) :=
  match s.mCrypto.establish P ack.key with
  | .error fault => (s, .error fault)
  | .ok crypto => ({ s with mCrypto := crypto, sessState := .established }, .ok none)

def handleAck (s : E2ESession) (pl : Payload) (stack : Stack) :
    E2ESession × Except Fault (Option Payload) :=
  if s.sessState ≠ .initSent ∧ s.sessState ≠ .refreshSent then (s, .ok none)
  else
    match E2EAck.ofPayload pl stack with
    | .error fault => (s, .error fault)
    | .ok ackpl =>
        if ackpl.seqno ≠ s.sequenceNo then (s, .ok none)
        else s.acceptAck P ackpl

/-- Outside `ESTABLISHED` the text goes out as it is. -/
def encrypt (s : E2ESession) (nonce : Nonce) (text : Str) : Except Fault Payload :=
  if s.sessState = .established then
    match s.mCrypto.encrypt P nonce text with
    | .error fault => .error fault
    | .ok eData => E2EMsg.toPayload ⟨s.sequenceNo, .cipher eData⟩
  else E2EMsg.toPayload ⟨s.sequenceNo, .plain text⟩

/-- `std::get` on the other alternative of the variant. -/
def badVariantAccess : Fault := .runtimeError "std::get: wrong index for variant"

def decrypt (s : E2ESession) (pl : Payload) (stack : Stack) : Except Fault Str :=
  match E2EMsg.ofPayload pl stack with
  | .error fault => .error fault
  | .ok msg =>
      if s.sessState = .established ∧ pl.type = .e2eMsg then
        match msg.data with
        | .plain _ => .error badVariantAccess
        | .cipher edata =>
            if msg.seqno = s.sequenceNo then s.mCrypto.decrypt P edata
            else s.oldCrypto.decrypt P edata
      else if pl.type = .plainText then
        match msg.data with
        | .plain text => .ok text
        | .cipher _ => .error badVariantAccess
      else .ok .empty

theorem strBytes_publicKey_length (key : PublicKey) :
    (strBytes key.toStr).length = 264 := by
  have hkey : key.toStr.1.length = 256 := key.2
  rw [strBytes_length, hkey]

/-- A public key always fits into an INIT. -/
theorem init_toPayload_ok (seqno : UInt32) (timestamp : UInt64) (key : PublicKey) :
    ∃ pl, E2EInit.toPayload ⟨seqno, timestamp, key.toStr⟩ = .ok pl := by
  have hlength : (E2EInit.bytes ⟨seqno, timestamp, key.toStr⟩).length ≤ maxSize := by
    simp only [E2EInit.bytes, List.length_append, strBytes_publicKey_length, u32Bytes,
      u64Bytes, Wire.leBytes_length]
    decide
  exact ⟨⟨.e2eInit, ⟨_, hlength⟩⟩, E2EInit.toPayload_eq_ok.mpr ⟨rfl, rfl⟩⟩

theorem ack_toPayload_ok (seqno : UInt32) (key : PublicKey) :
    ∃ pl, E2EAck.toPayload ⟨seqno, key.toStr⟩ = .ok pl := by
  have hlength : (E2EAck.bytes ⟨seqno, key.toStr⟩).length ≤ maxSize := by
    simp only [E2EAck.bytes, List.length_append, strBytes_publicKey_length, u32Bytes,
      Wire.leBytes_length]
    decide
  exact ⟨⟨.e2eAck, ⟨_, hlength⟩⟩, E2EAck.toPayload_eq_ok.mpr ⟨rfl, rfl⟩⟩

/-- `sendInit` returns an INIT with the number, time and public key the session
has from then on. -/
theorem sendInit_eq (s : E2ESession) (state : E2EState) (now : UInt64) :
    ∃ pl, s.sendInit P state now =
        ({ s with
          sequenceNo := s.sequenceNo + 1
          sessState := state
          sessTimestamp := now }, .ok pl) ∧
      E2EInit.toPayload
        ⟨s.sequenceNo + 1, now, (s.mCrypto.getPublicKey P).toStr⟩ = .ok pl := by
  obtain ⟨pl, hpl⟩ :=
    init_toPayload_ok (s.sequenceNo + 1) now (s.mCrypto.getPublicKey P)
  exact ⟨pl, by simp [sendInit, hpl], hpl⟩

theorem sendInit_type {s t : E2ESession} {state : E2EState} {now : UInt64} {pl : Payload}
    (hrun : s.sendInit P state now = (t, .ok pl)) : pl.type = .e2eInit := by
  obtain ⟨pl', hsend, hpl⟩ := s.sendInit_eq P state now
  rw [hsend, Prod.mk.injEq, Except.ok.injEq] at hrun
  rw [← hrun.2]
  exact (E2EInit.toPayload_eq_ok.mp hpl).1

/-- The session a refresh leaves waiting for its ACK. -/
def refreshed (s : E2ESession) (now : UInt64) (exponent : Nat) : E2ESession :=
  { s.rotate exponent with
    sequenceNo := s.sequenceNo + 1
    sessState := .refreshSent
    sessTimestamp := now }

theorem refresh_eq (s : E2ESession) (now : UInt64) (exponent : Nat) :
    ∃ pl, s.refresh P now exponent = (s.refreshed now exponent, .ok pl) ∧
      pl.type = .e2eInit := by
  obtain ⟨pl, hsend, hpl⟩ := (s.rotate exponent).sendInit_eq P .refreshSent now
  exact ⟨pl, hsend, (E2EInit.toPayload_eq_ok.mp hpl).1⟩

/-- Taking up an INIT, with the crypto session it establishes. -/
theorem acceptInit_eq (s : E2ESession) {init : E2EInit} (hkey : FitsBignum init.key.1)
    (exponent : Nat) (hcrypto : s.sessState ≠ .established → s.mCrypto.mEstablished = false) :
    let secret := if s.sessState = .established then exponent else s.mCrypto.mDH
    ∃ old ackpl, s.acceptInit P init exponent =
        ({ mCrypto :=
            ⟨secret, P.deriveKey (P.sharedSecret secret init.key), true⟩
           oldCrypto := old
           sessTimestamp := init.timestamp
           sessState := .established
           sequenceNo := init.seqno }, .ok (some ackpl)) ∧
      E2EAck.toPayload ⟨init.seqno, (P.publicKey secret).toStr⟩ = .ok ackpl := by
  intro secret
  obtain ⟨ackpl, hackpl⟩ := ack_toPayload_ok init.seqno (P.publicKey secret)
  by_cases hstate : s.sessState = .established
  · have hsecret : secret = exponent := if_pos hstate
    rw [hsecret] at hackpl ⊢
    refine ⟨s.mCrypto, ackpl, ?_, hackpl⟩
    have hfresh : (CryptoSession.fresh exponent).mEstablished = false := rfl
    simp only [acceptInit, hstate, ↓reduceIte, rotate,
      CryptoSession.establish_of_not P hfresh hkey]
    simp only [CryptoSession.fresh, CryptoSession.getPublicKey, hackpl]
  · have hsecret : secret = s.mCrypto.mDH := if_neg hstate
    rw [hsecret] at hackpl ⊢
    refine ⟨s.oldCrypto, ackpl, ?_, hackpl⟩
    simp only [acceptInit, hstate, ↓reduceIte,
      CryptoSession.establish_of_not P (hcrypto hstate) hkey, CryptoSession.getPublicKey, hackpl]

/-- An INIT whose key is no `BIGNUM` throws, and leaves a new key pair where the session was
established. -/
theorem acceptInit_unfit (s : E2ESession) {init : E2EInit} (hkey : ¬ FitsBignum init.key.1)
    (exponent : Nat) (hcrypto : s.sessState ≠ .established → s.mCrypto.mEstablished = false) :
    s.acceptInit P init exponent =
      (if s.sessState = .established then s.rotate exponent else s,
        .error Primitives.bin2bnFailed) := by
  by_cases hstate : s.sessState = .established
  · have hfresh : (CryptoSession.fresh exponent).mEstablished = false := rfl
    simp only [acceptInit, hstate, ↓reduceIte, rotate,
      CryptoSession.establish_unfit P hfresh hkey]
  · simp only [acceptInit, hstate, ↓reduceIte,
      CryptoSession.establish_unfit P (hcrypto hstate) hkey]

/-- A key session cannot be established twice. -/
theorem acceptInit_established {s : E2ESession} (hstate : s.sessState ≠ .established)
    (hcrypto : s.mCrypto.mEstablished = true) (init : E2EInit) (exponent : Nat) :
    s.acceptInit P init exponent = (s, .error CryptoSession.alreadyEstablished) := by
  simp only [acceptInit, hstate, ↓reduceIte, CryptoSession.establish_established P hcrypto]

theorem acceptAck_eq (s : E2ESession) {ack : E2EAck} (hkey : FitsBignum ack.key.1)
    (hcrypto : s.mCrypto.mEstablished = false) :
    s.acceptAck P ack =
      ({ s with
        mCrypto := ⟨s.mCrypto.mDH,
          P.deriveKey (P.sharedSecret s.mCrypto.mDH ack.key), true⟩
        sessState := .established }, .ok none) := by
  simp [acceptAck, CryptoSession.establish_of_not P hcrypto hkey]

/-- An ACK under whose key nothing can be established changes nothing. -/
theorem acceptAck_error (s : E2ESession) {ack : E2EAck}
    (hcrypto : s.mCrypto.mEstablished = true ∨ ¬ FitsBignum ack.key.1) :
    ∃ fault, s.acceptAck P ack = (s, .error fault) := by
  cases hestablish : s.mCrypto.establish P ack.key with
  | error fault => exact ⟨fault, by simp [acceptAck, hestablish]⟩
  | ok crypto =>
      obtain ⟨hnot, hkey⟩ := CryptoSession.establish_ok P hestablish
      rcases hcrypto with htrue | hunfit
      · rw [hnot] at htrue
        cases htrue
      · exact absurd hkey hunfit

/-- `handleInit` on a payload that parses. -/
theorem handleInit_eq (s : E2ESession) {init : E2EInit} {pl : Payload} {stack : Stack}
    (hparse : E2EInit.ofPayload pl stack = .ok init) (exponent : Nat) :
    s.handleInit P pl stack exponent =
      if s.accepts init then s.acceptInit P init exponent else (s, .ok none) := by
  rw [handleInit, hparse]

/-- `handleAck` on a payload that parses. -/
theorem handleAck_eq (s : E2ESession) {ack : E2EAck} {pl : Payload} {stack : Stack}
    (hparse : E2EAck.ofPayload pl stack = .ok ack) :
    s.handleAck P pl stack =
      if (s.sessState = .initSent ∨ s.sessState = .refreshSent) ∧
        ack.seqno = s.sequenceNo
      then s.acceptAck P ack else (s, .ok none) := by
  rw [handleAck, hparse]
  by_cases hstate : s.sessState ≠ .initSent ∧ s.sessState ≠ .refreshSent
  · rw [if_pos hstate, if_neg (by tauto)]
  · by_cases hseq : ack.seqno = s.sequenceNo
    · simp only [if_neg hstate, hseq, ne_eq, not_true_eq_false, ↓reduceIte]
      rw [if_pos (by tauto)]
    · simp only [if_neg hstate, hseq, ne_eq, not_false_eq_true, ↓reduceIte, and_false]

theorem handleInit_ok {s t : E2ESession} {pl : Payload} {stack : Stack} {exponent : Nat}
    {reply : Option Payload}
    (hrun : s.handleInit P pl stack exponent = (t, .ok reply)) :
    ∃ init, E2EInit.ofPayload pl stack = .ok init := by
  cases hparse : E2EInit.ofPayload pl stack with
  | ok init => exact ⟨init, rfl⟩
  | error fault => simp [handleInit, hparse] at hrun

theorem acceptInit_ok {s t : E2ESession} {init : E2EInit} {exponent : Nat}
    {reply : Option Payload} (hrun : s.acceptInit P init exponent = (t, .ok reply)) :
    t.sessState = .established ∧ ∃ ackpl, reply = some ackpl ∧ ackpl.type = .e2eAck := by
  unfold acceptInit at hrun
  dsimp only at hrun
  split at hrun
  · cases hrun
  · split at hrun
    · cases hrun
    · rename_i ackpl hack
      rw [Prod.mk.injEq, Except.ok.injEq] at hrun
      obtain ⟨rfl, rfl⟩ := hrun
      exact ⟨rfl, ackpl, rfl, (E2EAck.toPayload_eq_ok.mp hack).1⟩

theorem handleAck_ok {s t : E2ESession} {pl : Payload} {stack : Stack}
    {reply : Option Payload} (hs : s.sessState = .initSent ∨ s.sessState = .refreshSent)
    (hrun : s.handleAck P pl stack = (t, .ok reply)) :
    ∃ ack, E2EAck.ofPayload pl stack = .ok ack := by
  cases hparse : E2EAck.ofPayload pl stack with
  | ok ack => exact ⟨ack, rfl⟩
  | error fault =>
      rw [handleAck, if_neg (by tauto), hparse] at hrun
      cases hrun

theorem acceptAck_ok {s t : E2ESession} {ack : E2EAck} {reply : Option Payload}
    (hrun : s.acceptAck P ack = (t, .ok reply)) : t.sessState = .established := by
  unfold acceptAck at hrun
  split at hrun
  · cases hrun
  · rw [Prod.mk.injEq] at hrun
    rw [← hrun.1]

/-- An established session stays so, whatever payloads come. -/
theorem handleInit_established {s t : E2ESession} {pl : Payload} {stack : Stack}
    {exponent : Nat} {reply : Option Payload} (hs : s.sessState = .established)
    (hrun : s.handleInit P pl stack exponent = (t, .ok reply)) :
    t.sessState = .established := by
  obtain ⟨init, hparse⟩ := handleInit_ok P hrun
  rw [handleInit_eq P s hparse] at hrun
  split at hrun
  · exact (acceptInit_ok P hrun).1
  · rw [Prod.mk.injEq] at hrun
    rw [← hrun.1]
    exact hs

theorem handleAck_established {s t : E2ESession} {pl : Payload} {stack : Stack}
    {reply : Option Payload} (hs : s.sessState = .established)
    (hrun : s.handleAck P pl stack = (t, .ok reply)) : t.sessState = .established := by
  rw [handleAck, if_pos (by simp [hs]), Prod.mk.injEq] at hrun
  rw [← hrun.1]
  exact hs

/-- A reply of `handleInit` is an ACK. -/
theorem handleInit_reply {s t : E2ESession} {pl : Payload} {stack : Stack} {exponent : Nat}
    {ackpl : Payload} (hrun : s.handleInit P pl stack exponent = (t, .ok (some ackpl))) :
    ackpl.type = .e2eAck := by
  obtain ⟨init, hparse⟩ := handleInit_ok P hrun
  rw [handleInit_eq P s hparse] at hrun
  split at hrun
  · obtain ⟨_, _, heq, htype⟩ := acceptInit_ok P hrun
    rw [Option.some.inj heq]
    exact htype
  · cases hrun

theorem encrypt_eq_ok {s : E2ESession} (hs : s.sessState = .established) {nonce : Nonce}
    {text : Str} {pl : Payload} (hpl : s.encrypt P nonce text = .ok pl) :
    ∃ eData, s.mCrypto.encrypt P nonce text = .ok eData ∧
      E2EMsg.toPayload ⟨s.sequenceNo, .cipher eData⟩ = .ok pl := by
  rw [encrypt, if_pos hs] at hpl
  cases henc : s.mCrypto.encrypt P nonce text with
  | error fault =>
      rw [henc] at hpl
      cases hpl
  | ok eData =>
      rw [henc] at hpl
      exact ⟨eData, rfl, hpl⟩

/-- Only an established session encrypts to anything but plain text. -/
theorem encrypt_type {s : E2ESession} {nonce : Nonce} {text : Str} {pl : Payload}
    (hpl : s.encrypt P nonce text = .ok pl) :
    pl.type = .plainText ↔ s.sessState ≠ .established := by
  by_cases hs : s.sessState = .established
  · obtain ⟨eData, _, hdata⟩ := encrypt_eq_ok P hs hpl
    rw [(E2EMsg.toPayload_eq_ok.mp hdata).1]
    simp [hs, E2EData.type, Payload.Kind.plainText, Payload.Kind.e2eMsg]
  · rw [encrypt, if_neg hs] at hpl
    rw [(E2EMsg.toPayload_eq_ok.mp hpl).1]
    simp [hs, E2EData.type]

/-- What is short enough for a payload is encrypted, in every state. -/
theorem encrypt_ok {s : E2ESession}
    (hcrypto : s.sessState = .established → s.mCrypto.mEstablished = true) {nonce : Nonce}
    {text : Str} (htext : text.1.length + 12 ≤ maxSize)
    (hsealed : (P.gcmSeal s.mCrypto.mKey nonce text).1.1.length + 40 ≤ maxSize) :
    ∃ pl, s.encrypt P nonce text = .ok pl := by
  have hfits : ∀ data : E2EData, data.bytes.length + 4 ≤ maxSize →
      ∃ pl, E2EMsg.toPayload ⟨s.sequenceNo, data⟩ = .ok pl := by
    intro data hdata
    have hlength : (u32Bytes s.sequenceNo ++ data.bytes).length ≤ maxSize := by
      rw [List.length_append, u32Bytes, Wire.leBytes_length, Nat.add_comm]
      exact hdata
    exact ⟨⟨data.type, ⟨_, hlength⟩⟩, E2EMsg.toPayload_eq_ok.mpr ⟨rfl, rfl⟩⟩
  by_cases hs : s.sessState = .established
  · rw [encrypt, if_pos hs, CryptoSession.encrypt, if_pos (hcrypto hs)]
    apply hfits
    have htag := (P.encrypt s.mCrypto.mKey nonce text).tag.2
    have hnonce := (P.encrypt s.mCrypto.mKey nonce text).nonce.2
    rw [E2EData.bytes, List.length_append, List.length_append, hnonce, htag, strBytes_length]
    change 12 + (16 + ((P.gcmSeal s.mCrypto.mKey nonce text).1.1.length + 8)) + 4 ≤ maxSize
    omega
  · rw [encrypt, if_neg hs]
    apply hfits
    rw [E2EData.bytes, strBytes_length]
    omega

/-- The number of a text decides between the two keys. -/
theorem decrypt_cipher {t : E2ESession} (ht : t.sessState = .established) {seqno : UInt32}
    {eData : EncryptedData} {pl : Payload}
    (hpl : E2EMsg.toPayload ⟨seqno, .cipher eData⟩ = .ok pl) (stack : Stack) :
    t.decrypt P pl stack = if seqno = t.sequenceNo then t.mCrypto.decrypt P eData
      else t.oldCrypto.decrypt P eData := by
  have htype : pl.type = .e2eMsg := (E2EMsg.toPayload_eq_ok.mp hpl).1
  rw [decrypt, E2EMsg.ofPayload_toPayload hpl stack]
  exact if_pos ⟨ht, htype⟩

/-- A payload one session encrypts, an established session with the same
number and key decrypts. -/
theorem decrypt_encrypt (hopens : P.GcmOpensSealed) {s t : E2ESession}
    (hs : s.sessState = .established) (ht : t.sessState = .established)
    (htCrypto : t.mCrypto.mEstablished = true) (hseq : s.sequenceNo = t.sequenceNo)
    (hkey : s.mCrypto.mKey = t.mCrypto.mKey) {nonce : Nonce} {text : Str}
    {pl : Payload} (hpl : s.encrypt P nonce text = .ok pl) (stack : Stack) :
    t.decrypt P pl stack = .ok text := by
  obtain ⟨eData, henc, hdata⟩ := encrypt_eq_ok P hs hpl
  rw [decrypt_cipher P ht hdata stack, if_pos hseq]
  exact CryptoSession.decrypt_encrypt P hopens htCrypto hkey henc

end E2ESession

end LeakyChat

/-
What one round of the client's receive loop does with a message, and when it
completes: nothing around it catches an exception.
-/
import LeakyChat.ClientE2E
import LeakyChat.DHKeyExchange
import LeakyChat.E2EParsing

namespace LeakyChat

open Program

namespace E2ESession

variable (P : Primitives) (s : E2ESession) {pl : Payload} {stack : Stack}

/-- The session that opens messages under number `seqno`. -/
def cryptoFor (seqno : UInt32) : CryptoSession :=
  if seqno = s.sequenceNo then s.mCrypto else s.oldCrypto

/-- An INIT with a key that fits a vector, and if it is accepted a key that is a
`BIGNUM` and a key pair to establish. -/
def TakesInit (pl : Payload) (stack : Stack) : Prop :=
  ∃ hsize : E2EInit.keyLength pl stack ≤ maxSize,
    s.accepts ⟨pl.u32At stack 20 0, pl.u64At stack 20 4, pl.restAt stack 20 hsize⟩ = true →
      (s.sessState = .established ∨ s.mCrypto.mEstablished = false) ∧
        FitsBignum (pl.restAt stack 20 hsize).1

/-- An ACK that is not waited for, or one with a key that fits a vector, and if the
number is right a key that is a `BIGNUM` and a key pair to establish. -/
def TakesAck (pl : Payload) (stack : Stack) : Prop :=
  s.sessState = .initSent ∨ s.sessState = .refreshSent →
    ∃ hsize : E2EAck.keyLength pl stack ≤ maxSize,
      pl.u32At stack 12 0 = s.sequenceNo →
        s.mCrypto.mEstablished = false ∧ FitsBignum (pl.restAt stack 12 hsize).1

/-- A message with a text that fits a string, which opens if it has to. -/
def TakesMsg (pl : Payload) (stack : Stack) : Prop :=
  E2EMsg.textLength pl stack ≤ maxSize ∧
    (s.sessState = .established → pl.type = .e2eMsg →
      ∀ hsize : (pl.u64At stack 40 32).toNat ≤ maxSize,
        (s.cryptoFor (pl.u32At stack 40 0)).mEstablished = true ∧
        ∃ text, P.gcmOpen (s.cryptoFor (pl.u32At stack 40 0)).mKey
          (pl.sealed stack hsize).nonce (pl.sealed stack hsize).ciphertext
          (pl.sealed stack hsize).tag = some text)

theorem establish_returns_iff (c : CryptoSession) (key : Str) :
    (∃ c', c.establish P key = .ok c') ↔ c.mEstablished = false ∧ FitsBignum key.1 := by
  constructor
  · rintro ⟨c', hestablish⟩
    exact CryptoSession.establish_ok P hestablish
  · rintro ⟨hc, hkey⟩
    exact ⟨_, CryptoSession.establish_of_not P hc hkey⟩

theorem acceptInit_returns_iff (init : E2EInit) (exponent : Nat) :
    (∃ t reply, s.acceptInit P init exponent = (t, .ok reply)) ↔
      (s.sessState = .established ∨ s.mCrypto.mEstablished = false) ∧
        FitsBignum init.key.1 := by
  constructor
  · rintro ⟨t, reply, hrun⟩
    have hcan : s.sessState = .established ∨ s.mCrypto.mEstablished = false := by
      by_contra hnot
      rw [not_or, Bool.not_eq_false] at hnot
      rw [acceptInit_established P hnot.1 hnot.2] at hrun
      cases hrun
    refine ⟨hcan, ?_⟩
    by_contra hkey
    rw [s.acceptInit_unfit P hkey exponent fun hstate => hcan.resolve_left hstate] at hrun
    cases hrun
  · rintro ⟨hcan, hkey⟩
    obtain ⟨old, ackpl, hrun, _⟩ := s.acceptInit_eq P hkey exponent
      fun hstate => hcan.resolve_left hstate
    exact ⟨_, _, hrun⟩

theorem handleInit_returns_iff (htype : pl.type = .e2eInit) (exponent : Nat) :
    (∃ t reply, s.handleInit P pl stack exponent = (t, .ok reply)) ↔
      s.TakesInit pl stack := by
  by_cases hsize : E2EInit.keyLength pl stack ≤ maxSize
  · rw [handleInit_eq P s (E2EInit.ofPayload_ok htype hsize)]
    constructor
    · intro hreturns
      refine ⟨hsize, fun haccepts => ?_⟩
      rw [if_pos haccepts] at hreturns
      have hcan := (s.acceptInit_returns_iff P _ exponent).mp hreturns
      exact hcan
    · rintro ⟨_, hcan⟩
      split
      · rename_i haccepts
        rw [s.acceptInit_returns_iff P _ exponent]
        exact hcan haccepts
      · exact ⟨s, none, rfl⟩
  · apply iff_of_false
    · rintro ⟨t, reply, hrun⟩
      simp [handleInit, E2EInit.ofPayload_long htype hsize] at hrun
    · rintro ⟨hfits, _⟩
      exact hsize hfits

theorem handleAck_returns_iff (htype : pl.type = .e2eAck) :
    (∃ t reply, s.handleAck P pl stack = (t, .ok reply)) ↔ s.TakesAck pl stack := by
  by_cases hstate : s.sessState = .initSent ∨ s.sessState = .refreshSent
  · by_cases hsize : E2EAck.keyLength pl stack ≤ maxSize
    · rw [handleAck_eq P s (E2EAck.ofPayload_ok htype hsize), TakesAck]
      simp only [hstate, hsize, exists_true_left, true_and, forall_const]
      by_cases hseq : pl.u32At stack 12 0 = s.sequenceNo
      · rw [if_pos hseq]
        simp only [hseq, forall_const]
        rw [← establish_returns_iff P s.mCrypto (pl.restAt stack 12 hsize)]
        unfold acceptAck
        cases s.mCrypto.establish P (pl.restAt stack 12 hsize) <;> simp
      · rw [if_neg hseq]
        exact iff_of_true ⟨s, none, rfl⟩ fun hsame => absurd hsame hseq
    · apply iff_of_false
      · rintro ⟨t, reply, hrun⟩
        obtain ⟨ack, hparse⟩ := handleAck_ok P hstate hrun
        rw [E2EAck.ofPayload_long htype hsize] at hparse
        cases hparse
      · exact fun htakes => hsize (htakes hstate).1
  · refine iff_of_true ⟨s, none, ?_⟩ fun hwaiting => absurd hwaiting hstate
    rw [not_or] at hstate
    rw [handleAck, if_pos hstate]

theorem crypto_decrypt_returns_iff (c : CryptoSession) (edata : EncryptedData) :
    (∃ text, c.decrypt P edata = .ok text) ↔ c.mEstablished = true ∧
      ∃ text, P.gcmOpen c.mKey edata.nonce edata.ciphertext edata.tag = some text := by
  unfold CryptoSession.decrypt Primitives.decrypt
  by_cases hc : c.mEstablished = true
  · rw [if_pos hc]
    simp only [hc, true_and]
    cases P.gcmOpen c.mKey edata.nonce edata.ciphertext edata.tag <;> simp
  · rw [if_neg hc]
    simp [hc]

theorem decrypt_returns_iff :
    (∃ text, s.decrypt P pl stack = .ok text) ↔ s.TakesMsg P pl stack := by
  by_cases hsize : E2EMsg.textLength pl stack ≤ maxSize
  · by_cases htype : pl.type = .plainText
    · have hfits := hsize
      rw [E2EMsg.textLength, if_pos htype] at hfits
      have hother : pl.type ≠ .e2eMsg := by
        rw [htype]
        decide
      apply iff_of_true
      · simp only [decrypt, E2EMsg.ofPayload_plain htype hfits]
        rw [if_neg fun hboth => hother hboth.2, if_pos htype]
        exact ⟨_, rfl⟩
      · exact ⟨hsize, fun _ hmsg => absurd hmsg hother⟩
    · have hfits := hsize
      rw [E2EMsg.textLength, if_neg htype] at hfits
      simp only [decrypt, E2EMsg.ofPayload_cipher htype hfits]
      by_cases hboth : s.sessState = .established ∧ pl.type = .e2eMsg
      · rw [if_pos hboth]
        have hchoice : (if pl.u32At stack 40 0 = s.sequenceNo
            then s.mCrypto.decrypt P (pl.sealed stack hfits)
            else s.oldCrypto.decrypt P (pl.sealed stack hfits)) =
            (s.cryptoFor (pl.u32At stack 40 0)).decrypt P (pl.sealed stack hfits) := by
          unfold cryptoFor
          split <;> rfl
        rw [hchoice, crypto_decrypt_returns_iff]
        constructor
        · exact fun hopens => ⟨hsize, fun _ _ _ => hopens⟩
        · exact fun htakes => htakes.2 hboth.1 hboth.2 hfits
      · rw [if_neg hboth, if_neg htype]
        exact iff_of_true ⟨_, rfl⟩ ⟨hsize, fun hstate hmsg => absurd ⟨hstate, hmsg⟩ hboth⟩
  · apply iff_of_false
    · rintro ⟨text, hrun⟩
      simp [decrypt, E2EMsg.ofPayload_long hsize] at hrun
    · exact fun htakes => hsize htakes.1

end E2ESession

namespace Client

variable (P : Primitives)

/-- What the loop does with a message it has polled. -/
def receiveMessage (env : Env) (msgPkt : MessagePacket) : ClientM Unit := do
  if msgPkt.mPayload.isE2EControl then handleE2EPacket P env msgPkt
  else
    let _ ← decryptMessage P env msgPkt

theorem receiveLoop_message {env : Env} {c d : Client} {msgPkt : MessagePacket}
    (hpoll : poll c = .ok (some (.message msgPkt), d)) :
    receiveLoop P env c = receiveMessage P env msgPkt d :=
  run_bind hpoll

/-- What the session with the sender has to be able to take. -/
def Takes (env : Env) (s : E2ESession) (pl : Payload) : Prop :=
  if pl.type = .e2eInit then s.TakesInit pl env.initStack
  else if pl.type = .e2eAck then s.TakesAck pl env.ackStack
  else s.TakesMsg P pl env.msgStack

theorem onSession_returns_iff {α : Type} (env : Env) (peer : Str)
    (call : E2ESession → E2ESession × Except Fault α) (c : Client) :
    (∃ a d, onSession env peer call c = .ok (a, d)) ↔
      ∃ t a, call (c.session env peer) = (t, .ok a) := by
  constructor
  · rintro ⟨a, d, hrun⟩
    obtain ⟨t, hcall, _⟩ := onSession_ok hrun
    exact ⟨t, a, hcall⟩
  · rintro ⟨t, a, hcall⟩
    exact ⟨a, _, onSession_run hcall⟩

theorem handleE2EInit_returns_iff (env : Env) (msg : MessagePacket) (c : Client) :
    (∃ b d, handleE2EInit P env msg c = .ok (b, d)) ↔
      ∃ t reply, (c.session env msg.mSender).handleInit P msg.mPayload env.initStack
        env.initExponent = (t, .ok reply) := by
  refine Iff.trans ?_ (onSession_returns_iff env msg.mSender (fun session =>
    session.handleInit P msg.mPayload env.initStack env.initExponent) c)
  constructor
  · rintro ⟨b, d, hrun⟩
    obtain ⟨reply, c₁, hcall, _⟩ := of_run_bind hrun
    exact ⟨reply, c₁, hcall⟩
  · rintro ⟨reply, c₁, hcall⟩
    rw [handleE2EInit, run_bind hcall]
    cases reply with
    | none => exact ⟨_, _, rfl⟩
    | some ackpl => exact ⟨_, _, rfl⟩

theorem handleE2EAck_returns_iff (env : Env) (msg : MessagePacket) (c : Client) :
    (∃ d, handleE2EAck P env msg c = .ok ((), d)) ↔
      ∃ t reply, (c.session env msg.mSender).handleAck P msg.mPayload env.ackStack =
        (t, .ok reply) := by
  refine Iff.trans ?_ (onSession_returns_iff env msg.mSender (fun session =>
    session.handleAck P msg.mPayload env.ackStack) c)
  constructor
  · rintro ⟨d, hrun⟩
    obtain ⟨reply, c₁, hcall, _⟩ := of_run_bind hrun
    exact ⟨reply, c₁, hcall⟩
  · rintro ⟨reply, c₁, hcall⟩
    rw [handleE2EAck, run_bind hcall]
    exact ⟨_, rfl⟩

theorem attempt_returns_iff {α : Type} (result : Except Fault α) (c : Client) :
    (∃ a d, attempt result c = .ok (a, d)) ↔ ∃ a, result = .ok a := by
  constructor
  · rintro ⟨a, d, hrun⟩
    exact ⟨a, (attempt_ok hrun).1⟩
  · rintro ⟨a, rfl⟩
    exact ⟨a, c, rfl⟩

theorem decryptMessage_returns_iff (env : Env) (msg : MessagePacket) (c : Client) :
    (∃ text d, decryptMessage P env msg c = .ok (text, d)) ↔
      ∃ text, (c.session env msg.mSender).decrypt P msg.mPayload env.msgStack = .ok text := by
  rw [decryptMessage, run_bind (getSession_run env msg.mSender c)]
  exact attempt_returns_iff _ _

/-- Whether a call whose result is dropped completes. -/
theorem returns_discarding_iff {α : Type} (m : ClientM α) (c : Client) :
    (∃ d, (m >>= fun _ => pure ()) c = .ok ((), d)) ↔ ∃ a d, m c = .ok (a, d) := by
  constructor
  · rintro ⟨d, hrun⟩
    obtain ⟨a, c₁, hcall, _⟩ := of_run_bind hrun
    exact ⟨a, c₁, hcall⟩
  · rintro ⟨a, d, hcall⟩
    exact ⟨d, run_bind hcall⟩

/-- In every state, for every message, the body of the receive loop completes
exactly if the session with the sender can take the payload. -/
theorem receiveMessage_completes_iff (env : Env) (msg : MessagePacket) (c : Client) :
    (∃ d, receiveMessage P env msg c = .ok ((), d)) ↔
      Takes P env (c.session env msg.mSender) msg.mPayload := by
  unfold Takes receiveMessage handleE2EPacket
  by_cases hinit : msg.mPayload.type = .e2eInit
  · have hcontrol : msg.mPayload.isE2EControl = true := by
      simp [Payload.isE2EControl, hinit]
    rw [if_pos hinit, if_pos hinit, if_pos hcontrol,
      ← E2ESession.handleInit_returns_iff P _ hinit env.initExponent,
      ← handleE2EInit_returns_iff]
    exact returns_discarding_iff _ _
  · rw [if_neg hinit, if_neg hinit]
    by_cases hack : msg.mPayload.type = .e2eAck
    · have hcontrol : msg.mPayload.isE2EControl = true := by
        simp [Payload.isE2EControl, hack]
      rw [if_pos hack, if_pos hack, if_pos hcontrol,
        ← E2ESession.handleAck_returns_iff P _ hack, ← handleE2EAck_returns_iff]
    · have hcontrol : ¬ msg.mPayload.isE2EControl = true := by
        simp [Payload.isE2EControl, hinit, hack]
      rw [if_neg hack, if_neg hack, if_neg hcontrol, ← E2ESession.decrypt_returns_iff P,
        ← decryptMessage_returns_iff]
      exact returns_discarding_iff _ _

/-- An established session that has no previous key throws at a message under
any number but its own. -/
theorem receiveMessage_late {env : Env} {msg : MessagePacket} {c : Client} {s : E2ESession}
    {seqno : UInt32} {edata : EncryptedData}
    (hs : c.mE2ESessions msg.mSender = some s) (hstate : s.sessState = .established)
    (hold : s.oldCrypto.mEstablished = false)
    (hpl : E2EMsg.toPayload ⟨seqno, .cipher edata⟩ = .ok msg.mPayload)
    (hseqno : seqno ≠ s.sequenceNo) :
    receiveMessage P env msg c = .error (.threw CryptoSession.notEstablished) := by
  have htype : msg.mPayload.type = .e2eMsg := (E2EMsg.toPayload_eq_ok.mp hpl).1
  have hdecrypt : s.decrypt P msg.mPayload env.msgStack =
      .error CryptoSession.notEstablished := by
    simp only [E2ESession.decrypt, E2EMsg.ofPayload_toPayload hpl env.msgStack]
    rw [if_pos ⟨hstate, htype⟩, if_neg hseqno, CryptoSession.decrypt,
      if_neg (by rw [hold]; exact Bool.false_ne_true)]
  have hmessage : decryptMessage P env msg c =
      .error (.threw CryptoSession.notEstablished) := by
    rw [decryptMessage, run_bind (getSession_run env msg.mSender c), session_of_some hs,
      hdecrypt]
    rfl
  rw [receiveMessage, if_neg (by simp [Payload.isE2EControl, htype, Payload.Kind.e2eMsg,
    Payload.Kind.e2eInit, Payload.Kind.e2eAck])]
  exact run_bind_error hmessage

def lateEnv : Env where
  polls := 0
  sendResult := 0
  now := 0
  timestamp := 0
  exponent := 0
  initExponent := 0
  freshExponent := 0
  oldExponent := 0
  nonce := Block.zero 12
  initStack := fun _ => 0
  ackStack := fun _ => 0
  msgStack := fun _ => 0

def carol : Str := ⟨[99, 97, 114, 111, 108], by decide⟩

/-- The session with `carol` was established under number 1, its first key. -/
def sinceOne : Client :=
  fresh.setSession carol ⟨⟨0, Block.zero 32, true⟩, .fresh 0, 0, .established, 1⟩

def underZero : E2EMsg := ⟨0, .cipher ⟨Block.zero 12, ⟨[110, 111], by decide⟩, Block.zero 16⟩⟩

def fromCarol : MessagePacket :=
  ⟨0, carol, .empty, .e2eMsg, ⟨u32Bytes underZero.seqno ++ underZero.data.bytes, by decide⟩⟩

/-- A message of `carol` under number 0 ends the loop. -/
theorem receiveMessage_underZero :
    receiveMessage .clear lateEnv fromCarol sinceOne =
      .error (.threw CryptoSession.notEstablished) := by
  have hpl : E2EMsg.toPayload underZero = .ok fromCarol.mPayload :=
    E2EMsg.toPayload_eq_ok.mpr ⟨rfl, rfl⟩
  have hs : sinceOne.mE2ESessions fromCarol.mSender =
      some ⟨⟨0, Block.zero 32, true⟩, .fresh 0, 0, .established, 1⟩ :=
    setSession_self fresh carol _
  exact receiveMessage_late .clear hs rfl rfl hpl (by decide)

end Client

end LeakyChat

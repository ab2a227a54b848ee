/-
What an established session still decrypts of its peer's after a rekeying: the
texts under the session it was established in before.  `refresh` keeps the key
pair it replaces, established or not, so a second refresh in front of the
answer to the first loses the last key.
-/
import LeakyChat.E2EAgreement
import LeakyChat.SessionStates

namespace LeakyChat

open Transition
open Rekey (Side)
open E2ESession (Call)

namespace E2ESession

/-- Payloads that come from the peer are among those it has sent. -/
def Call.From (pls : List Payload) : Call → Prop
  | .handleInit pl _ _ => pl ∈ pls
  | .handleAck pl _ => pl ∈ pls
  | _ => True

/-- No call loses the key of the last established session: no number wraps, nothing is
refreshed in `REFRESH_SENT` over an established `oldCrypto`, and a payload that a
handler for another type gets is not taken up for what memory holds. -/
def Call.Preserves (s : E2ESession) : Call → Prop
  | .initiate _ => s.sequenceNo.toNat + 1 < 2 ^ 32
  | .refresh _ _ => s.sequenceNo.toNat + 1 < 2 ^ 32 ∧
      ¬ (s.sessState = .refreshSent ∧ s.oldCrypto.mEstablished = true)
  | .handleInit pl stack _ => pl.type = .e2eInit ∨
      ∀ init, E2EInit.ofPayload pl stack = .ok init → s.accepts init = false
  | .handleAck pl stack => pl.type = .e2eAck ∨
      ∀ ack, E2EAck.ofPayload pl stack = .ok ack → ¬ (s.Awaits ∧ ack.seqno = s.sequenceNo)

/-- The numbers and keys a session has been established under, the latest first,
after a call that left `t`. -/
def recorded (s t : E2ESession) (history : List (UInt32 × Key)) : List (UInt32 × Key) :=
  if t.sessState = .established ∧ t ≠ s then (t.sequenceNo, t.mCrypto.mKey) :: history
  else history

/-- What of its history a session is no longer in. -/
def past (s : E2ESession) (history : List (UInt32 × Key)) : List (UInt32 × Key) :=
  if s.sessState = .established then history.tail else history

/-- `oldCrypto` has the key the session was last established under. -/
def HoldsLast (s : E2ESession) (history : List (UInt32 × Key)) : Prop :=
  ∀ last ∈ history.head?, last.1 < s.sequenceNo ∧
    s.oldCrypto.mEstablished = true ∧ s.oldCrypto.mKey = last.2

structure Remembers (s : E2ESession) (history : List (UInt32 × Key)) : Prop where
  synced : s.Synced
  unused : s.sessState = .unitialized ∨ s.sessState = .initSent → history = []
  present : s.sessState = .established →
    history.head? = some (s.sequenceNo, s.mCrypto.mKey)
  previous : s.HoldsLast (s.past history)

variable {P : Primitives} {s t : E2ESession} {history : List (UInt32 × Key)}

theorem holdsLast_nil (s : E2ESession) : s.HoldsLast [] := by
  rintro _ ⟨⟩

theorem remembers_fresh (exponent oldExponent : Nat) :
    (fresh exponent oldExponent).Remembers [] where
  synced := synced_fresh exponent oldExponent
  unused := fun _ => rfl
  present := by rintro ⟨⟩
  previous := holdsLast_nil _

theorem recorded_self (s : E2ESession) (history : List (UInt32 × Key)) :
    s.recorded s history = history :=
  if_neg fun hboth => hboth.2 rfl

/-- A call that changes the session has to keep the last key of all it was established
under so far. -/
theorem remembers_of_change (ht : t.Synced) (hchange : t.sessState = .established → t ≠ s)
    (hunused : t.sessState = .unitialized ∨ t.sessState = .initSent → history = [])
    (hlast : t.HoldsLast history) : t.Remembers (s.recorded t history) := by
  by_cases hstate : t.sessState = .established
  · rw [recorded, if_pos ⟨hstate, hchange hstate⟩]
    refine ⟨ht, by simp [hstate], fun _ => rfl, ?_⟩
    rw [past, if_pos hstate]
    exact hlast
  · rw [recorded, if_neg fun hboth => hstate hboth.1]
    refine ⟨ht, hunused, fun hcase => absurd hcase hstate, ?_⟩
    rw [past, if_neg hstate]
    exact hlast

theorem Remembers.unchanged (hs : s.Remembers history) :
    s.Remembers (s.recorded s history) := by
  rw [recorded_self]
  exact hs

theorem lt_succ_of_bound {n : UInt32} (hbound : n.toNat + 1 < 2 ^ 32) : n < n + 1 := by
  rw [UInt32.lt_iff_toNat_lt, UInt32.toNat_add]
  change n.toNat < (n.toNat + 1) % 2 ^ 32
  rw [Nat.mod_eq_of_lt hbound]
  exact Nat.lt_succ_self _

theorem Remembers.initiate (hs : s.Remembers history) (hstate : s.sessState = .unitialized)
    (now : UInt64) :
    (s.initiate P now).1.Remembers (s.recorded (s.initiate P now).1 history) := by
  have hcrypto := hs.synced.unspent (by simp [hstate])
  obtain ⟨pl, hsend, _⟩ := s.sendInit_eq P .initSent now
  rw [E2ESession.initiate, hsend]
  apply remembers_of_change
  · simp [Synced, hcrypto]
  · rintro ⟨⟩
  · exact fun _ => hs.unused (Or.inl hstate)
  · rw [hs.unused (Or.inl hstate)]
    exact holdsLast_nil _

/-- A refresh moves the present key to `oldCrypto`; without one, the key that is there
may not be lost. -/
theorem Remembers.refresh (hs : s.Remembers history)
    (hbound : s.sequenceNo.toNat + 1 < 2 ^ 32)
    (hkept : ¬ (s.sessState = .refreshSent ∧ s.oldCrypto.mEstablished = true))
    (now : UInt64) (exponent : Nat) :
    (s.refresh P now exponent).1.Remembers (s.recorded (s.refresh P now exponent).1 history) := by
  obtain ⟨pl, hrefresh, _⟩ := s.refresh_eq P now exponent
  rw [hrefresh]
  apply remembers_of_change
  · simp [Synced, refreshed, rotate, CryptoSession.fresh]
  · rintro ⟨⟩
  · rintro (⟨⟨⟩⟩ | ⟨⟨⟩⟩)
  · by_cases hstate : s.sessState = .established
    · intro last hlast
      rw [hs.present hstate, Option.mem_some] at hlast
      rw [← hlast]
      exact ⟨lt_succ_of_bound hbound, hs.synced.mp hstate, rfl⟩
    · have hnone : history = [] := by
        cases hcase : s.sessState with
        | unitialized => exact hs.unused (Or.inl hcase)
        | initSent => exact hs.unused (Or.inr hcase)
        | established => exact absurd hcase hstate
        | refreshSent =>
            have hprevious := hs.previous
            rw [past, if_neg hstate] at hprevious
            cases hhistory : history with
            | nil => rfl
            | cons last rest =>
                rw [hhistory] at hprevious
                exact absurd ⟨hcase, (hprevious last rfl).2.1⟩ hkept
      rw [hnone]
      exact holdsLast_nil _

theorem acceptInit_oldCrypto (s : E2ESession) (init : E2EInit) (exponent : Nat) :
    (s.acceptInit P init exponent).1.oldCrypto =
      if s.sessState = .established then s.mCrypto else s.oldCrypto := by
  by_cases hstate : s.sessState = .established
  · simp only [acceptInit, if_pos hstate]
    split
    · rfl
    · split <;> rfl
  · simp only [acceptInit, if_neg hstate]
    split
    · rfl
    · split <;> rfl

theorem seq_le_of_accepts {init : E2EInit} (haccepts : s.accepts init = true) :
    s.sequenceNo ≤ init.seqno := by
  rcases of_decide_eq_true haccepts with hlt | ⟨heq, _⟩
  · exact UInt32.le_of_lt hlt
  · exact UInt32.le_of_eq heq.symm

/-- An INIT that is taken up, in an established session under a greater number. -/
theorem Remembers.acceptInit (hs : s.Remembers history) {init : E2EInit}
    (haccepts : s.accepts init = true) (hkey : FitsBignum init.key.1)
    (hnewer : s.sessState = .established → s.sequenceNo < init.seqno) (exponent : Nat) :
    (s.acceptInit P init exponent).1.Remembers
      (s.recorded (s.acceptInit P init exponent).1 history) := by
  have hfrom := acceptInit_oldCrypto (P := P) s init exponent
  obtain ⟨old, ackpl, haccept, _⟩ := s.acceptInit_eq P hkey exponent hs.synced.unspent
  rw [haccept] at hfrom ⊢
  have hold : old = if s.sessState = .established then s.mCrypto else s.oldCrypto := hfrom
  by_cases hstate : s.sessState = .established
  · rw [if_pos hstate] at hold
    apply remembers_of_change (by simp [Synced])
    · rintro _ heq
      have hlt := hnewer hstate
      rw [← heq] at hlt
      exact UInt32.lt_irrefl _ hlt
    · rintro (⟨⟨⟩⟩ | ⟨⟨⟩⟩)
    · intro last hlast
      rw [hs.present hstate, Option.mem_some] at hlast
      rw [← hlast, hold]
      exact ⟨hnewer hstate, hs.synced.mp hstate, rfl⟩
  · have hprevious := hs.previous
    rw [past, if_neg hstate] at hprevious
    rw [if_neg hstate] at hold
    apply remembers_of_change (by simp [Synced])
    · rintro _ heq
      rw [← heq] at hstate
      exact hstate rfl
    · rintro (⟨⟨⟩⟩ | ⟨⟨⟩⟩)
    · intro last hlast
      rw [hold]
      obtain ⟨hlt, hlastOld⟩ := hprevious last hlast
      exact ⟨UInt32.lt_of_lt_of_le hlt (seq_le_of_accepts haccepts), hlastOld⟩

theorem Remembers.handleInit (hs : s.Remembers history) {pl : Payload} {stack : Stack}
    (hinit : ∀ init, E2EInit.ofPayload pl stack = .ok init → s.accepts init = true →
      FitsBignum init.key.1 ∧ (s.sessState = .established → s.sequenceNo < init.seqno))
    (exponent : Nat) :
    (s.handleInit P pl stack exponent).1.Remembers
      (s.recorded (s.handleInit P pl stack exponent).1 history) := by
  cases hparse : E2EInit.ofPayload pl stack with
  | error fault =>
      rw [E2ESession.handleInit, hparse]
      exact hs.unchanged
  | ok init =>
      rw [handleInit_eq P s hparse]
      by_cases haccepts : s.accepts init = true
      · rw [if_pos haccepts]
        obtain ⟨hkey, hnewer⟩ := hinit init hparse haccepts
        exact hs.acceptInit haccepts hkey hnewer exponent
      · rw [if_neg haccepts]
        exact hs.unchanged

theorem Remembers.handleAck (hs : s.Remembers history) {pl : Payload} {stack : Stack}
    (hack : ∀ ack, E2EAck.ofPayload pl stack = .ok ack →
      s.Awaits ∧ ack.seqno = s.sequenceNo → FitsBignum ack.key.1) :
    (s.handleAck P pl stack).1.Remembers
      (s.recorded (s.handleAck P pl stack).1 history) := by
  by_cases hwaits : s.sessState ≠ .initSent ∧ s.sessState ≠ .refreshSent
  · rw [E2ESession.handleAck, if_pos hwaits]
    exact hs.unchanged
  · cases hparse : E2EAck.ofPayload pl stack with
    | error fault =>
        rw [E2ESession.handleAck, if_neg hwaits, hparse]
        exact hs.unchanged
    | ok ack =>
        rw [handleAck_eq P s hparse]
        split
        · rename_i hmatching
          have hawaits : s.Awaits := hmatching.1
          have hstate := hawaits.ne_established
          have hprevious := hs.previous
          rw [past, if_neg hstate] at hprevious
          have hcrypto := hs.synced.unspent hstate
          rw [s.acceptAck_eq P (hack ack hparse hmatching) hcrypto]
          apply remembers_of_change (by simp [Synced])
          · rintro _ heq
            rw [← heq] at hstate
            exact hstate rfl
          · rintro (⟨⟨⟩⟩ | ⟨⟨⟩⟩)
          · exact hprevious
        · exact hs.unchanged

/-- What an INIT under a greater number does to its receiver, and the ACK to its sender. -/
theorem exchange_eq (hcomm : P.DHCommutes) (hs : s.Synced) (ht : t.Synced) (hawaits : t.Awaits)
    {pl : Payload} (hown : OwnInit P t pl) (hnewer : s.sequenceNo < t.sequenceNo)
    (stack : Stack) (exponent : Nat) :
    ∃ s' ackpl, s.handleInit P pl stack exponent = (s', .ok (some ackpl)) ∧
      ackpl.type = .e2eAck ∧ s'.sessState = .established ∧ s'.Synced ∧
      s'.sequenceNo = t.sequenceNo ∧
      ∃ t', (∀ stack, t.handleAck P ackpl stack = (t', .ok none)) ∧
        t'.sessState = .established ∧ t'.Synced ∧ t'.sequenceNo = t.sequenceNo ∧
        t'.oldCrypto = t.oldCrypto ∧ s'.mCrypto.mKey = t'.mCrypto.mKey := by
  have haccepts : s.accepts ⟨t.sequenceNo, t.sessTimestamp, (t.mCrypto.getPublicKey P).toStr⟩ =
      true := by
    simp [accepts, hnewer]
  have hfits : FitsBignum (E2EInit.mk t.sequenceNo t.sessTimestamp
      (t.mCrypto.getPublicKey P).toStr).key.1 := PublicKey.fitsBignum _
  obtain ⟨old, ackpl, haccept, hackpl⟩ := s.acceptInit_eq P hfits exponent hs.unspent
  have hcrypto := ht.unspent hawaits.ne_established
  have hconfirm := fun stack =>
    (handleAck_eq P t (E2EAck.ofPayload_toPayload hackpl stack)).trans
      ((if_pos ⟨hawaits, rfl⟩).trans (t.acceptAck_eq P (PublicKey.fitsBignum _) hcrypto))
  have hanswer := (handleInit_eq P s (E2EInit.ofPayload_toPayload hown stack) exponent).trans
    ((if_pos haccepts).trans haccept)
  refine ⟨_, ackpl, hanswer, (E2EAck.toPayload_eq_ok.mp hackpl).1, rfl, ?_, rfl, _, hconfirm, rfl,
    ?_, rfl, rfl, ?_⟩
  · simp [Synced]
  · simp [Synced]
  · exact P.agreedKey_comm hcomm _ _

/-- A payload of another number goes to `oldCrypto`. -/
theorem decrypt_older (hs : s.sessState = .established) (ht : t.sessState = .established)
    (hseq : s.sequenceNo ≠ t.sequenceNo) {nonce : Nonce} {text : Str} {pl : Payload}
    (hpl : s.encrypt P nonce text = .ok pl) (stack : Stack) :
    ∃ eData, s.mCrypto.encrypt P nonce text = .ok eData ∧
      t.decrypt P pl stack = t.oldCrypto.decrypt P eData := by
  obtain ⟨eData, henc, hdata⟩ := encrypt_eq_ok P hs hpl
  exact ⟨eData, henc, (decrypt_cipher P ht hdata stack).trans (if_neg hseq)⟩

/-- A text that opens under `oldCrypto`. -/
theorem decrypt_encrypt_old (hopens : P.GcmOpensSealed) (hs : s.sessState = .established)
    (ht : t.sessState = .established) (htCrypto : t.oldCrypto.mEstablished = true)
    (hseq : s.sequenceNo ≠ t.sequenceNo) (hkey : s.mCrypto.mKey = t.oldCrypto.mKey)
    {nonce : Nonce} {text : Str} {pl : Payload} (hpl : s.encrypt P nonce text = .ok pl)
    (stack : Stack) : t.decrypt P pl stack = .ok text := by
  obtain ⟨eData, henc, hdecrypt⟩ := decrypt_older hs ht hseq hpl stack
  rw [hdecrypt]
  exact CryptoSession.decrypt_encrypt P hopens htCrypto hkey henc

/-- Under an `oldCrypto` that was never established nothing opens. -/
theorem decrypt_encrypt_lost (hs : s.sessState = .established) (ht : t.sessState = .established)
    (htCrypto : t.oldCrypto.mEstablished = false) (hseq : s.sequenceNo ≠ t.sequenceNo)
    {nonce : Nonce} {text : Str} {pl : Payload} (hpl : s.encrypt P nonce text = .ok pl)
    (stack : Stack) : t.decrypt P pl stack = .error CryptoSession.notEstablished := by
  obtain ⟨eData, _, hdecrypt⟩ := decrypt_older hs ht hseq hpl stack
  rw [hdecrypt, CryptoSession.decrypt, htCrypto, if_neg Bool.false_ne_true]

end E2ESession

/-- A text that was encrypted in a session established under a number and a key. -/
structure Sealing where
  number : UInt32
  key : Key
  text : Str
  payload : Payload

/-- A link, what each session has been established under, the latest first, and the
texts each has encrypted. -/
structure Traced where
  link : Link
  history : Side → List (UInt32 × Key)
  sealings : Side → List Sealing

namespace Traced

inductive Event where
  | call (side : Side) (call : Call)
  | encrypt (side : Side) (nonce : Nonce) (text : Str)

variable (P : Primitives)

def called (t : Traced) (side : Side) (call : Call) : Traced where
  link := t.link.put side ((t.link.session side).run P call).1
    ((t.link.session side).run P call).2.toOption.join.toList
  history := Function.update t.history side
    ((t.link.session side).recorded ((t.link.session side).run P call).1 (t.history side))
  sealings := t.sealings

def encrypted (t : Traced) (side : Side) (text : Str) (pl : Payload) : Traced where
  link := t.link
  history := t.history
  sealings := Function.update t.sealings side
    (⟨(t.link.session side).sequenceNo, (t.link.session side).mCrypto.mKey, text, pl⟩ ::
      t.sealings side)

/-- A payload stays deliverable for ever once it was sent, to either handler. -/
inductive Step : Traced → Event → Traced → Prop
  | call {t : Traced} {side : Side} {call : Call}
      (hallowed : call.Allowed (t.link.session side))
      (hfrom : call.From (t.link.sent side.other)) :
      Step t (.call side call) (t.called P side call)
  | encrypt {t : Traced} {side : Side} {nonce : Nonce} {text : Str} {pl : Payload}
      (hstate : (t.link.session side).sessState = .established)
      (hpl : (t.link.session side).encrypt P nonce text = .ok pl) :
      Step t (.encrypt side nonce text) (t.encrypted side text pl)

/-- Two fresh sessions. -/
def system : System Traced Event where
  init t := ∀ side, (∃ exponent oldExponent,
    t.link.session side = .fresh exponent oldExponent) ∧ t.link.sent side = [] ∧
      t.history side = [] ∧ t.sealings side = []
  step := Step P

/-- The step loses no key. -/
def Preserves (t : Traced) : Event → Prop
  | .call side call => call.Preserves (t.link.session side)
  | .encrypt _ _ _ => True

/-- The text was encrypted by a session that was established as it says. -/
def Made (sealing : Sealing) : Prop :=
  ∃ s : E2ESession, ∃ nonce, s.sessState = .established ∧ s.sequenceNo = sealing.number ∧
    s.mCrypto.mKey = sealing.key ∧ s.encrypt P nonce sealing.text = .ok sealing.payload

/-- What holds of the two sessions as long as no step loses a key. -/
structure Good (t : Traced) : Prop where
  abstract : ∃ s, Reachable (Rekey.system P.offered P.agreedKey) s ∧ Abstracts t.link s
  remembers : ∀ side, (t.link.session side).Remembers (t.history side)
  made : ∀ side, ∀ sealing ∈ t.sealings side, Made P sealing

variable {P} {t t' : Traced}

theorem called_session_self (t : Traced) (side : Side) (call : Call) :
    (t.called P side call).link.session side = ((t.link.session side).run P call).1 :=
  Link.put_session_self _ _ _ _

theorem called_session_of_ne {side x : Side} (hx : x ≠ side) (call : Call) :
    (t.called P side call).link.session x = t.link.session x :=
  Link.put_session_of_ne _ hx _ _

theorem called_history_self (t : Traced) (side : Side) (call : Call) :
    (t.called P side call).history side =
      (t.link.session side).recorded ((t.link.session side).run P call).1 (t.history side) :=
  Function.update_self ..

theorem called_history_of_ne {side x : Side} (hx : x ≠ side) (call : Call) :
    (t.called P side call).history x = t.history x :=
  Function.update_of_ne hx ..

theorem mem_called_sent {side : Side} {call : Call} {pl : Payload}
    (hresult : ((t.link.session side).run P call).2 = .ok (some pl)) :
    pl ∈ (t.called P side call).link.sent side := by
  rw [called, hresult, Link.put_sent_self]
  exact List.mem_append_right _ (List.mem_singleton.mpr rfl)

theorem toOption_map_some {α : Type} (result : Except Fault α) :
    (result.map some).toOption.join = result.toOption := by
  cases result <;> rfl

/-- A call that returns a payload puts it on the link. -/
theorem called_link_of_map {side : Side} {call : Call} {s : E2ESession}
    {result : Except Fault Payload}
    (hrun : (t.link.session side).run P call = (s, result.map some)) :
    (t.called P side call).link = t.link.put side s result.toOption.toList := by
  rw [called, hrun, toOption_map_some]

theorem called_link_of_none {side : Side} {call : Call}
    (hrun : (t.link.session side).run P call = (t.link.session side, .ok none)) :
    (t.called P side call).link = t.link.put side (t.link.session side) [] := by
  rw [called, hrun]
  rfl

/-- A call that loses no key is a step of the link, or leaves its session alone. -/
theorem called_step {side : Side} {call : Call} (hallowed : call.Allowed (t.link.session side))
    (hfrom : call.From (t.link.sent side.other))
    (hpreserves : call.Preserves (t.link.session side)) :
    (∃ action, Link.Step P t.link action (t.called P side call).link) ∨
      (t.called P side call).link = t.link.put side (t.link.session side) [] := by
  cases call with
  | initiate now =>
      rw [called_link_of_map rfl]
      exact Or.inl ⟨_, Link.Step.initiate hallowed hpreserves rfl⟩
  | refresh now exponent =>
      rw [called_link_of_map rfl]
      exact Or.inl ⟨_, Link.Step.refresh hpreserves.1 rfl⟩
  | handleInit pl stack exponent =>
      by_cases htype : pl.type = .e2eInit
      · exact Or.inl ⟨_, Link.Step.handleInit hfrom htype rfl⟩
      · have hrefused := hpreserves.resolve_left htype
        have hparse : E2EInit.ofPayload pl stack = .ok _ := E2EInit.ofPayload_other htype
        refine Or.inr (called_link_of_none ?_)
        rw [E2ESession.run, E2ESession.handleInit_eq P _ hparse,
          if_neg (by rw [hrefused _ hparse]; exact Bool.false_ne_true)]
  | handleAck pl stack =>
      by_cases htype : pl.type = .e2eAck
      · exact Or.inl ⟨_, Link.Step.handleAck hfrom htype rfl⟩
      · have hrefused := hpreserves.resolve_left htype
        have hparse : E2EAck.ofPayload pl stack = .ok _ := E2EAck.ofPayload_other htype
        refine Or.inr (called_link_of_none ?_)
        rw [E2ESession.run, E2ESession.handleAck_eq P _ hparse]
        exact if_neg (hrefused _ hparse)

/-- What a session takes up of its peer's has a key that is a `BIGNUM`, and in an
established session a greater number. -/
theorem newer_of_accepts {side : Side} {s : Rekey.State Nat Nat Key Str}
    (hs : Reachable (Rekey.system P.offered P.agreedKey) s) (habs : Abstracts t.link s)
    {pl : Payload} {stack : Stack} {exponent : Nat} (hfrom : pl ∈ t.link.sent side.other)
    (hpreserves : (Call.handleInit pl stack exponent).Preserves (t.link.session side))
    {init : E2EInit} (hparse : E2EInit.ofPayload pl stack = .ok init)
    (haccepts : (t.link.session side).accepts init = true) :
    FitsBignum init.key.1 ∧ ((t.link.session side).sessState = .established →
      (t.link.session side).sequenceNo < init.seqno) := by
  rcases hpreserves with htype | hrefused
  · obtain ⟨sent, hsent, hkey, hoffer⟩ := habs.sent_init hfrom htype
    have hsame : sent = init :=
      Except.ok.inj ((E2EInit.ofPayload_toPayload hsent stack).symm.trans hparse)
    rw [hsame] at hkey hoffer
    refine ⟨hkey, fun hstate => ?_⟩
    have hphase := E2ESession.phase_of_established hstate
    have hparty := habs.party side
    have hagreed : (s.party side).phase = .agreed (t.link.session side).mCrypto.mKey := by
      rw [hparty]
      exact hphase
    have haccept := (E2ESession.accepts_iff _ init).mp haccepts
    rw [← hparty] at haccept
    have hlt := (Rekey.reachable_inv hs).accepts_newer hagreed hoffer haccept
    rw [hparty] at hlt
    exact UInt32.lt_iff_toNat_lt.mpr hlt
  · rw [hrefused init hparse] at haccepts
    cases haccepts

theorem fits_of_awaited {side : Side} {s : Rekey.State Nat Nat Key Str}
    (habs : Abstracts t.link s) {pl : Payload} {stack : Stack}
    (hfrom : pl ∈ t.link.sent side.other)
    (hpreserves : (Call.handleAck pl stack).Preserves (t.link.session side)) {ack : E2EAck}
    (hparse : E2EAck.ofPayload pl stack = .ok ack)
    (hmatching : (t.link.session side).Awaits ∧ ack.seqno = (t.link.session side).sequenceNo) :
    FitsBignum ack.key.1 := by
  rcases hpreserves with htype | hrefused
  · obtain ⟨sent, hsent, hkey, _⟩ := habs.sent_ack hfrom htype
    have hsame : sent = ack :=
      Except.ok.inj ((E2EAck.ofPayload_toPayload hsent stack).symm.trans hparse)
    rwa [hsame] at hkey
  · exact absurd hmatching (hrefused ack hparse)

theorem good_called (hgood : Good P t) {side : Side} {call : Call}
    (hallowed : call.Allowed (t.link.session side)) (hfrom : call.From (t.link.sent side.other))
    (hpreserves : call.Preserves (t.link.session side)) : Good P (t.called P side call) := by
  obtain ⟨s, hs, habs⟩ := hgood.abstract
  refine ⟨?_, ?_, hgood.made⟩
  · rcases called_step (P := P) hallowed hfrom hpreserves with ⟨action, hstep⟩ | hsame
    · rcases habs.step hstep with hstutter | ⟨side', u, hu, habs'⟩
      · exact ⟨s, hs, hstutter⟩
      · exact ⟨u, hs.step hu, habs'⟩
    · rw [hsame]
      exact ⟨s, hs, habs.of_put_self side⟩
  · intro x
    by_cases hx : x = side
    · subst hx
      rw [called_session_self, called_history_self]
      have hremembers := hgood.remembers x
      cases call with
      | initiate now => exact hremembers.initiate hallowed now
      | refresh now exponent => exact hremembers.refresh hpreserves.1 hpreserves.2 now exponent
      | handleInit pl stack exponent =>
          exact hremembers.handleInit
            (fun init hparse haccepts =>
              newer_of_accepts hs habs hfrom hpreserves hparse haccepts) exponent
      | handleAck pl stack =>
          exact hremembers.handleAck fun ack hparse hmatching =>
            fits_of_awaited habs hfrom hpreserves hparse hmatching
    · rw [called_session_of_ne hx, called_history_of_ne hx]
      exact hgood.remembers x

theorem good_step {event : Event} (hgood : Good P t) (hstep : Step P t event t')
    (hpreserves : t.Preserves event) : Good P t' := by
  cases hstep with
  | call hallowed hfrom => exact good_called hgood hallowed hfrom hpreserves
  | @encrypt side nonce text pl hstate hpl =>
      refine ⟨hgood.abstract, hgood.remembers, ?_⟩
      intro x sealing hsealing
      by_cases hx : x = side
      · subst hx
        simp only [encrypted, Function.update_self, List.mem_cons] at hsealing
        rcases hsealing with rfl | hsealing
        · exact ⟨t.link.session x, nonce, hstate, rfl, rfl, hpl⟩
        · exact hgood.made x sealing hsealing
      · simp only [encrypted, Function.update_of_ne hx] at hsealing
        exact hgood.made x sealing hsealing

theorem good_of_reachable (hreach : Reachable ((system P).restrict Preserves) t) : Good P t := by
  apply hreach.invariant
  · intro start hstart
    refine ⟨?_, ?_, ?_⟩
    · have hinit : (Link.system P).init start.link := fun side =>
        ⟨(hstart side).1, (hstart side).2.1⟩
      obtain ⟨s, hs, habs⟩ := Abstracts.exists_init hinit
      exact ⟨s, Reachable.of_init hs, habs⟩
    · intro side
      obtain ⟨⟨exponent, oldExponent, hsession⟩, _, hhistory, _⟩ := hstart side
      rw [hsession, hhistory]
      exact E2ESession.remembers_fresh exponent oldExponent
    · intro side sealing hsealing
      rw [(hstart side).2.2.2] at hsealing
      cases hsealing
  · rintro t event t' hgood ⟨hstep, hpreserves⟩
    exact good_step hgood hstep hpreserves

/-- In every run that loses no key, an established session decrypts, through `oldCrypto`,
what its peer has encrypted under the session it was established in before. -/
theorem decrypts_previous (hopens : P.GcmOpensSealed)
    (hreach : Reachable ((system P).restrict Preserves) t) {side : Side}
    (hstate : (t.link.session side).sessState = .established)
    {present previous : UInt32 × Key} {older : List (UInt32 × Key)}
    (hhistory : t.history side = present :: previous :: older) {sealing : Sealing}
    (hsealing : sealing ∈ t.sealings side.other)
    (hunder : (sealing.number, sealing.key) = previous) (stack : Stack) :
    sealing.number ≠ (t.link.session side).sequenceNo ∧
      (t.link.session side).decrypt P sealing.payload stack = .ok sealing.text := by
  have hgood := good_of_reachable hreach
  have hprevious := (hgood.remembers side).previous
  rw [E2ESession.past, if_pos hstate, hhistory] at hprevious
  obtain ⟨hlt, hcrypto, hkey⟩ := hprevious previous rfl
  obtain ⟨s, nonce, hs, hnumber, hsKey, hpl⟩ := hgood.made side.other sealing hsealing
  rw [← hunder] at hlt hkey
  have hne : sealing.number ≠ (t.link.session side).sequenceNo := UInt32.ne_of_lt hlt
  refine ⟨hne, ?_⟩
  exact E2ESession.decrypt_encrypt_old hopens hs hstate hcrypto (hnumber ▸ hne)
    (hsKey.trans hkey.symm) hpl stack

/-- What a call of the right session that sends an INIT leaves. -/
structure Started (P : Primitives) (t : Traced) (call : Call) (t' : Traced) (pl : Payload) :
    Prop where
  step : (system P).step t (.call .right call) t'
  right : t'.link.session .right = ((t.link.session .right).run P call).1
  left : t'.link.session .left = t.link.session .left
  history : t'.history = t.history
  sealings : t'.sealings = t.sealings
  synced : ∀ side, (t'.link.session side).Synced
  awaits : (t'.link.session .right).Awaits
  own : E2ESession.OwnInit P (t'.link.session .right) pl
  sent : pl ∈ t'.link.sent .right

theorem exists_started {call : Call} (hstarts : call.Starts)
    (hallowed : call.Allowed (t.link.session .right))
    (hsynced : ∀ side, (t.link.session side).Synced) : ∃ t' pl, Started P t call t' pl := by
  have hfrom : call.From (t.link.sent Side.right.other) := by
    cases call <;> first | exact trivial | exact hstarts.elim
  obtain ⟨pl, hresult, hown, hawaits⟩ := E2ESession.run_own (P := P) hstarts (t.link.session .right)
  have hright := called_session_self (P := P) t .right call
  have hleft : (t.called P .right call).link.session .left = t.link.session .left :=
    called_session_of_ne (by decide) call
  refine ⟨t.called P .right call, pl, Step.call hallowed hfrom, hright, hleft, ?_, rfl, ?_, ?_, ?_,
    mem_called_sent hresult⟩
  · rw [called, E2ESession.recorded, if_neg fun hboth => hawaits.ne_established hboth.1,
      Function.update_eq_self]
  · rintro (_ | _)
    · rw [hleft]
      exact hsynced .left
    · rw [hright]
      apply (E2ESession.run_sound (hsynced .right).unspent hallowed).synced (hsynced .right)
      rw [hresult]
      rintro ⟨⟩
  · rwa [hright]
  · rwa [hright]

/-- What an exchange leaves of two sessions: both established under the number that the
right one had sent its INIT under. -/
structure Exchanged (t t' : Traced) : Prop where
  established : ∀ side, (t'.link.session side).sessState = .established
  synced : ∀ side, (t'.link.session side).Synced
  number : ∀ side, (t'.link.session side).sequenceNo = (t.link.session .right).sequenceNo
  key : (t'.link.session .left).mCrypto.mKey = (t'.link.session .right).mCrypto.mKey
  oldCrypto : (t'.link.session .right).oldCrypto = (t.link.session .right).oldCrypto
  history : t'.history .right =
    ((t.link.session .right).sequenceNo, (t'.link.session .right).mCrypto.mKey) ::
      t.history .right
  sealings : t'.sealings = t.sealings

/-- The left session takes up the INIT of the right one, which gets the ACK. -/
theorem exists_exchanged (hcomm : P.DHCommutes) {pl : Payload}
    (hawaits : (t.link.session .right).Awaits)
    (hsynced : ∀ side, (t.link.session side).Synced)
    (hown : E2ESession.OwnInit P (t.link.session .right) pl) (hsent : pl ∈ t.link.sent .right)
    (hnewer : (t.link.session .left).sequenceNo < (t.link.session .right).sequenceNo) :
    ∃ t' labels, Run ((system P).restrict Preserves) t labels t' ∧ Exchanged t t' := by
  obtain ⟨l', ack, hanswer, hackType, hl', hlSynced, hlSeq, r', hconfirm, hr', hrSynced, hrSeq,
    hrOld, hkeys⟩ := E2ESession.exchange_eq hcomm (hsynced .left) (hsynced .right) hawaits hown
      hnewer (fun _ => 0) 4
  have hplType : pl.type = .e2eInit := (E2EInit.toPayload_eq_ok.mp hown).1
  have hrun : (t.link.session .left).run P (.handleInit pl (fun _ => 0) 4) =
      (l', .ok (some ack)) := hanswer
  obtain ⟨u, hu⟩ : ∃ u, u = t.called P .left (.handleInit pl (fun _ => 0) 4) := ⟨_, rfl⟩
  have huLeft : u.link.session .left = l' := by
    rw [hu, called_session_self, hrun]
  have huRight : u.link.session .right = t.link.session .right := by
    rw [hu]
    exact called_session_of_ne (by decide) _
  have huHistory : u.history .right = t.history .right := by
    rw [hu]
    exact called_history_of_ne (by decide) _
  have hack : ack ∈ u.link.sent .left := by
    rw [hu]
    exact mem_called_sent (congrArg Prod.snd hrun)
  have hrunRight : (u.link.session .right).run P (.handleAck ack (fun _ => 0)) =
      (r', .ok none) := by
    rw [huRight]
    exact hconfirm _
  obtain ⟨v, hv⟩ : ∃ v, v = u.called P .right (.handleAck ack (fun _ => 0)) := ⟨_, rfl⟩
  have hleft : v.link.session .left = l' := by
    rw [hv, ← huLeft]
    exact called_session_of_ne (by decide) _
  have hright : v.link.session .right = r' := by
    rw [hv, called_session_self, hrunRight]
  have hhistory : v.history .right =
      ((t.link.session .right).sequenceNo, r'.mCrypto.mKey) :: t.history .right := by
    have hchanged : r' ≠ t.link.session .right := by
      rintro rfl
      exact hawaits.ne_established hr'
    rw [hv, called_history_self, hrunRight, huRight, huHistory, E2ESession.recorded,
      if_pos ⟨hr', hchanged⟩, hrSeq]
  have hfirst : ((system P).restrict Preserves).step t
      (.call .left (.handleInit pl (fun _ => 0) 4)) u :=
    hu ▸ ⟨Step.call trivial hsent, Or.inl hplType⟩
  have hsecond : ((system P).restrict Preserves).step u
      (.call .right (.handleAck ack (fun _ => 0))) v :=
    hv ▸ ⟨Step.call trivial hack, Or.inl hackType⟩
  refine ⟨v, _, Run.cons hfirst (Run.cons hsecond (Run.nil v)), ?_, ?_, ?_, ?_, ?_, ?_, ?_⟩
  · rintro (_ | _)
    · rwa [hleft]
    · rwa [hright]
  · rintro (_ | _)
    · rwa [hleft]
    · rwa [hright]
  · rintro (_ | _)
    · rwa [hleft]
    · rwa [hright]
  · rwa [hleft, hright]
  · rwa [hright]
  · rwa [hright]
  · rw [hv, hu]
    rfl

/-- Two sessions established under number 1, and a text of the left one. -/
theorem exists_sealed : ∃ t sealing, Reachable ((system .clear).restrict Preserves) t ∧
    (∀ side, (t.link.session side).sessState = .established) ∧
    (∀ side, (t.link.session side).Synced) ∧
    (∀ side, (t.link.session side).sequenceNo = 1) ∧
    sealing ∈ t.sealings .left ∧ sealing.number = 1 ∧
    t.history .right = [(sealing.number, sealing.key)] := by
  let start : Traced :=
    ⟨⟨fun side => .fresh (if side = .left then 3 else 5) 2, fun _ => []⟩, fun _ => [], fun _ => []⟩
  have hstart : Reachable ((system .clear).restrict Preserves) start :=
    Reachable.of_init fun side => ⟨⟨_, 2, rfl⟩, rfl, rfl, rfl⟩
  have hbound : (0 : UInt32).toNat + 1 < 2 ^ 32 := by
    decide
  obtain ⟨t, pl, ht⟩ := exists_started (P := .clear) (t := start)
    (show (Call.initiate 7).Starts from trivial) rfl fun _ => E2ESession.synced_fresh _ _
  obtain ⟨s, _, hrun, _, _, hseq, _⟩ :=
    E2ESession.run_initiate (P := .clear) (start.link.session .right) 7
  have hright : (t.link.session .right).sequenceNo = 1 := by
    rw [ht.right, hrun, hseq]
    rfl
  have hleft : (t.link.session .left).sequenceNo = 0 := by
    rw [ht.left]
    rfl
  obtain ⟨u, labels, hexchange, hu⟩ := exists_exchanged Primitives.clear_dhCommutes ht.awaits
    ht.synced ht.own ht.sent (by rw [hleft, hright]; decide)
  obtain ⟨text, htext⟩ : ∃ text : Str, text = ⟨[116], by decide⟩ := ⟨_, rfl⟩
  have hlength : text.1.length + 40 ≤ maxSize := by
    rw [htext]
    decide
  obtain ⟨pl', hpl'⟩ : ∃ pl', (u.link.session .left).encrypt .clear (Block.zero _) text = .ok pl' :=
    E2ESession.encrypt_ok .clear (hu.synced .left).mp (by omega) hlength
  have hreach := (hstart.step ⟨ht.step, hbound⟩).run hexchange
  have hstep : (system .clear).step u (.encrypt .left (Block.zero _) text)
      (u.encrypted .left text pl') := Step.encrypt (hu.established .left) hpl'
  refine ⟨u.encrypted .left text pl',
    ⟨(u.link.session .left).sequenceNo, (u.link.session .left).mCrypto.mKey, text, pl'⟩,
    hreach.step ⟨hstep, trivial⟩, hu.established, hu.synced,
    fun side => (hu.number side).trans hright, ?_, (hu.number .left).trans hright, ?_⟩
  · simp [encrypted]
  · rw [hu.number, hu.key]
    exact hu.history.trans (congrArg (List.cons _) (congrFun ht.history .right))

/-- The right session refreshes once, and gets the ACK. -/
theorem decrypts_previous_sample : ∃ t sealing,
    Reachable ((system .clear).restrict Preserves) t ∧
    (t.link.session .right).sessState = .established ∧ sealing ∈ t.sealings .left ∧
    (t.link.session .right).decrypt .clear sealing.payload (fun _ => 0) = .ok sealing.text := by
  obtain ⟨t, sealing, hreach, hstate, hsynced, hseq, hsealing, _, hhistory⟩ := exists_sealed
  obtain ⟨u, pl, hu⟩ := exists_started (P := .clear)
    (show (Call.refresh 8 9).Starts from trivial) trivial hsynced
  have hright : (u.link.session .right).sequenceNo = 1 + 1 := by
    rw [hu.right, E2ESession.run_refresh, E2ESession.refreshed, hseq]
  have hleft : (u.link.session .left).sequenceNo = 1 := by
    rw [hu.left, hseq]
  obtain ⟨v, labels, hexchange, hv⟩ := exists_exchanged Primitives.clear_dhCommutes hu.awaits
    hu.synced hu.own hu.sent (by rw [hleft, hright]; decide)
  have hpreserves : t.Preserves (.call .right (.refresh 8 9)) := by
    refine ⟨?_, ?_⟩
    · rw [hseq]
      decide
    · rw [hstate]
      rintro ⟨⟨⟩, _⟩
  have hlast := (hreach.step ⟨hu.step, hpreserves⟩).run hexchange
  have hsame : sealing ∈ v.sealings .left := by
    rwa [hv.sealings, hu.sealings]
  have hpast : v.history .right = ((u.link.session .right).sequenceNo,
      (v.link.session .right).mCrypto.mKey) :: (sealing.number, sealing.key) :: [] := by
    rw [hv.history, hu.history, hhistory]
  exact ⟨v, sealing, hlast, hv.established .right, hsame,
    (decrypts_previous Primitives.clear_gcmOpensSealed hlast (hv.established .right) hpast hsame
      rfl _).2⟩

/-- The right session refreshes twice before an ACK comes, and has no key left for the
text. -/
theorem not_decrypts_refreshedTwice : ∃ t sealing present,
    Reachable (system .clear) t ∧
    (t.link.session .right).sessState = .established ∧
    t.history .right = [present, (sealing.number, sealing.key)] ∧ sealing ∈ t.sealings .left ∧
    (t.link.session .right).decrypt .clear sealing.payload (fun _ => 0) ≠ .ok sealing.text := by
  obtain ⟨t, sealing, hreach, _, hsynced, hseq, hsealing, hnumber, hhistory⟩ := exists_sealed
  obtain ⟨u, _, hu⟩ := exists_started (P := .clear)
    (show (Call.refresh 8 9).Starts from trivial) trivial hsynced
  obtain ⟨v, pl, hv⟩ := exists_started (P := .clear)
    (show (Call.refresh 10 11).Starts from trivial) trivial hu.synced
  have hright : (v.link.session .right).sequenceNo = 1 + 1 + 1 := by
    rw [hv.right, E2ESession.run_refresh, E2ESession.refreshed, hu.right, E2ESession.run_refresh,
      E2ESession.refreshed, hseq]
  have hleft : (v.link.session .left).sequenceNo = 1 := by
    rw [hv.left, hu.left, hseq]
  obtain ⟨w, labels, hexchange, hw⟩ := exists_exchanged Primitives.clear_dhCommutes hv.awaits
    hv.synced hv.own hv.sent (by rw [hleft, hright]; decide)
  have hlast := ((hreach.of_restrict.step hu.step).step hv.step).run hexchange.of_restrict
  have hsame : sealing ∈ w.sealings .left := by
    rwa [hw.sealings, hv.sealings, hu.sealings]
  have hlost : (w.link.session .right).oldCrypto.mEstablished = false := by
    rw [hw.oldCrypto, hv.right, E2ESession.run_refresh, hu.right, E2ESession.run_refresh]
    rfl
  have hpast : w.history .right = [((v.link.session .right).sequenceNo,
      (w.link.session .right).mCrypto.mKey), (sealing.number, sealing.key)] := by
    rw [hw.history, hv.history, hu.history, hhistory]
  refine ⟨w, sealing, _, hlast, hw.established .right, hpast, hsame, ?_⟩
  obtain ⟨s, nonce, hs, hsNumber, _, hpl⟩ := (good_of_reachable hreach).made .left sealing hsealing
  have hne : s.sequenceNo ≠ (w.link.session .right).sequenceNo := by
    rw [hsNumber, hnumber, hw.number, hright]
    decide
  rw [E2ESession.decrypt_encrypt_lost hs (hw.established .right) hlost hne hpl]
  rintro ⟨⟩

end Traced

end LeakyChat

/-
Two honest sessions on a network that may lose, delay, reorder and repeat
their INITs and ACKs.  The pair simulates the rekeying protocol of the
library, and so any two established sessions agree.
-/
import LeakyChat.DHKeyExchange
import LeakyChat.E2ESession
import LeakyChat.Library.Rekey

namespace LeakyChat

open Transition
open Rekey (Side Offer Answer Party Phase)

/-- Two sessions, and every payload each has handed out so far. -/
structure Link where
  session : Side → E2ESession
  sent : Side → List Payload

namespace Link

inductive Action where
  | initiate (side : Side) (now : UInt64)
  | refresh (side : Side) (now : UInt64) (exponent : Nat)
  | handleInit (side : Side) (pl : Payload) (stack : Stack) (exponent : Nat)
  | handleAck (side : Side) (pl : Payload) (stack : Stack)

/-- One side moves on to `s` and hands out `pls`. -/
def put (l : Link) (side : Side) (s : E2ESession) (pls : List Payload) : Link where
  session := Function.update l.session side s
  sent := Function.update l.sent side (l.sent side ++ pls)

@[simp]
theorem put_session_self (l : Link) (side : Side) (s : E2ESession)
    (pls : List Payload) : (l.put side s pls).session side = s := by
  simp [put]

@[simp]
theorem put_sent_self (l : Link) (side : Side) (s : E2ESession)
    (pls : List Payload) : (l.put side s pls).sent side = l.sent side ++ pls := by
  simp [put]

theorem put_session_of_ne (l : Link) {side x : Side} (hx : x ≠ side)
    (s : E2ESession) (pls : List Payload) :
    (l.put side s pls).session x = l.session x := by
  simp [put, hx]

theorem put_sent_of_ne (l : Link) {side x : Side} (hx : x ≠ side)
    (s : E2ESession) (pls : List Payload) :
    (l.put side s pls).sent x = l.sent x := by
  simp [put, hx]

/-- A payload stays deliverable for ever once it was sent, to the handler for its own type:
the second wait of `setupE2E` does not look at the type, and a run in which it reads another
payload is not one of these.  The client calls `initiate` in state `UNITIALIZED` only, and
counters stay below 2^32. -/
inductive Step (P : Primitives) : Link → Action → Link → Prop
  | initiate {l : Link} {side : Side} {now : UInt64} {s : E2ESession}
      {result : Except Fault Payload}
      (hstate : (l.session side).sessState = .unitialized)
      (hbound : (l.session side).sequenceNo.toNat + 1 < 2 ^ 32)
      (hrun : (l.session side).initiate P now = (s, result)) :
      Step P l (.initiate side now) (l.put side s result.toOption.toList)
  | refresh {l : Link} {side : Side} {now : UInt64} {exponent : Nat}
      {s : E2ESession} {result : Except Fault Payload}
      (hbound : (l.session side).sequenceNo.toNat + 1 < 2 ^ 32)
      (hrun : (l.session side).refresh P now exponent = (s, result)) :
      Step P l (.refresh side now exponent) (l.put side s result.toOption.toList)
  | handleInit {l : Link} {side : Side} {pl : Payload} {stack : Stack}
      {exponent : Nat} {s : E2ESession} {result : Except Fault (Option Payload)}
      (hpl : pl ∈ l.sent side.other) (htype : pl.type = .e2eInit)
      (hrun : (l.session side).handleInit P pl stack exponent = (s, result)) :
      Step P l (.handleInit side pl stack exponent)
        (l.put side s result.toOption.join.toList)
  | handleAck {l : Link} {side : Side} {pl : Payload} {stack : Stack}
      {s : E2ESession} {result : Except Fault (Option Payload)}
      (hpl : pl ∈ l.sent side.other) (htype : pl.type = .e2eAck)
      (hrun : (l.session side).handleAck P pl stack = (s, result)) :
      Step P l (.handleAck side pl stack)
        (l.put side s result.toOption.join.toList)

/-- Two freshly constructed sessions, with nothing sent. -/
def system (P : Primitives) : System Link Action where
  init l := ∀ side, (∃ exponent oldExponent,
    l.session side = .fresh exponent oldExponent) ∧ l.sent side = []
  step := Step P

end Link

def E2EInit.offer (init : E2EInit) : Offer Nat Str :=
  ⟨init.seqno.toNat, init.timestamp.toNat, init.key⟩

def E2EAck.answer (ack : E2EAck) : Answer Str := ⟨ack.seqno.toNat, ack.key⟩

namespace E2ESession

def phase (s : E2ESession) : Phase Key :=
  match s.sessState with
  | .unitialized => .idle
  | .initSent => .waiting
  | .established => .agreed s.mCrypto.mKey
  | .refreshSent => .waiting

def party (s : E2ESession) : Party Nat Nat Key :=
  ⟨s.sequenceNo.toNat, s.sessTimestamp.toNat, s.phase, s.mCrypto.mDH⟩

theorem accepts_iff (s : E2ESession) (init : E2EInit) :
    s.accepts init = true ↔ s.party.Accepts init.offer := by
  simp only [accepts, decide_eq_true_eq, Party.Accepts, party, E2EInit.offer,
    UInt32.lt_iff_toNat_lt, UInt64.lt_iff_toNat_lt, ← UInt32.toNat_inj]

theorem phase_of_sent {s : E2ESession}
    (hs : s.sessState = .initSent ∨ s.sessState = .refreshSent) :
    s.phase = .waiting := by
  rcases hs with hs | hs <;> simp [phase, hs]

theorem phase_of_established {s : E2ESession} (hs : s.sessState = .established) :
    s.phase = .agreed s.mCrypto.mKey := by
  simp [phase, hs]

end E2ESession

namespace Primitives

variable (P : Primitives)

def offered (exponent : Nat) : Str := (P.publicKey exponent).toStr

def agreedKey (exponent : Nat) (peer : Str) : Key :=
  P.deriveKey (P.sharedSecret exponent peer)

theorem agreedKey_comm (hcomm : P.DHCommutes) (a b : Nat) :
    P.agreedKey a (P.offered b) = P.agreedKey b (P.offered a) := by
  simp only [agreedKey, offered, hcomm a b]

end Primitives

/-- A payload that encodes a message of the protocol, under a key that is a `BIGNUM`. -/
def Encodes (s : Rekey.State Nat Nat Key Str) (side : Side) (pl : Payload) : Prop :=
  (∃ init, E2EInit.toPayload init = .ok pl ∧ FitsBignum init.key.1 ∧
      init.offer ∈ s.offers side) ∨
    ∃ ack, E2EAck.toPayload ack = .ok pl ∧ FitsBignum ack.key.1 ∧
      ack.answer ∈ s.answers side

/-- The protocol state a link stands for: the sessions are its parties, and
every payload sent encodes one of its messages. -/
structure Abstracts (l : Link) (s : Rekey.State Nat Nat Key Str) : Prop where
  party : ∀ side, s.party side = (l.session side).party
  crypto : ∀ side, (l.session side).mCrypto.mEstablished = true ↔
    (l.session side).sessState = .established
  sent : ∀ side, ∀ pl ∈ l.sent side, Encodes s side pl

namespace Abstracts

variable {l : Link} {s t : Rekey.State Nat Nat Key Str}

theorem of_put (habs : Abstracts l s) {side : Side} {session : E2ESession}
    {pls : List Payload}
    (hparty : t.party = Function.update s.party side session.party)
    (hcrypto : session.mCrypto.mEstablished = true ↔
      session.sessState = .established)
    (hoffers : ∀ x, s.offers x ⊆ t.offers x)
    (hanswers : ∀ x, s.answers x ⊆ t.answers x)
    (hpls : ∀ pl ∈ pls, Encodes t side pl) :
    Abstracts (l.put side session pls) t := by
  have hold : ∀ x, ∀ pl ∈ l.sent x, Encodes t x pl := by
    intro x pl hpl
    rcases habs.sent x pl hpl with ⟨init, hinit, hkey, hmem⟩ | ⟨ack, hack, hkey, hmem⟩
    · exact Or.inl ⟨init, hinit, hkey, hoffers x hmem⟩
    · exact Or.inr ⟨ack, hack, hkey, hanswers x hmem⟩
  refine ⟨?_, ?_, ?_⟩ <;> intro x <;> by_cases hx : x = side
  · subst hx
    rw [hparty, Function.update_self, Link.put_session_self]
  · rw [hparty, Function.update_of_ne hx, Link.put_session_of_ne l hx]
    exact habs.party x
  · subst hx
    rw [Link.put_session_self]
    exact hcrypto
  · rw [Link.put_session_of_ne l hx]
    exact habs.crypto x
  · subst hx
    intro pl hpl
    rw [Link.put_sent_self, List.mem_append] at hpl
    rcases hpl with hpl | hpl
    · exact hold x pl hpl
    · exact hpls pl hpl
  · intro pl hpl
    rw [Link.put_sent_of_ne l hx] at hpl
    exact hold x pl hpl

/-- A session that ignores a payload leaves the link as it was. -/
theorem of_put_self (habs : Abstracts l s) (side : Side) :
    Abstracts (l.put side (l.session side) []) s := by
  apply habs.of_put
  · rw [← habs.party side, Function.update_eq_self]
  · exact habs.crypto side
  · exact fun _ => Set.Subset.rfl
  · exact fun _ => Set.Subset.rfl
  · simp

/-- An INIT that was sent is the encoding of an offer that was made. -/
theorem sent_init (habs : Abstracts l s) {side : Side} {pl : Payload}
    (hpl : pl ∈ l.sent side) (htype : pl.type = .e2eInit) :
    ∃ init, E2EInit.toPayload init = .ok pl ∧ FitsBignum init.key.1 ∧
      init.offer ∈ s.offers side := by
  rcases habs.sent side pl hpl with hinit | ⟨ack, hack, _⟩
  · exact hinit
  · rw [(E2EAck.toPayload_eq_ok.mp hack).1] at htype
    cases htype

theorem sent_ack (habs : Abstracts l s) {side : Side} {pl : Payload}
    (hpl : pl ∈ l.sent side) (htype : pl.type = .e2eAck) :
    ∃ ack, E2EAck.toPayload ack = .ok pl ∧ FitsBignum ack.key.1 ∧
      ack.answer ∈ s.answers side := by
  rcases habs.sent side pl hpl with ⟨init, hinit, _⟩ | hack
  · rw [(E2EInit.toPayload_eq_ok.mp hinit).1] at htype
    cases htype
  · exact hack

/-- `initiate` and `refresh` make an offer. -/
theorem offer (habs : Abstracts l s) (P : Primitives) {side : Side}
    {session : E2ESession} {state : E2EState} {now : UInt64} {next : E2ESession}
    {result : Except Fault Payload}
    (hseq : session.sequenceNo = (l.session side).sequenceNo)
    (hcrypto : session.mCrypto.mEstablished = false)
    (hstate : state = .initSent ∨ state = .refreshSent)
    (hbound : (l.session side).sequenceNo.toNat + 1 < 2 ^ 32)
    (hrun : session.sendInit P state now = (next, result)) :
    ∃ t, Rekey.Step P.offered P.agreedKey s side t ∧
      Abstracts (l.put side next result.toOption.toList) t := by
  obtain ⟨pl, hsend, hpl⟩ := session.sendInit_eq P state now
  rw [hsend, Prod.mk.injEq] at hrun
  obtain ⟨rfl, rfl⟩ := hrun
  have hnumber : (session.sequenceNo + 1).toNat = session.sequenceNo.toNat + 1 := by
    rw [UInt32.toNat_add, hseq]
    exact Nat.mod_eq_of_lt hbound
  have hseqParty : (s.party side).seq = session.sequenceNo.toNat := by
    rw [habs.party side, hseq]
    rfl
  refine ⟨_, Rekey.Step.offer side now.toNat session.mCrypto.mDH, habs.of_put ?_ ?_ ?_ ?_ ?_⟩
  · simp only [Party.offering, hseqParty, ← hnumber]
    rcases hstate with rfl | rfl <;> rfl
  · rcases hstate with rfl | rfl <;> simp [hcrypto]
  · intro x
    by_cases hx : x = side
    · subst hx
      simp
    · simp [hx]
  · exact fun _ => Set.Subset.rfl
  · intro pl' hpl'
    simp only [Except.toOption, Option.toList_some, List.mem_singleton] at hpl'
    subst hpl'
    refine Or.inl ⟨_, hpl, PublicKey.fitsBignum _, ?_⟩
    simp [E2EInit.offer, hseqParty, hnumber, Primitives.offered,
      CryptoSession.getPublicKey]

/-- `handleInit` takes the offer up or leaves the session alone. -/
theorem handleInit (habs : Abstracts l s) (P : Primitives) {side : Side}
    {pl : Payload} {stack : Stack} {exponent : Nat} {next : E2ESession}
    {result : Except Fault (Option Payload)} (hpl : pl ∈ l.sent side.other)
    (htype : pl.type = .e2eInit)
    (hrun : (l.session side).handleInit P pl stack exponent = (next, result)) :
    Abstracts (l.put side next result.toOption.join.toList) s ∨
      ∃ t, Rekey.Step P.offered P.agreedKey s side t ∧
        Abstracts (l.put side next result.toOption.join.toList) t := by
  obtain ⟨init, hinit, hkey, hoffer⟩ := habs.sent_init hpl htype
  rw [E2ESession.handleInit_eq P _ (E2EInit.ofPayload_toPayload hinit stack)] at hrun
  by_cases haccept : (l.session side).accepts init = true
  · right
    rw [if_pos haccept] at hrun
    obtain ⟨old, ackpl, htake, hackpl⟩ := (l.session side).acceptInit_eq P hkey exponent
      fun hstate => by simpa [hstate] using habs.crypto side
    rw [htake, Prod.mk.injEq] at hrun
    obtain ⟨rfl, rfl⟩ := hrun
    rw [E2ESession.accepts_iff, ← habs.party side] at haccept
    refine ⟨_, Rekey.Step.accept side init.offer _ hoffer haccept,
      habs.of_put rfl ?_ ?_ ?_ ?_⟩
    · simp
    · exact fun _ => Set.Subset.rfl
    · intro x
      by_cases hx : x = side
      · subst hx
        simp
      · simp [hx]
    · intro pl' hpl'
      simp only [Except.toOption, Option.join_some, Option.toList_some,
        List.mem_singleton] at hpl'
      subst hpl'
      refine Or.inr ⟨_, hackpl, PublicKey.fitsBignum _, ?_⟩
      simp [E2EAck.answer, E2EInit.offer, Primitives.offered]
  · left
    rw [if_neg haccept, Prod.mk.injEq] at hrun
    obtain ⟨rfl, rfl⟩ := hrun
    exact habs.of_put_self side

/-- `handleAck` completes the session's own offer or leaves it alone. -/
theorem handleAck (habs : Abstracts l s) (P : Primitives) {side : Side}
    {pl : Payload} {stack : Stack} {next : E2ESession}
    {result : Except Fault (Option Payload)} (hpl : pl ∈ l.sent side.other)
    (htype : pl.type = .e2eAck)
    (hrun : (l.session side).handleAck P pl stack = (next, result)) :
    Abstracts (l.put side next result.toOption.join.toList) s ∨
      ∃ t, Rekey.Step P.offered P.agreedKey s side t ∧
        Abstracts (l.put side next result.toOption.join.toList) t := by
  obtain ⟨ack, hack, hkey, hanswer⟩ := habs.sent_ack hpl htype
  rw [E2ESession.handleAck_eq P _ (E2EAck.ofPayload_toPayload hack stack)] at hrun
  by_cases htake : ((l.session side).sessState = .initSent ∨
      (l.session side).sessState = .refreshSent) ∧
      ack.seqno = (l.session side).sequenceNo
  swap
  · left
    rw [if_neg htake, Prod.mk.injEq] at hrun
    obtain ⟨rfl, rfl⟩ := hrun
    exact habs.of_put_self side
  right
  rw [if_pos htake] at hrun
  obtain ⟨hstate, hseq⟩ := htake
  have hphase : (s.party side).phase = .waiting := by
    rw [habs.party side]
    exact E2ESession.phase_of_sent hstate
  have hcrypto : (l.session side).mCrypto.mEstablished = false := by
    rcases hstate with hstate | hstate <;> simpa [hstate] using habs.crypto side
  rw [E2ESession.acceptAck_eq P _ hkey hcrypto, Prod.mk.injEq] at hrun
  obtain ⟨rfl, rfl⟩ := hrun
  have hnumber : ack.answer.seq = (s.party side).seq := by
    rw [habs.party side]
    simp [E2EAck.answer, E2ESession.party, hseq]
  refine ⟨_, Rekey.Step.confirm side ack.answer hanswer hphase hnumber,
    habs.of_put ?_ ?_ ?_ ?_ ?_⟩
  · rw [habs.party side]
    rfl
  · simp
  · exact fun _ => Set.Subset.rfl
  · exact fun _ => Set.Subset.rfl
  · simp [Except.toOption]

end Abstracts

/-- The start of a link is the start of the protocol. -/
theorem Abstracts.exists_init {P : Primitives} {l : Link}
    (hinit : (Link.system P).init l) :
    ∃ s, (Rekey.system P.offered P.agreedKey).init s ∧ Abstracts l s := by
  refine ⟨⟨fun side => (l.session side).party, fun _ => ∅, fun _ => ∅⟩, ?_, ?_⟩
  · intro side
    obtain ⟨⟨exponent, oldExponent, hsession⟩, _⟩ := hinit side
    have hstart : (l.session side).sequenceNo = 0 ∧
        (l.session side).sessState = .unitialized := by
      rw [hsession]
      exact ⟨rfl, rfl⟩
    refine ⟨?_, ?_, rfl, rfl⟩
    · simp [E2ESession.party, hstart.1]
    · simp [E2ESession.party, E2ESession.phase, hstart.2]
  · refine ⟨fun _ => rfl, ?_, ?_⟩ <;> intro side
    · obtain ⟨⟨exponent, oldExponent, hsession⟩, _⟩ := hinit side
      simp [hsession, E2ESession.fresh, CryptoSession.fresh]
    · simp [(hinit side).2]

/-- Every step of a link is a step of the protocol, or changes nothing in it. -/
theorem Abstracts.step {P : Primitives} {l l' : Link} {action : Link.Action}
    {s : Rekey.State Nat Nat Key Str} (habs : Abstracts l s)
    (hstep : Link.Step P l action l') :
    Abstracts l' s ∨ ∃ side t, Rekey.Step P.offered P.agreedKey s side t ∧
      Abstracts l' t := by
  cases hstep with
  | @initiate side now session result hstate hbound hrun =>
      right
      have hcrypto : (l.session side).mCrypto.mEstablished = false := by
        simpa [hstate] using habs.crypto side
      have hsend : (l.session side).sendInit P .initSent now = (session, result) := hrun
      exact ⟨side, habs.offer P rfl hcrypto (Or.inl rfl) hbound hsend⟩
  | @refresh side now exponent session result hbound hrun =>
      right
      have hsend : ((l.session side).rotate exponent).sendInit P .refreshSent now =
          (session, result) := hrun
      have hseq : ((l.session side).rotate exponent).sequenceNo =
          (l.session side).sequenceNo := rfl
      exact ⟨side, habs.offer P hseq rfl (Or.inr rfl) hbound hsend⟩
  | handleInit hpl htype hrun =>
      rcases habs.handleInit P hpl htype hrun with hsame | ⟨t, hst, ht⟩
      · exact Or.inl hsame
      · exact Or.inr ⟨_, t, hst, ht⟩
  | handleAck hpl htype hrun =>
      rcases habs.handleAck P hpl htype hrun with hsame | ⟨t, hst, ht⟩
      · exact Or.inl hsame
      · exact Or.inr ⟨_, t, hst, ht⟩

/-- Every reachable link stands for a reachable state of the protocol. -/
theorem exists_abstract {P : Primitives} {l : Link}
    (hreach : Reachable (Link.system P) l) :
    ∃ s, Reachable (Rekey.system P.offered P.agreedKey) s ∧ Abstracts l s :=
  hreach.simulation (fun _ hinit => Abstracts.exists_init hinit)
    fun _ _ _ _ habs hstep => habs.step hstep

/-- An INIT of one fresh session and the ACK of the other establish both. -/
theorem exists_established (P : Primitives) :
    ∃ l, Reachable (Link.system P) l ∧
      ∀ side, (l.session side).sessState = .established := by
  let start : Link := ⟨fun _ => .fresh 0 0, fun _ => []⟩
  have hstart : Reachable (Link.system P) start :=
    Reachable.of_init fun _ => ⟨⟨0, 0, rfl⟩, rfl⟩
  obtain ⟨initpl, hsend, hinit⟩ := (E2ESession.fresh 0 0).sendInit_eq P .initSent 0
  obtain ⟨l₁, hl₁, hleft₁, hright₁, hsent₁⟩ :
      ∃ l, Reachable (Link.system P) l ∧
        l.session .left =
          { E2ESession.fresh 0 0 with
            sequenceNo := 1, sessState := .initSent, sessTimestamp := 0 } ∧
        l.session .right = .fresh 0 0 ∧ initpl ∈ l.sent .left :=
    ⟨_, hstart.step (Link.Step.initiate rfl (by decide) hsend),
      Link.put_session_self _ _ _ _, rfl, by simp [Except.toOption]⟩
  have hfits : FitsBignum
      (E2EInit.mk 1 0 ((E2ESession.fresh 0 0).mCrypto.getPublicKey P).toStr).key.1 :=
    PublicKey.fitsBignum _
  have hhandle := (l₁.session .right).handleInit_eq P
    (E2EInit.ofPayload_toPayload hinit fun _ => 0) 0
  obtain ⟨old, ackpl, htake, hack⟩ := (l₁.session .right).acceptInit_eq P hfits 0
    fun _ => by rw [hright₁]; rfl
  rw [if_pos (by rw [hright₁]; rfl)] at hhandle
  obtain ⟨l₂, hl₂, hleft₂, hright₂, hsent₂⟩ :
      ∃ l, Reachable (Link.system P) l ∧ l.session .left = l₁.session .left ∧
        (l.session .right).sessState = .established ∧ ackpl ∈ l.sent .right :=
    ⟨_, hl₁.step (Link.Step.handleInit hsent₁ (E2EInit.toPayload_eq_ok.mp hinit).1
        (hhandle.trans htake)),
      rfl, by rw [Link.put_session_self], by simp [Except.toOption]⟩
  have hfinish := (l₂.session .left).handleAck_eq P
    (E2EAck.ofPayload_toPayload hack fun _ => 0)
  rw [if_pos (by rw [hleft₂, hleft₁]; exact ⟨Or.inl rfl, rfl⟩),
    E2ESession.acceptAck_eq P _ (PublicKey.fitsBignum _) (by rw [hleft₂, hleft₁]; rfl)] at hfinish
  refine ⟨_, hl₂.step (Link.Step.handleAck hsent₂ (E2EAck.toPayload_eq_ok.mp hack).1
    hfinish), ?_⟩
  intro side
  cases side with
  | left => rw [Link.put_session_self]
  | right => exact hright₂

/-- Two established sessions are at one number, time and key, and each
decrypts what the other encrypts. -/
theorem established_agree {P : Primitives} (hcomm : P.DHCommutes)
    (hopens : P.GcmOpensSealed) {l : Link} (hreach : Reachable (Link.system P) l)
    (hestablished : ∀ side, (l.session side).sessState = .established) (side : Side) :
    (l.session side).sequenceNo = (l.session side.other).sequenceNo ∧
      (l.session side).sessTimestamp = (l.session side.other).sessTimestamp ∧
      (l.session side).mCrypto.mKey = (l.session side.other).mCrypto.mKey ∧
      ∀ nonce text pl, (l.session side).encrypt P nonce text = .ok pl →
        ∀ stack, (l.session side.other).decrypt P pl stack = .ok text := by
  obtain ⟨s, hs, habs⟩ := exists_abstract hreach
  have hphase : ∀ x, (s.party x).phase = .agreed (l.session x).mCrypto.mKey := by
    intro x
    rw [habs.party x]
    exact E2ESession.phase_of_established (hestablished x)
  obtain ⟨hseq, hstamp, hkey⟩ := (Rekey.reachable_inv hs).agreement
    (P.agreedKey_comm hcomm) (hphase .left) (hphase .right)
  rw [habs.party, habs.party] at hseq hstamp
  have hseq' := UInt32.toNat_inj.mp hseq
  have hstamp' := UInt64.toNat_inj.mp hstamp
  have hboth : (l.session side).sequenceNo = (l.session side.other).sequenceNo ∧
      (l.session side).sessTimestamp = (l.session side.other).sessTimestamp ∧
      (l.session side).mCrypto.mKey = (l.session side.other).mCrypto.mKey := by
    cases side with
    | left => exact ⟨hseq', hstamp', hkey⟩
    | right => exact ⟨hseq'.symm, hstamp'.symm, hkey.symm⟩
  obtain ⟨hseq, hstamp, hkey⟩ := hboth
  refine ⟨hseq, hstamp, hkey, ?_⟩
  intro nonce text pl hpl stack
  exact E2ESession.decrypt_encrypt P hopens (hestablished side)
    (hestablished side.other) ((habs.crypto side.other).mpr (hestablished side.other))
    hseq hkey hpl stack

theorem established_agree_clear :
    ∃ (l : Link) (pl : Payload), (∀ side, (l.session side).sessState = .established) ∧
      (l.session .left).sequenceNo = (l.session .right).sequenceNo ∧
      (l.session .left).sessTimestamp = (l.session .right).sessTimestamp ∧
      (l.session .left).mCrypto.mKey = (l.session .right).mCrypto.mKey ∧
      (l.session .left).encrypt .clear (Block.zero 12) ⟨[104, 105], by decide⟩ = .ok pl ∧
      pl.type = .e2eMsg ∧
      ∀ stack, (l.session .right).decrypt .clear pl stack = .ok ⟨[104, 105], by decide⟩ := by
  obtain ⟨l, hreach, hestablished⟩ := exists_established .clear
  obtain ⟨s, _, habs⟩ := exists_abstract hreach
  have hsealed : ((Primitives.clear.gcmSeal (l.session .left).mCrypto.mKey (Block.zero 12)
      ⟨[104, 105], by decide⟩).1.1.length + 40 ≤ maxSize) := by
    rw [Primitives.clear_gcmSeal]
    decide
  obtain ⟨pl, hpl⟩ := E2ESession.encrypt_ok .clear (habs.crypto .left).mpr (by decide) hsealed
  have htype : pl.type = .e2eMsg := by
    obtain ⟨eData, _, hdata⟩ := E2ESession.encrypt_eq_ok .clear (hestablished .left) hpl
    exact (E2EMsg.toPayload_eq_ok.mp hdata).1
  obtain ⟨hseq, hstamp, hkey, htext⟩ := established_agree Primitives.clear_dhCommutes
    Primitives.clear_gcmOpensSealed hreach hestablished .left
  exact ⟨l, pl, hestablished, hseq, hstamp, hkey, hpl, htype, htext _ _ pl hpl⟩

end LeakyChat

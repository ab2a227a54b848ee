/-
What the certificate authentication of a client is worth.  The network delivers
what it likes and any holder of a private key signs what it likes; a history
keeps the challenges drawn and the signatures made, in their order.
-/
import LeakyChat.HandshakeAgreement

namespace LeakyChat

open Transition

/-- Who holds which private key: the holder of the key a certificate is for, the
holder of the key file of the servers, and which holders are on the attacker's
side. -/
structure KeyHolders (Cert Holder : Type) where
  holder : Cert → Holder
  server : Holder
  attacker : Holder → Prop

inductive Event (Cert Holder : Type) where
  /-- The call of client `i` has been presented a certificate and drawn its challenge. -/
  | drew (i : Nat) (certificate : Cert) (challenge : Str)
  | signed (holder : Holder) (data : Str)
  /-- `performClientCertificateAuthentication` of client `i` has returned 0. -/
  | authenticated (i : Nat)

/-- The bytes an event shows. -/
def Event.data {Cert Holder : Type} : Event Cert Holder → Option Str
  | .drew _ _ challenge => some challenge
  | .signed _ data => some data
  | .authenticated _ => none

namespace ClientHandshake

variable {Cert Holder : Type}

/-- What `performClientCertificateAuthentication` returns, given what it has got
for the signature. -/
def authenticationResult (A : Authority Cert) (env : HandshakeEnv) (certificate : Cert)
    (challenge : Str) (bytes : List UInt8) : Int :=
  match extractVector bytes env.stack with
  | .error _ => -1
  | .ok signature => if A.verifySignature certificate challenge signature then 0 else -1

/-- The certificate that is read from the bytes. -/
def presented (A : Authority Cert) (env : HandshakeEnv) (bytes : List UInt8) : Option Cert :=
  match extractVector bytes env.stack with
  | .error _ => none
  | .ok certificateBytes => A.parse certificateBytes

/-- What a `recv` of client `i` adds to the history. -/
def events (A : Authority Cert) (env : HandshakeEnv) (i : Nat) (h : ClientHandshake Cert)
    (recv : Recv) : List (Event Cert Holder) :=
  match h.phase, recv with
  | .waiting .certificate, .chunk bytes =>
      (presented A env bytes.1).elim [] fun certificate =>
        ((h.checkCertificate A env bytes.1).challenge.map (.drew i certificate)).toList
  | .waiting (.signature certificate challenge), .chunk bytes =>
      if authenticationResult A env certificate challenge bytes.1 = 0 then
        [.authenticated i]
      else []
  | _, _ => []

/-- What a `recv` can do to a client.  Where the phase is left open, the client
may also have failed. -/
inductive Turn (P : Primitives) (A : Authority Cert) (env : HandshakeEnv) (i : Nat)
    (h : ClientHandshake Cert) (recv : Recv) :
    List (Event Cert Holder) → ClientHandshake Cert → Prop
  | ends (phase : Phase (ClientWaiting Cert)) (hends : ∀ w, phase ≠ .waiting w) :
      Turn P A env i h recv [] { h with phase := phase }
  | certificate (certificate : Cert) (random : Block 32)
      (hwaits : h.phase = .waiting .certificate)
      (hverify : A.verify certificate h.mHost = true) (phase : Phase (ClientWaiting Cert))
      (hphase : ∀ w, phase = .waiting w →
        w = .signature certificate (challengeOf random)) :
      Turn P A env i h recv [.drew i certificate (challengeOf random)]
        { h with
          challenge := some (challengeOf random)
          sent := h.sent ++ [strBytes (challengeOf random)]
          phase := phase }
  | signature (certificate : Cert) (challenge : Str) (bytes : Chunk) (signature : Str)
      (hwaits : h.phase = .waiting (.signature certificate challenge))
      (hrecv : recv = .chunk bytes)
      (hextract : extractVector bytes.1 env.stack = .ok signature)
      (hverify : A.verifySignature certificate challenge signature = true)
      (phase : Phase (ClientWaiting Cert)) (hphase : ∀ w, phase = .waiting w → w = .publicKey) :
      Turn P A env i h recv [.authenticated i]
        { (h.makeCrypto env.exponent).send (P.publicKey env.exponent).1 with phase := phase }
  | publicKey (hwaits : h.phase = .waiting .publicKey) (handler : NetworkHandler)
      (peerPublicKey : Option Str) (phase : Phase (ClientWaiting Cert))
      (hends : ∀ w, phase ≠ .waiting w) :
      Turn P A env i h recv []
        { h with handler := handler, peerPublicKey := peerPublicKey, phase := phase }

variable {P : Primitives} {A : Authority Cert} {env : HandshakeEnv} {i : Nat}
  {h : ClientHandshake Cert} {recv : Recv}

theorem turn_fail {events : List (Event Cert Holder)} (hevents : events = []) :
    Turn P A env i h recv events h.fail := by
  rw [hevents]
  exact Turn.ends _ (by rintro w ⟨⟩)

theorem turn_stop {events : List (Event Cert Holder)} (hevents : events = []) :
    Turn P A env i h recv events h.stop := by
  rw [hevents]
  exact Turn.ends _ (by rintro w ⟨⟩)

theorem turn_checkCertificate (hwaits : h.phase = .waiting .certificate)
    (hnone : h.challenge = none) (bytes : List UInt8) :
    Turn P A env i h recv
      ((presented A env bytes).elim [] fun certificate =>
        ((h.checkCertificate A env bytes).challenge.map
          (@Event.drew Cert Holder i certificate)).toList)
      (h.checkCertificate A env bytes) := by
  rcases checkCertificate_cases A env h bytes with
    hfails | ⟨certificateBytes, certificate, random, hextract, hparse, hverify, hdraws⟩
  · rw [hfails]
    refine turn_fail ?_
    cases presented A env bytes with
    | none => rfl
    | some certificate =>
        rw [Option.elim_some, show h.fail.challenge = none from hnone]
        rfl
  have hpresented : presented A env bytes = some certificate := by
    simp only [presented, hextract, hparse]
  rw [hpresented, Option.elim_some]
  rcases hdraws with hfails | hawaits
  · rw [hfails]
    exact Turn.certificate certificate random hwaits hverify _ (by rintro w ⟨⟩)
  · rw [hawaits]
    exact Turn.certificate certificate random hwaits hverify _ (by rintro w ⟨⟩; rfl)

theorem turn_checkSignature {certificate : Cert} {challenge : Str} {bytes : Chunk}
    (hwaits : h.phase = .waiting (.signature certificate challenge))
    (hrecv : recv = .chunk bytes) :
    Turn P A env i h recv
      (if authenticationResult A env certificate challenge bytes.1 = 0 then
        [(.authenticated i : Event Cert Holder)]
      else [])
      (h.checkSignature P A env certificate challenge bytes.1) := by
  rcases checkSignature_cases P A env h certificate challenge bytes.1 with
    ⟨hfails, hrefused⟩ | ⟨signature, hextract, hverify, hafter⟩
  · have hresult : authenticationResult A env certificate challenge bytes.1 = -1 := by
      unfold authenticationResult
      cases hextract : extractVector bytes.1 env.stack with
      | error fault => rfl
      | ok signature => simp only [hrefused signature hextract, Bool.false_eq_true, if_false]
    rw [hfails, hresult]
    exact turn_fail rfl
  · have hresult : authenticationResult A env certificate challenge bytes.1 = 0 := by
      simp only [authenticationResult, hextract, hverify, if_true]
    rw [hresult]
    rcases hafter with hfails | hawaits
    · rw [hfails]
      exact Turn.signature certificate challenge bytes signature hwaits hrecv hextract
        hverify _ (by rintro w ⟨⟩)
    · rw [hawaits]
      exact Turn.signature certificate challenge bytes signature hwaits hrecv hextract
        hverify _ (by rintro w ⟨⟩; rfl)

theorem turn_receivePublicKey (hwaits : h.phase = .waiting .publicKey) (bytes : List UInt8) :
    Turn P A env i h recv ([] : List (Event Cert Holder)) (h.receivePublicKey P bytes) := by
  rcases receivePublicKey_cases P h bytes with hfails | ⟨peerPublicKey, hestablishes⟩
  · rw [hfails]
    exact turn_fail rfl
  · rw [hestablishes]
    rcases h.establish_cases P peerPublicKey.toStr with hstops | ⟨session, _, hestablish⟩
    · rw [hstops]
      exact turn_stop rfl
    · rw [hestablish]
      exact Turn.publicKey hwaits _ _ _ (by rintro w ⟨⟩)

theorem receive_turn (hnone : h.phase = .waiting .certificate → h.challenge = none) :
    Turn P A env i h recv (h.events A env i recv : List (Event Cert Holder))
      (h.receive P A env recv) := by
  unfold receive events
  cases hwaits : h.phase with
  | waiting w =>
      cases recv with
      | idle =>
          cases w with
          | certificate => exact turn_stop rfl
          | signature certificate challenge => exact turn_fail rfl
          | publicKey => exact turn_fail rfl
      | closed =>
          cases w with
          | certificate => exact turn_stop rfl
          | signature certificate challenge => exact turn_fail rfl
          | publicKey => exact turn_fail rfl
      | chunk bytes =>
          cases w with
          | certificate => exact turn_checkCertificate hwaits (hnone hwaits) bytes.1
          | signature certificate challenge => exact turn_checkSignature hwaits rfl
          | publicKey => exact turn_receivePublicKey hwaits bytes.1
  | returned result =>
      have hself : Turn P A env i h recv ([] : List (Event Cert Holder))
          { h with phase := h.phase } :=
        Turn.ends h.phase (by rw [hwaits]; rintro w ⟨⟩)
      exact hself
  | stopped =>
      have hself : Turn P A env i h recv ([] : List (Event Cert Holder))
          { h with phase := h.phase } :=
        Turn.ends h.phase (by rw [hwaits]; rintro w ⟨⟩)
      exact hself

end ClientHandshake

/-- What a `recv` of a server adds to the history. -/
def ServerHandshake.events {Cert Holder : Type} (K : KeyHolders Cert Holder)
    (before after : ServerHandshake) : List (Event Cert Holder) :=
  if before.challenge = after.challenge then []
  else (after.challenge.map (.signed K.server)).toList

/-- Every handshake so far, and what has been drawn and signed. -/
structure Authentications (Cert Holder : Type) where
  clients : List (ClientHandshake Cert)
  servers : List ServerHandshake
  history : List (Event Cert Holder)

namespace Authentications

variable {Cert Holder : Type} (P : Primitives) (A : Authority Cert)
  (K : KeyHolders Cert Holder)

def empty : Authentications Cert Holder := ⟨[], [], []⟩

/-- A challenge is drawn once, and nobody has used its bytes before. -/
def Fresh (history new : List (Event Cert Holder)) : Prop :=
  ∀ i certificate challenge, .drew i certificate challenge ∈ new →
    ∀ event ∈ history, event.data ≠ some challenge

/-- What verifies as the signature of a challenge comes from the attacker, who
then holds the key, or from a holder that has signed the challenge. -/
def Unforged (history : List (Event Cert Holder)) (env : HandshakeEnv) (recv : Recv)
    (h : ClientHandshake Cert) : Prop :=
  ∀ certificate challenge bytes signature,
    h.phase = .waiting (.signature certificate challenge) → recv = .chunk bytes →
    extractVector bytes.1 env.stack = .ok signature →
    A.verifySignature certificate challenge signature = true →
    K.attacker (K.holder certificate) ∨ .signed (K.holder certificate) challenge ∈ history

inductive Label (Holder : Type) where
  | startClient (handler : NetworkHandler) (mHost : Str)
  | startServer (env : HandshakeEnv) (handler : NetworkHandler) (mHost : Str)
  | client (i : Nat) (env : HandshakeEnv) (recv : Recv)
  | server (i : Nat) (env : HandshakeEnv) (recv : Recv)
  | sign (holder : Holder) (data : Str)

inductive Step : Authentications Cert Holder → Label Holder → Authentications Cert Holder → Prop
  | startClient {s : Authentications Cert Holder} (handler : NetworkHandler) (mHost : Str) :
      Step s (.startClient handler mHost)
        { s with clients := s.clients ++ [ClientHandshake.start handler mHost] }
  | startServer {s : Authentications Cert Holder} (env : HandshakeEnv) (handler : NetworkHandler)
      (mHost : Str) :
      Step s (.startServer env handler mHost)
        { s with servers := s.servers ++ [ServerHandshake.start A env handler mHost] }
  | client {s : Authentications Cert Holder} (i : Nat) (env : HandshakeEnv) (recv : Recv)
      {h : ClientHandshake Cert} (hget : s.clients[i]? = some h)
      (hfresh : Fresh s.history (h.events A env i recv))
      (hunforged : Unforged A K s.history env recv h) :
      Step s (.client i env recv)
        { s with
          clients := s.clients.set i (h.receive P A env recv)
          history := s.history ++ h.events A env i recv }
  | server {s : Authentications Cert Holder} (i : Nat) (env : HandshakeEnv) (recv : Recv)
      {h : ServerHandshake} (hget : s.servers[i]? = some h) :
      Step s (.server i env recv)
        { s with
          servers := s.servers.set i (h.receive P A env recv)
          history := s.history ++ ServerHandshake.events K h (h.receive P A env recv) }
  | sign {s : Authentications Cert Holder} (holder : Holder) (data : Str) :
      Step s (.sign holder data) { s with history := s.history ++ [.signed holder data] }

def system : System (Authentications Cert Holder) (Label Holder) where
  init s := s = empty
  step := Step P A K

/-- The attacker holds the private key of no certificate that verifies for the
host. -/
def Outside (mHost : Str) : Prop :=
  ∀ certificate, A.verify certificate mHost = true → ¬ K.attacker (K.holder certificate)

/-- The call of client `i` has been presented the certificate and has drawn the
challenge, which nobody has signed before. -/
def Drawn (history : List (Event Cert Holder)) (i : Nat) (certificate : Cert) (challenge : Str) :
    Prop :=
  ∃ random before after, challenge = challengeOf random ∧
    history = before ++ .drew i certificate challenge :: after ∧
    ∀ holder, .signed holder challenge ∉ before

/-- The certificate presented in the call of client `i` is one for the host, and the
holder of its key has signed the 32 bytes that this call has drawn, after they were
drawn. -/
def Attested (history : List (Event Cert Holder)) (i : Nat) (h : ClientHandshake Cert) : Prop :=
  ∃ certificate random before after, A.verify certificate h.mHost = true ∧
    h.challenge = some (challengeOf random) ∧
    history = before ++ .drew i certificate (challengeOf random) :: after ∧
    .signed (K.holder certificate) (challengeOf random) ∈ after

/-- The authentication of client `i` has returned 0, or the client has gone on
as if it had. -/
def Passed (history : List (Event Cert Holder)) (i : Nat) (h : ClientHandshake Cert) : Prop :=
  .authenticated i ∈ history ∨ h.phase = .waiting .publicKey ∨
    (∃ publicKey : PublicKey, publicKey.1 ∈ h.sent) ∨ h.handler.mCryptoState = .established

/-- The invariant of client `i`. -/
structure Authentic (history : List (Event Cert Holder)) (i : Nat) (h : ClientHandshake Cert) :
    Prop where
  certificate : h.phase = .waiting .certificate → h.challenge = none
  signature : ∀ certificate challenge, h.phase = .waiting (.signature certificate challenge) →
    A.verify certificate h.mHost = true ∧ h.challenge = some challenge ∧
      Drawn history i certificate challenge
  attested : Outside A K h.mHost → Passed history i h → Attested A K history i h

variable {P A K} {history new : List (Event Cert Holder)} {i : Nat} {h h' : ClientHandshake Cert}
  {env : HandshakeEnv} {recv : Recv}

theorem Drawn.append {certificate : Cert} {challenge : Str}
    (hdrawn : Drawn history i certificate challenge) (new : List (Event Cert Holder)) :
    Drawn (history ++ new) i certificate challenge := by
  obtain ⟨random, before, after, hchallenge, hhistory, hunsigned⟩ := hdrawn
  refine ⟨random, before, after ++ new, hchallenge, ?_, hunsigned⟩
  rw [hhistory, List.append_assoc, List.cons_append]

theorem Attested.append (hattested : Attested A K history i h) (new : List (Event Cert Holder)) :
    Attested A K (history ++ new) i h := by
  obtain ⟨certificate, random, before, after, hverify, hchallenge, hhistory, hsigned⟩ := hattested
  refine ⟨certificate, random, before, after ++ new, hverify, hchallenge, ?_,
    List.mem_append_left _ hsigned⟩
  rw [hhistory, List.append_assoc, List.cons_append]

/-- Whoever has signed a drawn challenge has done so after it was drawn. -/
theorem Drawn.attested {certificate : Cert} {challenge : Str}
    (hdrawn : Drawn history i certificate challenge) (hchallenge : h.challenge = some challenge)
    (hverify : A.verify certificate h.mHost = true)
    (hsigned : .signed (K.holder certificate) challenge ∈ history) :
    Attested A K history i h := by
  obtain ⟨random, before, after, hrandom, hhistory, hunsigned⟩ := hdrawn
  subst hrandom
  refine ⟨certificate, random, before, after, hverify, hchallenge, hhistory, ?_⟩
  rw [hhistory] at hsigned
  rcases List.mem_append.mp hsigned with hbefore | hafter
  · exact (hunsigned _ hbefore).elim
  · cases hafter with
    | tail _ hafter => exact hafter

/-- A challenge that has just been drawn has not been signed. -/
theorem Fresh.drawn {certificate : Cert} {random : Block 32}
    (hfresh : Fresh history
      [(.drew i certificate (challengeOf random) : Event Cert Holder)]) :
    Drawn (history ++ [.drew i certificate (challengeOf random)]) i certificate
      (challengeOf random) := by
  refine ⟨random, history, [], rfl, rfl, ?_⟩
  intro holder hsigned
  exact hfresh i _ _ (List.mem_singleton_self _) _ hsigned rfl

theorem passed_append (hother : .authenticated i ∉ new) :
    Passed (history ++ new) i h ↔ Passed history i h := by
  simp only [Passed, List.mem_append, hother, or_false]

theorem Authentic.append (hauthentic : Authentic A K history i h)
    (hother : .authenticated i ∉ new) : Authentic A K (history ++ new) i h where
  certificate := hauthentic.certificate
  signature certificate challenge hphase := by
    obtain ⟨hverify, hchallenge, hdrawn⟩ := hauthentic.signature certificate challenge hphase
    exact ⟨hverify, hchallenge, hdrawn.append new⟩
  attested houtside hpassed :=
    (hauthentic.attested houtside ((passed_append hother).mp hpassed)).append new

theorem authentic_start (handler : NetworkHandler) (mHost : Str)
    (hnew : .authenticated i ∉ history) :
    Authentic A K history i (ClientHandshake.start handler mHost) where
  certificate _ := rfl
  signature certificate challenge hphase := by cases hphase
  attested houtside hpassed := by
    rcases hpassed with hmem | hphase | ⟨publicKey, hsent⟩ | hstate
    · exact (hnew hmem).elim
    · cases hphase
    · cases hsent
    · cases hstate

/-- A public key is not the record of a challenge. -/
theorem publicKey_ne_challenge (publicKey : PublicKey) (random : Block 32) :
    publicKey.1 ≠ strBytes (challengeOf random) := by
  intro heq
  have hlength := congrArg List.length heq
  rw [publicKey.2, challengeOf_length] at hlength
  cases hlength

/-- A call that draws a challenge and hands it to `send` has passed nothing by it. -/
theorem passed_of_certificate {certificate : Cert} {random : Block 32}
    {phase : Phase (ClientWaiting Cert)}
    (hphase : ∀ w, phase = .waiting w → w = .signature certificate (challengeOf random))
    (hpassed : Passed (history ++ [.drew i certificate (challengeOf random)]) i
      { h with
        challenge := some (challengeOf random)
        sent := h.sent ++ [strBytes (challengeOf random)]
        phase := phase }) :
    Passed history i h := by
  rcases (passed_append (by simp)).mp hpassed with hmem | hwaits | ⟨key, hsent⟩ | hstate
  · exact Or.inl hmem
  · cases hphase _ hwaits
  · rcases List.mem_append.mp hsent with hold | hnew
    · exact Or.inr (Or.inr (Or.inl ⟨key, hold⟩))
    · exact (publicKey_ne_challenge key random (List.mem_singleton.mp hnew)).elim
  · exact Or.inr (Or.inr (Or.inr hstate))

/-- Before a challenge is drawn nothing has passed, unless the attacker holds a key. -/
theorem Authentic.not_passed (hauthentic : Authentic A K history i h)
    (hwaits : h.phase = .waiting .certificate) (houtside : Outside A K h.mHost) :
    ¬ Passed history i h := by
  intro hpassed
  obtain ⟨_, _, _, _, _, hchallenge, _⟩ := hauthentic.attested houtside hpassed
  rw [hauthentic.certificate hwaits] at hchallenge
  cases hchallenge

/-- What one `recv` of a client preserves. -/
theorem Authentic.turn (hauthentic : Authentic A K history i h) (hfresh : Fresh history new)
    (hunforged : Unforged A K history env recv h)
    (hturn : ClientHandshake.Turn P A env i h recv new h') :
    Authentic A K (history ++ new) i h' := by
  cases hturn with
  | ends phase hends =>
      rw [List.append_nil]
      refine ⟨fun hphase => (hends _ hphase).elim,
        fun certificate challenge hphase => (hends _ hphase).elim, ?_⟩
      intro houtside hpassed
      refine hauthentic.attested houtside ?_
      rcases hpassed with hmem | hphase | hrest
      · exact Or.inl hmem
      · exact (hends _ hphase).elim
      · exact Or.inr (Or.inr hrest)
  | certificate certificate random hwaits hverify phase hphase =>
      refine ⟨fun hwaits => ?_, fun certificate challenge hwaits => ?_, ?_⟩
      · cases hphase _ hwaits
      · cases hphase _ hwaits
        exact ⟨hverify, rfl, hfresh.drawn⟩
      · intro houtside hpassed
        exact absurd (passed_of_certificate hphase hpassed)
          (hauthentic.not_passed hwaits houtside)
  | signature certificate challenge bytes signature hwaits hrecv hextract hsignature phase hphase =>
      obtain ⟨hverify, hchallenge, hdrawn⟩ :=
        hauthentic.signature certificate challenge hwaits
      refine ⟨fun hwaits => ?_, fun certificate challenge hwaits => ?_, ?_⟩
      · cases hphase _ hwaits
      · cases hphase _ hwaits
      · intro houtside _
        have hsigned : .signed (K.holder certificate) challenge ∈ history := by
          rcases hunforged certificate challenge bytes signature hwaits hrecv hextract
            hsignature with hattacker | hsigned
          · exact (houtside certificate hverify hattacker).elim
          · exact hsigned
        exact (hdrawn.attested hchallenge hverify hsigned).append _
  | publicKey hwaits handler peerPublicKey phase hends =>
      rw [List.append_nil]
      refine ⟨fun hphase => (hends _ hphase).elim,
        fun certificate challenge hphase => (hends _ hphase).elim, ?_⟩
      intro houtside _
      exact hauthentic.attested houtside (Or.inr (Or.inl hwaits))

/-- A `recv` of a client lets no other client's authentication return. -/
theorem authenticated_of_turn {j : Nat} (hturn : ClientHandshake.Turn P A env i h recv new h')
    (hmem : .authenticated j ∈ new) : j = i := by
  cases hturn with
  | ends => cases hmem
  | certificate => cases List.mem_singleton.mp hmem
  | signature => exact Event.authenticated.inj (List.mem_singleton.mp hmem)
  | publicKey => cases hmem

theorem authenticated_notMem_server {before after : ServerHandshake} :
    .authenticated i ∉ (ServerHandshake.events K before after : List (Event Cert Holder)) := by
  unfold ServerHandshake.events
  intro hmem
  split at hmem
  · cases hmem
  · rw [Option.mem_toList, Option.map_eq_some_iff] at hmem
    obtain ⟨challenge, _, hevent⟩ := hmem
    cases hevent

variable (A K) in
structure Good (s : Authentications Cert Holder) : Prop where
  clients : ∀ i h, s.clients[i]? = some h → Authentic A K s.history i h
  authenticated : ∀ i, .authenticated i ∈ s.history → i < s.clients.length

theorem Good.append {s : Authentications Cert Holder} (hgood : Good A K s)
    (servers : List ServerHandshake) (hnew : ∀ i, .authenticated i ∉ new) :
    Good A K ⟨s.clients, servers, s.history ++ new⟩ where
  clients i h hget := (hgood.clients i h hget).append (hnew i)
  authenticated i hmem := by
    rcases List.mem_append.mp hmem with hold | hadded
    · exact hgood.authenticated i hold
    · exact (hnew i hadded).elim

theorem good_startClient {s : Authentications Cert Holder} (hgood : Good A K s)
    (handler : NetworkHandler) (mHost : Str) :
    Good A K { s with clients := s.clients ++ [ClientHandshake.start handler mHost] } where
  clients i h hget := by
    by_cases hold : i < s.clients.length
    · rw [List.getElem?_append_left hold] at hget
      exact hgood.clients i h hget
    · rw [List.getElem?_append_right (Nat.le_of_not_lt hold)] at hget
      rw [List.mem_singleton.mp (List.mem_of_getElem? hget)]
      exact authentic_start handler mHost (fun hmem => hold (hgood.authenticated i hmem))
  authenticated i hmem := by
    rw [List.length_append]
    exact Nat.lt_add_right 1 (hgood.authenticated i hmem)

theorem good_client {s : Authentications Cert Holder} (hgood : Good A K s)
    (hget : s.clients[i]? = some h) (hfresh : Fresh s.history (h.events A env i recv))
    (hunforged : Unforged A K s.history env recv h) :
    Good A K
      { s with
        clients := s.clients.set i (h.receive P A env recv)
        history := s.history ++ h.events A env i recv } := by
  have hauthentic := hgood.clients i h hget
  have hlt : i < s.clients.length := (List.getElem?_eq_some_iff.mp hget).1
  have hturn : ClientHandshake.Turn P A env i h recv
      (h.events A env i recv : List (Event Cert Holder)) (h.receive P A env recv) :=
    ClientHandshake.receive_turn hauthentic.certificate
  refine ⟨fun j k hgetj => ?_, fun j hmem => ?_⟩
  · by_cases hij : i = j
    · subst hij
      rw [List.getElem?_set_self hlt, Option.some.injEq] at hgetj
      subst hgetj
      exact hauthentic.turn hfresh hunforged hturn
    · rw [List.getElem?_set_ne hij] at hgetj
      exact (hgood.clients j k hgetj).append
        (fun hmem => hij (authenticated_of_turn hturn hmem).symm)
  · rw [List.length_set]
    rcases List.mem_append.mp hmem with hold | hnew
    · exact hgood.authenticated j hold
    · rw [authenticated_of_turn hturn hnew]
      exact hlt

theorem good_step {s t : Authentications Cert Holder} {label : Label Holder}
    (hgood : Good A K s) (hstep : Step P A K s label t) : Good A K t := by
  cases hstep with
  | startClient handler mHost => exact good_startClient hgood handler mHost
  | startServer => exact ⟨hgood.clients, hgood.authenticated⟩
  | client i env recv hget hfresh hunforged => exact good_client hgood hget hfresh hunforged
  | server => exact hgood.append _ fun _ => authenticated_notMem_server
  | sign holder data =>
      apply hgood.append
      intro i hmem
      cases List.mem_singleton.mp hmem

theorem good_of_reachable {s : Authentications Cert Holder}
    (hreach : Reachable (system P A K) s) : Good A K s := by
  apply hreach.invariant
  · rintro s rfl
    refine ⟨fun i h hget => ?_, fun i hmem => ?_⟩
    · cases hget
    · cases hmem
  · intro s label t hgood hstep
    exact good_step hgood hstep

section

variable {mHost : Str} {random : Block 32} (cred : Credentials A mHost random)

theorem events_certificate (handler : NetworkHandler) :
    (ClientHandshake.start handler mHost).events A (Network.undisturbed random 0 40) i
        (.chunk (vectorChunk cred.certificateBytes cred.certificate_fits)) =
      [(.drew i cred.certificate (challengeOf random) : Event Cert Holder)] := by
  have hreceived : (ClientHandshake.checkCertificate A (Network.undisturbed random 0 40)
      (ClientHandshake.start handler mHost) (strBytes cred.certificateBytes)).challenge =
      some (challengeOf random) := by
    rw [ClientHandshake.checkCertificate_eq cred.parses cred.verifies rfl
      (Int.natCast_nonneg 40)]
    rfl
  have hpresented : ClientHandshake.presented A (Network.undisturbed random 0 40)
      (strBytes cred.certificateBytes) = some cred.certificate := by
    simp only [ClientHandshake.presented, extractVector_strBytes, cred.parses]
  change (ClientHandshake.presented A _ (strBytes cred.certificateBytes)).elim [] _ = _
  rw [hpresented, Option.elim_some]
  exact congrArg (fun c : Option Str => (c.map (Event.drew i cred.certificate)).toList) hreceived

theorem events_signature (handler : NetworkHandler) (env : HandshakeEnv) :
    (Network.clientChallenging cred handler).events A env i
        (.chunk (vectorChunk cred.signature cred.signature_fits)) =
      [(.authenticated i : Event Cert Holder)] := by
  have hresult : ClientHandshake.authenticationResult A env cred.certificate
      (challengeOf random) (strBytes cred.signature) = 0 := by
    rw [ClientHandshake.authenticationResult, extractVector_strBytes]
    simp only [cred.verifiesSignature, ↓reduceIte]
  exact if_pos hresult

/-- The authentication of a client by a server that holds the key of its
certificate can return 0. -/
theorem reachable_authenticated (hholder : K.holder cred.certificate = K.server)
    (client server : NetworkHandler) (peer : Str) (a b : Nat) :
    Reachable (system P A K)
      ⟨[Network.clientKeyed P client mHost random a], [Network.serverKeyed cred server peer b],
        [.drew 0 cred.certificate (challengeOf random), .signed K.server (challengeOf random),
          .authenticated 0]⟩ := by
  have hfits : (strBytes (challengeOf random)).length ≤ recvBufferSize := by
    rw [challengeOf_length]
    decide
  have hstarted : Reachable (system P A K)
      ⟨[ClientHandshake.start client mHost], [Network.serverCertified cred server peer], []⟩ := by
    have hserver : Reachable (system P A K)
        ⟨[], [ServerHandshake.start A (Network.undisturbed random 0 0) server peer], []⟩ := by
      have hstep := Step.startServer (P := P) (A := A) (K := K) (s := empty)
        (Network.undisturbed random 0 0) server peer
      exact (Reachable.of_init rfl).step hstep
    rw [Network.start_server cred] at hserver
    exact hserver.step (Step.startClient client mHost)
  have hdrawn : Reachable (system P A K)
      ⟨[Network.clientChallenging cred client], [Network.serverCertified cred server peer],
        [.drew 0 cred.certificate (challengeOf random)]⟩ := by
    have hstep := Step.client (P := P) (A := A) (K := K) 0 (Network.undisturbed random 0 40)
      (.chunk (vectorChunk cred.certificateBytes cred.certificate_fits))
      (s := ⟨[ClientHandshake.start client mHost],
        [Network.serverCertified cred server peer], []⟩) rfl
      (fun i certificate challenge _ event hevent => by cases hevent)
      (fun certificate challenge bytes signature hphase => by cases hphase)
    rw [events_certificate cred, Network.receive_certificate cred] at hstep
    exact hstarted.step hstep
  have hsigned : Reachable (system P A K)
      ⟨[Network.clientChallenging cred client], [Network.serverKeyed cred server peer b],
        [.drew 0 cred.certificate (challengeOf random),
          .signed K.server (challengeOf random)]⟩ := by
    have hstep := Step.server (P := P) (A := A) (K := K) 0
      (Network.undisturbed random b (strBytes cred.signature).length)
      (.chunk (vectorChunk (challengeOf random) hfits))
      (s := ⟨[Network.clientChallenging cred client],
        [Network.serverCertified cred server peer],
        [.drew 0 cred.certificate (challengeOf random)]⟩) rfl
    rw [Network.receive_challenge cred server peer b hfits] at hstep
    exact hdrawn.step hstep
  have hstep := Step.client (P := P) (A := A) (K := K) 0 (Network.undisturbed random a 256)
    (.chunk (vectorChunk cred.signature cred.signature_fits))
    (s := ⟨[Network.clientChallenging cred client], [Network.serverKeyed cred server peer b],
      [.drew 0 cred.certificate (challengeOf random), .signed K.server (challengeOf random)]⟩) rfl
    (fun i certificate challenge hdrew => by
      rw [events_signature cred] at hdrew
      cases List.mem_singleton.mp hdrew)
    (fun certificate challenge bytes signature hphase _ _ _ => by
      cases hphase
      rw [hholder]
      exact Or.inr (List.mem_cons_of_mem _ (List.mem_singleton_self _)))
  rw [events_signature cred, Network.receive_signature cred] at hstep
  exact hsigned.step hstep

end

/-- Whatever the network delivers, a client whose authentication has returned 0,
that has handed a public key to `send` or has an established session has had the
challenge of this very call signed, after it was drawn, by the holder of the key
of the certificate presented in the call, which verifies for its host. -/
theorem authenticated_attested {s : Authentications Cert Holder}
    (hreach : Reachable (system P A K) s) {i : Nat} {client : ClientHandshake Cert}
    (hget : s.clients[i]? = some client) (houtside : Outside A K client.mHost)
    (hpassed : .authenticated i ∈ s.history ∨
      (∃ publicKey : PublicKey, publicKey.1 ∈ client.sent) ∨
      client.handler.mCryptoState = .established) :
    Attested A K s.history i client := by
  apply ((good_of_reachable hreach).clients i client hget).attested houtside
  rcases hpassed with hmem | hsent | hstate
  · exact Or.inl hmem
  · exact Or.inr (Or.inr (Or.inl hsent))
  · exact Or.inr (Or.inr (Or.inr hstate))

/-- The server holds the key of its certificate, the attacker all others. -/
def sampleHolders : KeyHolders Str Bool where
  holder certificate := decide (certificate = Network.sampleCertificate)
  server := true
  attacker holder := holder = false

theorem authenticated_attested_sample :
    Attested Network.sampleAuthority sampleHolders
      [.drew 0 Network.sampleCertificate (challengeOf (Block.zero 32)),
        .signed true (challengeOf (Block.zero 32)), .authenticated 0]
      0 (Network.clientKeyed .clear Network.sampleHandler .empty (Block.zero 32) 2) := by
  apply authenticated_attested
    (reachable_authenticated (P := .clear) (K := sampleHolders) Network.sampleCredentials rfl
      Network.sampleHandler Network.sampleHandler .empty 2 3) rfl
  · intro certificate hverify hattacker
    have hsame : certificate = Network.sampleCertificate := of_decide_eq_true hverify
    subst hsame
    cases hattacker
  · exact Or.inl (List.mem_cons_of_mem _ (List.mem_cons_of_mem _ (List.mem_singleton_self _)))

end Authentications

end LeakyChat

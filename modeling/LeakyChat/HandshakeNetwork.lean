/-
Handshakes of any number of clients and servers over a network that delivers
what it likes, and the invariant they keep.
-/
import LeakyChat.Handshake
import LeakyChat.Library.Transition

namespace LeakyChat

open Transition

namespace Handshake

variable {Waiting : Type} (P : Primitives)

/-- A handshake that has ended well: the key comes from the own exponent and the
public key received, and the own public key is the last thing sent. -/
structure Complete (h : Handshake Waiting) (exponent : Nat) (peerPublicKey : Str) : Prop where
  established : h.handler.mCryptoState = .established
  crypto : h.handler.mCrypto =
    some ⟨exponent, P.deriveKey (P.sharedSecret exponent peerPublicKey), true⟩
  peer : h.peerPublicKey = some peerPublicKey
  sent : h.sent.getLast? = some (P.publicKey exponent).1

/-- The invariant of a handshake: `waiting` holds where it waits, `done` where it
has ended well, and nowhere else is the session established. -/
def Good (waiting : Waiting → Handshake Waiting → Prop) (done : Handshake Waiting → Prop)
    (h : Handshake Waiting) : Prop :=
  h.handler.connected = true ∧
    match h.phase with
    | .waiting w => h.handler.mCryptoState = .handshaking ∧ waiting w h
    | .returned result =>
        result = 0 ∧ (∃ exponent peerPublicKey, h.Complete P exponent peerPublicKey) ∧ done h ∨
          result = -1 ∧ h.handler.mCryptoState = .handshaking
    | .stopped => h.handler.mCryptoState = .handshaking

variable {P} {waiting : Waiting → Handshake Waiting → Prop}
  {done : Handshake Waiting → Prop} {h : Handshake Waiting}

theorem good_fail (hconnected : h.handler.connected = true)
    (hstate : h.handler.mCryptoState = .handshaking) : h.fail.Good P waiting done :=
  ⟨hconnected, Or.inr ⟨rfl, hstate⟩⟩

theorem good_stop (hconnected : h.handler.connected = true)
    (hstate : h.handler.mCryptoState = .handshaking) : h.stop.Good P waiting done :=
  ⟨hconnected, hstate⟩

theorem good_await {w : Waiting} (hconnected : h.handler.connected = true)
    (hstate : h.handler.mCryptoState = .handshaking) (hw : waiting w (h.await w)) :
    (h.await w).Good P waiting done :=
  ⟨hconnected, hstate, hw⟩

/-- With a new session, `establish` does not throw. -/
theorem establish_eq {exponent : Nat}
    (hcrypto : h.handler.mCrypto = some (CryptoSession.fresh exponent))
    (peerPublicKey : PublicKey) :
    h.establish P peerPublicKey.toStr =
      { h with
        handler := { h.handler with
          mCrypto := some
            ⟨exponent, P.deriveKey (P.sharedSecret exponent peerPublicKey.toStr), true⟩
          mCryptoState := .established }
        peerPublicKey := some peerPublicKey.toStr
        phase := .returned 0 } := by
  have hestablish : (CryptoSession.fresh exponent).establish P peerPublicKey.toStr = .ok
      ⟨exponent, P.deriveKey (P.sharedSecret exponent peerPublicKey.toStr), true⟩ :=
    CryptoSession.establish_of_not P rfl peerPublicKey.fitsBignum
  simp only [establish, hcrypto, hestablish]

theorem establish_challenge (peerPublicKey : Str) :
    (h.establish P peerPublicKey).challenge = h.challenge := by
  rcases h.establish_cases P peerPublicKey with hstops | ⟨session, _, hestablish⟩
  · rw [hstops]
    rfl
  · rw [hestablish]

theorem establish_sent (peerPublicKey : Str) :
    (h.establish P peerPublicKey).sent = h.sent := by
  rcases h.establish_cases P peerPublicKey with hstops | ⟨session, _, hestablish⟩
  · rw [hstops]
    rfl
  · rw [hestablish]

theorem good_establish {exponent : Nat} (hconnected : h.handler.connected = true)
    (hcrypto : h.handler.mCrypto = some (CryptoSession.fresh exponent))
    (hsent : h.sent.getLast? = some (P.publicKey exponent).1) {peerPublicKey : PublicKey}
    (hdone : done (h.establish P peerPublicKey.toStr)) :
    (h.establish P peerPublicKey.toStr).Good P waiting done := by
  rw [establish_eq hcrypto] at hdone ⊢
  exact ⟨hconnected, Or.inl ⟨rfl, ⟨exponent, peerPublicKey.toStr, rfl, rfl, rfl, hsent⟩, hdone⟩⟩

/-- Only a handshake that has returned 0 leaves an established session. -/
theorem Good.complete (hgood : h.Good P waiting done)
    (hestablished : h.handler.mCryptoState = .established) :
    (∃ exponent peerPublicKey, h.Complete P exponent peerPublicKey) ∧ done h := by
  obtain ⟨_, hphase⟩ := hgood
  cases hp : h.phase with
  | waiting w =>
      rw [hp] at hphase
      rw [hphase.1] at hestablished
      cases hestablished
  | returned result =>
      rw [hp] at hphase
      rcases hphase with ⟨_, hcomplete⟩ | ⟨_, hstate⟩
      · exact hcomplete
      · rw [hstate] at hestablished
        cases hestablished
  | stopped =>
      rw [hp] at hphase
      rw [hphase] at hestablished
      cases hestablished

/-- What a handshake that has returned 0 leaves can send and receive. -/
theorem Good.establishedWith (hgood : h.Good P waiting done)
    (hreturned : h.phase = .returned 0) : ∃ session, h.handler.EstablishedWith session := by
  obtain ⟨hconnected, hphase⟩ := hgood
  rw [hreturned] at hphase
  rcases hphase with ⟨_, ⟨exponent, peerPublicKey, hcomplete⟩, _⟩ | ⟨hresult, _⟩
  · refine ⟨_, ?_, hcomplete.crypto, rfl⟩
    rw [NetworkHandler.ready, decide_eq_true_eq]
    exact ⟨hconnected, hcomplete.established⟩
  · cases hresult

end Handshake

namespace ClientHandshake

variable {Cert : Type} (P : Primitives) (A : Authority Cert) (signed : Str → Prop)

/-- The challenge has been signed. -/
def Answered (h : ClientHandshake Cert) : Prop :=
  ∃ challenge, h.challenge = some challenge ∧ signed challenge

def Waits : ClientWaiting Cert → ClientHandshake Cert → Prop
  | .certificate, _ => True
  | .signature certificate challenge, h =>
      A.verify certificate h.mHost = true ∧ h.challenge = some challenge
  | .publicKey, h =>
      (∃ exponent, h.handler.mCrypto = some (CryptoSession.fresh exponent) ∧
        h.sent.getLast? = some (P.publicKey exponent).1) ∧ h.Answered signed

abbrev Good (h : ClientHandshake Cert) : Prop :=
  Handshake.Good P (Waits P A signed) (Answered signed) h

/-- Certificates and signatures cannot be forged: what a client takes for a
signature, under a certificate that passes its check, a server has made. -/
def Unforged (env : HandshakeEnv) (recv : Recv) (h : ClientHandshake Cert) : Prop :=
  ∀ certificate challenge bytes signature,
    h.phase = .waiting (.signature certificate challenge) → recv = .chunk bytes →
    extractVector bytes.1 env.stack = .ok signature →
    A.verify certificate h.mHost = true →
    A.verifySignature certificate challenge signature = true → signed challenge

variable {P A signed} {env : HandshakeEnv} {h : ClientHandshake Cert}

theorem start_good {handler : NetworkHandler} (hconnected : handler.connected = true)
    (mHost : Str) : (start handler mHost : ClientHandshake Cert).Good P A signed :=
  ⟨hconnected, rfl, trivial⟩

theorem checkCertificate_good (hconnected : h.handler.connected = true)
    (hstate : h.handler.mCryptoState = .handshaking) (bytes : List UInt8) :
    (h.checkCertificate A env bytes).Good P A signed := by
  rcases checkCertificate_cases A env h bytes with
    hfails | ⟨_, certificate, random, _, _, hverify, hfails | hawaits⟩
  · rw [hfails]
    exact Handshake.good_fail hconnected hstate
  · rw [hfails]
    exact Handshake.good_fail hconnected hstate
  · rw [hawaits]
    exact Handshake.good_await hconnected hstate ⟨hverify, rfl⟩

theorem checkSignature_good (hconnected : h.handler.connected = true)
    (hstate : h.handler.mCryptoState = .handshaking) {certificate : Cert} {challenge : Str}
    {bytes : List UInt8} (hchallenge : h.challenge = some challenge)
    (hsigned : ∀ signature, extractVector bytes env.stack = .ok signature →
      A.verifySignature certificate challenge signature = true → signed challenge) :
    (h.checkSignature P A env certificate challenge bytes).Good P A signed := by
  rcases checkSignature_cases P A env h certificate challenge bytes with
    ⟨hfails, _⟩ | ⟨signature, hextract, hverify, hfails | hawaits⟩
  · rw [hfails]
    exact Handshake.good_fail hconnected hstate
  · rw [hfails]
    exact Handshake.good_fail hconnected hstate
  · rw [hawaits]
    refine Handshake.good_await hconnected hstate ⟨⟨env.exponent, rfl, ?_⟩, ?_⟩
    · exact List.getLast?_concat
    · exact ⟨challenge, hchallenge, hsigned signature hextract hverify⟩

theorem receivePublicKey_good (hconnected : h.handler.connected = true)
    (hstate : h.handler.mCryptoState = .handshaking) (hwaits : Waits P A signed .publicKey h)
    (bytes : List UInt8) : (h.receivePublicKey P bytes).Good P A signed := by
  obtain ⟨⟨exponent, hcrypto, hsent⟩, hanswered⟩ := hwaits
  rcases receivePublicKey_cases P h bytes with hfails | ⟨peerPublicKey, hestablishes⟩
  · rw [hfails]
    exact Handshake.good_fail hconnected hstate
  · rw [hestablishes]
    apply Handshake.good_establish hconnected hcrypto hsent
    rw [Handshake.establish_eq hcrypto]
    exact hanswered

theorem receive_good {recv : Recv} (hgood : h.Good P A signed)
    (hunforged : Unforged A signed env recv h) : (h.receive P A env recv).Good P A signed := by
  have hself := hgood
  obtain ⟨hconnected, hphase⟩ := hgood
  unfold receive
  cases hp : h.phase with
  | waiting w =>
      rw [hp] at hphase
      obtain ⟨hstate, hwaits⟩ := hphase
      cases recv with
      | idle =>
          cases w with
          | certificate => exact Handshake.good_stop hconnected hstate
          | signature certificate challenge => exact Handshake.good_fail hconnected hstate
          | publicKey => exact Handshake.good_fail hconnected hstate
      | closed =>
          cases w with
          | certificate => exact Handshake.good_stop hconnected hstate
          | signature certificate challenge => exact Handshake.good_fail hconnected hstate
          | publicKey => exact Handshake.good_fail hconnected hstate
      | chunk bytes =>
          cases w with
          | certificate => exact checkCertificate_good hconnected hstate bytes.1
          | signature certificate challenge =>
              apply checkSignature_good hconnected hstate hwaits.2
              intro signature hextract hverify
              exact hunforged certificate challenge bytes signature hp rfl hextract
                hwaits.1 hverify
          | publicKey => exact receivePublicKey_good hconnected hstate hwaits bytes.1
  | returned result => exact hself
  | stopped => exact hself

theorem Good.mono {signed' : Str → Prop} (hgood : h.Good P A signed)
    (hsigned : ∀ challenge, signed challenge → signed' challenge) :
    h.Good P A signed' := by
  have hanswered : h.Answered signed → h.Answered signed' := by
    rintro ⟨challenge, hchallenge, hsig⟩
    exact ⟨challenge, hchallenge, hsigned challenge hsig⟩
  obtain ⟨hconnected, hphase⟩ := hgood
  refine ⟨hconnected, ?_⟩
  cases hp : h.phase with
  | waiting w =>
      rw [hp] at hphase
      cases w with
      | certificate => exact hphase
      | signature certificate challenge => exact hphase
      | publicKey => exact ⟨hphase.1, hphase.2.1, hanswered hphase.2.2⟩
  | returned result =>
      rw [hp] at hphase
      rcases hphase with ⟨hresult, hcomplete, hdone⟩ | hfailed
      · exact Or.inl ⟨hresult, hcomplete, hanswered hdone⟩
      · exact Or.inr hfailed
  | stopped =>
      rw [hp] at hphase
      exact hphase

end ClientHandshake

namespace ServerHandshake

variable {Cert : Type} (P : Primitives)

def Waits : ServerWaiting → ServerHandshake → Prop
  | .challenge _, h => h.challenge = none
  | .publicKey _, h => ∃ exponent, h.handler.mCrypto = some (CryptoSession.fresh exponent)

abbrev Good (h : ServerHandshake) : Prop := Handshake.Good P Waits (fun _ => True) h

variable {P} {A : Authority Cert} {env : HandshakeEnv} {h : ServerHandshake}

theorem start_good {handler : NetworkHandler} (hconnected : handler.connected = true)
    (mHost : Str) : (start A env handler mHost).Good P := by
  rcases start_cases A env handler mHost with
    ⟨_, hfails⟩ | ⟨certificateBytes, _, hfails | hsends⟩
  · rw [hfails]
    exact Handshake.good_fail hconnected rfl
  · rw [hfails]
    exact Handshake.good_fail hconnected rfl
  · rw [hsends]
    exact ⟨hconnected, rfl, rfl⟩

theorem signChallenge_good (hconnected : h.handler.connected = true)
    (hstate : h.handler.mCryptoState = .handshaking) (challengeBytes : Block 40) :
    (h.signChallenge A env challengeBytes).Good P := by
  rcases signChallenge_cases A env h challengeBytes with
    ⟨hfails, _⟩ | ⟨challenge, signature, _, _, hfails | hawaits⟩
  · rw [hfails]
    exact Handshake.good_fail hconnected hstate
  · rw [hfails]
    exact Handshake.good_fail hconnected hstate
  · rw [hawaits]
    exact Handshake.good_await hconnected hstate ⟨env.exponent, rfl⟩

theorem exchangeKeys_good {exponent : Nat} (hconnected : h.handler.connected = true)
    (hstate : h.handler.mCryptoState = .handshaking)
    (hcrypto : h.handler.mCrypto = some (CryptoSession.fresh exponent))
    (peerPublicKey : PublicKey) : (h.exchangeKeys P env peerPublicKey).Good P := by
  rcases exchangeKeys_cases P env hcrypto peerPublicKey with hfails | hestablishes
  · rw [hfails]
    exact Handshake.good_fail hconnected hstate
  · rw [hestablishes]
    have hsent : (h.sent ++ [((CryptoSession.fresh exponent).getPublicKey P).1]).getLast? =
        some (P.publicKey exponent).1 := List.getLast?_concat
    refine Handshake.good_establish ?_ ?_ hsent trivial
    · exact hconnected
    · exact hcrypto

/-- A wait in `receiveBytes` keeps what holds of it, and of what follows. -/
theorem receiving_good {size : Nat} {w : List UInt8 → ServerWaiting}
    {next : Block size → ServerHandshake} (hconnected : h.handler.connected = true)
    (hstate : h.handler.mCryptoState = .handshaking)
    (hwaits : ∀ received, Waits (w received) (h.await (w received)))
    (hnext : ∀ bytes, (next bytes).Good P) (r : Receiving size) :
    (h.receiving w next r).Good P := by
  cases r with
  | waiting received => exact Handshake.good_await hconnected hstate (hwaits received)
  | returned result =>
      cases result with
      | none => exact Handshake.good_fail hconnected hstate
      | some bytes => exact hnext bytes
  | stopped => exact Handshake.good_stop hconnected hstate

theorem receive_good (hgood : h.Good P) (recv : Recv) : (h.receive P A env recv).Good P := by
  have hself := hgood
  obtain ⟨hconnected, hphase⟩ := hgood
  unfold receive
  cases hp : h.phase with
  | waiting w =>
      rw [hp] at hphase
      obtain ⟨hstate, hwaits⟩ := hphase
      cases w with
      | challenge received =>
          exact receiving_good hconnected hstate (fun _ => hwaits)
            (signChallenge_good hconnected hstate) _
      | publicKey received =>
          obtain ⟨exponent, hcrypto⟩ := hwaits
          apply receiving_good (w := .publicKey) hconnected hstate
          · exact fun _ => ⟨exponent, hcrypto⟩
          · exact exchangeKeys_good hconnected hstate hcrypto
  | returned result => exact hself
  | stopped => exact hself

theorem exchangeKeys_challenge (peerPublicKey : PublicKey) :
    (h.exchangeKeys P env peerPublicKey).challenge = h.challenge := by
  cases hcrypto : h.handler.mCrypto with
  | none =>
      rw [exchangeKeys, hcrypto]
      rfl
  | some mCrypto =>
      rcases exchangeKeys_cases P env hcrypto peerPublicKey with hfails | hestablishes
      · rw [hfails]
        rfl
      · rw [hestablishes, Handshake.establish_challenge]
        rfl

/-- A challenge once signed is not replaced by another. -/
theorem receive_challenge (hgood : h.Good P) {challenge : Str}
    (hchallenge : h.challenge = some challenge) (recv : Recv) :
    (h.receive P A env recv).challenge = some challenge := by
  obtain ⟨_, hphase⟩ := hgood
  unfold receive
  cases hp : h.phase with
  | waiting w =>
      rw [hp] at hphase
      cases w with
      | challenge received =>
          have hnone : h.challenge = none := hphase.2
          rw [hchallenge] at hnone
          cases hnone
      | publicKey received =>
          simp only
          cases receiveBytes 256 env.tryAgain received recv with
          | waiting received => exact hchallenge
          | returned result =>
              cases result with
              | none => exact hchallenge
              | some bytes => exact (exchangeKeys_challenge bytes).trans hchallenge
          | stopped => exact hchallenge
  | returned result => exact hchallenge
  | stopped => exact hchallenge

end ServerHandshake

/-- Every handshake so far, whether it is still going on or not. -/
structure Network (Cert : Type) where
  clients : List (ClientHandshake Cert)
  servers : List ServerHandshake

namespace Network

variable {Cert : Type} (P : Primitives) (A : Authority Cert)

def empty : Network Cert := ⟨[], []⟩

/-- A server has received the challenge and signed it. -/
def Signed (s : Network Cert) (challenge : Str) : Prop :=
  ∃ server ∈ s.servers, server.challenge = some challenge

/-- A handshake starts on a connected handler, or one `recv` of it returns what
the network chooses. -/
inductive Label where
  | startClient (handler : NetworkHandler) (mHost : Str)
  | startServer (env : HandshakeEnv) (handler : NetworkHandler) (mHost : Str)
  | client (i : Nat) (env : HandshakeEnv) (recv : Recv)
  | server (i : Nat) (env : HandshakeEnv) (recv : Recv)

inductive Step : Network Cert → Label → Network Cert → Prop
  | startClient {s : Network Cert} {handler : NetworkHandler} (mHost : Str)
      (hconnected : handler.connected = true) :
      Step s (.startClient handler mHost)
        { s with clients := s.clients ++ [ClientHandshake.start handler mHost] }
  | startServer {s : Network Cert} {handler : NetworkHandler} (env : HandshakeEnv)
      (mHost : Str) (hconnected : handler.connected = true) :
      Step s (.startServer env handler mHost)
        { s with servers := s.servers ++ [ServerHandshake.start A env handler mHost] }
  | client {s : Network Cert} (i : Nat) (env : HandshakeEnv) (recv : Recv)
      {h : ClientHandshake Cert} (hget : s.clients[i]? = some h)
      (hunforged : ClientHandshake.Unforged A s.Signed env recv h) :
      Step s (.client i env recv) { s with clients := s.clients.set i (h.receive P A env recv) }
  | server {s : Network Cert} (i : Nat) (env : HandshakeEnv) (recv : Recv)
      {h : ServerHandshake} (hget : s.servers[i]? = some h) :
      Step s (.server i env recv) { s with servers := s.servers.set i (h.receive P A env recv) }

def system : System (Network Cert) Label where
  init s := s = empty
  step := Step P A

structure Good (s : Network Cert) : Prop where
  clients : ∀ h ∈ s.clients, h.Good P A s.Signed
  servers : ∀ h ∈ s.servers, h.Good P

variable {P A}

theorem signed_step {s t : Network Cert} {label : Label} (hgood : s.Good P A)
    (hstep : Step P A s label t) {challenge : Str} (hsigned : s.Signed challenge) :
    t.Signed challenge := by
  obtain ⟨server, hserver, hchallenge⟩ := hsigned
  cases hstep with
  | startClient => exact ⟨server, hserver, hchallenge⟩
  | startServer =>
      exact ⟨server, List.mem_append_left _ hserver, hchallenge⟩
  | client => exact ⟨server, hserver, hchallenge⟩
  | @server i env recv h hget =>
      obtain ⟨k, hk⟩ := List.mem_iff_getElem?.mp hserver
      by_cases hik : i = k
      · subst hik
        rw [hget, Option.some.injEq] at hk
        subst hk
        have hset : (s.servers.set i (h.receive P A env recv))[i]? =
            some (h.receive P A env recv) :=
          List.getElem?_set_self (List.getElem?_eq_some_iff.mp hget).1
        exact ⟨_, List.mem_of_getElem? hset,
          ServerHandshake.receive_challenge (hgood.servers h hserver) hchallenge recv⟩
      · refine ⟨server, List.mem_iff_getElem?.mpr ⟨k, ?_⟩, hchallenge⟩
        rw [List.getElem?_set_ne hik, hk]

theorem good_step {s t : Network Cert} {label : Label} (hgood : s.Good P A)
    (hstep : Step P A s label t) : t.Good P A := by
  have hkept : ∀ challenge, s.Signed challenge → t.Signed challenge :=
    fun _ => signed_step hgood hstep
  have hclients : ∀ h ∈ s.clients, h.Good P A t.Signed :=
    fun h hmem => (hgood.clients h hmem).mono hkept
  cases hstep with
  | startClient mHost hconnected =>
      refine ⟨fun h hmem => ?_, hgood.servers⟩
      rcases List.mem_append.mp hmem with hold | hnew
      · exact hclients h hold
      · rw [List.mem_singleton.mp hnew]
        exact ClientHandshake.start_good hconnected mHost
  | startServer env mHost hconnected =>
      refine ⟨hclients, fun h hmem => ?_⟩
      rcases List.mem_append.mp hmem with hold | hnew
      · exact hgood.servers h hold
      · rw [List.mem_singleton.mp hnew]
        exact ServerHandshake.start_good hconnected mHost
  | client i env recv hget hunforged =>
      refine ⟨fun h' hmem => ?_, hgood.servers⟩
      rcases List.mem_or_eq_of_mem_set hmem with hold | hnew
      · exact hclients h' hold
      · rw [hnew]
        exact ClientHandshake.receive_good (hgood.clients _ (List.mem_of_getElem? hget)) hunforged
  | server i env recv hget =>
      refine ⟨hclients, fun h' hmem => ?_⟩
      rcases List.mem_or_eq_of_mem_set hmem with hold | hnew
      · exact hgood.servers h' hold
      · rw [hnew]
        exact ServerHandshake.receive_good (hgood.servers _ (List.mem_of_getElem? hget)) recv

theorem good_of_reachable {s : Network Cert} (hreach : Reachable (system P A) s) :
    s.Good P A := by
  apply hreach.invariant
  · rintro s rfl
    exact ⟨fun h hmem => (List.not_mem_nil hmem).elim,
      fun h hmem => (List.not_mem_nil hmem).elim⟩
  · intro s label t hgood hstep
    exact good_step hgood hstep

end Network

end LeakyChat

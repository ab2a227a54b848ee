/-
One client and one honest server on a connection that loses nothing, but cuts
what is sent into chunks as it likes.  The server reads on until it has what it
asked for; the client takes what one `recv` returns for the whole message.
-/
import LeakyChat.HandshakeAgreement

namespace LeakyChat

open Transition

/-- A certificate that is valid for the host, and a key that signs for it. -/
structure HonestServer {Cert : Type} (A : Authority Cert) (mHost : Str) where
  certificateBytes : Str
  certificate : Cert
  signature : Str → Str
  file : A.serverCertificate = some certificateBytes
  parses : A.parse certificateBytes = some certificate
  verifies : A.verify certificate mHost = true
  signs : ∀ data, A.sign data = some (signature data)
  verifiesSignature : ∀ data, A.verifySignature certificate data (signature data) = true

/-- The server of one handshake signs in all of them. -/
def HonestServer.ofCredentials {Cert : Type} {A : Authority Cert} {mHost : Str}
    {random : Block 32} (cred : Credentials A mHost random) (signature : Str → Str)
    (hsigns : ∀ data, A.sign data = some (signature data))
    (hverifies : ∀ data, A.verifySignature cred.certificate data (signature data) = true) :
    HonestServer A mHost where
  certificateBytes := cred.certificateBytes
  certificate := cred.certificate
  signature := signature
  file := cred.file
  parses := cred.parses
  verifies := cred.verifies
  signs := hsigns
  verifiesSignature := hverifies

/-- The bytes handed to `send` between two states of a handshake. -/
def Handshake.handed {Waiting : Type} (before after : Handshake Waiting) : List UInt8 :=
  (after.sent.drop before.sent.length).flatten

/-- The challenge is drawn, and `send` sends all it is given. -/
structure HandshakeEnv.Undisturbed (env : HandshakeEnv) (handed : List UInt8) : Prop where
  draws : env.random ≠ none
  sends : env.bytesSent = handed.length

theorem Handshake.handed_of_sent {Waiting : Type} {before after : Handshake Waiting}
    {bytes : List UInt8} (hsent : after.sent = before.sent ++ [bytes]) :
    before.handed after = bytes := by
  rw [Handshake.handed, hsent, List.drop_left, List.flatten_singleton]

theorem Handshake.handed_of_same {Waiting : Type} {before after : Handshake Waiting}
    (hsent : after.sent = before.sent) : before.handed after = [] := by
  rw [Handshake.handed, hsent, List.drop_length, List.flatten_nil]

/-- A block that arrives piece by piece is received piece by piece. -/
theorem receiveBytes_arrives {size : Nat} (tryAgain : Bool) (block : Block size)
    {received rest : List UInt8} {bytes : Chunk}
    (hall : received ++ (bytes.1 ++ rest) = block.1) :
    (rest = [] ∧ receiveBytes size tryAgain received (.chunk bytes) = .returned (some block)) ∨
      ((received ++ bytes.1).length < size ∧
        receiveBytes size tryAgain received (.chunk bytes) = .waiting (received ++ bytes.1)) := by
  have hlength : (received ++ bytes.1).length + rest.length = size := by
    rw [← List.length_append, List.append_assoc, hall, block.2]
  by_cases hsize : size ≤ (received ++ bytes.1).length
  · have hrest : rest = [] := List.length_eq_zero_iff.mp (by omega)
    rw [hrest, List.append_nil] at hall
    have htake : (received ++ bytes.1).take size = block.1 := by
      rw [hall]
      exact List.take_of_length_le (Nat.le_of_eq block.2)
    refine Or.inl ⟨hrest, ?_⟩
    simp only [receiveBytes, dif_pos hsize, htake]
  · exact Or.inr ⟨Nat.lt_of_not_le hsize, by simp only [receiveBytes, dif_neg hsize]⟩

/-- How much the `recv` of a client asks for. -/
def ClientWaiting.asks {Cert : Type} : ClientWaiting Cert → Nat
  | .certificate => recvBufferSize
  | .signature _ _ => recvBufferSize
  | .publicKey => 256

/-- How much the `recv` of a server asks for. -/
def ServerWaiting.asks : ServerWaiting → Nat
  | .challenge received => 40 - received.length
  | .publicKey received => 256 - received.length

/-- The two ends, and the bytes on their way to each. -/
structure Connection (Cert : Type) where
  client : ClientHandshake Cert
  server : ServerHandshake
  toClient : List UInt8
  toServer : List UInt8

namespace Connection

variable {Cert : Type} (P : Primitives) (A : Authority Cert) (mHost : Str)

inductive Label where
  | client (env : HandshakeEnv) (bytes : Chunk)
  | server (env : HandshakeEnv) (bytes : Chunk)

/-- The `recv` of an end that waits returns any bytes that come next. -/
inductive Step : Connection Cert → Label → Connection Cert → Prop
  | client {s : Connection Cert} {w : ClientWaiting Cert} {rest : List UInt8}
      (env : HandshakeEnv) (bytes : Chunk) (hwaits : s.client.phase = .waiting w)
      (harrives : s.toClient = bytes.1 ++ rest) (hasks : bytes.1.length ≤ w.asks)
      (henv : env.Undisturbed (s.client.handed (s.client.receive P A env (.chunk bytes)))) :
      Step s (.client env bytes)
        { s with
          client := s.client.receive P A env (.chunk bytes)
          toClient := rest
          toServer := s.toServer ++ s.client.handed (s.client.receive P A env (.chunk bytes)) }
  | server {s : Connection Cert} {w : ServerWaiting} {rest : List UInt8}
      (env : HandshakeEnv) (bytes : Chunk) (hwaits : s.server.phase = .waiting w)
      (harrives : s.toServer = bytes.1 ++ rest) (hasks : bytes.1.length ≤ w.asks)
      (henv : env.Undisturbed (s.server.handed (s.server.receive P A env (.chunk bytes)))) :
      Step s (.server env bytes)
        { s with
          server := s.server.receive P A env (.chunk bytes)
          toClient := s.toClient ++ s.server.handed (s.server.receive P A env (.chunk bytes))
          toServer := rest }

/-- Both ends have begun, and the server has sent its certificate. -/
def start (env : HandshakeEnv) (client server : NetworkHandler) (peer : Str) :
    Connection Cert where
  client := ClientHandshake.start client mHost
  server := ServerHandshake.start A env server peer
  toClient := (ServerHandshake.start A env server peer).sent.flatten
  toServer := []

def system : System (Connection Cert) Label where
  init s := ∃ env client server peer, s = start A mHost env client server peer ∧
    env.Undisturbed s.toClient
  step := Step P A

/-- An end waits for bytes that are on their way to it. -/
def Arriving (s : Connection Cert) : Prop :=
  (∃ w, s.client.phase = .waiting w ∧ s.toClient ≠ []) ∨
    (∃ w, s.server.phase = .waiting w ∧ s.toServer ≠ [])

/-- Both handshakes have returned 0, and the sessions have the same key. -/
structure Completed (s : Connection Cert) : Prop where
  client : s.client.phase = .returned 0
  server : s.server.phase = .returned 0
  clientState : s.client.handler.mCryptoState = .established
  serverState : s.server.handler.mCryptoState = .established
  key : ∃ session serverSession,
    s.client.handler.mCrypto = some session ∧ s.server.handler.mCrypto = some serverSession ∧
      session.mKey = serverSession.mKey

/-- A `recv` of the client returns all that has been sent to it. -/
def Whole (s : Connection Cert) : Label → Prop
  | .client _ bytes => bytes.1 = s.toClient
  | .server _ _ => True

variable {A mHost} in
/-- Where a handshake that nothing has cut short can stand, with what is known
there, and the most `recv`s it still takes. -/
inductive Stage (honest : HonestServer A mHost) : Nat → Connection Cert → Prop
  | certificate {s : Connection Cert} (hclient : s.client.phase = .waiting .certificate)
      (hhost : s.client.mHost = mHost) (hserver : s.server.phase = .waiting (.challenge []))
      (htoClient : s.toClient = strBytes honest.certificateBytes) (htoServer : s.toServer = []) :
      Stage honest 299 s
  | challenge {s : Connection Cert} (random : Block 32) (received : List UInt8)
      (hclient : s.client.phase =
        .waiting (.signature honest.certificate (challengeOf random)))
      (hserver : s.server.phase = .waiting (.challenge received))
      (hreceived : received.length < 40) (htoClient : s.toClient = [])
      (htoServer : received ++ s.toServer = strBytes (challengeOf random)) :
      Stage honest (298 - received.length) s
  | signature {s : Connection Cert} (random : Block 32) (b : Nat)
      (hclient : s.client.phase =
        .waiting (.signature honest.certificate (challengeOf random)))
      (hserver : s.server.phase = .waiting (.publicKey []))
      (hcrypto : s.server.handler.mCrypto = some (CryptoSession.fresh b))
      (htoClient : s.toClient = strBytes (honest.signature (challengeOf random)))
      (htoServer : s.toServer = []) : Stage honest 258 s
  | clientKey {s : Connection Cert} (a b : Nat) (received : List UInt8)
      (hclient : s.client.phase = .waiting .publicKey)
      (hsession : s.client.handler.mCrypto = some (CryptoSession.fresh a))
      (hserver : s.server.phase = .waiting (.publicKey received))
      (hcrypto : s.server.handler.mCrypto = some (CryptoSession.fresh b))
      (hreceived : received.length < 256) (htoClient : s.toClient = [])
      (htoServer : received ++ s.toServer = (P.publicKey a).1) :
      Stage honest (257 - received.length) s
  | serverKey {s : Connection Cert} (a b : Nat)
      (hclient : s.client.phase = .waiting .publicKey)
      (hsession : s.client.handler.mCrypto = some (CryptoSession.fresh a))
      (hserver : s.server.phase = .returned 0)
      (hstate : s.server.handler.mCryptoState = .established)
      (hcrypto : s.server.handler.mCrypto =
        some ⟨b, P.deriveKey (P.sharedSecret b (P.publicKey a).toStr), true⟩)
      (htoClient : s.toClient = (P.publicKey b).1) (htoServer : s.toServer = []) :
      Stage honest 1 s
  | completed {s : Connection Cert} (hcompleted : s.Completed) : Stage honest 0 s

variable {P A mHost} {honest : HonestServer A mHost} {s t : Connection Cert} {label : Label}

theorem sends_nonneg {env : HandshakeEnv} {handed : List UInt8} (henv : env.Undisturbed handed) :
    0 ≤ env.bytesSent := by
  rw [henv.sends]
  exact Int.natCast_nonneg _

theorem sends_publicKey {env : HandshakeEnv} {handed : List UInt8}
    (henv : env.Undisturbed handed) {exponent : Nat} (hhanded : handed = (P.publicKey exponent).1) :
    env.bytesSent = 256 := by
  rw [henv.sends, hhanded, (P.publicKey exponent).2]
  rfl

theorem not_client_step (hempty : s.toClient = [])
    {env : HandshakeEnv} {bytes : Chunk} : ¬ Step P A s (.client env bytes) t := by
  intro hstep
  cases hstep with
  | client _ _ _ harrives =>
      rw [hempty] at harrives
      exact bytes.2.1 (List.append_eq_nil_iff.mp harrives.symm).1

theorem not_server_step (hempty : s.toServer = [])
    {env : HandshakeEnv} {bytes : Chunk} : ¬ Step P A s (.server env bytes) t := by
  intro hstep
  cases hstep with
  | server _ _ _ harrives =>
      rw [hempty] at harrives
      exact bytes.2.1 (List.append_eq_nil_iff.mp harrives.symm).1

theorem whole_client_step {env : HandshakeEnv} {bytes : Chunk}
    (hstep : Step P A s (.client env bytes) t) (hwhole : bytes.1 = s.toClient) :
    env.Undisturbed (s.client.handed (s.client.receive P A env (.chunk bytes))) ∧
      t = { s with
        client := s.client.receive P A env (.chunk bytes)
        toClient := []
        toServer := s.toServer ++ s.client.handed (s.client.receive P A env (.chunk bytes)) } := by
  cases hstep with
  | @client w rest _ _ hwaits harrives hasks henv =>
      have hrest : rest = [] := by
        rw [← hwhole] at harrives
        exact List.append_right_eq_self.mp harrives.symm
      subst hrest
      exact ⟨henv, rfl⟩

theorem server_step {env : HandshakeEnv} {bytes : Chunk}
    (hstep : Step P A s (.server env bytes) t) :
    ∃ rest, s.toServer = bytes.1 ++ rest ∧
      env.Undisturbed (s.server.handed (s.server.receive P A env (.chunk bytes))) ∧
      t = { s with
        server := s.server.receive P A env (.chunk bytes)
        toClient := s.toClient ++ s.server.handed (s.server.receive P A env (.chunk bytes))
        toServer := rest } := by
  cases hstep with
  | @server w rest _ _ hwaits harrives hasks henv => exact ⟨rest, harrives, henv, rfl⟩

theorem step_certificate {env : HandshakeEnv} {bytes : Chunk}
    (hclient : s.client.phase = .waiting .certificate) (hhost : s.client.mHost = mHost)
    (hserver : s.server.phase = .waiting (.challenge []))
    (htoClient : s.toClient = strBytes honest.certificateBytes) (htoServer : s.toServer = [])
    (hstep : Step P A s (.client env bytes) t) (hwhole : bytes.1 = s.toClient) :
    ∃ m < 299, Stage P honest m t := by
  obtain ⟨henv, rfl⟩ := whole_client_step hstep hwhole
  obtain ⟨random, hrandom⟩ := Option.ne_none_iff_exists'.mp henv.draws
  have hreceive : s.client.receive P A env (.chunk bytes) =
      ({ s.client with challenge := some (challengeOf random) }.send
        (strBytes (challengeOf random))).await
          (.signature honest.certificate (challengeOf random)) := by
    have hverify : A.verify honest.certificate s.client.mHost = true := by
      rw [hhost]
      exact honest.verifies
    rw [← ClientHandshake.checkCertificate_eq honest.parses hverify hrandom (sends_nonneg henv),
      ← htoClient, ← hwhole]
    simp only [ClientHandshake.receive, hclient]
  have hhanded : s.client.handed (s.client.receive P A env (.chunk bytes)) =
      strBytes (challengeOf random) := by
    rw [hreceive]
    exact Handshake.handed_of_sent rfl
  refine ⟨298, by decide, Stage.challenge random [] ?_ hserver (by decide) rfl ?_⟩
  · rw [hreceive]
    rfl
  · rw [List.nil_append, htoServer, hhanded, List.nil_append]

/-- The last bytes of the challenge are answered with its signature. -/
theorem challenge_whole {random : Block 32} {received : List UInt8} {env : HandshakeEnv}
    {bytes : Chunk}
    (hclient : s.client.phase = .waiting (.signature honest.certificate (challengeOf random)))
    (hserver : s.server.phase = .waiting (.challenge received)) (htoClient : s.toClient = [])
    (henv : env.Undisturbed (s.server.handed (s.server.receive P A env (.chunk bytes))))
    (hall : receiveBytes 40 env.tryAgain received (.chunk bytes) =
      .returned (some ⟨_, challengeOf_length random⟩)) :
    Stage P honest 258 { s with
      server := s.server.receive P A env (.chunk bytes)
      toClient := s.toClient ++ s.server.handed (s.server.receive P A env (.chunk bytes))
      toServer := [] } := by
  have hreceive : s.server.receive P A env (.chunk bytes) =
      (({ s.server with challenge := some (challengeOf random) }.send
        (strBytes (honest.signature (challengeOf random)))).makeCrypto env.exponent).await
          (.publicKey []) := by
    have hbytes : (⟨_, challengeOf_length random⟩ : Block 40).1 = strBytes (challengeOf random) :=
      rfl
    rw [← ServerHandshake.signChallenge_eq hbytes (honest.signs (challengeOf random))
      (sends_nonneg henv), ServerHandshake.receive_challenge_eq P A env hserver, hall]
    rfl
  have hhanded : s.server.handed (s.server.receive P A env (.chunk bytes)) =
      strBytes (honest.signature (challengeOf random)) := by
    rw [hreceive]
    exact Handshake.handed_of_sent rfl
  refine Stage.signature random env.exponent hclient ?_ ?_ ?_ rfl
  · rw [hreceive]
    rfl
  · rw [hreceive]
    rfl
  · rw [htoClient, hhanded, List.nil_append]

/-- Before them the server says nothing. -/
theorem challenge_more {random : Block 32} {received rest : List UInt8} {env : HandshakeEnv}
    {bytes : Chunk}
    (hclient : s.client.phase = .waiting (.signature honest.certificate (challengeOf random)))
    (hserver : s.server.phase = .waiting (.challenge received)) (htoClient : s.toClient = [])
    (htoServer : received ++ (bytes.1 ++ rest) = strBytes (challengeOf random))
    (hshort : (received ++ bytes.1).length < 40)
    (hmore : receiveBytes 40 env.tryAgain received (.chunk bytes) =
      .waiting (received ++ bytes.1)) :
    Stage P honest (298 - (received ++ bytes.1).length) { s with
      server := s.server.receive P A env (.chunk bytes)
      toClient := s.toClient ++ s.server.handed (s.server.receive P A env (.chunk bytes))
      toServer := rest } := by
  have hreceive : s.server.receive P A env (.chunk bytes) =
      s.server.await (.challenge (received ++ bytes.1)) := by
    rw [ServerHandshake.receive_challenge_eq P A env hserver, hmore]
    rfl
  have hhanded : s.server.handed (s.server.receive P A env (.chunk bytes)) = [] := by
    rw [hreceive]
    exact Handshake.handed_of_same rfl
  refine Stage.challenge random _ hclient ?_ hshort ?_ ?_
  · rw [hreceive]
    rfl
  · rw [htoClient, hhanded, List.nil_append]
  · rw [List.append_assoc, htoServer]

theorem step_challenge {random : Block 32} {received : List UInt8} {env : HandshakeEnv}
    {bytes : Chunk}
    (hclient : s.client.phase = .waiting (.signature honest.certificate (challengeOf random)))
    (hserver : s.server.phase = .waiting (.challenge received)) (htoClient : s.toClient = [])
    (htoServer : received ++ s.toServer = strBytes (challengeOf random))
    (hstep : Step P A s (.server env bytes) t) :
    ∃ m < 298 - received.length, Stage P honest m t := by
  obtain ⟨rest, harrives, henv, rfl⟩ := server_step hstep
  rw [harrives] at htoServer
  have hbytes : 0 < bytes.1.length := List.length_pos_iff.mpr bytes.2.1
  have htotal := congrArg List.length htoServer
  rw [List.length_append, List.length_append, challengeOf_length] at htotal
  rcases receiveBytes_arrives env.tryAgain ⟨_, challengeOf_length random⟩ htoServer with
    ⟨rfl, hall⟩ | ⟨hshort, hmore⟩
  · exact ⟨258, by omega, challenge_whole hclient hserver htoClient henv hall⟩
  · refine ⟨_, ?_, challenge_more hclient hserver htoClient htoServer hshort hmore⟩
    rw [List.length_append]
    omega

theorem step_signature {random : Block 32} {b : Nat} {env : HandshakeEnv} {bytes : Chunk}
    (hclient : s.client.phase = .waiting (.signature honest.certificate (challengeOf random)))
    (hserver : s.server.phase = .waiting (.publicKey []))
    (hcrypto : s.server.handler.mCrypto = some (CryptoSession.fresh b))
    (htoClient : s.toClient = strBytes (honest.signature (challengeOf random)))
    (htoServer : s.toServer = []) (hstep : Step P A s (.client env bytes) t)
    (hwhole : bytes.1 = s.toClient) : ∃ m < 258, Stage P honest m t := by
  obtain ⟨henv, rfl⟩ := whole_client_step hstep hwhole
  have hreceives : s.client.receive P A env (.chunk bytes) =
      s.client.checkSignature P A env honest.certificate (challengeOf random)
        (strBytes (honest.signature (challengeOf random))) := by
    rw [← htoClient, ← hwhole]
    simp only [ClientHandshake.receive, hclient]
  have hsent : (s.client.receive P A env (.chunk bytes)).sent =
      s.client.sent ++ [(P.publicKey env.exponent).1] := by
    rw [hreceives]
    rcases ClientHandshake.checkSignature_cases P A env s.client honest.certificate
      (challengeOf random) (strBytes (honest.signature (challengeOf random))) with
      ⟨_, hrefused⟩ | ⟨signature, _, _, hfails | hawaits⟩
    · have hsignature := honest.verifiesSignature (challengeOf random)
      rw [hrefused _ (extractVector_strBytes _ _)] at hsignature
      cases hsignature
    · rw [hfails]
      rfl
    · rw [hawaits]
      rfl
  have hhanded := Handshake.handed_of_sent hsent
  have hsends : env.bytesSent = 256 := sends_publicKey henv hhanded
  have hreceive := hreceives.trans
    (ClientHandshake.checkSignature_eq (honest.verifiesSignature _) hsends)
  refine ⟨257, by decide,
    Stage.clientKey env.exponent b [] ?_ ?_ hserver hcrypto (by decide) rfl ?_⟩
  · rw [hreceive]
    rfl
  · rw [hreceive]
    rfl
  · rw [List.nil_append, htoServer, hhanded, List.nil_append]

/-- The last bytes of the client's public key are answered with the server's. -/
theorem clientKey_whole {a b : Nat} {received : List UInt8} {env : HandshakeEnv}
    {bytes : Chunk} (hclient : s.client.phase = .waiting .publicKey)
    (hsession : s.client.handler.mCrypto = some (CryptoSession.fresh a))
    (hserver : s.server.phase = .waiting (.publicKey received))
    (hcrypto : s.server.handler.mCrypto = some (CryptoSession.fresh b))
    (htoClient : s.toClient = [])
    (henv : env.Undisturbed (s.server.handed (s.server.receive P A env (.chunk bytes))))
    (hall : receiveBytes 256 env.tryAgain received (.chunk bytes) =
      .returned (some (P.publicKey a))) :
    Stage P honest 1 { s with
      server := s.server.receive P A env (.chunk bytes)
      toClient := s.toClient ++ s.server.handed (s.server.receive P A env (.chunk bytes))
      toServer := [] } := by
  have hreceives : s.server.receive P A env (.chunk bytes) =
      s.server.exchangeKeys P env (P.publicKey a) := by
    rw [ServerHandshake.receive_publicKey_eq P A env hserver, hall]
    rfl
  have hsent : (s.server.receive P A env (.chunk bytes)).sent =
      s.server.sent ++ [(P.publicKey b).1] := by
    rw [hreceives]
    rcases ServerHandshake.exchangeKeys_cases P env hcrypto (P.publicKey a) with
      hfails | hestablishes
    · rw [hfails]
      rfl
    · rw [hestablishes, Handshake.establish_sent]
      rfl
  have hhanded := Handshake.handed_of_sent hsent
  have hsends : env.bytesSent = 256 := sends_publicKey henv hhanded
  have hkeyed : ({ s.server with peerPublicKey := some (P.publicKey a).toStr }.send
      (P.publicKey b).1).handler.mCrypto = some (CryptoSession.fresh b) := hcrypto
  have hreceive := (hreceives.trans
    (ServerHandshake.exchangeKeys_eq hcrypto hsends (P.publicKey a))).trans
      (Handshake.establish_eq hkeyed _)
  refine Stage.serverKey a b hclient hsession ?_ ?_ ?_ ?_ rfl
  · rw [hreceive]
  · rw [hreceive]
  · rw [hreceive]
  · rw [htoClient, hhanded, List.nil_append]

theorem clientKey_more {a b : Nat} {received rest : List UInt8} {env : HandshakeEnv}
    {bytes : Chunk} (hclient : s.client.phase = .waiting .publicKey)
    (hsession : s.client.handler.mCrypto = some (CryptoSession.fresh a))
    (hserver : s.server.phase = .waiting (.publicKey received))
    (hcrypto : s.server.handler.mCrypto = some (CryptoSession.fresh b))
    (htoClient : s.toClient = []) (htoServer : received ++ (bytes.1 ++ rest) = (P.publicKey a).1)
    (hshort : (received ++ bytes.1).length < 256)
    (hmore : receiveBytes 256 env.tryAgain received (.chunk bytes) =
      .waiting (received ++ bytes.1)) :
    Stage P honest (257 - (received ++ bytes.1).length) { s with
      server := s.server.receive P A env (.chunk bytes)
      toClient := s.toClient ++ s.server.handed (s.server.receive P A env (.chunk bytes))
      toServer := rest } := by
  have hreceive : s.server.receive P A env (.chunk bytes) =
      s.server.await (.publicKey (received ++ bytes.1)) := by
    rw [ServerHandshake.receive_publicKey_eq P A env hserver, hmore]
    rfl
  have hhanded : s.server.handed (s.server.receive P A env (.chunk bytes)) = [] := by
    rw [hreceive]
    exact Handshake.handed_of_same rfl
  refine Stage.clientKey a b _ hclient hsession ?_ ?_ hshort ?_ ?_
  · rw [hreceive]
    rfl
  · rw [hreceive]
    exact hcrypto
  · rw [htoClient, hhanded, List.nil_append]
  · rw [List.append_assoc, htoServer]

theorem step_clientKey {a b : Nat} {received : List UInt8} {env : HandshakeEnv} {bytes : Chunk}
    (hclient : s.client.phase = .waiting .publicKey)
    (hsession : s.client.handler.mCrypto = some (CryptoSession.fresh a))
    (hserver : s.server.phase = .waiting (.publicKey received))
    (hcrypto : s.server.handler.mCrypto = some (CryptoSession.fresh b))
    (htoClient : s.toClient = []) (htoServer : received ++ s.toServer = (P.publicKey a).1)
    (hstep : Step P A s (.server env bytes) t) :
    ∃ m < 257 - received.length, Stage P honest m t := by
  obtain ⟨rest, harrives, henv, rfl⟩ := server_step hstep
  rw [harrives] at htoServer
  have hbytes : 0 < bytes.1.length := List.length_pos_iff.mpr bytes.2.1
  have htotal := congrArg List.length htoServer
  rw [List.length_append, List.length_append, (P.publicKey a).2] at htotal
  rcases receiveBytes_arrives env.tryAgain (P.publicKey a) htoServer with
    ⟨rfl, hall⟩ | ⟨hshort, hmore⟩
  · exact ⟨1, by omega, clientKey_whole hclient hsession hserver hcrypto htoClient henv hall⟩
  · refine ⟨_, ?_, clientKey_more hclient hsession hserver hcrypto htoClient htoServer hshort
      hmore⟩
    rw [List.length_append]
    omega

theorem step_serverKey (hcommutes : P.DHCommutes) {a b : Nat} {env : HandshakeEnv}
    {bytes : Chunk} (hclient : s.client.phase = .waiting .publicKey)
    (hsession : s.client.handler.mCrypto = some (CryptoSession.fresh a))
    (hserver : s.server.phase = .returned 0)
    (hstate : s.server.handler.mCryptoState = .established)
    (hcrypto : s.server.handler.mCrypto =
      some ⟨b, P.deriveKey (P.sharedSecret b (P.publicKey a).toStr), true⟩)
    (htoClient : s.toClient = (P.publicKey b).1) (hstep : Step P A s (.client env bytes) t)
    (hwhole : bytes.1 = s.toClient) : Stage P honest 0 t := by
  obtain ⟨henv, rfl⟩ := whole_client_step hstep hwhole
  have hreceive : s.client.receive P A env (.chunk bytes) =
      s.client.establish P (P.publicKey b).toStr := by
    rw [← ClientHandshake.receivePublicKey_eq, ← htoClient, ← hwhole]
    simp only [ClientHandshake.receive, hclient]
  rw [Handshake.establish_eq hsession] at hreceive
  refine Stage.completed ⟨?_, hserver, ?_, hstate, ?_⟩
  · rw [hreceive]
  · rw [hreceive]
  · refine ⟨⟨a, P.deriveKey (P.sharedSecret a (P.publicKey b).toStr), true⟩, _, ?_, hcrypto,
      congrArg P.deriveKey (hcommutes a b)⟩
    rw [hreceive]

/-- A `recv` that returns a whole message leads on. -/
theorem stage_step (hcommutes : P.DHCommutes) {n : Nat} (hstage : Stage P honest n s)
    (hstep : Step P A s label t) (hwhole : s.Whole label) : ∃ m < n, Stage P honest m t := by
  cases hstage with
  | certificate hclient hhost hserver htoClient htoServer =>
      cases label with
      | client env bytes =>
          exact step_certificate hclient hhost hserver htoClient htoServer hstep hwhole
      | server env bytes => exact (not_server_step htoServer hstep).elim
  | challenge random received hclient hserver _ htoClient htoServer =>
      cases label with
      | client env bytes => exact (not_client_step htoClient hstep).elim
      | server env bytes => exact step_challenge hclient hserver htoClient htoServer hstep
  | signature random b hclient hserver hcrypto htoClient htoServer =>
      cases label with
      | client env bytes =>
          exact step_signature hclient hserver hcrypto htoClient htoServer hstep hwhole
      | server env bytes => exact (not_server_step htoServer hstep).elim
  | clientKey a b received hclient hsession hserver hcrypto _ htoClient htoServer =>
      cases label with
      | client env bytes => exact (not_client_step htoClient hstep).elim
      | server env bytes =>
          exact step_clientKey hclient hsession hserver hcrypto htoClient htoServer hstep
  | serverKey a b hclient hsession hserver hstate hcrypto htoClient htoServer =>
      cases label with
      | client env bytes =>
          exact ⟨0, Nat.one_pos, step_serverKey hcommutes hclient hsession hserver hstate hcrypto
            htoClient hstep hwhole⟩
      | server env bytes => exact (not_server_step htoServer hstep).elim
  | completed hcompleted =>
      cases hstep with
      | client _ _ hwaits =>
          rw [hcompleted.client] at hwaits
          cases hwaits
      | server _ _ hwaits =>
          rw [hcompleted.server] at hwaits
          cases hwaits

/-- Wherever the handshake stands, it is complete or goes on. -/
theorem Stage.goes_on {n : Nat} (hstage : Stage P honest n s) : s.Arriving ∨ s.Completed := by
  cases hstage with
  | certificate hclient _ _ htoClient =>
      refine Or.inl (Or.inl ⟨_, hclient, ?_⟩)
      rw [htoClient]
      exact strBytes_ne_nil _
  | challenge random received _ hserver hreceived _ htoServer =>
      refine Or.inl (Or.inr ⟨_, hserver, ?_⟩)
      intro hempty
      have htotal := congrArg List.length htoServer
      rw [hempty, List.append_nil, challengeOf_length] at htotal
      exact Nat.ne_of_lt hreceived htotal
  | signature random b hclient _ _ htoClient =>
      refine Or.inl (Or.inl ⟨_, hclient, ?_⟩)
      rw [htoClient]
      exact strBytes_ne_nil _
  | clientKey a b received _ _ hserver _ hreceived _ htoServer =>
      refine Or.inl (Or.inr ⟨_, hserver, ?_⟩)
      intro hempty
      have htotal := congrArg List.length htoServer
      rw [hempty, List.append_nil, (P.publicKey a).2] at htotal
      exact Nat.ne_of_lt hreceived htotal
  | serverKey a b hclient _ _ _ _ htoClient =>
      refine Or.inl (Or.inl ⟨_, hclient, ?_⟩)
      rw [htoClient, ← List.length_pos_iff, (P.publicKey b).2]
      decide
  | completed hcompleted => exact Or.inr hcompleted

theorem start_eq (honest : HonestServer A mHost) {env : HandshakeEnv}
    (hsends : 0 ≤ env.bytesSent) (client server : NetworkHandler) (peer : Str) :
    start A mHost env client server peer =
      ⟨ClientHandshake.start client mHost,
        (Handshake.start server peer (.challenge [])).send (strBytes honest.certificateBytes),
        strBytes honest.certificateBytes, []⟩ := by
  have hstart : ServerHandshake.start A env server peer =
      (Handshake.start server peer (.challenge [])).send (strBytes honest.certificateBytes) := by
    simp only [ServerHandshake.start, honest.file, vectorRecord_eq,
      if_neg (Int.not_lt.mpr hsends)]
  rw [start, hstart]
  exact congrArg (fun toClient => Connection.mk _ _ toClient [])
    (List.flatten_singleton (l := strBytes honest.certificateBytes))

theorem stage_start (honest : HonestServer A mHost) (hinit : (system P A mHost).init s) :
    Stage P honest 299 s := by
  obtain ⟨env, client, server, peer, rfl, henv⟩ := hinit
  have hsends : 0 ≤ env.bytesSent := by
    rw [henv.sends]
    exact Int.natCast_nonneg _
  rw [start_eq honest hsends]
  exact Stage.certificate rfl rfl rfl rfl rfl

/-- If every `recv` of the client returns a whole message, the handshake
completes, however the bytes to the server are cut: it is over after at most
299 `recv`s, and until then bytes are on their way to an end that waits. -/
theorem completes_of_whole (hcommutes : P.DHCommutes) (honest : HonestServer A mHost)
    {labels : List Label} (hinit : (system P A mHost).init s)
    (hrun : Run ((system P A mHost).restrict Whole) s labels t) :
    labels.length ≤ 299 ∧ (t.Arriving ∨ t.Completed) := by
  obtain ⟨m, hlength, hstage⟩ := hrun.length_le
    (fun n s label t hstage hstep => stage_step hcommutes hstage hstep.1 hstep.2)
    (stage_start honest hinit)
  exact ⟨Nat.le_of_add_left_le hlength, hstage.goes_on⟩

theorem whole_client {client client' : ClientHandshake Cert} {server : ServerHandshake}
    {w : ClientWaiting Cert} {env : HandshakeEnv} {bytes : Chunk} {sent : List UInt8}
    (hwaits : client.phase = .waiting w) (hasks : bytes.1.length ≤ w.asks)
    (hreceive : client.receive P A env (.chunk bytes) = client')
    (hsent : client.handed client' = sent) (henv : env.Undisturbed sent) :
    ((system P A mHost).restrict Whole).step ⟨client, server, bytes.1, []⟩ (.client env bytes)
      ⟨client', server, [], sent⟩ := by
  subst hreceive
  subst hsent
  exact ⟨Step.client env bytes hwaits (List.append_nil _).symm hasks henv, rfl⟩

theorem whole_server {client : ClientHandshake Cert} {server server' : ServerHandshake}
    {w : ServerWaiting} {env : HandshakeEnv} {bytes : Chunk} {sent : List UInt8}
    (hwaits : server.phase = .waiting w) (hasks : bytes.1.length ≤ w.asks)
    (hreceive : server.receive P A env (.chunk bytes) = server')
    (hsent : server.handed server' = sent) (henv : env.Undisturbed sent) :
    ((system P A mHost).restrict Whole).step ⟨client, server, [], bytes.1⟩ (.server env bytes)
      ⟨client, server', sent, []⟩ := by
  subst hreceive
  subst hsent
  exact ⟨Step.server env bytes hwaits (List.append_nil _).symm hasks henv, trivial⟩

theorem undisturbed_sends {random : Block 32} {exponent n : Nat} {handed : List UInt8}
    (hlength : handed.length = n) :
    (Network.undisturbed random exponent n).Undisturbed handed where
  draws := Option.some_ne_none random
  sends := congrArg Nat.cast hlength.symm

section

variable {random : Block 32} (cred : Credentials A mHost random) (client server : NetworkHandler)
  (peer : Str) (a b : Nat)

/-- Both ends have begun. -/
def begun : Connection Cert :=
  ⟨ClientHandshake.start client mHost, Network.serverCertified cred server peer,
    strBytes cred.certificateBytes, []⟩

/-- Both ends have returned. -/
def ended (P : Primitives) : Connection Cert :=
  ⟨Network.clientEstablished P client mHost random a (P.publicKey b),
    Network.serverEstablished P cred server peer b (P.publicKey a), [], []⟩

theorem run_ended :
    ∃ labels, Run ((system P A mHost).restrict Whole) (begun cred client server peer) labels
      (ended cred client server peer a b P) := by
  have hfits : (strBytes (challengeOf random)).length ≤ recvBufferSize := by
    rw [challengeOf_length]
    decide
  have hcertificate : ((system P A mHost).restrict Whole).step (begun cred client server peer) _
      ⟨Network.clientChallenging cred client, Network.serverCertified cred server peer, [],
        (vectorChunk _ hfits).1⟩ :=
    whole_client rfl cred.certificate_fits (Network.receive_certificate cred client)
      (Handshake.handed_of_sent rfl) (undisturbed_sends (challengeOf_length _))
  have hchallenge : ((system P A mHost).restrict Whole).step _ _
      ⟨Network.clientChallenging cred client, Network.serverKeyed cred server peer b,
        strBytes cred.signature, []⟩ :=
    whole_server rfl (Nat.le_of_eq (challengeOf_length _))
      (Network.receive_challenge cred server peer b hfits)
      (Handshake.handed_of_sent rfl) (undisturbed_sends rfl)
  have hsignature : ((system P A mHost).restrict Whole).step _ _
      ⟨Network.clientKeyed P client mHost random a, Network.serverKeyed cred server peer b, [],
        (P.publicKey a).chunk.1⟩ :=
    whole_client rfl cred.signature_fits (Network.receive_signature cred client a)
      (Handshake.handed_of_sent rfl) (undisturbed_sends (P.publicKey a).2)
  have hclientKey : ((system P A mHost).restrict Whole).step _ _
      ⟨Network.clientKeyed P client mHost random a,
        Network.serverEstablished P cred server peer b (P.publicKey a),
        (P.publicKey b).chunk.1, []⟩ :=
    whole_server rfl (Nat.le_of_eq (P.publicKey a).2)
      (Network.server_publicKey cred server peer b (P.publicKey a))
      (Handshake.handed_of_sent rfl) (undisturbed_sends (P.publicKey b).2)
  have hserverKey : ((system P A mHost).restrict Whole).step _ _
      (ended cred client server peer a b P) :=
    whole_client rfl (Nat.le_of_eq (P.publicKey b).2)
      (Network.client_publicKey client a (P.publicKey b))
      (Handshake.handed_of_same rfl) (undisturbed_sends rfl)
  exact ⟨_, Run.cons hcertificate (Run.cons hchallenge (Run.cons hsignature
    (Run.cons hclientKey (Run.cons hserverKey (Run.nil _)))))⟩

end

theorem sampleAuthority_verifiesSignature (data : Str) :
    Network.sampleAuthority.verifySignature Network.sampleCertificate data (id data) = true :=
  decide_eq_true rfl

def sampleServer : HonestServer Network.sampleAuthority .empty :=
  .ofCredentials Network.sampleCredentials id (fun _ => rfl) sampleAuthority_verifiesSignature

def sampleBegun : Connection Str :=
  begun Network.sampleCredentials Network.sampleHandler Network.sampleHandler .empty

theorem init_sampleBegun :
    (system .clear Network.sampleAuthority .empty).init sampleBegun := by
  have hstart : start Network.sampleAuthority .empty (Network.undisturbed (Block.zero 32) 0 11)
      Network.sampleHandler Network.sampleHandler .empty = sampleBegun :=
    start_eq sampleServer (Int.natCast_nonneg 11) _ _ _
  exact ⟨_, _, _, _, hstart.symm, undisturbed_sends rfl⟩

theorem completes_of_whole_sample :
    ∃ labels : List Label, labels.length ≤ 299 ∧
      ((ended Network.sampleCredentials Network.sampleHandler Network.sampleHandler .empty 2 3
          .clear).Arriving ∨
        (ended Network.sampleCredentials Network.sampleHandler Network.sampleHandler .empty 2 3
          .clear).Completed) := by
  obtain ⟨labels, hrun⟩ := run_ended (P := .clear) Network.sampleCredentials
    Network.sampleHandler Network.sampleHandler .empty 2 3
  exact ⟨labels, completes_of_whole Primitives.clear_dhCommutes sampleServer init_sampleBegun
    hrun⟩

/-- The first `recv` of the client returns one byte of the certificate. -/
def sampleCut : Chunk := ⟨[3], by decide, by decide⟩

/-- The client does not wait for the rest of a certificate. -/
theorem not_completes_cut :
    ¬ ∀ (P : Primitives) (A : Authority Str) (mHost : Str) (_ : P.DHCommutes)
      (_ : HonestServer A mHost) (s t : Connection Str) (labels : List Label),
      (system P A mHost).init s → Run (system P A mHost) s labels t →
      labels.length ≤ 299 ∧ (t.Arriving ∨ t.Completed) := by
  intro hcompletes
  have hstep : (system .clear Network.sampleAuthority .empty).step sampleBegun
      (.client (Network.undisturbed (Block.zero 32) 0 0) sampleCut) _ :=
    Step.client _ sampleCut rfl rfl (by decide) (undisturbed_sends rfl)
  obtain ⟨_, harriving | hcompleted⟩ := hcompletes .clear Network.sampleAuthority .empty
    Primitives.clear_dhCommutes sampleServer _ _ _ init_sampleBegun (Run.cons hstep (Run.nil _))
  · rcases harriving with ⟨w, hphase, _⟩ | ⟨w, _, hsent⟩
    · cases hphase
    · exact hsent rfl
  · cases hcompleted.client

end Connection

end LeakyChat

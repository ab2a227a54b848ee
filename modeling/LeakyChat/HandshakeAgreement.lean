/-
What the two ends of a handshake know of each other.  A client that establishes
a session has had its challenge signed by a server; whose public key it was then
given, nothing says.
-/
import LeakyChat.DHKeyExchange
import LeakyChat.HandshakeNetwork
import LeakyChat.Server

namespace LeakyChat

open Transition Wire

/-- What an honest server shows, and what makes a client accept it. -/
structure Credentials {Cert : Type} (A : Authority Cert) (mHost : Str) (random : Block 32) where
  certificateBytes : Str
  certificate : Cert
  signature : Str
  file : A.serverCertificate = some certificateBytes
  parses : A.parse certificateBytes = some certificate
  verifies : A.verify certificate mHost = true
  signs : A.sign (challengeOf random) = some signature
  verifiesSignature : A.verifySignature certificate (challengeOf random) signature = true
  certificate_fits : (strBytes certificateBytes).length ≤ recvBufferSize
  signature_fits : (strBytes signature).length ≤ recvBufferSize

/-- A vector that one `recv` gets whole. -/
def vectorChunk (v : Str) (hfits : (strBytes v).length ≤ recvBufferSize) : Chunk :=
  ⟨strBytes v, strBytes_ne_nil v, hfits⟩

/-- A public key that one `recv` gets whole. -/
def PublicKey.chunk (key : PublicKey) : Chunk :=
  ⟨key.1, by rw [← List.length_pos_iff, key.2]; decide, by rw [key.2]; decide⟩

theorem challengeOf_length (random : Block 32) :
    (strBytes (challengeOf random)).length = 40 := by
  rw [strBytes_length, challengeOf, Block.toStr, random.2]

namespace Network

variable {Cert : Type} {P : Primitives} {A : Authority Cert} {mHost : Str} {random : Block 32}

/-- A step in which every `send` sends all it is given. -/
def undisturbed (random : Block 32) (exponent bytesSent : Nat) : HandshakeEnv :=
  ⟨some random, exponent, bytesSent, false, fun _ => 0⟩

/-- The server once it has sent the certificate. -/
def serverCertified (cred : Credentials A mHost random) (handler : NetworkHandler)
    (peer : Str) : ServerHandshake where
  handler := { handler with mCryptoState := .handshaking }
  mHost := peer
  challenge := none
  peerPublicKey := none
  sent := [strBytes cred.certificateBytes]
  phase := .waiting (.challenge [])

/-- The client once it has sent the challenge. -/
def clientChallenging (cred : Credentials A mHost random) (handler : NetworkHandler) :
    ClientHandshake Cert where
  handler := { handler with mCryptoState := .handshaking }
  mHost := mHost
  challenge := some (challengeOf random)
  peerPublicKey := none
  sent := [strBytes (challengeOf random)]
  phase := .waiting (.signature cred.certificate (challengeOf random))

/-- The server once it has signed the challenge. -/
def serverKeyed (cred : Credentials A mHost random) (handler : NetworkHandler) (peer : Str)
    (exponent : Nat) : ServerHandshake where
  handler := { handler with
    mCrypto := some (CryptoSession.fresh exponent)
    mCryptoState := .handshaking }
  mHost := peer
  challenge := some (challengeOf random)
  peerPublicKey := none
  sent := [strBytes cred.certificateBytes, strBytes cred.signature]
  phase := .waiting (.publicKey [])

/-- The client once it has sent its public key. -/
def clientKeyed (P : Primitives) (handler : NetworkHandler) (mHost : Str) (random : Block 32)
    (exponent : Nat) : ClientHandshake Cert where
  handler := { handler with
    mCrypto := some (CryptoSession.fresh exponent)
    mCryptoState := .handshaking }
  mHost := mHost
  challenge := some (challengeOf random)
  peerPublicKey := none
  sent := [strBytes (challengeOf random), (P.publicKey exponent).1]
  phase := .waiting .publicKey

/-- The client once it has received a public key. -/
def clientEstablished (P : Primitives) (handler : NetworkHandler) (mHost : Str)
    (random : Block 32) (exponent : Nat) (peerPublicKey : PublicKey) :
    ClientHandshake Cert where
  handler := { handler with
    mCrypto := some
      ⟨exponent, P.deriveKey (P.sharedSecret exponent peerPublicKey.toStr), true⟩
    mCryptoState := .established }
  mHost := mHost
  challenge := some (challengeOf random)
  peerPublicKey := some peerPublicKey.toStr
  sent := [strBytes (challengeOf random), (P.publicKey exponent).1]
  phase := .returned 0

/-- The server once it has received a public key and sent its own. -/
def serverEstablished (P : Primitives) (cred : Credentials A mHost random)
    (handler : NetworkHandler) (peer : Str) (exponent : Nat) (peerPublicKey : PublicKey) :
    ServerHandshake where
  handler := { handler with
    mCrypto := some
      ⟨exponent, P.deriveKey (P.sharedSecret exponent peerPublicKey.toStr), true⟩
    mCryptoState := .established }
  mHost := peer
  challenge := some (challengeOf random)
  peerPublicKey := some peerPublicKey.toStr
  sent := [strBytes cred.certificateBytes, strBytes cred.signature, (P.publicKey exponent).1]
  phase := .returned 0

theorem start_server (cred : Credentials A mHost random) (handler : NetworkHandler)
    (peer : Str) :
    ServerHandshake.start A (undisturbed random 0 0) handler peer =
      serverCertified cred handler peer := by
  have hsent : ¬ (undisturbed random 0 0).bytesSent < 0 := Int.lt_irrefl 0
  simp only [ServerHandshake.start, cred.file, vectorRecord_eq, if_neg hsent]
  rfl

theorem receive_certificate (cred : Credentials A mHost random) (handler : NetworkHandler) :
    ClientHandshake.receive P A (undisturbed random 0 40)
        (ClientHandshake.start handler mHost)
        (.chunk (vectorChunk cred.certificateBytes cred.certificate_fits)) =
      clientChallenging cred handler :=
  ClientHandshake.checkCertificate_eq cred.parses cred.verifies rfl (Int.natCast_nonneg 40)

theorem receive_challenge (cred : Credentials A mHost random) (handler : NetworkHandler)
    (peer : Str) (exponent : Nat)
    (hfits : (strBytes (challengeOf random)).length ≤ recvBufferSize) :
    ServerHandshake.receive P A (undisturbed random exponent (strBytes cred.signature).length)
        (serverCertified cred handler peer)
        (.chunk (vectorChunk (challengeOf random) hfits)) =
      serverKeyed cred handler peer exponent := by
  have hall : receiveBytes 40 false [] (.chunk (vectorChunk (challengeOf random) hfits)) =
      .returned (some ⟨strBytes (challengeOf random), challengeOf_length random⟩) :=
    receiveBytes_all false _ rfl
  simp only [ServerHandshake.receive, serverCertified, undisturbed, hall,
    ServerHandshake.receiving]
  exact ServerHandshake.signChallenge_eq rfl cred.signs (Int.natCast_nonneg _)

theorem receive_signature (cred : Credentials A mHost random) (handler : NetworkHandler)
    (exponent : Nat) :
    ClientHandshake.receive P A (undisturbed random exponent 256)
        (clientChallenging cred handler)
        (.chunk (vectorChunk cred.signature cred.signature_fits)) =
      clientKeyed P handler mHost random exponent :=
  ClientHandshake.checkSignature_eq cred.verifiesSignature rfl

theorem step_client {c c' : ClientHandshake Cert} {servers : List ServerHandshake}
    {env : HandshakeEnv} {recv : Recv}
    (hunforged : ClientHandshake.Unforged A (Network.mk [c] servers).Signed env recv c)
    (hreceive : c.receive P A env recv = c') :
    (system P A).step ⟨[c], servers⟩ (.client 0 env recv) ⟨[c'], servers⟩ := by
  subst hreceive
  exact Step.client 0 env recv rfl hunforged

theorem step_server {h h' : ServerHandshake} {clients : List (ClientHandshake Cert)}
    {env : HandshakeEnv} {recv : Recv} (hreceive : h.receive P A env recv = h') :
    (system P A).step ⟨clients, [h]⟩ (.server 0 env recv) ⟨clients, [h']⟩ := by
  subst hreceive
  exact Step.server 0 env recv rfl

/-- Certificate, challenge and signature can be delivered as they were sent. -/
theorem reachable_keyed (cred : Credentials A mHost random) {client server : NetworkHandler}
    (hclient : client.connected = true) (hserver : server.connected = true) (peer : Str)
    (a b : Nat) :
    Reachable (system P A)
      ⟨[clientKeyed P client mHost random a], [serverKeyed cred server peer b]⟩ := by
  have hfits : (strBytes (challengeOf random)).length ≤ recvBufferSize := by
    rw [challengeOf_length]
    decide
  have hserverStart : Reachable (system P A) ⟨[], [serverCertified cred server peer]⟩ := by
    have hstart : (system P A).step empty (.startServer (undisturbed random 0 0) server peer)
        ⟨[], [ServerHandshake.start A (undisturbed random 0 0) server peer]⟩ :=
      Step.startServer _ peer hserver
    rw [start_server cred] at hstart
    exact (Reachable.of_init rfl).step hstart
  have hclientStart : Reachable (system P A)
      ⟨[ClientHandshake.start client mHost], [serverCertified cred server peer]⟩ :=
    hserverStart.step (Step.startClient mHost hclient)
  have hchallenge : Reachable (system P A)
      ⟨[clientChallenging cred client], [serverCertified cred server peer]⟩ := by
    refine hclientStart.step (step_client ?_ (receive_certificate cred client))
    intro certificate challenge bytes signature hphase
    cases hphase
  have hsigned : Reachable (system P A)
      ⟨[clientChallenging cred client], [serverKeyed cred server peer b]⟩ :=
    hchallenge.step (step_server (receive_challenge cred server peer b hfits))
  refine hsigned.step (step_client ?_ (receive_signature cred client a))
  intro certificate challenge bytes signature hphase _ _ _ _
  cases hphase
  exact ⟨_, List.mem_singleton_self _, rfl⟩

theorem client_publicKey (handler : NetworkHandler) (exponent : Nat)
    (peerPublicKey : PublicKey) :
    ClientHandshake.receive P A (undisturbed random 0 0)
        (clientKeyed P handler mHost random exponent)
        (.chunk peerPublicKey.chunk) =
      clientEstablished P handler mHost random exponent peerPublicKey :=
  (ClientHandshake.receivePublicKey_eq peerPublicKey).trans (Handshake.establish_eq rfl _)

theorem server_publicKey (cred : Credentials A mHost random) (handler : NetworkHandler)
    (peer : Str) (exponent : Nat) (peerPublicKey : PublicKey) :
    ServerHandshake.receive P A (undisturbed random 0 256)
        (serverKeyed cred handler peer exponent)
        (.chunk peerPublicKey.chunk) =
      serverEstablished P cred handler peer exponent peerPublicKey := by
  have hall : receiveBytes 256 false [] (.chunk peerPublicKey.chunk) =
      .returned (some peerPublicKey) := receiveBytes_all false _ rfl
  simp only [ServerHandshake.receive, serverKeyed, undisturbed, hall, ServerHandshake.receiving]
  exact (ServerHandshake.exchangeKeys_eq rfl rfl peerPublicKey).trans
    (Handshake.establish_eq rfl _)

/-- The public key that comes next can be anybody's. -/
theorem reachable_clientEstablished (cred : Credentials A mHost random)
    {client server : NetworkHandler} (hclient : client.connected = true)
    (hserver : server.connected = true) (peer : Str) (a b : Nat) (peerPublicKey : PublicKey) :
    Reachable (system P A)
      ⟨[clientEstablished P client mHost random a peerPublicKey],
        [serverKeyed cred server peer b]⟩ := by
  refine (reachable_keyed cred hclient hserver peer a b).step
    (step_client ?_ (client_publicKey client a peerPublicKey))
  intro certificate challenge bytes signature hphase
  cases hphase

/-- If nothing disturbs it, a handshake ends with both ends established. -/
theorem reachable_established (cred : Credentials A mHost random)
    {client server : NetworkHandler} (hclient : client.connected = true)
    (hserver : server.connected = true) (peer : Str) (a b : Nat) :
    Reachable (system P A)
      ⟨[clientEstablished P client mHost random a (P.publicKey b)],
        [serverEstablished P cred server peer b (P.publicKey a)]⟩ := by
  have hexchanged : Reachable (system P A)
      ⟨[clientKeyed P client mHost random a],
        [serverEstablished P cred server peer b (P.publicKey a)]⟩ :=
    (reachable_keyed cred hclient hserver peer a b).step
      (step_server (server_publicKey cred server peer b (P.publicKey a)))
  refine hexchanged.step (step_client ?_ (client_publicKey client a (P.publicKey b)))
  intro certificate challenge bytes signature hphase
  cases hphase

/-- Each of the two has received what the other has sent last. -/
theorem established_exchanged (cred : Credentials A mHost random) (client server : NetworkHandler)
    (peer : Str) (a b : Nat) :
    (serverEstablished P cred server peer b (P.publicKey a)).peerPublicKey.map Subtype.val =
        (clientEstablished P client mHost random a (P.publicKey b) :
          ClientHandshake Cert).sent.getLast? ∧
      (serverEstablished P cred server peer b (P.publicKey a)).sent.getLast? =
        (clientEstablished P client mHost random a (P.publicKey b) :
          ClientHandshake Cert).peerPublicKey.map Subtype.val :=
  ⟨rfl, rfl⟩

/-- A server handshake that has returned 0 gives the server a connection. -/
theorem server_connects {s : Network Cert} (hreach : Reachable (system P A) s)
    {handshake : ServerHandshake} (hmem : handshake ∈ s.servers)
    (hreturned : handshake.phase = .returned 0) (hash : Str → UInt64) (t : Server) :
    Server.Step P hash t (.connect handshake.handler)
      { t with connections := t.connections.insert handshake.handler } := by
  obtain ⟨session, hhandler⟩ :=
    ((good_of_reachable hreach).servers handshake hmem).establishedWith hreturned
  exact Server.Step.connect hhandler

/-- A client that reaches an established session has had its own challenge
signed by a server; its key comes from its exponent and the public key it has
received, and a server that has exchanged these very public keys with it has the
same key. -/
theorem client_key (hcommutes : P.DHCommutes) {s : Network Cert}
    (hreach : Reachable (system P A) s) {client : ClientHandshake Cert}
    (hclient : client ∈ s.clients)
    (hestablished : client.handler.mCryptoState = .established) :
    ∃ session challenge peerPublicKey,
      client.handler.mCrypto = some session ∧
      client.challenge = some challenge ∧ s.Signed challenge ∧
      client.peerPublicKey = some peerPublicKey ∧
      client.sent.getLast? = some (session.getPublicKey P).1 ∧
      session.mKey = P.deriveKey (P.sharedSecret session.mDH peerPublicKey) ∧
      ∀ server ∈ s.servers, ∀ serverSession,
        server.handler.mCryptoState = .established →
        server.handler.mCrypto = some serverSession →
        server.peerPublicKey.map Subtype.val = client.sent.getLast? →
        server.sent.getLast? = client.peerPublicKey.map Subtype.val →
        serverSession.mKey = session.mKey := by
  have hgood := good_of_reachable hreach
  obtain ⟨⟨a, peerPublicKey, hcomplete⟩, challenge, hchallenge, hsigned⟩ :=
    (hgood.clients client hclient).complete hestablished
  refine ⟨_, challenge, peerPublicKey, hcomplete.crypto, hchallenge, hsigned, hcomplete.peer,
    hcomplete.sent, rfl, ?_⟩
  intro server hserver serverSession hstate hcrypto hreceived hsent
  obtain ⟨⟨b, clientPublicKey, hserverComplete⟩, _⟩ :=
    (hgood.servers server hserver).complete hstate
  rw [hserverComplete.crypto, Option.some.injEq] at hcrypto
  have hclientKey : clientPublicKey = (P.publicKey a).toStr := by
    rw [hserverComplete.peer, hcomplete.sent, Option.map_some, Option.some.injEq] at hreceived
    exact Subtype.ext hreceived
  have hserverKey : peerPublicKey = (P.publicKey b).toStr := by
    rw [hserverComplete.sent, hcomplete.peer, Option.map_some, Option.some.injEq] at hsent
    exact Subtype.ext hsent.symm
  rw [← hcrypto, hclientKey, hserverKey]
  exact congrArg P.deriveKey (hcommutes b a)

def sampleCertificate : Str := ⟨[99, 114, 116], by decide⟩

/-- An authority for one certificate, whose signatures show what is signed. -/
def sampleAuthority : Authority Str where
  serverCertificate := some sampleCertificate
  parse := some
  verify certificate _ := certificate = sampleCertificate
  sign := some
  verifySignature _ data signature := signature = data

def sampleCredentials : Credentials sampleAuthority .empty (Block.zero 32) where
  certificateBytes := sampleCertificate
  certificate := sampleCertificate
  signature := challengeOf (Block.zero 32)
  file := rfl
  parses := rfl
  verifies := by decide
  signs := rfl
  verifiesSignature := by decide
  certificate_fits := by decide
  signature_fits := by decide

def sampleHandler : NetworkHandler := NetworkHandler.fresh.setSocket 3

theorem sampleHandler_connected : sampleHandler.connected = true := rfl

/-- Both ends of a handshake that nothing has disturbed have the same key. -/
theorem client_key_sample :
    ∃ session serverSession : CryptoSession,
      (clientEstablished .clear sampleHandler .empty (Block.zero 32) 2
        (Primitives.clear.publicKey 3) : ClientHandshake Str).handler.mCrypto = some session ∧
      (serverEstablished .clear sampleCredentials sampleHandler .empty 3
        (Primitives.clear.publicKey 2)).handler.mCrypto = some serverSession ∧
      serverSession.mKey = session.mKey := by
  obtain ⟨session, challenge, peerPublicKey, hcrypto, _, _, _, _, _, hservers⟩ :=
    client_key Primitives.clear_dhCommutes
      (reachable_established sampleCredentials sampleHandler_connected
        sampleHandler_connected .empty 2 3)
      (List.mem_singleton_self _) rfl
  obtain ⟨hreceived, hsent⟩ := established_exchanged (P := .clear) sampleCredentials
    sampleHandler sampleHandler .empty 2 3
  exact ⟨session, _, hcrypto, rfl,
    hservers _ (List.mem_singleton_self _) _ rfl rfl hreceived hsent⟩

/-- The client establishes a session on a public key that comes from the
network; the server has received nothing. -/
theorem client_key_relayed :
    ¬ ∀ s : Network Str, Reachable (system .clear sampleAuthority) s →
      ∀ client ∈ s.clients, client.handler.mCryptoState = .established →
        ∃ server ∈ s.servers,
          server.peerPublicKey.map Subtype.val = client.sent.getLast? ∧
          server.sent.getLast? = client.peerPublicKey.map Subtype.val ∧
          server.handler.mCrypto.map (·.mKey) = client.handler.mCrypto.map (·.mKey) := by
  intro hagree
  obtain ⟨server, hserver, hreceived, _⟩ := hagree _
    (reachable_clientEstablished sampleCredentials sampleHandler_connected
      sampleHandler_connected .empty 2 3 (Primitives.clear.publicKey 4))
    _ (List.mem_singleton_self _) rfl
  rw [List.mem_singleton.mp hserver] at hreceived
  cases hreceived

end Network

end LeakyChat

/-
The handshake, at both ends of a connection.  The client checks the server's
certificate and its signature of a challenge; then the ends exchange their
Diffie-Hellman public keys, which nothing signs.  What happens between one
`recv` and the next is one step, so that handshakes can be interleaved.
-/
import LeakyChat.NetworkHandler

namespace LeakyChat

/-- The certificate and key files, and what OpenSSL makes of them.  `parse` and
`sign` are `none` and the checks are false also where the source throws. -/
structure Authority (Cert : Type) where
  serverCertificate : Option Str
  parse : Str → Option Cert
  verify : Cert → Str → Bool
  sign : Str → Option Str
  verifySignature : Cert → Str → Str → Bool

/-- What a step finds outside: the challenge if `RAND_bytes` draws one, the
exponent of a new session, what `send` returns, whether the `errno` of a failed
`recv` asks for another try, and what uninitialised memory holds. -/
structure HandshakeEnv where
  random : Option (Block 32)
  exponent : Nat
  bytesSent : Int
  tryAgain : Bool
  stack : Stack

inductive Phase (Waiting : Type) where
  | waiting (w : Waiting)
  | returned (result : Int)
  /-- `exit(1)`, or an exception nobody catches. -/
  | stopped

/-- A handshake between two of its `recv`s.  `challenge` is the one a client has
sent or a server has signed, `sent` everything handed to `send`. -/
structure Handshake (Waiting : Type) where
  handler : NetworkHandler
  mHost : Str
  challenge : Option Str
  peerPublicKey : Option Str
  sent : List (List UInt8)
  phase : Phase Waiting

/-- A byte vector written to a new buffer. -/
def vectorRecord (capacity : Nat) (v : Str) : List UInt8 :=
  ((MemBuffer.ofCapacity capacity).writeByteVector v).view

/-- A byte vector extracted from a buffer that holds the bytes. -/
def extractVector (bytes : List UInt8) (stack : Stack) : Except Fault Str :=
  match readByteVector ⟨(MemBuffer.ofCapacity bytes.length).writeBytes bytes, stack⟩ with
  | .error fault => .error fault
  | .ok (v, _) => .ok v

@[simp]
theorem vectorRecord_eq (capacity : Nat) (v : Str) : vectorRecord capacity v = strBytes v := by
  simp [vectorRecord]

theorem extractVector_strBytes (v : Str) (stack : Stack) :
    extractVector (strBytes v) stack = .ok v := by
  obtain ⟨r, hread, _⟩ := readByteVector_decodes v
    ⟨(MemBuffer.ofCapacity (strBytes v).length).writeBytes (strBytes v), stack⟩ []
    (by simp [Reader.view])
  rw [extractVector, hread]

/-- The bytes `RAND_bytes` has drawn, as the vector they are drawn into. -/
def challengeOf (random : Block 32) : Str := Block.toStr random (by decide)

namespace Handshake

variable {Waiting : Type}

def start (handler : NetworkHandler) (mHost : Str) (w : Waiting) : Handshake Waiting where
  handler := { handler with mCryptoState := .handshaking }
  mHost := mHost
  challenge := none
  peerPublicKey := none
  sent := []
  phase := .waiting w

def fail (h : Handshake Waiting) : Handshake Waiting := { h with phase := .returned (-1) }

def stop (h : Handshake Waiting) : Handshake Waiting := { h with phase := .stopped }

def await (h : Handshake Waiting) (w : Waiting) : Handshake Waiting :=
  { h with phase := .waiting w }

def send (h : Handshake Waiting) (bytes : List UInt8) : Handshake Waiting :=
  { h with sent := h.sent ++ [bytes] }

/-- `mCrypto = std::make_unique<CryptoSession>()`. -/
def makeCrypto (h : Handshake Waiting) (exponent : Nat) : Handshake Waiting :=
  { h with handler := { h.handler with mCrypto := some (CryptoSession.fresh exponent) } }

/-- The end of both handshakes: `mCrypto->establish(peerPublicKey)`. -/
def establish (P : Primitives) (h : Handshake Waiting) (peerPublicKey : Str) :
    Handshake Waiting :=
  match h.handler.mCrypto with
  | none => h.stop
  | some mCrypto =>
      match mCrypto.establish P peerPublicKey with
      | .error _ => h.stop
      | .ok mCrypto =>
          { h with
            handler := { h.handler with
              mCrypto := some mCrypto
              mCryptoState := .established }
            peerPublicKey := some peerPublicKey
            phase := .returned 0 }

/-- A session is established, or the process stops. -/
theorem establish_cases (P : Primitives) (h : Handshake Waiting) (peerPublicKey : Str) :
    h.establish P peerPublicKey = h.stop ∨
      ∃ session : CryptoSession, session.mEstablished = true ∧
        h.establish P peerPublicKey =
          { h with
            handler := { h.handler with
              mCrypto := some session
              mCryptoState := .established }
            peerPublicKey := some peerPublicKey
            phase := .returned 0 } := by
  unfold establish
  cases h.handler.mCrypto with
  | none => exact Or.inl rfl
  | some mCrypto =>
      simp only
      cases hestablish : mCrypto.establish P peerPublicKey with
      | error fault => exact Or.inl rfl
      | ok session =>
          exact Or.inr ⟨session, CryptoSession.established_of_establish P hestablish, rfl⟩

end Handshake

inductive ClientWaiting (Cert : Type) where
  | certificate
  | signature (certificate : Cert) (challenge : Str)
  | publicKey

abbrev ClientHandshake (Cert : Type) := Handshake (ClientWaiting Cert)

namespace ClientHandshake

variable {Cert : Type}

def start (handler : NetworkHandler) (mHost : Str) : ClientHandshake Cert :=
  Handshake.start handler mHost .certificate

section

variable (P : Primitives) (A : Authority Cert) (env : HandshakeEnv)

/-- From the certificate to the challenge. -/
def checkCertificate (h : ClientHandshake Cert) (bytes : List UInt8) : ClientHandshake Cert :=
  match extractVector bytes env.stack with
  | .error _ => h.fail
  | .ok certificateBytes =>
      match A.parse certificateBytes with
      | none => h.fail
      | some certificate =>
          if A.verify certificate h.mHost then
            match env.random with
            | none => h.fail
            | some random =>
                let challenge := challengeOf random
                let h := { h with challenge := some challenge }.send
                  (vectorRecord 32 challenge)
                if env.bytesSent < 0 then h.fail
                else h.await (.signature certificate challenge)
          else h.fail

/-- From the signature to the public key. -/
def checkSignature (h : ClientHandshake Cert) (certificate : Cert) (challenge : Str)
    (bytes : List UInt8) : ClientHandshake Cert :=
  match extractVector bytes env.stack with
  | .error _ => h.fail
  | .ok signature =>
      if A.verifySignature certificate challenge signature then
        let publicKey := (CryptoSession.fresh env.exponent).getPublicKey P
        let h := (h.makeCrypto env.exponent).send publicKey.1
        if env.bytesSent = 256 then h.await .publicKey else h.fail
      else h.fail

/-- One `recv` asks for the server's public key and has to get all of it. -/
def receivePublicKey (h : ClientHandshake Cert) (bytes : List UInt8) :
    ClientHandshake Cert :=
  if hlength : (bytes.take 256).length = 256 then
    let peerPublicKey : PublicKey := ⟨bytes.take 256, hlength⟩
    h.establish P peerPublicKey.toStr
  else h.fail

/-- `performClientHandshake`, up to the next `recv`. -/
def receive (h : ClientHandshake Cert) (recv : Recv) : ClientHandshake Cert :=
  match h.phase, recv with
  | .waiting .certificate, .chunk bytes => h.checkCertificate A env bytes.1
  | .waiting .certificate, _ => h.stop
  | .waiting (.signature certificate challenge), .chunk bytes =>
      h.checkSignature P A env certificate challenge bytes.1
  | .waiting .publicKey, .chunk bytes => h.receivePublicKey P bytes.1
  | .waiting _, _ => h.fail
  | _, _ => h

end

variable {P : Primitives} {A : Authority Cert} {env : HandshakeEnv} {h : ClientHandshake Cert}

/-- The client has failed before it drew a challenge, or it has drawn one for a
certificate that passes every check, and then sent it or failed to. -/
theorem checkCertificate_cases (A : Authority Cert) (env : HandshakeEnv)
    (h : ClientHandshake Cert) (bytes : List UInt8) :
    h.checkCertificate A env bytes = h.fail ∨
      ∃ certificateBytes certificate random,
        extractVector bytes env.stack = .ok certificateBytes ∧
        A.parse certificateBytes = some certificate ∧ A.verify certificate h.mHost = true ∧
        (h.checkCertificate A env bytes =
            ({ h with challenge := some (challengeOf random) }.send
              (strBytes (challengeOf random))).fail ∨
          h.checkCertificate A env bytes =
            ({ h with challenge := some (challengeOf random) }.send
              (strBytes (challengeOf random))).await
                (.signature certificate (challengeOf random))) := by
  unfold checkCertificate
  cases hextract : extractVector bytes env.stack with
  | error fault => exact Or.inl rfl
  | ok certificateBytes =>
      simp only
      cases hparse : A.parse certificateBytes with
      | none => exact Or.inl rfl
      | some certificate =>
          simp only
          by_cases hverify : A.verify certificate h.mHost = true
          · rw [if_pos hverify]
            cases env.random with
            | none => exact Or.inl rfl
            | some random =>
                refine Or.inr ⟨certificateBytes, certificate, random, rfl, hparse, hverify, ?_⟩
                simp only [vectorRecord_eq]
                by_cases hfails : env.bytesSent < 0
                · exact Or.inl (if_pos hfails)
                · exact Or.inr (if_neg hfails)
          · rw [if_neg hverify]
            exact Or.inl rfl

/-- A signature is refused, or a public key follows it. -/
theorem checkSignature_cases (P : Primitives) (A : Authority Cert) (env : HandshakeEnv)
    (h : ClientHandshake Cert) (certificate : Cert) (challenge : Str) (bytes : List UInt8) :
    (h.checkSignature P A env certificate challenge bytes = h.fail ∧
      ∀ signature, extractVector bytes env.stack = .ok signature →
        A.verifySignature certificate challenge signature = false) ∨
      ∃ signature, extractVector bytes env.stack = .ok signature ∧
        A.verifySignature certificate challenge signature = true ∧
        (h.checkSignature P A env certificate challenge bytes =
            ((h.makeCrypto env.exponent).send (P.publicKey env.exponent).1).fail ∨
          h.checkSignature P A env certificate challenge bytes =
            ((h.makeCrypto env.exponent).send (P.publicKey env.exponent).1).await
              .publicKey) := by
  unfold checkSignature
  cases hextract : extractVector bytes env.stack with
  | error fault => exact Or.inl ⟨rfl, by rintro signature ⟨⟩⟩
  | ok signature =>
      simp only
      by_cases hverify : A.verifySignature certificate challenge signature = true
      · refine Or.inr ⟨signature, rfl, hverify, ?_⟩
        rw [if_pos hverify]
        by_cases hsends : env.bytesSent = 256
        · exact Or.inr (if_pos hsends)
        · exact Or.inl (if_neg hsends)
      · refine Or.inl ⟨if_neg hverify, ?_⟩
        rintro _ ⟨⟩
        exact Bool.eq_false_of_not_eq_true hverify

/-- A public key comes whole or not at all. -/
theorem receivePublicKey_cases (P : Primitives) (h : ClientHandshake Cert)
    (bytes : List UInt8) :
    h.receivePublicKey P bytes = h.fail ∨ ∃ peerPublicKey : PublicKey,
      h.receivePublicKey P bytes = h.establish P peerPublicKey.toStr := by
  unfold receivePublicKey
  by_cases hlength : (bytes.take 256).length = 256
  · rw [dif_pos hlength]
    exact Or.inr ⟨⟨bytes.take 256, hlength⟩, rfl⟩
  · rw [dif_neg hlength]
    exact Or.inl rfl

/-- A certificate that passes every check is answered with a challenge. -/
theorem checkCertificate_eq {certificateBytes : Str} {certificate : Cert} {random : Block 32}
    (hparse : A.parse certificateBytes = some certificate)
    (hverify : A.verify certificate h.mHost = true) (hrandom : env.random = some random)
    (hsent : 0 ≤ env.bytesSent) :
    h.checkCertificate A env (strBytes certificateBytes) =
      ({ h with challenge := some (challengeOf random) }.send
        (strBytes (challengeOf random))).await
          (.signature certificate (challengeOf random)) := by
  simp only [checkCertificate, extractVector_strBytes, hparse, hverify, hrandom, ↓reduceIte,
    vectorRecord_eq, if_neg (Int.not_lt.mpr hsent)]

/-- A valid signature is answered with a public key. -/
theorem checkSignature_eq {certificate : Cert} {challenge signature : Str}
    (hverify : A.verifySignature certificate challenge signature = true)
    (hsent : env.bytesSent = 256) :
    h.checkSignature P A env certificate challenge (strBytes signature) =
      ((h.makeCrypto env.exponent).send (P.publicKey env.exponent).1).await .publicKey := by
  simp only [checkSignature, extractVector_strBytes, hverify, hsent, ↓reduceIte]
  rfl

theorem receivePublicKey_eq (peerPublicKey : PublicKey) :
    h.receivePublicKey P peerPublicKey.1 = h.establish P peerPublicKey.toStr := by
  have htake : peerPublicKey.1.take 256 = peerPublicKey.1 :=
    List.take_of_length_le (Nat.le_of_eq peerPublicKey.2)
  simp only [receivePublicKey, htake, peerPublicKey.2, ↓reduceDIte]

end ClientHandshake

/-- How a turn of the loop of `receiveBytes` ends. -/
inductive Receiving (size : Nat) where
  | waiting (received : List UInt8)
  | returned (result : Option (Block size))
  | stopped

/-- A turn of the loop: what `recv` gets is at most what is missing. -/
def receiveBytes (size : Nat) (tryAgain : Bool) (received : List UInt8) :
    Recv → Receiving size
  | .chunk bytes =>
      if h : size ≤ (received ++ bytes.1).length then
        .returned (some ⟨(received ++ bytes.1).take size, List.length_take_of_le h⟩)
      else .waiting (received ++ bytes.1)
  | .closed => .returned none
  | .idle => if tryAgain then .waiting received else .stopped

/-- Everything at once, if `recv` gets it. -/
theorem receiveBytes_all {size : Nat} (tryAgain : Bool) (block : Block size) {bytes : Chunk}
    (hbytes : bytes.1 = block.1) :
    receiveBytes size tryAgain [] (.chunk bytes) = .returned (some block) := by
  have hall : block.1.take size = block.1 :=
    List.take_of_length_le (Nat.le_of_eq block.2)
  have hlength : size ≤ ([] ++ bytes.1).length := by
    rw [List.nil_append, hbytes, block.2]
  simp only [receiveBytes, dif_pos hlength]
  simp only [List.nil_append, hbytes, hall]

inductive ServerWaiting where
  | challenge (received : List UInt8)
  | publicKey (received : List UInt8)

abbrev ServerHandshake := Handshake ServerWaiting

namespace ServerHandshake

variable {Cert : Type} (P : Primitives) (A : Authority Cert) (env : HandshakeEnv)

def start (handler : NetworkHandler) (mHost : Str) : ServerHandshake :=
  let h := Handshake.start handler mHost (.challenge [])
  match A.serverCertificate with
  | none => h.fail
  | some certificateBytes =>
      let h := h.send (vectorRecord 1024 certificateBytes)
      if env.bytesSent < 0 then h.fail else h

/-- From the challenge to the signature. -/
def signChallenge (h : ServerHandshake) (challengeBytes : Block 40) : ServerHandshake :=
  match extractVector challengeBytes.1 env.stack with
  | .error _ => h.fail
  | .ok challenge =>
      match A.sign challenge with
      | none => h.fail
      | some signature =>
          let h := { h with challenge := some challenge }.send (vectorRecord 1024 signature)
          if env.bytesSent < 0 then h.fail
          else (h.makeCrypto env.exponent).await (.publicKey [])

/-- From the client's public key to the end. -/
def exchangeKeys (h : ServerHandshake) (peerPublicKey : PublicKey) : ServerHandshake :=
  match h.handler.mCrypto with
  | none => h.stop
  | some mCrypto =>
      let h := { h with peerPublicKey := some peerPublicKey.toStr }.send
        (mCrypto.getPublicKey P).1
      if env.bytesSent = 256 then h.establish P peerPublicKey.toStr else h.fail

/-- A wait in `receiveBytes`, and what follows it. -/
def receiving {size : Nat} (h : ServerHandshake) (w : List UInt8 → ServerWaiting)
    (next : Block size → ServerHandshake) : Receiving size → ServerHandshake
  | .waiting received => h.await (w received)
  | .returned none => h.fail
  | .returned (some bytes) => next bytes
  | .stopped => h.stop

/-- `performServerHandshake`, up to the next `recv`. -/
def receive (h : ServerHandshake) (recv : Recv) : ServerHandshake :=
  match h.phase with
  | .waiting (.challenge received) =>
      h.receiving .challenge (h.signChallenge A env)
        (receiveBytes 40 env.tryAgain received recv)
  | .waiting (.publicKey received) =>
      h.receiving .publicKey (h.exchangeKeys P env)
        (receiveBytes 256 env.tryAgain received recv)
  | _ => h

variable {P A env} {h : ServerHandshake}

theorem signChallenge_eq {challenge signature : Str} {challengeBytes : Block 40}
    (hbytes : challengeBytes.1 = strBytes challenge) (hsign : A.sign challenge = some signature)
    (hsent : 0 ≤ env.bytesSent) :
    h.signChallenge A env challengeBytes =
      (({ h with challenge := some challenge }.send (strBytes signature)).makeCrypto
        env.exponent).await (.publicKey []) := by
  simp only [signChallenge, hbytes, extractVector_strBytes, hsign, vectorRecord_eq,
    if_neg (Int.not_lt.mpr hsent)]

theorem receive_challenge_eq (P : Primitives) (A : Authority Cert) (env : HandshakeEnv)
    {received : List UInt8} (hwaits : h.phase = .waiting (.challenge received)) (recv : Recv) :
    h.receive P A env recv = h.receiving .challenge (h.signChallenge A env)
      (receiveBytes 40 env.tryAgain received recv) := by
  rw [receive, hwaits]

theorem receive_publicKey_eq (P : Primitives) (A : Authority Cert) (env : HandshakeEnv)
    {received : List UInt8} (hwaits : h.phase = .waiting (.publicKey received)) (recv : Recv) :
    h.receive P A env recv = h.receiving .publicKey (h.exchangeKeys P env)
      (receiveBytes 256 env.tryAgain received recv) := by
  rw [receive, hwaits]

/-- Without a certificate nothing is sent; else the handshake goes on, or the
`send` has failed. -/
theorem start_cases (A : Authority Cert) (env : HandshakeEnv) (handler : NetworkHandler)
    (mHost : Str) :
    (A.serverCertificate = none ∧
      start A env handler mHost = (Handshake.start handler mHost (.challenge [])).fail) ∨
      ∃ certificateBytes, A.serverCertificate = some certificateBytes ∧
        (start A env handler mHost =
            ((Handshake.start handler mHost (.challenge [])).send
              (strBytes certificateBytes)).fail ∨
          start A env handler mHost =
            (Handshake.start handler mHost (.challenge [])).send (strBytes certificateBytes)) := by
  unfold start
  cases A.serverCertificate with
  | none => exact Or.inl ⟨rfl, rfl⟩
  | some certificateBytes =>
      refine Or.inr ⟨certificateBytes, rfl, ?_⟩
      simp only [vectorRecord_eq]
      by_cases hfails : env.bytesSent < 0
      · exact Or.inl (if_pos hfails)
      · exact Or.inr (if_neg hfails)

/-- A challenge that can be read and signed is answered; the answer fails, or the
public key comes next. -/
theorem signChallenge_cases (A : Authority Cert) (env : HandshakeEnv) (h : ServerHandshake)
    (challengeBytes : Block 40) :
    (h.signChallenge A env challengeBytes = h.fail ∧
      ∀ challenge, extractVector challengeBytes.1 env.stack = .ok challenge →
        A.sign challenge = none) ∨
      ∃ challenge signature, extractVector challengeBytes.1 env.stack = .ok challenge ∧
        A.sign challenge = some signature ∧
        (h.signChallenge A env challengeBytes =
            ({ h with challenge := some challenge }.send (strBytes signature)).fail ∨
          h.signChallenge A env challengeBytes =
            (({ h with challenge := some challenge }.send (strBytes signature)).makeCrypto
              env.exponent).await (.publicKey [])) := by
  unfold signChallenge
  cases hextract : extractVector challengeBytes.1 env.stack with
  | error fault => exact Or.inl ⟨rfl, by rintro challenge ⟨⟩⟩
  | ok challenge =>
      simp only
      cases hsign : A.sign challenge with
      | none =>
          refine Or.inl ⟨rfl, ?_⟩
          rintro _ ⟨⟩
          exact hsign
      | some signature =>
          refine Or.inr ⟨challenge, signature, rfl, hsign, ?_⟩
          simp only [vectorRecord_eq]
          by_cases hfails : env.bytesSent < 0
          · exact Or.inl (if_pos hfails)
          · exact Or.inr (if_neg hfails)

/-- The server's public key is sent before the session is established. -/
theorem exchangeKeys_cases (P : Primitives) (env : HandshakeEnv) {mCrypto : CryptoSession}
    (hcrypto : h.handler.mCrypto = some mCrypto) (peerPublicKey : PublicKey) :
    h.exchangeKeys P env peerPublicKey =
        ({ h with peerPublicKey := some peerPublicKey.toStr }.send
          (mCrypto.getPublicKey P).1).fail ∨
      h.exchangeKeys P env peerPublicKey =
        ({ h with peerPublicKey := some peerPublicKey.toStr }.send
          (mCrypto.getPublicKey P).1).establish P peerPublicKey.toStr := by
  unfold exchangeKeys
  rw [hcrypto]
  by_cases hsends : env.bytesSent = 256
  · exact Or.inr (if_pos hsends)
  · exact Or.inl (if_neg hsends)

theorem exchangeKeys_eq {mCrypto : CryptoSession} (hcrypto : h.handler.mCrypto = some mCrypto)
    (hsent : env.bytesSent = 256) (peerPublicKey : PublicKey) :
    h.exchangeKeys P env peerPublicKey =
      ({ h with peerPublicKey := some peerPublicKey.toStr }.send
        (mCrypto.getPublicKey P).1).establish P peerPublicKey.toStr := by
  simp only [exchangeKeys, hcrypto, hsent, ↓reduceIte]

end ServerHandshake

end LeakyChat

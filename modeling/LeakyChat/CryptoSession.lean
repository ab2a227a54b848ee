/-
Key agreement and authenticated encryption as the sessions use them.  The
primitives are parameters; `CryptoSession` is the class built on them.
-/
import LeakyChat.MemBuffer

namespace LeakyChat

abbrev Key := Block 32
abbrev Nonce := Block 12
abbrev Tag := Block 16

/-- The numbers below 2^2048 that `getPublicKey` and `computeSharedSecret`
write out, padded to 256 bytes. -/
abbrev PublicKey := Block 256

structure EncryptedData where
  nonce : Nonce
  ciphertext : Str
  tag : Tag
deriving DecidableEq

/-- The largest number OpenSSL expands a `BIGNUM` to: 8388607 words of 8 bytes. -/
def maxBignum : Nat := 67108856

/-- The bytes `BN_bin2bn` reads: its length is an `int`, to which the size of the
vector is narrowed. -/
def bignumBytes (bytes : List UInt8) : List UInt8 := bytes.take (bytes.length % 2 ^ 32)

/-- `BN_bin2bn` does not fail: the `int` is not negative, and the number, without
its leading zeros, is not too large. -/
def FitsBignum (bytes : List UInt8) : Prop :=
  bytes.length % 2 ^ 32 < 2 ^ 31 ∧
    ((bignumBytes bytes).dropWhile (· == 0)).length ≤ maxBignum
deriving Decidable

theorem fitsBignum_of_length {bytes : List UInt8} (hlength : bytes.length ≤ maxBignum) :
    FitsBignum bytes := by
  have hmax : maxBignum < 2 ^ 31 := by decide
  constructor
  · exact (Nat.mod_le _ _).trans_lt (hlength.trans_lt hmax)
  · have hdrop := (List.dropWhile_sublist (· == 0) (l := bignumBytes bytes)).length_le
    have htake : (bignumBytes bytes).length ≤ bytes.length := List.length_take_le' _ _
    exact hdrop.trans (htake.trans hlength)

theorem FitsBignum.int {bytes : List UInt8} (hfits : FitsBignum bytes) :
    bytes.length % 2 ^ 32 < 2 ^ 31 := hfits.1

theorem fitsBignum_zeros {n : Nat} (hn : n % 2 ^ 32 < 2 ^ 31) :
    FitsBignum (List.replicate n 0) := by
  refine ⟨by rwa [List.length_replicate], ?_⟩
  rw [bignumBytes, List.take_replicate, List.dropWhile_replicate, if_pos (beq_self_eq_true 0)]
  exact Nat.zero_le _

attribute [irreducible] FitsBignum

/-- What the sessions call: Diffie-Hellman on private exponents, SHA-256 as the
key derivation, and AES-256-GCM under a chosen nonce.  `gcmOpen` is `none` where
authentication fails. -/
structure Primitives where
  publicKey : Nat → PublicKey
  sharedSecret : Nat → Str → PublicKey
  deriveKey : PublicKey → Key
  gcmSeal : Key → Nonce → Str → Str × Tag
  gcmOpen : Key → Nonce → Str → Tag → Option Str

def Block.toStr {size : Nat} (b : Block size) (hsize : size ≤ maxSize) : Str :=
  ⟨b.1, by rw [b.2]; exact hsize⟩

def PublicKey.toStr (key : PublicKey) : Str := Block.toStr key (by decide)

theorem PublicKey.fitsBignum (key : PublicKey) : FitsBignum key.toStr.1 := by
  have hlength : key.toStr.1.length = 256 := key.2
  exact fitsBignum_of_length (by rw [hlength]; decide)

namespace Primitives

variable (P : Primitives)

/-- Both ends of an exchange compute the same secret. -/
def DHCommutes : Prop :=
  ∀ a b, P.sharedSecret a (P.publicKey b).toStr =
    P.sharedSecret b (P.publicKey a).toStr

/-- Decryption under the same key undoes encryption, whatever the length.  `AESGCM` casts sizes
to `int`, so of the code it is true for texts of less than 2^31 bytes. -/
def GcmOpensSealed : Prop :=
  ∀ key nonce text,
    P.gcmOpen key nonce (P.gcmSeal key nonce text).1 (P.gcmSeal key nonce text).2 = some text

def bin2bnFailed : Fault := .runtimeError "BN_bin2bn failed"

/-- `computeSharedSecret`, which throws at a peer's key that is no `BIGNUM`. -/
def computeSharedSecret (mPrivateKey : Nat) (peerPublicKey : Str) : Except Fault PublicKey :=
  if FitsBignum peerPublicKey.1 then .ok (P.sharedSecret mPrivateKey peerPublicKey)
  else .error bin2bnFailed

/-- `AESGCM::encrypt` with the nonce `RAND_bytes` drew. -/
def encrypt (key : Key) (nonce : Nonce) (plaintext : Str) : EncryptedData :=
  ⟨nonce, (P.gcmSeal key nonce plaintext).1, (P.gcmSeal key nonce plaintext).2⟩

def authenticationFailed : Fault := .runtimeError "AES-GCM authentication failed"

/-- `AESGCM::decrypt`. -/
def decrypt (key : Key) (encrypted : EncryptedData) : Except Fault Str :=
  match P.gcmOpen key encrypted.nonce encrypted.ciphertext encrypted.tag with
  | some plaintext => .ok plaintext
  | none => .error authenticationFailed

theorem decrypt_encrypt (hseal : P.GcmOpensSealed) (key : Key) (nonce : Nonce)
    (plaintext : Str) :
    P.decrypt key (P.encrypt key nonce plaintext) = .ok plaintext := by
  simp [decrypt, encrypt, hseal key nonce plaintext]

end Primitives

/-- `mDH` stands for the key pair by its private exponent. -/
structure CryptoSession where
  mDH : Nat
  mKey : Key
  mEstablished : Bool
deriving DecidableEq

namespace CryptoSession

variable (P : Primitives)

/-- `CryptoSession()` with the exponent `RAND_bytes` drew. -/
def fresh (exponent : Nat) : CryptoSession := ⟨exponent, Block.zero 32, false⟩

def getPublicKey (c : CryptoSession) : PublicKey := P.publicKey c.mDH

def alreadyEstablished : Fault := .runtimeError "CryptoSession is already established"

def establish (c : CryptoSession) (peerPublicKey : Str) :
    Except Fault CryptoSession :=
  if c.mEstablished then
    .error alreadyEstablished
  else
    match P.computeSharedSecret c.mDH peerPublicKey with
    | .error fault => .error fault
    | .ok sharedSecret =>
        .ok { c with
          mKey := P.deriveKey sharedSecret
          mEstablished := true }

def notEstablished : Fault := .runtimeError "CryptoSession is not established"

def encrypt (c : CryptoSession) (nonce : Nonce) (plaintext : Str) :
    Except Fault EncryptedData :=
  if c.mEstablished then .ok (P.encrypt c.mKey nonce plaintext)
  else .error notEstablished

def decrypt (c : CryptoSession) (encrypted : EncryptedData) : Except Fault Str :=
  if c.mEstablished then P.decrypt c.mKey encrypted
  else .error notEstablished

theorem establish_of_not {c : CryptoSession} (hc : c.mEstablished = false)
    {peerPublicKey : Str} (hkey : FitsBignum peerPublicKey.1) :
    c.establish P peerPublicKey = .ok
      ⟨c.mDH, P.deriveKey (P.sharedSecret c.mDH peerPublicKey), true⟩ := by
  simp [establish, hc, Primitives.computeSharedSecret, hkey]

theorem establish_established {c : CryptoSession} (hc : c.mEstablished = true)
    (peerPublicKey : Str) : c.establish P peerPublicKey = .error alreadyEstablished := by
  simp [establish, hc]

/-- A key pair that is not established yet throws at a key that is no `BIGNUM`. -/
theorem establish_unfit {c : CryptoSession} (hc : c.mEstablished = false) {peerPublicKey : Str}
    (hkey : ¬ FitsBignum peerPublicKey.1) :
    c.establish P peerPublicKey = .error Primitives.bin2bnFailed := by
  simp [establish, hc, Primitives.computeSharedSecret, hkey]

theorem establish_ok {c session : CryptoSession} {peerPublicKey : Str}
    (hestablish : c.establish P peerPublicKey = .ok session) :
    c.mEstablished = false ∧ FitsBignum peerPublicKey.1 := by
  cases hc : c.mEstablished with
  | true => simp [establish_established P hc] at hestablish
  | false =>
      refine ⟨rfl, ?_⟩
      by_contra hkey
      simp [establish_unfit P hc hkey] at hestablish

theorem established_of_establish {c session : CryptoSession} {peerPublicKey : Str}
    (hestablish : c.establish P peerPublicKey = .ok session) :
    session.mEstablished = true := by
  obtain ⟨hc, hkey⟩ := establish_ok P hestablish
  rw [establish_of_not P hc hkey] at hestablish
  cases hestablish
  rfl

theorem decrypt_ne_undefined (c : CryptoSession) (encrypted : EncryptedData) :
    c.decrypt P encrypted ≠ .error .undefined := by
  unfold decrypt
  split
  · unfold Primitives.decrypt
    split <;> simp [Primitives.authenticationFailed]
  · simp [notEstablished]

/-- Two established sessions under one key read each other's messages. -/
theorem decrypt_encrypt (hseal : P.GcmOpensSealed) {c d : CryptoSession}
    (hd : d.mEstablished = true) (hkey : c.mKey = d.mKey) {nonce : Nonce}
    {plaintext : Str} {encrypted : EncryptedData}
    (henc : c.encrypt P nonce plaintext = .ok encrypted) :
    d.decrypt P encrypted = .ok plaintext := by
  by_cases hc : c.mEstablished = true
  · simp only [encrypt, hc, ↓reduceIte, Except.ok.injEq] at henc
    subst henc
    simp only [decrypt, hd, ↓reduceIte, ← hkey]
    exact P.decrypt_encrypt hseal c.mKey nonce plaintext
  · simp [encrypt, hc] at henc

end CryptoSession

end LeakyChat

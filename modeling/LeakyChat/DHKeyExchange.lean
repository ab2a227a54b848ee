/-
Diffie-Hellman over the 2048-bit group 14, on exact natural numbers.
-/
import LeakyChat.CryptoSession
import Mathlib.Tactic.Ring

namespace LeakyChat

open Wire

namespace DHKeyExchange

/-- `GROUP14_PRIME`. -/
def prime : Nat :=
  0xFFFFFFFFFFFFFFFFC90FDAA22168C234C4C6628B80DC1CD129024E088A67CC74020BBEA63B139B22514A08798E3404DDEF9519B3CD3A431B302B0A6DF25F14374FE1356D6D51C245E485B576625E7EC6F44C42E9A637ED6B0BFF5CB6F406B7EDEE386BFB5A899FA5AE9F24117C4B1FE649286651ECE45B3DC2007CB8A163BF0598DA48361C55D39A69163FA8FD24CF5F83655D23DCA3AD961C62F356208552BB9ED529077096966D670C354E4ABC9804F1746C08CA18217C32905E462E36CE3BE39E772C180E86039B2783A2EC07A28FB5C55DF06F4C52C9DE2BCBF6955817183995497CEA956AE515D2261898FA051015728E5A8AACAA68FFFFFFFFFFFFFFFF

def generator : Nat := 2

/-- The loop of `modExp`, by the low bit of the exponent. -/
def modExpLoop (modulus result b e : Nat) : Nat :=
  if e = 0 then result
  else
    modExpLoop modulus (if e % 2 = 1 then result * b % modulus else result)
      (b * b % modulus) (e / 2)

def modExp (base exponent modulus : Nat) : Nat :=
  modExpLoop modulus 1 (base % modulus) exponent

/-- The loop keeps `result * b ^ e` modulo the modulus. -/
theorem modExpLoop_mod (modulus result b e : Nat) :
    modExpLoop modulus result b e % modulus = result * b ^ e % modulus := by
  fun_induction modExpLoop modulus result b e with
  | case1 result b => rw [pow_zero, mul_one]
  | case2 result b e he ih =>
      rw [dite_eq_ite] at ih
      rw [ih]
      have hsquare : (b * b % modulus) ^ (e / 2) ≡ b ^ (2 * (e / 2)) [MOD modulus] := by
        rw [pow_mul, pow_two]
        exact (Nat.mod_modEq (b * b) modulus).pow (e / 2)
      by_cases hodd : e % 2 = 1
      · have hexp : b ^ e = b * b ^ (2 * (e / 2)) := by
          rw [← pow_succ']
          congr 1
          omega
        rw [if_pos hodd, hexp, ← mul_assoc]
        exact (Nat.mod_modEq (result * b) modulus).mul hsquare
      · have hexp : b ^ e = b ^ (2 * (e / 2)) := by
          congr 1
          omega
        rw [if_neg hodd, hexp]
        exact hsquare.mul_left result

theorem modExpLoop_lt {modulus result : Nat} (hresult : result < modulus) (b e : Nat) :
    modExpLoop modulus result b e < modulus := by
  fun_induction modExpLoop modulus result b e with
  | case1 result b => exact hresult
  | case2 result b e he ih =>
      apply ih
      split
      · exact Nat.mod_lt _ (Nat.zero_lt_of_lt hresult)
      · exact hresult

theorem modExp_eq {modulus : Nat} (hmodulus : 1 < modulus) (base exponent : Nat) :
    modExp base exponent modulus = base ^ exponent % modulus := by
  have hmod := modExpLoop_mod modulus 1 (base % modulus) exponent
  rw [one_mul, ← Nat.pow_mod] at hmod
  rw [← hmod, modExp]
  exact (Nat.mod_eq_of_lt (modExpLoop_lt hmodulus _ _)).symm

/-- The 256 big-endian bytes of a number that fits. -/
def padded (n : Nat) : PublicKey := ⟨(leBytes 256 n).reverse, by simp⟩

/-- `BN_bn2binpad` into 256 bytes. -/
def bn2binpad (n : Nat) : Except Fault PublicKey :=
  if n < 256 ^ 256 then .ok (padded n)
  else .error (.runtimeError "BN_bn2binpad failed")

/-- The number `BN_bin2bn` makes of bytes. -/
def bin2bn (bytes : List UInt8) : Nat := leNat (bignumBytes bytes).reverse

def getPublicKey (mPrivateKey : Nat) : Except Fault PublicKey :=
  bn2binpad (modExp generator mPrivateKey prime)

def computeSharedSecret (mPrivateKey : Nat) (peerPublicKey : Str) :
    Except Fault PublicKey :=
  if FitsBignum peerPublicKey.1 then
    bn2binpad (modExp (bin2bn peerPublicKey.1) mPrivateKey prime)
  else .error Primitives.bin2bnFailed

theorem bin2bn_padded {n : Nat} (hn : n < 256 ^ 256) : bin2bn (padded n).1 = n := by
  have hlength : (padded n).1.length = 256 := (padded n).2
  have hwhole : bignumBytes (padded n).1 = (padded n).1 := by
    rw [bignumBytes, hlength]
    exact List.take_of_length_le hlength.le
  rw [bin2bn, hwhole, padded, List.reverse_reverse, leNat_leBytes_of_lt hn]

theorem one_lt_prime : 1 < prime := by
  unfold prime
  decide

/-- Every residue fits, so the padding never fails. -/
theorem modExp_lt (base exponent : Nat) : modExp base exponent prime < 256 ^ 256 := by
  have hprime : prime < 256 ^ 256 := by
    unfold prime
    decide
  rw [modExp_eq one_lt_prime]
  exact (Nat.mod_lt _ (Nat.zero_lt_of_lt one_lt_prime)).trans hprime

/-- The public key, and the shared secret with a key that is a `BIGNUM`. -/
def publicKey (mPrivateKey : Nat) : PublicKey :=
  padded (modExp generator mPrivateKey prime)

def sharedSecret (mPrivateKey : Nat) (peerPublicKey : Str) : PublicKey :=
  padded (modExp (bin2bn peerPublicKey.1) mPrivateKey prime)

theorem getPublicKey_eq (mPrivateKey : Nat) :
    getPublicKey mPrivateKey = .ok (publicKey mPrivateKey) := by
  rw [getPublicKey, bn2binpad, if_pos (modExp_lt _ _), publicKey]

theorem computeSharedSecret_eq (mPrivateKey : Nat) {peerPublicKey : Str}
    (hkey : FitsBignum peerPublicKey.1) :
    computeSharedSecret mPrivateKey peerPublicKey =
      .ok (sharedSecret mPrivateKey peerPublicKey) := by
  rw [computeSharedSecret, if_pos hkey, bn2binpad, if_pos (modExp_lt _ _), sharedSecret]

/-- Raising a public key to another exponent raises the generator to the
product. -/
theorem modExp_publicKey (a b : Nat) :
    modExp (bin2bn (publicKey b).1) a prime = generator ^ (b * a) % prime := by
  rw [publicKey, bin2bn_padded (modExp_lt _ _), modExp_eq one_lt_prime,
    modExp_eq one_lt_prime, ← Nat.pow_mod, ← pow_mul]

theorem sharedSecret_comm (a b : Nat) :
    sharedSecret a (publicKey b).toStr = sharedSecret b (publicKey a).toStr := by
  have hbytes : ∀ key : PublicKey, key.toStr.1 = key.1 := fun _ => rfl
  rw [sharedSecret, sharedSecret, hbytes, hbytes, modExp_publicKey, modExp_publicKey,
    mul_comm]

theorem bin2bn_sharedSecret (a b : Nat) :
    bin2bn (sharedSecret a (publicKey b).toStr).1 = generator ^ (a * b) % prime := by
  have hbytes : ∀ key : PublicKey, key.toStr.1 = key.1 := fun _ => rfl
  rw [sharedSecret, bin2bn_padded (modExp_lt _ _), hbytes, modExp_publicKey, mul_comm]

/-- Square-and-multiply computes the power, and its residues fit into 256 bytes;
so neither end fails, and both have the bytes of `generator ^ (a * b)`. -/
theorem computeSharedSecret_agrees :
    (∀ base exponent modulus : Nat, 1 < modulus →
      modExp base exponent modulus = base ^ exponent % modulus) ∧
    (∀ base exponent : Nat, ∃ bytes, bn2binpad (modExp base exponent prime) = .ok bytes) ∧
    ∀ a b : Nat, ∃ keyA keyB secret : PublicKey,
      getPublicKey a = .ok keyA ∧ getPublicKey b = .ok keyB ∧
      computeSharedSecret a keyB.toStr = .ok secret ∧
      computeSharedSecret b keyA.toStr = .ok secret ∧
      bin2bn secret.1 = generator ^ (a * b) % prime := by
  refine ⟨fun base exponent modulus hmodulus => modExp_eq hmodulus base exponent, ?_, ?_⟩
  · intro base exponent
    exact ⟨_, if_pos (modExp_lt base exponent)⟩
  · intro a b
    refine ⟨publicKey a, publicKey b, sharedSecret a (publicKey b).toStr, getPublicKey_eq a,
      getPublicKey_eq b, computeSharedSecret_eq _ (publicKey b).fitsBignum, ?_,
      bin2bn_sharedSecret a b⟩
    rw [computeSharedSecret_eq _ (publicKey a).fitsBignum, sharedSecret_comm]

end DHKeyExchange

namespace Primitives

/-- Group 14 with a given key derivation and cipher. -/
def group14 (deriveKey : PublicKey → Key) (gcmSeal : Key → Nonce → Str → Str × Tag)
    (gcmOpen : Key → Nonce → Str → Tag → Option Str) : Primitives where
  publicKey := DHKeyExchange.publicKey
  sharedSecret := DHKeyExchange.sharedSecret
  deriveKey := deriveKey
  gcmSeal := gcmSeal
  gcmOpen := gcmOpen

/-- What the sessions compute is what the code of group 14 does. -/
theorem group14_computeSharedSecret (deriveKey : PublicKey → Key)
    (gcmSeal : Key → Nonce → Str → Str × Tag)
    (gcmOpen : Key → Nonce → Str → Tag → Option Str) :
    (group14 deriveKey gcmSeal gcmOpen).computeSharedSecret =
      DHKeyExchange.computeSharedSecret := by
  funext mPrivateKey peerPublicKey
  by_cases hkey : FitsBignum peerPublicKey.1
  · rw [DHKeyExchange.computeSharedSecret_eq _ hkey, computeSharedSecret, if_pos hkey]
    rfl
  · rw [DHKeyExchange.computeSharedSecret, if_neg hkey, computeSharedSecret, if_neg hkey]

theorem group14_dhCommutes (deriveKey : PublicKey → Key)
    (gcmSeal : Key → Nonce → Str → Str × Tag)
    (gcmOpen : Key → Nonce → Str → Tag → Option Str) :
    (group14 deriveKey gcmSeal gcmOpen).DHCommutes :=
  DHKeyExchange.sharedSecret_comm

/-- Group 14 under a cipher that leaves the text in the clear and tags it with
half of the key. -/
def clear : Primitives :=
  group14 (fun secret => ⟨secret.1.take 32, by simp [secret.2]⟩)
    (fun key _ text => (text, ⟨key.1.take 16, by simp [key.2]⟩))
    (fun key _ text tag => if tag.1 = key.1.take 16 then some text else none)

theorem clear_gcmSeal (key : Key) (nonce : Nonce) (text : Str) :
    (clear.gcmSeal key nonce text).1 = text := rfl

theorem clear_dhCommutes : clear.DHCommutes := group14_dhCommutes _ _ _

theorem clear_gcmOpensSealed : clear.GcmOpensSealed := by
  intro key nonce text
  simp [clear, group14]

end Primitives

end LeakyChat

/-
INITs and ACKs that are cut off, promise a longer key than they hold, or are
of another type.  What their extraction yields depends on the memory it finds;
here is all it can yield, and which sessions come to no harm by it.
-/
import LeakyChat.SessionStates
import Mathlib.Data.List.GetD

namespace LeakyChat

open Wire

def E2EInit.header (seqno : UInt32) (timestamp : UInt64) : List UInt8 :=
  u32Bytes seqno ++ u64Bytes timestamp

def E2EAck.header (seqno : UInt32) : List UInt8 := u32Bytes seqno

namespace Payload

/-- The length prefix at a place, as far as it is there. -/
def lengthAt (pl : Payload) (place : Nat) : Nat := leNat ((pl.data.1.drop place).take 8)

/-- Another type, cut off in front of the key, or with less of a key than its length
prefix, at `place`, says. -/
def Incomplete (pl : Payload) (type : Payload.Kind) (place : Nat) : Prop :=
  pl.type ≠ type ∨ pl.data.1.length < place + 8 ∨
    pl.data.1.length - (place + 8) < pl.lengthAt place

/-- What is there of the fields in front of the length prefix. -/
def front (pl : Payload) (type : Payload.Kind) (place : Nat) : List UInt8 :=
  if pl.type = type then pl.data.1.take place else []

/-- The key is longer than a vector can get. -/
def TooLong (pl : Payload) (type : Payload.Kind) (place : Nat) : Prop :=
  pl.type = type ∧ maxSize < pl.lengthAt place

/-- What is there of the key, filled up with zeros to the length that is there. -/
def keyAt (pl : Payload) (place : Nat) : List UInt8 :=
  Wire.segment (fun i => pl.data.1.getD i 0) (place + 8) (pl.lengthAt place)

/-- The key is no `BIGNUM`. -/
def Unfit (pl : Payload) (type : Payload.Kind) (place : Nat) : Prop :=
  pl.type = type ∧ ¬ FitsBignum (pl.keyAt place)

variable {pl : Payload} {stack : Stack} {head place : Nat} {type : Payload.Kind}

theorem filled_of_lt (i : Nat) (hi : i < pl.data.1.length) :
    pl.filled stack head i = pl.data.1[i] := dif_pos hi

/-- The fields read are those of the payload, where it has them. -/
theorem front_filled (n : Nat) :
    pl.data.1.take n <+: Wire.segment (pl.filled stack head) 0 n := by
  rw [List.prefix_iff_getElem]
  refine ⟨by simp, ?_⟩
  intro i hi
  rw [List.length_take] at hi
  rw [List.getElem_take, Wire.segment_getElem, Nat.zero_add, filled_of_lt i (by omega)]

/-- With the missing bytes in memory, the fields are as wanted. -/
theorem segment_of_front (stack : Stack) {head : Nat} {bytes : List UInt8}
    (hfront : pl.data.1.take bytes.length <+: bytes) (hhead : bytes.length ≤ head)
    (hstack : ∀ i (hi : i < bytes.length), stack (9 + i) = bytes[i]) :
    Wire.segment (pl.filled stack head) 0 bytes.length = bytes := by
  apply List.ext_getElem (Wire.segment_length _ _ _)
  intro i _ hi
  rw [Wire.segment_getElem, Nat.zero_add]
  by_cases hthere : i < pl.data.1.length
  · have hi' : i < (pl.data.1.take bytes.length).length := by
      rw [List.length_take]
      omega
    rw [filled_of_lt i hthere, ← hfront.getElem hi', List.getElem_take]
  · rw [filled, dif_neg hthere, if_pos (by omega), hstack i hi]

/-- A length prefix whose missing bytes are zeros, or that misses none. -/
theorem u64At_toNat
    (hzeros : ∀ i < 8, pl.data.1.length ≤ place + i → stack (9 + (place + i)) = 0) :
    (pl.u64At stack (place + 8) place).toNat = pl.lengthAt place := by
  let there := (pl.data.1.drop place).take 8
  have hthere : there.length = min 8 (pl.data.1.length - place) := by simp [there]
  have hsegment : Wire.segment (pl.filled stack (place + 8)) place 8 =
      there ++ List.replicate (8 - there.length) 0 := by
    apply List.ext_getElem
    · rw [Wire.segment_length, List.length_append, List.length_replicate]
      omega
    · intro i hi _
      rw [Wire.segment_length] at hi
      rw [Wire.segment_getElem, List.getElem_append]
      split
      · rename_i hleft
        rw [filled_of_lt (place + i) (by omega), List.getElem_take, List.getElem_drop]
      · rename_i hright
        rw [List.getElem_replicate, filled, dif_neg (by omega), if_pos (by omega)]
        exact hzeros i hi (by omega)
  rw [u64At, u64_toNat (Wire.segment_length _ _ _), hsegment, leNat_append_zeros]
  rfl

/-- A length prefix beyond the bound is there as a whole. -/
theorem whole_of_lt (hlong : maxSize < pl.lengthAt place) : place + 8 ≤ pl.data.1.length := by
  by_contra hshort
  have hlength : ((pl.data.1.drop place).take 8).length ≤ 7 := by
    rw [List.length_take, List.length_drop]
    omega
  have hlt := leNat_lt ((pl.data.1.drop place).take 8)
  have hle : 256 ^ ((pl.data.1.drop place).take 8).length ≤ 256 ^ 7 :=
    Nat.pow_le_pow_right (by decide) hlength
  have hsmall : 256 ^ 7 ≤ maxSize := by decide
  rw [lengthAt] at hlong
  omega

theorem there_prefix (pl : Payload) (stack : Stack) (head place : Nat) :
    (pl.data.1.drop place).take 8 <+: Wire.segment (pl.filled stack head) place 8 := by
  rw [List.prefix_iff_getElem]
  refine ⟨by simp, ?_⟩
  intro i hi
  rw [List.length_take, List.length_drop] at hi
  rw [List.getElem_take, List.getElem_drop, Wire.segment_getElem,
    filled_of_lt (place + i) (by omega)]

/-- The bytes of a length prefix that are missing do not bring its lower half below what
the others make of it. -/
theorem lengthAt_narrow
    (hnarrow : (pl.u64At stack (place + 8) place).toNat % 2 ^ 32 < 2 ^ 31) :
    pl.lengthAt place % 2 ^ 32 < 2 ^ 31 := by
  rw [u64At, u64_toNat (Wire.segment_length _ _ _)] at hnarrow
  by_cases hfour : 4 ≤ ((pl.data.1.drop place).take 8).length
  · obtain ⟨rest, hrest⟩ := there_prefix pl stack (place + 8) place
    have hsame : leNat (((pl.data.1.drop place).take 8).take 4) =
        leNat (Wire.segment (pl.filled stack (place + 8)) place 8) % 256 ^ 4 := by
      rw [← leNat_take (by simp), ← hrest, List.take_append_of_le_length hfour]
    have hpow : 256 ^ 4 = 2 ^ 32 := by decide
    rw [leNat_take hfour, hpow] at hsame
    rw [lengthAt, hsame]
    exact hnarrow
  · have hlt := leNat_lt ((pl.data.1.drop place).take 8)
    have hle : 256 ^ ((pl.data.1.drop place).take 8).length ≤ 256 ^ 3 :=
      Nat.pow_le_pow_right (by decide) (by omega)
    have hsmall : pl.lengthAt place < 2 ^ 24 := hlt.trans_le hle
    omega

/-- The key that is read, if memory has zeros for what is missing of its length. -/
theorem restAt_eq_keyAt {size : UInt64} (hsize : size.toNat ≤ maxSize)
    (hlength : size.toNat = pl.lengthAt place) :
    (pl.restAt stack (place + 8) hsize).1 = pl.keyAt place := by
  rw [restAt_val, keyAt, hlength]
  apply List.ext_getElem (by simp)
  intro i _ _
  rw [Wire.segment_getElem, Wire.segment_getElem, filled]
  split
  · rename_i hthere
    rw [List.getD_eq_getElem _ _ hthere]
  · rename_i hmissing
    rw [if_neg (by omega), List.getD_eq_default _ _ (by omega)]

/-- Memory makes no key a `BIGNUM` that is none as far as it is there. -/
theorem fits_keyAt {size : UInt64} (hsize : size.toNat ≤ maxSize)
    (hread : size = pl.u64At stack (place + 8) place)
    (hfits : FitsBignum (pl.restAt stack (place + 8) hsize).1) : FitsBignum (pl.keyAt place) := by
  by_cases hwhole : place + 8 ≤ pl.data.1.length
  · have hlength : size.toNat = pl.lengthAt place := by
      rw [hread]
      exact u64At_toNat fun i _ _ => by omega
    rwa [← restAt_eq_keyAt hsize hlength]
  · have hzeros : pl.keyAt place = List.replicate (pl.lengthAt place) 0 := by
      apply List.ext_getElem (by simp [keyAt])
      intro i _ _
      rw [List.getElem_replicate]
      simp only [keyAt, Wire.segment_getElem]
      exact List.getD_eq_default _ _ (by omega)
    have hnarrow := hfits.int
    rw [restAt_val, Wire.segment_length, hread] at hnarrow
    rw [hzeros]
    exact fitsBignum_zeros (lengthAt_narrow hnarrow)

/-- No key that is read is too long. -/
theorem not_tooLong (hsize : (pl.u64At stack (place + 8) place).toNat ≤ maxSize) :
    ¬ pl.TooLong type place := by
  rintro ⟨_, hlong⟩
  have hwhole := whole_of_lt hlong
  rw [u64At_toNat (fun i _ _ => by omega)] at hsize
  omega

/-- A payload that is not incomplete begins with fields and a key. -/
theorem incomplete_iff : pl.Incomplete type place ↔
    ¬ (pl.type = type ∧ ∃ (fields : List UInt8) (key : Str),
      fields.length = place ∧ fields ++ strBytes key <+: pl.data.1) := by
  have hsize : ∀ key : Str, (sizeBytes key.1.length).length = 8 := by
    intro key
    simp [sizeBytes, u64Bytes]
  constructor
  · rintro hincomplete ⟨htype, fields, key, hfields, rest, hdata⟩
    have hlength : pl.data.1.length = place + (key.1.length + 8) + rest.length := by
      rw [← hdata, List.length_append, List.length_append, strBytes_length, hfields]
    have hkey : pl.lengthAt place = key.1.length := by
      have hplace : (pl.data.1.drop place).take 8 = sizeBytes key.1.length := by
        rw [← hdata, strBytes, List.append_assoc, List.append_assoc, ← hfields,
          List.drop_left, ← hsize key, List.take_left]
      have hvalue := congrArg UInt64.toNat (u64_leNat (UInt64.ofNat key.1.length))
      rw [toNat_ofNat_of_le key.2, u64_toNat (by simp [u64Bytes])] at hvalue
      rw [lengthAt, hplace]
      exact hvalue
    rcases hincomplete with hother | hshort | hless
    · exact hother htype
    · omega
    · omega
  · intro hnone
    by_contra hcomplete
    simp only [Incomplete, not_or, ne_eq, not_not, Nat.not_lt] at hcomplete
    obtain ⟨htype, hlong, hkey⟩ := hcomplete
    have hthere : (pl.data.1.drop place).take 8 = sizeBytes (pl.lengthAt place) := by
      have hlength : ((pl.data.1.drop place).take 8).length = 8 := by
        rw [List.length_take, List.length_drop]
        omega
      exact (u64Bytes_leNat hlength).symm
    let key : List UInt8 := (pl.data.1.drop (place + 8)).take (pl.lengthAt place)
    have hkeyLength : key.length = pl.lengthAt place := by
      rw [List.length_take, List.length_drop]
      omega
    have hfits : key.length ≤ maxSize := by
      have hdata := pl.data.2
      omega
    refine hnone ⟨htype, pl.data.1.take place, ⟨key, hfits⟩, by rw [List.length_take]; omega,
      pl.data.1.drop (place + 8 + pl.lengthAt place), ?_⟩
    rw [strBytes, hkeyLength, ← hthere, ← List.drop_drop, List.append_assoc, List.append_assoc,
      List.take_append_drop, ← List.drop_drop, List.take_append_drop, List.take_append_drop]

end Payload

/-- Memory that holds some bytes from a place on. -/
def Stack.holding (bytes : List UInt8) (place : Nat) : Stack := fun i => bytes.getD (i - place) 0

theorem Stack.holding_of_lt {bytes : List UInt8} (place : Nat) {i : Nat} (hi : i < bytes.length) :
    Stack.holding bytes place (place + i) = bytes[i] := by
  rw [holding, Nat.add_sub_cancel_left, List.getD_eq_getElem _ _ hi]

theorem Stack.holding_of_le {bytes : List UInt8} (place : Nat) {i : Nat} (hi : bytes.length ≤ i) :
    Stack.holding bytes place (place + i) = 0 := by
  rw [holding, Nat.add_sub_cancel_left, List.getD_eq_default _ _ hi]

theorem Stack.segment_holding (bytes : List UInt8) (place : Nat) :
    Wire.segment (Stack.holding bytes place) place bytes.length = bytes := by
  apply List.ext_getElem (Wire.segment_length _ _ _)
  intro i _ hi
  rw [Wire.segment_getElem, Stack.holding_of_lt place hi]

theorem E2EInit.header_length (seqno : UInt32) (timestamp : UInt64) :
    (E2EInit.header seqno timestamp).length = 12 := by
  simp [E2EInit.header, u32Bytes, u64Bytes]

/-- The two fields are those that the twelve bytes in front of the key hold. -/
theorem E2EInit.segment_header {f : Nat → UInt8} {start : Nat} {seqno : UInt32}
    {timestamp : UInt64}
    (hheader : Wire.segment f start (4 + 8) = E2EInit.header seqno timestamp) :
    UInt32.ofNat (leNat (Wire.segment f start 4)) = seqno ∧
      UInt64.ofNat (leNat (Wire.segment f (start + 4) 8)) = timestamp := by
  rw [Wire.segment_append, header] at hheader
  obtain ⟨hseqno, htimestamp⟩ := List.append_inj hheader (by simp [u32Bytes])
  rw [hseqno, htimestamp]
  exact ⟨u32_leNat seqno, u64_leNat timestamp⟩

variable {pl : Payload} {stack : Stack}

/-- Where memory holds the fields, nine bytes on for the type and the length of the
payload, and zeros behind them, the fields and the length prefix come out as wanted. -/
theorem Payload.front_held {header : List UInt8} {place : Nat} (hlength : header.length = place)
    (hfront : pl.data.1.take place <+: header) :
    Wire.segment (pl.filled (Stack.holding header 9) (place + 8)) 0 place = header ∧
      (pl.u64At (Stack.holding header 9) (place + 8) place).toNat = pl.lengthAt place := by
  subst hlength
  constructor
  · exact segment_of_front _ hfront (Nat.le_add_right _ _) fun i hi => Stack.holding_of_lt 9 hi
  · exact u64At_toNat fun i _ _ => Stack.holding_of_le 9 (Nat.le_add_right _ _)

/-- The fields and the key of an INIT are those that are there. -/
theorem E2EInit.front_of_ofPayload {init : E2EInit}
    (hparse : E2EInit.ofPayload pl stack = .ok init) :
    ¬ pl.TooLong .e2eInit 12 ∧ (FitsBignum init.key.1 → ¬ pl.Unfit .e2eInit 12) ∧
      pl.front .e2eInit 12 <+: E2EInit.header init.seqno init.timestamp := by
  by_cases htype : pl.type = .e2eInit
  · by_cases hsize : E2EInit.keyLength pl stack ≤ maxSize
    · rw [E2EInit.ofPayload_ok htype hsize, Except.ok.injEq] at hparse
      refine ⟨Payload.not_tooLong hsize, ?_, ?_⟩
      · rw [← hparse]
        exact fun hfits hunfit => hunfit.2 (Payload.fits_keyAt hsize rfl hfits)
      have hheader : E2EInit.header (pl.u32At stack 20 0) (pl.u64At stack 20 4) =
          Wire.segment (pl.filled stack 20) 0 (4 + 8) := by
        rw [header, Payload.u32At, Payload.u64At, u32Bytes_leNat (Wire.segment_length _ _ _),
          u64Bytes_leNat (Wire.segment_length _ _ _), Wire.segment_append]
      rw [← hparse, Payload.front, if_pos htype, hheader]
      exact Payload.front_filled 12
    · rw [E2EInit.ofPayload_long htype hsize] at hparse
      cases hparse
  · refine ⟨fun hlong => htype hlong.1, fun _ hunfit => htype hunfit.1, ?_⟩
    rw [Payload.front, if_neg htype]
    exact List.nil_prefix

/-- Memory can make it an INIT under any fields that begin as they do, and under a key that
is a `BIGNUM` unless the payload has one that is none. -/
theorem E2EInit.exists_ofPayload {seqno : UInt32} {timestamp : UInt64}
    (hfits : ¬ pl.TooLong .e2eInit 12)
    (hfront : pl.front .e2eInit 12 <+: E2EInit.header seqno timestamp) :
    ∃ stack key, E2EInit.ofPayload pl stack = .ok ⟨seqno, timestamp, key⟩ ∧
      (¬ pl.Unfit .e2eInit 12 → FitsBignum key.1) := by
  have hlength := E2EInit.header_length seqno timestamp
  by_cases htype : pl.type = .e2eInit
  · let stack := Stack.holding (E2EInit.header seqno timestamp) 9
    rw [Payload.front, if_pos htype] at hfront
    obtain ⟨hheader, hkey⟩ := Payload.front_held hlength hfront
    obtain ⟨hseqno, htimestamp⟩ := E2EInit.segment_header hheader
    have hsize : E2EInit.keyLength pl stack ≤ maxSize := by
      by_contra hlong
      exact hfits ⟨htype, hkey ▸ Nat.lt_of_not_le hlong⟩
    refine ⟨stack, pl.restAt stack 20 hsize, (E2EInit.ofPayload_ok htype hsize).trans ?_, ?_⟩
    · rw [Payload.u32At, Payload.u64At, hseqno, htimestamp]
    · intro hunfit
      rw [Payload.restAt_eq_keyAt hsize hkey]
      exact not_not.mp fun hkeyAt => hunfit ⟨htype, hkeyAt⟩
  · let stack := Stack.holding (E2EInit.header seqno timestamp) 1
    have hheader : Wire.segment stack 1 (4 + 8) = E2EInit.header seqno timestamp := by
      have hsegment := Stack.segment_holding (E2EInit.header seqno timestamp) 1
      rwa [hlength] at hsegment
    obtain ⟨hseqno, htimestamp⟩ := E2EInit.segment_header hheader
    refine ⟨stack, .empty, (E2EInit.ofPayload_other htype).trans ?_,
      fun _ => fitsBignum_of_length (Nat.zero_le _)⟩
    rw [hseqno, htimestamp]

theorem E2EAck.header_length (seqno : UInt32) : (E2EAck.header seqno).length = 4 := by
  simp [E2EAck.header, u32Bytes]

theorem E2EAck.front_of_ofPayload {ack : E2EAck} (hparse : E2EAck.ofPayload pl stack = .ok ack) :
    ¬ pl.TooLong .e2eAck 4 ∧ (FitsBignum ack.key.1 → ¬ pl.Unfit .e2eAck 4) ∧
      pl.front .e2eAck 4 <+: E2EAck.header ack.seqno := by
  by_cases htype : pl.type = .e2eAck
  · by_cases hsize : E2EAck.keyLength pl stack ≤ maxSize
    · rw [E2EAck.ofPayload_ok htype hsize, Except.ok.injEq] at hparse
      refine ⟨Payload.not_tooLong hsize, ?_, ?_⟩
      · rw [← hparse]
        exact fun hfits hunfit => hunfit.2 (Payload.fits_keyAt hsize rfl hfits)
      have hheader : E2EAck.header (pl.u32At stack 12 0) =
          Wire.segment (pl.filled stack 12) 0 4 :=
        u32Bytes_leNat (Wire.segment_length _ _ _)
      rw [← hparse, Payload.front, if_pos htype, hheader]
      exact Payload.front_filled 4
    · rw [E2EAck.ofPayload_long htype hsize] at hparse
      cases hparse
  · refine ⟨fun hlong => htype hlong.1, fun _ hunfit => htype hunfit.1, ?_⟩
    rw [Payload.front, if_neg htype]
    exact List.nil_prefix

theorem E2EAck.exists_ofPayload {seqno : UInt32} (hfits : ¬ pl.TooLong .e2eAck 4)
    (hfront : pl.front .e2eAck 4 <+: E2EAck.header seqno) :
    ∃ stack key, E2EAck.ofPayload pl stack = .ok ⟨seqno, key⟩ ∧
      (¬ pl.Unfit .e2eAck 4 → FitsBignum key.1) := by
  have hlength := E2EAck.header_length seqno
  by_cases htype : pl.type = .e2eAck
  · let stack := Stack.holding (E2EAck.header seqno) 9
    rw [Payload.front, if_pos htype] at hfront
    obtain ⟨hheader, hkey⟩ := Payload.front_held hlength hfront
    have hsize : E2EAck.keyLength pl stack ≤ maxSize := by
      by_contra hlong
      exact hfits ⟨htype, hkey ▸ Nat.lt_of_not_le hlong⟩
    refine ⟨stack, pl.restAt stack 12 hsize, (E2EAck.ofPayload_ok htype hsize).trans ?_, ?_⟩
    · rw [Payload.u32At, hheader, E2EAck.header, u32_leNat]
    · intro hunfit
      rw [Payload.restAt_eq_keyAt hsize hkey]
      exact not_not.mp fun hkeyAt => hunfit ⟨htype, hkeyAt⟩
  · let stack := Stack.holding (E2EAck.header seqno) 1
    have hheader : Wire.segment stack 1 4 = u32Bytes seqno := by
      have hsegment := Stack.segment_holding (E2EAck.header seqno) 1
      rwa [hlength] at hsegment
    refine ⟨stack, .empty, (E2EAck.ofPayload_other htype).trans ?_,
      fun _ => fitsBignum_of_length (Nat.zero_le _)⟩
    rw [hheader, u32_leNat]

namespace E2ESession

variable (P : Primitives) (s : E2ESession) (pl : Payload)

/-- The session is as it was, and no ACK goes out. -/
def Unaffected (r : E2ESession × Except Fault (Option Payload)) : Prop :=
  r.1 = s ∧ ∀ ack, r.2 ≠ .ok (some ack)

/-- No memory makes the payload an INIT that the session takes up, or gives an established
session a new key pair for. -/
def WithstandsInit : Prop :=
  s.sessState ≠ .established ∧ (s.mCrypto.mEstablished = true ∨ pl.Unfit .e2eInit 12) ∨
    pl.TooLong .e2eInit 12 ∨
    ∀ seqno timestamp, pl.front .e2eInit 12 <+: E2EInit.header seqno timestamp →
      s.accepts ⟨seqno, timestamp, .empty⟩ = false

/-- No memory makes the payload an ACK that the session waits for. -/
def WithstandsAck : Prop :=
  ¬ s.Awaits ∨ s.mCrypto.mEstablished = true ∨ pl.Unfit .e2eAck 4 ∨ pl.TooLong .e2eAck 4 ∨
    ¬ pl.front .e2eAck 4 <+: E2EAck.header s.sequenceNo

/-- An INIT that is accepted and for which there is a key pair to establish changes the
session. -/
theorem acceptInit_affects {init : E2EInit} (hkey : s.sessState ≠ .established →
      s.mCrypto.mEstablished = false ∧ FitsBignum init.key.1) :
    ∃ exponent, ¬ s.Unaffected (s.acceptInit P init exponent) := by
  have hcrypto := fun hstate => (hkey hstate).1
  by_cases hfits : FitsBignum init.key.1
  · obtain ⟨_, ackpl, haccept, _⟩ := s.acceptInit_eq P hfits 0 hcrypto
    refine ⟨0, fun hunaffected => hunaffected.2 ackpl ?_⟩
    rw [haccept]
  · have hstate : s.sessState = .established := by
      by_contra hother
      exact hfits (hkey hother).2
    refine ⟨s.mCrypto.mDH + 1, fun hunaffected => ?_⟩
    have hsame := hunaffected.1
    rw [s.acceptInit_unfit P hfits _ hcrypto, if_pos hstate] at hsame
    have hpair := congrArg (fun session => session.mCrypto.mDH) hsame
    simp [rotate, CryptoSession.fresh] at hpair

theorem handleInit_unaffected_iff :
    (∀ stack exponent, s.Unaffected (s.handleInit P pl stack exponent)) ↔
      s.WithstandsInit pl := by
  constructor
  · intro hunaffected
    by_contra hexposed
    simp only [WithstandsInit, not_or, not_and, not_forall, Bool.not_eq_true,
      Bool.not_eq_false] at hexposed
    obtain ⟨hcrypto, hlong, seqno, timestamp, hfront, haccepts⟩ := hexposed
    obtain ⟨stack, key, hparse, hkey⟩ := E2EInit.exists_ofPayload hlong hfront
    have haccepts' : s.accepts ⟨seqno, timestamp, key⟩ = true := haccepts
    have hpair : s.sessState ≠ .established →
        s.mCrypto.mEstablished = false ∧ FitsBignum (E2EInit.mk seqno timestamp key).key.1 :=
      fun hstate => ⟨(hcrypto hstate).1, hkey (hcrypto hstate).2⟩
    obtain ⟨exponent, haffected⟩ := s.acceptInit_affects P hpair
    apply haffected
    have hhandle := s.handleInit_eq P hparse exponent
    rw [if_pos haccepts'] at hhandle
    exact hhandle ▸ hunaffected stack exponent
  · intro hwithstands stack exponent
    cases hparse : E2EInit.ofPayload pl stack with
    | error fault =>
        rw [handleInit, hparse]
        exact ⟨rfl, by rintro _ ⟨⟩⟩
    | ok init =>
        obtain ⟨hlong, hfits, hfront⟩ := E2EInit.front_of_ofPayload hparse
        rw [handleInit_eq P s hparse]
        by_cases haccepts : s.accepts init = true
        · rw [if_pos haccepts]
          rcases hwithstands with ⟨hstate, hkey⟩ | htooLong | hrefuses
          · by_cases hcrypto : s.mCrypto.mEstablished = true
            · rw [acceptInit_established P hstate hcrypto]
              exact ⟨rfl, by rintro _ ⟨⟩⟩
            · have hunfit : ¬ FitsBignum init.key.1 :=
                fun hkeyFits => hfits hkeyFits (hkey.resolve_left hcrypto)
              rw [s.acceptInit_unfit P hunfit exponent fun _ => Bool.eq_false_iff.mpr hcrypto,
                if_neg hstate]
              exact ⟨rfl, by rintro _ ⟨⟩⟩
          · exact absurd htooLong hlong
          · exact absurd haccepts (Bool.eq_false_iff.mp (hrefuses _ _ hfront))
        · rw [if_neg haccepts]
          exact ⟨rfl, by rintro _ ⟨⟩⟩

theorem handleAck_unaffected_iff :
    (∀ stack, s.Unaffected (s.handleAck P pl stack)) ↔ s.WithstandsAck pl := by
  constructor
  · intro hunaffected
    by_contra hexposed
    simp only [WithstandsAck, not_or, not_not, Bool.not_eq_true] at hexposed
    obtain ⟨hawaits, hcrypto, hunfit, hlong, hfront⟩ := hexposed
    obtain ⟨stack, key, hparse, hkey⟩ := E2EAck.exists_ofPayload hlong hfront
    have hfits : FitsBignum (E2EAck.mk s.sequenceNo key).key.1 := hkey hunfit
    have hhandle := s.handleAck_eq P hparse
    rw [if_pos ⟨hawaits, rfl⟩, s.acceptAck_eq P hfits hcrypto] at hhandle
    have hstate : s.sessState = .established := by
      rw [← (hunaffected stack).1, hhandle]
    rcases hawaits with hsent | hsent <;> simp [hstate] at hsent
  · intro hwithstands stack
    by_cases hawaits : s.Awaits
    · cases hparse : E2EAck.ofPayload pl stack with
      | error fault =>
          rw [handleAck, if_neg (by unfold Awaits at hawaits; tauto), hparse]
          exact ⟨rfl, by rintro _ ⟨⟩⟩
      | ok ack =>
          obtain ⟨hlong, hfits, hfront⟩ := E2EAck.front_of_ofPayload hparse
          have hthrows : s.mCrypto.mEstablished = true ∨ ¬ FitsBignum ack.key.1 →
              s.Unaffected (s.acceptAck P ack) := by
            intro hcrypto
            obtain ⟨fault, hthrown⟩ := s.acceptAck_error P hcrypto
            rw [hthrown]
            exact ⟨rfl, by rintro _ ⟨⟩⟩
          rw [handleAck_eq P s hparse]
          by_cases hseqno : ack.seqno = s.sequenceNo
          · rw [if_pos ⟨hawaits, hseqno⟩]
            rcases hwithstands with hnone | hcrypto | hunfit | htooLong | hother
            · exact absurd hawaits hnone
            · exact hthrows (Or.inl hcrypto)
            · exact hthrows (Or.inr fun hkeyFits => hfits hkeyFits hunfit)
            · exact absurd htooLong hlong
            · exact absurd (hseqno ▸ hfront) hother
          · rw [if_neg (fun hmatching => hseqno hmatching.2)]
            exact ⟨rfl, by rintro _ ⟨⟩⟩
    · rw [handleAck, if_pos (by unfold Awaits at hawaits; tauto)]
      exact ⟨rfl, by rintro _ ⟨⟩⟩

/-- Which incomplete payloads leave which sessions as they are, whatever memory
holds. -/
theorem incomplete_unaffected_iff :
    ((pl.Incomplete .e2eInit 12 →
        ∀ stack exponent, s.Unaffected (s.handleInit P pl stack exponent)) ↔
      (pl.Incomplete .e2eInit 12 → s.WithstandsInit pl)) ∧
    ((pl.Incomplete .e2eAck 4 → ∀ stack, s.Unaffected (s.handleAck P pl stack)) ↔
      (pl.Incomplete .e2eAck 4 → s.WithstandsAck pl)) := by
  rw [handleInit_unaffected_iff, handleAck_unaffected_iff]
  exact ⟨Iff.rfl, Iff.rfl⟩

/-- An INIT that promises three bytes of a key and has one. -/
def cutInit : Payload :=
  ⟨.e2eInit, ⟨[1, 0, 0, 0, 0, 0, 0, 0, 0, 0, 0, 0, 3, 0, 0, 0, 0, 0, 0, 0, 9], by decide⟩⟩

/-- A new session takes it up, with zeros for the rest of the key. -/
theorem cutInit_takenUp : cutInit.Incomplete .e2eInit 12 ∧
    (∀ stack exponent, ((fresh 1 2).handleInit .clear cutInit stack exponent).1.sessState =
      .established) ∧
    ¬ ∀ stack exponent,
      (fresh 1 2).Unaffected ((fresh 1 2).handleInit .clear cutInit stack exponent) := by
  have hkey : ∀ stack, E2EInit.keyLength cutInit stack = 3 := by
    intro stack
    exact Payload.u64At_toNat fun i hi hmissing => absurd hmissing (by
      change ¬ 21 ≤ 12 + i
      omega)
  have hestablished : ∀ stack exponent,
      ((fresh 1 2).handleInit .clear cutInit stack exponent).1.sessState = .established := by
    intro stack exponent
    have hsize : E2EInit.keyLength cutInit stack ≤ maxSize := by
      rw [hkey stack]
      decide
    have hparse : E2EInit.ofPayload cutInit stack = .ok ⟨cutInit.u32At stack 20 0,
        cutInit.u64At stack 20 4, cutInit.restAt stack 20 hsize⟩ :=
      E2EInit.ofPayload_ok rfl hsize
    have hseqno : cutInit.u32At stack 20 0 = 1 := rfl
    have haccepts : (fresh 1 2).accepts ⟨cutInit.u32At stack 20 0, cutInit.u64At stack 20 4,
        cutInit.restAt stack 20 hsize⟩ = true := by
      simp [accepts, fresh, hseqno]
    have hfits : FitsBignum (E2EInit.mk (cutInit.u32At stack 20 0) (cutInit.u64At stack 20 4)
        (cutInit.restAt stack 20 hsize)).key.1 := by
      apply fitsBignum_of_length
      have hlength : (cutInit.restAt stack 20 hsize).1.length = 3 :=
        (congrArg List.length (Payload.restAt_val cutInit stack 20 hsize)).trans
          ((Wire.segment_length _ _ _).trans (hkey stack))
      exact hlength.trans_le (by decide)
    obtain ⟨_, _, haccept, _⟩ := (fresh 1 2).acceptInit_eq .clear hfits exponent fun _ => rfl
    rw [handleInit_eq .clear _ hparse, if_pos haccepts, haccept]
  refine ⟨Or.inr (Or.inr (by decide)), hestablished, ?_⟩
  intro hunaffected
  have hsame := congrArg sessState (hunaffected (fun _ => 0) 0).1
  rw [hestablished] at hsame
  cases hsame

end E2ESession

end LeakyChat

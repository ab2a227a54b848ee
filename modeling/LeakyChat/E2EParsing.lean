/-
What the extraction operators of the end-to-end payloads make of any payload.
Bytes that are missing at its end are whatever the locals held, as far as the
length prefix goes, and zeros from there on; only that prefix can make a parser
fail.
-/
import LeakyChat.E2EPayload

namespace LeakyChat

open Program
open Wire

namespace Payload

/-- The bytes an operator goes through whose last length prefix ends at `head`.
The first nine bytes of memory go to the type and the length of the payload. -/
def filled (pl : Payload) (stack : Stack) (head : Nat) : Nat → UInt8 := fun i =>
  if h : i < pl.data.1.length then pl.data.1[i]
  else if i < head then stack (9 + i) else 0

def u32At (pl : Payload) (stack : Stack) (head place : Nat) : UInt32 :=
  UInt32.ofNat (leNat (Wire.segment (pl.filled stack head) place 4))

def u64At (pl : Payload) (stack : Stack) (head place : Nat) : UInt64 :=
  UInt64.ofNat (leNat (Wire.segment (pl.filled stack head) place 8))

def blockAt (pl : Payload) (stack : Stack) (head place size : Nat) : Block size :=
  ⟨Wire.segment (pl.filled stack head) place size, Wire.segment_length _ _ _⟩

/-- What follows the length prefix at `head`, as many bytes as it says. -/
def restAt (pl : Payload) (stack : Stack) (head : Nat) {size : UInt64}
    (hsize : size.toNat ≤ maxSize) : Str :=
  ⟨Wire.segment (pl.filled stack head) head size.toNat, by rwa [Wire.segment_length]⟩

theorem restAt_val (pl : Payload) (stack : Stack) (head : Nat) {size : UInt64}
    (hsize : size.toNat ≤ maxSize) :
    (pl.restAt stack head hsize).1 = Wire.segment (pl.filled stack head) head size.toNat := rfl

end Payload

/-- A parser that has gone through `start` bytes of the payload's data. -/
structure Reader.At (r : Reader) (pl : Payload) (stack : Stack) (start : Nat) : Prop where
  view : r.view = pl.data.1.drop start
  stack : r.stack = fun i => stack (9 + (start + i))

namespace Reader.At

variable {r r' : Reader} {pl : Payload} {stack : Stack} {start width : Nat}

theorem next (hr : r.At pl stack start) (hstack : r'.stack = fun i => r.stack (width + i))
    (hview : r'.view = r.view.drop width) : r'.At pl stack (start + width) := by
  constructor
  · rw [hview, hr.view, List.drop_drop]
  · rw [hstack, hr.stack]
    funext i
    exact congrArg (fun j => stack (9 + j)) (Nat.add_assoc start width i).symm

theorem continues (hr : r.At pl stack start) (head : Nat) :
    r.Continues (pl.filled stack head) start := by
  intro i hi
  have hlength : start + i < pl.data.1.length := by
    rw [hr.view, List.length_drop] at hi
    omega
  simp only [hr.view, List.getElem_drop, Payload.filled, hlength, ↓reduceDIte]

/-- Memory stands for the bytes that are missing in front of `head`. -/
theorem memory (hr : r.At pl stack start) {head : Nat} (hhead : start + width ≤ head) :
    ∀ i < width, r.view.length ≤ i → r.stack i = pl.filled stack head (start + i) := by
  intro i hi hend
  rw [hr.view, List.length_drop] at hend
  have hmissing : ¬ start + i < pl.data.1.length := by omega
  have hbefore : start + i < head := by omega
  rw [hr.stack, Payload.filled, dif_neg hmissing, if_pos hbefore]

theorem zeros (hr : r.At pl stack start) :
    ∀ i, 8 ≤ i → r.view.length ≤ i → pl.filled stack (start + 8) (start + i) = 0 := by
  intro i hi hend
  rw [hr.view, List.length_drop] at hend
  have hmissing : ¬ start + i < pl.data.1.length := by omega
  have hbehind : ¬ start + i < start + 8 := by omega
  rw [Payload.filled, dif_neg hmissing, if_neg hbehind]

theorem readU32 (hr : r.At pl stack start) {head : Nat} (hhead : start + 4 ≤ head) :
    ∃ r', LeakyChat.readU32 r = .ok (pl.u32At stack head start, r') ∧
      r'.At pl stack (start + 4) := by
  obtain ⟨r', hrun, hstack, hview⟩ :=
    readU32_continues (hr.continues head) (hr.memory hhead)
  exact ⟨r', hrun, hr.next hstack hview⟩

theorem readU64 (hr : r.At pl stack start) {head : Nat} (hhead : start + 8 ≤ head) :
    ∃ r', LeakyChat.readU64 r = .ok (pl.u64At stack head start, r') ∧
      r'.At pl stack (start + 8) := by
  obtain ⟨r', hrun, hstack, hview⟩ :=
    readU64_continues (hr.continues head) (hr.memory hhead)
  exact ⟨r', hrun, hr.next hstack hview⟩

/-- Reading into an uninitialised block. -/
theorem readBlock (hr : r.At pl stack start) {size head : Nat}
    (hhead : start + size ≤ head) :
    ∃ old r₁ r', uninit size r = .ok (old, r₁) ∧
      LeakyChat.readBlock old r₁ = .ok (pl.blockAt stack head start size, r') ∧
      r'.At pl stack (start + size) := by
  obtain ⟨r', hrun, hstack, hview⟩ :=
    uninit_continues (hr.continues head) (hr.memory hhead)
  obtain ⟨old, r₁, hlocal, hread⟩ := of_run_bind hrun
  exact ⟨old, r₁, r', hlocal, hread, hr.next hstack hview⟩

theorem readByteVector (hr : r.At pl stack start)
    (hsize : (pl.u64At stack (start + 8) start).toNat ≤ maxSize) :
    ∃ r', LeakyChat.readByteVector r = .ok (pl.restAt stack (start + 8) hsize, r') := by
  obtain ⟨r', hrun, _⟩ := readByteVector_continues (hr.continues (start + 8))
    (hr.memory (Nat.le_refl _)) hr.zeros rfl hsize
  exact ⟨r', hrun⟩

theorem readByteVector_long (hr : r.At pl stack start)
    (hsize : ¬ (pl.u64At stack (start + 8) start).toNat ≤ maxSize) :
    LeakyChat.readByteVector r = .error .lengthError :=
  readByteVector_tooLong (hr.continues (start + 8)) (hr.memory (Nat.le_refl _)) rfl hsize

theorem readString (hr : r.At pl stack start)
    (hsize : (pl.u64At stack (start + 8) start).toNat ≤ maxSize) :
    ∃ r', LeakyChat.readString r = .ok (pl.restAt stack (start + 8) hsize, r') :=
  readString_continues (hr.continues (start + 8)) (hr.memory (Nat.le_refl _)) hr.zeros rfl hsize

theorem readString_long (hr : r.At pl stack start)
    (hsize : ¬ (pl.u64At stack (start + 8) start).toNat ≤ maxSize) :
    LeakyChat.readString r = .error .lengthError :=
  readString_tooLong (hr.continues (start + 8)) (hr.memory (Nat.le_refl _)) rfl hsize

end Reader.At

/-- Every parser starts with the type and the length of the payload. -/
theorem parse_start (pl : Payload) (stack : Stack) :
    ∃ size r₁ r₂, readU8 ⟨MemBuffer.empty.writePayload pl, stack⟩ = .ok (pl.type.byte, r₁) ∧
      readU64 r₁ = .ok (size, r₂) ∧ r₂.At pl stack 0 := by
  obtain ⟨r₁, htype, hview₁⟩ := readU8_decodes pl.type.byte
    ⟨MemBuffer.empty.writePayload pl, stack⟩ (strBytes pl.data)
    (by simp [Reader.view, payloadBytes])
  obtain ⟨r₂, hsize, hview₂⟩ :=
    readU64_decodes (UInt64.ofNat pl.data.1.length) r₁ pl.data.1 hview₁
  refine ⟨_, r₁, r₂, htype, hsize, ?_, ?_⟩
  · rw [hview₂, List.drop_zero]
  · rw [readU64_stack hsize, readU8_stack htype]
    funext i
    rw [Nat.zero_add]
    exact congrArg stack (Nat.add_assoc 1 8 i).symm

theorem Payload.parse_ok {α : Type} {pl : Payload} {stack : Stack} {parser : Decoder α} {a : α}
    {r : Reader} (hrun : parser ⟨MemBuffer.empty.writePayload pl, stack⟩ = .ok (a, r)) :
    pl.parse stack parser = .ok a := by
  rw [Payload.parse, hrun]

theorem Payload.parse_error {α : Type} {pl : Payload} {stack : Stack} {parser : Decoder α}
    {fault : Fault}
    (hrun : parser ⟨MemBuffer.empty.writePayload pl, stack⟩ = .error fault) :
    pl.parse stack parser = .error fault := by
  rw [Payload.parse, hrun]

variable {pl : Payload} {stack : Stack}

/-- The length of the key in an INIT. -/
def E2EInit.keyLength (pl : Payload) (stack : Stack) : Nat := (pl.u64At stack 20 12).toNat

theorem E2EInit.ofPayload_ok (htype : pl.type = .e2eInit)
    (hsize : E2EInit.keyLength pl stack ≤ maxSize) :
    E2EInit.ofPayload pl stack =
      .ok ⟨pl.u32At stack 20 0, pl.u64At stack 20 4, pl.restAt stack 20 hsize⟩ := by
  obtain ⟨size, r₁, r₂, hbyte, hlength, hr₂⟩ := parse_start pl stack
  obtain ⟨r₃, hseqno, hr₃⟩ := hr₂.readU32 (show 0 + 4 ≤ 20 by decide)
  obtain ⟨r₄, htimestamp, hr₄⟩ := hr₃.readU64 (show 0 + 4 + 8 ≤ 20 by decide)
  obtain ⟨r₅, hkey⟩ := hr₄.readByteVector hsize
  apply Payload.parse_ok (r := r₅)
  rw [E2EInit.parser, run_bind hbyte, if_neg (by simp [htype]), run_bind hlength,
    run_bind hseqno, run_bind htimestamp, run_bind hkey]
  rfl

theorem E2EInit.ofPayload_long (htype : pl.type = .e2eInit)
    (hsize : ¬ E2EInit.keyLength pl stack ≤ maxSize) :
    E2EInit.ofPayload pl stack = .error .lengthError := by
  obtain ⟨size, r₁, r₂, hbyte, hlength, hr₂⟩ := parse_start pl stack
  obtain ⟨r₃, hseqno, hr₃⟩ := hr₂.readU32 (show 0 + 4 ≤ 20 by decide)
  obtain ⟨r₄, htimestamp, hr₄⟩ := hr₃.readU64 (show 0 + 4 + 8 ≤ 20 by decide)
  apply Payload.parse_error
  rw [E2EInit.parser, run_bind hbyte, if_neg (by simp [htype]), run_bind hlength,
    run_bind hseqno, run_bind htimestamp, run_bind_error (hr₄.readByteVector_long hsize)]

/-- On another type nothing is read behind the type byte. -/
theorem E2EInit.ofPayload_other (htype : pl.type ≠ .e2eInit) :
    E2EInit.ofPayload pl stack =
      .ok ⟨UInt32.ofNat (leNat (Wire.segment stack 1 4)),
        UInt64.ofNat (leNat (Wire.segment stack 5 8)), .empty⟩ := by
  obtain ⟨_, r₁, _, hbyte, _, _⟩ := parse_start pl stack
  have hstack : r₁.stack = fun i => stack (1 + i) := readU8_stack hbyte
  apply Payload.parse_ok (r := { r₁ with stack := fun i => r₁.stack (4 + (8 + i)) })
  have hseqno : (List.range 4).map r₁.stack = Wire.segment stack 1 4 := by
    rw [hstack]
    rfl
  have htimestamp : (List.range 8).map (fun i => r₁.stack (4 + i)) = Wire.segment stack 5 8 := by
    simp only [hstack, Wire.segment, ← Nat.add_assoc]
  rw [E2EInit.parser, run_bind hbyte, if_pos htype, ← hseqno, ← htimestamp]
  rfl

theorem E2EInit.ofPayload_error {fault : Fault}
    (hparse : E2EInit.ofPayload pl stack = .error fault) : fault = .lengthError := by
  by_cases htype : pl.type = .e2eInit
  · by_cases hsize : E2EInit.keyLength pl stack ≤ maxSize
    · rw [E2EInit.ofPayload_ok htype hsize] at hparse
      cases hparse
    · rw [E2EInit.ofPayload_long htype hsize] at hparse
      exact (Except.error.inj hparse).symm
  · rw [E2EInit.ofPayload_other htype] at hparse
    cases hparse

/-- The length of the key in an ACK. -/
def E2EAck.keyLength (pl : Payload) (stack : Stack) : Nat := (pl.u64At stack 12 4).toNat

theorem E2EAck.ofPayload_ok (htype : pl.type = .e2eAck)
    (hsize : E2EAck.keyLength pl stack ≤ maxSize) :
    E2EAck.ofPayload pl stack = .ok ⟨pl.u32At stack 12 0, pl.restAt stack 12 hsize⟩ := by
  obtain ⟨size, r₁, r₂, hbyte, hlength, hr₂⟩ := parse_start pl stack
  obtain ⟨r₃, hseqno, hr₃⟩ := hr₂.readU32 (show 0 + 4 ≤ 12 by decide)
  obtain ⟨r₄, hkey⟩ := hr₃.readByteVector hsize
  apply Payload.parse_ok (r := r₄)
  rw [E2EAck.parser, run_bind hbyte, if_neg (by simp [htype]), run_bind hlength,
    run_bind hseqno, run_bind hkey]
  rfl

theorem E2EAck.ofPayload_long (htype : pl.type = .e2eAck)
    (hsize : ¬ E2EAck.keyLength pl stack ≤ maxSize) :
    E2EAck.ofPayload pl stack = .error .lengthError := by
  obtain ⟨size, r₁, r₂, hbyte, hlength, hr₂⟩ := parse_start pl stack
  obtain ⟨r₃, hseqno, hr₃⟩ := hr₂.readU32 (show 0 + 4 ≤ 12 by decide)
  apply Payload.parse_error
  rw [E2EAck.parser, run_bind hbyte, if_neg (by simp [htype]), run_bind hlength,
    run_bind hseqno, run_bind_error (hr₃.readByteVector_long hsize)]

theorem E2EAck.ofPayload_other (htype : pl.type ≠ .e2eAck) :
    E2EAck.ofPayload pl stack =
      .ok ⟨UInt32.ofNat (leNat (Wire.segment stack 1 4)), .empty⟩ := by
  obtain ⟨_, r₁, _, hbyte, _, _⟩ := parse_start pl stack
  have hstack : r₁.stack = fun i => stack (1 + i) := readU8_stack hbyte
  apply Payload.parse_ok (r := { r₁ with stack := fun i => r₁.stack (4 + i) })
  have hseqno : (List.range 4).map r₁.stack = Wire.segment stack 1 4 := by
    rw [hstack]
    rfl
  rw [E2EAck.parser, run_bind hbyte, if_pos htype, ← hseqno]
  rfl

theorem E2EAck.ofPayload_error {fault : Fault}
    (hparse : E2EAck.ofPayload pl stack = .error fault) : fault = .lengthError := by
  by_cases htype : pl.type = .e2eAck
  · by_cases hsize : E2EAck.keyLength pl stack ≤ maxSize
    · rw [E2EAck.ofPayload_ok htype hsize] at hparse
      cases hparse
    · rw [E2EAck.ofPayload_long htype hsize] at hparse
      exact (Except.error.inj hparse).symm
  · rw [E2EAck.ofPayload_other htype] at hparse
    cases hparse

/-- The length of the text, or of the ciphertext, in a message. -/
def E2EMsg.textLength (pl : Payload) (stack : Stack) : Nat :=
  if pl.type = .plainText then (pl.u64At stack 12 4).toNat else (pl.u64At stack 40 32).toNat

/-- The nonce, ciphertext and tag of a message. -/
def Payload.sealed (pl : Payload) (stack : Stack)
    (hsize : (pl.u64At stack 40 32).toNat ≤ maxSize) : EncryptedData :=
  ⟨pl.blockAt stack 40 4 12, pl.restAt stack 40 hsize, pl.blockAt stack 40 16 16⟩

theorem E2EMsg.ofPayload_plain (htype : pl.type = .plainText)
    (hsize : (pl.u64At stack 12 4).toNat ≤ maxSize) :
    E2EMsg.ofPayload pl stack =
      .ok ⟨pl.u32At stack 12 0, .plain (pl.restAt stack 12 hsize)⟩ := by
  obtain ⟨size, r₁, r₂, hbyte, hlength, hr₂⟩ := parse_start pl stack
  obtain ⟨r₃, hseqno, hr₃⟩ := hr₂.readU32 (show 0 + 4 ≤ 12 by decide)
  obtain ⟨r₄, htext⟩ := hr₃.readString hsize
  apply Payload.parse_ok (r := r₄)
  rw [E2EMsg.parser, run_bind hbyte, run_bind hlength, run_bind hseqno, if_pos htype,
    run_bind htext]
  rfl

theorem E2EMsg.ofPayload_cipher (htype : pl.type ≠ .plainText)
    (hsize : (pl.u64At stack 40 32).toNat ≤ maxSize) :
    E2EMsg.ofPayload pl stack =
      .ok ⟨pl.u32At stack 40 0, .cipher (pl.sealed stack hsize)⟩ := by
  obtain ⟨size, r₁, r₂, hbyte, hlength, hr₂⟩ := parse_start pl stack
  obtain ⟨r₃, hseqno, hr₃⟩ := hr₂.readU32 (show 0 + 4 ≤ 40 by decide)
  obtain ⟨_, _, r₄, hlocal₄, hnonce, hr₄⟩ := hr₃.readBlock (show 0 + 4 + 12 ≤ 40 by decide)
  obtain ⟨_, _, r₅, hlocal₅, htag, hr₅⟩ := hr₄.readBlock (show 0 + 4 + 12 + 16 ≤ 40 by decide)
  obtain ⟨r₆, htext⟩ := hr₅.readByteVector hsize
  apply Payload.parse_ok (r := r₆)
  rw [E2EMsg.parser, run_bind hbyte, run_bind hlength, run_bind hseqno, if_neg htype,
    run_bind hlocal₄, run_bind hnonce, run_bind hlocal₅, run_bind htag, run_bind htext]
  rfl

theorem E2EMsg.ofPayload_long (hsize : ¬ E2EMsg.textLength pl stack ≤ maxSize) :
    E2EMsg.ofPayload pl stack = .error .lengthError := by
  obtain ⟨size, r₁, r₂, hbyte, hlength, hr₂⟩ := parse_start pl stack
  apply Payload.parse_error
  rw [E2EMsg.parser, run_bind hbyte, run_bind hlength]
  by_cases htype : pl.type = .plainText
  · rw [E2EMsg.textLength, if_pos htype] at hsize
    obtain ⟨r₃, hseqno, hr₃⟩ := hr₂.readU32 (show 0 + 4 ≤ 12 by decide)
    rw [run_bind hseqno, if_pos htype, run_bind_error (hr₃.readString_long hsize)]
  · rw [E2EMsg.textLength, if_neg htype] at hsize
    obtain ⟨r₃, hseqno, hr₃⟩ := hr₂.readU32 (show 0 + 4 ≤ 40 by decide)
    obtain ⟨_, _, r₄, hlocal₄, hnonce, hr₄⟩ := hr₃.readBlock (show 0 + 4 + 12 ≤ 40 by decide)
    obtain ⟨_, _, r₅, hlocal₅, htag, hr₅⟩ :=
      hr₄.readBlock (show 0 + 4 + 12 + 16 ≤ 40 by decide)
    rw [run_bind hseqno, if_neg htype, run_bind hlocal₄, run_bind hnonce, run_bind hlocal₅,
      run_bind htag, run_bind_error (hr₅.readByteVector_long hsize)]

end LeakyChat

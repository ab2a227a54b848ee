/-
The three end-to-end payloads and their encodings inside a `Payload`.  The
extraction operators write the payload into a buffer of their own and parse it
from there, type byte and length prefix first.
-/
import LeakyChat.Codec
import LeakyChat.CryptoSession

namespace LeakyChat

open Wire

structure E2EInit where
  seqno : UInt32
  timestamp : UInt64
  key : Str
deriving DecidableEq

structure E2EAck where
  seqno : UInt32
  key : Str
deriving DecidableEq

/-- The `std::variant` of a message: plain text or ciphertext. -/
inductive E2EData where
  | plain (text : Str)
  | cipher (edata : EncryptedData)
deriving DecidableEq

structure E2EMsg where
  seqno : UInt32
  data : E2EData
deriving DecidableEq

/-- `pl = Payload{type, std::string(buf.view())}`. -/
def Payload.ofBuffer (type : Payload.Kind) (buf : MemBuffer) : Except Fault Payload :=
  match Str.ofBytes buf.view with
  | .ok data => .ok ⟨type, data⟩
  | .error fault => .error fault

theorem Payload.ofBuffer_eq_ok {type : Payload.Kind} {buf : MemBuffer} {pl : Payload} :
    Payload.ofBuffer type buf = .ok pl ↔ pl.type = type ∧ pl.data.1 = buf.view := by
  unfold Payload.ofBuffer
  cases hdata : Str.ofBytes buf.view with
  | ok data =>
      rw [Str.ofBytes_eq_ok] at hdata
      obtain ⟨plType, plData⟩ := pl
      simp only [Except.ok.injEq, Payload.mk.injEq, ← hdata]
      rw [eq_comm, @eq_comm _ data, Subtype.ext_iff]
  | error fault =>
      simp only [reduceCtorEq, false_iff, not_and]
      intro _ heq
      rw [← heq, Str.ofBytes_val] at hdata
      cases hdata

def E2EInit.toPayload (init : E2EInit) : Except Fault Payload :=
  Payload.ofBuffer .e2eInit <|
    ((MemBuffer.empty.writeU32 init.seqno).writeU64 init.timestamp).writeByteVector
      init.key

def E2EAck.toPayload (ack : E2EAck) : Except Fault Payload :=
  Payload.ofBuffer .e2eAck <| (MemBuffer.empty.writeU32 ack.seqno).writeByteVector ack.key

def E2EMsg.toPayload (msg : E2EMsg) : Except Fault Payload :=
  let buf := MemBuffer.empty.writeU32 msg.seqno
  match msg.data with
  | .plain text => Payload.ofBuffer .plainText (buf.writeString text)
  | .cipher edata =>
      Payload.ofBuffer .e2eMsg
        (((buf.writeBlock edata.nonce).writeBlock edata.tag).writeByteVector
          edata.ciphertext)

/-- Run a parser on a buffer of its own that the payload was written into. -/
def Payload.parse {α : Type} (pl : Payload) (stack : Stack) (parser : Decoder α) :
    Except Fault α :=
  match parser ⟨MemBuffer.empty.writePayload pl, stack⟩ with
  | .ok (a, _) => .ok a
  | .error fault => .error fault

/-- On another type the fields keep what the uninitialised object held. -/
def E2EInit.parser : Decoder E2EInit := do
  let type ← readU8
  if (⟨type⟩ : Payload.Kind) ≠ .e2eInit then
    let seqno ← uninit 4
    let timestamp ← uninit 8
    return ⟨UInt32.ofNat (leNat seqno.1), UInt64.ofNat (leNat timestamp.1), .empty⟩
  else
    let _ ← readU64
    let seqno ← readU32
    let timestamp ← readU64
    let key ← readByteVector
    return ⟨seqno, timestamp, key⟩

def E2EAck.parser : Decoder E2EAck := do
  let type ← readU8
  if (⟨type⟩ : Payload.Kind) ≠ .e2eAck then
    let seqno ← uninit 4
    return ⟨UInt32.ofNat (leNat seqno.1), .empty⟩
  else
    let _ ← readU64
    let seqno ← readU32
    let key ← readByteVector
    return ⟨seqno, key⟩

/-- The alternative is chosen by the payload's type, not by the byte read. -/
def E2EMsg.parser (plType : Payload.Kind) : Decoder E2EMsg := do
  let _ ← readU8
  let _ ← readU64
  let seqno ← readU32
  if plType = .plainText then
    let text ← readString
    return ⟨seqno, .plain text⟩
  else
    let nonce ← uninit 12
    let nonce ← readBlock nonce
    let tag ← uninit 16
    let tag ← readBlock tag
    let ciphertext ← readByteVector
    return ⟨seqno, .cipher ⟨nonce, ciphertext, tag⟩⟩

def E2EInit.ofPayload (pl : Payload) (stack : Stack) : Except Fault E2EInit :=
  pl.parse stack E2EInit.parser

def E2EAck.ofPayload (pl : Payload) (stack : Stack) : Except Fault E2EAck :=
  pl.parse stack E2EAck.parser

def E2EMsg.ofPayload (pl : Payload) (stack : Stack) : Except Fault E2EMsg :=
  pl.parse stack (E2EMsg.parser pl.type)

def E2EInit.bytes (init : E2EInit) : List UInt8 :=
  u32Bytes init.seqno ++ (u64Bytes init.timestamp ++ strBytes init.key)

def E2EAck.bytes (ack : E2EAck) : List UInt8 :=
  u32Bytes ack.seqno ++ strBytes ack.key

def E2EData.bytes : E2EData → List UInt8
  | .plain text => strBytes text
  | .cipher edata => edata.nonce.1 ++ (edata.tag.1 ++ strBytes edata.ciphertext)

def E2EData.type : E2EData → Payload.Kind
  | .plain _ => .plainText
  | .cipher _ => .e2eMsg

theorem E2EInit.toPayload_eq_ok {init : E2EInit} {pl : Payload} :
    init.toPayload = .ok pl ↔ pl.type = .e2eInit ∧ pl.data.1 = init.bytes := by
  simp [E2EInit.toPayload, Payload.ofBuffer_eq_ok, E2EInit.bytes]

theorem E2EAck.toPayload_eq_ok {ack : E2EAck} {pl : Payload} :
    ack.toPayload = .ok pl ↔ pl.type = .e2eAck ∧ pl.data.1 = ack.bytes := by
  simp [E2EAck.toPayload, Payload.ofBuffer_eq_ok, E2EAck.bytes]

theorem E2EMsg.toPayload_eq_ok {msg : E2EMsg} {pl : Payload} :
    msg.toPayload = .ok pl ↔
      pl.type = msg.data.type ∧ pl.data.1 = u32Bytes msg.seqno ++ msg.data.bytes := by
  obtain ⟨seqno, data⟩ := msg
  cases data <;>
    simp [E2EMsg.toPayload, Payload.ofBuffer_eq_ok, E2EData.bytes, E2EData.type]

/-- A parser that undoes the bytes of a payload returns what they encode. -/
theorem Payload.parse_of_decodes {α : Type} {pl : Payload} {parser : Decoder α}
    {a : α} (hparser : Decodes parser (payloadBytes pl) a) (stack : Stack) :
    pl.parse stack parser = .ok a := by
  obtain ⟨r, hrun, _⟩ := hparser ⟨MemBuffer.empty.writePayload pl, stack⟩ []
    (by simp [Reader.view])
  simp [Payload.parse, hrun]

theorem E2EInit.ofPayload_toPayload {init : E2EInit} {pl : Payload}
    (hpl : init.toPayload = .ok pl) (stack : Stack) :
    E2EInit.ofPayload pl stack = .ok init := by
  obtain ⟨htype, hdata⟩ := E2EInit.toPayload_eq_ok.mp hpl
  apply Payload.parse_of_decodes
  apply (readU8_decodes pl.type.byte).bind
  rw [if_neg (by simp [htype])]
  apply (readU64_decodes _).bind
  rw [hdata]
  apply (readU32_decodes init.seqno).bind
  apply (readU64_decodes init.timestamp).bind
  exact (readByteVector_decodes init.key).map
    fun key => (⟨init.seqno, init.timestamp, key⟩ : E2EInit)

theorem E2EAck.ofPayload_toPayload {ack : E2EAck} {pl : Payload}
    (hpl : ack.toPayload = .ok pl) (stack : Stack) :
    E2EAck.ofPayload pl stack = .ok ack := by
  obtain ⟨htype, hdata⟩ := E2EAck.toPayload_eq_ok.mp hpl
  apply Payload.parse_of_decodes
  apply (readU8_decodes pl.type.byte).bind
  rw [if_neg (by simp [htype])]
  apply (readU64_decodes _).bind
  rw [hdata]
  apply (readU32_decodes ack.seqno).bind
  exact (readByteVector_decodes ack.key).map fun key => (⟨ack.seqno, key⟩ : E2EAck)

/-- Reading an uninitialised block discards what it held. -/
theorem uninitBlock_decodes {α : Type} {n : Nat} (v : Block n) {rest : List UInt8}
    {a : α} {next : Block n → Decoder α} (hnext : Decodes (next v) rest a) :
    Decodes (do
      let old ← uninit n
      let got ← readBlock old
      next got) (v.1 ++ rest) a := by
  intro r after hview
  exact ((readBlock_decodes _ v).bind hnext)
    { r with stack := fun i => r.stack (n + i) } after hview

theorem E2EMsg.ofPayload_toPayload {msg : E2EMsg} {pl : Payload}
    (hpl : msg.toPayload = .ok pl) (stack : Stack) :
    E2EMsg.ofPayload pl stack = .ok msg := by
  obtain ⟨htype, hdata⟩ := E2EMsg.toPayload_eq_ok.mp hpl
  apply Payload.parse_of_decodes
  apply (readU8_decodes pl.type.byte).bind
  apply (readU64_decodes _).bind
  rw [hdata]
  apply (readU32_decodes msg.seqno).bind
  obtain ⟨seqno, data⟩ := msg
  cases data with
  | plain text =>
      have hplain : pl.type = .plainText := htype
      rw [if_pos hplain]
      exact (readString_decodes text).map fun text => (⟨seqno, .plain text⟩ : E2EMsg)
  | cipher edata =>
      have hcipher : pl.type = .e2eMsg := htype
      rw [if_neg (by rw [hcipher]; decide)]
      apply uninitBlock_decodes edata.nonce
      apply uninitBlock_decodes edata.tag
      exact (readByteVector_decodes edata.ciphertext).map
        fun text => (⟨seqno, .cipher ⟨edata.nonce, text, edata.tag⟩⟩ : E2EMsg)

end LeakyChat

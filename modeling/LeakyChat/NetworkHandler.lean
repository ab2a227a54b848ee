/-
One end of a connection.  `sendPacket` seals a packet into a record and hands
it to the socket; `receivePacket` takes whatever one `recv` returns for one
record.
-/
import LeakyChat.CryptoSession
import LeakyChat.Packet

namespace LeakyChat

open Wire

inductive CryptoState where
  | disconnected
  | handshaking
  | established
deriving DecidableEq, Repr

structure NetworkHandler where
  mSocket : Int
  mInitialized : Bool
  mConnected : Bool
  mCrypto : Option CryptoSession
  mCryptoState : CryptoState
deriving DecidableEq

/-- `RECV_BUFFER_SIZE`, the most one `recv` can return. -/
def recvBufferSize : Nat := 64 * 1024

/-- What one `recv` returns when it returns bytes. -/
abbrev Chunk := { bytes : List UInt8 // bytes ≠ [] ∧ bytes.length ≤ recvBufferSize }

/-- How `select` and the `recv` behind it turn out: nothing there or an error,
the end of the stream, or bytes. -/
inductive Recv where
  | idle
  | closed
  | chunk (bytes : Chunk)

namespace EncryptedData

/-- The record `sendPacket` writes: the tag comes last. -/
def toRecord (encrypted : EncryptedData) : MemBuffer :=
  (((MemBuffer.ofCapacity 1024).writeBlock encrypted.nonce).writeByteVector
    encrypted.ciphertext).writeBlock encrypted.tag

/-- `receivePacket` reads a record into a value filled with zeros. -/
def ofRecord : Decoder EncryptedData := do
  let nonce ← readBlock (Block.zero 12)
  let ciphertext ← readByteVector
  let tag ← readBlock (Block.zero 16)
  return ⟨nonce, ciphertext, tag⟩

def bytes (encrypted : EncryptedData) : List UInt8 :=
  encrypted.nonce.1 ++ (strBytes encrypted.ciphertext ++ encrypted.tag.1)

@[simp]
theorem toRecord_view (encrypted : EncryptedData) :
    encrypted.toRecord.view = encrypted.bytes := by
  simp [toRecord, bytes]

theorem bytes_length (encrypted : EncryptedData) :
    encrypted.bytes.length = encrypted.ciphertext.1.length + 36 := by
  rw [bytes, List.length_append, List.length_append, strBytes_length, encrypted.nonce.2,
    encrypted.tag.2]
  omega

theorem ofRecord_decodes (encrypted : EncryptedData) :
    Decodes ofRecord encrypted.bytes encrypted := by
  obtain ⟨nonce, ciphertext, tag⟩ := encrypted
  apply (readBlock_decodes _ nonce).bind
  apply (readByteVector_decodes ciphertext).bind
  exact (readBlock_decodes _ tag).map
    fun tag => (⟨nonce, ciphertext, tag⟩ : EncryptedData)

end EncryptedData

namespace NetworkHandler

/-- `NetworkHandler(host, port)`. -/
def fresh : NetworkHandler := ⟨-1, true, false, none, .disconnected⟩

def setSocket (h : NetworkHandler) (socket : Int) : NetworkHandler :=
  { h with mSocket := socket, mConnected := true }

def close (h : NetworkHandler) : NetworkHandler :=
  { h with mConnected := false, mSocket := -1, mCrypto := none,
           mCryptoState := .disconnected }

def connected (h : NetworkHandler) : Bool := h.mConnected

/-- The test both `sendPacket` and `receivePacket` start with. -/
def ready (h : NetworkHandler) : Bool :=
  h.mConnected ∧ h.mCryptoState = .established

variable (P : Primitives)

/-- The record `sendPacket` makes of a packet; there is none without a
connection, and a null `mCrypto` is dereferenced. -/
def outgoing (h : NetworkHandler) (nonce : Nonce) (packet : Packet) :
    Except Fault (List UInt8) :=
  match h.mCrypto with
  | none => .error .undefined
  | some mCrypto => do
      let plaintext ← Str.ofBytes (packet.serialise (MemBuffer.ofCapacity 1024)).view
      let encrypted ← mCrypto.encrypt P nonce plaintext
      return encrypted.toRecord.view

/-- The value `sendPacket` returns, and what it has handed to `send`, which
returned `bytesSent`. -/
def sendPacket (h : NetworkHandler) (nonce : Nonce) (packet : Packet)
    (bytesSent : Int) : Except Fault (Int × Option (List UInt8)) :=
  if h.ready then
    match h.outgoing P nonce packet with
    | .error fault => .error fault
    | .ok record => .ok (if bytesSent < 0 then -1 else 0, some record)
  else .ok (-1, none)

/-- The `try` block of `receivePacket`. -/
def incoming (h : NetworkHandler) (chunk : List UInt8) (stack : Stack) :
    Except Fault Packet :=
  match EncryptedData.ofRecord
    ⟨(MemBuffer.ofCapacity chunk.length).writeBytes chunk, stack⟩ with
  | .error fault => .error fault
  | .ok (encrypted, r) =>
      match h.mCrypto with
      | none => .error .undefined
      | some mCrypto =>
          match mCrypto.decrypt P encrypted with
          | .error fault => .error fault
          | .ok plaintext =>
              match Packet.getPacketFactory
                ⟨(MemBuffer.ofCapacity plaintext.1.length).writeBytes plaintext.1,
                  r.stack⟩ with
              | .error fault => .error fault
              | .ok (packet, _) => .ok packet

/-- Every exception ends in a null pointer. -/
def receivePacket (h : NetworkHandler) (recv : Recv) (stack : Stack) :
    NetworkHandler × Except Fault (Option Packet) :=
  if h.ready then
    match recv with
    | .idle => (h, .ok none)
    | .closed => (h.close, .ok none)
    | .chunk bytes =>
        match h.incoming P bytes.1 stack with
        | .ok packet => (h, .ok (some packet))
        | .error .undefined => (h, .error .undefined)
        | .error _ => (h, .ok none)
  else (h, .ok none)

/-- A handler that sends and receives under the session `mCrypto`. -/
structure EstablishedWith (h : NetworkHandler) (mCrypto : CryptoSession) : Prop where
  ready : h.ready = true
  crypto : h.mCrypto = some mCrypto
  established : mCrypto.mEstablished = true

variable {P} {h : NetworkHandler} {mCrypto : CryptoSession}

/-- What an established handler sends, as long as the packet fits a vector. -/
theorem EstablishedWith.outgoing_eq (hh : h.EstablishedWith mCrypto) (nonce : Nonce)
    {packet : Packet} {plaintext : Str} (htext : plaintext.1 = packet.bytes) :
    h.outgoing P nonce packet = .ok (P.encrypt mCrypto.mKey nonce plaintext).bytes := by
  have hview : Str.ofBytes (packet.serialise (MemBuffer.ofCapacity 1024)).view =
      .ok plaintext := by
    rw [Packet.serialise_view, MemBuffer.ofCapacity_view, List.nil_append, ← htext,
      Str.ofBytes_val]
  have hencrypt : mCrypto.encrypt P nonce plaintext =
      .ok (P.encrypt mCrypto.mKey nonce plaintext) := by
    rw [CryptoSession.encrypt, if_pos hh.established]
  rw [outgoing, hh.crypto]
  simp only [hview, hencrypt, EncryptedData.toRecord_view, bind, Except.bind, pure,
    Except.pure]

theorem EstablishedWith.sendPacket_eq (hh : h.EstablishedWith mCrypto) (nonce : Nonce)
    {packet : Packet} {plaintext : Str} (htext : plaintext.1 = packet.bytes)
    {bytesSent : Int} (hsent : 0 ≤ bytesSent) :
    h.sendPacket P nonce packet bytesSent =
      .ok (0, some (P.encrypt mCrypto.mKey nonce plaintext).bytes) := by
  rw [sendPacket, if_pos hh.ready, hh.outgoing_eq nonce htext]
  simp only [if_neg (Int.not_lt.mpr hsent)]

/-- What an established handler has handed to `send` is the packet's record. -/
theorem EstablishedWith.sendPacket_ok (hh : h.EstablishedWith mCrypto) {nonce : Nonce}
    {packet : Packet} {bytesSent result : Int} {record : List UInt8}
    (hsend : h.sendPacket P nonce packet bytesSent = .ok (result, some record)) :
    ∃ plaintext : Str, plaintext.1 = packet.bytes ∧
      record = (P.encrypt mCrypto.mKey nonce plaintext).bytes := by
  rw [sendPacket, if_pos hh.ready] at hsend
  cases htext : Str.ofBytes packet.bytes with
  | error fault =>
      have hfails : h.outgoing P nonce packet = .error fault := by
        simp only [outgoing, hh.crypto, Packet.serialise_view, MemBuffer.ofCapacity_view,
          List.nil_append, htext, bind, Except.bind]
      rw [hfails] at hsend
      cases hsend
  | ok plaintext =>
      rw [Str.ofBytes_eq_ok] at htext
      rw [hh.outgoing_eq nonce htext] at hsend
      simp only [Except.ok.injEq, Prod.mk.injEq, Option.some.injEq] at hsend
      exact ⟨plaintext, htext, hsend.2.symm⟩

/-- An established handler sends, or finds the packet too long for a vector. -/
theorem EstablishedWith.sendPacket_fault (hh : h.EstablishedWith mCrypto) {nonce : Nonce}
    {packet : Packet} {bytesSent : Int} {fault : Fault}
    (hsend : h.sendPacket P nonce packet bytesSent = .error fault) :
    fault = .lengthError ∧ maxSize < packet.bytes.length := by
  rw [sendPacket, if_pos hh.ready] at hsend
  by_cases hlength : packet.bytes.length ≤ maxSize
  · have htext : (⟨packet.bytes, hlength⟩ : Str).1 = packet.bytes := rfl
    rw [hh.outgoing_eq nonce htext] at hsend
    cases hsend
  · have htext : Str.ofBytes packet.bytes = .error .lengthError := by
      rw [Str.ofBytes, dif_neg hlength]
    have hfails : h.outgoing P nonce packet = .error .lengthError := by
      simp only [outgoing, hh.crypto, Packet.serialise_view, MemBuffer.ofCapacity_view,
        List.nil_append, htext, bind, Except.bind]
    rw [hfails] at hsend
    exact ⟨(Except.error.inj hsend).symm, Nat.lt_of_not_le hlength⟩

/-- What a record is received as is what the factory makes of its plain text. -/
theorem EstablishedWith.incoming_sealed (hopens : P.GcmOpensSealed)
    (hh : h.EstablishedWith mCrypto) (nonce : Nonce) (plaintext : Str) (stack : Stack) :
    ∃ memory, h.incoming P (P.encrypt mCrypto.mKey nonce plaintext).bytes stack =
      (Packet.getPacketFactory
        ⟨(MemBuffer.ofCapacity plaintext.1.length).writeBytes plaintext.1, memory⟩).map
          Prod.fst := by
  obtain ⟨r, hrecord, _⟩ := EncryptedData.ofRecord_decodes
    (P.encrypt mCrypto.mKey nonce plaintext)
    ⟨(MemBuffer.ofCapacity (P.encrypt mCrypto.mKey nonce plaintext).bytes.length).writeBytes
      (P.encrypt mCrypto.mKey nonce plaintext).bytes, stack⟩ [] (by simp [Reader.view])
  have hdecrypt : mCrypto.decrypt P (P.encrypt mCrypto.mKey nonce plaintext) =
      .ok plaintext := by
    rw [CryptoSession.decrypt, if_pos hh.established]
    exact P.decrypt_encrypt hopens mCrypto.mKey nonce plaintext
  refine ⟨r.stack, ?_⟩
  simp only [incoming, hrecord, hh.crypto, hdecrypt]
  cases Packet.getPacketFactory
    ⟨(MemBuffer.ofCapacity plaintext.1.length).writeBytes plaintext.1, r.stack⟩ <;> rfl

/-- A record is received as the packet it was made of. -/
theorem EstablishedWith.incoming_record (hopens : P.GcmOpensSealed)
    (hh : h.EstablishedWith mCrypto) (nonce : Nonce) {packet : Packet} {plaintext : Str}
    (htext : plaintext.1 = packet.bytes) (hclass : packet.mPacketType ∈ wholeClasses)
    (stack : Stack) :
    h.incoming P (P.encrypt mCrypto.mKey nonce plaintext).bytes stack = .ok packet := by
  obtain ⟨memory, hincoming⟩ := hh.incoming_sealed hopens nonce plaintext stack
  obtain ⟨r, hfactory, _⟩ := packet.bytes_decodes hclass
    ⟨(MemBuffer.ofCapacity plaintext.1.length).writeBytes plaintext.1, memory⟩ []
    (by simp [Reader.view, htext])
  rw [hincoming, hfactory]
  rfl

end NetworkHandler

end LeakyChat

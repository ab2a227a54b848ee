/-
A stream of records, cut into the chunks that single `recv` calls return.
`receivePacket` reads one record from the front of each chunk and drops the
rest, so what it returns depends on where the chunks begin.
-/
import LeakyChat.DHKeyExchange
import LeakyChat.NetworkHandler
import Mathlib.Data.List.Forall2
import Mathlib.Data.List.GetD

namespace LeakyChat

open Wire Program

/-- The bytes `receivePacket` parses.  Behind the chunk it finds what it reads
into: zeros, or for the length field an uninitialised local. -/
def padded (chunk : List UInt8) (stack : Stack) (i : Nat) : UInt8 :=
  chunk.getD i (if 12 ≤ i ∧ i < 20 then stack (i - 12) else 0)

theorem padded_of_le {chunk : List UInt8} {i : Nat} (hi : chunk.length ≤ i)
    (stack : Stack) :
    padded chunk stack i = if 12 ≤ i ∧ i < 20 then stack (i - 12) else 0 := by
  rw [padded, List.getD_eq_default _ _ hi]

theorem padded_continues {r : Reader} : r.Continues (padded r.view r.stack) 0 := by
  intro i hi
  rw [Nat.zero_add, padded, List.getD_eq_getElem _ _ hi]

namespace EncryptedData

/-- A sequence begins with a record if nonce, length, ciphertext and tag are
where they belong. -/
theorem passes_bytes_iff {f : Nat → UInt8} {encrypted : EncryptedData} :
    Passes f 0 encrypted.bytes ↔
      segment f 0 12 = encrypted.nonce.1 ∧
      (UInt64.ofNat (leNat (segment f 12 8))).toNat = encrypted.ciphertext.1.length ∧
      segment f 20 encrypted.ciphertext.1.length = encrypted.ciphertext.1 ∧
      segment f (20 + encrypted.ciphertext.1.length) 16 = encrypted.tag.1 := by
  have hsize : Passes f 12 (sizeBytes encrypted.ciphertext.1.length) ↔
      (UInt64.ofNat (leNat (segment f 12 8))).toNat = encrypted.ciphertext.1.length := by
    have hpasses : Passes f 12 (sizeBytes encrypted.ciphertext.1.length) ↔
        segment f 12 8 = sizeBytes encrypted.ciphertext.1.length := by
      rw [Passes, sizeBytes, u64Bytes, leBytes_length]
    rw [hpasses]
    constructor
    · intro hsegment
      rw [hsegment, sizeBytes, u64_leNat, toNat_ofNat_of_le encrypted.ciphertext.2]
    · intro hvalue
      rw [sizeBytes, ← hvalue, UInt64.ofNat_toNat, u64Bytes_leNat (segment_length _ _ _)]
  have hhead : (sizeBytes encrypted.ciphertext.1.length).length = 8 := leBytes_length 8 _
  rw [bytes, strBytes, passes_append, List.append_assoc, passes_append, passes_append,
    encrypted.nonce.2, hhead, hsize, Passes, Passes, Passes, encrypted.nonce.2,
    encrypted.tag.2]

/-- Reading a record runs on the padded bytes, and can only fail on a length no
vector has. -/
theorem ofRecord_eq (r : Reader) {size : UInt64}
    (hlength : UInt64.ofNat (leNat (segment (padded r.view r.stack) 12 8)) = size) :
    (∀ hsize : size.toNat ≤ maxSize, ∃ r', ofRecord r = .ok
      (⟨⟨segment (padded r.view r.stack) 0 12, segment_length _ _ _⟩,
        ⟨segment (padded r.view r.stack) 20 size.toNat, by rwa [segment_length]⟩,
        ⟨segment (padded r.view r.stack) (20 + size.toNat) 16, segment_length _ _ _⟩⟩, r')) ∧
      (¬ size.toNat ≤ maxSize → ofRecord r = .error .lengthError) := by
  have hzeros : ∀ {n i : Nat} (hi : i < (Block.zero n).1.length),
      (Block.zero n).1[i] = 0 := by
    intro n i hi
    simp [Block.zero]
  obtain ⟨r₁, hrun₁, hstack₁, hview₁⟩ :=
    readOver_continues (n := 12) padded_continues (Block.zero 12) (by
      intro i hi hend
      rw [Block.zero, List.length_replicate] at hi
      rw [hzeros, Nat.zero_add, padded_of_le hend, if_neg (by omega)])
  have hnext₁ : r₁.Continues (padded r.view r.stack) 12 := padded_continues.drop hview₁
  have hrest : ∀ i, r₁.view.length ≤ i → r.view.length ≤ 12 + i := by
    intro i hi
    rw [hview₁, List.length_drop] at hi
    omega
  have hfield : ∀ i < 8, r₁.view.length ≤ i →
      r₁.stack i = padded r.view r.stack (12 + i) := by
    intro i hi hend
    rw [padded_of_le (hrest i hend), if_pos (by omega), hstack₁, Nat.add_sub_cancel_left]
  constructor
  · intro hsize
    obtain ⟨r₂, hrun₂, _, hview₂⟩ := readByteVector_continues hnext₁ hfield (by
      intro i hi hend
      rw [padded_of_le (hrest i hend), if_neg (by omega)]) hlength hsize
    obtain ⟨r₃, hrun₃, _⟩ := readOver_continues (hnext₁.drop hview₂) (Block.zero 16) (by
      intro i hi hend
      rw [hview₂, hview₁, List.drop_drop, List.length_drop] at hend
      rw [hzeros, padded_of_le (by omega), if_neg (by omega)])
    refine ⟨r₃, ?_⟩
    simp only [ofRecord, readBlock]
    rw [run_bind hrun₁, run_bind hrun₂, run_bind hrun₃]
    simp only [← Nat.add_assoc]
    rfl
  · intro hsize
    simp only [ofRecord, readBlock]
    rw [run_bind hrun₁, run_bind_error
      (readByteVector_tooLong hnext₁ hfield hlength hsize)]

theorem ofRecord_ok_or_error (r : Reader) :
    (∃ encrypted r', ofRecord r = .ok (encrypted, r')) ∨
      ofRecord r = .error .lengthError := by
  obtain ⟨size, hlength⟩ :
      ∃ size, UInt64.ofNat (leNat (segment (padded r.view r.stack) 12 8)) = size :=
    ⟨_, rfl⟩
  obtain ⟨hok, hlong⟩ := ofRecord_eq r hlength
  by_cases hsize : size.toNat ≤ maxSize
  · obtain ⟨r', hrun⟩ := hok hsize
    exact Or.inl ⟨_, r', hrun⟩
  · exact Or.inr (hlong hsize)

/-- `ofRecord` returns a value exactly if the padded bytes begin with its
record. -/
theorem ofRecord_eq_ok_iff (r : Reader) (encrypted : EncryptedData) :
    (∃ r', ofRecord r = .ok (encrypted, r')) ↔
      Passes (padded r.view r.stack) 0 encrypted.bytes := by
  obtain ⟨hok, hlong⟩ := ofRecord_eq r rfl
  rw [passes_bytes_iff]
  obtain ⟨nonce, ciphertext, tag⟩ := encrypted
  constructor
  · rintro ⟨r', hrun⟩
    by_cases hsize : (UInt64.ofNat (leNat (segment (padded r.view r.stack) 12 8))).toNat ≤
        maxSize
    · obtain ⟨r'', hrun'⟩ := hok hsize
      rw [hrun', Except.ok.injEq, Prod.mk.injEq, mk.injEq] at hrun
      obtain ⟨⟨rfl, rfl, rfl⟩, _⟩ := hrun
      simp only [segment_length, and_self]
    · rw [hlong hsize] at hrun
      cases hrun
  · rintro ⟨hnonce, hsize, htext, htag⟩
    obtain ⟨r', hrun⟩ := hok (by rw [hsize]; exact ciphertext.2)
    refine ⟨r', hrun.trans ?_⟩
    rw [← hsize] at htext htag
    simp only [hnonce, htext, htag]

end EncryptedData

/-- Under `key`, decryption undoes encryption for what was sent and rejects
everything else. -/
def Primitives.OpensOnly (P : Primitives) (key : Key) (sent : Nonce → Str → Prop) : Prop :=
  ∀ nonce ciphertext tag text, P.gcmOpen key nonce ciphertext tag = some text ↔
    sent nonce text ∧ P.gcmSeal key nonce text = (ciphertext, tag)

/-- A message that `sendPacket` sent, with the bytes it put on the stream. -/
structure Sent (P : Primitives) (sender : NetworkHandler) where
  nonce : Nonce
  pkt : MessagePacket
  record : List UInt8
  sends : sender.sendPacket P nonce (.message pkt) record.length = .ok (0, some record)

/-- The chunk, padded, begins with the record. -/
def Begins (record : List UInt8) (chunk : Chunk × Stack) : Prop :=
  Passes (padded chunk.1.1 chunk.2) 0 record

instance (record : List UInt8) (chunk : Chunk × Stack) : Decidable (Begins record chunk) :=
  inferInstanceAs (Decidable (Passes _ _ _))

namespace NetworkHandler

variable (P : Primitives)

/-- Call `receivePacket` over and over and keep the packets it returns. -/
def receiveAll (h : NetworkHandler) : List (Recv × Stack) →
    Except Fault (NetworkHandler × List Packet)
  | [] => .ok (h, [])
  | (recv, stack) :: rest =>
      match h.receivePacket P recv stack with
      | (_, .error fault) => .error fault
      | (h, .ok packet) =>
          match h.receiveAll rest with
          | .error fault => .error fault
          | .ok (h, packets) => .ok (h, packet.toList ++ packets)

/-- One `recv` for each chunk. -/
def receiveChunks (h : NetworkHandler) (chunks : List (Chunk × Stack)) :
    Except Fault (NetworkHandler × List Packet) :=
  h.receiveAll P (chunks.map fun chunk => (.chunk chunk.1, chunk.2))

variable {P}

theorem receiveChunks_cons_some {h : NetworkHandler} {chunk : Chunk × Stack}
    {chunks : List (Chunk × Stack)} {packet : Packet}
    (hreceive : h.receivePacket P (.chunk chunk.1) chunk.2 = (h, .ok (some packet)))
    {h' : NetworkHandler} {packets : List Packet} :
    h.receiveChunks P (chunk :: chunks) = .ok (h', packets) ↔
      ∃ rest, packets = packet :: rest ∧ h.receiveChunks P chunks = .ok (h', rest) := by
  simp only [receiveChunks, List.map_cons, receiveAll, hreceive]
  cases h.receiveAll P (chunks.map fun chunk => (Recv.chunk chunk.1, chunk.2)) with
  | error fault => simp
  | ok result =>
      obtain ⟨h'', rest⟩ := result
      simp only [Option.toList_some, List.singleton_append, Except.ok.injEq, Prod.mk.injEq]
      constructor
      · rintro ⟨rfl, rfl⟩
        exact ⟨rest, rfl, rfl, rfl⟩
      · rintro ⟨rest', rfl, rfl, rfl⟩
        exact ⟨rfl, rfl⟩

theorem receiveChunks_cons_none {h : NetworkHandler} {chunk : Chunk × Stack}
    {chunks : List (Chunk × Stack)}
    (hreceive : h.receivePacket P (.chunk chunk.1) chunk.2 = (h, .ok none)) :
    h.receiveChunks P (chunk :: chunks) = h.receiveChunks P chunks := by
  simp only [receiveChunks, List.map_cons, receiveAll, hreceive]
  cases h.receiveAll P (chunks.map fun chunk => (Recv.chunk chunk.1, chunk.2)) with
  | error fault => rfl
  | ok result => rfl

end NetworkHandler

section

variable {P : Primitives} {sender receiver : NetworkHandler} {c d : CryptoSession}

/-- The record of a message is the encryption of its encoding. -/
theorem Sent.record_eq (hsender : sender.EstablishedWith c) (s : Sent P sender) :
    ∃ text : Str, text.1 = (Packet.message s.pkt).bytes ∧
      s.record = (P.encrypt c.mKey s.nonce text).bytes :=
  hsender.sendPacket_ok s.sends

/-- What was sealed in a run that sent `sent`. -/
def sealedBy (sent : List (Sent P sender)) (nonce : Nonce) (text : Str) : Prop :=
  ∃ s ∈ sent, s.nonce = nonce ∧ text.1 = (Packet.message s.pkt).bytes

variable {sent : List (Sent P sender)}

/-- A chunk that begins with the record of a message is received as that
message. -/
theorem receivePacket_of_begins (hsender : sender.EstablishedWith c)
    (hreceiver : receiver.EstablishedWith d) (hkey : c.mKey = d.mKey)
    (hopens : P.OpensOnly d.mKey (sealedBy sent)) {s : Sent P sender} (hs : s ∈ sent)
    {chunk : Chunk × Stack} (hbegins : Begins s.record chunk) :
    receiver.receivePacket P (.chunk chunk.1) chunk.2 =
      (receiver, .ok (some (.message s.pkt))) := by
  obtain ⟨text, htext, hrecord⟩ := s.record_eq hsender
  rw [hrecord, hkey] at hbegins
  have hview : ((MemBuffer.ofCapacity chunk.1.1.length).writeBytes chunk.1.1).view =
      chunk.1.1 := by simp
  obtain ⟨r, hrun⟩ := (EncryptedData.ofRecord_eq_ok_iff
    ⟨(MemBuffer.ofCapacity chunk.1.1.length).writeBytes chunk.1.1, chunk.2⟩ _).mpr (by
      rw [Reader.view, hview]
      exact hbegins)
  have hopen : P.gcmOpen d.mKey s.nonce (P.gcmSeal d.mKey s.nonce text).1
      (P.gcmSeal d.mKey s.nonce text).2 = some text :=
    (hopens _ _ _ _).mpr ⟨⟨s, hs, rfl, htext⟩, rfl⟩
  have hdecrypt : d.decrypt P (P.encrypt d.mKey s.nonce text) = .ok text := by
    rw [CryptoSession.decrypt, if_pos hreceiver.established]
    simp only [Primitives.decrypt, Primitives.encrypt, hopen]
  obtain ⟨r', hfactory, _⟩ := (Packet.message s.pkt).bytes_decodes
    (show PacketType.message ∈ wholeClasses by decide)
    ⟨(MemBuffer.ofCapacity text.1.length).writeBytes text.1, r.stack⟩ []
    (by simp [Reader.view, htext])
  have hincoming : receiver.incoming P chunk.1.1 chunk.2 = .ok (.message s.pkt) := by
    simp only [NetworkHandler.incoming, hrun, hreceiver.crypto, hdecrypt, hfactory]
  simp only [NetworkHandler.receivePacket, hreceiver.ready, hincoming, ↓reduceIte]

/-- A record that opens was sent. -/
theorem exists_sent_of_decrypt (hsender : sender.EstablishedWith c)
    (hreceiver : receiver.EstablishedWith d) (hkey : c.mKey = d.mKey)
    (hopens : P.OpensOnly d.mKey (sealedBy sent)) {encrypted : EncryptedData} {text : Str}
    (hdecrypt : d.decrypt P encrypted = .ok text) :
    ∃ s ∈ sent, s.record = encrypted.bytes := by
  rw [CryptoSession.decrypt, if_pos hreceiver.established, Primitives.decrypt] at hdecrypt
  cases hopen : P.gcmOpen d.mKey encrypted.nonce encrypted.ciphertext encrypted.tag with
  | none =>
      rw [hopen] at hdecrypt
      cases hdecrypt
  | some text' =>
      obtain ⟨⟨s, hs, hnonce, htext'⟩, hseal⟩ := (hopens _ _ _ _).mp hopen
      obtain ⟨text'', htext'', hrecord⟩ := s.record_eq hsender
      have hsame : text'' = text' := Subtype.ext (htext''.trans htext'.symm)
      refine ⟨s, hs, ?_⟩
      rw [hrecord, hkey, hsame, hnonce, Primitives.encrypt, hseal]

/-- A chunk that begins with no record that was sent is dropped. -/
theorem receivePacket_of_not_begins (hsender : sender.EstablishedWith c)
    (hreceiver : receiver.EstablishedWith d) (hkey : c.mKey = d.mKey)
    (hopens : P.OpensOnly d.mKey (sealedBy sent)) {chunk : Chunk × Stack}
    (hbegins : ∀ s ∈ sent, ¬ Begins s.record chunk) :
    receiver.receivePacket P (.chunk chunk.1) chunk.2 = (receiver, .ok none) := by
  let r : Reader :=
    ⟨(MemBuffer.ofCapacity chunk.1.1.length).writeBytes chunk.1.1, chunk.2⟩
  have hview : r.view = chunk.1.1 := by simp [r, Reader.view]
  have hincoming : ∃ fault, fault ≠ .undefined ∧
      receiver.incoming P chunk.1.1 chunk.2 = .error fault := by
    rcases EncryptedData.ofRecord_ok_or_error r with ⟨encrypted, r', hrun⟩ | hrun
    · simp only [NetworkHandler.incoming, r] at hrun ⊢
      rw [hrun]
      simp only [hreceiver.crypto]
      cases hdecrypt : d.decrypt P encrypted with
      | ok text =>
          obtain ⟨s, hs, hrecord⟩ :=
            exists_sent_of_decrypt hsender hreceiver hkey hopens hdecrypt
          refine absurd ?_ (hbegins s hs)
          rw [Begins, hrecord, ← hview]
          exact (EncryptedData.ofRecord_eq_ok_iff r encrypted).mp ⟨r', hrun⟩
      | error fault =>
          refine ⟨fault, ?_, rfl⟩
          rintro rfl
          exact d.decrypt_ne_undefined P encrypted hdecrypt
    · simp only [NetworkHandler.incoming, r] at hrun ⊢
      rw [hrun]
      exact ⟨.lengthError, by decide, rfl⟩
  obtain ⟨fault, hfault, hrun⟩ := hincoming
  simp only [NetworkHandler.receivePacket, hreceiver.ready, hrun, ↓reduceIte]

/-- The chunks that begin with a record sent are, in order and one for one,
records of the given messages. -/
def Delivered (sent : List (Sent P sender)) (chunks : List (Chunk × Stack))
    (pkts : List MessagePacket) : Prop :=
  List.Forall₂ (fun chunk pkt => ∃ s ∈ sent, s.pkt = pkt ∧ Begins s.record chunk)
    (chunks.filter fun chunk => ∃ s ∈ sent, Begins s.record chunk) pkts

theorem delivered_cons_of_begins {chunk : Chunk × Stack} {chunks : List (Chunk × Stack)}
    (hbegins : ∃ s ∈ sent, Begins s.record chunk) (pkts : List MessagePacket) :
    Delivered sent (chunk :: chunks) pkts ↔
      ∃ pkt rest, pkts = pkt :: rest ∧ (∃ s ∈ sent, s.pkt = pkt ∧ Begins s.record chunk) ∧
        Delivered sent chunks rest := by
  have hfilter : (chunk :: chunks).filter (fun chunk => ∃ s ∈ sent, Begins s.record chunk) =
      chunk :: chunks.filter fun chunk => ∃ s ∈ sent, Begins s.record chunk :=
    List.filter_cons_of_pos (by simpa using hbegins)
  rw [Delivered, hfilter, List.forall₂_cons_left_iff]
  constructor
  · rintro ⟨pkt, rest, hpkt, hrest, rfl⟩
    exact ⟨pkt, rest, rfl, hpkt, hrest⟩
  · rintro ⟨pkt, rest, rfl, hpkt, hrest⟩
    exact ⟨pkt, rest, hpkt, hrest, rfl⟩

theorem delivered_cons_of_not_begins {chunk : Chunk × Stack} {chunks : List (Chunk × Stack)}
    (hbegins : ¬ ∃ s ∈ sent, Begins s.record chunk) (pkts : List MessagePacket) :
    Delivered sent (chunk :: chunks) pkts ↔ Delivered sent chunks pkts := by
  have hfilter : (chunk :: chunks).filter (fun chunk => ∃ s ∈ sent, Begins s.record chunk) =
      chunks.filter fun chunk => ∃ s ∈ sent, Begins s.record chunk :=
    List.filter_cons_of_neg (by simpa using hbegins)
  rw [Delivered, hfilter]
  rfl

/-- What comes out of any chunks whatsoever. -/
theorem receiveChunks_eq_iff (hsender : sender.EstablishedWith c)
    (hreceiver : receiver.EstablishedWith d) (hkey : c.mKey = d.mKey)
    (hopens : P.OpensOnly d.mKey (sealedBy sent)) (chunks : List (Chunk × Stack))
    (pkts : List MessagePacket) :
    receiver.receiveChunks P chunks = .ok (receiver, pkts.map .message) ↔
      Delivered sent chunks pkts := by
  induction chunks generalizing pkts with
  | nil =>
      simp only [Delivered, List.filter_nil, List.forall₂_nil_left_iff]
      simp [NetworkHandler.receiveChunks, NetworkHandler.receiveAll, eq_comm]
  | cons chunk chunks ih =>
      by_cases hbegins : ∃ s ∈ sent, Begins s.record chunk
      · rw [delivered_cons_of_begins hbegins]
        obtain ⟨s, hs, hchunk⟩ := hbegins
        have hreceive := receivePacket_of_begins hsender hreceiver hkey hopens hs hchunk
        rw [NetworkHandler.receiveChunks_cons_some hreceive]
        constructor
        · rintro ⟨rest, heq, hrest⟩
          cases pkts with
          | nil => cases heq
          | cons pkt pkts =>
              rw [List.map_cons, List.cons.injEq, Packet.message.injEq] at heq
              obtain ⟨rfl, rfl⟩ := heq
              exact ⟨_, pkts, rfl, ⟨s, hs, rfl, hchunk⟩, (ih pkts).mp hrest⟩
        · rintro ⟨_, rest, rfl, ⟨s', hs', rfl, hchunk'⟩, hrest⟩
          have hreceive' := receivePacket_of_begins hsender hreceiver hkey hopens hs' hchunk'
          rw [hreceive] at hreceive'
          simp only [Prod.mk.injEq, Except.ok.injEq, Option.some.injEq, true_and] at hreceive'
          exact ⟨rest.map .message, by rw [List.map_cons, hreceive'], (ih rest).mpr hrest⟩
      · rw [delivered_cons_of_not_begins hbegins]
        have hreceive := receivePacket_of_not_begins hsender hreceiver hkey hopens
          fun s hs hchunk => hbegins ⟨s, hs, hchunk⟩
        rw [NetworkHandler.receiveChunks_cons_none hreceive]
        exact ih pkts

theorem Delivered.length_le {chunks : List (Chunk × Stack)} {pkts : List MessagePacket}
    (hdelivered : Delivered sent chunks pkts) : pkts.length ≤ chunks.length := by
  rw [← hdelivered.length_eq]
  exact List.length_filter_le _ _

/-- A chunk begins with what is at its front. -/
theorem begins_of_front {record : List UInt8} {chunk : Chunk × Stack}
    (hhead : record <+: chunk.1.1) : Begins record chunk := by
  obtain ⟨rest, hchunk⟩ := hhead
  apply List.ext_getElem
  · rw [segment_length]
  · intro i hi hi'
    have hlt : i < chunk.1.1.length := by
      rw [← hchunk, List.length_append]
      omega
    rw [segment_getElem, Nat.zero_add, padded, List.getD_eq_getElem _ _ hlt]
    simp only [← hchunk, List.getElem_append_left hi']

/-- As long as every `recv` returns one whole record, every message arrives. -/
theorem delivered_of_whole {chunks : List (Chunk × Stack)} {ss : List (Sent P sender)}
    (hss : ss ⊆ sent) (hchunks : chunks.map (fun chunk => chunk.1.1) = ss.map (·.record)) :
    Delivered sent chunks (ss.map (·.pkt)) := by
  induction ss generalizing chunks with
  | nil =>
      rw [List.map_nil, List.map_eq_nil_iff] at hchunks
      rw [hchunks]
      exact List.Forall₂.nil
  | cons s ss ih =>
      cases chunks with
      | nil => cases hchunks
      | cons chunk chunks =>
          rw [List.map_cons, List.map_cons, List.cons.injEq] at hchunks
          have hs : s ∈ sent := hss List.mem_cons_self
          have hbegins : Begins s.record chunk :=
            begins_of_front (hchunks.1 ▸ List.prefix_refl _)
          rw [Delivered, List.filter_cons_of_pos (by simpa using ⟨s, hs, hbegins⟩)]
          exact List.Forall₂.cons ⟨s, hs, rfl, hbegins⟩
            (ih (List.subset_of_cons_subset hss) hchunks.2)

/-- Every message sent is received, once and in order, exactly if the chunks
that begin with a record are records of these messages one for one. -/
theorem receiveChunks_all_iff (hsender : sender.EstablishedWith c)
    (hreceiver : receiver.EstablishedWith d) (hkey : c.mKey = d.mKey)
    (hopens : P.OpensOnly d.mKey (sealedBy sent)) (chunks : List (Chunk × Stack)) :
    receiver.receiveChunks P chunks =
        .ok (receiver, (sent.map (·.pkt)).map .message) ↔
      Delivered sent chunks (sent.map (·.pkt)) :=
  receiveChunks_eq_iff hsender hreceiver hkey hopens chunks _

end

/-- The clear cipher, opening nothing but the texts on a list. -/
def Primitives.listed (texts : List (Nonce × Str)) : Primitives :=
  { Primitives.clear with
    gcmOpen := fun key nonce ciphertext tag =>
      if tag.1 = key.1.take 16 ∧ (nonce, ciphertext) ∈ texts then some ciphertext else none }

theorem Primitives.listed_opensOnly (texts : List (Nonce × Str)) (key : Key) :
    (listed texts).OpensOnly key fun nonce text => (nonce, text) ∈ texts := by
  intro nonce ciphertext tag text
  simp only [listed, clear, group14, Option.ite_none_right_eq_some, Option.some.injEq,
    Prod.mk.injEq]
  constructor
  · rintro ⟨⟨htag, hmem⟩, rfl⟩
    exact ⟨hmem, rfl, Subtype.ext htag.symm⟩
  · rintro ⟨hmem, rfl, rfl⟩
    exact ⟨⟨rfl, hmem⟩, rfl⟩

namespace Sample

def nonce (n : UInt8) : Nonce := ⟨List.replicate 12 n, by simp⟩

def message (n : UInt8) : MessagePacket :=
  ⟨n.toUInt64, .empty, .empty, ⟨.plainText, ⟨[111, 107], by decide⟩⟩⟩

theorem bytes_length (n : UInt8) : (Packet.message (message n)).bytes.length = 36 := by
  simp [Packet.bytes, headerBytes, Packet.body, MessagePacket.body, strBytes,
    payloadBytes, sizeBytes, u8Bytes, u64Bytes, message, Str.empty]

def text (n : UInt8) : Str :=
  ⟨(Packet.message (message n)).bytes, by rw [bytes_length]; decide⟩

def P : Primitives := .listed [(nonce 1, text 1), (nonce 2, text 2)]

def session : CryptoSession := ⟨0, Block.zero 32, true⟩

def handler : NetworkHandler := ⟨3, true, true, some session, .established⟩

theorem handler_established : handler.EstablishedWith session := ⟨rfl, rfl, rfl⟩

def sending (n : UInt8) : Sent P handler where
  nonce := nonce n
  pkt := message n
  record := (P.encrypt session.mKey (nonce n) (text n)).bytes
  sends := handler_established.sendPacket_eq (nonce n) rfl (Int.natCast_nonneg _)

theorem record_length (n : UInt8) : (sending n).record.length = 72 := by
  have htext : (P.encrypt session.mKey (nonce n) (text n)).ciphertext.1.length = 36 :=
    bytes_length n
  have hrecord := (P.encrypt session.mKey (nonce n) (text n)).bytes_length
  rw [htext] at hrecord
  exact hrecord

def sent : List (Sent P handler) := [sending 1, sending 2]

theorem opensOnly : P.OpensOnly session.mKey (sealedBy sent) := by
  have hsealed : ∀ n t, sealedBy sent n t ↔
      (n, t) ∈ [(nonce 1, text 1), (nonce 2, text 2)] := by
    intro n t
    have htext : ∀ m, t = text m ↔ t.1 = (Packet.message (message m)).bytes :=
      fun _ => Subtype.ext_iff
    simp only [sealedBy, sent, List.mem_cons, List.not_mem_nil, or_false,
      exists_eq_or_imp, exists_eq_left, Prod.mk.injEq, htext, sending, @eq_comm _ n]
  intro n ciphertext tag t
  rw [hsealed]
  exact Primitives.listed_opensOnly _ _ n ciphertext tag t

/-- One record in a `recv` of its own. -/
def whole (n : UInt8) : Chunk × Stack :=
  (⟨(sending n).record, by
    rw [ne_eq, ← List.length_eq_zero_iff, record_length]
    decide⟩, fun _ => 0)

/-- Both records in one `recv`. -/
def coalesced : Chunk × Stack :=
  (⟨sent.flatMap (·.record), by
    rw [ne_eq, ← List.length_eq_zero_iff, List.length_flatMap]
    simp only [sent, List.map_cons, List.map_nil, record_length]
    decide⟩, fun _ => 0)

end Sample

theorem receiveChunks_all_iff_sample :
    Sample.handler.receiveChunks Sample.P [Sample.whole 1, Sample.whole 2] =
        .ok (Sample.handler, (Sample.sent.map (·.pkt)).map .message) ↔
      Delivered Sample.sent [Sample.whole 1, Sample.whole 2] (Sample.sent.map (·.pkt)) :=
  receiveChunks_all_iff Sample.handler_established Sample.handler_established rfl
    Sample.opensOnly _

/-- The second of two messages is lost when one `recv` returns both records. -/
theorem receiveChunks_coalesced :
    (Sample.handler.EstablishedWith Sample.session ∧
      Sample.P.OpensOnly Sample.session.mKey (sealedBy Sample.sent) ∧
      Sample.coalesced.1.1 = Sample.sent.flatMap (·.record)) ∧
    Sample.handler.receiveChunks Sample.P [Sample.coalesced] =
      .ok (Sample.handler, [.message (Sample.message 1)]) ∧
    Sample.handler.receiveChunks Sample.P [Sample.coalesced] ≠
      .ok (Sample.handler, (Sample.sent.map (·.pkt)).map .message) := by
  have hall := receiveChunks_eq_iff Sample.handler_established Sample.handler_established
    rfl Sample.opensOnly [Sample.coalesced]
  refine ⟨⟨Sample.handler_established, Sample.opensOnly, rfl⟩, ?_, ?_⟩
  · have hbegins : Begins (Sample.sending 1).record Sample.coalesced :=
      begins_of_front ⟨(Sample.sending 2).record, by simp [Sample.coalesced, Sample.sent]⟩
    have hmem : Sample.sending 1 ∈ Sample.sent := List.mem_cons_self
    apply (hall [Sample.message 1]).mpr
    rw [Delivered, List.filter_cons_of_pos (by simpa using ⟨_, hmem, hbegins⟩)]
    exact List.Forall₂.cons ⟨_, hmem, rfl, hbegins⟩ List.Forall₂.nil
  · intro heq
    have hlength := ((hall _).mp heq).length_le
    simp [Sample.sent] at hlength

end LeakyChat

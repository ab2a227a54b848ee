/-
Which inputs the factory decodes strictly: into a packet whose bytes they begin
with, or not at all.  A short read goes unnoticed, so that is settled by a scan
of the input alone.
-/
import LeakyChat.Library.Scan
import LeakyChat.ReplyNumbers

namespace LeakyChat

open Program
open Wire

/-- A length prefix up to `bound`, and what comes behind one that is. -/
def scanSized (bound : Nat) (body : Nat → Scanner UInt8) : Scanner UInt8 :=
  Scanner.depends 8 (fun field => UInt64.ofNat (leNat field)) fun sz =>
    if sz.toNat ≤ bound then body sz.toNat else fun _ => .refused

def scanString : Scanner UInt8 := scanSized maxSize Scanner.fixed

def scanStrVector : Scanner UInt8 := scanSized (maxSize / 32) (Scanner.times scanString)

def scanHeader : Scanner UInt8 := (Scanner.fixed 1).andThen (Scanner.fixed 8)

def scanPayload : Scanner UInt8 := (Scanner.fixed 1).andThen scanString

def scanMessage : Scanner UInt8 :=
  scanHeader.andThen (scanString.andThen (scanString.andThen scanPayload))

/-- A tag that no class has is refused; of a packet of class `ERROR` nothing is
read. -/
def scanAs (type : PacketType) : Scanner UInt8 :=
  if type = .message then scanMessage
  else if type = .request then scanHeader.andThen (Scanner.fixed 1)
  else if type = .fieldReq then scanHeader.andThen ((Scanner.fixed 1).andThen scanString)
  else if type = .userList then scanHeader.andThen scanStrVector
  else if type = .error then Scanner.nothing
  else if type = .connectionSetup then scanHeader
  else if type = .control then
    scanHeader.andThen ((Scanner.fixed 1).andThen (Scanner.fixed 4))
  else fun _ => .refused

def scanPacket : Scanner UInt8
  | [] => .short
  | tag :: rest => scanAs ⟨tag⟩ (tag :: rest)

theorem scanSized_nil (bound : Nat) (body : Nat → Scanner UInt8) :
    scanSized bound body [] ≠ .refused := by
  intro hrefused
  cases hrefused

/-- The memory uninitialised locals are made of holds zeros. -/
def Reader.Zeroed (r : Reader) : Prop := r.stack = fun _ => 0

abbrev ScansAs {α : Type} (m : Decoder α) (scan : Scanner UInt8) : Prop :=
  Scans Reader.view Reader.Zeroed Fault.lengthError m scan

theorem readOver_total {n : Nat} (old : Block n) (r : Reader) :
    ∃ got r', readOver old r = .ok (got, r') ∧ r'.view = r.view.drop n := by
  obtain ⟨buf, hread, hrest⟩ := r.buf.read_ok n
  exact ⟨_, { r with buf := buf }, by simp only [readOver, hread]; rfl, hrest⟩

theorem readOver_keeps {n : Nat} (old : Block n) : Keeps Reader.Zeroed (readOver old) := by
  intro r got r' hr hrun
  exact (readOver_stack hrun).trans hr

theorem uninit_keeps (n : Nat) : Keeps Reader.Zeroed (uninit n) := by
  intro r old r' hr hrun
  cases hrun
  exact funext fun i => congrFun hr (n + i)

theorem readNat_total (width : Nat) (r : Reader) :
    ∃ n r', readNat width r = .ok (n, r') ∧ r'.view = r.view.drop width := by
  let old : Block width := ⟨(List.range width).map r.stack, by simp⟩
  have hlocal : uninit width r =
      .ok (old, { r with stack := fun i => r.stack (width + i) }) := rfl
  obtain ⟨got, r', hrun, hview⟩ :=
    readOver_total old { r with stack := fun i => r.stack (width + i) }
  refine ⟨leNat got.1, r', ?_, hview⟩
  rw [readNat, run_bind hlocal, run_bind hrun]
  rfl

theorem readNat_keeps (width : Nat) : Keeps Reader.Zeroed (readNat width) :=
  (uninit_keeps width).bind fun old => (readOver_keeps old).bind fun _ => Keeps.pure _

theorem readNat_scans (width : Nat) : ScansAs (readNat width) (Scanner.fixed width) :=
  Scans.of_drop (readNat_keeps width) (readNat_total width)

theorem readU8_scans : ScansAs readU8 (Scanner.fixed 1) := (readNat_scans 1).returning _

theorem readU64_scans : ScansAs readU64 (Scanner.fixed 8) := (readNat_scans 8).returning _

theorem readOver_scans {n : Nat} (old : Block n) : ScansAs (readOver old) (Scanner.fixed n) :=
  Scans.of_drop (readOver_keeps old) (readOver_total old)

/-- A length prefix that is there is read as it is. -/
theorem readU64_whole {r : Reader} (hlength : 8 ≤ r.view.length) :
    ∃ r', readU64 r = .ok (UInt64.ofNat (leNat (r.view.take 8)), r') ∧
      r'.view = r.view.drop 8 := by
  have hwidth : (r.view.take 8).length = 8 := by
    rw [List.length_take]
    omega
  have hread := (readNat_decodes ⟨r.view.take 8, hwidth⟩).map UInt64.ofNat
  exact hread r (r.view.drop 8) (List.take_append_drop 8 r.view).symm

/-- One that is cut off lacks its highest byte, which zeros stand for. -/
theorem readU64_cut {r : Reader} (hlength : r.view.length < 8) (hr : r.Zeroed) :
    ∃ sz r', readU64 r = .ok (sz, r') ∧ r'.view = [] ∧ sz.toNat < 2 ^ 56 := by
  let f : Nat → UInt8 := fun i => r.view.getD i 0
  have hcontinues : r.Continues f 0 := by
    intro i hi
    simp [f, hi]
  have hmissing : ∀ i, r.view.length ≤ i → f i = 0 := by
    intro i hi
    simp [f, hi]
  obtain ⟨r', hrun, _, hview⟩ := readU64_continues hcontinues (by
    intro i _ hi
    rw [Nat.zero_add, hmissing i hi, hr])
  have hsmall : leNat (Wire.segment f 0 8) < 2 ^ 56 := by
    have hlow := leNat_lt (Wire.segment f 0 7)
    rw [Wire.segment_length] at hlow
    have hhigh : Wire.segment f 7 1 = [0] := by
      have hseven : f 7 = 0 := hmissing 7 (by omega)
      simp [Wire.segment, hseven]
    rw [Wire.segment_append f 0 7 1, Nat.zero_add, hhigh, leNat_append]
    simpa [leNat] using hlow
  refine ⟨_, r', hrun, ?_, ?_⟩
  · rw [hview, List.drop_of_length_le (Nat.le_of_lt hlength)]
  · rw [UInt64.toNat_ofNat']
    omega

theorem sized_scans {α : Type} {bound : Nat} (hbound : 2 ^ 56 ≤ bound)
    {scanBody : Nat → Scanner UInt8} (hnil : ∀ n, scanBody n [] ≠ .refused)
    {body : (sz : UInt64) → PLift (sz.toNat ≤ bound) → Decoder α}
    (hbody : ∀ sz fits, ScansAs (body sz fits) (scanBody sz.toNat)) :
    ScansAs (do
      let sz ← readU64
      let fits ← checkSize sz.toNat bound
      body sz fits) (scanSized bound scanBody) := by
  apply Scans.depends
  · intro r hlength
    exact readU64_whole hlength
  · intro r hlength hr
    obtain ⟨sz, r', hrun, hview, hsmall⟩ := readU64_cut hlength hr
    refine ⟨sz, r', hrun, hview, ?_⟩
    rw [if_pos (Nat.le_trans (Nat.le_of_lt hsmall) hbound)]
    exact hnil sz.toNat
  · exact readU64_scans.keeps
  · intro r fault hrun
    obtain ⟨n, r', hread, _⟩ := readNat_total 8 r
    have hok : readU64 r = .ok (UInt64.ofNat n, r') := run_bind hread
    rw [hok] at hrun
    cases hrun
  · intro sz
    by_cases hsz : sz.toNat ≤ bound
    · have hcheck : (checkSize sz.toNat bound >>= fun fits => body sz fits) =
          body sz ⟨hsz⟩ := by
        funext r
        exact run_bind (by rw [checkSize, dif_pos hsz])
      rw [hcheck, if_pos hsz]
      exact hbody sz ⟨hsz⟩
    · rw [if_neg hsz]
      apply Scans.of_error
      intro r
      exact run_bind_error (by rw [checkSize, dif_neg hsz])

theorem readString_scans : ScansAs readString scanString :=
  sized_scans (by decide) Scanner.fixed_nil
    fun sz _ => (readOver_scans (Block.zero sz.toNat)).returning _

theorem scanString_nil : scanString [] ≠ .refused := scanSized_nil _ _

theorem readStrVector_scans : ScansAs readStrVector scanStrVector :=
  sized_scans (by decide) (Scanner.times_nil scanString_nil)
    fun sz _ => (readString_scans.times scanString_nil sz.toNat).returning _

theorem deserialiseHeader_scans : ScansAs deserialiseHeader scanHeader :=
  readU8_scans.bind (fun _ => readU64_scans) (Scanner.fixed_nil 8)

theorem readPayload_scans : ScansAs readPayload scanPayload :=
  readU8_scans.bind (fun _ => readString_scans.returning _) scanString_nil

theorem MessagePacket.deserialise_scans : ScansAs MessagePacket.deserialise scanMessage := by
  have hpayload : scanPayload [] ≠ .refused :=
    Scanner.andThen_nil (Scanner.fixed_nil 1) scanString_nil
  have hreceiver : (scanString.andThen scanPayload) [] ≠ .refused :=
    Scanner.andThen_nil scanString_nil hpayload
  apply deserialiseHeader_scans.bind _ (Scanner.andThen_nil scanString_nil hreceiver)
  intro seq
  apply readString_scans.bind _ hreceiver
  intro mSender
  apply readString_scans.bind _ hpayload
  intro mReceiver
  exact readPayload_scans.returning _

theorem RequestPacket.deserialise_scans :
    ScansAs RequestPacket.deserialise (scanHeader.andThen (Scanner.fixed 1)) :=
  deserialiseHeader_scans.bind (fun _ => readU8_scans.returning _) (Scanner.fixed_nil 1)

theorem FieldReqPacket.deserialise_scans : ScansAs FieldReqPacket.deserialise
    (scanHeader.andThen ((Scanner.fixed 1).andThen scanString)) := by
  apply deserialiseHeader_scans.bind _
    (Scanner.andThen_nil (Scanner.fixed_nil 1) scanString_nil)
  intro seq
  exact readU8_scans.bind (fun _ => readString_scans.returning _) scanString_nil

theorem UserListPacket.deserialise_scans :
    ScansAs UserListPacket.deserialise (scanHeader.andThen scanStrVector) :=
  deserialiseHeader_scans.bind (fun _ => readStrVector_scans.returning _) (scanSized_nil _ _)

theorem readLow32_scans : ScansAs readLow32 (Scanner.fixed 4) := by
  apply Scans.of_drop
  · exact (uninit_keeps 8).bind fun old => (readOver_keeps _).bind fun _ => Keeps.pure _
  · intro r
    let old : Block 8 := ⟨(List.range 8).map r.stack, by simp⟩
    have hlocal : uninit 8 r = .ok (old, { r with stack := fun i => r.stack (8 + i) }) := rfl
    obtain ⟨low, r', hrun, hview⟩ := readOver_total (⟨old.1.take 4, by simp [old.2]⟩ : Block 4)
      { r with stack := fun i => r.stack (8 + i) }
    exact ⟨_, r', by rw [readLow32, run_bind hlocal, run_bind hrun]; rfl, hview⟩

theorem ControlPacket.deserialise_scans : ScansAs ControlPacket.deserialise
    (scanHeader.andThen ((Scanner.fixed 1).andThen (Scanner.fixed 4))) := by
  apply deserialiseHeader_scans.bind _
    (Scanner.andThen_nil (Scanner.fixed_nil 1) (Scanner.fixed_nil 4))
  intro seq
  exact readU8_scans.bind (fun _ => readLow32_scans.returning _) (Scanner.fixed_nil 4)

theorem ConnectionSetupPacket.deserialise_scans :
    ScansAs ConnectionSetupPacket.deserialise scanHeader :=
  deserialiseHeader_scans.returning _

theorem readErrorPacket_scans : ScansAs readErrorPacket Scanner.nothing := Scans.pure _

/-- The tags the factory knows. -/
def knownTypes : List PacketType :=
  [.message, .request, .fieldReq, .userList, .error, .connectionSetup, .control]

theorem decodeAs_scans {type : PacketType} (htype : type ∈ knownTypes) :
    ScansAs (decodeAs type) (scanAs type) := by
  simp only [knownTypes, List.mem_cons, List.not_mem_nil, or_false] at htype
  rcases htype with rfl | rfl | rfl | rfl | rfl | rfl | rfl
  · exact MessagePacket.deserialise_scans.map Packet.message
  · exact RequestPacket.deserialise_scans.map Packet.request
  · exact FieldReqPacket.deserialise_scans.map Packet.fieldReq
  · exact UserListPacket.deserialise_scans.map Packet.userList
  · exact readErrorPacket_scans
  · exact ConnectionSetupPacket.deserialise_scans.map Packet.connectionSetup
  · exact ControlPacket.deserialise_scans.map Packet.control

theorem decodeAs_unknown {type : PacketType} (htype : type ∉ knownTypes) :
    decodeAs type = throw (unknownPacketType type) ∧ scanAs type = fun _ => .refused := by
  simp only [knownTypes, List.mem_cons, List.not_mem_nil, or_false, not_or] at htype
  obtain ⟨hmessage, hrequest, hfieldReq, huserList, herror, hsetup, hcontrol⟩ := htype
  constructor
  · simp only [decodeAs, if_neg hmessage, if_neg hrequest, if_neg hfieldReq,
      if_neg huserList, if_neg herror, if_neg hsetup, if_neg hcontrol]
  · simp only [scanAs, if_neg hmessage, if_neg hrequest, if_neg hfieldReq,
      if_neg huserList, if_neg herror, if_neg hsetup, if_neg hcontrol]

namespace Packet

/-- What is asked of the factory: a packet it returns is what the buffer begins
with, and nothing outside the buffer is read.  What else it can do is throw. -/
structure Strict (buf : MemBuffer) (stack : Stack) : Prop where
  begins : ∀ pkt r, getPacketFactory ⟨buf, stack⟩ = .ok (pkt, r) →
    (pkt.serialise MemBuffer.empty).view <+: buf.view
  inside : getPacketFactory ⟨buf, stack⟩ ≠ .error .undefined

theorem bytes_cons (pkt : Packet) :
    pkt.bytes = pkt.mPacketType.byte :: (u64Bytes pkt.seq ++ pkt.body) := by
  rw [bytes, headerBytes, MemBuffer.u8Bytes_eq]
  rfl

theorem serialise_empty (pkt : Packet) : (pkt.serialise MemBuffer.empty).view = pkt.bytes := by
  rw [serialise_view, MemBuffer.empty_view, List.nil_append]

theorem getPacketFactory_cons {buf : MemBuffer} {tag : UInt8} {rest : List UInt8}
    (hbuf : buf.view = tag :: rest) (stack : Stack) :
    getPacketFactory ⟨buf, stack⟩ = decodeAs ⟨tag⟩ ⟨buf, stack⟩ :=
  run_bind (by rw [peekType, hbuf])

/-- The lower half of a reply number is read as it was written. -/
theorem control_bytes (pkt : ControlPacket) (memory : Stack) :
    (control ⟨pkt.seq, pkt.mControl, numberRead pkt.mReplyTo memory⟩).bytes =
      (control pkt).bytes := by
  have hlow : (numberRead pkt.mReplyTo memory).toUInt32 = pkt.mReplyTo.toUInt32 := by
    have hsame := ((numberRead_eq_iff pkt.mReplyTo _ memory).mp rfl).1
    rw [← UInt32.toNat_inj, UInt64.toNat_toUInt32, UInt64.toNat_toUInt32]
    exact hsame.symm
  simp only [bytes, body, ControlPacket.body, mPacketType, seq, hlow]

/-- Whatever follows the tag of class `ERROR`, the packet is the one under number zero. -/
theorem getPacketFactory_error {buf : MemBuffer} {rest : List UInt8}
    (hbuf : buf.view = PacketType.error.byte :: rest) (stack : Stack) :
    getPacketFactory ⟨buf, stack⟩ = .ok (error 0, ⟨buf, stack⟩) := by
  rw [getPacketFactory_cons hbuf]
  rfl

theorem strict_of_begins {pkt : Packet} (herror : pkt.mPacketType = .error → pkt.seq = 0)
    {buf : MemBuffer} (hbuf : pkt.bytes <+: buf.view) (stack : Stack) : Strict buf stack := by
  obtain ⟨rest, hrest⟩ := hbuf
  have hdecode : ∃ pkt' r, getPacketFactory ⟨buf, stack⟩ = .ok (pkt', r) ∧
      pkt'.bytes = pkt.bytes := by
    by_cases hclass : pkt.mPacketType ∈ wholeClasses
    · obtain ⟨r, hrun, _⟩ := pkt.bytes_decodes hclass ⟨buf, stack⟩ rest hrest.symm
      exact ⟨pkt, r, hrun, rfl⟩
    · cases pkt with
      | control reply =>
          obtain ⟨r, hrun, _⟩ :=
            getPacketFactory_control reply (r := ⟨buf, stack⟩) hrest.symm
          exact ⟨_, r, hrun, control_bytes reply stack⟩
      | error seq =>
          have hseq : seq = 0 := herror rfl
          rw [bytes_cons] at hrest
          exact ⟨_, _, getPacketFactory_error hrest.symm stack, by rw [hseq]⟩
      | _ => exact absurd (by simp [mPacketType, wholeClasses]) hclass
  obtain ⟨pkt', r', hrun, hbytes⟩ := hdecode
  constructor
  · intro other r hother
    rw [hrun] at hother
    cases hother
    rw [serialise_empty, hbytes]
    exact ⟨rest, hrest⟩
  · rw [hrun]
    intro hfault
    cases hfault

theorem strict_of_refused {buf : MemBuffer} (hscan : scanPacket buf.view = .refused)
    (stack : Stack) : Strict buf stack := by
  have hthrows : ∃ fault, fault ≠ .undefined ∧
      getPacketFactory ⟨buf, stack⟩ = .error fault := by
    cases hbuf : buf.view with
    | nil =>
        rw [hbuf] at hscan
        cases hscan
    | cons tag rest =>
        rw [getPacketFactory_cons hbuf]
        by_cases htype : ⟨tag⟩ ∈ knownTypes
        · refine ⟨.lengthError, by decide, (decodeAs_scans htype).refused _ ?_⟩
          rw [hbuf] at hscan
          exact (congrArg (scanAs ⟨tag⟩) hbuf).trans hscan
        · rw [(decodeAs_unknown htype).1]
          exact ⟨_, by simp [unknownPacketType], rfl⟩
  obtain ⟨fault, hfault, hrun⟩ := hthrows
  constructor
  · intro pkt r hok
    rw [hrun] at hok
    cases hok
  · rw [hrun]
    intro hsame
    exact hfault (Except.error.inj hsame)

/-- From memory that holds zeros something is read, whether or not there is enough,
unless a length is refused. -/
theorem exists_decodeAs {buf : MemBuffer} {type : PacketType} (htype : type ∈ knownTypes)
    (hscan : scanAs type buf.view ≠ .refused) :
    ∃ pkt r, decodeAs type ⟨buf, fun _ => 0⟩ = .ok (pkt, r) := by
  have hscans := decodeAs_scans htype
  cases hread : scanAs type buf.view with
  | whole n =>
      obtain ⟨pkt, r, hrun, _⟩ := hscans.whole ⟨buf, fun _ => 0⟩ n hread
      exact ⟨pkt, r, hrun⟩
  | short =>
      obtain ⟨pkt, r, hrun, _⟩ := hscans.short ⟨buf, fun _ => 0⟩ hread rfl
      exact ⟨pkt, r, hrun⟩
  | refused => exact absurd hread hscan

/-- Decoding is strict, whatever memory holds, exactly if the input begins with
a packet that is not of class `ERROR` or has number zero, or its scan refuses it: the tag is
unknown, or a length that is there in full, behind fields that are, is more than
a string or vector can have. -/
theorem strict_iff (buf : MemBuffer) :
    (∀ stack, Strict buf stack) ↔
      (∃ pkt : Packet, (pkt.mPacketType = .error → pkt.seq = 0) ∧
        (pkt.serialise MemBuffer.empty).view <+: buf.view) ∨
      scanPacket buf.view = .refused := by
  constructor
  · intro hstrict
    cases hbuf : buf.view with
    | nil =>
        have hempty : getPacketFactory ⟨buf, fun _ => 0⟩ = .error .undefined :=
          run_bind_error (by rw [peekType, hbuf])
        exact absurd hempty (hstrict _).inside
    | cons tag rest =>
        by_cases herror : (⟨tag⟩ : PacketType) = .error
        · have htag : buf.view = PacketType.error.byte :: rest :=
            hbuf.trans (congrArg (fun type => type.byte :: rest) herror)
          have hbegins := (hstrict fun _ => 0).begins _ _ (getPacketFactory_error htag _)
          exact Or.inl ⟨error 0, fun _ => rfl, hbuf ▸ hbegins⟩
        by_cases hrefused : scanAs ⟨tag⟩ (tag :: rest) = .refused
        · exact Or.inr hrefused
        have htype : ⟨tag⟩ ∈ knownTypes := by
          by_contra hunknown
          rw [(decodeAs_unknown hunknown).2] at hrefused
          exact hrefused rfl
        obtain ⟨pkt, r, hrun⟩ := exists_decodeAs htype (hbuf ▸ hrefused)
        rw [← getPacketFactory_cons hbuf] at hrun
        have hbegins := (hstrict _).begins pkt r hrun
        rw [hbuf] at hbegins
        refine Or.inl ⟨pkt, fun hclass => ?_, hbegins⟩
        rw [serialise_empty, bytes_cons, List.cons_prefix_cons] at hbegins
        exact absurd (by rw [← hclass, ← hbegins.1]) herror
  · rintro (⟨pkt, herror, hbegins⟩ | hrefused) stack
    · rw [serialise_empty] at hbegins
      exact strict_of_begins herror hbegins stack
    · exact strict_of_refused hrefused stack

/-- A field request that stops behind a name of length 5 with two letters. -/
def cutOff : MemBuffer :=
  MemBuffer.empty.writeBytes ([3, 7, 0, 0, 0, 0, 0, 0, 0, 1] ++ sizeBytes 5 ++ [118, 105])

/-- The missing letters are read as zeros. -/
theorem not_strict_cutOff :
    (∃ r, getPacketFactory ⟨cutOff, fun _ => 0⟩ = .ok
      (fieldReq ⟨7, .setUsername, ⟨[118, 105, 0, 0, 0], by decide⟩⟩, r)) ∧
      ¬ Strict cutOff fun _ => 0 := by
  have hrun : ∃ r, getPacketFactory ⟨cutOff, fun _ => 0⟩ = .ok
      (fieldReq ⟨7, .setUsername, ⟨[118, 105, 0, 0, 0], by decide⟩⟩, r) := ⟨_, rfl⟩
  refine ⟨hrun, fun hstrict => ?_⟩
  obtain ⟨r, hrun⟩ := hrun
  have hbegins := hstrict.begins _ _ hrun
  rw [serialise_empty, cutOff, MemBuffer.writeBytes_view, MemBuffer.empty_view,
    List.nil_append] at hbegins
  exact absurd hbegins.length_le (by decide)

end Packet

end LeakyChat

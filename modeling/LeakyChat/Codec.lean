/-
The insertion and extraction operators of `MemBuffer`.  Writers are functions
on the buffer; readers run on the buffer together with whatever uninitialised
locals happen to hold, since a short read leaves part of a local as it was.
-/
import LeakyChat.MemBuffer

namespace LeakyChat

open Wire Program

/-- The enumeration has a fixed underlying type, so any byte is a value of it. -/
structure Payload.Kind where
  byte : UInt8
deriving DecidableEq, Repr

namespace Payload.Kind

def plainText : Payload.Kind := ⟨0⟩
def e2eInit : Payload.Kind := ⟨1⟩
def e2eAck : Payload.Kind := ⟨2⟩
def e2eMsg : Payload.Kind := ⟨3⟩

end Payload.Kind

structure Payload where
  type : Payload.Kind
  data : Str
deriving DecidableEq

def Payload.isE2EControl (pl : Payload) : Bool :=
  pl.type = .e2eInit ∨ pl.type = .e2eAck

/-- A vector of strings takes 32 bytes an element. -/
abbrev StrVector := { items : List Str // items.length ≤ maxSize / 32 }

def u8Bytes (v : UInt8) : List UInt8 := leBytes 1 v.toNat
def u32Bytes (v : UInt32) : List UInt8 := leBytes 4 v.toNat
def u64Bytes (v : UInt64) : List UInt8 := leBytes 8 v.toNat

/-- A `size_t` length prefix. -/
def sizeBytes (n : Nat) : List UInt8 := u64Bytes (UInt64.ofNat n)

def strBytes (s : Str) : List UInt8 := sizeBytes s.1.length ++ s.1

def strVectorBytes (v : StrVector) : List UInt8 :=
  sizeBytes v.1.length ++ v.1.flatMap strBytes

def payloadBytes (pl : Payload) : List UInt8 :=
  u8Bytes pl.type.byte ++ strBytes pl.data

theorem strBytes_length (s : Str) : (strBytes s).length = s.1.length + 8 := by
  rw [strBytes, List.length_append, sizeBytes, u64Bytes, leBytes_length, Nat.add_comm]

theorem strBytes_ne_nil (s : Str) : strBytes s ≠ [] := by
  rw [← List.length_pos_iff, strBytes_length]
  omega

theorem u32_leNat (v : UInt32) : UInt32.ofNat (leNat (u32Bytes v)) = v := by
  rw [u32Bytes, leNat_leBytes_of_lt v.toNat_lt, UInt32.ofNat_toNat]

theorem u64_leNat (v : UInt64) : UInt64.ofNat (leNat (u64Bytes v)) = v := by
  rw [u64Bytes, leNat_leBytes_of_lt v.toNat_lt, UInt64.ofNat_toNat]

theorem u32_toNat {bytes : List UInt8} (hlength : bytes.length = 4) :
    (UInt32.ofNat (leNat bytes)).toNat = leNat bytes := by
  have hlt : leNat bytes < 256 ^ bytes.length := leNat_lt bytes
  rw [hlength] at hlt
  exact UInt32.toNat_ofNat'.trans (Nat.mod_eq_of_lt hlt)

theorem u32Bytes_leNat {bytes : List UInt8} (hlength : bytes.length = 4) :
    u32Bytes (UInt32.ofNat (leNat bytes)) = bytes := by
  have hback := leBytes_leNat bytes
  rwa [hlength, ← u32_toNat hlength] at hback

theorem u64_toNat {bytes : List UInt8} (hlength : bytes.length = 8) :
    (UInt64.ofNat (leNat bytes)).toNat = leNat bytes := by
  have hlt : leNat bytes < 256 ^ bytes.length := leNat_lt bytes
  rw [hlength] at hlt
  exact UInt64.toNat_ofNat'.trans (Nat.mod_eq_of_lt hlt)

theorem u64Bytes_leNat {bytes : List UInt8} (hlength : bytes.length = 8) :
    u64Bytes (UInt64.ofNat (leNat bytes)) = bytes := by
  have hback := leBytes_leNat bytes
  rwa [hlength, ← u64_toNat hlength] at hback

namespace MemBuffer

def writeU8 (b : MemBuffer) (v : UInt8) : MemBuffer := b.writeBytes (u8Bytes v)
def writeU32 (b : MemBuffer) (v : UInt32) : MemBuffer := b.writeBytes (u32Bytes v)
def writeU64 (b : MemBuffer) (v : UInt64) : MemBuffer := b.writeBytes (u64Bytes v)
def writeSize (b : MemBuffer) (n : Nat) : MemBuffer := b.writeU64 (UInt64.ofNat n)

/-- `operator<<(std::string_view)`. -/
def writeString (b : MemBuffer) (s : Str) : MemBuffer :=
  (b.writeSize s.1.length).writeBytes s.1

/-- `operator<<(const std::vector<std::uint8_t>&)`: the elements one by one. -/
def writeByteVector (b : MemBuffer) (v : Str) : MemBuffer :=
  v.1.foldl writeU8 (b.writeSize v.1.length)

/-- `operator<<(const std::array<std::uint8_t, N>&)`. -/
def writeBlock {n : Nat} (b : MemBuffer) (v : Block n) : MemBuffer :=
  b.writeBytes v.1

/-- `operator<<(const std::vector<std::string>&)`. -/
def writeStrVector (b : MemBuffer) (v : StrVector) : MemBuffer :=
  v.1.foldl writeString (b.writeSize v.1.length)

def writePayload (b : MemBuffer) (pl : Payload) : MemBuffer :=
  (b.writeU8 pl.type.byte).writeString pl.data

@[simp]
theorem writeU8_view (b : MemBuffer) (v : UInt8) :
    (b.writeU8 v).view = b.view ++ u8Bytes v := writeBytes_view b _

@[simp]
theorem writeU32_view (b : MemBuffer) (v : UInt32) :
    (b.writeU32 v).view = b.view ++ u32Bytes v := writeBytes_view b _

@[simp]
theorem writeU64_view (b : MemBuffer) (v : UInt64) :
    (b.writeU64 v).view = b.view ++ u64Bytes v := writeBytes_view b _

@[simp]
theorem writeSize_view (b : MemBuffer) (n : Nat) :
    (b.writeSize n).view = b.view ++ sizeBytes n := writeBytes_view b _

@[simp]
theorem writeString_view (b : MemBuffer) (s : Str) :
    (b.writeString s).view = b.view ++ strBytes s := by
  simp [writeString, strBytes]

@[simp]
theorem writeBlock_view {n : Nat} (b : MemBuffer) (v : Block n) :
    (b.writeBlock v).view = b.view ++ v.1 := writeBytes_view b _

/-- Writing items one after another appends their bytes one after another. -/
theorem foldl_view {α : Type} (write : MemBuffer → α → MemBuffer)
    (bytes : α → List UInt8)
    (hwrite : ∀ b item, (write b item).view = b.view ++ bytes item)
    (items : List α) (b : MemBuffer) :
    (items.foldl write b).view = b.view ++ items.flatMap bytes := by
  induction items generalizing b with
  | nil => simp
  | cons item items ih => simp [ih, hwrite]

theorem u8Bytes_eq (v : UInt8) : u8Bytes v = [v] := by
  simp [u8Bytes, leBytes]

@[simp]
theorem writeByteVector_view (b : MemBuffer) (v : Str) :
    (b.writeByteVector v).view = b.view ++ strBytes v := by
  have hbytes : v.1.flatMap u8Bytes = v.1 := by
    rw [show u8Bytes = fun byte => [byte] from funext u8Bytes_eq]
    simp
  rw [writeByteVector, foldl_view writeU8 u8Bytes writeU8_view, hbytes,
    writeSize_view, strBytes, List.append_assoc]

@[simp]
theorem writeStrVector_view (b : MemBuffer) (v : StrVector) :
    (b.writeStrVector v).view = b.view ++ strVectorBytes v := by
  rw [writeStrVector, foldl_view writeString strBytes writeString_view,
    writeSize_view, strVectorBytes, List.append_assoc]

@[simp]
theorem writePayload_view (b : MemBuffer) (pl : Payload) :
    (b.writePayload pl).view = b.view ++ payloadBytes pl := by
  simp [writePayload, payloadBytes]

end MemBuffer

/-- What uninitialised memory holds, byte after byte, as locals claim it. -/
abbrev Stack := Nat → UInt8

structure Reader where
  buf : MemBuffer
  stack : Stack

def Reader.view (r : Reader) : List UInt8 := r.buf.view

abbrev Decoder := StateT Reader (Except Fault)

/-- A reader undoes a list of bytes, whatever locals held before. -/
abbrev Decodes {α : Type} (m : Decoder α) (bytes : List UInt8) (a : α) : Prop :=
  Reads Reader.view m bytes a

/-- Declare an uninitialised local of `n` bytes. -/
def uninit (n : Nat) : Decoder (Block n) := fun r =>
  .ok (⟨(List.range n).map r.stack, by simp⟩,
    { r with stack := fun i => r.stack (n + i) })

/-- `read(&local, sizeof(local))`: a short read leaves the last bytes as they
were. -/
def readOver {n : Nat} (old : Block n) : Decoder (Block n) := fun r =>
  match r.buf.read n with
  | .error fault => .error fault
  | .ok (got, buf) =>
      .ok (⟨(got ++ old.1.drop got.length).take n, by
        simp only [List.length_take, List.length_append, List.length_drop, old.2]
        omega⟩, { r with buf := buf })

/-- Extraction into an uninitialised integer local of the given width. -/
def readNat (width : Nat) : Decoder Nat := do
  let old ← uninit width
  let bytes ← readOver old
  return leNat bytes.1

def readU8 : Decoder UInt8 := do return UInt8.ofNat (← readNat 1)
def readU32 : Decoder UInt32 := do return UInt32.ofNat (← readNat 4)
def readU64 : Decoder UInt64 := do return UInt64.ofNat (← readNat 8)

/-- A `resize` to `n` elements, or `std::length_error`. -/
def checkSize (n bound : Nat) : Decoder (PLift (n ≤ bound)) := fun r =>
  if h : n ≤ bound then .ok (⟨h⟩, r) else .error .lengthError

/-- `operator>>(std::string&)`: `resize` fills with zero bytes, which a short
read leaves in place. -/
def readString : Decoder Str := do
  let sz ← readU64
  let fits ← checkSize sz.toNat maxSize
  let bytes ← readOver (Block.zero sz.toNat)
  return ⟨bytes.1, by rw [bytes.2]; exact fits.down⟩

/-- `read` into one element of a vector filled with zeros. -/
def readByte : Decoder UInt8 := do
  let byte ← readOver (Block.zero 1)
  return UInt8.ofNat (leNat byte.1)

/-- `operator>>(std::vector<std::uint8_t>&)`: byte by byte over zeros. -/
def readByteVector : Decoder Str := do
  let vecSize ← readU64
  let fits ← checkSize vecSize.toNat maxSize
  let bytes ← readTimes readByte vecSize.toNat
  return ⟨bytes.1, by rw [bytes.2]; exact fits.down⟩

/-- `operator>>(std::array<std::uint8_t, N>&)`. -/
def readBlock {n : Nat} (old : Block n) : Decoder (Block n) := readOver old

/-- `operator>>(std::vector<std::string>&)`. -/
def readStrVector : Decoder StrVector := do
  let vecSize ← readU64
  let fits ← checkSize vecSize.toNat (maxSize / 32)
  let items ← readTimes readString vecSize.toNat
  return ⟨items.1, by rw [items.2]; exact fits.down⟩

def readPayload : Decoder Payload := do
  let type ← readU8
  let data ← readString
  return ⟨⟨type⟩, data⟩

theorem readOver_decodes {n : Nat} (old bytes : Block n) :
    Decodes (readOver old) bytes.1 bytes := by
  intro r rest hview
  obtain ⟨buf, hread, hrest⟩ := r.buf.read_ok n
  change r.buf.view = bytes.1 ++ rest at hview
  have htake : r.buf.view.take n = bytes.1 := by
    rw [hview, List.take_left' bytes.2]
  have hdrop : r.buf.view.drop n = rest := by
    rw [hview, List.drop_left' bytes.2]
  refine ⟨{ r with buf := buf }, ?_, hrest.trans hdrop⟩
  have hold : old.1.drop bytes.1.length = [] := by
    rw [bytes.2, List.drop_of_length_le (Nat.le_of_eq old.2)]
  have hall : (bytes.1 ++ old.1.drop bytes.1.length).take n = bytes.1 := by
    rw [hold, List.append_nil, List.take_of_length_le (Nat.le_of_eq bytes.2)]
  simp only [readOver, hread, htake, hall]

theorem readNat_decodes {width : Nat} (bytes : Block width) :
    Decodes (readNat width) bytes.1 (leNat bytes.1) := by
  intro r rest hview
  have hread := (readOver_decodes ⟨(List.range width).map r.stack, by simp⟩
    bytes).map fun got => leNat got.1
  exact hread { r with stack := fun i => r.stack (width + i) } rest hview

theorem readNat_leBytes_decodes {width n : Nat} (hn : n < 256 ^ width) :
    Decodes (readNat width) (leBytes width n) n := by
  have hread := readNat_decodes ⟨leBytes width n, leBytes_length width n⟩
  simpa only [leNat_leBytes_of_lt hn] using hread

theorem readU8_decodes (v : UInt8) : Decodes readU8 (u8Bytes v) v := by
  have hv : v.toNat < 256 ^ 1 := v.toNat_lt
  have hread := (readNat_leBytes_decodes hv).map UInt8.ofNat
  rwa [UInt8.ofNat_toNat] at hread

theorem readU32_decodes (v : UInt32) : Decodes readU32 (u32Bytes v) v := by
  have hv : v.toNat < 256 ^ 4 := v.toNat_lt
  have hread := (readNat_leBytes_decodes hv).map UInt32.ofNat
  rwa [UInt32.ofNat_toNat] at hread

theorem readU64_decodes (v : UInt64) : Decodes readU64 (u64Bytes v) v := by
  have hv : v.toNat < 256 ^ 8 := v.toNat_lt
  have hread := (readNat_leBytes_decodes hv).map UInt64.ofNat
  rwa [UInt64.ofNat_toNat] at hread

theorem checkSize_decodes {n bound : Nat} (hn : n ≤ bound) :
    Decodes (checkSize n bound) [] ⟨hn⟩ := by
  intro r rest hview
  exact ⟨r, by rw [checkSize, dif_pos hn], hview⟩

theorem toNat_ofNat_of_le {n : Nat} (hn : n ≤ maxSize) :
    (UInt64.ofNat n).toNat = n := by
  simp only [UInt64.toNat_ofNat']
  apply Nat.mod_eq_of_lt
  simp only [maxSize] at hn
  omega

/-- A length prefix is read back, passes the `resize` and leaves `body` to
read. -/
theorem sized_decodes {α : Type} {n bound : Nat} {bytes : List UInt8} {a : α}
    (hn : n ≤ bound) (hbound : bound ≤ maxSize)
    (body : (sz : UInt64) → PLift (sz.toNat ≤ bound) → Decoder α)
    (hbody : ∀ sz fits, sz.toNat = n → Decodes (body sz fits) bytes a) :
    Decodes (do
      let sz ← readU64
      let fits ← checkSize sz.toNat bound
      body sz fits) (sizeBytes n ++ bytes) a := by
  have hsize := toNat_ofNat_of_le (Nat.le_trans hn hbound)
  apply (readU64_decodes (UInt64.ofNat n)).bind
  have hfits : (UInt64.ofNat n).toNat ≤ bound := by rwa [hsize]
  exact (checkSize_decodes hfits).bind (hbody _ ⟨hfits⟩ hsize)

theorem readString_decodes (s : Str) : Decodes readString (strBytes s) s := by
  apply sized_decodes s.2 (Nat.le_refl _)
  intro sz fits hsz
  have hread := readOver_decodes (Block.zero sz.toNat) ⟨s.1, hsz.symm⟩
  exact hread.map fun bytes => (⟨bytes.1, by rw [bytes.2]; exact fits.down⟩ : Str)

theorem readByteVector_decodes (v : Str) :
    Decodes readByteVector (strBytes v) v := by
  apply sized_decodes v.2 (Nat.le_refl _)
  intro sz fits hsz
  have hbyte : ∀ byte ∈ v.1, Decodes readByte [byte] byte := by
    intro byte _
    have hread := (readOver_decodes (Block.zero 1) ⟨[byte], rfl⟩).map
      fun got => UInt8.ofNat (leNat got.1)
    simpa [readByte, leNat] using hread
  have htimes := Reads.times hsz.symm hbyte
  have hread := htimes.map
    fun bytes => (⟨bytes.1, by rw [bytes.2]; exact fits.down⟩ : Str)
  simpa using hread

theorem readBlock_decodes {n : Nat} (old v : Block n) :
    Decodes (readBlock old) v.1 v :=
  readOver_decodes old v

theorem readStrVector_decodes (v : StrVector) :
    Decodes readStrVector (strVectorBytes v) v := by
  apply sized_decodes v.2 (by decide)
  intro sz fits hsz
  have htimes := Reads.times hsz.symm fun s _ => readString_decodes s
  exact htimes.map
    fun items => (⟨items.1, by rw [items.2]; exact fits.down⟩ : StrVector)

theorem readPayload_decodes (pl : Payload) :
    Decodes readPayload (payloadBytes pl) pl := by
  apply (readU8_decodes pl.type.byte).bind
  exact (readString_decodes pl.data).map fun data => (⟨⟨pl.type.byte⟩, data⟩ : Payload)

/-- The sequence `f` goes on where the unread bytes of `r` end, `start` bytes
having been read. -/
def Reader.Continues (r : Reader) (f : Nat → UInt8) (start : Nat) : Prop :=
  ∀ i (hi : i < r.view.length), r.view[i] = f (start + i)

theorem readOver_stack {n : Nat} {old got : Block n} {r r' : Reader}
    (hrun : readOver old r = .ok (got, r')) : r'.stack = r.stack := by
  unfold readOver at hrun
  cases hread : r.buf.read n with
  | error fault => simp [hread] at hrun
  | ok result =>
      simp only [hread, Except.ok.injEq, Prod.mk.injEq] at hrun
      rw [← hrun.2]

/-- An integer local takes its bytes from the uninitialised memory. -/
theorem readNat_stack {width n : Nat} {r r' : Reader} (hrun : readNat width r = .ok (n, r')) :
    r'.stack = fun i => r.stack (width + i) := by
  obtain ⟨old, r₁, hlocal, hrun⟩ := of_run_bind hrun
  obtain ⟨got, r₂, hread, hlast⟩ := of_run_bind hrun
  cases hlocal
  cases hlast
  exact readOver_stack hread

theorem readU8_stack {v : UInt8} {r r' : Reader} (hrun : readU8 r = .ok (v, r')) :
    r'.stack = fun i => r.stack (1 + i) := by
  obtain ⟨n, r₁, hread, hlast⟩ := of_run_bind hrun
  cases hlast
  exact readNat_stack hread

theorem readU64_stack {v : UInt64} {r r' : Reader} (hrun : readU64 r = .ok (v, r')) :
    r'.stack = fun i => r.stack (8 + i) := by
  obtain ⟨n, r₁, hread, hlast⟩ := of_run_bind hrun
  cases hlast
  exact readNat_stack hread

/-- A read gets the next bytes of the sequence, if `old` holds those that the
buffer lacks. -/
theorem readOver_continues {n start : Nat} {f : Nat → UInt8} {r : Reader}
    (hr : r.Continues f start) (old : Block n)
    (hold : ∀ i (hi : i < old.1.length), r.view.length ≤ i → old.1[i] = f (start + i)) :
    ∃ r', readOver old r = .ok (⟨segment f start n, segment_length f start n⟩, r') ∧
      r'.stack = r.stack ∧ r'.view = r.view.drop n := by
  obtain ⟨buf, hread, hrest⟩ := r.buf.read_ok n
  refine ⟨{ r with buf := buf }, ?_, rfl, hrest⟩
  simp only [readOver, hread, Except.ok.injEq, Prod.mk.injEq, and_true]
  apply Subtype.ext
  change _ = segment f start n
  apply List.ext_getElem
  · simp only [List.length_take, List.length_append, List.length_drop, old.2,
      segment_length]
    omega
  · intro i hi hi'
    rw [segment_getElem]
    rw [segment_length] at hi'
    simp only [List.getElem_take, List.getElem_append, List.getElem_drop]
    split
    · rename_i hgot
      simp only [List.length_take] at hgot
      exact hr i (by simp only [Reader.view]; omega)
    · rename_i hgot
      simp only [List.length_take] at hgot
      rw [hold _ _ (by simp only [List.length_take, Reader.view]; omega)]
      congr 1
      simp only [List.length_take]
      omega

theorem Reader.Continues.drop {r r' : Reader} {f : Nat → UInt8} {start n : Nat}
    (hr : r.Continues f start) (hview : r'.view = r.view.drop n) :
    r'.Continues f (start + n) := by
  intro i hi
  have hi' : n + i < r.view.length := by
    rw [hview, List.length_drop] at hi
    omega
  simp only [hview, List.getElem_drop]
  rw [hr (n + i) hi', Nat.add_assoc]

theorem uninit_continues {n start : Nat} {f : Nat → UInt8} {r : Reader}
    (hr : r.Continues f start)
    (hstack : ∀ i < n, r.view.length ≤ i → r.stack i = f (start + i)) :
    ∃ r', (uninit n >>= readOver) r =
        .ok (⟨segment f start n, segment_length f start n⟩, r') ∧
      r'.stack = (fun i => r.stack (n + i)) ∧ r'.view = r.view.drop n := by
  let old : Block n := ⟨(List.range n).map r.stack, by simp⟩
  obtain ⟨r', hrun, hstack', hview'⟩ := readOver_continues
    (r := { r with stack := fun i => r.stack (n + i) }) hr old (by
      intro i hi hend
      have hi' : i < n := by simpa [old] using hi
      simpa [old] using hstack i hi' hend)
  have hlocal : uninit n r = .ok (old, { r with stack := fun i => r.stack (n + i) }) := rfl
  exact ⟨r', (run_bind hlocal).trans hrun, hstack', hview'⟩

/-- An integer local keeps, of the sequence, what it held before. -/
theorem readNat_continues {width start : Nat} {f : Nat → UInt8} {r : Reader}
    (hr : r.Continues f start)
    (hstack : ∀ i < width, r.view.length ≤ i → r.stack i = f (start + i)) :
    ∃ r', readNat width r = .ok (leNat (segment f start width), r') ∧
      r'.stack = (fun i => r.stack (width + i)) ∧ r'.view = r.view.drop width := by
  obtain ⟨r', hrun, hstack', hview'⟩ := uninit_continues hr hstack
  obtain ⟨old, r₁, hlocal, hread⟩ := of_run_bind hrun
  refine ⟨r', ?_, hstack', hview'⟩
  rw [readNat, run_bind hlocal, run_bind hread]
  rfl

theorem readU32_continues {start : Nat} {f : Nat → UInt8} {r : Reader}
    (hr : r.Continues f start)
    (hstack : ∀ i < 4, r.view.length ≤ i → r.stack i = f (start + i)) :
    ∃ r', readU32 r = .ok (UInt32.ofNat (leNat (segment f start 4)), r') ∧
      r'.stack = (fun i => r.stack (4 + i)) ∧ r'.view = r.view.drop 4 := by
  obtain ⟨r', hrun, hstack', hview'⟩ := readNat_continues hr hstack
  exact ⟨r', run_bind hrun, hstack', hview'⟩

theorem readU64_continues {start : Nat} {f : Nat → UInt8} {r : Reader}
    (hr : r.Continues f start)
    (hstack : ∀ i < 8, r.view.length ≤ i → r.stack i = f (start + i)) :
    ∃ r', readU64 r = .ok (UInt64.ofNat (leNat (segment f start 8)), r') ∧
      r'.stack = (fun i => r.stack (8 + i)) ∧ r'.view = r.view.drop 8 := by
  obtain ⟨r', hrun, hstack', hview'⟩ := readNat_continues hr hstack
  exact ⟨r', run_bind hrun, hstack', hview'⟩

theorem readBytes_continues (n : Nat) {start : Nat} {f : Nat → UInt8} {r : Reader}
    (hr : r.Continues f start) (hzero : ∀ i, r.view.length ≤ i → f (start + i) = 0) :
    ∃ r', readTimes readByte n r =
        .ok (⟨segment f start n, segment_length f start n⟩, r') ∧
      r'.stack = r.stack ∧ r'.view = r.view.drop n := by
  induction n generalizing start r with
  | zero => exact ⟨r, rfl, rfl, rfl⟩
  | succ n ih =>
      obtain ⟨r₁, hrun₁, hstack₁, hview₁⟩ := readOver_continues hr (Block.zero 1) (by
        intro i hi hend
        rw [hzero i hend]
        simp [Block.zero])
      obtain ⟨r₂, hrun₂, hstack₂, hview₂⟩ := ih (hr.drop hview₁) (by
        intro i hi
        rw [Nat.add_assoc]
        apply hzero
        rw [hview₁, List.length_drop] at hi
        omega)
      refine ⟨r₂, ?_, hstack₂.trans hstack₁, ?_⟩
      · have hbyte : readByte r = .ok (f start, r₁) := by
          have hvalue : UInt8.ofNat (leNat (segment f start 1)) = f start := by
            simp [Wire.segment, leNat]
          rw [readByte, run_bind hrun₁, hvalue]
          rfl
        rw [readTimes, run_bind hbyte, run_bind hrun₂]
        exact congrArg (fun items => Except.ok (items, r₂))
          (Subtype.ext (segment_succ f start n).symm)
      · rw [hview₂, hview₁, List.drop_drop, Nat.add_comm]

/-- `readByteVector` on a sequence that goes on with whatever the length field
held, and then with zeros. -/
theorem readByteVector_continues {start : Nat} {f : Nat → UInt8} {r : Reader}
    {size : UInt64} (hr : r.Continues f start)
    (hstack : ∀ i < 8, r.view.length ≤ i → r.stack i = f (start + i))
    (hzero : ∀ i, 8 ≤ i → r.view.length ≤ i → f (start + i) = 0)
    (hlength : UInt64.ofNat (leNat (segment f start 8)) = size)
    (hsize : size.toNat ≤ maxSize) :
    ∃ r', readByteVector r =
        .ok (⟨segment f (start + 8) size.toNat, by rwa [segment_length]⟩, r') ∧
      r'.stack = (fun i => r.stack (8 + i)) ∧
      r'.view = r.view.drop (8 + size.toNat) := by
  obtain ⟨r₁, hrun₁, hstack₁, hview₁⟩ := readU64_continues hr hstack
  rw [hlength] at hrun₁
  obtain ⟨r₂, hrun₂, hstack₂, hview₂⟩ := readBytes_continues size.toNat (hr.drop hview₁) (by
    intro i hi
    rw [hview₁, List.length_drop] at hi
    rw [Nat.add_assoc]
    exact hzero (8 + i) (Nat.le_add_right 8 i) (by omega))
  have hcheck : checkSize size.toNat maxSize r₁ = .ok (⟨hsize⟩, r₁) := by
    rw [checkSize, dif_pos hsize]
  refine ⟨r₂, ?_, hstack₂.trans hstack₁, ?_⟩
  · rw [readByteVector, run_bind hrun₁, run_bind hcheck, run_bind hrun₂]
    rfl
  · rw [hview₂, hview₁, List.drop_drop]

theorem readByteVector_tooLong {start : Nat} {f : Nat → UInt8} {r : Reader}
    {size : UInt64} (hr : r.Continues f start)
    (hstack : ∀ i < 8, r.view.length ≤ i → r.stack i = f (start + i))
    (hlength : UInt64.ofNat (leNat (segment f start 8)) = size)
    (hsize : ¬ size.toNat ≤ maxSize) : readByteVector r = .error .lengthError := by
  obtain ⟨r₁, hrun₁, _⟩ := readU64_continues hr hstack
  rw [hlength] at hrun₁
  have hcheck : checkSize size.toNat maxSize r₁ = .error .lengthError := by
    rw [checkSize, dif_neg hsize]
  rw [readByteVector, run_bind hrun₁, run_bind_error hcheck]

/-- `readString` on a sequence that goes on as for `readByteVector`. -/
theorem readString_continues {start : Nat} {f : Nat → UInt8} {r : Reader}
    {size : UInt64} (hr : r.Continues f start)
    (hstack : ∀ i < 8, r.view.length ≤ i → r.stack i = f (start + i))
    (hzero : ∀ i, 8 ≤ i → r.view.length ≤ i → f (start + i) = 0)
    (hlength : UInt64.ofNat (leNat (segment f start 8)) = size)
    (hsize : size.toNat ≤ maxSize) :
    ∃ r', readString r =
      .ok (⟨segment f (start + 8) size.toNat, by rwa [segment_length]⟩, r') := by
  obtain ⟨r₁, hrun₁, _, hview₁⟩ := readU64_continues hr hstack
  rw [hlength] at hrun₁
  obtain ⟨r₂, hrun₂, _⟩ := readOver_continues (hr.drop hview₁) (Block.zero size.toNat) (by
    intro i _ hend
    rw [hview₁, List.length_drop] at hend
    rw [Nat.add_assoc, hzero (8 + i) (Nat.le_add_right 8 i) (by omega)]
    simp [Block.zero])
  have hcheck : checkSize size.toNat maxSize r₁ = .ok (⟨hsize⟩, r₁) := by
    rw [checkSize, dif_pos hsize]
  refine ⟨r₂, ?_⟩
  rw [readString, run_bind hrun₁, run_bind hcheck, run_bind hrun₂]
  rfl

theorem readString_tooLong {start : Nat} {f : Nat → UInt8} {r : Reader}
    {size : UInt64} (hr : r.Continues f start)
    (hstack : ∀ i < 8, r.view.length ≤ i → r.stack i = f (start + i))
    (hlength : UInt64.ofNat (leNat (segment f start 8)) = size)
    (hsize : ¬ size.toNat ≤ maxSize) : readString r = .error .lengthError := by
  obtain ⟨r₁, hrun₁, _⟩ := readU64_continues hr hstack
  rw [hlength] at hrun₁
  have hcheck : checkSize size.toNat maxSize r₁ = .error .lengthError := by
    rw [checkSize, dif_neg hsize]
  rw [readString, run_bind hrun₁, run_bind_error hcheck]

end LeakyChat

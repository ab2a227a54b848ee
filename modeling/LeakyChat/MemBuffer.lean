/-
The byte buffer every packet and payload codec is built on.  `MemBuffer` is the
class as the source has it, an allocation with two offsets; `view` is the byte
queue it stands for, and each operation comes with its effect on `view`.
-/
import LeakyChat.Library.Wire

namespace LeakyChat

open Wire

/-- Why a call does not return.  All but `undefined` are exceptions;
`undefined` stands for undefined behaviour, which no `catch` stops. -/
inductive Fault where
  | lengthError
  | outOfRange (what : String)
  | runtimeError (what : String)
  | undefined
deriving DecidableEq, Repr

/-- `PTRDIFF_MAX`: a container asked to hold more throws `std::length_error`. -/
def maxSize : Nat := 2 ^ 63 - 1

/-- A `std::string` or a `std::vector<std::uint8_t>`: bytes within `maxSize`. -/
abbrev Str := { bytes : List UInt8 // bytes.length ≤ maxSize }

/-- A `std::array<std::uint8_t, size>`. -/
abbrev Block (size : Nat) := { bytes : List UInt8 // bytes.length = size }

def Str.empty : Str := ⟨[], Nat.zero_le _⟩

instance : Inhabited Str := ⟨Str.empty⟩

/-- A string or vector built from a range of bytes. -/
def Str.ofBytes (bytes : List UInt8) : Except Fault Str :=
  if h : bytes.length ≤ maxSize then .ok ⟨bytes, h⟩ else .error .lengthError

@[simp]
theorem Str.ofBytes_eq_ok {bytes : List UInt8} {s : Str} :
    Str.ofBytes bytes = .ok s ↔ s.1 = bytes := by
  unfold Str.ofBytes
  split
  · simp [Subtype.ext_iff, eq_comm]
  · rename_i hlong
    simp only [reduceCtorEq, false_iff]
    rintro rfl
    exact hlong s.2

theorem Str.ofBytes_val (s : Str) : Str.ofBytes s.1 = .ok s := by simp

def Block.zero (size : Nat) : Block size :=
  ⟨List.replicate size 0, List.length_replicate⟩

/-- `data` is the allocation of `capacity_` bytes (a null pointer and an empty
allocation are the same here), filled from `begin` up to `end`. -/
structure MemBuffer where
  data : List UInt8
  beginPos : Nat
  endPos : Nat
  begin_le_end : beginPos ≤ endPos
  end_le_capacity : endPos ≤ data.length

namespace MemBuffer

/-- `MemBuffer(sz)`.  The bytes `new char[sz]` finds in memory lie outside
`view`, where no operation reads them. -/
def ofCapacity (sz : Nat) : MemBuffer :=
  ⟨List.replicate sz 0, 0, 0, Nat.le_refl 0, Nat.zero_le _⟩

/-- `MemBuffer()`. -/
def empty : MemBuffer := ofCapacity 0

def capacity (b : MemBuffer) : Nat := b.data.length

def size (b : MemBuffer) : Nat := b.endPos - b.beginPos

def availableSpace (b : MemBuffer) : Nat := b.capacity - b.endPos

def freeSpace (b : MemBuffer) : Nat := b.capacity - b.size

/-- The bytes written and not yet read, in order. -/
def view (b : MemBuffer) : List UInt8 := (b.data.drop b.beginPos).take b.size

@[simp]
theorem view_length (b : MemBuffer) : b.view.length = b.size := by
  have hbegin := b.begin_le_end
  have hend := b.end_le_capacity
  simp only [view, size, List.length_take, List.length_drop]
  omega

@[simp]
theorem ofCapacity_view (sz : Nat) : (ofCapacity sz).view = [] := by
  simp [view, size, ofCapacity]

@[simp]
theorem empty_view : empty.view = [] := ofCapacity_view 0

theorem size_le_capacity (b : MemBuffer) : b.size ≤ b.capacity := by
  have hend := b.end_le_capacity
  simp only [size, capacity]
  omega

/-- A buffer whose content has been moved to the front of an allocation. -/
def atFront (content slack : List UInt8) : MemBuffer :=
  ⟨content ++ slack, 0, content.length, Nat.zero_le _, by simp⟩

@[simp]
theorem atFront_view (content slack : List UInt8) :
    (atFront content slack).view = content := by
  simp [atFront, view, size]

@[simp]
theorem atFront_availableSpace (content slack : List UInt8) :
    (atFront content slack).availableSpace = slack.length := by
  simp [atFront, availableSpace, capacity]

def resize (b : MemBuffer) (sz : Nat) : MemBuffer :=
  if b.capacity < sz then
    atFront b.view (List.replicate (sz - b.size) 0)
  else b

/-- Moves data to the left, freeing up space after end. -/
def relocate (b : MemBuffer) : MemBuffer :=
  if 0 < b.beginPos then atFront b.view (b.data.drop b.size) else b

def ensureFreeSpace (b : MemBuffer) (sz : Nat) : MemBuffer :=
  if sz ≤ b.availableSpace then b
  else if sz ≤ b.freeSpace then b.relocate
  else b.resize (max (2 * b.capacity) (sz + b.capacity))

@[simp]
theorem resize_view (b : MemBuffer) (sz : Nat) : (b.resize sz).view = b.view := by
  unfold resize
  split <;> simp

@[simp]
theorem relocate_view (b : MemBuffer) : b.relocate.view = b.view := by
  unfold relocate
  split <;> simp

@[simp]
theorem ensureFreeSpace_view (b : MemBuffer) (sz : Nat) :
    (b.ensureFreeSpace sz).view = b.view := by
  unfold ensureFreeSpace
  split
  · rfl
  · split <;> simp

/-- All three paths leave room for the bytes asked for. -/
theorem ensureFreeSpace_availableSpace (b : MemBuffer) (sz : Nat) :
    sz ≤ (b.ensureFreeSpace sz).availableSpace := by
  have hsize := b.size_le_capacity
  unfold ensureFreeSpace
  split
  · assumption
  · rename_i hfull
    simp only [availableSpace, not_le] at hfull
    split
    · rename_i hfree
      -- With `begin = 0` the free space would lie behind `end`, the first case.
      have hbegin : 0 < b.beginPos := by
        simp only [freeSpace, size] at hfree
        omega
      rw [relocate, if_pos hbegin, atFront_availableSpace, List.length_drop]
      exact hfree
    · have hgrow : b.capacity < max (2 * b.capacity) (sz + b.capacity) := by
        omega
      rw [resize, if_pos hgrow, atFront_availableSpace, List.length_replicate]
      omega

/-- Copy `src` behind `end`; there is room for it. -/
def fill (b : MemBuffer) (src : List UInt8)
    (hroom : src.length ≤ b.availableSpace) : MemBuffer where
  data := b.data.take b.endPos ++ src ++ b.data.drop (b.endPos + src.length)
  beginPos := b.beginPos
  endPos := b.endPos + src.length
  begin_le_end := Nat.le_trans b.begin_le_end (Nat.le_add_right _ _)
  end_le_capacity := by
    have hend := b.end_le_capacity
    have hfits : src.length ≤ b.data.length - b.endPos := hroom
    simp only [List.length_append, List.length_take, List.length_drop]
    omega

theorem fill_view (b : MemBuffer) (src : List UInt8)
    (hroom : src.length ≤ b.availableSpace) :
    (b.fill src hroom).view = b.view ++ src := by
  have hbegin := b.begin_le_end
  have hend := b.end_le_capacity
  have hsize : b.endPos + src.length - b.beginPos =
      (b.endPos - b.beginPos) + src.length := by omega
  simp only [view, size, fill]
  rw [List.append_assoc, List.drop_append_of_le_length
    (by simp only [List.length_take]; omega), hsize, List.drop_take]
  have hlength : ((b.data.drop b.beginPos).take
      (b.endPos - b.beginPos)).length = b.endPos - b.beginPos := by
    simp only [List.length_take, List.length_drop]
    omega
  rw [List.take_append, hlength, List.take_of_length_le (by omega),
    Nat.add_sub_cancel_left, List.take_append_of_le_length (Nat.le_refl _),
    List.take_length]

def writeBytes (b : MemBuffer) (src : List UInt8) : MemBuffer :=
  (b.ensureFreeSpace src.length).fill src
    (b.ensureFreeSpace_availableSpace src.length)

@[simp]
theorem writeBytes_view (b : MemBuffer) (src : List UInt8) :
    (b.writeBytes src).view = b.view ++ src := by
  rw [writeBytes, fill_view, ensureFreeSpace_view]

def consume (b : MemBuffer) (len : Nat) : Except Fault MemBuffer :=
  if h : b.size < len then
    .error (.outOfRange "MemBuffer::consume underflow")
  else if b.beginPos + len = b.endPos then
    .ok ⟨b.data, 0, 0, Nat.le_refl 0, Nat.zero_le _⟩
  else
    .ok ⟨b.data, b.beginPos + len, b.endPos, by
      have hbegin := b.begin_le_end
      simp only [size] at h
      omega, b.end_le_capacity⟩

theorem consume_ok (b : MemBuffer) {len : Nat} (hlen : len ≤ b.size) :
    ∃ b', b.consume len = .ok b' ∧ b'.view = b.view.drop len := by
  have hsize : ¬ b.size < len := by omega
  by_cases hempty : b.beginPos + len = b.endPos
  · refine ⟨⟨b.data, 0, 0, Nat.le_refl 0, Nat.zero_le _⟩, ?_, ?_⟩
    · simp [consume, hsize, hempty]
    · have hall : b.view.length ≤ len := by
        rw [view_length, size]
        omega
      rw [List.drop_of_length_le hall]
      simp [view, size]
  · refine ⟨_, by simp only [consume, hsize, hempty, ↓reduceIte, ↓reduceDIte]; rfl, ?_⟩
    simp only [view, size, List.drop_take, List.drop_drop]
    congr 1
    omega

/-- What `read` copies out, and the buffer after it. -/
def read (b : MemBuffer) (len : Nat) : Except Fault (List UInt8 × MemBuffer) :=
  let bytesToRead := min len b.size
  if 0 < bytesToRead then
    match b.consume bytesToRead with
    | .ok b' => .ok (b.view.take bytesToRead, b')
    | .error fault => .error fault
  else .ok ([], b)

/-- A read takes what is there, up to `len` bytes, and never throws. -/
theorem read_ok (b : MemBuffer) (len : Nat) :
    ∃ b', b.read len = .ok (b.view.take len, b') ∧ b'.view = b.view.drop len := by
  have htake : b.view.take (min len b.size) = b.view.take len := by
    rw [← view_length, ← List.take_eq_take_min]
  have hdrop : b.view.drop (min len b.size) = b.view.drop len := by
    rcases Nat.le_total len b.size with hle | hle
    · rw [Nat.min_eq_left hle]
    · rw [Nat.min_eq_right hle, ← view_length, List.drop_length,
        List.drop_of_length_le (by rwa [view_length])]
  by_cases hpos : 0 < min len b.size
  · obtain ⟨b', hconsume, hview⟩ := b.consume_ok (Nat.min_le_right len b.size)
    refine ⟨b', ?_, hview.trans hdrop⟩
    simp only [read, hpos, ↓reduceIte, hconsume, htake]
  · have hzero : min len b.size = 0 := Nat.eq_zero_of_not_pos hpos
    refine ⟨b, ?_, ?_⟩
    · rw [← htake, hzero]
      simp [read, hpos]
    · rw [← hdrop, hzero, List.drop_zero]

end MemBuffer

end LeakyChat

/-
A `MemBuffer` is a byte queue.  The class is set beside a queue that remembers
what was written since the last `free`; every program over buffers, moves
between them included, runs over such queues with the same returns.
-/
import LeakyChat.Library.Fifo
import LeakyChat.Library.Objects
import LeakyChat.MemBuffer

namespace LeakyChat

open Objects Transition

namespace MemBuffer

/-- A null pointer is an allocation of nothing, with both offsets 0. -/
def free (b : MemBuffer) : MemBuffer := if b.data = [] then b else empty

/-- `MemBuffer(MemBuffer&&)`: the new buffer, and what is left in the other. -/
def moveFrom (other : MemBuffer) : MemBuffer × MemBuffer := (other, empty)

/-- `operator=(MemBuffer&&)` from a buffer other than itself.  Each field that
`free` resets is taken over next, so nothing of `this` is left. -/
def moveAssign (_this other : MemBuffer) : MemBuffer × MemBuffer := (other, empty)

theorem free_eq_empty (b : MemBuffer) : b.free = empty := by
  unfold free
  split
  · rename_i hdata
    have hbegin := b.begin_le_end
    have hend := b.end_le_capacity
    obtain ⟨data, beginPos, endPos, _, _⟩ := b
    subst hdata
    simp only [List.length_nil] at hend
    have hendPos : endPos = 0 := by omega
    have hbeginPos : beginPos = 0 := by omega
    subst hendPos hbeginPos
    rfl
  · rfl

end MemBuffer

inductive BufferCall where
  | free
  | resize (sz : Nat)
  | relocate
  | ensureFreeSpace (sz : Nat)
  | writeBytes (src : List UInt8)
  | consume (len : Nat)
  | read (len : Nat)

/-- How a call ends: it returns nothing or bytes, or throws. -/
inductive BufferReturn where
  | done
  | bytes (out : List UInt8)
  | threw (fault : Fault)
deriving DecidableEq, Repr

/-- A call on a buffer.  `consume` throws before it changes anything. -/
def MemBuffer.call : BufferCall → MemBuffer → BufferReturn × MemBuffer
  | .free, b => (.done, b.free)
  | .resize sz, b => (.done, b.resize sz)
  | .relocate, b => (.done, b.relocate)
  | .ensureFreeSpace sz, b => (.done, b.ensureFreeSpace sz)
  | .writeBytes src, b => (.done, b.writeBytes src)
  | .consume len, b =>
      match b.consume len with
      | .ok b' => (.done, b')
      | .error fault => (.threw fault, b)
  | .read len, b =>
      match b.read len with
      | .ok (out, b') => (.bytes out, b')
      | .error fault => (.threw fault, b)

def memBuffers : Class Nat BufferCall BufferReturn MemBuffer where
  build := MemBuffer.ofCapacity
  moveFrom := MemBuffer.moveFrom
  moveAssign := MemBuffer.moveAssign
  call := MemBuffer.call

/-- What the calls are for: space is no concern of a queue. -/
def queueCall : BufferCall → Fifo UInt8 → BufferReturn × Fifo UInt8
  | .free, _ => (.done, .empty)
  | .resize _, q => (.done, q)
  | .relocate, q => (.done, q)
  | .ensureFreeSpace _, q => (.done, q)
  | .writeBytes src, q => (.done, q.put src)
  | .consume len, q =>
      if len ≤ q.contents.length then (.done, q.take len)
      else (.threw (.outOfRange "MemBuffer::consume underflow"), q)
  | .read len, q => (.bytes (q.contents.take len), q.take len)

def byteQueues : Class Nat BufferCall BufferReturn (Fifo UInt8) where
  build _ := .empty
  moveFrom other := (other, .empty)
  moveAssign _ other := (other, .empty)
  call := queueCall

namespace MemBuffer

/-- The buffer holds what the queue does. -/
def Holds (b : MemBuffer) (q : Fifo UInt8) : Prop := b.view = q.contents

theorem size_of_holds {b : MemBuffer} {q : Fifo UInt8} (hholds : b.Holds q) :
    b.size = q.contents.length := by
  rw [← view_length, hholds]

theorem consume_underflow (b : MemBuffer) {len : Nat} (hlen : b.size < len) :
    b.call (.consume len) = (.threw (.outOfRange "MemBuffer::consume underflow"), b) := by
  simp only [call, consume, dif_pos hlen]

/-- A read that is asked for more than there is takes everything. -/
theorem read_call (b : MemBuffer) (len : Nat) :
    (b.call (.read len)).1 = .bytes (b.view.take (min len b.size)) ∧
      (b.call (.read len)).2.view = b.view.drop (min len b.size) := by
  obtain ⟨b', hread, hview⟩ := b.read_ok len
  simp only [call, hread, BufferReturn.bytes.injEq]
  rw [← view_length, ← List.take_eq_take_min, hview]
  refine ⟨rfl, ?_⟩
  rcases Nat.le_total len b.view.length with hle | hle
  · rw [Nat.min_eq_left hle]
  · rw [Nat.min_eq_right hle, List.drop_length, List.drop_of_length_le hle]

/-- Each call returns what the queue returns, and leaves what it leaves. -/
theorem call_holds (c : BufferCall) {b : MemBuffer} {q : Fifo UInt8} (hholds : b.Holds q) :
    (b.call c).1 = (queueCall c q).1 ∧ (b.call c).2.Holds (queueCall c q).2 := by
  cases c with
  | free => exact ⟨rfl, by rw [call, free_eq_empty]; exact empty_view⟩
  | resize sz => exact ⟨rfl, (b.resize_view sz).trans hholds⟩
  | relocate => exact ⟨rfl, b.relocate_view.trans hholds⟩
  | ensureFreeSpace sz => exact ⟨rfl, (b.ensureFreeSpace_view sz).trans hholds⟩
  | writeBytes src =>
      refine ⟨rfl, ?_⟩
      change (b.writeBytes src).view = (q.put src).contents
      rw [writeBytes_view, Fifo.put_contents, hholds]
  | consume len =>
      by_cases hlen : len ≤ b.size
      · obtain ⟨b', hconsume, hview⟩ := b.consume_ok hlen
        rw [size_of_holds hholds] at hlen
        simp only [call, hconsume, queueCall, if_pos hlen, true_and]
        rw [Holds, hview, hholds, Fifo.take_contents]
      · rw [b.consume_underflow (Nat.lt_of_not_le hlen)]
        rw [size_of_holds hholds] at hlen
        simp only [queueCall, if_neg hlen, true_and]
        exact hholds
  | read len =>
      obtain ⟨b', hread, hview⟩ := b.read_ok len
      simp only [call, hread, queueCall, BufferReturn.bytes.injEq]
      refine ⟨by rw [hholds], ?_⟩
      rw [Holds, hview, hholds, Fifo.take_contents]

theorem memBuffers_refines : memBuffers.Refines byteQueues Holds where
  build sz := ofCapacity_view sz
  moveFrom _ _ hother := ⟨hother, empty_view⟩
  moveAssign _ _ _ _ _ hother := ⟨hother, empty_view⟩
  call c _ _ hholds := call_holds c hholds

/-- In every program over buffers the offsets stay in order within the
allocation, and the same program over byte queues, with the same returns, ends
with each queue holding what `view` shows.  A read takes the first bytes, and
consuming more than there is throws and changes nothing. -/
theorem run_byteQueues
    {labels : List (Operation Nat Nat BufferCall × Option BufferReturn)}
    {pool : Pool Nat MemBuffer} (hrun : Run memBuffers.system (fun _ => none) labels pool) :
    (∃ queues, Run byteQueues.system (fun _ => none) labels queues ∧
      ∀ i, (pool i).map MemBuffer.view = (queues i).map Fifo.contents) ∧
    ∀ i b, pool i = some b →
      (b.beginPos ≤ b.endPos ∧ b.endPos ≤ b.capacity) ∧
      ∀ len,
        ((b.call (.read len)).1 = .bytes (b.view.take (min len b.size)) ∧
          (b.call (.read len)).2.view = b.view.drop (min len b.size)) ∧
        (b.size < len → b.call (.consume len) =
          (.threw (.outOfRange "MemBuffer::consume underflow"), b)) := by
  constructor
  · have hnone : Matches Holds (fun _ : Nat => none) (fun _ => none) := fun _ => .none
    obtain ⟨queues, hqueues, hmatches⟩ := memBuffers_refines.run hrun hnone
    refine ⟨queues, hqueues, ?_⟩
    intro i
    have hi := hmatches i
    cases hpool : pool i with
    | none => rw [hmatches.none hpool]; rfl
    | some b =>
        obtain ⟨q, hq, hholds⟩ := hmatches.some hpool
        rw [hq]
        exact congrArg some hholds
  · intro i b _
    refine ⟨⟨b.begin_le_end, b.end_le_capacity⟩, ?_⟩
    intro len
    exact ⟨b.read_call len, b.consume_underflow⟩

/-- A write that makes the buffer grow, a read that leaves part of it, a
`consume` of more than that, and a move. -/
def sampleOperations : List (Operation Nat Nat BufferCall × Option BufferReturn) :=
  [(.build 0 1, none), (.call 0 (.writeBytes [7, 8, 9]), some .done),
    (.call 0 (.read 2), some (.bytes [7, 8])),
    (.call 0 (.consume 4), some (.threw (.outOfRange "MemBuffer::consume underflow"))),
    (.moveBuild 1 0, none)]

theorem run_sampleOperations :
    ∃ pool, Run memBuffers.system (fun _ => none) sampleOperations pool := by
  refine Class.Step.cons (.build 1 rfl) ?_
  refine Class.Step.cons (.of_call rfl rfl) ?_
  refine Class.Step.cons (.of_call rfl rfl) ?_
  refine Class.Step.cons (.of_call rfl rfl) ?_
  refine Class.Step.cons (.moveBuild rfl rfl) ?_
  exact ⟨_, Run.nil _⟩

theorem run_byteQueues_sampleOperations :
    ∃ (pool : Pool Nat MemBuffer) (queues : Pool Nat (Fifo UInt8)),
      Run byteQueues.system (fun _ => none) sampleOperations queues ∧
        ∀ i, (pool i).map MemBuffer.view = (queues i).map Fifo.contents := by
  obtain ⟨pool, hrun⟩ := run_sampleOperations
  exact ⟨pool, (run_byteQueues hrun).1⟩

end MemBuffer

end LeakyChat

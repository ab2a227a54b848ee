/-
The loop of `receiveBytes`, one `recv` after another.  Each takes some of the bytes
still to come on the socket, none of them beyond those asked for, and the loop
goes on behind the bytes it has.  The handshakes take their turns from it.
-/
import LeakyChat.Handshake

namespace LeakyChat

namespace NetworkHandler

/-- The values of `errno` that `receiveBytes` tells apart after a `-1`. -/
inductive RecvError where
  | again
  | wouldBlock
  | interrupted
  | other
deriving DecidableEq

/-- How a `recv` turns out: at most `more` bytes besides the first have arrived,
or there are none to come; or it returns `-1`. -/
inductive RecvCall where
  | arrived (more : Nat)
  | failed (errno : RecvError)

/-- The memory of a caller, with room for the bytes that it asks for. -/
abbrev ReceiveBuffer (size : UInt64) :=
  { bytes : List UInt8 // size.toNat ≤ bytes.length ∧ bytes.length ≤ maxSize }

/-- Bytes written at `buffer + received`. -/
def writeAt (buffer : List UInt8) (received : Nat) (bytes : List UInt8) : List UInt8 :=
  buffer.take received ++ bytes ++ buffer.drop (received + bytes.length)

theorem writeAt_length {buffer bytes : List UInt8} {received : Nat}
    (hfits : received + bytes.length ≤ buffer.length) :
    (writeAt buffer received bytes).length = buffer.length := by
  simp only [writeAt, List.length_append, List.length_take, List.length_drop]
  omega

theorem writeAt_room {size : UInt64} (buffer : ReceiveBuffer size) {bytes : List UInt8}
    {received : Nat} (hfits : received + bytes.length ≤ size.toNat) :
    size.toNat ≤ (writeAt buffer.1 received bytes).length ∧
      (writeAt buffer.1 received bytes).length ≤ maxSize := by
  rw [writeAt_length (Nat.le_trans hfits buffer.2.1)]
  exact buffer.2

/-- The loop between two calls: the buffer, how many bytes it has received, and
those of the stream that no call has taken. -/
structure ReceiveLoop (size : UInt64) where
  buffer : ReceiveBuffer size
  received : Nat
  inside : received ≤ size.toNat
  stream : List UInt8

inductive ReceiveResult (size : UInt64) where
  | waiting (s : ReceiveLoop size)
  | returned (result : Int) (s : ReceiveLoop size)
  | exited

namespace ReceiveLoop

variable {size : UInt64}

def start (buffer : ReceiveBuffer size) (stream : List UInt8) : ReceiveLoop size :=
  ⟨buffer, 0, Nat.zero_le _, stream⟩

/-- What `recv` takes, being asked for `size - received` bytes. -/
def taken (s : ReceiveLoop size) (more : Nat) : List UInt8 :=
  s.stream.take (min (more + 1) (size.toNat - s.received))

theorem taken_fits (s : ReceiveLoop size) (more : Nat) :
    s.received + (s.taken more).length ≤ size.toNat := by
  have hinside := s.inside
  rw [taken, List.length_take]
  omega

/-- `received += bytes`. -/
def advance (s : ReceiveLoop size) (more : Nat) : ReceiveLoop size where
  buffer := ⟨writeAt s.buffer.1 s.received (s.taken more),
    writeAt_room s.buffer (s.taken_fits more)⟩
  received := s.received + (s.taken more).length
  inside := s.taken_fits more
  stream := s.stream.drop (s.taken more).length

/-- The body of the loop. -/
def turn (s : ReceiveLoop size) : RecvCall → ReceiveResult size
  | .arrived more =>
      if 0 < (s.taken more).length then .waiting (s.advance more) else .returned (-1) s
  | .failed errno =>
      if errno ≠ .again ∧ errno ≠ .wouldBlock ∧ errno ≠ .interrupted then .exited
      else .waiting s

end ReceiveLoop

/-- `receiveBytes`, up to the first `recv` that has not returned yet. -/
def receiveBytes {size : UInt64} : List RecvCall → ReceiveLoop size → ReceiveResult size
  | [], s =>
      if (s.received : Int) < size.toInt64.toInt then .waiting s else .returned s.received s
  | call :: calls, s =>
      if (s.received : Int) < size.toInt64.toInt then
        match s.turn call with
        | .waiting s => receiveBytes calls s
        | ended => ended
      else .returned s.received s

/-- `recv` has not returned `-1`. -/
def RecvCall.hasArrived : RecvCall → Bool
  | .arrived _ => true
  | .failed _ => false

/-- No call is one that `receiveBytes` ends the program at. -/
def Soft (calls : List RecvCall) : Prop := ∀ call ∈ calls, call ≠ .failed .other

/-- The bytes received are the next ones of the stream, in the first places of the
buffer; the others of both are as they were. -/
structure Follows {size : UInt64} (buffer : ReceiveBuffer size) (stream : List UInt8)
    (s : ReceiveLoop size) : Prop where
  buffered : s.buffer.1 = stream.take s.received ++ buffer.1.drop s.received
  remaining : s.stream = stream.drop s.received
  arrived : s.received ≤ stream.length

namespace ReceiveLoop

variable {size : UInt64} {buffer : ReceiveBuffer size} {stream : List UInt8}
  {s : ReceiveLoop size}

theorem start_follows (buffer : ReceiveBuffer size) (stream : List UInt8) :
    Follows buffer stream (start buffer stream) where
  buffered := by simp [start]
  remaining := rfl
  arrived := Nat.zero_le _

/-- The cast of `size` to a signed number is exact, there being room for so many
bytes. -/
theorem cast_size (s : ReceiveLoop size) : size.toInt64.toInt = size.toNat := by
  have hsize : size.toNat ≤ maxSize := Nat.le_trans s.buffer.2.1 s.buffer.2.2
  rw [maxSize] at hsize
  exact BitVec.toInt_eq_toNat_of_lt (show 2 * size.toNat < 2 ^ 64 by omega)

theorem unfinished_iff (s : ReceiveLoop size) :
    (s.received : Int) < size.toInt64.toInt ↔ s.received < size.toNat := by
  rw [s.cast_size, Int.ofNat_lt]

theorem taken_eq_take (s : ReceiveLoop size) (more : Nat) :
    s.taken more = s.stream.take (s.taken more).length := by
  rw [taken, List.length_take]
  exact List.take_eq_take_min

/-- A call that returns bytes appends the next ones to those received. -/
theorem advance_follows (hfollows : Follows buffer stream s) (more : Nat) :
    Follows buffer stream (s.advance more) := by
  have htaken : s.taken more = (stream.drop s.received).take (s.taken more).length := by
    rw [← hfollows.remaining]
    exact s.taken_eq_take more
  have hlength : (stream.take s.received).length = s.received := by
    rw [List.length_take, Nat.min_eq_left hfollows.arrived]
  constructor
  · calc writeAt s.buffer.1 s.received (s.taken more)
        = stream.take s.received ++ s.taken more ++
            buffer.1.drop (s.received + (s.taken more).length) := by
          rw [writeAt, hfollows.buffered, List.take_left' hlength, List.drop_append, hlength,
            Nat.add_sub_cancel_left, List.drop_drop, List.drop_eq_nil_of_le (by omega),
            List.nil_append]
      _ = stream.take (s.received + (s.taken more).length) ++
            buffer.1.drop (s.received + (s.taken more).length) := by
          rw [List.take_add, ← htaken]
  · show s.stream.drop (s.taken more).length = stream.drop (s.received + (s.taken more).length)
    rw [hfollows.remaining, List.drop_drop]
  · have hfits : (s.taken more).length ≤ s.stream.length := List.length_take_le' _ _
    rw [hfollows.remaining, List.length_drop] at hfits
    have harrived := hfollows.arrived
    show s.received + (s.taken more).length ≤ stream.length
    omega

/-- Asked for something, `recv` gets nothing only at the end of the stream. -/
theorem stream_nil_of_taken (hmissing : s.received < size.toNat) {more : Nat}
    (hnone : ¬ 0 < (s.taken more).length) : s.stream = [] := by
  rw [taken, List.length_take] at hnone
  exact List.length_eq_zero_iff.mp (by omega)

/-- A turn of the loop: it goes on as it should, or the stream has ended. -/
theorem turn_cases (hfollows : Follows buffer stream s) (hmissing : s.received < size.toNat)
    {call : RecvCall} (hsoft : call ≠ .failed .other) :
    (∃ next, s.turn call = .waiting next ∧ Follows buffer stream next) ∨
      s.turn call = .returned (-1) s ∧ stream.length < size.toNat := by
  cases call with
  | arrived more =>
      rw [turn]
      by_cases hsome : 0 < (s.taken more).length
      · rw [if_pos hsome]
        exact Or.inl ⟨_, rfl, advance_follows hfollows more⟩
      · rw [if_neg hsome]
        have hend := congrArg List.length (stream_nil_of_taken hmissing hsome)
        rw [hfollows.remaining, List.length_drop, List.length_nil] at hend
        exact Or.inr ⟨rfl, by omega⟩
  | failed errno =>
      have hagain : ¬ (errno ≠ .again ∧ errno ≠ .wouldBlock ∧ errno ≠ .interrupted) := by
        cases errno with
        | again => simp
        | wouldBlock => simp
        | interrupted => simp
        | other => exact absurd rfl hsoft
      rw [turn, if_neg hagain]
      exact Or.inl ⟨s, rfl, hfollows⟩

/-- Every call that does not fail brings the loop closer to its end. -/
theorem missing_le_of_turn {call : RecvCall} {next : ReceiveLoop size}
    (hturn : s.turn call = .waiting next) :
    size.toNat - next.received + [call].countP (·.hasArrived) ≤ size.toNat - s.received := by
  cases call with
  | arrived more =>
      rw [turn] at hturn
      by_cases hsome : 0 < (s.taken more).length
      · rw [if_pos hsome] at hturn
        cases hturn
        have hfits := s.taken_fits more
        show size.toNat - (s.received + (s.taken more).length) + 1 ≤ size.toNat - s.received
        omega
      · rw [if_neg hsome] at hturn
        cases hturn
  | failed errno =>
      rw [turn] at hturn
      split at hturn
      · cases hturn
      · cases hturn
        exact Nat.le_refl _

end ReceiveLoop

/-- The next `size` bytes of the stream are in the buffer, and no more of it is
taken. -/
structure Received {size : UInt64} (buffer : ReceiveBuffer size) (stream : List UInt8)
    (s : ReceiveLoop size) : Prop where
  arrived : size.toNat ≤ stream.length
  buffered : s.buffer.1 = stream.take size.toNat ++ buffer.1.drop size.toNat
  remaining : s.stream = stream.drop size.toNat

theorem received_of_follows {size : UInt64} {buffer : ReceiveBuffer size} {stream : List UInt8}
    {s : ReceiveLoop size} (hfollows : Follows buffer stream s)
    (hdone : ¬ s.received < size.toNat) : Received buffer stream s := by
  have hall : s.received = size.toNat := Nat.le_antisymm s.inside (Nat.le_of_not_lt hdone)
  obtain ⟨hbuffered, hremaining, harrived⟩ := hfollows
  rw [hall] at hbuffered hremaining harrived
  exact ⟨harrived, hbuffered, hremaining⟩

/-- A second call goes on with the byte behind the last one of the first. -/
theorem Received.followed {size size' : UInt64} {buffer : ReceiveBuffer size}
    {buffer' : ReceiveBuffer size'} {stream : List UInt8} {s : ReceiveLoop size}
    {s' : ReceiveLoop size'} (hfirst : Received buffer stream s)
    (hsecond : Received buffer' s.stream s') :
    s.buffer.1.take size.toNat ++ s'.buffer.1.take size'.toNat =
        stream.take (size.toNat + size'.toNat) ∧
      s'.stream = stream.drop (size.toNat + size'.toNat) := by
  have harrived := hsecond.arrived
  rw [hfirst.remaining] at harrived
  constructor
  · rw [hfirst.buffered, hsecond.buffered, List.take_left' (List.length_take_of_le hfirst.arrived),
      hfirst.remaining, List.take_left' (List.length_take_of_le harrived), List.take_add]
  · rw [hsecond.remaining, hfirst.remaining, List.drop_drop]

section Runs

variable {size : UInt64} {buffer : ReceiveBuffer size} {stream : List UInt8}
  {s : ReceiveLoop size} {calls : List RecvCall}

theorem receiveBytes_done (hdone : ¬ s.received < size.toNat) (calls : List RecvCall) :
    receiveBytes calls s = .returned size.toNat s := by
  have hall : s.received = size.toNat := Nat.le_antisymm s.inside (Nat.le_of_not_lt hdone)
  have hguard := fun hlt => hdone (s.unfinished_iff.mp hlt)
  cases calls with
  | nil => rw [receiveBytes, if_neg hguard, hall]
  | cons call calls => rw [receiveBytes, if_neg hguard, hall]

/-- From any point of the loop, over any calls: it waits for the next one, or
returns the size and has the bytes, or `-1` as the stream has ended. -/
theorem receiveBytes_cases (hfollows : Follows buffer stream s) (hsoft : Soft calls) :
    (∃ still, receiveBytes calls s = .waiting still) ∨
      (∃ after, receiveBytes calls s = .returned size.toNat after ∧
        Received buffer stream after) ∨
      ∃ after, receiveBytes calls s = .returned (-1) after ∧ stream.length < size.toNat := by
  induction calls generalizing s with
  | nil =>
      by_cases hmissing : s.received < size.toNat
      · exact Or.inl ⟨s, by rw [receiveBytes, if_pos (s.unfinished_iff.mpr hmissing)]⟩
      · exact Or.inr (Or.inl ⟨s, receiveBytes_done hmissing [],
          received_of_follows hfollows hmissing⟩)
  | cons call calls ih =>
      by_cases hmissing : s.received < size.toNat
      · have hrest := List.forall_mem_cons.mp hsoft
        rw [receiveBytes, if_pos (s.unfinished_iff.mpr hmissing)]
        rcases ReceiveLoop.turn_cases hfollows hmissing hrest.1 with
          ⟨next, hturn, hnext⟩ | ⟨hturn, hended⟩
        · rw [hturn]
          exact ih hnext hrest.2
        · rw [hturn]
          exact Or.inr (Or.inr ⟨s, rfl, hended⟩)
      · exact Or.inr (Or.inl ⟨s, receiveBytes_done hmissing _,
          received_of_follows hfollows hmissing⟩)

/-- The loop ends after as many calls that do not fail as bytes are missing. -/
theorem receiveBytes_ends (hcalls : size.toNat - s.received ≤ calls.countP (·.hasArrived))
    (still : ReceiveLoop size) : receiveBytes calls s ≠ .waiting still := by
  induction calls generalizing s with
  | nil =>
      have hdone : ¬ s.received < size.toNat := by
        rw [List.countP_nil] at hcalls
        omega
      rw [receiveBytes_done hdone]
      rintro ⟨⟩
  | cons call calls ih =>
      by_cases hmissing : s.received < size.toNat
      · rw [receiveBytes, if_pos (s.unfinished_iff.mpr hmissing)]
        cases hturn : s.turn call with
        | waiting next =>
            have hcloser := ReceiveLoop.missing_le_of_turn hturn
            rw [← List.singleton_append, List.countP_append] at hcalls
            exact ih (by omega)
        | returned result after => rintro ⟨⟩
        | exited => rintro ⟨⟩
      · rw [receiveBytes_done hmissing]
        rintro ⟨⟩

/-- With enough calls, the size is returned exactly if the stream has so many
bytes. -/
theorem receiveBytes_returns_size_iff (buffer : ReceiveBuffer size) (stream : List UInt8)
    (hsoft : Soft calls) (hcalls : size.toNat ≤ calls.countP (·.hasArrived)) :
    (∃ after, receiveBytes calls (.start buffer stream) = .returned size.toNat after) ↔
      size.toNat ≤ stream.length := by
  have hends := receiveBytes_ends (s := .start buffer stream) hcalls
  rcases receiveBytes_cases (ReceiveLoop.start_follows buffer stream) hsoft with
    ⟨still, hwaits⟩ | ⟨after, hreturns, hreceived⟩ | ⟨after, hreturns, hended⟩
  · exact absurd hwaits (hends still)
  · exact ⟨fun _ => hreceived.arrived, fun _ => ⟨after, hreturns⟩⟩
  · constructor
    · rintro ⟨other, hother⟩
      rw [hreturns, ReceiveResult.returned.injEq] at hother
      omega
    · exact fun henough => absurd henough (Nat.not_le_of_lt hended)

/-- Without a hard error `receiveBytes` returns the size, having taken exactly so
many bytes from the stream, or `-1` as there were fewer, and nothing else. -/
theorem receiveBytes_returns (buffer : ReceiveBuffer size) (stream : List UInt8)
    (hsoft : Soft calls) :
    (∃ still, receiveBytes calls (.start buffer stream) = .waiting still) ∨
      (∃ after, receiveBytes calls (.start buffer stream) = .returned size.toNat after ∧
        Received buffer stream after) ∨
      ∃ after, receiveBytes calls (.start buffer stream) = .returned (-1) after ∧
        stream.length < size.toNat :=
  receiveBytes_cases (ReceiveLoop.start_follows buffer stream) hsoft

/-- Room for four bytes, of which three are asked for. -/
def sampleReceiveBuffer : ReceiveBuffer 3 := ⟨[9, 9, 9, 9], by decide⟩

def sampleCalls : List RecvCall :=
  [.failed .again, .arrived 1, .failed .interrupted, .arrived 7]

theorem receiveBytes_returns_sample :
    ∃ after, receiveBytes sampleCalls (.start sampleReceiveBuffer [1, 2, 3, 4, 5]) =
        .returned 3 after ∧
      Received sampleReceiveBuffer [1, 2, 3, 4, 5] after := by
  have hsoft : Soft sampleCalls := by simp [Soft, sampleCalls]
  rcases receiveBytes_returns sampleReceiveBuffer [1, 2, 3, 4, 5] hsoft with
    ⟨still, hwaits⟩ | hreturns | ⟨after, _, hended⟩
  · cases hwaits
  · exact hreturns
  · exact absurd hended (by decide)

end Runs

namespace ReceiveLoop

variable {size : UInt64} {s : ReceiveLoop size}

/-- The bytes received so far. -/
def bytes (s : ReceiveLoop size) : List UInt8 := s.buffer.1.take s.received

/-- The bytes asked for, once all are there. -/
def block (s : ReceiveLoop size) : Block size.toNat :=
  ⟨s.buffer.1.take size.toNat, List.length_take_of_le s.buffer.2.1⟩

/-- The call as `select` and `recv` appear to the handshake, `again` being whether
a failed one is tried again. -/
inductive Appears (s : ReceiveLoop size) : RecvCall → Bool → Recv → Prop
  | chunk {more : Nat} {again : Bool} (bytes : Chunk) (hbytes : bytes.1 = s.taken more) :
      Appears s (.arrived more) again (.chunk bytes)
  | closed {more : Nat} {again : Bool} (hnone : s.taken more = []) :
      Appears s (.arrived more) again .closed
  | idle {errno : RecvError} : Appears s (.failed errno) (decide (errno ≠ .other)) .idle

/-- What a turn comes to for the handshake, with the test of the next one. -/
def outcome : ReceiveResult size → Receiving size.toNat
  | .waiting next =>
      if next.received < size.toNat then .waiting next.bytes else .returned (some next.block)
  | .returned _ _ => .returned none
  | .exited => .stopped

theorem bytes_length (s : ReceiveLoop size) : s.bytes.length = s.received :=
  List.length_take_of_le (Nat.le_trans s.inside s.buffer.2.1)

theorem advance_bytes (s : ReceiveLoop size) (more : Nat) :
    (s.advance more).bytes = s.bytes ++ s.taken more := by
  have hlength : (s.bytes ++ s.taken more).length = s.received + (s.taken more).length := by
    rw [List.length_append, s.bytes_length]
  exact List.take_left' hlength

theorem outcome_arrived {more : Nat} {again : Bool} {chunk : Chunk}
    (hbytes : chunk.1 = s.taken more) :
    outcome (s.turn (.arrived more)) =
      LeakyChat.receiveBytes size.toNat again s.bytes (.chunk chunk) := by
  have hsome : 0 < (s.taken more).length := hbytes ▸ List.length_pos_iff.mpr chunk.2.1
  have hlength : (s.bytes ++ chunk.1).length = (s.advance more).received := by
    rw [hbytes, ← advance_bytes, bytes_length]
  rw [turn, if_pos hsome, outcome, LeakyChat.receiveBytes]
  by_cases hmore : (s.advance more).received < size.toNat
  · have hless : ¬ size.toNat ≤ (s.bytes ++ chunk.1).length := by
      rw [hlength]
      exact Nat.not_le_of_lt hmore
    rw [if_pos hmore, dif_neg hless, advance_bytes, hbytes]
  · have hall : (s.advance more).received = size.toNat :=
      Nat.le_antisymm (s.advance more).inside (Nat.le_of_not_lt hmore)
    have hblock : (s.advance more).block.1 = (s.bytes ++ chunk.1).take size.toNat := by
      rw [hbytes, ← advance_bytes, bytes, hall, List.take_take, Nat.min_self]
      rfl
    rw [if_neg hmore, dif_pos (Nat.le_of_eq (hlength.trans hall).symm)]
    exact congrArg (fun bytes => Receiving.returned (some bytes)) (Subtype.ext hblock)

/-- A turn of the loop is one of the handshake's on the bytes received. -/
theorem outcome_turn (hmissing : s.received < size.toNat) {call : RecvCall} {again : Bool}
    {recv : Recv} (happears : s.Appears call again recv) :
    outcome (s.turn call) = LeakyChat.receiveBytes size.toNat again s.bytes recv := by
  cases happears with
  | chunk chunk hbytes => exact outcome_arrived hbytes
  | closed hnone =>
      rw [turn, hnone]
      rfl
  | @idle errno =>
      cases errno with
      | other => rfl
      | again => exact if_pos hmissing
      | wouldBlock => exact if_pos hmissing
      | interrupted => exact if_pos hmissing

end ReceiveLoop

end NetworkHandler

end LeakyChat

/-
Reading and writing byte strings.  A reader is a stateful computation whose
state shows the unread input through `view`; `Reads` says which bytes it takes
and what it makes of them, whatever follows.  The rules below follow the shape
of a reader, so a round trip is proved along the writer it inverts.
-/
import LeakyChat.Library.Program
import Mathlib.Data.List.Basic
import Mathlib.Data.Nat.ModEq

namespace Wire

open Program

universe u v w

variable {σ : Type u} {ε : Type v} {α β : Type u} {τ : Type w}

/-- `Reads view m bytes a`: on any input that starts with `bytes`, the reader
`m` returns `a` and leaves exactly what followed them. -/
def Reads (view : σ → List τ) (m : StateT σ (Except ε) α) (bytes : List τ)
    (a : α) : Prop :=
  ∀ s rest, view s = bytes ++ rest → ∃ s', m s = .ok (a, s') ∧ view s' = rest

theorem Reads.pure (view : σ → List τ) (a : α) :
    Reads (ε := ε) view (Pure.pure a) [] a := by
  intro s rest hview
  exact ⟨s, rfl, by simpa using hview⟩

theorem Reads.bind {view : σ → List τ} {m : StateT σ (Except ε) α}
    {next : α → StateT σ (Except ε) β} {first last : List τ} {a : α} {b : β}
    (hm : Reads view m first a) (hnext : Reads view (next a) last b) :
    Reads view (m >>= next) (first ++ last) b := by
  intro s rest hview
  rw [List.append_assoc] at hview
  obtain ⟨s₁, hrun, hview₁⟩ := hm s (last ++ rest) hview
  obtain ⟨s₂, hrun₂, hview₂⟩ := hnext s₁ rest hview₁
  exact ⟨s₂, (run_bind hrun).trans hrun₂, hview₂⟩

theorem Reads.map {view : σ → List τ} {m : StateT σ (Except ε) α}
    {bytes : List τ} {a : α} (f : α → β) (hm : Reads view m bytes a) :
    Reads view (f <$> m) bytes (f a) := by
  intro s rest hview
  obtain ⟨s', hrun, hview'⟩ := hm s rest hview
  refine ⟨s', ?_, hview'⟩
  simp only [Functor.map, StateT.map, hrun]
  rfl

/-- Run one reader a fixed number of times, in order. -/
def readTimes (m : StateT σ (Except ε) α) :
    (n : Nat) → StateT σ (Except ε) { items : List α // items.length = n }
  | 0 => Pure.pure ⟨[], rfl⟩
  | n + 1 => do
      let item ← m
      let items ← readTimes m n
      Pure.pure ⟨item :: items.1, by simp [items.2]⟩

/-- If the reader undoes `encode` on each item, running it once per item
undoes the encodings written one after another. -/
theorem Reads.times {view : σ → List τ} {m : StateT σ (Except ε) α}
    {encode : α → List τ} {items : List α} {n : Nat} (hn : items.length = n)
    (hitem : ∀ item ∈ items, Reads view m (encode item) item) :
    Reads view (readTimes m n) (items.flatMap encode) ⟨items, hn⟩ := by
  subst hn
  induction items with
  | nil => exact Reads.pure view _
  | cons item items ih =>
      have htail := ih fun other hother =>
        hitem other (List.mem_cons_of_mem item hother)
      have hhead := hitem item List.mem_cons_self
      rw [List.flatMap_cons, ← List.append_nil (items.flatMap encode)]
      apply hhead.bind
      apply htail.bind
      exact Reads.pure view _

/-- The little-endian bytes of a number, in a field of the given width. -/
def leBytes : Nat → Nat → List UInt8
  | 0, _ => []
  | width + 1, n => UInt8.ofNat n :: leBytes width (n / 256)

/-- The number a little-endian field holds. -/
def leNat : List UInt8 → Nat
  | [] => 0
  | byte :: bytes => byte.toNat + 256 * leNat bytes

@[simp]
theorem leBytes_length (width n : Nat) : (leBytes width n).length = width := by
  induction width generalizing n with
  | zero => rfl
  | succ width ih => simp [leBytes, ih]

theorem leNat_leBytes (width n : Nat) :
    leNat (leBytes width n) = n % 256 ^ width := by
  induction width generalizing n with
  | zero => simp [leBytes, leNat, Nat.mod_one]
  | succ width ih =>
      have hbyte : (UInt8.ofNat n).toNat = n % 256 := by simp
      rw [leBytes, leNat, ih, hbyte, Nat.pow_succ', Nat.mod_mul]

theorem leNat_leBytes_of_lt {width n : Nat} (hn : n < 256 ^ width) :
    leNat (leBytes width n) = n := by
  rw [leNat_leBytes, Nat.mod_eq_of_lt hn]

theorem leNat_lt (bytes : List UInt8) : leNat bytes < 256 ^ bytes.length := by
  induction bytes with
  | nil => simp [leNat]
  | cons byte bytes ih =>
      have hbyte : byte.toNat < 256 := byte.toNat_lt
      rw [leNat, List.length_cons, Nat.pow_succ]
      omega

theorem leNat_append (low high : List UInt8) :
    leNat (low ++ high) = leNat low + 256 ^ low.length * leNat high := by
  induction low with
  | nil => simp [leNat]
  | cons byte low ih =>
      rw [List.cons_append, leNat, ih, leNat, List.length_cons, Nat.pow_succ', Nat.mul_add,
        Nat.mul_assoc, Nat.add_assoc]

/-- The low bytes of a field hold the number up to their power. -/
theorem leNat_take {bytes : List UInt8} {n : Nat} (hn : n ≤ bytes.length) :
    leNat (bytes.take n) = leNat bytes % 256 ^ n := by
  have hlength : (bytes.take n).length = n := List.length_take_of_le hn
  have hlow := leNat_lt (bytes.take n)
  have happend := leNat_append (bytes.take n) (bytes.drop n)
  rw [List.take_append_drop, hlength] at happend
  rw [hlength] at hlow
  rw [happend, Nat.add_mul_mod_self_left, Nat.mod_eq_of_lt hlow]

/-- Zeros at the high end do not count. -/
theorem leNat_append_zeros (bytes : List UInt8) (n : Nat) :
    leNat (bytes ++ List.replicate n 0) = leNat bytes := by
  have hzeros : leNat (List.replicate n 0) = 0 := by
    induction n with
    | zero => rfl
    | succ n ih =>
        rw [List.replicate_succ, leNat, ih]
        rfl
  rw [leNat_append, hzeros, Nat.mul_zero, Nat.add_zero]

theorem leBytes_leNat (bytes : List UInt8) : leBytes bytes.length (leNat bytes) = bytes := by
  induction bytes with
  | nil => rfl
  | cons byte bytes ih =>
      have hbyte : byte.toNat < 256 := byte.toNat_lt
      have hhead : UInt8.ofNat (byte.toNat + 256 * leNat bytes) = byte := by
        rw [← UInt8.toNat_inj, UInt8.toNat_ofNat']
        omega
      have htail : (byte.toNat + 256 * leNat bytes) / 256 = leNat bytes := by omega
      rw [List.length_cons, leNat, leBytes, hhead, htail, ih]

/-- `n` items of a sequence, from `start` on: what a reader that fills up the end of its
input reads from, of which the input is the beginning. -/
def segment (f : Nat → τ) (start n : Nat) : List τ :=
  (List.range n).map fun i => f (start + i)

@[simp]
theorem segment_length (f : Nat → τ) (start n : Nat) : (segment f start n).length = n := by
  simp [segment]

@[simp]
theorem segment_getElem (f : Nat → τ) {start n i : Nat}
    (hi : i < (segment f start n).length) : (segment f start n)[i] = f (start + i) := by
  simp [segment]

theorem segment_append (f : Nat → τ) (start m n : Nat) :
    segment f start (m + n) = segment f start m ++ segment f (start + m) n := by
  simp [segment, List.range_add, List.map_map, Function.comp_def, Nat.add_assoc]

theorem segment_succ (f : Nat → τ) (start n : Nat) :
    segment f start (n + 1) = f start :: segment f (start + 1) n := by
  rw [Nat.add_comm n 1, segment_append]
  rfl

/-- The sequence goes through the list at `start`. -/
def Passes (f : Nat → τ) (start : Nat) (items : List τ) : Prop :=
  segment f start items.length = items

instance [DecidableEq τ] (f : Nat → τ) (start : Nat) (items : List τ) :
    Decidable (Passes f start items) :=
  inferInstanceAs (Decidable (_ = _))

theorem passes_append {f : Nat → τ} {start : Nat} {first last : List τ} :
    Passes f start (first ++ last) ↔
      Passes f start first ∧ Passes f (start + first.length) last := by
  rw [Passes, List.length_append, segment_append]
  constructor
  · intro happend
    exact List.append_inj happend (segment_length f start first.length)
  · rintro ⟨hfirst, hlast⟩
    rw [hfirst, hlast]

end Wire

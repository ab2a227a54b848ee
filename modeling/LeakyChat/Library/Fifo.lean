/-
A queue that remembers: everything put in since it was last cleared, and how
much of that has been taken out.
-/
import Mathlib.Data.List.Basic

universe u

/-- What was put in, in order, of which the first `taken` items are out. -/
structure Fifo (τ : Type u) where
  written : List τ
  taken : Nat
  taken_le : taken ≤ written.length

namespace Fifo

variable {τ : Type u}

def empty : Fifo τ := ⟨[], 0, Nat.zero_le _⟩

/-- What was put in and not yet taken out. -/
def contents (q : Fifo τ) : List τ := q.written.drop q.taken

def put (q : Fifo τ) (items : List τ) : Fifo τ :=
  ⟨q.written ++ items, q.taken, by
    have htaken := q.taken_le
    simp only [List.length_append]
    omega⟩

/-- Take out the next `n` items, or all if there are fewer. -/
def take (q : Fifo τ) (n : Nat) : Fifo τ :=
  ⟨q.written, min (q.taken + n) q.written.length, Nat.min_le_right _ _⟩

@[simp]
theorem put_contents (q : Fifo τ) (items : List τ) :
    (q.put items).contents = q.contents ++ items :=
  List.drop_append_of_le_length q.taken_le

@[simp]
theorem take_contents (q : Fifo τ) (n : Nat) :
    (q.take n).contents = q.contents.drop n := by
  have hdrop : (q.take n).contents =
      q.written.drop (min (q.taken + n) q.written.length) := rfl
  rw [hdrop, contents, List.drop_drop]
  rcases Nat.le_total (q.taken + n) q.written.length with hle | hle
  · rw [Nat.min_eq_left hle]
  · rw [Nat.min_eq_right hle, List.drop_length, List.drop_of_length_le hle]

end Fifo

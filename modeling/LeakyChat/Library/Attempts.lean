/-
A loop that takes one outcome after another until it returns or dies.  An
outcome can ask for another try, and then nothing has changed; whatever else
does not kill the loop brings it closer to its end.
-/
import Mathlib.Data.Nat.Find

namespace Attempts

variable {S O : Type}

/-- Where a loop is: with so much to do, or at its end. -/
inductive Status where
  | waiting (left : Nat)
  | returned
  | died

structure Loop (S O : Type) where
  step : S → O → S
  status : S → Status
  again : O → Prop
  fatal : S → O → Prop

namespace Loop

variable (loop : Loop S O)

def run (s : S) (outcomes : Nat → O) : Nat → S
  | 0 => s
  | n + 1 => loop.step (run s outcomes n) (outcomes n)

/-- What an outcome does to a loop in a state that is `good`. -/
structure Works (good : S → Prop) : Prop where
  keeps : ∀ s o, good s → good (loop.step s o)
  settled : ∀ s o, (∀ k, loop.status s ≠ .waiting k) → loop.step s o = s
  again : ∀ s o k, loop.status s = .waiting k → loop.again o → loop.step s o = s
  fatal : ∀ s o k, good s → loop.status s = .waiting k → loop.fatal s o →
    loop.status (loop.step s o) = .died
  progress : ∀ s o k, good s → loop.status s = .waiting k → ¬ loop.again o →
    ¬ loop.fatal s o →
    loop.status (loop.step s o) = .returned ∨
      ∃ j < k, loop.status (loop.step s o) = .waiting j

variable {loop} {good : S → Prop} {s : S} {outcomes : Nat → O}

theorem Works.good_run (hworks : loop.Works good) (hs : good s) (n : Nat) :
    good (loop.run s outcomes n) := by
  induction n with
  | zero => exact hs
  | succ n ih => exact hworks.keeps _ _ ih

/-- A loop that has ended stays as it is. -/
theorem Works.run_settled (hworks : loop.Works good) {n m : Nat} (hle : n ≤ m)
    (hended : ∀ k, loop.status (loop.run s outcomes n) ≠ .waiting k) :
    loop.run s outcomes m = loop.run s outcomes n := by
  induction m, hle using Nat.le_induction with
  | base => rfl
  | succ m hle ih =>
      rw [run, ih]
      exact hworks.settled _ _ hended

/-- So does one that is only asked to try again. -/
theorem Works.run_again (hworks : loop.Works good) {n m k : Nat} (hle : n ≤ m)
    (hwaiting : loop.status (loop.run s outcomes n) = .waiting k)
    (hagain : ∀ i, n ≤ i → i < m → loop.again (outcomes i)) :
    loop.run s outcomes m = loop.run s outcomes n := by
  induction m, hle using Nat.le_induction with
  | base => rfl
  | succ m hle ih =>
      have hrun := ih fun i hi him => hagain i hi (Nat.lt_succ_of_lt him)
      rw [run, hrun]
      exact hworks.again _ _ k hwaiting (hagain m hle (Nat.lt_succ_self m))

theorem Works.waiting_of_returns (hworks : loop.Works good) {n m k : Nat}
    (hwaiting : loop.status (loop.run s outcomes n) = .waiting k)
    (hreturned : loop.status (loop.run s outcomes m) = .returned) : n < m := by
  by_contra hlt
  have hended : ∀ k, loop.status (loop.run s outcomes m) ≠ .waiting k := by
    intro k hk
    rw [hreturned] at hk
    cases hk
  rw [hworks.run_settled (Nat.le_of_not_lt hlt) hended, hreturned] at hwaiting
  cases hwaiting

/-- With less and less to do, a loop that is not killed and not asked to try
again for ever returns. -/
theorem Works.returns (hworks : loop.Works good) (hs : good s)
    (hnext : ∀ n k, loop.status (loop.run s outcomes n) = .waiting k →
      ¬ loop.fatal (loop.run s outcomes n) (outcomes n) ∧
        ∃ m, n ≤ m ∧ ¬ loop.again (outcomes m)) :
    ∀ k n, loop.status (loop.run s outcomes n) = .waiting k →
      ∃ m, loop.status (loop.run s outcomes m) = .returned := by
  intro k
  induction k using Nat.strong_induction_on with
  | _ k ih =>
      intro n hwaiting
      classical
      have hexists := (hnext n k hwaiting).2
      obtain ⟨m, hm⟩ : ∃ m, m = Nat.find hexists := ⟨_, rfl⟩
      obtain ⟨hle, hother⟩ : n ≤ m ∧ ¬ loop.again (outcomes m) := hm ▸ Nat.find_spec hexists
      have hrun : loop.run s outcomes m = loop.run s outcomes n := by
        apply hworks.run_again hle hwaiting
        intro i hi him
        by_contra hagain
        exact Nat.find_min hexists (hm ▸ him) ⟨hi, hagain⟩
      have hwaiting : loop.status (loop.run s outcomes m) = .waiting k := by
        rw [hrun, hwaiting]
      rcases hworks.progress _ (outcomes m) k (hworks.good_run hs m) hwaiting
        hother (hnext m k hwaiting).1 with hreturned | ⟨j, hj, hj'⟩
      · exact ⟨m + 1, hreturned⟩
      · exact ih j hj (m + 1) hj'

/-- A loop returns exactly if nothing kills it where it waits, and no wait of it
is asked to try again for ever. -/
theorem Works.returns_iff (hworks : loop.Works good) (hs : good s)
    (hstart : loop.status s ≠ .died) :
    (∃ n, loop.status (loop.run s outcomes n) = .returned) ↔
      ∀ n k, loop.status (loop.run s outcomes n) = .waiting k →
        ¬ loop.fatal (loop.run s outcomes n) (outcomes n) ∧
          ∃ m, n ≤ m ∧ ¬ loop.again (outcomes m) := by
  constructor
  · rintro ⟨m, hreturned⟩ n k hwaiting
    have hlt := hworks.waiting_of_returns hwaiting hreturned
    constructor
    · intro hfatal
      have hdied := hworks.fatal _ _ k (hworks.good_run hs n) hwaiting hfatal
      have hended : ∀ k, loop.status (loop.run s outcomes (n + 1)) ≠ .waiting k := by
        intro k hk
        rw [run, hdied] at hk
        cases hk
      rw [hworks.run_settled hlt hended, run, hdied] at hreturned
      cases hreturned
    · by_contra hforever
      have hagain : ∀ i, n ≤ i → i < m → loop.again (outcomes i) := by
        intro i hi _
        by_contra hother
        exact hforever ⟨i, hi, hother⟩
      rw [hworks.run_again (Nat.le_of_lt hlt) hwaiting hagain, hwaiting] at hreturned
      cases hreturned
  · intro hnext
    cases hstatus : loop.status s with
    | waiting k => exact hworks.returns hs hnext k 0 hstatus
    | returned => exact ⟨0, hstatus⟩
    | died => exact (hstart hstatus).elim

end Loop

end Attempts

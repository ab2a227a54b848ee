/-
A consumer that sleeps between two drains of a queue.  A producer puts an item
in and then raises a counter, by however much it can still rise; the consumer
lowers the counter to wake, and goes to sleep when it finds the queue empty.
-/
import LeakyChat.Library.Transition

namespace Wakeup

open Transition

universe u

variable {τ : Type u}

structure State (τ : Type u) where
  queue : List τ
  permits : Nat
  awake : Bool

inductive Move (τ : Type u) where
  | put (item : τ)
  | signal
  | wake
  | take (item : τ)
  | sleep

/-- A signal on a counter that is up already may be lost, so all that is known
of the counter afterwards is that it is up. -/
inductive Step : State τ → Move τ → State τ → Prop
  | put {queue : List τ} {permits : Nat} {awake : Bool} (item : τ) (permits' : Nat)
      (hpermits : 0 < permits') :
      Step ⟨queue, permits, awake⟩ (.put item) ⟨queue ++ [item], permits', awake⟩
  | signal {queue : List τ} {permits : Nat} {awake : Bool} (permits' : Nat)
      (hpermits : 0 < permits') :
      Step ⟨queue, permits, awake⟩ .signal ⟨queue, permits', awake⟩
  | wake {queue : List τ} (permits : Nat) :
      Step ⟨queue, permits + 1, false⟩ .wake ⟨queue, permits, true⟩
  | take {queue : List τ} {permits : Nat} (item : τ) :
      Step ⟨item :: queue, permits, true⟩ (.take item) ⟨queue, permits, true⟩
  | sleep {permits : Nat} : Step ⟨[], permits, true⟩ .sleep ⟨[], permits, false⟩

/-- A consumer that sleeps on a queue with something in it can wake. -/
def State.Signalled (s : State τ) : Prop :=
  s.awake = false → s.queue ≠ [] → 0 < s.permits

/-- Only `wake` lowers the counter, and it leaves the consumer awake until it
has found the queue empty. -/
theorem Step.signalled {s t : State τ} {move : Move τ} (hstep : Step s move t)
    (hs : s.Signalled) : t.Signalled := by
  cases hstep with
  | put item permits' hpermits => exact fun _ _ => hpermits
  | signal permits' hpermits => exact fun _ _ => hpermits
  | wake permits => exact fun hasleep => absurd hasleep Bool.true_eq_false.mp
  | take item => exact fun hasleep => absurd hasleep Bool.true_eq_false.mp
  | sleep => exact fun _ hqueue => absurd rfl hqueue

end Wakeup

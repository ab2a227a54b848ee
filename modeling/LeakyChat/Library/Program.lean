/-
Programs over a state that may fail.  The `run` lemmas take one apart or put
it together along its binds; the `Keeps` rules carry an invariant through one.
-/
import Mathlib.Logic.Basic

namespace Program

universe u v

variable {σ α β : Type u} {ε : Type v}

theorem run_bind {m : StateT σ (Except ε) α} {next : α → StateT σ (Except ε) β}
    {s s' : σ} {a : α} (hm : m s = .ok (a, s')) : (m >>= next) s = next a s' := by
  change (m s >>= fun p => next p.1 p.2) = _
  rw [hm]
  rfl

theorem run_bind_error {m : StateT σ (Except ε) α} {next : α → StateT σ (Except ε) β}
    {s : σ} {fault : ε} (hm : m s = .error fault) : (m >>= next) s = .error fault := by
  change (m s >>= fun p => next p.1 p.2) = _
  rw [hm]
  rfl

theorem run_map {m : StateT σ (Except ε) α} {s s' : σ} {a : α} (f : α → β)
    (hm : m s = .ok (a, s')) : (f <$> m) s = .ok (f a, s') := by
  simp only [Functor.map, StateT.map, hm]
  rfl

/-- A bind that returns has run both parts. -/
theorem of_run_bind {m : StateT σ (Except ε) α} {next : α → StateT σ (Except ε) β}
    {s t : σ} {b : β} (hrun : (m >>= next) s = .ok (b, t)) :
    ∃ a s', m s = .ok (a, s') ∧ next a s' = .ok (b, t) := by
  cases hm : m s with
  | error fault =>
      rw [run_bind_error hm] at hrun
      cases hrun
  | ok result =>
      obtain ⟨a, s'⟩ := result
      exact ⟨a, s', rfl, (run_bind hm).symm.trans hrun⟩

/-- A bind fails where its first part does, or its second. -/
theorem run_bind_error_iff {m : StateT σ (Except ε) α} {next : α → StateT σ (Except ε) β}
    {s : σ} {fault : ε} : (m >>= next) s = .error fault ↔
      m s = .error fault ∨ ∃ a s', m s = .ok (a, s') ∧ next a s' = .error fault := by
  cases hm : m s with
  | error other => simp [run_bind_error hm]
  | ok result =>
      obtain ⟨a, s'⟩ := result
      rw [run_bind hm]
      constructor
      · exact fun hnext => Or.inr ⟨a, s', rfl, hnext⟩
      · rintro (⟨⟨⟩⟩ | ⟨_, _, ⟨⟩, hnext⟩)
        exact hnext

/-- A program that never fails in this way. -/
def Avoids (fault : ε) (m : StateT σ (Except ε) α) : Prop := ∀ s, m s ≠ .error fault

namespace Avoids

variable {fault : ε}

theorem pure (a : α) : Avoids fault (Pure.pure a : StateT σ (Except ε) α) := fun _ => nofun

theorem bind {m : StateT σ (Except ε) α} {next : α → StateT σ (Except ε) β}
    (hm : Avoids fault m) (hnext : ∀ a, Avoids fault (next a)) : Avoids fault (m >>= next) := by
  intro s hrun
  rcases run_bind_error_iff.mp hrun with hfirst | ⟨a, s', _, hsecond⟩
  · exact hm s hfirst
  · exact hnext a s' hsecond

theorem ite {c : Prop} [Decidable c] {m m' : StateT σ (Except ε) α} (hm : Avoids fault m)
    (hm' : Avoids fault m') : Avoids fault (if c then m else m') := by
  by_cases hc : c
  · rwa [if_pos hc]
  · rwa [if_neg hc]

end Avoids

/-- What a program leaves true, where it returns, if it was. -/
def Keeps (inv : σ → Prop) (m : StateT σ (Except ε) α) : Prop :=
  ∀ s a t, inv s → m s = .ok (a, t) → inv t

namespace Keeps

variable {inv : σ → Prop}

theorem pure (a : α) : Keeps (ε := ε) inv (Pure.pure a) := by
  intro s b t hs hrun
  change Except.ok (a, s) = .ok (b, t) at hrun
  rw [Except.ok.injEq, Prod.mk.injEq] at hrun
  rw [← hrun.2]
  exact hs

theorem throw (fault : ε) : Keeps inv (MonadExcept.throw fault : StateT σ (Except ε) α) := by
  intro s a t _ hrun
  cases hrun

theorem get : Keeps (ε := ε) inv MonadState.get := by
  intro s a t hs hrun
  change Except.ok (s, s) = .ok (a, t) at hrun
  rw [Except.ok.injEq, Prod.mk.injEq] at hrun
  rw [← hrun.2]
  exact hs

theorem modify {f : σ → σ} (hf : ∀ s, inv s → inv (f s)) :
    Keeps inv (modifyGet fun s => (PUnit.unit, f s) : StateT σ (Except ε) PUnit) := by
  intro s a t hs hrun
  change Except.ok (PUnit.unit, f s) = .ok (a, t) at hrun
  rw [Except.ok.injEq, Prod.mk.injEq] at hrun
  rw [← hrun.2]
  exact hf s hs

theorem bind {m : StateT σ (Except ε) α} {next : α → StateT σ (Except ε) β}
    (hm : Keeps inv m) (hnext : ∀ a, Keeps inv (next a)) : Keeps inv (m >>= next) := by
  intro s b t hs hrun
  obtain ⟨a, s', hfirst, hsecond⟩ := of_run_bind hrun
  exact hnext a s' b t (hm s a s' hs hfirst) hsecond

theorem ite {c : Prop} [Decidable c] {m m' : StateT σ (Except ε) α}
    (hm : c → Keeps inv m) (hm' : ¬ c → Keeps inv m') : Keeps inv (if c then m else m') := by
  by_cases hc : c
  · rw [if_pos hc]
    exact hm hc
  · rw [if_neg hc]
    exact hm' hc

end Keeps

end Program

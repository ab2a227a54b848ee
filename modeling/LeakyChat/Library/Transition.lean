/-
Labelled transition systems.  A run is a list of labels together with the
states it passes through; invariants are proved once per step and lifted to
runs here.
-/
import Mathlib.Data.List.Basic

namespace Transition

universe u v w x

variable {S : Type u} {L : Type v}

/-- A labelled transition system: where runs may start, and which labelled
steps they may take. -/
structure System (S : Type u) (L : Type v) where
  init : S → Prop
  step : S → L → S → Prop

/-- `Run sys s labels t`: taking the labels in order leads from `s` to `t`. -/
inductive Run (sys : System S L) : S → List L → S → Prop
  | nil (s : S) : Run sys s [] s
  | cons {s t u : S} {label : L} {labels : List L}
      (head : sys.step s label t) (tail : Run sys t labels u) :
      Run sys s (label :: labels) u

/-- A state some run from an initial state ends in. -/
def Reachable (sys : System S L) (t : S) : Prop :=
  ∃ s labels, sys.init s ∧ Run sys s labels t

theorem Run.append {sys : System S L} {s t u : S} {first last : List L}
    (hfirst : Run sys s first t) (hlast : Run sys t last u) :
    Run sys s (first ++ last) u := by
  induction hfirst with
  | nil => exact hlast
  | cons head tail ih => exact Run.cons head (ih hlast)

theorem Run.snoc {sys : System S L} {s t u : S} {labels : List L} {label : L}
    (hrun : Run sys s labels t) (hstep : sys.step t label u) :
    Run sys s (labels ++ [label]) u :=
  hrun.append (Run.cons hstep (Run.nil u))

theorem Reachable.of_init {sys : System S L} {s : S} (hinit : sys.init s) :
    Reachable sys s :=
  ⟨s, [], hinit, Run.nil s⟩

theorem Reachable.step {sys : System S L} {s t : S} {label : L}
    (hreach : Reachable sys s) (hstep : sys.step s label t) :
    Reachable sys t := by
  obtain ⟨start, labels, hinit, hrun⟩ := hreach
  exact ⟨start, labels ++ [label], hinit, hrun.snoc hstep⟩

/-- What every step from a state satisfying it preserves, a run preserves. -/
theorem Run.preserves {sys : System S L} {P : S → Prop} {s t : S}
    {labels : List L} (hrun : Run sys s labels t)
    (hstep : ∀ s label t, P s → sys.step s label t → P t) (hs : P s) :
    P t := by
  induction hrun with
  | nil => exact hs
  | cons head tail ih => exact ih (hstep _ _ _ hs head)

/-- What every step preserves of the labels so far and the state, a run preserves. -/
theorem Run.records {sys : System S L} {P : List L → S → Prop} {s t : S} {labels : List L}
    (hrun : Run sys s labels t)
    (hstep : ∀ before s label t, P before s → sys.step s label t → P (before ++ [label]) t)
    {before : List L} (hs : P before s) : P (before ++ labels) t := by
  induction hrun generalizing before with
  | nil => rwa [List.append_nil]
  | @cons s t u label labels head tail ih =>
      rw [List.append_cons]
      exact ih (hstep before s label t hs head)

/-- If what each step takes out of a queue, followed by what it leaves, is what
it found followed by what it puts in, the same holds of a run. -/
theorem Run.flow {τ : Type w} {sys : System S L} {queue : S → List τ} {ins outs : L → List τ}
    {s t : S} {labels : List L} (hrun : Run sys s labels t)
    (hstep : ∀ s label t, sys.step s label t → outs label ++ queue t = queue s ++ ins label) :
    labels.flatMap outs ++ queue t = queue s ++ labels.flatMap ins := by
  induction hrun with
  | nil s => simp
  | @cons s t u label labels head tail ih =>
      calc (label :: labels).flatMap outs ++ queue u
          = outs label ++ (labels.flatMap outs ++ queue u) := by
            rw [List.flatMap_cons, List.append_assoc]
        _ = outs label ++ queue t ++ labels.flatMap ins := by rw [ih, List.append_assoc]
        _ = queue s ++ (label :: labels).flatMap ins := by
            rw [hstep s label t head, List.flatMap_cons, List.append_assoc]

/-- A run is followed, label by label, by a system that follows each step. -/
theorem Run.follow {S' : Type w} {sys : System S L} {abs : System S' L}
    {R : S → S' → Prop} {s t : S} {labels : List L} (hrun : Run sys s labels t)
    (hstep : ∀ s label t s', R s s' → sys.step s label t →
      ∃ t', abs.step s' label t' ∧ R t t')
    {s' : S'} (hs : R s s') : ∃ t', Run abs s' labels t' ∧ R t t' := by
  induction hrun generalizing s' with
  | nil => exact ⟨s', Run.nil s', hs⟩
  | cons head tail ih =>
      obtain ⟨t', hhead, ht⟩ := hstep _ _ _ _ hs head
      obtain ⟨u', htail, hu⟩ := ih ht
      exact ⟨u', Run.cons hhead htail, hu⟩

/-- The invariant rule: true at the start and kept by every step. -/
theorem Reachable.invariant {sys : System S L} {P : S → Prop} {t : S}
    (hreach : Reachable sys t) (hinit : ∀ s, sys.init s → P s)
    (hstep : ∀ s label t, P s → sys.step s label t → P t) : P t := by
  obtain ⟨start, labels, hs, hrun⟩ := hreach
  exact hrun.preserves hstep (hinit start hs)

/-- The simulation rule: if every concrete step is matched under `R` by an
abstract one, or by none, each reachable concrete state stands for a reachable
abstract one. -/
theorem Reachable.simulation {S' : Type w} {L' : Type x} {sys : System S L}
    {abs : System S' L'} {R : S → S' → Prop} {t : S}
    (hreach : Reachable sys t)
    (hinit : ∀ s, sys.init s → ∃ s', abs.init s' ∧ R s s')
    (hstep : ∀ s label t s', R s s' → sys.step s label t →
      R t s' ∨ ∃ label' t', abs.step s' label' t' ∧ R t t') :
    ∃ t', Reachable abs t' ∧ R t t' := by
  apply hreach.invariant (P := fun s => ∃ s', Reachable abs s' ∧ R s s')
  · intro s hs
    obtain ⟨s', hs', hR⟩ := hinit s hs
    exact ⟨s', Reachable.of_init hs', hR⟩
  · rintro s label t ⟨s', hs', hR⟩ hst
    rcases hstep s label t s' hR hst with hstutter | ⟨label', t', hst', hR'⟩
    · exact ⟨s', hs', hstutter⟩
    · exact ⟨t', hs'.step hst', hR'⟩

/-- The system whose steps all meet a condition. -/
def System.restrict (sys : System S L) (meets : S → L → Prop) : System S L where
  init := sys.init
  step s label t := sys.step s label t ∧ meets s label

theorem Run.of_restrict {sys : System S L} {meets : S → L → Prop} {s t : S} {labels : List L}
    (hrun : Run (sys.restrict meets) s labels t) : Run sys s labels t := by
  induction hrun with
  | nil s => exact Run.nil s
  | cons head tail ih => exact Run.cons head.1 ih

theorem Reachable.of_restrict {sys : System S L} {meets : S → L → Prop} {s : S}
    (hreach : Reachable (sys.restrict meets) s) : Reachable sys s := by
  obtain ⟨start, labels, hinit, hrun⟩ := hreach
  exact ⟨start, labels, hinit, hrun.of_restrict⟩

theorem Reachable.run {sys : System S L} {s t : S} {labels : List L} (hreach : Reachable sys s)
    (hrun : Run sys s labels t) : Reachable sys t := by
  obtain ⟨start, first, hinit, hfirst⟩ := hreach
  exact ⟨start, first ++ labels, hinit, hfirst.append hrun⟩

/-- Where every step leaves a lower rank, a run is no longer than the rank it
starts from. -/
theorem Run.length_le {sys : System S L} {rank : Nat → S → Prop} {s t : S} {labels : List L}
    (hrun : Run sys s labels t)
    (hstep : ∀ n s label t, rank n s → sys.step s label t → ∃ m < n, rank m t)
    {n : Nat} (hs : rank n s) : ∃ m, m + labels.length ≤ n ∧ rank m t := by
  induction hrun generalizing n with
  | nil => exact ⟨n, Nat.le_refl n, hs⟩
  | cons head tail ih =>
      obtain ⟨k, hk, hrank⟩ := hstep _ _ _ _ hs head
      obtain ⟨m, hm, hlast⟩ := ih hrank
      refine ⟨m, ?_, hlast⟩
      rw [List.length_cons]
      omega

/-- If a system in a good state goes on for as long as something is `opened`, to
a good state of lower measure, some run closes everything. -/
theorem exists_run_closing {sys : System S L} {good opened : S → Prop} (measure : S → Nat)
    (hstep : ∀ s, good s → opened s →
      ∃ label t, sys.step s label t ∧ good t ∧ measure t < measure s)
    {s : S} (hs : good s) : ∃ labels t, Run sys s labels t ∧ good t ∧ ¬ opened t := by
  induction hn : measure s using Nat.strongRecOn generalizing s with
  | _ n ih =>
      by_cases hopened : opened s
      · obtain ⟨label, t, hfirst, ht, hlt⟩ := hstep s hs hopened
        obtain ⟨labels, u, hrest, hu, hclosed⟩ := ih (measure t) (hn ▸ hlt) ht rfl
        exact ⟨label :: labels, u, Run.cons hfirst hrest, hu, hclosed⟩
      · exact ⟨[], s, Run.nil s, hs, hopened⟩

end Transition

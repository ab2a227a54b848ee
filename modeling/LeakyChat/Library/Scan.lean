/-
Reading an input that may end too soon.  A scanner tells, of the input alone,
how far the fields at its front reach: all of them are there, the input ends
inside one, or a length is more than can be read.  `Scans` sets a reader
beside a scanner, and its rules follow the shape of the reader.
-/
import LeakyChat.Library.Wire

namespace Wire

open Program

universe u v w

variable {σ : Type u} {ε : Type v} {α β : Type u} {τ : Type w}

inductive Extent where
  | whole (n : Nat)
  | short
  | refused
deriving DecidableEq, Repr

abbrev Scanner (τ : Type w) := List τ → Extent

namespace Scanner

def nothing : Scanner τ := fun _ => .whole 0

def fixed (n : Nat) : Scanner τ := fun input =>
  if n ≤ input.length then .whole n else .short

/-- What comes behind `n` items that are there. -/
def behind (n : Nat) (scan : Scanner τ) : Scanner τ := fun input =>
  match scan (input.drop n) with
  | .whole k => .whole (n + k)
  | extent => extent

def andThen (first second : Scanner τ) : Scanner τ := fun input =>
  match first input with
  | .whole n => second.behind n input
  | extent => extent

def times (scan : Scanner τ) : Nat → Scanner τ
  | 0 => nothing
  | n + 1 => scan.andThen (times scan n)

/-- A field of the given width that says what comes behind it. -/
def depends {γ : Type u} (width : Nat) (value : List τ → γ) (next : γ → Scanner τ) :
    Scanner τ := fun input =>
  if width ≤ input.length then (next (value (input.take width))).behind width input
  else .short

theorem behind_whole_iff {n k : Nat} {scan : Scanner τ} {input : List τ} :
    scan.behind n input = .whole k ↔ ∃ j, scan (input.drop n) = .whole j ∧ k = n + j := by
  unfold behind
  cases scan (input.drop n) <;> simp [eq_comm]

theorem behind_short_iff {n : Nat} {scan : Scanner τ} {input : List τ} :
    scan.behind n input = .short ↔ scan (input.drop n) = .short := by
  unfold behind
  cases scan (input.drop n) <;> simp

theorem behind_refused_iff {n : Nat} {scan : Scanner τ} {input : List τ} :
    scan.behind n input = .refused ↔ scan (input.drop n) = .refused := by
  unfold behind
  cases scan (input.drop n) <;> simp

theorem fixed_nil (n : Nat) : (fixed n : Scanner τ) [] ≠ .refused := by
  unfold fixed
  split <;> simp

theorem andThen_nil {first second : Scanner τ} (hfirst : first [] ≠ .refused)
    (hsecond : second [] ≠ .refused) : first.andThen second [] ≠ .refused := by
  unfold andThen
  cases hscan : first [] with
  | whole n =>
      simp only [ne_eq, behind_refused_iff, List.drop_nil]
      exact hsecond
  | short => simp
  | refused => exact absurd hscan hfirst

theorem times_nil {scan : Scanner τ} (hnil : scan [] ≠ .refused) (n : Nat) :
    scan.times n [] ≠ .refused := by
  induction n with
  | zero => simp [times, nothing]
  | succ n ih => exact andThen_nil hnil ih

end Scanner

/-- The reader `m` reads what `scan` finds there, and fails with `refusal` alone
and where `scan` refuses.  On an input that is too short it may fail as well,
but not from a state that is `bare`, of which it leaves another. -/
structure Scans (view : σ → List τ) (bare : σ → Prop) (refusal : ε)
    (m : StateT σ (Except ε) α) (scan : Scanner τ) : Prop where
  whole : ∀ s n, scan (view s) = .whole n →
    ∃ a t, m s = .ok (a, t) ∧ view t = (view s).drop n
  short : ∀ s, scan (view s) = .short → bare s → ∃ a t, m s = .ok (a, t) ∧ view t = []
  refused : ∀ s, scan (view s) = .refused → m s = .error refusal
  keeps : Keeps bare m
  fault : ∀ s fault, m s = .error fault → fault = refusal

namespace Scans

variable {view : σ → List τ} {bare : σ → Prop} {refusal : ε}
  {m : StateT σ (Except ε) α} {scan : Scanner τ}

/-- A reader that never fails and takes a fixed number of items. -/
theorem of_drop {n : Nat} (hkeeps : Keeps bare m)
    (hdrop : ∀ s, ∃ a t, m s = .ok (a, t) ∧ view t = (view s).drop n) :
    Scans view bare refusal m (Scanner.fixed n) := by
  constructor
  · intro s k hscan
    unfold Scanner.fixed at hscan
    by_cases hn : n ≤ (view s).length
    · rw [if_pos hn] at hscan
      cases hscan
      exact hdrop s
    · rw [if_neg hn] at hscan
      cases hscan
  · intro s hscan _
    obtain ⟨a, t, hrun, hview⟩ := hdrop s
    refine ⟨a, t, hrun, hview.trans ?_⟩
    unfold Scanner.fixed at hscan
    by_cases hn : n ≤ (view s).length
    · rw [if_pos hn] at hscan
      cases hscan
    · exact List.drop_of_length_le (Nat.le_of_not_le hn)
  · intro s hscan
    unfold Scanner.fixed at hscan
    split at hscan <;> cases hscan
  · exact hkeeps
  · intro s fault hrun
    obtain ⟨a, t, hok, _⟩ := hdrop s
    rw [hok] at hrun
    cases hrun

theorem pure (a : α) : Scans view bare refusal (Pure.pure a) (Scanner.nothing) := by
  constructor
  · intro s n hscan
    cases hscan
    exact ⟨a, s, rfl, rfl⟩
  · intro s hscan
    cases hscan
  · intro s hscan
    cases hscan
  · exact Keeps.pure a
  · intro s fault hrun
    cases hrun

theorem of_error (hfails : ∀ s, m s = .error refusal) :
    Scans view bare refusal m fun _ => .refused := by
  constructor
  · intro s n hscan
    cases hscan
  · intro s hscan
    cases hscan
  · exact fun s _ => hfails s
  · intro s a t _ hrun
    rw [hfails s] at hrun
    cases hrun
  · intro s fault hrun
    rw [hfails s] at hrun
    cases hrun
    rfl

/-- On an input without items, what does not refuse it leaves it so. -/
theorem run_nil (hm : Scans view bare refusal m scan) (hnil : scan [] ≠ .refused) {s : σ}
    (hbare : bare s) (hview : view s = []) : ∃ a t, m s = .ok (a, t) ∧ view t = [] := by
  cases hscan : scan [] with
  | whole n =>
      obtain ⟨a, t, hrun, hrest⟩ := hm.whole s n (hview ▸ hscan)
      exact ⟨a, t, hrun, by rw [hrest, hview, List.drop_nil]⟩
  | short => exact hm.short s (hview ▸ hscan) hbare
  | refused => exact absurd hscan hnil

section

variable {next : α → StateT σ (Except ε) β} {second : Scanner τ} {s t : σ} {a : α} {k : Nat}

/-- A reader whose faults are all the refusal, in front of another. -/
theorem fault_bind (hm : ∀ s fault, m s = .error fault → fault = refusal)
    (hnext : ∀ a s fault, next a s = .error fault → fault = refusal) (s : σ) (fault : ε)
    (hrun : (m >>= next) s = .error fault) : fault = refusal := by
  cases hfirst : m s with
  | error fault' =>
      rw [run_bind_error hfirst] at hrun
      cases hrun
      exact hm s _ hfirst
  | ok result =>
      obtain ⟨a, t⟩ := result
      rw [run_bind hfirst] at hrun
      exact hnext a t fault hrun

/-- A reader behind one that has taken `k` items. -/
theorem whole_behind (hnext : Scans view bare refusal (next a) second)
    (hrun : m s = .ok (a, t)) (hview : view t = (view s).drop k) {n : Nat}
    (hscan : second.behind k (view s) = .whole n) :
    ∃ b u, (m >>= next) s = .ok (b, u) ∧ view u = (view s).drop n := by
  obtain ⟨j, hsecond, rfl⟩ := Scanner.behind_whole_iff.mp hscan
  obtain ⟨b, u, hrun', hview'⟩ := hnext.whole t j (by rw [hview]; exact hsecond)
  exact ⟨b, u, (run_bind hrun).trans hrun', by rw [hview', hview, List.drop_drop]⟩

theorem short_behind (hnext : Scans view bare refusal (next a) second)
    (hrun : m s = .ok (a, t)) (hview : view t = (view s).drop k) (hbare : bare t)
    (hscan : second.behind k (view s) = .short) :
    ∃ b u, (m >>= next) s = .ok (b, u) ∧ view u = [] := by
  rw [Scanner.behind_short_iff] at hscan
  obtain ⟨b, u, hrun', hview'⟩ := hnext.short t (by rw [hview]; exact hscan) hbare
  exact ⟨b, u, (run_bind hrun).trans hrun', hview'⟩

theorem refused_behind (hnext : Scans view bare refusal (next a) second)
    (hrun : m s = .ok (a, t)) (hview : view t = (view s).drop k)
    (hscan : second.behind k (view s) = .refused) :
    (m >>= next) s = .error refusal := by
  rw [Scanner.behind_refused_iff] at hscan
  rw [run_bind hrun]
  exact hnext.refused t (by rw [hview]; exact hscan)

/-- Behind one that has come to the end of the items. -/
theorem nil_behind (hnext : Scans view bare refusal (next a) second) (hrun : m s = .ok (a, t))
    (hview : view t = []) (hnil : second [] ≠ .refused) (hbare : bare t) :
    ∃ b u, (m >>= next) s = .ok (b, u) ∧ view u = [] := by
  obtain ⟨b, u, hrun', hview'⟩ := hnext.run_nil hnil hbare hview
  exact ⟨b, u, (run_bind hrun).trans hrun', hview'⟩

end

theorem returning (f : α → β) (hm : Scans view bare refusal m scan) :
    Scans view bare refusal (m >>= fun a => Pure.pure (f a)) scan := by
  constructor
  · intro s n hscan
    obtain ⟨a, t, hrun, hview⟩ := hm.whole s n hscan
    exact ⟨f a, t, run_bind hrun, hview⟩
  · intro s hscan hbare
    obtain ⟨a, t, hrun, hview⟩ := hm.short s hscan hbare
    exact ⟨f a, t, run_bind hrun, hview⟩
  · exact fun s hscan => run_bind_error (hm.refused s hscan)
  · exact hm.keeps.bind fun a => Keeps.pure (f a)
  · apply fault_bind hm.fault
    intro a s fault hrun
    cases hrun

theorem map (f : α → β) (hm : Scans view bare refusal m scan) :
    Scans view bare refusal (f <$> m) scan := by
  rw [map_eq_pure_bind]
  exact hm.returning f

/-- One reader behind another; the second must not refuse to read from nothing. -/
theorem bind {next : α → StateT σ (Except ε) β} {second : Scanner τ}
    (hm : Scans view bare refusal m scan)
    (hnext : ∀ a, Scans view bare refusal (next a) second) (hnil : second [] ≠ .refused) :
    Scans view bare refusal (m >>= next) (scan.andThen second) := by
  constructor
  · intro s n hscan
    unfold Scanner.andThen at hscan
    cases hfirst : scan (view s) with
    | whole k =>
        rw [hfirst] at hscan
        obtain ⟨a, t, hrun, hview⟩ := hm.whole s k hfirst
        exact (hnext a).whole_behind hrun hview hscan
    | short => simp [hfirst] at hscan
    | refused => simp [hfirst] at hscan
  · intro s hscan hbare
    unfold Scanner.andThen at hscan
    cases hfirst : scan (view s) with
    | whole k =>
        rw [hfirst] at hscan
        obtain ⟨a, t, hrun, hview⟩ := hm.whole s k hfirst
        exact (hnext a).short_behind hrun hview (hm.keeps s a t hbare hrun) hscan
    | short =>
        obtain ⟨a, t, hrun, hview⟩ := hm.short s hfirst hbare
        exact (hnext a).nil_behind hrun hview hnil (hm.keeps s a t hbare hrun)
    | refused => simp [hfirst] at hscan
  · intro s hscan
    unfold Scanner.andThen at hscan
    cases hfirst : scan (view s) with
    | whole k =>
        rw [hfirst] at hscan
        obtain ⟨a, t, hrun, hview⟩ := hm.whole s k hfirst
        exact (hnext a).refused_behind hrun hview hscan
    | short => simp [hfirst] at hscan
    | refused => exact run_bind_error (hm.refused s hfirst)
  · exact hm.keeps.bind fun a => (hnext a).keeps
  · exact fault_bind hm.fault fun a => (hnext a).fault

/-- A field that says what comes behind it.  Where the input ends inside it, what
a bare state makes of it must not make the next reader refuse. -/
theorem depends {width : Nat} {value : List τ → α} {next : α → StateT σ (Except ε) β}
    {scanNext : α → Scanner τ}
    (hfield : ∀ s, width ≤ (view s).length →
      ∃ t, m s = .ok (value ((view s).take width), t) ∧ view t = (view s).drop width)
    (hshort : ∀ s, (view s).length < width → bare s →
      ∃ a t, m s = .ok (a, t) ∧ view t = [] ∧ scanNext a [] ≠ .refused)
    (hkeeps : Keeps bare m) (hfault : ∀ s fault, m s ≠ .error fault)
    (hnext : ∀ a, Scans view bare refusal (next a) (scanNext a)) :
    Scans view bare refusal (m >>= next) (Scanner.depends width value scanNext) := by
  constructor
  · intro s n hscan
    unfold Scanner.depends at hscan
    by_cases hwidth : width ≤ (view s).length
    · rw [if_pos hwidth] at hscan
      obtain ⟨t, hrun, hview⟩ := hfield s hwidth
      exact (hnext _).whole_behind hrun hview hscan
    · rw [if_neg hwidth] at hscan
      cases hscan
  · intro s hscan hbare
    unfold Scanner.depends at hscan
    by_cases hwidth : width ≤ (view s).length
    · rw [if_pos hwidth] at hscan
      obtain ⟨t, hrun, hview⟩ := hfield s hwidth
      exact (hnext _).short_behind hrun hview (hkeeps s _ t hbare hrun) hscan
    · obtain ⟨a, t, hrun, hview, hnil⟩ := hshort s (Nat.lt_of_not_le hwidth) hbare
      exact (hnext a).nil_behind hrun hview hnil (hkeeps s a t hbare hrun)
  · intro s hscan
    unfold Scanner.depends at hscan
    by_cases hwidth : width ≤ (view s).length
    · rw [if_pos hwidth] at hscan
      obtain ⟨t, hrun, hview⟩ := hfield s hwidth
      exact (hnext _).refused_behind hrun hview hscan
    · rw [if_neg hwidth] at hscan
      cases hscan
  · exact hkeeps.bind fun a => (hnext a).keeps
  · apply fault_bind (fun s fault hfirst => absurd hfirst (hfault s fault))
    exact fun a => (hnext a).fault

theorem times (hm : Scans view bare refusal m scan) (hnil : scan [] ≠ .refused) (n : Nat) :
    Scans view bare refusal (readTimes m n) (scan.times n) := by
  induction n with
  | zero => exact Scans.pure _
  | succ n ih => exact hm.bind (fun item => ih.returning _) (Scanner.times_nil hnil n)

end Scans

end Wire

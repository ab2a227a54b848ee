/-
Scanning slots in rotation.  A scan starts where the last one stopped, asks one
slot after another, and stops at the first that says yes or cannot be asked.
-/
import Mathlib.Data.List.Forall2
import Mathlib.Data.Nat.Basic
import Mathlib.Data.Nat.ModEq

namespace RoundRobin

universe u

variable {ε : Type u}

/-- The scan of at most so many of `n` slots, and the slot it stops at. -/
def scan (probe : Nat → Except ε Bool) (n : Nat) : Nat → Nat → Except ε (Option Nat) × Nat
  | 0, idx => (.ok none, idx)
  | count + 1, idx =>
      match probe idx with
      | .error fault => (.error fault, idx)
      | .ok true => (.ok (some idx), idx)
      | .ok false => scan probe n count ((idx + 1) % n)

variable {probe : Nat → Except ε Bool} {n : Nat}

theorem rotate_succ (idx k : Nat) : ((idx + 1) % n + k) % n = (idx + (k + 1)) % n := by
  rw [Nat.mod_add_mod, Nat.add_assoc, Nat.add_comm 1 k]

/-- The first step of the scan, for a predicate on all it asks. -/
theorem forall_rotate {count idx : Nat} (hidx : idx < n) {P : Nat → Prop} :
    (∀ k < count + 1, P ((idx + k) % n)) ↔
      P idx ∧ ∀ k < count, P (((idx + 1) % n + k) % n) := by
  constructor
  · intro hall
    constructor
    · have hfirst := hall 0 (Nat.zero_lt_succ count)
      rwa [Nat.add_zero, Nat.mod_eq_of_lt hidx] at hfirst
    · intro k hk
      rw [rotate_succ]
      exact hall (k + 1) (Nat.succ_lt_succ hk)
  · rintro ⟨hfirst, hrest⟩ k hk
    cases k with
    | zero =>
        rw [Nat.add_zero, Nat.mod_eq_of_lt hidx]
        exact hfirst
    | succ k =>
        rw [← rotate_succ]
        exact hrest k (Nat.lt_of_succ_lt_succ hk)

/-- The scan finds nothing exactly if every slot it asks says no. -/
theorem scan_none_iff {count idx : Nat} (hidx : idx < n) :
    (scan probe n count idx).1 = .ok none ↔
      ∀ k < count, probe ((idx + k) % n) = .ok false := by
  induction count generalizing idx with
  | zero => simp [scan]
  | succ count ih =>
      have hnext : (idx + 1) % n < n := Nat.mod_lt _ (Nat.zero_lt_of_lt hidx)
      rw [forall_rotate hidx (P := fun i => probe i = .ok false), ← ih hnext, scan]
      cases hprobe : probe idx with
      | error fault => simp
      | ok yes => cases yes <;> simp

/-- The first step of the scan, for the slot it stops at. -/
theorem exists_first_rotate {count idx j : Nat} (hidx : idx < n) :
    (∃ k < count + 1, (idx + k) % n = j ∧ probe j = .ok true ∧
        ∀ i < k, probe ((idx + i) % n) = .ok false) ↔
      idx = j ∧ probe j = .ok true ∨ probe idx = .ok false ∧
        ∃ k < count, ((idx + 1) % n + k) % n = j ∧ probe j = .ok true ∧
          ∀ i < k, probe (((idx + 1) % n + i) % n) = .ok false := by
  constructor
  · rintro ⟨k, hk, hj, hyes, hno⟩
    cases k with
    | zero =>
        rw [Nat.add_zero, Nat.mod_eq_of_lt hidx] at hj
        exact Or.inl ⟨hj, hyes⟩
    | succ k =>
        rw [forall_rotate hidx (P := fun i => probe i = .ok false)] at hno
        rw [← rotate_succ] at hj
        exact Or.inr ⟨hno.1, k, Nat.lt_of_succ_lt_succ hk, hj, hyes, hno.2⟩
  · rintro (⟨rfl, hyes⟩ | ⟨hfirst, k, hk, hj, hyes, hno⟩)
    · refine ⟨0, Nat.zero_lt_succ count, Nat.mod_eq_of_lt hidx, hyes, ?_⟩
      intro i hi
      cases hi
    · refine ⟨k + 1, Nat.succ_lt_succ hk, by rw [← rotate_succ]; exact hj, hyes, ?_⟩
      rw [forall_rotate hidx (P := fun i => probe i = .ok false)]
      exact ⟨hfirst, hno⟩

/-- The scan returns the first slot that says yes, all before it saying no. -/
theorem scan_some_iff {count idx j : Nat} (hidx : idx < n) :
    (scan probe n count idx).1 = .ok (some j) ↔
      ∃ k < count, (idx + k) % n = j ∧ probe j = .ok true ∧
        ∀ i < k, probe ((idx + i) % n) = .ok false := by
  induction count generalizing idx with
  | zero => simp [scan]
  | succ count ih =>
      have hnext : (idx + 1) % n < n := Nat.mod_lt _ (Nat.zero_lt_of_lt hidx)
      rw [exists_first_rotate hidx, ← ih hnext, scan]
      cases hprobe : probe idx with
      | error fault =>
          simp only [reduceCtorEq, false_and, or_false, false_iff, not_and]
          rintro rfl
          simp [hprobe]
      | ok yes =>
          cases yes with
          | true =>
              simp only [Except.ok.injEq, Option.some.injEq, Bool.true_eq_false, false_and,
                or_false]
              constructor
              · rintro rfl
                exact ⟨rfl, hprobe⟩
              · exact fun hboth => hboth.1
          | false =>
              simp only [true_and]
              constructor
              · exact Or.inr
              · rintro (⟨rfl, hyes⟩ | hscan)
                · rw [hprobe] at hyes
                  cases hyes
                · exact hscan

/-- A full round asks every slot. -/
theorem exists_rotate {idx j : Nat} (hidx : idx < n) (hj : j < n) :
    ∃ k < n, (idx + k) % n = j := by
  by_cases hle : idx ≤ j
  · refine ⟨j - idx, by omega, ?_⟩
    rw [Nat.add_sub_cancel' hle, Nat.mod_eq_of_lt hj]
  · refine ⟨j + n - idx, by omega, ?_⟩
    rw [Nat.add_sub_cancel' (by omega), Nat.add_mod_right, Nat.mod_eq_of_lt hj]

theorem probe_of_scan_none {idx j : Nat} (hidx : idx < n)
    (hscan : (scan probe n n idx).1 = .ok none) (hj : j < n) : probe j = .ok false := by
  obtain ⟨k, hk, hkj⟩ := exists_rotate hidx hj
  rw [← hkj]
  exact (scan_none_iff hidx).mp hscan k hk

/-- A scan that may ask every slot of a round, and finds each of them able to
answer, does not fail. -/
theorem scan_ok {count idx : Nat} (hidx : idx < n)
    (hprobe : ∀ j < n, ∃ yes, probe j = .ok yes) :
    ∃ found, (scan probe n count idx).1 = .ok found := by
  induction count generalizing idx with
  | zero => exact ⟨none, rfl⟩
  | succ count ih =>
      rw [scan]
      obtain ⟨yes, hyes⟩ := hprobe idx hidx
      rw [hyes]
      cases yes with
      | true => exact ⟨some idx, rfl⟩
      | false => exact ih (Nat.mod_lt _ (Nat.zero_lt_of_lt hidx))

/-- Slots that say no, and no further than the first that does not: without
passing the end, the scan has asked the slots in between. -/
theorem scan_some_of_le {idx j : Nat} (hj : j < n) (hle : idx ≤ j)
    (hyes : probe j = .ok true) (hno : ∀ i, idx ≤ i → i < j → probe i = .ok false) :
    (scan probe n n idx).1 = .ok (some j) := by
  rw [scan_some_iff (Nat.lt_of_le_of_lt hle hj)]
  refine ⟨j - idx, by omega, ?_, hyes, ?_⟩
  · rw [Nat.add_sub_cancel' hle, Nat.mod_eq_of_lt hj]
  · intro i hi
    rw [Nat.mod_eq_of_lt (by omega)]
    exact hno (idx + i) (Nat.le_add_right idx i) (by omega)

/-- If the last slots cannot be asked, a scan that finds something has stopped
before them, and has not passed the end. -/
theorem le_of_scan_some {m idx j : Nat} (hmn : m < n) (hidx : idx < n)
    (hlast : ∀ i yes, probe i = .ok yes → i < m)
    (hscan : (scan probe n n idx).1 = .ok (some j)) :
    idx ≤ j ∧ j < m ∧ probe j = .ok true ∧ ∀ i, idx ≤ i → i < j → probe i = .ok false := by
  obtain ⟨k, hk, hkj, hyes, hno⟩ := (scan_some_iff hidx).mp hscan
  have hnowrap : ∀ i ≤ k, idx + i < n := by
    intro i
    induction i with
    | zero => exact fun _ => hidx
    | succ i ih =>
        intro hi
        have hlt := ih (Nat.le_of_succ_le hi)
        have hbefore := hlast _ _ (hno i hi)
        rw [Nat.mod_eq_of_lt hlt] at hbefore
        omega
  rw [Nat.mod_eq_of_lt (hnowrap k (Nat.le_refl k))] at hkj
  subst hkj
  refine ⟨Nat.le_add_right idx k, hlast _ _ hyes, hyes, ?_⟩
  intro i hle hi
  obtain ⟨d, rfl⟩ := Nat.exists_eq_add_of_le hle
  have hd : d < k := by omega
  have hsays := hno d hd
  rwa [Nat.mod_eq_of_lt (hnowrap d (Nat.le_of_lt hd))] at hsays

/-- A scan for each vector of answers, each from where the last one stopped. -/
def scans (n : Nat) : List (Nat → Except ε Bool) → Nat → Except ε (List (Option Nat))
  | [], _ => .ok []
  | probe :: probes, idx =>
      match scan probe n n idx with
      | (.error fault, _) => .error fault
      | (.ok found, idx) => (scans n probes idx).map (found :: ·)

/-- Every slot can be asked. -/
def Answers (n : Nat) (probe : Nat → Except ε Bool) : Prop :=
  ∀ i < n, ∃ yes, probe i = .ok yes

/-- For each scan a slot that says yes, at least `first` and less than `last`
places away, and never nearer than that of the scan before. -/
def HeldBack (turns : List (Nat → Prop)) (first last : Nat) : Prop :=
  ∃ offsets : List Nat, (first :: offsets).Pairwise (· ≤ ·) ∧
    List.Forall₂ (fun yes offset => yes offset ∧ offset < last) turns offsets

theorem heldBack_nil (first last : Nat) : HeldBack [] first last :=
  ⟨[], List.pairwise_singleton _ _, List.Forall₂.nil⟩

theorem heldBack_cons {yes : Nat → Prop} {turns : List (Nat → Prop)} {first last : Nat} :
    HeldBack (yes :: turns) first last ↔
      ∃ offset, first ≤ offset ∧ offset < last ∧ yes offset ∧ HeldBack turns offset last := by
  constructor
  · rintro ⟨offsets, hsorted, hturns⟩
    cases hturns with
    | cons hturn hturns =>
        rw [List.pairwise_cons] at hsorted
        exact ⟨_, hsorted.1 _ List.mem_cons_self, hturn.2, hturn.1, _, hsorted.2, hturns⟩
  · rintro ⟨offset, hfirst, hlast, hyes, offsets, hsorted, hturns⟩
    refine ⟨offset :: offsets, ?_, List.Forall₂.cons ⟨hyes, hlast⟩ hturns⟩
    rw [List.pairwise_cons]
    refine ⟨?_, hsorted⟩
    intro later hlater
    cases hlater with
    | head => exact hfirst
    | tail _ hlater => exact Nat.le_trans hfirst ((List.pairwise_cons.mp hsorted).1 later hlater)

theorem HeldBack.mono {turns : List (Nat → Prop)} {first first' last : Nat}
    (hle : first ≤ first') (hheld : HeldBack turns first' last) : HeldBack turns first last := by
  cases turns with
  | nil => exact heldBack_nil first last
  | cons yes turns =>
      obtain ⟨offset, hfirst, hrest⟩ := heldBack_cons.mp hheld
      exact heldBack_cons.mpr ⟨offset, Nat.le_trans hle hfirst, hrest⟩

/-- Going no further than to the nearest slot leaves the most for later. -/
theorem heldBack_nearest {yes : Nat → Prop} {turns : List (Nat → Prop)} {first k last : Nat}
    (hfirst : first ≤ k) (hk : k < last) (hyes : yes k)
    (hno : ∀ i, first ≤ i → i < k → ¬ yes i) :
    HeldBack (yes :: turns) first last ↔ HeldBack turns k last := by
  rw [heldBack_cons]
  constructor
  · rintro ⟨offset, hle, _, hoffset, hheld⟩
    refine hheld.mono ?_
    by_contra hlt
    exact hno offset hle (Nat.lt_of_not_le hlt) hoffset
  · exact fun hheld => ⟨k, hfirst, hk, hyes, hheld⟩

theorem not_heldBack_of_none {yes : Nat → Prop} {first last : Nat}
    (hno : ∀ i, first ≤ i → i < last → ¬ yes i) (turns : List (Nat → Prop)) :
    ¬ HeldBack (yes :: turns) first last := by
  rw [heldBack_cons]
  rintro ⟨offset, hle, hlt, hyes, _⟩
  exact hno offset hle hlt hyes

theorem scan_lt {count idx : Nat} (hidx : idx < n) : (scan probe n count idx).2 < n := by
  induction count generalizing idx with
  | zero => exact hidx
  | succ count ih =>
      rw [scan]
      cases probe idx with
      | error fault => exact hidx
      | ok yes =>
          cases yes with
          | true => exact hidx
          | false => exact ih (Nat.mod_lt _ (Nat.zero_lt_of_lt hidx))

/-- A scan that finds a slot stops at it, so the next one asks it first. -/
theorem scan_stops {count idx j : Nat} (hscan : (scan probe n count idx).1 = .ok (some j)) :
    (scan probe n count idx).2 = j := by
  induction count generalizing idx with
  | zero =>
      rw [scan] at hscan
      cases hscan
  | succ count ih =>
      rw [scan] at hscan ⊢
      cases hprobe : probe idx with
      | error fault =>
          rw [hprobe] at hscan
          cases hscan
      | ok yes =>
          rw [hprobe] at hscan
          cases yes with
          | true =>
              cases hscan
              rfl
          | false => exact ih hscan

/-- With `last` places to go to a slot that says yes, the scan from `first` finds
the nearest. -/
theorem scan_nearest {idx first last : Nat} (hlast : last < n) (hle : first ≤ last)
    (hanswers : Answers n probe) (hyes : probe ((idx + last) % n) = .ok true) :
    ∃ k, first ≤ k ∧ k ≤ last ∧ probe ((idx + k) % n) = .ok true ∧
      (∀ i, first ≤ i → i < k → probe ((idx + i) % n) = .ok false) ∧
      scan probe n n ((idx + first) % n) = (.ok (some ((idx + k) % n)), (idx + k) % n) := by
  have hstart : (idx + first) % n < n := Nat.mod_lt _ (Nat.zero_lt_of_lt hlast)
  have hplace : ∀ i, first ≤ i → ((idx + first) % n + (i - first)) % n = (idx + i) % n := by
    intro i hi
    rw [Nat.mod_add_mod, Nat.add_assoc, Nat.add_sub_cancel' hi]
  obtain ⟨found, hfound⟩ : ∃ found, (scan probe n n ((idx + first) % n)).1 = .ok found :=
    scan_ok hstart hanswers
  cases found with
  | none =>
      have hno := (scan_none_iff hstart).mp hfound (last - first) (by omega)
      rw [hplace last hle, hyes] at hno
      cases hno
  | some j =>
      obtain ⟨k, hk, hj, hjyes, hno⟩ := (scan_some_iff hstart).mp hfound
      have hjplace : (idx + (first + k)) % n = j := by
        rw [← hj, Nat.mod_add_mod, Nat.add_assoc]
      have hbefore : ∀ i, first ≤ i → i < first + k → probe ((idx + i) % n) = .ok false := by
        intro i hi hlt
        rw [← hplace i hi]
        exact hno (i - first) (by omega)
      refine ⟨first + k, Nat.le_add_right first k, ?_, hjplace ▸ hjyes, hbefore, ?_⟩
      · by_contra hpast
        have hno := hbefore last hle (Nat.lt_of_not_le hpast)
        rw [hyes] at hno
        cases hno
      · rw [hjplace]
        exact Prod.ext hfound (scan_stops hfound)

theorem scans_cons_some {probes : List (Nat → Except ε Bool)} {idx j : Nat}
    (hscan : scan probe n n idx = (.ok (some j), j)) :
    scans n (probe :: probes) idx = (scans n probes j).map (some j :: ·) := by
  rw [scans, hscan]

theorem scans_ok {probes : List (Nat → Except ε Bool)} {idx last : Nat} (hlast : last < n)
    (hanswers : ∀ probe ∈ probes, Answers n probe)
    (hready : ∀ probe ∈ probes, probe ((idx + last) % n) = .ok true) :
    ∀ first ≤ last, ∃ found, scans n probes ((idx + first) % n) = .ok found := by
  induction probes with
  | nil => exact fun _ _ => ⟨[], rfl⟩
  | cons probe probes ih =>
      rw [List.forall_mem_cons] at hanswers hready
      intro first hle
      obtain ⟨k, _, hk, _, _, hscan⟩ := scan_nearest hlast hle hanswers.1 hready.1
      obtain ⟨found, hfound⟩ := ih hanswers.2 hready.2 k hk
      exact ⟨_, by rw [scans_cons_some hscan, hfound]; rfl⟩

/-- Two places of one round are the same slot only if they are the same. -/
theorem place_inj {idx k last : Nat} (hk : k < n) (hlast : last < n)
    (heq : (idx + k) % n = (idx + last) % n) : k = last := by
  have hmod : k ≡ last [MOD n] := Nat.ModEq.add_left_cancel' idx heq
  exact hmod.eq_of_lt_of_lt hk hlast

/-- A slot that says yes at every scan is found unless it is held back: the scans
go from one slot to the next and stay as near as they can. -/
theorem found_iff_not_heldBack {probes : List (Nat → Except ε Bool)} {idx last : Nat}
    (hlast : last < n) (hanswers : ∀ probe ∈ probes, Answers n probe)
    (hready : ∀ probe ∈ probes, probe ((idx + last) % n) = .ok true) :
    ∀ first ≤ last,
      ((∃ found, scans n probes ((idx + first) % n) = .ok found ∧
          some ((idx + last) % n) ∈ found) ↔
        ¬ HeldBack (probes.map fun probe k => probe ((idx + k) % n) = .ok true) first last) := by
  induction probes with
  | nil =>
      intro first _
      simp [scans, heldBack_nil]
  | cons probe probes ih =>
      rw [List.forall_mem_cons] at hanswers hready
      intro first hle
      obtain ⟨k, hfirst, hk, hyes, hno, hscan⟩ := scan_nearest hlast hle hanswers.1 hready.1
      obtain ⟨rest, hrest⟩ := scans_ok hlast hanswers.2 hready.2 k hk
      have hnotYes : ∀ i, first ≤ i → i < k → ¬ probe ((idx + i) % n) = .ok true := by
        intro i hi hlt
        rw [hno i hi hlt]
        rintro ⟨⟩
      rw [scans_cons_some hscan, hrest, List.map_cons]
      by_cases hlt : k < last
      · -- The slot found comes before `last`, and the other scans go on from there.
        have hother : (idx + last) % n ≠ (idx + k) % n := fun heq =>
          Nat.ne_of_gt hlt (place_inj hlast (Nat.lt_trans hlt hlast) heq)
        rw [heldBack_nearest hfirst hlt hyes hnotYes, ← ih hanswers.2 hready.2 k hk, hrest]
        simp [Except.map, hother]
      · -- No slot on the way says yes, and `last` is the one found.
        obtain rfl : k = last := Nat.le_antisymm hk (Nat.le_of_not_lt hlt)
        have hnot := not_heldBack_of_none hnotYes
          (probes.map fun probe k => probe ((idx + k) % n) = .ok true)
        simp [Except.map, hnot]

/-- A slot that goes on saying yes keeps the scans at itself. -/
theorem scans_of_busy {probes : List (Nat → Except ε Bool)} {idx : Nat} (hn : 0 < n)
    (hbusy : ∀ probe ∈ probes, probe idx = .ok true) :
    scans n probes idx = .ok (List.replicate probes.length (some idx)) := by
  induction probes with
  | nil => rfl
  | cons probe probes ih =>
      rw [List.forall_mem_cons] at hbusy
      obtain ⟨count, rfl⟩ := Nat.exists_eq_succ_of_ne_zero (Nat.ne_of_gt hn)
      have hscan : scan probe (count + 1) (count + 1) idx = (.ok (some idx), idx) := by
        rw [scan, hbusy.1]
      rw [scans_cons_some hscan, ih hbusy.2]
      rfl

end RoundRobin

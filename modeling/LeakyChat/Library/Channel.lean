/-
A log that is read from the front, each item at most once.  The reader may pass
items over, or take each of which it can make something.
-/
import Mathlib.Data.List.Basic

universe u v w

namespace Channel

variable {α : Type u} {β : Type v} {γ : Type w} {f : α → Option β} {log : List α} {cursor : Nat}
  {taken : List β}

/-- What has been taken, of the items before the cursor. -/
def TakenFrom (f : α → Option β) (log : List α) (cursor : Nat) (taken : List β) : Prop :=
  taken.Sublist ((log.take cursor).filterMap f)

theorem takenFrom_nil (f : α → Option β) (log : List α) (cursor : Nat) :
    TakenFrom f log cursor [] :=
  List.nil_sublist _

theorem TakenFrom.sublist (htaken : TakenFrom f log cursor taken) :
    taken.Sublist (log.filterMap f) :=
  List.Sublist.trans htaken ((List.take_sublist cursor log).filterMap f)

/-- Items come in at the end. -/
theorem TakenFrom.append (htaken : TakenFrom f log cursor taken) (more : List α) :
    TakenFrom f (log ++ more) cursor taken := by
  refine List.Sublist.trans htaken (List.Sublist.filterMap f ?_)
  rw [List.take_append]
  exact List.sublist_append_left _ _

/-- Items are passed over. -/
theorem TakenFrom.pass (htaken : TakenFrom f log cursor taken) {i : Nat} (hle : cursor ≤ i) :
    TakenFrom f log i taken :=
  List.Sublist.trans htaken ((List.take_sublist_take_left hle).filterMap f)

/-- The item at or behind the cursor is taken. -/
theorem TakenFrom.take (htaken : TakenFrom f log cursor taken) {i : Nat} {item : α}
    (hle : cursor ≤ i) (hitem : log[i]? = some item) :
    TakenFrom f log (i + 1) (taken ++ (f item).toList) := by
  have hone : (some item).toList.filterMap f = (f item).toList := by
    cases hf : f item <;> simp [hf]
  rw [TakenFrom, List.take_add_one, hitem, List.filterMap_append, hone]
  exact (htaken.pass hle).append_right _

/-- All that can be made of the items before the cursor has been taken. -/
structure TakenAll (f : α → Option β) (log : List α) (cursor : Nat) (taken : List β) : Prop where
  eq : taken = (log.take cursor).filterMap f
  le : cursor ≤ log.length

theorem takenAll_nil (f : α → Option β) (log : List α) : TakenAll f log 0 [] :=
  ⟨rfl, Nat.zero_le _⟩

theorem TakenAll.append (htaken : TakenAll f log cursor taken) (more : List α) :
    TakenAll f (log ++ more) cursor taken where
  eq := by rw [List.take_append_of_le_length htaken.le, htaken.eq]
  le := by
    rw [List.length_append]
    exact Nat.le_add_right_of_le htaken.le

/-- What is passed over gives nothing. -/
theorem filterMap_drop {i : Nat} (hskip : ∀ j item, cursor ≤ j → j < i → log[j]? = some item →
    f item = none) : ((log.take i).drop cursor).filterMap f = [] := by
  refine List.filterMap_eq_nil_iff.mpr fun item hitem => ?_
  obtain ⟨k, hk⟩ := List.mem_iff_getElem?.mp hitem
  rw [List.getElem?_drop, List.getElem?_take] at hk
  split at hk
  · exact hskip _ item (Nat.le_add_right cursor k) ‹_› hk
  · cases hk

/-- The next item that something is made of is taken. -/
theorem TakenAll.take (htaken : TakenAll f log cursor taken) {i : Nat} {item : α}
    (hle : cursor ≤ i) (hskip : ∀ j item, cursor ≤ j → j < i → log[j]? = some item →
      f item = none) (hitem : log[i]? = some item) :
    TakenAll f log (i + 1) (taken ++ (f item).toList) where
  eq := by
    have hone : (some item).toList.filterMap f = (f item).toList := by
      cases hf : f item <;> simp [hf]
    have hsplit : (log.take i).filterMap f = taken := by
      rw [← List.take_append_drop cursor (log.take i), List.filterMap_append,
        filterMap_drop hskip, List.append_nil, List.take_take, Nat.min_eq_left hle, htaken.eq]
    rw [List.take_add_one, hitem, List.filterMap_append, hone, hsplit]
  le := (List.getElem?_eq_some_iff.mp hitem).1

/-- Nothing is left behind the cursor. -/
theorem TakenAll.all (htaken : TakenAll f log cursor taken)
    (hrest : ∀ j item, cursor ≤ j → log[j]? = some item → f item = none) :
    taken = log.filterMap f := by
  have hnone := filterMap_drop (i := log.length) fun j item hle _ hitem => hrest j item hle hitem
  rw [List.take_length] at hnone
  rw [htaken.eq, ← List.append_nil ((log.take cursor).filterMap f), ← hnone,
    ← List.filterMap_append, List.take_append_drop]

/-- Items of which less is made. -/
theorem sublist_filterMap_of_le {g h : α → Option γ} (hle : ∀ item ∈ log, ∀ made,
    g item = some made → h item = some made) : (log.filterMap g).Sublist (log.filterMap h) := by
  induction log with
  | nil => exact List.Sublist.refl _
  | cons item log ih =>
      have hrest := ih fun other hother => hle other (List.mem_cons_of_mem item hother)
      cases hg : g item with
      | none =>
          rw [List.filterMap_cons_none hg]
          cases hh : h item with
          | none =>
              rw [List.filterMap_cons_none hh]
              exact hrest
          | some made =>
              rw [List.filterMap_cons_some hh]
              exact hrest.cons made
      | some made =>
          rw [List.filterMap_cons_some hg,
            List.filterMap_cons_some (hle item List.mem_cons_self made hg)]
          exact hrest.cons_cons made

/-- The item behind a prefix. -/
theorem prefix_concat {front : List α} {item : α} (hfront : front <+: log)
    (hitem : log[front.length]? = some item) : front ++ [item] <+: log := by
  obtain ⟨rest, rfl⟩ := hfront
  rw [List.getElem?_append_right (Nat.le_refl _), Nat.sub_self] at hitem
  cases rest with
  | nil => cases hitem
  | cons first rest =>
      cases hitem
      exact ⟨rest, by rw [List.append_assoc, List.singleton_append]⟩

end Channel

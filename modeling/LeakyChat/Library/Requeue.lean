/-
What the waiting loop leaves in its queue.  An item it keeps goes behind those
it has not looked at yet, so that a wait turns the queue round at the message it
returns; an item it loses is gone.
-/
import LeakyChat.Library.SelectiveReceive
import LeakyChat.Library.Transition

namespace SelectiveReceive

universe u

variable {α : Type u}

open Mailbox Transition

/-- A list so many times over. -/
def repeated (word : List α) (n : Nat) : List α := (List.replicate n word).flatten

theorem repeated_add (word : List α) (m n : Nat) :
    repeated word (m + n) = repeated word m ++ repeated word n := by
  rw [repeated, List.replicate_add, List.flatten_append]
  rfl

/-- Two repetitions of one list. -/
def Alike (xs ys : List α) : Prop :=
  ∃ word m n, xs = repeated word m ∧ ys = repeated word n

theorem alike_nil_left (ys : List α) : Alike [] ys :=
  ⟨ys, 0, 1, rfl, by simp [repeated]⟩

theorem alike_nil_right (xs : List α) : Alike xs [] :=
  ⟨xs, 1, 0, by simp [repeated], rfl⟩

theorem Alike.symm {xs ys : List α} (halike : Alike xs ys) : Alike ys xs := by
  obtain ⟨word, m, n, hxs, hys⟩ := halike
  exact ⟨word, n, m, hys, hxs⟩

/-- Two lists commute exactly if they repeat one list. -/
theorem append_comm_iff {xs ys : List α} : xs ++ ys = ys ++ xs ↔ Alike xs ys := by
  constructor
  · intro hcomm
    induction hn : xs.length + ys.length using Nat.strongRecOn generalizing xs ys with
    | ind n ih =>
        have hshorter : ∀ {xs ys : List α}, xs ++ ys = ys ++ xs → xs.length + ys.length = n →
            xs ≠ [] → xs.length ≤ ys.length → Alike xs ys := by
          intro xs ys hcomm hn hne hle
          have hys : ys <+: xs ++ ys := hcomm ▸ List.prefix_append ys xs
          obtain ⟨zs, rfl⟩ := List.prefix_of_prefix_length_le (List.prefix_append xs ys) hys hle
          rw [List.append_assoc, List.append_cancel_left_eq] at hcomm
          have hpos : 0 < xs.length := List.length_pos_iff.mpr hne
          rw [List.length_append] at hn
          obtain ⟨word, i, j, hxs, hzs⟩ := ih (xs.length + zs.length) (by omega) hcomm rfl
          exact ⟨word, i, i + j, hxs, by rw [repeated_add, ← hxs, ← hzs]⟩
        by_cases hxs : xs = []
        · rw [hxs]
          exact alike_nil_left ys
        by_cases hys : ys = []
        · rw [hys]
          exact alike_nil_right xs
        rcases Nat.le_total xs.length ys.length with hle | hle
        · exact hshorter hcomm hn hxs hle
        · exact (hshorter hcomm.symm (by omega) hys hle).symm
  · rintro ⟨word, m, n, rfl, rfl⟩
    rw [← repeated_add, ← repeated_add, Nat.add_comm]

section Order

variable (wanted : α → Bool)

/-- The queued messages in front of the first wanted one. -/
def front (m : Mailbox α) : List α := m.queue.reduceOption.takeWhile fun a => !wanted a

/-- The queued messages behind it. -/
def behind (m : Mailbox α) : List α :=
  (m.queue.reduceOption.dropWhile fun a => !wanted a).tail

/-- The messages that were queued and those that have come from the socket, without
the one returned, are queued as they came. -/
def KeepsOrder (m m' : Mailbox α) : Prop :=
  ∃ arrived, m.socket = arrived ++ m'.socket ∧
    m'.queue.reduceOption = (m.queue ++ arrived).reduceOption.eraseP wanted

/-- How a wait can find its message: in the queue, and then what is in front of it
goes behind the rest; or nothing is queued, and it is the first message of the
socket. -/
inductive Found (m : Mailbox α) (a : α) (m' : Mailbox α) : Prop where
  | queued (before after : List (Option α)) (hqueue : m.queue = before ++ some a :: after)
      (hbefore : ∀ b ∈ before.reduceOption, wanted b = false)
      (hleft : m' = ⟨after ++ before.reduceOption.map some, m.socket⟩)
  | arrived (arrived : List (Option α)) (hempty : m.queue.reduceOption = [])
      (hleft : m'.queue = []) (hone : arrived.reduceOption = [a])
      (hsocket : m.socket = arrived ++ m'.socket)

variable {wanted} {m rest m' : Mailbox α} {a b : α}

theorem Found.of_idle (hpoll : Polled m none rest) (hfound : Found wanted rest a m') :
    Found wanted m a m' := by
  cases hpoll with
  | queued item queue socket =>
      cases hfound with
      | queued before after hqueue hbefore hleft =>
          exact .queued (none :: before) after (congrArg (none :: ·) hqueue) hbefore hleft
      | arrived arrived hempty hleft hone hsocket =>
          exact .arrived arrived hempty hleft hone hsocket
  | arrived item socket =>
      cases hfound with
      | queued before after hqueue => simp at hqueue
      | arrived arrived _ hleft hone hsocket =>
          exact .arrived (none :: arrived) rfl hleft hone (congrArg (none :: ·) hsocket)
  | idle => exact hfound

theorem Found.of_taken (hpoll : Polled m (some a) m') : Found wanted m a m' := by
  cases hpoll with
  | queued item queue socket => exact .queued [] queue rfl (by simp) (by simp)
  | arrived item socket => exact .arrived [some a] rfl rfl rfl rfl

/-- The message put back is not the one returned, so it is behind that. -/
theorem Found.of_kept (hpoll : Polled m (some b) rest) (hb : ¬ wanted b = true)
    (ha : wanted a = true) (hfound : Found wanted (rest.push (some b)) a m') :
    Found wanted m a m' := by
  cases hfound with
  | queued before after hqueue hbefore hleft =>
      rcases List.eq_nil_or_concat after with rfl | ⟨after', last, rfl⟩
      · have hlast := List.append_inj_right' hqueue rfl
        rw [List.cons.injEq, Option.some.injEq] at hlast
        exact absurd (hlast.1 ▸ ha) hb
      · rw [List.concat_eq_append, ← List.cons_append, ← List.append_assoc] at hqueue
        obtain ⟨hrest, hlast⟩ := List.append_inj' hqueue rfl
        rw [List.cons.injEq] at hlast
        obtain ⟨rfl, _⟩ := hlast
        cases hpoll with
        | queued item queue socket =>
            refine .queued (some b :: before) after' (congrArg (some b :: ·) hrest) ?_ ?_
            · intro c hc
              rw [List.reduceOption_cons_of_some, List.mem_cons] at hc
              rcases hc with rfl | hc
              · simpa using hb
              · exact hbefore c hc
            · rw [hleft]
              simp [push]
        | arrived item socket => simp at hrest
  | arrived arrived hempty => simp [push, List.reduceOption_append] at hempty

theorem Found.keepsOrder_iff (ha : wanted a = true) (hfound : Found wanted m a m') :
    KeepsOrder wanted m m' ↔ Alike (front wanted m) (behind wanted m) := by
  cases hfound with
  | queued before after hqueue hbefore hleft =>
      subst hleft
      have hunwanted : ∀ b ∈ before.reduceOption, (!wanted b) = true := by
        intro b hb
        rw [hbefore b hb]
        rfl
      have hpackets : m.queue.reduceOption = before.reduceOption ++ a :: after.reduceOption := by
        rw [hqueue, List.reduceOption_append, List.reduceOption_cons_of_some]
      have hfront : front wanted m = before.reduceOption := by
        rw [front, hpackets, List.takeWhile_append_of_pos hunwanted,
          List.takeWhile_cons_of_neg (by simp [ha]), List.append_nil]
      have hbehind : behind wanted m = after.reduceOption := by
        rw [behind, hpackets, List.dropWhile_append_of_pos hunwanted,
          List.dropWhile_cons_of_neg (by simp [ha]), List.tail_cons]
      have hleft : (after ++ before.reduceOption.map some).reduceOption =
          after.reduceOption ++ before.reduceOption := by
        rw [List.reduceOption_append]
        congr 1
        simp [List.reduceOption]
      have herased : m.queue.reduceOption.eraseP wanted =
          before.reduceOption ++ after.reduceOption := by
        rw [hpackets, List.eraseP_append_right _ (by simpa using hbefore),
          List.eraseP_cons_of_pos ha]
      rw [hfront, hbehind, ← append_comm_iff]
      constructor
      · rintro ⟨arrived, hsocket, hkept⟩
        have hnone : arrived = [] := by simpa using hsocket
        rw [hnone, List.append_nil, herased, hleft] at hkept
        exact hkept.symm
      · intro hcomm
        exact ⟨[], rfl, by rw [List.append_nil, herased, hleft, hcomm]⟩
  | arrived arrived hempty hleft hone hsocket =>
      refine iff_of_true ⟨arrived, hsocket, ?_⟩ ?_
      · rw [hleft, List.reduceOption_append, hempty, hone, List.nil_append,
          List.eraseP_cons_of_pos ha]
        rfl
      · rw [front, hempty]
        exact alike_nil_left _

variable {verdict : α → Verdict}
  (hverdict : ∀ a, verdict a = if wanted a = true then .take else .keep)

include hverdict

/-- A loop that keeps what it does not want returns a message it wants. -/
theorem receive_finds {polls : Nat} (hrun : receive verdict polls m = some (a, m')) :
    wanted a = true ∧ Found wanted m a m' := by
  induction polls generalizing m with
  | zero => cases hrun
  | succ polls ih =>
      have hpolled := polled_poll m
      rw [receive] at hrun
      rcases hpoll : m.poll with ⟨item, rest⟩
      rw [hpoll] at hrun hpolled
      cases item with
      | none =>
          obtain ⟨ha, hfound⟩ := ih hrun
          exact ⟨ha, hfound.of_idle hpolled⟩
      | some b =>
          by_cases hb : wanted b = true
          · have htake : verdict b = .take := by rw [hverdict, if_pos hb]
            simp only [htake, Option.some.injEq, Prod.mk.injEq] at hrun
            obtain ⟨rfl, rfl⟩ := hrun
            exact ⟨hb, Found.of_taken hpolled⟩
          · have hkeep : verdict b = .keep := by rw [hverdict, if_neg hb]
            simp only [hkeep] at hrun
            obtain ⟨ha, hfound⟩ := ih hrun
            exact ⟨ha, hfound.of_kept hpolled hb ha⟩

/-- What was queued in front of the message returned has changed places with what
was queued behind it. -/
theorem keepsOrder_iff {polls : Nat} {m m' : Mailbox α} {a : α}
    (hrun : receive verdict polls m = some (a, m')) :
    KeepsOrder wanted m m' ↔ Alike (front wanted m) (behind wanted m) := by
  obtain ⟨ha, hfound⟩ := receive_finds hverdict hrun
  exact hfound.keepsOrder_iff ha

end Order

/-- A wait under way, and what it has returned. -/
structure Waiting (α : Type u) where
  mail : Mailbox α
  returned : Option α

/-- What a turn of the loop has looked at, and what it has pushed. -/
structure Turn (α : Type u) where
  examined : Option α
  pushed : Option (Option α)

/-- One turn of the loop; a wait that has returned takes none. -/
inductive Turns (verdict : α → Verdict) : Waiting α → Turn α → Waiting α → Prop
  | idle {m rest : Mailbox α} (hpoll : m.poll = (none, rest)) :
      Turns verdict ⟨m, none⟩ ⟨none, none⟩ ⟨rest, none⟩
  | takes {m rest : Mailbox α} {a : α} (hpoll : m.poll = (some a, rest))
      (ha : verdict a = .take) : Turns verdict ⟨m, none⟩ ⟨some a, none⟩ ⟨rest, some a⟩
  | keeps {m rest : Mailbox α} {a : α} (hpoll : m.poll = (some a, rest))
      (ha : verdict a = .keep) :
      Turns verdict ⟨m, none⟩ ⟨some a, some (some a)⟩ ⟨rest.push (some a), none⟩
  | loses {m rest : Mailbox α} {a : α} (hpoll : m.poll = (some a, rest))
      (ha : verdict a = .lose) :
      Turns verdict ⟨m, none⟩ ⟨some a, some none⟩ ⟨rest.push none, none⟩

def waiting (verdict : α → Verdict) : System (Waiting α) (Turn α) where
  init w := w.returned = none
  step := Turns verdict

variable {verdict : α → Verdict}

/-- A loop that returns has run through its turns. -/
theorem run_of_receive {polls : Nat} {m m' : Mailbox α} {a : α}
    (hrun : receive verdict polls m = some (a, m')) :
    ∃ turns, Run (waiting verdict) ⟨m, none⟩ turns ⟨m', some a⟩ := by
  induction polls generalizing m with
  | zero => cases hrun
  | succ polls ih =>
      rw [receive] at hrun
      rcases hpoll : m.poll with ⟨item, rest⟩
      rw [hpoll] at hrun
      cases item with
      | none =>
          obtain ⟨turns, hturns⟩ := ih hrun
          exact ⟨_, Run.cons (.idle hpoll) hturns⟩
      | some b =>
          cases hb : verdict b with
          | take =>
              simp only [hb, Option.some.injEq, Prod.mk.injEq] at hrun
              obtain ⟨rfl, rfl⟩ := hrun
              exact ⟨_, Run.cons (.takes hpoll hb) (Run.nil _)⟩
          | keep =>
              simp only [hb] at hrun
              obtain ⟨turns, hturns⟩ := ih hrun
              exact ⟨_, Run.cons (.keeps hpoll hb) hturns⟩
          | lose =>
              simp only [hb] at hrun
              obtain ⟨turns, hturns⟩ := ih hrun
              exact ⟨_, Run.cons (.loses hpoll hb) hturns⟩

/-- The messages that are queued or returned. -/
def Waiting.held (w : Waiting α) : List α :=
  w.mail.queue.reduceOption ++ w.returned.toList

/-- The messages the turns have lost. -/
def lost (verdict : α → Verdict) (turns : List (Turn α)) : List α :=
  (turns.flatMap fun turn => turn.examined.toList).filter fun a => verdict a = .lose

theorem Polled.held {m m' : Mailbox α} {item : Option α} (hpoll : Polled m item m') :
    ∃ arrived, m.socket = arrived ++ m'.socket ∧
      m.queue.reduceOption ++ arrived.reduceOption =
        item.toList ++ m'.queue.reduceOption := by
  cases hpoll with
  | queued item queue socket => exact ⟨[], rfl, by cases item <;> simp⟩
  | arrived item socket => exact ⟨[item], rfl, by cases item <;> simp⟩
  | idle => exact ⟨[], rfl, rfl⟩

/-- What a turn holds and what arrives in it, it still holds or has lost. -/
theorem Turns.account {w w' : Waiting α} {turn : Turn α} (hturn : Turns verdict w turn w') :
    (∃ arrived, w.mail.socket = arrived ++ w'.mail.socket ∧
      (w.held ++ arrived.reduceOption).Perm (w'.held ++ lost verdict [turn])) ∧
    (turn.pushed = some none ↔ lost verdict [turn] ≠ []) := by
  have hpolled := polled_poll w.mail
  obtain ⟨arrived, hsocket, hheld⟩ := hpolled.held
  cases hturn with
  | idle hpoll =>
      rw [hpoll] at hsocket hheld
      refine ⟨⟨arrived, hsocket, ?_⟩, by simp [lost]⟩
      simpa [Waiting.held, lost] using List.Perm.of_eq hheld
  | takes hpoll ha =>
      rw [hpoll] at hsocket hheld
      refine ⟨⟨arrived, hsocket, ?_⟩, by simp [lost, ha]⟩
      simpa [Waiting.held, lost, ha, hheld] using (List.perm_append_singleton _ _).symm
  | keeps hpoll ha =>
      rw [hpoll] at hsocket hheld
      refine ⟨⟨arrived, hsocket, ?_⟩, by simp [lost, ha]⟩
      simpa [Waiting.held, lost, ha, hheld, push, List.reduceOption_append] using
        (List.perm_append_singleton _ _).symm
  | loses hpoll ha =>
      rw [hpoll] at hsocket hheld
      refine ⟨⟨arrived, hsocket, ?_⟩, by simp [lost, ha]⟩
      simpa [Waiting.held, lost, ha, hheld, push, List.reduceOption_append] using
        (List.perm_append_singleton _ _).symm

theorem lost_cons (verdict : α → Verdict) (turn : Turn α) (turns : List (Turn α)) :
    lost verdict (turn :: turns) = lost verdict [turn] ++ lost verdict turns := by
  simp [lost]

theorem account_of_run {w w' : Waiting α} {turns : List (Turn α)}
    (hrun : Run (waiting verdict) w turns w') :
    (∃ arrived, w.mail.socket = arrived ++ w'.mail.socket ∧
      (w.held ++ arrived.reduceOption).Perm (w'.held ++ lost verdict turns)) ∧
    ((∃ turn ∈ turns, turn.pushed = some none) ↔ lost verdict turns ≠ []) := by
  induction hrun with
  | nil w => exact ⟨⟨[], rfl, by simp [lost]⟩, by simp [lost]⟩
  | @cons w w₁ w' turn turns head tail ih =>
      obtain ⟨⟨arrived, hsocket, hheld⟩, hpushed⟩ := Turns.account head
      obtain ⟨⟨later, hlater, hheld'⟩, hpushed'⟩ := ih
      rw [lost_cons]
      constructor
      · refine ⟨arrived ++ later, by rw [hsocket, hlater, List.append_assoc], ?_⟩
        calc w.held ++ (arrived ++ later).reduceOption
            = (w.held ++ arrived.reduceOption) ++ later.reduceOption := by
              rw [List.reduceOption_append, List.append_assoc]
          List.Perm _ ((w₁.held ++ lost verdict [turn]) ++ later.reduceOption) :=
              hheld.append_right _
          List.Perm _ ((w₁.held ++ later.reduceOption) ++ lost verdict [turn]) := by
              rw [List.append_assoc, List.append_assoc]
              exact List.perm_append_comm.append_left _
          List.Perm _ ((w'.held ++ lost verdict turns) ++ lost verdict [turn]) :=
              hheld'.append_right _
          List.Perm _ (w'.held ++ (lost verdict [turn] ++ lost verdict turns)) := by
              rw [List.append_assoc]
              exact List.perm_append_comm.append_left _
      · rw [List.exists_mem_cons_iff, hpushed, hpushed', ne_eq, ne_eq, ne_eq,
          List.append_eq_nil_iff, not_and_or]

/-- Every message that was queued or has arrived is queued, or is the one that was
returned. -/
def Conserves (m : Mailbox α) (w : Waiting α) : Prop :=
  ∃ arrived, m.socket = arrived ++ w.mail.socket ∧
    (m.queue ++ arrived).reduceOption.Perm w.held

theorem lost_eq_nil_iff {turns : List (Turn α)} :
    lost verdict turns = [] ↔
      ∀ turn ∈ turns, ∀ a ∈ turn.examined, verdict a ≠ .lose := by
  rw [lost, List.filter_eq_nil_iff]
  constructor
  · intro hnone turn hturn a ha
    simpa using hnone a (List.mem_flatMap.mpr ⟨turn, hturn, Option.mem_toList.mpr ha⟩)
  · intro hnone a ha
    obtain ⟨turn, hturn, ha⟩ := List.mem_flatMap.mp ha
    simpa using hnone turn hturn a (Option.mem_toList.mp ha)

/-- Up to any point of a wait every message is accounted for exactly if none that
the loop loses was looked at; and the same goes for pushing no empty item. -/
theorem conserves_iff {m : Mailbox α} {w : Waiting α} {turns : List (Turn α)}
    (hrun : Run (waiting verdict) ⟨m, none⟩ turns w) :
    (Conserves m w ↔ ∀ turn ∈ turns, ∀ a ∈ turn.examined, verdict a ≠ .lose) ∧
    ((∀ turn ∈ turns, turn.pushed ≠ some none) ↔
      ∀ turn ∈ turns, ∀ a ∈ turn.examined, verdict a ≠ .lose) := by
  obtain ⟨⟨arrived, hsocket, hheld⟩, hpushed⟩ := account_of_run hrun
  have hpackets : (m.queue ++ arrived).reduceOption.Perm (w.held ++ lost verdict turns) := by
    rw [List.reduceOption_append]
    simpa [Waiting.held] using hheld
  rw [← lost_eq_nil_iff]
  constructor
  · constructor
    · rintro ⟨arrived', hsocket', hheld'⟩
      have hsame : arrived' = arrived := by
        rw [hsocket] at hsocket'
        exact (List.append_cancel_right hsocket').symm
      subst hsame
      have hlength := (hheld'.symm.trans hpackets).length_eq
      rw [List.length_append] at hlength
      exact List.length_eq_zero_iff.mp (by omega)
    · intro hnone
      rw [hnone, List.append_nil] at hpackets
      exact ⟨arrived, hsocket, hpackets⟩
  · rw [← not_iff_not, ← ne_eq (lost verdict turns), ← hpushed]
    simp

end SelectiveReceive

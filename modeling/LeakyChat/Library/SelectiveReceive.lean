/-
Waiting for one message among others.  A mailbox is a queue in front of a
socket; the waiting loop takes one item after another and, of those it does not
want, keeps some for later by putting them back into the queue and loses
others, which leave an empty item there.
-/
import Mathlib.Data.List.ReduceOption

namespace SelectiveReceive

universe u

variable {α : Type u}

/-- What the loop does with an item. -/
inductive Verdict where
  | take
  | keep
  | lose
deriving DecidableEq, Repr

/-- Items that are already here, and those that calls on the socket return
next; an empty item holds nothing. -/
structure Mailbox (α : Type u) where
  queue : List (Option α)
  socket : List (Option α)

namespace Mailbox

/-- Every message in the mailbox, queue first. -/
def packets (m : Mailbox α) : List α := (m.queue ++ m.socket).reduceOption

/-- The queue is served before the socket. -/
def poll (m : Mailbox α) : Option α × Mailbox α :=
  match m.queue with
  | item :: queue => (item, { m with queue := queue })
  | [] =>
      match m.socket with
      | item :: socket => (item, { m with socket := socket })
      | [] => (none, m)

def push (m : Mailbox α) (item : Option α) : Mailbox α :=
  { m with queue := m.queue ++ [item] }

/-- The messages a loop with this verdict wants. -/
def wanted (verdict : α → Verdict) (m : Mailbox α) : List α :=
  m.packets.filter fun a => verdict a = .take

end Mailbox

open Mailbox

/-- The loop, for at most so many calls of `poll`. -/
def receive (verdict : α → Verdict) : Nat → Mailbox α → Option (α × Mailbox α)
  | 0, _ => none
  | polls + 1, m =>
      match m.poll with
      | (none, m) => receive verdict polls m
      | (some a, m) =>
          match verdict a with
          | .take => some (a, m)
          | .keep => receive verdict polls (m.push (some a))
          | .lose => receive verdict polls (m.push none)

/-- What one call of `poll` finds. -/
inductive Polled : Mailbox α → Option α → Mailbox α → Prop
  | queued (item : Option α) (queue socket : List (Option α)) :
      Polled ⟨item :: queue, socket⟩ item ⟨queue, socket⟩
  | arrived (item : Option α) (socket : List (Option α)) :
      Polled ⟨[], item :: socket⟩ item ⟨[], socket⟩
  | idle : Polled ⟨[], []⟩ none ⟨[], []⟩

theorem polled_poll (m : Mailbox α) : Polled m m.poll.1 m.poll.2 := by
  obtain ⟨queue, socket⟩ := m
  cases queue with
  | cons item queue => exact Polled.queued item queue socket
  | nil =>
      cases socket with
      | cons item socket => exact Polled.arrived item socket
      | nil => exact Polled.idle

theorem Polled.packets_eq {m m' : Mailbox α} {item : Option α} (hpoll : Polled m item m') :
    m.packets = item.toList ++ m'.packets := by
  cases hpoll with
  | queued item queue socket => cases item <;> simp [packets]
  | arrived item socket => cases item <;> simp [packets]
  | idle => simp [packets]

theorem push_packets (m : Mailbox α) (item : Option α) :
    (m.push item).packets =
      m.queue.reduceOption ++ (item.toList ++ m.socket.reduceOption) := by
  cases item <;> simp [packets, push, List.reduceOption_append]

/-- Putting back what is not wanted does not change what is. -/
theorem push_wanted {verdict : α → Verdict} (m : Mailbox α) {item : Option α}
    (hitem : ∀ a ∈ item, verdict a ≠ .take) :
    (m.push item).wanted verdict = m.wanted verdict := by
  have hnone : item.toList.filter (fun a => verdict a = .take) = [] := by
    cases item with
    | none => rfl
    | some a => simpa using hitem a rfl
  rw [wanted, push_packets, wanted, packets, List.reduceOption_append, List.filter_append,
    List.filter_append, List.filter_append, hnone, List.nil_append]

section

variable {verdict : α → Verdict}

/-- The loop returns the first message it wants and leaves the others it would
want in order. -/
theorem receive_wanted {polls : Nat} {m m' : Mailbox α} {a : α}
    (hrun : receive verdict polls m = some (a, m')) :
    m.wanted verdict = a :: m'.wanted verdict := by
  induction polls generalizing m with
  | zero => cases hrun
  | succ polls ih =>
      have hpackets := (polled_poll m).packets_eq
      rw [receive] at hrun
      rcases hpoll : m.poll with ⟨item, rest⟩
      rw [hpoll] at hrun hpackets
      rw [wanted, hpackets, List.filter_append]
      cases item with
      | none => exact ih hrun
      | some b =>
          cases hb : verdict b with
          | take =>
              simp only [hb, Option.some.injEq, Prod.mk.injEq] at hrun
              obtain ⟨rfl, rfl⟩ := hrun
              simp [hb, wanted]
          | keep =>
              simp only [hb] at hrun
              rw [← ih hrun, push_wanted rest (by simp [hb])]
              simp [hb, wanted]
          | lose =>
              simp only [hb] at hrun
              rw [← ih hrun, push_wanted rest (by simp)]
              simp [hb, wanted]

theorem Polled.packets_subset {m m' : Mailbox α} {item : Option α} (hpoll : Polled m item m') :
    m'.packets ⊆ m.packets := by
  rw [hpoll.packets_eq]
  exact List.subset_append_right _ _

theorem mem_push_packets {m : Mailbox α} {item : Option α} {a : α}
    (ha : a ∈ (m.push item).packets) : item = some a ∨ a ∈ m.packets := by
  rw [push_packets, List.mem_append, List.mem_append, Option.mem_toList] at ha
  rw [packets, List.reduceOption_append, List.mem_append]
  rcases ha with ha | ha | ha
  · exact Or.inr (Or.inl ha)
  · exact Or.inl ha
  · exact Or.inr (Or.inr ha)

/-- The loop leaves nothing that was not there. -/
theorem receive_subset {polls : Nat} {m m' : Mailbox α} {a : α}
    (hrun : receive verdict polls m = some (a, m')) : m'.packets ⊆ m.packets := by
  induction polls generalizing m with
  | zero => cases hrun
  | succ polls ih =>
      have hpoll := polled_poll m
      rw [receive] at hrun
      rcases hm : m.poll with ⟨item, rest⟩
      rw [hm] at hrun hpoll
      have hrest := hpoll.packets_subset
      cases item with
      | none => exact List.Subset.trans (ih hrun) hrest
      | some b =>
          have hb : b ∈ m.packets := by
            rw [hpoll.packets_eq]
            exact List.mem_append_left _ (List.mem_singleton.mpr rfl)
          cases hverdict : verdict b with
          | take =>
              simp only [hverdict, Option.some.injEq, Prod.mk.injEq] at hrun
              rw [← hrun.2]
              exact hrest
          | keep =>
              simp only [hverdict] at hrun
              intro x hx
              rcases mem_push_packets (ih hrun hx) with hsame | hmem
              · rwa [← Option.some.inj hsame]
              · exact hrest hmem
          | lose =>
              simp only [hverdict] at hrun
              intro x hx
              rcases mem_push_packets (ih hrun hx) with hsame | hmem
              · cases hsame
              · exact hrest hmem

theorem find?_of_receive {polls : Nat} {m m' : Mailbox α} {a : α}
    (hrun : receive verdict polls m = some (a, m')) :
    m.packets.find? (fun a => verdict a = .take) = some a := by
  rw [← List.head?_filter]
  change (m.wanted verdict).head? = some a
  rw [receive_wanted hrun]
  rfl

theorem receive_taken {a : α} (ha : verdict a = .take) (polls : Nat)
    {m rest : Mailbox α} (hpoll : m.poll = (some a, rest)) :
    receive verdict (polls + 1) m = some (a, rest) := by
  simp [receive, hpoll, ha]

/-- What the loop goes on with after an item it does not take. -/
theorem receive_passed {item : Option α} (hitem : ∀ a ∈ item, verdict a ≠ .take)
    {m rest : Mailbox α} (hpoll : m.poll = (item, rest)) :
    ∃ next, (∀ polls, receive verdict (polls + 1) m = receive verdict polls next) ∧
      (next = rest ∧ item = none ∨
        (∃ a, item = some a ∧ verdict a = .keep ∧ next = rest.push (some a)) ∨
        ∃ a, item = some a ∧ verdict a = .lose ∧ next = rest.push none) := by
  cases item with
  | none => exact ⟨rest, fun polls => by simp [receive, hpoll], Or.inl ⟨rfl, rfl⟩⟩
  | some a =>
      cases ha : verdict a with
      | take => exact absurd ha (hitem a rfl)
      | keep =>
          exact ⟨rest.push (some a), fun polls => by simp [receive, hpoll, ha],
            Or.inr (Or.inl ⟨a, rfl, ha, rfl⟩)⟩
      | lose =>
          exact ⟨rest.push none, fun polls => by simp [receive, hpoll, ha],
            Or.inr (Or.inr ⟨a, rfl, ha, rfl⟩)⟩

/-- A wanted message in the queue is found, the queue going round until it is
in front. -/
theorem receive_of_queued {a : α} (ha : verdict a = .take) (before after : List (Option α))
    (socket : List (Option α)) : ∃ polls result,
      receive verdict polls ⟨before ++ some a :: after, socket⟩ = some result := by
  induction before generalizing after with
  | nil => exact ⟨1, _, receive_taken ha 0 rfl⟩
  | cons item before ih =>
      by_cases hitem : ∃ b ∈ item, verdict b = .take
      · obtain ⟨b, hb, htake⟩ := hitem
        rw [Option.mem_def] at hb
        subst hb
        exact ⟨1, _, receive_taken htake 0 rfl⟩
      · obtain ⟨next, hnext, hcases⟩ := receive_passed
          (m := ⟨item :: before ++ some a :: after, socket⟩)
          (fun b hb hbtake => hitem ⟨b, hb, hbtake⟩) rfl
        have hshape : ∃ after', next = ⟨before ++ some a :: after', socket⟩ := by
          rcases hcases with ⟨rfl, _⟩ | ⟨b, _, _, rfl⟩ | ⟨b, _, _, rfl⟩
          · exact ⟨after, rfl⟩
          · exact ⟨after ++ [some b], by simp [push]⟩
          · exact ⟨after ++ [none], by simp [push]⟩
        obtain ⟨after', rfl⟩ := hshape
        obtain ⟨polls, result, hrun⟩ := ih after'
        exact ⟨polls + 1, result, (hnext polls).trans hrun⟩

/-- The messages in front of the first wanted one. -/
def earlier (verdict : α → Verdict) (m : Mailbox α) : List α :=
  m.packets.takeWhile fun a => verdict a ≠ .take

/-- A message counts twice, since losing it leaves an empty item. -/
def weight (m : Mailbox α) : Nat :=
  m.queue.length + m.socket.length + m.packets.length

theorem Polled.weight_eq {m m' : Mailbox α} {item : Option α} (hpoll : Polled m item m')
    (hpackets : m.packets ≠ []) : weight m = weight m' + 1 + item.toList.length := by
  cases hpoll with
  | queued item queue socket =>
      cases item <;> simp only [weight, packets, List.length_cons, List.cons_append,
        List.reduceOption_cons_of_none, List.reduceOption_cons_of_some,
        Option.toList_none, Option.toList_some, List.length_nil] <;> omega
  | arrived item socket =>
      cases item <;> simp only [weight, packets, List.length_cons, List.nil_append,
        List.reduceOption_cons_of_none, List.reduceOption_cons_of_some, List.length_nil,
        Option.toList_none, Option.toList_some] <;> omega
  | idle => exact absurd rfl hpackets

@[simp]
theorem push_none_packets (m : Mailbox α) : (m.push none).packets = m.packets := by
  rw [push_packets, packets, List.reduceOption_append]
  rfl

theorem push_none_weight (m : Mailbox α) : weight (m.push none) = weight m + 1 := by
  rw [weight, push_none_packets, weight]
  simp only [push, List.length_append, List.length_singleton]
  omega

theorem earlier_cons {m m' : Mailbox α} {a : α} (ha : verdict a ≠ .take)
    (hpackets : m.packets = a :: m'.packets) :
    earlier verdict m = a :: earlier verdict m' := by
  rw [earlier, hpackets, List.takeWhile_cons_of_pos (by simpa using ha), earlier]

/-- Where nothing in front of a wanted message is kept, this is so of the mailbox that
one turn of the loop leaves, and less is left to pass. -/
theorem clear_of_passed {m rest next : Mailbox α} {item : Option α} (hpoll : Polled m item rest)
    (hwanted : ∃ a ∈ m.packets, verdict a = .take)
    (hclear : ∀ a ∈ earlier verdict m, verdict a ≠ .keep)
    (hcases : next = rest ∧ item = none ∨
      (∃ a, item = some a ∧ verdict a = .keep ∧ next = rest.push (some a)) ∨
      ∃ a, item = some a ∧ verdict a = .lose ∧ next = rest.push none) :
    weight next < weight m ∧ (∃ a ∈ next.packets, verdict a = .take) ∧
      ∀ a ∈ earlier verdict next, verdict a ≠ .keep := by
  have hpackets := hpoll.packets_eq
  have hne : m.packets ≠ [] := by
    obtain ⟨a, ha, _⟩ := hwanted
    exact List.ne_nil_of_mem ha
  have hdrop := hpoll.weight_eq hne
  rcases hcases with ⟨rfl, rfl⟩ | ⟨a, rfl, ha, _⟩ | ⟨a, rfl, ha, rfl⟩
  · simp only [Option.toList_none, List.nil_append] at hpackets
    refine ⟨?_, by rwa [hpackets] at hwanted, ?_⟩
    · simp only [Option.toList_none, List.length_nil] at hdrop
      omega
    · rwa [earlier, hpackets] at hclear
  · have hmem : a ∈ earlier verdict m := by
      rw [earlier_cons (by simp [ha]) hpackets]
      exact List.mem_cons_self
    exact absurd ha (hclear a hmem)
  · have hpassed : verdict a ≠ .take := by simp [ha]
    have hearlier := earlier_cons hpassed hpackets
    refine ⟨?_, ?_, ?_⟩
    · rw [push_none_weight]
      simp only [Option.toList_some, List.length_singleton] at hdrop
      omega
    · rw [push_none_packets]
      obtain ⟨b, hb, htake⟩ := hwanted
      rw [hpackets] at hb
      rcases List.mem_cons.mp hb with rfl | hb
      · rw [ha] at htake
        cases htake
      · exact ⟨b, hb, htake⟩
    · intro b hb
      rw [earlier, push_none_packets] at hb
      apply hclear b
      rw [hearlier]
      exact List.mem_cons_of_mem a hb

/-- If nothing in front of a wanted message is kept, the loop gets there. -/
theorem receive_of_clear {m : Mailbox α} (hwanted : ∃ a ∈ m.packets, verdict a = .take)
    (hclear : ∀ a ∈ earlier verdict m, verdict a ≠ .keep) :
    ∃ polls result, receive verdict polls m = some result := by
  induction hweight : weight m using Nat.strongRecOn generalizing m with
  | ind n ih =>
      have hpoll := polled_poll m
      rcases hm : m.poll with ⟨item, rest⟩
      rw [hm] at hpoll
      by_cases htaken : ∃ a ∈ item, verdict a = .take
      · obtain ⟨a, ha, htake⟩ := htaken
        rw [Option.mem_def] at ha
        subst ha
        exact ⟨1, _, receive_taken htake 0 hm⟩
      · obtain ⟨next, hnext, hcases⟩ :=
          receive_passed (fun a ha htake => htaken ⟨a, ha, htake⟩) hm
        obtain ⟨hlt, hwanted', hclear'⟩ := clear_of_passed hpoll hwanted hclear hcases
        obtain ⟨polls, result, hrun⟩ := ih (weight next) (hweight ▸ hlt) hwanted' hclear' rfl
        exact ⟨polls + 1, result, (hnext polls).trans hrun⟩

/-- A message is kept in front of the first wanted one, which is not queued. -/
def Stuck (verdict : α → Verdict) (m : Mailbox α) : Prop :=
  (∀ a, some a ∈ m.queue → verdict a ≠ .take) ∧
    ∃ a ∈ earlier verdict m, verdict a = .keep

/-- With nothing wanted in the queue, all of it comes earlier. -/
theorem mem_earlier_of_queued {m : Mailbox α}
    (hqueue : ∀ a, some a ∈ m.queue → verdict a ≠ .take) {a : α} (ha : some a ∈ m.queue) :
    a ∈ earlier verdict m := by
  have hall : ∀ b ∈ m.queue.reduceOption, decide (verdict b ≠ .take) = true := by
    intro b hb
    simpa using hqueue b (List.reduceOption_mem_iff.mp hb)
  rw [earlier, packets, List.reduceOption_append, List.takeWhile_append_of_pos hall]
  exact List.mem_append_left _ (List.reduceOption_mem_iff.mpr ha)

theorem Polled.queue_subset {m m' : Mailbox α} {item : Option α}
    (hpoll : Polled m item m') : m'.queue ⊆ m.queue := by
  cases hpoll with
  | queued item queue socket => exact List.subset_cons_self item queue
  | arrived item socket => exact List.Subset.refl _
  | idle => exact List.Subset.refl _

/-- A stuck loop serves its queue for ever. -/
theorem receive_of_stuck {m : Mailbox α} (hstuck : Stuck verdict m) (polls : Nat) :
    receive verdict polls m = none := by
  induction polls generalizing m with
  | zero => rfl
  | succ polls ih =>
      obtain ⟨hqueue, b, hb, hkeep⟩ := hstuck
      have hpoll := polled_poll m
      rcases hm : m.poll with ⟨item, rest⟩
      rw [hm] at hpoll
      have hpackets := hpoll.packets_eq
      have hpassed : ∀ a ∈ item, verdict a ≠ .take := by
        intro a ha htake
        rw [Option.mem_def] at ha
        subst ha
        rw [earlier, hpackets, Option.toList_some, List.singleton_append,
          List.takeWhile_cons_of_neg (by simp [htake])] at hb
        cases hb
      obtain ⟨next, hnext, hcases⟩ := receive_passed hpassed hm
      rw [hnext polls]
      apply ih
      have hrest : ∀ a, some a ∈ rest.queue → verdict a ≠ .take :=
        fun a ha => hqueue a (hpoll.queue_subset ha)
      rcases hcases with ⟨rfl, rfl⟩ | ⟨a, rfl, ha, rfl⟩ | ⟨a, rfl, ha, rfl⟩
      · refine ⟨hrest, b, ?_, hkeep⟩
        rwa [earlier, hpackets] at hb
      · have hnextQueue : ∀ c, some c ∈ (rest.push (some a)).queue → verdict c ≠ .take := by
          intro c hc
          rcases List.mem_append.mp hc with hc | hc
          · exact hrest c hc
          · rw [List.mem_singleton, Option.some.injEq] at hc
            simp [hc, ha]
        refine ⟨hnextQueue, a, mem_earlier_of_queued hnextQueue ?_, ha⟩
        exact List.mem_append_right _ (List.mem_singleton.mpr rfl)
      · refine ⟨?_, b, ?_, hkeep⟩
        · intro c hc
          rcases List.mem_append.mp hc with hc | hc
          · exact hrest c hc
          · cases List.mem_singleton.mp hc
        · rw [earlier_cons (by simp [ha]) hpackets] at hb
          rcases List.mem_cons.mp hb with rfl | hb
          · rw [ha] at hkeep
            cases hkeep
          · rwa [earlier, push_none_packets]

/-- With a wanted message somewhere, the loop returns the first one exactly if
one is queued already, or if nothing in front of the first one is kept. -/
theorem receive_first_iff {m : Mailbox α} {first : α}
    (hfirst : m.packets.find? (fun a => verdict a = .take) = some first) :
    (∃ polls rest, receive verdict polls m = some (first, rest)) ↔
      (∃ a, some a ∈ m.queue ∧ verdict a = .take) ∨
        ∀ a ∈ earlier verdict m, verdict a ≠ .keep := by
  have hreturns : ∀ polls result, receive verdict polls m = some result →
      ∃ polls rest, receive verdict polls m = some (first, rest) := by
    rintro polls ⟨a, rest⟩ hrun
    have hsame := find?_of_receive hrun
    rw [hfirst, Option.some.injEq] at hsame
    subst hsame
    exact ⟨polls, rest, hrun⟩
  constructor
  · rintro ⟨polls, rest, hrun⟩
    by_contra hneither
    rw [not_or] at hneither
    have hstuck : Stuck verdict m := by
      refine ⟨fun a ha htake => hneither.1 ⟨a, ha, htake⟩, ?_⟩
      by_contra hnone
      exact hneither.2 fun a ha hkeep => hnone ⟨a, ha, hkeep⟩
    rw [receive_of_stuck hstuck] at hrun
    cases hrun
  · rintro (⟨a, ha, htake⟩ | hclear)
    · obtain ⟨before, after, hqueue⟩ := List.append_of_mem ha
      obtain ⟨queue, socket⟩ := m
      simp only at hqueue
      subst hqueue
      obtain ⟨polls, result, hrun⟩ := receive_of_queued htake before after socket
      exact hreturns polls result hrun
    · have htake := List.find?_some hfirst
      have hmem := List.mem_of_find?_eq_some hfirst
      obtain ⟨polls, result, hrun⟩ :=
        receive_of_clear ⟨first, hmem, by simpa using htake⟩ hclear
      exact hreturns polls result hrun

/-- A loop that keeps whatever it does not want gets past nothing. -/
theorem receive_first_iff_of_keep (hkeep : ∀ a, verdict a = .take ∨ verdict a = .keep)
    {m : Mailbox α} {first : α}
    (hfirst : m.packets.find? (fun a => verdict a = .take) = some first) :
    (∃ polls rest, receive verdict polls m = some (first, rest)) ↔
      (∃ a, some a ∈ m.queue ∧ verdict a = .take) ∨ m.packets.head? = some first := by
  rw [receive_first_iff hfirst]
  apply or_congr Iff.rfl
  rw [earlier]
  cases hpackets : m.packets with
  | nil =>
      rw [hpackets] at hfirst
      cases hfirst
  | cons a rest =>
      rcases hkeep a with ha | ha
      · rw [hpackets, List.find?_cons_of_pos (by simpa using ha), Option.some.injEq] at hfirst
        subst hfirst
        simp [ha]
      · have htaken := List.find?_some hfirst
        constructor
        · intro hclear
          exact absurd ha (hclear a (by simp [ha]))
        · intro hhead
          rw [List.head?_cons, Option.some.injEq] at hhead
          subst hhead
          rw [decide_eq_true_eq, ha] at htaken
          cases htaken

end

end SelectiveReceive

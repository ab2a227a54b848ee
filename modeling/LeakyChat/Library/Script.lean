/-
Programs that wait for messages, cut at their waits.  A script is a list of
steps on a state and of waits, each of which goes on with the message it takes.
Run as a whole it finds what it waits for in the mailbox; otherwise it takes one
turn at a time, and messages arrive in between.  Whatever it comes to in turns,
the whole comes to on the mailbox with all that arrived in it from the start.
-/
import LeakyChat.Library.Program
import LeakyChat.Library.SelectiveReceive

namespace SelectiveReceive

universe u

variable {α : Type u}

/-- More has come to the socket. -/
def Mailbox.arrived (m : Mailbox α) (items : List (Option α)) : Mailbox α :=
  { m with socket := m.socket ++ items }

@[simp]
theorem arrived_nil (m : Mailbox α) : m.arrived [] = m := by
  simp [Mailbox.arrived]

theorem arrived_arrived (m : Mailbox α) (items more : List (Option α)) :
    (m.arrived items).arrived more = m.arrived (items ++ more) := by
  simp [Mailbox.arrived]

@[simp]
theorem arrived_push (m : Mailbox α) (items : List (Option α)) (item : Option α) :
    (m.arrived items).push item = (m.push item).arrived items := rfl

/-- A poll that finds an item finds it whatever comes behind it. -/
theorem poll_arrived {m rest : Mailbox α} {item : Option α} (hpoll : m.poll = (item, rest))
    (hfound : rest ≠ m) (items : List (Option α)) :
    (m.arrived items).poll = (item, rest.arrived items) := by
  have hpolled := polled_poll m
  rw [hpoll] at hpolled
  cases hpolled with
  | queued item queue socket => rfl
  | arrived item socket => rfl
  | idle => exact absurd rfl hfound

theorem rest_ne_of_some {m rest : Mailbox α} {a : α} (hpoll : m.poll = (some a, rest)) :
    rest ≠ m := by
  have hpolled := polled_poll m
  rw [hpoll] at hpolled
  cases hpolled with
  | queued item queue socket =>
      intro heq
      exact List.cons_ne_self _ _ (congrArg Mailbox.queue heq).symm
  | arrived item socket =>
      intro heq
      exact List.cons_ne_self _ _ (congrArg Mailbox.socket heq).symm

/-- A loop that has found its message finds it in more polls too. -/
theorem receive_more {verdict : α → Verdict} {polls : Nat} {m : Mailbox α}
    {result : α × Mailbox α} (hrun : receive verdict polls m = some result) (more : Nat) :
    receive verdict (polls + more) m = some result := by
  induction polls generalizing m with
  | zero => cases hrun
  | succ polls ih =>
      rw [Nat.add_right_comm]
      rw [receive] at hrun ⊢
      rcases hpoll : m.poll with ⟨item, rest⟩
      simp only [hpoll] at hrun ⊢
      cases item with
      | none => exact ih hrun
      | some a =>
          cases ha : verdict a with
          | take =>
              simp only [ha] at hrun ⊢
              exact hrun
          | keep =>
              simp only [ha] at hrun ⊢
              exact ih hrun
          | lose =>
              simp only [ha] at hrun ⊢
              exact ih hrun

end SelectiveReceive

open Program
open SelectiveReceive

/-- `step` is all a program does between two waits; `wait` names what it waits
for. -/
inductive Script (σ ε ω α β : Type) : Type 1
  | done (b : β)
  | step {γ : Type} (m : StateT σ (Except ε) γ) (next : γ → Script σ ε ω α β)
  | wait (goal : ω) (next : α → Script σ ε ω α β)

/-- The part of a state that is a mailbox. -/
structure MailSlot (σ α : Type) where
  mail : σ → Mailbox α
  put : σ → Mailbox α → σ
  mail_put : ∀ s m, mail (put s m) = m
  put_mail : ∀ s, put s (mail s) = s
  put_put : ∀ s m m', put (put s m) m' = put s m'

namespace Script

variable {σ ε ω α β γ : Type}

def bind : Script σ ε ω α β → (β → Script σ ε ω α γ) → Script σ ε ω α γ
  | done b, f => f b
  | step m next, f => step m fun c => (next c).bind f
  | wait goal next, f => wait goal fun a => (next a).bind f

section

variable (slot : MailSlot σ α) (verdict : ω → α → Verdict) (stuck : ε)

/-- The loop of a wait. -/
def await (polls : Nat) (goal : ω) : StateT σ (Except ε) α := fun s =>
  match receive (verdict goal) polls (slot.mail s) with
  | some (a, m) => .ok (a, slot.put s m)
  | none => .error stuck

/-- The whole program; each wait may poll so often. -/
def run (polls : Nat) : Script σ ε ω α β → StateT σ (Except ε) β
  | done b => pure b
  | step m next => m >>= fun c => (next c).run polls
  | wait goal next => await slot verdict stuck polls goal >>= fun a => (next a).run polls

/-- One turn: a step, or what a waiting loop does with one item. -/
inductive Turn : σ → Script σ ε ω α β → σ → Script σ ε ω α β → Prop
  | step {s t : σ} {γ : Type} {m : StateT σ (Except ε) γ} {next : γ → Script σ ε ω α β} {c : γ}
      (hrun : m s = .ok (c, t)) : Turn s (step m next) t (next c)
  | empty {s : σ} {goal : ω} {next : α → Script σ ε ω α β} {rest : Mailbox α}
      (hpoll : (slot.mail s).poll = (none, rest)) :
      Turn s (wait goal next) (slot.put s rest) (wait goal next)
  | take {s : σ} {goal : ω} {next : α → Script σ ε ω α β} {a : α} {rest : Mailbox α}
      (hpoll : (slot.mail s).poll = (some a, rest)) (hverdict : verdict goal a = .take) :
      Turn s (wait goal next) (slot.put s rest) (next a)
  | keep {s : σ} {goal : ω} {next : α → Script σ ε ω α β} {a : α} {rest : Mailbox α}
      (hpoll : (slot.mail s).poll = (some a, rest)) (hverdict : verdict goal a = .keep) :
      Turn s (wait goal next) (slot.put s (rest.push (some a))) (wait goal next)
  | lose {s : σ} {goal : ω} {next : α → Script σ ε ω α β} {a : α} {rest : Mailbox α}
      (hpoll : (slot.mail s).poll = (some a, rest)) (hverdict : verdict goal a = .lose) :
      Turn s (wait goal next) (slot.put s (rest.push none)) (wait goal next)

/-- Items arrive. -/
def arrive (items : List (Option α)) (s : σ) : σ := slot.put s ((slot.mail s).arrived items)

/-- A step that what arrives makes no difference to. -/
def Frames (m : StateT σ (Except ε) γ) : Prop :=
  ∀ s c t items, m s = .ok (c, t) → m (arrive slot items s) = .ok (c, arrive slot items t)

variable {slot} in
theorem Frames.bind {δ : Type} {m : StateT σ (Except ε) γ} {next : γ → StateT σ (Except ε) δ}
    (hm : Frames slot m) (hnext : ∀ c, Frames slot (next c)) : Frames slot (m >>= next) := by
  intro s d t items hrun
  obtain ⟨c, s', hfirst, hlast⟩ := of_run_bind hrun
  exact (run_bind (hm s c s' items hfirst)).trans (hnext c s' d t items hlast)

theorem Frames.pure (c : γ) : Frames slot (Pure.pure c : StateT σ (Except ε) γ) := by
  intro s d t items hrun
  cases hrun
  rfl

variable {slot} in
theorem Frames.ite {p : Prop} [Decidable p] {m m' : StateT σ (Except ε) γ} (hm : Frames slot m)
    (hm' : Frames slot m') : Frames slot (if p then m else m') := by
  by_cases hp : p
  · rwa [if_pos hp]
  · rwa [if_neg hp]

/-- All steps of a script are of this kind. -/
def Framed : Script σ ε ω α β → Prop
  | done _ => True
  | step m next => Frames slot m ∧ ∀ c, (next c).Framed
  | wait _ next => ∀ a, (next a).Framed

/-- What a script comes to if its waits may poll often enough. -/
def Completes (s : σ) (p : Script σ ε ω α β) (b : β) (t : σ) : Prop :=
  ∃ polls, p.run slot verdict stuck polls s = .ok (b, t)

variable {slot verdict stuck} {s t : σ} {p q : Script σ ε ω α β} {b : β} {polls : Nat}

theorem run_bind_script (p : Script σ ε ω α β) (f : β → Script σ ε ω α γ) :
    (p.bind f).run slot verdict stuck polls =
      p.run slot verdict stuck polls >>= fun b => (f b).run slot verdict stuck polls := by
  induction p with
  | done b => simp [bind, run]
  | step m next ih => simp only [bind, run, bind_assoc, ih]
  | wait goal next ih => simp only [bind, run, bind_assoc, ih]

theorem Framed.bind {f : β → Script σ ε ω α γ} (hp : p.Framed slot)
    (hf : ∀ b, (f b).Framed slot) : (p.bind f).Framed slot := by
  induction p with
  | done b => exact hf b
  | step m next ih => exact ⟨hp.1, fun c => ih c (hp.2 c)⟩
  | wait goal next ih => exact fun a => ih a (hp a)

theorem Framed.ite {c : Prop} [Decidable c] (hp : c → p.Framed slot) (hq : ¬ c → q.Framed slot) :
    (if c then p else q).Framed slot := by
  by_cases hc : c
  · rw [if_pos hc]
    exact hp hc
  · rw [if_neg hc]
    exact hq hc

@[simp]
theorem arrive_put (items : List (Option α)) (m : Mailbox α) :
    arrive slot items (slot.put s m) = slot.put s (m.arrived items) := by
  rw [arrive, slot.mail_put, slot.put_put]

@[simp]
theorem arrive_nil (s : σ) : arrive slot [] s = s := by
  rw [arrive, arrived_nil, slot.put_mail]

theorem arrive_arrive (items more : List (Option α)) (s : σ) :
    arrive slot more (arrive slot items s) = arrive slot (items ++ more) s := by
  simp only [arrive, slot.mail_put, slot.put_put, arrived_arrived]

theorem mail_arrive (items : List (Option α)) (s : σ) :
    slot.mail (arrive slot items s) = (slot.mail s).arrived items := slot.mail_put _ _

theorem await_ok {goal : ω} {a : α} {m : Mailbox α}
    (hreceive : receive (verdict goal) polls (slot.mail s) = some (a, m)) :
    await slot verdict stuck polls goal s = .ok (a, slot.put s m) := by
  rw [await, hreceive]

theorem of_await_ok {goal : ω} {a : α}
    (hrun : await slot verdict stuck polls goal s = .ok (a, t)) :
    ∃ m, receive (verdict goal) polls (slot.mail s) = some (a, m) ∧ t = slot.put s m := by
  unfold await at hrun
  cases hreceive : receive (verdict goal) polls (slot.mail s) with
  | none =>
      rw [hreceive] at hrun
      cases hrun
  | some result =>
      rw [hreceive] at hrun
      cases hrun
      exact ⟨_, rfl, rfl⟩

theorem run_more (hrun : p.run slot verdict stuck polls s = .ok (b, t)) (more : Nat) :
    p.run slot verdict stuck (polls + more) s = .ok (b, t) := by
  induction p generalizing s with
  | done b => exact hrun
  | step m next ih =>
      obtain ⟨c, s', hstep, hrest⟩ := of_run_bind hrun
      exact (run_bind hstep).trans (ih c hrest)
  | wait goal next ih =>
      obtain ⟨a, s', hwait, hrest⟩ := of_run_bind hrun
      obtain ⟨m, hreceive, rfl⟩ := of_await_ok hwait
      exact (run_bind (await_ok (receive_more hreceive more))).trans (ih a hrest)

/-- A wait that goes on with the mailbox `rest` polls once more with the one it
came from. -/
theorem completes_of_passed {goal : ω} {next : α → Script σ ε ω α β} {m rest : Mailbox α}
    (hpassed : ∀ polls, receive (verdict goal) (polls + 1) m = receive (verdict goal) polls rest)
    (hdone : Completes slot verdict stuck (slot.put s rest) (wait goal next) b t) :
    Completes slot verdict stuck (slot.put s m) (wait goal next) b t := by
  obtain ⟨polls, hrun⟩ := hdone
  obtain ⟨a, s', hwait, hrest⟩ := of_run_bind hrun
  obtain ⟨m', hreceive, rfl⟩ := of_await_ok hwait
  rw [slot.mail_put] at hreceive
  rw [slot.put_put] at hrest
  have hlonger : receive (verdict goal) (polls + 1) (slot.mail (slot.put s m)) = some (a, m') := by
    rw [slot.mail_put, hpassed, hreceive]
  refine ⟨polls + 1, (run_bind (await_ok hlonger)).trans ?_⟩
  rw [slot.put_put]
  exact run_more hrest 1

/-- What a script comes to after a turn, it comes to before it, with anything
that may arrive later. -/
theorem Turn.completes (hturn : Turn slot verdict s p t q) (hp : p.Framed slot)
    {items : List (Option α)} {u : σ}
    (hdone : Completes slot verdict stuck (arrive slot items t) q b u) :
    Completes slot verdict stuck (arrive slot items s) p b u := by
  cases hturn with
  | step hrun =>
      obtain ⟨polls, hrest⟩ := hdone
      exact ⟨polls, (run_bind (hp.1 _ _ _ items hrun)).trans hrest⟩
  | @empty goal next rest hpoll =>
      rw [arrive_put] at hdone
      by_cases hsame : rest = slot.mail s
      · rwa [hsame] at hdone
      · refine completes_of_passed (fun polls => ?_) hdone
        rw [receive, poll_arrived hpoll hsame]
  | @take goal next a rest hpoll hverdict =>
      obtain ⟨polls, hrest⟩ := hdone
      rw [arrive_put] at hrest
      have hfound := poll_arrived hpoll (rest_ne_of_some hpoll) items
      have hreceive := receive_taken hverdict polls hfound
      rw [← mail_arrive] at hreceive
      refine ⟨polls + 1, (run_bind (await_ok hreceive)).trans ?_⟩
      rw [arrive, slot.put_put]
      exact run_more hrest 1
  | @keep goal next a rest hpoll hverdict =>
      rw [arrive_put, ← arrived_push] at hdone
      refine completes_of_passed (fun polls => ?_) hdone
      rw [receive, poll_arrived hpoll (rest_ne_of_some hpoll)]
      simp only [hverdict]
  | @lose goal next a rest hpoll hverdict =>
      rw [arrive_put, ← arrived_push] at hdone
      refine completes_of_passed (fun polls => ?_) hdone
      rw [receive, poll_arrived hpoll (rest_ne_of_some hpoll)]
      simp only [hverdict]

/-- A turn leaves a script of framed steps. -/
theorem Turn.framed (hturn : Turn slot verdict s p t q) (hp : p.Framed slot) : q.Framed slot := by
  cases hturn with
  | step hrun => exact hp.2 _
  | take hpoll hverdict => exact hp _
  | _ => exact hp

end

end Script

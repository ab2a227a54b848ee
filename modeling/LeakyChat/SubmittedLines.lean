/-
What becomes of a line that is neither a command nor addressed to anyone.  It is
put behind `@`, the partner and a space and taken apart again at the first
space, which is the right one unless the partner has a space in it.
-/
import LeakyChat.Library.Transition
import LeakyChat.UserInterface

namespace LeakyChat

open Transition

namespace UI

namespace Typing

/-- A line is typed and submitted. -/
def submit (ui : Typing) (line : Str) : Except Fault (Typing × List Effect) :=
  { ui with input := .ofText line }.submitInput

/-- The lines submitted one after another; `submitInput` throws where a text gets
too long. -/
def lines : System Typing Str where
  init ui := ui = fresh.typing
  step ui line ui' := ∃ effects, ui.submit line = .ok (ui', effects)

/-- One message goes out, the line as it is, to the partner, who stays selected. -/
def Delivers (ui : Typing) (line : Str) : Prop :=
  ∃ ui' request, ui.submit line = .ok (ui', [.addRequest request]) ∧
    request.type = .sendMessage ∧ request.username = ui.selectedPartner ∧
    request.message = line ∧ ui'.selectedPartner = ui.selectedPartner

/-- A line that is neither a command nor addressed. -/
def Ordinary (line : Str) : Prop :=
  line.1 ≠ [] ∧ line.1.head? ≠ some 47 ∧ line.1.head? ≠ some 64

/-- The text made of the partner and the line is not too long for a string. -/
def Fits (ui : Typing) (line : Str) : Prop :=
  ui.selectedPartner.1.length + line.1.length + 2 ≤ maxSize

variable {ui ui' : Typing}

theorem findIdx?_first {front rest : List UInt8} (hfront : 32 ∉ front) :
    (front ++ 32 :: rest).findIdx? (· = 32) = some front.length := by
  have hnone : front.findIdx? (· = 32) = none := by
    rw [List.findIdx?_eq_none_iff]
    intro c hc
    exact decide_eq_false (ne_of_mem_of_not_mem hc hfront)
  rw [List.findIdx?_append, hnone]
  simp [List.findIdx?_cons]

/-- The recipient ends at the first space, and what follows it is the message. -/
theorem handleMessage_spaced (ui : Typing) {input : Str} (recipient message : Str)
    (hinput : input.1 = 64 :: (recipient.1 ++ 32 :: message.1)) (hspace : 32 ∉ recipient.1)
    (hrecipient : recipient.1 ≠ []) (hmessage : message.1 ≠ []) :
    ui.handleMessage input =
      { ui with selectedPartner := recipient }.ask .sendMessage recipient message := by
  have hfirst : input.1.findIdx? (· = 32) = some (recipient.1.length + 1) := by
    have hat : (32 : UInt8) ∉ 64 :: recipient.1 := by simp [hspace]
    rw [hinput, ← List.cons_append, findIdx?_first hat, List.length_cons]
  have hlength : 0 < recipient.1.length := List.length_pos_iff.mpr hrecipient
  have htake : (input.drop 1).take (recipient.1.length + 1 - 1) = recipient := by
    apply Subtype.ext
    simp [Str.drop, Str.take, hinput]
  have hdrop : input.drop (recipient.1.length + 1 + 1) = message := by
    apply Subtype.ext
    simp [Str.drop, hinput]
  have hat : input.1.head? = some 64 := by rw [hinput, List.head?_cons]
  simp only [handleMessage, hat, hfirst, htake, hdrop, if_neg hmessage, ne_eq, not_true_eq_false,
    ↓reduceIte]
  rw [if_neg (by omega)]

/-- With a space right behind the `@` nothing happens. -/
theorem handleMessage_nobody (ui : Typing) {input : Str} (rest : List UInt8)
    (hinput : input.1 = 64 :: 32 :: rest) : ui.handleMessage input = (ui, []) := by
  have hat : input.1.head? = some 64 := by rw [hinput, List.head?_cons]
  have hfirst : input.1.findIdx? (· = 32) = some 1 := by
    rw [hinput]
    rfl
  simp only [handleMessage, hat, hfirst, ne_eq, not_true_eq_false, ↓reduceIte, Nat.le_refl]

/-- A message selects nobody with a space in the name. -/
theorem handleMessage_partner (ui : Typing) (input : Str) :
    (ui.handleMessage input).1.selectedPartner = ui.selectedPartner ∨
      32 ∉ (ui.handleMessage input).1.selectedPartner.1 := by
  unfold handleMessage
  split
  · exact Or.inl rfl
  · cases hfirst : input.1.findIdx? (· = 32) with
    | none =>
        right
        rw [List.findIdx?_eq_none_iff] at hfirst
        intro hmem
        have hno := hfirst 32 (List.mem_of_mem_drop hmem)
        simp at hno
    | some space =>
        dsimp only
        split
        · exact Or.inl rfl
        · split
          · exact Or.inl rfl
          · right
            rw [List.findIdx?_eq_some_iff_getElem] at hfirst
            obtain ⟨_, _, hbefore⟩ := hfirst
            intro hmem
            obtain ⟨i, hi, hget⟩ := List.mem_iff_getElem.mp hmem
            simp only [ask, Str.take, Str.drop, List.length_take, List.length_drop,
              lt_inf_iff] at hi
            have hno := hbefore (1 + i) (by omega)
            simp only [ask, Str.take, Str.drop, List.getElem_take, List.getElem_drop] at hget
            simp [hget] at hno

theorem submit_ordinary {line : Str} (hline : Ordinary line)
    (hpartner : ui.selectedPartner.1 ≠ []) :
    ui.submit line =
      (Str.ofBytes (64 :: (ui.selectedPartner.1 ++ 32 :: line.1))).bind fun addressed =>
        .ok ({ ui with input := .empty }.handleMessage addressed) := by
  obtain ⟨hne, hslash, hat⟩ := hline
  have htext : (InputLine.ofText line).text = line := rfl
  simp only [submit, submitInput, htext, if_neg hne, if_neg hslash, if_neg hat, if_pos hpartner]
  rw [show ascii "@" = [64] by decide, show ascii " " = [32] by decide, List.append_assoc,
    List.append_assoc]
  rfl

theorem addressed_length (ui : Typing) (line : Str) :
    (64 :: (ui.selectedPartner.1 ++ 32 :: line.1)).length =
      ui.selectedPartner.1.length + line.1.length + 2 := by
  simp
  omega

/-- What was typed comes after the partner's name and a space, if all of it fits. -/
theorem submit_fits {line : Str} (hline : Ordinary line) (hpartner : ui.selectedPartner.1 ≠ [])
    (hfits : ui.Fits line) :
    ui.submit line = .ok ({ ui with input := .empty }.handleMessage
      ⟨64 :: (ui.selectedPartner.1 ++ 32 :: line.1),
        (addressed_length ui line).trans_le hfits⟩) := by
  rw [submit_ordinary hline hpartner, Str.ofBytes, dif_pos]
  rfl

/-- The text is taken apart at the space in the partner's name. -/
theorem not_delivers_spaced {line : Str} (hline : Ordinary line)
    (hpartner : ui.selectedPartner.1 ≠ []) (hfits : ui.Fits line)
    (hspace : (32 : UInt8) ∈ ui.selectedPartner.1) : ¬ ui.Delivers line := by
  obtain ⟨name, more, hname, hfirst⟩ := List.eq_append_cons_of_mem hspace
  rw [Delivers, submit_fits hline hpartner hfits]
  rintro ⟨ui', request, hsent, _, husername, _, _⟩
  rw [Except.ok.injEq] at hsent
  cases name with
  | nil =>
      rw [handleMessage_nobody _ (more ++ 32 :: line.1) (by simp [hname])] at hsent
      cases hsent
  | cons c name =>
      have hsize := (addressed_length ui line).trans_le hfits
      rw [hname] at hsize
      simp only [List.length_cons, List.length_append] at hsize
      have hrecipient : (c :: name).length ≤ maxSize := by
        rw [List.length_cons]
        omega
      have hmessage : (more ++ 32 :: line.1).length ≤ maxSize := by
        rw [List.length_append, List.length_cons]
        omega
      rw [handleMessage_spaced _ ⟨c :: name, hrecipient⟩ ⟨more ++ 32 :: line.1, hmessage⟩
        (by simp [hname]) hfirst (by simp) (by simp)] at hsent
      simp only [ask, Prod.mk.injEq, List.cons.injEq, Effect.addRequest.injEq] at hsent
      obtain ⟨_, rfl, _⟩ := hsent
      have hsame := congrArg (fun s : Str => s.1.length) husername
      rw [hname] at hsame
      simp at hsame

/-- An ordinary line goes to the partner exactly if there is no space in the
partner's name and the text made of both is not too long. -/
theorem delivers_iff {line : Str} (hline : Ordinary line) (hpartner : ui.selectedPartner.1 ≠ []) :
    ui.Delivers line ↔ 32 ∉ ui.selectedPartner.1 ∧ ui.Fits line := by
  by_cases hfits : ui.Fits line
  · by_cases hspace : (32 : UInt8) ∈ ui.selectedPartner.1
    · exact iff_of_false (not_delivers_spaced hline hpartner hfits hspace)
        fun hboth => hboth.1 hspace
    · refine iff_of_true ?_ ⟨hspace, hfits⟩
      rw [Delivers, submit_fits hline hpartner hfits,
        handleMessage_spaced _ ui.selectedPartner line rfl hspace hpartner hline.1]
      exact ⟨_, _, rfl, rfl, rfl, rfl, rfl⟩
  · refine iff_of_false ?_ fun hboth => hfits hboth.2
    have hlong : Str.ofBytes (64 :: (ui.selectedPartner.1 ++ 32 :: line.1)) =
        .error .lengthError := dif_neg (by rwa [addressed_length])
    rw [Delivers, submit_ordinary hline hpartner, hlong]
    rintro ⟨_, _, ⟨⟩, _⟩

/-- The line is no `/chat` with a space in the name. -/
def NamesOne (line : Str) : Prop :=
  (ascii "/chat ").isPrefixOf line.1 = true → 32 ∉ (line.drop 6).1

theorem handleCommand_partner (ui : Typing) {line : Str} (hline : NamesOne line) :
    (ui.handleCommand line).1.selectedPartner = ui.selectedPartner ∨
      32 ∉ (ui.handleCommand line).1.selectedPartner.1 := by
  unfold handleCommand
  by_cases hquit : line.1 = ascii "/quit"
  · rw [if_pos hquit]
    exact Or.inl rfl
  rw [if_neg hquit]
  by_cases hwho : line.1 = ascii "/who"
  · rw [if_pos hwho]
    exact Or.inl rfl
  rw [if_neg hwho]
  by_cases hlogin : (ascii "/login ").isPrefixOf line.1 = true
  · rw [if_pos hlogin]
    left
    dsimp only
    split <;> rfl
  rw [if_neg hlogin]
  by_cases hchat : (ascii "/chat ").isPrefixOf line.1 = true
  · rw [if_pos hchat]
    dsimp only
    split
    · exact Or.inl rfl
    · exact Or.inr (hline hchat)
  rw [if_neg hchat]
  left
  split
  · dsimp only
    split <;> rfl
  · rfl

/-- No line puts a space into the partner's name, other than `/chat`. -/
theorem submit_partner {line : Str} {effects : List Effect} (hui : 32 ∉ ui.selectedPartner.1)
    (hline : NamesOne line) (hsubmit : ui.submit line = .ok (ui', effects)) :
    32 ∉ ui'.selectedPartner.1 := by
  have hkept : ∀ {result : Typing × List Effect}, result.1.selectedPartner = ui.selectedPartner ∨
      32 ∉ result.1.selectedPartner.1 → result = (ui', effects) → 32 ∉ ui'.selectedPartner.1 := by
    rintro _ hresult rfl
    rcases hresult with hsame | hnone
    · exact hsame ▸ hui
    · exact hnone
  unfold submit submitInput at hsubmit
  dsimp only at hsubmit
  split at hsubmit
  · exact hkept (Or.inl rfl) (Except.ok.inj hsubmit)
  split at hsubmit
  · exact hkept (handleCommand_partner { ui with input := .empty } hline) (Except.ok.inj hsubmit)
  split at hsubmit
  · exact hkept (handleMessage_partner { ui with input := .empty } _) (Except.ok.inj hsubmit)
  split at hsubmit
  · cases haddressed : Str.ofBytes (ascii "@" ++ ui.selectedPartner.1 ++ ascii " " ++
        (InputLine.ofText line).text.1) with
    | error fault =>
        rw [haddressed] at hsubmit
        cases hsubmit
    | ok addressed =>
        rw [haddressed] at hsubmit
        exact hkept (handleMessage_partner { ui with input := .empty } _) (Except.ok.inj hsubmit)
  · exact hkept (Or.inl rfl) (Except.ok.inj hsubmit)

theorem partner_of_reachable (hreach : Reachable (lines.restrict fun _ line => NamesOne line) ui) :
    32 ∉ ui.selectedPartner.1 := by
  apply hreach.invariant
  · rintro _ rfl
    exact List.not_mem_nil
  · rintro ui line ui' hui ⟨⟨effects, hsubmit⟩, hline⟩
    exact submit_partner hui hline hsubmit

/-- An ordinary line goes to the partner that is selected exactly if there is no
space in the name and the two are not too long together; and in a state reached
without a `/chat` that puts a space there, exactly if they are not too long. -/
theorem ordinary_delivers_iff (hpartner : ui.selectedPartner.1 ≠ []) {line : Str}
    (hline : Ordinary line) :
    (ui.Delivers line ↔ 32 ∉ ui.selectedPartner.1 ∧ ui.Fits line) ∧
    (Reachable (lines.restrict fun _ line => NamesOne line) ui →
      (ui.Delivers line ↔ ui.Fits line)) := by
  refine ⟨delivers_iff hline hpartner, ?_⟩
  intro hnames
  rw [delivers_iff hline hpartner]
  exact and_iff_right (partner_of_reachable hnames)

/-- `/chat bob` and `/chat a b`. -/
def chatBob : Str := ⟨[47, 99, 104, 97, 116, 32, 98, 111, 98], by decide⟩

def chatSpaced : Str := ⟨[47, 99, 104, 97, 116, 32, 97, 32, 98], by decide⟩

/-- `yo`. -/
def sampleLine : Str := ⟨[121, 111], by decide⟩

theorem ordinary_sampleLine : Ordinary sampleLine := by
  unfold Ordinary
  decide

theorem ordinary_delivers_iff_sample : ∃ ui, Reachable lines ui ∧
    ui.selectedPartner = chatBob.drop 6 ∧ ui.Delivers sampleLine := by
  have hstep : lines.step fresh.typing chatBob
      { fresh.typing with selectedPartner := chatBob.drop 6 } := ⟨_, rfl⟩
  have hnames : NamesOne chatBob := by
    intro _
    decide
  have hreach : Reachable (lines.restrict fun _ line => NamesOne line)
      { fresh.typing with selectedPartner := chatBob.drop 6 } :=
    ⟨_, _, rfl, Run.cons ⟨hstep, hnames⟩ (Run.nil _)⟩
  refine ⟨_, hreach.of_restrict, rfl, ?_⟩
  have hpartner : (chatBob.drop 6).1 ≠ [] := by decide
  apply ((ordinary_delivers_iff hpartner ordinary_sampleLine).2 hreach).mpr
  unfold Fits
  decide

/-- With `a b` selected, `yo` goes to `a` as `b yo`. -/
theorem ordinary_misdelivered : ∃ ui, Reachable lines ui ∧
    ui.selectedPartner.1 = [97, 32, 98] ∧ Ordinary sampleLine ∧
    (∃ ui' request, ui.submit sampleLine = .ok (ui', [.addRequest request]) ∧
      request.username.1 = [97] ∧ request.message.1 = [98, 32, 121, 111] ∧
      ui'.selectedPartner.1 = [97]) ∧
    ¬ ui.Delivers sampleLine := by
  have hstep : lines.step fresh.typing chatSpaced
      { fresh.typing with selectedPartner := chatSpaced.drop 6 } := ⟨_, rfl⟩
  refine ⟨_, (Reachable.of_init rfl).step hstep, rfl, ordinary_sampleLine,
    ⟨_, _, rfl, rfl, rfl, rfl⟩, ?_⟩
  rw [delivers_iff ordinary_sampleLine (by decide)]
  exact fun hboth => hboth.1 (by decide)

end Typing

end UI

end LeakyChat

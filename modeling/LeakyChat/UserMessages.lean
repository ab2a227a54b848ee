/-
What the handlers of the UI thread add to the messages.  A handler that queues a
request adds the line for it right before; apart from the messages it is the
handler of `UserInterface`.
-/
import LeakyChat.UserInterface

namespace LeakyChat

open UI (Effect Typing)

/-- `client_impl::Message`; `Message({}, text)` has the number 0, not none. -/
structure Message where
  id : Option SequenceNo
  sender : List UInt8
  text : List UInt8
  failed : Bool
deriving DecidableEq

namespace Message

def ofText (text : List UInt8) : Message := ⟨none, [], text, false⟩

def numbered (id : SequenceNo) (text : List UInt8) : Message := ⟨some id, [], text, false⟩

end Message

namespace UI

/-- What a handler of the UI thread does, its messages included. -/
inductive Act where
  | addMessage (msg : Message)
  | effect (effect : Effect)
deriving DecidableEq

/-- What a handler shares with the client thread. -/
def Act.effects (acts : List Act) : List Effect :=
  acts.filterMap fun act =>
    match act with
    | .addMessage _ => none
    | .effect shared => some shared

/-- The requests that are still to be queued. -/
def Act.requests (acts : List Act) : List ClientRequest :=
  acts.filterMap fun act =>
    match act with
    | .effect (.addRequest request) => some request
    | _ => none

namespace Typing

/-- A request under the next number, and the line for it. -/
def askNoted (ui : Typing) (type : ClientRequest.Kind) (username message : Str)
    (line : SequenceNo → Message) : Typing × List Act :=
  ({ ui with nextRequestId := ui.nextRequestId + 1 },
    [.addMessage (line ui.nextRequestId),
      .effect (.addRequest ⟨type, ui.nextRequestId, username, message⟩)])

def noteCommand (ui : Typing) (input : Str) : Typing × List Act :=
  if input.1 = ascii "/quit" then
    let (ui, acts) := ui.askNoted .quit .empty .empty fun _ => .numbered 0 input.1
    (ui, acts ++ [.effect .clearRunning])
  else if input.1 = ascii "/who" then
    ui.askNoted .getUsers .empty .empty fun id => .numbered id input.1
  else if (ascii "/login ").isPrefixOf input.1 then
    let username := input.drop 7
    if username.1 = [] then (ui, [])
    else ui.askNoted .login username .empty fun id => .numbered id input.1
  else if (ascii "/chat ").isPrefixOf input.1 then
    let username := input.drop 6
    let acts := [.addMessage (.numbered 0 input.1)]
    if username.1 = [] then (ui, acts) else ({ ui with selectedPartner := username }, acts)
  else if (ascii "/e2e ").isPrefixOf input.1 then
    let username := input.drop 5
    if username.1 = [] then (ui, [])
    else ui.askNoted .e2e username .empty fun id => .numbered id input.1
  else
    (ui, [.addMessage (.numbered 0 (ascii "\x1b[31m" ++ input.1 ++ ascii "\x1b[0m"))])

def noteMessage (ui : Typing) (input : Str) : Typing × List Act :=
  if input.1.head? ≠ some 64 then (ui, [])
  else
    match input.1.findIdx? (· = 32) with
    | none => ({ ui with selectedPartner := input.drop 1 }, [])
    | some space =>
        if space ≤ 1 then (ui, [])
        else
          let recipient := (input.drop 1).take (space - 1)
          let message := input.drop (space + 1)
          if message.1 = [] then (ui, [])
          else
            { ui with selectedPartner := recipient }.askNoted .sendMessage recipient message
              fun id => ⟨some id, ascii "You", message.1, false⟩

def noteInput (ui : Typing) : Except Fault (Typing × List Act) :=
  let input := ui.input.text
  if input.1 = [] then .ok (ui, [])
  else
    let ui := { ui with input := .empty }
    if input.1.head? = some 47 then .ok (ui.noteCommand input)
    else if input.1.head? = some 64 then .ok (ui.noteMessage input)
    else if ui.selectedPartner.1 ≠ [] then do
      let addressed ← Str.ofBytes (ascii "@" ++ ui.selectedPartner.1 ++ ascii " " ++ input.1)
      return ui.noteMessage addressed
    else .ok (ui, [.addMessage (.ofText (ascii "No chat partner selected"))])

/-- All that `handleKey` does; only `submitInput` adds messages. -/
def noteKey (ui : Typing) (c : UInt8) : Except Fault (Typing × List Act) :=
  if c = 10 ∨ c = 13 then ui.noteInput
  else do
    let (ui, effects) ← ui.handleKey c
    return (ui, effects.map .effect)

end Typing

end UI

namespace UI.Typing

/-- Apart from the messages, the handlers are those of `UserInterface`. -/
def unnoted (result : Typing × List Act) : Typing × List Effect :=
  (result.1, Act.effects result.2)

theorem unnoted_ite {p : Prop} [Decidable p] (first second : Typing × List Act) :
    unnoted (if p then first else second) = if p then unnoted first else unnoted second :=
  apply_ite unnoted p first second

theorem unnoted_noteCommand (ui : Typing) (input : Str) :
    unnoted (ui.noteCommand input) = ui.handleCommand input := by
  simp only [noteCommand, handleCommand, unnoted_ite]
  rfl

theorem unnoted_noteMessage (ui : Typing) (input : Str) :
    unnoted (ui.noteMessage input) = ui.handleMessage input := by
  unfold noteMessage handleMessage
  split
  · rfl
  · cases input.1.findIdx? (· = 32) with
    | none => rfl
    | some space =>
        simp only [unnoted_ite]
        rfl

theorem unnoted_noteInput (ui : Typing) : ui.noteInput.map unnoted = ui.submitInput := by
  unfold noteInput submitInput
  dsimp only
  split
  · rfl
  split
  · exact congrArg Except.ok (unnoted_noteCommand _ _)
  split
  · exact congrArg Except.ok (unnoted_noteMessage _ _)
  split
  · cases Str.ofBytes (ascii "@" ++ ui.selectedPartner.1 ++ ascii " " ++ ui.input.text.1) with
    | error fault => rfl
    | ok addressed => exact congrArg Except.ok (unnoted_noteMessage _ _)
  · rfl

theorem effects_map (effects : List Effect) : Act.effects (effects.map .effect) = effects := by
  rw [Act.effects, List.filterMap_map]
  exact List.filterMap_some

theorem unnoted_noteKey (ui : Typing) (c : UInt8) :
    (ui.noteKey c).map unnoted = ui.handleKey c := by
  unfold noteKey
  split
  · rename_i hsubmit
    rw [unnoted_noteInput, handleKey, if_pos hsubmit]
  · cases ui.handleKey c with
    | error fault => rfl
    | ok result => exact congrArg (fun effects => Except.ok (result.1, effects)) (effects_map _)

end UI.Typing

/-- The line that is added for a request. -/
def ClientRequest.line (request : ClientRequest) : Message :=
  match request.type with
  | .login => .numbered request.id (ascii "/login " ++ request.username.1)
  | .sendMessage => ⟨some request.id, ascii "You", request.message.1, false⟩
  | .getUsers => .numbered request.id (ascii "/who")
  | .e2e => .numbered request.id (ascii "/e2e " ++ request.username.1)
  | .quit => .numbered 0 (ascii "/quit")

/-- It has a number, other than that of `Message({}, text)`. -/
def Message.keyed (msg : Message) : Bool := msg.id.any (· ≠ 0)

namespace UI

/-- What can be left of a handler that has added the line of this request, or of none: the
request comes right behind its line. -/
inductive Act.Rest : List Act → Option ClientRequest → Prop
  | nil : Rest [] none
  | effect {acts : List Act} {shared : Effect} (hshared : Act.requests [.effect shared] = [])
      (hrest : Rest acts none) : Rest (.effect shared :: acts) none
  | addMessage {acts : List Act} {msg : Message} (hmsg : msg.keyed = false)
      (hrest : Rest acts none) : Rest (.addMessage msg :: acts) none
  | addRequest {acts : List Act} (request : ClientRequest) (hrest : Rest acts none) :
      Rest (.effect (.addRequest request) :: acts) (some request)
  | line {acts : List Act} {request : ClientRequest} (hrest : Rest acts (some request)) :
      Rest (.addMessage request.line :: acts) none

namespace Typing

/-- A handler queues one request at most, under the next number. -/
structure Asks (ui : Typing) (result : Typing × List Act) : Prop where
  rest : Act.Rest result.2 none
  requests : (result.1.nextRequestId = ui.nextRequestId ∧ Act.requests result.2 = []) ∨
    (result.1.nextRequestId = ui.nextRequestId + 1 ∧
      ∃ request, Act.requests result.2 = [request] ∧ request.id = ui.nextRequestId)

variable {ui : Typing}

theorem asks_nothing {ui' : Typing} (hnext : ui'.nextRequestId = ui.nextRequestId) :
    Asks ui (ui', []) :=
  ⟨Act.Rest.nil, Or.inl ⟨hnext, rfl⟩⟩

theorem asks_message {ui' : Typing} {msg : Message} (hmsg : msg.keyed = false)
    (hnext : ui'.nextRequestId = ui.nextRequestId) : Asks ui (ui', [.addMessage msg]) :=
  ⟨Act.Rest.addMessage hmsg Act.Rest.nil, Or.inl ⟨hnext, rfl⟩⟩

/-- A request is queued behind its line. -/
theorem asks_askNoted {ui' : Typing} {type : ClientRequest.Kind} {username message : Str}
    {line : SequenceNo → Message} {more : List Act} (hnext : ui'.nextRequestId = ui.nextRequestId)
    (hline : line ui.nextRequestId =
      ClientRequest.line ⟨type, ui.nextRequestId, username, message⟩)
    (hmore : Act.Rest more none) (hnone : Act.requests more = []) :
    Asks ui ((ui'.askNoted type username message line).1,
      (ui'.askNoted type username message line).2 ++ more) := by
  rw [askNoted, hnext, hline]
  exact ⟨Act.Rest.line (Act.Rest.addRequest _ hmore), Or.inr ⟨rfl,
    ⟨type, ui.nextRequestId, username, message⟩, congrArg (List.cons _) hnone, rfl⟩⟩

/-- Where the request is the last thing that the handler does. -/
theorem asks_last {ui' : Typing} {type : ClientRequest.Kind} {username message : Str}
    {line : SequenceNo → Message} (hnext : ui'.nextRequestId = ui.nextRequestId)
    (hline : line ui.nextRequestId =
      ClientRequest.line ⟨type, ui.nextRequestId, username, message⟩) :
    Asks ui (ui'.askNoted type username message line) := by
  have hasks := asks_askNoted hnext hline Act.Rest.nil rfl
  rwa [List.append_nil] at hasks

theorem of_isPrefixOf {word input : List UInt8} (hword : word.isPrefixOf input = true) :
    input = word ++ input.drop word.length := by
  obtain ⟨rest, rfl⟩ := List.isPrefixOf_iff_prefix.mp hword
  rw [List.drop_left]

theorem asks_noteCommand (ui : Typing) (input : Str) : Asks ui (ui.noteCommand input) := by
  unfold noteCommand
  by_cases hquit : input.1 = ascii "/quit"
  · rw [if_pos hquit]
    have hclear : Act.Rest [.effect .clearRunning] none := Act.Rest.effect rfl Act.Rest.nil
    let line : SequenceNo → Message := fun _ => .numbered 0 input.1
    have hline : line ui.nextRequestId =
        ClientRequest.line ⟨.quit, ui.nextRequestId, .empty, .empty⟩ :=
      congrArg (Message.numbered 0) hquit
    exact asks_askNoted rfl hline hclear rfl
  rw [if_neg hquit]
  by_cases hwho : input.1 = ascii "/who"
  · rw [if_pos hwho]
    exact asks_last rfl (congrArg (Message.numbered _) hwho)
  rw [if_neg hwho]
  by_cases hlogin : (ascii "/login ").isPrefixOf input.1 = true
  · rw [if_pos hlogin]
    dsimp only
    split
    · exact asks_nothing rfl
    · exact asks_last rfl (congrArg (Message.numbered _) (of_isPrefixOf hlogin))
  rw [if_neg hlogin]
  by_cases hchat : (ascii "/chat ").isPrefixOf input.1 = true
  · rw [if_pos hchat]
    dsimp only
    split
    · exact asks_message rfl rfl
    · exact asks_message rfl rfl
  rw [if_neg hchat]
  split
  · rename_i he2e
    dsimp only
    split
    · exact asks_nothing rfl
    · exact asks_last rfl (congrArg (Message.numbered _) (of_isPrefixOf he2e))
  · exact asks_message rfl rfl

theorem asks_noteMessage (ui : Typing) (input : Str) : Asks ui (ui.noteMessage input) := by
  unfold noteMessage
  split
  · exact asks_nothing rfl
  cases input.1.findIdx? (· = 32) with
  | none => exact asks_nothing rfl
  | some space =>
      dsimp only
      split
      · exact asks_nothing rfl
      split
      · exact asks_nothing rfl
      · exact asks_last rfl rfl

theorem asks_noteInput {result : Typing × List Act} (hinput : ui.noteInput = .ok result) :
    Asks ui result := by
  have hcleared : ∀ {result : Typing × List Act}, Asks { ui with input := .empty } result →
      Asks ui result := fun hasks => ⟨hasks.rest, hasks.requests⟩
  unfold noteInput at hinput
  dsimp only at hinput
  split at hinput
  · cases hinput
    exact asks_nothing rfl
  split at hinput
  · cases hinput
    exact hcleared (asks_noteCommand _ _)
  split at hinput
  · cases hinput
    exact hcleared (asks_noteMessage _ _)
  split at hinput
  · cases haddressed : Str.ofBytes (ascii "@" ++ ui.selectedPartner.1 ++ ascii " " ++
        ui.input.text.1) with
    | error fault =>
        rw [haddressed] at hinput
        cases hinput
    | ok addressed =>
        rw [haddressed] at hinput
        cases hinput
        exact hcleared (asks_noteMessage _ _)
  · cases hinput
    exact asks_message rfl rfl

/-- A key that does not submit the line asks for nothing. -/
theorem handleKey_effects {c : UInt8} {ui' : Typing} {effects : List Effect}
    (hc : ¬ (c = 10 ∨ c = 13)) (hkey : ui.handleKey c = .ok (ui', effects)) :
    ui'.nextRequestId = ui.nextRequestId ∧
      (effects = [] ∨ effects = [.clearRunning, .release]) := by
  rw [handleKey, if_neg hc] at hkey
  split at hkey
  · cases hkey
    exact ⟨rfl, Or.inl rfl⟩
  split at hkey
  · cases hkey
    exact ⟨rfl, Or.inr rfl⟩
  split at hkey
  · cases hinsert : ui.input.insert c with
    | error fault =>
        rw [hinsert] at hkey
        cases hkey
    | ok input =>
        rw [hinsert] at hkey
        cases hkey
        exact ⟨rfl, Or.inl rfl⟩
  · cases hkey
    exact ⟨rfl, Or.inl rfl⟩

theorem asks_noteKey {c : UInt8} {result : Typing × List Act} (hkey : ui.noteKey c = .ok result) :
    Asks ui result := by
  unfold noteKey at hkey
  split at hkey
  · exact asks_noteInput hkey
  · rename_i hc
    cases hhandled : ui.handleKey c with
    | error fault =>
        rw [hhandled] at hkey
        cases hkey
    | ok handled =>
        obtain ⟨ui', effects⟩ := handled
        rw [hhandled] at hkey
        cases hkey
        obtain ⟨hnext, rfl | rfl⟩ := handleKey_effects hc hhandled
        · exact asks_nothing hnext
        · exact ⟨Act.Rest.effect rfl (Act.Rest.effect rfl Act.Rest.nil), Or.inl ⟨hnext, rfl⟩⟩

end Typing

end UI

end LeakyChat

/-
The terminal side of the client: what a typed key does to the line being
edited, what a submitted line asks of the client thread, and the queue through
which it asks.  The history of messages is drawn and nothing else, so what is added
to it stands apart, in `UserMessages`.
-/
import LeakyChat.Packet

namespace LeakyChat

/-- The bytes of a string literal. -/
def ascii (s : String) : List UInt8 := s.toList.map Char.toUInt8

/-- `s.substr(n)`. -/
def Str.drop (s : Str) (n : Nat) : Str :=
  ⟨s.1.drop n, le_trans (List.drop_sublist n s.1).length_le s.2⟩

/-- `s.substr(0, n)`. -/
def Str.take (s : Str) (n : Nat) : Str :=
  ⟨s.1.take n, le_trans (List.take_sublist n s.1).length_le s.2⟩

/-- `most` is `max()`, of which the standard says only that it is not 0. -/
structure BinarySemaphore where
  count : Nat
  most : Nat
  most_pos : 0 < most
  count_le : count ≤ most
deriving DecidableEq

namespace BinarySemaphore

def release (sem : BinarySemaphore) : BinarySemaphore where
  count := min (sem.count + 1) sem.most
  most := sem.most
  most_pos := sem.most_pos
  count_le := Nat.min_le_right _ _

/-- What `acquire` leaves, unless it blocks. -/
def acquire (sem : BinarySemaphore) : Option BinarySemaphore :=
  if 0 < sem.count then
    some { sem with
      count := sem.count - 1
      count_le := le_trans (Nat.sub_le _ _) sem.count_le }
  else none

theorem release_count_pos (sem : BinarySemaphore) : 0 < sem.release.count :=
  lt_min (Nat.succ_pos _) sem.most_pos

theorem acquire_eq_some {sem sem' : BinarySemaphore} (hacquire : sem.acquire = some sem') :
    sem.count = sem'.count + 1 := by
  unfold acquire at hacquire
  split at hacquire
  · next hpos =>
      cases hacquire
      exact (Nat.succ_pred_eq_of_pos hpos).symm
  · cases hacquire

theorem acquire_of_pos {sem : BinarySemaphore} (hpos : 0 < sem.count) :
    ∃ sem', sem.acquire = some sem' :=
  ⟨_, if_pos hpos⟩

end BinarySemaphore

inductive ClientRequest.Kind where
  | login
  | sendMessage
  | getUsers
  | e2e
  | quit
deriving DecidableEq, Repr

structure ClientRequest where
  type : ClientRequest.Kind
  id : SequenceNo
  username : Str
  message : Str
deriving DecidableEq

/-- `input` and `cursor`. -/
structure InputLine where
  text : Str
  cursor : Nat
  cursor_le : cursor ≤ text.1.length

namespace InputLine

/-- A line with the cursor at its end. -/
def ofText (text : Str) : InputLine := ⟨text, text.1.length, Nat.le_refl _⟩

def empty : InputLine := ofText .empty

/-- `input.insert(cursor, 1, c); ++cursor;` -/
def insert (line : InputLine) (c : UInt8) : Except Fault InputLine :=
  if hsize : (line.text.1.insertIdx line.cursor c).length ≤ maxSize then
    .ok ⟨⟨line.text.1.insertIdx line.cursor c, hsize⟩, line.cursor + 1, by
      rw [List.length_insertIdx_of_le_length line.cursor_le]
      exact Nat.succ_le_succ line.cursor_le⟩
  else .error .lengthError

/-- `input.erase(cursor - 1, 1); --cursor;` -/
def erase (line : InputLine) : InputLine :=
  if hcursor : 0 < line.cursor then
    have hlt : line.cursor - 1 < line.text.1.length :=
      lt_of_lt_of_le (Nat.pred_lt_self hcursor) line.cursor_le
    have hlength : (line.text.1.eraseIdx (line.cursor - 1)).length = line.text.1.length - 1 :=
      List.length_eraseIdx_of_lt hlt
    { text := ⟨line.text.1.eraseIdx (line.cursor - 1),
        le_trans (hlength.le.trans (Nat.sub_le _ _)) line.text.2⟩
      cursor := line.cursor - 1
      cursor_le := hlength.ge.trans' (Nat.sub_le_sub_right line.cursor_le 1) }
  else line

theorem insert_ofText {text text' : Str} {c : UInt8} (htext : text'.1 = text.1 ++ [c]) :
    (ofText text).insert c = .ok (ofText text') := by
  have hinsert : text.1.insertIdx text.1.length c = text'.1 := by
    rw [List.insertIdx_length_self, htext]
  obtain ⟨bytes', hsize⟩ := text'
  subst hinsert
  have hlength : (text.1.insertIdx text.1.length c).length = text.1.length + 1 :=
    List.length_insertIdx_of_le_length (Nat.le_refl _) _
  exact (dif_pos hsize).trans (by simp only [ofText, hlength])

end InputLine

namespace UI

/-- The members of `UI` that only its own thread touches, and the static
`nextRequestId` of `ClientRequest`, which only that thread uses. -/
structure Typing where
  selectedPartner : Str
  input : InputLine
  nextRequestId : SequenceNo

/-- What a handler of the UI thread does to what it shares with other threads,
which may come in between any two of these. -/
inductive Effect where
  | addRequest (request : ClientRequest)
  | clearRunning
  | release
deriving DecidableEq

namespace Typing

/-- A request under the next number. -/
def ask (ui : Typing) (type : ClientRequest.Kind) (username message : Str) :
    Typing × List Effect :=
  ({ ui with nextRequestId := ui.nextRequestId + 1 },
    [.addRequest ⟨type, ui.nextRequestId, username, message⟩])

def handleCommand (ui : Typing) (input : Str) : Typing × List Effect :=
  if input.1 = ascii "/quit" then
    let (ui, asked) := ui.ask .quit .empty .empty
    (ui, asked ++ [.clearRunning])
  else if input.1 = ascii "/who" then ui.ask .getUsers .empty .empty
  else if (ascii "/login ").isPrefixOf input.1 then
    let username := input.drop 7
    if username.1 = [] then (ui, []) else ui.ask .login username .empty
  else if (ascii "/chat ").isPrefixOf input.1 then
    let username := input.drop 6
    if username.1 = [] then (ui, []) else ({ ui with selectedPartner := username }, [])
  else if (ascii "/e2e ").isPrefixOf input.1 then
    let username := input.drop 5
    if username.1 = [] then (ui, []) else ui.ask .e2e username .empty
  else (ui, [])

/-- `find` returns `npos` where there is no space. -/
def handleMessage (ui : Typing) (input : Str) : Typing × List Effect :=
  if input.1.head? ≠ some 64 then (ui, [])
  else
    match input.1.findIdx? (· = 32) with
    | none => ({ ui with selectedPartner := input.drop 1 }, [])
    | some space =>
        if space ≤ 1 then (ui, [])
        else
          let recipient := (input.drop 1).take (space - 1)
          let message := input.drop (space + 1)
          if message.1 = [] then (ui, [])
          else { ui with selectedPartner := recipient }.ask .sendMessage recipient message

/-- The line is moved out of `this->input`, which is left empty; the
`input.clear()` of the source clears the local it was moved to. -/
def submitInput (ui : Typing) : Except Fault (Typing × List Effect) :=
  let input := ui.input.text
  if input.1 = [] then .ok (ui, [])
  else
    let ui := { ui with input := .empty }
    if input.1.head? = some 47 then .ok (ui.handleCommand input)
    else if input.1.head? = some 64 then .ok (ui.handleMessage input)
    else if ui.selectedPartner.1 ≠ [] then do
      let addressed ← Str.ofBytes (ascii "@" ++ ui.selectedPartner.1 ++ ascii " " ++ input.1)
      return ui.handleMessage addressed
    else .ok (ui, [])

/-- Newline and carriage return submit the line, 127 and 8 erase a character,
3 is Ctrl-C. -/
def handleKey (ui : Typing) (c : UInt8) : Except Fault (Typing × List Effect) :=
  if c = 10 ∨ c = 13 then ui.submitInput
  else if c = 127 ∨ c = 8 then .ok ({ ui with input := ui.input.erase }, [])
  else if c = 3 then .ok (ui, [.clearRunning, .release])
  else if 32 ≤ c ∧ c ≤ 126 then do
    let input ← ui.input.insert c
    return ({ ui with input := input }, [])
  else .ok (ui, [])

/-- The characters that go into the line. -/
def Printable (c : UInt8) : Prop := 32 ≤ c ∧ c ≤ 126

instance : DecidablePred Printable := fun c => inferInstanceAs (Decidable (32 ≤ c ∧ c ≤ 126))

theorem handleKey_printable {ui : Typing} {c : UInt8} {text text' : Str} (hc : Printable c)
    (hinput : ui.input = .ofText text) (htext : text'.1 = text.1 ++ [c]) :
    ui.handleKey c = .ok ({ ui with input := .ofText text' }, []) := by
  obtain ⟨hlow, hhigh⟩ := hc
  have hsubmit : ¬ (c = 10 ∨ c = 13) := by
    rintro (rfl | rfl)
    · exact absurd hlow (by decide)
    · exact absurd hlow (by decide)
  have herase : ¬ (c = 127 ∨ c = 8) := by
    rintro (rfl | rfl)
    · exact absurd hhigh (by decide)
    · exact absurd hlow (by decide)
  have hctrl : c ≠ 3 := by
    rintro rfl
    exact absurd hlow (by decide)
  rw [handleKey, if_neg hsubmit, if_neg herase, if_neg hctrl, if_pos ⟨hlow, hhigh⟩, hinput,
    InputLine.insert_ofText htext]
  rfl

end Typing

end UI

/-- `running` and `requests` are what the UI thread and the client thread share. -/
structure UI where
  running : Bool
  requests : List ClientRequest
  typing : UI.Typing

namespace UI

/-- `UI()`. -/
def fresh : UI := ⟨false, [], ⟨.empty, .empty, 1⟩⟩

/-- `start()`, the thread apart. -/
def start (ui : UI) : UI := { ui with running := true }

/-- `addRequest` holds `requestMutex` until it has released the semaphore. -/
def addRequest (ui : UI) (request : ClientRequest) : UI :=
  { ui with requests := ui.requests ++ [request] }

def tryGetRequest (ui : UI) : Option ClientRequest × UI :=
  if !ui.running || ui.requests.isEmpty then (none, ui)
  else (ui.requests.head?, { ui with requests := ui.requests.tail })

theorem tryGetRequest_some {ui ui' : UI} {request : ClientRequest}
    (htry : ui.tryGetRequest = (some request, ui')) :
    ui.running = true ∧ ui.requests = request :: ui'.requests ∧ ui'.running = ui.running := by
  obtain ⟨running, requests, typing⟩ := ui
  cases running with
  | false => cases htry
  | true =>
      cases requests with
      | nil => cases htry
      | cons first rest =>
          cases htry
          exact ⟨rfl, rfl, rfl⟩

theorem tryGetRequest_none {ui ui' : UI} (htry : ui.tryGetRequest = (none, ui')) :
    ui' = ui ∧ (ui.running = false ∨ ui.requests = []) := by
  obtain ⟨running, requests, typing⟩ := ui
  cases running with
  | false =>
      cases htry
      exact ⟨rfl, Or.inl rfl⟩
  | true =>
      cases requests with
      | nil =>
          cases htry
          exact ⟨rfl, Or.inr rfl⟩
      | cons first rest => cases htry

end UI

end LeakyChat

/-
A client is accepted: its handshake runs to the end before the server does
anything else, and only a connection whose handshake has returned 0 is kept.
-/
import LeakyChat.HandlerMoves
import LeakyChat.Library.Attempts
import Mathlib.Data.Finset.Basic

namespace LeakyChat

open Attempts

/-- What a handshake finds outside when it starts, and whether a `send` finds
that the client has closed the connection. -/
structure Opening where
  env : HandshakeEnv
  brokenPipe : Bool

/-- The same from one `recv` to the next, and what the `recv` does. -/
structure Turn extends Opening where
  recv : Recv

/-- The error of the `recv` asks for another try. -/
def Turn.Again (t : Turn) : Prop := t.recv = .idle ∧ t.env.tryAgain = true

/-- The server, and the descriptors that are open. -/
structure ServerProcess where
  server : Server
  descriptors : Finset Int

/-- What `accept` may return: a descriptor that is not open yet. -/
abbrev Unopened (descriptors : Finset Int) := { fd : Int // 0 ≤ fd ∧ fd ∉ descriptors }

/-- A `send` on a connection the other end has closed raises `SIGPIPE`, which
nothing handles. -/
def Handshake.sends {Waiting : Type} (before after : Handshake Waiting) (brokenPipe : Bool) :
    Handshake Waiting :=
  if brokenPipe ∧ after.sent ≠ before.sent then before.stop else after

namespace ServerHandshake

variable {Cert : Type} (P : Primitives) (A : Authority Cert)

/-- `performServerHandshake`, up to the first `recv`. -/
def opening (handler : NetworkHandler) (mHost : Str) (first : Opening) : ServerHandshake :=
  Handshake.sends (Handshake.start handler mHost (.challenge []))
    (start A first.env handler mHost) first.brokenPipe

/-- One `recv` of it, and what follows. -/
def turn (h : ServerHandshake) (t : Turn) : ServerHandshake :=
  h.sends (h.receive P A t.env t.recv) t.brokenPipe

/-- The turn gets the last of what the server waits for, and is answered. -/
def Answers (t : Turn) : ServerWaiting → Prop
  | .challenge received => ∃ block challenge signature,
      receiveBytes 40 t.env.tryAgain received t.recv = .returned (some block) ∧
        extractVector block.1 t.env.stack = .ok challenge ∧ A.sign challenge = some signature
  | .publicKey received => ∃ block,
      receiveBytes 256 t.env.tryAgain received t.recv = .returned (some block)

/-- The `recv` fails for good, or the answer finds the connection closed. -/
def Fatal (t : Turn) (w : ServerWaiting) : Prop :=
  (t.recv = .idle ∧ t.env.tryAgain = false) ∨ (t.brokenPipe = true ∧ Answers A t w)

/-- A bound on the bytes that are still to come. -/
def missing : ServerWaiting → Nat
  | .challenge received => 257 + (40 - received.length)
  | .publicKey received => 256 - received.length

def status (h : ServerHandshake) : Status :=
  match h.phase with
  | .waiting w => .waiting (missing w)
  | .returned _ => .returned
  | .stopped => .died

def loop : Loop ServerHandshake Turn where
  step := turn P A
  status := status
  again := Turn.Again
  fatal h t := ∃ w, h.phase = .waiting w ∧ Fatal A t w

end ServerHandshake

namespace ConnectionSetter

variable {Cert : Type} (P : Primitives) (A : Authority Cert)

/-- The handshake with a client after so many `recv`s. -/
def handshake (clientSocket : Int) (clientIP : Str) (first : Opening) (turns : Nat → Turn)
    (n : Nat) : ServerHandshake :=
  (ServerHandshake.loop P A).run
    (.opening A (NetworkHandler.fresh.setSocket clientSocket) clientIP first) turns n

/-- `close`, and the destructor, of a handler. -/
def closeHandler (s : ServerProcess) (handler : NetworkHandler) : ServerProcess :=
  if handler.mSocket = -1 then s
  else { s with descriptors := s.descriptors.erase handler.mSocket }

/-- `getConnections`, if it has returned after so many `recv`s. -/
def getConnections (s : ServerProcess) (accepted : Option (Unopened s.descriptors))
    (clientIP : Str) (first : Opening) (turns : Nat → Turn) (n : Nat) :
    Option (Int × ServerProcess) :=
  match accepted with
  | none => some (-1, s)
  | some clientSocket =>
      let s := { s with descriptors := insert clientSocket.1 s.descriptors }
      let handshake := handshake P A clientSocket.1 clientIP first turns n
      match handshake.phase with
      | .returned result =>
          if result ≠ 0 then
            let s := closeHandler s handshake.handler
            some (-1, closeHandler s handshake.handler.close)
          else
            let (kept, left) := handshake.handler.moveFrom
            let s := { s with server := { s.server with
              connections := s.server.connections.insert kept } }
            some (0, closeHandler s left)
      | _ => none

/-- The call returns, and unless the handshake has succeeded everything is as it
was before. -/
def Contained (s : ServerProcess) (accepted : Option (Unopened s.descriptors))
    (clientIP : Str) (first : Opening) (turns : Nat → Turn) : Prop :=
  (∃ n, getConnections P A s accepted clientIP first turns n ≠ none) ∧
    ∀ n result after,
      getConnections P A s accepted clientIP first turns n = some (result, after) →
      (∀ clientSocket, accepted = some clientSocket →
        (handshake P A clientSocket.1 clientIP first turns n).phase ≠ .returned 0) →
      after = s

end ConnectionSetter

namespace Handshake

variable {Waiting : Type} {before after : Handshake Waiting}

theorem sends_same (hsent : after.sent = before.sent) (brokenPipe : Bool) :
    before.sends after brokenPipe = after :=
  if_neg fun hbroken => hbroken.2 hsent

theorem sends_whole : before.sends after false = after :=
  if_neg fun hbroken => Bool.false_ne_true hbroken.1

theorem sends_broken {bytes : List UInt8} (hsent : after.sent = before.sent ++ [bytes]) :
    before.sends after true = before.stop := by
  refine if_pos ⟨rfl, fun hsame => ?_⟩
  rw [hsent] at hsame
  simp at hsame

theorem establish_phase {P : Primitives} {h : Handshake Waiting} {exponent : Nat}
    (hcrypto : h.handler.mCrypto = some (CryptoSession.fresh exponent))
    (peerPublicKey : PublicKey) :
    (h.establish P peerPublicKey.toStr).phase = .returned 0 := by
  rw [establish_eq hcrypto]

end Handshake

/-- How much of a block a turn of `receiveBytes` leaves to come. -/
theorem receiveBytes_chunk (size : Nat) (tryAgain : Bool) (received : List UInt8)
    (bytes : Chunk) :
    (∃ block, receiveBytes size tryAgain received (.chunk bytes) = .returned (some block)) ∨
      (receiveBytes size tryAgain received (.chunk bytes) = .waiting (received ++ bytes.1) ∧
        size - (received ++ bytes.1).length < size - received.length) := by
  by_cases hsize : size ≤ (received ++ bytes.1).length
  · exact Or.inl ⟨_, dif_pos hsize⟩
  · refine Or.inr ⟨dif_neg hsize, ?_⟩
    have hpos : 0 < bytes.1.length := List.length_pos_iff.mpr bytes.2.1
    rw [List.length_append] at hsize ⊢
    omega

namespace ServerHandshake

variable {Cert : Type} {P : Primitives} {A : Authority Cert} {h : ServerHandshake} {t : Turn}

/-- How a turn can end: the process has died, and it had to, or the handshake
has returned or has less to wait for. -/
inductive Turned (A : Authority Cert) (t : Turn) (w : ServerWaiting) (h' : ServerHandshake) :
    Prop where
  | died (hfatal : Fatal A t w) (hphase : h'.phase = .stopped)
  | returned (hspared : ¬ Fatal A t w) (result : Int) (hphase : h'.phase = .returned result)
  | waiting (hspared : ¬ Fatal A t w) (w' : ServerWaiting) (hphase : h'.phase = .waiting w')
      (hless : missing w' < missing w)

/-- A turn that gets a whole block and sends an answer to it. -/
theorem Turned.of_answer {w : ServerWaiting} {after : ServerHandshake} {bytes : List UInt8}
    (hanswers : Answers A t w) (hrecv : t.recv ≠ .idle)
    (hsent : after.sent = h.sent ++ [bytes])
    (hafter : (∃ result, after.phase = .returned result) ∨
      ∃ w', after.phase = .waiting w' ∧ missing w' < missing w) :
    Turned A t w (h.sends after t.brokenPipe) := by
  cases hbroken : t.brokenPipe with
  | true =>
      rw [Handshake.sends_broken hsent]
      exact .died (Or.inr ⟨hbroken, hanswers⟩) rfl
  | false =>
      have hspared : ¬ Fatal A t w := by
        rintro (⟨hidle, _⟩ | ⟨htrue, _⟩)
        · exact hrecv hidle
        · rw [hbroken] at htrue
          cases htrue
      rw [Handshake.sends_whole]
      rcases hafter with ⟨result, hphase⟩ | ⟨w', hphase, hless⟩
      · exact .returned hspared result hphase
      · exact .waiting hspared w' hphase hless

/-- A turn that leaves the rest of a block to come, or that gets none. -/
theorem Turned.of_silent {w : ServerWaiting} {after : ServerHandshake}
    (hsilent : ¬ Answers A t w) (hrecv : t.recv ≠ .idle) (hsent : after.sent = h.sent)
    (hafter : (∃ result, after.phase = .returned result) ∨
      ∃ w', after.phase = .waiting w' ∧ missing w' < missing w) :
    Turned A t w (h.sends after t.brokenPipe) := by
  have hspared : ¬ Fatal A t w := by
    rintro (⟨hidle, _⟩ | ⟨_, hanswers⟩)
    · exact hrecv hidle
    · exact hsilent hanswers
  rw [Handshake.sends_same hsent]
  rcases hafter with ⟨result, hphase⟩ | ⟨w', hphase, hless⟩
  · exact .returned hspared result hphase
  · exact .waiting hspared w' hphase hless

theorem turn_again {w : ServerWaiting} (hwaits : h.phase = .waiting w) (hagain : t.Again) :
    turn P A h t = h := by
  have hreceive : h.receive P A t.env t.recv = h.await w := by
    obtain ⟨hidle, htry⟩ := hagain
    cases w with
    | challenge received =>
        rw [receive_challenge_eq P A t.env hwaits, hidle, receiveBytes, if_pos htry]
        rfl
    | publicKey received =>
        rw [receive_publicKey_eq P A t.env hwaits, hidle, receiveBytes, if_pos htry]
        rfl
  have hsame : h.await w = h := by
    rw [Handshake.await, ← hwaits]
  rw [turn, hreceive, hsame]
  exact Handshake.sends_same rfl _

/-- A `recv` that gets no bytes, and does not ask for another try. -/
theorem turn_silent {w : ServerWaiting} (hother : ¬ t.Again)
    (hsilent : ∀ bytes, t.recv ≠ .chunk bytes)
    (hidle : t.env.tryAgain = false → h.receive P A t.env .idle = h.stop)
    (hclosed : h.receive P A t.env .closed = h.fail) :
    Turned A t w (turn P A h t) := by
  cases hrecv : t.recv with
  | idle =>
      have htry : t.env.tryAgain = false := by
        rw [← Bool.not_eq_true]
        exact fun htry => hother ⟨hrecv, htry⟩
      have hstops : h.sends h.stop t.brokenPipe = h.stop := Handshake.sends_same rfl _
      rw [turn, hrecv, hidle htry, hstops]
      exact .died (Or.inl ⟨hrecv, htry⟩) rfl
  | closed =>
      rw [turn, hrecv, hclosed]
      refine .of_silent ?_ (by rw [hrecv]; rintro ⟨⟩) rfl (Or.inl ⟨-1, rfl⟩)
      cases w with
      | challenge received =>
          rintro ⟨block, challenge, signature, hblock, _⟩
          rw [hrecv] at hblock
          cases hblock
      | publicKey received =>
          rintro ⟨block, hblock⟩
          rw [hrecv] at hblock
          cases hblock
  | chunk bytes => exact (hsilent bytes hrecv).elim

theorem ne_idle_of_chunk {bytes : Chunk} (hrecv : t.recv = .chunk bytes) : t.recv ≠ .idle := by
  rw [hrecv]
  rintro ⟨⟩

/-- The whole challenge has come. -/
theorem turned_signChallenge {received : List UInt8} {block : Block 40} (hrecv : t.recv ≠ .idle)
    (hblock : receiveBytes 40 t.env.tryAgain received t.recv = .returned (some block)) :
    Turned A t (.challenge received) (h.sends (h.signChallenge A t.env block) t.brokenPipe) := by
  rcases signChallenge_cases A t.env h block with
    ⟨hfails, hnone⟩ | ⟨challenge, signature, hextract, hsign, hafter⟩
  · rw [hfails]
    refine .of_silent ?_ hrecv rfl (Or.inl ⟨-1, rfl⟩)
    rintro ⟨block', challenge, signature, hblock', hextract, hsign⟩
    rw [hblock] at hblock'
    cases hblock'
    rw [hnone challenge hextract] at hsign
    cases hsign
  · have hanswers : Answers A t (.challenge received) :=
      ⟨block, challenge, signature, hblock, hextract, hsign⟩
    rcases hafter with hfails | hawaits
    · rw [hfails]
      exact .of_answer hanswers hrecv rfl (Or.inl ⟨-1, rfl⟩)
    · rw [hawaits]
      refine .of_answer hanswers hrecv rfl (Or.inr ⟨.publicKey [], rfl, ?_⟩)
      rw [missing, missing, List.length_nil]
      omega

theorem turn_challenge {received : List UInt8}
    (hwaits : h.phase = .waiting (.challenge received)) (hother : ¬ t.Again) :
    Turned A t (.challenge received) (turn P A h t) := by
  cases hrecv : t.recv with
  | chunk bytes =>
      rw [turn, hrecv, receive_challenge_eq P A t.env hwaits]
      rcases receiveBytes_chunk 40 t.env.tryAgain received bytes with
        ⟨block, hblock⟩ | ⟨hmore, hless⟩
      · rw [hblock]
        exact turned_signChallenge (ne_idle_of_chunk hrecv) (by rw [hrecv, hblock])
      · rw [hmore, receiving]
        refine .of_silent ?_ (ne_idle_of_chunk hrecv) rfl
          (Or.inr ⟨.challenge (received ++ bytes.1), rfl, Nat.add_lt_add_left hless 257⟩)
        rintro ⟨block, challenge, signature, hblock, _⟩
        rw [hrecv, hmore] at hblock
        cases hblock
  | _ =>
      apply turn_silent hother
      · rw [hrecv]
        rintro bytes ⟨⟩
      · intro htry
        rw [receive_challenge_eq P A t.env hwaits, receiveBytes, htry]
        rfl
      · rw [receive_challenge_eq P A t.env hwaits]
        rfl

/-- The whole public key has come. -/
theorem turned_exchangeKeys {received : List UInt8} {exponent : Nat} {block : Block 256}
    (hcrypto : h.handler.mCrypto = some (CryptoSession.fresh exponent)) (hrecv : t.recv ≠ .idle)
    (hblock : receiveBytes 256 t.env.tryAgain received t.recv = .returned (some block)) :
    Turned A t (.publicKey received) (h.sends (h.exchangeKeys P t.env block) t.brokenPipe) := by
  have hanswers : Answers A t (.publicKey received) := ⟨block, hblock⟩
  rcases exchangeKeys_cases P t.env hcrypto block with hfails | hestablishes
  · rw [hfails]
    exact .of_answer hanswers hrecv rfl (Or.inl ⟨-1, rfl⟩)
  · rw [hestablishes]
    exact .of_answer hanswers hrecv (Handshake.establish_sent _)
      (Or.inl ⟨0, Handshake.establish_phase (by exact hcrypto) _⟩)

theorem turn_publicKey {received : List UInt8} {exponent : Nat}
    (hwaits : h.phase = .waiting (.publicKey received))
    (hcrypto : h.handler.mCrypto = some (CryptoSession.fresh exponent))
    (hother : ¬ t.Again) : Turned A t (.publicKey received) (turn P A h t) := by
  cases hrecv : t.recv with
  | chunk bytes =>
      rw [turn, hrecv, receive_publicKey_eq P A t.env hwaits]
      rcases receiveBytes_chunk 256 t.env.tryAgain received bytes with
        ⟨block, hblock⟩ | ⟨hmore, hless⟩
      · rw [hblock]
        exact turned_exchangeKeys hcrypto (ne_idle_of_chunk hrecv) (by rw [hrecv, hblock])
      · rw [hmore, receiving]
        refine .of_silent ?_ (ne_idle_of_chunk hrecv) rfl
          (Or.inr ⟨.publicKey (received ++ bytes.1), rfl, hless⟩)
        rintro ⟨block, hblock⟩
        rw [hrecv, hmore] at hblock
        cases hblock
  | _ =>
      apply turn_silent hother
      · rw [hrecv]
        rintro bytes ⟨⟩
      · intro htry
        rw [receive_publicKey_eq P A t.env hwaits, receiveBytes, htry]
        rfl
      · rw [receive_publicKey_eq P A t.env hwaits]
        rfl

theorem sends_good {after : ServerHandshake} {w : ServerWaiting} (hgood : h.Good P)
    (hwaits : h.phase = .waiting w) (hafter : after.Good P) (brokenPipe : Bool) :
    Good P (h.sends after brokenPipe) := by
  obtain ⟨hconnected, hphase⟩ := hgood
  rw [hwaits] at hphase
  unfold Handshake.sends
  by_cases hbroken : brokenPipe ∧ after.sent ≠ h.sent
  · rw [if_pos hbroken]
    exact Handshake.good_stop hconnected hphase.1
  · rw [if_neg hbroken]
    exact hafter

theorem turn_settled (hended : ∀ w, h.phase ≠ .waiting w) : turn P A h t = h := by
  have hreceive : h.receive P A t.env t.recv = h := by
    unfold receive
    cases hphase : h.phase with
    | waiting w => exact (hended w hphase).elim
    | returned result => rfl
    | stopped => rfl
  rw [turn, hreceive]
  exact Handshake.sends_same rfl _

theorem turn_good (hgood : h.Good P) : (turn P A h t).Good P := by
  cases hphase : h.phase with
  | waiting w => exact sends_good hgood hphase (receive_good hgood t.recv) _
  | returned result =>
      rw [turn_settled (by rw [hphase]; rintro w ⟨⟩)]
      exact hgood
  | stopped =>
      rw [turn_settled (by rw [hphase]; rintro w ⟨⟩)]
      exact hgood

/-- What one turn does to a handshake that waits. -/
theorem turn_waiting {w : ServerWaiting} (hgood : h.Good P) (hwaits : h.phase = .waiting w)
    (hother : ¬ t.Again) : Turned A t w (turn P A h t) := by
  cases w with
  | challenge received => exact turn_challenge hwaits hother
  | publicKey received =>
      obtain ⟨_, hphase⟩ := hgood
      rw [hwaits] at hphase
      obtain ⟨_, exponent, hcrypto⟩ := hphase
      exact turn_publicKey hwaits hcrypto hother

theorem status_waiting {k : Nat} :
    h.status = .waiting k ↔ ∃ w, h.phase = .waiting w ∧ missing w = k := by
  unfold status
  cases h.phase with
  | waiting w =>
      simp only [Status.waiting.injEq, Phase.waiting.injEq]
      exact ⟨fun hk => ⟨w, rfl, hk⟩, by rintro ⟨_, rfl, hk⟩; exact hk⟩
  | returned result => exact ⟨by rintro ⟨⟩, by rintro ⟨w, ⟨⟩, _⟩⟩
  | stopped => exact ⟨by rintro ⟨⟩, by rintro ⟨w, ⟨⟩, _⟩⟩

theorem not_again_of_fatal {w : ServerWaiting} (hfatal : Fatal A t w) : ¬ t.Again := by
  rintro ⟨hidle, htry⟩
  rcases hfatal with ⟨_, hfinal⟩ | ⟨_, hanswers⟩
  · rw [htry] at hfinal
    cases hfinal
  · cases w with
    | challenge received =>
        obtain ⟨block, _, _, hblock, _⟩ := hanswers
        rw [hidle, receiveBytes, if_pos htry] at hblock
        cases hblock
    | publicKey received =>
        obtain ⟨block, hblock⟩ := hanswers
        rw [hidle, receiveBytes, if_pos htry] at hblock
        cases hblock

theorem loop_works : (loop P A).Works (fun h => h.Good P) where
  keeps h t hgood := turn_good hgood
  settled h t hended := by
    apply turn_settled
    intro w hw
    exact hended (missing w) (status_waiting.mpr ⟨w, hw, rfl⟩)
  again h t k hstatus hagain := by
    obtain ⟨w, hw, _⟩ := status_waiting.mp hstatus
    exact turn_again hw hagain
  fatal h t k hgood _ hfatal := by
    obtain ⟨w, hw, hfatal⟩ := hfatal
    cases turn_waiting hgood hw (not_again_of_fatal hfatal) with
    | died _ hphase =>
        have hstatus : (turn P A h t).status = .died := by rw [status, hphase]
        exact hstatus
    | returned hspared => exact (hspared hfatal).elim
    | waiting hspared => exact (hspared hfatal).elim
  progress h t k hgood hstatus hother hspared := by
    obtain ⟨w, hw, hk⟩ := status_waiting.mp hstatus
    cases turn_waiting hgood hw hother with
    | died hfatal _ => exact (hspared ⟨w, hw, hfatal⟩).elim
    | returned _ result hphase =>
        have hreturned : (turn P A h t).status = .returned := by rw [status, hphase]
        exact Or.inl hreturned
    | waiting _ w' hphase hless =>
        exact Or.inr ⟨missing w', hk ▸ hless, status_waiting.mpr ⟨w', hphase, rfl⟩⟩

/-- There is no certificate to send, or its `send` does not find the connection
closed. -/
def Opens (A : Authority Cert) (first : Opening) : Prop :=
  A.serverCertificate = none ∨ first.brokenPipe = false

theorem opening_good {handler : NetworkHandler} (hconnected : handler.connected = true)
    (mHost : Str) (first : Opening) : Good P (opening A handler mHost first) := by
  have hbegun : Good P (Handshake.start handler mHost (.challenge [])) :=
    ⟨hconnected, rfl, rfl⟩
  exact sends_good hbegun rfl (start_good hconnected mHost) first.brokenPipe

theorem opening_died (A : Authority Cert) (handler : NetworkHandler) (mHost : Str)
    (first : Opening) :
    (opening A handler mHost first).status = .died ↔ ¬ Opens A first := by
  unfold opening
  rcases start_cases A first.env handler mHost with
    ⟨hnone, hfails⟩ | ⟨certificateBytes, hfile, hstart⟩
  · have hsame : (start A first.env handler mHost).sent =
        (Handshake.start handler mHost (.challenge []) : ServerHandshake).sent := by
      rw [hfails]
      rfl
    rw [Handshake.sends_same hsame, hfails]
    exact ⟨by rintro ⟨⟩, fun hopens => (hopens (Or.inl hnone)).elim⟩
  · have hsent : (start A first.env handler mHost).sent =
        (Handshake.start handler mHost (.challenge []) : ServerHandshake).sent ++
          [strBytes certificateBytes] := by
      rcases hstart with hfails | hsends
      · rw [hfails]
        rfl
      · rw [hsends]
        rfl
    cases hbroken : first.brokenPipe with
    | true =>
        rw [Handshake.sends_broken hsent]
        refine ⟨?_, fun _ => rfl⟩
        rintro _ (hnone | hwhole)
        · rw [hfile] at hnone
          cases hnone
        · rw [hbroken] at hwhole
          cases hwhole
    | false =>
        rw [Handshake.sends_whole]
        refine ⟨?_, fun hopens => (hopens (Or.inr hbroken)).elim⟩
        rcases hstart with hfails | hsends
        · rw [hfails]
          rintro ⟨⟩
        · rw [hsends]
          rintro ⟨⟩

theorem exchangeKeys_socket (env : HandshakeEnv) (peerPublicKey : PublicKey) :
    (h.exchangeKeys P env peerPublicKey).handler.mSocket = h.handler.mSocket := by
  cases hcrypto : h.handler.mCrypto with
  | none =>
      rw [exchangeKeys, hcrypto]
      rfl
  | some mCrypto =>
      rcases exchangeKeys_cases P env hcrypto peerPublicKey with hfails | hestablishes
      · rw [hfails]
        rfl
      · rw [hestablishes]
        rcases Handshake.establish_cases P
          ({ h with peerPublicKey := some peerPublicKey.toStr }.send
            (mCrypto.getPublicKey P).1) peerPublicKey.toStr with hstops | ⟨session, _, hdone⟩
        · rw [hstops]
          rfl
        · rw [hdone]
          rfl

theorem signChallenge_socket (env : HandshakeEnv) (challengeBytes : Block 40) :
    (h.signChallenge A env challengeBytes).handler.mSocket = h.handler.mSocket := by
  rcases signChallenge_cases A env h challengeBytes with
    ⟨hfails, _⟩ | ⟨challenge, signature, _, _, hfails | hawaits⟩
  · rw [hfails]
    rfl
  · rw [hfails]
    rfl
  · rw [hawaits]
    rfl

theorem receiving_socket {size : Nat} {w : List UInt8 → ServerWaiting}
    {next : Block size → ServerHandshake}
    (hnext : ∀ bytes, (next bytes).handler.mSocket = h.handler.mSocket) (r : Receiving size) :
    (h.receiving w next r).handler.mSocket = h.handler.mSocket := by
  cases r with
  | waiting received => rfl
  | returned result =>
      cases result with
      | none => rfl
      | some bytes => exact hnext bytes
  | stopped => rfl

theorem turn_socket : (turn P A h t).handler.mSocket = h.handler.mSocket := by
  have hreceive : (h.receive P A t.env t.recv).handler.mSocket = h.handler.mSocket := by
    unfold receive
    cases h.phase with
    | waiting w =>
        cases w with
        | challenge received => exact receiving_socket (signChallenge_socket t.env) _
        | publicKey received => exact receiving_socket (exchangeKeys_socket t.env) _
    | returned result => rfl
    | stopped => rfl
  unfold turn Handshake.sends
  split
  · rfl
  · exact hreceive

theorem opening_socket (handler : NetworkHandler) (mHost : Str) (first : Opening) :
    (opening A handler mHost first).handler.mSocket = handler.mSocket := by
  have hstart : (start A first.env handler mHost).handler.mSocket = handler.mSocket := by
    rcases start_cases A first.env handler mHost with
      ⟨_, hfails⟩ | ⟨certificateBytes, _, hfails | hsends⟩
    · rw [hfails]
      rfl
    · rw [hfails]
      rfl
    · rw [hsends]
      rfl
  unfold opening Handshake.sends
  split
  · rfl
  · exact hstart

end ServerHandshake

namespace ConnectionSetter

open ServerHandshake

variable {Cert : Type} {P : Primitives} {A : Authority Cert} {s : ServerProcess}
  {clientSocket : Unopened s.descriptors} {clientIP : Str} {first : Opening}
  {turns : Nat → Turn} {n : Nat}

theorem handshake_good (fd : Int) : Good P (handshake P A fd clientIP first turns n) :=
  loop_works.good_run (opening_good rfl clientIP first) n

theorem handshake_socket (fd : Int) :
    (handshake P A fd clientIP first turns n).handler.mSocket = fd := by
  induction n with
  | zero => exact opening_socket (NetworkHandler.fresh.setSocket fd) clientIP first
  | succ n ih =>
      have hturn : (handshake P A fd clientIP first turns (n + 1)).handler.mSocket =
          (handshake P A fd clientIP first turns n).handler.mSocket := turn_socket
      rw [hturn, ih]

theorem closeHandler_closed (s : ServerProcess) {handler : NetworkHandler}
    (hclosed : handler.mSocket = -1) : closeHandler s handler = s := if_pos hclosed

/-- The descriptor that was accepted is closed once, and no other. -/
theorem closeHandler_accepted {handler : NetworkHandler}
    (hsocket : handler.mSocket = clientSocket.1) :
    closeHandler { s with descriptors := insert clientSocket.1 s.descriptors } handler = s := by
  have hopened : handler.mSocket ≠ -1 := by
    have hnonneg := clientSocket.2.1
    omega
  rw [closeHandler, if_neg hopened]
  simp only [hsocket, Finset.erase_insert clientSocket.2.2]

/-- A handshake that returns anything but 0 leaves the process as it was. -/
theorem getConnections_failed {result : Int}
    (hreturned : (handshake P A clientSocket.1 clientIP first turns n).phase =
      .returned result) (hfailed : result ≠ 0) :
    getConnections P A s (some clientSocket) clientIP first turns n = some (-1, s) := by
  simp only [getConnections, hreturned, if_pos hfailed]
  rw [closeHandler_accepted (handshake_socket clientSocket.1), closeHandler_closed s rfl]

/-- One that returns 0 leaves a connection more, and the socket open. -/
theorem getConnections_connected
    (hreturned : (handshake P A clientSocket.1 clientIP first turns n).phase = .returned 0) :
    getConnections P A s (some clientSocket) clientIP first turns n =
      some (0,
        { server := { s.server with
            connections := s.server.connections.insert
              (handshake P A clientSocket.1 clientIP first turns n).handler }
          descriptors := insert clientSocket.1 s.descriptors }) := by
  simp only [getConnections, hreturned, ne_eq, not_true_eq_false, if_false]
  rw [closeHandler_closed _ rfl]
  rfl

/-- The connection it leaves is one the server may go on with. -/
theorem getConnections_connects {after : ServerProcess}
    (hcall : getConnections P A s (some clientSocket) clientIP first turns n =
      some (0, after)) (hash : Str → UInt64) :
    ∃ handler, Server.Step P hash s.server (.connect handler) after.server := by
  cases hphase : (handshake P A clientSocket.1 clientIP first turns n).phase with
  | returned result =>
      by_cases hresult : result = 0
      · subst hresult
        rw [getConnections_connected hphase, Option.some.injEq, Prod.mk.injEq] at hcall
        obtain ⟨session, hhandler⟩ :=
          Handshake.Good.establishedWith (handshake_good clientSocket.1) hphase
        rw [← hcall.2]
        exact ⟨_, Server.Step.connect hhandler⟩
      · rw [getConnections_failed hphase hresult] at hcall
        cases hcall
  | _ =>
      simp only [getConnections, hphase] at hcall
      cases hcall

theorem getConnections_returned :
    getConnections P A s (some clientSocket) clientIP first turns n ≠ none ↔
      (handshake P A clientSocket.1 clientIP first turns n).status = .returned := by
  cases hphase : (handshake P A clientSocket.1 clientIP first turns n).phase with
  | returned result =>
      rw [status, hphase]
      refine ⟨fun _ => rfl, fun _ => ?_⟩
      by_cases hresult : result = 0
      · subst hresult
        rw [getConnections_connected hphase]
        exact Option.some_ne_none _
      · rw [getConnections_failed hphase hresult]
        exact Option.some_ne_none _
  | waiting w =>
      rw [status, hphase]
      refine ⟨fun hsome => (hsome ?_).elim, by rintro ⟨⟩⟩
      simp only [getConnections, hphase]
  | stopped =>
      rw [status, hphase]
      refine ⟨fun hsome => (hsome ?_).elim, by rintro ⟨⟩⟩
      simp only [getConnections, hphase]

theorem getConnections_returns_iff :
    (∃ n, getConnections P A s (some clientSocket) clientIP first turns n ≠ none) ↔
      Opens A first ∧ ∀ n w,
        (handshake P A clientSocket.1 clientIP first turns n).phase = .waiting w →
          ¬ Fatal A (turns n) w ∧ ∃ m, n ≤ m ∧ ¬ (turns m).Again := by
  have hbegun : Good P
      (opening A (NetworkHandler.fresh.setSocket clientSocket.1) clientIP first) :=
    opening_good rfl clientIP first
  have hdied := opening_died A (NetworkHandler.fresh.setSocket clientSocket.1) clientIP first
  simp only [getConnections_returned]
  by_cases hopens : Opens A first
  · refine (loop_works.returns_iff hbegun fun hstatus => hdied.mp hstatus hopens).trans ?_
    constructor
    · refine fun hspared => ⟨hopens, fun n w hwaits => ?_⟩
      obtain ⟨hfatal, hother⟩ := hspared n (missing w) (status_waiting.mpr ⟨w, hwaits, rfl⟩)
      exact ⟨fun hw => hfatal ⟨w, hwaits, hw⟩, hother⟩
    · rintro ⟨_, hspared⟩ n k hstatus
      obtain ⟨w, hwaits, _⟩ := status_waiting.mp hstatus
      obtain ⟨hfatal, hother⟩ := hspared n w hwaits
      refine ⟨?_, hother⟩
      rintro ⟨w', hwaits', hw'⟩
      have hsame : w' = w := Phase.waiting.inj (hwaits'.symm.trans hwaits)
      exact hfatal (hsame ▸ hw')
  · refine ⟨?_, fun hspared => (hopens hspared.1).elim⟩
    rintro ⟨n, hreturned⟩
    have hstatus := hdied.mpr hopens
    have hended : ∀ k, ((loop P A).run
        (opening A (NetworkHandler.fresh.setSocket clientSocket.1) clientIP first) turns
        0).status ≠ .waiting k := by
      intro k hk
      rw [Loop.run, hstatus] at hk
      cases hk
    have hsame := loop_works.run_settled (Nat.zero_le n) hended
    rw [handshake, hsame, Loop.run, hstatus] at hreturned
    cases hreturned

/-- Whatever it returns, a call whose handshake has not succeeded changes
nothing. -/
theorem getConnections_unchanged {accepted : Option (Unopened s.descriptors)} {result : Int}
    {after : ServerProcess}
    (hcall : getConnections P A s accepted clientIP first turns n = some (result, after))
    (hfailed : ∀ clientSocket, accepted = some clientSocket →
      (handshake P A clientSocket.1 clientIP first turns n).phase ≠ .returned 0) :
    after = s := by
  cases accepted with
  | none =>
      simp only [getConnections, Option.some.injEq, Prod.mk.injEq] at hcall
      exact hcall.2.symm
  | some clientSocket =>
      cases hphase : (handshake P A clientSocket.1 clientIP first turns n).phase with
      | returned result' =>
          have hresult : result' ≠ 0 := by
            rintro rfl
            exact hfailed clientSocket rfl hphase
          rw [getConnections_failed hphase hresult, Option.some.injEq, Prod.mk.injEq] at hcall
          exact hcall.2.symm
      | _ =>
          simp only [getConnections, hphase] at hcall
          cases hcall

/-- An accepted client is contained exactly if no `send` finds its connection
closed, no `recv` fails for good, and none is to be tried again for ever. -/
theorem getConnections_contained_iff (P : Primitives) (A : Authority Cert) (s : ServerProcess)
    (accepted : Option (Unopened s.descriptors)) (clientIP : Str) (first : Opening)
    (turns : Nat → Turn) :
    Contained P A s accepted clientIP first turns ↔
      ∀ clientSocket, accepted = some clientSocket →
        Opens A first ∧ ∀ n w,
          (handshake P A clientSocket.1 clientIP first turns n).phase = .waiting w →
            ¬ Fatal A (turns n) w ∧ ∃ m, n ≤ m ∧ ¬ (turns m).Again := by
  cases accepted with
  | none =>
      refine ⟨?_, fun _ => ⟨⟨0, Option.some_ne_none _⟩, ?_⟩⟩
      · rintro _ clientSocket ⟨⟩
      · intro n result after
        exact getConnections_unchanged
  | some clientSocket =>
      constructor
      · rintro ⟨hreturns, _⟩ _ ⟨⟩
        exact getConnections_returns_iff.mp hreturns
      · intro hspared
        refine ⟨getConnections_returns_iff.mpr (hspared clientSocket rfl), ?_⟩
        intro n result after
        exact getConnections_unchanged

/-- The client resets the connection instead of sending its challenge: the
server exits. -/
theorem getConnections_reset :
    ¬ ∀ (s : ServerProcess) (accepted : Option (Unopened s.descriptors)) (clientIP : Str)
        (first : Opening) (turns : Nat → Turn),
      Contained .clear Network.sampleAuthority s accepted clientIP first turns := by
  intro hcontained
  obtain ⟨hreturns, _⟩ := hcontained ⟨.fresh, ∅⟩ (some ⟨3, by decide, by decide⟩) .empty
    ⟨Network.undisturbed (Block.zero 32) 0 0, false⟩
    (fun _ => ⟨⟨Network.undisturbed (Block.zero 32) 0 0, false⟩, .idle⟩)
  have hcertified : (opening Network.sampleAuthority Network.sampleHandler .empty
      ⟨Network.undisturbed (Block.zero 32) 0 0, false⟩).phase = .waiting (.challenge []) := by
    rw [opening, Handshake.sends_whole, Network.start_server Network.sampleCredentials]
    rfl
  exact ((getConnections_returns_iff.mp hreturns).2 0 _ hcertified).1 (Or.inl ⟨rfl, rfl⟩)

end ConnectionSetter

end LeakyChat

/-
Handlers as objects of a program: built, given a socket, connected, moved and
used again.  What `sendPacket` and `receivePacket` test is the connection and
`mCryptoState`; what they use is `mCrypto`, which a move takes away alone.
-/
import LeakyChat.HandshakeAgreement
import LeakyChat.Library.Objects

namespace LeakyChat

open Objects Transition

/-- How a call on a handler ends. -/
inductive HandlerReturn where
  | done
  | int (result : Int)
  | packet (packet : Option Packet)
  /-- It waits in `recv`. -/
  | blocked
  /-- `exit(1)`. -/
  | stopped
  | threw (fault : Fault)

/-- What the sockets do while a handshake goes on, `recv` after `recv`. -/
abbrev HandshakeEvents := List (HandshakeEnv × Recv)

def Handshake.outcome {Waiting : Type} (h : Handshake Waiting) : HandlerReturn :=
  match h.phase with
  | .waiting _ => .blocked
  | .returned result => .int result
  | .stopped => .stopped

namespace NetworkHandler

/-- The move constructor, and what it leaves of `other`. -/
def moveFrom (other : NetworkHandler) : NetworkHandler × NetworkHandler :=
  (other, { other with mSocket := -1, mConnected := false, mCrypto := none })

/-- The move assignment, and what it leaves of `other`. -/
def moveAssign (this other : NetworkHandler) : NetworkHandler × NetworkHandler :=
  ({ this.close with
      mSocket := other.mSocket
      mInitialized := other.mInitialized
      mConnected := other.mConnected
      mCrypto := other.mCrypto
      mCryptoState := other.mCryptoState },
    { other with mSocket := -1, mConnected := false, mCrypto := none })

section

variable {Cert : Type} (P : Primitives) (A : Authority Cert) (h : NetworkHandler)
  (mHost : Str)

def performClientHandshake (events : HandshakeEvents) : HandlerReturn × NetworkHandler :=
  let handshake : ClientHandshake Cert :=
    events.foldl (fun handshake event => handshake.receive P A event.1 event.2)
      (.start h mHost)
  (handshake.outcome, handshake.handler)

def performServerHandshake (first : HandshakeEnv) (events : HandshakeEvents) :
    HandlerReturn × NetworkHandler :=
  let handshake : ServerHandshake :=
    events.foldl (fun handshake event => handshake.receive P A event.1 event.2)
      (.start A first h mHost)
  (handshake.outcome, handshake.handler)

/-- `sock` is what `socket` returns, `connected` what `::connect` does. -/
def connect (sock connected : Int) (events : HandshakeEvents) :
    HandlerReturn × NetworkHandler :=
  if h.mInitialized then
    if sock < 0 then (.int (-1), h)
    else if connected < 0 then (.int (-1), h)
    else
      match performClientHandshake P A { h with mConnected := true, mSocket := sock } mHost
        events with
      | (.int result, h) => if result ≠ 0 then (.int (-1), h.close) else (.int 0, h)
      | (out, h) => (out, h)
  else (.int (-1), h)

end

end NetworkHandler

/-- The member functions of a handler.  `mHost` comes with the call: once moved
from, it can be any string. -/
inductive HandlerCall where
  | setSocket (socket : Int)
  | connect (mHost : Str) (sock connected : Int) (events : HandshakeEvents)
  | performClientHandshake (mHost : Str) (events : HandshakeEvents)
  | performServerHandshake (mHost : Str) (first : HandshakeEnv) (events : HandshakeEvents)
  | sendPacket (nonce : Nonce) (packet : Packet) (bytesSent : Int)
  | receivePacket (recv : Recv) (stack : Stack)
  | close

namespace NetworkHandler

variable {Cert : Type} (P : Primitives) (A : Authority Cert)

def call : HandlerCall → NetworkHandler → HandlerReturn × NetworkHandler
  | .setSocket socket, h => (.int 0, h.setSocket socket)
  | .connect mHost sock connected events, h => h.connect P A mHost sock connected events
  | .performClientHandshake mHost events, h => h.performClientHandshake P A mHost events
  | .performServerHandshake mHost first events, h =>
      h.performServerHandshake P A mHost first events
  | .sendPacket nonce packet bytesSent, h =>
      match h.sendPacket P nonce packet bytesSent with
      | .ok (result, _) => (.int result, h)
      | .error fault => (.threw fault, h)
  | .receivePacket recv stack, h =>
      match h.receivePacket P recv stack with
      | (h, .ok packet) => (.packet packet, h)
      | (h, .error fault) => (.threw fault, h)
  | .close, h => (.done, h.close)

def handlers : Class Unit HandlerCall HandlerReturn NetworkHandler where
  build _ := fresh
  moveFrom := moveFrom
  moveAssign := moveAssign
  call := call P A

/-- A handler that may send and receive has a session to do it under. -/
def Guarded (h : NetworkHandler) : Prop :=
  h.ready = true → ∃ mCrypto, h.mCrypto = some mCrypto ∧ mCrypto.mEstablished = true

/-- What a handler is whose session has been moved away. -/
def Hollow (h : NetworkHandler) : Prop :=
  h.mCryptoState = .established ∧ h.mCrypto = none

/-- No socket for a handler whose session has been moved away. -/
def Furnished : HandlerCall → NetworkHandler → Prop
  | .setSocket _, h => ¬ h.Hollow
  | _, _ => True

/-- An established state has its session. -/
def Backed (h : NetworkHandler) : Prop :=
  h.mCryptoState = .established →
    ∃ mCrypto, h.mCrypto = some mCrypto ∧ mCrypto.mEstablished = true

/-- The invariant: a handler that lacks its session is not connected. -/
def Sound (h : NetworkHandler) : Prop :=
  h.Backed ∨ h.Hollow ∧ h.mConnected = false

variable {P A} {h : NetworkHandler}

theorem backed_of_handshaking (hstate : h.mCryptoState = .handshaking) : h.Backed := by
  intro hestablished
  rw [hstate] at hestablished
  cases hestablished

theorem backed_of_disconnected (hstate : h.mCryptoState = .disconnected) : h.Backed := by
  intro hestablished
  rw [hstate] at hestablished
  cases hestablished

theorem close_backed (h : NetworkHandler) : h.close.Backed := backed_of_disconnected rfl

theorem Sound.guarded (hsound : h.Sound) : h.Guarded := by
  intro hready
  rw [ready, decide_eq_true_eq] at hready
  rcases hsound with hbacked | ⟨_, hconnected⟩
  · exact hbacked hready.2
  · rw [hconnected] at hready
    cases hready.1

/-- What passes the guard has a session to seal a packet with. -/
theorem Guarded.sendPacket_ne_undefined (hguarded : h.Guarded) (nonce : Nonce)
    (packet : Packet) (bytesSent : Int) :
    h.sendPacket P nonce packet bytesSent ≠ .error .undefined := by
  intro hsend
  by_cases hready : h.ready = true
  · obtain ⟨mCrypto, hcrypto, hestablished⟩ := hguarded hready
    have hwith : h.EstablishedWith mCrypto := ⟨hready, hcrypto, hestablished⟩
    cases (hwith.sendPacket_fault hsend).1
  · rw [sendPacket, if_neg hready] at hsend
    cases hsend

/-- A socket makes a handler that lacks its session look ready. -/
theorem Hollow.setSocket (hhollow : h.Hollow) (socket : Int) :
    (h.setSocket socket).ready = true ∧ (h.setSocket socket).mCrypto = none := by
  refine ⟨?_, hhollow.2⟩
  rw [ready, decide_eq_true_eq]
  exact ⟨rfl, hhollow.1⟩

theorem Hollow.sendPacket_undefined (hhollow : h.Hollow) (socket : Int) (nonce : Nonce)
    (packet : Packet) (bytesSent : Int) :
    (h.setSocket socket).sendPacket P nonce packet bytesSent = .error .undefined := by
  obtain ⟨hready, hnone⟩ := hhollow.setSocket socket
  simp only [sendPacket, hready, ↓reduceIte, outgoing, hnone]

theorem Sound.moveFrom (hsound : h.Sound) :
    (NetworkHandler.moveFrom h).1.Sound ∧ (NetworkHandler.moveFrom h).2.Sound := by
  refine ⟨hsound, ?_⟩
  by_cases hstate : h.mCryptoState = .established
  · exact Or.inr ⟨⟨hstate, rfl⟩, rfl⟩
  · exact Or.inl fun hestablished => (hstate hestablished).elim

theorem Sound.setSocket_iff (hsound : h.Sound) (socket : Int) :
    (h.setSocket socket).Guarded ↔ ¬ h.Hollow := by
  constructor
  · intro hguarded hhollow
    obtain ⟨hready, hnone⟩ := hhollow.setSocket socket
    obtain ⟨mCrypto, hsome, _⟩ := hguarded hready
    rw [hnone] at hsome
    cases hsome
  · intro hfurnished
    rcases hsound with hbacked | ⟨hhollow, _⟩
    · exact Sound.guarded (Or.inl hbacked)
    · exact (hfurnished hhollow).elim

end NetworkHandler

namespace Handshake

variable {Waiting : Type} {h : Handshake Waiting}

/-- Nothing is established while a handshake waits, and nothing without a
session once it has ended. -/
structure Steady (h : Handshake Waiting) : Prop where
  waiting : ∀ w, h.phase = .waiting w → h.handler.mCryptoState = .handshaking
  backed : h.handler.Backed

theorem steady_of_handshaking (hstate : h.handler.mCryptoState = .handshaking) : h.Steady :=
  ⟨fun _ _ => hstate, NetworkHandler.backed_of_handshaking hstate⟩

theorem establish_steady {P : Primitives} (hstate : h.handler.mCryptoState = .handshaking)
    (peerPublicKey : Str) : (h.establish P peerPublicKey).Steady := by
  rcases h.establish_cases P peerPublicKey with hstops | ⟨session, hsession, hestablish⟩
  · rw [hstops]
    exact steady_of_handshaking hstate
  · rw [hestablish]
    refine ⟨?_, fun _ => ⟨session, rfl, hsession⟩⟩
    rintro w ⟨⟩

/-- What every `recv` keeps, all of them keep. -/
theorem Steady.foldl {receive : Handshake Waiting → HandshakeEnv × Recv → Handshake Waiting}
    (hreceive : ∀ h event, h.Steady → (receive h event).Steady) (events : HandshakeEvents)
    (hsteady : h.Steady) : (events.foldl receive h).Steady := by
  induction events generalizing h with
  | nil => exact hsteady
  | cons event events ih => exact ih (hreceive h event hsteady)

end Handshake

namespace ClientHandshake

variable {Cert : Type} {P : Primitives} {A : Authority Cert} {env : HandshakeEnv}
  {h : ClientHandshake Cert}

theorem checkCertificate_state (bytes : List UInt8) :
    (h.checkCertificate A env bytes).handler.mCryptoState = h.handler.mCryptoState := by
  rcases checkCertificate_cases A env h bytes with
    hfails | ⟨_, certificate, random, _, _, _, hfails | hawaits⟩
  · rw [hfails]
    rfl
  · rw [hfails]
    rfl
  · rw [hawaits]
    rfl

theorem checkSignature_state (certificate : Cert) (challenge : Str) (bytes : List UInt8) :
    (h.checkSignature P A env certificate challenge bytes).handler.mCryptoState =
      h.handler.mCryptoState := by
  rcases checkSignature_cases P A env h certificate challenge bytes with
    ⟨hfails, _⟩ | ⟨signature, _, _, hfails | hawaits⟩
  · rw [hfails]
    rfl
  · rw [hfails]
    rfl
  · rw [hawaits]
    rfl

theorem receivePublicKey_steady (hstate : h.handler.mCryptoState = .handshaking)
    (bytes : List UInt8) : (h.receivePublicKey P bytes).Steady := by
  rcases receivePublicKey_cases P h bytes with hfails | ⟨peerPublicKey, hestablishes⟩
  · rw [hfails]
    exact Handshake.steady_of_handshaking hstate
  · rw [hestablishes]
    exact Handshake.establish_steady hstate _

theorem receive_steady (recv : Recv) (hsteady : h.Steady) :
    (h.receive P A env recv).Steady := by
  unfold receive
  cases hp : h.phase with
  | waiting w =>
      have hstate := hsteady.waiting w hp
      cases recv with
      | idle => cases w <;> exact Handshake.steady_of_handshaking hstate
      | closed => cases w <;> exact Handshake.steady_of_handshaking hstate
      | chunk bytes =>
          cases w with
          | certificate =>
              apply Handshake.steady_of_handshaking
              exact (checkCertificate_state bytes.1).trans hstate
          | signature certificate challenge =>
              apply Handshake.steady_of_handshaking
              exact (checkSignature_state certificate challenge bytes.1).trans hstate
          | publicKey => exact receivePublicKey_steady hstate bytes.1
  | returned result => exact hsteady
  | stopped => exact hsteady

end ClientHandshake

namespace ServerHandshake

variable {Cert : Type} {P : Primitives} {A : Authority Cert} {env : HandshakeEnv}
  {h : ServerHandshake}

theorem start_steady (handler : NetworkHandler) (mHost : Str) :
    (start A env handler mHost).Steady := by
  apply Handshake.steady_of_handshaking
  rcases start_cases A env handler mHost with
    ⟨_, hfails⟩ | ⟨certificateBytes, _, hfails | hsends⟩
  · rw [hfails]
    rfl
  · rw [hfails]
    rfl
  · rw [hsends]
    rfl

theorem signChallenge_state (challengeBytes : Block 40) :
    (h.signChallenge A env challengeBytes).handler.mCryptoState = h.handler.mCryptoState := by
  rcases signChallenge_cases A env h challengeBytes with
    ⟨hfails, _⟩ | ⟨challenge, signature, _, _, hfails | hawaits⟩
  · rw [hfails]
    rfl
  · rw [hfails]
    rfl
  · rw [hawaits]
    rfl

theorem exchangeKeys_steady (hstate : h.handler.mCryptoState = .handshaking)
    (peerPublicKey : PublicKey) : (h.exchangeKeys P env peerPublicKey).Steady := by
  cases hcrypto : h.handler.mCrypto with
  | none =>
      have hstops : h.exchangeKeys P env peerPublicKey = h.stop := by
        rw [exchangeKeys, hcrypto]
      rw [hstops]
      exact Handshake.steady_of_handshaking hstate
  | some mCrypto =>
      rcases exchangeKeys_cases P env hcrypto peerPublicKey with
        hfails | hestablishes
      · rw [hfails]
        exact Handshake.steady_of_handshaking hstate
      · rw [hestablishes]
        apply Handshake.establish_steady
        exact hstate

theorem receiving_steady {size : Nat} {w : List UInt8 → ServerWaiting}
    {next : Block size → ServerHandshake} (hstate : h.handler.mCryptoState = .handshaking)
    (hnext : ∀ bytes, (next bytes).Steady) (r : Receiving size) :
    (h.receiving w next r).Steady := by
  cases r with
  | waiting received => exact Handshake.steady_of_handshaking hstate
  | returned result =>
      cases result with
      | none => exact Handshake.steady_of_handshaking hstate
      | some bytes => exact hnext bytes
  | stopped => exact Handshake.steady_of_handshaking hstate

theorem receive_steady (recv : Recv) (hsteady : h.Steady) :
    (h.receive P A env recv).Steady := by
  unfold receive
  cases hp : h.phase with
  | waiting w =>
      have hstate := hsteady.waiting w hp
      cases w with
      | challenge received =>
          apply receiving_steady hstate
          intro bytes
          exact Handshake.steady_of_handshaking ((signChallenge_state bytes).trans hstate)
      | publicKey received => exact receiving_steady hstate (exchangeKeys_steady hstate) _
  | returned result => exact hsteady
  | stopped => exact hsteady

end ServerHandshake

namespace NetworkHandler

variable {Cert : Type} {P : Primitives} {A : Authority Cert} {h : NetworkHandler}

theorem performClientHandshake_backed (h : NetworkHandler) (mHost : Str)
    (events : HandshakeEvents) : (h.performClientHandshake P A mHost events).2.Backed := by
  apply Handshake.Steady.backed
  apply Handshake.Steady.foldl
  · exact fun handshake event => ClientHandshake.receive_steady event.2
  · exact Handshake.steady_of_handshaking rfl

theorem performServerHandshake_backed (h : NetworkHandler) (mHost : Str) (first : HandshakeEnv)
    (events : HandshakeEvents) :
    (h.performServerHandshake P A mHost first events).2.Backed := by
  apply Handshake.Steady.backed
  apply Handshake.Steady.foldl
  · exact fun handshake event => ServerHandshake.receive_steady event.2
  · exact ServerHandshake.start_steady h mHost

theorem Sound.connect (hsound : h.Sound) (mHost : Str) (sock connected : Int)
    (events : HandshakeEvents) : (h.connect P A mHost sock connected events).2.Sound := by
  unfold NetworkHandler.connect
  by_cases hinitialized : h.mInitialized = true
  · rw [if_pos hinitialized]
    by_cases hsock : sock < 0
    · rw [if_pos hsock]
      exact hsound
    · rw [if_neg hsock]
      by_cases hfails : connected < 0
      · rw [if_pos hfails]
        exact hsound
      · rw [if_neg hfails]
        have hbacked := performClientHandshake_backed (P := P) (A := A)
          { h with mConnected := true, mSocket := sock } mHost events
        split
        · next result h' heq =>
            rw [heq] at hbacked
            by_cases hresult : result ≠ 0
            · rw [if_pos hresult]
              exact Or.inl h'.close_backed
            · rw [if_neg hresult]
              exact Or.inl hbacked
        · next out h' _ heq =>
            rw [heq] at hbacked
            exact Or.inl hbacked
  · rw [if_neg hinitialized]
    exact hsound

theorem Sound.receivePacket (hsound : h.Sound) (recv : Recv) (stack : Stack) :
    (h.receivePacket P recv stack).1.Sound := by
  unfold NetworkHandler.receivePacket
  by_cases hready : h.ready = true
  · rw [if_pos hready]
    cases recv with
    | idle => exact hsound
    | closed => exact Or.inl h.close_backed
    | chunk bytes =>
        simp only
        split <;> exact hsound
  · rw [if_neg hready]
    exact hsound

theorem Sound.call (c : HandlerCall) (hsound : h.Sound) (hfurnished : Furnished c h) :
    (NetworkHandler.call P A c h).2.Sound := by
  cases c with
  | setSocket socket =>
      rcases hsound with hbacked | ⟨hhollow, _⟩
      · exact Or.inl hbacked
      · exact (hfurnished hhollow).elim
  | connect mHost sock connected events => exact hsound.connect mHost sock connected events
  | performClientHandshake mHost events =>
      exact Or.inl (performClientHandshake_backed h mHost events)
  | performServerHandshake mHost first events =>
      exact Or.inl (performServerHandshake_backed h mHost first events)
  | sendPacket nonce packet bytesSent =>
      simp only [NetworkHandler.call]
      split <;> exact hsound
  | receivePacket recv stack =>
      have hreceived := hsound.receivePacket (P := P) recv stack
      simp only [NetworkHandler.call]
      split
      · next heq =>
          rw [heq] at hreceived
          exact hreceived
      · next heq =>
          rw [heq] at hreceived
          exact hreceived
  | close => exact Or.inl h.close_backed

variable (P A) in
theorem handlers_keep : (handlers P A).Keeps Furnished Sound where
  build _ := Or.inl (backed_of_disconnected rfl)
  moveFrom _ hother := hother.moveFrom
  moveAssign _ _ _ hother := hother.moveFrom
  call c _ hthis hfurnished := hthis.call c hfurnished

variable {ι : Type} [DecidableEq ι] {pool : Pool ι NetworkHandler}

/-- As long as no handler is given a socket after its session has been moved
away, each that may send and receive has an established session; the next step
leaves it so exactly if it is not such a call. -/
theorem handlers_guarded_iff
    (hreach : Reachable ((handlers P A).system.restrict (Meets Furnished)) pool) :
    All Guarded pool ∧
      ∀ label t, (handlers P A).Step pool label t →
        (All Guarded t ↔ Meets Furnished pool label) := by
  have hsound : All Sound pool := (handlers_keep P A).reachable hreach
  refine ⟨hsound.mono fun _ => Sound.guarded, ?_⟩
  intro label t hstep
  apply (handlers_keep P A).step_iff (fun _ => Sound.guarded) _ hsound hstep
  intro c this hthis hguarded
  cases c with
  | setSocket socket => exact (hthis.setSocket_iff socket).mp hguarded
  | _ => trivial

theorem sampleChallenge_fits :
    (strBytes (challengeOf (Block.zero 32))).length ≤ recvBufferSize := by
  rw [challengeOf_length]
  decide

/-- A client that does everything right. -/
def sampleEvents : HandshakeEvents :=
  [(Network.undisturbed (Block.zero 32) 3
      (strBytes Network.sampleCredentials.signature).length,
    .chunk (vectorChunk (challengeOf (Block.zero 32)) sampleChallenge_fits)),
    (Network.undisturbed (Block.zero 32) 0 256,
      .chunk (Primitives.clear.publicKey 2).chunk)]

/-- The handler that has served it. -/
def sampleServed : NetworkHandler :=
  (Network.serverEstablished .clear Network.sampleCredentials Network.sampleHandler .empty 3
    (Primitives.clear.publicKey 2)).handler

theorem serve_sample :
    call .clear Network.sampleAuthority
      (.performServerHandshake .empty (Network.undisturbed (Block.zero 32) 0 0) sampleEvents)
      Network.sampleHandler = (.int 0, sampleServed) := by
  simp only [call, performServerHandshake, sampleEvents, List.foldl_cons, List.foldl_nil]
  rw [Network.start_server Network.sampleCredentials]
  rw [Network.receive_challenge Network.sampleCredentials, Network.server_publicKey]
  rfl

/-- The only object of a program, before and after a call. -/
theorem step_only {c : HandlerCall} {this left : NetworkHandler} {out : HandlerReturn}
    (hcall : call P A c this = (out, left)) :
    (handlers P A).Step (Function.update (fun _ => none) false (some this))
      (.call false c, some out) (Function.update (fun _ => none) false (some left)) := by
  have hstep : (handlers P A).Step (Function.update (fun _ => none) false (some this))
      (.call false c, some (call P A c this).1)
      (Function.update (Function.update (fun _ => none) false (some this)) false
        (some (call P A c this).2)) :=
    Class.Step.call c (Function.update_self ..)
  rw [Function.update_idem, hcall] at hstep
  exact hstep

/-- The program holds the connection in one variable, then in the other. -/
def sampleMoved : Pool Bool NetworkHandler :=
  Function.update
    (Function.update (Function.update (fun _ => none) false (some sampleServed)) false
      (some (moveFrom sampleServed).2)) true (some (moveFrom sampleServed).1)

theorem reachable_sampleMoved :
    Reachable ((handlers .clear Network.sampleAuthority).system.restrict (Meets Furnished))
      sampleMoved := by
  have hbuilt : Reachable
      ((handlers .clear Network.sampleAuthority).system.restrict (Meets Furnished))
      (Function.update (fun _ => none) false (some fresh)) := by
    have hbuild : (handlers .clear Network.sampleAuthority).Step (fun _ => none)
        (.build false (), none) (Function.update (fun _ => none) false (some fresh)) :=
      Class.Step.build () rfl
    refine (Reachable.of_init rfl).step ⟨hbuild, ?_⟩
    rintro i c this ⟨⟩
  have hsocket : Reachable
      ((handlers .clear Network.sampleAuthority).system.restrict (Meets Furnished))
      (Function.update (fun _ => none) false (some Network.sampleHandler)) := by
    refine hbuilt.step ⟨step_only (c := .setSocket 3) rfl, ?_⟩
    rintro i c this ⟨⟩ hthis
    rw [Function.update_self, Option.some.injEq] at hthis
    subst hthis
    rintro ⟨⟨⟩, _⟩
  have hserved : Reachable
      ((handlers .clear Network.sampleAuthority).system.restrict (Meets Furnished))
      (Function.update (fun _ => none) false (some sampleServed)) := by
    refine hsocket.step ⟨step_only serve_sample, ?_⟩
    rintro i c this ⟨⟩ _
    trivial
  have hfree : Function.update (fun _ => none) false (some sampleServed) true = none :=
    Function.update_of_ne (by decide) ..
  have hmove : (handlers .clear Network.sampleAuthority).Step
      (Function.update (fun _ => none) false (some sampleServed))
      (.moveBuild true false, none) sampleMoved :=
    Class.Step.moveBuild hfree (Function.update_self ..)
  refine hserved.step ⟨hmove, ?_⟩
  rintro i c this ⟨⟩

/-- Moving a connection leaves both variables guarded, and only a socket for the
one it has left does not. -/
theorem handlers_guarded_iff_sample :
    All Guarded sampleMoved ∧
      ∀ label t, (handlers .clear Network.sampleAuthority).Step sampleMoved label t →
        (All Guarded t ↔ Meets Furnished sampleMoved label) :=
  handlers_guarded_iff reachable_sampleMoved

/-- The handler that has been moved from is given a new socket: it would send
under a session it does not have. -/
theorem handlers_not_guarded :
    ¬ ∀ pool : Pool Bool NetworkHandler,
      Reachable (handlers .clear Network.sampleAuthority).system pool → All Guarded pool := by
  intro hguarded
  have hleft : sampleMoved false = some (moveFrom sampleServed).2 := rfl
  obtain ⟨mCrypto, hcrypto, _⟩ := hguarded _
    (reachable_sampleMoved.of_restrict.step (Class.Step.call (.setSocket 4) hleft)) false _
    (Function.update_self ..) (by decide)
  cases hcrypto

end NetworkHandler

end LeakyChat

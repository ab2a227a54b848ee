/-
Two clients that chat with each other, each under a name, and the sessions they
keep under each other's names.  As long as each handles only what the other has
sent under the other's name, the two sessions run the rekeying protocol of the
library, whatever else the clients do.
-/
import LeakyChat.ClientMoves
import LeakyChat.E2EAgreement

namespace LeakyChat

open Transition
open Relation (ReflTransGen)
open Rekey (Side Keyed)
open E2ESession (Call)

namespace Client

/-- The payloads a client has sent to a name. -/
def sentTo (c : Client) (name : Str) : Set Payload :=
  {pl | ∃ msg : MessagePacket, .message msg ∈ c.sent ∧ msg.mReceiver = name ∧ msg.mPayload = pl}

variable {c : Client} {name peer : Str} {seq : SequenceNo} {pl pl' : Payload}

theorem sentTo_request {pkt : Packet} (hpkt : ∀ msg, pkt ≠ .message msg) :
    ({ c with sent := c.sent ++ [pkt] } : Client).sentTo name = c.sentTo name := by
  ext pl
  constructor
  · rintro ⟨msg, hmsg, hrest⟩
    rcases List.mem_append.mp hmsg with hold | hnew
    · exact ⟨msg, hold, hrest⟩
    · exact absurd (List.mem_singleton.mp hnew).symm (hpkt msg)
  · rintro ⟨msg, hmsg, hrest⟩
    exact ⟨msg, List.mem_append_left _ hmsg, hrest⟩

theorem sentTo_message (hpl : pl ∈ ({ c with
    sent := c.sent ++ [.message ⟨seq, .empty, peer, pl'⟩] } : Client).sentTo name) :
    pl ∈ c.sentTo name ∨ peer = name ∧ pl = pl' := by
  obtain ⟨msg, hmsg, hname, rfl⟩ := hpl
  rcases List.mem_append.mp hmsg with hold | hnew
  · exact Or.inl ⟨msg, hold, hname, rfl⟩
  · cases List.mem_singleton.mp hnew
    exact Or.inr ⟨hname, rfl⟩

end Client

/-- A text is no INIT or ACK. -/
theorem E2ESession.encrypt_control {P : Primitives} {s : E2ESession} {nonce : Nonce} {text : Str}
    {pl : Payload} (hpl : s.encrypt P nonce text = .ok pl) : pl.isE2EControl = false := by
  by_cases hs : s.sessState = .established
  · obtain ⟨eData, _, hdata⟩ := E2ESession.encrypt_eq_ok P hs hpl
    rw [Payload.isE2EControl, (E2EMsg.toPayload_eq_ok.mp hdata).1]
    rfl
  · rw [Payload.isE2EControl, (E2ESession.encrypt_type P hpl).mpr hs]
    rfl

/-- `handleAck` answers nothing. -/
theorem E2ESession.handleAck_reply {P : Primitives} {s t : E2ESession} {pl : Payload}
    {stack : Stack} {reply : Option Payload}
    (hrun : s.handleAck P pl stack = (t, .ok reply)) : reply = none := by
  unfold E2ESession.handleAck E2ESession.acceptAck at hrun
  split at hrun
  · cases hrun
    rfl
  · split at hrun
    · cases hrun
    · split at hrun
      · cases hrun
        rfl
      · split at hrun
        · cases hrun
        · cases hrun
          rfl

/-- The payload carries one of the texts, and if it is encrypted, under a key that the
side has been in agreement on. -/
def Carries (P : Primitives) (s : Rekey.State Nat Nat Key Str) (side : Side) (texts : Set Str)
    (pl : Payload) : Prop :=
  ∃ (session : E2ESession) (nonce : Nonce), ∃ text ∈ texts, session.encrypt P nonce text = .ok pl ∧
    (session.sessState = .established →
      Keyed P.offered P.agreedKey s side session.sequenceNo.toNat session.mCrypto.mKey)

/-- The link has the sessions of the clients under each other's names, `first` in place of
one that is not there yet, and all INITs and ACKs they have sent each other. -/
structure Stands (P : Primitives) (name : Side → Str) (texts : Side → Set Str)
    (clients : Side → Client) (first : Side → E2ESession) (l : Link)
    (s : Rekey.State Nat Nat Key Str) : Prop where
  reachable : Reachable (Rekey.system P.offered P.agreedKey) s
  abstracts : Abstracts l s
  session : ∀ side, l.session side =
    ((clients side).mE2ESessions (name side.other)).getD (first side)
  control : ∀ side, ∀ pl ∈ (clients side).sentTo (name side.other), pl.isE2EControl = true →
    pl ∈ l.sent side
  text : ∀ side, ∀ pl ∈ (clients side).sentTo (name side.other), pl.isE2EControl = false →
    Carries P s side (texts side) pl

/-- There is such a link, with whatever exponents the sessions to come will draw. -/
def Paired (P : Primitives) (name : Side → Str) (texts : Side → Set Str)
    (clients : Side → Client) : Prop :=
  ∀ first : Side → E2ESession, (∀ side, ∃ exponent oldExponent,
    first side = .fresh exponent oldExponent) → ∃ l s, Stands P name texts clients first l s

variable {P : Primitives} {name : Side → Str} {texts texts' : Side → Set Str}
  {clients : Side → Client} {first : Side → E2ESession} {l : Link}
  {s t : Rekey.State Nat Nat Key Str} {side : Side} {d : Client} {known : Set Packet}

theorem Carries.mono {more : Set Str} {pl : Payload}
    (hcarries : Carries P s side (texts side) pl)
    (htexts : texts side ⊆ more) (hkeyed : ∀ n key, Keyed P.offered P.agreedKey s side n key →
      Keyed P.offered P.agreedKey t side n key) : Carries P t side more pl := by
  obtain ⟨session, nonce, text, htext, hencrypt, hagreed⟩ := hcarries
  exact ⟨session, nonce, text, htexts htext, hencrypt, fun hstate => hkeyed _ _ (hagreed hstate)⟩

theorem Paired.fresh (P : Primitives) (name : Side → Str) (texts : Side → Set Str) :
    Paired P name texts fun _ => .fresh := by
  intro first hfirst
  have hinit : (Link.system P).init ⟨first, fun _ => []⟩ := fun side => ⟨hfirst side, rfl⟩
  obtain ⟨s, hs, habs⟩ := Abstracts.exists_init hinit
  refine ⟨_, s, Reachable.of_init hs, habs, fun _ => rfl, ?_, ?_⟩
  · rintro side pl ⟨msg, hmsg, _⟩
    cases hmsg
  · rintro side pl ⟨msg, hmsg, _⟩
    cases hmsg

theorem Paired.mono (hpaired : Paired P name texts clients)
    (htexts : ∀ side, texts side ⊆ texts' side) : Paired P name texts' clients := by
  intro first hfirst
  obtain ⟨l, s, hstands⟩ := hpaired first hfirst
  exact ⟨l, s, hstands.reachable, hstands.abstracts, hstands.session, hstands.control,
    fun side pl hpl hcontrol =>
      (hstands.text side pl hpl hcontrol).mono (htexts side) fun _ _ => id⟩

/-- One client moves on, and its session with it. -/
theorem Stands.update (hstands : Stands P name texts clients first l s) {session : E2ESession}
    {pls : List Payload} (hreach : Reachable (Rekey.system P.offered P.agreedKey) t)
    (habs : Abstracts (l.put side session pls) t)
    (hkeyed : ∀ x n key, Keyed P.offered P.agreedKey s x n key →
      Keyed P.offered P.agreedKey t x n key)
    (hsession : (d.mE2ESessions (name side.other)).getD (first side) = session)
    (hsent : ∀ pl ∈ d.sentTo (name side.other),
      pl ∈ (clients side).sentTo (name side.other) ∨ pl ∈ pls ∧ pl.isE2EControl = true ∨
        pl.isE2EControl = false ∧ Carries P t side (texts side) pl) :
    ∃ l t, Stands P name texts (Function.update clients side d) first l t := by
  have hold : ∀ x pl, pl ∈ (clients x).sentTo (name x.other) → pl.isE2EControl = false →
      Carries P t x (texts x) pl := fun x pl hpl hcontrol =>
    (hstands.text x pl hpl hcontrol).mono Set.Subset.rfl (hkeyed x)
  refine ⟨_, t, hreach, habs, ?_, ?_, ?_⟩ <;> intro x <;> by_cases hx : x = side
  · subst hx
    rw [Link.put_session_self, Function.update_self, hsession]
  · rw [Link.put_session_of_ne l hx, Function.update_of_ne hx]
    exact hstands.session x
  · subst hx
    rw [Function.update_self, Link.put_sent_self]
    intro pl hpl hcontrol
    rcases hsent pl hpl with hbefore | ⟨hnew, _⟩ | ⟨htext, _⟩
    · exact List.mem_append_left _ (hstands.control x pl hbefore hcontrol)
    · exact List.mem_append_right _ hnew
    · rw [hcontrol] at htext
      cases htext
  · rw [Function.update_of_ne hx, Link.put_sent_of_ne l hx]
    exact hstands.control x
  · subst hx
    rw [Function.update_self]
    intro pl hpl hcontrol
    rcases hsent pl hpl with hbefore | ⟨_, hfalse⟩ | ⟨_, hcarries⟩
    · exact hold x pl hbefore hcontrol
    · rw [hcontrol] at hfalse
      cases hfalse
    · exact hcarries
  · rw [Function.update_of_ne hx]
    exact hold x

/-- What leaves the session alone, and sends no INIT or ACK to the other client. -/
theorem Stands.aside (hstands : Stands P name texts clients first l s)
    (hsession : d.mE2ESessions (name side.other) = (clients side).mE2ESessions (name side.other))
    (hsent : ∀ pl ∈ d.sentTo (name side.other),
      pl ∈ (clients side).sentTo (name side.other) ∨
        pl.isE2EControl = false ∧ Carries P s side (texts side) pl) :
    ∃ l t, Stands P name texts (Function.update clients side d) first l t := by
  have hsame : (d.mE2ESessions (name side.other)).getD (first side) = l.session side := by
    rw [hsession, hstands.session side]
  refine hstands.update hstands.reachable (hstands.abstracts.of_put_self side)
    (fun _ _ _ => id) hsame ?_
  exact fun pl hpl => (hsent pl hpl).imp_right Or.inr

/-- A call of a method of the session, and the INIT or ACK that comes of it. -/
theorem Stands.called (hstands : Stands P name texts clients first l s) {session : E2ESession}
    {pls : List Payload} {action : Link.Action}
    (hstep : Link.Step P l action (l.put side session pls))
    (hsession : d.mE2ESessions (name side.other) = some session)
    (hcontrol : ∀ pl ∈ pls, pl.isE2EControl = true)
    (hsent : ∀ pl ∈ d.sentTo (name side.other),
      pl ∈ (clients side).sentTo (name side.other) ∨ pl ∈ pls) :
    ∃ l t, Stands P name texts (Function.update clients side d) first l t := by
  have hget : (d.mE2ESessions (name side.other)).getD (first side) = session := by
    rw [hsession, Option.getD_some]
  have hadded : ∀ {t : Rekey.State Nat Nat Key Str}, ∀ pl ∈ d.sentTo (name side.other),
      pl ∈ (clients side).sentTo (name side.other) ∨ pl ∈ pls ∧ pl.isE2EControl = true ∨
        pl.isE2EControl = false ∧ Carries P t side (texts side) pl :=
    fun pl hpl => (hsent pl hpl).imp_right fun hnew => Or.inl ⟨hnew, hcontrol pl hnew⟩
  rcases hstands.abstracts.step hstep with hsame | ⟨x, t, hrekey, habs⟩
  · exact hstands.update hstands.reachable hsame (fun _ _ _ => id) hget hadded
  · have hsystem : (Rekey.system P.offered P.agreedKey).step s x t := hrekey
    have hreach := hstands.reachable.step hsystem
    exact hstands.update hreach habs (fun _ _ _ hkeyed => hkeyed.step hrekey) hget hadded

/-- A call that starts an exchange, as an action of the link. -/
theorem exists_start {call : Call} {session session' : E2ESession} {pl : Payload}
    (hl : l.session side = session) (hstarts : call.Starts) (hallowed : call.Allowed session)
    (hbound : session.sequenceNo.toNat + 1 < 2 ^ 32)
    (hrun : session.run P call = (session', .ok (some pl))) :
    pl.isE2EControl = true ∧ ∃ action, Link.Step P l action (l.put side session' [pl]) := by
  subst hl
  have hmethod : ∀ {r : E2ESession × Except Fault Payload},
      (r.1, r.2.map some) = (session', .ok (some pl)) → r = (session', .ok pl) := by
    rintro ⟨next, result⟩ hsame
    cases result with
    | error fault => cases congrArg Prod.snd hsame
    | ok pl' =>
        cases hsame
        rfl
  cases call with
  | initiate now =>
      have hinitiate := hmethod hrun
      refine ⟨?_, .initiate side now, .initiate hallowed hbound hinitiate⟩
      exact Client.isE2EControl_init (E2ESession.sendInit_type P hinitiate)
  | refresh now exponent =>
      have hrefresh := hmethod hrun
      refine ⟨?_, .refresh side now exponent, .refresh hbound hrefresh⟩
      exact Client.isE2EControl_init (E2ESession.sendInit_type P hrefresh)
  | handleInit pl stack exponent => exact hstarts.elim
  | handleAck pl stack => exact hstarts.elim

/-- A session that is made is the one that stood in for it. -/
theorem Paired.make (hpaired : Paired P name texts clients)
    (hfirst : ∀ x, ∃ exponent oldExponent, first x = .fresh exponent oldExponent)
    (hnone : (clients side).mE2ESessions (name side.other) = none) (exponent oldExponent : Nat) :
    ∃ l s, Stands P name texts (Function.update clients side
      ((clients side).setSession (name side.other) (.fresh exponent oldExponent))) first l s := by
  obtain ⟨l, s, hstands⟩ := hpaired
    (Function.update first side (.fresh exponent oldExponent)) (by
      intro x
      by_cases hx : x = side
      · subst hx
        exact ⟨exponent, oldExponent, Function.update_self _ _ _⟩
      · rw [Function.update_of_ne hx]
        exact hfirst x)
  have hfresh : l.session side = .fresh exponent oldExponent := by
    rw [hstands.session side, hnone, Option.getD_none, Function.update_self]
  refine ⟨l, s, hstands.reachable, hstands.abstracts, ?_, ?_, ?_⟩ <;> intro x <;>
    by_cases hx : x = side
  · subst hx
    rw [Function.update_self, Client.setSession_self, Option.getD_some, hfresh]
  · rw [Function.update_of_ne hx, hstands.session x, Function.update_of_ne hx]
  · subst hx
    rw [Function.update_self]
    exact hstands.control x
  · rw [Function.update_of_ne hx]
    exact hstands.control x
  · subst hx
    rw [Function.update_self]
    exact hstands.text x
  · rw [Function.update_of_ne hx]
    exact hstands.text x

/-- A method of some session is called, and what comes of it goes to the peer of the session:
if that is the other client it is a step of the link, else nothing to it. -/
theorem Stands.method (hstands : Stands P name texts clients first l s) {peer : Str}
    {session : E2ESession} {pls : List Payload}
    (hsessions : d.mE2ESessions = ((clients side).setSession peer session).mE2ESessions)
    (hsent : ∀ pl ∈ d.sentTo (name side.other),
      pl ∈ (clients side).sentTo (name side.other) ∨ peer = name side.other ∧ pl ∈ pls)
    (hlink : peer = name side.other → (∀ pl ∈ pls, pl.isE2EControl = true) ∧
      ∃ action, Link.Step P l action (l.put side session pls)) :
    ∃ l t, Stands P name texts (Function.update clients side d) first l t := by
  by_cases hpeer : peer = name side.other
  · obtain ⟨hcontrol, action, hstep⟩ := hlink hpeer
    have hsession : d.mE2ESessions (name side.other) = some session := by
      rw [hsessions, ← hpeer]
      exact Client.setSession_self _ _ _
    exact hstands.called hstep hsession hcontrol fun pl hpl => (hsent pl hpl).imp_right And.right
  · have hother : d.mE2ESessions (name side.other) =
        (clients side).mE2ESessions (name side.other) := by
      rw [hsessions]
      exact Client.setSession_of_ne _ (Ne.symm hpeer) _
    exact hstands.aside hother fun pl hpl =>
      Or.inl ((hsent pl hpl).resolve_right fun hnew => hpeer hnew.1)

/-- Nothing comes of it. -/
theorem Stands.silent (hstands : Stands P name texts clients first l s) {peer : Str}
    {session : E2ESession} (hlink : peer = name side.other →
      ∃ action, Link.Step P l action (l.put side session [])) :
    ∃ l t, Stands P name texts
      (Function.update clients side ((clients side).setSession peer session)) first l t :=
  hstands.method rfl (fun _ hpl => Or.inl hpl) fun hpeer => ⟨by rintro _ ⟨⟩, hlink hpeer⟩

/-- The text that goes out is under the key of the session it is in. -/
theorem Stands.carries (hstands : Stands P name texts clients first l s) {session : E2ESession}
    {text : Str} {nonce : Nonce} {pl : Payload} (htext : text ∈ texts side)
    (hsession : l.session side = session) (hpl : session.encrypt P nonce text = .ok pl) :
    Carries P s side (texts side) pl := by
  refine ⟨session, nonce, text, htext, hpl, fun hstate => ?_⟩
  have hparty : s.party side = session.party := by
    rw [hstands.abstracts.party side, hsession]
  have hphase : (s.party side).phase = .agreed session.mCrypto.mKey := by
    rw [hparty]
    exact E2ESession.phase_of_established hstate
  have hkeyed := (Rekey.reachable_inv hstands.reachable).keyed hphase
  rwa [hparty] at hkeyed

/-- One move of a client that handles only what the other client has sent. -/
theorem Paired.move (hpaired : Paired P name texts clients)
    (hmove : Client.Move P (texts side) known (clients side) d)
    (hknown : ∀ msg, .message msg ∈ known → msg.mSender = name side.other →
      msg.mPayload.isE2EControl = true →
        msg.mPayload ∈ (clients side.other).sentTo (name side)) :
    Paired P name texts (Function.update clients side d) := by
  intro first hfirst
  obtain ⟨l, s, hstands⟩ := hpaired first hfirst
  have hcame : ∀ {msg}, .message msg ∈ known → msg.mSender = name side.other →
      msg.mPayload.isE2EControl = true → msg.mPayload ∈ l.sent side.other := by
    intro msg hmsg hpeer hcontrol
    refine hstands.control side.other _ ?_ hcontrol
    rw [Rekey.Side.other_other]
    exact hknown msg hmsg hpeer hcontrol
  have hlinked : ∀ {peer : Str} {session : E2ESession}, peer = name side.other →
      (clients side).mE2ESessions peer = some session → l.session side = session := by
    rintro _ session rfl hsession
    rw [hstands.session side, hsession, Option.getD_some]
  have hmessage : ∀ {peer : Str} {seq : SequenceNo} {pl pl' : Payload},
      pl ∈ ({ clients side with
        sent := (clients side).sent ++ [.message ⟨seq, .empty, peer, pl'⟩] } : Client).sentTo
          (name side.other) →
      pl ∈ (clients side).sentTo (name side.other) ∨ peer = name side.other ∧ pl ∈ [pl'] :=
    fun hpl => (Client.sentTo_message hpl).imp_right
      fun hnew => ⟨hnew.1, List.mem_singleton.mpr hnew.2⟩
  cases hmove with
  | frame hsessions hsent =>
      refine hstands.aside (by rw [hsessions]) fun pl hpl => Or.inl ?_
      rwa [Client.sentTo, hsent] at hpl
  | @make peer exponent oldExponent hnone =>
      by_cases hpeer : peer = name side.other
      · subst hpeer
        exact hpaired.make hfirst hnone exponent oldExponent
      · exact hstands.aside (Client.setSession_of_ne _ (Ne.symm hpeer) _)
          fun pl hpl => Or.inl hpl
  | request hpkt =>
      refine hstands.aside rfl fun pl hpl => Or.inl ?_
      rwa [Client.sentTo_request hpkt] at hpl
  | @text peer text session nonce pl' seq htext hs hpl' =>
      refine hstands.aside rfl fun pl hpl => ?_
      rcases Client.sentTo_message hpl with hold | ⟨hpeer, rfl⟩
      · exact Or.inl hold
      · exact Or.inr ⟨E2ESession.encrypt_control hpl',
          hstands.carries htext (hlinked hpeer hs) hpl'⟩
  | @start peer session session' call pl' seq hs hstarts hallowed hbound hrun =>
      refine hstands.method rfl (fun pl hpl => hmessage hpl) fun hpeer => ?_
      obtain ⟨hcontrol, hstep⟩ := exists_start (hlinked hpeer hs) hstarts hallowed hbound hrun
      exact ⟨List.forall_mem_singleton.mpr hcontrol, hstep⟩
  | @ignore msg session session' stack exponent hmsg htype hs hrun =>
      refine hstands.silent fun hpeer => ?_
      have hpl := hcame hmsg hpeer (Client.isE2EControl_init htype)
      have hrun' : (l.session side).handleInit P msg.mPayload stack exponent =
          (session', .ok none) := by rw [hlinked hpeer hs, hrun]
      exact ⟨_, Link.Step.handleInit hpl htype hrun'⟩
  | @answer msg session session' stack exponent pl' seq hmsg htype hs hrun =>
      refine hstands.method rfl (fun pl hpl => hmessage hpl) fun hpeer => ?_
      have hpl := hcame hmsg hpeer (Client.isE2EControl_init htype)
      have hrun' : (l.session side).handleInit P msg.mPayload stack exponent =
          (session', .ok (some pl')) := by rw [hlinked hpeer hs, hrun]
      have hcontrol := Client.isE2EControl_ack (E2ESession.handleInit_reply P hrun)
      exact ⟨List.forall_mem_singleton.mpr hcontrol, _, Link.Step.handleInit hpl htype hrun'⟩
  | @ack msg session session' stack reply hmsg htype hs hrun =>
      refine hstands.silent fun hpeer => ?_
      have hpl := hcame hmsg hpeer (Client.isE2EControl_ack htype)
      have hrun' : (l.session side).handleAck P msg.mPayload stack =
          (session', .ok reply) := by rw [hlinked hpeer hs, hrun]
      cases E2ESession.handleAck_reply hrun
      exact ⟨_, Link.Step.handleAck hpl htype hrun'⟩

theorem Paired.moves (hpaired : Paired P name texts clients)
    (hmoves : Client.Moves P (texts side) known (clients side) d)
    (hknown : ∀ msg, .message msg ∈ known → msg.mSender = name side.other →
      msg.mPayload.isE2EControl = true →
        msg.mPayload ∈ (clients side.other).sentTo (name side)) :
    Paired P name texts (Function.update clients side d) := by
  induction hmoves with
  | refl => rwa [Function.update_eq_self]
  | @tail c e _ hmove ih =>
      have hself : (Function.update clients side c) side = c := Function.update_self _ _ _
      have hother : (Function.update clients side c) side.other = clients side.other :=
        Function.update_of_ne side.other_ne _ _
      rw [← hself] at hmove
      have hlast := ih.move hmove (by rwa [hother])
      rwa [Function.update_idem] at hlast

/-- The link of two clients whose sessions are there. -/
theorem Paired.exists_link (hpaired : Paired P name texts clients) :
    ∃ first l s, Stands P name texts clients first l s := by
  obtain ⟨l, s, hstands⟩ := hpaired (fun _ => .fresh 0 0) fun _ => ⟨0, 0, rfl⟩
  exact ⟨_, l, s, hstands⟩

theorem Stands.session_eq (hstands : Stands P name texts clients first l s) {session : E2ESession}
    (hsession : (clients side).mE2ESessions (name side.other) = some session) :
    l.session side = session := by
  rw [hstands.session side, hsession, Option.getD_some]

/-- Two established sessions of paired clients agree. -/
theorem Paired.agree (hpaired : Paired P name texts clients) (hcomm : P.DHCommutes)
    (hopens : P.GcmOpensSealed) {session session' : E2ESession}
    (hs : (clients side).mE2ESessions (name side.other) = some session)
    (hs' : (clients side.other).mE2ESessions (name side) = some session')
    (hstate : session.sessState = .established) (hstate' : session'.sessState = .established) :
    session.sequenceNo = session'.sequenceNo ∧ session.sessTimestamp = session'.sessTimestamp ∧
      session.mCrypto.mKey = session'.mCrypto.mKey ∧
      ∀ nonce text pl, session.encrypt P nonce text = .ok pl →
        ∀ stack, session'.decrypt P pl stack = .ok text := by
  obtain ⟨first, l, s, hstands⟩ := hpaired.exists_link
  have hl := hstands.session_eq hs
  have hl' : l.session side.other = session' :=
    hstands.session_eq (by rwa [Rekey.Side.other_other])
  have hphase : (s.party side).phase = .agreed session.mCrypto.mKey := by
    rw [hstands.abstracts.party side, hl]
    exact E2ESession.phase_of_established hstate
  have hphase' : (s.party side.other).phase = .agreed session'.mCrypto.mKey := by
    rw [hstands.abstracts.party side.other, hl']
    exact E2ESession.phase_of_established hstate'
  obtain ⟨hseq, hstamp, hkey⟩ := (Rekey.reachable_inv hstands.reachable).agreement_of_side
    (P.agreedKey_comm hcomm) hphase hphase'
  rw [hstands.abstracts.party, hstands.abstracts.party, hl, hl'] at hseq hstamp
  have hnumber := UInt32.toNat_inj.mp hseq
  have hcrypto : session'.mCrypto.mEstablished = true := by
    have hsynced := hstands.abstracts.crypto side.other
    rw [hl'] at hsynced
    exact hsynced.mpr hstate'
  refine ⟨hnumber, UInt64.toNat_inj.mp hstamp, hkey, fun nonce text pl hpl stack => ?_⟩
  exact E2ESession.decrypt_encrypt P hopens hstate hstate' hcrypto hnumber hkey hpl stack

/-- What a session makes of a payload that carries a text: the text, if it came in plain or
under the number the session is established under. -/
def Reads (P : Primitives) (session : E2ESession) (pl : Payload) (text : Str) : Prop :=
  ∀ stack, (pl.type = .plainText ∨ session.sessState = .established ∧
    ∃ msg, E2EMsg.ofPayload pl stack = .ok msg ∧ msg.seqno = session.sequenceNo) →
      session.decrypt P pl stack = .ok text

/-- A text in plain is read in any state. -/
theorem decrypt_plain {session session' : E2ESession} {nonce : Nonce} {text : Str} {pl : Payload}
    (hstate : session.sessState ≠ .established) (hpl : session.encrypt P nonce text = .ok pl)
    (stack : Stack) : session'.decrypt P pl stack = .ok text := by
  rw [E2ESession.encrypt, if_neg hstate] at hpl
  have htype : pl.type = .plainText := (E2EMsg.toPayload_eq_ok.mp hpl).1
  have hcipher : ¬ (session'.sessState = .established ∧ pl.type = .e2eMsg) := by
    rw [htype]
    rintro ⟨_, ⟨⟩⟩
  rw [E2ESession.decrypt, E2EMsg.ofPayload_toPayload hpl stack]
  simp only [if_neg hcipher, if_pos htype]

/-- Whatever the sessions have gone through since, a text that one client has sent the other
is read as one that was to be sent. -/
theorem Paired.reads (hpaired : Paired P name texts clients) (hcomm : P.DHCommutes)
    (hopens : P.GcmOpensSealed) {session' : E2ESession} {pl : Payload}
    (hpl : pl ∈ (clients side).sentTo (name side.other)) (hcontrol : pl.isE2EControl = false)
    (hs' : (clients side.other).mE2ESessions (name side) = some session') :
    ∃ text ∈ texts side, Reads P session' pl text := by
  obtain ⟨first, l, s, hstands⟩ := hpaired.exists_link
  obtain ⟨session, nonce, text, htext, hencrypt, hkeyed⟩ := hstands.text side pl hpl hcontrol
  refine ⟨text, htext, fun stack hread => ?_⟩
  by_cases hstate : session.sessState = .established
  swap
  · exact decrypt_plain hstate hencrypt stack
  have hplain : pl.type ≠ .plainText := by
    intro hplain
    exact (E2ESession.encrypt_type P hencrypt).mp hplain hstate
  obtain ⟨hstate', msg, hmsg, hnumber⟩ := hread.resolve_left hplain
  obtain ⟨eData, hsealed, hdata⟩ := E2ESession.encrypt_eq_ok P hstate hencrypt
  rw [E2EMsg.ofPayload_toPayload hdata stack] at hmsg
  cases hmsg
  have hl' : l.session side.other = session' :=
    hstands.session_eq (by rwa [Rekey.Side.other_other])
  have hphase' : (s.party side.other).phase = .agreed session'.mCrypto.mKey := by
    rw [hstands.abstracts.party side.other, hl']
    exact E2ESession.phase_of_established hstate'
  have hinv := Rekey.reachable_inv hstands.reachable
  have hkeyed' := hinv.keyed hphase'
  rw [hstands.abstracts.party, hl'] at hkeyed'
  have hcrypto : session'.mCrypto.mEstablished = true := by
    have hsynced := hstands.abstracts.crypto side.other
    rw [hl'] at hsynced
    exact hsynced.mpr hstate'
  -- under one number the two sides have been on one key only
  have hsame := hkeyed hstate
  simp only at hnumber
  rw [hnumber] at hsame
  have hkey := hsame.unique hinv (Rekey.reachable_answersUnique hstands.reachable)
    (P.agreedKey_comm hcomm) hkeyed'
  exact E2ESession.decrypt_encrypt P hopens hstate hstate' hcrypto hnumber hkey hencrypt stack

end LeakyChat

/-
What the system gives two clients that are logged in under names of their own:
their sessions agree, what they read from each other they have sent each other,
and they can always come to a session in which they do.
-/
import LeakyChat.ChatSetup

namespace LeakyChat

open Transition
open Rekey (Side)

namespace ChatNetwork

variable {P : Primitives} {hash : Str → UInt64} {t : ChatNetwork} {ends : Side → SID}
  {name : Side → Str}

/-- The sessions of two clients under each other's names are at one number, time and key
whenever both are established, and each decrypts what the other encrypts. -/
theorem sessions_agree (hcomm : P.DHCommutes) (hopens : P.GcmOpensSealed)
    (hreach : Reachable (careful P hash) t) (hends : ends .left ≠ ends .right)
    (honly : ∀ side, t.OnlyAs (ends side) (name side)) {hosts : Side → Host}
    (hhosts : ∀ side, t.hosts (ends side) = some (hosts side)) {session : Side → E2ESession}
    (hsession : ∀ side,
      (hosts side).worker.client.mE2ESessions (name side.other) = some (session side))
    (hestablished : ∀ side, (session side).sessState = .established) (side : Side) :
    (session side).sequenceNo = (session side.other).sequenceNo ∧
      (session side).sessTimestamp = (session side.other).sessTimestamp ∧
      (session side).mCrypto.mKey = (session side.other).mCrypto.mKey ∧
      ∀ nonce text pl, (session side).encrypt P nonce text = .ok pl →
        ∀ stack, (session side.other).decrypt P pl stack = .ok text := by
  obtain ⟨_, hpaired⟩ := pairedAt_of_reachable hopens hreach (ends_ne hends)
    (between_of_hosts hhosts honly)
  have hthere : ∀ x, (t.clientAt (ends x)).mE2ESessions (name x.other) = some (session x) := by
    intro x
    rw [clientAt_of_some (hhosts x)]
    exact hsession x
  have hother := hthere side.other
  rw [Side.other_other] at hother
  exact hpaired.agree hcomm hopens (hthere side) hother (hestablished side)
    (hestablished side.other)

/-- A message that is in the mailbox of one of two clients under the name of the other, and is
no INIT or ACK, carries a text that the user of the other has asked to send: the session reads
it if it came in plain, or under the number the session is established under. -/
theorem texts_read (hcomm : P.DHCommutes) (hopens : P.GcmOpensSealed)
    (hreach : Reachable (careful P hash) t) (hends : ends .left ≠ ends .right)
    (honly : ∀ side, t.OnlyAs (ends side) (name side)) {hosts : Side → Host}
    (hhosts : ∀ side, t.hosts (ends side) = some (hosts side)) {msg : MessagePacket}
    (hmsg : .message msg ∈ (hosts side.other).worker.client.mail.packets)
    (hsender : msg.mSender = name side) (hcontrol : msg.mPayload.isE2EControl = false)
    {session : E2ESession}
    (hsession : (hosts side.other).worker.client.mE2ESessions (name side) = some session) :
    ∃ text ∈ (hosts side).texts, Reads P session msg.mPayload text := by
  have hbetween := between_of_hosts hhosts honly
  obtain ⟨hgood, hpaired⟩ := pairedAt_of_reachable hopens hreach (ends_ne hends) hbetween
  have hdelivered := (hgood.hosts _ _ (hhosts side.other)).worker.mail _ hmsg msg rfl
  have hname : msg.mSender = name side.other.other := by
    rwa [Side.other_other]
  have hsent := hbetween.sent hgood hdelivered hname
  rw [Side.other_other] at hsent
  have hthere : (t.clientAt (ends side.other)).mE2ESessions (name side) = some session := by
    rw [clientAt_of_some (hhosts side.other)]
    exact hsession
  obtain ⟨text, ⟨host, hhost, htext⟩, hreads⟩ :=
    hpaired.reads hcomm hopens hsent hcontrol hthere
  rw [hhosts side, Option.some.injEq] at hhost
  exact ⟨text, hhost ▸ htext, hreads⟩

def sampleEnds : Side → SID
  | .left => 0
  | .right => 1

def sampleName : Side → Str
  | .left => Client.bob
  | .right => Server.alice

theorem clear_keepsLength : GcmKeepsLength .clear := fun _ _ _ => rfl

theorem Careful.setHost (hcareful : t.Careful) (sid : SID) {host : Host}
    (htidy : host.worker.Tidy) : (t.setHost sid host).Careful := by
  intro other host' hhost'
  rcases setHost_hosts hhost' with ⟨_, rfl⟩ | ⟨_, hold⟩
  · exact htidy
  · exact hcareful other host' hold

/-- A client joins by a new connection. -/
theorem exists_join (hreach : Reachable (careful P hash) t) (hcareful : t.Careful)
    {handler peer : NetworkHandler} {session peerSession : CryptoSession}
    (hhandler : handler.EstablishedWith session) (hpeer : peer.EstablishedWith peerSession)
    (hkey : peerSession.mKey = session.mKey) :
    ∃ u, Reachable (careful P hash) u ∧ u.Careful ∧
      u.server = { t.server with connections := t.server.connections.insert handler } ∧
      u.logins = t.logins ∧ u.hosts = Function.update t.hosts t.server.connections.data.length
        (some ⟨peer, ⟨.fresh, none⟩, [], []⟩) := by
  have hstep : Step P hash t (.join handler peer) _ := Step.join hhandler hpeer hkey
  have hfresh : Worker.Tidy ⟨.fresh, none⟩ := Worker.tidy_of_none (by rintro _ _ ⟨⟩)
  exact ⟨_, hreach.step ⟨hstep, hcareful⟩, hcareful.setHost _ hfresh, rfl, rfl, rfl⟩

/-- Two clients that have just joined. -/
theorem exists_joined : ∃ t, Reachable (careful .clear fun _ => 0) t ∧ t.Careful ∧
    t.server = Server.connectedTwice ∧ t.logins = [] ∧
    ∀ side, t.hosts (sampleEnds side) = some ⟨Server.sampleHandler, ⟨.fresh, none⟩, [], []⟩ := by
  obtain ⟨t, ht, htCareful, htServer, htLogins, htHosts⟩ := exists_join
    (P := .clear) (t := ⟨.fresh, [], [], fun _ => none⟩) (Reachable.of_init rfl) (by rintro _ _ ⟨⟩)
    Server.sampleHandler_established Server.sampleHandler_established rfl
  obtain ⟨u, hu, huCareful, huServer, huLogins, huHosts⟩ := exists_join ht htCareful
    Server.sampleHandler_established Server.sampleHandler_established rfl
  refine ⟨u, hu, huCareful, ?_, huLogins.trans htLogins, ?_⟩
  · rw [huServer, htServer]
    rfl
  · rw [huHosts, htServer, htHosts]
    rintro (_ | _) <;> rfl

/-- Two clients that are logged in. -/
theorem exists_loggedIn : ∃ (t : ChatNetwork) (hosts : Side → Host),
    Reachable (careful .clear fun _ => 0) t ∧ t.Careful ∧
    (∀ side, t.hosts (sampleEnds side) = some (hosts side)) ∧
    (∀ side, t.OnlyAs (sampleEnds side) (sampleName side)) ∧
    LoggedIn (fun _ => 0) t sampleEnds (fun side => (hosts side).handler) sampleName ∧
    (∀ side, (hosts side).worker.Idle) ∧
    ∀ side, (hosts side).worker.client.mE2ESessions = fun _ => none := by
  obtain ⟨t, ht, htCareful, htServer, htLogins, htHosts⟩ := exists_joined
  have hidle : Worker.Idle ⟨.fresh, none⟩ := ⟨rfl, rfl, by rintro _ _ ⟨⟩⟩
  have hseq : numberRead Client.fresh.curSeqNo (fun _ => 0) = Client.fresh.curSeqNo := by decide
  have hopens := Primitives.clear_gcmOpensSealed
  have htGood := good_of_reachable hopens ht
  have htOpen : ∀ side, Open t (sampleEnds side) ⟨Server.sampleHandler, ⟨.fresh, none⟩, [], []⟩ :=
    fun side => ⟨htHosts side, rfl, htServer ▸ Server.connectedTwice_isOpen _
      (by cases side <;> decide)⟩
  obtain ⟨u, c, texts, huLeads, hcIdle, hcNone⟩ := exists_logged_in hopens clear_keepsLength htGood
    htCareful (htOpen .left) (Client.sampleEnv 0) hidle hseq
    (show Client.bob ≠ .empty by decide) (by decide) (by rw [htServer]; rfl)
  have huGood := careful_good hopens htGood huLeads.run.choose_spec
  have huCareful := careful_core htCareful huLeads.core hcIdle.tidy
  obtain ⟨posted, huHost⟩ : ∃ posted, u.hosts 1 =
      some ⟨Server.sampleHandler, ⟨.fresh, none⟩, posted, []⟩ := by
    apply host_of_core
    rw [huLeads.core]
    exact (Function.update_of_ne (by decide) _ _).trans (core_of_some (htHosts .right))
  have huOpen : Open u 1 ⟨Server.sampleHandler, ⟨.fresh, none⟩, posted, []⟩ :=
    ⟨huHost, rfl, huLeads.connections ▸ (htOpen .right).server⟩
  obtain ⟨v, d, texts', hvLeads, hdIdle, hdNone⟩ := exists_logged_in hopens clear_keepsLength
    huGood huCareful huOpen (Client.sampleEnv 0) hidle hseq
    (show Server.alice ≠ .empty by decide) (by decide) (by rw [huLeads.usernames, htServer]; rfl)
  have hvConnections : v.server.connections = Server.connectedTwice.connections := by
    rw [hvLeads.connections, huLeads.connections, htServer]
  have hvUsernames := hvLeads.usernames
  have hvLogins := hvLeads.logins
  rw [huLeads.usernames, htServer] at hvUsernames
  rw [huLeads.logins, htLogins] at hvLogins
  have hcores : ∀ side, ∃ worker texts, v.core (sampleEnds side) =
      some (Server.sampleHandler, worker, texts) ∧ worker.Idle ∧
        worker.client.mE2ESessions = fun _ => none := by
    rw [hvLeads.core]
    rintro (_ | _)
    · refine ⟨⟨c, none⟩, texts, ?_, hcIdle, hcNone⟩
      refine (Function.update_of_ne (by decide) _ _).trans ?_
      rw [huLeads.core]
      exact Function.update_self _ _ _
    · exact ⟨⟨d, none⟩, texts', Function.update_self _ _ _, hdIdle, hdNone⟩
  choose workers texts'' hcores hworkers using hcores
  choose posted' hhosts using fun side => host_of_core (hcores side)
  obtain ⟨first, hfirst⟩ := huLeads.run
  obtain ⟨last, hlast⟩ := hvLeads.run
  obtain ⟨start, labels, hinit, hbefore⟩ := ht
  refine ⟨v, _, ⟨start, _, hinit, (hbefore.append hfirst).append hlast⟩,
    careful_core huCareful hvLeads.core hdIdle.tidy, hhosts, fun side => ?_,
    ⟨?_, fun _ => rfl, fun side => ?_, fun side => ?_, fun side => ?_⟩,
    fun side => (hworkers side).1, fun side => (hworkers side).2⟩
  · rw [OnlyAs, hvLogins]
    cases side <;> decide
  · rintro (_ | _) <;> decide
  · rw [hvConnections]
    exact Server.connectedTwice_isOpen _ (by cases side <;> decide)
  · rw [hvLogins]
    cases side <;> rfl
  · rw [hvUsernames]
    cases side <;> rfl

/-- `bob` sends a text to `alice`. -/
theorem exists_talked : ∃ (t : ChatNetwork) (hosts : Side → Host) (msg : MessagePacket)
    (session : Side → E2ESession), Reachable (careful .clear fun _ => 0) t ∧
    (∀ side, t.hosts (sampleEnds side) = some (hosts side)) ∧
    (∀ side, t.OnlyAs (sampleEnds side) (sampleName side)) ∧
    (∀ side, (hosts side).worker.client.mE2ESessions (sampleName side.other) =
      some (session side) ∧ (session side).sessState = .established) ∧
    .message msg ∈ (hosts .right).worker.client.mail.packets ∧ msg.mSender = sampleName .left ∧
    msg.mPayload.isE2EControl = false := by
  obtain ⟨t, hosts, ht, htCareful, hhosts, honly, hin, hidle, hnone⟩ := exists_loggedIn
  have hopens := Primitives.clear_gcmOpensSealed
  obtain ⟨labels, u, hosts', msg, session, hrun, hlogins, hthere, hmail, hsender, hpl⟩ :=
    exists_talk hopens clear_keepsLength (good_of_reachable hopens ht) htCareful hhosts hin hidle
      (fun side => congrFun (hnone side) _) (show (sampleName .left).1.length +
        (sampleName .right).1.length + Client.bob.1.length ≤ 64000 by decide)
      (show (Client.sampleEnv 0).sendResult = 0 from rfl) (by decide)
  obtain ⟨start, first, hinit, hbefore⟩ := ht
  refine ⟨u, hosts', msg, session, ⟨start, _, hinit, hbefore.append hrun⟩,
    fun side => (hthere side).1, fun side => ?_, fun side => (hthere side).2, ?_, hsender,
    E2ESession.encrypt_control hpl⟩
  · rw [OnlyAs, hlogins]
    exact honly side
  · rw [hmail]
    exact List.mem_cons_self

theorem sessions_agree_sample : ∃ (t : ChatNetwork) (session : Side → E2ESession),
    Reachable (careful .clear fun _ => 0) t ∧
    (∀ side, (session side).sessState = .established) ∧
    (session .left).mCrypto.mKey = (session .right).mCrypto.mKey := by
  obtain ⟨t, hosts, _, session, ht, hhosts, honly, hthere, _⟩ := exists_talked
  exact ⟨t, session, ht, fun side => (hthere side).2, (sessions_agree Primitives.clear_dhCommutes
    Primitives.clear_gcmOpensSealed ht (by decide) honly hhosts (fun side => (hthere side).1)
    (fun side => (hthere side).2) .left).2.2.1⟩

theorem texts_read_sample : ∃ (t : ChatNetwork) (hosts : Side → Host) (msg : MessagePacket)
    (session : E2ESession), Reachable (careful .clear fun _ => 0) t ∧
    .message msg ∈ (hosts .right).worker.client.mail.packets ∧
    ∃ text ∈ (hosts .left).texts, Reads .clear session msg.mPayload text := by
  obtain ⟨t, hosts, msg, session, ht, hhosts, honly, hthere, hmsg, hsender, hcontrol⟩ :=
    exists_talked
  have hmsg' : .message msg ∈ (hosts Side.left.other).worker.client.mail.packets := hmsg
  exact ⟨t, hosts, msg, session .right, ht, hmsg, texts_read Primitives.clear_dhCommutes
    Primitives.clear_gcmOpensSealed ht (by decide) honly hhosts hmsg' hsender hcontrol
    (hthere .right).1⟩

end ChatNetwork

end LeakyChat

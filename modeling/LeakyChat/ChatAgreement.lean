/-
Two clients of the system that chat with each other.  Whatever the other
connections send and however the records travel, all that the one takes up from
the other the other has sent, so that the two are paired in every run.
-/
import LeakyChat.ChatNetwork

namespace LeakyChat

open Transition
open Rekey (Side)

namespace ChatNetwork

/-- The client at a connection, as it will be when it joins. -/
def clientAt (t : ChatNetwork) (sid : SID) : Client :=
  (t.hosts sid).elim .fresh fun host => host.worker.client

def textsAt (t : ChatNetwork) (sid : SID) : Set Str :=
  {text | ∃ host, t.hosts sid = some host ∧ text ∈ host.texts}

/-- The connection has logged in under this name only, and no other has. -/
def OnlyAs (t : ChatNetwork) (sid : SID) (name : Str) : Prop :=
  ∀ login ∈ t.logins, login.1 = sid ↔ login.2 = name

/-- The connection is a client's, or will be. -/
def IsHost (t : ChatNetwork) (sid : SID) : Prop :=
  t.hosts sid ≠ none ∨ t.server.connections.data.length ≤ sid

/-- Two connections of clients, each under a name of its own. -/
structure Between (t : ChatNetwork) (ends : Side → SID) (name : Side → Str) : Prop where
  isHost : ∀ side, t.IsHost (ends side)
  only : ∀ side, t.OnlyAs (ends side) (name side)

variable {P : Primitives} {hash : Str → UInt64} {t t' : ChatNetwork} {sid : SID} {host : Host}
  {ends : Side → SID} {name : Side → Str} {side : Side}

theorem clientAt_of_some (hhost : t.hosts sid = some host) :
    t.clientAt sid = host.worker.client := by
  rw [clientAt, hhost, Option.elim_some]

theorem clientAt_setHost (t : ChatNetwork) (sid : SID) (host : Host) :
    (t.setHost sid host).clientAt sid = host.worker.client :=
  clientAt_of_some (setHost_self t sid host)

theorem clientAt_setHost_of_ne (t : ChatNetwork) {other : SID} (hother : other ≠ sid)
    (host : Host) : (t.setHost sid host).clientAt other = t.clientAt other := by
  rw [clientAt, setHost_of_ne t hother, clientAt]

theorem textsAt_setHost_of_ne (t : ChatNetwork) {other : SID} (hother : other ≠ sid)
    (host : Host) : (t.setHost sid host).textsAt other = t.textsAt other := by
  rw [textsAt, setHost_of_ne t hother, textsAt]

/-- A message for one of the two under the name of the other has been sent by the other. -/
theorem Between.sent (hbetween : t.Between ends name) (hgood : Good P hash t)
    {msg : MessagePacket} (hmsg : Delivered hash t.relays (ends side) msg)
    (hsender : msg.mSender = name side.other) :
    msg.mPayload ∈ (t.clientAt (ends side.other)).sentTo (name side) := by
  obtain ⟨relay, hrelay, hfrom, hreceiver, hstamped⟩ := hmsg
  obtain ⟨hlt, hsent, hnamed⟩ := hgood.relays relay hrelay
  have horigin : relay.origin = ends side.other :=
    (hbetween.only side.other _ (hnamed _ _ hfrom)).mpr hsender
  have hname : relay.packet.mReceiver = name side :=
    (hbetween.only side _ (hnamed _ _ hreceiver)).mp rfl
  rcases hbetween.isHost side.other with hhost | hnew
  · obtain ⟨host, hhost⟩ := Option.ne_none_iff_exists'.mp hhost
    rw [clientAt_of_some hhost]
    refine ⟨relay.packet, hsent host (horigin ▸ hhost), hname, ?_⟩
    rw [← hstamped]
    rfl
  · exact absurd hlt (Nat.not_lt.mpr (horigin ▸ hnew))

/-- Connections stay, and so do logins; a client joins by a new connection. -/
theorem grows_of_step {label : Label} (hstep : Step P hash t label t') :
    t.server.connections.data.length ≤ t'.server.connections.data.length ∧
      t.logins ⊆ t'.logins ∧ ∀ sid, t'.IsHost sid → t.IsHost sid := by
  have hset : ∀ {sid : SID} {host host' : Host}, t.hosts sid = some host →
      ∀ other, (t.setHost sid host').IsHost other → t.IsHost other := by
    intro sid host host' hhost other hother
    refine hother.imp_left fun hthere hnone => ?_
    obtain ⟨host'', hhost''⟩ := Option.ne_none_iff_exists'.mp hthere
    rcases setHost_hosts hhost'' with ⟨rfl, _⟩ | ⟨_, hold⟩
    · rw [hhost] at hnone
      cases hnone
    · rw [hold] at hnone
      cases hnone
  cases hstep with
  | @server label server logins hassumed hread hserver =>
      have hlength := Server.length_le_of_step hserver.1
      have hlogins : logins = Server.grants hash t.server label ++ t.logins := hserver.2
      refine ⟨hlength, ?_, fun sid => Or.imp_right hlength.trans⟩
      change t.logins ⊆ logins
      rw [hlogins]
      exact List.subset_append_right _ _
  | @join handler peer session peerSession hhandler hpeer hkey =>
      have hlength : (t.server.connections.insert handler).data.length =
          t.server.connections.data.length + 1 := by
        simp [SocketSet.insert]
      refine ⟨hlength ▸ Nat.le_succ _, List.Subset.refl _, fun sid hsid => ?_⟩
      by_cases hnew : t.server.connections.data.length ≤ sid
      · exact Or.inr hnew
      · rcases hsid with hthere | hlater
        · obtain ⟨host, hhost⟩ := Option.ne_none_iff_exists'.mp hthere
          rcases setHost_hosts hhost with ⟨rfl, _⟩ | ⟨_, hold⟩
          · exact absurd (Nat.le_refl _) hnew
          · exact Or.inl (Option.ne_none_iff_exists'.mpr ⟨host, hold⟩)
        · have hlonger : (t.server.connections.insert handler).data.length ≤ sid := hlater
          rw [hlength] at hlonger
          exact absurd (Nat.le_of_succ_le hlonger) hnew
  | own hhost hown hworker => exact ⟨Nat.le_refl _, List.Subset.refl _, hset hhost⟩
  | post hhost hpkt hsend => exact ⟨Nat.le_refl _, List.Subset.refl _, hset hhost⟩
  | receive hhost hrecv hrun hworker => exact ⟨Nat.le_refl _, List.Subset.refl _, hset hhost⟩

theorem Between.of_step (hbetween : t'.Between ends name) {label : Label}
    (hstep : Step P hash t label t') : t.Between ends name := by
  obtain ⟨_, hlogins, hhosts⟩ := grows_of_step hstep
  exact ⟨fun side => hhosts _ (hbetween.isHost side),
    fun side login hlogin => hbetween.only side login (hlogins hlogin)⟩

/-- The two are paired in the sense of `ClientPair`. -/
def PairedAt (P : Primitives) (t : ChatNetwork) (ends : Side → SID) (name : Side → Str) : Prop :=
  Paired P name (fun side => t.textsAt (ends side)) fun side => t.clientAt (ends side)

theorem PairedAt.same (hpaired : PairedAt P t ends name)
    (hclients : ∀ side, t'.clientAt (ends side) = t.clientAt (ends side))
    (htexts : ∀ side, t'.textsAt (ends side) = t.textsAt (ends side)) :
    PairedAt P t' ends name := by
  rw [PairedAt, funext hclients, funext htexts]
  exact hpaired

/-- One of the hosts moves on. -/
theorem PairedAt.setHost (hpaired : PairedAt P t ends name)
    (hends : ∀ side, ends side.other ≠ ends side)
    (hbetween : t.Between ends name) (hgood : Good P hash t) {host' : Host}
    (hhost : t.hosts sid = some host) (htexts : host.texts ⊆ host'.texts)
    (hmoves : Client.Moves P {text | text ∈ host'.texts} (mailOf hash t.relays sid)
      host.worker.client host'.worker.client) :
    PairedAt P (t.setHost sid host') ends name := by
  by_cases hsid : ∃ side, ends side = sid
  swap
  · refine hpaired.same (fun side => ?_) fun side => ?_
    · exact clientAt_setHost_of_ne t (fun hsame => hsid ⟨side, hsame⟩) host'
    · exact textsAt_setHost_of_ne t (fun hsame => hsid ⟨side, hsame⟩) host'
  obtain ⟨side, rfl⟩ := hsid
  have hother : ∀ x, x ≠ side → ends x ≠ ends side := by
    intro x hx
    rw [Rekey.Side.eq_other_of_ne hx]
    exact hends side
  have hclients : (fun x => (t.setHost (ends side) host').clientAt (ends x)) =
      Function.update (fun x => t.clientAt (ends x)) side host'.worker.client := by
    funext x
    by_cases hx : x = side
    · subst hx
      rw [Function.update_self, clientAt_setHost]
    · rw [Function.update_of_ne hx, clientAt_setHost_of_ne t (hother x hx)]
  have hself : (t.setHost (ends side) host').textsAt (ends side) = {text | text ∈ host'.texts} := by
    ext text
    constructor
    · rintro ⟨other, hthere, htext⟩
      rcases setHost_hosts hthere with ⟨_, rfl⟩ | ⟨hne, _⟩
      · exact htext
      · exact absurd rfl hne
    · exact fun htext => ⟨host', setHost_self t _ host', htext⟩
  have hmono : ∀ x, t.textsAt (ends x) ⊆ (t.setHost (ends side) host').textsAt (ends x) := by
    intro x
    by_cases hx : x = side
    · subst hx
      rw [hself]
      rintro text ⟨other, hthere, htext⟩
      rw [hhost] at hthere
      cases hthere
      exact htexts htext
    · rw [textsAt_setHost_of_ne t (hother x hx)]
  rw [← clientAt_of_some hhost, ← hself] at hmoves
  rw [PairedAt, hclients]
  exact (Paired.mono hpaired hmono).moves hmoves
    fun msg hmsg hsender _ => hbetween.sent hgood (hmsg msg rfl) hsender

theorem pairedAt_step (hgood : Good P hash t) (hcareful : t.Careful)
    (hends : ∀ side, ends side.other ≠ ends side) (hbetween : t.Between ends name)
    (hpaired : PairedAt P t ends name) {label : Label} (hstep : Step P hash t label t') :
    PairedAt P t' ends name := by
  cases hstep with
  | server hassumed hread hserver => exact hpaired.same (fun _ => rfl) fun _ => rfl
  | @join handler peer session peerSession hhandler hpeer hkey =>
      have hnone : t.hosts t.server.connections.data.length = none := by
        by_contra hthere
        obtain ⟨host, hhost⟩ := Option.ne_none_iff_exists'.mp hthere
        obtain ⟨key, hlinked, _⟩ := (hgood.hosts _ host hhost).linked
        exact Nat.lt_irrefl _ hlinked.lt
      refine hpaired.same (fun side => ?_) fun side => ?_
      · by_cases hnew : ends side = t.server.connections.data.length
        · rw [hnew, clientAt_setHost, clientAt, hnone, Option.elim_none]
        · exact clientAt_setHost_of_ne _ hnew _
      · by_cases hnew : ends side = t.server.connections.data.length
        · rw [hnew]
          ext text
          constructor
          · rintro ⟨host, hhost, htext⟩
            rcases setHost_hosts hhost with ⟨_, rfl⟩ | ⟨hne, _⟩
            · cases htext
            · exact absurd rfl hne
          · rintro ⟨host, hhost, _⟩
            rw [hnone] at hhost
            cases hhost
        · exact textsAt_setHost_of_ne _ hnew _
  | @own sid host label worker hhost hown hworker =>
      obtain ⟨hbound, hfits⟩ := hcareful sid host hhost
      obtain ⟨hmoves, _⟩ := (hgood.hosts sid host hhost).own hbound hfits hown hworker
      exact hpaired.setHost hends hbetween hgood hhost (List.subset_append_left _ _) hmoves
  | post hhost hpkt hsend =>
      exact hpaired.setHost hends hbetween hgood hhost (List.Subset.refl _) .refl
  | receive hhost hrecv hrun hworker =>
      cases hworker
      exact hpaired.setHost hends hbetween hgood hhost (List.Subset.refl _)
        (.single (.frame rfl rfl))

/-- In every run, two clients of the system are paired. -/
theorem pairedAt_of_reachable (hopens : P.GcmOpensSealed) (hreach : Reachable (careful P hash) t)
    (hends : ∀ side, ends side.other ≠ ends side) (hbetween : t.Between ends name) :
    Good P hash t ∧ PairedAt P t ends name := by
  suffices hboth : Good P hash t ∧ (t.Between ends name → PairedAt P t ends name) from
    ⟨hboth.1, hboth.2 hbetween⟩
  apply hreach.invariant (P := fun t =>
    Good P hash t ∧ (t.Between ends name → PairedAt P t ends name))
  · rintro start hstart
    refine ⟨good_of_reachable hopens (Reachable.of_init hstart), fun _ => ?_⟩
    cases hstart
    have hfresh := Paired.fresh P name fun side =>
      textsAt ⟨.fresh, [], [], fun _ => none⟩ (ends side)
    exact hfresh
  · rintro s label u ⟨hgood, hpaired⟩ hstep
    refine ⟨good_step hopens hgood hstep.2 hstep.1, fun hafter => ?_⟩
    have hbefore := hafter.of_step hstep.1
    exact pairedAt_step hgood hstep.2 hends hbefore (hpaired hbefore) hstep.1

theorem between_of_hosts {hosts : Side → Host}
    (hhosts : ∀ side, t.hosts (ends side) = some (hosts side))
    (honly : ∀ side, t.OnlyAs (ends side) (name side)) : t.Between ends name where
  isHost side := Or.inl (by rw [hhosts side]; simp)
  only := honly

theorem ends_ne (hends : ends .left ≠ ends .right) (side : Side) : ends side.other ≠ ends side := by
  cases side with
  | left => exact hends.symm
  | right => exact hends

end ChatNetwork

end LeakyChat

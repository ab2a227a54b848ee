/-
The messages that come to a client from another, in the order in which the other
has handed them out: at most once each where records may get lost, and exactly
once where they may not and both are logged in.
-/
import LeakyChat.ChatArrival

namespace LeakyChat

open Transition
open Deployment (handled)
open Rekey (Side)

namespace ChatOrder

open ChatNetwork (Good)

variable {P : Primitives} {hash : Str → UInt64} {s t u : ChatOrder} {sid : SID}
  {ends : Side → SID} {name : Side → Str} {side : Side}

/-- What a client has handed out for a name, if all has been read. -/
theorem Exact.handed_eq (hexact : Exact P hash t) (hhost : t.net.IsHost sid)
    (hread : t.AllRead sid) (name : Str) :
    handedTo (t.net.clientAt sid) name =
      ((t.net.relays.filter fun relay => relay.origin = sid).map (·.packet)).filterMap
        (payloadTo name) := by
  rcases hhost with hthere | hlater
  · obtain ⟨host, hhost⟩ := Option.ne_none_iff_exists'.mp hthere
    obtain ⟨hhanded, hplace⟩ := hread host hhost
    have hall := (hexact.relayed sid host hhost).all fun j record hle hrecord => by
      have hlt := (List.getElem?_eq_some_iff.mp hrecord).1
      exact absurd (hplace ▸ hle) (Nat.not_le.mpr hlt)
    have hposted : host.posted.map (·.packet) = host.worker.client.sent :=
      (hexact.ordered.posted sid host hhost).eq_of_length (by rw [List.length_map, hhanded])
    rw [ChatNetwork.clientAt_of_some hhost, handedTo, ← hposted, List.filterMap_map, hall]
    rfl
  · have hnone : t.net.hosts sid = none := by
      by_contra hthere
      obtain ⟨host, hhost⟩ := Option.ne_none_iff_exists'.mp hthere
      obtain ⟨key, hlinked, -⟩ := (hexact.ordered.good.hosts sid host hhost).linked
      exact Nat.not_lt.mpr hlater hlinked.lt
    rw [relays_of_new hexact.ordered.good hlater, ChatNetwork.clientAt, hnone]
    rfl

/-- What has come under a name, if all has been taken. -/
theorem Exact.got_eq (hexact : Exact P hash t) (htaken : t.AllTaken sid) (name : Str) :
    t.gotFrom sid name = (t.net.relays.filterMap (stamped hash)).filterMap (pick sid name) := by
  have hall := (hexact.arrived sid).all fun j sending hle hsending =>
    if_neg (htaken j sending hle hsending)
  rw [gotFrom, hall, sentTo_from, hexact.ordered.sent]

/-- The server knew both by their names when it passed the message on. -/
def Knows (hash : Str → UInt64) (ends : Side → SID) (name : Side → Str) (relay : Relay) : Prop :=
  ∀ side, relay.usernames.mData[ends side]? = some (name side) ∧
    relay.usernames.getSID hash (name side) = some (ends side)

/-- Of what the server passes on while it knows both, all that has come from the other for the
one comes to the one. -/
theorem Ordered.picked_eq (hordered : Ordered P hash t) (hbetween : t.net.Between ends name)
    {relay : Relay} (hrelay : relay ∈ t.net.relays) (hknows : Knows hash ends name relay)
    (side : Side) :
    (stamped hash relay).bind (pick (ends side) (name side.other)) =
      if relay.origin = ends side.other then payloadTo (name side) relay.packet else none := by
  have hpicked : ∀ payload, (stamped hash relay).bind (pick (ends side) (name side.other)) =
      some payload → relay.origin = ends side.other ∧
        payloadTo (name side) relay.packet = some payload :=
    fun payload hsome => hordered.of_picked hbetween hrelay hsome
  by_cases horigin : relay.origin = ends side.other
  swap
  · rw [if_neg horigin]
    exact Option.eq_none_iff_forall_ne_some.mpr fun payload hsome =>
      horigin (hpicked payload hsome).1
  rw [if_pos horigin]
  by_cases hto : relay.packet.mReceiver = name side
  · have hstamped : stamped hash relay =
        some (ends side, relay.packet.setSender (name side.other)) := by
      rw [stamped, horigin, (hknows side.other).1, Option.bind_some, hto, (hknows side).2,
        Option.map_some]
    rw [hstamped, Option.bind_some, pick, if_pos rfl, payloadTo, if_pos hto]
    exact if_pos rfl
  · have hnone : payloadTo (name side) relay.packet = none := if_neg hto
    rw [hnone]
    refine Option.eq_none_iff_forall_ne_some.mpr fun payload hsome => ?_
    cases hnone.symm.trans (hpicked payload hsome).2

/-- A connection that has logged in under its only name is registered under it. -/
theorem registered_of_onlyAs {net : ChatNetwork} {name : Str} (honly : net.OnlyAs sid name)
    (hlogin : (sid, name) ∈ net.logins) : Server.registered net.logins sid = some name := by
  cases hfind : net.logins.find? fun login => login.1 = sid with
  | none => exact absurd (decide_eq_true rfl) (List.find?_eq_none.mp hfind _ hlogin)
  | some login =>
      have hsid := List.find?_some hfind
      rw [decide_eq_true_eq] at hsid
      rw [Server.registered, hfind, Option.map_some,
        (honly login (List.mem_of_find?_eq_some hfind)).mp hsid]

theorem knows_of_registered {net : ChatNetwork} (hgood : Good P hash net)
    (hregistered : ∀ side, Server.registered net.logins (ends side) = some (name side))
    {relay : Relay} (hrelay : relay.usernames = net.server.usernames) :
    Knows hash ends name relay := by
  have hs := Server.good_of_reachable hgood.reachable
  intro side
  have hnonempty := hgood.named _ (Server.mem_of_registered (hregistered side))
  rw [hrelay]
  exact ⟨hs.stored _ _ (hregistered side), hs.getSID_registered hnonempty (hregistered side)⟩

theorem relays_of_step {net net' : ChatNetwork} {label : ChatNetwork.Label}
    (hstep : ChatNetwork.Step P hash net label net') :
    ∃ more, net'.relays = net.relays ++ more ∧
      ∀ relay ∈ more, relay.usernames = net.server.usernames := by
  cases hstep with
  | @server label server logins hassumed hread hserver =>
      refine ⟨handled net.server label, rfl, fun relay hrelay => ?_⟩
      cases label with
      | packet env sid pkt =>
          cases pkt with
          | message msg => rw [List.mem_singleton.mp hrelay]
          | _ => cases hrelay
      | _ => cases hrelay
  | _ => exact ⟨[], (List.append_nil _).symm, by rintro _ ⟨⟩⟩

/-- Once both have logged in, the server knows them by their names. -/
theorem relays_of_run (hopens : P.GcmOpensSealed) (hreach : Reachable (system P hash) s)
    {labels : List Label} (hrun : Run (system P hash) s labels t)
    (hbetween : t.net.Between ends name)
    (hlogged : ∀ side, (ends side, name side) ∈ s.net.logins) :
    s.net.Between ends name ∧ ∃ more, t.net.relays = s.net.relays ++ more ∧
      ∀ relay ∈ more, Knows hash ends name relay := by
  induction hrun with
  | nil s => exact ⟨hbetween, [], (List.append_nil _).symm, by rintro _ ⟨⟩⟩
  | @cons s u t label labels head tail ih =>
      obtain ⟨net, ⟨hnet, -⟩, -, hu⟩ := id head
      have hsame : u.net = net := by
        rw [hu]
        exact s.advance_net net label
      obtain ⟨-, hlogins, -⟩ := ChatNetwork.grows_of_step hnet
      obtain ⟨hthen, later, hlater, hknows⟩ := ih (hreach.step head) hbetween fun side =>
        hsame ▸ hlogins (hlogged side)
      rw [hsame] at hthen hlater
      have hnow := hthen.of_step hnet
      obtain ⟨first, hfirst, hnames⟩ := relays_of_step hnet
      have hgood := (ordered_of_reachable hopens hreach).good
      refine ⟨hnow, first ++ later, by rw [hlater, hfirst, List.append_assoc],
        fun relay hrelay => ?_⟩
      rcases List.mem_append.mp hrelay with hmem | hmem
      · exact knows_of_registered hgood
          (fun side => registered_of_onlyAs (hnow.only side) (hlogged side)) (hnames relay hmem)
      · exact hknows relay hmem

open ChatNetwork (Open sampleEnds sampleName clear_keepsLength)

/-- `bob` and `alice` have logged in, and nothing is on its way. -/
theorem exists_loggedIn : ∃ (t : ChatOrder) (bob alice : Host),
    Reachable (reliable .clear fun _ => 0) t ∧ t.net.Careful ∧
    t.Ready 0 bob ∧ t.Ready 1 alice ∧ bob.worker.client.mE2ESessions = (fun _ => none) ∧
    t.net.logins = [(1, Server.alice), (0, Client.bob)] := by
  obtain ⟨t, ht, htCareful, htServer, htLogins, htReady⟩ := exists_joined
  have hopens := Primitives.clear_gcmOpensSealed
  have hseq : numberRead Client.fresh.curSeqNo (fun _ => 0) = Client.fresh.curSeqNo := by decide
  obtain ⟨u, bob, hu, huCareful, huApart, huReady, huNone, huUsernames, huLogins⟩ :=
    exists_ready hopens clear_keepsLength ht htCareful (htReady .left) (Client.sampleEnv 0) hseq
      (show Client.bob ≠ .empty by decide) (by decide) (by rw [htServer]; rfl)
  have halice := (htReady .right).apart huApart (by decide)
  obtain ⟨v, alice, hv, hvCareful, hvApart, hvReady, -, hvUsernames, hvLogins⟩ :=
    exists_ready hopens clear_keepsLength hu huCareful halice (Client.sampleEnv 0) hseq
      (show Server.alice ≠ .empty by decide) (by decide) (by rw [huUsernames, htServer]; rfl)
  exact ⟨v, bob, alice, hv, hvCareful, huReady.apart hvApart (by decide), hvReady, huNone,
    by rw [hvLogins, huLogins, htLogins]; rfl⟩

/-- From there the INIT of `bob` comes to `alice`. -/
theorem exists_initArrived : ∃ s t labels payload,
    Reachable (reliable .clear fun _ => 0) s ∧ Run (reliable .clear fun _ => 0) s labels t ∧
    s.net.logins = [(1, Server.alice), (0, Client.bob)] ∧ t.net.Between sampleEnds sampleName ∧
    (s.AllRead 0 ∧ s.AllTaken 1) ∧ (t.AllRead 0 ∧ t.AllTaken 1) ∧
    t.gotFrom 1 Client.bob = s.gotFrom 1 Client.bob ++ [payload] := by
  obtain ⟨s, bob, alice, hs, hsCareful, hbob, halice, hnone, hlogins⟩ := exists_loggedIn
  have hopens := Primitives.clear_gcmOpensSealed
  obtain ⟨c, hc⟩ : ∃ c, bob.worker = ⟨c, none⟩ := ⟨_, by rw [← hbob.idle.task]⟩
  have hidle := hbob.idle
  rw [hc] at hidle hnone
  obtain ⟨c₁, session, seq, pl, key, q, hrun, hbound, -, -, hsent, hpl, hkey, hwaits, -⟩ :=
    Worker.run_setup .clear hidle.bounded
      (show c.mE2ESessions Server.alice = none from congrFun hnone _)
      (show (Client.sampleEnv 0).sendResult = 0 from rfl)
  have hnext : c₁.sent[bob.posted.length]? = _ := hbob.next (by rw [hsent, hc])
  rw [← hc] at hrun
  obtain ⟨steps, texts, u, hown, hu, hapart, hcareful, hopen⟩ :=
    hbob.own (fun _ => 0) hsCareful hrun (hwaits c₁ hbound)
  have hlogins' : u.net.logins = [(1, Server.alice), (0, Client.bob)] := by
    rw [hu]
    exact hlogins
  have hgood := (ordered_of_reachable hopens (hs.run hown).of_restrict).good
  have halice' := halice.apart hapart (by decide)
  have hfound : u.net.server.usernames.getSID (fun _ => 0) Server.alice = some 1 :=
    (Server.good_of_reachable hgood.reachable).getSID_registered (by decide)
      (by rw [hlogins']; rfl)
  have hfits := ChatNetwork.fits_between clear_keepsLength
    (show (sampleName .left).1.length + (sampleName .right).1.length + 0 ≤ 64000 by decide) seq
    (show pl.data.1.length ≤ 0 + 276 by rw [ChatNetwork.length_of_init hpl hkey]) .left
  obtain ⟨x, hpkt, hitem, -⟩ := ChatNetwork.exists_messageExchange hopens hgood halice'.ends
    (show Server.registered u.net.logins 0 = some Client.bob by rw [hlogins']; rfl) hfound
    hfits.1 hfits.2
  obtain ⟨w, bytes, posted, ⟨steps', hsteps⟩, -, hnet, hread, -, harrived, htaken⟩ :=
    run_exchange hopens hgood hcareful x hopen halice'.ends (hnext.trans (congrArg some hpkt.symm))
      (by rw [hu]; exact hbob.read) ((exact_of_reachable hopens (hs.run hown)).arrived 1).le
      halice'.taken
  have hbobHost : w.net.hosts 0 = some { bob with
      posted := bob.posted ++ [⟨x.pkt, bytes⟩], worker := ⟨c₁, some q⟩, texts := texts } := by
    rw [hnet]
    exact (ChatNetwork.setHost_of_ne _ (by decide) _).trans (x.hosts_handling _ _)
  refine ⟨s, w, _, pl, hs, hown.append hsteps, hlogins, ⟨fun side => Or.inl ?_, fun side => ?_⟩,
    ⟨hbob.allRead, halice.taken⟩, ⟨fun host' hhost' => ?_, htaken⟩, ?_⟩
  · cases side with
    | left => exact ne_of_eq_of_ne hbobHost (Option.some_ne_none _)
    | right =>
        rw [hnet]
        exact ne_of_eq_of_ne (ChatNetwork.setHost_self _ _ _) (Option.some_ne_none _)
  · have hlast : w.net.logins = [(1, Server.alice), (0, Client.bob)] := by
      rw [← hlogins', hnet]
      change Server.grants _ _ (.packet x.env 0 x.pkt) ++ _ = _
      rw [hpkt]
      rfl
    rw [ChatNetwork.OnlyAs, hlast]
    cases side <;> decide
  · rw [hbobHost, Option.some.injEq] at hhost'
    rw [← hhost', hread, Function.update_self, List.length_append, hbob.handed]
    refine ⟨?_, rfl⟩
    rw [hsent, List.length_append, hc]
    rfl
  · rw [gotFrom, harrived, Function.update_self, hitem, hu, List.filterMap_append,
      List.filterMap_append]
    rfl

/-- What has come into a client's mailbox under the name of another client is, in order and
without repetition, among what the other has handed out for it, in every careful run in which
the connections keep the order of their records. -/
theorem messages_in_order (hopens : P.GcmOpensSealed) (hreach : Reachable (system P hash) t)
    (hbetween : t.net.Between ends name) (side : Side) :
    (t.gotFrom (ends side) (name side.other)).Sublist
      (handedTo (t.net.clientAt (ends side.other)) (name side)) := by
  have hordered := ordered_of_reachable hopens hreach
  exact ((hordered.got_stamped _ _).trans (hordered.stamped_relayed hbetween side)).trans
    (hordered.relayed_handed (hbetween.isHost side.other) _)

theorem messages_in_order_sample : ∃ t, Reachable (system .clear fun _ => 0) t ∧
    t.gotFrom 1 Client.bob ≠ [] ∧
    (t.gotFrom 1 Client.bob).Sublist (handedTo (t.net.clientAt 0) Server.alice) := by
  obtain ⟨s, t, labels, payload, hs, hrun, -, hbetween, -, -, hgot⟩ := exists_initArrived
  have hreach := (hs.run hrun).of_restrict
  refine ⟨t, hreach, ?_,
    messages_in_order Primitives.clear_gcmOpensSealed hreach hbetween .right⟩
  rw [hgot]
  exact List.append_ne_nil_of_right_ne_nil _ (List.cons_ne_nil _ _)

/-- Between two moments at which nothing is on its way from the other to the one, and from the
first of which on both are logged in, all that the other hands out for the one comes to the one,
in order and once each, where connections lose nothing. -/
theorem messages_delivered (hopens : P.GcmOpensSealed) (hreach : Reachable (reliable P hash) s)
    {labels : List Label} (hrun : Run (reliable P hash) s labels t)
    (hbetween : t.net.Between ends name)
    (hlogged : ∀ side, Server.registered s.net.logins (ends side) = some (name side))
    (side : Side) (hreadBefore : s.AllRead (ends side.other))
    (htakenBefore : s.AllTaken (ends side))
    (hread : t.AllRead (ends side.other)) (htaken : t.AllTaken (ends side)) :
    ∃ new, handedTo (t.net.clientAt (ends side.other)) (name side) =
        handedTo (s.net.clientAt (ends side.other)) (name side) ++ new ∧
      t.gotFrom (ends side) (name side.other) = s.gotFrom (ends side) (name side.other) ++ new := by
  obtain ⟨hbefore, more, hmore, hknows⟩ := relays_of_run hopens hreach.of_restrict
    hrun.of_restrict hbetween fun side => Server.mem_of_registered (hlogged side)
  have hs := exact_of_reachable hopens hreach
  have ht := exact_of_reachable hopens (hreach.run hrun)
  refine ⟨((more.filter fun relay => relay.origin = ends side.other).map (·.packet)).filterMap
    (payloadTo (name side)), ?_, ?_⟩
  · rw [ht.handed_eq (hbetween.isHost side.other) hread,
      hs.handed_eq (hbefore.isHost side.other) hreadBefore, hmore, List.filter_append,
      List.map_append, List.filterMap_append]
  · rw [ht.got_eq htaken, hs.got_eq htakenBefore, hmore, List.filterMap_append,
      List.filterMap_append]
    congr 1
    rw [List.filterMap_filterMap, List.filterMap_map, List.filterMap_filter]
    refine List.filterMap_congr fun relay hrelay => ?_
    have hmem : relay ∈ t.net.relays := hmore ▸ List.mem_append_right _ hrelay
    rw [ht.ordered.picked_eq hbetween hmem (hknows relay hrelay) side]
    by_cases horigin : relay.origin = ends side.other
    · rw [if_pos horigin, if_pos (decide_eq_true horigin)]
      rfl
    · rw [if_neg horigin, if_neg (by rw [decide_eq_true_iff]; exact horigin)]

theorem messages_delivered_sample : ∃ s t labels payload,
    Run (reliable .clear fun _ => 0) s labels t ∧
    t.gotFrom 1 Client.bob = s.gotFrom 1 Client.bob ++ [payload] ∧
    handedTo (t.net.clientAt 0) Server.alice =
      handedTo (s.net.clientAt 0) Server.alice ++ [payload] := by
  obtain ⟨s, t, labels, payload, hs, hrun, hlogins, hbetween, hbefore, hafter, hgot⟩ :=
    exists_initArrived
  have hregistered : ∀ side, Server.registered s.net.logins (sampleEnds side) =
      some (sampleName side) := by
    rw [hlogins]
    intro side
    cases side <;> rfl
  obtain ⟨new, hnew, hgotNew⟩ := messages_delivered Primitives.clear_gcmOpensSealed hs hrun
    hbetween hregistered .right hbefore.1 hbefore.2 hafter.1 hafter.2
  have hsame : new = [payload] := List.append_cancel_left (hgotNew.symm.trans hgot)
  exact ⟨s, t, labels, payload, hrun, hgot, hsame ▸ hnew⟩

end ChatOrder

end LeakyChat

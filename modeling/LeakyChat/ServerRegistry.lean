/-
Names and connections.  The names are kept by socket id and are never given
back, so they follow the logins granted and not the connections that are open;
when a name is refused, and which names are listed, is settled by both.
-/
import LeakyChat.ServerRelay
import Mathlib.Data.List.Nodup

namespace LeakyChat

open Transition

namespace Server

variable {P : Primitives} {hash : Str → UInt64} {s t : Server} {logins : Logins}

/-- Whether the index still has the empty name: a login was granted under it,
and none since to a connection whose element was there and empty, which takes
the entry out. -/
def EmptyTaken : Logins → Prop
  | [] => False
  | (sid, name) :: earlier =>
      name = .empty ∨
        ¬ (Covered earlier sid ∧ (registered earlier sid).getD .empty = .empty) ∧
          EmptyTaken earlier

/-- What the names are, of the logins granted so far. -/
structure Registry (usernames : IndexedSocketMap Str) (logins : Logins) : Prop where
  slots : ∀ sid, sid < usernames.mData.length →
    usernames.mData[sid]? = some ((registered logins sid).getD .empty)
  empty : (∃ entry ∈ usernames.reverseMap, entry.filed = .empty) ↔ EmptyTaken logins

theorem registry_fresh : Registry fresh.usernames [] := by
  constructor
  · intro sid hsid
    cases hsid
  · simp [fresh, IndexedSocketMap.empty, EmptyTaken]

theorem Registry.login (hregistry : Registry s.usernames logins) (hs : Good s logins)
    {sid : SID} {name : Str} (hfree : s.usernames.contains hash name = false) :
    Registry (s.usernames.insert hash sid name) ((sid, name) :: logins) := by
  have hslot : s.usernames.mData[sid]? = some .empty ↔
      Covered logins sid ∧ (registered logins sid).getD .empty = .empty := by
    rw [Covered, ← hs.reach sid]
    constructor
    · intro hget
      have hsid := (List.getElem?_eq_some_iff.mp hget).1
      rw [hregistry.slots sid hsid, Option.some.injEq] at hget
      exact ⟨hsid, hget⟩
    · rintro ⟨hsid, hempty⟩
      rw [hregistry.slots sid hsid, hempty]
  constructor
  · intro other hother
    rw [IndexedSocketMap.insert_mData, IndexedSocketMap.store_length] at hother
    rw [IndexedSocketMap.insert_mData, IndexedSocketMap.store_getElem?, registered_cons]
    by_cases hsame : other = sid
    · rw [if_pos hsame, if_pos hsame.symm]
      rfl
    · rw [if_neg hsame, if_neg (Ne.symm hsame)]
      by_cases hold : other < s.usernames.mData.length
      · rw [if_pos hold, hregistry.slots other hold]
      · have hnew : other < sid + 1 := (lt_max_iff.mp hother).resolve_left hold
        rw [if_neg hold, if_pos hnew]
        cases hnone : registered logins other with
        | none => rfl
        | some name' =>
            have hget := hs.stored other name' hnone
            exact absurd (List.getElem?_eq_some_iff.mp hget).1 hold
  · rw [hs.indexed.insert_reverseMap hfree, EmptyTaken, ← hslot, ← hregistry.empty]
    simp only [List.mem_cons, exists_eq_or_imp, hs.indexed.mem_release]
    apply or_congr Iff.rfl
    constructor
    · rintro ⟨entry, ⟨hmem, hne⟩, hfiled⟩
      rw [hfiled] at hne
      exact ⟨hne, entry, hmem, hfiled⟩
    · rintro ⟨hne, entry, hmem, hfiled⟩
      exact ⟨entry, ⟨hmem, by rwa [hfiled]⟩, hfiled⟩

/-- A step leaves the names as they are, or grants one login for a free name. -/
theorem step_usernames {label : Label} (hstep : Step P hash s label t) :
    grants hash s label = [] ∧ t.usernames = s.usernames ∨
      ∃ sid name, grants hash s label = [(sid, name)] ∧
        s.usernames.contains hash name = false ∧
        t.usernames = s.usernames.insert hash sid name := by
  cases hstep with
  | connect hhandler => exact Or.inl ⟨rfl, rfl⟩
  | wait idx revents => exact Or.inl ⟨rfl, rfl⟩
  | drop sid => exact Or.inl ⟨rfl, rfl⟩
  | packet hopen hrun =>
      rename_i env sid pkt
      obtain ⟨_, husernames⟩ := handlePacket_ok hrun
      cases pkt with
      | fieldReq req =>
          rw [grants] at husernames ⊢
          by_cases hthere : s.usernames.contains hash req.mField = true
          · rw [if_pos hthere] at husernames ⊢
            exact Or.inl ⟨rfl, husernames⟩
          · rw [if_neg hthere] at husernames ⊢
            exact Or.inr ⟨sid, req.mField, rfl, Bool.eq_false_iff.mpr hthere, husernames⟩
      | _ => exact Or.inl ⟨rfl, husernames⟩

theorem registry_step {label : Label} (hs : Good s logins)
    (hregistry : Registry s.usernames logins) (hstep : Step P hash s label t) :
    Registry t.usernames (grants hash s label ++ logins) := by
  rcases step_usernames hstep with ⟨hgrants, husernames⟩ | ⟨sid, name, hgrants, hfree, husernames⟩
  · rw [hgrants, husernames]
    exact hregistry
  · rw [hgrants, husernames]
    exact hregistry.login hs hfree

theorem registry_of_reachable (hreach : Reachable (system P hash) (s, logins)) :
    Registry s.usernames logins := by
  have hboth : Good s logins ∧ Registry s.usernames logins := by
    refine hreach.invariant
      (P := fun state => Good state.1 state.2 ∧ Registry state.1.usernames state.2) ?_ ?_
    · rintro _ rfl
      exact ⟨good_fresh, registry_fresh⟩
    · rintro ⟨s, logins⟩ label ⟨t, _⟩ ⟨hs, hregistry⟩ ⟨hstep, rfl⟩
      exact ⟨good_step hs hstep, registry_step hs hregistry hstep⟩
  exact hboth.2

/-- A name other than the empty one is in the index exactly if some login was
granted under it that its connection has not given up for another. -/
theorem contains_iff_registered (hs : Good s logins) {u : Str} (hu : u ≠ .empty) :
    s.usernames.contains hash u = true ↔ ∃ sid, registered logins sid = some u := by
  constructor
  · intro hthere
    obtain ⟨entry, hmem, hfiled⟩ := hs.indexed.contains_iff.mp hthere
    exact ⟨entry.slot, hfiled ▸ hs.filed entry hmem⟩
  · rintro ⟨sid, hname⟩
    exact (hs.indexed.contains_iff_getSID hu).mpr ⟨sid, hs.stored sid u hname⟩

theorem contains_empty_iff (hs : Good s logins) (hregistry : Registry s.usernames logins) :
    s.usernames.contains hash .empty = true ↔ EmptyTaken logins :=
  hs.indexed.contains_iff.trans hregistry.empty

/-- No name is kept by a connection that is closed. -/
def InStep (s : Server) (logins : Logins) (u : Str) : Prop :=
  (u ≠ .empty → ∀ sid, registered logins sid = some u → s.connections.IsOpen sid) ∧
    (u = .empty → (EmptyTaken logins ↔
      ∃ sid, s.connections.IsOpen sid ∧ registered logins sid = some u))

/-- What is in the index is held by an open connection exactly if names and
connections are in step. -/
theorem contains_iff_open (hs : Good s logins) (hregistry : Registry s.usernames logins)
    (u : Str) :
    (s.usernames.contains hash u = true ↔
        ∃ sid, s.connections.IsOpen sid ∧ registered logins sid = some u) ↔
      InStep s logins u := by
  by_cases hu : u = .empty
  · subst hu
    rw [contains_empty_iff hs hregistry]
    constructor
    · exact fun hiff => ⟨fun hne => absurd rfl hne, fun _ => hiff⟩
    · exact fun hinStep => hinStep.2 rfl
  · rw [contains_iff_registered hs hu]
    constructor
    · intro hiff
      refine ⟨fun _ sid hname => ?_, fun hempty => absurd hempty hu⟩
      obtain ⟨other, hopen, hother⟩ := hiff.mp ⟨sid, hname⟩
      have hsame := hs.indexed.id_unique hash hu (hs.stored sid u hname)
        (hs.stored other u hother)
      rw [hsame]
      exact hopen
    · intro hinStep
      constructor
      · rintro ⟨sid, hname⟩
        exact ⟨sid, hinStep.1 hu sid hname, hname⟩
      · rintro ⟨sid, _, hname⟩
        exact ⟨sid, hname⟩

theorem login_control_iff (sid : SID) (u : Str) (s : Server) :
    (login hash sid u s).1 = .nack ↔ s.usernames.contains hash u = true := by
  rw [login]
  by_cases hthere : s.usernames.contains hash u = true
  · rw [if_pos hthere]
    exact iff_of_true rfl hthere
  · rw [if_neg hthere]
    exact iff_of_false (show ControlField.ack ≠ .nack by decide) hthere

theorem free_of_login {sid : SID} {u : Str} (haccepted : (login hash sid u s).1 = .ack) :
    s.usernames.contains hash u = false := by
  rw [← Bool.not_eq_true, ← login_control_iff sid, haccepted]
  decide

theorem login_free {u : Str} (hfree : s.usernames.contains hash u = false) (sid : SID) :
    login hash sid u s = (.ack, { s with usernames := s.usernames.insert hash sid u }) := by
  rw [login, hfree]
  rfl

/-- In every reachable state a login is refused exactly if an open connection
goes by the name, as long as no closed one does: no login is taken back when
its connection closes. -/
theorem login_nack_iff (hreach : Reachable (system P hash) (s, logins)) {sid : SID}
    (hsid : s.connections.IsOpen sid) (env : ServerEnv) (pkt : FieldReqPacket) :
    ∃ t control record, handleLogin P hash env sid pkt s = .ok (⟨⟩, t) ∧
      t.sent = s.sent ++ [⟨sid, .control ⟨env.replySeq, control, pkt.seq⟩, record⟩] ∧
      ((control = .nack ↔ ∃ other, s.connections.IsOpen other ∧
          registered logins other = some pkt.mField) ↔
        InStep s logins pkt.mField) := by
  have hs := good_of_reachable hreach
  obtain ⟨record, hrun⟩ : ∃ record, handleLogin P hash env sid pkt s = .ok (⟨⟩, _) :=
    handleLogin_run hs hsid env pkt
  refine ⟨_, (login hash sid pkt.mField s).1, record, hrun, ?_, ?_⟩
  · unfold login
    split <;> rfl
  · rw [login_control_iff]
    exact contains_iff_open hs (registry_of_reachable hreach) pkt.mField

/-- Connection 1 has logged in as `alice` and dropped. -/
theorem reachable_dropped : ∃ s, Reachable (system .clear fun _ => 0) (s, [(1, alice)]) ∧
    s.connections = connectedTwice.connections.close 1 := by
  obtain ⟨s, hreach, hconnections, _⟩ := reachable_alice
  refine ⟨{ s with connections := s.connections.close 1 }, ?_, ?_⟩
  · exact hreach.step ⟨Step.drop 1, rfl⟩
  · exact congrArg (SocketSet.close · 1) hconnections

theorem dropped_isOpen {s : Server}
    (hconnections : s.connections = connectedTwice.connections.close 1) :
    s.connections.IsOpen 0 ∧ ¬ s.connections.IsOpen 1 := by
  rw [hconnections]
  constructor
  · exact ⟨sampleHandler, rfl, rfl⟩
  · rintro ⟨nh, hget, hconnected⟩
    cases hget
    cases hconnected

def sampleRequest : FieldReqPacket := ⟨8, .setUsername, alice⟩

theorem login_nack_iff_sample : ∃ s, Reachable (system .clear fun _ => 0) (s, [(1, alice)]) ∧
    ∃ t control record,
      handleLogin .clear (fun _ => 0) sampleEnv 0 sampleRequest s = .ok (⟨⟩, t) ∧
      t.sent = s.sent ++ [⟨0, .control ⟨0, control, 8⟩, record⟩] ∧
      ((control = .nack ↔ ∃ other, s.connections.IsOpen other ∧
          registered [(1, alice)] other = some alice) ↔
        InStep s [(1, alice)] alice) := by
  obtain ⟨s, hreach, hconnections⟩ := reachable_dropped
  exact ⟨s, hreach,
    login_nack_iff hreach (dropped_isOpen hconnections).1 sampleEnv sampleRequest⟩

/-- Nobody connected goes by `alice`, and connection 0 is refused the name. -/
theorem login_after_drop : ∃ s, Reachable (system .clear fun _ => 0) (s, [(1, alice)]) ∧
    s.connections.IsOpen 0 ∧
    (∀ other, s.connections.IsOpen other → registered [(1, alice)] other ≠ some alice) ∧
    ∃ t record, handleLogin .clear (fun _ => 0) sampleEnv 0 sampleRequest s = .ok (⟨⟩, t) ∧
      t.sent = s.sent ++ [⟨0, .control ⟨0, .nack, 8⟩, record⟩] := by
  obtain ⟨s, hreach, hconnections⟩ := reachable_dropped
  have hs := good_of_reachable hreach
  obtain ⟨hopen, hclosed⟩ := dropped_isOpen hconnections
  refine ⟨s, hreach, hopen, ?_, ?_⟩
  · intro other hother hname
    rw [registered_cons] at hname
    by_cases hone : 1 = other
    · rw [hone] at hclosed
      exact hclosed hother
    · rw [if_neg hone] at hname
      cases hname
  · have hthere : s.usernames.contains (fun _ => 0) sampleRequest.mField = true :=
      (contains_iff_registered hs (by decide)).mpr ⟨1, rfl⟩
    obtain ⟨record, hrun⟩ : ∃ record, handleLogin .clear (fun _ => 0) sampleEnv 0
        sampleRequest s = .ok (⟨⟩, _) := handleLogin_run hs hopen sampleEnv sampleRequest
    have hlogin : login (fun _ => 0) 0 sampleRequest.mField s = (.nack, s) :=
      if_pos hthere
    rw [hlogin] at hrun
    exact ⟨_, record, hrun, rfl⟩

/-- The socket ids of open connections, from `sid` on. -/
def openIds : List NetworkHandler → Nat → List Nat
  | [], _ => []
  | nh :: sset, sid =>
      if nh.connected then sid :: openIds sset (sid + 1) else openIds sset (sid + 1)

theorem mem_openIds {sset : List NetworkHandler} {sid other : Nat} :
    other ∈ openIds sset sid ↔
      ∃ i nh, other = sid + i ∧ sset[i]? = some nh ∧ nh.connected = true := by
  induction sset generalizing sid with
  | nil => simp [openIds]
  | cons nh sset ih =>
      have hsplit : (∃ i nh', other = sid + i ∧ (nh :: sset)[i]? = some nh' ∧
            nh'.connected = true) ↔
          other = sid ∧ nh.connected = true ∨
            ∃ i nh', other = sid + 1 + i ∧ sset[i]? = some nh' ∧ nh'.connected = true := by
        constructor
        · rintro ⟨i, nh', hother, hget, hopen⟩
          cases i with
          | zero =>
              cases hget
              exact Or.inl ⟨hother, hopen⟩
          | succ i => exact Or.inr ⟨i, nh', by omega, hget, hopen⟩
        · rintro (⟨hother, hopen⟩ | ⟨i, nh', hother, hget, hopen⟩)
          · exact ⟨0, nh, hother, rfl, hopen⟩
          · exact ⟨i + 1, nh', by omega, hget, hopen⟩
      rw [hsplit, ← ih, openIds]
      by_cases hopen : nh.connected = true
      · simp [hopen]
      · simp [hopen]

theorem openIds_nodup (sset : List NetworkHandler) (sid : Nat) : (openIds sset sid).Nodup := by
  induction sset generalizing sid with
  | nil => exact List.nodup_nil
  | cons nh sset ih =>
      rw [openIds]
      by_cases hopen : nh.connected = true
      · rw [if_pos hopen, List.nodup_cons]
        refine ⟨fun hmem => ?_, ih (sid + 1)⟩
        obtain ⟨i, _, hsid, _⟩ := mem_openIds.mp hmem
        omega
      · rw [if_neg hopen]
        exact ih (sid + 1)

/-- What the names of open connections are collected into. -/
theorem collect_eq {mData : List Str} {name : Nat → Str} {sset : List NetworkHandler}
    {sid : Nat} (hname : ∀ other ∈ openIds sset sid, mData[other]? = some (name other)) :
    IndexedSocketMap.collect mData sset sid = .ok ((openIds sset sid).map name) := by
  induction sset generalizing sid with
  | nil => rfl
  | cons nh sset ih =>
      rw [IndexedSocketMap.collect, openIds]
      rw [openIds] at hname
      by_cases hopen : nh.connected = true
      · rw [if_pos hopen] at hname
        have hrest := ih fun other hother => hname other (List.mem_cons_of_mem _ hother)
        rw [if_pos hopen, if_pos hopen, hname sid List.mem_cons_self, hrest]
        rfl
      · rw [if_neg hopen] at hname
        rw [if_neg hopen, if_neg hopen, ih hname]

theorem mem_openIds_iff_isOpen {s : Server} {sid : SID} :
    sid ∈ openIds s.connections.data 0 ↔ s.connections.IsOpen sid := by
  rw [mem_openIds]
  constructor
  · rintro ⟨i, nh, hsid, hget, hopen⟩
    rw [Nat.zero_add] at hsid
    rw [hsid]
    exact ⟨nh, hget, hopen⟩
  · rintro ⟨nh, hget, hopen⟩
    exact ⟨sid, nh, (Nat.zero_add sid).symm, hget, hopen⟩

/-- The names listed are those of the connections that are open and logged in,
each listed once. -/
def Lists (s : Server) (logins : Logins) (names : List Str) : Prop :=
  names.Nodup ∧
    ∀ name, name ∈ names ↔ ∃ sid, s.connections.IsOpen sid ∧ registered logins sid = some name

/-- Every open connection has logged in, no two under the empty name. -/
def AllNamed (s : Server) (logins : Logins) : Prop :=
  (∀ sid, s.connections.IsOpen sid → ∃ name, registered logins sid = some name) ∧
    ∀ sid other, s.connections.IsOpen sid → s.connections.IsOpen other →
      registered logins sid = some .empty → registered logins other = some .empty →
      sid = other

/-- The name a connection is listed under; without a login the empty one. -/
def listedName (logins : Logins) (sid : SID) : Str := (registered logins sid).getD .empty

theorem listedName_of_some {sid : SID} {name : Str} (hname : registered logins sid = some name) :
    listedName logins sid = name := by
  rw [listedName, hname, Option.getD_some]

theorem data_eq (hregistry : Registry s.usernames logins)
    (hinRange : ∀ sid, s.connections.IsOpen sid → sid < s.usernames.mData.length) :
    s.usernames.data s.connections =
      .ok ((openIds s.connections.data 0).map (listedName logins)) := by
  apply collect_eq
  intro sid hsid
  exact hregistry.slots sid (hinRange sid (mem_openIds_iff_isOpen.mp hsid))

theorem listedNames_nodup_iff :
    ((openIds s.connections.data 0).map (listedName logins)).Nodup ↔
      ∀ sid, s.connections.IsOpen sid → ∀ other, s.connections.IsOpen other →
        listedName logins sid = listedName logins other → sid = other := by
  rw [List.nodup_map_iff_inj_on (openIds_nodup _ 0)]
  simp only [mem_openIds_iff_isOpen]

theorem inRange_of_data {names : List Str} (hdata : s.usernames.data s.connections = .ok names)
    {sid : SID} (hopen : s.connections.IsOpen sid) : sid < s.usernames.mData.length := by
  obtain ⟨nh, hget, hconnected⟩ := hopen
  have hlt := IndexedSocketMap.collect_ok_iff.mp ⟨names, hdata⟩ sid nh hget hconnected
  rwa [Nat.zero_add] at hlt

theorem allNamed_of_lists (hregistry : Registry s.usernames logins) {names : List Str}
    (hdata : s.usernames.data s.connections = .ok names) (hlists : Lists s logins names) :
    AllNamed s logins := by
  rw [data_eq hregistry fun _ => inRange_of_data hdata, Except.ok.injEq] at hdata
  rw [← hdata] at hlists
  have hinj := listedNames_nodup_iff.mp hlists.1
  constructor
  · intro sid hsid
    -- Without a login the connection is listed under the empty name, and so is another.
    have hmem : listedName logins sid ∈ (openIds s.connections.data 0).map (listedName logins) :=
      List.mem_map_of_mem (mem_openIds_iff_isOpen.mpr hsid)
    obtain ⟨other, hother, hname⟩ := (hlists.2 (listedName logins sid)).mp hmem
    rw [← hinj other hother sid hsid (listedName_of_some hname)]
    exact ⟨_, hname⟩
  · intro sid other hsid hother hname hname'
    apply hinj sid hsid other hother
    rw [listedName_of_some hname, listedName_of_some hname']

theorem lists_of_allNamed (hs : Good s logins) (hregistry : Registry s.usernames logins)
    (hnamed : AllNamed s logins) :
    ∃ names, s.usernames.data s.connections = .ok names ∧ Lists s logins names := by
  obtain ⟨hlogged, hempty⟩ := hnamed
  have hinRange : ∀ sid, s.connections.IsOpen sid → sid < s.usernames.mData.length := by
    intro sid hsid
    obtain ⟨u, hu⟩ := hlogged sid hsid
    exact (List.getElem?_eq_some_iff.mp (hs.stored sid u hu)).1
  refine ⟨_, data_eq hregistry hinRange, listedNames_nodup_iff.mpr ?_, ?_⟩
  · intro sid hsid other hother hsame
    obtain ⟨u, hu⟩ := hlogged sid hsid
    obtain ⟨u', hu'⟩ := hlogged other hother
    rw [listedName_of_some hu, listedName_of_some hu'] at hsame
    subst hsame
    by_cases hne : u = .empty
    · subst hne
      exact hempty sid other hsid hother hu hu'
    · exact hs.indexed.id_unique (fun _ => 0) hne (hs.stored sid u hu) (hs.stored other u hu')
  · intro u
    simp only [List.mem_map, mem_openIds_iff_isOpen]
    apply exists_congr
    intro sid
    apply and_congr_right
    intro hsid
    obtain ⟨u', hu'⟩ := hlogged sid hsid
    rw [listedName_of_some hu', hu', Option.some.injEq]

theorem lists_iff (hs : Good s logins) (hregistry : Registry s.usernames logins) :
    (∃ names, s.usernames.data s.connections = .ok names ∧ Lists s logins names) ↔
      AllNamed s logins :=
  ⟨fun ⟨_, hdata, hlists⟩ => allNamed_of_lists hregistry hdata hlists,
    lists_of_allNamed hs hregistry⟩

theorem userListPacket_ok {env : ServerEnv} {reply : UserListPacket}
    (hreply : userListPacket env s = .ok reply) :
    ∃ names : StrVector, s.usernames.data s.connections = .ok names.1 ∧
      reply = ⟨env.replySeq, names⟩ := by
  unfold userListPacket at hreply
  cases hdata : s.usernames.data s.connections with
  | error fault => simp [hdata] at hreply
  | ok names =>
      by_cases hlength : names.length ≤ maxSize / 32
      · simp only [hdata, dif_pos hlength, Except.ok.injEq] at hreply
        exact ⟨⟨names, hlength⟩, rfl, hreply.symm⟩
      · simp [hdata, hlength] at hreply

theorem getUserList_sent {env : ServerEnv} {sid : SID}
    (hrun : getUserList P env sid s = .ok (⟨⟩, t)) :
    ∃ (names : StrVector) (record : Option (List UInt8)),
      s.usernames.data s.connections = .ok names.1 ∧
      t.sent = s.sent ++ [⟨sid, .userList ⟨env.replySeq, names⟩, record⟩] := by
  obtain ⟨reply, hreply, hsend⟩ := getUserList_sends hrun
  obtain ⟨_, _, record, _, _, rfl⟩ := sendPacket_ok hsend
  obtain ⟨names, hdata, rfl⟩ := userListPacket_ok hreply
  exact ⟨names, record, hdata, rfl⟩

/-- In every reachable state, what `getUserList` sends is the list of names, and
that is right exactly if every open connection has logged in and no two of them
go by the empty name. -/
theorem userList_exact_iff (hreach : Reachable (system P hash) (s, logins)) :
    (∀ env sid t, getUserList P env sid s = .ok (⟨⟩, t) →
      ∃ (names : StrVector) (record : Option (List UInt8)),
        s.usernames.data s.connections = .ok names.1 ∧
        t.sent = s.sent ++ [⟨sid, .userList ⟨env.replySeq, names⟩, record⟩]) ∧
    ((∃ names, s.usernames.data s.connections = .ok names ∧ Lists s logins names) ↔
      AllNamed s logins) :=
  ⟨fun _ _ _ hrun => getUserList_sent hrun,
    lists_iff (good_of_reachable hreach) (registry_of_reachable hreach)⟩

/-- The list is right once `dave` and `alice` have both logged in. -/
theorem userList_exact_iff_sample : ∃ s names,
    Reachable (system .clear fun _ => 0) (s, [(0, dave), (1, alice)]) ∧
      s.usernames.data s.connections = .ok names ∧ Lists s [(0, dave), (1, alice)] names := by
  obtain ⟨s, hreach, hconnections⟩ := reachable_both
  have hregistered : ∀ sid, s.connections.IsOpen sid →
      registered [(0, dave), (1, alice)] sid = some dave ∨
        registered [(0, dave), (1, alice)] sid = some alice := by
    intro sid hsid
    have hlt : sid < 2 := by
      have hlt := hsid.lt
      rwa [hconnections] at hlt
    match sid, hlt with
    | 0, _ => exact Or.inl rfl
    | 1, _ => exact Or.inr rfl
  have hnamed : AllNamed s [(0, dave), (1, alice)] := by
    constructor
    · intro sid hsid
      exact (hregistered sid hsid).elim (fun hname => ⟨_, hname⟩) fun hname => ⟨_, hname⟩
    · intro sid other hsid _ hempty _
      have hne : some Str.empty ≠ some dave ∧ some Str.empty ≠ some alice := by decide
      rcases hregistered sid hsid with hname | hname
      · exact absurd (hempty.symm.trans hname) hne.1
      · exact absurd (hempty.symm.trans hname) hne.2
  obtain ⟨names, hdata, hlists⟩ := (userList_exact_iff hreach).2.mpr hnamed
  exact ⟨s, names, hreach, hdata, hlists⟩

/-- Connection 0 has not logged in, and is listed next to `alice` under the
empty name. -/
theorem userList_before_login : ∃ s, Reachable (system .clear fun _ => 0) (s, [(1, alice)]) ∧
    s.usernames.data s.connections = .ok [.empty, alice] ∧
    ¬ Lists s [(1, alice)] [.empty, alice] := by
  obtain ⟨s, hreach, hconnections, hnames⟩ := reachable_alice
  refine ⟨s, hreach, ?_, ?_⟩
  · rw [IndexedSocketMap.data, hconnections, hnames]
    rfl
  · rintro ⟨_, hmem⟩
    obtain ⟨sid, _, hname⟩ := (hmem .empty).mp List.mem_cons_self
    rw [registered_cons] at hname
    by_cases hone : 1 = sid
    · rw [if_pos hone, Option.some.injEq] at hname
      exact absurd hname (by decide)
    · rw [if_neg hone] at hname
      cases hname

/-- What the index says of a name is the same in both states. -/
def SameName (hash : Str → UInt64) (s t : Server) (v : Str) : Prop :=
  t.usernames.getSID hash v = s.usernames.getSID hash v ∧
    t.usernames.contains hash v = s.usernames.contains hash v

/-- The empty name is taken, and a connection that has not logged in has an
element all the same, which holds it. -/
def Displaces (logins : Logins) (sid : SID) : Prop :=
  EmptyTaken logins ∧ Covered logins sid ∧ registered logins sid = none

theorem registered_eq_none {sid : SID} (hnone : registered logins sid = none) (v : Str) :
    (sid, v) ∉ logins := by
  intro hmem
  rw [registered, Option.map_eq_none_iff, List.find?_eq_none] at hnone
  exact hnone _ hmem (decide_eq_true rfl)

/-- An accepted login changes what the index says of another name exactly if the
element it overwrites holds that name and the index has it. -/
theorem sameName_iff (hs : Good s logins) {sid : SID} {u v : Str}
    (hfree : s.usernames.contains hash u = false) (hv : v ≠ u) :
    SameName hash s { s with usernames := s.usernames.insert hash sid u } v ↔
      ¬ (s.usernames.contains hash v = true ∧ s.usernames.mData[sid]? = some v) := by
  have hindexed := hs.indexed
  have hafter := hindexed.insert hfree sid
  have hentry : ∀ id : SID, (s.usernames.insert hash sid u).getSID hash v = some id ↔
      s.usernames.getSID hash v = some id ∧ s.usernames.mData[sid]? ≠ some v := by
    intro id
    rw [hafter.getSID_eq_some_iff, hindexed.insert_reverseMap hfree, List.mem_cons,
      hindexed.mem_release, hindexed.getSID_eq_some_iff]
    simp [hv]
  have hcontains : ∀ m : IndexedSocketMap Str,
      m.contains hash v = (m.getSID hash v).isSome := by
    intro m
    rw [IndexedSocketMap.contains, IndexedSocketMap.getSID, Option.isSome_map]
  simp only [SameName, hcontains]
  by_cases hslot : s.usernames.mData[sid]? = some v
  · have hgone : (s.usernames.insert hash sid u).getSID hash v = none := by
      rw [Option.eq_none_iff_forall_ne_some]
      exact fun id hid => ((hentry id).mp hid).2 hslot
    rw [hgone]
    cases s.usernames.getSID hash v <;> simp [hslot]
  · have hsame : (s.usernames.insert hash sid u).getSID hash v = s.usernames.getSID hash v := by
      apply Option.ext
      intro id
      rw [hentry id]
      exact and_iff_left hslot
    simp [hsame, hslot]

/-- A login that is accepted leaves every name that is not the connection's own as
it was, exactly if the connection does not displace the empty name. -/
theorem login_sameNames_iff (hreach : Reachable (system P hash) (s, logins)) {sid : SID}
    {u : Str} (haccepted : (login hash sid u s).1 = .ack) :
    (∀ v, v ≠ u → (sid, v) ∉ logins → SameName hash s (login hash sid u s).2 v) ↔
      ¬ Displaces logins sid := by
  have hs := good_of_reachable hreach
  have hregistry := registry_of_reachable hreach
  have hfree := free_of_login haccepted
  have hempty : s.usernames.contains hash .empty = true ↔ EmptyTaken logins :=
    contains_empty_iff hs hregistry
  rw [login_free hfree]
  constructor
  · rintro hsame ⟨htaken, hcovered, hnone⟩
    have hthere := hempty.mpr htaken
    have hne : Str.empty ≠ u := by
      rintro rfl
      rw [hfree] at hthere
      cases hthere
    have hslot : s.usernames.mData[sid]? = some .empty := by
      rw [hregistry.slots sid ((hs.reach sid).mpr hcovered), hnone]
      rfl
    exact (sameName_iff hs hfree hne).mp (hsame _ hne (registered_eq_none hnone _))
      ⟨hthere, hslot⟩
  · intro hkeeps v hv hown
    rw [sameName_iff hs hfree hv]
    rintro ⟨hthere, hslot⟩
    have hsid := (List.getElem?_eq_some_iff.mp hslot).1
    have hheld := hregistry.slots sid hsid
    rw [hslot, Option.some.injEq] at hheld
    cases hregistered : registered logins sid with
    | none =>
        rw [hregistered] at hheld
        subst hheld
        exact hkeeps ⟨hempty.mp hthere, (hs.reach sid).mp hsid, hregistered⟩
    | some name =>
        rw [hregistered] at hheld
        subst hheld
        exact hown (mem_of_registered hregistered)

theorem login_sameNames_iff_sample :
    ∃ s, Reachable (system .clear fun _ => 0) (s, [(1, alice)]) ∧
      (login (fun _ => 0) 0 .empty s).1 = .ack ∧
      SameName (fun _ => 0) s (login (fun _ => 0) 0 .empty s).2 alice := by
  obtain ⟨s, hreach, _, _⟩ := reachable_alice
  have hs := good_of_reachable hreach
  have hnone : ¬ EmptyTaken [(1, alice)] := by
    rintro (hempty | ⟨_, ⟨⟩⟩)
    exact absurd hempty (by decide)
  have haccepted : (login (fun _ => 0) 0 .empty s).1 = .ack := by
    rw [login, if_neg]
    exact fun hthere => hnone ((contains_empty_iff hs (registry_of_reachable hreach)).mp hthere)
  refine ⟨s, hreach, haccepted, ?_⟩
  exact (login_sameNames_iff hreach haccepted).mpr (fun hdisplaces => hnone hdisplaces.1)
    alice (by decide) (by decide)

/-- Connection 1 has logged in under the empty name; connection 0 logs in as `alice`,
and the index has the empty name no more. -/
theorem login_displaces : ∃ s, Reachable (system .clear fun _ => 0) (s, [(1, .empty)]) ∧
    (login (fun _ => 0) 0 alice s).1 = .ack ∧
    s.usernames.contains (fun _ => 0) .empty = true ∧
    (login (fun _ => 0) 0 alice s).2.usernames.contains (fun _ => 0) .empty = false ∧
    ¬ ∀ v, v ≠ alice → (0, v) ∉ [((1 : SID), Str.empty)] →
      SameName (fun _ => 0) s (login (fun _ => 0) 0 alice s).2 v := by
  obtain ⟨s, hreach, _, hnames⟩ := reachable_named .empty
  have hs := good_of_reachable hreach
  have hthere : s.usernames.contains (fun _ => 0) .empty = true :=
    (contains_empty_iff hs (registry_of_reachable hreach)).mpr (Or.inl rfl)
  have hfree : s.usernames.contains (fun _ => 0) alice = false := by
    rw [← Bool.not_eq_true]
    intro hthere
    obtain ⟨sid, hname⟩ := (contains_iff_registered hs (by decide)).mp hthere
    rw [registered_cons] at hname
    split at hname
    · exact absurd (Option.some.inj hname) (by decide)
    · cases hname
  have hlogin := login_free hfree 0
  have hgone : ¬ SameName (fun _ => 0) s (login (fun _ => 0) 0 alice s).2 .empty := by
    rw [hlogin, sameName_iff hs hfree (by decide), not_not, hnames]
    exact ⟨hthere, rfl⟩
  refine ⟨s, hreach, by rw [hlogin], hthere, ?_, ?_⟩
  · rw [hlogin, ← Bool.not_eq_true, (hs.indexed.insert hfree 0).contains_iff,
      hs.indexed.insert_reverseMap hfree]
    rintro ⟨entry, hentry, hfiled⟩
    rcases List.mem_cons.mp hentry with rfl | hentry
    · exact absurd hfiled (by decide)
    · have hslot := (hs.indexed.mem_release.mp hentry).2
      rw [hnames, hfiled] at hslot
      exact hslot rfl
  · exact fun hsame => hgone (hsame .empty (by decide) (by decide))

end Server

end LeakyChat

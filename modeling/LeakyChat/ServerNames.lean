/-
The names under which connections have logged in.  In every reachable state of
the server the index of names is exact, each element of the deque holds the
name of the last login granted to its connection, and the deque reaches as far
as the logins granted.
-/
import LeakyChat.DHKeyExchange
import LeakyChat.Server

namespace LeakyChat

open Program
open Transition

namespace Server

variable {P : Primitives} {hash : Str → UInt64}

theorem registered_cons (sid : SID) (name : Str) (logins : Logins) (other : SID) :
    registered ((sid, name) :: logins) other =
      if sid = other then some name else registered logins other := by
  unfold registered
  by_cases hsid : sid = other
  · rw [if_pos hsid, List.find?_cons_of_pos (by simpa using hsid)]
    rfl
  · rw [if_neg hsid, List.find?_cons_of_neg (by simpa using hsid)]

theorem mem_of_registered {logins : Logins} {sid : SID} {name : Str}
    (hname : registered logins sid = some name) :
    (sid, name) ∈ logins := by
  rw [registered, Option.map_eq_some_iff] at hname
  obtain ⟨login, hfind, rfl⟩ := hname
  have hsid := List.find?_some hfind
  rw [decide_eq_true_eq] at hsid
  exact hsid ▸ List.mem_of_find?_eq_some hfind

/-- What holds in every reachable state, of the logins granted so far. -/
structure Good (s : Server) (logins : Logins) : Prop where
  indexed : s.usernames.Indexed
  ready : ∀ nh ∈ s.connections.data, nh.connected = true →
    ∃ session, nh.EstablishedWith session
  inRange : s.usernames.mData.length ≤ s.connections.data.length
  stored : ∀ sid name, registered logins sid = some name →
    s.usernames.mData[sid]? = some name
  filed : ∀ entry ∈ s.usernames.reverseMap,
    registered logins entry.slot = some entry.filed
  reach : ∀ sid, sid < s.usernames.mData.length ↔ ∃ login ∈ logins, sid ≤ login.1

theorem good_fresh : Good fresh [] := by
  constructor
  · exact IndexedSocketMap.indexed_empty
  · intro nh hnh
    cases hnh
  · exact Nat.le_refl 0
  · intro sid name hname
    cases hname
  · intro entry hentry
    cases hentry
  · intro sid
    simp [fresh, IndexedSocketMap.empty]

variable {s t : Server} {logins : Logins}

/-- The registry finds the one connection registered under a name. -/
theorem Good.getSID_registered (hs : Good s logins) {rcvr : SID} {name : Str}
    (hname : name ≠ .empty) (hregistered : registered logins rcvr = some name) :
    s.usernames.getSID hash name = some rcvr :=
  (hs.indexed.getSID_iff hname).mpr (hs.stored rcvr name hregistered)

theorem Good.registered_getSID (hs : Good s logins) {rcvr : SID} {name : Str}
    (hfound : s.usernames.getSID hash name = some rcvr) :
    registered logins rcvr = some name :=
  hs.filed _ (hs.indexed.getSID_eq_some_iff.mp hfound)

/-- The connections may change as long as none becomes open. -/
theorem Good.connections (hs : Good s logins) (husernames : t.usernames = s.usernames)
    (hlength : s.connections.data.length ≤ t.connections.data.length)
    (hready : ∀ nh ∈ t.connections.data, nh.connected = true →
      ∃ session, nh.EstablishedWith session) : Good t logins := by
  constructor
  · rw [husernames]
    exact hs.indexed
  · exact hready
  · rw [husernames]
    exact Nat.le_trans hs.inRange hlength
  · rw [husernames]
    exact hs.stored
  · rw [husernames]
    exact hs.filed
  · rw [husernames]
    exact hs.reach

theorem Good.close (hs : Good s logins) (sid : SID) :
    Good { s with connections := s.connections.close sid } logins := by
  refine hs.connections rfl (by simp [SocketSet.close]) ?_
  intro nh hnh hconnected
  obtain ⟨i, hget⟩ := List.mem_iff_getElem?.mp hnh
  rw [SocketSet.close, List.getElem?_modify] at hget
  cases hi : s.connections.data[i]? with
  | none => simp [hi] at hget
  | some nh' =>
      simp only [hi, Option.map_eq_map, Option.map_some, Option.some.injEq] at hget
      by_cases hsid : sid = i
      · -- The connection closed is not open.
        rw [if_pos hsid] at hget
        rw [← hget] at hconnected
        cases hconnected
      · rw [if_neg hsid] at hget
        subst hget
        exact hs.ready nh' (List.mem_of_getElem? hi) hconnected

/-- A login granted to an open connection. -/
theorem Good.login (hs : Good s logins) {sid : SID} {name : Str}
    (hsid : sid < s.connections.data.length)
    (hfree : s.usernames.contains hash name = false) :
    Good { s with usernames := s.usernames.insert hash sid name }
      ((sid, name) :: logins) := by
  have hlength : (s.usernames.insert hash sid name).mData.length =
      max s.usernames.mData.length (sid + 1) := by
    rw [IndexedSocketMap.insert_mData, IndexedSocketMap.store_length]
  constructor
  · exact hs.indexed.insert hfree sid
  · exact hs.ready
  · rw [hlength]
    exact Nat.max_le.mpr ⟨hs.inRange, hsid⟩
  · intro other name' hname
    rw [registered_cons] at hname
    rw [IndexedSocketMap.insert_mData, IndexedSocketMap.store_getElem?]
    by_cases hother : sid = other
    · rw [if_pos hother] at hname
      rw [if_pos hother.symm, hname]
    · rw [if_neg hother] at hname
      have hget := hs.stored other name' hname
      rw [if_neg (Ne.symm hother), if_pos (List.getElem?_eq_some_iff.mp hget).1]
      exact hget
  · intro entry hentry
    rw [hs.indexed.insert_reverseMap hfree] at hentry
    rw [registered_cons]
    rcases List.mem_cons.mp hentry with rfl | hentry
    · exact if_pos rfl
    · rw [if_neg (Ne.symm (hs.indexed.slot_ne_of_release hentry))]
      exact hs.filed entry (hs.indexed.mem_release.mp hentry).1
  · intro other
    rw [hlength, lt_max_iff, hs.reach other]
    simp only [List.mem_cons, exists_eq_or_imp, Nat.lt_succ_iff]
    exact or_comm

theorem sendPacket_ok {env : ServerEnv} {sid : SID} {pkt : Packet}
    (hrun : sendPacket P env sid pkt s = .ok (⟨⟩, t)) :
    ∃ handler result record, s.connections.data[sid]? = some handler ∧
      handler.sendPacket P env.nonce pkt env.bytesSent = .ok (result, record) ∧
      t = { s with sent := s.sent ++ [⟨sid, pkt, record⟩] } := by
  unfold sendPacket at hrun
  cases hget : s.connections.data[sid]? with
  | none => simp [hget] at hrun
  | some handler =>
      simp only [hget] at hrun
      cases hsend : handler.sendPacket P env.nonce pkt env.bytesSent with
      | error fault => simp [hsend] at hrun
      | ok sent =>
          obtain ⟨result, record⟩ := sent
          simp only [hsend, Except.ok.injEq, Prod.mk.injEq, true_and] at hrun
          exact ⟨handler, result, record, rfl, hsend, hrun.symm⟩

theorem sendPacket_keeps {env : ServerEnv} {sid : SID} {pkt : Packet}
    (hrun : sendPacket P env sid pkt s = .ok (⟨⟩, t)) :
    t.connections = s.connections ∧ t.usernames = s.usernames := by
  obtain ⟨_, _, _, _, _, rfl⟩ := sendPacket_ok hrun
  exact ⟨rfl, rfl⟩

theorem handleLogin_eq (env : ServerEnv) (sid : SID) (pkt : FieldReqPacket) (s : Server) :
    handleLogin P hash env sid pkt s =
      sendPacket P env sid
        (.control ⟨env.replySeq, (login hash sid pkt.mField s).1, pkt.seq⟩)
        (login hash sid pkt.mField s).2 := rfl

/-- The reply to a quit is sent before the connection is closed. -/
theorem handleQuit_sends {env : ServerEnv} {sid : SID} {pkt : RequestPacket}
    (hrun : handleQuit P env sid pkt s = .ok (⟨⟩, t)) :
    ∃ u, sendPacket P env sid (.control ⟨env.replySeq, .ack, pkt.seq⟩) s = .ok (⟨⟩, u) ∧
      t = { u with connections := u.connections.close sid } := by
  obtain ⟨_, u, hsend, hclose⟩ := of_run_bind hrun
  cases hclose
  exact ⟨u, hsend, rfl⟩

theorem getUserList_sends {env : ServerEnv} {sid : SID}
    (hrun : getUserList P env sid s = .ok (⟨⟩, t)) :
    ∃ reply, userListPacket env s = .ok reply ∧
      sendPacket P env sid (.userList reply) s = .ok (⟨⟩, t) := by
  unfold getUserList at hrun
  cases hlist : userListPacket env s with
  | error fault => simp [hlist] at hrun
  | ok reply =>
      simp only [hlist] at hrun
      exact ⟨reply, rfl, hrun⟩

theorem handleQuit_ok {env : ServerEnv} {sid : SID} {pkt : RequestPacket}
    (hrun : handleQuit P env sid pkt s = .ok (⟨⟩, t)) :
    t.connections = s.connections.close sid ∧ t.usernames = s.usernames := by
  obtain ⟨u, hsend, rfl⟩ := handleQuit_sends hrun
  obtain ⟨hconnections, husernames⟩ := sendPacket_keeps hsend
  exact ⟨congrArg (SocketSet.close · sid) hconnections, husernames⟩

theorem getUserList_ok {env : ServerEnv} {sid : SID}
    (hrun : getUserList P env sid s = .ok (⟨⟩, t)) :
    t.connections = s.connections ∧ t.usernames = s.usernames := by
  obtain ⟨reply, _, hsend⟩ := getUserList_sends hrun
  exact sendPacket_keeps hsend

theorem handleMessage_eq (env : ServerEnv) (sid : SID) (pkt : MessagePacket) (s : Server) :
    handleMessage P hash env sid pkt s =
      match s.usernames.mData[sid]? with
      | none => .error .undefined
      | some sender =>
          match s.usernames.getSID hash pkt.mReceiver with
          | none => .ok (⟨⟩, s)
          | some rcvr => sendPacket P env rcvr (.message (pkt.setSender sender)) s := by
  unfold handleMessage
  cases hget : s.usernames.mData[sid]? with
  | none =>
      apply run_bind_error
      rw [username, hget]
  | some sender =>
      have hsender : username sid s = .ok (sender, s) := by rw [username, hget]
      rw [run_bind hsender]
      change (match s.usernames.getSID hash pkt.mReceiver with
        | none => pure PUnit.unit
        | some rcvr => sendPacket P env rcvr (.message (pkt.setSender sender))) s = _
      cases s.usernames.getSID hash pkt.mReceiver <;> rfl

theorem handleMessage_ok {env : ServerEnv} {sid : SID} {pkt : MessagePacket}
    (hrun : handleMessage P hash env sid pkt s = .ok (⟨⟩, t)) :
    t.connections = s.connections ∧ t.usernames = s.usernames := by
  rw [handleMessage_eq] at hrun
  split at hrun
  · cases hrun
  · split at hrun
    · cases hrun
      exact ⟨rfl, rfl⟩
    · exact sendPacket_keeps hrun

/-- The usernames after a packet are those before it with the login granted. -/
theorem handlePacket_ok {env : ServerEnv} {sid : SID} {pkt : Packet}
    (hrun : handlePacket P hash env sid pkt s = .ok (⟨⟩, t)) :
    (t.connections = s.connections ∨ t.connections = s.connections.close sid) ∧
      t.usernames = (grants hash s (.packet env sid pkt)).foldr
        (fun login usernames => usernames.insert hash login.1 login.2) s.usernames := by
  cases pkt with
  | fieldReq req =>
      obtain ⟨hconnections, husernames⟩ :=
        sendPacket_keeps ((handleLogin_eq env sid req s).symm.trans hrun)
      rw [hconnections, husernames, login, grants]
      by_cases hthere : s.usernames.contains hash req.mField = true
      · rw [if_pos hthere, if_pos hthere]
        exact ⟨Or.inl rfl, rfl⟩
      · rw [if_neg hthere, if_neg hthere]
        exact ⟨Or.inl rfl, rfl⟩
  | request req =>
      by_cases hquit : req.mRequestType = .disconnect
      · rw [handlePacket_quit P hash env sid hquit] at hrun
        obtain ⟨hconnections, husernames⟩ := handleQuit_ok hrun
        exact ⟨Or.inr hconnections, husernames⟩
      · rw [handlePacket_list P hash env sid hquit] at hrun
        obtain ⟨hconnections, husernames⟩ := getUserList_ok hrun
        exact ⟨Or.inl hconnections, husernames⟩
  | message msg =>
      obtain ⟨hconnections, husernames⟩ := handleMessage_ok hrun
      exact ⟨Or.inl hconnections, husernames⟩
  | _ =>
      cases hrun
      exact ⟨Or.inl rfl, rfl⟩

theorem good_step {label : Label} (hs : Good s logins) (hstep : Step P hash s label t) :
    Good t (grants hash s label ++ logins) := by
  cases hstep with
  | connect hhandler =>
      rename_i handler session
      refine hs.connections rfl ?_ ?_
      · simp [SocketSet.insert]
      · intro nh hnh hconnected
        rcases List.mem_append.mp hnh with hnh | hnh
        · exact hs.ready nh hnh hconnected
        · rw [List.mem_singleton.mp hnh]
          exact ⟨session, hhandler⟩
  | wait idx revents =>
      refine hs.connections rfl ?_ ?_ <;> simp only [waitForRead_data]
      · exact Nat.le_refl _
      · exact hs.ready
  | drop sid => exact hs.close sid
  | packet hopen hrun =>
      rename_i env sid pkt
      obtain ⟨hconnections, husernames⟩ := handlePacket_ok hrun
      have hgranted : Good { s with usernames := t.usernames }
          (grants hash s (.packet env sid pkt) ++ logins) := by
        rw [husernames]
        cases pkt with
        | fieldReq req =>
            rw [grants]
            by_cases hthere : s.usernames.contains hash req.mField = true
            · rw [if_pos hthere]
              exact hs
            · rw [if_neg hthere]
              exact hs.login hopen.lt (Bool.eq_false_iff.mpr hthere)
        | _ => exact hs
      rcases hconnections with hconnections | hconnections
      · refine hgranted.connections rfl ?_ ?_ <;> simp only [hconnections]
        · exact Nat.le_refl _
        · exact hgranted.ready
      · have hclosed := hgranted.close sid
        refine hclosed.connections rfl ?_ ?_ <;> simp only [hconnections]
        · exact Nat.le_refl _
        · exact hclosed.ready

theorem good_of_reachable (hreach : Reachable (system P hash) (s, logins)) :
    Good s logins := by
  refine hreach.invariant (P := fun state => Good state.1 state.2) ?_ ?_
  · rintro _ rfl
    exact good_fresh
  · rintro ⟨s, logins⟩ label ⟨t, _⟩ hs ⟨hstep, rfl⟩
    exact good_step hs hstep

/-- A reply always goes out, and the connection it goes to may be closed. -/
theorem sendControl_run (hs : Good s logins) {sid : SID} (hsid : s.connections.IsOpen sid)
    (env : ServerEnv) (reply : ControlPacket) :
    ∃ record, sendPacket P env sid (.control reply) s =
      .ok (⟨⟩, { s with sent := s.sent ++ [⟨sid, .control reply, record⟩] }) := by
  obtain ⟨handler, hget, hconnected⟩ := hsid
  obtain ⟨session, hhandler⟩ := hs.ready handler (List.mem_of_getElem? hget) hconnected
  cases hsend : handler.sendPacket P env.nonce (.control reply) env.bytesSent with
  | ok sent =>
      refine ⟨sent.2, ?_⟩
      simp only [sendPacket, hget, hsend]
  | error fault =>
      have hlong := (hhandler.sendPacket_fault hsend).2
      have hlength : (Packet.control reply).bytes.length = 14 := by
        simp [Packet.bytes, headerBytes, Packet.body, ControlPacket.body, u8Bytes, u32Bytes,
          u64Bytes]
      rw [hlength] at hlong
      exact absurd hlong (by decide)

/-- A login always completes, with one reply. -/
theorem handleLogin_run (hs : Good s logins) {sid : SID} (hsid : s.connections.IsOpen sid)
    (env : ServerEnv) (pkt : FieldReqPacket) :
    ∃ record, handleLogin P hash env sid pkt s =
      .ok (⟨⟩, { (login hash sid pkt.mField s).2 with sent := s.sent ++
        [⟨sid, .control ⟨env.replySeq, (login hash sid pkt.mField s).1, pkt.seq⟩, record⟩] }) := by
  rw [handleLogin_eq, login]
  by_cases hthere : s.usernames.contains hash pkt.mField = true
  · rw [if_pos hthere]
    exact sendControl_run hs hsid env _
  · rw [if_neg hthere]
    have hgranted := hs.login hsid.lt (Bool.eq_false_iff.mpr hthere)
    exact sendControl_run hgranted hsid env _

/-- No two connections go by one name, the index finds the one that does, and a
login is acknowledged exactly if the name is free, and then is the
connection's. -/
theorem usernames_exact (hreach : Reachable (system P hash) (s, logins)) {u : Str}
    (hu : u ≠ .empty) :
    (∀ sid other : SID, s.usernames.mData[sid]? = some u →
      s.usernames.mData[other]? = some u → sid = other) ∧
    (∀ sid : SID, s.usernames.getSID hash u = some sid ↔ s.usernames.mData[sid]? = some u) ∧
    ∀ env sid (pkt : FieldReqPacket), s.connections.IsOpen sid → pkt.mField = u →
      ∃ t control record, handleLogin P hash env sid pkt s = .ok (⟨⟩, t) ∧
        t.sent = s.sent ++ [⟨sid, .control ⟨env.replySeq, control, pkt.seq⟩, record⟩] ∧
        (control = .ack ↔ ∀ other : SID, s.usernames.mData[other]? ≠ some u) ∧
        (control = .ack → t.usernames.getSID hash u = some sid) := by
  have hs := good_of_reachable hreach
  refine ⟨fun sid other => hs.indexed.id_unique hash hu, fun sid => hs.indexed.getSID_iff hu, ?_⟩
  intro env sid pkt hsid hfield
  subst hfield
  have htaken : s.usernames.contains hash pkt.mField = true ↔ _ :=
    hs.indexed.contains_iff_getSID hu
  obtain ⟨record, hrun⟩ : ∃ record, handleLogin P hash env sid pkt s = .ok (⟨⟩, _) :=
    handleLogin_run hs hsid env pkt
  refine ⟨_, (login hash sid pkt.mField s).1, record, hrun, rfl, ?_⟩
  rw [login]
  by_cases hthere : s.usernames.contains hash pkt.mField = true
  · rw [if_pos hthere]
    obtain ⟨other, hother⟩ := htaken.mp hthere
    constructor
    · exact iff_of_false (show ControlField.nack ≠ .ack by decide)
        fun hfree => hfree other hother
    · intro hack
      cases hack
  · rw [if_neg hthere]
    have hfree : s.usernames.contains hash pkt.mField = false := Bool.eq_false_iff.mpr hthere
    constructor
    · exact iff_of_true rfl fun other hother => hthere (htaken.mpr ⟨other, hother⟩)
    · intro _
      rw [(hs.login hsid.lt hfree).indexed.getSID_eq_some_iff,
        hs.indexed.insert_reverseMap hfree]
      exact List.mem_cons_self

def alice : Str := ⟨[97, 108, 105, 99, 101], by decide⟩

def sampleHandler : NetworkHandler :=
  ⟨3, true, true, some ⟨0, Block.zero 32, true⟩, .established⟩

theorem sampleHandler_established :
    sampleHandler.EstablishedWith ⟨0, Block.zero 32, true⟩ := ⟨rfl, rfl, rfl⟩

def sampleEnv : ServerEnv := ⟨Block.zero 12, 0, 0⟩

/-- The server after two connections. -/
def connectedTwice : Server := { fresh with connections := ⟨[sampleHandler, sampleHandler], 2⟩ }

theorem reachable_connectedTwice :
    Reachable (system .clear fun _ => 0) (connectedTwice, []) := by
  have hfresh : Reachable (system .clear fun _ => 0) (fresh, []) := Reachable.of_init rfl
  have hfirst : Reachable (system .clear fun _ => 0)
      ({ fresh with connections := SocketSet.empty.insert sampleHandler }, []) :=
    hfresh.step ⟨Step.connect sampleHandler_established, rfl⟩
  exact hfirst.step ⟨Step.connect sampleHandler_established, rfl⟩

theorem connectedTwice_isOpen (sid : SID) (hsid : sid < 2) :
    connectedTwice.connections.IsOpen sid := by
  match sid, hsid with
  | 0, _ => exact ⟨sampleHandler, rfl, rfl⟩
  | 1, _ => exact ⟨sampleHandler, rfl, rfl⟩

/-- Connection 1 logs in before connection 0 does. -/
theorem reachable_named (name : Str) :
    ∃ s, Reachable (system .clear fun _ => 0) (s, [(1, name)]) ∧
      s.connections = connectedTwice.connections ∧ s.usernames.mData = [.empty, name] := by
  have hopen := connectedTwice_isOpen 1 (by decide)
  obtain ⟨record, hrun⟩ : ∃ record, handleLogin .clear (fun _ => 0) sampleEnv 1
      ⟨7, .setUsername, name⟩ connectedTwice = .ok (⟨⟩, { connectedTwice with
        usernames := IndexedSocketMap.insert .empty (fun _ => 0) 1 name
        sent := [⟨1, .control ⟨0, .ack, 7⟩, record⟩] }) :=
    handleLogin_run (good_of_reachable reachable_connectedTwice) hopen _ _
  have hgrants : grants (fun _ => 0) connectedTwice
      (.packet sampleEnv 1 (.fieldReq ⟨7, .setUsername, name⟩)) = [(1, name)] := rfl
  have hnames : (IndexedSocketMap.insert .empty (fun _ => 0) 1 name).mData =
      [Str.empty, name] := rfl
  have hstep : Step .clear (fun _ => 0) connectedTwice
      (.packet sampleEnv 1 (.fieldReq ⟨7, .setUsername, name⟩)) _ := Step.packet hopen hrun
  exact ⟨_, reachable_connectedTwice.step ⟨hstep, (congrArg (· ++ []) hgrants).symm⟩,
    rfl, hnames⟩

theorem reachable_alice : ∃ s, Reachable (system .clear fun _ => 0) (s, [(1, alice)]) ∧
    s.connections = connectedTwice.connections ∧ s.usernames.mData = [.empty, alice] :=
  reachable_named alice

def dave : Str := ⟨[100, 97, 118, 101], by decide⟩

/-- Connection 0 logs in as `dave` once connection 1 has as `alice`. -/
theorem reachable_both : ∃ s, Reachable (system .clear fun _ => 0) (s, [(0, dave), (1, alice)]) ∧
    s.connections = connectedTwice.connections := by
  obtain ⟨s, hreach, hconnections, hnames⟩ := reachable_alice
  have hs := good_of_reachable hreach
  have hopen : s.connections.IsOpen 0 := hconnections ▸ connectedTwice_isOpen 0 (by decide)
  have hfree : s.usernames.contains (fun _ => 0) dave = false := by
    rw [Bool.eq_false_iff, ne_eq, hs.indexed.contains_iff_getSID (by decide), hnames]
    rintro ⟨sid, hsid⟩
    have hmem : dave ∈ [Str.empty, alice] := List.mem_of_getElem? hsid
    exact absurd hmem (by decide)
  obtain ⟨record, hrun⟩ : ∃ record, handleLogin .clear (fun _ => 0) sampleEnv 0
      ⟨7, .setUsername, dave⟩ s = .ok (⟨⟩, _) := handleLogin_run hs hopen _ _
  have hstep : Step .clear (fun _ => 0) s
      (.packet sampleEnv 0 (.fieldReq ⟨7, .setUsername, dave⟩)) _ := Step.packet hopen hrun
  have hgrants : grants (fun _ => 0) s
      (.packet sampleEnv 0 (.fieldReq ⟨7, .setUsername, dave⟩)) = [(0, dave)] := by
    rw [grants, hfree]
    rfl
  refine ⟨_, hreach.step ⟨hstep, (congrArg (· ++ [(1, alice)]) hgrants).symm⟩, ?_⟩
  rw [login, if_neg (Bool.eq_false_iff.mp hfree)]
  exact hconnections

theorem usernames_exact_sample : ∃ s, Reachable (system .clear fun _ => 0) (s, [(1, alice)]) ∧
    alice ≠ .empty ∧ s.usernames.getSID (fun _ => 0) alice = some 1 := by
  obtain ⟨s, hreach, _, hnames⟩ := reachable_alice
  refine ⟨s, hreach, by decide, ?_⟩
  rw [(usernames_exact hreach (show alice ≠ .empty by decide)).2.1, hnames]
  rfl

end Server

end LeakyChat

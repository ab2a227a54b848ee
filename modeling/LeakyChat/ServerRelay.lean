/-
What the server does with a packet in a reachable state: where a message goes
and what its receiver decodes, and when handling a packet reads past the end of
the names.
-/
import LeakyChat.ServerNames

namespace LeakyChat

open Transition

namespace Server

variable {P : Primitives} {hash : Str → UInt64} {s t : Server} {logins : Logins}

/-- What connection `rcvr` decodes of a record: its handler and the one at the
other end hold one key. -/
def DecodesAs (P : Primitives) (s : Server) (rcvr : SID) (record : List UInt8)
    (pkt : Packet) : Prop :=
  ∀ handler session peer peerSession, s.connections.data[rcvr]? = some handler →
    handler.EstablishedWith session → NetworkHandler.EstablishedWith peer peerSession →
    peerSession.mKey = session.mKey →
    ∀ stack, peer.incoming P record stack = .ok pkt

theorem decodesAs_of_sendPacket (hopens : P.GcmOpensSealed) {env : ServerEnv} {rcvr : SID}
    {msg : MessagePacket} {handler : NetworkHandler} {result : Int} {record : List UInt8}
    (hget : s.connections.data[rcvr]? = some handler)
    (hsend : handler.sendPacket P env.nonce (.message msg) env.bytesSent =
      .ok (result, some record)) : DecodesAs P s rcvr record (.message msg) := by
  intro handler' session peer peerSession hget' hhandler hpeer hkey stack
  rw [hget, Option.some.injEq] at hget'
  subst hget'
  obtain ⟨plaintext, htext, rfl⟩ := hhandler.sendPacket_ok hsend
  rw [← hkey]
  exact hpeer.incoming_record hopens env.nonce htext
    (show PacketType.message ∈ wholeClasses by decide) stack

/-- A handler that is connected sends the packet's record, as long as the packet
fits a vector. -/
theorem sendPacket_open (hs : Good s logins) (env : ServerEnv) {sid : SID} {pkt : Packet}
    (hopen : s.connections.IsOpen sid) (hfits : pkt.bytes.length ≤ maxSize) :
    ∃ bytes, sendPacket P env sid pkt s =
      .ok (⟨⟩, { s with sent := s.sent ++ [⟨sid, pkt, some bytes⟩] }) := by
  obtain ⟨handler, hget, hconnected⟩ := hopen
  obtain ⟨session, hhandler⟩ := hs.ready handler (List.mem_of_getElem? hget) hconnected
  have htext : (⟨pkt.bytes, hfits⟩ : Str).1 = pkt.bytes := rfl
  have hsend : handler.sendPacket P env.nonce pkt env.bytesSent =
      .ok (if env.bytesSent < 0 then -1 else 0,
        some (P.encrypt session.mKey env.nonce ⟨pkt.bytes, hfits⟩).bytes) := by
    rw [NetworkHandler.sendPacket, if_pos hhandler.ready, hhandler.outgoing_eq env.nonce htext]
  refine ⟨(P.encrypt session.mKey env.nonce ⟨pkt.bytes, hfits⟩).bytes, ?_⟩
  simp only [sendPacket, hget, hsend]

/-- A message from a connection that has logged in is passed on once at most,
to the connection registered under the receiver's name, which decodes it with
the sender's registered name and everything else unchanged.  If nobody is
registered under that name nothing changes; if an open connection is, and the
message fits, it is passed on. -/
theorem handleMessage_routes (hopens : P.GcmOpensSealed)
    (hreach : Reachable (system P hash) (s, logins)) {sid : SID} {name : Str}
    (hsender : registered logins sid = some name) (env : ServerEnv) (pkt : MessagePacket) :
    ((∀ rcvr, registered logins rcvr ≠ some pkt.mReceiver) →
      handleMessage P hash env sid pkt s = .ok (⟨⟩, s)) ∧
    (∀ t, handleMessage P hash env sid pkt s = .ok (⟨⟩, t) →
      t = s ∨ ∃ rcvr record, registered logins rcvr = some pkt.mReceiver ∧
        t = { s with sent := s.sent ++
          [⟨rcvr, .message { pkt with mSender := name }, record⟩] } ∧
        ∀ bytes, record = some bytes →
          DecodesAs P s rcvr bytes (.message { pkt with mSender := name })) ∧
    ∀ rcvr, pkt.mReceiver ≠ .empty → registered logins rcvr = some pkt.mReceiver →
      s.connections.IsOpen rcvr →
      (Packet.message { pkt with mSender := name }).bytes.length ≤ maxSize →
      ∃ bytes, handleMessage P hash env sid pkt s = .ok (⟨⟩, { s with sent := s.sent ++
          [⟨rcvr, .message { pkt with mSender := name }, some bytes⟩] }) ∧
        DecodesAs P s rcvr bytes (.message { pkt with mSender := name }) := by
  have hs := good_of_reachable hreach
  rw [handleMessage_eq, hs.stored sid name hsender]
  refine ⟨fun hnone => ?_, fun t hrun => ?_, fun rcvr hname hrcvr hopen hfits => ?_⟩
  · cases hfound : s.usernames.getSID hash pkt.mReceiver with
    | none => rfl
    | some rcvr => exact absurd (hs.registered_getSID hfound) (hnone rcvr)
  · cases hfound : s.usernames.getSID hash pkt.mReceiver with
    | none =>
        rw [hfound] at hrun
        cases hrun
        exact Or.inl rfl
    | some rcvr =>
        rw [hfound] at hrun
        obtain ⟨handler, result, record, hget, hsend, ht⟩ := sendPacket_ok hrun
        refine Or.inr ⟨rcvr, record, hs.registered_getSID hfound, ht, ?_⟩
        rintro bytes rfl
        exact decodesAs_of_sendPacket hopens hget hsend
  · obtain ⟨bytes, hrun⟩ := sendPacket_open (P := P) hs env hopen hfits
    obtain ⟨handler, result, record, hget, hsend, ht⟩ := sendPacket_ok hrun
    have hrecord : record = some bytes := by
      have hsent := List.append_cancel_left (congrArg Server.sent ht)
      simp only [List.cons.injEq, Sending.mk.injEq, and_true, true_and] at hsent
      exact hsent.symm
    rw [hrecord] at hsend
    refine ⟨bytes, ?_, decodesAs_of_sendPacket hopens hget hsend⟩
    rw [hs.getSID_registered hname hrcvr]
    exact hrun

/-- A message to `dave` that gives its sender as `dave`. -/
def forged : MessagePacket := ⟨5, dave, dave, ⟨.plainText, ⟨[104, 101, 121], by decide⟩⟩⟩

/-- `alice` sends it: `dave` is sent a record, which he decodes as a message from
`alice`. -/
theorem handleMessage_routes_sample : ∃ s bytes,
    Reachable (system .clear fun _ => 0) (s, [(0, dave), (1, alice)]) ∧
      handleMessage .clear (fun _ => 0) sampleEnv 1 forged s =
        .ok (⟨⟩, { s with sent := s.sent ++
          [⟨0, .message { forged with mSender := alice }, some bytes⟩] }) ∧
      DecodesAs .clear s 0 bytes (.message { forged with mSender := alice }) ∧
      ∀ stack, sampleHandler.incoming .clear bytes stack =
        .ok (.message { forged with mSender := alice }) := by
  obtain ⟨s, hreach, hconnections⟩ := reachable_both
  have hopen : s.connections.IsOpen 0 := hconnections ▸ connectedTwice_isOpen 0 (by decide)
  have hget : s.connections.data[0]? = some sampleHandler := by
    rw [hconnections]
    rfl
  have hsender : registered [(0, dave), (1, alice)] 1 = some alice := rfl
  obtain ⟨_, _, hdelivers⟩ := handleMessage_routes Primitives.clear_gcmOpensSealed hreach hsender
    sampleEnv forged
  obtain ⟨bytes, hrun, hdecodes⟩ := hdelivers 0 (by decide) rfl hopen (by decide)
  exact ⟨s, bytes, hreach, hrun, hdecodes, hdecodes _ _ _ _ hget sampleHandler_established
    sampleHandler_established rfl⟩

/-- A message to nobody. -/
def toNobody : MessagePacket := ⟨5, .empty, .empty, ⟨.plainText, .empty⟩⟩

/-- Some connection from this one on has been granted a login. -/
def Covered (logins : Logins) (sid : SID) : Prop := ∃ login ∈ logins, sid ≤ login.1

/-- What the logins granted so far have to cover for a packet to be handled
without reading past the end of the names. -/
def CoveredFor (s : Server) (logins : Logins) (sid : SID) : Packet → Prop
  | .message _ => Covered logins sid
  | .request req => req.mRequestType ≠ .disconnect →
      ∀ other, s.connections.IsOpen other → Covered logins other
  | _ => True

/-- A handler that is closed sends nothing, an open one may find the packet too
long. -/
theorem sendPacket_fault (hs : Good s logins) {env : ServerEnv} {sid : SID} {pkt : Packet}
    (hsid : sid < s.connections.data.length) {fault : Fault}
    (hrun : sendPacket P env sid pkt s = .error fault) : fault = .lengthError := by
  have hget := List.getElem?_eq_getElem hsid
  simp only [sendPacket, hget] at hrun
  cases hsend : s.connections.data[sid].sendPacket P env.nonce pkt env.bytesSent with
  | ok sent => simp [hsend] at hrun
  | error fault' =>
      simp only [hsend, Except.error.injEq] at hrun
      subst hrun
      by_cases hconnected : s.connections.data[sid].connected = true
      · obtain ⟨session, hhandler⟩ := hs.ready _ (List.getElem_mem hsid) hconnected
        exact (hhandler.sendPacket_fault hsend).1
      · have hready : s.connections.data[sid].ready = false := by
          rw [NetworkHandler.connected, Bool.not_eq_true] at hconnected
          simp [NetworkHandler.ready, hconnected]
        rw [NetworkHandler.sendPacket, hready] at hsend
        cases hsend

theorem handleMessage_defined_iff (hs : Good s logins) (env : ServerEnv) (sid : SID)
    (pkt : MessagePacket) :
    handleMessage P hash env sid pkt s ≠ .error .undefined ↔ Covered logins sid := by
  rw [Covered, ← hs.reach sid, handleMessage_eq]
  by_cases hsid : sid < s.usernames.mData.length
  · refine iff_of_true ?_ hsid
    rw [List.getElem?_eq_getElem hsid]
    cases hfound : s.usernames.getSID hash pkt.mReceiver with
    | none =>
        intro hfault
        cases hfault
    | some rcvr =>
        have hmem := hs.indexed.getSID_eq_some_iff.mp hfound
        have hrcvr := (List.getElem?_eq_some_iff.mp (hs.indexed.filed _ hmem).2).1
        intro hfault
        cases sendPacket_fault hs (Nat.lt_of_lt_of_le hrcvr hs.inRange) hfault
  · refine iff_of_false ?_ hsid
    rw [List.getElem?_eq_none (Nat.le_of_not_lt hsid), ne_eq, not_not]

theorem getUserList_defined_iff (hs : Good s logins) (env : ServerEnv) {sid : SID}
    (hsid : s.connections.IsOpen sid) :
    getUserList P env sid s ≠ .error .undefined ↔
      ∀ other, s.connections.IsOpen other → Covered logins other := by
  have hcovered : (∀ other, s.connections.IsOpen other → Covered logins other) ↔
      ∃ names, s.usernames.data s.connections = .ok names := by
    rw [IndexedSocketMap.data, IndexedSocketMap.collect_ok_iff]
    simp only [SocketSet.IsOpen, Covered, ← hs.reach, Nat.zero_add]
    constructor
    · exact fun hall i nh hget hopen => hall i ⟨nh, hget, hopen⟩
    · rintro hall i ⟨nh, hget, hopen⟩
      exact hall i nh hget hopen
  rw [hcovered, getUserList, userListPacket]
  cases hnames : s.usernames.data s.connections with
  | error fault =>
      have hundefined := IndexedSocketMap.collect_fault hnames
      simp [hundefined]
  | ok names =>
      refine iff_of_true ?_ ⟨names, rfl⟩
      by_cases hlength : names.length ≤ maxSize / 32
      · simp only [dif_pos hlength]
        intro hfault
        cases sendPacket_fault hs hsid.lt hfault
      · simp only [dif_neg hlength]
        intro hfault
        cases hfault

/-- In every reachable state, the handling of a packet stays inside the names
exactly if the logins granted so far cover the connections it looks up: for a
message the sender's, for a user list every open one. -/
theorem handlePacket_defined_iff (hreach : Reachable (system P hash) (s, logins))
    {sid : SID} (hsid : s.connections.IsOpen sid) (env : ServerEnv) (pkt : Packet) :
    handlePacket P hash env sid pkt s ≠ .error .undefined ↔ CoveredFor s logins sid pkt := by
  have hs := good_of_reachable hreach
  cases pkt with
  | message msg => exact handleMessage_defined_iff hs env sid msg
  | fieldReq req =>
      refine iff_of_true ?_ trivial
      obtain ⟨record, hrun⟩ : ∃ record, handleLogin P hash env sid req s = .ok (⟨⟩, _) :=
        handleLogin_run hs hsid env req
      intro hfault
      cases hrun.symm.trans hfault
  | request req =>
      by_cases hquit : req.mRequestType = .disconnect
      · refine iff_of_true ?_ fun hne => absurd hquit hne
        rw [handlePacket_quit P hash env sid hquit]
        obtain ⟨record, hreply⟩ :=
          sendControl_run (P := P) hs hsid env ⟨env.replySeq, .ack, req.seq⟩
        rw [handleQuit, Program.run_bind hreply]
        intro hfault
        cases hfault
      · rw [handlePacket_list P hash env sid hquit, getUserList_defined_iff hs env hsid]
        exact ⟨fun hall _ => hall, fun hall => hall hquit⟩
  | _ =>
      refine iff_of_true ?_ trivial
      intro hfault
      cases hfault

/-- Once `alice` has logged in on connection 1, a message from connection 0 is
handled. -/
theorem handlePacket_defined_iff_sample : ∃ s,
    Reachable (system .clear fun _ => 0) (s, [(1, alice)]) ∧ s.connections.IsOpen 0 ∧
      handlePacket .clear (fun _ => 0) sampleEnv 0 (.message toNobody) s ≠ .error .undefined := by
  obtain ⟨s, hreach, hconnections, _⟩ := reachable_alice
  have hopen : s.connections.IsOpen 0 := hconnections ▸ connectedTwice_isOpen 0 (by decide)
  have hcovered : CoveredFor s [(1, alice)] 0 (.message toNobody) :=
    ⟨(1, alice), List.mem_cons_self, by decide⟩
  exact ⟨s, hreach, hopen, (handlePacket_defined_iff hreach hopen sampleEnv _).mpr hcovered⟩

/-- Before any login a message, or a request for the user list, is handled by a
read past the end of the names. -/
theorem handlePacket_before_login :
    Reachable (system .clear fun _ => 0) (connectedTwice, []) ∧
      connectedTwice.connections.IsOpen 0 ∧
      handlePacket .clear (fun _ => 0) sampleEnv 0 (.message toNobody) connectedTwice =
        .error .undefined ∧
      handlePacket .clear (fun _ => 0) sampleEnv 0 (.request ⟨6, .requestUserList⟩)
        connectedTwice = .error .undefined :=
  ⟨reachable_connectedTwice, connectedTwice_isOpen 0 (by decide), rfl, rfl⟩

end Server

end LeakyChat

/-
What the bytes of a reply depend on.  `Packet` has no constructor that sets its
`seq`, and neither do the handlers of the server: the header of every reply
shows eight bytes of memory that nobody has written.
-/
import LeakyChat.ServerRegistry

namespace LeakyChat

open Program

theorem headerBytes_inj {type : PacketType} {seq seq' : SequenceNo} {body body' : List UInt8} :
    headerBytes type seq ++ body = headerBytes type seq' ++ body' ↔
      seq = seq' ∧ body = body' := by
  constructor
  · intro hsame
    have hlength : (headerBytes type seq).length = (headerBytes type seq').length := by
      simp [headerBytes, u8Bytes, u64Bytes]
    obtain ⟨hheader, hbody⟩ := List.append_inj hsame hlength
    refine ⟨?_, hbody⟩
    have hseq := List.append_cancel_left hheader
    rw [u64Bytes, u64Bytes] at hseq
    have hnat := congrArg Wire.leNat hseq
    rw [Wire.leNat_leBytes_of_lt seq.toNat_lt, Wire.leNat_leBytes_of_lt seq'.toNat_lt] at hnat
    exact UInt64.toNat_inj.mp hnat
  · rintro ⟨rfl, rfl⟩
    rfl

namespace Server

variable {P : Primitives} {hash : Str → UInt64} {s t : Server}

/-- The bytes the server has serialised between two states, packet by packet. -/
def replies (s t : Server) : List (List UInt8) :=
  (t.sent.drop s.sent.length).map fun sending =>
    (sending.packet.serialise (MemBuffer.ofCapacity 1024)).view

/-- A login, a user-list or a quit request. -/
def Asks : Packet → Prop
  | .fieldReq _ => True
  | .request _ => True
  | _ => False

/-- The class and the body of the reply to a request, if one is made. -/
def ReplyIs (hash : Str → UInt64) (s : Server) (sid : SID) (request : Packet)
    (reply : SequenceNo → Packet) : Prop :=
  match request with
  | .fieldReq pkt => reply = fun seq => .control ⟨seq, (login hash sid pkt.mField s).1, pkt.seq⟩
  | .request pkt =>
      if pkt.mRequestType = .disconnect then reply = fun seq => .control ⟨seq, .ack, pkt.seq⟩
      else ∃ names : StrVector, s.usernames.data s.connections = .ok names.1 ∧
        reply = fun seq => .userList ⟨seq, names⟩
  | _ => False

theorem ReplyIs.bytes_iff {sid : SID} {request : Packet} {reply : SequenceNo → Packet}
    (hreply : ReplyIs hash s sid request reply) (seq seq' : SequenceNo) :
    (reply seq).bytes = (reply seq').bytes ↔ seq = seq' := by
  unfold ReplyIs at hreply
  split at hreply
  · subst hreply
    exact headerBytes_inj.trans (and_iff_left rfl)
  · split at hreply
    · subst hreply
      exact headerBytes_inj.trans (and_iff_left rfl)
    · obtain ⟨names, _, rfl⟩ := hreply
      exact headerBytes_inj.trans (and_iff_left rfl)
  · exact hreply.elim

theorem ReplyIs.unique {sid : SID} {request : Packet} {reply reply' : SequenceNo → Packet}
    (hreply : ReplyIs hash s sid request reply) (hreply' : ReplyIs hash s sid request reply') :
    reply = reply' := by
  cases request with
  | fieldReq pkt => exact Eq.trans hreply (Eq.symm hreply')
  | request pkt =>
      simp only [ReplyIs] at hreply hreply'
      by_cases hquit : pkt.mRequestType = .disconnect
      · rw [if_pos hquit] at hreply hreply'
        exact hreply.trans hreply'.symm
      · rw [if_neg hquit] at hreply hreply'
        obtain ⟨names, hdata, rfl⟩ := hreply
        obtain ⟨names', hdata', rfl⟩ := hreply'
        rw [hdata, Except.ok.injEq] at hdata'
        rw [Subtype.ext hdata']
  | _ => exact hreply.elim

/-- A request that is answered is answered with one packet, under the number found
in memory. -/
theorem handlePacket_reply {env : ServerEnv} {sid : SID} {request : Packet}
    (hasks : Asks request) (hrun : handlePacket P hash env sid request s = .ok (⟨⟩, t)) :
    ∃ reply record, ReplyIs hash s sid request reply ∧
      t.sent = s.sent ++ [⟨sid, reply env.replySeq, record⟩] := by
  cases request with
  | fieldReq req =>
      obtain ⟨_, _, record, _, _, rfl⟩ :=
        sendPacket_ok ((handleLogin_eq env sid req s).symm.trans hrun)
      refine ⟨_, record, rfl, ?_⟩
      unfold login
      split <;> rfl
  | request req =>
      by_cases hquit : req.mRequestType = .disconnect
      · rw [handlePacket_quit P hash env sid hquit] at hrun
        obtain ⟨u, hsend, rfl⟩ := handleQuit_sends hrun
        obtain ⟨_, _, record, _, _, rfl⟩ := sendPacket_ok hsend
        refine ⟨fun seq => .control ⟨seq, .ack, req.seq⟩, record, ?_, rfl⟩
        simp only [ReplyIs, if_pos hquit]
      · rw [handlePacket_list P hash env sid hquit] at hrun
        obtain ⟨names, record, hdata, hsent⟩ := getUserList_sent hrun
        refine ⟨fun seq => .userList ⟨seq, names⟩, record, ?_, hsent⟩
        simp only [ReplyIs, if_neg hquit]
        exact ⟨names, hdata, rfl⟩
  | _ => exact hasks.elim

/-- Two runs of one request from one state serialise the same bytes exactly if the
memory of the reply held the same number. -/
theorem replies_eq_iff {env env' : ServerEnv} {sid : SID} {request : Packet} {t' : Server}
    (hasks : Asks request) (hrun : handlePacket P hash env sid request s = .ok (⟨⟩, t))
    (hrun' : handlePacket P hash env' sid request s = .ok (⟨⟩, t')) :
    replies s t = replies s t' ↔ env.replySeq = env'.replySeq := by
  obtain ⟨reply, record, hreply, hsent⟩ := handlePacket_reply hasks hrun
  obtain ⟨reply', record', hreply', hsent'⟩ := handlePacket_reply hasks hrun'
  obtain rfl := hreply.unique hreply'
  rw [replies, replies, hsent, hsent', List.drop_left, List.drop_left]
  simp only [List.map_cons, List.map_nil, List.cons.injEq, and_true, Packet.serialise_view,
    MemBuffer.ofCapacity_view, List.nil_append]
  exact hreply.bytes_iff _ _

/-- Whether a packet is sent does not depend on what it says. -/
theorem sendPacket_again {env env' : ServerEnv} {sid : SID} {pkt pkt' : Packet}
    (hlength : pkt'.bytes.length = pkt.bytes.length)
    (hrun : sendPacket P env sid pkt s = .ok (⟨⟩, t)) :
    ∃ t', sendPacket P env' sid pkt' s = .ok (⟨⟩, t') := by
  obtain ⟨handler, result, record, hget, hsend, rfl⟩ := sendPacket_ok hrun
  have hagain : ∃ sent, handler.sendPacket P env'.nonce pkt' env'.bytesSent = .ok sent := by
    unfold NetworkHandler.sendPacket at hsend ⊢
    by_cases hready : handler.ready = true
    · rw [if_pos hready] at hsend ⊢
      unfold NetworkHandler.outgoing at hsend ⊢
      cases hcrypto : handler.mCrypto with
      | none => simp [hcrypto] at hsend
      | some mCrypto =>
          simp only [hcrypto, Packet.serialise_view, MemBuffer.ofCapacity_view,
            List.nil_append, Str.ofBytes, hlength, CryptoSession.encrypt] at hsend ⊢
          by_cases hfits : pkt.bytes.length ≤ maxSize
          · by_cases hestablished : mCrypto.mEstablished = true
            · simp [hfits, hestablished, bind, Except.bind, pure, Except.pure]
            · simp [hfits, hestablished, bind, Except.bind] at hsend
          · simp [hfits, bind, Except.bind] at hsend
    · rw [if_neg hready]
      exact ⟨_, rfl⟩
  obtain ⟨sent, hsent⟩ := hagain
  exact ⟨{ s with sent := s.sent ++ [⟨sid, pkt', sent.2⟩] },
    by simp only [sendPacket, hget, hsent]⟩

theorem headerBytes_length (type : PacketType) (seq : SequenceNo) :
    (headerBytes type seq).length = 9 := by
  simp [headerBytes, u8Bytes, u64Bytes]

/-- A request that is answered is answered whatever number the memory holds. -/
theorem handlePacket_again {env : ServerEnv} {sid : SID} {request : Packet}
    (hasks : Asks request) (hrun : handlePacket P hash env sid request s = .ok (⟨⟩, t))
    (seq : SequenceNo) :
    ∃ t', handlePacket P hash { env with replySeq := seq } sid request s = .ok (⟨⟩, t') := by
  cases request with
  | fieldReq req =>
      refine sendPacket_again ?_ ((handleLogin_eq env sid req s).symm.trans hrun)
      simp only [Packet.bytes, List.length_append, headerBytes_length]
      rfl
  | request req =>
      by_cases hquit : req.mRequestType = .disconnect
      · rw [handlePacket_quit P hash _ sid hquit] at hrun ⊢
        obtain ⟨u, hsend, _⟩ := handleQuit_sends hrun
        obtain ⟨t', hagain⟩ : ∃ t', sendPacket P { env with replySeq := seq } sid
            (.control ⟨seq, .ack, req.seq⟩) s = .ok (⟨⟩, t') := by
          refine sendPacket_again ?_ hsend
          simp only [Packet.bytes, List.length_append, headerBytes_length]
          rfl
        exact ⟨_, run_bind hagain⟩
      · rw [handlePacket_list P hash _ sid hquit] at hrun ⊢
        obtain ⟨reply, hreply, hsend⟩ := getUserList_sends hrun
        obtain ⟨names, hdata, rfl⟩ := userListPacket_ok hreply
        have hlist : userListPacket { env with replySeq := seq } s = .ok ⟨seq, names⟩ := by
          simp only [userListPacket, hdata, dif_pos names.2]
        rw [getUserList, hlist]
        refine sendPacket_again ?_ hsend
        simp only [Packet.bytes, List.length_append, headerBytes_length]
        rfl
  | _ => exact hasks.elim

/-- The reply to a request is made of the state and the request alone: two runs that
differ in what the memory held serialise the same bytes. -/
def Determined (P : Primitives) (hash : Str → UInt64) (s : Server) (sid : SID)
    (request : Packet) : Prop :=
  ∀ env seq t t', handlePacket P hash env sid request s = .ok (⟨⟩, t) →
    handlePacket P hash { env with replySeq := seq } sid request s = .ok (⟨⟩, t') →
    replies s t = replies s t'

/-- No request that is answered has such a reply: the bytes are the same exactly if
the memory held the same number, and it may hold any. -/
theorem reply_not_determined {sid : SID} {request : Packet} (hasks : Asks request)
    (hanswered : ∃ env t, handlePacket P hash env sid request s = .ok (⟨⟩, t)) :
    ¬ Determined P hash s sid request ∧
    ∀ env env' t t', handlePacket P hash env sid request s = .ok (⟨⟩, t) →
      handlePacket P hash env' sid request s = .ok (⟨⟩, t') →
      (replies s t = replies s t' ↔ env.replySeq = env'.replySeq) := by
  refine ⟨?_, fun env env' t t' hrun hrun' => replies_eq_iff hasks hrun hrun'⟩
  intro hdetermined
  obtain ⟨env, t, hrun⟩ := hanswered
  obtain ⟨t', hagain⟩ := handlePacket_again hasks hrun (env.replySeq + 1)
  have hsame := (replies_eq_iff hasks hrun hagain).mp (hdetermined env _ t t' hrun hagain)
  have hnext : ∀ seq : SequenceNo, seq ≠ seq + 1 := by
    intro seq hseq
    have hnat := congrArg UInt64.toNat hseq
    rw [UInt64.toNat_add, UInt64.toNat_one] at hnat
    have hlt := seq.toNat_lt
    omega
  exact hnext _ hsame

/-- Connection 1 asks for the name `alice`. -/
def sampleAsk : Packet := .fieldReq ⟨7, .setUsername, alice⟩

theorem sampleAsk_answered (seq : SequenceNo) :
    ∃ t, handlePacket .clear (fun _ => 0) { sampleEnv with replySeq := seq } 1 sampleAsk
      connectedTwice = .ok (⟨⟩, t) := by
  obtain ⟨record, hrun⟩ : ∃ record, handleLogin .clear (fun _ => 0)
      { sampleEnv with replySeq := seq } 1 ⟨7, .setUsername, alice⟩ connectedTwice =
        .ok (⟨⟩, _) :=
    handleLogin_run (good_of_reachable reachable_connectedTwice)
      (connectedTwice_isOpen 1 (by decide)) _ _
  exact ⟨_, hrun⟩

theorem reply_not_determined_sample :
    ¬ Determined .clear (fun _ => 0) connectedTwice 1 sampleAsk := by
  obtain ⟨t, hrun⟩ := sampleAsk_answered 0
  have hasks : Asks sampleAsk := trivial
  exact (reply_not_determined hasks ⟨_, t, hrun⟩).1

/-- The replies to one login, with 0 and with 1 in the memory of the packet. -/
theorem replies_differ : ∃ t t',
    handlePacket .clear (fun _ => 0) { sampleEnv with replySeq := 0 } 1 sampleAsk
        connectedTwice = .ok (⟨⟩, t) ∧
      handlePacket .clear (fun _ => 0) { sampleEnv with replySeq := 1 } 1 sampleAsk
        connectedTwice = .ok (⟨⟩, t') ∧
      replies connectedTwice t ≠ replies connectedTwice t' ∧
      ¬ Determined .clear (fun _ => 0) connectedTwice 1 sampleAsk := by
  obtain ⟨t, hrun⟩ := sampleAsk_answered 0
  obtain ⟨t', hrun'⟩ := sampleAsk_answered 1
  have hasks : Asks sampleAsk := trivial
  have hdiffer : replies connectedTwice t ≠ replies connectedTwice t' := by
    intro hsame
    have hseq : (0 : SequenceNo) = 1 := (replies_eq_iff hasks hrun hrun').mp hsame
    exact absurd hseq (by decide)
  exact ⟨t, t', hrun, hrun', hdiffer, fun hdetermined => hdiffer (hdetermined _ 1 t t' hrun hrun')⟩

end Server

end LeakyChat

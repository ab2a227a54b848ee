/-
Calls of `waitForRead` that follow each other, all connections being open.  The
static `idx` goes on from one call to the next, but a call that returns a socket
id leaves it there, so the next one asks the same connection first.
-/
import LeakyChat.SocketSet

namespace LeakyChat

open RoundRobin

namespace SocketSet

/-- A call for each result of `poll`, up to the first that fails. -/
def waitForReads : List (Nat → Int16) → SocketSet → Nat → Except Fault (List (Option SID))
  | [], _, _ => .ok []
  | revents :: polls, s, idx =>
      match s.waitForRead idx revents with
      | (.error fault, _, _) => .error fault
      | (.ok sid, s, idx) => (waitForReads polls s idx).map (sid :: ·)

/-- As many calls as there are connections, in a set where all are open, `poll`
reporting an event on connection `sid` each time. -/
structure Round (s : SocketSet) (idx : Nat) (sid : SID) (polls : List (Nat → Int16)) : Prop where
  connected : ∀ nh ∈ s.data, nh.connected = true
  idxInside : idx < s.data.length
  sidInside : sid < s.data.length
  calls : polls.length = s.data.length
  ready : ∀ revents ∈ polls, 0 < revents sid

/-- The calls all return, and one of them returns `sid`. -/
def Serves (s : SocketSet) (idx : Nat) (sid : SID) (polls : List (Nat → Int16)) : Prop :=
  ∃ sids, waitForReads polls s idx = .ok sids ∧ some sid ∈ sids

/-- How far connection `sid` is from `idx` in the order of the scan. -/
def ahead (s : SocketSet) (idx : Nat) (sid : SID) : Nat :=
  (sid + s.data.length - idx) % s.data.length

/-- Every poll reports an event on some connection that is scanned before `sid`,
and these can be chosen such that the scan never has to go back to one. -/
def Starves (s : SocketSet) (idx : Nat) (sid : SID) (polls : List (Nat → Int16)) : Prop :=
  ∃ offsets : List Nat, offsets.Pairwise (· ≤ ·) ∧
    List.Forall₂ (fun revents offset =>
      0 < revents ((idx + offset) % s.data.length) ∧ offset < s.ahead idx sid) polls offsets

variable {s : SocketSet} {idx : Nat} {sid : SID} {polls : List (Nat → Int16)}

theorem ahead_lt (hsid : sid < s.data.length) : s.ahead idx sid < s.data.length :=
  Nat.mod_lt _ (Nat.zero_lt_of_lt hsid)

theorem add_ahead (hidx : idx < s.data.length) (hsid : sid < s.data.length) :
    (idx + s.ahead idx sid) % s.data.length = sid := by
  rw [ahead, Nat.add_mod_mod, Nat.add_sub_cancel' (by omega), Nat.add_mod_right,
    Nat.mod_eq_of_lt hsid]

theorem probe_open_iff (hopen : ∀ nh ∈ s.data, nh.connected = true) {revents : Nat → Int16}
    {i : Nat} (hi : i < s.data.length) :
    probe (s.activeConnections revents) i = .ok true ↔ 0 < revents i := by
  rw [probe_of_open (List.countP_eq_length.mpr hopen) hi, Except.ok.injEq, decide_eq_true_eq]

/-- A call changes nothing that another one reads, the static `idx` apart. -/
theorem waitForRead_open (hopen : ∀ nh ∈ s.data, nh.connected = true)
    (hidx : idx < s.data.length) (revents : Nat → Int16) :
    s.waitForRead idx revents =
      ((scan (probe (s.activeConnections revents)) s.data.length s.data.length idx).1,
        ⟨s.data, s.data.length⟩,
        (scan (probe (s.activeConnections revents)) s.data.length s.data.length idx).2) := by
  have hlength : (s.activeConnections revents).length = s.data.length := by
    rw [activeConnections_length, List.countP_eq_length.mpr hopen]
  rw [waitForRead]
  simp only [hlength, if_neg (Nat.ne_zero_of_lt hidx)]

/-- The calls are the scans of one rotation. -/
theorem waitForReads_scans (hopen : ∀ nh ∈ s.data, nh.connected = true)
    (hidx : idx < s.data.length) :
    waitForReads polls s idx =
      scans s.data.length (polls.map fun revents => probe (s.activeConnections revents)) idx := by
  induction polls generalizing s idx with
  | nil => rfl
  | cons revents polls ih =>
      rw [waitForReads, waitForRead_open hopen hidx, List.map_cons, scans]
      have hnext : (scan (probe (s.activeConnections revents)) s.data.length
        s.data.length idx).2 < s.data.length := scan_lt hidx
      cases hscan : scan (probe (s.activeConnections revents)) s.data.length
          s.data.length idx with
      | mk result stopped =>
          rw [hscan] at hnext
          cases result with
          | error fault => rfl
          | ok found =>
              exact congrArg (Except.map (found :: ·))
                (ih (s := ⟨s.data, s.data.length⟩) hopen hnext)

/-- The connections with an event are the slots that say yes. -/
theorem turns_open (hopen : ∀ nh ∈ s.data, nh.connected = true) (hidx : idx < s.data.length) :
    (polls.map fun revents => probe (s.activeConnections revents)).map
        (fun answer k => answer ((idx + k) % s.data.length) = .ok true) =
      polls.map fun revents offset => 0 < revents ((idx + offset) % s.data.length) := by
  rw [List.map_map]
  apply List.map_congr_left
  intro revents _
  funext k
  exact propext (probe_open_iff hopen (Nat.mod_lt _ (Nat.zero_lt_of_lt hidx)))

theorem starves_iff_heldBack :
    s.Starves idx sid polls ↔
      HeldBack (polls.map fun revents offset => 0 < revents ((idx + offset) % s.data.length))
        0 (s.ahead idx sid) := by
  rw [Starves, HeldBack]
  simp only [List.pairwise_cons, Nat.zero_le, implies_true, true_and, List.forall₂_map_left_iff]

/-- Over any number of calls, a connection that always has an event is served
unless it starves. -/
theorem serves_iff_of_open (hopen : ∀ nh ∈ s.data, nh.connected = true)
    (hidx : idx < s.data.length) (hsid : sid < s.data.length)
    (hready : ∀ revents ∈ polls, 0 < revents sid) :
    s.Serves idx sid polls ↔ ¬ s.Starves idx sid polls := by
  have hanswers : ∀ answer ∈ polls.map fun revents => probe (s.activeConnections revents),
      Answers s.data.length answer := by
    rw [List.forall_mem_map]
    exact fun revents _ i hi => ⟨_, probe_of_open (List.countP_eq_length.mpr hopen) hi⟩
  have hyes : ∀ answer ∈ polls.map fun revents => probe (s.activeConnections revents),
      answer ((idx + s.ahead idx sid) % s.data.length) = .ok true := by
    rw [List.forall_mem_map, add_ahead hidx hsid]
    exact fun revents hrevents => (probe_open_iff hopen hsid).mpr (hready revents hrevents)
  have hfound := found_iff_not_heldBack (ahead_lt hsid) hanswers hyes 0 (Nat.zero_le _)
  rw [Nat.add_zero, Nat.mod_eq_of_lt hidx, add_ahead hidx hsid, turns_open hopen hidx] at hfound
  rw [Serves, waitForReads_scans hopen hidx, starves_iff_heldBack]
  exact hfound

/-- A connection that has an event each time is the only one served as long as
the scan starts there, however many calls there are. -/
theorem waitForReads_busy (hopen : ∀ nh ∈ s.data, nh.connected = true)
    (hidx : idx < s.data.length) (hbusy : ∀ revents ∈ polls, 0 < revents idx) :
    waitForReads polls s idx = .ok (List.replicate polls.length (some idx)) := by
  rw [waitForReads_scans hopen hidx, scans_of_busy (Nat.zero_lt_of_lt hidx), List.length_map]
  rw [List.forall_mem_map]
  exact fun revents hrevents => (probe_open_iff hopen hidx).mpr (hbusy revents hrevents)

/-- A connection does not starve if `poll` once reports no event on another. -/
theorem not_starves_of_alone (hidx : idx < s.data.length) (hsid : sid < s.data.length)
    {revents : Nat → Int16} (hrevents : revents ∈ polls)
    (halone : ∀ other < s.data.length, 0 < revents other → other = sid) :
    ¬ s.Starves idx sid polls := by
  rintro ⟨offsets, _, hturns⟩
  obtain ⟨call, hcall, rfl⟩ := List.getElem_of_mem hrevents
  obtain ⟨hevent, hlt⟩ := hturns.get hcall (hturns.length_eq ▸ hcall)
  have hplace := halone _ (Nat.mod_lt _ (Nat.zero_lt_of_lt hidx)) hevent
  have hahead : s.ahead idx sid < s.data.length := ahead_lt hsid
  have hsame := place_inj (Nat.lt_trans hlt hahead) hahead
    (hplace.trans (add_ahead hidx hsid).symm)
  exact Nat.ne_of_lt hlt hsame

/-- In a round a connection that is always ready is served exactly if it does
not starve. -/
theorem serves_iff_not_starves (hround : s.Round idx sid polls) :
    s.Serves idx sid polls ↔ ¬ s.Starves idx sid polls :=
  serves_iff_of_open hround.connected hround.idxInside hround.sidInside hround.ready

/-- Two open connections. -/
def busySet : SocketSet := ⟨[openHandler, openHandler], 2⟩

theorem busySet_round {idx : Nat} {sid : SID} (hidx : idx < 2) (hsid : sid < 2) :
    busySet.Round idx sid [fun _ => 1, fun _ => 1] where
  connected := by simp [busySet, openHandler, NetworkHandler.connected, NetworkHandler.setSocket]
  idxInside := hidx
  sidInside := hsid
  calls := rfl
  ready := by simp

theorem serves_iff_not_starves_busySet :
    busySet.Serves 0 0 [fun _ => 1, fun _ => 1] ↔
      ¬ busySet.Starves 0 0 [fun _ => 1, fun _ => 1] :=
  serves_iff_not_starves (busySet_round (by decide) (by decide))

/-- With an event on both connections each time, both calls return the first. -/
theorem not_serves_busySet :
    busySet.Round 0 1 [fun _ => 1, fun _ => 1] ∧
      waitForReads [fun _ => 1, fun _ => 1] busySet 0 = .ok [some 0, some 0] ∧
      ¬ busySet.Serves 0 1 [fun _ => 1, fun _ => 1] := by
  have hreads : waitForReads [fun _ => 1, fun _ => 1] busySet 0 = .ok [some 0, some 0] := rfl
  refine ⟨busySet_round (by decide) (by decide), hreads, ?_⟩
  rintro ⟨sids, hsids, hmem⟩
  rw [hreads, Except.ok.injEq] at hsids
  subst hsids
  simp at hmem

end SocketSet

end LeakyChat

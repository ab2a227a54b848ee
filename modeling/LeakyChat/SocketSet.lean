/-
The connections of the server by socket id, and the choice of the next one to
read from.  The vector that is polled holds an entry for each open connection
only, but it is scanned by socket id.
-/
import LeakyChat.Library.RoundRobin
import LeakyChat.NetworkHandler
import Mathlib.Data.List.Count

namespace LeakyChat

open RoundRobin

abbrev SID := Nat

structure SocketSet where
  data : List NetworkHandler
  numActiveConnections : Nat

/-- A `pollfd` waiting for `POLLIN`, after `poll` has returned. -/
structure PollFd where
  fd : Int
  revents : Int16

namespace SocketSet

def empty : SocketSet := ⟨[], 0⟩

def insert (s : SocketSet) (nh : NetworkHandler) : SocketSet :=
  ⟨s.data ++ [nh], s.numActiveConnections + 1⟩

/-- What `poll` leaves in the vector, `revents` being its answers by position. -/
def activeConnections (s : SocketSet) (revents : Nat → Int16) : List PollFd :=
  (s.data.filter (·.connected)).mapIdx fun k nh => ⟨nh.mSocket, revents k⟩

/-- `activeConnections[idx].revents > 0`. -/
def probe (active : List PollFd) (idx : Nat) : Except Fault Bool :=
  match active[idx]? with
  | some pfd => .ok (decide (0 < pfd.revents))
  | none => .error .undefined

/-- The socket id chosen, none for `-1`, and the static `idx` from then on. -/
def waitForRead (s : SocketSet) (idx : Nat) (revents : Nat → Int16) :
    Except Fault (Option SID) × SocketSet × Nat :=
  let active := s.activeConnections revents
  let s := { s with numActiveConnections := active.length }
  if active.length = 0 then (.ok none, s, idx)
  else
    let scanned := scan (probe active) s.data.length s.data.length idx
    (scanned.1, s, scanned.2)

def hasActive (s : SocketSet) : Bool := 0 < s.numActiveConnections

/-- The position of a connection's own entry in the polled vector. -/
def rank (s : SocketSet) (sid : SID) : Nat := (s.data.take sid).countP (·.connected)

/-- The connection is open and `poll` reported an event on it. -/
def Event (s : SocketSet) (revents : Nat → Int16) (sid : SID) : Prop :=
  (∃ nh, s.data[sid]? = some nh ∧ nh.connected = true) ∧ 0 < revents (s.rank sid)

variable {s : SocketSet} {revents : Nat → Int16}

theorem activeConnections_length :
    (s.activeConnections revents).length = s.data.countP (·.connected) := by
  rw [activeConnections, List.length_mapIdx, List.countP_eq_length_filter]

theorem probe_eq {idx : Nat} :
    probe (s.activeConnections revents) idx =
      if idx < s.data.countP (·.connected) then .ok (decide (0 < revents idx))
      else .error .undefined := by
  rw [probe, activeConnections, List.getElem?_mapIdx]
  by_cases hidx : idx < s.data.countP (·.connected)
  · rw [if_pos hidx]
    rw [List.countP_eq_length_filter] at hidx
    rw [List.getElem?_eq_getElem hidx]
    rfl
  · rw [if_neg hidx]
    rw [List.countP_eq_length_filter] at hidx
    rw [List.getElem?_eq_none (Nat.le_of_not_lt hidx)]
    rfl

/-- A probe that does not leave the vector. -/
theorem probe_ok {idx : Nat} {yes : Bool}
    (hyes : probe (s.activeConnections revents) idx = .ok yes) :
    idx < s.data.countP (·.connected) ∧ yes = decide (0 < revents idx) := by
  rw [probe_eq] at hyes
  by_cases hidx : idx < s.data.countP (·.connected)
  · rw [if_pos hidx, Except.ok.injEq] at hyes
    exact ⟨hidx, hyes.symm⟩
  · rw [if_neg hidx] at hyes
    cases hyes

/-- What the caller relies on: nothing outside the vector is read, a socket id
returned is that of an open connection with an event, and there is none only if
no open connection has one. -/
structure WaitsRight (s : SocketSet) (idx : Nat) (revents : Nat → Int16) : Prop where
  inside : ∃ result, (s.waitForRead idx revents).1 = .ok result
  found : ∀ sid, (s.waitForRead idx revents).1 = .ok (some sid) → s.Event revents sid
  missing : (s.waitForRead idx revents).1 = .ok none → ∀ sid, ¬ s.Event revents sid

/-- From `idx` on, the first entry with an event is at the socket id of an open
connection that has an event itself. -/
def FirstInPlace (s : SocketSet) (idx : Nat) (revents : Nat → Int16) : Prop :=
  ∃ sid, idx ≤ sid ∧ sid < s.data.countP (·.connected) ∧ 0 < revents sid ∧
    (∀ i, idx ≤ i → i < sid → ¬ 0 < revents i) ∧ s.Event revents sid

theorem waitForRead_idle (hnone : s.data.countP (·.connected) = 0) (idx : Nat) :
    (s.waitForRead idx revents).1 = .ok none := by
  rw [waitForRead, if_pos (activeConnections_length.trans hnone)]

theorem waitForRead_scan (hsome : s.data.countP (·.connected) ≠ 0) (idx : Nat) :
    (s.waitForRead idx revents).1 =
      (scan (probe (s.activeConnections revents)) s.data.length s.data.length idx).1 := by
  rw [waitForRead, if_neg (by rwa [activeConnections_length])]

theorem not_event_of_closed (hnone : s.data.countP (·.connected) = 0) (sid : SID) :
    ¬ s.Event revents sid := by
  rintro ⟨⟨nh, hget, hconnected⟩, _⟩
  exact List.countP_eq_zero.mp hnone nh (List.mem_of_getElem? hget) hconnected

/-- With every connection open, all of them can be asked. -/
theorem probe_of_open (hall : s.data.countP (·.connected) = s.data.length) {i : Nat}
    (hi : i < s.data.length) :
    probe (s.activeConnections revents) i = .ok (decide (0 < revents i)) := by
  rw [probe_eq, if_pos (hall ▸ hi)]

/-- With every connection open each entry is at its own socket id. -/
theorem rank_of_open (hall : s.data.countP (·.connected) = s.data.length) {sid : SID}
    (hsid : sid < s.data.length) : s.rank sid = sid := by
  have hopen := List.countP_eq_length.mp hall
  rw [rank, List.countP_eq_length.mpr fun nh hnh => hopen nh (List.mem_of_mem_take hnh),
    List.length_take, Nat.min_eq_left (Nat.le_of_lt hsid)]

theorem event_of_open (hall : s.data.countP (·.connected) = s.data.length) {sid : SID} :
    s.Event revents sid ↔ sid < s.data.length ∧ 0 < revents sid := by
  constructor
  · rintro ⟨⟨nh, hget, _⟩, hevent⟩
    have hsid := (List.getElem?_eq_some_iff.mp hget).1
    rw [rank_of_open hall hsid] at hevent
    exact ⟨hsid, hevent⟩
  · rintro ⟨hsid, hevent⟩
    refine ⟨⟨s.data[sid], List.getElem?_eq_getElem hsid, ?_⟩, ?_⟩
    · exact List.countP_eq_length.mp hall _ (List.getElem_mem hsid)
    · rwa [rank_of_open hall hsid]

theorem waitsRight_of_open (hall : s.data.countP (·.connected) = s.data.length) {idx : Nat}
    (hidx : idx < s.data.length) : s.WaitsRight idx revents := by
  have hsome : s.data.countP (·.connected) ≠ 0 := by omega
  have hscan : (s.waitForRead idx revents).1 = _ := waitForRead_scan hsome idx
  refine ⟨?_, ?_, ?_⟩
  · rw [hscan]
    exact scan_ok hidx fun j hj => ⟨_, probe_of_open hall hj⟩
  · intro sid hfound
    rw [hscan, scan_some_iff hidx] at hfound
    obtain ⟨k, _, hk, hyes, _⟩ := hfound
    have hsid : sid < s.data.length := hk ▸ Nat.mod_lt _ (Nat.zero_lt_of_lt hidx)
    rw [probe_of_open hall hsid, Except.ok.injEq, decide_eq_true_eq] at hyes
    exact (event_of_open hall).mpr ⟨hsid, hyes⟩
  · intro hmissing sid hevent
    rw [hscan] at hmissing
    obtain ⟨hsid, hyes⟩ := (event_of_open hall).mp hevent
    have hno := probe_of_scan_none hidx hmissing hsid
    rw [probe_of_open hall hsid, Except.ok.injEq, decide_eq_false_iff_not] at hno
    exact hno hyes

theorem waitsRight_of_closed (hnone : s.data.countP (·.connected) = 0) (idx : Nat) :
    s.WaitsRight idx revents := by
  have hidle : (s.waitForRead idx revents).1 = .ok none := waitForRead_idle hnone idx
  refine ⟨⟨none, hidle⟩, ?_, fun _ => not_event_of_closed hnone⟩
  intro sid hfound
  rw [hidle] at hfound
  cases hfound

/-- With a closed connection among open ones, a scan that stays inside the vector
has to stop at the first entry with an event. -/
theorem firstInPlace_of_waitsRight (hsome : s.data.countP (·.connected) ≠ 0)
    (hlt : s.data.countP (·.connected) < s.data.length) {idx : Nat}
    (hidx : idx < s.data.length) (hright : s.WaitsRight idx revents) :
    s.FirstInPlace idx revents := by
  have hscan : (s.waitForRead idx revents).1 = _ := waitForRead_scan hsome idx
  obtain ⟨result, hresult⟩ := hright.inside
  rw [hscan] at hresult
  cases result with
  | none =>
      -- A scan that finds nothing has gone past the end of the vector.
      have hlast := (probe_ok (probe_of_scan_none hidx hresult hlt)).1
      exact absurd hlast (Nat.lt_irrefl _)
  | some sid =>
      obtain ⟨hle, hsid, hyes, hno⟩ :=
        le_of_scan_some hlt hidx (fun i yes hi => (probe_ok hi).1) hresult
      refine ⟨sid, hle, hsid, of_decide_eq_true (probe_ok hyes).2.symm, ?_, ?_⟩
      · intro i hi hlt
        exact of_decide_eq_false (probe_ok (hno i hi hlt)).2.symm
      · exact hright.found sid (hscan.trans hresult)

theorem waitsRight_of_firstInPlace {idx : Nat} (hplace : s.FirstInPlace idx revents) :
    s.WaitsRight idx revents := by
  obtain ⟨sid, hle, hsid, hyes, hno, hevent⟩ := hplace
  have hsome : s.data.countP (·.connected) ≠ 0 := Nat.ne_zero_of_lt hsid
  have hprobe : ∀ i, i ≤ sid →
      probe (s.activeConnections revents) i = .ok (decide (0 < revents i)) := by
    intro i hi
    rw [probe_eq, if_pos (Nat.lt_of_le_of_lt hi hsid)]
  have hresult : (s.waitForRead idx revents).1 = .ok (some sid) := by
    rw [waitForRead_scan hsome]
    apply scan_some_of_le (Nat.lt_of_lt_of_le hsid List.countP_le_length) hle
    · rw [hprobe sid (Nat.le_refl sid), decide_eq_true hyes]
    · intro i hi hlt
      rw [hprobe i (Nat.le_of_lt hlt), decide_eq_false (hno i hi hlt)]
  refine ⟨⟨_, hresult⟩, ?_, ?_⟩
  · intro other hfound
    rw [hresult, Except.ok.injEq, Option.some.injEq] at hfound
    rw [← hfound]
    exact hevent
  · intro hmissing
    rw [hresult] at hmissing
    cases hmissing

/-- `waitForRead` is right exactly if all connections are open, or none is, or
the first entry with an event happens to be in its own place. -/
theorem waitsRight_iff (s : SocketSet) {idx : Nat} (hidx : idx < s.data.length)
    (revents : Nat → Int16) :
    s.WaitsRight idx revents ↔
      (∀ nh ∈ s.data, nh.connected = true) ∨ (∀ nh ∈ s.data, nh.connected = false) ∨
        s.FirstInPlace idx revents := by
  have hallIff : (∀ nh ∈ s.data, nh.connected = true) ↔
      s.data.countP (·.connected) = s.data.length := List.countP_eq_length.symm
  have hnoneIff : (∀ nh ∈ s.data, nh.connected = false) ↔
      s.data.countP (·.connected) = 0 := by
    rw [List.countP_eq_zero]
    simp
  rw [hallIff, hnoneIff]
  constructor
  · intro hright
    by_cases hall : s.data.countP (·.connected) = s.data.length
    · exact Or.inl hall
    · by_cases hnone : s.data.countP (·.connected) = 0
      · exact Or.inr (Or.inl hnone)
      · have hlt := Nat.lt_of_le_of_ne List.countP_le_length hall
        exact Or.inr (Or.inr (firstInPlace_of_waitsRight hnone hlt hidx hright))
  · rintro (hall | hnone | hplace)
    · exact waitsRight_of_open hall hidx
    · exact waitsRight_of_closed hnone idx
    · exact waitsRight_of_firstInPlace hplace

def openHandler : NetworkHandler := NetworkHandler.fresh.setSocket 4

/-- An open connection in front of a closed one has its entry in its own place. -/
theorem waitsRight_iff_sample :
    (SocketSet.mk [openHandler, NetworkHandler.fresh] 1).WaitsRight 0 (fun _ => 1) := by
  refine (waitsRight_iff _ (by decide) _).mpr (Or.inr (Or.inr ?_))
  exact ⟨0, Nat.le_refl 0, by decide, by decide,
    fun i hle hlt => absurd hlt (Nat.not_lt_zero i), ⟨⟨openHandler, rfl, rfl⟩, by decide⟩⟩

def sampleSet : SocketSet := ⟨[NetworkHandler.fresh, openHandler], 1⟩

/-- An event on the open connection 1 is reported as one on 0, which is closed,
and read outside the vector if the scan starts at 1. -/
theorem waitForRead_closed :
    (sampleSet.waitForRead 0 fun _ => 1).1 = .ok (some 0) ∧
      ¬ sampleSet.WaitsRight 0 (fun _ => 1) ∧
      (sampleSet.waitForRead 1 fun _ => 1).1 = .error .undefined := by
  refine ⟨rfl, ?_, rfl⟩
  intro hright
  obtain ⟨⟨nh, hget, hconnected⟩, _⟩ := hright.found 0 rfl
  cases hget
  cases hconnected

end SocketSet

end LeakyChat

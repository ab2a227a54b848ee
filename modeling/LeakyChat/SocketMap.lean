/-
Values by socket id, and the index back from a value to its socket id.  The
keys of the index are pointers to the elements of the deque, hashed and
compared by what they point to; growing the deque at its end keeps them valid,
so a pointer is the position of its element here.
-/
import LeakyChat.SocketSet
import Mathlib.Data.List.Pairwise
import Mathlib.Data.PEquiv

namespace LeakyChat

universe u

/-- A pointer filed in the index under the value its element held then. -/
structure IndexEntry (T : Type u) where
  slot : SID
  filed : T
  sid : SID
deriving DecidableEq

structure IndexedSocketMap (T : Type u) where
  mData : List T
  reverseMap : List (IndexEntry T)

namespace IndexedSocketMap

variable {T : Type u}

def empty : IndexedSocketMap T := ⟨[], []⟩

/-- The elements of open connections, from `sid` on. -/
def collect (mData : List T) : List NetworkHandler → SID → Except Fault (List T)
  | [], _ => .ok []
  | nh :: sset, sid =>
      if nh.connected then
        match mData[sid]? with
        | none => .error .undefined
        | some value =>
            match collect mData sset (sid + 1) with
            | .error fault => .error fault
            | .ok data => .ok (value :: data)
      else collect mData sset (sid + 1)

/-- `SocketMap::data`. -/
def data (m : IndexedSocketMap T) (sset : SocketSet) : Except Fault (List T) :=
  collect m.mData sset.data 0

/-- Nothing outside the deque is read exactly if it reaches the last open
connection. -/
theorem collect_ok_iff {mData : List T} {sset : List NetworkHandler} {sid : SID} :
    (∃ data, collect mData sset sid = .ok data) ↔
      ∀ i nh, sset[i]? = some nh → nh.connected = true → sid + i < mData.length := by
  induction sset generalizing sid with
  | nil => simp [collect]
  | cons nh sset ih =>
      have hsplit : (∀ i nh', (nh :: sset)[i]? = some nh' → nh'.connected = true →
            sid + i < mData.length) ↔
          (nh.connected = true → sid < mData.length) ∧
            ∀ i nh', sset[i]? = some nh' → nh'.connected = true →
              sid + 1 + i < mData.length := by
        constructor
        · intro hall
          refine ⟨hall 0 nh rfl, fun i nh' hget hopen => ?_⟩
          have hlt := hall (i + 1) nh' hget hopen
          rwa [Nat.add_assoc, Nat.add_comm 1 i]
        · rintro ⟨hfirst, hrest⟩ i nh' hget hopen
          cases i with
          | zero =>
              cases hget
              exact hfirst hopen
          | succ i =>
              have hlt := hrest i nh' hget hopen
              rwa [Nat.add_assoc, Nat.add_comm 1 i] at hlt
      rw [hsplit, ← ih, collect]
      by_cases hopen : nh.connected = true
      · rw [if_pos hopen]
        simp only [hopen, forall_const]
        by_cases hsid : sid < mData.length
        · rw [List.getElem?_eq_getElem hsid]
          cases collect mData sset (sid + 1) <;> simp [hsid]
        · rw [List.getElem?_eq_none (Nat.le_of_not_lt hsid)]
          simp [hsid]
      · rw [if_neg hopen]
        simp [hopen]

theorem collect_fault {mData : List T} {sset : List NetworkHandler} {sid : SID}
    {fault : Fault} (hrun : collect mData sset sid = .error fault) : fault = .undefined := by
  induction sset generalizing sid with
  | nil => cases hrun
  | cons nh sset ih =>
      rw [collect] at hrun
      split at hrun
      · split at hrun
        · cases hrun
          rfl
        · cases hrest : collect mData sset (sid + 1) with
          | error fault' =>
              rw [hrest] at hrun
              cases hrun
              exact ih hrest
          | ok data =>
              rw [hrest] at hrun
              cases hrun
      · exact ih hrun

section

variable [Inhabited T]

/-- `SocketMap::ensure`, where `resize` fills up with default values. -/
def ensure (mData : List T) (size : Nat) : List T :=
  if mData.length < size then mData ++ List.replicate (size - mData.length) default
  else mData

/-- `SocketMap::insert`. -/
def store (m : IndexedSocketMap T) (id : SID) (value : T) : IndexedSocketMap T :=
  { m with mData := (ensure m.mData (id + 1)).set id value }

theorem ensure_getElem? (mData : List T) (size i : Nat) :
    (ensure mData size)[i]? =
      if i < mData.length then mData[i]? else if i < size then some default else none := by
  unfold ensure
  by_cases hsize : mData.length < size
  · rw [if_pos hsize]
    by_cases hi : i < mData.length
    · rw [if_pos hi, List.getElem?_append_left hi]
    · rw [if_neg hi, List.getElem?_append_right (Nat.le_of_not_lt hi),
        List.getElem?_replicate]
      by_cases hlast : i < size
      · rw [if_pos hlast, if_pos (by omega)]
      · rw [if_neg hlast, if_neg (by omega)]
  · rw [if_neg hsize]
    by_cases hi : i < mData.length
    · rw [if_pos hi]
    · rw [if_neg hi, if_neg (by omega), List.getElem?_eq_none (Nat.le_of_not_lt hi)]

theorem ensure_length (mData : List T) (size : Nat) :
    (ensure mData size).length = max mData.length size := by
  unfold ensure
  split <;> simp <;> omega

@[simp]
theorem store_length (m : IndexedSocketMap T) (id : SID) (value : T) :
    (m.store id value).mData.length = max m.mData.length (id + 1) := by
  rw [store, List.length_set, ensure_length]

/-- Storing changes one element, and adds default ones before it. -/
theorem store_getElem? (m : IndexedSocketMap T) (id : SID) (value : T) (i : SID) :
    (m.store id value).mData[i]? =
      if i = id then some value
      else if i < m.mData.length then m.mData[i]?
      else if i < id + 1 then some default else none := by
  rw [store, List.getElem?_set, ensure_length, ensure_getElem?]
  by_cases hi : id = i
  · subst hi
    simp only [↓reduceIte]
    rw [if_pos (by omega)]
  · rw [if_neg hi, if_neg (Ne.symm hi)]

/-- The index is exact, but for default values: those of elements nothing was
stored in are not in it, and at most one default value that was stored is. -/
structure Indexed (m : IndexedSocketMap T) : Prop where
  filed : ∀ entry ∈ m.reverseMap,
    entry.sid = entry.slot ∧ m.mData[entry.slot]? = some entry.filed
  unique : m.reverseMap.Pairwise fun entry other => entry.filed ≠ other.filed
  complete : ∀ id value, m.mData[id]? = some value → value ≠ default →
    ⟨id, value, id⟩ ∈ m.reverseMap

theorem indexed_empty : (empty : IndexedSocketMap T).Indexed := by
  constructor
  · intro entry hentry
    cases hentry
  · exact List.Pairwise.nil
  · intro id value hget
    cases hget

end

section

variable [DecidableEq T] (hash : T → UInt64)

/-- `DerefHash` and `DerefEqual`: the hash is the one the entry was filed
under, the comparison looks at what the element holds now. -/
def isKey (m : IndexedSocketMap T) (value : T) (entry : IndexEntry T) : Bool :=
  hash entry.filed = hash value ∧ m.mData[entry.slot]? = some value

def find (m : IndexedSocketMap T) (value : T) : Option (IndexEntry T) :=
  m.reverseMap.find? (m.isKey hash value)

def getSID (m : IndexedSocketMap T) (value : T) : Option SID :=
  (m.find hash value).map (·.sid)

def contains (m : IndexedSocketMap T) (value : T) : Bool := (m.find hash value).isSome

/-- `reverseMap.erase` through a pointer to an element that holds `value`. -/
def erase (m : IndexedSocketMap T) (value : T) : IndexedSocketMap T :=
  { m with reverseMap := m.reverseMap.eraseP (m.isKey hash value) }

/-- `if (id < size()) reverseMap.erase(&(*this)[id]);` -/
def release (m : IndexedSocketMap T) (id : SID) : IndexedSocketMap T :=
  match m.mData[id]? with
  | some oldVal => m.erase hash oldVal
  | none => m

/-- `reverseMap[&mData[id]] = id` where that element holds `value`; an entry
that compares equal keeps its own pointer. -/
def assign (m : IndexedSocketMap T) (id : SID) (value : T) : IndexedSocketMap T :=
  match m.find hash value with
  | some entry => { m.erase hash value with
      reverseMap := { entry with sid := id } :: (m.erase hash value).reverseMap }
  | none => { m with reverseMap := ⟨id, value, id⟩ :: m.reverseMap }

@[simp]
theorem release_mData (m : IndexedSocketMap T) (id : SID) :
    (m.release hash id).mData = m.mData := by
  unfold release
  cases m.mData[id]? <;> rfl

@[simp]
theorem assign_mData (m : IndexedSocketMap T) (id : SID) (value : T) :
    (m.assign hash id value).mData = m.mData := by
  unfold assign
  cases m.find hash value <;> rfl

end

variable [DecidableEq T] [Inhabited T]

def insert (m : IndexedSocketMap T) (hash : T → UInt64) (id : SID) (value : T) :
    IndexedSocketMap T :=
  ((m.release hash id).store id value).assign hash id value

@[simp]
theorem insert_mData (m : IndexedSocketMap T) (hash : T → UInt64) (id : SID) (value : T) :
    (m.insert hash id value).mData = (m.store id value).mData := by
  rw [insert, assign_mData, store, release_mData, store]

variable {m : IndexedSocketMap T} {hash : T → UInt64}

theorem Indexed.isKey_iff (hm : m.Indexed) {value : T} {entry : IndexEntry T}
    (hentry : entry ∈ m.reverseMap) : m.isKey hash value entry = true ↔ entry.filed = value := by
  rw [isKey, decide_eq_true_iff, (hm.filed entry hentry).2, Option.some.injEq]
  constructor
  · exact fun hkey => hkey.2
  · intro hfiled
    rw [hfiled]
    exact ⟨rfl, rfl⟩

/-- Two entries filed under one value are the same. -/
theorem Indexed.eq_of_filed (hm : m.Indexed) {entry other : IndexEntry T}
    (hentry : entry ∈ m.reverseMap) (hother : other ∈ m.reverseMap)
    (hfiled : entry.filed = other.filed) : entry = other := by
  have hsymm : Std.Symm fun entry other : IndexEntry T => entry.filed ≠ other.filed :=
    ⟨fun _ _ hne => hne.symm⟩
  by_contra hne
  exact hm.unique.forall hentry hother hne hfiled

theorem Indexed.find_eq_some_iff (hm : m.Indexed) {value : T} {entry : IndexEntry T} :
    m.find hash value = some entry ↔ entry ∈ m.reverseMap ∧ entry.filed = value := by
  constructor
  · intro hfind
    have hmem := List.mem_of_find?_eq_some hfind
    exact ⟨hmem, (hm.isKey_iff hmem).mp (List.find?_some hfind)⟩
  · rintro ⟨hmem, hfiled⟩
    cases hfind : m.find hash value with
    | none =>
        have hnot := List.find?_eq_none.mp hfind entry hmem
        exact absurd ((hm.isKey_iff hmem).mpr hfiled) hnot
    | some other =>
        have hother := List.mem_of_find?_eq_some hfind
        have hfiledOther := (hm.isKey_iff hother).mp (List.find?_some hfind)
        rw [hm.eq_of_filed hother hmem (hfiledOther.trans hfiled.symm)]

theorem Indexed.contains_iff (hm : m.Indexed) {value : T} :
    m.contains hash value = true ↔ ∃ entry ∈ m.reverseMap, entry.filed = value := by
  rw [contains, Option.isSome_iff_exists]
  exact exists_congr fun entry => hm.find_eq_some_iff

theorem Indexed.getSID_eq_some_iff (hm : m.Indexed) {value : T} {id : SID} :
    m.getSID hash value = some id ↔ ⟨id, value, id⟩ ∈ m.reverseMap := by
  rw [getSID, Option.map_eq_some_iff]
  constructor
  · rintro ⟨⟨slot, filed, sid⟩, hfind, rfl⟩
    obtain ⟨hmem, rfl⟩ := hm.find_eq_some_iff.mp hfind
    have hslot : sid = slot := (hm.filed _ hmem).1
    rw [← hslot] at hmem
    exact hmem
  · exact fun hmem => ⟨_, hm.find_eq_some_iff.mpr ⟨hmem, rfl⟩, rfl⟩

/-- What is not a default value is found exactly where it is. -/
theorem Indexed.getSID_iff (hm : m.Indexed) {value : T} (hvalue : value ≠ default) {id : SID} :
    m.getSID hash value = some id ↔ m.mData[id]? = some value := by
  rw [hm.getSID_eq_some_iff]
  constructor
  · exact fun hmem => (hm.filed _ hmem).2
  · exact fun hget => hm.complete id value hget hvalue

theorem Indexed.contains_iff_getSID (hm : m.Indexed) {value : T} (hvalue : value ≠ default) :
    m.contains hash value = true ↔ ∃ id : SID, m.mData[id]? = some value := by
  rw [hm.contains_iff]
  constructor
  · rintro ⟨entry, hmem, rfl⟩
    exact ⟨entry.slot, (hm.filed entry hmem).2⟩
  · rintro ⟨id, hget⟩
    exact ⟨⟨id, value, id⟩, hm.complete id value hget hvalue, rfl⟩

/-- The map as what it is for: a partial bijection between socket ids and
values other than the default. -/
def directory (m : IndexedSocketMap T) (hash : T → UInt64) (hm : m.Indexed) : SID ≃. T where
  toFun id := m.mData[id]?.filter (· ≠ default)
  invFun value := if value = default then none else m.getSID hash value
  inv := by
    intro id value
    rw [Option.filter_eq_some_iff, decide_eq_true_iff]
    by_cases hvalue : value = default
    · rw [if_pos hvalue]
      constructor
      · intro hnone
        cases hnone
      · exact fun hboth => absurd hvalue hboth.2
    · rw [if_neg hvalue, hm.getSID_iff hvalue]
      exact (and_iff_left hvalue).symm

theorem directory_eq_some_iff (hm : m.Indexed) {id : SID} {value : T} :
    m.directory hash hm id = some value ↔ m.mData[id]? = some value ∧ value ≠ default := by
  change m.mData[id]?.filter (· ≠ default) = some value ↔ _
  rw [Option.filter_eq_some_iff, decide_eq_true_iff]

/-- No two elements hold one value that is not the default. -/
theorem Indexed.id_unique (hm : m.Indexed) (hash : T → UInt64) {id other : SID} {value : T}
    (hvalue : value ≠ default) (hid : m.mData[id]? = some value)
    (hother : m.mData[other]? = some value) : id = other :=
  (m.directory hash hm).inj ((directory_eq_some_iff hm).mpr ⟨hid, hvalue⟩)
    ((directory_eq_some_iff hm).mpr ⟨hother, hvalue⟩)

/-- Taking out the first element is taking out every one, if no two qualify. -/
theorem eraseP_eq_filter {α : Type u} {p : α → Bool} {xs : List α}
    (hxs : xs.Pairwise fun a b => ¬ (p a = true ∧ p b = true)) :
    xs.eraseP p = xs.filter fun a => !p a := by
  induction xs with
  | nil => rfl
  | cons a xs ih =>
      obtain ⟨hhead, htail⟩ := List.pairwise_cons.mp hxs
      by_cases ha : p a = true
      · have hrest : xs.filter (fun b => !p b) = xs := by
          rw [List.filter_eq_self]
          intro b hb
          simpa [ha] using hhead b hb
        simp [ha, hrest]
      · simp [ha, ih htail]

theorem Indexed.mem_erase (hm : m.Indexed) {value : T} {entry : IndexEntry T} :
    entry ∈ (m.erase hash value).reverseMap ↔
      entry ∈ m.reverseMap ∧ entry.filed ≠ value := by
  have hpair : m.reverseMap.Pairwise fun a b =>
      ¬ (m.isKey hash value a = true ∧ m.isKey hash value b = true) := by
    refine hm.unique.imp_of_mem ?_
    rintro a b ha hb hne ⟨hka, hkb⟩
    rw [hm.isKey_iff ha] at hka
    rw [hm.isKey_iff hb] at hkb
    exact hne (hka.trans hkb.symm)
  rw [erase, eraseP_eq_filter hpair, List.mem_filter]
  constructor
  · rintro ⟨hmem, hkey⟩
    refine ⟨hmem, fun hfiled => ?_⟩
    rw [(hm.isKey_iff hmem).mpr hfiled] at hkey
    cases hkey
  · rintro ⟨hmem, hfiled⟩
    refine ⟨hmem, ?_⟩
    rw [Bool.not_eq_true', ← Bool.not_eq_true, hm.isKey_iff hmem]
    exact hfiled

/-- An element that holds no other value than the default is the only one that
can lose its entry along with the element overwritten. -/
theorem Indexed.mem_release (hm : m.Indexed) {id : SID} {entry : IndexEntry T} :
    entry ∈ (m.release hash id).reverseMap ↔
      entry ∈ m.reverseMap ∧ m.mData[id]? ≠ some entry.filed := by
  rw [release]
  cases hold : m.mData[id]? with
  | none => simp
  | some oldVal =>
      simp only [hm.mem_erase, ne_eq, Option.some.injEq]
      rw [eq_comm (a := oldVal)]

/-- What is released is the entry of the element itself, if that is in the index. -/
theorem Indexed.slot_ne_of_release (hm : m.Indexed) {id : SID} {entry : IndexEntry T}
    (hentry : entry ∈ (m.release hash id).reverseMap) : entry.slot ≠ id := by
  rintro rfl
  obtain ⟨hmem, hne⟩ := hm.mem_release.mp hentry
  exact hne (hm.filed entry hmem).2

/-- A value that is not in the index gets an entry of its own. -/
theorem Indexed.insert_reverseMap (hm : m.Indexed) {value : T}
    (hfree : m.contains hash value = false) (id : SID) :
    (m.insert hash id value).reverseMap =
      ⟨id, value, id⟩ :: (m.release hash id).reverseMap := by
  have hnone : ((m.release hash id).store id value).find hash value = none := by
    rw [find, List.find?_eq_none]
    intro entry hentry hkey
    have hmem := (hm.mem_release.mp hentry).1
    rw [isKey, decide_eq_true_iff, store_getElem?, if_neg (hm.slot_ne_of_release hentry),
      release_mData, (hm.filed entry hmem).2,
      if_pos (List.getElem?_eq_some_iff.mp (hm.filed entry hmem).2).1,
      Option.some.injEq] at hkey
    have hthere : m.contains hash value = true := hm.contains_iff.mpr ⟨entry, hmem, hkey.2⟩
    rw [hfree] at hthere
    cases hthere
  rw [insert, assign, hnone]
  rfl

/-- Storing a value that is not in the index keeps the index exact. -/
theorem Indexed.insert (hm : m.Indexed) {value : T} (hfree : m.contains hash value = false)
    (id : SID) : (m.insert hash id value).Indexed := by
  have hother : ∀ entry ∈ (m.release hash id).reverseMap, entry.filed ≠ value := by
    intro entry hentry hfiled
    have hthere : m.contains hash value = true :=
      hm.contains_iff.mpr ⟨entry, (hm.mem_release.mp hentry).1, hfiled⟩
    rw [hfree] at hthere
    cases hthere
  constructor
  · intro entry hentry
    rw [hm.insert_reverseMap hfree] at hentry
    rw [insert_mData, store_getElem?]
    rcases List.mem_cons.mp hentry with rfl | hentry
    · exact ⟨rfl, if_pos rfl⟩
    · obtain ⟨hsid, hget⟩ := hm.filed entry (hm.mem_release.mp hentry).1
      rw [if_neg (hm.slot_ne_of_release hentry),
        if_pos (List.getElem?_eq_some_iff.mp hget).1]
      exact ⟨hsid, hget⟩
  · rw [hm.insert_reverseMap hfree, List.pairwise_cons]
    refine ⟨fun entry hentry => (hother entry hentry).symm, ?_⟩
    rw [release]
    cases m.mData[id]? with
    | none => exact hm.unique
    | some oldVal => exact hm.unique.sublist (List.eraseP_sublist ..)
  · intro i v hget hv
    rw [hm.insert_reverseMap hfree]
    rw [insert_mData, store_getElem?] at hget
    by_cases hi : i = id
    · rw [if_pos hi, Option.some.injEq] at hget
      rw [hi, hget]
      exact List.mem_cons_self
    · rw [if_neg hi] at hget
      by_cases hlt : i < m.mData.length
      · rw [if_pos hlt] at hget
        have hmem := hm.complete i v hget hv
        refine List.mem_cons_of_mem _ (hm.mem_release.mpr ⟨hmem, fun hsame => ?_⟩)
        have hself := hm.complete id v hsame hv
        exact hi (congrArg IndexEntry.slot (hm.eq_of_filed hmem hself rfl))
      · rw [if_neg hlt] at hget
        split at hget
        · exact absurd (Option.some.inj hget).symm hv
        · cases hget

end IndexedSocketMap

end LeakyChat

import GeodeNative.Proofs.Cache.WithoutChecks

/-!
# A segment that nothing tracks

Without concurrency checks and without trackers a segment is a plain hash map: `Plain`. Every bound
entry is untracked, holds a live value and has an address that was given out. The lemmas give the
complete result of each operation on such a segment, for a key that is unbound and for a key that
is bound, and say what the operation changes (`Changes`). A caller that tracks nothing passes a
negative update count, and the map with eviction also 0. With another count `create` and `put` are
refused; `remove` is not treated there, since it unbinds the key and reports that it did not.
-/

set_option autoImplicit false

namespace GeodeNative.Cache.MapSegment

variable {K V D M : Type}

/-- `s'` is `s` with these bindings and this next address. The counters of the hash table may
differ. -/
structure Changes (s s' : MapSegment K V) (map : AList fun _ : K => MapEntry K V) (nextAddr : Nat) :
    Prop where
  map : s'.map = map
  nextAddr : s'.nextAddr = nextAddr
  flag : s'.concurrencyChecksEnabled = s.concurrencyChecksEnabled
  trackers : s'.numDestroyTrackers = s.numDestroyTrackers

/-- The entry that is made for a key. -/
def fresh (addr : Nat) (k : K) (v : CacheablePtr V) : MapEntryImpl K V :=
  (MapEntryImpl.newMapEntry addr k).setValueI v

variable {o : MapEntryImpl K V} {s s' : MapSegment K V}

/-- The test for the token that stands for a value on disk. -/
theorem isOverflowed_iff (v : CacheablePtr V) :
    v.isOverflowed = true ↔ v = .token .overflowed := by
  cases v with
  | token t => cases t <;> simp [CacheablePtr.isOverflowed]
  | _ => simp [CacheablePtr.isOverflowed]

/-- An entry whose value is on disk is live. -/
theorem liveValue_overflowed : LiveValue (.token .overflowed : CacheablePtr V) :=
  ⟨(nomatch ·), (nomatch ·), (nomatch ·)⟩

/-- The load check changes the counters of the hash table alone. -/
theorem Changes.rehashIfNeeded [DecidableEq K] (s : MapSegment K V) :
    Changes s s.rehashIfNeeded s.map s.nextAddr := by
  obtain ⟨_, _, h⟩ := rehashIfNeeded_eq s
  rw [h]
  exact ⟨rfl, rfl, rfl, rfl⟩

/-- One change after another has the bindings of the second. -/
theorem Changes.trans {s s' s'' : MapSegment K V} {map map' : AList fun _ : K => MapEntry K V}
    {a a' : Nat} (h : Changes s s' map a) (h' : Changes s' s'' map' a') : Changes s s'' map' a' :=
  ⟨h'.map, h'.nextAddr, h'.flag.trans h.flag, h'.trackers.trans h.trackers⟩

variable [DecidableEq K]

/-- A segment without concurrency checks and without trackers. -/
structure Plain (s : MapSegment K V) : Prop where
  disabled : s.concurrencyChecksEnabled = false
  trackers : s.numDestroyTrackers = 0
  entries : ∀ k e, s.find k = some e →
    ∃ o, e = .impl o ∧ Untracked o ∧ LiveValue o.value ∧ o.addr < s.nextAddr

variable {a : Nat}

/-- The lookups after a change are those of the new bindings. -/
theorem Changes.find {map : AList fun _ : K => MapEntry K V} (h : Changes s s' map a) (k : K) :
    s'.find k = map.lookup k := by
  rw [MapSegment.find, h.map]

/-- One binding. -/
theorem Changes.bind (s : MapSegment K V) (k : K) (e : MapEntry K V) :
    Changes s (s.bind k e) (s.map.insert k e) s.nextAddr :=
  ⟨rfl, rfl, rfl, rfl⟩

/-- Of two bindings of a key the second one counts. -/
theorem Changes.bind_bind (s : MapSegment K V) (k : K) (e e' : MapEntry K V) :
    Changes s ((s.bind k e').bind k e) (s.map.insert k e) s.nextAddr :=
  ⟨AList.insert_insert s.map, rfl, rfl, rfl⟩

variable {k : K}

/-- A change that inserts a binding, as the lookups see it. -/
theorem setsAt_insert {e : MapEntry K V} (h : Changes s s' (s.map.insert k e) a) :
    SetsAt k (some e) s s' :=
  ⟨fun k' => (h.find k').trans (find_bind s k k' e), h.flag⟩

/-- A change that erases a binding, as the lookups see it. -/
theorem setsAt_erase (h : Changes s s' (s.map.erase k) a) : SetsAt k none s s' :=
  ⟨fun k' => (h.find k').trans (find_unbind s k k'), h.flag⟩

/-- A segment stays plain when an untracked entry with a live value is bound, at an address that
was given out before or with the change. -/
theorem Plain.insert (hs : Plain s) (h : Changes s s' (s.map.insert k (.impl o)) a)
    (ho : Untracked o) (hlive : LiveValue o.value) (haddr : o.addr < a) (hle : s.nextAddr ≤ a) :
    Plain s' where
  disabled := h.flag.trans hs.disabled
  trackers := h.trackers.trans hs.trackers
  entries k' e he := by
    rw [(setsAt_insert h).find] at he
    rw [h.nextAddr]
    by_cases hk : k' = k
    · rw [if_pos hk] at he
      cases he
      exact ⟨o, rfl, ho, hlive, haddr⟩
    · rw [if_neg hk] at he
      obtain ⟨o', rfl, ho', hlive', haddr'⟩ := hs.entries k' e he
      exact ⟨o', rfl, ho', hlive', by omega⟩

/-- A segment stays plain when a key is unbound. -/
theorem Plain.erase (hs : Plain s) (h : Changes s s' (s.map.erase k) s.nextAddr) :
    Plain s' where
  disabled := h.flag.trans hs.disabled
  trackers := h.trackers.trans hs.trackers
  entries k' e he := by
    rw [(setsAt_erase h).find] at he
    rw [h.nextAddr]
    by_cases hk : k' = k
    · rw [if_pos hk] at he
      cases he
    · rw [if_neg hk] at he
      exact hs.entries k' e he

/-- A segment stays plain when the bindings stay. -/
theorem Plain.same (hs : Plain s) (h : Changes s s' s.map s.nextAddr) :
    Plain s' where
  disabled := h.flag.trans hs.disabled
  trackers := h.trackers.trans hs.trackers
  entries k' e he := by
    rw [h.find] at he
    rw [h.nextAddr]
    exact hs.entries k' e he

/-- What is known of an entry that is found. -/
theorem Plain.entry (hs : Plain s) (hk : s.find k = some (.impl o)) :
    Untracked o ∧ LiveValue o.value ∧ o.addr < s.nextAddr := by
  obtain ⟨o', heq, h⟩ := hs.entries k _ hk
  cases heq
  exact h

section
variable (region : RegionInternal K V D M) {s : MapSegment K V} (hs : Plain s) (k : K)
  (v : CacheablePtr V) {updateCount : Int} (destroyTracker : Int) (tag : Option VersionTag)
include hs

/-- With a negative update count nothing aborts the insertion: the key is bound to a new entry at
the next address. -/
theorem putNoEntry_plain (hcount : updateCount < 0) (stamp : Option VersionStamp) :
    ∃ s', s.putNoEntry k v updateCount destroyTracker tag stamp =
        ((.noErr, some s.nextAddr), s') ∧
      Changes s s' (s.map.insert k (.impl (fresh s.nextAddr k v))) (s.nextAddr + 1) := by
  have haborts : s.putNoEntryAborts k updateCount destroyTracker = false := by
    simp only [putNoEntryAborts, hs.disabled, hs.trackers, gt_iff_lt, Int.lt_irrefl, and_false,
      decide_false, Bool.false_and, Bool.or_false, Bool.not_false, Bool.true_and,
      decide_eq_false_iff_not]
    omega
  have hentry : s.newEntry k v tag stamp = fresh s.nextAddr k v := by
    simp only [newEntry, hs.disabled, Bool.false_eq_true, if_false]
    rfl
  refine ⟨s.bindNew k v tag stamp, ?_, ?_, rfl, rfl, rfl⟩
  · rw [putNoEntry, haborts, if_neg Bool.false_ne_true]
  show AList.insert k (.impl (s.newEntry k v tag stamp)) s.map = _
  rw [hentry]

/-- The same behind the load check, with the change seen from the segment before it. -/
theorem putNoEntry_rehashed (hcount : updateCount < 0) :
    ∃ s', s.rehashIfNeeded.putNoEntry k v updateCount destroyTracker tag none =
        ((.noErr, some s.nextAddr), s') ∧
      Changes s s' (s.map.insert k (.impl (fresh s.nextAddr k v))) (s.nextAddr + 1) := by
  have hrehash := Changes.rehashIfNeeded s
  obtain ⟨s', heq, hchange⟩ :=
    putNoEntry_plain (hs.same hrehash) k v destroyTracker tag hcount none
  rw [hrehash.nextAddr] at heq
  rw [hrehash.map, hrehash.nextAddr] at hchange
  exact ⟨s', heq, hrehash.trans hchange⟩

/-- `create` of an unbound key binds a new entry. -/
theorem create_unbound (hk : s.find k = none) (hcount : updateCount < 0) :
    ∃ s', s.create region k v updateCount destroyTracker tag =
        (.ok { err := .noErr, me := some s.nextAddr }, s') ∧
      Changes s s' (s.map.insert k (.impl (fresh s.nextAddr k v))) (s.nextAddr + 1) := by
  obtain ⟨s', heq, hchange⟩ := putNoEntry_rehashed hs k v destroyTracker tag hcount
  exact ⟨s', by simp only [create, find_rehashIfNeeded, hk, heq], hchange⟩

/-- `put` of an unbound key binds a new entry. -/
theorem put_unbound (hk : s.find k = none) (hcount : updateCount < 0) :
    ∃ s', s.put region k v updateCount destroyTracker tag none =
        (.ok { err := .noErr, me := some s.nextAddr }, s') ∧
      Changes s s' (s.map.insert k (.impl (fresh s.nextAddr k v))) (s.nextAddr + 1) := by
  obtain ⟨s', heq, hchange⟩ := putNoEntry_rehashed hs k v destroyTracker tag hcount
  refine ⟨s', ?_, hchange⟩
  simp only [put, find_rehashIfNeeded, hk, heq, Option.isSome_none, Bool.false_eq_true, if_false]

variable {k} {o : MapEntryImpl K V} (hk : s.find k = some (.impl o))
include hk

/-- `create` of a bound key is refused, for every update count. -/
theorem create_bound (updateCount : Int) :
    ∃ s', s.create region k v updateCount destroyTracker tag =
        (.ok { err := .cacheEntryExists, oldValue := o.value }, s') ∧
      Changes s s' s.map s.nextAddr := by
  obtain ⟨ho, hlive, -⟩ := hs.entry hk
  refine ⟨_, ?_, Changes.rehashIfNeeded s⟩
  simp only [create, find_rehashIfNeeded, hk, withImplPtr_impl _ ho.weakThis,
    getValueI_of_live hlive, hlive.tests, Bool.false_eq_true, or_self, if_false]

/-- The update in place. A negative count goes through `incrementUpdateCount` and 0 through
`removeTracker`; on an untracked entry both leave the new value bound. -/
theorem putForTrackedEntry_plain (hlive : LiveValue v) (hcount : updateCount ≤ 0)
    (stamp : VersionStamp) :
    ∃ s', s.putForTrackedEntry region k v (.impl o) updateCount stamp none = (.ok .noErr, s') ∧
      Changes s s' (s.map.insert k (.impl (o.setValueI v))) s.nextAddr := by
  obtain ⟨ho, -, -⟩ := hs.entry hk
  have hobj := ho.setValueI v
  by_cases hneg : updateCount < 0
  · refine ⟨_, ?_, Changes.bind_bind s k _ (.impl (o.setValueI v))⟩
    simp only [putForTrackedEntry, if_pos (Or.inl hneg), updateObj, MapEntry.mapObj,
      MapEntry.obj, ne_eq, not_true_eq_false, if_false, hs.disabled, Bool.false_eq_true,
      incrementUpdateCount_untracked (s.bind k _) k hs.disabled hobj, Except.map]
  · have hzero : updateCount = 0 := by omega
    have hnull : (o.setValueI v).getValueI.isNull = false := by
      rw [getValueI_of_live (show LiveValue (o.setValueI v).value from hlive)]
      exact hlive.tests.1
    have hdis : (s.bind k (.impl (o.setValueI v))).concurrencyChecksEnabled = false := hs.disabled
    refine ⟨_, ?_, Changes.bind_bind s k _ (.impl (o.setValueI v))⟩
    simp only [putForTrackedEntry, hzero, Int.lt_irrefl, hs.disabled, Bool.false_eq_true, or_self,
      if_false, MapEntry.getUpdateCount, ho.updateCount, Int.ofNat_zero, if_true, MapEntry.mapObj,
      removeTracker, hdis, MapEntry.removeTracker, hobj.numTrackers, MapEntry.obj, hnull, and_false]

/-- `put` of a bound key replaces its value and returns the old one. -/
theorem put_bound (hlive : LiveValue v) (hcount : updateCount ≤ 0) :
    ∃ s', s.put region k v updateCount destroyTracker tag none =
        (.ok { err := .noErr, me := some o.addr, oldValue := o.value, isUpdate := true }, s') ∧
      Changes s s' (s.map.insert k (.impl (o.setValueI v))) s.nextAddr := by
  obtain ⟨ho, hold, -⟩ := hs.entry hk
  have hrehash := Changes.rehashIfNeeded s
  have hplain := hs.same hrehash
  obtain ⟨s', heq, hchange⟩ := putForTrackedEntry_plain region hplain v
    (by rw [find_rehashIfNeeded]; exact hk) hlive hcount {}
  rw [hrehash.map, hrehash.nextAddr] at hchange
  refine ⟨s', ?_, hrehash.trans hchange⟩
  simp only [put, find_rehashIfNeeded, hk, withImplPtr_impl _ ho.weakThis, getValueI_of_live hold,
    checkVersion_disabled region _ tag hplain.disabled, hold.tests, Bool.false_eq_true, if_false,
    heq, Except.map, if_true, Bool.not_false]

/-- With a positive update count `put` of a bound key is refused, since an untracked entry counts
0. -/
theorem put_bound_counted (hcount : 0 < updateCount) :
    ∃ s', s.put region k v updateCount destroyTracker tag none =
        (.ok { err := .cacheEntryUpdated }, s') ∧
      Changes s s' (s.map.insert k (.impl o)) s.nextAddr := by
  obtain ⟨ho, hold, -⟩ := hs.entry hk
  have hrehash := Changes.rehashIfNeeded s
  have hplain := hs.same hrehash
  have htracked : s.rehashIfNeeded.putForTrackedEntry region k v (.impl o) updateCount {} none =
      (.ok .cacheEntryUpdated, s.rehashIfNeeded.bind k (.impl o)) := by
    have hne : ¬updateCount = 0 := by omega
    have hpos : ¬updateCount < 0 := by omega
    simp only [putForTrackedEntry, hpos, hplain.disabled, Bool.false_eq_true, or_self, if_false,
      MapEntry.getUpdateCount, ho.updateCount, Int.ofNat_zero, hne, removeTracker,
      MapEntry.removeTracker, ho.numTrackers, if_true, MapEntry.obj, getValueI_of_live hold,
      hold.tests, and_false]
  have hbind := Changes.bind s.rehashIfNeeded k (.impl o)
  rw [hrehash.map, hrehash.nextAddr] at hbind
  refine ⟨_, ?_, hrehash.trans hbind⟩
  simp only [put, find_rehashIfNeeded, hk, withImplPtr_impl _ ho.weakThis, getValueI_of_live hold,
    checkVersion_disabled region _ tag hplain.disabled, hold.tests, Bool.false_eq_true, if_false,
    htracked, Except.map, reduceCtorEq]

/-- `invalidate` of a bound key stores the invalid token. -/
theorem invalidate_bound :
    ∃ s', s.invalidate region k tag =
        (.ok { err := .noErr, me := some o.addr, oldValue := o.value }, s') ∧
      Changes s s' (s.map.insert k (.impl (o.setValueI (.token .invalid)))) s.nextAddr := by
  obtain ⟨ho, hold, -⟩ := hs.entry hk
  have hobj := ho.setValueI (.token .invalid)
  refine ⟨_, ?_, Changes.bind_bind s k _ (.impl (o.setValueI (.token .invalid)))⟩
  simp only [invalidate, hk, checkVersion_disabled region s tag hs.disabled,
    withImplPtr_impl _ ho.weakThis, getValueI_of_live hold, hold.tests, Bool.false_eq_true,
    if_false, hs.disabled, MapEntry.mapObj,
    incrementUpdateCount_untracked (s.bind k _) k hs.disabled hobj, Except.map]

/-- `remove` of a bound key unbinds it and returns the old value. -/
theorem remove_bound (hcount : updateCount ≤ 0) (afterRemote : Bool) :
    s.remove region k updateCount tag afterRemote =
      (.ok { err := .noErr, me := some o.addr, oldValue := o.value }, s.unbind k) := by
  obtain ⟨ho, hold, -⟩ := hs.entry hk
  have hsame : ¬(updateCount ≥ 0 ∧ updateCount ≠ ((MapEntry.impl o).getUpdateCount : Int)) := by
    rw [MapEntry.getUpdateCount, ho.updateCount]
    omega
  simp only [remove, hs.disabled, Bool.false_eq_true, if_false, hk, if_neg hsame,
    withImplPtr_impl _ ho.weakThis, getValueI_of_live hold, hold.tests]

/-- A bound key has its entry. -/
theorem getEntry_bound : s.getEntry k = .ok (some o) := by
  obtain ⟨ho, hold, -⟩ := hs.entry hk
  simp only [getEntry, hk, getImplPtr_impl ho.weakThis, getValueI_of_live hold, hold.tests,
    Bool.false_eq_true, or_self, if_false]

end

section
variable (region : RegionInternal K V D M) {s : MapSegment K V} (hs : Plain s) {k : K}
  (hk : s.find k = none) (tag : Option VersionTag)
include hs hk

/-- `invalidate` of an unbound key finds nothing and changes nothing. -/
theorem invalidate_unbound :
    s.invalidate region k tag = (.ok { err := .cacheEntryNotFound }, s) := by
  simp only [invalidate, hk, hs.disabled, Bool.false_eq_true, if_false]

/-- `remove` of an unbound key finds nothing. Nothing tracks destroys, so it is not recorded. -/
theorem remove_unbound (updateCount : Int) (afterRemote : Bool) :
    s.remove region k updateCount tag afterRemote = (.ok { err := .cacheEntryNotFound }, s) := by
  have hidle : ¬s.numDestroyTrackers > 0 := by
    rw [hs.trackers]
    decide
  simp only [remove, if_neg (Bool.eq_false_iff.mp hs.disabled), hk, if_neg hidle]

omit hs in
/-- An unbound key has no entry. -/
theorem getEntry_unbound : s.getEntry k = .ok none := by
  simp only [getEntry, hk]

end

/-- A new segment is plain. -/
theorem plain_open (primeIndex : Nat) :
    Plain (MapSegment.open primeIndex false : MapSegment K V) where
  disabled := rfl
  trackers := rfl
  entries k e he := by
    rw [show (MapSegment.open primeIndex false : MapSegment K V).find k = none from rfl] at he
    cases he

end GeodeNative.Cache.MapSegment

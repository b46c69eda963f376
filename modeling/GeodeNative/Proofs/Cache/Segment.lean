import GeodeNative.Cache.ConcurrentEntriesMap

/-!
# What each segment operation does

The lemmas of this module say once what an operation of `MapSegment` can do. The proofs about
runs use them and do not unfold the operations.

The first part has the lookups after the elementary updates (`bind`, `unbind`, the updates of
the tombstone list and of its tasks). The second part is for a segment with concurrency
checks. There every bound entry is `Healthy`: it is a `MapEntryImpl` that placement new never
touched. `create_cases`, `put_cases`, `invalidate_cases` and `remove_cases` list the results
and the states of an operation on such a segment. The states have names: `bindNew`,
`writeInPlace`, `replaceTombstone`, `buryInPlace` and `buryNew`.
-/

set_option autoImplicit false

namespace GeodeNative.Cache.MapSegment

variable {K V D M : Type} {o : MapEntryImpl K V}

/-- An entry that placement new never touched can be shared. -/
theorem getImplPtr_impl (hweak : o.weakThis = true) : (MapEntry.impl o).getImplPtr = .ok o := by
  rw [MapEntry.getImplPtr, MapEntryImpl.sharedFromThis, if_pos hweak]

/-- A shared pointer is one to the object of the entry. -/
theorem getImplPtr_ok {entry : MapEntry K V} {e : MapEntryImpl K V}
    (h : entry.getImplPtr = .ok e) : entry.obj = e := by
  cases entry with
  | impl o =>
    simp only [MapEntry.getImplPtr, MapEntryImpl.sharedFromThis] at h
    split at h
    · cases h
      rfl
    · cases h
  | tracked o n u =>
    cases h
    rfl

/-! ### Values -/

/-- The test for the null pointer. -/
@[simp] theorem isNull_iff (v : CacheablePtr V) : v.isNull = true ↔ v = .null := by
  cases v <;> simp [CacheablePtr.isNull]

/-- The test for the tombstone token. -/
@[simp] theorem isTombstone_iff (v : CacheablePtr V) :
    v.isTombstone = true ↔ v = .token .tombstone := by
  cases v with
  | token t => cases t <;> simp [CacheablePtr.isTombstone]
  | _ => simp [CacheablePtr.isTombstone]

/-- The test for the destroyed token. -/
@[simp] theorem isDestroyed_iff (v : CacheablePtr V) :
    v.isDestroyed = true ↔ v = .token .destroyed := by
  cases v with
  | token t => cases t <;> simp [CacheablePtr.isDestroyed]
  | _ => simp [CacheablePtr.isDestroyed]

/-- `getValueI` hides the destroyed token, never a tombstone. -/
@[simp] theorem getValueI_eq_tombstone_iff (o : MapEntryImpl K V) :
    o.getValueI = .token .tombstone ↔ o.value = .token .tombstone := by
  unfold MapEntryImpl.getValueI
  split
  · rename_i h
    rw [isDestroyed_iff] at h
    simp [h]
  · rfl

/-- A value that an entry of the application holds: not null, destroyed or a tombstone. -/
def LiveValue (v : CacheablePtr V) : Prop :=
  v ≠ .null ∧ v ≠ .token .destroyed ∧ v ≠ .token .tombstone

/-- The test that the operations make: the value as `getValueI` has it is not null and not a
tombstone. -/
theorem liveValue_iff (o : MapEntryImpl K V) :
    LiveValue o.value ↔ ¬ (o.getValueI.isNull = true ∨ o.getValueI.isTombstone = true) := by
  unfold MapEntryImpl.getValueI LiveValue
  by_cases h : o.value = .token .destroyed
  · simp [h]
  · have hd : ¬ o.value.isDestroyed = true := by simpa using h
    simp [h, not_or]

/-- `getValueI` has a live value as it is. -/
theorem getValueI_of_live (hlive : LiveValue o.value) : o.getValueI = o.value := by
  unfold MapEntryImpl.getValueI
  rw [if_neg]
  intro hdestroyed
  exact hlive.2.1 ((isDestroyed_iff _).mp hdestroyed)

/-- What the tests answer for a live value. -/
theorem LiveValue.tests {v : CacheablePtr V} (hlive : LiveValue v) :
    v.isNull = false ∧ v.isTombstone = false := by
  rw [Bool.eq_false_iff, Bool.eq_false_iff, ne_eq, ne_eq, isNull_iff, isTombstone_iff]
  exact ⟨hlive.1, hlive.2.2⟩

/-- An object is a live value. -/
theorem liveValue_object (v : V) : LiveValue (.object v : CacheablePtr V) :=
  ⟨(nomatch ·), (nomatch ·), (nomatch ·)⟩

/-- The invalid token is a live value. -/
theorem liveValue_invalid : LiveValue (.token .invalid : CacheablePtr V) :=
  ⟨(nomatch ·), (nomatch ·), (nomatch ·)⟩

/-! ### Without lookups -/

/-- An entry that placement new never touched, bound at its own key. -/
def Healthy (k : K) (e : MapEntry K V) : Prop :=
  ∃ o, e = .impl o ∧ o.weakThis = true ∧ o.key = some k

/-- A binding to an entry with these two properties is healthy. -/
theorem healthy_impl {k : K} (hweak : o.weakThis = true) (hkey : o.key = some k) :
    ∀ e, some (MapEntry.impl o) = some e → Healthy k e := by
  rintro _ ⟨⟩
  exact ⟨o, rfl, hweak, hkey⟩

section Plain

variable (region : RegionInternal K V D M) (s : MapSegment K V) (tag : Option VersionTag)

/-- The new map has the bindings of the old one. -/
theorem rehash_entries [DecidableEq K] (map : AList fun _ : K => MapEntry K V) :
    rehash map.entries = map := by
  obtain ⟨entries, hnodup⟩ := map
  induction entries with
  | nil => rfl
  | cons entry entries ih =>
    obtain ⟨hnew, hrest⟩ := List.nodupKeys_cons.mp hnodup
    have hcopy : rehash (entry :: entries) = AList.insert entry.1 entry.2 ⟨entries, hrest⟩ := by
      rw [← ih hrest]
      rfl
    exact hcopy.trans (AList.ext (AList.entries_insert_of_notMem hnew))

/-- The load check changes no more than the index of the prime and the number of rehashes. -/
theorem rehashIfNeeded_eq [DecidableEq K] :
    ∃ primeIndex rehashCount, s.rehashIfNeeded =
      { s with primeIndex := primeIndex, rehashCount := rehashCount } := by
  unfold rehashIfNeeded
  rw [rehash_entries]
  split
  · split
    · exact ⟨_, _, rfl⟩
    · exact ⟨s.primeIndex, s.rehashCount, rfl⟩
  · exact ⟨s.primeIndex, s.rehashCount, rfl⟩

/-- The load check keeps the mode. -/
@[simp] theorem concurrencyChecksEnabled_rehashIfNeeded [DecidableEq K] :
    s.rehashIfNeeded.concurrencyChecksEnabled = s.concurrencyChecksEnabled := by
  obtain ⟨_, _, h⟩ := rehashIfNeeded_eq s
  rw [h]

/-- The object of an entry that can be shared is handed on. -/
theorem withImplPtr_impl {α : Type} (hweak : o.weakThis = true)
    (f : MapEntryImpl K V → Except CacheException α × MapSegment K V) :
    s.withImplPtr (.impl o) f = f o := by
  rw [withImplPtr, getImplPtr_impl hweak]

/-- A version check that fails has an error code. -/
theorem checkVersion_error {e : MapEntry K V} {deltaCheck : Bool} {err : GfErrType}
    (h : s.checkVersion region e tag deltaCheck = .error err) : err ≠ .noErr := by
  unfold checkVersion at h
  split at h
  · cases tag with
    | none => cases h
    | some tag =>
      simp only at h
      split at h
      · rename_i hne
        cases h
        exact hne
      · cases h
  · cases h

/-- The version check does not depend on the load check. -/
@[simp] theorem checkVersion_rehashIfNeeded [DecidableEq K] (e : MapEntry K V)
    (deltaCheck : Bool) :
    s.rehashIfNeeded.checkVersion region e tag deltaCheck =
      s.checkVersion region e tag deltaCheck := by
  simp only [checkVersion, concurrencyChecksEnabled_rehashIfNeeded]

end Plain

variable [DecidableEq K]

/-! ### Lookups after the elementary updates -/

section Elementary

variable (s : MapSegment K V) (k k' : K) (e : MapEntry K V) (id : Nat)

/-- The lookups after a binding. -/
theorem find_bind : (s.bind k e).find k' = if k' = k then some e else s.find k' := by
  simp only [find, MapSegment.bind]
  by_cases h : k' = k
  · subst h
    simp
  · simp [h, AList.lookup_insert_ne h]

/-- The key that is bound has the entry. -/
@[simp] theorem find_bind_self : (s.bind k e).find k = some e := by
  simp [find_bind]

/-- The lookups after an unbinding. -/
theorem find_unbind : (s.unbind k).find k' = if k' = k then none else s.find k' := by
  simp only [find, unbind]
  by_cases h : k' = k
  · subst h
    simp
  · simp [h, AList.lookup_erase_ne h]

/-- The load check keeps the lookups. -/
@[simp] theorem find_rehashIfNeeded : s.rehashIfNeeded.find k = s.find k := by
  obtain ⟨_, _, h⟩ := rehashIfNeeded_eq s
  rw [h]
  rfl

/-- The task of the tombstone of `k`, if `k` is in the tombstone list. -/
def taskOf : Option Nat := (s.tombstoneList.lookup k).map (·.expiryTaskId)

/-- Erasing a key without a tombstone changes nothing. -/
theorem erase_of_notMem (h : k ∉ s.tombstoneList) : s.tombstoneList.erase k = s.tombstoneList :=
  AList.ext (List.kerase_of_notMem_keys h)

/-- A tombstone is erased and its task, if any, is cancelled. -/
theorem eraseEntryFromTombstoneList_true :
    s.eraseEntryFromTombstoneList k true =
      { s.cancelTask? (s.taskOf k) with tombstoneList := s.tombstoneList.erase k } := by
  unfold eraseEntryFromTombstoneList taskOf cancelTask?
  cases h : s.tombstoneList.lookup k with
  | none => simp [erase_of_notMem s k (AList.lookup_eq_none.mp h)]
  | some t => rfl

/-- Removing an entry keeps the mode. -/
theorem flag_withoutCancelTask :
    (s.unguardedRemoveActualEntryWithoutCancelTask k).2.concurrencyChecksEnabled =
      s.concurrencyChecksEnabled := by
  simp only [unguardedRemoveActualEntryWithoutCancelTask,
    eraseEntryFromTombstoneListWithoutCancelTask, unbind]
  split <;> rfl

end Elementary

/-! ### Changing the binding of one key -/

/-- `s'` is `s` with the binding of `k` changed to `x`, as far as lookups see it. -/
structure SetsAt (k : K) (x : Option (MapEntry K V)) (s s' : MapSegment K V) : Prop where
  find : ∀ k', s'.find k' = if k' = k then x else s.find k'
  flag : s'.concurrencyChecksEnabled = s.concurrencyChecksEnabled

namespace SetsAt

variable {s s' s'' : MapSegment K V} {k k' : K} {x y : Option (MapEntry K V)}

/-- The key has the new binding. -/
theorem find_self (h : SetsAt k x s s') : s'.find k = x := by
  rw [h.find, if_pos rfl]

/-- Another key keeps its binding. -/
theorem find_ne (h : SetsAt k x s s') (hne : k' ≠ k) : s'.find k' = s.find k' := by
  rw [h.find, if_neg hne]

theorem trans (h : SetsAt k x s s') (h' : SetsAt k y s' s'') : SetsAt k y s s'' where
  find k' := by
    rw [h'.find, h.find]
    split <;> rfl
  flag := by rw [h'.flag, h.flag]

theorem refl (s : MapSegment K V) (k : K) : SetsAt k (s.find k) s s where
  find k' := by
    split
    · rename_i h
      rw [h]
    · rfl
  flag := rfl

theorem bind (s : MapSegment K V) (k : K) (e : MapEntry K V) :
    SetsAt k (some e) s (s.bind k e) where
  find k' := find_bind s k k' e
  flag := rfl

theorem unbind (s : MapSegment K V) (k : K) : SetsAt k none s (s.unbind k) where
  find k' := find_unbind s k k'
  flag := rfl

theorem same (h : s.find k = x) : SetsAt k x s s := h ▸ refl s k

theorem rehashIfNeeded (h : s.find k = x) : SetsAt k x s s.rehashIfNeeded where
  find k' := by
    rw [find_rehashIfNeeded]
    exact (same h).find k'
  flag := by simp

theorem withoutCancelTask (s : MapSegment K V) (k : K) :
    SetsAt k none s (s.unguardedRemoveActualEntryWithoutCancelTask k).2 where
  find k' := by
    simp only [unguardedRemoveActualEntryWithoutCancelTask,
      eraseEntryFromTombstoneListWithoutCancelTask]
    split <;> exact find_unbind _ _ _
  flag := flag_withoutCancelTask s k

theorem cancelTask? (h : SetsAt k x s s') (task : Option Nat) :
    SetsAt k x s (s'.cancelTask? task) := by
  cases task <;> exact ⟨h.find, h.flag⟩

theorem addTombstone (h : SetsAt k x s s') (o : MapEntryImpl K V) (task : Nat) :
    SetsAt k x s (s'.addTombstone o task) := by
  unfold MapSegment.addTombstone
  cases o.key <;> exact ⟨h.find, h.flag⟩

theorem erase (h : s.find k = x) (cancel : Bool) :
    SetsAt k x s (s.eraseEntryFromTombstoneList k cancel) := by
  have hsame := same h
  unfold eraseEntryFromTombstoneList
  split
  · cases cancel <;> exact ⟨hsame.find, hsame.flag⟩
  · exact hsame

end SetsAt

/-! ### What a write of one key can change -/

/-- `s'` is `s` but for the binding of `k`, the tombstones with their tasks and the next address. -/
structure OnlyAt (k : K) (s s' : MapSegment K V) : Prop where
  find : ∀ k' ≠ k, s'.find k' = s.find k'
  primeIndex : s'.primeIndex = s.primeIndex
  destroyedKeys : s'.destroyedKeys = s.destroyedKeys
  numDestroyTrackers : s'.numDestroyTrackers = s.numDestroyTrackers
  flag : s'.concurrencyChecksEnabled = s.concurrencyChecksEnabled

namespace OnlyAt

variable {s s' s'' : MapSegment K V} {k : K}

theorem refl (s : MapSegment K V) : OnlyAt k s s := ⟨fun _ _ => rfl, rfl, rfl, rfl, rfl⟩

theorem trans (h : OnlyAt k s s') (h' : OnlyAt k s' s'') : OnlyAt k s s'' :=
  ⟨fun k' hk => (h'.find k' hk).trans (h.find k' hk), h'.primeIndex.trans h.primeIndex,
    h'.destroyedKeys.trans h.destroyedKeys, h'.numDestroyTrackers.trans h.numDestroyTrackers,
    h'.flag.trans h.flag⟩

variable (s k)

theorem bind (e : MapEntry K V) : OnlyAt k s (s.bind k e) :=
  ⟨fun _ hk => (SetsAt.bind s k e).find_ne hk, rfl, rfl, rfl, rfl⟩

theorem unbind : OnlyAt k s (s.unbind k) :=
  ⟨fun _ hk => (SetsAt.unbind s k).find_ne hk, rfl, rfl, rfl, rfl⟩

theorem cancelTask? (task : Option Nat) : OnlyAt k s (s.cancelTask? task) := by
  cases task <;> exact ⟨fun _ _ => rfl, rfl, rfl, rfl, rfl⟩

theorem eraseEntryFromTombstoneList (cancel : Bool) :
    OnlyAt k s (s.eraseEntryFromTombstoneList k cancel) := by
  unfold MapSegment.eraseEntryFromTombstoneList
  split
  · cases cancel <;> exact ⟨fun _ _ => rfl, rfl, rfl, rfl, rfl⟩
  · exact refl s

theorem withoutCancelTask : OnlyAt k s (s.unguardedRemoveActualEntryWithoutCancelTask k).2 := by
  refine ⟨fun _ hk => (SetsAt.withoutCancelTask s k).find_ne hk, ?_, ?_, ?_, ?_⟩ <;>
    simp only [unguardedRemoveActualEntryWithoutCancelTask,
      eraseEntryFromTombstoneListWithoutCancelTask] <;>
    split <;> rfl

theorem incrementUpdateCount (e : MapEntry K V) : OnlyAt k s (s.incrementUpdateCount k e).2 := by
  unfold MapSegment.incrementUpdateCount
  split
  · exact refl s
  · split
    · exact refl s
    · exact bind s k _

theorem removeTracker (e : MapEntry K V) : OnlyAt k s (s.removeTracker k e) := by
  simp only [MapSegment.removeTracker]
  split
  · exact refl s
  · split
    · exact unbind s k
    · split <;> exact bind s k _

theorem withImplPtr {α : Type} (e : MapEntry K V)
    {f : MapEntryImpl K V → Except CacheException α × MapSegment K V}
    (h : ∀ o, OnlyAt k s (f o).2) : OnlyAt k s (s.withImplPtr e f).2 := by
  unfold MapSegment.withImplPtr
  split
  · exact refl s
  · exact h _

variable (region : RegionInternal K V D M) (v : CacheablePtr V) (updateCount destroyTracker : Int)
  (tag : Option VersionTag)

theorem putNoEntry (stamp : Option VersionStamp) :
    OnlyAt k s (s.putNoEntry k v updateCount destroyTracker tag stamp).2 := by
  unfold MapSegment.putNoEntry
  split
  · exact refl s
  · exact ⟨(bind s k _).find, rfl, rfl, rfl, rfl⟩

theorem putForTrackedEntry (e : MapEntry K V) (stamp : VersionStamp) (delta : Option D) :
    OnlyAt k s (s.putForTrackedEntry region k v e updateCount stamp delta).2 := by
  simp only [MapSegment.putForTrackedEntry]
  split
  · split
    · exact bind s k _
    · split
      · exact (eraseEntryFromTombstoneList s k true).trans (bind _ k _)
      · exact (bind s k _).trans (incrementUpdateCount _ k _)
  · split
    · exact (bind s k _).trans (removeTracker _ k _)
    · exact removeTracker s k e

/-- `create` behind the load check. -/
theorem create : OnlyAt k s.rehashIfNeeded
    (s.create region k v updateCount destroyTracker tag).2 := by
  simp only [MapSegment.create]
  split
  · exact putNoEntry _ k v updateCount destroyTracker tag none
  · apply withImplPtr
    intro o
    split
    · split
      · exact refl _
      · split
        · exact putForTrackedEntry _ k region v updateCount _ _ none
        · exact ((withoutCancelTask _ k).trans (putNoEntry _ k v updateCount destroyTracker tag
            _)).trans (cancelTask? _ k _)
    · exact refl _

/-- `put` behind the load check. -/
theorem put (delta : Option D) : OnlyAt k s.rehashIfNeeded
    (s.put region k v updateCount destroyTracker tag delta).2 := by
  simp only [MapSegment.put]
  split
  · split
    · exact refl _
    · exact putNoEntry _ k v updateCount destroyTracker tag none
  · apply withImplPtr
    intro o
    split
    · exact refl _
    · split
      · exact ((withoutCancelTask _ k).trans (putNoEntry _ k v updateCount destroyTracker tag
          _)).trans (cancelTask? _ k _)
      · exact putForTrackedEntry _ k region v updateCount _ _ delta

end OnlyAt

/-! ### The operations of a segment with concurrency checks -/

/-- `putForTrackedEntry` with checks: the object of `k` is changed in place to `o` with the
given stamp, and `k` leaves the tombstone list. -/
def writeInPlace (s : MapSegment K V) (k : K) (o : MapEntryImpl K V) (stamp : VersionStamp) :
    MapSegment K V :=
  (s.eraseEntryFromTombstoneList k true).bind k (.impl (o.setStamp stamp))

/-- `create` or `put` over a tombstone: the tombstone is removed and a new entry bound. -/
def replaceTombstone (s : MapSegment K V) (k : K) (v : CacheablePtr V)
    (tag : Option VersionTag) (stamp : VersionStamp) : MapSegment K V :=
  let t := s.unguardedRemoveActualEntryWithoutCancelTask k
  (t.2.bindNew k v tag (some stamp)).cancelTask? t.1

/-- `remove` of a bound key with checks: the entry becomes a tombstone with a new task. -/
def buryInPlace (s : MapSegment K V) (k : K) (o : MapEntryImpl K V) (stamp : VersionStamp) :
    MapSegment K V :=
  let t := s.getExpiryTask
  (t.2.writeInPlace k (o.setValueI (.token .tombstone)) stamp).addTombstone
    ((o.setValueI (.token .tombstone)).setStamp stamp) t.1

/-- `remove` of an unbound key with checks and a tag: a new tombstone with a new task. -/
def buryNew (s : MapSegment K V) (k : K) (tag : VersionTag) : MapSegment K V :=
  let t := s.getExpiryTask
  (t.2.bindNew k (.token .tombstone) (some tag) none).addTombstone
    (t.2.newEntry k (.token .tombstone) (some tag) none) t.1

/-! ### The named updates as changes of one binding -/

section Named

variable (s : MapSegment K V) (k : K) (v : CacheablePtr V) (o : MapEntryImpl K V)
  (tag : Option VersionTag) (stamp : VersionStamp) (stamp? : Option VersionStamp)

section NewEntry
omit [DecidableEq K]

theorem newEntry_eq : ∃ stamp, s.newEntry k v tag stamp? =
    { (MapEntryImpl.newMapEntry s.nextAddr k).setValueI v with stamp := stamp } := by
  unfold newEntry
  split
  · split <;> exact ⟨_, rfl⟩
  · exact ⟨_, rfl⟩

@[simp] theorem newEntry_value : (s.newEntry k v tag stamp?).value = v := by
  obtain ⟨_, h⟩ := newEntry_eq s k v tag stamp?
  rw [h]
  rfl

@[simp] theorem newEntry_key : (s.newEntry k v tag stamp?).key = some k := by
  obtain ⟨_, h⟩ := newEntry_eq s k v tag stamp?
  rw [h]
  rfl

@[simp] theorem newEntry_weakThis : (s.newEntry k v tag stamp?).weakThis = true := by
  obtain ⟨_, h⟩ := newEntry_eq s k v tag stamp?
  rw [h]
  rfl

theorem newEntry_stamp (hen : s.concurrencyChecksEnabled = true) (t : VersionTag) :
    (s.newEntry k v (some t) stamp?).stamp = .setVersions t := by
  simp [newEntry, hen, MapEntryImpl.setStamp]

theorem newEntry_counters : (s.newEntry k v tag stamp?).numTrackers = 0 ∧
    (s.newEntry k v tag stamp?).updateCount = 0 := by
  obtain ⟨_, h⟩ := newEntry_eq s k v tag stamp?
  rw [h]
  exact ⟨rfl, rfl⟩

end NewEntry

/-- The entry that replaces a tombstone. -/
def replacement : MapEntryImpl K V :=
  (s.unguardedRemoveActualEntryWithoutCancelTask k).2.newEntry k v tag (some stamp)

namespace SetsAt

theorem bindNew :
    SetsAt k (some (.impl (s.newEntry k v tag stamp?))) s (s.bindNew k v tag stamp?) :=
  ⟨fun k' => find_bind s k k' _, rfl⟩

theorem writeInPlace : SetsAt k (some (.impl (o.setStamp stamp))) s (s.writeInPlace k o stamp) :=
  (erase rfl true).trans (.bind _ k _)

theorem replaceTombstone : SetsAt k (some (.impl (s.replacement k v tag stamp))) s
    (s.replaceTombstone k v tag stamp) :=
  ((withoutCancelTask s k).trans (.bindNew _ k v tag (some stamp))).cancelTask? _

theorem buryInPlace : SetsAt k (some (.impl ((o.setValueI (.token .tombstone)).setStamp stamp))) s
    (s.buryInPlace k o stamp) := by
  have h := (writeInPlace s.getExpiryTask.2 k (o.setValueI (.token .tombstone)) stamp).addTombstone
    ((o.setValueI (.token .tombstone)).setStamp stamp) s.nextTask
  exact ⟨h.find, h.flag⟩

theorem buryNew (t : VersionTag) : SetsAt k
    (some (.impl (s.newEntry k (.token .tombstone) (some t) none))) s (s.buryNew k t) := by
  have h := (bindNew s.getExpiryTask.2 k (.token .tombstone) (some t) none).addTombstone
    (s.getExpiryTask.2.newEntry k (.token .tombstone) (some t) none) s.nextTask
  exact ⟨h.find, h.flag⟩

end SetsAt

end Named

section Enabled

variable (region : RegionInternal K V D M) (s : MapSegment K V) (k : K) (v : CacheablePtr V)
  (updateCount destroyTracker : Int) (tag : Option VersionTag)

theorem putNoEntry_enabled (hen : s.concurrencyChecksEnabled = true)
    (stamp : Option VersionStamp) :
    s.putNoEntry k v updateCount destroyTracker tag stamp =
      ((.noErr, some s.nextAddr), s.bindNew k v tag stamp) := by
  simp [putNoEntry, putNoEntryAborts, hen]

section
variable (hen : s.concurrencyChecksEnabled = true) (o : MapEntryImpl K V) (stamp : VersionStamp)
include hen

theorem putForTrackedEntry_enabled (delta : Option D) :
    s.putForTrackedEntry region k v (.impl o) updateCount stamp delta =
      if (updateObj region k o v delta).1 ≠ .noErr then
        (.ok (updateObj region k o v delta).1,
          s.bind k (.impl (updateObj region k o v delta).2))
      else (.ok .noErr, s.writeInPlace k (updateObj region k o v delta).2 stamp) := by
  simp only [putForTrackedEntry, hen, or_true, if_true, MapEntry.obj, MapEntry.mapObj,
    writeInPlace]

theorem putForTrackedEntry_enabled_none :
    s.putForTrackedEntry region k v (.impl o) updateCount stamp (none : Option D) =
      (.ok .noErr, s.writeInPlace k (o.setValueI v) stamp) := by
  rw [putForTrackedEntry_enabled region s k v updateCount hen]
  simp [updateObj]

end

variable (hen : s.concurrencyChecksEnabled = true)
  (hhealthy : ∀ e, s.find k = some e → Healthy k e)

include hen hhealthy

/-- `create` with checks. It binds a new entry (unbound key), fails without a change, stores
the value into an entry with a null value, or replaces a tombstone. -/
theorem create_cases :
    (s.find k = none ∧ ∃ me, s.create region k v updateCount destroyTracker tag =
      (.ok { err := .noErr, me := me }, s.rehashIfNeeded.bindNew k v tag none)) ∨
    (∃ err old, err ≠ .noErr ∧ s.create region k v updateCount destroyTracker tag =
      (.ok { err := err, oldValue := old }, s.rehashIfNeeded)) ∨
    (∃ o stamp me, s.find k = some (.impl o) ∧ o.weakThis = true ∧ o.key = some k ∧
      o.getValueI = .null ∧ s.checkVersion region (.impl o) tag false = .ok stamp ∧
      s.create region k v updateCount destroyTracker tag =
      (.ok { err := .noErr, me := me }, s.rehashIfNeeded.writeInPlace k (o.setValueI v) stamp)) ∨
    (∃ o stamp me, s.find k = some (.impl o) ∧ o.value = .token .tombstone ∧
      s.checkVersion region (.impl o) tag false = .ok stamp ∧
      s.create region k v updateCount destroyTracker tag =
      (.ok { err := .noErr, me := me }, s.rehashIfNeeded.replaceTombstone k v tag stamp)) := by
  have hen' : s.rehashIfNeeded.concurrencyChecksEnabled = true := by simpa using hen
  cases hfind : s.find k with
  | none =>
    refine .inl ⟨rfl, some s.rehashIfNeeded.nextAddr, ?_⟩
    simp only [create, find_rehashIfNeeded, hfind,
      putNoEntry_enabled _ k v updateCount destroyTracker tag hen']
  | some e =>
    obtain ⟨o, rfl, hweak, hkey⟩ := hhealthy e hfind
    simp only [create, find_rehashIfNeeded, hfind, withImplPtr_impl _ hweak,
      checkVersion_rehashIfNeeded]
    by_cases hold : o.getValueI.isNull = true ∨ o.getValueI.isTombstone = true
    · simp only [if_pos hold]
      cases hcheck : s.checkVersion region (.impl o) tag false with
      | error err =>
        exact .inr (.inl ⟨err, o.getValueI, checkVersion_error region _ tag hcheck, rfl⟩)
      | ok stamp =>
        by_cases hnull : o.getValueI.isNull = true
        · refine .inr (.inr (.inl ⟨o, stamp, some o.addr, rfl, hweak, hkey,
            (isNull_iff _).mp hnull, hcheck, ?_⟩))
          simp only [if_pos hnull, putForTrackedEntry_enabled_none region _ k v updateCount hen']
          rfl
        · have htomb : o.value = .token .tombstone := by simpa [hnull] using hold
          have hen'' : (s.rehashIfNeeded.unguardedRemoveActualEntryWithoutCancelTask
              k).2.concurrencyChecksEnabled = true := by rw [flag_withoutCancelTask, hen']
          refine .inr (.inr (.inr ⟨o, stamp, some o.addr, rfl, htomb, hcheck, ?_⟩))
          simp only [if_neg hnull, putNoEntry_enabled _ k v updateCount destroyTracker tag hen'']
          rfl
    · refine .inr (.inl ⟨.cacheEntryExists, o.getValueI, by simp, ?_⟩)
      simp only [if_neg hold]

/-- `put` with checks. It fails without a change, binds a new entry (unbound key), replaces a
tombstone, updates the entry in place, or fails to apply a delta to the object in place. -/
theorem put_cases (delta : Option D) :
    (∃ err, err ≠ .noErr ∧ ((s.find k = none ∧ delta.isSome) ∨ ∃ o, s.find k = some (.impl o) ∧
        s.checkVersion region (.impl o) tag delta.isSome = .error err) ∧
      s.put region k v updateCount destroyTracker tag delta =
      (.ok { err := err }, s.rehashIfNeeded)) ∨
    (s.find k = none ∧ delta = none ∧ ∃ me,
      s.put region k v updateCount destroyTracker tag delta =
      (.ok { err := .noErr, me := me }, s.rehashIfNeeded.bindNew k v tag none)) ∨
    (∃ o stamp me, s.find k = some (.impl o) ∧ o.value = .token .tombstone ∧
      s.checkVersion region (.impl o) tag delta.isSome = .ok stamp ∧
      s.put region k v updateCount destroyTracker tag delta =
      (.ok { err := .noErr, me := me }, s.rehashIfNeeded.replaceTombstone k v tag stamp)) ∨
    (∃ o stamp, s.find k = some (.impl o) ∧ o.weakThis = true ∧ o.key = some k ∧
      o.value ≠ .token .tombstone ∧ (updateObj region k o v delta).1 = .noErr ∧
      s.checkVersion region (.impl o) tag delta.isSome = .ok stamp ∧
      s.put region k v updateCount destroyTracker tag delta =
      (.ok { err := .noErr, me := some o.addr, oldValue := o.getValueI,
             isUpdate := !o.getValueI.isNull },
        s.rehashIfNeeded.writeInPlace k (updateObj region k o v delta).2 stamp)) ∨
    (∃ o, s.find k = some (.impl o) ∧ o.weakThis = true ∧ o.key = some k ∧
      o.value ≠ .token .tombstone ∧ (updateObj region k o v delta).1 ≠ .noErr ∧
      s.put region k v updateCount destroyTracker tag delta =
      (.ok { err := (updateObj region k o v delta).1 },
        s.rehashIfNeeded.bind k (.impl (updateObj region k o v delta).2))) := by
  have hen' : s.rehashIfNeeded.concurrencyChecksEnabled = true := by simpa using hen
  cases hfind : s.find k with
  | none =>
    cases delta with
    | none =>
      refine .inr (.inl ⟨rfl, rfl, some s.rehashIfNeeded.nextAddr, ?_⟩)
      simp only [put, find_rehashIfNeeded, hfind, Option.isSome_none, Bool.false_eq_true,
        if_false, putNoEntry_enabled _ k v updateCount destroyTracker tag hen']
    | some d =>
      refine .inl ⟨.invalidDelta, by simp, .inl ⟨rfl, rfl⟩, ?_⟩
      simp only [put, find_rehashIfNeeded, hfind, Option.isSome_some, if_true]
  | some e =>
    obtain ⟨o, rfl, hweak, hkey⟩ := hhealthy e hfind
    simp only [put, find_rehashIfNeeded, hfind, withImplPtr_impl _ hweak,
      checkVersion_rehashIfNeeded]
    cases hcheck : s.checkVersion region (.impl o) tag delta.isSome with
    | error err =>
      exact .inl ⟨err, checkVersion_error region _ tag hcheck, .inr ⟨o, rfl, hcheck⟩, rfl⟩
    | ok stamp =>
      by_cases htomb : o.getValueI.isTombstone = true
      · have hen'' : (s.rehashIfNeeded.unguardedRemoveActualEntryWithoutCancelTask
            k).2.concurrencyChecksEnabled = true := by rw [flag_withoutCancelTask, hen']
        refine .inr (.inr (.inl ⟨o, stamp,
          some (s.rehashIfNeeded.unguardedRemoveActualEntryWithoutCancelTask k).2.nextAddr, rfl,
          by simpa using htomb, hcheck, ?_⟩))
        simp only [if_pos htomb, putNoEntry_enabled _ k v updateCount destroyTracker tag hen'']
        rfl
      · have hvalue : o.value ≠ .token .tombstone := by simpa using htomb
        by_cases herr : (updateObj region k o v delta).1 = .noErr
        · refine .inr (.inr (.inr (.inl ⟨o, stamp, rfl, hweak, hkey, hvalue, herr,
            hcheck, ?_⟩)))
          simp only [if_neg htomb, putForTrackedEntry_enabled region _ k v updateCount hen', herr,
            ne_eq, not_true_eq_false, if_false, Except.map, if_true]
        · refine .inr (.inr (.inr (.inr ⟨o, rfl, hweak, hkey, hvalue, herr, ?_⟩)))
          simp only [if_neg htomb, putForTrackedEntry_enabled region _ k v updateCount hen', herr,
            ne_eq, not_false_eq_true, if_true, Except.map, if_false]

/-- `invalidate` with checks. It fails without a change, binds a new entry with the invalid
token (unbound key), or stores the invalid token in place. -/
theorem invalidate_cases :
    (∃ err, err ≠ .noErr ∧ s.invalidate region k tag = (.ok { err := err }, s)) ∨
    (s.find k = none ∧ ∃ me, s.invalidate region k tag =
      (.ok { err := .cacheEntryNotFound, me := me, isTokenAdded := true },
        s.bindNew k (.token .invalid) tag none)) ∨
    (∃ o stamp me, s.find k = some (.impl o) ∧ o.weakThis = true ∧ o.key = some k ∧
      o.value ≠ .token .tombstone ∧ s.invalidate region k tag =
      (.ok { err := .noErr, me := me, oldValue := o.getValueI },
        s.bind k (.impl ((o.setValueI (.token .invalid)).setStamp stamp)))) := by
  cases hfind : s.find k with
  | none =>
    refine .inr (.inl ⟨rfl, some s.nextAddr, ?_⟩)
    simp only [invalidate, hfind, hen, if_true, putNoEntry_enabled _ k _ (-1) (-1) tag hen, ne_eq,
      not_true_eq_false, if_false]
  | some e =>
    obtain ⟨o, rfl, hweak, hkey⟩ := hhealthy e hfind
    simp only [invalidate, hfind, withImplPtr_impl _ hweak]
    cases hcheck : s.checkVersion region (.impl o) tag false with
    | error err => exact .inl ⟨err, checkVersion_error region _ tag hcheck, rfl⟩
    | ok stamp =>
      by_cases htomb : o.getValueI.isTombstone = true
      · refine .inl ⟨.cacheEntryNotFound, by simp, ?_⟩
        simp only [if_pos htomb]
      · refine .inr (.inr ⟨o, stamp, if o.getValueI.isNull then none else some o.addr, rfl,
          hweak, hkey, by simpa using htomb, ?_⟩)
        simp only [if_neg htomb, hen, if_true,
          MapEntry.mapObj, incrementUpdateCount, MapSegment.bind, Except.map]

/-- `remove` with checks. It fails after a task that it cancels, turns the entry into a
tombstone, binds a new tombstone (unbound key with a tag), or finds nothing to do. -/
theorem remove_cases (afterRemote : Bool) :
    (∃ o err, s.find k = some (.impl o) ∧
      s.checkVersion region (.impl o) tag false = .error err ∧ err ≠ .noErr ∧
      s.remove region k updateCount tag afterRemote =
      (.ok { err := err }, s.getExpiryTask.2.cancelTask s.nextTask)) ∨
    (∃ o stamp me old, s.find k = some (.impl o) ∧ o.weakThis = true ∧ o.key = some k ∧
      s.checkVersion region (.impl o) tag false = .ok stamp ∧
      s.remove region k updateCount tag afterRemote =
      (.ok { err := if o.value.isTombstone then notFoundUnless afterRemote else .noErr,
             me := me, oldValue := old }, s.buryInPlace k o stamp)) ∨
    (∃ t, s.find k = none ∧ tag = some t ∧ s.remove region k updateCount tag afterRemote =
      (.ok { err := notFoundUnless afterRemote, isEntryFound := false }, s.buryNew k t)) ∨
    (s.find k = none ∧ tag = none ∧ s.remove region k updateCount tag afterRemote =
      (.ok { err := notFoundUnless afterRemote, isEntryFound := false },
        s.getExpiryTask.2.cancelTask s.nextTask)) := by
  have hen' : s.getExpiryTask.2.concurrencyChecksEnabled = true := hen
  have hfind' : s.getExpiryTask.2.find k = s.find k := rfl
  simp only [remove, hen, if_true, removeWhenConcurrencyEnabled, hfind']
  cases hfind : s.find k with
  | none =>
    cases tag with
    | none =>
      refine .inr (.inr (.inr ⟨rfl, rfl, ?_⟩))
      simp only [Option.isSome_none, Bool.false_eq_true, if_false]
      rfl
    | some t =>
      refine .inr (.inr (.inl ⟨t, rfl, rfl, ?_⟩))
      simp only [Option.isSome_some, putNoEntry_enabled _ k _ (-1) 0 (some t) hen']
      rfl
  | some e =>
    obtain ⟨o, rfl, hweak, hkey⟩ := hhealthy e hfind
    have hcheck' : s.getExpiryTask.2.checkVersion region (.impl o) tag false =
        s.checkVersion region (.impl o) tag false := rfl
    simp only [withImplPtr_impl _ hweak, hcheck']
    cases hcheck : s.checkVersion region (.impl o) tag false with
    | error err =>
      refine .inl ⟨o, err, rfl, hcheck, checkVersion_error region _ tag hcheck, ?_⟩
      simp only [Bool.false_eq_true, if_false]
      rfl
    | ok stamp =>
      refine .inr (.inl ⟨o, stamp, if o.getValueI.isNull then none else some o.addr,
        if o.getValueI.isTombstone then .null else o.getValueI, rfl, hweak, hkey,
        hcheck, ?_⟩)
      have hput := putForTrackedEntry_enabled_none region s.getExpiryTask.2 k
        (.token .tombstone) updateCount hen' o stamp
      by_cases htomb : o.getValueI.isTombstone = true
      · have hvalue : o.value.isTombstone = true := by simpa using htomb
        simp only [hput, writeInPlace, find_bind_self, if_pos htomb, hvalue, decide_true]
        rfl
      · have hvalue : o.value.isTombstone ≠ true := by simpa using htomb
        simp only [hput, writeInPlace, find_bind_self, if_neg htomb, hvalue, decide_true]
        rfl

end Enabled

/-- A region over numbers, for concrete runs: every member is registered, members are ordered
as numbers, and a delta changes nothing. -/
def natRegion : RegionInternal Nat Nat Unit Nat where
  members := { getDSMember := fun id => some id.toNat, compareTo := fun a b => (a : Int) - b }
  cloningEnabled := false
  clone := id
  fromDelta := fun v _ => (v, false)
  getFromDisk := fun _ _ => none

end GeodeNative.Cache.MapSegment

namespace GeodeNative.Cache.ConcurrentEntriesMap

variable {K V : Type} {n : Nat}

section
variable [NeZero n] (m : ConcurrentEntriesMap K V n) {k : K}

theorem segmentFor_setSegment (k k' : K) (s : MapSegment K V) :
    (m.setSegment k s).segmentFor k' =
      if m.segmentIdx k' = m.segmentIdx k then s else m.segmentFor k' := by
  show Function.update m.segments (m.segmentIdx k) s (m.segmentIdx k') = _
  rw [Function.update_apply]
  rfl

variable [DecidableEq K]

theorem find_setSegment {x : Option (MapEntry K V)} {s : MapSegment K V}
    (h : MapSegment.SetsAt k x (m.segmentFor k) s) (k' : K) :
    (m.setSegment k s).find k' = if k' = k then x else m.find k' := by
  rw [find, segmentFor_setSegment]
  by_cases hsame : m.segmentIdx k' = m.segmentIdx k
  · rw [if_pos hsame, h.find, find, segmentFor, segmentFor, hsame]
  · have hne : k' ≠ k := by
      rintro rfl
      exact hsame rfl
    rw [if_neg hsame, if_neg hne, find]

end

/-- The step changes segment `i` to `s`, and nothing else but the size. -/
structure Touches (i : Fin n) (s : MapSegment K V) (m m' : ConcurrentEntriesMap K V n) : Prop where
  hashcode : m'.hashcode = m.hashcode
  segments : m'.segments = Function.update m.segments i s

namespace Touches

theorem setSegment [NeZero n] (m : ConcurrentEntriesMap K V n) (k : K) (s : MapSegment K V)
    (size : BitVec 32) : Touches (m.segmentIdx k) s m { m.setSegment k s with size := size } :=
  ⟨rfl, rfl⟩

theorem withSegment (m : ConcurrentEntriesMap K V n) (i : Fin n) (s : MapSegment K V) :
    Touches i s m (m.withSegment i s) := ⟨rfl, rfl⟩

variable {i : Fin n} {s : MapSegment K V} {m m' : ConcurrentEntriesMap K V n}
  (h : Touches i s m m')
include h

theorem forall_segments {P : MapSegment K V → Prop} (hall : ∀ j, P (m.segments j)) (hs : P s)
    (j : Fin n) : P (m'.segments j) := by
  rw [h.segments, Function.update_apply]
  split
  · exact hs
  · exact hall j

variable [NeZero n]

theorem segmentIdx (key : K) : m'.segmentIdx key = m.segmentIdx key := by
  rw [ConcurrentEntriesMap.segmentIdx, h.hashcode]
  rfl

theorem segmentFor_self {key : K} (hkey : m.segmentIdx key = i) : m'.segmentFor key = s := by
  rw [ConcurrentEntriesMap.segmentFor, h.segmentIdx, h.segments, hkey, Function.update_self]

theorem segmentFor_ne {key : K} (hkey : m.segmentIdx key ≠ i) :
    m'.segmentFor key = m.segmentFor key := by
  rw [ConcurrentEntriesMap.segmentFor, h.segmentIdx, h.segments, Function.update_of_ne hkey]
  rfl

/-- What holds of the segment of `key` by a relation between the old and the new segment `i`. -/
theorem segmentFor_rel {R : MapSegment K V → MapSegment K V → Prop} (hrefl : ∀ s, R s s)
    (hR : R (m.segments i) s) (key : K) : R (m.segmentFor key) (m'.segmentFor key) := by
  by_cases hkey : m.segmentIdx key = i
  · rw [h.segmentFor_self hkey, ConcurrentEntriesMap.segmentFor, hkey]
    exact hR
  · rw [h.segmentFor_ne hkey]
    exact hrefl _

omit h in
/-- The lookups after a step that changes the binding of one key. -/
theorem find [DecidableEq K] {key : K} {x : Option (MapEntry K V)}
    (h : Touches (m.segmentIdx key) s m m') (hsets : MapSegment.SetsAt key x (m.segmentFor key) s)
    (k : K) : m'.find k = if k = key then x else m.find k := by
  rw [← find_setSegment m hsets k]
  simp only [ConcurrentEntriesMap.find, segmentFor, h.segmentIdx, h.segments]
  rfl

end Touches

/-- A call answers what the segment of `key` answers in `r`, and changes this segment and the
counter alone. -/
structure Forwards {R : Type} [NeZero n] (m : ConcurrentEntriesMap K V n) (key : K)
    (r : R × MapSegment K V) (r' : R × ConcurrentEntriesMap K V n) : Prop where
  result : r'.1 = r.1
  map : ∃ size, r'.2 = { m.setSegment key r.2 with size := size }

theorem Forwards.touches {R : Type} [NeZero n] {m : ConcurrentEntriesMap K V n} {key : K}
    {r : R × MapSegment K V} {r' : R × ConcurrentEntriesMap K V n} (h : Forwards m key r r') :
    Touches (m.segmentIdx key) r.2 m r'.2 := by
  obtain ⟨size, hmap⟩ := h.map
  rw [hmap]
  exact .setSegment ..

section
variable {D M : Type} [NeZero n] [DecidableEq K] (region : RegionInternal K V D M)
  (m : ConcurrentEntriesMap K V n) (key : K) (newValue : CacheablePtr V)
  (updateCount destroyTracker : Int) (versionTag : Option VersionTag)

theorem forwards_create : Forwards m key
    ((m.segmentFor key).create region key newValue updateCount destroyTracker versionTag)
    (m.create region key newValue updateCount destroyTracker versionTag) := by
  unfold create
  dsimp only
  split
  · next h => exact ⟨h.symm, _, rfl⟩
  · next h => split <;> exact ⟨h.symm, _, rfl⟩

theorem forwards_put (delta : Option D) : Forwards m key
    ((m.segmentFor key).put region key newValue updateCount destroyTracker versionTag delta)
    (m.put region key newValue updateCount destroyTracker versionTag delta) := by
  unfold put
  dsimp only
  split
  · next h => exact ⟨h.symm, _, rfl⟩
  · next h =>
    split
    · exact ⟨h.symm, _, rfl⟩
    · split <;> exact ⟨h.symm, _, rfl⟩

theorem forwards_remove (afterRemote : Bool) : Forwards m key
    ((m.segmentFor key).remove region key updateCount versionTag afterRemote)
    (m.remove region key updateCount versionTag afterRemote) := by
  unfold remove
  dsimp only
  split
  · next h => exact ⟨h.symm, _, rfl⟩
  · next h => split <;> exact ⟨h.symm, _, rfl⟩

end

end GeodeNative.Cache.ConcurrentEntriesMap

import GeodeNative.Cache.MapEntry

/-!
# One segment of the entries map

`MapSegment` is the state of the C++ class: the hash map from keys to entries, the tombstone
list, the keys destroyed while destroys are tracked, and the rehash counters. It also holds
the tombstone tasks of the expiry task manager, since the segment schedules and cancels
them.

The operations take the state and return the result with the new state. Each runs under the
lock of the segment, so each is one step. An operation that throws keeps the changes it made
before the throw: `Except CacheException α × MapSegment K V` is the type of a result. The
reference parameters of an operation (`me`, `oldValue` and so on) are fields of its result.
They start as null and false, except for `isEntryFound`, which the caller starts as true.

The keys of the hash map carry no duplicates (`AList`). Statistics and log lines are left out.
-/

set_option autoImplicit false

namespace GeodeNative.Cache

/-- What a segment reads from its region: the member list, whether deltas go to a clone, the
virtual `clone` and `fromDelta` of a value, and the overflow store. `fromDelta` gives the
object afterwards and whether it threw `InvalidDeltaException`. -/
structure RegionInternal (K V D M : Type) where
  members : MemberList M
  cloningEnabled : Bool
  clone : V → V
  fromDelta : V → D → V × Bool
  getFromDisk : K → MapEntryImpl K V → Option V

/-- Why `addTrackerForAllEntries` does not return: an exception, or the null key of an entry that
placement new has cleared, which is hashed for the map of counters. -/
inductive TrackAllError where
  | exception (x : CacheException)
  | nullKey
  deriving DecidableEq, Repr

/-- The entry that was removed and the task that will expire it. -/
structure TombstoneEntry (K V : Type) where
  entry : MapEntryImpl K V
  expiryTaskId : Nat

/-- The state of a `MapSegment`. `numDestroyTrackers` is the counter of the entries map that
the segment points to. `expiryTasks` are the pending tombstone tasks with the key their
handler reads. `nextAddr` and `nextTask` are the next unused address and task id. -/
structure MapSegment (K V : Type) where
  map : AList fun _ : K => MapEntry K V
  primeIndex : Nat
  rehashCount : Nat
  concurrencyChecksEnabled : Bool
  numDestroyTrackers : Int
  destroyedKeys : AList fun _ : K => Int
  tombstoneList : AList fun _ : K => TombstoneEntry K V
  expiryTasks : AList fun _ : Nat => Option K
  nextAddr : Nat
  nextTask : Nat

/-- `g_primeTable`. -/
def primeTable : List Nat :=
  [53, 97, 193, 389, 769, 1543, 3079, 6151, 12289, 24593, 49157, 98317, 196613, 393241,
    786433, 1572869, 3145739, 6291469, 12582917, 25165843, 50331653, 100663319, 201326611,
    402653189, 805306457, 1610612741, 3221225473]

/-- `GfErrType` and the reference parameters of `create`. -/
structure CreateResult (V : Type) where
  err : GfErrType
  me : Option Nat := none
  oldValue : CacheablePtr V := .null
  deriving DecidableEq

/-- `GfErrType` and the reference parameters of `put`. -/
structure PutResult (V : Type) where
  err : GfErrType
  me : Option Nat := none
  oldValue : CacheablePtr V := .null
  isUpdate : Bool := false
  deriving DecidableEq

/-- `GfErrType` and the reference parameters of `invalidate`. -/
structure InvalidateResult (V : Type) where
  err : GfErrType
  me : Option Nat := none
  oldValue : CacheablePtr V := .null
  isTokenAdded : Bool := false
  deriving DecidableEq

/-- `GfErrType` and the reference parameters of `remove`. -/
structure RemoveResult (V : Type) where
  err : GfErrType
  me : Option Nat := none
  oldValue : CacheablePtr V := .null
  isEntryFound : Bool := true
  deriving DecidableEq

/-- The reference parameter `me` after `if (err == GF_NOERR) me = entryImpl`. -/
def meOf (err : GfErrType) (addr : Nat) (me : Option Nat) : Option Nat :=
  if err = .noErr then some addr else me

namespace MapSegment

variable {K V D M : Type} [DecidableEq K]

/-- The segment after `MapSegment::open`. -/
def «open» (primeIndex : Nat) (concurrencyChecksEnabled : Bool) : MapSegment K V where
  map := ∅
  primeIndex := primeIndex
  rehashCount := 0
  concurrencyChecksEnabled := concurrencyChecksEnabled
  numDestroyTrackers := 0
  destroyedKeys := ∅
  tombstoneList := ∅
  expiryTasks := ∅
  nextAddr := 0
  nextTask := 0

variable (region : RegionInternal K V D M) (s : MapSegment K V)

/-- `m_map->find`. -/
def find (key : K) : Option (MapEntry K V) := s.map.lookup key

/-- `m_map->bind` of an unbound key, `m_map->rebind` of a bound one, and the effect of a
change in place to the bound entry. -/
def bind (key : K) (entry : MapEntry K V) : MapSegment K V :=
  { s with map := s.map.insert key entry }

/-- `m_map->unbind`. -/
def unbind (key : K) : MapSegment K V :=
  { s with map := s.map.erase key }

/-- `MapSegment::open` for a size: the first prime of the table that is not smaller. Past the end of
the table `nextLargerPrime` throws. -/
def openSize (size : Nat) (concurrencyChecksEnabled : Bool) : Option (MapSegment K V) :=
  (primeTable.findIdx? (size ≤ ·)).map (MapSegment.open · concurrencyChecksEnabled)

/-- The loop of `rehash`, which binds the entries of the old map in a new one. The order of an
iteration over a hash map is not specified; here the last entry of the list comes first. -/
def rehash (entries : List (Sigma fun _ : K => MapEntry K V)) : AList fun _ : K => MapEntry K V :=
  entries.foldr (fun entry newMap => newMap.insert entry.1 entry.2) ∅

/-- The load check of `create` and `put` with `rehash`. Past the end of the prime table the
source throws; see `CacheException`. -/
def rehashIfNeeded : MapSegment K V :=
  match primeTable[s.primeIndex]? with
  | some mapSize =>
    if (s.map.entries.length * 75) / 100 > mapSize then
      { s with
        map := rehash s.map.entries
        primeIndex := s.primeIndex + 1
        rehashCount := s.rehashCount + 1 }
    else s
  | none => s

/-! ### The tombstone list and its tasks -/

/-- `expiryTaskManager->cancelTask`. -/
def cancelTask (taskid : Nat) : MapSegment K V :=
  { s with expiryTasks := s.expiryTasks.erase taskid }

/-- `TombstoneList::getExpiryTask`: schedule a task whose handler has no entry yet. -/
def getExpiryTask : Nat × MapSegment K V :=
  (s.nextTask, { s with
    expiryTasks := s.expiryTasks.insert s.nextTask none
    nextTask := s.nextTask + 1 })

/-- `TombstoneList::add`. The key is read from the entry. -/
def addTombstone (entry : MapEntryImpl K V) (taskid : Nat) : MapSegment K V :=
  match entry.key with
  | some key =>
    { s with
      tombstoneList := s.tombstoneList.insert key ⟨entry, taskid⟩
      expiryTasks := s.expiryTasks.insert taskid (some key) }
  | none => s

/-- `TombstoneList::eraseEntryFromTombstoneList`. -/
def eraseEntryFromTombstoneList (key : K) (cancelTask : Bool) : MapSegment K V :=
  match s.tombstoneList.lookup key with
  | some t =>
    let s := if cancelTask then s.cancelTask t.expiryTaskId else s
    { s with tombstoneList := s.tombstoneList.erase key }
  | none => s

/-- `TombstoneList::eraseEntryFromTombstoneListWithoutCancelTask`, with the task id that
the caller cancels. -/
def eraseEntryFromTombstoneListWithoutCancelTask (key : K) : Option Nat × MapSegment K V :=
  match s.tombstoneList.lookup key with
  | some t => (some t.expiryTaskId, { s with tombstoneList := s.tombstoneList.erase key })
  | none => (none, s)

/-- `MapSegment::unguardedRemoveActualEntry`. -/
def unguardedRemoveActualEntry (key : K) (cancelTask : Bool) : Bool × MapSegment K V :=
  let s := s.eraseEntryFromTombstoneList key cancelTask
  ((s.find key).isSome, s.unbind key)

/-- `MapSegment::unguardedRemoveActualEntryWithoutCancelTask`. -/
def unguardedRemoveActualEntryWithoutCancelTask (key : K) : Option Nat × MapSegment K V :=
  let r := s.eraseEntryFromTombstoneListWithoutCancelTask key
  (r.1, r.2.unbind key)

/-- `MapSegment::removeActualEntry`. -/
def removeActualEntry (key : K) (cancelTask : Bool) : Bool × MapSegment K V :=
  s.unguardedRemoveActualEntry key cancelTask

/-- The end of `create` and `put`: cancel the task of a replaced tombstone, if any. -/
def cancelTask? (taskid : Option Nat) : MapSegment K V :=
  match taskid with
  | some id => s.cancelTask id
  | none => s

/-- `TombstoneExpiryHandler::handle_timeout` of a pending task whose time has come. The task
is gone afterwards. -/
def handleTimeout (taskid : Nat) : MapSegment K V :=
  match s.expiryTasks.lookup taskid with
  | some (some key) => (s.removeActualEntry key false).2.cancelTask taskid
  | some none => s.cancelTask taskid
  | none => s

/-- The keys that `TombstoneList::reapTombstones(gcVersions)` collects in `tobeDeleted`. -/
def tobeDeleted (gcVersions : AList fun _ : BitVec 16 => Int) : List K :=
  (s.tombstoneList.entries.filter fun t =>
    match gcVersions.lookup t.2.entry.stamp.getMemberId with
    | some version => decide (version ≥ t.2.entry.stamp.getRegionVersion.toInt)
    | none => false).keys

/-- `MapSegment::reapTombstones(CacheableHashSetPtr)`: every given key is removed. -/
def reapTombstoneKeys (removedKeys : List K) : MapSegment K V :=
  removedKeys.foldl (fun s key => (s.unguardedRemoveActualEntry key true).2) s

/-- `MapSegment::reapTombstones(std::map<uint16_t, int64_t>&)`. -/
def reapTombstones (gcVersions : AList fun _ : BitVec 16 => Int) : MapSegment K V :=
  s.reapTombstoneKeys (s.tobeDeleted gcVersions)

/-- `MapSegment::clear`. Only the hash map is emptied. -/
def clear : MapSegment K V := { s with map := ∅ }

/-! ### Trackers -/

/-- `MapSegment::incrementUpdateCount`. -/
def incrementUpdateCount (key : K) (entry : MapEntry K V) :
    Except CacheException Bool × MapSegment K V :=
  if s.concurrencyChecksEnabled then (.ok false, s)
  else
    match entry.incrementUpdateCount none with
    | .error x => (.error x, s)
    | .ok r => (.ok r.newEntry.isSome, s.bind key (.bound r))

/-- The private `MapSegment::removeTrackerForEntry(key, entry, entryImpl)`. Here `entry` is
bound at `key` and `entryImpl` is the object behind it. -/
def removeTracker (key : K) (entry : MapEntry K V) : MapSegment K V :=
  if s.concurrencyChecksEnabled then s
  else
    let r := entry.removeTracker
    if r.1.2 ≤ 0 ∧ r.2.obj.getValueI.isNull then s.unbind key
    else if r.1.1 then s.bind key (.impl r.2.obj)
    else s.bind key r.2

/-- The last part of `addTrackerForEntry`: add the tracker to `entry` and bind what comes out
of it. If `incrementUpdateCount` throws, the tracker is already added. -/
def trackEntry (key : K) (entry : MapEntry K V) (incUpdateCount : Bool) :
    Except CacheException Int × MapSegment K V :=
  match entry.addTracker none with
  | .error x => (.error x, s)
  | .ok r =>
    if incUpdateCount then
      match r.entry.incrementUpdateCount r.newEntry with
      | .error x => (.error x, s.bind key r.entry)
      | .ok r => (.ok r.count, s.bind key (.bound r))
    else (.ok r.count, s.bind key (.bound r))

/-- `MapSegment::addTrackerForEntry`: the returned count with `oldValue`. -/
def addTrackerForEntry (key : K) (addIfAbsent failIfPresent incUpdateCount : Bool) :
    Except CacheException (Int × CacheablePtr V) × MapSegment K V :=
  if s.concurrencyChecksEnabled then (.ok (-1, .null), s)
  else
    match s.find key with
    | none =>
      if addIfAbsent then
        -- a new entry with the value destroyed
        let entry := (MapEntryImpl.newMapEntry s.nextAddr key).setValueI (.token .destroyed)
        let r := { s with nextAddr := s.nextAddr + 1 }.trackEntry key (.impl entry) incUpdateCount
        (r.1.map fun updateCount => (updateCount, .null), r.2)
      else (.ok (-1, .null), s)
    | some entry =>
      let oldValue := entry.obj.getValueI
      if failIfPresent then (.ok (-1, oldValue), s)
      else
        let r := s.trackEntry key entry incUpdateCount
        (r.1.map fun updateCount => (updateCount, oldValue), r.2)

/-- Run `f` on `entry->getImplPtr()`. -/
def withImplPtr {α : Type} (entry : MapEntry K V)
    (f : MapEntryImpl K V → Except CacheException α × MapSegment K V) :
    Except CacheException α × MapSegment K V :=
  match entry.getImplPtr with
  | .error x => (.error x, s)
  | .ok entryImpl => f entryImpl

/-- The public `MapSegment::removeTrackerForEntry(key)`. -/
def removeTrackerForEntry (key : K) : Except CacheException Unit × MapSegment K V :=
  if s.concurrencyChecksEnabled then (.ok (), s)
  else
    match s.find key with
    | none => (.ok (), s)
    | some entry => s.withImplPtr entry fun _ => (.ok (), s.removeTracker key entry)

/-- The loop of `MapSegment::addTrackerForAllEntries` over the bindings that are left. `newEntry` is
declared before the loop, so it stays when an entry has set it. -/
def addTrackers (s : MapSegment K V) (newEntry : Option (MapEntry K V))
    (updateCounterMap : AList fun _ : K => Int) :
    List (Sigma fun _ : K => MapEntry K V) →
      Except TrackAllError (AList fun _ : K => Int) × MapSegment K V
  | [] => (.ok updateCounterMap, s)
  | ⟨boundKey, entry⟩ :: rest =>
    match entry.addTracker newEntry with
    | .error x => (.error (.exception x), s)
    | .ok r =>
      let s := s.bind boundKey r.entry
      match entry.obj.key with
      | none => (.error .nullKey, s)
      | some key =>
        let s := match r.newEntry with
          | some newEntry => s.bind key newEntry
          | none => s
        let updateCounterMap :=
          if key ∈ updateCounterMap then updateCounterMap
          else updateCounterMap.insert key r.count
        s.addTrackers r.newEntry updateCounterMap rest

/-- `MapSegment::addTrackerForAllEntries`. -/
def addTrackerForAllEntries (updateCounterMap : AList fun _ : K => Int) :
    Except TrackAllError (AList fun _ : K => Int) × MapSegment K V :=
  if s.concurrencyChecksEnabled then (.ok updateCounterMap, s)
  else s.addTrackers none updateCounterMap s.map.entries

/-- `MapSegment::removeDestroyTracking`. -/
def removeDestroyTracking : MapSegment K V :=
  if s.concurrencyChecksEnabled then s else { s with destroyedKeys := ∅ }

/-! ### Writing an entry -/

/-- The check of `putNoEntry` for a key that was destroyed while the writer tracked it. -/
def putNoEntryAborts (key : K) (updateCount destroyTracker : Int) : Bool :=
  !s.concurrencyChecksEnabled &&
    (decide (updateCount ≥ 0) ||
      (decide (destroyTracker > 0 ∧ s.numDestroyTrackers > 0) &&
        match s.destroyedKeys.lookup key with
        | some pos => decide (pos > destroyTracker)
        | none => false))

/-- The entry that `putNoEntry` binds. -/
def newEntry (key : K) (newValue : CacheablePtr V) (versionTag : Option VersionTag)
    (versionStamp : Option VersionStamp) : MapEntryImpl K V :=
  let entry := (MapEntryImpl.newMapEntry s.nextAddr key).setValueI newValue
  if s.concurrencyChecksEnabled then
    match versionTag, versionStamp with
    | some tag, _ => entry.setStamp (.setVersions tag)
    | none, some stamp => entry.setStamp stamp
    | none, none => entry
  else entry

/-- The end of `putNoEntry`: bind the new entry. -/
def bindNew (key : K) (newValue : CacheablePtr V) (versionTag : Option VersionTag)
    (versionStamp : Option VersionStamp) : MapSegment K V :=
  { s with nextAddr := s.nextAddr + 1 }.bind key
    (.impl (s.newEntry key newValue versionTag versionStamp))

/-- `MapSegment::putNoEntry`: the error, the address of the new entry and the segment. -/
def putNoEntry (key : K) (newValue : CacheablePtr V) (updateCount destroyTracker : Int)
    (versionTag : Option VersionTag) (versionStamp : Option VersionStamp)
    : (GfErrType × Option Nat) × MapSegment K V :=
  if s.putNoEntryAborts key updateCount destroyTracker then ((.cacheEntryUpdated, none), s)
  else
    ((.noErr, some s.nextAddr), s.bindNew key newValue versionTag versionStamp)

/-- The delta branch of `putForTrackedEntry`: the error and the entry object afterwards. When
cloning is off, the delta changes the value of the entry in place, also when it throws. -/
def applyDelta (key : K) (e : MapEntryImpl K V) (delta : D) : GfErrType × MapEntryImpl K V :=
  match e.getValueI with
  | .object v =>
    if region.cloningEnabled then
      let r := region.fromDelta (region.clone v) delta
      if r.2 then (.invalidDelta, e) else (.noErr, e.setValueI (.object r.1))
    else
      let r := region.fromDelta v delta
      (if r.2 then .invalidDelta else .noErr, e.setValueI (.object r.1))
  | .token .overflowed =>
    match region.getFromDisk key e with
    | none => (.invalidDelta, e)
    | some v =>
      let r := region.fromDelta (if region.cloningEnabled then region.clone v else v) delta
      if r.2 then (.invalidDelta, e) else (.noErr, e.setValueI (.object r.1))
  | _ => (.invalidDelta, e)

/-- The object of an untracked put: the delta applied, or the new value set. -/
def updateObj (key : K) (e : MapEntryImpl K V) (newValue : CacheablePtr V) (delta : Option D)
    : GfErrType × MapEntryImpl K V :=
  match delta with
  | some delta => applyDelta region key e delta
  | none => (.noErr, e.setValueI newValue)

/-- `MapSegment::putForTrackedEntry`, for the `entry` bound at `key`. -/
def putForTrackedEntry (key : K) (newValue : CacheablePtr V) (entry : MapEntry K V)
    (updateCount : Int) (versionStamp : VersionStamp) (delta : Option D) :
    Except CacheException GfErrType × MapSegment K V :=
  if updateCount < 0 ∨ s.concurrencyChecksEnabled then
    let r := updateObj region key entry.obj newValue delta
    let entry := entry.mapObj fun _ => r.2
    if r.1 ≠ .noErr then (.ok r.1, s.bind key entry)
    else if s.concurrencyChecksEnabled then
      (.ok .noErr, (s.eraseEntryFromTombstoneList key true).bind key
        (entry.mapObj fun e => e.setStamp versionStamp))
    else
      let r := (s.bind key entry).incrementUpdateCount key entry
      (r.1.map fun _ => .noErr, r.2)
  else if updateCount = entry.getUpdateCount then
    let entry := entry.mapObj fun e => e.setValueI newValue
    (.ok .noErr, (s.bind key entry).removeTracker key entry)
  else
    (.ok .cacheEntryUpdated, s.removeTracker key entry)

/-- The version check that `create`, `put` and `invalidate` make on a bound entry: the error,
or the stamp to store. -/
def checkVersion (entry : MapEntry K V) (versionTag : Option VersionTag) (deltaCheck : Bool)
    : Except GfErrType VersionStamp :=
  if s.concurrencyChecksEnabled then
    match versionTag with
    | some tag =>
      let err := entry.getVersionStamp.processVersionTag region.members (some tag) deltaCheck
      if err ≠ .noErr then .error err else .ok (.setVersions tag)
    | none => .ok entry.getVersionStamp
  else .ok {}

/-- `MapSegment::create`. -/
def create (key : K) (newValue : CacheablePtr V) (updateCount destroyTracker : Int)
    (versionTag : Option VersionTag) : Except CacheException (CreateResult V) × MapSegment K V :=
  let s := s.rehashIfNeeded
  match s.find key with
  | none =>
    let r := s.putNoEntry key newValue updateCount destroyTracker versionTag none
    (.ok { err := r.1.1, me := r.1.2 }, r.2)
  | some entry =>
    s.withImplPtr entry fun entryImpl =>
      let oldValue := entryImpl.getValueI
      if oldValue.isNull ∨ oldValue.isTombstone then
        match s.checkVersion region entry versionTag false with
        | .error err => (.ok { err := err, oldValue := oldValue }, s)
        | .ok versionStamp =>
          if oldValue.isNull then
            let r := s.putForTrackedEntry region key newValue entry updateCount versionStamp none
            (r.1.map fun err => { err := err, me := meOf err entryImpl.addr none }, r.2)
          else
            let t := s.unguardedRemoveActualEntryWithoutCancelTask key
            let r := t.2.putNoEntry key newValue updateCount destroyTracker versionTag
              (some versionStamp)
            -- `me` is set to the entry that was just replaced
            (.ok { err := r.1.1, me := meOf r.1.1 entryImpl.addr r.1.2 }, r.2.cancelTask? t.1)
      else (.ok { err := .cacheEntryExists, oldValue := oldValue }, s)

/-- `MapSegment::put`. -/
def put (key : K) (newValue : CacheablePtr V) (updateCount destroyTracker : Int)
    (versionTag : Option VersionTag) (delta : Option D) :
    Except CacheException (PutResult V) × MapSegment K V :=
  let s := s.rehashIfNeeded
  match s.find key with
  | none =>
    if delta.isSome then (.ok { err := .invalidDelta }, s)
    else
      let r := s.putNoEntry key newValue updateCount destroyTracker versionTag none
      (.ok { err := r.1.1, me := r.1.2 }, r.2)
  | some entry =>
    s.withImplPtr entry fun entryImpl =>
      let meOldValue := entryImpl.getValueI
      match s.checkVersion region entry versionTag delta.isSome with
      | .error err => (.ok { err := err }, s)
      | .ok versionStamp =>
        if meOldValue.isTombstone then
          let t := s.unguardedRemoveActualEntryWithoutCancelTask key
          let r := t.2.putNoEntry key newValue updateCount destroyTracker versionTag
            (some versionStamp)
          (.ok { err := r.1.1, me := r.1.2 }, r.2.cancelTask? t.1)
        else
          let r := s.putForTrackedEntry region key newValue entry updateCount versionStamp delta
          (r.1.map fun err =>
            if err = .noErr then
              { err := err, me := some entryImpl.addr, oldValue := meOldValue,
                isUpdate := !meOldValue.isNull }
            else { err := err }, r.2)

/-- `MapSegment::invalidate`. -/
def invalidate (key : K) (versionTag : Option VersionTag) :
    Except CacheException (InvalidateResult V) × MapSegment K V :=
  match s.find key with
  | some entry =>
    match s.checkVersion region entry versionTag false with
    | .error err => (.ok { err := err }, s)
    | .ok versionStamp =>
      s.withImplPtr entry fun entryImpl =>
        let oldValue := entryImpl.getValueI
        if oldValue.isTombstone then (.ok { err := .cacheEntryNotFound }, s)
        else
          let entry := entry.mapObj fun e =>
            let e := e.setValueI (.token .invalid)
            if s.concurrencyChecksEnabled then e.setStamp versionStamp else e
          let r := (s.bind key entry).incrementUpdateCount key entry
          (r.1.map fun _ =>
            { err := .noErr, oldValue := oldValue
              me := if oldValue.isNull then none else some entryImpl.addr }, r.2)
  | none =>
    if s.concurrencyChecksEnabled then
      let r := s.putNoEntry key (.token .invalid) (-1) (-1) versionTag none
      if r.1.1 ≠ .noErr then (.ok { err := r.1.1, me := r.1.2 }, r.2)
      else (.ok { err := .cacheEntryNotFound, me := r.1.2, isTokenAdded := true }, r.2)
    else (.ok { err := .cacheEntryNotFound }, s)

/-- The code that a successful remove of a missing entry returns. -/
def notFoundUnless (afterRemote : Bool) : GfErrType :=
  if afterRemote then .noErr else .cacheEntryNotFound

/-- `MapSegment::removeWhenConcurrencyEnabled`, with `expTaskSet` beside the result. -/
def removeWhenConcurrencyEnabled (key : K) (updateCount : Int) (versionTag : Option VersionTag)
    (afterRemote : Bool) (expiryTaskID : Nat)
    : Except CacheException (RemoveResult V × Bool) × MapSegment K V :=
  match s.find key with
  | some entry =>
    s.withImplPtr entry fun entryImpl =>
      match s.checkVersion region entry versionTag false with
      | .error err => (.ok ({ err := err }, false), s)
      | .ok versionStamp =>
        let oldValue := entryImpl.getValueI
        let me := if oldValue.isNull then none else some entryImpl.addr
        let r := s.putForTrackedEntry region key (.token .tombstone) entry updateCount
          versionStamp none
        match r.1 with
        | .error x => (.error x, r.2)
        | .ok err =>
          let expTaskSet := decide (err = .noErr)
          let s := if expTaskSet then
              match r.2.find key with
              | some entry => r.2.addTombstone entry.obj expiryTaskID
              | none => r.2
            else r.2
          if oldValue.isTombstone then
            (.ok ({ err := notFoundUnless afterRemote, me := me }, expTaskSet), s)
          else (.ok ({ err := err, me := me, oldValue := oldValue }, expTaskSet), s)
  | none =>
    if versionTag.isSome then
      let r := s.putNoEntry key (.token .tombstone) (-1) 0 versionTag none
      let entry := s.newEntry key (.token .tombstone) versionTag none
      (.ok ({ err := notFoundUnless afterRemote, isEntryFound := false }, true),
        r.2.addTombstone entry expiryTaskID)
    else (.ok ({ err := notFoundUnless afterRemote, isEntryFound := false }, false), s)

/-- `MapSegment::remove`. Without concurrency checks the entry is unbound first, also when the
call then reports `GF_CACHE_ENTRY_UPDATED` or throws. -/
def remove (key : K) (updateCount : Int) (versionTag : Option VersionTag) (afterRemote : Bool) :
    Except CacheException (RemoveResult V) × MapSegment K V :=
  if s.concurrencyChecksEnabled then
    let t := s.getExpiryTask
    let r := t.2.removeWhenConcurrencyEnabled region key updateCount versionTag afterRemote t.1
    match r.1 with
    | .error x => (.error x, r.2)
    | .ok (result, expTaskSet) =>
      (.ok result, if expTaskSet then r.2 else r.2.cancelTask t.1)
  else
    match s.find key with
    | none =>
      let destroyedKeys := if s.numDestroyTrackers > 0 then
          s.destroyedKeys.insert key (s.numDestroyTrackers + 1)
        else s.destroyedKeys
      (.ok { err := .cacheEntryNotFound }, { s with destroyedKeys := destroyedKeys })
    | some entry =>
      let s := s.unbind key
      if updateCount ≥ 0 ∧ updateCount ≠ entry.getUpdateCount then
        (.ok { err := .cacheEntryUpdated }, s)
      else
        s.withImplPtr entry fun entryImpl =>
          let oldValue := if entryImpl.getValueI.isTombstone then .null else entryImpl.getValueI
          (.ok { err := .noErr, oldValue := oldValue
                 me := if oldValue.isNull then none else some entryImpl.addr }, s)

/-! ### Reading -/

/-- `MapSegment::getEntry`: the entry, or none when the source returns false. -/
def getEntry (key : K) : Except CacheException (Option (MapEntryImpl K V)) :=
  match s.find key with
  | none => .ok none
  | some entry =>
    match entry.getImplPtr with
    | .error x => .error x
    | .ok mePtr =>
      let value := mePtr.getValueI
      if value.isNull ∨ value.isTombstone then .ok none else .ok (some mePtr)

/-- The loop of `MapSegment::values` over the bindings that are left. A value on disk comes back to
the entry. -/
def collectValues (getFromDisc : K → MapEntryImpl K V → CacheablePtr V) (s : MapSegment K V)
    (result : List (CacheablePtr V)) :
    List (Sigma fun _ : K => MapEntry K V) →
      Except CacheException (List (CacheablePtr V)) × MapSegment K V
  | [] => (.ok result, s)
  | ⟨key, entry⟩ :: rest =>
    match entry.getImplPtr with
    | .error x => (.error x, s)
    | .ok entryImpl =>
      let value := entryImpl.getValueI
      if value.isNull ∨ value.isInvalid ∨ value.isDestroyed ∨ value.isTombstone then
        s.collectValues getFromDisc result rest
      else if value.isOverflowed then
        let value := getFromDisc key entryImpl
        (s.bind key (entry.mapObj fun e => e.setValueI value)).collectValues getFromDisc
          (result ++ [value]) rest
      else s.collectValues getFromDisc (result ++ [value]) rest

/-- `MapSegment::values`, which appends to `result`. -/
def values (getFromDisc : K → MapEntryImpl K V → CacheablePtr V) (s : MapSegment K V)
    (result : List (CacheablePtr V)) :
    Except CacheException (List (CacheablePtr V)) × MapSegment K V :=
  s.collectValues getFromDisc result s.map.entries

/-- `MapSegment::isTombstone`: the error with the reference parameter `result`. -/
def isTombstone (key : K) : Except CacheException (GfErrType × Bool) :=
  match s.find key with
  | none => .ok (.noErr, false)
  | some entry =>
    match entry.getImplPtr with
    | .error x => .error x
    | .ok entryImpl =>
      let value := entryImpl.getValueI
      if value.isNull then .ok (.noErr, false)
      else if value.isTombstone then
        if key ∈ s.tombstoneList then .ok (.noErr, true) else .ok (.cacheIllegalState, false)
      else if key ∈ s.tombstoneList then .ok (.cacheIllegalState, false)
      else .ok (.noErr, false)

end MapSegment

end GeodeNative.Cache

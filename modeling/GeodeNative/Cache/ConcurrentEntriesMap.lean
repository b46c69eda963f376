import GeodeNative.Cache.Operations

/-!
# The plain entries map

The map splits its keys over `n` segments by the hash code of the key, and counts its entries
in `m_size`, an unsigned counter of 32 bits. A segment does not change the counter. Each
operation of the map reads from the return code and the reference parameters of the segment
whether an entry appeared or went away.
-/

set_option autoImplicit false

namespace GeodeNative.Cache

/-- The state of a `ConcurrentEntriesMap` with `n` segments. `hashcode` is the virtual function
of the keys. -/
structure ConcurrentEntriesMap (K V : Type) (n : Nat) where
  hashcode : K → BitVec 32
  segments : Fin n → MapSegment K V
  size : BitVec 32
  concurrencyChecksEnabled : Bool

namespace ConcurrentEntriesMap

variable {K V D M : Type} {n : Nat} [NeZero n] [DecidableEq K]

/-- The map after the constructor and `open`. -/
def «open» (hashcode : K → BitVec 32) (primeIndex : Nat) (concurrencyChecksEnabled : Bool) :
    ConcurrentEntriesMap K V n where
  hashcode := hashcode
  segments := fun _ => MapSegment.open primeIndex concurrencyChecksEnabled
  size := 0
  concurrencyChecksEnabled := concurrencyChecksEnabled

variable (region : RegionInternal K V D M) (m : ConcurrentEntriesMap K V n)

def segmentIdx (key : K) : Fin n :=
  Fin.ofNat n (m.hashcode key).toNat

def segmentFor (key : K) : MapSegment K V :=
  m.segments (m.segmentIdx key)

/-- The map after its segment for `key` changed to `s`. -/
def setSegment (key : K) (s : MapSegment K V) : ConcurrentEntriesMap K V n :=
  { m with segments := Function.update m.segments (m.segmentIdx key) s }

/-- The entry bound at `key`. -/
def find (key : K) : Option (MapEntry K V) :=
  (m.segmentFor key).find key

/-- `ConcurrentEntriesMap::create`. -/
def create (key : K) (newValue : CacheablePtr V) (updateCount destroyTracker : Int)
    (versionTag : Option VersionTag) :
    Except CacheException (CreateResult V) × ConcurrentEntriesMap K V n :=
  let r := (m.segmentFor key).create region key newValue updateCount destroyTracker versionTag
  let m := m.setSegment key r.2
  match r.1 with
  | .error x => (.error x, m)
  | .ok res =>
    if res.err = .noErr ∧ res.oldValue.isNull then (.ok res, { m with size := m.size + 1 })
    else (.ok res, m)

/-- `ConcurrentEntriesMap::put`. -/
def put (key : K) (newValue : CacheablePtr V) (updateCount destroyTracker : Int)
    (versionTag : Option VersionTag) (delta : Option D) :
    Except CacheException (PutResult V) × ConcurrentEntriesMap K V n :=
  let r := (m.segmentFor key).put region key newValue updateCount destroyTracker versionTag delta
  let m := m.setSegment key r.2
  match r.1 with
  | .error x => (.error x, m)
  | .ok res =>
    if res.err ≠ .noErr then (.ok res, m)
    else if !res.isUpdate then (.ok res, { m with size := m.size + 1 })
    else (.ok res, m)

/-- `ConcurrentEntriesMap::invalidate`. -/
def invalidate (key : K) (versionTag : Option VersionTag) :
    Except CacheException (InvalidateResult V) × ConcurrentEntriesMap K V n :=
  let r := (m.segmentFor key).invalidate region key versionTag
  let m := m.setSegment key r.2
  match r.1 with
  | .error x => (.error x, m)
  | .ok res =>
    if res.isTokenAdded then (.ok res, { m with size := m.size + 1 }) else (.ok res, m)

/-- `ConcurrentEntriesMap::remove`. -/
def remove (key : K) (updateCount : Int) (versionTag : Option VersionTag) (afterRemote : Bool) :
    Except CacheException (RemoveResult V) × ConcurrentEntriesMap K V n :=
  let r := (m.segmentFor key).remove region key updateCount versionTag afterRemote
  let m := m.setSegment key r.2
  match r.1 with
  | .error x => (.error x, m)
  | .ok res =>
    if res.err = .noErr ∧ res.isEntryFound then (.ok res, { m with size := m.size - 1 })
    else (.ok res, m)

/-- `ConcurrentEntriesMap::addTrackerForEntry`. -/
def addTrackerForEntry (key : K) (addIfAbsent failIfPresent incUpdateCount : Bool) :
    Except CacheException (Int × CacheablePtr V) × ConcurrentEntriesMap K V n :=
  if m.concurrencyChecksEnabled then (.ok (-1, .null), m)
  else
    let r := (m.segmentFor key).addTrackerForEntry key addIfAbsent failIfPresent incUpdateCount
    (r.1, m.setSegment key r.2)

/-- `ConcurrentEntriesMap::removeTrackerForEntry`. -/
def removeTrackerForEntry (key : K) : Except CacheException Unit × ConcurrentEntriesMap K V n :=
  if m.concurrencyChecksEnabled then (.ok (), m)
  else
    let r := (m.segmentFor key).removeTrackerForEntry key
    (r.1, m.setSegment key r.2)

/-- The map after its segment `i` changed to `s`. -/
def withSegment (i : Fin n) (s : MapSegment K V) : ConcurrentEntriesMap K V n :=
  { m with segments := Function.update m.segments i s }

/-- `m_numDestroyTrackers`, the counter that all segments point to. -/
def numDestroyTrackers : Int := (m.segments 0).numDestroyTrackers

/-- The map after the counter changed to `count`. -/
def setNumDestroyTrackers (count : Int) : ConcurrentEntriesMap K V n :=
  { m with segments := fun i => { m.segments i with numDestroyTrackers := count } }

/-- The loop of `addTrackerForAllEntries` over the segments that are left. -/
def trackSegments (m : ConcurrentEntriesMap K V n) (updateCounterMap : AList fun _ : K => Int) :
    List (Fin n) →
      Except TrackAllError (AList fun _ : K => Int) × ConcurrentEntriesMap K V n
  | [] => (.ok updateCounterMap, m)
  | index :: rest =>
    let r := (m.segments index).addTrackerForAllEntries updateCounterMap
    let m := m.withSegment index r.2
    match r.1 with
    | .error x => (.error x, m)
    | .ok updateCounterMap => m.trackSegments updateCounterMap rest

/-- `ConcurrentEntriesMap::addTrackerForAllEntries`: the number that it returns with the map of
counters. -/
def addTrackerForAllEntries (updateCounterMap : AList fun _ : K => Int) (addDestroyTracking : Bool)
    : Except TrackAllError (Int × AList fun _ : K => Int) × ConcurrentEntriesMap K V n :=
  if m.concurrencyChecksEnabled then (.ok (-1, updateCounterMap), m)
  else
    let r := m.trackSegments updateCounterMap (List.finRange n)
    let m := r.2
    match r.1 with
    | .error x => (.error x, m)
    | .ok updateCounterMap =>
      if addDestroyTracking then
        let m := m.setNumDestroyTrackers (m.numDestroyTrackers + 1)
        (.ok (m.numDestroyTrackers, updateCounterMap), m)
      else (.ok (0, updateCounterMap), m)

/-- `ConcurrentEntriesMap::removeDestroyTracking`. -/
def removeDestroyTracking : ConcurrentEntriesMap K V n :=
  if m.concurrencyChecksEnabled then m
  else
    let m := m.setNumDestroyTrackers (m.numDestroyTrackers - 1)
    if m.numDestroyTrackers = 0 then
      { m with segments := fun i => (m.segments i).removeDestroyTracking }
    else m

/-- `ConcurrentEntriesMap::get`. -/
def get (key : K) : Except CacheException (Option (MapEntryImpl K V)) :=
  (m.segmentFor key).getEntry key

/-- `ConcurrentEntriesMap::reapTombstones(CacheableHashSetPtr)`: the set goes to every segment. -/
def reapTombstoneKeys (removedKeys : List K) : ConcurrentEntriesMap K V n :=
  { m with segments := fun i => (m.segments i).reapTombstoneKeys removedKeys }

/-- `ConcurrentEntriesMap::clear`. -/
def clear : ConcurrentEntriesMap K V n :=
  { m with segments := fun i => (m.segments i).clear, size := 0 }

end ConcurrentEntriesMap

/-- A call on the map. -/
inductive MapOp (K V D : Type) where
  | entry (op : EntryOp K V D)
  | clear

/-- The map after the call. -/
def MapOp.step {K V D M : Type} {n : Nat} [NeZero n] [DecidableEq K]
    (region : RegionInternal K V D M) (m : ConcurrentEntriesMap K V n) :
    MapOp K V D → ConcurrentEntriesMap K V n
  | entry (.create key newValue updateCount destroyTracker versionTag) =>
    (m.create region key newValue updateCount destroyTracker versionTag).2
  | entry (.put key newValue updateCount destroyTracker versionTag delta) =>
    (m.put region key newValue updateCount destroyTracker versionTag delta).2
  | entry (.invalidate key versionTag) => (m.invalidate region key versionTag).2
  | entry (.remove key updateCount versionTag afterRemote) =>
    (m.remove region key updateCount versionTag afterRemote).2
  | entry (.addTrackerForEntry key addIfAbsent failIfPresent incUpdateCount) =>
    (m.addTrackerForEntry key addIfAbsent failIfPresent incUpdateCount).2
  | entry (.removeTrackerForEntry key) => (m.removeTrackerForEntry key).2
  | clear => m.clear

end GeodeNative.Cache

import GeodeNative.Cache.MapSegment

/-!
# The calls on a segment as data

A run of a segment is a list of calls. `EntryOp` has the calls that name one key, with their
arguments. `SegmentOp` adds the calls on the whole segment and the expiry of a tombstone.
`EntryOp.exec` makes a call and returns its outcome with the segment afterwards.
-/

set_option autoImplicit false

namespace GeodeNative.Cache

/-- A call on one key. `D` is the type of deltas. -/
inductive EntryOp (K V D : Type) where
  | create (key : K) (newValue : CacheablePtr V) (updateCount destroyTracker : Int)
      (versionTag : Option VersionTag)
  | put (key : K) (newValue : CacheablePtr V) (updateCount destroyTracker : Int)
      (versionTag : Option VersionTag) (delta : Option D)
  | invalidate (key : K) (versionTag : Option VersionTag)
  | remove (key : K) (updateCount : Int) (versionTag : Option VersionTag) (afterRemote : Bool)
  | addTrackerForEntry (key : K) (addIfAbsent failIfPresent incUpdateCount : Bool)
  | removeTrackerForEntry (key : K)

/-- The result of a call that did not throw. -/
inductive EntryResult (V : Type) where
  | create (r : CreateResult V)
  | put (r : PutResult V)
  | invalidate (r : InvalidateResult V)
  | remove (r : RemoveResult V)
  | addTrackerForEntry (updateCount : Int) (oldValue : CacheablePtr V)
  | removeTrackerForEntry
  deriving DecidableEq

namespace EntryResult

variable {V : Type}

/-- The call returned `GF_NOERR`. The tracker calls return no code. -/
def isNoErr : EntryResult V → Bool
  | create r => r.err = .noErr
  | put r => r.err = .noErr
  | invalidate r => r.err = .noErr
  | remove r => r.err = .noErr
  | addTrackerForEntry _ _ => false
  | removeTrackerForEntry => false

end EntryResult

namespace EntryOp

variable {K V D M : Type}

/-- The key of the call. -/
def key : EntryOp K V D → K
  | create key .. => key
  | put key .. => key
  | invalidate key .. => key
  | remove key .. => key
  | addTrackerForEntry key .. => key
  | removeTrackerForEntry key => key

/-- Make the call. -/
def exec [DecidableEq K] (region : RegionInternal K V D M) (s : MapSegment K V) :
    EntryOp K V D → Except CacheException (EntryResult V) × MapSegment K V
  | create key newValue updateCount destroyTracker versionTag =>
    let r := s.create region key newValue updateCount destroyTracker versionTag
    (r.1.map .create, r.2)
  | put key newValue updateCount destroyTracker versionTag delta =>
    let r := s.put region key newValue updateCount destroyTracker versionTag delta
    (r.1.map .put, r.2)
  | invalidate key versionTag =>
    let r := s.invalidate region key versionTag
    (r.1.map .invalidate, r.2)
  | remove key updateCount versionTag afterRemote =>
    let r := s.remove region key updateCount versionTag afterRemote
    (r.1.map .remove, r.2)
  | addTrackerForEntry key addIfAbsent failIfPresent incUpdateCount =>
    let r := s.addTrackerForEntry key addIfAbsent failIfPresent incUpdateCount
    (r.1.map fun c => .addTrackerForEntry c.1 c.2, r.2)
  | removeTrackerForEntry key =>
    let r := s.removeTrackerForEntry key
    (r.1.map fun _ => .removeTrackerForEntry, r.2)

/-- The segment after the call. -/
def step [DecidableEq K] (region : RegionInternal K V D M) (s : MapSegment K V)
    (op : EntryOp K V D) : MapSegment K V :=
  (op.exec region s).2

end EntryOp

/-- A call on a segment, or the expiry of the tombstone of a pending task. -/
inductive SegmentOp (K V D : Type) where
  | entry (op : EntryOp K V D)
  | clear
  | reapTombstones (gcVersions : AList fun _ : BitVec 16 => Int)
  | reapTombstoneKeys (removedKeys : List K)
  | handleTimeout (taskid : Nat)

/-- The segment after the call. -/
def SegmentOp.step {K V D M : Type} [DecidableEq K] (region : RegionInternal K V D M)
    (s : MapSegment K V) : SegmentOp K V D → MapSegment K V
  | entry op => op.step region s
  | clear => s.clear
  | reapTombstones gcVersions => s.reapTombstones gcVersions
  | reapTombstoneKeys removedKeys => s.reapTombstoneKeys removedKeys
  | handleTimeout taskid => s.handleTimeout taskid

end GeodeNative.Cache

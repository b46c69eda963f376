import GeodeNative.Cache.VersionStamp

/-!
# The entries that a map segment binds

A segment binds a key to a `MapEntry`. The entry is either a `MapEntryImpl`, which holds the
key, the value and the version stamp, or a `TrackedMapEntry`, a wrapper with two counters
around a `MapEntryImpl`.

The number of trackers and the number of updates of a `MapEntryImpl` are template arguments
of its class, `MapEntryT<TBase, NUM_TRACKERS, UPDATE_COUNT>`. To change them, the source
runs placement new on the object with the constructor `MapEntryT(bool noInit)`. That
constructor runs `MapEntryImpl(bool noInit)`, which sets the value and the key to null and
starts a new `enable_shared_from_this`. So after placement new the object has lost its key,
its value and its stamp, and `shared_from_this` throws `bad_weak_ptr`.
`MapEntryImpl.placementNew` is this object.

The counters stop at `GF_TRACK_MAX` and `GF_UPDATE_MAX`. There the source makes a
`TrackedMapEntry` around `shared_from_this()`.
-/

set_option autoImplicit false

namespace GeodeNative.Cache

/-- `CacheableToken::TokenType`, without `NOT_USED`. -/
inductive TokenType where
  | invalid
  | destroyed
  | overflowed
  | tombstone
  deriving DecidableEq, Repr

/-- A `CacheablePtr`: null, one of the four tokens, or a value of the application. -/
inductive CacheablePtr (V : Type) where
  | null
  | token (t : TokenType)
  | object (v : V)
  deriving DecidableEq, Repr

namespace CacheablePtr

variable {V : Type} (v : CacheablePtr V)

/-- `CacheableToken::isInvalid`. -/
def isInvalid : Bool := v matches .token .invalid

/-- `CacheableToken::isDestroyed`. -/
def isDestroyed : Bool := v matches .token .destroyed

/-- `CacheableToken::isOverflowed`. -/
def isOverflowed : Bool := v matches .token .overflowed

/-- `CacheableToken::isTombstone`. -/
def isTombstone : Bool := v matches .token .tombstone

/-- The pointer is null. -/
def isNull : Bool := v matches .null

/-- The pointer is one of the four tokens. -/
def isToken : Bool := v matches .token _

end CacheablePtr

/-- The exceptions that leave a segment operation. `OutOfRangeException` of the table of
primes is not one of them: it needs a segment with more than four thousand million keys. -/
inductive CacheException where
  /-- `std::bad_weak_ptr`, thrown by `shared_from_this` -/
  | badWeakPtr
  deriving DecidableEq, Repr

/-- `GF_TRACK_MAX`. -/
def gfTrackMax : Nat := 4

/-- `GF_UPDATE_MAX`. -/
def gfUpdateMax : Nat := 8

/-- An object of class `MapEntryT<TBase, numTrackers, updateCount>`. `addr` is the address
of the object, so that two pointers to it can be compared. `weakThis` says whether
`shared_from_this` finds the owning pointer. -/
structure MapEntryImpl (K V : Type) where
  addr : Nat
  key : Option K
  value : CacheablePtr V
  stamp : VersionStamp
  numTrackers : Nat
  updateCount : Nat
  weakThis : Bool
  deriving DecidableEq, Repr

namespace MapEntryImpl

variable {K V : Type}

/-- `EntryFactory::newMapEntry`: a new object of class `MapEntryT<TBase, 0, 0>`. -/
def newMapEntry (addr : Nat) (key : K) : MapEntryImpl K V where
  addr := addr
  key := some key
  value := .null
  stamp := {}
  numTrackers := 0
  updateCount := 0
  weakThis := true

/-- The object at `addr` after `new (loc) MapEntryT<TBase, numTrackers, updateCount>(true)`. -/
def placementNew (addr numTrackers updateCount : Nat) : MapEntryImpl K V where
  addr := addr
  key := none
  value := .null
  stamp := {}
  numTrackers := numTrackers
  updateCount := updateCount
  weakThis := false

/-- `MapEntryImpl::getValueI`. A destroyed value reads as null. -/
def getValueI (e : MapEntryImpl K V) : CacheablePtr V :=
  if e.value.isDestroyed then .null else e.value

/-- `MapEntryImpl::setValueI`. -/
def setValueI (e : MapEntryImpl K V) (value : CacheablePtr V) : MapEntryImpl K V :=
  { e with value := value }

/-- `getVersionStamp().setVersions(versionStamp)`. -/
def setStamp (e : MapEntryImpl K V) (stamp : VersionStamp) : MapEntryImpl K V :=
  { e with stamp := stamp }

/-- `shared_from_this()`. -/
def sharedFromThis (e : MapEntryImpl K V) : Except CacheException (MapEntryImpl K V) :=
  if e.weakThis then .ok e else .error .badWeakPtr

end MapEntryImpl

/-- A `MapEntryPtr`: an entry, or a `TrackedMapEntry` around one. -/
inductive MapEntry (K V : Type) where
  | impl (e : MapEntryImpl K V)
  | tracked (e : MapEntryImpl K V) (trackingNumber updateCount : Nat)
  deriving DecidableEq, Repr

/-- What `addTracker` and `incrementUpdateCount` leave behind: the returned count, the entry
they were called on, and the reference parameter `newEntry`. -/
structure TrackResult (K V : Type) where
  count : Nat
  entry : MapEntry K V
  newEntry : Option (MapEntry K V)

namespace MapEntry

variable {K V : Type}

/-- The `MapEntryImpl` object behind the pointer. Reading through it never throws. -/
def obj : MapEntry K V → MapEntryImpl K V
  | impl e => e
  | tracked e _ _ => e

/-- The same pointer with the object behind it changed in place. -/
def mapObj (f : MapEntryImpl K V → MapEntryImpl K V) : MapEntry K V → MapEntry K V
  | impl e => impl (f e)
  | tracked e n u => tracked (f e) n u

/-- `MapEntry::getImplPtr`. -/
def getImplPtr : MapEntry K V → Except CacheException (MapEntryImpl K V)
  | impl e => e.sharedFromThis
  | tracked e _ _ => .ok e

/-- `MapEntry::getUpdateCount`. -/
def getUpdateCount : MapEntry K V → Nat
  | impl e => e.updateCount
  | tracked _ _ u => u

/-- `MapEntry::getVersionStamp`. -/
def getVersionStamp (e : MapEntry K V) : VersionStamp := e.obj.stamp

/-- `MapEntry::addTracker`. -/
def addTracker (entry : MapEntry K V) (newEntry : Option (MapEntry K V)) :
    Except CacheException (TrackResult K V) :=
  match entry with
  | impl e =>
    if e.numTrackers = gfTrackMax then do
      let this ← e.sharedFromThis
      return { count := e.updateCount, entry := impl e,
               newEntry := some (tracked this (gfTrackMax + 1) e.updateCount) }
    else
      .ok { count := e.updateCount
            entry := impl (.placementNew e.addr (e.numTrackers + 1) e.updateCount)
            newEntry := newEntry }
  | tracked e n u => .ok { count := u, entry := tracked e (n + 1) u, newEntry := newEntry }

/-- `MapEntry::incrementUpdateCount`. -/
def incrementUpdateCount (entry : MapEntry K V) (newEntry : Option (MapEntry K V)) :
    Except CacheException (TrackResult K V) :=
  match entry with
  | impl e =>
    if e.updateCount = gfUpdateMax then do
      let this ← e.sharedFromThis
      return { count := gfUpdateMax + 1, entry := impl e,
               newEntry := some (tracked this e.numTrackers (gfUpdateMax + 1)) }
    else if e.numTrackers = 0 then
      .ok { count := e.updateCount, entry := impl e, newEntry := newEntry }
    else
      .ok { count := e.updateCount + 1
            entry := impl (.placementNew e.addr e.numTrackers (e.updateCount + 1))
            newEntry := newEntry }
  | tracked e n u => .ok { count := u + 1, entry := tracked e n (u + 1), newEntry := newEntry }

/-- The entry that is bound after `addTracker` or `incrementUpdateCount`: `newEntry` if it was
set, and otherwise the entry itself. A new wrapper points to the object of the entry. -/
def bound (r : TrackResult K V) : MapEntry K V :=
  match r.newEntry with
  | some newEntry => newEntry.mapObj fun _ => r.entry.obj
  | none => r.entry

/-- `MapEntry::removeTracker`: whether the wrapped entry should be bound again, the number
of trackers left, and the entry afterwards. -/
def removeTracker : MapEntry K V → (Bool × Nat) × MapEntry K V
  | impl e =>
    if e.numTrackers = 0 then ((false, 0), impl e)
    else if e.numTrackers = 1 then ((false, 0), impl (.placementNew e.addr 0 0))
    else
      ((false, e.numTrackers - 1),
        impl (.placementNew e.addr (e.numTrackers - 1) e.updateCount))
  | tracked e n u =>
    let n := if n > 0 then n - 1 else n
    if n = 0 then ((true, 0), tracked e 0 0) else ((false, n), tracked e n u)

end MapEntry

end GeodeNative.Cache

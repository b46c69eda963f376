import GeodeNative.Cache.ConcurrentEntriesMap
import GeodeNative.Cache.LRUList

/-!
# The entries map with eviction

The model of `LRUEntriesMap` (`LRUEntriesMap.cpp`) with its actions `TestMapAction`,
`LRULocalDestroyAction` and `LRUOverFlowToDiskAction` (`LRUAction.cpp`). The map calls its segments
as the plain map does. It keeps a second counter, of the entries whose value is in memory, and the
sizes of keys and values for the eviction controller, and it appends the entries to an `LRUList`.
When a counter exceeds the limit, it takes entries from the list and evicts them.

An entry of the list is named by its key and its address. `none` is the entry without a key that the
list is constructed with. An entry stays in the list when its segment does not bind it any more; the
value that it then still holds is in `unbound`.

`LRULocalDestroyAction` goes through the region, which removes the key from the map; the events of
the region are left out. The persistence manager is a parameter, since its implementations are not
part of the library. `persistenceFailed` records that one of its calls threw; the map does not read
it.
-/

set_option autoImplicit false

namespace GeodeNative.Cache

/-- What the map reads from its surroundings: the region, the virtual `objectSize` of keys and
values, and the persistence manager with states `S`. A persistence call that throws gives none.
`write` and `read` can change the pointer that they are passed. -/
structure LRURegion (K V D M P S : Type) extends RegionInternal K V D M where
  isDestroyed : Bool
  keySize : K → BitVec 32
  valueSize : V → BitVec 32
  write : S → K → CacheablePtr V → Option P → Option (Option P × S)
  read : S → K → Option P → Option (CacheablePtr V × Option P)
  destroy : S → K → Option P → Option S

/-- The action of a map. `localDestroy` has the update count that the action passes to `remove`: 0
in `TestMapAction`, -1 in `LRULocalDestroyAction`. -/
inductive LRUAction where
  | localDestroy (updateCount : Int)
  | overflowToDisk
  deriving DecidableEq

/-- `LRUAction::overflows`. -/
def LRUAction.overflows : LRUAction → Bool
  | localDestroy _ => false
  | overflowToDisk => true

/-- The exceptions that leave an operation: those of a segment, those of the persistence manager,
the `FatalInternalException` of the overflow action, and the use of a null pointer. -/
inductive LRUException where
  | cache (x : CacheException)
  | persistence
  | fatalInternal
  | nullPointer
  deriving DecidableEq

/-- What `LRUEntriesMap::get` returns, with `returnPtr` and `me`. -/
structure GetResult (V : Type) where
  found : Bool
  returnPtr : CacheablePtr V
  me : Option Nat
  deriving DecidableEq

/-- The state of an `LRUEntriesMap` with `n` segments. `evictionController` says whether there is an
eviction controller, and `persisted` is the state of the persistence manager. -/
structure LRUEntriesMap (K V P S : Type) (n : Nat) extends ConcurrentEntriesMap K V n where
  action : LRUAction
  lruList : LRUList (Option (K × Nat)) P
  limit : BitVec 32
  evictionController : Bool
  currentMapSize : Int
  validEntries : BitVec 32
  heapLRUEnabled : Bool
  unbound : K × Nat → CacheablePtr V
  persisted : S
  persistenceFailed : Bool

/-- `CacheableToken::objectSize`, and `sizeof(void*)`. -/
def tokenSize : BitVec 32 := 4

@[inherit_doc tokenSize]
def pointerSize : Int := 8

namespace LRURegion

variable {K V D M P S : Type}

/-- `objectSize` of a value, and none for a null pointer. -/
def objectSize (env : LRURegion K V D M P S) : CacheablePtr V → Option (BitVec 32)
  | .null => none
  | .token _ => some tokenSize
  | .object v => some (env.valueSize v)

/-- The size that is taken off for an old value: that of a pointer when it is null. -/
def oldSize (env : LRURegion K V D M P S) (oldValue : CacheablePtr V) : Int :=
  match env.objectSize oldValue with
  | some size => size.toNat
  | none => pointerSize

end LRURegion

namespace LRUEntriesMap

variable {K V D M P S : Type} {n : Nat} [NeZero n] [DecidableEq K]

/-- The map after the constructor and `open`. -/
def «open» (hashcode : K → BitVec 32) (primeIndex : Nat) (concurrencyChecksEnabled : Bool)
    (action : LRUAction) (limit : BitVec 32) (evictionController heapLRUEnabled : Bool)
    (persisted : S) : LRUEntriesMap K V P S n where
  toConcurrentEntriesMap := .open hashcode primeIndex concurrencyChecksEnabled
  action := action
  lruList := .new none
  limit := limit
  evictionController := evictionController
  currentMapSize := 0
  validEntries := 0
  heapLRUEnabled := heapLRUEnabled
  unbound := fun _ => .null
  persisted := persisted
  persistenceFailed := false

/-! ### Entries -/

variable (env : LRURegion K V D M P S) (m : LRUEntriesMap K V P S n)

/-- The map after its segment for `key` changed to `s`. An entry that the segment has let go keeps
its value. -/
def changeSegment (key : K) (s : MapSegment K V) : LRUEntriesMap K V P S n :=
  let m' := { m with toConcurrentEntriesMap := m.setSegment key s }
  match m.find key with
  | none => m'
  | some entry =>
    if (s.find key).map (·.obj.addr) = some entry.obj.addr then m'
    else { m' with
      unbound := Function.update m.unbound (key, entry.obj.addr) entry.obj.value }

/-- The entry object with this key and address, as far as it is bound. -/
def boundEntry (key : K) (addr : Nat) : Option (MapEntry K V) :=
  (m.find key).filter fun entry => entry.obj.addr = addr

/-- `getValueI` of an entry of the list. -/
def getValueI (key : K) (addr : Nat) : CacheablePtr V :=
  match m.boundEntry key addr with
  | some entry => entry.obj.getValueI
  | none => if (m.unbound (key, addr)).isDestroyed then .null else m.unbound (key, addr)

/-- `setValueI` of an entry of the list. -/
def setValueI (key : K) (addr : Nat) (value : CacheablePtr V) : LRUEntriesMap K V P S n :=
  match m.boundEntry key addr with
  | some entry =>
    let s := (m.segmentFor key).bind key (entry.mapObj fun e => e.setValueI value)
    { m with toConcurrentEntriesMap := m.setSegment key s }
  | none => { m with unbound := Function.update m.unbound (key, addr) value }

/-- The properties of an entry, from `getLRUProperties`. -/
def properties (key : K) (addr : Nat) : LRUEntryProperties P :=
  m.lruList.properties (some (key, addr))

/-- `m_lruList.appendEntry`. -/
def appendEntry (key : K) (addr : Nat) : LRUEntriesMap K V P S n :=
  { m with lruList := m.lruList.appendEntry (some (key, addr)) }

/-- `setRecentlyUsed` of an entry. -/
def setRecentlyUsed (key : K) (addr : Nat) : LRUEntriesMap K V P S n :=
  { m with lruList := m.lruList.setRecentlyUsed (some (key, addr)) }

/-- A value that goes: one valid entry less, and the entry counts as evicted. -/
def retire (key : K) (addr : Nat) : LRUEntriesMap K V P S n :=
  { m with
    validEntries := m.validEntries - 1
    lruList := m.lruList.setEvicted (some (key, addr)) }

/-- A value that comes back from disk: one valid entry more, and a node for the entry. -/
def revive (key : K) (addr : Nat) : LRUEntriesMap K V P S n :=
  { m with
    validEntries := m.validEntries + 1
    lruList := (m.lruList.clearEvicted (some (key, addr))).appendEntry (some (key, addr)) }

/-! ### The eviction controller and the persistence manager -/

def updateMapSize (size : Int) : LRUEntriesMap K V P S n :=
  if m.evictionController then { m with currentMapSize := m.currentMapSize + size } else m

/-- The read of an overflowed value that is about to be replaced, with the call of `destroy`. -/
def retrieve (key : K) (addr : Nat) :
    Except LRUException (CacheablePtr V) × LRUEntriesMap K V P S n :=
  match env.read m.persisted key (m.properties key addr).persistenceInfo with
  | none => (.error .persistence, { m with persistenceFailed := true })
  | some (oldValue, persistenceInfo) =>
    if oldValue.isNull then (.ok oldValue, m)
    else
      match env.destroy m.persisted key persistenceInfo with
      | none => (.error .persistence, { m with persistenceFailed := true })
      | some persisted => (.ok oldValue, { m with persisted := persisted })

/-- The old value as it is reported, where `me` is the entry: an overflowed value is read. -/
def retrieveOverflowed (key : K) (me : Option Nat) (oldValue : CacheablePtr V) :
    Except LRUException (CacheablePtr V) × LRUEntriesMap K V P S n :=
  if oldValue.isOverflowed then
    match me with
    | none => (.error .nullPointer, m)
    | some addr => m.retrieve env key addr
  else (.ok oldValue, m)

/-- An exception gives a null pointer. -/
def getFromDisk (key : K) (me : MapEntryImpl K V) : CacheablePtr V :=
  match env.read m.persisted key (m.properties key me.addr).persistenceInfo with
  | some (tmpObj, _) => tmpObj
  | none => .null

/-- The region as the segments see it: their `getFromDisc` asks this map. -/
def region : RegionInternal K V D M :=
  { env.toRegionInternal with
    getFromDisk := fun key me =>
      match m.getFromDisk env key me with
      | .object v => some v
      | _ => none }

/-! ### Removal and eviction -/

/-- The part of `remove` for the list and the counters. -/
def countRemoved (key : K) (addr : Nat) (result : CacheablePtr V) (isEntryFound : Bool)
    : LRUEntriesMap K V P S n :=
  { m with
    lruList := m.lruList.setEvicted (some (key, addr))
    size := if isEntryFound then m.size - 1 else m.size
    validEntries := if result.isToken then m.validEntries else m.validEntries - 1 }

/-- The part of `remove` for the eviction controller. -/
def accountRemoved (key : K) (result : CacheablePtr V)
    : Except LRUException Unit × LRUEntriesMap K V P S n :=
  if m.evictionController then
    match env.objectSize result with
    | none => (.error .nullPointer, m)
    | some size => (.ok (), m.updateMapSize (-1 * ((env.keySize key).toNat + size.toNat)))
  else (.ok (), m)

/-- `LRUEntriesMap::remove`. -/
def remove (key : K) (updateCount : Int) (versionTag : Option VersionTag) (afterRemote : Bool) :
    Except LRUException (RemoveResult V) × LRUEntriesMap K V P S n :=
  match (m.segmentFor key).remove (m.region env) key updateCount versionTag afterRemote with
  | (.error x, s) => (.error (.cache x), m.changeSegment key s)
  | (.ok res, s) =>
    let m := m.changeSegment key s
    match res.me with
    | none => (.ok res, m)
    | some addr =>
      if res.err ≠ .noErr ∨ res.oldValue.isNull then (.ok res, m)
      else
        let m := m.countRemoved key addr res.oldValue res.isEntryFound
        match m.retrieveOverflowed env key (some addr) res.oldValue with
        | (.error x, m) => (.error x, m)
        | (.ok result, m) =>
          match m.accountRemoved env key result with
          | (.error x, m) => (.error x, m)
          | (.ok _, m) => (.ok { res with oldValue := result }, m)

/-- `LRUOverFlowToDiskAction::evict`. The difference of the two sizes is unsigned. -/
def evictToDisk (key : K) (addr : Nat) : Except LRUException Bool × LRUEntriesMap K V P S n :=
  if env.isDestroyed then (.ok false, m)
  else
    let value := m.getValueI key addr
    match env.objectSize value with
    | none => (.error .fatalInternal, m)
    | some valueSize =>
      let persistenceInfo := (m.properties key addr).persistenceInfo
      match env.write m.persisted key value persistenceInfo with
      | none => (.ok false, { m with persistenceFailed := true })
      | some (newInfo, persisted) =>
        let m := { m with
          persisted := persisted
          lruList := if persistenceInfo.isNone then
              m.lruList.setPersistenceInfo (some (key, addr)) newInfo
            else m.lruList }
        let m := m.setValueI key addr (.token .overflowed)
        (.ok true, m.updateMapSize (tokenSize - valueSize).toNat)

/-- `m_action->evict`. -/
def evict (key : K) (addr : Nat) : Except LRUException Bool × LRUEntriesMap K V P S n :=
  match m.action with
  | .localDestroy updateCount =>
    match m.remove env key updateCount none false with
    | (.error x, m) => (.error x, m)
    | (.ok res, m) => (.ok (res.err = .noErr), m)
  | .overflowToDisk => m.evictToDisk env key addr

/-- The entry without a key is evicted from the start and is never returned by the
list. -/
def evictionHelper : Except LRUException GfErrType × LRUEntriesMap K V P S n :=
  match m.lruList.getLRUEntry with
  | (none, lruList) => (.ok .enoent, { m with lruList := lruList })
  | (some none, lruList) => (.error .nullPointer, { m with lruList := lruList })
  | (some (some (key, addr)), lruList) =>
    match evict env { m with lruList := lruList } key addr with
    | (.error x, m) => (.error x, m)
    | (.ok false, m) => (.ok .diskFull, m)
    | (.ok true, m) => (.ok .noErr, if m.action.overflows then m.retire key addr else m)

def mustEvict : Bool :=
  if m.action.overflows then m.validEntries > m.limit
  else if m.heapLRUEnabled ∧ m.limit = 0 then false
  else m.size > m.limit

/-- The loop of `processLRU()`, with a bound on its rounds. -/
def evictWhile (env : LRURegion K V D M P S) :
    Nat → LRUEntriesMap K V P S n → Except LRUException GfErrType × LRUEntriesMap K V P S n
  | 0, m => (.ok .noErr, m)
  | rounds + 1, m =>
    if m.mustEvict then
      match m.evictionHelper env with
      | (.ok .noErr, m) => evictWhile env rounds m
      | r => r
    else (.ok .noErr, m)

/-- `processLRU()`. Each round takes a node off the list, or marks the last one. -/
def processLRU : Except LRUException GfErrType × LRUEntriesMap K V P S n :=
  m.evictWhile env (2 * m.lruList.nodes.length)

/-- `processLRU(numEntriesToEvict)`, which the eviction controller calls. -/
def processLRUTimes (env : LRURegion K V D M P S) :
    Nat → LRUEntriesMap K V P S n → Except LRUException Unit × LRUEntriesMap K V P S n
  | 0, m => (.ok (), m)
  | numEntriesToEvict + 1, m =>
    if m.validEntries > 0 ∧ m.size > 0 then
      match m.evictionHelper env with
      | (.error x, m) => (.error x, m)
      | (.ok _, m) => processLRUTimes env numEntriesToEvict m
    else (.ok (), m)

/-! ### The operations -/

/-- The part of `create` for the counters. -/
def countCreated (newValue oldValue : CacheablePtr V) : LRUEntriesMap K V P S n :=
  { m with
    validEntries := if newValue.isToken then m.validEntries else m.validEntries + 1
    size := if oldValue.isInvalid then m.size else m.size + 1 }

/-- The size that `create` adds for the eviction controller. -/
def createdSize (key : K) (newValue oldValue : CacheablePtr V) : Int :=
  (env.objectSize newValue).elim 0 (fun size => (size.toNat : Int)) + (env.keySize key).toNat -
    env.oldSize oldValue

/-- `LRUEntriesMap::create`. -/
def create (key : K) (newValue : CacheablePtr V) (updateCount destroyTracker : Int)
    (versionTag : Option VersionTag) :
    Except LRUException (CreateResult V) × LRUEntriesMap K V P S n :=
  match (m.segmentFor key).create (m.region env) key newValue updateCount destroyTracker
      versionTag with
  | (.error x, s) => (.error (.cache x), m.changeSegment key s)
  | (.ok res, s) =>
    let m := m.changeSegment key s
    if res.err ≠ .noErr then (.ok res, m)
    else
      let m := m.countCreated newValue res.oldValue
      match (m.segmentFor key).getEntry key with
      | .error x => (.error (.cache x), m)
      | .ok none => (.ok res, m)
      | .ok (some mePtr) =>
        let m := m.appendEntry key mePtr.addr
        match (m.updateMapSize (createdSize env key newValue res.oldValue)).processLRU env with
        | (.error x, m) => (.error x, m)
        | (.ok err, m) => (.ok { res with err := err, me := some mePtr.addr }, m)

/-- The part of `put` for the tokens: a token that replaces a value, or a value that replaces a
token. -/
def countPut (newValue oldValue : CacheablePtr V) : LRUEntriesMap K V P S n :=
  { m with validEntries :=
      if newValue.isToken ∧ !oldValue.isToken then m.validEntries - 1
      else if !newValue.isToken ∧ oldValue.isToken then m.validEntries + 1
      else m.validEntries }

/-- The part of `put` that appends the entry: a new one, or one whose value was a token. -/
def appendPut (key : K) (newValue oldValue : CacheablePtr V) (isUpdate : Bool) (me : Option Nat) :
    Except LRUException (Option Nat) × LRUEntriesMap K V P S n :=
  if isUpdate = false then
    let m := { m with size := m.size + 1, validEntries := m.validEntries + 1 }
    match (m.segmentFor key).getEntry key with
    | .error x => (.error (.cache x), m)
    | .ok none => (.error .nullPointer, m)
    | .ok (some mePtr) =>
      (.ok (some mePtr.addr),
        { m with lruList := m.lruList.appendEntry (some (key, mePtr.addr)) })
  else if !newValue.isToken ∧ oldValue.isToken then
    match (m.segmentFor key).getEntry key with
    | .error x => (.error (.cache x), m)
    | .ok none => (.error .nullPointer, m)
    | .ok (some mePtr) =>
      (.ok (some mePtr.addr), { m with
        lruList := (m.lruList.clearEvicted (some (key, mePtr.addr))).appendEntry
          (some (key, mePtr.addr)) })
  else (.ok me, m)

/-- The part of `put` for the eviction controller. -/
def accountPut (key : K) (newValue oldValue : CacheablePtr V) (isUpdate : Bool) :
    Except LRUException Unit × LRUEntriesMap K V P S n :=
  if m.evictionController then
    match env.objectSize newValue with
    | none => (.error .nullPointer, m)
    | some size =>
      let newSize : Int := if isUpdate then size.toNat - env.oldSize oldValue
        else size.toNat + (env.keySize key).toNat
      (.ok (), m.updateMapSize newSize)
  else (.ok (), m)

/-- `LRUEntriesMap::put`. The old value counts as a token when it was overflowed, also after it was
read. -/
def put (key : K) (newValue : CacheablePtr V) (updateCount destroyTracker : Int)
    (versionTag : Option VersionTag) (delta : Option D) :
    Except LRUException (PutResult V) × LRUEntriesMap K V P S n :=
  match (m.segmentFor key).put (m.region env) key newValue updateCount destroyTracker versionTag
      delta with
  | (.error x, s) => (.error (.cache x), m.changeSegment key s)
  | (.ok res, s) =>
    let m := m.changeSegment key s
    if res.err ≠ .noErr then (.ok res, m)
    else
      match m.retrieveOverflowed env key res.me res.oldValue with
      | (.error x, m) => (.error x, m)
      | (.ok oldValue, m) =>
        let m := m.countPut newValue res.oldValue
        match m.appendPut key newValue res.oldValue res.isUpdate res.me with
        | (.error x, m) => (.error x, m)
        | (.ok me, m) =>
          match m.accountPut env key newValue oldValue res.isUpdate with
          | (.error x, m) => (.error x, m)
          | (.ok _, m) =>
            match m.processLRU env with
            | (.error x, m) => (.error x, m)
            | (.ok err, m) => (.ok { res with err := err, me := me, oldValue := oldValue }, m)

/-- `LRUEntriesMap::invalidate`. -/
def invalidate (key : K) (versionTag : Option VersionTag) :
    Except LRUException (InvalidateResult V) × LRUEntriesMap K V P S n :=
  match (m.segmentFor key).invalidate (m.region env) key versionTag with
  | (.error x, s) => (.error (.cache x), m.changeSegment key s)
  | (.ok res, s) =>
    let m := m.changeSegment key s
    let m := if res.isTokenAdded then { m with size := m.size + 1 } else m
    if res.err ≠ .noErr then (.ok res, m)
    else
      match m.retrieveOverflowed env key res.me res.oldValue with
      | (.error x, m) => (.error x, m)
      | (.ok oldValue, m) =>
        if res.oldValue.isToken then (.ok { res with oldValue := oldValue }, m)
        else
          match res.me with
          | none => (.error .nullPointer, { m with validEntries := m.validEntries - 1 })
          | some addr =>
            (.ok { res with oldValue := oldValue },
              (m.retire key addr).updateMapSize (tokenSize.toNat - env.oldSize oldValue))

/-- The size that `get` adds for a value from disk. The difference is unsigned. -/
def reloadedSize (tmpObj : CacheablePtr V) : Int :=
  match env.objectSize tmpObj with
  | some size => (size - tokenSize).toNat
  | none => pointerSize

/-- The part of `get` for a value on disk: it is put into the entry again. None stands for a read
that throws. -/
def reload (key : K) (addr : Nat) :
    Except LRUException (Option (CacheablePtr V)) × LRUEntriesMap K V P S n :=
  match env.read m.persisted key (m.properties key addr).persistenceInfo with
  | none => (.ok none, { m with persistenceFailed := true })
  | some (tmpObj, _) =>
    match (m.segmentFor key).put (m.region env) key tmpObj 0 0 none none with
    | (.error x, s) => (.error (.cache x), m.changeSegment key s)
    | (.ok res, s) =>
      let m := m.changeSegment key s
      let m := if res.err = .noErr then m.revive key addr else m
      (.ok (some tmpObj), m.updateMapSize (reloadedSize env tmpObj))

/-- `LRUEntriesMap::get`. -/
def get (key : K) : Except LRUException (GetResult V) × LRUEntriesMap K V P S n :=
  match (m.segmentFor key).getEntry key with
  | .error x => (.error (.cache x), m)
  | .ok none => (.ok ⟨false, .null, none⟩, m)
  | .ok (some mePtr) =>
    if mePtr.getValueI.isOverflowed then
      match m.reload env key mePtr.addr with
      | (.error x, m) => (.error x, m)
      | (.ok none, m) => (.ok ⟨false, mePtr.getValueI, none⟩, m)
      | (.ok (some tmpObj), m) =>
        match (m.setRecentlyUsed key mePtr.addr).processLRU env with
        | (.error x, m) => (.error x, m)
        | (.ok err, m) => (.ok ⟨err = .noErr, tmpObj, some mePtr.addr⟩, m)
    else
      (.ok ⟨true, mePtr.getValueI, some mePtr.addr⟩, m.setRecentlyUsed key mePtr.addr)

/-- The loop of `ConcurrentEntriesMap::values` over the segments that are left. -/
def collectValues (env : LRURegion K V D M P S) (m : LRUEntriesMap K V P S n)
    (result : List (CacheablePtr V)) :
    List (Fin n) → Except CacheException (List (CacheablePtr V)) × LRUEntriesMap K V P S n
  | [] => (.ok result, m)
  | index :: rest =>
    let r := (m.segments index).values (m.getFromDisk env) result
    let m := { m with toConcurrentEntriesMap := m.withSegment index r.2 }
    match r.1 with
    | .error x => (.error x, m)
    | .ok result => m.collectValues env result rest

/-- A value on disk that cannot be read. -/
def readFails : Bool :=
  (List.finRange n).any fun index => (m.segments index).map.entries.any fun b =>
    b.2.obj.value.isOverflowed &&
      (env.read m.persisted b.1 (m.properties b.1 b.2.obj.addr).persistenceInfo).isNone

def values : Except CacheException (List (CacheablePtr V)) × LRUEntriesMap K V P S n :=
  ({ m with persistenceFailed := m.persistenceFailed || m.readFails env } :
    LRUEntriesMap K V P S n).collectValues env [] (List.finRange n)

/-- `LRUEntriesMap::clear`. The list and the counter of valid entries stay as they are. -/
def clear : LRUEntriesMap K V P S n :=
  let unbound := fun entry : K × Nat =>
    match m.boundEntry entry.1 entry.2 with
    | some bound => bound.obj.value
    | none => m.unbound entry
  let m := m.updateMapSize (-1 * m.currentMapSize)
  { m with toConcurrentEntriesMap := m.toConcurrentEntriesMap.clear, unbound := unbound }

end LRUEntriesMap

/-- A call on the map. `evict` is the call of the eviction controller. -/
inductive LRUOp (K V : Type) where
  | create (key : K) (newValue : CacheablePtr V) (updateCount destroyTracker : Int)
      (versionTag : Option VersionTag)
  | put (key : K) (newValue : CacheablePtr V) (updateCount destroyTracker : Int)
      (versionTag : Option VersionTag)
  | get (key : K)
  | remove (key : K) (updateCount : Int) (versionTag : Option VersionTag) (afterRemote : Bool)
  | invalidate (key : K) (versionTag : Option VersionTag)
  | values
  | clear
  | evict (numEntriesToEvict : Nat)

/-- The map after the call. -/
def LRUOp.step {K V D M P S : Type} {n : Nat} [NeZero n] [DecidableEq K]
    (env : LRURegion K V D M P S) (m : LRUEntriesMap K V P S n) :
    LRUOp K V → LRUEntriesMap K V P S n
  | create key newValue updateCount destroyTracker versionTag =>
    (m.create env key newValue updateCount destroyTracker versionTag).2
  | put key newValue updateCount destroyTracker versionTag =>
    (m.put env key newValue updateCount destroyTracker versionTag none).2
  | get key => (m.get env key).2
  | remove key updateCount versionTag afterRemote =>
    (m.remove env key updateCount versionTag afterRemote).2
  | invalidate key versionTag => (m.invalidate env key versionTag).2
  | values => (m.values env).2
  | clear => m.clear
  | evict numEntriesToEvict => (m.processLRUTimes env numEntriesToEvict).2

end GeodeNative.Cache

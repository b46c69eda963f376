import GeodeNative.Region.PutAll

/-!
# A bulk put on a client region

The model of `LocalRegion::putAllNoThrow` (`LocalRegion.cpp`) and of `putAllNoThrow_remote`
(`ThinClientRegion.cpp`). Without concurrency checks the call adds a tracker to the entry of each
key, so that a change by another thread during the remote step is seen. Then come the remote step
and the local puts, which are `putNoThrow` with the flags `LOCAL | NOCACHEWRITER`.

The object `_removeTracking` takes the trackers away again. Its destructor runs however the call
ends. A destructor does not let an exception out: one that is thrown there ends the program.

`oldValueMap` is a hash map and has each key of the map once. It is a list here, in the order of the
insertions.
-/

set_option autoImplicit false

namespace GeodeNative.Region

open Cache

/-- `m'` is the entries map `m` with the segment of `key` replaced by `s`. -/
structure Replaces {S K V : Type} (concurrencyChecksEnabled : S → Bool) (segmentIdx : S → K → Nat)
    (segmentFor : S → K → MapSegment K V) (m : S) (key : K) (s : MapSegment K V) (m' : S) :
    Prop where
  checks : concurrencyChecksEnabled m' = concurrencyChecksEnabled m
  segment : ∀ k, segmentFor m' k = if segmentIdx m k = segmentIdx m key then s else segmentFor m k

/-- An entries map with its functions for `put`. `concurrencyChecksEnabled` is the attribute of the
region, with which the map is opened. Without checks the map leaves the trackers to the segment of
the key, and it passes on an exception that the segment throws for `put`. -/
structure TrackingMap (S K V D M X : Type) [DecidableEq K] extends EntriesMap S K V D M X where
  concurrencyChecksEnabled : S → Bool
  wrap : CacheException → X
  segmentIdx : S → K → Nat
  put : S → K → CacheablePtr V → Int → Option VersionTag → Except X (PutResult V) × S
  addTrackerForEntry : S → K → Except X (Int × CacheablePtr V) × S
  removeTrackerForEntry : S → K → Except X Unit × S
  segment_congr : ∀ m k k', segmentIdx m k = segmentIdx m k' → segmentFor m k = segmentFor m k'
  put_throws : ∀ m key value updateCount tag x s,
    (segmentFor m key).put (region m) key value updateCount 0 tag none = (.error x, s) →
    ∃ m', put m key value updateCount tag = (.error (wrap x), m') ∧
      Replaces concurrencyChecksEnabled segmentIdx segmentFor m key s m'
  track_eq : ∀ m key, concurrencyChecksEnabled m = false → ∀ r s,
    (segmentFor m key).addTrackerForEntry key true false true = (r, s) →
    ∃ m', addTrackerForEntry m key = (r.mapError wrap, m') ∧
      Replaces concurrencyChecksEnabled segmentIdx segmentFor m key s m'
  untrack_throws : ∀ m key, concurrencyChecksEnabled m = false → ∀ x s,
    (segmentFor m key).removeTrackerForEntry key = (.error x, s) →
    ∃ m', removeTrackerForEntry m key = (.error (wrap x), m')

/-- How a call ends other than by a return. -/
inductive PutAllExit (X : Type) where
  | map (x : X)
  | remote (e : PutAllError)
  | undefined (x : Undefined)
  | terminate

/-- The loop over the keys is left: by a return or by an exception. -/
inductive Stop (X : Type) where
  | returns (err : RegionErr)
  | throws (x : X)

section

variable {S K V D M X : Type} [DecidableEq K]

/-- The variables of the loop over the keys. -/
structure TrackState (S K V : Type) where
  entries : S
  oldValueMap : List (K × CacheablePtr V × Int)

/-- The trackers are added, and the writer is asked, when there is one. `oldValue` is declared
before the loop. The writer is told the key, the old value and the new one, and says whether it
agrees. -/
def trackEntries (map : TrackingMap S K V D M X)
    (writer : Option (K → CacheablePtr V → CacheablePtr V → Bool)) (cachingEnabled : Bool)
    (oldValue : CacheablePtr V) (st : TrackState S K V) :
    List (K × CacheablePtr V) → Except (Stop X) Unit × TrackState S K V
  | [] => (.ok (), st)
  | (key, value) :: rest =>
    let tracked : Except X (CacheablePtr V) × TrackState S K V :=
      if cachingEnabled && !map.concurrencyChecksEnabled st.entries then
        match map.addTrackerForEntry st.entries key with
        | (.error x, m) => (.error x, { st with entries := m })
        | (.ok (updateCount, oldValue), m) =>
          (.ok oldValue, ⟨m, st.oldValueMap ++ [(key, oldValue, updateCount)]⟩)
      else (.ok oldValue, st)
    match tracked with
    | (.error x, st) => (.error (.throws x), st)
    | (.ok oldValue, st) =>
      match writer with
      | none => trackEntries map writer cachingEnabled oldValue st rest
      | some agrees =>
        if agrees key oldValue value then trackEntries map writer cachingEnabled oldValue st rest
        else (.error (.returns .cacheWriterError), st)

/-- `putNoThrow` with `LOCAL | NOCACHEWRITER`. Without a delta a map does not return
`GF_INVALID_DELTA`. -/
def putNoThrow (map : TrackingMap S K V D M X) (listener : K → CacheablePtr V → Bool) (m : S)
    (key : K) (value : CacheablePtr V) (updateCount : Int) (versionTag : Option VersionTag) :
    Except X RegionErr × S :=
  let invokeListener (oldValue : CacheablePtr V) : RegionErr :=
    if listener key oldValue then .cacheListenerException else .gf .noErr
  if value.isNull then (.ok .illegalArgument, m)
  else
    match map.put m key value updateCount versionTag with
    | (.error x, m) => (.error x, m)
    | (.ok res, m) =>
      match res.err with
      | .noErr => (.ok (invokeListener res.oldValue), m)
      | .cacheEntryUpdated => (.ok (invokeListener res.oldValue), m)
      | .cacheConcurrentModification => (.ok (.gf .noErr), m)
      | err => (.ok (.gf err), m)

/-- `oldValueMap[key].second`, which is zero for a key that is not there. -/
def updateCountOf (oldValueMap : List (K × CacheablePtr V × Int)) (key : K) : Int :=
  match oldValueMap.find? (·.1 = key) with
  | none => 0
  | some node => node.2.2

/-- The two loops over the local puts, from the index `keyIndex` on. The nodes are those of the
succeeded keys or all nodes of the map. `none` is a succeeded key that the map does not have: its
null key gets into `oldValueMap`, and the destructor hashes it. -/
def putAllLocal (map : TrackingMap S K V D M X) (listener : K → CacheablePtr V → Bool)
    (oldValueMap : List (K × CacheablePtr V × Int)) (tags : List (Option VersionTag))
    (keyIndex : Nat) (versionTag : Option VersionTag) (err : RegionErr) (m : S) :
    List (Option (K × CacheablePtr V)) → Except (PutAllExit X) RegionErr × S
  | [] => (.ok err, m)
  | none :: _ => (.error (.undefined .nullPointer), m)
  | some (key, value) :: rest =>
    match (if tags = [] then some versionTag else tags[keyIndex]?) with
    | none => (.error (.undefined .outOfBounds), m)
    | some versionTag =>
      match putNoThrow map listener m key value (updateCountOf oldValueMap key) versionTag with
      | (.error x, m) => (.error (.map x), m)
      | (.ok .cacheListenerException, m) =>
        putAllLocal map listener oldValueMap tags (keyIndex + 1) versionTag .cacheListenerException
          m
          rest
      | (.ok localErr, m) =>
        if localErr = .gf .cacheEntryUpdated ∨ localErr = .gf .noErr then
          putAllLocal map listener oldValueMap tags (keyIndex + 1) versionTag err m rest
        else (.ok localErr, m)

/-- `~RemoveTracking` -/
def removeTracking (map : TrackingMap S K V D M X) (m : S) :
    List (K × CacheablePtr V × Int) → Except X Unit × S
  | [] => (.ok (), m)
  | (key, _, updateCount) :: rest =>
    if updateCount ≥ 0 then
      match map.removeTrackerForEntry m key with
      | (.error x, m) => (.error x, m)
      | (.ok _, m) => removeTracking map m rest
    else removeTracking map m rest

/-- A call of `putAllNoThrow`: the map, the routing and the replies of this call, whether the pool
uses single-hop, the cache writer, and whether the listener throws. -/
structure PutAllCall (K V : Type) where
  entries : HashMapOfCacheable K (CacheablePtr V)
  env : PutAllEnv K (CacheablePtr V)
  prSingleHopEnabled : Bool
  writer : Option (K → CacheablePtr V → CacheablePtr V → Bool)
  listener : K → CacheablePtr V → Bool

namespace PutAllCall
variable (call : PutAllCall K V)

/-- `putAllNoThrow_remote` of a region with a pool, outside of a transaction. -/
def putAllNoThrowRemote (isPRSingleHopEnabled : Bool) :
    Except PutAllError (RegionErr × ObjectPartList K) × Bool :=
  if call.prSingleHopEnabled then
    call.env.singleHopPutAllNoThrowRemote call.entries isPRSingleHopEnabled
  else
    (match multiHopPutAllNoThrowRemote (call.env.reply .multiHop call.entries.nodes) with
      | .error x => .error (.undefined x)
      | .ok res => .ok res, isPRSingleHopEnabled)

/-- The nodes of the local puts. The first result is a null vector of succeeded keys. -/
def localNodes (isPRSingleHopEnabled : Bool) (list : ObjectPartList K) :
    Option (List (Option (K × CacheablePtr V))) :=
  if isPRSingleHopEnabled then
    list.tempKeys.map fun keys => keys.map fun key => call.entries.nodes.find? (·.1 = key)
  else some (call.entries.nodes.map some)

/-- The call after the trackers were added. -/
def remoteAndLocal (map : TrackingMap S K V D M X) (cachingEnabled isPRSingleHopEnabled : Bool)
    (st : TrackState S K V) : Except (PutAllExit X) RegionErr × S × Bool :=
  match call.putAllNoThrowRemote isPRSingleHopEnabled with
  | (.error e, flag) => (.error (.remote e), st.entries, flag)
  | (.ok (err, list), flag) =>
    if err ≠ .gf .noErr then (.ok err, st.entries, flag)
    else if cachingEnabled then
      match call.localNodes flag list with
      | none => (.error (.undefined .nullPointer), st.entries, flag)
      | some nodes =>
        let res := putAllLocal map call.listener st.oldValueMap list.versionTags 0 none err
          st.entries nodes
        (res.1, res.2, flag)
    else (.ok err, st.entries, flag)

/-- The end of the call: the destructor of `_removeTracking` runs, and nothing gets out of it. -/
def leave (map : TrackingMap S K V D M X) (r : LocalRegion S)
    (oldValueMap : List (K × CacheablePtr V × Int)) (res : Except (PutAllExit X) RegionErr) (m : S)
    (isPRSingleHopEnabled : Bool) : Except (PutAllExit X) RegionErr × LocalRegion S :=
  let r := { r with isPRSingleHopEnabled := isPRSingleHopEnabled }
  if map.concurrencyChecksEnabled m then (res, { r with entries := m })
  else
    match removeTracking map m oldValueMap with
    | (.error _, m) => (.error .terminate, { r with entries := m })
    | (.ok _, m) => (res, { r with entries := m })

/-- `LocalRegion::putAllNoThrow` -/
def putAllNoThrow (map : TrackingMap S K V D M X) (r : LocalRegion S) :
    Except (PutAllExit X) RegionErr × LocalRegion S :=
  let tracked :=
    if r.cachingEnabled || call.writer.isSome then
      trackEntries map call.writer r.cachingEnabled .null ⟨r.entries, []⟩ call.entries.nodes
    else (.ok (), ⟨r.entries, []⟩)
  match tracked with
  | (.error (.returns err), st) =>
    leave map r st.oldValueMap (.ok err) st.entries r.isPRSingleHopEnabled
  | (.error (.throws x), st) =>
    leave map r st.oldValueMap (.error (.map x)) st.entries r.isPRSingleHopEnabled
  | (.ok _, st) =>
    let res := call.remoteAndLocal map r.cachingEnabled r.isPRSingleHopEnabled st
    leave map r st.oldValueMap res.1 res.2.1 res.2.2

end PutAllCall

end

end GeodeNative.Region

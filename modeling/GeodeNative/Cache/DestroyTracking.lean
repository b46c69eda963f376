import GeodeNative.Cache.ConcurrentEntriesMap

/-!
# Operations that track destroys

A `getAll` without keys puts the entries that the server sends into the map. It calls
`addTrackerForAllEntries` before the request and gets a number from the counter of the map. It
passes the number to every `put` and `create`, and calls `removeDestroyTracking` in the end. A
`remove` of a missing key that comes in between is recorded, and the `put` of this key should be
refused.

This module runs such operations beside each other. Each call on a segment is one step, since it
holds the lock of the segment. The two calls on the whole map are not: `addTrackerForAllEntries`
goes over the segments and then increments the counter (`trackSegment`, `register`), and
`removeDestroyTracking` decrements the counter and then goes over the segments when it is zero
(`unregister`, `clearDestroyed`). Untracked calls come from anywhere.

`Tracking` has, beside the map, the operations that are registered, each with the keys for which a
`remove` was received since. The map does not see these lists; they are what the answers of the map
are compared with.
-/

set_option autoImplicit false

namespace GeodeNative.Cache

/-- An operation that is registered: the number that it obtained, and the keys for which a `remove`
was received since then. -/
structure Operation (K : Type) where
  destroyTracker : Int
  removed : List K

/-- The map, the registered operations, and the segments that a `removeDestroyTracking` still has to
clear. -/
structure Tracking (K V : Type) (n : Nat) where
  map : ConcurrentEntriesMap K V n
  live : List (Operation K)
  clears : List (Fin n)

/-- A step. `op` is the position of the operation that makes the call; an untracked call has
none. -/
inductive TrackingOp (K V : Type) (n : Nat) where
  | trackSegment (index : Fin n)
  | register
  | create (op : Option Nat) (key : K) (newValue : CacheablePtr V) (versionTag : Option VersionTag)
  | put (op : Option Nat) (key : K) (newValue : CacheablePtr V) (versionTag : Option VersionTag)
  | remove (key : K) (versionTag : Option VersionTag) (afterRemote : Bool)
  | unregister (op : Nat)
  | clearDestroyed (i : Nat)

namespace Tracking

variable {K V D M : Type} {n : Nat} [NeZero n] [DecidableEq K]

/-- A new map without concurrency checks. -/
def «open» (hashcode : K → BitVec 32) (primeIndex : Nat) : Tracking K V n where
  map := .open hashcode primeIndex false
  live := []
  clears := []

/-- The number that the operation passes. -/
def destroyTracker (t : Tracking K V n) (op : Option Nat) : Int :=
  ((op.bind fun i => t.live[i]?).map Operation.destroyTracker).getD 0

/-- The state after the step. A position that is not there changes nothing. -/
def step (region : RegionInternal K V D M) (t : Tracking K V n) :
    TrackingOp K V n → Tracking K V n
  | .trackSegment index =>
    { t with map := t.map.withSegment index ((t.map.segments index).addTrackerForAllEntries ∅).2 }
  | .register =>
    let map := t.map.setNumDestroyTrackers (t.map.numDestroyTrackers + 1)
    { t with map := map, live := t.live ++ [⟨map.numDestroyTrackers, []⟩] }
  | .create op key newValue versionTag =>
    { t with map :=
        (t.map.create region key newValue (-1) (t.destroyTracker op) versionTag).2 }
  | .put op key newValue versionTag =>
    { t with map :=
        (t.map.put region key newValue (-1) (t.destroyTracker op) versionTag none).2 }
  | .remove key versionTag afterRemote =>
    { t with
      map := (t.map.remove region key (-1) versionTag afterRemote).2
      live := t.live.map fun o => { o with removed := key :: o.removed } }
  | .unregister op =>
    if op < t.live.length then
      let map := t.map.setNumDestroyTrackers (t.map.numDestroyTrackers - 1)
      { map := map
        live := t.live.eraseIdx op
        clears := if map.numDestroyTrackers = 0 then t.clears ++ List.finRange n else t.clears }
    else t
  | .clearDestroyed i =>
    match t.clears[i]? with
    | some index =>
      { t with
        map := t.map.withSegment index (t.map.segments index).removeDestroyTracking
        clears := t.clears.eraseIdx i }
    | none => t

end Tracking

end GeodeNative.Cache

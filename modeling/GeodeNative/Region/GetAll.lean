import GeodeNative.Cache.ConcurrentEntriesMap
import GeodeNative.Region.VersionedCacheableObjectPartList

/-!
# Bulk reads with a vector of keys

The model of `ThinClientRegion::getAllNoThrow_remote` for a vector of keys, up to the arrival of
the reply: it registers a tracker for each key, and `ChunkedGetAllResponse` reads each chunk of the
reply with `VersionedCacheableObjectPartList::fromData`, which puts the values into the entries map
of the region. Server notifications change the entries map at any time in between.

A value of the reply is a `CacheablePtr`. How values and exceptions are laid out in the reply, the
map of exceptions, the vector of result keys, statistics and expiration are left out.
-/

set_option autoImplicit false

namespace GeodeNative.Region

open Cache

/-- Why `fromData` does not return: an exception of the entries map, `std::out_of_range` of
`vector::at`, or undefined behaviour. -/
inductive GetAllError where
  | map (x : CacheException)
  | outOfRange
  | undefined (x : Undefined)
  deriving DecidableEq, Repr

/-- The object type of an exception, and that of a key that the server does not have. -/
def exceptionType : Nat := 2

@[inherit_doc exceptionType]
def keyNotFoundType : Nat := 3

/-- The object list of a chunk: the keys, the objects with their types, and the version tags, as
far as it has them. -/
structure GetAllPart (K V : Type) where
  keys : Option (List K)
  objects : Option (List (Nat × CacheablePtr V))
  tags : Option (List (Option VersionTag))

/-- What `ChunkedGetAllResponse` keeps between the chunks. The caller can pass no map for the
values. -/
structure GetAllCollector (K V : Type) where
  keys : List K
  keysOffset : Nat
  values : Option (AList fun _ : K => CacheablePtr V)
  destroyTracker : Int
  addToLocalCache : Bool

namespace GetAllCollector

variable {K V D M : Type} {n : Nat} [NeZero n] [DecidableEq K]

/-- The key of the object at `index`: from the list itself when it has keys, and otherwise from the
vector of the call. -/
def keyAt (c : GetAllCollector K V) (part : GetAllPart K V) (index : Nat) : Option K :=
  match part.keys with
  | some localKeys => localKeys[index]?
  | none => c.keys[index + c.keysOffset]?

/-- `readObjectPart` for the objects that are left. `emplace` keeps the value that a key already
has. -/
def readObjects (c : GetAllCollector K V) (part : GetAllPart K V) (index : Nat)
    (values : AList fun _ : K => CacheablePtr V) :
    List (Nat × CacheablePtr V) → Except GetAllError (AList fun _ : K => CacheablePtr V)
  | [] => .ok values
  | (objType, value) :: rest =>
    match c.keyAt part index with
    | none => .error .outOfRange
    | some key =>
      if objType = exceptionType ∨ key ∈ values then c.readObjects part (index + 1) values rest
      else c.readObjects part (index + 1) (values.insert key value) rest

/-- The last loop of `fromData`, for the indices from `index` on: the values go to the entries map,
or come from it when the cache is not to be changed. `updateCount` is -1 whatever count the tracker
of the key was given. -/
def putObjects (region : RegionInternal K V D M) (c : GetAllCollector K V) (part : GetAllPart K V)
    (objTypes : List Nat) (versionTags : List (Option VersionTag)) (index : Nat)
    (values : AList fun _ : K => CacheablePtr V) (m : ConcurrentEntriesMap K V n) :
    Nat → Except GetAllError (AList fun _ : K => CacheablePtr V) × ConcurrentEntriesMap K V n
  | 0 => (.ok values, m)
  | left + 1 =>
    match c.keyAt part index with
    | none => (.error .outOfRange, m)
    | some key =>
      let value := (values.lookup key).getD .null
      match objTypes[index]? with
      | none => (.error (.undefined .outOfBounds), m)
      | some objType =>
        if objType = keyNotFoundType then
          c.putObjects region part objTypes versionTags (index + 1) values m left
        else if c.addToLocalCache then
          match versionTags[index]? with
          | none => (.error (.undefined .outOfBounds), m)
          | some versionTag =>
            match m.put region key value (-1) c.destroyTracker versionTag none with
            | (.error x, m) => (.error (.map x), m)
            | (.ok res, m) =>
              let values := if res.err = .cacheConcurrentModification then
                  values.insert key res.oldValue
                else values
              c.putObjects region part objTypes versionTags (index + 1) values m left
        else
          match (m.segmentFor key).getEntry key with
          | .error x => (.error (.map x), m)
          | .ok me =>
            let values := match me with
              | some me => if me.getValueI.isInvalid then values else values.insert key me.getValueI
              | none => values
            c.putObjects region part objTypes versionTags (index + 1) values m left

/-- The number of the elements that `fromData` has read last: tags, objects or keys. -/
def lengthOf (part : GetAllPart K V) : Nat :=
  match part.tags, part.objects, part.keys with
  | some tags, _, _ => tags.length
  | none, some objects, _ => objects.length
  | none, none, some keys => keys.length
  | none, none, none => 0

/-- The collector after a chunk with `len` elements. Without a map of the caller, the values were
collected in one of their own and are dropped. -/
def advance (c : GetAllCollector K V) (values : AList fun _ : K => CacheablePtr V) (len : Nat) :
    GetAllCollector K V :=
  { c with values := c.values.map fun _ => values, keysOffset := c.keysOffset + len }

/-- `fromData` on the object list of a chunk. Without tags the function writes a null tag at each
index, into a vector of tags that has no elements. -/
def fromData (region : RegionInternal K V D M) (c : GetAllCollector K V) (part : GetAllPart K V)
    (m : ConcurrentEntriesMap K V n) :
    Except GetAllError (GetAllCollector K V) × ConcurrentEntriesMap K V n :=
  let len := lengthOf part
  match c.readObjects part 0 (c.values.getD ∅) (part.objects.getD []) with
  | .error x => (.error x, m)
  | .ok values =>
    if part.tags.isNone ∧ 0 < len then (.error (.undefined .outOfBounds), m)
    else
      match part.objects with
      | none => (.ok (c.advance values len), m)
      | some objects =>
        match c.putObjects region part (objects.map Prod.fst) (part.tags.getD []) 0 values m
          len with
        | (.error x, m) => (.error x, m)
        | (.ok values, m) => (.ok (c.advance values len), m)

end GetAllCollector

/-- The state of a `getAll` in progress: the entries map of the region, the number of keys that are
registered, the counts of their trackers, and the result collector. -/
structure GetAllState (K V : Type) (n : Nat) where
  entries : ConcurrentEntriesMap K V n
  registered : Nat
  updateCountMap : AList fun _ : K => Int
  collector : GetAllCollector K V

/-- A step of a `getAll` in progress: the next key is registered, a notification or another call
changes the entries map, or a chunk arrives. -/
inductive GetAllOp (K V D : Type) where
  | register
  | other (op : MapOp K V D)
  | chunk (part : GetAllPart K V)

namespace GetAllState

variable {K V D M : Type} {n : Nat} [NeZero n] [DecidableEq K]

/-- The start of a call for a vector of keys that adds to the local cache. `destroyTracker` is 0
for a vector. -/
def start (entries : ConcurrentEntriesMap K V n) (keys : List K)
    (values : Option (AList fun _ : K => CacheablePtr V)) : GetAllState K V n where
  entries := entries
  registered := 0
  updateCountMap := ∅
  collector :=
    { keys := keys, keysOffset := 0, values := values, destroyTracker := 0,
      addToLocalCache := true }

/-- The key that is registered next. -/
def nextKey (s : GetAllState K V n) : Option K := s.collector.keys[s.registered]?

/-- The state after a step. `updateCountMap.insert` keeps the count that a key already has. -/
def step (region : RegionInternal K V D M) (s : GetAllState K V n) :
    GetAllOp K V D → GetAllState K V n
  | .register =>
    match s.nextKey with
    | none => s
    | some key =>
      let r := s.entries.addTrackerForEntry key true false false
      let updateCountMap := match r.1 with
        | .ok (updateCount, _) =>
          if key ∈ s.updateCountMap then s.updateCountMap
          else s.updateCountMap.insert key updateCount
        | .error _ => s.updateCountMap
      { s with entries := r.2, registered := s.registered + 1, updateCountMap := updateCountMap }
  | .other op => { s with entries := op.step region s.entries }
  | .chunk part =>
    let r := s.collector.fromData region part s.entries
    { s with
      entries := r.2
      collector := match r.1 with
        | .ok collector => collector
        | .error _ => s.collector }

end GetAllState

end GeodeNative.Region

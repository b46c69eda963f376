import GeodeNative.Client.ClientMetadata

/-!
# The servers for a bulk operation

A bulk operation is split by server, so that each server gets the keys or the buckets that it has.

- `getServerToFilterMap` groups the keys of a `putAll`, `removeAll` or `getAll`. The keys whose
  bucket has no valid location are spread over the servers that were found.
- `pruneNodes` finds servers for the buckets of a function execution. It takes a random server first
  and then always a server that adds most buckets.

The random numbers are arguments, one for each call. The maps are unordered: the order in which a
map is passed through is an argument, or the place in it is taken by a random number.

The locations of `pruneNodes` can have null names, so its searches can end the call (`lookup`).
What it adds to a map or erases from it, it has searched for before, with no null name compared.
The searches of `getServerToFilterMap` are for valid locations, which have names.
-/

set_option autoImplicit false

namespace GeodeNative.Client

open Lib BucketServerLocation UnorderedMap

/-! ## `getServerToFilterMap` -/

section Filter
variable {Key : Type}

/-- The key that decides about the bucket. `resolver i` is what the partition resolver of the region
answers for key number `i`. -/
def resolveKey (resolver : Option (Nat → Key → Option Key)) (i : Nat) (key : Key) : Option Key :=
  match resolver with
  | none => some key
  | some getRoutingObject => getRoutingObject i key

/-- `std::abs(hashcode % totalNumBuckets)` -/
def bucketIdOf (totalNumBuckets : Nat) (hashcode : BitVec 32) : Nat :=
  (hashcode.toInt.tmod totalNumBuckets).natAbs

abbrev ServerToFilterMap (Key : Type) := List (BucketServerLocation × List Key)

/-- The variables of the loop over the keys. -/
structure FilterState (Key : Type) where
  keysWhichLeft : List Key
  buckets : List (Nat × BucketServerLocation)
  serverToFilterMap : ServerToFilterMap Key

/-- What the function reads besides the keys. -/
structure FilterEnv (Key : Type) where
  hashcode : Key → BitVec 32
  resolver : Option (Nat → Key → Option Key)
  isPrimary : Bool
  randgen : Nat → Nat
  /-- The order in which the servers are passed through at the end. -/
  order : ∀ m : ServerToFilterMap Key, { m' : ServerToFilterMap Key // m'.Perm m }

namespace FilterEnv
variable (env : FilterEnv Key) (metadata : ClientMetadata)

/-- The body of the loop over the keys. -/
def addKey (i : Nat) (st : FilterState Key) (key : Key) : Except MetadataError (FilterState Key) :=
  match resolveKey env.resolver i key with
  -- `resolveKey->hashcode()`
  | none => .error .nullPointer
  | some resolveKey =>
    let bucketId := bucketIdOf metadata.totalNumBuckets (env.hashcode resolveKey)
    match st.buckets.lookup bucketId with
    | none =>
      match metadata.getServerLocation bucketId env.isPrimary (env.randgen i) (-1) with
      | .error e => .error e
      | .ok (none, _) => .ok { st with keysWhichLeft := st.keysWhichLeft ++ [key] }
      | .ok (some serverLocation, _) =>
        if serverLocation.isValid then
          let keyList := (find keyEqual st.serverToFilterMap serverLocation).getD []
          .ok { st with
            buckets := (bucketId, serverLocation) :: st.buckets
            serverToFilterMap := assign keyEqual st.serverToFilterMap serverLocation
              (keyList ++ [key]) }
        else .ok { st with keysWhichLeft := st.keysWhichLeft ++ [key] }
    | some serverLocation =>
      match find keyEqual st.serverToFilterMap serverLocation with
      -- `operator[]` makes a node with a null list
      | none => .error .nullPointer
      | some keyList =>
        .ok { st with
          serverToFilterMap := assign keyEqual st.serverToFilterMap serverLocation
            (keyList ++ [key]) }

/-- The loop over the keys. -/
def addKeys (i : Nat) (st : FilterState Key) : List Key → Except MetadataError (FilterState Key)
  | [] => .ok st
  | key :: keys =>
    match env.addKey metadata i st key with
    | .error e => .error e
    | .ok st => addKeys (i + 1) st keys

end FilterEnv

/-- The loop over the servers that takes `perServer` of the left keys for each one. -/
def spread (perServer : Nat) : List Key → ServerToFilterMap Key → ServerToFilterMap Key
  | _, [] => []
  | keyLefts, (location, keys) :: m =>
    (location, keys ++ keyLefts.take perServer) :: spread perServer (keyLefts.drop perServer) m

/-- The result `none` is the null pointer. -/
def getServerToFilterMap (env : FilterEnv Key) (clientMetadata : Option ClientMetadata)
    (keys : List Key) : Except MetadataError (Option (ServerToFilterMap Key)) :=
  match clientMetadata with
  | none => .ok none
  | some clientMetadata =>
    match env.addKeys clientMetadata 0 ⟨[], [], []⟩ keys with
    | .error e => .error e
    | .ok st =>
      if 0 < st.keysWhichLeft.length ∧ 0 < st.serverToFilterMap.length then
        let perServer := st.keysWhichLeft.length / st.serverToFilterMap.length + 1
        .ok (some (spread perServer st.keysWhichLeft (env.order st.serverToFilterMap).1))
      else if st.serverToFilterMap.length = 0 then .ok none
      else .ok (some st.serverToFilterMap)

end Filter

/-! ## `pruneNodes` -/

abbrev BucketSet := Finset Nat

abbrev ServerToBucketsMap := List (BucketServerLocation × BucketSet)

/-- The first loop over the servers in `findNextServer`: the greatest number of new buckets and the
servers that have it. -/
def equalSizeLoop (currentBucketSet : BucketSet) (max : Nat)
    (nodesOfEqualSize : List BucketServerLocation) :
    ServerToBucketsMap → List BucketServerLocation
  | [] => nodesOfEqualSize
  | (serverLocation, buckets) :: m =>
    let size := (buckets \ currentBucketSet).card
    if max < size then equalSizeLoop currentBucketSet size [serverLocation] m
    else if max = size then
      equalSizeLoop currentBucketSet max (nodesOfEqualSize ++ [serverLocation]) m
    else equalSizeLoop currentBucketSet max nodesOfEqualSize m

def findNextServer (serverToBucketsMap : ServerToBucketsMap) (currentBucketSet : BucketSet)
    (random : Nat) : Option BucketServerLocation :=
  let nodesOfEqualSize := equalSizeLoop currentBucketSet 0 [] serverToBucketsMap
  nodesOfEqualSize[random % nodesOfEqualSize.length]?

/-- The loop over the locations of a bucket. -/
def addLocations (bucketId : Nat) (m : ServerToBucketsMap) :
    List BucketServerLocation → Except MetadataError ServerToBucketsMap
  | [] => .ok m
  | location :: locations =>
    match location.lookup m with
    | .error e => .error e
    | .ok bucketSet =>
      addLocations bucketId (assign keyEqual m location (insert bucketId (bucketSet.getD ∅)))
        locations

/-- The loop over the buckets: the buckets without a location, and the buckets of each server. -/
def collectServers (metadata : ClientMetadata) (withoutServer : BucketSet)
    (m : ServerToBucketsMap) : List Nat → Except MetadataError (BucketSet × ServerToBucketsMap)
  | [] => .ok (withoutServer, m)
  | bucketId :: buckets =>
    match metadata.adviseServerLocations bucketId with
    | .error e => .error e
    | .ok [] => collectServers metadata (insert bucketId withoutServer) m buckets
    | .ok locations =>
      match addLocations bucketId m locations with
      | .error e => .error e
      | .ok m => collectServers metadata withoutServer m buckets

/-- `for (idx = 0; idx < (rand() % size); idx++) itrRes++`. The number is drawn again in each turn;
`none` is the end of the map. -/
def advance (rand : Nat → Nat) (size idx : Nat) : ServerToBucketsMap →
    Option (BucketServerLocation × BucketSet)
  | [] => none
  | node :: m => if idx < rand idx % size then advance rand size (idx + 1) m else some node

/-- The variables of the `while` loop. -/
structure PruneState where
  currentBucketSet : BucketSet
  serverToBucketsMap : ServerToBucketsMap
  prunedServerToBucketsMap : ServerToBucketsMap

/-- The body of the `while` loop, and whether the loop goes on. -/
def pruneStep (random : Nat) (st : PruneState) : Except MetadataError (Bool × PruneState) :=
  match findNextServer st.serverToBucketsMap st.currentBucketSet random with
  | none => .ok (false, st)
  | some server =>
    match server.lookup st.serverToBucketsMap with
    | .error e => .error e
    | .ok found =>
      let bucketSet2 := found.getD ∅ \ st.currentBucketSet
      if bucketSet2 = ∅ then
        .ok (true, { st with
          serverToBucketsMap := erase keyEqual st.serverToBucketsMap server })
      else
        .ok (true, {
          currentBucketSet := st.currentBucketSet ∪ bucketSet2
          prunedServerToBucketsMap :=
            emplace keyEqual st.prunedServerToBucketsMap server bucketSet2
          serverToBucketsMap := erase keyEqual st.serverToBucketsMap server })

/-- The `while` loop from turn `i` on. `none` when it did not end in `fuel` turns. -/
def pruneLoop (buckets : BucketSet) (random : Nat → Nat) :
    Nat → Nat → PruneState → Except MetadataError (Option PruneState)
  | 0, _, _ => .ok none
  | fuel + 1, i, st =>
    if buckets ≠ st.currentBucketSet then
      match pruneStep (random i) st with
      | .error e => .error e
      | .ok (false, st) => .ok (some st)
      | .ok (true, st) => pruneLoop buckets random fuel (i + 1) st
    else .ok (some st)

/-- The random numbers of a call of `pruneNodes`. -/
structure PruneChoices where
  /-- `rand()` in the choice of the first server -/
  rand : Nat → Nat
  /-- The numbers for `findNextServer` -/
  randgen : Nat → Nat
  /-- The place of `prunedServerToBucketsMap->begin()` -/
  first : Nat

/-- `pruneNodes` for the buckets in the order of an iteration over their set. The outer `none` is a
loop that does not end in `fuel` turns, the inner one is the null pointer. -/
def pruneNodes (metadata : ClientMetadata) (buckets : List Nat) (choices : PruneChoices)
    (fuel : Nat) : Except MetadataError (Option (Option ServerToBucketsMap)) :=
  match collectServers metadata ∅ [] buckets with
  | .error e => .error e
  | .ok (bucketSetWithoutServer, serverToBucketsMap) =>
    if serverToBucketsMap = [] then .ok (some none)
    else
      match advance choices.rand serverToBucketsMap.length 0 serverToBucketsMap with
      -- the end of the map
      | none => .error .nullPointer
      | some (randomFirstServer, _) =>
        match randomFirstServer.lookup serverToBucketsMap with
        | .error e => .error e
        | .ok found =>
          let bucketSet := found.getD ∅
          match pruneLoop buckets.toFinset choices.randgen fuel 0
            ⟨bucketSet, erase keyEqual serverToBucketsMap randomFirstServer,
              [(randomFirstServer, bucketSet)]⟩ with
          | .error e => .error e
          | .ok none => .ok none
          | .ok (some st) =>
            let pruned := st.prunedServerToBucketsMap
            .ok (some (some (pruned.modify (choices.first % pruned.length) fun node =>
              (node.1, node.2 ∪ bucketSetWithoutServer))))

end GeodeNative.Client

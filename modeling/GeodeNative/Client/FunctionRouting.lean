import GeodeNative.Client.ClientMetadataService
import GeodeNative.Lib.Grouping

/-!
# The servers for a function execution with a filter

A function that is executed for a set of routing keys goes to the servers that have the keys.
`getServerToFilterMapFESHOP` groups the keys by bucket, finds servers for the buckets, and groups
the keys by server.

The bucket of a key comes from its hash code, or, with a resolver for fixed partitions, from the
partition that the resolver names. A bucket number is an `int`, and `-1` when there is none; the
metadata takes it as `size_t` (`asSize`), which is how `BucketSet` has it here.

The keys are grouped by servers that have names: a server of `pruneNodes` was searched for by its
name, and the other ones are valid. So these searches compare no null name.
-/

set_option autoImplicit false

namespace GeodeNative.Client

open Lib BucketServerLocation

/-- What ends a call other than a return. -/
inductive RoutingError where
  | metadata (error : MetadataError)
  /-- `%` without a value: by zero, or of the least `int` by `-1`. -/
  | arithmetic
  deriving DecidableEq, Repr

/-- The two numbers that `m_fpaMap` has for a partition. -/
structure FixedPartition where
  numBuckets : BitVec 32
  startingBucketID : BitVec 32
  deriving DecidableEq, Repr

/-- `ClientMetadata` with its fixed partitions. -/
structure PartitionMetadata extends ClientMetadata where
  fpaMap : List (String × FixedPartition)
  /-- `m_totalNumBuckets` is an `int`. -/
  total_lt : totalNumBuckets < 2 ^ 31

namespace PartitionMetadata

/-- `assignFixedBucketId` for the hash code of the routing object. -/
def assignFixedBucketId (metadata : PartitionMetadata) (partitionName : String) (hc : BitVec 32) :
    Except RoutingError (BitVec 32) :=
  match metadata.fpaMap.lookup partitionName with
  | some attList =>
    if attList.numBuckets = 0 ∨ hc = BitVec.intMin 32 ∧ attList.numBuckets = -1 then
      .error .arithmetic
    else
      let bucketId := (hc.toInt.tmod attList.numBuckets.toInt).natAbs
      .ok (BitVec.ofNat 32 bucketId + attList.startingBucketID)
  | none => .ok (-1)

end PartitionMetadata

/-- `static_cast<size_t>` of a bucket number -/
def asSize (bucketId : BitVec 32) : Nat := (bucketId.signExtend 64).toNat

/-- The location that `advisePrimaryServerLocation` returns. -/
def ClientMetadata.advisePrimaryServerLocation (metadata : ClientMetadata) (bucketId : Nat) :
    Except MetadataError (Option BucketServerLocation) :=
  match metadata.adviseServerLocations bucketId with
  | .error e => .error e
  | .ok locations => .ok (locations.find? (·.isPrimary))

/-! ## The servers of the buckets -/

/-- The loop over the buckets in `groupByServerToBuckets`: the buckets without a server, and the
buckets of each server. -/
def collectPrimaries (metadata : ClientMetadata) (bucketsWithoutServer : BucketSet)
    (m : ServerToBucketsMap) : List Nat → Except MetadataError (BucketSet × ServerToBucketsMap)
  | [] => .ok (bucketsWithoutServer, m)
  | bucketId :: buckets =>
    match metadata.advisePrimaryServerLocation bucketId with
    | .error e => .error e
    | .ok none => collectPrimaries metadata (insert bucketId bucketsWithoutServer) m buckets
    | .ok (some serverLocation) =>
      if serverLocation.isValid then
        collectPrimaries metadata bucketsWithoutServer
          (Grouping.insertAll keyEqual m serverLocation {bucketId}) buckets
      else collectPrimaries metadata (insert bucketId bucketsWithoutServer) m buckets

/-- `groupByServerToBuckets` for the buckets in the order of an iteration over their set. The outer
`none` is a loop of `pruneNodes` that does not end in `fuel` turns, the inner one is the null
pointer. -/
def groupByServerToBuckets (metadata : ClientMetadata) (bucketSet : List Nat)
    (optimizeForWrite : Bool) (choices : PruneChoices) (fuel : Nat) :
    Except MetadataError (Option (Option ServerToBucketsMap)) :=
  if optimizeForWrite then
    match collectPrimaries metadata ∅ [] bucketSet with
    | .error e => .error e
    | .ok (bucketsWithoutServer, m) =>
      -- `begin()` is at the place `first`; an empty map has none
      .ok (some (some (m.modify (choices.first % m.length) fun node =>
        (node.1, node.2 ∪ bucketsWithoutServer))))
  else pruneNodes metadata bucketSet choices fuel

/-! ## The keys -/

/-- The partition resolver of a region. -/
inductive PartitionResolver (Key : Type) where
  | routing (getRoutingObject : Key → Option Key)
  /-- `FixedPartitionResolver` -/
  | fixed (getRoutingObject : Key → Option Key) (getPartitionName : Key → Option String)

abbrev BucketToKeysMap (Key : Type) := List (BitVec 32 × Finset Key)

abbrev ServerToKeysMap (Key : Type) := List (BucketServerLocation × Finset Key)

/-- What the function reads besides the metadata and the keys. -/
structure RoutingEnv (Key : Type) where
  hashcode : Key → BitVec 32
  resolver : Option (PartitionResolver Key)
  isPrimary : Bool
  choices : PruneChoices
  /-- The order of an iteration over a set of buckets. -/
  bucketOrder : ∀ s : BucketSet, { l : List Nat // l.Nodup ∧ l.toFinset = s }
  /-- The order of an iteration over the servers. -/
  serverOrder : ∀ m : ServerToBucketsMap, { m' : ServerToBucketsMap // m'.Perm m }

section
variable {Key : Type}

namespace RoutingEnv
variable (env : RoutingEnv Key) (metadata : PartitionMetadata)

/-- The bucket from the hash code. -/
def hashBucket (resolvekey : Key) : BitVec 32 :=
  if 0 < metadata.totalNumBuckets then
    BitVec.ofNat 32 (bucketIdOf metadata.totalNumBuckets (env.hashcode resolvekey))
  else -1

/-- The bucket number that the loop of `groupByBucketOnClientSide` finds for a key. -/
def bucketId (key : Key) : Except RoutingError (BitVec 32) :=
  match env.resolver with
  | none => .ok (env.hashBucket metadata key)
  | some (.routing getRoutingObject) =>
    match getRoutingObject key with
    | none => .error (.metadata
        (.illegalState "The RoutingObject returned by PartitionResolver is null."))
    | some resolvekey => .ok (env.hashBucket metadata resolvekey)
  | some (.fixed getRoutingObject getPartitionName) =>
    match getRoutingObject key with
    | none => .error (.metadata
        (.illegalState "The RoutingObject returned by PartitionResolver is null."))
    | some resolvekey =>
      match getPartitionName key with
      | none => .error (.metadata
          (.illegalState "partition name returned by Partition resolver is null."))
      | some partition => metadata.assignFixedBucketId partition (env.hashcode resolvekey)

variable [DecidableEq Key]

/-- The loop of `groupByBucketOnClientSide`. -/
def groupByBucketOnClientSide (bucketToKeysMap : BucketToKeysMap Key) :
    List Key → Except RoutingError (BucketToKeysMap Key)
  | [] => .ok bucketToKeysMap
  | key :: keySet =>
    match env.bucketId metadata key with
    | .error e => .error e
    | .ok bucketId =>
      groupByBucketOnClientSide
        (Grouping.insertAll (KeyEqual.ofEq _) bucketToKeysMap bucketId {key}) keySet

end RoutingEnv

variable [DecidableEq Key]

/-- The loop over the buckets of one server. -/
def addBuckets (bucketToKeysMap : BucketToKeysMap Key) (serverLocation : BucketServerLocation)
    (m : ServerToKeysMap Key) (buckets : List Nat) : ServerToKeysMap Key :=
  buckets.foldl (fun m bucket => Grouping.insertAll keyEqual m serverLocation
    (Grouping.group (KeyEqual.ofEq _) bucketToKeysMap (BitVec.ofNat 32 bucket))) m

/-- The loop over the servers. -/
def RoutingEnv.addServers (env : RoutingEnv Key) (bucketToKeysMap : BucketToKeysMap Key)
    (m : ServerToKeysMap Key) (serverToBuckets : ServerToBucketsMap) : ServerToKeysMap Key :=
  serverToBuckets.foldl (fun m node =>
    addBuckets bucketToKeysMap node.1 m (env.bucketOrder node.2).1) m

/-- The outer `none` is a loop of `pruneNodes` that does not end in
`fuel` turns, the inner one is the null pointer. -/
def getServerToFilterMapFESHOP (env : RoutingEnv Key) (cptr : Option PartitionMetadata)
    (routingKeys : Option (List Key)) (fuel : Nat) :
    Except RoutingError (Option (Option (ServerToKeysMap Key))) :=
  match cptr, routingKeys with
  | none, _ => .ok (some none)
  | some _, none => .ok (some none)
  | some cptr, some routingKeys =>
    match env.groupByBucketOnClientSide cptr [] routingKeys with
    | .error e => .error e
    | .ok bucketToKeysMap =>
      let bucketSet : BucketSet := (bucketToKeysMap.map fun node => asSize node.1).toFinset
      match groupByServerToBuckets cptr.toClientMetadata (env.bucketOrder bucketSet).1
        env.isPrimary env.choices fuel with
      | .error e => .error (.metadata e)
      | .ok none => .ok none
      | .ok (some none) => .ok (some none)
      | .ok (some (some serverToBuckets)) =>
        .ok (some (some (env.addServers bucketToKeysMap [] (env.serverOrder serverToBuckets).1)))

end

end GeodeNative.Client

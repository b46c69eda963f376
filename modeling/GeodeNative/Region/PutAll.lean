import GeodeNative.Client.ClientMetadataService
import GeodeNative.Region.LocalRegion

/-!
# The remote part of a bulk put

The model of `ThinClientRegion::singleHopPutAllNoThrow_remote` with `PutAllWork`. The keys of the
map are split by server. Each server gets a request of its own, the results are put into one list,
and the keys of the servers that failed are sent again through multi-hop.

A reply of a server is a function of the request, so every combination of outcomes is covered. The
hash maps of the source are passed through in an order that is not specified. The order of a request
and the order of the two maps of results are arguments.

The list of a worker is constructed from `keys.get()`, a raw pointer to the vector of keys. So the
list becomes a second owner of a vector that `getServerToFilterMap` has made with `make_shared`,
and the release of the list is `Undefined.doubleFree`. The list of a worker that failed is released
by `delete worker`. The lists of the others are released with `resultMap`, when the call returns.

The metadata refresh and the text of log lines are left out.
-/

set_option autoImplicit false

namespace GeodeNative.Region

open Client Client.BucketServerLocation
open Cache (VersionTag)
open Lib (UnorderedMap.find UnorderedMap.emplace)

/-- The nodes in the order of an iteration. No key has two nodes. -/
structure HashMapOfCacheable (K V : Type) where
  nodes : List (K × V)
  nodup : (nodes.map (·.1)).Nodup

/-- The keys of a map. -/
def HashMapOfCacheable.keys {K V : Type} (map : HashMapOfCacheable K V) : List K :=
  map.nodes.map (·.1)

/-- The requests of a bulk put. -/
inductive PutAllRequest where
  | singleHop (location : BucketServerLocation)
  | retry (location : BucketServerLocation)
  | multiHop
  deriving DecidableEq

/-- A value is a list or the null pointer: `m_papException` is never set. -/
abbrev ResultMap (K : Type) := List (BucketServerLocation × Option (ObjectPartList K))

abbrev FailedServersMap := List (BucketServerLocation × Nat)

/-- What the call reads besides its arguments. -/
structure PutAllEnv (K V : Type) where
  filter : FilterEnv K
  metadata : Option ClientMetadata
  /-- The order of the entries of a map in a request. -/
  requestOrder : ∀ m : List (K × V), { m' : List (K × V) // m'.Perm m }
  resultOrder : ∀ m : ResultMap K, { m' : ResultMap K // m'.Perm m }
  failedOrder : ∀ m : FailedServersMap, { m' : FailedServersMap // m'.Perm m }
  /-- The reply to a request with these entries. -/
  reply : PutAllRequest → List (K × V) → MultiHopReply K

/-- Why the call does not return. -/
inductive PutAllError where
  | metadata (e : MetadataError)
  | illegalState (message : String)
  | undefined (x : Undefined)
  deriving DecidableEq

/-- `GF_PUTALL_PARTIAL_RESULT_EXCEPTION` -/
def gfPutAllPartialResultException : Nat := 141

/-- `GF_AUTHENTICATION_FAILED_EXCEPTION` -/
def gfAuthenticationFailedException : Nat := 126

section

variable {K V : Type}

def ObjectPartList.setVersionedTagptr (list : ObjectPartList K) (tags : List (Option VersionTag)) :
    ObjectPartList K :=
  { list with versionTags := tags, hasTags := !tags.isEmpty }

/-- The error code of `PutAllWork::execute`, `none` for `GF_NOERR`. Any exception but one is a
partial result. -/
def putAllWorkError (reply : MultiHopReply K) : Option Nat :=
  match reply.err with
  | some code => some code
  | none =>
    match reply.messageType with
    | .reply => none
    | .response => none
    | .exception _ notAuthorized =>
      if notAuthorized then some gfAuthenticationFailedException
      else some gfPutAllPartialResultException
    | .putDataError => some gfCacheServerException
    | .other => some gfNotObj

/-- `PutAllWork`: its list is constructed with the keys of the server and is also the list of the
result collector. -/
def putAllWork (keys : List K) (reply : MultiHopReply K) :
    Except Undefined (Option Nat × ObjectPartList K) :=
  match (ObjectPartList.ofKeys keys).handleChunks reply.chunks with
  | .error x => .error x
  | .ok list => .ok (putAllWorkError reply, list.setVersionedTagptr list.versionTags)

/-- The variables of the loop over the workers. -/
structure WorkResults (K : Type) where
  resultMap : ResultMap K
  failedServers : FailedServersMap

/-- The map after the result of a worker. -/
def WorkResults.add (st : WorkResults K) (location : BucketServerLocation) :
    Option Nat × ObjectPartList K → WorkResults K
  | (none, list) =>
    { st with resultMap := UnorderedMap.emplace keyEqual st.resultMap location (some list) }
  | (some err, _) =>
    { resultMap :=
        if err = gfPutAllPartialResultException then
          UnorderedMap.emplace keyEqual st.resultMap location none
        else st.resultMap
      failedServers := UnorderedMap.emplace keyEqual st.failedServers location err }

/-- The loop over `resultMap`. A null value is only logged. -/
def addKeysAndVersions (result : ObjectPartList K) : ResultMap K → ObjectPartList K
  | [] => result
  | (_, none) :: m => addKeysAndVersions result m
  | (_, some list) :: m => addKeysAndVersions (result.addAll list) m

/-- `PutAllPartialResult::addKeys` -/
def addKeys (result : ObjectPartList K) (keys : List K) : Except PutAllError (ObjectPartList K) :=
  if result.versionTags.length > 0 then
    .error (.illegalState
      "attempt to store versionless keys when there are already versioned results")
  else .ok (result.addAllKeys keys)

/-- The keys that are added when there is a failed server and the result has no keys. They are the
keys of the failed servers. -/
def addSucceedKeySet (locationMap : ServerToFilterMap K) (failedServers : FailedServersMap)
    (result : ObjectPartList K) : Except PutAllError (ObjectPartList K) :=
  if failedServers ≠ [] ∧ result.size = 0 then
    addKeys result (locationMap.flatMap fun node =>
      if (UnorderedMap.find keyEqual failedServers node.1).isSome then node.2 else [])
  else .ok result

variable [DecidableEq K]

/-- The sub-map of the keys of a server. -/
def HashMapOfCacheable.filteredMap (map : HashMapOfCacheable K V) (keys : List K) : List (K × V) :=
  keys.foldl (fun filteredMap key =>
    match map.nodes.find? (·.1 = key) with
    | none => filteredMap
    | some node => if node.1 ∈ filteredMap.map (·.1) then filteredMap else filteredMap ++ [node]) []

namespace PutAllEnv
variable (env : PutAllEnv K V) (map : HashMapOfCacheable K V)

/-- The entries of the request for these keys, in their order. -/
def request (keys : List K) : List (K × V) := (env.requestOrder (map.filteredMap keys)).1

/-- The workers and the loop that waits for them. -/
def work (st : WorkResults K) : ServerToFilterMap K → Except PutAllError (WorkResults K)
  | [] => .ok st
  | (location, keys) :: locationMap =>
    match putAllWork keys (env.reply (.singleHop location) (env.request map keys)) with
    | .error x => .error (.undefined x)
    | .ok res =>
      -- `delete worker`: only `resultMap` can hold the list any longer
      if res.1.isSome then .error (.undefined .doubleFree)
      else work (st.add location res) locationMap

/-- The loop over the failed servers. `error` is `GF_NOERR` as long as `oneSubMapRetryFailed` is
false. -/
def retry (locationMap : ServerToFilterMap K) (error : RegionErr) (result : ObjectPartList K) :
    FailedServersMap → Except PutAllError (RegionErr × ObjectPartList K)
  | [] => .ok (error, result)
  | (location, code) :: failedServers =>
    if code = gfPutAllPartialResultException then
      retry locationMap (.remote gfPutAllPartialResultException) result failedServers
    else
      let failedKeys := (UnorderedMap.find keyEqual locationMap location).getD []
      let newSubMap := env.request map failedKeys
      match multiHopPutAllNoThrowRemote (env.reply (.retry location) newSubMap) with
      | .error x => .error (.undefined x)
      | .ok (errCode, list) =>
        if errCode = .gf .noErr then
          retry locationMap error (result.addAll list) failedServers
        else if errCode = .remote gfPutAllPartialResultException then
          retry locationMap errCode result failedServers
        -- `newSubMap->begin()->first`
        else if newSubMap = [] then .error (.undefined .outOfBounds)
        else retry locationMap errCode result failedServers

/-- The part after the routing. -/
def singleHop (locationMap : ServerToFilterMap K) :
    Except PutAllError (RegionErr × ObjectPartList K) :=
  match env.work map ⟨[], []⟩ locationMap with
  | .error e => .error e
  | .ok st =>
    let result := addKeysAndVersions (.ofKeys []) (env.resultOrder st.resultMap).1
    match addSucceedKeySet locationMap st.failedServers result with
    | .error e => .error e
    | .ok result =>
      match env.retry map locationMap (.gf .noErr) result
          (env.failedOrder st.failedServers).1 with
      | .error e => .error e
      -- `resultMap` goes out of scope
      | .ok res => if st.resultMap = [] then .ok res else .error (.undefined .doubleFree)

/-- The routing of the keys of the map, by the primary servers. -/
def locationMap : Except MetadataError (Option (ServerToFilterMap K)) :=
  getServerToFilterMap { env.filter with isPrimary := true } env.metadata map.keys

/-- `singleHopPutAllNoThrow_remote`: the code with the list, and `m_isPRSingleHopEnabled`
afterwards. -/
def singleHopPutAllNoThrowRemote (isPRSingleHopEnabled : Bool) :
    Except PutAllError (RegionErr × ObjectPartList K) × Bool :=
  match env.locationMap map with
  | .error e => (.error (.metadata e), isPRSingleHopEnabled)
  | .ok none =>
    (match multiHopPutAllNoThrowRemote (env.reply .multiHop map.nodes) with
      | .error x => .error (.undefined x)
      | .ok res => .ok res, isPRSingleHopEnabled)
  | .ok (some locationMap) => (env.singleHop map locationMap, true)

end PutAllEnv

end

end GeodeNative.Region

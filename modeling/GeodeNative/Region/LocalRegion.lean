import GeodeNative.Cache.MapSegment
import GeodeNative.Region.VersionedCacheableObjectPartList

/-!
# Bulk removal on a client region

The model of `LocalRegion::removeAllNoThrow` (`LocalRegion.cpp`) with the functions that it calls:
`destroyNoThrow` with the flags `LOCAL | NOCACHEWRITER`, which is `updateNoThrow<DestroyActions>`
without its remote part, and the multi-hop requests of `ThinClientRegion.cpp`.

`EntriesMap` has the virtual functions of the entries map of a region. The reply of the server and
the outcome of the cache listener are parameters. The region is not being destroyed, the thread is
in no transaction, and the keys are not null. Statistics, expiration times and log lines are left
out.
-/

set_option autoImplicit false

namespace GeodeNative.Region

open Cache

/-- Why a call on a region does not return: an exception of the entries map, or undefined
behaviour. -/
inductive Thrown (X : Type) where
  | map (x : X)
  | undefined (x : Undefined)
  deriving DecidableEq, Repr

/-- The return codes of the region: those of the entries map, `GF_CACHE_LISTENER_EXCEPTION`,
`GF_CACHEWRITER_ERROR`, `GF_CACHE_ILLEGAL_ARGUMENT_EXCEPTION`, and the errors of the remote step. -/
inductive RegionErr where
  | gf (err : GfErrType)
  | cacheListenerException
  | cacheWriterError
  | illegalArgument
  | remote (code : Nat)
  deriving DecidableEq, Repr

/-- An entries map with states `S`: the segment that holds a key, the region as that segment sees
it, and `remove`. A map leaves the removal to the segment of the key, changes no other key, and
fails when the segment fails. -/
structure EntriesMap (S K V D M X : Type) [DecidableEq K] where
  members : MemberList M
  region : S → RegionInternal K V D M
  segmentFor : S → K → MapSegment K V
  remove : S → K → Int → Option VersionTag → Bool → Except X (RemoveResult V) × S
  region_members : ∀ m, (region m).members = members
  remove_find : ∀ m key updateCount tag afterRemote k,
    (segmentFor (remove m key updateCount tag afterRemote).2 k).find k =
      if k = key then
        ((segmentFor m key).remove (region m) key updateCount tag afterRemote).2.find key
      else (segmentFor m k).find k
  remove_flag : ∀ m key updateCount tag afterRemote k,
    (segmentFor (remove m key updateCount tag afterRemote).2 k).concurrencyChecksEnabled =
      (segmentFor m k).concurrencyChecksEnabled
  remove_ok : ∀ m key updateCount tag afterRemote res,
    (remove m key updateCount tag afterRemote).1 = .ok res →
    ∃ res', ((segmentFor m key).remove (region m) key updateCount tag afterRemote).1 = .ok res' ∧
      res.err = res'.err

/-- The entry bound at `key`. -/
def EntriesMap.find {S K V D M X : Type} [DecidableEq K] (map : EntriesMap S K V D M X) (m : S)
    (key : K) : Option (MapEntry K V) :=
  (map.segmentFor m key).find key

/-- The fields of a `LocalRegion` that the bulk operations read. -/
structure LocalRegion (S : Type) where
  cachingEnabled : Bool
  isPRSingleHopEnabled : Bool
  entries : S

/-- The types of the reply to a request. -/
inductive MessageType where
  | reply
  | response
  | exception (code : Nat) (notAuthorized : Bool)
  | putDataError
  | other
  deriving DecidableEq

/-- A multi-hop reply: the error of `sendSyncRequest`, if any, the type of the reply, and its
chunks. `code` of an exception is what `handleServerException` makes of it, and `notAuthorized` the
answer of `isNotAuthorizedException`. -/
structure MultiHopReply (K : Type) where
  err : Option Nat
  messageType : MessageType
  chunks : List (Chunk K)

/-- `GF_NOTOBJ`. -/
def gfNotObj : Nat := 9

/-- `GF_CACHESERVER_EXCEPTION`. -/
def gfCacheServerException : Nat := 124

section

variable {S K V D M X : Type}

/-- `multiHopPutAllNoThrow_remote` and `multiHopRemoveAllNoThrow_remote`: the code with the list of
the result collector. They differ in the code for the type `PUT_DATA_ERROR`. -/
def multiHopNoThrowRemote (putDataErrorCode : Nat) (reply : MultiHopReply K) :
    Except Undefined (RegionErr × ObjectPartList K) :=
  match ObjectPartList.empty.handleChunks reply.chunks with
  | .error x => .error x
  | .ok list =>
    match reply.err with
    | some code => .ok (.remote code, list)
    | none =>
      match reply.messageType with
      | .reply => .ok (.gf .noErr, list)
      | .response => .ok (.gf .noErr, list)
      | .exception code _ => .ok (.remote code, list)
      | .putDataError => .ok (.remote putDataErrorCode, list)
      | .other => .ok (.remote gfNotObj, list)

/-- `multiHopRemoveAllNoThrow_remote`. -/
def multiHopRemoveAllNoThrowRemote (reply : MultiHopReply K) :
    Except Undefined (RegionErr × ObjectPartList K) :=
  multiHopNoThrowRemote gfNotObj reply

/-- `multiHopPutAllNoThrow_remote`. -/
def multiHopPutAllNoThrowRemote (reply : MultiHopReply K) :
    Except Undefined (RegionErr × ObjectPartList K) :=
  multiHopNoThrowRemote gfCacheServerException reply

variable [DecidableEq K]

/-- `destroyNoThrow` with `LOCAL | NOCACHEWRITER`. The listener is told the key and the old value,
and says whether it throws. A map does not return `GF_INVALID_DELTA` from `remove`. -/
def destroyNoThrow (map : EntriesMap S K V D M X) (listener : K → CacheablePtr V → Bool) (m : S)
    (key : K) (updateCount : Int) (versionTag : Option VersionTag) : Except X RegionErr × S :=
  let invokeListener (oldValue : CacheablePtr V) : RegionErr :=
    if listener key oldValue then .cacheListenerException else .gf .noErr
  match map.remove m key updateCount versionTag false with
  | (.error x, m) => (.error x, m)
  | (.ok res, m) =>
    match res.err with
    | .noErr => (.ok (invokeListener res.oldValue), m)
    | .cacheEntryUpdated => (.ok (invokeListener res.oldValue), m)
    -- the cache has a higher version: the listener is not told
    | .cacheConcurrentModification => (.ok (.gf .noErr), m)
    | err => (.ok (.gf err), m)

/-- The loop of `removeAllNoThrow` over the keys that are left, from the index `keyIndex` on.
`versionTag` and `err` are declared before the loop. -/
def removeAllLocal (map : EntriesMap S K V D M X) (listener : K → CacheablePtr V → Bool)
    (tags : List (Option VersionTag)) (keyIndex : Nat) (versionTag : Option VersionTag)
    (err : RegionErr) (m : S) : List K → Except (Thrown X) RegionErr × S
  | [] => (.ok err, m)
  | key :: rest =>
    match (if tags = [] then some versionTag else tags[keyIndex]?) with
    | none => (.error (.undefined .outOfBounds), m)
    | some none => removeAllLocal map listener tags (keyIndex + 1) none err m rest
    | some (some versionTag) =>
      match destroyNoThrow map listener m key (-1) (some versionTag) with
      | (.error x, m) => (.error (.map x), m)
      | (.ok .cacheListenerException, m) =>
        removeAllLocal map listener tags (keyIndex + 1) (some versionTag) .cacheListenerException m
          rest
      | (.ok localErr, m) =>
        if localErr = .gf .cacheEntryUpdated ∨ localErr = .gf .cacheEntryNotFound ∨
            localErr = .gf .noErr then
          removeAllLocal map listener tags (keyIndex + 1) (some versionTag) err m rest
        else (.ok localErr, m)

/-- `LocalRegion::removeAllNoThrow` of a region whose remote step goes through multi-hop. -/
def removeAllNoThrow (map : EntriesMap S K V D M X) (listener : K → CacheablePtr V → Bool)
    (r : LocalRegion S) (keys : List K) (reply : MultiHopReply K) :
    Except (Thrown X) RegionErr × S :=
  match multiHopRemoveAllNoThrowRemote reply with
  | .error x => (.error (.undefined x), r.entries)
  | .ok (err, list) =>
    if err ≠ .gf .noErr then (.ok err, r.entries)
    else if r.cachingEnabled then
      let keysPtr := if r.isPRSingleHopEnabled then list.tempKeys else some keys
      match keysPtr with
      | none => (.error (.undefined .nullPointer), r.entries)
      | some keys => removeAllLocal map listener list.versionTags 0 none err r.entries keys
    else (.ok err, r.entries)

end

end GeodeNative.Region

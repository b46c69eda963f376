import GeodeNative.Cache.VersionStamp

/-!
# The list in which bulk replies arrive

The model of `VersionedCacheableObjectPartList` as `putAll` and `removeAll` use it: the succeeded
keys (`m_tempKeys`, which can be a null pointer), the version tags, and the two flags that say
which of them the list has. The replies to these requests carry no objects, so the parts of
`fromData` that read objects are left out here.

A reply arrives in chunks. `handleChunk` is the common body of `ChunkedPutAllResponse::handleChunk`
and `ChunkedRemoveAllResponse::handleChunk`. The byte part asks for a refresh of the bucket
metadata and does not change the list.
-/

set_option autoImplicit false

namespace GeodeNative.Region

open Cache (VersionTag)

/-- What the program does that C++ gives no meaning to: an index outside a vector, the use of a null
pointer, or the release of an object that has another owner. -/
inductive Undefined where
  | outOfBounds
  | nullPointer
  | doubleFree
  deriving DecidableEq, Repr

/-- The state of a `VersionedCacheableObjectPartList`. -/
structure ObjectPartList (K : Type) where
  tempKeys : Option (List K)
  hasKeys : Bool
  hasTags : Bool
  versionTags : List (Option VersionTag)

/-- The object part of a chunk: the keys and the tags that it carries, if it has them. A tag can be
null. -/
structure ObjectPart (K : Type) where
  keys : Option (List K)
  tags : Option (List (Option VersionTag))

/-- A chunk of a reply. -/
inductive Chunk (K : Type) where
  | nullObject
  | object (part : ObjectPart K)
  | bytes

namespace ObjectPartList

variable {K : Type}

/-- The constructor with only a lock. -/
def empty : ObjectPartList K where
  tempKeys := none
  hasKeys := false
  hasTags := false
  versionTags := []

/-- The constructor with a vector of keys and a lock. -/
def ofKeys (keys : List K) : ObjectPartList K where
  tempKeys := some keys
  hasKeys := false
  hasTags := false
  versionTags := []

/-- `fromData` on a list that was constructed with the member id of the endpoint: its vector of
keys is empty. Without tags the function writes a null tag at the index of each key, into a vector
of tags that has no elements. -/
def fromData (part : ObjectPart K) : Except Undefined (ObjectPartList K) :=
  let list : ObjectPartList K :=
    { tempKeys := some [], hasKeys := part.keys.isSome, hasTags := part.tags.isSome,
      versionTags := [] }
  if !list.hasKeys && !list.hasTags then .ok list
  else
    let keys := part.keys.getD []
    match part.tags with
    | some tags => .ok { list with tempKeys := some keys, versionTags := tags }
    | none =>
      if keys.isEmpty then .ok { list with tempKeys := some keys } else .error .outOfBounds

def addAll (list other : ObjectPartList K) : ObjectPartList K :=
  let list := match other.tempKeys, list.tempKeys with
    | none, _ => list
    | some keys, none => { list with tempKeys := some keys, hasKeys := true }
    | some keys, some own => { list with tempKeys := some (own ++ keys), hasKeys := true }
  if other.versionTags = [] then list
  else { list with versionTags := list.versionTags ++ other.versionTags, hasTags := true }

/-- When `m_hasKeys` is set there is a vector of keys. -/
def addAllKeys (list : ObjectPartList K) (keySet : List K) : ObjectPartList K :=
  if list.hasKeys then { list with tempKeys := some (list.tempKeys.getD [] ++ keySet) }
  else { list with tempKeys := some keySet, hasKeys := true }

def size (list : ObjectPartList K) : Int :=
  if list.hasKeys then (list.tempKeys.getD []).length
  else if list.hasTags then list.versionTags.length
  else -1

/-- `handleChunk` of the two result collectors. -/
def handleChunk (list : ObjectPartList K) : Chunk K → Except Undefined (ObjectPartList K)
  | .nullObject => .ok list
  | .object part =>
    match fromData part with
    | .error x => .error x
    | .ok vcObjPart => .ok (list.addAll vcObjPart)
  | .bytes => .ok list

/-- The chunks of a reply, one after the other. -/
def handleChunks (list : ObjectPartList K) : List (Chunk K) → Except Undefined (ObjectPartList K)
  | [] => .ok list
  | chunk :: rest =>
    match list.handleChunk chunk with
    | .error x => .error x
    | .ok list => list.handleChunks rest

end ObjectPartList

end GeodeNative.Region

import Mathlib

/-!
# Version tags, version stamps and the conflict check

A region with concurrency checks keeps a `VersionStamp` on every entry. An update that the
server sends carries a `VersionTag`. `VersionStamp.processVersionTag` compares the two and
decides whether the update is applied.

The stamp stores 24 bits of the entry version in two fields, 48 bits of the region version
in two fields, and the member that made the change. `VersionStamp.setVersions` cuts the
32-bit entry version of a tag to the low 24 bits.

The members live in the member list of the cache, outside this component. `MemberList`
keeps what the check reads from it: the lookup by the 16-bit id and the comparison of two
members.
-/

set_option autoImplicit false

namespace GeodeNative.Cache

/-- The codes of `GfErrType` that the entries map and its version check return. -/
inductive GfErrType where
  /-- `GF_NOERR` -/
  | noErr
  /-- `GF_CACHE_ENTRY_UPDATED` -/
  | cacheEntryUpdated
  /-- `GF_CACHE_ENTRY_EXISTS` -/
  | cacheEntryExists
  /-- `GF_CACHE_ENTRY_NOT_FOUND` -/
  | cacheEntryNotFound
  /-- `GF_CACHE_CONCURRENT_MODIFICATION_EXCEPTION` -/
  | cacheConcurrentModification
  /-- `GF_CACHE_ILLEGAL_STATE_EXCEPTION` -/
  | cacheIllegalState
  /-- `GF_INVALID_DELTA` -/
  | invalidDelta
  /-- `GF_ENOENT` -/
  | enoent
  /-- `GF_DISKFULL` -/
  | diskFull
  deriving DecidableEq, Repr

/-- The version information of one update. The bits that only the wire format
uses are not kept. -/
structure VersionTag where
  entryVersion : BitVec 32
  regionVersionHighBytes : BitVec 16
  regionVersionLowBytes : BitVec 32
  internalMemID : BitVec 16
  previousMemID : BitVec 16
  deriving DecidableEq, Repr

/-- The version information of an entry. The default value is the stamp of
the default constructor. -/
structure VersionStamp where
  memberID : BitVec 16 := 0
  entryVersionHighByte : BitVec 8 := 0
  entryVersionLowBytes : BitVec 16 := 0
  regionVersionHighBytes : BitVec 16 := 0
  regionVersionLowBytes : BitVec 32 := 0
  deriving DecidableEq, Repr

/-- What the version check reads from `MemberListForVersionStamp` and from the members in
it: `getDSMember`, which is null for an unknown id, and `DSMemberForVersionStamp::compareTo`. -/
structure MemberList (M : Type) where
  getDSMember : BitVec 16 → Option M
  compareTo : M → M → Int

namespace VersionStamp

/-- `VersionStamp::setVersions(VersionTagPtr)`. Every field is overwritten, so the old stamp
is not an argument. -/
def setVersions (versionTag : VersionTag) : VersionStamp where
  entryVersionLowBytes := (versionTag.entryVersion &&& 0xffff#32).setWidth 16
  entryVersionHighByte := ((versionTag.entryVersion &&& 0xff0000#32) >>> 16).setWidth 8
  regionVersionHighBytes := versionTag.regionVersionHighBytes
  regionVersionLowBytes := versionTag.regionVersionLowBytes
  memberID := versionTag.internalMemID

/-- `VersionStamp::getEntryVersion`. -/
def getEntryVersion (s : VersionStamp) : BitVec 32 :=
  (s.entryVersionHighByte.setWidth 32 <<< 16) ||| s.entryVersionLowBytes.setWidth 32

/-- `VersionStamp::getRegionVersion`. -/
def getRegionVersion (s : VersionStamp) : BitVec 64 :=
  (s.regionVersionHighBytes.setWidth 64 <<< 32) ||| s.regionVersionLowBytes.setWidth 64

/-- `VersionStamp::getMemberId`. -/
def getMemberId (s : VersionStamp) : BitVec 16 := s.memberID

section
variable {M : Type} (members : MemberList M)

/-- `VersionStamp::checkForDeltaConflict`: a delta applies only to the version it was taken
from. -/
def checkForDeltaConflict (s : VersionStamp) (stampVersion tagVersion : Int)
    (tag : VersionTag) : GfErrType :=
  if tagVersion ≠ stampVersion + 1 then .invalidDelta
  else
    match members.getDSMember s.getMemberId, members.getDSMember tag.previousMemID with
    | none, _ => .invalidDelta
    | some _, none => .invalidDelta
    | some stampID, some tagID =>
      if members.compareTo tagID stampID ≠ 0 then .invalidDelta else .noErr

/-- The wraparound step of `checkForConflict`, from the two entry versions as unsigned
32-bit numbers to the pair `(stampVersion, tagVersion)` that is compared. -/
def rolloverVersions (stampVersion tagVersion : Int) : Int × Int :=
  if stampVersion ≠ 0 then
    let difference := tagVersion - stampVersion
    if 0x10000 < difference ∨ difference < -0x10000 then
      if difference < 0 then (stampVersion, tagVersion + 0x100000000)
      else (stampVersion + 0x100000000, tagVersion)
    else (stampVersion, tagVersion)
  else (stampVersion, tagVersion)

/-- The comparison at the end of `checkForConflict`. The larger version wins, and the
members decide between equal versions. -/
def compareVersions (s : VersionStamp) (tag : VersionTag) (stampVersion tagVersion : Int) :
    GfErrType :=
  if stampVersion = 0 ∨ stampVersion < tagVersion then .noErr
  else if stampVersion > tagVersion then .cacheConcurrentModification
  else
    match members.getDSMember s.getMemberId, members.getDSMember tag.internalMemID with
    | none, _ => .cacheIllegalState
    | some _, none => .cacheIllegalState
    | some stampID, some tagID =>
      let compare := members.compareTo stampID tagID
      if compare < 0 then .noErr
      else if compare > 0 then .cacheConcurrentModification
      else .noErr

/-- `VersionStamp::checkForConflict`. -/
def checkForConflict (s : VersionStamp) (tag : VersionTag) (deltaCheck : Bool) : GfErrType :=
  if s.getEntryVersion = 0 ∧ s.getRegionVersion = 0 ∧ s.getMemberId = 0 then .noErr
  else if tag.entryVersion = 0 ∧ tag.regionVersionHighBytes = 0 ∧
      tag.regionVersionLowBytes = 0 ∧ tag.internalMemID = 0 then .noErr
  else
    let versions := rolloverVersions s.getEntryVersion.toNat tag.entryVersion.toNat
    let err :=
      if deltaCheck then checkForDeltaConflict members s versions.1 versions.2 tag else .noErr
    if err ≠ .noErr then err
    else compareVersions members s tag versions.1 versions.2

/-- `VersionStamp::processVersionTag`. The key is only logged. -/
def processVersionTag (s : VersionStamp) (tag : Option VersionTag) (deltaCheck : Bool) :
    GfErrType :=
  match tag with
  | none => .cacheIllegalState
  | some tag => checkForConflict members s tag deltaCheck

end

end VersionStamp

end GeodeNative.Cache

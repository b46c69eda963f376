import GeodeNative.Lib.BigEndian
import GeodeNative.Lib.UnorderedMap

/-!
# Where the buckets of a region are

The entries of a partitioned region are in buckets, and each bucket has copies on several servers.
`ClientMetadata` has the servers of each bucket, the primary one first. An operation on a key goes
to a server of the bucket of the key.

A server is its host name and port. A location whose server is not in the server group of the
client has its name set to null: it stays in the list and is not valid.
`ServerLocation::operator==` reads the left name through its pointer, so to search a map for such a
location is a call through a null pointer as soon as the location is compared.
-/

set_option autoImplicit false

namespace GeodeNative.Client

open Lib

/-- What ends a call other than a return. -/
inductive MetadataError where
  /-- `IllegalStateException` -/
  | illegalState (message : String)
  /-- A call through a null pointer. -/
  | nullPointer
  deriving DecidableEq, Repr

/-- `BucketServerLocation` with its base class `ServerLocation`. -/
structure BucketServerLocation where
  serverName : Option (List Byte)
  port : BitVec 32
  isPrimary : Bool
  version : BitVec 8
  deriving DecidableEq, Repr

namespace BucketServerLocation

def isValid (s : BucketServerLocation) : Bool :=
  match s.serverName with
  | none => false
  | some name => 0 < name.length && 0 ≤ s.port.toInt

/-- `getServerName().c_str()`: the name up to the first zero byte, and the empty string for a null
name. -/
def getServerName (s : BucketServerLocation) : List Byte :=
  (s.serverName.getD []).takeWhile (· ≠ 0)

/-- The value of `operator==` when the left name is not null: the names, as `getServerName` reads
them, and the ports are equal. -/
def equal (a b : BucketServerLocation) : Bool :=
  a.getServerName = b.getServerName && a.port = b.port

/-- `operator==`, which reads the left name through its pointer. -/
def operatorEqual (a b : BucketServerLocation) : Except MetadataError Bool :=
  match a.serverName with
  | none => .error .nullPointer
  | some _ => .ok (a.equal b)

def hashcode (s : BucketServerLocation) : BitVec 32 := 31 * 1 + s.port

theorem equal_iff {a b : BucketServerLocation} :
    a.equal b = true ↔ a.getServerName = b.getServerName ∧ a.port = b.port := by
  simp [equal]

theorem equal_refl (a : BucketServerLocation) : a.equal a = true := equal_iff.mpr ⟨rfl, rfl⟩

theorem hashcode_eq_of_equal {a b : BucketServerLocation} (h : a.equal b = true) :
    a.hashcode = b.hashcode := by
  unfold hashcode
  rw [(equal_iff.mp h).2]

/-- `dereference_equal_to<BucketServerLocationPtr>`, where it has a value. -/
def keyEqual : KeyEqual BucketServerLocation where
  equal := equal
  symm h := by
    obtain ⟨hname, hport⟩ := equal_iff.mp h
    exact equal_iff.mpr ⟨hname.symm, hport.symm⟩
  trans h h' := by
    obtain ⟨hname, hport⟩ := equal_iff.mp h
    obtain ⟨hname', hport'⟩ := equal_iff.mp h'
    exact equal_iff.mpr ⟨hname.trans hname', hport.trans hport'⟩

/-- `unordered_map::find`: the key is compared with the nodes that have its hash code, until one is
equal. -/
def lookup {V : Type} (key : BucketServerLocation) :
    List (BucketServerLocation × V) → Except MetadataError (Option V)
  | [] => .ok none
  | node :: m =>
    if node.1.hashcode = key.hashcode then
      match key.operatorEqual node.1 with
      | .error e => .error e
      | .ok true => .ok (some node.2)
      | .ok false => lookup key m
    else lookup key m

/-- A search for a key with a name compares it with no null name on the left. -/
theorem lookup_named {V : Type} {key : BucketServerLocation} (h : key.serverName ≠ none)
    (m : List (BucketServerLocation × V)) :
    key.lookup m = .ok (UnorderedMap.find keyEqual m key) := by
  induction m with
  | nil => rfl
  | cons node m ih =>
    have hcompare : key.operatorEqual node.1 = .ok (keyEqual.equal node.1 key) := by
      obtain ⟨name, hname⟩ := Option.ne_none_iff_exists'.mp h
      unfold operatorEqual
      rw [hname]
      exact congrArg Except.ok (Bool.eq_iff_iff.mpr ⟨keyEqual.symm, keyEqual.symm⟩)
    rw [lookup, UnorderedMap.find_cons, hcompare, ih]
    by_cases hequal : keyEqual.equal node.1 key = true
    · rw [if_pos (hashcode_eq_of_equal hequal), if_pos hequal, hequal]
    · rw [if_neg hequal, Bool.eq_false_iff.mpr hequal]
      exact ite_self _

end BucketServerLocation

/-- The constructor makes one list of locations for each bucket. -/
structure ClientMetadata where
  totalNumBuckets : Nat
  bucketServerLocationsList : List (List BucketServerLocation)
  length_eq : bucketServerLocationsList.length = totalNumBuckets

namespace ClientMetadata
variable (m : ClientMetadata)

/-- The locations of a bucket. -/
def locations (bucketId : Nat) : List BucketServerLocation :=
  m.bucketServerLocationsList.getD bucketId []

def checkBucketId (bucketId : Nat) : Except MetadataError Unit :=
  if bucketId ≥ m.bucketServerLocationsList.length then
    .error (.illegalState "ClientMetadata::getServerLocation(): BucketId out of range.")
  else .ok ()

/-- The location and the version that the call sets. `random` is the number that
`rand_r` gives. -/
def getServerLocation (bucketId : Nat) (tryPrimary : Bool) (random : Nat) (version : BitVec 8) :
    Except MetadataError (Option BucketServerLocation × BitVec 8) :=
  match m.checkBucketId bucketId with
  | .error e => .error e
  | .ok _ =>
    match m.locations bucketId with
    | [] => .ok (none, version)
    | first :: rest =>
      let version :=
        if first.isValid then if first.isPrimary then first.version else version
        else first.version
      if tryPrimary then .ok (some first, version)
      else .ok ((first :: rest)[random % (first :: rest).length]?, version)

def adviseServerLocations (bucketId : Nat) : Except MetadataError (List BucketServerLocation) :=
  match m.checkBucketId bucketId with
  | .error e => .error e
  | .ok _ => .ok (m.locations bucketId)

/-! ### `updateBucketServerLocations` -/

section
variable {P : Type} (location : P → BucketServerLocation)
  (getServerGroups : P → List (List Byte)) (serverGroup : List Byte)

/-- The pushes of the loop over the groups of the location `iter`. A group that matches ends the
loop, an empty one does not. -/
def groupPushes (iter : P) : List (List Byte) → List P
  | [] => []
  | cs :: groups =>
    if cs.length > 0 then
      if cs.takeWhile (· ≠ 0) = serverGroup.takeWhile (· ≠ 0) then [iter]
      else groupPushes iter groups
    else iter :: groupPushes iter groups

/-- The turn of `iter`: its pushes, and its server name after it. Null groups are empty here. -/
def updateLocation (iter : P) : List P × Option (List Byte) :=
  if serverGroup.length ≠ 0 then
    if (getServerGroups iter).length > 0 then
      match groupPushes serverGroup iter (getServerGroups iter) with
      | [] => ([iter], none)
      | pushed => (pushed, (location iter).serverName)
    else ([], (location iter).serverName)
  else ([iter], (location iter).serverName)

/-- The list that a bucket has after it. The locations are pointers of the type `P`. -/
def updateBucketServerLocations (randomShuffle : (l : List P) → {l' : List P // l'.Perm l})
    (bucketServerLocations : List P) : List P :=
  let pushed := bucketServerLocations.flatMap fun iter =>
    (updateLocation location getServerGroups serverGroup iter).1
  (randomShuffle (pushed.filter fun p => (location p).isPrimary)).1 ++
    (randomShuffle (pushed.filter fun p => !(location p).isPrimary)).1

end

end ClientMetadata

end GeodeNative.Client

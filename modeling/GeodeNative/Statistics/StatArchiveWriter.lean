import GeodeNative.Serialization.Calls

/-!
# The archive of the statistics

The model of `StatArchiveWriter` (`statistics/StatArchiveWriter.cpp`). A sample writes what has
changed since the sample before: the types and the instances that are new, the instances that were
closed, and the differences of the values.

A statistics object is known by its address, and `Archive.heap` has the objects.
`StatisticsManager` keeps the addresses in two lists, `statsList` and `newStatsList`. `Archive.out`
are the bytes that were written after the header, whether they were flushed or not.

The maps of the writer are lists, in the order of the insertions. A `std::map` is passed through in
the order of the addresses, so the order of a sample is an argument. Strings are shorter than 4
GiB. The differences are taken modulo 2^64.
-/

set_option autoImplicit false

namespace GeodeNative.Statistics

open Lib Serialization

/-! ## `StatDataOutput` -/

namespace StatDataOutput

def writeByte (v : Byte) : List Byte := [v]

def writeBoolean (v : Bool) : List Byte := writeByte (if v then 1 else 0)

def writeShort (v : BitVec 16) : List Byte := bigEndian 2 v

def writeInt (v : BitVec 32) : List Byte := bigEndian 4 v

def writeLong (v : BitVec 64) : List Byte := bigEndian 8 v

/-- `writeString`, which is `DataOutput::writeASCII`. -/
def writeString (s : List Byte) : List Byte :=
  let len := min s.length 0xFFFF
  bigEndian 2 (BitVec.ofNat 16 len) ++ s.take len

end StatDataOutput

open StatDataOutput

/-! ## Types and objects -/

/-- `FieldType` -/
inductive FieldType where
  | intType
  | longType
  | doubleType
  deriving DecidableEq

/-- The byte of a type code. -/
def FieldType.code : FieldType → Byte
  | .intType => 5
  | .longType => 6
  | .doubleType => 8

/-- `StatisticDescriptorImpl` -/
structure StatisticDescriptor where
  name : List Byte
  typeCode : FieldType
  isCounter : Bool
  isLargerBetter : Bool
  unit : List Byte
  description : List Byte

/-- `StatisticsType` -/
structure StatisticsType where
  name : List Byte
  description : List Byte
  stats : List StatisticDescriptor

/-- A `Statistics` object of the type at the address `type`. `rawBits i` is the value of the
descriptor number `i`. -/
structure Stats (T : Type) where
  type : T
  textId : List Byte
  numericId : BitVec 64
  closed : Bool
  rawBits : Nat → BitVec 64

/-! ## `ResourceInst` -/

/-- `ResourceType`, without the pointer to the descriptors. -/
structure ResourceType where
  id : BitVec 32
  numOfDescriptors : Nat

/-- `ResourceInst` of a statistics object. -/
structure ResourceInst where
  id : BitVec 32
  type : ResourceType
  archivedStatValues : List (BitVec 64)
  firstTime : Bool

/-- `COMPACT_VALUE_2_TOKEN` -/
def compactValue2Token : Byte := -128

/-- The loop that takes the low bytes of `v` into the buffer, until `v` is one of the values
`stop`. The buffer has eight bytes. -/
def takeBytes (stop : BitVec 64 → Bool) : Nat → BitVec 64 → List Byte × BitVec 64
  | 0, v => ([], v)
  | room + 1, v =>
    if stop v then ([], v)
    else
      let r := takeBytes stop room (v.sshiftRight 8)
      (v.setWidth 8 :: r.1, r.2)

/-- The last byte of the buffer has its high order bit set. -/
def highBit (buffer : List Byte) : Bool := (buffer.getLastD 0).msb

/-- The buffer of `writeCompactValue` for a negative number. -/
def negativeBuffer (v : BitVec 64) : List Byte :=
  let r := takeBytes (fun v => v == -1 || v == 0) 8 v
  let buffer :=
    -- `v` goes to zero only where the shift is not arithmetic
    if r.2 == 0 then r.1.rdropWhile (· == -1) else r.1
  if !buffer.isEmpty && !highBit buffer then buffer ++ [-1] else buffer

/-- The buffer of `writeCompactValue` for a number that is not negative. -/
def positiveBuffer (v : BitVec 64) : List Byte :=
  let buffer := (takeBytes (fun v => v == 0) 8 v).1
  if highBit buffer then buffer ++ [0] else buffer

def writeCompactValue (v : BitVec 64) : List Byte :=
  if v.toInt ≤ 127 ∧ v.toInt ≥ -128 + 7 then writeByte (v.setWidth 8)
  else if v.toInt ≤ 32767 ∧ v.toInt ≥ -32768 then
    writeByte compactValue2Token ++ writeShort (v.setWidth 16)
  else
    let buffer := if v.toInt < 0 then negativeBuffer v else positiveBuffer v
    writeByte (compactValue2Token + BitVec.ofNat 8 (buffer.length - 2)) ++ buffer.reverse

/-- The comparisons are signed. -/
def writeResourceInst (instId : BitVec 32) : List Byte :=
  if instId.toInt > 252 then
    if instId.toInt > 65535 then writeByte 254 ++ writeInt instId
    else writeByte 253 ++ writeShort (instId.setWidth 16)
  else writeByte (instId.setWidth 8)

/-- The loop of `writeSample` over the descriptors from number `i` on, with the values that were
archived for them: the bytes, and the new values to archive. -/
def writeStats (checkForChange : Bool) (rawBits : Nat → BitVec 64) (i : Nat) :
    List (BitVec 64) → List Byte × List (BitVec 64)
  | [] => ([], [])
  | archived :: rest =>
    let r := writeStats checkForChange rawBits (i + 1) rest
    let value := rawBits i
    if !checkForChange || value != archived then
      (writeByte (BitVec.ofNat 8 i) ++ writeCompactValue (value - archived) ++ r.1, value :: r.2)
    else (r.1, archived :: r.2)

/-- `writeSample` for an object with these values. The id is written before the first value. -/
def ResourceInst.writeSample (closed : Bool) (rawBits : Nat → BitVec 64) (ri : ResourceInst) :
    List Byte × ResourceInst :=
  if closed then ([], ri)
  else
    let r := writeStats (!ri.firstTime) rawBits 0 ri.archivedStatValues
    let bytes :=
      if r.1.isEmpty then [] else writeResourceInst ri.id ++ r.1 ++ writeByte 255
    (bytes, { ri with archivedStatValues := r.2, firstTime := false })

/-! ## `StatArchiveWriter` -/

/-- The writer with the lists of the sampler. `P` are the addresses of the statistics objects and
`T` those of their types. -/
structure Archive (P T : Type) where
  heap : P → Stats T
  statsList : List P
  newStatsList : List P
  resourceTypeId : BitVec 32
  resourceInstId : BitVec 32
  resourceInstMap : List (P × ResourceInst)
  resourceTypeMap : List (T × ResourceType)
  /-- In nanoseconds. -/
  previousTimeStamp : Int
  out : List Byte

section

variable {P T : Type} [DecidableEq P] [DecidableEq T]

/-- The bytes of a descriptor in the definition of a type. -/
def writeDescriptor (d : StatisticDescriptor) : List Byte :=
  writeString d.name ++ writeByte d.typeCode.code ++ writeBoolean d.isCounter ++
    writeBoolean d.isLargerBetter ++ writeString d.unit ++ writeString d.description

namespace Archive

variable (types : T → StatisticsType) (st : Archive P T)

/-- `getResourceType`, and the definition of the type is written when it is new. -/
def getResourceType (t : T) : ResourceType × Archive P T :=
  match st.resourceTypeMap.find? (·.1 = t) with
  | some node => (node.2, st)
  | none =>
    let type := types t
    let rt : ResourceType := ⟨st.resourceTypeId, type.stats.length⟩
    (rt, { st with
      resourceTypeMap := st.resourceTypeMap ++ [(t, rt)]
      out := st.out ++ (writeByte 1 ++ writeInt st.resourceTypeId ++ writeString type.name ++
        writeString type.description ++ writeShort (BitVec.ofNat 16 type.stats.length) ++
        type.stats.flatMap writeDescriptor)
      resourceTypeId := st.resourceTypeId + 1 })

def allocateResourceInst (p : P) : Archive P T :=
  let s := st.heap p
  if s.closed then st
  else
    let r := getResourceType types st s.type
    let st := r.2
    let ri : ResourceInst :=
      ⟨st.resourceInstId, r.1, List.replicate r.1.numOfDescriptors 0, true⟩
    { st with
      resourceInstMap :=
        if p ∈ st.resourceInstMap.map (·.1) then st.resourceInstMap
        else st.resourceInstMap ++ [(p, ri)]
      out := st.out ++ (writeByte 2 ++ writeInt st.resourceInstId ++ writeString s.textId ++
        writeLong s.numericId ++ writeInt r.1.id)
      resourceInstId := st.resourceInstId + 1 }

def resourceInstMapHas (p : P) : Bool := p ∈ st.resourceInstMap.map (·.1)

/-- The loop of `sampleResources` over the new objects. -/
def allocateNew (types : T → StatisticsType) (st : Archive P T) : List P → Archive P T
  | [] => st
  | p :: rest =>
    allocateNew types (if st.resourceInstMapHas p then st else st.allocateResourceInst types p) rest

/-- The loop of `sampleResources` over `statsList`. The source starts again at the first address
after each removal, and then passes over the open objects in front once more. -/
def deleteClosed (st : Archive P T) : List P → Archive P T
  | [] => st
  | p :: rest =>
    if (st.heap p).closed then
      match st.resourceInstMap.find? (·.1 = p) with
      | some node =>
        deleteClosed { st with
          statsList := st.statsList.erase p
          resourceInstMap := st.resourceInstMap.filter (·.1 ≠ p)
          out := st.out ++ (writeByte 3 ++ writeInt node.2.id) } rest
      | none => deleteClosed { st with statsList := st.statsList.erase p } rest
    else deleteClosed st rest

def sampleResources : Archive P T :=
  let st := { st.allocateNew types st.newStatsList with newStatsList := [] }
  st.deleteClosed st.statsList

/-- `resampleResources`, the end of the constructor. -/
def resampleResources : Archive P T :=
  st.statsList.foldl (fun st p =>
    if (st.heap p).closed then st else st.allocateResourceInst types p) st

/-- The difference of two time stamps in milliseconds, as an `int32_t`. -/
def stampDelta (previousTimeStamp timeStamp : Int) : BitVec 32 :=
  BitVec.ofInt 32 ((timeStamp - previousTimeStamp).tdiv 1000000)

/-- The differences for samples at these times. -/
def stampDeltas (previousTimeStamp : Int) : List Int → List (BitVec 32)
  | [] => []
  | timeStamp :: rest => stampDelta previousTimeStamp timeStamp :: stampDeltas timeStamp rest

/-- The bytes of `writeTimeStamp`. -/
def writeTimeStamp (delta : BitVec 32) : List Byte :=
  if delta.toInt > 65534 then writeShort 65535 ++ writeInt delta
  else writeShort (delta.setWidth 16)

/-- The loop of `sample` over the instances, in the given order. -/
def writeSamples (st : Archive P T) : List (P × ResourceInst) → List Byte
  | [] => []
  | (p, ri) :: rest =>
    (ri.writeSample (st.heap p).closed (st.heap p).rawBits).1 ++ writeSamples st rest

/-- The instances are passed through in the order of `order`. -/
def sample (order : ∀ m : List (P × ResourceInst), { m' : List (P × ResourceInst) // m'.Perm m })
    (timeStamp : Int) (st : Archive P T) : Archive P T :=
  let st := st.sampleResources types
  { st with
    previousTimeStamp := timeStamp
    resourceInstMap := st.resourceInstMap.map fun node =>
      (node.1, (node.2.writeSample (st.heap node.1).closed (st.heap node.1).rawBits).2)
    out := st.out ++ (writeByte 0 ++ writeTimeStamp (stampDelta st.previousTimeStamp timeStamp) ++
      st.writeSamples (order st.resourceInstMap).1 ++ writeResourceInst (-1)) }

/-- The writer after its constructor, for the objects that there are. -/
def «open» (heap : P → Stats T) (statsList newStatsList : List P) (timeStamp : Int) : Archive P T :=
  resampleResources types
    { heap, statsList, newStatsList, resourceTypeId := 0, resourceInstId := 0, resourceInstMap := []
      resourceTypeMap := [], previousTimeStamp := timeStamp, out := [] }

end Archive

/-- What happens to the statistics objects, and the samples. -/
inductive ArchiveOp (P T : Type) where
  | register (p : P) (s : Stats T)
  | set (p : P) (i : Nat) (value : BitVec 64)
  | close (p : P)
  | sample (timeStamp : Int)
    (order : ∀ m : List (P × ResourceInst), { m' : List (P × ResourceInst) // m'.Perm m })

/-- One step of the archive. -/
def ArchiveOp.step (types : T → StatisticsType) (st : Archive P T) : ArchiveOp P T → Archive P T
  | .register p s =>
    { st with
      heap := fun q => if q = p then s else st.heap q
      statsList := st.statsList ++ [p]
      newStatsList := st.newStatsList ++ [p] }
  | .set p i value =>
    { st with heap := fun q =>
        if q = p then
          { st.heap p with rawBits := fun j => if j = i then value else (st.heap p).rawBits j }
        else st.heap q }
  | .close p =>
    { st with heap := fun q => if q = p then { st.heap p with closed := true } else st.heap q }
  | .sample timeStamp order => st.sample types order timeStamp

/-- The times of the samples. -/
def ArchiveOp.times : List (ArchiveOp P T) → List Int
  | [] => []
  | .sample timeStamp _ :: ops => timeStamp :: times ops
  | _ :: ops => times ops

end

/-! ## The count of the bytes -/

/-- A `StatDataOutput`, without the file. A buffer has less than 2^32 bytes, so the 64 bits of the
counter suffice. -/
structure StatDataOutput where
  dataBuffer : DataOutput
  bytesWritten : Nat

/-- The calls that write to the buffer or empty it. -/
inductive StatDataOutput.Call where
  | writeByte (v : Byte)
  | writeShort (v : BitVec 16)
  | writeInt (v : BitVec 32)
  | writeLong (v : BitVec 64)
  | writeString (s : List Byte)
  | writeUTF (s : List WChar)
  | resetBuffer

/-- One call. -/
def StatDataOutput.step (out : StatDataOutput) : Call → StatDataOutput
  | .writeByte v => ⟨out.dataBuffer.write v, out.bytesWritten + 1⟩
  | .writeShort v => ⟨out.dataBuffer.writeInt16 v, out.bytesWritten + 2⟩
  | .writeInt v => ⟨out.dataBuffer.writeInt32 v, out.bytesWritten + 4⟩
  | .writeLong v => ⟨out.dataBuffer.writeInt64 v, out.bytesWritten + 8⟩
  | .writeString s => ⟨out.dataBuffer.writeASCII s (len32 s), out.bytesWritten + s.length⟩
  | .writeUTF s => ⟨out.dataBuffer.writeWideUTF s (len32 s), out.bytesWritten + s.length⟩
  -- `reset` also gives a big buffer back, and only its size changes by that
  | .resetBuffer => ⟨{ out.dataBuffer with bytes := [] }, 0⟩

end GeodeNative.Statistics

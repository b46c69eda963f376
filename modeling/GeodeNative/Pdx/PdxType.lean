import GeodeNative.Lib.BigEndian
import GeodeNative.Lib.Layout

/-!
# Types of PDX streams

The model of `PdxFieldType` and `PdxType` (`PdxFieldType.cpp`, `PdxType.cpp`), and of the integer
reads of `PdxHelper`. A type is a list of fields. `generatePositionMap` prepares, for each field,
from where its position in a stream is computed: from the start, from the entry of a variable
length field in the offset table, or from the end.

`int32_t` lengths and positions are integers here. The name map of the source holds pointers to
the fields; here it holds their indices. The registry's local type is an argument.

Types are values. In the source a clone shares the field objects with its original, so the position
map of a merged type also re-positions the fields of the local type. A type that is used after it
was merged is a type with other positions, and the results on positions are about types whose own
position map was made last.

`toData` and `fromData` of a type are left out. `mergeVersion` sets `m_varLenFieldIdx` to the
number of the variable length fields, and `fromData` takes it for the last index, so a merged type
that is written and read back counts one field too many.
-/

set_option autoImplicit false

namespace GeodeNative.Pdx

open Lib

/-- `IllegalStateException`, with its text. -/
structure IllegalStateException where
  message : String
  deriving DecidableEq, Repr

/-- `PdxFieldTypes::PdxFieldType`. -/
inductive PdxFieldTypes where
  | boolean | byte | char | short | int | long | float | double | date | string | object
  | booleanArray | charArray | byteArray | shortArray | intArray | longArray | floatArray
  | doubleArray | stringArray | objectArray | arrayOfByteArrays
  deriving DecidableEq, Repr

/-- The member of the enumeration with this number. -/
def PdxFieldTypes.ofTypeId (typeId : BitVec 8) : Option PdxFieldTypes :=
  [boolean, byte, char, short, int, long, float, double, date, string, object, booleanArray,
    charArray, byteArray, shortArray, intArray, longArray, floatArray, doubleArray, stringArray,
    objectArray, arrayOfByteArrays][typeId.toNat]?

/-- A `PdxFieldType`. -/
structure PdxFieldType where
  fieldName : String
  className : String
  typeId : BitVec 8
  sequenceId : Nat
  isVariableLengthType : Bool
  isIdentityField : Bool
  fixedSize : Int
  varLenFieldIdx : Int
  vlOffsetIndex : Int
  relativeOffset : Int
  deriving DecidableEq, Repr

namespace PdxFieldType

/-- The constructor with arguments. -/
def new (fieldName className : String) (typeId : BitVec 8) (sequenceId : Nat)
    (isVariableLengthType : Bool) (fixedSize varLenFieldIdx : Int) : PdxFieldType where
  fieldName := fieldName
  className := className
  typeId := typeId
  sequenceId := sequenceId
  isVariableLengthType := isVariableLengthType
  isIdentityField := false
  fixedSize := fixedSize
  varLenFieldIdx := varLenFieldIdx
  vlOffsetIndex := 0
  relativeOffset := 0

/-- `getSequenceId`, which returns a `uint8_t`. -/
def getSequenceId (f : PdxFieldType) : Nat := f.sequenceId % 256

def equals (f other : PdxFieldType) : Bool :=
  other.fieldName = f.fieldName ∧ other.typeId = f.typeId

/-- `setVarLenOffsetIndex` and `setRelativeOffset`. -/
def setPosition (f : PdxFieldType) (vlOffsetIndex relativeOffset : Int) : PdxFieldType :=
  { f with vlOffsetIndex := vlOffsetIndex, relativeOffset := relativeOffset }

end PdxFieldType

/-! ### `PdxHelper` -/

namespace PdxHelper

/-- `PdxHeader`. -/
def pdxHeader : Nat := 8

/-- The `n` bytes at a position of the buffer. -/
def bytesAt (buf : List Byte) (pos : Int) (n : Nat) : Option (List Byte) :=
  if 0 ≤ pos ∧ pos.toNat + n ≤ buf.length then some (slice buf pos.toNat (pos.toNat + n)) else none

def readByte (buf : List Byte) (pos : Int) : Option Int :=
  (bytesAt buf pos 1).map fun bs => (ofBigEndian 8 bs).toNat

def readUInt16 (buf : List Byte) (pos : Int) : Option Int :=
  (bytesAt buf pos 2).map fun bs => (ofBigEndian 16 bs).toNat

def readInt32 (buf : List Byte) (pos : Int) : Option Int :=
  (bytesAt buf pos 4).map fun bs => (ofBigEndian 32 bs).toInt

/-- There is no value outside of the buffer, or for another size. -/
def readInt (buf : List Byte) (pos size : Int) : Option Int :=
  if size = 1 then readByte buf pos
  else if size = 2 then readUInt16 buf pos
  else if size = 4 then readInt32 buf pos
  else none

end PdxHelper

/-- What the remote-to-local map says of a remote field: the local type has it, or the local type
lacks this variable length field, or this fixed length field. The source has 1, -1 and -2. -/
inductive RemoteToLocal where
  | present
  | absentVariable
  | absentFixed
  deriving DecidableEq, Repr

/-- A `PdxType`. A map that was not built yet is null. -/
structure PdxType where
  className : String
  geodeTypeId : Int
  isLocal : Bool
  pdxFieldTypes : List PdxFieldType
  numberOfVarLenFields : Int
  varLenFieldIdx : Int
  isVarLenFieldAdded : Bool
  numberOfFieldsExtra : Int
  remoteToLocalFieldMap : Option (List RemoteToLocal)
  localToRemoteFieldMap : Option (List Int)
  fieldNameVsPdxType : AList fun _ : String => Nat
  deriving DecidableEq

namespace PdxType

/-- The constructor with arguments. -/
def new (pdxDomainClassName : String) (isLocal : Bool) : PdxType where
  className := pdxDomainClassName
  geodeTypeId := 0
  isLocal := isLocal
  pdxFieldTypes := []
  numberOfVarLenFields := 0
  varLenFieldIdx := 0
  isVarLenFieldAdded := false
  numberOfFieldsExtra := 0
  remoteToLocalFieldMap := none
  localToRemoteFieldMap := none
  fieldNameVsPdxType := ∅

/-! ### Adding fields -/

/-- The text of the exception. The buffer of the source has room for 255 characters. -/
def alreadyAdded (fieldName : Option String) : IllegalStateException where
  message := String.ofList (("Field: " ++ fieldName.getD "(null)" ++
    " is either already added into PdxWriter or it is null ").toList.take 255)

/-- The field is appended, and its name is entered in the map. -/
def pushField (t : PdxType) (f : PdxFieldType) : PdxType :=
  { t with
    pdxFieldTypes := t.pdxFieldTypes ++ [f]
    fieldNameVsPdxType := t.fieldNameVsPdxType.insert f.fieldName t.pdxFieldTypes.length }

def addFixedLengthTypeField (t : PdxType) (fieldName : Option String) (className : String)
    (typeId : BitVec 8) (size : Int) : Except IllegalStateException PdxType :=
  match fieldName with
  | none => .error (alreadyAdded none)
  | some name =>
    if name ∈ t.fieldNameVsPdxType then .error (alreadyAdded (some name))
    else .ok (t.pushField (.new name className typeId t.pdxFieldTypes.length false size 0))

def addVariableLengthTypeField (t : PdxType) (fieldName : Option String) (className : String)
    (typeId : BitVec 8) : Except IllegalStateException PdxType :=
  match fieldName with
  | none => .error (alreadyAdded none)
  | some name =>
    if name ∈ t.fieldNameVsPdxType then .error (alreadyAdded (some name))
    else
      let varLenFieldIdx := if t.isVarLenFieldAdded then t.varLenFieldIdx + 1 else t.varLenFieldIdx
      let t := { t with
        varLenFieldIdx := varLenFieldIdx
        numberOfVarLenFields := t.numberOfVarLenFields + 1
        isVarLenFieldAdded := true }
      .ok (t.pushField (.new name className typeId t.pdxFieldTypes.length true (-1) varLenFieldIdx))

end PdxType

/-- A call that adds a field. -/
inductive AddField where
  | fixedLength (fieldName : Option String) (className : String) (typeId : BitVec 8) (size : Int)
  | variableLength (fieldName : Option String) (className : String) (typeId : BitVec 8)
  deriving DecidableEq

/-- What the call returns or throws. -/
def AddField.exec (t : PdxType) : AddField → Except IllegalStateException PdxType
  | fixedLength fieldName className typeId size =>
    t.addFixedLengthTypeField fieldName className typeId size
  | variableLength fieldName className typeId =>
    t.addVariableLengthTypeField fieldName className typeId

/-- The type after the call. A call that throws leaves the type as it was. -/
def AddField.step (t : PdxType) (add : AddField) : PdxType :=
  match add.exec t with
  | .ok t' => t'
  | .error _ => t

namespace PdxType

/-! ### `InitializeType` -/

/-- What the remote-to-local map says of one remote field. -/
def remoteToLocal (localFields : List PdxFieldType) (f : PdxFieldType) : RemoteToLocal :=
  if localFields.any (·.equals f) then .present
  else if f.isVariableLengthType then .absentVariable
  else .absentFixed

variable (t : PdxType)

def initRemoteToLocal (localPdxType : Option PdxType) : PdxType :=
  match localPdxType with
  | none => { t with numberOfFieldsExtra := 0 }
  | some l =>
    let map := t.pdxFieldTypes.map (remoteToLocal l.pdxFieldTypes)
    { t with
      remoteToLocalFieldMap := some map
      numberOfFieldsExtra := (map.filter (· ≠ .present)).length }

/-- The entries of the local-to-remote map for fields behind the common start: the number of the
field in the remote type, or -1. -/
def localToRemote (remoteFields : List PdxFieldType) (f : PdxFieldType) : Int :=
  match remoteFields.find? (f.equals ·) with
  | some remote => remote.getSequenceId
  | none => -1

/-- The local-to-remote map. As long as the fields agree it has -2. -/
def localToRemoteFrom (allRemote : List PdxFieldType) :
    List PdxFieldType → List PdxFieldType → List Int
  | [], _ => []
  | f :: fs, [] => (f :: fs).map (localToRemote allRemote)
  | f :: fs, r :: rs =>
    if f.equals r then -2 :: localToRemoteFrom allRemote fs rs
    else (f :: fs).map (localToRemote allRemote)

def initLocalToRemote (localPdxType : Option PdxType) : PdxType :=
  match localPdxType with
  | none => t
  | some l =>
    { t with
      localToRemoteFieldMap :=
        some (localToRemoteFrom t.pdxFieldTypes l.pdxFieldTypes t.pdxFieldTypes) }

/-- The variables of the first loop of `generatePositionMap`. `previousField` is the field that
the loop saw before, which comes after the current one in the type; only its relative offset is
read. -/
structure FromBack where
  foundVarLen : Bool
  lastVarLenSeqId : Int
  previousRelativeOffset : Option Int

/-- One round of the first loop. -/
def fromBackStep (f : PdxFieldType) (st : FromBack) : PdxFieldType × FromBack :=
  let f :=
    if f.isVariableLengthType then f.setPosition f.varLenFieldIdx 0
    else if st.foundVarLen then
      f.setPosition st.lastVarLenSeqId (-f.fixedSize + st.previousRelativeOffset.getD 0)
    else f.setPosition (-1) (-f.fixedSize + st.previousRelativeOffset.getD 0)
  (f, { foundVarLen := st.foundVarLen || f.isVariableLengthType
        lastVarLenSeqId := if f.isVariableLengthType then f.varLenFieldIdx else st.lastVarLenSeqId
        previousRelativeOffset := some f.relativeOffset })

/-- The first loop, from the last field to the first one. -/
def fromBack : List PdxFieldType → List PdxFieldType × FromBack
  | [] => ([], ⟨false, 0, none⟩)
  | f :: fs =>
    let r := fromBack fs
    let s := fromBackStep f r.2
    (s.1 :: r.1, s.2)

/-- The second loop, up to the first variable length field. -/
def fromFront : Int → List PdxFieldType → List PdxFieldType
  | _, [] => []
  | prevFixedSizeOffsets, f :: fs =>
    if f.isVariableLengthType then f.setPosition (-1) prevFixedSizeOffsets :: fs
    else f.setPosition 0 prevFixedSizeOffsets :: fromFront (prevFixedSizeOffsets + f.fixedSize) fs

/-- The names that the first loop enters in the map: a name that is there already stays. -/
def insertNames (map : AList fun _ : String => Nat) (fields : List PdxFieldType) :
    AList fun _ : String => Nat :=
  fields.zipIdx.foldr (fun p map =>
    if p.1.fieldName ∈ map then map else map.insert p.1.fieldName p.2) map

def generatePositionMap : PdxType :=
  { t with
    pdxFieldTypes := fromFront 0 (fromBack t.pdxFieldTypes).1
    fieldNameVsPdxType := insertNames t.fieldNameVsPdxType t.pdxFieldTypes }

/-- `InitializeType`, with the local type that the registry has for the class. -/
def initializeType (localPdxType : Option PdxType) : PdxType :=
  ((t.initRemoteToLocal localPdxType).initLocalToRemote localPdxType).generatePositionMap

/-! ### Positions -/

def fixedLengthFieldPosition (f : PdxFieldType) (buf : List Byte)
    (offsetPosition offsetSize pdxStreamlen : Int) : Option Int :=
  let offset := f.vlOffsetIndex
  if 0 ≤ f.relativeOffset then some f.relativeOffset
  else if offset = -1 then some (pdxStreamlen + f.relativeOffset)
  else
    (PdxHelper.readInt buf
      (offsetPosition + (t.numberOfVarLenFields - offset - 1) * offsetSize) offsetSize).map
        (· + f.relativeOffset)

def variableLengthFieldPosition (f : PdxFieldType) (buf : List Byte)
    (offsetPosition offsetSize : Int) : Option Int :=
  let offset := f.vlOffsetIndex
  if offset = -1 then some f.relativeOffset
  else
    PdxHelper.readInt buf
      (offsetPosition + (t.numberOfVarLenFields - offset - 1) * offsetSize) offsetSize

/-- The position of a field. -/
def fieldPosition (f : PdxFieldType) (buf : List Byte)
    (offsetPosition offsetSize pdxStreamlen : Int) : Option Int :=
  if f.isVariableLengthType then t.variableLengthFieldPosition f buf offsetPosition offsetSize
  else t.fixedLengthFieldPosition f buf offsetPosition offsetSize pdxStreamlen

/-- `getFieldPosition(int32_t, …)`. `buf` is the memory that holds the stream, and
`offsetPosition` is where the offset table starts in it. There is no value when the index is out
of range or a read lies outside of the memory. -/
def getFieldPosition (fieldIdx : Nat) (buf : List Byte)
    (offsetPosition offsetSize pdxStreamlen : Int) : Option Int :=
  match t.pdxFieldTypes[fieldIdx]? with
  | none => none
  | some f => t.fieldPosition f buf offsetPosition offsetSize pdxStreamlen

def getPdxField (fieldName : String) : Option PdxFieldType :=
  (t.fieldNameVsPdxType.lookup fieldName).bind (t.pdxFieldTypes[·]?)

/-! ### Merging -/

/-- The fields of the second type occur in the first one, in order. The search for
the next field starts at the field that was found last. -/
def isContains : List PdxFieldType → List PdxFieldType → Bool
  | _, [] => true
  | first, f :: second =>
    let found := first.dropWhile (fun g => !g.equals f)
    !found.isEmpty && isContains found second

/-- `clone`. The fields of the new type are the objects of this one. -/
def clone : PdxType :=
  { PdxType.new t.className false with
    numberOfVarLenFields := t.numberOfVarLenFields
    pdxFieldTypes := t.pdxFieldTypes }

/-- One round of the loop of `mergeVersion` over the fields of the other type. -/
def mergeField (newone : PdxType × Int) (f : PdxFieldType) : PdxType × Int :=
  if newone.1.pdxFieldTypes.any (·.equals f) then newone
  else
    let newFt := PdxFieldType.new f.fieldName f.className f.typeId newone.1.pdxFieldTypes.length
      f.isVariableLengthType f.fixedSize (if f.isVariableLengthType then newone.2 else 0)
    ({ newone.1 with pdxFieldTypes := newone.1.pdxFieldTypes ++ [newFt] },
      if f.isVariableLengthType then newone.2 + 1 else newone.2)

def mergeVersion (t otherVersion : PdxType) : PdxType :=
  if otherVersion.pdxFieldTypes.length ≤ t.pdxFieldTypes.length ∧
      isContains t.pdxFieldTypes otherVersion.pdxFieldTypes then t
  else if t.pdxFieldTypes.length ≤ otherVersion.pdxFieldTypes.length ∧
      isContains otherVersion.pdxFieldTypes t.pdxFieldTypes then otherVersion
  else
    let merged := otherVersion.pdxFieldTypes.foldl mergeField (t.clone, t.numberOfVarLenFields)
    { merged.1 with
      numberOfVarLenFields := merged.2
      varLenFieldIdx := if merged.2 > 0 then merged.2 else merged.1.varLenFieldIdx }

/-- `Equals`. -/
def typeEquals (t other : PdxType) : Bool :=
  other.pdxFieldTypes.length = t.pdxFieldTypes.length ∧
    ((other.pdxFieldTypes.zip t.pdxFieldTypes).all fun p => p.1.equals p.2)

/-- `PdxHelper::createMergedType`: the type that the registry gets for the merged version. The
type id that the server would give to it is not used. -/
def createMergedType (localType remoteType : PdxType) : PdxType :=
  let mergedVersion := localType.mergeVersion remoteType
  if mergedVersion.typeEquals localType then localType
  else if mergedVersion.typeEquals remoteType then remoteType
  else mergedVersion.initializeType (some localType)

end PdxType

end GeodeNative.Pdx

import GeodeNative.Pdx.PdxType
import GeodeNative.Serialization.DataInput

/-!
# Reading a PDX stream

The model of `PdxLocalReader` (`PdxLocalReader.cpp`): how it finds the offset table, how it reads a
field at the cursor, and how it keeps the bytes of the fields that the local type lacks.

The reads do not depend on the reader. They check that the name of the field is not null and do not
use it otherwise. What the type registry makes of an object on the stream is a parameter: `others`,
by the type id. `readCollection`, which reads an object and casts it, is left out.
-/

set_option autoImplicit false

namespace GeodeNative.Pdx

open Lib Serialization

/-- A `PdxLocalReader`. `startPosition` is the cursor at the start of the stream. -/
structure PdxLocalReader where
  pdxType : PdxType
  startPosition : Int
  serializedLengthWithOffsets : Int
  serializedLength : Int
  offsetSize : Int
  isDataNeedToPreserve : Bool

namespace PdxLocalReader

/-- The width of the entries of the offset table, from the length of the stream. -/
def offsetSizeOf (serializedLengthWithOffsets : Int) : Int :=
  if serializedLengthWithOffsets ≤ 0xff then 1
  else if serializedLengthWithOffsets ≤ 0xffff then 2
  else 4

/-- The constructor, with `initialize`. -/
def new (input : DataInput) (remoteType : PdxType) (pdxLen : Int) : PdxLocalReader where
  pdxType := remoteType
  startPosition := input.pos
  serializedLengthWithOffsets := pdxLen
  serializedLength :=
    if remoteType.numberOfVarLenFields > 0 then
      pdxLen - (remoteType.numberOfVarLenFields - 1) * offsetSizeOf pdxLen
    else pdxLen
  offsetSize := offsetSizeOf pdxLen
  isDataNeedToPreserve := true

variable (r : PdxLocalReader)

/-- `m_offsetsBuffer`. -/
def offsetsBuffer : Int := r.startPosition + r.serializedLength

/-- The position of a field, relative to the start of the stream. -/
def getFieldPosition (buf : List Byte) (fieldIdx : Nat) : Option Int :=
  r.pdxType.getFieldPosition fieldIdx buf r.offsetsBuffer r.offsetSize r.serializedLength

def resettoPdxHead : Read Unit := do
  let s ← get
  DataInput.rewindCursor (s.pos - r.startPosition)

/-- The part of the loop of `getPreservedData` that keeps the bytes of one field: from its
position to the position of the next field, or to the end of the data. -/
def preserveField (i : Nat) : Read (List Byte) := do
  let s ← get
  let nFieldPos? := if i + 1 = r.pdxType.pdxFieldTypes.length then some r.serializedLength
    else r.getFieldPosition s.buffer (i + 1)
  match r.getFieldPosition s.buffer i, nFieldPos? with
  | some pos, some nFieldPos => do
    r.resettoPdxHead
    DataInput.advanceCursor pos
    let bytes ← times (nFieldPos - pos).toNat DataInput.read
    r.resettoPdxHead
    return bytes
  | _, _ => throw .fault

/-- The loop of `getPreservedData`, from field `i` on. -/
def preserveFields (r : PdxLocalReader) : Nat → List RemoteToLocal → Read (List (List Byte))
  | _, [] => return []
  | i, .present :: map => r.preserveFields (i + 1) map
  | i, _ :: map => do
    let bytes ← r.preserveField i
    let rest ← r.preserveFields (i + 1) map
    return bytes :: rest

/-- The flag is `PdxTypeRegistry::getPdxIgnoreUnreadFields`. The map is not
null, since a local type is known here. -/
def getPreservedData (pdxIgnoreUnreadFields : Bool) : Read (Option (List (List Byte))) :=
  if r.pdxType.numberOfFieldsExtra > 0 ∧ pdxIgnoreUnreadFields = false then do
    let data ← r.preserveFields 0 (r.pdxType.remoteToLocalFieldMap.getD [])
    return if r.isDataNeedToPreserve then some data else none
  else return none

/-! ### Reads at the cursor -/

variable (fieldName : Option String)

def checkEmptyFieldName : Read Unit :=
  match fieldName with
  | none => throw (.illegalState "Field name is null")
  | some _ => return ()

/-- The reads that only forward to the input. -/
def checked {α : Type} (read : Read α) : Read α := do
  checkEmptyFieldName fieldName
  read

def readChar : Read Byte := checked fieldName do
  let value ← DataInput.readInt16
  return value.setWidth 8

def readWideChar : Read WChar := checked fieldName do
  let value ← DataInput.readInt16
  return value.setWidth 32

def readBoolean : Read Bool := checked fieldName DataInput.readBoolean

def readByte : Read Byte := checked fieldName DataInput.read

def readShort : Read (BitVec 16) :=
  checked fieldName DataInput.readSignedInt16

def readInt : Read (BitVec 32) :=
  checked fieldName DataInput.readSignedInt32

def readLong : Read (BitVec 64) :=
  checked fieldName DataInput.readSignedInt64

def readFloat : Read (BitVec 32) :=
  checked fieldName DataInput.readFloat

def readDouble : Read (BitVec 64) :=
  checked fieldName DataInput.readDouble

def readString : Read (Option (List Byte)) :=
  checked fieldName DataInput.readString

def readWideString : Read (Option (List WChar)) :=
  checked fieldName DataInput.readWideString

/-- `DataInput::readObject`, with `SerializationRegistry::deserialize`: the type id `NullObj` stands
for a null pointer. -/
def deserialize {Obj : Type} (others : Byte → Read Obj) : Read (Option Obj) := do
  let typeId ← DataInput.read
  if typeId = 41 then return none
  else do
    let obj ← others typeId
    return some obj

def readObject {Obj : Type} (others : Byte → Read Obj) (fieldName : Option String) :
    Read (Option Obj) :=
  checked fieldName (deserialize others)

def readCharArray : Read (Option (List Byte) × BitVec 32) :=
  checked fieldName DataInput.readCharArray

def readWideCharArray : Read (Option (List WChar) × BitVec 32) :=
  checked fieldName DataInput.readWideCharArray

def readBooleanArray : Read (Option (List Bool) × BitVec 32) :=
  checked fieldName DataInput.readBooleanArray

def readByteArray : Read (Option (List Byte) × BitVec 32) :=
  checked fieldName DataInput.readByteArray

def readShortArray : Read (Option (List (BitVec 16)) × BitVec 32) :=
  checked fieldName DataInput.readShortArray

def readIntArray : Read (Option (List (BitVec 32)) × BitVec 32) :=
  checked fieldName DataInput.readIntArray

def readLongArray : Read (Option (List (BitVec 64)) × BitVec 32) :=
  checked fieldName DataInput.readLongArray

def readFloatArray : Read (Option (List (BitVec 32)) × BitVec 32) :=
  checked fieldName DataInput.readFloatArray

def readDoubleArray : Read (Option (List (BitVec 64)) × BitVec 32) :=
  checked fieldName DataInput.readDoubleArray

def readStringArray : Read (Option (List (Option (List Byte))) × BitVec 32) :=
  checked fieldName DataInput.readStringArray

def readWideStringArray : Read (Option (List (Option (List WChar))) × BitVec 32) :=
  checked fieldName DataInput.readWideStringArray

/-- `CacheableObjectArray::fromData`. The name of the element class is passed over. -/
def objectArrayFromData {Obj : Type} (others : Byte → Read Obj) : Read (List (Option Obj)) := do
  let len ← DataInput.readArrayLen
  if 0 ≤ len.toInt then do
    let _header ← DataInput.read
    let _header ← DataInput.read
    let classLen ← DataInput.readInt16
    DataInput.advanceCursor classLen.toNat
    times len.toNat (deserialize others)
  else return []

/-- An array without elements is a null pointer. -/
def readObjectArray {Obj : Type} (others : Byte → Read Obj) (fieldName : Option String) :
    Read (Option (List (Option Obj))) := checked fieldName do
  let coa ← objectArrayFromData others
  return if coa.length = 0 then none else some coa

def readArrayOfByteArrays : Read (Option (List (Option (List Byte) × BitVec 32)) × BitVec 32) :=
  checked fieldName DataInput.readArrayOfByteArrays

/-- A date with the number of milliseconds that is read. -/
def readDate : Read (Option (BitVec 64)) := checked fieldName do
  let timevalue ← DataInput.readSignedInt64
  return some timevalue

end PdxLocalReader

end GeodeNative.Pdx

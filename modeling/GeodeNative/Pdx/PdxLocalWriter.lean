import GeodeNative.Pdx.PdxType
import GeodeNative.Serialization.DataOutput

/-!
# Writing a PDX stream

The model of `PdxLocalWriter` (`PdxLocalWriter.cpp`). The writer leaves room for the header, takes
the fields in the order of the type, and notes where each variable length field starts. At the
end it fills in the header and appends the offset table: the noted offsets from the last one to
the second one, with 1, 2 or 4 bytes each.

A field is written either by the write for its type or as bytes that are there already. How an
object of the application is written is a parameter, `Objects`.
-/

set_option autoImplicit false

namespace GeodeNative.Pdx

open Lib Serialization

/-! ### What the writer knows of objects -/

namespace GeodeTypeIds

/-- `NullObj`. -/
def nullObj : Byte := 41

/-- `CacheableString`. -/
def cacheableString : Byte := 42

/-- `Class`, of `GeodeTypeIdsImpl`. -/
def classId : Byte := 43

/-- `CacheableObjectArray`. -/
def cacheableObjectArray : Byte := 52

/-- `CacheableNullString`. -/
def cacheableNullString : Byte := 69

/-- `CacheableASCIIString`. -/
def cacheableASCIIString : Byte := 87

/-- `CacheableStringHuge`. -/
def cacheableStringHuge : Byte := 89

/-- `CacheableEnum`. -/
def cacheableEnum : Byte := 94

end GeodeTypeIds

/-- What `writeObject` tells apart: an enum with the number that the server has for it, an array
of objects, and all the rest. A null pointer is `none`. -/
inductive ObjectKind (Obj : Type) where
  | enumeration (enumVal : BitVec 32)
  | objectArray (elements : List (Option Obj))
  | other

/-- The objects of an application, as far as they are written. -/
structure Objects (Obj : Type) where
  kind : Obj → ObjectKind Obj
  /-- What `DataOutput::writeObject` appends for the object. -/
  bytes : Obj → List Byte
  /-- `getClassName`, for an object that is `PdxSerializable`. -/
  className : Obj → Option (List Byte)

section
variable {Obj : Type} (objects : Objects Obj)

/-- `DataOutput::writeObject`. -/
def writeObject (o : DataOutput) : Option Obj → DataOutput
  | none => o.write GeodeTypeIds.nullObj
  | some v => (objects.bytes v).foldl DataOutput.write o

/-- The head of an array of objects, up to the name of the element class. -/
def writeArrayHead (o : DataOutput) (size : Nat) (className : List Byte) : DataOutput :=
  let o := (o.writeArrayLen (BitVec.ofNat 32 size)).write GeodeTypeIds.classId
  (o.write GeodeTypeIds.cacheableASCIIString).writeASCII (some className) 0

/-- `CacheableObjectArray::toData`. -/
def objectArrayToData (o : DataOutput) (elements : List (Option Obj)) : DataOutput :=
  let javaLangObject := "java.lang.Object".toList.map fun c => BitVec.ofNat 8 c.toNat
  elements.foldl (writeObject objects) (writeArrayHead o elements.length javaLangObject)

end

/-- A `PdxLocalWriter`. `startPositionOffset` is where its header starts in the output. -/
structure PdxLocalWriter where
  dataOutput : DataOutput
  pdxType : PdxType
  startPositionOffset : Nat
  offsets : List Int

namespace PdxLocalWriter

/-- The constructor, with `initialize`. -/
def new (output : DataOutput) (pdxType : PdxType) : PdxLocalWriter where
  dataOutput := output.advanceCursor (BitVec.ofNat 32 PdxHelper.pdxHeader)
  pdxType := pdxType
  startPositionOffset := output.bytes.length
  offsets := []

variable (w : PdxLocalWriter)

/-- The number of bytes written after the header. -/
def dataLen : Int :=
  (w.dataOutput.bytes.length : Int) - w.startPositionOffset - PdxHelper.pdxHeader

def addOffset : PdxLocalWriter :=
  { w with offsets := w.offsets ++ [w.dataLen] }

/-- Something is written to the output. -/
def emit (write : DataOutput → DataOutput) : PdxLocalWriter :=
  { w with dataOutput := write w.dataOutput }

/-- `writeByte` for each byte. -/
def writeRawBytes (bytes : List Byte) : PdxLocalWriter :=
  w.emit fun o => bytes.foldl DataOutput.write o

/-- Writes a field with the given contents: the offset comes first when the field has a variable
length. -/
def writeFieldBytes (f : PdxFieldType) (bytes : List Byte) : PdxLocalWriter :=
  (if f.isVariableLengthType then w.addOffset else w).writeRawBytes bytes

/-- Writes the fields one after the other. -/
def writeFields (fields : List (PdxFieldType × List Byte)) : PdxLocalWriter :=
  fields.foldl (fun w p => w.writeFieldBytes p.1 p.2) w

/-! ### Typed writes

The names of the fields do not matter to this writer, and are left out. An array comes as a pointer
and a length; the pointer stands for the elements in memory, and may be null. -/

/-- The character is signed. -/
def writeChar (value : Byte) : PdxLocalWriter :=
  w.emit fun o => o.writeChar (value.signExtend 16)

def writeWideChar (value : WChar) : PdxLocalWriter :=
  w.emit fun o => o.writeChar (value.setWidth 16)

def writeBoolean (value : Bool) : PdxLocalWriter :=
  w.emit fun o => o.writeBoolean value

def writeByte (value : Byte) : PdxLocalWriter := w.emit fun o => o.write value

def writeShort (value : BitVec 16) : PdxLocalWriter :=
  w.emit fun o => o.writeInt16 value

def writeInt (value : BitVec 32) : PdxLocalWriter :=
  w.emit fun o => o.writeInt32 value

def writeLong (value : BitVec 64) : PdxLocalWriter :=
  w.emit fun o => o.writeInt64 value

def writeFloat (value : BitVec 32) : PdxLocalWriter :=
  w.emit fun o => o.writeFloat value

def writeDouble (value : BitVec 64) : PdxLocalWriter :=
  w.emit fun o => o.writeDouble value

/-- A date is its number of milliseconds, and null is -1. -/
def writeDate (date : Option (BitVec 64)) : PdxLocalWriter :=
  w.emit fun o => o.writeInt64 (date.getD (-1))

/-- `writeStringwithoutOffset`, on the output. -/
def writeStringwithoutOffset (o : DataOutput) (value : Option (List Byte)) : DataOutput :=
  match value with
  | none => o.write GeodeTypeIds.cacheableNullString
  | some chars =>
    if DataOutput.getEncodedLength chars 0 > 0xffff then
      (o.write GeodeTypeIds.cacheableStringHuge).writeUTFHuge value 0
    else (o.write GeodeTypeIds.cacheableString).writeUTF value 0

/-- `writeWideStringwithoutOffset`, on the output. -/
def writeWideStringwithoutOffset (o : DataOutput) (value : Option (List WChar)) : DataOutput :=
  match value with
  | none => o.write GeodeTypeIds.cacheableNullString
  | some chars =>
    if DataOutput.getWideEncodedLength chars 0 > 0xffff then
      (o.write GeodeTypeIds.cacheableStringHuge).writeWideUTFHuge value 0
    else (o.write GeodeTypeIds.cacheableString).writeWideUTF value 0

def writeString (value : Option (List Byte)) : PdxLocalWriter :=
  w.addOffset.emit fun o => writeStringwithoutOffset o value

def writeWideString (value : Option (List WChar)) : PdxLocalWriter :=
  w.addOffset.emit fun o => writeWideStringwithoutOffset o value

/-- The writes of arrays: the length and the elements, or 0xFF for null. -/
def writeArray {α : Type} (write : DataOutput → α → DataOutput) (array : Option (List α))
    (length : Nat) : PdxLocalWriter :=
  w.addOffset.emit fun o =>
    match array with
    | none => o.write 0xFF
    | some elements => (elements.take length).foldl write (o.writeArrayLen (BitVec.ofNat 32 length))

def writeBooleanArray : Option (List Bool) → Nat → PdxLocalWriter :=
  w.writeArray DataOutput.writeBoolean

def writeCharArray : Option (List Byte) → Nat → PdxLocalWriter :=
  w.writeArray fun o value => o.writeInt16 (value.signExtend 16)

def writeWideCharArray : Option (List WChar) → Nat → PdxLocalWriter :=
  w.writeArray fun o value => o.writeInt16 (value.setWidth 16)

def writeByteArray : Option (List Byte) → Nat → PdxLocalWriter :=
  w.writeArray DataOutput.write

def writeShortArray : Option (List (BitVec 16)) → Nat → PdxLocalWriter :=
  w.writeArray DataOutput.writeInt16

def writeIntArray : Option (List (BitVec 32)) → Nat → PdxLocalWriter :=
  w.writeArray DataOutput.writeInt32

def writeLongArray : Option (List (BitVec 64)) → Nat → PdxLocalWriter :=
  w.writeArray DataOutput.writeInt64

def writeFloatArray : Option (List (BitVec 32)) → Nat → PdxLocalWriter :=
  w.writeArray DataOutput.writeFloat

def writeDoubleArray : Option (List (BitVec 64)) → Nat → PdxLocalWriter :=
  w.writeArray DataOutput.writeDouble

def writeStringArray : Option (List (Option (List Byte))) → Nat →
    PdxLocalWriter :=
  w.writeArray writeStringwithoutOffset

def writeWideStringArray : Option (List (Option (List WChar))) → Nat →
    PdxLocalWriter :=
  w.writeArray writeWideStringwithoutOffset

/-- Each element comes with its own length. -/
def writeArrayOfByteArrays : Option (List (Option (List Byte) × Nat)) → Nat →
    PdxLocalWriter :=
  w.writeArray fun o element => o.writeBytes element.1 (BitVec.ofNat 32 element.2)

def writeObjectArray {Obj : Type} (objects : Objects Obj) (w : PdxLocalWriter)
    (array : Option (List (Option Obj))) : PdxLocalWriter :=
  w.addOffset.emit fun o =>
    match array with
    | none => o.write 0xFF
    | some elements => objectArrayToData objects o elements

/-- There is no result where the source dereferences a null pointer or the end of
an array: it takes the class name of the first element of an array for granted. -/
def writeObject {Obj : Type} (objects : Objects Obj) (w : PdxLocalWriter) (value : Option Obj) :
    Option PdxLocalWriter :=
  match value.map objects.kind with
  | some (.enumeration enumVal) =>
    some (w.addOffset.emit fun o =>
      ((o.write GeodeTypeIds.cacheableEnum).write ((enumVal >>> 24).setWidth 8)).writeArrayLen
        (enumVal &&& 0xFFFFFF))
  | some (.objectArray elements) =>
    (elements.head?.join.bind objects.className).map fun className =>
      w.addOffset.emit fun o =>
        elements.foldl (Pdx.writeObject objects)
          (writeArrayHead (o.write GeodeTypeIds.cacheableObjectArray) elements.length className)
  | some .other | none => some (w.addOffset.emit fun o => Pdx.writeObject objects o value)

/-! ### The end of the stream -/

def calculateLenWithOffsets : Int :=
  let totalOffsets :=
    if w.pdxType.numberOfVarLenFields > 0 then w.pdxType.numberOfVarLenFields - 1 else 0
  let totalLen := w.dataLen + totalOffsets
  if totalLen ≤ 0xff then totalLen
  else if totalLen + totalOffsets ≤ 0xffff then totalLen + totalOffsets
  else totalLen + totalOffsets * 3

/-- The first offset is left out. -/
def writeOffsets (len : Int) : PdxLocalWriter :=
  let table := (w.offsets.drop 1).reverse
  if len ≤ 0xff then
    w.emit fun o => table.foldl (fun o offset => o.write (BitVec.ofInt 8 offset)) o
  else if len ≤ 0xffff then
    w.emit fun o => table.foldl (fun o offset => o.writeInt16 (BitVec.ofInt 16 offset)) o
  else w.emit fun o => table.foldl (fun o offset => o.writeInt32 (BitVec.ofInt 32 offset)) o

def writePdxHeader : PdxLocalWriter :=
  let len := w.calculateLenWithOffsets
  let typeId := w.pdxType.geodeTypeId
  (w.emit fun o =>
    (o.overwrite w.startPositionOffset (bigEndian 4 (BitVec.ofInt 32 len))).overwrite
      (w.startPositionOffset + 4) (bigEndian 4 (BitVec.ofInt 32 typeId))).writeOffsets len

def endObjectWriting : PdxLocalWriter := w.writePdxHeader

/-- The bytes after the header, as many as the header says. -/
def getPdxStream : Option (List Byte) :=
  (PdxHelper.readInt32 w.dataOutput.bytes w.startPositionOffset).bind fun len =>
    PdxHelper.bytesAt w.dataOutput.bytes (w.startPositionOffset + PdxHelper.pdxHeader) len.toNat

end PdxLocalWriter

end GeodeNative.Pdx

import GeodeNative.Pdx.PdxLocalReader
import GeodeNative.Pdx.PdxLocalWriter

/-!
# A serialised object that can be changed

The model of `PdxInstanceImpl` (`PdxInstanceImpl.cpp`), as far as it changes fields. An instance has
its type, its stream, and the values that were set since the stream was written. `toData` writes
the stream anew: a field with a new value through the write for its type, and every other field as
the bytes that it has in the old stream.

A call ends without a result as a read does: with an exception, or where the source accesses memory
that is not there. The type of an instance is looked up in the registry by its number; here it is
part of the instance.
-/

set_option autoImplicit false

namespace GeodeNative.Pdx

open Lib Serialization

/-! ### Values -/

/-- A `CacheableString`. -/
inductive CacheableString where
  | narrow (value : List Byte)
  | wide (value : List WChar)
  deriving DecidableEq

namespace CacheableString

/-- `create(const char*)`. -/
def create (value : Option (List Byte)) : Option CacheableString := value.map narrow

/-- `create(const wchar_t*)`. -/
def createWide (value : Option (List WChar)) : Option CacheableString := value.map wide

/-- `asChar`, behind a pointer. -/
def asChar : Option CacheableString → Option (List Byte)
  | some (narrow value) => some value
  | _ => none

/-- `asWChar`, behind a pointer. -/
def asWChar : Option CacheableString → Option (List WChar)
  | some (wide value) => some value
  | _ => none

end CacheableString

/-- A `CacheableArrayType`. -/
structure CacheableArray (α : Type) where
  value : Option (List α)
  length : Nat
  deriving DecidableEq

/-- `create`, which copies the array. No array is allocated for the length 0. There is no result
where the memory ends before the length does. -/
def CacheableArray.create {α : Type} (value : Option (List α)) (length : Nat) :
    Except ReadError (Option (CacheableArray α)) :=
  match value with
  | none => .ok none
  | some memory =>
    if length = 0 then .ok (some ⟨none, 0⟩)
    else if memory.length < length then .error .fault
    else .ok (some ⟨some (memory.take length), length⟩)

/-- The values that wait to be written, by their classes. `object` is any other object. -/
inductive Cacheable (Obj : Type) where
  | boolean (value : Bool)
  | byte (value : Byte)
  | int16 (value : BitVec 16)
  | int32 (value : BitVec 32)
  | int64 (value : BitVec 64)
  | float (value : BitVec 32)
  | double (value : BitVec 64)
  | wideChar (value : WChar)
  | date (timevalue : BitVec 64)
  | string (value : CacheableString)
  | booleanArray (array : CacheableArray Bool)
  | charArray (array : CacheableArray WChar)
  | bytes (array : CacheableArray Byte)
  | int16Array (array : CacheableArray (BitVec 16))
  | int32Array (array : CacheableArray (BitVec 32))
  | int64Array (array : CacheableArray (BitVec 64))
  | floatArray (array : CacheableArray (BitVec 32))
  | doubleArray (array : CacheableArray (BitVec 64))
  | stringArray (elements : List (Option CacheableString))
  | vectorOfBytes (elements : List (Option (CacheableArray Byte)))
  | objectArray (elements : List (Option Obj))
  | object (value : Obj)

/-- What comes from outside: the objects of the application, a value of this library as one of
them, and `mbstowcs` of the current locale, as what it leaves in a buffer for the whole string and
its terminator. -/
structure Environment (Obj : Type) extends Objects Obj where
  upcast : Cacheable Obj → Obj
  mbstowcs : List Byte → List WChar

/-- A value as a `CacheablePtr`. -/
def Cacheable.asObject {Obj : Type} (env : Environment Obj) : Cacheable Obj → Obj
  | object value => value
  | value => env.upcast value

/-- The value arguments of the `setField` overloads. An array comes with its length. -/
inductive FieldValue (Obj : Type) where
  | boolean (value : Bool)
  | byte (value : Byte)
  | short (value : BitVec 16)
  | int (value : BitVec 32)
  | long (value : BitVec 64)
  | float (value : BitVec 32)
  | double (value : BitVec 64)
  | wideChar (value : WChar)
  | char (value : Byte)
  | date (value : Option (BitVec 64))
  | object (value : Option Obj)
  | objectArray (value : Option (List (Option Obj)))
  | booleanArray (value : Option (List Bool)) (length : Nat)
  | byteArray (value : Option (List Byte)) (length : Nat)
  | shortArray (value : Option (List (BitVec 16))) (length : Nat)
  | intArray (value : Option (List (BitVec 32))) (length : Nat)
  | longArray (value : Option (List (BitVec 64))) (length : Nat)
  | floatArray (value : Option (List (BitVec 32))) (length : Nat)
  | doubleArray (value : Option (List (BitVec 64))) (length : Nat)
  | wideCharArray (value : Option (List WChar)) (length : Nat)
  | charArray (value : Option (List Byte)) (length : Nat)
  | wideString (value : Option (List WChar))
  | string (value : Option (List Byte))
  | arrayOfByteArrays (value : Option (List (Option (List Byte) × Nat))) (arrayLength : Nat)
  | wideStringArray (value : Option (List (Option (List WChar)))) (length : Nat)
  | stringArray (value : Option (List (Option (List Byte)))) (length : Nat)

namespace FieldValue

variable {Obj : Type}

/-- The type that the overload asks of the field. -/
def fieldType : FieldValue Obj → PdxFieldTypes
  | boolean _ => .boolean
  | byte _ => .byte
  | short _ => .short
  | int _ => .int
  | long _ => .long
  | float _ => .float
  | double _ => .double
  | wideChar _ | char _ => .char
  | date _ => .date
  | object _ => .object
  | objectArray _ => .objectArray
  | booleanArray _ _ => .booleanArray
  | byteArray _ _ => .byteArray
  | shortArray _ _ => .shortArray
  | intArray _ _ => .intArray
  | longArray _ _ => .longArray
  | floatArray _ _ => .floatArray
  | doubleArray _ _ => .doubleArray
  | wideCharArray _ _ | charArray _ _ => .charArray
  | wideString _ | string _ => .string
  | arrayOfByteArrays _ _ => .arrayOfByteArrays
  | wideStringArray _ _ | stringArray _ _ => .stringArray

/-- The elements that a loop over an array of pointers visits. -/
def visitElements {α : Type} (value : Option (List α)) (length : Nat) : Except ReadError (List α) :=
  match value with
  | none => if length = 0 then .ok [] else .error .fault
  | some memory => if memory.length < length then .error .fault else .ok (memory.take length)

/-- What the overload enters in the map of new values. An array of strings without elements is not
entered at all: the outer `none`. The inner `none` is the null pointer. -/
def toCacheable (env : Environment Obj) :
    FieldValue Obj → Except ReadError (Option (Option (Cacheable Obj)))
  | boolean value => .ok (some (some (.boolean value)))
  | byte value => .ok (some (some (.byte value)))
  | short value => .ok (some (some (.int16 value)))
  | int value => .ok (some (some (.int32 value)))
  | long value => .ok (some (some (.int64 value)))
  | float value => .ok (some (some (.float value)))
  | double value => .ok (some (some (.double value)))
  | wideChar value => .ok (some (some (.wideChar value)))
  | char value => .ok (some (some (.wideChar (value.signExtend 32))))
  | date value => .ok (some (value.map .date))
  | object value => .ok (some (value.map .object))
  | objectArray value => .ok (some (value.map .objectArray))
  | booleanArray value length => do
    return some ((← CacheableArray.create value length).map .booleanArray)
  | byteArray value length => do
    return some ((← CacheableArray.create value length).map .bytes)
  | shortArray value length => do
    return some ((← CacheableArray.create value length).map .int16Array)
  | intArray value length => do
    return some ((← CacheableArray.create value length).map .int32Array)
  | longArray value length => do
    return some ((← CacheableArray.create value length).map .int64Array)
  | floatArray value length => do
    return some ((← CacheableArray.create value length).map .floatArray)
  | doubleArray value length => do
    return some ((← CacheableArray.create value length).map .doubleArray)
  | wideCharArray value length => do
    return some ((← CacheableArray.create value length).map .charArray)
  | charArray none _ => .error .fault
  | charArray (some value) length => do
    -- the buffer is as long as the string, whatever `length` is
    return some ((← CacheableArray.create (some (env.mbstowcs value)) length).map .charArray)
  | wideString value => .ok (some ((CacheableString.createWide value).map .string))
  | string value => .ok (some ((CacheableString.create value).map .string))
  | arrayOfByteArrays value arrayLength => do
    let elements ← visitElements value arrayLength
    let elements ← elements.mapM fun element => CacheableArray.create element.1 element.2
    return some (some (.vectorOfBytes elements))
  | wideStringArray value length =>
    if length = 0 then .ok none
    else do
      let elements ← visitElements value length
      return some (some (.stringArray (elements.map CacheableString.createWide)))
  | stringArray value length =>
    if length = 0 then .ok none
    else do
      let elements ← visitElements value length
      return some (some (.stringArray (elements.map CacheableString.create)))

end FieldValue

/-! ### The instance -/

/-- A `PdxInstanceImpl`. The buffer of an instance that was never written is null. -/
structure PdxInstanceImpl (Obj : Type) where
  pdxType : PdxType
  buffer : Option (List Byte)
  updatedFields : AList fun _ : String => Option (Cacheable Obj)

namespace PdxInstanceImpl

variable {Obj : Type} (env : Environment Obj)

/-- The text of the exception, from `PdxFieldType::toString`. The buffers of the source have room
for 1023 and for 255 characters. -/
def typeNotMatched (fieldName : String) (pft : PdxFieldType) : String :=
  let field := " PdxFieldName=" ++ pft.fieldName ++ " TypeId=" ++ toString pft.typeId.toNat ++
    " VarLenFieldIdx=" ++ toString pft.varLenFieldIdx ++ " sequenceid=" ++
    toString pft.sequenceId ++ "\n"
  String.ofList (("PdxInstance doesn't has field " ++ fieldName ++
    " or type of field not matched " ++ String.ofList (field.toList.take 1023) ++
    " ").toList.take 255)

variable (inst : PdxInstanceImpl Obj)

/-- The `setField` overloads. A field that the type does not have is entered too. -/
def setField (fieldName : String) (value : FieldValue Obj) :
    Except ReadError (PdxInstanceImpl Obj) := do
  match inst.pdxType.getPdxField fieldName with
  | some pft =>
    if PdxFieldTypes.ofTypeId pft.typeId ≠ some value.fieldType then
      throw (.illegalState (typeNotMatched fieldName pft))
  | none => pure ()
  match ← value.toCacheable env with
  | some cacheable =>
    return { inst with updatedFields := inst.updatedFields.insert fieldName cacheable }
  | none => return inst

/-! ### Positions -/

def getSerializedLength (pt : PdxType) (buffer : List Byte) : Int :=
  let pdxSerializedLength : Int := buffer.length
  if pt.numberOfVarLenFields > 0 then
    pdxSerializedLength -
      (pt.numberOfVarLenFields - 1) * PdxLocalReader.offsetSizeOf pdxSerializedLength
  else pdxSerializedLength

def getOffset (pt : PdxType) (buffer : List Byte) (sequenceId : Nat) : Option Int :=
  let serializedLength := getSerializedLength pt buffer
  pt.getFieldPosition sequenceId buffer serializedLength
    (PdxLocalReader.offsetSizeOf buffer.length) serializedLength

def getNextFieldPosition (pt : PdxType) (buffer : List Byte) (fieldId : Nat) : Option Int :=
  if fieldId = pt.pdxFieldTypes.length then some (getSerializedLength pt buffer)
  else getOffset pt buffer fieldId

/-- The bytes from the position of a field up to the position of the next one. -/
def fieldBytes (pt : PdxType) (buffer : List Byte) (sequenceId : Nat) : Option (List Byte) := do
  let pos ← getOffset pt buffer sequenceId
  let nextpos ← getNextFieldPosition pt buffer (sequenceId + 1)
  PdxHelper.bytesAt buffer pos (nextpos - pos).toNat

/-! ### Writing -/

/-- A value of another class than the type asks for is passed over without a write. -/
def writeField (w : PdxLocalWriter) (typeId : BitVec 8) (value : Option (Cacheable Obj)) :
    Option PdxLocalWriter :=
  match PdxFieldTypes.ofTypeId typeId, value with
  | some .int, some (.int32 value) => some (w.writeInt value)
  | some .string, some (.string (.wide value)) => some (w.writeWideString (some value))
  | some .string, some (.string (.narrow value)) => some (w.writeString (some value))
  | some .boolean, some (.boolean value) => some (w.writeBoolean value)
  | some .float, some (.float value) => some (w.writeFloat value)
  | some .double, some (.double value) => some (w.writeDouble value)
  | some .char, some (.wideChar value) => some (w.writeChar (value.setWidth 8))
  | some .byte, some (.byte value) => some (w.writeByte value)
  | some .short, some (.int16 value) => some (w.writeShort value)
  | some .long, some (.int64 value) => some (w.writeLong value)
  | some .byteArray, some (.bytes a) => some (w.writeByteArray a.value a.length)
  | some .doubleArray, some (.doubleArray a) => some (w.writeDoubleArray a.value a.length)
  | some .floatArray, some (.floatArray a) => some (w.writeFloatArray a.value a.length)
  | some .shortArray, some (.int16Array a) => some (w.writeShortArray a.value a.length)
  | some .intArray, some (.int32Array a) => some (w.writeIntArray a.value a.length)
  | some .longArray, some (.int64Array a) => some (w.writeLongArray a.value a.length)
  | some .booleanArray, some (.booleanArray a) => some (w.writeBooleanArray a.value a.length)
  | some .charArray, some (.charArray a) => some (w.writeWideCharArray a.value a.length)
  | some .stringArray, some (.stringArray elements) =>
    -- the first element decides, and every element is dereferenced
    match elements.head? with
    | some (some (.narrow _)) =>
      (elements.mapM CacheableString.asChar).map fun strings =>
        w.writeStringArray (some (strings.map some)) elements.length
    | some (some (.wide _)) =>
      (elements.mapM CacheableString.asWChar).map fun strings =>
        w.writeWideStringArray (some (strings.map some)) elements.length
    | _ => none
  | some .date, some (.date timevalue) => some (w.writeDate (some timevalue))
  | some .arrayOfByteArrays, some (.vectorOfBytes elements) =>
    -- the entries for null elements are not initialised
    (elements.mapM id).map fun arrays =>
      w.writeArrayOfByteArrays (some (arrays.map fun a => (a.value, a.length))) elements.length
  | some .objectArray, some (.objectArray elements) =>
    some (w.writeObjectArray env.toObjects (some elements))
  | some .object, value | none, value => w.writeObject env.toObjects (value.map (·.asObject env))
  | some _, _ => some w

/-- The bytes of the old stream between two positions. -/
def writeUnmodifieldField (w : PdxLocalWriter) (buffer : List Byte) (startPos endPos : Int) :
    Except ReadError PdxLocalWriter :=
  match times (endPos - startPos).toNat DataInput.read ⟨buffer, startPos⟩ with
  | .ok bytes _ => .ok (w.writeRawBytes bytes)
  | .error e _ => .error e

/-- A result that is missing where the source accesses memory that is not there. -/
def orFault {α : Type} : Option α → Except ReadError α
  | some a => .ok a
  | none => .error .fault

/-- The loop of `toData` over an old stream, from field `i` at `position` on. -/
def toDataFrom (inst : PdxInstanceImpl Obj) (buffer : List Byte) :
    Nat → Int → List PdxFieldType → PdxLocalWriter → Except ReadError PdxLocalWriter
  | _, _, [], w => .ok w
  | i, position, currPf :: rest, w =>
    match (inst.updatedFields.lookup currPf.fieldName).join with
    | some value => do
      let w ← orFault (writeField env w currPf.typeId (some value))
      let position ← orFault (getNextFieldPosition inst.pdxType buffer (i + 1))
      toDataFrom inst buffer (i + 1) position rest w
    | none => do
      let w := if currPf.isVariableLengthType then w.addOffset else w
      let nextFieldPosition ← orFault (getNextFieldPosition inst.pdxType buffer (i + 1))
      let w ← writeUnmodifieldField w buffer position nextFieldPosition
      toDataFrom inst buffer (i + 1) nextFieldPosition rest w

/-- The loop of `toData` without an old stream. -/
def toDataNew (fields : List PdxFieldType) (w : PdxLocalWriter) : Except ReadError PdxLocalWriter :=
  fields.foldlM (fun w currPf =>
    orFault (writeField env w currPf.typeId (inst.updatedFields.lookup currPf.fieldName).join)) w

/-- The map of new values is empty afterwards. -/
def toData (w : PdxLocalWriter) : Except ReadError (PdxLocalWriter × PdxInstanceImpl Obj) := do
  let w ← match inst.buffer with
    | some buffer => inst.toDataFrom env buffer 0 0 inst.pdxType.pdxFieldTypes w
    | none => inst.toDataNew env inst.pdxType.pdxFieldTypes w
  return (w, { inst with updatedFields := ∅ })

def updatePdxStream (newPdxStream : List Byte) : PdxInstanceImpl Obj :=
  { inst with buffer := some newPdxStream }

/-- `PdxHelper::serializePdx`, for an instance whose type has its number. -/
def serializePdx (output : DataOutput) : Except ReadError (DataOutput × PdxInstanceImpl Obj) := do
  let (plw, inst) ← inst.toData env (PdxLocalWriter.new output inst.pdxType)
  let plw := plw.endObjectWriting
  let pdxStream ← orFault plw.getPdxStream
  return (plw.dataOutput, inst.updatePdxStream pdxStream)

end PdxInstanceImpl

end GeodeNative.Pdx

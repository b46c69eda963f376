import GeodeNative.Pdx.PdxLocalReader

/-!
# Reading the stream of another version of a type

The model of `PdxRemoteReader` (`PdxRemoteReader.cpp`). The application reads the fields of its own
type, one call after the other. For each call the reader takes the next entry of the
local-to-remote map: -2 for a field of the common start of the two types, which is read at the
cursor; -1 for a field that the remote type lacks; and else the number of the field in the remote
type, which is read at its position.

The functions of the source differ in the read of `PdxLocalReader`, in the value for an absent
field, and in whether they test the position for -1. `PdxRead` has the calls as data, and
`PdxValue` what they return. The pointer and the length of an array are one value: the source
leaves the length of an absent array as the caller had it.
-/

set_option autoImplicit false

namespace GeodeNative.Pdx

open Lib Serialization

/-- A `PdxRemoteReader`. -/
structure PdxRemoteReader extends PdxLocalReader where
  currentIndex : Nat

namespace PdxRemoteReader

/-- The constructor. -/
def new (dataInput : DataInput) (remoteType : PdxType) (pdxLen : Int) : PdxRemoteReader where
  toPdxLocalReader := PdxLocalReader.new dataInput remoteType pdxLen
  currentIndex := 0

/-- The `switch` of the reads. -/
def readChoice {α : Type} (r : PdxRemoteReader) (testPosition : Bool) (readLocal : Read α)
    (null : α) (choice : Int) : Read α :=
  if choice = -2 then readLocal
  else if choice = -1 then return null
  else do
    let s ← get
    match r.getFieldPosition s.buffer choice.toNat with
    | none => throw .fault
    | some position =>
      if testPosition ∧ position = -1 then return null
      else do
        r.resettoPdxHead
        DataInput.advanceCursor position
        let retVal ← readLocal
        r.resettoPdxHead
        return retVal

/-- The reads: the value, and the reader with the next index. -/
def readWith {α : Type} (r : PdxRemoteReader) (testPosition : Bool) (readLocal : Read α)
    (null : α) : Read (α × PdxRemoteReader) :=
  match (r.pdxType.localToRemoteFieldMap.getD [])[r.currentIndex]? with
  | none => throw .fault
  | some choice => do
    let value ← r.readChoice testPosition readLocal null choice
    return (value, { r with currentIndex := r.currentIndex + 1 })

section
variable (r : PdxRemoteReader) (fieldName : Option String)

def readWideChar : Read (WChar × PdxRemoteReader) :=
  r.readWith false (PdxLocalReader.readWideChar fieldName) 0

def readChar : Read (Byte × PdxRemoteReader) :=
  r.readWith false (PdxLocalReader.readChar fieldName) 0

def readBoolean : Read (Bool × PdxRemoteReader) :=
  r.readWith true (PdxLocalReader.readBoolean fieldName) false

def readByte : Read (Byte × PdxRemoteReader) :=
  r.readWith true (PdxLocalReader.readByte fieldName) 0

def readShort : Read (BitVec 16 × PdxRemoteReader) :=
  r.readWith true (PdxLocalReader.readShort fieldName) 0

def readInt : Read (BitVec 32 × PdxRemoteReader) :=
  r.readWith true (PdxLocalReader.readInt fieldName) 0

def readLong : Read (BitVec 64 × PdxRemoteReader) :=
  r.readWith true (PdxLocalReader.readLong fieldName) 0

def readFloat : Read (BitVec 32 × PdxRemoteReader) :=
  r.readWith true (PdxLocalReader.readFloat fieldName) 0

def readDouble : Read (BitVec 64 × PdxRemoteReader) :=
  r.readWith true (PdxLocalReader.readDouble fieldName) 0

/-- An absent string is empty. -/
def readString : Read (Option (List Byte) × PdxRemoteReader) :=
  r.readWith true (PdxLocalReader.readString fieldName) (some [])

/-- An absent string is empty. -/
def readWideString : Read (Option (List WChar) × PdxRemoteReader) :=
  r.readWith true (PdxLocalReader.readWideString fieldName) (some [])

def readObject {Obj : Type} (others : Byte → Read Obj) : Read (Option Obj × PdxRemoteReader) :=
  r.readWith true (PdxLocalReader.readObject others fieldName) none

def readObjectArray {Obj : Type} (others : Byte → Read Obj) :
    Read (Option (List (Option Obj)) × PdxRemoteReader) :=
  r.readWith false (PdxLocalReader.readObjectArray others fieldName) none

def readDate : Read (Option (BitVec 64) × PdxRemoteReader) :=
  r.readWith false (PdxLocalReader.readDate fieldName) none

variable (length : BitVec 32)

def readCharArray : Read ((Option (List Byte) × BitVec 32) × PdxRemoteReader) :=
  r.readWith false (PdxLocalReader.readCharArray fieldName) (none, length)

def readWideCharArray : Read ((Option (List WChar) × BitVec 32) × PdxRemoteReader) :=
  r.readWith false (PdxLocalReader.readWideCharArray fieldName) (none, length)

def readBooleanArray : Read ((Option (List Bool) × BitVec 32) × PdxRemoteReader) :=
  r.readWith false (PdxLocalReader.readBooleanArray fieldName) (none, length)

def readByteArray : Read ((Option (List Byte) × BitVec 32) × PdxRemoteReader) :=
  r.readWith true (PdxLocalReader.readByteArray fieldName) (none, length)

def readShortArray : Read ((Option (List (BitVec 16)) × BitVec 32) × PdxRemoteReader) :=
  r.readWith true (PdxLocalReader.readShortArray fieldName) (none, length)

def readIntArray : Read ((Option (List (BitVec 32)) × BitVec 32) × PdxRemoteReader) :=
  r.readWith true (PdxLocalReader.readIntArray fieldName) (none, length)

def readLongArray : Read ((Option (List (BitVec 64)) × BitVec 32) × PdxRemoteReader) :=
  r.readWith true (PdxLocalReader.readLongArray fieldName) (none, length)

def readFloatArray : Read ((Option (List (BitVec 32)) × BitVec 32) × PdxRemoteReader) :=
  r.readWith true (PdxLocalReader.readFloatArray fieldName) (none, length)

def readDoubleArray : Read ((Option (List (BitVec 64)) × BitVec 32) × PdxRemoteReader) :=
  r.readWith true (PdxLocalReader.readDoubleArray fieldName) (none, length)

def readStringArray : Read ((Option (List (Option (List Byte))) × BitVec 32) × PdxRemoteReader) :=
  r.readWith true (PdxLocalReader.readStringArray fieldName) (none, length)

def readWideStringArray :
    Read ((Option (List (Option (List WChar))) × BitVec 32) × PdxRemoteReader) :=
  r.readWith true (PdxLocalReader.readWideStringArray fieldName) (none, length)

/-- The lengths of the elements come with the elements. -/
def readArrayOfByteArrays :
    Read ((Option (List (Option (List Byte) × BitVec 32)) × BitVec 32) × PdxRemoteReader) :=
  r.readWith false (PdxLocalReader.readArrayOfByteArrays fieldName) (none, length)

end

end PdxRemoteReader

/-! ### Calls as data -/

/-- What a read returns. -/
inductive PdxValue (Obj : Type) where
  | char (value : Byte)
  | wideChar (value : WChar)
  | boolean (value : Bool)
  | byte (value : Byte)
  | short (value : BitVec 16)
  | int (value : BitVec 32)
  | long (value : BitVec 64)
  | float (value : BitVec 32)
  | double (value : BitVec 64)
  | date (value : Option (BitVec 64))
  | string (value : Option (List Byte))
  | wideString (value : Option (List WChar))
  | object (value : Option Obj)
  | objectArray (value : Option (List (Option Obj)))
  | charArray (value : Option (List Byte) × BitVec 32)
  | wideCharArray (value : Option (List WChar) × BitVec 32)
  | booleanArray (value : Option (List Bool) × BitVec 32)
  | byteArray (value : Option (List Byte) × BitVec 32)
  | shortArray (value : Option (List (BitVec 16)) × BitVec 32)
  | intArray (value : Option (List (BitVec 32)) × BitVec 32)
  | longArray (value : Option (List (BitVec 64)) × BitVec 32)
  | floatArray (value : Option (List (BitVec 32)) × BitVec 32)
  | doubleArray (value : Option (List (BitVec 64)) × BitVec 32)
  | stringArray (value : Option (List (Option (List Byte))) × BitVec 32)
  | wideStringArray (value : Option (List (Option (List WChar))) × BitVec 32)
  | arrayOfByteArrays (value : Option (List (Option (List Byte) × BitVec 32)) × BitVec 32)
  deriving DecidableEq

/-- A read. The reads of arrays are passed a variable for the length, with some value. -/
inductive PdxRead where
  | char | wideChar | boolean | byte | short | int | long | float | double | date | string
  | wideString | object | objectArray
  | charArray (length : BitVec 32)
  | wideCharArray (length : BitVec 32)
  | booleanArray (length : BitVec 32)
  | byteArray (length : BitVec 32)
  | shortArray (length : BitVec 32)
  | intArray (length : BitVec 32)
  | longArray (length : BitVec 32)
  | floatArray (length : BitVec 32)
  | doubleArray (length : BitVec 32)
  | stringArray (length : BitVec 32)
  | wideStringArray (length : BitVec 32)
  | arrayOfByteArrays (length : BitVec 32)
  deriving DecidableEq

namespace PdxRead

/-- The type of the fields that the read is for. -/
def fieldType : PdxRead → PdxFieldTypes
  | char | wideChar => .char
  | boolean => .boolean
  | byte => .byte
  | short => .short
  | int => .int
  | long => .long
  | float => .float
  | double => .double
  | date => .date
  | string | wideString => .string
  | object => .object
  | objectArray => .objectArray
  | charArray _ | wideCharArray _ => .charArray
  | booleanArray _ => .booleanArray
  | byteArray _ => .byteArray
  | shortArray _ => .shortArray
  | intArray _ => .intArray
  | longArray _ => .longArray
  | floatArray _ => .floatArray
  | doubleArray _ => .doubleArray
  | stringArray _ | wideStringArray _ => .stringArray
  | arrayOfByteArrays _ => .arrayOfByteArrays

section
variable {Obj : Type} (others : Byte → Read Obj) (fieldName : Option String)

/-- The read through a `PdxLocalReader`. -/
def localRead : PdxRead → Read (PdxValue Obj)
  | char => .char <$> PdxLocalReader.readChar fieldName
  | wideChar => .wideChar <$> PdxLocalReader.readWideChar fieldName
  | boolean => .boolean <$> PdxLocalReader.readBoolean fieldName
  | byte => .byte <$> PdxLocalReader.readByte fieldName
  | short => .short <$> PdxLocalReader.readShort fieldName
  | int => .int <$> PdxLocalReader.readInt fieldName
  | long => .long <$> PdxLocalReader.readLong fieldName
  | float => .float <$> PdxLocalReader.readFloat fieldName
  | double => .double <$> PdxLocalReader.readDouble fieldName
  | date => .date <$> PdxLocalReader.readDate fieldName
  | string => .string <$> PdxLocalReader.readString fieldName
  | wideString => .wideString <$> PdxLocalReader.readWideString fieldName
  | object => .object <$> PdxLocalReader.readObject others fieldName
  | objectArray => .objectArray <$> PdxLocalReader.readObjectArray others fieldName
  | charArray _ => .charArray <$> PdxLocalReader.readCharArray fieldName
  | wideCharArray _ => .wideCharArray <$> PdxLocalReader.readWideCharArray fieldName
  | booleanArray _ => .booleanArray <$> PdxLocalReader.readBooleanArray fieldName
  | byteArray _ => .byteArray <$> PdxLocalReader.readByteArray fieldName
  | shortArray _ => .shortArray <$> PdxLocalReader.readShortArray fieldName
  | intArray _ => .intArray <$> PdxLocalReader.readIntArray fieldName
  | longArray _ => .longArray <$> PdxLocalReader.readLongArray fieldName
  | floatArray _ => .floatArray <$> PdxLocalReader.readFloatArray fieldName
  | doubleArray _ => .doubleArray <$> PdxLocalReader.readDoubleArray fieldName
  | stringArray _ => .stringArray <$> PdxLocalReader.readStringArray fieldName
  | wideStringArray _ => .wideStringArray <$> PdxLocalReader.readWideStringArray fieldName
  | arrayOfByteArrays _ => .arrayOfByteArrays <$> PdxLocalReader.readArrayOfByteArrays fieldName

/-- The value of one read, as one of the values of all reads. -/
def wrap {α : Type} (f : α → PdxValue Obj) (p : α × PdxRemoteReader) :
    PdxValue Obj × PdxRemoteReader := (f p.1, p.2)

/-- The read through a `PdxRemoteReader`. -/
def remoteRead (r : PdxRemoteReader) : PdxRead → Read (PdxValue Obj × PdxRemoteReader)
  | char => wrap .char <$> r.readChar fieldName
  | wideChar => wrap .wideChar <$> r.readWideChar fieldName
  | boolean => wrap .boolean <$> r.readBoolean fieldName
  | byte => wrap .byte <$> r.readByte fieldName
  | short => wrap .short <$> r.readShort fieldName
  | int => wrap .int <$> r.readInt fieldName
  | long => wrap .long <$> r.readLong fieldName
  | float => wrap .float <$> r.readFloat fieldName
  | double => wrap .double <$> r.readDouble fieldName
  | date => wrap .date <$> r.readDate fieldName
  | string => wrap .string <$> r.readString fieldName
  | wideString => wrap .wideString <$> r.readWideString fieldName
  | object => wrap .object <$> r.readObject fieldName others
  | objectArray => wrap .objectArray <$> r.readObjectArray fieldName others
  | charArray length => wrap .charArray <$> r.readCharArray fieldName length
  | wideCharArray length => wrap .wideCharArray <$> r.readWideCharArray fieldName length
  | booleanArray length => wrap .booleanArray <$> r.readBooleanArray fieldName length
  | byteArray length => wrap .byteArray <$> r.readByteArray fieldName length
  | shortArray length => wrap .shortArray <$> r.readShortArray fieldName length
  | intArray length => wrap .intArray <$> r.readIntArray fieldName length
  | longArray length => wrap .longArray <$> r.readLongArray fieldName length
  | floatArray length => wrap .floatArray <$> r.readFloatArray fieldName length
  | doubleArray length => wrap .doubleArray <$> r.readDoubleArray fieldName length
  | stringArray length => wrap .stringArray <$> r.readStringArray fieldName length
  | wideStringArray length => wrap .wideStringArray <$> r.readWideStringArray fieldName length
  | arrayOfByteArrays length =>
    wrap .arrayOfByteArrays <$> r.readArrayOfByteArrays fieldName length

end

end PdxRead

/-- A `fromData` that makes these reads, each with the name of its field. -/
def PdxRemoteReader.fromData {Obj : Type} (others : Byte → Read Obj) (r : PdxRemoteReader) :
    List (Option String × PdxRead) → Read (List (PdxValue Obj))
  | [] => return []
  | (fieldName, call) :: calls => do
    let (value, r) ← call.remoteRead others fieldName r
    let values ← r.fromData others calls
    return value :: values

end GeodeNative.Pdx

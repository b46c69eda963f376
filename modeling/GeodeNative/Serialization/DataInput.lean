import GeodeNative.Lib.Input
import GeodeNative.Serialization.DataOutput

/-!
# The input stream

The model of `DataInput` (`DataInput.hpp`). A read either returns a value or throws, and moves
the cursor in both cases. `fault` stands for an access outside of the buffer, or outside of the
array that a read allocates: the source checks the size of the buffer before most reads, but
`decodeChar` and `memcpy` do not check on their own. Allocations succeed here.
-/

set_option autoImplicit false

namespace GeodeNative.Serialization

open Lib

/-- How a read can end without a value. -/
inductive ReadError where
  /-- `OutOfRangeException`, with the two sizes of its message. -/
  | outOfRange (available attempted : Int)
  /-- `IllegalStateException`. -/
  | illegalState (message : String)
  /-- `IllegalArgumentException`. -/
  | illegalArgument (message : String)
  /-- An access outside of the buffer or of an allocated array. -/
  | fault
  deriving DecidableEq

/-- A `DataInput`: the `m_bufLength` bytes from `m_bufHead`, and the cursor `m_buf` relative to
`m_bufHead`. -/
abbrev DataInput := Input Byte

/-- A call on a `DataInput`. -/
abbrev Read (β : Type) := Parser ReadError Byte β

namespace DataInput

def getBytesRead (s : DataInput) : Int := s.pos

def getBytesRemaining (s : DataInput) : Int := s.buffer.length - s.pos

/-- `_checkBufferSize`. -/
def checkBufferSize (size : Int) : Read Unit := fun s =>
  let available := (s.buffer.length : Int) - s.pos
  if available < size then .error (.outOfRange available size) s else .ok () s

/-- `*(m_buf++)`. -/
def nextByte : Read Byte := next .fault

/-- `memcpy` of `len` bytes from the cursor, which then moves. -/
def nextBytes (len : Nat) : Read (List Byte) := nextN .fault len

/-- `read`, signed and unsigned. -/
def read : Read Byte := do
  checkBufferSize 1
  nextByte

def readBoolean : Read Bool := do
  checkBufferSize 1
  let b ← nextByte
  return b = 1

/-- The length is converted to `int32_t` for the check. -/
def readBytesOnly (len : BitVec 32) : Read (List Byte) :=
  if len > 0 then do
    checkBufferSize len.toInt
    nextBytes len.toNat
  else return []

/-- The unsigned `readInt` overloads: a check for `n` bytes and then the bytes. -/
def readBigEndian (n w : Nat) : Read (BitVec w) := do
  checkBufferSize n
  let bs ← nextBytes n
  return ofBigEndian w bs

/-- `readInt(uint16_t*)`. -/
def readInt16 : Read (BitVec 16) := readBigEndian 2 16

/-- `readInt(uint32_t*)`. -/
def readInt32 : Read (BitVec 32) := readBigEndian 4 32

/-- `readInt(uint64_t*)`. -/
def readInt64 : Read (BitVec 64) := readBigEndian 8 64

/-- The signed `readInt` overloads: one more check, and then the unsigned read. -/
def readSigned (n w : Nat) : Read (BitVec w) := do
  checkBufferSize n
  readBigEndian n w

/-- `readInt(int16_t*)`. -/
def readSignedInt16 : Read (BitVec 16) := readSigned 2 16

/-- `readInt(int32_t*)`. -/
def readSignedInt32 : Read (BitVec 32) := readSigned 4 32

/-- `readInt(int64_t*)`. -/
def readSignedInt64 : Read (BitVec 64) := readSigned 8 64

/-- `readFloat`, on the bits of the value. It has one more check, too. -/
def readFloat : Read (BitVec 32) := readSigned 4 32

/-- `readDouble`, on the bits of the value. -/
def readDouble : Read (BitVec 64) := readSigned 8 64

def readArrayLen : Read (BitVec 32) := do
  let code ← read
  if code = 0xFF then return -1
  else if code.toNat > 252 then
    if code = 0xFE then do
      let val ← readInt16
      return val.setWidth 32
    else if code = 0xFD then readInt32
    else throw (.illegalState "unexpected array length code")
  else return code.setWidth 32

/-- The array, which is null when it has no element, and its length. -/
def readBytes : Read (Option (List Byte) × BitVec 32) := do
  let length ← readArrayLen
  if 0 < length.toInt then do
    checkBufferSize length.toInt
    let bytes ← nextBytes length.toNat
    return (some bytes, length)
  else return (none, length)

/-- The loop of `readUnsignedVL`. The number of rounds left comes first, and the shift is less
than 64 in each of them. -/
def readUnsignedVLLoop : Nat → Nat → BitVec 64 → Read (BitVec 64)
  | 0, _, _ => throw (.illegalState "Malformed variable length integer")
  | n + 1, shift, result => do
    let b ← read
    let result := result ||| (b &&& 0x7F).setWidth 64 <<< shift
    if b &&& 0x80 = 0 then return result else readUnsignedVLLoop n (shift + 7) result

/-- The shifts below 64 are 0, 7, …, 63. -/
def readUnsignedVL : Read (BitVec 64) := readUnsignedVLLoop 10 0 0

/-! ### Strings -/

def readASCII : Read (List Byte) := do
  let length ← readInt16
  checkBufferSize length.toNat
  readBytesOnly (length.setWidth 32)

def readASCIIHuge : Read (List Byte) := do
  let length ← readInt32
  readBytesOnly length

/-- The loop of `getDecodedLength`: the number of rounds, and whether `value` ended behind
`end`. -/
def scanDecoded : List Byte → Nat × Bool
  | [] => (0, false)
  | b :: bs =>
    let more (r : Nat × Bool) : Nat × Bool := (r.1 + 1, r.2)
    if b >>> 5 = 6 then
      match bs with
      | [] => (1, true)
      | _ :: rest => more (scanDecoded rest)
    else if b >>> 5 = 7 then
      match bs with
      | [] => (1, true)
      | [_] => (1, true)
      | _ :: _ :: rest => more (scanDecoded rest)
    else more (scanDecoded bs)

def getDecodedLength (value : List Byte) : Nat :=
  let r := scanDecoded value
  if r.2 then r.1 - 1 else r.1

/-- `decodeChar(char*)`. -/
def decodeChar : Read Byte := do
  let bt ← nextByte
  if bt &&& 0x80 ≠ 0 then
    if bt &&& 0x20 ≠ 0 then do
      let b₂ ← nextByte
      let b₃ ← nextByte
      return ((bt &&& 0x0F).setWidth 32 <<< 12 ||| (b₂ &&& 0x3F).setWidth 32 <<< 6).setWidth 8 |||
        b₃ &&& 0x3F
    else do
      let b₂ ← nextByte
      return ((bt &&& 0x1F).setWidth 32 <<< 6 ||| (b₂ &&& 0x3F).setWidth 32).setWidth 8
  else return bt

/-- `decodeChar(wchar_t*)`. -/
def decodeWideChar : Read WChar := do
  let b ← nextByte
  if b >>> 5 = 6 then do
    let x ← nextByte
    return (b &&& 0x1F).setWidth 32 <<< 6 ||| (x &&& 0x3F).setWidth 32
  else if b >>> 5 = 7 then do
    let y ← nextByte
    let x ← nextByte
    return (b &&& 0x0F).setWidth 32 <<< 12 ||| (y &&& 0x3F).setWidth 32 <<< 6 |||
      (x &&& 0x3F).setWidth 32
  else return (b &&& 0x7F).setWidth 32

/-- The `readUTF` overloads. -/
def readUTFWith {C : Type} (decode : Read C) : Read (List C) := do
  let length ← readInt16
  checkBufferSize length.toNat
  let s ← get
  let decodedLen := getDecodedLength ((s.buffer.drop s.pos.toNat).take length.toNat)
  times decodedLen decode

/-- `readUTF(char**)`. -/
def readUTF : Read (List Byte) := readUTFWith decodeChar

/-- `readUTF(wchar_t**)`. -/
def readWideUTF : Read (List WChar) := readUTFWith decodeWideChar

/-- One round of a `readUTFHuge` loop: two bytes are read, and the character is stored. -/
def hugeRound {C : Type} (item : Byte → Byte → C) (room : Bool) : Read C := do
  let hibyte ← read
  let lobyte ← read
  if room then return item hibyte lobyte else throw .fault

/-- The `readUTFHuge` overloads. The array has `length + 1` elements in 32 bits, so it has room
for every character unless `length + 1` wraps to 0. -/
def readUTFHugeWith {C : Type} (item : Byte → Byte → C) : Read (List C) := do
  let length ← readInt32
  times length.toNat (hugeRound item (length + 1 ≠ 0))

/-- `readUTFHuge(char**)`. -/
def readUTFHuge : Read (List Byte) := readUTFHugeWith fun _ lobyte => lobyte

/-- `readUTFHuge(wchar_t**)`. -/
def readWideUTFHuge : Read (List WChar) :=
  readUTFHugeWith fun hibyte lobyte => hibyte.setWidth 32 <<< 8 ||| lobyte.setWidth 32

/-- The type ids are `CacheableNullString`, the two ids of short strings and the two
of huge strings; the narrow and the wide id of a size are read alike. -/
def readString : Read (Option (List Byte)) := do
  let typeId ← read
  if typeId = 69 then return none
  else if typeId = 87 ∨ typeId = 42 then do
    let value ← readASCII
    return some value
  else if typeId = 88 ∨ typeId = 89 then do
    let value ← readASCIIHuge
    return some value
  else throw (.illegalArgument "DI readString error:: String type not supported ")

def readWideString : Read (Option (List WChar)) := do
  let typeId ← read
  if typeId = 69 then return none
  else if typeId = 87 ∨ typeId = 42 then do
    let value ← readWideUTF
    return some value
  else if typeId = 88 ∨ typeId = 89 then do
    let value ← readWideUTFHuge
    return some value
  else throw (.illegalArgument
    "DI readWideString error:: WideString type provided is not supported ")

/-! ### Arrays

The reads of arrays return a pointer and a length. -/

/-- The private `readObject(mType**, int32_t&)`. The pointer stays null for an array without
elements. -/
def readArray {α : Type} (readElement : Read α) : Read (Option (List α) × BitVec 32) := do
  let arrayLen ← readArrayLen
  if 0 < arrayLen.toInt then do
    let objArray ← times arrayLen.toNat readElement
    return (some objArray, arrayLen)
  else return (none, arrayLen)

def readPdxChar : Read Byte := do
  let val ← readSignedInt16
  return val.setWidth 8

/-- `readObject(wchar_t*)`. -/
def readPdxWideChar : Read WChar := do
  let temp ← readInt16
  return temp.setWidth 32

def readCharArray : Read (Option (List Byte) × BitVec 32) := readArray readPdxChar

def readWideCharArray : Read (Option (List WChar) × BitVec 32) := readArray readPdxWideChar

def readBooleanArray : Read (Option (List Bool) × BitVec 32) := readArray readBoolean

def readByteArray : Read (Option (List Byte) × BitVec 32) := readArray read

def readShortArray : Read (Option (List (BitVec 16)) × BitVec 32) := readArray readSignedInt16

def readIntArray : Read (Option (List (BitVec 32)) × BitVec 32) := readArray readSignedInt32

def readLongArray : Read (Option (List (BitVec 64)) × BitVec 32) := readArray readSignedInt64

def readFloatArray : Read (Option (List (BitVec 32)) × BitVec 32) := readArray readFloat

def readDoubleArray : Read (Option (List (BitVec 64)) × BitVec 32) := readArray readDouble

/-- The reads of arrays of pointers. Only the length -1 makes a null array, and an array of another
negative length is not allocated. -/
def readPointerArray {α : Type} (readElement : Read α) : Read (Option (List α) × BitVec 32) := do
  let arrLen ← readArrayLen
  if arrLen = -1 then return (none, arrLen)
  else if arrLen.toInt < 0 then throw .fault
  else do
    let tmpArray ← times arrLen.toNat readElement
    return (some tmpArray, arrLen)

def readStringArray : Read (Option (List (Option (List Byte))) × BitVec 32) :=
  readPointerArray readString

def readWideStringArray : Read (Option (List (Option (List WChar))) × BitVec 32) :=
  readPointerArray readWideString

/-- Each element comes with its own length. -/
def readArrayOfByteArrays : Read (Option (List (Option (List Byte) × BitVec 32)) × BitVec 32) :=
  readPointerArray readBytes

/-! ### The cursor -/

def advanceCursor (offset : Int) : Read Unit := modify fun s => { s with pos := s.pos + offset }

def rewindCursor (offset : Int) : Read Unit := modify fun s => { s with pos := s.pos - offset }

end DataInput

end GeodeNative.Serialization

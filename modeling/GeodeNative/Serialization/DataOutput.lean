import GeodeNative.Lib.BigEndian

/-!
# The output stream

The model of `DataOutput` (`DataOutput.hpp`). The source writes through a raw cursor after it
has asked for room with `ensureCapacity`. A write past the end of the buffer, or a read past the
terminator of a string, is undefined there. The model records it in `fault` and goes on.

A C string is the list of its characters without the terminator, a `wchar_t` is a signed 32-bit
word, and `float` and `double` are their bits. The water marks and the lock for big buffers are
left out: they do not change what is written.
-/

set_option autoImplicit false

namespace GeodeNative.Serialization

open Lib

/-- A `wchar_t`. -/
abbrev WChar := BitVec 32

/-- A `DataOutput`. `bytes` is what lies between `m_bytes` and the cursor `m_buf`, and `size`
is `m_size`. -/
structure DataOutput where
  bytes : List Byte
  size : BitVec 32
  fault : Bool
  deriving DecidableEq

namespace DataOutput

variable (o : DataOutput)

def getBufferLength : BitVec 32 := BitVec.ofNat 32 o.bytes.length

def ensureCapacity (size : BitVec 32) : DataOutput :=
  let offset := o.getBufferLength
  if o.size - offset < size then { o with size := o.size * 2 + 8192 * (size / 8192) } else o

/-- Writes at the cursor without a check: the `*(m_buf++) = …` of the source. -/
def store (bs : List Byte) : DataOutput where
  bytes := o.bytes ++ bs
  size := o.size
  fault := o.fault || decide (o.size.toNat < o.bytes.length + bs.length)

/-- `memcpy` of `len` bytes from `src` to the cursor, which then moves. -/
def copy (src : List Byte) (len : Nat) : DataOutput :=
  let o' := o.store (src.take len)
  { o' with fault := o'.fault || decide (src.length < len) }

/-- `write`, signed and unsigned. -/
def write (value : Byte) : DataOutput := (o.ensureCapacity 1).store [value]

def writeBoolean (value : Bool) : DataOutput := o.write (if value then 1 else 0)

/-- The `writeInt` overloads: room for `n` bytes and then the bytes of the value. -/
def writeBigEndian (n : Nat) {w : Nat} (value : BitVec w) : DataOutput :=
  (o.ensureCapacity (BitVec.ofNat 32 n)).store (bigEndian n value)

/-- `writeInt(uint16_t)` and `writeInt(int16_t)`. -/
def writeInt16 (value : BitVec 16) : DataOutput := o.writeBigEndian 2 value

def writeChar (value : BitVec 16) : DataOutput := o.writeBigEndian 2 value

/-- `writeInt(uint32_t)` and `writeInt(int32_t)`. -/
def writeInt32 (value : BitVec 32) : DataOutput := o.writeBigEndian 4 value

/-- `writeInt(uint64_t)` and `writeInt(int64_t)`. -/
def writeInt64 (value : BitVec 64) : DataOutput := o.writeBigEndian 8 value

/-- `writeFloat`, on the bits of the value. -/
def writeFloat (value : BitVec 32) : DataOutput := o.writeInt32 value

/-- `writeDouble`, on the bits of the value. -/
def writeDouble (value : BitVec 64) : DataOutput := o.writeInt64 value

def writeArrayLen (len : BitVec 32) : DataOutput :=
  if len = -1 then o.write 0xFF
  else if len.toInt ≤ 252 then o.write (len.setWidth 8)
  else if len.toInt ≤ 0xFFFF then (o.write 0xFE).writeInt16 (len.setWidth 16)
  else (o.write 0xFD).writeInt32 len

/-- The pointer may be null. -/
def writeBytes (bytes : Option (List Byte)) (len : BitVec 32) : DataOutput :=
  if 0 ≤ len.toInt then
    let o := o.ensureCapacity (len + 5)
    match bytes with
    | none => o.writeArrayLen 0
    | some src =>
      let o := o.writeArrayLen len
      if 0 < len.toInt then o.copy src len.toNat else o
  else o.write 0xFF

def writeBytesOnly (bytes : List Byte) (len : BitVec 32) : DataOutput :=
  (o.ensureCapacity len).copy bytes len.toNat

/-! ### Strings -/

/-- `strlen` and `wcslen`. -/
def strlen {w : Nat} (value : List (BitVec w)) : BitVec 32 :=
  BitVec.ofNat 32 (value.takeWhile (· ≠ 0)).length

/-- A `length` argument of 0 stands for the whole string. -/
def lengthOr {w : Nat} (value : List (BitVec w)) (length : BitVec 32) : BitVec 32 :=
  if length = 0 then strlen value else length

/-- What can be read behind a string pointer: the characters and the terminator. -/
def memory {w : Nat} (value : List (BitVec w)) : List (BitVec w) := value ++ [0]

def writeASCII (value : Option (List Byte)) (length : BitVec 32) : DataOutput :=
  match value with
  | none => o.writeInt16 0
  | some value =>
    let length := lengthOr value length
    let len : BitVec 16 := (if length > 0xFFFF then 0xFFFF else length).setWidth 16
    (o.writeInt16 len).writeBytesOnly (memory value) (len.setWidth 32)

def writeASCIIHuge (value : Option (List Byte)) (length : BitVec 32) : DataOutput :=
  match value with
  | none => o.writeInt32 0
  | some value =>
    let length := lengthOr value length
    (o.writeInt32 length).writeBytesOnly (memory value) length

/-- `encodeChar(char)`. -/
def encodeChar (value : Byte) : List Byte :=
  if value = 0 ∨ value &&& 0x80 ≠ 0 then [0xC0 ||| (value &&& 0xC0) >>> 6, 0x80 ||| value &&& 0x3F]
  else [value]

/-- `encodeChar(wchar_t)`. The character is cut to 16 bits. -/
def encodeWideChar (value : WChar) : List Byte :=
  let c : BitVec 16 := value.setWidth 16
  if c = 0 then [0xC0, 0x80]
  else if c < 0x80 then [c.setWidth 8]
  else if c < 0x800 then [(0xC0 ||| c >>> 6).setWidth 8, (0x80 ||| c &&& 0x3F).setWidth 8]
  else [(0xE0 ||| c >>> 12).setWidth 8, (0x80 ||| c >>> 6 &&& 0x3F).setWidth 8,
    (0x80 ||| c &&& 0x3F).setWidth 8]

/-- The private `getEncodedLength(char, int32_t&)`. -/
def charEncodedLength (value : Byte) : Nat := if value = 0 ∨ value &&& 0x80 ≠ 0 then 2 else 1

/-- The private `getEncodedLength(wchar_t, int32_t&)`. The comparisons are signed. -/
def wideCharEncodedLength (value : WChar) : Nat :=
  if value = 0 then 2 else if value.toInt < 0x80 then 1 else if value.toInt < 0x800 then 2 else 3

/-- The characters that `getEncodedLength` visits. -/
def visited {w : Nat} (value : List (BitVec w)) (length : BitVec 32) : List (BitVec w) :=
  if length = 0 then value.takeWhile (· ≠ 0) else (memory value).take length.toInt.toNat

/-- `getEncodedLength(const char*)`. -/
def getEncodedLength (value : List Byte) (length : BitVec 32) : Nat :=
  ((visited value length).map charEncodedLength).sum

/-- `getEncodedLength(const wchar_t*)`. -/
def getWideEncodedLength (value : List WChar) (length : BitVec 32) : Nat :=
  ((visited value length).map wideCharEncodedLength).sum

/-- `while (m_buf < end) encodeChar(*value++)` over the memory behind the pointer. -/
def encodeUntil {C : Type} (encode : C → List Byte) (stop : Nat) :
    List C → DataOutput → DataOutput
  | [], o => if o.bytes.length < stop then { o with fault := true } else o
  | c :: cs, o =>
    if o.bytes.length < stop then encodeUntil encode stop cs (o.store (encode c)) else o

/-- The loop, and then `if (m_buf > end) m_buf = end`. -/
def encodeAll {C : Type} (encode : C → List Byte) (memory : List C) (encodedLen : Nat)
    : DataOutput :=
  let stop := o.bytes.length + encodedLen
  let o := encodeUntil encode stop memory o
  { o with bytes := o.bytes.take stop }

/-- The `writeUTF` overloads, from the encoded length of the string. -/
def writeUTFWith {C : Type} (encode : C → List Byte) (memory : List C) (len : Nat) : DataOutput :=
  let encodedLen : BitVec 16 := BitVec.ofNat 16 (if len > 0xFFFF then 0xFFFF else len)
  ((o.writeInt16 encodedLen).ensureCapacity (encodedLen.setWidth 32)).encodeAll encode memory
    encodedLen.toNat

/-- `writeUTF(const char*)`. -/
def writeUTF (value : Option (List Byte)) (length : BitVec 32) : DataOutput :=
  match value with
  | none => o.writeInt16 0
  | some value => o.writeUTFWith encodeChar (memory value) (getEncodedLength value length)

/-- `writeUTF(const wchar_t*)`. -/
def writeWideUTF (value : Option (List WChar)) (length : BitVec 32) : DataOutput :=
  match value with
  | none => o.writeInt16 0
  | some value =>
    o.writeUTFWith encodeWideChar (memory value) (getWideEncodedLength value length)

/-- The number of rounds of `encodeUntil`, each of which reads a character. -/
def roundsUntil {C : Type} (encode : C → List Byte) (stop : Nat) : List C → DataOutput → Nat
  | [], _ => 0
  | c :: cs, o =>
    if o.bytes.length < stop then roundsUntil encode stop cs (o.store (encode c)) + 1 else 0

/-- The loop of `writeUTF(const wchar_t*)`: the units that it reads, and the bytes that it stores
before the cursor is set back to the end. -/
def wideUTFLoop (value : List WChar) (length : BitVec 32) : Nat × Nat :=
  let len := getWideEncodedLength value length
  let encodedLen : BitVec 16 := BitVec.ofNat 16 (if len > 0xFFFF then 0xFFFF else len)
  let o := (o.writeInt16 encodedLen).ensureCapacity (encodedLen.setWidth 32)
  let stop := o.bytes.length + encodedLen.toNat
  (roundsUntil encodeWideChar stop (memory value) o,
    (encodeUntil encodeWideChar stop (memory value) o).bytes.length - o.bytes.length)

/-- The byte 0 is written after the room was asked for. -/
def writeFullUTF (value : Option (List Byte)) (length : BitVec 32) : DataOutput :=
  match value with
  | none => o.writeInt16 0
  | some value =>
    let encodedLen := getEncodedLength value length
    let o := (o.writeInt32 (BitVec.ofNat 32 encodedLen)).ensureCapacity (BitVec.ofNat 32 encodedLen)
    (o.write 0).encodeAll encodeChar (memory value) encodedLen

/-- The `writeUTFHuge` overloads: two bytes for each character. -/
def writeUTFHugeWith {w : Nat} (value : Option (List (BitVec w))) (length : BitVec 32)
    (encode : BitVec w → List Byte) : DataOutput :=
  match value with
  | none => o.writeInt32 0
  | some value =>
    let length := lengthOr value length
    let o := (o.writeInt32 length).ensureCapacity (length * 2)
    let o := ((memory value).take length.toNat).foldl (fun o c => o.store (encode c)) o
    { o with fault := o.fault || decide ((memory value).length < length.toNat) }

/-- `writeUTFHuge(const char*)`. -/
def writeUTFHuge (value : Option (List Byte)) (length : BitVec 32) : DataOutput :=
  o.writeUTFHugeWith value length fun c => [0, c]

/-- `writeUTFHuge(const wchar_t*)`. -/
def writeWideUTFHuge (value : Option (List WChar)) (length : BitVec 32) : DataOutput :=
  o.writeUTFHugeWith value length fun c =>
    let item : BitVec 16 := c.setWidth 16
    [((item &&& 0xFF00) >>> 8).setWidth 8, (item &&& 0xFF).setWidth 8]

/-! ### The cursor -/

/-- The bytes that are passed over have no value yet, and read as 0 here. -/
def advanceCursor (offset : BitVec 32) : DataOutput :=
  (o.ensureCapacity offset).store (List.replicate offset.toNat 0)

/-- Bytes written over the buffer at a position that lies before the cursor. -/
def overwrite (pos : Nat) (bs : List Byte) : DataOutput :=
  { o with bytes := o.bytes.take pos ++ bs ++ o.bytes.drop (pos + bs.length) }

end DataOutput

end GeodeNative.Serialization

import GeodeNative.Serialization.DataInput

/-!
# Calls on the streams as data

The calls of `DataOutput` and `DataInput` with their arguments, so that a sequence of calls is a
list. `WriteCall.exec` and `ReadCall.exec` run a call. A `WriteCall` has a read that matches it;
`WriteOp` has the writes with every pointer and length that they can be given.
-/

set_option autoImplicit false

namespace GeodeNative.Serialization

open Lib DataInput

/-- A length in 32 bits. -/
abbrev len32 {α : Type} (l : List α) : BitVec 32 := BitVec.ofNat 32 l.length

/-- A call of a write with its arguments. `signed` tells two overloads of one size apart. -/
inductive WriteCall where
  | write (value : Byte)
  | writeBoolean (value : Bool)
  | writeInt16 (signed : Bool) (value : BitVec 16)
  | writeInt32 (signed : Bool) (value : BitVec 32)
  | writeInt64 (signed : Bool) (value : BitVec 64)
  | writeArrayLen (len : BitVec 32)
  | writeBytes (value : List Byte)
  | writeASCII (value : List Byte) (length : BitVec 32)
  | writeASCIIHuge (value : List Byte) (length : BitVec 32)
  | writeUTF (value : List WChar) (length : BitVec 32)
  | writeUTFHuge (value : List WChar) (length : BitVec 32)
  deriving DecidableEq

/-- What a read returns. An array of bytes comes as a pointer and a length. -/
inductive ReadValue where
  | byte (value : Byte)
  | boolean (value : Bool)
  | int16 (value : BitVec 16)
  | int32 (value : BitVec 32)
  | int64 (value : BitVec 64)
  | bytes (value : Option (List Byte)) (length : BitVec 32)
  | string (value : List Byte)
  | wideString (value : List WChar)
  deriving DecidableEq

/-- A call of a read. `wide` tells the overloads for `wchar_t` from those for `char`. -/
inductive ReadCall where
  | read
  | readBoolean
  | readInt16 (signed : Bool)
  | readInt32 (signed : Bool)
  | readInt64 (signed : Bool)
  | readArrayLen
  | readBytes
  | readASCII
  | readASCIIHuge
  | readUTF (wide : Bool)
  | readUTFHuge (wide : Bool)
  | readBytesOnly (len : BitVec 32)
  | readUnsignedVL
  deriving DecidableEq

/-- The output after the call. -/
def WriteCall.exec (o : DataOutput) : WriteCall → DataOutput
  | write value => o.write value
  | writeBoolean value => o.writeBoolean value
  | writeInt16 _ value => o.writeInt16 value
  | writeInt32 _ value => o.writeInt32 value
  | writeInt64 _ value => o.writeInt64 value
  | writeArrayLen len => o.writeArrayLen len
  | writeBytes value => o.writeBytes (some value) (len32 value)
  | writeASCII value length => o.writeASCII (some value) length
  | writeASCIIHuge value length => o.writeASCIIHuge (some value) length
  | writeUTF value length => o.writeWideUTF (some value) length
  | writeUTFHuge value length => o.writeWideUTFHuge (some value) length

/-- The read that matches the call. -/
def WriteCall.matching : WriteCall → ReadCall
  | write _ => .read
  | writeBoolean _ => .readBoolean
  | writeInt16 signed _ => .readInt16 signed
  | writeInt32 signed _ => .readInt32 signed
  | writeInt64 signed _ => .readInt64 signed
  | writeArrayLen _ => .readArrayLen
  | writeBytes _ => .readBytes
  | writeASCII _ _ => .readASCII
  | writeASCIIHuge _ _ => .readASCIIHuge
  | writeUTF _ _ => .readUTF true
  | writeUTFHuge _ _ => .readUTFHuge true

/-- What the read does. -/
def ReadCall.exec : ReadCall → Read ReadValue
  | read => do return .byte (← DataInput.read)
  | readBoolean => do return .boolean (← DataInput.readBoolean)
  | readInt16 signed => do return .int16 (← if signed then readSignedInt16 else DataInput.readInt16)
  | readInt32 signed => do return .int32 (← if signed then readSignedInt32 else DataInput.readInt32)
  | readInt64 signed => do return .int64 (← if signed then readSignedInt64 else DataInput.readInt64)
  | readArrayLen => do return .int32 (← DataInput.readArrayLen)
  | readBytes => do
    let r ← DataInput.readBytes
    return .bytes r.1 r.2
  | readASCII => do return .string (← DataInput.readASCII)
  | readASCIIHuge => do return .string (← DataInput.readASCIIHuge)
  | readUTF true => do return .wideString (← readWideUTF)
  | readUTF false => do return .string (← DataInput.readUTF)
  | readUTFHuge true => do return .wideString (← readWideUTFHuge)
  | readUTFHuge false => do return .string (← DataInput.readUTFHuge)
  | readBytesOnly len => do return .string (← DataInput.readBytesOnly len)
  | readUnsignedVL => do return .int64 (← DataInput.readUnsignedVL)

/-- The stream after a call, whether it returned or threw. -/
def ReadCall.step (s : DataInput) (call : ReadCall) : DataInput :=
  match call.exec s with
  | .ok _ s' => s'
  | .error _ s' => s'

/-- A write with its pointer and length arguments. A pointer may be null. -/
inductive WriteOp where
  | write (value : Byte)
  | writeInt16 (value : BitVec 16)
  | writeInt32 (value : BitVec 32)
  | writeInt64 (value : BitVec 64)
  | writeArrayLen (len : BitVec 32)
  | writeBytes (bytes : Option (List Byte)) (len : BitVec 32)
  | writeBytesOnly (bytes : List Byte) (len : BitVec 32)
  | writeASCII (value : Option (List Byte)) (length : BitVec 32)
  | writeASCIIHuge (value : Option (List Byte)) (length : BitVec 32)
  | writeFullUTF (value : Option (List Byte)) (length : BitVec 32)
  | writeUTF (value : Option (List Byte)) (length : BitVec 32)
  | writeWideUTF (value : Option (List WChar)) (length : BitVec 32)
  | writeUTFHuge (value : Option (List Byte)) (length : BitVec 32)
  | writeWideUTFHuge (value : Option (List WChar)) (length : BitVec 32)

/-- The output after the write. -/
def WriteOp.exec (o : DataOutput) : WriteOp → DataOutput
  | write value => o.write value
  | writeInt16 value => o.writeInt16 value
  | writeInt32 value => o.writeInt32 value
  | writeInt64 value => o.writeInt64 value
  | writeArrayLen len => o.writeArrayLen len
  | writeBytes bytes len => o.writeBytes bytes len
  | writeBytesOnly bytes len => o.writeBytesOnly bytes len
  | writeASCII value length => o.writeASCII value length
  | writeASCIIHuge value length => o.writeASCIIHuge value length
  | writeFullUTF value length => o.writeFullUTF value length
  | writeUTF value length => o.writeUTF value length
  | writeWideUTF value length => o.writeWideUTF value length
  | writeUTFHuge value length => o.writeUTFHuge value length
  | writeWideUTFHuge value length => o.writeWideUTFHuge value length

end GeodeNative.Serialization

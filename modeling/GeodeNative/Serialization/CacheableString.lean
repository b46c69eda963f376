import GeodeNative.Serialization.Calls

/-!
# Strings as objects

The model of `CacheableString` (`CacheableString.cpp`). The type id of a string is chosen when the
string is created: from the number of characters for `char`, from the encoded length for `wchar_t`.
It says how the string is written, and which object reads it back.

`m_str` is a pointer to `char` or to `wchar_t` by the type id, so the two kinds are two
constructors here. The cached hash code is left out, and so are the lengths beyond the range of
`int32_t`. A `len` behind the terminator of the string is undefined in the source; here it ends at
the terminator.
-/

set_option autoImplicit false

namespace GeodeNative.Serialization

open Lib DataOutput DataInput

/-- A `CacheableString`: `m_str` and `m_len`. `huge` tells the two type ids of a kind apart. -/
inductive CacheableString where
  | narrow (huge : Bool) (str : Option (List Byte)) (len : BitVec 32)
  | wide (huge : Bool) (str : Option (List WChar)) (len : BitVec 32)
  deriving DecidableEq

namespace CacheableString

/-- `GF_STRING`, `GF_STRING_HUGE`, `GF_WIDESTRING` and `GF_WIDESTRING_HUGE`. -/
def typeId : CacheableString → Byte
  | narrow false _ _ => 87
  | narrow true _ _ => 88
  | wide false _ _ => 42
  | wide true _ _ => 89

/-! ### Creation -/

def copyString {w : Nat} (value : List (BitVec w)) (len : BitVec 32) : List (BitVec w) :=
  (memory value).take len.toNat

/-- `initString(const char*)` on a new object. -/
def initString (value : Option (List Byte)) (len : BitVec 32) : CacheableString :=
  match value with
  | none => narrow false none 0
  | some value =>
    let len := if len.toInt ≤ 0 then strlen value else len
    narrow (len.toInt > 0xFFFF) (copyString value len) len

/-- `initStringNoCopy(char*)` on a new object. -/
def initStringNoCopy (value : Option (List Byte)) (len : BitVec 32) : CacheableString :=
  match value with
  | none => narrow false none 0
  | some value =>
    let len := if len.toInt ≤ 0 then strlen value else len
    narrow (len.toInt > 0xFFFF) value len

/-- The character, and what it makes of `isASCII` and `encodedLen`. -/
def getASCIIChar (wc : WChar) (isASCII : Bool) (encodedLen : Nat) : Byte × Bool × Nat :=
  if wc &&& 0xFC00 ≠ 0 then (0, false, encodedLen + 3)
  else if wc &&& 0x0380 ≠ 0 then (0, false, encodedLen + 2)
  else ((wc &&& 0x7F).setWidth 8, isASCII, encodedLen + 1)

/-- The variables of the loops of `getASCIIString`. -/
structure ASCIIScan where
  isASCII : Bool
  encodedLen : Nat
  buf : List Byte

/-- One round of the loops. The characters are one byte each as long as they are stored. -/
def ASCIIScan.next (s : ASCIIScan) (currentChar : WChar) : ASCIIScan :=
  let (c, isASCII, encodedLen) := getASCIIChar currentChar s.isASCII s.encodedLen
  ⟨isASCII, encodedLen, if isASCII then s.buf ++ [c] else s.buf⟩

/-- The buffer, and the new values of `len` and `encodedLen`. -/
def getASCIIString (value : List WChar) (len : BitVec 32) (encodedLen : Nat) :
    Option (List Byte) × BitVec 32 × Nat :=
  let chars :=
    if len.toInt > 0 then ((memory value).take len.toNat).takeWhile (· ≠ 0)
    else value.takeWhile (· ≠ 0)
  let s := chars.foldl ASCIIScan.next ⟨true, encodedLen, []⟩
  (if s.isASCII then some s.buf else none, len32 chars, s.encodedLen)

/-- `initString(const wchar_t*)` on a new object. Of `getASCIIString` only the lengths are used. -/
def initWideString (value : Option (List WChar)) (len : BitVec 32) : CacheableString :=
  match value with
  | none => narrow false none 0
  | some value =>
    let (_, len, encodedLen) := getASCIIString value len 0
    wide (encodedLen > 0xFFFF) (copyString value len) len

/-- `initStringNoCopy(wchar_t*)` on a new object. -/
def initWideStringNoCopy (value : Option (List WChar)) (len : BitVec 32) : CacheableString :=
  match value with
  | none => narrow false none 0
  | some value =>
    wide (getWideEncodedLength value len > 0xFFFF) value (len32 (visited value len))

/-- The `create` functions: a null pointer makes a null object. -/
def createWith {w : Nat} (init : Option (List (BitVec w)) → BitVec 32 → CacheableString)
    (value : Option (List (BitVec w))) (len : BitVec 32) : Option CacheableString :=
  match value with
  | none => none
  | some value => init value len

/-- `create(const char*)`. -/
def create : Option (List Byte) → BitVec 32 → Option CacheableString := createWith initString

/-- `createNoCopy(char*)`. -/
def createNoCopy : Option (List Byte) → BitVec 32 → Option CacheableString :=
  createWith initStringNoCopy

/-- `create(const wchar_t*)`. -/
def createWide : Option (List WChar) → BitVec 32 → Option CacheableString :=
  createWith initWideString

/-- `createNoCopy(wchar_t*)`. -/
def createWideNoCopy : Option (List WChar) → BitVec 32 → Option CacheableString :=
  createWith initWideStringNoCopy

/-! ### On the wire -/

def toData (s : CacheableString) (o : DataOutput) : DataOutput :=
  match s with
  | narrow false str len => o.writeASCII str len
  | wide false str len => o.writeWideUTF str len
  | narrow true str len => o.writeASCIIHuge str len
  | wide true str len => o.writeWideUTFHuge str len

/-- The length that a read returns is the number of characters that it stored. -/
def fromData (s : CacheableString) : Read CacheableString :=
  match s with
  | narrow false _ _ => do
    let str ← readASCII
    return narrow false str (len32 str)
  | wide false _ _ => do
    let str ← readWideUTF
    return wide false str (len32 str)
  | narrow true _ _ => do
    let str ← readASCIIHuge
    return narrow true str (len32 str)
  | wide true _ _ => do
    let str ← readWideUTFHuge
    return wide true str (len32 str)

def createDeserializable : CacheableString := narrow false none 0

def createDeserializableHuge : CacheableString := narrow true none 0

def createUTFDeserializable : CacheableString := wide false none 0

def createUTFDeserializableHuge : CacheableString := wide true none 0

/-- The type map, for the type ids of strings. -/
def factory (typeId : Byte) : Option CacheableString :=
  if typeId = 87 then createDeserializable
  else if typeId = 88 then createDeserializableHuge
  else if typeId = 42 then createUTFDeserializable
  else if typeId = 89 then createUTFDeserializableHuge
  else none

/-- The string as an object on a stream: the type id and the data. -/
def serialize (s : CacheableString) (o : DataOutput) : DataOutput := s.toData (o.write s.typeId)

/-- An object from a stream. `others` is what happens for the type id of another class. -/
def deserialize (others : Byte → Read CacheableString) : Read CacheableString := do
  let typeId ← read
  match factory typeId with
  | some s => s.fromData
  | none => others typeId

/-! ### As a key -/

/-- The characters behind `m_str` as integers. A `char` is signed. -/
def chars : CacheableString → Option (List WChar)
  | narrow _ str _ => str.map fun value => value.map (·.signExtend 32)
  | wide _ str _ => str

/-- `m_len`. -/
def len : CacheableString → BitVec 32
  | narrow _ _ len => len
  | wide _ _ len => len

/-- Behind the last character there is the terminator. -/
def compareStrings : List WChar → List WChar → Bool
  | [], _ => true
  | wc :: str₁, str₂ =>
    if wc = 0 then true
    else match str₂ with
      | [] => false
      | c :: str₂ => if wc ≠ c then false else compareStrings str₁ str₂

/-- `operator==` with another string. All type ids of strings can be compared. -/
def equals (s other : CacheableString) : Bool :=
  if s.len ≠ other.len then false
  else match s.chars with
    | none => true
    | some str => compareStrings str (other.chars.getD [])

def hashcode (s : CacheableString) : BitVec 32 :=
  match s.chars with
  | none => 0
  | some data => (data.take s.len.toNat).foldl (fun localHash c => 31 * localHash + c) 0

end CacheableString

/-- A call that creates a string from a pointer and the length that is passed with it. -/
inductive StringCreation where
  | create (value : List Byte) (len : BitVec 32)
  | createNoCopy (value : List Byte) (len : BitVec 32)
  | createWide (value : List WChar) (len : BitVec 32)
  | createWideNoCopy (value : List WChar) (len : BitVec 32)

/-- The string that the call returns. -/
def StringCreation.exec : StringCreation → Option CacheableString
  | create value len => CacheableString.create value len
  | createNoCopy value len => CacheableString.createNoCopy value len
  | createWide value len => CacheableString.createWide value len
  | createWideNoCopy value len => CacheableString.createWideNoCopy value len

end GeodeNative.Serialization

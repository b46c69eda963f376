import GeodeNative.Pdx.PdxInstanceImpl
import GeodeNative.Proofs.Pdx.Writer
import GeodeNative.Proofs.Serialization.Uniform

/-!
# What the typed writes emit

The writes of objects and strings append bytes that do not depend on what was written before, as
those of `DataOutput` do (`Uniform`). A write of `PdxLocalWriter` then emits one field:
`Writes write isVariable bytes`. Where the source has no result, neither has the write, in any
output.
-/

set_option autoImplicit false

namespace GeodeNative.Pdx.PdxLocalWriter

open Lib Serialization Serialization.DataOutput

/-- The write starts with a byte, and what follows does not depend on the output. -/
def StartsWithByte (write : DataOutput → DataOutput) : Prop :=
  ∃ b f, Uniform f ∧ ∀ o, write o = f (DataOutput.write o b)

theorem startsWithByte_writeString (value : Option (List Byte)) :
    StartsWithByte fun o => writeStringwithoutOffset o value := by
  cases value with
  | none => exact ⟨_, id, Appends.id.uniform, fun o => rfl⟩
  | some chars =>
    by_cases hhuge : getEncodedLength chars 0 > 0xffff
    · exact ⟨_, _, uniform_writeUTFHugeWith _ _ _, fun o => if_pos hhuge⟩
    · exact ⟨_, _, uniform_writeUTFWith _ _ _, fun o => if_neg hhuge⟩

theorem startsWithByte_writeWideString (value : Option (List WChar)) :
    StartsWithByte fun o => writeWideStringwithoutOffset o value := by
  cases value with
  | none => exact ⟨_, id, Appends.id.uniform, fun o => rfl⟩
  | some chars =>
    by_cases hhuge : getWideEncodedLength chars 0 > 0xffff
    · exact ⟨_, _, uniform_writeUTFHugeWith _ _ _, fun o => if_pos hhuge⟩
    · exact ⟨_, _, uniform_writeUTFWith _ _ _, fun o => if_neg hhuge⟩

namespace StartsWithByte

variable {write : DataOutput → DataOutput} (h : StartsWithByte write)
include h

theorem uniform : Uniform write := by
  obtain ⟨b, f, hf, hwrite⟩ := h
  rw [funext hwrite]
  exact (uniform_write b).comp hf

theorem length_lt (o : DataOutput) : o.bytes.length < (write o).bytes.length := by
  obtain ⟨b, f, ⟨bs, hbs⟩, hwrite⟩ := h
  rw [hwrite, hbs, bytes_write, List.length_append, List.length_append, List.length_singleton]
  omega

end StartsWithByte

section
variable {Obj : Type} (objects : Objects Obj)

theorem uniform_writeObject (value : Option Obj) :
    Uniform fun o => Pdx.writeObject objects o value := by
  cases value with
  | none => exact uniform_write _
  | some v => exact Uniform.foldl uniform_write (objects.bytes v)

theorem uniform_writeArrayHead (size : Nat) (className : List Byte) :
    Uniform fun o => writeArrayHead o size className :=
  (((uniform_writeArrayLen _).comp (uniform_write _)).comp (uniform_write _)).comp
    (uniform_writeASCII _ _)

end

/-! ### Fields -/

/-- What a write does to every writer: it emits a field with these bytes or, for `none`, it has no
result. -/
def Writes (write : PdxLocalWriter → Option PdxLocalWriter) (isVariable : Bool) :
    Option (List Byte) → Prop
  | none => ∀ w, write w = none
  | some bs => ∀ w, ∃ w', write w = some w' ∧ Emitted w w' isVariable bs

/-- A writer at the start of an empty output. -/
def blank : PdxLocalWriter := ⟨⟨[], 8192, false⟩, PdxType.new "" false, 0, []⟩

/-- The bytes of a write, read off an empty output. -/
def written (write : PdxLocalWriter → Option PdxLocalWriter) : Option (List Byte) :=
  (write blank).map fun w => w.dataOutput.bytes

theorem Writes.written_eq {write : PdxLocalWriter → Option PdxLocalWriter} {isVariable : Bool}
    {bytes : Option (List Byte)} (h : Writes write isVariable bytes) : written write = bytes := by
  cases bytes with
  | none => rw [written, h blank, Option.map_none]
  | some bs =>
    obtain ⟨w', hw', hemitted⟩ := h blank
    rw [written, hw', Option.map_some, hemitted.bytes]
    rfl

variable {f : DataOutput → DataOutput}

theorem emitted_emit {bs : List Byte} (h : ∀ o, (f o).bytes = o.bytes ++ bs) (w : PdxLocalWriter) :
    Emitted w (w.emit f) false bs :=
  ⟨h w.dataOutput, rfl, rfl, rfl⟩

theorem writes_bigEndian (n : Nat) {width : Nat} (value : BitVec width) :
    Writes (fun w => some (w.emit fun o => o.writeBigEndian n value)) false
      (some (bigEndian n value)) :=
  fun w => ⟨_, rfl, emitted_emit (fun o => bytes_writeBigEndian o n value) w⟩

theorem writes_variable (h : Uniform f) :
    ∃ bs, Writes (fun w => some (w.addOffset.emit f)) true (some bs) := by
  obtain ⟨bs, hbs⟩ := h
  exact ⟨bs, fun w => ⟨_, rfl, hbs w.dataOutput, rfl, rfl, rfl⟩⟩

theorem writes_writeArray {α : Type} {write : DataOutput → α → DataOutput}
    (h : ∀ a, Uniform fun o => write o a) (array : Option (List α)) (length : Nat) :
    ∃ bs, Writes (fun w => some (w.writeArray write array length)) true (some bs) := by
  cases array with
  | none => exact writes_variable (uniform_write 0xFF)
  | some elements =>
    exact writes_variable ((uniform_writeArrayLen _).comp (Uniform.foldl h (elements.take length)))

theorem writes_writeObject {Obj : Type} (objects : Objects Obj) (value : Option Obj) :
    ∃ bytes, Writes (fun w => w.writeObject objects value) true bytes := by
  unfold writeObject
  cases hkind : value.map objects.kind with
  | none =>
    obtain ⟨bs, hbs⟩ := writes_variable (uniform_writeObject objects value)
    exact ⟨some bs, hbs⟩
  | some kind =>
    cases kind with
    | enumeration enumVal =>
      obtain ⟨bs, hbs⟩ := writes_variable
        (((uniform_write GeodeTypeIds.cacheableEnum).comp
          (uniform_write ((enumVal >>> 24).setWidth 8))).comp
            (uniform_writeArrayLen (enumVal &&& 0xFFFFFF)))
      exact ⟨some bs, hbs⟩
    | objectArray elements =>
      simp only
      cases hname : elements.head?.join.bind objects.className with
      | none => exact ⟨none, fun w => rfl⟩
      | some className =>
        obtain ⟨bs, hbs⟩ := writes_variable
          (((uniform_write GeodeTypeIds.cacheableObjectArray).comp
            (uniform_writeArrayHead elements.length className)).comp
              (Uniform.foldl (uniform_writeObject objects) elements))
        exact ⟨some bs, hbs⟩
    | other =>
      obtain ⟨bs, hbs⟩ := writes_variable (uniform_writeObject objects value)
      exact ⟨some bs, hbs⟩

end GeodeNative.Pdx.PdxLocalWriter

namespace GeodeNative.Pdx

open Lib Serialization Serialization.DataOutput PdxLocalWriter

/-- The width of a fixed length type, in bytes. -/
def PdxFieldTypes.width : PdxFieldTypes → Option Nat
  | boolean | byte => some 1
  | char | short => some 2
  | int | float => some 4
  | long | double | date => some 8
  | _ => none

namespace FieldValue

variable {Obj : Type} (env : Environment Obj)

/-- The call of the writer that writes a value of this overload. An array of narrow characters is
the memory of a C string. -/
def write (value : FieldValue Obj) (w : PdxLocalWriter) : Option PdxLocalWriter :=
  match value with
  | boolean value => some (w.writeBoolean value)
  | byte value => some (w.writeByte value)
  | short value => some (w.writeShort value)
  | int value => some (w.writeInt value)
  | long value => some (w.writeLong value)
  | float value => some (w.writeFloat value)
  | double value => some (w.writeDouble value)
  | wideChar value => some (w.writeWideChar value)
  | char value => some (w.writeChar value)
  | date value => some (w.writeDate value)
  | object value => w.writeObject env.toObjects value
  | objectArray value => some (w.writeObjectArray env.toObjects value)
  | booleanArray value length => some (w.writeBooleanArray value length)
  | byteArray value length => some (w.writeByteArray value length)
  | shortArray value length => some (w.writeShortArray value length)
  | intArray value length => some (w.writeIntArray value length)
  | longArray value length => some (w.writeLongArray value length)
  | floatArray value length => some (w.writeFloatArray value length)
  | doubleArray value length => some (w.writeDoubleArray value length)
  | wideCharArray value length => some (w.writeWideCharArray value length)
  | charArray value length => some (w.writeCharArray (value.map memory) length)
  | wideString value => some (w.writeWideString value)
  | string value => some (w.writeString value)
  | arrayOfByteArrays value arrayLength => some (w.writeArrayOfByteArrays value arrayLength)
  | wideStringArray value length => some (w.writeWideStringArray value length)
  | stringArray value length => some (w.writeStringArray value length)

/-- The bytes of the value, as the writer has them. -/
def encoding (value : FieldValue Obj) : Option (List Byte) := written (value.write env)

variable (value : FieldValue Obj)

/-- Each overload writes one field of its type. The width of a fixed length type is the number of
bytes. -/
theorem writes_write :
    ∃ bytes, Writes (value.write env) value.fieldType.width.isNone bytes ∧
      ∀ n, value.fieldType.width = some n → ∃ bs, bytes = some bs ∧ bs.length = n := by
  -- a fixed length field has its bytes named, a variable length field has some bytes
  have hfixed : ∀ {write : PdxLocalWriter → Option PdxLocalWriter} {bs : List Byte} {n : Nat},
      Writes write false (some bs) → bs.length = n → ∃ bytes, Writes write false bytes ∧
        ∀ m, some n = some m → ∃ bs, bytes = some bs ∧ bs.length = m := by
    intro write bs n hwrites hlen
    exact ⟨some bs, hwrites, fun m hm => ⟨bs, rfl, hlen.trans (Option.some.inj hm)⟩⟩
  have hvariable : ∀ {write : PdxLocalWriter → Option PdxLocalWriter},
      (∃ bs, Writes write true (some bs)) → ∃ bytes, Writes write true bytes ∧
        ∀ m, none = some m → ∃ bs, bytes = some bs ∧ bs.length = m := by
    intro write hbs
    obtain ⟨bs, hwrites⟩ := hbs
    exact ⟨some bs, hwrites, fun m hm => nomatch hm⟩
  cases value with
  | boolean | byte =>
    exact hfixed (fun w => ⟨_, rfl, emitted_emit (fun o => bytes_write o _) w⟩) rfl
  | short | int | long | float | double | wideChar | char | date =>
    exact hfixed (writes_bigEndian _ _) (length_bigEndian _ _)
  | object value =>
    obtain ⟨bytes, hbytes⟩ := writes_writeObject env.toObjects value
    exact ⟨bytes, hbytes, fun m hm => nomatch hm⟩
  | objectArray value =>
    cases value with
    | none => exact hvariable (writes_variable (uniform_write 0xFF))
    | some elements =>
      exact hvariable (writes_variable ((uniform_writeArrayHead _ _).comp
        (Uniform.foldl (uniform_writeObject env.toObjects) elements)))
  | booleanArray => exact hvariable (writes_writeArray (fun _ => uniform_write _) _ _)
  | byteArray => exact hvariable (writes_writeArray uniform_write _ _)
  | shortArray | intArray | longArray | floatArray | doubleArray | wideCharArray | charArray =>
    exact hvariable (writes_writeArray (fun _ => uniform_writeBigEndian _ _) _ _)
  | wideString value =>
    exact hvariable (writes_variable (startsWithByte_writeWideString value).uniform)
  | string value => exact hvariable (writes_variable (startsWithByte_writeString value).uniform)
  | arrayOfByteArrays value arrayLength =>
    exact hvariable (writes_writeArray (fun a => uniform_writeBytes _ _) value arrayLength)
  | wideStringArray value length =>
    exact hvariable
      (writes_writeArray (fun a => (startsWithByte_writeWideString a).uniform) value length)
  | stringArray value length =>
    exact hvariable
      (writes_writeArray (fun a => (startsWithByte_writeString a).uniform) value length)

theorem length_encoding {n : Nat} (hn : value.fieldType.width = some n) :
    ∃ bs, value.encoding env = some bs ∧ bs.length = n := by
  obtain ⟨bytes, hwrites, hlen⟩ := writes_write env value
  rw [encoding, hwrites.written_eq]
  exact hlen n hn

end FieldValue

end GeodeNative.Pdx

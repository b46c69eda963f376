import GeodeNative.Proofs.Pdx.InstanceStream

/-!
# The values that are set

A field that was set should hold the bytes that the writer has for a value of the overload
(`FieldValue.encoding`). Between the call and the stream the value is kept as a `Cacheable`, and
some values get lost there: a null pointer counts as no new value at all, `writeField` cuts a wide
character to its low byte, an array without elements becomes a null array, and a call with an array
of no strings is passed over. `FieldValue.Kept` says which values are written as they were set, and
`kept_iff` that a run of calls leaves the bytes of its last value for exactly these.
-/

set_option autoImplicit false

namespace GeodeNative.Pdx

open Lib Serialization Serialization.DataOutput
open PdxLocalWriter List CacheableString FieldValue

variable {Obj : Type}

/-! ### What becomes of a value -/

variable {bs : List Byte} {v : FieldValue Obj}

namespace Cacheable

/-- The type of the fields that hold a value of this class. -/
def fieldType : Cacheable Obj → PdxFieldTypes
  | boolean _ => .boolean
  | byte _ => .byte
  | int16 _ => .short
  | int32 _ => .int
  | int64 _ => .long
  | float _ => .float
  | double _ => .double
  | wideChar _ => .char
  | date _ => .date
  | string _ => .string
  | booleanArray _ => .booleanArray
  | charArray _ => .charArray
  | bytes _ => .byteArray
  | int16Array _ => .shortArray
  | int32Array _ => .intArray
  | int64Array _ => .longArray
  | floatArray _ => .floatArray
  | doubleArray _ => .doubleArray
  | stringArray _ => .stringArray
  | vectorOfBytes _ => .arrayOfByteArrays
  | objectArray _ => .objectArray
  | object _ => .object

/-- The value that `writeField` hands to the writer. -/
def rewritten : Cacheable Obj → Option (FieldValue Obj)
  | boolean value => some (.boolean value)
  | byte value => some (.byte value)
  | int16 value => some (.short value)
  | int32 value => some (.int value)
  | int64 value => some (.long value)
  | float value => some (.float value)
  | double value => some (.double value)
  | wideChar value => some (.char (value.setWidth 8))
  | date timevalue => some (.date (some timevalue))
  | string (.narrow value) => some (.string (some value))
  | string (.wide value) => some (.wideString (some value))
  | booleanArray a => some (.booleanArray a.value a.length)
  | charArray a => some (.wideCharArray a.value a.length)
  | bytes a => some (.byteArray a.value a.length)
  | int16Array a => some (.shortArray a.value a.length)
  | int32Array a => some (.intArray a.value a.length)
  | int64Array a => some (.longArray a.value a.length)
  | floatArray a => some (.floatArray a.value a.length)
  | doubleArray a => some (.doubleArray a.value a.length)
  | stringArray elements =>
    match elements.head? with
    | some (some (.narrow _)) => (elements.mapM asChar).map fun strings =>
        .stringArray (some (strings.map some)) elements.length
    | some (some (.wide _)) => (elements.mapM asWChar).map fun strings =>
        .wideStringArray (some (strings.map some)) elements.length
    | _ => none
  | vectorOfBytes elements => (elements.mapM id).map fun arrays =>
      .arrayOfByteArrays (some (arrays.map fun a => (a.value, a.length))) elements.length
  | objectArray elements => some (.objectArray (some elements))
  | object value => some (.object (some value))

variable {c : Cacheable Obj}

/-- It is a value for a field of the same type. -/
theorem fieldType_rewritten (h : c.rewritten = some v) : v.fieldType = c.fieldType := by
  cases c with
  | string value => cases value <;> cases h <;> rfl
  | stringArray elements =>
    simp only [rewritten] at h
    split at h
    · obtain ⟨strings, -, rfl⟩ := Option.map_eq_some_iff.mp h
      rfl
    · obtain ⟨strings, -, rfl⟩ := Option.map_eq_some_iff.mp h
      rfl
    · cases h
  | vectorOfBytes elements =>
    obtain ⟨arrays, -, rfl⟩ := Option.map_eq_some_iff.mp h
    rfl
  | _ =>
    cases h
    rfl

variable (env : Environment Obj)

theorem writeField_eq {typeId : BitVec 8} (h : PdxFieldTypes.ofTypeId typeId = some c.fieldType)
    (w : PdxLocalWriter) :
    PdxInstanceImpl.writeField env w typeId (some c) = c.rewritten.bind fun v => v.write env w := by
  unfold PdxInstanceImpl.writeField
  rw [h]
  cases c with
  | string value => cases value <;> rfl
  | stringArray elements =>
    simp only [fieldType, rewritten]
    -- the first element decides
    cases elements.head? with
    | none => rfl
    | some first =>
      cases first with
      | none => rfl
      | some string =>
        cases string with
        | narrow value => cases elements.mapM asChar <;> rfl
        | wide value => cases elements.mapM asWChar <;> rfl
  | vectorOfBytes elements =>
    simp only [fieldType, rewritten]
    cases elements.mapM id <;> rfl
  | _ => rfl

/-- The bytes of the value in a stream. -/
def encoding (c : Cacheable Obj) : Option (List Byte) := c.rewritten.bind fun v => v.encoding env

theorem writes_writeField {typeId : BitVec 8}
    (h : PdxFieldTypes.ofTypeId typeId = some c.fieldType) :
    Writes (fun w => PdxInstanceImpl.writeField env w typeId (some c)) c.fieldType.width.isNone
      (c.encoding env) := by
  have hwrite : (fun w => PdxInstanceImpl.writeField env w typeId (some c)) =
      fun w => c.rewritten.bind fun v => v.write env w :=
    funext fun w => writeField_eq env h w
  rw [hwrite, encoding]
  cases hv : c.rewritten with
  | none => exact fun w => rfl
  | some v =>
    rw [← fieldType_rewritten hv]
    obtain ⟨bytes, hwrites, -⟩ := v.writes_write env
    show PdxLocalWriter.Writes _ _ (v.encoding env)
    rw [FieldValue.encoding, hwrites.written_eq]
    exact hwrites

theorem length_encoding {n : Nat} (hn : c.fieldType.width = some n)
    (hbs : c.encoding env = some bs) : bs.length = n := by
  obtain ⟨v, hv, hencoding⟩ := Option.bind_eq_some_iff.mp hbs
  rw [← fieldType_rewritten hv] at hn
  obtain ⟨bs', hbs', hlength⟩ := v.length_encoding env hn
  rw [hencoding, Option.some.injEq] at hbs'
  rw [hbs']
  exact hlength

end Cacheable

/-! ### Values that are written as they were set -/

/-- An array is kept when it has elements. A null array is kept when the field was null before. -/
def ArrayKept {α : Type} (old : List Byte) (value : Option (List α)) (length : Nat) : Prop :=
  match value with
  | none => old = [0xFF]
  | some _ => 0 < length

/-- An object is kept when the writer can write it: it needs the class name of the first element of
an array of objects. -/
def ObjectKept (objects : Objects Obj) (value : Obj) : Prop :=
  match objects.kind value with
  | .objectArray elements => (elements.head?.join.bind objects.className).isSome
  | _ => True

namespace FieldValue

/-- A call with an array of no strings is passed over. -/
def Ignored : FieldValue Obj → Prop
  | wideStringArray _ length | stringArray _ length => length = 0
  | _ => False

/-- An array of strings is kept when it has elements and none of them is null. Without elements the
field must be as if it was set already, and must not have been set before. -/
def StringsKept {C : Type} (old : List Byte) (earlier : List (FieldValue Obj))
    (value : Option (List (Option (List C)))) (length : Nat) : Prop :=
  if length = 0 then
    (∀ u ∈ earlier, u.Ignored) ∧ old = if value.isNone then [0xFF] else [0]
  else ∀ e ∈ (value.getD []).take length, e.isSome

/-- The value is in the stream as it was set. `old` are the bytes that the field had, and `earlier`
are the values that were set for it before. -/
def Kept (env : Environment Obj) (old : List Byte) (earlier : List (FieldValue Obj)) :
    FieldValue Obj → Prop
  | boolean _ | byte _ | short _ | int _ | long _ | float _ | double _ | char _ => True
  | wideChar value => value.setWidth 16 = (value.setWidth 8).signExtend 16
  | date value => value.isNone → old = replicate 8 0xFF
  | object none => old = [GeodeTypeIds.nullObj]
  | object (some value) => ObjectKept env.toObjects value
  | objectArray value => value.isNone → old = [0xFF]
  | booleanArray value length => ArrayKept old value length
  | byteArray value length => ArrayKept old value length
  | shortArray value length => ArrayKept old value length
  | intArray value length => ArrayKept old value length
  | longArray value length => ArrayKept old value length
  | floatArray value length => ArrayKept old value length
  | doubleArray value length => ArrayKept old value length
  | wideCharArray value length => ArrayKept old value length
  | charArray value length =>
    0 < length ∧
      (value.map env.mbstowcs).map (fun chars => (chars.take length).map (·.setWidth 16)) =
      (value.map memory).map fun chars => (chars.take length).map (·.signExtend 16)
  | wideString value => value.isNone → old = [GeodeTypeIds.cacheableNullString]
  | string value => value.isNone → old = [GeodeTypeIds.cacheableNullString]
  | arrayOfByteArrays value arrayLength =>
    value.isSome ∧ ∀ e ∈ (value.getD []).take arrayLength, e.1.isSome
  | wideStringArray value length => StringsKept old earlier value length
  | stringArray value length => StringsKept old earlier value length

end FieldValue

/-! #### Arrays -/

theorem both_iff {a b : List Byte} : (∃ bs, some a = some bs ∧ some b = some bs) ↔ a = b := by
  simp [eq_comm]

section
variable {α : Type} (write : DataOutput → α → DataOutput)

theorem written_writeArray_none (length : Nat) :
    written (fun w => some (w.writeArray write none length)) = some [0xFF] := by
  show some (DataOutput.write _ 0xFF).bytes = _
  rfl

theorem written_writeArray_zero (elements : List α) :
    written (fun w => some (w.writeArray write (some elements) 0)) = some [0] := by
  show some (DataOutput.writeArrayLen _ 0).bytes = _
  rfl

theorem written_writeArray_some {encode : α → List Byte}
    (h : ∀ o a, (write o a).bytes = o.bytes ++ encode a) (elements : List α) (length : Nat) :
    written (fun w => some (w.writeArray write (some elements) length)) =
      some (arrayLenBytes (BitVec.ofNat 32 length) ++ (elements.take length).flatMap encode) := by
  show some ((elements.take length).foldl write (DataOutput.writeArrayLen _ _)).bytes = _
  rw [bytes_foldl _ h, (appends_writeArrayLen _).bytes]
  rfl

theorem writeArray_take (w : PdxLocalWriter) (elements : List α) (length : Nat) :
    w.writeArray write (some (elements.take length)) length =
      w.writeArray write (some elements) length := by
  simp only [writeArray, take_take, Nat.min_self]

/-- The copies: of a null array, of an array without elements, and of one that is long enough. -/
theorem create_ok {value : Option (List α)} {length : Nat} {stored : Option (CacheableArray α)}
    (h : CacheableArray.create value length = .ok stored) :
    value = none ∧ stored = none ∨ ∃ elements, value = some elements ∧
      (length = 0 ∧ stored = some ⟨none, 0⟩ ∨
        0 < length ∧ length ≤ elements.length ∧
          stored = some ⟨some (elements.take length), length⟩) := by
  cases value with
  | none =>
    cases h
    exact .inl ⟨rfl, rfl⟩
  | some elements =>
    refine .inr ⟨elements, rfl, ?_⟩
    simp only [CacheableArray.create] at h
    split at h
    · cases h
      exact .inl ⟨‹_›, rfl⟩
    · split at h <;> cases h
      exact .inr ⟨by omega, by omega, rfl⟩

end

/-! #### Arrays of pointers -/

variable {α : Type} {length : Nat} {l : List (Option (List Byte) × Nat)}
  {stored : List (Option (CacheableArray Byte))} {p : Option (Cacheable Obj)}

theorem mapM_id_iff {l : List (Option α)} {xs : List α} :
    l.mapM id = some xs ↔ l = xs.map some := by
  rw [mapM_eq_some, ← forall₂_eq_eq_eq, forall₂_map_right_iff]
  rfl

/-- The first string decides about the array. -/
theorem rewritten_narrow {l : List (Option (List Byte))} (hl : l ≠ []) :
    (Cacheable.stringArray (l.map create) : Cacheable Obj).rewritten =
      (l.mapM id).map fun strings => .stringArray (some (strings.map some)) l.length := by
  have hback : asChar ∘ create = id := by
    funext e
    cases e <;> rfl
  cases l with
  | nil => exact absurd rfl hl
  | cons e l =>
    simp only [Cacheable.rewritten, mapM_map, hback, length_map]
    cases e <;> rfl

@[inherit_doc rewritten_narrow] theorem rewritten_wide {l : List (Option (List WChar))}
    (hl : l ≠ []) :
    (Cacheable.stringArray (l.map createWide) : Cacheable Obj).rewritten =
      (l.mapM id).map fun strings => .wideStringArray (some (strings.map some)) l.length := by
  have hback : asWChar ∘ createWide = id := by
    funext e
    cases e <;> rfl
  cases l with
  | nil => exact absurd rfl hl
  | cons e l =>
    simp only [Cacheable.rewritten, mapM_map, hback, length_map]
    cases e <;> rfl

variable {write : DataOutput → α → DataOutput}

theorem encoding_writeArray {env : Environment Obj} {array : Option (List α)}
    (h : ∀ w, v.write env w = some (w.writeArray write array length)) :
    v.encoding env = written fun w => some (w.writeArray write array length) :=
  congrArg written (funext h)

theorem found_of_encoding {β : Type} {env : Environment Obj} {c : Cacheable Obj} {found : Option β}
    {f : β → FieldValue Obj} (hc : c.rewritten = found.map f) (h : c.encoding env = some bs) :
    ∃ x, found = some x := by
  rw [Cacheable.encoding, hc] at h
  cases found with
  | none => cases h
  | some x => exact ⟨x, rfl⟩

variable {bytes : Option (List Byte)}

/-- A byte array that was copied is written as the array itself. -/
theorem writeBytes_create {a : CacheableArray Byte}
    (h : CacheableArray.create bytes length = .ok (some a)) (o : DataOutput) :
    o.writeBytes a.value (BitVec.ofNat 32 a.length) =
      o.writeBytes bytes (BitVec.ofNat 32 length) := by
  rcases create_ok h with ⟨-, hnone⟩ | ⟨elements, rfl, ⟨rfl, hcopy⟩ | ⟨-, hlen, hcopy⟩⟩
  · cases hnone
  · cases hcopy
    rfl
  · cases hcopy
    -- the length fits in the copy, so that both copies take the same bytes
    have hle : (BitVec.ofNat 32 length).toNat ≤ length := by
      exact Nat.mod_le _ _
    have hcopy : ∀ o : DataOutput, o.copy (elements.take length) (BitVec.ofNat 32 length).toNat =
        o.copy elements (BitVec.ofNat 32 length).toNat := by
      intro o
      have hfull : ¬ (elements.take length).length < (BitVec.ofNat 32 length).toNat := by
        rw [length_take]
        omega
      have hfull' : ¬ elements.length < (BitVec.ofNat 32 length).toNat := by omega
      simp only [copy, take_take, Nat.min_eq_left hle, decide_eq_false hfull,
        decide_eq_false hfull']
    simp only [writeBytes, hcopy]

theorem isSome_stored
    (h : List.Forall₂ (fun e s => CacheableArray.create e.1 e.2 = .ok s) l stored) :
    (∀ s ∈ stored, s.isSome) ↔ ∀ e ∈ l, e.1.isSome := by
  induction h with
  | nil => simp
  | @cons e s l m hes _ ih =>
    have hfirst : s.isSome = e.1.isSome := by
      rcases create_ok hes with ⟨hvalue, rfl⟩ | ⟨elements, hvalue, ⟨-, rfl⟩ | ⟨-, -, rfl⟩⟩ <;>
        rw [hvalue] <;> rfl
    rw [forall_mem_cons, forall_mem_cons, ih, hfirst]

/-- The copies are written as the arrays themselves. -/
theorem foldl_writeBytes {arrays : List (CacheableArray Byte)}
    (h : List.Forall₂ (fun e s => CacheableArray.create e.1 e.2 = .ok s) l (arrays.map some))
    (o : DataOutput) :
    (arrays.map fun a => (a.value, a.length)).foldl
        (fun o e => o.writeBytes e.1 (BitVec.ofNat 32 e.2)) o =
      l.foldl (fun o e => o.writeBytes e.1 (BitVec.ofNat 32 e.2)) o := by
  induction arrays generalizing l o with
  | nil =>
    cases h
    rfl
  | cons a arrays ih =>
    cases h with
    | cons hes htail =>
      rw [map_cons, foldl_cons, writeBytes_create hes]
      exact ih htail _

variable (env : Environment Obj)

theorem byteArraysKept_iff {elements : List (Option (List Byte) × Nat)}
    (hlength : length ≤ elements.length)
    (h : List.Forall₂ (fun e s => CacheableArray.create e.1 e.2 = .ok s) (elements.take length)
      stored) :
    (∃ bs, (Cacheable.vectorOfBytes stored).encoding env = some bs ∧
      (arrayOfByteArrays (some elements) length).encoding env = some bs) ↔
      ∀ e ∈ elements.take length, e.1.isSome := by
  have hcount : stored.length = length := by
    rw [← h.length_eq, length_take_of_le hlength]
  rw [← isSome_stored h]
  refine Iff.trans ?_ (exists_mapM (f := id))
  constructor
  · rintro ⟨bs, hbs, -⟩
    exact found_of_encoding rfl hbs
  · rintro ⟨arrays, harrays⟩
    have hall := mapM_id_iff.mp harrays
    rw [Cacheable.encoding, Cacheable.rewritten, harrays, Option.map_some, hcount]
    rw [hall] at h
    have htake : (arrays.map fun a => (a.value, a.length)).take length =
        arrays.map fun a => (a.value, a.length) := by
      refine take_of_length_le ?_
      rw [length_map, ← hcount, hall, length_map]
    have hwrites : ∀ w : PdxLocalWriter,
        w.writeArrayOfByteArrays (some (arrays.map fun a => (a.value, a.length))) length =
          w.writeArrayOfByteArrays (some elements) length := by
      intro w
      simp only [writeArrayOfByteArrays, writeArray, htake, foldl_writeBytes h]
    refine ⟨_, rfl, ?_⟩
    exact congrArg (fun w => some w.dataOutput.bytes) (hwrites blank).symm

/-! #### All values -/

/-- The bytes of a field for which a value waits, or none. -/
def settled (env : Environment Obj) (old : List Byte) : Option (Cacheable Obj) → Option (List Byte)
  | some c => c.encoding env
  | none => some old

theorem same_iff (h : ∃ bs, bytes = some bs) : (∃ bs, bytes = some bs ∧ bytes = some bs) ↔ True :=
  ⟨fun _ => trivial, fun _ => h.imp fun _ hbs => ⟨hbs, hbs⟩⟩

theorem null_iff {old new : List Byte} (hnew : bytes = some new) {P : Prop} (hP : P ↔ old = new) :
    (∃ bs, some old = some bs ∧ bytes = some bs) ↔ P := by
  rw [hP, hnew, both_iff]

/-- What `toCacheable` makes of a value, if anything. -/
abbrev Entered (Obj : Type) := Option (Option (Cacheable Obj))

variable {r : Entered Obj}

section
variable {F : CacheableArray α → Cacheable Obj} {value : Option (List α)}

/-- What the overloads for arrays of scalars enter. -/
def enterArray (F : CacheableArray α → Cacheable Obj) (value : Option (List α)) (length : Nat) :
    Except ReadError (Entered Obj) := do
  return some ((← CacheableArray.create value length).map F)

theorem enterArray_ok (h : enterArray F value length = .ok r) :
    ∃ stored, CacheableArray.create value length = .ok stored ∧ r = some (stored.map F) := by
  obtain ⟨stored, hstored, hr⟩ := ok_of_bind h
  cases hr
  exact ⟨stored, hstored, rfl⟩

theorem arrayField_iff (write : DataOutput → α → DataOutput)
    {V : Option (List α) → Nat → FieldValue Obj}
    (hF : ∀ a, (F a).rewritten = some (V a.value a.length))
    (hV : ∀ array n w, (V array n).write env w = some (w.writeArray write array n))
    (h : enterArray F value length = .ok (some p)) (old : List Byte) :
    (∃ bs, settled env old p = some bs ∧ (V value length).encoding env = some bs) ↔
      ArrayKept old value length := by
  have hsettled : ∀ a, settled env old (some (F a)) =
      written fun w => some (w.writeArray write a.value a.length) := by
    intro a
    rw [← encoding_writeArray (hV _ _), settled, Cacheable.encoding, hF, Option.bind_some]
  obtain ⟨stored, hstored, hp⟩ := enterArray_ok h
  cases hp
  rw [encoding_writeArray (hV value length)]
  rcases create_ok hstored with ⟨rfl, rfl⟩ | ⟨elements, rfl, ⟨rfl, rfl⟩ | ⟨hpos, -, rfl⟩⟩
  · rw [written_writeArray_none]
    exact both_iff
  · -- an array without elements is stored without memory, and written as null
    rw [Option.map_some, hsettled, written_writeArray_none, written_writeArray_zero, both_iff]
    exact iff_of_false (by decide) (Nat.lt_irrefl 0)
  · rw [Option.map_some, hsettled]
    simp only [writeArray_take]
    exact ⟨fun _ => hpos, fun _ => ⟨_, rfl, rfl⟩⟩

end

/-- Words of two bytes are told apart by their bytes. -/
theorem bigEndian_two_inj {v v' : BitVec 16} (h : bigEndian 2 v = bigEndian 2 v') : v = v' := by
  have hword := congrArg (ofBigEndian (8 * 2)) h
  rwa [ofBigEndian_bigEndian, ofBigEndian_bigEndian] at hword

theorem flatMap_bigEndian_inj {l m : List (BitVec 16)}
    (h : l.flatMap (bigEndian 2) = m.flatMap (bigEndian 2)) : l = m := by
  induction l generalizing m with
  | nil =>
    cases m with
    | nil => rfl
    | cons v m => cases h
  | cons u l ih =>
    cases m with
    | nil => cases h
    | cons v m =>
      obtain ⟨hhead, htail⟩ := append_inj h (by rw [length_bigEndian, length_bigEndian])
      rw [bigEndian_two_inj hhead, ih htail]

/-- The overload for an array of narrow characters, which is kept as wide characters. -/
theorem charArray_iff {value : List Byte}
    (h : (charArray (some value) length).toCacheable env = .ok (some p)) (old : List Byte) :
    (∃ bs, settled env old p = some bs ∧
      (charArray (some value) length).encoding env = some bs) ↔
      0 < length ∧ ((env.mbstowcs value).take length).map (BitVec.setWidth 16) =
        ((memory value).take length).map (BitVec.signExtend 16) := by
  have hnarrow : (charArray (some value) length : FieldValue Obj).encoding env =
      some (arrayLenBytes (BitVec.ofNat 32 length) ++
        (((memory value).take length).map (BitVec.signExtend 16)).flatMap (bigEndian 2)) := by
    have hwrite : ∀ (o : DataOutput) (c : Byte), (o.writeInt16 (c.signExtend 16)).bytes =
        o.bytes ++ bigEndian 2 (c.signExtend 16) := fun o c => bytes_writeBigEndian o 2 _
    rw [flatMap_map]
    exact written_writeArray_some _ hwrite (memory value) length
  rw [hnarrow]
  obtain ⟨stored, hstored, hp⟩ := enterArray_ok h
  cases hp
  rcases create_ok hstored with ⟨hnull, -⟩ | ⟨wide, hwide, ⟨rfl, rfl⟩ | ⟨hpos, -, rfl⟩⟩
  · cases hnull
  · -- without elements null is written
    rw [Option.map_some, show settled env old (some (.charArray ⟨none, 0⟩)) = some [0xFF] from
      written_writeArray_none _ 0, both_iff, take_zero]
    exact iff_of_false (by decide) fun h => Nat.lt_irrefl 0 h.1
  · cases hwide
    have hsettled : settled env old (some (.charArray ⟨some ((env.mbstowcs value).take length),
        length⟩)) = some (arrayLenBytes (BitVec.ofNat 32 length) ++
          (((env.mbstowcs value).take length).map (BitVec.setWidth 16)).flatMap (bigEndian 2)) := by
      have hwrite : ∀ (o : DataOutput) (c : WChar), (o.writeInt16 (c.setWidth 16)).bytes =
          o.bytes ++ bigEndian 2 (c.setWidth 16) := fun o c => bytes_writeBigEndian o 2 _
      rw [flatMap_map, ← written_writeArray_some _ hwrite]
      simp only [← writeArray_take _ _ (env.mbstowcs value)]
      rfl
    rw [Option.map_some, hsettled, both_iff, and_iff_right hpos]
    exact ⟨fun h => flatMap_bigEndian_inj (append_cancel_left h), fun h => by rw [h]⟩

/-- The overload for wide characters: the writer gets the low byte, and extends its sign. -/
theorem wideChar_iff (value : WChar) :
    (∃ bs, (char (value.setWidth 8) : FieldValue Obj).encoding env = some bs ∧
      (wideChar value : FieldValue Obj).encoding env = some bs) ↔
      value.setWidth 16 = (value.setWidth 8).signExtend 16 := by
  have hchar : (char (value.setWidth 8) : FieldValue Obj).encoding env =
      some (bigEndian 2 ((value.setWidth 8).signExtend 16)) :=
    (writes_bigEndian 2 ((value.setWidth 8).signExtend 16)).written_eq
  have hwide : (wideChar value : FieldValue Obj).encoding env =
      some (bigEndian 2 (value.setWidth 16)) :=
    (writes_bigEndian 2 (value.setWidth 16)).written_eq
  rw [hchar, hwide, both_iff]
  exact ⟨fun h => (bigEndian_two_inj h).symm, fun h => by rw [h]⟩

theorem object_iff (value : Obj) :
    (∃ bs, (object (some value)).encoding env = some bs) ↔
      ObjectKept env.toObjects value := by
  show (∃ bs, (PdxLocalWriter.writeObject env.toObjects blank (some value)).map _ = some bs) ↔ _
  unfold ObjectKept PdxLocalWriter.writeObject
  simp only [Option.map_some]
  cases env.kind value with
  | enumeration | other => exact ⟨fun _ => trivial, fun _ => ⟨_, rfl⟩⟩
  | objectArray elements =>
    simp only
    cases elements.head?.join.bind env.className with
    | none => exact ⟨fun ⟨_, hbs⟩ => (nomatch hbs), fun hsome => (nomatch hsome)⟩
    | some className => exact ⟨fun _ => rfl, fun _ => ⟨_, rfl⟩⟩

theorem visitElements_ok {value : Option (List α)} {visited : List α}
    (h : visitElements value length = .ok visited) :
    (value = none ∧ length = 0 ∧ visited = []) ∨
      ∃ elements, value = some elements ∧ length ≤ elements.length ∧
        visited = elements.take length := by
  unfold visitElements at h
  cases value with
  | none =>
    simp only at h
    split at h
    · cases h
      exact .inl ⟨rfl, ‹_›, rfl⟩
    · cases h
  | some elements =>
    simp only at h
    split at h
    · cases h
    · cases h
      exact .inr ⟨elements, rfl, by omega, rfl⟩

variable {value : Option (List (Option (List Byte) × Nat))}

theorem toCacheable_byteArrays {r : Option (Option (Cacheable Obj))}
    (h : (arrayOfByteArrays value length).toCacheable env = .ok r) :
    ∃ visited stored, visitElements value length = .ok visited ∧
      List.Forall₂ (fun e s => CacheableArray.create e.1 e.2 = .ok s) visited stored ∧
      r = some (some (.vectorOfBytes stored)) := by
  obtain ⟨visited, hvisit, hrest⟩ := ok_of_bind h
  obtain ⟨stored, hstored, hr⟩ := ok_of_bind hrest
  cases hr
  exact ⟨visited, stored, hvisit, ok_of_mapM hstored, rfl⟩

section
variable {C : Type} {create : Option (List C) → Option CacheableString}
  {value : Option (List (Option (List C)))}

/-- What the overloads for arrays of strings enter. -/
def enterStrings (create : Option (List C) → Option CacheableString)
    (value : Option (List (Option (List C)))) (length : Nat) : Except ReadError (Entered Obj) :=
  if length = 0 then .ok none
  else do
    let elements ← visitElements value length
    return some (some (.stringArray (elements.map create)))

theorem enterStrings_ok (h : enterStrings create value length = .ok r) :
    length = 0 ∧ r = none ∨ length ≠ 0 ∧ ∃ elements, value = some elements ∧
      length ≤ elements.length ∧ elements.take length ≠ [] ∧
      r = some (some (.stringArray ((elements.take length).map create))) := by
  unfold enterStrings at h
  split at h
  · cases h
    exact .inl ⟨‹_›, rfl⟩
  · next hpos =>
    obtain ⟨visited, hvisit, hr⟩ := ok_of_bind h
    cases hr
    rcases visitElements_ok hvisit with ⟨-, hzero, -⟩ | ⟨elements, rfl, hle, rfl⟩
    · exact absurd hzero hpos
    · refine .inr ⟨hpos, elements, rfl, hle, fun hnil => ?_, rfl⟩
      have hlength := length_take_of_le hle
      rw [hnil, length_nil] at hlength
      omega

/-- An array of strings with elements is written as it is when no pointer is null, and otherwise
there is no result. -/
theorem stringArrayField_iff (write : DataOutput → Option (List C) → DataOutput)
    {V : Option (List (Option (List C))) → Nat → FieldValue Obj}
    (hV : ∀ array n w, (V array n).write env w = some (w.writeArray write array n))
    (hrewritten : ∀ l, l ≠ [] → (Cacheable.stringArray (l.map create) : Cacheable Obj).rewritten =
      (l.mapM id).map fun strings => V (some (strings.map some)) l.length)
    (h : enterStrings create value length = .ok (some p)) (old : List Byte)
    (earlier : List (FieldValue Obj)) :
    (∃ bs, settled env old p = some bs ∧ (V value length).encoding env = some bs) ↔
      FieldValue.StringsKept old earlier value length := by
  rcases enterStrings_ok h with ⟨-, hp⟩ | ⟨hpos, elements, rfl, hle, hne, hp⟩
  · cases hp
  · cases hp
    rw [FieldValue.StringsKept, if_neg hpos, Option.getD_some]
    have hc := hrewritten _ hne
    refine Iff.trans ?_ (exists_mapM (f := id))
    constructor
    · rintro ⟨bs, hbs, -⟩
      exact found_of_encoding hc hbs
    · rintro ⟨strings, hstrings⟩
      rw [settled, Cacheable.encoding, hc, hstrings, Option.map_some, Option.bind_some,
        ← mapM_id_iff.mp hstrings, length_take_of_le hle, encoding_writeArray (hV _ _),
        encoding_writeArray (hV _ _)]
      simp only [writeArray_take]
      exact ⟨_, rfl, rfl⟩

end

theorem arrayOfByteArrays_iff (h : (arrayOfByteArrays value length).toCacheable env = .ok (some p))
    (old : List Byte) :
    (∃ bs, settled env old p = some bs ∧
      (arrayOfByteArrays value length).encoding env = some bs) ↔
      value.isSome ∧ ∀ e ∈ (value.getD []).take length, e.1.isSome := by
  obtain ⟨visited, stored, hvisit, hstored, hp⟩ := toCacheable_byteArrays env h
  cases hp
  rcases visitElements_ok hvisit with ⟨rfl, rfl, rfl⟩ | ⟨elements, rfl, hle, rfl⟩
  · -- the null pointer with length 0 becomes an array without elements
    cases hstored
    constructor
    · rintro ⟨bs, hsettled, hencoding⟩
      rw [show settled env old (some (.vectorOfBytes [])) = some [0] from
        written_writeArray_zero _ []] at hsettled
      rw [show (arrayOfByteArrays none 0 : FieldValue Obj).encoding env =
        some [0xFF] from written_writeArray_none _ 0, ← hsettled] at hencoding
      exact absurd hencoding (by decide)
    · intro hsome
      cases hsome.1
  · refine (byteArraysKept_iff env hle hstored).trans ?_
    exact ⟨fun hall => ⟨rfl, hall⟩, fun hall => hall.2⟩

namespace FieldValue

variable (env : Environment Obj)

theorem written_null (value : Byte) :
    written (fun w => some (w.addOffset.emit fun o => o.write value)) = some [value] := by
  show some (DataOutput.write _ value).bytes = _
  rfl

/-- A value that is entered in the map: it is in the stream as it was set, or the field is not what
it should be. -/
theorem kept_stored (h : v.toCacheable env = .ok (some p)) (old : List Byte)
    (earlier : List (FieldValue Obj)) :
    (∃ bs, settled env old p = some bs ∧ v.encoding env = some bs) ↔ v.Kept env old earlier := by
  cases v with
  | wideChar value =>
    cases h
    exact wideChar_iff env value
  | char value =>
    cases h
    have hback : ∀ b : Byte, (b.signExtend 32).setWidth 8 = b := by decide
    have hsettled : settled env old (some (.wideChar (value.signExtend 32))) =
        (char value : FieldValue Obj).encoding env := by
      show (char ((value.signExtend 32).setWidth 8) : FieldValue Obj).encoding env = _
      rw [hback]
    rw [hsettled]
    exact same_iff ⟨_, rfl⟩
  | date value =>
    cases h
    cases value with
    | none =>
      exact null_iff (writes_bigEndian 8 (-1 : BitVec 64)).written_eq ⟨fun h => h rfl, fun h _ => h⟩
    | some timevalue => exact ⟨fun _ hnull => (nomatch hnull), fun _ => ⟨_, rfl, rfl⟩⟩
  | object value =>
    cases h
    cases value with
    | none => exact null_iff (written_null _) Iff.rfl
    | some value =>
      exact Iff.trans ⟨fun ⟨bs, hbs, _⟩ => ⟨bs, hbs⟩, fun ⟨bs, hbs⟩ => ⟨bs, hbs, hbs⟩⟩
        (object_iff env value)
  | objectArray value | wideString value | string value =>
    cases h
    cases value with
    | none => exact null_iff (written_null _) ⟨fun h => h rfl, fun h _ => h⟩
    | some value => exact ⟨fun _ hnull => (nomatch hnull), fun _ => ⟨_, rfl, rfl⟩⟩
  | booleanArray | byteArray | shortArray | intArray | longArray | floatArray | doubleArray
  | wideCharArray =>
    exact arrayField_iff env _ (fun _ => rfl) (fun _ _ _ => rfl) h old
  | charArray value length =>
    cases value with
    | none => cases h
    | some value =>
      refine (charArray_iff env h old).trans (and_congr_right fun _ => ?_)
      exact (Option.some_inj).symm
  | arrayOfByteArrays value arrayLength => exact arrayOfByteArrays_iff env h old
  | wideStringArray value length =>
    exact stringArrayField_iff env writeWideStringwithoutOffset (V := .wideStringArray)
      (fun _ _ _ => rfl) (fun _ => rewritten_wide) h old earlier
  | stringArray value length =>
    exact stringArrayField_iff env writeStringwithoutOffset (V := .stringArray)
      (fun _ _ _ => rfl) (fun _ => rewritten_narrow) h old earlier
  | _ =>
    cases h
    exact same_iff ⟨_, rfl⟩

end FieldValue

/-! #### Arrays of no strings -/

/-- An array with elements has a length and at least one more byte. -/
theorem two_le_written (h : ∀ a, StartsWithByte fun o => write o a) {elements : List α}
    (hne : elements ≠ [])
    (hbs : written (fun w => some (w.writeArray write (some elements) elements.length)) = some bs) :
    2 ≤ bs.length := by
  choose encode hencode using fun a => (h a).uniform
  rw [written_writeArray_some write (fun o a => hencode a o), take_length,
    Option.some.injEq] at hbs
  obtain ⟨a, elements, rfl⟩ := exists_cons_of_ne_nil hne
  have hfirst := (h a).length_lt ⟨[], 0, false⟩
  have hlen := (length_arrayLenBytes_bounds (BitVec.ofNat 32 (a :: elements).length)).1
  rw [hencode, length_append] at hfirst
  rw [← hbs, length_append, flatMap_cons, length_append]
  omega

theorem two_le_encoding {elements : List (Option CacheableString)} (hne : elements ≠ [])
    (h : (Cacheable.stringArray elements : Cacheable Obj).encoding env = some bs) :
    2 ≤ bs.length := by
  obtain ⟨v, hv, hbs⟩ := Option.bind_eq_some_iff.mp h
  have hsome : ∀ {C : Type} {f : Option CacheableString → Option C} {strings : List C},
      elements.mapM f = some strings →
        strings.map some ≠ [] ∧ elements.length = (strings.map some).length := by
    intro C f strings hstrings
    have hlength := (mapM_eq_some.mp hstrings).length_eq
    rw [length_map]
    refine ⟨fun hnil => hne ?_, hlength⟩
    rwa [map_eq_nil_iff.mp hnil, length_nil, length_eq_zero_iff] at hlength
  simp only [Cacheable.rewritten] at hv
  split at hv
  · obtain ⟨strings, hstrings, rfl⟩ := Option.map_eq_some_iff.mp hv
    rw [(hsome hstrings).2] at hbs
    exact two_le_written startsWithByte_writeString (hsome hstrings).1 hbs
  · obtain ⟨strings, hstrings, rfl⟩ := Option.map_eq_some_iff.mp hv
    rw [(hsome hstrings).2] at hbs
    exact two_le_written startsWithByte_writeWideString (hsome hstrings).1 hbs
  · cases hv

namespace FieldValue

variable (env : Environment Obj)

/-- What waits for a field after one more call: the call enters its value, or is passed over. -/
def enter (waiting : Option (Option (Cacheable Obj))) (v : FieldValue Obj) :
    Option (Option (Cacheable Obj)) :=
  match v.toCacheable env with
  | .ok (some p) => some p
  | _ => waiting

variable {v : FieldValue Obj}

/-- What a call enters: nothing for an array of no strings, and otherwise a null pointer or an
object of the class for the type. An array of strings that is entered has elements. -/
theorem toCacheable_ok (h : v.toCacheable env = .ok r) :
    r = none ∧ v.fieldType = .stringArray ∧ v.Ignored ∨
      ∃ p, r = some p ∧ ¬ v.Ignored ∧ (∀ c, p = some c → c.fieldType = v.fieldType) ∧
        (v.fieldType = .stringArray → ∃ elements ≠ [], p = some (.stringArray elements)) := by
  have hmap : ∀ {α : Type} {value : Option α} {F : α → Cacheable Obj} {ty : PdxFieldTypes},
      (∀ a, (F a).fieldType = ty) → ∀ c, value.map F = some c → c.fieldType = ty := by
    intro α value F ty hF c hc
    obtain ⟨a, -, rfl⟩ := Option.map_eq_some_iff.mp hc
    exact hF a
  cases v with
  | date | object | objectArray | wideString | string =>
    cases h
    exact .inr ⟨_, rfl, id, hmap fun _ => rfl, nofun⟩
  | charArray value length =>
    cases value with
    | none => cases h
    | some value =>
      obtain ⟨stored, -, rfl⟩ := enterArray_ok h
      exact .inr ⟨_, rfl, id, hmap fun _ => rfl, nofun⟩
  | arrayOfByteArrays value length =>
    obtain ⟨visited, stored, -, -, rfl⟩ := toCacheable_byteArrays env h
    exact .inr ⟨_, rfl, id, fun c hc => by cases hc; rfl, nofun⟩
  | wideStringArray value length | stringArray value length =>
    rcases enterStrings_ok h with ⟨hzero, hr⟩ | ⟨hpos, elements, -, -, hne, hr⟩
    · exact .inl ⟨hr, rfl, hzero⟩
    · exact .inr ⟨_, hr, hpos, fun c hc => by cases hc; rfl,
        fun _ => ⟨_, mt map_eq_nil_iff.mp hne, rfl⟩⟩
  | booleanArray | byteArray | shortArray | intArray | longArray | floatArray | doubleArray
  | wideCharArray =>
    obtain ⟨stored, -, rfl⟩ := enterArray_ok h
    exact .inr ⟨_, rfl, id, hmap fun _ => rfl, nofun⟩
  | _ =>
    cases h
    exact .inr ⟨_, rfl, id, fun c hc => by cases hc; rfl, nofun⟩

/-- What waits in the end is what one of the calls has entered. -/
theorem mem_of_foldl_enter {calls : List (FieldValue Obj)}
    (h : calls.foldl (enter env) none = some p) :
    ∃ v ∈ calls, v.toCacheable env = .ok (some p) := by
  induction calls using reverseRecOn with
  | nil => cases h
  | append_singleton calls u ih =>
    rw [foldl_append, foldl_cons, enter] at h
    split at h
    · rename_i q hq
      cases h
      exact ⟨u, mem_append_right calls mem_cons_self, hq⟩
    · obtain ⟨v, hv, hstored⟩ := ih h
      exact ⟨v, mem_append_left _ hv, hstored⟩

/-- The bytes of an array of no strings, and when a field holds them in the end. -/
theorem encoding_ignored (h : v.Ignored) (old : List Byte) (earlier : List (FieldValue Obj)) :
    ∃ b : Byte, v.encoding env = some [b] ∧
      (v.Kept env old earlier ↔ (∀ u ∈ earlier, u.Ignored) ∧ old = [b]) := by
  cases v with
  | wideStringArray value length | stringArray value length =>
    cases (show length = 0 from h)
    cases value with
    | none => exact ⟨0xFF, written_writeArray_none _ 0, Iff.rfl⟩
    | some elements => exact ⟨0, written_writeArray_zero _ elements, Iff.rfl⟩
  | _ => cases h

/-- After calls with arrays of strings: all of them were passed over, or an array with elements
waits. The induction is on the calls from the last one on. -/
theorem foldl_enter_strings {calls : List (FieldValue Obj)}
    (haccepted : ∀ u ∈ calls, ∃ r, u.toCacheable env = .ok r)
    (htypes : ∀ u ∈ calls, u.fieldType = .stringArray) :
    (∀ u ∈ calls, u.Ignored) ∧ calls.foldl (enter env) none = none ∨
      ¬ (∀ u ∈ calls, u.Ignored) ∧ ∃ elements, elements ≠ [] ∧
        calls.foldl (enter env) none = some (some (.stringArray elements)) := by
  induction calls using reverseRecOn with
  | nil => exact .inl ⟨fun u hu => (nomatch hu), rfl⟩
  | append_singleton calls u ih =>
    have hu : u ∈ calls ++ [u] := mem_append_right calls mem_cons_self
    obtain ⟨r, hr⟩ := haccepted u hu
    rw [foldl_append, foldl_cons, enter, hr]
    rcases toCacheable_ok env hr with ⟨rfl, -, hignored⟩ | ⟨p, rfl, hentered, -, hstrings⟩
    · have hall : (∀ u' ∈ calls ++ [u], u'.Ignored) ↔ ∀ u' ∈ calls, u'.Ignored := by
        rw [forall_mem_append, forall_mem_singleton, and_iff_left hignored]
      rw [hall]
      exact ih (fun u' hu' => haccepted u' (mem_append_left _ hu'))
        fun u' hu' => htypes u' (mem_append_left _ hu')
    · obtain ⟨elements, hne, hp⟩ := hstrings (htypes u hu)
      exact .inr ⟨fun hall => hentered (hall u hu), elements, hne, congrArg some hp⟩

/-- A run of calls on one field leaves the bytes of the last value exactly when this value is
kept. -/
theorem kept_iff {earlier : List (FieldValue Obj)}
    (haccepted : ∀ u ∈ earlier ++ [v], ∃ r, u.toCacheable env = .ok r) {ty : PdxFieldTypes}
    (htypes : ∀ u ∈ earlier ++ [v], u.fieldType = ty) (old : List Byte) :
    (∃ bs, settled env old ((earlier ++ [v]).foldl (enter env) none).join = some bs ∧
      v.encoding env = some bs) ↔ v.Kept env old earlier := by
  have hv : v ∈ earlier ++ [v] := mem_append_right earlier mem_cons_self
  obtain ⟨r, hr⟩ := haccepted v hv
  rw [foldl_append, foldl_cons, enter, hr]
  rcases toCacheable_ok env hr with ⟨rfl, htype, hignored⟩ | ⟨p, rfl, -⟩
  · obtain ⟨one, hencoding, hkept⟩ := encoding_ignored env hignored old earlier
    rw [hencoding, hkept]
    have hstrings := foldl_enter_strings env
      (fun u hu => haccepted u (mem_append_left _ hu)) fun u hu =>
        (htypes u (mem_append_left _ hu)).trans ((htypes v hv).symm.trans htype)
    cases hstrings with
    | inl h =>
      show (∃ bs, settled env old (earlier.foldl (enter env) none).join = some bs ∧ _) ↔ _
      rw [h.2]
      exact null_iff rfl ⟨fun hall => hall.2, fun heq => ⟨h.1, heq⟩⟩
    | inr h =>
      obtain ⟨hnot, elements, hne, hwaiting⟩ := h
      show (∃ bs, settled env old (earlier.foldl (enter env) none).join = some bs ∧ _) ↔ _
      rw [hwaiting]
      constructor
      · rintro ⟨bs, hbs, hone⟩
        -- an array with elements has more than the one byte for none
        have htwo := two_le_encoding env hne hbs
        cases hone
        rw [length_singleton] at htwo
        omega
      · intro hall
        exact absurd hall.1 hnot
  · exact kept_stored env hr old earlier

end FieldValue

end GeodeNative.Pdx

import GeodeNative.Pdx.PdxRemoteReader
import GeodeNative.Proofs.Pdx.TypedWrites
import GeodeNative.Proofs.Serialization.RoundTrip

/-!
# What the reads make of bytes

Every read has bytes that it reads as a value: `reads_blank`. And for every read there are bytes
whose value differs from what the read makes of another field: `exists_misses`. A read of a fixed
length looks at no more than eight bytes, so one of two values differs. The other reads begin with
a type id or a length, and that is enough to tell the results apart.

The writer and the reader of narrow strings choose the encoding each for itself, and agree for ASCII
up to 64K only: `stringReadBack_iff`.
-/

set_option autoImplicit false

namespace GeodeNative.Pdx

open Lib Serialization List PdxLocalReader PdxValue

variable {α : Type}

@[simp] theorem PdxLocalReader.checked_some (name : String) (p : Read α) :
    checked (some name) p = p := by
  rw [checked, checkEmptyFieldName, pure_bind]

/-! ### Reads of a fixed length -/

section
variable {Obj : Type} (others : Byte → Read Obj) (name : String)

/-- A read of `n` bytes: every piece of `n` bytes has a value, and some other piece another one. -/
def ReadsAll (p : Read (PdxValue Obj)) (n : Nat) : Prop :=
  ∃ g : List Byte → PdxValue Obj, (∀ bs, bs.length = n → Reads p bs (g bs)) ∧
    ∀ bs, bs.length = n → ∃ bs', bs'.length = n ∧ g bs' ≠ g bs

variable {others name} {n w : Nat}

/-- Reads of an integer. The value tells neighbours apart. -/
theorem readsAll_of_reads (hw : w = 8 * n) {p : Read (PdxValue Obj)} (F : BitVec w → PdxValue Obj)
    (hp : ∀ bs, bs.length = n → Reads p bs (F (ofBigEndian w bs))) (hF : ∀ x, F (x + 1) ≠ F x) :
    ReadsAll p n := by
  subst hw
  refine ⟨fun bs => F (ofBigEndian (8 * n) bs), hp, ?_⟩
  intro bs _
  refine ⟨bigEndian n (ofBigEndian (8 * n) bs + 1), length_bigEndian _ _, ?_⟩
  simp only [ofBigEndian_bigEndian]
  exact hF _

theorem reads_bigEndian_of_length {bs : List Byte} (hbs : bs.length = n) :
    Reads (DataInput.readBigEndian n w) bs (ofBigEndian w bs) := by
  rw [← hbs]
  exact DataInput.reads_readBigEndian_bytes bs w

theorem reads_signed_of_length {bs : List Byte} (hbs : bs.length = n) :
    Reads (DataInput.readSigned n w) bs (ofBigEndian w bs) :=
  DataInput.reads_check (reads_bigEndian_of_length hbs) (by omega)

theorem succ_ne_self {w : Nat} (hw : 0 < w) (x : BitVec w) : x + 1 ≠ x := by
  intro h
  have hzero : w = 0 := by simpa using h
  omega

/-- The reads of a fixed length read their number of bytes, whatever they are. -/
theorem readsAll_fixed (others : Byte → Read Obj) (name : String) {c : PdxRead} {n : Nat}
    (hn : c.fieldType.width = some n) : ReadsAll (c.localRead others (some name)) n := by
  -- an integer that is read as it is
  have hsigned : ∀ {n w : Nat} (F : BitVec w → PdxValue Obj), w = 8 * n → 0 < w →
      Function.Injective F →
      ReadsAll (F <$> checked (some name) (DataInput.readSigned n w)) n := by
    intro n w F hw hpos hF
    refine readsAll_of_reads hw F (fun bs hbs => ?_) fun x h => succ_ne_self hpos x (hF h)
    exact (reads_signed_of_length hbs).fmap F
  cases c with
  | char =>
    cases hn
    refine readsAll_of_reads (w := 16) rfl (fun x => .char (x.setWidth 8)) (fun bs hbs => ?_) ?_
    · rw [PdxRead.localRead, readChar]
      exact ((reads_bigEndian_of_length hbs).map fun x => x.setWidth 8).fmap char
    · intro x h
      have hlow : (x + 1).setWidth 8 = x.setWidth 8 := char.inj h
      rw [BitVec.setWidth_add _ _ (by decide)] at hlow
      exact succ_ne_self (by decide) (x.setWidth 8) hlow
  | wideChar =>
    cases hn
    refine readsAll_of_reads (w := 16) rfl (fun x => .wideChar (x.setWidth 32)) (fun bs hbs => ?_)
      ?_
    · rw [PdxRead.localRead, readWideChar]
      exact ((reads_bigEndian_of_length hbs).map fun x => x.setWidth 32).fmap wideChar
    · intro x h
      have hsame := congrArg (BitVec.setWidth 16) (wideChar.inj h)
      rw [BitVec.setWidth_setWidth_of_le _ (by decide),
        BitVec.setWidth_setWidth_of_le _ (by decide),
        BitVec.setWidth_eq, BitVec.setWidth_eq] at hsame
      exact succ_ne_self (by decide) x hsame
  | boolean =>
    cases hn
    refine ⟨fun bs => .boolean (decide (bs.headD 0 = 1)), ?_, ?_⟩
    · intro bs hbs
      obtain ⟨b, rfl⟩ := length_eq_one_iff.mp hbs
      exact (DataInput.reads_readBoolean_byte b).fmap boolean
    · intro bs hbs
      obtain ⟨b, rfl⟩ := length_eq_one_iff.mp hbs
      by_cases hone : b = 1#8
      · exact ⟨[0], rfl, by simp [hone]⟩
      · exact ⟨[1], rfl, by simp [hone]⟩
  | byte =>
    cases hn
    refine readsAll_of_reads (w := 8) rfl .byte (fun bs hbs => ?_) fun x h =>
      succ_ne_self (by decide) x (byte.inj h)
    obtain ⟨b, rfl⟩ := length_eq_one_iff.mp hbs
    have hbyte : ofBigEndian 8 [b] = b := by simp [ofBigEndian, shiftIn]
    rw [hbyte]
    exact (DataInput.reads_read b).fmap byte
  | short | int | long | float | double =>
    cases hn
    exact hsigned _ rfl (by decide) fun x y h => by injection h
  | date =>
    cases hn
    refine readsAll_of_reads (w := 64) rfl (fun x => .date (some x)) (fun bs hbs => ?_) ?_
    · rw [PdxRead.localRead, readDate]
      exact ((reads_signed_of_length hbs).map some).fmap date
    · intro x h
      exact succ_ne_self (by decide) x (Option.some.inj (date.inj h))
  | _ => cases hn

end

/-! ### Lengths and type ids -/

theorem reads_arrayLen_byte {len : BitVec 32} {b : Byte} (hlen : -1 ≤ len.toInt)
    (hb : DataOutput.arrayLenBytes len = [b]) : Reads DataInput.readArrayLen [b] len := by
  rw [← hb]
  exact reads_readArrayLen hlen

theorem reads_arrayLen_zero : Reads DataInput.readArrayLen [0] 0 :=
  reads_arrayLen_byte (by decide) (by decide)

theorem reads_arrayLen_null : Reads DataInput.readArrayLen [0xFF] (-1) :=
  reads_arrayLen_byte (by decide) (by decide)

/-- The reads of an array: a length comes first, and the result has it. -/
structure ArrayRead {α : Type} (q : Read (Option (List α) × BitVec 32)) : Prop where
  zero : ∃ l, Reads q [0] (l, 0)
  null : ∃ l, Reads q [0xFF] (l, -1)
  length : ∀ {s s₁ s' : DataInput} {len : BitVec 32} {v : Option (List α) × BitVec 32},
    DataInput.readArrayLen s = .ok len s₁ → q s = .ok v s' → v.2 = len

theorem arrayRead_readArray (p : Read α) : ArrayRead (DataInput.readArray p) where
  zero := by
    refine ⟨none, reads_arrayLen_zero.bind_nil ?_⟩
    exact Reads.pure _
  null := by
    refine ⟨none, reads_arrayLen_null.bind_nil ?_⟩
    exact Reads.pure _
  length hlen h := by
    rw [DataInput.readArray, bind_ok hlen] at h
    split at h
    · obtain ⟨elements, s₂, -, hpure⟩ := bind_eq_ok h
      cases hpure
      rfl
    · cases h
      rfl

theorem arrayRead_readPointerArray (p : Read α) :
    ArrayRead (DataInput.readPointerArray p) where
  zero := by
    refine ⟨some [], reads_arrayLen_zero.bind_nil ?_⟩
    exact (Reads.pure []).map fun elements => (some elements, (0 : BitVec 32))
  null := by
    refine ⟨none, reads_arrayLen_null.bind_nil ?_⟩
    exact Reads.pure _
  length hlen h := by
    rw [DataInput.readPointerArray, bind_ok hlen] at h
    split at h
    · cases h
      rfl
    · split at h
      · cases h
      · obtain ⟨elements, s₂, -, hpure⟩ := bind_eq_ok h
        cases hpure
        rfl

/-- The reads of a string: null, or characters behind one of the type ids. -/
def stringRead {α : Type} (short huge : Read α) (message : String) : Read (Option α) := do
  let typeId ← DataInput.read
  if typeId = 69 then return none
  else if typeId = 87 ∨ typeId = 42 then do
    let value ← short
    return some value
  else if typeId = 88 ∨ typeId = 89 then do
    let value ← huge
    return some value
  else throw (.illegalArgument message)

variable {Obj : Type}

theorem reads_deserialize_null (others : Byte → Read Obj) :
    Reads (deserialize others) [41] none := by
  refine (DataInput.reads_read 41).bind_nil ?_
  exact Reads.pure _

theorem reads_objectArray_one (others : Byte → Read Obj) :
    Reads (objectArrayFromData others) [1, 43, 87, 0, 0, 41] [none] := by
  have hlen : Reads DataInput.readArrayLen [1] 1 :=
    reads_arrayLen_byte (by decide) (by decide)
  refine hlen.bind ?_
  refine (DataInput.reads_read 43).bind ?_
  refine (DataInput.reads_read 87).bind ?_
  refine (DataInput.reads_readInt16 0).bind ?_
  have hadvance : Reads (DataInput.advanceCursor ((0 : BitVec 16).toNat : Int)) [] () := by
    intro front back
    show EStateM.Result.ok () _ = _
    simp
  refine hadvance.bind ?_
  exact (reads_deserialize_null others).bind_nil ((Reads.pure []).map fun bs => none :: bs)

theorem objectArrayFromData_length {others : Byte → Read Obj} {s s₁ s' : DataInput}
    {len : BitVec 32} {v : List (Option Obj)} (hlen : DataInput.readArrayLen s = .ok len s₁)
    (h : objectArrayFromData others s = .ok v s') : v.length = len.toInt.toNat := by
  rw [objectArrayFromData, bind_ok hlen] at h
  split at h
  · rename_i hnonneg
    -- the class is read or passed over first
    obtain ⟨_, _, -, h⟩ := bind_eq_ok h
    obtain ⟨_, _, -, h⟩ := bind_eq_ok h
    obtain ⟨_, _, -, h⟩ := bind_eq_ok h
    obtain ⟨_, _, -, h⟩ := bind_eq_ok h
    rw [times_length h]
    rw [BitVec.toInt_eq_toNat_cond] at hnonneg ⊢
    split at hnonneg
    · omega
    · omega
  · rename_i hneg
    cases h
    rw [length_nil]
    omega

/-! ### Bytes for every type -/

namespace PdxFieldTypes

/-- The first byte of the bytes below. -/
def blankHead : PdxFieldTypes → Byte
  | string => 69
  | object => 41
  | objectArray => 0xFF
  | _ => 0

/-- Bytes for a field of the type: zeros, a null string or object, an array without elements, a null
array of objects. -/
def blank (ty : PdxFieldTypes) : List Byte :=
  ty.blankHead :: replicate (ty.width.getD 1 - 1) 0

variable (ty : PdxFieldTypes)

theorem length_blank : ty.blank.length = ty.width.getD 1 := by
  cases ty <;> rfl

/-- The length that the first byte is taken for. -/
def blankLen (ty : PdxFieldTypes) : BitVec 32 :=
  if ty.blankHead = 0xFF then -1 else ty.blankHead.setWidth 32

theorem reads_blankLen : Reads DataInput.readArrayLen [ty.blankHead] ty.blankLen := by
  cases ty <;> exact reads_arrayLen_byte (by decide) (by decide)

end PdxFieldTypes

section
variable {Obj : Type} (others : Byte → Read Obj) (name : String)

/-- The reads without a fixed length, each with the bytes of its type. -/
inductive VariableRead : List Byte → Read (PdxValue Obj) → Prop
  | array {α : Type} {q : Read (Option (List α) × BitVec 32)}
      {F : Option (List α) × BitVec 32 → PdxValue Obj} (hq : ArrayRead q)
      (hF : Function.Injective F) : VariableRead [0] (F <$> checked (some name) q)
  | string {α : Type} {short huge : Read α} {message : String} {F : Option α → PdxValue Obj}
      {empty : α} (hempty : Reads short [0, 0] empty) (hF : Function.Injective F) :
      VariableRead [69] (F <$> checked (some name) (stringRead short huge message))
  | object : VariableRead [41] (.object <$> readObject others (some name))
  | objectArray : VariableRead [0xFF] (.objectArray <$> readObjectArray others
      (some name))

theorem variableRead_localRead {c : PdxRead} (hwidth : c.fieldType.width = none) :
    VariableRead others name c.fieldType.blank (c.localRead others (some name)) := by
  cases c with
  | string =>
    have hempty := reads_readASCII (show ([] : List Byte).length ≤ 0xFFFF by decide)
    exact .string hempty fun _ _ => string.inj
  | wideString =>
    have hunits : Units [] := fun c hc => nomatch hc
    have hempty := reads_readWideUTF hunits (by decide)
    exact .string hempty fun _ _ => wideString.inj
  | object => exact .object
  | objectArray => exact .objectArray
  | charArray | wideCharArray | booleanArray | byteArray | shortArray | intArray | longArray
  | floatArray | doubleArray =>
    exact .array (arrayRead_readArray _) fun _ _ h => by injection h
  | stringArray | wideStringArray | arrayOfByteArrays =>
    exact .array (arrayRead_readPointerArray _) fun _ _ h => by injection h
  | _ => cases hwidth

theorem VariableRead.reads {bs : List Byte} {p : Read (PdxValue Obj)}
    (h : VariableRead others name bs p) : ∃ v, Reads p bs v := by
  cases h with
  | array hq hF =>
    obtain ⟨l, hzero⟩ := hq.zero
    exact ⟨_, hzero.fmap _⟩
  | @string α short huge message F empty hempty hF =>
    have hnull : Reads (stringRead short huge message) [69] none := by
      refine (DataInput.reads_read 69).bind_nil ?_
      exact Reads.pure _
    exact ⟨_, hnull.fmap F⟩
  | object => exact ⟨_, (reads_deserialize_null others).fmap PdxValue.object⟩
  | objectArray =>
    have hnull : Reads (objectArrayFromData others) [0xFF] [] := by
      refine reads_arrayLen_null.bind_nil ?_
      exact Reads.pure _
    exact ⟨_, (hnull.map fun coa => if coa.length = 0 then none else some coa).fmap
      PdxValue.objectArray⟩

theorem reads_blank (c : PdxRead) :
    ∃ v, Reads (c.localRead others (some name)) c.fieldType.blank v := by
  cases hwidth : c.fieldType.width with
  | some n =>
    obtain ⟨g, hreads, -⟩ := readsAll_fixed others name hwidth
    refine ⟨_, hreads _ ?_⟩
    rw [PdxFieldTypes.length_blank, hwidth, Option.getD_some]
  | none => exact (variableRead_localRead others name hwidth).reads others name

/-! ### Bytes that tell two fields apart -/

/-- The read does not make `v` of the bytes of a type, whatever follows them. -/
def Misses (p : Read (PdxValue Obj)) (v : PdxValue Obj) (bs : List Byte) : Prop :=
  ∀ front rest s, p ⟨front ++ bs ++ rest, front.length⟩ ≠ .ok v s

section
variable (ty : PdxFieldTypes) (more : List Byte)

/-- What is read first from the bytes of a type. -/
theorem reads_head {q : Read α} {x : α} (hq : Reads q [ty.blankHead] x) (front rest : List Byte) :
    ∃ s₁, q ⟨front ++ (ty.blank ++ more) ++ rest, front.length⟩ = .ok x s₁ := by
  have hsplit : front ++ (ty.blank ++ more) ++ rest = front ++ [ty.blankHead] ++
      (replicate (ty.width.getD 1 - 1) 0 ++ more ++ rest) := by
    simp [PdxFieldTypes.blank]
  rw [hsplit]
  exact ⟨_, hq front _⟩

theorem ArrayRead.misses {q : Read (Option (List α) × BitVec 32)} (hq : ArrayRead q)
    {F : Option (List α) × BitVec 32 → PdxValue Obj} (hF : Function.Injective F)
    {v : Option (List α) × BitVec 32} (hv : v.2 ≠ ty.blankLen) :
    Misses (F <$> q) (F v) (ty.blank ++ more) := by
  intro front rest s h
  obtain ⟨v', hread, hsame⟩ := map_eq_ok h
  obtain ⟨s₁, hlen⟩ := reads_head ty more ty.reads_blankLen front rest
  rw [hF hsame] at hread
  exact hv (hq.length hlen hread)

theorem stringRead_misses {short huge : Read α} {message : String} {F : Option α → PdxValue Obj}
    (hF : Function.Injective F) (v : α) :
    Misses (F <$> stringRead short huge message) (F (some v)) (ty.blank ++ more) := by
  intro front rest s h
  obtain ⟨v', hread, hsame⟩ := map_eq_ok h
  obtain ⟨s₁, hfirst⟩ := reads_head ty more (DataInput.reads_read ty.blankHead) front rest
  rw [hF hsame, stringRead, bind_ok hfirst] at hread
  -- the first byte of the type is no type id of a string with characters
  have hshort : ¬(ty.blankHead = 87 ∨ ty.blankHead = 42) := by cases ty <;> decide
  have hhuge : ¬(ty.blankHead = 88 ∨ ty.blankHead = 89) := by cases ty <;> decide
  split at hread <;> cases hread

theorem deserialize_misses {v : Option Obj} (hv : v = none ↔ ty.blankHead ≠ 41) :
    Misses (.object <$> deserialize others) (.object v) (ty.blank ++ more) := by
  intro front rest s h
  obtain ⟨v', hread, hsame⟩ := map_eq_ok h
  cases hsame
  obtain ⟨s₁, hfirst⟩ := reads_head ty more (DataInput.reads_read ty.blankHead) front rest
  rw [deserialize, bind_ok hfirst] at hread
  split at hread
  · rename_i hnull
    cases hread
    exact hv.mp rfl hnull
  · rename_i hnull
    rw [hv.mpr hnull] at hread
    obtain ⟨obj', s₂, -, hpure⟩ := bind_eq_ok hread
    cases hpure

theorem objectArray_misses (obj : Option Obj) :
    Misses (.objectArray <$> do
      let coa ← objectArrayFromData others
      return if coa.length = 0 then none else some coa) (.objectArray (some [obj]))
      (ty.blank ++ more) := by
  intro front rest s h
  obtain ⟨v, hread, hv⟩ := map_eq_ok h
  cases hv
  obtain ⟨coa, s₁, hcoa, hpure⟩ := bind_eq_ok hread
  obtain ⟨s₂, hlen⟩ := reads_head ty more ty.reads_blankLen front rest
  have hcount := objectArrayFromData_length hlen hcoa
  have hne : ty.blankLen.toInt.toNat ≠ 1 := by cases ty <;> decide
  injection hpure with hsome
  split at hsome
  · cases hsome
  · cases hsome
    exact hne hcount.symm

theorem VariableRead.misses {blank bs₀ : List Byte} {p : Read (PdxValue Obj)} {obj : Obj}
    (hobj : Reads (deserialize others) bs₀ (some obj)) (h : VariableRead others name blank p) :
    ∃ bs v, Reads p bs v ∧ bs.length ≤ max 8 bs₀.length ∧ Misses p v (ty.blank ++ more) := by
  cases h with
  | array hq hF =>
    obtain ⟨l₀, hzero⟩ := hq.zero
    obtain ⟨l₁, hnull⟩ := hq.null
    by_cases hlen : ty.blankLen = -1
    · exact ⟨[0], _, hzero.fmap _, by simp, hq.misses ty more hF (by simp [hlen])⟩
    · exact ⟨[0xFF], _, hnull.fmap _, by simp, hq.misses ty more hF fun h => hlen h.symm⟩
  | @string α short huge message F empty hempty hF =>
    have hread : Reads (stringRead short huge message) [42, 0, 0] (some empty) := by
      refine (DataInput.reads_read 42).bind ?_
      exact hempty.map some
    exact ⟨_, _, hread.fmap F, by simp, stringRead_misses ty more hF empty⟩
  | object =>
    by_cases hnull : ty.blankHead = 41
    · refine ⟨bs₀, _, hobj.fmap PdxValue.object, by omega, deserialize_misses others ty more ?_⟩
      exact iff_of_false (Option.some_ne_none _) (not_not.mpr hnull)
    · refine ⟨[41], _, (reads_deserialize_null others).fmap PdxValue.object, by simp, ?_⟩
      exact deserialize_misses others ty more (iff_of_true rfl hnull)
  | objectArray =>
    exact ⟨[1, 43, 87, 0, 0, 41], _, ((reads_objectArray_one others).map fun coa =>
      if coa.length = 0 then none else some coa).fmap PdxValue.objectArray, by simp,
        objectArray_misses others ty more none⟩

end

/-- For every read there are bytes with a value that the read does not make of the bytes of a type,
if the registry can read some object. -/
theorem exists_misses {bs₀ : List Byte} {obj : Obj}
    (hobj : Reads (deserialize others) bs₀ (some obj)) (c : PdxRead) (ty : PdxFieldTypes)
    (more : List Byte) (hlong : 8 ≤ (ty.blank ++ more).length) :
    ∃ bs v, Reads (c.localRead others (some name)) bs v ∧
      (∀ n, c.fieldType.width = some n → bs.length = n) ∧ bs.length ≤ max 8 bs₀.length ∧
      Misses (c.localRead others (some name)) v (ty.blank ++ more) := by
  cases hwidth : c.fieldType.width with
  | some n =>
    have hn : n ≤ 8 := by
      cases hty : c.fieldType <;> rw [hty] at hwidth <;> cases hwidth <;> decide
    obtain ⟨g, hreads, hother⟩ := readsAll_fixed others name hwidth
    have hcut : ((ty.blank ++ more).take n).length = n := by
      rw [length_take]
      omega
    obtain ⟨bs, hbs, hne⟩ := hother _ hcut
    refine ⟨bs, g bs, hreads bs hbs, ?_, by omega, ?_⟩
    · intro m hm
      rw [hbs]
      exact Option.some.inj hm
    · -- the read stops inside of the bytes of the type and what follows them
      intro front rest s h
      have hsplit : front ++ (ty.blank ++ more) ++ rest = front ++ (ty.blank ++ more).take n ++
          ((ty.blank ++ more).drop n ++ rest) := by
        rw [← append_assoc (front ++ _), append_assoc front (take _ _),
          take_append_drop]
      rw [hsplit, hreads _ hcut front] at h
      injection h with hvalue
      exact hne hvalue.symm
  | none =>
    obtain ⟨bs, v, hreads, hbs, hmisses⟩ :=
      (variableRead_localRead others name hwidth).misses others name ty more hobj
    exact ⟨bs, v, hreads, fun m hm => (nomatch hm), hbs, hmisses⟩

end

/-! ### Narrow strings -/

section
open DataOutput DataInput PdxLocalWriter

theorem encodeChar_of_ascii : ∀ c : Byte, c ≠ 0 → c < 0x80 → encodeChar c = [c] := by decide

theorem length_encodeChar_of_high : ∀ c : Byte, ¬ c < 0x80 → (encodeChar c).length = 2 := by decide

theorem length_encodeChar_pos : ∀ c : Byte, 0 < (encodeChar c).length := by decide

theorem zero_notMem_encodeChar : ∀ c : Byte, c ≠ 0 → (0 : Byte) ∉ encodeChar c := by decide

/-- The encoding is as long as the string when each character is one byte. -/
theorem ascii_of_length_le {value : List Byte}
    (h : (value.flatMap encodeChar).length ≤ value.length) : ∀ c ∈ value, c < 0x80 := by
  induction value with
  | nil => simp
  | cons c value ih =>
    have hrest : value.length ≤ (value.flatMap encodeChar).length :=
      length_le_flatMap fun d _ => length_pos_iff.mp (length_encodeChar_pos d)
    have hpos := length_encodeChar_pos c
    simp only [flatMap_cons, length_append, length_cons] at h
    have hc : c < 0x80 := by
      by_contra hhigh
      rw [length_encodeChar_of_high c hhigh] at h
      omega
    exact forall_mem_cons.mpr ⟨hc, ih (by omega)⟩

/-- `readString` finds what `writeString` wrote: the characters up to the terminator are those of
the string, and the cursor is behind the field. -/
def StringReadBack (w : PdxLocalWriter) (value : List Byte) (fieldName : String)
    (back : List Byte) : Prop :=
  let out := (w.writeString (some value)).dataOutput.bytes
  ∃ str, readString (some fieldName) ⟨out ++ back, w.dataOutput.bytes.length⟩ =
      .ok (some str) ⟨out ++ back, out.length⟩ ∧ str.takeWhile (· ≠ 0) = value

variable {w : PdxLocalWriter} {value : List Byte} {fieldName : String} {back : List Byte}

/-- The field when the read takes `taken` of its bytes. -/
theorem stringReadBack_iff_of_reads {taken str : List Byte} (left : List Byte)
    (hbytes : (w.writeString (some value)).dataOutput.bytes = w.dataOutput.bytes ++ (taken ++ left))
    (hread : Reads readString taken (some str)) :
    StringReadBack w value fieldName back ↔ left = [] ∧ str.takeWhile (· ≠ 0) = value := by
  have hresult := hread w.dataOutput.bytes (left ++ back)
  simp only [StringReadBack, hbytes, PdxLocalReader.readString, PdxLocalReader.checked_some]
  rw [show w.dataOutput.bytes ++ (taken ++ left) ++ back =
    w.dataOutput.bytes ++ taken ++ (left ++ back) by simp, hresult]
  constructor
  · rintro ⟨str', heq, hstr⟩
    simp only [EStateM.Result.ok.injEq, Option.some.injEq, Input.mk.injEq, length_append,
      Int.natCast_inj, true_and] at heq
    exact ⟨eq_nil_of_length_eq_zero (by omega), heq.1 ▸ hstr⟩
  · rintro ⟨rfl, hstr⟩
    exact ⟨str, by simp, hstr⟩

/-- A string of up to 64K encoded bytes is written as modified UTF-8 and read as it lies there. A
longer one is written with two bytes for each character, and one byte for each is read. -/
theorem stringReadBack_iff (hzero : ∀ c ∈ value, c ≠ 0) (hlength : value.length < 2 ^ 29) :
    StringReadBack w value fieldName back ↔
      (∀ c ∈ value, c < 0x80) ∧ value.length ≤ 0xFFFF := by
  have hwhole : Whole value 0 := ⟨hzero, .inl rfl⟩
  have hencoded : getEncodedLength value 0 = (value.flatMap encodeChar).length := by
    rw [getEncodedLength_eq, hwhole.visited (by omega)]
  have hascii : (∀ c ∈ value, c < 0x80) → value.flatMap encodeChar = value := by
    intro h
    rw [flatMap_congr fun c hc => encodeChar_of_ascii c (hzero c hc) (h c hc),
      flatMap_singleton']
  by_cases hhuge : getEncodedLength value 0 > 0xFFFF
  · -- the read stops in the middle of the field
    have hnat := toNat_len32 (l := value) (by omega)
    have hlen : lengthOr value 0 = len32 value := hwhole.lengthOr (by omega)
    let pairs := value.flatMap fun c => [0, c]
    have hpairs : pairs.length = value.length * 2 := length_flatMap_two (fun _ => rfl) value
    have hfirst : (pairs.take value.length).length = value.length := by
      rw [length_take, hpairs]
      omega
    have htwo : ∀ c : Byte, [0, c].length = 2 := fun _ => rfl
    have hwrite := appends_writeUTFHugeWith value 0 htwo (by rw [hlen, hnat]; simp [memory])
      (by rw [hlen]; omega)
    rw [hlen, hnat, memory, take_left] at hwrite
    have hread : Reads readString
        ([89] ++ (bigEndian 4 (len32 value) ++ pairs.take value.length))
        (some (pairs.take value.length)) := by
      have hhead := reads_readASCIIHuge (show (pairs.take value.length).length < 2 ^ 30 by omega)
      rw [show len32 (pairs.take value.length) = len32 value by rw [len32, hfirst, len32]] at hhead
      exact (reads_read 89).bind (hhead.map some)
    rw [stringReadBack_iff_of_reads (pairs.drop value.length) ?_ hread]
    · refine iff_of_false (fun h => ?_) fun h => ?_
      · have hleft := congrArg length h.1
        rw [length_drop, hpairs, length_nil] at hleft
        rw [hencoded, eq_nil_of_length_eq_zero (show value.length = 0 by omega)] at hhuge
        exact absurd hhuge (by decide)
      · rw [hencoded, hascii h.1] at hhuge
        omega
    · show (writeStringwithoutOffset w.dataOutput _).bytes = _
      rw [writeStringwithoutOffset, if_pos hhuge, writeUTFHuge, hwrite.bytes, bytes_write]
      simp [pairs, GeodeTypeIds.cacheableStringHuge]
  · rw [hencoded] at hhuge
    have hle : value.length ≤ (value.flatMap encodeChar).length :=
      length_le_flatMap fun d _ => length_pos_iff.mp (length_encodeChar_pos d)
    have hwrite := appends_writeUTFWith encodeChar value [0] (by omega)
    have hread : Reads readString ([42] ++ (bigEndian 2 (BitVec.ofNat 16
        (value.flatMap encodeChar).length) ++ value.flatMap encodeChar))
        (some (value.flatMap encodeChar)) :=
      (reads_read 42).bind ((reads_readASCII (by omega)).map some)
    rw [stringReadBack_iff_of_reads [] ?_ hread]
    · -- no byte of the encoding is 0, so all of it is found
      have hall : (value.flatMap encodeChar).takeWhile (· ≠ 0) = value.flatMap encodeChar := by
        rw [takeWhile_eq_self_iff]
        intro b hb
        obtain ⟨c, hc, hb⟩ := mem_flatMap.mp hb
        have hne : b ≠ 0 := fun h => zero_notMem_encodeChar c (hzero c hc) (h ▸ hb)
        simpa using hne
      rw [hall]
      constructor
      · rintro ⟨-, heq⟩
        exact ⟨ascii_of_length_le (by rw [heq]), by omega⟩
      · exact fun h => ⟨rfl, hascii h.1⟩
    · show (writeStringwithoutOffset w.dataOutput _).bytes = _
      rw [writeStringwithoutOffset, if_neg (by rw [hencoded]; omega), writeUTF, hencoded, memory,
        hwrite.bytes, bytes_write]
      simp [GeodeTypeIds.cacheableString]

end

/-- A writer at the start of its fields. -/
def newWriter : PdxLocalWriter := .new ⟨[], 8192, false⟩ (PdxType.new "Person" true)

theorem stringReadBack_hi : StringReadBack newWriter [72, 105] "name" [7] :=
  (stringReadBack_iff (by decide) (by decide)).mpr (by decide)

/-- The two bytes of a character above 0x7F are returned as two characters. -/
theorem stringReadBack_latin : ¬ StringReadBack newWriter [0xE9] "name" [7] := by
  rintro ⟨str, hread, hstr⟩
  cases hread
  exact absurd hstr (by decide)

end GeodeNative.Pdx

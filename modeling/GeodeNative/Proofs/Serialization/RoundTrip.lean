import GeodeNative.Lib.Layout
import GeodeNative.Proofs.Serialization.ModifiedUtf8
import GeodeNative.Proofs.Serialization.Uniform
import GeodeNative.Serialization.Calls

/-!
# What is written is read back

For each write of `DataOutput` two lemmas name its bytes: `appends_…` states that the write appends
them, and `reads_…` that the matching read of `DataInput` takes them, wherever they lie in a buffer,
and returns the value. Since both compose, any sequence of writes is read back by the matching
sequence of reads: `roundTrip`.
-/

set_option autoImplicit false

namespace GeodeNative.Serialization

open Lib DataOutput DataInput List

/-! ### Array lengths -/

theorem reads_readArrayLen {len : BitVec 32} (hlen : -1 ≤ len.toInt) :
    Reads readArrayLen (arrayLenBytes len) len := by
  unfold arrayLenBytes
  split
  · rename_i hminus
    rw [hminus]
    refine (reads_read _).bind_nil ?_
    exact Reads.pure _
  · rename_i hminus
    -- the length is not negative
    have hcast : len.toInt = len.toNat := by
      have hne : len.toInt ≠ -1 := fun h => hminus (BitVec.eq_of_toInt_eq h)
      rw [BitVec.toInt_eq_toNat_cond] at hlen hne ⊢
      split
      · rfl
      · omega
    split
    · rename_i hone
      have hbyte : (len.setWidth 8).toNat = len.toNat :=
        (BitVec.toNat_setWidth _ _).trans (Nat.mod_eq_of_lt (by omega))
      have hff : len.setWidth 8 ≠ 0xFF := by
        intro h
        have hval : (len.setWidth 8).toNat = 0xFF := congrArg BitVec.toNat h
        omega
      have hvalue : (len.setWidth 8).setWidth 32 = len := by
        refine BitVec.eq_of_toNat_eq ?_
        rw [BitVec.toNat_setWidth, hbyte]
        exact Nat.mod_eq_of_lt len.isLt
      refine (reads_read _).bind_nil ?_
      rw [if_neg hff, if_neg (by omega), hvalue]
      exact Reads.pure _
    · split
      · rename_i htwo
        have hvalue : (len.setWidth 16).setWidth 32 = len := by
          refine BitVec.eq_of_toNat_eq ?_
          rw [BitVec.toNat_setWidth, BitVec.toNat_setWidth]
          omega
        refine (reads_read _).bind ?_
        have hword := (reads_readInt16 (len.setWidth 16)).map fun val => val.setWidth 32
        rw [hvalue] at hword
        exact hword
      · refine (reads_read _).bind ?_
        exact reads_readInt32 len

/-! ### Byte arrays -/

theorem toNat_len32 {α : Type} {l : List α} (h : l.length < 2 ^ 32) :
    (len32 l).toNat = l.length := toNat_ofNat_of_lt h

theorem toInt_len32 {α : Type} {l : List α} (h : l.length < 2 ^ 31) :
    (len32 l).toInt = l.length := by
  have hnat := toNat_len32 (l := l) (by omega)
  rw [BitVec.toInt_eq_toNat_cond, if_pos (by omega), hnat]

/-- The room for the array is asked for before its length is written. -/
theorem appends_writeBytes {src : List Byte} {len : BitVec 32} (hlen : 0 ≤ len.toInt)
    (hsrc : len.toNat ≤ src.length) (hsmall : len.toNat < 2 ^ 30) :
    Appends (fun o => o.writeBytes (some src) len)
      (arrayLenBytes len ++ src.take len.toNat) := by
  have hcode := appends_writeArrayLen len
  have hfive := (length_arrayLenBytes_bounds len).2
  have hpos : 0 < len.toInt ↔ 0 < len.toNat := by
    rw [BitVec.toInt_eq_toNat_cond] at hlen ⊢
    split at hlen <;> omega
  have hwrite : ∀ o : DataOutput, o.writeBytes (some src) len =
      if 0 < len.toNat then ((o.ensureCapacity (len + 5)).writeArrayLen len).copy src len.toNat
      else (o.ensureCapacity (len + 5)).writeArrayLen len := by
    intro o
    rw [writeBytes, if_pos hlen]
    simp only [hpos]
  constructor
  · intro o
    rw [hwrite]
    split
    · rw [bytes_copy, hcode.bytes, bytes_ensureCapacity, append_assoc]
    · next hempty =>
      rw [hcode.bytes, bytes_ensureCapacity, Nat.eq_zero_of_not_pos hempty, take_zero,
        append_nil]
  · intro o k hroom hlength
    rw [length_append, length_take] at hlength ⊢
    have hfivemore : (len + 5).toNat = len.toNat + 5 := by
      exact Nat.mod_eq_of_lt (by simp; omega)
    have hmore := hroom.ensureCapacity (len + 5) (by omega)
    have hcoded := hcode.room _ _ hmore (by rw [bytes_ensureCapacity]; omega)
    rw [hwrite]
    split
    · exact (hcoded.copy src len.toNat (by omega) hsrc).mono (by omega)
    · exact hcoded.mono (by omega)

theorem reads_readBytes {value : List Byte} (hvalue : value.length < 2 ^ 30) :
    Reads readBytes (arrayLenBytes (len32 value) ++ value)
      (if value = [] then none else some value, len32 value) := by
  have hnat := toNat_len32 (l := value) (by omega)
  have hint := toInt_len32 (l := value) (by omega)
  refine (reads_readArrayLen (by omega)).bind ?_
  by_cases hnil : value = []
  · rw [if_neg (by rw [hint, hnil]; simp), if_pos hnil, hnil]
    exact Reads.pure _
  · have hpos : 0 < value.length := length_pos_iff.mpr hnil
    rw [if_pos (by omega), if_neg hnil, hnat, hint]
    refine reads_check ?_ (Int.le_refl _)
    exact (reads_nextBytes value).map fun bytes => (some bytes, len32 value)

/-! ### Strings -/

/-- The `length` argument of a call with this string: its length, or 0, which stands for it. The
string has no character 0. -/
structure Whole {w : Nat} (value : List (BitVec w)) (length : BitVec 32) : Prop where
  nonzero : ∀ c ∈ value, c ≠ 0
  length : length = 0 ∨ length.toNat = value.length

section
variable {w : Nat} {value : List (BitVec w)} {length : BitVec 32}

instance : Decidable (Whole value length) :=
  letI : Decidable (∀ c ∈ value, c ≠ 0) := decidableBAll (· ≠ 0) value
  decidable_of_iff ((∀ c ∈ value, c ≠ 0) ∧ (length = 0 ∨ length.toNat = value.length))
    ⟨fun h => ⟨h.1, h.2⟩, fun h => ⟨h.nonzero, h.length⟩⟩

theorem Whole.takeWhile (h : Whole value length) : value.takeWhile (· ≠ 0) = value := by
  rw [takeWhile_eq_self_iff]
  intro c hc
  simpa using h.nonzero c hc

theorem Whole.lengthOr (h : Whole value length) (hsmall : value.length < 2 ^ 32) :
    lengthOr value length = len32 value := by
  unfold DataOutput.lengthOr
  split
  · rw [strlen, h.takeWhile]
  · rename_i hne
    refine BitVec.eq_of_toNat_eq ?_
    rw [toNat_len32 hsmall]
    exact h.length.resolve_left hne

theorem Whole.visited (h : Whole value length) (hsmall : value.length < 2 ^ 31) :
    visited value length = value := by
  unfold DataOutput.visited
  split
  · exact h.takeWhile
  · rename_i hne
    have hnat : length.toNat = value.length := h.length.resolve_left hne
    have hint : length.toInt.toNat = value.length := by
      rw [BitVec.toInt_eq_toNat_cond, if_pos (by omega)]
      omega
    rw [hint, memory, take_left]

end

variable {length : BitVec 32}

theorem appends_writeASCII {value : List Byte} (h : Whole value length)
    (hvalue : value.length ≤ 0xFFFF) :
    Appends (fun o => o.writeASCII (some value) length)
      (bigEndian 2 (BitVec.ofNat 16 value.length) ++ value) := by
  have hnat := toNat_len32 (l := value) (by omega)
  have hlen : ((if len32 value > 0xFFFF then 0xFFFF else len32 value).setWidth 16 : BitVec 16) =
      BitVec.ofNat 16 value.length := by
    rw [if_neg (by rw [gt_iff_lt, BitVec.lt_def, hnat]; simp; omega)]
    refine BitVec.eq_of_toNat_eq ?_
    rw [BitVec.toNat_setWidth, hnat, BitVec.toNat_ofNat]
  have hwide : ((BitVec.ofNat 16 value.length).setWidth 32).toNat = value.length :=
    (BitVec.toNat_setWidth_of_le (by decide)).trans (toNat_ofNat_of_lt (by omega))
  have hbytes := appends_writeBytesOnly (memory value)
    (show ((BitVec.ofNat 16 value.length).setWidth 32).toNat ≤ _ by rw [hwide]; simp [memory])
  rw [hwide, memory, take_left] at hbytes
  have hboth := (appends_writeInt16 (BitVec.ofNat 16 value.length)).comp hbytes
  simp only [writeASCII, h.lengthOr (by omega), hlen]
  exact hboth

theorem reads_readASCII {value : List Byte} (hvalue : value.length ≤ 0xFFFF) :
    Reads readASCII (bigEndian 2 (BitVec.ofNat 16 value.length) ++ value) value := by
  have hnat : (BitVec.ofNat 16 value.length).toNat = value.length := toNat_ofNat_of_lt (by omega)
  have hwide : ((BitVec.ofNat 16 value.length).setWidth 32).toNat = value.length :=
    (BitVec.toNat_setWidth_of_le (by decide)).trans hnat
  refine (reads_readInt16 _).bind ?_
  exact reads_check (reads_readBytesOnly hwide (by omega)) (by omega)

theorem appends_writeASCIIHuge {value : List Byte} (h : Whole value length)
    (hvalue : value.length < 2 ^ 30) :
    Appends (fun o => o.writeASCIIHuge (some value) length)
      (bigEndian 4 (len32 value) ++ value) := by
  have hnat := toNat_len32 (l := value) (by omega)
  have hbytes := appends_writeBytesOnly (memory value)
    (show (len32 value).toNat ≤ _ by rw [hnat]; simp [memory])
  rw [hnat, memory, take_left] at hbytes
  have hboth := (appends_writeInt32 (len32 value)).comp hbytes
  simp only [writeASCIIHuge, h.lengthOr (by omega)]
  exact hboth

theorem reads_readASCIIHuge {value : List Byte} (hvalue : value.length < 2 ^ 30) :
    Reads readASCIIHuge (bigEndian 4 (len32 value) ++ value) value := by
  have hnat := toNat_len32 (l := value) (by omega)
  exact (reads_readInt32 _).bind (reads_readBytesOnly hnat (by omega))

/-! ### Modified UTF-8 -/

/-- A whole string of the given encoded length. -/
theorem appends_writeUTFWith {C : Type} (encode : C → List Byte) (value rest : List C)
    (hsmall : (value.flatMap encode).length ≤ 0xFFFF) :
    Appends (fun o => o.writeUTFWith encode (value ++ rest) (value.flatMap encode).length)
      (bigEndian 2 (BitVec.ofNat 16 (value.flatMap encode).length) ++ value.flatMap encode) := by
  have hnat : (BitVec.ofNat 16 (value.flatMap encode).length).toNat =
      (value.flatMap encode).length := toNat_ofNat_of_lt (by omega)
  have hwide : ((BitVec.ofNat 16 (value.flatMap encode).length).setWidth 32).toNat =
      (value.flatMap encode).length := (BitVec.toNat_setWidth_of_le (by decide)).trans hnat
  have hchars : Appends (fun o => (o.ensureCapacity ((BitVec.ofNat 16
      (value.flatMap encode).length).setWidth 32)).encodeAll encode (value ++ rest)
        (value.flatMap encode).length) (value.flatMap encode) := by
    constructor
    · intro o
      rw [bytes_encodeAll, bytes_ensureCapacity, flatMap_append, take_left]
    · intro o k hroom hlen
      refine ((hroom.ensureCapacity _ (by omega)).encodeAll encode _ ?_ ?_).mono (by omega)
      · rw [flatMap_append, length_append]
        exact Nat.le_add_right _ _
      · rw [encodedUntil_whole]
        omega
  have hboth := (appends_writeInt16 (BitVec.ofNat 16 (value.flatMap encode).length)).comp hchars
  simp only [writeUTFWith, if_neg (Nat.not_lt.mpr hsmall), gt_iff_lt, hnat]
  exact hboth

theorem getEncodedLength_eq (value : List Byte) (length : BitVec 32) :
    getEncodedLength value length = ((visited value length).flatMap encodeChar).length := by
  rw [getEncodedLength, length_flatMap]
  congr 1
  apply map_congr_left
  intro c _
  unfold charEncodedLength encodeChar
  split <;> rfl

/-- The units of a wide string are 16-bit. -/
def Units (value : List WChar) : Prop := ∀ c ∈ value, c.toNat < 2 ^ 16

instance (value : List WChar) : Decidable (Units value) :=
  decidableBAll (fun c : WChar => c.toNat < 2 ^ 16) value

theorem length_encodeWideChar_pos (c : WChar) : 0 < (encodeWideChar c).length := by
  unfold encodeWideChar
  dsimp only
  split_ifs <;> simp

theorem getWideEncodedLength_eq {value : List WChar} (h : Whole value length)
    (hunits : Units value) (hsmall : value.length < 2 ^ 31) :
    getWideEncodedLength value length = (value.flatMap encodeWideChar).length := by
  rw [getWideEncodedLength, h.visited hsmall, length_flatMap]
  exact congrArg sum (map_congr_left fun c hc => (length_encodeWideChar (hunits c hc)).symm)

theorem appends_writeWideUTF {value : List WChar} (h : Whole value length) (hunits : Units value)
    (hsmall : (value.flatMap encodeWideChar).length ≤ 0xFFFF) :
    Appends (fun o => o.writeWideUTF (some value) length)
      (bigEndian 2 (BitVec.ofNat 16 (value.flatMap encodeWideChar).length) ++
        value.flatMap encodeWideChar) := by
  have hle : value.length ≤ (value.flatMap encodeWideChar).length :=
    length_le_flatMap fun c _ => length_pos_iff.mp (length_encodeWideChar_pos c)
  simp only [writeWideUTF, memory, getWideEncodedLength_eq h hunits (by omega)]
  exact appends_writeUTFWith encodeWideChar value [0] hsmall

/-- `readUTF` returns the units that the scan has counted, and leaves the cursor behind them. -/
theorem readWideUTF_scan {value : List WChar} (hunits : Units value) (part : List Byte)
    (hsmall : (value.flatMap encodeWideChar ++ part).length ≤ 0xFFFF)
    (hscan : getDecodedLength (value.flatMap encodeWideChar ++ part) = value.length)
    (front back : List Byte) :
    let head := bigEndian 2 (BitVec.ofNat 16 (value.flatMap encodeWideChar ++ part).length) ++
      value.flatMap encodeWideChar
    readWideUTF ⟨front ++ head ++ (part ++ back), front.length⟩ =
      .ok value ⟨front ++ head ++ (part ++ back), (front ++ head).length⟩ := by
  have hnat : (BitVec.ofNat 16 (value.flatMap encodeWideChar ++ part).length).toNat =
      (value.flatMap encodeWideChar ++ part).length := toNat_ofNat_of_lt (by omega)
  let be := bigEndian 2 (BitVec.ofNat 16 (value.flatMap encodeWideChar ++ part).length)
  have hlength := reads_readInt16 (BitVec.ofNat 16 (value.flatMap encodeWideChar ++ part).length)
    front (value.flatMap encodeWideChar ++ (part ++ back))
  have hchars := Reads.times (fun c hc => reads_decodeWideChar (hunits c hc))
    (front ++ be) (part ++ back)
  have hcheck : checkBufferSize (value.flatMap encodeWideChar ++ part).length
      ⟨front ++ be ++ (value.flatMap encodeWideChar ++ (part ++ back)), (front ++ be).length⟩ =
      .ok () ⟨front ++ be ++ (value.flatMap encodeWideChar ++ (part ++ back)),
        (front ++ be).length⟩ := checkBufferSize_ok (by simp)
  have hget : (get : Read DataInput) _ = .ok _ ⟨front ++ be ++ (value.flatMap encodeWideChar ++
    (part ++ back)), (front ++ be).length⟩ := rfl
  have hpiece : ((front ++ be ++ (value.flatMap encodeWideChar ++ (part ++ back))).drop
      ((front ++ be).length : Int).toNat).take (value.flatMap encodeWideChar ++ part).length =
        value.flatMap encodeWideChar ++ part := by
    rw [Int.toNat_natCast, drop_left, ← append_assoc, take_left]
  intro head
  rw [show front ++ head ++ (part ++ back) = front ++ be ++ (value.flatMap encodeWideChar ++
    (part ++ back)) by simp [head, be], readWideUTF, readUTFWith, bind_ok hlength, hnat,
    bind_ok hcheck, bind_ok hget, hpiece, hscan]
  rw [append_assoc (front ++ be)] at hchars
  rw [hchars, show front ++ head = front ++ be ++ value.flatMap encodeWideChar by simp [head, be]]

theorem reads_readWideUTF {value : List WChar} (hunits : Units value)
    (hsmall : (value.flatMap encodeWideChar).length ≤ 0xFFFF) :
    Reads readWideUTF (bigEndian 2 (BitVec.ofNat 16 (value.flatMap encodeWideChar).length) ++
      value.flatMap encodeWideChar) value := by
  have hscan := getDecodedLength_cut hunits (show (0 : WChar).toNat < 2 ^ 16 by decide)
    (length_encodeWideChar_pos 0)
  have hread := readWideUTF_scan hunits []
  rw [append_nil] at hread
  rw [take_zero, append_nil] at hscan
  exact hread hsmall hscan

/-! ### Two bytes for each unit -/

/-- The two bytes that `writeUTFHuge` writes for a unit. -/
def hugeBytes (c : WChar) : List Byte :=
  [((c.setWidth 16 &&& 0xFF00 : BitVec 16) >>> 8).setWidth 8,
    (c.setWidth 16 &&& 0xFF : BitVec 16).setWidth 8]

theorem length_flatMap_hugeBytes (value : List WChar) :
    (value.flatMap hugeBytes).length = value.length * 2 :=
  length_flatMap_two (fun _ => rfl) value

theorem appends_writeWideUTFHuge {value : List WChar} (h : Whole value length)
    (hsmall : value.length < 2 ^ 30) :
    Appends (fun o => o.writeWideUTFHuge (some value) length)
      (bigEndian 4 (len32 value) ++ value.flatMap hugeBytes) := by
  have hlength : DataOutput.lengthOr value length = len32 value := h.lengthOr (by omega)
  have hnat := toNat_len32 (l := value) (by omega)
  have htwo : ∀ c, (hugeBytes c).length = 2 := fun _ => rfl
  have hwrite := appends_writeUTFHugeWith value length htwo
    (by rw [hlength, hnat]; simp [memory]) (by rw [hlength]; omega)
  rw [hlength, hnat, memory, take_left] at hwrite
  exact hwrite

theorem two_bytes (u : BitVec 16) :
    (((u &&& 0xFF00) >>> 8).setWidth 8).setWidth 32 <<< 8 |||
      ((u &&& 0xFF).setWidth 8).setWidth 32 = u.setWidth 32 := by
  ext i hi
  interval_cases i <;> simp

theorem reads_hugeRound {c : WChar} (hc : c.toNat < 2 ^ 16) :
    Reads (hugeRound (fun hibyte lobyte => hibyte.setWidth 32 <<< 8 ||| lobyte.setWidth 32) true)
      (hugeBytes c) c := by
  show Reads _ ([_] ++ [_]) c
  refine (reads_read _).bind ?_
  refine (reads_read _).bind_nil ?_
  dsimp only
  rw [two_bytes, setWidth_unit hc]
  exact Reads.pure c

theorem reads_readWideUTFHuge {value : List WChar} (hunits : Units value)
    (hsmall : value.length < 2 ^ 30) :
    Reads readWideUTFHuge (bigEndian 4 (len32 value) ++ value.flatMap hugeBytes) value := by
  have hnat := toNat_len32 (l := value) (by omega)
  -- the array has room for the characters and the terminator
  have hroom : decide (len32 value + 1 ≠ 0) = true := by
    rw [decide_eq_true_eq]
    intro hzero
    have hval := congrArg BitVec.toNat hzero
    simp at hval
    omega
  refine (reads_readInt32 _).bind ?_
  rw [hroom, hnat]
  exact Reads.times fun c hc => reads_hugeRound (hunits c hc)

/-! ### Sequences of calls -/

/-- The value that was written. The pointer to an array without elements reads back as null. -/
def WriteCall.value : WriteCall → ReadValue
  | write value => .byte value
  | writeBoolean value => .boolean value
  | writeInt16 _ value => .int16 value
  | writeInt32 _ value => .int32 value
  | writeInt64 _ value => .int64 value
  | writeArrayLen len => .int32 len
  | writeBytes value => .bytes (if value = [] then none else some value) (len32 value)
  | writeASCII value _ => .string value
  | writeASCIIHuge value _ => .string value
  | writeUTF value _ => .wideString value
  | writeUTFHuge value _ => .wideString value

/-- The arguments are in range. -/
def WriteCall.Valid : WriteCall → Prop
  | writeArrayLen len => -1 ≤ len.toInt
  | writeASCII value length => Whole value length ∧ value.length ≤ 0xFFFF
  | writeASCIIHuge value length => Whole value length
  | writeUTF value length =>
    Whole value length ∧ Units value ∧ (value.flatMap encodeWideChar).length ≤ 0xFFFF
  | writeUTFHuge value length => Whole value length ∧ Units value
  | _ => True

instance (c : WriteCall) : Decidable c.Valid :=
  match c with
  | .writeArrayLen len => inferInstanceAs (Decidable (-1 ≤ len.toInt))
  | .writeASCII value length =>
    inferInstanceAs (Decidable (Whole value length ∧ value.length ≤ 0xFFFF))
  | .writeASCIIHuge value length => inferInstanceAs (Decidable (Whole value length))
  | .writeUTF value length => inferInstanceAs (Decidable
      (Whole value length ∧ Units value ∧ (value.flatMap encodeWideChar).length ≤ 0xFFFF))
  | .writeUTFHuge value length => inferInstanceAs (Decidable (Whole value length ∧ Units value))
  | .write _ | .writeBoolean _ | .writeInt16 _ _ | .writeInt32 _ _ | .writeInt64 _ _
  | .writeBytes _ => .isTrue trivial

/-- The bytes of the call. -/
def WriteCall.encode : WriteCall → List Byte
  | write value => [value]
  | writeBoolean value => [if value then 1 else 0]
  | writeInt16 _ value => bigEndian 2 value
  | writeInt32 _ value => bigEndian 4 value
  | writeInt64 _ value => bigEndian 8 value
  | writeArrayLen len => arrayLenBytes len
  | writeBytes value => arrayLenBytes (len32 value) ++ value
  | writeASCII value _ => bigEndian 2 (BitVec.ofNat 16 value.length) ++ value
  | writeASCIIHuge value _ => bigEndian 4 (len32 value) ++ value
  | writeUTF value _ =>
    bigEndian 2 (BitVec.ofNat 16 (value.flatMap encodeWideChar).length) ++
      value.flatMap encodeWideChar
  | writeUTFHuge value _ => bigEndian 4 (len32 value) ++ value.flatMap hugeBytes

theorem appends_exec {c : WriteCall} (h : c.Valid) (hlen : c.encode.length < 2 ^ 30) :
    Appends (fun o => c.exec o) c.encode := by
  cases c with
  | write value => exact appends_write value
  | writeBoolean value => exact appends_write _
  | writeInt16 signed value => exact appends_writeInt16 value
  | writeInt32 signed value => exact appends_writeInt32 value
  | writeInt64 signed value => exact appends_writeBigEndian (by decide) value
  | writeArrayLen len => exact appends_writeArrayLen len
  | writeBytes value =>
    rw [WriteCall.encode, length_append] at hlen
    have hint := toInt_len32 (l := value) (by omega)
    have hnat := toNat_len32 (l := value) (by omega)
    have hwrite : Appends (fun o => o.writeBytes (some value) (len32 value)) _ :=
      appends_writeBytes (by omega) (by omega) (by omega)
    rwa [hnat, take_length] at hwrite
  | writeASCII value length => exact appends_writeASCII h.1 h.2
  | writeASCIIHuge value length =>
    rw [WriteCall.encode, length_append] at hlen
    exact appends_writeASCIIHuge h (by omega)
  | writeUTF value length => exact appends_writeWideUTF h.1 h.2.1 h.2.2
  | writeUTFHuge value length =>
    rw [WriteCall.encode, length_append, length_flatMap_hugeBytes] at hlen
    exact appends_writeWideUTFHuge h.1 (by omega)

theorem reads_exec {c : WriteCall} (h : c.Valid) (hlen : c.encode.length < 2 ^ 30) :
    Reads c.matching.exec c.encode c.value := by
  cases c with
  | write value => exact (reads_read value).map _
  | writeBoolean value => exact (reads_readBoolean value).map _
  | writeInt16 signed value =>
    cases signed with
    | true => exact (reads_readSigned 2 value).map _
    | false => exact (reads_readInt16 value).map _
  | writeInt32 signed value =>
    cases signed with
    | true => exact (reads_readSigned 4 value).map _
    | false => exact (reads_readInt32 value).map _
  | writeInt64 signed value =>
    cases signed with
    | true => exact (reads_readSigned 8 value).map _
    | false => exact (reads_readBigEndian 8 value).map _
  | writeArrayLen len => exact (reads_readArrayLen h).map _
  | writeBytes value =>
    rw [WriteCall.encode, length_append] at hlen
    exact (reads_readBytes (by omega)).map fun r => ReadValue.bytes r.1 r.2
  | writeASCII value length => exact (reads_readASCII h.2).map _
  | writeASCIIHuge value length =>
    rw [WriteCall.encode, length_append] at hlen
    exact (reads_readASCIIHuge (by omega)).map _
  | writeUTF value length => exact (reads_readWideUTF h.2.1 h.2.2).map _
  | writeUTFHuge value length =>
    rw [WriteCall.encode, length_append, length_flatMap_hugeBytes] at hlen
    exact (reads_readWideUTFHuge h.2 (by omega)).map _

/-- The calls in a row, on a new output whose buffer has this size. -/
def writeAll (size : BitVec 32) (calls : List WriteCall) : DataOutput :=
  calls.foldl WriteCall.exec ⟨[], size, false⟩

/-- The reads in a row. -/
def readAll : List ReadCall → Read (List ReadValue)
  | [] => return []
  | call :: calls => do
    let value ← call.exec
    let values ← readAll calls
    return value :: values

theorem reads_readAll {calls : List WriteCall} (h : ∀ c ∈ calls, c.Valid)
    (hlen : (calls.flatMap WriteCall.encode).length < 2 ^ 30) :
    Reads (readAll (calls.map WriteCall.matching)) (calls.flatMap WriteCall.encode)
      (calls.map WriteCall.value) := by
  induction calls with
  | nil => exact Reads.pure []
  | cons c calls ih =>
    rw [flatMap_cons, length_append] at hlen
    have hcall := reads_exec (h c mem_cons_self) (by omega)
    have hrest := ih (fun d hd => h d (mem_cons_of_mem c hd)) (by omega)
    exact hcall.bind (hrest.map fun values => c.value :: values)

/-- Every sequence of calls writes its bytes, without leaving the buffer, and the matching reads
return the values in order and take all of the bytes. -/
theorem roundTrip (size : BitVec 32) (hsize : 8192 ≤ size.toNat) (calls : List WriteCall)
    (h : ∀ c ∈ calls, c.Valid) (hlen : (calls.flatMap WriteCall.encode).length < 2 ^ 30) :
    (writeAll size calls).fault = false ∧
      (writeAll size calls).bytes = calls.flatMap WriteCall.encode ∧
      ∃ s, readAll (calls.map WriteCall.matching) ⟨(writeAll size calls).bytes, 0⟩ =
          .ok (calls.map WriteCall.value) s ∧ getBytesRemaining s = 0 := by
  have hcalls : Appends (fun o => calls.foldl WriteCall.exec o)
      (calls.flatMap WriteCall.encode) := by
    refine Appends.foldl fun c hc => appends_exec (h c hc) ?_
    have hle : c.encode.length ≤ (calls.flatMap WriteCall.encode).length :=
      (sublist_flatten_of_mem (mem_map_of_mem hc)).length_le
    omega
  have hnew : Room ⟨[], size, false⟩ 0 := ⟨hsize, Nat.zero_le _, rfl⟩
  have hroom := hcalls.room _ 0 hnew (by rw [length_nil]; omega)
  have hbytes : (writeAll size calls).bytes = calls.flatMap WriteCall.encode := hcalls.bytes _
  refine ⟨hroom.fault, hbytes, ⟨calls.flatMap WriteCall.encode,
    (calls.flatMap WriteCall.encode).length⟩, ?_, ?_⟩
  · have hread := reads_readAll h hlen [] []
    rw [append_nil] at hread
    rw [hbytes]
    exact hread
  · exact Int.sub_self _

/-- One call of each kind of encoding. -/
def sampleCalls : List WriteCall :=
  [.writeInt32 true (-2), .writeArrayLen 300, .writeBytes [], .writeBytes [1, 2],
    .writeASCII [72, 105] 0, .writeUTF [65, 0xE9, 0x20AC] 3, .writeUTFHuge [0x20AC] 0]

theorem roundTrip_sample :
    (∀ c ∈ sampleCalls, c.Valid) ∧
      ∃ s, readAll (sampleCalls.map WriteCall.matching) ⟨(writeAll 8192 sampleCalls).bytes, 0⟩ =
        .ok (sampleCalls.map WriteCall.value) s ∧ getBytesRemaining s = 0 := by
  have hvalid : ∀ c ∈ sampleCalls, c.Valid := by decide +kernel
  exact ⟨hvalid, (roundTrip 8192 (by decide) sampleCalls hvalid (by decide +kernel)).2.2⟩

end GeodeNative.Serialization

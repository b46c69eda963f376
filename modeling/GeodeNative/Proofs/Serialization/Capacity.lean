import GeodeNative.Lib.Run
import GeodeNative.Proofs.Serialization.RoundTrip

/-!
# The room that the writes ask for

A write asks for room with `ensureCapacity` and then stores its bytes without a check. For most
writes the room is what they store, and a buffer that starts with 8192 bytes always has it
(`Room.ensureCapacity`). Three writes are different.

- `writeFullUTF` asks for the encoded length and then stores one byte more. The last byte is outside
  of a buffer that has exactly the room that was asked for.
- `writeUTF` cuts the encoded length to 64K. A character that begins before this end is stored as a
  whole, so up to two bytes come behind it before the cursor is set back.
- `writeBytes` of a null pointer asks for the length that was passed, which is not bounded by what
  is written, and the 32-bit arithmetic of `ensureCapacity` can overflow.

`WriteOp.Fits` says when the room suffices, from the state before the write and its arguments, and
`capacity_suffices_iff` that the states of a run are all in bounds exactly when each write fits.
-/

set_option autoImplicit false

namespace GeodeNative.Serialization

open Lib DataOutput List

/-! ### The encoding loop -/

section
variable {C : Type} (encode : C → List Byte) (memory : List C) {o : DataOutput} {encodedLen : Nat}

/-- The loop and the step back to its end: what counts is what the loop stores. -/
theorem Room.encodeAll_iff (h : Room o 0) (henough : encodedLen ≤ (memory.flatMap encode).length) :
    Room (o.encodeAll encode memory encodedLen) 0 ↔
      o.bytes.length + (encodedUntil encode encodedLen memory).length ≤ o.size.toNat := by
  constructor
  · intro hafter
    obtain ⟨-, -, hstored⟩ := (fault_encodeAll_iff encode memory).mp hafter.fault
    by_cases hpos : 0 < encodedLen
    · exact hstored hpos
    · rw [Nat.eq_zero_of_not_pos hpos, encodedUntil_zero]
      exact h.free
  · intro hle
    have hroom : Room o (encodedUntil encode encodedLen memory).length := ⟨h.size, hle, h.fault⟩
    exact (hroom.encodeAll encode memory henough (Nat.le_refl _)).mono (Nat.zero_le _)

/-- Characters of up to three bytes: the loop stores up to two bytes behind the end. -/
theorem length_encodedUntil_le (hthree : ∀ c, (encode c).length ≤ 3) (n : Nat) :
    (encodedUntil encode n memory).length ≤ n + 2 := by
  induction memory generalizing n with
  | nil => exact Nat.zero_le _
  | cons c cs ih =>
    have hc := hthree c
    have hrest := ih (n - (encode c).length)
    unfold encodedUntil
    split
    · rw [length_append]
      by_cases hend : n ≤ (encode c).length
      · rw [Nat.sub_eq_zero_of_le hend, encodedUntil_zero, length_nil]
        omega
      · omega
    · exact Nat.zero_le _

/-- The length of the output after the loop and the step back to its end. -/
theorem length_encodeAll (o : DataOutput) (henough : encodedLen ≤ (memory.flatMap encode).length) :
    (o.encodeAll encode memory encodedLen).bytes.length = o.bytes.length + encodedLen := by
  rw [bytes_encodeAll, length_append, length_take, Nat.min_eq_left henough]

end

/-! ### Strings -/

section
variable {size start : Nat} (hsize : 8192 ≤ size) (hin : start ≤ size)
include hsize hin

/-- After a request there is room for one byte more, unless the room was just what was asked for. -/
theorem lt_grown_iff (request : Nat) :
    start + request < grown size start request ↔ size ≠ start + request := by
  unfold grown
  split <;> omega

/-- After a request there is room for up to two bytes more in all but two cases: the room was
enough for the request only, or a buffer of 8192 bytes was full and grows by one byte more than
requested. -/
theorem le_grown_iff {request stored : Nat} (hstored : stored ≤ request + 2) :
    start + stored ≤ grown size start request ↔
      ¬ (start + request ≤ size ∧ size < start + stored) ∧
        ¬ (size = 8192 ∧ start = 8192 ∧ request % 8192 = 8191 ∧ stored = request + 2) := by
  unfold grown
  split <;> omega

end

/-- A `length` argument does not pass the terminator. -/
def ReadableString {w : Nat} (value : List (BitVec w)) (length : BitVec 32) : Prop :=
  length.toNat ≤ (memory value).length

section
variable {w : Nat} {value : List (BitVec w)} {length : BitVec 32}

theorem ReadableString.lengthOr (h : ReadableString value length) :
    (lengthOr value length).toNat ≤ (memory value).length := by
  unfold DataOutput.lengthOr
  split
  · have htake : (value.takeWhile (· ≠ 0)).length ≤ value.length :=
      ( takeWhile_prefix _).length_le
    rw [strlen, BitVec.toNat_ofNat, memory, length_append]
    exact Nat.le_trans (Nat.mod_le _ _) (Nat.le_trans htake (Nat.le_add_right _ _))
  · exact h

theorem visited_append (value : List (BitVec w)) (length : BitVec 32) :
    ∃ rest, memory value = visited value length ++ rest := by
  unfold visited
  split
  · refine ⟨value.dropWhile (· ≠ 0) ++ [0], ?_⟩
    rw [← append_assoc, takeWhile_append_dropWhile]
    rfl
  · exact ⟨_, (take_append_drop _ _).symm⟩

end

/-- A narrow character has up to two bytes. -/
theorem length_encodeChar_le (c : Byte) : (encodeChar c).length ≤ 3 := by
  unfold encodeChar
  split <;> simp

/-- A unit of a wide string has up to three bytes. -/
theorem length_encodeWideChar_le (c : WChar) : (encodeWideChar c).length ≤ 3 := by
  unfold encodeWideChar
  dsimp only
  split_ifs <;> simp

/-- The characters that `getEncodedLength` visits are there, and the loop stores just these. -/
theorem encodedUntil_visited (value : List Byte) (length : BitVec 32) :
    getEncodedLength value length ≤ ((memory value).flatMap encodeChar).length ∧
      (encodedUntil encodeChar (getEncodedLength value length) (memory value)).length =
        getEncodedLength value length := by
  obtain ⟨rest, hmemory⟩ := visited_append value length
  rw [hmemory, getEncodedLength_eq, encodedUntil_whole, flatMap_append, length_append]
  exact ⟨Nat.le_add_right _ _, rfl⟩

/-! ### The writes -/

namespace WriteOp

/-- The memory that the arguments describe is there. -/
def Readable : WriteOp → Prop
  | writeBytes (some bytes) len => 0 ≤ len.toInt → len.toNat ≤ bytes.length
  | writeBytesOnly bytes len => len.toNat ≤ bytes.length
  | writeASCII (some value) length => ReadableString value length
  | writeASCIIHuge (some value) length => ReadableString value length
  | writeFullUTF (some value) length => ReadableString value length
  | writeUTF (some value) length => ReadableString value length
  | writeWideUTF (some value) length => ReadableString value length
  | writeUTFHuge (some value) length => ReadableString value length
  | writeWideUTFHuge (some value) length => ReadableString value length
  | _ => True

/-- When `writeUTF` stays in the buffer. The characters in memory fill the encoded length. It is
not so that the room behind the length suffices for the encoded length but not for what the loop
stores, which can be up to two bytes more. And a buffer of 8192 bytes that is full behind the
length does not grow by just two bytes too little. -/
def UTFFits {C : Type} (o : DataOutput) (encode : C → List Byte) (memory : List C) (len : Nat) :
    Prop :=
  let encodedLen := min len 0xFFFF
  let stored := (encodedUntil encode encodedLen memory).length
  let start := o.bytes.length + 2
  let size := grown o.size.toNat o.bytes.length 2
  encodedLen ≤ (memory.flatMap encode).length ∧
    ¬ (start + encodedLen ≤ size ∧ size < start + stored) ∧
    ¬ (size = 8192 ∧ start = 8192 ∧ encodedLen % 8192 = 8191 ∧ stored = encodedLen + 2)

/-- The room that the write asks for suffices. For `writeFullUTF` it does not when the room behind
the length is exactly the encoded length, since one byte more is stored. -/
def Fits (o : DataOutput) : WriteOp → Prop
  | writeBytes none len =>
    let offset := o.bytes.length
    let size := grown o.size.toNat offset (len.toNat + 5) % 2 ^ 32
    0 ≤ len.toInt → offset ≤ size ∧ 8192 ≤ grown size offset 1
  | writeFullUTF (some value) length =>
    let encodedLen := getEncodedLength value length
    let offset := o.bytes.length
    encodedLen = 0 ∨ grown o.size.toNat offset 4 ≠ offset + 4 + encodedLen
  | writeUTF (some value) length =>
    UTFFits o encodeChar (memory value) (getEncodedLength value length)
  | writeWideUTF (some value) length =>
    UTFFits o encodeWideChar (memory value) (getWideEncodedLength value length)
  | _ => True

end WriteOp

section
variable {o : DataOutput} (h : Room o 0)
include h

theorem Room.appends {f : DataOutput → DataOutput} {bs : List Byte} (hf : Appends f bs)
    (hlen : (f o).bytes.length < 2 ^ 30) : Room (f o) 0 := by
  rw [hf.bytes, length_append] at hlen
  exact (hf.room o 0 h (by omega)).mono (Nat.zero_le _)

omit h in
/-- One byte, in any state without a fault. When the cursor is behind the end, the free room is a
large number in 32 bits, and the buffer does not grow. -/
theorem room_write_iff (hfault : o.fault = false) (hlen : o.bytes.length + 1 < 2 ^ 30)
    (value : Byte) : Room (o.write value) 0 ↔
      o.bytes.length ≤ o.size.toNat ∧ 8192 ≤ grown o.size.toNat o.bytes.length 1 := by
  have hbytes : (o.write value).bytes.length = o.bytes.length + 1 := by
    rw [bytes_write, length_append, length_singleton]
  by_cases hin : o.bytes.length ≤ o.size.toNat
  · have hone : (1 : BitVec 32).toNat = 1 := rfl
    have hsize : (o.write value).size.toNat = grown o.size.toNat o.bytes.length 1 := by
      show (o.ensureCapacity 1).size.toNat = _
      rw [size_ensureCapacity hin, hone]
      apply Nat.mod_eq_of_lt
      unfold grown
      split <;> omega
    constructor
    · rintro ⟨h8192, -, -⟩
      rw [hsize] at h8192
      exact ⟨hin, h8192⟩
    · rintro ⟨-, h8192⟩
      have hnext : o.bytes.length + 1 ≤ grown o.size.toNat o.bytes.length 1 := by
        unfold grown at h8192 ⊢
        split <;> split at h8192 <;> omega
      rw [← hsize] at h8192 hnext
      refine ⟨h8192, by omega, ?_⟩
      show ((o.ensureCapacity 1).fault || decide _) = false
      rw [fault_ensureCapacity, hfault, Bool.false_or, decide_eq_false_iff_not,
        bytes_ensureCapacity]
      exact Nat.not_lt.mpr hnext
  · refine iff_of_false ?_ fun h => hin h.1
    rintro ⟨-, hroom, -⟩
    have hcursor : o.getBufferLength.toNat = o.bytes.length := toNat_ofNat_of_lt (by omega)
    have hnot : ¬ o.size - o.getBufferLength < 1 := by
      rw [BitVec.lt_def, BitVec.toNat_sub, hcursor]
      simp
      omega
    have hkept : (o.write value).size = o.size := by
      show (o.ensureCapacity 1).size = o.size
      rw [DataOutput.ensureCapacity]
      simp only [if_neg hnot]
    rw [hkept] at hroom
    omega

variable {len : BitVec 32} {length : BitVec 32} {value : List Byte}

/-- `writeBytes` of a null pointer: the size after the first request decides. -/
theorem Room.writeBytes_null_iff (hlen : 0 ≤ len.toInt)
    (hout : (o.writeBytes none len).bytes.length < 2 ^ 30) :
    Room (o.writeBytes none len) 0 ↔ WriteOp.Fits o (.writeBytes none len) := by
  have hfree := h.free
  have hfive : (len + 5).toNat = len.toNat + 5 := by
    have hint := BitVec.toInt_eq_toNat_cond len
    split at hint
    · exact Nat.mod_eq_of_lt (by simp; omega)
    · omega
  have hwrite : o.writeBytes none len = (o.ensureCapacity (len + 5)).write 0 := by
    simp only [DataOutput.writeBytes, if_pos hlen]
    rfl
  rw [hwrite, bytes_write, length_append, bytes_ensureCapacity] at hout
  rw [hwrite, room_write_iff ((fault_ensureCapacity o _).trans h.fault)
    (by rw [bytes_ensureCapacity]; exact hout), bytes_ensureCapacity,
      size_ensureCapacity (by omega),
    hfive]
  simp only [WriteOp.Fits, forall_prop_of_true hlen]

theorem Room.writeBytes {src : List Byte} (hlen : 0 ≤ len.toInt) (hsrc : len.toNat ≤ src.length)
    (hout : (o.writeBytes (some src) len).bytes.length < 2 ^ 30) :
    Room (o.writeBytes (some src) len) 0 := by
  have hsmall : len.toNat < 2 ^ 30 := by
    -- the bytes are a part of the output
    by_contra hbig
    have hpos : 0 < len.toInt := by
      have hint := BitVec.toInt_eq_toNat_cond len
      split at hint <;> omega
    simp only [DataOutput.writeBytes, if_pos hlen, if_pos hpos, bytes_copy, length_append,
      length_take] at hout
    omega
  exact Room.appends h (appends_writeBytes hlen hsrc hsmall) hout

theorem Room.writeASCII (hread : ReadableString value length)
    (hout : (o.writeASCII (some value) length).bytes.length < 2 ^ 30) :
    Room (o.writeASCII (some value) length) 0 := by
  have hlength := hread.lengthOr
  generalize hL : lengthOr value length = L at hlength
  have hcut : (((if L > 0xFFFF then 0xFFFF else L).setWidth 16 : BitVec 16).setWidth 32).toNat ≤
      (memory value).length := by
    refine Nat.le_trans ?_ hlength
    rw [BitVec.toNat_setWidth, BitVec.toNat_setWidth]
    split
    · rename_i hbig
      exact Nat.le_of_lt hbig
    · exact Nat.le_trans (Nat.mod_le _ _) (Nat.mod_le _ _)
  have hboth := (appends_writeInt16 ((if L > 0xFFFF then 0xFFFF else L).setWidth 16)).comp
    (appends_writeBytesOnly (memory value) hcut)
  simp only [DataOutput.writeASCII, hL] at hout ⊢
  exact Room.appends h hboth hout

theorem Room.writeASCIIHuge (hread : ReadableString value length)
    (hout : (o.writeASCIIHuge (some value) length).bytes.length < 2 ^ 30) :
    Room (o.writeASCIIHuge (some value) length) 0 :=
  Room.appends h ((appends_writeInt32 (lengthOr value length)).comp
    (appends_writeBytesOnly (memory value) hread.lengthOr)) hout

theorem Room.writeUTFHugeWith {w : Nat} {value : List (BitVec w)} {encode : BitVec w → List Byte}
    (htwo : ∀ c, (encode c).length = 2) (hread : ReadableString value length)
    (hout : (o.writeUTFHugeWith (some value) length encode).bytes.length < 2 ^ 30) :
    Room (o.writeUTFHugeWith (some value) length encode) 0 := by
  have hlength := hread.lengthOr
  have hsmall : (lengthOr value length).toNat < 2 ^ 30 := by
    -- two bytes of output for each character
    have hbytes : (o.writeUTFHugeWith (some value) length encode).bytes = _ :=
      bytes_foldl _ (fun o c => bytes_store o (encode c)) _
    rw [hbytes, length_append, length_flatMap_two htwo, length_take] at hout
    omega
  exact Room.appends h (appends_writeUTFHugeWith value length htwo hlength hsmall) hout

/-- The output after an integer and a request for room behind it, and its size. -/
theorem Room.writeBigEndian_ensureCapacity {n w : Nat} (hn : n < 8192) (value : BitVec w)
    {size : BitVec 32} (hlen : o.bytes.length + n + size.toNat < 2 ^ 30 + 2 ^ 28) :
    Room ((o.writeBigEndian n value).ensureCapacity size) 0 ∧
      ((o.writeBigEndian n value).ensureCapacity size).size.toNat =
        grown (grown o.size.toNat o.bytes.length n) (o.bytes.length + n) size.toNat ∧
      ((o.writeBigEndian n value).ensureCapacity size).bytes.length = o.bytes.length + n := by
  have hnat : (BitVec.ofNat 32 n).toNat = n := toNat_ofNat_of_lt (by omega)
  have hcapacity := h.ensureCapacity (BitVec.ofNat 32 n) (by omega)
  have hsize : (o.writeBigEndian n value).size.toNat = grown o.size.toNat o.bytes.length n :=
    (h.size_ensureCapacity (BitVec.ofNat 32 n) (by omega)).trans (by rw [hnat])
  have hbytes : (o.writeBigEndian n value).bytes.length = o.bytes.length + n := by
    rw [bytes_writeBigEndian, length_append, length_bigEndian]
  have hint : Room (o.writeBigEndian n value) _ :=
    hcapacity.store (bigEndian n value) (by rw [length_bigEndian, hnat]; omega)
  refine ⟨(hint.ensureCapacity size (by omega)).mono (Nat.zero_le _), ?_, ?_⟩
  · rw [hint.size_ensureCapacity size (by omega), hsize, hbytes]
  · rw [bytes_ensureCapacity, hbytes]

/-- `writeUTF` fits exactly when there is room for what its loop stores. -/
theorem Room.writeUTFWith_iff {C : Type} {encode : C → List Byte} {memory : List C} {len : Nat}
    (hthree : ∀ c, (encode c).length ≤ 3)
    (hout : (o.writeUTFWith encode memory len).bytes.length < 2 ^ 30) :
    Room (o.writeUTFWith encode memory len) 0 ↔ WriteOp.UTFFits o encode memory len := by
  have hcut : (if len > 0xFFFF then 0xFFFF else len) = min len 0xFFFF := by
    split <;> omega
  have hnat : (BitVec.ofNat 16 (min len 0xFFFF)).toNat = min len 0xFFFF :=
    toNat_ofNat_of_lt (by omega)
  have hwide : ((BitVec.ofNat 16 (min len 0xFFFF)).setWidth 32).toNat = min len 0xFFFF :=
    (BitVec.toNat_setWidth_of_le (by decide)).trans hnat
  unfold DataOutput.writeUTFWith at hout ⊢
  simp only [hcut, hnat] at hout ⊢
  unfold WriteOp.UTFFits
  by_cases henough : min len 0xFFFF ≤ (memory.flatMap encode).length
  · rw [length_encodeAll encode memory _ henough, bytes_ensureCapacity, DataOutput.writeInt16,
      bytes_writeBigEndian, length_append, length_bigEndian] at hout
    obtain ⟨hcapacity, hsize, hbytes⟩ := Room.writeBigEndian_ensureCapacity h (n := 2) (by decide)
      (BitVec.ofNat 16 (min len 0xFFFF))
      (show _ + ((BitVec.ofNat 16 (min len 0xFFFF)).setWidth 32).toNat < _ by rw [hwide]; omega)
    have hgrown := le_grown 2 h.size (show o.bytes.length ≤ o.size.toNat from h.free)
    rw [DataOutput.writeInt16, Room.encodeAll_iff encode memory hcapacity henough, hbytes, hsize,
      hwide, and_iff_right henough]
    exact le_grown_iff (Nat.le_trans h.size hgrown.1) hgrown.2
      (length_encodedUntil_le encode memory hthree _)
  · refine iff_of_false ?_ fun hfits => henough hfits.1
    intro hafter
    exact henough ((fault_encodeAll_iff encode memory).mp hafter.fault).2.1

/-- `writeFullUTF` stores one byte more than it asks for. -/
theorem Room.writeFullUTF_iff (hout : (o.writeFullUTF (some value) length).bytes.length < 2 ^ 30) :
    Room (o.writeFullUTF (some value) length) 0 ↔
      WriteOp.Fits o (.writeFullUTF (some value) length) := by
  obtain ⟨henough, hexact⟩ := encodedUntil_visited value length
  unfold WriteOp.Fits
  unfold DataOutput.writeFullUTF at hout ⊢
  simp only at hout ⊢
  generalize getEncodedLength value length = e at *
  rw [length_encodeAll encodeChar _ _ henough, bytes_write, length_append,
    length_singleton, bytes_ensureCapacity, DataOutput.writeInt32, bytes_writeBigEndian,
    length_append, length_bigEndian] at hout
  have hnat : (BitVec.ofNat 32 e).toNat = e := toNat_ofNat_of_lt (by omega)
  obtain ⟨hcapacity, hsize, hbytes⟩ := Room.writeBigEndian_ensureCapacity h (n := 4) (by decide)
    (BitVec.ofNat 32 e) (show _ + (BitVec.ofNat 32 e).toNat < _ by rw [hnat]; omega)
  rw [hnat] at hsize
  -- the byte 0 takes its room from the room for the characters, if there is any
  have hzero := Room.appends hcapacity (appends_write 0) (by
    rw [bytes_write, length_append, length_singleton, hbytes]
    omega)
  have hone : (1 : BitVec 32).toNat = 1 := rfl
  have hsize' := hcapacity.size_ensureCapacity 1 (by
    omega)
  have h8192 := h.size
  have hin : o.bytes.length ≤ o.size.toNat := h.free
  have hgrown := le_grown 4 h8192 hin
  have hgrown' := le_grown e (Nat.le_trans h8192 hgrown.1) hgrown.2
  rw [← lt_grown_iff (Nat.le_trans h8192 hgrown.1) hgrown.2, DataOutput.writeInt32,
    Room.encodeAll_iff encodeChar (memory value) hzero henough, hexact,
    bytes_write, length_append, length_singleton, hbytes]
  show _ ≤ (((o.writeBigEndian 4 _).ensureCapacity _).ensureCapacity 1).size.toNat ↔ _
  rw [hsize']
  generalize grown (grown o.size.toNat o.bytes.length 4) (o.bytes.length + 4) e = final at *
  unfold grown
  split <;> omega

end

/-! ### Runs of writes -/

namespace WriteOp

/-- One write: the output stays in bounds exactly when the write fits. -/
theorem room_exec_iff {o : DataOutput} {op : WriteOp} (h : Room o 0) (hread : op.Readable)
    (hout : (op.exec o).bytes.length < 2 ^ 30) : Room (op.exec o) 0 ↔ op.Fits o := by
  -- most writes append what they ask for
  have happends : ∀ {f : DataOutput → DataOutput} {bs : List Byte}, Appends f bs →
      (f o).bytes.length < 2 ^ 30 → (Room (f o) 0 ↔ True) :=
    fun hf hlen => iff_of_true (Room.appends h hf hlen) trivial
  cases op with
  | write value => exact happends (appends_write value) hout
  | writeInt16 value => exact happends (appends_writeInt16 value) hout
  | writeInt32 value => exact happends (appends_writeInt32 value) hout
  | writeInt64 value => exact happends (appends_writeBigEndian (by decide) value) hout
  | writeArrayLen len => exact happends (appends_writeArrayLen len) hout
  | writeBytes bytes len =>
    by_cases hlen : 0 ≤ len.toInt
    · cases bytes with
      | none => exact Room.writeBytes_null_iff h hlen hout
      | some src => exact iff_of_true (Room.writeBytes h hlen (hread hlen) hout) trivial
    · have hroom : Room (o.writeBytes bytes len) 0 := by
        simp only [exec, DataOutput.writeBytes, if_neg hlen] at hout ⊢
        exact Room.appends h (appends_write 0xFF) hout
      refine iff_of_true hroom ?_
      cases bytes with
      | none => exact fun hpos => absurd hpos hlen
      | some src => trivial
  | writeBytesOnly bytes len => exact happends (appends_writeBytesOnly bytes hread) hout
  | writeASCII value length =>
    cases value with
    | none => exact happends (appends_writeInt16 0) hout
    | some value => exact iff_of_true (Room.writeASCII h hread hout) trivial
  | writeASCIIHuge value length =>
    cases value with
    | none => exact happends (appends_writeInt32 0) hout
    | some value => exact iff_of_true (Room.writeASCIIHuge h hread hout) trivial
  | writeFullUTF value length =>
    cases value with
    | none => exact happends (appends_writeInt16 0) hout
    | some value => exact Room.writeFullUTF_iff h hout
  | writeUTF value length =>
    cases value with
    | none => exact happends (appends_writeInt16 0) hout
    | some value => exact Room.writeUTFWith_iff h length_encodeChar_le hout
  | writeWideUTF value length =>
    cases value with
    | none => exact happends (appends_writeInt16 0) hout
    | some value => exact Room.writeUTFWith_iff h length_encodeWideChar_le hout
  | writeUTFHuge value length | writeWideUTFHuge value length =>
    cases value with
    | none => exact happends (appends_writeInt32 0) hout
    | some value => exact iff_of_true (Room.writeUTFHugeWith h (fun _ => rfl) hread hout) trivial

/-- Every write appends bytes that do not depend on the output. -/
theorem uniform_exec (op : WriteOp) : Uniform fun o => op.exec o := by
  cases op with
  | write value => exact uniform_write value
  | writeInt16 value => exact uniform_writeBigEndian 2 value
  | writeInt32 value => exact uniform_writeBigEndian 4 value
  | writeInt64 value => exact uniform_writeBigEndian 8 value
  | writeArrayLen len => exact uniform_writeArrayLen len
  | writeBytes bytes len => exact uniform_writeBytes bytes len
  | writeBytesOnly bytes len => exact (uniform_ensureCapacity len).comp (uniform_copy bytes _)
  | writeASCII value length => exact uniform_writeASCII value length
  | writeASCIIHuge value length =>
    cases value with
    | none => exact uniform_writeBigEndian 4 (0 : BitVec 32)
    | some value =>
      exact (uniform_writeBigEndian 4 _).comp ((uniform_ensureCapacity _).comp (uniform_copy _ _))
  | writeFullUTF value length =>
    cases value with
    | none => exact uniform_writeBigEndian 2 (0 : BitVec 16)
    | some value =>
      exact (((uniform_writeBigEndian 4 _).comp (uniform_ensureCapacity _)).comp
        (uniform_write 0)).comp (uniform_encodeAll _ _ _)
  | writeUTF value length | writeWideUTF value length =>
    cases value with
    | none => exact uniform_writeBigEndian 2 (0 : BitVec 16)
    | some value => exact uniform_writeUTFWith _ _ _
  | writeUTFHuge value length | writeWideUTFHuge value length =>
    exact uniform_writeUTFHugeWith value length _

end WriteOp

/-- Every byte was stored inside of the buffer, the cursor is inside of it, and it has the size of a
new buffer or more. -/
structure InBounds (o : DataOutput) : Prop where
  stored : o.fault = false
  cursor : o.getBufferLength ≤ o.size
  size : 8192 ≤ o.size.toNat

theorem inBounds_iff_room {o : DataOutput} (hlen : o.bytes.length < 2 ^ 30) :
    InBounds o ↔ Room o 0 := by
  have hcursor : o.getBufferLength.toNat = o.bytes.length := toNat_ofNat_of_lt (by omega)
  constructor
  · rintro ⟨hstored, hle, hsize⟩
    rw [BitVec.le_def, hcursor] at hle
    exact ⟨hsize, hle, hstored⟩
  · rintro ⟨hsize, hle, hstored⟩
    refine ⟨hstored, ?_, hsize⟩
    rw [BitVec.le_def, hcursor]
    exact hle

/-- `writeUTF` of a short string fits: nothing is cut off. -/
theorem WriteOp.fits_writeUTF (o : DataOutput) {value : List Byte} {length : BitVec 32}
    (hshort : getEncodedLength value length ≤ 0xFFFF) :
    WriteOp.Fits o (.writeUTF (some value) length) := by
  obtain ⟨henough, hexact⟩ := encodedUntil_visited value length
  have hmin : min (getEncodedLength value length) 0xFFFF = getEncodedLength value length := by omega
  unfold WriteOp.Fits WriteOp.UTFFits
  simp only [hmin, hexact]
  exact ⟨henough, by omega, by omega⟩

/-- A buffer of 8192 bytes with 6 bytes left. -/
def nearlyFull : DataOutput := ⟨replicate 8186 0, 8192, false⟩

theorem inBounds_nearlyFull : InBounds nearlyFull := by
  refine ⟨rfl, ?_, by decide⟩
  rw [BitVec.le_def, getBufferLength, nearlyFull, length_replicate]
  decide

/-- A buffer with 6 bytes left grows for a number of eight bytes. -/
theorem size_writeInt64_grown {o : DataOutput} (hlen : o.bytes.length = 8186)
    (hsize : o.size = 8192) :
    (o.writeInt64 7).size = 16384 ∧
      (run WriteOp.exec o [.writeInt64 7, .writeUTF (some [104, 105]) 0]).bytes.length = 8198 := by
  constructor
  · show (o.ensureCapacity 8).size = 16384
    rw [ensureCapacity, getBufferLength, hlen, hsize]
    rfl
  · have hencoded : getEncodedLength [104, 105] 0 = 2 := by decide
    show ((o.writeInt64 7).writeUTF (some [104, 105]) 0).bytes.length = 8198
    simp only [writeUTF, writeUTFWith, hencoded, bytes_encodeAll, bytes_ensureCapacity, writeInt16,
      writeInt64, bytes_writeBigEndian, length_append, length_take, length_bigEndian, hlen]
    rfl

section
variable {C : Type} (encode : C → List Byte)

/-- The loop stores the bytes of the characters that it reads. -/
theorem length_encodeUntil (stop : Nat) (cs : List C) (o : DataOutput) :
    (encodeUntil encode stop cs o).bytes.length =
      o.bytes.length + ((cs.take (roundsUntil encode stop cs o)).flatMap encode).length := by
  induction cs generalizing o with
  | nil =>
    rw [encodeUntil]
    split <;> rfl
  | cons c cs ih =>
    rw [encodeUntil, roundsUntil]
    split
    · rw [ih, take_succ_cons, flatMap_cons, length_append, ← Nat.add_assoc]
      exact congrArg (· + _) length_append
    · rfl

/-- The loop ends with the character that reaches the end. -/
theorem roundsUntil_eq_iff {stop : Nat} {cs : List C} {k : Nat} (hk : k + 1 < cs.length)
    (o : DataOutput) :
    roundsUntil encode stop cs o = k + 1 ↔
      o.bytes.length + ((cs.take k).flatMap encode).length < stop ∧
        stop ≤ o.bytes.length + ((cs.take (k + 1)).flatMap encode).length := by
  induction cs generalizing o k with
  | nil => simp at hk
  | cons c cs ih =>
    rw [roundsUntil]
    by_cases hmore : o.bytes.length < stop
    · rw [if_pos hmore, Nat.add_right_cancel_iff]
      cases k with
      | zero =>
        cases cs with
        | nil => simp at hk
        | cons d cs => simp [roundsUntil, hmore]
      | succ k =>
        rw [ih (by simpa using hk)]
        simp [Nat.add_assoc]
    · simp only [if_neg hmore, take_succ_cons, flatMap_cons, length_append]
      omega

end

/-- By how many bytes `getEncodedLength` counts a unit too long. It compares all 32 bits, signed,
and the encoding takes the low 16. So units of 16 bits are counted right, a larger one counts as
three bytes, and a negative one as one byte. -/
def miscount (c : WChar) : Int :=
  let low := c.toNat % 2 ^ 16
  if c.toNat < 2 ^ 16 then 0
  else
    (if c.toNat < 2 ^ 31 then 3 else 1) -
      if low = 0 then 2 else if low < 0x80 then 1 else if low < 0x800 then 2 else 3

/-- What a unit is counted as is what it is encoded as and its miscount. -/
theorem wideCharEncodedLength_eq (c : WChar) :
    (wideCharEncodedLength c : Int) = (encodeWideChar c).length + miscount c := by
  have hlow : (c.setWidth 16).toNat = c.toNat % 2 ^ 16 := BitVec.toNat_setWidth 16 c
  have hzero : c.setWidth 16 = 0 ↔ c.toNat % 2 ^ 16 = 0 := by
    rw [← BitVec.toNat_inj, hlow]
    rfl
  have h80 : c.setWidth 16 < 0x80 ↔ c.toNat % 2 ^ 16 < 0x80 := by
    rfl
  have h800 : c.setWidth 16 < 0x800 ↔ c.toNat % 2 ^ 16 < 0x800 := by
    rfl
  have hnull : c = 0 ↔ c.toNat = 0 := by
    rw [← BitVec.toNat_inj]
    rfl
  have hint := BitVec.toInt_eq_toNat_cond c
  unfold wideCharEncodedLength encodeWideChar miscount
  simp only [hzero, h80, h800, hnull, apply_ite List.length, length_cons, length_nil]
  split at hint <;> split_ifs <;> omega

/-- The miscounts of the units add up to what the computed length is too long by. -/
theorem sum_wideCharEncodedLength (value : List WChar) :
    ((value.map wideCharEncodedLength).sum : Int) =
      (value.flatMap encodeWideChar).length + (value.map miscount).sum := by
  induction value with
  | nil => rfl
  | cons c value ih =>
    have hc := wideCharEncodedLength_eq c
    simp only [map_cons, sum_cons, flatMap_cons, length_append, Nat.cast_add]
    omega

/-- The loop of `writeUTF` over a wide string with an explicit length, for all values of its units.
It reads as many units as it is told and stores as many bytes as were computed, exactly when the
miscounts of these units add up to zero, and the length is not negative as the `int32_t` that it is
passed on as. No unit of 16 bits is miscounted. -/
theorem writeWideUTF_exact_iff (o : DataOutput) {value : List WChar} {length : BitVec 32}
    (hlength : length ≠ 0) (hin : length.toNat ≤ value.length)
    (hshort : getWideEncodedLength value length ≤ 0xFFFF) :
    o.wideUTFLoop value length = (length.toNat, getWideEncodedLength value length) ↔
      length.toNat < 2 ^ 31 ∧ ((value.take length.toNat).map miscount).sum = 0 := by
  obtain ⟨k, hk⟩ : ∃ k, length.toNat = k + 1 :=
    Nat.exists_eq_succ_of_ne_zero fun h => hlength (BitVec.eq_of_toNat_eq h)
  have hnat : (BitVec.ofNat 16 (getWideEncodedLength value length)).toNat =
      getWideEncodedLength value length := toNat_ofNat_of_lt (by omega)
  have htake : ∀ n ≤ k + 1, (memory value).take n = value.take n := by
    intro n hn
    rw [memory, take_append_of_le_length (by omega)]
  have hmore : k + 1 < (memory value).length := by
    rw [memory, length_append, length_singleton]
    omega
  have hint := BitVec.toInt_eq_toNat_cond length
  have hlen : getWideEncodedLength value length =
      (((memory value).take length.toInt.toNat).map wideCharEncodedLength).sum := by
    rw [getWideEncodedLength, visited, if_neg hlength]
  simp only [wideUTFLoop, if_neg (show ¬ getWideEncodedLength value length > 0xFFFF by omega), hnat,
    length_encodeUntil, Prod.mk.injEq, Nat.add_sub_cancel_left]
  generalize (o.writeInt16 _).ensureCapacity _ = o'
  by_cases hsigned : length.toNat < 2 ^ 31
  · rw [if_pos (by omega), hk] at hint
    rw [hint, Int.toNat_natCast, htake _ (Nat.le_refl _)] at hlen
    have hsum := sum_wideCharEncodedLength (value.take (k + 1))
    rw [and_iff_right hsigned, hk]
    constructor
    · rintro ⟨hrounds, hbytes⟩
      rw [hrounds, htake _ (Nat.le_refl _)] at hbytes
      omega
    · intro hzero
      have hlast : ((value.take k).flatMap encodeWideChar).length <
          ((value.take (k + 1)).flatMap encodeWideChar).length := by
        rw [take_succ_eq_append_getElem (by omega), flatMap_append]
        have hpos := length_encodeWideChar_pos value[k]
        simp
        omega
      have hrounds : roundsUntil encodeWideChar
          (o'.bytes.length + getWideEncodedLength value length) (memory value) o' = k + 1 := by
        rw [roundsUntil_eq_iff encodeWideChar hmore,
          htake _ (Nat.le_succ k), htake _ (Nat.le_refl _)]
        omega
      rw [hrounds, htake _ (Nat.le_refl _)]
      exact ⟨rfl, by omega⟩
  · -- the length is negative, so nothing is counted and nothing read
    rw [Int.toNat_of_nonpos (by omega), take_zero, map_nil, sum_nil] at hlen
    refine iff_of_false ?_ fun h => hsigned h.1
    rintro ⟨hrounds, -⟩
    rw [hlen, hk] at hrounds
    cases hmem : memory value with
    | nil => simp [memory] at hmem
    | cons c cs => simp [hmem, roundsUntil] at hrounds

/-- A letter and the euro sign: units of 16 bits. The third unit is larger and is miscounted
neither, since its low 16 bits have three bytes. -/
theorem writeWideUTF_exact_hi :
    DataOutput.wideUTFLoop ⟨[], 8192, false⟩ [0x48, 0x20AC, 0x1F600] 3 = (3, 7) := by
  exact (writeWideUTF_exact_iff ⟨[], 8192, false⟩ (by decide) (by decide) (by decide)).mpr
    (by decide)

/-- The unit 0x10041 counts as three bytes and is emitted as one, so that the terminator and what
follows it are read. -/
theorem writeWideUTF_reads_on :
    getWideEncodedLength [0x10041, 0x42] 1 = 3 ∧
      DataOutput.wideUTFLoop ⟨[], 8192, false⟩ [0x10041, 0x42] 1 = (3, 4) := by decide

end GeodeNative.Serialization

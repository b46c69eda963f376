import GeodeNative.Serialization.DataOutput

/-!
# What the writes append

Every write of `DataOutput` appends bytes that do not depend on what was written before, and stays
inside of the buffer. `Appends f bs` states both for a write `f` and its bytes. The second part is
about `Room`: a buffer of at least 8192 bytes, with some bytes free behind the cursor. A write uses
the room that is there and asks for what is missing.

Writes in a row append their bytes in a row: `Appends.comp`.
-/

set_option autoImplicit false

namespace GeodeNative.Serialization.DataOutput

open Lib List

section
variable (o : DataOutput)

@[simp] theorem bytes_ensureCapacity (size : BitVec 32) :
    (o.ensureCapacity size).bytes = o.bytes := by
  unfold ensureCapacity
  dsimp only
  split <;> rfl

@[simp] theorem bytes_store (bs : List Byte) : (o.store bs).bytes = o.bytes ++ bs := rfl

@[simp] theorem bytes_copy (src : List Byte) (len : Nat) :
    (o.copy src len).bytes = o.bytes ++ src.take len := rfl

@[simp] theorem bytes_write (value : Byte) : (o.write value).bytes = o.bytes ++ [value] := by
  rw [write, bytes_store, bytes_ensureCapacity]

@[simp] theorem bytes_writeBigEndian (n : Nat) {w : Nat} (value : BitVec w) :
    (o.writeBigEndian n value).bytes = o.bytes ++ bigEndian n value := by
  rw [writeBigEndian, bytes_store, bytes_ensureCapacity]

@[simp] theorem bytes_advanceCursor (offset : BitVec 32) :
    (o.advanceCursor offset).bytes = o.bytes ++ replicate offset.toNat 0 := by
  rw [advanceCursor, bytes_store, bytes_ensureCapacity]

/-- Writes in a row append their bytes in a row. -/
theorem bytes_foldl {α : Type} {step : DataOutput → α → DataOutput} {encode : α → List Byte}
    (h : ∀ o a, (step o a).bytes = o.bytes ++ encode a) (l : List α) :
    (l.foldl step o).bytes = o.bytes ++ l.flatMap encode := by
  induction l generalizing o with
  | nil => simp
  | cons a l ih => rw [foldl_cons, ih, h, flatMap_cons, append_assoc]

end

/-! ### Room in the buffer -/

/-- The buffer has the size that a new output has, or more, no write has left it, and `n` bytes
are free behind the cursor. -/
structure Room (o : DataOutput) (n : Nat) : Prop where
  size : 8192 ≤ o.size.toNat
  free : o.bytes.length + n ≤ o.size.toNat
  fault : o.fault = false

variable {o : DataOutput} {k : Nat}

theorem Room.mono (h : Room o k) {n : Nat} (hn : n ≤ k) : Room o n :=
  ⟨h.size, Nat.le_trans (Nat.add_le_add_left hn _) h.free, h.fault⟩

/-- What `ensureCapacity` makes of a buffer: when the free bytes are not enough, the buffer grows by
its own size and by the request rounded down to a multiple of 8192. -/
def grown (size offset request : Nat) : Nat :=
  if size - offset < request then size * 2 + 8192 * (request / 8192) else size

/-- `ensureCapacity` computes the size in 32 bits. -/
theorem size_ensureCapacity (hin : o.bytes.length ≤ o.size.toNat) (size : BitVec 32) :
    (o.ensureCapacity size).size.toNat =
      grown o.size.toNat o.bytes.length size.toNat % 2 ^ 32 := by
  have hlt := o.size.isLt
  have hlen : o.getBufferLength.toNat = o.bytes.length := toNat_ofNat_of_lt (by omega)
  have hfree : (o.size - o.getBufferLength).toNat = o.size.toNat - o.bytes.length := by
    rw [BitVec.toNat_sub_of_le (by rw [BitVec.le_def, hlen]; omega), hlen]
  have hless : o.size - o.getBufferLength < size ↔
      o.size.toNat - o.bytes.length < size.toNat := by
    rw [BitVec.lt_def, hfree]
  unfold DataOutput.ensureCapacity grown
  by_cases hgrow : o.size - o.getBufferLength < size
  · rw [if_pos hgrow, if_pos (hless.mp hgrow)]
    show (o.size * 2 + 8192 * (size / 8192) : BitVec 32).toNat = _
    rw [BitVec.toNat_add, BitVec.toNat_mul, BitVec.toNat_mul, BitVec.toNat_udiv, ← Nat.add_mod]
    rfl
  · rw [if_neg hgrow, if_neg fun h => hgrow (hless.mpr h)]
    exact (Nat.mod_eq_of_lt hlt).symm

/-- For outputs up to a little more than 2^30 bytes it does not overflow. -/
theorem Room.size_ensureCapacity (h : Room o k) (size : BitVec 32)
    (hsize : o.bytes.length + size.toNat < 2 ^ 30 + 2 ^ 28) :
    (o.ensureCapacity size).size.toNat = grown o.size.toNat o.bytes.length size.toNat := by
  have hfree := h.free
  rw [DataOutput.size_ensureCapacity (by omega)]
  apply Nat.mod_eq_of_lt
  unfold grown
  split <;> omega

/-- A buffer of at least 8192 bytes grows by enough. -/
theorem le_grown {size offset : Nat} (request : Nat) (hsize : 8192 ≤ size) (hin : offset ≤ size) :
    size ≤ grown size offset request ∧ offset + request ≤ grown size offset request := by
  unfold grown
  split <;> omega

theorem fault_ensureCapacity (o : DataOutput) (size : BitVec 32) :
    (o.ensureCapacity size).fault = o.fault := by
  unfold ensureCapacity
  dsimp only
  split <;> rfl

/-- `ensureCapacity` keeps the room that is there, and makes the room that is asked for. -/
theorem Room.ensureCapacity (h : Room o k) (size : BitVec 32)
    (hsize : o.bytes.length + size.toNat < 2 ^ 30 + 2 ^ 28) :
    Room (o.ensureCapacity size) (max k size.toNat) := by
  have hsize' := h.size
  have hfree := h.free
  obtain ⟨hmore, hroom⟩ := le_grown size.toNat hsize' (show o.bytes.length ≤ _ by omega)
  rw [← h.size_ensureCapacity size hsize] at hmore hroom
  refine ⟨by omega, ?_, (fault_ensureCapacity o size).trans h.fault⟩
  rw [bytes_ensureCapacity]
  omega

theorem Room.store (h : Room o k) (bs : List Byte) (hbs : bs.length ≤ k) :
    Room (o.store bs) (k - bs.length) := by
  have hfree := h.free
  refine ⟨h.size, ?_, ?_⟩
  · show (o.bytes ++ bs).length + _ ≤ o.size.toNat
    rw [length_append]
    omega
  · show (o.fault || decide (o.size.toNat < o.bytes.length + bs.length)) = false
    rw [h.fault, Bool.false_or, decide_eq_false_iff_not]
    omega

theorem Room.copy (h : Room o k) (src : List Byte) (len : Nat) (hlen : len ≤ k)
    (hsrc : len ≤ src.length) : Room (o.copy src len) (k - len) := by
  have htake : (src.take len).length = len := by
    rw [length_take]
    omega
  obtain ⟨hsize, hfree, hfault⟩ := h.store (src.take len) (by omega)
  rw [htake] at hfree
  refine ⟨hsize, hfree, ?_⟩
  show ((o.store (src.take len)).fault || decide (src.length < len)) = false
  rw [hfault, Bool.false_or, decide_eq_false_iff_not]
  omega

variable {α : Type}

theorem Room.storeAll (encode : α → List Byte) (l : List α) (h : Room o k)
    (hl : (l.flatMap encode).length ≤ k) :
    Room (l.foldl (fun o a => o.store (encode a)) o) (k - (l.flatMap encode).length) := by
  induction l generalizing o k with
  | nil => exact h
  | cons a l ih =>
    rw [flatMap_cons, length_append] at hl ⊢
    have htail := ih (h.store (encode a) (by omega)) (by omega)
    rwa [Nat.sub_sub] at htail

/-! ### Writes that append -/

/-- The write appends the bytes, and there is room for them. -/
structure Appends (f : DataOutput → DataOutput) (bs : List Byte) : Prop where
  bytes : ∀ o, (f o).bytes = o.bytes ++ bs
  room : ∀ o k, Room o k → o.bytes.length + bs.length < 2 ^ 30 + 2 ^ 27 →
    Room (f o) (k - bs.length)

theorem Appends.comp {f g : DataOutput → DataOutput} {as bs : List Byte} (hf : Appends f as)
    (hg : Appends g bs) : Appends (fun o => g (f o)) (as ++ bs) where
  bytes o := by rw [hg.bytes, hf.bytes, append_assoc]
  room o k hroom hlen := by
    rw [length_append] at hlen ⊢
    have hnext := hg.room (f o) _ (hf.room o k hroom (by omega)) (by
      rw [hf.bytes, length_append]
      omega)
    rwa [Nat.sub_sub] at hnext

theorem Appends.id : Appends (fun o => o) [] where
  bytes _ := (append_nil _).symm
  room _ _ hroom _ := hroom

theorem Appends.foldl {f : DataOutput → α → DataOutput} {encode : α → List Byte} {l : List α}
    (h : ∀ a ∈ l, Appends (fun o => f o a) (encode a)) :
    Appends (fun o => l.foldl f o) (l.flatMap encode) := by
  induction l with
  | nil => exact Appends.id
  | cons a l ih =>
    have hl := ih fun b hb => h b (mem_cons_of_mem a hb)
    exact (h a mem_cons_self).comp hl

/-- A write that asks for room and then stores its bytes. -/
theorem appends_store {size : BitVec 32} {bs : List Byte} (hsize : size.toNat = bs.length) :
    Appends (fun o => (o.ensureCapacity size).store bs) bs where
  bytes o := by rw [bytes_store, bytes_ensureCapacity]
  room o k hroom hlen := by
    have hmore := (hroom.ensureCapacity size (by omega)).store bs (by omega)
    exact hmore.mono (by omega)

/-- A write that asks for room once and then stores the bytes of each element. -/
theorem appends_storeAll (encode : α → List Byte) (l : List α) {size : BitVec 32}
    (hsize : size.toNat = (l.flatMap encode).length) :
    Appends (fun o => l.foldl (fun o a => o.store (encode a)) (o.ensureCapacity size))
      (l.flatMap encode) where
  bytes o := by rw [bytes_foldl _ (fun o a => bytes_store o (encode a)), bytes_ensureCapacity]
  room o k hroom hlen := by
    have hmore := (hroom.ensureCapacity size (by omega)).storeAll encode l (by omega)
    exact hmore.mono (by omega)

theorem appends_writeBytesOnly (src : List Byte) {len : BitVec 32}
    (hsrc : len.toNat ≤ src.length) :
    Appends (fun o => o.writeBytesOnly src len) (src.take len.toNat) where
  bytes o := by rw [writeBytesOnly, bytes_copy, bytes_ensureCapacity]
  room o k hroom hlen := by
    rw [length_take] at hlen ⊢
    have hmore := (hroom.ensureCapacity len (by omega)).copy src len.toNat (by omega) hsrc
    exact hmore.mono (by omega)

theorem appends_write (value : Byte) : Appends (fun o => o.write value) [value] :=
  appends_store (by simp)

theorem appends_writeBigEndian {n : Nat} (hn : n < 2 ^ 32) {w : Nat} (value : BitVec w) :
    Appends (fun o => o.writeBigEndian n value) (bigEndian n value) := by
  refine appends_store ?_
  rw [toNat_ofNat_of_lt hn, length_bigEndian]

theorem appends_writeInt16 (value : BitVec 16) :
    Appends (fun o => o.writeInt16 value) (bigEndian 2 value) :=
  appends_writeBigEndian (by decide) value

theorem appends_writeInt32 (value : BitVec 32) :
    Appends (fun o => o.writeInt32 value) (bigEndian 4 value) :=
  appends_writeBigEndian (by decide) value

/-- The bytes of an array length: one byte, or a code and two or four bytes. -/
def arrayLenBytes (len : BitVec 32) : List Byte :=
  if len = -1 then [0xFF]
  else if len.toInt ≤ 252 then [len.setWidth 8]
  else if len.toInt ≤ 0xFFFF then [0xFE] ++ bigEndian 2 (len.setWidth 16)
  else [0xFD] ++ bigEndian 4 len

theorem length_arrayLenBytes_bounds (len : BitVec 32) :
    0 < (arrayLenBytes len).length ∧ (arrayLenBytes len).length ≤ 5 := by
  unfold arrayLenBytes
  split
  · simp
  · split
    · simp
    · split <;> simp

theorem appends_writeArrayLen (len : BitVec 32) :
    Appends (fun o => o.writeArrayLen len) (arrayLenBytes len) := by
  unfold writeArrayLen arrayLenBytes
  split
  · exact appends_write _
  · split
    · exact appends_write _
    · split
      · exact (appends_write _).comp (appends_writeInt16 _)
      · exact (appends_write _).comp (appends_writeInt32 _)

theorem length_flatMap_two {encode : α → List Byte} (htwo : ∀ a, (encode a).length = 2)
    (l : List α) : (l.flatMap encode).length = l.length * 2 := by
  simp [length_flatMap, htwo]

theorem appends_writeUTFHugeWith {w : Nat} (value : List (BitVec w)) (length : BitVec 32)
    {encode : BitVec w → List Byte} (htwo : ∀ c, (encode c).length = 2)
    (hread : (lengthOr value length).toNat ≤ (memory value).length)
    (hsmall : (lengthOr value length).toNat < 2 ^ 30) :
    Appends (fun o => o.writeUTFHugeWith (some value) length encode)
      (bigEndian 4 (lengthOr value length) ++
        ((memory value).take (lengthOr value length).toNat).flatMap encode) := by
  have hdouble : (lengthOr value length * 2).toNat =
      (((memory value).take (lengthOr value length).toNat).flatMap encode).length := by
    rw [BitVec.toNat_mul, length_flatMap_two htwo, length_take, Nat.min_eq_left hread]
    exact Nat.mod_eq_of_lt (by simp; omega)
  have hboth := (appends_writeInt32 (lengthOr value length)).comp
    (appends_storeAll encode ((memory value).take (lengthOr value length).toNat) hdouble)
  have hwrite : ∀ o : DataOutput, o.writeUTFHugeWith (some value) length encode =
      ((memory value).take (lengthOr value length).toNat).foldl (fun o c => o.store (encode c))
        ((o.writeInt32 (lengthOr value length)).ensureCapacity (lengthOr value length * 2)) := by
    intro o
    have hroom : decide ((memory value).length < (lengthOr value length).toNat) = false := by
      rw [decide_eq_false_iff_not]
      omega
    simp only [writeUTFHugeWith, hroom, Bool.or_false]
  have hsame : (fun o : DataOutput => o.writeUTFHugeWith (some value) length encode) = _ :=
    funext hwrite
  rw [hsame]
  exact hboth

end GeodeNative.Serialization.DataOutput

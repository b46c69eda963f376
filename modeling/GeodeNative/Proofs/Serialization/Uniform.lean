import GeodeNative.Proofs.Serialization.Written

/-!
# Writes with any arguments

Every write of `DataOutput` appends bytes that do not depend on what was written before: it is
`Uniform`. This holds for all arguments, also for those that the writes cut off or that make them
leave the buffer, so that it says less than `Appends`. `fault_encodeUntil_iff` says when the loop
that encodes a string leaves the buffer or the string.
-/

set_option autoImplicit false

namespace GeodeNative.Serialization.DataOutput

open Lib List

/-- The write appends the same bytes to every output. -/
def Uniform (f : DataOutput → DataOutput) : Prop := ∃ bs, ∀ o, (f o).bytes = o.bytes ++ bs

theorem Appends.uniform {f : DataOutput → DataOutput} {bs : List Byte} (h : Appends f bs) :
    Uniform f := ⟨bs, h.bytes⟩

namespace Uniform

theorem comp {f g : DataOutput → DataOutput} (hf : Uniform f) (hg : Uniform g) :
    Uniform fun o => g (f o) := by
  obtain ⟨as, has⟩ := hf
  obtain ⟨bs, hbs⟩ := hg
  refine ⟨as ++ bs, fun o => ?_⟩
  rw [hbs, has, append_assoc]

theorem foldl {α : Type} {f : DataOutput → α → DataOutput} (h : ∀ a, Uniform fun o => f o a)
    (l : List α) : Uniform fun o => l.foldl f o := by
  choose encode hencode using h
  exact ⟨l.flatMap encode, fun o => bytes_foldl o (fun o a => hencode a o) l⟩

end Uniform

theorem uniform_write (value : Byte) : Uniform fun o => o.write value :=
  (appends_write value).uniform

theorem uniform_writeBigEndian (n : Nat) {w : Nat} (value : BitVec w) :
    Uniform fun o => o.writeBigEndian n value :=
  ⟨bigEndian n value, fun o => bytes_writeBigEndian o n value⟩

theorem uniform_writeArrayLen (len : BitVec 32) : Uniform fun o => o.writeArrayLen len :=
  (appends_writeArrayLen len).uniform

theorem uniform_ensureCapacity (size : BitVec 32) : Uniform fun o => o.ensureCapacity size :=
  ⟨[], fun o => by rw [bytes_ensureCapacity, append_nil]⟩

theorem uniform_copy (src : List Byte) (len : Nat) : Uniform fun o => o.copy src len :=
  ⟨src.take len, fun o => bytes_copy o src len⟩

theorem uniform_writeBytes (bytes : Option (List Byte)) (len : BitVec 32) :
    Uniform fun o => o.writeBytes bytes len := by
  unfold writeBytes
  by_cases hlen : 0 ≤ len.toInt
  · simp only [if_pos hlen]
    have hroom := uniform_ensureCapacity (len + 5)
    cases bytes with
    | none => exact hroom.comp (uniform_writeArrayLen 0)
    | some src =>
      by_cases hpos : 0 < len.toInt
      · simp only [if_pos hpos]
        exact (hroom.comp (uniform_writeArrayLen len)).comp (uniform_copy src len.toNat)
      · simp only [if_neg hpos]
        exact hroom.comp (uniform_writeArrayLen len)
  · simp only [if_neg hlen]
    exact uniform_write 0xFF

theorem uniform_writeASCII (value : Option (List Byte)) (length : BitVec 32) :
    Uniform fun o => o.writeASCII value length := by
  cases value with
  | none => exact uniform_writeBigEndian 2 (0 : BitVec 16)
  | some value =>
    have hroom := uniform_ensureCapacity
    exact (uniform_writeBigEndian 2 _).comp ((hroom _).comp (uniform_copy _ _))

/-! ### Strings -/

/-- The bytes of the characters, until there are `n` of them or more. -/
def encodedUntil {C : Type} (encode : C → List Byte) : Nat → List C → List Byte
  | _, [] => []
  | n, c :: cs => if 0 < n then encode c ++ encodedUntil encode (n - (encode c).length) cs else []

variable {C : Type} (encode : C → List Byte)

theorem bytes_encodeUntil (stop : Nat) (cs : List C) (o : DataOutput) :
    (encodeUntil encode stop cs o).bytes =
      o.bytes ++ encodedUntil encode (stop - o.bytes.length) cs := by
  induction cs generalizing o with
  | nil =>
    rw [encodeUntil, encodedUntil, append_nil]
    split <;> rfl
  | cons c cs ih =>
    rw [encodeUntil, encodedUntil]
    by_cases hroom : o.bytes.length < stop
    · rw [if_pos hroom, if_pos (by omega), ih, bytes_store, append_assoc, length_append,
        Nat.sub_sub]
    · rw [if_neg hroom, if_neg (by omega), append_nil]

theorem take_encodedUntil (n : Nat) (cs : List C) :
    (encodedUntil encode n cs).take n = (cs.flatMap encode).take n := by
  induction cs generalizing n with
  | nil => rfl
  | cons c cs ih =>
    unfold encodedUntil
    split
    · rw [take_append, ih, flatMap_cons, take_append]
    · rename_i hzero
      rw [Nat.eq_zero_of_not_pos hzero, take_zero, take_zero]

/-- The loop and the step back to its end: the first `n` bytes of the characters. -/
theorem bytes_encodeAll (memory : List C) (n : Nat) (o : DataOutput) :
    (o.encodeAll encode memory n).bytes = o.bytes ++ (memory.flatMap encode).take n := by
  show (encodeUntil encode (o.bytes.length + n) memory o).bytes.take (o.bytes.length + n) = _
  rw [bytes_encodeUntil, Nat.add_sub_cancel_left, take_append,
    take_of_length_le (Nat.le_add_right _ _), Nat.add_sub_cancel_left, take_encodedUntil]

section
variable {C : Type} (encode : C → List Byte) (memory : List C)

/-- When the length is the one of whole characters, the loop stores no more. -/
theorem encodedUntil_whole (value rest : List C) :
    encodedUntil encode (value.flatMap encode).length (value ++ rest) = value.flatMap encode := by
  induction value with
  | nil =>
    cases rest with
    | nil => rfl
    | cons c cs => rfl
  | cons c value ih =>
    rw [cons_append, flatMap_cons, length_append, encodedUntil,
      Nat.add_sub_cancel_left, ih]
    split
    · rfl
    · have hnil : (encode c ++ value.flatMap encode).length = 0 := by
        rw [length_append]
        omega
      exact (length_eq_zero_iff.mp hnil).symm

variable {o : DataOutput} {encodedLen : Nat}

theorem encodedUntil_zero : encodedUntil encode 0 memory = [] := by
  cases memory <;> rfl

theorem size_encodeUntil (stop : Nat) (o : DataOutput) :
    (encodeUntil encode stop memory o).size = o.size := by
  induction memory generalizing o with
  | nil =>
    rw [encodeUntil]
    split <;> rfl
  | cons c cs ih =>
    rw [encodeUntil]
    split
    · exact ih (o.store (encode c))
    · rfl

/-- A loop has no fault when it does not run out of characters and stores everything in the buffer.
A loop that is at its end stores nothing. -/
theorem fault_encodeUntil_iff (stop : Nat) :
    (encodeUntil encode stop memory o).fault = false ↔
      o.fault = false ∧ stop ≤ o.bytes.length + (memory.flatMap encode).length ∧
        (o.bytes.length < stop → o.bytes.length +
          (encodedUntil encode (stop - o.bytes.length) memory).length ≤ o.size.toNat) := by
  induction memory generalizing o with
  | nil =>
    rw [encodeUntil, flatMap_nil, length_nil]
    split
    · refine iff_of_false (nomatch ·) fun h => ?_
      omega
    · next hdone => exact ⟨fun h => ⟨h, by omega, fun hmore => absurd hmore hdone⟩, And.left⟩
  | cons c cs ih =>
    rw [encodeUntil, flatMap_cons, length_append, encodedUntil]
    by_cases hmore : o.bytes.length < stop
    · have hlength : (o.store (encode c)).bytes.length = o.bytes.length + (encode c).length := by
        rw [bytes_store, length_append]
      have hstore : (o.store (encode c)).fault = false ↔
          o.fault = false ∧ ¬ o.size.toNat < o.bytes.length + (encode c).length := by
        simp [DataOutput.store]
      have hsize : (o.store (encode c)).size = o.size := rfl
      rw [if_pos hmore, if_pos (by omega), ih, hstore, hlength, hsize, length_append,
        Nat.sub_sub]
      -- behind the end nothing more is stored
      have hend : stop ≤ o.bytes.length + (encode c).length →
          (encodedUntil encode (stop - (o.bytes.length + (encode c).length)) cs).length = 0 := by
        intro hle
        rw [Nat.sub_eq_zero_of_le hle, encodedUntil_zero]
        rfl
      constructor
      · rintro ⟨⟨hfault, hfits⟩, henough, hrest⟩
        exact ⟨hfault, by omega, by omega⟩
      · rintro ⟨hfault, henough, hfits⟩
        exact ⟨⟨hfault, by omega⟩, by omega, by omega⟩
    · rw [if_neg hmore]
      exact ⟨fun h => ⟨h, by omega, fun h => absurd h hmore⟩, And.left⟩

theorem fault_encodeAll_iff : (o.encodeAll encode memory encodedLen).fault = false ↔
    o.fault = false ∧ encodedLen ≤ (memory.flatMap encode).length ∧ (0 < encodedLen →
      o.bytes.length + (encodedUntil encode encodedLen memory).length ≤ o.size.toNat) := by
  have hloop := fault_encodeUntil_iff encode memory (o := o) (o.bytes.length + encodedLen)
  rw [Nat.add_sub_cancel_left, Nat.add_le_add_iff_left, Nat.lt_add_right_iff_pos] at hloop
  exact hloop

/-- The loop and the step back to its end, in a buffer with room for what the loop stores. -/
theorem Room.encodeAll {k : Nat} (h : Room o k)
    (henough : encodedLen ≤ (memory.flatMap encode).length)
    (hroom : (encodedUntil encode encodedLen memory).length ≤ k) :
    Room (o.encodeAll encode memory encodedLen) (k - encodedLen) := by
  have hfree := h.free
  have hsize : (o.encodeAll encode memory encodedLen).size = o.size :=
    size_encodeUntil encode memory _ o
  have htake := congrArg length (take_encodedUntil encode encodedLen memory)
  rw [length_take, length_take] at htake
  refine ⟨?_, ?_, (fault_encodeAll_iff encode memory).mpr ⟨h.fault, henough, fun _ => by omega⟩⟩
  · rw [hsize]
    exact h.size
  · rw [hsize, bytes_encodeAll, length_append, length_take]
    omega

end

theorem uniform_encodeAll (memory : List C) (n : Nat) :
    Uniform fun o => o.encodeAll encode memory n :=
  ⟨_, bytes_encodeAll encode memory n⟩

theorem uniform_writeUTFWith (memory : List C) (len : Nat) :
    Uniform fun o => o.writeUTFWith encode memory len :=
  ((uniform_writeBigEndian 2 _).comp (uniform_ensureCapacity _)).comp (uniform_encodeAll _ _ _)

theorem uniform_writeUTFHugeWith {w : Nat} (value : Option (List (BitVec w))) (length : BitVec 32)
    (encode : BitVec w → List Byte) : Uniform fun o => o.writeUTFHugeWith value length encode := by
  cases value with
  | none => exact uniform_writeBigEndian 4 (0 : BitVec 32)
  | some value =>
    have hhead := (uniform_writeBigEndian 4 (lengthOr value length)).comp
      (uniform_ensureCapacity (lengthOr value length * 2))
    have hchars : Uniform fun o => ((memory value).take (lengthOr value length).toNat).foldl
        (fun o c => o.store (encode c)) o :=
      Uniform.foldl (fun c => ⟨encode c, fun o => bytes_store o (encode c)⟩) _
    obtain ⟨bs, hbs⟩ := hhead.comp hchars
    exact ⟨bs, fun o => hbs o⟩

end GeodeNative.Serialization.DataOutput

import GeodeNative.Serialization.DataInput

/-!
# What the reads make of their bytes

A size check in front of a read changes nothing when the bytes are there (`reads_check`), so the
basic reads of `DataInput` are reads in the sense of `Lib.Reads`.
-/

set_option autoImplicit false

namespace GeodeNative.Serialization.DataInput

open Lib

variable {β : Type} {size : Int}

theorem checkBufferSize_ok {s : DataInput} (h : size ≤ s.buffer.length - s.pos) :
    checkBufferSize size s = .ok () s := by
  rw [checkBufferSize, if_neg (by omega)]

theorem checkBufferSize_error {s : DataInput} (h : s.buffer.length - s.pos < size) :
    checkBufferSize size s = .error (.outOfRange (s.buffer.length - s.pos) size) s := by
  rw [checkBufferSize, if_pos h]

/-- A check that the piece satisfies. -/
theorem reads_check {p : Read β} {bs : List Byte} {v : β} (hp : Reads p bs v)
    (hsize : size ≤ bs.length) : Reads (do checkBufferSize size; p) bs v := by
  intro front back
  have hthere : checkBufferSize size ⟨front ++ bs ++ back, front.length⟩ =
      .ok () ⟨front ++ bs ++ back, front.length⟩ := by
    apply checkBufferSize_ok
    simp only [List.length_append]
    omega
  rw [bind_ok hthere]
  exact hp front back

theorem reads_read (b : Byte) : Reads read [b] b :=
  reads_check (Reads.next _ b) (by simp)

theorem reads_nextBytes (bs : List Byte) : Reads (nextBytes bs.length) bs bs :=
  Reads.nextN _ bs

theorem reads_times_read (bs : List Byte) : Reads (times bs.length read) bs bs := by
  have h : Reads (times bs.length read) (bs.flatMap fun b => [b]) bs :=
    Reads.times fun b _ => reads_read b
  rwa [List.flatMap_singleton'] at h

/-! ### Integers -/

/-- Any bytes of the right number are an integer. -/
theorem reads_readBigEndian_bytes (bs : List Byte) (w : Nat) :
    Reads (readBigEndian bs.length w) bs (ofBigEndian w bs) :=
  reads_check ((reads_nextBytes bs).map (ofBigEndian w)) (Int.le_refl _)

theorem reads_readBigEndian (n : Nat) (v : BitVec (8 * n)) :
    Reads (readBigEndian n (8 * n)) (bigEndian n v) v := by
  have hword := reads_readBigEndian_bytes (bigEndian n v) (8 * n)
  rwa [length_bigEndian, ofBigEndian_bigEndian] at hword

theorem reads_readSigned (n : Nat) (v : BitVec (8 * n)) :
    Reads (readSigned n (8 * n)) (bigEndian n v) v :=
  reads_check (reads_readBigEndian n v) (by simp)

theorem reads_readInt16 (v : BitVec 16) : Reads readInt16 (bigEndian 2 v) v :=
  reads_readBigEndian 2 v

theorem reads_readInt32 (v : BitVec 32) : Reads readInt32 (bigEndian 4 v) v :=
  reads_readBigEndian 4 v

theorem reads_readBoolean_byte (b : Byte) : Reads readBoolean [b] (decide (b = 1)) :=
  reads_check ((Reads.next ReadError.fault b).map fun c => decide (c = 1)) (by simp)

theorem reads_readBoolean (b : Bool) : Reads readBoolean [if b then 1 else 0] b := by
  have hbyte := reads_readBoolean_byte (if b then 1 else 0)
  have hvalue : decide ((if b then 1 else 0 : Byte) = 1) = b := by cases b <;> rfl
  rwa [hvalue] at hbyte

theorem reads_readBytesOnly {bs : List Byte} {len : BitVec 32} (hlen : len.toNat = bs.length)
    (hsmall : bs.length < 2 ^ 31) : Reads (readBytesOnly len) bs bs := by
  unfold readBytesOnly
  split
  · have hsize : len.toInt = bs.length := by
      rw [BitVec.toInt_eq_toNat_cond, if_pos (by omega), hlen]
    rw [hlen, hsize]
    exact reads_check (reads_nextBytes bs) (Int.le_refl _)
  · rename_i hzero
    rw [gt_iff_lt, BitVec.lt_def, Nat.not_lt] at hzero
    have hnil : bs = [] := List.eq_nil_of_length_eq_zero (by simpa [hlen] using hzero)
    rw [hnil]
    exact Reads.pure []

end GeodeNative.Serialization.DataInput

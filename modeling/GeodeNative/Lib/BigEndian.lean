import Mathlib

/-!
# Words as big-endian bytes

`bigEndian` writes the low bytes of a word, the most significant one first. `ofBigEndian`
reads bytes into a word by shifting, as a reader of a byte stream does. `ofBigEndian_bigEndian`
states that reading back what was written gives the word.
-/

set_option autoImplicit false

namespace GeodeNative.Lib

/-- A byte. -/
abbrev Byte := BitVec 8

variable {w : Nat}

theorem toNat_ofNat_of_lt {n : Nat} (h : n < 2 ^ w) : (BitVec.ofNat w n).toNat = n := by
  rw [BitVec.toNat_ofNat, Nat.mod_eq_of_lt h]

/-- The low `n` bytes of a word, the most significant one first. -/
def bigEndian : Nat → BitVec w → List Byte
  | 0, _ => []
  | n + 1, v => (v >>> (8 * n)).setWidth 8 :: bigEndian n v

/-- The word that is read by shifting in the bytes from the left. -/
def shiftIn (v : BitVec w) (bs : List Byte) : BitVec w :=
  bs.foldl (fun v b => v <<< 8 ||| b.setWidth w) v

/-- The word that the bytes spell. -/
def ofBigEndian (w : Nat) (bs : List Byte) : BitVec w := shiftIn 0 bs

@[simp] theorem length_bigEndian (n : Nat) (v : BitVec w) : (bigEndian n v).length = n := by
  induction n with
  | zero => rfl
  | succ n ih => rw [bigEndian, List.length_cons, ih]

/-- The bytes of a number are those of any width that has them. -/
theorem bigEndian_setWidth {n w' : Nat} {v : BitVec w} (h : 8 * n ≤ w') :
    bigEndian n (v.setWidth w') = bigEndian n v := by
  induction n with
  | zero => rfl
  | succ n ih =>
    have hbyte : ((v.setWidth w') >>> (8 * n)).setWidth 8 = (v >>> (8 * n)).setWidth 8 := by
      ext j hj
      have hin : 8 * n + j < w' := by omega
      simp [hin]
    rw [bigEndian, bigEndian, hbyte, ih (by omega)]

/-- Shifting in the low `n` bytes of `v` moves the word up and fills its low bits. -/
theorem shiftIn_bigEndian (n : Nat) (acc v : BitVec w) :
    shiftIn acc (bigEndian n v) = acc <<< (8 * n) ||| (v.setWidth (8 * n)).setWidth w := by
  induction n generalizing acc with
  | zero =>
    rw [bigEndian, shiftIn]
    ext i hi
    simp
  | succ n ih =>
    rw [show shiftIn acc (bigEndian (n + 1) v) = shiftIn (acc <<< 8 |||
      ((v >>> (8 * n)).setWidth 8).setWidth w) (bigEndian n v) from rfl, ih]
    -- bit by bit: below `8 * n`, in the new byte, or above it
    ext i hi
    by_cases hlow : i < 8 * n
    · have hnew : i < 8 * (n + 1) := by omega
      simp [hlow, hnew]
    · by_cases hbyte : i - 8 * n < 8
      · have hnew : i < 8 * (n + 1) := by omega
        have hsum : 8 * n + (i - 8 * n) = i := by omega
        simp [hlow, hbyte, hnew, hsum]
      · have hnew : ¬ i < 8 * (n + 1) := by omega
        have hsub : i - 8 * n - 8 = i - 8 * (n + 1) := by omega
        simp [hlow, hbyte, hnew, hsub]

theorem ofBigEndian_bigEndian (n : Nat) (v : BitVec (8 * n)) :
    ofBigEndian (8 * n) (bigEndian n v) = v := by
  rw [ofBigEndian, shiftIn_bigEndian]
  ext i hi
  simp

end GeodeNative.Lib

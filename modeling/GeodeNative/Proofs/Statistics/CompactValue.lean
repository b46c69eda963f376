import GeodeNative.Statistics.StatArchiveReader

/-!
# Compact values are read back

`writeCompactValue` writes a number of 64 bits in one to nine bytes. `readCompactValue_write`:
whatever the number is, the reader gets it back.

A number fits in `n` bytes when it is the number that these bytes spell in two's complement
(`Fits`). The buffer of a long value has the low bytes of the number, and as many as it needs for
the sign: `positiveBuffer_spec` and `negativeBuffer_spec`.
-/

set_option autoImplicit false

namespace GeodeNative.Statistics

open Lib StatDataOutput

/-! ### Bytes of a number -/

/-- Byte number `i` of a number, from the low end. -/
def byteAt (v : BitVec 64) (i : Nat) : Byte := (v.sshiftRight (8 * i)).setWidth 8

/-- The low `n` bytes of a number, from the low end. -/
def lowBytes (v : BitVec 64) (n : Nat) : List Byte := (List.range n).map (byteAt v)

theorem toInt_sshiftRight (v : BitVec 64) (n : Nat) :
    (v.sshiftRight n).toInt = v.toInt / 2 ^ n := by
  rw [BitVec.toInt_sshiftRight, Int.shiftRight_eq_div_pow]
  norm_cast

theorem lowBytes_succ (v : BitVec 64) (n : Nat) :
    lowBytes v (n + 1) = lowBytes v n ++ [byteAt v n] := by
  rw [lowBytes, List.range_succ, List.map_append]
  rfl

theorem lowBytes_cons (v : BitVec 64) (n : Nat) :
    v.setWidth 8 :: lowBytes (v.sshiftRight 8) n = lowBytes v (n + 1) := by
  rw [lowBytes, lowBytes, List.range_succ_eq_map, List.map_cons, List.map_map]
  refine congrArg₂ List.cons ?_ (List.map_congr_left fun i _ => ?_)
  · unfold byteAt
    rw [BitVec.sshiftRight_zero]
  · show byteAt _ i = byteAt v (i + 1)
    rw [byteAt, byteAt, ← BitVec.sshiftRight_add, Nat.mul_succ, Nat.add_comm]

variable {v : BitVec 64}

/-- Inside of the number the shift does not bring in the sign. -/
theorem byteAt_eq {i : Nat} (h : i < 8) : byteAt v i = (v >>> (8 * i)).setWidth 8 := by
  unfold byteAt
  ext j hj
  have hin : 8 * i + j < 64 := by omega
  simp [BitVec.getLsbD_sshiftRight, hin]
  omega

variable {n : Nat}

theorem reverse_lowBytes (v : BitVec 64) (hn : n ≤ 8) :
    (lowBytes v n).reverse = bigEndian n v := by
  induction n with
  | zero => rfl
  | succ n ih =>
    rw [lowBytes_succ, List.reverse_append, ih (by omega), bigEndian, ← byteAt_eq (by omega)]
    rfl

/-! ### Numbers that fit -/

/-- The number is that of its low `n` bytes in two's complement. -/
def Fits (v : BitVec 64) (n : Nat) : Prop :=
  -2 ^ (8 * n - 1) ≤ v.toInt ∧ v.toInt < 2 ^ (8 * n - 1)

theorem signExtend_setWidth {x : BitVec 64} (hlow : -128 ≤ x.toInt) (hhigh : x.toInt < 128) :
    (x.setWidth 8).signExtend 64 = x := by
  apply BitVec.eq_of_toInt_eq
  rw [BitVec.toInt_signExtend_of_le (by omega), BitVec.toInt_setWidth]
  have htoInt := BitVec.toInt_eq_toNat_cond x
  split at htoInt <;> · rw [Int.bmod_def]; omega

theorem shiftLeft_or_low (v : BitVec 64) (m : Nat) :
    v.sshiftRight m <<< m ||| (v.setWidth m).setWidth 64 = v := by
  ext i hi
  by_cases him : i < m
  · simp [him, BitVec.getLsbD_eq_getElem hi]
  · have hsum : m + (i - m) = i := by omega
    simp [BitVec.getElem_sshiftRight, him, hsum, hi]

/-- The bytes of a number that fits spell the number, when the first one has the sign. -/
theorem shiftIn_of_fits (hn : n < 8) (h : Fits v (n + 1)) :
    shiftIn ((byteAt v n).signExtend 64) (bigEndian n v) = v := by
  have htop : (byteAt v n).signExtend 64 = v.sshiftRight (8 * n) := by
    obtain ⟨hlow, hhigh⟩ := h
    refine signExtend_setWidth ?_ ?_ <;> rw [toInt_sshiftRight] <;> interval_cases n <;> omega
  rw [shiftIn_bigEndian, htop, shiftLeft_or_low]

/-! ### The buffer -/

/-- The loop takes the low bytes, up to the first shift that stops it or to the end of the
buffer. -/
theorem takeBytes_spec (stop : BitVec 64 → Bool) (room : Nat) (v : BitVec 64) :
    ∃ n ≤ room, takeBytes stop room v = (lowBytes v n, v.sshiftRight (8 * n)) ∧
      (∀ i < n, stop (v.sshiftRight (8 * i)) = false) ∧
      (n < room → stop (v.sshiftRight (8 * n)) = true) := by
  induction room generalizing v with
  | zero => exact ⟨0, Nat.le_refl 0, by simp [takeBytes, lowBytes], nofun, nofun⟩
  | succ room ih =>
    unfold takeBytes
    by_cases hstop : stop v = true
    · rw [if_pos hstop]
      exact ⟨0, Nat.zero_le _, by simp [lowBytes], nofun, fun _ => by simpa using hstop⟩
    · rw [if_neg hstop]
      obtain ⟨n, hn, heq, hgo, hend⟩ := ih (v.sshiftRight 8)
      have hshift : ∀ i, (v.sshiftRight 8).sshiftRight (8 * i) = v.sshiftRight (8 * (i + 1)) := by
        intro i
        rw [← BitVec.sshiftRight_add, Nat.mul_succ, Nat.add_comm]
      refine ⟨n + 1, Nat.succ_le_succ hn, ?_, ?_, ?_⟩
      · rw [heq, hshift]
        dsimp only
        rw [lowBytes_cons]
      · intro i hi
        cases i with
        | zero => simpa using hstop
        | succ i =>
          rw [← hshift]
          exact hgo i (by omega)
      · intro hlt
        rw [← hshift]
        exact hend (by omega)

theorem msb_byteAt (v : BitVec 64) (i : Nat) :
    (byteAt v i).msb = decide (128 ≤ (v.toInt / 2 ^ (8 * i)) % 256) := by
  have hnat : ((byteAt v i).toNat : Int) = v.toInt / 2 ^ (8 * i) % 256 := by
    rw [← toInt_sshiftRight, byteAt, BitVec.toNat_setWidth]
    have htoInt := BitVec.toInt_eq_toNat_cond (v.sshiftRight (8 * i))
    split at htoInt <;> omega
  rw [BitVec.msb_eq_decide]
  congr 1
  refine propext ?_
  omega

theorem highBit_lowBytes (v : BitVec 64) (n : Nat) :
    highBit (lowBytes v (n + 1)) = (byteAt v n).msb := by
  rw [highBit, lowBytes_succ, List.getLastD_concat]

theorem sshiftRight_eq_of_toInt {v w : BitVec 64} (h : v.toInt / 2 ^ n = w.toInt) :
    v.sshiftRight n = w :=
  BitVec.eq_of_toInt_eq ((toInt_sshiftRight v n).trans h)

theorem toInt_bounds (v : BitVec 64) : -2 ^ 63 ≤ v.toInt ∧ v.toInt < 2 ^ 63 :=
  ⟨BitVec.le_toInt v, BitVec.toInt_lt⟩

/-- A positive number gets a zero byte when the sign would be wrong without it. -/
theorem positiveBuffer_spec (hv : 32767 < v.toInt) :
    ∃ k, 3 ≤ k ∧ k ≤ 8 ∧ positiveBuffer v = lowBytes v k ∧ Fits v k := by
  obtain ⟨n, hn, heq, hgo, hend⟩ := takeBytes_spec (fun v => v == 0) 8 v
  have hbounds := toInt_bounds v
  have hzero : v.toInt / 2 ^ (8 * n) = 0 := by
    by_cases hlt : n < 8
    · have hstop := beq_iff_eq.mp (hend hlt)
      rw [← toInt_sshiftRight, hstop]
      rfl
    · obtain rfl : n = 8 := by omega
      omega
  cases n with
  | zero => omega
  | succ n =>
    have hroom : n < 8 := hn
    unfold positiveBuffer Fits
    rw [heq]
    dsimp only
    rw [highBit_lowBytes, msb_byteAt]
    by_cases hhigh : 128 ≤ v.toInt / 2 ^ (8 * n) % 256
    · have hbyte : byteAt v (n + 1) = 0 := by
        rw [byteAt, sshiftRight_eq_of_toInt (w := 0) hzero]
        rfl
      rw [if_pos (decide_eq_true hhigh), ← hbyte, ← lowBytes_succ]
      refine ⟨n + 2, ?_, ?_, rfl, ?_⟩ <;> interval_cases n <;> omega
    · rw [if_neg (by simpa using hhigh)]
      refine ⟨n + 1, ?_, ?_, rfl, ?_⟩ <;> interval_cases n <;> omega

/-- A negative number gets a byte of ones when the sign would be wrong without it. -/
theorem negativeBuffer_spec (hv : v.toInt < -32768) :
    ∃ k, 3 ≤ k ∧ k ≤ 8 ∧ negativeBuffer v = lowBytes v k ∧ Fits v k := by
  obtain ⟨n, hn, heq, hgo, hend⟩ := takeBytes_spec (fun v => v == -1 || v == 0) 8 v
  have hbounds := toInt_bounds v
  -- an arithmetic shift of a negative number is negative
  have hneg : ∀ i, v.toInt / 2 ^ (8 * i) < 0 := fun i =>
    Int.ediv_neg_of_neg_of_pos (by omega) (by positivity)
  have hones : v.toInt / 2 ^ (8 * n) = -1 := by
    by_cases hlt : n < 8
    · obtain hstop | hstop := Bool.or_eq_true_iff.mp (hend hlt)
      · rw [← toInt_sshiftRight, beq_iff_eq.mp hstop]
        rfl
      · have h := hneg n
        rw [← toInt_sshiftRight, beq_iff_eq.mp hstop] at h
        cases h
    · obtain rfl : n = 8 := by omega
      omega
  have hlast : v.sshiftRight (8 * n) = -1 := sshiftRight_eq_of_toInt hones
  cases n with
  | zero => omega
  | succ n =>
    have hroom : n < 8 := hn
    have hnotZero : ((-1 : BitVec 64) == 0) = false := rfl
    unfold negativeBuffer Fits
    rw [heq]
    dsimp only
    rw [hlast, hnotZero]
    simp only [Bool.false_eq_true, if_false]
    rw [highBit_lowBytes, msb_byteAt]
    have hnonempty : (lowBytes v (n + 1)).isEmpty = false := by
      rw [lowBytes_succ]
      simp
    rw [hnonempty, Bool.not_false, Bool.true_and]
    by_cases hhigh : 128 ≤ v.toInt / 2 ^ (8 * n) % 256
    · rw [decide_eq_true hhigh]
      refine ⟨n + 1, ?_, ?_, rfl, ?_⟩ <;> interval_cases n <;> omega
    · have hbyte : byteAt v (n + 1) = -1 := by
        rw [byteAt, hlast]
        rfl
      rw [decide_eq_false hhigh, Bool.not_false, ← hbyte, ← lowBytes_succ]
      refine ⟨n + 2, ?_, ?_, rfl, ?_⟩ <;> interval_cases n <;> omega

/-! ### Reading -/

theorem readByte_reads (b : Byte) : Reads readByte [b] b := Reads.next _ b

/-- A number of `n` bytes after a token. -/
theorem readCompactValue_bytes (hn : n < 7) (h : Fits v (n + 2)) :
    Reads readCompactValue
      ((compactValue2Token + BitVec.ofNat 8 n) :: bigEndian (n + 2) v) v := by
  have htoken : (compactValue2Token + BitVec.ofNat 8 n).toInt < -128 + 7 := by
    interval_cases n <;> decide
  have hcount : (compactValue2Token + BitVec.ofNat 8 n - compactValue2Token).toNat = n := by
    interval_cases n <;> decide
  have hrest : Reads (nextN ReadError.endOfData (n + 1)) (bigEndian (n + 1) v)
      (bigEndian (n + 1) v) := by
    have hread := Reads.nextN ReadError.endOfData (bigEndian (n + 1) v)
    rwa [length_bigEndian] at hread
  have hbytes : bigEndian (n + 2) v = [byteAt v (n + 1)] ++ bigEndian (n + 1) v := by
    rw [byteAt_eq (by omega)]
    rfl
  rw [hbytes]
  refine (readByte_reads _).bind ?_
  rw [if_pos htoken, hcount]
  refine (readByte_reads _).bind (hrest.bind_nil ?_)
  rw [shiftIn_of_fits (by omega) h]
  exact Reads.pure v

theorem readCompactValue_write (v : BitVec 64) :
    Reads readCompactValue (writeCompactValue v) v := by
  unfold writeCompactValue
  by_cases hone : v.toInt ≤ 127 ∧ v.toInt ≥ -128 + 7
  · rw [if_pos hone]
    have hvalue : (v.setWidth 8).signExtend 64 = v := signExtend_setWidth (by omega) (by omega)
    have hbyte : ¬ (v.setWidth 8).toInt < -128 + 7 := by
      have hsame := congrArg BitVec.toInt hvalue
      rw [BitVec.toInt_signExtend_of_le (by omega)] at hsame
      omega
    refine (readByte_reads _).bind_nil ?_
    rw [if_neg hbyte, hvalue]
    exact Reads.pure v
  · rw [if_neg hone]
    by_cases htwo : v.toInt ≤ 32767 ∧ v.toInt ≥ -32768
    · rw [if_pos htwo]
      have hfits : Fits v 2 := ⟨by omega, by omega⟩
      rw [writeShort, bigEndian_setWidth (by omega)]
      exact readCompactValue_bytes (n := 0) (by omega) hfits
    · rw [if_neg htwo]
      have hbuffer : ∃ k, 3 ≤ k ∧ k ≤ 8 ∧
          (if v.toInt < 0 then negativeBuffer v else positiveBuffer v) = lowBytes v k ∧
            Fits v k := by
        by_cases hneg : v.toInt < 0
        · rw [if_pos hneg]
          exact negativeBuffer_spec (by omega)
        · rw [if_neg hneg]
          exact positiveBuffer_spec (by omega)
      obtain ⟨k, hlow, hhigh, heq, hfits⟩ := hbuffer
      obtain ⟨k, rfl⟩ : ∃ m, k = m + 2 := ⟨k - 2, by omega⟩
      have hlen : (lowBytes v (k + 2)).length = k + 2 := by simp [lowBytes]
      dsimp only
      rw [heq, reverse_lowBytes v hhigh, hlen]
      exact readCompactValue_bytes (by omega) hfits

end GeodeNative.Statistics

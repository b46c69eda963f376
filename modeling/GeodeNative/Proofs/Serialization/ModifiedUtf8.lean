import GeodeNative.Proofs.Serialization.Reading

/-!
# Characters of one to three bytes

`encodeWideChar` cuts a 16-bit unit in groups of six bits. The lead byte tells how many bytes
follow. `reads_decodeWideChar` states that the decoder reads a unit back, and `scanDecoded_encode`
that the scan for the length takes the bytes of a unit for one round. Both classify the lead byte
in the same way (`lead_one`, `lead_two`, `lead_three`).
-/

set_option autoImplicit false

namespace GeodeNative.Serialization

open Lib DataOutput DataInput

/-! ### Lead bytes and tails -/

theorem lead_one : ∀ b : Byte, b < 0x80 → b >>> 5 ≠ 6 ∧ b >>> 5 ≠ 7 ∧ b &&& 0x7F = b := by
  decide

theorem lead_two : ∀ b : Byte, b < 0x20 → (0xC0 ||| b) >>> 5 = 6 ∧ (0xC0 ||| b) &&& 0x1F = b := by
  decide

theorem lead_three : ∀ b : Byte, b < 0x10 →
    (0xE0 ||| b) >>> 5 ≠ 6 ∧ (0xE0 ||| b) >>> 5 = 7 ∧ (0xE0 ||| b) &&& 0x0F = b := by
  decide

theorem tail_bits : ∀ b : Byte, b < 0x40 → (0x80 ||| b) &&& 0x3F = b := by
  decide

/-! ### The bytes of a unit -/

theorem two_groups (u : BitVec 11) :
    u.setWidth 32 = ((u.setWidth 16 >>> 6).setWidth 8).setWidth 32 <<< 6 |||
      ((u.setWidth 16 &&& 0x3F).setWidth 8).setWidth 32 := by
  ext i hi
  interval_cases i <;> simp

theorem group_lt (u : BitVec 16) : (u &&& 0x3F).setWidth 8 < (0x40 : Byte) := by
  exact Nat.lt_of_le_of_lt (Nat.mod_le _ _) (Nat.lt_succ_of_le Nat.and_le_right)

theorem shifted_lt {u : BitVec 16} {n : Nat} {b : Byte} (h : u.toNat / 2 ^ n < b.toNat) :
    (u >>> n).setWidth 8 < b := by
  rw [BitVec.lt_def, BitVec.toNat_setWidth, BitVec.toNat_ushiftRight, Nat.shiftRight_eq_div_pow]
  exact Nat.lt_of_le_of_lt (Nat.mod_le _ _) h

variable {c : WChar}

theorem setWidth_unit (hc : c.toNat < 2 ^ 16) : (c.setWidth 16).setWidth 32 = c := by
  refine BitVec.eq_of_toNat_eq ?_
  simp only [BitVec.toNat_setWidth]
  omega

/-- The one to three bytes of a unit, and the unit that the groups make. -/
theorem encodeWideChar_cases (hc : c.toNat < 2 ^ 16) :
    (∃ b : Byte, b < 0x80 ∧ encodeWideChar c = [b] ∧ c = b.setWidth 32) ∨
      (∃ h l : Byte, h < 0x20 ∧ l < 0x40 ∧ encodeWideChar c = [0xC0 ||| h, 0x80 ||| l] ∧
        c = h.setWidth 32 <<< 6 ||| l.setWidth 32) ∨
      ∃ h m l : Byte, h < 0x10 ∧ m < 0x40 ∧ l < 0x40 ∧
        encodeWideChar c = [0xE0 ||| h, 0x80 ||| m, 0x80 ||| l] ∧
        c = h.setWidth 32 <<< 12 ||| m.setWidth 32 <<< 6 ||| l.setWidth 32 := by
  have hwide := setWidth_unit hc
  unfold encodeWideChar
  dsimp only
  generalize c.setWidth 16 = u at hwide ⊢
  have hu := u.isLt
  subst hwide
  split
  · -- the unit 0 has two bytes
    rename_i hzero
    exact .inr (.inl ⟨0, 0, by decide, by decide, rfl, by rw [hzero]; rfl⟩)
  · split
    · rename_i hlow
      have hb : (u.setWidth 8).toNat = u.toNat := by simpa using Nat.lt_trans hlow (by decide)
      refine .inl ⟨_, ?_, rfl, BitVec.eq_of_toNat_eq ?_⟩
      · rw [BitVec.lt_def, hb]
        exact hlow
      · rw [BitVec.toNat_setWidth, BitVec.toNat_setWidth, hb]
    · split
      · rename_i hlow
        replace hlow : u.toNat < 2 ^ 11 := BitVec.lt_def.mp hlow
        have hcut : (u.setWidth 11).setWidth 16 = u := by
          refine BitVec.eq_of_toNat_eq ?_
          simp only [BitVec.toNat_setWidth]
          rw [Nat.mod_eq_of_lt hlow, Nat.mod_eq_of_lt hu]
        have hgroups := two_groups (u.setWidth 11)
        rw [hcut] at hgroups
        refine .inr (.inl ⟨(u >>> 6).setWidth 8, (u &&& 0x3F).setWidth 8,
          shifted_lt (Nat.div_lt_of_lt_mul hlow), group_lt u, by simp, ?_⟩)
        rw [← hgroups, ← hcut]
        simp
      · exact .inr (.inr ⟨(u >>> 12).setWidth 8, (u >>> 6 &&& 0x3F).setWidth 8,
          (u &&& 0x3F).setWidth 8, shifted_lt (Nat.div_lt_of_lt_mul hu), group_lt _, group_lt u,
          by simp, by ext i hi; interval_cases i <;> simp⟩)

theorem reads_decodeWideChar (hc : c.toNat < 2 ^ 16) :
    Reads decodeWideChar (encodeWideChar c) c := by
  rcases encodeWideChar_cases hc with ⟨b, hb, henc, hval⟩ | ⟨h, l, hh, hl, henc, hval⟩ |
    ⟨h, m, l, hh, hm, hl, henc, hval⟩
  · obtain ⟨hnot6, hnot7, hbits⟩ := lead_one b hb
    rw [henc, hval]
    refine (Reads.next _ b).bind_nil ?_
    rw [if_neg hnot6, if_neg hnot7, hbits]
    exact Reads.pure _
  · obtain ⟨h6, hbits⟩ := lead_two h hh
    rw [henc, hval]
    show Reads decodeWideChar ([0xC0 ||| h] ++ [0x80 ||| l]) _
    refine (Reads.next _ _).bind ?_
    rw [if_pos h6, hbits]
    have htail := (Reads.next ReadError.fault (0x80 ||| l)).map fun x =>
      h.setWidth 32 <<< 6 ||| (x &&& 0x3F).setWidth 32
    rw [tail_bits l hl] at htail
    exact htail
  · obtain ⟨hnot6, h7, hbits⟩ := lead_three h hh
    rw [henc, hval]
    show Reads decodeWideChar ([0xE0 ||| h] ++ ([0x80 ||| m] ++ [0x80 ||| l])) _
    refine (Reads.next _ _).bind ?_
    rw [if_neg hnot6, if_pos h7, hbits]
    refine (Reads.next _ _).bind ?_
    rw [tail_bits m hm]
    have htail := (Reads.next ReadError.fault (0x80 ||| l)).map fun x =>
      h.setWidth 32 <<< 12 ||| m.setWidth 32 <<< 6 ||| (x &&& 0x3F).setWidth 32
    rw [tail_bits l hl] at htail
    exact htail

/-! ### The scan for the length -/

/-- The bytes that `decodeChar(wchar_t*)` and `getDecodedLength` take for a lead byte. -/
def wideWidth (b : Byte) : Nat := if b >>> 5 = 6 then 2 else if b >>> 5 = 7 then 3 else 1

/-- The scan takes the bytes of a character for one round, which ends behind the end when it is
cut. -/
theorem scanDecoded_cons (b : Byte) (bs : List Byte) :
    scanDecoded (b :: bs) = if bs.length + 1 < wideWidth b then (1, true) else
      ((scanDecoded ((b :: bs).drop (wideWidth b))).1 + 1,
        (scanDecoded ((b :: bs).drop (wideWidth b))).2) := by
  rw [scanDecoded.eq_def, wideWidth]
  by_cases h6 : b >>> 5 = 6
  · simp only [if_pos h6]
    cases bs <;> simp
  · simp only [if_neg h6]
    by_cases h7 : b >>> 5 = 7
    · simp only [if_pos h7]
      rcases bs with _ | ⟨y, _ | ⟨x, bs⟩⟩ <;> simp
    · simp only [if_neg h7]
      simp

theorem scanDecoded_pos (bs : List Byte) (h : (scanDecoded bs).2 = true) :
    0 < (scanDecoded bs).1 := by
  cases bs with
  | nil => cases h
  | cons b bs =>
    rw [scanDecoded.eq_def]
    dsimp only
    repeat' split
    all_goals exact Nat.succ_pos _

theorem getDecodedLength_succ {bs cs : List Byte}
    (h : scanDecoded bs = ((scanDecoded cs).1 + 1, (scanDecoded cs).2)) :
    getDecodedLength bs = getDecodedLength cs + 1 := by
  have hpos := scanDecoded_pos cs
  rw [getDecodedLength, getDecodedLength, h]
  split
  · rename_i hover
    have := hpos hover
    omega
  · rfl

/-- The lead byte of a unit tells the number of its bytes. -/
theorem encodeWideChar_width (hc : c.toNat < 2 ^ 16) :
    ∃ b bs, encodeWideChar c = b :: bs ∧ wideWidth b = bs.length + 1 := by
  rcases encodeWideChar_cases hc with ⟨b, hb, henc, -⟩ | ⟨h, l, hh, -, henc, -⟩ |
    ⟨h, m, l, hh, -, -, henc, -⟩
  · obtain ⟨hnot6, hnot7, -⟩ := lead_one b hb
    exact ⟨b, [], henc, by rw [wideWidth, if_neg hnot6, if_neg hnot7]; rfl⟩
  · exact ⟨_, _, henc, by rw [wideWidth, if_pos (lead_two h hh).1]; rfl⟩
  · obtain ⟨hnot6, h7, -⟩ := lead_three h hh
    exact ⟨_, _, henc, by rw [wideWidth, if_neg hnot6, if_pos h7]; rfl⟩

/-- The scan takes the bytes of a unit for one round. -/
theorem scanDecoded_encode (hc : c.toNat < 2 ^ 16) (rest : List Byte) :
    scanDecoded (encodeWideChar c ++ rest) =
      ((scanDecoded rest).1 + 1, (scanDecoded rest).2) := by
  obtain ⟨b, bs, henc, hwidth⟩ := encodeWideChar_width hc
  have hrest : (b :: (bs ++ rest)).drop (wideWidth b) = rest := by
    rw [hwidth, List.drop_succ_cons, List.drop_left]
  rw [henc, List.cons_append, scanDecoded_cons, hrest, if_neg]
  rw [hwidth, List.length_append]
  omega

/-- The first bytes of a unit, but not all of them, are not counted. -/
theorem getDecodedLength_part (hc : c.toNat < 2 ^ 16) {n : Nat}
    (hn : n < (encodeWideChar c).length) : getDecodedLength ((encodeWideChar c).take n) = 0 := by
  obtain ⟨b, bs, henc, hwidth⟩ := encodeWideChar_width hc
  rw [henc] at hn ⊢
  cases n with
  | zero => rfl
  | succ n =>
    rw [List.length_cons] at hn
    have hscan := scanDecoded_cons b (bs.take n)
    rw [if_pos (by rw [hwidth, List.length_take]; omega)] at hscan
    rw [List.take_succ_cons, getDecodedLength, hscan]
    rfl

/-- The scan over a string that was cut counts the units that are complete. -/
theorem getDecodedLength_cut {value : List WChar} (hvalue : ∀ c ∈ value, c.toNat < 2 ^ 16)
    (hc : c.toNat < 2 ^ 16) {n : Nat} (hn : n < (encodeWideChar c).length) :
    getDecodedLength (value.flatMap encodeWideChar ++ (encodeWideChar c).take n) =
      value.length := by
  induction value with
  | nil => exact getDecodedLength_part hc hn
  | cons d value ih =>
    rw [List.flatMap_cons, List.append_assoc,
      getDecodedLength_succ (scanDecoded_encode (hvalue d List.mem_cons_self) _),
      ih fun e he => hvalue e (List.mem_cons_of_mem d he), List.length_cons]

theorem length_encodeWideChar (hc : c.toNat < 2 ^ 16) :
    (encodeWideChar c).length = wideCharEncodedLength c := by
  have hcut : (c.setWidth 16).toNat = c.toNat := by simpa using hc
  have hint : c.toInt = c.toNat := by
    rw [BitVec.toInt_eq_toNat_cond, if_pos (by omega)]
  have hzero : c.setWidth 16 = 0 ↔ c = 0 := by
    rw [← BitVec.toNat_inj, ← BitVec.toNat_inj, hcut]
    rfl
  have hless : ∀ n : Nat, n < 2 ^ 16 →
      (c.setWidth 16 < BitVec.ofNat 16 n ↔ c.toInt < (n : Int)) := by
    intro n hn
    rw [BitVec.lt_def, hcut, hint, BitVec.toNat_ofNat, Nat.mod_eq_of_lt hn, Int.ofNat_lt]
  have h80 : c.setWidth 16 < 0x80 ↔ c.toInt < 0x80 := hless 0x80 (by decide)
  have h800 : c.setWidth 16 < 0x800 ↔ c.toInt < 0x800 := hless 0x800 (by decide)
  unfold encodeWideChar wideCharEncodedLength
  simp only [hzero, h80, h800]
  split
  · rfl
  · split
    · rfl
    · split <;> rfl

end GeodeNative.Serialization

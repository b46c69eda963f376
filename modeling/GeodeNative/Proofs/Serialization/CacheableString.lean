import GeodeNative.Proofs.Serialization.RoundTrip
import GeodeNative.Serialization.CacheableString

/-!
# Strings come back as they were

The short type ids write at most 65535 bytes behind a length of 16 bits. A string that is created
has a short type id only if its bytes fit: `StringCreation.fits_exec`. For `char` the test is
exact. For `wchar_t` the function `getASCIIChar` counts three bytes for the characters from 0x400
to 0x7FF, which take two, so some strings that would fit get the huge type id, and no string that
does not fit gets the short one. A string with a type id that fits is read back as it was:
`StringCreation.created_roundTrip`.

As keys of a map the strings are lawful when the first character 0 of the buffer is right behind the
characters that the length counts: `CacheableString.lawfulKey_iff`.
-/

set_option autoImplicit false

namespace GeodeNative.Serialization

open Lib DataOutput DataInput List

/-! ### The encoded length of a wide string -/

/-- What `getASCIIChar` adds to the encoded length. -/
def asciiCharLength (wc : WChar) : Nat :=
  if wc &&& 0xFC00 ≠ 0 then 3 else if wc &&& 0x0380 ≠ 0 then 2 else 1

theorem getASCIIChar_encodedLen (wc : WChar) (isASCII : Bool) (encodedLen : Nat) :
    (CacheableString.getASCIIChar wc isASCII encodedLen).2.2 = encodedLen + asciiCharLength wc := by
  unfold CacheableString.getASCIIChar asciiCharLength
  split
  · rfl
  · split <;> rfl

theorem encodedLen_foldl (chars : List WChar) (s : CacheableString.ASCIIScan) :
    (chars.foldl CacheableString.ASCIIScan.next s).encodedLen =
      s.encodedLen + (chars.map asciiCharLength).sum := by
  induction chars generalizing s with
  | nil => rfl
  | cons c chars ih =>
    rw [foldl_cons, ih, map_cons, sum_cons, ← Nat.add_assoc]
    exact congrArg (· + _) (getASCIIChar_encodedLen c s.isASCII s.encodedLen)

/-- A mask of `k` bits from bit `n` on. -/
theorem toNat_div_mod_of_and_eq_zero {c m : WChar} {n k : Nat} (hm : m.toNat >>> n = 2 ^ k - 1)
    (h : c &&& m = 0) : c.toNat / 2 ^ n % 2 ^ k = 0 := by
  have hzero : (c.toNat &&& m.toNat) >>> n = 0 := by
    rw [← BitVec.toNat_and, h]
    exact Nat.zero_shiftRight n
  rwa [Nat.shiftRight_and_distrib, hm, Nat.and_two_pow_sub_one_eq_mod,
    Nat.shiftRight_eq_div_pow] at hzero

/-- `getASCIIChar` counts all bytes of a character, and one too many for 0x400 to 0x7FF. -/
theorem wideCharEncodedLength_le {c : WChar} (hc : c.toNat < 2 ^ 16) (hzero : c ≠ 0) :
    wideCharEncodedLength c ≤ asciiCharLength c := by
  have hint : c.toInt = c.toNat := by
    rw [BitVec.toInt_eq_toNat_cond, if_pos (by omega)]
  unfold wideCharEncodedLength asciiCharLength
  rw [if_neg hzero, hint]
  by_cases hhigh : c &&& 0xFC00 = 0
  · have hlow : c.toNat / 2 ^ 10 % 2 ^ 6 = 0 := toNat_div_mod_of_and_eq_zero (by decide) hhigh
    rw [if_neg (not_not.mpr hhigh)]
    by_cases hmiddle : c &&& 0x0380 = 0
    · have hseven : c.toNat / 2 ^ 7 % 2 ^ 3 = 0 := toNat_div_mod_of_and_eq_zero (by decide) hmiddle
      rw [if_neg (not_not.mpr hmiddle), if_pos (by omega)]
    · split
      · decide
      · rw [if_pos (by omega)]
  · split
    · decide
    · split <;> decide

variable {value : List WChar}

theorem encoded_le_ascii (hunits : Units value) (hzero : ∀ c ∈ value, c ≠ 0) :
    (value.flatMap encodeWideChar).length ≤ (value.map asciiCharLength).sum := by
  rw [length_flatMap]
  refine sum_le_sum fun c hc => ?_
  rw [length_encodeWideChar (hunits c hc)]
  exact wideCharEncodedLength_le (hunits c hc) (hzero c hc)

/-! ### Strings whose type id fits -/

namespace CacheableString

/-- The characters of the string: the first `m_len` behind `m_str`. -/
def text : CacheableString → Option (List Byte ⊕ List WChar)
  | narrow _ str len => str.map fun value => .inl (value.take len.toNat)
  | wide _ str len => str.map fun value => .inr (value.take len.toNat)

/-- A string below 2^29 characters, without a character 0, with its length. The bytes fit behind the
length that the type id has room for. -/
inductive Fits : CacheableString → Prop where
  | narrow {huge : Bool} {value : List Byte} (hzero : ∀ c ∈ value, c ≠ 0)
      (hlength : value.length < 2 ^ 29) (hfits : huge = false → value.length ≤ 0xFFFF) :
      Fits (.narrow huge (some value) (len32 value))
  | wide {huge : Bool} {value : List WChar} (hzero : ∀ c ∈ value, c ≠ 0) (hunits : Units value)
      (hlength : value.length < 2 ^ 29)
      (hfits : huge = false → (value.flatMap encodeWideChar).length ≤ 0xFFFF) :
      Fits (.wide huge (some value) (len32 value))

/-- The bytes of the string as an object. -/
def encoded (s : CacheableString) : List Byte :=
  s.typeId :: match s with
    | narrow false str _ => (WriteCall.writeASCII (str.getD []) 0).encode
    | narrow true str _ => (WriteCall.writeASCIIHuge (str.getD []) 0).encode
    | wide false str _ => (WriteCall.writeUTF (str.getD []) 0).encode
    | wide true str _ => (WriteCall.writeUTFHuge (str.getD []) 0).encode

theorem whole_len32 {w : Nat} {value : List (BitVec w)} (hzero : ∀ c ∈ value, c ≠ 0)
    (hlength : value.length < 2 ^ 29) : Whole value (len32 value) :=
  ⟨hzero, .inr (toNat_len32 (by omega))⟩

variable {s : CacheableString}

theorem Fits.appends_serialize (h : s.Fits) : Appends s.serialize s.encoded := by
  cases h with
  | @narrow huge value hzero hlength hfits =>
    have hwhole := whole_len32 hzero hlength
    cases huge with
    | false => exact (appends_write _).comp (appends_writeASCII hwhole (hfits rfl))
    | true => exact (appends_write _).comp (appends_writeASCIIHuge hwhole (by omega))
  | @wide huge value hzero hunits hlength hfits =>
    have hwhole := whole_len32 hzero hlength
    cases huge with
    | false => exact (appends_write _).comp (appends_writeWideUTF hwhole hunits (hfits rfl))
    | true => exact (appends_write _).comp (appends_writeWideUTFHuge hwhole (by omega))

/-- The data of every type id is read by the object that its factory makes. -/
theorem Fits.reads_deserialize (h : s.Fits) (others : Byte → Read CacheableString) :
    Reads (deserialize others) s.encoded s := by
  cases h with
  | @narrow huge value hzero hlength hfits =>
    cases huge with
    | false =>
      exact (reads_read _).bind ((reads_readASCII (hfits rfl)).map fun str =>
        CacheableString.narrow false str (len32 str))
    | true =>
      have hread := reads_readASCIIHuge (show value.length < 2 ^ 30 by omega)
      exact (reads_read _).bind (hread.map fun str =>
        CacheableString.narrow true str (len32 str))
  | @wide huge value hzero hunits hlength hfits =>
    cases huge with
    | false =>
      exact (reads_read _).bind ((reads_readWideUTF hunits (hfits rfl)).map fun str =>
        CacheableString.wide false str (len32 str))
    | true =>
      have hread := reads_readWideUTFHuge hunits (show value.length < 2 ^ 30 by omega)
      exact (reads_read _).bind (hread.map fun str =>
        CacheableString.wide true str (len32 str))

theorem Fits.length_encoded (h : s.Fits) : s.encoded.length < 2 ^ 30 + 8 := by
  cases h with
  | @narrow huge value hzero hlength hfits =>
    cases huge <;>
    · simp only [encoded, WriteCall.encode, Option.getD_some, length_cons, length_append,
        length_bigEndian]
      omega
  | @wide huge value hzero hunits hlength hfits =>
    cases huge with
    | false =>
      have hencoded := hfits rfl
      simp only [encoded, WriteCall.encode, Option.getD_some, length_cons, length_append,
        length_bigEndian]
      omega
    | true =>
      simp only [encoded, WriteCall.encode, Option.getD_some, length_cons, length_append,
        length_bigEndian, length_flatMap_hugeBytes]
      omega

end CacheableString

/-! ### Creation -/

namespace StringCreation

/-- The characters that the call is given. -/
def text : StringCreation → List Byte ⊕ List WChar
  | create value _ => .inl value
  | createNoCopy value _ => .inl value
  | createWide value _ => .inr value
  | createWideNoCopy value _ => .inr value

/-- The string has less than 2^29 characters and no character 0, the units of a wide string are
16-bit, and its length is passed, or 0, which stands for it. -/
def Valid : StringCreation → Prop
  | create value len => Whole value len ∧ value.length < 2 ^ 29
  | createNoCopy value len => Whole value len ∧ value.length < 2 ^ 29
  | createWide value len => Whole value len ∧ Units value ∧ value.length < 2 ^ 29
  | createWideNoCopy value len => Whole value len ∧ Units value ∧ value.length < 2 ^ 29

section
variable {w : Nat} {value : List (BitVec w)} {len : BitVec 32}

theorem lengthOf_eq (h : Whole value len) (hsmall : value.length < 2 ^ 29) :
    (if len.toInt ≤ 0 then strlen value else len) = len32 value := by
  cases h.length with
  | inl hzero =>
    rw [hzero, if_pos (by decide), strlen, h.takeWhile]
  | inr hlen =>
    have heq : len = len32 value := BitVec.eq_of_toNat_eq (by rw [hlen, toNat_len32 (by omega)])
    have hint := toInt_len32 (l := value) (by omega)
    rw [heq, hint]
    split
    · rename_i hle
      rw [strlen, h.takeWhile]
    · rfl

theorem copyString_len32 (hsmall : value.length < 2 ^ 29) :
    CacheableString.copyString value (len32 value) = value := by
  rw [CacheableString.copyString, toNat_len32 (by omega), memory, take_left]

theorem take_len32 (hsmall : value.length < 2 ^ 29) : value.take (len32 value).toNat = value := by
  rw [toNat_len32 (by omega), take_length]

end

variable {len : BitVec 32}

theorem getASCIIString_eq (h : Whole value len) :
    (CacheableString.getASCIIString value len 0).2 =
      (len32 value, (value.map asciiCharLength).sum) := by
  have hchars : (if len.toInt > 0 then ((memory value).take len.toNat).takeWhile (· ≠ 0)
      else value.takeWhile (· ≠ 0)) = value := by
    split
    · rename_i hpos
      have hne : len ≠ 0 := by
        intro hzero
        rw [hzero] at hpos
        exact absurd hpos (by decide)
      rw [h.length.resolve_left hne, memory, take_left, h.takeWhile]
    · exact h.takeWhile
  simp only [CacheableString.getASCIIString, hchars, encodedLen_foldl, Nat.zero_add]

/-- The two functions for `char` compare the number of characters. -/
theorem fits_narrow {value : List Byte} (h : Whole value len) (hsmall : value.length < 2 ^ 29) :
    let s := CacheableString.narrow ((len32 value).toInt > 0xFFFF) (some value) (len32 value)
    s.text = some (.inl value) ∧ s.Fits := by
  have hint := toInt_len32 (l := value) (by omega)
  constructor
  · rw [CacheableString.text, Option.map_some, take_len32 hsmall]
  · apply CacheableString.Fits.narrow h.nonzero hsmall
    intro hshort
    have hle := of_decide_eq_false hshort
    omega

/-- The two functions for `wchar_t` compare a number of bytes that is at least the encoded
length. -/
theorem fits_wide {encodedLen : Nat} (h : Whole value len) (hunits : Units value)
    (hsmall : value.length < 2 ^ 29)
    (hencoded : (value.flatMap encodeWideChar).length ≤ encodedLen) :
    let s := CacheableString.wide (encodedLen > 0xFFFF) (some value) (len32 value)
    s.text = some (.inr value) ∧ s.Fits := by
  constructor
  · rw [CacheableString.text, Option.map_some, take_len32 hsmall]
  · apply CacheableString.Fits.wide h.nonzero hunits hsmall
    intro hshort
    have hle := of_decide_eq_false hshort
    omega

/-- A created string has the characters that it was created from, and a type id that fits. -/
theorem fits_exec {c : StringCreation} (h : c.Valid) :
    ∃ s, c.exec = some s ∧ s.text = some c.text ∧ s.Fits := by
  cases c with
  | create value len | createNoCopy value len =>
    obtain ⟨hwhole, hsmall⟩ := h
    refine ⟨_, ?_, fits_narrow hwhole hsmall⟩
    simp only [exec, CacheableString.create, CacheableString.createNoCopy,
      CacheableString.createWith, CacheableString.initString, CacheableString.initStringNoCopy,
      lengthOf_eq hwhole hsmall, copyString_len32 hsmall]
  | createWide value len =>
    obtain ⟨hwhole, hunits, hsmall⟩ := h
    refine ⟨_, ?_, fits_wide hwhole hunits hsmall (encoded_le_ascii hunits hwhole.nonzero)⟩
    simp only [exec, CacheableString.createWide, CacheableString.createWith,
      CacheableString.initWideString, getASCIIString_eq hwhole, copyString_len32 hsmall]
  | createWideNoCopy value len =>
    obtain ⟨hwhole, hunits, hsmall⟩ := h
    have hlen := getWideEncodedLength_eq hwhole hunits (by omega)
    refine ⟨_, ?_, fits_wide hwhole hunits hsmall (Nat.le_of_eq hlen.symm)⟩
    simp only [exec, CacheableString.createWideNoCopy, CacheableString.createWith,
      CacheableString.initWideStringNoCopy, hwhole.visited (by omega)]

end StringCreation

/-- Every string that is created from less than 2^29 characters has these characters. Its type id
and its data fit into the output, which may hold other bytes before, and the object for the type id
reads an equal string and stops behind its last byte. -/
theorem StringCreation.created_roundTrip (others : Byte → Read CacheableString)
    {c : StringCreation} (hc : c.Valid) {o : DataOutput} (ho : Room o 0)
    (hspace : o.bytes.length ≤ 2 ^ 26) (back : List Byte) :
    ∃ s, c.exec = some s ∧ s.text = some c.text ∧
      (s.serialize o).fault = false ∧ o.bytes <+: (s.serialize o).bytes ∧
      CacheableString.deserialize others ⟨(s.serialize o).bytes ++ back, o.bytes.length⟩ =
        .ok s ⟨(s.serialize o).bytes ++ back, (s.serialize o).bytes.length⟩ := by
  obtain ⟨s, hexec, htext, hfits⟩ := StringCreation.fits_exec hc
  have hwrite := hfits.appends_serialize
  have hlength := hfits.length_encoded
  have hroom := hwrite.room o 0 ho (by omega)
  refine ⟨s, hexec, htext, hroom.fault, ?_, ?_⟩
  · rw [hwrite.bytes]
    exact List.prefix_append _ _
  · rw [hwrite.bytes]
    exact hfits.reads_deserialize others o.bytes back

/-- Two Cyrillic letters, which `getASCIIChar` counts as three bytes each. -/
theorem StringCreation.created_roundTrip_cyrillic :
    let c : StringCreation := .createWide [0x416, 0x42F] 0
    let o : DataOutput := ⟨[], 8192, false⟩
    c.Valid ∧ ∃ s, c.exec = some s ∧ s.text = some (.inr [0x416, 0x42F]) ∧
      (s.serialize o).fault = false ∧ o.bytes <+: (s.serialize o).bytes ∧
      CacheableString.deserialize (fun _ => throw .fault) ⟨(s.serialize o).bytes ++ [7], 0⟩ =
        .ok s ⟨(s.serialize o).bytes ++ [7], (s.serialize o).bytes.length⟩ := by
  have hvalid : (StringCreation.createWide [0x416, 0x42F] 0).Valid := by
    refine ⟨?_, ?_, ?_⟩ <;> decide
  exact ⟨hvalid, StringCreation.created_roundTrip _ hvalid ⟨by decide, by decide, rfl⟩ (by decide)
    [7]⟩

namespace CacheableString

/-! ### Strings as keys -/

/-- The comparison ends at the first character 0 of the first string. -/
theorem compareStrings_iff (a b : List WChar) :
    compareStrings a b = true ↔ a.takeWhile (· ≠ 0) <+: b := by
  induction a generalizing b with
  | nil => simp [compareStrings]
  | cons wc a ih =>
    rw [compareStrings.eq_def]
    by_cases hzero : wc = 0
    · simp [hzero]
    · rw [takeWhile_cons_of_pos (by simpa using hzero)]
      simp only [if_neg hzero]
      cases b with
      | nil => simp
      | cons c b => simp [cons_prefix_cons, ih]

/-- The characters up to the first 0, or up to the end of the buffer. A null pointer has none. -/
def cString (s : CacheableString) : List WChar := (s.chars.getD []).takeWhile (· ≠ 0)

/-- The first 0 of the buffer is right behind the `m_len` characters. There is none among these,
and the buffer does not go on behind them, as it can in a string that was created without a
copy. -/
def Terminated (s : CacheableString) : Prop := s.cString.length = s.len.toNat

/-- What a map expects of a key, for this string among the terminated ones. -/
structure LawfulKey (s : CacheableString) : Prop where
  refl : s.equals s = true
  symm : ∀ t, t.Terminated → (s.equals t = true ↔ t.equals s = true)
  trans : ∀ t u, t.Terminated → u.Terminated → s.equals t = true → t.equals u = true →
    s.equals u = true
  hash : ∀ t, t.Terminated → s.equals t = true → s.hashcode = t.hashcode

theorem cString_starts (s : CacheableString) : s.cString <+: s.chars.getD [] := takeWhile_prefix _

theorem zero_notMem_cString (s : CacheableString) : 0 ∉ s.cString := by
  intro hmem
  have hne := mem_takeWhile_imp hmem
  simp at hne

/-- What the buffer starts with up to a 0 is a part of the characters before its first 0. -/
theorem length_le_cString (s : CacheableString) {str : List WChar} (hzero : 0 ∉ str)
    (h : str <+: s.chars.getD []) : str.length ≤ s.cString.length := by
  obtain ⟨rest, hrest⟩ := h
  have hpos : ∀ c ∈ str, decide (c ≠ 0) = true := by
    intro c hc
    simpa using fun h : c = 0 => hzero (h ▸ hc)
  rw [cString, ← hrest, takeWhile_append_of_pos hpos, length_append]
  exact Nat.le_add_right _ _

/-- The comparison is one of the lengths, and of the characters up to the first 0 of the string on
the left. -/
theorem equals_iff_starts (s t : CacheableString) :
    s.equals t = true ↔ s.len = t.len ∧ s.cString <+: t.chars.getD [] := by
  unfold equals cString
  by_cases hlen : s.len = t.len
  · rw [if_neg (not_not.mpr hlen), and_iff_right hlen]
    cases s.chars with
    | none => exact iff_of_true rfl nil_prefix
    | some str => exact compareStrings_iff str _
  · rw [if_pos hlen]
    exact iff_of_false Bool.false_ne_true fun h => hlen h.1

/-- A terminated string has the length of its characters. -/
theorem len_eq_of_cString {s t : CacheableString} (hs : s.Terminated) (ht : t.Terminated)
    (h : s.cString = t.cString) : s.len = t.len :=
  BitVec.eq_of_toNat_eq (hs.symm.trans ((congrArg List.length h).trans ht))

/-- Terminated strings are compared by their characters. -/
theorem equals_iff {s t : CacheableString} (hs : s.Terminated) (ht : t.Terminated) :
    s.equals t = true ↔ s.cString = t.cString := by
  rw [equals_iff_starts]
  constructor
  · rintro ⟨hlen, hstarts⟩
    have hsame : s.cString.length = t.cString.length := hs.trans ((congrArg _ hlen).trans ht.symm)
    exact (prefix_of_prefix_length_le hstarts t.cString_starts hsame.le).eq_of_length hsame
  · exact fun h => ⟨len_eq_of_cString hs ht h, h ▸ t.cString_starts⟩

/-- The hash code of a terminated string is one of its characters. -/
theorem hashcode_eq {s : CacheableString} (hs : s.Terminated) :
    s.hashcode = s.cString.foldl (fun localHash c => 31 * localHash + c) 0 := by
  have htake := List.prefix_iff_eq_take.mp s.cString_starts
  rw [hs] at htake
  rw [htake]
  unfold hashcode
  cases s.chars with
  | none => simp
  | some data => rfl

/-- The wide string of these characters. -/
def ofChars (str : List WChar) (len : BitVec 32) : CacheableString := wide false (some str) len

/-- A wide string without a 0 among its characters, with the length of these, is terminated. -/
theorem cString_ofChars {str : List WChar} (hzero : 0 ∉ str) (len : BitVec 32) :
    (ofChars str len).cString = str := by
  show str.takeWhile (· ≠ 0) = str
  rw [takeWhile_eq_self_iff]
  intro c hc
  simpa using fun h : c = 0 => hzero (h ▸ hc)

/-- A string is a lawful key among the terminated strings exactly when it is one of them. With a 0
among its characters it equals a string that goes on in another way, and the hash codes differ.
When its buffer goes on behind the length, the string of its first characters equals it, and it
does not equal that one. -/
theorem lawfulKey_iff (s : CacheableString) : s.LawfulKey ↔ s.Terminated := by
  constructor
  · intro h
    obtain hless | hsame | hmore := Nat.lt_trichotomy s.cString.length s.len.toNat
    · -- a string that goes on with characters 1 where `s` has its first 0
      let str := s.cString ++ replicate (s.len.toNat - s.cString.length) 1
      have hzero : (0 : WChar) ∉ str := by
        intro hmem
        obtain hmem | hmem := mem_append.mp hmem
        · exact zero_notMem_cString s hmem
        · exact absurd (eq_of_mem_replicate hmem) (by decide)
      have ht : (ofChars str s.len).Terminated := by
        rw [Terminated, cString_ofChars hzero, length_append, length_replicate]
        exact Nat.add_sub_of_le hless.le
      have hback := (h.symm _ ht).mp ((equals_iff_starts s _).mpr ⟨rfl, prefix_append _ _⟩)
      rw [equals_iff_starts, cString_ofChars hzero] at hback
      have hle := length_le_cString s hzero hback.2
      rw [length_append, length_replicate] at hle
      omega
    · exact hsame
    · have hzero : (0 : WChar) ∉ s.cString.take s.len.toNat :=
        fun hmem => zero_notMem_cString s (mem_of_mem_take hmem)
      have ht : (ofChars (s.cString.take s.len.toNat) s.len).Terminated := by
        rw [Terminated, cString_ofChars hzero, length_take]
        exact Nat.min_eq_left hmore.le
      have hback := (h.symm _ ht).mpr ((equals_iff_starts _ s).mpr ⟨rfl, ?_⟩)
      · have hle := ((equals_iff_starts s _).mp hback).2.length_le
        exact absurd hle (by simp [ofChars, chars]; omega)
      · rw [cString_ofChars hzero]
        have hfirst : s.cString.take s.len.toNat <+: s.cString := List.take_prefix _ _
        exact hfirst.trans s.cString_starts
  · intro hs
    refine ⟨(equals_iff hs hs).mpr rfl, ?_, ?_, ?_⟩
    · intro t ht
      rw [equals_iff hs ht, equals_iff ht hs, eq_comm]
    · intro t u ht hu hst htu
      rw [equals_iff hs ht] at hst
      rw [equals_iff ht hu] at htu
      rw [equals_iff hs hu, hst, htu]
    · intro t ht h
      rw [hashcode_eq hs, hashcode_eq ht, (equals_iff hs ht).mp h]

/-- The string "ab" that was copied is a lawful key. The first two characters of the buffer "abc"
without a copy are not: the first string equals the second one, and not the other way round. -/
theorem createNoCopy_not_lawful :
    (initString (some [97, 98]) 2).LawfulKey ∧
      ¬ (initStringNoCopy (some [97, 98, 99]) 2).LawfulKey := by
  rw [lawfulKey_iff, lawfulKey_iff]
  exact ⟨rfl, by unfold Terminated; decide⟩

/-- Two strings of three characters with a 0 in the first. -/
theorem equals_not_symm :
    (narrow false (some [97, 0, 98]) 3).equals (narrow false (some [97, 98, 99]) 3) = true ∧
      (narrow false (some [97, 98, 99]) 3).equals (narrow false (some [97, 0, 98]) 3) = false ∧
      (narrow false (some [97, 0, 98]) 3).hashcode ≠
        (narrow false (some [97, 98, 99]) 3).hashcode := by
  decide

end CacheableString

end GeodeNative.Serialization

import GeodeNative.Lib.Run
import GeodeNative.Proofs.Serialization.ModifiedUtf8
import GeodeNative.Serialization.Calls

/-!
# Reads of arbitrary bytes

On a buffer of less than 2^31 bytes with any contents, most calls of `DataInput` return or throw,
and leave the cursor in the buffer. Four do not always:

- `readBytesOnly` with a length of 2^31 or more, which is negative in the size check;
- `readASCIIHuge`, when it reads such a length;
- `readUTFHuge`, when it reads the length 2^32 - 1 and allocates an array without elements;
- `readUTF` for `char`: `getDecodedLength` counts a lead byte from 0x80 to 0xBF as a character of
  one byte, and `decodeChar` takes two or three bytes for it.

`Safe` is the condition that excludes these cases, from the bytes at the cursor. It is exact:
`kept_iff_safe` states that a run of calls stays in the buffer if and only if all of its calls are
safe.
-/

set_option autoImplicit false

namespace GeodeNative.Serialization

open Lib DataInput List

/-! ### Reads that check the size -/

/-- An exception, with the cursor in the buffer. -/
def Thrown (buf : List Byte) (e : ReadError) (s : DataInput) : Prop := e ≠ .fault ∧ Left buf 0 s

/-- The read returns or throws, and leaves the cursor in the buffer. -/
def Checked {β : Type} (p : Read β) : Prop :=
  ∀ buf, Triple (Left buf 0) p (fun _ => Left buf 0) (Thrown buf)

variable {β γ : Type} {buf : List Byte}

theorem triple_check (size : Int) :
    Triple (Left buf 0) (checkBufferSize size) (fun _ => Left buf size.toNat) (Thrown buf) := by
  intro s hs
  have hle := hs.le
  have hnonneg := hs.nonneg
  have hbuf := hs.buffer
  by_cases hsize : (s.buffer.length : Int) - s.pos < size
  · rw [checkBufferSize_error hsize]
    exact ⟨by simp, hs⟩
  · rw [checkBufferSize_ok (by omega)]
    rw [hbuf] at hsize
    exact ⟨hbuf, hnonneg, by omega⟩

theorem triple_nextBytes (n : Nat) :
    Triple (Left buf n) (nextBytes n) (fun _ => Left buf 0) (Thrown buf) := Triple.nextN 0 n

theorem Checked.pure (v : β) : Checked (Pure.pure v : Read β) := fun _ => Triple.pure fun _ h => h

theorem Checked.bind {p : Read γ} {f : γ → Read β} (hp : Checked p) (hf : ∀ c, Checked (f c)) :
    Checked (p >>= f) := fun buf => (hp buf).bind fun c => hf c buf

theorem Checked.illegalState (message : String) :
    Checked (throw (.illegalState message) : Read β) :=
  fun _ => Triple.throw fun _ h => ⟨by simp, h⟩

theorem checked_read : Checked read := fun _ =>
  (triple_check 1).bind fun _ => Triple.next

theorem checked_readBoolean : Checked readBoolean := fun _ =>
  (triple_check 1).bind fun _ => Triple.next.bind fun _ => Triple.pure fun _ h => h

theorem checked_readBigEndian (n w : Nat) : Checked (readBigEndian n w) := fun _ =>
  (triple_check n).bind fun _ => (triple_nextBytes n).bind fun _ => Triple.pure fun _ h => h

theorem checked_readSigned (n w : Nat) : Checked (readSigned n w) := fun buf =>
  (triple_check n).bind fun _ =>
    (checked_readBigEndian n w buf).conseq (fun _ h => h.mono (Nat.zero_le _)) fun _ _ h => h

theorem checked_readArrayLen : Checked readArrayLen := by
  refine checked_read.bind fun code => ?_
  split
  · exact Checked.pure _
  · split
    · split
      · exact (checked_readBigEndian 2 16).bind fun _ => Checked.pure _
      · split
        · exact checked_readBigEndian 4 32
        · exact Checked.illegalState _
    · exact Checked.pure _

theorem checked_readBytes : Checked readBytes := by
  refine checked_readArrayLen.bind fun length => ?_
  split
  · rename_i hpos
    intro buf
    have hnat : length.toInt.toNat = length.toNat := by
      rw [BitVec.toInt_eq_toNat_cond] at hpos ⊢
      split
      · omega
      · have := length.isLt
        omega
    refine (triple_check length.toInt).bind fun _ => ?_
    rw [hnat]
    exact (triple_nextBytes length.toNat).bind fun _ => Triple.pure fun _ h => h
  · exact Checked.pure _

/-- The size check of `readBytesOnly` is right for a length below 2^31. -/
theorem checked_readBytesOnly {len : BitVec 32} (hlen : len.toNat < 2 ^ 31) :
    Checked (readBytesOnly len) := by
  unfold readBytesOnly
  split
  · intro buf
    have hint : len.toInt = len.toNat := by
      rw [BitVec.toInt_eq_toNat_cond, if_pos (by omega)]
    refine (triple_check len.toInt).bind fun _ => ?_
    rw [hint]
    exact triple_nextBytes len.toNat
  · exact Checked.pure _

theorem checked_readASCII : Checked readASCII := by
  refine (checked_readBigEndian 2 16).bind fun length => ?_
  have hlen : (length.setWidth 32).toNat < 2 ^ 31 := by
    rw [BitVec.toNat_setWidth]
    omega
  intro buf
  refine (triple_check length.toNat).bind fun _ => ?_
  exact (checked_readBytesOnly hlen buf).conseq (fun _ h => h.mono (Nat.zero_le _)) fun _ _ h => h

theorem checked_readUnsignedVLLoop (n shift : Nat) (result : BitVec 64) :
    Checked (readUnsignedVLLoop n shift result) := by
  induction n generalizing shift result with
  | zero => exact Checked.illegalState _
  | succ n ih =>
    refine checked_read.bind fun b => ?_
    split
    · exact Checked.pure _
    · exact ih _ _

variable {C : Type} {s : DataInput} (item : Byte → Byte → C)

theorem checked_hugeRound : Checked (hugeRound item true) :=
  checked_read.bind fun _ => checked_read.bind fun _ => Checked.pure _

/-! ### Decoded characters -/

/-- The first `k` characters lie in the list, when a lead byte gives the number of bytes of its
character. -/
def fits (width : Byte → Nat) : Nat → List Byte → Bool
  | 0, _ => true
  | _ + 1, [] => false
  | k + 1, b :: bs => decide (width b ≤ bs.length + 1) && fits width k ((b :: bs).drop (width b))

/-- The bytes that `decodeChar(char*)` takes for a lead byte. -/
def narrowWidth (b : Byte) : Nat := if b &&& 0x80 = 0 then 1 else if b &&& 0x20 = 0 then 2 else 3

/-- The decoder reads a character of this width, and leaves the buffer when it is cut. -/
structure Decodes {C : Type} (decode : Read C) (width : Byte → Nat) : Prop where
  pos : ∀ b, 0 < width b
  complete : ∀ b bs, bs.length + 1 = width b → ∃ c, Reads decode (b :: bs) c
  nil : ∀ front : List Byte, ∃ s', decode ⟨front, front.length⟩ = .error .fault s'
  cut : ∀ front b bs, bs.length + 1 < width b →
    ∃ s', decode ⟨front ++ b :: bs, front.length⟩ = .error .fault s'

section
variable {C : Type} {decode : Read C} {width : Byte → Nat}

theorem Decodes.split (h : Decodes decode width) {b : Byte} {bs : List Byte}
    (hwidth : width b ≤ bs.length + 1) :
    ∃ tail rest, bs = tail ++ rest ∧ tail.length + 1 = width b ∧
      (b :: bs).drop (width b) = rest := by
  have hpos := h.pos b
  have htail : (bs.take (width b - 1)).length + 1 = width b := by
    rw [length_take]
    omega
  refine ⟨bs.take (width b - 1), bs.drop (width b - 1), (take_append_drop _ _).symm, htail, ?_⟩
  rw [show width b = width b - 1 + 1 by omega, drop_succ_cons, Nat.add_sub_cancel]

/-- Characters that fit are read. Others take the decoder out of the buffer. -/
theorem Decodes.times (h : Decodes decode width) (k : Nat) (front rest : List Byte) :
    (fits width k rest = true ∧
      ∃ cs n, n ≤ rest.length ∧ times k decode ⟨front ++ rest, front.length⟩ =
        .ok cs ⟨front ++ rest, (front.length + n : Nat)⟩) ∨
    (fits width k rest = false ∧
      ∃ s', times k decode ⟨front ++ rest, front.length⟩ = .error .fault s') := by
  induction k generalizing front rest with
  | zero => exact .inl ⟨rfl, [], 0, Nat.zero_le _, rfl⟩
  | succ k ih =>
    cases rest with
    | nil =>
      obtain ⟨s', hs'⟩ := h.nil front
      rw [append_nil]
      exact .inr ⟨rfl, s', bind_error hs'⟩
    | cons b bs =>
      by_cases hcut : bs.length + 1 < width b
      · obtain ⟨s', hs'⟩ := h.cut front b bs hcut
        rw [fits, decide_eq_false (by omega)]
        exact .inr ⟨rfl, s', bind_error hs'⟩
      · obtain ⟨tail, rest, hbs, htail, hdrop⟩ := h.split (Nat.le_of_not_lt hcut)
        obtain ⟨c, hc⟩ := h.complete b tail htail
        have hfirst := hc front rest
        have hbuf : front ++ b :: bs = front ++ b :: tail ++ rest := by
          rw [hbs]
          simp
        rw [fits, hdrop, decide_eq_true (by omega), Bool.true_and, hbuf, Lib.times, bind_ok hfirst]
        refine (ih (front ++ b :: tail) rest).imp (And.imp_right ?_) (And.imp_right ?_)
        · rintro ⟨cs, n, hn, hrest⟩
          refine ⟨c :: cs, tail.length + 1 + n, ?_, ?_⟩
          · rw [hbs, length_cons, length_append]
            omega
          · rw [bind_ok hrest]
            simp only [length_append, length_cons, Nat.add_assoc]
            rfl
        · rintro ⟨s', hrest⟩
          exact ⟨s', bind_error hrest⟩

end

/-! ### The two decoders -/

theorem nextByte_cons (front : List Byte) (b : Byte) (bs : List Byte) :
    nextByte ⟨front ++ b :: bs, front.length⟩ =
      .ok b ⟨(front ++ [b]) ++ bs, ((front ++ [b]).length : Nat)⟩ :=
  (Reads.next _ b).behind front bs

theorem nextByte_nil (front : List Byte) :
    nextByte ⟨front, front.length⟩ = .error .fault ⟨front, front.length⟩ := by
  have hnone : elemAt front front.length = none := by simp [elemAt]
  rw [nextByte, Lib.next]
  simp only [hnone]

/-- The read takes this number of bytes, and leaves the buffer when one of them is missing. -/
structure Takes {C : Type} (p : Read C) (n : Nat) : Prop where
  complete : ∀ bs : List Byte, bs.length = n → ∃ c, Reads p bs c
  cut : ∀ front bs : List Byte, bs.length < n →
    ∃ s', p ⟨front ++ bs, front.length⟩ = .error .fault s'

theorem Takes.pure (c : C) : Takes (Pure.pure c) 0 where
  complete bs hbs := by
    obtain rfl := eq_nil_of_length_eq_zero hbs
    exact ⟨c, Reads.pure c⟩
  cut _ _ hbs := absurd hbs (Nat.not_lt_zero _)

theorem Takes.next {f : Byte → Read C} {n : Nat} (h : ∀ b, Takes (f b) n) :
    Takes (nextByte >>= f) (n + 1) where
  complete bs hbs := by
    cases bs with
    | nil => cases hbs
    | cons b bs =>
      obtain ⟨c, hc⟩ := (h b).complete bs (Nat.succ.inj hbs)
      exact ⟨c, (Reads.next _ b).bind hc⟩
  cut front bs hbs := by
    cases bs with
    | nil =>
      rw [append_nil]
      exact ⟨_, bind_error (nextByte_nil front)⟩
    | cons b bs =>
      rw [bind_ok (nextByte_cons front b bs)]
      exact (h b).cut _ bs (Nat.lt_of_succ_lt_succ hbs)

/-- A decoder that reads the lead byte, and then the bytes that it asks for. -/
theorem decodes_of_takes {f : Byte → Read C} {width : Byte → Nat}
    (hf : ∀ b, ∃ n, width b = n + 1 ∧ Takes (f b) n) : Decodes (nextByte >>= f) width where
  pos b := by
    obtain ⟨n, hn, -⟩ := hf b
    omega
  complete b bs hbs := by
    obtain ⟨n, hn, h⟩ := hf b
    obtain ⟨c, hc⟩ := h.complete bs (by omega)
    exact ⟨c, (Reads.next _ b).bind hc⟩
  nil front := ⟨_, bind_error (nextByte_nil front)⟩
  cut front b bs hbs := by
    obtain ⟨n, hn, h⟩ := hf b
    rw [bind_ok (nextByte_cons front b bs)]
    exact h.cut _ bs (by omega)

theorem decodes_wide : Decodes decodeWideChar wideWidth := decodes_of_takes fun b => by
  unfold wideWidth
  split
  · exact ⟨1, rfl, .next fun _ => .pure _⟩
  · split
    · exact ⟨2, rfl, .next fun _ => .next fun _ => .pure _⟩
    · exact ⟨0, rfl, .pure _⟩

theorem decodes_narrow : Decodes decodeChar narrowWidth := decodes_of_takes fun b => by
  unfold narrowWidth
  by_cases hone : b &&& 0x80 = 0
  · rw [if_pos hone, if_neg (not_not_intro hone)]
    exact ⟨0, rfl, .pure _⟩
  · rw [if_neg hone, if_pos hone]
    by_cases htwo : b &&& 0x20 = 0
    · rw [if_pos htwo, if_neg (not_not_intro htwo)]
      exact ⟨1, rfl, .next fun _ => .pure _⟩
    · rw [if_neg htwo, if_pos htwo]
      exact ⟨2, rfl, .next fun _ => .next fun _ => .pure _⟩

/-! ### The scan and the decoders -/

/-- The wide decoder and the scan take the same number of bytes for a lead byte, so the characters
that the scan counts lie in its bytes. A character that is cut at the end is not counted. -/
theorem fits_wide (bs rest : List Byte) :
    fits wideWidth (getDecodedLength bs) (bs ++ rest) = true := by
  cases bs with
  | nil => rfl
  | cons b bs =>
    have hscan := scanDecoded_cons b bs
    have hpos := decodes_wide.pos b
    split at hscan
    · rw [getDecodedLength, hscan]
      rfl
    · have hle : wideWidth b ≤ (b :: bs).length := by rw [length_cons]; omega
      have hdrop : (b :: (bs ++ rest)).drop (wideWidth b) =
          (b :: bs).drop (wideWidth b) ++ rest := drop_append_of_le_length hle
      rw [getDecodedLength_succ hscan, cons_append, fits, hdrop, Bool.and_eq_true,
        decide_eq_true_eq]
      exact ⟨by rw [length_append]; omega, fits_wide _ rest⟩
termination_by bs.length
decreasing_by
  rw [length_drop]
  omega

/-! ### How a call ends -/

/-- From this state the read returns or throws, and the cursor stays in the buffer. -/
def Ends (p : Read β) (s : DataInput) : Prop :=
  match p s with
  | .ok _ s' => Left s.buffer 0 s'
  | .error e s' => Thrown s.buffer e s'

section
variable {p : Read β} {s s' : DataInput}

theorem ends_of_ok {v : β} (h : p s = .ok v s') : Ends p s ↔ Left s.buffer 0 s' := by
  unfold Ends
  rw [h]

theorem ends_of_error {e : ReadError} (h : p s = .error e s') :
    Ends p s ↔ Thrown s.buffer e s' := by
  unfold Ends
  rw [h]

theorem not_ends (h : p s = .error .fault s') : ¬ Ends p s := by
  rw [ends_of_error h]
  exact fun hthrown => hthrown.1 rfl

theorem Checked.ends (hp : Checked p) (hs : Left s.buffer 0 s) : Ends p s := by
  have hend := hp s.buffer s hs
  cases h : p s with
  | ok v s' =>
    rw [h] at hend
    exact (ends_of_ok h).mpr hend
  | error e s' =>
    rw [h] at hend
    exact (ends_of_error h).mpr hend

theorem ends_bind_ok {f : β → Read γ} {v : β} (hp : Ends p s) (h : p s = .ok v s') :
    Ends (p >>= f) s ↔ Ends (f v) s' := by
  have hbuf := ((ends_of_ok h).mp hp).buffer
  cases hf : f v s' with
  | ok w s'' => rw [ends_of_ok ((bind_ok h).trans hf), ends_of_ok hf, hbuf]
  | error e s'' => rw [ends_of_error ((bind_ok h).trans hf), ends_of_error hf, hbuf]

theorem ends_bind_error {f : β → Read γ} {e : ReadError} (hp : Ends p s) (h : p s = .error e s') :
    Ends (p >>= f) s :=
  (ends_of_error (bind_error h)).mpr ((ends_of_error h).mp hp)

theorem ends_map (g : β → γ) : Ends (p >>= fun v => Pure.pure (g v)) s ↔ Ends p s := by
  cases h : p s with
  | ok v s' =>
    have hboth : (p >>= fun v => Pure.pure (g v)) s = .ok (g v) s' := bind_ok h
    rw [ends_of_ok h, ends_of_ok hboth]
  | error e s' => rw [ends_of_error h, ends_of_error (bind_error h)]

end

theorem Takes.map {C C' : Type} {p : Read C} {n : Nat} (h : Takes p n) (g : C → C') :
    Takes (p >>= fun c => Pure.pure (g c)) n where
  complete bs hbs := by
    obtain ⟨c, hc⟩ := h.complete bs hbs
    exact ⟨g c, hc.map g⟩
  cut front bs hbs := by
    obtain ⟨s', hs'⟩ := h.cut front bs hbs
    exact ⟨s', bind_error hs'⟩

theorem takes_nextBytes (n : Nat) : Takes (nextBytes n) n := by
  induction n with
  | zero => exact .pure []
  | succ n ih => exact .next fun b => ih.map (b :: ·)

theorem ends_readBytesOnly (hs : Left s.buffer 0 s) (hn : s.buffer.length < 2 ^ 31)
    (len : BitVec 32) : Ends (readBytesOnly len) s ↔ len.toNat < 2 ^ 31 := by
  constructor
  · intro hends
    by_contra hbig
    -- the length is negative in the check, and too big for the copy
    have hneg : len.toInt < 0 := by
      rw [BitVec.toInt_eq_toNat_cond, if_neg (by omega)]
      omega
    have hpos : len > 0 := by
      show 0 < len.toNat
      omega
    obtain ⟨front, rest, hbuf, hstate, -⟩ := hs.split
    have hrest : rest.length < len.toNat := by
      have hlen := congrArg length hbuf
      rw [length_append] at hlen
      omega
    have hle := hs.le
    have hcheck : checkBufferSize len.toInt s = .ok () s := checkBufferSize_ok (by omega)
    obtain ⟨s', hs'⟩ := (takes_nextBytes _).cut front rest hrest
    rw [← hstate] at hs'
    have hfault : readBytesOnly len s = .error .fault s' := by
      rw [readBytesOnly, if_pos hpos, bind_ok hcheck, hs']
    exact not_ends hfault hends
  · intro hlen
    exact (checked_readBytesOnly hlen).ends hs

theorem ends_checked_bind {p : Read γ} {f : γ → Read β} {R : Prop} (hp : Checked p)
    (hs : Left s.buffer 0 s) (herror : ∀ e s', p s = .error e s' → R)
    (hok : ∀ v s', p s = .ok v s' → s'.buffer = s.buffer → Left s'.buffer 0 s' →
      (Ends (f v) s' ↔ R)) : Ends (p >>= f) s ↔ R := by
  have hfirst : Ends p s := hp.ends hs
  cases h : p s with
  | error e s' => exact iff_of_true (ends_bind_error hfirst h) (herror e s' h)
  | ok v s' =>
    have hs' := (ends_of_ok h).mp hfirst
    have hsame := hs'.buffer
    rw [← hsame] at hs'
    rw [ends_bind_ok hfirst h]
    exact hok v s' h hsame hs'

theorem ends_readASCIIHuge (hs : Left s.buffer 0 s) (hn : s.buffer.length < 2 ^ 31) :
    Ends DataInput.readASCIIHuge s ↔ match DataInput.readInt32 s with
      | .ok length _ => length.toNat < 2 ^ 31
      | .error _ _ => True := by
  refine ends_checked_bind (checked_readBigEndian 4 32) hs (fun e s' h => ?_)
    fun length s' h hsame hs' => ?_
  · rw [h]
    trivial
  rw [h]
  rw [← hsame] at hn
  exact ends_readBytesOnly hs' hn length

/-- The bytes behind the cursor. -/
def ahead (s : DataInput) : List Byte := s.buffer.drop s.pos.toNat

theorem ends_readUTFWith {decode : Read C} {width : Byte → Nat} (hdecode : Decodes decode width)
    (hs : Left s.buffer 0 s) :
    Ends (readUTFWith decode) s ↔ match DataInput.readInt16 s with
      | .ok length s' => (length.toNat : Int) ≤ getBytesRemaining s' →
        fits width (getDecodedLength ((ahead s').take length.toNat)) (ahead s') = true
      | .error _ _ => True := by
  refine ends_checked_bind (checked_readBigEndian 2 16) hs (fun e s' h => ?_)
    fun length s' h _ hs' => ?_
  · rw [h]
    trivial
  rw [h]
  dsimp only
  by_cases hlen : (length.toNat : Int) ≤ getBytesRemaining s'
  · obtain ⟨front, rest, hbuf, hstate, -⟩ := hs'.split
    have hahead : ahead s' = rest := by
      rw [hstate]
      show (front ++ rest).drop (front.length : Int).toNat = rest
      rw [Int.toNat_natCast, drop_left]
    have hcheck : checkBufferSize length.toNat s' = .ok () s' := checkBufferSize_ok hlen
    have hget : (get : Read DataInput) s' = .ok s' s' := rfl
    have hrun : ∀ {r}, times (getDecodedLength ((ahead s').take length.toNat)) decode s' = r →
        (do
          checkBufferSize length.toNat
          let s ← get
          let decodedLen := getDecodedLength ((s.buffer.drop s.pos.toNat).take length.toNat)
          times decodedLen decode : Read (List C)) s' = r := by
      intro r hr
      rw [bind_ok hcheck, bind_ok hget]
      exact hr
    rw [forall_prop_of_true hlen, hahead]
    rw [hahead, hstate] at hrun
    rw [hstate]
    rcases hdecode.times (getDecodedLength (rest.take length.toNat)) front rest with
      ⟨hfits, cs, n, hn, htimes⟩ | ⟨hfits, s'', htimes⟩
    · refine iff_of_true ?_ hfits
      rw [ends_of_ok (hrun htimes)]
      refine ⟨rfl, Int.natCast_nonneg _, ?_⟩
      rw [length_append]
      push_cast
      omega
    · exact iff_of_false (not_ends (hrun htimes)) (Bool.eq_false_iff.mp hfits)
  · -- the check throws
    have hcheck : checkBufferSize length.toNat s' =
        .error (.outOfRange _ _) s' := checkBufferSize_error (by
      rw [getBytesRemaining] at hlen
      omega)
    refine iff_of_true ?_ fun h => absurd h hlen
    rw [ends_of_error (bind_error hcheck)]
    exact ⟨by simp, hs'⟩

theorem ends_readWideUTF (hs : Left s.buffer 0 s) : Ends readWideUTF s := by
  rw [readWideUTF, ends_readUTFWith decodes_wide hs]
  cases DataInput.readInt16 s with
  | error e s' => trivial
  | ok length s' =>
    intro _
    have hfits := fits_wide ((ahead s').take length.toNat) ((ahead s').drop length.toNat)
    rwa [take_append_drop] at hfits

theorem Checked.times {p : Read β} (hp : Checked p) (n : Nat) : Checked (Lib.times n p) :=
  fun buf => (hp buf).times n

/-- A round without room for the character ends well only when its bytes are missing. -/
theorem ends_hugeRound (hs : Left s.buffer 0 s) :
    Ends (hugeRound item false) s ↔ getBytesRemaining s < 2 := by
  obtain ⟨front, rest, hbuf, hstate, -⟩ := hs.split
  have hread : Ends DataInput.read s := checked_read.ends hs
  have hremaining : getBytesRemaining s = rest.length := by
    rw [hstate, getBytesRemaining, length_append]
    push_cast
    omega
  have hone : ∀ (front rest : List Byte) (b : Byte),
      DataInput.read ⟨front ++ b :: rest, front.length⟩ =
        .ok b ⟨front ++ [b] ++ rest, ((front ++ [b]).length : Nat)⟩ :=
    fun front rest b => (reads_read b).behind front rest
  have hnone : ∀ front : List Byte, ∃ e s', DataInput.read ⟨front ++ [], front.length⟩ =
      .error e s' := by
    intro front
    exact ⟨_, _, bind_error (checkBufferSize_error (by simp))⟩
  rw [hremaining]
  cases rest with
  | nil =>
    obtain ⟨e, s', herr⟩ := hnone front
    rw [← hstate] at herr
    exact iff_of_true (ends_bind_error hread herr) (by simp)
  | cons b rest =>
    have hfirst := hone front rest b
    rw [← hstate] at hfirst
    rw [hugeRound, ends_bind_ok hread hfirst]
    have hs' := (ends_of_ok hfirst).mp hread
    rw [← hs'.buffer] at hs'
    have hread' := checked_read.ends hs'
    cases rest with
    | nil =>
      obtain ⟨e, s', herr⟩ := hnone (front ++ [b])
      exact iff_of_true (ends_bind_error hread' herr) (by simp)
    | cons c rest =>
      rw [ends_bind_ok hread' (hone (front ++ [b]) rest c)]
      refine iff_of_false (not_ends rfl) ?_
      simp only [length_cons]
      omega

theorem hugeRound_ne_ok (s s' : DataInput) (c : C) : hugeRound item false s ≠ .ok c s' := by
  intro h
  obtain ⟨_, _, -, h⟩ := bind_eq_ok h
  obtain ⟨_, _, -, h⟩ := bind_eq_ok h
  cases h

theorem ends_readUTFHugeWith (hs : Left s.buffer 0 s) :
    Ends (readUTFHugeWith item) s ↔ match DataInput.readInt32 s with
      | .ok length s' => length + 1 = 0 → getBytesRemaining s' < 2
      | .error _ _ => True := by
  refine ends_checked_bind (checked_readBigEndian 4 32) hs (fun e s' h => ?_)
    fun length s' h _ hs' => ?_
  · rw [h]
    trivial
  rw [h]
  dsimp only
  by_cases hwrap : length + 1 = 0
  · -- the array has no element, and there is a round
    have hlength : length.toNat = 2 ^ 32 - 2 + 1 := by
      have hval := congrArg BitVec.toNat hwrap
      simp at hval
      omega
    rw [forall_prop_of_true hwrap, hlength, decide_eq_false (not_not_intro hwrap)]
    rw [← ends_hugeRound item hs', times]
    cases hround : hugeRound item false s' with
    | error e s'' => rw [ends_of_error (bind_error hround), ends_of_error hround]
    | ok c s'' => exact absurd hround (hugeRound_ne_ok item s' s'' c)
  · rw [decide_eq_true hwrap]
    refine iff_of_true ?_ fun h => absurd h hwrap
    exact ((checked_hugeRound item).times _).ends hs'

/-! ### Runs of calls -/

/-- The two positions that a `DataInput` reports lie in the buffer and add up to its length. -/
structure InRange (buf : List Byte) (s : DataInput) : Prop where
  buffer : s.buffer = buf
  readNonneg : 0 ≤ getBytesRead s
  readLe : getBytesRead s ≤ buf.length
  remainingNonneg : 0 ≤ getBytesRemaining s
  remainingLe : getBytesRemaining s ≤ buf.length
  sum : getBytesRead s + getBytesRemaining s = buf.length

/-- The call returns a value that it got from the buffer, or throws, and the positions stay in
range. -/
def Kept (s : DataInput) (call : ReadCall) : Prop :=
  match call.exec s with
  | .ok _ s' => InRange s.buffer s'
  | .error e s' => e ≠ .fault ∧ InRange s.buffer s'

/-- The condition on the arguments and on the bytes at the cursor. -/
def Safe (s : DataInput) : ReadCall → Prop
  | .readBytesOnly len => len.toNat < 2 ^ 31
  | .readASCIIHuge => match readInt32 s with
    | .ok length _ => length.toNat < 2 ^ 31
    | .error _ _ => True
  | .readUTFHuge _ => match readInt32 s with
    | .ok length s' => length + 1 = 0 → getBytesRemaining s' < 2
    | .error _ _ => True
  | .readUTF false => match readInt16 s with
    | .ok length s' => (length.toNat : Int) ≤ getBytesRemaining s' →
      fits narrowWidth (getDecodedLength ((ahead s').take length.toNat)) (ahead s') = true
    | .error _ _ => True
  | _ => True

theorem inRange_iff (buf : List Byte) (s : DataInput) : InRange buf s ↔ Left buf 0 s := by
  constructor
  · intro h
    have hread := h.readNonneg
    have hle := h.readLe
    rw [getBytesRead] at hread hle
    exact ⟨h.buffer, hread, by simpa using hle⟩
  · intro h
    have hnonneg := h.nonneg
    have hle := h.le
    refine ⟨h.buffer, hnonneg, ?_, ?_, ?_, ?_⟩
    all_goals
      simp only [getBytesRead, getBytesRemaining, h.buffer]
      omega

theorem kept_iff_ends (s : DataInput) (call : ReadCall) : Kept s call ↔ Ends call.exec s := by
  unfold Kept
  cases h : call.exec s with
  | ok v s' =>
    rw [ends_of_ok h]
    exact inRange_iff s.buffer s'
  | error e s' =>
    rw [ends_of_error h]
    exact and_congr_right fun _ => inRange_iff s.buffer s'

theorem kept_iff_safe_step (hs : Left s.buffer 0 s) (hn : s.buffer.length < 2 ^ 31)
    (call : ReadCall) : Kept s call ↔ Safe s call := by
  rw [kept_iff_ends]
  -- the value of a call is wrapped, which does not matter here
  have hchecked {α : Type} {p : Read α} {g : α → ReadValue} (hp : Checked p) :
      Ends (p >>= fun v => Pure.pure (g v)) s ↔ True :=
    iff_true_intro ((ends_map g).mpr (hp.ends hs))
  cases call with
  | read => exact hchecked checked_read
  | readBoolean => exact hchecked checked_readBoolean
  | readInt16 signed | readInt32 signed | readInt64 signed =>
    cases signed with
    | true => exact hchecked (checked_readSigned _ _)
    | false => exact hchecked (checked_readBigEndian _ _)
  | readArrayLen => exact hchecked checked_readArrayLen
  | readBytes => exact hchecked checked_readBytes
  | readASCII => exact hchecked checked_readASCII
  | readASCIIHuge => exact (ends_map _).trans (ends_readASCIIHuge hs hn)
  | readUTF wide =>
    cases wide with
    | true => exact iff_of_true ((ends_map _).mpr (ends_readWideUTF hs)) trivial
    | false => exact (ends_map _).trans (ends_readUTFWith decodes_narrow hs)
  | readUTFHuge wide => cases wide <;> exact (ends_map _).trans (ends_readUTFHugeWith _ hs)
  | readBytesOnly len => exact (ends_map _).trans (ends_readBytesOnly hs hn len)
  | readUnsignedVL => exact hchecked (checked_readUnsignedVLLoop 10 0 0)

/-- On a buffer of less than 2^31 bytes, each call of a run returns or throws with the positions in
range if and only if each call meets the condition. -/
theorem kept_iff_safe (buffer : List Byte) (hn : buffer.length < 2 ^ 31) (calls : List ReadCall) :
    Along ReadCall.step Kept ⟨buffer, 0⟩ calls ↔ Along ReadCall.step Safe ⟨buffer, 0⟩ calls := by
  have hiff : ∀ s call, Left buffer 0 s → (Kept s call ↔ Safe s call) := by
    intro s call hs
    have hbuf := hs.buffer
    rw [← hbuf] at hs hn
    exact kept_iff_safe_step hs hn call
  have hstep : ∀ s call, Left buffer 0 s → Kept s call → Left buffer 0 (ReadCall.step s call) := by
    intro s call hs hkept
    rw [kept_iff_ends] at hkept
    rw [← hs.buffer]
    unfold ReadCall.step
    cases hend : call.exec s with
    | ok v s' => exact (ends_of_ok hend).mp hkept
    | error e s' => exact ((ends_of_error hend).mp hkept).2
  exact along_congr hiff hstep ⟨rfl, Int.le_refl _, by simp⟩

theorem kept_readUTF_read :
    Along ReadCall.step Kept ⟨[0, 1, 65, 7], 0⟩ [.readUTF false, .read, .readASCIIHuge] := by
  refine (kept_iff_safe [0, 1, 65, 7] (by decide) _).mpr ⟨?_, ?_, ?_, trivial⟩
  · show (1 : Int) ≤ 2 → fits narrowWidth _ _ = true
    intro _
    decide
  · trivial
  · trivial

/-- The four ways out of the buffer: a lead byte 0x80 at the end of a string, two lengths of 2^31,
and a length of 2^32 - 1. -/
theorem reads_leave_buffer :
    (ReadCall.readUTF false).exec ⟨[0, 1, 0x80], 0⟩ = .error .fault ⟨[0, 1, 0x80], 3⟩ ∧
      ReadCall.readASCIIHuge.exec ⟨[0x80, 0, 0, 0], 0⟩ = .error .fault ⟨[0x80, 0, 0, 0], 4⟩ ∧
      (ReadCall.readBytesOnly 0x80000000).exec ⟨[], 0⟩ = .error .fault ⟨[], 0⟩ ∧
      (ReadCall.readUTFHuge false).exec ⟨[0xFF, 0xFF, 0xFF, 0xFF, 0, 65], 0⟩ =
        .error .fault ⟨[0xFF, 0xFF, 0xFF, 0xFF, 0, 65], 6⟩ :=
  ⟨by rfl, by rfl, by rfl, by rfl⟩

end GeodeNative.Serialization

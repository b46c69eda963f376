import GeodeNative.Pdx.PdxLocalReader
import GeodeNative.Pdx.PdxLocalWriter
import GeodeNative.Proofs.Serialization.Written

/-!
# The stream that the writer produces

A written object is a list of fields with their contents. `stream` says what its PDX stream is:
the contents one after the other, and then the table of the positions of the variable length
fields but the first, from the last one to the second one, in entries of `offsetWidth` bytes.

`getPdxStream_eq` states that `PdxLocalWriter` produces this stream. The width is chosen twice:
by the writer from the lengths, and by the reader from the length of the whole. `lenWithOffsets_eq`
is why both choose the same.
-/

set_option autoImplicit false

namespace GeodeNative.Pdx

open Lib Serialization List

/-- An object as it is written: its fields with their contents. -/
abbrev Contents := List (PdxFieldType × List Byte)

/-- The bytes of the fields. -/
def dataOf (l : Contents) : List Byte := (l.map Prod.snd).flatten

/-- The positions of the variable length fields, when the first field starts at `p`. -/
def varStarts (p : Nat) : Contents → List Nat
  | [] => []
  | (f, c) :: l =>
    if f.isVariableLengthType then p :: varStarts (p + c.length) l
    else varStarts (p + c.length) l

/-- The number of variable length fields. -/
def varCount (fields : List PdxFieldType) : Nat :=
  (fields.filter PdxFieldType.isVariableLengthType).length

/-- The width of the table entries in a stream of length `n`. -/
def offsetWidth (n : Nat) : Nat := if n ≤ 0xff then 1 else if n ≤ 0xffff then 2 else 4

/-- The length of a stream with `dataLen` bytes of data and `k` table entries. -/
def lenWithOffsets (dataLen k : Nat) : Nat :=
  if dataLen + k ≤ 0xff then dataLen + k
  else if dataLen + k + k ≤ 0xffff then dataLen + k + k
  else dataLen + k + k * 3

/-- A table entry of the given width. -/
def tableEntry (width offset : Nat) : List Byte := bigEndian width (BitVec.ofNat (8 * width) offset)

/-- The positions in the table. -/
def tableOffsets (l : Contents) : List Nat := ((varStarts 0 l).drop 1).reverse

/-- The length of the stream. -/
def streamLength (l : Contents) : Nat := lenWithOffsets (dataOf l).length (tableOffsets l).length

/-- The stream of an object. -/
def stream (l : Contents) : List Byte :=
  dataOf l ++ (tableOffsets l).flatMap (tableEntry (offsetWidth (streamLength l)))

/-! ### Lengths -/

/-- The length that the writer computes has the width that a reader derives from it. -/
theorem lenWithOffsets_eq (dataLen k : Nat) :
    lenWithOffsets dataLen k = dataLen + k * offsetWidth (lenWithOffsets dataLen k) := by
  unfold lenWithOffsets
  split
  · rename_i h
    rw [offsetWidth, if_pos h]
    omega
  · split
    · rename_i h₁ h₂
      rw [offsetWidth, if_neg (by omega), if_pos h₂]
      omega
    · rename_i h₁ h₂
      rw [offsetWidth, if_neg (by omega), if_neg (by omega)]
      omega

@[simp] theorem length_tableEntry (width offset : Nat) :
    (tableEntry width offset).length = width :=
  length_bigEndian _ _

theorem length_stream (l : Contents) : (stream l).length = streamLength l := by
  have hconst : ∀ (offsets : List Nat) (width : Nat),
      (offsets.flatMap (tableEntry width)).length = offsets.length * width := by
    simp [length_flatMap]
  rw [stream, length_append, hconst]
  exact (lenWithOffsets_eq _ _).symm

theorem length_dataOf_cons (a : PdxFieldType × List Byte) (l : Contents) :
    (dataOf (a :: l)).length = a.2.length + (dataOf l).length := by
  simp [dataOf]

theorem length_varStarts (p : Nat) (l : Contents) :
    (varStarts p l).length = varCount (l.map Prod.fst) := by
  induction l generalizing p with
  | nil => rfl
  | cons a l ih =>
    obtain ⟨f, c⟩ := a
    rw [varStarts, map_cons, varCount, filter_cons]
    split
    · rw [length_cons, ih]
      rfl
    · rw [ih]
      rfl

theorem length_tableOffsets (l : Contents) :
    (tableOffsets l).length = varCount (l.map Prod.fst) - 1 := by
  rw [tableOffsets, length_reverse, length_drop, length_varStarts]

theorem varStarts_le (p : Nat) (l : Contents) :
    ∀ q ∈ varStarts p l, q ≤ p + (dataOf l).length := by
  induction l generalizing p with
  | nil => intro q hq; exact absurd hq not_mem_nil
  | cons a l ih =>
    obtain ⟨f, c⟩ := a
    have hdata : _ = c.length + _ := length_dataOf_cons (f, c) l
    intro q hq
    have hrest : q ∈ varStarts (p + c.length) l → q ≤ p + (dataOf ((f, c) :: l)).length := by
      intro h
      have := ih (p + c.length) q h
      omega
    rw [varStarts] at hq
    split at hq
    · rcases mem_cons.mp hq with rfl | h
      · omega
      · exact hrest h
    · exact hrest hq

/-! ### Reading integers -/

theorem bytesAt_append (a m b : List Byte) :
    PdxHelper.bytesAt (a ++ m ++ b) a.length m.length = some m := by
  have hle : a.length + m.length ≤ (a ++ m ++ b).length := by
    simp only [length_append]
    omega
  rw [PdxHelper.bytesAt, if_pos ⟨Int.natCast_nonneg _, hle⟩]
  simp [slice]

/-- A length below `2 ^ 31` in the header is read back. -/
theorem readInt32_append (a b : List Byte) {n : Nat} (hn : n < 2 ^ 31) :
    PdxHelper.readInt32 (a ++ bigEndian 4 (BitVec.ofInt 32 n) ++ b) a.length = some (n : Int) := by
  have hbytes := bytesAt_append a (bigEndian 4 (BitVec.ofInt 32 n)) b
  rw [length_bigEndian] at hbytes
  rw [PdxHelper.readInt32, hbytes, Option.map_some]
  have hword : ofBigEndian 32 (bigEndian 4 (BitVec.ofInt 32 n)) = BitVec.ofInt 32 n :=
    ofBigEndian_bigEndian 4 _
  rw [hword, BitVec.toInt_ofInt, Int.bmod_eq_of_le (by omega) (by omega)]

/-! ### The writer -/

theorem dataOf_append (l m : Contents) : dataOf (l ++ m) = dataOf l ++ dataOf m := by
  rw [dataOf, map_append, flatten_append]
  rfl

theorem varStarts_append (p : Nat) (l m : Contents) :
    varStarts p (l ++ m) = varStarts p l ++ varStarts (p + (dataOf l).length) m := by
  induction l generalizing p with
  | nil => rfl
  | cons a l ih =>
    obtain ⟨f, c⟩ := a
    rw [cons_append, varStarts, varStarts, ih, length_dataOf_cons, Nat.add_assoc]
    split <;> rfl

namespace PdxLocalWriter

/-- From `w` to `w'` one field was written: its bytes are appended, and where it starts is noted
when it has a variable length. -/
structure Emitted (w w' : PdxLocalWriter) (isVariable : Bool) (bs : List Byte) : Prop where
  bytes : w'.dataOutput.bytes = w.dataOutput.bytes ++ bs
  offsets : w'.offsets = if isVariable then w.offsets ++ [w.dataLen] else w.offsets
  start : w'.startPositionOffset = w.startPositionOffset
  type : w'.pdxType = w.pdxType

/-- The writer of an object of type `t` stands behind the fields `l`. It began in the output
`out`. -/
structure Wrote (w : PdxLocalWriter) (out : DataOutput) (t : PdxType) (l : Contents) : Prop where
  bytes : w.dataOutput.bytes = out.bytes ++ replicate 8 0 ++ dataOf l
  offsets : w.offsets = (varStarts 0 l).map Nat.cast
  start : w.startPositionOffset = out.bytes.length
  type : w.pdxType = t

theorem wrote_new (out : DataOutput) (t : PdxType) : Wrote (new out t) out t [] where
  bytes := by
    rw [show dataOf [] = [] from rfl, append_nil]
    exact DataOutput.bytes_advanceCursor out 8
  offsets := rfl
  start := rfl
  type := rfl

section
variable {w w' : PdxLocalWriter} {out : DataOutput} {t : PdxType} {l : Contents}

theorem Wrote.dataLen (h : Wrote w out t l) : w.dataLen = (dataOf l).length := by
  rw [PdxLocalWriter.dataLen, h.bytes, h.start]
  simp only [length_append, length_replicate]
  show ((out.bytes.length + 8 + (dataOf l).length : Nat) : Int) - out.bytes.length - 8 = _
  omega

theorem Wrote.emitted (h : Wrote w out t l) {f : PdxFieldType} {bs : List Byte}
    (hf : Emitted w w' f.isVariableLengthType bs) : Wrote w' out t (l ++ [(f, bs)]) where
  bytes := by
    rw [hf.bytes, h.bytes, dataOf_append, append_assoc _ (dataOf l)]
    simp [dataOf]
  offsets := by
    rw [hf.offsets, h.offsets, h.dataLen, varStarts_append, Nat.zero_add]
    cases hkind : f.isVariableLengthType <;> simp [varStarts, hkind]
  start := hf.start.trans h.start
  type := hf.type.trans h.type

theorem emitted_writeFieldBytes (w : PdxLocalWriter) (f : PdxFieldType) (bs : List Byte) :
    Emitted w (w.writeFieldBytes f bs) f.isVariableLengthType bs := by
  have hfold : (bs.foldl DataOutput.write w.dataOutput).bytes =
      w.dataOutput.bytes ++ bs.flatMap fun b => [b] :=
    DataOutput.bytes_foldl _ DataOutput.bytes_write bs
  rw [flatMap_singleton'] at hfold
  unfold writeFieldBytes
  cases f.isVariableLengthType with
  | true => exact ⟨hfold, rfl, rfl, rfl⟩
  | false => exact ⟨hfold, rfl, rfl, rfl⟩

theorem Wrote.writeFields (h : Wrote w out t l) (m : Contents) :
    Wrote (w.writeFields m) out t (l ++ m) := by
  induction m generalizing w l with
  | nil =>
    rw [append_nil]
    exact h
  | cons a m ih =>
    have hnext := ih (h.emitted (emitted_writeFieldBytes w a.1 a.2))
    rw [append_assoc] at hnext
    exact hnext

end

theorem wrote_writeFields (out : DataOutput) (t : PdxType) (l : Contents) :
    Wrote ((new out t).writeFields l) out t l :=
  (wrote_new out t).writeFields l

theorem calculateLenWithOffsets_eq (w : PdxLocalWriter) (d k : Nat) (hd : w.dataLen = d)
    (hk : w.pdxType.numberOfVarLenFields = k) :
    w.calculateLenWithOffsets = lenWithOffsets d (k - 1) := by
  have htotal : (if w.pdxType.numberOfVarLenFields > 0 then w.pdxType.numberOfVarLenFields - 1
      else 0) = ((k - 1 : Nat) : Int) := by
    split <;> omega
  unfold calculateLenWithOffsets lenWithOffsets
  rw [hd, htotal]
  dsimp only
  split
  · rename_i h
    rw [if_pos (by omega)]
    omega
  · rename_i h
    rw [if_neg (show ¬ d + (k - 1) ≤ 0xff by omega)]
    split
    · rename_i h'
      rw [if_pos (by omega)]
      omega
    · rename_i h'
      rw [if_neg (by omega)]
      omega

theorem writeOffsets_eq (w : PdxLocalWriter) (n : Nat) (offsets : List Nat)
    (h : (w.offsets.drop 1).reverse = offsets.map Nat.cast) :
    (w.writeOffsets n).dataOutput.bytes =
        w.dataOutput.bytes ++ offsets.flatMap (tableEntry (offsetWidth n)) ∧
      (w.writeOffsets n).startPositionOffset = w.startPositionOffset := by
  unfold writeOffsets
  rw [h]
  -- an offset is a natural number, so `static_cast` keeps its low bytes
  by_cases h₁ : n ≤ 0xff
  · have hwidth : offsetWidth n = 1 := if_pos h₁
    rw [if_pos (show (n : Int) ≤ 0xff by omega), hwidth]
    refine ⟨?_, rfl⟩
    rw [emit, foldl_map]
    refine DataOutput.bytes_foldl _ (fun o a => ?_) offsets
    rw [DataOutput.bytes_write]
    rfl
  · rw [if_neg (show ¬ (n : Int) ≤ 0xff by omega)]
    by_cases h₂ : n ≤ 0xffff
    · have hwidth : offsetWidth n = 2 := by rw [offsetWidth, if_neg h₁, if_pos h₂]
      rw [if_pos (show (n : Int) ≤ 0xffff by omega), hwidth]
      refine ⟨?_, rfl⟩
      rw [emit, foldl_map]
      refine DataOutput.bytes_foldl _ (fun o a => ?_) offsets
      rw [DataOutput.writeInt16, DataOutput.bytes_writeBigEndian]
      rfl
    · have hwidth : offsetWidth n = 4 := by rw [offsetWidth, if_neg h₁, if_neg h₂]
      rw [if_neg (show ¬ (n : Int) ≤ 0xffff by omega), hwidth]
      refine ⟨?_, rfl⟩
      rw [emit, foldl_map]
      refine DataOutput.bytes_foldl _ (fun o a => ?_) offsets
      rw [DataOutput.writeInt32, DataOutput.bytes_writeBigEndian]
      rfl

theorem bytes_overwrite {o : DataOutput} {a m b bs : List Byte} (h : o.bytes = a ++ m ++ b)
    (hlen : bs.length = m.length) : (o.overwrite a.length bs).bytes = a ++ bs ++ b := by
  show o.bytes.take a.length ++ bs ++ o.bytes.drop (a.length + bs.length) = _
  rw [h, hlen]
  simp

/-- The first part of `writePdxHeader`: the two integers of the header. -/
def fillHeader (w : PdxLocalWriter) (len typeId : Int) : PdxLocalWriter :=
  w.emit fun o =>
    (o.overwrite w.startPositionOffset (bigEndian 4 (BitVec.ofInt 32 len))).overwrite
      (w.startPositionOffset + 4) (bigEndian 4 (BitVec.ofInt 32 typeId))

theorem fillHeader_bytes {w : PdxLocalWriter} {front data : List Byte}
    (hbytes : w.dataOutput.bytes = front ++ replicate 8 0 ++ data)
    (hstart : w.startPositionOffset = front.length) (len typeId : Int) :
    (w.fillHeader len typeId).dataOutput.bytes =
      front ++ bigEndian 4 (BitVec.ofInt 32 len) ++ bigEndian 4 (BitVec.ofInt 32 typeId) ++
        data := by
  have hlen : (bigEndian 4 (BitVec.ofInt 32 len)).length = 4 := length_bigEndian _ _
  have hsplit : w.dataOutput.bytes =
      front ++ replicate 4 0 ++ (replicate 4 0 ++ data) := by
    rw [hbytes]
    simp [replicate]
  have hfirst : (w.dataOutput.overwrite w.startPositionOffset
      (bigEndian 4 (BitVec.ofInt 32 len))).bytes =
      (front ++ bigEndian 4 (BitVec.ofInt 32 len)) ++ replicate 4 0 ++ data := by
    rw [hstart, bytes_overwrite hsplit (by rw [hlen]; rfl)]
    simp only [append_assoc]
  have hpos : w.startPositionOffset + 4 =
      (front ++ bigEndian 4 (BitVec.ofInt 32 len)).length := by
    rw [length_append, hlen, hstart]
  show ((w.dataOutput.overwrite w.startPositionOffset _).overwrite
    (w.startPositionOffset + 4) _).bytes = _
  rw [hpos]
  exact bytes_overwrite hfirst (by rw [length_bigEndian, length_replicate])

section
variable {w : PdxLocalWriter} {out : DataOutput} {t : PdxType} {l : Contents}
  (hw : Wrote w out t l) (hk : t.numberOfVarLenFields = varCount (l.map Prod.fst))
include hw hk

/-- The length in the header is the length of the stream. -/
theorem calculateLenWithOffsets_written : w.calculateLenWithOffsets = streamLength l := by
  rw [calculateLenWithOffsets_eq _ _ _ hw.dataLen (by rw [hw.type]; exact hk), streamLength,
    length_tableOffsets]

/-- The output after a whole object: what was there, the header and the stream. -/
theorem endObjectWriting_bytes :
    w.endObjectWriting.dataOutput.bytes =
        out.bytes ++ bigEndian 4 (BitVec.ofInt 32 (streamLength l)) ++
          bigEndian 4 (BitVec.ofInt 32 t.geodeTypeId) ++ stream l ∧
      w.endObjectWriting.startPositionOffset = out.bytes.length := by
  have hcalc := calculateLenWithOffsets_written hw hk
  have htable : ((w.fillHeader (streamLength l) t.geodeTypeId).offsets.drop 1).reverse =
      (tableOffsets l).map Nat.cast := by
    show (w.offsets.drop 1).reverse = _
    rw [hw.offsets, tableOffsets, map_reverse, map_drop]
  obtain ⟨hall, hstart⟩ := writeOffsets_eq _ (streamLength l) (tableOffsets l) htable
  have hend : w.endObjectWriting =
      (w.fillHeader (streamLength l) t.geodeTypeId).writeOffsets (streamLength l) := by
    rw [endObjectWriting, writePdxHeader, hcalc, hw.type]
    rfl
  rw [hend]
  refine ⟨?_, hstart.trans hw.start⟩
  rw [hall, fillHeader_bytes hw.bytes hw.start, stream]
  simp only [append_assoc]

/-- The writer produces the stream of the object, when its length fits in the header. -/
theorem getPdxStream_eq (hlen : streamLength l < 2 ^ 31) :
    w.endObjectWriting.getPdxStream = some (stream l) := by
  obtain ⟨hbytes, hstart⟩ := endObjectWriting_bytes hw hk
  unfold getPdxStream
  rw [hbytes, hstart]
  have hread : PdxHelper.readInt32 (out.bytes ++ bigEndian 4 (BitVec.ofInt 32 (streamLength l)) ++
      bigEndian 4 (BitVec.ofInt 32 t.geodeTypeId) ++ stream l) out.bytes.length =
      some (streamLength l : Int) := by
    rw [append_assoc _ _ (stream l)]
    exact readInt32_append out.bytes _ hlen
  rw [hread, Option.bind_some]
  -- the header has 8 bytes
  have hhead : ((out.bytes.length : Int) + PdxHelper.pdxHeader) =
      (out.bytes ++ bigEndian 4 (BitVec.ofInt 32 (streamLength l)) ++
        bigEndian 4 (BitVec.ofInt 32 t.geodeTypeId)).length := by
    simp only [length_append, length_bigEndian]
    rfl
  have hstream := bytesAt_append (out.bytes ++ bigEndian 4 (BitVec.ofInt 32 (streamLength l)) ++
    bigEndian 4 (BitVec.ofInt 32 t.geodeTypeId)) (stream l) []
  rw [append_nil, length_stream, ← hhead] at hstream
  exact hstream

end

end PdxLocalWriter

end GeodeNative.Pdx

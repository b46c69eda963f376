import GeodeNative.Proofs.Pdx.Writer
import GeodeNative.Proofs.Serialization.Reading

/-!
# The positions that a type computes

`getFieldPosition` is right for the streams that the writer produces. The position map says from
where a position is computed: from the start of the stream up to the first variable length field,
and behind it from the entry of the next variable length field or from the end of the data.

The first loop of `generatePositionMap` runs from the back. `Anchored` is what holds between its
rounds: the current position is the position of the next variable length field, or the end of the
data, plus the relative offset of the field that was seen last.
-/

set_option autoImplicit false

namespace GeodeNative.Pdx

open Lib Serialization PdxType List PdxHelper
open Prod (fst snd)

/-- The variable length fields are numbered in order, from `n` on. -/
def Numbered : Nat → List PdxFieldType → Prop
  | _, [] => True
  | n, f :: fs =>
    if f.isVariableLengthType then f.varLenFieldIdx = n ∧ Numbered (n + 1) fs else Numbered n fs

/-- Fixed length fields have contents of their size, which is not 0. -/
def Fits (l : Contents) : Prop :=
  ∀ a ∈ l, a.1.isVariableLengthType = false → a.2.length = a.1.fixedSize ∧ 0 < a.1.fixedSize

/-- The entries from `n` on are the given positions. -/
def TableOk (entry : Int → Option Int) (n : Nat) (offsets : List Nat) : Prop :=
  ∀ j q : Nat, offsets[j]? = some q → entry (n + j : Nat) = some (q : Int)

theorem tableOk_cons {entry : Int → Option Int} {n q : Nat} {offsets : List Nat}
    (h : TableOk entry n (q :: offsets)) :
    entry n = some (q : Int) ∧ TableOk entry (n + 1) offsets := by
  refine ⟨h 0 q rfl, fun j q' hj => ?_⟩
  rw [show n + 1 + j = n + (j + 1) by omega]
  exact h (j + 1) q' hj

/-- The position of a field, from the entries of the table and the end of the data. -/
def positionOf (entry : Int → Option Int) (dataEnd : Int) (f : PdxFieldType) : Option Int :=
  if f.isVariableLengthType then
    if f.vlOffsetIndex = -1 then some f.relativeOffset else entry f.vlOffsetIndex
  else if 0 ≤ f.relativeOffset then some f.relativeOffset
  else if f.vlOffsetIndex = -1 then some (dataEnd + f.relativeOffset)
  else (entry f.vlOffsetIndex).map (· + f.relativeOffset)

/-- The state of the first loop before position `p`. -/
def Anchored (entry : Int → Option Int) (dataEnd : Int) (p : Nat) (st : FromBack) : Prop :=
  ∃ a : Int, p = a + st.previousRelativeOffset.getD 0 ∧ st.previousRelativeOffset.getD 0 ≤ 0 ∧
    if st.foundVarLen then st.lastVarLenSeqId ≠ -1 ∧ entry st.lastVarLenSeqId = some a
    else a = dataEnd

variable {f : PdxFieldType} {i : Nat} {t : PdxType}

theorem fromBackStep_variable (hf : f.isVariableLengthType = true) (st : FromBack) :
    fromBackStep f st = (f.setPosition f.varLenFieldIdx 0, ⟨true, f.varLenFieldIdx, some 0⟩) := by
  simp [fromBackStep, hf, PdxFieldType.setPosition]

theorem fromBackStep_fixed (hf : f.isVariableLengthType = false) (st : FromBack) :
    fromBackStep f st =
      (f.setPosition (if st.foundVarLen then st.lastVarLenSeqId else -1)
        (-f.fixedSize + st.previousRelativeOffset.getD 0),
      ⟨st.foundVarLen, st.lastVarLenSeqId,
        some (-f.fixedSize + st.previousRelativeOffset.getD 0)⟩) := by
  cases hfound : st.foundVarLen <;> simp [fromBackStep, hf, hfound, PdxFieldType.setPosition]

theorem dataEnd_cons {dataEnd : Int} {p : Nat} {a : PdxFieldType × List Byte} {l : Contents}
    (h : dataEnd = p + (dataOf (a :: l)).length) :
    dataEnd = (p + a.2.length : Nat) + (dataOf l).length := by
  rw [h, length_dataOf_cons]
  omega

/-- The first loop gives every field its position, when all its variable length fields have an
entry in the table. -/
theorem fromBack_positions (entry : Int → Option Int) (dataEnd : Int) (l : Contents) (n p : Nat)
    (hnum : Numbered n (l.map fst)) (hfits : Fits l) (htable : TableOk entry n (varStarts p l))
    (hend : dataEnd = p + (dataOf l).length) :
    Forall₂ (fun f q => positionOf entry dataEnd f = some ((q : Nat) : Int))
        (fromBack (l.map fst)).1 (starts p (l.map snd)) ∧
      Anchored entry dataEnd p (fromBack (l.map fst)).2 := by
  induction l generalizing n p with
  | nil =>
    refine ⟨Forall₂.nil, dataEnd, ?_, Int.le_refl 0, rfl⟩
    rw [hend]
    simp [dataOf, fromBack]
  | cons a l ih =>
    obtain ⟨f, c⟩ := a
    have hfits' : Fits l := fun a ha => hfits a (mem_cons_of_mem _ ha)
    replace hend := dataEnd_cons hend
    rw [map_cons, Numbered] at hnum
    rw [varStarts] at htable
    cases hvar : f.isVariableLengthType with
    | true =>
      rw [hvar] at hnum htable
      obtain ⟨hentry, htable'⟩ := tableOk_cons htable
      obtain ⟨hrest, -⟩ := ih (n + 1) (p + c.length) hnum.2 hfits' htable' hend
      have hindex : f.varLenFieldIdx ≠ -1 := by
        rw [hnum.1]
        omega
      rw [map_cons, fromBack, fromBackStep_variable hvar]
      refine ⟨Forall₂.cons ?_ hrest, p, ?_, Int.le_refl 0, hindex, ?_⟩
      · show (if f.isVariableLengthType then if f.varLenFieldIdx = -1 then some 0
          else entry f.varLenFieldIdx else _) = _
        rw [if_pos hvar, if_neg hindex, hnum.1, hentry]
      · exact (Int.add_zero _).symm
      · show entry f.varLenFieldIdx = _
        rw [hnum.1, hentry]
    | false =>
      rw [hvar] at hnum htable
      obtain ⟨hrest, a, ha, hneg, hanchor⟩ := ih n (p + c.length) hnum hfits' htable hend
      obtain ⟨hsize, hpos⟩ := hfits (f, c) mem_cons_self hvar
      dsimp only at hsize hpos
      rw [map_cons, fromBack, fromBackStep_fixed hvar]
      generalize (fromBack (l.map fst)).2 = st at *
      -- the new relative offset is negative, and leads from the anchor to `p`
      have hrel : ¬ 0 ≤ -f.fixedSize + st.previousRelativeOffset.getD 0 := by omega
      have hp : (p : Int) = a + (-f.fixedSize + st.previousRelativeOffset.getD 0) := by
        omega
      refine ⟨Forall₂.cons ?_ hrest, a, hp, ?_, hanchor⟩
      · show (if f.isVariableLengthType then _ else if 0 ≤ -f.fixedSize +
          st.previousRelativeOffset.getD 0 then _ else _) = _
        rw [if_neg (by simp [hvar]), if_neg hrel]
        cases hfound : st.foundVarLen with
        | true =>
          rw [hfound] at hanchor
          show (if st.lastVarLenSeqId = -1 then _ else (entry st.lastVarLenSeqId).map _) = _
          rw [if_neg hanchor.1, hanchor.2, hp]
          rfl
        | false =>
          rw [hfound] at hanchor
          show (if (-1 : Int) = -1 then some (dataEnd + _) else _) = _
          rw [hp, hanchor]
          rfl
      · show -f.fixedSize + st.previousRelativeOffset.getD 0 ≤ 0
        omega

/-- Both loops give every field its position. The first variable length field has no entry in the
table. -/
theorem fromFront_positions (entry : Int → Option Int) (dataEnd : Int) (l : Contents) (p : Nat)
    (hnum : Numbered 0 (l.map fst)) (hfits : Fits l)
    (htable : TableOk entry 1 ((varStarts p l).drop 1)) (hend : dataEnd = p + (dataOf l).length) :
    Forall₂ (fun f q => positionOf entry dataEnd f = some ((q : Nat) : Int))
      (fromFront p (fromBack (l.map fst)).1) (starts p (l.map snd)) := by
  induction l generalizing p with
  | nil => exact Forall₂.nil
  | cons a l ih =>
    obtain ⟨f, c⟩ := a
    have hfits' : Fits l := fun a ha => hfits a (mem_cons_of_mem _ ha)
    replace hend := dataEnd_cons hend
    rw [map_cons, Numbered] at hnum
    rw [varStarts] at htable
    cases hvar : f.isVariableLengthType with
    | true =>
      rw [hvar] at hnum htable
      have hrest := (fromBack_positions entry dataEnd l 1 (p + c.length) hnum.2 hfits' htable
        hend).1
      rw [map_cons, fromBack, fromBackStep_variable hvar]
      rw [fromFront, if_pos (by exact hvar)]
      refine Forall₂.cons ?_ hrest
      show (if f.isVariableLengthType then if (-1 : Int) = -1 then some (p : Int) else _
        else _) = _
      rw [if_pos hvar, if_pos rfl]
    | false =>
      rw [hvar] at hnum htable
      have hsize := (hfits (f, c) mem_cons_self hvar).1
      have hrest := ih (p + c.length) hnum hfits' htable hend
      rw [map_cons, fromBack, fromBackStep_fixed hvar]
      rw [fromFront, if_neg (by exact Bool.eq_false_iff.mp hvar)]
      refine Forall₂.cons ?_ ?_
      · show (if f.isVariableLengthType then _ else if 0 ≤ (p : Int) then some (p : Int)
          else _) = _
        rw [if_neg (by simp [hvar]), if_pos (Int.natCast_nonneg p)]
      · show Forall₂ _ (fromFront (p + f.fixedSize) _) _
        rw [← hsize]
        exact_mod_cast hrest

/-! ### The table in the stream -/

/-- A table entry is read back, when its position fits in the stream. -/
theorem readInt_of_tableEntry {buf : List Byte} {pos : Int} {n q : Nat} (hq : q ≤ n)
    (hn : n < 2 ^ 31) (h : bytesAt buf pos (offsetWidth n) = some (tableEntry (offsetWidth n) q)) :
    readInt buf pos (offsetWidth n) = some (q : Int) := by
  have hval : ∀ w, n < 2 ^ (8 * w) → (ofBigEndian (8 * w) (tableEntry w q)).toNat = q := by
    intro w hw
    rw [tableEntry, ofBigEndian_bigEndian, toNat_ofNat_of_lt (Nat.lt_of_le_of_lt hq hw)]
  by_cases h₁ : n ≤ 0xff
  · have hwidth : offsetWidth n = 1 := if_pos h₁
    rw [hwidth] at h ⊢
    show readByte buf pos = _
    rw [readByte, h, Option.map_some, hval 1 (by omega)]
  · by_cases h₂ : n ≤ 0xffff
    · have hwidth : offsetWidth n = 2 := by rw [offsetWidth, if_neg h₁, if_pos h₂]
      rw [hwidth] at h ⊢
      show readUInt16 buf pos = _
      rw [readUInt16, h, Option.map_some, hval 2 (by omega)]
    · have hwidth : offsetWidth n = 4 := by rw [offsetWidth, if_neg h₁, if_neg h₂]
      rw [hwidth] at h ⊢
      have hnat : (ofBigEndian 32 (tableEntry 4 q)).toNat = q := hval 4 (by omega)
      show readInt32 buf pos = _
      rw [readInt32, h, Option.map_some, BitVec.toInt_eq_toNat_of_lt (by omega), hnat]

theorem bytesAt_table {cs : List (List Byte)} {n : Nat} (hn : ∀ c ∈ cs, c.length = n)
    (hi : i < cs.length) (a b : List Byte) :
    bytesAt (a ++ cs.flatten ++ b) (a.length + i * n : Nat) n = some cs[i] := by
  have hflat : cs.flatten = (cs.take i).flatten ++ (cs[i] ++ (cs.drop (i + 1)).flatten) := by
    conv => lhs; rw [← take_append_drop i cs, drop_eq_getElem_cons hi]
    rw [flatten_append, flatten_cons]
  have hsplit : a ++ cs.flatten ++ b =
      (a ++ (cs.take i).flatten) ++ cs[i] ++ ((cs.drop (i + 1)).flatten ++ b) := by
    rw [hflat]
    simp only [append_assoc]
  have hpos : a.length + i * n = (a ++ (cs.take i).flatten).length := by
    rw [length_append, ← start_of_const hn (Nat.le_of_lt hi)]
    rfl
  have hlen : cs[i].length = n := hn _ (getElem_mem hi)
  have h := bytesAt_append (a ++ (cs.take i).flatten) cs[i] ((cs.drop (i + 1)).flatten ++ b)
  rwa [hlen, ← hpos, ← hsplit] at h

variable (l : Contents)

/-- In the stream of an object the table has the positions of its variable length fields. -/
theorem tableOk_stream (hlen : streamLength l < 2 ^ 31) (front back : List Byte) :
    TableOk (fun k => readInt (front ++ stream l ++ back)
      ((front.length + (dataOf l).length : Nat) +
        ((varCount (l.map fst) : Int) - k - 1) * offsetWidth (streamLength l))
      (offsetWidth (streamLength l))) 1 ((varStarts 0 l).drop 1) := by
  intro j q hj
  have hjlen : j < ((varStarts 0 l).drop 1).length := (List.getElem?_eq_some_iff.mp hj).1
  have hcount : ((varStarts 0 l).drop 1).length = varCount (l.map fst) - 1 := by
    rw [length_drop, length_varStarts]
  have hmem : q ∈ varStarts 0 l := mem_of_mem_drop (mem_of_getElem? hj)
  have hq : q ≤ streamLength l := by
    have hdata := varStarts_le 0 l q hmem
    have := lenWithOffsets_eq (dataOf l).length (tableOffsets l).length
    rw [streamLength, this]
    omega
  -- the table runs backwards
  generalize hi : varCount (l.map fst) - 1 - 1 - j = i
  have hidx : ((varCount (l.map fst) : Int) - (1 + j : Nat) - 1) = (i : Nat) := by omega
  have hilen : i < (tableOffsets l).length := by
    rw [tableOffsets, length_reverse]
    omega
  have hentry : (tableOffsets l)[i] = q := by
    have hrev : ((varStarts 0 l).drop 1).reverse[i]? = some q := by
      rw [getElem?_reverse (by omega), hcount, ← hj]
      congr 1
      omega
    exact (List.getElem?_eq_some_iff.mp hrev).2
  refine readInt_of_tableEntry hq hlen ?_
  rw [hidx]
  have hconst : ∀ c ∈ (tableOffsets l).map (tableEntry (offsetWidth (streamLength l))),
      c.length = offsetWidth (streamLength l) := by
    intro c hc
    obtain ⟨x, -, rfl⟩ := mem_map.mp hc
    exact length_tableEntry _ _
  have h := bytesAt_table hconst (i := i) (by rwa [length_map]) (front ++ dataOf l) back
  rw [getElem_map, hentry, length_append] at h
  rw [stream, ← append_assoc front]
  exact_mod_cast h

/-! ### Types -/

/-- A field without its place in the position map. -/
def shape (f : PdxFieldType) : PdxFieldType := f.setPosition 0 0

/-- The position map was built for these fields. -/
def Positioned (fields : List PdxFieldType) : Prop := fields = fromFront 0 (fromBack fields).1

theorem map_shape_fromBack (fields : List PdxFieldType) :
    (fromBack fields).1.map shape = fields.map shape := by
  induction fields with
  | nil => rfl
  | cons f fs ih =>
    have hstep : shape (fromBackStep f (fromBack fs).2).1 = shape f := by
      dsimp only [fromBackStep]
      split_ifs <;> rfl
    rw [fromBack, map_cons, map_cons, hstep, ih]

theorem map_shape_fromFront (p : Int) (fields : List PdxFieldType) :
    (fromFront p fields).map shape = fields.map shape := by
  induction fields generalizing p with
  | nil => rfl
  | cons f fs ih =>
    rw [fromFront]
    split
    · rfl
    · rw [map_cons, ih]
      rfl

/-- The loop from the back does not read the old positions. -/
theorem fromBack_map_shape (fields : List PdxFieldType) :
    fromBack (fields.map shape) = fromBack fields := by
  induction fields with
  | nil => rfl
  | cons f fs ih =>
    have hstep : ∀ st, fromBackStep (shape f) st = fromBackStep f st := fun _ => rfl
    rw [map_cons, fromBack, fromBack, ih, hstep]

theorem pdxFieldTypes_initializeType (t : PdxType) (localPdxType : Option PdxType) :
    (t.initializeType localPdxType).pdxFieldTypes = fromFront 0 (fromBack t.pdxFieldTypes).1 := by
  cases localPdxType <;> rfl

theorem positioned_initializeType (t : PdxType) (localPdxType : Option PdxType) :
    Positioned (t.initializeType localPdxType).pdxFieldTypes := by
  rw [Positioned, pdxFieldTypes_initializeType]
  have hshape : (fromFront 0 (fromBack t.pdxFieldTypes).1).map shape =
      t.pdxFieldTypes.map shape := by
    rw [map_shape_fromFront, map_shape_fromBack]
  rw [← fromBack_map_shape (fromFront 0 _), hshape, fromBack_map_shape]

/-- The variable length fields of a type are numbered and counted, and fixed sizes are not 0. -/
structure WellFormed (t : PdxType) : Prop where
  numbered : Numbered 0 t.pdxFieldTypes
  count : t.numberOfVarLenFields = varCount t.pdxFieldTypes
  positive : ∀ f ∈ t.pdxFieldTypes, f.isVariableLengthType = false → 0 < f.fixedSize

/-- Contents for the fields of a type. -/
structure ContentsOf (fields : List PdxFieldType) (l : Contents) : Prop where
  fields_eq : l.map fst = fields
  sizes : ∀ a ∈ l, a.1.isVariableLengthType = false → (a.2.length : Int) = a.1.fixedSize

theorem ContentsOf.mem_fields {fields : List PdxFieldType} {l : Contents}
    (hl : ContentsOf fields l) {a : PdxFieldType × List Byte} (ha : a ∈ l) : a.1 ∈ fields := by
  rw [← hl.fields_eq]
  exact mem_map_of_mem ha

/-- A reader finds the offset table of a stream: it derives the width of the entries and the length
of the data from the length of the stream. -/
theorem reader_eq (t : PdxType) (l : Contents) (hk : t.numberOfVarLenFields = varCount (l.map fst))
    (input : DataInput) :
    (PdxLocalReader.new input t (streamLength l)).offsetSize = offsetWidth (streamLength l) ∧
      (PdxLocalReader.new input t (streamLength l)).serializedLength = (dataOf l).length := by
  have hsize : PdxLocalReader.offsetSizeOf (streamLength l) = offsetWidth (streamLength l) := by
    unfold PdxLocalReader.offsetSizeOf offsetWidth
    split
    · rw [if_pos (by omega)]
      rfl
    · rw [if_neg (show ¬ streamLength l ≤ 0xff by omega)]
      split
      · rw [if_pos (by omega)]
        rfl
      · rw [if_neg (by omega)]
        rfl
  refine ⟨hsize, ?_⟩
  have hlen : streamLength l =
      (dataOf l).length + (tableOffsets l).length * offsetWidth (streamLength l) :=
    lenWithOffsets_eq _ _
  have hcount := length_tableOffsets l
  show (if t.numberOfVarLenFields > 0 then (streamLength l : Int) -
    (t.numberOfVarLenFields - 1) * PdxLocalReader.offsetSizeOf (streamLength l) else _) = _
  rw [hsize, hk]
  rw [hcount] at hlen
  split
  · rename_i hpos
    have hcast : ((varCount (l.map fst) : Int) - 1) =
        ((varCount (l.map fst) - 1 : Nat) : Int) := by omega
    rw [hcast]
    omega
  · rename_i hzero
    have hnone : varCount (l.map fst) - 1 = 0 := by omega
    rw [hnone] at hlen
    omega

theorem ContentsOf.count {l : Contents} (hl : ContentsOf t.pdxFieldTypes l) (ht : WellFormed t) :
    t.numberOfVarLenFields = varCount (l.map fst) := by
  rw [hl.fields_eq, ht.count]

section
variable {l : Contents} (hpos : Positioned t.pdxFieldTypes) (ht : WellFormed t)
  (hl : ContentsOf t.pdxFieldTypes l) (hlen : streamLength l < 2 ^ 31) (front back : List Byte)
  (hi : i < l.length)
include hpos ht hl hlen hi

/-- In the stream of an object a reader computes for every field the position where it starts. -/
theorem getFieldPosition_stream :
    (PdxLocalReader.new ⟨front ++ stream l ++ back, front.length⟩ t
      (streamLength l)).getFieldPosition (front ++ stream l ++ back) i =
        some ((start (l.map snd) i : Nat) : Int) := by
  obtain ⟨hsize, hdata⟩ := reader_eq t l (hl.count ht) ⟨front ++ stream l ++ back, front.length⟩
  have hall := fromFront_positions _ (dataOf l).length l 0 (by rw [hl.fields_eq]; exact ht.numbered)
    (fun a ha hfixed => ⟨hl.sizes a ha hfixed, ht.positive a.1 (hl.mem_fields ha) hfixed⟩)
    (tableOk_stream l hlen front back) (by omega)
  have hfields : fromFront (0 : Nat) (fromBack (l.map fst)).1 = t.pdxFieldTypes := by
    rw [hl.fields_eq]
    exact hpos.symm
  rw [hfields] at hall
  -- the field with this index, and where it starts
  have hi' : i < (l.map snd).length := by rwa [length_map]
  obtain ⟨hsame, hget⟩ := forall₂_iff_get.mp hall
  obtain ⟨hq, hstart⟩ := List.getElem?_eq_some_iff.mp (getElem?_starts 0 (l.map snd) hi')
  have hf : i < t.pdxFieldTypes.length := by omega
  have hposition := hget i hf hq
  rw [get_eq_getElem, get_eq_getElem, hstart, Nat.zero_add] at hposition
  unfold PdxLocalReader.getFieldPosition PdxLocalReader.offsetsBuffer
  rw [hsize, hdata]
  show t.getFieldPosition i _ ((front.length : Int) + (dataOf l).length) _ _ = _
  rw [getFieldPosition, getElem?_eq_getElem hf]
  show positionOf (fun k => readInt _ (_ + (t.numberOfVarLenFields - k - 1) * _) _) _ _ = _
  rw [hl.count ht, ← hposition]
  rfl

theorem nextFieldPosition_stream :
    (if i + 1 = t.pdxFieldTypes.length then
        some (PdxLocalReader.new ⟨front ++ stream l ++ back, front.length⟩ t
          (streamLength l)).serializedLength
      else (PdxLocalReader.new ⟨front ++ stream l ++ back, front.length⟩ t
        (streamLength l)).getFieldPosition (front ++ stream l ++ back) (i + 1)) =
      some ((start (l.map snd) (i + 1) : Nat) : Int) := by
  have hfields : t.pdxFieldTypes.length = l.length := by
    rw [← hl.fields_eq, length_map]
  split
  · rename_i hlast
    rw [(reader_eq t l (hl.count ht) _).2]
    have hend := start_length (l.map snd)
    rw [length_map, ← hfields, ← hlast] at hend
    rw [hend, dataOf]
  · exact getFieldPosition_stream hpos ht hl hlen front back (by omega)

end

theorem dataOf_split (hi : i < l.length) :
    dataOf l = ((l.map snd).take i).flatten ++ l[i].2 ++
      ((l.map snd).drop (i + 1)).flatten := by
  have hi' : i < (l.map snd).length := by rwa [length_map]
  have hcat := take_append_drop i (l.map snd)
  rw [drop_eq_getElem_cons hi', getElem_map] at hcat
  calc dataOf l = ((l.map snd).take i ++ l[i].2 :: (l.map snd).drop (i + 1)).flatten := by
        rw [hcat, dataOf]
    _ = _ := by simp

theorem start_diff (hi : i < l.length) :
    ((start (l.map snd) (i + 1) : Int) - start (l.map snd) i).toNat = l[i].2.length := by
  rw [start_succ (by rwa [length_map]), getElem_map]
  omega

/-- What reads the contents of a field reads them where the field starts, and stops where it
ends. -/
theorem reads_field {β : Type} {p : Read β} {v : β} (hi : i < l.length) (hp : Reads p l[i].2 v)
    (front back : List Byte) :
    p ⟨front ++ stream l ++ back, front.length + start (l.map snd) i⟩ =
      .ok v ⟨front ++ stream l ++ back, front.length + start (l.map snd) (i + 1)⟩ := by
  have hi' : i < (l.map snd).length := by rwa [length_map]
  -- the buffer, cut at the field
  let pre := front ++ ((l.map snd).take i).flatten
  let post := ((l.map snd).drop (i + 1)).flatten ++
    (tableOffsets l).flatMap (tableEntry (offsetWidth (streamLength l))) ++ back
  have hbuf : front ++ stream l ++ back = pre ++ l[i].2 ++ post := by
    rw [stream, dataOf_split l hi]
    simp [pre, post]
  have hpre : (pre.length : Int) = front.length + start (l.map snd) i := by
    simp [pre, start]
  have hend : ((pre ++ l[i].2).length : Int) =
      front.length + start (l.map snd) (i + 1) := by
    rw [length_append, start_succ hi', getElem_map]
    omega
  have hread := hp pre post
  rwa [← hbuf, hpre, hend] at hread

/-- The bytes of a field, read one by one between the two positions. -/
theorem read_field (hi : i < l.length) (front back : List Byte) :
    times ((start (l.map snd) (i + 1) : Int) - start (l.map snd) i).toNat DataInput.read
        ⟨front ++ stream l ++ back, front.length + start (l.map snd) i⟩ =
      .ok l[i].2 ⟨front ++ stream l ++ back, front.length + start (l.map snd) (i + 1)⟩ := by
  rw [start_diff l hi]
  exact reads_field l hi (DataInput.reads_times_read l[i].2) front back

/-- A stream of contents `m` for the type `t`: a reader finds each field where it starts. -/
def FoundBy (t : PdxType) (m : Contents) : Prop :=
  ∀ (front back : List Byte) (i : Nat) (hi : i < m.length),
    (PdxLocalReader.new ⟨front ++ stream m ++ back, front.length⟩ t
      (stream m).length).getFieldPosition (front ++ stream m ++ back) i =
        some ((start (m.map snd) i : Nat) : Int) ∧
    slice (stream m) (start (m.map snd) i) (start (m.map snd) (i + 1)) = m[i].2

theorem foundBy_of_length (hpos : Positioned t.pdxFieldTypes) (ht : WellFormed t) {m : Contents}
    (hm : ContentsOf t.pdxFieldTypes m) (hlen : streamLength m < 2 ^ 31) : FoundBy t m := by
  intro front back i hi
  have hi' : i < (m.map snd).length := by rwa [length_map]
  rw [length_stream]
  refine ⟨getFieldPosition_stream hpos ht hm hlen front back hi, ?_⟩
  have hpiece := slice_start hi'
    ((tableOffsets m).flatMap (tableEntry (offsetWidth (streamLength m))))
  rw [getElem_map] at hpiece
  exact hpiece

end GeodeNative.Pdx

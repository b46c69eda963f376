import GeodeNative.Lib.Run
import GeodeNative.Proofs.Pdx.Positions

/-!
# Writer and type agree on the layout

A type that is built by any calls that add fields, and then initialised, finds every field in the
streams that `PdxLocalWriter` produces for it: `getFieldPosition_written`.

The sizes of the fixed length fields must not be 0. `fixedLengthFieldPosition` takes a relative
offset that is not negative for a position from the start of the stream, and a field of size 0
behind a variable length field can have the relative offset 0 (`zeroSize_position`). The library
adds fixed length fields with sizes from 1 to 8 only.
-/

set_option autoImplicit false

namespace GeodeNative.Pdx

open Lib Serialization PdxType List

/-! ### Adding fields -/

theorem varCount_append (fs gs : List PdxFieldType) :
    varCount (fs ++ gs) = varCount fs + varCount gs := by
  rw [varCount, filter_append, length_append]
  rfl

theorem numbered_append (n : Nat) (fs gs : List PdxFieldType) :
    Numbered n (fs ++ gs) ↔ Numbered n fs ∧ Numbered (n + varCount fs) gs := by
  induction fs generalizing n with
  | nil => simp [Numbered, varCount]
  | cons f fs ih =>
    have hcount : varCount (f :: fs) = varCount [f] + varCount fs := varCount_append [f] fs
    rw [cons_append, Numbered, Numbered, ih, ih, hcount]
    cases hf : f.isVariableLengthType with
    | true =>
      have hone : varCount [f] = 1 := by simp [varCount, hf]
      rw [if_pos rfl, if_pos rfl, hone, ← Nat.add_assoc, and_assoc]
    | false =>
      have hzero : varCount [f] = 0 := by simp [varCount, hf]
      rw [if_neg Bool.false_ne_true, if_neg Bool.false_ne_true, hzero, Nat.zero_add]

/-- What holds of a type while fields are added: it is well formed, its names are in the map, and
the two counters of `addVariableLengthTypeField` agree with its fields. -/
structure Built (t : PdxType) : Prop where
  wellFormed : WellFormed t
  names : ∀ f ∈ t.pdxFieldTypes, f.fieldName ∈ t.fieldNameVsPdxType
  nodup : (t.pdxFieldTypes.map PdxFieldType.fieldName).Nodup
  added : t.isVarLenFieldAdded = decide (0 < varCount t.pdxFieldTypes)
  index : t.varLenFieldIdx = (varCount t.pdxFieldTypes - 1 : Nat)

/-- The size of a fixed length field is not 0. -/
def AddField.PositiveSize : AddField → Prop
  | fixedLength _ _ _ size => 0 < size
  | variableLength _ _ _ => True

instance (add : AddField) : Decidable add.PositiveSize :=
  match add with
  | .fixedLength _ _ _ size => inferInstanceAs (Decidable (0 < size))
  | .variableLength _ _ _ => .isTrue trivial

theorem built_pushField {t t' : PdxType} (ht : Built t) {f : PdxFieldType}
    (hfields : t'.pdxFieldTypes = t.pdxFieldTypes ++ [f])
    (hnames : t'.fieldNameVsPdxType =
      t.fieldNameVsPdxType.insert f.fieldName t.pdxFieldTypes.length)
    (hname : f.fieldName ∉ t.fieldNameVsPdxType)
    (hnumbered : Numbered (varCount t.pdxFieldTypes) [f])
    (hcount : t'.numberOfVarLenFields = varCount (t.pdxFieldTypes ++ [f]))
    (hpositive : f.isVariableLengthType = false → 0 < f.fixedSize)
    (hadded : t'.isVarLenFieldAdded = decide (0 < varCount (t.pdxFieldTypes ++ [f])))
    (hindex : t'.varLenFieldIdx = (varCount (t.pdxFieldTypes ++ [f]) - 1 : Nat)) :
    Built t' := by
  rw [← hfields] at hcount hadded hindex
  refine ⟨⟨?_, hcount, ?_⟩, ?_, ?_, hadded, hindex⟩
  · rw [hfields, numbered_append, Nat.zero_add]
    exact ⟨ht.wellFormed.numbered, hnumbered⟩
  · intro g hg
    rw [hfields, mem_append, mem_singleton] at hg
    rcases hg with hg | rfl
    · exact ht.wellFormed.positive g hg
    · exact hpositive
  · intro g hg
    rw [hfields, mem_append, mem_singleton] at hg
    rw [hnames, AList.mem_insert]
    rcases hg with hg | rfl
    · exact .inr (ht.names g hg)
    · exact .inl rfl
  · rw [hfields, map_append, nodup_append]
    refine ⟨ht.nodup, nodup_singleton _, ?_⟩
    intro a ha b hb
    obtain ⟨g, hg, rfl⟩ := mem_map.mp ha
    rw [map_singleton, mem_singleton] at hb
    rintro rfl
    exact hname (hb ▸ ht.names g hg)

/-- A call that adds a field throws, or appends a field with a new name. The index of a variable
length field is 0 for the first one, and the next index for every other. -/
theorem addField_cases (t : PdxType) (add : AddField) :
    add.step t = t ∨ ∃ name className typeId, name ∉ t.fieldNameVsPdxType ∧
      ((∃ size, add = .fixedLength (some name) className typeId size ∧ add.step t =
          t.pushField (.new name className typeId t.pdxFieldTypes.length false size 0)) ∨
        ∃ idx, idx = t.varLenFieldIdx + (if t.isVarLenFieldAdded then 1 else 0) ∧
          add = .variableLength (some name) className typeId ∧ add.step t =
          { t with
            varLenFieldIdx := idx
            numberOfVarLenFields := t.numberOfVarLenFields + 1
            isVarLenFieldAdded := true }.pushField
            (.new name className typeId t.pdxFieldTypes.length true (-1) idx)) := by
  cases add with
  | fixedLength fieldName className typeId size =>
    cases fieldName with
    | none => exact .inl rfl
    | some name =>
      by_cases hname : name ∈ t.fieldNameVsPdxType
      · left
        simp only [AddField.step, AddField.exec, addFixedLengthTypeField, if_pos hname]
      · refine .inr ⟨name, className, typeId, hname, .inl ⟨size, rfl, ?_⟩⟩
        simp only [AddField.step, AddField.exec, addFixedLengthTypeField, if_neg hname]
  | variableLength fieldName className typeId =>
    cases fieldName with
    | none => exact .inl rfl
    | some name =>
      by_cases hname : name ∈ t.fieldNameVsPdxType
      · left
        simp only [AddField.step, AddField.exec, addVariableLengthTypeField, if_pos hname]
      · refine .inr ⟨name, className, typeId, hname, .inr ⟨_, rfl, rfl, ?_⟩⟩
        simp only [AddField.step, AddField.exec, addVariableLengthTypeField, if_neg hname]
        cases t.isVarLenFieldAdded <;> simp

theorem varCount_concat (fs : List PdxFieldType) (f : PdxFieldType) :
    varCount (fs ++ [f]) = varCount fs + if f.isVariableLengthType then 1 else 0 := by
  cases hf : f.isVariableLengthType <;> simp [varCount, hf]

variable {t : PdxType}

theorem built_addField (ht : Built t) (add : AddField) (hadd : add.PositiveSize) :
    Built (add.step t) := by
  rcases addField_cases t add with hsame | ⟨name, className, typeId, hname,
    ⟨size, rfl, hstep⟩ | ⟨idx, hidx, -, hstep⟩⟩
  · rwa [hsame]
  · rw [hstep]
    refine built_pushField ht rfl rfl hname ?_ ?_ (fun _ => hadd) ?_ ?_
    · simp [Numbered, PdxFieldType.new]
    · rw [varCount_concat]
      exact ht.wellFormed.count
    · rw [varCount_concat]
      exact ht.added
    · rw [varCount_concat]
      exact ht.index
  · -- the index of the new field is the number of fields with variable length so far
    have hidx : idx = (varCount t.pdxFieldTypes : Int) := by
      rw [hidx, ht.added, ht.index]
      simp only [decide_eq_true_eq]
      split <;> omega
    rw [hstep]
    refine built_pushField ht rfl rfl hname ?_ ?_ (fun h => by cases h) ?_ ?_
    · simp [Numbered, PdxFieldType.new, hidx]
    · rw [varCount_concat]
      show t.numberOfVarLenFields + 1 = _
      rw [ht.wellFormed.count]
      rfl
    · rw [varCount_concat]
      simp [PdxFieldType.new, pushField]
    · rw [varCount_concat]
      exact hidx

theorem built_run (className : String) (isLocal : Bool) (adds : List AddField)
    (hadds : ∀ add ∈ adds, add.PositiveSize) :
    Built (run AddField.step (PdxType.new className isLocal) adds) := by
  have hnew : Built (PdxType.new className isLocal) :=
    ⟨⟨trivial, rfl, by simp [PdxType.new]⟩, by simp [PdxType.new], nodup_nil, rfl, rfl⟩
  exact run_invariant (fun _ add ht hadd => built_addField ht add hadd) hnew
    ((along_actions_iff _ adds).mpr hadds)

/-! ### `InitializeType` -/

/-- What the position map leaves of a property of the fields that does not read positions. -/
theorem map_initializeType {α : Type} (t : PdxType) (localPdxType : Option PdxType)
    (g : PdxFieldType → α) (hg : ∀ f, g (shape f) = g f) :
    (t.initializeType localPdxType).pdxFieldTypes.map g = t.pdxFieldTypes.map g := by
  have hmap : ∀ fs : List PdxFieldType, fs.map g = (fs.map shape).map g := by
    intro fs
    rw [map_map]
    exact map_congr_left fun f _ => (hg f).symm
  rw [pdxFieldTypes_initializeType, hmap, map_shape_fromFront, map_shape_fromBack, ← hmap]

theorem forall_initializeType {P : PdxFieldType → Prop} (hP : ∀ f, P (shape f) ↔ P f)
    (ht : ∀ f ∈ t.pdxFieldTypes, P f) (localPdxType : Option PdxType) :
    ∀ f ∈ (t.initializeType localPdxType).pdxFieldTypes, P f := by
  intro f hf
  have hmem := mem_map_of_mem (f := shape) hf
  rw [map_initializeType t localPdxType shape fun _ => rfl] at hmem
  obtain ⟨g, hg, hshape⟩ := mem_map.mp hmem
  rw [← hP f, ← hshape, hP g]
  exact ht g hg

/-- Numbering and counting read the kind of a field and its number only. -/
theorem numbered_congr {fs gs : List PdxFieldType}
    (h : fs.map (fun f => (f.isVariableLengthType, f.varLenFieldIdx)) =
      gs.map (fun f => (f.isVariableLengthType, f.varLenFieldIdx))) (n : Nat) :
    (Numbered n fs ↔ Numbered n gs) ∧ varCount fs = varCount gs := by
  induction fs generalizing gs n with
  | nil =>
    rw [map_nil, eq_comm, map_eq_nil_iff] at h
    rw [h]
    exact ⟨Iff.rfl, rfl⟩
  | cons f fs ih =>
    cases gs with
    | nil => cases h
    | cons g gs =>
      rw [map_cons, map_cons, cons.injEq, Prod.mk.injEq] at h
      obtain ⟨⟨hkind, hidx⟩, htail⟩ := h
      rw [Numbered, Numbered, (ih htail _).1, (ih htail n).1, hkind, hidx]
      have hcount : varCount fs = varCount gs := (ih htail n).2
      unfold varCount at hcount ⊢
      rw [filter_cons, filter_cons, hkind]
      split <;> simp [hcount]

theorem wellFormed_initializeType (ht : WellFormed t) (localPdxType : Option PdxType) :
    WellFormed (t.initializeType localPdxType) := by
  obtain ⟨hnumbered, hcount⟩ := numbered_congr (map_initializeType t localPdxType
    (fun f => (f.isVariableLengthType, f.varLenFieldIdx)) fun _ => rfl) 0
  refine ⟨hnumbered.mpr ht.numbered, ?_, forall_initializeType (fun _ => Iff.rfl) ht.positive _⟩
  rw [hcount, ← ht.count]
  cases localPdxType <;> rfl

/-! ### Positions in written streams -/

/-- The type after these calls that add fields and after `InitializeType`. -/
def addedType (className : String) (isLocal : Bool) (adds : List AddField)
    (localPdxType : Option PdxType) : PdxType :=
  (run AddField.step (PdxType.new className isLocal) adds).initializeType localPdxType

/-- What `PdxLocalWriter` produces for a type and the contents of its fields. -/
def writtenStream (out : DataOutput) (t : PdxType) (l : Contents) : Option (List Byte) :=
  ((PdxLocalWriter.new out t).writeFields l).endObjectWriting.getPdxStream

/-- For a type that any calls have built, the written stream has the contents of each field at the
position that `getFieldPosition` returns for it, wherever the stream lies in the buffer of the
reader. -/
theorem getFieldPosition_written (className : String) (isLocal : Bool) (adds : List AddField)
    (hadds : ∀ add ∈ adds, add.PositiveSize) (localPdxType : Option PdxType) (l : Contents)
    (hl : ContentsOf (addedType className isLocal adds localPdxType).pdxFieldTypes l)
    (out : DataOutput)
    (hlen : ((PdxLocalWriter.new out (addedType className isLocal adds localPdxType)).writeFields
      l).calculateLenWithOffsets < 2 ^ 31) :
    ∃ s, writtenStream out (addedType className isLocal adds localPdxType) l = some s ∧
      ∀ (front back : List Byte) (i : Nat) (hi : i < l.length),
        (PdxLocalReader.new ⟨front ++ s ++ back, front.length⟩
          (addedType className isLocal adds localPdxType) s.length).getFieldPosition
            (front ++ s ++ back) i = some ((start (l.map Prod.snd) i : Nat) : Int) ∧
        slice s (start (l.map Prod.snd) i) (start (l.map Prod.snd) (i + 1)) = l[i].2 := by
  have ht : WellFormed (addedType className isLocal adds localPdxType) :=
    wellFormed_initializeType (built_run className isLocal adds hadds).wellFormed localPdxType
  have hpos : Positioned (addedType className isLocal adds localPdxType).pdxFieldTypes :=
    positioned_initializeType _ localPdxType
  revert hl hlen ht hpos
  generalize addedType className isLocal adds localPdxType = t
  intro hl hlen ht hpos
  have hk := hl.count ht
  have hw := PdxLocalWriter.wrote_writeFields out t l
  rw [PdxLocalWriter.calculateLenWithOffsets_written hw hk] at hlen
  have hshort : streamLength l < 2 ^ 31 := by omega
  exact ⟨stream l, PdxLocalWriter.getPdxStream_eq hw hk hshort,
    foundBy_of_length hpos ht hl hshort⟩

/-- Two variable length fields with fixed length fields before, between and behind them. -/
def mixedAdds : List AddField :=
  [.fixedLength (some "id") "" 4 4, .variableLength (some "name") "" 9,
    .fixedLength (some "flag") "" 0 1, .variableLength (some "tags") "" 19,
    .fixedLength (some "rank") "" 3 2]

/-- The contents of the five fields. -/
def mixedContents : Contents :=
  (addedType "Person" false mixedAdds none).pdxFieldTypes.zip
    [[0, 0, 0, 7], [87, 0, 1, 65], [1], [1, 42], [0, 9]]

theorem getFieldPosition_mixed :
    (∀ add ∈ mixedAdds, add.PositiveSize) ∧
      ∃ s, writtenStream ⟨[], 8192, false⟩ (addedType "Person" false mixedAdds none)
          mixedContents = some s ∧
        (PdxLocalReader.new ⟨[255] ++ s ++ [], 1⟩ (addedType "Person" false mixedAdds none)
          s.length).getFieldPosition ([255] ++ s ++ []) 4 = some 11 := by
  have hadds : ∀ add ∈ mixedAdds, add.PositiveSize := by decide
  obtain ⟨s, hs, hall⟩ := getFieldPosition_written "Person" false mixedAdds hadds none
    mixedContents ⟨by decide +kernel, by decide +kernel⟩ ⟨[], 8192, false⟩ (by decide +kernel)
  exact ⟨hadds, s, hs, (hall [255] [] 4 (by decide +kernel)).1⟩

/-- A field of size 0 behind a variable length field. -/
def zeroSizeAdds : List AddField :=
  [.variableLength (some "name") "" 9, .fixedLength (some "none") "" 0 0]

/-- Its relative offset from the end is 0, which `fixedLengthFieldPosition` takes for a position
from the start: the field lies at 1, and the type says 0. -/
theorem zeroSize_position :
    ContentsOf (addedType "C" false zeroSizeAdds none).pdxFieldTypes
        ((addedType "C" false zeroSizeAdds none).pdxFieldTypes.zip [[69], []]) ∧
      writtenStream ⟨[], 8192, false⟩ (addedType "C" false zeroSizeAdds none)
        ((addedType "C" false zeroSizeAdds none).pdxFieldTypes.zip [[69], []]) = some [69] ∧
      (PdxLocalReader.new ⟨[69], 0⟩ (addedType "C" false zeroSizeAdds none) 1).getFieldPosition
        [69] 1 = some 0 ∧
      start [[(69 : Byte)], []] 1 = 1 :=
  ⟨⟨by decide +kernel, by decide +kernel⟩, by decide +kernel, by decide +kernel, by decide⟩

end GeodeNative.Pdx

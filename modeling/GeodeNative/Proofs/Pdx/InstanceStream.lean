import GeodeNative.Lib.Fallible
import GeodeNative.Proofs.Pdx.LayoutAgreement
import GeodeNative.Proofs.Pdx.TypedWrites

/-!
# The stream of a changed instance

`toData` writes the stream of an instance anew. `toData_stream` says which one: the contents of the
old stream, with the bytes of the new values in the fields that have one. The new value of a field
may have no bytes, where the source has no result; then `toData` has none either.

`Described` collects what a type must be for this: its positions are computed, the name map finds
each field, and the kind and the size of each field go with its type id. Every type that is built by
adding fields in the way of this library is so (`described_addedType`).
-/

set_option autoImplicit false

namespace GeodeNative.Pdx

open Lib Serialization PdxType List PdxFieldTypes
open Prod (fst snd)

/-! ### Types -/

/-- The kind and the size of the field go with its type id. -/
def PdxFieldType.Standard (f : PdxFieldType) : Prop :=
  ∃ ty, ofTypeId f.typeId = some ty ∧ f.isVariableLengthType = ty.width.isNone ∧
    ∀ n, ty.width = some n → f.fixedSize = n

/-- A type whose instances can be read and written by field. -/
structure Described (t : PdxType) : Prop where
  wellFormed : WellFormed t
  positioned : Positioned t.pdxFieldTypes
  named : ∀ f ∈ t.pdxFieldTypes, t.getPdxField f.fieldName = some f
  standard : ∀ f ∈ t.pdxFieldTypes, f.Standard

/-- A call that adds a field as the writers of this library do: a fixed length type with its size,
or a variable length type. -/
def AddField.Standard : AddField → Prop
  | fixedLength _ _ typeId size =>
    ((ofTypeId typeId).bind width).map Nat.cast = some size
  | variableLength _ _ typeId => (ofTypeId typeId).map width = some none

instance (add : AddField) : Decidable add.Standard :=
  match add with
  | .fixedLength _ _ typeId size => inferInstanceAs (Decidable
    (((ofTypeId typeId).bind width).map Nat.cast = some size))
  | .variableLength _ _ typeId => inferInstanceAs (Decidable
    ((ofTypeId typeId).map width = some none))

theorem PdxFieldTypes.width_pos {ty : PdxFieldTypes} {n : Nat} (h : ty.width = some n) :
    0 < n := by
  cases ty <;> simp_all [width] <;> omega

theorem AddField.Standard.positiveSize {add : AddField} (h : add.Standard) : add.PositiveSize := by
  cases add with
  | variableLength fieldName className typeId => trivial
  | fixedLength fieldName className typeId size =>
    obtain ⟨n, hn, hsize⟩ := Option.map_eq_some_iff.mp h
    obtain ⟨ty, -, hwidth⟩ := Option.bind_eq_some_iff.mp hn
    have hpos := width_pos hwidth
    show 0 < size
    rw [← hsize]
    exact Int.natCast_pos.mpr hpos

/-- What adding fields keeps: the map has the index of each field, and the fields are standard. -/
structure Labelled (t : PdxType) : Prop where
  index : ∀ i f, t.pdxFieldTypes[i]? = some f → t.fieldNameVsPdxType.lookup f.fieldName = some i
  standard : ∀ f ∈ t.pdxFieldTypes, f.Standard

theorem labelled_pushField {t t' : PdxType} (ht : Labelled t) {f : PdxFieldType}
    (hfields : t'.pdxFieldTypes = t.pdxFieldTypes ++ [f])
    (hnames : t'.fieldNameVsPdxType =
      t.fieldNameVsPdxType.insert f.fieldName t.pdxFieldTypes.length)
    (hname : f.fieldName ∉ t.fieldNameVsPdxType) (hf : f.Standard) : Labelled t' where
  index := by
    intro i g hg
    rw [hfields] at hg
    rw [hnames]
    rcases getElem?_concat_eq_some.mp hg with hold | ⟨rfl, rfl⟩
    · have hindex := ht.index i g hold
      have hne : g.fieldName ≠ f.fieldName := by
        intro heq
        rw [heq] at hindex
        exact hname (AList.lookup_isSome.mp (by rw [hindex]; rfl))
      rw [AList.lookup_insert_ne hne]
      exact hindex
    · exact AList.lookup_insert _
  standard := by
    intro g hg
    rw [hfields, mem_append, mem_singleton] at hg
    cases hg with
    | inl hold => exact ht.standard g hold
    | inr heq => exact heq ▸ hf

theorem labelled_addField {t : PdxType} (ht : Labelled t) (add : AddField) (hadd : add.Standard) :
    Labelled (add.step t) := by
  rcases addField_cases t add with hsame | ⟨name, className, typeId, hname,
    ⟨size, rfl, hstep⟩ | ⟨idx, -, rfl, hstep⟩⟩
  · rwa [hsame]
  · rw [hstep]
    obtain ⟨n, hn, hsize⟩ := Option.map_eq_some_iff.mp hadd
    obtain ⟨ty, hty, hwidth⟩ := Option.bind_eq_some_iff.mp hn
    refine labelled_pushField ht rfl rfl hname ⟨ty, hty, ?_, ?_⟩
    · show false = ty.width.isNone
      rw [hwidth]
      rfl
    · intro m hm
      rw [hwidth, Option.some.injEq] at hm
      show size = m
      rw [← hm, ← hsize]
  · rw [hstep]
    obtain ⟨ty, hty, hwidth⟩ := Option.map_eq_some_iff.mp hadd
    refine labelled_pushField ht rfl rfl hname ⟨ty, hty, ?_, ?_⟩
    · show true = ty.width.isNone
      rw [hwidth]
      rfl
    · intro m hm
      rw [hwidth] at hm
      cases hm

theorem labelled_run (className : String) (isLocal : Bool) (adds : List AddField)
    (hadds : ∀ add ∈ adds, add.Standard) :
    Labelled (run AddField.step (PdxType.new className isLocal) adds) := by
  have hnew : Labelled (PdxType.new className isLocal) :=
    ⟨fun i f hf => by simp [PdxType.new] at hf, fun f hf => by simp [PdxType.new] at hf⟩
  exact run_invariant (fun _ add ht hadd => labelled_addField ht add hadd) hnew
    ((along_actions_iff _ adds).mpr hadds)

theorem insertNames_eq_self {map : AList fun _ : String => Nat} {fields : List PdxFieldType}
    (h : ∀ f ∈ fields, f.fieldName ∈ map) : insertNames map fields = map := by
  have hall : ∀ pairs : List (PdxFieldType × Nat), (∀ p ∈ pairs, p.1.fieldName ∈ map) →
      pairs.foldr (fun p map => if p.1.fieldName ∈ map then map
        else map.insert p.1.fieldName p.2) map = map := by
    intro pairs hpairs
    induction pairs with
    | nil => rfl
    | cons p pairs ih =>
      rw [foldr_cons, ih fun q hq => hpairs q (mem_cons_of_mem p hq),
        if_pos (hpairs p mem_cons_self)]
  refine hall _ fun p hp => h p.1 ?_
  exact fst_mem_of_mem_zipIdx hp

/-- Every type that is built by adding fields in the way of this library. -/
theorem described_addedType (className : String) (isLocal : Bool) (adds : List AddField)
    (hadds : ∀ add ∈ adds, add.Standard) (localPdxType : Option PdxType) :
    Described (addedType className isLocal adds localPdxType) := by
  have hbuilt := built_run className isLocal adds fun add hadd => (hadds add hadd).positiveSize
  have hlabelled := labelled_run className isLocal adds hadds
  unfold addedType
  revert hbuilt hlabelled
  generalize run AddField.step (PdxType.new className isLocal) adds = t
  intro hbuilt hlabelled
  have hmap : (t.initializeType localPdxType).fieldNameVsPdxType = t.fieldNameVsPdxType := by
    have hinsert : (t.initializeType localPdxType).fieldNameVsPdxType =
        insertNames t.fieldNameVsPdxType t.pdxFieldTypes := by
      cases localPdxType <;> rfl
    rw [hinsert, insertNames_eq_self hbuilt.names]
  refine ⟨wellFormed_initializeType hbuilt.wellFormed localPdxType,
    positioned_initializeType t localPdxType, ?_,
    forall_initializeType (fun _ => Iff.rfl) hlabelled.standard localPdxType⟩
  · intro f hf
    obtain ⟨i, hi, hget⟩ := mem_iff_getElem.mp hf
    -- the field at the same index of the type before
    have hsame := congrArg (·[i]?)
      (map_initializeType t localPdxType PdxFieldType.fieldName fun _ => rfl)
    simp only [getElem?_map] at hsame
    rw [getElem?_eq_getElem hi, hget, Option.map_some, eq_comm, Option.map_eq_some_iff] at hsame
    obtain ⟨g, hg, hname⟩ := hsame
    rw [getPdxField, hmap, ← hname, hlabelled.index i g hg, Option.bind_some,
      getElem?_eq_getElem hi, hget]

namespace PdxInstanceImpl

/-! ### Positions in the stream of an instance -/

section
variable {t : PdxType} (ht : Described t) {l : Contents} (hl : ContentsOf t.pdxFieldTypes l)
  (hlen : streamLength l < 2 ^ 31)
include ht hl hlen

theorem getOffset_stream {i : Nat} (hi : i < l.length) :
    getOffset t (stream l) i = some ((start (l.map snd) i : Nat) : Int) := by
  have hreader := getFieldPosition_stream ht.positioned ht.wellFormed hl hlen [] [] hi
  rw [append_nil] at hreader
  have hserialized : getSerializedLength t (stream l) =
      (PdxLocalReader.new ⟨stream l, 0⟩ t (streamLength l)).serializedLength := by
    rw [getSerializedLength, length_stream]
    rfl
  rw [← hreader, getOffset, hserialized, length_stream]
  -- the stream starts at the start of the buffer
  show _ = t.getFieldPosition i (stream l) (0 + _) _ _
  rw [Int.zero_add]
  rfl

theorem getNextFieldPosition_stream {i : Nat} (hi : i < l.length) :
    getNextFieldPosition t (stream l) (i + 1) =
      some ((start (l.map snd) (i + 1) : Nat) : Int) := by
  have hreader := nextFieldPosition_stream ht.positioned ht.wellFormed hl hlen [] [] hi
  have hfields : t.pdxFieldTypes.length = l.length := by
    rw [← hl.fields_eq, length_map]
  unfold getNextFieldPosition
  split
  · rename_i hlast
    rw [if_pos hlast] at hreader
    rw [← hreader, getSerializedLength, length_stream]
    rfl
  · exact getOffset_stream ht hl hlen (by omega)

theorem fieldBytes_stream {i : Nat} (hi : i < l.length) :
    fieldBytes t (stream l) i = some l[i].2 := by
  have hbuf : stream l = ((l.map snd).take i).flatten ++ l[i].2 ++
      (((l.map snd).drop (i + 1)).flatten ++
        (tableOffsets l).flatMap (tableEntry (offsetWidth (streamLength l)))) := by
    rw [stream, dataOf_split l hi, append_assoc]
  unfold fieldBytes
  rw [getOffset_stream ht hl hlen hi, getNextFieldPosition_stream ht hl hlen hi,
    Option.bind_eq_bind, Option.bind_some, Option.bind_some, start_diff l hi, hbuf]
  exact bytesAt_append _ _ _

end

/-! ### The loop -/

section
variable {Obj : Type} (env : Environment Obj) (inst : PdxInstanceImpl Obj)

/-- The value that waits for a field, if there is one that is not null. -/
def pending (f : PdxFieldType) : Option (Cacheable Obj) :=
  (inst.updatedFields.lookup f.fieldName).join

/-- The bytes that a field has afterwards: those of the new value, or its old ones. -/
def newBytes (a : PdxFieldType × List Byte) : Option (List Byte) :=
  match inst.pending a.1 with
  | some value => PdxLocalWriter.written fun w => writeField env w a.1.typeId (some value)
  | none => some a.2

/-- The contents afterwards. There are none when a new value has no bytes. -/
def newContents (l : Contents) : Option Contents :=
  l.mapM fun a => (inst.newBytes env a).map fun bs => (a.1, bs)

/-- The new values are written as fields of their types and sizes. -/
structure Writable (l : Contents) : Prop where
  writes : ∀ a ∈ l, ∀ value, inst.pending a.1 = some value →
    PdxLocalWriter.Writes (fun w => writeField env w a.1.typeId (some value))
      a.1.isVariableLengthType (inst.newBytes env a)
  sizes : ∀ a ∈ l, ∀ value, inst.pending a.1 = some value → a.1.isVariableLengthType = false →
    ∀ bs, inst.newBytes env a = some bs → (bs.length : Int) = a.1.fixedSize

/-- How the loop ends: behind the contents, or without a result. -/
def LoopEnds (out : DataOutput) (t : PdxType) (done : Contents)
    (result : Except ReadError PdxLocalWriter) : Option Contents → Prop
  | some m => ∃ w, result = .ok w ∧ PdxLocalWriter.Wrote w out t (done ++ m)
  | none => ∃ e, result = .error e

variable {env inst} {l : Contents} (ht : Described inst.pdxType)
  (hl : ContentsOf inst.pdxType.pdxFieldTypes l) (hlen : streamLength l < 2 ^ 31)
include ht hl hlen

theorem toDataFrom_unmodified {i : Nat} (hi : i < l.length) (hpending : inst.pending l[i].1 = none)
    (rest : List PdxFieldType) (w : PdxLocalWriter) :
    inst.toDataFrom env (stream l) i (start (l.map snd) i : Nat) (l[i].1 :: rest) w =
      inst.toDataFrom env (stream l) (i + 1) (start (l.map snd) (i + 1) : Nat) rest
        (w.writeFieldBytes l[i].1 l[i].2) := by
  unfold pending at hpending
  rw [toDataFrom, hpending, getNextFieldPosition_stream ht hl hlen hi]
  show (do
    let w ← writeUnmodifieldField (if l[i].1.isVariableLengthType then w.addOffset else w)
      (stream l) (start (l.map snd) i : Nat) (start (l.map snd) (i + 1) : Nat)
    inst.toDataFrom env (stream l) (i + 1) (start (l.map snd) (i + 1) : Nat) rest w) = _
  have hread := read_field l hi [] []
  rw [nil_append, append_nil, length_nil, Int.natCast_zero, Int.zero_add] at hread
  rw [writeUnmodifieldField, hread]
  rfl

theorem toDataFrom_modified {i : Nat} (hi : i < l.length) {value : Cacheable Obj}
    (hpending : inst.pending l[i].1 = some value) (rest : List PdxFieldType) (w : PdxLocalWriter) :
    inst.toDataFrom env (stream l) i (start (l.map snd) i : Nat) (l[i].1 :: rest) w =
      match writeField env w l[i].1.typeId (some value) with
      | some w' => inst.toDataFrom env (stream l) (i + 1) (start (l.map snd) (i + 1) : Nat)
          rest w'
      | none => .error .fault := by
  unfold pending at hpending
  rw [toDataFrom, hpending, getNextFieldPosition_stream ht hl hlen hi]
  show (do
    let w ← orFault (writeField env w l[i].1.typeId (some value))
    inst.toDataFrom env (stream l) (i + 1) (start (l.map snd) (i + 1) : Nat) rest w) = _
  cases writeField env w l[i].1.typeId (some value) <;> rfl

/-- The loop from field `i` on. The induction is on the fields that are left; what was written
before them are the contents `done`. -/
theorem toDataFrom_eq (hwrites : inst.Writable env l) {out : DataOutput} (rest : Contents)
    (i : Nat) (hrest : l.drop i = rest) {w : PdxLocalWriter} {done : Contents}
    (hw : PdxLocalWriter.Wrote w out inst.pdxType done) :
    LoopEnds out inst.pdxType done
      (inst.toDataFrom env (stream l) i (start (l.map snd) i : Nat) (rest.map fst) w)
      (inst.newContents env rest) := by
  induction rest generalizing i w done with
  | nil =>
    have hnil : done ++ [] = done := append_nil done
    exact ⟨w, rfl, hnil.symm ▸ hw⟩
  | cons a rest ih =>
    have hi : i < l.length := length_lt_of_drop_ne_nil (by simp [hrest])
    rw [drop_eq_getElem_cons hi, cons.injEq] at hrest
    obtain ⟨ha, htail⟩ := hrest
    have hmem : a ∈ l := by
      rw [← ha]
      exact getElem_mem hi
    -- what follows a field that was written with the bytes `bs`
    have hnext : ∀ {w' : PdxLocalWriter} {bs : List Byte},
        PdxLocalWriter.Emitted w w' a.1.isVariableLengthType bs →
        inst.newBytes env a = some bs →
        LoopEnds out inst.pdxType done (inst.toDataFrom env (stream l) (i + 1)
          (start (l.map snd) (i + 1) : Nat) (rest.map fst) w')
          (inst.newContents env (a :: rest)) := by
      intro w' bs hemitted hbytes
      have htailEnds := ih (i + 1) htail (hw.emitted hemitted)
      rw [newContents, mapM_cons, hbytes]
      show LoopEnds _ _ _ _ ((inst.newContents env rest).bind fun m => some ((a.1, bs) :: m))
      cases hm : inst.newContents env rest with
      | none =>
        rw [hm] at htailEnds
        exact htailEnds
      | some m =>
        rw [hm] at htailEnds
        obtain ⟨w'', hresult, hwrote⟩ := htailEnds
        rw [append_assoc] at hwrote
        exact ⟨w'', hresult, hwrote⟩
    rw [map_cons, ← ha]
    cases hpending : inst.pending l[i].1 with
    | none =>
      rw [toDataFrom_unmodified ht hl hlen hi hpending, ha]
      refine hnext (PdxLocalWriter.emitted_writeFieldBytes w a.1 a.2) ?_
      rw [newBytes, ← ha, hpending]
    | some value =>
      rw [toDataFrom_modified ht hl hlen hi hpending]
      rw [ha] at hpending ⊢
      have hvalue := hwrites.writes a hmem value hpending
      cases hbytes : inst.newBytes env a with
      | none =>
        rw [hbytes] at hvalue
        have hnone : writeField env w a.1.typeId (some value) = none := hvalue w
        rw [hnone, newContents, mapM_cons, hbytes]
        exact ⟨.fault, rfl⟩
      | some bs =>
        rw [hbytes] at hvalue
        obtain ⟨w', hw', hemitted⟩ := hvalue w
        have hsome : writeField env w a.1.typeId (some value) = some w' := hw'
        rw [hsome]
        exact hnext hemitted hbytes

end

/-! ### The new stream -/

section
variable {Obj : Type} {env : Environment Obj} {inst : PdxInstanceImpl Obj}

theorem newContents_none {l : Contents} (h : inst.newContents env l = none) :
    ∃ a ∈ l, inst.newBytes env a = none := by
  by_contra hall
  push Not at hall
  have hsome : ∃ m, inst.newContents env l = some m := exists_mapM.mpr fun a ha => by
    rw [Option.isSome_map, Option.isSome_iff_ne_none]
    exact hall a ha
  rw [h] at hsome
  exact nomatch hsome

theorem newContents_get {l m : Contents} (h : inst.newContents env l = some m) :
    m.length = l.length ∧ ∀ (i : Nat) (hi : i < l.length) (hi' : i < m.length),
      m[i].1 = l[i].1 ∧ inst.newBytes env l[i] = some m[i].2 := by
  obtain ⟨hlength, hget⟩ := forall₂_iff_get.mp (mapM_eq_some.mp h)
  refine ⟨hlength.symm, fun i hi hi' => ?_⟩
  obtain ⟨bs, hbs, heq⟩ := Option.map_eq_some_iff.mp (hget i hi hi')
  rw [← show _ = m[i] from heq]
  exact ⟨rfl, hbs⟩

variable {l : Contents} (hl : ContentsOf inst.pdxType.pdxFieldTypes l)
  (hwrites : inst.Writable env l)
include hl hwrites

theorem contentsOf_newContents {m : Contents} (h : inst.newContents env l = some m) :
    ContentsOf inst.pdxType.pdxFieldTypes m := by
  obtain ⟨hlength, hget⟩ := newContents_get h
  constructor
  · rw [← hl.fields_eq]
    refine ext_getElem (by rw [length_map, length_map, hlength]) ?_
    intro i hi hi'
    rw [length_map] at hi hi'
    rw [getElem_map, getElem_map]
    exact (hget i hi' hi).1
  · intro b hb hfixed
    obtain ⟨i, hi, rfl⟩ := mem_iff_getElem.mp hb
    have hi' : i < l.length := hlength ▸ hi
    obtain ⟨hfield, hbytes⟩ := hget i hi' hi
    have hmem : l[i] ∈ l := getElem_mem hi'
    rw [hfield] at hfixed ⊢
    -- a new value has the size of the type, and old bytes have it from before
    cases hpending : inst.pending l[i].1 with
    | some value => exact hwrites.sizes l[i] hmem value hpending hfixed m[i].2 hbytes
    | none =>
      rw [newBytes, hpending, Option.some.injEq] at hbytes
      rw [← hbytes]
      exact hl.sizes l[i] hmem hfixed

variable (ht : Described inst.pdxType) (hlen : streamLength l < 2 ^ 31)
  (hbuffer : inst.buffer = some (stream l)) (out : DataOutput)
include ht hlen hbuffer

theorem toData_eq :
    match inst.newContents env l with
    | some m => ∃ w, inst.toData env (PdxLocalWriter.new out inst.pdxType) =
        .ok (w, { inst with updatedFields := ∅ }) ∧ PdxLocalWriter.Wrote w out inst.pdxType m
    | none => ∃ e, inst.toData env (PdxLocalWriter.new out inst.pdxType) = .error e := by
  -- the loop over all fields
  have hloop := toDataFrom_eq ht hl hlen hwrites l 0 (drop_zero)
    (PdxLocalWriter.wrote_new out inst.pdxType)
  rw [hl.fields_eq, start_zero, Int.natCast_zero] at hloop
  unfold toData
  rw [hbuffer]
  cases hm : inst.newContents env l with
  | some m =>
    rw [hm] at hloop
    obtain ⟨w, hresult, hwrote⟩ := hloop
    refine ⟨w, ?_, hwrote⟩
    simp only [hresult]
    rfl
  | none =>
    rw [hm] at hloop
    obtain ⟨e, hresult⟩ := hloop
    refine ⟨e, ?_⟩
    simp only [hresult]
    rfl

/-- Re-serialising has a result exactly when every new value has bytes, and then the new instance
has the new bytes in every field. -/
theorem serializePdx_eq
    (hfits : ∀ w inst', inst.toData env (PdxLocalWriter.new out inst.pdxType) = .ok (w, inst') →
      w.calculateLenWithOffsets < 2 ^ 31) :
    match inst.newContents env l with
    | some m => ∃ out', inst.serializePdx env out =
          .ok (out', ⟨inst.pdxType, some (stream m), ∅⟩) ∧
        ∀ i (hi : i < l.length),
          fieldBytes inst.pdxType (stream m) i = inst.newBytes env l[i]
    | none => ∃ e, inst.serializePdx env out = .error e := by
  have hdata := toData_eq hl hwrites ht hlen hbuffer out
  unfold serializePdx
  cases hm : inst.newContents env l with
  | none =>
    rw [hm] at hdata
    obtain ⟨e, he⟩ := hdata
    exact ⟨e, by rw [he]; rfl⟩
  | some m =>
    rw [hm] at hdata
    obtain ⟨w, hw, hwrote⟩ := hdata
    have hcontents := contentsOf_newContents hl hwrites hm
    have hk := hcontents.count ht.wellFormed
    have hshort : streamLength m < 2 ^ 31 := by
      have hlength := hfits w _ hw
      rw [PdxLocalWriter.calculateLenWithOffsets_written hwrote hk] at hlength
      omega
    have hstream := PdxLocalWriter.getPdxStream_eq hwrote hk hshort
    refine ⟨w.endObjectWriting.dataOutput, ?_, ?_⟩
    · rw [hw]
      show (do
        let pdxStream ← orFault w.endObjectWriting.getPdxStream
        return (w.endObjectWriting.dataOutput, updatePdxStream _ pdxStream)) = _
      rw [hstream]
      rfl
    · intro i hi
      obtain ⟨hlength, hget⟩ := newContents_get hm
      have hi' : i < m.length := hlength.symm ▸ hi
      rw [fieldBytes_stream ht hcontents hshort hi', (hget i hi hi').2]

end

end PdxInstanceImpl

end GeodeNative.Pdx

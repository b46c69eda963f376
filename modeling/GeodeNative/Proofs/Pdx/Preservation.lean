import GeodeNative.Pdx.PdxHelper
import GeodeNative.Proofs.Pdx.Merge

/-!
# Fields that the local type lacks

An object of a remote type is read through a local type, and written again with the merged type.
`getPreservedData` keeps the bytes of the remote fields that the local type lacks, in the order of
the remote type (`getPreservedData_eq`). `PdxRemoteWriter` puts them between the local fields, in
the order of the merged type: it writes what a local writer would write for the merged contents
(`writeFields_inFront`). So no field is lost or moved: `unreadFields_preserved`.
-/

set_option autoImplicit false

namespace GeodeNative.Pdx

open Lib Serialization PdxType List
open Prod (fst snd)

/-! ### Keeping the bytes -/

namespace PdxLocalReader

theorem resettoPdxHead_eq (r : PdxLocalReader) (buf : List Byte) (pos : Int) :
    r.resettoPdxHead ⟨buf, pos⟩ = .ok () ⟨buf, r.startPosition⟩ := by
  show EStateM.Result.ok () (Input.mk buf (pos - (pos - r.startPosition))) = _
  rw [Int.sub_sub_self]

theorem preserveField_between {r : PdxLocalReader} {i : Nat} {buf c : List Byte} {p n pos q : Int}
    (hp : r.getFieldPosition buf i = some p)
    (hn : (if i + 1 = r.pdxType.pdxFieldTypes.length then some r.serializedLength
      else r.getFieldPosition buf (i + 1)) = some n)
    (hread : times (n - p).toNat DataInput.read ⟨buf, r.startPosition + p⟩ = .ok c ⟨buf, q⟩) :
    r.preserveField i ⟨buf, pos⟩ = .ok c ⟨buf, r.startPosition⟩ := by
  have hget : (get : Read DataInput) ⟨buf, pos⟩ = .ok ⟨buf, pos⟩ ⟨buf, pos⟩ := rfl
  rw [preserveField, bind_ok hget]
  simp only [hp, hn]
  have hadvance : DataInput.advanceCursor p ⟨buf, r.startPosition⟩ =
      .ok () ⟨buf, r.startPosition + p⟩ := rfl
  rw [bind_ok (resettoPdxHead_eq r buf pos), bind_ok hadvance, bind_ok hread,
    bind_ok (resettoPdxHead_eq r buf q)]
  rfl

section
variable {t : PdxType} (hpos : Positioned t.pdxFieldTypes) (ht : WellFormed t) {l : Contents}
  (hl : ContentsOf t.pdxFieldTypes l) (hlen : streamLength l < 2 ^ 31) (front back : List Byte)
include hpos ht hl hlen

/-- The bytes of a field are kept, wherever the cursor is. -/
theorem preserveField_eq (pos : Int) {i : Nat} (hi : i < l.length) :
    (new ⟨front ++ stream l ++ back, front.length⟩ t (streamLength l)).preserveField i
        ⟨front ++ stream l ++ back, pos⟩ =
      .ok l[i].2 ⟨front ++ stream l ++ back, front.length⟩ := by
  have hposition := getFieldPosition_stream hpos ht hl hlen front back hi
  have hnext := nextFieldPosition_stream hpos ht hl hlen front back hi
  have hread := read_field l hi front back
  exact preserveField_between hposition hnext hread

theorem preserveFields_eq (ls : List PdxFieldType) (rest : Contents) (i : Nat)
    (hrest : l.drop i = rest) (pos : Int) :
    ∃ pos', (new ⟨front ++ stream l ++ back, front.length⟩ t (streamLength l)).preserveFields i
        (rest.map fun a => remoteToLocal ls a.1) ⟨front ++ stream l ++ back, pos⟩ =
      .ok ((rest.filter fun a => !hasField ls a.1).map snd)
        ⟨front ++ stream l ++ back, pos'⟩ := by
  induction rest generalizing i pos with
  | nil => exact ⟨pos, rfl⟩
  | cons a rest ih =>
    have hi : i < l.length := length_lt_of_drop_ne_nil (by simp [hrest])
    rw [drop_eq_getElem_cons hi, cons.injEq] at hrest
    cases ha : hasField ls a.1 with
    | true =>
      have hkind : remoteToLocal ls a.1 = .present := (remoteToLocal_eq_present ls a.1).mpr ha
      rw [map_cons, hkind, filter_cons_of_neg (by simp [ha])]
      exact ih (i + 1) hrest.2 pos
    | false =>
      have hkind : remoteToLocal ls a.1 ≠ .present := by
        rw [ne_eq, remoteToLocal_eq_present, ha]
        exact Bool.false_ne_true
      obtain ⟨pos', htail⟩ := ih (i + 1) hrest.2 front.length
      have hfield := preserveField_eq hpos ht hl hlen front back pos hi
      rw [hrest.1] at hfield
      refine ⟨pos', ?_⟩
      rw [filter_cons_of_pos (by simp [ha]), map_cons]
      -- both kinds of missing fields are kept in the same way
      rw [preserveFields, bind_ok hfield, bind_ok htail]
      · rfl
      · exact hkind

end

theorem getPreservedData_eq {l r : PdxType} (hr : Initialised l r) {input : Contents}
    (hinput : ContentsOf r.pdxFieldTypes input) (hlen : streamLength input < 2 ^ 31)
    (front back : List Byte) (pos : Int) :
    ∃ pos', (new ⟨front ++ stream input ++ back, front.length⟩ r
        (streamLength input)).getPreservedData false ⟨front ++ stream input ++ back, pos⟩ =
      .ok (if (r.pdxFieldTypes.all (hasField l.pdxFieldTypes)) then none
        else some ((input.filter fun a => !hasField l.pdxFieldTypes a.1).map snd))
        ⟨front ++ stream input ++ back, pos'⟩ := by
  have hmap : r.remoteToLocalFieldMap.getD [] =
      input.map fun a => remoteToLocal l.pdxFieldTypes a.1 := by
    rw [hr.map, ← hinput.fields_eq, map_map]
    rfl
  have hextra : r.numberOfFieldsExtra > 0 ↔
      ¬ r.pdxFieldTypes.all (hasField l.pdxFieldTypes) = true := by
    rw [hr.extra, gt_iff_lt, Int.natCast_pos, length_pos_iff, ne_eq,
      filter_eq_nil_iff, all_eq_true]
    simp
  unfold getPreservedData
  by_cases hall : r.pdxFieldTypes.all (hasField l.pdxFieldTypes) = true
  · rw [if_neg (fun h => hextra.mp h.1 hall), if_pos hall]
    exact ⟨pos, rfl⟩
  · obtain ⟨pos', hdata⟩ := preserveFields_eq hr.positioned hr.wellFormed hinput hlen front back
      l.pdxFieldTypes input 0 rfl pos
    refine ⟨pos', ?_⟩
    rw [if_pos ⟨hextra.mpr hall, rfl⟩, if_neg hall]
    rw [← hmap] at hdata
    exact bind_ok hdata

end PdxLocalReader

/-! ### Writing the bytes back -/

variable {m : Contents}

namespace PdxRemoteWriter

/-- The writer is in front of the contents `m` of the merged type: the map from the next index on
tells which of them are missing in `ls`, and the preserved data that are left are theirs. -/
structure InFront (ls : List PdxFieldType) (data : List (List Byte)) (w : PdxRemoteWriter)
    (m : Contents) : Prop where
  preserveData : w.preserveData = some data
  index : -1 ≤ w.currentDataIdx
  map : w.remoteTolocalMap.drop (w.currentDataIdx + 1).toNat =
    m.map fun a => remoteToLocal ls a.1
  rest : data.drop w.preserveDataIdx = (m.filter fun a => !hasField ls a.1).map snd

section
variable {ls : List PdxFieldType} {data : List (List Byte)} {w : PdxRemoteWriter}

theorem writePreserveData_eq (h : w.preserveData = some data) :
    w.writePreserveData =
      ({ w with currentDataIdx := w.currentDataIdx + 1 } : PdxRemoteWriter).writePreserveLoop data
        (w.remoteTolocalMap.drop (w.currentDataIdx + 1).toNat) := by
  simp only [writePreserveData, h]

theorem drop_next {α : Type} {l rest : List α} {a : α} {n : Int} (hn : -1 ≤ n)
    (h : l.drop (n + 1).toNat = a :: rest) : l.drop (n + 1 + 1).toNat = rest := by
  rw [show (n + 1 + 1).toNat = (n + 1).toNat + 1 by omega, ← drop_drop, h, drop_one,
    tail_cons]

/-- In front of a local field nothing is preserved, and the field is written. -/
theorem inFront_shared {f g : PdxFieldType} {c : List Byte} (h : InFront ls data w ((f, c) :: m))
    (hf : hasField ls f = true) (hkind : g.isVariableLengthType = f.isVariableLengthType) :
    InFront ls data (w.writeFieldBytes g c) m ∧
      (w.writeFieldBytes g c).localWriter = w.localWriter.writeFieldBytes f c := by
  have hpresent : remoteToLocal ls f = .present := (remoteToLocal_eq_present ls f).mpr hf
  have hmap := h.map
  rw [map_cons, hpresent] at hmap
  have hstop : w.writePreserveData = { w with currentDataIdx := w.currentDataIdx + 1 } := by
    rw [writePreserveData_eq h.preserveData, hmap, writePreserveLoop]
  unfold writeFieldBytes
  rw [hstop]
  refine ⟨⟨h.preserveData, ?_, drop_next h.index hmap, ?_⟩,
    by dsimp only; rw [PdxLocalWriter.writeFieldBytes, PdxLocalWriter.writeFieldBytes, hkind]⟩
  · have := h.index
    show -1 ≤ w.currentDataIdx + 1
    omega
  · have hrest := h.rest
    rwa [filter_cons_of_neg (by simp [hf])] at hrest

/-- In front of a field that `ls` lacks, the next call writes it, and then does what it would do
behind it. -/
theorem inFront_extra {f : PdxFieldType} {c : List Byte} (h : InFront ls data w ((f, c) :: m))
    (hf : hasField ls f = false) :
    ∃ w', w.writePreserveData = w'.writePreserveData ∧ InFront ls data w' m ∧
      w'.localWriter = w.localWriter.writeFieldBytes f c := by
  have hrest := h.rest
  rw [filter_cons_of_pos (by simp [hf]), map_cons] at hrest
  have hdata : data[w.preserveDataIdx]? = some c := by
    rw [← head?_drop, hrest]
    rfl
  let w' : PdxRemoteWriter := { w with
    localWriter := w.localWriter.writeFieldBytes f c
    preserveDataIdx := w.preserveDataIdx + 1
    currentDataIdx := w.currentDataIdx + 1 }
  have hidx := h.index
  have hfront : InFront ls data w' m := by
    refine ⟨h.preserveData, ?_, drop_next h.index h.map, ?_⟩
    · show -1 ≤ w.currentDataIdx + 1
      omega
    · show data.drop (w.preserveDataIdx + 1) = _
      rw [← drop_drop, hrest, drop_one, tail_cons]
  refine ⟨w', ?_, hfront, rfl⟩
  -- one round of the loop leads from the first state to the second
  rw [writePreserveData_eq h.preserveData, writePreserveData_eq hfront.preserveData, h.map,
    hfront.map, map_cons]
  cases hv : f.isVariableLengthType with
  | true =>
    have hkind : remoteToLocal ls f = .absentVariable := by
      rw [remoteToLocal_of_absent hf, if_pos hv]
    rw [hkind, writePreserveLoop, writeNextPreserved]
    simp only [hdata]
    simp only [w', PdxLocalWriter.writeFieldBytes, hv, if_true]
  | false =>
    have hkind : remoteToLocal ls f = .absentFixed := by
      rw [remoteToLocal_of_absent hf, if_neg (by simp [hv])]
    rw [hkind, writePreserveLoop, writeNextPreserved]
    simp only [hdata]
    simp only [w', PdxLocalWriter.writeFieldBytes, hv, if_false, Bool.false_eq_true]

/-- What is written next depends on what `writePreserveData` makes of the writer. -/
theorem writeFields_congr {w' : PdxRemoteWriter} (h : w.writePreserveData = w'.writePreserveData)
    (fields : Contents) :
    (w.writeFields fields).writePreserveData = (w'.writeFields fields).writePreserveData := by
  cases fields with
  | nil => exact h
  | cons a fields =>
    have hfirst : w.writeFieldBytes a.1 a.2 = w'.writeFieldBytes a.1 a.2 := by
      rw [writeFieldBytes, h, writeFieldBytes]
    rw [writeFields, writeFields, foldl_cons, foldl_cons, hfirst]

/-- The local fields and the preserved ones together: the remote writer writes the contents of the
merged type. -/
theorem writeFields_inFront (h : InFront ls data w m) {fields : Contents}
    (hfields : fields.map (fun a => (a.1.isVariableLengthType, a.2)) =
      (m.filter fun a => hasField ls a.1).map fun a => (a.1.isVariableLengthType, a.2)) :
    (w.writeFields fields).writePreserveData.localWriter = w.localWriter.writeFields m := by
  induction m generalizing w fields with
  | nil =>
    rw [filter_nil, map_nil, map_eq_nil_iff] at hfields
    rw [hfields]
    show w.writePreserveData.localWriter = _
    rw [writePreserveData_eq h.preserveData, h.map]
    rfl
  | cons a m ih =>
    obtain ⟨f, c⟩ := a
    cases hf : hasField ls f with
    | true =>
      rw [filter_cons_of_pos (by exact hf), map_cons] at hfields
      cases fields with
      | nil => cases hfields
      | cons b fields =>
        obtain ⟨g, d⟩ := b
        rw [map_cons, cons.injEq, Prod.mk.injEq] at hfields
        obtain ⟨⟨hkind, hd : d = c⟩, hrest⟩ := hfields
        rw [hd]
        obtain ⟨hfront, hlocal⟩ := inFront_shared h hf hkind
        have htail := ih hfront hrest
        rw [hlocal] at htail
        exact htail
    | false =>
      rw [filter_cons_of_neg (by simp [hf])] at hfields
      obtain ⟨w', hsame, hfront, hlocal⟩ := inFront_extra h hf
      have htail := ih hfront hfields
      rw [hlocal] at htail
      rw [writeFields_congr hsame]
      exact htail

end

theorem writeFields_local {w : PdxRemoteWriter} (h : w.preserveData = none) (fields : Contents) :
    (w.writeFields fields).writePreserveData.localWriter = w.localWriter.writeFields fields := by
  have hnone : ∀ v : PdxRemoteWriter, v.preserveData = none →
      v.writePreserveData = { v with currentDataIdx := v.currentDataIdx + 1 } := by
    intro v hv
    simp only [writePreserveData, hv]
  induction fields generalizing w with
  | nil =>
    show w.writePreserveData.localWriter = _
    rw [hnone w h]
    rfl
  | cons a fields ih =>
    have hfirst : (w.writeFieldBytes a.1 a.2).localWriter =
        w.localWriter.writeFieldBytes a.1 a.2 := by
      rw [writeFieldBytes, hnone w h]
    have hstill : (w.writeFieldBytes a.1 a.2).preserveData = none := by
      rw [writeFieldBytes, hnone w h]
      exact h
    have htail := ih hstill
    rw [hfirst] at htail
    exact htail

end PdxRemoteWriter

/-! ### The contents of the merged type -/

/-- The bytes of the field with this name. -/
def bytesOf (l : Contents) (name : String) : List Byte :=
  ((l.find? fun a => a.1.fieldName = name).map snd).getD []

/-- The bytes of the fields, with what the versions of a field have in common. -/
def keyed (l : Contents) : List ((String × BitVec 8 × Bool × Int) × List Byte) :=
  l.map fun a => (fieldKey a.1, a.2)

variable {a : PdxFieldType × List Byte} {l : Contents}

theorem mem_keyed_filter (p : PdxFieldType → Bool) (ha : a ∈ l) (hp : p a.1 = true) :
    (fieldKey a.1, a.2) ∈ keyed (l.filter fun a => p a.1) :=
  mem_map_of_mem (mem_filter.mpr ⟨ha, hp⟩)

theorem bytesOf_mem (h : UniqueNames (l.map fst)) (ha : a ∈ l) :
    bytesOf l a.1.fieldName = a.2 := by
  have hsome : (l.find? fun b => decide (b.1.fieldName = a.1.fieldName)).isSome = true := by
    rw [find?_isSome]
    exact ⟨a, ha, by simp⟩
  obtain ⟨b, hb⟩ := Option.isSome_iff_exists.mp hsome
  have hname : b.1.fieldName = a.1.fieldName := by simpa using find?_some hb
  rw [UniqueNames, map_map] at h
  have hsame : b = a := inj_on_of_nodup_map h (mem_of_find?_eq_some hb) ha hname
  rw [bytesOf, hb, hsame]
  rfl

theorem keyed_eq (h : UniqueNames (l.map fst)) (part : Contents) (hpart : ∀ a ∈ part, a ∈ l) :
    keyed part = ((part.map fst).map fieldKey).map fun k => (k, bytesOf l k.1) := by
  rw [map_map, map_map]
  refine map_congr_left fun a ha => ?_
  show (fieldKey a.1, a.2) = (fieldKey a.1, bytesOf l a.1.fieldName)
  rw [bytesOf_mem h (hpart a ha)]

/-- The contents of a merged type: what the object wrote for the local fields `ls`, and the input
for the other fields. -/
def mergedContents (ls fields : List PdxFieldType) (written input : Contents) : Contents :=
  fields.map fun f =>
    (f, if hasField ls f then bytesOf written f.fieldName else bytesOf input f.fieldName)

section
variable {ls rs fields : List PdxFieldType} (hsplits : Splits ls rs fields)
  (written input : Contents) (hwritten : written.map fst = ls)
  (hinput : input.map fst = rs)
include hsplits

include hwritten in
theorem keyed_shared (hls : UniqueNames ls) :
    keyed ((mergedContents ls fields written input).filter fun a => hasField ls a.1) =
      keyed written := by
  rw [keyed_eq (hwritten ▸ hls) written fun a ha => ha, hwritten, ← hsplits.shared,
    map_map, mergedContents, filter_map, keyed, map_map]
  refine map_congr_left fun f hf => ?_
  have hhas : hasField ls f = true := (mem_filter.mp hf).2
  show (fieldKey f, if hasField ls f then bytesOf written f.fieldName else _) =
    (fieldKey f, bytesOf written f.fieldName)
  rw [if_pos hhas]

include hinput in
theorem keyed_extra (hrs : UniqueNames rs) :
    keyed ((mergedContents ls fields written input).filter fun a => !hasField ls a.1) =
      keyed (input.filter fun a => !hasField ls a.1) := by
  have hpart : (input.filter fun a => !hasField ls a.1).map fst =
      rs.filter fun f => !hasField ls f := by
    rw [← hinput, filter_map]
    rfl
  rw [keyed_eq (hinput ▸ hrs) (input.filter _) fun a ha => (mem_filter.mp ha).1,
    hpart, ← hsplits.extra, map_map, mergedContents, filter_map, keyed, map_map]
  refine map_congr_left fun f hf => ?_
  have hhas : ¬ hasField ls f = true := by simpa using (mem_filter.mp hf).2
  show (fieldKey f, if hasField ls f then _ else bytesOf input f.fieldName) =
    (fieldKey f, bytesOf input f.fieldName)
  rw [if_neg hhas]

theorem Splits.uniqueNames (hls : UniqueNames ls) (hrs : UniqueNames rs) (hagree : Agree ls rs) :
    UniqueNames fields := by
  have hnames : ∀ fs : List PdxFieldType,
      fs.map PdxFieldType.fieldName = (fs.map fieldKey).map fst := by
    intro fs
    rw [map_map]
    rfl
  have hperm := (filter_append_perm (hasField ls) fields).map PdxFieldType.fieldName
  refine hperm.nodup_iff.mp ?_
  rw [map_append, hnames, hnames, hsplits.shared, hsplits.extra, ← hnames, ← hnames,
    nodup_append]
  refine ⟨hls, hrs.sublist (filter_sublist.map _), ?_⟩
  intro a ha b hb hab
  obtain ⟨f, hf, rfl⟩ := mem_map.mp ha
  obtain ⟨g, hg, rfl⟩ := mem_map.mp hb
  rw [mem_filter] at hg
  have hhas : hasField ls g = true :=
    (hagree.hasField_iff_mem hg.1).mpr (hagree f hf g hg.1 hab ▸ mem_map_of_mem hf)
  simp [hhas] at hg

end

section
variable {l r m : PdxType} {written input : Contents}
  (hsplits : Splits l.pdxFieldTypes r.pdxFieldTypes m.pdxFieldTypes)
  (hwritten : ContentsOf l.pdxFieldTypes written) (hinput : ContentsOf r.pdxFieldTypes input)
  (hls : UniqueNames l.pdxFieldTypes) (hrs : UniqueNames r.pdxFieldTypes)
include hsplits hwritten hinput hls hrs

theorem contentsOf_merged : ContentsOf m.pdxFieldTypes
      (mergedContents l.pdxFieldTypes m.pdxFieldTypes written input) where
  fields_eq := by
    rw [mergedContents, map_map]
    exact map_id' _
  sizes := by
    intro b hb hfixed
    -- the field has the key and the bytes of a field that was written or read
    have hsource : ∃ a ∈ written ++ input, fieldKey a.1 = fieldKey b.1 ∧ a.2 = b.2 := by
      have hkeyed : (fieldKey b.1, b.2) ∈ keyed written ++ keyed input := by
        rw [mem_append]
        by_cases hhas : hasField l.pdxFieldTypes b.1 = true
        · have hmem := mem_keyed_filter (hasField l.pdxFieldTypes) hb hhas
          rw [keyed_shared hsplits written input hwritten.fields_eq hls] at hmem
          exact .inl hmem
        · have hmem := mem_keyed_filter (!hasField l.pdxFieldTypes ·) hb (by simp [hhas])
          rw [keyed_extra hsplits written input hinput.fields_eq hrs] at hmem
          obtain ⟨a, ha, heq⟩ := mem_map.mp hmem
          exact .inr (mem_map.mpr ⟨a, (mem_filter.mp ha).1, heq⟩)
      rw [keyed, keyed, ← map_append] at hkeyed
      obtain ⟨a, ha, heq⟩ := mem_map.mp hkeyed
      rw [Prod.mk.injEq] at heq
      exact ⟨a, ha, heq⟩
    obtain ⟨a, ha, hkey, hbytes⟩ := hsource
    simp only [fieldKey, Prod.mk.injEq] at hkey
    rw [← hbytes, ← hkey.2.2.2]
    rw [← hkey.2.2.1] at hfixed
    rcases mem_append.mp ha with ha | ha
    · exact hwritten.sizes a ha hfixed
    · exact hinput.sizes a ha hfixed

/-! ### Reading and writing again -/

/-- With the preserved data, an object is written as a local writer of the merged type would write
the merged contents. -/
theorem serializePdx_merged (hm : Initialised l m) (out : DataOutput) :
    (PdxHelper.serializePdx out l (some ⟨m, (input.filter fun a =>
        !hasField l.pdxFieldTypes a.1).map snd⟩) written).localWriter =
      ((PdxLocalWriter.new out m).writeFields
        (mergedContents l.pdxFieldTypes m.pdxFieldTypes written input)).endObjectWriting := by
  have hshared := keyed_shared hsplits written input hwritten.fields_eq hls
  have hextra := keyed_extra hsplits written input hinput.fields_eq hrs
  have hfront : PdxRemoteWriter.InFront l.pdxFieldTypes
      ((input.filter fun a => !hasField l.pdxFieldTypes a.1).map snd)
      (PdxRemoteWriter.new out m ((input.filter fun a =>
        !hasField l.pdxFieldTypes a.1).map snd))
      (mergedContents l.pdxFieldTypes m.pdxFieldTypes written input) := by
    refine ⟨rfl, Int.le_refl _, ?_, ?_⟩
    · show (m.remoteToLocalFieldMap.getD []).drop 0 = _
      rw [hm.map, mergedContents, map_map]
      rfl
    · have hbytes := congrArg (map snd) hextra
      rw [keyed, keyed, map_map, map_map] at hbytes
      exact hbytes.symm
  have hfields : written.map (fun a => (a.1.isVariableLengthType, a.2)) =
      ((mergedContents l.pdxFieldTypes m.pdxFieldTypes written input).filter fun a =>
        hasField l.pdxFieldTypes a.1).map fun a => (a.1.isVariableLengthType, a.2) := by
    have hkinds := congrArg (map fun k => (k.1.2.2.1, k.2)) hshared
    rw [keyed, keyed, map_map, map_map] at hkinds
    exact hkinds.symm
  have hwrite := PdxRemoteWriter.writeFields_inFront hfront hfields
  show PdxLocalWriter.writePdxHeader (PdxRemoteWriter.writePreserveData _).localWriter = _
  rw [hwrite]
  rfl

end

theorem serializePdx_local (l : PdxType) (written : Contents) (out : DataOutput) :
    (PdxHelper.serializePdx out l none written).localWriter =
      ((PdxLocalWriter.new out l).writeFields written).endObjectWriting := by
  have hnone : (PdxRemoteWriter.newLocal out l).preserveData = none := rfl
  have hwrite := PdxRemoteWriter.writeFields_local hnone written
  show PdxLocalWriter.writePdxHeader (PdxRemoteWriter.writePreserveData _).localWriter = _
  rw [hwrite]
  rfl

theorem createMergedType_fields (l r : PdxType) :
    (l.mergeVersion r).typeEquals (l.createMergedType r) = true := by
  simp only [createMergedType]
  split
  · assumption
  · split
    · assumption
    · refine typeEquals_of_keys ?_
      exact (map_initializeType _ (some l) fieldKey fun _ => rfl).symm

/-- The contents hold the bytes of this field under its name. -/
def Holds (m : Contents) (a : PdxFieldType × List Byte) : Prop :=
  ∃ b ∈ m, b.1.fieldName = a.1.fieldName ∧ b.2 = a.2

theorem holds_of_keyed {p : PdxFieldType × List Byte → Bool}
    (h : (fieldKey a.1, a.2) ∈ keyed (m.filter p)) : Holds m a := by
  obtain ⟨b, hb, heq⟩ := mem_map.mp h
  rw [Prod.mk.injEq] at heq
  exact ⟨b, (mem_filter.mp hb).1, congrArg fst heq.1, heq.2⟩

/-- The contents `m` are contents of the merged type with nothing lost: the fields of `L` are as the
object wrote them, the other fields of `R` as they were in the input, and a reader with the merged
type finds each field where it starts. -/
structure Preserves (L R : PdxType) (written input m : Contents) : Prop where
  merged : (L.mergeVersion R).typeEquals (L.createMergedType R) = true
  contents : ContentsOf (L.createMergedType R).pdxFieldTypes m
  names : UniqueNames (L.createMergedType R).pdxFieldTypes
  shared : ∀ a ∈ written, Holds m a
  extra : ∀ a ∈ input, (∀ f ∈ L.pdxFieldTypes, f.fieldName ≠ a.1.fieldName) → Holds m a
  found : (stream m).length < 2 ^ 31 → FoundBy (L.createMergedType R) m

section
variable {L R : PdxType} (hL : WellFormed L) (hLpos : Positioned L.pdxFieldTypes)
  (hR : Initialised L R) (hLnames : UniqueNames L.pdxFieldTypes)
  (hRnames : UniqueNames R.pdxFieldTypes) (hagree : Agree L.pdxFieldTypes R.pdxFieldTypes)
  {written input : Contents} (hwritten : ContentsOf L.pdxFieldTypes written)
  (hinput : ContentsOf R.pdxFieldTypes input)
include hL hR hLnames hRnames hagree hwritten hinput

include hLpos in
theorem preserves_of_all (hall : R.pdxFieldTypes.all (hasField L.pdxFieldTypes) = true) :
    Preserves L R written input written := by
  have hmerge : L.createMergedType R = L :=
    createMergedType_of_all hL hR hLnames hRnames hagree (all_eq_true.mp hall)
  refine ⟨createMergedType_fields L R, ?_, ?_, fun a ha => ⟨a, ha, rfl, rfl⟩, ?_, ?_⟩
  · rw [hmerge]
    exact hwritten
  · rw [hmerge]
    exact hLnames
  · intro a ha hother
    have hmem : a.1 ∈ R.pdxFieldTypes := hinput.fields_eq ▸ mem_map_of_mem ha
    have hpair := (hasField_iff _ _).mp (all_eq_true.mp hall a.1 hmem)
    obtain ⟨f, hf, hpair⟩ := mem_map.mp hpair
    exact absurd (congrArg fst hpair) (hother f hf)
  · intro hshort
    rw [length_stream] at hshort
    rw [hmerge]
    exact foundBy_of_length hLpos hL hwritten hshort

theorem preserves_of_extra {f : PdxFieldType} (hf : f ∈ R.pdxFieldTypes)
    (hextra : hasField L.pdxFieldTypes f = false) :
    Preserves L R written input
      (mergedContents L.pdxFieldTypes (L.createMergedType R).pdxFieldTypes written input) := by
  obtain ⟨hM, hsplits⟩ := createMergedType_of_extra hL hR hLnames hRnames hagree hf hextra
  have hm := contentsOf_merged hsplits hwritten hinput hLnames hRnames
  refine ⟨createMergedType_fields L R, hm, hsplits.uniqueNames hLnames hRnames hagree, ?_, ?_, ?_⟩
  · intro a ha
    have hmem : (fieldKey a.1, a.2) ∈ keyed written := mem_map_of_mem ha
    rw [← keyed_shared hsplits written input hwritten.fields_eq hLnames] at hmem
    exact holds_of_keyed hmem
  · intro a ha hother
    have habsent : hasField L.pdxFieldTypes a.1 = false := by
      rw [← Bool.not_eq_true, hasField_iff, mem_map]
      rintro ⟨g, hg, hpair⟩
      exact hother g hg (congrArg fst hpair)
    have hmem := mem_keyed_filter (!hasField L.pdxFieldTypes ·) ha (by simp [habsent])
    rw [← keyed_extra hsplits written input hinput.fields_eq hRnames] at hmem
    exact holds_of_keyed hmem
  · intro hshort
    rw [length_stream] at hshort
    exact foundBy_of_length hM.positioned hM.wellFormed hm hshort

end

theorem writer_bytes (out : DataOutput) {t : PdxType} (ht : WellFormed t)
    (hm : ContentsOf t.pdxFieldTypes m) :
    (((PdxLocalWriter.new out t).writeFields m).endObjectWriting).dataOutput.bytes =
      out.bytes ++ bigEndian 4 (BitVec.ofInt 32 (stream m).length) ++
        bigEndian 4 (BitVec.ofInt 32 t.geodeTypeId) ++ stream m := by
  rw [length_stream]
  exact (PdxLocalWriter.endObjectWriting_bytes (PdxLocalWriter.wrote_writeFields out t m)
    (hm.count ht)).1

/-- A remote stream is read through the local type `L`, with the cursor anywhere when the unread
fields are kept, and the object is written again. The result is a stream of the merged type in
which nothing is lost. -/
theorem unreadFields_preserved (l r L R : PdxType) (known : Option PdxType)
    (hL : L = l.initializeType known) (hR : R = r.initializeType (some L)) (hl : WellFormed l)
    (hr : WellFormed r) (hlnames : UniqueNames l.pdxFieldTypes)
    (hrnames : UniqueNames r.pdxFieldTypes) (hagree : Agree l.pdxFieldTypes r.pdxFieldTypes)
    (input written : Contents) (hinput : ContentsOf R.pdxFieldTypes input)
    (hwritten : ContentsOf L.pdxFieldTypes written) (hlen : (stream input).length < 2 ^ 31)
    (front back : List Byte) (pos : Int) (out : DataOutput) :
    ∃ pd pos' m,
      PdxHelper.keepPreservedData L R
          (PdxLocalReader.new ⟨front ++ stream input ++ back, front.length⟩ R
            (stream input).length) false ⟨front ++ stream input ++ back, pos⟩ =
        .ok pd ⟨front ++ stream input ++ back, pos'⟩ ∧
      (PdxHelper.serializePdx out L pd written).localWriter.dataOutput.bytes =
        out.bytes ++ bigEndian 4 (BitVec.ofInt 32 (stream m).length) ++
          bigEndian 4 (BitVec.ofInt 32 (L.createMergedType R).geodeTypeId) ++ stream m ∧
      Preserves L R written input m := by
  -- what is known of the types as they were added holds after `InitializeType`
  have hLkeys : L.pdxFieldTypes.map fieldKey = l.pdxFieldTypes.map fieldKey := by
    rw [hL, map_initializeType l known fieldKey fun _ => rfl]
  have hRkeys : R.pdxFieldTypes.map fieldKey = r.pdxFieldTypes.map fieldKey := by
    rw [hR, map_initializeType r (some L) fieldKey fun _ => rfl]
  have hLnames : UniqueNames L.pdxFieldTypes := hlnames.congr hLkeys.symm
  have hRnames : UniqueNames R.pdxFieldTypes := hrnames.congr hRkeys.symm
  have hagree' : Agree L.pdxFieldTypes R.pdxFieldTypes := hagree.congr hLkeys.symm hRkeys.symm
  have hLwell : WellFormed L := hL ▸ wellFormed_initializeType hl known
  have hLpos : Positioned L.pdxFieldTypes := hL ▸ positioned_initializeType l known
  have hRinit : Initialised L R := hR ▸ initialised_initializeType hr L
  rw [length_stream] at hlen
  obtain ⟨pos', hdata⟩ :=
    PdxLocalReader.getPreservedData_eq hRinit hinput hlen front back pos
  rw [← length_stream] at hdata
  by_cases hall : R.pdxFieldTypes.all (hasField L.pdxFieldTypes) = true
  · rw [if_pos hall] at hdata
    have hsame := preserves_of_all hLwell hLpos hRinit hLnames hRnames hagree' hwritten hinput hall
    refine ⟨none, pos', written, bind_ok hdata, ?_, hsame⟩
    rw [serializePdx_local, createMergedType_of_all hLwell hRinit hLnames hRnames hagree'
      (all_eq_true.mp hall)]
    exact writer_bytes out hLwell hwritten
  · obtain ⟨f, hf, hextra⟩ : ∃ f ∈ R.pdxFieldTypes, hasField L.pdxFieldTypes f = false := by
      simpa using hall
    rw [if_neg hall] at hdata
    have hmore := preserves_of_extra hLwell hRinit hLnames hRnames hagree' hwritten hinput hf hextra
    obtain ⟨hM, hsplits⟩ :=
      createMergedType_of_extra hLwell hRinit hLnames hRnames hagree' hf hextra
    refine ⟨some ⟨L.createMergedType R, _⟩, pos', _, bind_ok hdata, ?_, hmore⟩
    rw [serializePdx_merged hsplits hwritten hinput hLnames hRnames hM]
    exact writer_bytes out hM.wellFormed hmore.contents

/-- A local version of a class. -/
def personLocal : PdxType :=
  run AddField.step (PdxType.new "Person" true)
    [.variableLength (some "name") "" 9, .fixedLength (some "id") "" 4 4]

/-- A remote version, with the fields in another order and two more. -/
def personRemote : PdxType :=
  run AddField.step (PdxType.new "Person" false)
    [.fixedLength (some "id") "" 4 4, .fixedLength (some "rank") "" 3 2,
      .variableLength (some "name") "" 9, .variableLength (some "tags") "" 19]

/-- The remote version is read into the local one. -/
def personRead : PdxType := personRemote.initializeType (some (personLocal.initializeType none))

/-- The remote contents. -/
def personInput : Contents :=
  personRead.pdxFieldTypes.zip [[0, 0, 0, 7], [0, 3], [87, 0, 1, 65], [1, 42]]

/-- What the object writes: it has a new name. -/
def personWritten : Contents :=
  (personLocal.initializeType none).pdxFieldTypes.zip [[87, 0, 2, 66, 67], [0, 0, 0, 7]]

theorem unreadFields_preserved_person :
    ∃ pd pos' m,
      PdxHelper.keepPreservedData (personLocal.initializeType none) personRead
          (PdxLocalReader.new ⟨[] ++ stream personInput ++ [], 0⟩ personRead
            (stream personInput).length) false ⟨[] ++ stream personInput ++ [], 5⟩ =
        .ok pd ⟨[] ++ stream personInput ++ [], pos'⟩ ∧
      Preserves (personLocal.initializeType none) personRead personWritten personInput m := by
  obtain ⟨pd, pos', m, hkeep, -, hall⟩ := unreadFields_preserved personLocal personRemote
    (personLocal.initializeType none) personRead none rfl rfl
    (built_run "Person" true _ (by decide)).wellFormed
    (built_run "Person" false _ (by decide)).wellFormed
    (by unfold UniqueNames; decide +kernel) (by unfold UniqueNames; decide +kernel)
    (by unfold Agree; decide +kernel) personInput personWritten
    ⟨by decide +kernel, by decide +kernel⟩ ⟨by decide +kernel, by decide +kernel⟩
    (by decide +kernel) [] [] 5 ⟨[], 8192, false⟩
  exact ⟨pd, pos', m, hkeep, hall⟩

end GeodeNative.Pdx

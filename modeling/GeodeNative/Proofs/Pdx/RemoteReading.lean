import GeodeNative.Proofs.Pdx.FieldReads
import GeodeNative.Proofs.Pdx.InstanceStream
import GeodeNative.Proofs.Pdx.Preservation

/-!
# What a remote reader obtains

An application reads the fields of its type `L` from a stream of the type `R`. The common start of
the two types is read at the cursor, which moves along. Every other field is found by its number in
`R`, and the cursor goes back to the head of the stream behind it.
-/

set_option autoImplicit false

namespace GeodeNative.Pdx

open Lib Serialization PdxType List PdxRemoteReader
open Prod (fst snd)

/-! ### The local-to-remote map -/

/-- The number of fields at the start of the local type that agree with the remote type. -/
def commonStart (ls rs : List PdxFieldType) : Nat :=
  ((ls.zip rs).takeWhile fun p => p.1.equals p.2).length

/-- The place of a local field in the remote type. -/
def placeIn (rs : List PdxFieldType) (f : PdxFieldType) : Option Nat := rs.findIdx? (f.equals ·)

theorem localToRemoteFrom_eq (allRemote ls rs : List PdxFieldType) :
    localToRemoteFrom allRemote ls rs = replicate (commonStart ls rs) (-2) ++
      (ls.drop (commonStart ls rs)).map (localToRemote allRemote) := by
  induction ls generalizing rs with
  | nil => rfl
  | cons f ls ih =>
    cases rs with
    | nil => rfl
    | cons r rs =>
      unfold localToRemoteFrom commonStart
      rw [zip_cons_cons, takeWhile_cons]
      cases f.equals r with
      | true => exact congrArg (-2 :: ·) (ih rs)
      | false => rfl

variable {k : Nat}

theorem equals_of_lt_commonStart {ls rs : List PdxFieldType} (hk : k < commonStart ls rs) :
    ∃ f r, ls[k]? = some f ∧ rs[k]? = some r ∧ f.equals r = true := by
  have hpre := takeWhile_prefix (l := ls.zip rs) fun p => p.1.equals p.2
  have hzip := Nat.lt_of_lt_of_le hk hpre.length_le
  have hequals := mem_takeWhile_imp (getElem_mem hk)
  rw [hpre.getElem hk, getElem_zip] at hequals
  rw [length_zip] at hzip
  exact ⟨_, _, getElem?_eq_getElem (by omega), getElem?_eq_getElem (by omega), hequals⟩

/-- The fields are numbered by their places. -/
def Sequenced (fields : List PdxFieldType) : Prop :=
  ∀ (i : Nat) (f : PdxFieldType), fields[i]? = some f → f.sequenceId = i

variable {rs : List PdxFieldType} {fs : List PdxFieldType}

/-- The entry of the local-to-remote map for a field behind the common start. -/
def choiceOf (rs : List PdxFieldType) (f : PdxFieldType) : Int :=
  match placeIn rs f with
  | some i => ((i % 256 : Nat) : Int)
  | none => -1

/-- The map has the number of the field in eight bits. -/
theorem localToRemote_eq (hrs : Sequenced rs) (f : PdxFieldType) :
    localToRemote rs f = choiceOf rs f := by
  unfold localToRemote choiceOf placeIn
  rw [find?_eq_bind_findIdx?_getElem?]
  cases hplace : rs.findIdx? (f.equals ·) with
  | none => rfl
  | some i =>
    obtain ⟨hi, -, -⟩ := findIdx?_eq_some_iff_getElem.mp hplace
    rw [Option.bind_some, getElem?_eq_getElem hi]
    show ((rs[i].sequenceId % 256 : Nat) : Int) = _
    rw [hrs i rs[i] (getElem?_eq_getElem hi)]

variable {t : PdxType}

theorem sequenced_addField (ht : Sequenced t.pdxFieldTypes) (add : AddField) :
    Sequenced (add.step t).pdxFieldTypes := by
  -- a new field has the number of the fields before it
  have hpush : ∀ f : PdxFieldType, f.sequenceId = t.pdxFieldTypes.length →
      Sequenced (t.pdxFieldTypes ++ [f]) := by
    intro f hf i g hg
    rcases getElem?_concat_eq_some.mp hg with hold | ⟨rfl, rfl⟩
    · exact ht i g hold
    · exact hf
  rcases addField_cases t add with hsame | ⟨name, className, typeId, -,
    ⟨size, -, hstep⟩ | ⟨idx, -, -, hstep⟩⟩
  · rwa [hsame]
  · rw [hstep]
    exact hpush _ rfl
  · rw [hstep]
    exact hpush _ rfl

theorem sequenced_run (ht : Sequenced t.pdxFieldTypes) (adds : List AddField) :
    Sequenced (run AddField.step t adds).pdxFieldTypes :=
  run_keeps (I := fun t : PdxType => Sequenced t.pdxFieldTypes)
    (fun _ add h => sequenced_addField h add) ht

theorem placeIn_congr {rs rs' : List PdxFieldType} (h : rs.map fieldKey = rs'.map fieldKey)
    (f : PdxFieldType) : placeIn rs f = placeIn rs' f := by
  have hmap : ∀ rs : List PdxFieldType, placeIn rs f = (rs.map fieldKey).findIdx? fun key =>
      decide (key.1 = f.fieldName ∧ key.2.1 = f.typeId) := by
    intro rs
    rw [findIdx?_map]
    rfl
  rw [hmap, hmap, h]

/-! ### One read -/

/-- What the reads leave in an array variable, or return, for a field that the remote type lacks. -/
def PdxRead.null {Obj : Type} : PdxRead → PdxValue Obj
  | char => .char 0
  | wideChar => .wideChar 0
  | boolean => .boolean false
  | byte => .byte 0
  | short => .short 0
  | int => .int 0
  | long => .long 0
  | float => .float 0
  | double => .double 0
  | date => .date none
  | string => .string (some [])
  | wideString => .wideString (some [])
  | object => .object none
  | objectArray => .objectArray none
  | charArray length => .charArray (none, length)
  | wideCharArray length => .wideCharArray (none, length)
  | booleanArray length => .booleanArray (none, length)
  | byteArray length => .byteArray (none, length)
  | shortArray length => .shortArray (none, length)
  | intArray length => .intArray (none, length)
  | longArray length => .longArray (none, length)
  | floatArray length => .floatArray (none, length)
  | doubleArray length => .doubleArray (none, length)
  | stringArray length => .stringArray (none, length)
  | wideStringArray length => .wideStringArray (none, length)
  | arrayOfByteArrays length => .arrayOfByteArrays (none, length)

/-- The reads that test the position for -1. -/
def PdxRead.testsPosition : PdxRead → Bool
  | char | wideChar | date | objectArray | charArray _ | wideCharArray _ | booleanArray _
  | arrayOfByteArrays _ => false
  | _ => true

section
variable {Obj : Type} (r : PdxRemoteReader)

theorem readChoice_map {α β : Type} (testPosition : Bool) (p : Read α) (null : α) (choice : Int)
    (f : α → β) : f <$> r.readChoice testPosition p null choice =
      r.readChoice testPosition (f <$> p) (f null) choice := by
  unfold readChoice
  by_cases hcommon : choice = -2
  · rw [if_pos hcommon, if_pos hcommon]
  · rw [if_neg hcommon, if_neg hcommon]
    by_cases habsent : choice = -1
    · rw [if_pos habsent, if_pos habsent, map_pure]
    · rw [if_neg habsent, if_neg habsent, map_bind]
      congr 1
      funext s
      cases r.getFieldPosition s.buffer choice.toNat with
      | none => rfl
      | some position =>
        dsimp only
        split
        · rw [map_pure]
        · simp only [map_bind, bind_map_left, map_pure]

theorem readWith_map {α : Type} (testPosition : Bool) (p : Read α) (null : α)
    (f : α → PdxValue Obj) : PdxRead.wrap f <$> r.readWith testPosition p null =
      r.readWith testPosition (f <$> p) (f null) := by
  unfold readWith
  split
  · rfl
  · rw [map_bind, ← readChoice_map]
    simp only [map_pure, bind_map_left]
    rfl

/-- All reads are one function, with the read of `PdxLocalReader` and the value for an absent
field. -/
theorem remoteRead_eq (others : Byte → Read Obj) (fieldName : Option String) (c : PdxRead) :
    c.remoteRead others fieldName r =
      r.readWith c.testsPosition (c.localRead others fieldName) c.null := by
  cases c <;> exact readWith_map r _ _ _ _

end

section
variable {α : Type} {r : PdxRemoteReader} {testPosition : Bool} {p : Read α} {null v : α}
  {buf : List Byte} {pos pos' : Int} {i position : Nat}
  (hposition : r.getFieldPosition buf i = some (position : Int))
include hposition

/-- A field that the remote type has is read at its position behind the head. -/
theorem readChoice_at :
    r.readChoice testPosition p null i ⟨buf, pos⟩ =
      (do
        let retVal ← p
        r.resettoPdxHead
        return retVal : Read α) ⟨buf, r.startPosition + position⟩ := by
  have hget : (get : Read DataInput) ⟨buf, pos⟩ = .ok ⟨buf, pos⟩ ⟨buf, pos⟩ := rfl
  rw [readChoice, if_neg (by omega), if_neg (by omega), bind_ok hget]
  simp only [Int.toNat_natCast, hposition]
  rw [if_neg (by omega)]
  have hadvance : DataInput.advanceCursor position ⟨buf, r.startPosition⟩ =
      .ok () ⟨buf, r.startPosition + position⟩ := rfl
  rw [bind_ok (PdxLocalReader.resettoPdxHead_eq _ buf pos), bind_ok hadvance]

end

/-! ### A stream of another version -/

theorem commonStart_congr (ls : List PdxFieldType) {rs rs' : List PdxFieldType}
    (h : rs.map fieldKey = rs'.map fieldKey) : commonStart ls rs = commonStart ls rs' := by
  have hmap : ∀ rs, commonStart ls rs = ((ls.zip (rs.map fieldKey)).takeWhile fun p =>
      decide (p.2.1 = p.1.fieldName ∧ p.2.2.1 = p.1.typeId)).length := by
    intro rs
    rw [zip_map_right, takeWhile_map, length_map]
    rfl
  rw [hmap, hmap, h]

/-- The field is one of the first 256 fields of the remote type, if it is there. -/
def NearIn (R : PdxType) (f : PdxFieldType) : Prop :=
  ∀ i, placeIn R.pdxFieldTypes f = some i → i < 256

/-- A stream with the contents `l` of the type `R`, which was initialised against the local type
`L`. -/
structure RemoteStream (L R : PdxType) (l : Contents) : Prop where
  wellFormed : WellFormed R
  positioned : Positioned R.pdxFieldTypes
  names : UniqueNames R.pdxFieldTypes
  map : R.localToRemoteFieldMap =
    some (replicate (commonStart L.pdxFieldTypes R.pdxFieldTypes) (-2) ++
      (L.pdxFieldTypes.drop (commonStart L.pdxFieldTypes R.pdxFieldTypes)).map
        (choiceOf R.pdxFieldTypes))
  contents : ContentsOf R.pdxFieldTypes l
  length : streamLength l < 2 ^ 31

/-- A field of the local type with the read that is made for it, and with the value that should be
obtained. -/
structure FieldRead (Obj : Type) where
  field : PdxFieldType
  call : PdxRead
  value : PdxValue Obj

namespace FieldRead

variable {Obj : Type} (others : Byte → Read Obj)

/-- The call, with the name of the field. -/
def named (e : FieldRead Obj) : Option String × PdxRead := (some e.field.fieldName, e.call)

/-- The value is the one that the field holds in the contents of the stream: what the read makes of
the bytes of the field. For a field that is not there it is the value for an absent field. -/
def Expected (l : Contents) (e : FieldRead Obj) : Prop :=
  match l.find? fun a => e.field.equals a.1 with
  | some a => Reads (e.call.localRead others (some e.field.fieldName)) a.2 e.value
  | none => e.value = e.call.null

variable {others} {l : Contents} {e : FieldRead Obj}

theorem find_eq (l : Contents) (e : FieldRead Obj) :
    l.find? (fun a => e.field.equals a.1) =
      (placeIn (l.map fst) e.field).bind fun i => l[i]? := by
  rw [find?_eq_bind_findIdx?_getElem?, placeIn, findIdx?_map]
  rfl

theorem expected_iff_of_found {i : Nat} (hi : placeIn (l.map fst) e.field = some i)
    {a : PdxFieldType × List Byte} (ha : l[i]? = some a) :
    e.Expected others l ↔ Reads (e.call.localRead others (some e.field.fieldName)) a.2 e.value := by
  unfold Expected
  rw [find_eq, hi, Option.bind_some, ha]

theorem expected_iff_of_absent (hi : placeIn (l.map fst) e.field = none) :
    e.Expected others l ↔ e.value = e.call.null := by
  unfold Expected
  rw [find_eq, hi]
  rfl

theorem Expected.found (he : e.Expected others l) {i : Nat}
    (hi : placeIn (l.map fst) e.field = some i) :
    ∃ hlt : i < l.length,
      Reads (e.call.localRead others (some e.field.fieldName)) l[i].2 e.value := by
  obtain ⟨hlt, -⟩ := findIdx?_eq_some_iff_getElem.mp hi
  rw [length_map] at hlt
  exact ⟨hlt, (expected_iff_of_found hi (getElem?_eq_getElem hlt)).mp he⟩

end FieldRead

theorem UniqueNames.index_eq (hfs : UniqueNames fs) {f g : PdxFieldType} {j k : Nat}
    (hf : fs[j]? = some f) (hg : fs[k]? = some g) (hname : f.fieldName = g.fieldName) : j = k := by
  have hj : j < (fs.map PdxFieldType.fieldName).length := by
    rw [length_map]
    exact (List.getElem?_eq_some_iff.mp hf).1
  refine (getElem?_inj hj hfs).mp ?_
  rw [getElem?_map, getElem?_map, hf, hg, Option.map_some, Option.map_some, hname]

/-- The names are unique, so the first field that agrees is the only one. -/
theorem placeIn_eq_of_equals (hrs : UniqueNames rs) {f r : PdxFieldType} (hk : rs[k]? = some r)
    (hequals : f.equals r = true) : placeIn rs f = some k := by
  obtain ⟨hlt, hget⟩ := List.getElem?_eq_some_iff.mp hk
  rw [placeIn, findIdx?_eq_some_iff_getElem]
  refine ⟨hlt, by rwa [hget], ?_⟩
  intro j hj hother
  rw [equals_iff] at hequals hother
  have hsame : rs[j].fieldName = rs[k].fieldName := by
    rw [hget]
    exact congrArg fst (hother.symm.trans hequals)
  exact Nat.ne_of_lt hj (hrs.index_eq (getElem?_eq_getElem (hj.trans hlt))
    (getElem?_eq_getElem hlt) hsame)

variable {f : PdxFieldType}

section
variable {Obj : Type} {others : Byte → Read Obj} {L R : PdxType} {l : Contents}
  (h : RemoteStream L R l) (front back : List Byte)
include h

/-- The reader of the stream, before the read number `k`. -/
def readerAt (R : PdxType) (l : Contents) (front back : List Byte) (k : Nat) : PdxRemoteReader where
  toPdxLocalReader :=
    PdxLocalReader.new ⟨front ++ stream l ++ back, front.length⟩ R (streamLength l)
  currentIndex := k

/-- Where the cursor is before the read number `k`: behind the fields that were read, as long as
these are fields of the common start. -/
def CursorAt (L R : PdxType) (l : Contents) (front : List Byte) (k : Nat) (pos : Int) : Prop :=
  k ≤ commonStart L.pdxFieldTypes R.pdxFieldTypes →
    pos = front.length + start (l.map snd) k

omit h in
theorem cursorAt_zero (L R : PdxType) (l : Contents) (front : List Byte) :
    CursorAt L R l front 0 front.length := by
  intro _
  simp [start]

omit h in
theorem readWith_of_choice {α : Type} {r : PdxRemoteReader} {testPosition : Bool} {p : Read α}
    {null v : α} {choice : Int} {s s' : DataInput}
    (hchoice : (r.pdxType.localToRemoteFieldMap.getD [])[r.currentIndex]? = some choice)
    (hread : r.readChoice testPosition p null choice s = .ok v s') :
    r.readWith testPosition p null s =
      .ok (v, { r with currentIndex := r.currentIndex + 1 }) s' := by
  rw [readWith, hchoice]
  exact bind_ok hread

theorem choice_behind (hk : commonStart L.pdxFieldTypes R.pdxFieldTypes ≤ k)
    (hf : L.pdxFieldTypes[k]? = some f) :
    (R.localToRemoteFieldMap.getD [])[k]? = some (choiceOf R.pdxFieldTypes f) := by
  rw [h.map, Option.getD_some, getElem?_append_right (by rwa [length_replicate]),
    length_replicate, getElem?_map, getElem?_drop, Nat.add_sub_cancel' hk, hf,
    Option.map_some]

/-- One read: the value is the expected one, and the cursor is where the next read takes it. -/
theorem remoteRead_step {e : FieldRead Obj} (hk : L.pdxFieldTypes[k]? = some e.field)
    (he : e.Expected others l)
    (hnear : commonStart L.pdxFieldTypes R.pdxFieldTypes ≤ k → NearIn R e.field) {pos : Int}
    (hpos : CursorAt L R l front k pos) :
    ∃ pos', e.call.remoteRead others (some e.field.fieldName) (readerAt R l front back k)
          ⟨front ++ stream l ++ back, pos⟩ =
        .ok (e.value, readerAt R l front back (k + 1)) ⟨front ++ stream l ++ back, pos'⟩ ∧
      CursorAt L R l front (k + 1) pos' := by
  rw [remoteRead_eq]
  by_cases hcommon : k < commonStart L.pdxFieldTypes R.pdxFieldTypes
  · -- the field starts at the cursor, and the next one behind it
    obtain ⟨f, r, hf, hr, hequals⟩ := equals_of_lt_commonStart hcommon
    have hfield : f = e.field := Option.some.inj (hf.symm.trans hk)
    rw [hfield] at hequals
    have hplace := placeIn_eq_of_equals h.names hr hequals
    rw [← h.contents.fields_eq] at hplace
    obtain ⟨hlt, hreads⟩ := he.found hplace
    have hread := reads_field l hlt hreads front back
    have hchoice : (R.localToRemoteFieldMap.getD [])[k]? = some (-2) := by
      rw [h.map, Option.getD_some, getElem?_append_left (by rwa [length_replicate]),
        getElem?_replicate_of_lt hcommon]
    refine ⟨_, readWith_of_choice hchoice ?_, fun _ => rfl⟩
    rw [readChoice, hpos (Nat.le_of_lt hcommon)]
    exact hread
  · have hbehind := Nat.le_of_not_lt hcommon
    have hchoice := choice_behind h hbehind hk
    cases hplace : placeIn R.pdxFieldTypes e.field with
    | none =>
      rw [choiceOf, hplace] at hchoice
      rw [← h.contents.fields_eq] at hplace
      refine ⟨pos, readWith_of_choice hchoice ?_, fun hle => absurd hle (by omega)⟩
      rw [readChoice, if_pos rfl, (FieldRead.expected_iff_of_absent hplace).mp he]
      rfl
    | some i =>
      have hsmall := hnear hbehind i hplace
      rw [choiceOf, hplace] at hchoice
      dsimp only at hchoice
      rw [Nat.mod_eq_of_lt hsmall] at hchoice
      rw [← h.contents.fields_eq] at hplace
      obtain ⟨hlt, hreads⟩ := he.found hplace
      have hread := reads_field l hlt hreads front back
      have hposition := getFieldPosition_stream h.positioned h.wellFormed h.contents h.length front
        back hlt
      refine ⟨front.length, readWith_of_choice hchoice ?_, fun hle => absurd hle (by omega)⟩
      -- the cursor goes back to the head
      rw [readChoice_at hposition]
      exact (bind_ok hread).trans (bind_ok (PdxLocalReader.resettoPdxHead_eq ..))

/-- The reads for the next fields, each of which is near, whatever is read behind them. -/
theorem fromData_append (es : List (FieldRead Obj)) (k : Nat)
    (hfields : es.map FieldRead.field <+: L.pdxFieldTypes.drop k)
    (hexpected : ∀ e ∈ es, e.Expected others l)
    (hnear : ∀ e ∈ es.drop (commonStart L.pdxFieldTypes R.pdxFieldTypes - k), NearIn R e.field)
    {pos : Int} (hpos : CursorAt L R l front k pos) :
    ∃ pos', ∀ rest, (readerAt R l front back k).fromData others (es.map FieldRead.named ++ rest)
          ⟨front ++ stream l ++ back, pos⟩ =
        (do
          let values ← (readerAt R l front back (k + es.length)).fromData others rest
          return es.map FieldRead.value ++ values : Read (List (PdxValue Obj)))
          ⟨front ++ stream l ++ back, pos'⟩ := by
  induction es generalizing k pos with
  | nil =>
    refine ⟨pos, ?_⟩
    intro rest
    simp only [map_nil, nil_append, length_nil, Nat.add_zero, bind_pure]
  | cons e es ih =>
    obtain ⟨more, hmore⟩ := hfields
    have hhead : L.pdxFieldTypes[k]? = some e.field := by
      rw [← head?_drop, ← hmore]
      rfl
    have htail : L.pdxFieldTypes.drop (k + 1) = es.map FieldRead.field ++ more := by
      rw [← tail_drop, ← hmore]
      rfl
    obtain ⟨pos₁, hstep, hpos₁⟩ := remoteRead_step h front back hhead
      (hexpected e mem_cons_self)
      (fun hle => hnear e (by rw [Nat.sub_eq_zero_of_le hle]; exact mem_cons_self)) hpos
    obtain ⟨pos', hrest⟩ := ih (k + 1) ⟨more, htail.symm⟩
      (fun e' he' => hexpected e' (mem_cons_of_mem e he'))
      (fun e' he' => hnear e' (by
        -- behind the common start every read is near, before it the counts move along
        rw [Nat.sub_add_eq] at he'
        cases hleft : commonStart L.pdxFieldTypes R.pdxFieldTypes - k with
        | zero => exact mem_cons_of_mem e (by simpa [hleft] using he')
        | succ n => simpa [hleft] using he')) hpos₁
    refine ⟨pos', ?_⟩
    intro rest
    have hlater := hrest rest
    rw [Nat.add_right_comm] at hlater
    rw [map_cons, cons_append, FieldRead.named, fromData, bind_ok hstep]
    dsimp only
    rw [bind_eq_of_eq hlater]
    simp only [bind_assoc, pure_bind, map_cons, cons_append]
    rfl

end

/-! ### Remote types -/

/-- A type that comes from elsewhere: its fields are numbered by their places, have unique names,
and have the kinds and sizes of their type ids. -/
structure RemoteType (r : PdxType) : Prop where
  wellFormed : WellFormed r
  names : UniqueNames r.pdxFieldTypes
  sequenced : Sequenced r.pdxFieldTypes
  standard : ∀ f ∈ r.pdxFieldTypes, f.Standard

/-- Every type that is built by adding fields is so. -/
theorem remoteType_run (className : String) (isLocal : Bool) (adds : List AddField)
    (hadds : ∀ add ∈ adds, add.Standard) :
    RemoteType (run AddField.step (PdxType.new className isLocal) adds) := by
  have hbuilt := built_run className isLocal adds fun add hadd => (hadds add hadd).positiveSize
  exact ⟨hbuilt.wellFormed, hbuilt.nodup, sequenced_run (by simp [PdxType.new, Sequenced]) adds,
    (labelled_run className isLocal adds hadds).standard⟩

/-- Such a type after `InitializeType`, with contents for its fields. -/
theorem RemoteType.remoteStream {r : PdxType} (hr : RemoteType r) (L : PdxType) {l : Contents}
    (hl : ContentsOf (r.initializeType (some L)).pdxFieldTypes l)
    (hlen : streamLength l < 2 ^ 31) : RemoteStream L (r.initializeType (some L)) l := by
  have hkeys := map_initializeType r (some L) fieldKey fun _ => rfl
  refine ⟨wellFormed_initializeType hr.wellFormed (some L), positioned_initializeType r (some L),
    hr.names.congr hkeys.symm, ?_, hl, hlen⟩
  show some (localToRemoteFrom r.pdxFieldTypes L.pdxFieldTypes r.pdxFieldTypes) = _
  rw [localToRemoteFrom_eq, commonStart_congr L.pdxFieldTypes hkeys]
  congr 2
  apply map_congr_left
  intro f _
  rw [localToRemote_eq hr.sequenced, choiceOf, choiceOf, placeIn_congr hkeys]

/-! ### Reading all fields -/

/-- Every field behind the common start that the remote type has is one of its first 256 fields. -/
def Near (L R : PdxType) : Prop :=
  ∀ f ∈ L.pdxFieldTypes.drop (commonStart L.pdxFieldTypes R.pdxFieldTypes),
    ∀ i, placeIn R.pdxFieldTypes f = some i → i < 256

/-- The reads of all fields of the local type, in order, obtain from every stream of the remote type
the values that its fields hold. -/
def ObtainsAll {Obj : Type} (others : Byte → Read Obj) (L R : PdxType) (calls : List PdxRead) :
    Prop :=
  ∀ l : Contents, ContentsOf R.pdxFieldTypes l → streamLength l < 2 ^ 31 →
    ∀ es : List (FieldRead Obj), es.map FieldRead.field = L.pdxFieldTypes →
      es.map FieldRead.call = calls → (∀ e ∈ es, e.Expected others l) →
        ∀ front back : List Byte, ∃ s,
          (new ⟨front ++ stream l ++ back, front.length⟩ R
              (stream l).length).fromData others (es.map FieldRead.named)
            ⟨front ++ stream l ++ back, front.length⟩ = .ok (es.map FieldRead.value) s

section
variable {Obj : Type} {others : Byte → Read Obj} {L r : PdxType} (hr : RemoteType r)
include hr

theorem obtainsAll_of_near (hnear : Near L (r.initializeType (some L))) (calls : List PdxRead) :
    ObtainsAll others L (r.initializeType (some L)) calls := by
  intro l hl hlen es hfields _ hexpected front back
  have hstream := hr.remoteStream L hl hlen
  obtain ⟨pos', hrun⟩ := fromData_append hstream front back es 0
    (by rw [hfields, drop_zero]) hexpected
    (fun e he => hnear e.field (by
      have hmem := mem_map_of_mem (f := FieldRead.field) he
      rwa [map_drop, hfields] at hmem)) (cursorAt_zero _ _ _ _)
  have hall := hrun []
  rw [append_nil] at hall
  refine ⟨⟨front ++ stream l ++ back, pos'⟩, ?_⟩
  rw [length_stream]
  refine hall.trans ?_
  show EStateM.Result.ok (es.map FieldRead.value ++ []) _ = _
  rw [append_nil]

end

/-! ### A stream that is misread

The fields of this stream are blank but for one, which is behind the first 256 fields. It is read
from the field whose number is the same up to a multiple of 256, and has a value that is not there.
-/

/-- The type of a field. -/
def PdxFieldType.type (f : PdxFieldType) : PdxFieldTypes :=
  (PdxFieldTypes.ofTypeId f.typeId).getD .byte

/-- The bytes of the fields: those given for field `i`, and blank bytes for all others. -/
def blankExcept (rs : List PdxFieldType) (i : Nat) (bs : List Byte) : List (List Byte) :=
  (rs.map fun f => f.type.blank).set i bs

theorem length_blankExcept (rs : List PdxFieldType) (i : Nat) (bs : List Byte) :
    (blankExcept rs i bs).length = rs.length := by
  rw [blankExcept, length_set, length_map]

theorem map_fst_blankExcept (rs : List PdxFieldType) (i : Nat) (bs : List Byte) :
    (rs.zip (blankExcept rs i bs)).map fst = rs :=
  map_fst_zip (length_blankExcept rs i bs).ge

section
variable {rs : List PdxFieldType} {i : Nat} {bs : List Byte}

theorem contentsOf_blankExcept (hrs : ∀ f ∈ rs, f.Standard) (hi : i < rs.length)
    (hbs : ∀ n, rs[i].type.width = some n → bs.length = n) :
    ContentsOf rs (rs.zip (blankExcept rs i bs)) := by
  have hlength := length_blankExcept rs i bs
  refine ⟨map_fst_blankExcept rs i bs, ?_⟩
  intro a ha hfixed
  obtain ⟨m, hm, hget⟩ := mem_iff_getElem.mp ha
  rw [length_zip, hlength, Nat.min_self] at hm
  rw [getElem_zip] at hget
  obtain ⟨ty, htype, hkind, hsize⟩ := hrs rs[m] (getElem_mem hm)
  have hty : rs[m].type = ty := by rw [PdxFieldType.type, htype, Option.getD_some]
  rw [← hget] at hfixed ⊢
  rw [hkind] at hfixed
  obtain ⟨n, hwidth⟩ := Option.isSome_iff_exists.mp (by simpa using hfixed)
  rw [hsize n hwidth]
  by_cases hmi : m = i
  · have hgiven : (blankExcept rs i bs)[m] = bs := by simp [blankExcept, hmi]
    rw [hgiven]
    exact_mod_cast hbs n (by simp only [← hmi, hty, hwidth])
  · have hblank : (blankExcept rs i bs)[m] = rs[m].type.blank := by
      simp [blankExcept, getElem_set_ne (Ne.symm hmi)]
    rw [hblank, PdxFieldTypes.length_blank, hty, hwidth, Option.getD_some]

theorem length_blank_bounds (ty : PdxFieldTypes) : 1 ≤ ty.blank.length ∧ ty.blank.length ≤ 8 := by
  cases ty <;> decide

theorem flatten_blankExcept (hi : i < rs.length) :
    (blankExcept rs i bs).flatten = ((rs.map fun f => f.type.blank).take i).flatten ++
      (bs ++ ((rs.map fun f => f.type.blank).drop (i + 1)).flatten) := by
  rw [blankExcept, set_eq_take_append_cons_drop, if_pos (by rwa [length_map]),
    flatten_append, flatten_cons]

/-- Types of up to 2^24 fields have such streams. -/
theorem streamLength_blankExcept (hi : i < rs.length) (hcount : rs.length ≤ 2 ^ 24)
    (hbs : bs.length ≤ 2 ^ 16) : streamLength (rs.zip (blankExcept rs i bs)) < 2 ^ 31 := by
  have hlength := length_blankExcept rs i bs
  have hblank : ∀ c ∈ rs.map fun f => f.type.blank, c.length ≤ 8 := by
    intro c hc
    obtain ⟨f, -, rfl⟩ := mem_map.mp hc
    exact (length_blank_bounds f.type).2
  have hbefore := length_flatten_le fun c hc => hblank c (mem_of_mem_take (i := i) hc)
  have hbehind := length_flatten_le fun c hc => hblank c (mem_of_mem_drop (i := i + 1) hc)
  rw [length_take, length_map] at hbefore
  rw [length_drop, length_map] at hbehind
  have hoffsets : (tableOffsets (rs.zip (blankExcept rs i bs))).length ≤ rs.length := by
    rw [tableOffsets, length_reverse, length_drop, length_varStarts]
    refine Nat.le_trans (Nat.sub_le _ _) (Nat.le_trans (length_filter_le _ _) ?_)
    rw [map_fst_blankExcept]
  have hstream : streamLength (rs.zip (blankExcept rs i bs)) ≤
      (dataOf (rs.zip (blankExcept rs i bs))).length +
        (tableOffsets (rs.zip (blankExcept rs i bs))).length * 4 := by
    unfold streamLength lenWithOffsets
    split
    · omega
    · split <;> omega
  rw [dataOf, map_snd_zip (Nat.le_of_eq hlength), flatten_blankExcept hi, length_append,
    length_append] at hstream
  omega

/-- What lies between the start of a field and field `i`, behind the first of these fields. -/
def blanksBetween (rs : List PdxFieldType) (j i : Nat) : List Byte :=
  (((rs.map fun f => f.type.blank).drop (j + 1)).take (i - j - 1)).flatten

theorem blankExcept_split {j : Nat} (hj : j < i) (hi : i < rs.length) :
    ∃ rest, (blankExcept rs i bs).flatten = ((blankExcept rs i bs).take j).flatten ++
      (rs[j].type.blank ++ blanksBetween rs j i) ++ rest := by
  have hlength : i < (rs.map fun f => f.type.blank).length := by rwa [length_map]
  have hdrop : (blankExcept rs i bs).drop j = (rs[j].type.blank ::
      ((rs.map fun f => f.type.blank).drop (j + 1)).take (i - j - 1)) ++
        bs :: (rs.map fun f => f.type.blank).drop (i + 1) := by
    rw [blankExcept, set_eq_take_append_cons_drop, if_pos hlength,
      drop_append_of_le_length (by rw [length_take]; omega), drop_take,
      drop_eq_getElem_cons (by omega), getElem_map,
      show i - j = (i - j - 1) + 1 by omega, take_succ_cons, Nat.add_sub_cancel]
  refine ⟨bs ++ ((rs.map fun f => f.type.blank).drop (i + 1)).flatten, ?_⟩
  conv_lhs => rw [← take_append_drop j (blankExcept rs i bs), flatten_append, hdrop]
  simp [blanksBetween]

theorem le_length_blanks {j : Nat} (hj : j < i) (hi : i < rs.length) :
    i - j ≤ (rs[j].type.blank ++ blanksBetween rs j i).length := by
  have hpos : ∀ c ∈ ((rs.map fun f => f.type.blank).drop (j + 1)).take (i - j - 1),
      id c ≠ [] := by
    intro c hc
    obtain ⟨f, -, rfl⟩ := mem_map.mp (mem_of_mem_drop (mem_of_mem_take hc))
    exact length_pos_iff.mp (length_blank_bounds f.type).1
  have hcount := length_le_flatMap hpos
  rw [flatMap_id, length_take, length_drop, length_map] at hcount
  have hhead := (length_blank_bounds rs[j].type).1
  rw [length_append, blanksBetween]
  omega

end

variable {calls : List PdxRead} {Obj : Type}

theorem exists_entries {P : FieldRead Obj → Prop} (hlength : fs.length = calls.length)
    (h : ∀ (k : Nat) f c, fs[k]? = some f → calls[k]? = some c → ∃ v, P ⟨f, c, v⟩) :
    ∃ es : List (FieldRead Obj), es.map FieldRead.field = fs ∧ es.map FieldRead.call = calls ∧
      ∀ e ∈ es, P e := by
  induction fs generalizing calls with
  | nil =>
    have hnil : calls = [] := eq_nil_of_length_eq_zero hlength.symm
    exact ⟨[], rfl, hnil.symm, fun e he => nomatch he⟩
  | cons f fs ih =>
    cases calls with
    | nil => cases hlength
    | cons c calls =>
      obtain ⟨v, hv⟩ := h 0 f c rfl rfl
      obtain ⟨es, hfields, hcalls, hes⟩ := ih (Nat.succ.inj hlength)
        fun k f' c' hf' hc' => h (k + 1) f' c' hf' hc'
      refine ⟨⟨f, c, v⟩ :: es, by rw [map_cons, hfields], by rw [map_cons, hcalls], ?_⟩
      intro e he
      cases mem_cons.mp he with
      | inl heq => exact heq ▸ hv
      | inr hmem => exact hes e hmem

/-- The value of a field behind the common start is read at the field with its number, which has 8
bits. -/
theorem fromData_behind {others : Byte → Read Obj} {L R : PdxType} {l : Contents}
    (h : RemoteStream L R l) (front back : List Byte) {es : List (FieldRead Obj)}
    {e : FieldRead Obj} {after : List PdxFieldType}
    (hfields : L.pdxFieldTypes = es.map FieldRead.field ++ e.field :: after)
    (hexpected : ∀ e ∈ es, e.Expected others l)
    (hnear : ∀ e ∈ es.drop (commonStart L.pdxFieldTypes R.pdxFieldTypes), NearIn R e.field)
    (hbehind : commonStart L.pdxFieldTypes R.pdxFieldTypes ≤ es.length) {i : Nat}
    (hplace : placeIn R.pdxFieldTypes e.field = some i) {rest : List (Option String × PdxRead)}
    {v : PdxValue Obj} {vs : List (PdxValue Obj)} {s : DataInput}
    (hrun : (readerAt R l front back 0).fromData others (es.map FieldRead.named ++ e.named :: rest)
        ⟨front ++ stream l ++ back, front.length⟩ = .ok (es.map FieldRead.value ++ v :: vs) s) :
    ∃ s', e.call.localRead others (some e.field.fieldName)
      ⟨front ++ stream l ++ back, front.length + start (l.map snd) (i % 256)⟩ = .ok v s' := by
  have hfield : L.pdxFieldTypes[es.length]? = some e.field := by
    rw [hfields, getElem?_append_right (by rw [length_map]), length_map, Nat.sub_self]
    rfl
  obtain ⟨pos, hfront⟩ := fromData_append h front back es 0
    ⟨e.field :: after, by rw [hfields, drop_zero]⟩ hexpected hnear (cursorAt_zero L R l front)
  rw [hfront, Nat.zero_add] at hrun
  obtain ⟨values, s₁, hvalues, hpure⟩ := bind_eq_ok hrun
  -- the values behind the first reads
  have htail : values = v :: vs :=
    append_cancel_left (EStateM.Result.ok.inj hpure).1
  rw [htail, fromData] at hvalues
  obtain ⟨⟨v', r'⟩, s₂, hread, hlater⟩ := bind_eq_ok hvalues
  obtain ⟨values', s₃, -, hpure'⟩ := bind_eq_ok hlater
  have hv : v' = v := (cons.inj (EStateM.Result.ok.inj hpure').1).1
  have hchoice := choice_behind h hbehind hfield
  rw [choiceOf, hplace] at hchoice
  rw [remoteRead_eq, readWith,
    show (((readerAt R l front back es.length).pdxType.localToRemoteFieldMap.getD [])[
      (readerAt R l front back es.length).currentIndex]?) = _ from hchoice] at hread
  obtain ⟨v'', s₄, hat, hpure''⟩ := bind_eq_ok hread
  have hv' : v'' = v' := congrArg fst (EStateM.Result.ok.inj hpure'').1
  have hlt : i % 256 < l.length := by
    obtain ⟨hi, -⟩ := findIdx?_eq_some_iff_getElem.mp hplace
    rw [← h.contents.fields_eq, length_map] at hi
    exact Nat.lt_of_le_of_lt (Nat.mod_le i 256) hi
  have hposition := getFieldPosition_stream h.positioned h.wellFormed h.contents h.length front
    back hlt
  -- a read at a position that returns has read there
  rw [hv', hv, readChoice_at hposition] at hat
  obtain ⟨v', s₁, hread, hback⟩ := bind_eq_ok hat
  obtain ⟨_, s₂, -, hpure⟩ := bind_eq_ok hback
  cases hpure
  exact ⟨s₁, hread⟩

theorem exists_first_not {α : Type} {p : α → Prop} {l : List α} {n : Nat}
    (h : ¬∀ a ∈ l.drop n, p a) :
    ∃ before a after, l = before ++ a :: after ∧ n ≤ before.length ∧
      (∀ b ∈ before.drop n, p b) ∧ ¬p a := by
  classical
  cases hfirst : (l.drop n).find? fun a => ¬p a with
  | none => exact absurd (fun a ha => by simpa using find?_eq_none.mp hfirst a ha) h
  | some a =>
    obtain ⟨ha, between, after, hsplit, hbetween⟩ := find?_eq_some_iff_append.mp hfirst
    have hlength : n ≤ l.length := by
      by_contra hshort
      rw [drop_eq_nil_of_le (by omega)] at hsplit
      simp at hsplit
    have htake := length_take_of_le hlength
    refine ⟨l.take n ++ between, a, after, ?_, ?_, ?_, by simpa using ha⟩
    · rw [append_assoc, ← hsplit, take_append_drop]
    · rw [length_append, htake]
      omega
    · rw [drop_append_of_le_length htake.ge, drop_take_self]
      exact fun b hb => by simpa using hbetween b hb

/-- The reads fit the fields: each is a read for the type of its field. -/
def ReadsFit (fs : List PdxFieldType) (calls : List PdxRead) : Prop :=
  Forall₂ (fun f c => PdxFieldTypes.ofTypeId f.typeId = some c.fieldType) fs calls

theorem ReadsFit.get (h : ReadsFit fs calls) {c : PdxRead} (hf : fs[k]? = some f)
    (hc : calls[k]? = some c) : PdxFieldTypes.ofTypeId f.typeId = some c.fieldType := by
  obtain ⟨hk, rfl⟩ := List.getElem?_eq_some_iff.mp hf
  obtain ⟨hk', rfl⟩ := List.getElem?_eq_some_iff.mp hc
  exact Forall₂.get h hk hk'

theorem ReadsFit.exists_call (h : ReadsFit fs calls) (hf : fs[k]? = some f) :
    ∃ c, calls[k]? = some c ∧ PdxFieldTypes.ofTypeId f.typeId = some c.fieldType := by
  obtain ⟨hk, -⟩ := List.getElem?_eq_some_iff.mp hf
  have hc := getElem?_eq_getElem (Forall₂.length_eq h ▸ hk)
  exact ⟨_, hc, h.get hf hc⟩

theorem type_of_pair {f r : PdxFieldType} (h : nameAndType f = nameAndType r) {ty : PdxFieldTypes}
    (hty : PdxFieldTypes.ofTypeId f.typeId = some ty) : r.type = ty := by
  rw [PdxFieldType.type, show r.typeId = f.typeId from (congrArg snd h).symm, hty,
    Option.getD_some]

/-- Bytes for the field at `i` with a value that is not read from the field with the number of
`i`. -/
theorem exists_misread {others : Byte → Read Obj} (hstandard : ∀ f ∈ rs, f.Standard)
    (hcount : rs.length ≤ 2 ^ 24) {bs₀ : List Byte} {obj : Obj}
    (hobj : Reads (PdxLocalReader.deserialize others) bs₀ (some obj))
    (hsmall : bs₀.length ≤ 2 ^ 16) (name : String) (c : PdxRead) {i : Nat} (hi : i < rs.length)
    (htype : rs[i].type = c.fieldType) (hfar : 256 ≤ i) :
    ∃ bs v, ContentsOf rs (rs.zip (blankExcept rs i bs)) ∧
      streamLength (rs.zip (blankExcept rs i bs)) < 2 ^ 31 ∧
      Reads (c.localRead others (some name)) bs v ∧
      ∀ s, c.localRead others (some name)
        ⟨[] ++ stream (rs.zip (blankExcept rs i bs)) ++ [],
          ([] : List Byte).length +
            start ((rs.zip (blankExcept rs i bs)).map snd) (i % 256)⟩ ≠ .ok v s := by
  have hj : i % 256 < i := by omega
  have hlong := le_length_blanks hj hi
  obtain ⟨bs, v, hreads, hwidth, hbs, hmisses⟩ := exists_misses others name hobj c
    (rs.get ⟨i % 256, hj.trans hi⟩).type (blanksBetween rs (i % 256) i) (by
      have hge : 8 ≤ i - i % 256 := by omega
      exact hge.trans hlong)
  refine ⟨bs, v, contentsOf_blankExcept hstandard hi fun n hn => hwidth n (htype ▸ hn),
    streamLength_blankExcept hi hcount (by omega), hreads, ?_⟩
  intro s
  obtain ⟨rest, hsplit⟩ := @blankExcept_split rs i bs _ hj hi
  rw [stream, dataOf, map_snd_zip (length_blankExcept ..).le, hsplit, start, nil_append, append_nil,
    append_assoc _ rest]
  simpa using hmisses ((blankExcept rs i bs).take (i % 256)).flatten _ s

section
variable {Obj : Type} {others : Byte → Read Obj} {L r : PdxType} {calls : List PdxRead}
  (hr : RemoteType r) (hL : UniqueNames L.pdxFieldTypes) (hcalls : ReadsFit L.pdxFieldTypes calls)
include hL hcalls

/-- Every field of the local type has a value in the stream that is blank but for the field at
`i`. -/
theorem exists_values {k i : Nat} {c : PdxRead} (hf : L.pdxFieldTypes[k]? = some f)
    (hc : calls[k]? = some c) (hplace : placeIn rs f = some i) {bs : List Byte} {v : PdxValue Obj}
    (hbs : Reads (c.localRead others (some f.fieldName)) bs v) :
    ∃ es : List (FieldRead Obj), es.map FieldRead.field = L.pdxFieldTypes ∧
      es.map FieldRead.call = calls ∧
        ∀ e ∈ es, e.Expected others (rs.zip (blankExcept rs i bs)) := by
  have hlength := length_blankExcept rs i bs
  have hfields := map_fst_blankExcept rs i bs
  apply exists_entries (Forall₂.length_eq hcalls)
  intro k' f' c' hf' hc'
  cases hplace' : placeIn rs f' with
  | none =>
    exact ⟨c'.null, (FieldRead.expected_iff_of_absent (by rwa [hfields])).mpr rfl⟩
  | some m =>
    obtain ⟨hm, hequals, -⟩ := findIdx?_eq_some_iff_getElem.mp hplace'
    have hget : (rs.zip (blankExcept rs i bs))[m]? = some (rs[m], (blankExcept rs i bs)[m]) := by
      rw [getElem?_eq_getElem (by rw [length_zip]; omega), getElem_zip]
    rw [equals_iff] at hequals
    by_cases hmi : m = i
    · -- the field at `i` belongs to one field of the local type
      subst hmi
      obtain ⟨_, hequals', -⟩ := findIdx?_eq_some_iff_getElem.mp hplace
      rw [equals_iff] at hequals'
      have hk : k' = k := hL.index_eq hf' hf (congrArg fst (hequals.trans hequals'.symm))
      subst hk
      cases hf.symm.trans hf'
      cases hc.symm.trans hc'
      refine ⟨v, (FieldRead.expected_iff_of_found (by rwa [hfields]) hget).mpr ?_⟩
      simpa [blankExcept] using hbs
    · have hblank : (blankExcept rs i bs)[m] = c'.fieldType.blank := by
        have hty := type_of_pair hequals (hcalls.get hf' hc')
        simp [blankExcept, getElem_set_ne (Ne.symm hmi), hty]
      obtain ⟨v', hv'⟩ := reads_blank others f'.fieldName c'
      exact ⟨v', (FieldRead.expected_iff_of_found (by rwa [hfields]) hget).mpr (by rwa [hblank])⟩

include hr

/-- If every stream is read as it should be, then all fields are near: a field that is not has a
stream in which it is misread. -/
theorem near_of_obtainsAll (hcount : r.pdxFieldTypes.length ≤ 2 ^ 24) {bs₀ : List Byte} {obj : Obj}
    (hobj : Reads (PdxLocalReader.deserialize others) bs₀ (some obj))
    (hsmall : bs₀.length ≤ 2 ^ 16) (h : ObtainsAll others L (r.initializeType (some L)) calls) :
    Near L (r.initializeType (some L)) := by
  have hstandard := forall_initializeType (fun _ => Iff.rfl) hr.standard (some L)
  have hlength := congrArg length (map_initializeType r (some L) fieldKey fun _ => rfl)
  rw [length_map, length_map] at hlength
  rw [← hlength] at hcount
  have hstream := fun l hl hlen => hr.remoteStream (l := l) L hl hlen
  generalize r.initializeType (some L) = R at *
  by_contra hnear
  obtain ⟨before, f, after, hsplit, hbehind, hfirst, hf⟩ := exists_first_not hnear
  push Not at hf
  obtain ⟨i, hplace, hfar⟩ := hf
  obtain ⟨hi, hequals, -⟩ := findIdx?_eq_some_iff_getElem.mp hplace
  rw [equals_iff] at hequals
  have hf : L.pdxFieldTypes[before.length]? = some f := by simp [hsplit]
  obtain ⟨c, hc, hfits⟩ := hcalls.exists_call hf
  obtain ⟨bs, v, hl, hlen, hreads, hmisread⟩ := exists_misread hstandard hcount hobj hsmall
    f.fieldName c hi (type_of_pair hequals hfits) hfar
  obtain ⟨es, hfields, hescalls, hexpected⟩ := exists_values hL hcalls hf hc hplace hreads
  obtain ⟨s, hrun⟩ := h _ hl hlen es hfields hescalls hexpected [] []
  -- the reads before the field, and the read of the field
  obtain ⟨es₁, es', rfl, rfl, hrest⟩ := map_eq_append_iff.mp (hfields.trans hsplit)
  obtain ⟨e, es₂, rfl, rfl, rfl⟩ := map_eq_cons_iff.mp hrest
  have hcall : e.call = c := by simpa [← hescalls] using hc
  -- the value that the read should return
  have hvalue : e.value = v := by
    obtain ⟨hlt, hreads'⟩ := (hexpected e (by simp)).found (hl.fields_eq.symm ▸ hplace)
    have hgiven : (R.pdxFieldTypes.zip (blankExcept R.pdxFieldTypes i bs))[i].2 = bs := by
      simp [blankExcept]
    rw [hcall, hgiven] at hreads'
    exact hreads'.unique hreads
  rw [map_append, map_append, map_cons, map_cons, hvalue, length_stream] at hrun
  rw [length_map] at hbehind
  rw [← map_drop] at hfirst
  obtain ⟨s', hread⟩ := fromData_behind (hstream _ hl hlen) [] [] hsplit
    (fun e he => hexpected e (mem_append_left _ he))
    (fun e he => hfirst _ (mem_map_of_mem he)) hbehind hplace hrun
  rw [hcall] at hread
  exact hmisread s' hread

end

/-! ### The exact condition -/

/-- What a `fromData` obtains. The reads of the fields of `L` obtain the values of the fields of
the stream, and the values for absent fields, if the fields behind the common start are among the
first 256 of the remote type. Otherwise a stream exists where a field is read from another one: the
map has the number of a field in 8 bits. The second part needs that the names of `L` are unique,
that each read is one for the type of its field, and that an object can be read. -/
theorem fromData_obtains_fields {others : Byte → Read Obj} {L r : PdxType} (hr : RemoteType r)
    (calls : List PdxRead) :
    (Near L r → ObtainsAll others L (r.initializeType (some L)) calls) ∧
      (UniqueNames L.pdxFieldTypes → ReadsFit L.pdxFieldTypes calls →
        r.pdxFieldTypes.length ≤ 2 ^ 24 →
        (∃ bs obj, Reads (PdxLocalReader.deserialize others) bs (some obj) ∧ bs.length ≤ 2 ^ 16) →
          ObtainsAll others L (r.initializeType (some L)) calls → Near L r) := by
  -- `InitializeType` does not change which fields agree
  have hkeys := map_initializeType r (some L) fieldKey fun _ => rfl
  have hsame : Near L (r.initializeType (some L)) ↔ Near L r := by
    unfold Near
    rw [commonStart_congr L.pdxFieldTypes hkeys]
    simp only [placeIn_congr hkeys]
  rw [← hsame]
  constructor
  · intro hnear
    exact obtainsAll_of_near hr hnear calls
  · intro hL hcalls hcount hobj h
    obtain ⟨bs, obj, hreads, hsmall⟩ := hobj
    exact near_of_obtainsAll hr hL hcalls hcount hreads hsmall h

/-- A local type with a byte, a string and an integer. -/
def smallLocal : PdxType :=
  run AddField.step (PdxType.new "C" true)
    [.fixedLength (some "b") "" 1 1, .variableLength (some "s") "" 9,
      .fixedLength (some "i") "" 4 4]

/-- A remote type without the integer, with the other two in the other order. -/
def smallRemote : PdxType :=
  run AddField.step (PdxType.new "C" false)
    [.variableLength (some "s") "" 9, .fixedLength (some "b") "" 1 1]

/-- Two versions of a small class, with a registry that reads any object as one value. -/
theorem fromData_obtains_fields_small :
    ObtainsAll (fun _ => return ()) smallLocal (smallRemote.initializeType (some smallLocal))
        [.byte, .string, .int] ∧
      Near smallLocal smallRemote := by
  have hremote : RemoteType smallRemote := remoteType_run "C" false _ (by decide)
  have hnear : Near smallLocal smallRemote := by
    unfold Near
    decide
  have hobj : Reads (PdxLocalReader.deserialize fun _ => (return () : Read Unit)) [1] (some ()) :=
    (DataInput.reads_read 1).bind_nil (Reads.pure (some ()))
  obtain ⟨hobtains, hback⟩ :=
    fromData_obtains_fields (L := smallLocal) hremote [.byte, .string, .int]
  refine ⟨hobtains hnear, hback ?_ ?_ ?_ ⟨_, _, hobj, by decide⟩ (hobtains hnear)⟩
  · unfold UniqueNames
    decide
  · unfold ReadsFit
    decide
  · decide

/-- A local type with one byte. -/
def wideLocal : PdxType :=
  run AddField.step (PdxType.new "C" true) [.fixedLength (some "256") "" 1 1]

/-- A remote type of 257 bytes, with the numbers as names. -/
def wideRemote : PdxType :=
  { PdxType.new "C" false with
    pdxFieldTypes := (range 257).map fun i => .new (toString i) "" 1 i false 1 0 }

theorem mem_wideRemote (hf : f ∈ wideRemote.pdxFieldTypes) :
    f.typeId = 1 ∧ f.isVariableLengthType = false ∧ f.fixedSize = 1 := by
  obtain ⟨i, -, rfl⟩ := mem_map.mp hf
  exact ⟨rfl, rfl, rfl⟩

theorem numbered_of_fixed (n : Nat) (hfs : ∀ f ∈ fs, f.isVariableLengthType = false) :
    Numbered n fs := by
  induction fs with
  | nil => trivial
  | cons f fs ih =>
    rw [Numbered, if_neg (by simp [hfs f mem_cons_self])]
    exact ih fun g hg => hfs g (mem_cons_of_mem f hg)

theorem wellFormed_of_fixed
    (hfixed : ∀ f ∈ t.pdxFieldTypes, f.isVariableLengthType = false ∧ 0 < f.fixedSize)
    (hcount : t.numberOfVarLenFields = 0) : WellFormed t where
  numbered := numbered_of_fixed 0 fun f hf => (hfixed f hf).1
  count := by
    rw [hcount, varCount, filter_eq_nil_iff.mpr fun f hf => by simp [(hfixed f hf).1]]
    rfl
  positive := fun f hf _ => (hfixed f hf).2

theorem remoteType_wideRemote : RemoteType wideRemote where
  wellFormed := by
    refine wellFormed_of_fixed ?_ rfl
    intro f hf
    rw [(mem_wideRemote hf).2.1, (mem_wideRemote hf).2.2]
    decide
  names := by
    -- the numbers can be read back from the names
    let number (name : String) : Nat := name.toList.foldl (fun n c => 10 * n + (c.toNat - 48)) 0
    have hnumbers : (wideRemote.pdxFieldTypes.map PdxFieldType.fieldName).map number =
        range 257 := by decide +kernel
    exact Nodup.of_map number (hnumbers ▸ nodup_range)
  sequenced := by
    intro i f hf
    obtain ⟨hi, rfl⟩ := List.getElem?_eq_some_iff.mp hf
    simp [wideRemote, PdxFieldType.new]
  standard := by
    intro f hf
    obtain ⟨htype, hkind, hsize⟩ := mem_wideRemote hf
    refine ⟨.byte, by rw [htype]; rfl, by rw [hkind]; rfl, ?_⟩
    intro n hn
    cases hn
    rw [hsize]
    rfl

/-- A stream in which the last byte is 9, and all others are 0. -/
def wideContents : Contents :=
  (wideRemote.initializeType (some wideLocal)).pdxFieldTypes.zip (replicate 256 [0] ++ [[9]])

set_option maxRecDepth 4000 in
/-- The byte 9 is field 256 of the stream. The read returns the byte of field 0. -/
theorem fromData_misreads_field :
    RemoteType wideRemote ∧
      ContentsOf (wideRemote.initializeType (some wideLocal)).pdxFieldTypes wideContents ∧
      wideContents[256]?.map (fun a => (a.1.fieldName, a.2)) = some ("256", [9]) ∧
      (wideRemote.initializeType (some wideLocal)).localToRemoteFieldMap = some [0] ∧
      ((PdxRemoteReader.new ⟨stream wideContents, 0⟩ (wideRemote.initializeType (some wideLocal))
          (stream wideContents).length).fromData (fun _ => (return () : Read Unit))
            [(some "256", .byte)]).run' ⟨stream wideContents, 0⟩ = some [.byte 0] := by
  refine ⟨remoteType_wideRemote, ⟨?_, ?_⟩, ?_, ?_, ?_⟩ <;> decide +kernel

end GeodeNative.Pdx

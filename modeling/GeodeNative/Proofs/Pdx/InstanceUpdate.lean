import GeodeNative.Proofs.Pdx.InstanceValues

/-!
# Setting fields of an instance

A run of `setField` calls and then one `serializePdx`. A field that was set should hold the last
value that was set for it, and every other field the bytes that it held before (`Updated`).

`setAll_ok` says what such a run leaves in the map of new values: for each name, what the calls
with this name enter one after the other. Together with the stream of the changed instance this
gives `update_iff`: every field holds what it should exactly when the last value of each field that
was set is kept (`FieldValue.Kept`).
-/

set_option autoImplicit false

namespace GeodeNative.Pdx

open Lib Serialization Serialization.DataOutput
open PdxLocalWriter List PdxInstanceImpl FieldValue

variable {Obj : Type}

/-! ### A run of calls -/

/-- A call of `setField`: the name and the value. -/
abbrev SetCall (Obj : Type) := String × FieldValue Obj

/-- The calls one after the other, up to the first one that does not return. -/
def PdxInstanceImpl.setAll (env : Environment Obj) (inst : PdxInstanceImpl Obj)
    (calls : List (SetCall Obj)) : Except ReadError (PdxInstanceImpl Obj) :=
  calls.foldlM (fun inst call => inst.setField env call.1 call.2) inst

/-- The values that the calls set for a field. -/
def valuesFor (fieldName : String) (calls : List (SetCall Obj)) : List (FieldValue Obj) :=
  (calls.filter fun call => call.1 = fieldName).map Prod.snd

variable {calls : List (SetCall Obj)}

theorem mem_valuesFor {fieldName : String} {v : FieldValue Obj}
    (h : v ∈ valuesFor fieldName calls) : (fieldName, v) ∈ calls := by
  obtain ⟨call, hcall, rfl⟩ := mem_map.mp h
  obtain ⟨hmem, hname⟩ := mem_filter.mp hcall
  rw [← of_decide_eq_true hname]
  exact hmem

/-- The call passes the check of the type of its field, and its value can be stored. -/
structure Accepted (env : Environment Obj) (t : PdxType) (call : SetCall Obj) : Prop where
  matched : ∀ pft, t.getPdxField call.1 = some pft →
    PdxFieldTypes.ofTypeId pft.typeId = some call.2.fieldType
  stored : ∃ r, call.2.toCacheable env = .ok r

section
variable {env : Environment Obj} {inst inst' : PdxInstanceImpl Obj}

theorem setField_ok {call : SetCall Obj} (h : inst.setField env call.1 call.2 = .ok inst') :
    Accepted env inst.pdxType call ∧ inst'.pdxType = inst.pdxType ∧ inst'.buffer = inst.buffer ∧
      (∀ name, inst'.updatedFields.lookup name =
        if call.1 = name then call.2.enter env (inst.updatedFields.lookup name)
        else inst.updatedFields.lookup name) := by
  obtain ⟨fieldName, v⟩ := call
  have hmatched : ∀ pft, inst.pdxType.getPdxField fieldName = some pft →
      PdxFieldTypes.ofTypeId pft.typeId = some v.fieldType := by
    intro pft hpft
    by_contra hne
    unfold setField at h
    rw [hpft] at h
    simp only [ne_eq, hne, not_false_eq_true, if_true] at h
    cases h
  -- the check is passed, so the value is what is left
  have hstore : (v.toCacheable env).map (fun r => r.elim inst fun cacheable =>
      { inst with updatedFields := inst.updatedFields.insert fieldName cacheable }) =
        .ok inst' := by
    rw [← h, setField]
    cases hpft : inst.pdxType.getPdxField fieldName with
    | none => rcases v.toCacheable env with e | (_ | cacheable) <;> rfl
    | some pft =>
      have hpass : ¬ PdxFieldTypes.ofTypeId pft.typeId ≠ some v.fieldType :=
        not_not.mpr (hmatched pft hpft)
      refine Eq.trans ?_ (if_neg hpass).symm
      rcases v.toCacheable env with e | (_ | cacheable) <;> rfl
  cases hr : v.toCacheable env with
  | error e =>
    rw [hr] at hstore
    cases hstore
  | ok r =>
    rw [hr] at hstore
    refine ⟨⟨hmatched, r, hr⟩, ?_⟩
    cases r with
    | none =>
      cases hstore
      refine ⟨rfl, rfl, fun name => ?_⟩
      simp only [enter, hr, ite_self, Option.elim_none]
    | some p =>
      cases hstore
      refine ⟨rfl, rfl, fun name => ?_⟩
      by_cases hname : fieldName = name
      · simp only [enter, hr, if_pos hname]
        rw [← hname]
        exact AList.lookup_insert _
      · rw [if_neg hname]
        exact AList.lookup_insert_ne (Ne.symm hname)

/-- What a run of calls has done. The induction is on the calls, for every instance to start
with. -/
theorem setAll_ok (h : inst.setAll env calls = .ok inst') :
    (∀ call ∈ calls, Accepted env inst.pdxType call) ∧ inst'.pdxType = inst.pdxType ∧
      inst'.buffer = inst.buffer ∧ ∀ name, inst'.updatedFields.lookup name =
        (valuesFor name calls).foldl (enter env) (inst.updatedFields.lookup name) := by
  induction calls generalizing inst with
  | nil =>
    cases h
    exact ⟨fun call hcall => (nomatch hcall), rfl, rfl, fun name => rfl⟩
  | cons call calls ih =>
    cases hfirst : inst.setField env call.1 call.2 with
    | error e =>
      simp only [setAll, foldlM_cons, hfirst] at h
      cases h
    | ok mid =>
      simp only [setAll, foldlM_cons, hfirst] at h
      obtain ⟨haccepted, htype, hbuffer, hlookup⟩ := setField_ok hfirst
      obtain ⟨hrest, htype', hbuffer', hlookup'⟩ := ih h
      rw [htype] at hrest htype'
      refine ⟨?_, htype', hbuffer'.trans hbuffer, fun name => ?_⟩
      · intro c hc
        cases hc with
        | head => exact haccepted
        | tail _ hc => exact hrest c hc
      · rw [hlookup', hlookup, valuesFor, valuesFor]
        by_cases hname : call.1 = name
        · simp only [hname, filter_cons, decide_true, if_true, map_cons, foldl_cons]
        · simp only [hname, filter_cons, decide_false, if_false, Bool.false_eq_true]

/-! ### The new stream -/

variable {t : PdxType} (ht : Described t) {l : Contents} (hl : ContentsOf t.pdxFieldTypes l)
  {calls : List (SetCall Obj)}

theorem fieldType_valuesFor (ht : Described t) (haccepted : ∀ call ∈ calls, Accepted env t call)
    {f : PdxFieldType} (hf : f ∈ t.pdxFieldTypes) {v : FieldValue Obj}
    (hv : v ∈ valuesFor f.fieldName calls) : PdxFieldTypes.ofTypeId f.typeId = some v.fieldType :=
  (haccepted _ (mem_valuesFor hv)).matched f (ht.named f hf)

section
variable (hcalls : setAll env ⟨t, some (stream l), ∅⟩ calls = .ok inst)
include hcalls

theorem pending_setAll (f : PdxFieldType) :
    inst.pending f = ((valuesFor f.fieldName calls).foldl (enter env) none).join := by
  rw [pending, (setAll_ok hcalls).2.2.2]
  rfl

include ht

theorem ofTypeId_pending {f : PdxFieldType} (hf : f ∈ t.pdxFieldTypes) {c : Cacheable Obj}
    (hc : inst.pending f = some c) : PdxFieldTypes.ofTypeId f.typeId = some c.fieldType := by
  rw [pending_setAll hcalls, Option.join_eq_some_iff] at hc
  obtain ⟨v, hv, hstored⟩ := mem_of_foldl_enter env hc
  -- a value waits as an object of the class for its type
  rcases toCacheable_ok env hstored with ⟨⟨⟩, -⟩ | ⟨p, ⟨⟩, -, htype, -⟩
  rw [htype c rfl]
  exact fieldType_valuesFor ht (setAll_ok hcalls).1 hf hv

theorem newBytes_setAll {a : PdxFieldType × List Byte} (ha : a.1 ∈ t.pdxFieldTypes) :
    inst.newBytes env a = settled env a.2
      ((valuesFor a.1.fieldName calls).foldl (enter env) none).join := by
  rw [← pending_setAll hcalls, newBytes]
  cases hc : inst.pending a.1 with
  | none => rfl
  | some c => exact (Cacheable.writes_writeField env (ofTypeId_pending ht hcalls ha hc)).written_eq

include hl

theorem writable_setAll : inst.Writable env l := by
  have hwaiting : ∀ a ∈ l, ∀ c, inst.pending a.1 = some c →
      PdxFieldTypes.ofTypeId a.1.typeId = some c.fieldType ∧ inst.newBytes env a = c.encoding env ∧
        a.1.isVariableLengthType = c.fieldType.width.isNone ∧
        ∀ n, c.fieldType.width = some n → a.1.fixedSize = n := by
    intro a ha c hc
    have hmem := hl.mem_fields ha
    have htype := ofTypeId_pending ht hcalls hmem hc
    obtain ⟨ty, hty, hstandard⟩ := ht.standard a.1 hmem
    rw [htype, Option.some.injEq] at hty
    subst hty
    refine ⟨htype, ?_, hstandard⟩
    rw [newBytes_setAll ht hcalls hmem, ← pending_setAll hcalls, hc]
    rfl
  constructor
  · intro a ha c hc
    obtain ⟨htype, hbytes, hvariable, -⟩ := hwaiting a ha c hc
    rw [hbytes, hvariable]
    exact Cacheable.writes_writeField env htype
  · intro a ha c hc hfixed bs hbs
    obtain ⟨-, hbytes, hvariable, hsize⟩ := hwaiting a ha c hc
    rw [hbytes] at hbs
    cases hwidth : c.fieldType.width with
    | none =>
      rw [hwidth, hfixed] at hvariable
      cases hvariable
    | some n => rw [hsize n hwidth, Cacheable.length_encoding env hwidth hbs]

end

/-! ### What a field should hold -/

/-- The bytes that a field should have: those of the last value that was set for it, or its old
ones. -/
def wanted (env : Environment Obj) (calls : List (SetCall Obj)) (a : PdxFieldType × List Byte) :
    Option (List Byte) :=
  match (valuesFor a.1.fieldName calls).getLast? with
  | some v => v.encoding env
  | none => some a.2

/-- Every field of the instance holds what it should. -/
def Updated (env : Environment Obj) (l : Contents) (calls : List (SetCall Obj))
    (inst : PdxInstanceImpl Obj) : Prop :=
  ∃ buffer, inst.buffer = some buffer ∧ ∀ i (hi : i < l.length), ∃ bs,
    fieldBytes inst.pdxType buffer i = some bs ∧ wanted env calls l[i] = some bs

/-- One field holds what it should exactly when its last value is kept. -/
theorem wanted_iff (ht : Described t) (haccepted : ∀ call ∈ calls, Accepted env t call)
    {a : PdxFieldType × List Byte} (ha : a.1 ∈ t.pdxFieldTypes) :
    (∃ bs, settled env a.2
        ((valuesFor a.1.fieldName calls).foldl (enter env) none).join = some bs ∧
      wanted env calls a = some bs) ↔
      ∀ earlier v, valuesFor a.1.fieldName calls = earlier ++ [v] → v.Kept env a.2 earlier := by
  have htypes : ∀ v ∈ valuesFor a.1.fieldName calls,
      PdxFieldTypes.ofTypeId a.1.typeId = some v.fieldType :=
    fun v hv => fieldType_valuesFor ht haccepted ha hv
  have hstored : ∀ v ∈ valuesFor a.1.fieldName calls, ∃ r, v.toCacheable env = .ok r :=
    fun v hv => (haccepted _ (mem_valuesFor hv)).stored
  unfold wanted
  revert htypes hstored
  generalize valuesFor a.1.fieldName calls = values
  intro htypes hstored
  cases values using reverseRecOn with
  | nil =>
    -- a field that was not set keeps its bytes
    constructor
    · intro _ earlier v hsplit
      exact absurd hsplit.symm (append_ne_nil_of_right_ne_nil _ (cons_ne_nil v []))
    · intro _
      exact ⟨a.2, rfl, rfl⟩
  | append_singleton earlier v _ =>
    have hv : v ∈ earlier ++ [v] := mem_append_right earlier mem_cons_self
    have hsame : ∀ u ∈ earlier ++ [v], u.fieldType = v.fieldType := by
      intro u hu
      exact Option.some.inj ((htypes u hu).symm.trans (htypes v hv))
    simp only [getLast?_append, getLast?_singleton, Option.some_or]
    rw [kept_iff env hstored hsame]
    constructor
    · intro hkept earlier' v' hsplit
      obtain ⟨rfl, hlast⟩ := append_inj' hsplit rfl
      cases hlast
      exact hkept
    · intro hall
      exact hall earlier v rfl

end

/-- Setting fields and writing the instance again gives an instance in which every field holds what
it should, exactly when the last value of each field that was set is kept. -/
theorem update_iff {env : Environment Obj} {t : PdxType} (ht : Described t) {l : Contents}
    (hl : ContentsOf t.pdxFieldTypes l) (hlen : streamLength l < 2 ^ 31)
    {inst : PdxInstanceImpl Obj}
    (hcalls : PdxInstanceImpl.setAll env ⟨t, some (stream l), ∅⟩ calls = .ok inst)
    (out : DataOutput)
    (hfits : ∀ w inst', inst.toData env (PdxLocalWriter.new out inst.pdxType) = .ok (w, inst') →
      w.calculateLenWithOffsets < 2 ^ 31) :
    (∃ out' inst', inst.serializePdx env out = .ok (out', inst') ∧ Updated env l calls inst') ↔
      ∀ a ∈ l, ∀ earlier v, valuesFor a.1.fieldName calls = earlier ++ [v] →
        v.Kept env a.2 earlier := by
  obtain ⟨haccepted, htype, hbuffer, -⟩ := setAll_ok hcalls
  have hwritable := writable_setAll ht hl hcalls
  have hresult := serializePdx_eq (htype.symm ▸ hl) hwritable (htype.symm ▸ ht) hlen
    hbuffer out hfits
  have hfield : ∀ a ∈ l, (∃ bs, inst.newBytes env a = some bs ∧ wanted env calls a = some bs) ↔
      ∀ earlier v, valuesFor a.1.fieldName calls = earlier ++ [v] → v.Kept env a.2 earlier := by
    intro a ha
    rw [newBytes_setAll ht hcalls (hl.mem_fields ha)]
    exact wanted_iff ht haccepted (hl.mem_fields ha)
  cases hm : inst.newContents env l with
  | none =>
    -- a value without bytes is not kept, and there is no stream
    rw [hm] at hresult
    obtain ⟨e, he⟩ := hresult
    constructor
    · rintro ⟨out', inst', hok, -⟩
      rw [he] at hok
      cases hok
    · intro hkept
      obtain ⟨a, ha, hnone⟩ := newContents_none hm
      obtain ⟨bs, hbs, -⟩ := (hfield a ha).mpr (hkept a ha)
      rw [hnone] at hbs
      cases hbs
  | some m =>
    rw [hm] at hresult
    obtain ⟨out', hok, hbytes⟩ := hresult
    constructor
    · rintro ⟨out'', inst', hok', buffer, hinst, hupdated⟩
      rw [hok] at hok'
      cases hok'
      cases hinst
      intro a ha
      obtain ⟨i, hi, rfl⟩ := mem_iff_getElem.mp ha
      rw [← hfield l[i] ha, ← hbytes i hi]
      exact hupdated i hi
    · intro hkept
      refine ⟨out', _, hok, stream m, rfl, fun i hi => ?_⟩
      rw [hbytes i hi, hfield l[i] (getElem_mem hi)]
      exact hkept l[i] (getElem_mem hi)

/-! ### An instance that loses values -/

/-- A type with an object and a character. -/
def sampleType : PdxType :=
  addedType "Sample" true
    [.variableLength (some "item") "Serializable" 10, .fixedLength (some "letter") "char" 2 2] none

/-- An instance of it. -/
def sampleContents : Contents :=
  sampleType.pdxFieldTypes.zip [[0x57, 0x00, 0x01, 0x78], [0x00, 0x41]]

/-- One object that is written in two bytes. Strings are converted byte by byte. -/
def sampleEnvironment : Environment Unit where
  kind _ := .other
  bytes _ := [0x5C, 0x07]
  className _ := none
  upcast _ := ()
  mbstowcs value := value.map (·.setWidth 32) ++ [0]

/-- The bytes of its fields after these calls. -/
def sampleUpdate (calls : List (SetCall Unit)) : Option (List (Option (List Byte))) :=
  ((setAll sampleEnvironment ⟨sampleType, some (stream sampleContents), ∅⟩
    calls).toOption.bind fun inst =>
      (inst.serializePdx sampleEnvironment ⟨[], 8192, false⟩).toOption).bind fun result =>
        result.2.buffer.map fun buffer => [fieldBytes result.2.pdxType buffer 0,
          fieldBytes result.2.pdxType buffer 1]

/-- An object that is set to null stays as it was, and the character 0x20AC becomes 0xFFAC. -/
theorem update_loses_values :
    sampleUpdate [("item", .object none), ("letter", .wideChar 0x20AC)] =
        some [some [0x57, 0x00, 0x01, 0x78], some [0xFF, 0xAC]] ∧
      (FieldValue.object none).encoding sampleEnvironment = some [GeodeTypeIds.nullObj] ∧
      (FieldValue.wideChar 0x20AC).encoding sampleEnvironment = some [0x20, 0xAC] := by
  decide +kernel

/-- The instance after a new object and a new character were set. -/
def sampleChanged : PdxInstanceImpl Unit :=
  ⟨sampleType, some (stream sampleContents),
    ((∅ : AList fun _ : String => Option (Cacheable Unit)).insert "letter"
      (some (.wideChar 0x42))).insert "item" (some (.object ()))⟩

theorem update_iff_sample :
    ∃ out' inst', sampleChanged.serializePdx sampleEnvironment ⟨[], 8192, false⟩ =
        .ok (out', inst') ∧
      Updated sampleEnvironment sampleContents
        [("letter", .char 0x42), ("item", .object (some ()))] inst' := by
  have ht : Described sampleType := described_addedType _ _ _ (by decide) none
  have hl : ContentsOf sampleType.pdxFieldTypes sampleContents :=
    ⟨by decide +kernel, by decide +kernel⟩
  have hcalls : setAll sampleEnvironment
      ⟨sampleType, some (stream sampleContents), ∅⟩
      [("letter", .char 0x42), ("item", .object (some ()))] = .ok sampleChanged := rfl
  have hlength : ((sampleChanged.toData sampleEnvironment
      (PdxLocalWriter.new ⟨[], 8192, false⟩ sampleType)).toOption.map
        fun r => r.1.calculateLenWithOffsets) = some 4 := by decide +kernel
  refine (update_iff ht hl (by decide +kernel) hcalls _ ?_).mpr ?_
  · intro w inst' hdata
    have hw : (some w.calculateLenWithOffsets : Option Int) = some 4 := by
      rw [← hlength]
      show _ = ((sampleChanged.toData sampleEnvironment
        (PdxLocalWriter.new ⟨[], 8192, false⟩ sampleChanged.pdxType)).toOption.map _)
      rw [hdata]
      rfl
    rw [Option.some.inj hw]
    decide
  · intro a ha earlier v hsplit
    have hv : v ∈ valuesFor a.1.fieldName
        [("letter", char 0x42), ("item", .object (some ()))] := by
      rw [hsplit]
      exact mem_append_right earlier mem_cons_self
    have hcall := mem_valuesFor hv
    simp only [mem_cons, Prod.mk.injEq, not_mem_nil, or_false] at hcall
    rcases hcall with ⟨-, rfl⟩ | ⟨-, rfl⟩ <;> trivial

end GeodeNative.Pdx

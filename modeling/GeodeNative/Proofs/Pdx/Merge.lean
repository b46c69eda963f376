import GeodeNative.Proofs.Pdx.LayoutAgreement

/-!
# The fields of a merged type

A merged type has the fields of the local type, and the fields that only the remote type has, each
group in its own order: `Splits`. Which field comes from where is decided by names and type ids, so
the statements compare fields by `fieldKey`, which leaves out the numbering and the positions.

When the remote type has no field of its own, the merged type is the local one
(`createMergedType_of_all`). Otherwise it is a well formed type with this split, and its
remote-to-local map tells the two groups apart (`createMergedType_of_extra`).

`Counted` says that the sequence ids are the positions and that the variable length fields are
numbered from 0 on and counted. It holds of every type that calls of the library build from the
empty type, also when they merge types (`extensible_of_obtained`). `mergeVersion_merge` says what
the merge of two types is, whatever the order of their fields.
-/

set_option autoImplicit false

namespace GeodeNative.Pdx

open Lib PdxType List

/-- What two versions of one field have in common. -/
def fieldKey (f : PdxFieldType) : String × BitVec 8 × Bool × Int :=
  (f.fieldName, f.typeId, f.isVariableLengthType, f.fixedSize)

/-- No two fields have one name. -/
def UniqueNames (fields : List PdxFieldType) : Prop :=
  (fields.map PdxFieldType.fieldName).Nodup

/-- A field that both types have is the same field in both: it has the same type id, and with it
the same kind and size. -/
def Agree (fs gs : List PdxFieldType) : Prop :=
  ∀ f ∈ fs, ∀ g ∈ gs, f.fieldName = g.fieldName → fieldKey f = fieldKey g

/-- The list has a field that `equals` this one. -/
def hasField (fields : List PdxFieldType) (f : PdxFieldType) : Bool := fields.any (·.equals f)

/-- What `equals` compares. -/
def nameAndType (f : PdxFieldType) : String × BitVec 8 := (f.fieldName, f.typeId)

theorem equals_iff (f g : PdxFieldType) : f.equals g = true ↔ nameAndType f = nameAndType g := by
  rw [PdxFieldType.equals, decide_eq_true_eq, nameAndType, nameAndType, Prod.mk.injEq, eq_comm,
    eq_comm (a := g.typeId)]

theorem hasField_iff (fields : List PdxFieldType) (f : PdxFieldType) :
    hasField fields f = true ↔ nameAndType f ∈ fields.map nameAndType := by
  simp only [hasField, any_eq_true, equals_iff, mem_map]

theorem nameAndType_of_key {f g : PdxFieldType} (h : fieldKey f = fieldKey g) :
    nameAndType f = nameAndType g :=
  congrArg (fun k => (k.1, k.2.1)) h

theorem pairs_of_keys {fs gs : List PdxFieldType} (h : fs.map fieldKey = gs.map fieldKey) :
    fs.map nameAndType = gs.map nameAndType := by
  have hpairs := congrArg (map fun k : String × BitVec 8 × Bool × Int => (k.1, k.2.1)) h
  rwa [map_map, map_map] at hpairs

variable {f : PdxFieldType} {fs gs : List PdxFieldType} {first second : List PdxFieldType}

theorem hasField_of_mem {fields : List PdxFieldType} (hf : f ∈ fields) :
    hasField fields f = true := (hasField_iff fields f).mpr (mem_map_of_mem hf)

theorem hasField_congr (fields : List PdxFieldType) {f g : PdxFieldType}
    (h : fieldKey f = fieldKey g) : hasField fields f = hasField fields g := by
  rw [Bool.eq_iff_iff, hasField_iff, hasField_iff, nameAndType_of_key h]

/-- Of a field of the other type it is enough to know the key. -/
theorem Agree.hasField_iff_mem (h : Agree fs gs) {g : PdxFieldType} (hg : g ∈ gs) :
    hasField fs g = true ↔ fieldKey g ∈ fs.map fieldKey := by
  rw [hasField_iff, mem_map, mem_map]
  constructor
  · rintro ⟨f, hf, hpair⟩
    exact ⟨f, hf, h f hf g hg (congrArg Prod.fst hpair)⟩
  · rintro ⟨f, hf, hkey⟩
    exact ⟨f, hf, nameAndType_of_key hkey⟩

/-- Fields that agree have the same keys as soon as they have the same names and type ids. -/
theorem Agree.keys_eq (hagree : Agree fs gs) (h : fs.map nameAndType = gs.map nameAndType) :
    fs.map fieldKey = gs.map fieldKey := by
  induction fs generalizing gs with
  | nil =>
    rw [map_nil, eq_comm, map_eq_nil_iff] at h
    rw [h]
  | cons f fs ih =>
    cases gs with
    | nil => cases h
    | cons g gs =>
      rw [map_cons, map_cons, cons.injEq] at h
      rw [map_cons, map_cons,
        hagree f mem_cons_self g mem_cons_self (congrArg Prod.fst h.1),
        ih (fun a ha b hb => hagree a (mem_cons_of_mem f ha) b (mem_cons_of_mem g hb)) h.2]

theorem Agree.keys_sublist (hagree : Agree fs gs)
    (h : (fs.map nameAndType).Sublist (gs.map nameAndType)) :
    (fs.map fieldKey).Sublist (gs.map fieldKey) := by
  obtain ⟨part, hpart, heq⟩ := sublist_map_iff.mp h
  rw [Agree.keys_eq (fun f hf g hg => hagree f hf g (hpart.subset hg)) heq]
  exact hpart.map fieldKey

theorem mem_of_keys (h : fs.map fieldKey = gs.map fieldKey) {g : PdxFieldType} (hg : g ∈ gs) :
    ∃ f ∈ fs, fieldKey f = fieldKey g := by
  have hmem : fieldKey g ∈ gs.map fieldKey := mem_map_of_mem hg
  rw [← h] at hmem
  exact mem_map.mp hmem

theorem Agree.congr {fs fs' gs gs' : List PdxFieldType} (h : Agree fs gs)
    (hfs : fs.map fieldKey = fs'.map fieldKey) (hgs : gs.map fieldKey = gs'.map fieldKey) :
    Agree fs' gs' := by
  intro f' hf' g' hg' hname
  obtain ⟨f, hf, hfkey⟩ := mem_of_keys hfs hf'
  obtain ⟨g, hg, hgkey⟩ := mem_of_keys hgs hg'
  have hname' : f.fieldName = g.fieldName :=
    (congrArg Prod.fst hfkey).trans (hname.trans (congrArg Prod.fst hgkey).symm)
  rw [← hfkey, ← hgkey]
  exact h f hf g hg hname'

theorem UniqueNames.congr (hfs : UniqueNames fs) (h : fs.map fieldKey = gs.map fieldKey) :
    UniqueNames gs := by
  have hnames := congrArg (map Prod.fst) h
  rw [map_map, map_map] at hnames
  exact (congrArg List.Nodup hnames).mp hfs

/-! ### Splits -/

/-- The fields are those of `ls`, in order, and those of `rs` that `ls` lacks, in order. -/
structure Splits (ls rs fields : List PdxFieldType) : Prop where
  shared : (fields.filter (hasField ls)).map fieldKey = ls.map fieldKey
  extra : (fields.filter fun f => !hasField ls f).map fieldKey =
    (rs.filter fun f => !hasField ls f).map fieldKey

theorem map_filter_congr {ls fs gs : List PdxFieldType} (h : fs.map fieldKey = gs.map fieldKey)
    (p : Bool → Bool) :
    (fs.filter fun f => p (hasField ls f)).map fieldKey =
      (gs.filter fun f => p (hasField ls f)).map fieldKey := by
  have hkeys : ∀ fs, map fieldKey (filter (fun f => p (hasField ls f)) fs) =
      (map fieldKey fs).filter fun key => p ((key.1, key.2.1) ∈ ls.map nameAndType) := by
    intro fs
    rw [filter_map]
    refine congrArg _ (filter_congr fun f _ => congrArg p ?_)
    rw [Bool.eq_iff_iff, hasField_iff, decide_eq_true_eq, nameAndType, fieldKey]
  rw [hkeys, hkeys, h]

theorem Splits.congr {ls rs fs gs : List PdxFieldType} (h : fs.map fieldKey = gs.map fieldKey)
    (hfs : Splits ls rs fs) : Splits ls rs gs where
  shared := (map_filter_congr h id).symm.trans hfs.shared
  extra := (map_filter_congr h not).symm.trans hfs.extra

/-- A sublist of a list without repetitions can be read off from it. -/
theorem filter_of_sublist {α : Type} {l r : List α} (h : l.Sublist r) (hr : r.Nodup) {p : α → Bool}
    (hp : ∀ a ∈ r, p a = true ↔ a ∈ l) : r.filter p = l := by
  have hall : l.filter p = l := filter_eq_self.mpr fun a ha => (hp a (h.subset ha)).mpr ha
  have hsubset : r.filter p ⊆ l := fun a ha => (hp a (mem_of_mem_filter ha)).mp (of_mem_filter ha)
  have hsub : l.Sublist (r.filter p) := hall ▸ h.filter p
  exact (hsub.eq_of_length_le (subperm_of_subset (hr.filter p) hsubset).length_le).symm

theorem UniqueNames.pairs_nodup (h : UniqueNames fs) : (fs.map nameAndType).Nodup := by
  refine List.Nodup.of_map Prod.fst ?_
  rw [map_map]
  exact h

theorem splits_of_sublist {ls rs : List PdxFieldType} (hagree : Agree ls rs)
    (hnames : UniqueNames rs) (hsub : (ls.map fieldKey).Sublist (rs.map fieldKey)) :
    Splits ls rs rs where
  shared := by
    have hnodup : (rs.map fieldKey).Nodup := by
      refine List.Nodup.of_map Prod.fst ?_
      rw [map_map]
      exact hnames
    -- the keys of `rs` that `ls` has, with the choice made on the keys
    have hread : (rs.map fieldKey).filter (fun k => (ls.map fieldKey).contains k) =
        ls.map fieldKey := filter_of_sublist hsub hnodup fun k _ => contains_iff_mem
    rw [filter_map] at hread
    rw [← hread]
    congr 1
    refine filter_congr fun f hf => ?_
    rw [Bool.eq_iff_iff, hagree.hasField_iff_mem hf]
    exact contains_iff_mem.symm
  extra := rfl

theorem splits_append {ls rs extras : List PdxFieldType}
    (h : extras.map fieldKey = (rs.filter fun f => !hasField ls f).map fieldKey) :
    Splits ls rs (ls ++ extras) := by
  -- no field that was appended is in `ls`
  have hextras : ∀ f ∈ extras, hasField ls f = false := by
    intro f hf
    obtain ⟨g, hg, hkey⟩ := mem_of_keys h.symm hf
    rw [hasField_congr ls hkey.symm]
    simpa using (mem_filter.mp hg).2
  constructor
  · rw [filter_append, filter_eq_self.mpr fun f hf => hasField_of_mem hf,
      filter_eq_nil_iff.mpr fun f hf => by simp [hextras f hf], append_nil]
  · rw [filter_append, filter_eq_nil_iff.mpr fun f hf => by simp [hasField_of_mem hf],
      filter_eq_self.mpr fun f hf => by simp [hextras f hf], nil_append, h]

/-! ### `isContains` -/

/-- `isContains` looks for a subsequence. The search for a field starts at the one found before it,
which is harmless since a type does not have the same field twice. -/
theorem isContains_iff (first : List PdxFieldType) (hnodup : (second.map nameAndType).Nodup) :
    isContains first second = true ↔ (second.map nameAndType).Sublist (first.map nameAndType) := by
  induction second generalizing first with
  | nil => simp [isContains]
  | cons f second ih =>
    rw [map_cons, nodup_cons] at hnodup
    induction first with
    | nil => simp [isContains]
    | cons g first ihfirst =>
      rw [isContains, dropWhile_cons]
      by_cases hg : g.equals f = true
      · have hpair := (equals_iff g f).mp hg
        simp only [hg, Bool.not_true, Bool.false_eq_true, if_false, isEmpty_cons, Bool.not_false,
          Bool.true_and]
        rw [ih _ hnodup.2, map_cons, map_cons, hpair, cons_sublist_cons,
          sublist_cons_iff, or_iff_left]
        rintro ⟨rest, hrest, -⟩
        exact hnodup.1 (hrest ▸ mem_cons_self)
      · have hpair : nameAndType f ≠ nameAndType g := fun h => hg ((equals_iff g f).mpr h.symm)
        simp only [hg, Bool.not_false, if_true]
        rw [isContains] at ihfirst
        rw [ihfirst, map_cons, map_cons, sublist_cons_iff, or_iff_left]
        rintro ⟨rest, hrest, -⟩
        exact hpair (cons.inj hrest).1

/-- The comparison of the lengths decides nothing. -/
theorem contains_iff (first : List PdxFieldType) (hnodup : (second.map nameAndType).Nodup) :
    (second.length ≤ first.length ∧ isContains first second = true) ↔
      (second.map nameAndType).Sublist (first.map nameAndType) := by
  rw [isContains_iff first hnodup, and_iff_right_of_imp]
  intro hsub
  simpa using hsub.length_le

/-! ### `mergeVersion` -/

/-- A field that the merged type lacks is appended, with the next number. -/
theorem mergeField_of_new {t : PdxType} (n : Nat) {r : PdxFieldType}
    (h : hasField t.pdxFieldTypes r = false) :
    ∃ newFt, fieldKey newFt = fieldKey r ∧ newFt.sequenceId = t.pdxFieldTypes.length ∧
      Numbered n [newFt] ∧ mergeField (t, (n : Int)) r =
        ({ t with pdxFieldTypes := t.pdxFieldTypes ++ [newFt] },
          ((n + varCount [newFt] : Nat) : Int)) := by
  have hnew : ¬ t.pdxFieldTypes.any (·.equals r) = true := by simpa [hasField] using h
  refine ⟨.new r.fieldName r.className r.typeId t.pdxFieldTypes.length r.isVariableLengthType
    r.fixedSize (if r.isVariableLengthType then (n : Int) else 0), rfl, rfl, ?_, ?_⟩
  · cases hv : r.isVariableLengthType <;> simp [Numbered, PdxFieldType.new]
  · rw [mergeField, if_neg hnew]
    cases hv : r.isVariableLengthType <;> simp [varCount, PdxFieldType.new]

/-- The loop of `mergeVersion` appends the fields that the type lacks, and numbers the variable
length fields among them from `n` on. -/
theorem foldl_mergeField (rs : List PdxFieldType) (t : PdxType) (n : Nat) :
    ∃ extras, rs.foldl mergeField (t, (n : Int)) =
        ({ t with pdxFieldTypes := t.pdxFieldTypes ++ extras },
          ((n + varCount extras : Nat) : Int)) ∧
      ((rs.map nameAndType).Nodup →
        extras.map fieldKey = (rs.filter fun f => !hasField t.pdxFieldTypes f).map fieldKey) ∧
      Numbered n extras ∧
      extras.map (·.sequenceId) = range' t.pdxFieldTypes.length extras.length := by
  induction rs generalizing t n with
  | nil => exact ⟨[], by simp [varCount], fun _ => rfl, trivial, rfl⟩
  | cons r rs ih =>
    rw [foldl_cons, map_cons, nodup_cons]
    cases hr : hasField t.pdxFieldTypes r with
    | true =>
      have hskip : mergeField (t, (n : Int)) r = (t, (n : Int)) := if_pos hr
      rw [filter_cons_of_neg (by simp [hr]), hskip]
      obtain ⟨extras, hfold, hkeys, hrest⟩ := ih t n
      exact ⟨extras, hfold, fun hnodup => hkeys hnodup.2, hrest⟩
    | false =>
      obtain ⟨newFt, hkey, hseq, hone, hstep⟩ := mergeField_of_new n hr
      obtain ⟨extras, hfold, hkeys, hnumbered, hids⟩ := ih
        { t with pdxFieldTypes := t.pdxFieldTypes ++ [newFt] } (n + varCount [newFt])
      refine ⟨newFt :: extras, ?_, ?_, ?_, ?_⟩
      · rw [hstep, hfold, Nat.add_assoc, ← varCount_append, append_assoc]
        rfl
      · intro hnodup
        -- the new field is not one of the fields that are still to come
        have hlater : ∀ f ∈ rs, hasField (t.pdxFieldTypes ++ [newFt]) f =
            hasField t.pdxFieldTypes f := by
          intro f hf
          have hne : newFt.equals f = false := by
            rw [Bool.eq_false_iff, ne_eq, equals_iff, nameAndType_of_key hkey]
            exact fun h => hnodup.1 (h ▸ mem_map_of_mem hf)
          simp [hasField, hne]
        rw [filter_cons_of_pos (by simp [hr]), map_cons, map_cons, hkey,
          hkeys hnodup.2,
          filter_congr fun f hf => congrArg not (hlater f hf)]
      · exact (numbered_append n [newFt] extras).mpr ⟨hone, hnumbered⟩
      · rw [map_cons, hids, hseq, length_cons, range'_succ, length_append]
        rfl

/-- The new type that `mergeVersion` builds from the local type `l`. -/
structure Extended (l r m : PdxType) (extras : List PdxFieldType) : Prop where
  fields : m.pdxFieldTypes = l.pdxFieldTypes ++ extras
  keys : (r.pdxFieldTypes.map nameAndType).Nodup → extras.map fieldKey =
    (r.pdxFieldTypes.filter fun f => !hasField l.pdxFieldTypes f).map fieldKey
  numbered : Numbered (varCount l.pdxFieldTypes) extras
  sequenced : extras.map (·.sequenceId) = range' l.pdxFieldTypes.length extras.length
  count : m.numberOfVarLenFields = varCount m.pdxFieldTypes
  index : m.varLenFieldIdx = varCount m.pdxFieldTypes
  notAdded : m.isVarLenFieldAdded = false

/-- The three results of `mergeVersion`: the local type, the remote type, or a new type. -/
theorem mergeVersion_cases {l : PdxType}
    (hcount : l.numberOfVarLenFields = varCount l.pdxFieldTypes) (r : PdxType) :
    let left := r.pdxFieldTypes.length ≤ l.pdxFieldTypes.length ∧
      isContains l.pdxFieldTypes r.pdxFieldTypes = true
    let right := l.pdxFieldTypes.length ≤ r.pdxFieldTypes.length ∧
      isContains r.pdxFieldTypes l.pdxFieldTypes = true
    (left ∧ l.mergeVersion r = l) ∨ (¬ left ∧ right ∧ l.mergeVersion r = r) ∨
      (¬ left ∧ ¬ right ∧ ∃ extras, Extended l r (l.mergeVersion r) extras) := by
  intro left right
  unfold mergeVersion
  by_cases hleft : left
  · rw [if_pos hleft]
    exact .inl ⟨hleft, rfl⟩
  · rw [if_neg hleft]
    by_cases hright : right
    · rw [if_pos hright]
      exact .inr (.inl ⟨hleft, hright, rfl⟩)
    · rw [if_neg hright]
      obtain ⟨extras, hfold, hkeys, hnumbered, hids⟩ :=
        foldl_mergeField r.pdxFieldTypes l.clone (varCount l.pdxFieldTypes)
      rw [← hcount] at hfold
      rw [hfold]
      refine .inr (.inr ⟨hleft, hright, extras, rfl, hkeys, hnumbered, hids, ?_, ?_, rfl⟩)
      · show _ = ((varCount (l.pdxFieldTypes ++ extras) : Nat) : Int)
        rw [varCount_append]
      · show (if ((_ : Nat) : Int) > 0 then ((_ : Nat) : Int) else 0) =
          ((varCount (l.pdxFieldTypes ++ extras) : Nat) : Int)
        rw [varCount_append]
        split <;> omega

/-- The same for two types that agree on their common fields. -/
theorem mergeVersion_splits {l r : PdxType} (hl : WellFormed l) (hr : WellFormed r)
    (hlnames : UniqueNames l.pdxFieldTypes) (hrnames : UniqueNames r.pdxFieldTypes)
    (hagree : Agree l.pdxFieldTypes r.pdxFieldTypes) :
    (l.mergeVersion r = l ∧ ∀ f ∈ r.pdxFieldTypes, hasField l.pdxFieldTypes f = true) ∨
      (l.mergeVersion r = r ∧ Splits l.pdxFieldTypes r.pdxFieldTypes r.pdxFieldTypes) ∨
      (WellFormed (l.mergeVersion r) ∧
        ∃ extras, (l.mergeVersion r).pdxFieldTypes = l.pdxFieldTypes ++ extras ∧
          extras.map fieldKey =
            (r.pdxFieldTypes.filter fun f => !hasField l.pdxFieldTypes f).map fieldKey) := by
  rcases mergeVersion_cases hl.count r with
    ⟨hsub, hmerge⟩ | ⟨-, hsub, hmerge⟩ | ⟨-, -, extras, hext⟩
  · rw [contains_iff _ hrnames.pairs_nodup] at hsub
    exact .inl ⟨hmerge, fun f hf =>
      (hasField_iff _ f).mpr (hsub.subset (mem_map_of_mem hf))⟩
  · rw [contains_iff _ hlnames.pairs_nodup] at hsub
    exact .inr (.inl ⟨hmerge, splits_of_sublist hagree hrnames (hagree.keys_sublist hsub)⟩)
  · have hkeys := hext.keys hrnames.pairs_nodup
    refine .inr (.inr ⟨⟨?_, hext.count, ?_⟩, extras, hext.fields, hkeys⟩)
    · rw [hext.fields, numbered_append, Nat.zero_add]
      exact ⟨hl.numbered, hext.numbered⟩
    · rw [hext.fields]
      intro f hf hfixed
      rcases mem_append.mp hf with hf | hf
      · exact hl.positive f hf hfixed
      · -- an appended field has the kind and the size of a remote field
        obtain ⟨g, hg, hkey⟩ := mem_of_keys hkeys.symm hf
        simp only [fieldKey, Prod.mk.injEq] at hkey
        rw [← hkey.2.2.2]
        exact hr.positive g (mem_filter.mp hg).1 (hkey.2.2.1.trans hfixed)

/-! ### `createMergedType` -/

theorem typeEquals_iff (t other : PdxType) :
    t.typeEquals other = true ↔
      t.pdxFieldTypes.map nameAndType = other.pdxFieldTypes.map nameAndType := by
  rw [typeEquals, decide_eq_true_eq]
  generalize t.pdxFieldTypes = fs
  generalize other.pdxFieldTypes = gs
  induction fs generalizing gs with
  | nil => cases gs <;> simp
  | cons f fs ih =>
    cases gs with
    | nil => simp
    | cons g gs =>
      rw [map_cons, map_cons, cons.injEq, ← ih]
      simp only [length_cons, zip_cons_cons, all_cons, Bool.and_eq_true, equals_iff,
        Nat.add_right_cancel_iff, eq_comm (a := nameAndType g)]
      exact and_left_comm

theorem typeEquals_of_keys {t other : PdxType}
    (h : t.pdxFieldTypes.map fieldKey = other.pdxFieldTypes.map fieldKey) :
    t.typeEquals other = true := (typeEquals_iff t other).mpr (pairs_of_keys h)

/-- A type that was initialised against the local type `l`. -/
structure Initialised (l t : PdxType) : Prop where
  wellFormed : WellFormed t
  positioned : Positioned t.pdxFieldTypes
  map : t.remoteToLocalFieldMap = some (t.pdxFieldTypes.map (remoteToLocal l.pdxFieldTypes))
  extra : t.numberOfFieldsExtra =
    (t.pdxFieldTypes.filter fun f => !hasField l.pdxFieldTypes f).length

theorem remoteToLocal_eq_present (ls : List PdxFieldType) (f : PdxFieldType) :
    remoteToLocal ls f = .present ↔ hasField ls f = true := by
  unfold remoteToLocal hasField
  split
  · simp [*]
  · split <;> simp [*]

theorem remoteToLocal_of_absent {ls : List PdxFieldType} (hf : hasField ls f = false) :
    remoteToLocal ls f = if f.isVariableLengthType then .absentVariable else .absentFixed := by
  rw [remoteToLocal, show ls.any (·.equals f) = false from hf, if_neg Bool.false_ne_true]

theorem initialised_initializeType {t : PdxType} (ht : WellFormed t) (l : PdxType) :
    Initialised l (t.initializeType (some l)) where
  wellFormed := wellFormed_initializeType ht (some l)
  positioned := positioned_initializeType t (some l)
  map := by
    rw [map_initializeType t (some l) (remoteToLocal l.pdxFieldTypes) fun _ => rfl]
    rfl
  extra := by
    have hkind : ∀ f : PdxFieldType, decide (remoteToLocal l.pdxFieldTypes f ≠ .present) =
        !hasField l.pdxFieldTypes f := by
      intro f
      rw [Bool.eq_iff_iff, decide_eq_true_eq, ne_eq, remoteToLocal_eq_present]
      simp
    -- the positions do not matter for the count
    have hcount : ∀ fs : List PdxFieldType,
        (fs.filter fun f => !hasField l.pdxFieldTypes f).length =
          ((fs.map (hasField l.pdxFieldTypes)).filter not).length := by
      intro fs
      rw [filter_map, length_map]
      rfl
    rw [hcount, map_initializeType t (some l) (hasField l.pdxFieldTypes) fun _ => rfl, ← hcount]
    show (((t.pdxFieldTypes.map (remoteToLocal l.pdxFieldTypes)).filter _).length : Int) = _
    rw [filter_map, length_map]
    congr 2
    exact filter_congr fun f _ => hkind f

section
variable {l r : PdxType} (hl : WellFormed l) (hr : Initialised l r)
  (hlnames : UniqueNames l.pdxFieldTypes) (hrnames : UniqueNames r.pdxFieldTypes)
  (hagree : Agree l.pdxFieldTypes r.pdxFieldTypes)
include hl hr hlnames hrnames hagree

theorem createMergedType_of_all (hall : ∀ f ∈ r.pdxFieldTypes, hasField l.pdxFieldTypes f = true) :
    l.createMergedType r = l := by
  have hequals : (l.mergeVersion r).typeEquals l = true := by
    rcases mergeVersion_splits hl hr.wellFormed hlnames hrnames hagree with
      ⟨hmerge, -⟩ | ⟨hmerge, hsplits⟩ | ⟨-, extras, hmerge, hkeys⟩
    · rw [hmerge]
      exact typeEquals_of_keys rfl
    · have hshared := hsplits.shared
      rw [filter_eq_self.mpr hall] at hshared
      rw [hmerge]
      exact typeEquals_of_keys hshared
    · rw [filter_eq_nil_iff.mpr fun f hf => by simp [hall f hf], map_nil,
        map_eq_nil_iff] at hkeys
      rw [hkeys, append_nil] at hmerge
      exact typeEquals_of_keys (congrArg _ hmerge)
  rw [createMergedType, if_pos hequals]

/-- When the local type lacks a remote field, the merged type has the fields of both. -/
theorem createMergedType_of_extra (hf : f ∈ r.pdxFieldTypes)
    (hextra : hasField l.pdxFieldTypes f = false) :
    Initialised l (l.createMergedType r) ∧
      Splits l.pdxFieldTypes r.pdxFieldTypes (l.createMergedType r).pdxFieldTypes := by
  unfold createMergedType
  rcases mergeVersion_splits hl hr.wellFormed hlnames hrnames hagree with
    ⟨-, hall⟩ | ⟨hmerge, hsplits⟩ | ⟨hwell, extras, hmerge, hkeys⟩
  · exact absurd (hall f hf) (by simp [hextra])
  · -- a type that equals the local type has no other fields
    have hother : ¬ r.typeEquals l = true := by
      intro h
      rw [Bool.eq_false_iff, ne_eq, hasField_iff, ← (typeEquals_iff r l).mp h] at hextra
      exact hextra (mem_map_of_mem hf)
    rw [hmerge, if_neg hother, if_pos (typeEquals_of_keys rfl)]
    exact ⟨hr, hsplits⟩
  · have hsplits : Splits l.pdxFieldTypes r.pdxFieldTypes (l.mergeVersion r).pdxFieldTypes := by
      rw [hmerge]
      exact splits_append hkeys
    have hother : ¬ (l.mergeVersion r).typeEquals l = true := by
      intro h
      have hlen := congrArg length ((typeEquals_iff _ _).mp h)
      have hmem : fieldKey f ∈ extras.map fieldKey := by
        rw [hkeys]
        exact mem_map_of_mem (mem_filter.mpr ⟨hf, by simp [hextra]⟩)
      have hpos := length_pos_of_mem hmem
      rw [hmerge] at hlen
      simp only [length_map, length_append] at hlen hpos
      omega
    rw [if_neg hother]
    split
    · rename_i hequals
      refine ⟨hr, hsplits.congr (Agree.keys_eq ?_ ((typeEquals_iff _ _).mp hequals))⟩
      -- a merged field is a local field or has the key of a remote field
      intro a ha b hb hname
      rw [hmerge] at ha
      rcases mem_append.mp ha with ha | ha
      · exact hagree a ha b hb hname
      · obtain ⟨g, hg, hkey⟩ := mem_of_keys hkeys.symm ha
        have hsame : g = b := inj_on_of_nodup_map hrnames (mem_filter.mp hg).1 hb
          ((congrArg Prod.fst hkey).trans hname)
        rw [← hkey, hsame]
    · refine ⟨initialised_initializeType hwell l, hsplits.congr ?_⟩
      exact (map_initializeType _ (some l) fieldKey fun _ => rfl).symm

end

/-! ### Types that calls and merges build -/

/-- The numbers of the fields are right: the variable length fields are numbered and counted in
their order, and the sequence ids are the positions. -/
structure Counted (t : PdxType) : Prop where
  numbered : Numbered 0 t.pdxFieldTypes
  count : t.numberOfVarLenFields = varCount t.pdxFieldTypes
  sequenced : t.pdxFieldTypes.map (·.sequenceId) = range t.pdxFieldTypes.length

/-- The index for the next variable length field is right too. It is the last index plus one when a
field was added, and the index itself in a type that comes from a merge. A type that `fromData` has
read has the last index without the flag, so it is counted but cannot be extended. -/
structure Extensible (t : PdxType) : Prop extends Counted t where
  index : t.varLenFieldIdx + (if t.isVarLenFieldAdded then 1 else 0) = varCount t.pdxFieldTypes

/-- The types that calls that add fields, and merges of such types, build from the empty type. -/
inductive Obtained : PdxType → Prop where
  | new (className : String) (isLocal : Bool) : Obtained (PdxType.new className isLocal)
  | add {t : PdxType} (add : AddField) : Obtained t → Obtained (add.step t)
  | merge {l r : PdxType} : Obtained l → Obtained r → Obtained (l.mergeVersion r)

variable {t l r : PdxType}

/-- The empty type has no numbers yet. -/
theorem extensible_new (className : String) (isLocal : Bool) :
    Extensible (PdxType.new className isLocal) := ⟨⟨trivial, rfl, rfl⟩, rfl⟩

variable {extras : List PdxFieldType}

/-- Appending fields that are numbered from the counters on. -/
theorem Counted.append (h : Counted t) {t' : PdxType}
    (hfields : t'.pdxFieldTypes = t.pdxFieldTypes ++ extras)
    (hnumbered : Numbered (varCount t.pdxFieldTypes) extras)
    (hsequenced : extras.map (·.sequenceId) = range' t.pdxFieldTypes.length extras.length)
    (hcount : t'.numberOfVarLenFields = varCount t'.pdxFieldTypes) : Counted t' where
  numbered := by
    rw [hfields, numbered_append, Nat.zero_add]
    exact ⟨h.numbered, hnumbered⟩
  count := hcount
  sequenced := by
    rw [hfields, map_append, h.sequenced, hsequenced, length_append,
      range_eq_range', range_eq_range', ← range'_append_1, Nat.zero_add]

/-- A call that adds a field numbers it from the counters on and moves them. A call that throws
changes nothing. -/
theorem extensible_addField (h : Extensible t) (add : AddField) : Extensible (add.step t) := by
  rcases addField_cases t add with hsame | ⟨name, className, typeId, -,
    ⟨size, -, hstep⟩ | ⟨idx, hidx, -, hstep⟩⟩
  · rwa [hsame]
  · rw [hstep]
    refine ⟨h.append rfl ?_ rfl ?_, ?_⟩
    · simp [Numbered, PdxFieldType.new]
    · rw [pushField, varCount_concat]
      exact h.count
    · rw [pushField, varCount_concat]
      exact h.index
  · have hidx : idx = (varCount t.pdxFieldTypes : Int) := hidx.trans h.index
    rw [hstep]
    refine ⟨h.append rfl ?_ rfl ?_, ?_⟩
    · simp [Numbered, PdxFieldType.new, hidx]
    · rw [pushField, varCount_concat]
      exact congrArg (· + 1) h.count
    · rw [pushField, varCount_concat]
      exact congrArg (· + 1) hidx

/-- A merge numbers the fields that it appends behind those of the local type. -/
theorem Extended.counted {m : PdxType} (h : Extended l r m extras) (hl : Counted l) : Counted m :=
  hl.append h.fields h.numbered h.sequenced h.count

/-- A merge of two types gives one of them or a new type that can be extended. -/
theorem extensible_mergeVersion (hl : Extensible l) (hr : Extensible r) :
    Extensible (l.mergeVersion r) := by
  rcases mergeVersion_cases hl.count r with
    ⟨-, hmerge⟩ | ⟨-, -, hmerge⟩ | ⟨-, -, extras, hext⟩
  · rwa [hmerge]
  · rwa [hmerge]
  · refine ⟨hext.counted hl.toCounted, ?_⟩
    rw [hext.index, hext.notAdded]
    simp

/-- The numbers of every type that calls and merges build are right. -/
theorem extensible_of_obtained (h : Obtained t) : Extensible t := by
  induction h with
  | new className isLocal => exact extensible_new className isLocal
  | add add _ ih => exact extensible_addField ih add
  | merge _ _ ihl ihr => exact extensible_mergeVersion ihl ihr

theorem extensible_of_obtained_merge :
    let l := AddField.step (.new "A" true) (.variableLength "s" "" 9)
    let r := AddField.step (.new "A" false) (.variableLength "t" "" 9)
    Extensible (l.mergeVersion r) :=
  extensible_of_obtained (.merge (.add _ (.new ..)) (.add _ (.new ..)))

/-- What a type is when its fields are those of `l` and of `r`. The first rule that applies counts:
when each type has all fields of the other, in the same order, the merged type is the local one. -/
structure MergeOf (l r m : PdxType) : Prop where
  once : ∀ field,
    field ∈ l.pdxFieldTypes.map nameAndType ∨ field ∈ r.pdxFieldTypes.map nameAndType →
    (m.pdxFieldTypes.map nameAndType).count field = 1
  only : ∀ field ∈ m.pdxFieldTypes.map nameAndType,
    field ∈ l.pdxFieldTypes.map nameAndType ∨ field ∈ r.pdxFieldTypes.map nameAndType
  ofLeft : (r.pdxFieldTypes.map nameAndType).Sublist (l.pdxFieldTypes.map nameAndType) → m = l
  ofRight : (l.pdxFieldTypes.map nameAndType).Sublist (r.pdxFieldTypes.map nameAndType) →
    m.pdxFieldTypes.map nameAndType = r.pdxFieldTypes.map nameAndType ∧
      (¬ (r.pdxFieldTypes.map nameAndType).Sublist (l.pdxFieldTypes.map nameAndType) → m = r)
  otherwise :
    ¬ (r.pdxFieldTypes.map nameAndType).Sublist (l.pdxFieldTypes.map nameAndType) →
    ¬ (l.pdxFieldTypes.map nameAndType).Sublist (r.pdxFieldTypes.map nameAndType) →
    (∃ extras, m.pdxFieldTypes = l.pdxFieldTypes ++ extras ∧
      extras.map nameAndType = (r.pdxFieldTypes.map nameAndType).filter
        (· ∉ l.pdxFieldTypes.map nameAndType)) ∧
    m.pdxFieldTypes.map (·.sequenceId) = range m.pdxFieldTypes.length ∧
    Numbered 0 m.pdxFieldTypes

/-- The fields that `mergeVersion` appends, by name and type id. -/
theorem Extended.pairs {m : PdxType} (h : Extended l r m extras)
    (hrnames : UniqueNames r.pdxFieldTypes) :
    extras.map nameAndType = (r.pdxFieldTypes.map nameAndType).filter
      (· ∉ l.pdxFieldTypes.map nameAndType) := by
  rw [pairs_of_keys (h.keys hrnames.pairs_nodup), filter_map]
  congr 1
  refine filter_congr fun f _ => ?_
  rw [Bool.eq_iff_iff, Bool.not_eq_true', Bool.eq_false_iff, ne_eq, hasField_iff]
  simp

/-- The merge of two types, for all orders of their fields. Only the numbers of the local type play
a part, and only in the numbers of a type that is neither of the two. -/
theorem mergeVersion_merge (hl : Counted l) (hlnames : UniqueNames l.pdxFieldTypes)
    (hrnames : UniqueNames r.pdxFieldTypes) : MergeOf l r (l.mergeVersion r) := by
  have hls := hlnames.pairs_nodup
  have hrs := hrnames.pairs_nodup
  have hcases := mergeVersion_cases hl.count r
  simp only [contains_iff _ hls, contains_iff _ hrs] at hcases
  rcases hcases with ⟨hsub, hmerge⟩ | ⟨hnot, hsub, hmerge⟩ | ⟨hnot, hnot', extras, hext⟩
  · rw [hmerge]
    refine ⟨fun field hfield => ?_, fun field => Or.inl, fun _ => rfl,
      fun hright => ⟨hright.antisymm hsub, fun hnot => absurd hsub hnot⟩,
      fun hnot => absurd hsub hnot⟩
    exact count_eq_one_of_mem hls (hfield.elim id (hsub.subset ·))
  · rw [hmerge]
    refine ⟨fun field hfield => ?_, fun field => Or.inr, fun hleft => absurd hleft hnot,
      fun _ => ⟨rfl, fun _ => rfl⟩, fun _ hnot => absurd hsub hnot⟩
    exact count_eq_one_of_mem hrs (hfield.elim (hsub.subset ·) id)
  · have hpairs : (l.mergeVersion r).pdxFieldTypes.map nameAndType =
        l.pdxFieldTypes.map nameAndType ++ (r.pdxFieldTypes.map nameAndType).filter
          (· ∉ l.pdxFieldTypes.map nameAndType) := by
      rw [hext.fields, map_append, hext.pairs hrnames]
    have hmem : ∀ field, field ∈ (l.mergeVersion r).pdxFieldTypes.map nameAndType ↔
        field ∈ l.pdxFieldTypes.map nameAndType ∨ field ∈ r.pdxFieldTypes.map nameAndType := by
      intro field
      rw [hpairs, mem_append, mem_filter, decide_eq_true_eq]
      tauto
    have hnodup : ((l.mergeVersion r).pdxFieldTypes.map nameAndType).Nodup := by
      rw [hpairs, nodup_append]
      refine ⟨hls, hrs.filter _, fun a ha b hb => ?_⟩
      rintro rfl
      exact of_decide_eq_true (mem_filter.mp hb).2 ha
    have hcounted := hext.counted hl
    exact ⟨fun field hfield => count_eq_one_of_mem hnodup ((hmem field).mpr hfield),
      fun field => (hmem field).mp, fun hleft => absurd hleft hnot,
      fun hright => absurd hright hnot', fun _ _ =>
        ⟨⟨extras, hext.fields, hext.pairs hrnames⟩, hcounted.sequenced, hcounted.numbered⟩⟩

/-- The type of a person with one field. -/
def withField (add : AddField) : PdxType := add.step (PdxType.new "Person" true)

/-- A type with a name and a type with an age. The first one is as `fromData` leaves it: the flag
that a variable length field was added is not set. -/
theorem mergeVersion_person :
    MergeOf
      { withField (.variableLength (some "name") "String" 9) with isVarLenFieldAdded := false }
      (withField (.fixedLength (some "age") "int" 5 4))
      (mergeVersion
        { withField (.variableLength (some "name") "String" 9) with isVarLenFieldAdded := false }
        (withField (.fixedLength (some "age") "int" 5 4))) := by
  have hname := extensible_addField (extensible_new "Person" true)
    (.variableLength (some "name") "String" 9)
  exact mergeVersion_merge ⟨hname.numbered, hname.count, hname.sequenced⟩ (nodup_singleton _)
    (nodup_singleton _)

end GeodeNative.Pdx

import GeodeNative.Proofs.Statistics.Samples

/-!
# The instances of a reader

The writer is related to the catalog of a reader of the bytes so far (`Recorded`): the instances of
the reader are those of `resourceInstMap`, with the values that were archived, and each type that
the writer knows is defined under its id. `Archived` puts the bytes and the ids to it.

`Archived.allocateNew` and `Archived.deleteClosed` are the two loops of `sampleResources`: each
keeps the reader up to date. What a loop does to the writer itself is `Grown` and `Shrunk`.
-/

set_option autoImplicit false

namespace GeodeNative.Statistics

open Lib StatDataOutput List Archive

variable {P T : Type} {types : T → StatisticsType} {samples : List (List Instance)}
  {st : Archive P T}

/-! ### The writer and the reader -/

/-- The catalog of a reader has what the writer has recorded. -/
structure Recorded (types : T → StatisticsType) (st : Archive P T) (c : Catalog) : Prop where
  instances : c.instances = st.resourceInstMap.map (cataloged types st)
  defined : ∀ node ∈ st.resourceTypeMap, c.types.lookup node.2.id = some (types node.1).archived
  counts : ∀ node ∈ st.resourceTypeMap, node.2.numOfDescriptors = (types node.1).stats.length
  typeIds : ∀ node ∈ st.resourceTypeMap, node.2.id.toNat < st.resourceTypeId.toNat
  lengths : ∀ node ∈ st.resourceInstMap,
    node.2.archivedStatValues.length = (types (st.heap node.1).type).stats.length
  idsNodup : (st.resourceInstMap.map (·.2.id)).Nodup
  instIds : ∀ node ∈ st.resourceInstMap, node.2.id.toNat < st.resourceInstId.toNat

/-- The bytes so far have these samples, and a reader of them is up to date. -/
structure Archived (types : T → StatisticsType) (samples : List (List Instance))
    (st : Archive P T) : Prop where
  reader : ∃ c, Says st.out c samples ∧ Recorded types st c
  typeIds_le : st.resourceTypeId.toNat ≤ st.resourceInstId.toNat
  instIds_le : st.resourceInstId.toNat ≤ 2 ^ 31

/-- The addresses of the objects in the map. -/
def Archive.keys (st : Archive P T) : List P := st.resourceInstMap.map (·.1)

/-- The lists of the sampler and the map of the writer. -/
structure Registered (st : Archive P T) : Prop where
  nodup : st.statsList.Nodup
  keysNodup : st.keys.Nodup
  mapped : ∀ p ∈ st.keys, p ∈ st.statsList
  new : ∀ p ∈ st.newStatsList, p ∈ st.statsList
  known : ∀ p ∈ st.statsList, (st.heap p).closed = false → p ∈ st.keys ∨ p ∈ st.newStatsList

/-- The objects may change, when no closed one is opened. -/
theorem Registered.modify {heap : P → Stats T} (h : Registered st)
    (hclosed : ∀ p, (heap p).closed = false → (st.heap p).closed = false) :
    Registered { st with heap := heap } :=
  ⟨h.nodup, h.keysNodup, h.mapped, h.new, fun p hp hopen => h.known p hp (hclosed p hopen)⟩

/-- The two objects are the same but for the values, and for one being closed. -/
structure SameObject (s s' : Stats T) : Prop where
  type : s.type = s'.type
  textId : s.textId = s'.textId
  numericId : s.numericId = s'.numericId

/-- The archive has nothing of the lists of the sampler, and of the objects only what does not
change. -/
theorem Archived.relist {heap : P → Stats T} {statsList newStatsList : List P}
    {previousTimeStamp : Int} (h : Archived types samples st)
    (hsame : ∀ p ∈ st.keys, SameObject (heap p) (st.heap p)) :
    Archived types samples { st with heap, statsList, newStatsList, previousTimeStamp } := by
  obtain ⟨⟨c, hout, hrec⟩, htypeIds, hinstIds⟩ := h
  refine ⟨⟨c, hout, ?_⟩, htypeIds, hinstIds⟩
  have hnode : ∀ node ∈ st.resourceInstMap, SameObject (heap node.1) (st.heap node.1) :=
    fun node hnode => hsame node.1 (mem_map_of_mem hnode)
  refine { hrec with instances := ?_, lengths := ?_ }
  · rw [hrec.instances]
    refine map_congr_left fun node hmem => ?_
    obtain ⟨htype, htextId, hnumericId⟩ := hnode node hmem
    unfold cataloged Stats.archived
    rw [htype, htextId, hnumericId]
  · intro node hmem
    rw [(hnode node hmem).type]
    exact hrec.lengths node hmem

/-! ### New instances -/

theorem toNat_add_one {v : BitVec 32} (h : v.toNat < 2 ^ 31) : (v + 1).toNat = v.toNat + 1 := by
  show (v.toNat + 1) % 2 ^ 32 = _
  omega

/-- What the loops over the addresses `l` do besides the bytes: the open objects of `l` get an
instance. -/
structure Grown (l : List P) (st st' : Archive P T) : Prop where
  heap : st'.heap = st.heap
  statsList : st'.statsList = st.statsList
  newStatsList : st'.newStatsList = st.newStatsList
  keys : ∀ q, q ∈ st'.keys ↔ q ∈ st.keys ∨ q ∈ l ∧ (st.heap q).closed = false
  keysNodup : st.keys.Nodup → st'.keys.Nodup
  instId_le : st'.resourceInstId.toNat ≤ st.resourceInstId.toNat + l.length

theorem Grown.nil (st : Archive P T) : Grown [] st st := by
  refine ⟨rfl, rfl, rfl, fun q => ?_, id, Nat.le_refl _⟩
  simp

theorem Grown.trans {l l' : List P} {st' st'' : Archive P T} (h : Grown l st st')
    (h' : Grown l' st' st'') : Grown (l ++ l') st st'' := by
  refine ⟨h'.heap.trans h.heap, h'.statsList.trans h.statsList,
    h'.newStatsList.trans h.newStatsList, fun q => ?_, h'.keysNodup ∘ h.keysNodup, ?_⟩
  · rw [h'.keys, h.keys, h.heap, mem_append, or_and_right, or_assoc]
  · have hle := h.instId_le
    have hle' := h'.instId_le
    rw [length_append]
    omega

variable {p : P}

theorem Grown.skip (h : (st.heap p).closed = false → p ∈ st.keys) : Grown [p] st st := by
  refine ⟨rfl, rfl, rfl, fun q => ?_, id, Nat.le_succ _⟩
  constructor
  · exact Or.inl
  · rintro (hq | ⟨hq, hopen⟩)
    · exact hq
    · obtain rfl := mem_singleton.mp hq
      exact h hopen

theorem Recorded.addInst {c : Catalog} (h : Recorded types st c)
    (hroom : st.resourceInstId.toNat < 2 ^ 31) {ri : ResourceInst}
    (hid : ri.id = st.resourceInstId)
    (hlen : ri.archivedStatValues.length = (types (st.heap p).type).stats.length)
    (out : List Byte) :
    Recorded types
      { st with
        resourceInstMap := st.resourceInstMap ++ [(p, ri)]
        out := out
        resourceInstId := st.resourceInstId + 1 }
      { c with instances := c.instances ++ [cataloged types st (p, ri)] } := by
  have hfresh : ri.id ∉ st.resourceInstMap.map (·.2.id) := by
    intro hmem
    obtain ⟨node, hnode, heq⟩ := mem_map.mp hmem
    exact absurd (h.instIds node hnode) (by rw [heq, hid]; exact Nat.lt_irrefl _)
  refine { h with instances := ?_, lengths := ?_, idsNodup := ?_, instIds := ?_ }
  · dsimp only
    rw [h.instances, map_append]
    rfl
  · exact forall_mem_append.mpr ⟨h.lengths, forall_mem_singleton.mpr hlen⟩
  · dsimp only
    rw [map_append, map_singleton]
    exact (perm_append_singleton _ _).nodup_iff.mpr (nodup_cons.mpr ⟨hfresh, h.idsNodup⟩)
  · dsimp only
    rw [toNat_add_one hroom, forall_mem_append, forall_mem_singleton, hid]
    exact ⟨fun node hnode => Nat.lt_succ_of_lt (h.instIds node hnode), Nat.lt_succ_self _⟩

variable {l : List P}

section

variable [DecidableEq T]

/-- A type that is defined, or is defined now. -/
theorem Recorded.getResourceType {c : Catalog} (h : Recorded types st c)
    (hout : Says st.out c samples) (htypes : ∀ t, (types t).stats.length ≤ 254)
    (hroom : st.resourceTypeId.toNat < 2 ^ 31) (t : T) :
    ∃ rt m i out c', st.getResourceType types t =
        (rt, { st with resourceTypeMap := m, resourceTypeId := i, out := out }) ∧
      Says out c' samples ∧
      Recorded types { st with resourceTypeMap := m, resourceTypeId := i, out := out } c' ∧
      c'.types.lookup rt.id = some (types t).archived ∧
      rt.numOfDescriptors = (types t).stats.length ∧ i.toNat ≤ st.resourceTypeId.toNat + 1 := by
  unfold Archive.getResourceType
  cases hfind : st.resourceTypeMap.find? (·.1 = t) with
  | some node =>
    have hmem := mem_of_find?_eq_some hfind
    have hkey : node.1 = t := by simpa using find?_some hfind
    refine ⟨node.2, st.resourceTypeMap, st.resourceTypeId, st.out, c, rfl, hout, h, ?_, ?_,
      Nat.le_succ _⟩
    · rw [h.defined node hmem, hkey]
    · rw [h.counts node hmem, hkey]
  | none =>
    have hid := toNat_add_one hroom
    have hread := readToken_resourceType st.resourceTypeId
      (t := types t) (Nat.lt_of_le_of_lt (htypes t) (by omega))
    refine ⟨⟨st.resourceTypeId, (types t).stats.length⟩, _, _, _,
      { c with types := (st.resourceTypeId, (types t).archived) :: c.types }, rfl, ?_, ?_, ?_,
      rfl, Nat.le_of_eq hid⟩
    · simp only [append_assoc] at hread ⊢
      exact hout.silent (cons_ne_nil _ _) hread rfl
    · have hold : ∀ node ∈ st.resourceTypeMap, (node.2.id == st.resourceTypeId) = false := by
        intro node hnode
        rw [beq_eq_false_iff_ne]
        intro heq
        exact absurd (h.typeIds node hnode) (by rw [heq]; exact Nat.lt_irrefl _)
      refine { h with defined := ?_, counts := ?_, typeIds := ?_ }
      · refine forall_mem_append.mpr ⟨fun node hnode => ?_, forall_mem_singleton.mpr ?_⟩
        · rw [lookup_cons, hold node hnode]
          exact h.defined node hnode
        · rw [lookup_cons_self]
      · exact forall_mem_append.mpr ⟨h.counts, forall_mem_singleton.mpr rfl⟩
      · dsimp only
        rw [hid, forall_mem_append, forall_mem_singleton]
        exact ⟨fun node hnode => Nat.lt_succ_of_lt (h.typeIds node hnode), Nat.lt_succ_self _⟩
    · rw [lookup_cons_self]

variable [DecidableEq P]

theorem allocateResourceInst_closed (h : (st.heap p).closed = true) :
    st.allocateResourceInst types p = st := by
  rw [allocateResourceInst]
  rw [if_pos h]

section
variable (h : Archived types samples st) (htypes : ∀ t, (types t).stats.length ≤ 254)
include h htypes

/-- An open object that is not in the map gets an instance, and the reader knows it. -/
theorem Archived.allocateResourceInst (hp : p ∉ st.keys) (hopen : (st.heap p).closed = false)
    (hroom : st.resourceInstId.toNat < 2 ^ 31) :
    Archived types samples (st.allocateResourceInst types p) ∧
      Grown [p] st (st.allocateResourceInst types p) := by
  obtain ⟨⟨c, hout, hrec⟩, htypeIds, -⟩ := h
  obtain ⟨rt, m, i, out, c', hget, hout', hrec', hlookup, hcount, hi⟩ :=
    hrec.getResourceType hout htypes (Nat.lt_of_le_of_lt htypeIds hroom) (st.heap p).type
  have hid := toNat_add_one hroom
  have hkey : ¬ p ∈ st.resourceInstMap.map (·.1) := hp
  have halloc : st.allocateResourceInst types p =
      { st with
        resourceTypeMap := m
        resourceTypeId := i
        resourceInstMap := st.resourceInstMap ++
          [(p, ⟨st.resourceInstId, rt, replicate rt.numOfDescriptors 0, true⟩)]
        out := out ++ (writeByte 2 ++ writeInt st.resourceInstId ++
          writeString (st.heap p).textId ++ writeLong (st.heap p).numericId ++ writeInt rt.id)
        resourceInstId := st.resourceInstId + 1 } := by
    rw [Archive.allocateResourceInst]
    dsimp only
    rw [if_neg (by simp [hopen]), hget]
    rw [if_neg hkey]
  have hlen : (replicate rt.numOfDescriptors (0 : BitVec 64)).length =
      (types (st.heap p).type).stats.length := by rw [length_replicate, hcount]
  rw [halloc]
  refine ⟨⟨⟨_, ?_, hrec'.addInst hroom rfl hlen _⟩, ?_, ?_⟩,
    ⟨rfl, rfl, rfl, fun q => ?_, ?_, ?_⟩⟩
  · refine hout'.silent (cons_ne_nil _ _) (readToken_instanceCreate _ _ _ _) ?_
    have hstats : (types (st.heap p).type).archived.stats.length = rt.numOfDescriptors := by
      rw [hcount]
      exact length_map _
    rw [Token.apply, hlookup]
    dsimp only
    rw [hstats]
    rfl
  · dsimp only
    omega
  · dsimp only
    omega
  · simp only [Archive.keys, map_append, map_singleton, mem_append,
      mem_singleton]
    refine or_congr_right ⟨?_, And.left⟩
    rintro rfl
    exact ⟨rfl, hopen⟩
  · intro hnodup
    simp only [Archive.keys, map_append, map_singleton]
    exact (perm_append_singleton _ _).nodup_iff.mpr (nodup_cons.mpr ⟨hp, hnodup⟩)
  · exact Nat.le_of_eq hid

theorem Archived.allocateNew (hroom : st.resourceInstId.toNat + l.length ≤ 2 ^ 31) :
    Archived types samples (st.allocateNew types l) ∧ Grown l st (st.allocateNew types l) := by
  induction l generalizing st with
  | nil => exact ⟨h, Grown.nil st⟩
  | cons p l ih =>
    rw [length_cons] at hroom
    have hfirst : Archived types samples
          (if st.resourceInstMapHas p then st else st.allocateResourceInst types p) ∧
        Grown [p] st (if st.resourceInstMapHas p then st else st.allocateResourceInst types p) := by
      by_cases hhas : st.resourceInstMapHas p = true
      · rw [if_pos hhas]
        exact ⟨h, Grown.skip fun _ => of_decide_eq_true hhas⟩
      · rw [if_neg hhas]
        cases hclosed : (st.heap p).closed with
        | true =>
          rw [allocateResourceInst_closed hclosed]
          exact ⟨h, Grown.skip fun hopen => absurd (hclosed.symm.trans hopen) (by decide)⟩
        | false =>
          have hp : p ∉ st.keys := fun hp => hhas (decide_eq_true hp)
          exact h.allocateResourceInst htypes hp hclosed (by omega)
    obtain ⟨harch, hgrown⟩ := hfirst
    have hle := hgrown.instId_le
    rw [length_singleton] at hle
    obtain ⟨harch', hgrown'⟩ := ih harch (by omega)
    exact ⟨harch', hgrown.trans hgrown'⟩

end

theorem keys_allocateResourceInst {p q : P} (h : q ∈ (st.allocateResourceInst types p).keys) :
    q ∈ st.keys ∨ q = p := by
  have hget : (st.getResourceType types (st.heap p).type).2.resourceInstMap =
      st.resourceInstMap := by
    unfold getResourceType
    cases st.resourceTypeMap.find? (·.1 = (st.heap p).type) <;> rfl
  unfold Archive.keys allocateResourceInst at *
  dsimp only at h
  split at h
  · exact Or.inl h
  · rw [hget] at h
    split at h
    · exact Or.inl h
    · simpa using h

/-- The constructor goes through the objects that there are, and none has an instance yet. -/
theorem resampleResources_eq (hnodup : l.Nodup) (hkeys : ∀ p ∈ l, p ∉ st.keys) :
    l.foldl (fun st p => if (st.heap p).closed then st else st.allocateResourceInst types p) st =
      st.allocateNew types l := by
  induction l generalizing st with
  | nil => rfl
  | cons p l ih =>
    obtain ⟨hp, hl⟩ := nodup_cons.mp hnodup
    have hhas : ¬ st.resourceInstMapHas p = true := fun hhas =>
      hkeys p mem_cons_self (of_decide_eq_true hhas)
    have hstep : (if (st.heap p).closed then st else st.allocateResourceInst types p) =
        st.allocateResourceInst types p := by
      by_cases hclosed : (st.heap p).closed = true
      · rw [if_pos hclosed, allocateResourceInst_closed hclosed]
      · rw [if_neg hclosed]
    rw [foldl_cons, hstep, allocateNew, if_neg hhas]
    refine ih hl fun q hq hmem => ?_
    obtain hmem | rfl := keys_allocateResourceInst hmem
    · exact hkeys q (mem_cons_of_mem p hq) hmem
    · exact hp hq

end

/-! ### Closed objects -/

/-- What the loop over the addresses `l` does besides the bytes: the closed objects of `l` are
dropped. -/
structure Shrunk (l : List P) (st st' : Archive P T) : Prop where
  heap : st'.heap = st.heap
  newStatsList : st'.newStatsList = st.newStatsList
  statsList : ∀ q, q ∈ st'.statsList ↔ q ∈ st.statsList ∧ ¬ (q ∈ l ∧ (st.heap q).closed = true)
  nodup : st'.statsList.Nodup
  keys : ∀ q, q ∈ st'.keys ↔ q ∈ st.keys ∧ ¬ (q ∈ l ∧ (st.heap q).closed = true)
  keysNodup : st'.keys.Nodup

theorem Shrunk.trans {l l' : List P} {st' st'' : Archive P T} (h : Shrunk l st st')
    (h' : Shrunk l' st' st'') : Shrunk (l ++ l') st st'' := by
  refine ⟨h'.heap.trans h.heap, h'.newStatsList.trans h.newStatsList,
    fun q => ?_, h'.nodup, fun q => ?_, h'.keysNodup⟩
  · rw [h'.statsList, h.statsList, h.heap, mem_append, or_and_right, not_or, and_assoc]
  · rw [h'.keys, h.keys, h.heap, mem_append, or_and_right, not_or, and_assoc]

theorem Shrunk.keep (hnone : ∀ q, ¬ (q ∈ l ∧ (st.heap q).closed = true))
    (hnodup : st.statsList.Nodup) (hkeys : st.keys.Nodup) : Shrunk l st st :=
  ⟨rfl, rfl, fun q => (and_iff_left (hnone q)).symm, hnodup,
    fun q => (and_iff_left (hnone q)).symm, hkeys⟩

section

variable [DecidableEq P]

/-- The instance of a closed object is dropped by the writer and by the reader. -/
theorem Archived.dropInst {ri : ResourceInst} (h : Archived types samples st)
    (hkeys : st.keys.Nodup) (hmem : (p, ri) ∈ st.resourceInstMap) :
    Archived types samples
      { st with
        statsList := st.statsList.erase p
        resourceInstMap := st.resourceInstMap.filter (·.1 ≠ p)
        out := st.out ++ (writeByte 3 ++ writeInt ri.id) } := by
  obtain ⟨⟨c, hout, hrec⟩, htypeIds, hinstIds⟩ := h
  refine ⟨⟨{ c with instances := c.instances.filter (·.1 ≠ ri.id) }, ?_, ?_⟩, htypeIds, hinstIds⟩
  · exact hout.silent (cons_ne_nil _ _) (readToken_instanceDelete ri.id) rfl
  · have hsub : ∀ node ∈ st.resourceInstMap.filter (·.1 ≠ p), node ∈ st.resourceInstMap :=
      fun node hnode => (mem_filter.mp hnode).1
    refine { hrec with instances := ?_, lengths := ?_, idsNodup := ?_, instIds := ?_ }
    · dsimp only
      rw [hrec.instances, filter_map]
      refine congrArg (map _) (filter_congr fun node hnode => ?_)
      -- both the addresses and the ids are distinct
      have hiff : node.2.id = ri.id ↔ node.1 = p := by
        constructor
        · intro heq
          rw [inj_on_of_nodup_map hrec.idsNodup hnode hmem heq]
        · intro heq
          rw [inj_on_of_nodup_map hkeys hnode hmem heq]
      simp [cataloged, hiff]
    · exact fun node hnode => hrec.lengths node (hsub node hnode)
    · exact hrec.idsNodup.sublist (filter_sublist.map _)
    · exact fun node hnode => hrec.instIds node (hsub node hnode)

/-- An object that is closed goes, and so does its instance if it has one. -/
theorem Shrunk.drop (hclosed : (st.heap p).closed = true) (hnodup : st.statsList.Nodup)
    (hkeys : st.keys.Nodup) {m : List (P × ResourceInst)}
    (hm : m.map (·.1) = st.keys.filter (· ≠ p)) (out : List Byte) :
    Shrunk [p] st
      { st with statsList := st.statsList.erase p, resourceInstMap := m, out := out } := by
  have hone : ∀ q, ¬ (q ∈ [p] ∧ (st.heap q).closed = true) ↔ q ≠ p := by
    intro q
    rw [mem_singleton, not_iff_not, and_iff_left_iff_imp]
    rintro rfl
    exact hclosed
  refine ⟨rfl, rfl, fun q => ?_, hnodup.erase p, fun q => ?_, ?_⟩
  · rw [hone, hnodup.mem_erase_iff, and_comm]
  · rw [hone, Archive.keys, hm, mem_filter, decide_eq_true_iff]
  · rw [Archive.keys, hm]
    exact hkeys.filter _

theorem Archived.deleteClosed (h : Archived types samples st) (hnodup : st.statsList.Nodup)
    (hkeys : st.keys.Nodup) :
    Archived types samples (st.deleteClosed l) ∧ Shrunk l st (st.deleteClosed l) := by
  induction l generalizing st with
  | nil => exact ⟨h, .keep (fun q hq => nomatch hq.1) hnodup hkeys⟩
  | cons p l ih =>
    rw [deleteClosed]
    cases hclosed : (st.heap p).closed with
    | false =>
      rw [if_neg Bool.false_ne_true]
      obtain ⟨harch, hshrunk⟩ := ih h hnodup hkeys
      refine ⟨harch, Shrunk.trans (l := [p]) (.keep ?_ hnodup hkeys) hshrunk⟩
      rintro q ⟨hq, hopen⟩
      rw [mem_singleton.mp hq, hclosed] at hopen
      cases hopen
    | true =>
      rw [if_pos rfl]
      cases hfind : st.resourceInstMap.find? (·.1 = p) with
      | some node =>
        obtain ⟨q, ri⟩ := node
        obtain rfl : q = p := by simpa using find?_some hfind
        have hfilter : (st.resourceInstMap.filter (·.1 ≠ q)).map (·.1) =
            st.keys.filter (· ≠ q) := by
          rw [Archive.keys, filter_map]
          rfl
        have hdrop := Shrunk.drop hclosed hnodup hkeys hfilter
          (st.out ++ (writeByte 3 ++ writeInt ri.id))
        obtain ⟨harch, hshrunk⟩ := ih (h.dropInst hkeys (mem_of_find?_eq_some hfind))
          hdrop.nodup hdrop.keysNodup
        exact ⟨harch, hdrop.trans hshrunk⟩
      | none =>
        have hfilter : st.resourceInstMap.map (·.1) = st.keys.filter (· ≠ p) := by
          rw [Archive.keys, eq_comm, filter_eq_self]
          intro q hq
          obtain ⟨node, hnode, rfl⟩ := mem_map.mp hq
          simpa using find?_eq_none.mp hfind node hnode
        have hdrop := Shrunk.drop hclosed hnodup hkeys hfilter st.out
        have herase : Archived types samples { st with statsList := st.statsList.erase p } :=
          h.relist fun _ _ => ⟨rfl, rfl, rfl⟩
        obtain ⟨harch, hshrunk⟩ := ih herase hdrop.nodup hdrop.keysNodup
        exact ⟨harch, hdrop.trans hshrunk⟩

end

/-! ### The time of the sample before -/

section
variable [DecidableEq P] [DecidableEq T] (types)

omit [DecidableEq P] in
/-- A new type is archived without a time. -/
theorem previousTimeStamp_getResourceType (st : Archive P T) (t : T) :
    (st.getResourceType types t).2.previousTimeStamp = st.previousTimeStamp := by
  unfold getResourceType
  split <;> rfl

/-- So is a new object. -/
theorem previousTimeStamp_allocateNew (l : List P) (st : Archive P T) :
    (st.allocateNew types l).previousTimeStamp = st.previousTimeStamp := by
  induction l generalizing st with
  | nil => rfl
  | cons p l ih =>
    rw [allocateNew, ih]
    split
    · rfl
    · unfold allocateResourceInst
      dsimp only
      split
      · rfl
      · exact previousTimeStamp_getResourceType types st _

omit [DecidableEq T] in
/-- So is the end of an object. -/
theorem previousTimeStamp_deleteClosed (l : List P) (st : Archive P T) :
    (st.deleteClosed l).previousTimeStamp = st.previousTimeStamp := by
  induction l generalizing st with
  | nil => rfl
  | cons p l ih =>
    unfold deleteClosed
    split
    · split <;> exact ih _
    · exact ih st

/-- The time of the sample before is still the same when its successor is written. -/
theorem previousTimeStamp_sampleResources (st : Archive P T) :
    (st.sampleResources types).previousTimeStamp = st.previousTimeStamp :=
  (previousTimeStamp_deleteClosed _ _).trans (previousTimeStamp_allocateNew types _ st)

end

end GeodeNative.Statistics

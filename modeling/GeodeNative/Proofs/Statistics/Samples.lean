import GeodeNative.Proofs.Statistics.Tokens

/-!
# The meaning of the tokens

What a reader knows after some tokens (`Interprets`) and after some bytes (`Says`), and what a
sample does to it. A sample has the differences between the values that were archived and the
values of the objects, and leaves out those that did not change. Added to what the reader knows,
they give the values of the objects (`applyChanges_sampleChanges`), in whatever order the instances
are passed through.
-/

set_option autoImplicit false

namespace GeodeNative.Statistics

open Lib StatDataOutput List

/-! ### Sequences of tokens -/

/-- From the catalog `c`, the tokens lead to the catalog `c'`, with these samples on the way. -/
def Interprets (c : Catalog) (tokens : List Token) (c' : Catalog) (samples : List (List Instance)) :
    Prop :=
  ∀ rest, interpret c (tokens ++ rest) = (interpret c' rest).map (samples ++ ·)

namespace Interprets

variable {c c' c'' : Catalog} {tokens tokens' : List Token} {token : Token}
  {samples samples' : List (List Instance)}

theorem nil (c : Catalog) : Interprets c [] c [] := by
  intro rest
  rw [nil_append]
  cases interpret c rest <;> rfl

theorem trans (h : Interprets c tokens c' samples) (h' : Interprets c' tokens' c'' samples') :
    Interprets c (tokens ++ tokens') c'' (samples ++ samples') := by
  intro rest
  rw [append_assoc, h, h']
  cases interpret c'' rest with
  | error e => rfl
  | ok later => exact congrArg Except.ok (append_assoc samples samples' later).symm

theorem silent (h : token.apply c = .ok (c', none)) : Interprets c [token] c' [] := by
  intro rest
  rw [singleton_append, interpret, h]
  dsimp only
  cases interpret c' rest <;> rfl

theorem sampled {sample : List Instance} (h : token.apply c = .ok (c', some sample)) :
    Interprets c [token] c' [sample] := by
  intro rest
  rw [singleton_append, interpret, h]
  dsimp only
  cases interpret c' rest <;> rfl

end Interprets

/-- The bytes have these samples, and a reader of them ends with the catalog `c`. -/
def Says (bytes : List Byte) (c : Catalog) (samples : List (List Instance)) : Prop :=
  ∃ tokens, Spells bytes tokens ∧ Interprets ⟨[], []⟩ tokens c samples

namespace Says

variable {bytes piece : List Byte} {c c' : Catalog} {token : Token}
  {samples : List (List Instance)}

theorem nil : Says [] ⟨[], []⟩ [] := ⟨[], Spells.nil, Interprets.nil _⟩

section
variable (h : Says bytes c samples) (hne : piece ≠ []) (hread : Reads readToken piece token)
include h hne hread

theorem silent (happly : token.apply c = .ok (c', none)) : Says (bytes ++ piece) c' samples := by
  obtain ⟨tokens, hspells, hmeaning⟩ := h
  refine ⟨tokens ++ [token], hspells.append (Spells.single hne hread), ?_⟩
  have hboth := hmeaning.trans (Interprets.silent happly)
  rwa [append_nil] at hboth

theorem sampled {sample : List Instance} (happly : token.apply c = .ok (c', some sample)) :
    Says (bytes ++ piece) c' (samples ++ [sample]) := by
  obtain ⟨tokens, hspells, hmeaning⟩ := h
  exact ⟨tokens ++ [token], hspells.append (Spells.single hne hread),
    hmeaning.trans (Interprets.sampled happly)⟩

end

theorem decode_eq (h : Says bytes c samples) : decode bytes = .ok samples := by
  obtain ⟨tokens, hspells, hmeaning⟩ := h
  obtain ⟨s, hread⟩ := hspells.readTokens
  have hend := hmeaning []
  rw [append_nil] at hend
  unfold decode
  rw [hread]
  exact hend.trans (congrArg Except.ok (append_nil samples))

end Says

/-! ### The changes of one instance -/

/-- The changes that `writeStats` writes. -/
def statChanges (checkForChange : Bool) (rawBits : Nat → BitVec 64) (i : Nat) :
    List (BitVec 64) → List (Byte × BitVec 64)
  | [] => []
  | archived :: rest =>
    let changes := statChanges checkForChange rawBits (i + 1) rest
    if !checkForChange || rawBits i != archived then
      (BitVec.ofNat 8 i, rawBits i - archived) :: changes
    else changes

/-- The values from number `i` on. -/
def valuesFrom (rawBits : Nat → BitVec 64) (i n : Nat) : List (BitVec 64) :=
  (range' i n).map rawBits

theorem valuesFrom_succ (rawBits : Nat → BitVec 64) (i n : Nat) :
    valuesFrom rawBits i (n + 1) = rawBits i :: valuesFrom rawBits (i + 1) n := rfl

variable {check : Bool} {rawBits : Nat → BitVec 64} {i : Nat}

theorem writeStats_eq (archived : List (BitVec 64)) :
    writeStats check rawBits i archived =
      (changeBytes (statChanges check rawBits i archived),
        valuesFrom rawBits i archived.length) := by
  induction archived generalizing i with
  | nil => rfl
  | cons value archived ih =>
    rw [writeStats, statChanges, length_cons, valuesFrom_succ, ih]
    by_cases hchange : (!check || rawBits i != value) = true
    · rw [if_pos hchange, if_pos hchange]
      rfl
    · rw [if_neg hchange, if_neg hchange]
      -- a value that is not written is the one that was archived
      have hsame : rawBits i = value := by
        simp only [Bool.or_eq_true, not_or, bne_iff_ne, ne_eq, not_not] at hchange
        exact hchange.2
      rw [hsame]

theorem length_statChanges_le (archived : List (BitVec 64)) :
    (statChanges check rawBits i archived).length ≤ archived.length := by
  induction archived generalizing i with
  | nil => exact Nat.le_refl 0
  | cons value archived ih =>
    have hrest := ih (i := i + 1)
    rw [statChanges]
    split
    · exact Nat.succ_le_succ hrest
    · exact Nat.le_succ_of_le hrest

theorem offset_ne {archived : List (BitVec 64)} (h : i + archived.length ≤ 255) :
    ∀ c ∈ statChanges check rawBits i archived, c.1 ≠ 255 := by
  induction archived generalizing i with
  | nil => nofun
  | cons value archived ih =>
    rw [length_cons] at h
    have hrest := ih (i := i + 1) (by omega)
    have hfirst : BitVec.ofNat 8 i ≠ 255 := by
      intro heq
      have hnat := congrArg BitVec.toNat heq
      rw [BitVec.toNat_ofNat, Nat.mod_eq_of_lt (by omega)] at hnat
      have hmax : (255 : Byte).toNat = 255 := rfl
      omega
    rw [statChanges]
    split
    · exact forall_mem_cons.mpr ⟨hfirst, hrest⟩
    · exact hrest

/-- The changes lead from the values that were archived to those of the object. -/
theorem addChanges_statChanges (done : List (BitVec 64)) {archived : List (BitVec 64)}
    (h : done.length + archived.length ≤ 255) :
    addChanges (statChanges check rawBits done.length archived) (done ++ archived) =
      .ok (done ++ valuesFrom rawBits done.length archived.length) := by
  induction archived generalizing done with
  | nil => rfl
  | cons value archived ih =>
    rw [length_cons] at h
    have hlen : (done ++ [rawBits done.length]).length + archived.length ≤ 255 := by
      rw [length_append, length_singleton]
      omega
    have hrest := ih (done ++ [rawBits done.length]) hlen
    rw [length_append, length_singleton, append_assoc, singleton_append,
      append_assoc, singleton_append, ← valuesFrom_succ] at hrest
    rw [statChanges, length_cons]
    by_cases hchange : (!check || rawBits done.length != value) = true
    · have hoffset : (BitVec.ofNat 8 done.length).toNat = done.length := by
        rw [BitVec.toNat_ofNat]
        omega
      have hat : (done ++ value :: archived)[done.length]? = some value := by simp
      have hset : (done ++ value :: archived).set done.length (rawBits done.length) =
          done ++ rawBits done.length :: archived := by simp
      have hsum : value + (rawBits done.length - value) = rawBits done.length := by
        rw [BitVec.add_comm, BitVec.sub_add_cancel]
      rw [if_pos hchange, addChanges, hoffset, hat]
      dsimp only
      rw [hsum, hset, hrest]
    · have hsame : rawBits done.length = value := by
        simp only [Bool.or_eq_true, not_or, bne_iff_ne, ne_eq, not_not] at hchange
        exact hchange.2
      rw [if_neg hchange]
      rwa [hsame] at hrest

/-! ### The changes of a sample -/

theorem lookup_of_mem {K V : Type} [DecidableEq K] {l : List (K × V)}
    (hnodup : (l.map (·.1)).Nodup) {k : K} {v : V} (h : (k, v) ∈ l) : l.lookup k = some v := by
  obtain ⟨front, back, rfl⟩ := append_of_mem h
  rw [map_append, nodup_append] at hnodup
  refine lookup_eq_some_iff.mpr ⟨front, back, rfl, fun p hp => ?_⟩
  simpa using (hnodup.2.2 p.1 (mem_map_of_mem hp) k mem_cons_self).symm

/-- Each change is found, and leads to the values of `target`. -/
theorem applyChanges_eq (target : BitVec 32 → List (BitVec 64))
    {changes : List (BitVec 32 × List (Byte × BitVec 64))} {instances : List (BitVec 32 × Instance)}
    (hids : (instances.map (·.1)).Nodup) (hnodup : (changes.map (·.1)).Nodup)
    (h : ∀ c ∈ changes, ∃ inst, (c.1, inst) ∈ instances ∧
      addChanges c.2 inst.values = .ok (target c.1)) :
    applyChanges changes instances = .ok (instances.map fun node =>
      if node.1 ∈ changes.map (·.1) then (node.1, { node.2 with values := target node.1 })
      else node) := by
  induction changes generalizing instances with
  | nil => simp [applyChanges]
  | cons c changes ih =>
    rw [map_cons, nodup_cons] at hnodup
    obtain ⟨inst, hmem, hadd⟩ := h c mem_cons_self
    have hkeys : ∀ node : BitVec 32 × Instance,
        (if node.1 = c.1 then (c.1, { inst with values := target c.1 }) else node).1 = node.1 := by
      intro node
      split
      · exact Eq.symm ‹_›
      · rfl
    rw [applyChanges, lookup_of_mem hids hmem]
    dsimp only
    rw [hadd]
    dsimp only
    rw [ih ?_ hnodup.2 ?_, map_map]
    · refine congrArg Except.ok (map_congr_left fun node hnode => ?_)
      rw [Function.comp_apply, hkeys]
      by_cases heq : node.1 = c.1
      · -- the ids are distinct, so this is the instance that was found
        have hinst : node.2 = inst := by
          have hlookup := lookup_of_mem hids (show (node.1, node.2) ∈ instances from hnode)
          rw [heq, lookup_of_mem hids hmem] at hlookup
          exact (Option.some.inj hlookup).symm
        have hnot : ¬ c.1 ∈ changes.map (·.1) := hnodup.1
        rw [heq, if_neg hnot, if_pos rfl, map_cons, if_pos mem_cons_self, hinst]
      · rw [if_neg heq]
        by_cases hin : node.1 ∈ changes.map (·.1)
        · rw [if_pos hin, map_cons, if_pos (mem_cons_of_mem _ hin)]
        · rw [if_neg hin, map_cons, if_neg (by simp [heq, hin])]
    · rw [map_map]
      rwa [show ((fun node : BitVec 32 × Instance => node.1) ∘ fun node => if node.1 = c.1 then
        (c.1, { inst with values := target c.1 }) else node) = (·.1) from funext hkeys]
    · intro d hd
      obtain ⟨other, hother, hadd'⟩ := h d (mem_cons_of_mem c hd)
      refine ⟨other, ?_, hadd'⟩
      have hne : d.1 ≠ c.1 := fun heq => hnodup.1 (heq ▸ mem_map_of_mem hd)
      exact mem_map.mpr ⟨(d.1, other), hother, by rw [if_neg hne]⟩

section

variable {P T : Type} {types : T → StatisticsType} {st : Archive P T}

/-- The changes of an instance in a sample. -/
def nodeChanges (st : Archive P T) (node : P × ResourceInst) : List (Byte × BitVec 64) :=
  statChanges (!node.2.firstTime) (st.heap node.1).rawBits 0 node.2.archivedStatValues

/-- The instances of a sample that have a change. -/
def sampleChanges (st : Archive P T) (nodes : List (P × ResourceInst)) :
    List (BitVec 32 × List (Byte × BitVec 64)) :=
  (nodes.map fun node => (node.2.id, nodeChanges st node)).filter fun c => !c.2.isEmpty

/-- An open object writes its changes, if there are any. Its values are then archived. -/
theorem writeSample_eq {closed : Bool} (ri : ResourceInst) (h : closed = false) :
    ri.writeSample closed rawBits =
      (if (statChanges (!ri.firstTime) rawBits 0 ri.archivedStatValues).isEmpty then []
        else instanceBytes (ri.id, statChanges (!ri.firstTime) rawBits 0 ri.archivedStatValues),
        { ri with
          archivedStatValues := valuesFrom rawBits 0 ri.archivedStatValues.length
          firstTime := false }) := by
  rw [ResourceInst.writeSample, if_neg (by simp [h]), writeStats_eq]
  dsimp only
  cases statChanges (!ri.firstTime) rawBits 0 ri.archivedStatValues <;> rfl

variable {nodes : List (P × ResourceInst)}

theorem writeSamples_eq (hopen : ∀ node ∈ nodes, (st.heap node.1).closed = false) :
    st.writeSamples nodes = (sampleChanges st nodes).flatMap instanceBytes := by
  induction nodes with
  | nil => rfl
  | cons node nodes ih =>
    obtain ⟨hnode, hnodes⟩ := forall_mem_cons.mp hopen
    rw [Archive.writeSamples, ih hnodes, writeSample_eq node.2 hnode, sampleChanges, sampleChanges,
      map_cons, filter_cons]
    change (if (nodeChanges st node).isEmpty then [] else instanceBytes _) ++ _ = _
    by_cases hempty : (nodeChanges st node).isEmpty = true
    · rw [if_pos hempty, if_neg (by simp [hempty])]
      rfl
    · rw [if_neg hempty, if_pos (by simp [hempty])]
      rfl

theorem mem_sampleChanges {c : BitVec 32 × List (Byte × BitVec 64)} :
    c ∈ sampleChanges st nodes ↔
      ∃ node ∈ nodes, c = (node.2.id, nodeChanges st node) ∧ nodeChanges st node ≠ [] := by
  rw [sampleChanges, mem_filter, mem_map]
  constructor
  · rintro ⟨⟨node, hnode, rfl⟩, hne⟩
    exact ⟨node, hnode, rfl, by simpa using hne⟩
  · rintro ⟨node, hnode, rfl, hne⟩
    exact ⟨⟨node, hnode, rfl⟩, by simpa using hne⟩

/-- The changes of an instance lead to the values of its object. -/
theorem addChanges_nodeChanges (st : Archive P T) {node : P × ResourceInst}
    (h : node.2.archivedStatValues.length ≤ 255) :
    addChanges (nodeChanges st node) node.2.archivedStatValues =
      .ok (valuesFrom (st.heap node.1).rawBits 0 node.2.archivedStatValues.length) :=
  addChanges_statChanges [] (by rw [length_nil]; omega)

theorem legal_sampleChanges (hids : ∀ node ∈ nodes, 0 ≤ node.2.id.toInt)
    (hlengths : ∀ node ∈ nodes, node.2.archivedStatValues.length ≤ 255) :
    ∀ c ∈ sampleChanges st nodes, LegalChanges c := by
  intro c hc
  obtain ⟨node, hnode, rfl, -⟩ := mem_sampleChanges.mp hc
  have hlen := hlengths node hnode
  exact ⟨hids node hnode, (length_statChanges_le _).trans hlen, offset_ne (by omega)⟩

/-- The instances of a map of the writer, with the archived values. -/
def cataloged (types : T → StatisticsType) (st : Archive P T) (node : P × ResourceInst) :
    BitVec 32 × Instance :=
  (node.2.id, (st.heap node.1).archived types node.2.archivedStatValues)

/-- The instance after a sample. -/
def sampledInst (st : Archive P T) (node : P × ResourceInst) : ResourceInst :=
  { node.2 with
    archivedStatValues := valuesFrom (st.heap node.1).rawBits 0 node.2.archivedStatValues.length
    firstTime := false }

/-- A sample gives the reader the values of the objects. -/
theorem applyChanges_sampleChanges {nodes inOrder : List (P × ResourceInst)}
    (hperm : inOrder.Perm nodes) (hids : (nodes.map (·.2.id)).Nodup)
    (hlengths : ∀ node ∈ nodes, node.2.archivedStatValues.length ≤ 255) :
    applyChanges (sampleChanges st inOrder) (nodes.map (cataloged types st)) =
      .ok (nodes.map fun node => cataloged types st (node.1, sampledInst st node)) := by
  -- the values that the changes of the instance with an id lead to
  let target : BitVec 32 → List (BitVec 64) := fun id =>
    ((nodes.map fun node => (node.2.id, (sampledInst st node).archivedStatValues)).lookup
      id).getD []
  have htarget : ∀ node ∈ nodes, target node.2.id = (sampledInst st node).archivedStatValues := by
    intro node hnode
    have hlookup := lookup_of_mem
      (l := nodes.map fun node => (node.2.id, (sampledInst st node).archivedStatValues))
      (by rw [map_map]; exact hids) (mem_map.mpr ⟨node, hnode, rfl⟩)
    show (lookup _ _).getD [] = _
    rw [hlookup, Option.getD_some]
  have hcatalog : ((nodes.map (cataloged types st)).map (·.1)).Nodup := by
    rw [map_map]
    exact hids
  have hchanges : ((sampleChanges st inOrder).map (·.1)).Nodup := by
    have hall : ((inOrder.map fun node => (node.2.id, nodeChanges st node)).map (·.1)).Nodup := by
      rw [map_map]
      exact (hperm.map (·.2.id)).nodup_iff.mpr hids
    exact hall.sublist (filter_sublist.map _)
  rw [applyChanges_eq target hcatalog hchanges ?_, map_map]
  · refine congrArg Except.ok (map_congr_left fun node hnode => ?_)
    rw [Function.comp_apply]
    by_cases hin : (cataloged types st node).1 ∈ (sampleChanges st inOrder).map (·.1)
    · rw [if_pos hin]
      show (node.2.id, (st.heap node.1).archived types (target node.2.id)) = _
      rw [htarget node hnode]
      rfl
    · -- without a change the archived values are those of the object
      rw [if_neg hin]
      have hempty : nodeChanges st node = [] := by
        by_contra hne
        exact hin (mem_map.mpr ⟨(node.2.id, nodeChanges st node),
          mem_sampleChanges.mpr ⟨node, hperm.mem_iff.mpr hnode, rfl, hne⟩, rfl⟩)
      have hsame := addChanges_nodeChanges st (hlengths node hnode)
      rw [hempty] at hsame
      have hvalues := Except.ok.inj hsame
      unfold cataloged sampledInst
      rw [← hvalues]
  · intro c hc
    obtain ⟨node, hnode, rfl, -⟩ := mem_sampleChanges.mp hc
    have hnode' := hperm.mem_iff.mp hnode
    refine ⟨(cataloged types st node).2, mem_map.mpr ⟨node, hnode', rfl⟩, ?_⟩
    rw [htarget node hnode']
    exact addChanges_nodeChanges st (hlengths node hnode')

end

end GeodeNative.Statistics

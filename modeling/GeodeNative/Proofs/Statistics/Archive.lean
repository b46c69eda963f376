import GeodeNative.Lib.Run
import GeodeNative.Proofs.Statistics.Instances

/-!
# An archive is read back

`decode_archive`: in every run of registrations, changes of values, closings and samples, a reader
of the bytes gets, at each sample, the open objects with their types and the exact values of their
statistics.

The condition of a run is `ArchiveOp.Fits`. An object is registered under an address that is free.
A sample is at a time that can be told from the token for a long difference (`StampFits`), and
there are ids left for the new objects. Without the condition on the time the reader gets out of
step (`decode_archive_long_pause`).
-/

set_option autoImplicit false

namespace GeodeNative.Statistics

open Lib StatDataOutput List

variable {P T : Type} {types : T → StatisticsType} {samples : List (List Instance)}
  {st : Archive P T}

/-! ### Samples -/

theorem toInt_nonneg {v : BitVec 32} (h : v.toNat < 2 ^ 31) : 0 ≤ v.toInt := by
  have hcond := BitVec.toInt_eq_toNat_cond v
  split at hcond <;> omega

/-- The sample proper, when the map has only open objects. -/
theorem Archived.writeSamples (h : Archived types samples st)
    (htypes : ∀ t, (types t).stats.length ≤ 254)
    (hopen : ∀ node ∈ st.resourceInstMap, (st.heap node.1).closed = false)
    {inOrder : List (P × ResourceInst)} (horder : inOrder.Perm st.resourceInstMap)
    {timeStamp : Int} (hstamp : StampFits (Archive.stampDelta st.previousTimeStamp timeStamp)) :
    Archived types
      (samples ++ [st.keys.map fun p => (st.heap p).archived types ((st.heap p).values types)])
      { st with
        previousTimeStamp := timeStamp
        resourceInstMap := st.resourceInstMap.map fun node =>
          (node.1, (node.2.writeSample (st.heap node.1).closed (st.heap node.1).rawBits).2)
        out := st.out ++ (writeByte 0 ++
          Archive.writeTimeStamp (Archive.stampDelta st.previousTimeStamp timeStamp) ++
          st.writeSamples inOrder ++ writeResourceInst (-1)) } := by
  obtain ⟨⟨c, hout, hrec⟩, htypeIds, hinstIds⟩ := h
  have hlengths : ∀ node ∈ st.resourceInstMap, node.2.archivedStatValues.length ≤ 255 := by
    intro node hnode
    have hcount := htypes (st.heap node.1).type
    rw [hrec.lengths node hnode]
    omega
  have hids : ∀ node ∈ st.resourceInstMap, 0 ≤ node.2.id.toInt := fun node hnode =>
    toInt_nonneg (Nat.lt_of_lt_of_le (hrec.instIds node hnode) hinstIds)
  have hlegal : ∀ d ∈ sampleChanges st inOrder, LegalChanges d :=
    legal_sampleChanges (fun node hnode => hids node (horder.mem_iff.mp hnode))
      fun node hnode => hlengths node (horder.mem_iff.mp hnode)
  have hbytes : st.writeSamples inOrder = (sampleChanges st inOrder).flatMap instanceBytes :=
    writeSamples_eq fun node hnode => hopen node (horder.mem_iff.mp hnode)
  have hmap : (st.resourceInstMap.map fun node =>
        (node.1, (node.2.writeSample (st.heap node.1).closed (st.heap node.1).rawBits).2)) =
      st.resourceInstMap.map fun node => (node.1, sampledInst st node) := by
    refine map_congr_left fun node hnode => ?_
    rw [writeSample_eq node.2 (hopen node hnode)]
    rfl
  obtain ⟨stamp, hread⟩ := readToken_sample hstamp hlegal
  have happly : (Token.sample stamp (sampleChanges st inOrder)).apply c =
      .ok (⟨c.types, st.resourceInstMap.map fun node =>
          cataloged types st (node.1, sampledInst st node)⟩,
        some ((st.resourceInstMap.map fun node =>
          cataloged types st (node.1, sampledInst st node)).map (·.2))) := by
    rw [Token.apply, hrec.instances, applyChanges_sampleChanges horder hrec.idsNodup hlengths]
  have hsample : ((st.resourceInstMap.map fun node =>
        cataloged types st (node.1, sampledInst st node)).map (·.2)) =
      st.keys.map fun p => (st.heap p).archived types ((st.heap p).values types) := by
    rw [Archive.keys, map_map, map_map]
    refine map_congr_left fun node hnode => ?_
    show (st.heap node.1).archived types (valuesFrom _ 0 _) = _
    rw [hrec.lengths node hnode, Function.comp_apply, Stats.values, range_eq_range']
    rfl
  rw [hsample] at happly
  rw [hmap, hbytes]
  refine ⟨⟨_, hout.sampled (cons_ne_nil _ _) hread happly, ?_⟩, htypeIds, hinstIds⟩
  refine { hrec with instances := ?_, lengths := ?_, idsNodup := ?_, instIds := ?_ }
  · dsimp only
    rw [map_map]
    rfl
  · intro node hnode
    obtain ⟨old, hold, rfl⟩ := mem_map.mp hnode
    have hlen := hrec.lengths old hold
    simpa [sampledInst, valuesFrom] using hlen
  · dsimp only
    rw [map_map]
    exact hrec.idsNodup
  · intro node hnode
    obtain ⟨old, hold, rfl⟩ := mem_map.mp hnode
    exact hrec.instIds old hold

variable [DecidableEq P] [DecidableEq T]

/-- After `sampleResources` the map and the list have exactly the open objects. -/
theorem Archived.sampleResources (h : Archived types samples st) (hreg : Registered st)
    (htypes : ∀ t, (types t).stats.length ≤ 254)
    (hroom : st.resourceInstId.toNat + st.newStatsList.length ≤ 2 ^ 31) :
    Archived types samples (st.sampleResources types) ∧
      (st.sampleResources types).heap = st.heap ∧
      (st.sampleResources types).newStatsList = [] ∧
      (st.sampleResources types).statsList.Nodup ∧ (st.sampleResources types).keys.Nodup ∧
      (∀ q, q ∈ (st.sampleResources types).statsList ↔
        q ∈ st.statsList ∧ (st.heap q).closed = false) ∧
      ∀ q, q ∈ (st.sampleResources types).keys ↔
        q ∈ st.statsList ∧ (st.heap q).closed = false := by
  obtain ⟨harch, hgrown⟩ := h.allocateNew htypes hroom
  have hclear : Archived types samples
      { st.allocateNew types st.newStatsList with newStatsList := [] } :=
    harch.relist fun _ _ => ⟨rfl, rfl, rfl⟩
  have hnodup : (st.allocateNew types st.newStatsList).statsList.Nodup :=
    hgrown.statsList ▸ hreg.nodup
  obtain ⟨harch', hshrunk⟩ := hclear.deleteClosed
    (l := (st.allocateNew types st.newStatsList).statsList) hnodup (hgrown.keysNodup hreg.keysNodup)
  refine ⟨harch', hshrunk.heap.trans hgrown.heap, hshrunk.newStatsList, hshrunk.nodup,
    hshrunk.keysNodup, fun q => (hshrunk.statsList q).trans ?_,
    fun q => (hshrunk.keys q).trans ?_⟩
  · show _ ∈ (st.allocateNew types st.newStatsList).statsList ∧ _ ↔ _
    rw [hgrown.statsList]
    rw [hgrown.heap, not_and, Bool.not_eq_true]
    exact and_congr_right fun hq => ⟨fun himp => himp hq, fun hclosed _ => hclosed⟩
  · show q ∈ (st.allocateNew types st.newStatsList).keys ∧ _ ↔ _
    rw [hgrown.keys, hgrown.heap, hgrown.statsList, not_and, Bool.not_eq_true]
    constructor
    · rintro ⟨hq | ⟨hq, -⟩, hclosed⟩
      · exact ⟨hreg.mapped q hq, hclosed (hreg.mapped q hq)⟩
      · exact ⟨hreg.new q hq, hclosed (hreg.new q hq)⟩
    · rintro ⟨hq, hopen⟩
      exact ⟨(hreg.known q hq hopen).imp_right fun hnew => ⟨hnew, hopen⟩, fun _ => hopen⟩

/-- What a step of a run has to meet. -/
def ArchiveOp.Fits (st : Archive P T) : ArchiveOp P T → Prop
  | .register p _ => p ∉ st.statsList
  | .set _ _ _ => True
  | .close _ => True
  | .sample timeStamp _ =>
    StampFits (Archive.stampDelta st.previousTimeStamp timeStamp) ∧
      st.resourceInstId.toNat + st.newStatsList.length ≤ 2 ^ 31

instance (st : Archive P T) (op : ArchiveOp P T) : Decidable (op.Fits st) :=
  match op with
  | .register _ _ => inferInstanceAs (Decidable (_ ∉ _))
  | .set _ _ _ => inferInstanceAs (Decidable True)
  | .close _ => inferInstanceAs (Decidable True)
  | .sample _ _ => inferInstanceAs (Decidable (_ ∧ _))

theorem Archived.sample (h : Archived types samples st) (hreg : Registered st)
    (htypes : ∀ t, (types t).stats.length ≤ 254) {timeStamp : Int}
    (order : ∀ m : List (P × ResourceInst), { m' : List (P × ResourceInst) // m'.Perm m })
    (hstamp : StampFits (Archive.stampDelta st.previousTimeStamp timeStamp))
    (hroom : st.resourceInstId.toNat + st.newStatsList.length ≤ 2 ^ 31) :
    (∃ sample, sample.Perm (st.snapshot types) ∧
      Archived types (samples ++ [sample]) (st.sample types order timeStamp)) ∧
    Registered (st.sample types order timeStamp) := by
  obtain ⟨harch, hheap, hnew, hnodup, hkeysNodup, hlist, hkeys⟩ :=
    h.sampleResources hreg htypes hroom
  have hopen : ∀ node ∈ (st.sampleResources types).resourceInstMap,
      ((st.sampleResources types).heap node.1).closed = false := by
    intro node hnode
    rw [hheap]
    exact ((hkeys node.1).mp (mem_map_of_mem hnode)).2
  have hperm : (st.sampleResources types).keys.Perm
      (st.statsList.filter fun p => !(st.heap p).closed) := by
    rw [perm_ext_iff_of_nodup hkeysNodup (hreg.nodup.filter _)]
    intro q
    rw [hkeys, mem_filter, Bool.not_eq_true']
  have hsampleKeys : (st.sample types order timeStamp).keys = (st.sampleResources types).keys := by
    rw [Archive.keys, Archive.sample, map_map]
    rfl
  constructor
  · refine ⟨_, ?_, harch.writeSamples htypes hopen
      (order (st.sampleResources types).resourceInstMap).2
      ((previousTimeStamp_sampleResources types st).symm ▸ hstamp)⟩
    rw [hheap]
    exact hperm.map _
  · constructor
    · exact hnodup
    · rw [hsampleKeys]
      exact hkeysNodup
    · intro q hq
      rw [hsampleKeys] at hq
      exact (hlist q).mpr ((hkeys q).mp hq)
    · intro q hq
      have hq' : q ∈ (st.sampleResources types).newStatsList := hq
      rw [hnew] at hq'
      cases hq'
    · intro q hq _
      refine Or.inl ?_
      rw [hsampleKeys]
      exact (hkeys q).mpr ((hlist q).mp hq)

/-! ### Runs -/

/-- The samples of one step. -/
def ArchiveOp.snapshots (types : T → StatisticsType) (st : Archive P T) :
    ArchiveOp P T → List (List Instance)
  | .sample _ _ => [st.snapshot types]
  | _ => []

theorem Archived.step (h : Archived types samples st) (hreg : Registered st)
    (htypes : ∀ t, (types t).stats.length ≤ 254) {op : ArchiveOp P T} (hfits : op.Fits st) :
    (∃ new, Forall₂ Perm new (op.snapshots types st) ∧
      Archived types (samples ++ new) (op.step types st)) ∧
    Registered (op.step types st) := by
  -- an object with other values, or closed
  have hmodify : ∀ p s, SameObject s (st.heap p) →
      (s.closed = false → (st.heap p).closed = false) →
      (∃ new, Forall₂ Perm new [] ∧ Archived types (samples ++ new)
        { st with heap := fun q => if q = p then s else st.heap q }) ∧
      Registered { st with heap := fun q => if q = p then s else st.heap q } := by
    intro p s hsame hclosed
    constructor
    · refine ⟨[], .nil, ?_⟩
      rw [append_nil]
      refine h.relist fun q _ => ?_
      split
      · rename_i heq
        rwa [heq]
      · exact ⟨rfl, rfl, rfl⟩
    · refine hreg.modify fun q hopen => ?_
      split at hopen
      · rename_i heq
        rw [heq]
        exact hclosed hopen
      · exact hopen
  cases op with
  | register p s =>
    have hp : p ∉ st.statsList := hfits
    have hother : ∀ q ∈ st.statsList, q ≠ p := fun q hq heq => hp (heq ▸ hq)
    constructor
    · refine ⟨[], .nil, ?_⟩
      rw [append_nil]
      refine h.relist fun q hq => ?_
      rw [if_neg (hother q (hreg.mapped q hq))]
      exact ⟨rfl, rfl, rfl⟩
    · constructor
      · exact (perm_append_singleton _ _).nodup_iff.mpr (nodup_cons.mpr ⟨hp, hreg.nodup⟩)
      · exact hreg.keysNodup
      · exact fun q hq => mem_append_left _ (hreg.mapped q hq)
      · intro q hq
        exact (mem_append.mp hq).elim (fun hq => mem_append_left _ (hreg.new q hq))
          (mem_append_right _)
      · intro q hq hopen
        obtain hq | hq := mem_append.mp hq
        · have hopen' : (if q = p then s else st.heap q).closed = false := hopen
          rw [if_neg (hother q hq)] at hopen'
          exact (hreg.known q hq hopen').imp_right (mem_append_left _)
        · exact Or.inr (mem_append_right _ hq)
  | set p i value => exact hmodify p _ ⟨rfl, rfl, rfl⟩ id
  | close p => exact hmodify p _ ⟨rfl, rfl, rfl⟩ nofun
  | sample timeStamp order =>
    obtain ⟨⟨sample, hperm, harch⟩, hreg'⟩ :=
      h.sample hreg htypes order hfits.1 hfits.2
    exact ⟨⟨[sample], .cons hperm .nil, harch⟩, hreg'⟩

theorem snapshots_cons (op : ArchiveOp P T) (ops : List (ArchiveOp P T)) :
    st.snapshots types (op :: ops) =
      op.snapshots types st ++ (op.step types st).snapshots types ops := by
  cases op <;> rfl

theorem Archived.run {ops : List (ArchiveOp P T)} (h : Archived types samples st)
    (hreg : Registered st) (htypes : ∀ t, (types t).stats.length ≤ 254)
    (hfits : Along (ArchiveOp.step types) ArchiveOp.Fits st ops) :
    ∃ new, Forall₂ Perm new (st.snapshots types ops) ∧
      Archived types (samples ++ new) (Lib.run (ArchiveOp.step types) st ops) := by
  induction ops generalizing st samples with
  | nil => exact ⟨[], .nil, by rwa [append_nil]⟩
  | cons op ops ih =>
    obtain ⟨⟨first, hfirst, harch⟩, hreg'⟩ := h.step hreg htypes hfits.1
    obtain ⟨rest, hrest, harch'⟩ := ih harch hreg' hfits.2
    refine ⟨first ++ rest, ?_, ?_⟩
    · rw [snapshots_cons]
      exact rel_append hfirst hrest
    · rwa [← append_assoc]

/-- The constructor defines the objects that there are. -/
theorem archived_open (htypes : ∀ t, (types t).stats.length ≤ 254) (heap : P → Stats T)
    {statsList newStatsList : List P} (hnodup : statsList.Nodup)
    (hnew : ∀ p ∈ newStatsList, p ∈ statsList) (hcount : statsList.length ≤ 2 ^ 31)
    (timeStamp : Int) :
    Archived types [] (Archive.open types heap statsList newStatsList timeStamp) ∧
      Registered (Archive.open types heap statsList newStatsList timeStamp) := by
  let start : Archive P T :=
    { heap, statsList, newStatsList, resourceTypeId := 0, resourceInstId := 0, resourceInstMap := []
      resourceTypeMap := [], previousTimeStamp := timeStamp, out := [] }
  have hstart : Archived types [] start :=
    ⟨⟨⟨[], []⟩, Says.nil, rfl, nofun, nofun, nofun, nofun, .nil, nofun⟩, Nat.le_refl 0,
      Nat.zero_le _⟩
  have hnone : ∀ p ∈ statsList, p ∉ start.keys := fun _ _ => not_mem_nil
  have heq : Archive.open types heap statsList newStatsList timeStamp =
      start.allocateNew types statsList := resampleResources_eq hnodup hnone
  obtain ⟨harch, hgrown⟩ := hstart.allocateNew htypes (l := statsList)
    (by rw [show start.resourceInstId.toNat = 0 from rfl]; omega)
  have hkeys : ∀ q, q ∈ (start.allocateNew types statsList).keys ↔
      q ∈ statsList ∧ (heap q).closed = false :=
    fun q => (hgrown.keys q).trans (or_iff_right not_mem_nil)
  rw [heq]
  refine ⟨harch, ?_, hgrown.keysNodup .nil, ?_, ?_, ?_⟩
  · rw [hgrown.statsList]
    exact hnodup
  · intro q hq
    rw [hgrown.statsList]
    exact ((hkeys q).mp hq).1
  · rw [hgrown.newStatsList, hgrown.statsList]
    exact hnew
  · rw [hgrown.statsList, hgrown.heap]
    exact fun q hq hopen => Or.inl ((hkeys q).mpr ⟨hq, hopen⟩)

/-- A reader of an archive gets, at each sample, the open objects with their types and the exact
values of their statistics. -/
theorem decode_archive (types : T → StatisticsType) (htypes : ∀ t, (types t).stats.length ≤ 254)
    (heap : P → Stats T) (statsList newStatsList : List P) (timeStamp : Int)
    (hnodup : statsList.Nodup)
    (hnew : ∀ p ∈ newStatsList, p ∈ statsList) (hcount : statsList.length ≤ 2 ^ 31)
    (ops : List (ArchiveOp P T))
    (hfits : Along (ArchiveOp.step types) ArchiveOp.Fits
      (Archive.open types heap statsList newStatsList timeStamp) ops) :
    ∃ samples,
      decode (Lib.run (ArchiveOp.step types)
        (Archive.open types heap statsList newStatsList timeStamp) ops).out = .ok samples ∧
      List.Forall₂ List.Perm samples
        ((Archive.open types heap statsList newStatsList timeStamp).snapshots types ops) := by
  obtain ⟨harch, hreg⟩ := archived_open htypes heap hnodup hnew hcount timeStamp
  obtain ⟨samples, hperm, hend⟩ := harch.run hreg htypes hfits
  obtain ⟨c, hout, -⟩ := hend.reader
  exact ⟨samples, hout.decode_eq, hperm⟩

/-- A type with one statistic. -/
def oneStat : StatisticsType := ⟨[111], [], [⟨[97], .longType, true, true, [], []⟩]⟩

/-- An object with one value. -/
def oneValue (value : BitVec 64) : Stats Unit := ⟨(), [115], 1, false, fun _ => value⟩

/-- An archive without any objects yet. -/
def emptyArchive : Archive Bool Unit :=
  Archive.open (fun _ => oneStat) (fun _ => oneValue 0) [] [] 0

/-- Two objects, one that changes and one that is closed, and samples a second apart. -/
theorem decode_archive_two_objects :
    ∃ samples,
      decode (Lib.run (ArchiveOp.step fun _ => oneStat) emptyArchive
        [.register true (oneValue 5), .register false (oneValue (-300)),
          .sample 1000000000 fun m => ⟨m, .refl m⟩, .set true 0 100000, .close false,
          .sample 2000000000 fun m => ⟨m, .refl m⟩]).out = .ok samples ∧
      List.Forall₂ List.Perm samples
        (emptyArchive.snapshots (fun _ => oneStat)
          [.register true (oneValue 5), .register false (oneValue (-300)),
            .sample 1000000000 fun m => ⟨m, .refl m⟩, .set true 0 100000, .close false,
            .sample 2000000000 fun m => ⟨m, .refl m⟩]) := by
  refine decode_archive (fun _ => oneStat) (fun _ => by decide) (fun _ => oneValue 0) [] [] 0 .nil
    nofun (by decide) _ ?_
  exact ⟨by decide +kernel, by decide +kernel, by decide +kernel, trivial, trivial,
    by decide +kernel, trivial⟩

/-- The time stamps of two samples are 2^32 - 1 milliseconds apart. The difference is written as
two bytes of ones, which are the token for a difference of four bytes. -/
theorem decode_archive_long_pause :
    decode (Lib.run (ArchiveOp.step fun _ => oneStat) emptyArchive
      [.register true (oneValue 5), .sample 0 fun m => ⟨m, .refl m⟩,
        .sample ((2 ^ 32 - 1) * 1000000) fun m => ⟨m, .refl m⟩]).out = .error .endOfData := by
  decide +kernel

end GeodeNative.Statistics

import GeodeNative.Lib.Grouping
import GeodeNative.Proofs.Client.KeyDistribution

/-!
# The servers of a function execution cover the buckets

`pruneNodes` first collects the servers of each bucket (`Nodes`, `collectServers_ok`). Its `while`
loop moves one server at a time from the collected servers to the result and erases from the set of
that server what the result already has. `PruneInv` is the invariant: the sets of the result are
disjoint and have the current buckets, and what is not yet current is with a server that is left
(`pruneStep_cases`). Each turn takes one server away, so the loop ends (`pruneLoop_ok`).

`ServerLocation::operator==` reads the name of the left server through its pointer, so these results
are about metadata without null names (`ClientMetadata.Named`): no search of the maps ends the call.
-/

set_option autoImplicit false

namespace GeodeNative.Client

open Lib BucketServerLocation UnorderedMap
open List hiding Disjoint

/-- One of the servers has the bucket. -/
def ServerToBucketsMap.Has (m : ServerToBucketsMap) (b : Nat) : Prop := ∃ node ∈ m, b ∈ node.2

open ServerToBucketsMap

variable {metadata : ClientMetadata}

/-! ## Collecting the servers -/

variable {b : Nat}

theorem ClientMetadata.adviseServerLocations_ok (h : b < metadata.totalNumBuckets) :
    metadata.adviseServerLocations b = .ok (metadata.locations b) := by
  unfold ClientMetadata.adviseServerLocations ClientMetadata.checkBucketId
  rw [metadata.length_eq, if_neg (Nat.not_le.mpr h)]

/-- The locations of the metadata have names. -/
def ClientMetadata.Named (metadata : ClientMetadata) : Prop :=
  ∀ b, ∀ location ∈ metadata.locations b, location.serverName ≠ none

/-- The servers with the buckets that the metadata lists for them, all of them in `buckets`. -/
structure Nodes (metadata : ClientMetadata) (buckets : BucketSet) (m : ServerToBucketsMap) :
    Prop where
  distinct : Distinct keyEqual m
  sound : ∀ node ∈ m, ∀ b ∈ node.2, b ∈ buckets ∧ metadata.Lists b node.1
  nonempty : ∀ node ∈ m, node.2.Nonempty
  named : ∀ node ∈ m, node.1.serverName ≠ none

section Collect
variable (hnamed : metadata.Named) {buckets : BucketSet} {m : ServerToBucketsMap} {bucketId : Nat}

include hnamed in
theorem Nodes.add (h : Nodes metadata buckets m) {location : BucketServerLocation}
    (hlocation : location ∈ metadata.locations bucketId) (hbucket : bucketId ∈ buckets) :
    Nodes metadata buckets (assign keyEqual m location
      (insert bucketId ((find keyEqual m location).getD ∅))) where
  distinct := h.distinct.assign _ _
  sound node hnode b hb := by
    obtain hold | ⟨hvalue, hkey⟩ := mem_assign _ hnode
    · exact h.sound node hold b hb
    · have hequal : node.1.equal location = true := by
        obtain hkey | ⟨hkey, -⟩ := hkey
        · rw [hkey]
          exact equal_refl location
        · exact hkey
      rw [hvalue] at hb
      obtain rfl | hb := Finset.mem_insert.mp hb
      · exact ⟨hbucket, location, hlocation, hequal⟩
      · -- the bucket was already with the node of this server
        cases hfind : find keyEqual m location with
        | none =>
          rw [hfind] at hb
          exact absurd hb (Finset.notMem_empty b)
        | some set =>
          rw [hfind] at hb
          obtain ⟨b₀, hb₀, heq, rfl⟩ := mem_of_find _ hfind
          obtain ⟨hin, location, hmem, hlisted⟩ := h.sound b₀ hb₀ b hb
          exact ⟨hin, location, hmem,
            keyEqual.trans (keyEqual.trans hequal (keyEqual.symm heq)) hlisted⟩
  nonempty node hnode := by
    obtain hold | ⟨hvalue, -⟩ := mem_assign _ hnode
    · exact h.nonempty node hold
    · rw [hvalue]
      exact Finset.insert_nonempty _ _
  named node hnode := by
    obtain hold | ⟨-, hkey | ⟨-, b, hb, hkey⟩⟩ := mem_assign _ hnode
    · exact h.named node hold
    · rw [hkey]
      exact hnamed bucketId location hlocation
    · rw [← hkey]
      exact h.named b hb

theorem has_add (location : BucketServerLocation) (h : Has m b ∨ b = bucketId) :
    Has (assign keyEqual m location
      (insert bucketId ((find keyEqual m location).getD ∅))) b := by
  have hassign : assign keyEqual m location (insert bucketId ((find keyEqual m location).getD ∅)) =
      Grouping.insertAll keyEqual m location {bucketId} := by
    unfold Grouping.insertAll Grouping.group
    rw [Finset.union_comm, ← Finset.insert_eq]
  rw [hassign]
  exact (Grouping.has_insertAll _ _ _ _ _).mpr (h.imp_right Finset.mem_singleton.mpr)

include hnamed in
theorem Nodes.addLocations (hbucket : bucketId ∈ buckets) {locations : List BucketServerLocation}
    (hlocations : locations ⊆ metadata.locations bucketId) (h : Nodes metadata buckets m) :
    ∃ m', addLocations bucketId m locations = .ok m' ∧ Nodes metadata buckets m' ∧
      (∀ b, Has m b → Has m' b) ∧ (locations ≠ [] → Has m' bucketId) := by
  induction locations generalizing m with
  | nil => exact ⟨m, rfl, h, fun _ hb => hb, fun hne => absurd rfl hne⟩
  | cons location locations ih =>
    obtain ⟨hlocation, hrest⟩ := cons_subset.mp hlocations
    obtain ⟨m', hok, hnodes, hkeep, -⟩ := ih hrest (h.add hnamed hlocation hbucket)
    refine ⟨m', ?_, hnodes, fun b hb => hkeep b (has_add location (.inl hb)),
      fun _ => hkeep bucketId (has_add location (.inr rfl))⟩
    rw [Client.addLocations, lookup_named (hnamed bucketId location hlocation)]
    exact hok

include hnamed in
/-- The loop over the buckets returns the servers of the buckets that have a location, and the
buckets without one. -/
theorem collectServers_ok {rest : List Nat} (without : BucketSet)
    (hrange : ∀ b ∈ rest, b < metadata.totalNumBuckets) (hrest : ∀ b ∈ rest, b ∈ buckets)
    (h : Nodes metadata buckets m) :
    ∃ without' m', collectServers metadata without m rest = .ok (without', m') ∧
      Nodes metadata buckets m' ∧
      (∀ b, Has m b → Has m' b) ∧
      (∀ b ∈ rest, metadata.locations b ≠ [] → Has m' b) ∧
      ∀ b, b ∈ without' ↔ b ∈ without ∨ b ∈ rest ∧ metadata.locations b = [] := by
  induction rest generalizing m without with
  | nil => exact ⟨without, m, rfl, h, fun _ hb => hb, nofun, by simp⟩
  | cons bucketId rest ih =>
    obtain ⟨hlt, hrange⟩ := forall_mem_cons.mp hrange
    obtain ⟨hbucket, hrest⟩ := forall_mem_cons.mp hrest
    unfold collectServers
    rw [metadata.adviseServerLocations_ok hlt]
    cases hlocations : metadata.locations bucketId with
    | nil =>
      obtain ⟨without', m', heq, hnodes, hkeep, hall, hwithout⟩ :=
        ih (insert bucketId without) hrange hrest h
      refine ⟨without', m', heq, hnodes, hkeep, ?_, ?_⟩
      · refine forall_mem_cons.mpr ⟨fun hne => absurd hlocations hne, hall⟩
      · intro b
        rw [hwithout, Finset.mem_insert, mem_cons, or_assoc, or_left_comm]
        refine or_congr_right ⟨?_, ?_⟩
        · intro hb
          obtain rfl | ⟨hb, hnone⟩ := hb
          · exact ⟨.inl rfl, hlocations⟩
          · exact ⟨.inr hb, hnone⟩
        · intro ⟨hb, hnone⟩
          exact hb.imp_right fun hb => ⟨hb, hnone⟩
    | cons location locations =>
      obtain ⟨m₁, hok, hadd, hkeep₁, hself⟩ := h.addLocations hnamed hbucket (List.Subset.refl _)
      rw [hlocations] at hok hself
      dsimp only
      rw [hok]
      obtain ⟨without', m', heq, hnodes, hkeep, hall, hwithout⟩ :=
        ih without hrange hrest hadd
      refine ⟨without', m', heq, hnodes, fun b hb => hkeep b (hkeep₁ b hb), ?_, ?_⟩
      · exact forall_mem_cons.mpr
          ⟨fun _ => hkeep bucketId (hself (cons_ne_nil _ _)), hall⟩
      · intro b
        rw [hwithout, mem_cons]
        refine or_congr_right (and_congr_left fun hnone => (or_iff_right ?_).symm)
        intro hb
        rw [hb, hlocations] at hnone
        cases hnone

end Collect

/-! ## Choosing a server -/

variable {m : ServerToBucketsMap} {nodes : List BucketServerLocation} {buckets : List Nat}

theorem mem_equalSizeLoop {current : BucketSet} {max : Nat} {s : BucketServerLocation}
    (h : s ∈ equalSizeLoop current max nodes m) : s ∈ nodes ∨ ∃ node ∈ m, node.1 = s := by
  induction m generalizing max nodes with
  | nil => exact .inl h
  | cons node m ih =>
    have hlater : (∃ node' ∈ m, node'.1 = s) → ∃ node' ∈ node :: m, node'.1 = s :=
      fun ⟨node', hnode', hs⟩ => ⟨node', mem_cons_of_mem _ hnode', hs⟩
    unfold equalSizeLoop at h
    dsimp only at h
    split at h
    · obtain hs | hs := ih h
      · exact .inr ⟨node, mem_cons_self, (mem_singleton.mp hs).symm⟩
      · exact .inr (hlater hs)
    · split at h
      · obtain hs | hs := ih h
        · obtain hs | hs := mem_append.mp hs
          · exact .inl hs
          · exact .inr ⟨node, mem_cons_self, (mem_singleton.mp hs).symm⟩
        · exact .inr (hlater hs)
      · exact (ih h).imp_right hlater

theorem equalSizeLoop_ne_nil {current : BucketSet} {max : Nat}
    (h : nodes ≠ [] ∨ max = 0 ∧ m ≠ []) : equalSizeLoop current max nodes m ≠ [] := by
  induction m generalizing max nodes with
  | nil => exact h.resolve_right fun hm => hm.2 rfl
  | cons node m ih =>
    unfold equalSizeLoop
    dsimp only
    split
    · exact ih (.inl (cons_ne_nil _ _))
    · split
      · exact ih (.inl (by simp))
      · next hlt hne =>
        refine ih (.inl (h.resolve_right ?_))
        intro ⟨hzero, _⟩
        omega

theorem findNextServer_cases (m : ServerToBucketsMap) (current : BucketSet) (random : Nat) :
    findNextServer m current random = none ∧ m = [] ∨
      ∃ node ∈ m, findNextServer m current random = some node.1 := by
  unfold findNextServer
  cases m with
  | nil => exact .inl ⟨rfl, rfl⟩
  | cons node m =>
    have hne : equalSizeLoop current 0 [] (node :: m) ≠ [] :=
      equalSizeLoop_ne_nil (.inr ⟨rfl, cons_ne_nil _ _⟩)
    have hlt := Nat.mod_lt random (length_pos_iff.mpr hne)
    obtain hs | ⟨node', hnode', hs⟩ := mem_equalSizeLoop (getElem_mem hlt)
    · cases hs
    · exact .inr ⟨node', hnode', by rw [hs, getElem?_eq_getElem hlt]⟩

theorem advance_mem (rand : Nat → Nat) {size idx : Nat} (hm : m ≠ [])
    (hsize : idx + m.length = size) : ∃ node ∈ m, advance rand size idx m = some node := by
  induction m generalizing idx with
  | nil => exact absurd rfl hm
  | cons node m ih =>
    unfold advance
    split
    · next hlt =>
      have hmod := Nat.mod_lt (rand idx) (show 0 < size by rw [length_cons] at hsize; omega)
      have hm' : m ≠ [] := by
        intro hnil
        rw [hnil, length_singleton] at hsize
        omega
      rw [length_cons, Nat.add_comm m.length 1, ← Nat.add_assoc] at hsize
      obtain ⟨node', hnode', heq⟩ := ih hm' hsize
      exact ⟨node', mem_cons_of_mem _ hnode', heq⟩
    · exact ⟨node, mem_cons_self, rfl⟩

/-! ## The `while` loop -/

variable {node : BucketServerLocation × BucketSet}

theorem has_erase (hdistinct : Distinct keyEqual m) (hnode : node ∈ m) (h : Has m b) :
    b ∈ node.2 ∨ Has (erase keyEqual m node.1) b := by
  obtain ⟨node', hnode', hmem⟩ := h
  by_cases hequal : keyEqual.equal node'.1 node.1 = true
  · have hfind := find_of_mem hdistinct hnode (equal_refl node.1)
    have hfind' := find_of_mem hdistinct hnode' hequal
    rw [Option.some.inj (hfind'.symm.trans hfind)] at hmem
    exact .inl hmem
  · exact .inr ⟨node', (mem_eraseP_of_neg (by exact hequal)).mpr hnode', hmem⟩

/-- The result so far is disjoint and has the current buckets; what is not current is with a server
that is left. -/
structure PruneInv (metadata : ClientMetadata) (buckets : BucketSet) (st : PruneState) : Prop where
  distinct : Distinct keyEqual (st.prunedServerToBucketsMap ++ st.serverToBucketsMap)
  disjoint : st.prunedServerToBucketsMap.Pairwise fun a b => Disjoint a.2 b.2
  current : ∀ b, b ∈ st.currentBucketSet ↔ Has st.prunedServerToBucketsMap b
  sound : ∀ node ∈ st.prunedServerToBucketsMap ++ st.serverToBucketsMap, ∀ b ∈ node.2,
    b ∈ buckets ∧ metadata.Lists b node.1
  cover : ∀ b ∈ buckets, metadata.locations b ≠ [] →
    b ∈ st.currentBucketSet ∨ Has st.serverToBucketsMap b
  nonempty : st.prunedServerToBucketsMap ≠ []
  named : ∀ node ∈ st.serverToBucketsMap, node.1.serverName ≠ none

section Prune
variable {buckets : BucketSet} {st : PruneState}

/-- One turn: the loop ends because no server is left, or a server is taken away. -/
theorem pruneStep_cases (h : PruneInv metadata buckets st) (random : Nat) :
    pruneStep random st = .ok (false, st) ∧ st.serverToBucketsMap = [] ∨
      ∃ st', pruneStep random st = .ok (true, st') ∧ PruneInv metadata buckets st' ∧
        st'.serverToBucketsMap.length < st.serverToBucketsMap.length := by
  unfold pruneStep
  obtain ⟨hnext, hempty⟩ | ⟨node, hnode, hnext⟩ :=
    findNextServer_cases st.serverToBucketsMap st.currentBucketSet random
  · rw [hnext]
    exact .inl ⟨rfl, hempty⟩
  obtain ⟨hpruned, hdistinct, hcross⟩ := pairwise_append.mp h.distinct
  have hlength : (erase keyEqual st.serverToBucketsMap node.1).length <
      st.serverToBucketsMap.length := by
    unfold erase
    rw [length_eraseP_of_mem hnode (equal_refl node.1)]
    exact Nat.sub_lt (length_pos_of_mem hnode) Nat.one_pos
  have hleft : ∀ node' ∈ erase keyEqual st.serverToBucketsMap node.1,
      node' ∈ st.serverToBucketsMap ∧ keyEqual.equal node'.1 node.1 = false :=
    fun node' => mem_erase hdistinct
  have hnamed := fun node' hin => h.named node' (hleft node' hin).1
  rw [hnext]
  dsimp only
  rw [lookup_named (h.named node hnode), find_of_mem hdistinct hnode (equal_refl node.1)]
  dsimp only [Option.getD_some]
  refine .inr ?_
  split
  · next hempty =>
    -- the server adds nothing
    refine ⟨_, rfl, ⟨?_, h.disjoint, h.current, ?_, ?_, h.nonempty, hnamed⟩, hlength⟩
    · exact pairwise_append.mpr ⟨hpruned, hdistinct.eraseP _,
        fun a ha b hb => hcross a ha b (hleft b hb).1⟩
    · intro node' hnode'
      refine h.sound node' (mem_append.mpr ?_)
      exact (mem_append.mp hnode').imp_right fun hin => (hleft node' hin).1
    · intro b hb hlocations
      obtain hcurrent | hhas := h.cover b hb hlocations
      · exact .inl hcurrent
      · exact (has_erase hdistinct hnode hhas).imp_left
          fun hin => Finset.sdiff_eq_empty_iff_subset.mp hempty hin
  · -- the server goes to the result with the buckets that are new
    have hemplace : emplace keyEqual st.prunedServerToBucketsMap node.1
        (node.2 \ st.currentBucketSet) =
          st.prunedServerToBucketsMap ++ [(node.1, node.2 \ st.currentBucketSet)] := by
      unfold emplace
      rw [find_eq_none fun b hb => hcross b hb node hnode]
      rfl
    rw [hemplace]
    refine ⟨_, rfl, ⟨?_, ?_, ?_, ?_, ?_, by simp, hnamed⟩, hlength⟩
    · refine pairwise_append.mpr ⟨?_, hdistinct.eraseP _, ?_⟩
      · refine pairwise_append.mpr ⟨hpruned, pairwise_singleton _ _, ?_⟩
        intro a ha b hb
        rw [mem_singleton.mp hb]
        exact hcross a ha node hnode
      · intro a ha b hb
        obtain ha | ha := mem_append.mp ha
        · exact hcross a ha b (hleft b hb).1
        · rw [mem_singleton.mp ha]
          exact Bool.eq_false_iff.mpr fun heq =>
            absurd (keyEqual.symm heq) (Bool.eq_false_iff.mp (hleft b hb).2)
    · refine pairwise_append.mpr ⟨h.disjoint, pairwise_singleton _ _, ?_⟩
      intro a ha b hb
      rw [mem_singleton.mp hb]
      exact Finset.disjoint_sdiff.mono_left fun x hx => (h.current x).mpr ⟨a, ha, hx⟩
    · intro b
      simp only [Finset.mem_union, h.current, Has, mem_append,
        mem_singleton, or_and_right, exists_or, exists_eq_left]
    · intro node' hnode' b hb
      obtain hin | hin := mem_append.mp hnode'
      · obtain hin | hin := mem_append.mp hin
        · exact h.sound node' (mem_append_left _ hin) b hb
        · rw [mem_singleton.mp hin] at hb ⊢
          exact h.sound node (mem_append_right _ hnode) b (Finset.mem_sdiff.mp hb).1
      · exact h.sound node' (mem_append_right _ (hleft node' hin).1) b hb
    · intro b hb hlocations
      rw [Finset.union_sdiff_self_eq_union]
      obtain hcurrent | hhas := h.cover b hb hlocations
      · exact .inl (Finset.mem_union_left _ hcurrent)
      · exact (has_erase hdistinct hnode hhas).imp_left fun hin => Finset.mem_union_right _ hin

/-- The loop ends after at most one turn for each server: with all buckets, or with no server
left. -/
theorem pruneLoop_ok (random : Nat → Nat) (i : Nat) (h : PruneInv metadata buckets st) :
    ∃ st', (∀ fuel, st.serverToBucketsMap.length < fuel →
        pruneLoop buckets random fuel i st = .ok (some st')) ∧
      PruneInv metadata buckets st' ∧
        (buckets = st'.currentBucketSet ∨ st'.serverToBucketsMap = []) := by
  -- the servers that are left bound the turns
  induction hn : st.serverToBucketsMap.length using Nat.strong_induction_on generalizing st i with
  | _ n ih =>
    by_cases hall : buckets = st.currentBucketSet
    · refine ⟨st, ?_, h, .inl hall⟩
      intro fuel hfuel
      obtain ⟨fuel, rfl⟩ := Nat.exists_eq_succ_of_ne_zero (Nat.ne_of_gt (Nat.zero_lt_of_lt hfuel))
      unfold pruneLoop
      rw [if_neg (not_not.mpr hall)]
    · obtain ⟨hstop, hempty⟩ | ⟨st₁, hstep, h₁, hlt⟩ := pruneStep_cases h (random i)
      · refine ⟨st, ?_, h, .inr hempty⟩
        intro fuel hfuel
        obtain ⟨fuel, rfl⟩ := Nat.exists_eq_succ_of_ne_zero (Nat.ne_of_gt (Nat.zero_lt_of_lt hfuel))
        unfold pruneLoop
        rw [if_pos hall, hstop]
      · obtain ⟨st', hloop, h', hend⟩ := ih _ (hn ▸ hlt) (i + 1) h₁ rfl
        refine ⟨st', ?_, h', hend⟩
        intro fuel hfuel
        obtain ⟨fuel, rfl⟩ := Nat.exists_eq_succ_of_ne_zero (Nat.ne_of_gt (Nat.zero_lt_of_lt hfuel))
        unfold pruneLoop
        rw [if_pos hall, hstep]
        exact hloop fuel (by omega)

/-- When the loop has ended, the current buckets are those with a location. -/
theorem PruneInv.current_iff (h : PruneInv metadata buckets st)
    (hend : buckets = st.currentBucketSet ∨ st.serverToBucketsMap = []) (b : Nat) :
    b ∈ st.currentBucketSet ↔ b ∈ buckets ∧ metadata.locations b ≠ [] := by
  constructor
  · intro hb
    obtain ⟨node, hnode, hmem⟩ := (h.current b).mp hb
    obtain ⟨hin, location, hlocation, -⟩ := h.sound node (mem_append_left _ hnode) b hmem
    exact ⟨hin, ne_nil_of_mem hlocation⟩
  · intro ⟨hb, hlocations⟩
    obtain hall | hempty := hend
    · exact hall ▸ hb
    · refine (h.cover b hb hlocations).resolve_right ?_
      rw [hempty]
      exact fun ⟨_, hnode, _⟩ => nomatch hnode

theorem Nodes.pruneInv (h : Nodes metadata buckets m)
    (hcover : ∀ b ∈ buckets, metadata.locations b ≠ [] → Has m b) (hnode : node ∈ m) :
    PruneInv metadata buckets ⟨node.2, erase keyEqual m node.1, [(node.1, node.2)]⟩ where
  distinct := by
    refine pairwise_cons.mpr ⟨?_, h.distinct.eraseP _⟩
    intro b hb
    exact Bool.eq_false_iff.mpr fun heq =>
      absurd (keyEqual.symm heq) (Bool.eq_false_iff.mp (mem_erase h.distinct hb).2)
  disjoint := pairwise_singleton _ _
  current b := by simp [Has]
  sound node' hnode' b hb := by
    cases hnode' with
    | head => exact h.sound node hnode b hb
    | tail _ hin => exact h.sound node' (mem_erase h.distinct hin).1 b hb
  cover b hb hlocations := has_erase h.distinct hnode (hcover b hb hlocations)
  nonempty := cons_ne_nil _ _
  named node' hin := h.named node' (mem_erase h.distinct hin).1

end Prune

/-! ## The whole call -/

/-- The sets of the servers are disjoint, have the buckets, and a bucket with a location is with a
server that the metadata lists for it. -/
structure Covers (metadata : ClientMetadata) (buckets : List Nat) (m : ServerToBucketsMap) :
    Prop where
  disjoint : m.Pairwise fun a b => Disjoint a.2 b.2
  union : ∀ b, b ∈ buckets ↔ Has m b
  listed : ∀ node ∈ m, ∀ b ∈ node.2, metadata.locations b ≠ [] → metadata.Lists b node.1

/-- The buckets without a location go to the server that comes first. -/
theorem PruneInv.covers {st : PruneState} (h : PruneInv metadata buckets.toFinset st)
    (hcurrent : ∀ b, b ∈ st.currentBucketSet ↔ b ∈ buckets.toFinset ∧ metadata.locations b ≠ [])
    {without : BucketSet} (hwithout : ∀ b, b ∈ without ↔ b ∈ buckets ∧ metadata.locations b = [])
    (first : Nat) :
    Covers metadata buckets (st.prunedServerToBucketsMap.modify
      (first % st.prunedServerToBucketsMap.length) fun node => (node.1, node.2 ∪ without)) := by
  have hplace := Nat.mod_lt first (length_pos_iff.mpr h.nonempty)
  -- a bucket without a location is with no server yet
  have hnew : ∀ b ∈ without, ¬Grouping.Has st.prunedServerToBucketsMap b := fun b hb hhas =>
    ((hcurrent b).mp ((h.current b).mpr hhas)).2 ((hwithout b).mp hb).2
  refine ⟨Grouping.Separate.modify_union h.disjoint hplace hnew, ?_, ?_⟩
  · intro b
    have hhas : Has (st.prunedServerToBucketsMap.modify
        (first % st.prunedServerToBucketsMap.length) fun node => (node.1, node.2 ∪ without)) b ↔
          Has st.prunedServerToBucketsMap b ∨ b ∈ without :=
      Grouping.has_modify_union hplace b
    rw [hhas, ← h.current, hcurrent, hwithout, mem_toFinset, ← and_or_left]
    exact (and_iff_left (em' _)).symm
  · intro node' hnode' b hb hlocations
    have hsound := fun n hn => h.sound n (mem_append_left _ hn)
    obtain ⟨node, rest, hperm, hmodify⟩ := Grouping.modify_union_perm (x := without) hplace
    cases hmodify.mem_iff.mp hnode' with
    | head =>
      obtain hb | hin := Finset.mem_union.mp hb
      · exact (hsound node (hperm.mem_iff.mpr mem_cons_self) b hb).2
      · exact absurd ((hwithout b).mp hin).2 hlocations
    | tail _ hin => exact (hsound node' (hperm.mem_iff.mpr (mem_cons_of_mem _ hin)) b hb).2

section
variable (hnamed : metadata.Named) (hrange : ∀ b ∈ buckets, b < metadata.totalNumBuckets)
include hnamed hrange

theorem pruneNodes_null (hnone : ∀ b ∈ buckets, metadata.locations b = []) (choices : PruneChoices)
    (fuel : Nat) : pruneNodes metadata buckets choices fuel = .ok (some none) := by
  have hempty : Nodes metadata buckets.toFinset [] := ⟨List.Pairwise.nil, nofun, nofun, nofun⟩
  obtain ⟨without, m, hcollect, hnodes, -, -, -⟩ :=
    collectServers_ok hnamed ∅ hrange (by simp) hempty
  have hm : m = [] := by
    refine eq_nil_iff_forall_not_mem.mpr fun node hnode => ?_
    obtain ⟨b, hb⟩ := hnodes.nonempty node hnode
    obtain ⟨hin, location, hlocation, -⟩ := hnodes.sound node hnode b hb
    rw [hnone b (mem_toFinset.mp hin)] at hlocation
    cases hlocation
  unfold pruneNodes
  rw [hcollect]
  exact if_pos hm

/-- Some bucket has a location: servers that cover the buckets, after at most `turns` turns. -/
theorem pruneNodes_some (hb : b ∈ buckets) (hlocations : metadata.locations b ≠ [])
    (choices : PruneChoices) :
    ∃ m turns, (∀ fuel, turns < fuel →
        pruneNodes metadata buckets choices fuel = .ok (some (some m))) ∧
      Covers metadata buckets m := by
  have hempty : Nodes metadata buckets.toFinset [] := ⟨List.Pairwise.nil, nofun, nofun, nofun⟩
  obtain ⟨without, m, hcollect, hnodes, -, hcover, hwithout⟩ :=
    collectServers_ok hnamed ∅ hrange (by simp) hempty
  have hm : m ≠ [] := by
    obtain ⟨node, hnode, -⟩ := hcover b hb hlocations
    exact ne_nil_of_mem hnode
  obtain ⟨node, hnode, hadvance⟩ := advance_mem choices.rand hm (Nat.zero_add m.length)
  have hfind := find_of_mem hnodes.distinct hnode (equal_refl node.1)
  have hinv := hnodes.pruneInv (fun b hb => hcover b (mem_toFinset.mp hb)) hnode
  obtain ⟨st, hloop, h, hend⟩ := pruneLoop_ok choices.randgen 0 hinv
  have hwithout' : ∀ b, b ∈ without ↔ b ∈ buckets ∧ metadata.locations b = [] := by
    intro b
    rw [hwithout]
    simp
  refine ⟨_, (erase keyEqual m node.1).length, ?_, h.covers (h.current_iff hend) hwithout'
    choices.first⟩
  intro fuel hfuel
  unfold pruneNodes
  rw [hcollect]
  dsimp only
  rw [if_neg hm, hadvance]
  dsimp only
  rw [lookup_named (hnodes.named node hnode), hfind]
  dsimp only [Option.getD_some]
  rw [hloop fuel hfuel]

end

/-- For buckets in range and locations with names `pruneNodes` ends. It returns null exactly when
no bucket has a location, and otherwise servers that cover the buckets. -/
theorem pruneNodes_covers (metadata : ClientMetadata) (hnamed : metadata.Named)
    (buckets : List Nat) (hrange : ∀ b ∈ buckets, b < metadata.totalNumBuckets)
    (choices : PruneChoices) :
    ∃ r turns, (∀ fuel, turns < fuel → pruneNodes metadata buckets choices fuel = .ok (some r)) ∧
      (r = none ↔ ∀ b ∈ buckets, metadata.locations b = []) ∧
      ∀ m, r = some m → Covers metadata buckets m := by
  by_cases hnone : ∀ b ∈ buckets, metadata.locations b = []
  · exact ⟨none, 0, fun fuel _ => pruneNodes_null hnamed hrange hnone choices fuel,
      iff_of_true rfl hnone, nofun⟩
  · obtain ⟨b, hb, hlocations⟩ : ∃ b ∈ buckets, metadata.locations b ≠ [] := by
      push Not at hnone
      exact hnone
    obtain ⟨m, turns, hends, hcovers⟩ := pruneNodes_some hnamed hrange hb hlocations choices
    refine ⟨some m, turns, hends, iff_of_false nofun hnone, ?_⟩
    intro m' hm'
    cases hm'
    exact hcovers

/-- A server of the host `a`. -/
def serverAt (port : BitVec 32) : BucketServerLocation := ⟨some [97], port, true, 0⟩

/-- Four buckets on three servers: bucket 1 and bucket 2 have two locations, bucket 3 has none. -/
def threeServers : ClientMetadata where
  totalNumBuckets := 4
  bucketServerLocationsList :=
    [[serverAt 1], [serverAt 2, serverAt 1], [serverAt 3, serverAt 2], []]
  length_eq := rfl

/-- The first server has two buckets. The loop then takes a server for the third one, finds that
the other one adds nothing, and ends with no server left. The bucket without a location is with the
first server. -/
theorem pruneNodes_covers_threeServers :
    pruneNodes threeServers [0, 1, 2, 3] ⟨fun _ => 0, fun _ => 1, 0⟩ 4 =
        .ok (some (some [(serverAt 1, {1, 0, 3}), (serverAt 3, {2})])) ∧
      ∃ r turns, (∀ fuel, turns < fuel →
        pruneNodes threeServers [0, 1, 2, 3] ⟨fun _ => 0, fun _ => 1, 0⟩ fuel = .ok (some r)) ∧
      r ≠ none ∧ ∀ m, r = some m → Covers threeServers [0, 1, 2, 3] m := by
  refine ⟨rfl, ?_⟩
  have hnamed : threeServers.Named := by
    intro b location hlocation
    match b with
    | 0 | 1 | 2 | 3 =>
      revert location
      decide
    | _ + 4 => cases hlocation
  obtain ⟨r, turns, hends, hnull, hcovers⟩ :=
    pruneNodes_covers threeServers hnamed [0, 1, 2, 3] (by decide) ⟨fun _ => 0, fun _ => 1, 0⟩
  exact ⟨r, turns, hends, fun h => absurd (hnull.mp h 0 (by decide)) (by decide), hcovers⟩

-- the only location has a null name, and the first server is searched for
example : pruneNodes ⟨1, [[⟨none, 1, true, 0⟩]], rfl⟩ [0] ⟨id, id, 0⟩ 1 = .error .nullPointer := rfl

end GeodeNative.Client

import GeodeNative.Client.FunctionRouting
import GeodeNative.Proofs.Client.BucketCover

/-!
# The keys of a function execution are split by server

`getServerToFilterMapFESHOP` groups three times. Each loop adds to one group in a turn, so its
result is described by `Lib.Grouping`: the keys of each bucket (`groupByBucketOnClientSide_ok`),
the buckets of each server (`groupByServerToBuckets_ok`), and the keys of each server
(`addServers_ok`).

A bucket that is not in range ends the call with an exception (`groupByServerToBuckets_error`). A
key has such a bucket when the metadata has no buckets, or when the resolver names a partition that
the metadata does not have. `KnownBucket` is the condition on a key that rules this out, and it is
exact (`routesOrFallsBack_iff`). Without `isPrimary` the locations of the metadata must have names
too, or `pruneNodes` can read a null name.
-/

set_option autoImplicit false

namespace GeodeNative.Client

open Lib BucketServerLocation Finset

/-! ## Bucket numbers -/

theorem asSize_lt_iff {b : BitVec 32} {n : Nat} (hn : n < 2 ^ 31) :
    asSize b < n ↔ 0 ≤ b.toInt ∧ b.toInt < n := by
  have hext : (b.signExtend 64).toInt = b.toInt := BitVec.toInt_signExtend_of_le (by decide)
  rw [BitVec.toInt_eq_toNat_cond] at hext
  unfold asSize
  split at hext <;> omega

/-- The sum that numbers the buckets of a partition: one that wraps around is not in range. -/
theorem asSize_add_lt_iff {a n : Nat} (ha : a < 2 ^ 31) (start : BitVec 32) (hn : n < 2 ^ 31) :
    asSize (BitVec.ofNat 32 a + start) < n ↔ 0 ≤ a + start.toInt ∧ a + start.toInt < n := by
  rw [asSize_lt_iff hn, BitVec.toInt_eq_toNat_cond, BitVec.toInt_eq_toNat_cond, BitVec.toNat_add,
    BitVec.toNat_ofNat]
  split <;> split <;> omega

theorem ofNat_asSize (b : BitVec 32) : BitVec.ofNat 32 (asSize b) = b := by
  unfold asSize
  ext i hi
  simp [BitVec.getLsbD_signExtend, hi, ← BitVec.getLsbD_eq_getElem, Nat.lt_trans hi]

variable {Key : Type}

namespace RoutingEnv

/-- The resolver has no null result for the key. -/
def NonNull (env : RoutingEnv Key) (key : Key) : Prop :=
  match env.resolver with
  | none => True
  | some (.routing getRoutingObject) => (getRoutingObject key).isSome
  | some (.fixed getRoutingObject getPartitionName) =>
    (getRoutingObject key).isSome ∧ (getPartitionName key).isSome

end RoutingEnv

/-- The number of a bucket of a fixed partition is defined and in range. -/
structure FixedPartition.InRange (attList : FixedPartition) (total : Nat) (hc : BitVec 32) :
    Prop where
  defined : ¬(attList.numBuckets = 0 ∨ hc = BitVec.intMin 32 ∧ attList.numBuckets = -1)
  nonneg : 0 ≤ (hc.toInt.tmod attList.numBuckets.toInt).natAbs + attList.startingBucketID.toInt
  lt : (hc.toInt.tmod attList.numBuckets.toInt).natAbs + attList.startingBucketID.toInt < total

/-- The metadata has the bucket of the key: it has buckets, or, with a resolver for fixed
partitions, it has the partition of the key, with the bucket in range. -/
def RoutingEnv.KnownBucket (env : RoutingEnv Key) (metadata : PartitionMetadata) (key : Key) :
    Prop :=
  match env.resolver with
  | some (.fixed getRoutingObject getPartitionName) =>
    ∃ resolvekey ∈ getRoutingObject key, ∃ partition ∈ getPartitionName key,
      ∃ attList ∈ metadata.fpaMap.lookup partition,
        attList.InRange metadata.totalNumBuckets (env.hashcode resolvekey)
  | _ => 0 < metadata.totalNumBuckets

section BucketId
variable {env : RoutingEnv Key} {metadata : PartitionMetadata} {key : Key}

theorem RoutingEnv.asSize_hashBucket_lt (resolvekey : Key) :
    asSize (env.hashBucket metadata resolvekey) < metadata.totalNumBuckets ↔
      0 < metadata.totalNumBuckets := by
  have htotal := metadata.total_lt
  unfold RoutingEnv.hashBucket
  split
  · next hpos =>
    have hlt := bucketIdOf_lt hpos (env.hashcode resolvekey)
    have hrange := asSize_add_lt_iff (Nat.lt_trans hlt htotal) 0#32 htotal
    rw [BitVec.add_zero] at hrange
    rw [hrange]
    simp [hpos, hlt]
  · next hzero => exact iff_of_false (fun h => hzero (Nat.zero_lt_of_lt h)) hzero

theorem natAbs_tmod_lt (hc n : BitVec 32) (hn : n ≠ 0) :
    (hc.toInt.tmod n.toInt).natAbs < 2 ^ 31 := by
  rw [Int.natAbs_tmod]
  have hpos : 0 < n.toInt.natAbs := by
    rw [Int.natAbs_pos]
    intro hzero
    exact hn (BitVec.eq_of_toInt_eq (by simpa using hzero))
  have hlt := Nat.mod_lt hc.toInt.natAbs hpos
  have hbound := BitVec.toInt_lt (x := n)
  have hbound' := BitVec.le_toInt n
  omega

/-- A key has a bucket number, in range exactly for a known bucket, or its remainder is not
defined. -/
theorem RoutingEnv.bucketId_cases (metadata : PartitionMetadata) (hnonNull : env.NonNull key) :
    (∃ b, env.bucketId metadata key = .ok b ∧
      (asSize b < metadata.totalNumBuckets ↔ env.KnownBucket metadata key)) ∨
    (∃ e, env.bucketId metadata key = .error e) ∧ ¬env.KnownBucket metadata key := by
  unfold RoutingEnv.NonNull at hnonNull
  unfold RoutingEnv.bucketId RoutingEnv.KnownBucket
  rcases hresolver : env.resolver with _ | ⟨getRoutingObject⟩ | ⟨getRoutingObject, getPartitionName⟩
  · exact .inl ⟨_, rfl, env.asSize_hashBucket_lt key⟩
  · rw [hresolver] at hnonNull
    obtain ⟨resolvekey, hroute⟩ := Option.isSome_iff_exists.mp hnonNull
    dsimp only
    rw [hroute]
    exact .inl ⟨_, rfl, env.asSize_hashBucket_lt resolvekey⟩
  · rw [hresolver] at hnonNull
    obtain ⟨resolvekey, hroute⟩ := Option.isSome_iff_exists.mp hnonNull.1
    obtain ⟨partition, hname⟩ := Option.isSome_iff_exists.mp hnonNull.2
    dsimp only
    rw [hroute, hname]
    simp only [Option.mem_def, Option.some.injEq, exists_eq_left',
      PartitionMetadata.assignFixedBucketId]
    cases hpartition : metadata.fpaMap.lookup partition with
    | none =>
      -- the partition is not known: the number is `-1`
      refine .inl ⟨-1, rfl, iff_of_false ?_ (by simp)⟩
      rw [asSize_lt_iff metadata.total_lt]
      exact fun h => absurd h.1 (by decide)
    | some attList =>
      simp only [Option.some.injEq, exists_eq_left']
      split
      · next hundefined => exact .inr ⟨⟨_, rfl⟩, fun h => h.defined hundefined⟩
      · next hdefined =>
        have hlt := natAbs_tmod_lt (env.hashcode resolvekey) attList.numBuckets
          (fun hzero => hdefined (.inl hzero))
        refine .inl ⟨_, rfl, ?_⟩
        rw [asSize_add_lt_iff hlt _ metadata.total_lt]
        exact ⟨fun h => ⟨hdefined, h.1, h.2⟩, fun h => ⟨h.nonneg, h.lt⟩⟩

end BucketId

/-! ## The keys of each bucket -/

section Keys
variable [DecidableEq Key] {env : RoutingEnv Key} {metadata : PartitionMetadata}

open Grouping

/-- The loop groups the keys by their bucket numbers, when each key has one. -/
theorem RoutingEnv.groupByBucketOnClientSide_ok {keys : List Key} (m : BucketToKeysMap Key)
    (hkeys : ∀ key ∈ keys, ∃ b, env.bucketId metadata key = .ok b) :
    ∃ m', env.groupByBucketOnClientSide metadata m keys = .ok m' ∧
      (∀ b key, key ∈ group (KeyEqual.ofEq _) m' b ↔
        key ∈ group (KeyEqual.ofEq _) m b ∨ key ∈ keys ∧ env.bucketId metadata key = .ok b) ∧
      ∀ b, b ∈ m'.map (·.1) ↔
        b ∈ m.map (·.1) ∨ ∃ key ∈ keys, env.bucketId metadata key = .ok b := by
  induction keys generalizing m with
  | nil => exact ⟨m, rfl, by simp, by simp⟩
  | cons key keys ih =>
    obtain ⟨⟨b₀, hb₀⟩, hkeys⟩ := List.forall_mem_cons.mp hkeys
    obtain ⟨m', hloop, hgroup, hmem⟩ := ih (insertAll (KeyEqual.ofEq _) m b₀ {key}) hkeys
    refine ⟨m', ?_, ?_, ?_⟩
    · unfold RoutingEnv.groupByBucketOnClientSide
      rw [hb₀]
      exact hloop
    · intro b key'
      rw [hgroup, mem_group_insertAll, mem_singleton, List.mem_cons, or_assoc, or_and_right]
      refine or_congr_right (or_congr_left ?_)
      rw [and_comm]
      refine and_congr_right fun hkey => ?_
      rw [hkey, hb₀, Except.ok.injEq]
    · intro b
      rw [hmem, mem_keys_insertAll, or_assoc, List.exists_mem_cons_iff, hb₀, Except.ok.injEq,
        eq_comm]

theorem RoutingEnv.groupByBucketOnClientSide_error {keys : List Key} (m : BucketToKeysMap Key)
    {key : Key} (hkey : key ∈ keys) (herror : ∃ e, env.bucketId metadata key = .error e) :
    ∃ e, env.groupByBucketOnClientSide metadata m keys = .error e := by
  induction keys generalizing m with
  | nil => cases hkey
  | cons key' keys ih =>
    unfold RoutingEnv.groupByBucketOnClientSide
    split
    · next e _ => exact ⟨e, rfl⟩
    · next b hb =>
      cases hkey with
      | head =>
        obtain ⟨e, he⟩ := herror
        rw [he] at hb
        cases hb
      | tail _ hkey => exact ih _ hkey

end Keys

/-! ## The servers of the buckets -/

section Servers
variable {metadata : ClientMetadata}

open Grouping

variable {b : Nat}

theorem ClientMetadata.adviseServerLocations_error (h : metadata.totalNumBuckets ≤ b) :
    ∃ e, metadata.adviseServerLocations b = .error e := by
  unfold ClientMetadata.adviseServerLocations ClientMetadata.checkBucketId
  rw [metadata.length_eq, if_pos h]
  exact ⟨_, rfl⟩

/-- The buckets so far are each with one server, or with the buckets without a server. -/
structure Collected (done without : BucketSet) (m : ServerToBucketsMap) : Prop where
  separate : Separate m
  disjoint : ∀ b ∈ without, ¬Has m b
  all : ∀ b, b ∈ done ↔ Has m b ∨ b ∈ without

section Collected
variable {done without : BucketSet} {m : ServerToBucketsMap} {b : Nat}

theorem Collected.insertWithout (h : Collected done without m) (hb : b ∉ done) :
    Collected (insert b done) (insert b without) m where
  separate := h.separate
  disjoint b' hb' hhas := by
    obtain rfl | hb' := mem_insert.mp hb'
    · exact hb ((h.all b').mpr (.inl hhas))
    · exact h.disjoint b' hb' hhas
  all b' := by
    rw [mem_insert, mem_insert, h.all, or_left_comm]

theorem Collected.insertServer (h : Collected done without m) (hb : b ∉ done)
    (serverLocation : BucketServerLocation) :
    Collected (insert b done) without (insertAll keyEqual m serverLocation {b}) where
  separate := by
    refine h.separate.insertAll serverLocation fun b' hb' hhas => ?_
    rw [mem_singleton.mp hb'] at hhas
    exact hb ((h.all b).mpr (.inl hhas))
  disjoint b' hb' hhas := by
    obtain hhas | hself := (has_insertAll _ _ _ _ _).mp hhas
    · exact h.disjoint b' hb' hhas
    · rw [mem_singleton.mp hself] at hb'
      exact hb ((h.all b).mpr (.inr hb'))
  all b' := by
    rw [mem_insert, h.all, has_insertAll, mem_singleton, or_left_comm, ← or_assoc]

theorem collectPrimaries_ok {buckets : List Nat}
    (hrange : ∀ b ∈ buckets, b < metadata.totalNumBuckets) (hnodup : buckets.Nodup)
    (hnew : ∀ b ∈ buckets, b ∉ done) (h : Collected done without m) :
    ∃ without' m', collectPrimaries metadata without m buckets = .ok (without', m') ∧
      Collected (done ∪ buckets.toFinset) without' m' := by
  induction buckets generalizing done without m with
  | nil => exact ⟨without, m, rfl, by simpa using h⟩
  | cons bucketId buckets ih =>
    obtain ⟨hlt, hrange⟩ := List.forall_mem_cons.mp hrange
    obtain ⟨hfresh, hnodup⟩ := List.nodup_cons.mp hnodup
    obtain ⟨hself, hnew⟩ := List.forall_mem_cons.mp hnew
    have hnew' : ∀ b ∈ buckets, b ∉ insert bucketId done := by
      intro b hb hin
      obtain rfl | hin := mem_insert.mp hin
      · exact hfresh hb
      · exact hnew b hb hin
    have hdone : done ∪ (bucketId :: buckets).toFinset =
        insert bucketId done ∪ buckets.toFinset := by
      rw [List.toFinset_cons, union_insert, insert_union]
    have hadvise : metadata.advisePrimaryServerLocation bucketId =
        .ok ((metadata.locations bucketId).find? (·.isPrimary)) := by
      unfold ClientMetadata.advisePrimaryServerLocation
      rw [metadata.adviseServerLocations_ok hlt]
    unfold collectPrimaries
    rw [hadvise, hdone]
    cases (metadata.locations bucketId).find? (·.isPrimary) with
    | none => exact ih hrange hnodup hnew' (h.insertWithout hself)
    | some serverLocation =>
      dsimp only
      split
      · exact ih hrange hnodup hnew' (h.insertServer hself serverLocation)
      · exact ih hrange hnodup hnew' (h.insertWithout hself)

end Collected

variable {buckets : List Nat}

/-- For buckets in range there are servers, or null, after at most `turns` turns. Servers that are
found have each bucket exactly once. -/
theorem groupByServerToBuckets_ok (hrange : ∀ b ∈ buckets, b < metadata.totalNumBuckets)
    (hnodup : buckets.Nodup) (optimizeForWrite : Bool)
    (hnamed : optimizeForWrite = false → metadata.Named) (choices : PruneChoices) :
    ∃ r turns, (∀ fuel, turns < fuel →
        groupByServerToBuckets metadata buckets optimizeForWrite choices fuel = .ok (some r)) ∧
      ∀ m, r = some m → m = [] ∨ Separate m ∧ ∀ b, b ∈ buckets ↔ Has m b := by
  unfold groupByServerToBuckets
  cases optimizeForWrite with
  | true =>
    have hempty : Collected ∅ ∅ [] := ⟨List.Pairwise.nil, by simp, by simp [Has]⟩
    obtain ⟨without, m, hcollect, h⟩ := collectPrimaries_ok hrange hnodup (by simp) hempty
    rw [empty_union] at h
    simp only [if_true, hcollect]
    refine ⟨_, 0, fun _ _ => rfl, ?_⟩
    intro m' hm'
    cases hm'
    by_cases hm : m = []
    · rw [hm]
      exact .inl (List.modify_nil _ _)
    · have hplace := Nat.mod_lt choices.first (List.length_pos_iff.mpr hm)
      refine .inr ⟨h.separate.modify_union hplace h.disjoint, fun b => ?_⟩
      rw [has_modify_union hplace, ← h.all, List.mem_toFinset]
  | false =>
    by_cases hnone : ∀ b ∈ buckets, metadata.locations b = []
    · exact ⟨none, 0, fun fuel _ => pruneNodes_null (hnamed rfl) hrange hnone choices fuel,
        by simp⟩
    · push Not at hnone
      obtain ⟨b, hb, hlocations⟩ := hnone
      obtain ⟨m, turns, hends, hcovers⟩ :=
        pruneNodes_some (hnamed rfl) hrange hb hlocations choices
      refine ⟨some m, turns, hends, ?_⟩
      intro m' hm'
      cases hm'
      exact .inr ⟨hcovers.disjoint, hcovers.union⟩

section
variable (hb : b ∈ buckets) (hrange : metadata.totalNumBuckets ≤ b)
include hb hrange

theorem collectPrimaries_error (without : BucketSet) (m : ServerToBucketsMap) :
    ∃ e, collectPrimaries metadata without m buckets = .error e := by
  induction buckets generalizing without m with
  | nil => cases hb
  | cons bucketId buckets ih =>
    unfold collectPrimaries
    cases hb with
    | head =>
      obtain ⟨e, he⟩ := metadata.adviseServerLocations_error hrange
      unfold ClientMetadata.advisePrimaryServerLocation
      rw [he]
      exact ⟨e, rfl⟩
    | tail _ hb =>
      split
      · next e _ => exact ⟨e, rfl⟩
      · exact ih hb _ _
      · split
        · exact ih hb _ _
        · exact ih hb _ _

theorem collectServers_error (without : BucketSet) (m : ServerToBucketsMap) :
    ∃ e, collectServers metadata without m buckets = .error e := by
  induction buckets generalizing without m with
  | nil => cases hb
  | cons bucketId buckets ih =>
    unfold collectServers
    cases hb with
    | head =>
      obtain ⟨e, he⟩ := metadata.adviseServerLocations_error hrange
      rw [he]
      exact ⟨e, rfl⟩
    | tail _ hb =>
      split
      · next e _ => exact ⟨e, rfl⟩
      · exact ih hb _ _
      · split
        · next e _ => exact ⟨e, rfl⟩
        · exact ih hb _ _

theorem groupByServerToBuckets_error (optimizeForWrite : Bool) (choices : PruneChoices)
    (fuel : Nat) :
    ∃ e, groupByServerToBuckets metadata buckets optimizeForWrite choices fuel = .error e := by
  unfold groupByServerToBuckets pruneNodes
  cases optimizeForWrite with
  | true =>
    obtain ⟨e, he⟩ := collectPrimaries_error hb hrange ∅ []
    rw [he]
    exact ⟨e, rfl⟩
  | false =>
    obtain ⟨e, he⟩ := collectServers_error hb hrange ∅ []
    rw [he]
    exact ⟨e, rfl⟩

end

end Servers

/-! ## The keys of each server -/

section Result
variable {bucketToKeysMap : BucketToKeysMap Key} {env : RoutingEnv Key}
  {metadata : PartitionMetadata} {keys : List Key}

open Grouping

/-- The keys of the bucket. -/
def keysOf (bucketToKeysMap : BucketToKeysMap Key) (b : Nat) : Finset Key :=
  group (KeyEqual.ofEq _) bucketToKeysMap (BitVec.ofNat 32 b)

/-- The keys, grouped by bucket. -/
structure Grouped (env : RoutingEnv Key) (metadata : PartitionMetadata) (keys : List Key)
    (bucketToKeysMap : BucketToKeysMap Key) : Prop where
  bucket : ∀ key ∈ keys, ∃ b, env.bucketId metadata key = .ok b
  mem_group : ∀ b key, key ∈ group (KeyEqual.ofEq _) bucketToKeysMap b ↔
    key ∈ keys ∧ env.bucketId metadata key = .ok b
  mem_buckets : ∀ b, b ∈ bucketToKeysMap.map (asSize ·.1) ↔
    ∃ key ∈ keys, ∃ b', env.bucketId metadata key = .ok b' ∧ asSize b' = b

theorem Grouped.keysOf_disjoint (h : Grouped env metadata keys bucketToKeysMap) {b b' : Nat}
    (hb : b < metadata.totalNumBuckets) (hb' : b' < metadata.totalNumBuckets) (hne : b ≠ b') :
    Disjoint (keysOf bucketToKeysMap b) (keysOf bucketToKeysMap b') := by
  have htotal := metadata.total_lt
  refine disjoint_left.mpr fun key hkey hkey' => hne ?_
  have hbucket := ((h.mem_group _ key).mp hkey).2
  have hbucket' := ((h.mem_group _ key).mp hkey').2
  have heq := congrArg BitVec.toNat (Except.ok.inj (hbucket.symm.trans hbucket'))
  rw [BitVec.toNat_ofNat, BitVec.toNat_ofNat] at heq
  omega

variable [DecidableEq Key] {m : ServerToKeysMap Key}

theorem addBuckets_ok (serverLocation : BucketServerLocation) {buckets : List Nat}
    (hbuckets : buckets.Pairwise fun b b' =>
      Disjoint (keysOf bucketToKeysMap b) (keysOf bucketToKeysMap b'))
    (hnew : ∀ b ∈ buckets, ∀ key ∈ keysOf bucketToKeysMap b, ¬Has m key) (hm : Separate m) :
    Separate (addBuckets bucketToKeysMap serverLocation m buckets) ∧
      ∀ key, Has (addBuckets bucketToKeysMap serverLocation m buckets) key ↔
        Has m key ∨ ∃ b ∈ buckets, key ∈ keysOf bucketToKeysMap b := by
  induction buckets generalizing m with
  | nil => exact ⟨hm, by simp [addBuckets]⟩
  | cons b buckets ih =>
    obtain ⟨hfirst, hbuckets⟩ := List.pairwise_cons.mp hbuckets
    obtain ⟨hself, hnew⟩ := List.forall_mem_cons.mp hnew
    have hhas := has_insertAll keyEqual m serverLocation (keysOf bucketToKeysMap b)
    have hnew' : ∀ b' ∈ buckets, ∀ key ∈ keysOf bucketToKeysMap b',
        ¬Has (insertAll keyEqual m serverLocation (keysOf bucketToKeysMap b)) key := by
      intro b' hb' key hkey hin
      obtain hin | hin := (hhas key).mp hin
      · exact hnew b' hb' key hkey hin
      · exact disjoint_left.mp (hfirst b' hb') hin hkey
    obtain ⟨hsep, hall⟩ := ih hbuckets hnew' (hm.insertAll serverLocation hself)
    refine ⟨hsep, fun key => (hall key).trans ?_⟩
    rw [hhas, List.exists_mem_cons_iff, or_assoc]

theorem RoutingEnv.addServers_ok {servers : ServerToBucketsMap} (hservers : Separate servers)
    (hkeys : ∀ b b', Has servers b → Has servers b' → b ≠ b' →
      Disjoint (keysOf bucketToKeysMap b) (keysOf bucketToKeysMap b'))
    (hnew : ∀ b, Has servers b → ∀ key ∈ keysOf bucketToKeysMap b, ¬Has m key) (hm : Separate m) :
    Separate (env.addServers bucketToKeysMap m servers) ∧
      ∀ key, Has (env.addServers bucketToKeysMap m servers) key ↔
        Has m key ∨ ∃ b, Has servers b ∧ key ∈ keysOf bucketToKeysMap b := by
  induction servers generalizing m with
  | nil => exact ⟨hm, by simp [RoutingEnv.addServers, Has]⟩
  | cons node servers ih =>
    obtain ⟨hnode, hservers⟩ := List.pairwise_cons.mp hservers
    obtain ⟨hnodup, hset⟩ := (env.bucketOrder node.2).2
    have horder : ∀ b, b ∈ (env.bucketOrder node.2).1 ↔ b ∈ node.2 := by
      intro b
      rw [← List.mem_toFinset, hset]
    have hin : ∀ b ∈ (env.bucketOrder node.2).1, Has (node :: servers) b :=
      fun b hb => (has_cons node servers b).mpr (.inl ((horder b).mp hb))
    have hlater : ∀ b, Has servers b → Has (node :: servers) b :=
      fun b hb => (has_cons node servers b).mpr (.inr hb)
    have hpairs : (env.bucketOrder node.2).1.Pairwise fun b b' =>
        Disjoint (keysOf bucketToKeysMap b) (keysOf bucketToKeysMap b') :=
      hnodup.imp_of_mem fun ha hb hne => hkeys _ _ (hin _ ha) (hin _ hb) hne
    obtain ⟨hsep, hall⟩ := addBuckets_ok node.1 hpairs (fun b hb => hnew b (hin b hb)) hm
    -- a bucket of a later server is not one of this server
    have hnew' : ∀ b, Has servers b → ∀ key ∈ keysOf bucketToKeysMap b,
        ¬Has (addBuckets bucketToKeysMap node.1 m (env.bucketOrder node.2).1) key := by
      intro b hb key hkey hhas
      obtain hold | ⟨b', hb', hkey'⟩ := (hall key).mp hhas
      · exact hnew b (hlater b hb) key hkey hold
      · have hne : b ≠ b' := by
          rintro rfl
          obtain ⟨node', hnode', hmem⟩ := hb
          exact disjoint_left.mp (hnode node' hnode') ((horder b).mp hb') hmem
        exact disjoint_left.mp (hkeys b b' (hlater b hb) (hin b' hb') hne) hkey hkey'
    obtain ⟨hsep', hall'⟩ := ih hservers
      (fun b b' hb hb' => hkeys b b' (hlater b hb) (hlater b' hb')) hnew' hsep
    refine ⟨hsep', fun key => (hall' key).trans ?_⟩
    rw [hall]
    simp only [horder, has_cons, or_and_right, exists_or, or_assoc]

/-- The key sets of the servers are disjoint, and together they are the routing keys. -/
structure Partitions (keys : List Key) (m : ServerToKeysMap Key) : Prop where
  disjoint : m.Pairwise fun a b => Disjoint a.2 b.2
  union : ∀ key, key ∈ keys ↔ ∃ node ∈ m, key ∈ node.2

/-- The call returns: null, an empty map, or a partition of the keys. -/
def RoutesOrFallsBack (env : RoutingEnv Key) (cptr : Option PartitionMetadata)
    (routingKeys : Option (List Key)) : Prop :=
  ∃ r turns, (∀ fuel, turns < fuel →
      getServerToFilterMapFESHOP env cptr routingKeys fuel = .ok (some r)) ∧
    ∀ m, r = some m → m = [] ∨ Partitions (routingKeys.getD []) m

theorem RoutingEnv.grouped (hkeys : ∀ key ∈ keys, ∃ b, env.bucketId metadata key = .ok b) :
    ∃ m, env.groupByBucketOnClientSide metadata [] keys = .ok m ∧ Grouped env metadata keys m := by
  obtain ⟨m, hloop, hgroup, hmem⟩ := env.groupByBucketOnClientSide_ok [] hkeys
  refine ⟨m, hloop, hkeys, ?_, ?_⟩
  · intro b key
    rw [hgroup]
    simp [group, UnorderedMap.find]
  · intro b
    have hmap : (m.map fun node => asSize node.1) = (m.map (·.1)).map asSize := by
      rw [List.map_map]
      rfl
    rw [hmap, List.mem_map]
    simp only [hmem, List.map_nil, List.not_mem_nil, false_or]
    constructor
    · rintro ⟨b', ⟨key, hkey, hb'⟩, heq⟩
      exact ⟨key, hkey, b', hb', heq⟩
    · rintro ⟨key, hkey, b', hb', heq⟩
      exact ⟨b', ⟨key, hkey, hb'⟩, heq⟩

theorem Grouped.partitions (h : Grouped env metadata keys bucketToKeysMap)
    {servers : ServerToBucketsMap} (hsep : Separate servers)
    (hall : ∀ b, b ∈ bucketToKeysMap.map (asSize ·.1) ↔ Has servers b)
    (hrange : ∀ b, Has servers b → b < metadata.totalNumBuckets) :
    Partitions keys (env.addServers bucketToKeysMap [] servers) := by
  have hnew : ∀ b, Has servers b → ∀ key ∈ keysOf bucketToKeysMap b,
      ¬Has ([] : ServerToKeysMap Key) key := fun _ _ _ _ ⟨_, hnode, _⟩ => nomatch hnode
  have hkeys : ∀ b b', Has servers b → Has servers b' → b ≠ b' →
      Disjoint (keysOf bucketToKeysMap b) (keysOf bucketToKeysMap b') :=
    fun b b' hb hb' => h.keysOf_disjoint (hrange b hb) (hrange b' hb')
  obtain ⟨hsep', hall'⟩ := env.addServers_ok hsep hkeys hnew List.Pairwise.nil
  refine ⟨hsep', fun key => ?_⟩
  refine Iff.trans ?_ (hall' key).symm
  constructor
  · intro hkey
    obtain ⟨b, hb⟩ := h.bucket key hkey
    refine .inr ⟨asSize b, (hall _).mp ((h.mem_buckets _).mpr ⟨key, hkey, b, hb, rfl⟩), ?_⟩
    unfold keysOf
    rw [ofNat_asSize]
    exact (h.mem_group b key).mpr ⟨hkey, hb⟩
  · rintro (⟨_, hnode, _⟩ | ⟨b, -, hkey⟩)
    · cases hnode
    · exact ((h.mem_group _ key).mp hkey).1

/-- With the buckets of all keys known, the call returns null, an empty map or a partition. -/
theorem routesOrFallsBack_of_known (hnonNull : ∀ key ∈ keys, env.NonNull key)
    (hnamed : env.isPrimary = false → metadata.Named)
    (hknown : ∀ key ∈ keys, env.KnownBucket metadata key) :
    RoutesOrFallsBack env (some metadata) (some keys) := by
  have hbucket : ∀ key ∈ keys, ∃ b, env.bucketId metadata key = .ok b ∧
      asSize b < metadata.totalNumBuckets := by
    intro key hkey
    obtain ⟨b, hb, hiff⟩ | ⟨-, hnot⟩ := env.bucketId_cases metadata (hnonNull key hkey)
    · exact ⟨b, hb, hiff.mpr (hknown key hkey)⟩
    · exact absurd (hknown key hkey) hnot
  obtain ⟨byBucket, hgroups, hgrouped⟩ := env.grouped fun key hkey =>
    (hbucket key hkey).imp fun _ h => h.1
  obtain ⟨hnodup, hset⟩ := (env.bucketOrder (byBucket.map fun node => asSize node.1).toFinset).2
  have hbuckets : ∀ b, b ∈ byBucket.map (asSize ·.1) ↔
      b ∈ (env.bucketOrder (byBucket.map fun node => asSize node.1).toFinset).1 := by
    intro b
    have hmem := congrArg (b ∈ ·) hset
    simpa only [List.mem_toFinset] using hmem.symm.to_iff
  have hrange : ∀ b ∈ (env.bucketOrder (byBucket.map fun node => asSize node.1).toFinset).1,
      b < metadata.totalNumBuckets := by
    intro b hb
    obtain ⟨key, hkey, b', hb', rfl⟩ := (hgrouped.mem_buckets b).mp ((hbuckets b).mpr hb)
    obtain ⟨b'', hb'', hlt⟩ := hbucket key hkey
    rw [Except.ok.inj (hb'.symm.trans hb'')]
    exact hlt
  obtain ⟨r, turns, hends, hservers⟩ :=
    groupByServerToBuckets_ok hrange hnodup env.isPrimary hnamed env.choices
  cases r with
  | none =>
    refine ⟨none, turns, fun fuel hfuel => ?_, nofun⟩
    unfold getServerToFilterMapFESHOP
    simp only [hgroups, hends fuel hfuel]
  | some servers =>
    refine ⟨some (env.addServers byBucket [] (env.serverOrder servers).1), turns,
      fun fuel hfuel => ?_, ?_⟩
    · unfold getServerToFilterMapFESHOP
      simp only [hgroups, hends fuel hfuel]
    intro m' hm'
    cases hm'
    have hperm := (env.serverOrder servers).2
    obtain hnil | ⟨hsep, hall⟩ := hservers servers rfl
    · have hempty : (env.serverOrder servers).1 = [] := by
        rw [hnil] at hperm ⊢
        exact hperm.eq_nil
      rw [hempty]
      exact .inl rfl
    · have hhas : ∀ b, b ∈ byBucket.map (asSize ·.1) ↔ Has (env.serverOrder servers).1 b :=
        fun b => (hbuckets b).trans ((hall b).trans (Has.perm hperm b).symm)
      exact .inr (hgrouped.partitions (hsep.perm hperm) hhas
        fun b hb => hrange b ((hbuckets b).mp ((hhas b).mpr hb)))

theorem getServerToFilterMapFESHOP_error (hnonNull : ∀ key ∈ keys, env.NonNull key) {key : Key}
    (hkey : key ∈ keys) (hunknown : ¬env.KnownBucket metadata key) (fuel : Nat) :
    ∃ e, getServerToFilterMapFESHOP env (some metadata) (some keys) fuel = .error e := by
  unfold getServerToFilterMapFESHOP
  dsimp only
  by_cases hbucket : ∀ key ∈ keys, ∃ b, env.bucketId metadata key = .ok b
  · obtain ⟨byBucket, hgroups, hgrouped⟩ := env.grouped hbucket
    obtain ⟨b, hb, hiff⟩ | ⟨⟨e, he⟩, -⟩ := env.bucketId_cases metadata (hnonNull key hkey)
    · -- the bucket of the key is not in range
      have hin : asSize b ∈
          (env.bucketOrder (byBucket.map fun node => asSize node.1).toFinset).1 := by
        rw [← List.mem_toFinset, (env.bucketOrder _).2.2, List.mem_toFinset]
        exact (hgrouped.mem_buckets _).mpr ⟨key, hkey, b, hb, rfl⟩
      have hrange := Nat.not_lt.mp fun hlt => hunknown (hiff.mp hlt)
      obtain ⟨e, he⟩ := groupByServerToBuckets_error hin hrange env.isPrimary env.choices fuel
      simp only [hgroups, he]
      exact ⟨_, rfl⟩
    · obtain ⟨b, hb⟩ := hbucket key hkey
      rw [he] at hb
      cases hb
  · push Not at hbucket
    obtain ⟨key', hkey', hnone⟩ := hbucket
    obtain ⟨b, hb, -⟩ | ⟨herror, -⟩ := env.bucketId_cases metadata (hnonNull key' hkey')
    · exact absurd hb (hnone b)
    · obtain ⟨e, he⟩ := env.groupByBucketOnClientSide_error [] hkey' herror
      rw [he]
      exact ⟨e, rfl⟩

end Result

/-- The metadata of `oneServer` with the partition "Q1". -/
def onePartition : PartitionMetadata :=
  { oneServer with fpaMap := [("Q1", ⟨1, 0⟩)], total_lt := by decide }

/-- A resolver that names the same partition for each key. -/
noncomputable def fixedEnv (partition : String) (isPrimary : Bool) : RoutingEnv Nat where
  hashcode _ := 0
  resolver := some (.fixed some fun _ => some partition)
  isPrimary := isPrimary
  choices := ⟨id, id, 0⟩
  bucketOrder s := ⟨s.toList, s.nodup_toList, s.toList_toFinset⟩
  serverOrder := UnorderedMap.inOrder

end GeodeNative.Client

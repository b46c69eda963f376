import GeodeNative.Client.ClientMetadataService
import GeodeNative.Lib.Run

/-!
# Every key goes to one server

`getServerToFilterMap` looks up the location of a key when no location is known yet for its bucket.
`given` is the valid location that such a lookup finds. A key is located when the lookup for it, or
for an earlier key of the same bucket, finds a location (`Located`).

`Inv` is the invariant of the loop over the keys: the keys so far are in the lists of the servers or
left, and the located ones are in the list of a server of their bucket. `spread` deals out the keys
that are left; there is room for all of them (`flatMap_spread_perm`).

The loop calls the routing object of the resolver without a check, so a null one is a null
dereference (`getServerToFilterMap_distributes_iff`). Whatever it meets, a map that is returned has
each server once, a server has at least one key, and the lists of the servers together are the keys
of the call (`Routes`).
-/

set_option autoImplicit false

namespace GeodeNative.Client

open Lib BucketServerLocation List UnorderedMap

variable {Key : Type}

namespace FilterEnv
variable (env : FilterEnv Key) (metadata : ClientMetadata)

/-- The bucket of key number `i`. -/
def bucketAt (i : Nat) (key : Key) : Option Nat :=
  (resolveKey env.resolver i key).map fun resolveKey =>
    bucketIdOf metadata.totalNumBuckets (env.hashcode resolveKey)

/-- The valid location that the lookup for key number `i` finds. -/
def given (i b : Nat) : Option BucketServerLocation :=
  match metadata.getServerLocation b env.isPrimary (env.randgen i) (-1) with
  | .ok (some location, _) => if location.isValid then some location else none
  | _ => none

/-- Key number `j` is of bucket `b`, and the lookup for it finds a valid location. -/
def GivenAt (keys : List Key) (j b : Nat) : Prop :=
  ∃ key, keys[j]? = some key ∧ env.bucketAt metadata j key = some b ∧
    (env.given metadata j b).isSome

/-- Key number `i` of bucket `b` is given a valid location, by its own lookup or by an earlier
one. -/
def Located (keys : List Key) (i b : Nat) : Prop := ∃ j ≤ i, env.GivenAt metadata keys j b

end FilterEnv

/-- The metadata lists the server for the bucket. -/
def ClientMetadata.Lists (metadata : ClientMetadata) (b : Nat) (server : BucketServerLocation) :
    Prop :=
  ∃ location ∈ metadata.locations b, server.equal location = true

/-- The lists of the map have the keys, and each located key is with a server of its bucket. -/
structure Distributes (env : FilterEnv Key) (metadata : ClientMetadata) (keys : List Key)
    (m : ServerToFilterMap Key) : Prop where
  perm : (m.flatMap (·.2)).Perm keys
  placed : ∀ i key b, keys[i]? = some key → env.bucketAt metadata i key = some b →
    env.Located metadata keys i b → ∃ node ∈ m, key ∈ node.2 ∧ metadata.Lists b node.1

/-- The call returns: null exactly when there is no metadata or no key is given a valid location,
and otherwise a map that distributes the keys. -/
def DistributesKeys (env : FilterEnv Key) (clientMetadata : Option ClientMetadata) (keys : List Key)
    (result : Except MetadataError (Option (ServerToFilterMap Key))) : Prop :=
  ∃ r, result = .ok r ∧
    (r = none ↔ ∀ metadata, clientMetadata = some metadata →
      ∀ j b, ¬env.GivenAt metadata keys j b) ∧
    ∀ m metadata, r = some m → clientMetadata = some metadata → Distributes env metadata keys m

/-! ## One key -/

section
variable {metadata : ClientMetadata}

theorem bucketIdOf_lt {n : Nat} (hn : 0 < n) (h : BitVec 32) : bucketIdOf n h < n := by
  unfold bucketIdOf
  rw [Int.natAbs_tmod]
  exact Nat.mod_lt _ hn

theorem getServerLocation_ok {b : Nat} (hb : b < metadata.totalNumBuckets) (tryPrimary : Bool)
    (random : Nat) (version : BitVec 8) :
    ∃ location v, metadata.getServerLocation b tryPrimary random version = .ok (location, v) ∧
      ∀ s, location = some s → s ∈ metadata.locations b := by
  have hcheck : metadata.checkBucketId b = .ok () := by
    unfold ClientMetadata.checkBucketId
    rw [metadata.length_eq, if_neg (Nat.not_le.mpr hb)]
  unfold ClientMetadata.getServerLocation
  rw [hcheck]
  cases hlocations : metadata.locations b with
  | nil => exact ⟨none, version, rfl, nofun⟩
  | cons first rest =>
    cases tryPrimary with
    | true =>
      refine ⟨some first, _, rfl, ?_⟩
      intro s hs
      cases hs
      exact mem_cons_self
    | false => exact ⟨_, _, rfl, fun s hs => mem_of_getElem? hs⟩

variable {env : FilterEnv Key} {i b : Nat} {key : Key} {st : FilterState Key}

theorem mem_of_given {location : BucketServerLocation} (hb : b < metadata.totalNumBuckets)
    (h : env.given metadata i b = some location) : location ∈ metadata.locations b := by
  obtain ⟨l, v, hget, hmem⟩ := getServerLocation_ok hb env.isPrimary (env.randgen i) (-1)
  unfold FilterEnv.given at h
  rw [hget] at h
  cases l with
  | none => cases h
  | some s =>
    dsimp only at h
    split at h
    · exact hmem location h
    · cases h

theorem lt_of_bucketAt (hpos : 0 < metadata.totalNumBuckets)
    (h : env.bucketAt metadata i key = some b) : b < metadata.totalNumBuckets := by
  obtain ⟨r, -, rfl⟩ := Option.map_eq_some_iff.mp h
  exact bucketIdOf_lt hpos _

/-- The location for a key: the known one of its bucket, or the one that a lookup finds. -/
def FilterState.location (env : FilterEnv Key) (metadata : ClientMetadata) (st : FilterState Key)
    (i b : Nat) : Option BucketServerLocation :=
  match st.buckets.lookup b with
  | none => env.given metadata i b
  | some location => some location

theorem FilterState.location_eq :
    st.location env metadata i b = (st.buckets.lookup b).or (env.given metadata i b) := by
  unfold FilterState.location
  cases st.buckets.lookup b <;> rfl

/-- The key is in the list of the location of its bucket. -/
def FilterState.place (st : FilterState Key) (b : Nat) (location : BucketServerLocation)
    (key : Key) : FilterState Key where
  keysWhichLeft := st.keysWhichLeft
  buckets := if (st.buckets.lookup b).isSome then st.buckets else (b, location) :: st.buckets
  serverToFilterMap := assign keyEqual st.serverToFilterMap location
    ((find keyEqual st.serverToFilterMap location).getD [] ++ [key])

/-- The body of the loop: the key is left, or it goes to the list of its location. -/
theorem addKey_eq (hpos : 0 < metadata.totalNumBuckets) (hb : env.bucketAt metadata i key = some b)
    (hfound : ∀ location, st.buckets.lookup b = some location →
      (find keyEqual st.serverToFilterMap location).isSome) :
    env.addKey metadata i st key = .ok
      (match st.location env metadata i b with
      | none => { st with keysWhichLeft := st.keysWhichLeft ++ [key] }
      | some location => st.place b location key) := by
  have hlt := lt_of_bucketAt hpos hb
  obtain ⟨r, hr, rfl⟩ := Option.map_eq_some_iff.mp hb
  unfold FilterEnv.addKey FilterState.location FilterState.place
  rw [hr]
  dsimp only
  cases hlookup : st.buckets.lookup (bucketIdOf metadata.totalNumBuckets (env.hashcode r)) with
  | some location =>
    obtain ⟨keyList, hkeys⟩ := Option.isSome_iff_exists.mp (hfound location hlookup)
    simp [hkeys]
  | none =>
    obtain ⟨l, v, hget, -⟩ := getServerLocation_ok hlt env.isPrimary (env.randgen i) (-1)
    unfold FilterEnv.given
    rw [hget]
    cases l with
    | none => rfl
    | some s => cases hvalid : s.isValid <;> simp [hvalid]

/-! ## The loop over the keys -/

theorem givenAt_append {pre : List Key} {j b : Nat} :
    env.GivenAt metadata (pre ++ [key]) j b ↔ env.GivenAt metadata pre j b ∨
      j = pre.length ∧ env.bucketAt metadata j key = some b ∧ (env.given metadata j b).isSome := by
  simp only [FilterEnv.GivenAt, getElem?_concat_eq_some]
  constructor
  · rintro ⟨key', hkey | ⟨rfl, rfl⟩, hgiven⟩
    · exact .inl ⟨key', hkey, hgiven⟩
    · exact .inr ⟨rfl, hgiven⟩
  · rintro (⟨key', hkey, hgiven⟩ | ⟨rfl, hgiven⟩)
    · exact ⟨key', .inl hkey, hgiven⟩
    · exact ⟨key, .inr ⟨rfl, rfl⟩, hgiven⟩

/-- What the loop over the keys has done for the keys `pre`. -/
structure Inv (env : FilterEnv Key) (metadata : ClientMetadata) (pre : List Key)
    (st : FilterState Key) : Prop where
  perm : (st.serverToFilterMap.flatMap (·.2) ++ st.keysWhichLeft).Perm pre
  found : ∀ b location, st.buckets.lookup b = some location →
    (find keyEqual st.serverToFilterMap location).isSome ∧
      location ∈ metadata.locations b
  known : ∀ b, (st.buckets.lookup b).isSome ↔ ∃ j, env.GivenAt metadata pre j b
  placed : ∀ i key b, pre[i]? = some key → env.bucketAt metadata i key = some b →
    env.Located metadata pre i b →
    ∃ node ∈ st.serverToFilterMap, key ∈ node.2 ∧ metadata.Lists b node.1
  empty : st.serverToFilterMap = [] ↔ ∀ j b, ¬env.GivenAt metadata pre j b

theorem inv_nil (env : FilterEnv Key) (metadata : ClientMetadata) :
    Inv env metadata [] ⟨[], [], []⟩ where
  perm := List.Perm.refl _
  found _ _ h := nomatch h
  known _ := ⟨nofun, fun ⟨_, _, h, _⟩ => nomatch h⟩
  placed _ _ _ h := nomatch h
  empty := ⟨fun _ _ _ ⟨_, h, _⟩ => (nomatch h), fun _ => rfl⟩

section Step
variable {pre : List Key} {st : FilterState Key} {key : Key} {b : Nat}
  (h : Inv env metadata pre st) (hb : env.bucketAt metadata pre.length key = some b)
include h hb

/-- The keys so far keep their place when the nodes keep their keys. -/
theorem Inv.placed_append {m' : ServerToFilterMap Key}
    (hkeep : ∀ node ∈ st.serverToFilterMap, ∃ node' ∈ m', node'.1 = node.1 ∧ node.2 ⊆ node'.2)
    (hnew : env.Located metadata (pre ++ [key]) pre.length b →
      ∃ node ∈ m', key ∈ node.2 ∧ metadata.Lists b node.1) :
    ∀ i key' b', (pre ++ [key])[i]? = some key' → env.bucketAt metadata i key' = some b' →
      env.Located metadata (pre ++ [key]) i b' →
      ∃ node ∈ m', key' ∈ node.2 ∧ metadata.Lists b' node.1 := by
  intro i key' b' hkey hb' hlocated
  rcases getElem?_concat_eq_some.mp hkey with hkey | ⟨rfl, rfl⟩
  · have hi := (List.getElem?_eq_some_iff.mp hkey).1
    obtain ⟨j, hj, hgiven⟩ := hlocated
    have hold : env.GivenAt metadata pre j b' :=
      (givenAt_append.mp hgiven).resolve_right fun heq => by omega
    obtain ⟨node, hnode, hmem, hlists⟩ := h.placed i key' b' hkey hb' ⟨j, hj, hold⟩
    obtain ⟨node', hnode', hname, hsub⟩ := hkeep node hnode
    exact ⟨node', hnode', hsub hmem, hname ▸ hlists⟩
  · cases hb.symm.trans hb'
    exact hnew hlocated

theorem Inv.leave (hnone : st.location env metadata pre.length b = none) :
    Inv env metadata (pre ++ [key]) { st with keysWhichLeft := st.keysWhichLeft ++ [key] } := by
  -- neither an earlier lookup nor the one for this key found a location
  rw [FilterState.location_eq, Option.or_eq_none_iff] at hnone
  obtain ⟨hlookup, hgiven⟩ := hnone
  have hsame : ∀ j b',
      env.GivenAt metadata (pre ++ [key]) j b' ↔ env.GivenAt metadata pre j b' := by
    intro j b'
    refine givenAt_append.trans (or_iff_left ?_)
    intro ⟨hj, hb', hsome⟩
    subst hj
    cases hb.symm.trans hb'
    rw [hgiven] at hsome
    cases hsome
  refine ⟨?_, h.found, ?_, ?_, ?_⟩
  · rw [← append_assoc]
    exact h.perm.append_right [key]
  · intro b'
    rw [h.known b']
    exact exists_congr fun j => (hsame j b').symm
  · refine h.placed_append hb (fun node hnode => ⟨node, hnode, rfl, fun _ hx => hx⟩) ?_
    intro ⟨j, _, hgiven'⟩
    have hsome := (h.known b).mpr ⟨j, (hsame j b).mp hgiven'⟩
    rw [hlookup] at hsome
    cases hsome
  · rw [h.empty]
    exact forall₂_congr fun j b' => not_congr (hsame j b').symm

theorem Inv.place (hpos : 0 < metadata.totalNumBuckets) {location : BucketServerLocation}
    (hsome : st.location env metadata pre.length b = some location) :
    Inv env metadata (pre ++ [key]) (st.place b location key) := by
  have hcases := Option.or_eq_some_iff.mp (FilterState.location_eq.symm.trans hsome)
  have hlookup : ∀ b', (st.place b location key).buckets.lookup b' =
      if b' = b then some location else st.buckets.lookup b' := by
    intro b'
    unfold FilterState.place
    obtain hold | ⟨hold, -⟩ := hcases
    · rw [hold, if_pos Option.isSome_some]
      by_cases hb' : b' = b
      · rw [if_pos hb', hb', hold]
      · rw [if_neg hb']
    · rw [hold, if_neg (by simp), lookup_cons]
      by_cases hb' : b' = b
      · simp [hb']
      · rw [if_neg hb', beq_eq_false_iff_ne.mpr hb']
  have hlocation : location ∈ metadata.locations b := by
    obtain hold | ⟨-, hgiven⟩ := hcases
    · exact (h.found b location hold).2
    · exact mem_of_given (lt_of_bucketAt hpos hb) hgiven
  have hgiven : ∃ j, env.GivenAt metadata (pre ++ [key]) j b := by
    obtain hold | ⟨-, hgiven⟩ := hcases
    · obtain ⟨j, hj⟩ := (h.known b).mp (Option.isSome_of_eq_some hold)
      exact ⟨j, givenAt_append.mpr (.inl hj)⟩
    · exact ⟨_, givenAt_append.mpr (.inr ⟨rfl, hb, Option.isSome_of_eq_some hgiven⟩)⟩
  refine ⟨?_, ?_, ?_, ?_, ?_⟩
  · have hperm := flatMap_assign_perm keyEqual st.serverToFilterMap location [key]
    refine (hperm.append_right _).trans ?_
    rw [append_assoc]
    refine (perm_append_comm.append_left _).trans ?_
    rw [← append_assoc]
    exact h.perm.append_right [key]
  · intro b' l hl
    rw [hlookup] at hl
    rw [FilterState.place, find_assign]
    split at hl
    · next hb' =>
      cases hl
      rw [show keyEqual.equal location location = true from equal_refl location]
      exact ⟨rfl, hb' ▸ hlocation⟩
    · refine ⟨?_, (h.found b' l hl).2⟩
      split
      · rfl
      · exact (h.found b' l hl).1
  · intro b'
    rw [hlookup]
    by_cases hb' : b' = b
    · rw [if_pos hb']
      exact iff_of_true rfl (hb' ▸ hgiven)
    · rw [if_neg hb', h.known b']
      refine exists_congr fun j => (givenAt_append.trans (or_iff_left ?_)).symm
      intro ⟨hj, hbucket, _⟩
      subst hj
      exact hb' (Option.some.inj (hbucket.symm.trans hb))
  · refine h.placed_append hb ?_ fun _ => ?_
    · intro node hnode
      obtain ⟨node', hnode', hname, hvalue⟩ := exists_assign_of_mem keyEqual location
        ((find keyEqual st.serverToFilterMap location).getD [] ++ [key]) hnode
      refine ⟨node', hnode', hname, ?_⟩
      cases hvalue with
      | inl hsame => exact fun _ hx => hsame ▸ hx
      | inr hgrown =>
        rw [hgrown.2, hgrown.1]
        exact subset_append_left _ _
    · obtain ⟨node, hnode, hequal, hvalue⟩ := exists_assign keyEqual
        st.serverToFilterMap (equal_refl location)
        ((find keyEqual st.serverToFilterMap location).getD [] ++ [key])
      refine ⟨node, hnode, ?_, location, hlocation, hequal⟩
      rw [hvalue]
      exact mem_append_right _ (mem_singleton.mpr rfl)
  · refine iff_of_false (assign_ne_nil _ _ _ _) ?_
    obtain ⟨j, hj⟩ := hgiven
    exact fun hnone => hnone j b hj

end Step

theorem addKeys_ok (hpos : 0 < metadata.totalNumBuckets) (keys : List Key) {pre : List Key}
    (h : Inv env metadata pre st) (hresolve : ∀ i key, keys[i]? = some key →
      resolveKey env.resolver (pre.length + i) key ≠ none) :
    ∃ st', env.addKeys metadata pre.length st keys = .ok st' ∧
      Inv env metadata (pre ++ keys) st' := by
  induction keys generalizing pre st with
  | nil => exact ⟨st, rfl, by rwa [append_nil]⟩
  | cons key keys ih =>
    obtain ⟨r, hr⟩ := Option.ne_none_iff_exists'.mp (hresolve 0 key rfl)
    have hb : env.bucketAt metadata pre.length key =
        some (bucketIdOf metadata.totalNumBuckets (env.hashcode r)) := by
      unfold FilterEnv.bucketAt
      rw [show resolveKey env.resolver pre.length key = some r from hr]
      rfl
    obtain ⟨st', hadd, h'⟩ : ∃ st', env.addKey metadata pre.length st key = .ok st' ∧
        Inv env metadata (pre ++ [key]) st' := by
      refine ⟨_, addKey_eq hpos hb fun location hl => (h.found _ location hl).1, ?_⟩
      cases hlocation : st.location env metadata pre.length _ with
      | none => exact h.leave hb hlocation
      | some location => exact h.place hb hpos hlocation
    unfold FilterEnv.addKeys
    rw [hadd]
    have hnext := ih h' fun i key' hi => by
      rw [length_append, length_singleton, Nat.add_assoc, Nat.add_comm 1 i]
      exact hresolve (i + 1) key' hi
    rwa [length_append, append_assoc] at hnext

theorem resolve_of_addKeys_ok {keys : List Key} {n : Nat} {st st' : FilterState Key}
    (h : env.addKeys metadata n st keys = .ok st') (hi : keys[i]? = some key) :
    resolveKey env.resolver (n + i) key ≠ none := by
  induction keys generalizing n st i with
  | nil => cases hi
  | cons k keys ih =>
    unfold FilterEnv.addKeys at h
    split at h
    · cases h
    · next hadd =>
      cases i with
      | zero =>
        cases hi
        intro hnull
        unfold FilterEnv.addKey at hadd
        rw [show resolveKey env.resolver n key = none from hnull] at hadd
        cases hadd
      | succ i =>
        rw [Nat.add_comm i 1, ← Nat.add_assoc]
        exact ih h hi

end

/-! ## The keys that are left -/

theorem flatMap_spread_perm (perServer : Nat) (keyLefts : List Key) (m : ServerToFilterMap Key)
    (hroom : keyLefts.length ≤ perServer * m.length) :
    ((spread perServer keyLefts m).flatMap (·.2)).Perm (m.flatMap (·.2) ++ keyLefts) := by
  induction m generalizing keyLefts with
  | nil =>
    rw [length_nil, Nat.mul_zero, Nat.le_zero] at hroom
    rw [length_eq_zero_iff.mp hroom]
    exact List.Perm.refl _
  | cons node m ih =>
    obtain ⟨location, keys⟩ := node
    have hroom' : (keyLefts.drop perServer).length ≤ perServer * m.length := by
      rw [length_cons, Nat.mul_succ] at hroom
      rw [length_drop]
      omega
    unfold spread
    rw [flatMap_cons, flatMap_cons, append_assoc, append_assoc]
    refine List.Perm.append_left keys ?_
    refine ((ih _ hroom').append_left _).trans ?_
    refine perm_append_comm_assoc _ _ _ |>.trans ?_
    rw [take_append_drop]

variable {m : ServerToFilterMap Key}

theorem exists_spread_of_mem (perServer : Nat) (keyLefts : List Key)
    {node : BucketServerLocation × List Key} (h : node ∈ m) :
    ∃ node' ∈ spread perServer keyLefts m, node'.1 = node.1 ∧ node.2 ⊆ node'.2 := by
  induction m generalizing keyLefts with
  | nil => cases h
  | cons b m ih =>
    cases h with
    | head => exact ⟨_, mem_cons_self, rfl, subset_append_left _ _⟩
    | tail _ h =>
      obtain ⟨node', hnode', hkeep⟩ := ih (keyLefts.drop perServer) h
      exact ⟨node', mem_cons_of_mem _ hnode', hkeep⟩

/-! ## The whole call -/

section
variable {env : FilterEnv Key} {metadata : ClientMetadata} {keys : List Key} {st : FilterState Key}

/-- The keys that are left go to the servers of the map, in any order of them. -/
theorem Inv.distributes_spread (h : Inv env metadata keys st) (hmap : st.serverToFilterMap ≠ [])
    {order : ServerToFilterMap Key} (horder : order.Perm st.serverToFilterMap) :
    Distributes env metadata keys (spread
      (st.keysWhichLeft.length / st.serverToFilterMap.length + 1) st.keysWhichLeft order) where
  perm := by
    have hroom : st.keysWhichLeft.length ≤
        (st.keysWhichLeft.length / st.serverToFilterMap.length + 1) * order.length := by
      rw [horder.length_eq, Nat.mul_comm]
      exact Nat.le_of_lt (Nat.lt_mul_div_succ _ (length_pos_iff.mpr hmap))
    refine (flatMap_spread_perm _ _ _ hroom).trans ?_
    exact ((horder.flatMap_right _).append_right _).trans h.perm
  placed i key b hkey hb hlocated := by
    obtain ⟨node, hnode, hmem, hlists⟩ := h.placed i key b hkey hb hlocated
    obtain ⟨node', hnode', hname, hsub⟩ := exists_spread_of_mem
      (st.keysWhichLeft.length / st.serverToFilterMap.length + 1) st.keysWhichLeft
      (horder.mem_iff.mpr hnode)
    exact ⟨node', hnode', hsub hmem, hname ▸ hlists⟩

theorem Inv.distributesKeys (h : Inv env metadata keys st)
    (hadd : env.addKeys metadata 0 ⟨[], [], []⟩ keys = .ok st) :
    DistributesKeys env (some metadata) keys (getServerToFilterMap env (some metadata) keys) := by
  unfold getServerToFilterMap
  dsimp only
  rw [hadd]
  dsimp only
  have hnone : (∀ metadata', some metadata = some metadata' →
      ∀ j b, ¬env.GivenAt metadata' keys j b) ↔ st.serverToFilterMap = [] := by
    rw [h.empty]
    exact ⟨fun hall => hall metadata rfl, fun hall metadata' heq => Option.some.inj heq ▸ hall⟩
  by_cases hmap : st.serverToFilterMap = []
  · rw [if_neg (by simp [hmap]), if_pos (by simp [hmap])]
    exact ⟨none, rfl, iff_of_true rfl (hnone.mpr hmap), nofun⟩
  · have hmade : ∀ m, Distributes env metadata keys m →
        DistributesKeys env (some metadata) keys (.ok (some m)) := by
      intro m hm
      refine ⟨some m, rfl, iff_of_false nofun fun hall => hmap (hnone.mp hall), ?_⟩
      intro m' metadata' hm' hmetadata
      cases hm'
      cases hmetadata
      exact hm
    by_cases hleft : st.keysWhichLeft = []
    · rw [if_neg (by simp [hleft]), if_neg (by simpa using hmap)]
      exact hmade _ ⟨by simpa [hleft] using h.perm, h.placed⟩
    · rw [if_pos ⟨length_pos_iff.mpr hleft, length_pos_iff.mpr hmap⟩]
      exact hmade _ (h.distributes_spread hmap (env.order _).2)

end

/-- With a positive number of buckets, `getServerToFilterMap` distributes the keys exactly when
there is no metadata or no routing object is null. -/
theorem getServerToFilterMap_distributes_iff (env : FilterEnv Key)
    (clientMetadata : Option ClientMetadata) (keys : List Key)
    (hpos : ∀ metadata, clientMetadata = some metadata → 0 < metadata.totalNumBuckets) :
    DistributesKeys env clientMetadata keys (getServerToFilterMap env clientMetadata keys) ↔
      clientMetadata = none ∨
        ∀ i key, keys[i]? = some key → resolveKey env.resolver i key ≠ none := by
  cases clientMetadata with
  | none => exact iff_of_true ⟨none, rfl, iff_of_true rfl nofun, nofun⟩ (.inl rfl)
  | some metadata =>
    constructor
    · intro ⟨r, hr, _⟩
      refine .inr ?_
      intro i key hi
      unfold getServerToFilterMap at hr
      dsimp only at hr
      split at hr
      · cases hr
      · next st hadd =>
        have hresolve := resolve_of_addKeys_ok hadd hi
        rwa [Nat.zero_add] at hresolve
    · intro hresolve
      have hresolve := hresolve.resolve_left nofun
      obtain ⟨st, hadd, h⟩ := addKeys_ok (hpos metadata rfl) keys (inv_nil env metadata)
        fun i key hi => by
          rw [length_nil, Nat.zero_add]
          exact hresolve i key hi
      exact h.distributesKeys hadd

/-- A region with one bucket, on one server. -/
def oneServer : ClientMetadata where
  totalNumBuckets := 1
  bucketServerLocationsList := [[⟨some [0x68], 40404, true, 0⟩]]
  length_eq := rfl

/-- A call with the keys as their own hash codes. -/
def wordFilterEnv (resolver : Option (Nat → BitVec 32 → Option (BitVec 32))) :
    FilterEnv (BitVec 32) where
  hashcode := id
  resolver := resolver
  isPrimary := true
  randgen _ := 0
  order := UnorderedMap.inOrder

theorem getServerToFilterMap_distributes_two_keys :
    DistributesKeys (wordFilterEnv none) (some oneServer) [7, 8]
      (getServerToFilterMap (wordFilterEnv none) (some oneServer) [7, 8]) := by
  refine (getServerToFilterMap_distributes_iff _ _ _ ?_).mpr (.inr nofun)
  intro metadata h
  cases h
  exact Nat.one_pos

/-- A resolver that answers with a null routing object. -/
theorem getServerToFilterMap_null_routing :
    getServerToFilterMap (wordFilterEnv (some fun _ _ => none)) (some oneServer) [7] =
        .error .nullPointer ∧
      ¬DistributesKeys (wordFilterEnv (some fun _ _ => none)) (some oneServer) [7]
        (getServerToFilterMap (wordFilterEnv (some fun _ _ => none)) (some oneServer) [7]) := by
  refine ⟨rfl, ?_⟩
  intro ⟨r, hr, _⟩
  cases hr

/-! ### The map that is returned -/

/-- The map splits the keys by server. -/
structure Routes (keys : List Key) (m : ServerToFilterMap Key) : Prop where
  distinct : Distinct keyEqual m
  nonempty : ∀ node ∈ m, node.2 ≠ []
  perm : (m.flatMap (·.2)).Perm keys

/-- The loop invariant: the servers have the keys that were not left. -/
structure Splits (keys : List Key) (st : FilterState Key) : Prop where
  distinct : Distinct keyEqual st.serverToFilterMap
  nonempty : ∀ node ∈ st.serverToFilterMap, node.2 ≠ []
  perm : (st.serverToFilterMap.flatMap (·.2) ++ st.keysWhichLeft).Perm keys

section
variable {env : FilterEnv Key} {metadata : ClientMetadata} {i : Nat} {st st' : FilterState Key}
  {key : Key} {keys : List Key}

theorem addKey_cases (h : env.addKey metadata i st key = .ok st') :
    (st'.serverToFilterMap = st.serverToFilterMap ∧
      st'.keysWhichLeft = st.keysWhichLeft ++ [key]) ∨
    ∃ location, st'.keysWhichLeft = st.keysWhichLeft ∧
      st'.serverToFilterMap = assign keyEqual st.serverToFilterMap location
        ((find keyEqual st.serverToFilterMap location).getD [] ++ [key]) := by
  unfold FilterEnv.addKey at h
  cases hresolve : resolveKey env.resolver i key with
  | none =>
    rw [hresolve] at h
    cases h
  | some resolveKey =>
    rw [hresolve] at h
    dsimp only at h
    split at h
    · -- the bucket is new: the metadata is asked
      split at h
      · cases h
      · cases h
        exact Or.inl ⟨rfl, rfl⟩
      · next location _ _ =>
        split at h
        · cases h
          exact Or.inr ⟨location, rfl, rfl⟩
        · cases h
          exact Or.inl ⟨rfl, rfl⟩
    · next location _ =>
      split at h
      · cases h
      · next keyList hfind =>
        cases h
        refine Or.inr ⟨location, rfl, ?_⟩
        rw [hfind]
        rfl

theorem Splits.place (h : Splits keys st) {location : BucketServerLocation}
    (hleft : st'.keysWhichLeft = st.keysWhichLeft)
    (hmap : st'.serverToFilterMap = assign keyEqual st.serverToFilterMap location
      ((find keyEqual st.serverToFilterMap location).getD [] ++ [key])) :
    Splits (keys ++ [key]) st' where
  distinct := hmap ▸ h.distinct.assign location _
  nonempty := by
    intro node hnode
    rw [hmap] at hnode
    obtain hold | ⟨hvalue, -⟩ := mem_assign keyEqual hnode
    · exact h.nonempty node hold
    · rw [hvalue]
      exact append_ne_nil_of_right_ne_nil _ (cons_ne_nil _ _)
  perm := by
    rw [hmap, hleft]
    refine ((flatMap_assign_perm keyEqual _ location [key]).append_right _).trans ?_
    rw [append_assoc]
    refine (List.Perm.append_left _ perm_append_comm).trans ?_
    rw [← append_assoc]
    exact h.perm.append_right [key]

theorem splits_addKeys {pre : List Key} (h : Splits pre st)
    (hadd : env.addKeys metadata i st keys = .ok st') : Splits (pre ++ keys) st' := by
  induction keys generalizing pre i st with
  | nil =>
    cases hadd
    rwa [append_nil]
  | cons key keys ih =>
    unfold FilterEnv.addKeys at hadd
    cases hkey : env.addKey metadata i st key with
    | error e =>
      rw [hkey] at hadd
      cases hadd
    | ok st₁ =>
      rw [hkey] at hadd
      have hstep : Splits (pre ++ [key]) st₁ := by
        obtain ⟨hmap, hleft⟩ | ⟨location, hleft, hmap⟩ := addKey_cases hkey
        · refine ⟨hmap ▸ h.distinct, hmap ▸ h.nonempty, ?_⟩
          rw [hmap, hleft, ← append_assoc]
          exact h.perm.append_right [key]
        · exact h.place hleft hmap
      have hrest := ih hstep hadd
      rwa [append_assoc] at hrest

end

theorem map_fst_spread (perServer : Nat) (keyLefts : List Key) (m : ServerToFilterMap Key) :
    (spread perServer keyLefts m).map (·.1) = m.map (·.1) := by
  induction m generalizing keyLefts with
  | nil => rfl
  | cons node m ih => exact congrArg (node.1 :: ·) (ih _)

theorem nonempty_spread (perServer : Nat) (keyLefts : List Key) (h : ∀ node ∈ m, node.2 ≠ []) :
    ∀ node ∈ spread perServer keyLefts m, node.2 ≠ [] := by
  induction m generalizing keyLefts with
  | nil => nofun
  | cons node m ih =>
    obtain ⟨hnode, hrest⟩ := forall_mem_cons.mp h
    refine forall_mem_cons.mpr ⟨?_, ih _ hrest⟩
    exact append_ne_nil_of_left_ne_nil hnode _

theorem routes_of_getServerToFilterMap {env : FilterEnv Key}
    {clientMetadata : Option ClientMetadata} {keys : List Key}
    (h : getServerToFilterMap env clientMetadata keys = .ok (some m)) : Routes keys m := by
  cases clientMetadata with
  | none => cases h
  | some metadata =>
    unfold getServerToFilterMap at h
    dsimp only at h
    cases hadd : env.addKeys metadata 0 ⟨[], [], []⟩ keys with
    | error e =>
      rw [hadd] at h
      cases h
    | ok st =>
      rw [hadd] at h
      dsimp only at h
      have hstart : Splits ([] : List Key) ⟨[], [], []⟩ :=
        ⟨List.Pairwise.nil, nofun, List.Perm.refl _⟩
      have hsplit : Splits keys st := splits_addKeys hstart hadd
      by_cases hleft : 0 < st.keysWhichLeft.length ∧ 0 < st.serverToFilterMap.length
      · rw [if_pos hleft] at h
        cases h
        obtain ⟨order, horder⟩ := env.order st.serverToFilterMap
        refine ⟨?_, ?_, ?_⟩
        · -- only the locations decide whether the nodes are distinct
          have hpairs : (order.map (·.1)).Pairwise fun a b => keyEqual.equal a b = false :=
            pairwise_map.mpr (hsplit.distinct.perm horder)
          rw [← map_fst_spread] at hpairs
          exact pairwise_map.mp hpairs
        · exact nonempty_spread _ _ fun node hnode => hsplit.nonempty node (horder.mem_iff.mp hnode)
        · refine (flatMap_spread_perm _ _ order ?_).trans ?_
          · rw [horder.length_eq]
            exact (Nat.lt_div_mul_add hleft.2).le.trans (by rw [Nat.succ_mul])
          · exact ((horder.flatMap_right _).append_right _).trans hsplit.perm
      · rw [if_neg hleft] at h
        by_cases hmap : st.serverToFilterMap.length = 0
        · rw [if_pos hmap] at h
          cases h
        · rw [if_neg hmap] at h
          cases h
          have hnil : st.keysWhichLeft = [] := eq_nil_of_length_eq_zero (by omega)
          have hperm := hsplit.perm
          rw [hnil, append_nil] at hperm
          exact ⟨hsplit.distinct, hsplit.nonempty, hperm⟩

end GeodeNative.Client

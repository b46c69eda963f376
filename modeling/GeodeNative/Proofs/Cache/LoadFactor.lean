import GeodeNative.Lib.Run
import GeodeNative.Proofs.Cache.Segment

/-!
# How full a segment gets before it is rehashed

The comment at the load check says that a map of more than 75 percent of its prime is rehashed. The
test compares 75 percent of the size with the prime, so the map is only rehashed when it has 4/3 as
many keys as its prime. Before that the load passes the 75 percent of the comment
(`fortyOne_keys_overload`), and `loadFactor_iff` says that it is kept by exactly the runs that never
bind more keys than 75 percent of the first prime, plus one.
-/

set_option autoImplicit false

namespace GeodeNative.Cache.MapSegment

open Lib

variable {K V D M : Type}

/-- The number of bound keys. -/
def currentSize (s : MapSegment K V) : Nat := s.map.entries.length

/-- There are no more bound keys than 75 percent of the current prime, plus one. -/
def isLoaded (s : MapSegment K V) : Bool :=
  primeTable[s.primeIndex]?.any fun prime => 4 * s.currentSize ≤ 3 * prime + 4

/-- While the bound of the first prime holds, the map is not rehashed. -/
theorem rehashIfNeeded_of_loaded [DecidableEq K] {s : MapSegment K V} {prime : Nat}
    (hprime : primeTable[s.primeIndex]? = some prime) (h : 4 * s.currentSize ≤ 3 * prime + 4) :
    s.rehashIfNeeded = s := by
  unfold currentSize at h
  simp only [rehashIfNeeded, hprime]
  rw [if_neg (by omega)]

variable [DecidableEq K]

/-- The map after `rehash` has the bindings from before it, in whatever order they are copied. -/
theorem lookup_rehash (map : AList fun _ : K => MapEntry K V) {entries}
    (hentries : entries.Perm map.entries) (k : K) : (rehash entries).lookup k = map.lookup k := by
  have hnodup : entries.NodupKeys := (List.perm_nodupKeys hentries).mpr map.nodupKeys
  rw [show rehash entries = ⟨entries, hnodup⟩ from rehash_entries ⟨entries, hnodup⟩]
  exact List.perm_dlookup k hnodup hentries

theorem OnlyAt.currentSize_le {s s' : MapSegment K V} {k : K} (h : OnlyAt k s s')
    (hkeeps : s.find k = none → s'.find k = none) : s'.currentSize ≤ s.currentSize := by
  have hkeys : s'.map.keys ⊆ s.map.keys := by
    intro k' hk'
    rw [← AList.mem_keys, ← AList.lookup_isSome] at hk' ⊢
    rw [← Option.ne_none_iff_isSome] at hk' ⊢
    by_cases hk : k' = k
    · subst hk
      exact fun hnone => hk' (hkeeps hnone)
    · rwa [show s'.map.lookup k' = s.map.lookup k' from h.find k' hk] at hk'
  have hlength := (List.subperm_of_subset s'.map.keys_nodup hkeys).length_le
  simpa only [AList.keys, List.keys, List.length_map, currentSize] using hlength

/-- The call is a `create` or a `put`. -/
def isWrite : EntryOp K V D → Bool
  | .create .. => true
  | .put .. => true
  | _ => false

/-- The call binds a key that was not bound. -/
def adds (region : RegionInternal K V D M) (s : MapSegment K V) (op : EntryOp K V D) : Bool :=
  (s.find op.key).isNone && ((op.step region s).find op.key).isSome

/-- A segment that is opened with any size, and any calls of `create` and `put`. After every call
that adds a key there are no more keys than 75 percent of the current prime plus one, if and only if
there are never more than 75 percent of the first prime plus one. A `rehash` keeps the bindings. -/
theorem loadFactor_iff (region : RegionInternal K V D M) {size : Nat}
    {concurrencyChecksEnabled : Bool} {s₀ : MapSegment K V}
    (hopen : openSize size concurrencyChecksEnabled = some s₀) {prime : Nat}
    (hprime : primeTable[s₀.primeIndex]? = some prime) {calls : List (EntryOp K V D)}
    (hcalls : ∀ op ∈ calls, isWrite op) :
    (Along (EntryOp.step region) (fun s op => adds region s op → isLoaded (op.step region s)) s₀
        calls ↔
      ∀ before, before <+: calls →
        4 * (run (EntryOp.step region) s₀ before).currentSize ≤ 3 * prime + 4) ∧
    ∀ (map : AList fun _ : K => MapEntry K V) entries, entries.Perm map.entries →
      ∀ k, (rehash entries).lookup k = map.lookup k := by
  refine ⟨Iff.symm ?_, fun map entries hentries k => lookup_rehash map hentries k⟩
  have hempty : s₀.currentSize = 0 := by
    obtain ⟨primeIndex, -, rfl⟩ := Option.map_eq_some_iff.mp hopen
    rfl
  -- the prime is the first one as long as the bound of the first one holds
  let Inv (s : MapSegment K V) : Prop :=
    s.primeIndex = s₀.primeIndex ∧ 4 * s.currentSize ≤ 3 * prime + 4
  have hindex : ∀ s op, Inv s → isWrite op →
      OnlyAt op.key s (EntryOp.step region s op) := by
    intro s op hs hop
    have honly : OnlyAt op.key s.rehashIfNeeded (op.step region s) := by
      cases op with
      | create => exact .create ..
      | put => exact .put ..
      | _ => cases hop
    rwa [rehashIfNeeded_of_loaded (hs.1 ▸ hprime) hs.2] at honly
  refine always_iff_of_invariant (I := Inv) (fun _ h => h.2) ?_ ?_ ⟨rfl, by omega⟩
    ((along_actions_iff s₀ calls).mpr hcalls)
  · intro s op hs hop hloaded
    have honly := hindex s op hs hop
    refine ⟨honly.primeIndex.trans hs.1, ?_⟩
    by_cases hadds : adds region s op
    · simpa [isLoaded, honly.primeIndex, hs.1, hprime] using hloaded hadds
    · have hle := honly.currentSize_le fun hnone => by simpa [adds, hnone] using hadds
      omega
  · intro s op hs hop hle _
    simpa [isLoaded, (hindex s op hs hop).primeIndex, hs.1, hprime] using hle

/-- The keys below `n`, one after another. -/
def putKeys (n : Nat) : List (EntryOp Nat Nat Unit) :=
  (List.range n).map fun k => .put k (.object k) (-1) 0 none none

/-- Forty keys in a segment that is opened with the size 10. -/
theorem loadFactor_forty_keys :
    Along (EntryOp.step natRegion)
      (fun s op => adds natRegion s op → isLoaded (op.step natRegion s)) (MapSegment.open 0 true)
      (putKeys 40) := by
  have hopen : openSize 10 true = some (MapSegment.open 0 true : MapSegment Nat Nat) := rfl
  have hsizes : ∀ n < 41, 4 * (run (EntryOp.step natRegion) (MapSegment.open 0 true)
      ((putKeys 40).take n)).currentSize ≤ 3 * 53 + 4 := by decide +kernel
  refine (loadFactor_iff natRegion hopen rfl (by decide)).1.mpr ?_
  intro before hbefore
  rw [List.prefix_iff_eq_take.mp hbefore]
  exact hsizes _ (Nat.lt_succ_of_le hbefore.length_le)

/-- With 41 keys the segment still has its first prime 53, whose 75 percent are 39. -/
theorem fortyOne_keys_overload :
    openSize 10 true = some (MapSegment.open 0 true : MapSegment Nat Nat) ∧
    ¬ Along (EntryOp.step natRegion)
      (fun s op => adds natRegion s op → isLoaded (op.step natRegion s)) (MapSegment.open 0 true)
      (putKeys 41) :=
  ⟨rfl, by decide +kernel⟩

end GeodeNative.Cache.MapSegment

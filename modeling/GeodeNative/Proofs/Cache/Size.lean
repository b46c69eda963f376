import GeodeNative.Lib.Counter
import GeodeNative.Lib.Run
import GeodeNative.Proofs.Cache.WithoutChecks

/-!
# The size of the entries map

`ConcurrentEntriesMap` counts its entries from the return codes and the reference parameters
of its segments. The count should be the number of keys with a live value: a value that is not
null, destroyed or a tombstone. (`getValueI` reads a destroyed value as null.)

The count goes wrong in these steps, and only in these:

- with concurrency checks, a `remove` with `afterRemote` that is accepted for a key that is a
  tombstone already: it returns `GF_NOERR` and the counter goes down once more
  (`secondRemove_underflows`);
- without them, a `remove` of a live key with an update count that does not match: it unbinds
  the key and reports `GF_CACHE_ENTRY_UPDATED`, so the counter stays;
- without them, `addTrackerForEntry` on a live key, which wipes the value;
- a `create` with the destroyed or the tombstone token as the value.

`size_eq_liveKeys` states that after every run without such a step the counter is the number
of live keys, modulo `2 ^ 32`. The invariant is `SizeInv`, and `Follows` of the counter library
carries the counting.
-/

set_option autoImplicit false

namespace GeodeNative.Proofs.Cache

open GeodeNative.Cache Lib
open GeodeNative.Cache.MapSegment

section
variable {K V D M : Type} {n : Nat}

/-- The lookup finds an entry with a live value. -/
def Live (x : Option (MapEntry K V)) : Prop := ∃ e, x = some e ∧ LiveValue e.obj.value

/-- What a lookup of `k` can find. With concurrency checks it is a healthy entry with a live
value or a tombstone. Without them it is an untracked entry with a live value, or a wiped
entry. -/
def EntryOk (enabled : Bool) (k : K) (x : Option (MapEntry K V)) : Prop :=
  ∀ e, x = some e → ∃ o, e = .impl o ∧
    if enabled then o.weakThis = true ∧ o.key = some k ∧
      (LiveValue o.value ∨ o.value = .token .tombstone)
    else Untracked o ∧ LiveValue o.value ∨ Wiped o

variable {k : K} {o : MapEntryImpl K V}

@[simp] theorem live_some (o : MapEntryImpl K V) :
    Live (some (.impl o) : Option (MapEntry K V)) ↔ LiveValue o.value := by
  simp [Live, MapEntry.obj]

@[simp] theorem not_live_none : ¬ Live (none : Option (MapEntry K V)) := by
  simp [Live]

theorem not_live_wiped (ho : Wiped o) : ¬ Live (some (.impl o) : Option (MapEntry K V)) := by
  simp [LiveValue, ho.value]

theorem not_liveValue_tombstone : ¬ LiveValue (.token .tombstone : CacheablePtr V) := by
  simp [LiveValue]

theorem entryOk_none (enabled : Bool) (k : K) :
    EntryOk enabled k (none : Option (MapEntry K V)) := by
  intro e he
  cases he

theorem entryOk_healthy {enabled : Bool} (hmode : enabled = true) (hweak : o.weakThis = true)
    (hkey : o.key = some k) (hvalue : LiveValue o.value ∨ o.value = .token .tombstone) :
    EntryOk enabled k (some (.impl o)) := by
  intro e he
  cases he
  subst hmode
  exact ⟨o, rfl, hweak, hkey, hvalue⟩

theorem entryOk_untracked {enabled : Bool} (hmode : enabled = false) (ho : Untracked o)
    (hvalue : LiveValue o.value) : EntryOk enabled k (some (.impl o)) := by
  intro e he
  cases he
  subst hmode
  exact ⟨o, rfl, .inl ⟨ho, hvalue⟩⟩

theorem entryOk_wiped (ho : Wiped o) : EntryOk false k (some (.impl o)) := by
  intro e he
  cases he
  exact ⟨o, rfl, .inr ho⟩

variable [NeZero n] [DecidableEq K]

/-- The keys with a live value. -/
def liveKeys (m : ConcurrentEntriesMap K V n) : Set K := { k | Live (m.find k) }

/-- The calls of the runs: `create` has a value that is not null, `put` a value that is not null
and not a token. -/
def Admissible : MapOp K V D → Prop
  | .entry (.create _ v _ _ _) => v ≠ .null
  | .entry (.put _ v _ _ _ _) => v ≠ .null ∧ v.isToken = false
  | _ => True

/-- The call is none of the steps that the counter misses. With checks, a `remove` of a tombstone
with `afterRemote` has a tag that the stamp of the tombstone refuses. Without checks, a `remove` of
a live key has no update count or the one of the entry, and no tracker is added to a live key. -/
def CountsRight (region : RegionInternal K V D M) (m : ConcurrentEntriesMap K V n) :
    MapOp K V D → Prop
  | .entry (.create _ v _ _ _) => v ≠ .token .destroyed ∧ v ≠ .token .tombstone
  | .entry (.remove k updateCount tag afterRemote) =>
    ∀ e, m.find k = some e →
      (m.concurrencyChecksEnabled = true → e.obj.value = .token .tombstone → afterRemote = true →
        ∃ t, tag = some t ∧
          e.getVersionStamp.processVersionTag region.members (some t) false ≠ .noErr) ∧
      (m.concurrencyChecksEnabled = false → LiveValue e.obj.value →
        0 ≤ updateCount → updateCount = e.getUpdateCount)
  | .entry (.addTrackerForEntry k _ failIfPresent _) =>
    m.concurrencyChecksEnabled = false → Live (m.find k) → failIfPresent = true
  | _ => True

/-- The invariant of the map. -/
structure SizeInv (m : ConcurrentEntriesMap K V n) : Prop where
  flags : ∀ i, (m.segments i).concurrencyChecksEnabled = m.concurrencyChecksEnabled
  entries : ∀ k, EntryOk m.concurrencyChecksEnabled k (m.find k)
  follows : Follows m.size (liveKeys m)

variable {m : ConcurrentEntriesMap K V n}

section
variable (hm : SizeInv m)
include hm

/-- One call keeps the invariant, when its segment changes the binding of one key and the
counter accounts for the change. -/
theorem sizeInv_step {x : Option (MapEntry K V)} {s : MapSegment K V}
    (hsets : SetsAt k x (m.segmentFor k) s) (hx : EntryOk m.concurrencyChecksEnabled k x)
    {c : BitVec 32} (hc : Accounts m.size c (Live (m.find k)) (Live x)) :
    SizeInv { m.setSegment k s with size := c } := by
  have hfind : ∀ k', ({ m.setSegment k s with size := c } : ConcurrentEntriesMap K V n).find k' =
      if k' = k then x else m.find k' := m.find_setSegment hsets
  have htouch := ConcurrentEntriesMap.Touches.setSegment m k s c
  refine ⟨?_, fun k' => ?_, ?_⟩
  · exact htouch.forall_segments (P := fun s => s.concurrencyChecksEnabled = _) hm.flags
      (hsets.flag.trans (hm.flags _))
  · rw [hfind]
    split
    · rename_i h
      rw [h]
      exact hx
    · exact hm.entries k'
  · refine hm.follows.step (a := k) (fun k' hk' => ?_) ?_
    · show Live _ ↔ Live _
      rw [hfind, if_neg hk']
    · show Accounts m.size c (Live (m.find k)) (Live _)
      rw [hfind, if_pos rfl]
      exact hc

/-! ### Entries -/

theorem SizeInv.segmentFlag (k : K) :
    (m.segmentFor k).concurrencyChecksEnabled = m.concurrencyChecksEnabled :=
  hm.flags (m.segmentIdx k)

theorem SizeInv.healthy (hen : m.concurrencyChecksEnabled = true) (k : K) :
    ∀ e, (m.segmentFor k).find k = some e → Healthy k e := by
  intro e he
  obtain ⟨o, rfl, h⟩ := hm.entries k e he
  rw [if_pos hen] at h
  exact ⟨o, rfl, h.1, h.2.1⟩

theorem SizeInv.value (hen : m.concurrencyChecksEnabled = true)
    (hfind : (m.segmentFor k).find k = some (.impl o)) :
    LiveValue o.value ∨ o.value = .token .tombstone := by
  obtain ⟨o', ho', h⟩ := hm.entries k _ hfind
  cases ho'
  rw [if_pos hen] at h
  exact h.2.2

theorem SizeInv.shaped (hdis : m.concurrencyChecksEnabled = false) (k : K) :
    ShapedAt ((m.segmentFor k).find k) := by
  intro e he
  obtain ⟨o, rfl, h⟩ := hm.entries k e he
  rw [hdis] at h
  rcases h with ⟨h, -⟩ | h
  · exact ⟨o, rfl, .inl h⟩
  · exact ⟨o, rfl, .inr h⟩

theorem SizeInv.liveValue (hdis : m.concurrencyChecksEnabled = false)
    (hfind : (m.segmentFor k).find k = some (.impl o)) (ho : Untracked o) : LiveValue o.value := by
  obtain ⟨o', ho', h⟩ := hm.entries k _ hfind
  cases ho'
  rw [hdis] at h
  rcases h with ⟨-, h⟩ | h
  · exact h
  · have := ho.weakThis
    rw [h.weakThis] at this
    cases this

theorem sizeInv_same {s : MapSegment K V}
    (hsets : SetsAt k ((m.segmentFor k).find k) (m.segmentFor k) s) : SizeInv (m.setSegment k s) :=
  sizeInv_step hm hsets (hm.entries k) (.same rfl Iff.rfl)

end

/-! ### The calls -/

section Calls
variable (region : RegionInternal K V D M) {m : ConcurrentEntriesMap K V n} (hm : SizeInv m)
include hm

variable {k : K} {o : MapEntryImpl K V} {s : MapSegment K V} {v : CacheablePtr V}

theorem sizeInv_added (hdead : ¬ Live (m.find k))
    (hok : EntryOk m.concurrencyChecksEnabled k (some (.impl o))) (hlive : LiveValue o.value)
    (hs : SetsAt k (some (.impl o)) (m.segmentFor k) s) :
    SizeInv { m.setSegment k s with size := m.size + 1 } :=
  sizeInv_step hm hs hok (.added rfl hdead ((live_some o).mpr hlive))

omit hm in
theorem not_live_unbound (hk : (m.segmentFor k).find k = none) : ¬ Live (m.find k) := by
  rw [show m.find k = none from hk]
  exact not_live_none

theorem sizeInv_bindNew (hmode : m.concurrencyChecksEnabled = true)
    (hk : (m.segmentFor k).find k = none) (hv : LiveValue v) (tag : Option VersionTag)
    (hs : SetsAt k ((m.segmentFor k).find k) (m.segmentFor k) s) :
    SizeInv { m.setSegment k (s.bindNew k v tag none) with size := m.size + 1 } := by
  refine sizeInv_added hm (not_live_unbound hk) ?_ (by rwa [newEntry_value])
    (hs.trans (.bindNew ..))
  exact entryOk_healthy hmode (newEntry_weakThis ..) (newEntry_key ..)
    (.inl (by rwa [newEntry_value]))

theorem sizeInv_replaceTombstone (hmode : m.concurrencyChecksEnabled = true)
    (hfind : (m.segmentFor k).find k = some (.impl o)) (htomb : o.value = .token .tombstone)
    (hv : LiveValue v) (tag : Option VersionTag) (stamp : VersionStamp)
    (hs : SetsAt k ((m.segmentFor k).find k) (m.segmentFor k) s) :
    SizeInv { m.setSegment k (s.replaceTombstone k v tag stamp) with size := m.size + 1 } := by
  have hvalue : LiveValue (s.replacement k v tag stamp).value := by
    rwa [replacement, newEntry_value]
  refine sizeInv_added hm ?_ ?_ hvalue (hs.trans (.replaceTombstone ..))
  · rw [show m.find k = _ from hfind, live_some, htomb]
    exact not_liveValue_tombstone
  · exact entryOk_healthy hmode (newEntry_weakThis ..) (newEntry_key ..) (.inl hvalue)

theorem sizeInv_update {o o' : MapEntryImpl K V} (hfind : (m.segmentFor k).find k = some (.impl o))
    (hlive : LiveValue o.value) (hok : EntryOk m.concurrencyChecksEnabled k (some (.impl o')))
    (hlive' : LiveValue o'.value) (hs : SetsAt k (some (.impl o')) (m.segmentFor k) s) :
    SizeInv (m.setSegment k s) := by
  refine sizeInv_step hm hs hok (.same rfl ?_)
  rw [show m.find k = _ from hfind, live_some, live_some]
  exact ⟨fun _ => hlive, fun _ => hlive'⟩

section
variable (k : K) (hv : LiveValue v) (updateCount destroyTracker : Int) (tag : Option VersionTag)
include hv

theorem sizeInv_create : SizeInv (m.create region k v updateCount destroyTracker tag).2 := by
  have hrehash := SetsAt.rehashIfNeeded (s := m.segmentFor k) (k := k) rfl
  simp only [ConcurrentEntriesMap.create]
  cases hmode : m.concurrencyChecksEnabled with
  | true =>
    have hen := (hm.segmentFlag k).trans hmode
    rcases create_cases region (m.segmentFor k) k v updateCount destroyTracker tag hen
        (hm.healthy hmode k) with ⟨hk, me, heq⟩ | ⟨err, old, hne, heq⟩ |
        ⟨o, stamp, me, hfind, -, -, hnull, -, heq⟩ | ⟨o, stamp, me, hfind, htomb, -, heq⟩ <;>
      rw [heq]
    · exact sizeInv_bindNew hm hmode hk hv tag hrehash
    · simp only [hne, false_and, if_false]
      exact sizeInv_same hm hrehash
    · -- a healthy entry has a value
      exfalso
      rcases hm.value hmode hfind with hlive | htomb
      · exact (liveValue_iff o).mp hlive (.inl ((isNull_iff _).mpr hnull))
      · rw [← getValueI_eq_tombstone_iff, hnull] at htomb
        cases htomb
    · exact sizeInv_replaceTombstone hm hmode hfind htomb hv tag stamp hrehash
  | false =>
    have hdis := (hm.segmentFlag k).trans hmode
    obtain ⟨res, s, x, heq, -, hsets, ⟨-, -, rfl, rfl⟩ | ⟨hk, -, me, o, rfl, ho, rfl, rfl⟩ |
        ⟨o, -, -, rfl, rfl⟩ | ⟨o, -, -, -, rfl, rfl⟩ | ⟨o, hfind, ho, hdead, -⟩⟩ :=
      create_disabled region (m.segmentFor k) k v updateCount destroyTracker tag hdis
        (hm.shaped hmode k) <;> rw [heq]
    · exact sizeInv_same hm hsets
    · exact sizeInv_added hm (not_live_unbound hk) (entryOk_untracked hmode ho hv) hv hsets
    · exact sizeInv_same hm hsets
    · exact sizeInv_same hm hsets
    · exact absurd (hm.liveValue hmode hfind ho) hdead

theorem sizeInv_put (delta : Option D) :
    SizeInv (m.put region k v updateCount destroyTracker tag delta).2 := by
  have hrehash := SetsAt.rehashIfNeeded (s := m.segmentFor k) (k := k) rfl
  simp only [ConcurrentEntriesMap.put]
  cases hmode : m.concurrencyChecksEnabled with
  | true =>
    have hen := (hm.segmentFlag k).trans hmode
    rcases put_cases region (m.segmentFor k) k v updateCount destroyTracker tag hen
        (hm.healthy hmode k) delta with ⟨err, hne, -, heq⟩ | ⟨hk, -, me, heq⟩ |
        ⟨o, stamp, me, hfind, htomb, -, heq⟩ |
        ⟨o, stamp, hfind, hweak, hkey, hvalue, -, -, heq⟩ |
        ⟨o, hfind, hweak, hkey, hvalue, herr, heq⟩ <;> rw [heq]
    · simp only [ne_eq, hne, not_false_eq_true, if_true]
      exact sizeInv_same hm hrehash
    · exact sizeInv_bindNew hm hmode hk hv tag hrehash
    · exact sizeInv_replaceTombstone hm hmode hfind htomb hv tag stamp hrehash
    · have hlive := (hm.value hmode hfind).resolve_right hvalue
      have hlive' := updateObj_value region k delta hlive hv liveValue_object
      obtain ⟨hweak', hkey', -⟩ := updateObj_keeps region k o v delta
      simp only [getValueI_of_live hlive, hlive.tests, ne_eq, not_true_eq_false, if_false,
        Bool.not_false, Bool.not_true, Bool.false_eq_true]
      refine sizeInv_update hm hfind hlive ?_ ?_ (hrehash.trans (.writeInPlace ..))
      · exact entryOk_healthy hmode (hweak'.trans hweak) (hkey'.trans hkey) (.inl hlive')
      · exact hlive'
    · have hlive := (hm.value hmode hfind).resolve_right hvalue
      have hlive' := updateObj_value region k delta hlive hv liveValue_object
      obtain ⟨hweak', hkey', -⟩ := updateObj_keeps region k o v delta
      simp only [ne_eq, herr, not_false_eq_true, if_true]
      exact sizeInv_update hm hfind hlive (entryOk_healthy hmode (hweak'.trans hweak)
        (hkey'.trans hkey) (.inl hlive')) hlive' (hrehash.trans (SetsAt.bind _ k _))
  | false =>
    have hdis := (hm.segmentFlag k).trans hmode
    obtain ⟨res, s, x, heq, -, hsets, ⟨-, rfl, -, err, hne, rfl⟩ |
        ⟨hk, -, me, o, rfl, ho, rfl, rfl⟩ | ⟨o, -, -, rfl, rfl⟩ | ⟨o, hfind, ho, -, -, hdetail⟩⟩ :=
      put_disabled region (m.segmentFor k) k v updateCount destroyTracker tag hdis
        (hm.shaped hmode k) delta <;> rw [heq]
    · simp only [ne_eq, hne, not_false_eq_true, if_true]
      exact sizeInv_same hm hsets
    · exact sizeInv_added hm (not_live_unbound hk) (entryOk_untracked hmode ho hv) hv hsets
    · exact sizeInv_same hm hsets
    · have hlive := hm.liveValue hmode hfind ho
      obtain ⟨⟨o', rfl, ho', hlive'⟩, r, rfl, hupdate⟩ := hdetail hlive hv
      have hstep := sizeInv_update hm hfind hlive (entryOk_untracked hmode ho' hlive') hlive' hsets
      by_cases herr : r.err = .noErr
      · simpa only [herr, hupdate herr, ne_eq, not_true_eq_false, if_false, Bool.not_true,
          Bool.false_eq_true] using hstep
      · simpa only [ne_eq, herr, not_false_eq_true, if_true] using hstep

end

theorem sizeInv_invalidate (k : K) (tag : Option VersionTag) :
    SizeInv (m.invalidate region k tag).2 := by
  have hself : SetsAt k _ _ (m.segmentFor k) := .same rfl
  have hinvalid := liveValue_invalid (V := V)
  simp only [ConcurrentEntriesMap.invalidate]
  cases hmode : m.concurrencyChecksEnabled with
  | true =>
    have hen := (hm.segmentFlag k).trans hmode
    rcases invalidate_cases region (m.segmentFor k) k tag hen (hm.healthy hmode k) with
        ⟨err, -, heq⟩ | ⟨hk, me, heq⟩ | ⟨o, stamp, me, hfind, hweak, hkey, hvalue, heq⟩ <;>
      rw [heq]
    · exact sizeInv_same hm hself
    · exact sizeInv_bindNew hm hmode hk hinvalid tag hself
    · have hlive := (hm.value hmode hfind).resolve_right hvalue
      refine sizeInv_update hm hfind hlive ?_ hinvalid (SetsAt.bind _ k _)
      exact entryOk_healthy hmode hweak hkey (.inl hinvalid)
  | false =>
    have hdis := (hm.segmentFlag k).trans hmode
    obtain ⟨res, s, heq, hadded, hcases⟩ :=
      invalidate_disabled region (m.segmentFor k) k tag hdis (hm.shaped hmode k)
    have hstep : SizeInv (m.setSegment k s) := by
      rcases hcases with rfl | ⟨o, o', hfind, ho, ho', hvalue, hsets⟩
      · exact sizeInv_same hm hself
      · have hlive := hm.liveValue hmode hfind ho
        have hlive' : LiveValue o'.value := hvalue ▸ hinvalid
        exact sizeInv_update hm hfind hlive (entryOk_untracked hmode ho' hlive') hlive' hsets
    rw [heq]
    cases res with
    | error x => exact hstep
    | ok r =>
      simp only [hadded r rfl, Bool.false_eq_true, if_false]
      exact hstep

theorem sizeInv_buryInPlace (hmode : m.concurrencyChecksEnabled = true)
    (hfind : (m.segmentFor k).find k = some (.impl o)) (hweak : o.weakThis = true)
    (hkey : o.key = some k) (stamp : VersionStamp) {c : BitVec 32}
    (hc : LiveValue o.value ∧ c = m.size - 1 ∨ ¬ LiveValue o.value ∧ c = m.size) :
    SizeInv { m.setSegment k ((m.segmentFor k).buryInPlace k o stamp) with size := c } := by
  refine sizeInv_step hm (.buryInPlace ..) ?_ ?_
  · exact entryOk_healthy hmode hweak hkey (.inr rfl)
  · have hafter : ¬ Live (some (.impl ((o.setValueI (.token .tombstone)).setStamp stamp)) :
        Option (MapEntry K V)) := by
      rw [live_some]
      exact not_liveValue_tombstone
    rw [show m.find k = _ from hfind, live_some]
    rcases hc with ⟨hlive, hc⟩ | ⟨hdead, hc⟩
    · exact .removed hc hlive hafter
    · exact .same hc ⟨fun h => absurd h hafter, fun h => absurd h hdead⟩

theorem sizeInv_buryNew (hmode : m.concurrencyChecksEnabled = true)
    (hk : (m.segmentFor k).find k = none) (t : VersionTag) :
    SizeInv (m.setSegment k ((m.segmentFor k).buryNew k t)) := by
  refine sizeInv_step hm (.buryNew ..) ?_ (.same rfl ?_)
  · exact entryOk_healthy hmode (newEntry_weakThis ..) (newEntry_key ..)
      (.inr (newEntry_value ..))
  · rw [show m.find k = none from hk, live_some, newEntry_value]
    exact ⟨fun h => absurd h not_liveValue_tombstone, fun h => absurd h not_live_none⟩

theorem sizeInv_unbind (hs : SetsAt k none (m.segmentFor k) s) {c : BitVec 32}
    (hc : Live (m.find k) ∧ c = m.size - 1 ∨ ¬ Live (m.find k) ∧ c = m.size) :
    SizeInv { m.setSegment k s with size := c } := by
  refine sizeInv_step hm hs (entryOk_none _ k) ?_
  rcases hc with ⟨hlive, hc⟩ | ⟨hdead, hc⟩
  · exact .removed hc hlive not_live_none
  · exact .same hc ⟨fun h => absurd h not_live_none, fun h => absurd h hdead⟩

theorem sizeInv_remove (k : K) (updateCount : Int) (tag : Option VersionTag) (afterRemote : Bool)
    (hop : CountsRight region m (.entry (.remove k updateCount tag afterRemote) : MapOp K V D)) :
    SizeInv (m.remove region k updateCount tag afterRemote).2 := by
  simp only [ConcurrentEntriesMap.remove]
  cases hmode : m.concurrencyChecksEnabled with
  | true =>
    have hen := (hm.segmentFlag k).trans hmode
    have hself : SetsAt k _ _ (m.segmentFor k) := .same rfl
    rcases remove_cases region (m.segmentFor k) k updateCount tag hen (hm.healthy hmode k)
        afterRemote with ⟨o, err, -, -, hne, heq⟩ |
        ⟨o, stamp, me, old, hfind, hweak, hkey, hcheck, heq⟩ | ⟨t, hk, -, heq⟩ | ⟨-, -, heq⟩
    · simp only [heq, hne, false_and, if_false]
      exact sizeInv_same hm ⟨hself.find, hself.flag⟩
    · rcases hm.value hmode hfind with hlive | htomb
      · simp only [heq, hlive.tests, Bool.false_eq_true, if_false, and_self, if_true]
        exact sizeInv_buryInPlace hm hmode hfind hweak hkey stamp (.inl ⟨hlive, rfl⟩)
      · -- the version check has passed, so the call does not come from `afterRemote`
        have hlocal : afterRemote = false := by
          refine Bool.eq_false_iff.mpr fun hafter => ?_
          obtain ⟨t, rfl, hrefused⟩ := (hop _ hfind).1 hmode htomb hafter
          simp only [checkVersion, hen, if_true, if_pos hrefused] at hcheck
          cases hcheck
        have hne : (if o.value.isTombstone then notFoundUnless afterRemote else .noErr) ≠
            GfErrType.noErr := by
          rw [htomb, hlocal]
          show GfErrType.cacheEntryNotFound ≠ .noErr
          decide
        rw [heq]
        dsimp only
        rw [if_neg fun h => hne h.1]
        refine sizeInv_buryInPlace hm hmode hfind hweak hkey stamp (.inr ⟨?_, rfl⟩)
        rw [htomb]
        exact not_liveValue_tombstone
    · simp only [heq, Bool.false_eq_true, and_false, if_false]
      exact sizeInv_buryNew hm hmode hk t
    · simp only [heq, Bool.false_eq_true, and_false, if_false]
      exact sizeInv_same hm ⟨hself.find, hself.flag⟩
  | false =>
    have hdis := (hm.segmentFlag k).trans hmode
    obtain ⟨res, s, heq, hsets, ⟨hk, rfl⟩ | ⟨o, hfind, ho, hne⟩ | ⟨o, hfind, ho, hr⟩⟩ :=
      remove_disabled region (m.segmentFor k) k updateCount tag hdis (hm.shaped hmode k)
        afterRemote <;> simp only [heq]
    · exact sizeInv_unbind hm hsets (.inr ⟨not_live_unbound hk, rfl⟩)
    · have hdead : ¬ Live (m.find k) := by
        rw [show m.find k = _ from hfind]
        exact not_live_wiped ho
      have hstep := sizeInv_unbind hm hsets (.inr ⟨hdead, rfl⟩)
      cases res with
      | error x => exact hstep
      | ok r =>
        simp only [hne r rfl, false_and, if_false]
        exact hstep
    · have hlive := hm.liveValue hmode hfind ho
      have hcount := (hop _ hfind).2 hmode hlive
      rcases hr with ⟨hnonneg, hnonzero⟩ | ⟨me, old, rfl⟩
      · have hzero : ((MapEntry.impl o).getUpdateCount : Int) = 0 := by
          rw [MapEntry.getUpdateCount, ho.updateCount]
          rfl
        exact absurd ((hcount hnonneg).trans hzero) hnonzero
      · simp only [and_self, if_true]
        refine sizeInv_unbind hm hsets (.inl ⟨?_, rfl⟩)
        rwa [show m.find k = _ from hfind, live_some]

theorem sizeInv_addTrackerForEntry (k : K) (addIfAbsent failIfPresent incUpdateCount : Bool)
    (hop : m.concurrencyChecksEnabled = false → Live (m.find k) → failIfPresent = true) :
    SizeInv (m.addTrackerForEntry k addIfAbsent failIfPresent incUpdateCount).2 := by
  cases hmode : m.concurrencyChecksEnabled with
  | true =>
    simp only [ConcurrentEntriesMap.addTrackerForEntry, hmode, if_true]
    exact hm
  | false =>
    have hdis := (hm.segmentFlag k).trans hmode
    simp only [ConcurrentEntriesMap.addTrackerForEntry, hmode, Bool.false_eq_true, if_false]
    rcases addTrackerForEntry_disabled (m.segmentFor k) k hdis (hm.shaped hmode k) addIfAbsent
        failIfPresent incUpdateCount with ⟨-, heq⟩ | ⟨hpresent, w, hw, hsets⟩
    · rw [heq]
      exact sizeInv_same hm (.same rfl)
    · have hdead : ¬ Live (m.find k) := by
        intro hlive
        rcases hpresent with hk | hfail
        · exact not_live_unbound hk hlive
        · rw [hop hmode hlive] at hfail
          cases hfail
      refine sizeInv_step hm hsets ?_
        (.same rfl ⟨fun h => absurd h (not_live_wiped hw), fun h => absurd h hdead⟩)
      rw [hmode]
      exact entryOk_wiped hw

theorem sizeInv_removeTrackerForEntry (k : K) : SizeInv (m.removeTrackerForEntry k).2 := by
  cases hmode : m.concurrencyChecksEnabled with
  | true =>
    simp only [ConcurrentEntriesMap.removeTrackerForEntry, hmode, if_true]
    exact hm
  | false =>
    have hdis := (hm.segmentFlag k).trans hmode
    have hself : SetsAt k _ _ (m.segmentFor k) := .same rfl
    simp only [ConcurrentEntriesMap.removeTrackerForEntry, hmode, Bool.false_eq_true, if_false]
    rcases removeTrackerForEntry_disabled (m.segmentFor k) k hdis (hm.shaped hmode k) with
        heq | ⟨o, hfind, ho, hsets⟩
    · rw [heq]
      exact sizeInv_same hm hself
    · have hlive := hm.liveValue hmode hfind ho
      rw [settled_live hlive] at hsets
      exact sizeInv_update hm hfind hlive (entryOk_untracked hmode ho hlive) hlive hsets

end Calls

/-! ### Runs -/

theorem sizeInv_empty
    (hflags : ∀ i, (m.segments i).concurrencyChecksEnabled = m.concurrencyChecksEnabled)
    (hfind : ∀ k, m.find k = none) (hsize : m.size = 0) : SizeInv m where
  flags := hflags
  entries k := by
    rw [hfind]
    exact entryOk_none _ k
  follows := by
    have hempty : liveKeys m = ∅ := by
      ext k
      simp [liveKeys, hfind]
    rw [hsize, hempty]
    exact follows_empty

theorem sizeInv_mapStep (region : RegionInternal K V D M) (m : ConcurrentEntriesMap K V n)
    (op : MapOp K V D) (hm : SizeInv m) (hop : Admissible op ∧ CountsRight region m op) :
    SizeInv (op.step region m) := by
  cases op with
  | clear => exact sizeInv_empty hm.flags (fun _ => rfl) rfl
  | entry op =>
    cases op with
    | create k v updateCount destroyTracker tag =>
      exact sizeInv_create region hm k ⟨hop.1, hop.2⟩ updateCount destroyTracker tag
    | put k v updateCount destroyTracker tag delta =>
      refine sizeInv_put region hm k ⟨hop.1.1, ?_, ?_⟩ updateCount destroyTracker tag delta <;>
      · rintro rfl
        cases hop.1.2
    | invalidate k tag => exact sizeInv_invalidate region hm k tag
    | remove k updateCount tag afterRemote =>
      exact sizeInv_remove region hm k updateCount tag afterRemote hop.2
    | addTrackerForEntry k addIfAbsent failIfPresent incUpdateCount =>
      exact sizeInv_addTrackerForEntry hm k addIfAbsent failIfPresent incUpdateCount hop.2
    | removeTrackerForEntry k => exact sizeInv_removeTrackerForEntry hm k

/-- After every run of admissible calls in which no call is one that the counter misses, the
live keys are finitely many and the counter is their number modulo `2 ^ 32`. It is their number
when there are fewer than `2 ^ 32` of them. -/
theorem size_eq_liveKeys (region : RegionInternal K V D M) (hashcode : K → BitVec 32)
    (primeIndex : Nat) (enabled : Bool) (ops : List (MapOp K V D))
    (hops : Along (MapOp.step region) (fun m op => Admissible op ∧ CountsRight region m op)
      (ConcurrentEntriesMap.open hashcode primeIndex enabled : ConcurrentEntriesMap K V n) ops) :
    let m := run (MapOp.step region)
      (ConcurrentEntriesMap.open hashcode primeIndex enabled : ConcurrentEntriesMap K V n) ops
    (liveKeys m).Finite ∧ m.size = BitVec.ofNat 32 (liveKeys m).ncard ∧
      ((liveKeys m).ncard < 2 ^ 32 → m.size.toNat = (liveKeys m).ncard) := by
  intro m
  have hm : SizeInv m :=
    run_invariant (sizeInv_mapStep region) (sizeInv_empty (fun _ => rfl) (fun _ => rfl) rfl) hops
  exact ⟨hm.follows.finite, hm.follows.count, hm.follows.toNat_eq⟩

/-- A put, a remove and a put again meet the condition. -/
theorem size_eq_liveKeys_remove_put :
    let m := run (MapOp.step natRegion)
      (ConcurrentEntriesMap.open (fun k => BitVec.ofNat 32 k) 0 true :
        ConcurrentEntriesMap Nat Nat 2)
      [.entry (.put 1 (.object 5) (-1) 0 none none), .entry (.remove 1 (-1) none true),
        .entry (.put 1 (.object 6) (-1) 0 none none)]
    m.size = 1 ∧ m.size = BitVec.ofNat 32 (liveKeys m).ncard := by
  have hput : ∀ x : Nat, Admissible (.entry (.put 1 (.object x) (-1) 0 none none) :
      MapOp Nat Nat Unit) := by
    simp [Admissible, CacheablePtr.isToken]
  have hops : Along (MapOp.step natRegion)
      (fun m op => Admissible op ∧ CountsRight natRegion m op)
      (ConcurrentEntriesMap.open (fun k => BitVec.ofNat 32 k) 0 true :
        ConcurrentEntriesMap Nat Nat 2)
      [.entry (.put 1 (.object 5) (-1) 0 none none), .entry (.remove 1 (-1) none true),
        .entry (.put 1 (.object 6) (-1) 0 none none)] := by
    refine ⟨⟨hput 5, trivial⟩, ⟨trivial, fun e he => ?_⟩, ⟨hput 6, trivial⟩, trivial⟩
    refine ⟨fun _ htomb => ?_, fun hdis => Bool.noConfusion hdis⟩
    -- the value that is removed is no tombstone
    have hvalue := congrArg (Option.map (·.obj.value)) he
    rw [Option.map_some, htomb] at hvalue
    exact absurd (Option.some.inj (Eq.trans rfl hvalue) :
      (CacheablePtr.object 5 : CacheablePtr Nat) = .token .tombstone) (by simp)
  exact ⟨by decide, (size_eq_liveKeys natRegion _ 0 true _ hops).2.1⟩

/-- With concurrency checks, key 1 is put and then removed twice with `afterRemote`. The second
removal finds the tombstone and returns `GF_NOERR`, so the counter goes down below 0, while no
key is live. -/
theorem secondRemove_underflows :
    let m := run (MapOp.step natRegion)
      (ConcurrentEntriesMap.open (fun k => BitVec.ofNat 32 k) 0 true :
        ConcurrentEntriesMap Nat Nat 2)
      [.entry (.put 1 (.object 5) (-1) 0 none none), .entry (.remove 1 (-1) none true),
        .entry (.remove 1 (-1) none true)]
    m.size.toNat = 2 ^ 32 - 1 ∧ liveKeys m = ∅ := by
  intro m
  have hkeys : ∀ i, ∀ k ∈ (m.segments i).map.keys, k = 1 := by decide
  have hsize : m.size.toNat = 2 ^ 32 - 1 := by decide
  refine ⟨hsize, Set.eq_empty_of_forall_notMem ?_⟩
  rintro k ⟨e, he, hlive⟩
  have hbound : k ∈ (m.segmentFor k).map := by
    rw [← AList.lookup_isSome, show AList.lookup k (m.segmentFor k).map = some e from he]
    rfl
  obtain rfl : k = 1 := hkeys _ k (AList.mem_keys.mp hbound)
  have hvalue : (m.find 1).map (·.obj.value) = some (.token .tombstone) := by decide +kernel
  rw [he] at hvalue
  exact hlive.2.2 (Option.some.inj hvalue)

end

end GeodeNative.Proofs.Cache

import GeodeNative.Proofs.Cache.FailedUpdates
import GeodeNative.Proofs.Cache.Tombstones
import GeodeNative.Proofs.Cache.VersionStamp

/-!
# Accepted tags and the stamps they leave

With concurrency checks a `put`, `invalidate` or `remove` of a bound key first compares its version
tag with the stamp of the entry. When the tag is accepted, the stamp should become the one of the
tag, and an older tag should be refused from then on.

`acceptedTag_advances_iff` says when this is so, in any state that a run of calls reaches. There are
two parts. The call has to write the stamp: `invalidate` of a tombstone and a `put` whose delta
fails return after the check without doing so (`VersionedOp.Stores`). And the version of the tag has
to be small: a tag that is more than `0x10000` versions behind counts as one that wrapped around,
and is accepted. `refused_iff` computes which tags a stamp refuses.
-/

set_option autoImplicit false

namespace GeodeNative.Cache

open Lib Proofs.Cache

/-! ### Versioned calls -/

/-- A call with a version tag on a bound key. -/
inductive VersionedOp (V D : Type) where
  | put (newValue : CacheablePtr V) (updateCount destroyTracker : Int) (delta : Option D)
  | invalidate
  | remove (updateCount : Int) (afterRemote : Bool)

namespace VersionedOp

variable {K V D M : Type}

/-- The call on `key` with `tag`. -/
def toEntryOp (key : K) (tag : VersionTag) : VersionedOp V D → EntryOp K V D
  | put newValue updateCount destroyTracker delta =>
    .put key newValue updateCount destroyTracker (some tag) delta
  | invalidate => .invalidate key (some tag)
  | remove updateCount afterRemote => .remove key updateCount (some tag) afterRemote

/-- Whether the tag is checked as the one of a delta. -/
def deltaCheck : VersionedOp V D → Bool
  | put _ _ _ delta => delta.isSome
  | _ => false

/-- The delta, if there is one, applies to the value of the entry: the value is in memory or can be
read from disk, and `fromDelta` does not throw. -/
def DeltaApplies (region : RegionInternal K V D M) (key : K) (e : MapEntryImpl K V)
    (delta : Option D) : Prop :=
  ∀ d, delta = some d → ∃ v, (e.getValueI = .object v ∨
    e.getValueI = .token .overflowed ∧ region.getFromDisk key e = some v) ∧
    (region.fromDelta (if region.cloningEnabled then region.clone v else v) d).2 = false

/-- The call writes the stamp of a tag that was accepted for the bound `entry`. -/
def Stores (region : RegionInternal K V D M) (key : K) (entry : MapEntry K V) :
    VersionedOp V D → Prop
  | put _ _ _ delta =>
    entry.obj.value = .token .tombstone ∨ DeltaApplies region key entry.obj delta
  | invalidate => entry.obj.value ≠ .token .tombstone
  | remove _ _ => True

section
variable [DecidableEq K] (region : RegionInternal K V D M) {s : MapSegment K V} {key : K}
  {o : MapEntryImpl K V} {tag : VersionTag}

omit [DecidableEq K] in
theorem updateObj_noErr_iff (newValue : CacheablePtr V) (delta : Option D) :
    (MapSegment.updateObj region key o newValue delta).1 = .noErr ↔
      DeltaApplies region key o delta := by
  have hthrown : ∀ b : Bool, ∀ e₁ e₂ : MapEntryImpl K V,
      (if b then (GfErrType.invalidDelta, e₁) else (.noErr, e₂)).1 = .noErr ↔ b = false := by
    intro b e₁ e₂
    cases b <;> simp
  -- the value that the delta is applied to is determined by the entry
  have hvalue : ∀ d : D, ∀ v, (∀ w, (o.getValueI = .object w ∨ o.getValueI = .token .overflowed ∧
      region.getFromDisk key o = some w) ↔ w = v) → (DeltaApplies region key o (some d) ↔
        (region.fromDelta (if region.cloningEnabled then region.clone v else v) d).2 = false) := by
    intro d v hv
    constructor
    · intro h
      obtain ⟨w, hw, hok⟩ := h d rfl
      rwa [(hv w).mp hw] at hok
    · intro hok d' hd'
      cases hd'
      exact ⟨v, (hv v).mpr rfl, hok⟩
  cases delta with
  | none => exact iff_of_true rfl fun _ h => (nomatch h)
  | some d =>
    unfold MapSegment.updateObj MapSegment.applyDelta
    cases hold : o.getValueI with
    | null =>
      refine iff_of_false (by simp) fun h => ?_
      obtain ⟨v, h | ⟨h, -⟩, -⟩ := h d rfl <;> rw [hold] at h <;> cases h
    | object v =>
      rw [hvalue d v (by intro w; rw [hold]; simp [eq_comm])]
      by_cases hclone : region.cloningEnabled = true
      · simp only [if_pos hclone]
        exact hthrown _ _ _
      · simp only [if_neg hclone]
        cases (region.fromDelta v d).2 <;> simp
    | token t =>
      cases t with
      | overflowed =>
        cases hdisk : region.getFromDisk key o with
        | none =>
          refine iff_of_false (by simp) fun h => ?_
          obtain ⟨v, h | ⟨-, h⟩, -⟩ := h d rfl
          · rw [hold] at h
            cases h
          · rw [hdisk] at h
            cases h
        | some v =>
          rw [hvalue d v (by intro w; rw [hold, hdisk]; simp [eq_comm])]
          exact hthrown _ _ _
      | _ =>
        refine iff_of_false (by simp) fun h => ?_
        obtain ⟨v, h | ⟨h, -⟩, -⟩ := h d rfl <;> rw [hold] at h <;> cases h

variable (hen : s.concurrencyChecksEnabled = true)
include hen

variable (hfind : s.find key = some (.impl o)) (hweak : o.weakThis = true) (hkey : o.key = some key)
include hfind hweak hkey

/-- The entry of the key after a call whose tag was accepted: it has the stamp of the tag, or the
old stamp. -/
theorem stamp_step (op : VersionedOp V D)
    (haccepted : o.stamp.processVersionTag region.members (some tag) op.deltaCheck = .noErr) :
    ∃ o', ((op.toEntryOp key tag).step region s).find key = some (.impl o') ∧
      (op.Stores region key (.impl o) → o'.stamp = .setVersions tag) ∧
      (¬ op.Stores region key (.impl o) → o'.stamp = o.stamp) := by
  have hhealthy : ∀ e, s.find key = some e → MapSegment.Healthy key e := by
    rw [hfind]
    exact MapSegment.healthy_impl hweak hkey
  have hcheck : s.checkVersion region (.impl o) (some tag) op.deltaCheck =
      .ok (.setVersions tag) := by
    rw [MapSegment.checkVersion, if_pos hen]
    exact if_neg (not_not_intro haccepted)
  cases op with
  | put newValue updateCount destroyTracker delta =>
    have hen' : s.rehashIfNeeded.concurrencyChecksEnabled = true := by simpa using hen
    simp only [toEntryOp, EntryOp.step, EntryOp.exec, Stores, deltaCheck] at hcheck ⊢
    have hcases := MapSegment.put_cases region s key newValue updateCount destroyTracker (some tag)
      hen hhealthy delta
    rw [hfind] at hcases
    rcases hcases with ⟨err, -, ⟨⟨⟩, -⟩ | ⟨_, ⟨⟩, herr⟩, -⟩ | ⟨⟨⟩, -⟩ |
      ⟨_, stamp, me, ⟨⟩, htomb, -, heq⟩ | ⟨_, stamp, ⟨⟩, -, -, -, hobj, hstamp, heq⟩ |
      ⟨_, ⟨⟩, -, -, hvalue, hobj, heq⟩
    · rw [hcheck] at herr
      cases herr
    · -- a tombstone is replaced by a new entry
      rw [heq, (MapSegment.SetsAt.replaceTombstone ..).find_self]
      refine ⟨_, rfl, fun _ => ?_, fun hnot => absurd (Or.inl htomb) hnot⟩
      exact MapSegment.newEntry_stamp _ _ _ _ (by rw [MapSegment.flag_withoutCancelTask, hen']) tag
    · rw [hcheck] at hstamp
      cases hstamp
      rw [heq, (MapSegment.SetsAt.writeInPlace ..).find_self]
      refine ⟨_, rfl, fun _ => rfl, fun hnot => absurd (Or.inr ?_) hnot⟩
      exact (updateObj_noErr_iff region newValue delta).mp hobj
    · -- the delta failed after the check
      rw [heq, MapSegment.find_bind, if_pos rfl]
      refine ⟨_, rfl, fun hstores => ?_,
        fun _ => (MapSegment.updateObj_keeps region key o newValue delta).2.2⟩
      exact absurd ((updateObj_noErr_iff region newValue delta).mpr
        (hstores.resolve_left hvalue)) hobj
  | invalidate =>
    simp only [deltaCheck] at hcheck
    simp only [toEntryOp, EntryOp.step, EntryOp.exec, Stores, MapSegment.invalidate, hfind, hcheck,
      MapSegment.withImplPtr_impl _ hweak]
    by_cases htomb : o.value = .token .tombstone
    · have hold : o.getValueI.isTombstone = true := by simpa using htomb
      rw [if_pos hold]
      exact ⟨o, hfind, fun hnot => absurd htomb hnot, fun _ => rfl⟩
    · have hold : ¬ o.getValueI.isTombstone = true := by simpa using htomb
      refine ⟨(o.setValueI (.token .invalid)).setStamp (.setVersions tag), ?_, fun _ => rfl,
        fun hnot => absurd htomb hnot⟩
      simp only [if_neg hold, hen, if_true, MapEntry.mapObj, MapSegment.incrementUpdateCount,
        MapSegment.bind, Except.map]
      exact AList.lookup_insert _
  | remove updateCount afterRemote =>
    simp only [toEntryOp, EntryOp.step, EntryOp.exec, Stores, deltaCheck] at hcheck ⊢
    have hcases := MapSegment.remove_cases region s key updateCount (some tag) hen hhealthy
      afterRemote
    rw [hfind] at hcases
    rcases hcases with ⟨_, err, ⟨⟩, herr, -, -⟩ | ⟨_, stamp, me, old, ⟨⟩, -, -, hstamp, heq⟩ |
      ⟨t, ⟨⟩, -⟩ | ⟨⟨⟩, -⟩
    · rw [hcheck] at herr
      cases herr
    · rw [hcheck] at hstamp
      cases hstamp
      rw [heq, (MapSegment.SetsAt.buryInPlace ..).find_self]
      exact ⟨_, rfl, fun _ => rfl, fun hnot => absurd trivial hnot⟩

end

end VersionedOp

/-! ### The states of a run -/

namespace MapSegment

variable {K V D M : Type} [DecidableEq K]

/-- A segment with concurrency checks whose entries are all healthy. -/
structure Sane (s : MapSegment K V) : Prop where
  enabled : s.concurrencyChecksEnabled = true
  healthy : ∀ k e, s.find k = some e → Healthy k e

variable {s s' : MapSegment K V}

theorem Sane.sets (hs : Sane s) {k : K} {x : Option (MapEntry K V)} (h : SetsAt k x s s')
    (hx : ∀ e, x = some e → Healthy k e) : Sane s' := by
  refine ⟨h.flag.trans hs.enabled, ?_⟩
  intro k' e he
  rw [h.find] at he
  split at he
  · rename_i hk
    rw [hk]
    exact hx e he
  · exact hs.healthy k' e he

theorem Sane.setsImpl (hs : Sane s) {k : K} {o : MapEntryImpl K V}
    (h : SetsAt k (some (.impl o)) s s') (hweak : o.weakThis = true) (hkey : o.key = some k) :
    Sane s' := by
  exact hs.sets h (healthy_impl hweak hkey)

theorem Sane.unbinds (hs : Sane s) {k : K} (h : SetsAt k none s s') : Sane s' :=
  hs.sets h fun _ he => (nomatch he)

variable {s : MapSegment K V}

theorem Sane.rehashIfNeeded (hs : Sane s) : Sane s.rehashIfNeeded :=
  ⟨by simpa using hs.enabled, fun k e he => hs.healthy k e (by simpa using he)⟩

variable (region : RegionInternal K V D M)

theorem Sane.entryStep (hs : Sane s) (op : EntryOp K V D) : Sane (op.step region s) := by
  have hrehash := hs.rehashIfNeeded
  cases op with
  | create k v updateCount destroyTracker tag =>
    simp only [EntryOp.step, EntryOp.exec]
    rcases create_cases region s k v updateCount destroyTracker tag hs.enabled (hs.healthy k) with
      ⟨-, me, heq⟩ | ⟨err, old, -, heq⟩ | ⟨o, stamp, me, -, hweak, hkey, -, -, heq⟩ |
      ⟨o, stamp, me, -, -, -, heq⟩ <;> rw [heq]
    · exact hrehash.setsImpl (.bindNew ..) (newEntry_weakThis ..) (newEntry_key ..)
    · exact hrehash
    · exact hrehash.setsImpl (.writeInPlace _ k (o.setValueI v) stamp) hweak hkey
    · exact hrehash.setsImpl (.replaceTombstone ..) (newEntry_weakThis ..) (newEntry_key ..)
  | put k v updateCount destroyTracker tag delta =>
    simp only [EntryOp.step, EntryOp.exec]
    rcases put_cases region s k v updateCount destroyTracker tag hs.enabled (hs.healthy k) delta
      with ⟨err, -, -, heq⟩ | ⟨-, -, me, heq⟩ | ⟨o, stamp, me, -, -, -, heq⟩ |
      ⟨o, stamp, -, hweak, hkey, -, -, -, heq⟩ | ⟨o, -, hweak, hkey, -, -, heq⟩ <;> rw [heq]
    · exact hrehash
    · exact hrehash.setsImpl (.bindNew ..) (newEntry_weakThis ..) (newEntry_key ..)
    · exact hrehash.setsImpl (.replaceTombstone ..) (newEntry_weakThis ..) (newEntry_key ..)
    · obtain ⟨hweak', hkey', -⟩ := updateObj_keeps region k o v delta
      exact hrehash.setsImpl (.writeInPlace ..) (hweak'.trans hweak) (hkey'.trans hkey)
    · obtain ⟨hweak', hkey', -⟩ := updateObj_keeps region k o v delta
      exact hrehash.setsImpl (.bind ..) (hweak'.trans hweak) (hkey'.trans hkey)
  | invalidate k tag =>
    simp only [EntryOp.step, EntryOp.exec]
    rcases invalidate_cases region s k tag hs.enabled (hs.healthy k) with
      ⟨err, -, heq⟩ | ⟨-, me, heq⟩ | ⟨o, stamp, me, -, hweak, hkey, -, heq⟩ <;> rw [heq]
    · exact hs
    · exact hs.setsImpl (.bindNew ..) (newEntry_weakThis ..) (newEntry_key ..)
    · exact hs.setsImpl (.bind ..) hweak hkey
  | remove k updateCount tag afterRemote =>
    simp only [EntryOp.step, EntryOp.exec]
    rcases remove_cases region s k updateCount tag hs.enabled (hs.healthy k) afterRemote with
      ⟨o, err, -, -, -, heq⟩ | ⟨o, stamp, me, old, -, hweak, hkey, -, heq⟩ |
      ⟨t, -, -, heq⟩ | ⟨-, -, heq⟩ <;> rw [heq]
    · exact ⟨hs.enabled, hs.healthy⟩
    · exact hs.setsImpl (.buryInPlace s k o stamp) hweak hkey
    · exact hs.setsImpl (.buryNew s k t) (newEntry_weakThis ..) (newEntry_key ..)
    · exact ⟨hs.enabled, hs.healthy⟩
  | addTrackerForEntry k addIfAbsent failIfPresent incUpdateCount =>
    simpa only [EntryOp.step, EntryOp.exec, addTrackerForEntry, hs.enabled, if_true] using hs
  | removeTrackerForEntry k =>
    simpa only [EntryOp.step, EntryOp.exec, removeTrackerForEntry, hs.enabled, if_true] using hs

theorem Sane.reapTombstoneKeys (removedKeys : List K) (hs : Sane s) :
    Sane (s.reapTombstoneKeys removedKeys) := by
  induction removedKeys generalizing s with
  | nil => exact hs
  | cons k rest ih => exact ih (hs.unbinds (replaces_unguardedRemoveActualEntry s k).sets)

theorem Sane.handleTimeout (hs : Sane s) (taskid : Nat) : Sane (s.handleTimeout taskid) := by
  unfold MapSegment.handleTimeout
  split
  · rename_i key _
    have hsets : SetsAt key none s (s.removeActualEntry key false).2 :=
      (SetsAt.erase rfl false).trans (.unbind _ key)
    have hremoved := hs.unbinds hsets
    exact ⟨hremoved.enabled, hremoved.healthy⟩
  · exact ⟨hs.enabled, hs.healthy⟩
  · exact hs

theorem Sane.step (hs : Sane s) (op : SegmentOp K V D) : Sane (op.step region s) := by
  cases op with
  | entry op => exact hs.entryStep region op
  | clear => exact ⟨hs.enabled, fun _ _ he => (nomatch he)⟩
  | reapTombstones gcVersions => exact hs.reapTombstoneKeys _
  | reapTombstoneKeys removedKeys => exact hs.reapTombstoneKeys removedKeys
  | handleTimeout taskid => exact hs.handleTimeout taskid

theorem sane_run (primeIndex : Nat) (l : List (SegmentOp K V D)) :
    Sane (run (SegmentOp.step region) (MapSegment.open primeIndex true) l) := by
  have hopen : Sane (MapSegment.open primeIndex true : MapSegment K V) :=
    ⟨rfl, fun _ _ he => (nomatch he)⟩
  exact run_keeps (fun s op hs => hs.step region op) hopen

end MapSegment

/-! ### Accepted tags -/

namespace VersionedOp

variable {K V D M : Type} [DecidableEq K]

/-- After the call, the entry of the key has the stamp of the tag, and older tags are refused. -/
def Advances (region : RegionInternal K V D M) (s : MapSegment K V) (key : K) (tag : VersionTag)
    (op : VersionedOp V D) : Prop :=
  ∃ entry, ((op.toEntryOp key tag).step region s).find key = some entry ∧
    entry.getVersionStamp.Carries tag ∧ entry.getVersionStamp.RefusesOlder region.members tag

/-- A call on a bound key whose tag is accepted, in any state of a run: it advances the stamp
exactly when it writes the stamp, or finds it there already, and the version of the tag is early. -/
theorem acceptedTag_advances_iff (region : RegionInternal K V D M) (primeIndex : Nat)
    (l : List (SegmentOp K V D)) {key : K} {entry : MapEntry K V}
    (hbound : (run (SegmentOp.step region) (MapSegment.open primeIndex true) l).find key =
      some entry)
    (op : VersionedOp V D) {tag : VersionTag}
    (haccepted : entry.getVersionStamp.processVersionTag region.members (some tag) op.deltaCheck =
      .noErr) :
    op.Advances region (run (SegmentOp.step region) (MapSegment.open primeIndex true) l) key tag ↔
      (op.Stores region key entry ∨ entry.getVersionStamp.Carries tag) ∧
        VersionStamp.Comparable region.members tag := by
  have hsane := MapSegment.sane_run region primeIndex l
  obtain ⟨o, rfl, hweak, hkey⟩ := hsane.healthy key entry hbound
  obtain ⟨o', hfind, hstored, hkept⟩ := stamp_step region hsane.enabled hbound hweak hkey op
    haccepted
  -- the stamp afterwards carries the tag when it was stored, or was there before
  have hcarries : o'.stamp.Carries tag ↔
      op.Stores region key (.impl o) ∨ o.stamp.Carries tag := by
    by_cases hstores : op.Stores region key (.impl o)
    · rw [hstored hstores]
      exact iff_of_true (VersionStamp.carries_setVersions tag) (Or.inl hstores)
    · rw [hkept hstores]
      exact (or_iff_right hstores).symm
  constructor
  · rintro ⟨entry', hentry, hcarry, hrefuses⟩
    rw [hfind] at hentry
    cases hentry
    exact ⟨hcarries.mp hcarry, (VersionStamp.refusesOlder_iff hcarry).mp hrefuses⟩
  · rintro ⟨hwritten, hcomparable⟩
    have hcarry := hcarries.mpr hwritten
    exact ⟨.impl o', hfind, hcarry, (VersionStamp.refusesOlder_iff hcarry).mpr hcomparable⟩

/-- A run that puts the key 1 with version 1. -/
def putRun : List (SegmentOp Nat Nat Unit) :=
  [.entry (.put 1 (.object 5) (-1) 0 (some ⟨1, 0, 1, 1, 0⟩) none)]

/-- A `remove` with version 2 after it. -/
theorem remove_advances_after_put :
    (VersionedOp.remove (-1) false).Advances MapSegment.natRegion
      (run (SegmentOp.step MapSegment.natRegion) (.open 0 true) putRun) 1 ⟨2, 0, 2, 1, 0⟩ :=
  (acceptedTag_advances_iff MapSegment.natRegion 0 putRun rfl (.remove (-1) false) rfl).mpr
    ⟨Or.inl trivial, by decide, fun h => absurd h (by decide)⟩

/-- Then an `invalidate` with version 3. It is accepted, but the entry is a tombstone: the stamp
stays at 2, and the version 2 is accepted again. -/
theorem invalidate_keeps_stamp :
    let s := run (SegmentOp.step MapSegment.natRegion) (MapSegment.open 0 true)
      (putRun ++ [.entry (.remove 1 (-1) (some ⟨2, 0, 2, 1, 0⟩) false)])
    let check (tag : VersionTag) (s : MapSegment Nat Nat) := (s.find 1).map fun e =>
      e.getVersionStamp.processVersionTag MapSegment.natRegion.members (some tag) false
    let s' := (s.invalidate MapSegment.natRegion 1 (some ⟨3, 0, 3, 1, 0⟩)).2
    check ⟨3, 0, 3, 1, 0⟩ s = some .noErr ∧
      (s'.find 1).map (fun e => e.getVersionStamp.getEntryVersion) = some 2 ∧
      check ⟨2, 0, 2, 1, 0⟩ s' = some .noErr :=
  ⟨rfl, rfl, rfl⟩

end VersionedOp

end GeodeNative.Cache

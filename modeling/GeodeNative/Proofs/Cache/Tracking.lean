import GeodeNative.Lib.Run
import GeodeNative.Proofs.Cache.WithoutChecks

/-!
# Lost updates and entry tracking

Without concurrency checks an operation tracks its entry: `addTrackerForEntry` returns the
update count `c`, and the later `put` with `updateCount = c` should be refused when the key
was updated in between. This module takes runs of the calls that name one key, on any keys.

`trackedPut_overwrites_recreated` is a run where an update is lost. A `remove` unbinds the
tracked entry, an untracked `put` binds a new entry, and the count of the new entry starts
again from zero. So the tracked `put` succeeds and overwrites the value.

`trackedPut_refused` states that this is the only way. If no call binds the key again while it
is unbound, and an update of the key took effect, then the tracked `put` returns
`GF_CACHE_ENTRY_UPDATED` and changes nothing. The proof follows the key: after
`addTrackerForEntry` its entry is wiped (`wiped_step`), so `remove` is the only update that
takes effect, and it leaves the key unbound.
-/

set_option autoImplicit false

namespace GeodeNative.Proofs.Cache

open GeodeNative.Cache Lib EntryOp
open GeodeNative.Cache.MapSegment

section
variable {K V D M : Type} [DecidableEq K]

/-- The call updates an entry without a tracker: an untracked `put` or `create`, an
`invalidate` or a `remove`. -/
def IsUpdate : EntryOp K V D → Prop
  | .create _ _ updateCount _ _ => updateCount < 0
  | .put _ _ updateCount _ _ _ => updateCount < 0
  | .invalidate _ _ => True
  | .remove _ _ _ _ => True
  | .addTrackerForEntry _ _ _ _ => False
  | .removeTrackerForEntry _ => False

/-- The call is an update of `k` that took effect: it returned `GF_NOERR`, or the binding of
`k` changed. -/
def TookEffect (region : RegionInternal K V D M) (k : K) (s : MapSegment K V)
    (op : EntryOp K V D) : Prop :=
  op.key = k ∧ IsUpdate op ∧
    ((∃ r, (op.exec region s).1 = .ok r ∧ r.isNoErr = true) ∨
      (op.step region s).find k ≠ s.find k)

/-- The call does not bind `k` again while `k` is unbound. -/
def NoRecreate (region : RegionInternal K V D M) (k : K) (s : MapSegment K V)
    (op : EntryOp K V D) : Prop :=
  s.find k = none → (op.step region s).find k = none

/-- A segment without concurrency checks, with shaped entries only. -/
structure Ordinary (s : MapSegment K V) : Prop where
  disabled : s.concurrencyChecksEnabled = false
  shaped : ∀ k, ShapedAt (s.find k)

variable {s : MapSegment K V} (region : RegionInternal K V D M)

/-- A call changes the binding of its key only, and keeps it shaped. -/
theorem step_setsAt (hs : Ordinary s) (op : EntryOp K V D) :
    ∃ x, ShapedAt x ∧ SetsAt op.key x s (op.step region s) := by
  cases op with
  | create k v updateCount destroyTracker tag =>
    obtain ⟨res, s', x, heq, hx, h, -⟩ :=
      create_disabled region s k v updateCount destroyTracker tag hs.disabled (hs.shaped k)
    simp only [step, exec, key, heq]
    exact ⟨x, hx, h⟩
  | put k v updateCount destroyTracker tag delta =>
    obtain ⟨res, s', x, heq, hx, h, -⟩ :=
      put_disabled region s k v updateCount destroyTracker tag hs.disabled (hs.shaped k) delta
    simp only [step, exec, key, heq]
    exact ⟨x, hx, h⟩
  | invalidate k tag =>
    obtain ⟨res, s', heq, -, rfl | ⟨o, o', -, -, ho', -, h⟩⟩ :=
      invalidate_disabled region s k tag hs.disabled (hs.shaped k) <;>
      simp only [step, exec, key, heq]
    · exact ⟨_, hs.shaped k, .same rfl⟩
    · exact ⟨_, ho'.shapedAt, h⟩
  | remove k updateCount tag afterRemote =>
    obtain ⟨res, s', heq, h, -⟩ :=
      remove_disabled region s k updateCount tag hs.disabled (hs.shaped k) afterRemote
    simp only [step, exec, key, heq]
    exact ⟨none, shapedAt_none, h⟩
  | addTrackerForEntry k addIfAbsent failIfPresent incUpdateCount =>
    simp only [step, exec, key]
    rcases addTrackerForEntry_disabled s k hs.disabled (hs.shaped k) addIfAbsent failIfPresent
        incUpdateCount with ⟨-, h⟩ | ⟨-, w, hw, h⟩
    · exact ⟨s.find k, hs.shaped k, by rw [h]; exact .same rfl⟩
    · exact ⟨_, hw.shapedAt, h⟩
  | removeTrackerForEntry k =>
    simp only [step, exec, key]
    rcases removeTrackerForEntry_disabled s k hs.disabled (hs.shaped k) with h | ⟨o, -, ho, h⟩
    · exact ⟨s.find k, hs.shaped k, by rw [h]; exact .same rfl⟩
    · exact ⟨_, settled_shapedAt ho, h⟩

theorem ordinary_step (hs : Ordinary s) (op : EntryOp K V D) : Ordinary (op.step region s) := by
  obtain ⟨x, hx, h⟩ := step_setsAt region hs op
  refine ⟨by rw [h.flag, hs.disabled], fun k => ?_⟩
  by_cases hk : k = op.key
  · rw [hk, h.find_self]
    exact hx
  · rw [h.find_ne hk]
    exact hs.shaped k

theorem ordinary_of_empty (hdis : s.concurrencyChecksEnabled = false)
    (hempty : ∀ k, s.find k = none) : Ordinary s :=
  ⟨hdis, fun k => by rw [hempty]; exact shapedAt_none⟩

/-- A call on a key with a wiped entry. The entry stays wiped and no update took effect, or the
key is unbound afterwards. -/
theorem wiped_step (hs : Ordinary s) (k : K) {w : MapEntryImpl K V}
    (hfind : s.find k = some (.impl w)) (hw : Wiped w) (op : EntryOp K V D) :
    ((∃ w', (op.step region s).find k = some (.impl w') ∧ Wiped w') ∧
      ¬ TookEffect region k s op) ∨
    (op.step region s).find k = none := by
  by_cases hkey : op.key = k
  swap
  · -- a call on another key
    obtain ⟨x, -, h⟩ := step_setsAt region hs op
    refine .inl ⟨⟨w, by rw [h.find_ne (Ne.symm hkey), hfind], hw⟩, fun heffect => ?_⟩
    exact hkey heffect.1
  -- a call that throws leaves the wiped entry
  have hthrows : ∀ s', (∀ k', s'.find k' = s.find k') →
      op.exec region s = (.error .badWeakPtr, s') →
      (∃ w', (op.step region s).find k = some (.impl w') ∧ Wiped w') ∧
        ¬ TookEffect region k s op := by
    intro s' hs' herr
    have hsame : (op.step region s).find k = s.find k := by
      rw [step, herr]
      exact hs' k
    refine ⟨⟨w, by rw [hsame, hfind], hw⟩, ?_⟩
    -- a call that throws and leaves the binding did not take effect
    rintro ⟨-, -, ⟨r, hr, -⟩ | hne⟩
    · rw [herr] at hr
      cases hr
    · exact hne hsame
  have hrehash : ∀ k', s.rehashIfNeeded.find k' = s.find k' := find_rehashIfNeeded s
  cases op with
  | create k v updateCount destroyTracker tag =>
    cases hkey
    refine .inl (hthrows s.rehashIfNeeded hrehash ?_)
    simp only [exec, create_wiped region s k v updateCount destroyTracker tag hfind hw]
    rfl
  | put k v updateCount destroyTracker tag delta =>
    cases hkey
    refine .inl (hthrows s.rehashIfNeeded hrehash ?_)
    simp only [exec, put_wiped region s k v updateCount destroyTracker tag hfind hw]
    rfl
  | invalidate k tag =>
    cases hkey
    refine .inl (hthrows s (fun _ => rfl) ?_)
    simp only [exec, invalidate_wiped region s k tag hs.disabled hfind hw]
    rfl
  | remove k updateCount tag afterRemote =>
    cases hkey
    exact .inr (remove_wiped region s k updateCount tag hs.disabled hfind hw
      afterRemote).2.find_self
  | addTrackerForEntry k addIfAbsent failIfPresent incUpdateCount =>
    cases hkey
    refine .inl ⟨?_, fun heffect => heffect.2.1⟩
    simp only [step, exec]
    rcases addTrackerForEntry_disabled s k hs.disabled (hs.shaped k) addIfAbsent failIfPresent
        incUpdateCount with ⟨-, h⟩ | ⟨-, w', hw', h⟩
    · exact ⟨w, by rw [h, hfind], hw⟩
    · exact ⟨w', h.find_self, hw'⟩
  | removeTrackerForEntry k =>
    cases hkey
    refine .inl (hthrows s (fun _ => rfl) ?_)
    simp only [exec, removeTrackerForEntry_wiped s k hs.disabled hfind hw]
    rfl

/-! ### The tracked put -/

/-- The key of a tracked operation: unbound, or bound to a wiped entry. -/
def UnboundOrWiped (k : K) (s : MapSegment K V) : Prop :=
  s.find k = none ∨ ∃ w, s.find k = some (.impl w) ∧ Wiped w

theorem addTrackerForEntry_wiped (hs : Ordinary s) {k : K} {failIfPresent incUpdateCount : Bool}
    {c : Int} {old : CacheablePtr V} {s₁ : MapSegment K V}
    (hadd : s.addTrackerForEntry k true failIfPresent incUpdateCount = (.ok (c, old), s₁))
    (hc : 0 ≤ c) : UnboundOrWiped k s₁ := by
  rcases addTrackerForEntry_disabled s k hs.disabled (hs.shaped k) true failIfPresent
      incUpdateCount with ⟨h, -⟩ | ⟨-, w, hw, h⟩
  · have := h c old (by rw [hadd])
    omega
  · rw [hadd] at h
    exact .inr ⟨w, h.find_self, hw⟩

/-- A call that does not recreate `k` keeps it unbound or wiped. When the call is an update of
`k` that took effect, `k` is unbound afterwards. -/
theorem unboundOrWiped_step (hs : Ordinary s) (k : K) (h : UnboundOrWiped k s) (op : EntryOp K V D)
    (hop : NoRecreate region k s op) :
    UnboundOrWiped k (op.step region s) ∧
      (TookEffect region k s op → (op.step region s).find k = none) := by
  rcases h with h | ⟨w, hfind, hw⟩
  · exact ⟨.inl (hop h), fun _ => hop h⟩
  · rcases wiped_step region hs k hfind hw op with ⟨⟨w', h', hw'⟩, hno⟩ | h'
    · exact ⟨.inr ⟨w', h', hw'⟩, fun heffect => absurd heffect hno⟩
    · exact ⟨.inl h', fun _ => h'⟩

/-- A run without re-creation keeps the key unbound or wiped, and an unbound key unbound. -/
theorem unboundOrWiped_run (k : K) {l : List (EntryOp K V D)} (hs : Ordinary s)
    (h : UnboundOrWiped k s) (hl : Along (step region) (NoRecreate region k) s l) :
    Ordinary (run (step region) s l) ∧
      UnboundOrWiped k (run (step region) s l) ∧
      (s.find k = none → (run (step region) s l).find k = none) := by
  have hstep : ∀ s' op,
      (Ordinary s' ∧ UnboundOrWiped k s' ∧ (s.find k = none → s'.find k = none)) →
      NoRecreate region k s' op →
      (Ordinary (op.step region s') ∧ UnboundOrWiped k (op.step region s') ∧
        (s.find k = none → (op.step region s').find k = none)) := by
    rintro s' op ⟨hord, hstate, hnone⟩ hop
    refine ⟨ordinary_step region hord op, ?_, fun h => hop (hnone h)⟩
    exact (unboundOrWiped_step region hord k hstate op hop).1
  exact run_invariant hstep ⟨hs, h, id⟩ hl

theorem ordinary_run (hs : Ordinary s) (l : List (EntryOp K V D)) :
    Ordinary (run (step region) s l) :=
  run_keeps (fun _ op h => ordinary_step region h op) hs

/-- No lost update, when the key is not re-created. Take any run of calls `before` on a new
segment without concurrency checks, then `addTrackerForEntry(k, addIfAbsent = true)`, which
returns the count `c`, and then any calls `mid`, none of which binds `k` while it is unbound.
If an update of `k` took effect in `mid`, then the `put` of `k` with `updateCount = c` returns
`GF_CACHE_ENTRY_UPDATED` and leaves the binding of `k`. -/
theorem trackedPut_refused (region : RegionInternal K V D M) (s₀ : MapSegment K V)
    (hdis : s₀.concurrencyChecksEnabled = false) (hempty : ∀ k, s₀.find k = none)
    (before mid : List (EntryOp K V D)) (k : K) (failIfPresent incUpdateCount : Bool) (c : Int)
    (old : CacheablePtr V) (s₁ s₂ : MapSegment K V)
    (hadd : (run (EntryOp.step region) s₀ before).addTrackerForEntry k true failIfPresent
      incUpdateCount = (.ok (c, old), s₁))
    (hc : 0 ≤ c) (hs₂ : run (EntryOp.step region) s₁ mid = s₂)
    (hmid : Along (EntryOp.step region) (NoRecreate region k) s₁ mid)
    (heffect : ∃ l op l', mid = l ++ op :: l' ∧
      TookEffect region k (run (EntryOp.step region) s₁ l) op)
    (v : CacheablePtr V) (destroyTracker : Int) (tag : Option VersionTag) :
    (s₂.put region k v c destroyTracker tag none).1 = .ok { err := .cacheEntryUpdated } ∧
      (s₂.put region k v c destroyTracker tag none).2.find k = s₂.find k := by
  -- the segment when the tracker is added, and after it
  have hbefore : Ordinary (run (step region) s₀ before) :=
    ordinary_run region (ordinary_of_empty hdis hempty) before
  have hs₁ : Ordinary s₁ := by
    have := ordinary_step region hbefore
      (.addTrackerForEntry k true failIfPresent incUpdateCount)
    simpa only [step, exec, hadd] using this
  have hwiped : UnboundOrWiped k s₁ := addTrackerForEntry_wiped hbefore hadd hc
  -- the update that took effect leaves `k` unbound, and it stays so
  obtain ⟨l, op, l', rfl, heffect⟩ := heffect
  rw [along_append, along_cons] at hmid
  obtain ⟨hl, hop, hl'⟩ := hmid
  obtain ⟨hord, hstate, -⟩ := unboundOrWiped_run region k hs₁ hwiped hl
  obtain ⟨hstate', hunbound⟩ := unboundOrWiped_step region hord k hstate op hop
  have hord' := ordinary_step region hord op
  obtain ⟨hord₂, -, hnone⟩ := unboundOrWiped_run region k hord' hstate' hl'
  rw [run_append, run_cons] at hs₂
  rw [hs₂] at hord₂ hnone
  have hfind : s₂.find k = none := hnone (hunbound heffect)
  rw [put_tracked_unbound region s₂ k v c destroyTracker tag hord₂.disabled hfind hc]
  exact ⟨rfl, find_rehashIfNeeded s₂ k⟩

/-- A new segment, a tracker on key 1, and a `remove` of key 1 meet the hypotheses. -/
theorem trackedPut_refused_after_remove :
    let s₁ := ((MapSegment.open 0 false : MapSegment Nat Nat).addTrackerForEntry 1 true false
      false).2
    let s₂ := run (EntryOp.step natRegion) s₁ [.remove 1 (-1) none true]
    (s₂.put natRegion 1 (.object 9) 0 0 none none).1 = .ok { err := .cacheEntryUpdated } ∧
      (s₂.put natRegion 1 (.object 9) 0 0 none none).2.find 1 = s₂.find 1 :=
  trackedPut_refused natRegion (MapSegment.open 0 false) rfl (fun _ => rfl) []
    [.remove 1 (-1) none true] 1 false false 0 .null _ _ rfl (by decide) rfl
    ⟨fun _ => rfl, trivial⟩
    ⟨[], .remove 1 (-1) none true, [], rfl, rfl, trivial, .inr (by decide)⟩
    (.object 9) 0 none

/-- A lost update. Key 1 is absent and gets a tracker with count 0. A `remove` unbinds it, and
an untracked `put` binds the value 5 and returns `GF_NOERR`. The tracked `put` with count 0
then also returns `GF_NOERR`, and the value 5 is overwritten by 9. -/
theorem trackedPut_overwrites_recreated :
    let r₁ := (MapSegment.open 0 false : MapSegment Nat Nat).addTrackerForEntry 1 true false false
    let s₂ := EntryOp.step natRegion r₁.2 (.remove 1 (-1) none true)
    let r₃ := s₂.put natRegion 1 (.object 5) (-1) 0 none none
    let r₄ := r₃.2.put natRegion 1 (.object 9) 0 0 none none
    r₁.1 = .ok (0, .null) ∧ s₂.find 1 = none ∧ (r₃.1.map (·.err)) = .ok .noErr ∧
      (r₃.2.find 1).map (·.obj.value) = some (.object 5) ∧ (r₄.1.map (·.err)) = .ok .noErr ∧
      (r₄.2.find 1).map (·.obj.value) = some (.object 9) := by
  refine ⟨rfl, rfl, rfl, rfl, rfl, rfl⟩

end

end GeodeNative.Proofs.Cache

import GeodeNative.Cache.DestroyTracking
import GeodeNative.Proofs.Cache.FailedUpdates
import GeodeNative.Proofs.Cache.Size

/-!
# Destroys that a tracking operation must not undo

An operation that tracks destroys gets a number, and a `put` or `create` with this number on a
missing key should be refused exactly when a `remove` of the key was received since. The segment
records a `remove` of a missing key under the number of registered operations plus one, and compares
the record with the number of the operation.

This is right only as long as the numbers of the registered operations are 1, 2, … without a gap and
no record is older than a registration. `Tracking.Sound` says for each step when the answers stay
right, in terms of the state before it, and `destroyTracking_iff` that the answers are right in
every state of a run exactly when each of its steps is such a step.
-/

set_option autoImplicit false

namespace GeodeNative.Cache

open Lib List

/-! ### Records -/

namespace MapSegment

variable {K V D M : Type}

/-- The segment has the same records, counter and mode. -/
structure KeepsRecords (s s' : MapSegment K V) : Prop where
  destroyedKeys : s'.destroyedKeys = s.destroyedKeys
  numDestroyTrackers : s'.numDestroyTrackers = s.numDestroyTrackers
  flag : s'.concurrencyChecksEnabled = s.concurrencyChecksEnabled

namespace KeepsRecords

variable {s s' s'' : MapSegment K V}

theorem refl (s : MapSegment K V) : KeepsRecords s s := ⟨rfl, rfl, rfl⟩

theorem trans (h : KeepsRecords s s') (h' : KeepsRecords s' s'') : KeepsRecords s s'' :=
  ⟨h'.destroyedKeys.trans h.destroyedKeys, h'.numDestroyTrackers.trans h.numDestroyTrackers,
    h'.flag.trans h.flag⟩

/-- A write has the records of the segment after the load check, which has those before it. -/
theorem ofWrite [DecidableEq K] {key : K} (h : OnlyAt key s.rehashIfNeeded s') :
    KeepsRecords s s' := by
  obtain ⟨_, _, heq⟩ := rehashIfNeeded_eq s
  rw [heq] at h
  exact ⟨h.destroyedKeys, h.numDestroyTrackers, h.flag⟩

end KeepsRecords

theorem removeDestroyTracking_disabled {s : MapSegment K V}
    (hdis : s.concurrencyChecksEnabled = false) :
    s.removeDestroyTracking = { s with destroyedKeys := ∅ } := by
  rw [removeDestroyTracking, if_neg (Bool.eq_false_iff.mp hdis)]

variable [DecidableEq K]

/-! ### Untracked writes -/

/-- The step changes the binding of `key` alone, and leaves it unbound exactly when `P` holds. -/
def Leaves (s s' : MapSegment K V) (key : K) (P : Prop) : Prop :=
  ∃ x, ShapedAt x ∧ SetsAt key x s s' ∧ (x = none ↔ P)

variable {key : K} {s s' : MapSegment K V}

section
variable (region : RegionInternal K V D M) (s : MapSegment K V) (key : K)
  (newValue : CacheablePtr V) (destroyTracker : Int) (versionTag : Option VersionTag)

/-- The key is left unbound: it was, or it was bound to a tombstone token, and the write aborts. -/
def LeftUnbound : Prop :=
  s.find key = none ∧ s.putNoEntryAborts key (-1) destroyTracker = true ∨
    DropsTombstone s key (-1) destroyTracker

variable (hdis : s.concurrencyChecksEnabled = false)

theorem leftUnbound_of_unbound (hfind : s.find key = none) :
    LeftUnbound s key destroyTracker ↔ s.putNoEntryAborts key (-1) destroyTracker = true := by
  rw [LeftUnbound, DropsTombstone, and_iff_right hfind, or_iff_left (not_exists_find hfind)]

variable {o : MapEntryImpl K V}

theorem leftUnbound_of_untracked (hfind : s.find key = some (.impl o)) (ho : Untracked o) :
    LeftUnbound s key destroyTracker ↔
      o.getValueI.isTombstone = true ∧ s.putNoEntryAborts key (-1) destroyTracker = true := by
  rw [← dropsTombstone_iff (-1) destroyTracker hfind (getImplPtr_impl ho.weakThis), LeftUnbound,
    or_iff_right]
  rintro ⟨h, -⟩
  rw [hfind] at h
  cases h

theorem not_leftUnbound_of_wiped (hfind : s.find key = some (.impl o)) (ho : Wiped o) :
    ¬ LeftUnbound s key destroyTracker := by
  rw [LeftUnbound, DropsTombstone, exists_find_iff hfind]
  rintro (⟨h, -⟩ | ⟨⟨e, himpl⟩, -⟩)
  · rw [hfind] at h
    cases h
  · rw [MapEntry.getImplPtr, MapEntryImpl.sharedFromThis, ho.weakThis] at himpl
    cases himpl

variable (hshape : ShapedAt (s.find key))
include hdis hshape

theorem leaves_create : Leaves s
    (s.create region key newValue (-1) destroyTracker versionTag).2 key
    (LeftUnbound s key destroyTracker) := by
  obtain ⟨res, s', x, heq, hx, hsets, hcases⟩ :=
    create_disabled region s key newValue (-1) destroyTracker versionTag hdis hshape
  rw [heq]
  refine ⟨x, hx, hsets, ?_⟩
  rcases hcases with ⟨hfind, haborts, rfl, -⟩ | ⟨hfind, haborts, me, o, rfl, -⟩ |
    ⟨o, hfind, ho, rfl, -⟩ | ⟨o, hfind, ho, hlive, rfl, -⟩ | ⟨o, hfind, ho, -, hunbinds⟩
  · simp [leftUnbound_of_unbound s key destroyTracker hfind, hfind, haborts]
  · simp [leftUnbound_of_unbound s key destroyTracker hfind, haborts]
  · simp [not_leftUnbound_of_wiped s key destroyTracker hfind ho, hfind]
  · rw [leftUnbound_of_untracked s key destroyTracker hfind ho, hfind]
    exact iff_of_false (Option.some_ne_none _) fun h => (liveValue_iff o).mp hlive (Or.inr h.1)
  · rw [leftUnbound_of_untracked s key destroyTracker hfind ho]
    exact hunbinds (by decide)

theorem leaves_put : Leaves s
    (s.put region key newValue (-1) destroyTracker versionTag (none : Option D)).2 key
    (LeftUnbound s key destroyTracker) := by
  obtain ⟨res, s', x, heq, hx, hsets, hcases⟩ :=
    put_disabled region s key newValue (-1) destroyTracker versionTag hdis hshape none
  rw [heq]
  refine ⟨x, hx, hsets, ?_⟩
  rcases hcases with ⟨hfind, rfl, haborts, -⟩ | ⟨hfind, haborts, me, o, rfl, -⟩ |
    ⟨o, hfind, ho, rfl, -⟩ | ⟨o, hfind, ho, hunbinds, -⟩
  · simp [leftUnbound_of_unbound s key destroyTracker hfind, hfind, haborts rfl]
  · simp [leftUnbound_of_unbound s key destroyTracker hfind, haborts]
  · simp [not_leftUnbound_of_wiped s key destroyTracker hfind ho, hfind]
  · rw [leftUnbound_of_untracked s key destroyTracker hfind ho]
    exact hunbinds (by decide)

end

/-! ### Tracking all entries -/

/-- What the loop keeps: the unbound keys, the shape of the entries, and the records. -/
structure TracksBound (s s' : MapSegment K V) : Prop where
  unbound : ∀ k, s'.find k = none ↔ s.find k = none
  shaped : ∀ k, ShapedAt (s.find k) → ShapedAt (s'.find k)
  records : KeepsRecords s s'

theorem tracksBound_refl (s : MapSegment K V) : TracksBound s s :=
  ⟨fun _ => Iff.rfl, fun _ h => h, .refl s⟩

theorem TracksBound.trans {s s' s'' : MapSegment K V} (h : TracksBound s s')
    (h' : TracksBound s' s'') : TracksBound s s'' :=
  ⟨fun k => (h'.unbound k).trans (h.unbound k), fun k hk => h'.shaped k (h.shaped k hk),
    h.records.trans h'.records⟩

theorem tracksBound_bind (hkey : s.find key ≠ none) {w : MapEntryImpl K V} (hw : Wiped w) :
    TracksBound s (s.bind key (.impl w)) := by
  have hsets := SetsAt.bind s key (.impl w)
  refine ⟨fun k => ?_, fun k hk => ?_, ⟨rfl, rfl, rfl⟩⟩
  · by_cases h : k = key
    · rw [h, hsets.find_self]
      exact iff_of_false (Option.some_ne_none _) hkey
    · rw [hsets.find_ne h]
  · by_cases h : k = key
    · rw [h, hsets.find_self]
      exact hw.shapedAt
    · rw [hsets.find_ne h]
      exact hk

/-- The loop over the bindings. The induction is on the bindings that are left, which are bound and
shaped; so no entry ever sets `newEntry`. -/
theorem tracksBound_addTrackers (l : List (Sigma fun _ : K => MapEntry K V)) (s : MapSegment K V)
    (hl : ∀ b ∈ l, s.find b.1 ≠ none ∧ Shaped b.2) (updateCounterMap : AList fun _ : K => Int) :
    TracksBound s (s.addTrackers none updateCounterMap l).2 := by
  induction l generalizing s updateCounterMap with
  | nil => exact tracksBound_refl s
  | cons b l ih =>
    obtain ⟨key, entry⟩ := b
    obtain ⟨hkey, hshape⟩ := hl ⟨key, entry⟩ mem_cons_self
    obtain ⟨o, rfl, ho⟩ := hshape
    rcases addTracker_shaped ho with hadd | hadd
    · simp only [addTrackers, hadd]
      exact tracksBound_refl s
    · have hbind := tracksBound_bind hkey
        (wiped_placementNew o.addr (o.numTrackers + 1) o.updateCount)
      cases hown : (MapEntry.impl o).obj.key with
      | none =>
        simp only [addTrackers, hadd, hown]
        exact hbind
      | some own =>
        simp only [addTrackers, hadd, hown]
        apply hbind.trans
        apply ih
        intro b hb
        obtain ⟨hb₁, hb₂⟩ := hl b (mem_cons_of_mem _ hb)
        exact ⟨fun h => hb₁ ((hbind.unbound b.1).mp h), hb₂⟩

theorem tracksBound_addTrackerForAllEntries (s : MapSegment K V)
    (hshape : ∀ k, ShapedAt (s.find k)) (updateCounterMap : AList fun _ : K => Int) :
    TracksBound s (s.addTrackerForAllEntries updateCounterMap).2 := by
  unfold addTrackerForAllEntries
  split
  · exact tracksBound_refl s
  · apply tracksBound_addTrackers
    intro b hb
    have hfind : s.find b.1 = some b.2 := AList.mem_lookup_iff.mpr hb
    refine ⟨?_, hshape b.1 b.2 hfind⟩
    rw [hfind]
    exact Option.some_ne_none _

/-! ### Removes -/

/-- An untracked `remove` without concurrency checks: the key is unbound, and a missing key is
recorded while operations track destroys. -/
theorem remove_untracked (region : RegionInternal K V D M) (s : MapSegment K V) (key : K)
    (versionTag : Option VersionTag) (afterRemote : Bool)
    (hdis : s.concurrencyChecksEnabled = false) :
    SetsAt key none s (s.remove region key (-1) versionTag afterRemote).2 ∧
      (s.remove region key (-1) versionTag afterRemote).2.numDestroyTrackers =
        s.numDestroyTrackers ∧
      (s.remove region key (-1) versionTag afterRemote).2.destroyedKeys =
        if s.find key = none ∧ 0 < s.numDestroyTrackers then
          s.destroyedKeys.insert key (s.numDestroyTrackers + 1)
        else s.destroyedKeys := by
  have hflag := Bool.eq_false_iff.mp hdis
  cases hfind : s.find key with
  | none =>
    simp only [remove, if_neg hflag, hfind, true_and]
    exact ⟨⟨(SetsAt.same hfind).find, rfl⟩, trivial⟩
  | some entry =>
    have hneg : ¬ ((-1 : Int) ≥ 0 ∧ (-1 : Int) ≠ entry.getUpdateCount) := by omega
    have hstate : (s.remove region key (-1) versionTag afterRemote).2 = s.unbind key := by
      simp only [remove, if_neg hflag, hfind, if_neg hneg, withImplPtr]
      cases entry.getImplPtr <;> rfl
    rw [hstate]
    exact ⟨SetsAt.unbind s key, rfl, rfl⟩

/-! ### Records of a key -/

/-- The segment has a record of `key` that is newer than the number `destroyTracker`. -/
def Recorded (s : MapSegment K V) (key : K) (destroyTracker : Int) : Prop :=
  ∃ pos, s.destroyedKeys.lookup key = some pos ∧ destroyTracker < pos

theorem recorded_congr (h : s'.destroyedKeys = s.destroyedKeys) (key : K) (destroyTracker : Int) :
    Recorded s' key destroyTracker ↔ Recorded s key destroyTracker := by
  rw [Recorded, Recorded, h]

theorem recorded_insert_self {pos : Int} (h : s'.destroyedKeys = s.destroyedKeys.insert key pos)
    (destroyTracker : Int) : Recorded s' key destroyTracker ↔ destroyTracker < pos := by
  rw [Recorded, h, AList.lookup_insert]
  constructor
  · rintro ⟨pos', hpos, hlt⟩
    cases hpos
    exact hlt
  · intro hlt
    exact ⟨pos, rfl, hlt⟩

theorem not_recorded_removeDestroyTracking (hdis : s.concurrencyChecksEnabled = false) (key : K)
    (destroyTracker : Int) : ¬ Recorded s.removeDestroyTracking key destroyTracker := by
  rintro ⟨pos, hpos, -⟩
  rw [removeDestroyTracking_disabled hdis] at hpos
  cases hpos

/-- While operations are registered, a write with the number of one of them aborts exactly when the
key has a newer record. -/
theorem putNoEntryAborts_iff (hdis : s.concurrencyChecksEnabled = false)
    (hcount : 0 < s.numDestroyTrackers) (key : K) {destroyTracker : Int}
    (hd : 0 < destroyTracker) :
    s.putNoEntryAborts key (-1) destroyTracker = true ↔ Recorded s key destroyTracker := by
  have hneg : decide ((-1 : Int) ≥ 0) = false := rfl
  have hboth : decide (destroyTracker > 0 ∧ s.numDestroyTrackers > 0) = true :=
    decide_eq_true ⟨hd, hcount⟩
  rw [putNoEntryAborts, hdis, hneg, hboth, Recorded]
  cases s.destroyedKeys.lookup key with
  | none => simp
  | some pos => simp

theorem putNoEntry_refused_iff (s : MapSegment K V) (key : K) (newValue : CacheablePtr V)
    (destroyTracker : Int) (versionTag : Option VersionTag) :
    (s.putNoEntry key newValue (-1) destroyTracker versionTag none).1.1 = .cacheEntryUpdated ↔
      s.putNoEntryAborts key (-1) destroyTracker = true := by
  unfold putNoEntry
  split
  · exact iff_of_true rfl ‹_›
  · exact iff_of_false (by simp) ‹_›

end MapSegment

/-! ### Registered operations -/

namespace Tracking

open MapSegment ConcurrentEntriesMap

variable {K V D M : Type} {n : Nat} [NeZero n] [DecidableEq K]

/-- What every step keeps. The counter is the number of the registered operations. -/
structure Inv (t : Tracking K V n) : Prop where
  flag : ∀ i, (t.map.segments i).concurrencyChecksEnabled = false
  count : ∀ i, (t.map.segments i).numDestroyTrackers = t.live.length
  positive : ∀ o ∈ t.live, 0 < o.destroyTracker
  shaped : ∀ i k, ShapedAt ((t.map.segments i).find k)

/-- A `remove` of `key` is on record for the number `destroyTracker`. -/
def Recorded (t : Tracking K V n) (key : K) (destroyTracker : Int) : Prop :=
  (t.map.segmentFor key).Recorded key destroyTracker

/-- The records of `key` say for each registered operation whether a `remove` was received. -/
def AgreesOn (t : Tracking K V n) (key : K) : Prop :=
  ∀ o ∈ t.live, t.Recorded key o.destroyTracker ↔ key ∈ o.removed

/-- The records agree on every missing key. -/
def Agrees (t : Tracking K V n) : Prop :=
  ∀ key, t.map.find key = none → t.AgreesOn key

/-- A change of a segment that keeps its records. -/
theorem agreesOn_touch {t : Tracking K V n} {i : Fin n} {s : MapSegment K V}
    {m : ConcurrentEntriesMap K V n} (h : Touches i s t.map m)
    (hrecords : s.destroyedKeys = (t.map.segments i).destroyedKeys) (key : K) :
    AgreesOn { t with map := m } key ↔ t.AgreesOn key := by
  have hrecorded : ∀ d, Recorded { t with map := m } key d ↔ t.Recorded key d := fun d =>
    h.segmentFor_rel (R := fun s s' => s'.Recorded key d ↔ s.Recorded key d) (fun _ => Iff.rfl)
      (recorded_congr hrecords key d) key
  simp only [AgreesOn, hrecorded]

/-- A write of `key` with the number `d` leaves the map `m`: it changes the segment of the key, and
no record. -/
def Writes (t : Tracking K V n) (key : K) (d : Int) (m : ConcurrentEntriesMap K V n) : Prop :=
  ∃ s, Touches (t.map.segmentIdx key) s t.map m ∧
    Leaves (t.map.segmentFor key) s key (LeftUnbound (t.map.segmentFor key) key d) ∧
    KeepsRecords (t.map.segmentFor key) s

section
variable (region : RegionInternal K V D M) {t : Tracking K V n} (ht : t.Inv)
include ht

variable {key : K} {s : MapSegment K V} {m : ConcurrentEntriesMap K V n}

omit [NeZero n] in
theorem Inv.touch {i : Fin n} (h : Touches i s t.map m)
    (hflag : s.concurrencyChecksEnabled = false)
    (hcount : s.numDestroyTrackers = (t.map.segments i).numDestroyTrackers)
    (hshaped : ∀ k, ShapedAt (s.find k)) (clears : List (Fin n)) : Inv ⟨m, t.live, clears⟩ where
  flag := h.forall_segments (P := fun s => s.concurrencyChecksEnabled = false) ht.flag hflag
  count := h.forall_segments (P := fun s => s.numDestroyTrackers = t.live.length) ht.count
    (hcount.trans (ht.count i))
  positive := ht.positive
  shaped := h.forall_segments (P := fun s => ∀ k, ShapedAt (s.find k)) ht.shaped hshaped

theorem Inv.sets (h : Touches (t.map.segmentIdx key) s t.map m) {x : Option (MapEntry K V)}
    (hx : ShapedAt x) (hsets : SetsAt key x (t.map.segmentFor key) s)
    (hcount : s.numDestroyTrackers = (t.map.segmentFor key).numDestroyTrackers) :
    Inv { t with map := m } := by
  apply ht.touch h (hsets.flag.trans (ht.flag _)) hcount
  intro k
  rw [hsets.find]
  split
  · exact hx
  · exact ht.shaped _ k

theorem Inv.write {d : Int} (h : t.Writes key d m) : Inv { t with map := m } := by
  obtain ⟨s, htouch, ⟨x, hshape, hsets, -⟩, hkeeps⟩ := h
  exact ht.sets htouch hshape hsets hkeeps.numDestroyTrackers

section
variable (key : K) (newValue : CacheablePtr V) (d : Int) (versionTag : Option VersionTag)

theorem writes_create : t.Writes key d (t.map.create region key newValue (-1) d versionTag).2 :=
  ⟨_, (forwards_create ..).touches,
    leaves_create region _ key newValue d versionTag (ht.flag _) (ht.shaped _ key),
    .ofWrite (.create ..)⟩

theorem writes_put : t.Writes key d (t.map.put region key newValue (-1) d versionTag none).2 :=
  ⟨_, (forwards_put ..).touches,
    leaves_put region _ key newValue d versionTag (ht.flag _) (ht.shaped _ key),
    .ofWrite (.put ..)⟩

end

theorem Inv.pos {o : Operation K} (ho : o ∈ t.live) (key : K) :
    0 < (t.map.segmentFor key).numDestroyTrackers := by
  rw [segmentFor, ht.count]
  exact Int.natCast_pos.mpr (length_pos_of_mem ho)

theorem Inv.step (a : TrackingOp K V n) : Inv (t.step region a) := by
  cases a with
  | trackSegment index =>
    have htracks := tracksBound_addTrackerForAllEntries (t.map.segments index) (ht.shaped index) ∅
    exact ht.touch (.withSegment ..) (htracks.records.flag.trans (ht.flag index))
      htracks.records.numDestroyTrackers (fun k => htracks.shaped k (ht.shaped index k)) t.clears
  | register =>
    have hcount : t.map.numDestroyTrackers = t.live.length := ht.count 0
    refine ⟨ht.flag, fun i => ?_, fun o ho => ?_, ht.shaped⟩
    · show t.map.numDestroyTrackers + 1 = _
      rw [hcount, Tracking.step, length_append]
      rfl
    · rcases mem_append.mp ho with hold | hnew
      · exact ht.positive o hold
      · rw [mem_singleton.mp hnew]
        show 0 < t.map.numDestroyTrackers + 1
        omega
  | create op key newValue versionTag =>
    exact ht.write (writes_create region ht key newValue _ versionTag)
  | put op key newValue versionTag =>
    exact ht.write (writes_put region ht key newValue _ versionTag)
  | remove key versionTag afterRemote =>
    obtain ⟨hsets, hcount, -⟩ := remove_untracked region (t.map.segmentFor key) key versionTag
      afterRemote (ht.flag _)
    have hmap := ht.sets (forwards_remove ..).touches shapedAt_none hsets hcount
    refine ⟨hmap.flag, fun i => ?_, fun o ho => ?_, hmap.shaped⟩
    · rw [Tracking.step, length_map]
      exact hmap.count i
    · obtain ⟨o', ho', rfl⟩ := mem_map.mp ho
      exact ht.positive o' ho'
  | unregister op =>
    simp only [Tracking.step]
    split
    · rename_i hop
      have hcount : t.map.numDestroyTrackers = t.live.length := ht.count 0
      refine ⟨ht.flag, fun i => ?_, fun o ho => ?_, ht.shaped⟩
      · show t.map.numDestroyTrackers - 1 = _
        rw [length_eraseIdx_of_lt hop]
        omega
      · exact ht.positive o (mem_of_mem_eraseIdx ho)
    · exact ht
  | clearDestroyed i =>
    simp only [Tracking.step]
    split
    · rename_i index hindex
      rw [removeDestroyTracking_disabled (ht.flag index)]
      exact ht.touch (.withSegment t.map index { t.map.segments index with destroyedKeys := ∅ })
        (ht.flag index) rfl (ht.shaped index) _
    · exact ht

end

/-! ### When a step keeps the answers right -/

/-- The condition of a step on the state before it. The two-way condition of a write is for a key
that is bound to the tombstone token; no map without concurrency checks makes one, but a writer may
pass it as a value. -/
def Sound (t : Tracking K V n) : TrackingOp K V n → Prop
  | .trackSegment _ => True
  -- no missing key has a record that is newer than the number that is handed out
  | .register => ∀ key, t.map.find key = none → ¬ t.Recorded key (t.map.numDestroyTrackers + 1)
  | .create op key _ _ =>
    DropsTombstone (t.map.segmentFor key) key (-1) (t.destroyTracker op) → t.AgreesOn key
  | .put op key _ _ =>
    DropsTombstone (t.map.segmentFor key) key (-1) (t.destroyTracker op) → t.AgreesOn key
  -- the record for a missing key is newer than every number; a bound key has one already
  | .remove key _ _ => ∀ o ∈ t.live,
      (t.map.find key = none → o.destroyTracker ≤ t.map.numDestroyTrackers) ∧
      (t.map.find key ≠ none → t.Recorded key o.destroyTracker)
  | .unregister _ => True
  -- no record that is cleared is about a registered operation
  | .clearDestroyed i => ∀ index, t.clears[i]? = some index →
      ∀ key, t.map.segmentIdx key = index → t.map.find key = none → ∀ o ∈ t.live, key ∉ o.removed

section
variable (region : RegionInternal K V D M) {t : Tracking K V n} (hagrees : t.Agrees)
include hagrees

/-- A write of `key`. The other keys keep their bindings, and no record changes. -/
theorem agrees_write_iff {key : K} {d : Int} {m : ConcurrentEntriesMap K V n}
    (h : t.Writes key d m) : Agrees { t with map := m } ↔
      (DropsTombstone (t.map.segmentFor key) key (-1) d → t.AgreesOn key) := by
  obtain ⟨s, htouch, ⟨x, -, hsets, hunbound⟩, hkeeps⟩ := h
  have hfind := htouch.find hsets
  have hon := agreesOn_touch htouch hkeeps.destroyedKeys
  constructor
  · intro hall hdrops
    refine (hon key).mp (hall key ?_)
    show m.find key = none
    rw [hfind, if_pos rfl, hunbound]
    exact Or.inr hdrops
  · intro hcond k hk
    have hk : (if k = key then x else t.map.find k) = none := (hfind k).symm.trans hk
    rw [hon]
    split at hk
    · next hkey =>
      subst hkey
      -- a key that is missing after the write was missing before, or lost its tombstone token
      cases hunbound.mp hk with
      | inl hmissing => exact hagrees k hmissing.1
      | inr hdrops => exact hcond hdrops
    · exact hagrees k hk

theorem agrees_register_iff : Agrees (t.step region .register) ↔ t.Sound .register := by
  constructor
  · intro hall key hkey hrec
    have hnew := hall key hkey ⟨t.map.numDestroyTrackers + 1, []⟩
      (mem_append_right _ (mem_singleton_self _))
    exact not_mem_nil (hnew.mp hrec)
  · intro hsound key hkey o ho
    rcases mem_append.mp ho with hold | hnew
    · exact hagrees key hkey o hold
    · rw [mem_singleton.mp hnew]
      exact iff_of_false (hsound key hkey) not_mem_nil

theorem agrees_unregister (op : Nat) : Agrees (t.step region (.unregister op)) := by
  simp only [step]
  split
  · intro key hkey o ho
    exact hagrees key hkey o (mem_of_mem_eraseIdx ho)
  · exact hagrees

theorem agrees_clearDestroyed_iff (ht : t.Inv) (i : Nat) :
    Agrees (t.step region (.clearDestroyed i)) ↔ t.Sound (.clearDestroyed i) := by
  cases hindex : t.clears[i]? with
  | none =>
    simp only [step, Sound, hindex]
    exact iff_of_true hagrees (by simp)
  | some index =>
    simp only [step, Sound, hindex, Option.some.injEq, forall_eq']
    have htouch := Touches.withSegment t.map index (t.map.segments index).removeDestroyTracking
    have hfind : ∀ k, (t.map.withSegment index
        (t.map.segments index).removeDestroyTracking).find k = t.map.find k := by
      intro k
      refine htouch.segmentFor_rel (R := fun s s' => s'.find k = s.find k) (fun _ => rfl) ?_ k
      rw [removeDestroyTracking_disabled (ht.flag index)]
      rfl
    constructor
    · intro hall key hkey hmissing o ho hmem
      have hrec := (hall key ((hfind key).trans hmissing) o ho).mpr hmem
      rw [Recorded, htouch.segmentFor_self hkey] at hrec
      exact not_recorded_removeDestroyTracking (ht.flag index) key o.destroyTracker hrec
    · intro hsound key hkey o ho
      have hmissing : t.map.find key = none := (hfind key).symm.trans hkey
      by_cases hidx : t.map.segmentIdx key = index
      · rw [Recorded, htouch.segmentFor_self hidx]
        exact iff_of_false
          (not_recorded_removeDestroyTracking (ht.flag index) key o.destroyTracker)
          (hsound key hidx hmissing o ho)
      · rw [Recorded, htouch.segmentFor_ne hidx]
        exact hagrees key hmissing o ho

theorem agrees_remove_iff (ht : t.Inv) (key : K) (versionTag : Option VersionTag)
    (afterRemote : Bool) : Agrees (t.step region (.remove key versionTag afterRemote)) ↔
      t.Sound (.remove key versionTag afterRemote) := by
  obtain ⟨hsets, -, hrecords⟩ := remove_untracked region (t.map.segmentFor key) key versionTag
    afterRemote (ht.flag _)
  have htouch := (forwards_remove region t.map key (-1) versionTag afterRemote).touches
  have hcount : (t.map.segmentFor key).numDestroyTrackers = t.map.numDestroyTrackers :=
    (ht.count _).trans (ht.count 0).symm
  -- the removed key: missing afterwards, and on record by what was bound before
  have hself := (htouch.find hsets key).trans (if_pos rfl)
  have hrecSelf : ∀ o ∈ t.live,
      (Recorded (t.step region (.remove key versionTag afterRemote)) key o.destroyTracker ↔
        (t.map.find key = none → o.destroyTracker ≤ t.map.numDestroyTrackers) ∧
        (t.map.find key ≠ none → t.Recorded key o.destroyTracker)) := by
    intro o ho
    rw [Recorded, show (t.step region (.remove key versionTag afterRemote)).map.segmentFor key = _
      from htouch.segmentFor_self rfl]
    by_cases hmissing : t.map.find key = none
    · rw [if_pos ⟨hmissing, ht.pos ho key⟩] at hrecords
      rw [recorded_insert_self hrecords, hcount, forall_prop_of_true hmissing,
        and_iff_left fun h => absurd hmissing h]
      omega
    · rw [if_neg fun h => hmissing h.1] at hrecords
      rw [recorded_congr hrecords, and_iff_right fun h => absurd h hmissing]
      exact ⟨fun h _ => h, fun h => h hmissing⟩
  have hrecOther : ∀ k, k ≠ key → ∀ d,
      (Recorded (t.step region (.remove key versionTag afterRemote)) k d ↔ t.Recorded k d) := by
    intro k hk d
    refine htouch.segmentFor_rel (R := fun s s' => s'.Recorded k d ↔ s.Recorded k d)
      (fun _ => Iff.rfl) ?_ k
    split at hrecords
    · rw [MapSegment.Recorded, hrecords, AList.lookup_insert_ne hk]
      rfl
    · exact recorded_congr hrecords k d
  constructor
  · intro hall o ho
    have hnew := hall key hself { o with removed := key :: o.removed }
      (mem_map_of_mem ho)
    exact (hrecSelf o ho).mp (hnew.mpr mem_cons_self)
  · intro hsound k hk o' ho'
    obtain ⟨o, ho, rfl⟩ := mem_map.mp ho'
    by_cases hkey : k = key
    · subst hkey
      exact iff_of_true ((hrecSelf o ho).mpr (hsound o ho)) mem_cons_self
    · have hfind := (htouch.find hsets k).trans (if_neg hkey)
      have hmissing : t.map.find k = none := hfind.symm.trans hk
      rw [hrecOther k hkey, hagrees k hmissing o ho, mem_cons, or_iff_right hkey]

/-- A step keeps the records right exactly when it meets its condition. -/
theorem agrees_step_iff (ht : t.Inv) (a : TrackingOp K V n) :
    Agrees (t.step region a) ↔ t.Sound a := by
  cases a with
  | trackSegment index =>
    have htracks := tracksBound_addTrackerForAllEntries (t.map.segments index) (ht.shaped index) ∅
    have htouch := Touches.withSegment t.map index
      ((t.map.segments index).addTrackerForAllEntries ∅).2
    refine iff_of_true ?_ trivial
    intro key hkey
    have hmissing : t.map.find key = none :=
      (htouch.segmentFor_rel (R := fun s s' => s'.find key = none ↔ s.find key = none)
        (fun _ => Iff.rfl) (htracks.unbound key) key).mp hkey
    exact (agreesOn_touch htouch htracks.records.destroyedKeys key).mpr (hagrees key hmissing)
  | register => exact agrees_register_iff region hagrees
  | create op key newValue versionTag =>
    exact agrees_write_iff hagrees (writes_create region ht key newValue _ versionTag)
  | put op key newValue versionTag =>
    exact agrees_write_iff hagrees (writes_put region ht key newValue _ versionTag)
  | remove key versionTag afterRemote =>
    exact agrees_remove_iff region hagrees ht key versionTag afterRemote
  | unregister op => exact iff_of_true (agrees_unregister region hagrees op) trivial
  | clearDestroyed i => exact agrees_clearDestroyed_iff region hagrees ht i

end

/-! ### The answers -/

section
variable (region : RegionInternal K V D M) (t : Tracking K V n) (key : K)
  (newValue : CacheablePtr V) (destroyTracker : Int) (versionTag : Option VersionTag)

/-- The `put` is answered with `GF_CACHE_ENTRY_UPDATED` and does not add the key. -/
def PutRefused : Prop :=
  let r := t.map.put region key newValue (-1) destroyTracker versionTag none
  (∃ res, r.1 = .ok res ∧ res.err = .cacheEntryUpdated) ∧ r.2.find key = none

/-- The `create` is answered with `GF_CACHE_ENTRY_UPDATED` and does not add the key. -/
def CreateRefused : Prop :=
  let r := t.map.create region key newValue (-1) destroyTracker versionTag
  (∃ res, r.1 = .ok res ∧ res.err = .cacheEntryUpdated) ∧ r.2.find key = none

end

/-- Every `put` and `create` of a registered operation on a missing key is refused exactly when a
`remove` of the key was received since the operation got its number. -/
def Correct (region : RegionInternal K V D M) (t : Tracking K V n) : Prop :=
  ∀ o ∈ t.live, ∀ key, t.map.find key = none → ∀ newValue versionTag,
    (t.PutRefused region key newValue o.destroyTracker versionTag ↔ key ∈ o.removed) ∧
    (t.CreateRefused region key newValue o.destroyTracker versionTag ↔ key ∈ o.removed)

section
variable (region : RegionInternal K V D M) {t : Tracking K V n} (ht : t.Inv) {key : K}
  (hkey : t.map.find key = none) (newValue : CacheablePtr V) {o : Operation K} (ho : o ∈ t.live)
  (versionTag : Option VersionTag)

theorem aborts_iff_recorded (ht : t.Inv) (key : K) (ho : o ∈ t.live) :
    (t.map.segmentFor key).putNoEntryAborts key (-1) o.destroyTracker = true ↔
      t.Recorded key o.destroyTracker :=
  putNoEntryAborts_iff (ht.flag _) (ht.pos ho key) key (ht.positive o ho)

/-- The key that a refused write leaves missing. -/
theorem find_unbound_of_aborts {m : ConcurrentEntriesMap K V n} {d : Int} (h : t.Writes key d m)
    (hkey : t.map.find key = none) :
    m.find key = none ↔ (t.map.segmentFor key).putNoEntryAborts key (-1) d = true := by
  obtain ⟨s, htouch, ⟨x, -, hsets, hunbound⟩, -⟩ := h
  rw [htouch.find hsets, if_pos rfl, hunbound, leftUnbound_of_unbound _ key d hkey]

include ht hkey ho

theorem putRefused_iff : t.PutRefused region key newValue o.destroyTracker versionTag ↔
    t.Recorded key o.destroyTracker := by
  have hfind := find_unbound_of_aborts
    (writes_put region ht key newValue o.destroyTracker versionTag) hkey
  rw [PutRefused, (forwards_put ..).result, hfind, ← aborts_iff_recorded ht key ho]
  rw [ConcurrentEntriesMap.find] at hkey
  simp only [MapSegment.put, find_rehashIfNeeded, hkey, Option.isSome_none, Bool.false_eq_true,
    if_false, Except.ok.injEq, exists_eq_left', putNoEntry_refused_iff,
    putNoEntryAborts_rehashIfNeeded, and_self]

theorem createRefused_iff : t.CreateRefused region key newValue o.destroyTracker versionTag ↔
    t.Recorded key o.destroyTracker := by
  have hfind := find_unbound_of_aborts
    (writes_create region ht key newValue o.destroyTracker versionTag) hkey
  rw [CreateRefused, (forwards_create ..).result, hfind, ← aborts_iff_recorded ht key ho]
  rw [ConcurrentEntriesMap.find] at hkey
  simp only [MapSegment.create, find_rehashIfNeeded, hkey, Except.ok.injEq, exists_eq_left',
    putNoEntry_refused_iff, putNoEntryAborts_rehashIfNeeded, and_self]

end

theorem correct_iff_agrees (region : RegionInternal K V D M) {t : Tracking K V n} (ht : t.Inv) :
    t.Correct region ↔ t.Agrees := by
  constructor
  · intro hcorrect key hkey o ho
    rw [← putRefused_iff region ht hkey .null ho none]
    exact (hcorrect o ho key hkey .null none).1
  · intro hagrees o ho key hkey newValue versionTag
    rw [putRefused_iff region ht hkey newValue ho versionTag,
      createRefused_iff region ht hkey newValue ho versionTag]
    exact ⟨hagrees key hkey o ho, hagrees key hkey o ho⟩

/-- In every interleaving, from a new map: the answers are right in every state that is reached
exactly when every step meets its condition. -/
theorem destroyTracking_iff (region : RegionInternal K V D M) (hashcode : K → BitVec 32)
    (primeIndex : Nat) (l : List (TrackingOp K V n)) :
    (∀ pre, pre <+: l → Correct region (run (step region) («open» hashcode primeIndex) pre)) ↔
      Along (step region) Sound («open» hashcode primeIndex) l := by
  have hinv : Inv («open» hashcode primeIndex : Tracking K V n) :=
    ⟨fun _ => rfl, fun _ => rfl, fun _ h => (nomatch h), fun _ _ => shapedAt_none⟩
  have hstep : ∀ (t : Tracking K V n) a, Inv t → True → Correct region t →
      (Correct region (t.step region a) ↔ t.Sound a) := by
    intro t a ht _ hcorrect
    rw [correct_iff_agrees region (ht.step region a)]
    exact agrees_step_iff region ((correct_iff_agrees region ht).mp hcorrect) ht a
  exact always_iff (fun t a ht _ => ht.step region a) hstep hinv
    ((correct_iff_agrees region hinv).mpr fun _ _ _ h => nomatch h)
    (along_of_forall (fun _ _ => trivial) _ l)

/-- One operation and a `remove` of a missing key: the steps meet the condition, and the answers are
right. -/
theorem destroyTracking_one_operation :
    let l : List (TrackingOp Nat Nat 1) := [.register, .remove 7 none false]
    Along (step MapSegment.natRegion) Sound («open» (fun _ => 0) 0) l ∧
      Correct MapSegment.natRegion
        (run (step MapSegment.natRegion) («open» (fun _ => 0) 0) l) := by
  intro l
  have hsound : Along (step MapSegment.natRegion) Sound («open» (fun _ => 0) 0) l := by
    refine ⟨?_, ?_, trivial⟩
    · rintro key - ⟨pos, hpos, -⟩
      cases hpos
    · intro o ho
      cases mem_singleton.mp ho
      exact ⟨fun _ => Int.le_refl 1, fun h => absurd rfl h⟩
  exact ⟨hsound, (destroyTracking_iff MapSegment.natRegion (fun _ => 0) 0 l).mpr hsound l
    (List.prefix_refl l)⟩

/-- Two operations register and the first one ends. The counter is 1, so the `remove` is recorded
under 2, and the second operation, whose number is 2, puts the key back. -/
theorem put_undoes_remove :
    let t := run (step MapSegment.natRegion) («open» (fun _ => 0) 0 : Tracking Nat Nat 1)
      [.register, .register, .unregister 0, .remove 7 none false]
    t.live = [⟨2, [7]⟩] ∧ t.map.find 7 = none ∧
      ¬ t.PutRefused MapSegment.natRegion 7 (.object 5) 2 none := by
  refine ⟨rfl, rfl, ?_⟩
  rintro ⟨-, hfind⟩
  cases hfind

/-! ### The calls on the whole map -/

end Tracking

namespace MapSegment

variable {K V : Type} [DecidableEq K]

/-- The map of counters is only filled; the segment does not depend on it. -/
theorem addTrackers_state (l : List (Sigma fun _ : K => MapEntry K V)) (s : MapSegment K V)
    (newEntry : Option (MapEntry K V)) (c c' : AList fun _ : K => Int) :
    (s.addTrackers newEntry c l).2 = (s.addTrackers newEntry c' l).2 := by
  induction l generalizing s newEntry c c' with
  | nil => rfl
  | cons b l ih =>
    obtain ⟨boundKey, entry⟩ := b
    simp only [addTrackers]
    split
    · rfl
    · split
      · rfl
      · apply ih

end MapSegment

namespace Tracking

open ConcurrentEntriesMap

variable {K V D M : Type} {n : Nat} [NeZero n] [DecidableEq K] (region : RegionInternal K V D M)

/-- The loop of `addTrackerForAllEntries`, when it does not stop at an error. -/
theorem run_trackSegment (l : List (Fin n)) (t : Tracking K V n) (c : AList fun _ : K => Int)
    {c' : AList fun _ : K => Int} (h : (t.map.trackSegments c l).1 = .ok c') :
    run (step region) t (l.map .trackSegment) = { t with map := (t.map.trackSegments c l).2 } := by
  induction l generalizing t c with
  | nil => rfl
  | cons index l ih =>
    have hstate : ((t.map.segments index).addTrackerForAllEntries ∅).2 =
        ((t.map.segments index).addTrackerForAllEntries c).2 := by
      unfold MapSegment.addTrackerForAllEntries
      split
      · rfl
      · exact MapSegment.addTrackers_state _ _ none ∅ c
    cases hseg : ((t.map.segments index).addTrackerForAllEntries c).1 with
    | error x =>
      simp only [trackSegments, hseg] at h
      cases h
    | ok c₁ =>
      simp only [trackSegments, hseg] at h ⊢
      rw [← hstate] at h ⊢
      exact ih (t.step region (.trackSegment index)) c₁ h

/-- `addTrackerForAllEntries` that nothing interrupts is the steps over the segments and then the
registration, and the number that it returns is the number of the new operation. -/
theorem run_addTrackerForAllEntries (t : Tracking K V n)
    (hdis : t.map.concurrencyChecksEnabled = false) (c : AList fun _ : K => Int) {d : Int}
    {c' : AList fun _ : K => Int} (h : (t.map.addTrackerForAllEntries c true).1 = .ok (d, c')) :
    run (step region) t ((finRange n).map .trackSegment ++ [.register]) =
      ⟨(t.map.addTrackerForAllEntries c true).2, t.live ++ [⟨d, []⟩], t.clears⟩ := by
  have hflag := Bool.eq_false_iff.mp hdis
  cases hloop : (t.map.trackSegments c (finRange n)).1 with
  | error x =>
    simp only [addTrackerForAllEntries, if_neg hflag, hloop] at h
    cases h
  | ok c₁ =>
    simp only [addTrackerForAllEntries, if_neg hflag, hloop, if_true] at h ⊢
    cases h
    rw [run_append, run_trackSegment region _ t c hloop]
    rfl

/-- The loop of `removeDestroyTracking`. The segments that are left stand after the ones that other
calls still have to clear. -/
theorem run_clearDestroyed (l : List (Fin n)) (t : Tracking K V n) (rest : List (Fin n))
    (hclears : t.clears = rest ++ l) :
    run (step region) t (replicate l.length (.clearDestroyed rest.length)) =
      ⟨{ t.map with segments := fun i =>
          if i ∈ l then (t.map.segments i).removeDestroyTracking else t.map.segments i },
        t.live, rest⟩ := by
  induction l generalizing t with
  | nil =>
    rw [append_nil] at hclears
    simp [← hclears]
  | cons index l ih =>
    have hget : t.clears[rest.length]? = some index := by
      rw [hclears, getElem?_append_right (Nat.le_refl _), Nat.sub_self]
      rfl
    have herase : t.clears.eraseIdx rest.length = rest ++ l := by
      rw [hclears, eraseIdx_append_of_length_le (Nat.le_refl _), Nat.sub_self]
      rfl
    have hstep : t.step region (.clearDestroyed rest.length) =
        ⟨t.map.withSegment index (t.map.segments index).removeDestroyTracking, t.live,
          rest ++ l⟩ := by
      simp only [step, hget, herase]
    rw [length_cons, replicate_succ, run_cons, hstep, ih _ rfl]
    congr 1
    dsimp only [withSegment]
    congr 1
    funext i
    -- a segment that comes twice is cleared twice, which is the same
    by_cases hi : i = index
    · subst hi
      simp only [Function.update_self, mem_cons_self, if_true]
      split
      · unfold MapSegment.removeDestroyTracking
        split <;> rfl
      · rfl
    · simp only [Function.update_of_ne hi, mem_cons, hi, false_or]

/-- `removeDestroyTracking` that nothing interrupts is the end of the registration and then, when
the counter is zero, the steps over the segments. -/
theorem run_removeDestroyTracking (t : Tracking K V n)
    (hdis : t.map.concurrencyChecksEnabled = false) {op : Nat} (hop : op < t.live.length) :
    run (step region) t (.unregister op ::
        replicate (if t.map.numDestroyTrackers - 1 = 0 then n else 0)
          (.clearDestroyed t.clears.length)) =
      ⟨t.map.removeDestroyTracking, t.live.eraseIdx op, t.clears⟩ := by
  have hflag := Bool.eq_false_iff.mp hdis
  have hcount : (t.map.setNumDestroyTrackers (t.map.numDestroyTrackers - 1)).numDestroyTrackers =
      t.map.numDestroyTrackers - 1 := rfl
  rw [run_cons]
  simp only [step, if_pos hop, ConcurrentEntriesMap.removeDestroyTracking, if_neg hflag, hcount]
  by_cases hzero : t.map.numDestroyTrackers - 1 = 0
  · simp only [if_pos hzero]
    have hloop := run_clearDestroyed region (finRange n)
      ⟨t.map.setNumDestroyTrackers (t.map.numDestroyTrackers - 1), t.live.eraseIdx op,
        t.clears ++ finRange n⟩ t.clears rfl
    rw [length_finRange] at hloop
    rw [hloop]
    simp only [mem_finRange, if_true]
  · simp only [if_neg hzero]
    rfl

end Tracking

end GeodeNative.Cache

import GeodeNative.Proofs.Cache.Segment

/-!
# A segment without concurrency checks

Without concurrency checks a segment tracks its entries. An entry that no tracker touched is
`Untracked`. The first tracker runs placement new on the object, so the entry of a tracked key
is `Wiped`: it has no value, and `getImplPtr` throws. Each operation keeps this (`Shaped`).

The lemmas say what each operation does to the key it names, for an unbound key, for a wiped
entry and for an untracked entry. `create`, `put`, `invalidate` and `removeTrackerForEntry`
throw on a wiped entry. `remove` unbinds it and then throws or reports an update.
-/

set_option autoImplicit false

namespace GeodeNative.Cache.MapSegment

variable {K V D M : Type}

/-- An object that placement new never touched, so with both counters zero. -/
structure Untracked (o : MapEntryImpl K V) : Prop where
  weakThis : o.weakThis = true
  numTrackers : o.numTrackers = 0
  updateCount : o.updateCount = 0

/-- An object after placement new. -/
structure Wiped (o : MapEntryImpl K V) : Prop where
  weakThis : o.weakThis = false
  value : o.value = .null

/-- The entries of a segment without concurrency checks. -/
def Shaped (e : MapEntry K V) : Prop := ∃ o, e = .impl o ∧ (Untracked o ∨ Wiped o)

/-- A lookup that finds nothing or a shaped entry. -/
def ShapedAt (x : Option (MapEntry K V)) : Prop := ∀ e, x = some e → Shaped e

theorem wiped_placementNew (addr n u : Nat) :
    Wiped (MapEntryImpl.placementNew addr n u : MapEntryImpl K V) :=
  ⟨rfl, rfl⟩

variable {o : MapEntryImpl K V}

theorem Untracked.setValueI (ho : Untracked o) (v : CacheablePtr V) : Untracked (o.setValueI v) :=
  ⟨ho.weakThis, ho.numTrackers, ho.updateCount⟩

theorem shapedAt_none : ShapedAt (none : Option (MapEntry K V)) := by
  intro e h
  cases h

theorem Untracked.shapedAt (ho : Untracked o) : ShapedAt (some (.impl o)) := by
  intro e h
  cases h
  exact ⟨o, rfl, .inl ho⟩

theorem Wiped.shapedAt (ho : Wiped o) : ShapedAt (some (.impl o)) := by
  intro e h
  cases h
  exact ⟨o, rfl, .inr ho⟩

theorem withImplPtr_wiped {α : Type} (s : MapSegment K V) (ho : Wiped o)
    (f : MapEntryImpl K V → Except CacheException α × MapSegment K V) :
    s.withImplPtr (.impl o) f = (.error .badWeakPtr, s) := by
  simp [withImplPtr, MapEntry.getImplPtr, MapEntryImpl.sharedFromThis, ho.weakThis]

/-- The delta branch of a put reaches `fromDelta`: there is a value in memory or on disk. -/
def ReachesFromDelta (region : RegionInternal K V D M) (key : K) (e : MapEntryImpl K V)
    (delta : Option D) : Prop :=
  delta.isSome ∧ ∃ v, e.getValueI = .object v ∨
    (e.getValueI = .token .overflowed ∧ region.getFromDisk key e = some v)

variable (region : RegionInternal K V D M)

/-- A delta is refused and keeps the object, or it reaches `fromDelta`, and then it changes at most
the value, to a value of the application. -/
theorem applyDelta_cases (k : K) (o : MapEntryImpl K V) (d : D) :
    applyDelta region k o d = (.invalidDelta, o) ∨
    ReachesFromDelta region k o (some d) ∧
      ∃ w err, (err = .noErr ∨ err = .invalidDelta) ∧
        applyDelta region k o d = (err, o.setValueI (.object w)) := by
  unfold applyDelta
  cases hvalue : o.getValueI with
  | null => exact .inl rfl
  | object w =>
    have hreaches : ReachesFromDelta region k o (some d) := ⟨rfl, w, .inl hvalue⟩
    by_cases hclone : region.cloningEnabled = true
    · cases hthrew : (region.fromDelta (region.clone w) d).2
      · exact .inr ⟨hreaches, _, .noErr, .inl rfl, by simp [hclone, hthrew]; rfl⟩
      · exact .inl (by simp [hclone, hthrew])
    · cases hthrew : (region.fromDelta w d).2
      · exact .inr ⟨hreaches, _, .noErr, .inl rfl, by simp [hclone, hthrew]; rfl⟩
      · exact .inr ⟨hreaches, _, .invalidDelta, .inr rfl, by simp [hclone, hthrew]; rfl⟩
  | token t =>
    cases t with
    | overflowed =>
      cases hdisk : region.getFromDisk k o with
      | none => exact .inl rfl
      | some w =>
        cases hthrew : (region.fromDelta (if region.cloningEnabled then region.clone w else w) d).2
        · exact .inr ⟨⟨rfl, w, .inr ⟨hvalue, hdisk⟩⟩, _, .noErr, .inl rfl,
            by simp [hthrew]; rfl⟩
        · exact .inl (by simp [hthrew])
    | _ => exact .inl rfl

section
variable (k : K) (o : MapEntryImpl K V) (v : CacheablePtr V) (delta : Option D)

theorem updateObj_eq :
    (updateObj region k o v delta).2 = o ∨ (updateObj region k o v delta).2 = o.setValueI v ∨
    ∃ w, (updateObj region k o v delta).2 = o.setValueI (.object w) := by
  cases delta with
  | none => exact .inr (.inl rfl)
  | some d =>
    rcases applyDelta_cases region k o d with h | ⟨-, w, err, -, h⟩
    · exact .inl (congrArg Prod.snd h)
    · exact .inr (.inr ⟨w, congrArg Prod.snd h⟩)

theorem updateObj_keeps :
    (updateObj region k o v delta).2.weakThis = o.weakThis ∧
      (updateObj region k o v delta).2.key = o.key ∧
      (updateObj region k o v delta).2.stamp = o.stamp := by
  rcases updateObj_eq region k o v delta with h | h | ⟨w, h⟩ <;> rw [h] <;> exact ⟨rfl, rfl, rfl⟩

end

theorem updateObj_value (k : K) {v : CacheablePtr V} (delta : Option D) {P : CacheablePtr V → Prop}
    (hold : P o.value) (hnew : P v) (hdelta : ∀ w, P (.object w)) :
    P (updateObj region k o v delta).2.value := by
  rcases updateObj_eq region k o v delta with h | h | ⟨w, h⟩ <;> rw [h]
  · exact hold
  · exact hnew
  · exact hdelta w

theorem Untracked.updateObj (ho : Untracked o) (region : RegionInternal K V D M) (k : K)
    (v : CacheablePtr V) (delta : Option D) :
    Untracked (MapSegment.updateObj region k o v delta).2 := by
  rcases updateObj_eq region k o v delta with h | h | ⟨w, h⟩ <;> rw [h]
  · exact ho
  · exact ho.setValueI v
  · exact ho.setValueI (.object w)

variable [DecidableEq K]

section Disabled

variable (region : RegionInternal K V D M) (s : MapSegment K V) (k : K) (v : CacheablePtr V)
  (updateCount destroyTracker : Int) (tag : Option VersionTag)
  (hdis : s.concurrencyChecksEnabled = false)

/-! ### An unbound key -/

@[simp] theorem putNoEntryAborts_rehashIfNeeded :
    s.rehashIfNeeded.putNoEntryAborts k updateCount destroyTracker =
      s.putNoEntryAborts k updateCount destroyTracker := by
  obtain ⟨_, _, h⟩ := rehashIfNeeded_eq s
  rw [h]
  rfl

theorem putNoEntryAborts_withoutCancelTask :
    (s.unguardedRemoveActualEntryWithoutCancelTask k).2.putNoEntryAborts k updateCount
        destroyTracker = s.putNoEntryAborts k updateCount destroyTracker := by
  simp only [unguardedRemoveActualEntryWithoutCancelTask,
    eraseEntryFromTombstoneListWithoutCancelTask]
  split <;> rfl

include hdis

/-- A tracked write of an unbound key always aborts. -/
theorem putNoEntry_tracked (hcount : 0 ≤ updateCount) (stamp : Option VersionStamp) :
    s.putNoEntry k v updateCount destroyTracker tag stamp =
      ((.cacheEntryUpdated, none), s) := by
  have haborts : s.putNoEntryAborts k updateCount destroyTracker = true := by
    simp [putNoEntryAborts, hdis, hcount]
  rw [putNoEntry, if_pos haborts]

/-- A tracked `create` or `put` of an unbound key. -/
theorem create_tracked_unbound (hk : s.find k = none) (hcount : 0 ≤ updateCount) :
    s.create region k v updateCount destroyTracker tag =
      (.ok { err := .cacheEntryUpdated }, s.rehashIfNeeded) := by
  have hdis' : s.rehashIfNeeded.concurrencyChecksEnabled = false := by simpa using hdis
  simp only [create, find_rehashIfNeeded, hk,
    putNoEntry_tracked _ k v updateCount destroyTracker tag hdis' hcount]

@[inherit_doc create_tracked_unbound] theorem put_tracked_unbound (hk : s.find k = none)
    (hcount : 0 ≤ updateCount) :
    s.put region k v updateCount destroyTracker tag none =
      (.ok { err := .cacheEntryUpdated }, s.rehashIfNeeded) := by
  have hdis' : s.rehashIfNeeded.concurrencyChecksEnabled = false := by simpa using hdis
  simp only [put, find_rehashIfNeeded, hk, Option.isSome_none, Bool.false_eq_true, if_false,
    putNoEntry_tracked _ k v updateCount destroyTracker tag hdis' hcount]

variable {o : MapEntryImpl K V}

theorem incrementUpdateCount_untracked (ho : Untracked o) :
    s.incrementUpdateCount k (.impl o) = (.ok false, s.bind k (.impl o)) := by
  have hinc : (MapEntry.impl o).incrementUpdateCount none =
      .ok { count := 0, entry := .impl o, newEntry := none } := by
    simp [MapEntry.incrementUpdateCount, ho.numTrackers, ho.updateCount, gfUpdateMax]
  simp only [incrementUpdateCount, hdis, Bool.false_eq_true, if_false, hinc, MapEntry.bound]
  rfl

/-! ### A wiped entry -/

section Wiped

variable {o : MapEntryImpl K V} (hfind : s.find k = some (.impl o)) (ho : Wiped o)
include hfind ho

omit hdis in
theorem create_wiped : s.create region k v updateCount destroyTracker tag =
    (.error .badWeakPtr, s.rehashIfNeeded) := by
  simp only [create, find_rehashIfNeeded, hfind, withImplPtr_wiped _ ho]

omit hdis in
theorem put_wiped (delta : Option D) :
    s.put region k v updateCount destroyTracker tag delta =
      (.error .badWeakPtr, s.rehashIfNeeded) := by
  simp only [put, find_rehashIfNeeded, hfind, withImplPtr_wiped _ ho]

theorem invalidate_wiped : s.invalidate region k tag = (.error .badWeakPtr, s) := by
  simp only [invalidate, hfind, checkVersion, hdis, Bool.false_eq_true, if_false,
    withImplPtr_wiped _ ho]

theorem removeTrackerForEntry_wiped : s.removeTrackerForEntry k = (.error .badWeakPtr, s) := by
  simp only [removeTrackerForEntry, hdis, Bool.false_eq_true, if_false, hfind,
    withImplPtr_wiped _ ho]

theorem remove_wiped (afterRemote : Bool) :
    (∀ r, (s.remove region k updateCount tag afterRemote).1 = .ok r → r.err ≠ .noErr) ∧
      SetsAt k none s (s.remove region k updateCount tag afterRemote).2 := by
  simp only [remove, hdis, Bool.false_eq_true, if_false, hfind, withImplPtr_wiped _ ho]
  refine ⟨fun r hr => ?_, ?_⟩
  · split at hr
    · cases hr
      simp
    · cases hr
  · split <;> exact SetsAt.unbind s k

end Wiped

/-! ### The operations on the key they name -/

omit hdis in
theorem putNoEntry_setsAt {s₀ : MapSegment K V} (hs : SetsAt k none s₀ s)
    (stamp : Option VersionStamp) :
    (s.putNoEntryAborts k updateCount destroyTracker = true ∧
      (s.putNoEntry k v updateCount destroyTracker tag stamp).1 = (.cacheEntryUpdated, none) ∧
      SetsAt k none s₀ (s.putNoEntry k v updateCount destroyTracker tag stamp).2) ∨
    (s.putNoEntryAborts k updateCount destroyTracker = false ∧ ∃ me o, Untracked o ∧ o.value = v ∧
      (s.putNoEntry k v updateCount destroyTracker tag stamp).1 = (.noErr, me) ∧
      SetsAt k (some (.impl o)) s₀ (s.putNoEntry k v updateCount destroyTracker tag stamp).2) := by
  unfold putNoEntry
  cases s.putNoEntryAborts k updateCount destroyTracker with
  | true => exact .inl ⟨rfl, rfl, hs⟩
  | false =>
    obtain ⟨htrackers, hcount⟩ := newEntry_counters s k v tag stamp
    exact .inr ⟨rfl, _, _, ⟨newEntry_weakThis s k v tag stamp, htrackers, hcount⟩,
      newEntry_value s k v tag stamp, rfl, hs.trans (.bindNew ..)⟩

omit [DecidableEq K] hdis in
/-- What is bound after a tracker was taken from the entry. -/
def released (entry : MapEntry K V) : Option (MapEntry K V) :=
  let r := entry.removeTracker
  if r.1.2 ≤ 0 ∧ r.2.obj.getValueI.isNull then none
  else if r.1.1 then some (.impl r.2.obj)
  else some r.2

theorem removeTracker_setsAt (entry : MapEntry K V) :
    SetsAt k (released entry) s (s.removeTracker k entry) := by
  rw [removeTracker, if_neg (by simp [hdis])]
  simp only [released]
  split_ifs
  · exact .unbind s k
  · exact .bind s k _
  · exact .bind s k _

/-- What `removeTracker` leaves of an untracked entry. -/
def settled (o : MapEntryImpl K V) : Option (MapEntry K V) :=
  if o.getValueI.isNull then none else some (.impl o)

omit [DecidableEq K] hdis in
theorem settled_shapedAt (ho : Untracked o) : ShapedAt (settled o) := by
  unfold settled
  split
  · exact shapedAt_none
  · exact ho.shapedAt

omit [DecidableEq K] hdis in
theorem settled_live (hlive : LiveValue o.value) : settled o = some (.impl o) := by
  rw [settled, getValueI_of_live hlive, hlive.tests.1]
  rfl

theorem removeTracker_untracked (ho : Untracked o) :
    SetsAt k (settled o) s (s.removeTracker k (.impl o)) := by
  have hreleased : released (.impl o) = settled o := by
    simp only [released, settled, MapEntry.removeTracker, ho.numTrackers, if_true, MapEntry.obj,
      le_refl, true_and, Bool.false_eq_true, if_false]
  rw [← hreleased]
  exact removeTracker_setsAt s k hdis _

theorem putForTrackedEntry_untracked (ho : Untracked o) (stamp : VersionStamp) (delta : Option D) :
    ∃ err s', s.putForTrackedEntry region k v (.impl o) updateCount stamp delta = (.ok err, s') ∧
      (updateCount < 0 ∧ err = (updateObj region k o v delta).1 ∧
          SetsAt k (some (.impl (updateObj region k o v delta).2)) s s' ∨
        updateCount = 0 ∧ err = .noErr ∧ SetsAt k (settled (o.setValueI v)) s s' ∨
        0 < updateCount ∧ err = .cacheEntryUpdated ∧ SetsAt k (settled o) s s') := by
  rcases Int.lt_trichotomy updateCount 0 with hneg | hzero | hpos
  · simp only [putForTrackedEntry, hneg, true_or, if_true, MapEntry.obj, MapEntry.mapObj]
    by_cases herr : (updateObj region k o v delta).1 = .noErr
    · -- no tracker, so `incrementUpdateCount` leaves the entry
      simp only [herr, ne_eq, not_true_eq_false, if_false, hdis, Bool.false_eq_true,
        incrementUpdateCount_untracked (s.bind k _) k hdis (ho.updateObj region k v delta),
        Except.map]
      exact ⟨_, _, rfl, .inl ⟨trivial, rfl, (SetsAt.bind s k _).trans (SetsAt.bind _ k _)⟩⟩
    · simp only [herr, ne_eq, not_false_eq_true, if_true]
      exact ⟨_, _, rfl, .inl ⟨trivial, rfl, SetsAt.bind s k _⟩⟩
  · subst hzero
    have hdis' : (s.bind k (.impl (o.setValueI v))).concurrencyChecksEnabled = false := hdis
    simp only [putForTrackedEntry, hdis, MapEntry.mapObj, MapEntry.getUpdateCount, ho.updateCount]
    exact ⟨_, _, rfl, .inr (.inl ⟨trivial, rfl,
      (SetsAt.bind s k _).trans (removeTracker_untracked _ k hdis' (ho.setValueI v))⟩)⟩
  · have hneg : ¬ (updateCount < 0 ∨ s.concurrencyChecksEnabled = true) := by
      simp only [hdis, Bool.false_eq_true, or_false]
      omega
    have hne : ¬ updateCount = ((MapEntry.impl o).getUpdateCount : Int) := by
      simp only [MapEntry.getUpdateCount, ho.updateCount]
      omega
    simp only [putForTrackedEntry, if_neg hneg, if_neg hne]
    exact ⟨_, _, rfl, .inr (.inr ⟨hpos, rfl, removeTracker_untracked s k hdis ho⟩)⟩

omit [DecidableEq K] in
theorem checkVersion_disabled (e : MapEntry K V) (deltaCheck : Bool) :
    s.checkVersion region e tag deltaCheck = .ok {} := by
  simp only [checkVersion, hdis, Bool.false_eq_true, if_false]

omit hdis in
theorem replace_setsAt (stamp : Option VersionStamp) :
    ∃ x, ShapedAt x ∧ SetsAt k x s
      (((s.unguardedRemoveActualEntryWithoutCancelTask k).2.putNoEntry k v updateCount
        destroyTracker tag stamp).2.cancelTask?
          (s.unguardedRemoveActualEntryWithoutCancelTask k).1) ∧
      (x = none ↔ s.putNoEntryAborts k updateCount destroyTracker = true) ∧
      (x ≠ none → (∃ o, x = some (.impl o) ∧ Untracked o ∧ o.value = v) ∧
        ((s.unguardedRemoveActualEntryWithoutCancelTask k).2.putNoEntry k v updateCount
          destroyTracker tag stamp).1.1 = .noErr) := by
  have hremoved := SetsAt.withoutCancelTask s k
  rw [← putNoEntryAborts_withoutCancelTask]
  rcases putNoEntry_setsAt _ k v updateCount destroyTracker tag hremoved stamp with
    ⟨haborts, -, h⟩ | ⟨haborts, me, o, ho, hvalue, herr, h⟩ <;> rw [haborts]
  · exact ⟨none, shapedAt_none, h.cancelTask? _, by simp, absurd rfl⟩
  · exact ⟨some (.impl o), ho.shapedAt, h.cancelTask? _, by simp,
      fun _ => ⟨⟨o, rfl, ho, hvalue⟩, by rw [herr]⟩⟩

theorem putForTrackedEntry_shaped (ho : Untracked o) (stamp : VersionStamp) (delta : Option D) :
    ∃ x, ShapedAt x ∧ SetsAt k x s
      (s.putForTrackedEntry region k v (.impl o) updateCount stamp delta).2 ∧
      (updateCount < 0 → x ≠ none) := by
  obtain ⟨err, s', heq, ⟨-, -, h⟩ | ⟨hcount, -, h⟩ | ⟨hcount, -, h⟩⟩ :=
    putForTrackedEntry_untracked region s k v updateCount hdis ho stamp delta <;> rw [heq]
  · exact ⟨_, (ho.updateObj region k v delta).shapedAt, h, fun _ => Option.some_ne_none _⟩
  · exact ⟨_, settled_shapedAt (ho.setValueI v), h, by omega⟩
  · exact ⟨_, settled_shapedAt ho, h, by omega⟩

/-- A write without a tracker unbinds `x` exactly when it aborts over the tombstone of `o`. -/
def UnbindsIf (o : MapEntryImpl K V) (x : Option (MapEntry K V)) : Prop :=
  updateCount < 0 → (x = none ↔
    o.getValueI.isTombstone = true ∧ s.putNoEntryAborts k updateCount destroyTracker = true)

section
variable (hshape : ShapedAt (s.find k))
include hshape

theorem create_disabled :
    ∃ res s' x, s.create region k v updateCount destroyTracker tag = (res, s') ∧ ShapedAt x ∧
      SetsAt k x s s' ∧
      (s.find k = none ∧ s.putNoEntryAborts k updateCount destroyTracker = true ∧ x = s.find k ∧
          res = .ok { err := .cacheEntryUpdated } ∨
        (s.find k = none ∧ s.putNoEntryAborts k updateCount destroyTracker = false ∧
          ∃ me o, x = some (.impl o) ∧ Untracked o ∧ o.value = v ∧
          res = .ok { err := .noErr, me := me }) ∨
        (∃ o, s.find k = some (.impl o) ∧ Wiped o ∧ x = s.find k ∧ res = .error .badWeakPtr) ∨
        (∃ o, s.find k = some (.impl o) ∧ Untracked o ∧ LiveValue o.value ∧ x = s.find k ∧
          res = .ok { err := .cacheEntryExists, oldValue := o.getValueI }) ∨
        ∃ o, s.find k = some (.impl o) ∧ Untracked o ∧ ¬ LiveValue o.value ∧
          UnbindsIf s k updateCount destroyTracker o x) := by
  have hdis' : s.rehashIfNeeded.concurrencyChecksEnabled = false := by simpa using hdis
  cases hfind : s.find k with
  | none =>
    simp only [create, find_rehashIfNeeded, hfind]
    rcases putNoEntry_setsAt s.rehashIfNeeded k v updateCount destroyTracker tag
        (.rehashIfNeeded hfind) none with
      ⟨haborts, h₁, h₂⟩ | ⟨haborts, me, o, ho, hvalue, h₁, h₂⟩ <;>
      rw [h₁] <;> rw [putNoEntryAborts_rehashIfNeeded] at haborts
    · exact ⟨_, _, _, rfl, shapedAt_none, h₂, .inl ⟨trivial, haborts, rfl, rfl⟩⟩
    · exact ⟨_, _, _, rfl, ho.shapedAt, h₂,
        .inr (.inl ⟨trivial, haborts, me, o, rfl, ho, hvalue, rfl⟩)⟩
  | some e =>
    have hrehash := SetsAt.rehashIfNeeded hfind
    rw [hfind] at hshape
    obtain ⟨o, rfl, ho | ho⟩ := hshape e rfl
    · by_cases hlive : LiveValue o.value
      · have hold := (liveValue_iff o).mp hlive
        simp only [create, find_rehashIfNeeded, hfind, withImplPtr_impl _ ho.weakThis, if_neg hold]
        exact ⟨_, _, _, rfl, hshape, hrehash,
          .inr (.inr (.inr (.inl ⟨o, rfl, ho, hlive, rfl, rfl⟩)))⟩
      · have hold : o.getValueI.isNull = true ∨ o.getValueI.isTombstone = true := by
          have := (liveValue_iff o).not.mp hlive
          simpa only [not_not] using this
        simp only [create, find_rehashIfNeeded, hfind, withImplPtr_impl _ ho.weakThis, if_pos hold,
          checkVersion_disabled region _ tag hdis']
        by_cases hnull : o.getValueI.isNull = true
        · obtain ⟨x, hx, hset, hbound⟩ :=
            putForTrackedEntry_shaped region s.rehashIfNeeded k v updateCount hdis' ho {} none
          simp only [if_pos hnull]
          refine ⟨_, _, x, rfl, hx, hrehash.trans hset,
            .inr (.inr (.inr (.inr ⟨o, rfl, ho, hlive, fun hcount => ?_⟩)))⟩
          simp [hbound hcount, (isNull_iff _).mp hnull]
        · obtain ⟨x, hx, hset, hunbound, -⟩ :=
            replace_setsAt s.rehashIfNeeded k v updateCount destroyTracker tag (some {})
          simp only [if_neg hnull]
          refine ⟨_, _, x, rfl, hx, hrehash.trans hset,
            .inr (.inr (.inr (.inr ⟨o, rfl, ho, hlive, fun _ => ?_⟩)))⟩
          rw [hunbound, putNoEntryAborts_rehashIfNeeded, and_iff_right (hold.resolve_left hnull)]
    · exact ⟨_, _, _, create_wiped region s k v updateCount destroyTracker tag hfind ho, hshape,
        hrehash, .inr (.inr (.inl ⟨o, rfl, ho, rfl, rfl⟩))⟩

/-- `put` without checks. A write without a tracker and a delta sets the value of what is bound. A
live entry keeps a live value when the new value is live, and a successful `put` then reports an
update. -/
theorem put_disabled (delta : Option D) :
    ∃ res s' x, s.put region k v updateCount destroyTracker tag delta = (res, s') ∧ ShapedAt x ∧
      SetsAt k x s s' ∧
      (s.find k = none ∧ x = s.find k ∧
          (delta = none → s.putNoEntryAborts k updateCount destroyTracker = true) ∧
          (∃ err, err ≠ .noErr ∧ res = .ok { err := err }) ∨
        (s.find k = none ∧ s.putNoEntryAborts k updateCount destroyTracker = false ∧
          ∃ me o, x = some (.impl o) ∧ Untracked o ∧ o.value = v ∧
          res = .ok { err := .noErr, me := me }) ∨
        (∃ o, s.find k = some (.impl o) ∧ Wiped o ∧ x = s.find k ∧ res = .error .badWeakPtr) ∨
        ∃ o, s.find k = some (.impl o) ∧ Untracked o ∧
          UnbindsIf s k updateCount destroyTracker o x ∧
          (updateCount < 0 → delta = none → x ≠ none →
            (∃ o', x = some (.impl o') ∧ Untracked o' ∧ o'.value = v) ∧
            ∃ r, res = .ok r ∧ r.err = .noErr) ∧
          (LiveValue o.value → LiveValue v →
            (∃ o', x = some (.impl o') ∧ Untracked o' ∧ LiveValue o'.value) ∧
            ∃ r, res = .ok r ∧ (r.err = .noErr → r.isUpdate = true))) := by
  have hdis' : s.rehashIfNeeded.concurrencyChecksEnabled = false := by simpa using hdis
  cases hfind : s.find k with
  | none =>
    cases delta with
    | some d =>
      simp only [put, find_rehashIfNeeded, hfind, Option.isSome_some, if_true]
      exact ⟨_, _, _, rfl, shapedAt_none, .rehashIfNeeded hfind,
        .inl ⟨trivial, rfl, by simp, .invalidDelta, by simp, rfl⟩⟩
    | none =>
      simp only [put, find_rehashIfNeeded, hfind, Option.isSome_none, Bool.false_eq_true, if_false]
      rcases putNoEntry_setsAt s.rehashIfNeeded k v updateCount destroyTracker tag
          (.rehashIfNeeded hfind) none with
        ⟨haborts, h₁, h₂⟩ | ⟨haborts, me, o, ho, hvalue, h₁, h₂⟩ <;>
        rw [h₁] <;> rw [putNoEntryAborts_rehashIfNeeded] at haborts
      · exact ⟨_, _, _, rfl, shapedAt_none, h₂,
          .inl ⟨trivial, rfl, fun _ => haborts, .cacheEntryUpdated, by simp, rfl⟩⟩
      · exact ⟨_, _, _, rfl, ho.shapedAt, h₂,
          .inr (.inl ⟨trivial, haborts, me, o, rfl, ho, hvalue, rfl⟩)⟩
  | some e =>
    have hrehash := SetsAt.rehashIfNeeded hfind
    rw [hfind] at hshape
    obtain ⟨o, rfl, ho | ho⟩ := hshape e rfl
    · simp only [put, find_rehashIfNeeded, hfind, withImplPtr_impl _ ho.weakThis,
        checkVersion_disabled region _ tag hdis']
      by_cases htomb : o.getValueI.isTombstone = true
      · obtain ⟨x, hx, hset, hunbound, hbound⟩ :=
          replace_setsAt s.rehashIfNeeded k v updateCount destroyTracker tag (some {})
        simp only [if_pos htomb]
        refine ⟨_, _, x, rfl, hx, hrehash.trans hset, .inr (.inr (.inr ⟨o, rfl, ho,
          fun _ => ?_, fun _ _ hne => ⟨(hbound hne).1, _, rfl, (hbound hne).2⟩, fun hlive => ?_⟩))⟩
        · rw [hunbound, putNoEntryAborts_rehashIfNeeded, and_iff_right htomb]
        · exact absurd (.inr htomb) ((liveValue_iff o).mp hlive)
      · simp only [if_neg htomb]
        have hupdate : LiveValue o.value → (!o.getValueI.isNull) = true := by
          intro hlive
          rw [getValueI_of_live hlive, hlive.tests.1]
          rfl
        obtain ⟨err, s', heq, h⟩ :=
          putForTrackedEntry_untracked region s.rehashIfNeeded k v updateCount hdis' ho {} delta
        rw [heq]
        rcases h with ⟨-, rfl, h⟩ | ⟨hcount, rfl, h⟩ | ⟨hcount, rfl, h⟩
        · have hobj := ho.updateObj region k v delta
          refine ⟨_, _, _, rfl, hobj.shapedAt, hrehash.trans h, .inr (.inr (.inr ⟨o, rfl, ho,
            fun _ => by simp [htomb], ?_, fun hlive hv => ⟨⟨_, rfl, hobj, updateObj_value region k
              delta hlive hv liveValue_object⟩, _, rfl, fun herr => ?_⟩⟩))⟩
          · rintro - rfl -
            exact ⟨⟨_, rfl, hobj, rfl⟩, _, rfl, rfl⟩
          · by_cases hno : (updateObj region k o v delta).1 = .noErr
            · simpa only [if_pos hno] using hupdate hlive
            · simp only [if_neg hno] at herr
              exact absurd herr hno
        · exact ⟨_, _, _, rfl, settled_shapedAt (ho.setValueI v), hrehash.trans h,
            .inr (.inr (.inr ⟨o, rfl, ho, fun hneg => by omega, fun hneg => by omega,
              fun hlive hv => ⟨⟨o.setValueI v, settled_live hv, ho.setValueI v, hv⟩, _, rfl,
                fun _ => hupdate hlive⟩⟩))⟩
        · exact ⟨_, _, _, rfl, settled_shapedAt ho, hrehash.trans h,
            .inr (.inr (.inr ⟨o, rfl, ho, fun hneg => by omega, fun hneg => by omega,
              fun hlive hv => ⟨⟨o, settled_live hlive, ho, hlive⟩, _, rfl,
                fun herr => by cases herr⟩⟩))⟩
    · exact ⟨_, _, _, put_wiped region s k v updateCount destroyTracker tag hfind ho delta, hshape,
        hrehash, .inr (.inr (.inl ⟨o, rfl, ho, rfl, rfl⟩))⟩

theorem invalidate_disabled :
    ∃ res s', s.invalidate region k tag = (res, s') ∧
      (∀ r, res = .ok r → r.isTokenAdded = false) ∧ (s' = s ∨
        ∃ o o', s.find k = some (.impl o) ∧ Untracked o ∧ Untracked o' ∧
          o'.value = .token .invalid ∧ SetsAt k (some (.impl o')) s s') := by
  cases hfind : s.find k with
  | none =>
    simp only [invalidate, hfind, hdis, Bool.false_eq_true, if_false]
    exact ⟨_, _, rfl, by rintro r ⟨⟩; rfl, .inl rfl⟩
  | some e =>
    obtain ⟨o, rfl, ho | ho⟩ := hshape e hfind
    · simp only [invalidate, hfind, checkVersion_disabled region s tag hdis,
        withImplPtr_impl _ ho.weakThis]
      by_cases htomb : o.getValueI.isTombstone = true
      · simp only [if_pos htomb]
        exact ⟨_, _, rfl, by rintro r ⟨⟩; rfl, .inl rfl⟩
      · have hobj := ho.setValueI (.token .invalid)
        simp only [if_neg htomb, hdis, Bool.false_eq_true, if_false, MapEntry.mapObj,
          incrementUpdateCount_untracked (s.bind k _) k hdis hobj, Except.map]
        exact ⟨_, _, rfl, by rintro r ⟨⟩; rfl, .inr ⟨o, _, rfl, ho, hobj, rfl,
          (SetsAt.bind s k _).trans (SetsAt.bind _ k _)⟩⟩
    · exact ⟨_, _, invalidate_wiped region s k tag hdis hfind ho, by simp, .inl rfl⟩

theorem remove_disabled (afterRemote : Bool) :
    ∃ res s', s.remove region k updateCount tag afterRemote = (res, s') ∧ SetsAt k none s s' ∧
      (s.find k = none ∧ res = .ok { err := .cacheEntryNotFound } ∨
        (∃ o, s.find k = some (.impl o) ∧ Wiped o ∧ ∀ r, res = .ok r → r.err ≠ .noErr) ∨
        ∃ o, s.find k = some (.impl o) ∧ Untracked o ∧ (0 ≤ updateCount ∧ updateCount ≠ 0 ∨
          ∃ me old, res = .ok { err := .noErr, me := me, oldValue := old })) := by
  cases hfind : s.find k with
  | none =>
    simp only [remove, hdis, Bool.false_eq_true, if_false, hfind]
    exact ⟨_, _, rfl, ⟨(SetsAt.same hfind).find, hdis.symm⟩, .inl ⟨trivial, rfl⟩⟩
  | some e =>
    obtain ⟨o, rfl, ho | ho⟩ := hshape e hfind
    · simp only [remove, hdis, Bool.false_eq_true, if_false, hfind, MapEntry.getUpdateCount,
        ho.updateCount]
      by_cases hcount : 0 ≤ updateCount ∧ updateCount ≠ 0
      · have hrefused : updateCount ≥ 0 ∧ updateCount ≠ ((0 : Nat) : Int) := hcount
        rw [if_pos hrefused]
        exact ⟨_, _, rfl, SetsAt.unbind s k, .inr (.inr ⟨o, rfl, ho, .inl hcount⟩)⟩
      · have hneg : ¬ (updateCount ≥ 0 ∧ updateCount ≠ ((0 : Nat) : Int)) := hcount
        rw [if_neg hneg, withImplPtr_impl _ ho.weakThis]
        exact ⟨_, _, rfl, SetsAt.unbind s k, .inr (.inr ⟨o, rfl, ho, .inr ⟨_, _, rfl⟩⟩)⟩
    · obtain ⟨hres, hset⟩ := remove_wiped region s k updateCount tag hdis hfind ho afterRemote
      exact ⟨_, _, rfl, hset, .inr (.inl ⟨o, rfl, ho, hres⟩)⟩

end

omit [DecidableEq K] hdis in
theorem addTracker_shaped (ho : Untracked o ∨ Wiped o) :
    (MapEntry.impl o).addTracker none = .error .badWeakPtr ∨
      (MapEntry.impl o).addTracker none = .ok ⟨o.updateCount,
        .impl (.placementNew o.addr (o.numTrackers + 1) o.updateCount), none⟩ := by
  by_cases hmax : o.numTrackers = gfTrackMax
  · -- an entry with `GF_TRACK_MAX` trackers is wiped, and `shared_from_this` throws
    have hweak : o.weakThis = false := by
      rcases ho with ho | ho
      · have := ho.numTrackers
        rw [hmax] at this
        cases this
      · exact ho.weakThis
    refine .inl ?_
    simp only [MapEntry.addTracker, hmax, if_true, MapEntryImpl.sharedFromThis, hweak]
    rfl
  · exact .inr (by simp only [MapEntry.addTracker, hmax, if_false])

omit hdis in
theorem trackEntry_shaped (ho : Untracked o ∨ Wiped o) (incUpdateCount : Bool) :
    s.trackEntry k (.impl o) incUpdateCount = (.error .badWeakPtr, s) ∨
    ∃ w, Wiped w ∧ SetsAt k (some (.impl w)) s (s.trackEntry k (.impl o) incUpdateCount).2 := by
  rcases addTracker_shaped ho with hadd | hadd
  · exact .inl (by simp only [trackEntry, hadd])
  · right
    cases incUpdateCount with
    | false =>
      simp only [trackEntry, hadd, Bool.false_eq_true, if_false, MapEntry.bound]
      exact ⟨_, wiped_placementNew _ _ _, SetsAt.bind s k _⟩
    | true =>
      by_cases hcount : o.updateCount = gfUpdateMax
      · simp only [trackEntry, hadd, if_true, MapEntry.incrementUpdateCount,
          MapEntryImpl.placementNew, hcount, MapEntryImpl.sharedFromThis]
        exact ⟨_, wiped_placementNew o.addr (o.numTrackers + 1) gfUpdateMax, SetsAt.bind s k _⟩
      · have hne : ¬ o.numTrackers + 1 = 0 := by omega
        simp only [trackEntry, hadd, if_true, MapEntry.incrementUpdateCount,
          MapEntryImpl.placementNew, hcount, hne, if_false, MapEntry.bound]
        exact ⟨_, wiped_placementNew o.addr (o.numTrackers + 1) (o.updateCount + 1),
          SetsAt.bind s k _⟩

theorem addTrackerForEntry_disabled (hshape : ShapedAt (s.find k))
    (addIfAbsent failIfPresent incUpdateCount : Bool) :
    ((∀ c old, (s.addTrackerForEntry k addIfAbsent failIfPresent incUpdateCount).1 =
        .ok (c, old) → c = -1) ∧
      (s.addTrackerForEntry k addIfAbsent failIfPresent incUpdateCount).2 = s) ∨
    ((s.find k = none ∨ failIfPresent = false) ∧ ∃ w, Wiped w ∧ SetsAt k (some (.impl w)) s
      (s.addTrackerForEntry k addIfAbsent failIfPresent incUpdateCount).2) := by
  have hnot : ¬ s.concurrencyChecksEnabled = true := by simp [hdis]
  cases hfind : s.find k with
  | none =>
    simp only [addTrackerForEntry, if_neg hnot, hfind]
    cases addIfAbsent with
    | false =>
      refine .inl ⟨fun c old h => ?_, rfl⟩
      cases h
      rfl
    | true =>
      have hnew : Untracked ((MapEntryImpl.newMapEntry s.nextAddr k :
          MapEntryImpl K V).setValueI (.token .destroyed)) := ⟨rfl, rfl, rfl⟩
      rcases trackEntry_shaped { s with nextAddr := s.nextAddr + 1 } k (.inl hnew)
          incUpdateCount with h | ⟨w, hw, h⟩
      · exfalso
        cases incUpdateCount <;> cases h
      · exact .inr ⟨.inl trivial, w, hw, ⟨h.find, h.flag⟩⟩
  | some e =>
    obtain ⟨o, rfl, ho⟩ := hshape e hfind
    simp only [addTrackerForEntry, if_neg hnot, hfind]
    cases failIfPresent with
    | true =>
      refine .inl ⟨fun c old h => ?_, rfl⟩
      cases h
      rfl
    | false =>
      rcases trackEntry_shaped s k ho incUpdateCount with h | ⟨w, hw, h⟩
      · refine .inl ⟨fun c old hok => ?_, ?_⟩
        · simp only [Bool.false_eq_true, if_false, h] at hok
          cases hok
        · simp only [Bool.false_eq_true, if_false, h]
      · exact .inr ⟨.inr rfl, w, hw, h⟩

theorem removeTrackerForEntry_disabled (hshape : ShapedAt (s.find k)) :
    (s.removeTrackerForEntry k).2 = s ∨ ∃ o, s.find k = some (.impl o) ∧ Untracked o ∧
      SetsAt k (settled o) s (s.removeTrackerForEntry k).2 := by
  cases hfind : s.find k with
  | none =>
    refine .inl ?_
    simp only [removeTrackerForEntry, hdis, Bool.false_eq_true, if_false, hfind]
  | some e =>
    obtain ⟨o, rfl, ho | ho⟩ := hshape e hfind
    · refine .inr ⟨o, rfl, ho, ?_⟩
      simp only [removeTrackerForEntry, hdis, Bool.false_eq_true, if_false, hfind,
        withImplPtr_impl _ ho.weakThis]
      exact removeTracker_untracked s k hdis ho
    · exact .inl (by rw [removeTrackerForEntry_wiped s k hdis hfind ho])

end Disabled

end GeodeNative.Cache.MapSegment

import GeodeNative.Proofs.Cache.LRUEntriesMap
import GeodeNative.Proofs.Cache.Size
import GeodeNative.Region.LocalRegion

/-!
# Removal in the two entries maps

A region keeps its entries in a `ConcurrentEntriesMap`, or in an `LRUEntriesMap` when it evicts.
Both are an `EntriesMap`: `remove` changes the binding of its key as the segment of the key does,
and no other binding.

`remove_outcome` says what a segment does for `remove` in either mode. When the call returns, the
version check has rejected it and nothing has changed, or the key is not live any more.
-/

set_option autoImplicit false

namespace GeodeNative.Proofs.Region

open GeodeNative.Cache GeodeNative.Region
open GeodeNative.Cache.MapSegment
open GeodeNative.Proofs.Cache

variable {K V D M : Type} [DecidableEq K]

/-! ### One segment -/

section Segment
variable (region : RegionInternal K V D M) (s : MapSegment K V) (key : K) (updateCount : Int)
  (tag : Option VersionTag) (afterRemote : Bool)

/-- The entry `e` as a tombstone. -/
def buried (e : MapEntry K V) (stamp : VersionStamp) : MapEntry K V :=
  (e.mapObj fun _ => e.obj.setValueI (.token .tombstone)).mapObj fun o => o.setStamp stamp

/-- The outcome of `remove`: the version check rejected it, or the key is not live. -/
def RemoveOutcome (x : Option (MapEntry K V)) (res : RemoveResult V) : Prop :=
  (∃ e, s.find key = some e ∧ s.checkVersion region e tag false = .error res.err ∧ x = some e) ∨
  (¬ Live x ∧ (∀ e, s.find key = some e → ∃ stamp, s.checkVersion region e tag false = .ok stamp) ∧
    (res.err = .noErr ∨ res.err = .cacheEntryNotFound ∨ res.err = .cacheEntryUpdated))

omit [DecidableEq K] in
theorem not_live_none : ¬ Live (none : Option (MapEntry K V)) := by
  rintro ⟨e, h, -⟩
  cases h

omit [DecidableEq K] in
theorem not_live_tombstone {e : MapEntry K V} (h : e.obj.value = .token .tombstone) :
    ¬ Live (some e) := by
  rintro ⟨e', he, -, -, hvalue⟩
  cases he
  exact hvalue h

theorem remove_outcome_disabled (hdis : s.concurrencyChecksEnabled = false) :
    ∃ x, SetsAt key x s (s.remove region key updateCount tag afterRemote).2 ∧
      ∀ res, (s.remove region key updateCount tag afterRemote).1 = .ok res →
        RemoveOutcome region s key tag x res := by
  have hcheck : ∀ e, ∃ stamp, s.checkVersion region e tag false = .ok stamp := by
    intro e
    exact ⟨{}, by simp [checkVersion, hdis]⟩
  unfold remove
  rw [if_neg (by simp [hdis])]
  cases hfind : s.find key with
  | none =>
    refine ⟨none, ⟨fun k' => ?_, rfl⟩, ?_⟩
    · exact (SetsAt.same hfind).find k'
    · rintro res ⟨⟩
      exact .inr ⟨not_live_none, fun e _ => hcheck e, .inr (.inl rfl)⟩
  | some e =>
    -- the entry is unbound whatever the call then returns
    have hunbound := SetsAt.unbind s key
    refine ⟨none, ?_, ?_⟩
    · dsimp only
      split
      · exact hunbound
      · unfold withImplPtr
        split <;> exact hunbound
    · intro res hres
      refine .inr ⟨not_live_none, fun e _ => hcheck e, ?_⟩
      dsimp only at hres
      split at hres
      · cases hres
        exact .inr (.inr rfl)
      · unfold withImplPtr at hres
        split at hres
        · cases hres
        · cases hres
          exact .inl rfl

theorem removeWhenConcurrencyEnabled_outcome (hen : s.concurrencyChecksEnabled = true)
    (expiryTaskID : Nat) :
    ∃ x, SetsAt key x s
        (s.removeWhenConcurrencyEnabled region key updateCount tag afterRemote expiryTaskID).2 ∧
      ∀ res expTaskSet,
        (s.removeWhenConcurrencyEnabled region key updateCount tag afterRemote expiryTaskID).1 =
          .ok (res, expTaskSet) → RemoveOutcome region s key tag x res := by
  have hnotFound : notFoundUnless afterRemote = .noErr ∨
      notFoundUnless afterRemote = .cacheEntryNotFound ∨
      notFoundUnless afterRemote = .cacheEntryUpdated := by
    cases afterRemote
    · exact .inr (.inl rfl)
    · exact .inl rfl
  have hsame := SetsAt.refl s key
  unfold removeWhenConcurrencyEnabled
  cases hfind : s.find key with
  | none =>
    rw [hfind] at hsame
    have hfree : ∀ e, s.find key = some e →
        ∃ stamp, s.checkVersion region e tag false = .ok stamp :=
      fun e he => absurd (hfind.symm.trans he) (by simp)
    cases tag with
    | none =>
      refine ⟨none, hsame, ?_⟩
      rintro res expTaskSet ⟨⟩
      exact .inr ⟨not_live_none, hfree, hnotFound⟩
    | some t =>
      rw [putNoEntry_enabled _ key _ (-1) 0 (some t) hen]
      refine ⟨some (.impl (s.newEntry key (.token .tombstone) (some t) none)),
        (SetsAt.bindNew ..).addTombstone _ _, ?_⟩
      rintro res expTaskSet ⟨⟩
      refine .inr ⟨not_live_tombstone ?_, hfree, hnotFound⟩
      simp [newEntry, MapEntry.obj, hen, MapEntryImpl.setStamp, MapEntryImpl.setValueI]
  | some e =>
    rw [hfind] at hsame
    dsimp only
    unfold withImplPtr
    cases e.getImplPtr with
    | error x => exact ⟨some e, hsame, by simp⟩
    | ok entryImpl =>
      cases hcheck : s.checkVersion region e tag false with
      | error err =>
        refine ⟨some e, hsame, ?_⟩
        rintro res expTaskSet ⟨⟩
        exact .inl ⟨e, hfind, hcheck, rfl⟩
      | ok stamp =>
        have hok : ∀ e, s.find key = some e →
            ∃ stamp, s.checkVersion region e tag false = .ok stamp := by
          intro e' he
          cases hfind.symm.trans he
          exact ⟨stamp, hcheck⟩
        have hput : s.putForTrackedEntry region key (.token .tombstone) e updateCount stamp none =
            (.ok .noErr, (s.eraseEntryFromTombstoneList key true).bind key (buried e stamp)) := by
          simp [putForTrackedEntry, hen, updateObj, buried]
        have hvalue : (buried e stamp).obj.value = .token .tombstone := by cases e <;> rfl
        dsimp only
        rw [hput]
        dsimp only
        rw [decide_eq_true rfl, if_pos rfl, find_bind, if_pos rfl]
        refine ⟨some (buried e stamp), ?_, ?_⟩
        · have hwritten := ((SetsAt.erase hfind true).trans
            (.bind _ key (buried e stamp))).addTombstone (buried e stamp).obj expiryTaskID
          split <;> exact hwritten
        · intro res expTaskSet hres
          refine .inr ⟨not_live_tombstone hvalue, hok, ?_⟩
          split at hres
          · cases hres
            exact hnotFound
          · cases hres
            exact .inl rfl

/-- What a segment does for `remove`, in either mode. -/
theorem remove_outcome :
    ∃ x, SetsAt key x s (s.remove region key updateCount tag afterRemote).2 ∧
      ∀ res, (s.remove region key updateCount tag afterRemote).1 = .ok res →
        RemoveOutcome region s key tag x res := by
  cases hen : s.concurrencyChecksEnabled with
  | false => exact remove_outcome_disabled region s key updateCount tag afterRemote hen
  | true =>
    -- the task that is scheduled first, and cancelled, does not change a binding
    obtain ⟨x, hsets, hres⟩ := removeWhenConcurrencyEnabled_outcome region s.getExpiryTask.2 key
      updateCount tag afterRemote hen s.getExpiryTask.1
    unfold remove
    rw [if_pos hen]
    dsimp only
    split
    · exact ⟨x, ⟨hsets.find, hsets.flag⟩, by simp⟩
    · next result expTaskSet heq =>
      refine ⟨x, ?_, ?_⟩
      · cases expTaskSet with
        | true => exact ⟨hsets.find, hsets.flag⟩
        | false => exact ⟨hsets.find, hsets.flag⟩
      · rintro res ⟨⟩
        exact hres _ _ heq

end Segment

/-! ### The two maps -/

section Maps
variable {n : Nat} [NeZero n]

/-- A map whose segments are those of `m` after `remove` in the segment of its key. The counter can
be any. -/
def AfterRemove (region : RegionInternal K V D M) (m m' : ConcurrentEntriesMap K V n) (key : K)
    (updateCount : Int) (tag : Option VersionTag) (afterRemote : Bool) : Prop :=
  ∃ size, m' = { m.setSegment key
    ((m.segmentFor key).remove region key updateCount tag afterRemote).2 with size := size }

section
variable {region : RegionInternal K V D M} {m m' : ConcurrentEntriesMap K V n} {key : K}
  {updateCount : Int} {tag : Option VersionTag} {afterRemote : Bool}

theorem AfterRemove.find (h : AfterRemove region m m' key updateCount tag afterRemote) (k : K) :
    m'.find k = if k = key then
      ((m.segmentFor key).remove region key updateCount tag afterRemote).2.find key
      else m.find k := by
  obtain ⟨size, rfl⟩ := h
  obtain ⟨x, hsets, -⟩ := remove_outcome region (m.segmentFor key) key updateCount tag afterRemote
  rw [hsets.find_self]
  exact ConcurrentEntriesMap.find_setSegment _ hsets k

theorem AfterRemove.flag (h : AfterRemove region m m' key updateCount tag afterRemote) (k : K) :
    (m'.segmentFor k).concurrencyChecksEnabled = (m.segmentFor k).concurrencyChecksEnabled := by
  obtain ⟨size, rfl⟩ := h
  obtain ⟨x, hsets, -⟩ := remove_outcome region (m.segmentFor key) key updateCount tag afterRemote
  exact (ConcurrentEntriesMap.Touches.setSegment m key _ size).segmentFor_rel
    (R := fun s s' => s'.concurrencyChecksEnabled = s.concurrencyChecksEnabled) (fun _ => rfl)
    hsets.flag k

end

/-- The entries map of a region without eviction. -/
def concurrentMap (region : RegionInternal K V D M) :
    EntriesMap (ConcurrentEntriesMap K V n) K V D M CacheException where
  members := region.members
  region := fun _ => region
  segmentFor := ConcurrentEntriesMap.segmentFor
  remove := fun m => m.remove region
  region_members := fun _ => rfl
  remove_find m key updateCount tag afterRemote :=
    AfterRemove.find (m.forwards_remove region key updateCount tag afterRemote).map
  remove_flag m key updateCount tag afterRemote :=
    AfterRemove.flag (m.forwards_remove region key updateCount tag afterRemote).map
  remove_ok m key updateCount tag afterRemote res h :=
    ⟨res, (m.forwards_remove region key updateCount tag afterRemote).result.symm.trans h, rfl⟩

section
variable {P S : Type} (env : LRURegion K V D M P S) (m : LRUEntriesMap K V P S n)

omit [DecidableEq K] [NeZero n] in
theorem retrieveOverflowed_segments (key : K) (me : Option Nat) (oldValue : CacheablePtr V) :
    (m.retrieveOverflowed env key me oldValue).2.toConcurrentEntriesMap =
      m.toConcurrentEntriesMap := by
  unfold LRUEntriesMap.retrieveOverflowed LRUEntriesMap.retrieve
  repeat' split
  all_goals rfl

omit [DecidableEq K] [NeZero n] in
theorem accountRemoved_segments (key : K) (result : CacheablePtr V) :
    (m.accountRemoved env key result).2.toConcurrentEntriesMap = m.toConcurrentEntriesMap := by
  unfold LRUEntriesMap.accountRemoved LRUEntriesMap.updateMapSize
  repeat' split
  all_goals rfl

theorem lru_remove (key : K) (updateCount : Int) (tag : Option VersionTag) (afterRemote : Bool) :
    AfterRemove (m.region env) m.toConcurrentEntriesMap
        (m.remove env key updateCount tag afterRemote).2.toConcurrentEntriesMap key updateCount tag
        afterRemote ∧
      ∀ res, (m.remove env key updateCount tag afterRemote).1 = .ok res →
        ∃ res', ((m.segmentFor key).remove (m.region env) key updateCount tag afterRemote).1 =
          .ok res' ∧ res.err = res'.err := by
  have hchanged : ∀ s, (m.changeSegment key s).toConcurrentEntriesMap =
      m.toConcurrentEntriesMap.setSegment key s := by
    intro s
    obtain ⟨unbound, h⟩ := LRUEntriesMap.changeSegment_eq m key s
    rw [h]
  unfold LRUEntriesMap.remove AfterRemove
  rcases (m.segmentFor key).remove (m.region env) key updateCount tag afterRemote with ⟨x | res', s⟩
  · exact ⟨⟨_, hchanged s⟩, by simp⟩
  · dsimp only
    split
    · refine ⟨⟨_, hchanged s⟩, ?_⟩
      rintro res ⟨⟩
      exact ⟨res', rfl, rfl⟩
    · split
      · refine ⟨⟨_, hchanged s⟩, ?_⟩
        rintro res ⟨⟩
        exact ⟨res', rfl, rfl⟩
      · -- the counters, the list and the persistence manager change, but not the segments
        next addr _ _ =>
        have hcounted : ((m.changeSegment key s).countRemoved key addr res'.oldValue
            res'.isEntryFound).toConcurrentEntriesMap = { m.setSegment key s with
              size := if res'.isEntryFound then (m.changeSegment key s).size - 1
                else (m.changeSegment key s).size } := by
          rw [← hchanged s]
          rfl
        have hread := retrieveOverflowed_segments env ((m.changeSegment key s).countRemoved key addr
          res'.oldValue res'.isEntryFound) key (some addr) res'.oldValue
        revert hread
        rcases LRUEntriesMap.retrieveOverflowed env ((m.changeSegment key s).countRemoved key addr
          res'.oldValue res'.isEntryFound) key (some addr) res'.oldValue with ⟨x | result, m₁⟩
        · exact fun hread => ⟨⟨_, hread.trans hcounted⟩, by simp⟩
        · intro hread
          have haccount := accountRemoved_segments env m₁ key result
          revert haccount
          dsimp only
          rcases m₁.accountRemoved env key result with ⟨x | -, m₂⟩ <;> intro haccount
          · exact ⟨⟨_, haccount.trans (hread.trans hcounted)⟩, by simp⟩
          · refine ⟨⟨_, haccount.trans (hread.trans hcounted)⟩, ?_⟩
            rintro res ⟨⟩
            exact ⟨res', rfl, rfl⟩

/-- The entries map of a region with eviction. -/
def lruMap : EntriesMap (LRUEntriesMap K V P S n) K V D M LRUException where
  members := env.members
  region := fun m => m.region env
  segmentFor := fun m => m.segmentFor
  remove := fun m => m.remove env
  region_members := fun _ => rfl
  remove_find m key updateCount tag afterRemote :=
    (lru_remove env m key updateCount tag afterRemote).1.find
  remove_flag m key updateCount tag afterRemote :=
    (lru_remove env m key updateCount tag afterRemote).1.flag
  remove_ok m key updateCount tag afterRemote :=
    (lru_remove env m key updateCount tag afterRemote).2

end

end Maps

end GeodeNative.Proofs.Region

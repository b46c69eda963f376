import GeodeNative.Lib.Run
import GeodeNative.Proofs.Cache.WithoutChecks

/-!
# The tombstone list and the map

With concurrency checks a removed entry stays in the map as a tombstone. The tombstone list
names the tombstones, and each has a task that removes it later. The two structures agree when
a key is in the list exactly when its bound value is the tombstone token
(`TombstonesConsistent`). Then `isTombstone` reports no illegal state and an expiry removes no
live entry.

`clear` breaks the agreement, since it empties the map and keeps the list
(`clear_leaves_tombstone`). `tombstones_consistent_iff` states that nothing else does: for
every run from a new segment, all states of the run are consistent exactly when each `clear`
of the run is made with an empty tombstone list.

The proof keeps the invariant `Inv`. It adds to the agreement that the tasks of the listed
tombstones are exactly the pending tasks. An operation either replaces the binding of one key
and drops the tombstone of that key (`Replaces`), or makes the key a tombstone with a new task
(`Buries`). `inv_sets` is the step lemma of both.

The last part is about reaping, the removal of tombstones that the server has collected. By versions
it removes exactly the tombstones that the versions cover (`reapTombstones_exact`). By keys it
removes whatever is bound to them, so it keeps the data of the map only when nothing but tombstones
is (`reapTombstoneKeys_keepsData_iff`).
-/

set_option autoImplicit false

namespace GeodeNative.Proofs.Cache

open GeodeNative.Cache Lib
open GeodeNative.Cache.MapSegment

section
variable {K V D M : Type} [DecidableEq K]

/-- The tombstone list agrees with the map, with the two consequences of the agreement. -/
structure TombstonesConsistent (s : MapSegment K V) : Prop where
  listed : ∀ k, k ∈ s.tombstoneList ↔
    ∃ e, s.find k = some e ∧ e.obj.value = .token .tombstone
  isTombstone : ∀ k, ∃ result, s.isTombstone k = .ok (.noErr, result)
  expiry : ∀ taskid k e, s.find k = some e → e.obj.value ≠ .token .tombstone →
    (s.handleTimeout taskid).find k = some e

/-- The invariant of a segment with concurrency checks. -/
structure Inv (s : MapSegment K V) : Prop where
  enabled : s.concurrencyChecksEnabled = true
  healthy : ∀ k e, s.find k = some e → Healthy k e
  listed : ∀ k, k ∈ s.tombstoneList ↔
    ∃ o, s.find k = some (.impl o) ∧ o.value = .token .tombstone
  scheduled : ∀ k id, s.taskOf k = some id → s.expiryTasks.lookup id = some (some k)
  pending : ∀ id x, s.expiryTasks.lookup id = some x → ∃ k, x = some k ∧ s.taskOf k = some id
  fresh : ∀ id x, s.expiryTasks.lookup id = some x → id < s.nextTask

theorem mem_tombstoneList_iff (s : MapSegment K V) (k : K) :
    k ∈ s.tombstoneList ↔ ∃ id, s.taskOf k = some id := by
  rw [← AList.lookup_isSome, taskOf]
  cases s.tombstoneList.lookup k <;> simp

theorem taskOf_eq_none (s : MapSegment K V) (k : K) (h : k ∉ s.tombstoneList) :
    s.taskOf k = none := by
  rw [mem_tombstoneList_iff] at h
  cases hk : s.taskOf k with
  | none => rfl
  | some id => exact absurd ⟨id, hk⟩ h

/-! ### The two kinds of step -/

/-- `s'` is `s` with the binding of `k` changed to `x` and the tombstone of `k`, if any, dropped
together with its task. -/
structure Replaces (k : K) (x : Option (MapEntry K V)) (s s' : MapSegment K V) : Prop where
  sets : SetsAt k x s s'
  list : ∀ k', s'.taskOf k' = if k' = k then none else s.taskOf k'
  tasks : ∀ id, s'.expiryTasks.lookup id =
    if s.taskOf k = some id then none else s.expiryTasks.lookup id
  nextTask : s'.nextTask = s.nextTask

/-- `s'` is `s` with `k` bound to `o`, listed as a tombstone with a new task. A former task of
`k` is cancelled. -/
structure Buries (k : K) (o : MapEntryImpl K V) (s s' : MapSegment K V) : Prop where
  sets : SetsAt k (some (.impl o)) s s'
  list : ∀ k', s'.taskOf k' = if k' = k then some s.nextTask else s.taskOf k'
  tasks : ∀ id, s'.expiryTasks.lookup id =
    if id = s.nextTask then some (some k)
    else if s.taskOf k = some id then none else s.expiryTasks.lookup id
  nextTask : s'.nextTask = s.nextTask + 1

variable {s : MapSegment K V} {k : K} {o : MapEntryImpl K V} {v : CacheablePtr V}

theorem Inv.taskOf_inj (hs : Inv s) {k k' : K} {id : Nat} (h : s.taskOf k = some id)
    (h' : s.taskOf k' = some id) : k = k' := by
  have := hs.scheduled k id h
  rw [hs.scheduled k' id h'] at this
  simpa using this.symm

variable {x : Option (MapEntry K V)} {s s' : MapSegment K V}

/-- A new binding of `k` keeps the invariant, when `k` has a new task exactly when it is a tombstone
now and no task otherwise. -/
theorem inv_sets {task : Option Nat}
    (hs : Inv s) (hsets : SetsAt k x s s') (hx : ∀ e, x = some e → Healthy k e)
    (htomb : (∃ id, task = some id) ↔ ∃ o, x = some (.impl o) ∧ o.value = .token .tombstone)
    (hlist : ∀ k', s'.taskOf k' = if k' = k then task else s.taskOf k')
    (htasks : ∀ id, s'.expiryTasks.lookup id = if task = some id then some (some k)
      else if s.taskOf k = some id then none else s.expiryTasks.lookup id)
    (hnew : ∀ id, task = some id → s.nextTask ≤ id ∧ id < s'.nextTask)
    (hnext : s.nextTask ≤ s'.nextTask) : Inv s' where
  enabled := by rw [hsets.flag, hs.enabled]
  healthy := by
    intro k' e he
    rw [hsets.find] at he
    split at he
    · next hk => exact hk ▸ hx e he
    · exact hs.healthy k' e he
  listed := by
    intro k'
    rw [mem_tombstoneList_iff, hlist, hsets.find]
    split
    · exact htomb
    · rw [← hs.listed k', mem_tombstoneList_iff]
  scheduled := by
    intro k' id hid
    rw [hlist] at hid
    rw [htasks]
    split at hid
    · next hk => rw [if_pos hid, hk]
    · next hk =>
      -- an old task is neither the new one nor the one of `k`
      have hlookup := hs.scheduled k' id hid
      have hlt := hs.fresh id _ hlookup
      rw [if_neg fun h => by have := hnew id h; omega,
        if_neg fun h => hk (hs.taskOf_inj hid h), hlookup]
  pending := by
    intro id x' hid
    rw [htasks] at hid
    split_ifs at hid with htask hother
    · cases hid
      exact ⟨k, rfl, by rw [hlist, if_pos rfl, htask]⟩
    · obtain ⟨k', hk', hold⟩ := hs.pending id x' hid
      refine ⟨k', hk', ?_⟩
      rw [hlist, if_neg ?_, hold]
      rintro rfl
      exact hother hold
  fresh := by
    intro id x' hid
    rw [htasks] at hid
    split_ifs at hid with htask
    · exact (hnew id htask).2
    · exact lt_of_lt_of_le (hs.fresh id x' hid) hnext

theorem inv_replaces (hs : Inv s) (h : Replaces k x s s')
    (hx : x = none ∨ ∃ o, x = some (.impl o) ∧ o.weakThis = true ∧ o.key = some k ∧
      o.value ≠ .token .tombstone) : Inv s' := by
  have hhealthy : ∀ e, x = some e → Healthy k e := by
    obtain rfl | ⟨o, rfl, hweak, hkey, -⟩ := hx
    · nofun
    · exact healthy_impl hweak hkey
  refine inv_sets hs h.sets hhealthy (iff_of_false (fun ⟨_, h⟩ => nomatch h) ?_) h.list ?_ nofun
    h.nextTask.ge
  · rintro ⟨o, rfl, hvalue⟩
    obtain ⟨_, ⟨⟩, -, -, hne⟩ := hx.resolve_left nofun
    exact hne hvalue
  · simpa using h.tasks

theorem inv_buries (hs : Inv s) (h : Buries k o s s') (hweak : o.weakThis = true)
    (hkey : o.key = some k) (hvalue : o.value = .token .tombstone) : Inv s' := by
  have hnext := h.nextTask
  refine inv_sets hs h.sets (healthy_impl hweak hkey) (iff_of_true ⟨_, rfl⟩ ⟨o, rfl, hvalue⟩) h.list
    ?_ ?_ (by omega)
  · simpa [eq_comm] using h.tasks
  · rintro _ ⟨⟩
    omega

/-! ### The updates of a segment as such steps -/

section Updates

variable (s : MapSegment K V) (k : K)

omit [DecidableEq K] in
theorem lookup_cancelTask? (task : Option Nat) (id : Nat) :
    (s.cancelTask? task).expiryTasks.lookup id =
      if task = some id then none else s.expiryTasks.lookup id := by
  cases task with
  | none => simp [cancelTask?]
  | some t =>
    by_cases h : t = id
    · subst h
      simp [cancelTask?, cancelTask]
    · have hne : id ≠ t := Ne.symm h
      simp [cancelTask?, cancelTask, h, AList.lookup_erase_ne hne]

variable {s' : MapSegment K V}

theorem taskOf_of_erase (h : s'.tombstoneList = s.tombstoneList.erase k) (k' : K) :
    s'.taskOf k' = if k' = k then none else s.taskOf k' := by
  unfold taskOf
  rw [h]
  by_cases hk : k' = k
  · subst hk
    simp
  · simp [hk, AList.lookup_erase_ne hk]

/-- The binding of a key is changed, and its tombstone dropped with its task. -/
theorem replaces_of_erase (hsets : SetsAt k x s s')
    (hlist : s'.tombstoneList = s.tombstoneList.erase k)
    (htasks : s'.expiryTasks = (s.cancelTask? (s.taskOf k)).expiryTasks)
    (hnext : s'.nextTask = s.nextTask) : Replaces k x s s' where
  sets := hsets
  list := taskOf_of_erase s k hlist
  tasks id := by
    rw [htasks]
    exact lookup_cancelTask? s _ id
  nextTask := hnext

theorem replaces_of_notMem (hk : k ∉ s.tombstoneList) (hsets : SetsAt k x s s')
    (hlist : s'.tombstoneList = s.tombstoneList) (htasks : s'.expiryTasks = s.expiryTasks)
    (hnext : s'.nextTask = s.nextTask) : Replaces k x s s' := by
  refine replaces_of_erase s k hsets (by rw [hlist, erase_of_notMem s k hk]) ?_ hnext
  rw [htasks, taskOf_eq_none s k hk]
  rfl

theorem replaces_writeInPlace (o : MapEntryImpl K V) (stamp : VersionStamp) :
    Replaces k (some (.impl (o.setStamp stamp))) s (s.writeInPlace k o stamp) := by
  have hsets := SetsAt.writeInPlace s k o stamp
  rw [writeInPlace, eraseEntryFromTombstoneList_true] at hsets ⊢
  exact replaces_of_erase s k hsets rfl rfl (by cases s.taskOf k <;> rfl)

theorem withoutCancelTask_eq :
    s.eraseEntryFromTombstoneListWithoutCancelTask k =
      (s.taskOf k, { s with tombstoneList := s.tombstoneList.erase k }) := by
  unfold eraseEntryFromTombstoneListWithoutCancelTask taskOf
  cases h : s.tombstoneList.lookup k with
  | none => simp [erase_of_notMem s k (AList.lookup_eq_none.mp h)]
  | some t => rfl

theorem replaces_replaceTombstone (v : CacheablePtr V) (tag : Option VersionTag)
    (stamp : VersionStamp) :
    Replaces k (some (.impl (s.replacement k v tag stamp))) s
      (s.replaceTombstone k v tag stamp) := by
  have hsets := SetsAt.replaceTombstone s k v tag stamp
  simp only [replaceTombstone, unguardedRemoveActualEntryWithoutCancelTask,
    withoutCancelTask_eq] at hsets ⊢
  refine replaces_of_erase s k hsets ?_ ?_ ?_ <;> cases s.taskOf k <;> rfl

theorem replaces_unguardedRemoveActualEntry :
    Replaces k none s (s.unguardedRemoveActualEntry k true).2 := by
  have hsets := (SetsAt.erase (s := s) rfl true).trans (.unbind _ k)
  rw [unguardedRemoveActualEntry]
  rw [eraseEntryFromTombstoneList_true] at hsets ⊢
  exact replaces_of_erase s k hsets rfl rfl (by cases s.taskOf k <;> rfl)

theorem replaces_handleTimeout {id : Nat} (hid : s.expiryTasks.lookup id = some (some k))
    (htask : s.taskOf k = some id) : Replaces k none s (s.handleTimeout id) := by
  obtain ⟨t, ht, hid'⟩ : ∃ t, s.tombstoneList.lookup k = some t ∧ t.expiryTaskId = id := by
    simpa [taskOf] using htask
  have heq : s.handleTimeout id =
      { s with tombstoneList := s.tombstoneList.erase k, map := s.map.erase k,
               expiryTasks := s.expiryTasks.erase id } := by
    simp only [handleTimeout, hid, removeActualEntry, unguardedRemoveActualEntry,
      eraseEntryFromTombstoneList, ht, Bool.false_eq_true, if_false, unbind, cancelTask]
  rw [heq]
  refine ⟨⟨fun k' => find_unbind s k k', rfl⟩, taskOf_of_erase s k rfl, fun id' => ?_, rfl⟩
  rw [htask]
  exact lookup_cancelTask? s (some id) id'

/-- A new task, a replaced binding and then `TombstoneList::add` of it. -/
theorem buries_addTombstone (h : Replaces k (some (.impl o)) s.getExpiryTask.2 s')
    (hkey : o.key = some k) : Buries k o s (s'.addTombstone o s.nextTask) := by
  have heq : s'.addTombstone o s.nextTask =
      { s' with
        tombstoneList := s'.tombstoneList.insert k ⟨o, s.nextTask⟩
        expiryTasks := s'.expiryTasks.insert s.nextTask (some k) } := by
    simp only [addTombstone, hkey]
  rw [heq]
  refine ⟨⟨fun k' => h.sets.find k', h.sets.flag⟩, fun k' => ?_, fun id => ?_, h.nextTask⟩
  · unfold taskOf
    by_cases hk : k' = k
    · subst hk
      simp
    · rw [AList.lookup_insert_ne hk, if_neg hk]
      exact (h.list k').trans (if_neg hk)
  · by_cases hid : id = s.nextTask
    · subst hid
      simp
    · simp only [AList.lookup_insert_ne hid, if_neg hid]
      rw [h.tasks]
      split
      · rename_i htask
        exact (if_pos htask).symm
      · rename_i htask
        rw [if_neg (show ¬ s.taskOf k = some id from htask)]
        exact AList.lookup_insert_ne hid

end Updates

/-! ### One call -/

/-- The values of the call are not tokens. -/
def NonToken : SegmentOp K V D → Prop
  | .entry (.create _ v _ _ _) => v.isToken = false
  | .entry (.put _ v _ _ _ _) => v.isToken = false
  | _ => True

/-- The call is not a `clear`, or the tombstone list is empty. -/
def ClearsEmptyList (s : MapSegment K V) : SegmentOp K V D → Prop
  | .clear => s.tombstoneList = ∅
  | _ => True

omit [DecidableEq K] in
theorem ne_tombstone_of_nonToken (h : v.isToken = false) : v ≠ .token .tombstone := by
  rintro rfl
  cases h

section
variable (hs : Inv s)
include hs

theorem Inv.notMem_of_unbound (hk : s.find k = none) : k ∉ s.tombstoneList := by
  rw [hs.listed, hk]
  rintro ⟨o, ⟨⟩, -⟩

theorem Inv.notMem_of_live (hk : s.find k = some (.impl o))
    (hvalue : o.value ≠ .token .tombstone) : k ∉ s.tombstoneList := by
  rw [hs.listed, hk]
  rintro ⟨_, ⟨⟩, hvalue'⟩
  exact hvalue hvalue'

theorem inv_rehashIfNeeded : Inv s.rehashIfNeeded := by
  obtain ⟨_, _, heq⟩ := rehashIfNeeded_eq s
  rw [heq]
  exact ⟨hs.enabled, hs.healthy, hs.listed, hs.scheduled, hs.pending, hs.fresh⟩

theorem inv_cancelledTask : Inv (s.getExpiryTask.2.cancelTask s.nextTask) := by
  have hsame : ∀ id, (s.getExpiryTask.2.cancelTask s.nextTask).expiryTasks.lookup id =
      s.expiryTasks.lookup id := by
    intro id
    simp only [getExpiryTask, cancelTask]
    by_cases hid : id = s.nextTask
    · subst hid
      cases hlookup : s.expiryTasks.lookup s.nextTask with
      | none => simp
      | some x => exact absurd (hs.fresh _ _ hlookup) (Nat.lt_irrefl _)
    · rw [AList.lookup_erase_ne hid, AList.lookup_insert_ne hid]
  exact ⟨hs.enabled, hs.healthy, hs.listed, fun k id h => (hsame id).trans (hs.scheduled k id h),
    fun id x h => hs.pending id x ((hsame id).symm.trans h),
    fun id x h => Nat.lt_succ_of_lt (hs.fresh id x ((hsame id).symm.trans h))⟩

theorem inv_bindNew (hk : s.find k = none) (hv : v ≠ .token .tombstone) (tag : Option VersionTag) :
    Inv (s.bindNew k v tag none) := by
  have hstep := replaces_of_notMem s k (hs.notMem_of_unbound hk) (.bindNew s k v tag none)
    rfl rfl rfl
  refine inv_replaces hs hstep (.inr ⟨_, rfl, newEntry_weakThis .., newEntry_key .., ?_⟩)
  rw [newEntry_value]
  exact hv

theorem inv_replaceTombstone (k : K) (hv : v ≠ .token .tombstone) (tag : Option VersionTag)
    (stamp : VersionStamp) : Inv (s.replaceTombstone k v tag stamp) := by
  refine inv_replaces hs (replaces_replaceTombstone s k v tag stamp)
    (.inr ⟨_, rfl, newEntry_weakThis .., newEntry_key .., ?_⟩)
  rw [replacement, newEntry_value]
  exact hv

theorem inv_writeInPlace (hweak : o.weakThis = true) (hkey : o.key = some k)
    (hvalue : o.value ≠ .token .tombstone) (stamp : VersionStamp) :
    Inv (s.writeInPlace k o stamp) :=
  inv_replaces hs (replaces_writeInPlace s k o stamp) (.inr ⟨_, rfl, hweak, hkey, hvalue⟩)

theorem inv_bind {o o' : MapEntryImpl K V} (hk : s.find k = some (.impl o))
    (hlive : o.value ≠ .token .tombstone) (hweak : o'.weakThis = true) (hkey : o'.key = some k)
    (hvalue : o'.value ≠ .token .tombstone) : Inv (s.bind k (.impl o')) := by
  have hstep := replaces_of_notMem s k (hs.notMem_of_live hk hlive)
    (SetsAt.bind s k (.impl o')) rfl rfl rfl
  exact inv_replaces hs hstep (.inr ⟨o', rfl, hweak, hkey, hvalue⟩)

end

theorem inv_entryStep (region : RegionInternal K V D M) (hs : Inv s) (op : EntryOp K V D)
    (hop : NonToken (.entry op : SegmentOp K V D)) : Inv (op.step region s) := by
  have hrehash := inv_rehashIfNeeded hs
  cases op with
  | create k v updateCount destroyTracker tag =>
    have hv : v ≠ .token .tombstone := ne_tombstone_of_nonToken hop
    simp only [EntryOp.step, EntryOp.exec]
    rcases create_cases region s k v updateCount destroyTracker tag hs.enabled (hs.healthy k) with
      ⟨hk, me, heq⟩ | ⟨err, old, -, heq⟩ | ⟨o, stamp, me, -, hweak, hkey, -, -, heq⟩ |
      ⟨o, stamp, me, -, -, -, heq⟩ <;> rw [heq]
    · exact inv_bindNew hrehash (by simpa using hk) hv tag
    · exact hrehash
    · exact inv_writeInPlace (o := o.setValueI v) hrehash hweak hkey hv stamp
    · exact inv_replaceTombstone hrehash k hv tag stamp
  | put k v updateCount destroyTracker tag delta =>
    have hv : v ≠ .token .tombstone := ne_tombstone_of_nonToken hop
    simp only [EntryOp.step, EntryOp.exec]
    rcases put_cases region s k v updateCount destroyTracker tag hs.enabled (hs.healthy k) delta
      with ⟨err, -, -, heq⟩ | ⟨hk, -, me, heq⟩ | ⟨o, stamp, me, -, -, -, heq⟩ |
      ⟨o, stamp, -, hweak, hkey, hvalue, -, -, heq⟩ | ⟨o, hfind, hweak, hkey, hvalue, -, heq⟩ <;>
      rw [heq]
    · exact hrehash
    · exact inv_bindNew hrehash (by simpa using hk) hv tag
    · exact inv_replaceTombstone hrehash k hv tag stamp
    · obtain ⟨hweak', hkey', -⟩ := updateObj_keeps region k o v delta
      exact inv_writeInPlace hrehash (hweak'.trans hweak) (hkey'.trans hkey)
        (updateObj_value (P := (· ≠ _)) region k delta hvalue hv (by simp)) stamp
    · obtain ⟨hweak', hkey', -⟩ := updateObj_keeps region k o v delta
      exact inv_bind hrehash (by simpa using hfind) hvalue (hweak'.trans hweak) (hkey'.trans hkey)
        (updateObj_value (P := (· ≠ _)) region k delta hvalue hv (by simp))
  | invalidate k tag =>
    simp only [EntryOp.step, EntryOp.exec]
    rcases invalidate_cases region s k tag hs.enabled (hs.healthy k) with
      ⟨err, -, heq⟩ | ⟨hk, me, heq⟩ | ⟨o, stamp, me, hfind, hweak, hkey, hvalue, heq⟩ <;> rw [heq]
    · exact hs
    · exact inv_bindNew hs hk (by simp) tag
    · exact inv_bind hs hfind hvalue hweak hkey
        (by simp [MapEntryImpl.setValueI, MapEntryImpl.setStamp])
  | remove k updateCount tag afterRemote =>
    simp only [EntryOp.step, EntryOp.exec]
    rcases remove_cases region s k updateCount tag hs.enabled (hs.healthy k) afterRemote with
      ⟨o, err, -, -, -, heq⟩ | ⟨o, stamp, me, old, -, hweak, hkey, -, heq⟩ |
      ⟨t, hk, -, heq⟩ | ⟨-, -, heq⟩ <;> rw [heq]
    · exact inv_cancelledTask hs
    · exact inv_buries hs (buries_addTombstone s k (replaces_writeInPlace _ k _ stamp) hkey) hweak
        hkey rfl
    · have hnew := replaces_of_notMem s.getExpiryTask.2 k (hs.notMem_of_unbound hk)
        (.bindNew _ k (.token .tombstone) (some t) none) rfl rfl rfl
      exact inv_buries hs (buries_addTombstone s k hnew (newEntry_key ..)) (newEntry_weakThis ..)
        (newEntry_key ..) (newEntry_value ..)
    · exact inv_cancelledTask hs
  | addTrackerForEntry k addIfAbsent failIfPresent incUpdateCount =>
    simpa only [EntryOp.step, EntryOp.exec, addTrackerForEntry, hs.enabled, if_true] using hs
  | removeTrackerForEntry k =>
    simpa only [EntryOp.step, EntryOp.exec, removeTrackerForEntry, hs.enabled, if_true] using hs

theorem inv_reapTombstoneKeys (removedKeys : List K) :
    ∀ {s : MapSegment K V}, Inv s → Inv (s.reapTombstoneKeys removedKeys) := by
  induction removedKeys with
  | nil => exact fun hs => hs
  | cons k rest ih =>
    intro s hs
    exact ih (inv_replaces hs (replaces_unguardedRemoveActualEntry s k) (.inl rfl))

theorem inv_handleTimeout (hs : Inv s) (id : Nat) : Inv (s.handleTimeout id) := by
  cases hid : s.expiryTasks.lookup id with
  | none => simpa only [handleTimeout, hid] using hs
  | some x =>
    obtain ⟨k, rfl, htask⟩ := hs.pending id x hid
    exact inv_replaces hs (replaces_handleTimeout s k hid htask) (.inl rfl)

theorem inv_clear (hs : Inv s) (hempty : s.tombstoneList = ∅) : Inv s.clear := by
  refine ⟨hs.enabled, nofun, fun k => iff_of_false ?_ fun ⟨_, h, _⟩ => (nomatch h), hs.scheduled,
    hs.pending, hs.fresh⟩
  show k ∉ s.tombstoneList
  rw [hempty]
  exact AList.notMem_empty k

/-- Every call keeps the invariant, except a `clear` with a tombstone in the list. -/
theorem inv_step (region : RegionInternal K V D M) (s : MapSegment K V) (op : SegmentOp K V D)
    (hs : Inv s) (hop : NonToken op ∧ ClearsEmptyList s op) : Inv (op.step region s) := by
  cases op with
  | entry op => exact inv_entryStep region hs op hop.1
  | clear => exact inv_clear hs hop.2
  | reapTombstones gcVersions => exact inv_reapTombstoneKeys _ hs
  | reapTombstoneKeys removedKeys => exact inv_reapTombstoneKeys removedKeys hs
  | handleTimeout taskid => exact inv_handleTimeout hs taskid

theorem inv_open (primeIndex : Nat) : Inv (MapSegment.open primeIndex true : MapSegment K V) :=
  ⟨rfl, nofun, fun k => iff_of_false (AList.notMem_empty k) fun ⟨_, h, _⟩ => (nomatch h), nofun,
    nofun, nofun⟩

/-! ### Consistency -/

theorem Inv.consistent (hs : Inv s) : TombstonesConsistent s where
  listed k := by
    rw [hs.listed]
    constructor
    · rintro ⟨o, ho, hvalue⟩
      exact ⟨.impl o, ho, hvalue⟩
    · rintro ⟨e, he, hvalue⟩
      obtain ⟨o, rfl, -, -⟩ := hs.healthy k e he
      exact ⟨o, he, hvalue⟩
  isTombstone k := by
    cases hfind : s.find k with
    | none => exact ⟨false, by simp only [MapSegment.isTombstone, hfind]⟩
    | some e =>
      obtain ⟨o, rfl, hweak, -⟩ := hs.healthy k e hfind
      have hptr := getImplPtr_impl hweak
      by_cases htomb : o.value = .token .tombstone
      · have hmem : k ∈ s.tombstoneList := (hs.listed k).mpr ⟨o, hfind, htomb⟩
        have hvalue : o.getValueI = .token .tombstone := (getValueI_eq_tombstone_iff o).mpr htomb
        exact ⟨true, by simp [MapSegment.isTombstone, hfind, hptr, hvalue, hmem,
          CacheablePtr.isNull, CacheablePtr.isTombstone]⟩
      · have hmem : k ∉ s.tombstoneList := hs.notMem_of_live hfind htomb
        have hvalue : ¬ o.getValueI.isTombstone = true := by simpa using htomb
        exact ⟨false, by simp only [MapSegment.isTombstone, hfind, hptr, hvalue, hmem,
          Bool.false_eq_true, if_false, ite_self]⟩
  expiry id k e hfind hvalue := by
    cases hid : s.expiryTasks.lookup id with
    | none => simpa only [handleTimeout, hid] using hfind
    | some x =>
      obtain ⟨k', rfl, htask⟩ := hs.pending id x hid
      rw [(replaces_handleTimeout s k' hid htask).sets.find_ne ?_, hfind]
      -- the key of the task is a tombstone, `k` is not
      rintro rfl
      obtain ⟨o, ho, htomb⟩ := (hs.listed k).mp ((mem_tombstoneList_iff s k).mpr ⟨id, htask⟩)
      rw [hfind] at ho
      cases ho
      exact hvalue htomb

/-- Tombstone-list consistency. Take any run of calls with values that are not tokens, on a new
segment with concurrency checks. The tombstone list agrees with the map after every prefix of
the run exactly when each `clear` of the run is made with an empty tombstone list. -/
theorem tombstones_consistent_iff (region : RegionInternal K V D M) (primeIndex : Nat)
    (ops : List (SegmentOp K V D)) (hops : ∀ op ∈ ops, NonToken op) :
    (∀ l l', ops = l ++ l' → TombstonesConsistent
      (run (SegmentOp.step region) (MapSegment.open primeIndex true) l)) ↔
    Along (SegmentOp.step region) ClearsEmptyList
      (MapSegment.open primeIndex true : MapSegment K V) ops := by
  have hprefixes : (∀ l l', ops = l ++ l' → TombstonesConsistent
      (run (SegmentOp.step region) (MapSegment.open primeIndex true) l)) ↔
      ∀ l, l <+: ops → TombstonesConsistent
        (run (SegmentOp.step region) (MapSegment.open primeIndex true : MapSegment K V) l) :=
    ⟨fun h l ⟨l', hl⟩ => h l l' hl.symm, fun h l l' hl => h l ⟨l', hl.symm⟩⟩
  rw [hprefixes]
  refine always_iff_of_invariant (B := fun _ op => NonToken op) (fun _ hs => hs.consistent)
    (fun s op hs hop hclear => inv_step region s op hs ⟨hop, hclear⟩) ?_ (inv_open primeIndex)
    ((along_actions_iff _ ops).mpr hops)
  intro s op _ _ hafter
  cases op with
  | clear =>
    -- after the `clear` nothing is bound, so a consistent list is empty
    show s.tombstoneList = ∅
    apply AList.ext
    rw [AList.empty_entries, List.eq_nil_iff_forall_not_mem]
    rintro ⟨k, t⟩ ht
    obtain ⟨e, he, -⟩ := (hafter.listed k).mp (List.mem_keys_of_mem ht)
    cases he
  | _ => trivial

/-- A remove, its expiry and then a `clear` meet the condition. -/
theorem tombstones_consistent_after_expiry :
    TombstonesConsistent (run (SegmentOp.step natRegion) (MapSegment.open 0 true)
      [.entry (.put 1 (.object 5) (-1) 0 (some ⟨1, 0, 1, 1, 0⟩) none),
        .entry (.remove 1 (-1) (some ⟨2, 0, 2, 1, 0⟩) true), .handleTimeout 0, .clear]) :=
  (tombstones_consistent_iff natRegion 0
    [.entry (.put 1 (.object 5) (-1) 0 (some ⟨1, 0, 1, 1, 0⟩) none),
      .entry (.remove 1 (-1) (some ⟨2, 0, 2, 1, 0⟩) true), .handleTimeout 0, .clear]
    (by simp [NonToken, CacheablePtr.isToken])).mpr
    ⟨trivial, trivial, trivial, AList.ext rfl, trivial⟩ _ [] (List.append_nil _).symm

/-- `clear` leaves a tombstone in the list. Key 1 is removed with a version tag, the segment is
cleared, and then key 1 is put. The key is live and still listed as a tombstone, `isTombstone`
returns `GF_CACHE_ILLEGAL_STATE_EXCEPTION`, and the expiry of the old tombstone removes the
live entry. -/
theorem clear_leaves_tombstone :
    let s := run (SegmentOp.step natRegion) (MapSegment.open 0 true)
      [.entry (.remove 1 (-1) (some ⟨1, 0, 1, 1, 0⟩) true), .clear,
        .entry (.put 1 (.object 5) (-1) 0 (some ⟨2, 0, 2, 1, 0⟩) none)]
    1 ∈ s.tombstoneList ∧ (s.find 1).map (·.obj.value) = some (.object 5) ∧
      s.isTombstone 1 = .ok (.cacheIllegalState, false) ∧ (s.handleTimeout 0).find 1 = none := by
  refine ⟨by decide, rfl, rfl, rfl⟩

/-! ### Reaping -/

theorem reapTombstoneKeys_eq (removedKeys : List K) (s : MapSegment K V) (k : K) :
    (s.reapTombstoneKeys removedKeys).find k = (if k ∈ removedKeys then none else s.find k) ∧
      (s.reapTombstoneKeys removedKeys).tombstoneList.lookup k =
        if k ∈ removedKeys then none else s.tombstoneList.lookup k := by
  induction removedKeys generalizing s with
  | nil => simp [reapTombstoneKeys]
  | cons k' rest ih =>
    obtain ⟨hfind, hlist⟩ := ih (s.unguardedRemoveActualEntry k' true).2
    have hsets := (replaces_unguardedRemoveActualEntry s k').sets
    have hlist' : (s.unguardedRemoveActualEntry k' true).2.tombstoneList =
        s.tombstoneList.erase k' := by
      rw [unguardedRemoveActualEntry, eraseEntryFromTombstoneList_true]
      rfl
    rw [hsets.find] at hfind
    rw [hlist'] at hlist
    by_cases hk : k = k'
    · subst hk
      simpa [reapTombstoneKeys] using And.intro hfind hlist
    · rw [AList.lookup_erase_ne hk] at hlist
      simpa [reapTombstoneKeys, hk] using And.intro hfind hlist

/-- The versions that the server collected cover the tombstone of `k`: the entry that the list holds
for `k` has a stamp of a member that is named, with a region version up to the one named. -/
def Covered (s : MapSegment K V) (gcVersions : AList fun _ : BitVec 16 => Int) (k : K) : Prop :=
  ∃ t, s.tombstoneList.lookup k = some t ∧
    ∃ version, gcVersions.lookup t.entry.stamp.getMemberId = some version ∧
      version ≥ t.entry.stamp.getRegionVersion.toInt

theorem mem_tobeDeleted (s : MapSegment K V) (gcVersions : AList fun _ : BitVec 16 => Int)
    (k : K) : k ∈ s.tobeDeleted gcVersions ↔ Covered s gcVersions k := by
  rw [tobeDeleted, List.keys, List.mem_map]
  constructor
  · rintro ⟨⟨k', t⟩, ht, rfl⟩
    obtain ⟨hmem, hcovered⟩ := List.mem_filter.mp ht
    refine ⟨t, AList.mem_lookup_iff.mpr hmem, ?_⟩
    split at hcovered
    · exact ⟨_, ‹_›, of_decide_eq_true hcovered⟩
    · cases hcovered
  · rintro ⟨t, ht, version, hversion, hle⟩
    refine ⟨⟨k, t⟩, List.mem_filter.mpr ⟨AList.mem_lookup_iff.mp ht, ?_⟩, rfl⟩
    rw [hversion]
    exact decide_eq_true hle

/-- Reaping by versions removes exactly the covered tombstones, from the map and from the list. -/
theorem reapTombstones_exact (s : MapSegment K V) (gcVersions : AList fun _ : BitVec 16 => Int)
    (hlisted : ∀ k, k ∈ s.tombstoneList ↔ ∃ e, s.find k = some e ∧ e.obj.value = .token .tombstone)
    (k : K) :
    (Covered s gcVersions k →
      (∃ e, s.find k = some e ∧ e.obj.value = .token .tombstone) ∧
        (s.reapTombstones gcVersions).find k = none ∧
        (s.reapTombstones gcVersions).tombstoneList.lookup k = none) ∧
      (¬ Covered s gcVersions k →
        (s.reapTombstones gcVersions).find k = s.find k ∧
          (s.reapTombstones gcVersions).tombstoneList.lookup k = s.tombstoneList.lookup k) := by
  obtain ⟨hfind, hlookup⟩ := reapTombstoneKeys_eq (s.tobeDeleted gcVersions) s k
  refine ⟨fun hcovered => ?_, fun hcovered => ?_⟩
  · rw [if_pos ((mem_tobeDeleted s gcVersions k).mpr hcovered)] at hfind hlookup
    obtain ⟨t, ht, -⟩ := hcovered
    have hmem : k ∈ s.tombstoneList := AList.lookup_isSome.mp (by rw [ht]; rfl)
    exact ⟨(hlisted k).mp hmem, hfind, hlookup⟩
  · rw [if_neg (fun hk => hcovered ((mem_tobeDeleted s gcVersions k).mp hk))] at hfind hlookup
    exact ⟨hfind, hlookup⟩

/-- Two tombstones of one member: the version that the server collected covers the first one. -/
theorem reapTombstones_one_of_two :
    let s := run (SegmentOp.step natRegion) (MapSegment.open 0 true)
      [.entry (.remove 1 (-1) (some ⟨1, 0, 1, 1, 0⟩) true),
        .entry (.remove 2 (-1) (some ⟨1, 0, 5, 1, 0⟩) true)]
    let s' := s.reapTombstones ((∅ : AList fun _ : BitVec 16 => Int).insert 1 3)
    s'.find 1 = none ∧ s'.tombstoneList.lookup 1 = none ∧
      s'.find 2 = s.find 2 ∧ s'.tombstoneList.lookup 2 = s.tombstoneList.lookup 2 := by
  intro s s'
  have hs : Inv s := run_invariant (inv_step natRegion) (inv_open 0)
    ⟨⟨trivial, trivial⟩, ⟨trivial, trivial⟩, trivial⟩
  have hexact := reapTombstones_exact s ((∅ : AList fun _ : BitVec 16 => Int).insert 1 3)
    hs.consistent.listed
  refine ⟨((hexact 1).1 ?_).2.1, ((hexact 1).1 ?_).2.2, (hexact 2).2 ?_⟩
  · exact ⟨_, rfl, 3, rfl, by decide⟩
  · exact ⟨_, rfl, 3, rfl, by decide⟩
  · rintro ⟨t, ht, version, hversion, hle⟩
    cases ht
    cases hversion
    exact absurd hle (by decide)

/-- The data of `m` is the data of `m'`: no key with a value that is not the tombstone token is
removed, and the size and the results of `get` are the same. -/
structure KeepsData {n : Nat} [NeZero n] (m m' : ConcurrentEntriesMap K V n) : Prop where
  bound : ∀ k e, m.find k = some e → e.obj.value ≠ .token .tombstone → m'.find k = some e
  size : m'.size = m.size
  get : ∀ k, m'.get k = m.get k

theorem get_eq {n : Nat} [NeZero n] (m : ConcurrentEntriesMap K V n) (k : K) :
    m.get k = (m.find k).elim (.ok none) fun e => match e.getImplPtr with
      | .error x => .error x
      | .ok o =>
        if o.getValueI.isNull ∨ o.getValueI.isTombstone then .ok none else .ok (some o) := by
  rw [ConcurrentEntriesMap.get, getEntry, ConcurrentEntriesMap.find]
  cases (m.segmentFor k).find k <;> rfl

/-- Reaping by keys keeps the data exactly when each key that is bound is bound to a tombstone that
can be read. The second part only concerns an entry that placement new touched, where `get` throws
as long as it is bound. -/
theorem reapTombstoneKeys_keepsData_iff {n : Nat} [NeZero n] (m : ConcurrentEntriesMap K V n)
    (removedKeys : List K) :
    KeepsData m (m.reapTombstoneKeys removedKeys) ↔
      ∀ k ∈ removedKeys, ∀ e, m.find k = some e →
        e.obj.value = .token .tombstone ∧ ∃ o, e.getImplPtr = .ok o := by
  have hreap : ∀ k, (m.reapTombstoneKeys removedKeys).find k =
      if k ∈ removedKeys then none else m.find k := fun k =>
    (reapTombstoneKeys_eq removedKeys (m.segmentFor k) k).1
  constructor
  · intro h k hk e he
    have hgone := hreap k
    rw [if_pos hk] at hgone
    refine ⟨?_, ?_⟩
    · by_contra hvalue
      rw [h.bound k e he hvalue] at hgone
      cases hgone
    · have hsame := h.get k
      rw [get_eq, get_eq, hgone, he, Option.elim_some] at hsame
      cases hptr : e.getImplPtr with
      | ok o => exact ⟨o, rfl⟩
      | error x =>
        rw [hptr] at hsame
        cases hsame
  · intro h
    refine ⟨fun k e he hvalue => ?_, rfl, fun k => ?_⟩
    · rw [hreap, if_neg (fun hk => hvalue (h k hk e he).1), he]
    · rw [get_eq, get_eq, hreap]
      split_ifs with hk
      · cases he : m.find k with
        | none => rfl
        | some e =>
          obtain ⟨hvalue, o, hptr⟩ := h k hk e he
          have ho : o.getValueI = .token .tombstone :=
            (getValueI_eq_tombstone_iff o).mpr (getImplPtr_ok hptr ▸ hvalue)
          simp [hptr, ho, CacheablePtr.isTombstone]
      · rfl

/-- Key 1 is removed, and put again before the server's message about its tombstone comes: the put
is lost, and the size still counts it. -/
theorem reapTombstoneKeys_removes_live :
    let m : ConcurrentEntriesMap Nat Nat 1 := run (MapOp.step natRegion)
      (.open (BitVec.ofNat 32) 0 true)
      [.entry (.put 1 (.object 5) (-1) 0 (some ⟨1, 0, 1, 1, 0⟩) none),
        .entry (.remove 1 (-1) (some ⟨2, 0, 2, 1, 0⟩) true),
        .entry (.put 1 (.object 6) (-1) 0 (some ⟨3, 0, 3, 1, 0⟩) none)]
    (m.find 1).map (·.obj.value) = some (.object 6) ∧ (m.reapTombstoneKeys [1]).find 1 = none ∧
      (m.reapTombstoneKeys [1]).size = 1 := by
  decide

theorem reapTombstoneKeys_tombstone :
    let m : ConcurrentEntriesMap Nat Nat 1 := run (MapOp.step natRegion)
      (.open (BitVec.ofNat 32) 0 true)
      [.entry (.put 1 (.object 5) (-1) 0 (some ⟨1, 0, 1, 1, 0⟩) none),
        .entry (.remove 1 (-1) (some ⟨2, 0, 2, 1, 0⟩) true)]
    KeepsData m (m.reapTombstoneKeys [1]) := by
  refine (reapTombstoneKeys_keepsData_iff _ _).mpr ?_
  intro k hk e he
  rw [List.mem_singleton.mp hk] at he
  cases he
  exact ⟨rfl, _, rfl⟩

end

end GeodeNative.Proofs.Cache

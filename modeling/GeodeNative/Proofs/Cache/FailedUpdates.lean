import GeodeNative.Proofs.Cache.WithoutChecks

/-!
# Updates that are refused

A call is refused when it returns `GF_CACHE_ENTRY_UPDATED`, `GF_CACHE_ENTRY_EXISTS`,
`GF_CACHE_CONCURRENT_MODIFICATION_EXCEPTION`, or `GF_INVALID_DELTA` before `fromDelta` ran. Such a
call should leave what a segment shows (`visible`): the keys with a value that is not destroyed,
with their values and stamps.

Without concurrency checks there are calls that take the entry out of the map before they refuse.
`remove` unbinds the key and then compares the update counts. `create` and `put` drop a tombstone
before `putNoEntry` can abort. `put` runs placement new on an entry with trackers, which clears the
value; but every entry with trackers was cleared before, in each state that the calls can reach.
`EntryOp.Discards` collects the three, and `refused_frame_iff` says that a refused call keeps what
the segment shows in exactly the other cases. It holds for every state, reachable or not.
-/

set_option autoImplicit false

namespace GeodeNative.Cache.MapSegment

variable {K V D M : Type}

/-! ### What an entry shows -/

/-- What an entry object shows: its value and its stamp, if the value is not destroyed. -/
def shown (e : MapEntryImpl K V) : Option (CacheablePtr V × VersionStamp) :=
  if e.getValueI.isNull then none else some (e.getValueI, e.stamp)

theorem shown_eq_none_iff (e : MapEntryImpl K V) : shown e = none ↔ e.getValueI.isNull = true := by
  simp [shown]

/-- An entry that placement new would clear: a `MapEntryT` with trackers. -/
def Clearable : MapEntry K V → Prop
  | .impl e => e.numTrackers ≠ 0
  | .tracked .. => False

theorem shown_removeTracker (entry : MapEntry K V) :
    shown entry.removeTracker.2.obj = shown entry.obj ↔
      (Clearable entry → entry.obj.getValueI.isNull = true) := by
  cases entry with
  | tracked e n u =>
    have hobj : (MapEntry.tracked e n u).removeTracker.2.obj = e := by
      simp only [MapEntry.removeTracker]
      split <;> split <;> rfl
    rw [hobj]
    exact iff_of_true rfl fun h => False.elim h
  | impl e =>
    by_cases hzero : e.numTrackers = 0
    · have hobj : (MapEntry.impl e).removeTracker.2.obj = e := by
        simp only [MapEntry.removeTracker, if_pos hzero]
        rfl
      rw [hobj]
      exact iff_of_true rfl fun h => absurd hzero h
    · -- placement new leaves no value
      have hcleared : shown (MapEntry.impl e).removeTracker.2.obj = none := by
        simp only [MapEntry.removeTracker, if_neg hzero]
        split <;> rfl
      rw [hcleared, eq_comm, shown_eq_none_iff]
      exact ⟨fun h _ => h, fun h => h hzero⟩

/-- A write that fails is a delta that failed, and leaves the object unless `fromDelta` ran. -/
theorem updateObj_failed (region : RegionInternal K V D M) (key : K) (newValue : CacheablePtr V)
    {e : MapEntryImpl K V} {delta : Option D}
    (h : (updateObj region key e newValue delta).1 ≠ .noErr) :
    (updateObj region key e newValue delta).1 = .invalidDelta ∧
      (¬ ReachesFromDelta region key e delta → (updateObj region key e newValue delta).2 = e) := by
  cases delta with
  | none => exact absurd rfl h
  | some d =>
    rcases applyDelta_cases region key e d with hkept | ⟨hreaches, w, err, herr, heq⟩
    · exact ⟨congrArg Prod.fst hkept, fun _ => congrArg Prod.snd hkept⟩
    · have hfst : (applyDelta region key e d).1 = err := congrArg Prod.fst heq
      exact ⟨hfst.trans (herr.resolve_left fun hno => h (hfst.trans hno)),
        fun hnot => absurd hreaches hnot⟩

/-! ### Refusals -/

/-- The call is refused with this code. `runs` says that its delta reached `fromDelta`. -/
def Refused (runs : Prop) (err : GfErrType) : Prop :=
  err = .cacheEntryUpdated ∨ err = .cacheEntryExists ∨ err = .cacheConcurrentModification ∨
    err = .invalidDelta ∧ ¬ runs

theorem not_refused_noErr (runs : Prop) : ¬ Refused runs .noErr := by
  rintro (h | h | h | ⟨h, -⟩) <;> cases h

theorem refused_updated (runs : Prop) : Refused runs .cacheEntryUpdated := Or.inl rfl

theorem refused_invalidDelta {runs : Prop} : Refused runs .invalidDelta ↔ ¬ runs := by
  simp [Refused]

theorem not_refused_notFoundUnless (runs : Prop) (afterRemote : Bool) :
    ¬ Refused runs (notFoundUnless afterRemote) := by
  cases afterRemote <;> rintro (h | h | h | ⟨h, -⟩) <;> cases h

variable [DecidableEq K]

/-! ### What a segment shows -/

/-- What the segment shows at a key. -/
def visible (s : MapSegment K V) (key : K) : Option (CacheablePtr V × VersionStamp) :=
  (s.find key).bind fun entry => shown entry.obj

/-- The two segments show the same. -/
def SameVisible (s s' : MapSegment K V) : Prop := ∀ key, s'.visible key = s.visible key

variable {entry : MapEntry K V} {key : K} {s : MapSegment K V}

theorem visible_of_find (h : s.find key = some entry) : s.visible key = shown entry.obj := by
  rw [visible, h, Option.bind_some]

theorem visible_of_find_none (h : s.find key = none) : s.visible key = none := by
  rw [visible, h, Option.bind_none]

variable {s s' : MapSegment K V}

theorem SameVisible.of_find (h : ∀ key, s'.find key = s.find key) : SameVisible s s' := by
  intro key
  rw [visible, visible, h key]

theorem sameVisible_rehashIfNeeded (s : MapSegment K V) : SameVisible s s.rehashIfNeeded := by
  apply SameVisible.of_find
  intro key
  exact find_rehashIfNeeded s key

/-- A change at one key shows when that key shows something else. -/
theorem SetsAt.sameVisible_iff {x : Option (MapEntry K V)} (h : SetsAt key x s s') :
    SameVisible s s' ↔ s'.visible key = s.visible key := by
  constructor
  · intro hsame
    exact hsame key
  · intro hkey k
    by_cases hk : k = key
    · rw [hk]
      exact hkey
    · rw [visible, visible, h.find_ne hk]

theorem SetsAt.sameVisible_unbound_iff (h : SetsAt key none s s')
    (hfind : s.find key = some entry) : SameVisible s s' ↔ entry.obj.getValueI.isNull = true := by
  rw [h.sameVisible_iff, visible_of_find_none h.find_self, visible_of_find hfind, eq_comm,
    shown_eq_none_iff]

/-! ### Removing a tracker -/

theorem sameVisible_removeTracker_iff (hdis : s.concurrencyChecksEnabled = false)
    (hfind : s.find key = some entry) :
    SameVisible s (s.removeTracker key entry) ↔
      (Clearable entry → entry.obj.getValueI.isNull = true) := by
  have hsets := removeTracker_setsAt s key hdis entry
  -- an entry is unbound only when it shows nothing
  have hshown : ((released entry).bind fun e => shown e.obj) = shown entry.removeTracker.2.obj := by
    simp only [released]
    split
    · next hlast => exact ((shown_eq_none_iff _).mpr hlast.2).symm
    · split <;> rfl
  rw [hsets.sameVisible_iff, visible, hsets.find_self, hshown, visible_of_find hfind]
  exact shown_removeTracker entry

/-! ### The operations -/

/-- When the call returns with a refusal, the segment shows what it showed before. -/
def Frames {α : Type} (s : MapSegment K V) (Refusal : α → Prop)
    (result : Except CacheException α × MapSegment K V) : Prop :=
  ∀ r, result.1 = .ok r → Refusal r → SameVisible s result.2

section
variable {α : Type} {s s' : MapSegment K V} {Refusal : α → Prop}

theorem frames_error (x : CacheException) : Frames s Refusal (.error x, s') := by
  intro r hr
  cases hr

theorem frames_ok {r : α} : Frames s Refusal (.ok r, s') ↔ (Refusal r → SameVisible s s') := by
  constructor
  · intro h hr
    exact h r rfl hr
  · intro h r' hr' hrefusal
    cases hr'
    exact h hrefusal

theorem frames_accepted {r : α} (h : ¬ Refusal r) : Frames s Refusal (.ok r, s') :=
  frames_ok.mpr fun hr => absurd hr h

theorem frames_map {β : Type} {f : β → α} {result : Except CacheException β × MapSegment K V} :
    Frames s Refusal (result.1.map f, result.2) ↔ Frames s (fun b => Refusal (f b)) result := by
  obtain ⟨outcome, after⟩ := result
  cases outcome with
  | error x => exact iff_of_true (frames_error x) (frames_error x)
  | ok b =>
    show Frames s Refusal (.ok (f b), after) ↔ _
    rw [frames_ok, frames_ok]

variable {result : Except CacheException α × MapSegment K V}

theorem frames_rehashIfNeeded :
    Frames s.rehashIfNeeded Refusal result ↔ Frames s Refusal result := by
  have hsame : ∀ after, SameVisible s.rehashIfNeeded after ↔ SameVisible s after := by
    intro after
    unfold SameVisible
    simp only [sameVisible_rehashIfNeeded s _]
  unfold Frames
  simp only [hsame]

theorem frames_same (h : SameVisible s result.2) : Frames s Refusal result := by
  intro r _ _
  exact h

end

/-- `create` and `put` over a tombstone: it is gone when `putNoEntry` aborts. -/
def DropsTombstone (s : MapSegment K V) (key : K) (updateCount destroyTracker : Int) : Prop :=
  ∃ entry, s.find key = some entry ∧ (∃ e, entry.getImplPtr = .ok e) ∧
    entry.obj.getValueI.isTombstone = true ∧
    s.putNoEntryAborts key updateCount destroyTracker = true

section
variable (region : RegionInternal K V D M) (s : MapSegment K V) (key : K)
  (newValue : CacheablePtr V) (updateCount destroyTracker : Int) (versionTag : Option VersionTag)

/-- `putNoEntry` of an unbound key shows nothing new when it is refused. -/
theorem frames_putNoEntry {α : Type} (Refusal : α → Prop) (r : GfErrType × Option Nat → α)
    (hok : ∀ me, ¬ Refusal (r (.noErr, me))) (versionStamp : Option VersionStamp) :
    Frames s Refusal (.ok (r (s.rehashIfNeeded.putNoEntry key newValue updateCount destroyTracker
        versionTag versionStamp).1),
      (s.rehashIfNeeded.putNoEntry key newValue updateCount destroyTracker versionTag
        versionStamp).2) := by
  unfold putNoEntry
  split
  · exact frames_same (sameVisible_rehashIfNeeded s)
  · exact frames_accepted (hok _)

variable {entry : MapEntry K V}

/-- Over a tombstone, `putNoEntry` loses the tombstone exactly when it aborts. -/
theorem frames_replaceTombstone {α : Type} (Refusal : α → Prop) (r : GfErrType × Option Nat → α)
    (hok : ∀ me, ¬ Refusal (r (.noErr, me))) (hupdated : Refusal (r (.cacheEntryUpdated, none)))
    (hfind : s.find key = some entry) (htomb : entry.obj.getValueI.isTombstone = true)
    (versionStamp : Option VersionStamp) :
    Frames s Refusal
        (let t := s.rehashIfNeeded.unguardedRemoveActualEntryWithoutCancelTask key
        let p := t.2.putNoEntry key newValue updateCount destroyTracker versionTag versionStamp
        (.ok (r p.1), p.2.cancelTask? t.1)) ↔
      ¬ s.putNoEntryAborts key updateCount destroyTracker = true := by
  have haborts : (s.rehashIfNeeded.unguardedRemoveActualEntryWithoutCancelTask
      key).2.putNoEntryAborts key updateCount destroyTracker =
      s.putNoEntryAborts key updateCount destroyTracker := by
    rw [putNoEntryAborts_withoutCancelTask, putNoEntryAborts_rehashIfNeeded]
  simp only [putNoEntry, haborts]
  by_cases h : s.putNoEntryAborts key updateCount destroyTracker = true
  · rw [if_pos h, frames_ok]
    refine iff_of_false (fun hframe => ?_) (not_not.mpr h)
    -- the tombstone showed, and the key is unbound now
    have hsets := ((SetsAt.rehashIfNeeded hfind).trans (.withoutCancelTask _ key)).cancelTask?
      (s.rehashIfNeeded.unguardedRemoveActualEntryWithoutCancelTask key).1
    have hnull := (hsets.sameVisible_unbound_iff hfind).mp (hframe hupdated)
    rw [isTombstone_iff] at htomb
    rw [htomb] at hnull
    cases hnull
  · rw [if_neg h]
    exact iff_of_true (frames_accepted (hok _)) h

/-- `putForTrackedEntry` reaches `fromDelta`. A tracked write without checks has no delta branch. -/
def DeltaRuns (s : MapSegment K V) (entry : MapEntry K V) (updateCount : Int) (delta : Option D) :
    Prop :=
  (updateCount < 0 ∨ s.concurrencyChecksEnabled = true) ∧
    ReachesFromDelta region key entry.obj delta

/-- A tracked write that is refused clears the value of the entry by placement new. -/
def ClearsEntry (s : MapSegment K V) (entry : MapEntry K V) (updateCount : Int) : Prop :=
  s.concurrencyChecksEnabled = false ∧ 0 ≤ updateCount ∧ updateCount ≠ entry.getUpdateCount ∧
    Clearable entry ∧ ¬ entry.obj.getValueI.isNull = true

theorem frames_putForTrackedEntry (hfind : s.find key = some entry) (versionStamp : VersionStamp)
    (delta : Option D) :
    Frames s (Refused (DeltaRuns region key s entry updateCount delta))
      (s.putForTrackedEntry region key newValue entry updateCount versionStamp delta) ↔
      ¬ ClearsEntry s entry updateCount := by
  unfold putForTrackedEntry
  by_cases huntracked : updateCount < 0 ∨ s.concurrencyChecksEnabled = true
  · have hkept : ¬ ClearsEntry s entry updateCount := by
      rintro ⟨hdis, hcount, -⟩
      cases huntracked with
      | inl hneg => omega
      | inr hen => exact Bool.eq_false_iff.mp hdis hen
    rw [if_pos huntracked]
    refine iff_of_true ?_ hkept
    by_cases herr : (updateObj region key entry.obj newValue delta).1 = .noErr
    · -- the write goes through, or throws from the update count
      simp only [herr, ne_eq, not_true_eq_false, if_false]
      split
      · exact frames_accepted (not_refused_noErr _)
      · rw [frames_map]
        intro _ _ h
        exact absurd h (not_refused_noErr _)
    · obtain ⟨hinvalid, hobj⟩ := updateObj_failed region key newValue herr
      simp only [ne_eq, herr, not_false_eq_true, if_true]
      rw [frames_ok, hinvalid, refused_invalidDelta]
      intro h
      -- the same object is bound again
      rw [(SetsAt.bind s key _).sameVisible_iff, visible_of_find (find_bind_self s key _),
        visible_of_find hfind, hobj fun hreaches => h ⟨huntracked, hreaches⟩]
      cases entry <;> rfl
  · rw [if_neg huntracked]
    have hdis : s.concurrencyChecksEnabled = false := by
      rw [← Bool.not_eq_true]
      exact fun h => huntracked (Or.inr h)
    by_cases hcount : updateCount = entry.getUpdateCount
    · rw [if_pos hcount]
      exact iff_of_true (frames_accepted (not_refused_noErr _)) fun h => h.2.2.1 hcount
    · rw [if_neg hcount, frames_ok, sameVisible_removeTracker_iff hdis hfind]
      constructor
      · rintro h ⟨-, -, -, hclear, hvalue⟩
        exact hvalue (h (refused_updated _) hclear)
      · intro h _ hclear
        by_contra hvalue
        exact h ⟨hdis, by omega, hcount, hclear, hvalue⟩

omit [DecidableEq K] in
/-- A version check that fails is one with concurrency checks, so nothing aborts after it. -/
theorem enabled_of_checkVersion_error {deltaCheck : Bool} {err : GfErrType}
    (h : s.checkVersion region entry versionTag deltaCheck = .error err) :
    s.concurrencyChecksEnabled = true := by
  by_contra hdis
  rw [checkVersion_disabled region s versionTag (Bool.not_eq_true _ ▸ hdis)] at h
  cases h

theorem not_aborts_of_enabled (hen : s.concurrencyChecksEnabled = true) :
    ¬ s.putNoEntryAborts key updateCount destroyTracker = true := by
  simp [putNoEntryAborts, hen]

theorem exists_find_iff {s : MapSegment K V} {key : K} (hfind : s.find key = some entry)
    {P : MapEntry K V → Prop} : (∃ entry', s.find key = some entry' ∧ P entry') ↔ P entry := by
  rw [hfind]
  exact ⟨fun ⟨_, h, hP⟩ => Option.some.inj h ▸ hP, fun hP => ⟨entry, rfl, hP⟩⟩

theorem not_exists_find {s : MapSegment K V} {key : K} (hfind : s.find key = none)
    {P : MapEntry K V → Prop} : ¬ ∃ entry, s.find key = some entry ∧ P entry := by
  rw [hfind]
  exact fun ⟨_, h, _⟩ => nomatch h

section
variable {s key} {entry : MapEntry K V} (hfind : s.find key = some entry) {e : MapEntryImpl K V}
  (himpl : entry.getImplPtr = .ok e)
include hfind himpl

theorem dropsTombstone_iff : DropsTombstone s key updateCount destroyTracker ↔
    e.getValueI.isTombstone = true ∧
      s.putNoEntryAborts key updateCount destroyTracker = true := by
  rw [DropsTombstone, exists_find_iff hfind, getImplPtr_ok himpl]
  exact and_iff_right ⟨e, himpl⟩

theorem frames_create_bound :
    Frames s (fun r => Refused False r.err)
      (s.create region key newValue updateCount destroyTracker versionTag) ↔
      ¬ DropsTombstone s key updateCount destroyTracker := by
  have hobj := getImplPtr_ok himpl
  rw [dropsTombstone_iff updateCount destroyTracker hfind himpl]
  simp only [create, find_rehashIfNeeded, hfind, withImplPtr, himpl, checkVersion_rehashIfNeeded]
  by_cases hold : e.getValueI.isNull = true ∨ e.getValueI.isTombstone = true
  · rw [if_pos hold]
    cases hcheck : s.checkVersion region entry versionTag false with
    | error err =>
      have hen := enabled_of_checkVersion_error region s versionTag hcheck
      exact iff_of_true (frames_same (sameVisible_rehashIfNeeded s))
        fun h => not_aborts_of_enabled s key updateCount destroyTracker hen h.2
    | ok versionStamp =>
      dsimp only
      by_cases hnull : e.getValueI.isNull = true
      · rw [if_pos hnull, ← frames_rehashIfNeeded, frames_map]
        have hframe := (frames_putForTrackedEntry region s.rehashIfNeeded key newValue updateCount
          ((find_rehashIfNeeded s key).trans hfind) versionStamp none).mpr
            fun h => h.2.2.2.2 (hobj ▸ hnull)
        constructor
        · rintro - ⟨htomb, -⟩
          rw [(isNull_iff _).mp hnull] at htomb
          cases htomb
        · intro _ err herr hrefused
          apply hframe err herr
          -- there is no delta
          have hno : ¬ DeltaRuns region key s.rehashIfNeeded entry updateCount none :=
            fun h => Bool.false_ne_true h.2.1
          exact hrefused.imp id (Or.imp id (Or.imp id fun h => ⟨h.1, hno⟩))
      · have htomb : e.getValueI.isTombstone = true := hold.resolve_left hnull
        rw [if_neg hnull, and_iff_right htomb]
        exact frames_replaceTombstone s key newValue updateCount destroyTracker versionTag
          (fun r : CreateResult V => Refused False r.err)
          (fun p => { err := p.1, me := meOf p.1 e.addr p.2 }) (fun me => not_refused_noErr _)
          (refused_updated _) hfind (hobj ▸ htomb) (some versionStamp)
  · rw [if_neg hold]
    refine iff_of_true (frames_same (sameVisible_rehashIfNeeded s)) ?_
    rintro ⟨htomb, -⟩
    exact hold (Or.inr htomb)

end

theorem frames_create :
    Frames s (fun r => Refused False r.err)
      (s.create region key newValue updateCount destroyTracker versionTag) ↔
      ¬ DropsTombstone s key updateCount destroyTracker := by
  cases hfind : s.find key with
  | none =>
    simp only [create, find_rehashIfNeeded, hfind]
    exact iff_of_true (frames_putNoEntry s key newValue updateCount destroyTracker versionTag
      (fun r : CreateResult V => Refused False r.err) (fun r => { err := r.1, me := r.2 })
      (fun me => not_refused_noErr _) none) (not_exists_find hfind)
  | some entry =>
    cases himpl : entry.getImplPtr with
    | ok e =>
      exact frames_create_bound region newValue updateCount destroyTracker versionTag hfind himpl
    | error x =>
      simp only [create, find_rehashIfNeeded, hfind, withImplPtr, himpl]
      refine iff_of_true (frames_error x) ?_
      rw [DropsTombstone, exists_find_iff hfind, himpl]
      simp

/-- The put reaches `fromDelta`: the key is bound, the tag is accepted, the entry is no
tombstone. -/
def PutRunsDelta (delta : Option D) : Prop :=
  ∃ entry versionStamp, s.find key = some entry ∧ (∃ e, entry.getImplPtr = .ok e) ∧
    s.checkVersion region entry versionTag delta.isSome = .ok versionStamp ∧
    ¬ entry.obj.getValueI.isTombstone = true ∧ DeltaRuns region key s entry updateCount delta

/-- A tracked put that is refused clears the entry by placement new. -/
def PutClears (s : MapSegment K V) (key : K) (updateCount : Int) : Prop :=
  ∃ entry, s.find key = some entry ∧ (∃ e, entry.getImplPtr = .ok e) ∧
    ¬ entry.obj.getValueI.isTombstone = true ∧ ClearsEntry s entry updateCount

section
variable {s key} {entry : MapEntry K V} (hfind : s.find key = some entry) {e : MapEntryImpl K V}
  (himpl : entry.getImplPtr = .ok e)
include hfind himpl

theorem frames_put_bound (delta : Option D) :
    Frames s (fun r => Refused (PutRunsDelta region s key updateCount versionTag delta) r.err)
      (s.put region key newValue updateCount destroyTracker versionTag delta) ↔
      ¬ DropsTombstone s key updateCount destroyTracker ∧ ¬ PutClears s key updateCount := by
  have hobj := getImplPtr_ok himpl
  have hclears : PutClears s key updateCount ↔
      ¬ e.getValueI.isTombstone = true ∧ ClearsEntry s entry updateCount := by
    rw [PutClears, exists_find_iff hfind, hobj]
    exact and_iff_right ⟨e, himpl⟩
  rw [dropsTombstone_iff updateCount destroyTracker hfind himpl, hclears]
  simp only [put, find_rehashIfNeeded, hfind, withImplPtr, himpl, checkVersion_rehashIfNeeded]
  cases hcheck : s.checkVersion region entry versionTag delta.isSome with
  | error err =>
    have hen := enabled_of_checkVersion_error region s versionTag hcheck
    exact iff_of_true (frames_same (sameVisible_rehashIfNeeded s))
      ⟨fun h => not_aborts_of_enabled s key updateCount destroyTracker hen h.2,
        fun h => Bool.eq_false_iff.mp h.2.1 hen⟩
  | ok versionStamp =>
    dsimp only
    by_cases htomb : e.getValueI.isTombstone = true
    · rw [if_pos htomb, and_iff_right htomb, and_iff_left fun h => h.1 htomb]
      exact frames_replaceTombstone s key newValue updateCount destroyTracker versionTag
        (fun r : PutResult V => Refused _ r.err) (fun p => { err := p.1, me := p.2 })
        (fun me => not_refused_noErr _) (refused_updated _) hfind (hobj ▸ htomb)
        (some versionStamp)
    · rw [if_neg htomb, and_iff_right fun h => htomb h.1, and_iff_right htomb,
        ← frames_rehashIfNeeded, frames_map]
      -- the code is the one of `putForTrackedEntry`, and so is the run of the delta
      have hruns : PutRunsDelta region s key updateCount versionTag delta ↔
          DeltaRuns region key s.rehashIfNeeded entry updateCount delta := by
        unfold DeltaRuns
        rw [concurrencyChecksEnabled_rehashIfNeeded]
        constructor
        · rintro ⟨entry', stamp, hentry, -, -, -, hdelta⟩
          rw [hfind] at hentry
          cases hentry
          exact hdelta
        · intro hdelta
          exact ⟨entry, versionStamp, hfind, ⟨e, himpl⟩, hcheck, hobj ▸ htomb, hdelta⟩
      have hclears : ClearsEntry s.rehashIfNeeded entry updateCount ↔
          ClearsEntry s entry updateCount := by
        unfold ClearsEntry
        rw [concurrencyChecksEnabled_rehashIfNeeded]
      rw [← hclears, ← frames_putForTrackedEntry region s.rehashIfNeeded key newValue updateCount
        ((find_rehashIfNeeded s key).trans hfind) versionStamp delta, hruns]
      have herr : ∀ err, (if err = GfErrType.noErr then
          ({ err := err, me := some e.addr, oldValue := e.getValueI,
             isUpdate := !e.getValueI.isNull } : PutResult V) else { err := err }).err = err := by
        intro err
        split <;> rfl
      simp only [herr]

end

theorem frames_put (delta : Option D) :
    Frames s (fun r => Refused (PutRunsDelta region s key updateCount versionTag delta) r.err)
      (s.put region key newValue updateCount destroyTracker versionTag delta) ↔
      ¬ DropsTombstone s key updateCount destroyTracker ∧ ¬ PutClears s key updateCount := by
  cases hfind : s.find key with
  | none =>
    refine iff_of_true ?_ ⟨not_exists_find hfind, not_exists_find hfind⟩
    simp only [put, find_rehashIfNeeded, hfind]
    split
    · exact frames_same (sameVisible_rehashIfNeeded s)
    · exact frames_putNoEntry s key newValue updateCount destroyTracker versionTag
        (fun r : PutResult V => Refused _ r.err) (fun r => { err := r.1, me := r.2 })
        (fun me => not_refused_noErr _) none
  | some entry =>
    cases himpl : entry.getImplPtr with
    | ok e =>
      exact frames_put_bound region newValue updateCount destroyTracker versionTag hfind himpl delta
    | error x =>
      simp only [put, find_rehashIfNeeded, hfind, withImplPtr, himpl]
      refine iff_of_true (frames_error x) ?_
      rw [DropsTombstone, PutClears, exists_find_iff hfind, exists_find_iff hfind, himpl]
      simp

/-- `invalidate` is never refused after a change. -/
theorem frames_invalidate :
    Frames s (fun r => Refused False r.err) (s.invalidate region key versionTag) := by
  cases hfind : s.find key with
  | none =>
    by_cases hen : s.concurrencyChecksEnabled = true
    · simp only [invalidate, hfind, if_pos hen, putNoEntry_enabled s key _ (-1) (-1) versionTag hen,
        ne_eq, not_true_eq_false, if_false]
      rw [frames_ok]
      rintro (h | h | h | ⟨h, -⟩) <;> cases h
    · simp only [invalidate, hfind, if_neg hen]
      exact frames_same (.of_find fun _ => rfl)
  | some entry =>
    cases hcheck : s.checkVersion region entry versionTag false with
    | error err =>
      simp only [invalidate, hfind, hcheck]
      exact frames_same (.of_find fun _ => rfl)
    | ok versionStamp =>
      simp only [invalidate, hfind, hcheck, withImplPtr]
      cases entry.getImplPtr with
      | error x => exact frames_error x
      | ok e =>
        dsimp only
        split
        · exact frames_same (.of_find fun _ => rfl)
        · rw [frames_map]
          intro _ _ h
          exact absurd h (not_refused_noErr _)

/-- With concurrency checks, `remove` is refused before it changes anything but the tasks. -/
theorem frames_remove_enabled (hen : s.concurrencyChecksEnabled = true) (afterRemote : Bool) :
    Frames s (fun r => Refused False r.err)
      (s.remove region key updateCount versionTag afterRemote) := by
  have hen' : s.getExpiryTask.2.concurrencyChecksEnabled = true := hen
  have hfind' : s.getExpiryTask.2.find key = s.find key := rfl
  cases hfind : s.find key with
  | none =>
    simp only [remove, if_pos hen, removeWhenConcurrencyEnabled, hfind', hfind]
    cases versionTag <;> exact frames_accepted (not_refused_notFoundUnless _ _)
  | some entry =>
    simp only [remove, if_pos hen, removeWhenConcurrencyEnabled, hfind', hfind, withImplPtr]
    cases entry.getImplPtr with
    | error x => exact frames_error x
    | ok e =>
      have hcheck' : s.getExpiryTask.2.checkVersion region entry versionTag false =
          s.checkVersion region entry versionTag false := rfl
      simp only [hcheck']
      cases hcheck : s.checkVersion region entry versionTag false with
      | error err =>
        -- only the new task goes
        exact frames_same (.of_find fun _ => rfl)
      | ok versionStamp =>
        have hput : (s.getExpiryTask.2.putForTrackedEntry region key (.token .tombstone) entry
            updateCount versionStamp (none : Option D)).1 = .ok .noErr := by
          simp only [putForTrackedEntry, hen', or_true, if_true, updateObj, ne_eq,
            not_true_eq_false, if_false]
        simp only [hput]
        by_cases htomb : e.getValueI.isTombstone = true
        · simp only [if_pos htomb]
          exact frames_accepted (not_refused_notFoundUnless _ _)
        · simp only [if_neg htomb]
          exact frames_accepted (not_refused_noErr _)

/-- Without concurrency checks, `remove` unbinds an entry with a value and then refuses. -/
def RemoveUnbinds (s : MapSegment K V) (key : K) (updateCount : Int) : Prop :=
  s.concurrencyChecksEnabled = false ∧ ∃ entry, s.find key = some entry ∧
    ¬ entry.obj.getValueI.isNull = true ∧ 0 ≤ updateCount ∧ updateCount ≠ entry.getUpdateCount

theorem frames_remove (afterRemote : Bool) :
    Frames s (fun r => Refused False r.err)
      (s.remove region key updateCount versionTag afterRemote) ↔
      ¬ RemoveUnbinds s key updateCount := by
  by_cases hen : s.concurrencyChecksEnabled = true
  · refine iff_of_true (frames_remove_enabled region s key updateCount versionTag hen afterRemote)
      ?_
    exact fun h => Bool.eq_false_iff.mp h.1 hen
  · cases hfind : s.find key with
    | none =>
      simp only [remove, if_neg hen, hfind]
      exact iff_of_true (frames_same (.of_find fun _ => rfl)) fun h => not_exists_find hfind h.2
    | some entry =>
      have hiff : RemoveUnbinds s key updateCount ↔ ¬ entry.obj.getValueI.isNull = true ∧
          0 ≤ updateCount ∧ updateCount ≠ entry.getUpdateCount := by
        rw [RemoveUnbinds, exists_find_iff hfind, and_iff_right (Bool.not_eq_true _ ▸ hen)]
      simp only [remove, if_neg hen, hfind]
      rw [hiff]
      by_cases hcount : updateCount ≥ 0 ∧ updateCount ≠ entry.getUpdateCount
      · rw [if_pos hcount, frames_ok, (SetsAt.unbind s key).sameVisible_unbound_iff hfind]
        constructor
        · rintro h ⟨hvalue, -⟩
          exact hvalue (h (refused_updated _))
        · intro h _
          by_contra hvalue
          exact h ⟨hvalue, hcount⟩
      · rw [if_neg hcount]
        refine iff_of_true ?_ fun h => hcount h.2
        unfold withImplPtr
        cases entry.getImplPtr with
        | error x => exact frames_error x
        | ok e =>
          exact frames_accepted (not_refused_noErr _)

end

end MapSegment

/-! ### All calls -/

/-- The code that the call returned. The tracker calls return none. -/
def EntryResult.err {V : Type} : EntryResult V → Option GfErrType
  | create r => some r.err
  | put r => some r.err
  | invalidate r => some r.err
  | remove r => some r.err
  | addTrackerForEntry _ _ => none
  | removeTrackerForEntry => none

namespace EntryOp

variable {K V D M : Type} [DecidableEq K]

/-- The call is a put whose delta reaches `fromDelta`. -/
def RunsDelta (region : RegionInternal K V D M) (s : MapSegment K V) : EntryOp K V D → Prop
  | put key _ updateCount _ versionTag delta =>
    s.PutRunsDelta region key updateCount versionTag delta
  | _ => False

/-- The call changes what the segment shows, and is refused then. -/
def Discards (s : MapSegment K V) : EntryOp K V D → Prop
  | create key _ updateCount destroyTracker _ => s.DropsTombstone key updateCount destroyTracker
  | put key _ updateCount destroyTracker _ _ =>
    s.DropsTombstone key updateCount destroyTracker ∨ s.PutClears key updateCount
  | remove key updateCount _ _ => s.RemoveUnbinds key updateCount
  | _ => False

/-- In every state, and for every call: a refused call leaves what the segment shows exactly when it
does not discard an entry first. -/
theorem refused_frame_iff (region : RegionInternal K V D M) (s : MapSegment K V)
    (op : EntryOp K V D) :
    (∀ r err, (op.exec region s).1 = .ok r → r.err = some err →
        MapSegment.Refused (op.RunsDelta region s) err →
        ∀ key, (op.step region s).visible key = s.visible key) ↔
      ¬ op.Discards s := by
  -- the code is read from the result of the operation
  have hframes : ∀ {α : Type} {result : Except CacheException α × MapSegment K V}
      {f : α → EntryResult V} {err : α → GfErrType} {runs : Prop},
      (∀ a, (f a).err = some (err a)) →
      ((∀ r c, result.1.map f = .ok r → r.err = some c → MapSegment.Refused runs c →
        ∀ key, result.2.visible key = s.visible key) ↔
        s.Frames (fun a => MapSegment.Refused runs (err a)) result) := by
    intro α result f err runs hf
    obtain ⟨outcome, after⟩ := result
    cases outcome with
    | error x => exact iff_of_true (fun r c hr => (nomatch hr)) (MapSegment.frames_error x)
    | ok a =>
      rw [MapSegment.frames_ok]
      constructor
      · intro h hrefused
        exact h (f a) (err a) rfl (hf a) hrefused
      · intro h r c hr hc hrefused
        cases hr
        rw [hf a, Option.some.injEq] at hc
        exact h (hc ▸ hrefused)
  -- the tracker calls have no code
  have hnone : ∀ {α : Type} {outcome : Except CacheException α} {f : α → EntryResult V}
      {r : EntryResult V} {c : GfErrType}, (∀ a, (f a).err = none) → outcome.map f = .ok r →
      r.err ≠ some c := by
    intro α outcome f r c hf hr
    cases outcome with
    | error x => cases hr
    | ok a =>
      cases hr
      rw [hf a]
      exact (Option.some_ne_none c).symm
  cases op with
  | create key newValue updateCount destroyTracker versionTag =>
    exact (hframes fun _ => rfl).trans
      (s.frames_create region key newValue updateCount destroyTracker versionTag)
  | put key newValue updateCount destroyTracker versionTag delta =>
    rw [Discards, not_or]
    exact (hframes fun _ => rfl).trans
      (s.frames_put region key newValue updateCount destroyTracker versionTag delta)
  | invalidate key versionTag =>
    exact iff_of_true ((hframes fun _ => rfl).mpr (s.frames_invalidate region key versionTag)) id
  | remove key updateCount versionTag afterRemote =>
    exact (hframes fun _ => rfl).trans
      (s.frames_remove region key updateCount versionTag afterRemote)
  | addTrackerForEntry key addIfAbsent failIfPresent incUpdateCount =>
    refine iff_of_true ?_ id
    intro r err hr herr
    exact absurd herr (hnone (fun _ => rfl) hr)
  | removeTrackerForEntry key =>
    refine iff_of_true ?_ id
    intro r err hr herr
    exact absurd herr (hnone (fun _ => rfl) hr)

/-- The key 1 is bound to 5. A `remove` with another update count is refused, and the key is
gone. -/
theorem remove_refused_unbinds :
    let s := EntryOp.step MapSegment.natRegion (.open 0 false : MapSegment Nat Nat)
      (.put 1 (.object 5) (-1) 0 none none)
    let r := s.remove MapSegment.natRegion 1 3 none false
    (r.1.map (·.err)) = .ok .cacheEntryUpdated ∧ s.visible 1 = some (.object 5, {}) ∧
      r.2.visible 1 = none :=
  ⟨rfl, rfl, rfl⟩

end EntryOp

end GeodeNative.Cache

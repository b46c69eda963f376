import GeodeNative.Proofs.Cache.Size
import GeodeNative.Proofs.Cache.Tracking
import GeodeNative.Region.GetAll

/-!
# Notifications during a bulk read

`getAllNoThrow_remote` registers a tracker for each key, so that a notification that comes before
the reply should win over the value of the reply. But `fromData` passes the update count -1 to
`putLocal`, not the count of the tracker. So the value of the reply overwrites what the
notification left, and adds a key again that the notification destroyed.

What saves a notification is chance: the server did not have the key, the reply has the same value,
or the loop ends before it comes to the key, because the entry of an earlier key was cleared by its
tracker and `put` throws. `Overwrites` is the exact condition, and
`fromData_keeps_notification_iff` the result for every interleaving. The loop lemma is
`putObjects_stored`.
-/

set_option autoImplicit false

namespace GeodeNative.Region

open Cache Lib Proofs.Cache GetAllCollector GetAllState
open Cache.MapSegment

variable {K V D M : Type} [DecidableEq K]

/-! ### One put -/

omit [DecidableEq K] in
/-- What the local cache has of a key: whether there is an entry, and its value as `getEntry` reads
it. An entry with a null value is not the same as no entry: `containsKey` tells them apart. -/
def localValue (x : Option (MapEntry K V)) : Option (CacheablePtr V) :=
  x.map fun e => e.obj.getValueI

omit [DecidableEq K] in
/-- A value as it is read back from an entry. -/
def readBack (v : CacheablePtr V) : CacheablePtr V := if v.isDestroyed then .null else v

omit [DecidableEq K] in
/-- `put` does not throw on what the lookup finds. -/
def Usable (x : Option (MapEntry K V)) : Prop :=
  ∀ e, x = some e → ∃ o, e.getImplPtr = .ok o

omit [DecidableEq K] in
theorem usable_none : Usable (none : Option (MapEntry K V)) := nofun

omit [DecidableEq K] in
theorem usable_untracked {o : MapEntryImpl K V} (ho : Untracked o) : Usable (some (.impl o)) := by
  rintro e ⟨⟩
  exact ⟨o, getImplPtr_impl ho.weakThis⟩

/-- A `put` with the update count -1 and no destroy tracking: it throws on a cleared entry, and
otherwise sets the value. -/
theorem put_uncounted (region : RegionInternal K V D M) {s : MapSegment K V}
    (hdis : s.concurrencyChecksEnabled = false) {k : K} (hshape : ShapedAt (s.find k))
    (v : CacheablePtr V) (tag : Option VersionTag) :
    (¬ Usable (s.find k) ∧ (s.put region k v (-1) 0 tag none).1 = .error .badWeakPtr ∧
      SetsAt k (s.find k) s (s.put region k v (-1) 0 tag none).2) ∨
    (Usable (s.find k) ∧ ∃ o res, Untracked o ∧ o.value = v ∧
      (s.put region k v (-1) 0 tag none).1 = .ok res ∧ res.err = .noErr ∧
      SetsAt k (some (.impl o)) s (s.put region k v (-1) 0 tag none).2) := by
  obtain ⟨res, s', x, heq, -, hsets, hcases⟩ :=
    put_disabled region s k v (-1) 0 tag hdis hshape none
  -- `putNoEntry` does not abort a write that is not counted
  have hgoes : s.putNoEntryAborts k (-1) 0 = false := by simp [putNoEntryAborts]
  rw [heq]
  rcases hcases with ⟨-, -, haborts, -⟩ | ⟨hfind, -, me, o, rfl, ho, hvalue, rfl⟩ |
    ⟨o, hfind, ho, rfl, rfl⟩ | ⟨o, hfind, ho, hunbinds, hset, -⟩
  · exact absurd (haborts rfl) (by simp [hgoes])
  · rw [hfind]
    exact .inr ⟨usable_none, o, _, ho, hvalue, rfl, rfl, hsets⟩
  · refine .inl ⟨?_, rfl, hsets⟩
    rw [hfind]
    intro h
    obtain ⟨o', ho'⟩ := h _ rfl
    simp [MapEntry.getImplPtr, MapEntryImpl.sharedFromThis, ho.weakThis] at ho'
  · have hne : x ≠ none := by
      rw [ne_eq, hunbinds (by decide), hgoes]
      simp
    obtain ⟨⟨o', rfl, ho', hvalue⟩, r, rfl, hr⟩ := hset (by decide) rfl hne
    rw [hfind]
    exact .inr ⟨usable_untracked ho, o', r, ho', hvalue, rfl, hr, hsets⟩

/-! ### The entries map -/

section Map
variable {n : Nat} [NeZero n] (region : RegionInternal K V D M)

/-- A map without concurrency checks whose entries are untracked or cleared. -/
structure OrdinaryMap (m : ConcurrentEntriesMap K V n) : Prop where
  disabled : m.concurrencyChecksEnabled = false
  segments : ∀ i, Ordinary (m.segments i)

variable {m : ConcurrentEntriesMap K V n}

theorem OrdinaryMap.segmentFor (hm : OrdinaryMap m) (k : K) : Ordinary (m.segmentFor k) :=
  hm.segments _

/-- A call on the map is a call on the segment of its key, apart from the counter. -/
theorem step_entry (hm : OrdinaryMap m) (op : EntryOp K V D) :
    ∃ size, (MapOp.entry op).step region m =
      { m.setSegment op.key (op.step region (m.segmentFor op.key)) with size := size } := by
  cases op with
  | create | put | invalidate | remove =>
    -- the result of the segment decides about the counter alone
    simp only [MapOp.step, ConcurrentEntriesMap.create, ConcurrentEntriesMap.put,
      ConcurrentEntriesMap.invalidate, ConcurrentEntriesMap.remove]
    repeat' split
    all_goals exact ⟨_, rfl⟩
  | addTrackerForEntry | removeTrackerForEntry =>
    simp only [MapOp.step, ConcurrentEntriesMap.addTrackerForEntry,
      ConcurrentEntriesMap.removeTrackerForEntry, hm.disabled, Bool.false_eq_true, if_false]
    exact ⟨_, rfl⟩

theorem OrdinaryMap.step (hm : OrdinaryMap m) (op : MapOp K V D) :
    OrdinaryMap (op.step region m) := by
  cases op with
  | entry op =>
    obtain ⟨size, h⟩ := step_entry region hm op
    rw [h]
    exact ⟨hm.disabled, (ConcurrentEntriesMap.Touches.setSegment ..).forall_segments hm.segments
      (ordinary_step region (hm.segmentFor op.key) op)⟩
  | clear => exact ⟨hm.disabled, fun i => ordinary_of_empty (hm.segments i).disabled fun _ => rfl⟩

theorem OrdinaryMap.put (hm : OrdinaryMap m) (k : K) (v : CacheablePtr V)
    (tag : Option VersionTag) :
    ∃ r m', m.put region k v (-1) 0 tag none = (r, m') ∧ OrdinaryMap m' ∧
      ((¬ Usable (m.find k) ∧ r = .error .badWeakPtr ∧ ∀ k', m'.find k' = m.find k') ∨
        (Usable (m.find k) ∧ ∃ o res, r = .ok res ∧ res.err = .noErr ∧ Untracked o ∧ o.value = v ∧
          ∀ k', m'.find k' = if k' = k then some (.impl o) else m.find k')) := by
  have hcall := m.forwards_put region k v (-1) 0 tag none
  have hstep := hm.step region (.entry (.put k v (-1) 0 tag none))
  rw [MapOp.step] at hstep
  generalize m.put region k v (-1) 0 tag none = call at hcall hstep
  refine ⟨call.1, call.2, rfl, hstep, ?_⟩
  rw [hcall.result]
  obtain ⟨hnot, herr, hsets⟩ | ⟨husable, o, res, ho, hvalue, hok, hnoErr, hsets⟩ :=
    put_uncounted region (hm.segmentFor k).disabled ((hm.segmentFor k).shaped k) v tag
  · refine .inl ⟨hnot, herr, fun k' => ?_⟩
    rw [hcall.touches.find hsets]
    split
    · next h => rw [h]; rfl
    · rfl
  · exact .inr ⟨husable, o, res, hok, hnoErr, ho, hvalue, hcall.touches.find hsets⟩

end Map

/-! ### The objects of a chunk -/

section Chunk
variable {n : Nat} [NeZero n] (region : RegionInternal K V D M) (c : GetAllCollector K V)
  (part : GetAllPart K V)

omit [DecidableEq K] in
/-- The types of the objects. -/
def objTypes : List Nat := (part.objects.getD []).map Prod.fst

omit [DecidableEq K] in
/-- The tags. -/
def partTags : List (Option VersionTag) := part.tags.getD []

/-- The first value that the objects from `index` on have for `k`. -/
def firstObject (k : K) (index : Nat) : List (Nat × CacheablePtr V) → Option (CacheablePtr V)
  | [] => none
  | (objType, value) :: rest =>
    if c.keyAt part index = some k ∧ objType ≠ exceptionType then some value
    else firstObject k (index + 1) rest

/-- The value that the reply has for `k`: one that arrived earlier, or the first in this chunk. -/
def received (k : K) : CacheablePtr V :=
  (((c.values.getD ∅).lookup k).or (firstObject c part k 0 (part.objects.getD []))).getD .null

/-- Every object of the chunk has a key. -/
def Readable : Prop := ∀ index < (part.objects.getD []).length, c.keyAt part index ≠ none

variable {objects : List (Nat × CacheablePtr V)} {m : ConcurrentEntriesMap K V n}

theorem readObjects_ok {index : Nat} (h : ∀ i < objects.length, c.keyAt part (index + i) ≠ none)
    (values : AList fun _ : K => CacheablePtr V) :
    ∃ values', c.readObjects part index values objects = .ok values' ∧
      ∀ k, values'.lookup k = (values.lookup k).or (firstObject c part k index objects) := by
  induction objects generalizing index values with
  | nil => exact ⟨values, rfl, fun k => by simp [firstObject]⟩
  | cons object rest ih =>
    obtain ⟨objType, value⟩ := object
    have hrest : ∀ i < rest.length, c.keyAt part (index + 1 + i) ≠ none := by
      intro i hi
      rw [Nat.add_assoc, Nat.add_comm 1 i]
      exact h (i + 1) (Nat.succ_lt_succ hi)
    cases hkey : c.keyAt part index with
    | none => exact absurd hkey (h 0 (Nat.succ_pos _))
    | some key =>
      unfold readObjects
      rw [hkey]
      dsimp only
      split
      · next hskip =>
        obtain ⟨values', hok, hlookup⟩ := ih hrest values
        refine ⟨values', hok, fun k => ?_⟩
        rw [hlookup, firstObject, hkey]
        split
        · next hfirst =>
          -- the key has a value already
          obtain rfl : key = k := Option.some.inj hfirst.1
          obtain ⟨v, hv⟩ := Option.isSome_iff_exists.mp
            (AList.lookup_isSome.mpr (hskip.resolve_left hfirst.2))
          rw [hv, Option.some_or, Option.some_or]
        · rfl
      · next hnew =>
        obtain ⟨values', hok, hlookup⟩ := ih hrest (values.insert key value)
        refine ⟨values', hok, fun k => ?_⟩
        obtain ⟨htype, hnotin⟩ := not_or.mp hnew
        rw [hlookup, firstObject, hkey]
        by_cases hk : key = k
        · rw [← hk, AList.lookup_insert, if_pos ⟨rfl, htype⟩, AList.lookup_eq_none.mpr hnotin]
          rfl
        · rw [AList.lookup_insert_ne (Ne.symm hk), if_neg fun h => hk (Option.some.inj h.1)]

theorem readObjects_outOfRange {index : Nat}
    (h : ¬ ∀ i < objects.length, c.keyAt part (index + i) ≠ none)
    (values : AList fun _ : K => CacheablePtr V) :
    c.readObjects part index values objects = .error .outOfRange := by
  induction objects generalizing index values with
  | nil => exact absurd (fun i hi => absurd hi (Nat.not_lt_zero i)) h
  | cons object rest ih =>
    obtain ⟨objType, value⟩ := object
    unfold readObjects
    cases hkey : c.keyAt part index with
    | none => rfl
    | some key =>
      have hrest : ¬ ∀ i < rest.length, c.keyAt part (index + 1 + i) ≠ none := by
        refine fun hall => h fun i hi => ?_
        cases i with
        | zero =>
          rw [Nat.add_zero, hkey]
          exact nofun
        | succ i =>
          rw [← Nat.add_assoc, Nat.add_right_comm]
          exact hall i (Nat.lt_of_succ_lt_succ hi)
      dsimp only
      split
      · exact ih hrest values
      · exact ih hrest _

/-- The loop gets past `index`: it finds the key and the type, and when there is a value to put it
finds the tag and an entry that `put` does not throw on. -/
def Passes (m : ConcurrentEntriesMap K V n) (index : Nat) : Prop :=
  ∃ key objType, c.keyAt part index = some key ∧ (objTypes part)[index]? = some objType ∧
    (objType ≠ keyNotFoundType → (partTags part)[index]? ≠ none ∧ Usable (m.find key))

/-- The object at `index` is a value for `k`. -/
def StoresAt (k : K) (index : Nat) : Prop :=
  c.keyAt part index = some k ∧ (objTypes part)[index]? ≠ some keyNotFoundType

/-- The loop over `left` indices from `index` on comes to a value for `k`. -/
def PutAt (m : ConcurrentEntriesMap K V n) (k : K) (index left : Nat) : Prop :=
  ∃ i, i < left ∧ (∀ j ≤ i, Passes c part m (index + j)) ∧ StoresAt c part k (index + i)

theorem putAt_succ (m : ConcurrentEntriesMap K V n) (k : K) (index left : Nat) :
    PutAt c part m k index (left + 1) ↔
      Passes c part m index ∧ (StoresAt c part k index ∨ PutAt c part m k (index + 1) left) := by
  have hshift : ∀ j, index + 1 + j = index + (j + 1) := fun j => by omega
  constructor
  · rintro ⟨i, hi, hpass, hstore⟩
    refine ⟨hpass 0 (Nat.zero_le i), ?_⟩
    cases i with
    | zero => exact .inl hstore
    | succ i =>
      refine .inr ⟨i, Nat.lt_of_succ_lt_succ hi, fun j hj => ?_, ?_⟩
      · rw [hshift]
        exact hpass (j + 1) (Nat.succ_le_succ hj)
      · rw [hshift]
        exact hstore
  · rintro ⟨hfirst, hstore | ⟨i, hi, hpass, hstore⟩⟩
    · refine ⟨0, Nat.succ_pos left, fun j hj => ?_, hstore⟩
      rw [Nat.le_zero.mp hj]
      exact hfirst
    · refine ⟨i + 1, Nat.succ_lt_succ hi, fun j hj => ?_, by rwa [← hshift]⟩
      cases j with
      | zero => exact hfirst
      | succ j =>
        rw [← hshift]
        exact hpass j (Nat.le_of_succ_le_succ hj)

/-- What the loop leaves: a key that it comes to has the value of the reply, and the others are as
they were. -/
structure Stored (values : AList fun _ : K => CacheablePtr V) (k : K) (index left : Nat)
    (m m' : ConcurrentEntriesMap K V n) : Prop where
  put : PutAt c part m k index left →
    localValue (m'.find k) = some (readBack ((values.lookup k).getD .null))
  keep : ¬ PutAt c part m k index left → m'.find k = m.find k

variable {c part} in
theorem stored_of_end {values : AList fun _ : K => CacheablePtr V} {k : K} {index left : Nat}
    {m m' : ConcurrentEntriesMap K V n} (hend : ¬ Passes c part m index)
    (hsame : ∀ k, m'.find k = m.find k) : Stored c part values k index (left + 1) m m' where
  put h := absurd ((putAt_succ c part m k index left).mp h).1 hend
  keep _ := hsame k

theorem putObjects_stored (hadd : c.addToLocalCache = true) (htracker : c.destroyTracker = 0)
    (values : AList fun _ : K => CacheablePtr V) (k : K) (left index : Nat) (hm : OrdinaryMap m) :
    Stored c part values k index left m
      (c.putObjects region part (objTypes part) (partTags part) index values m left).2 := by
  induction left generalizing index m with
  | zero => exact ⟨by simp [PutAt], fun _ => rfl⟩
  | succ left ih =>
    unfold putObjects
    cases hkey : c.keyAt part index with
    | none =>
      exact stored_of_end (by simp [Passes, hkey]) fun _ => rfl
    | some key =>
      cases htype : (objTypes part)[index]? with
      | none =>
        exact stored_of_end (by simp [Passes, htype]) fun _ => rfl
      | some objType =>
        dsimp only
        by_cases hput : objType = keyNotFoundType
        · -- the server does not have the key
          rw [if_pos hput]
          have hpass : Passes c part m index :=
            ⟨key, objType, hkey, htype, fun hne => absurd hput hne⟩
          have hnot : ¬ StoresAt c part k index := fun h => h.2 (by rw [htype, hput])
          have hnext := ih (index + 1) hm
          have hiff : PutAt c part m k index (left + 1) ↔ PutAt c part m k (index + 1) left := by
            rw [putAt_succ, and_iff_right hpass, or_iff_right hnot]
          exact ⟨fun h => hnext.put (hiff.mp h), fun h => hnext.keep (mt hiff.mpr h)⟩
        · rw [if_neg hput, if_pos hadd, htracker]
          cases htag : (partTags part)[index]? with
          | none =>
            exact stored_of_end (by simp [Passes, htype, hput, htag]) fun _ => rfl
          | some tag =>
            dsimp only
            obtain ⟨r, m₁, hr, hm₁, ⟨hnot, rfl, hsame⟩ | ⟨husable, o, res, rfl, hnoErr, ho, hvalue,
              hfind⟩⟩ := hm.put region key ((values.lookup key).getD .null) tag
            · rw [hr]
              exact stored_of_end (by simp [Passes, hkey, htype, hput, hnot]) hsame
            · rw [hr]
              dsimp only
              rw [hnoErr, if_neg (by simp)]
              have hpass : Passes c part m index :=
                ⟨key, objType, hkey, htype, fun _ => ⟨by simp [htag], husable⟩⟩
              have hcongr : ∀ key', Usable (m₁.find key') ↔ Usable (m.find key') := by
                intro key'
                rw [hfind]
                split
                · next h =>
                  rw [h]
                  exact iff_of_true (usable_untracked ho) husable
                · rfl
              have hnext := ih (index + 1) hm₁
              have hiff : PutAt c part m k index (left + 1) ↔
                  StoresAt c part k index ∨ PutAt c part m₁ k (index + 1) left := by
                rw [putAt_succ, and_iff_right hpass]
                simp only [PutAt, Passes, hcongr]
              refine ⟨fun h => ?_, fun h => ?_⟩
              · by_cases hlater : PutAt c part m₁ k (index + 1) left
                · exact hnext.put hlater
                · -- this is the last value for `k`
                  obtain ⟨hk, -⟩ := (hiff.mp h).resolve_right hlater
                  obtain rfl : key = k := Option.some.inj (hkey.symm.trans hk)
                  rw [hnext.keep hlater, hfind, if_pos rfl]
                  exact congrArg (some ∘ readBack) hvalue
              · obtain ⟨hstore, hlater⟩ := not_or.mp (mt hiff.mpr h)
                have hne : k ≠ key := by
                  rintro rfl
                  refine hstore ⟨hkey, fun hnone => hput ?_⟩
                  exact Option.some.inj (htype.symm.trans hnone)
                rw [hnext.keep hlater, hfind, if_neg hne]

/-- Reading the chunk changes what the local cache has of `k`: the chunk can be read and has tags,
the loop comes to a value for `k`, and the local cache has no entry for `k` or one with another
value. -/
structure Overwrites (m : ConcurrentEntriesMap K V n) (k : K) : Prop where
  readable : Readable c part
  tagged : part.tags ≠ none
  put : PutAt c part m k 0 (lengthOf part)
  differs : localValue (m.find k) ≠ some (readBack (received c part k))

/-- `fromData` without concurrency checks, for a collector of a vector of keys. -/
theorem fromData_keeps_iff (hadd : c.addToLocalCache = true) (htracker : c.destroyTracker = 0)
    (hm : OrdinaryMap m) (k : K) :
    localValue ((c.fromData region part m).2.find k) = localValue (m.find k) ↔
      ¬ Overwrites c part m k := by
  unfold fromData
  by_cases hreadable : Readable c part
  · have hindex : ∀ i < (part.objects.getD []).length, c.keyAt part (0 + i) ≠ none := by
      intro i hi
      rw [Nat.zero_add]
      exact hreadable i hi
    obtain ⟨values, hvalues, hlookup⟩ := readObjects_ok c part hindex (c.values.getD ∅)
    rw [hvalues]
    dsimp only
    cases htags : part.tags with
    | none =>
      have hnot : ¬ Overwrites c part m k := fun h => h.tagged htags
      -- undefined behaviour, or no object at all
      by_cases hlen : 0 < lengthOf part
      · rw [if_pos ⟨rfl, hlen⟩]
        exact iff_of_true rfl hnot
      · rw [if_neg fun h => hlen h.2, Nat.eq_zero_of_not_pos hlen]
        cases part.objects <;> exact iff_of_true rfl hnot
    | some tags =>
      cases hobjects : part.objects with
      | none =>
        refine iff_of_true rfl fun h => ?_
        obtain ⟨i, -, hpass, -⟩ := h.put
        obtain ⟨-, objType, -, htype, -⟩ := hpass 0 (Nat.zero_le i)
        rw [objTypes, hobjects] at htype
        cases htype
      | some objects =>
        have hstored := putObjects_stored region c part hadd htracker values k
          (lengthOf part) 0 hm
        have htypes : objTypes part = objects.map Prod.fst := by rw [objTypes, hobjects]; rfl
        have hpartTags : partTags part = tags := by rw [partTags, htags]; rfl
        rw [htypes, hpartTags] at hstored
        have hreceived : (values.lookup k).getD .null = received c part k := by
          rw [hlookup]
          rfl
        have hgoal : ∀ m' : ConcurrentEntriesMap K V n,
            Stored c part values k 0 (lengthOf part) m m' →
            (localValue (m'.find k) = localValue (m.find k) ↔ ¬ Overwrites c part m k) := by
          intro m' h
          by_cases hput : PutAt c part m k 0 (lengthOf part)
          · rw [h.put hput, hreceived]
            constructor
            · exact fun heq hover => hover.differs heq.symm
            · intro hnot
              by_contra hne
              exact hnot ⟨hreadable, by rw [htags]; exact nofun, hput, Ne.symm hne⟩
          · rw [h.keep hput]
            exact iff_of_true rfl fun hover => hput hover.put
        dsimp only [Option.getD_some]
        revert hstored
        rcases c.putObjects region part (objects.map Prod.fst) tags 0 values m
          (lengthOf part) with ⟨x | values', m'⟩
        · exact hgoal m'
        · exact hgoal m'
  · have hindex : ¬ ∀ i < (part.objects.getD []).length, c.keyAt part (0 + i) ≠ none := by
      simp only [Nat.zero_add]
      exact hreadable
    rw [readObjects_outOfRange c part hindex]
    exact iff_of_true rfl fun h => hreadable h.readable

theorem putObjects_ordinary (types : List Nat) (tags : List (Option VersionTag)) (left index : Nat)
    (values : AList fun _ : K => CacheablePtr V) (hm : OrdinaryMap m) :
    OrdinaryMap (c.putObjects region part types tags index values m left).2 := by
  induction left generalizing index values m with
  | zero => exact hm
  | succ left ih =>
    unfold putObjects
    cases c.keyAt part index with
    | none => exact hm
    | some key =>
      cases types[index]? with
      | none => exact hm
      | some objType =>
        dsimp only
        split
        · exact ih (index + 1) values hm
        · split
          · cases tags[index]? with
            | none => exact hm
            | some tag =>
              have hput := hm.step region (.entry (.put key ((values.lookup key).getD .null) (-1)
                c.destroyTracker tag (none : Option D)))
              unfold MapOp.step at hput
              revert hput
              dsimp only
              rcases m.put region key ((values.lookup key).getD .null) (-1) c.destroyTracker tag
                none
                with ⟨x | res, m'⟩
              · exact fun hm' => hm'
              · exact fun hm' => ih (index + 1) _ hm'
          · cases (m.segmentFor key).getEntry key with
            | error x => exact hm
            | ok me => exact ih (index + 1) _ hm

theorem fromData_ordinary (hm : OrdinaryMap m) : OrdinaryMap (c.fromData region part m).2 := by
  unfold fromData
  dsimp only
  split
  · exact hm
  · next values _ =>
    split
    · exact hm
    · split
      · exact hm
      · next objects _ =>
        have hloop := putObjects_ordinary region c part (objects.map Prod.fst) (part.tags.getD [])
          (lengthOf part) 0 values hm
        split
        · next heq => rwa [heq] at hloop
        · next heq => rwa [heq] at hloop

end Chunk

/-! ### Interleavings -/

section Interleavings
variable {n : Nat} [NeZero n] (region : RegionInternal K V D M)

omit [DecidableEq K] in
/-- A call by which a server notification changes the entries map. -/
def IsNotification : EntryOp K V D → Prop
  | .create _ _ updateCount _ _ => updateCount = -1
  | .put _ _ updateCount _ _ _ => updateCount = -1
  | .invalidate _ _ => True
  | .remove _ updateCount _ _ => updateCount = -1
  | .addTrackerForEntry _ _ _ _ => False
  | .removeTrackerForEntry _ => False

/-- The invariant of a `getAll` that adds to the local cache of a region without concurrency
checks. -/
structure InProgress (s : GetAllState K V n) : Prop where
  entries : OrdinaryMap s.entries
  addToLocalCache : s.collector.addToLocalCache = true
  destroyTracker : s.collector.destroyTracker = 0

theorem fromData_collector {c c' : GetAllCollector K V} {part : GetAllPart K V}
    {m : ConcurrentEntriesMap K V n} (h : (c.fromData region part m).1 = .ok c') :
    c'.addToLocalCache = c.addToLocalCache ∧ c'.destroyTracker = c.destroyTracker := by
  unfold fromData at h
  dsimp only at h
  split at h
  · cases h
  · split at h
    · cases h
    · split at h
      · cases h
        exact ⟨rfl, rfl⟩
      · split at h
        · cases h
        · cases h
          exact ⟨rfl, rfl⟩

theorem InProgress.step {s : GetAllState K V n} (hs : InProgress s) (op : GetAllOp K V D) :
    InProgress (s.step region op) := by
  cases op with
  | register =>
    unfold GetAllState.step
    cases s.nextKey with
    | none => exact hs
    | some key =>
      refine ⟨?_, hs.addToLocalCache, hs.destroyTracker⟩
      exact hs.entries.step region (.entry (.addTrackerForEntry key true false false))
  | other op => exact ⟨hs.entries.step region op, hs.addToLocalCache, hs.destroyTracker⟩
  | chunk part =>
    unfold GetAllState.step
    dsimp only
    cases hr : (s.collector.fromData region part s.entries).1 with
    | error x =>
      exact ⟨fromData_ordinary region _ part hs.entries, hs.addToLocalCache, hs.destroyTracker⟩
    | ok c' =>
      obtain ⟨hadd, htracker⟩ := fromData_collector region hr
      exact ⟨fromData_ordinary region _ part hs.entries, hadd.trans hs.addToLocalCache,
        htracker.trans hs.destroyTracker⟩

theorem InProgress.run {s : GetAllState K V n} (hs : InProgress s) (ops : List (GetAllOp K V D)) :
    InProgress (run (GetAllState.step region) s ops) :=
  run_keeps (fun _ op h => h.step region op) hs

end Interleavings

/-! ### Two runs -/

/-- A `getAll` for the key 1, which has the value 5 in the local cache. -/
def readingOne : GetAllState Nat Nat 1 :=
  run (step natRegion) (start (.open (fun _ => 0) 0 false) [1] none)
    [.other (.entry (.put 1 (.object 5) (-1) 0 none none))]

/-- The same, after the key was registered and a notification destroyed it. -/
def destroyedOne : GetAllState Nat Nat 1 :=
  run (step natRegion) readingOne
    [.register, .other (.entry (.remove 1 (-1) none true))]

end GeodeNative.Region

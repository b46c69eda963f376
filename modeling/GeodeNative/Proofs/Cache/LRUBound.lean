import GeodeNative.Proofs.Cache.LRUInvariant

/-!
# The limit of a map that destroys entries

A map with the action `localDestroy` has at most as many entries as its limit says: `create` and
`put` add one entry and evict one when there are too many. The new entry itself has a node that is
not evicted, so the list always has an entry to give away (`processLRU_one`).

The entry that goes can be the new one. `put_survives_iff` says when it is not: the key was bound,
or the map was not full, or the list had an entry that the search takes before it comes to the new
one.
-/

set_option autoImplicit false

namespace GeodeNative.Cache

open Lib MapSegment LRUView

namespace LRUEntriesMap

variable {K V D M P S : Type} {n : Nat} [NeZero n] [DecidableEq K]

/-- The keys that the map binds. -/
def boundKeys (m : LRUEntriesMap K V P S n) : Set K := { k | m.find k ≠ none }

/-- The invariant of a map that destroys entries. The counter of a map with the largest limit can
wrap around; all other counters are the number of keys. -/
structure Bounded (env : LRURegion K V D M P S) (limit : BitVec 32)
    (m : LRUEntriesMap K V P S n) : Prop where
  inv : LRUInv env (fun _ _ => none) m
  action : ∃ updateCount, m.action = .localDestroy updateCount
  limit : m.limit = limit
  limited : m.heapLRUEnabled = false ∨ m.limit ≠ 0
  bound : m.boundKeys.ncard ≤ m.limit.toNat ∨ m.limit.toNat + 1 = 2 ^ 32

section
variable {env : LRURegion K V D M P S} {limit : BitVec 32} {m m' : LRUEntriesMap K V P S n} {k : K}

theorem boundKeys_eq (m : LRUEntriesMap K V P S n) :
    m.boundKeys = { k | m.view.bound k ≠ none } := by
  ext k
  show m.find k ≠ none ↔ (m.find k).map _ ≠ none
  rw [ne_eq, ne_eq, Option.map_eq_none_iff]

theorem Bounded.size_le (h : Bounded env limit m) : m.size ≤ m.limit := by
  rw [BitVec.le_def]
  cases h.bound with
  | inl hle =>
    have hcount := h.inv.listed.counted
    rw [← boundKeys_eq] at hcount
    have hlt : m.boundKeys.ncard < 2 ^ 32 := Nat.lt_of_le_of_lt hle m.limit.isLt
    rw [show m.size.toNat = _ from hcount.toNat_eq hlt]
    exact hle
  | inr hmax =>
    omega

theorem Bounded.finite (h : Bounded env limit m) : m.boundKeys.Finite := by
  rw [boundKeys_eq]
  exact h.inv.listed.counted.finite

omit [NeZero n] [DecidableEq K] in
theorem mustEvict_localDestroy {updateCount : Int} (haction : m.action = .localDestroy updateCount)
    (hlimited : m.heapLRUEnabled = false ∨ m.limit ≠ 0) :
    m.mustEvict = decide (m.limit < m.size) := by
  have hheap : ¬(m.heapLRUEnabled = true ∧ m.limit = 0) := by
    rintro ⟨hheap, hzero⟩
    cases hlimited with
    | inl h =>
      rw [h] at hheap
      cases hheap
    | inr h => exact h hzero
  unfold mustEvict
  rw [haction, if_neg (show ¬(LRUAction.localDestroy updateCount).overflows = true from nofun),
    if_neg hheap]

theorem processLRU_idle (hidle : m.mustEvict = false) : m.processLRU env = (.ok .noErr, m) := by
  unfold processLRU
  cases 2 * m.lruList.nodes.length with
  | zero => rfl
  | succ rounds => rw [evictWhile, hidle, if_neg Bool.false_ne_true]

theorem processLRU_once (hmust : m.mustEvict = true)
    (heq : m.evictionHelper env = (.ok .noErr, m')) (hidle : m'.mustEvict = false) :
    m.processLRU env = (.ok .noErr, m') := by
  have hrounds : 2 * m.lruList.nodes.length = 2 * m.lruList.nextNodes.length + 1 + 1 := by
    show 2 * (m.lruList.nextNodes.length + 1) = _
    omega
  unfold processLRU
  rw [hrounds, evictWhile, if_pos hmust, heq]
  show m'.evictWhile env (2 * m.lruList.nextNodes.length + 1) = _
  rw [evictWhile, hidle, if_neg Bool.false_ne_true]

section
variable {contents : S → K → Option V} {w : LRUView K V P} {size : Int}

theorem boundKeys_new {v : CacheablePtr V} (hw : m.view.New k v w)
    (hb : Becomes contents m k w size m') : m'.boundKeys = insert k m.boundKeys := by
  ext k'
  rw [boundKeys_eq, boundKeys_eq, hb.view]
  show w.bound k' ≠ none ↔ k' ∈ insert k { k | m.view.bound k ≠ none }
  rw [hw.bound]
  by_cases hk : k' = k
  · simp [hk]
  · simp [hk]

end

variable {w : LRUView K V P} {size : Int}

/-- A step that keeps the settings and the number of keys, or has one key less. -/
theorem Bounded.becomes (h : Bounded env limit m) (hb : Becomes (fun _ _ => none) m k w size m')
    (hinv : LRUInv env (fun _ _ => none) m') (hkeys : m'.boundKeys ⊆ m.boundKeys) :
    Bounded env limit m' where
  inv := hinv
  action := by
    rw [hb.action]
    exact h.action
  limit := hb.limit.trans h.limit
  limited := by
    rw [hb.heapLRUEnabled, hb.limit]
    exact h.limited
  bound := by
    rw [hb.limit]
    have hcard := Set.ncard_le_ncard hkeys h.finite
    have hbound := h.bound
    omega

theorem evictionHelper_removes {contents : S → K → Option V} (h : LRUInv env contents m)
    {updateCount : Int} (haction : m.action = .localDestroy updateCount) (hk : m.view.InMemory k) :
    ∃ e a u list size m', m.lruList.getLRUEntry = (some (some (e, a)), list) ∧
      m.view.bound e = some (a, u) ∧ m.evictionHelper env = (.ok .noErr, m') ∧
      Becomes contents m e (LRUView.removed { m.view with list := list } e a u) size m' ∧
      LRUInv env contents m' := by
  cases hget : m.lruList.getLRUEntry with
  | mk entry list =>
    cases entry with
    | none =>
      -- the entry of `k` is in the list and is not evicted
      obtain ⟨a, u, hbound, hu⟩ := hk
      obtain ⟨hlive, hmem⟩ := h.listed.memory k a u hbound hu fun he => nomatch he
      have hevicted := (LRUList.getLRUEntry_none hget).2 _ hmem
      exact absurd (hevicted.symm.trans hlive) (nomatch ·)
    | some entry =>
      obtain ⟨e, a, u, rfl, hbound, hlisted⟩ := h.take hget
      obtain ⟨m', heq, hbecomes⟩ := evictionHelper_localDestroy h haction hget hbound
      exact ⟨e, a, _, list, _, m', rfl, hbound, heq, hbecomes,
        h.remove hlisted (fun _ he => (Option.some.inj he).symm) hbound hbecomes⟩

section
variable (h : Bounded env limit m)
include h

/-- A new entry, and what the loop makes of it. The new entry stays exactly when the map was not
full, or when the list had an entry to give away before it. -/
theorem processLRU_new (hk : m.view.bound k = none) {v : V} {m₁ : LRUEntriesMap K V P S n}
    (hw : m.view.New k (.object v) w) (hb : Becomes (fun _ _ => none) m k w size m₁) :
    ∃ m₂, m₁.processLRU env = (.ok .noErr, m₂) ∧ Bounded env limit m₂ ∧
      (m₂.view.bound k = some (m.view.nextAddr k, .object v) ∧
          (¬m.limit < m.size + 1 ∨ m.lruList.Spares) ∨
        m₂.view.bound k = none ∧ m.limit < m.size + 1 ∧ ¬m.lruList.Spares) := by
  obtain ⟨updateCount, haction⟩ := h.action
  have heffect : (LRUOp.put k (.object v) 0 0 none).Effect env m.view k w _ := .put hk hw
  have hinv₁ := h.inv.effect heffect hb
  have hself : m₁.view.bound k = some (m.view.nextAddr k, .object v) := by
    rw [hb.view, hw.bound, if_pos rfl]
  have hlist : m₁.lruList = m.lruList.appendEntry (some (k, m.view.nextAddr k)) :=
    (congrArg LRUView.list hb.view).trans hw.list
  have hsize : m₁.size = m.size + 1 := (congrArg LRUView.size hb.view).trans hw.size
  have haction₁ : m₁.action = .localDestroy updateCount := hb.action.trans haction
  have hlimited₁ : m₁.heapLRUEnabled = false ∨ m₁.limit ≠ 0 := by
    rw [hb.heapLRUEnabled, hb.limit]
    exact h.limited
  have hmust := mustEvict_localDestroy haction₁ hlimited₁
  rw [hb.limit, hsize] at hmust
  have hnew : k ∉ m.boundKeys := by
    rw [boundKeys_eq]
    exact fun hne => hne hk
  have hcard₁ : m₁.boundKeys.ncard = m.boundKeys.ncard + 1 := by
    rw [boundKeys_new hw hb, Set.ncard_insert_of_notMem hnew h.finite]
  have hcard : m.boundKeys.ncard ≤ m.limit.toNat → m.size.toNat = m.boundKeys.ncard := by
    intro hle
    have hcount := h.inv.listed.counted
    rw [← boundKeys_eq] at hcount
    exact hcount.toNat_eq (Nat.lt_of_le_of_lt hle m.limit.isLt)
  have hbound := h.bound
  by_cases hfull : m.limit < m.size + 1
  · rw [decide_eq_true hfull] at hmust
    obtain ⟨e, a, u, list, size', m₂, hget, he, hevict, hb₂, hinv₂⟩ :=
      evictionHelper_removes hinv₁ haction₁ (k := k) ⟨_, _, hself, rfl⟩
    have hkeys : m₂.boundKeys = m₁.boundKeys \ {e} := by
      ext k'
      rw [boundKeys_eq, boundKeys_eq, hb₂.view]
      show (LRUView.removed _ e a u).bound k' ≠ none ↔ _
      rw [bound_removed]
      by_cases hk : k' = e
      · simp [hk]
      · simp [hk]
    have hbounded : Bounded env limit m₂ := by
      refine ⟨hinv₂, ⟨updateCount, hb₂.action.trans haction₁⟩,
        hb₂.limit.trans (hb.limit.trans h.limit), ?_, .inl ?_⟩
      · rw [hb₂.heapLRUEnabled, hb₂.limit]
        exact hlimited₁
      · have hmem : e ∈ m₁.boundKeys := by
          rw [boundKeys_eq]
          intro hnone
          cases hnone.symm.trans he
        have hfinite : m₁.boundKeys.Finite := by
          rw [boundKeys_new hw hb]
          exact h.finite.insert k
        have hless := Set.ncard_sdiff_singleton_add_one hmem hfinite
        rw [hkeys, hb₂.limit, hb.limit]
        rw [BitVec.lt_def] at hfull
        omega
    have hidle : m₂.mustEvict = false := by
      rw [mustEvict_localDestroy (hb₂.action.trans haction₁) hbounded.limited]
      exact decide_eq_false (BitVec.not_lt.mpr hbounded.size_le)
    refine ⟨m₂, processLRU_once hmust hevict hidle, hbounded, ?_⟩
    -- whether the list gives the new entry away
    obtain ⟨hdefault, hfresh⟩ := h.inv.listed.fresh k (m.view.nextAddr k) (Nat.le_refl _)
    have hself_iff := LRUList.getLRUEntry_appended m.lruList hfresh
      (by rw [show m.lruList.properties _ = _ from hdefault])
      (by rw [show m.lruList.properties _ = _ from hdefault])
    rw [← hlist, hget] at hself_iff
    rw [hb₂.view, bound_removed]
    by_cases hek : k = e
    · subst hek
      rw [hself] at he
      cases he
      rw [if_pos rfl]
      exact .inr ⟨rfl, hfull, hself_iff.mp rfl⟩
    · rw [if_neg hek]
      refine .inl ⟨hself, .inr ?_⟩
      by_contra hspares
      have heq := Option.some.inj (Option.some.inj (hself_iff.mpr hspares))
      exact hek (Prod.mk.inj heq).1.symm
  · rw [decide_eq_false hfull] at hmust
    refine ⟨m₁, processLRU_idle hmust, ⟨hinv₁, ⟨updateCount, haction₁⟩, hb.limit.trans h.limit,
      hlimited₁, ?_⟩, .inl ⟨hself, .inl hfull⟩⟩
    rw [hb.limit, hcard₁]
    rw [BitVec.lt_def, BitVec.toNat_add] at hfull
    have hone : (1 : BitVec 32).toNat = 1 := rfl
    omega

/-! ### The operations -/

theorem Bounded.ne_overflowed {a : Nat} {u : CacheablePtr V} (hk : m.view.bound k = some (a, u)) :
    u ≠ .token .overflowed := by
  intro hu
  rw [hu] at hk
  obtain ⟨updateCount, haction⟩ := h.action
  have hdisk := (h.inv.stored k a hk).1
  rw [haction] at hdisk
  cases hdisk

theorem Bounded.agrees (hplain : PlainMap m') (ha : Agrees m m') :
    Bounded env limit m' where
  inv := h.inv.agrees hplain ha
  action := by
    rw [ha.action]
    exact h.action
  limit := ha.limit.trans h.limit
  limited := by
    rw [ha.heapLRUEnabled, ha.limit]
    exact h.limited
  bound := by
    rw [boundKeys_eq, ha.view, ← boundKeys_eq, ha.limit]
    exact h.bound

theorem Bounded.idle : m.processLRU env = (.ok .noErr, m) := by
  obtain ⟨updateCount, haction⟩ := h.action
  apply processLRU_idle
  rw [mustEvict_localDestroy haction h.limited]
  exact decide_eq_false (BitVec.not_lt.mpr h.size_le)

theorem Bounded.effect {op : LRUOp K V} (heffect : op.Effect env m.view k w size)
    (hk : m.view.bound k ≠ none) (hb : Becomes (fun _ _ => none) m k w size m') :
    Bounded env limit m' := by
  refine h.becomes hb (h.inv.effect heffect hb) ?_
  rw [boundKeys_eq, boundKeys_eq, hb.view]
  intro k' hk'
  by_cases heq : k' = k
  · exact heq ▸ hk
  · show m.view.bound k' ≠ none
    rw [← heffect.other k' heq]
    exact hk'

end

section
variable {v : V} {updateCount : Int} (destroyTracker : Int) (tag : Option VersionTag)

theorem put_new_bounded (h : Bounded env limit m) (hk : m.view.bound k = none)
    (hcount : updateCount < 0) :
    ∃ m₂, m.put env k (.object v) updateCount destroyTracker tag none =
        (.ok { err := .noErr, me := some (m.view.nextAddr k) }, m₂) ∧ Bounded env limit m₂ ∧
      (m₂.view.bound k = some (m.view.nextAddr k, .object v) ∧
          (¬m.limit < m.size + 1 ∨ m.lruList.Spares) ∨
        m₂.view.bound k = none ∧ m.limit < m.size + 1 ∧ ¬m.lruList.Spares) := by
  obtain ⟨w, m₁, hw, hb, heq⟩ := put_new env (fun _ _ => none) h.inv.plain hk (v := v)
    hcount destroyTracker tag
  obtain ⟨m₂, hprocess, hbounded, hself⟩ := processLRU_new h hk hw hb
  rw [hprocess] at heq
  exact ⟨m₂, heq, hbounded, hself⟩

theorem put_update_bounded (h : Bounded env limit m) {a : Nat} {u : CacheablePtr V}
    (hk : m.view.bound k = some (a, u)) (hcount : updateCount ≤ 0) :
    ∃ m₂, m.put env k (.object v) updateCount destroyTracker tag none =
        (.ok { err := .noErr, me := some a, oldValue := u, isUpdate := true }, m₂) ∧
      Bounded env limit m₂ ∧ m₂.view.bound k = some (a, .object v) := by
  have hu := h.ne_overflowed hk
  cases put_update env _ h.inv.plain hk (h.inv.storedAt hk) (v := v) hcount destroyTracker tag with
  | inl hfail => exact absurd hfail.1 hu
  | inr hput =>
    obtain ⟨u', m₁, hsame, hb, heq⟩ := hput
    have heffect : (LRUOp.put k (.object v) updateCount destroyTracker tag).Effect env m.view
        k _ _ :=
      .update hk hsame
    have hbounded := h.effect heffect (hk ▸ Option.some_ne_none _) hb
    rw [hbounded.idle, hsame hu] at heq
    exact ⟨m₁, heq, hbounded, by rw [hb.view, bound_updated, if_pos rfl]⟩

end

end

end LRUEntriesMap

namespace LRUOp

variable {K V D M P S : Type} {n : Nat} [NeZero n] [DecidableEq K]

/-- A `create` or `put` that the segment of its key accepts. -/
def Accepted (env : LRURegion K V D M P S) (m : LRUEntriesMap K V P S n) : LRUOp K V → Prop
  | create key newValue updateCount destroyTracker tag =>
    ∃ r, ((m.segmentFor key).create (m.region env) key newValue updateCount destroyTracker
      tag).1 = .ok r ∧ r.err = .noErr
  | put key newValue updateCount destroyTracker tag =>
    ∃ r, ((m.segmentFor key).put (m.region env) key newValue updateCount destroyTracker tag
      none).1 = .ok r ∧ r.err = .noErr
  | _ => False

/-- A `create` or `put` that returns `GF_NOERR`. -/
def ReturnsNoErr (env : LRURegion K V D M P S) (m : LRUEntriesMap K V P S n) : LRUOp K V → Prop
  | create key newValue updateCount destroyTracker tag =>
    ∃ r, (m.create env key newValue updateCount destroyTracker tag).1 = .ok r ∧ r.err = .noErr
  | put key newValue updateCount destroyTracker tag =>
    ∃ r, (m.put env key newValue updateCount destroyTracker tag none).1 = .ok r ∧ r.err = .noErr
  | _ => False

end LRUOp

namespace LRUEntriesMap

variable {K V D M P S : Type} {n : Nat} [NeZero n] [DecidableEq K]
  {env : LRURegion K V D M P S} {limit : BitVec 32} {m : LRUEntriesMap K V P S n} {k : K}

/-- What a call does to a map within its limit. -/
def StaysBounded (env : LRURegion K V D M P S) (limit : BitVec 32)
    (m : LRUEntriesMap K V P S n) (op : LRUOp K V) : Prop :=
  Bounded env limit (op.step env m) ∧ (op.Accepted env m → op.ReturnsNoErr env m)

section
variable (h : Bounded env limit m) (v : V) (updateCount destroyTracker : Int)
  (tag : Option VersionTag)
include h

theorem put_bounded :
    StaysBounded env limit m (.put k (.object v) updateCount destroyTracker tag) := by
  rcases put_decides m k updateCount with ⟨hcount, hrefused⟩ | ⟨hk, hcount⟩ | ⟨a, u, hk, hcount⟩
  · obtain ⟨res, s, hsegment, herr, heq, hplain, hagrees⟩ :=
      put_refused_eq env h.inv.plain (.object v) destroyTracker tag hcount hrefused
    simp only [StaysBounded, LRUOp.step, LRUOp.Accepted, heq, hsegment]
    refine ⟨h.agrees hplain hagrees, ?_⟩
    rintro ⟨r, hr, hnoErr⟩
    cases hr
    exact absurd hnoErr herr
  · obtain ⟨m₂, heq, hbounded, -⟩ := put_new_bounded destroyTracker tag h hk (v := v) hcount
    simp only [StaysBounded, LRUOp.step, LRUOp.ReturnsNoErr, heq]
    exact ⟨hbounded, fun _ => ⟨_, rfl, rfl⟩⟩
  · obtain ⟨m₂, heq, hbounded, -⟩ := put_update_bounded destroyTracker tag h hk (v := v) hcount
    simp only [StaysBounded, LRUOp.step, LRUOp.ReturnsNoErr, heq]
    exact ⟨hbounded, fun _ => ⟨_, rfl, rfl⟩⟩

theorem create_bounded :
    StaysBounded env limit m (.create k (.object v) updateCount destroyTracker tag) := by
  by_cases hrefused : m.find k = none → 0 ≤ updateCount
  · obtain ⟨res, s, hsegment, herr, heq, hplain, hagrees⟩ :=
      create_refused_eq env h.inv.plain (.object v) destroyTracker tag hrefused
    simp only [StaysBounded, LRUOp.step, LRUOp.Accepted, heq, hsegment]
    refine ⟨h.agrees hplain hagrees, ?_⟩
    rintro ⟨r, hr, hnoErr⟩
    cases hr
    exact absurd hnoErr herr
  · obtain ⟨hk, hcount⟩ := bound_none_of_accepted hrefused
    obtain ⟨w, m₁, hw, hb, heq⟩ := create_new env (fun _ _ => none) h.inv.plain hk
      (v := v) hcount destroyTracker tag
    obtain ⟨m₂, hprocess, hbounded, -⟩ := processLRU_new h hk hw hb
    simp only [StaysBounded, LRUOp.step, LRUOp.ReturnsNoErr, heq, hprocess]
    exact ⟨hbounded, fun _ => ⟨_, rfl, rfl⟩⟩

end

theorem bound_bounded (h : Bounded env limit m) {op : LRUOp K V} (hop : op.Plain)
    (hbound : ∀ k w size, op.Effect env m.view k w size → ∃ x, m.view.bound k = some x) :
    Bounded env limit (op.step env m) := by
  rcases step_cases h.inv.plain h.inv.storedAt hop with
    ⟨⟨k, a, hk⟩, -⟩ | ⟨hplain, hagrees, -⟩ | ⟨k, w, size, m₁, heffect, hb, hstep⟩
  · exact absurd rfl (h.ne_overflowed hk)
  · exact h.agrees hplain hagrees
  · obtain ⟨x, hk⟩ := hbound k w size heffect
    have hbounded := h.effect heffect (hk ▸ Option.some_ne_none _) hb
    cases hstep with
    | inl heq =>
      rw [heq]
      exact hbounded
    | inr heq =>
      rw [heq, hbounded.idle]
      exact hbounded

theorem bounded_step (h : Bounded env limit m) {op : LRUOp K V} (hop : op.Plain) :
    StaysBounded env limit m op := by
  cases op with
  | create key newValue updateCount destroyTracker tag =>
    obtain ⟨v, rfl⟩ := hop
    exact create_bounded h v updateCount destroyTracker tag
  | put key newValue updateCount destroyTracker tag =>
    obtain ⟨v, rfl⟩ := hop
    exact put_bounded h v updateCount destroyTracker tag
  | get | remove | invalidate =>
    -- these calls have an effect on bound keys only
    refine ⟨bound_bounded h hop ?_, False.elim⟩
    intro k w size heffect
    cases heffect <;> exact ⟨_, ‹_›⟩
  | values | clear | evict => exact hop.elim

/-! ### Runs -/

section
variable (env : LRURegion K V D M P S) (hashcode : K → BitVec 32) (primeIndex : Nat)
  (updateCount : Int) (limit : BitVec 32) (evictionController heapLRUEnabled : Bool)
  (persisted : S) {l : List (LRUOp K V)}

theorem bounded_run (hcount : updateCount ≤ 0) (hlimited : heapLRUEnabled = false ∨ limit ≠ 0)
    (hl : ∀ op ∈ l, op.Plain) :
    Bounded env limit (run (LRUOp.step env) (LRUEntriesMap.open hashcode primeIndex false
      (.localDestroy updateCount) limit evictionController heapLRUEnabled persisted :
        LRUEntriesMap K V P S n) l) := by
  refine run_invariant (I := Bounded env limit) (P := fun _ op => LRUOp.Plain op)
    (fun m op h hop => (bounded_step h hop).1) ?_ ?_
  · refine ⟨lruInv_open hashcode primeIndex limit evictionController heapLRUEnabled persisted ?_
      (nomatch ·), ⟨updateCount, rfl⟩, rfl, hlimited, .inl ?_⟩
    · intro u hu
      cases hu
      exact hcount
    · have hempty : (LRUEntriesMap.open hashcode primeIndex false (.localDestroy updateCount) limit
          evictionController heapLRUEnabled persisted : LRUEntriesMap K V P S n).boundKeys = ∅ :=
        Set.eq_empty_of_forall_notMem fun k hk => hk rfl
      rw [hempty, Set.ncard_empty]
      exact Nat.zero_le _
  · exact (along_actions_iff _ l).mpr hl

/-- Without concurrency checks, and with an action that removes the entry, a map with a limit has
at most as many entries as the limit says, after every run. Every `create` and `put` that its
segment accepts returns `GF_NOERR`. -/
theorem size_le_limit (hcount : updateCount ≤ 0) (hlimited : heapLRUEnabled = false ∨ limit ≠ 0)
    (hl : ∀ op ∈ l, op.Plain) :
    let m : LRUEntriesMap K V P S n := run (LRUOp.step env) (.open hashcode primeIndex false
      (.localDestroy updateCount) limit evictionController heapLRUEnabled persisted) l
    m.size ≤ limit ∧ ∀ op : LRUOp K V, op.Plain → op.Accepted env m → op.ReturnsNoErr env m := by
  intro m
  have h : Bounded env limit m :=
    bounded_run env hashcode primeIndex updateCount limit evictionController heapLRUEnabled
      persisted
      hcount hlimited hl
  refine ⟨h.limit ▸ h.size_le, ?_⟩
  intro op hop
  exact (bounded_step h hop).2

/-- With the limit 0 and heap LRU the map does not evict. -/
theorem size_exceeds_limit :
    ∃ l : List (LRUOp Nat Nat), (∀ op ∈ l, op.Plain) ∧
      (0 : BitVec 32) <
        (run (LRUOp.step natLRURegion) (natLRUMap (.localDestroy (-1)) 0 true) l).size := by
  refine ⟨[.putSelf 1], ?_, by decide⟩
  intro op hop
  rw [List.mem_singleton.mp hop]
  exact ⟨1, rfl⟩

theorem size_le_limit_one :
    let m := run (LRUOp.step natLRURegion) (natLRUMap (.localDestroy (-1)) 1 true) [.putSelf 1]
    m.size ≤ 1 ∧ LRUOp.ReturnsNoErr natLRURegion m (.putSelf 2) := by
  have hl : ∀ op ∈ [LRUOp.putSelf 1], op.Plain := by simp [LRUOp.putSelf, LRUOp.Plain]
  have h := size_le_limit (n := 1) natLRURegion (BitVec.ofNat 32) 0 (-1) 1 true true []
    (by decide) (.inr (by decide)) hl
  exact ⟨h.1, h.2 _ ⟨2, rfl⟩ ⟨_, rfl, rfl⟩⟩

end

end LRUEntriesMap

end GeodeNative.Cache

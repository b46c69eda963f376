import GeodeNative.Lib.Total
import GeodeNative.Proofs.Cache.LRUInvariant

/-!
# The size that the eviction controller is told

With an eviction controller the map keeps `m_currentMapSize`, which should be the size of the keys
and values that it binds (`boundSize`). Each operation adds its own difference, and the differences
of `put`, `invalidate`, `remove` and of an eviction are right, whatever the list of the map holds.
`create` takes the size of a pointer off for an old value that is not there, so the accounts of a
map without concurrency checks are right exactly as long as no `create` is accepted
(`currentMapSize_iff`).
-/

set_option autoImplicit false

namespace GeodeNative.Cache

open Lib MapSegment LRUView

namespace LRUEntriesMap

variable {K V D M P S : Type} {n : Nat} [NeZero n] [DecidableEq K]

/-- The size of what is bound at a key: that of the key and of the value. -/
def entrySize (env : LRURegion K V D M P S) (k : K) : Option (MapEntry K V) → Int
  | none => 0
  | some e =>
    (env.keySize k).toNat + (env.objectSize e.obj.value).elim 0 fun size => (size.toNat : Int)

/-- The size of the entries that are bound. -/
noncomputable def boundSize (env : LRURegion K V D M P S) (m : LRUEntriesMap K V P S n) : Int :=
  ∑ᶠ k, entrySize env k (m.find k)

/-- The size of a binding of the view. -/
def viewSize (env : LRURegion K V D M P S) (k : K) : Option (Nat × CacheablePtr V) → Int
  | none => 0
  | some x => (env.keySize k).toNat + (env.objectSize x.2).elim 0 fun size => (size.toNat : Int)

/-- How far the size is from what is bound. -/
noncomputable def drift (env : LRURegion K V D M P S) (m : LRUEntriesMap K V P S n) : Int :=
  m.currentMapSize - boundSize env m

/-- The invariant of the accounts. Nothing is known about the list: after `clear` it has nodes of
entries that are not bound. -/
structure HeapInv (env : LRURegion K V D M P S) (m : LRUEntriesMap K V P S n) : Prop where
  plain : PlainMap m
  action : ∃ updateCount, m.action = .localDestroy updateCount ∧ updateCount ≤ 0
  evictionController : m.evictionController = true
  memory : ∀ k a, m.view.bound k ≠ some (a, .token .overflowed)
  finite : { k | m.view.bound k ≠ none }.Finite

section
variable {env : LRURegion K V D M P S} {m m' : LRUEntriesMap K V P S n} {k : K}
  {w : LRUView K V P} {size : Int}

theorem boundSize_eq (m : LRUEntriesMap K V P S n) :
    boundSize env m = ∑ᶠ k, viewSize env k (m.view.bound k) := by
  refine finsum_congr ?_
  intro k
  show entrySize env k (m.find k) = viewSize env k ((m.find k).map _)
  cases m.find k <;> rfl

theorem HeapInv.becomes (h : HeapInv env m) (hb : Becomes (fun _ _ => none) m k w size m')
    (hother : ∀ k', k' ≠ k → w.bound k' = m.view.bound k')
    (hself : ∀ a, w.bound k ≠ some (a, .token .overflowed)) :
    HeapInv env m' ∧ drift env m' = drift env m +
      (size - (viewSize env k (w.bound k) - viewSize env k (m.view.bound k))) := by
  have hsize : boundSize env m' = boundSize env m +
      (viewSize env k (w.bound k) - viewSize env k (m.view.bound k)) := by
    rw [boundSize_eq, boundSize_eq, hb.view]
    refine finsum_step (h.finite.subset fun k' hk' hnone => hk' ?_) fun k' hk' => ?_
    · show viewSize env k' (m.view.bound k') = 0
      rw [hnone]
      rfl
    · rw [hother k' hk']
  refine ⟨⟨hb.plain, ?_, ?_, ?_, ?_⟩, ?_⟩
  · rw [hb.action]
    exact h.action
  · rw [hb.evictionController]
    exact h.evictionController
  · intro k' a hk'
    rw [hb.view] at hk'
    by_cases hkk : k' = k
    · rw [hkk] at hk'
      exact hself a hk'
    · rw [hother k' hkk] at hk'
      exact h.memory k' a hk'
  · refine (h.finite.insert k).subset ?_
    intro k' hk'
    by_cases hkk : k' = k
    · exact .inl hkk
    · refine .inr ?_
      show m.view.bound k' ≠ none
      rw [← hother k' hkk, ← hb.view]
      exact hk'
  · unfold drift
    rw [hb.currentMapSize, h.evictionController, if_pos rfl, hsize]
    omega

/-- A step that keeps the accounts as they are. -/
def Keeps (env : LRURegion K V D M P S) (m m' : LRUEntriesMap K V P S n) : Prop :=
  HeapInv env m' ∧ drift env m' = drift env m

theorem HeapInv.refl (h : HeapInv env m) : Keeps env m m := ⟨h, rfl⟩

theorem Keeps.trans {m₁ m₂ : LRUEntriesMap K V P S n} (h : Keeps env m m₁) (h' : Keeps env m₁ m₂) :
    Keeps env m m₂ :=
  ⟨h'.1, h'.2.trans h.2⟩

theorem HeapInv.agrees (h : HeapInv env m) (hm : PlainMap m') (ha : Agrees m m') :
    Keeps env m m' := by
  refine ⟨⟨hm, ?_, ?_, ?_, ?_⟩, ?_⟩
  · rw [ha.action]
    exact h.action
  · rw [ha.evictionController]
    exact h.evictionController
  · rw [ha.view]
    exact h.memory
  · rw [ha.view]
    exact h.finite
  · unfold drift
    rw [ha.currentMapSize, boundSize_eq, boundSize_eq, ha.view]

theorem HeapInv.ne_overflowed (h : HeapInv env m) {a : Nat} {u : CacheablePtr V}
    (hk : m.view.bound k = some (a, u)) : u ≠ .token .overflowed := by
  intro hu
  rw [hu] at hk
  exact h.memory k a hk

theorem viewSize_bound (hm : PlainMap m) {a : Nat} {u : CacheablePtr V}
    (hk : m.view.bound k = some (a, u)) :
    viewSize env k (m.view.bound k) = (env.keySize k).toNat + env.oldSize u := by
  obtain ⟨o, hfind, -, rfl⟩ := hm.bound hk
  obtain ⟨-, hlive, -⟩ := (hm.segmentFor k).entry hfind
  obtain ⟨size, hsize, hold⟩ := objectSize_of_live env hlive
  rw [hk, hold]
  show ((env.keySize k).toNat : Int) + (env.objectSize o.value).elim 0 _ = _
  rw [hsize]
  rfl

/-- The effect of a call: only `create` accounts for a size that is not the one of the change. -/
theorem HeapInv.effect (h : HeapInv env m) {op : LRUOp K V}
    (heffect : op.Effect env m.view k w size) (hb : Becomes (fun _ _ => none) m k w size m') :
    HeapInv env m' ∧ (drift env m' = drift env m - pointerSize ∧ ¬op.NoCreate m ∨
      drift env m' = drift env m ∧ op.NoCreate m) := by
  obtain ⟨hinv, hdrift⟩ := h.becomes hb heffect.other heffect.self
  refine ⟨hinv, ?_⟩
  rw [hdrift]
  cases heffect with
  | @create k v w updateCount destroyTracker tag hk hcount hw =>
    refine .inl ⟨?_, fun hno => absurd (hno (bound_none hk)) (Int.not_le.mpr hcount)⟩
    rw [hk, hw.bound, if_pos rfl]
    show drift env m + (_ - ((env.keySize k).toNat + ((env.valueSize v).toNat : Int) - 0)) = _
    omega
  | @put k v w updateCount destroyTracker tag hk hw =>
    refine .inr ⟨?_, trivial⟩
    rw [hk, hw.bound, if_pos rfl]
    show drift env m + (_ - ((env.keySize k).toNat + ((env.valueSize v).toNat : Int) - 0)) = _
    omega
  | @update k a u u' v updateCount destroyTracker tag hk hsame =>
    refine .inr ⟨?_, trivial⟩
    rw [viewSize_bound h.plain hk, bound_updated, if_pos rfl, hsame (h.ne_overflowed hk)]
    show drift env m + (_ - ((env.keySize k).toNat + ((env.valueSize v).toNat : Int) - _)) = _
    omega
  | remove hk hsame =>
    refine .inr ⟨?_, trivial⟩
    rw [viewSize_bound h.plain hk, bound_removed, if_pos rfl, hsame (h.ne_overflowed hk)]
    show drift env m + (_ - (0 - _)) = _
    omega
  | @invalidate k a u u' tag hk hsame =>
    refine .inr ⟨?_, trivial⟩
    rw [viewSize_bound h.plain hk, LRUView.retired, bound_rebind, if_pos rfl,
      hsame (h.ne_overflowed hk)]
    show drift env m + (_ - ((env.keySize k).toNat + (tokenSize.toNat : Int) - _)) = _
    split
    · -- the old value is a token, and all tokens have the same size
      rename_i htoken
      have hold : env.oldSize u = tokenSize.toNat := by
        cases u with
        | token t => rfl
        | null => cases htoken
        | object v => cases htoken
      omega
    · omega
  | use =>
    refine .inr ⟨?_, trivial⟩
    show drift env m + (0 - (viewSize env k (m.view.bound k) - _)) = _
    omega
  | reload hk hu => exact absurd hu (h.ne_overflowed hk)

/-! ### Eviction -/

theorem remove_keeps (h : HeapInv env m) {updateCount : Int} (hcount : updateCount ≤ 0)
    (tag : Option VersionTag) (afterRemote : Bool) :
    Keeps env m (m.remove env k updateCount tag afterRemote).2 := by
  cases hk : m.view.bound k with
  | none =>
    rw [remove_unbound_eq env h.plain (bound_none hk)]
    exact h.refl
  | some x =>
    obtain ⟨a, u⟩ := x
    have hu := h.ne_overflowed hk
    cases remove_cases env (fun _ _ => none) h.plain hk (fun he => absurd he hu) hcount
      tag afterRemote with
    | inl hfail => exact absurd hfail.1 hu
    | inr hremove =>
      obtain ⟨u', m', hsame, hb, heq⟩ := hremove
      have heffect : (LRUOp.remove k updateCount tag afterRemote).Effect env m.view k _ _ :=
        .remove hk hsame
      obtain ⟨hinv, hdrift⟩ := h.effect heffect hb
      rw [heq]
      exact ⟨hinv, (hdrift.resolve_left fun hcreate => hcreate.2 trivial).1⟩

/-- A round of eviction keeps the accounts, also when the entry is not bound any more. -/
theorem evictionHelper_keeps (h : HeapInv env m) : Keeps env m (m.evictionHelper env).2 := by
  obtain ⟨updateCount, haction, hcount⟩ := h.action
  unfold evictionHelper
  cases hget : m.lruList.getLRUEntry with
  | mk entry list =>
    have hlist : Keeps env m { m with lruList := list } :=
      ⟨⟨⟨h.plain.plain, h.plain.homed⟩, h.action, h.evictionController, h.memory, h.finite⟩, rfl⟩
    match entry with
    | none => exact hlist
    | some none => exact hlist
    | some (some (k, a)) =>
      have hremove := hlist.trans (remove_keeps (k := k) hlist.1 hcount none false)
      dsimp only
      rw [evict_localDestroy env haction]
      generalize remove env { m with lruList := list } k updateCount none false = r at hremove ⊢
      obtain ⟨x | res, m'⟩ := r
      · exact hremove
      · dsimp only
        cases hres : decide (res.err = .noErr) with
        | false => exact hremove
        | true =>
          have hoverflows : ¬m'.action.overflows = true := by
            obtain ⟨u, hu, -⟩ := hremove.1.action
            rw [hu]
            exact (nomatch ·)
          show Keeps env m (if m'.action.overflows then _ else _)
          rw [if_neg hoverflows]
          exact hremove

theorem evictWhile_keeps (rounds : Nat) (h : HeapInv env m) :
    Keeps env m (m.evictWhile env rounds).2 := by
  induction rounds generalizing m with
  | zero => exact h.refl
  | succ rounds ih =>
    rw [evictWhile]
    by_cases hmust : m.mustEvict = true
    · rw [if_pos hmust]
      have hround := evictionHelper_keeps h
      split
      · rename_i m₁ heq
        rw [heq] at hround
        exact hround.trans (ih hround.1)
      · exact hround
    · rw [if_neg hmust]
      exact h.refl

theorem processLRU_keeps (h : HeapInv env m) : Keeps env m (m.processLRU env).2 :=
  evictWhile_keeps _ h

theorem processLRUTimes_keeps (count : Nat) (h : HeapInv env m) :
    Keeps env m (processLRUTimes env count m).2 := by
  induction count generalizing m with
  | zero => exact h.refl
  | succ count ih =>
    rw [processLRUTimes]
    split
    · have hround := evictionHelper_keeps h
      split
      · rename_i heq
        rw [heq] at hround
        exact hround
      · rename_i heq
        rw [heq] at hround
        exact hround.trans (ih hround.1)
    · exact h.refl

/-! ### The operations -/

theorem clear_accounts (h : HeapInv env m) : HeapInv env m.clear ∧ drift env m.clear = 0 := by
  have hclear : ∃ unbound, m.clear = { m with
      toConcurrentEntriesMap := m.toConcurrentEntriesMap.clear, unbound := unbound
      currentMapSize := m.currentMapSize + -1 * m.currentMapSize } := by
    unfold clear updateMapSize
    rw [if_pos h.evictionController]
    exact ⟨_, rfl⟩
  obtain ⟨unbound, hclear⟩ := hclear
  rw [hclear]
  refine ⟨⟨⟨?_, fun i k e he => nomatch he⟩, h.action, h.evictionController,
    (fun k a hk => nomatch hk), ?_⟩, ?_⟩
  · intro i
    exact ⟨(h.plain.plain i).disabled, (h.plain.plain i).trackers, fun k e he => nomatch he⟩
  · refine Set.finite_empty.subset ?_
    intro k hk
    exact hk rfl
  · show m.currentMapSize + -1 * m.currentMapSize - ∑ᶠ _ : K, (0 : Int) = 0
    rw [finsum_zero]
    omega

end

end LRUEntriesMap

/-- The calls that the accounts are about, and the calls of the eviction controller. -/
def LRUOp.Accountable {K V : Type} : LRUOp K V → Prop
  | clear => True
  | evict _ => True
  | op => op.Plain

namespace LRUEntriesMap

variable {K V D M P S : Type} {n : Nat} [NeZero n] [DecidableEq K]
  {env : LRURegion K V D M P S} {m : LRUEntriesMap K V P S n}

theorem heapInv_plain (h : HeapInv env m) {op : LRUOp K V} (hop : op.Plain) :
    HeapInv env (op.step env m) ∧
      (drift env (op.step env m) = drift env m - pointerSize ∧ ¬op.NoCreate m ∨
        drift env (op.step env m) = drift env m ∧ op.NoCreate m) := by
  rcases step_cases h.plain (fun hk he => absurd he (h.ne_overflowed hk)) hop with
    ⟨⟨k, a, hk⟩, -⟩ | ⟨hplain, hagrees, hno⟩ | ⟨k, w, size, m₁, heffect, hb, hstep⟩
  · exact absurd hk (h.memory k a)
  · obtain ⟨hinv, hdrift⟩ := h.agrees hplain hagrees
    exact ⟨hinv, .inr ⟨hdrift, hno⟩⟩
  · obtain ⟨hinv, hdrift⟩ := h.effect heffect hb
    cases hstep with
    | inl heq =>
      rw [heq]
      exact ⟨hinv, hdrift⟩
    | inr heq =>
      obtain ⟨hinv', hdrift'⟩ := processLRU_keeps hinv
      rw [heq, hdrift']
      exact ⟨hinv', hdrift⟩

/-- What a call does to the accounts: they start again, they lose the size of a pointer, or they are
kept. -/
theorem heapInv_step (h : HeapInv env m) {op : LRUOp K V} (hop : op.Accountable) :
    HeapInv env (op.step env m) ∧ (drift env (op.step env m) = 0 ∧ op.NoCreate m ∨
      drift env (op.step env m) = drift env m - pointerSize ∧ ¬op.NoCreate m ∨
      drift env (op.step env m) = drift env m ∧ op.NoCreate m) := by
  cases op with
  | clear =>
    obtain ⟨hinv, hdrift⟩ := clear_accounts h
    exact ⟨hinv, .inl ⟨hdrift, trivial⟩⟩
  | evict count =>
    obtain ⟨hinv, hdrift⟩ := processLRUTimes_keeps count h
    exact ⟨hinv, .inr (.inr ⟨hdrift, trivial⟩)⟩
  | _ =>
    refine ⟨(heapInv_plain h ?_).1, .inr (heapInv_plain h ?_).2⟩ <;> exact hop

end LRUEntriesMap

end GeodeNative.Cache

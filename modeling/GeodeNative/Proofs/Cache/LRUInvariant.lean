import GeodeNative.Proofs.Cache.LRUEntriesMap

/-!
# What eviction and the operations keep

`LRUInv` is the invariant of the map without concurrency checks and without trackers: the segments
are plain, the view is `Listed`, and a value that is overflowed can be read from the persistence
manager. One round of eviction keeps it (`evictionHelper_inv`), so the loop over the rounds does,
and each call with `LRUOp.Plain` does (`lruInv_step`), as long as no persistence call fails.
-/

set_option autoImplicit false

namespace GeodeNative.Cache

open Lib MapSegment LRUView

namespace LRUEntriesMap

variable {K V D M P S : Type} {n : Nat} [NeZero n] [DecidableEq K]

/-- The invariant. `contents` is what the persistence manager holds. -/
structure LRUInv (env : LRURegion K V D M P S) (contents : S → K → Option V)
    (m : LRUEntriesMap K V P S n) : Prop where
  plain : PlainMap m
  listed : Listed none m.view
  removes : ∀ updateCount, m.action = .localDestroy updateCount → updateCount ≤ 0
  disk : m.action = .overflowToDisk → env.isDestroyed = false ∧ ReadsBack env contents
  stored : ∀ k a, m.view.bound k = some (a, .token .overflowed) →
    m.action = .overflowToDisk ∧ ∃ v, contents m.persisted k = some v

variable {list : LRUList (Option (K × Nat)) P} {u : CacheablePtr V}

section
variable {env : LRURegion K V D M P S} {contents : S → K → Option V}
  {m m' : LRUEntriesMap K V P S n} {k : K} {a : Nat} {w : LRUView K V P} {size : Int}

theorem LRUInv.storedAt (h : LRUInv env contents m) (hk : m.view.bound k = some (a, u)) :
    Stored env contents m k u := by
  intro hu
  rw [hu] at hk
  obtain ⟨haction, hv⟩ := h.stored k a hk
  exact ⟨(h.disk haction).2, hv⟩

theorem PlainMap.object (hm : PlainMap m) (hk : m.view.bound k = some (a, u))
    (hu : u.isToken = false) : ∃ v, u = .object v := by
  obtain ⟨o, hfind, -, rfl⟩ := hm.bound hk
  obtain ⟨-, hlive, -⟩ := (hm.segmentFor k).entry hfind
  cases hvalue : o.value with
  | null => exact absurd hvalue hlive.1
  | token t =>
    rw [hvalue] at hu
    cases hu
  | object v => exact ⟨v, rfl⟩

/-- A step that changes one key, where an overflowed value can be read back. -/
theorem LRUInv.becomes (h : LRUInv env contents m) (hb : Becomes contents m k w size m')
    (hlisted : Listed none w) (hother : ∀ k', k' ≠ k → w.bound k' = m.view.bound k')
    (hself : ∀ b, w.bound k = some (b, .token .overflowed) →
      m.action = .overflowToDisk ∧ ∃ v, contents m'.persisted k = some v) :
    LRUInv env contents m' where
  plain := hb.plain
  listed := by
    rw [hb.view]
    exact hlisted
  removes := by
    rw [hb.action]
    exact h.removes
  disk := by
    rw [hb.action]
    exact h.disk
  stored k' b hk' := by
    rw [hb.view] at hk'
    rw [hb.action]
    by_cases hne : k' = k
    · rw [hne] at hk' ⊢
      exact hself b hk'
    · rw [hother k' hne] at hk'
      rw [hb.persisted k' hne]
      exact h.stored k' b hk'

/-- The list and the disk before the step do not matter for what it becomes. -/
theorem Becomes.of_before {persisted : S}
    (h : Becomes contents { m with persisted := persisted, lruList := list } k w size m')
    (hpersisted : ∀ k', k' ≠ k → contents persisted k' = contents m.persisted k') :
    Becomes contents m k w size m' :=
  { h with persisted := fun k' hk' => (h.persisted k' hk').trans (hpersisted k' hk') }

theorem LRUInv.agrees (h : LRUInv env contents m) (hm : PlainMap m') (ha : Agrees m m') :
    LRUInv env contents m' where
  plain := hm
  listed := by
    rw [ha.view]
    exact h.listed
  removes := by
    rw [ha.action]
    exact h.removes
  disk := by
    rw [ha.action]
    exact h.disk
  stored := by
    rw [ha.view, ha.action, ha.persisted]
    exact h.stored

end

section
variable {env : LRURegion K V D M P S} {contents : S → K → Option V}
  {m : LRUEntriesMap K V P S n} {k : K} {a : Nat} {v : V}

theorem LRUInv.effect {m₁ : LRUEntriesMap K V P S n} {w : LRUView K V P} {size size' : Int}
    {op : LRUOp K V} (h : LRUInv env contents m) (heffect : op.Effect env m.view k w size)
    (hb : Becomes contents m k w size' m₁) : LRUInv env contents m₁ :=
  h.becomes hb (heffect.listed h.listed) heffect.other fun b hk => absurd hk (heffect.self b)

theorem LRUInv.remove {m₁ : LRUEntriesMap K V P S n} {size : Int} {x : Option (Option (K × Nat))}
    (h : LRUInv env contents m) (hlisted : Listed x { m.view with list := list })
    (hx : ∀ e, x = some e → e = some (k, a)) (hk : m.view.bound k = some (a, u))
    (hb : Becomes contents m k (LRUView.removed { m.view with list := list } k a u) size m₁) :
    LRUInv env contents m₁ := by
  refine h.becomes hb (hlisted.remove hx hk) (fun k' hk' => bound_rebind_ne _ hk') ?_
  intro b hb
  cases (bound_rebind_self _).symm.trans hb

/-! ### One round of eviction -/

theorem setValueI_bound {o : MapEntryImpl K V} (hfind : (m.segmentFor k).find k = some (.impl o))
    (x : CacheablePtr V) :
    m.setValueI k o.addr x =
      m.changeSegment k ((m.segmentFor k).bind k (.impl (o.setValueI x))) := by
  have hfind' : m.find k = some (.impl o) := hfind
  have hbound : m.boundEntry k o.addr = some (.impl o) := by
    unfold boundEntry
    rw [hfind']
    simp [MapEntry.obj]
  have hsame : (((m.segmentFor k).bind k (.impl (o.setValueI x))).find k).map (·.obj.addr) =
      some (MapEntry.impl o : MapEntry K V).obj.addr := by
    rw [(SetsAt.bind (m.segmentFor k) k (.impl (o.setValueI x))).find_self]
    rfl
  unfold setValueI changeSegment
  rw [hbound, hfind']
  dsimp only
  rw [if_pos hsame]
  rfl

/-- A value goes to disk, or the persistence manager fails. Only the pointer of the persistence
manager changes in the list. -/
theorem evictToDisk_cases (hm : PlainMap m) (hk : m.view.bound k = some (a, .object v))
    (hregion : env.isDestroyed = false) (hback : ReadsBack env contents) :
    (∃ m', m.evictToDisk env k a = (.ok false, m') ∧ m'.persistenceFailed = true) ∨
      ∃ list size m', m.evictToDisk env k a = (.ok true, m') ∧
        (list = m.view.list ∨ ∃ info, list = m.view.list.setPersistenceInfo (some (k, a)) info) ∧
        Becomes contents m k { m.view.rebind k (some (a, .token .overflowed)) with list := list }
          size m' ∧ contents m'.persisted k = some v := by
  obtain ⟨o, hfind, rfl, hvalue⟩ := hm.bound hk
  obtain ⟨-, hlive, -⟩ := (hm.segmentFor k).entry hfind
  have hget : m.getValueI k o.addr = .object v := by
    have hbound : m.boundEntry k o.addr = some (.impl o) := by
      unfold boundEntry
      rw [show m.find k = some (.impl o) from hfind]
      simp [MapEntry.obj]
    unfold getValueI
    rw [hbound]
    exact (getValueI_of_live hlive).trans hvalue
  unfold evictToDisk
  rw [hregion, if_neg Bool.false_ne_true, hget]
  dsimp only [LRURegion.objectSize]
  cases hwrite : env.write m.persisted k (.object v) (m.properties k o.addr).persistenceInfo with
  | none => exact .inl ⟨_, rfl, rfl⟩
  | some r =>
    obtain ⟨info, persisted⟩ := r
    obtain ⟨hself, hother⟩ := hback.write _ k v _ info persisted hwrite
    let list := if (m.properties k o.addr).persistenceInfo.isNone then
        m.lruList.setPersistenceInfo (some (k, o.addr)) info
      else m.lruList
    let m₀ : LRUEntriesMap K V P S n := { m with persisted := persisted, lruList := list }
    have hfind₀ : (m₀.segmentFor k).find k = some (.impl o) := hfind
    have hbecomes := becomes_value contents (m := m₀) ⟨hm.plain, hm.homed⟩ hfind₀
      liveValue_overflowed (Changes.bind (m₀.segmentFor k) k _)
    have hset := setValueI_bound hfind₀ (.token .overflowed)
    obtain ⟨unbound, hseg⟩ := changeSegment_eq m₀ k
      ((m₀.segmentFor k).bind k (.impl (o.setValueI (.token .overflowed))))
    rw [hseg] at hbecomes hset
    refine .inr ⟨list, (tokenSize - env.valueSize v).toNat, _, rfl, ?_, ?_, ?_⟩
    · by_cases hinfo : (m.properties k o.addr).persistenceInfo.isNone = true
      · exact .inr ⟨info, if_pos hinfo⟩
      · exact .inl (if_neg hinfo)
    · show Becomes contents m k _ _ ((m₀.setValueI k o.addr _).updateMapSize _)
      rw [hset, updateMapSize_eq]
      exact (hbecomes.account fun _ _ => rfl).of_before hother
    · show contents ((m₀.setValueI k o.addr _).updateMapSize _).persisted k = some v
      rw [hset, updateMapSize_eq]
      exact hself

theorem evict_localDestroy (env : LRURegion K V D M P S) {updateCount : Int}
    (haction : m.action = .localDestroy updateCount) : evict env { m with lruList := list } k a =
      match remove env { m with lruList := list } k updateCount none false with
      | (.error x, m) => (.error x, m)
      | (.ok res, m) => (.ok (res.err = .noErr), m) := by
  cases m
  cases haction
  rfl

theorem evict_overflowToDisk (env : LRURegion K V D M P S) (haction : m.action = .overflowToDisk) :
    evict env { m with lruList := list } k a = evictToDisk env { m with lruList := list } k a := by
  simp only [evict, haction]

variable {list : LRUList (Option (K × Nat)) P}

section
variable (h : LRUInv env contents m)
include h

/-- The entry that the list gives away is bound, with a value in memory. -/
theorem LRUInv.take {e : Option (K × Nat)} (hget : m.lruList.getLRUEntry = (some e, list)) :
    ∃ k a v, e = some (k, a) ∧ m.view.bound k = some (a, .object v) ∧
      Listed (some (some (k, a))) { m.view with list := list } := by
  obtain ⟨hlisted, k, a, u, rfl, hk, hu⟩ := h.listed.take (LRUList.getLRUEntry_some hget)
  obtain ⟨v, rfl⟩ := h.plain.object hk hu
  exact ⟨k, a, v, rfl, hk, hlisted⟩

theorem evictionHelper_localDestroy {updateCount : Int}
    (haction : m.action = .localDestroy updateCount)
    (hget : m.lruList.getLRUEntry = (some (some (k, a)), list))
    (hk : m.view.bound k = some (a, .object v)) :
    ∃ m', m.evictionHelper env = (.ok .noErr, m') ∧
      Becomes contents m k (LRUView.removed { m.view with list := list } k a (.object v))
        (-1 * ((env.keySize k).toNat + env.oldSize (.object v))) m' := by
  have hplain : PlainMap { m with lruList := list } := ⟨h.plain.plain, h.plain.homed⟩
  have hk' : ({ m with lruList := list } : LRUEntriesMap K V P S n).view.bound k =
      some (a, .object v) := hk
  cases remove_cases env contents hplain hk' (fun hu => nomatch hu)
    (h.removes updateCount haction) none false with
  | inl hfail => exact absurd hfail.1 (nomatch ·)
  | inr hremove =>
    obtain ⟨u', m', hsame, hbecomes, heq⟩ := hremove
    rw [hsame (nomatch ·)] at hbecomes
    have hbecomes' := hbecomes.of_before (m := m) fun _ _ => rfl
    refine ⟨m', ?_, hbecomes'⟩
    have haction' : m'.action = .localDestroy updateCount := hbecomes'.action.trans haction
    unfold evictionHelper
    rw [hget]
    dsimp only
    rw [evict_localDestroy env haction, heq]
    dsimp only
    rw [decide_eq_true rfl]
    dsimp only
    rw [haction']
    rfl

theorem evictionHelper_overflowToDisk (haction : m.action = .overflowToDisk)
    (hget : m.lruList.getLRUEntry = (some (some (k, a)), list))
    (hk : m.view.bound k = some (a, .object v)) :
    (∃ m', m.evictionHelper env = (.ok .diskFull, m') ∧ m'.persistenceFailed = true) ∨
      ∃ list' size m', m.evictionHelper env = (.ok .noErr, m') ∧
        (list' = list ∨ ∃ info, list' = list.setPersistenceInfo (some (k, a)) info) ∧
        Becomes contents m k
          (LRUView.retired { m.view with list := list' } k a (.object v) (.token .overflowed)) size
          m' ∧ contents m'.persisted k = some v := by
  obtain ⟨hregion, hback⟩ := h.disk haction
  have hplain : PlainMap { m with lruList := list } := ⟨h.plain.plain, h.plain.homed⟩
  have hk' : ({ m with lruList := list } : LRUEntriesMap K V P S n).view.bound k =
      some (a, .object v) := hk
  unfold evictionHelper
  rw [hget]
  dsimp only
  rw [evict_overflowToDisk env haction]
  cases evictToDisk_cases hplain hk' hregion hback with
  | inl hfail =>
    obtain ⟨m', heq, hfailed⟩ := hfail
    rw [heq]
    exact .inl ⟨m', rfl, hfailed⟩
  | inr hevict =>
    obtain ⟨list', size, m', heq, hlist, hbecomes, hself⟩ := hevict
    have hbecomes' := hbecomes.of_before (m := m) fun _ _ => rfl
    have haction' : m'.action.overflows = true := by
      rw [hbecomes'.action, haction]
      rfl
    rw [heq]
    dsimp only
    rw [if_pos haction']
    refine .inr ⟨list', size, m'.retire k a, rfl, hlist, ?_, hself⟩
    have hview : (m'.retire k a).view =
        LRUView.retired { m.view with list := list' } k a (.object v) (.token .overflowed) := by
      show { m'.view with
        list := m'.view.list.setEvicted (some (k, a))
        validEntries := m'.view.validEntries - 1 } = _
      rw [hbecomes'.view]
      rfl
    exact ⟨⟨hbecomes'.plain.plain, hbecomes'.plain.homed⟩, hview, hbecomes'.action, hbecomes'.limit,
      hbecomes'.evictionController, hbecomes'.heapLRUEnabled, hbecomes'.currentMapSize,
      hbecomes'.persisted, hbecomes'.persistenceFailed⟩

/-- One round of eviction: it keeps the invariant, or a persistence call fails. -/
theorem evictionHelper_inv :
    ∃ err m', m.evictionHelper env = (.ok err, m') ∧
      (err = .diskFull ∧ m'.persistenceFailed = true ∨ LRUInv env contents m') := by
  cases hget : m.lruList.getLRUEntry with
  | mk e list =>
    cases e with
    | none =>
      have hpass := (LRUList.getLRUEntry_none hget).1
      unfold evictionHelper
      rw [hget]
      exact ⟨.enoent, _, rfl, .inr ⟨⟨h.plain.plain, h.plain.homed⟩,
        h.listed.pass hpass, h.removes, h.disk, h.stored⟩⟩
    | some e =>
      obtain ⟨k, a, v, rfl, hk, hlisted⟩ := h.take hget
      cases haction : m.action with
      | localDestroy updateCount =>
        obtain ⟨m', heq, hbecomes⟩ := evictionHelper_localDestroy h haction hget hk
        exact ⟨.noErr, m', heq, .inr
          (h.remove hlisted (fun _ he => (Option.some.inj he).symm) hk hbecomes)⟩
      | overflowToDisk =>
        cases evictionHelper_overflowToDisk h haction hget hk with
        | inl hfail =>
          obtain ⟨m', heq, hfailed⟩ := hfail
          exact ⟨.diskFull, m', heq, .inl ⟨rfl, hfailed⟩⟩
        | inr hevict =>
          obtain ⟨list', size, m', heq, hlist, hbecomes, hself⟩ := hevict
          have hlisted' : Listed (some (some (k, a))) { m.view with list := list' } := by
            cases hlist with
            | inl heq => exact heq ▸ hlisted
            | inr hinfo =>
              obtain ⟨info, rfl⟩ := hinfo
              exact hlisted.modify hk fun _ => rfl
          exact ⟨.noErr, m', heq, .inr (h.becomes hbecomes
            (hlisted'.retire (fun e he => (Option.some.inj he).symm) hk rfl)
            (fun k' hk' => bound_rebind_ne _ hk') fun _ _ => ⟨haction, v, hself⟩)⟩

end

/-- The loop over the rounds. A failure ends it. -/
theorem evictWhile_inv (rounds : Nat) (h : LRUInv env contents m) :
    ∃ err m', m.evictWhile env rounds = (.ok err, m') ∧
      (m'.persistenceFailed = true ∨ LRUInv env contents m') := by
  induction rounds generalizing m with
  | zero => exact ⟨.noErr, m, rfl, .inr h⟩
  | succ rounds ih =>
    rw [evictWhile]
    by_cases hmust : m.mustEvict = true
    · rw [if_pos hmust]
      obtain ⟨err, m', heq, hinv⟩ := evictionHelper_inv h
      rw [heq]
      cases hinv with
      | inl hfail =>
        rw [hfail.1]
        exact ⟨_, m', rfl, .inl hfail.2⟩
      | inr hinv =>
        by_cases herr : err = .noErr
        · rw [herr]
          exact ih hinv
        · exact ⟨err, m', by cases err <;> first | rfl | exact absurd rfl herr, .inr hinv⟩
    · rw [if_neg hmust]
      exact ⟨.noErr, m, rfl, .inr h⟩

end

/-! ### Runs -/

theorem lruInv_open {env : LRURegion K V D M P S} {contents : S → K → Option V}
    (hashcode : K → BitVec 32) (primeIndex : Nat) {action : LRUAction} (limit : BitVec 32)
    (evictionController heapLRUEnabled : Bool) (persisted : S)
    (hremoves : ∀ updateCount, action = .localDestroy updateCount → updateCount ≤ 0)
    (hdisk : action = .overflowToDisk → env.isDestroyed = false ∧ ReadsBack env contents) :
    LRUInv env contents (LRUEntriesMap.open hashcode primeIndex false action limit
      evictionController heapLRUEnabled persisted : LRUEntriesMap K V P S n) where
  plain := ⟨fun _ => plain_open primeIndex, fun _ _ _ he => nomatch he⟩
  listed := listed_new (fun _ => rfl) rfl rfl rfl
  removes := hremoves
  disk := hdisk
  stored _ _ hk := nomatch hk

end LRUEntriesMap

/-- A call keeps the invariant, or a persistence call fails. -/
theorem LRUEntriesMap.lruInv_step {K V D M P S : Type} {n : Nat} [NeZero n] [DecidableEq K]
    {env : LRURegion K V D M P S} {contents : S → K → Option V} {m : LRUEntriesMap K V P S n}
    (h : LRUInv env contents m) {op : LRUOp K V} (hop : op.Plain) :
    (op.step env m).persistenceFailed = true ∨ LRUInv env contents (op.step env m) := by
  rcases step_cases h.plain h.storedAt hop with
    hfail | ⟨hplain, hagrees, -⟩ | ⟨k, w, size, m₁, heffect, hb, hstep⟩
  · exact .inl hfail.2
  · exact .inr (h.agrees hplain hagrees)
  · have hinv := h.effect heffect hb
    cases hstep with
    | inl heq =>
      rw [heq]
      exact .inr hinv
    | inr heq =>
      obtain ⟨err, m', hprocess, hinv'⟩ := evictWhile_inv _ hinv
      rw [heq, processLRU, hprocess]
      exact hinv'

/-- A region over numbers, for concrete runs: keys have size 10 and values size 100, and the
persistence manager keeps a list. -/
def natLRURegion : LRURegion Nat Nat Unit Nat Unit (List (Nat × Nat)) where
  toRegionInternal := natRegion
  isDestroyed := false
  keySize := fun _ => 10
  valueSize := fun _ => 100
  write := fun s k v _ =>
    match v with
    | .object v => some (some (), (k, v) :: s)
    | _ => none
  read := fun s k info => some ((s.lookup k).elim .null .object, info)
  destroy := fun s k _ => some (s.filter fun b => b.1 ≠ k)

/-- A map of one segment over numbers. -/
def natLRUMap (action : LRUAction) (limit : BitVec 32) (heapLRUEnabled : Bool) :
    LRUEntriesMap Nat Nat Unit (List (Nat × Nat)) 1 :=
  .open (BitVec.ofNat 32) 0 false action limit true heapLRUEnabled []

/-- A put of the key as its own value. -/
def LRUOp.putSelf (k : Nat) : LRUOp Nat Nat := .put k (.object k) (-1) 0 none

end GeodeNative.Cache

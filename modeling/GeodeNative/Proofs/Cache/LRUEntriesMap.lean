import GeodeNative.Cache.LRUEntriesMap
import GeodeNative.Lib.Run
import GeodeNative.Proofs.Cache.LRUView
import GeodeNative.Proofs.Cache.PlainSegment

/-!
# The operations of the map with eviction

A map whose segments are all plain (`PlainMap`) has an `LRUView`. The lemmas here evaluate each
operation on such a map up to the call of `processLRU`: the segment answers as `PlainSegment` says,
and what is left is a change of the counters, of the list and of the binding of one key. They are
equations, for a key that is unbound and for a key that is bound; a call that is refused leaves a
map that `Agrees` with the one before.
-/

set_option autoImplicit false

namespace GeodeNative.Cache.LRUEntriesMap

open Lib MapSegment LRUView ConcurrentEntriesMap

variable {K V D M P S : Type} {n : Nat} [NeZero n] [DecidableEq K]

/-- The map as the eviction sees it. -/
def view (m : LRUEntriesMap K V P S n) : LRUView K V P where
  bound k := (m.find k).map fun e => (e.obj.addr, e.obj.value)
  nextAddr k := (m.segmentFor k).nextAddr
  list := m.lruList
  size := m.size
  validEntries := m.validEntries

/-- Every segment is plain, and binds only keys that belong to it. -/
structure PlainMap (m : LRUEntriesMap K V P S n) : Prop where
  plain : ∀ i, Plain (m.segments i)
  homed : ∀ i k e, (m.segments i).find k = some e → m.segmentIdx k = i

/-! ### The view after a segment changed -/

variable {v : CacheablePtr V} {updateCount : Int} {x : Option (MapEntry K V)}

section
variable {m : LRUEntriesMap K V P S n} {k : K} {s : MapSegment K V}

/-- Only the values of entries that are not bound depend on the old segment. -/
theorem changeSegment_eq (m : LRUEntriesMap K V P S n) (k : K) (s : MapSegment K V) :
    ∃ unbound, m.changeSegment k s =
      { m with toConcurrentEntriesMap := m.setSegment k s, unbound := unbound } := by
  unfold changeSegment
  cases m.find k with
  | none => exact ⟨m.unbound, rfl⟩
  | some e =>
    dsimp only
    split
    · exact ⟨m.unbound, rfl⟩
    · exact ⟨_, rfl⟩

theorem changeSegment_self (hk : m.find k = none) : m.changeSegment k (m.segmentFor k) = m := by
  have hself : m.setSegment k (m.segmentFor k) = m.toConcurrentEntriesMap := by
    show { m.toConcurrentEntriesMap with
      segments := Function.update m.segments (m.segmentIdx k) (m.segments (m.segmentIdx k)) } = _
    rw [Function.update_eq_self]
  unfold changeSegment
  rw [hk, hself]

theorem view_changeSegment (m : LRUEntriesMap K V P S n) (k : K) (s : MapSegment K V) :
    (m.changeSegment k s).view = { m.view with
      bound := fun k' => ((if m.segmentIdx k' = m.segmentIdx k then s
        else m.segmentFor k').find k').map fun e => (e.obj.addr, e.obj.value)
      nextAddr := fun k' => (if m.segmentIdx k' = m.segmentIdx k then s
        else m.segmentFor k').nextAddr } := by
  obtain ⟨unbound, heq⟩ := changeSegment_eq m k s
  rw [heq]
  unfold view ConcurrentEntriesMap.find
  simp only [segmentFor_setSegment]
  rfl

/-- The next addresses after the segment of `k` has given out an address. -/
def nextAddrAfter (m : LRUEntriesMap K V P S n) (k : K) (a : Nat) (k' : K) : Nat :=
  if m.segmentIdx k' = m.segmentIdx k then a else m.view.nextAddr k'

theorem nextAddrAfter_same (m : LRUEntriesMap K V P S n) (k : K) :
    m.nextAddrAfter k (m.segmentFor k).nextAddr = m.view.nextAddr := by
  funext k'
  unfold nextAddrAfter
  split
  · rename_i h
    show _ = (m.segmentFor k').nextAddr
    unfold segmentFor
    rw [h]
  · rfl

variable {a : Nat} {s s' : MapSegment K V}

theorem view_setsAt (hsets : SetsAt k x (m.segmentFor k) s) (ha : s.nextAddr = a) :
    (m.changeSegment k s).view =
      { m.view.rebind k (x.map fun e => (e.obj.addr, e.obj.value)) with
        nextAddr := m.nextAddrAfter k a } := by
  rw [view_changeSegment]
  refine LRUView.ext ?_ ?_ rfl rfl rfl
  · funext k'
    show ((if m.segmentIdx k' = m.segmentIdx k then s else m.segmentFor k').find k').map _ =
      Function.update m.view.bound k _ k'
    rw [Function.update_apply, ← segmentFor_setSegment,
      ← ConcurrentEntriesMap.find, m.find_setSegment hsets]
    split <;> rfl
  · funext k'
    show (if m.segmentIdx k' = m.segmentIdx k then s else m.segmentFor k').nextAddr =
      m.nextAddrAfter k a k'
    unfold nextAddrAfter
    split
    · exact ha
    · rfl

theorem setsAt_same (h : Changes s s' s.map a) (k : K) : SetsAt k (s.find k) s s' := by
  refine ⟨fun k' => ?_, h.flag⟩
  rw [h.find]
  split
  · rename_i hk
    rw [hk]
    rfl
  · rfl

theorem PlainMap.segmentFor (hm : PlainMap m) (k : K) : Plain (m.segmentFor k) := hm.plain _

theorem PlainMap.changeSegment (hm : PlainMap m) (hs : Plain s)
    (hsets : SetsAt k x (m.segmentFor k) s) : PlainMap (m.changeSegment k s) := by
  obtain ⟨unbound, heq⟩ := changeSegment_eq m k s
  rw [heq]
  have hseg : ∀ i, (m.setSegment k s).segments i =
      if i = m.segmentIdx k then s else m.segments i := by
    intro i
    show Function.update m.segments (m.segmentIdx k) s i = _
    rw [Function.update_apply]
  constructor
  · intro i
    show Plain ((m.setSegment k s).segments i)
    rw [hseg]
    split
    · exact hs
    · exact hm.plain i
  · intro i k' e he
    have he' : ((m.setSegment k s).segments i).find k' = some e := he
    show m.segmentIdx k' = i
    rw [hseg] at he'
    split at he'
    · rename_i hi
      by_cases hk : k' = k
      · rw [hk, hi]
      · rw [hsets.find_ne hk] at he'
        rw [hm.homed _ k' e he', hi]
    · exact hm.homed i k' e he'

theorem PlainMap.bound (hm : PlainMap m) (hk : m.view.bound k = some (a, v)) :
    ∃ o, (m.segmentFor k).find k = some (.impl o) ∧ o.addr = a ∧ o.value = v := by
  have hk' : ((m.segmentFor k).find k).map (fun e => (e.obj.addr, e.obj.value)) = some (a, v) := hk
  rw [Option.map_eq_some_iff] at hk'
  obtain ⟨e, he, heq⟩ := hk'
  obtain ⟨o, rfl, -⟩ := (hm.segmentFor k).entries k e he
  exact ⟨o, he, (Prod.mk.inj heq).1, (Prod.mk.inj heq).2⟩

theorem bound_none (hk : m.view.bound k = none) : (m.segmentFor k).find k = none :=
  Option.map_eq_none_iff.mp hk

theorem bound_none_of_accepted (h : ¬(m.find k = none → 0 ≤ updateCount)) :
    m.view.bound k = none ∧ updateCount < 0 := by
  obtain ⟨hfind, hcount⟩ := Classical.not_imp.mp h
  exact ⟨Option.map_eq_none_iff.mpr hfind, Int.not_le.mp hcount⟩

variable (m k) in
/-- A `put` is refused, or makes a new entry, or updates the entry. -/
theorem put_decides (updateCount : Int) :
    0 ≤ updateCount ∧ ((m.segmentFor k).find k ≠ none → 0 < updateCount) ∨
      m.view.bound k = none ∧ updateCount < 0 ∨
      ∃ a u, m.view.bound k = some (a, u) ∧ updateCount ≤ 0 := by
  cases hk : m.view.bound k with
  | none =>
    by_cases hcount : updateCount < 0
    · exact .inr (.inl ⟨rfl, hcount⟩)
    · exact .inl ⟨Int.not_lt.mp hcount, fun hfind => absurd (bound_none hk) hfind⟩
  | some x =>
    by_cases hcount : updateCount ≤ 0
    · exact .inr (.inr ⟨x.1, x.2, rfl, hcount⟩)
    · exact .inl ⟨by omega, fun _ => Int.not_le.mp hcount⟩

end

omit [NeZero n] [DecidableEq K] in
theorem updateMapSize_eq (m : LRUEntriesMap K V P S n) (size : Int) :
    m.updateMapSize size =
      { m with currentMapSize := m.currentMapSize + if m.evictionController then size else 0 } := by
  unfold updateMapSize
  split
  · rfl
  · rw [Int.add_zero]

/-! ### The persistence manager -/

/-- The persistence manager reads back what was written: `contents` is what its states hold. -/
structure ReadsBack (env : LRURegion K V D M P S) (contents : S → K → Option V) : Prop where
  write : ∀ s k v info info' s', env.write s k (.object v) info = some (info', s') →
    contents s' k = some v ∧ ∀ k', k' ≠ k → contents s' k' = contents s k'
  destroy : ∀ s k info s', env.destroy s k info = some s' →
    ∀ k', k' ≠ k → contents s' k' = contents s k'
  read : ∀ s k info v x info', contents s k = some v → env.read s k info = some (x, info') →
    x = .object v

/-- A value that is overflowed can be read back. -/
def Stored (env : LRURegion K V D M P S) (contents : S → K → Option V)
    (m : LRUEntriesMap K V P S n) (k : K) (v : CacheablePtr V) : Prop :=
  v = .token .overflowed → ReadsBack env contents ∧ ∃ u, contents m.persisted k = some u

section
variable (env : LRURegion K V D M P S) (m : LRUEntriesMap K V P S n) (k : K) (a : Nat)

omit [NeZero n] [DecidableEq K] in
/-- The read of a value that is about to be replaced: a call fails, or the value comes back. -/
theorem retrieve_cases :
    m.retrieve env k a = (.error .persistence, { m with persistenceFailed := true }) ∨
      ∃ w persisted, m.retrieve env k a = (.ok w, { m with persisted := persisted }) ∧
        ∀ (contents : S → K → Option V) (v : V), ReadsBack env contents →
          contents m.persisted k = some v →
            w = .object v ∧ ∀ k', k' ≠ k → contents persisted k' = contents m.persisted k' := by
  unfold retrieve
  cases hread : env.read m.persisted k (m.properties k a).persistenceInfo with
  | none => exact .inl rfl
  | some r =>
    obtain ⟨w, info⟩ := r
    dsimp only
    by_cases hnull : w.isNull = true
    · rw [if_pos hnull]
      refine .inr ⟨w, m.persisted, rfl, ?_⟩
      intro contents v hback hv
      exact ⟨hback.read _ k _ v w info hv hread, fun _ _ => rfl⟩
    · rw [if_neg hnull]
      cases hdestroy : env.destroy m.persisted k info with
      | none => exact .inl rfl
      | some persisted =>
        refine .inr ⟨w, persisted, rfl, ?_⟩
        intro contents v hback hv
        exact ⟨hback.read _ k _ v w info hv hread, hback.destroy _ k info persisted hdestroy⟩

omit [NeZero n] [DecidableEq K] in
theorem retrieveOverflowed_of_not (hv : v.isOverflowed = false) (me : Option Nat) :
    m.retrieveOverflowed env k me v = (.ok v, m) := by
  unfold retrieveOverflowed
  rw [hv, if_neg Bool.false_ne_true]

omit [NeZero n] [DecidableEq K] in
/-- The old value as it is reported, if an overflowed one can be read back. -/
theorem retrieveOverflowed_cases {contents : S → K → Option V} (hlive : LiveValue v)
    (hstored : Stored env contents m k v) :
    v = .token .overflowed ∧ m.retrieveOverflowed env k (some a) v =
        (.error .persistence, { m with persistenceFailed := true }) ∨
      ∃ w persisted, m.retrieveOverflowed env k (some a) v =
          (.ok w, { m with persisted := persisted }) ∧ LiveValue w ∧
        (v ≠ .token .overflowed → w = v) ∧
        ∀ k', k' ≠ k → contents persisted k' = contents m.persisted k' := by
  by_cases hover : v.isOverflowed = true
  · have hv := (isOverflowed_iff v).mp hover
    obtain ⟨hback, u, hu⟩ := hstored hv
    have heq : m.retrieveOverflowed env k (some a) v = m.retrieve env k a := by
      rw [retrieveOverflowed, if_pos hover]
    rw [heq]
    cases retrieve_cases env m k a with
    | inl h => exact .inl ⟨hv, h⟩
    | inr h =>
      obtain ⟨w, persisted, hret, hspec⟩ := h
      obtain ⟨rfl, hother⟩ := hspec contents u hback hu
      exact .inr ⟨_, persisted, hret, liveValue_object u, fun hne => absurd hv hne, hother⟩
  · rw [Bool.not_eq_true] at hover
    exact .inr ⟨v, m.persisted, retrieveOverflowed_of_not env m k hover (some a), hlive,
      fun _ => rfl, fun _ _ => rfl⟩

end

/-! ### The parts of the operations -/

omit [DecidableEq K] in
theorem objectSize_of_live (env : LRURegion K V D M P S) (hlive : LiveValue v) :
    ∃ size, env.objectSize v = some size ∧ env.oldSize v = size.toNat := by
  cases v with
  | null => exact absurd rfl hlive.1
  | token t => exact ⟨tokenSize, rfl, rfl⟩
  | object v => exact ⟨env.valueSize v, rfl, rfl⟩

section
variable (env : LRURegion K V D M P S) (m : LRUEntriesMap K V P S n) (k : K)
  {newValue oldValue : CacheablePtr V}

omit [NeZero n] [DecidableEq K] in
theorem accountRemoved_eq (hold : LiveValue oldValue) :
    m.accountRemoved env k oldValue = (.ok (), { m with
      currentMapSize := m.currentMapSize +
        if m.evictionController then -1 * ((env.keySize k).toNat + env.oldSize oldValue)
        else 0 }) := by
  obtain ⟨size, hsize, hsize'⟩ := objectSize_of_live env hold
  rw [hsize']
  unfold accountRemoved
  by_cases hctrl : m.evictionController = true
  · simp only [if_pos hctrl, hsize, updateMapSize_eq]
  · simp only [if_neg hctrl, Int.add_zero]

omit [NeZero n] [DecidableEq K] in
theorem accountPut_eq (hnew : LiveValue newValue) (oldValue : CacheablePtr V) (isUpdate : Bool) :
    m.accountPut env k newValue oldValue isUpdate = (.ok (), { m with
      currentMapSize := m.currentMapSize +
        if m.evictionController then
          if isUpdate then env.oldSize newValue - env.oldSize oldValue
          else env.oldSize newValue + (env.keySize k).toNat
        else 0 }) := by
  obtain ⟨size, hsize, hsize'⟩ := objectSize_of_live env hnew
  rw [hsize']
  unfold accountPut
  by_cases hctrl : m.evictionController = true
  · simp only [if_pos hctrl, hsize, updateMapSize_eq]
  · simp only [if_neg hctrl, Int.add_zero]

omit [NeZero n] [DecidableEq K] in
theorem countPut_value (hnew : newValue.isToken = false) :
    m.countPut newValue oldValue =
      { m with validEntries :=
          if oldValue.isToken then m.validEntries + 1 else m.validEntries } := by
  unfold countPut
  rw [hnew]
  simp

variable {m k} {o : MapEntryImpl K V}

theorem appendPut_new (hentry : (m.segmentFor k).getEntry k = .ok (some o))
    (newValue oldValue : CacheablePtr V) (me : Option Nat) :
    m.appendPut k newValue oldValue false me = (.ok (some o.addr), { m with
      size := m.size + 1
      validEntries := m.validEntries + 1
      lruList := m.lruList.appendEntry (some (k, o.addr)) }) := by
  have hentry' : (segmentFor { m.toConcurrentEntriesMap with
      size := m.size + 1 } k).getEntry k = .ok (some o) := hentry
  unfold appendPut
  rw [if_pos rfl]
  dsimp only
  rw [hentry']

theorem appendPut_update (hentry : (m.segmentFor k).getEntry k = .ok (some o))
    (hnew : newValue.isToken = false) (oldValue : CacheablePtr V) :
    m.appendPut k newValue oldValue true (some o.addr) = (.ok (some o.addr), { m with
      lruList := if oldValue.isToken then
          (m.lruList.clearEvicted (some (k, o.addr))).appendEntry (some (k, o.addr))
        else m.lruList }) := by
  unfold appendPut
  rw [if_neg (fun h => nomatch h), hnew]
  cases oldValue.isToken with
  | true => rw [if_pos ⟨rfl, rfl⟩, hentry, if_pos rfl]
  | false => rw [if_neg (fun h => nomatch h.2), if_neg Bool.false_ne_true]

end

/-- The two maps differ at most in the hash tables, and in the values of entries that are not
bound. -/
structure Agrees (m m' : LRUEntriesMap K V P S n) : Prop where
  view : m'.view = m.view
  action : m'.action = m.action
  limit : m'.limit = m.limit
  evictionController : m'.evictionController = m.evictionController
  currentMapSize : m'.currentMapSize = m.currentMapSize
  heapLRUEnabled : m'.heapLRUEnabled = m.heapLRUEnabled
  persisted : m'.persisted = m.persisted
  persistenceFailed : m'.persistenceFailed = m.persistenceFailed

variable {m : LRUEntriesMap K V P S n}

theorem agrees_changeSegment {k : K} {s : MapSegment K V}
    (hsets : SetsAt k ((m.segmentFor k).find k) (m.segmentFor k) s)
    (hnext : s.nextAddr = (m.segmentFor k).nextAddr) : Agrees m (m.changeSegment k s) := by
  have hview : (m.changeSegment k s).view = m.view := by
    rw [view_setsAt hsets hnext, nextAddrAfter_same]
    show { m.view with bound := Function.update m.view.bound k (m.view.bound k) } = _
    rw [Function.update_eq_self]
  obtain ⟨unbound, hseg⟩ := changeSegment_eq m k s
  rw [hseg] at hview ⊢
  exact ⟨hview, rfl, rfl, rfl, rfl, rfl, rfl, rfl⟩

/-! ### The operations on a plain map -/

section
variable (env : LRURegion K V D M P S) {m : LRUEntriesMap K V P S n} (hm : PlainMap m) {k : K}
include hm

section Unbound
variable (hk : (m.segmentFor k).find k = none)
include hk

theorem remove_unbound_eq (updateCount : Int) (tag : Option VersionTag) (afterRemote : Bool) :
    m.remove env k updateCount tag afterRemote = (.ok { err := .cacheEntryNotFound }, m) := by
  simp only [remove, remove_unbound (m.region env) (hm.segmentFor k) hk, changeSegment_self hk]

theorem invalidate_unbound_eq (tag : Option VersionTag) :
    m.invalidate env k tag = (.ok { err := .cacheEntryNotFound }, m) := by
  simp only [invalidate, invalidate_unbound (m.region env) (hm.segmentFor k) hk,
    changeSegment_self hk, Bool.false_eq_true, if_false, ne_eq, reduceCtorEq, not_false_eq_true,
    if_true]

omit hm in
theorem get_unbound_eq : m.get env k = (.ok ⟨false, .null, none⟩, m) := by
  simp only [get, getEntry_unbound hk]

end Unbound

section
variable (v : CacheablePtr V) (destroyTracker : Int) (tag : Option VersionTag)

theorem create_refused_eq (hrefused : (m.segmentFor k).find k = none → 0 ≤ updateCount) :
    ∃ res s, (m.segmentFor k).create (m.region env) k v updateCount destroyTracker tag =
        (.ok res, s) ∧ res.err ≠ .noErr ∧
      m.create env k v updateCount destroyTracker tag = (.ok res, m.changeSegment k s) ∧
      PlainMap (m.changeSegment k s) ∧ Agrees m (m.changeSegment k s) := by
  have hplain := hm.segmentFor k
  have hsegment : ∃ res s, (m.segmentFor k).create (m.region env) k v updateCount destroyTracker
      tag = (.ok res, s) ∧ res.err ≠ .noErr ∧
        Changes (m.segmentFor k) s (m.segmentFor k).map (m.segmentFor k).nextAddr := by
    cases hfind : (m.segmentFor k).find k with
    | none =>
      exact ⟨_, _, create_tracked_unbound (m.region env) _ k v _ destroyTracker tag hplain.disabled
        hfind (hrefused hfind), (nomatch ·), Changes.rehashIfNeeded _⟩
    | some e =>
      obtain ⟨o, rfl, -⟩ := hplain.entries k e hfind
      obtain ⟨s, heq, hchange⟩ :=
        create_bound (m.region env) hplain v destroyTracker tag hfind updateCount
      exact ⟨_, s, heq, (nomatch ·), hchange⟩
  obtain ⟨res, s, heq, herr, hchange⟩ := hsegment
  have hsets := setsAt_same hchange k
  refine ⟨res, s, heq, herr, ?_, hm.changeSegment (hplain.same hchange) hsets,
    agrees_changeSegment hsets hchange.nextAddr⟩
  simp only [create, heq, ne_eq, herr, not_false_eq_true, if_true]

theorem put_refused_eq (hcount : 0 ≤ updateCount)
    (hrefused : (m.segmentFor k).find k ≠ none → 0 < updateCount) :
    ∃ res s, (m.segmentFor k).put (m.region env) k v updateCount destroyTracker tag none =
        (.ok res, s) ∧ res.err ≠ .noErr ∧
      m.put env k v updateCount destroyTracker tag none = (.ok res, m.changeSegment k s) ∧
      PlainMap (m.changeSegment k s) ∧ Agrees m (m.changeSegment k s) := by
  have hplain := hm.segmentFor k
  have hsegment : ∃ res s, (m.segmentFor k).put (m.region env) k v updateCount destroyTracker
      tag none = (.ok res, s) ∧ res.err ≠ .noErr ∧ Plain s ∧
        SetsAt k ((m.segmentFor k).find k) (m.segmentFor k) s ∧
        s.nextAddr = (m.segmentFor k).nextAddr := by
    cases hfind : (m.segmentFor k).find k with
    | none =>
      have hchange := Changes.rehashIfNeeded (m.segmentFor k)
      exact ⟨_, _,
        put_tracked_unbound (m.region env) _ k v _ destroyTracker tag hplain.disabled hfind
        hcount, (nomatch ·), hplain.same hchange, hfind ▸ setsAt_same hchange k, hchange.nextAddr⟩
    | some e =>
      obtain ⟨o, rfl, ho, hlive, haddr⟩ := hplain.entries k e hfind
      obtain ⟨s, heq, hchange⟩ := put_bound_counted (m.region env) hplain v destroyTracker tag hfind
        (hrefused (by rw [hfind]; exact Option.some_ne_none _))
      exact ⟨_, s, heq, (nomatch ·), hplain.insert hchange ho hlive haddr (Nat.le_refl _),
        setsAt_insert hchange, hchange.nextAddr⟩
  obtain ⟨res, s, heq, herr, hplain', hsets, hnext⟩ := hsegment
  refine ⟨res, s, heq, herr, ?_, hm.changeSegment hplain' hsets,
    agrees_changeSegment hsets hnext⟩
  simp only [put, heq, ne_eq, herr, not_false_eq_true, if_true]

end

end

/-! ### What the operations change -/

/-- The map has become `m'`, with the view `w`. For the eviction controller the sizes have grown by
`size`, and only the value of `k` on disk may have changed. -/
structure Becomes (contents : S → K → Option V) (m : LRUEntriesMap K V P S n) (k : K)
    (w : LRUView K V P) (size : Int) (m' : LRUEntriesMap K V P S n) : Prop where
  plain : PlainMap m'
  view : m'.view = w
  action : m'.action = m.action
  limit : m'.limit = m.limit
  evictionController : m'.evictionController = m.evictionController
  heapLRUEnabled : m'.heapLRUEnabled = m.heapLRUEnabled
  currentMapSize : m'.currentMapSize = m.currentMapSize + if m.evictionController then size else 0
  persisted : ∀ k', k' ≠ k → contents m'.persisted k' = contents m.persisted k'
  persistenceFailed : m'.persistenceFailed = m.persistenceFailed

section
variable {contents : S → K → Option V} {m m₁ : LRUEntriesMap K V P S n} {k : K} {w : LRUView K V P}
  {s : MapSegment K V}

variable (contents) in
theorem becomes_changeSegment (hm : PlainMap m) (hs : Plain s)
    (hsets : SetsAt k x (m.segmentFor k) s) {a : Nat} (hnext : s.nextAddr = a) :
    Becomes contents m k { m.view.rebind k (x.map fun e => (e.obj.addr, e.obj.value)) with
      nextAddr := m.nextAddrAfter k a } 0 (m.changeSegment k s) := by
  have hview := view_setsAt hsets hnext
  have hplain := hm.changeSegment hs hsets
  obtain ⟨unbound, hseg⟩ := changeSegment_eq m k s
  rw [hseg] at hview hplain ⊢
  exact ⟨hplain, hview, rfl, rfl, rfl, rfl, by simp, fun _ _ => rfl, rfl⟩

variable (contents) in
theorem becomes_value (hm : PlainMap m) {o : MapEntryImpl K V}
    (hk : (m.segmentFor k).find k = some (.impl o)) (hv : LiveValue v)
    (h : Changes (m.segmentFor k) s
      ((m.segmentFor k).map.insert k (.impl (o.setValueI v))) (m.segmentFor k).nextAddr) :
    Becomes contents m k (m.view.rebind k (some (o.addr, v))) 0 (m.changeSegment k s) := by
  obtain ⟨ho, -, haddr⟩ := (hm.segmentFor k).entry hk
  have hplain : Plain s :=
    (hm.segmentFor k).insert h (ho.setValueI _) hv haddr (Nat.le_refl _)
  have hbecomes := becomes_changeSegment contents hm hplain (setsAt_insert h)
    h.nextAddr
  rw [nextAddrAfter_same] at hbecomes
  exact hbecomes

/-- A change of the list, the counters, the sizes and the disk after the segment has changed. -/
theorem Becomes.account (h : Becomes contents m k w 0 m₁) {list : LRUList (Option (K × Nat)) P}
    {size validEntries : BitVec 32} {mapSize : Int} {persisted : S}
    (hpersisted : ∀ k', k' ≠ k → contents persisted k' = contents m₁.persisted k') :
    Becomes contents m k { w with list := list, size := size, validEntries := validEntries } mapSize
      { m₁ with
        lruList := list
        size := size
        validEntries := validEntries
        currentMapSize := m₁.currentMapSize + if m₁.evictionController then mapSize else 0
        persisted := persisted } := by
  have hsize : m₁.currentMapSize + (if m₁.evictionController then mapSize else 0) =
      m.currentMapSize + if m.evictionController then mapSize else 0 := by
    rw [h.currentMapSize, h.evictionController]
    simp
  exact { h with
    plain := ⟨h.plain.plain, h.plain.homed⟩
    view := h.view ▸ rfl
    currentMapSize := hsize
    persisted := fun k' hk' => (hpersisted k' hk').trans (h.persisted k' hk') }

theorem Becomes.persist {size : Int} (h : Becomes contents m k w size m₁) {persisted : S}
    (hpersisted : ∀ k', k' ≠ k → contents persisted k' = contents m₁.persisted k') :
    Becomes contents m k w size { m₁ with persisted := persisted } :=
  { h with
    plain := ⟨h.plain.plain, h.plain.homed⟩
    persisted := fun k' hk' => (hpersisted k' hk').trans (h.persisted k' hk') }

variable (contents) in
theorem becomes_new (hm : PlainMap m) {v : V}
    (h : Changes (m.segmentFor k) s ((m.segmentFor k).map.insert k
        (.impl (fresh (m.segmentFor k).nextAddr k (.object v)))) ((m.segmentFor k).nextAddr + 1))
    (mapSize : Int) :
    ∃ w, m.view.New k (.object v) w ∧ Becomes contents m k w mapSize
      { m.changeSegment k s with
        lruList := (m.changeSegment k s).lruList.appendEntry (some (k, (m.segmentFor k).nextAddr))
        size := (m.changeSegment k s).size + 1
        validEntries := (m.changeSegment k s).validEntries + 1
        currentMapSize := (m.changeSegment k s).currentMapSize +
          if (m.changeSegment k s).evictionController then mapSize else 0 } := by
  have hplain : Plain s := (hm.segmentFor k).insert h ⟨rfl, rfl, rfl⟩ (liveValue_object v)
    (Nat.lt_succ_self _) (Nat.le_succ _)
  have hbecomes := becomes_changeSegment contents hm hplain (setsAt_insert h)
    h.nextAddr
  refine ⟨_, ⟨m.nextAddrAfter k ((m.segmentFor k).nextAddr + 1), ?_, ?_, rfl⟩, ?_⟩
  · intro k'
    unfold nextAddrAfter
    split
    · rename_i hidx
      have hsame : m.view.nextAddr k' = (m.segmentFor k).nextAddr := by
        show (m.segments _).nextAddr = (m.segments _).nextAddr
        rw [hidx]
      omega
    · exact Nat.le_refl _
  · unfold nextAddrAfter
    rw [if_pos rfl]
    exact Nat.lt_succ_self _
  · obtain ⟨unbound, hseg⟩ := changeSegment_eq m k s
    rw [hseg] at hbecomes ⊢
    exact hbecomes.account fun _ _ => rfl

end

theorem getEntry_changeSegment {k : K} {s : MapSegment K V} (hm : PlainMap (m.changeSegment k s))
    {o : MapEntryImpl K V} {a : Nat}
    (h : Changes (m.segmentFor k) s ((m.segmentFor k).map.insert k (.impl o)) a) :
    ((m.changeSegment k s).segmentFor k).getEntry k = .ok (some o) := by
  refine getEntry_bound (hm.segmentFor k) ?_
  obtain ⟨unbound, heq⟩ := changeSegment_eq m k s
  rw [heq]
  show ((m.setSegment k s).segmentFor k).find k = _
  rw [segmentFor_setSegment, if_pos rfl, h.find, AList.lookup_insert]

section
variable (env : LRURegion K V D M P S) (contents : S → K → Option V) {m : LRUEntriesMap K V P S n}
  (hm : PlainMap m) {k : K}
include hm

section Unbound
variable (hk : m.view.bound k = none) {v : V} {updateCount : Int} (hcount : updateCount < 0)
  (destroyTracker : Int) (tag : Option VersionTag)
include hk hcount

/-- A new entry is made, and then others may be evicted. -/
theorem put_new :
    ∃ w m₁, m.view.New k (.object v) w ∧
      Becomes contents m k w ((env.valueSize v).toNat + (env.keySize k).toNat) m₁ ∧
      m.put env k (.object v) updateCount destroyTracker tag none =
        match m₁.processLRU env with
        | (.error x, m) => (.error x, m)
        | (.ok err, m') => (.ok { err := err, me := some (m.view.nextAddr k) }, m') := by
  obtain ⟨s, heq, hchange⟩ := put_unbound (m.region env) (hm.segmentFor k) k (.object v)
    destroyTracker tag (bound_none hk) hcount
  obtain ⟨w, hnew, hbecomes⟩ := becomes_new contents hm hchange
    ((env.valueSize v).toNat + (env.keySize k).toNat)
  have hentry := getEntry_changeSegment ⟨hbecomes.plain.plain, hbecomes.plain.homed⟩ hchange
  refine ⟨w, _, hnew, hbecomes, ?_⟩
  simp only [put, heq, ne_eq, not_true_eq_false, if_false]
  rw [retrieveOverflowed_of_not env _ k rfl]
  dsimp only
  rw [countPut_value _ rfl, appendPut_new (by exact hentry)]
  dsimp only
  rw [accountPut_eq env _ k (liveValue_object v)]
  rfl

/-- A new entry is made, as for `put`. The size of a pointer is taken off for the old value. -/
theorem create_new :
    ∃ w m₁, m.view.New k (.object v) w ∧
      Becomes contents m k w ((env.valueSize v).toNat + (env.keySize k).toNat - pointerSize) m₁ ∧
      m.create env k (.object v) updateCount destroyTracker tag =
        match m₁.processLRU env with
        | (.error x, m) => (.error x, m)
        | (.ok err, m') => (.ok { err := err, me := some (m.view.nextAddr k) }, m') := by
  obtain ⟨s, heq, hchange⟩ := create_unbound (m.region env) (hm.segmentFor k) k (.object v)
    destroyTracker tag (bound_none hk) hcount
  obtain ⟨w, hnew, hbecomes⟩ := becomes_new contents hm hchange
    ((env.valueSize v).toNat + (env.keySize k).toNat - pointerSize)
  have hentry := getEntry_changeSegment ⟨hbecomes.plain.plain, hbecomes.plain.homed⟩ hchange
  refine ⟨w, _, hnew, hbecomes, ?_⟩
  simp only [create, heq, ne_eq, not_true_eq_false, if_false]
  rw [show (segmentFor ((m.changeSegment k s).countCreated (.object v)
    .null).toConcurrentEntriesMap k).getEntry k = _ from hentry]
  dsimp only
  rw [updateMapSize_eq]
  rfl

end Unbound

section Bound
variable {a : Nat} {u : CacheablePtr V} (hk : m.view.bound k = some (a, u))
  (hstored : Stored env contents m k u)
include hk hstored

omit hm hk in
theorem stored_changeSegment (s : MapSegment K V) :
    Stored env contents (m.changeSegment k s) k u := by
  obtain ⟨unbound, hseg⟩ := changeSegment_eq m k s
  rw [hseg]
  exact hstored

/-- A put on a bound key: the entry gets the new value, and then others may be evicted. `u'` is the
old value as it is reported. -/
theorem put_update {v : V} (hcount : updateCount ≤ 0) (destroyTracker : Int)
    (tag : Option VersionTag) :
    u = .token .overflowed ∧
        (m.put env k (.object v) updateCount destroyTracker tag none).2.persistenceFailed = true ∨
      ∃ u' m₁, (u ≠ .token .overflowed → u' = u) ∧
        Becomes contents m k (m.view.updated k a u (.object v))
          ((env.valueSize v).toNat - env.oldSize u') m₁ ∧
        m.put env k (.object v) updateCount destroyTracker tag none =
          match m₁.processLRU env with
          | (.error x, m) => (.error x, m)
          | (.ok err, m) =>
            (.ok { err := err, me := some a, oldValue := u', isUpdate := true }, m) := by
  obtain ⟨o, hfind, rfl, rfl⟩ := hm.bound hk
  obtain ⟨-, hlive, -⟩ := (hm.segmentFor k).entry hfind
  obtain ⟨s, heq, hchange⟩ := put_bound (m.region env) (hm.segmentFor k) (.object v) destroyTracker
    tag hfind (liveValue_object v) hcount
  have hbecomes := becomes_value contents hm hfind (liveValue_object v) hchange
  have hentry := getEntry_changeSegment hbecomes.plain hchange
  simp only [put, heq, ne_eq, not_true_eq_false, if_false]
  cases retrieveOverflowed_cases env (m.changeSegment k s) k o.addr hlive
    (stored_changeSegment env contents hstored s) with
  | inl h =>
    rw [h.2]
    exact .inl ⟨h.1, rfl⟩
  | inr h =>
    obtain ⟨u', persisted, hret, -, hsame, hother⟩ := h
    rw [hret]
    dsimp only
    rw [countPut_value _ rfl, show o.addr = (o.setValueI (.object v)).addr from rfl,
      appendPut_update (by exact hentry) rfl]
    dsimp only
    rw [accountPut_eq env _ k (liveValue_object v)]
    refine .inr ⟨u', _, hsame, ?_, rfl⟩
    obtain ⟨unbound, hseg⟩ := changeSegment_eq m k s
    rw [hseg] at hbecomes hother ⊢
    exact hbecomes.account hother

theorem remove_cases (hcount : updateCount ≤ 0) (tag : Option VersionTag) (afterRemote : Bool) :
    u = .token .overflowed ∧
        (m.remove env k updateCount tag afterRemote).2.persistenceFailed = true ∨
      ∃ u' m', (u ≠ .token .overflowed → u' = u) ∧
        Becomes contents m k (m.view.removed k a u)
          (-1 * ((env.keySize k).toNat + env.oldSize u')) m' ∧
        m.remove env k updateCount tag afterRemote =
          (.ok { err := .noErr, me := some a, oldValue := u' }, m') := by
  obtain ⟨o, hfind, rfl, rfl⟩ := hm.bound hk
  have hplain := hm.segmentFor k
  obtain ⟨-, hlive, -⟩ := hplain.entry hfind
  have hchange : Changes (m.segmentFor k) ((m.segmentFor k).unbind k)
      ((m.segmentFor k).map.erase k) (m.segmentFor k).nextAddr := ⟨rfl, rfl, rfl, rfl⟩
  have hbecomes := becomes_changeSegment contents hm (hplain.erase hchange)
    (setsAt_erase hchange) hchange.nextAddr
  rw [nextAddrAfter_same] at hbecomes
  simp only [remove, remove_bound (m.region env) hplain tag hfind hcount, ne_eq, not_true_eq_false,
    hlive.tests, Bool.false_eq_true, or_self, if_false]
  cases retrieveOverflowed_cases env ((m.changeSegment k ((m.segmentFor k).unbind k)).countRemoved k
    o.addr o.value true) k o.addr hlive (by exact stored_changeSegment env contents hstored _) with
  | inl h =>
    rw [h.2]
    exact .inl ⟨h.1, rfl⟩
  | inr h =>
    obtain ⟨u', persisted, hret, hlive', hsame, hother⟩ := h
    rw [hret]
    dsimp only
    rw [accountRemoved_eq env _ k hlive']
    refine .inr ⟨u', _, hsame, ?_, rfl⟩
    obtain ⟨unbound, hseg⟩ := changeSegment_eq m k ((m.segmentFor k).unbind k)
    rw [hseg] at hbecomes hother ⊢
    exact hbecomes.account hother

theorem invalidate_cases (tag : Option VersionTag) :
    u = .token .overflowed ∧ (m.invalidate env k tag).2.persistenceFailed = true ∨
      ∃ u' m', (u ≠ .token .overflowed → u' = u) ∧
        Becomes contents m k (m.view.retired k a u (.token .invalid))
          (if u.isToken then 0 else tokenSize.toNat - env.oldSize u') m' ∧
        m.invalidate env k tag = (.ok { err := .noErr, me := some a, oldValue := u' }, m') := by
  obtain ⟨o, hfind, rfl, rfl⟩ := hm.bound hk
  obtain ⟨-, hlive, -⟩ := (hm.segmentFor k).entry hfind
  obtain ⟨s, heq, hchange⟩ := invalidate_bound (m.region env) (hm.segmentFor k) tag hfind
  have hbecomes := becomes_value contents hm hfind liveValue_invalid hchange
  simp only [invalidate, heq, Bool.false_eq_true, if_false, ne_eq, not_true_eq_false]
  cases retrieveOverflowed_cases env (m.changeSegment k s) k o.addr hlive
    (stored_changeSegment env contents hstored s) with
  | inl h =>
    rw [h.2]
    exact .inl ⟨h.1, rfl⟩
  | inr h =>
    obtain ⟨u', persisted, hret, -, hsame, hother⟩ := h
    rw [hret]
    dsimp only
    rw [updateMapSize_eq, retired]
    obtain ⟨unbound, hseg⟩ := changeSegment_eq m k s
    rw [hseg] at hbecomes hother ⊢
    cases o.value.isToken with
    | true => exact .inr ⟨u', _, hsame, hbecomes.persist hother, rfl⟩
    | false => exact .inr ⟨u', _, hsame, hbecomes.account hother, rfl⟩

omit hstored in
theorem get_memory (hu : u ≠ .token .overflowed) :
    m.get env k = (.ok ⟨true, u, some a⟩, m.setRecentlyUsed k a) ∧
      Becomes contents m k { m.view with list := m.view.list.setRecentlyUsed (some (k, a)) } 0
        (m.setRecentlyUsed k a) := by
  obtain ⟨o, hfind, rfl, rfl⟩ := hm.bound hk
  have hplain := hm.segmentFor k
  obtain ⟨-, hlive, -⟩ := hplain.entry hfind
  have hover : o.value.isOverflowed = false :=
    Bool.eq_false_iff.mpr fun h => hu ((isOverflowed_iff _).mp h)
  refine ⟨?_, ⟨hm.plain, hm.homed⟩, rfl, rfl, rfl, rfl, rfl, ?_, fun _ _ => rfl, rfl⟩
  · simp only [get, getEntry_bound hplain hfind, getValueI_of_live hlive, hover, Bool.false_eq_true,
      if_false]
  · show m.currentMapSize = _
    rw [ite_self, Int.add_zero]

theorem get_disk (hu : u = .token .overflowed) :
    (m.get env k).2.persistenceFailed = true ∨
      ∃ v size m₁, Becomes contents m k { m.view.updated k a u (.object v) with
          list := (m.view.updated k a u (.object v)).list.setRecentlyUsed (some (k, a)) } size m₁ ∧
        m.get env k =
          match m₁.processLRU env with
          | (.error x, m) => (.error x, m)
          | (.ok err, m) => (.ok ⟨err = .noErr, .object v, some a⟩, m) := by
  obtain ⟨o, hfind, rfl, hvalue⟩ := hm.bound hk
  have hplain := hm.segmentFor k
  obtain ⟨-, hlive, -⟩ := hplain.entry hfind
  obtain ⟨hback, v, hv⟩ := hstored hu
  have hover : o.value.isOverflowed = true := by
    rw [hvalue, hu]
    rfl
  simp only [get, getEntry_bound hplain hfind, getValueI_of_live hlive, hover, if_true, reload]
  cases hread : env.read m.persisted k (m.properties k o.addr).persistenceInfo with
  | none => exact .inl rfl
  | some r =>
    obtain ⟨tmpObj, info⟩ := r
    have htmp := hback.read _ k _ v tmpObj info hv hread
    subst htmp
    obtain ⟨s, heq, hchange⟩ := put_bound (m.region env) hplain (.object v) 0 none hfind
      (liveValue_object v) (Int.le_refl 0)
    have hbecomes := becomes_value contents hm hfind (liveValue_object v) hchange
    simp only [heq, if_true]
    refine .inr ⟨v, reloadedSize env (.object v), _, ?_, rfl⟩
    rw [updateMapSize_eq]
    obtain ⟨unbound, hseg⟩ := changeSegment_eq m k s
    rw [hseg] at hbecomes ⊢
    rw [hu]
    exact hbecomes.account fun _ _ => rfl

end Bound

end

end GeodeNative.Cache.LRUEntriesMap

/-! ### What a call can do -/

namespace GeodeNative.Cache

open LRUView

/-- The calls that keep the invariant, as a region makes them without trackers: the values are
objects, and no update count but 0 is passed to `remove`. -/
def LRUOp.Plain {K V : Type} : LRUOp K V → Prop
  | create _ newValue _ _ _ => ∃ v, newValue = .object v
  | put _ newValue _ _ _ => ∃ v, newValue = .object v
  | get _ => True
  | remove _ updateCount _ _ => updateCount ≤ 0
  | invalidate _ _ => True
  | values => False
  | clear => False
  | evict _ => False

/-- The call is not a `create` that its segment accepts: the key is bound, or there is an update
count. -/
def LRUOp.NoCreate {K V P S : Type} {n : Nat} [NeZero n] [DecidableEq K]
    (m : LRUEntriesMap K V P S n) : LRUOp K V → Prop
  | create key _ updateCount _ _ => m.find key = none → 0 ≤ updateCount
  | _ => True

/-- What a call does to the view before it calls `processLRU`: it changes the binding of one key and
accounts for a difference of the sizes. `u'` is the old value as it is reported. -/
inductive LRUOp.Effect {K V D M P S : Type} [DecidableEq K] (env : LRURegion K V D M P S)
    (w : LRUView K V P) : LRUOp K V → K → LRUView K V P → Int → Prop
  | create {k v w' updateCount destroyTracker tag} (hk : w.bound k = none)
      (hcount : updateCount < 0) (hw : w.New k (.object v) w') :
      Effect env w (.create k (.object v) updateCount destroyTracker tag) k w'
        ((env.valueSize v).toNat + (env.keySize k).toNat - pointerSize)
  | put {k v w' updateCount destroyTracker tag} (hk : w.bound k = none)
      (hw : w.New k (.object v) w') :
      Effect env w (.put k (.object v) updateCount destroyTracker tag) k w'
        ((env.valueSize v).toNat + (env.keySize k).toNat)
  | update {k a u u' v updateCount destroyTracker tag} (hk : w.bound k = some (a, u))
      (hsame : u ≠ .token .overflowed → u' = u) :
      Effect env w (.put k (.object v) updateCount destroyTracker tag) k
        (w.updated k a u (.object v)) ((env.valueSize v).toNat - env.oldSize u')
  | remove {k a u u' updateCount tag afterRemote} (hk : w.bound k = some (a, u))
      (hsame : u ≠ .token .overflowed → u' = u) :
      Effect env w (.remove k updateCount tag afterRemote) k (w.removed k a u)
        (-1 * ((env.keySize k).toNat + env.oldSize u'))
  | invalidate {k a u u' tag} (hk : w.bound k = some (a, u))
      (hsame : u ≠ .token .overflowed → u' = u) :
      Effect env w (.invalidate k tag) k (w.retired k a u (.token .invalid))
        (if u.isToken then 0 else tokenSize.toNat - env.oldSize u')
  | use {k a u} (hk : w.bound k = some (a, u)) (hu : u ≠ .token .overflowed) :
      Effect env w (.get k) k { w with list := w.list.setRecentlyUsed (some (k, a)) } 0
  | reload {k a u v size} (hk : w.bound k = some (a, u)) (hu : u = .token .overflowed) :
      Effect env w (.get k) k { w.updated k a u (.object v) with
        list := (w.updated k a u (.object v)).list.setRecentlyUsed (some (k, a)) } size

namespace LRUOp.Effect

variable {K V D M P S : Type} [DecidableEq K] {env : LRURegion K V D M P S} {w w' : LRUView K V P}
  {op : LRUOp K V} {k : K} {size : Int}

theorem other (h : op.Effect env w k w' size) (k' : K) (hk' : k' ≠ k) :
    w'.bound k' = w.bound k' := by
  cases h with
  | create _ _ hw | put _ hw => rw [hw.bound, if_neg hk']
  | update | remove | invalidate | reload => exact bound_rebind_ne _ hk'
  | use => rfl

/-- No call leaves an overflowed value. -/
theorem self (h : op.Effect env w k w' size) (b : Nat) :
    w'.bound k ≠ some (b, .token .overflowed) := by
  intro hb
  cases h with
  | create _ _ hw | put _ hw =>
    rw [hw.bound, if_pos rfl] at hb
    cases hb
  | update | remove | invalidate | reload => cases (bound_rebind_self _).symm.trans hb
  | use hk hu =>
    cases hk.symm.trans hb
    exact hu rfl

theorem listed (h : op.Effect env w k w' size) (hlisted : Listed none w) : Listed none w' := by
  cases h with
  | create hk _ hw | put hk hw => exact hlisted.new hk rfl hw
  | update hk => exact hlisted.update hk rfl
  | remove hk => exact hlisted.remove (fun _ he => nomatch he) hk
  | invalidate hk => exact hlisted.retire (fun _ he => nomatch he) hk rfl
  | use hk => exact hlisted.use hk
  | reload hk => exact (hlisted.update hk rfl).use (bound_rebind_self _)

end LRUOp.Effect

namespace LRUEntriesMap

variable {K V D M P S : Type} {n : Nat} [NeZero n] [DecidableEq K]

theorem Agrees.refl (m : LRUEntriesMap K V P S n) : Agrees m m :=
  ⟨rfl, rfl, rfl, rfl, rfl, rfl, rfl, rfl⟩

/-- A call on a plain map: a persistence call fails, or nothing happens, or the call has its effect
and others may be evicted then. -/
theorem step_cases {env : LRURegion K V D M P S} {contents : S → K → Option V}
    {m : LRUEntriesMap K V P S n} (hm : PlainMap m)
    (hstored : ∀ {k a u}, m.view.bound k = some (a, u) → Stored env contents m k u)
    {op : LRUOp K V} (hop : op.Plain) :
    (∃ k a, m.view.bound k = some (a, .token .overflowed)) ∧
        (op.step env m).persistenceFailed = true ∨
      PlainMap (op.step env m) ∧ Agrees m (op.step env m) ∧ op.NoCreate m ∨
      ∃ k w size m₁, op.Effect env m.view k w size ∧ Becomes contents m k w size m₁ ∧
        (op.step env m = m₁ ∨ op.step env m = (m₁.processLRU env).2) := by
  cases op with
  | create k newValue updateCount destroyTracker tag =>
    obtain ⟨v, rfl⟩ := hop
    by_cases hrefused : m.find k = none → 0 ≤ updateCount
    · obtain ⟨res, s, -, -, heq, hplain, hagrees⟩ :=
        create_refused_eq env hm (.object v) destroyTracker tag hrefused
      rw [LRUOp.step, heq]
      exact .inr (.inl ⟨hplain, hagrees, hrefused⟩)
    · obtain ⟨hk, hcount⟩ := bound_none_of_accepted hrefused
      obtain ⟨w, m₁, hw, hb, heq⟩ :=
        create_new env contents hm hk (v := v) hcount destroyTracker tag
      refine .inr (.inr ⟨k, w, _, m₁, .create hk hcount hw, hb, .inr ?_⟩)
      rw [LRUOp.step, heq]
      obtain ⟨x | err, m₂⟩ := m₁.processLRU env <;> rfl
  | put k newValue updateCount destroyTracker tag =>
    obtain ⟨v, rfl⟩ := hop
    rcases put_decides m k updateCount with ⟨hcount, hrefused⟩ | ⟨hk, hcount⟩ | ⟨a, u, hk, hcount⟩
    · obtain ⟨res, s, -, -, heq, hplain, hagrees⟩ :=
        put_refused_eq env hm (.object v) destroyTracker tag hcount hrefused
      rw [LRUOp.step, heq]
      exact .inr (.inl ⟨hplain, hagrees, trivial⟩)
    · obtain ⟨w, m₁, hw, hb, heq⟩ := put_new env contents hm hk (v := v) hcount destroyTracker tag
      refine .inr (.inr ⟨k, w, _, m₁, .put hk hw, hb, .inr ?_⟩)
      rw [LRUOp.step, heq]
      obtain ⟨x | err, m₂⟩ := m₁.processLRU env <;> rfl
    · cases put_update env contents hm hk (hstored hk) (v := v) hcount destroyTracker tag with
      | inl hfail => exact .inl ⟨⟨k, a, hfail.1 ▸ hk⟩, hfail.2⟩
      | inr hput =>
        obtain ⟨u', m₁, hsame, hb, heq⟩ := hput
        refine .inr (.inr ⟨k, _, _, m₁, .update hk hsame, hb, .inr ?_⟩)
        rw [LRUOp.step, heq]
        obtain ⟨x | err, m₂⟩ := m₁.processLRU env <;> rfl
  | get k =>
    cases hk : m.view.bound k with
    | none =>
      rw [LRUOp.step, get_unbound_eq env (bound_none hk)]
      exact .inr (.inl ⟨hm, .refl m, trivial⟩)
    | some x =>
      obtain ⟨a, u⟩ := x
      by_cases hu : u = .token .overflowed
      · cases get_disk env contents hm hk (hstored hk) hu with
        | inl hfail => exact .inl ⟨⟨k, a, hu ▸ hk⟩, hfail⟩
        | inr hget =>
          obtain ⟨v, size, m₁, hb, heq⟩ := hget
          refine .inr (.inr ⟨k, _, size, m₁, .reload hk hu, hb, .inr ?_⟩)
          rw [LRUOp.step, heq]
          obtain ⟨x | err, m₂⟩ := m₁.processLRU env <;> rfl
      · obtain ⟨heq, hb⟩ := get_memory env contents hm hk hu
        exact .inr (.inr ⟨k, _, 0, _, .use hk hu, hb, .inl (congrArg Prod.snd heq)⟩)
  | remove k updateCount tag afterRemote =>
    cases hk : m.view.bound k with
    | none =>
      rw [LRUOp.step, remove_unbound_eq env hm (bound_none hk)]
      exact .inr (.inl ⟨hm, .refl m, trivial⟩)
    | some x =>
      obtain ⟨a, u⟩ := x
      cases remove_cases env contents hm hk (hstored hk) hop tag afterRemote with
      | inl hfail => exact .inl ⟨⟨k, a, hfail.1 ▸ hk⟩, hfail.2⟩
      | inr hremove =>
        obtain ⟨u', m', hsame, hb, heq⟩ := hremove
        exact .inr (.inr
          ⟨k, _, _, m', .remove hk hsame, hb, .inl (congrArg Prod.snd heq)⟩)
  | invalidate k tag =>
    cases hk : m.view.bound k with
    | none =>
      rw [LRUOp.step, invalidate_unbound_eq env hm (bound_none hk)]
      exact .inr (.inl ⟨hm, .refl m, trivial⟩)
    | some x =>
      obtain ⟨a, u⟩ := x
      cases invalidate_cases env contents hm hk (hstored hk) tag with
      | inl hfail => exact .inl ⟨⟨k, a, hfail.1 ▸ hk⟩, hfail.2⟩
      | inr hinvalidate =>
        obtain ⟨u', m', hsame, hb, heq⟩ := hinvalidate
        exact .inr (.inr
          ⟨k, _, _, m', .invalidate hk hsame, hb, .inl (congrArg Prod.snd heq)⟩)
  | values | clear | evict => exact hop.elim

end LRUEntriesMap

end GeodeNative.Cache

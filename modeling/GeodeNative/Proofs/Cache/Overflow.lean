import GeodeNative.Proofs.Cache.LRUInvariant

/-!
# The accounts of a map that overflows to disk

`Accounted` says that `m_validEntries` is the number of entries whose value is in memory, and that
each of them has a node in the list and is not evicted. The invariant `LRUInv` implies it.

`values` goes over the segments and puts every value that is on disk into its entry again, without a
change of the counter or of the list. So it keeps the accounts exactly when nothing is on disk
(`values_eq`, `values_breaks`), and `overflow_accounts_iff` says that nothing else breaks them.

`evictionHelper` takes the entry from the list before it writes the value. When the write fails, the
entry is in memory and counts as valid, but the list has forgotten it. `failedEviction_iff` says
that the list still has it exactly when it had two nodes.
-/

set_option autoImplicit false

namespace GeodeNative.Cache

open Lib MapSegment LRUView List

namespace MapSegment

variable {K V : Type} [DecidableEq K] (getFromDisc : K → MapEntryImpl K V → CacheablePtr V)

/-- The entries of a plain segment. -/
def PlainEntry (b : Sigma fun _ : K => MapEntry K V) : Prop :=
  ∃ o, b.2 = .impl o ∧ Untracked o ∧ LiveValue o.value

theorem Plain.plainEntry {s : MapSegment K V} (hs : Plain s) :
    ∀ b ∈ s.map.entries, PlainEntry b := by
  intro b hb
  obtain ⟨o, ho, huntracked, hlive, -⟩ := hs.entries b.1 b.2 (AList.mem_lookup_iff.mpr hb)
  exact ⟨o, ho, huntracked, hlive⟩

variable (s : MapSegment K V) (result : List (CacheablePtr V))

/-- One round of the loop of `values` over an entry that nothing tracks: a value on disk comes back,
and every other value stays. -/
theorem collectValues_cons (k : K) {o : MapEntryImpl K V}
    (rest : List (Sigma fun _ : K => MapEntry K V)) (ho : Untracked o)
    (hlive : LiveValue o.value) :
    ∃ result', s.collectValues getFromDisc result (⟨k, .impl o⟩ :: rest) =
      (if o.value.isOverflowed then
          s.bind k (.impl (o.setValueI (getFromDisc k o)))
        else s).collectValues getFromDisc result' rest := by
  rw [collectValues, getImplPtr_impl ho.weakThis]
  dsimp only
  rw [getValueI_of_live hlive]
  cases hvalue : o.value with
  | null => exact absurd hvalue hlive.1
  | object v => exact ⟨result ++ [.object v], rfl⟩
  | token t =>
    cases t with
    | invalid => exact ⟨result, rfl⟩
    | destroyed => exact absurd hvalue hlive.2.1
    | overflowed => exact ⟨result ++ [getFromDisc k o], rfl⟩
    | tombstone => exact absurd hvalue hlive.2.2

variable {rest : List (Sigma fun _ : K => MapEntry K V)}

theorem collectValues_eq (hplain : ∀ b ∈ rest, PlainEntry b)
    (hnone : ∀ b ∈ rest, b.2.obj.value.isOverflowed = false) :
    ∃ result', s.collectValues getFromDisc result rest = (.ok result', s) := by
  induction rest generalizing result with
  | nil => exact ⟨result, rfl⟩
  | cons b rest ih =>
    obtain ⟨k, e⟩ := b
    obtain ⟨o, rfl, ho, hlive⟩ := hplain _ mem_cons_self
    obtain ⟨result', heq⟩ := collectValues_cons getFromDisc s result k rest ho hlive
    have hhead : o.value.isOverflowed = false := hnone _ mem_cons_self
    rw [heq, hhead]
    exact ih result' (fun b hb => hplain b (mem_cons_of_mem _ hb))
      fun b hb => hnone b (mem_cons_of_mem _ hb)

/-- The loop binds each key with a value on disk to the value that it reads, and leaves the other
keys alone. -/
theorem collectValues_find (hplain : ∀ b ∈ rest, PlainEntry b) (hkeys : rest.NodupKeys) :
    ∃ result' s', s.collectValues getFromDisc result rest = (.ok result', s') ∧
      (∀ k o, ⟨k, .impl o⟩ ∈ rest → o.value.isOverflowed = true →
        s'.find k = some (.impl (o.setValueI (getFromDisc k o)))) ∧
      ∀ k, k ∉ rest.keys → s'.find k = s.find k := by
  induction rest generalizing s result with
  | nil => exact ⟨result, s, rfl, fun _ _ h => absurd h not_mem_nil, fun _ _ => rfl⟩
  | cons b rest ih =>
    obtain ⟨k, e⟩ := b
    obtain ⟨o, rfl, ho, hlive⟩ := hplain _ mem_cons_self
    rw [nodupKeys_cons] at hkeys
    obtain ⟨result₁, heq⟩ := collectValues_cons getFromDisc s result k rest ho hlive
    obtain ⟨result', s', heq', hreload, hsame⟩ := ih
      (if o.value.isOverflowed then s.bind k (.impl (o.setValueI (getFromDisc k o))) else s)
      result₁ (fun b hb => hplain b (mem_cons_of_mem _ hb)) hkeys.2
    refine ⟨result', s', heq.trans heq', ?_, ?_⟩
    · intro k' o' hmem hover
      rw [mem_cons] at hmem
      cases hmem with
      | inl hhead =>
        cases hhead
        rw [hsame k hkeys.1, if_pos hover, find_bind, if_pos rfl]
      | inr htail => exact hreload k' o' htail hover
    · intro k' hk'
      rw [keys_cons, mem_cons, not_or] at hk'
      rw [hsame k' hk'.2]
      split
      · rw [find_bind, if_neg hk'.1]
      · rfl

end MapSegment

namespace LRUEntriesMap

variable {K V D M P S : Type} {n : Nat} [NeZero n] [DecidableEq K]

/-- The value of the key is held in memory: it is not null and not a token. -/
def HeldInMemory (m : LRUEntriesMap K V P S n) (k : K) : Prop :=
  ∃ e, m.find k = some e ∧ e.obj.value.isNull = false ∧ e.obj.value.isToken = false

/-- The counter is the number of the keys whose value is in memory, and their entries are in the
list and are not evicted. -/
structure Accounted (m : LRUEntriesMap K V P S n) : Prop where
  valid : Follows m.validEntries { k | m.HeldInMemory k }
  listed : ∀ k e, m.find k = some e → e.obj.value.isNull = false → e.obj.value.isToken = false →
    (m.properties k e.obj.addr).evicted = false ∧ some (k, e.obj.addr) ∈ m.lruList.nodes

/-- No bound entry has its value on disk. -/
def NothingOverflowed (m : LRUEntriesMap K V P S n) : Prop :=
  ∀ k e, m.find k = some e → e.obj.value.isOverflowed = false

section
variable {env : LRURegion K V D M P S} {contents : S → K → Option V} {m : LRUEntriesMap K V P S n}

theorem heldInMemory_iff (hm : PlainMap m) (k : K) : m.HeldInMemory k ↔ m.view.InMemory k := by
  constructor
  · rintro ⟨e, he, -, htoken⟩
    exact ⟨e.obj.addr, e.obj.value, by simp [view, he], htoken⟩
  · rintro ⟨a, v, hk, htoken⟩
    obtain ⟨o, hfind, -, rfl⟩ := hm.bound hk
    obtain ⟨-, hlive, -⟩ := (hm.segmentFor k).entry hfind
    exact ⟨.impl o, hfind, hlive.tests.1, htoken⟩

theorem LRUInv.accounted (h : LRUInv env contents m) : Accounted m where
  valid := by
    have hset : { k | m.HeldInMemory k } = { k | m.view.InMemory k } :=
      Set.ext (heldInMemory_iff h.plain)
    rw [hset]
    exact h.listed.valid
  listed k e he _ htoken :=
    h.listed.memory k e.obj.addr e.obj.value (by simp [view, he]) htoken fun hx => nomatch hx

omit [NeZero n] in
theorem collectValues_segments (env : LRURegion K V D M P S) (m : LRUEntriesMap K V P S n)
    (result : List (CacheablePtr V)) (indices : List (Fin n))
    (hplain : ∀ i ∈ indices, Plain (m.segments i)) (hnodup : indices.Nodup) :
    ∃ result' segments, m.collectValues env result indices =
        (.ok result', { m with segments := segments }) ∧
      (∀ i, i ∉ indices → segments i = m.segments i) ∧
      ∀ i ∈ indices, ∃ r r',
        (m.segments i).values (m.getFromDisk env) r = (.ok r', segments i) := by
  induction indices generalizing m result with
  | nil => exact ⟨result, m.segments, rfl, fun _ _ => rfl, fun _ h => absurd h not_mem_nil⟩
  | cons index rest ih =>
    rw [nodup_cons] at hnodup
    have hindex := hplain index mem_cons_self
    obtain ⟨r', s', hvalues, -⟩ := collectValues_find (m.getFromDisk env) (m.segments index) result
      hindex.plainEntry (m.segments index).map.nodupKeys
    have hvalues' : (m.segments index).values (m.getFromDisk env) result = (.ok r', s') := hvalues
    have hother : ∀ i, i ≠ index → (m.withSegment index s').segments i = m.segments i := by
      intro i hi
      show Function.update m.segments index s' i = _
      rw [Function.update_of_ne hi]
    obtain ⟨result', segments, heq, hsame, hchanged⟩ := ih
      { m with toConcurrentEntriesMap := m.withSegment index s' } r'
      (by
        intro i hi
        show Plain ((m.withSegment index s').segments i)
        rw [hother i fun h => hnodup.1 (h ▸ hi)]
        exact hplain i (mem_cons_of_mem _ hi)) hnodup.2
    refine ⟨result', segments, ?_, ?_, ?_⟩
    · rw [LRUEntriesMap.collectValues]
      dsimp only
      rw [hvalues']
      exact heq
    · intro i hi
      rw [mem_cons, not_or] at hi
      exact (hsame i hi.2).trans (hother i hi.1)
    · intro i hi
      by_cases hii : i = index
      · subst hii
        refine ⟨result, r', ?_⟩
        rw [hvalues', hsame i hnodup.1]
        exact congrArg (Prod.mk _) (Function.update_self i s' m.segments).symm
      · obtain ⟨r₁, r₂, hi'⟩ := hchanged i ((mem_cons.mp hi).resolve_left hii)
        refine ⟨r₁, r₂, ?_⟩
        rw [← hi']
        show _ = ((m.withSegment index s').segments i).values (m.getFromDisk env) r₁
        rw [hother i hii]

theorem values_eq (hm : PlainMap m) (hnone : NothingOverflowed m) : (m.values env).2 = m := by
  have hentries : ∀ i, ∀ b ∈ (m.segments i).map.entries, b.2.obj.value.isOverflowed = false := by
    intro i b hb
    have hfind : (m.segments i).find b.1 = some b.2 := AList.mem_lookup_iff.mpr hb
    obtain rfl := hm.homed i b.1 b.2 hfind
    exact hnone b.1 b.2 hfind
  have hreads : m.readFails env = false := by
    unfold readFails
    rw [any_eq_false]
    intro i _
    rw [Bool.not_eq_true, any_eq_false]
    intro b hb
    rw [hentries i b hb]
    exact Bool.false_ne_true
  unfold values
  rw [hreads, Bool.or_false]
  obtain ⟨result, segments, heq, -, hchanged⟩ := collectValues_segments env m []
    (finRange n) (fun i _ => hm.plain i) (nodup_finRange n)
  have hsame : segments = m.segments := by
    funext i
    obtain ⟨r, r', hi⟩ := hchanged i (mem_finRange i)
    obtain ⟨r'', heq'⟩ := collectValues_eq (m.getFromDisk env) (m.segments i) r
      (hm.plain i).plainEntry (hentries i)
    exact (Prod.mk.inj (hi.symm.trans heq')).2
  rw [hsame] at heq
  exact congrArg Prod.snd heq

/-- `values` breaks the accounts when a value is on disk: the value comes back to an entry that
counts as evicted. -/
theorem values_breaks (h : LRUInv env contents m) (hdisk : ¬NothingOverflowed m)
    (hok : (m.values env).2.persistenceFailed = false) : ¬Accounted (m.values env).2 := by
  unfold NothingOverflowed at hdisk
  push Not at hdisk
  obtain ⟨k, e, hfind, hover⟩ := hdisk
  rw [ne_eq, Bool.not_eq_false] at hover
  obtain ⟨o, rfl, ho, hlive, -⟩ := (h.plain.segmentFor k).entries k e hfind
  have hentry : (⟨k, .impl o⟩ : Sigma fun _ : K => MapEntry K V) ∈ (m.segmentFor k).map.entries :=
    AList.mem_lookup_iff.mp hfind
  have hvalue : o.value = .token .overflowed := (isOverflowed_iff _).mp hover
  have hbound : m.view.bound k = some (o.addr, .token .overflowed) := by
    show (m.find k).map _ = _
    rw [hfind, ← hvalue]
    rfl
  obtain ⟨haction, v, hv⟩ := h.stored k o.addr hbound
  obtain ⟨result, segments, heq, -, hchanged⟩ := collectValues_segments env
    { m with persistenceFailed := m.persistenceFailed || m.readFails env } []
    (finRange n) (fun i _ => h.plain.plain i) (nodup_finRange n)
  have hresult : (m.values env).2 =
      { m with
        persistenceFailed := m.persistenceFailed || m.readFails env, segments := segments } :=
    congrArg Prod.snd heq
  rw [hresult] at hok ⊢
  -- the read of the value did not fail
  have hread : m.getFromDisk env k o = .object v := by
    have hreads : m.readFails env = false := (Bool.or_eq_false_iff.mp hok).2
    unfold readFails at hreads
    rw [any_eq_false] at hreads
    have hsegment := hreads (m.segmentIdx k) (mem_finRange _)
    rw [Bool.not_eq_true, any_eq_false] at hsegment
    have hsome := hsegment _ hentry
    rw [show (MapEntry.impl o : MapEntry K V).obj.value.isOverflowed = true from hover,
      Bool.true_and, Bool.not_eq_true, Option.isNone_eq_false_iff] at hsome
    obtain ⟨r, hr⟩ := Option.isSome_iff_exists.mp hsome
    obtain ⟨x, info⟩ := r
    unfold getFromDisk
    rw [show env.read m.persisted k (m.properties k o.addr).persistenceInfo = _ from hr]
    exact (h.disk haction).2.read _ k _ v x info hv hr
  -- so the entry has it again
  have hnew : (segments (m.segmentIdx k)).find k = some (.impl (o.setValueI (.object v))) := by
    obtain ⟨r, r', hsegment⟩ := hchanged (m.segmentIdx k) (mem_finRange _)
    obtain ⟨r'', s', heq', hreload, -⟩ := collectValues_find (m.getFromDisk env)
      (m.segmentFor k) r (h.plain.segmentFor k).plainEntry
      (m.segmentFor k).map.nodupKeys
    have hs' : segments (m.segmentIdx k) = s' := (Prod.mk.inj (hsegment.symm.trans heq')).2
    rw [hs', hreload k o hentry hover, hread]
  intro haccounted
  have hevicted := (haccounted.listed k (.impl (o.setValueI (.object v))) hnew rfl rfl).1
  exact h.listed.token k o.addr _ hbound rfl hevicted

end

theorem natLRURegion_readsBack : ReadsBack natLRURegion fun s k => s.lookup k where
  write s k v info info' s' h := by
    cases h
    refine ⟨by simp, ?_⟩
    intro k' hk'
    rw [lookup_cons]
    simp [beq_eq_false_iff_ne.mpr hk']
  destroy s k info s' h := by
    cases h
    intro k' hk'
    induction s with
    | nil => rfl
    | cons b s ih =>
      obtain ⟨k₀, v₀⟩ := b
      by_cases hb : k₀ = k
      · subst hb
        rw [filter_cons_of_neg (by simp), lookup_cons, beq_eq_false_iff_ne.mpr hk']
        exact ih
      · rw [filter_cons_of_pos (by simpa using hb), lookup_cons, lookup_cons, ih]
  read s k info v x info' hv h := by
    cases h
    rw [hv]
    rfl

section
variable (env : LRURegion K V D M P S) {m : LRUEntriesMap K V P S n}

theorem evictToDisk_or (m : LRUEntriesMap K V P S n) (key : K) (addr : Nat) :
    (∃ r failed, m.evictToDisk env key addr = (r, { m with persistenceFailed := failed })) ∨
      ∃ list persisted size, m.evictToDisk env key addr =
        (.ok true, LRUEntriesMap.updateMapSize
          (setValueI { m with persisted := persisted, lruList := list } key addr
            (.token .overflowed)) size) := by
  simp only [evictToDisk]
  split
  · exact Or.inl ⟨_, m.persistenceFailed, rfl⟩
  · split
    · exact Or.inl ⟨_, m.persistenceFailed, rfl⟩
    · split
      · exact Or.inl ⟨_, true, rfl⟩
      · exact Or.inr ⟨_, _, _, rfl⟩

/-- The entry is as it was in `m`, it counts as valid, and an eviction can choose it. -/
structure StillEvictable (m m' : LRUEntriesMap K V P S n) (k : K) (addr : Nat) : Prop where
  value : m'.getValueI k addr = m.getValueI k addr
  validEntries : m'.validEntries = m.validEntries
  listed : some (k, addr) ∈ m'.lruList.nodes
  evicted : (m'.properties k addr).evicted = false

theorem evictionHelper_diskFull (haction : m.action = .overflowToDisk) {k : K} {addr : Nat}
    {list : LRUList (Option (K × Nat)) P}
    (hpick : m.lruList.getLRUEntry = (some (some (k, addr)), list))
    (hfull : (m.evictionHelper env).1 = .ok .diskFull) :
    ∃ failed, (m.evictionHelper env).2 =
      { m with lruList := list, persistenceFailed := failed } := by
  unfold evictionHelper at hfull ⊢
  simp only [hpick, evict_overflowToDisk env haction] at hfull ⊢
  obtain ⟨r, failed, heq⟩ | ⟨list', persisted, size, heq⟩ :=
    evictToDisk_or env { m with lruList := list } k addr
  · rw [heq] at hfull ⊢
    exact ⟨failed, by split <;> simp_all⟩
  · rw [heq] at hfull
    cases hfull

/-- After an eviction that fails, the entry can be chosen again exactly when it had a second node in
the list. -/
theorem failedEviction_iff (haction : m.action = .overflowToDisk) {k : K} {addr : Nat}
    (hpick : m.lruList.getLRUEntry.1 = some (some (k, addr)))
    (hfull : (m.evictionHelper env).1 = .ok .diskFull) :
    StillEvictable m (m.evictionHelper env).2 k addr ↔
      m.lruList.nodes.Duplicate (some (k, addr)) := by
  have heq : m.lruList.getLRUEntry = (some (some (k, addr)), m.lruList.getLRUEntry.2) :=
    Prod.ext hpick rfl
  obtain ⟨failed, hmap⟩ := evictionHelper_diskFull env haction heq hfull
  rw [hmap, List.duplicate_iff_two_le_count, ← LRUList.listed_again_iff heq]
  exact ⟨fun h => ⟨h.listed, h.evicted⟩, fun h => ⟨rfl, rfl, h.1, h.2⟩⟩

end

/-- A persistence manager that cannot write. -/
def fullDisk : LRURegion Nat Nat Unit Nat Unit (List (Nat × Nat)) :=
  { natLRURegion with write := fun _ _ _ _ => none }

/-- The only entry, whose eviction fails, counts as valid and can not be chosen any more. -/
theorem failedEviction_forgets :
    let m := run (LRUOp.step fullDisk) (natLRUMap .overflowToDisk 1 false) [.putSelf 1]
    let r := m.evictionHelper fullDisk
    m.lruList.getLRUEntry.1 = some (some (1, 0)) ∧ r.1 = .ok .diskFull ∧
      r.2.getValueI 1 0 = .object 1 ∧ r.2.validEntries = 1 ∧
      (r.2.properties 1 0).evicted = true := by
  decide

/-- A second node keeps the entry. -/
theorem failedEviction_listed_twice :
    let m₁ := run (LRUOp.step fullDisk) (natLRUMap .overflowToDisk 1 false) [.putSelf 1]
    let m := m₁.appendEntry 1 0
    StillEvictable m (m.evictionHelper fullDisk).2 1 0 :=
  (failedEviction_iff fullDisk rfl (by decide) (by decide)).mpr (by decide)

end LRUEntriesMap

end GeodeNative.Cache

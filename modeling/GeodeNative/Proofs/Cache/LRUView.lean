import GeodeNative.Cache.MapEntry
import GeodeNative.Lib.Counter
import GeodeNative.Proofs.Cache.LRUList

/-!
# A map with eviction, without its segments

`LRUView` is what the eviction sees of the map: the address and the value that each key is bound to,
the list, and the two counters. Its invariant `Listed` ties them together:

- an entry with a value in memory is in the list and is not evicted, and an entry with a token is
  evicted;
- an entry of the list that is not evicted is bound, with a value in memory;
- the counters follow the bound keys and the keys with a value in memory.

While an entry is evicted it has left the list and is still bound. `Listed x` is the invariant for
all entries but `x`.

The steps of the map change the binding of one key, and the node and the bits of one entry.
`listed_step` is the rule for them. Its cases are a new entry (`New`), a value (`updated`) or a
token (`retired`) in the place of the value of an entry, and an entry that goes (`removed`).
-/

set_option autoImplicit false

namespace GeodeNative.Cache

open Lib LRUList

/-- The map as the eviction sees it. `nextAddr` is the next unused address in the segment of a
key. -/
@[ext] structure LRUView (K V P : Type) where
  bound : K → Option (Nat × CacheablePtr V)
  nextAddr : K → Nat
  list : LRUList (Option (K × Nat)) P
  size : BitVec 32
  validEntries : BitVec 32

namespace LRUView

variable {K V P : Type}

/-- The value of the key is in memory. -/
def InMemory (w : LRUView K V P) (k : K) : Prop :=
  ∃ a v, w.bound k = some (a, v) ∧ v.isToken = false

/-- The entry is not evicted. -/
def Live (w : LRUView K V P) (e : Option (K × Nat)) : Prop :=
  (w.list.properties e).evicted = false

/-- The invariant, but for the entry `x`. -/
structure Listed (x : Option (Option (K × Nat))) (w : LRUView K V P) : Prop where
  fresh : ∀ k a, w.nextAddr k ≤ a →
    w.list.properties (some (k, a)) = {} ∧ some (k, a) ∉ w.list.nodes
  allocated : ∀ k a v, w.bound k = some (a, v) → a < w.nextAddr k
  memory : ∀ k a v, w.bound k = some (a, v) → v.isToken = false → x ≠ some (some (k, a)) →
    w.Live (some (k, a)) ∧ some (k, a) ∈ w.list.nodes
  token : ∀ k a v, w.bound k = some (a, v) → v.isToken = true → ¬w.Live (some (k, a))
  live : ∀ e ∈ w.list.nodes, w.Live e →
    ∃ k a v, e = some (k, a) ∧ w.bound k = some (a, v) ∧ v.isToken = false
  counted : Follows w.size { k | w.bound k ≠ none }
  valid : Follows w.validEntries { k | w.InMemory k }

/-- A step that changes the binding of one key and the state of its entry, and no other entry. -/
theorem listed_step {x : Option (Option (K × Nat))} {w w' : LRUView K V P} (h : Listed x w) {k : K}
    {a : Nat} (hx : ∀ e, x = some e → e = some (k, a))
    (hold : ∀ b v, w.bound k = some (b, v) → b = a)
    (hnew : ∀ b v, w'.bound k = some (b, v) → b = a)
    (hbound : ∀ k', k' ≠ k → w'.bound k' = w.bound k')
    (hnext : ∀ k', w.nextAddr k' ≤ w'.nextAddr k') (haddr : a < w'.nextAddr k)
    (hprops : ∀ e, e ≠ some (k, a) → w'.list.properties e = w.list.properties e)
    (hnodes : ∀ e, e ≠ some (k, a) → (e ∈ w'.list.nodes ↔ e ∈ w.list.nodes))
    (hlive : w'.InMemory k → w'.Live (some (k, a)) ∧ some (k, a) ∈ w'.list.nodes)
    (hdead : ¬w'.InMemory k → ¬w'.Live (some (k, a)))
    (hsize : Accounts w.size w'.size (w.bound k ≠ none) (w'.bound k ≠ none))
    (hvalid : Accounts w.validEntries w'.validEntries (w.InMemory k) (w'.InMemory k)) :
    Listed none w' where
  fresh k' b hb := by
    have hne : (some (k', b) : Option (K × Nat)) ≠ some (k, a) := by
      intro heq
      cases heq
      omega
    rw [hprops _ hne, hnodes _ hne]
    exact h.fresh k' b (Nat.le_trans (hnext k') hb)
  allocated k' b v hb := by
    by_cases hk : k' = k
    · rw [hk] at hb ⊢
      rw [hnew b v hb]
      exact haddr
    · rw [hbound k' hk] at hb
      exact Nat.lt_of_lt_of_le (h.allocated k' b v hb) (hnext k')
  memory k' b v hb hv _ := by
    by_cases hk : k' = k
    · subst hk
      have hba := hnew b v hb
      subst hba
      exact hlive ⟨b, v, hb, hv⟩
    · have hne : (some (k', b) : Option (K × Nat)) ≠ some (k, a) := by simp [hk]
      rw [hbound k' hk] at hb
      have hother := h.memory k' b v hb hv fun heq => hne (hx _ heq)
      unfold Live at hother ⊢
      rw [hprops _ hne, hnodes _ hne]
      exact hother
  token k' b v hb hv := by
    by_cases hk : k' = k
    · subst hk
      have hba := hnew b v hb
      subst hba
      apply hdead
      rintro ⟨b', v', hb', hv'⟩
      rw [hb] at hb'
      cases hb'
      rw [hv] at hv'
      cases hv'
    · have hne : (some (k', b) : Option (K × Nat)) ≠ some (k, a) := by simp [hk]
      rw [hbound k' hk] at hb
      unfold Live
      rw [hprops _ hne]
      exact h.token k' b v hb hv
  live e he hlive' := by
    by_cases hne : e = some (k, a)
    · subst hne
      by_cases hmem : w'.InMemory k
      · obtain ⟨b, v, hb, hv⟩ := hmem
        have hba := hnew b v hb
        subst hba
        exact ⟨k, b, v, rfl, hb, hv⟩
      · exact absurd hlive' (hdead hmem)
    · rw [hnodes e hne] at he
      unfold Live at hlive'
      rw [hprops e hne] at hlive'
      obtain ⟨k', b, v, heq, hb, hv⟩ := h.live e he hlive'
      have hk : k' ≠ k := by
        intro hk
        subst hk
        exact hne (by rw [heq, hold b v hb])
      exact ⟨k', b, v, heq, by rw [hbound k' hk, hb], hv⟩
  counted := by
    refine h.counted.step (a := k) ?_ hsize
    intro k' hk
    show w'.bound k' ≠ none ↔ w.bound k' ≠ none
    rw [hbound k' hk]
  valid := by
    refine h.valid.step (a := k) ?_ hvalid
    intro k' hk
    show w'.InMemory k' ↔ w.InMemory k'
    unfold InMemory
    rw [hbound k' hk]

theorem listed_new [DecidableEq K] {w : LRUView K V P} (hbound : ∀ k, w.bound k = none)
    (hlist : w.list = .new none) (hsize : w.size = 0) (hvalid : w.validEntries = 0) :
    Listed none w := by
  have hnone : ∀ k x, w.bound k ≠ some x := by
    intro k x hk
    rw [hbound] at hk
    cases hk
  refine ⟨?_, fun k a v hk => absurd hk (hnone k _), fun k a v hk => absurd hk (hnone k _),
    fun k a v hk => absurd hk (hnone k _), ?_, ?_, ?_⟩
  · intro k a _
    rw [hlist]
    refine ⟨?_, ?_⟩
    · rw [new, setEvicted, properties_modify, if_neg (by simp)]
    · show some (k, a) ∉ [none]
      rw [List.mem_singleton]
      exact Option.some_ne_none _
  · intro e he hlive
    unfold Live at hlive
    rw [hlist] at he hlive
    rw [List.mem_singleton.mp (show e ∈ [none] from he), new, evicted_setEvicted,
      if_pos rfl] at hlive
    cases hlive
  · have hempty : { k | w.bound k ≠ none } = ∅ := by simp [hbound]
    rw [hsize, hempty]
    exact follows_empty
  · have hempty : { k | w.InMemory k } = ∅ := by simp [InMemory, hbound]
    rw [hvalid, hempty]
    exact follows_empty

section
variable [DecidableEq K] {w : LRUView K V P} {k : K} {a : Nat}

/-- The view after the binding of a key changed. -/
def rebind (w : LRUView K V P) (k : K) (x : Option (Nat × CacheablePtr V)) : LRUView K V P :=
  { w with bound := Function.update w.bound k x }

variable {v : CacheablePtr V}

omit [DecidableEq K] in
theorem inMemory_iff (hk : w.bound k = some (a, v)) : w.InMemory k ↔ v.isToken = false := by
  constructor
  · rintro ⟨b, u, hb, hu⟩
    rw [hk] at hb
    cases hb
    exact hu
  · intro hv
    exact ⟨a, v, hk, hv⟩

omit [DecidableEq K] in
theorem not_inMemory_none (hk : w.bound k = none) : ¬w.InMemory k := by
  rintro ⟨b, u, hb, -⟩
  rw [hk] at hb
  cases hb

variable (x : Option (Nat × CacheablePtr V))

theorem bound_rebind (k' : K) : (w.rebind k x).bound k' = if k' = k then x else w.bound k' := by
  show Function.update w.bound k x k' = _
  rw [Function.update_apply]

theorem bound_rebind_self : (w.rebind k x).bound k = x := by
  rw [bound_rebind, if_pos rfl]

theorem bound_rebind_ne {k' : K} (hk : k' ≠ k) : (w.rebind k x).bound k' = w.bound k' := by
  rw [bound_rebind, if_neg hk]

/-- `w'` is `w` with a new entry, at the next address of its segment. -/
def New (w : LRUView K V P) (k : K) (v : CacheablePtr V) (w' : LRUView K V P) : Prop :=
  ∃ nextAddr, (∀ k', w.nextAddr k' ≤ nextAddr k') ∧ w.nextAddr k < nextAddr k ∧
    w' = { w.rebind k (some (w.nextAddr k, v)) with
      nextAddr := nextAddr
      list := w.list.appendEntry (some (k, w.nextAddr k))
      size := w.size + 1
      validEntries := w.validEntries + 1 }

/-- The view after a value replaced the value `u` of an entry. A token had left the list, and the
entry comes back. -/
def updated (w : LRUView K V P) (k : K) (a : Nat) (u v : CacheablePtr V) : LRUView K V P :=
  { w.rebind k (some (a, v)) with
    list := if u.isToken then (w.list.clearEvicted (some (k, a))).appendEntry (some (k, a))
      else w.list
    validEntries := if u.isToken then w.validEntries + 1 else w.validEntries }

/-- The view after a token replaced the value `u` of an entry. -/
def retired (w : LRUView K V P) (k : K) (a : Nat) (u v : CacheablePtr V) : LRUView K V P :=
  { w.rebind k (some (a, v)) with
    list := if u.isToken then w.list else w.list.setEvicted (some (k, a))
    validEntries := if u.isToken then w.validEntries else w.validEntries - 1 }

/-- The view after an entry with the value `u` went. -/
def removed (w : LRUView K V P) (k : K) (a : Nat) (u : CacheablePtr V) : LRUView K V P :=
  { w.rebind k none with
    list := w.list.setEvicted (some (k, a))
    size := w.size - 1
    validEntries := if u.isToken then w.validEntries else w.validEntries - 1 }

variable {w' : LRUView K V P}

theorem New.bound (h : w.New k v w') (k' : K) :
    w'.bound k' = if k' = k then some (w.nextAddr k, v) else w.bound k' := by
  obtain ⟨nextAddr, -, -, rfl⟩ := h
  exact bound_rebind _ k'

theorem New.list (h : w.New k v w') : w'.list = w.list.appendEntry (some (k, w.nextAddr k)) := by
  obtain ⟨nextAddr, -, -, rfl⟩ := h
  rfl

theorem New.size (h : w.New k v w') : w'.size = w.size + 1 := by
  obtain ⟨nextAddr, -, -, rfl⟩ := h
  rfl

theorem bound_updated (u v : CacheablePtr V) (k' : K) :
    (w.updated k a u v).bound k' = if k' = k then some (a, v) else w.bound k' :=
  bound_rebind _ k'

theorem bound_removed (u : CacheablePtr V) (k' : K) :
    (w.removed k a u).bound k' = if k' = k then none else w.bound k' :=
  bound_rebind _ k'

theorem Listed.new (h : Listed none w) (hk : w.bound k = none) (hv : v.isToken = false)
    (hw : w.New k v w') : Listed none w' := by
  obtain ⟨nextAddr, hnext, haddr, rfl⟩ := hw
  have hself : (w.rebind k (some (w.nextAddr k, v))).bound k = some (w.nextAddr k, v) :=
    bound_rebind_self _
  obtain ⟨hdefault, -⟩ := h.fresh k (w.nextAddr k) (Nat.le_refl _)
  refine listed_step h (k := k) (a := w.nextAddr k) (fun e he => nomatch he) ?_ ?_ ?_ hnext haddr
    (fun e _ => rfl) ?_ ?_ ?_ ?_ ?_
  · intro b u hb
    rw [hk] at hb
    cases hb
  · intro b u hb
    rw [hself] at hb
    cases hb
    rfl
  · intro k' hk'
    exact bound_rebind_ne _ hk'
  · intro e he
    simp [he]
  · intro _
    refine ⟨?_, by simp⟩
    show (w.list.properties _).evicted = false
    rw [hdefault]
  · intro hmem
    exact absurd ((inMemory_iff hself).mpr hv) hmem
  · refine .added rfl (fun hne => hne hk) ?_
    show (w.rebind k _).bound k ≠ none
    rw [hself]
    exact Option.some_ne_none _
  · exact .added rfl (not_inMemory_none hk) ((inMemory_iff hself).mpr hv)

variable {list : LRUList (Option (K × Nat)) P} {u v : CacheablePtr V}

theorem listed_assign {x : Option (Option (K × Nat))} (h : Listed x w)
    (hx : ∀ e, x = some e → e = some (k, a)) (hk : w.bound k = some (a, u))
    {validEntries : BitVec 32}
    (hprops : ∀ e, e ≠ some (k, a) → list.properties e = w.list.properties e)
    (hnodes : ∀ e, e ≠ some (k, a) → (e ∈ list.nodes ↔ e ∈ w.list.nodes))
    (hlive : v.isToken = false →
      (list.properties (some (k, a))).evicted = false ∧ some (k, a) ∈ list.nodes)
    (hdead : v.isToken = true → (list.properties (some (k, a))).evicted = true)
    (hvalid : Accounts w.validEntries validEntries (u.isToken = false) (v.isToken = false)) :
    Listed none { w.rebind k (some (a, v)) with list := list, validEntries := validEntries } := by
  have hself : (w.rebind k (some (a, v))).bound k = some (a, v) := bound_rebind_self _
  refine listed_step h (k := k) (a := a) hx ?_ ?_ ?_ (fun _ => Nat.le_refl _)
    (h.allocated k a u hk) hprops hnodes ?_ ?_ ?_ ?_
  · intro b u' hb
    rw [hk] at hb
    cases hb
    rfl
  · intro b u' hb
    rw [hself] at hb
    cases hb
    rfl
  · intro k' hk'
    exact bound_rebind_ne _ hk'
  · intro hmem
    exact hlive ((inMemory_iff hself).mp hmem)
  · intro hmem
    have htoken : v.isToken = true := by
      cases hv : v.isToken with
      | true => rfl
      | false => exact absurd ((inMemory_iff hself).mpr hv) hmem
    show ¬(list.properties _).evicted = false
    rw [hdead htoken]
    decide
  · refine .same rfl (iff_of_true ?_ ?_)
    · show (w.rebind k _).bound k ≠ none
      rw [hself]
      exact Option.some_ne_none _
    · rw [hk]
      exact Option.some_ne_none _
  · rw [inMemory_iff hk]
    have hiff : (LRUView.InMemory { w.rebind k (some (a, v)) with
        list := list, validEntries := validEntries } k) ↔ v.isToken = false := inMemory_iff hself
    rw [hiff]
    exact hvalid

theorem Listed.update (h : Listed none w) (hk : w.bound k = some (a, u)) (hv : v.isToken = false) :
    Listed none (w.updated k a u v) := by
  unfold updated
  cases hu : u.isToken with
  | false =>
    refine listed_assign h (fun e he => nomatch he) hk (fun _ _ => rfl) (fun _ _ => Iff.rfl) ?_ ?_
      (.same rfl (by rw [hu, hv]))
    · intro _
      exact h.memory k a u hk hu fun he => nomatch he
    · intro htoken
      rw [hv] at htoken
      cases htoken
  | true =>
    refine listed_assign h (fun e he => nomatch he) hk ?_ ?_ ?_ ?_ (.added rfl (by simp [hu]) hv)
    · intro e he
      rw [if_pos rfl, properties_appendEntry, clearEvicted,
        properties_modify, if_neg he]
    · intro e he
      simp [he]
    · intro _
      refine ⟨?_, by simp⟩
      rw [if_pos rfl, properties_appendEntry, clearEvicted, properties_modify,
        if_pos rfl]
    · intro htoken
      rw [hv] at htoken
      cases htoken

section
variable {x : Option (Option (K × Nat))} (h : Listed x w) (hx : ∀ e, x = some e → e = some (k, a))
include h hx

theorem Listed.retire (hk : w.bound k = some (a, u)) (hv : v.isToken = true) :
    Listed none (w.retired k a u v) := by
  have hgone : v.isToken = false → False := fun hmem => by rw [hv] at hmem; cases hmem
  unfold retired
  cases hu : u.isToken with
  | true =>
    refine listed_assign h hx hk (fun _ _ => rfl) (fun _ _ => Iff.rfl)
      (fun hmem => (hgone hmem).elim)
      ?_ (.same rfl (by rw [hu, hv]))
    intro _
    exact Bool.not_eq_false _ ▸ h.token k a u hk hu
  | false =>
    refine listed_assign h hx hk ?_ (fun _ _ => Iff.rfl) (fun hmem => (hgone hmem).elim) ?_
      (.removed rfl hu hgone)
    · intro e he
      rw [if_neg Bool.false_ne_true, setEvicted, properties_modify, if_neg he]
    · intro _
      rw [if_neg Bool.false_ne_true, evicted_setEvicted, if_pos rfl]

theorem Listed.remove {u : CacheablePtr V} (hk : w.bound k = some (a, u)) :
    Listed none (w.removed k a u) := by
  have hself : (w.removed k a u).bound k = none := bound_rebind_self _
  have hgone : ¬(w.removed k a u).InMemory k := not_inMemory_none hself
  refine listed_step h (k := k) (a := a) hx ?_ ?_ ?_ (fun _ => Nat.le_refl _)
    (h.allocated k a u hk) ?_ (fun _ _ => Iff.rfl) ?_ ?_ ?_ ?_
  · intro b u' hb
    rw [hk] at hb
    cases hb
    rfl
  · intro b u' hb
    rw [hself] at hb
    cases hb
  · intro k' hk'
    exact bound_rebind_ne _ hk'
  · intro e he
    show (w.list.setEvicted _).properties e = _
    rw [setEvicted, properties_modify, if_neg he]
  · intro hmem
    exact absurd hmem hgone
  · intro _
    show ¬((w.list.setEvicted _).properties _).evicted = false
    rw [evicted_setEvicted, if_pos rfl]
    decide
  · refine .removed rfl (by rw [hk]; exact Option.some_ne_none _) ?_
    rw [hself]
    exact fun hne => hne rfl
  · cases hu : u.isToken with
    | true =>
      refine .same ?_ (iff_of_false hgone (by rw [inMemory_iff hk, hu]; decide))
      show (if u.isToken then _ else _) = _
      rw [hu, if_pos rfl]
    | false =>
      refine .removed ?_ ((inMemory_iff hk).mpr hu) hgone
      show (if u.isToken then _ else _) = _
      rw [hu, if_neg Bool.false_ne_true]

end

omit [DecidableEq K] in
/-- A change of the list that keeps the nodes and the bits of eviction. -/
theorem Listed.relist {x : Option (Option (K × Nat))} (h : Listed x w)
    (hnodes : list.nodes = w.list.nodes)
    (hevicted : ∀ e, (list.properties e).evicted = (w.list.properties e).evicted)
    (hfresh : ∀ k a, w.nextAddr k ≤ a →
      list.properties (some (k, a)) = w.list.properties (some (k, a))) :
    Listed x { w with list := list } where
  fresh k a ha := by
    show list.properties _ = _ ∧ _ ∉ list.nodes
    rw [hfresh k a ha, hnodes]
    exact h.fresh k a ha
  allocated := h.allocated
  memory k a v hk hv hx := by
    show (list.properties _).evicted = false ∧ _ ∈ list.nodes
    rw [hevicted, hnodes]
    exact h.memory k a v hk hv hx
  token k a v hk hv := by
    show ¬(list.properties _).evicted = false
    rw [hevicted]
    exact h.token k a v hk hv
  live e he hlive := by
    rw [show (nodes list) = _ from hnodes] at he
    have hlive' : (w.list.properties e).evicted = false := (hevicted e).symm.trans hlive
    exact h.live e he hlive'
  counted := h.counted
  valid := h.valid

theorem Listed.modify {x : Option (Option (K × Nat))} (h : Listed x w)
    (hk : w.bound k = some (a, v)) {f : LRUEntryProperties P → LRUEntryProperties P}
    (hf : ∀ p, (f p).evicted = p.evicted) :
    Listed x { w with list := w.list.modify (some (k, a)) f } := by
  refine h.relist rfl ?_ ?_
  · intro e
    rw [properties_modify]
    split
    · rename_i heq
      rw [hf, heq]
    · rfl
  · intro k' b hb
    rw [properties_modify, if_neg]
    intro heq
    cases heq
    have haddr := h.allocated k a v hk
    omega

theorem Listed.use (h : Listed none w) (hk : w.bound k = some (a, v)) :
    Listed none { w with list := w.list.setRecentlyUsed (some (k, a)) } :=
  h.modify hk fun _ => rfl

/-- The list gives an entry away: it is bound, and the others stay. -/
theorem Listed.take (h : Listed none w) {e : Option (K × Nat)} (ht : w.list.Takes e list) :
    Listed (some e) { w with list := list } ∧
      ∃ k a v, e = some (k, a) ∧ w.bound k = some (a, v) ∧ v.isToken = false := by
  obtain ⟨k, a, v, rfl, hk, hv⟩ := h.live e ht.mem ht.live
  refine ⟨?_, k, a, v, rfl, hk, hv⟩
  have hevicted : ∀ k' b u, w.bound k' = some (b, u) → u.isToken = true →
      (some (k', b) : Option (K × Nat)) ≠ some (k, a) := by
    intro k' b u hb hu heq
    cases heq
    rw [hk] at hb
    cases hb
    rw [hv] at hu
    cases hu
  refine ⟨?_, h.allocated, ?_, ?_, ?_, h.counted, h.valid⟩
  · intro k' b hb
    obtain ⟨hdefault, hnot⟩ := h.fresh k' b hb
    exact ⟨(ht.unchanged _ hnot).trans hdefault, fun hmem => hnot (ht.subset _ hmem)⟩
  · intro k' b u hb hu hne
    have hne' : (some (k', b) : Option (K × Nat)) ≠ some (k, a) := fun heq => hne (by rw [heq])
    obtain ⟨hlive, hmem⟩ := h.memory k' b u hb hu fun he => nomatch he
    exact ⟨(ht.evicted _ hne').trans hlive, ht.others _ hmem hlive hne'⟩
  · intro k' b u hb hu
    show ¬(list.properties _).evicted = false
    rw [ht.evicted _ (hevicted k' b u hb hu)]
    exact h.token k' b u hb hu
  · intro e' he' hlive'
    by_cases heq : e' = some (k, a)
    · exact ⟨k, a, v, heq, hk, hv⟩
    · have hlive : w.Live e' := (ht.evicted e' heq).symm.trans hlive'
      exact h.live e' (ht.subset e' he') hlive

omit [DecidableEq K] in
theorem Listed.pass (h : Listed none w) (hp : w.list.Passes list) :
    Listed none { w with list := list } where
  fresh k' b hb := by
    obtain ⟨hdefault, hnot⟩ := h.fresh k' b hb
    exact ⟨(hp.unchanged _ hnot).trans hdefault, fun hmem => hnot (hp.subset _ hmem)⟩
  allocated := h.allocated
  memory k' b u hb hu hne := by
    obtain ⟨hlive, hmem⟩ := h.memory k' b u hb hu hne
    exact ⟨(hp.evicted _).trans hlive, hp.live _ hmem hlive⟩
  token k' b u hb hu := by
    show ¬(list.properties _).evicted = false
    rw [hp.evicted]
    exact h.token k' b u hb hu
  live e he hlive' := by
    have hlive : w.Live e := (hp.evicted e).symm.trans hlive'
    exact h.live e (hp.subset e he) hlive
  counted := h.counted
  valid := h.valid

end

end LRUView

end GeodeNative.Cache

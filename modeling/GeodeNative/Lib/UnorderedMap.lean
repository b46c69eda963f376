import Mathlib

/-!
# Maps with keys compared by a given relation

A hash map is the list of its nodes, in the order of an iteration over it. Its keys are compared by
`KeyEqual.equal`, which need not hold of a key and itself: a key that is not equal to itself is
never found, and every assignment to it makes a node of its own.

- `find_assign`: the node that a lookup finds after an assignment.
- `exists_assign`, `exists_assign_of_mem`: the nodes after an assignment.
- `flatMap_assign_perm`: the elements of a map of lists after an addition to one of them.
- `Distinct`: no two nodes have equal keys. Then a node is found by its key (`find_of_mem`), and an
  erased key has no node (`mem_erase`).
- `find_map`: a pass that changes every value changes the value that is found.
- `mem_emplace_ofEq`, `mem_erase_ofEq`: the nodes of a map whose keys are compared by equality.
-/

set_option autoImplicit false

namespace GeodeNative.Lib

open List

/-- How a hash map compares its keys. Equal keys also have the same hash code, so the hash does not
show. -/
structure KeyEqual (K : Type) where
  equal : K → K → Bool
  symm : ∀ {a b : K}, equal a b = true → equal b a = true
  trans : ∀ {a b c : K}, equal a b = true → equal b c = true → equal a c = true

/-- Keys that are compared by equality. -/
def KeyEqual.ofEq (K : Type) [DecidableEq K] : KeyEqual K where
  equal a b := decide (a = b)
  symm h := decide_eq_true (of_decide_eq_true h).symm
  trans h h' := decide_eq_true ((of_decide_eq_true h).trans (of_decide_eq_true h'))

/-- The comparison as a decision. -/
@[simp] theorem KeyEqual.ofEq_equal {K : Type} [DecidableEq K] (a b : K) :
    (KeyEqual.ofEq K).equal a b = decide (a = b) := rfl

namespace UnorderedMap
variable {K V : Type} (E : KeyEqual K)

/-- An iteration in the order of the list. -/
def inOrder {A : Type} (m : List A) : { m' : List A // m'.Perm m } := ⟨m, Perm.refl m⟩

/-- `find(key)`, and the value of the node. -/
def find (m : List (K × V)) (k : K) : Option V :=
  (m.find? fun b => E.equal b.1 k).map (·.2)

/-- `map[key] = value`. The node keeps its own key. -/
def assign : List (K × V) → K → V → List (K × V)
  | [], k, v => [(k, v)]
  | b :: m, k, v => if E.equal b.1 k then (b.1, v) :: m else b :: assign m k v

/-- `emplace(key, value)`, which keeps a node that is there. -/
def emplace (m : List (K × V)) (k : K) (v : V) : List (K × V) :=
  if (find E m k).isSome then m else m ++ [(k, v)]

/-- `erase(key)` -/
def erase (m : List (K × V)) (k : K) : List (K × V) := m.eraseP fun b => E.equal b.1 k

/-- `erase` for the key of each node of a list. -/
def eraseAll (m nodes : List (K × V)) : List (K × V) := nodes.foldl (fun m b => erase E m b.1) m

/-- The first node is found by the keys that are equal to its own. -/
theorem find_cons (b : K × V) (m : List (K × V)) (k : K) :
    find E (b :: m) k = if E.equal b.1 k then some b.2 else find E m k := by
  unfold find
  rw [find?_cons]
  cases E.equal b.1 k <;> rfl

variable {k : K} {m : List (K × V)}

/-- A value that is found is the value of a node with an equal key. -/
theorem mem_of_find {v : V} (h : find E m k = some v) :
    ∃ b ∈ m, E.equal b.1 k = true ∧ b.2 = v := by
  obtain ⟨b, hb, hv⟩ := Option.map_eq_some_iff.mp h
  exact ⟨b, mem_of_find?_eq_some hb, by simpa using find?_some hb, hv⟩

/-- An assignment is seen by the keys that are equal to the assigned key, and by no other one. -/
theorem find_assign (m : List (K × V)) (k : K) (v : V) (k' : K) :
    find E (assign E m k v) k' = if E.equal k k' then some v else find E m k' := by
  induction m with
  | nil => exact find_cons E (k, v) [] k'
  | cons b m ih =>
    unfold assign
    by_cases hb : E.equal b.1 k = true
    · rw [if_pos hb, find_cons, find_cons]
      -- the node is found by the same keys as `k`
      have hsame : E.equal b.1 k' = E.equal k k' := by
        refine Bool.eq_iff_iff.mpr ⟨fun h => E.trans (E.symm hb) h, fun h => E.trans hb h⟩
      rw [hsame]
      cases E.equal k k' <;> rfl
    · rw [if_neg hb, find_cons, find_cons, ih]
      by_cases hb' : E.equal b.1 k' = true
      · have hk : ¬E.equal k k' = true := fun h => hb (E.trans hb' (E.symm h))
        rw [if_pos hb', if_pos hb', if_neg hk]
      · rw [if_neg hb', if_neg hb']

/-- A key that is equal to itself has a node with the value after an assignment. -/
theorem exists_assign (m : List (K × V)) (hk : E.equal k k = true) (v : V) :
    ∃ b ∈ assign E m k v, E.equal b.1 k = true ∧ b.2 = v :=
  mem_of_find E (by rw [find_assign, if_pos hk])

variable {b : K × V}

/-- A node stays, unless it is the one that is found: that one gets the value. -/
theorem exists_assign_of_mem (k : K) (v : V) (hb : b ∈ m) :
    ∃ b' ∈ assign E m k v, b'.1 = b.1 ∧ (b'.2 = b.2 ∨ find E m k = some b.2 ∧ b'.2 = v) := by
  induction m with
  | nil => cases hb
  | cons b₀ m ih =>
    rw [find_cons]
    unfold assign
    by_cases hk : E.equal b₀.1 k = true
    · rw [if_pos hk, if_pos hk]
      cases hb with
      | head => exact ⟨(b.1, v), mem_cons_self, rfl, .inr ⟨rfl, rfl⟩⟩
      | tail _ hb => exact ⟨b, mem_cons_of_mem _ hb, rfl, .inl rfl⟩
    · rw [if_neg hk, if_neg hk]
      cases hb with
      | head => exact ⟨b, mem_cons_self, rfl, .inl rfl⟩
      | tail _ hb =>
        obtain ⟨b', hb', hkeep⟩ := ih hb
        exact ⟨b', mem_cons_of_mem _ hb', hkeep⟩

/-- After an assignment the map has a node. -/
theorem assign_ne_nil (m : List (K × V)) (k : K) (v : V) : assign E m k v ≠ [] := by
  cases m with
  | nil => exact cons_ne_nil _ _
  | cons b m =>
    unfold assign
    split <;> exact cons_ne_nil _ _

/-- Adding to the list of a key adds to the elements of all lists. -/
theorem flatMap_assign_perm {A : Type} (m : List (K × List A)) (k : K) (x : List A) :
    ((assign E m k ((find E m k).getD [] ++ x)).flatMap (·.2)).Perm (m.flatMap (·.2) ++ x) := by
  induction m with
  | nil => simp [assign, find]
  | cons b m ih =>
    rw [find_cons]
    unfold assign
    by_cases hk : E.equal b.1 k = true
    · rw [if_pos hk, if_pos hk, flatMap_cons, flatMap_cons, append_assoc, append_assoc]
      exact perm_append_comm.append_left _
    · rw [if_neg hk, if_neg hk, flatMap_cons, flatMap_cons, append_assoc]
      exact ih.append_left _

/-- A node after an assignment is an old one or has the value. -/
theorem mem_assign {v : V} {c : K × V} (h : c ∈ assign E m k v) :
    c ∈ m ∨ c.2 = v ∧ (c.1 = k ∨ E.equal c.1 k = true ∧ ∃ b ∈ m, b.1 = c.1) := by
  induction m with
  | nil =>
    rw [mem_singleton.mp h]
    exact .inr ⟨rfl, .inl rfl⟩
  | cons b m ih =>
    unfold assign at h
    split at h
    · next hk =>
      cases h with
      | head => exact .inr ⟨rfl, .inr ⟨hk, b, mem_cons_self, rfl⟩⟩
      | tail _ h => exact .inl (mem_cons_of_mem _ h)
    · cases h with
      | head => exact .inl mem_cons_self
      | tail _ h =>
        obtain hc | ⟨hv, hk | ⟨hk, b', hb', hkey⟩⟩ := ih h
        · exact .inl (mem_cons_of_mem _ hc)
        · exact .inr ⟨hv, .inl hk⟩
        · exact .inr ⟨hv, .inr ⟨hk, b', mem_cons_of_mem _ hb', hkey⟩⟩

/-- No two nodes have equal keys. -/
def Distinct (m : List (K × V)) : Prop := m.Pairwise fun a b => E.equal a.1 b.1 = false

variable {E}

/-- An assignment makes no second node for a key: it changes the node that is there, or adds one
when there is none. -/
theorem Distinct.assign (h : Distinct E m) (k : K) (v : V) : Distinct E (assign E m k v) := by
  induction m with
  | nil => exact pairwise_singleton _ _
  | cons b m ih =>
    obtain ⟨hb, hm⟩ := pairwise_cons.mp h
    unfold UnorderedMap.assign
    split
    · exact pairwise_cons.mpr ⟨hb, hm⟩
    · next hk =>
      refine pairwise_cons.mpr ⟨?_, ih hm⟩
      intro c hc
      obtain hc | ⟨-, rfl | ⟨-, b', hb', hkey⟩⟩ := mem_assign E hc
      · exact hb c hc
      · exact Bool.eq_false_iff.mpr hk
      · exact hkey ▸ hb b' hb'

/-- A node is found by the keys that are equal to its own. -/
theorem find_of_mem (h : Distinct E m) (hb : b ∈ m) (hk : E.equal b.1 k = true) :
    find E m k = some b.2 := by
  induction m with
  | nil => cases hb
  | cons b₀ m ih =>
    obtain ⟨hb₀, hm⟩ := pairwise_cons.mp h
    rw [find_cons]
    cases hb with
    | head => rw [if_pos hk]
    | tail _ hb =>
      have hne : ¬E.equal b₀.1 k = true := fun heq =>
        absurd (E.trans heq (E.symm hk)) (Bool.eq_false_iff.mp (hb₀ b hb))
      rw [if_neg hne, ih hm hb]

/-- Without a node for the key, nothing is found. -/
theorem find_eq_none (h : ∀ b ∈ m, E.equal b.1 k = false) : find E m k = none := by
  unfold find
  rw [find?_eq_none.mpr fun b hb => Bool.eq_false_iff.mp (h b hb)]
  rfl

/-- The order of the nodes plays no part. -/
theorem Distinct.perm {m m' : List (K × V)} (h : Distinct E m) (hperm : m'.Perm m) :
    Distinct E m' := by
  refine (hperm.pairwise_iff ?_).mpr h
  intro a b hab
  exact Bool.eq_false_iff.mpr fun hba => Bool.eq_false_iff.mp hab (E.symm hba)

/-- A node that is left is an old one, with another key. -/
theorem mem_erase (h : Distinct E m) (hb : b ∈ erase E m k) : b ∈ m ∧ E.equal b.1 k = false := by
  induction m with
  | nil => cases hb
  | cons b₀ m ih =>
    obtain ⟨hb₀, hm⟩ := pairwise_cons.mp h
    unfold erase at hb
    by_cases hk : E.equal b₀.1 k = true
    · rw [eraseP_cons_of_pos (by exact hk)] at hb
      refine ⟨mem_cons_of_mem _ hb, Bool.eq_false_iff.mpr ?_⟩
      exact fun heq => absurd (E.trans hk (E.symm heq)) (Bool.eq_false_iff.mp (hb₀ b hb))
    · rw [eraseP_cons_of_neg (by exact hk)] at hb
      cases hb with
      | head => exact ⟨mem_cons_self, Bool.eq_false_iff.mpr hk⟩
      | tail _ hb =>
        obtain ⟨hmem, hne⟩ := ih hm hb
        exact ⟨mem_cons_of_mem _ hmem, hne⟩

/-- Erasing a key keeps the other nodes apart. -/
theorem Distinct.erase (h : Distinct E m) (k : K) : Distinct E (erase E m k) :=
  h.eraseP _

variable (E)

/-- The lookup of another key does not see that a key is erased. -/
theorem find_erase_of_ne {k k' : K} (h : E.equal k k' = false) (m : List (K × V)) :
    find E (erase E m k) k' = find E m k' := by
  induction m with
  | nil => rfl
  | cons b m ih =>
    unfold erase at ih ⊢
    by_cases hb : E.equal b.1 k = true
    · have hne : ¬E.equal b.1 k' = true := fun hb' =>
        Bool.eq_false_iff.mp h (E.trans (E.symm hb) hb')
      rw [eraseP_cons_of_pos (by exact hb), find_cons, if_neg hne]
    · rw [eraseP_cons_of_neg (by exact hb), find_cons, find_cons, ih]

/-- Nor does it see that many keys are erased, when its key is none of them. -/
theorem find_eraseAll_of_ne {nodes : List (K × V)} {k : K} (h : ∀ b ∈ nodes, E.equal b.1 k = false)
    (m : List (K × V)) : find E (eraseAll E m nodes) k = find E m k := by
  induction nodes generalizing m with
  | nil => rfl
  | cons b nodes ih =>
    obtain ⟨hb, hrest⟩ := forall_mem_cons.mp h
    exact (ih hrest _).trans (find_erase_of_ne E hb m)

/-- What is left are old nodes, in their order. -/
theorem eraseAll_sublist (m nodes : List (K × V)) : (eraseAll E m nodes).Sublist m := by
  induction nodes generalizing m with
  | nil => exact .refl m
  | cons b nodes ih => exact (ih _).trans eraseP_sublist

/-- A pass over the values, seen by a lookup. -/
theorem find_map (f : V → V) (m : List (K × V)) (k : K) :
    find E (m.map fun b => (b.1, f b.2)) k = (find E m k).map f := by
  induction m with
  | nil => rfl
  | cons b m ih =>
    rw [map_cons, find_cons, find_cons, ih]
    cases E.equal b.1 k <;> rfl

/-! ## Keys compared by equality -/

section OfEq
variable [DecidableEq K] {m : List (K × V)}

/-- A key is found exactly when it is the key of a node. -/
theorem find_ofEq_isSome (m : List (K × V)) (k : K) :
    (find (KeyEqual.ofEq K) m k).isSome ↔ k ∈ m.map (·.1) := by
  unfold find
  rw [Option.isSome_map, find?_isSome, mem_map]
  simp only [KeyEqual.ofEq_equal, decide_eq_true_eq]

/-- The nodes after `emplace`: the old ones, and the new one when its key had none. -/
theorem mem_emplace_ofEq (m : List (K × V)) (k : K) (v : V) (c : K × V) :
    c ∈ emplace (KeyEqual.ofEq K) m k v ↔ c ∈ m ∨ k ∉ m.map (·.1) ∧ c = (k, v) := by
  unfold emplace
  rw [← find_ofEq_isSome]
  split
  · next h => simp [h]
  · next h => simp [h]

/-- The keys after `emplace`, which has the key in both cases. -/
theorem mem_keys_emplace_ofEq (m : List (K × V)) (k : K) (v : V) (k' : K) :
    k' ∈ (emplace (KeyEqual.ofEq K) m k v).map (·.1) ↔ k' ∈ m.map (·.1) ∨ k' = k := by
  unfold emplace
  split
  · next h =>
    rw [find_ofEq_isSome] at h
    exact (or_iff_left_of_imp fun heq => heq ▸ h).symm
  · simp

/-- `emplace` adds a node only for a key that has none. -/
theorem Distinct.emplace_ofEq (h : Distinct (KeyEqual.ofEq K) m) (k : K) (v : V) :
    Distinct (KeyEqual.ofEq K) (emplace (KeyEqual.ofEq K) m k v) := by
  unfold emplace
  split
  · exact h
  · next hnone =>
    rw [find_ofEq_isSome] at hnone
    refine pairwise_append.mpr ⟨h, pairwise_singleton _ _, ?_⟩
    intro a ha b hb
    rw [mem_singleton.mp hb]
    -- the key of an old node is not the new key
    exact decide_eq_false fun heq => hnone (mem_map.mpr ⟨a, ha, heq⟩)

/-- The nodes after `erase`: those with another key. -/
theorem mem_erase_ofEq (h : Distinct (KeyEqual.ofEq K) m) (k : K) (c : K × V) :
    c ∈ erase (KeyEqual.ofEq K) m k ↔ c ∈ m ∧ c.1 ≠ k := by
  constructor
  · intro hc
    obtain ⟨hmem, hne⟩ := mem_erase h hc
    exact ⟨hmem, of_decide_eq_false hne⟩
  · rintro ⟨hmem, hne⟩
    exact (mem_eraseP_of_neg (by simpa using hne)).mpr hmem

end OfEq

end UnorderedMap

end GeodeNative.Lib

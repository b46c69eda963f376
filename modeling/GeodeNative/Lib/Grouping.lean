import GeodeNative.Lib.UnorderedMap

/-!
# Maps whose values are sets

A loop that groups elements by a key adds to the set of one key in each turn. `insertAll` is one
such addition. `Has` are the elements of all groups, and `Separate` says that no element is in two
groups.

- `has_insertAll`, `Separate.insertAll`: an addition of new elements keeps the groups separate.
- `mem_group_insertAll`, `mem_keys_insertAll`: the group of a key, and the keys, after an addition.
- `has_modify_union`, `Separate.modify_union`: the same for an addition to the group at a place.
-/

set_option autoImplicit false

namespace GeodeNative.Lib

namespace Grouping

open UnorderedMap

variable {K A : Type}

/-- One of the groups has the element. -/
def Has (m : List (K × Finset A)) (a : A) : Prop := ∃ node ∈ m, a ∈ node.2

/-- No element is in two groups. -/
def Separate (m : List (K × Finset A)) : Prop := m.Pairwise fun a b => Disjoint a.2 b.2

theorem has_cons (node : K × Finset A) (m : List (K × Finset A)) (a : A) :
    Has (node :: m) a ↔ a ∈ node.2 ∨ Has m a := by
  simp [Has]

theorem Separate.perm {m m' : List (K × Finset A)} (h : Separate m) (hperm : m'.Perm m) :
    Separate m' :=
  (hperm.pairwise_iff fun hab => hab.symm).mpr h

theorem Has.perm {m m' : List (K × Finset A)} (hperm : m'.Perm m) (a : A) :
    Has m' a ↔ Has m a := by
  unfold Has
  simp only [hperm.mem_iff]

variable [DecidableEq A] (E : KeyEqual K)

/-- The elements that are grouped with a key. -/
def group (m : List (K × Finset A)) (k : K) : Finset A := (find E m k).getD ∅

/-- Adds to the group of a key, and makes the group when there is none. -/
def insertAll (m : List (K × Finset A)) (k : K) (x : Finset A) : List (K × Finset A) :=
  assign E m k (group E m k ∪ x)

theorem insertAll_cons (b : K × Finset A) (m : List (K × Finset A)) (k : K) (x : Finset A) :
    insertAll E (b :: m) k x =
      if E.equal b.1 k then (b.1, b.2 ∪ x) :: m else b :: insertAll E m k x := by
  unfold insertAll group
  rw [assign, find_cons]
  split <;> rfl

section OfEq
variable [DecidableEq K] (m : List (K × Finset A)) (k : K) (x : Finset A)

theorem mem_group_insertAll (k' : K) (a : A) :
    a ∈ group (KeyEqual.ofEq K) (insertAll (KeyEqual.ofEq K) m k x) k' ↔
      a ∈ group (KeyEqual.ofEq K) m k' ∨ k = k' ∧ a ∈ x := by
  unfold insertAll
  rw [group, find_assign, KeyEqual.ofEq_equal]
  by_cases hk : k = k'
  · rw [if_pos (decide_eq_true hk), Option.getD_some, hk]
    simp
  · simp [hk, group]

theorem mem_keys_insertAll (k' : K) :
    k' ∈ (insertAll (KeyEqual.ofEq K) m k x).map (·.1) ↔ k' ∈ m.map (·.1) ∨ k' = k := by
  induction m with
  | nil => simp [insertAll, assign]
  | cons b m ih =>
    rw [insertAll_cons]
    split
    · next hb =>
      have hkey : b.1 = k := of_decide_eq_true hb
      simp only [List.map_cons, List.mem_cons, hkey, or_right_comm, or_self]
    · rw [List.map_cons, List.mem_cons, ih, List.map_cons, List.mem_cons, or_assoc]

end OfEq

theorem has_insertAll (m : List (K × Finset A)) (k : K) (x : Finset A) (a : A) :
    Has (insertAll E m k x) a ↔ Has m a ∨ a ∈ x := by
  induction m with
  | nil => simp [insertAll, assign, group, find, Has]
  | cons b m ih =>
    rw [insertAll_cons]
    split
    · rw [has_cons, has_cons, Finset.mem_union, or_right_comm]
    · rw [has_cons, has_cons, ih, or_assoc]

variable {E}

theorem Separate.insertAll {m : List (K × Finset A)} (h : Separate m) (k : K) {x : Finset A}
    (hnew : ∀ a ∈ x, ¬Has m a) : Separate (insertAll E m k x) := by
  induction m with
  | nil => exact List.pairwise_singleton _ _
  | cons b m ih =>
    obtain ⟨hb, hm⟩ := List.pairwise_cons.mp h
    have hnew' : ∀ a ∈ x, a ∉ b.2 ∧ ¬Has m a :=
      fun a ha => not_or.mp fun hhas => hnew a ha ((has_cons b m a).mpr hhas)
    rw [insertAll_cons]
    split
    · -- the group of the key is the first one
      refine List.pairwise_cons.mpr ⟨fun c hc => Finset.disjoint_union_left.mpr ⟨hb c hc, ?_⟩, hm⟩
      exact Finset.disjoint_left.mpr fun a ha hac => (hnew' a ha).2 ⟨c, hc, hac⟩
    · refine List.pairwise_cons.mpr ⟨fun c hc => ?_, ih hm fun a ha => (hnew' a ha).2⟩
      refine Finset.disjoint_left.mpr fun a hab hac => ?_
      obtain ⟨c', hc', hac'⟩ | hax := (has_insertAll E m k x a).mp ⟨c, hc, hac⟩
      · exact Finset.disjoint_left.mp (hb c' hc') hab hac'
      · exact (hnew' a hax).1 hab

section Modify
variable {m : List (K × Finset A)} {i : Nat} {x : Finset A}

/-- The groups with the one at place `i` in front, and the same after an addition to it. -/
theorem modify_union_perm (hi : i < m.length) :
    ∃ node rest, m.Perm (node :: rest) ∧
      (m.modify i fun node => (node.1, node.2 ∪ x)).Perm ((node.1, node.2 ∪ x) :: rest) := by
  obtain ⟨l₁, node, l₂, hm, -, hmodify⟩ := List.exists_of_modify
    (fun node : K × Finset A => (node.1, node.2 ∪ x)) hi
  refine ⟨node, l₁ ++ l₂, ?_, ?_⟩
  · rw [hm]
    exact List.perm_middle
  · rw [hmodify]
    exact List.perm_middle

theorem has_modify_union (hi : i < m.length) (a : A) :
    Has (m.modify i fun node => (node.1, node.2 ∪ x)) a ↔ Has m a ∨ a ∈ x := by
  obtain ⟨node, rest, hm, hmodify⟩ := modify_union_perm (x := x) hi
  rw [Has.perm hmodify, Has.perm hm, has_cons, has_cons, Finset.mem_union, or_right_comm]

theorem Separate.modify_union (h : Separate m) (hi : i < m.length) (hnew : ∀ a ∈ x, ¬Has m a) :
    Separate (m.modify i fun node => (node.1, node.2 ∪ x)) := by
  obtain ⟨node, rest, hm, hmodify⟩ := modify_union_perm (x := x) hi
  obtain ⟨hnode, hrest⟩ := List.pairwise_cons.mp (h.perm hm.symm)
  refine Separate.perm (List.pairwise_cons.mpr ⟨fun c hc => ?_, hrest⟩) hmodify
  refine Finset.disjoint_union_left.mpr ⟨hnode c hc, Finset.disjoint_left.mpr fun a ha hac => ?_⟩
  exact hnew a ha ⟨c, hm.mem_iff.mpr (List.mem_cons_of_mem _ hc), hac⟩

end Modify

end Grouping

end GeodeNative.Lib

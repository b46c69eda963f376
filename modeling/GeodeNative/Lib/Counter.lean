import Mathlib

/-!
# A machine counter that follows the size of a set

`Follows c s` says that the counter `c` of `w` bits is the number of elements of the finite set
`s`, modulo `2 ^ w`. Adding a new element goes with `c + 1`, taking an element away with
`c - 1`. While the set has fewer than `2 ^ w` elements, the counter is its size
(`Follows.toNat_eq`).
-/

set_option autoImplicit false

namespace GeodeNative.Lib

variable {α : Type} {w : Nat}

/-- The counter is the size of the set, modulo `2 ^ w`. -/
structure Follows (c : BitVec w) (s : Set α) : Prop where
  finite : s.Finite
  count : c = BitVec.ofNat w s.ncard

theorem follows_empty : Follows (0 : BitVec w) (∅ : Set α) :=
  ⟨Set.finite_empty, by simp⟩

variable {c : BitVec w} {s : Set α}

theorem Follows.insert (h : Follows c s) {a : α} (ha : a ∉ s) :
    Follows (c + 1) (insert a s) where
  finite := h.finite.insert a
  count := by
    rw [Set.ncard_insert_of_notMem ha h.finite, h.count, BitVec.ofNat_add]
    rfl

theorem Follows.diff (h : Follows c s) {a : α} (ha : a ∈ s) :
    Follows (c - 1) (s \ {a}) where
  finite := h.finite.subset Set.sdiff_subset
  count := by
    have hcard := Set.ncard_sdiff_singleton_add_one ha h.finite
    rw [h.count, ← hcard, BitVec.ofNat_add]
    exact BitVec.add_sub_cancel _ _

/-- Without overflow the counter is the size of the set. -/
theorem Follows.toNat_eq (h : Follows c s) (hlt : s.ncard < 2 ^ w) : c.toNat = s.ncard := by
  rw [h.count, BitVec.toNat_ofNat, Nat.mod_eq_of_lt hlt]

/-- What one step does to the counter and to the membership of one element: neither changes,
the element is added, or it is taken away. -/
inductive Accounts (c c' : BitVec w) (before after : Prop) : Prop where
  | same (hc : c' = c) (h : after ↔ before)
  | added (hc : c' = c + 1) (hbefore : ¬ before) (hafter : after)
  | removed (hc : c' = c - 1) (hbefore : before) (hafter : ¬ after)

/-- A step that accounts for the one element it changes keeps `Follows`. -/
theorem Follows.step {c c' : BitVec w} {s s' : Set α} (h : Follows c s) {a : α}
    (hother : ∀ b, b ≠ a → (b ∈ s' ↔ b ∈ s)) (ha : Accounts c c' (a ∈ s) (a ∈ s')) :
    Follows c' s' := by
  cases ha with
  | same hc hsame =>
    have hs : s' = s := by
      ext b
      by_cases hb : b = a
      · rw [hb, hsame]
      · exact hother b hb
    rw [hc, hs]
    exact h
  | added hc hbefore hafter =>
    have hs : s' = Insert.insert a s := by
      ext b
      by_cases hb : b = a
      · simp [hb, hafter]
      · simp [hb, hother b hb]
    rw [hc, hs]
    exact h.insert hbefore
  | removed hc hbefore hafter =>
    have hs : s' = s \ {a} := by
      ext b
      by_cases hb : b = a
      · simp [hb, hafter]
      · simp [hb, hother b hb]
    rw [hc, hs]
    exact h.diff hbefore

end GeodeNative.Lib

import Mathlib

/-!
# The total of an integer function with finite support

A step that changes the function at one place changes the total by the difference there.
-/

set_option autoImplicit false

namespace GeodeNative.Lib

theorem finsum_step {α : Type} {f g : α → Int} {a : α} (hf : f.support.Finite)
    (h : ∀ b, b ≠ a → g b = f b) : ∑ᶠ b, g b = ∑ᶠ b, f b + (g a - f a) := by
  have hne : ∀ b, b ≠ a → g b - f b = 0 := fun b hb => Int.sub_eq_zero.mpr (h b hb)
  have hd : (Function.support fun b => g b - f b).Finite :=
    (Set.finite_singleton a).subset fun b hb => by_contra fun hba => hb (hne b hba)
  calc ∑ᶠ b, g b = ∑ᶠ b, (f b + (g b - f b)) := finsum_congr fun b => (add_sub_cancel _ _).symm
    _ = ∑ᶠ b, f b + ∑ᶠ b, (g b - f b) := finsum_add_distrib hf hd
    _ = ∑ᶠ b, f b + (g a - f a) := by rw [finsum_eq_single _ a hne]

end GeodeNative.Lib

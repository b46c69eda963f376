import GeodeNative.Lib.Run

/-!
# A register that keeps the greatest update

The register is empty or holds one update. `keepGreatest le` replaces the held update `b` by
the arriving update `a` when `le b a`. After a list of updates that `le` orders totally, the
register holds the greatest one (`run_keepGreatest`), so two orders of the same updates end
with the same update (`greatest_unique` on the members of a permutation).
-/

set_option autoImplicit false

namespace GeodeNative.Lib

section
variable {α : Type} (le : α → α → Prop) [DecidableRel le]

/-- One update of the register. -/
def keepGreatest (held : Option α) (a : α) : Option α :=
  match held with
  | none => some a
  | some b => if le b a then some a else some b

/-- `le` is a total order on the updates that satisfy `P`. -/
structure TotalOn (P : α → Prop) : Prop where
  refl : ∀ a, P a → le a a
  trans : ∀ a b c, P a → P b → P c → le a b → le b c → le a c
  total : ∀ a b, P a → P b → le a b ∨ le b a
  antisymm : ∀ a b, P a → P b → le a b → le b a → a = b

/-- `m` is the greatest element of the list. -/
def IsGreatestOf (m : α) (l : List α) : Prop := m ∈ l ∧ ∀ a ∈ l, le a m

variable {le} {P : α → Prop}

theorem keepGreatest_some (hle : TotalOn le P) {b a : α} (hb : P b) (ha : P a) :
    ∃ c, keepGreatest le (some b) a = some c ∧ (c = b ∨ c = a) ∧ le b c ∧ le a c := by
  by_cases h : le b a
  · exact ⟨a, by simp [keepGreatest, h], Or.inr rfl, h, hle.refl a ha⟩
  · refine ⟨b, by simp [keepGreatest, h], Or.inl rfl, hle.refl b hb, ?_⟩
    exact (hle.total b a hb ha).resolve_left h

/-- A full register ends with the greatest of the held update and the arriving ones. -/
theorem run_keepGreatest_some (hle : TotalOn le P) :
    ∀ (l : List α) (b : α), P b → (∀ a ∈ l, P a) →
      ∃ m, run (keepGreatest le) (some b) l = some m ∧ IsGreatestOf le m (b :: l) := by
  intro l
  induction l with
  | nil =>
    intro b hb _
    exact ⟨b, rfl, List.mem_cons_self, by simpa using hle.refl b hb⟩
  | cons a l ih =>
    intro b hb hl
    have ha : P a := hl a List.mem_cons_self
    obtain ⟨c, hc, hcmem, hbc, hac⟩ := keepGreatest_some hle hb ha
    have hPc : P c := by rcases hcmem with rfl | rfl <;> assumption
    obtain ⟨m, hm, hmem, hmax⟩ := ih c hPc fun x hx => hl x (List.mem_cons_of_mem a hx)
    refine ⟨m, by rw [run_cons, hc, hm], ?_, ?_⟩
    · rcases List.mem_cons.mp hmem with rfl | hmem
      · rcases hcmem with rfl | rfl <;> simp
      · exact List.mem_cons_of_mem b (List.mem_cons_of_mem a hmem)
    · have hPm : P m := by
        rcases List.mem_cons.mp hmem with rfl | hmem
        · exact hPc
        · exact hl m (List.mem_cons_of_mem a hmem)
      have hcm : le c m := hmax c List.mem_cons_self
      intro x hx
      rcases List.mem_cons.mp hx with rfl | hx
      · exact hle.trans x c m hb hPc hPm hbc hcm
      · rcases List.mem_cons.mp hx with rfl | hx
        · exact hle.trans x c m ha hPc hPm hac hcm
        · exact hmax x (List.mem_cons_of_mem c hx)

/-- From the empty register, a non-empty list of updates ends with its greatest element. -/
theorem run_keepGreatest (hle : TotalOn le P) (l : List α) (hne : l ≠ []) (hl : ∀ a ∈ l, P a) :
    ∃ m, run (keepGreatest le) none l = some m ∧ IsGreatestOf le m l := by
  cases l with
  | nil => exact absurd rfl hne
  | cons a l =>
    exact run_keepGreatest_some hle l a (hl a List.mem_cons_self)
      fun x hx => hl x (List.mem_cons_of_mem a hx)

omit [DecidableRel le] in
/-- A list has one greatest element, and a permutation has the same one. -/
theorem greatest_unique (hle : TotalOn le P) {l₁ l₂ : List α} (hperm : l₁.Perm l₂)
    (hl : ∀ a ∈ l₁, P a) {m₁ m₂ : α} (h₁ : IsGreatestOf le m₁ l₁) (h₂ : IsGreatestOf le m₂ l₂) :
    m₁ = m₂ := by
  have hm₂ : m₂ ∈ l₁ := hperm.mem_iff.mpr h₂.1
  have hm₁ : m₁ ∈ l₂ := hperm.mem_iff.mp h₁.1
  exact hle.antisymm m₁ m₂ (hl m₁ h₁.1) (hl m₂ hm₂) (h₂.2 m₁ hm₁) (h₁.2 m₂ hm₂)

end

end GeodeNative.Lib

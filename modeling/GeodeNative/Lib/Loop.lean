import Mathlib

/-!
# Loops that may not end

`loop step fuel i s` makes the turns `i`, `i + 1`, … of a loop. A turn gives a result or the state
for the next turn. `none` is a loop that is not over after `fuel` turns.

To reason about such a loop, say for each turn in which states it can start (`At`) and whether it
is the last one (`Ends`). `loop_ends_iff` says when the loop ends, and `loop_result` what is known
of the result: it is the result of the first turn with `Ends`.
-/

set_option autoImplicit false

namespace GeodeNative.Lib

variable {S R : Type}

/-- The loop from turn `i` on, for at most `fuel` turns. -/
def loop (step : Nat → S → R ⊕ S) : Nat → Nat → S → Option R
  | 0, _, _ => none
  | fuel + 1, i, s =>
    match step i s with
    | .inl r => some r
    | .inr s => loop step fuel (i + 1) s

/-- What the turns of a loop do: a turn that starts in a state with `At` and has `Ends` gives a
result with `Result`, any other turn goes on. -/
structure Turns (step : Nat → S → R ⊕ S) (At : Nat → S → Prop) (Ends : Nat → Prop)
    (Result : Nat → R → Prop) : Prop where
  goesOn : ∀ i s, At i s → ¬Ends i → ∃ s', step i s = .inr s' ∧ At (i + 1) s'
  ends : ∀ i s, At i s → Ends i → ∃ r, step i s = .inl r ∧ Result i r

variable {step : Nat → S → R ⊕ S} {At : Nat → S → Prop} {Ends : Nat → Prop}
  {Result : Nat → R → Prop}

section
variable {s : S} (h : Turns step At Ends Result)
include h

/-- A result is the result of the first turn with `Ends`. -/
theorem loop_result {fuel i : Nat} (hs : At i s) {r : R} (hr : loop step fuel i s = some r) :
    ∃ j, i ≤ j ∧ Ends j ∧ (∀ k, i ≤ k → k < j → ¬Ends k) ∧ Result j r := by
  induction fuel generalizing i s with
  | zero => cases hr
  | succ fuel ih =>
    rw [loop] at hr
    by_cases hends : Ends i
    · obtain ⟨r', hstep, hresult⟩ := h.ends i s hs hends
      rw [hstep] at hr
      cases hr
      exact ⟨i, Nat.le_refl i, hends, fun k hik hki => absurd hik (Nat.not_le.mpr hki), hresult⟩
    · obtain ⟨s', hstep, hs'⟩ := h.goesOn i s hs hends
      rw [hstep] at hr
      obtain ⟨j, hij, hj, hfirst, hresult⟩ := ih hs' hr
      refine ⟨j, Nat.le_of_succ_le hij, hj, ?_, hresult⟩
      intro k hik hkj
      -- turn `i` itself, or one of the later turns
      obtain rfl | hlt := Nat.eq_or_lt_of_le hik
      · exact hends
      · exact hfirst k hlt hkj

/-- Enough turns reach the first one with `Ends`. -/
theorem loop_of_ends {i j : Nat} (hs : At i s) (hij : i ≤ j) (hj : Ends j) :
    ∃ r, loop step (j + 1 - i) i s = some r := by
  induction hn : j - i generalizing i s with
  | zero =>
    obtain rfl : i = j := by omega
    obtain ⟨r, hstep, -⟩ := h.ends i s hs hj
    exact ⟨r, by rw [Nat.add_sub_cancel_left, loop, hstep]⟩
  | succ n ih =>
    have hfuel : j + 1 - i = (j + 1 - (i + 1)) + 1 := by omega
    rw [hfuel, loop]
    by_cases hends : Ends i
    · obtain ⟨r, hstep, -⟩ := h.ends i s hs hends
      exact ⟨r, by rw [hstep]⟩
    · obtain ⟨s', hstep, hs'⟩ := h.goesOn i s hs hends
      rw [hstep]
      exact ih hs' (by omega) (by omega)

theorem loop_ends_iff (hs : At 0 s) : (∃ fuel r, loop step fuel 0 s = some r) ↔ ∃ j, Ends j := by
  constructor
  · rintro ⟨fuel, r, hr⟩
    obtain ⟨j, -, hj, -⟩ := loop_result h hs hr
    exact ⟨j, hj⟩
  · rintro ⟨j, hj⟩
    exact ⟨_, loop_of_ends h hs (Nat.zero_le j) hj⟩

end

end GeodeNative.Lib

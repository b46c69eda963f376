import Mathlib

/-!
# Runs of a deterministic machine

`run step s l` is the state after the actions `l`. `Along step P s l` says that `P` holds of
every step of that run: of the state before the step and of the action.

- `run_invariant`: an invariant that every step with `P` keeps holds at the end of a run
  whose steps all have `P`.
- `run_simulates`: a relation to a second machine that every step with `P` keeps holds at the
  end of both runs.
- `along_congr`: two conditions that agree under an invariant hold along the same runs.
- `along_iff`: `Along` in terms of the prefixes of the action list.
- `always_iff`, `always_iff_of_invariant`: a property holds in every state of a run exactly when
  every step meets the condition under which one step keeps it.
-/

set_option autoImplicit false

namespace GeodeNative.Lib

section
variable {S A : Type} (step : S → A → S)

/-- The state after the actions of `l`, in order. -/
def run (s : S) (l : List A) : S := l.foldl step s

@[simp] theorem run_nil (s : S) : run step s [] = s := rfl

@[simp] theorem run_cons (s : S) (a : A) (l : List A) :
    run step s (a :: l) = run step (step s a) l := rfl

theorem run_append (s : S) (l₁ l₂ : List A) :
    run step s (l₁ ++ l₂) = run step (run step s l₁) l₂ := by
  simp [run]

theorem getElem?_concat_eq_some {l : List A} {a b : A} {i : Nat} :
    (l ++ [a])[i]? = some b ↔ l[i]? = some b ∨ i = l.length ∧ a = b := by
  rcases Nat.lt_trichotomy i l.length with hlt | rfl | hgt
  · simp [List.getElem?_append_left hlt, Nat.ne_of_lt hlt]
  · simp
  · simp [List.getElem?_append_right (Nat.le_of_lt hgt), Nat.sub_ne_zero_of_lt hgt,
      Nat.ne_of_gt hgt, List.getElem?_eq_none (Nat.le_of_lt hgt)]

/-- `P` holds of every step of the run from `s` over the list. -/
def Along (P : S → A → Prop) : S → List A → Prop
  | _, [] => True
  | s, a :: l => P s a ∧ Along P (step s a) l

/-- A decidable condition can be checked along a run. -/
instance decidableAlong (P : S → A → Prop) [∀ s a, Decidable (P s a)] :
    (s : S) → (l : List A) → Decidable (Along step P s l)
  | _, [] => isTrue trivial
  | s, a :: l => @instDecidableAnd _ _ _ (decidableAlong P (step s a) l)

variable {step} (P : S → A → Prop)

@[simp] theorem along_nil (s : S) : Along step P s [] := trivial

@[simp] theorem along_cons (s : S) (a : A) (l : List A) :
    Along step P s (a :: l) ↔ P s a ∧ Along step P (step s a) l := Iff.rfl

theorem along_append (s : S) (l₁ l₂ : List A) :
    Along step P s (l₁ ++ l₂) ↔ Along step P s l₁ ∧ Along step P (run step s l₁) l₂ := by
  induction l₁ generalizing s with
  | nil => simp
  | cons a l ih => simp only [List.cons_append, along_cons, ih, run_cons, and_assoc]

/-- A run has `P` at every step when `P` holds after every prefix, of the next action. -/
theorem along_iff (s : S) (l : List A) :
    Along step P s l ↔ ∀ pre a post, l = pre ++ a :: post → P (run step s pre) a := by
  constructor
  · intro h pre a post hl
    rw [hl, along_append] at h
    exact h.2.1
  · induction l generalizing s with
    | nil => exact fun _ => trivial
    | cons a l ih =>
      intro h
      refine ⟨h [] a l rfl, ih (step s a) ?_⟩
      intro pre b post hl
      exact h (a :: pre) b post (by rw [hl]; rfl)

variable {l : List A} {s : S} {P Q : S → A → Prop}

theorem Along.mono (hPQ : ∀ s a, P s a → Q s a) (h : Along step P s l) : Along step Q s l := by
  induction l generalizing s with
  | nil => trivial
  | cons a l ih => exact ⟨hPQ s a h.1, ih h.2⟩

theorem Along.and (hP : Along step P s l) (hQ : Along step Q s l) :
    Along step (fun s a => P s a ∧ Q s a) s l := by
  induction l generalizing s with
  | nil => trivial
  | cons a l ih => exact ⟨⟨hP.1, hQ.1⟩, ih hP.2 hQ.2⟩

variable {I : S → Prop}

/-- Two conditions that agree in the states with an invariant, which the first one keeps, hold along
the same runs. -/
theorem along_congr (hiff : ∀ s a, I s → (P s a ↔ Q s a))
    (hstep : ∀ s a, I s → P s a → I (step s a)) (hs : I s) :
    Along step P s l ↔ Along step Q s l := by
  induction l generalizing s with
  | nil => exact Iff.rfl
  | cons a l ih =>
    rw [along_cons, along_cons, ← hiff s a hs]
    exact and_congr_right fun ha => ih (hstep s a hs ha)

/-- The invariant rule. -/
theorem run_invariant {P : S → A → Prop} (hstep : ∀ s a, I s → P s a → I (step s a)) (hs : I s)
    (hl : Along step P s l) : I (run step s l) := by
  induction l generalizing s with
  | nil => exact hs
  | cons a l ih => exact ih (hstep s a hs hl.1) hl.2

theorem along_of_forall {P : S → A → Prop} (h : ∀ s a, P s a) (s : S) (l : List A) :
    Along step P s l :=
  (along_iff P s l).mpr fun _ _ _ _ => h _ _

/-- The invariant rule for an invariant that every step keeps. -/
theorem run_keeps (hstep : ∀ s a, I s → I (step s a)) (hs : I s) : I (run step s l) :=
  run_invariant (fun s a h _ => hstep s a h) hs (along_of_forall (fun _ _ => trivial) s l)

/-- A condition on the actions alone holds along a run when it holds of every action. -/
theorem along_actions_iff {C : A → Prop} (s : S) (l : List A) :
    Along step (fun _ a => C a) s l ↔ ∀ a ∈ l, C a := by
  induction l generalizing s with
  | nil => exact iff_of_true trivial nofun
  | cons a l ih => rw [along_cons, List.forall_mem_cons, ih]

/-- `C` is the exact condition under which a step with `B` keeps an invariant: with `C` the
invariant is kept, and without it the property `P`, which the invariant implies, fails after the
step. So `P` holds after every prefix of a run of such steps exactly when every step has `C`. -/
theorem always_iff_of_invariant {I P : S → Prop} {B C : S → A → Prop} (himp : ∀ s, I s → P s)
    (hkeep : ∀ s a, I s → B s a → C s a → I (step s a))
    (hbreak : ∀ s a, I s → B s a → P (step s a) → C s a) (hs : I s) (hB : Along step B s l) :
    (∀ pre, pre <+: l → P (run step s pre)) ↔ Along step C s l := by
  induction l generalizing s with
  | nil =>
    refine iff_of_true ?_ trivial
    intro pre hpre
    rw [List.prefix_nil.mp hpre]
    exact himp s hs
  | cons a l ih =>
    obtain ⟨ha, hB'⟩ := hB
    constructor
    · intro h
      have hC : C s a := hbreak s a hs ha (h [a] (List.prefix_append [a] l))
      refine ⟨hC, (ih (hkeep s a hs ha hC) hB').mp ?_⟩
      intro pre hpre
      exact h (a :: pre) (List.cons_prefix_cons.mpr ⟨rfl, hpre⟩)
    · intro ⟨hC, h⟩ pre hpre
      cases pre with
      | nil => exact himp s hs
      | cons b pre =>
        obtain ⟨rfl, hpre'⟩ := List.cons_prefix_cons.mp hpre
        exact (ih (hkeep s b hs ha hC) hB').mpr h pre hpre'

/-- `C` is the exact condition under which a step keeps `P`, in the states with an invariant and for
the steps with `B`. So `P` holds after every prefix of a run of such steps exactly when every step
has `C`. -/
theorem always_iff {I P : S → Prop} {B C : S → A → Prop} (hinv : ∀ s a, I s → B s a → I (step s a))
    (hstep : ∀ s a, I s → B s a → P s → (P (step s a) ↔ C s a)) (hs : I s) (hP : P s)
    (hB : Along step B s l) : (∀ pre, pre <+: l → P (run step s pre)) ↔ Along step C s l :=
  always_iff_of_invariant (I := fun s => I s ∧ P s) (fun _ h => h.2)
    (fun s a h ha hC => ⟨hinv s a h.1 ha, (hstep s a h.1 ha h.2).mpr hC⟩)
    (fun s a h ha hP' => (hstep s a h.1 ha h.2).mp hP') ⟨hs, hP⟩ hB

/-- The simulation rule: a second machine on the same actions. -/
theorem run_simulates {T : Type} {step' : T → A → T} {R : S → T → Prop} {P : A → Prop}
    (hstep : ∀ s t a, R s t → P a → R (step s a) (step' t a)) (hl : ∀ a ∈ l, P a) {t : T}
    (hR : R s t) : R (run step s l) (run step' t l) := by
  induction l generalizing s t with
  | nil => exact hR
  | cons a l ih =>
    have ha : P a := hl a List.mem_cons_self
    have htail : ∀ b ∈ l, P b := fun b hb => hl b (List.mem_cons_of_mem a hb)
    exact ih htail (hstep s t a hR ha)

end

end GeodeNative.Lib

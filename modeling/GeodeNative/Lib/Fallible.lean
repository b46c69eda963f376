import Mathlib

/-!
# Results of computations that can fail

From the result of a composed computation to the results of its parts.
-/

set_option autoImplicit false

namespace GeodeNative.Lib

variable {A B E F : Type} {x : Except E A}

theorem ok_of_bind {f : A → Except E B} {b : B} (h : x >>= f = .ok b) :
    ∃ a, x = .ok a ∧ f a = .ok b := by
  cases x with
  | error e => cases h
  | ok a => exact ⟨a, rfl, h⟩

theorem ok_of_map {f : A → B} {b : B} (h : x.map f = .ok b) : ∃ a, x = .ok a ∧ f a = b := by
  cases x with
  | error e => cases h
  | ok a => exact ⟨a, rfl, Except.ok.inj h⟩

theorem ok_of_mapError {f : E → F} {a : A} (h : x.mapError f = .ok a) : x = .ok a := by
  cases x with
  | error e => cases h
  | ok b => exact congrArg _ (Except.ok.inj h)

variable {l : List A}

theorem ok_of_mapM {f : A → Except E B} {m : List B} (h : l.mapM f = .ok m) :
    List.Forall₂ (fun a b => f a = .ok b) l m := by
  induction l generalizing m with
  | nil =>
    cases h
    exact List.Forall₂.nil
  | cons a l ih =>
    rw [List.mapM_cons] at h
    obtain ⟨b, hb, hrest⟩ := ok_of_bind h
    obtain ⟨bs, hbs, hm⟩ := ok_of_bind hrest
    cases hm
    exact List.Forall₂.cons hb (ih hbs)

theorem mapM_eq_some {f : A → Option B} {m : List B} :
    l.mapM f = some m ↔ List.Forall₂ (fun a b => f a = some b) l m := by
  induction l generalizing m with
  | nil =>
    rw [List.forall₂_nil_left_iff]
    exact ⟨fun h => (Option.some.inj h).symm, fun h => congrArg some h.symm⟩
  | cons a l ih =>
    rw [List.mapM_cons, List.forall₂_cons_left_iff]
    simp only [bind, Option.bind_eq_some_iff, ih]
    constructor
    · rintro ⟨b, hb, bs, hbs, hm⟩
      exact ⟨b, bs, hb, hbs, (Option.some.inj hm).symm⟩
    · rintro ⟨b, bs, hb, hbs, rfl⟩
      exact ⟨b, hb, bs, hbs, rfl⟩

theorem exists_mapM {f : A → Option B} : (∃ m, l.mapM f = some m) ↔ ∀ a ∈ l, (f a).isSome := by
  simp only [mapM_eq_some]
  induction l with
  | nil => exact ⟨fun _ => nofun, fun _ => ⟨[], List.Forall₂.nil⟩⟩
  | cons a l ih =>
    rw [List.forall_mem_cons, ← ih, Option.isSome_iff_exists]
    simp only [List.forall₂_cons_left_iff]
    constructor
    · rintro ⟨m, b, bs, hb, hbs, -⟩
      exact ⟨⟨b, hb⟩, bs, hbs⟩
    · rintro ⟨⟨b, hb⟩, bs, hbs⟩
      exact ⟨_, b, bs, hb, hbs, rfl⟩

end GeodeNative.Lib

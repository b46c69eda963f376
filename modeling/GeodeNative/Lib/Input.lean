import Mathlib

/-!
# Reading a buffer through a cursor

A parser runs over a buffer and a cursor, and ends with a value or with an error. In both cases
it leaves a cursor. `next` reads the element under the cursor, and fails with an error that the
caller names when there is none.

`Reads` says what a parser makes of a piece of a buffer, wherever the piece lies. `Reads.bind`
reads one piece after the other.

`Triple` says how a parser ends on any buffer, with a value or with an error, from the states with a
given property. `Left` is such a property: some elements are left behind the cursor.
-/

set_option autoImplicit false

namespace GeodeNative.Lib

open List

variable {ε α β γ : Type}

/-- A buffer and a cursor. The cursor may lie outside of the buffer. -/
structure Input (α : Type) where
  buffer : List α
  pos : Int
  deriving DecidableEq

/-- A computation that reads a buffer, and can fail. -/
abbrev Parser (ε α β : Type) := EStateM ε (Input α) β

/-- The element at an integer position, if there is one. -/
def elemAt (l : List α) (i : Int) : Option α := if 0 ≤ i then l[i.toNat]? else none

/-- Reads the element under the cursor. -/
def next (outside : ε) : Parser ε α α := fun s =>
  match elemAt s.buffer s.pos with
  | none => .error outside s
  | some a => .ok a { s with pos := s.pos + 1 }

/-- Runs a parser `n` times. -/
def times (n : Nat) (p : Parser ε α β) : Parser ε α (List β) :=
  match n with
  | 0 => return []
  | n + 1 => do
    let b ← p
    let bs ← times n p
    return b :: bs

/-- Reads the next `n` elements. -/
def nextN (outside : ε) (n : Nat) : Parser ε α (List α) := times n (next outside)

/-- The parser reads the piece `bs` as `v`, wherever the piece lies in a buffer. -/
def Reads (p : Parser ε α β) (bs : List α) (v : β) : Prop :=
  ∀ front back : List α, p ⟨front ++ bs ++ back, front.length⟩ =
    .ok v ⟨front ++ bs ++ back, (front ++ bs).length⟩

variable {f : β → Parser ε α γ} {p : Parser ε α β} {s s' : Input α}

theorem bind_ok {b : β} (h : p s = .ok b s') : (p >>= f) s = f b s' := by
  show EStateM.bind p f s = _
  rw [EStateM.bind, h]

/-- Two parsers that end alike, each in its own state, go on alike. -/
theorem bind_eq_of_eq {p q : Parser ε α β} {s t : Input α} (h : p s = q t) (f : β → Parser ε α γ) :
    (p >>= f) s = (q >>= f) t := by
  show EStateM.bind p f s = EStateM.bind q f t
  rw [EStateM.bind, EStateM.bind, h]

theorem bind_error {e : ε} (h : p s = .error e s') : (p >>= f) s = .error e s' := by
  show EStateM.bind p f s = _
  rw [EStateM.bind, h]

theorem bind_eq_ok {c : γ} (h : (p >>= f) s = .ok c s') :
    ∃ b s₁, p s = .ok b s₁ ∧ f b s₁ = .ok c s' := by
  cases hp : p s with
  | error e s₁ =>
    rw [bind_error hp] at h
    cases h
  | ok b s₁ =>
    rw [bind_ok hp] at h
    exact ⟨b, s₁, rfl, h⟩

theorem map_eq_ok {f : β → γ} {c : γ} (h : (f <$> p) s = .ok c s') :
    ∃ b, p s = .ok b s' ∧ f b = c := by
  obtain ⟨b, s₁, hp, hpure⟩ := bind_eq_ok h
  cases hpure
  exact ⟨b, hp, rfl⟩

theorem times_length {n : Nat} {v : List β} (h : times n p s = .ok v s') : v.length = n := by
  induction n generalizing s v with
  | zero =>
    cases h
    rfl
  | succ n ih =>
    obtain ⟨b, s₁, -, h⟩ := bind_eq_ok h
    obtain ⟨bs, s₂, htail, hpure⟩ := bind_eq_ok h
    cases hpure
    rw [length_cons, ih htail]

variable {v : β}

namespace Reads

theorem pure (v : β) : Reads (Pure.pure v : Parser ε α β) [] v := by
  intro front back
  show EStateM.Result.ok v _ = _
  rw [append_nil]

variable {p : Parser ε α β} {bs : List α}

theorem bind {bs cs : List α} {u : γ} (hp : Reads p bs v) (hf : Reads (f v) cs u) :
    Reads (p >>= f) (bs ++ cs) u := by
  intro front back
  have h₁ := hp front (cs ++ back)
  have h₂ := hf (front ++ bs) back
  rw [show front ++ (bs ++ cs) ++ back = front ++ bs ++ (cs ++ back) by simp, bind_ok h₁]
  rw [show front ++ bs ++ (cs ++ back) = front ++ bs ++ cs ++ back by simp, h₂,
    append_assoc front bs cs]

theorem bind_nil {u : γ} (hp : Reads p bs v) (hf : Reads (f v) [] u) : Reads (p >>= f) bs u := by
  have hboth := hp.bind hf
  rwa [append_nil] at hboth

theorem behind (hp : Reads p bs v) (front back : List α) :
    p ⟨front ++ (bs ++ back), front.length⟩ =
      .ok v ⟨front ++ bs ++ back, (front ++ bs).length⟩ := by
  rw [← append_assoc]
  exact hp front back

theorem map (hp : Reads p bs v) (f : β → γ) : Reads (p >>= fun b => Pure.pure (f b)) bs (f v) :=
  hp.bind_nil (Reads.pure (f v))

theorem fmap (hp : Reads p bs v) (f : β → γ) : Reads (f <$> p) bs (f v) := by
  intro front back
  show EStateM.map f p _ = _
  rw [EStateM.map, hp front back]

theorem unique {u v : β} (hu : Reads p bs u) (hv : Reads p bs v) : u = v :=
  (EStateM.Result.ok.inj ((hu [] []).symm.trans (hv [] []))).1

theorem next (outside : ε) (a : α) : Reads (Lib.next outside) [a] a := by
  intro front back
  have hat : elemAt (front ++ [a] ++ back) front.length = some a := by
    simp [elemAt]
  rw [Lib.next]
  simp only [hat]
  simp

/-- A parser that reads the image of each element of a list from its own piece reads the images. -/
theorem times_map {encode : γ → List α} {f : γ → β} {l : List γ}
    (h : ∀ c ∈ l, Reads p (encode c) (f c)) :
    Reads (Lib.times l.length p) (l.flatMap encode) (l.map f) := by
  induction l with
  | nil => exact Reads.pure []
  | cons c l ih =>
    have hl := ih fun d hd => h d (mem_cons_of_mem c hd)
    have hmap := hl.map fun bs => f c :: bs
    exact (h c mem_cons_self).bind hmap

/-- A parser that reads each element of a list from its own piece reads the list. -/
theorem times {encode : β → List α} {l : List β} (h : ∀ b ∈ l, Reads p (encode b) b) :
    Reads (Lib.times l.length p) (l.flatMap encode) l := by
  have hmap := times_map (f := id) h
  rwa [map_id] at hmap

theorem nextN (outside : ε) (l : List α) : Reads (Lib.nextN outside l.length) l l := by
  have h : Reads (Lib.times l.length (Lib.next outside)) (l.flatMap fun a => [a]) l :=
    Reads.times fun a _ => Reads.next outside a
  rwa [flatMap_singleton'] at h

end Reads

/-! ### Pre- and postconditions -/

/-- From a state with `P`, the parser returns a value and a state with `Q`, or fails with `E`. -/
def Triple (P : Input α → Prop) (p : Parser ε α β) (Q : β → Input α → Prop)
    (E : ε → Input α → Prop) : Prop :=
  ∀ s, P s → match p s with
    | .ok v s' => Q v s'
    | .error e s' => E e s'

/-- The buffer is `buf`, and `n` elements or more are left behind the cursor. -/
structure Left (buf : List α) (n : Nat) (s : Input α) : Prop where
  buffer : s.buffer = buf
  nonneg : 0 ≤ s.pos
  le : s.pos + n ≤ buf.length

variable {buf : List α}

theorem Left.mono {n k : Nat} (h : Left buf n s) (hk : k ≤ n) : Left buf k s := by
  have hle := h.le
  exact ⟨h.buffer, h.nonneg, by omega⟩

theorem Left.split {n : Nat} (h : Left buf n s) :
    ∃ front rest, buf = front ++ rest ∧ s = ⟨front ++ rest, front.length⟩ ∧ n ≤ rest.length := by
  obtain ⟨buffer, pos⟩ := s
  obtain ⟨rfl, hnonneg, hle⟩ := h
  dsimp only at hnonneg hle
  refine ⟨buffer.take pos.toNat, buffer.drop pos.toNat, ?_, ?_, ?_⟩
  · exact (take_append_drop _ _).symm
  · rw [take_append_drop, length_take]
    congr 1
    omega
  · rw [length_drop]
    omega

namespace Triple

variable {P : Input α → Prop} {Q : β → Input α → Prop} {E : ε → Input α → Prop}

theorem pure (h : ∀ s, P s → Q v s) : Triple P (Pure.pure v : Parser ε α β) Q E := h

theorem throw {e : ε} (h : ∀ s, P s → E e s) :
    Triple P (MonadExcept.throw e : Parser ε α β) Q E := h

theorem bind {R : γ → Input α → Prop} {p : Parser ε α γ} {f : γ → Parser ε α β}
    (hp : Triple P p R E) (hf : ∀ c, Triple (R c) (f c) Q E) : Triple P (p >>= f) Q E := by
  intro s hs
  have hfirst := hp s hs
  cases h : p s with
  | ok c s' =>
    rw [h] at hfirst
    rw [bind_ok h]
    exact hf c s' hfirst
  | error e s' =>
    rw [h] at hfirst
    rw [bind_error h]
    exact hfirst

theorem conseq {P' : Input α → Prop} {Q' : β → Input α → Prop} (h : Triple P p Q E)
    (hP : ∀ s, P' s → P s) (hQ : ∀ v s, Q v s → Q' v s) : Triple P' p Q' E := by
  intro s hs
  have hend := h s (hP s hs)
  cases hp : p s with
  | ok v s' =>
    rw [hp] at hend
    exact hQ v s' hend
  | error e s' =>
    rw [hp] at hend
    exact hend

/-- A loop with an invariant. -/
theorem times (h : Triple P p (fun _ => P) E) (n : Nat) :
    Triple P (Lib.times n p) (fun _ => P) E := by
  induction n with
  | zero => exact Triple.pure fun _ hs => hs
  | succ n ih => exact h.bind fun _ => ih.bind fun _ => Triple.pure fun _ hs => hs

theorem next {n : Nat} {outside : ε} :
    Triple (Left buf (n + 1)) (Lib.next outside) (fun _ => Left buf n) E := by
  intro s hs
  obtain ⟨front, rest, rfl, rfl, hlen⟩ := hs.split
  cases rest with
  | nil => exact absurd hlen (Nat.not_succ_le_zero n)
  | cons a rest =>
    have hread := Reads.next outside a front rest
    rw [append_assoc, singleton_append] at hread
    rw [hread]
    refine ⟨rfl, Int.natCast_nonneg _, ?_⟩
    simp only [length_append, length_cons, length_nil] at hlen ⊢
    omega

theorem nextN (k n : Nat) {outside : ε} :
    Triple (Left buf (n + k)) (Lib.nextN outside n) (fun _ => Left buf k) E := by
  induction n with
  | zero =>
    rw [Nat.zero_add]
    exact Triple.pure fun _ hs => hs
  | succ n ih =>
    rw [show n + 1 + k = n + k + 1 by omega]
    exact Triple.next.bind fun _ => ih.bind fun _ => Triple.pure fun _ hs => hs

end Triple

end GeodeNative.Lib

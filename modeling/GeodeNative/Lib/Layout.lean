import Mathlib

/-!
# Pieces laid out one after the other

A list of pieces is laid out by concatenation. `start` is the position of a piece, and
`slice_start` cuts a piece out of the whole at its position. `start_of_const` gives the positions
of a table with entries of one width.
-/

set_option autoImplicit false

namespace GeodeNative.Lib

open List

variable {α : Type}

/-- The position of piece `i` in the layout. -/
def start (cs : List (List α)) (i : Nat) : Nat := (cs.take i).flatten.length

/-- The positions of the pieces, when the first one starts at `p`. -/
def starts (p : Nat) : List (List α) → List Nat
  | [] => []
  | c :: cs => p :: starts (p + c.length) cs

/-- The elements from position `a` up to position `b`. -/
def slice (l : List α) (a b : Nat) : List α := (l.drop a).take (b - a)

/-- Pieces that are not empty take a place each. -/
theorem length_le_flatMap {β : Type} {f : β → List α} {l : List β} (hpos : ∀ b ∈ l, f b ≠ []) :
    l.length ≤ (l.flatMap f).length := by
  simpa using length_le_sum_of_one_le (l.map fun b => (f b).length)
    (forall_mem_map.mpr fun b hb => length_pos_iff.mpr (hpos b hb))

variable {cs : List (List α)}

theorem length_flatten_le {n : Nat} (hn : ∀ c ∈ cs, c.length ≤ n) :
    cs.flatten.length ≤ cs.length * n := by
  simpa using sum_le_card_nsmul (cs.map length) n (by simpa using hn)

@[simp] theorem start_zero (cs : List (List α)) : start cs 0 = 0 := by
  rw [start, take_zero, flatten_nil, length_nil]

theorem start_cons_succ (c : List α) (cs : List (List α)) (i : Nat) :
    start (c :: cs) (i + 1) = c.length + start cs i := by
  rw [start, take_succ_cons, flatten_cons, length_append, start]

variable {i : Nat}

theorem start_succ (hi : i < cs.length) : start cs (i + 1) = start cs i + cs[i].length := by
  rw [start, take_succ_eq_append_getElem hi, flatten_append]
  simp [start]

theorem start_length (cs : List (List α)) : start cs cs.length = cs.flatten.length := by
  rw [start, take_length]

theorem getElem?_starts (p : Nat) (cs : List (List α)) (hi : i < cs.length) :
    (starts p cs)[i]? = some (p + start cs i) := by
  induction cs generalizing p i with
  | nil => exact absurd hi (Nat.not_lt_zero i)
  | cons c cs ih =>
    cases i with
    | zero => rw [start_zero]; rfl
    | succ i =>
      rw [starts, getElem?_cons_succ, ih (p + c.length) (Nat.lt_of_succ_lt_succ hi),
        start_cons_succ, Nat.add_assoc]

/-- A piece is what lies between its position and the next one. -/
theorem slice_start (hi : i < cs.length) (rest : List α) :
    slice (cs.flatten ++ rest) (start cs i) (start cs (i + 1)) = cs[i] := by
  induction cs generalizing i with
  | nil => exact absurd hi (Nat.not_lt_zero i)
  | cons c cs ih =>
    cases i with
    | zero =>
      rw [start_cons_succ, start_zero]
      simp [slice]
    | succ i =>
      have hi' : i < cs.length := Nat.lt_of_succ_lt_succ hi
      rw [start_cons_succ, start_cons_succ, getElem_cons_succ, ← ih hi']
      -- the first piece is dropped from both
      rw [slice, slice, flatten_cons, append_assoc, drop_append,
        drop_of_length_le (Nat.le_add_right _ _), nil_append, Nat.add_sub_cancel_left,
        Nat.add_sub_add_left]

/-- In a table of entries of width `n`, entry `i` starts at `i * n`. -/
theorem start_of_const {n : Nat} (hn : ∀ c ∈ cs, c.length = n) (hi : i ≤ cs.length) :
    start cs i = i * n := by
  induction i with
  | zero => rw [start_zero, Nat.zero_mul]
  | succ i ih =>
    have hi' : i < cs.length := hi
    rw [start_succ hi', ih (Nat.le_of_lt hi'), hn _ (getElem_mem hi'), Nat.succ_mul]

end GeodeNative.Lib

import GeodeNative.Pdx.PdxTypeRegistry
import GeodeNative.Proofs.Pdx.Merge

/-!
# Which types share an id

The registry finds a type by `operator<`, which compares the names of the classes and not the
fields. So the id of a call is the one of the first type of the class (`idOf`), and two versions of
a class share it. `idsTellApart_iff` is the exact condition on the calls.
-/

set_option autoImplicit false

namespace GeodeNative.Pdx

open PdxTypeRegistry

variable {server : PdxType → Int}

/-- The types are equal in class name and in their fields. -/
def SameStructure (t u : PdxType) : Prop := t.className = u.className ∧ t.typeEquals u = true

theorem sameStructure_iff (t u : PdxType) : SameStructure t u ↔
    (t.className, t.pdxFieldTypes.map nameAndType) =
      (u.className, u.pdxFieldTypes.map nameAndType) := by
  rw [SameStructure, typeEquals_iff, Prod.mk.injEq]

theorem find_eq (map : PdxTypeToTypeIdMap) (t : PdxType) :
    map.find t = (map.find? fun e => e.1.className = t.className).map Prod.snd := by
  have hsame : ∀ u : PdxType,
      (!u.lessThan t && !t.lessThan u) = decide (u.className = t.className) := by
    intro u
    rw [Bool.eq_iff_iff]
    simp only [PdxType.lessThan, Bool.and_eq_true, Bool.not_eq_true', decide_eq_false_iff_not,
      decide_eq_true_eq, String.not_lt]
    exact ⟨fun h => String.le_antisymm h.2 h.1, fun h => h ▸ ⟨String.le_refl _, String.le_refl _⟩⟩
  simp only [PdxTypeToTypeIdMap.find, hsame]

/-- The id that a call returns: the one of the first type of the class, unless that is 0. -/
def idOf (server : PdxType → Int) (calls : List PdxType) (t : PdxType) : Int :=
  match calls.find? fun u => u.className = t.className with
  | some u => if server u ≠ 0 then server u else server t
  | none => server t

/-- The map holds the id of the first type of each class. -/
def HoldsFirst (server : PdxType → Int) (map : PdxTypeToTypeIdMap) (done : List PdxType) : Prop :=
  ∀ t : PdxType, map.find t = (done.find? fun u => u.className = t.className).map server

section
variable {map : PdxTypeToTypeIdMap} {done : List PdxType} (h : HoldsFirst server map done)
include h

/-- One call. The map changes when it asks for the first type of a class. -/
theorem getPDXIdForType_step (t : PdxType) (calls : List PdxType) :
    (getPDXIdForType server map t).1 = idOf server (done ++ t :: calls) t ∧
      HoldsFirst server (getPDXIdForType server map t).2 (done ++ [t]) := by
  have hfind := h t
  cases hfirst : done.find? fun u => u.className = t.className with
  | some u =>
    rw [hfirst, Option.map_some] at hfind
    have hmap : (getPDXIdForType server map t).2 = map := by
      simp only [getPDXIdForType, hfind, PdxTypeToTypeIdMap.insert]
      split
      · rfl
      · exact if_pos (congrArg Option.isSome hfind)
    refine ⟨?_, fun x => ?_⟩
    · simp only [getPDXIdForType, hfind, idOf, List.find?_append, hfirst, Option.some_or]
      split <;> rfl
    · -- a type of this class was found before
      rw [hmap, h x, List.find?_append]
      by_cases hx : t.className = x.className
      · rw [← hx, hfirst, Option.some_or]
      · simp [hx]
  | none =>
    rw [hfirst, Option.map_none] at hfind
    refine ⟨?_, fun x => ?_⟩
    · simp [getPDXIdForType, hfind, idOf, hfirst]
    · have hx := h x
      rw [find_eq] at hfind hx
      simp only [getPDXIdForType, PdxTypeToTypeIdMap.insert, find_eq, hfind, List.find?_append,
        Option.isSome_none, Bool.false_eq_true, if_false]
      by_cases hsame : t.className = x.className
      · rw [← hsame, Option.map_eq_none_iff.mp hfind, hfirst]
        simp
      · simp [hsame, ← hx]

theorem answers_from (calls : List PdxType) :
    answers server map calls = calls.map fun t => (t, idOf server (done ++ calls) t) := by
  induction calls generalizing done map with
  | nil => rfl
  | cons t calls ih =>
    obtain ⟨hid, hnext⟩ := getPDXIdForType_step h t calls
    rw [answers, ih hnext, hid, List.append_assoc]
    rfl

end

/-- Two calls return the same id only for types of the same structure. -/
def IdsTellApart (server : PdxType → Int) (calls : List PdxType) : Prop :=
  ∀ p ∈ answers server [] calls, ∀ q ∈ answers server [] calls, p.2 = q.2 → SameStructure p.1 q.1

/-- The ids tell the types apart exactly when each type has the structure of the first type of its
class, unless the id of that one is 0, which is not taken from the map. -/
theorem idsTellApart_iff {calls : List PdxType}
    (hserver : ∀ t ∈ calls, ∀ u ∈ calls, server t = server u → SameStructure t u) :
    IdsTellApart server calls ↔
      ∀ t ∈ calls, ∀ u, (calls.find? fun u => u.className = t.className) = some u →
        server u ≠ 0 → SameStructure u t := by
  have hnew : HoldsFirst server [] [] := fun _ => rfl
  rw [IdsTellApart, answers_from hnew calls, List.nil_append]
  simp only [List.forall_mem_map]
  constructor
  · intro h t ht u hu hid
    have hclass : u.className = t.className := by simpa using List.find?_some hu
    refine h u (List.mem_of_find?_eq_some hu) t ht ?_
    simp only [idOf, hclass, hu, if_pos hid]
  · -- the id of a call is the server's id of a type with the same structure
    intro h
    have hsource : ∀ t ∈ calls, ∃ u ∈ calls, idOf server calls t = server u ∧
        SameStructure u t := by
      intro t ht
      have hself : SameStructure t t := (sameStructure_iff t t).mpr rfl
      unfold idOf
      split
      · rename_i u hu
        split
        · rename_i hid
          exact ⟨u, List.mem_of_find?_eq_some hu, rfl, h t ht u hu hid⟩
        · exact ⟨t, ht, rfl, hself⟩
      · exact ⟨t, ht, rfl, hself⟩
    intro t ht t' ht' hid
    obtain ⟨u, hmem, hu, hut⟩ := hsource t ht
    obtain ⟨u', hmem', hu', hut'⟩ := hsource t' ht'
    have huu' := hserver u hmem u' hmem' (hu.symm.trans (hid.trans hu'))
    rw [sameStructure_iff] at *
    exact hut.symm.trans (huu'.trans hut')

theorem idsTellApart_two : IdsTellApart (fun t => if t.className = "A" then 1 else 2)
    [PdxType.new "A" true, PdxType.new "B" true] := by
  refine (idsTellApart_iff ?_).mpr ?_ <;> unfold SameStructure <;> decide

/-- Two versions of one class: the second is found under the name of the first. -/
theorem idsTellApart_versions : ¬ IdsTellApart (fun t => t.pdxFieldTypes.length + 1)
    [PdxType.new "A" true,
      AddField.step (PdxType.new "A" true) (.fixedLength (some "x") "" 4 4)] := by
  unfold IdsTellApart SameStructure
  decide

end GeodeNative.Pdx

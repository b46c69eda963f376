import GeodeNative.Client.ThinClientRedundancyManager

/-!
# What a scan of the endpoints finds

The steps of `maintainRedundancyLevel`, each with a lemma that says everything that it can find,
whatever the servers answer.

- `removeEndpointsInOrder_perm`: what is taken out of a list in order is taken out, and nothing
  else.
- `scanRedundant_cases`: every redundant endpoint has failed, or all before a primary have failed
  and some behind it.
- `scanNonredundant_secondaries`, `scanNonredundant_promote`: the new secondaries, and a new
  primary when there are enough of them.
- `convertOld_cases`, `promoteNew_cases`: a new secondary that becomes the primary.
-/

set_option autoImplicit false

namespace GeodeNative.Client.Redundancy

open List

variable {E : Type}

/-! ### Removal in order -/

section
variable [DecidableEq E]

theorem removeEndpointsInOrder_nil (dest : List E) : removeEndpointsInOrder dest [] = dest := by
  induction dest with
  | nil => rfl
  | cons d dest ih => rw [removeEndpointsInOrder, ih]

/-- What is removed in order from a list with it leaves the rest. -/
theorem removeEndpointsInOrder_perm {dest src : List E} (h : src.Sublist dest) :
    (removeEndpointsInOrder dest src ++ src).Perm dest := by
  induction dest generalizing src with
  | nil => rw [sublist_nil.mp h]; exact .nil
  | cons d dest ih =>
    cases src with
    | nil => rw [removeEndpointsInOrder_nil, append_nil]
    | cons s src =>
      rw [removeEndpointsInOrder]
      by_cases heq : d = s
      · subst heq
        rw [if_pos rfl]
        exact perm_middle.trans ((ih (cons_sublist_cons.mp h)).cons d)
      · rw [if_neg heq]
        have hrest : (s :: src).Sublist dest := by
          cases h with
          | cons _ h => exact h
          | cons_cons _ h => exact absurd rfl heq
        exact (ih hrest).cons d

theorem removeEndpointsInOrder_append (front rest src : List E) :
    removeEndpointsInOrder (front ++ rest) (front ++ src) = removeEndpointsInOrder rest src := by
  induction front with
  | nil => rfl
  | cons d front ih =>
    rw [cons_append, cons_append, removeEndpointsInOrder, if_pos rfl, ih]

theorem removeEndpointsInOrder_self (l : List E) : removeEndpointsInOrder l l = [] := by
  have h := removeEndpointsInOrder_append l [] []
  rw [append_nil] at h
  exact h

theorem removeEndpointsInOrder_cons {d : E} {src : List E} (h : d ∉ src) (dest : List E) :
    removeEndpointsInOrder (d :: dest) src = d :: removeEndpointsInOrder dest src := by
  cases src with
  | nil => rfl
  | cons s src =>
    have hne : ¬ d = s := fun heq => h (heq ▸ mem_cons_self)
    rw [removeEndpointsInOrder, if_neg hne]

end

/-! ### The redundant endpoints -/

section
variable (level : Int) (o : Outcomes E)

/-- The scan behind the primary: each endpoint is a secondary or has failed. -/
theorem scanRedundant_secondaries (l : Locals E) (hprimary : l.isPrimaryConnected = true)
    (hsat : l.isRedundancySatisfied = false) (isBegin : Bool) (rest : List E) :
    ∃ failed c b, failed.Sublist rest ∧
      scanRedundant level o isBegin l rest =
        { l with
          secondaryCount := l.secondaryCount + c
          isRedundancySatisfied := b
          tempNonredundantEndpoints := l.tempNonredundantEndpoints ++ failed } ∧
      c + failed.length ≤ rest.length ∧
      (b = true → ((l.secondaryCount + c : Nat) : Int) = level) ∧
      (b = false → c + failed.length = rest.length ∧
        ((l.secondaryCount : Int) < level → ((l.secondaryCount + c : Nat) : Int) < level)) := by
  induction rest generalizing l isBegin with
  | nil =>
    refine ⟨[], 0, false, .slnil, ?_, Nat.le_refl 0, nofun, fun _ => ⟨rfl, id⟩⟩
    rw [scanRedundant, append_nil, Nat.add_zero, ← hsat]
  | cons ep rest ih =>
    rw [scanRedundant, if_neg (by simp [hsat]), scanRedundantStep, if_neg (by simp [hprimary])]
    by_cases hconn : o.connected ep = true
    · rw [if_pos hconn]
      by_cases hlevel : ((l.secondaryCount + 1 : Nat) : Int) = level
      · -- enough secondaries: the loop ends here
        rw [if_pos hlevel]
        refine ⟨[], 1, true, nil_sublist _, ?_, ?_, fun _ => hlevel, nofun⟩
        · rw [append_nil]
          cases rest <;> rfl
        · rw [length_nil, length_cons]
          omega
      · rw [if_neg hlevel]
        obtain ⟨failed, c, b, hsub, heq, hle, htrue, hfalse⟩ := ih
          { l with secondaryCount := l.secondaryCount + 1 } hprimary hsat false
        dsimp only at heq htrue hfalse
        refine ⟨failed, c + 1, b, hsub.cons ep, ?_, ?_, ?_, ?_⟩
        · rw [heq, Nat.add_assoc, Nat.add_comm 1 c]
        · rw [length_cons]
          omega
        · intro hb
          have := htrue hb
          omega
        · intro hb
          obtain ⟨hlen, hlt⟩ := hfalse hb
          rw [length_cons]
          refine ⟨by omega, fun hless => ?_⟩
          have := hlt (by omega)
          omega
    · rw [if_neg hconn]
      obtain ⟨failed, c, b, hsub, heq, hle, htrue, hfalse⟩ :=
        ih (l.addNonredundant ep) hprimary hsat
        false
      refine ⟨ep :: failed, c, b, hsub.cons_cons ep, ?_, ?_, htrue, ?_⟩
      · rw [heq]
        simp [Locals.addNonredundant]
      · rw [length_cons, length_cons]
        omega
      · intro hb
        obtain ⟨hlen, hlt⟩ := hfalse hb
        rw [length_cons, length_cons]
        exact ⟨by omega, hlt⟩

section
variable (l : Locals E) (hprimary : l.isPrimaryConnected = false)
  (hsat : l.isRedundancySatisfied = false)
include hprimary hsat

/-- The scan for a new primary among the secondaries. -/
theorem scanRedundant_promote (list : List E) :
    scanRedundant level o false l list =
        { l with tempNonredundantEndpoints := l.tempNonredundantEndpoints ++ list } ∨
      ∃ front p rest, list = front ++ p :: rest ∧
        scanRedundant level o false l list = scanRedundant level o false
          { l with
            tempNonredundantEndpoints := l.tempNonredundantEndpoints ++ front
            isPrimaryConnected := true
            primary := some p } rest := by
  induction list generalizing l with
  | nil =>
    left
    rw [scanRedundant, append_nil]
  | cons ep list ih =>
    rw [scanRedundant, if_neg (by simp [hsat]), scanRedundantStep, if_pos (by simp [hprimary]),
      if_neg Bool.false_ne_true]
    by_cases hsend : sendMakePrimaryMesg o ep = true
    · right
      refine ⟨[], ep, list, rfl, ?_⟩
      rw [if_pos hsend, append_nil]
    · rw [if_neg hsend]
      obtain heq | ⟨front, p, rest, rfl, heq⟩ := ih (l.addNonredundant ep) hprimary hsat
      · left
        rw [heq]
        simp [Locals.addNonredundant]
      · right
        refine ⟨ep :: front, p, rest, rfl, ?_⟩
        rw [heq]
        simp [Locals.addNonredundant]

/-- What the first scan can find. Either every redundant endpoint has failed. Or all before the
primary have failed, and some behind it. -/
theorem scanRedundant_cases (hcount : l.secondaryCount = 0)
    (htemp : l.tempNonredundantEndpoints = []) (redundant : List E) :
    scanRedundant level o true l redundant = { l with tempNonredundantEndpoints := redundant } ∨
      ∃ front p rest failed c b, redundant = front ++ p :: rest ∧ failed.Sublist rest ∧
        scanRedundant level o true l redundant =
          { l with
            isPrimaryConnected := true
            isRedundancySatisfied := b
            secondaryCount := c
            tempNonredundantEndpoints := front ++ failed
            primary := if front = [] then l.primary else some p } ∧
        c + failed.length ≤ rest.length ∧ (b = true → (c : Int) = level) ∧
        (b = false → c + failed.length = rest.length ∧
          (0 ≤ level → (c : Int) < level ∨ level = 0 ∧ front ≠ [])) := by
  cases redundant with
  | nil =>
    left
    rw [scanRedundant, ← htemp]
  | cons ep list =>
    rw [scanRedundant, if_neg (by simp [hsat]), scanRedundantStep, if_pos (by simp [hprimary]),
      if_pos rfl]
    by_cases hconn : o.connected ep = true
    · right
      rw [if_pos hconn]
      by_cases hlevel : level = 0
      · -- no secondaries are wanted
        rw [if_pos hlevel]
        refine ⟨[], ep, list, [], 0, true, rfl, nil_sublist _, ?_, Nat.zero_le _,
          fun _ => hlevel.symm, nofun⟩
        rw [if_pos rfl, append_nil, ← hcount, ← htemp]
        cases list <;> rfl
      · rw [if_neg hlevel]
        obtain ⟨failed, c, b, hsub, heq, hle, htrue, hfalse⟩ :=
          scanRedundant_secondaries level o
            { l with isPrimaryConnected := true } rfl hsat false list
        dsimp only at heq htrue hfalse
        rw [hcount, Nat.zero_add] at htrue hfalse
        refine ⟨[], ep, list, failed, c, b, rfl, hsub, ?_, hle, htrue, ?_⟩
        · rw [heq, hcount, Nat.zero_add, htemp, if_pos rfl]
        · intro hb
          obtain ⟨hlen, hlt⟩ := hfalse hb
          exact ⟨hlen, fun hnonneg => .inl (hlt (by omega))⟩
    · rw [if_neg hconn]
      obtain heq | ⟨front, p, rest, rfl, heq⟩ :=
        scanRedundant_promote level o (l.addNonredundant ep) hprimary hsat list
      · left
        rw [heq, Locals.addNonredundant, htemp]
        rfl
      · right
        obtain ⟨failed, c, b, hsub, heq', hle, htrue, hfalse⟩ :=
          scanRedundant_secondaries level o
            { l.addNonredundant ep with
              tempNonredundantEndpoints :=
                (l.addNonredundant ep).tempNonredundantEndpoints ++ front
              isPrimaryConnected := true
              primary := some p } rfl hsat false rest
        dsimp only [Locals.addNonredundant] at heq heq' htrue hfalse
        rw [hcount, Nat.zero_add] at htrue hfalse
        refine ⟨ep :: front, p, rest, failed, c, b, rfl, hsub, ?_, hle, htrue, ?_⟩
        · dsimp only [Locals.addNonredundant]
          rw [heq, heq', hcount, Nat.zero_add, htemp, if_neg (cons_ne_nil ep front)]
          rfl
        · intro hb
          obtain ⟨hlen, hlt⟩ := hfalse hb
          refine ⟨hlen, fun hnonneg => ?_⟩
          by_cases hlevel : level = 0
          · exact .inr ⟨hlevel, cons_ne_nil ep front⟩
          · exact .inl (hlt (by omega))

end

end

/-! ### The other endpoints -/

/-- The same variables with other errors. The errors do not matter for the lists. -/
def Locals.withErrors (l : Locals E) (errors : GfErrType × Bool × GfErrType) : Locals E :=
  { l with err := errors.1, fatal := errors.2.1, fatalError := errors.2.2 }

theorem Locals.noteFatal_eq (l : Locals E) (err : GfErrType) :
    ∃ errors, { l with err := err }.noteFatal = l.withErrors errors := by
  unfold Locals.noteFatal
  split
  · exact ⟨(err, true, err), rfl⟩
  · exact ⟨(err, l.fatal, l.fatalError), rfl⟩

/-- What the scan without a primary can find: the endpoints that agree become secondaries, and when
there are enough one of the next ones becomes the primary. -/
def ScannedWithout (level : Int) (l : Locals E) (list : List E) (l' : Locals E) : Prop :=
  ∃ new errors,
    (new.Sublist list ∧
      l' = Locals.withErrors
        { l with
          secondaryCount := l.secondaryCount + new.length
          tempRedundantEndpoints := l.tempRedundantEndpoints ++ new } errors ∧
      ((l.secondaryCount : Int) ≤ level →
        ((l.secondaryCount + new.length : Nat) : Int) ≤ level)) ∨
    ∃ p, (new ++ [p]).Sublist list ∧
      l' = Locals.withErrors
        { l with
          secondaryCount := l.secondaryCount + new.length
          isRedundancySatisfied := true
          isPrimaryConnected := true
          isPrimaryAtBack := true
          primary := some p
          tempRedundantEndpoints := l.tempRedundantEndpoints ++ (new ++ [p]) } errors ∧
      ((l.secondaryCount + new.length : Nat) : Int) = level

theorem ScannedWithout.cons {level : Int} {l l' : Locals E} {list : List E}
    (h : ScannedWithout level l list l') (ep : E) : ScannedWithout level l (ep :: list) l' := by
  obtain ⟨new, errors, h | ⟨p, h⟩⟩ := h
  · exact ⟨new, errors, .inl ⟨h.1.cons ep, h.2⟩⟩
  · exact ⟨new, errors, .inr ⟨p, h.1.cons ep, h.2⟩⟩

section
variable [DecidableEq E] (level : Int) (o : Outcomes E) (init : Bool) (back : Option E)

theorem scanNonredundant_satisfied {l : Locals E} (h : l.isRedundancySatisfied = true)
    (list : List E) : scanNonredundant level o init back l list = l := by
  cases list with
  | nil => rfl
  | cons ep list => rw [scanNonredundant, if_pos h]

/-- The scan with a primary: the endpoints that agree become secondaries. -/
theorem scanNonredundant_secondaries (l : Locals E) (hprimary : l.isPrimaryConnected = true)
    (hsat : l.isRedundancySatisfied = false) (list : List E) :
    ∃ new b errors, new.Sublist list ∧
      scanNonredundant level o init back l list =
        Locals.withErrors
          { l with
            secondaryCount := l.secondaryCount + new.length
            isRedundancySatisfied := b
            tempRedundantEndpoints := l.tempRedundantEndpoints ++ new } errors ∧
      (b = true → ((l.secondaryCount + new.length : Nat) : Int) = level) ∧
      (b = false → (l.secondaryCount : Int) < level →
        ((l.secondaryCount + new.length : Nat) : Int) < level) := by
  induction list generalizing l with
  | nil =>
    refine ⟨[], false, (l.err, l.fatal, l.fatalError), .slnil, ?_, nofun, fun _ => id⟩
    rw [scanNonredundant, append_nil, ← hsat]
    rfl
  | cons ep list ih =>
    rw [scanNonredundant, if_neg (by simp [hsat]), scanNonredundantStep,
      if_neg (by simp [hprimary])]
    dsimp only
    by_cases hmade : o.makeSecondary ep = .noErr
    · rw [if_pos hmade]
      by_cases hlevel : ((l.secondaryCount + 1 : Nat) : Int) = level
      · rw [if_pos hlevel]
        refine ⟨[ep], true, (o.makeSecondary ep, l.fatal, l.fatalError),
          singleton_sublist.mpr mem_cons_self, ?_, fun _ => hlevel, nofun⟩
        cases list <;> rfl
      · rw [if_neg hlevel]
        obtain ⟨new, b, errors, hsub, heq, htrue, hfalse⟩ := ih
          { Locals.addRedundant { l with err := o.makeSecondary ep } ep with
            secondaryCount := l.secondaryCount + 1 } hprimary hsat
        dsimp only [Locals.addRedundant] at heq htrue hfalse
        refine ⟨ep :: new, b, errors, hsub.cons_cons ep, ?_, ?_, ?_⟩
        · dsimp only [Locals.addRedundant]
          rw [heq, length_cons, append_assoc, Nat.add_assoc, Nat.add_comm 1]
          rfl
        · intro hb
          have := htrue hb
          rw [length_cons]
          omega
        · intro hb hless
          have := hfalse hb (by omega)
          rw [length_cons]
          omega
    · rw [if_neg hmade]
      obtain ⟨errors, herrors⟩ := l.noteFatal_eq (o.makeSecondary ep)
      rw [herrors]
      obtain ⟨new, b, errors', hsub, heq, htrue, hfalse⟩ := ih (l.withErrors errors) hprimary hsat
      exact ⟨new, b, errors', hsub.cons ep, heq, htrue, hfalse⟩

theorem scanNonredundant_promote (l : Locals E) (hprimary : l.isPrimaryConnected = false)
    (hsat : l.isRedundancySatisfied = false) (list : List E) :
    ScannedWithout level l list (scanNonredundant level o init back l list) := by
  induction list generalizing l with
  | nil =>
    refine ⟨[], (l.err, l.fatal, l.fatalError), .inl ⟨.slnil, ?_, id⟩⟩
    rw [scanNonredundant, append_nil]
    rfl
  | cons ep list ih =>
    -- an endpoint that does not agree only leaves an error
    have hfailed : ∀ err, ScannedWithout level l (ep :: list)
        (scanNonredundant level o init back ({ l with err := err }.noteFatal) list) := by
      intro err
      obtain ⟨errors, herrors⟩ := l.noteFatal_eq err
      rw [herrors]
      exact (ih (l.withErrors errors) hprimary hsat).cons ep
    rw [scanNonredundant, if_neg (by simp [hsat]), scanNonredundantStep,
      if_pos (by simp [hprimary])]
    by_cases hlevel : (l.secondaryCount : Int) = level
    · rw [if_pos hlevel]
      by_cases hlast : (!init || decide (some ep = back)) = true
      · rw [if_pos hlast]
        by_cases hmade : o.makePrimary ep = .noErr
        · rw [if_pos hmade]
          refine ⟨[], (o.makePrimary ep, l.fatal, l.fatalError), .inr ⟨ep,
            singleton_sublist.mpr mem_cons_self, ?_, hlevel⟩⟩
          cases list <;> rfl
        · rw [if_neg hmade]
          exact hfailed (o.makePrimary ep)
      · rw [if_neg hlast]
        exact hfailed l.err
    · rw [if_neg hlevel]
      by_cases hmade : o.makeSecondary ep = .noErr
      · rw [if_pos hmade]
        have hshift : ∀ n, l.secondaryCount + 1 + n = l.secondaryCount + (n + 1) := by omega
        obtain ⟨new, errors, ⟨hsub, heq, hle⟩ | ⟨p, hsub, heq, hall⟩⟩ := ih
          { Locals.addRedundant { l with err := o.makeSecondary ep } ep with
            secondaryCount := l.secondaryCount + 1 } hprimary hsat
        · dsimp only [Locals.addRedundant] at heq hle
          refine ⟨ep :: new, errors, .inl ⟨hsub.cons_cons ep, ?_, ?_⟩⟩
          · dsimp only [Locals.addRedundant]
            rw [heq, append_assoc, hshift]
            rfl
          · intro hless
            rw [length_cons]
            omega
        · dsimp only [Locals.addRedundant] at heq hall
          refine ⟨ep :: new, errors, .inr ⟨p, hsub.cons_cons ep, ?_, ?_⟩⟩
          · dsimp only [Locals.addRedundant]
            rw [heq, append_assoc, hshift]
            rfl
          · rw [length_cons]
            omega
      · rw [if_neg hmade]
        exact hfailed (o.makeSecondary ep)

end

/-! ### A primary from the new secondaries -/

section
variable (o : Outcomes E)

/-- The primary is there, or no endpoint that was tried is left. -/
theorem convertPrimary_spec (old : Bool) (list skipped : List E) :
    (convertPrimary o old list skipped).1 = (convertPrimary o old list skipped).2.1.head? ∧
      ((convertPrimary o old list skipped).2.1.reverse ++
        (convertPrimary o old list skipped).2.2).Sublist (list.reverse ++ skipped) := by
  induction list generalizing skipped with
  | nil => exact ⟨rfl, List.Sublist.refl _⟩
  | cons ep list ih =>
    have hreverse : ∀ l : List E, (ep :: list).reverse ++ l = list.reverse ++ ep :: l := by simp
    rw [convertPrimary]
    by_cases hskip : (old && o.getServerQueueStatus ep == .nonRedundantServer) = true
    · rw [if_pos hskip, hreverse]
      exact ih (ep :: skipped)
    · rw [if_neg hskip]
      by_cases hsend : sendMakePrimaryMesg o ep = true
      · rw [if_pos hsend]
        exact ⟨rfl, List.Sublist.refl _⟩
      · rw [if_neg hsend, hreverse]
        obtain ⟨hhead, hsub⟩ := ih skipped
        exact ⟨hhead, hsub.trans ((sublist_cons_self ep skipped).append_left _)⟩

theorem promotePrimary_eq (list : List E) :
    promotePrimary o list = ((list.dropWhile fun ep => !sendMakePrimaryMesg o ep).head?,
      list.dropWhile fun ep => !sendMakePrimaryMesg o ep) := by
  induction list with
  | nil => rfl
  | cons ep list ih =>
    rw [promotePrimary]
    by_cases hsend : sendMakePrimaryMesg o ep = true
    · simp [hsend]
    · simp [hsend, ih]

/-- Step 2 of the first call makes one of the new endpoints the primary, or drops some of them. -/
theorem convertOld_cases (l : Locals E) :
    ∃ temp, temp.Sublist l.tempRedundantEndpoints ∧
      (convertOld o l = { l with tempRedundantEndpoints := temp } ∨
        ∃ p ∈ temp, convertOld o l =
          { l with
            tempRedundantEndpoints := temp
            isPrimaryAtBack := false
            convertedPrimary := some p
            isPrimaryConnected := true
            primary := some p }) := by
  obtain ⟨hhead, hsub⟩ := convertPrimary_spec o (l.tempRedundantEndpoints.any fun ep =>
    o.getServerQueueStatus ep != .nonRedundantServer) l.tempRedundantEndpoints.reverse []
  rw [reverse_reverse, append_nil] at hsub
  refine ⟨_, hsub, ?_⟩
  unfold convertOld
  dsimp only
  generalize convertPrimary o _ l.tempRedundantEndpoints.reverse [] = r at hhead
  obtain ⟨found, left, skipped⟩ := r
  cases found with
  | none => exact .inl rfl
  | some p =>
    have hmem : p ∈ left := mem_of_head? hhead.symm
    exact .inr ⟨p, mem_append_left _ (mem_reverse.mpr hmem), rfl⟩

/-- Step 2 of every call makes the last new endpoint that agrees the primary, or drops all of
them. -/
theorem promoteNew_cases (l : Locals E) :
    promoteNew o l = { l with tempRedundantEndpoints := [] } ∨
      ∃ rest p, (rest ++ [p]).Sublist l.tempRedundantEndpoints ∧
        promoteNew o l =
          { l with
            tempRedundantEndpoints := rest ++ [p]
            isPrimaryAtBack := true
            isPrimaryConnected := true
            primary := some p } := by
  have hsub := (dropWhile_sublist (fun ep => !sendMakePrimaryMesg o ep)
    (l := l.tempRedundantEndpoints.reverse)).reverse
  rw [reverse_reverse] at hsub
  unfold promoteNew
  rw [promotePrimary_eq]
  -- the first endpoint that agrees is the primary, and those before it are dropped
  generalize l.tempRedundantEndpoints.reverse.dropWhile _ = left at hsub
  cases left with
  | nil => exact .inl rfl
  | cons p left =>
    rw [reverse_cons] at hsub
    refine .inr ⟨left.reverse, p, hsub, ?_⟩
    simp

end

theorem choosePrimary_connected {call : Call E} {l : Locals E} (h : l.isPrimaryConnected = true) :
    choosePrimary call l = l := by
  simp [choosePrimary, h]

end GeodeNative.Client.Redundancy

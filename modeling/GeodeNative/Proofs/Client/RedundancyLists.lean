import GeodeNative.Lib.Run
import GeodeNative.Proofs.Client.RedundancyScan

/-!
# The lists of the redundancy manager

`maintainRedundancyLevel_wellFormed`: in every sequence of calls, whatever the servers answer, the
two lists have no endpoint twice, the primary is the first of the redundant endpoints whenever one
is connected, and the number of redundant endpoints is what the postconditions of the function say.
No call loses an endpoint (`endpoints_kept`).

`Ready` has what Step 3 needs of the scans before it. A call moves endpoints between the lists, so
the two new lists together are a permutation of the old ones (`Ready.perm`).

The postconditions hold by an invariant across the calls (`Manager.WellFormed`): there are never
more than `redundancyLevel + 1` redundant endpoints, and the first of them is the primary.
-/

set_option autoImplicit false

namespace GeodeNative.Client.Redundancy

open Lib List Manager

variable {E : Type}

theorem backToFront_concat (list : List E) (p : E) : backToFront (list ++ [p]) = p :: list := by
  simp [backToFront]

/-! ### Ready for the new lists -/

section
variable [DecidableEq E] {level : Int} {call : Call E} {redundant nonredundant : List E}
  {l : Locals E}

/-- Where the primary is before Step 3. -/
inductive Found (init : Bool) (redundant : List E) (l : Locals E) : Prop
  /-- The first of the redundant endpoints that are left. -/
  | kept (p : E) (rest : List E) (connected : l.isPrimaryConnected = true)
    (primary : l.primary = some p) (back : l.isPrimaryAtBack = false)
    (converted : l.convertedPrimary = none)
    (left : removeEndpointsInOrder redundant l.tempNonredundantEndpoints = p :: rest)
  /-- The last of the new ones. -/
  | back (p : E) (rest : List E) (connected : l.isPrimaryConnected = true)
    (primary : l.primary = some p) (back : l.isPrimaryAtBack = true)
    (converted : l.convertedPrimary = none)
    (failed : l.tempNonredundantEndpoints = redundant)
    (new : l.tempRedundantEndpoints = rest ++ [p])
  /-- One of the new ones. -/
  | converted (p : E) (first : init = true) (connected : l.isPrimaryConnected = true)
    (primary : l.primary = some p) (back : l.isPrimaryAtBack = false)
    (converted : l.convertedPrimary = some p)
    (failed : l.tempNonredundantEndpoints = redundant) (new : p ∈ l.tempRedundantEndpoints)
  /-- There is none, and no redundant endpoint either. -/
  | none (connected : l.isPrimaryConnected = false) (converted : l.convertedPrimary = none)
    (failed : l.tempNonredundantEndpoints = redundant) (new : l.tempRedundantEndpoints = [])

/-- What Step 3 needs of the variables. -/
structure Ready (level : Int) (init : Bool) (redundant nonredundant : List E) (l : Locals E) :
    Prop where
  failed : l.tempNonredundantEndpoints.Sublist redundant
  new : l.tempRedundantEndpoints.Sublist nonredundant
  found : Found init redundant l
  satisfied : l.isRedundancySatisfied = true → l.isPrimaryConnected = true ∧
    (redundant.length + l.tempRedundantEndpoints.length : Int) =
      l.tempNonredundantEndpoints.length + (level + 1)
  unsatisfied : l.isRedundancySatisfied = false → 0 ≤ level →
    (redundant.length + l.tempRedundantEndpoints.length : Int) ≤
      l.tempNonredundantEndpoints.length + level

section
variable (hsat : l.isRedundancySatisfied = false)
  (hfailed : l.tempNonredundantEndpoints = redundant)
  (hnew : l.tempRedundantEndpoints.Sublist nonredundant)
  (hcount : 0 ≤ level → (l.tempRedundantEndpoints.length : Int) ≤ level)
include hsat hfailed hnew hcount

/-- No redundant endpoint is left, and there are not enough new ones. -/
theorem ready_of_new (hfound : Found call.init redundant l) :
    Ready level call.init redundant nonredundant l := by
  refine ⟨by rw [hfailed], hnew, hfound, by rw [hsat]; nofun, fun _ hlevel => ?_⟩
  rw [hfailed]
  omega

variable (hprimary : l.isPrimaryConnected = false) (hconverted : l.convertedPrimary = none)
include hprimary hconverted

theorem promoteNew_ready :
    Ready level call.init redundant nonredundant (promoteNew call.outcomes l) := by
  obtain heq | ⟨rest, p, hsub, heq⟩ := promoteNew_cases call.outcomes l <;> rw [heq]
  · exact ready_of_new hsat hfailed (nil_sublist _) id (.none hprimary hconverted hfailed rfl)
  · refine ready_of_new hsat hfailed (hsub.trans hnew) (fun hlevel => ?_)
      (.back p rest rfl rfl rfl hconverted hfailed rfl)
    exact Int.le_trans (Int.ofNat_le.mpr hsub.length_le) (hcount hlevel)

theorem choosePrimary_ready :
    Ready level call.init redundant nonredundant (choosePrimary call l) := by
  have hgo : (!l.isRedundancySatisfied && !l.isPrimaryConnected) = true := by
    rw [hsat, hprimary]
    rfl
  simp only [choosePrimary, hprimary, hsat, Bool.not_false, Bool.and_true]
  by_cases hinit : call.init = true
  · rw [if_pos hinit]
    obtain ⟨temp, hsub, h⟩ := convertOld_cases call.outcomes l
    have hcount' : 0 ≤ level → (temp.length : Int) ≤ level := fun hlevel =>
      Int.le_trans (Int.ofNat_le.mpr hsub.length_le) (hcount hlevel)
    obtain heq | ⟨p, hp, heq⟩ := h <;> rw [heq]
    · rw [if_pos hgo]
      exact promoteNew_ready hsat hfailed (hsub.trans hnew) hcount' hprimary hconverted
    · rw [Bool.not_true, Bool.and_false]
      exact ready_of_new hsat hfailed (hsub.trans hnew) hcount'
        (.converted p hinit rfl rfl rfl rfl hfailed hp)
  · rw [if_neg hinit, if_pos hgo]
    exact promoteNew_ready hsat hfailed hnew hcount hprimary hconverted

end

theorem Manager.ready_of_failed (m : Manager E) (call : Call E) (nonredundant : List E) :
    Ready m.redundancyLevel call.init m.redundantEndpoints nonredundant
      (choosePrimary call (scanNonredundant m.redundancyLevel call.outcomes call.init
        nonredundant.getLast? { m.locals with tempNonredundantEndpoints := m.redundantEndpoints }
        nonredundant)) := by
  obtain ⟨new, errors, ⟨hnew, heq, hcount⟩ | ⟨p, hnew, heq, hcount⟩⟩ :=
    scanNonredundant_promote m.redundancyLevel call.outcomes call.init nonredundant.getLast?
      { m.locals with tempNonredundantEndpoints := m.redundantEndpoints } rfl rfl nonredundant
  · rw [heq]
    refine choosePrimary_ready rfl rfl hnew (fun hlevel => ?_) rfl rfl
    have hle := hcount hlevel
    simpa [Locals.withErrors, locals] using hle
  · rw [heq, choosePrimary_connected rfl]
    refine ⟨List.Sublist.refl _, hnew, .back p new rfl rfl rfl rfl rfl rfl, fun _ => ⟨rfl, ?_⟩,
      nofun⟩
    dsimp only [Locals.withErrors, locals] at hcount ⊢
    simp only [nil_append, length_append, length_singleton]
    omega

variable {m : Manager E}

/-- The redundant endpoints have a primary `p`. All before it have failed, and `failed` behind
it. -/
theorem Manager.ready_of_kept (call : Call E) (nonredundant : List E)
    (hsize : 0 ≤ m.redundancyLevel → (m.redundantEndpoints.length : Int) ≤ m.redundancyLevel + 1)
    {front rest failed : List E} {p : E} {c : Nat} {b : Bool} {primary : Option E}
    (hsplit : m.redundantEndpoints = front ++ p :: rest) (hsub : failed.Sublist rest)
    (hp : p ∉ failed) (hprimary : primary = some p) (hle : c + failed.length ≤ rest.length)
    (htrue : b = true → (c : Int) = m.redundancyLevel)
    (hfalse : b = false → c + failed.length = rest.length ∧
      (0 ≤ m.redundancyLevel → (c : Int) < m.redundancyLevel ∨
        m.redundancyLevel = 0 ∧ front ≠ [])) :
    Ready m.redundancyLevel call.init m.redundantEndpoints nonredundant
      (choosePrimary call (scanNonredundant m.redundancyLevel call.outcomes call.init
        nonredundant.getLast?
        { m.locals with
          isPrimaryConnected := true
          isRedundancySatisfied := b
          secondaryCount := c
          tempNonredundantEndpoints := front ++ failed
          primary := primary } nonredundant)) := by
  have hlen : m.redundantEndpoints.length = front.length + (rest.length + 1) := by
    rw [hsplit, length_append, length_cons]
  have hfailed : (front ++ failed).Sublist m.redundantEndpoints := by
    rw [hsplit]
    exact (hsub.cons p).append_left front
  have hleft : removeEndpointsInOrder m.redundantEndpoints (front ++ failed) =
      p :: removeEndpointsInOrder rest failed := by
    rw [hsplit, removeEndpointsInOrder_append, removeEndpointsInOrder_cons hp]
  cases b with
  | true =>
    -- enough secondaries, so there is none that has failed
    have hc := htrue rfl
    have hle' := hsize (by omega)
    rw [scanNonredundant_satisfied _ _ _ _ rfl, choosePrimary_connected rfl]
    refine ⟨hfailed, nil_sublist _, .kept p _ rfl hprimary rfl rfl hleft,
      fun _ => ⟨rfl, ?_⟩, nofun⟩
    dsimp only [locals]
    rw [length_append, length_nil]
    omega
  | false =>
    obtain ⟨hall, hless⟩ := hfalse rfl
    obtain ⟨new, b, errors, hnew, heq, htrue', hfalse'⟩ :=
      scanNonredundant_secondaries m.redundancyLevel call.outcomes call.init
        nonredundant.getLast?
        { m.locals with
          isPrimaryConnected := true
          isRedundancySatisfied := false
          secondaryCount := c
          tempNonredundantEndpoints := front ++ failed
          primary := primary } rfl rfl nonredundant
    dsimp only at htrue' hfalse'
    have hcount : m.redundantEndpoints.length = (front ++ failed).length + (c + 1) := by
      rw [hlen, length_append]
      omega
    rw [heq, choosePrimary_connected rfl]
    refine ⟨hfailed, hnew, .kept p _ rfl hprimary rfl rfl hleft, fun hb => ⟨rfl, ?_⟩,
      fun hb hlevel => ?_⟩
    · have hlast := htrue' hb
      dsimp only [Locals.withErrors, locals]
      rw [nil_append]
      omega
    · have hle' := hsize hlevel
      have hc : (c : Int) < m.redundancyLevel := by
        refine (hless hlevel).resolve_right fun hzero => ?_
        have hpos := length_pos_iff.mpr hzero.2
        omega
      have hlast := hfalse' hb hc
      dsimp only [Locals.withErrors, locals]
      rw [nil_append]
      omega

/-- Steps 1 and 2, from lists that are in order. -/
theorem Manager.scan_ready (hnodup : m.redundantEndpoints.Nodup)
    (hsize : 0 ≤ m.redundancyLevel → (m.redundantEndpoints.length : Int) ≤ m.redundancyLevel + 1)
    (hknown : ∀ p, m.redundantEndpoints.head? = some p → m.primary = some p) (call : Call E) :
    Ready m.redundancyLevel call.init m.redundantEndpoints (m.scan call).2 (m.scan call).1 := by
  unfold scan
  dsimp only
  generalize hscan : scanRedundant m.redundancyLevel call.outcomes true m.locals
    m.redundantEndpoints = l
  generalize m.candidates call l = nonredundant
  obtain heq | ⟨front, p, rest, failed, c, b, hsplit, hsub, heq, hle, htrue, hfalse⟩ :=
    scanRedundant_cases m.redundancyLevel call.outcomes m.locals rfl rfl rfl rfl
      m.redundantEndpoints
  · obtain rfl := hscan.symm.trans heq
    exact m.ready_of_failed call nonredundant
  · obtain rfl := hscan.symm.trans heq
    have hp : p ∉ failed := by
      intro hmem
      rw [hsplit] at hnodup
      exact (nodup_cons.mp (nodup_append.mp hnodup).2.1).1 (hsub.subset hmem)
    have hprimary : (if front = [] then m.locals.primary else some p) = some p := by
      by_cases hfront : front = []
      · rw [if_pos hfront]
        exact hknown p (by rw [hsplit, hfront]; rfl)
      · rw [if_neg hfront]
    exact ready_of_kept call nonredundant hsize hsplit hsub hp hprimary hle htrue hfalse

/-! ### The new lists -/

/-- The new redundant endpoints, with the primary in front. -/
theorem Found.redundantEndpoints (h : Found call.init m.redundantEndpoints l)
    (nonredundant : List E) :
    (m.relist call l nonredundant).redundantEndpoints.Perm
        (removeEndpointsInOrder m.redundantEndpoints l.tempNonredundantEndpoints ++
          l.tempRedundantEndpoints) ∧
      if l.isPrimaryConnected then
        ∃ p, (m.relist call l nonredundant).redundantEndpoints.head? = some p ∧ l.primary = some p
      else (m.relist call l nonredundant).redundantEndpoints = [] := by
  unfold relist addEndpointsInOrder
  cases h with
  | kept p rest connected primary back converted left =>
    rw [connected, converted, back, left]
    exact ⟨.refl _, p, rfl, primary⟩
  | back p rest connected primary back converted failed new =>
    rw [connected, converted, back, failed, removeEndpointsInOrder_self, new]
    dsimp only
    rw [Bool.and_self, nil_append, backToFront_concat]
    exact ⟨(perm_append_singleton p rest).symm, p, rfl, primary⟩
  | converted p first connected primary back converted failed new =>
    rw [connected, converted, back, failed, removeEndpointsInOrder_self, first]
    dsimp only
    rw [Bool.not_false, Bool.and_self, if_pos rfl]
    rw [Bool.and_self, nil_append, moveEndpointToLast, backToFront_concat]
    exact ⟨(perm_cons_erase new).symm, p, rfl, primary⟩
  | none connected converted failed new =>
    rw [connected, converted, failed, removeEndpointsInOrder_self, new]
    exact ⟨.refl _, rfl⟩

/-- The two lists together are the same endpoints as before. -/
theorem Ready.perm (h : Ready level call.init m.redundantEndpoints nonredundant l) :
    ((m.relist call l nonredundant).redundantEndpoints ++
      (m.relist call l nonredundant).nonredundantEndpoints).Perm
      (m.redundantEndpoints ++ nonredundant) := by
  have hnon : (m.relist call l nonredundant).nonredundantEndpoints =
      removeEndpointsInOrder nonredundant l.tempRedundantEndpoints ++
        l.tempNonredundantEndpoints := rfl
  have hred := removeEndpointsInOrder_perm h.failed
  have hnonred := removeEndpointsInOrder_perm h.new
  rw [hnon]
  refine ((h.found.redundantEndpoints nonredundant).1.append_right _).trans ?_
  refine List.Perm.trans ?_ (hred.append hnonred)
  -- the endpoints that change the list only change places
  generalize removeEndpointsInOrder m.redundantEndpoints l.tempNonredundantEndpoints = r
  generalize removeEndpointsInOrder nonredundant l.tempRedundantEndpoints = n
  rw [append_assoc, append_assoc]
  refine List.Perm.append_left r ?_
  have hswap : (l.tempRedundantEndpoints ++ (n ++ l.tempNonredundantEndpoints)).Perm
      (n ++ l.tempNonredundantEndpoints ++ l.tempRedundantEndpoints) := perm_append_comm
  refine hswap.trans ?_
  rw [← append_assoc l.tempNonredundantEndpoints]
  exact (perm_append_comm.append_right l.tempRedundantEndpoints)

end

/-! ### Sequences of calls -/

theorem Manager.finish_eq (m : Manager E) (l : Locals E) :
    ∃ a b, (m.finish l).2 = { m with isAllEpDisCon := a, loggedRedundancyWarning := b } := by
  unfold finish
  split_ifs <;> exact ⟨_, _, rfl⟩

/-- `selectServers` finds no server twice, and none of those that are excluded. -/
def Call.Selects (call : Call E) : Prop :=
  ∀ howMany exclEndPts, (call.selectServers howMany exclEndPts).Nodup ∧
    ∀ ep ∈ call.selectServers howMany exclEndPts, ep ∉ exclEndPts

/-- The lists between two calls. -/
structure Manager.WellFormed (m : Manager E) : Prop where
  nodup : (m.redundantEndpoints ++ m.nonredundantEndpoints).Nodup
  size : 0 ≤ m.redundancyLevel → (m.redundantEndpoints.length : Int) ≤ m.redundancyLevel + 1
  first : ∀ p, m.redundantEndpoints.head? = some p → m.primary = some p

/-- The postconditions of a call that has ended with the variables `l`: no endpoint is in the lists
twice, the primary is the first of the redundant endpoints when one is connected, and there are as
many redundant endpoints as wanted, or fewer. -/
structure Maintained (l : Locals E) (m : Manager E) : Prop where
  nodup : (m.redundantEndpoints ++ m.nonredundantEndpoints).Nodup
  primary : l.isPrimaryConnected = true →
    ∃ p, m.redundantEndpoints.head? = some p ∧ m.primary = some p
  satisfied : l.isRedundancySatisfied = true → l.isPrimaryConnected = true ∧
    (m.redundantEndpoints.length : Int) = m.redundancyLevel + 1
  unsatisfied : l.isRedundancySatisfied = false → 0 ≤ m.redundancyLevel →
    (m.redundantEndpoints.length : Int) ≤ m.redundancyLevel

variable {call : Call E} {m : Manager E}

theorem Manager.WellFormed.candidates (h : m.WellFormed) (hcall : call.Selects) (l : Locals E) :
    (m.redundantEndpoints ++ m.candidates call l).Nodup := by
  unfold Manager.candidates
  split
  · obtain ⟨hnodup, hexcluded⟩ := hcall m.howMany m.redundantEndpoints
    exact nodup_append.mpr ⟨(nodup_append.mp h.nodup).1, hnodup,
      fun a ha b hb heq => hexcluded b hb (heq ▸ ha)⟩
  · exact h.nodup

variable [DecidableEq E]

theorem Ready.maintained {l : Locals E} {nonredundant : List E}
    (h : Ready m.redundancyLevel call.init m.redundantEndpoints nonredundant l)
    (hnodup : (m.redundantEndpoints ++ nonredundant).Nodup) :
    Maintained l (m.relist call l nonredundant) := by
  have hred := (removeEndpointsInOrder_perm h.failed).length_eq
  obtain ⟨hnew, hfirst⟩ := h.found.redundantEndpoints nonredundant
  have hlen := hnew.length_eq
  rw [length_append] at hred hlen
  have hlevel : (m.relist call l nonredundant).redundancyLevel = m.redundancyLevel := rfl
  constructor
  · exact h.perm.nodup_iff.mpr hnodup
  · intro hconn
    rwa [if_pos hconn] at hfirst
  · intro hsat
    obtain ⟨hconn, hcount⟩ := h.satisfied hsat
    exact ⟨hconn, by omega⟩
  · intro hsat hnonneg
    have hcount := h.unsatisfied hsat hnonneg
    omega

theorem Manager.WellFormed.maintained (h : m.WellFormed) (hcall : call.Selects) :
    Maintained (m.maintainRedundancyLevel call).1 (m.step call) := by
  have hready := scan_ready (nodup_append.mp h.nodup).1 h.size h.first call
  have hmaintained := hready.maintained (h.candidates hcall _)
  obtain ⟨a, b, hfinish⟩ :=
    (m.relist call (m.scan call).1 (m.scan call).2).finish_eq (m.scan call).1
  rw [step, maintainRedundancyLevel, hfinish]
  exact ⟨hmaintained.nodup, hmaintained.primary, hmaintained.satisfied, hmaintained.unsatisfied⟩

theorem Manager.WellFormed.step (h : m.WellFormed) (hcall : call.Selects) :
    (m.step call).WellFormed := by
  have hready := scan_ready (nodup_append.mp h.nodup).1 h.size h.first call
  have hmaintained := h.maintained hcall
  obtain ⟨a, b, hfinish⟩ :=
    (m.relist call (m.scan call).1 (m.scan call).2).finish_eq (m.scan call).1
  refine ⟨hmaintained.nodup, fun hlevel => ?_, fun p hp => ?_⟩
  · cases hsat : (m.maintainRedundancyLevel call).1.isRedundancySatisfied with
    | true => exact Int.le_of_eq (hmaintained.satisfied hsat).2
    | false =>
      have hle := hmaintained.unsatisfied hsat hlevel
      omega
  · cases hconn : (m.maintainRedundancyLevel call).1.isPrimaryConnected with
    | true =>
      obtain ⟨q, hq, hprimary⟩ := hmaintained.primary hconn
      rw [hprimary, ← hq, hp]
    | false =>
      -- without a primary there is no redundant endpoint
      have hempty := (hready.found.redundantEndpoints (m.scan call).2).2
      have hnot : (m.scan call).1.isPrimaryConnected = false := hconn
      rw [hnot] at hempty
      rw [Manager.step, Manager.maintainRedundancyLevel, hfinish] at hp
      rw [hempty] at hp
      cases hp

/-- In every sequence of calls, each call ends with its postconditions. -/
theorem maintainRedundancyLevel_wellFormed (m : Manager E) (hempty : m.redundantEndpoints = [])
    (hnodup : m.nonredundantEndpoints.Nodup) (calls : List (Call E))
    (hcalls : ∀ call ∈ calls, call.Selects) :
    Along Manager.step
      (fun m call => Maintained (m.maintainRedundancyLevel call).1 (m.step call)) m calls := by
  have hstart : m.WellFormed := by
    constructor
    · rw [hempty]
      exact hnodup
    · intro hlevel
      rw [hempty, length_nil]
      omega
    · intro p hp
      rw [hempty] at hp
      cases hp
  clear hempty hnodup
  induction calls generalizing m with
  | nil => trivial
  | cons call calls ih =>
    obtain ⟨hcall, hrest⟩ := forall_mem_cons.mp hcalls
    exact ⟨hstart.maintained hcall, ih (m.step call) hrest (hstart.step hcall)⟩

/-- In every sequence of calls, a call moves endpoints between the lists and loses none. -/
theorem endpoints_kept (m : Manager E) (h : m.WellFormed) (calls : List (Call E))
    (hcalls : ∀ call ∈ calls, call.Selects) :
    Along Manager.step (fun m call =>
      ((m.step call).redundantEndpoints ++ (m.step call).nonredundantEndpoints).Perm
        (m.redundantEndpoints ++ (m.scan call).2)) m calls := by
  induction calls generalizing m with
  | nil => trivial
  | cons call calls ih =>
    obtain ⟨hcall, hrest⟩ := forall_mem_cons.mp hcalls
    refine ⟨?_, ih (m.step call) (h.step hcall) hrest⟩
    have hready := scan_ready (nodup_append.mp h.nodup).1 h.size h.first call
    obtain ⟨a, b, hfinish⟩ :=
      (m.relist call (m.scan call).1 (m.scan call).2).finish_eq (m.scan call).1
    show ((m.step call).redundantEndpoints ++ _).Perm _
    rw [Manager.step, maintainRedundancyLevel, hfinish]
    exact hready.perm

/-- Three servers, and one secondary is wanted. -/
def threeServers : Manager Nat where
  redundancyLevel := 1
  pool := false
  locators := none
  servers := none
  redundantEndpoints := []
  nonredundantEndpoints := [0, 1, 2]
  isAllEpDisCon := false
  loggedRedundancyWarning := false
  primary := none

/-- A call where the servers `down` are not connected and all others agree. -/
def callWithout (init : Bool) (down : Nat → Bool) : Call Nat where
  init := init
  outcomes :=
    { connected := fun ep => !down ep
      makePrimary := fun ep => if down ep then .notCon else .noErr
      makeSecondary := fun ep => if down ep then .notCon else .noErr
      makePrimaryRequest := fun _ => .noErr
      getServerQueueStatus := fun _ => .nonRedundantServer }
  selectServers := fun _ _ => []

/-- The primary fails after the first call, and then all servers do. -/
theorem maintainRedundancyLevel_wellFormed_failover :
    Along Manager.step
      (fun m call => Maintained (m.maintainRedundancyLevel call).1 (m.step call)) threeServers
      [callWithout true fun _ => false, callWithout false fun ep => ep == 2,
        callWithout false fun _ => true] := by
  refine maintainRedundancyLevel_wellFormed threeServers rfl (by decide) _ ?_
  intro call hcall
  have hnone : call.selectServers = fun _ _ => [] := by
    simp only [mem_cons, not_mem_nil, or_false] at hcall
    rcases hcall with rfl | rfl | rfl <;> rfl
  rw [Call.Selects, hnone]
  exact fun _ _ => ⟨nodup_nil, nofun⟩

theorem endpoints_kept_failover :
    let m := threeServers.step (callWithout true fun _ => false)
    (m.redundantEndpoints ++ m.nonredundantEndpoints).Perm [0, 1, 2] :=
  (endpoints_kept threeServers ⟨by decide, by decide, by simp [threeServers]⟩ [callWithout true _]
    (by simp [Call.Selects, callWithout])).1

end GeodeNative.Client.Redundancy

import GeodeNative.Lib.Run
import GeodeNative.Query.CqService

/-!
# Closed queries stay closed

`CqService.Registered` is the invariant of the service: a CQ that is not closed is the one bound
under its name. `Kept` says what a call must not do: reopen a closed CQ, or lose the invariant.
Every call keeps both, except for an `execute` or `executeWithInitialResults` that the server
accepts on a closed CQ (`CqCall.Allowed`). Such a call sets the state to running, while the name of
the CQ is no longer in the map.

`closedStay_iff` is the exact condition over whole runs. `closedStay_fails` is a run that breaks it.
-/

set_option autoImplicit false

namespace GeodeNative.Query

open Lib CqService

namespace CqService

/-- The state that the CQ number `q` reports. -/
def stateOf (s : CqService) (q : Nat) : Option CqState := (s.cqs[q]?).map CqQueryImpl.cqState

/-- A CQ that is not closed is bound under its name. -/
def Registered (s : CqService) : Prop :=
  ∀ q cq, s.cqs[q]? = some cq → cq.cqState ≠ .closed → s.getCq cq.cqName = some q

variable {cq : CqQueryImpl} {q : Nat} {s : CqService}

theorem stateOf_eq_some (hq : s.cqs[q]? = some cq) : s.stateOf q = some cq.cqState := by
  rw [stateOf, hq, Option.map_some]

/-! ### One update -/

theorem getElem?_withState (s : CqService) (q : Nat) (state : CqState) (i : Nat) :
    (s.withState q state).cqs[i]? =
      if q = i then (s.cqs[i]?).map fun cq => { cq with cqState := state } else s.cqs[i]? := by
  rw [withState, List.getElem?_modify]
  split <;> simp

/-- What a call may do to the CQs: a closed CQ stays closed, and the invariant is kept. -/
structure Kept (s s' : CqService) : Prop where
  closed : ∀ q, s.stateOf q = some .closed → s'.stateOf q = some .closed
  registered : s.Registered → s'.Registered

@[refl] theorem Kept.refl (s : CqService) : Kept s s := ⟨fun _ h => h, id⟩

theorem Kept.trans {s s' s'' : CqService} (h : Kept s s') (h' : Kept s' s'') : Kept s s'' :=
  ⟨fun q hq => h'.closed q (h.closed q hq), fun hs => h'.registered (h.registered hs)⟩

/-- The state of an open CQ may change. -/
theorem kept_withState (hq : s.cqs[q]? = some cq) (hopen : cq.cqState ≠ .closed)
    (state : CqState) :
    Kept s (s.withState q state) where
  closed i hi := by
    by_cases hqi : q = i
    · subst hqi
      rw [stateOf_eq_some hq, Option.some.injEq] at hi
      exact absurd hi hopen
    · rwa [stateOf, getElem?_withState, if_neg hqi]
  registered hs i ci hi hci := by
    rw [getElem?_withState] at hi
    by_cases hqi : q = i
    · subst hqi
      rw [if_pos rfl, hq, Option.map_some, Option.some.injEq] at hi
      subst hi
      exact hs q cq hq hopen
    · rw [if_neg hqi] at hi
      exact hs i ci hi hci

/-- A closed CQ may leave the map, when it is the one bound under its name. -/
theorem kept_removeCq (hq : s.cqs[q]? = some cq) (hclosed : cq.cqState = .closed)
    (hbound : s.Registered → s.getCq cq.cqName = some q) :
    Kept s (s.removeCq cq.cqName) where
  closed _ hi := hi
  registered hs i ci hi hci := by
    have hreg : s.getCq ci.cqName = some i := hs i ci hi hci
    have hname : ci.cqName ≠ cq.cqName := by
      intro hname
      rw [hname, hbound hs, Option.some.injEq] at hreg
      subst hreg
      rw [show s.cqs[q]? = some ci from hi, Option.some.injEq] at hq
      rw [hq] at hci
      exact hci hclosed
    rw [getCq, removeCq, AList.lookup_erase_ne hname]
    exact hreg

/-! ### The calls -/

theorem isClosed_eq_false (h : ¬s.isClosed cq = true) :
    cq.cqState ≠ .closed ∧ s.isProxyClosed cq = false := by
  simpa [isClosed] using h

/-- `close` of an open CQ sets it to closed. It leaves the map, unless a listener throws. -/
theorem close_eq (hopen : ¬s.isClosed cq = true) (listenersThrow : Bool) :
    s.close q cq listenersThrow =
      if listenersThrow then (.error .listener, s.withState q .closed)
      else (.ok (), (s.withState q .closed).removeCq cq.cqName) := by
  have hproxy : s.isProxyClosed cq = false := (isClosed_eq_false hopen).2
  have hclosing : ¬(s.withState q .closing).isClosed { cq with cqState := .closing } = true := by
    have hsame : (s.withState q .closing).isProxyClosed { cq with cqState := .closing } =
        s.isProxyClosed cq := rfl
    simp [isClosed, hsame, hproxy]
  rw [close, if_neg hopen, setCqState, if_neg hopen]
  simp only [setCqState, if_neg hclosing]
  simp only [withState, List.modify_modify_eq]
  rfl

theorem kept_close (hq : s.cqs[q]? = some cq) (listenersThrow : Bool) :
    Kept s (s.close q cq listenersThrow).2 := by
  by_cases hclosed : s.isClosed cq = true
  · rw [close, if_pos hclosed]
  · have hopen : cq.cqState ≠ .closed := (isClosed_eq_false hclosed).1
    have hset : Kept s (s.withState q .closed) := kept_withState hq hopen .closed
    rw [close_eq hclosed]
    split
    · exact hset
    · have hq' : (s.withState q .closed).cqs[q]? = some { cq with cqState := .closed } := by
        rw [getElem?_withState, if_pos rfl, hq, Option.map_some]
      -- the map still binds the name to the CQ that is being closed
      refine ⟨fun i hi => hset.closed i hi, fun hs => ?_⟩
      exact (kept_removeCq hq' rfl fun _ => hs q cq hq hopen).registered (hset.registered hs)

theorem kept_stop (hq : s.cqs[q]? = some cq) (outcome : ServerOutcome) :
    Kept s (s.stop q cq outcome).2 := by
  unfold stop
  split
  · rfl
  · rename_i hclosed
    split
    · rfl
    · split
      · rfl
      · rw [setCqState, if_neg hclosed]
        exact kept_withState hq (isClosed_eq_false hclosed).1 .stopped

/-- A new CQ is bound under a name that was free. -/
theorem kept_newCq (s : CqService) (cqName queryString : String) (hasAttributes isDurable : Bool)
    (proxyCache : Option Nat) :
    Kept s (s.newCq cqName queryString hasAttributes isDurable proxyCache).2 := by
  unfold newCq
  split_ifs with _ _ _ _ _
  · rfl
  · rfl
  · rfl
  · rfl
  · rfl
  · by_cases hexists : (s.withNew ⟨cqName, .stopped, proxyCache⟩).isCqExists cqName = true
    · simp only [addToCqMap, addCq, if_pos hexists]
      rfl
    · simp only [addToCqMap, addCq, if_neg hexists]
      have hfree : s.cqQueryMap.lookup cqName = none := by
        simpa [isCqExists, getCq, withNew] using hexists
      constructor
      · intro q hq
        simp only [stateOf, withNew] at hq ⊢
        obtain ⟨cq, hcq, hst⟩ := Option.map_eq_some_iff.mp hq
        rw [List.getElem?_append_left (List.getElem?_eq_some_iff.mp hcq).1, hcq, Option.map_some,
          hst]
      · intro hs q cq hq hcq
        simp only [withNew, getCq] at hq ⊢
        rcases getElem?_concat_eq_some.mp hq with hold | ⟨rfl, rfl⟩
        · have hreg : s.cqQueryMap.lookup cq.cqName = some q := hs q cq hold hcq
          rw [AList.lookup_insert_ne, hreg]
          intro hname
          rw [hname, hfree] at hreg
          exact absurd hreg nofun
        · exact AList.lookup_insert _

theorem checkReply_cases (method method' : String) (outcome : ServerOutcome) :
    (outcome.accepted = true ∧ checkReply method method' outcome = .ok ()) ∨
      (outcome.accepted = false ∧ ∃ x, checkReply method method' outcome = .error x) := by
  cases outcome with
  | error err => exact .inr ⟨rfl, _, rfl⟩
  | exception err text =>
    refine .inr ⟨rfl, ?_⟩
    rw [checkReply]
    split
    · exact ⟨_, rfl⟩
    · exact ⟨_, rfl⟩
  | reply => exact .inl ⟨rfl, rfl⟩

/-- The call executes the CQ: its user cache is open, it does not run yet, and the server accepts
the request. -/
def Executes (s : CqService) (cq : CqQueryImpl) (outcome : ServerOutcome) : Prop :=
  s.isProxyClosed cq = false ∧ cq.cqState ≠ .running ∧ outcome.accepted = true

instance (s : CqService) (cq : CqQueryImpl) (outcome : ServerOutcome) :
    Decidable (s.Executes cq outcome) := inferInstanceAs (Decidable (_ ∧ _ ∧ _))

theorem snd_of_checks (s : CqService) (cq : CqQueryImpl) (outcome : ServerOutcome)
    {method method' : String} {x : CqException} {done : Except CqException Unit × CqService} :
    (show Except CqException Unit × CqService from
      match s.setProxyCache cq with
      | .error x => (.error x, s)
      | .ok _ =>
        if isRunning cq then (.error x, s)
        else
          match checkReply method method' outcome with
          | .error x => (.error x, s)
          | .ok _ => done).2 = if s.Executes cq outcome then done.2 else s := by
  unfold setProxyCache
  by_cases hproxy : s.isProxyClosed cq = true
  · have hnot : ¬s.Executes cq outcome := fun h => absurd hproxy (by rw [h.1]; decide)
    rw [if_pos hproxy, if_neg hnot]
  · rw [if_neg hproxy]
    by_cases hrunning : isRunning cq = true
    · have hnot : ¬s.Executes cq outcome := fun h => h.2.1 (by simpa [isRunning] using hrunning)
      rw [if_pos hrunning, if_neg hnot]
    · rw [if_neg hrunning]
      rcases checkReply_cases method method' outcome with ⟨hacc, hok⟩ | ⟨hacc, x, herr⟩
      · have hexec : s.Executes cq outcome :=
          ⟨by simpa using hproxy, by simpa [isRunning] using hrunning, hacc⟩
        rw [hok, if_pos hexec]
      · have hnot : ¬s.Executes cq outcome := fun h => absurd h.2.2 (by rw [hacc]; decide)
        rw [herr, if_neg hnot]

section
variable (s : CqService) (q : Nat) (cq : CqQueryImpl) (outcome : ServerOutcome)

theorem execute_snd :
    (s.execute q cq outcome).2 =
      if s.Executes cq outcome then s.withState q .running else s :=
  snd_of_checks s cq outcome

/-- `executeWithInitialResults` sets the CQ to running, or does nothing. The results are looked at
when the state is already set. -/
theorem executeWithInitialResults_snd (values fieldNames : Nat) :
    (s.executeWithInitialResults q cq outcome values fieldNames).2 =
      if s.Executes cq outcome then s.withState q .running else s := by
  refine (snd_of_checks s cq outcome).trans ?_
  rw [apply_ite Prod.snd, ite_self]

end

theorem kept_invokeCqListeners (listenersThrow : Nat → Bool) (s : CqService)
    (cqs : List (String × CqOperation)) : Kept s (s.invokeCqListeners listenersThrow cqs).2 := by
  induction cqs generalizing s with
  | nil => rfl
  | cons event rest ih =>
    obtain ⟨cqName, cqOp⟩ := event
    rw [invokeCqListeners]
    split
    · exact ih s
    · rename_i q _
      split
      · exact ih s
      · rename_i cq hq
        split
        · exact ih s
        · cases cqOp with
          | destroyRegion =>
            have hclose : Kept s (s.close q cq (listenersThrow q)).2 := kept_close hq _
            dsimp only
            generalize s.close q cq (listenersThrow q) = r at hclose
            split
            · exact hclose
            · exact hclose.trans (ih _)
          | other messageType =>
            dsimp only
            split
            · rfl
            · exact ih s

/-- A running CQ that is bound under its name is told the events for that name. -/
theorem mem_invokeCqListeners (hq : s.cqs[q]? = some cq) (hrunning : cq.cqState = .running)
    (hbound : s.getCq cq.cqName = some q) {cqs : List (String × CqOperation)}
    (hother : ∀ event ∈ cqs, event.2 ≠ .destroyRegion) :
    ∃ told, s.invokeCqListeners (fun _ => false) cqs = (.ok told, s) ∧
      (cq.cqName ∈ cqs.map Prod.fst → q ∈ told) := by
  induction cqs with
  | nil => exact ⟨[], rfl, nofun⟩
  | cons event rest ih =>
    obtain ⟨cqName, cqOp⟩ := event
    obtain ⟨hop, hrest⟩ := List.forall_mem_cons.mp hother
    obtain ⟨told, htold, hmem⟩ := ih hrest
    obtain ⟨messageType, rfl⟩ : ∃ messageType, cqOp = .other messageType := by
      cases cqOp with
      | destroyRegion => exact absurd rfl hop
      | other messageType => exact ⟨messageType, rfl⟩
    by_cases hname : cqName = cq.cqName
    · subst hname
      refine ⟨q :: told, ?_, fun _ => List.mem_cons_self⟩
      simp [invokeCqListeners, hbound, hq, isRunning, hrunning, htold, Except.map]
    · have hskip : cq.cqName ∈ ((cqName, CqOperation.other messageType) :: rest).map Prod.fst →
          q ∈ told := by
        intro h
        rw [List.map_cons, List.mem_cons] at h
        exact hmem (h.resolve_left (Ne.symm hname))
      rw [invokeCqListeners]
      split
      · exact ⟨told, htold, hskip⟩
      · rename_i q' _
        split
        · exact ⟨told, htold, hskip⟩
        · split
          · exact ⟨told, htold, hskip⟩
          · refine ⟨q' :: told, ?_, fun h => List.mem_cons_of_mem _ (hskip h)⟩
            simp [htold, Except.map]

end CqService

/-! ### Runs -/

/-- The call does not execute a closed CQ. An `execute` on a closed CQ is allowed when it fails:
when its user cache is closed or the server does not accept the request. -/
def CqCall.Allowed (s : CqService) : CqCall → Prop
  | execute q outcome | executeWithInitialResults q outcome _ _ =>
    ∀ cq, s.cqs[q]? = some cq → s.Executes cq outcome → cq.cqState ≠ .closed
  | _ => True

instance (s : CqService) (call : CqCall) : Decidable (call.Allowed s) :=
  match call with
  | .execute q outcome | .executeWithInitialResults q outcome _ _ =>
    inferInstanceAs (Decidable (∀ cq, s.cqs[q]? = some cq → s.Executes cq outcome →
      cq.cqState ≠ .closed))
  | .newCq .. | .stop .. | .close .. | .event .. | .closeProxyCache .. => isTrue trivial

variable {call : CqQueryImpl → Except CqException Unit × CqService} {s : CqService}

section
variable {q : Nat} {outcome : ServerOutcome}
  (hcall : ∀ cq, (call cq).2 = if s.Executes cq outcome then s.withState q .running else s)
include hcall

/-- An `execute` of either kind keeps the CQs when it does not execute a closed one. -/
theorem CqService.kept_onCq_execute
    (hallowed : ∀ cq, s.cqs[q]? = some cq → s.Executes cq outcome → cq.cqState ≠ .closed) :
    Kept s (s.onCq q call) := by
  unfold onCq
  split
  · rfl
  · rename_i cq hq
    rw [hcall cq]
    split
    · rename_i hexec
      exact kept_withState hq (hallowed cq hq hexec) .running
    · rfl

theorem CqService.reopens_onCq_execute
    (hnot : ¬∀ cq, s.cqs[q]? = some cq → s.Executes cq outcome → cq.cqState ≠ .closed) :
    s.stateOf q = some .closed ∧ (s.onCq q call).stateOf q = some .running := by
  simp only [not_forall, not_not] at hnot
  obtain ⟨cq, hq, hexec, hclosed⟩ := hnot
  rw [stateOf_eq_some hq, hclosed, onCq, hq]
  dsimp only
  rw [hcall cq, if_pos hexec]
  refine ⟨rfl, ?_⟩
  rw [stateOf, getElem?_withState, if_pos rfl, hq]
  rfl

end

theorem CqCall.kept_step {call : CqCall} (hallowed : call.Allowed s) : s.Kept (call.step s) := by
  cases call with
  | newCq cqName queryString hasAttributes isDurable proxyCache =>
    exact s.kept_newCq cqName queryString hasAttributes isDurable proxyCache
  | execute q outcome =>
    exact kept_onCq_execute (fun cq => s.execute_snd q cq outcome) hallowed
  | executeWithInitialResults q outcome values fieldNames =>
    exact kept_onCq_execute
      (fun cq => s.executeWithInitialResults_snd q cq outcome values fieldNames) hallowed
  | stop q outcome =>
    rw [step, onCq]
    split
    · rfl
    · rename_i cq hq
      exact kept_stop hq outcome
  | close q listenersThrow =>
    rw [step, onCq]
    split
    · rfl
    · rename_i cq hq
      exact kept_close hq listenersThrow
  | event cqs listenersThrow => exact s.kept_invokeCqListeners listenersThrow cqs
  | closeProxyCache proxy => exact ⟨fun _ h => h, id⟩

theorem CqCall.reopens_of_not_allowed {call : CqCall} (h : ¬call.Allowed s) :
    ∃ q, s.stateOf q = some .closed ∧ (call.step s).stateOf q = some .running := by
  cases call with
  | execute q outcome =>
    exact ⟨q, reopens_onCq_execute (fun cq => s.execute_snd q cq outcome) h⟩
  | executeWithInitialResults q outcome values fieldNames =>
    exact ⟨q, reopens_onCq_execute
      (fun cq => s.executeWithInitialResults_snd q cq outcome values fieldNames) h⟩
  | _ => exact absurd trivial h

/-- In the run over `calls`, a CQ whose state became closed reports no other state later, and a
running CQ is the one registered under its name, so that the events for its name are delivered to
it. -/
structure ClosedStay (s : CqService) (calls : List CqCall) : Prop where
  closed : ∀ early late, early <+: late → late <+: calls → ∀ q,
    (run CqCall.step s early).stateOf q = some .closed →
    (run CqCall.step s late).stateOf q = some .closed
  registered : ∀ pre, pre <+: calls → ∀ q cq, (run CqCall.step s pre).cqs[q]? = some cq →
    cq.cqState = .running → (run CqCall.step s pre).getCq cq.cqName = some q
  delivered : ∀ pre, pre <+: calls → ∀ q cq, (run CqCall.step s pre).cqs[q]? = some cq →
    cq.cqState = .running → ∀ cqs, (∀ event ∈ cqs, event.2 ≠ .destroyRegion) →
    cq.cqName ∈ cqs.map Prod.fst →
    ∃ told, (run CqCall.step s pre).invokeCqListeners (fun _ => false) cqs =
      (.ok told, run CqCall.step s pre) ∧ q ∈ told

/-- Allowed calls keep closed CQs closed over a whole run. -/
theorem kept_run {calls : List CqCall}
    (h : Along CqCall.step (fun s call => call.Allowed s) s calls) :
    s.Kept (run CqCall.step s calls) := by
  induction calls generalizing s with
  | nil => rfl
  | cons call calls ih => exact (CqCall.kept_step h.1).trans (ih h.2)

/-- Closed CQs stay closed and running CQs are registered exactly when no call of the run executes a
closed CQ with success. -/
theorem closedStay_iff (subscriptionEnabled : Bool) (durableClientId : String)
    (calls : List CqCall) :
    ClosedStay (CqService.init subscriptionEnabled durableClientId) calls ↔
      Along CqCall.step (fun s call => call.Allowed s)
        (CqService.init subscriptionEnabled durableClientId) calls := by
  constructor
  · intro h
    rw [along_iff]
    intro pre call post hcalls
    by_contra hnot
    obtain ⟨q, hclosed, hrunning⟩ := CqCall.reopens_of_not_allowed hnot
    have hlate : pre ++ [call] <+: calls := ⟨post, by simp [hcalls]⟩
    have hstay := h.closed pre (pre ++ [call]) (List.prefix_append pre [call]) hlate q hclosed
    rw [run_append, run_cons, run_nil, hrunning] at hstay
    exact absurd hstay (by decide)
  · intro h
    have hpre : ∀ pre, pre <+: calls →
        (run CqCall.step (init subscriptionEnabled durableClientId) pre).Registered := by
      rintro pre ⟨post, rfl⟩
      exact (kept_run ((along_append _ _ _ _).mp h).1).registered
        fun q cq hq => by simp [init] at hq
    refine ⟨?_, ?_, ?_⟩
    · rintro early late ⟨between, rfl⟩ ⟨post, rfl⟩ q hq
      rw [along_append, along_append] at h
      rw [run_append]
      exact (kept_run h.1.2).closed q hq
    · intro pre hprefix q cq hq hrunning
      exact hpre pre hprefix q cq hq (by rw [hrunning]; decide)
    · intro pre hprefix q cq hq hrunning cqs hother hname
      have hbound := hpre pre hprefix q cq hq (by rw [hrunning]; decide)
      obtain ⟨told, htold, hmem⟩ := mem_invokeCqListeners hq hrunning hbound hother
      exact ⟨told, htold, hmem hname⟩

/-- A name can be used again after `close`, by a new CQ that is then executed. -/
theorem closedStay_reused_name :
    ClosedStay (CqService.init true "") [.newCq "q" "select * from /r" true false none,
      .execute 0 .reply, .event [("q", .destroyRegion)] fun _ => false,
      .newCq "q" "select * from /r" true false none, .execute 1 .reply] :=
  (closedStay_iff true "" _).mpr (by decide)

/-- A CQ that is closed and executed again runs, and the map does not know it. -/
theorem closedStay_fails :
    ¬ClosedStay (CqService.init true "") [.newCq "q" "select * from /r" true false none,
      .execute 0 .reply, .close 0 false, .execute 0 .reply] := by
  intro h
  have hrunning := h.closed
    [.newCq "q" "select * from /r" true false none, .execute 0 .reply, .close 0 false]
    [.newCq "q" "select * from /r" true false none, .execute 0 .reply, .close 0 false,
      .execute 0 .reply] ⟨[.execute 0 .reply], rfl⟩ (List.prefix_refl _) 0 (by decide)
  exact absurd hrunning (by decide)

end GeodeNative.Query

import GeodeNative.Client.ThinClientPoolRequest

/-!
# How often a request is sent again

`sendSyncRequest` makes `n + 1` turns for `n` retry attempts, and more turns when a server answers
that an authentication is required. Its condition is
`retryAllEPsOnce || retry-- || (isAuthRequireExcep && isAuthRequireExcepMaxTry >= 0)`. The counter
goes on below zero when the last part holds in the turn in which `retry` is zero, and then it is
never zero again: from there on only a reply, or an error that is not tried again, ends the loop.

What a turn does depends on the turn and on the error of the turn before (`verdict`). So the state
before each turn is known from the turns alone (`Before`), and so are the turn in which the call
ends (`EndsAt`) and what it returns then (`Returns`). With -1 every server is tried once: the call
goes on while a turn excludes a server that no earlier turn excluded. `retriesBounded_iff` is the
exact condition on the turns.

`sendSyncRequest` also counts the operations in progress. It increments `m_clientOps` first and
decrements it behind the loop and at two of the returns inside. `balanced_iff` states that the
count is balanced exactly when the call does not end with one of the other returns.
-/

set_option autoImplicit false

namespace GeodeNative.Client.Pool

open Lib

variable {E : Type}

/-- What a turn does with the call: it ends the call, it is followed by one more because an
authentication is required, or it fails and a failover is attempted. -/
inductive Verdict where
  | stops
  | reauthenticates
  | fails
  deriving DecidableEq

/-- The error that an attempt leaves for the next turn. -/
def Attempt.error : Attempt E → GfErrType
  | .returns error _ => error
  | .allConnectionsInUse => .allConnectionsInUseException
  | .tried _ _ error => error

/-- The attempt sent the request. -/
def Attempt.sent : Attempt E → Bool
  | .returns _ sent => sent
  | .allConnectionsInUse => false
  | .tried _ sent _ => sent

/-- The request is not sent again after a timeout. -/
def Call.givesUp (c : Call) (before : GfErrType) : Bool :=
  c.type.returnsOnTimeout && before = .timOut

/-- What a turn does after a turn with the error `before`. -/
def verdict (c : Call) (before : GfErrType) (t : Turn E) : Verdict :=
  if c.givesUp before then .stops
  else
    match attempt c t with
    | .returns _ _ => .stops
    | .allConnectionsInUse => .stops
    | .tried _ _ error =>
      if error = .noErr && c.isSecure && t.authRequired then .reauthenticates
      else if !c.attemptFailover || error = .noErr then .stops
      else .fails

/-- The turn sends the request. -/
def sendsIn (c : Call) (before : GfErrType) (t : Turn E) : Bool :=
  !c.givesUp before && (attempt c t).sent

/-- The turn returns from inside the loop for one of these reasons: a timeout of a request that is
not sent again, a user without credentials, a timeout of the queue, or an exception of the server
to the credentials. -/
def leavesCount (c : Call) (before : GfErrType) (t : Turn E) : Bool :=
  c.givesUp before || (c.isMultiUserMode && c.isUserInitiativeOps && !t.userAttr) ||
  t.queueErr = .clientWaitTimeout || t.queueErr = .clientWaitTimeoutRefreshPRMetadata ||
  (t.conn.isSome && c.isUserInitiativeOps && c.isSecure && t.isServerException)

/-- The servers that a turn excludes: those that the lookup could not connect to, and the one that
failed. -/
def excludedIn [DecidableEq E] (c : Call) (t : Turn E) : Finset E :=
  match attempt c t with
  | .tried ep _ error => exclude t.unreachable ep error
  | _ => ∅

/-! ## The turns of a call -/

section Turns
variable (c : Call) (turns : Nat → Turn E)

/-- The error before turn `i`, when no earlier turn ended the call. -/
def errorBefore : Nat → GfErrType
  | 0 => .notCon
  | i + 1 => (attempt c (turns i)).error

def verdictAt (i : Nat) : Verdict := verdict c (errorBefore c turns i) (turns i)

/-- Turn `i` returns without a decrement of `m_clientOps`. -/
def LeavesAt (i : Nat) : Prop := leavesCount c (errorBefore c turns i) (turns i) = true

instance (i : Nat) : Decidable (LeavesAt c turns i) := inferInstanceAs (Decidable (_ = true))

/-- The number of sends before turn `i`. -/
def sendCount (i : Nat) : Nat :=
  Nat.count (fun j => sendsIn c (errorBefore c turns j) (turns j) = true) i

theorem sendCount_succ (i : Nat) :
    sendCount c turns (i + 1) =
      sendCount c turns i + (sendsIn c (errorBefore c turns i) (turns i)).toNat := by
  unfold sendCount
  rw [Nat.count_succ]
  cases sendsIn c (errorBefore c turns i) (turns i) <;> rfl

theorem sendCount_le (i : Nat) : sendCount c turns i ≤ i := Nat.count_le _

/-- The number of turns before turn `i` after which an authentication is required. -/
def reauthentications (i : Nat) : Nat :=
  Nat.count (fun j => verdictAt c turns j = .reauthenticates) i

/-- The condition of the loop holds before turn `n + 1`, in which `retry` is zero. -/
def ExtraTurn (n : Nat) : Prop :=
  verdictAt c turns n = .reauthenticates ∧ reauthentications c turns (n + 1) ≤ 2

instance (n : Nat) : Decidable (ExtraTurn c turns n) := inferInstanceAs (Decidable (_ ∧ _))

/-- The loop is over before turn `i`: its condition fails. -/
def RunsOut (i : Nat) : Prop :=
  ∃ n : Nat, c.retryAttempts = n ∧ i = n + 1 ∧ ¬ExtraTurn c turns n

variable [DecidableEq E]

/-- An earlier turn excluded the server. -/
def ExcludedBefore (i : Nat) (ep : E) : Prop := ∃ j < i, ep ∈ excludedIn c (turns j)

/-- Turn `i` excludes a server that was not excluded before. -/
def ExcludesNew (i : Nat) : Prop := ∃ ep ∈ excludedIn c (turns i), ¬ExcludedBefore c turns i ep

/-- The call ends in turn `i`, or before it when its condition fails. -/
def EndsAt (i : Nat) : Prop :=
  RunsOut c turns i ∨ verdictAt c turns i = .stops ∨
    c.retryAttempts = -1 ∧ verdictAt c turns i = .fails ∧ ¬ExcludesNew c turns i

/-- The state before turn `i` of a call that started with `clientOps` other operations in
progress. -/
structure Before (clientOps : Int) (i : Nat) (st : State E) : Prop where
  error : st.error = errorBefore c turns i
  retry : c.retryAttempts ≠ -1 → st.retry = c.retryAttempts + 1 - i
  excluded : c.retryAttempts = -1 → ∀ ep, ep ∈ st.excludeServers ↔ ExcludedBefore c turns i ep
  auth : st.isAuthRequireExcep = true ↔ ∃ j, i = j + 1 ∧ verdictAt c turns j = .reauthenticates
  maxTry : st.isAuthRequireExcepMaxTry = 2 - reauthentications c turns i
  sends : st.sends = sendCount c turns i
  clientOps : st.clientOps = clientOps + 1

open Classical in
/-- What a call that ends in turn `i` returns, apart from the error. -/
structure Returns (clientOps : Int) (i : Nat) (r : Result) : Prop where
  sends : r.sends = if RunsOut c turns i then sendCount c turns i else sendCount c turns (i + 1)
  clientOps : r.clientOps =
    if ¬RunsOut c turns i ∧ LeavesAt c turns i then clientOps + 1 else clientOps

end Turns

/-! ## The body of the loop -/

section Body
variable (c : Call) (t : Turn E)

/-- An attempt returns without a decrement exactly for one of the reasons of `leavesCount`. -/
theorem attempt_returns_iff {before : GfErrType} (hgoes : c.givesUp before = false) :
    (∃ error sent, attempt c t = .returns error sent) ↔ leavesCount c before t = true := by
  unfold attempt leavesCount
  rw [hgoes]
  by_cases huser : (c.isMultiUserMode && c.isUserInitiativeOps && !t.userAttr) = true
  · simp [huser]
  rw [if_neg huser]
  by_cases hwait : t.queueErr = .clientWaitTimeout
  · simp [hwait]
  rw [if_neg hwait]
  by_cases hrefresh : t.queueErr = .clientWaitTimeoutRefreshPRMetadata
  · simp [hrefresh]
  rw [if_neg hrefresh]
  have hreasons : (false || (c.isMultiUserMode && c.isUserInitiativeOps && !t.userAttr) ||
      decide (t.queueErr = .clientWaitTimeout) ||
      decide (t.queueErr = .clientWaitTimeoutRefreshPRMetadata)) = false := by
    simp [huser, hwait, hrefresh]
  rw [hreasons]
  cases t.conn with
  | none =>
    dsimp only
    split <;> simp
  | some ep =>
    dsimp only [Option.isSome]
    split
    · next hasked => exact iff_of_true ⟨_, _, rfl⟩ hasked
    · next hasked => exact iff_of_false (by simp) hasked

variable {c t}

/-- A turn that leaves the count ends the call. -/
theorem verdict_of_leaves {before : GfErrType} (h : leavesCount c before t = true) :
    verdict c before t = .stops := by
  unfold verdict
  by_cases hgiveUp : c.givesUp before
  · exact if_pos hgiveUp
  · obtain ⟨error, sent, hattempt⟩ :=
      (attempt_returns_iff c t (Bool.eq_false_iff.mpr hgiveUp)).mpr h
    rw [if_neg hgiveUp, hattempt]

variable [DecidableEq E]

/-- The exclusions of a turn come on top of those before it. -/
theorem exclude_union (s : Finset E) (ep : Option E) (error : GfErrType) :
    exclude (s ∪ t.unreachable) ep error = s ∪ exclude t.unreachable ep error := by
  unfold exclude
  cases ep with
  | none => rfl
  | some ep =>
    dsimp only
    split
    · rfl
    · rw [Finset.union_insert]

/-- What the body of the loop does with the state, by the verdict. -/
theorem body_eq (c : Call) (t : Turn E) (st : State E) :
    ∃ error, body c t st =
      match verdict c st.error t with
      | .stops =>
        .inl ⟨error, st.sends + (sendsIn c st.error t).toNat,
          if leavesCount c st.error t then st.clientOps else st.clientOps - 1⟩
      | .reauthenticates =>
        .inr { st with
          error := (attempt c t).error
          excludeServers := st.excludeServers ∪ excludedIn c t
          isAuthRequireExcep := true
          isAuthRequireExcepMaxTry := st.isAuthRequireExcepMaxTry - 1
          sends := st.sends + (sendsIn c st.error t).toNat }
      | .fails =>
        if (st.excludeServers ∪ excludedIn c t).card = st.excludeServers.card &&
            c.retryAllEPsOnce then
          .inl ⟨error, st.sends + (sendsIn c st.error t).toNat, st.clientOps - 1⟩
        else
          .inr { st with
            error := (attempt c t).error
            excludeServers :=
              if (st.excludeServers ∪ excludedIn c t).card = st.excludeServers.card then ∅
              else st.excludeServers ∪ excludedIn c t
            isAuthRequireExcep := false
            sends := st.sends + (sendsIn c st.error t).toNat } := by
  unfold body verdict sendsIn
  by_cases hgiveUp : c.givesUp st.error
  · have hleaves : leavesCount c st.error t = true := by simp [leavesCount, hgiveUp]
    have hreturn := hgiveUp
    unfold Call.givesUp at hreturn
    rw [if_pos hreturn, if_pos hgiveUp, hgiveUp, hleaves]
    exact ⟨st.error, rfl⟩
  · have hreturn := hgiveUp
    unfold Call.givesUp at hreturn
    have hiff := attempt_returns_iff c t (Bool.eq_false_iff.mpr hgiveUp)
    have hcounts (hgoes : ∀ error sent, attempt c t ≠ .returns error sent) :
        leavesCount c st.error t = false := by
      rw [← Bool.not_eq_true, ← hiff]
      rintro ⟨error, sent, hreturns⟩
      exact hgoes error sent hreturns
    rw [if_neg hreturn, if_neg hgiveUp, Bool.eq_false_iff.mpr hgiveUp]
    unfold excludedIn
    cases hattempt : attempt c t with
    | returns error sent =>
      rw [hiff.mp ⟨error, sent, hattempt⟩]
      exact ⟨error, rfl⟩
    | allConnectionsInUse =>
      rw [hcounts (by simp [hattempt])]
      exact ⟨_, rfl⟩
    | tried ep sent error =>
      refine ⟨(finish error 0 0).error, ?_⟩
      dsimp only
      rw [exclude_union]
      by_cases hauth : (decide (error = .noErr) && c.isSecure && t.authRequired) = true
      · rw [if_pos hauth, if_pos hauth]
        rfl
      · rw [if_neg hauth, if_neg hauth]
        by_cases hlast : (!c.attemptFailover || decide (error = .noErr)) = true
        · -- the call is over, with the same error by a break and by a return
          rw [if_pos hlast, if_pos hlast, ite_self, hcounts (by simp [hattempt])]
          rfl
        · rw [if_neg hlast, if_neg hlast]
          rfl

end Body

/-! ## The run of a call -/

section Run
variable [DecidableEq E] {c : Call} {turns : Nat → Turn E} {clientOps : Int} {i : Nat}
  {st : State E}

theorem before_initial : Before c turns clientOps 0 (initial c clientOps) where
  error := rfl
  retry _ := by simp [initial]
  excluded _ ep := by simp [initial, ExcludedBefore]
  auth := by simp [initial]
  maxTry := by simp [initial, reauthentications]
  sends := by simp [initial, sendCount]
  clientOps := rfl

/-- The state in which the body of the loop runs: `retry` is decremented unless every server is
tried once. -/
def entered (c : Call) (st : State E) : State E :=
  if c.retryAllEPsOnce then st else { st with retry := st.retry - 1 }

section
variable (h : Before c turns clientOps i st)
include h

/-- The condition of the loop changes `retry` alone. -/
theorem Before.entered :
    (entered c st).error = errorBefore c turns i ∧
      (entered c st).excludeServers = st.excludeServers ∧
      (entered c st).isAuthRequireExcepMaxTry = st.isAuthRequireExcepMaxTry ∧
      (entered c st).sends = sendCount c turns i ∧ (entered c st).clientOps = clientOps + 1 := by
  unfold Pool.entered
  split <;> exact ⟨h.error, rfl, rfl, h.sends, h.clientOps⟩

/-- The condition of the loop: it fails exactly in turn `n + 1`, when `retry` is zero and there is
no extra turn. -/
theorem turn_eq :
    (RunsOut c turns i ∧ turn c turns i st = .inl (finish st.error st.sends st.clientOps)) ∨
      (¬RunsOut c turns i ∧ turn c turns i st = body c (turns i) (entered c st)) := by
  unfold turn entered
  by_cases hall : c.retryAllEPsOnce = true
  · refine .inr ⟨?_, by rw [if_pos hall, if_pos hall]⟩
    rintro ⟨n, hn, -⟩
    have hminus : c.retryAttempts = -1 := of_decide_eq_true hall
    omega
  · have hretry := h.retry fun hminus => hall (decide_eq_true hminus)
    rw [if_neg hall, if_neg hall]
    by_cases hzero : st.retry = 0
    · -- turn `n + 1`: the last part of the condition decides
      have hi : i ≠ 0 := by
        rintro rfl
        exact hall (decide_eq_true (by omega))
      obtain ⟨n, rfl⟩ := Nat.exists_eq_add_one_of_ne_zero hi
      have hn : c.retryAttempts = n := by omega
      have hmax := h.maxTry
      have hcond : (st.isAuthRequireExcep && decide (0 ≤ st.isAuthRequireExcepMaxTry)) = true ↔
          ExtraTurn c turns n := by
        rw [Bool.and_eq_true, decide_eq_true_eq, h.auth]
        constructor
        · rintro ⟨⟨j, hj, hauth⟩, hle⟩
          cases hj
          exact ⟨hauth, by omega⟩
        · rintro ⟨hauth, hcount⟩
          exact ⟨⟨n, rfl, hauth⟩, by omega⟩
      have hout : RunsOut c turns (n + 1) ↔ ¬ExtraTurn c turns n := by
        constructor
        · rintro ⟨n', -, hn', hnot⟩
          cases hn'
          exact hnot
        · exact fun hnot => ⟨n, hn, rfl, hnot⟩
      rw [if_neg (not_not.mpr hzero)]
      by_cases hextra : ExtraTurn c turns n
      · exact .inr ⟨fun hx => hout.mp hx hextra, if_pos (hcond.mpr hextra)⟩
      · exact .inl ⟨hout.mpr hextra, if_neg (mt hcond.mp hextra)⟩
    · refine .inr ⟨?_, if_pos hzero⟩
      rintro ⟨n, hn, rfl, -⟩
      omega

/-- A turn excludes no new server exactly when the set of the excluded ones keeps its size. -/
theorem card_excluded_iff (hminus : c.retryAttempts = -1) :
    (st.excludeServers ∪ excludedIn c (turns i)).card = st.excludeServers.card ↔
      ¬ExcludesNew c turns i := by
  constructor
  · rintro hcard ⟨ep, hep, hnew⟩
    have heq := Finset.eq_of_subset_of_card_le Finset.subset_union_left (Nat.le_of_eq hcard)
    refine hnew ((h.excluded hminus ep).mp ?_)
    rw [heq]
    exact Finset.mem_union_right _ hep
  · intro hnot
    rw [Finset.union_eq_left.mpr]
    intro ep hep
    rw [h.excluded hminus]
    by_contra hnew
    exact hnot ⟨ep, hep, hnew⟩

theorem mem_excluded_succ (hminus : c.retryAttempts = -1) (ep : E) :
    ep ∈ st.excludeServers ∪ excludedIn c (turns i) ↔ ExcludedBefore c turns (i + 1) ep := by
  rw [Finset.mem_union, h.excluded hminus]
  simp only [ExcludedBefore, Nat.lt_succ_iff_lt_or_eq, or_and_right, exists_or, exists_eq_left]

/-- A turn that does not end the call leads to the next one. -/
theorem before_succ (hends : ¬EndsAt c turns i) :
    ∃ st', turn c turns i st = .inr st' ∧ Before c turns clientOps (i + 1) st' := by
  obtain ⟨hout, -⟩ | ⟨-, hturn⟩ := turn_eq h
  · exact absurd (.inl hout) hends
  obtain ⟨error, hbody⟩ := body_eq c (turns i) (entered c st)
  obtain ⟨herror, hexcl, hmaxTry, hsends, hops⟩ := h.entered
  have hretry : c.retryAttempts ≠ -1 →
      (entered c st).retry = c.retryAttempts + 1 - (i + 1 : Nat) := by
    intro hne
    have hbefore := h.retry hne
    rw [entered, if_neg (by simpa [Call.retryAllEPsOnce] using hne)]
    dsimp only
    omega
  have hmax := h.maxTry
  rw [hturn, hbody, herror, hexcl, hsends, ← sendCount_succ]
  cases hv : verdict c (errorBefore c turns i) (turns i) with
  | stops => exact absurd (.inr (.inl hv)) hends
  | reauthenticates =>
    refine ⟨_, rfl, rfl, hretry, fun hminus ep => mem_excluded_succ h hminus ep,
      iff_of_true rfl ⟨i, rfl, hv⟩, ?_, rfl, hops⟩
    have hcount : reauthentications c turns (i + 1) = reauthentications c turns i + 1 := by
      unfold reauthentications
      rw [Nat.count_succ, if_pos (show verdictAt c turns i = .reauthenticates from hv)]
    dsimp only
    omega
  | fails =>
    have hnot : ¬verdictAt c turns i = .reauthenticates := by
      rw [verdictAt, hv]
      nofun
    have hcount : reauthentications c turns (i + 1) = reauthentications c turns i := by
      unfold reauthentications
      rw [Nat.count_succ, if_neg hnot, Nat.add_zero]
    -- with -1 the set of the excluded servers has grown
    have hgrown : c.retryAttempts = -1 →
        ¬(st.excludeServers ∪ excludedIn c (turns i)).card = st.excludeServers.card := by
      intro hminus hcard
      exact hends (.inr (.inr ⟨hminus, hv, (card_excluded_iff h hminus).mp hcard⟩))
    have hno : ¬((st.excludeServers ∪ excludedIn c (turns i)).card = st.excludeServers.card &&
        c.retryAllEPsOnce) = true := by
      rw [Bool.and_eq_true, decide_eq_true_eq, Call.retryAllEPsOnce, decide_eq_true_eq]
      exact fun hboth => hgrown hboth.2 hboth.1
    rw [if_neg hno]
    refine ⟨_, rfl, rfl, hretry, fun hminus ep => ?_, iff_of_false Bool.false_ne_true ?_, ?_, rfl,
      hops⟩
    · rw [if_neg (hgrown hminus)]
      exact mem_excluded_succ h hminus ep
    · rintro ⟨j, hj, hauth⟩
      cases hj
      exact hnot hauth
    · dsimp only
      omega

/-- A turn that ends the call returns what `Returns` says. -/
theorem returns_of_ends (hends : EndsAt c turns i) :
    ∃ r, turn c turns i st = .inl r ∧ Returns c turns clientOps i r := by
  obtain ⟨hout, hturn⟩ | ⟨hin, hturn⟩ := turn_eq h
  · refine ⟨_, hturn, ?_, ?_⟩
    · rw [if_pos hout]
      exact h.sends
    · rw [if_neg fun hx => hx.1 hout, h.clientOps]
      exact Int.add_sub_cancel clientOps 1
  · obtain ⟨error, hbody⟩ := body_eq c (turns i) (entered c st)
    obtain ⟨herror, hexcl, -, hsends, hops⟩ := h.entered
    rw [hturn, hbody, herror, hexcl, hsends, hops, ← sendCount_succ, Int.add_sub_cancel]
    obtain hstops | ⟨hminus, hfails, hold⟩ := hends.resolve_left hin
    · rw [verdictAt] at hstops
      rw [hstops]
      refine ⟨_, rfl, (if_neg hin).symm, ?_⟩
      simp only [hin, not_false_eq_true, true_and, LeavesAt]
    · have hcounts : ¬LeavesAt c turns i := by
        intro hleaves
        have hstops := verdict_of_leaves hleaves
        rw [verdictAt, hstops] at hfails
        cases hfails
      rw [verdictAt] at hfails
      rw [hfails]
      rw [decide_eq_true ((card_excluded_iff h hminus).mpr hold), Call.retryAllEPsOnce,
        decide_eq_true hminus, Bool.and_self, if_pos rfl]
      refine ⟨_, rfl, (if_neg hin).symm, ?_⟩
      rw [if_neg fun hx => hcounts hx.2]

end

theorem turns_call (c : Call) (turns : Nat → Turn E) (clientOps : Int) :
    Turns (turn c turns) (Before c turns clientOps) (EndsAt c turns) (Returns c turns clientOps)
      where
  goesOn _ _ h hends := before_succ h hends
  ends _ _ h hends := returns_of_ends h hends

/-- The call returns exactly when a turn ends it. -/
theorem sendSyncRequest_returns_iff (c : Call) (turns : Nat → Turn E) (clientOps : Int) :
    (∃ fuel r, sendSyncRequest c turns clientOps fuel = some r) ↔ ∃ j, EndsAt c turns j :=
  loop_ends_iff (turns_call c turns clientOps) before_initial

end Run

/-! ## A bounded number of retries -/

section Bounded
variable [DecidableEq E] (c : Call) (turns : Nat → Turn E)

/-- The call returns, after at most `n + 4` sends when there are `n ≥ 0` retry attempts. -/
def RetriesBounded : Prop :=
  ∀ clientOps, ∃ fuel r, sendSyncRequest c turns clientOps fuel = some r ∧
    (0 ≤ c.retryAttempts → (r.sends : Int) ≤ c.retryAttempts + 4)

omit [DecidableEq E] in
/-- With `n ≥ 0` retry attempts: no turn is made after the first `n + 1` ones, or a turn ends the
call before there are more than `n + 4` sends. -/
def StopsInTime (n : Nat) : Prop :=
  ¬ExtraTurn c turns n ∨
    ∃ j, verdictAt c turns j = .stops ∧ sendCount c turns (j + 1) ≤ n + 4

/-- The call goes on after turn `i`: an authentication is required, or the turn fails and excludes a
server that no earlier turn excluded. -/
def GoesOnAt (i : Nat) : Prop :=
  verdictAt c turns i = .reauthenticates ∨ verdictAt c turns i = .fails ∧ ExcludesNew c turns i

/-- From some turn on, each reply says that an authentication is required, and no earlier turn ends
the call. -/
def Endless : Prop :=
  ∃ i, (∀ j, i ≤ j → verdictAt c turns j = .reauthenticates) ∧ ∀ j < i, GoesOnAt c turns j

variable {c turns} {n : Nat}

theorem retriesBounded_counted_iff (hn : c.retryAttempts = n) :
    RetriesBounded c turns ↔ StopsInTime c turns n := by
  have hout : ∀ i, RunsOut c turns i ↔ i = n + 1 ∧ ¬ExtraTurn c turns n := by
    intro i
    constructor
    · rintro ⟨n', hn', rfl, hnot⟩
      obtain rfl : n' = n := by omega
      exact ⟨rfl, hnot⟩
    · rintro ⟨hi, hnot⟩
      exact ⟨n, hn, hi, hnot⟩
  have hstopsAt : ∀ i, EndsAt c turns i → ¬RunsOut c turns i → verdictAt c turns i = .stops := by
    intro i hends hin
    exact (hends.resolve_left hin).resolve_right fun hminus => by omega
  constructor
  · intro h
    obtain ⟨fuel, r, hloop, hbound⟩ := h 0
    have hsends : r.sends ≤ n + 4 := by
      omega
    obtain ⟨j, -, hends, -, hresult⟩ := loop_result (turns_call c turns 0) before_initial hloop
    by_cases hextra : ExtraTurn c turns n
    · have hin : ¬RunsOut c turns j := fun hx => ((hout j).mp hx).2 hextra
      refine .inr ⟨j, hstopsAt j hends hin, ?_⟩
      have hcount := hresult.sends
      rw [if_neg hin] at hcount
      rw [← hcount]
      exact hsends
    · exact .inl hextra
  · intro h clientOps
    have hex : ∃ j, EndsAt c turns j := by
      obtain hextra | ⟨j, hstops, -⟩ := h
      · exact ⟨n + 1, .inl ((hout _).mpr ⟨rfl, hextra⟩)⟩
      · exact ⟨j, .inr (.inl hstops)⟩
    obtain ⟨fuel, r, hloop⟩ := (sendSyncRequest_returns_iff c turns clientOps).mpr hex
    refine ⟨fuel, r, hloop, fun _ => ?_⟩
    obtain ⟨k, -, hends, hfirst, hresult⟩ :=
      loop_result (turns_call c turns clientOps) before_initial hloop
    have hcount := hresult.sends
    have hbound : r.sends ≤ n + 4 := by
      by_cases hrunsOut : RunsOut c turns k
      · -- the loop ends before turn `n + 1`
        rw [if_pos hrunsOut] at hcount
        have hk := ((hout k).mp hrunsOut).1
        have hle := sendCount_le c turns k
        omega
      · rw [if_neg hrunsOut] at hcount
        obtain hnot | ⟨j, hstops, hj⟩ := h
        · -- turn `n + 1` would end the call, so the call ended before
          have hk : k ≤ n + 1 := by
            by_contra hk
            exact hfirst (n + 1) (Nat.zero_le _) (by omega) (.inl ((hout _).mpr ⟨rfl, hnot⟩))
          have hle := sendCount_le c turns (k + 1)
          omega
        · have hkj : k ≤ j := by
            by_contra hk
            exact hfirst j (Nat.zero_le _) (by omega) (.inr (.inl hstops))
          have hle : sendCount c turns (k + 1) ≤ sendCount c turns (j + 1) :=
            Nat.count_monotone _ (Nat.succ_le_succ hkj)
          omega
    omega

/-- With -1 the call ends in the first turn that does not go on. -/
theorem endsAt_iff_not_goesOn (hminus : c.retryAttempts = -1) (i : Nat) :
    EndsAt c turns i ↔ ¬GoesOnAt c turns i := by
  have hin : ¬RunsOut c turns i := by
    rintro ⟨n, hn, -⟩
    omega
  unfold EndsAt GoesOnAt
  cases verdictAt c turns i <;> simp [hin, hminus]

/-- The servers of the turns: those of the connections, and those that the lookups exclude. -/
def ServersIn (turns : Nat → Turn E) (servers : Finset E) : Prop :=
  ∀ i, (∀ ep ∈ (turns i).conn, ep ∈ servers) ∧ (turns i).unreachable ⊆ servers

omit [DecidableEq E] in
theorem conn_of_tried {t : Turn E} {ep : E} {sent : Bool} {error : GfErrType}
    (h : attempt c t = .tried (some ep) sent error) : t.conn = some ep := by
  unfold attempt at h
  split at h
  · cases h
  · split at h
    · cases h
    · split at h
      · cases h
      · cases hconn : t.conn with
        | none =>
          rw [hconn] at h
          dsimp only at h
          split at h <;> cases h
        | some ep' =>
          rw [hconn] at h
          dsimp only at h
          split at h
          · cases h
          · rw [(Attempt.tried.inj h).1]

theorem excludedIn_subset {servers : Finset E} (hservers : ServersIn turns servers) (i : Nat) :
    excludedIn c (turns i) ⊆ servers := by
  unfold excludedIn
  split
  · next ep sent error hattempt =>
    unfold exclude
    cases ep with
    | none => exact (hservers i).2
    | some ep =>
      dsimp only
      split
      · exact (hservers i).2
      · exact Finset.insert_subset ((hservers i).1 ep (conn_of_tried hattempt)) (hservers i).2
  · exact Finset.empty_subset _

/-- A call that never ends is answered forever that an authentication is required, because there are
finitely many servers to exclude. -/
theorem endless_iff {servers : Finset E} (hservers : ServersIn turns servers) :
    Endless c turns ↔ ∀ i, GoesOnAt c turns i := by
  constructor
  · rintro ⟨i, hauth, hearlier⟩ j
    obtain hlt | hle := Nat.lt_or_ge j i
    · exact hearlier j hlt
    · exact .inl (hauth j hle)
  · intro h
    have hnew : ∀ j, verdictAt c turns j ≠ .reauthenticates → ExcludesNew c turns j :=
      fun j hj => ((h j).resolve_left hj).2
    choose new hmem hfresh using hnew
    -- the turns that fail exclude different servers
    have hinjective : Function.Injective fun j : {j // verdictAt c turns j ≠ .reauthenticates} =>
        (⟨new j j.2, excludedIn_subset hservers j (hmem j j.2)⟩ : servers) := by
      rintro ⟨j, hj⟩ ⟨k, hk⟩ heq
      have hsame : new j hj = new k hk := congrArg Subtype.val heq
      -- the later one of two exclusions of a server is not new
      obtain hlt | rfl | hlt := Nat.lt_trichotomy j k
      · exact absurd ⟨j, hlt, hsame ▸ hmem j hj⟩ (hfresh k hk)
      · rfl
      · exact absurd ⟨k, hlt, hsame ▸ hmem k hk⟩ (hfresh j hj)
    have hfinite : {j | verdictAt c turns j ≠ .reauthenticates}.Finite :=
      Set.finite_coe_iff.mp (Finite.of_injective _ hinjective)
    obtain ⟨i, hi⟩ := hfinite.bddAbove
    refine ⟨i + 1, fun j hj => ?_, fun j _ => h j⟩
    by_contra hnot
    have := hi hnot
    omega

end Bounded

/-- A put with `n` retry attempts through a pool with security. -/
def securePut (n : Int) : Call where
  retryAttempts := n
  type := .other
  attemptFailover := true
  isMultiUserMode := false
  isSecurityOn := true
  isUserInitiativeOps := true

/-- A turn with a connection to server `ep`, with the error of the send and the kind of the
reply. -/
def connected (ep : Nat) (error : GfErrType) (authRequired : Bool) : Turn Nat where
  userAttr := false
  queueErr := .noErr
  conn := some ep
  unreachable := ∅
  userCredMsgErr := .noErr
  isServerException := false
  error := error
  authRequired := authRequired

section Balanced
variable [DecidableEq E]

/-- Whenever the call returns, the count is what it was before. -/
def Balanced (c : Call) (turns : Nat → Turn E) : Prop :=
  ∀ clientOps fuel r, sendSyncRequest c turns clientOps fuel = some r → r.clientOps = clientOps

/-- The count is balanced exactly when no turn that the call makes returns for a reason of
`leavesCount`. The call makes turn `i` when it does not end in an earlier turn and the condition of
the loop holds. -/
theorem balanced_iff (c : Call) (turns : Nat → Turn E) :
    Balanced c turns ↔ ∀ i, (∀ j < i, ¬EndsAt c turns j) → ¬RunsOut c turns i →
      ¬LeavesAt c turns i := by
  constructor
  · intro h i hmade hin hleaves
    have hends : EndsAt c turns i := .inr (.inl (verdict_of_leaves hleaves))
    obtain ⟨r, hloop⟩ := loop_of_ends (turns_call c turns 0) before_initial (Nat.zero_le i) hends
    obtain ⟨j, -, hj, hfirst, hresult⟩ := loop_result (turns_call c turns 0) before_initial hloop
    obtain rfl : j = i := by
      obtain hlt | heq | hlt := Nat.lt_trichotomy j i
      · exact absurd hj (hmade j hlt)
      · exact heq
      · exact absurd hends (hfirst i (Nat.zero_le i) hlt)
    have hcount := hresult.clientOps
    rw [if_pos ⟨hin, hleaves⟩, h 0 _ r hloop] at hcount
    exact absurd hcount (by decide)
  · intro h clientOps fuel r hloop
    obtain ⟨j, -, -, hfirst, hresult⟩ :=
      loop_result (turns_call c turns clientOps) before_initial hloop
    rw [hresult.clientOps, if_neg]
    rintro ⟨hin, hleaves⟩
    exact h j (fun k hk => hfirst k (Nat.zero_le k) hk) hin hleaves

end Balanced

/-- A request of a user without credentials. -/
theorem not_balanced_unauthorized :
    sendSyncRequest ⟨0, .other, true, true, false, true⟩
      (fun _ => (⟨false, .noErr, some 1, ∅, .noErr, false, .noErr, false⟩ : Turn Nat)) 0 1 =
      some ⟨.notAuthorizedException, 0, 1⟩ := rfl

end GeodeNative.Client.Pool

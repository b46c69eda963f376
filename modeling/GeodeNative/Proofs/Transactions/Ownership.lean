import GeodeNative.Lib.Run
import GeodeNative.Transactions.CacheTransactionManager

/-!
# Every transaction has one owner

A transaction is owned by a thread or by `m_suspendedTXs`. The slot of a thread does not show this:
in `suspend` the transaction is given away by `addSuspendedTx`, and the slot is cleared afterwards;
in `resume` it is taken by `removeSuspendedTx`, and the slot is set afterwards. `Role` is what a
thread has to do with a transaction, and `Owned` says that the owners are unique and that `m_TXs`
has exactly the transactions that are held. Each step of the manager is a change of roles that
keeps it, unless `resume` finds no connection: then the slot is cleared and nobody owns the
transaction any more.

`Consistent` is what can be seen in the three places.

- When no thread is in the middle of `suspend` or `resume`, the slots show the owners. So the places
  are consistent then, in every run in which each resumed transaction gets a connection.
- At every moment they are consistent exactly in the runs in which no transaction is suspended,
  because a transaction that is being suspended is in the slot and in `m_suspendedTXs`.

With two phases, a completion without a connection leaves the transaction in the slot
(`completions_end_iff`).
-/

set_option autoImplicit false

namespace GeodeNative.Transactions

open Lib Manager Function

/-- What a thread has to do with a transaction. -/
inductive Role where
  | none
  /-- The thread owns the transaction, which is in `m_TXs`. -/
  | holds (id : Nat)
  /-- The thread owns the transaction, which is not yet or no more in `m_TXs`. -/
  | outside (id : Nat)
  /-- The thread cleans up once more after the transaction. -/
  | cleans (id : Nat)
  deriving DecidableEq

/-- The thread owns the transaction. -/
def Role.Owns (r : Role) (id : Nat) : Prop := r = .holds id ∨ r = .outside id

def Thread.role : Thread → Role
  | .idle (some id) => .holds id
  | .idle Option.none => .none
  | .adding id => .outside id
  | .suspending _ => .none
  | .waiting _ => .none
  | .waited _ => .none
  | .resuming id _ => .holds id
  | .connecting id _ => .holds id
  | .removing id _ => .holds id
  | .clearing id _ => .outside id
  | .removingAgain id => .cleans id
  | .clearingAgain _ => .none

section Roles
variable {T : Type}

/-- Each transaction of `m_TXs` has one owner. -/
structure Owned (ρ : T → Role) (txs : List Nat) (suspended : Finset Nat) : Prop where
  nodup : txs.Nodup
  unique : ∀ t u id, (ρ t).Owns id → (ρ u).Owns id → t = u
  apart : ∀ t id, (ρ t).Owns id → id ∉ suspended
  held : ∀ id, id ∈ txs ↔ id ∈ suspended ∨ ∃ t, ρ t = .holds id
  cleaned : ∀ t id, ρ t = .cleans id → id ∉ txs ∧ ∀ u, ¬(ρ u).Owns id

variable [DecidableEq T] {ρ : T → Role} {txs : List Nat} {suspended : Finset Nat} {id : Nat} {t : T}

/-- Who holds a transaction after one thread has got the role `r`. -/
theorem exists_holds_update (r : Role) (id' : Nat) :
    (∃ u, update ρ t r u = .holds id') ↔
      r = .holds id' ∨ ∃ u, u ≠ t ∧ ρ u = .holds id' :=
  exists_update_iff ρ fun _ r => r = .holds id'

attribute [local grind =] update_apply Role.Owns

section
variable (h : Owned ρ txs suspended)
include h

/-- `begin` makes a transaction with an id that is not in use. -/
theorem Owned.begin (ht : ρ t = .none) (htxs : id ∉ txs)
    (hρ : ∀ u, ¬(ρ u).Owns id ∧ ρ u ≠ .cleans id) :
    Owned (update ρ t (.outside id)) txs suspended := by
  obtain ⟨hnodup, hunique, hapart, hheld, hcleaned⟩ := h
  refine ⟨hnodup, by grind, by grind, fun _ => ?_, by grind⟩
  rw [exists_holds_update]
  grind

/-- `addTx` -/
theorem Owned.add (ht : ρ t = .outside id) :
    Owned (update ρ t (.holds id)) (txs ++ [id]) suspended := by
  obtain ⟨hnodup, hunique, hapart, hheld, hcleaned⟩ := h
  refine ⟨by grind, by grind, by grind, fun _ => ?_, by grind⟩
  rw [exists_holds_update]
  grind

/-- `addSuspendedTx` -/
theorem Owned.suspend (ht : ρ t = .holds id) :
    Owned (update ρ t .none) txs (insert id suspended) := by
  obtain ⟨hnodup, hunique, hapart, hheld, hcleaned⟩ := h
  refine ⟨hnodup, by grind, by grind, fun _ => ?_, by grind⟩
  rw [exists_holds_update]
  grind

/-- `removeSuspendedTx` -/
theorem Owned.resume (ht : ρ t = .none) (hid : id ∈ suspended) :
    Owned (update ρ t (.holds id)) txs (suspended.erase id) := by
  obtain ⟨hnodup, hunique, hapart, hheld, hcleaned⟩ := h
  refine ⟨hnodup, by grind, by grind, fun _ => ?_, by grind⟩
  rw [exists_holds_update]
  grind

/-- `removeTx` -/
theorem Owned.remove (ht : ρ t = .holds id) :
    Owned (update ρ t (.outside id)) (txs.erase id) suspended := by
  obtain ⟨hnodup, hunique, hapart, hheld, hcleaned⟩ := h
  refine ⟨hnodup.erase id, by grind, by grind, fun _ => ?_, by grind⟩
  rw [exists_holds_update]
  grind

/-- The slot is cleared after `removeTx`. -/
theorem Owned.clear (ht : ρ t = .outside id) {r : Role} (hr : r = .none ∨ r = .cleans id) :
    Owned (update ρ t r) txs suspended := by
  obtain ⟨hnodup, hunique, hapart, hheld, hcleaned⟩ := h
  refine ⟨hnodup, by grind, by grind, fun _ => ?_, by grind⟩
  rw [exists_holds_update]
  grind

/-- The second `removeTx` finds nothing. -/
theorem Owned.removeAgain (ht : ρ t = .cleans id) :
    Owned (update ρ t .none) (txs.erase id) suspended := by
  rw [List.erase_of_not_mem (h.cleaned t id ht).1]
  obtain ⟨hnodup, hunique, hapart, hheld, hcleaned⟩ := h
  refine ⟨hnodup, by grind, by grind, fun _ => ?_, by grind⟩
  rw [exists_holds_update]
  grind

end

end Roles

/-! ## The owners of a state -/

/-- The thread has changed one of the two places of a transaction that is suspended or resumed, and
not yet the other one. -/
def Thread.betweenMaps : Thread → Bool
  | .suspending _ | .resuming _ _ => true
  | _ => false

/-- Otherwise the slot shows what the thread owns. -/
theorem Thread.slot_eq_iff_owns {thread : Thread} (h : thread.betweenMaps = false) (id : Nat) :
    thread.slot = some id ↔ thread.role.Owns id := by
  cases thread with
  | idle active => cases active <;> simp [slot, role, Role.Owns]
  | suspending => nomatch h
  | resuming => nomatch h
  | _ => simp [slot, role, Role.Owns]

section States
variable {T : Type} {s : Manager T}

def Manager.roles (s : Manager T) (t : T) : Role := (s.threads t).role

/-- Every transaction has one owner, and no one that is neither committed nor rolled back is
lost. -/
structure Sound (s : Manager T) : Prop where
  owned : Owned s.roles s.txs s.suspendedTXs
  kept : ∀ id ∈ s.begun, id ∉ s.ended → id ∈ s.txs

theorem sound_initial : Sound (initial : Manager T) where
  owned := ⟨List.nodup_nil, by simp [roles, initial, Thread.role, Role.Owns],
    by simp [initial], by simp [roles, initial, Thread.role],
    by simp [roles, initial, Thread.role]⟩
  kept := by simp [initial]

/-- The thread is still at work on the transaction. -/
def Thread.Uses (thread : Thread) (id : Nat) : Prop :=
  thread.slot = some id ∨ thread = .removingAgain id

instance (thread : Thread) (id : Nat) : Decidable (thread.Uses id) :=
  inferInstanceAs (Decidable (_ ∨ _))

/-- A transaction that the step begins gets an id that is not in use. The ids repeat after `2 ^ 32`
transactions. -/
def BeginsFresh (s : Manager T) (e : T × Event) : Prop :=
  s.threads e.1 = .idle none → e.2 = .begin →
    s.nextId % 2 ^ 32 ∉ s.txs ∧ ∀ t, ¬(s.threads t).Uses (s.nextId % 2 ^ 32)

instance [Fintype T] (s : Manager T) (e : T × Event) : Decidable (BeginsFresh s e) :=
  inferInstanceAs (Decidable (_ → _ → _ ∧ ∀ _, _))

/-- The step is a `suspend` of an active transaction. -/
def Suspends (s : Manager T) (e : T × Event) : Prop :=
  (∃ id, s.threads e.1 = .idle (some id)) ∧ e.2 = .suspend true

/-- A resumed transaction gets no connection in the step. -/
def FailsToConnect (s : Manager T) (e : T × Event) : Prop :=
  (∃ id expiry, s.threads e.1 = .connecting id expiry) ∧ e.2 = .next false

/-- No thread has a role for an id that is not in use. -/
theorem role_of_not_uses {id : Nat} (h : Sound s) (hid : id ∉ s.txs) {t : T}
    (ht : ¬(s.threads t).Uses id) : ¬(s.roles t).Owns id ∧ s.roles t ≠ .cleans id := by
  have hheld : s.roles t ≠ .holds id := fun hr => hid ((h.owned.held id).mpr (.inr ⟨t, hr⟩))
  unfold roles at hheld ⊢
  unfold Thread.Uses at ht
  cases hthread : s.threads t with
  | idle active =>
    cases active <;> simp_all [Thread.role, Role.Owns]
  | _ => simp_all [Thread.role, Role.Owns, Thread.slot]

/-! ## What can be seen -/

/-- Each transaction of `m_TXs` is the active one of exactly one thread, or it is suspended, and no
transaction that was begun and has not ended is missing there. -/
structure Consistent (s : Manager T) : Prop where
  placed : ∀ id ∈ s.txs,
    ((∃! t, (s.threads t).slot = some id) ∧ id ∉ s.suspendedTXs) ∨
      ((∀ t, (s.threads t).slot ≠ some id) ∧ id ∈ s.suspendedTXs)
  kept : ∀ id ∈ s.begun, id ∉ s.ended → id ∈ s.txs

/-- The slots show the owners when no thread is between the two maps. -/
theorem Sound.consistent (h : Sound s) (hmaps : ∀ t, (s.threads t).betweenMaps = false) :
    Consistent s := by
  refine ⟨fun id hid => ?_, h.kept⟩
  have hslot (t : T) : (s.threads t).slot = some id ↔ (s.roles t).Owns id :=
    Thread.slot_eq_iff_owns (hmaps t) id
  by_cases hsusp : id ∈ s.suspendedTXs
  · right
    exact ⟨fun t ht => h.owned.apart t id ((hslot t).mp ht) hsusp, hsusp⟩
  · left
    obtain ⟨t, ht⟩ := ((h.owned.held id).mp hid).resolve_left hsusp
    have howns : (s.roles t).Owns id := .inl ht
    exact ⟨⟨t, (hslot t).mpr howns, fun u hu => h.owned.unique u t id ((hslot u).mp hu) howns⟩,
      hsusp⟩

/-- Nothing is suspended, and nothing is being suspended or resumed. -/
structure Unsuspended (s : Manager T) : Prop where
  suspended : s.suspendedTXs = ∅
  maps : ∀ t, (s.threads t).betweenMaps = false
  connecting : ∀ t id expiry, s.threads t ≠ .connecting id expiry

theorem unsuspended_initial : Unsuspended (initial : Manager T) where
  suspended := rfl
  maps _ := rfl
  connecting _ _ _ := nofun

end States

/-! ## What a step does -/

section Steps
variable {T : Type} [DecidableEq T] {s s' : Manager T} {e : T × Event}

/-- The steps of the manager by what they change. -/
inductive Moves (s : Manager T) (e : T × Event) : Manager T → Prop where
  | same : Moves s e s
  | begin (h : s.threads e.1 = .idle none) (he : e.2 = .begin) :
    Moves s e ({ s with nextId := s.nextId + 1 }.setThread e.1 (.adding (s.nextId % 2 ^ 32)))
  | add {id : Nat} (h : s.threads e.1 = .adding id) :
    Moves s e ((s.addTx id).setThread e.1 (.idle (some id)))
  | suspend {id : Nat} (h : s.threads e.1 = .idle (some id)) (he : e.2 = .suspend true) :
    Moves s e
      ({ s with suspendedTXs := insert id s.suspendedTXs }.setThread e.1 (.suspending id))
  | resume {id : Nat} {expiry : Bool} (h : (s.threads e.1).role = .none)
    (hid : id ∈ s.suspendedTXs) :
    Moves s e
      ({ s with suspendedTXs := s.suspendedTXs.erase id }.setThread e.1 (.resuming id expiry))
  | lose {id : Nat} {expiry : Bool} (h : s.threads e.1 = .connecting id expiry)
    (he : e.2 = .next false) : Moves s e (s.setThread e.1 (.idle none))
  | remove {id : Nat} {again : Bool} (h : s.threads e.1 = .removing id again) :
    Moves s e ((s.removeTx id).setThread e.1 (.clearing id again))
  | clear {id : Nat} {again : Bool} (h : s.threads e.1 = .clearing id again) :
    Moves s e (s.setThread e.1 (if again then .removingAgain id else .idle none))
  | removeAgain {id : Nat} (h : s.threads e.1 = .removingAgain id) :
    Moves s e ((s.removeTx id).setThread e.1 (.clearingAgain id))
  | keep {thread : Thread} (hrole : thread.role = (s.threads e.1).role)
    (hmaps : thread.betweenMaps = false)
    (hconn : ∀ id expiry, thread = .connecting id expiry → (s.threads e.1).betweenMaps = true) :
    Moves s e (s.setThread e.1 thread)

theorem moves_removeSuspendedTx {id : Nat} {expiry : Bool} (h : (s.threads e.1).role = .none) :
    Moves s e (s.removeSuspendedTx e.1 id (.resuming id expiry)) := by
  unfold removeSuspendedTx
  split
  case isTrue hid => exact .resume h hid
  case isFalse => exact .same

theorem moves_step (s : Manager T) (e : T × Event) : Moves s e (s.step e) := by
  simp only [step]
  -- one case for each line of the definition
  split
  case h_1 h he => exact .begin h he
  case h_2 h _ => exact .add h
  case h_3 h he => exact .suspend h he
  case h_4 h _ => exact .keep (by rw [h]; rfl) rfl nofun
  case h_5 h _ => exact moves_removeSuspendedTx (by rw [h]; rfl)
  case h_6 h _ => exact moves_removeSuspendedTx (by rw [h]; rfl)
  case h_7 h _ => exact moves_removeSuspendedTx (by rw [h]; rfl)
  case h_8 h _ =>
    split
    · exact .keep (by rw [h]; rfl) rfl nofun
    · exact .same
  case h_9 h _ =>
    split
    · exact moves_removeSuspendedTx (by rw [h]; rfl)
    · exact .keep (by rw [h]; rfl) rfl nofun
  case h_10 h _ =>
    split <;> exact .keep (by rw [h]; rfl) rfl nofun
  case h_11 h _ => exact .keep (by rw [h]; rfl) rfl fun _ _ _ => by rw [h]; rfl
  case h_12 id expiry connected h he =>
    cases connected with
    | true => cases expiry <;> exact .keep (by rw [h]; rfl) rfl nofun
    | false => exact .lose h he
  case h_13 h _ => exact .keep (by rw [h]; rfl) rfl nofun
  case h_14 h _ => exact .keep (by rw [h]; rfl) rfl nofun
  case h_15 h _ => exact .remove h
  case h_16 h _ => exact .clear h
  case h_17 h _ => exact .removeAgain h
  case h_18 h _ => exact .keep (by rw [h]; rfl) rfl nofun
  case h_19 => exact .same

/-! ## The owners over a run -/

theorem roles_setThread (t : T) (thread : Thread) :
    (s.setThread t thread).roles = update s.roles t thread.role := by
  funext u
  by_cases hut : u = t
  · simp [roles, hut]
  · simp [roles, hut]

theorem Sound.of_moves (h : Sound s) (hm : Moves s e s') (hfresh : BeginsFresh s e)
    (hconn : ¬FailsToConnect s e) : Sound s' := by
  -- `hrole` is the role of the thread before the step
  have hrole {thread : Thread} (ht : s.threads e.1 = thread) : s.roles e.1 = thread.role := by
    rw [← ht]
    rfl
  obtain ⟨howned, hkept⟩ := h
  cases hm with
  | same => exact ⟨howned, hkept⟩
  | begin ht he =>
    obtain ⟨htxs, huses⟩ := hfresh ht he
    refine ⟨?_, hkept⟩
    rw [roles_setThread]
    exact howned.begin (hrole ht) htxs fun u => role_of_not_uses ⟨howned, hkept⟩ htxs (huses u)
  | add ht =>
    refine ⟨?_, ?_⟩
    · rw [roles_setThread]
      exact howned.add (hrole ht)
    · simp only [setThread, addTx]
      grind
  | suspend ht he =>
    refine ⟨?_, hkept⟩
    rw [roles_setThread]
    exact howned.suspend (hrole ht)
  | resume ht hid =>
    refine ⟨?_, hkept⟩
    rw [roles_setThread]
    exact howned.resume ht hid
  | lose ht he => exact absurd ⟨⟨_, _, ht⟩, he⟩ hconn
  | remove ht =>
    refine ⟨?_, ?_⟩
    · rw [roles_setThread]
      exact howned.remove (hrole ht)
    · simp only [setThread, removeTx]
      grind
  | @clear id again ht =>
    refine ⟨?_, hkept⟩
    rw [roles_setThread]
    refine howned.clear (hrole ht) ?_
    cases again
    · exact .inl rfl
    · exact .inr rfl
  | removeAgain ht =>
    refine ⟨?_, ?_⟩
    · rw [roles_setThread]
      exact howned.removeAgain (hrole ht)
    · simp only [setThread, removeTx]
      grind
  | keep hsame _ _ =>
    refine ⟨?_, hkept⟩
    have heq : update s.roles e.1 (s.threads e.1).role = s.roles :=
      update_eq_self e.1 s.roles
    rw [roles_setThread, hsame, heq]
    exact howned

theorem Unsuspended.setThread (h : Unsuspended s) {t : T} {thread : Thread}
    (hmaps : thread.betweenMaps = false) (hconn : ∀ id expiry, thread ≠ .connecting id expiry) :
    Unsuspended (s.setThread t thread) := by
  refine ⟨h.suspended, fun u => ?_, fun u => ?_⟩
  all_goals by_cases hut : u = t
  · simpa [hut] using hmaps
  · simpa [hut] using h.maps u
  · simpa [hut] using hconn
  · simpa [hut] using h.connecting u

theorem Unsuspended.of_moves (h : Unsuspended s) (hm : Moves s e s') (hsusp : ¬Suspends s e) :
    Unsuspended s' := by
  have hremove (id : Nat) : Unsuspended (s.removeTx id) := ⟨h.suspended, h.maps, h.connecting⟩
  cases hm with
  | same => exact h
  | begin ht he =>
    have hnext : Unsuspended { s with nextId := s.nextId + 1 } :=
      ⟨h.suspended, h.maps, h.connecting⟩
    exact hnext.setThread rfl nofun
  | @add id ht =>
    have hadd : Unsuspended (s.addTx id) := ⟨h.suspended, h.maps, h.connecting⟩
    exact hadd.setThread rfl nofun
  | suspend ht he => exact absurd ⟨⟨_, ht⟩, he⟩ hsusp
  | resume ht hid =>
    rw [h.suspended] at hid
    nomatch hid
  | lose ht he => exact absurd ht (h.connecting _ _ _)
  | @remove id again ht => exact (hremove id).setThread rfl nofun
  | @clear id again ht => cases again <;> exact h.setThread rfl nofun
  | @removeAgain id ht => exact (hremove id).setThread rfl nofun
  | keep hrole hmaps hconn =>
    refine h.setThread hmaps fun id expiry hthread => ?_
    have hbetween := hconn id expiry hthread
    rw [h.maps] at hbetween
    nomatch hbetween

/-- A transaction that is being suspended is in the slot and in `m_suspendedTXs`. -/
theorem not_consistent_of_suspends (h : Sound s) (hsusp : Suspends s e) :
    ¬Consistent (s.step e) := by
  obtain ⟨t, event⟩ := e
  obtain ⟨⟨id, ht⟩, rfl⟩ := hsusp
  have hstep : s.step (t, .suspend true) =
      { s with suspendedTXs := insert id s.suspendedTXs }.setThread t (.suspending id) := by
    simp only [step, show s.threads t = .idle (some id) from ht]
  rw [hstep]
  intro hcons
  have hrole : s.roles t = .holds id := congrArg Thread.role ht
  have hid : id ∈ s.txs := (h.owned.held id).mpr (.inr ⟨t, hrole⟩)
  rcases hcons.placed id hid with ⟨-, hnot⟩ | ⟨hslot, -⟩
  · exact hnot (Finset.mem_insert_self id s.suspendedTXs)
  · exact hslot t (by rw [threads_setThread_self]; rfl)

/-- Every transaction of a run has one owner when every resumed transaction gets a connection. -/
theorem sound_run {l : List (T × Event)} (hfresh : Along step BeginsFresh .initial l)
    (hconn : Along step (fun s e => ¬FailsToConnect s e) .initial l) :
    Sound (run step (.initial : Manager T) l) := by
  exact run_invariant (fun s e h hP => h.of_moves (moves_step s e) hP.1 hP.2) sound_initial
    (hfresh.and hconn)

end Steps

namespace TwoPhase

/-- A commit or rollback that returns leaves no active transaction, so that the next `begin`
succeeds. -/
def EndsTransaction (slot : Option Bool) (call : Call) : Prop :=
  ∀ status o, call = .complete status o → (call.exec slot).1 = none →
    step slot call = none ∧ (begin (step slot call)).1 = none

/-- A commit or rollback finds the connection of a region operation, or there is no transaction. -/
def FindsDM (slot : Option Bool) (call : Call) : Prop :=
  ∀ status o, call = .complete status o → slot = none ∨ o.dm = true

/-- With a connection every path of a completion clears the slot. -/
theorem afterCompletion_slot {slot : Option Bool} {o : Outcome} (h : slot = none ∨ o.dm = true)
    (status : Status) : (afterCompletion slot status o).2 = none := by
  unfold afterCompletion
  cases slot with
  | none => rfl
  | some prepared =>
    have hdm : o.dm = true := h.resolve_left nofun
    simp only [hdm, Bool.not_true, Bool.false_eq_true, if_false]
    split
    · cases status <;> rfl
    · rfl

theorem endsTransaction_step (slot : Option Bool) (call : Call) :
    EndsTransaction slot call ↔ FindsDM slot call := by
  constructor
  · rintro h status o rfl
    by_contra hnot
    obtain ⟨hslot, hdm⟩ := not_or.mp hnot
    obtain ⟨prepared, rfl⟩ := Option.ne_none_iff_exists'.mp hslot
    -- without a connection the call returns before it creates a `TXCleaner`
    have hexec : (Call.complete status o).exec (some prepared) = (none, some prepared) := by
      simp [Call.exec, afterCompletion, hdm]
    have hends := (h status o rfl (congrArg Prod.fst hexec)).1
    rw [step, hexec] at hends
    cases hends
  · rintro h status o rfl -
    have hnone : step slot (.complete status o) = none :=
      afterCompletion_slot (h status o rfl) status
    rw [hnone]
    exact ⟨rfl, rfl⟩

/-- The completions of a history end their transactions exactly when each one finds a connection,
or no transaction. -/
theorem completions_end_iff (calls : List Call) :
    Along step EndsTransaction none calls ↔ Along step FindsDM none calls :=
  along_congr (I := fun _ => True) (fun slot call _ => endsTransaction_step slot call)
    (fun _ _ _ _ => trivial) trivial

/-- A transaction without a region operation is committed. The commit returns, and the next `begin`
throws. -/
theorem commit_leaves_transaction :
    let calls : List Call := [.begin, .complete .committed ⟨false, .failed⟩]
    ¬Along step EndsTransaction none calls ∧
      (begin (run step none calls)).1 = some "Transaction already in progress" := by
  intro calls
  refine ⟨fun h => ?_, rfl⟩
  cases (h.2.1 .committed ⟨false, .failed⟩ rfl rfl).1

end TwoPhase

end GeodeNative.Transactions

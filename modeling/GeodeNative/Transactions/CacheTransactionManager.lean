import Mathlib

/-!
# Transactions of several threads

The state of the transactions is in three places: each thread has a slot for its active transaction
(`TSSTXStateWrapper`), `m_TXs` has the ids of all transactions, and `m_suspendedTXs` has the
suspended ones. A call changes these places one after the other, and other threads run in between.
A step here is one such change, with the checks before it that only read the slot of the thread.

A `Thread` is where a thread is in its calls; `Thread.slot` is what its slot holds there. What a
call does not decide itself is part of the event: whether there is a thread-local connection,
whether a connection to the endpoint is found, whether the server commits, and whether a wait is
still in time.

`begun` and `ended` are not variables of the source. They are the ids that were added to `m_TXs`,
and those that a commit or a rollback, of whatever outcome, has removed since.
-/

set_option autoImplicit false

namespace GeodeNative.Transactions

/-- Where a thread is. -/
inductive Thread where
  /-- Between calls, with the active transaction. -/
  | idle (active : Option Nat)
  /-- In `begin`, before `addTx`. -/
  | adding (id : Nat)
  /-- In `suspend`, after `addSuspendedTx`. -/
  | suspending (id : Nat)
  /-- In `removeSuspendedTxUntil`, before `removeSuspendedTx`. -/
  | waiting (id : Nat)
  /-- In `removeSuspendedTxUntil`, after the wait and before the condition of the loop. -/
  | waited (id : Nat)
  /-- In `resume` or `tryResume`, after `removeSuspendedTx`. `expiry` says that the call is made by
  the expiry handler, which rolls back afterwards. -/
  | resuming (id : Nat) (expiry : Bool)
  /-- In `resumeTxUsingTxState`, after `setTXState`. -/
  | connecting (id : Nat) (expiry : Bool)
  /-- In `commit` or `rollback`, before `removeTx` of `TXCleaner::clean`. `again` says that the
  destructor cleans a second time, as it does after a commit that succeeds. -/
  | removing (id : Nat) (again : Bool)
  /-- In `TXCleaner::clean`, after `removeTx`. -/
  | clearing (id : Nat) (again : Bool)
  /-- Before and after `removeTx` of the second call of `clean`. -/
  | removingAgain (id : Nat)
  | clearingAgain (id : Nat)
  deriving DecidableEq, Repr

/-- The transaction in the slot of the thread. -/
def Thread.slot : Thread → Option Nat
  | .idle active => active
  | .adding id | .suspending id | .connecting id _ | .removing id _ | .clearing id _ => some id
  | .waiting _ | .waited _ | .resuming _ _ | .removingAgain _ | .clearingAgain _ => none

/-- A call, or the next step of the call that a thread is in. -/
inductive Event where
  | begin
  | suspend (connected : Bool)
  | resume (id : Nat)
  | tryResume (id : Nat)
  | tryResumeUntil (id : Nat)
  /-- `SuspendedTxExpiryHandler::handle_timeout` -/
  | expire (id : Nat)
  | commit (succeeds : Bool)
  | rollback
  | next (outcome : Bool)
  deriving DecidableEq, Repr

structure Manager (T : Type) where
  threads : T → Thread
  txs : List Nat
  suspendedTXs : Finset Nat
  /-- `TXId::m_transactionId`, which is an `int32_t`, without the wrap. -/
  nextId : Nat
  begun : Finset Nat
  ended : Finset Nat

namespace Manager
variable {T : Type} [DecidableEq T] (s : Manager T) (t : T)

def setThread (thread : Thread) : Manager T :=
  { s with threads := Function.update s.threads t thread }

variable {s t} in
@[simp] theorem threads_setThread_self {thread : Thread} :
    (s.setThread t thread).threads t = thread := Function.update_self ..

variable {s t} in
@[simp] theorem threads_setThread_of_ne {thread : Thread} {u : T} (h : u ≠ t) :
    (s.setThread t thread).threads u = s.threads u := Function.update_of_ne h ..

def addTx (id : Nat) : Manager T :=
  { s with txs := s.txs ++ [id], begun := insert id s.begun, ended := s.ended.erase id }

/-- `removeSuspendedTx`, and the state of the thread when there is one. -/
def removeSuspendedTx (id : Nat) (thread : Thread) : Manager T :=
  if id ∈ s.suspendedTXs then
    { s with suspendedTXs := s.suspendedTXs.erase id }.setThread t thread
  else s

def removeTx (id : Nat) : Manager T :=
  { s with txs := s.txs.erase id, ended := insert id s.ended }

def step (e : T × Event) : Manager T :=
  let t := e.1
  match s.threads t, e.2 with
  | .idle none, .begin =>
    { s with nextId := s.nextId + 1 }.setThread t (.adding (s.nextId % 2 ^ 32))
  | .adding id, .next _ => (s.addTx id).setThread t (.idle (some id))
  | .idle (some id), .suspend true =>
    { s with suspendedTXs := insert id s.suspendedTXs }.setThread t (.suspending id)
  | .suspending _, .next _ => s.setThread t (.idle none)
  | .idle none, .resume id => s.removeSuspendedTx t id (.resuming id false)
  | .idle none, .tryResume id => s.removeSuspendedTx t id (.resuming id false)
  | .idle none, .expire id => s.removeSuspendedTx t id (.resuming id true)
  | .idle none, .tryResumeUntil id => if id ∈ s.txs then s.setThread t (.waiting id) else s
  | .waiting id, .next _ =>
    if id ∈ s.suspendedTXs then s.removeSuspendedTx t id (.resuming id false)
    else s.setThread t (.waited id)
  | .waited id, .next inTime =>
    if id ∈ s.txs ∧ inTime then s.setThread t (.waiting id) else s.setThread t (.idle none)
  | .resuming id expiry, .next _ => s.setThread t (.connecting id expiry)
  | .connecting id expiry, .next connected =>
    if connected then s.setThread t (if expiry then .removing id false else .idle (some id))
    else s.setThread t (.idle none)
  | .idle (some id), .commit succeeds => s.setThread t (.removing id succeeds)
  | .idle (some id), .rollback => s.setThread t (.removing id false)
  | .removing id again, .next _ => (s.removeTx id).setThread t (.clearing id again)
  | .clearing id again, .next _ =>
    s.setThread t (if again then .removingAgain id else .idle none)
  | .removingAgain id, .next _ => (s.removeTx id).setThread t (.clearingAgain id)
  | .clearingAgain _, .next _ => s.setThread t (.idle none)
  -- a call that throws or returns at once, or an event that does not fit
  | _, _ => s

end Manager

/-- No transaction was begun. -/
def Manager.initial {T : Type} : Manager T := ⟨fun _ => .idle none, [], ∅, 1, ∅, ∅⟩

/-! ### Two phases

The calls of `InternalCacheTransactionManager2PCImpl`, on one thread, with the inherited `commit`
and `rollback`. The slot is the active transaction with `m_prepared`. A region operation does not
write it: it leaves the connection that `getDM` looks for. So whether `getDM` finds one is an
outcome of each call, as the reply of the server is.
-/

namespace TwoPhase

/-- What a request comes to: no reply, or one of some type. What is thrown when the commit message
of a `RESPONSE` is applied is `thrown`; there is nothing to apply after a rollback. -/
inductive Reply where
  | failed
  | reply
  | response (thrown : Option String)
  | exception
  | requestDataError
  | commitError
  | other
  deriving DecidableEq, Repr

structure Outcome where
  /-- `getDM` does not return null. -/
  dm : Bool
  reply : Reply
  deriving DecidableEq, Repr

/-- What a call throws, if anything, and the slot after it. -/
abbrev Result := Option String × Option Bool

/-- The end of a scope with a `TXCleaner`: whatever is thrown in it, the destructor clears the
slot. -/
def cleaned (thrown : Option String) : Result := (thrown, none)

def begin : Option Bool → Result
  | some prepared => ("Transaction already in progress", some prepared)
  | none => (none, some false)

def prepare (slot : Option Bool) (o : Outcome) : Result :=
  match slot with
  | none => ("Transaction is null, cannot prepare of a null transaction", none)
  | some prepared =>
    if !o.dm then (none, some prepared)
    else match o.reply with
      | .failed => ("Error while prepare", some prepared)
      | .reply => (none, some true)
      | _ => cleaned "Commit Failed in prepare"

/-- The inherited `commit`, all of it in the scope of its `TXCleaner`. -/
def Outcome.commit (o : Outcome) : Result :=
  cleaned (if !o.dm then none
    else match o.reply with
      | .failed => "Error while committing"
      | .response thrown => thrown
      | _ => "Commit Failed")

/-- The inherited `rollback`. It has a `TXCleaner` as well, and it takes any reply. -/
def Outcome.rollback (o : Outcome) : Result :=
  cleaned (if o.dm ∧ o.reply = .failed then "Error while committing" else none)

inductive Status where
  | committed
  | rolledBack
  deriving DecidableEq, Repr

def afterCompletion (slot : Option Bool) (status : Status) (o : Outcome) : Result :=
  match slot with
  | none => ("Transaction is null, cannot commit a null transaction", none)
  | some prepared =>
    if !o.dm then (none, some prepared)
    else if !prepared then
      match status with
      | .committed => o.commit
      | .rolledBack => o.rollback
    else cleaned (match o.reply with
      | .failed => "Error in 2PC commit"
      | .response thrown => thrown
      | _ => "2PC Commit Failed")

/-- `commit` and `rollback` are `afterCompletion` with their status. -/
inductive Call where
  | begin
  | prepare (o : Outcome)
  | complete (status : Status) (o : Outcome)
  deriving DecidableEq, Repr

def Call.exec (slot : Option Bool) : Call → Result
  | .begin => TwoPhase.begin slot
  | .prepare o => TwoPhase.prepare slot o
  | .complete status o => afterCompletion slot status o

def step (slot : Option Bool) (call : Call) : Option Bool := (call.exec slot).2

end TwoPhase

end GeodeNative.Transactions

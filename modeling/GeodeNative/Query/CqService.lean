import Mathlib

/-!
# Continuous queries and their service

The model of `CqQueryImpl` (`CqQueryImpl.cpp`) and of the map of `CqService` (`CqService.cpp`). A CQ
is an object that `newCq` makes. The service binds the name of a CQ to it, and `invokeCqListeners`
finds the CQ of an event through that map. `close` takes the name out of the map again. The
application keeps its pointer to the CQ after that.

The state of a CQ is written in two ways. `setCqState` throws for a closed CQ. `executeCq` and
`executeWithInitialResults` set the field `m_cqState` themselves.

A CQ is named by its number in the list of the CQs that the service has made. The outcome of a
request to the server is an argument. The statistics, the log lines and the result sets of the
initial results are left out; of the results only their sizes matter, because a mismatch throws.
-/

set_option autoImplicit false

namespace GeodeNative.Query

/-- `CqState::StateType`, without `INVALID`, which no CQ is set to. -/
inductive CqState where
  | stopped
  | running
  | closed
  | closing
  deriving DecidableEq, Repr

/-- The exceptions of the calls, with their messages. `server` is an error code that
`GfErrTypeToException` turns into an exception, and `listener` is something other than an
`Exception` that a listener throws. -/
inductive CqException where
  | illegalArgument (message : String)
  | illegalState (message : String)
  | cqExists (message : String)
  | cq (message : String)
  | cqClosed (message : String)
  | cacheClosed (message : String)
  | cqQuery (message : String)
  | message (message : String)
  | server (method : String) (err : Nat)
  | listener
  deriving DecidableEq, Repr

/-- `GF_CACHESERVER_EXCEPTION`. -/
def gfCacheServerException : Nat := 124

/-- What comes back for a request: an error of `sendSyncRequest`, an exception of the server with
the code that `handleServerException` gives it, or a reply. -/
inductive ServerOutcome where
  | error (err : Nat)
  | exception (err : Nat) (text : String)
  | reply
  deriving DecidableEq, Repr

/-- The request is answered and no exception is raised for it. -/
def ServerOutcome.accepted : ServerOutcome → Bool
  | reply => true
  | _ => false

/-- The two checks behind a request. They raise an exception, or the call goes on. `method` names
the call, and `method'` names it in the exception of the server. -/
def checkReply (method method' : String) : ServerOutcome → Except CqException Unit
  | .error err => .error (.server method err)
  | .exception err text =>
    if err = gfCacheServerException then
      .error (.cqQuery (method' ++ ": exception at the server side: " ++ text))
    else .error (.server method' err)
  | .reply => .ok ()

/-- The fields of a `CqQueryImpl`: its name, its state, and the user cache it was made for. -/
structure CqQueryImpl where
  cqName : String
  cqState : CqState
  proxyCache : Option Nat
  deriving DecidableEq, Repr

/-- A `CqService` with the CQs it has made, and the user caches that are closed. -/
structure CqService where
  cqs : List CqQueryImpl
  cqQueryMap : AList fun _ : String => Nat
  closedProxyCaches : List Nat
  subscriptionEnabled : Bool
  durableClientId : String

/-- What an event of the server says about a CQ: its region is destroyed, or another operation. -/
inductive CqOperation where
  | destroyRegion
  | other (messageType : Nat)
  deriving DecidableEq, Repr

namespace CqService

/-- A service without CQs. -/
def init (subscriptionEnabled : Bool) (durableClientId : String) : CqService where
  cqs := []
  cqQueryMap := ∅
  closedProxyCaches := []
  subscriptionEnabled := subscriptionEnabled
  durableClientId := durableClientId

variable (s : CqService)

/-- `m_proxyCache && m_proxyCache->isClosed()`. -/
def isProxyClosed (cq : CqQueryImpl) : Bool :=
  match cq.proxyCache with
  | some proxy => proxy ∈ s.closedProxyCaches
  | none => false

/-- `CqQueryImpl::isClosed`. -/
def isClosed (cq : CqQueryImpl) : Bool :=
  cq.cqState = .closed || s.isProxyClosed cq

/-- `CqQueryImpl::isRunning`. -/
def isRunning (cq : CqQueryImpl) : Bool := cq.cqState = .running

/-- `m_cqState = state` on the CQ number `q`. -/
def withState (q : Nat) (state : CqState) : CqService :=
  { s with cqs := s.cqs.modify q fun cq => { cq with cqState := state } }

/-- The service with the new object `cq`. -/
def withNew (cq : CqQueryImpl) : CqService := { s with cqs := s.cqs ++ [cq] }

/-- `GuardUserAttribures::setProxyCache`, which a CQ with a user cache calls first. -/
def setProxyCache (cq : CqQueryImpl) : Except CqException Unit :=
  if s.isProxyClosed cq then .error (.cacheClosed "User Cache has been closed") else .ok ()

/-- `CqQueryImpl::setCqState`. -/
def setCqState (q : Nat) (cq : CqQueryImpl) (state : CqState) :
    Except CqException Unit × CqService :=
  if s.isClosed cq then (.error (.cqClosed ("CQ is closed, CqName : " ++ cq.cqName)), s)
  else (.ok (), s.withState q state)

/-! ### The map of the service -/

/-- `CqService::getCq`. -/
def getCq (cqName : String) : Option Nat := s.cqQueryMap.lookup cqName

/-- `CqService::isCqExists`. -/
def isCqExists (cqName : String) : Bool := (s.getCq cqName).isSome

/-- `CqService::addCq`. -/
def addCq (cqName : String) (q : Nat) : Except CqException CqService :=
  if s.isCqExists cqName then .error (.cqExists "CQ with given name already exists. ")
  else .ok { s with cqQueryMap := s.cqQueryMap.insert cqName q }

/-- `CqService::removeCq`. -/
def removeCq (cqName : String) : CqService :=
  { s with cqQueryMap := s.cqQueryMap.erase cqName }

/-! ### The calls -/

/-- `CqQueryImpl::addToCqMap`. -/
def addToCqMap (cqName : String) (q : Nat) : Except CqException CqService :=
  match s.addCq cqName q with
  | .ok s => .ok s
  | .error (.cqExists message) => .error (.cq
      ("Failed to store Continuous Query in the repository. CqName: " ++ cqName ++ message))
  | .error x => .error x

/-- `CqService::newCq`. `hasAttributes` says that `cqAttributes` is not null, and `proxyCache` is
the user cache of the calling thread in multi-user mode. -/
def newCq (cqName queryString : String) (hasAttributes isDurable : Bool) (proxyCache : Option Nat)
    : Except CqException Nat × CqService :=
  if queryString.isEmpty then (.error (.illegalArgument "Null queryString is passed. "), s)
  else if !hasAttributes then (.error (.illegalArgument "Null cqAttribute is passed. "), s)
  else if !s.subscriptionEnabled then
    (.error (.illegalState
      "Cannot create CQ because subscription is not enabled on the pool."), s)
  else if isDurable && s.durableClientId.isEmpty then
    (.error (.illegalState "Cannot create durable CQ because client is not durable."), s)
  else if !cqName.isEmpty && s.isCqExists cqName then
    (.error (.cqExists ("CQ with the given name already exists. CqName : " ++ cqName)), s)
  else
    let q := s.cqs.length
    match (s.withNew ⟨cqName, .stopped, proxyCache⟩).addToCqMap cqName q with
    | .error x => (.error x, s)
    | .ok s => (.ok q, s)

/-- `CqQueryImpl::execute` with `executeCq`. -/
def execute (s : CqService) (q : Nat) (cq : CqQueryImpl) (outcome : ServerOutcome) :
    Except CqException Unit × CqService :=
  match s.setProxyCache cq with
  | .error x => (.error x, s)
  | .ok _ =>
    if isRunning cq then (.error (.illegalState "CqQuery::execute: cq is already running"), s)
    else
      match checkReply "CqQuery::executeCq:" "CqQuery::executeCq" outcome with
      | .error x => (.error x, s)
      | .ok _ => (.ok (), s.withState q .running)

/-- `CqQueryImpl::executeWithInitialResults`. `values` and `fieldNames` are the numbers of the
values and of the field names of the results. They are looked at when the CQ already runs. -/
def executeWithInitialResults (s : CqService) (q : Nat) (cq : CqQueryImpl)
    (outcome : ServerOutcome) (values fieldNames : Nat) : Except CqException Unit × CqService :=
  match s.setProxyCache cq with
  | .error x => (.error x, s)
  | .ok _ =>
    if isRunning cq then
      (.error (.illegalState "CqQuery::executeWithInitialResults: cq is already running"), s)
    else
      match checkReply "CqQuery::executeCqWithInitialResults:" "CqQuery::executeWithInitialResults"
          outcome with
      | .error x => (.error x, s)
      | .ok _ =>
        let s := s.withState q .running
        if fieldNames ≠ 0 ∧ values % fieldNames ≠ 0 then
          (.error (.message ("Query::execute: Number of values coming " ++
            "from server has to be exactly divisible by field count")), s)
        else (.ok (), s)

/-- `CqQueryImpl::stop`. The guard of the user cache does not throw here, because the CQ is not
closed. -/
def stop (s : CqService) (q : Nat) (cq : CqQueryImpl) (outcome : ServerOutcome) :
    Except CqException Unit × CqService :=
  if s.isClosed cq then (.error (.cqClosed ("CQ is closed, CqName : " ++ cq.cqName)), s)
  else if !isRunning cq then
    (.error (.illegalState
      ("CQ is not in running state, stop CQ does not apply, CqName : " ++ cq.cqName)), s)
  else
    match checkReply "CqQuery::stop/close:" "CqQuery::stop/close" outcome with
    | .error x => (.error x, s)
    | .ok _ => s.setCqState q cq .stopped

/-- `CqQueryImpl::close`. A failure of the request is ignored. `listenersThrow` says that a listener
throws something other than an `Exception`: this leaves the CQ in the map. -/
def close (q : Nat) (cq : CqQueryImpl) (listenersThrow : Bool) :
    Except CqException Unit × CqService :=
  if s.isClosed cq then (.ok (), s)
  else
    match s.setCqState q cq .closing with
    | (.error x, s) => (.error x, s)
    | (.ok _, s) =>
      match s.setCqState q { cq with cqState := .closing } .closed with
      | (.error x, s) => (.error x, s)
      | (.ok _, s) =>
        if listenersThrow then (.error .listener, s) else (.ok (), s.removeCq cq.cqName)

/-- `CqService::invokeCqListeners` for the CQs that are left: the CQs whose listeners are told the
event, and the service afterwards. `listenersThrow` says of which CQ a listener throws something
other than an `Exception`, which ends the call. -/
def invokeCqListeners (listenersThrow : Nat → Bool) (s : CqService) :
    List (String × CqOperation) → Except CqException (List Nat) × CqService
  | [] => (.ok [], s)
  | (cqName, cqOp) :: rest =>
    match s.getCq cqName with
    | none => s.invokeCqListeners listenersThrow rest
    | some q =>
      match s.cqs[q]? with
      | none => s.invokeCqListeners listenersThrow rest
      | some cq =>
        if !isRunning cq then s.invokeCqListeners listenersThrow rest
        else
          match cqOp with
          | .destroyRegion =>
            match s.close q cq (listenersThrow q) with
            | (.error .listener, s) => (.error .listener, s)
            | (_, s) => s.invokeCqListeners listenersThrow rest
          | .other _ =>
            if listenersThrow q then (.error .listener, s)
            else
              let r := s.invokeCqListeners listenersThrow rest
              (r.1.map fun told => q :: told, r.2)

end CqService

/-- A call of the application on the service or on a CQ, an event of the server, or the closing of a
user cache. -/
inductive CqCall where
  | newCq (cqName queryString : String) (hasAttributes isDurable : Bool) (proxyCache : Option Nat)
  | execute (q : Nat) (outcome : ServerOutcome)
  | executeWithInitialResults (q : Nat) (outcome : ServerOutcome) (values fieldNames : Nat)
  | stop (q : Nat) (outcome : ServerOutcome)
  | close (q : Nat) (listenersThrow : Bool)
  | event (cqs : List (String × CqOperation)) (listenersThrow : Nat → Bool)
  | closeProxyCache (proxy : Nat)

/-- The service after a call on the CQ number `q`. There is no call on a CQ that was not made. -/
def CqService.onCq (s : CqService) (q : Nat)
    (call : CqQueryImpl → Except CqException Unit × CqService) : CqService :=
  match s.cqs[q]? with
  | none => s
  | some cq => (call cq).2

/-- The service after the call. -/
def CqCall.step (s : CqService) : CqCall → CqService
  | newCq cqName queryString hasAttributes isDurable proxyCache =>
    (s.newCq cqName queryString hasAttributes isDurable proxyCache).2
  | execute q outcome => s.onCq q fun cq => s.execute q cq outcome
  | executeWithInitialResults q outcome values fieldNames =>
    s.onCq q fun cq => s.executeWithInitialResults q cq outcome values fieldNames
  | stop q outcome => s.onCq q fun cq => s.stop q cq outcome
  | close q listenersThrow => s.onCq q fun cq => s.close q cq listenersThrow
  | event cqs listenersThrow => (s.invokeCqListeners listenersThrow cqs).2
  | closeProxyCache proxy => { s with closedProxyCaches := proxy :: s.closedProxyCaches }

end GeodeNative.Query

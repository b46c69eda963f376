import GeodeNative.Lib.Loop

/-!
# Sending a request through a pool

The loop of `ThinClientPoolDM::sendSyncRequest`. Each turn takes a connection, authenticates it
when that is needed, and sends the request. A turn whose reply says that an authentication is
required is followed by another one. A turn that fails excludes its server, and the next turn tries
another server.

What the network and the servers do in a turn is its `Turn`. A send is one call of
`TcrEndpoint::sendRequestConnWithRetry`. The lookup of a connection is in the turn with all that it
gives to the loop: an error, a connection, and the servers that `createPoolConnection` could not
connect to and excludes. The metadata refresh and the statistics are left out, apart from
`m_clientOps`, the number of operations in progress.
-/

set_option autoImplicit false

namespace GeodeNative.Client.Pool

open Lib

/-- The codes of `GfErrType` that are told apart here. -/
inductive GfErrType where
  | noErr
  | notCon
  | timOut
  | ioErr
  | clientWaitTimeout
  | clientWaitTimeoutRefreshPRMetadata
  | notAuthorizedException
  | allConnectionsInUseException
  | other (code : Nat)
  deriving DecidableEq, Repr

/-- The message types that are told apart here. -/
inductive MessageType where
  | query
  | queryWithParameters
  | putAll
  | putAllWithCallback
  | executeFunction
  | executeRegionFunction
  | executeRegionFunctionSingleHop
  | executeCqWithIr
  | other
  deriving DecidableEq, Repr

/-- A request of one of these types is not sent again after a timeout. -/
def MessageType.returnsOnTimeout : MessageType → Bool
  | .other => false
  | _ => true

/-- The settings of the pool, and the request. -/
structure Call where
  retryAttempts : Int
  type : MessageType
  attemptFailover : Bool
  isMultiUserMode : Bool
  isSecurityOn : Bool
  isUserInitiativeOps : Bool

/-- What happens in a turn. -/
structure Turn (E : Type) where
  /-- The thread has user attributes. -/
  userAttr : Bool
  /-- The error and the endpoint of the connection from `getConnectionFromQueueW`, and the servers
  that it excludes. -/
  queueErr : GfErrType
  conn : Option E
  unreachable : Finset E
  /-- What `sendUserCredentials` returns and sets, with no error when it is not called. -/
  userCredMsgErr : GfErrType
  isServerException : Bool
  /-- The error of the send, after `handleEPError`. -/
  error : GfErrType
  /-- The reply is an exception that says that an authentication is required. -/
  authRequired : Bool

/-- The variables of the loop, the number of sends, and `m_clientOps`. -/
structure State (E : Type) where
  error : GfErrType
  excludeServers : Finset E
  retry : Int
  isAuthRequireExcep : Bool
  isAuthRequireExcepMaxTry : Int
  sends : Nat
  clientOps : Int

/-- What a call that is over returns, the number of its sends, and what it leaves in
`m_clientOps`. -/
structure Result where
  error : GfErrType
  sends : Nat
  clientOps : Int
  deriving DecidableEq

section
variable {E : Type}

def Call.retryAllEPsOnce (c : Call) : Bool := c.retryAttempts = -1

def Call.isSecure (c : Call) : Bool := c.isSecurityOn || c.isMultiUserMode

/-- The first part of a turn, up to the reply: a return that leaves `m_clientOps` as it is, the
return that decrements it because there is no connection, or an attempt with the endpoint of the
connection and the error. `sent` says that the request was sent. -/
inductive Attempt (E : Type) where
  | returns (error : GfErrType) (sent : Bool)
  | allConnectionsInUse
  | tried (ep : Option E) (sent : Bool) (error : GfErrType)

def attempt (c : Call) (t : Turn E) : Attempt E :=
  if c.isMultiUserMode && c.isUserInitiativeOps && !t.userAttr then
    .returns .notAuthorizedException false
  else if t.queueErr = .clientWaitTimeout then .returns .clientWaitTimeout false
  else if t.queueErr = .clientWaitTimeoutRefreshPRMetadata then
    .returns .clientWaitTimeoutRefreshPRMetadata false
  else
    match t.conn with
    | none =>
      if t.queueErr = .noErr then .allConnectionsInUse
      else .tried none false (if t.queueErr = .ioErr then .notCon else t.queueErr)
    | some ep =>
      let asked := c.isUserInitiativeOps && c.isSecure
      let userCredMsgErr := if asked then t.userCredMsgErr else .noErr
      let sent := decide (userCredMsgErr = .noErr)
      let error := if sent then t.error else userCredMsgErr
      if asked && t.isServerException then .returns error sent else .tried (some ep) sent error

/-- The servers that are excluded after an attempt. -/
def exclude [DecidableEq E] (excludeServers : Finset E) (ep : Option E) (error : GfErrType) :
    Finset E :=
  match ep with
  | some ep => if error = .noErr then excludeServers else insert ep excludeServers
  | none => excludeServers

/-- The end of a call, behind the loop or after a reply: `m_clientOps` is decremented. -/
def finish (error : GfErrType) (sends : Nat) (clientOps : Int) : Result :=
  ⟨if error = .ioErr then .notCon else error, sends, clientOps - 1⟩

variable [DecidableEq E]

/-- The body of the loop. A `break` ends the call like a return. `lastExcludeSize` is the size
before the lookup. -/
def body (c : Call) (t : Turn E) (st : State E) : Result ⊕ State E :=
  if c.type.returnsOnTimeout && st.error = .timOut then .inl ⟨st.error, st.sends, st.clientOps⟩
  else
    let lastExcludeSize := st.excludeServers.card
    match attempt c t with
    | .returns error sent => .inl ⟨error, st.sends + sent.toNat, st.clientOps⟩
    | .allConnectionsInUse => .inl ⟨.allConnectionsInUseException, st.sends, st.clientOps - 1⟩
    | .tried ep sent error =>
      let excludeServers := exclude (st.excludeServers ∪ t.unreachable) ep error
      let sends := st.sends + sent.toNat
      if error = .noErr && c.isSecure && t.authRequired then
        .inr { st with
          error := error
          excludeServers := excludeServers
          isAuthRequireExcep := true
          isAuthRequireExcepMaxTry := st.isAuthRequireExcepMaxTry - 1
          sends := sends }
      else if excludeServers.card = lastExcludeSize && c.retryAllEPsOnce then
        .inl (finish error sends st.clientOps)
      else if !c.attemptFailover || error = .noErr then .inl (finish error sends st.clientOps)
      else
        .inr { st with
          error := error
          excludeServers := if excludeServers.card = lastExcludeSize then ∅ else excludeServers
          isAuthRequireExcep := false
          sends := sends }

/-- One turn: the condition of the loop, with `retry--`, and the body. -/
def turn (c : Call) (turns : Nat → Turn E) (i : Nat) (st : State E) : Result ⊕ State E :=
  if c.retryAllEPsOnce then body c (turns i) st
  else if st.retry ≠ 0 then body c (turns i) { st with retry := st.retry - 1 }
  else if st.isAuthRequireExcep && 0 ≤ st.isAuthRequireExcepMaxTry then
    body c (turns i) { st with retry := st.retry - 1 }
  else .inl (finish st.error st.sends st.clientOps)

/-- The state before the loop, in a pool with `clientOps` other operations in progress. -/
def initial (c : Call) (clientOps : Int) : State E :=
  { error := .notCon
    excludeServers := ∅
    retry := c.retryAttempts + 1
    isAuthRequireExcep := false
    isAuthRequireExcepMaxTry := 2
    sends := 0
    clientOps := clientOps + 1 }

/-- The result of the call, or `none` when the loop is not over after `fuel` turns. -/
def sendSyncRequest (c : Call) (turns : Nat → Turn E) (clientOps : Int) (fuel : Nat) :
    Option Result :=
  loop (turn c turns) fuel 0 (initial c clientOps)

end

end GeodeNative.Client.Pool

import Mathlib

/-!
# The endpoints with a subscription queue

The model of `maintainRedundancyLevel` (`ThinClientRedundancyManager.cpp`). The manager keeps two
lists of endpoints: those that have a queue for this client, the primary first, and the others. A
call looks at the endpoints, makes new ones redundant until there are enough, and sees to a
primary.

The servers are outside of the manager. What they answer during a call is `Outcomes`: a call asks
each endpoint at most once for each answer. `selectServers` is outside too, so its result is an
argument.

`Manager.primary` is not a variable of the manager. It is the endpoint that has last agreed to be
the primary. Left out are the listeners of continuous queries, `unregisterDM` and the statistics.
-/

set_option autoImplicit false

namespace GeodeNative.Client.Redundancy

/-- The codes of `GfErrType` that are told apart here. -/
inductive GfErrType where
  | noErr
  | notCon
  | msg
  | cacheServerException
  | notAuthorizedException
  | authenticationRequiredException
  | authenticationFailedException
  | cacheLocatorException
  | other (code : Nat)
  deriving DecidableEq, Repr

/-- `ThinClientBaseDM::isFatalError` -/
def isFatalError : GfErrType → Bool
  | .msg | .cacheServerException | .notAuthorizedException | .authenticationRequiredException
  | .authenticationFailedException | .cacheLocatorException => true
  | _ => false

/-- `ServerQueueStatus` -/
inductive ServerQueueStatus where
  | nonRedundantServer
  | redundantServer
  | primaryServer
  deriving DecidableEq, Repr

/-- What the endpoints answer during a call. `makePrimaryRequest` is the answer to the message of
`sendMakePrimaryMesg`. -/
structure Outcomes (E : Type) where
  connected : E → Bool
  makePrimary : E → GfErrType
  makeSecondary : E → GfErrType
  makePrimaryRequest : E → GfErrType
  getServerQueueStatus : E → ServerQueueStatus

/-- A call of `maintainRedundancyLevel`. `selectServers howMany exclEndPts` are the endpoints of the
locations that `selectServers` finds. -/
structure Call (E : Type) where
  init : Bool
  outcomes : Outcomes E
  selectServers : Int → List E → List E

/-- `ThinClientRedundancyManager`. `pool` says that there is a pool, and `locators` and `servers`
are the lengths of its lists, if there is such a list. -/
structure Manager (E : Type) where
  redundancyLevel : Int
  pool : Bool
  locators : Option Nat
  servers : Option Nat
  redundantEndpoints : List E
  nonredundantEndpoints : List E
  isAllEpDisCon : Bool
  loggedRedundancyWarning : Bool
  primary : Option E

/-- The local variables of `maintainRedundancyLevel`, and the primary. -/
structure Locals (E : Type) where
  err : GfErrType
  fatalError : GfErrType
  fatal : Bool
  isRedundancySatisfied : Bool
  secondaryCount : Nat
  isPrimaryConnected : Bool
  isPrimaryAtBack : Bool
  tempRedundantEndpoints : List E
  tempNonredundantEndpoints : List E
  convertedPrimary : Option E
  primary : Option E

section

variable {E : Type}

def sendMakePrimaryMesg (o : Outcomes E) (ep : E) : Bool :=
  if !o.connected ep then false else decide (o.makePrimaryRequest ep = .noErr)

/-! ## Step 1: the scans -/

/-- The endpoint is found to be disconnected. -/
def Locals.addNonredundant (l : Locals E) (ep : E) : Locals E :=
  { l with tempNonredundantEndpoints := l.tempNonredundantEndpoints ++ [ep] }

/-- The body of the loop over the redundant endpoints. -/
def scanRedundantStep (level : Int) (o : Outcomes E) (isBegin : Bool) (l : Locals E) (ep : E) :
    Locals E :=
  if !l.isPrimaryConnected then
    if isBegin then
      if o.connected ep then
        { l with
          isPrimaryConnected := true
          isRedundancySatisfied := if level = 0 then true else l.isRedundancySatisfied }
      else l.addNonredundant ep
    else if sendMakePrimaryMesg o ep then
      { l with isPrimaryConnected := true, primary := some ep }
    else l.addNonredundant ep
  else if o.connected ep then
    { l with
      secondaryCount := l.secondaryCount + 1
      isRedundancySatisfied :=
        if ((l.secondaryCount + 1 : Nat) : Int) = level then true else l.isRedundancySatisfied }
  else l.addNonredundant ep

/-- The loop over the redundant endpoints. -/
def scanRedundant (level : Int) (o : Outcomes E) : Bool → Locals E → List E → Locals E
  | _, l, [] => l
  | isBegin, l, ep :: rest =>
    if l.isRedundancySatisfied then l
    else scanRedundant level o false (scanRedundantStep level o isBegin l ep) rest

/-- A fatal error is saved for the caller. -/
def Locals.noteFatal (l : Locals E) : Locals E :=
  if isFatalError l.err then { l with fatal := true, fatalError := l.err } else l

/-- An endpoint becomes redundant. -/
def Locals.addRedundant (l : Locals E) (ep : E) : Locals E :=
  { l with tempRedundantEndpoints := l.tempRedundantEndpoints ++ [ep] }

variable [DecidableEq E]

/-- The body of the loop over the nonredundant endpoints. `back` is the last one of them. -/
def scanNonredundantStep (level : Int) (o : Outcomes E) (init : Bool) (back : Option E)
    (l : Locals E) (ep : E) : Locals E :=
  if !l.isPrimaryConnected then
    if (l.secondaryCount : Int) = level then
      if !init || some ep = back then
        let l := { l with err := o.makePrimary ep }
        if l.err = .noErr then
          { l.addRedundant ep with
            isRedundancySatisfied := true
            isPrimaryConnected := true
            isPrimaryAtBack := true
            primary := some ep }
        else l.noteFatal
      else l.noteFatal
    else
      let l := { l with err := o.makeSecondary ep }
      if l.err = .noErr then
        { l.addRedundant ep with secondaryCount := l.secondaryCount + 1 }
      else l.noteFatal
  else
    let l := { l with err := o.makeSecondary ep }
    if l.err = .noErr then
      { l.addRedundant ep with
        secondaryCount := l.secondaryCount + 1
        isRedundancySatisfied :=
          if ((l.secondaryCount + 1 : Nat) : Int) = level then true else l.isRedundancySatisfied }
    else l.noteFatal

/-- The loop over the nonredundant endpoints. -/
def scanNonredundant (level : Int) (o : Outcomes E) (init : Bool) (back : Option E) :
    Locals E → List E → Locals E
  | l, [] => l
  | l, ep :: rest =>
    if l.isRedundancySatisfied then l
    else scanNonredundant level o init back (scanNonredundantStep level o init back l ep) rest

/-! ## Step 2: a primary from the new secondaries -/

/-- The loop of the first call, from the back of `tempRedundantEndpoints` to the front: the
primary, the endpoints from the primary to the front, and the endpoints that were skipped. An
endpoint without an old queue is skipped when there is one with an old queue. -/
def convertPrimary (o : Outcomes E) (oldHAEndPointPresent : Bool) :
    List E → List E → Option E × List E × List E
  | [], skipped => (none, [], skipped)
  | ep :: rest, skipped =>
    if oldHAEndPointPresent && o.getServerQueueStatus ep == .nonRedundantServer then
      convertPrimary o oldHAEndPointPresent rest (ep :: skipped)
    else if sendMakePrimaryMesg o ep then (some ep, ep :: rest, skipped)
    else convertPrimary o oldHAEndPointPresent rest skipped

/-- Step 2 of the first call. -/
def convertOld (o : Outcomes E) (l : Locals E) : Locals E :=
  let oldHAEndPointPresent := l.tempRedundantEndpoints.any fun ep =>
    o.getServerQueueStatus ep != .nonRedundantServer
  let r := convertPrimary o oldHAEndPointPresent l.tempRedundantEndpoints.reverse []
  let l := { l with tempRedundantEndpoints := r.2.1.reverse ++ r.2.2 }
  match r.1 with
  | none => l
  | some ep =>
    { l with
      isPrimaryAtBack := false
      convertedPrimary := some ep
      isPrimaryConnected := true
      primary := some ep }

/-- The loop of the other calls, from the back to the front. -/
def promotePrimary (o : Outcomes E) : List E → Option E × List E
  | [] => (none, [])
  | ep :: rest => if sendMakePrimaryMesg o ep then (some ep, ep :: rest) else promotePrimary o rest

/-- Step 2 of every call. -/
def promoteNew (o : Outcomes E) (l : Locals E) : Locals E :=
  let r := promotePrimary o l.tempRedundantEndpoints.reverse
  let l := { l with tempRedundantEndpoints := r.2.reverse }
  match r.1 with
  | none => l
  | some ep => { l with isPrimaryAtBack := true, isPrimaryConnected := true, primary := some ep }

/-- Step 2. -/
def choosePrimary (call : Call E) (l : Locals E) : Locals E :=
  let l :=
    if call.init && !l.isRedundancySatisfied && !l.isPrimaryConnected then
      convertOld call.outcomes l
    else l
  if !l.isRedundancySatisfied && !l.isPrimaryConnected then promoteNew call.outcomes l else l

/-! ## Step 3: the new lists -/

def removeEndpointsInOrder : List E → List E → List E
  | [], _ => []
  | dest :: rest, [] => dest :: removeEndpointsInOrder rest []
  | dest :: rest, src :: srcVector =>
    if dest = src then removeEndpointsInOrder rest srcVector
    else dest :: removeEndpointsInOrder rest (src :: srcVector)

def addEndpointsInOrder (destVector srcVector : List E) : List E := destVector ++ srcVector

def moveEndpointToLast (epVector : List E) (targetEp : E) : List E :=
  epVector.erase targetEp ++ [targetEp]

/-- The last endpoint goes to the front. -/
def backToFront (epVector : List E) : List E :=
  match epVector.getLast? with
  | none => []
  | some primary => primary :: epVector.dropLast

namespace Manager

/-- The variables at the start. -/
def locals (m : Manager E) : Locals E where
  err := .notCon
  fatalError := .noErr
  fatal := false
  isRedundancySatisfied := false
  secondaryCount := 0
  isPrimaryConnected := false
  isPrimaryAtBack := false
  tempRedundantEndpoints := []
  tempNonredundantEndpoints := []
  convertedPrimary := none
  primary := m.primary

/-- The number of servers that are asked for. -/
def howMany (m : Manager E) : Int :=
  if (m.locators.any fun n => decide (n > 0)) && (m.servers.any fun n => decide (n = 0)) then
    m.redundancyLevel - m.redundantEndpoints.length + 1
  else -1

/-- The nonredundant endpoints of the scan. A pool selects them anew. -/
def candidates (m : Manager E) (call : Call E) (l : Locals E) : List E :=
  if !l.isRedundancySatisfied && m.pool && !call.init then
    call.selectServers m.howMany m.redundantEndpoints
  else m.nonredundantEndpoints

/-- Steps 1 and 2: the variables, and the nonredundant endpoints. -/
def scan (m : Manager E) (call : Call E) : Locals E × List E :=
  let l := scanRedundant m.redundancyLevel call.outcomes true m.locals m.redundantEndpoints
  let nonredundant := m.candidates call l
  let l := scanNonredundant m.redundancyLevel call.outcomes call.init nonredundant.getLast? l
    nonredundant
  (choosePrimary call l, nonredundant)

/-- Step 3. -/
def relist (m : Manager E) (call : Call E) (l : Locals E) (nonredundant : List E) : Manager E :=
  let redundant := removeEndpointsInOrder m.redundantEndpoints l.tempNonredundantEndpoints
  let nonredundant := removeEndpointsInOrder nonredundant l.tempRedundantEndpoints
  let moved := match l.convertedPrimary with
    | some ep =>
      if call.init && !l.isPrimaryAtBack then
        (moveEndpointToLast l.tempRedundantEndpoints ep, true)
      else (l.tempRedundantEndpoints, l.isPrimaryAtBack)
    | none => (l.tempRedundantEndpoints, l.isPrimaryAtBack)
  let redundant := addEndpointsInOrder redundant moved.1
  { m with
    redundantEndpoints :=
      if l.isPrimaryConnected && moved.2 then backToFront redundant else redundant
    nonredundantEndpoints := addEndpointsInOrder nonredundant l.tempNonredundantEndpoints
    primary := l.primary }

/-- The end of the call: the code that is returned, and the flags of the manager. -/
def finish (m : Manager E) (l : Locals E) : GfErrType × Manager E :=
  if l.isRedundancySatisfied then
    (.noErr, { m with isAllEpDisCon := false, loggedRedundancyWarning := false })
  else if l.isPrimaryConnected then
    if l.fatal && l.err ≠ .noErr then (l.fatalError, m)
    else if m.redundancyLevel = -1 then (.noErr, { m with isAllEpDisCon := false })
    else (.noErr, { m with isAllEpDisCon := false, loggedRedundancyWarning := true })
  else
    let m := if m.pool && !m.isAllEpDisCon then { m with isAllEpDisCon := true } else m
    if l.fatal && l.err ≠ .noErr then (l.fatalError, m) else (l.err, m)

/-- `maintainRedundancyLevel`, with its variables at the end. -/
def maintainRedundancyLevel (m : Manager E) (call : Call E) : Locals E × GfErrType × Manager E :=
  let r := m.scan call
  (r.1, finish (m.relist call r.1 r.2) r.1)

/-- One call. -/
def step (m : Manager E) (call : Call E) : Manager E := (m.maintainRedundancyLevel call).2.2

end Manager

end

end GeodeNative.Client.Redundancy

import Mathlib

/-!
# The connections of a pool

Which server a new connection goes to, which connection a request gets, and which connections are
replaced when they are stale: `selectEndpoint`, `getConnectionFromQueue` and `cleanStaleConnections`
of `ThinClientPoolDM.cpp`, with the queue of `FairQueue.hpp`. Statistics and logs are left out.
-/

set_option autoImplicit false

namespace GeodeNative.Client.Pool

section
variable {S L : Type} [DecidableEq L]

/-- `location` is the constructor of `ServerLocation` from the name of an endpoint.
The set is ordered by host and port. -/
def excludeServer (location : S → L) (endpoint : S) (excludeServers : Finset L) : Bool :=
  decide (location endpoint ∈ excludeServers)

/-! ### `selectEndpoint` -/

variable (location : S → L) (initServList : List S)

/-- The `do` loop of `selectEndpoint` with the turns that are left: the endpoint, or `none` for a
`NotConnectedException`, and `m_server`. -/
def selectLoop (excludeServers : Finset L) : Nat → Nat → Option S × Nat
  | 0, server => (none, server)
  | turns + 1, server =>
    match initServList[server]? with
    | none => (none, server) -- `server` is in range
    | some endpoint =>
      if !excludeServer location endpoint excludeServers then (some endpoint, server + 1)
      else
        selectLoop excludeServers turns
          (if server + 1 ≥ initServList.length then 0 else server + 1)

/-- `selectEndpoint` without locators and with servers. -/
def selectEndpoint (server : Nat) (excludeServers : Finset L) : Option S × Nat :=
  selectLoop location initServList excludeServers initServList.length
    (if server ≥ initServList.length then 0 else server)

/-- What calls in a row return. -/
def selections : Nat → List (Finset L) → List (Option S)
  | _, [] => []
  | server, excludeServers :: calls =>
    let r := selectEndpoint location initServList server excludeServers
    r.1 :: selections r.2 calls

end

/-! ### `getConnectionFromQueue` -/

variable {C : Type}

/-- The list starts with the back of the queue, where connections are taken. -/
def popFromQueue (closed : Bool) (queue : List C) : Option C × List C :=
  match closed, queue with
  | false, conn :: queue => (some conn, queue)
  | _, _ => (none, queue)

/-- The loop of `getNoGetLock`: excluded connections are closed. -/
def popUnexcluded (exclude : C → Bool) : List C → Option C
  | [] => none
  | conn :: queue => if exclude conn then popUnexcluded exclude queue else some conn

/-- The end of one wait of `getUntilWithToken`: what was put into the queue in the meantime,
whether the queue was closed, and whether there is still time. -/
structure WakeUp (C : Type) where
  puts : List C
  closed : Bool
  inTime : Bool

/-- `exclude` of `FairQueue`. It is private and not virtual, and `FairQueue` calls this one. -/
def FairQueue.exclude (_mp : C) : Bool := false

/-- `getUntilWithToken` with an exclude list. -/
def getUntilWithToken (queue : List C) : List (WakeUp C) → Option C
  | [] => none
  | w :: wakeUps =>
    let (mp, queue) := popFromQueue w.closed (queue ++ w.puts)
    match mp.filter fun mp => !FairQueue.exclude mp with
    | some mp => some mp
    | none => if w.inTime && !w.closed then getUntilWithToken queue wakeUps else none

/-- `getConnectionFromQueue`, through `getUntil`. `exclude` says which connections are to the
excluded servers of the request, `created` is the connection of `createPoolConnection`. -/
def getConnectionFromQueue (exclude : C → Bool) (closed : Bool) (queue : List C)
    (created : Option C) (wakeUps : List (WakeUp C)) : Option C :=
  match (if closed then none else popUnexcluded exclude queue).or created with
  | some mp => some mp
  | none => if closed then none else getUntilWithToken [] wakeUps

/-! ### `cleanStaleConnections` -/

/-- What `createPoolConnection` gives for a connection that is to be replaced: a connection, which
can be the same one, or none. `expired` is what `hasExpired` then says of the old one. -/
inductive Replacement (C : Type) where
  | newConn (conn : C)
  | none (expired : Bool)

/-- The connections that are kept, those that are closed and removed, and those that it was tried to
replace. -/
structure Cleaned (C : Type) where
  savelist : List C
  removed : List C
  tried : List C

variable [DecidableEq C] (create : C → Replacement C)

/-- The body of the loop over `replacelist`. -/
def replaceConnection (replaceCount : BitVec 64) (conn : C) (st : Cleaned C) : Cleaned C :=
  if replaceCount ≤ 0 then { st with removed := st.removed ++ [conn] }
  else
    let tried := st.tried ++ [conn]
    match create conn with
    | .newConn newConn =>
      ⟨st.savelist ++ [newConn], st.removed ++ if newConn ≠ conn then [conn] else [], tried⟩
    | .none true => ⟨st.savelist, st.removed ++ [conn], tried⟩
    | .none false => ⟨st.savelist ++ [conn], st.removed, tried⟩

/-- The loop over `replacelist`. `replaceCount` is a `size_t`. -/
def replaceLoop : BitVec 64 → List C → Cleaned C → Cleaned C
  | _, [], st => st
  | replaceCount, conn :: replacelist, st =>
    replaceLoop (replaceCount - 1) replacelist (replaceConnection create replaceCount conn st)

/-- `cleanStaleConnections` behind the scan of the queue that fills the two lists. -/
def cleanStaleConnections (minConnections : BitVec 32) (savelist replacelist : List C) :
    Cleaned C :=
  replaceLoop create ((minConnections - BitVec.ofNat 32 savelist.length).signExtend 64) replacelist
    ⟨savelist, [], []⟩

end GeodeNative.Client.Pool

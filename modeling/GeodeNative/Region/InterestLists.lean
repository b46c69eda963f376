import GeodeNative.Lib.UnorderedMap

/-!
# The interest of a client in the keys of a region

A client registers interest in keys, and in the keys that match a regular expression. It keeps what
it has registered, so that `registerKeys(endpoint)` can register it with a server to which it fails
over.

`ThinClientRegion` has eight maps for this: for keys and for expressions, by durability and by
whether values are received. Here they are two families of maps over `Category`. The maps of keys
have `CacheableKeyPtr` keys without a hash or equality of their own, so they compare pointers. `P`
is the type of pointers, and `deref` gives the key that a pointer points to.

The calls have `attemptFailover = true`, as the calls of a client. The calls that `registerKeys`
makes have `attemptFailover = false` and only send.
-/

set_option autoImplicit false

namespace GeodeNative.Region.Interest

open Lib UnorderedMap

/-- The codes of `GfErrType` that are told apart here. -/
inductive GfErrType where
  | noErr
  | cacheIllegalStateException
  | other (code : Nat)
  deriving DecidableEq, Repr

/-- `InterestResultPolicy` -/
inductive InterestResultPolicy where
  | none
  | keys
  | keysValues
  deriving DecidableEq, Repr

/-- The arguments that choose a map. -/
structure Category where
  isDurable : Bool
  receiveValues : Bool
  deriving DecidableEq, Repr

/-- The answer to a request: the error of `sendSyncRequestRegisterInterest`, and whether the type of
the reply is `RESPONSE_FROM_SECONDARY`. -/
structure Response where
  err : GfErrType
  fromSecondary : Bool
  deriving DecidableEq, Repr

/-- The maps of the keys and of the regular expressions. The map of a category is

* `m_interestList` for `⟨false, true⟩`,
* `m_interestListForUpdatesAsInvalidates` for `⟨false, false⟩`,
* `m_durableInterestList` for `⟨true, true⟩`,
* `m_durableInterestListForUpdatesAsInvalidates` for `⟨true, false⟩`,

and the same for the regular expressions. -/
structure InterestLists (P : Type) where
  interestList : Category → List (P × InterestResultPolicy)
  interestListRegex : Category → List (String × InterestResultPolicy)

/-- The categories in the order in which `registerKeys` goes through them. -/
def allCategories : List Category := [⟨false, true⟩, ⟨false, false⟩, ⟨true, true⟩, ⟨true, false⟩]

section
variable {P : Type}

/-! ## Regular expressions -/

namespace InterestLists
variable (l : InterestLists P)

/-- `isRegexRegistered` for one map. -/
def isRegexRegistered (interestListRegex : List (String × InterestResultPolicy)) (regex : String)
    (allKeys : Bool) : Bool :=
  (find (KeyEqual.ofEq String) interestListRegex ".*").isSome ||
    !allKeys && (find (KeyEqual.ofEq String) interestListRegex regex).isSome

def addRegex (regex : String) (c : Category) (interestPolicy : InterestResultPolicy) :
    InterestLists P :=
  if regex = ".*" then
    { interestList := Function.update l.interestList c []
      interestListRegex := Function.update l.interestListRegex c [(regex, interestPolicy)] }
  else
    { l with
      interestListRegex := Function.update l.interestListRegex c
        (emplace (KeyEqual.ofEq String) (l.interestListRegex c) regex interestPolicy) }

def registerRegexNoThrow (regex : String) (c : Category) (interestPolicy : InterestResultPolicy)
    (response : Response) : GfErrType × InterestLists P :=
  let allKeys := regex = ".*"
  if isRegexRegistered (l.interestListRegex ⟨c.isDurable, true⟩) regex allKeys ||
      isRegexRegistered (l.interestListRegex ⟨c.isDurable, false⟩) regex allKeys then
    (.noErr, l)
  else if response.err = .noErr ∧ response.fromSecondary = false then
    (response.err, l.addRegex regex c interestPolicy)
  else (response.err, l)

def findRegex (regex : String) : GfErrType :=
  if allCategories.all fun c =>
      (find (KeyEqual.ofEq String) (l.interestListRegex c) regex).isNone then
    .cacheIllegalStateException
  else .noErr

def clearRegex (regex : String) : InterestLists P :=
  { l with
    interestListRegex := fun c => erase (KeyEqual.ofEq String) (l.interestListRegex c) regex }

def unregisterRegexNoThrow (regex : String) (response : Response) : GfErrType × InterestLists P :=
  if l.findRegex regex = .noErr then
    if response.err = .noErr then (response.err, l.clearRegex regex) else (response.err, l)
  else (l.findRegex regex, l)

end InterestLists

/-! ## Keys -/

section
variable [DecidableEq P]

/-- The loop of `addKeys`. An `insert` keeps a node that is there. -/
def insertKeys (m : List (P × InterestResultPolicy)) (keys : List P)
    (interestPolicy : InterestResultPolicy) : List (P × InterestResultPolicy) :=
  keys.foldl (fun m key => emplace (KeyEqual.ofEq P) m key interestPolicy) m

def eraseKeys (m : List (P × InterestResultPolicy)) (keys : List P) :
    List (P × InterestResultPolicy) :=
  keys.foldl (fun m key => erase (KeyEqual.ofEq P) m key) m

namespace InterestLists
variable (l : InterestLists P)

def addKeys (keys : List P) (c : Category) (interestPolicy : InterestResultPolicy) :
    InterestLists P :=
  { l with
    interestList :=
      Function.update l.interestList c (insertKeys (l.interestList c) keys interestPolicy) }

def registerKeysNoThrow (keys : List P) (c : Category) (interestPolicy : InterestResultPolicy)
    (response : Response) : GfErrType × InterestLists P :=
  if keys = [] then (.noErr, l)
  else if response.err = .noErr ∧ response.fromSecondary = false then
    (response.err, l.addKeys keys c interestPolicy)
  else (response.err, l)

def unregisterKeysNoThrow (keys : List P) (response : Response) : GfErrType × InterestLists P :=
  if keys = [] then (.noErr, l)
  else if allCategories.all fun c => (l.interestList c).isEmpty then
    (.cacheIllegalStateException, l)
  else if response.err = .noErr then
    (response.err, { l with interestList := fun c => eraseKeys (l.interestList c) keys })
  else (response.err, l)

end InterestLists

/-- A call of the client. -/
inductive Call (P : Type) where
  | registerKeys (keys : List P) (c : Category) (interestPolicy : InterestResultPolicy)
      (response : Response)
  | unregisterKeys (keys : List P) (response : Response)
  | registerRegex (regex : String) (c : Category) (interestPolicy : InterestResultPolicy)
      (response : Response)
  | unregisterRegex (regex : String) (response : Response)

/-- What a call returns, and the maps after it. -/
def Call.result (l : InterestLists P) : Call P → GfErrType × InterestLists P
  | .registerKeys keys c interestPolicy response =>
    l.registerKeysNoThrow keys c interestPolicy response
  | .unregisterKeys keys response => l.unregisterKeysNoThrow keys response
  | .registerRegex regex c interestPolicy response =>
    l.registerRegexNoThrow regex c interestPolicy response
  | .unregisterRegex regex response => l.unregisterRegexNoThrow regex response

end

/-! ## Failover -/

/-- A request that `registerKeys(endpoint)` sends. -/
inductive Request (P : Type) where
  | keys (keys : List P) (c : Category) (interestPolicy : InterestResultPolicy)
  | regex (regex : String) (c : Category) (interestPolicy : InterestResultPolicy)

/-- The orders of the iterations over the maps. -/
structure Orders (P : Type) where
  keys : ∀ m : List (P × InterestResultPolicy),
    { m' : List (P × InterestResultPolicy) // m'.Perm m }
  regex : ∀ m : List (String × InterestResultPolicy),
    { m' : List (String × InterestResultPolicy) // m'.Perm m }

/-- The keys, and the policy of the last node. -/
def copyInterestList (interestList : List (P × InterestResultPolicy)) :
    List P × InterestResultPolicy :=
  (interestList.map (·.1), (interestList.getLast?.map (·.2)).getD .none)

def registerStoredRegex (interestListRegex : List (String × InterestResultPolicy)) (c : Category) :
    List (Request P) :=
  interestListRegex.map fun node => .regex node.1 c node.2

/-- `registerKeysNoThrow` without failover: an empty request is not sent. -/
def registerStoredKeys (interestList : List (P × InterestResultPolicy)) (c : Category) :
    List (Request P) :=
  let (keysVec, interestPolicy) := copyInterestList interestList
  if keysVec = [] then [] else [.keys keysVec c interestPolicy]

/-- The requests of `registerKeys(endpoint)`. -/
def InterestLists.registerKeys (l : InterestLists P) (orders : Orders P) : List (Request P) :=
  (allCategories.flatMap fun c => registerStoredRegex (orders.regex (l.interestListRegex c)).1 c) ++
    allCategories.flatMap fun c => registerStoredKeys (orders.keys (l.interestList c)).1 c

end

end GeodeNative.Region.Interest

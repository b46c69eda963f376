import GeodeNative.Lib.BigEndian
import GeodeNative.Lib.UnorderedMap

/-!
# The events that were seen and acknowledged

A client with subscriptions gets an event more than once when a server fails over. `EventIdMap`
keeps the newest sequence number of each source of events. `put` with `onlynew` accepts an event
only when it is newer. `getUnAcked` collects the sources whose newest event is not acknowledged and
marks them; when the acknowledgement cannot be sent, `clearAckedFlags` takes the marks back.

A source is a member and a thread of it (`EventSource`). The comparison of two sources fails when
one of them has no id, and a source made from an empty member id has none.

The times are those that the clock shows at the call. The sequence object of a put is its own, as
`EventIdMap::make` creates it, so it is kept by value in the map.
-/

set_option autoImplicit false

namespace GeodeNative.Events

open Lib

/-- The thread id is part of `srcId`; the cached hash code is left out. -/
structure EventSource where
  /-- `m_srcId` with `m_srcIdLen`; null in a source without an id. -/
  srcId : Option (List Byte)
  deriving DecidableEq, Repr

namespace EventSource

/-- The bytes of an `int64_t` in the memory of the client. -/
def memBytes (thrId : BitVec 64) : List Byte := (bigEndian 8 thrId).reverse

/-- `EventSource(memId, memIdLen, thrId)`. A null member id counts as an empty one. -/
def new (memId : List Byte) (thrId : BitVec 64) : EventSource where
  srcId := if memId = [] then none else some (memId ++ memBytes thrId)

/-- `operator==` -/
def equal (a b : EventSource) : Bool :=
  match a.srcId, b.srcId with
  | some x, some y => x = y
  | _, _ => false

/-- The source has an id. -/
def HasId (s : EventSource) : Prop := s.srcId ≠ none

instance (s : EventSource) : Decidable s.HasId := inferInstanceAs (Decidable (_ ≠ _))

theorem equal_iff {a b : EventSource} : a.equal b = true ↔ a = b ∧ a.HasId := by
  obtain ⟨x⟩ := a
  obtain ⟨y⟩ := b
  cases x <;> cases y <;> simp [equal, HasId]

/-- `dereference_equal_to<EventSourcePtr>` -/
def keyEqual : KeyEqual EventSource where
  equal := equal
  symm h := by
    obtain ⟨rfl, hid⟩ := equal_iff.mp h
    exact h
  trans h h' := by
    obtain ⟨rfl, hid⟩ := equal_iff.mp h
    exact h'

end EventSource

/-- `EventSequence` -/
structure EventSequence where
  seqNum : Int
  acked : Bool
  deadline : Int
  deriving DecidableEq, Repr

namespace EventSequence

/-- `EventSequence(seqNum)` -/
def new (now seqNum : Int) : EventSequence where
  seqNum := seqNum
  acked := false
  deadline := now

/-- `touch(ageSecs)` -/
def touch (v : EventSequence) (now ageSecs : Int) : EventSequence :=
  { v with deadline := now + ageSecs }

def setAcked (v : EventSequence) (acked : Bool) : EventSequence := { v with acked := acked }

/-- `operator<=` -/
def le (a b : EventSequence) : Bool := a.seqNum ≤ b.seqNum

end EventSequence

abbrev EventIdMapEntryList := List (EventSource × EventSequence)

/-- `EventIdMap` -/
structure EventIdMap where
  expiry : Int
  map : List (EventSource × EventSequence)
  deriving DecidableEq, Repr

namespace EventIdMap

/-- A map after `init`. -/
def init (expirySecs : Int) : EventIdMap := ⟨expirySecs, []⟩

variable (m : EventIdMap)

def find (key : EventSource) : Option EventSequence :=
  UnorderedMap.find EventSource.keyEqual m.map key

def assign (key : EventSource) (value : EventSequence) : EventIdMap :=
  { m with map := UnorderedMap.assign EventSource.keyEqual m.map key value }

def isDuplicate (key : EventSource) (value : EventSequence) : Bool :=
  match m.find key with
  | some entry => value.le entry
  | none => false

def put (now : Int) (key : EventSource) (value : EventSequence) (onlynew : Bool) :
    Bool × EventIdMap :=
  let value := value.touch now m.expiry
  match m.find key with
  | some entry => if onlynew && value.le entry then (false, m) else (true, m.assign key value)
  | none => (true, m.assign key value)

def touch (now : Int) (key : EventSource) : Bool × EventIdMap :=
  match m.find key with
  | some entry => (true, m.assign key (entry.touch now m.expiry))
  | none => (false, m)

/-- The nodes without the mark, which all get it. -/
def getUnAcked : EventIdMapEntryList × EventIdMap :=
  (m.map.filterMap fun b => if b.2.acked then none else some (b.1, b.2.setAcked true),
    { m with map := m.map.map fun b => (b.1, if b.2.acked then b.2 else b.2.setAcked true) })

/-- The loop of `clearAckedFlags`. -/
def clearLoop (m : EventIdMap) (cleared : Nat) : EventIdMapEntryList → Nat × EventIdMap
  | [] => (cleared, m)
  | item :: entries =>
    match m.find item.1 with
    | some entry => clearLoop (m.assign item.1 (entry.setAcked false)) (cleared + 1) entries
    | none => clearLoop m cleared entries

def clearAckedFlags (entries : EventIdMapEntryList) : Nat × EventIdMap :=
  clearLoop m 0 entries

/-- The nodes whose time is over, and of these, with `onlyacked`, those with the mark. -/
def expire (now : Int) (onlyacked : Bool) : Nat × EventIdMap :=
  let entries := m.map.filter fun b => (!onlyacked || b.2.acked) && decide (b.2.deadline < now)
  (entries.length, { m with map := UnorderedMap.eraseAll EventSource.keyEqual m.map entries })

end EventIdMap

/-! ## Histories -/

/-- A list that `getUnAcked` returned. -/
structure Returned where
  entries : EventIdMapEntryList
  /-- `clearAckedFlags` was called with the list. -/
  cleared : Bool
  deriving DecidableEq, Repr

/-- The map with the events that it accepted and the lists that it gave out. -/
structure EventHistory where
  map : EventIdMap
  accepted : List (EventSource × Int)
  returned : List Returned
  deriving DecidableEq, Repr

/-- One call. `clearAckedFlags i` is given the list of the call number `i` of `getUnAcked`. -/
inductive EventOp where
  | put (now : Int) (source : EventSource) (seq : Int)
  | isDuplicate (source : EventSource) (seq : Int)
  | touch (now : Int) (source : EventSource)
  | getUnAcked
  | clearAckedFlags (i : Nat)
  deriving DecidableEq, Repr

namespace EventHistory

/-- Nothing was called yet. -/
def init (expirySecs : Int) : EventHistory := ⟨.init expirySecs, [], []⟩

/-- `put` of a new sequence object, with `onlynew`. -/
def checkDupAndAdd (h : EventHistory) (now : Int) (source : EventSource) (seq : Int) :
    Bool × EventIdMap :=
  h.map.put now source (.new now seq) true

def step (h : EventHistory) : EventOp → EventHistory
  | .put now source seq =>
    match h.checkDupAndAdd now source seq with
    | (true, m) => { h with map := m, accepted := h.accepted ++ [(source, seq)] }
    | (false, m) => { h with map := m }
  | .isDuplicate _ _ => h
  | .touch now source => { h with map := (h.map.touch now source).2 }
  | .getUnAcked =>
    { h with
      map := h.map.getUnAcked.2
      returned := h.returned ++ [⟨h.map.getUnAcked.1, false⟩] }
  | .clearAckedFlags i =>
    match h.returned[i]? with
    | some r =>
      { h with
        map := (h.map.clearAckedFlags r.entries).2
        returned := h.returned.set i { r with cleared := true } }
    | none => h

/-- The sequence number that is stored for a source. -/
def stored (h : EventHistory) (source : EventSource) : Option Int :=
  (h.map.find source).map (·.seqNum)

/-- `seq` is the newest accepted sequence number of the source. -/
def Newest (h : EventHistory) (source : EventSource) (seq : Int) : Prop :=
  (source, seq) ∈ h.accepted ∧ ∀ seq', (source, seq') ∈ h.accepted → seq' ≤ seq

/-- The list has the sequence number of the source. -/
def Lists (entries : EventIdMapEntryList) (source : EventSource) (seq : Int) : Prop :=
  ∃ e ∈ entries, e.1 = source ∧ e.2.seqNum = seq

/-- The next `getUnAcked` returns the sequence number. -/
def WillBeReturned (h : EventHistory) (source : EventSource) (seq : Int) : Prop :=
  Lists h.map.getUnAcked.1 source seq

/-- An earlier `getUnAcked` returned the sequence number, in a list that was not cleared. -/
def InFlight (h : EventHistory) (source : EventSource) (seq : Int) : Prop :=
  ∃ r ∈ h.returned, r.cleared = false ∧ Lists r.entries source seq

end EventHistory

/-! ## The periodic acknowledgement -/

/-- Where the thread of `periodicAck` is in `doPeriodicAck`. -/
inductive AckPhase where
  | idle
  /-- Before the reply to the request with the entries. -/
  | sending (entries : EventIdMapEntryList)
  | expiring
  deriving DecidableEq, Repr

/-- The variables of `doPeriodicAck`. `accepted` and `acked` are not in the source: they are the
events that `checkDupAndAdd` has accepted, and those that a server has acknowledged. -/
structure PeriodicAck where
  map : EventIdMap
  haEnabled : Bool
  nextAck : Int
  nextAckInc : Int
  phase : AckPhase := .idle
  accepted : List (EventSource × Int) := []
  acked : List (EventSource × Int) := []

/-- An event arrives, or `doPeriodicAck` makes its next step. -/
inductive AckEvent where
  | checkDupAndAdd (now : Int) (source : EventSource) (seq : Int)
  | getUnAcked (now : Int)
  /-- `acked` says that there is an endpoint and that its reply is a `REPLY`. -/
  | reply (acked : Bool)
  | expire (now : Int)

namespace PeriodicAck

def step (a : PeriodicAck) : AckEvent → PeriodicAck
  | .checkDupAndAdd now source seq =>
    let r := a.map.put now source (.new now seq) true
    { a with map := r.2, accepted := a.accepted ++ if r.1 then [(source, seq)] else [] }
  | .getUnAcked now =>
    if a.phase ≠ .idle then a
    else if a.haEnabled && decide (a.nextAck < now) then
      let r := a.map.getUnAcked
      { a with
        nextAck := a.nextAck + a.nextAckInc
        map := r.2
        phase := if r.1 = [] then .expiring else .sending r.1 }
    else { a with phase := .expiring }
  | .reply acked =>
    match a.phase with
    | .sending entries =>
      if acked then
        { a with
          acked := a.acked ++ entries.map fun e => (e.1, e.2.seqNum)
          phase := .expiring }
      else { a with map := (a.map.clearAckedFlags entries).2, phase := .expiring }
    | _ => a
  | .expire now =>
    if a.phase ≠ .expiring then a
    else { a with map := (a.map.expire now a.haEnabled).2, phase := .idle }

end PeriodicAck

end GeodeNative.Events
